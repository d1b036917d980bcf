import GuardianWallet.Sign
import Mathlib.Data.List.Forall2
import Mathlib.Data.List.Nodup
import Mathlib.Data.List.Perm.Subperm

/-!
# What a signing session sends and receives

**Vocabulary.**  `FullDrive` is the call sequence of one `drive_batch` that returned `Ok`;
`Carries` says an envelope carries a message of the machine, as the wire writes it;
`Receives` says which `Incoming` the machine is handed for an envelope; `RoundCalls` is the
call sequence of the loop of `process_round` over a batch.

**Results.**  `driveBatch_ok` and `processRoundLoop_ok` are the spec lemmas of the two
loops; `SignSession.processRound_ok` puts them together for a whole round
(`RoundSpec`).  The call log of a session only grows (`processRoundLoop_calls_grow` and
the lemmas before it), so a delivery stays in it whatever the round does after
(`processRoundLoop_receivedMsg`), and an envelope the session skips changes nothing
(`processRoundLoop_skip`).  `carries_receives` follows one envelope of one session of a
signing group to another session of that group, and `sign_wire_delivers` follows it through
the store, from the machine `create_session` makes to the call `process_round` makes.
-/

namespace GuardianWallet
namespace Sign

open RoundBased

section Spec

variable {σ Msg Sig : Type}

/-- The messages a machine asked to send, in call order. -/
def emissions {Out : Type} : List (Call Msg Out) → List (Outgoing Msg) :=
  List.filterMap fun
    | .proceed (.sendMsg o) => some o
    | _ => none

@[simp] theorem emissions_nil {Out : Type} : emissions ([] : List (Call Msg Out)) = [] := rfl

@[simp] theorem emissions_append {Out : Type} (cs cs' : List (Call Msg Out)) :
    emissions (cs ++ cs') = emissions cs ++ emissions cs' :=
  List.filterMap_append ..

@[simp] theorem emissions_cons_sendMsg {Out : Type} (o : Outgoing Msg) (cs : List (Call Msg Out)) :
    emissions (.proceed (.sendMsg o) :: cs) = o :: emissions cs := rfl

@[simp] theorem emissions_cons_needsOneMoreMessage {Out : Type} (cs : List (Call Msg Out)) :
    emissions (.proceed .needsOneMoreMessage :: cs) = emissions cs := rfl

@[simp] theorem emissions_cons_output {Out : Type} (o : Out) (cs : List (Call Msg Out)) :
    emissions (.proceed (.output o) :: cs) = emissions cs := rfl

@[simp] theorem emissions_cons_yielded {Out : Type} (cs : List (Call Msg Out)) :
    emissions (.proceed .yielded :: cs) = emissions cs := rfl

@[simp] theorem emissions_cons_receivedMsg {Out : Type} (m : Incoming Msg) (b : Bool)
    (cs : List (Call Msg Out)) : emissions (.receivedMsg m b :: cs) = emissions cs := rfl

/-- The calls of one `drive_batch` that returned `Ok`: `proceed` through sends and yields
until the machine asked for a message or output a signature. -/
inductive FullDrive : List (Call Msg (Except String Sig)) → Prop
  | needsInput : FullDrive [.proceed .needsOneMoreMessage]
  | finished (sig : Sig) : FullDrive [.proceed (.output (.ok sig))]
  | sendMsg (o : Outgoing Msg) {cs : List (Call Msg (Except String Sig))} :
      FullDrive cs → FullDrive (.proceed (.sendMsg o) :: cs)
  | yielded {cs : List (Call Msg (Except String Sig))} :
      FullDrive cs → FullDrive (.proceed .yielded :: cs)

/-- Envelope `w` carries message `o` of the party with keygen index `partyIndex` of the
group `parties`: from that index, the serialized message, and a position `p` named by
`parties[p]`. -/
def Carries (c : Codec Msg Sig) (partyIndex : UInt16) (parties : List UInt16)
    (o : Outgoing Msg) (w : WasmSignMessage) : Prop :=
  w.sender = partyIndex ∧ (∃ bytes, c.toJson o.msg = .ok bytes ∧ w.payload = c.b64Encode bytes) ∧
    match o.recipient with
    | .allParties => w.isBroadcast = true ∧ w.recipient = none
    | .oneParty p => w.isBroadcast = false ∧ w.recipient = some (parties[p.toNat]?.getD p)

/-- The `Incoming` a session of group `parties` hands its machine for envelope `w`: id 0,
the sender's position in the group, the envelope's kind, and the decoded payload. -/
def Receives (c : Codec Msg Sig) (parties : List UInt16) (w : WasmSignMessage)
    (inc : Incoming Msg) : Prop :=
  inc.id = 0 ∧ (∃ pos, parties.findIdx? (· == w.sender) = some pos ∧ inc.sender = pos.toUInt16) ∧
    inc.msgType = (if w.isBroadcast then .broadcast else .p2p) ∧
    ∃ bytes, c.b64Decode w.payload = .ok bytes ∧ c.fromJson bytes = .ok inc.msg

/-- The calls the loop of `process_round` makes for a batch: for every envelope it does not
skip, in batch order, one accepted delivery followed by one complete drive. -/
inductive RoundCalls (c : Codec Msg Sig) (partyIndex : UInt16) (parties : List UInt16) :
    List WasmSignMessage → List (Call Msg (Except String Sig)) → Prop
  | nil : RoundCalls c partyIndex parties [] []
  | skip {w : WasmSignMessage} {ws cs} : skips partyIndex w = true →
      RoundCalls c partyIndex parties ws cs → RoundCalls c partyIndex parties (w :: ws) cs
  | deliver {w : WasmSignMessage} {ws} {inc : Incoming Msg} {d cs} : skips partyIndex w = false →
      Receives c parties w inc → FullDrive d → RoundCalls c partyIndex parties ws cs →
      RoundCalls c partyIndex parties (w :: ws) (.receivedMsg inc true :: d ++ cs)

/-- `serde_json` and `base64` decode what they encode. -/
def Codec.RoundTrips (c : Codec Msg Sig) : Prop :=
  ∀ m bytes, c.toJson m = .ok bytes →
    c.b64Decode (c.b64Encode bytes) = .ok bytes ∧ c.fromJson bytes = .ok m

/-- What a `process_round` that returned `Ok(res)` did to session `s`, leaving `s'`. -/
structure RoundSpec (c : Codec Msg Sig) (s : SignSession σ Msg Sig) (batch : List WasmSignMessage)
    (res : ProcessRoundResult) (s' : SignSession σ Msg Sig) : Prop where
  /-- The calls of the loop over `batch`, then one more complete drive when the `u32` count
  of deliveries is 0; `res.messages` carries, in order, every message the machine sent. -/
  calls : ∃ new extra, s'.sm.calls = s.sm.calls ++ new ++ extra ∧
    RoundCalls c s.partyIndex s.partiesAtKeygen batch new ∧
    (if batch.countP (fun w => !skips s.partyIndex w) % UInt32.size = 0 then FullDrive extra
      else extra = []) ∧
    List.Forall₂ (Carries c s.partyIndex s.partiesAtKeygen) (emissions (new ++ extra)) res.messages
  /-- `complete` and `signature` read the signature the session holds afterwards. -/
  complete : res.complete = s'.signature.isSome ∧ res.signature = s'.signature
  /-- The session keeps its keygen index and its group. -/
  same : s'.partyIndex = s.partyIndex ∧ s'.partiesAtKeygen = s.partiesAtKeygen

end Spec

section Loops

variable {σ Msg Sig : Type} (c : Codec Msg Sig) (sm : StateMachine σ Msg (Except String Sig))

/-- `drive_batch` only calls the machine, first `proceed`, and sets the signature. -/
theorem driveBatch_snd : ∀ (fuel : Nat) (s : SignSession σ Msg Sig), ∃ st rest sig,
    (driveBatch c sm fuel s).2 = { s with sm := ⟨st, s.sm.calls ++ rest⟩, signature := sig } ∧
      (0 < fuel → ∃ rest', rest = .proceed (sm.proceed s.sm.sm).1 :: rest')
  | 0, s => ⟨s.sm.sm, [], s.signature, by simp [driveBatch], by simp⟩
  | fuel + 1, s => by
      rw [driveBatch]
      rcases hp : sm.proceed s.sm.sm with ⟨r, st⟩
      simp only [SmWrapper.driveOne, hp]
      have hrec := driveBatch_snd fuel { s with sm := ⟨st, s.sm.calls ++ [.proceed r]⟩ }
      split
      · exact ⟨st, [.proceed r], s.signature, rfl, fun _ => ⟨[], rfl⟩⟩
      · obtain ⟨st', rest, sig, h, -⟩ := hrec
        rcases hb : driveBatch c sm fuel { s with sm := ⟨st, s.sm.calls ++ [.proceed r]⟩ }
          with ⟨x, s₂⟩
        rw [hb] at h
        exact ⟨st', .proceed r :: rest, sig, by simp only at h; simp [h], fun _ => ⟨rest, rfl⟩⟩
      · exact ⟨st, [.proceed r], s.signature, rfl, fun _ => ⟨[], rfl⟩⟩
      · exact ⟨st, [.proceed r], some _, rfl, fun _ => ⟨[], rfl⟩⟩
      · obtain ⟨st', rest, sig, h, -⟩ := hrec
        exact ⟨st', .proceed r :: rest, sig, by simp [h], fun _ => ⟨rest, rfl⟩⟩

@[simp] theorem driveBatch_partyIndex (fuel : Nat) (s : SignSession σ Msg Sig) :
    (driveBatch c sm fuel s).2.partyIndex = s.partyIndex := by
  obtain ⟨_, _, _, h, -⟩ := driveBatch_snd c sm fuel s
  rw [h]

@[simp] theorem driveBatch_partiesAtKeygen (fuel : Nat) (s : SignSession σ Msg Sig) :
    (driveBatch c sm fuel s).2.partiesAtKeygen = s.partiesAtKeygen := by
  obtain ⟨_, _, _, h, -⟩ := driveBatch_snd c sm fuel s
  rw [h]

/-- The envelope `drive_batch` writes for a message `drive_one` serialized carries it. -/
theorem carries_of_driveOneResult {i : UInt16} (parties : List UInt16) {o : Outgoing Msg}
    {m : MpcMessage} (h : driveOneResult c i (.sendMsg o) = .ok (.sendMsg m)) :
    Carries c i parties o (mpcMsgToWasm m parties) := by
  obtain ⟨dest, msg⟩ := o
  simp only [driveOneResult] at h
  split at h
  · cases h
  · next bytes hj =>
      cases h
      refine ⟨rfl, ⟨bytes, hj, rfl⟩, ?_⟩
      cases dest <;> exact ⟨rfl, rfl⟩

/-- **`drive_batch`.**  A drive that returned `Ok(ws)` made one complete drive, and `ws`
carries, in order, the messages the machine asked to send in it. -/
theorem driveBatch_ok : ∀ {fuel : Nat} {s s' : SignSession σ Msg Sig} {ws : List WasmSignMessage},
    driveBatch c sm fuel s = (.ok ws, s') →
    ∃ d, s'.sm.calls = s.sm.calls ++ d ∧ FullDrive d ∧
      List.Forall₂ (Carries c s.partyIndex s.partiesAtKeygen) (emissions d) ws
  | 0, _, _, _, h => by simp [driveBatch] at h
  | fuel + 1, s, s', ws, h => by
      unfold driveBatch at h
      rw [SmWrapper.driveOne] at h
      rcases hp : sm.proceed s.sm.sm with ⟨r, st⟩
      rw [hp] at h
      cases r with
      | sendMsg o =>
          cases hr : driveOneResult c s.partyIndex (.sendMsg o) with
          | error e => simp [hr] at h
          | ok r =>
              have hm : ∃ m, r = .sendMsg m := by
                simp only [driveOneResult] at hr; split at hr <;> cases hr; exact ⟨_, rfl⟩
              obtain ⟨m, rfl⟩ := hm
              simp only [hr] at h
              rcases hrec : driveBatch c sm fuel
                { s with sm := ⟨st, s.sm.calls ++ [.proceed (.sendMsg o)]⟩ } with ⟨rest, s₂⟩
              rw [hrec] at h
              cases rest with
              | error f => cases h
              | ok ws' =>
                  obtain ⟨⟨⟩, rfl⟩ := Prod.mk.inj h
                  obtain ⟨d, hd, hfd, hws⟩ := driveBatch_ok hrec
                  exact ⟨_, by simp [hd], .sendMsg o hfd,
                    .cons (carries_of_driveOneResult c _ hr) hws⟩
      | needsOneMoreMessage =>
          obtain ⟨⟨⟩, rfl⟩ := Prod.mk.inj h
          exact ⟨_, rfl, .needsInput, .nil⟩
      | output o =>
          cases o with
          | error e => simp [driveOneResult] at h
          | ok sig =>
              obtain ⟨⟨⟩, rfl⟩ := Prod.mk.inj h
              exact ⟨_, rfl, .finished sig, .nil⟩
      | yielded =>
          obtain ⟨d, hd, hfd, hws⟩ := driveBatch_ok h
          exact ⟨_, by simp [hd], .yielded hfd, hws⟩
      | error e => simp [driveOneResult] at h

/-- `receive_msg` that returned `Ok` handed the machine the decoded message, which it
accepted. -/
theorem SmWrapper.receiveMsg_ok {w w' : SmWrapper σ Msg (Except String Sig)} {snd : UInt16}
    {t : UInt8} {p : String} (h : w.receiveMsg c sm snd t p = (.ok (), w')) :
    ∃ inc, decodeIncoming c snd t p = .ok inc ∧ w'.calls = w.calls ++ [.receivedMsg inc true] := by
  unfold SmWrapper.receiveMsg at h
  split at h
  · cases h
  · next inc hinc =>
      rcases hr : sm.receivedMsg w.sm inc with ⟨r, st⟩
      rw [hr] at h
      cases r with
      | error => cases h
      | ok => obtain ⟨-, rfl⟩ := Prod.mk.inj h; exact ⟨inc, hinc, rfl⟩

/-- What `receive_msg` decodes for an envelope is what `Receives` says the machine gets. -/
theorem receives_of_decodeIncoming {parties : List UInt16} {w : WasmSignMessage} {pos : Nat}
    (hpos : parties.findIdx? (· == w.sender) = some pos) {inc : Incoming Msg}
    (h : decodeIncoming c pos.toUInt16 (if w.isBroadcast then 0 else 1) w.payload = .ok inc) :
    Receives c parties w inc := by
  unfold decodeIncoming at h
  split at h
  · cases h
  · next bytes hb =>
      split at h
      · cases h
      · next msg hm =>
          cases h
          exact ⟨rfl, ⟨pos, hpos, rfl⟩, by cases w.isBroadcast <;> rfl, bytes, hb, hm⟩

@[simp] theorem deliverOne_partyIndex (fuel : Nat) (s : SignSession σ Msg Sig)
    (w : WasmSignMessage) : (deliverOne c sm fuel s w).2.partyIndex = s.partyIndex := by
  unfold deliverOne
  split
  · rfl
  · next pos _ =>
      rcases SmWrapper.receiveMsg c sm s.sm pos.toUInt16 (if w.isBroadcast then 0 else 1)
        w.payload with ⟨_ | _, w₁⟩ <;> simp

@[simp] theorem deliverOne_partiesAtKeygen (fuel : Nat) (s : SignSession σ Msg Sig)
    (w : WasmSignMessage) : (deliverOne c sm fuel s w).2.partiesAtKeygen = s.partiesAtKeygen := by
  unfold deliverOne
  split
  · rfl
  · next pos _ =>
      rcases SmWrapper.receiveMsg c sm s.sm pos.toUInt16 (if w.isBroadcast then 0 else 1)
        w.payload with ⟨_ | _, w₁⟩ <;> simp

/-- A delivery that returned `Ok` handed the machine the `Incoming` that `Receives` names,
which it accepted, and made one complete drive. -/
theorem deliverOne_ok {fuel : Nat} {s s' : SignSession σ Msg Sig} {w : WasmSignMessage}
    {batch : List WasmSignMessage} (h : deliverOne c sm fuel s w = (.ok batch, s')) :
    ∃ inc d, s'.sm.calls = s.sm.calls ++ .receivedMsg inc true :: d ∧
      Receives c s.partiesAtKeygen w inc ∧ FullDrive d ∧
      List.Forall₂ (Carries c s.partyIndex s.partiesAtKeygen) (emissions d) batch := by
  unfold deliverOne at h
  split at h
  · cases h
  · next pos hpos =>
      rcases hrm : SmWrapper.receiveMsg c sm s.sm pos.toUInt16 (if w.isBroadcast then 0 else 1)
        w.payload with ⟨r, w₁⟩
      rw [hrm] at h
      cases r with
      | error => cases h
      | ok =>
          obtain ⟨inc, hinc, hcalls⟩ := SmWrapper.receiveMsg_ok c sm hrm
          obtain ⟨d, hd, hfd, hws⟩ := driveBatch_ok c sm h
          exact ⟨inc, d, by simp [hd, hcalls], receives_of_decodeIncoming c hpos hinc, hfd, hws⟩

@[simp] theorem processRoundLoop_partyIndex (fuel : Nat) :
    ∀ (batch : List WasmSignMessage) (s : SignSession σ Msg Sig) (d : UInt32),
      (processRoundLoop c sm fuel batch s d).2.partyIndex = s.partyIndex
  | [], _, _ => rfl
  | w :: ws, s, d => by
      rw [processRoundLoop]
      split
      · exact processRoundLoop_partyIndex fuel ws s d
      · rcases hdo : deliverOne c sm fuel s w with ⟨_ | _, s₁⟩
        · simpa using (congrArg (·.2.partyIndex) hdo).symm
        · simpa [processRoundLoop_partyIndex fuel ws] using (congrArg (·.2.partyIndex) hdo).symm

@[simp] theorem processRoundLoop_partiesAtKeygen (fuel : Nat) :
    ∀ (batch : List WasmSignMessage) (s : SignSession σ Msg Sig) (d : UInt32),
      (processRoundLoop c sm fuel batch s d).2.partiesAtKeygen = s.partiesAtKeygen
  | [], _, _ => rfl
  | w :: ws, s, d => by
      rw [processRoundLoop]
      split
      · exact processRoundLoop_partiesAtKeygen fuel ws s d
      · rcases hdo : deliverOne c sm fuel s w with ⟨_ | _, s₁⟩
        · simpa using (congrArg (·.2.partiesAtKeygen) hdo).symm
        · simpa [processRoundLoop_partiesAtKeygen fuel ws] using
          (congrArg (·.2.partiesAtKeygen) hdo).symm

/-- **The loop of `process_round`.**  A loop that returned `Ok` delivered every envelope it
did not skip, in batch order, each followed by a complete drive; it returns the envelopes of
the messages the machine sent, in order, and counts the deliveries in a `u32`. -/
theorem processRoundLoop_ok {fuel : Nat} : ∀ {batch : List WasmSignMessage}
    {s s' : SignSession σ Msg Sig} {d d' : UInt32} {out : List WasmSignMessage},
    processRoundLoop c sm fuel batch s d = (.ok (out, d'), s') →
    ∃ new, s'.sm.calls = s.sm.calls ++ new ∧ RoundCalls c s.partyIndex s.partiesAtKeygen batch new ∧
      List.Forall₂ (Carries c s.partyIndex s.partiesAtKeygen) (emissions new) out ∧
      d'.toNat = (d.toNat + batch.countP fun w => !skips s.partyIndex w) % UInt32.size
  | [], s, s', d, d', out, h => by
      obtain ⟨⟨⟩, rfl⟩ := Prod.mk.inj h
      exact ⟨[], by simp, .nil, .nil, by simp [Nat.mod_eq_of_lt d.toNat_lt_size]⟩
  | w :: ws, s, s', d, d', out, h => by
      rw [processRoundLoop] at h
      by_cases hsk : skips s.partyIndex w = true
      · rw [if_pos hsk] at h
        obtain ⟨new, h1, h2, h3, h4⟩ := processRoundLoop_ok h
        exact ⟨new, h1, .skip hsk h2, h3, by simp [h4, hsk]⟩
      rw [if_neg hsk] at h
      rcases hdo : deliverOne c sm fuel s w with ⟨_ | batch, s₁⟩
      · rw [hdo] at h; cases h
      rcases hrec : processRoundLoop c sm fuel ws s₁ (d + 1) with ⟨_ | ⟨out', d''⟩, s₂⟩
      · simp only [hdo, hrec] at h; cases h
      simp only [hdo, hrec] at h
      obtain ⟨⟨⟩, rfl⟩ := Prod.mk.inj h
      obtain ⟨inc, dd, hdd, hinc, hfd, hws⟩ := deliverOne_ok c sm hdo
      have hpi : s₁.partyIndex = s.partyIndex := by simpa using (congrArg (·.2.partyIndex) hdo).symm
      have hpk : s₁.partiesAtKeygen = s.partiesAtKeygen := by
        simpa using (congrArg (·.2.partiesAtKeygen) hdo).symm
      obtain ⟨new, h1, h2, h3, h4⟩ := processRoundLoop_ok hrec
      rw [hpi, hpk] at h2 h3
      rw [hpi] at h4
      refine ⟨.receivedMsg inc true :: dd ++ new, by simp [h1, hdd],
        .deliver (by simpa using hsk) hinc hfd h2, by simpa using List.rel_append hws h3, ?_⟩
      have h1d : (d + 1).toNat = (d.toNat + 1) % UInt32.size := rfl
      have hsk' : skips s.partyIndex w = false := by simpa using hsk
      simp only [List.countP_cons, hsk', Bool.not_false, if_true, h4, h1d, UInt32.size]
      omega

@[simp] theorem SignSession.processRound_partyIndex (s : SignSession σ Msg Sig) (fuel : Nat)
    (batch : List WasmSignMessage) : (s.processRound c sm fuel batch).2.partyIndex = s.partyIndex := by
  unfold SignSession.processRound
  rcases hl : processRoundLoop c sm fuel batch s 0 with ⟨_ | ⟨out, d⟩, s₁⟩ <;>
    have h₁ : s₁.partyIndex = s.partyIndex := by simpa using (congrArg (·.2.partyIndex) hl).symm
  · exact h₁
  · dsimp only
    split_ifs
    · rcases hdb : driveBatch c sm fuel s₁ with ⟨_ | _, s₂⟩ <;>
        simpa [h₁] using (congrArg (·.2.partyIndex) hdb).symm
    · exact h₁

@[simp] theorem SignSession.processRound_partiesAtKeygen (s : SignSession σ Msg Sig) (fuel : Nat)
    (batch : List WasmSignMessage) :
    (s.processRound c sm fuel batch).2.partiesAtKeygen = s.partiesAtKeygen := by
  unfold SignSession.processRound
  rcases hl : processRoundLoop c sm fuel batch s 0 with ⟨_ | ⟨out, d⟩, s₁⟩ <;>
    have h₁ : s₁.partiesAtKeygen = s.partiesAtKeygen := by
      simpa using (congrArg (·.2.partiesAtKeygen) hl).symm
  · exact h₁
  · dsimp only
    split_ifs
    · rcases hdb : driveBatch c sm fuel s₁ with ⟨_ | _, s₂⟩ <;>
        simpa [h₁] using (congrArg (·.2.partiesAtKeygen) hdb).symm
    · exact h₁

/-- **A round.**  A `process_round` that returned `Ok` did what `RoundSpec` says. -/
theorem SignSession.processRound_ok {fuel : Nat} {s s' : SignSession σ Msg Sig}
    {batch : List WasmSignMessage} {res : ProcessRoundResult}
    (h : s.processRound c sm fuel batch = (.ok res, s')) : RoundSpec c s batch res s' := by
  have hsame : s'.partyIndex = s.partyIndex ∧ s'.partiesAtKeygen = s.partiesAtKeygen := by
    have h₁ := congrArg (·.2.partyIndex) h
    have h₂ := congrArg (·.2.partiesAtKeygen) h
    simp only [SignSession.processRound_partyIndex, SignSession.processRound_partiesAtKeygen] at h₁ h₂
    exact ⟨h₁.symm, h₂.symm⟩
  unfold SignSession.processRound at h
  rcases hl : processRoundLoop c sm fuel batch s 0 with ⟨_ | ⟨out, d⟩, s₁⟩ <;> rw [hl] at h
  · cases h
  obtain ⟨new, h1, h2, h3, h4⟩ := processRoundLoop_ok c sm hl
  simp only [UInt32.toNat_zero, Nat.zero_add] at h4
  dsimp only at h
  split_ifs at h with hd
  · rcases hdb : driveBatch c sm fuel s₁ with ⟨_ | batch', s₂⟩ <;> rw [hdb] at h
    · cases h
    obtain ⟨⟨⟩, rfl⟩ := Prod.mk.inj h
    obtain ⟨dd, hdd, hfd, hws⟩ := driveBatch_ok c sm hdb
    have hpi : s₁.partyIndex = s.partyIndex := by simpa using (congrArg (·.2.partyIndex) hl).symm
    have hpk : s₁.partiesAtKeygen = s.partiesAtKeygen := by
      simpa using (congrArg (·.2.partiesAtKeygen) hl).symm
    rw [hpi, hpk] at hws
    have h0 : batch.countP (fun w => !skips s.partyIndex w) % UInt32.size = 0 := by
      rw [← h4, hd]; rfl
    exact ⟨⟨new, dd, by simp [hdd, h1], h2, by rw [if_pos h0]; exact hfd,
      by simpa using List.rel_append h3 hws⟩, ⟨rfl, rfl⟩, hsame⟩
  · obtain ⟨⟨⟩, rfl⟩ := Prod.mk.inj h
    have h0 : batch.countP (fun w => !skips s.partyIndex w) % UInt32.size ≠ 0 := fun h0 =>
      hd (UInt32.toNat.inj (by rw [h4, h0]; rfl))
    exact ⟨⟨new, [], by simp [h1], h2, by rw [if_neg h0], by simpa using h3⟩, ⟨rfl, rfl⟩, hsame⟩

/-- `receive_msg` only appends to the call log. -/
theorem SmWrapper.receiveMsg_calls_grow (w : SmWrapper σ Msg (Except String Sig)) (snd : UInt16)
    (t : UInt8) (p : String) : w.calls <+: (w.receiveMsg c sm snd t p).2.calls := by
  unfold SmWrapper.receiveMsg
  split
  · exact List.prefix_refl _
  · exact List.prefix_append _ _

/-- `drive_batch` only appends to the call log. -/
theorem driveBatch_calls_grow (fuel : Nat) (s : SignSession σ Msg Sig) :
    s.sm.calls <+: (driveBatch c sm fuel s).2.sm.calls := by
  obtain ⟨_, rest, _, h, -⟩ := driveBatch_snd c sm fuel s
  rw [h]
  exact List.prefix_append _ _

/-- A delivery only appends to the call log. -/
theorem deliverOne_calls_grow (fuel : Nat) (s : SignSession σ Msg Sig) (w : WasmSignMessage) :
    s.sm.calls <+: (deliverOne c sm fuel s w).2.sm.calls := by
  unfold deliverOne
  split
  · exact List.prefix_refl _
  · next pos _ =>
      have h := SmWrapper.receiveMsg_calls_grow c sm s.sm pos.toUInt16
        (if w.isBroadcast then 0 else 1) w.payload
      rcases hr : SmWrapper.receiveMsg c sm s.sm pos.toUInt16 (if w.isBroadcast then 0 else 1)
        w.payload with ⟨_ | ⟨⟨⟩⟩, w₁⟩ <;> rw [hr] at h
      · exact h
      · exact h.trans (driveBatch_calls_grow c sm fuel { s with sm := w₁ })

/-- The loop of `process_round` only appends to the call log. -/
theorem processRoundLoop_calls_grow (fuel : Nat) :
    ∀ (batch : List WasmSignMessage) (s : SignSession σ Msg Sig) (d : UInt32),
      s.sm.calls <+: (processRoundLoop c sm fuel batch s d).2.sm.calls
  | [], _, _ => List.prefix_refl _
  | w :: ws, s, d => by
      rw [processRoundLoop]
      split
      · exact processRoundLoop_calls_grow fuel ws s d
      · have h₁ := deliverOne_calls_grow c sm fuel s w
        rcases hdo : deliverOne c sm fuel s w with ⟨_ | _, s₁⟩ <;> rw [hdo] at h₁
        · exact h₁
        · exact h₁.trans (processRoundLoop_calls_grow fuel ws s₁ (d + 1))

/-- A round keeps the calls its loop made, whatever its final drive returns. -/
theorem SignSession.processRound_calls_grow (s : SignSession σ Msg Sig) (fuel : Nat)
    (batch : List WasmSignMessage) :
    (processRoundLoop c sm fuel batch s 0).2.sm.calls <+: (s.processRound c sm fuel batch).2.sm.calls := by
  unfold SignSession.processRound
  rcases processRoundLoop c sm fuel batch s 0 with ⟨_ | ⟨out, d⟩, s₁⟩
  · exact List.prefix_refl _
  · dsimp only
    split_ifs
    · have h := driveBatch_calls_grow c sm fuel s₁
      rcases hdb : driveBatch c sm fuel s₁ with ⟨_ | _, s₂⟩ <;> rw [hdb] at h <;> exact h
    · exact List.prefix_refl _

/-- A delivery that finds the sender at `pos` and decodes the payload to `inc` hands the
machine `inc`, whatever the machine answers and whatever the drive after it returns. -/
theorem deliverOne_receivedMsg (fuel : Nat) {s : SignSession σ Msg Sig} {w : WasmSignMessage}
    {pos : Nat} (hpos : s.partiesAtKeygen.findIdx? (· == w.sender) = some pos) {inc : Incoming Msg}
    (hinc : decodeIncoming c pos.toUInt16 (if w.isBroadcast then 0 else 1) w.payload = .ok inc) :
    ∃ accepted, s.sm.calls ++ [.receivedMsg inc accepted] <+: (deliverOne c sm fuel s w).2.sm.calls := by
  rcases hr : sm.receivedMsg s.sm.sm inc with ⟨_ | ⟨⟨⟩⟩, st⟩ <;>
    simp only [deliverOne, hpos, SmWrapper.receiveMsg, hinc, hr]
  · exact ⟨false, List.prefix_refl _⟩
  · exact ⟨true, driveBatch_calls_grow c sm fuel
      { s with sm := ⟨st, s.sm.calls ++ [.receivedMsg inc true]⟩ }⟩

/-- A loop over `pre ++ rest` whose run over `pre` returned `Ok` goes on over `rest` from
where `pre` left it. -/
theorem processRoundLoop_append {fuel : Nat} (rest : List WasmSignMessage) :
    ∀ {pre : List WasmSignMessage} {s s₁ : SignSession σ Msg Sig} {d d' : UInt32}
      {out : List WasmSignMessage},
    processRoundLoop c sm fuel pre s d = (.ok (out, d'), s₁) →
    processRoundLoop c sm fuel (pre ++ rest) s d =
      ((processRoundLoop c sm fuel rest s₁ d').1.map fun r => (out ++ r.1, r.2),
        (processRoundLoop c sm fuel rest s₁ d').2)
  | [], s, s₁, d, d', out, h => by
      obtain ⟨⟨⟩, rfl⟩ := Prod.mk.inj h
      rw [List.nil_append]
      rcases processRoundLoop c sm fuel rest s d with ⟨_ | _, _⟩ <;> rfl
  | w :: pre, s, s₁, d, d', out, h => by
      rw [processRoundLoop] at h
      rw [List.cons_append, processRoundLoop]
      split_ifs at h ⊢
      · exact processRoundLoop_append rest h
      rcases hdo : deliverOne c sm fuel s w with ⟨_ | batch, s₂⟩
      · simp [hdo] at h
      rcases hrec : processRoundLoop c sm fuel pre s₂ (d + 1) with ⟨_ | ⟨out', d''⟩, s₃⟩
      · simp [hdo, hrec, Except.map] at h
      simp only [hdo, hrec] at h
      obtain ⟨⟨⟩, rfl⟩ := Prod.mk.inj h
      simp only [processRoundLoop_append rest hrec]
      rcases processRoundLoop c sm fuel rest s₃ d'' with ⟨_ | _, _⟩ <;> simp [Except.map]

/-- A loop that does not skip its first envelope, found and decoded as `inc`, hands the
machine `inc` before anything else. -/
theorem processRoundLoop_receivedMsg (fuel : Nat) {s : SignSession σ Msg Sig}
    {w : WasmSignMessage} (hsk : skips s.partyIndex w = false) {pos : Nat}
    (hpos : s.partiesAtKeygen.findIdx? (· == w.sender) = some pos) {inc : Incoming Msg}
    (hinc : decodeIncoming c pos.toUInt16 (if w.isBroadcast then 0 else 1) w.payload = .ok inc)
    (post : List WasmSignMessage) (d : UInt32) :
    ∃ accepted, s.sm.calls ++ [.receivedMsg inc accepted] <+:
      (processRoundLoop c sm fuel (w :: post) s d).2.sm.calls := by
  obtain ⟨accepted, h⟩ := deliverOne_receivedMsg c sm fuel hpos hinc
  refine ⟨accepted, h.trans ?_⟩
  rw [processRoundLoop, if_neg (by simp [hsk])]
  rcases deliverOne c sm fuel s w with ⟨_ | _, s₁⟩
  · exact List.prefix_refl _
  · exact processRoundLoop_calls_grow c sm fuel post s₁ (d + 1)

/-- An envelope the session skips changes nothing of the loop, wherever it stands in the
batch. -/
theorem processRoundLoop_skip (fuel : Nat) {pb : UInt16} {w : WasmSignMessage}
    (hsk : skips pb w = true) (post : List WasmSignMessage) :
    ∀ (pre : List WasmSignMessage) (s : SignSession σ Msg Sig) (d : UInt32), s.partyIndex = pb →
      processRoundLoop c sm fuel (pre ++ w :: post) s d = processRoundLoop c sm fuel (pre ++ post) s d
  | [], s, d, hs => by rw [List.nil_append, List.nil_append, processRoundLoop, hs, if_pos hsk]
  | m :: pre, s, d, hs => by
      rw [List.cons_append, List.cons_append, processRoundLoop, processRoundLoop]
      split_ifs
      · exact processRoundLoop_skip fuel hsk post pre s d hs
      rcases hdo : deliverOne c sm fuel s m with ⟨_ | batch, s₁⟩
      · rfl
      have hs₁ : s₁.partyIndex = pb := by
        simpa [hs] using (congrArg (·.2.partyIndex) hdo).symm
      dsimp only
      rw [processRoundLoop_skip fuel hsk post pre s₁ (d + 1) hs₁]

variable {Core Aux Key : Type} (lib : KeyLib Core Aux Key σ)

/-- **`create_session`.**  It fails leaving the store as it was, or it found the party's
position, made the machine, drove it once with success, and stored the session under the
id it returns. -/
theorem createSession_eq {fuel : Nat} {sessions sessions' : Sessions σ Msg Sig}
    {coreShareBytes auxInfoBytes messageHash eidBytes : List UInt8} {partyIndex : UInt16}
    {parties : List UInt16} {sessionId : String} {r : Except Fault CreateSessionResult}
    (h : createSession c sm lib fuel sessions coreShareBytes auxInfoBytes messageHash partyIndex
      parties eidBytes sessionId = (r, sessions')) :
    (∃ f, r = .error f ∧ sessions' = sessions) ∨
    ∃ pos st s messages, parties.findIdx? (· == partyIndex) = some pos ∧
      driveBatch c sm fuel ⟨⟨st, []⟩, partyIndex, parties, none⟩ = (.ok messages, s) ∧
      r = .ok ⟨sessionId, messages⟩ ∧ sessions' = Function.update sessions sessionId (some s) := by
  unfold createSession at h
  split at h
  · exact .inl ⟨_, (Prod.mk.inj h).1.symm, (Prod.mk.inj h).2.symm⟩
  split at h
  · exact .inl ⟨_, (Prod.mk.inj h).1.symm, (Prod.mk.inj h).2.symm⟩
  split at h
  · exact .inl ⟨_, (Prod.mk.inj h).1.symm, (Prod.mk.inj h).2.symm⟩
  split_ifs at h
  · exact .inl ⟨_, (Prod.mk.inj h).1.symm, (Prod.mk.inj h).2.symm⟩
  split at h
  · exact .inl ⟨_, (Prod.mk.inj h).1.symm, (Prod.mk.inj h).2.symm⟩
  next pos hpos =>
    dsimp only at h
    rcases hdb : driveBatch c sm fuel ⟨⟨lib.signing eidBytes pos.toUInt16 parties _ messageHash, []⟩,
      partyIndex, parties, none⟩ with ⟨_ | messages, s⟩ <;> rw [hdb] at h
    · exact .inl ⟨_, (Prod.mk.inj h).1.symm, (Prod.mk.inj h).2.symm⟩
    · exact .inr ⟨pos, _, s, messages, hpos, hdb, (Prod.mk.inj h).1.symm, (Prod.mk.inj h).2.symm⟩

/-- **A `create_session` that returned `Ok`.**  It loaded the key share, found a hash of 32
bytes and the party at position `pos` of its group, made the machine `signing(eid, pos,
parties, key_share)`, drove it once with success, and stored the session under the id it
returns. -/
theorem createSession_eq_ok {fuel : Nat} {sessions sessions' : Sessions σ Msg Sig}
    {coreShareBytes auxInfoBytes messageHash eidBytes : List UInt8} {partyIndex : UInt16}
    {parties : List UInt16} {sessionId : String} {res : CreateSessionResult}
    (h : createSession c sm lib fuel sessions coreShareBytes auxInfoBytes messageHash partyIndex
      parties eidBytes sessionId = (.ok res, sessions')) :
    ∃ core aux key pos s, lib.coreShare coreShareBytes = .ok core ∧
      lib.auxInfo auxInfoBytes = .ok aux ∧ lib.fromParts core aux = .ok key ∧
      messageHash.length = 32 ∧ parties.findIdx? (· == partyIndex) = some pos ∧
      driveBatch c sm fuel ⟨⟨lib.signing eidBytes pos.toUInt16 parties key messageHash, []⟩,
        partyIndex, parties, none⟩ = (.ok res.messages, s) ∧
      res.sessionId = sessionId ∧ sessions' = Function.update sessions sessionId (some s) := by
  unfold createSession at h
  split at h
  · cases h
  next core hcore =>
  split at h
  · cases h
  next aux haux =>
  split at h
  · cases h
  next key hkey =>
  split_ifs at h with hlen
  · cases h
  split at h
  · cases h
  next pos hpos =>
  dsimp only at h
  rcases hdb : driveBatch c sm fuel ⟨⟨lib.signing eidBytes pos.toUInt16 parties key messageHash, []⟩,
    partyIndex, parties, none⟩ with ⟨_ | messages, s⟩ <;> rw [hdb] at h
  · cases h
  obtain ⟨⟨⟩, rfl⟩ := Prod.mk.inj h
  exact ⟨core, aux, key, pos, s, hcore, haux, hkey, not_not.1 hlen, hpos, hdb, rfl, rfl⟩

end Loops

section Group

variable {σ Msg Sig : Type} {P : List UInt16}

/-- A group of distinct `u16` keygen indices has at most `2^16` members. -/
theorem length_le_of_nodup (hP : P.Nodup) : P.length ≤ 65536 := by
  have hsub : P.map UInt16.toNat ⊆ List.range 65536 := fun x hx => by
    obtain ⟨y, -, rfl⟩ := List.mem_map.1 hx
    exact List.mem_range.2 y.toNat_lt_size
  simpa using ((hP.map_on fun _ _ _ _ h => UInt16.toNat.inj h).subperm hsub).length_le

/-- In a group of distinct keygen indices, `P[a]` is found at position `a`. -/
theorem findIdx?_of_nodup (hP : P.Nodup) {a : Nat} {pa : UInt16} (ha : P[a]? = some pa) :
    P.findIdx? (· == pa) = some a := by
  obtain ⟨hlt, rfl⟩ := List.getElem?_eq_some_iff.1 ha
  refine List.findIdx?_eq_some_iff_getElem.2 ⟨hlt, by simp, fun j hj => ?_⟩
  simp only [beq_iff_eq, hP.getElem_inj_iff]
  omega

theorem mem_of_findIdx? {x : UInt16} {pos : Nat} (h : P.findIdx? (· == x) = some pos) : x ∈ P := by
  obtain ⟨hlt, hx, -⟩ := List.findIdx?_eq_some_iff_getElem.1 h
  exact (beq_iff_eq.1 hx) ▸ List.getElem_mem hlt

variable (c : Codec Msg Sig)

/-- An envelope of `P[a]` is kept by the session of `P[b]` exactly when it is a broadcast
or a message to position `b`. -/
theorem carries_keeps (hP : P.Nodup) {b : Nat} {pa pb : UInt16} (hb : P[b]? = some pb)
    {o : Outgoing Msg} {w : WasmSignMessage} (hw : Carries c pa P o w)
    (hdest : ∀ p, o.recipient = .oneParty p → p.toNat < P.length) :
    skips pb w = false ↔ o.recipient = .allParties ∨ ∃ p, o.recipient = .oneParty p ∧ p.toNat = b := by
  obtain ⟨-, -, hr⟩ := hw
  obtain ⟨dest, m⟩ := o
  cases dest with
  | allParties => simp [skips, hr.1]
  | oneParty p =>
      have hp := hdest p rfl
      obtain ⟨hbl, rfl⟩ := List.getElem?_eq_some_iff.1 hb
      simp only [skips, hr.1, hr.2, List.getElem?_eq_getElem hp, Option.getD_some]
      simp [hP.getElem_inj_iff]

/-- The session of any member hands its machine, for an envelope of `P[a]`, exactly the
message of `a`, from position `a`, of the envelope's kind. -/
theorem carries_receives (hP : P.Nodup) {a : Nat} {pa : UInt16} (ha : P[a]? = some pa)
    (hrt : c.RoundTrips) {o : Outgoing Msg} {w : WasmSignMessage} (hw : Carries c pa P o w)
    (inc : Incoming Msg) :
    Receives c P w inc ↔ inc.id = 0 ∧ inc.sender.toNat = a ∧
      inc.msgType = (if o.recipient = .allParties then .broadcast else .p2p) ∧ inc.msg = o.msg := by
  obtain ⟨hs, ⟨bytes, hj, hpay⟩, hr⟩ := hw
  obtain ⟨hdec, hjson⟩ := hrt _ _ hj
  have hal : a < 65536 := lt_of_lt_of_le (List.getElem?_eq_some_iff.1 ha).1 (length_le_of_nodup hP)
  have hkind : (if w.isBroadcast then MessageType.broadcast else .p2p) =
      if o.recipient = .allParties then .broadcast else .p2p := by
    obtain ⟨dest, m⟩ := o
    cases dest <;> simp [hr.1]
  simp only [Receives, hs, findIdx?_of_nodup hP ha, Option.some.injEq, exists_eq_left', hpay,
    hdec, Except.ok.injEq, hjson, hkind]
  constructor
  · rintro ⟨h0, hsnd, hk, hm⟩
    exact ⟨h0, by simp [hsnd, Nat.toUInt16, UInt16.toNat_ofNat_of_lt, UInt16.size, hal], hk, hm.symm⟩
  · rintro ⟨h0, hsnd, hk, hm⟩
    refine ⟨h0, UInt16.toNat.inj ?_, hk, hm.symm⟩
    simp [hsnd, Nat.toUInt16, UInt16.toNat_ofNat_of_lt, UInt16.size, hal]

/-- An envelope of a member, decoded at position `a`, gives the `Incoming` of id 0 from `a`, of
the envelope's kind, with the message it carries. -/
theorem decodeIncoming_of_carries (hrt : c.RoundTrips) {pa : UInt16} {o : Outgoing Msg}
    {w : WasmSignMessage} (hw : Carries c pa P o w) (a : Nat) :
    decodeIncoming c a.toUInt16 (if w.isBroadcast then 0 else 1) w.payload =
      .ok ⟨0, a.toUInt16, if o.recipient = .allParties then .broadcast else .p2p, o.msg⟩ := by
  obtain ⟨-, ⟨bytes, hj, hpay⟩, hr⟩ := hw
  obtain ⟨hdec, hjson⟩ := hrt _ _ hj
  obtain ⟨dest, m⟩ := o
  cases dest <;> simp [decodeIncoming, hpay, hdec, hjson, hr.1]

end Group

section Wire

variable {σ Msg Sig Core Aux Key : Type} (c : Codec Msg Sig)
  (sm : StateMachine σ Msg (Except String Sig)) (lib : KeyLib Core Aux Key σ)

/-- Two members of the signing group `P`, at positions `a` and `b`, with keygen indices
`pa = P[a]` and `pb = P[b]`: what the session of `pa` sends, and what the session of `pb`
makes of it. -/
structure GroupWire (P : List UInt16) (a b : Nat) (pa pb : UInt16) : Prop where
  /-- `create_session` for `pa` loads the key share, finds a hash of 32 bytes, and makes the
  machine `signing(eid, a, P, key_share)` at the position `a` of `pa`; it stores the session
  under the id it returns, after one complete drive whose envelopes, one per message the
  machine sent, in order, it returns. -/
  create : ∀ fuel (sessions sessions' : Sessions σ Msg Sig) coreShareBytes auxInfoBytes
      messageHash eidBytes sessionId res,
    createSession c sm lib fuel sessions coreShareBytes auxInfoBytes messageHash pa P eidBytes
      sessionId = (.ok res, sessions') →
    ∃ core aux key s, lib.coreShare coreShareBytes = .ok core ∧ lib.auxInfo auxInfoBytes = .ok aux ∧
      lib.fromParts core aux = .ok key ∧ messageHash.length = 32 ∧
      driveBatch c sm fuel ⟨⟨lib.signing eidBytes a.toUInt16 P key messageHash, []⟩, pa, P, none⟩ =
        (.ok res.messages, s) ∧
      res.sessionId = sessionId ∧ sessions' = Function.update sessions sessionId (some s) ∧
      s.partyIndex = pa ∧ s.partiesAtKeygen = P ∧
      FullDrive s.sm.calls ∧ List.Forall₂ (Carries c pa P) (emissions s.sm.calls) res.messages
  /-- A `process_round` that returns `Ok` does what `RoundSpec` says. -/
  round : ∀ (s s' : SignSession σ Msg Sig) fuel batch res,
    s.processRound c sm fuel batch = (.ok res, s') → RoundSpec c s batch res s'
  /-- An envelope of `pa` names its sender, and the recipient of a message to a position of
  the group, by members of the group. -/
  wire : ∀ o w, Carries c pa P o w → (∀ p, o.recipient = .oneParty p → p.toNat < P.length) →
    w.sender ∈ P ∧ ∀ r, w.recipient = some r → r ∈ P
  /-- The session of `pb` keeps an envelope of `pa` exactly when it is a broadcast or a
  message to position `b`. -/
  keeps : ∀ o w, Carries c pa P o w → (∀ p, o.recipient = .oneParty p → p.toNat < P.length) →
    (skips pb w = false ↔ o.recipient = .allParties ∨ ∃ p, o.recipient = .oneParty p ∧ p.toNat = b)
  /-- The session of `pb` hands its machine, for an envelope of `pa`, exactly the message,
  from position `a`, of the envelope's kind. -/
  receives : ∀ o w inc, Carries c pa P o w →
    (Receives c P w inc ↔ inc.id = 0 ∧ inc.sender.toNat = a ∧
      inc.msgType = (if o.recipient = .allParties then .broadcast else .p2p) ∧ inc.msg = o.msg)
  /-- `process_round` on the session of `pb` stored under `id`, given a broadcast of `pa` or a
  message of `pa` to position `b` after envelopes it delivered with success, hands the machine
  exactly the `Incoming` of id 0 from position `a`, of the envelope's kind, with the message;
  whatever the machine answers and whatever the round does after, the store keeps that call. -/
  delivers : ∀ fuel (sessions : Sessions σ Msg Sig) id s pre out d s₁ o w post,
    sessions id = some s → s.partyIndex = pb → s.partiesAtKeygen = P →
    processRoundLoop c sm fuel pre s 0 = (.ok (out, d), s₁) → Carries c pa P o w →
    (o.recipient = .allParties ∨ ∃ p, o.recipient = .oneParty p ∧ p.toNat = b) →
    ∃ s' accepted, (processRound c sm fuel sessions id (pre ++ w :: post)).2 id = some s' ∧
      s₁.sm.calls ++ [.receivedMsg ⟨0, a.toUInt16,
        if o.recipient = .allParties then .broadcast else .p2p, o.msg⟩ accepted] <+: s'.sm.calls
  /-- A message of `pa` to another position of the group changes nothing of a `process_round`
  on the session of `pb`, wherever it stands in the batch: the machine gets nothing. -/
  drops : ∀ fuel (sessions : Sessions σ Msg Sig) id s pre o w post p,
    sessions id = some s → s.partyIndex = pb → Carries c pa P o w →
    o.recipient = .oneParty p → p.toNat < P.length → p.toNat ≠ b →
    processRound c sm fuel sessions id (pre ++ w :: post) =
      processRound c sm fuel sessions id (pre ++ post)

/-- **The signing wire.**  For a group of distinct keygen indices and a codec that decodes
what it encodes, `create_session` makes each member's machine at its position; what one
member's session sends reaches the session of the member it is for, whose `process_round`
hands the machine the message it sent, from its position, of its kind, and reaches no other
member's machine; and a round delivers in batch order, drives fully after each delivery, and
returns the machine's messages in order. -/
theorem sign_wire_delivers {P : List UInt16} (hP : P.Nodup) {a b : Nat} {pa pb : UInt16}
    (ha : P[a]? = some pa) (hb : P[b]? = some pb) (hrt : c.RoundTrips) :
    GroupWire c sm lib P a b pa pb where
  create _ _ _ _ _ _ _ _ _ h := by
    obtain ⟨core, aux, key, pos, s, hcore, haux, hkey, hlen, hpos, hdb, hid, rfl⟩ :=
      createSession_eq_ok c sm lib h
    obtain rfl : pos = a := Option.some.inj (hpos.symm.trans (findIdx?_of_nodup hP ha))
    obtain ⟨d, hd, hfd, hws⟩ := driveBatch_ok c sm hdb
    have hpi := congrArg (·.2.partyIndex) hdb
    have hpk := congrArg (·.2.partiesAtKeygen) hdb
    simp only [driveBatch_partyIndex, driveBatch_partiesAtKeygen] at hpi hpk
    simp only [List.nil_append] at hd
    exact ⟨core, aux, key, s, hcore, haux, hkey, hlen, hdb, hid, rfl, hpi.symm, hpk.symm,
      hd ▸ hfd, hd ▸ hws⟩
  round _ _ _ _ _ h := SignSession.processRound_ok c sm h
  wire o w hw hdest := by
    obtain ⟨hs, -, hr⟩ := hw
    refine ⟨hs ▸ List.getElem?_mem ha, fun r hwr => ?_⟩
    obtain ⟨dest, m⟩ := o
    cases dest with
    | allParties => simp [hr.2] at hwr
    | oneParty p =>
        have hp := hdest p rfl
        simp only [hr.2, List.getElem?_eq_getElem hp, Option.getD_some, Option.some.injEq] at hwr
        exact hwr ▸ List.getElem_mem hp
  keeps _ _ hw hdest := carries_keeps c hP hb hw hdest
  receives _ _ inc hw := carries_receives c hP ha hrt hw inc
  delivers fuel _ id s pre _ d s₁ o w post hs hpi hpk hpre hw hto := by
    have hpi₁ : s₁.partyIndex = pb := by
      simpa [hpi] using (congrArg (·.2.partyIndex) hpre).symm
    have hpk₁ : s₁.partiesAtKeygen = P := by
      simpa [hpk] using (congrArg (·.2.partiesAtKeygen) hpre).symm
    have hdest : ∀ p, o.recipient = .oneParty p → p.toNat < P.length := fun p hp => by
      rcases hto with h | ⟨p', h, rfl⟩ <;> rw [hp] at h <;> cases h
      exact (List.getElem?_eq_some_iff.1 hb).1
    have hsk : skips s₁.partyIndex w = false := hpi₁ ▸ (carries_keeps c hP hb hw hdest).2 hto
    have hpos : s₁.partiesAtKeygen.findIdx? (· == w.sender) = some a := by
      rw [hpk₁, hw.1]; exact findIdx?_of_nodup hP ha
    obtain ⟨accepted, hacc⟩ :=
      processRoundLoop_receivedMsg c sm fuel hsk hpos (decodeIncoming_of_carries c hrt hw a) post d
    have hloop : (processRoundLoop c sm fuel (pre ++ w :: post) s 0).2.sm.calls =
        (processRoundLoop c sm fuel (w :: post) s₁ d).2.sm.calls := by
      rw [processRoundLoop_append c sm (w :: post) hpre]
    refine ⟨(s.processRound c sm fuel (pre ++ w :: post)).2, accepted, by simp [processRound, hs],
      hacc.trans ?_⟩
    rw [← hloop]
    exact SignSession.processRound_calls_grow c sm s fuel _
  drops fuel _ id s pre o w post p hs hpi hw ho hp hpb := by
    have hsk : skips pb w = true := by
      rw [← Bool.not_eq_false,
        carries_keeps c hP hb hw (fun p' hp' => by rw [ho] at hp'; cases hp'; exact hp), ho]
      simp [hpb]
    simp only [processRound, hs, SignSession.processRound,
      processRoundLoop_skip c sm fuel hsk post pre s 0 hpi]

/-- A codec for a protocol with a single message and a single signature. -/
def unitCodec : Codec Unit Unit where
  toJson _ := .ok []
  fromJson _ := .ok ()
  b64Encode _ := ""
  b64Decode _ := .ok []
  sigBytes _ := List.replicate 64 0

theorem unitCodec_roundTrips : unitCodec.RoundTrips := fun _ _ h => by
  cases h; exact ⟨rfl, rfl⟩

/-- A machine that asks for one message, then outputs its signature at every `proceed`. -/
def oneShot : StateMachine Bool Unit (Except String Unit) where
  proceed received := (if received then .output (.ok ()) else .needsOneMoreMessage, received)
  receivedMsg _ _ := (.ok (), true)

/-- Key material that always loads, and makes `oneShot` in its first state. -/
def unitLib : KeyLib Unit Unit Unit Bool where
  coreShare _ := .ok ()
  auxInfo _ := .ok ()
  fromParts _ _ := .ok ()
  signing _ _ _ _ _ := false

theorem sign_wire_delivers_pair :
    (([1, 2] : List UInt16).Nodup ∧ ([1, 2] : List UInt16)[0]? = some 1 ∧
      ([1, 2] : List UInt16)[1]? = some 2 ∧ unitCodec.RoundTrips) ∧
    GroupWire unitCodec oneShot unitLib [1, 2] 0 1 1 2 :=
  ⟨⟨by decide, rfl, rfl, unitCodec_roundTrips⟩,
    sign_wire_delivers unitCodec oneShot unitLib (by decide) rfl rfl unitCodec_roundTrips⟩

end Wire

section Contract

variable {σ Msg Sig : Type} (c : Codec Msg Sig) (sm : StateMachine σ Msg (Except String Sig))

/-- With no envelope to deliver, `process_round` calls `proceed` on the machine. -/
theorem SignSession.processRound_nil_calls (s : SignSession σ Msg Sig) {fuel : Nat}
    (hf : 0 < fuel) : ∃ rest, (s.processRound c sm fuel []).2.sm.calls =
      s.sm.calls ++ .proceed (sm.proceed s.sm.sm).1 :: rest := by
  obtain ⟨st, rest, sig, h, hfirst⟩ := driveBatch_snd c sm fuel s
  obtain ⟨rest', rfl⟩ := hfirst hf
  refine ⟨rest', ?_⟩
  simp only [SignSession.processRound, processRoundLoop, if_pos rfl]
  rcases hdb : driveBatch c sm fuel s with ⟨_ | _, s'⟩ <;> rw [hdb] at h <;> simp [h]

end Contract

/-- **`process_round` touches a finished machine.**  A session of `oneShot` that receives a
batch of two broadcasts returns `Ok` with the signature, but hands the second message to a
machine that has already output; and for every machine, a `process_round` with no envelope
on a session whose machine has finished calls `proceed` again.  Either way the calls break
the `StateMachine` contract. -/
theorem processRound_breaks_contract :
    (processRound unitCodec oneShot 2
        (createSession unitCodec oneShot unitLib 2 (fun _ => none) [] [] (List.replicate 32 0) 1
          [1, 2] [] "s").2 "s" [⟨2, true, none, ""⟩, ⟨2, true, none, ""⟩]).1 =
        .ok ⟨[], true, some ⟨List.replicate 32 0, List.replicate 32 0⟩⟩ ∧
    (∃ s, (processRound unitCodec oneShot 2
        (createSession unitCodec oneShot unitLib 2 (fun _ => none) [] [] (List.replicate 32 0) 1
          [1, 2] [] "s").2 "s" [⟨2, true, none, ""⟩, ⟨2, true, none, ""⟩]).2 "s" = some s ∧
      ¬ Honours s.sm.calls) ∧
    ∀ {σ Msg Sig : Type} (c : Codec Msg Sig) (sm : StateMachine σ Msg (Except String Sig))
      (s : SignSession σ Msg Sig) (fuel : Nat), replay s.sm.calls = some .finished → 0 < fuel →
      ¬ Honours (s.processRound c sm fuel []).2.sm.calls := by
  refine ⟨rfl, ⟨_, rfl, by decide⟩, fun c sm s fuel hfin hf => ?_⟩
  obtain ⟨rest, h⟩ := SignSession.processRound_nil_calls c sm s hf
  rw [h, ← List.singleton_append, ← List.append_assoc]
  refine not_honours_append ?_ rest
  simp [Honours, hfin]

end Sign
end GuardianWallet
