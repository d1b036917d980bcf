import GuardianWallet.NativeSign

/-!
# What the native signer writes

`run_sign_loop` writes one `SignOutput` line for its first drive and one per batch it
reads: the envelopes of the messages the machine sent, and whether the machine finished
(`complete`, with the hex `r` and `s` of the signature).  A coordinator reads these lines
until one is complete.  This module states what every run writes (`Transcript`), for every
machine, party index and input:

* a line has `r` and `s` exactly when it is `complete`, and only the last line can be;
* the loop returns `Ok` exactly when its last line is complete;
* the envelopes of the lines, in order, carry the messages the machine sent, each once,
  from this party, with the destination position as the machine gave it (`NativeCarries`):
  all of them when the loop returns `Ok`, and otherwise those of the lines written before
  the failure.

**Proof.**  One lemma per loop of the source: a drive (`nativeDriveBatch_drives`), a
delivery (`nativeDeliver_drives`) and a batch (`nativeRound_drives`) extend the machine's
calls, and when they return `Ok` their envelopes carry the sends of those calls.  The
transcript is then built line by line (`Transcript.cons`) over the rounds
(`signRounds_transcript`).
-/

namespace GuardianWallet
namespace Sign

open RoundBased

section Lines

variable {Msg Sig : Type} (c : Codec Msg Sig) (partyIndex : UInt16)

/-- Envelope `w` carries message `o` as `run_sign_loop` writes it: from `partyIndex`, the
serialized message in base64, and the destination position as the machine gave it. -/
def NativeCarries (o : Outgoing Msg) (w : WasmSignMessage) : Prop :=
  w.sender = partyIndex ∧ (∃ bytes, c.toJson o.msg = .ok bytes ∧ w.payload = c.b64Encode bytes) ∧
    match o.recipient with
    | .allParties => w.isBroadcast = true ∧ w.recipient = none
    | .oneParty p => w.isBroadcast = false ∧ w.recipient = some p

/-- What a run of `run_sign_loop` that ended with `r` and made the calls `d` on its machine
wrote as `outs`. -/
structure Transcript (r : Except Fault Unit) (outs : List SignOutput)
    (d : List (Call Msg (Except String Sig))) : Prop where
  /-- A line has `r` and `s` exactly when it is `complete`. -/
  signature : ∀ o ∈ outs, o.r.isSome = o.complete ∧ o.s.isSome = o.complete
  /-- Only the last line can be complete. -/
  incomplete : ∀ o ∈ outs.dropLast, o.complete = false
  /-- The loop returns `Ok` exactly when its last line is complete. -/
  ok_iff : r = .ok () ↔ ∃ o, outs.getLast? = some o ∧ o.complete = true
  /-- The envelopes of the lines carry a prefix of the machine's sends, all of them on
  `Ok`. -/
  sent : ∃ pre, pre <+: emissions d ∧
    List.Forall₂ (NativeCarries c partyIndex) pre (outs.flatMap (·.messages)) ∧
    (r = .ok () → pre = emissions d)

@[simp] theorem SignOutput.of_messages (ms : List WasmSignMessage) (sig : Option (String × String)) :
    (SignOutput.of ms sig).messages = ms := rfl

@[simp] theorem SignOutput.of_complete (ms : List WasmSignMessage) (sig : Option (String × String)) :
    (SignOutput.of ms sig).complete = sig.isSome := rfl

variable {c partyIndex}

/-- A run that failed before writing a line. -/
theorem Transcript.nil {r : Except Fault Unit} (hr : r ≠ .ok ())
    (d : List (Call Msg (Except String Sig))) : Transcript c partyIndex r [] d :=
  ⟨by simp, by simp, by simpa using hr, ⟨[], List.nil_prefix, .nil, fun h => absurd h hr⟩⟩

/-- A run whose one line carries the signature. -/
theorem Transcript.last {ms : List WasmSignMessage} {sig : Option (String × String)}
    {d : List (Call Msg (Except String Sig))} (hsig : sig.isSome)
    (hms : List.Forall₂ (NativeCarries c partyIndex) (emissions d) ms) :
    Transcript c partyIndex (.ok ()) [SignOutput.of ms sig] d :=
  ⟨by simp [SignOutput.of], by simp, by simp [hsig],
    ⟨_, List.prefix_refl _, by simpa using hms, fun _ => rfl⟩⟩

/-- An incomplete line for the calls `d₁`, written before the rest of a run. -/
theorem Transcript.cons {ms : List WasmSignMessage} {d₁ d₂ : List (Call Msg (Except String Sig))}
    {r : Except Fault Unit} {outs : List SignOutput}
    (hms : List.Forall₂ (NativeCarries c partyIndex) (emissions d₁) ms)
    (h : Transcript c partyIndex r outs d₂) :
    Transcript c partyIndex r (SignOutput.of ms none :: outs) (d₁ ++ d₂) := by
  obtain ⟨hsig, hinc, hok, pre, hpre, hf, hall⟩ := h
  refine ⟨?_, ?_, ?_, ⟨emissions d₁ ++ pre, ?_, ?_, fun hr => by rw [hall hr, emissions_append]⟩⟩
  · simpa [SignOutput.of] using hsig
  · cases outs with
    | nil => simp
    | cons o outs => simpa [List.dropLast_cons₂, SignOutput.of] using hinc
  · cases outs with
    | nil => simpa [SignOutput.of] using hok
    | cons o outs => simpa [List.getLast?_cons_cons] using hok
  · simpa only [emissions_append] using (List.prefix_append_right_inj _).2 hpre
  · simpa using List.rel_append hms hf

end Lines

section Drives

variable {σ Msg Sig : Type} (c : Codec Msg Sig) (sm : StateMachine σ Msg (Except String Sig))
  (nat : NativeLib) (partyIndex : UInt16)

/-- A step of the native signer from wrapper `w` to `res`: it extended the machine's calls
by some `d`, and when it returned `Ok` its envelopes carry the sends of `d`. -/
def Drives (w : SmWrapper σ Msg (Except String Sig))
    (res : Except Fault (List WasmSignMessage × Option (String × String)) ×
      SmWrapper σ Msg (Except String Sig)) : Prop :=
  ∃ d, res.2.calls = w.calls ++ d ∧
    ∀ ms sig, res.1 = .ok (ms, sig) → List.Forall₂ (NativeCarries c partyIndex) (emissions d) ms

variable {c partyIndex}

/-- A step that fails and leaves the calls as they were. -/
theorem drives_error (w : SmWrapper σ Msg (Except String Sig)) (f : Fault) :
    Drives c partyIndex w (.error f, w) :=
  ⟨[], by simp, fun _ _ h => by cases h⟩

/-- A step made after calls that send nothing. -/
theorem Drives.after {w w₁ : SmWrapper σ Msg (Except String Sig)}
    {res : Except Fault (List WasmSignMessage × Option (String × String)) ×
      SmWrapper σ Msg (Except String Sig)}
    (h : Drives c partyIndex w₁ res) (e : List (Call Msg (Except String Sig)))
    (hw : w₁.calls = w.calls ++ e) (he : emissions e = []) : Drives c partyIndex w res := by
  obtain ⟨d, hd, hok⟩ := h
  exact ⟨e ++ d, by simp [hd, hw], fun ms sig hr => by simpa [he] using hok ms sig hr⟩

variable (c partyIndex)

/-- **The drive of `run_sign_loop`.** -/
theorem nativeDriveBatch_drives : ∀ (fuel : Nat) (w : SmWrapper σ Msg (Except String Sig)),
    Drives c partyIndex w (nativeDriveBatch c sm nat partyIndex fuel w)
  | 0, w => drives_error w _
  | fuel + 1, w => by
      unfold nativeDriveBatch
      rcases hp : sm.proceed w.sm with ⟨r, st⟩
      dsimp only
      cases r with
      | sendMsg o =>
          obtain ⟨dest, m⟩ := o
          dsimp only
          cases hj : c.toJson m with
          | error => exact ⟨_, rfl, fun _ _ h => by cases h⟩
          | ok bytes =>
              obtain ⟨d, hd, hok⟩ := nativeDriveBatch_drives fuel ⟨st, w.calls ++ [.proceed (.sendMsg ⟨dest, m⟩)]⟩
              refine ⟨_ :: d, by simpa using hd, fun ms sig hr => ?_⟩
              rcases hrest : (nativeDriveBatch c sm nat partyIndex fuel
                ⟨st, w.calls ++ [.proceed (.sendMsg ⟨dest, m⟩)]⟩).1 with _ | ⟨ms', sig'⟩
              · simp [hrest, Except.map] at hr
              · simp only [hrest, Except.map, Except.ok.injEq, Prod.mk.injEq] at hr
                obtain ⟨rfl, rfl⟩ := hr
                refine .cons ⟨rfl, ⟨bytes, hj, rfl⟩, ?_⟩ (hok _ _ hrest)
                cases dest <;> exact ⟨rfl, rfl⟩
      | needsOneMoreMessage => exact ⟨_, rfl, fun _ _ h => by cases h; exact .nil⟩
      | output o =>
          cases o with
          | error => exact ⟨_, rfl, fun _ _ h => by cases h⟩
          | ok => exact ⟨_, rfl, fun _ _ h => by cases h; exact .nil⟩
      | yielded =>
          exact (nativeDriveBatch_drives fuel _).after [.proceed .yielded] rfl rfl
      | error => exact ⟨_, rfl, fun _ _ h => by cases h⟩

/-- **The delivery of `run_sign_loop`.** -/
theorem nativeDeliver_drives (fuel : Nat) (w : SmWrapper σ Msg (Except String Sig))
    (msg : WasmSignMessage) : Drives c partyIndex w (nativeDeliver c sm nat fuel partyIndex w msg) := by
  unfold nativeDeliver
  split
  · exact drives_error w _
  · split
    · exact drives_error w _
    · dsimp only
      split
      · exact ⟨_, rfl, fun _ _ h => by cases h⟩
      · exact (nativeDriveBatch_drives c sm nat partyIndex fuel _).after _ rfl rfl

/-- **The batch loop of `run_sign_loop`.** -/
theorem nativeRound_drives (fuel : Nat) : ∀ (batch : List WasmSignMessage)
    (w : SmWrapper σ Msg (Except String Sig)),
    Drives c partyIndex w (nativeRound c sm nat fuel partyIndex batch w)
  | [], w => ⟨[], by simp [nativeRound], fun _ _ h => by cases h; exact .nil⟩
  | msg :: rest, w => by
      unfold nativeRound
      obtain ⟨d₁, hd₁, hok₁⟩ := nativeDeliver_drives c sm nat partyIndex fuel w msg
      rcases hdel : nativeDeliver c sm nat fuel partyIndex w msg with ⟨_ | ⟨out, _ | sig⟩, w₁⟩
      · rw [hdel] at hd₁; exact ⟨d₁, hd₁, fun _ _ h => by cases h⟩
      · rw [hdel] at hd₁ hok₁
        dsimp only at hd₁ hok₁
        obtain ⟨d₂, hd₂, hok₂⟩ := nativeRound_drives fuel rest w₁
        refine ⟨d₁ ++ d₂, by simp [hd₂, hd₁], fun ms sig hr => ?_⟩
        rcases hrest : (nativeRound c sm nat fuel partyIndex rest w₁).1 with _ | ⟨out', sig'⟩
        · simp [hrest, Except.map] at hr
        · simp only [hrest, Except.map, Except.ok.injEq, Prod.mk.injEq] at hr
          obtain ⟨rfl, rfl⟩ := hr
          simpa using List.rel_append (hok₁ out none rfl) (hok₂ _ _ hrest)
      · rw [hdel] at hd₁ hok₁; exact ⟨d₁, hd₁, hok₁⟩

end Drives

section Rounds

variable {σ Msg Sig : Type} (c : Codec Msg Sig) (sm : StateMachine σ Msg (Except String Sig))
  (nat : NativeLib) (fuel : Nat) (partyIndex : UInt16)

/-- **The rounds of `run_sign_loop`.** -/
theorem signRounds_transcript : ∀ (rounds : Nat) (lines : List String)
    (w : SmWrapper σ Msg (Except String Sig)),
    ∃ d, (signRounds c sm nat fuel partyIndex rounds lines w).2.2.calls = w.calls ++ d ∧
      Transcript c partyIndex (signRounds c sm nat fuel partyIndex rounds lines w).1
        (signRounds c sm nat fuel partyIndex rounds lines w).2.1 d
  | 0, _, w => ⟨[], by simp [signRounds], .nil (by simp [signRounds]) _⟩
  | rounds + 1, lines, w => by
      unfold signRounds
      split
      · exact ⟨[], by simp, .nil (by simp) _⟩
      · next incoming _ =>
          obtain ⟨d₁, hd₁, hok₁⟩ := nativeRound_drives c sm nat partyIndex fuel incoming w
          rcases hr : nativeRound c sm nat fuel partyIndex incoming w with ⟨_ | ⟨ms, sig⟩, w₁⟩
          · rw [hr] at hd₁; exact ⟨d₁, hd₁, .nil (by simp) _⟩
          · rw [hr] at hd₁ hok₁
            dsimp only at hd₁ hok₁
            cases sig with
            | some sig => exact ⟨d₁, hd₁, .last rfl (hok₁ ms _ rfl)⟩
            | none =>
                obtain ⟨d₂, hd₂, ht⟩ := signRounds_transcript rounds lines.tail w₁
                exact ⟨d₁ ++ d₂, by simp [hd₂, hd₁], .cons (hok₁ ms none rfl) ht⟩

/-- **`run_sign_loop`**, from any machine state, for any party index and input. -/
theorem runSignLoop_transcript (w : SmWrapper σ Msg (Except String Sig)) (lines : List String) :
    ∃ d, (runSignLoop c sm nat fuel w partyIndex lines).2.2.calls = w.calls ++ d ∧
      Transcript c partyIndex (runSignLoop c sm nat fuel w partyIndex lines).1
        (runSignLoop c sm nat fuel w partyIndex lines).2.1 d := by
  unfold runSignLoop
  obtain ⟨d₁, hd₁, hok₁⟩ := nativeDriveBatch_drives c sm nat partyIndex fuel w
  rcases hr : nativeDriveBatch c sm nat partyIndex fuel w with ⟨_ | ⟨ms, sig⟩, w₁⟩
  · rw [hr] at hd₁; exact ⟨d₁, hd₁, .nil (by simp) _⟩
  · rw [hr] at hd₁ hok₁
    dsimp only at hd₁ hok₁
    cases sig with
    | some sig => exact ⟨d₁, hd₁, .last rfl (hok₁ ms _ rfl)⟩
    | none =>
        obtain ⟨d₂, hd₂, ht⟩ := signRounds_transcript c sm nat fuel partyIndex fuel lines w₁
        exact ⟨d₁ ++ d₂, by simp [hd₂, hd₁], .cons (hok₁ ms none rfl) ht⟩

variable {Core Aux Key : Type} (lib : KeyLib Core Aux Key σ)

/-- **What the native signer writes.**  Whatever standard input the process reads after an
init line that parses, the lines it writes follow the line protocol of `Transcript` for the
init's party index, against all the calls it made on its machine: only the last line can
be complete, a line has `r` and `s` exactly when it is, the process returns `Ok` exactly
when its last line is complete, and the envelopes carry the machine's sends in order, each
once, from this party: all of them when it returns `Ok`. -/
theorem native_sign_transcript {stdin : List String} {init : SignInit}
    (hinit : nat.parseInit (stdin.headD "").trim = .ok init) :
    Transcript c init.partyIndex (runInteractiveSign c sm nat lib fuel stdin).1
      (runInteractiveSign c sm nat lib fuel stdin).2.1 (runInteractiveSign c sm nat lib fuel stdin).2.2 := by
  unfold runInteractiveSign
  simp only [hinit]
  -- every failed check exits before writing a line; past them the loop runs on a fresh log
  repeat' split
  all_goals first
    | exact .nil (by simp) _
    | obtain ⟨d, hd, ht⟩ := runSignLoop_transcript c sm nat fuel init.partyIndex ⟨_, []⟩ stdin.tail
      rw [List.nil_append] at hd
      rwa [hd]

theorem native_sign_transcript_group :
    groupLines.parseInit ((["", ""] : List String).headD "").trim = .ok ⟨"", "", "", 2, [1, 2], ""⟩ ∧
      Transcript unitCodec 2 (runInteractiveSign unitCodec sendThenWait groupLines natLib 4 ["", ""]).1
        (runInteractiveSign unitCodec sendThenWait groupLines natLib 4 ["", ""]).2.1
        (runInteractiveSign unitCodec sendThenWait groupLines natLib 4 ["", ""]).2.2 :=
  ⟨rfl, native_sign_transcript unitCodec sendThenWait groupLines 4 natLib rfl⟩

end Rounds

end Sign
end GuardianWallet
