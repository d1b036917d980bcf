import GuardianWallet.SignStore
import GuardianWallet.NativeSign

/-!
# A signing session stays complete

`process_round` reports `complete` when its session holds a signature, and `drive_batch` is
the only code that touches the signature: it sets it when the machine outputs one and never
clears it.  So no later round reports a complete session as incomplete.  A later round need
not succeed: `process_round` calls `proceed` on the finished machine, and a finished CGGMP24
machine answers that with an error, so the round returns `Err`.  `session_stays_complete`
states what holds over every sequence of calls of the signing API: once the session under
`id` holds a signature, every later `process_round` on `id` that returns `Ok` reports
`complete` with a signature, until `id` is created again or destroyed.

**Proof.**  One lemma per loop says it keeps a signature (`driveBatch_signature` and the
ones after it).  A property of the session under `id` that every round keeps is kept by
every call that does not replace `id` (`Op.apply_keeps`), hence over every run
(`runOps_keeps`).
-/

namespace GuardianWallet
namespace Sign

open RoundBased

section Rounds

variable {σ Msg Sig : Type} (c : Codec Msg Sig) (sm : StateMachine σ Msg (Except String Sig))

/-- `drive_batch` keeps a signature. -/
theorem driveBatch_signature : ∀ (fuel : Nat) (s : SignSession σ Msg Sig),
    s.signature.isSome → (driveBatch c sm fuel s).2.signature.isSome
  | 0, _, h => h
  | fuel + 1, s, h => by
      rw [driveBatch]
      rcases hp : sm.proceed s.sm.sm with ⟨r, st⟩
      simp only [SmWrapper.driveOne, hp]
      have hrec := driveBatch_signature fuel { s with sm := ⟨st, s.sm.calls ++ [.proceed r]⟩ } h
      split
      · exact h
      · exact hrec
      · exact h
      · rfl
      · exact hrec

/-- A delivery keeps a signature. -/
theorem deliverOne_signature (fuel : Nat) (s : SignSession σ Msg Sig) (msg : WasmSignMessage)
    (h : s.signature.isSome) : (deliverOne c sm fuel s msg).2.signature.isSome := by
  unfold deliverOne
  split
  · exact h
  · next pos _ =>
      rcases SmWrapper.receiveMsg c sm s.sm pos.toUInt16 (if msg.isBroadcast then 0 else 1)
        msg.payload with ⟨_ | _, w⟩
      · exact h
      · exact driveBatch_signature c sm fuel _ h

/-- The loop of `process_round` keeps a signature. -/
theorem processRoundLoop_signature (fuel : Nat) :
    ∀ (batch : List WasmSignMessage) (s : SignSession σ Msg Sig) (d : UInt32),
      s.signature.isSome → (processRoundLoop c sm fuel batch s d).2.signature.isSome
  | [], _, _, h => h
  | msg :: rest, s, d, h => by
      rw [processRoundLoop]
      split
      · exact processRoundLoop_signature fuel rest s d h
      · have h₁ := deliverOne_signature c sm fuel s msg h
        rcases hdo : deliverOne c sm fuel s msg with ⟨_ | _, s₁⟩ <;> rw [hdo] at h₁
        · exact h₁
        · exact processRoundLoop_signature fuel rest s₁ (d + 1) h₁

/-- A round of a session that holds a signature keeps it, and reports `complete` with a
signature when it returns `Ok`. -/
theorem SignSession.processRound_signature (s : SignSession σ Msg Sig) (fuel : Nat)
    (batch : List WasmSignMessage) (h : s.signature.isSome) :
    (s.processRound c sm fuel batch).2.signature.isSome ∧
      ∀ res, (s.processRound c sm fuel batch).1 = .ok res →
        res.complete = true ∧ res.signature.isSome := by
  unfold SignSession.processRound
  have h₁ := processRoundLoop_signature c sm fuel batch s 0 h
  rcases hl : processRoundLoop c sm fuel batch s 0 with ⟨_ | ⟨out, d⟩, s₁⟩ <;> rw [hl] at h₁
  · exact ⟨h₁, fun _ h => by cases h⟩
  · dsimp only
    split_ifs
    · have h₂ := driveBatch_signature c sm fuel s₁ h₁
      rcases hdb : driveBatch c sm fuel s₁ with ⟨_ | _, s₂⟩ <;> rw [hdb] at h₂
      · exact ⟨h₂, fun _ h => by cases h⟩
      · exact ⟨h₂, fun _ h => by cases h; exact ⟨h₂, h₂⟩⟩
    · exact ⟨h₁, fun _ h => by cases h; exact ⟨h₁, h₁⟩⟩

end Rounds

section Store

variable {σ Msg Sig Core Aux Key : Type} (c : Codec Msg Sig)
  (sm : StateMachine σ Msg (Except String Sig)) (lib : KeyLib Core Aux Key σ)
  (P : SignSession σ Msg Sig → Prop)

/-- A property of the session under `id` that every round keeps is kept by every call that
does not replace `id`. -/
theorem Op.apply_keeps (hP : ∀ s fuel batch, P s → P (s.processRound c sm fuel batch).2)
    {sessions : Sessions σ Msg Sig} {id : String} {s : SignSession σ Msg Sig}
    (hs : sessions id = some s) (hs' : P s) (fuel : Nat) {op : Op} (hop : ¬ op.Replaces id) :
    ∃ s', op.apply c sm lib fuel sessions id = some s' ∧ P s' := by
  cases op with
  | create coreShareBytes auxInfoBytes messageHash partyIndex parties eidBytes sessionId =>
      have hid : id ≠ sessionId := fun h => hop (h ▸ rfl)
      rcases createSession_snd c sm lib fuel sessions coreShareBytes auxInfoBytes messageHash
        partyIndex parties eidBytes sessionId with he | ⟨_, he, -⟩ <;>
        exact ⟨s, by simp [Op.apply, he, Function.update_noteq hid, hs], hs'⟩
  | process sessionId incoming =>
      by_cases hid : id = sessionId
      · subst hid
        exact ⟨_, by simp [Op.apply, processRound, hs], hP s fuel incoming hs'⟩
      · rcases processRound_snd c sm fuel sessions sessionId incoming with
          ⟨-, he⟩ | ⟨-, _, -, he, -⟩ <;>
          exact ⟨s, by simp [Op.apply, he, Function.update_noteq hid, hs], hs'⟩
  | destroy sessionId =>
      have hid : id ≠ sessionId := fun h => hop (h ▸ rfl)
      exact ⟨s, by simp [Op.apply, destroySession, Function.update_noteq hid, hs], hs'⟩

/-- A property of the session under `id` that every round keeps holds after every run that
does not replace `id`. -/
theorem runOps_keeps (hP : ∀ s fuel batch, P s → P (s.processRound c sm fuel batch).2)
    (fuel : Nat) {id : String} :
    ∀ (ops : List Op) {sessions : Sessions σ Msg Sig} {s : SignSession σ Msg Sig},
      (∀ op ∈ ops, ¬ op.Replaces id) → sessions id = some s → P s →
      ∃ s', runOps c sm lib fuel ops sessions id = some s' ∧ P s'
  | [], _, s, _, hs, hp => ⟨s, hs, hp⟩
  | op :: ops, _, _, hops, hs, hp => by
      obtain ⟨s₁, h₁, hp₁⟩ := Op.apply_keeps c sm lib P hP hs hp fuel (hops op (.head _))
      exact runOps_keeps hP fuel ops (fun op h => hops op (.tail _ h)) h₁ hp₁

/-- **Completion is sticky.**  Over every sequence of calls that neither creates `id` again
nor destroys it, once the session under `id` holds a signature, every `process_round` on
`id` that returns `Ok` reports `complete` with a signature. -/
theorem session_stays_complete (fuel : Nat) {id : String} {ops : List Op}
    {sessions : Sessions σ Msg Sig} {s : SignSession σ Msg Sig}
    (hops : ∀ op ∈ ops, ¬ op.Replaces id) (hs : sessions id = some s) (hsig : s.signature.isSome)
    (incoming : List WasmSignMessage) {res : ProcessRoundResult}
    (hres : (processRound c sm fuel (runOps c sm lib fuel ops sessions) id incoming).1 = .ok res) :
    res.complete = true ∧ res.signature.isSome := by
  obtain ⟨s', hs', hsig'⟩ := runOps_keeps c sm lib (fun s => s.signature.isSome = true)
    (fun s fuel batch h => (SignSession.processRound_signature c sm s fuel batch h).1) fuel ops
    hops hs hsig
  simp only [processRound, hs'] at hres
  exact (SignSession.processRound_signature c sm s' fuel incoming hsig').2 res hres

end Store

theorem session_stays_complete_done :
    (∀ op ∈ ([] : List Op), ¬ op.Replaces "s") ∧
      (fun _ => some ⟨⟨2, []⟩, 2, [1, 2], some ⟨[], []⟩⟩ : Sessions Nat Unit Unit) "s" =
        some ⟨⟨2, []⟩, 2, [1, 2], some ⟨[], []⟩⟩ ∧
      (some (⟨[], []⟩ : SignatureResult)).isSome ∧
      (processRound unitCodec sendThenWait 4
        (runOps unitCodec sendThenWait natLib 4 []
          (fun _ => some ⟨⟨2, []⟩, 2, [1, 2], some ⟨[], []⟩⟩)) "s" []).1 =
        .ok ⟨[], true, some ⟨List.replicate 32 0, List.replicate 32 0⟩⟩ ∧
      (true = true ∧ (some (⟨List.replicate 32 0, List.replicate 32 0⟩ : SignatureResult)).isSome) := by
  have hs : (fun _ => some ⟨⟨2, []⟩, 2, [1, 2], some ⟨[], []⟩⟩ : Sessions Nat Unit Unit) "s" =
      some ⟨⟨2, []⟩, 2, [1, 2], some ⟨[], []⟩⟩ := rfl
  have hres : (processRound unitCodec sendThenWait 4
      (runOps unitCodec sendThenWait natLib 4 []
        (fun _ => some ⟨⟨2, []⟩, 2, [1, 2], some ⟨[], []⟩⟩)) "s" []).1 =
      .ok ⟨[], true, some ⟨List.replicate 32 0, List.replicate 32 0⟩⟩ := rfl
  exact ⟨fun _ h => absurd h (List.not_mem_nil _), hs, rfl, hres,
    session_stays_complete unitCodec sendThenWait natLib 4
      (fun _ h => absurd h (List.not_mem_nil _)) hs (by rfl) [] hres⟩

end Sign
end GuardianWallet
