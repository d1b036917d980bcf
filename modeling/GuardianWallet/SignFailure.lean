import GuardianWallet.SignStore

/-!
# A failed round is not rolled back

`process_round` works on the stored session in place (`get_mut`): it delivers and drives one
envelope after another and returns at the first `Err` with `?`.  The session keeps what the
envelopes before the failing one did.  Their messages were handed to the machine, which
moved on and sent its answers; the answers were collected in `all_outgoing`, which the `Err`
drops.  A coordinator that retries the batch hands the machine those messages a second time;
one that does not never sees the answers.

`process_round_error` states the whole error path of `process_round` on a session it
finds.  The batch splits at the envelope whose delivery failed; the store keeps what that
delivery left, after the envelopes before it were delivered and driven; the messages they
made the machine send are in no result.  Otherwise no delivery failed, and the final
`drive_batch` of a round failed.  With `processRoundLoop_ok`, the session's call log then
holds the calls of the envelopes before the failure, and `out` carries what they sent.
-/

namespace GuardianWallet
namespace Sign

open RoundBased

section Failure

variable {σ Msg Sig : Type} (c : Codec Msg Sig) (sm : StateMachine σ Msg (Except String Sig))

/-- Where the loop of `process_round` failed: at an envelope it did not skip, whose delivery
failed, after the loop over the envelopes before it succeeded. -/
theorem processRoundLoop_error {fuel : Nat} {f : Fault} : ∀ {batch : List WasmSignMessage}
    {s s' : SignSession σ Msg Sig} {d : UInt32},
    processRoundLoop c sm fuel batch s d = (.error f, s') →
    ∃ pre msg post out d' s₁, batch = pre ++ msg :: post ∧
      processRoundLoop c sm fuel pre s d = (.ok (out, d'), s₁) ∧ skips s.partyIndex msg = false ∧
      deliverOne c sm fuel s₁ msg = (.error f, s')
  | [], _, _, _, h => by cases h
  | msg :: rest, s, s', d, h => by
      rw [processRoundLoop] at h
      by_cases hsk : skips s.partyIndex msg = true
      · rw [if_pos hsk] at h
        obtain ⟨pre, m, post, out, d', s₁, rfl, hpre, hm, hd⟩ := processRoundLoop_error h
        exact ⟨msg :: pre, m, post, out, d', s₁, rfl,
          by rw [processRoundLoop, if_pos hsk, hpre], hm, hd⟩
      rw [if_neg hsk] at h
      rcases hdo : deliverOne c sm fuel s msg with ⟨_ | batch, s₁⟩
      · simp only [hdo, Prod.mk.injEq, Except.error.injEq] at h
        obtain ⟨rfl, rfl⟩ := h
        exact ⟨[], msg, rest, [], d, s, rfl, rfl, by simpa using hsk, hdo⟩
      rcases hrec : processRoundLoop c sm fuel rest s₁ (d + 1) with ⟨_ | ⟨out', d''⟩, s₂⟩
      · simp only [hdo, hrec, Except.map, Prod.mk.injEq, Except.error.injEq] at h
        obtain ⟨rfl, rfl⟩ := h
        obtain ⟨pre, m, post, out, d', s₃, rfl, hpre, hm, hd⟩ := processRoundLoop_error hrec
        have hpi : s₁.partyIndex = s.partyIndex := by
          simpa using (congrArg (·.2.partyIndex) hdo).symm
        refine ⟨msg :: pre, m, post, batch ++ out, d', s₃, rfl, ?_, hpi ▸ hm, hd⟩
        simp [processRoundLoop, hsk, hdo, hpre, Except.map]
      · simp [hdo, hrec, Except.map] at h

/-- Where a round on a session failed: at an envelope whose delivery failed, or, when every
delivery succeeded, in the final `drive_batch` of a round that counted no delivery. -/
theorem SignSession.processRound_error (s : SignSession σ Msg Sig) {fuel : Nat}
    {batch : List WasmSignMessage} {f : Fault}
    (h : (s.processRound c sm fuel batch).1 = .error f) :
    (∃ pre msg post out d s₁, batch = pre ++ msg :: post ∧
        processRoundLoop c sm fuel pre s 0 = (.ok (out, d), s₁) ∧ skips s.partyIndex msg = false ∧
        deliverOne c sm fuel s₁ msg = (.error f, (s.processRound c sm fuel batch).2)) ∨
      ∃ out s₁, processRoundLoop c sm fuel batch s 0 = (.ok (out, 0), s₁) ∧
        driveBatch c sm fuel s₁ = (.error f, (s.processRound c sm fuel batch).2) := by
  unfold SignSession.processRound at h ⊢
  rcases hl : processRoundLoop c sm fuel batch s 0 with ⟨_ | ⟨out, d⟩, s₁⟩
  · simp only [hl, Except.error.injEq] at h ⊢
    subst h
    exact .inl (processRoundLoop_error c sm hl)
  · simp only [hl] at h ⊢
    split_ifs at h ⊢ with hd
    · subst hd
      rcases hdb : driveBatch c sm fuel s₁ with ⟨_ | _, s₂⟩
      · simp only [hdb, Except.error.injEq] at h ⊢
        exact .inr ⟨out, s₁, rfl, h ▸ hdb⟩
      · simp [hdb] at h

variable {fuel : Nat} {sessions : Sessions σ Msg Sig} {id : String} {s : SignSession σ Msg Sig}
  {batch : List WasmSignMessage} {f : Fault}

/-- **A failed round is not rolled back.**  When `process_round` on the stored session `s`
returns `Err(f)`, the store keeps under the same id the session `s'` the failure left.
Either the batch is `pre ++ msg :: post`, the envelopes of `pre` were delivered and driven
from `s` and made the machine send `out`, and `msg`, not skipped, failed to be delivered
with `f`, leaving `s'`; or no delivery failed and the final `drive_batch` failed with `f`,
leaving `s'`.  The messages `out` are in no result. -/
theorem process_round_error (hs : sessions id = some s)
    (h : (processRound c sm fuel sessions id batch).1 = .error f) :
    ∃ s', (processRound c sm fuel sessions id batch).2 = Function.update sessions id (some s') ∧
      ((∃ pre msg post out d s₁, batch = pre ++ msg :: post ∧
          processRoundLoop c sm fuel pre s 0 = (.ok (out, d), s₁) ∧ skips s.partyIndex msg = false ∧
          deliverOne c sm fuel s₁ msg = (.error f, s')) ∨
        ∃ out s₁, processRoundLoop c sm fuel batch s 0 = (.ok (out, 0), s₁) ∧
          driveBatch c sm fuel s₁ = (.error f, s')) := by
  simp only [processRound, hs] at h ⊢
  exact ⟨_, rfl, s.processRound_error c sm h⟩

end Failure

/-- A machine that answers the first message it gets with a broadcast. -/
def replier : StateMachine Nat Unit (Except String Unit) where
  proceed
    | 1 => (.sendMsg ⟨.allParties, ()⟩, 2)
    | n => (.needsOneMoreMessage, n)
  receivedMsg _ _ := (.ok (), 1)

theorem process_round_error_replier :
    ((fun _ => some ⟨⟨0, []⟩, 2, [1, 2], none⟩ : Sessions Nat Unit Unit) "s" =
        some ⟨⟨0, []⟩, 2, [1, 2], none⟩ ∧
      (processRound unitCodec replier 4 (fun _ => some ⟨⟨0, []⟩, 2, [1, 2], none⟩) "s"
        [⟨1, true, none, ""⟩, ⟨9, true, none, ""⟩]).1 =
        .error (.err "unknown sender 9 not in parties [1, 2]")) ∧
      ∃ s', (processRound unitCodec replier 4 (fun _ => some ⟨⟨0, []⟩, 2, [1, 2], none⟩) "s"
          [⟨1, true, none, ""⟩, ⟨9, true, none, ""⟩]).2 =
          Function.update (fun _ => some ⟨⟨0, []⟩, 2, [1, 2], none⟩) "s" (some s') ∧
        ((∃ pre msg post out d s₁, [⟨1, true, none, ""⟩, ⟨9, true, none, ""⟩] = pre ++ msg :: post ∧
            processRoundLoop unitCodec replier 4 pre ⟨⟨0, []⟩, 2, [1, 2], none⟩ 0 =
              (.ok (out, d), s₁) ∧
            skips 2 msg = false ∧
            deliverOne unitCodec replier 4 s₁ msg =
              (.error (.err "unknown sender 9 not in parties [1, 2]"), s')) ∨
          ∃ out s₁, processRoundLoop unitCodec replier 4 [⟨1, true, none, ""⟩, ⟨9, true, none, ""⟩]
              ⟨⟨0, []⟩, 2, [1, 2], none⟩ 0 = (.ok (out, 0), s₁) ∧
            driveBatch unitCodec replier 4 s₁ =
              (.error (.err "unknown sender 9 not in parties [1, 2]"), s')) := by
  have hs : (fun _ => some ⟨⟨0, []⟩, 2, [1, 2], none⟩ : Sessions Nat Unit Unit) "s" =
      some ⟨⟨0, []⟩, 2, [1, 2], none⟩ := rfl
  have h : (processRound unitCodec replier 4 (fun _ => some ⟨⟨0, []⟩, 2, [1, 2], none⟩) "s"
      [⟨1, true, none, ""⟩, ⟨9, true, none, ""⟩]).1 =
      .error (.err "unknown sender 9 not in parties [1, 2]") := rfl
  exact ⟨⟨hs, h⟩, process_round_error unitCodec replier hs h⟩

/-- In that round the envelope before the failure made the machine broadcast its answer,
which the `Err` drops. -/
example : (processRoundLoop unitCodec replier 4 [⟨1, true, none, ""⟩]
    ⟨⟨0, []⟩, 2, [1, 2], none⟩ 0).1 = .ok ([⟨2, true, none, ""⟩], 1) := rfl

end Sign
end GuardianWallet
