import GuardianWallet.SimulateProperties

/-!
# The errors of `simulate::run`

`run` returns `Err` in three places: a party's `received_msg` rejected a message
(`"party {i} failed to receive message"`), a party's `proceed` returned `Error(e)`
(`"party {i} protocol error: {e}"`), or the sweeps ended with parties unfinished
(`"protocol did not complete: {done}/{n} parties finished"`).  A fourth text,
`"party {i} missing output"`, is never returned: when the outputs are collected every slot
is filled (`run_outputs_in_order`).

`run_errors` states this for every state of every run: each `Err` is one of the three texts
(`RunError`); the party it names is below `n` and made the call that ends the trace, with
the message it rejected or the error it returned; and the count is the number of parties
that output, after a run in which no call failed.
-/

namespace GuardianWallet
namespace Simulate

open RoundBased

section Errors

variable {σ Msg Out : Type}

/-- How a run over `n` parties with trace `t` and output slots `outputs` came to return
`Err(e)`, one constructor per `Err` of `run`. -/
inductive RunError (n : Nat) (t : List (Event Msg Out)) (outputs : Nat → Option Out) :
    String → Prop
  /-- Party `i`'s `received_msg` rejected `m`, and that call ends the trace. -/
  | receive (i : Nat) (hi : i < n) (pre : List (Event Msg Out)) (m : Incoming Msg)
      (ht : t = pre ++ [.call i (.receivedMsg m false)]) :
      RunError n t outputs s!"party {i} failed to receive message"
  /-- Party `i`'s `proceed` returned `Error(err)`, and that call ends the trace. -/
  | protocol (i : Nat) (hi : i < n) (pre : List (Event Msg Out)) (err : String)
      (ht : t = pre ++ [.call i (.proceed (.error err))]) :
      RunError n t outputs s!"party {i} protocol error: {err}"
  /-- No call failed, and `done < n` parties output. -/
  | incomplete (done : Nat) (hdone : done = (List.range n).countP fun i => (outputs i).isSome)
      (hlt : done < n) (hff : FailureFree t) :
      RunError n t outputs s!"protocol did not complete: {done}/{n} parties finished"

/-- Every `Err` a state says `run` returned is explained by `RunError`. -/
def Sim.ErrorsExplained (s : Sim σ Msg Out) : Prop :=
  ∀ e, s.pc = .returned (.error e) → RunError s.n s.trace s.outputs e

theorem Sim.result_eq_err {s : Sim σ Msg Out} {e : String} :
    s.result = .error (.err e) ↔ s.pc = .returned (.error e) := by
  unfold Sim.result
  split <;> simp_all

variable (sm : StateMachine σ Msg Out) {s : Sim σ Msg Out}

/-- **One step keeps every `Err` explained.**  The steps that return `Err` are the rejected
message, the protocol error and the incomplete sweeps; the collection of the outputs does
not fail, since `done = n` fills every slot. -/
theorem Sim.ErrorsExplained.step (hinv : Inv s) (h : s.ErrorsExplained) :
    (step sm s).ErrorsExplained := by
  have hok := hinv.pcOk
  unfold Simulate.step
  split
  · split_ifs <;> exact fun _ he => by simp at he
  · next k i hpc =>
      simp only [Sim.PcOk, hpc] at hok
      split_ifs
      · split
        · exact fun _ he => by simp at he
        · next m rest _ =>
            unfold deliverStep
            dsimp only
            split
            · next hr =>
                intro e he
                simp only [Pc.returned.injEq, Except.error.injEq] at he
                subst he
                exact .receive i hok.1 s.trace m (by simp [hr, Except.isOk, Except.toBool])
            · exact fun _ he => by simp at he
      · exact fun _ he => by simp at he
  · next k i hpc =>
      simp only [Sim.PcOk, hpc] at hok
      unfold proceedStep route
      dsimp only
      split
      · split
        · exact fun _ he => by simp at he
        · split_ifs <;> exact fun _ he => by simp at he
      · exact fun _ he => by simp at he
      · exact fun _ he => by simp at he
      · exact fun _ he => by simp at he
      · next err hr =>
          intro e he
          simp only [Pc.returned.injEq, Except.error.injEq] at he
          subst he
          exact .protocol i hok.1 s.trace err (by simp [hr])
  · next hpc =>
      have hff := hinv.failureFree (by simp [hpc, Pc.Live])
      split_ifs with hd
      · intro e he
        simp only [Pc.returned.injEq, Except.error.injEq] at he
        subst he
        exact .incomplete s.done hinv.done hd hff
      · obtain ⟨outs, ho⟩ := collectOutputs_exists (hinv.filled_of_not_lt hd)
        intro e he
        simp [ho] at he
  · exact h
  · exact h

theorem errorsExplained_of_reachable {n : Nat} {parties : Nat → σ}
    (hs : Reachable sm n parties s) : s.ErrorsExplained := by
  induction hs with
  | start => exact fun _ he => by simp [start] at he
  | step hs ih => exact ih.step sm (inv_of_reachable sm hs)

/-- **The errors of `run`.**  At every state of a run over `n` parties, an `Err(e)` that
`run` returned is `"party {i} failed to receive message"` or `"party {i} protocol error:
{err}"`, with `i < n` and the trace ending in party `i`'s rejection of a message or its
`Error(err)`, or `"protocol did not complete: {done}/{n} parties finished"`, with `done < n`
the parties that output and no call failed. -/
theorem run_errors {n : Nat} {parties : Nat → σ} (hs : Reachable sm n parties s) {e : String}
    (he : s.result = .error (.err e)) : RunError n s.trace s.outputs e :=
  hs.n_eq ▸ errorsExplained_of_reachable sm hs e (Sim.result_eq_err.1 he)

/-- One party whose `proceed` returns `Error("bad")`. -/
def erring : StateMachine Unit Unit Unit where
  proceed _ := (.error "bad", ())
  receivedMsg _ _ := (.ok (), ())

theorem run_errors_erring :
    (Reachable erring 1 (fun _ => ()) ((step erring)^[3] (start 1 fun _ => ())) ∧
      ((step erring)^[3] (start 1 fun _ => ())).result = .error (.err "party 0 protocol error: bad")) ∧
      RunError 1 ((step erring)^[3] (start 1 fun _ => ())).trace
        ((step erring)^[3] (start 1 fun _ => ())).outputs "party 0 protocol error: bad" :=
  ⟨⟨reachable_iterate erring 1 _ 3, rfl⟩, run_errors erring (reachable_iterate erring 1 _ 3) rfl⟩

end Errors

end Simulate
end GuardianWallet
