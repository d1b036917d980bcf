import GuardianWallet.SimulateProperties
import Mathlib.Data.Nat.Find

/-!
# Termination of `simulate::run`

`SWEEP_CAP` bounds the sweeps of `run` but not the turns: the inner `loop` of a turn calls
`proceed` again after every `SendMsg` or `Yielded`, so a party that never asks for a message
keeps its turn forever (`run_selfSender_livelock`).  This module proves that this is the
only way `run` can fail to return.  If every turn ends (`TurnEnds`: from each state a
party's own machine reaches, the chain of `proceed` calls that send or yield is finite) and
no party sends a point-to-point message to itself (`NoSelfSends`), then `run` returns for
every `n` and every vector of parties (`run_terminates`).

**Proof.**  A finite chain gives each state a rank that every `proceed` keeping the turn
lowers (`exists_turnRank`).  Each step of a live run then lowers, lexicographically, the
sweeps left, the parties left in the sweep, the inbox of the party in turn (only a message
to itself could lengthen it during its turn) and the rank of that party (`Sim.measure`,
`Sim.measure_step_lt`).  Well-founded induction ends the run.
-/

namespace GuardianWallet
namespace Simulate

open RoundBased

section Turns

variable {σ Msg Out : Type} (sm : StateMachine σ Msg Out)

/-- `proceed` returned `SendMsg` or `Yielded`: the inner loop of `run` calls it again. -/
def keepsTurn : ProceedResult Out Msg → Bool
  | .sendMsg _ | .yielded => true
  | _ => false

/-- The turn of a party in state `st` ends: after finitely many `proceed` calls that send or
yield, one call does neither. -/
def TurnEnds (st : σ) : Prop :=
  ∃ m, keepsTurn (sm.proceed ((fun st => (sm.proceed st).2)^[m] st)).1 = false

/-- Every point-to-point destination that party `i`'s own machine names is another party. -/
def NoSelfSends (n : Nat) (parties : Nat → σ) : Prop :=
  ∀ i < n, ∀ st d m, PartyReach sm (parties i) st →
    (sm.proceed st).1 = .sendMsg ⟨.oneParty d, m⟩ → d.toNat ≠ i

/-- A turn that ends has a rank: the number of `proceed` calls left that keep the turn. -/
theorem exists_turnRank : ∃ rank : σ → Nat, ∀ st, TurnEnds sm st →
    keepsTurn (sm.proceed st).1 → rank (sm.proceed st).2 < rank st := by
  classical
  refine ⟨fun st => if h : TurnEnds sm st then Nat.find h else 0, fun st h hk => ?_⟩
  have h0 : Nat.find h ≠ 0 := fun h0 => by
    have := Nat.find_spec h
    rw [h0] at this
    simp [hk] at this
  have hspec : keepsTurn (sm.proceed
      ((fun st => (sm.proceed st).2)^[Nat.find h - 1] (sm.proceed st).2)).1 = false := by
    rw [← Function.iterate_succ_apply, Nat.succ_eq_add_one,
      Nat.sub_add_cancel (Nat.pos_of_ne_zero h0)]
    exact Nat.find_spec h
  have hnext : TurnEnds sm (sm.proceed st).2 := ⟨_, hspec⟩
  dsimp only
  rw [dif_pos h, dif_pos hnext]
  have := Nat.find_min' hnext hspec
  omega

end Turns

section Measure

variable {σ Msg Out : Type}

/-- What a step of a live run lowers: the sweeps left; twice the parties left in the sweep,
plus one at the head of a turn; the length of the inbox of the party in turn; and, doubled,
that party's rank, plus three before a `proceed` and two at it (zero while it waits for a
message). -/
def Sim.measure (rank : σ → Nat) (s : Sim σ Msg Out) : Nat × Nat × Nat × Nat :=
  match s.pc with
  | .party k i => (sweepCap - k, 2 * (s.n - i) + 1, 0, 0)
  | .deliver k i => (sweepCap - k, 2 * (s.n - i), (s.queues i).length,
      if s.wantsMsg i then 0 else 2 * rank (s.parties i) + 3)
  | .proceed k i =>
      (sweepCap - k, 2 * (s.n - i), (s.queues i).length, 2 * rank (s.parties i) + 2)
  | .finish => (0, 0, 0, 1)
  | _ => (0, 0, 0, 0)

/-- The lexicographic order of the measure. -/
def MeasureLt : Nat × Nat × Nat × Nat → Nat × Nat × Nat × Nat → Prop :=
  Prod.Lex (· < ·) (Prod.Lex (· < ·) (Prod.Lex (· < ·) (· < ·)))

theorem measureLt_wf : WellFounded MeasureLt :=
  wellFounded_lt.prod_lex (wellFounded_lt.prod_lex (wellFounded_lt.prod_lex wellFounded_lt))

theorem measureLt_iff (a b : Nat × Nat × Nat × Nat) : MeasureLt a b ↔
    a.1 < b.1 ∨ a.1 = b.1 ∧ (a.2.1 < b.2.1 ∨ a.2.1 = b.2.1 ∧
      (a.2.2.1 < b.2.2.1 ∨ a.2.2.1 = b.2.2.1 ∧ a.2.2.2 < b.2.2.2)) := by
  simp only [MeasureLt, Prod.lex_def]

end Measure

section Step

variable {σ Msg Out : Type} {sm : StateMachine σ Msg Out} {n : Nat} {parties : Nat → σ}
  {rank : σ → Nat} {s : Sim σ Msg Out}

/-- **A step of a live run lowers the measure**, when no party sends to itself and every
`proceed` that keeps the turn lowers the rank of the party's state. -/
theorem Sim.measure_step_lt (hself : NoSelfSends sm n parties)
    (hrank : ∀ i < n, ∀ st, PartyReach sm (parties i) st → keepsTurn (sm.proceed st).1 →
      rank (sm.proceed st).2 < rank st)
    (hs : Reachable sm n parties s) (hl : s.pc.Live) :
    MeasureLt ((step sm s).measure rank) (s.measure rank) := by
  have hok := (inv_of_reachable sm hs).pcOk
  have hn := hs.n_eq
  unfold Simulate.step
  split
  · next k i hpc =>
      split_ifs <;> simp only [Sim.measure, hpc, measureLt_iff, true_and] <;> omega
  · next k i hpc =>
      simp only [Sim.PcOk, hpc] at hok
      split_ifs with hw
      · split
        · next hq => simp only [Sim.measure, hpc, hq, measureLt_iff, List.length_nil, true_and]; omega
        · next m rest hq =>
            unfold deliverStep
            dsimp only
            split
            · simp [Sim.measure, hpc, hq, measureLt_iff]; omega
            · simp [Sim.measure, hpc, hq, measureLt_iff]
      · simp [Sim.measure, hpc, hw, measureLt_iff]
  · next k i hpc =>
      simp only [Sim.PcOk, hpc] at hok
      obtain ⟨hi, -, hw⟩ := hok
      have hst := (local_of_reachable hs).state i
      have hlt := hrank i (hn ▸ hi) _ hst
      unfold proceedStep route
      dsimp only
      split
      · next o hr =>
          have hlt := hlt (by rw [hr]; rfl)
          split
          · have hq := (broadcastTo_queues i o.msg i (List.range s.n) (s.called i
              (sm.proceed (s.parties i)).2 (.proceed (sm.proceed (s.parties i)).1))
              (List.nodup_range _)).2 (.inr rfl)
            simp [Sim.measure, hpc, hq, hw, measureLt_iff]; omega
          · next d hd =>
              split_ifs with hdn
              · have hdi := hself i (hn ▸ hi) _ d o.msg hst (by rw [hr, ← hd])
                simp [Sim.measure, hpc, Function.update_noteq hdi.symm, hw, measureLt_iff]; omega
              · simp [Sim.measure, hpc, measureLt_iff]; omega
      · simp [Sim.measure, hpc, measureLt_iff]
      · simp [Sim.measure, hpc, measureLt_iff]; omega
      · next hr =>
          have hlt := hlt (by rw [hr]; rfl)
          simp [Sim.measure, hpc, hw, measureLt_iff]; omega
      · simp [Sim.measure, hpc, measureLt_iff]; omega
  · next hpc => split_ifs <;> simp [Sim.measure, hpc, measureLt_iff]
  · simp [Pc.Live, *] at hl
  · simp [Pc.Live, *] at hl

/-- A reachable state from which every step lowers the measure reaches, in finitely many
steps, a state where the run has returned. -/
theorem exists_not_live (hself : NoSelfSends sm n parties)
    (hrank : ∀ i < n, ∀ st, PartyReach sm (parties i) st → keepsTurn (sm.proceed st).1 →
      rank (sm.proceed st).2 < rank st)
    (hs : Reachable sm n parties s) : ∃ m, ¬ ((step sm)^[m] s).pc.Live := by
  induction s using (InvImage.wf (Sim.measure rank) measureLt_wf).induction with
  | h s ih =>
      by_cases hl : s.pc.Live
      · obtain ⟨m, hm⟩ := ih _ (Sim.measure_step_lt hself hrank hs hl) hs.step
        exact ⟨m + 1, by rwa [Function.iterate_succ_apply]⟩
      · exact ⟨0, hl⟩

end Step

/-- A state where the run has returned says so: `Ok`, an `Err` or a panic. -/
theorem Sim.result_ne_outOfFuel {σ Msg Out : Type} {s : Sim σ Msg Out} (h : ¬ s.pc.Live) :
    s.result ≠ .error .outOfFuel := by
  cases hpc : s.pc with
  | returned r => cases r <;> simp [Sim.result, hpc]
  | panicked => simp [Sim.result, hpc]
  | _ => simp [Pc.Live, hpc] at h

section Run

variable {σ Msg Out : Type} {sm : StateMachine σ Msg Out} {n : Nat} {parties : Nat → σ}

/-- **`run` returns when every turn ends.**  If no party's own machine can keep its turn
forever (every chain of `proceed` calls that send or yield ends) and no party sends a
point-to-point message to itself, then `run` returns: from some fuel on it gives one
result, `Ok`, an `Err` or the out-of-bounds panic, and never "out of fuel". -/
theorem run_terminates (hturn : ∀ i < n, ∀ st, PartyReach sm (parties i) st → TurnEnds sm st)
    (hself : NoSelfSends sm n parties) :
    ∃ fuel r, r ≠ .error .outOfFuel ∧ ∀ fuel' ≥ fuel, run sm n parties fuel' = r := by
  obtain ⟨rank, hrank⟩ := exists_turnRank sm
  have hstart : Reachable sm n parties (start n parties) := .start
  obtain ⟨m, hm⟩ := exists_not_live hself (fun i hi st hst => hrank st (hturn i hi st hst)) hstart
  refine ⟨m, _, Sim.result_ne_outOfFuel hm, fun fuel' hf => ?_⟩
  obtain ⟨j, rfl⟩ := Nat.exists_eq_add_of_le' hf
  rw [run, Function.iterate_add_apply, Function.iterate_fixed (step_of_not_live sm hm)]

end Run

/-- Each party broadcasts once, then outputs. -/
def broadcastOnce : StateMachine Bool Unit Unit where
  proceed sent := if sent then (.output (), true) else (.sendMsg ⟨.allParties, ()⟩, true)
  receivedMsg sent _ := (.ok (), sent)

example : run broadcastOnce 2 (fun _ => false) 12 = .ok [(), ()] := rfl

theorem run_terminates_broadcastOnce :
    ((∀ i < 2, ∀ st, PartyReach broadcastOnce ((fun _ => false) i) st →
        TurnEnds broadcastOnce st) ∧ NoSelfSends broadcastOnce 2 fun _ => false) ∧
      ∃ fuel r, r ≠ .error .outOfFuel ∧
        ∀ fuel' ≥ fuel, run broadcastOnce 2 (fun _ => false) fuel' = r :=
  have hturn : ∀ i < 2, ∀ st, PartyReach broadcastOnce ((fun _ => false) i) st →
      TurnEnds broadcastOnce st := fun _ _ st _ => ⟨1, by cases st <;> rfl⟩
  have hself : NoSelfSends broadcastOnce 2 fun _ => false := fun _ _ st _ _ _ h => by
    cases st <;> cases h
  ⟨⟨hturn, hself⟩, run_terminates hturn hself⟩

end Simulate
end GuardianWallet
