import GuardianWallet.SimulateInvariant

/-!
# Quiescence of `simulate::run`

A turn of party `i` is the inner `loop` of `run`.  Unless the run returns, the loop is left
in two ways only: `proceed` returned `Output`, or the party asked for a message and its
inbox was empty (`turn_end_step`).  So a party that has had a turn and is unfinished waits
for a message (`Sweeps`); at the start of a sweep after the first, every unfinished party
does.

If every unfinished inbox is empty there as well, the state is stuck (`Sim.Stuck`): each
turn of a sweep skips a finished party or breaks out of its loop at once.  From a stuck
state no step calls a party, places a message or sets a flag; only the program counter
moves (`Sim.Stuck.frozen`).  The remaining sweeps run out the cap and the run returns
`Err("protocol did not complete: {done}/{n} parties finished")` (`Sim.Stuck.finishes`,
`run_quiescence`).
-/

namespace GuardianWallet
namespace Simulate

open RoundBased

section Quiescence

variable {σ Msg Out : Type} (sm : StateMachine σ Msg Out)

/-- **Where a turn ends.**  A step that takes the program counter from party `i` to party
`i + 1` of the same sweep leaves `i` finished, or waiting for a message with an empty
inbox. -/
theorem turn_end_step (s : Sim σ Msg Out) {k i : Nat}
    (hpc : s.pc = .party k i ∨ s.pc = .deliver k i ∨ s.pc = .proceed k i)
    (hend : (step sm s).pc = .party k (i + 1)) :
    ((step sm s).outputs i).isSome ∨
      ((step sm s).wantsMsg i = true ∧ (step sm s).queues i = []) := by
  unfold step at hend ⊢
  rcases hpc with hpc | hpc | hpc <;> simp only [hpc] at hend ⊢
  · split_ifs at hend ⊢ <;> simp_all
  · split_ifs at hend ⊢ with hw
    split at hend
    · next hq => simp [hq, hw]
    · unfold deliverStep at hend; dsimp only at hend; split at hend <;> simp at hend
  · unfold proceedStep at hend ⊢
    generalize sm.proceed (s.parties i) = r at hend ⊢
    obtain ⟨r, p⟩ := r
    cases r with
    | output o => simp
    | sendMsg o =>
        obtain ⟨_ | d, m⟩ := o
        · simp [route] at hend
        · simp only [route] at hend; split_ifs at hend
    | _ => simp at hend

/-- A party is not running when it is finished or waits for a message. -/
theorem Sim.phase_ne_running {s : Sim σ Msg Out} {i : Nat} :
    s.phase i ≠ .running ↔ (s.outputs i).isSome ∨ s.wantsMsg i = true := by
  unfold Sim.phase
  split_ifs <;> simp_all

/-- The parties that have had a turn by program counter `pc`: in sweep `k` the parties
before `i`, and after the first sweep every other party too.  At `deliver k i` and
`proceed k i` party `i` is in the middle of its turn. -/
def Pc.HadTurn : Pc Out → Nat → Prop
  | .party k i, j => 0 < k ∨ j < i
  | .deliver k i, j => j ≠ i ∧ (0 < k ∨ j < i)
  | .proceed k i, j => j ≠ i ∧ (0 < k ∨ j < i)
  | _, _ => False

/-- What the sweeps keep, at every state of a run. -/
structure Sweeps (s : Sim σ Msg Out) : Prop where
  /-- A party that has had a turn is finished or waits for a message. -/
  waiting : ∀ j < s.n, s.pc.HadTurn j → s.phase j ≠ .running
  /-- A sweep starts below the cap, and after the first only with a party unfinished. -/
  sweepStart : ∀ k, s.pc = .party k 0 → k < sweepCap ∧ (0 < k → s.done ≠ s.n)

theorem sweeps_start (n : Nat) (parties : Nat → σ) :
    Sweeps (start n parties : Sim σ Msg Out) where
  waiting _ _ h := by simp [start, Pc.HadTurn] at h
  sweepStart _ h := by cases h; exact ⟨by decide, fun h => absurd h (Nat.lt_irrefl 0)⟩

section Step

variable {s : Sim σ Msg Out}

/-- A step that changes the flags of party `i` at most, and starts no sweep, keeps
`Sweeps` when every party that has had a turn at the new program counter had one before
(and is not `i`), or is no longer running. -/
theorem Sweeps.next (h : Sweeps s) {s' : Sim σ Msg Out} (hn : s'.n = s.n) (i : Nat)
    (hph : ∀ j, j ≠ i → s'.phase j = s.phase j)
    (ht : ∀ j < s.n, s'.pc.HadTurn j → (j ≠ i ∧ s.pc.HadTurn j) ∨ s'.phase j ≠ .running)
    (hs : ∀ k, s'.pc ≠ .party k 0) : Sweeps s' where
  waiting j hj hturn := by
    rcases ht j (hn ▸ hj) hturn with ⟨hji, hold⟩ | hrun
    · rw [hph j hji]; exact h.waiting j (hn ▸ hj) hold
    · exact hrun
  sweepStart k hk := absurd hk (hs k)

/-- At any point of the turn of party `i` in sweep `k`, another party has had a turn when
the sweep is not the first or it comes before `i`. -/
theorem Pc.hadTurn_of_turn {p : Pc Out} {k i j : Nat}
    (hp : p = .party k i ∨ p = .deliver k i ∨ p = .proceed k i) (hji : j ≠ i)
    (h : 0 < k ∨ j < i) : p.HadTurn j := by
  rcases hp with rfl | rfl | rfl
  · exact h
  all_goals exact ⟨hji, h⟩

/-- The turn of party `i` goes on, at `deliver k i` or `proceed k i`. -/
theorem Sweeps.within (h : Sweeps s) {s' : Sim σ Msg Out} (hn : s'.n = s.n) {k i : Nat}
    (hpc : s.pc = .party k i ∨ s.pc = .deliver k i ∨ s.pc = .proceed k i)
    (hpc' : s'.pc = .deliver k i ∨ s'.pc = .proceed k i)
    (hph : ∀ j, j ≠ i → s'.phase j = s.phase j) : Sweeps s' := by
  rcases hpc' with h' | h' <;>
  exact h.next hn i hph (fun j _ hj => by
    rw [h'] at hj; exact .inl ⟨hj.1, Pc.hadTurn_of_turn hpc hj.1 hj.2⟩) fun _ => by simp [h']

/-- The turn of party `i` ends with `i` no longer running, at `party k (i + 1)`. -/
theorem Sweeps.ended (h : Sweeps s) {s' : Sim σ Msg Out} (hn : s'.n = s.n) {k i : Nat}
    (hpc : s.pc = .party k i ∨ s.pc = .deliver k i ∨ s.pc = .proceed k i)
    (hpc' : s'.pc = .party k (i + 1)) (hph : ∀ j, j ≠ i → s'.phase j = s.phase j)
    (hi : s'.phase i ≠ .running) : Sweeps s' := by
  refine h.next hn i hph (fun j _ hj => ?_) fun _ => by simp [hpc']
  rcases eq_or_ne j i with rfl | hji
  · exact .inr hi
  · rw [hpc'] at hj
    exact .inl ⟨hji, Pc.hadTurn_of_turn hpc hji (by simp only [Pc.HadTurn] at hj; omega)⟩

/-- A state outside the sweeps: at `finish`, or once the run has returned. -/
theorem sweeps_of_no_turn {s' : Sim σ Msg Out} (ht : ∀ j, ¬ s'.pc.HadTurn j)
    (hs : ∀ k, s'.pc ≠ .party k 0) : Sweeps s' :=
  ⟨fun j _ hj => (ht j hj).elim, fun k hk => absurd hk (hs k)⟩

/-- **One step keeps `Sweeps`.** -/
theorem Sweeps.step (h : Sweeps s) : Sweeps (step sm s) := by
  unfold Simulate.step
  split
  · next k i hpc =>
      split_ifs with hi hout hd hk
      · exact h.ended rfl (.inl hpc) rfl (fun _ _ => rfl) (Sim.phase_ne_running.2 (.inl hout))
      · exact h.within rfl (.inl hpc) (.inl rfl) fun _ _ => rfl
      · exact sweeps_of_no_turn (by simp [Pc.HadTurn]) (by simp)
      · refine ⟨fun j hj _ => h.waiting j hj ?_, fun k' hk' => ?_⟩
        · rw [hpc]; exact .inr (hj.trans_le (Nat.not_lt.1 hi))
        obtain ⟨rfl, -⟩ := Pc.party.inj hk'
        exact ⟨hk, fun _ => hd⟩
      · exact sweeps_of_no_turn (by simp [Pc.HadTurn]) (by simp)
  · next k i hpc =>
      split_ifs with hw
      · split
        · exact h.ended rfl (.inr (.inl hpc)) rfl (fun _ _ => rfl)
            (Sim.phase_ne_running.2 (.inr hw))
        · unfold deliverStep
          dsimp only
          split
          · exact sweeps_of_no_turn (by simp [Pc.HadTurn]) (by simp)
          · exact h.within rfl (.inr (.inl hpc)) (.inr rfl)
              fun j hj => by simp [Sim.phase, Function.update_noteq hj]
      · exact h.within rfl (.inr (.inl hpc)) (.inr rfl) fun _ _ => rfl
  · next k i hpc =>
      have hpc' : s.pc = .party k i ∨ s.pc = .deliver k i ∨ s.pc = .proceed k i :=
        .inr (.inr hpc)
      unfold proceedStep
      generalize sm.proceed (s.parties i) = r
      obtain ⟨r, p⟩ := r
      cases r with
      | sendMsg o =>
          dsimp only [route]
          split
          · exact h.within (by simp) hpc' (.inl rfl) fun _ _ => by simp [Sim.phase]
          · split_ifs
            · exact h.within (by simp) hpc' (.inl rfl) fun _ _ => by simp [Sim.phase]
            · exact sweeps_of_no_turn (by simp [Pc.HadTurn]) (by simp)
      | needsOneMoreMessage =>
          exact h.within rfl hpc' (.inl rfl) fun j hj => by
            simp [Sim.phase, Function.update_noteq hj]
      | output o =>
          exact h.ended rfl hpc' rfl (fun j hj => by simp [Sim.phase, Function.update_noteq hj])
            (Sim.phase_ne_running.2 (.inl (by simp)))
      | yielded => exact h.within rfl hpc' (.inl rfl) fun _ _ => rfl
      | error e => exact sweeps_of_no_turn (by simp [Pc.HadTurn]) (by simp)
  · split_ifs <;> exact sweeps_of_no_turn (by simp [Pc.HadTurn]) (by simp)
  · exact h
  · exact h

/-- At the start of a sweep after the first, every unfinished party waits for a message. -/
theorem Sweeps.waits (h : Sweeps s) {k : Nat} (hpc : s.pc = .party k 0) (hk : 0 < k) {j : Nat}
    (hj : j < s.n) (ho : s.outputs j = none) : s.wantsMsg j = true :=
  (Sim.phase_ne_running.1 (h.waiting j hj (by rw [hpc]; exact .inl hk))).resolve_left
    (by simp [ho])

end Step

/-- `Sweeps` holds at every state a run passes through. -/
theorem sweeps_of_reachable {n : Nat} {parties : Nat → σ} {s : Sim σ Msg Out}
    (h : Reachable sm n parties s) : Sweeps s := by
  induction h with
  | start => exact sweeps_start n parties
  | step _ ih => exact ih.step sm

/-- Every unfinished party waits for a message, and its inbox is empty. -/
def Sim.Stuck (s : Sim σ Msg Out) : Prop :=
  ∀ j < s.n, s.outputs j = none → s.wantsMsg j = true ∧ s.queues j = []

section Stuck

variable {s : Sim σ Msg Out}

/-- From a stuck state, at a program counter its flags agree with, a step moves the program
counter and nothing else. -/
theorem Sim.Stuck.moves_pc (hs : s.Stuck) {p : Pc Out}
    (hp : ({ s with pc := p } : Sim σ Msg Out).PcOk) :
    ∃ p', step sm { s with pc := p } = { s with pc := p' } ∧
      ({ s with pc := p' } : Sim σ Msg Out).PcOk := by
  cases p with
  | party k i =>
      simp only [Simulate.step]
      split_ifs with hi hout
      · exact ⟨_, rfl, Nat.succ_le_of_lt hi⟩
      · exact ⟨_, rfl, hi, by simpa using hout⟩
      all_goals exact ⟨_, rfl, by simp [Sim.PcOk]⟩
  | deliver k i =>
      obtain ⟨hw, hq⟩ := hs i hp.1 hp.2
      exact ⟨.party k (i + 1), by simp [Simulate.step, hw, hq], Nat.succ_le_of_lt hp.1⟩
  | proceed k i => exact Bool.noConfusion ((hs i hp.1 hp.2.1).1.symm.trans hp.2.2)
  | finish =>
      simp only [Simulate.step]
      split_ifs <;> exact ⟨_, rfl, trivial⟩
  | returned r => exact ⟨_, rfl, trivial⟩
  | panicked => exact ⟨_, rfl, trivial⟩

/-- **From a stuck state only the program counter moves**, however many steps the run
takes: no party is called, no message is placed and no flag is set. -/
theorem Sim.Stuck.frozen (hs : s.Stuck) (hp : s.PcOk) (m : Nat) :
    ∃ p, (step sm)^[m] s = { s with pc := p } ∧ ({ s with pc := p } : Sim σ Msg Out).PcOk := by
  induction m with
  | zero => exact ⟨s.pc, rfl, hp⟩
  | succ m ih =>
      obtain ⟨p, hm, hok⟩ := ih
      rw [Function.iterate_succ_apply', hm]
      exact hs.moves_pc sm hok

/-- A turn of a stuck sweep skips a finished party, or ends at once. -/
theorem Sim.Stuck.turn (hs : s.Stuck) (k : Nat) {i : Nat} (hi : i < s.n) :
    ∃ m, (step sm)^[m] { s with pc := .party k i } = { s with pc := .party k (i + 1) } := by
  cases ho : s.outputs i with
  | some o => exact ⟨1, by simp [Simulate.step, hi, ho]⟩
  | none =>
      obtain ⟨hw, hq⟩ := hs i hi ho
      exact ⟨2, by simp [Simulate.step, hi, ho, hw, hq]⟩

/-- A stuck sweep runs through its remaining turns to the test `done == n`. -/
theorem Sim.Stuck.sweep (hs : s.Stuck) (k : Nat) {i : Nat} (hi : i ≤ s.n) :
    ∃ m, (step sm)^[m] { s with pc := .party k i } = { s with pc := .party k s.n } := by
  obtain ⟨d, h⟩ : ∃ d, s.n - i = d := ⟨_, rfl⟩
  induction d generalizing i with
  | zero => exact ⟨0, by rw [show i = s.n by omega]; rfl⟩
  | succ d ih =>
      obtain ⟨m₁, h₁⟩ := hs.turn sm k (show i < s.n by omega)
      obtain ⟨m₂, h₂⟩ := ih (show i + 1 ≤ s.n by omega) (by omega)
      exact ⟨m₂ + m₁, by rw [Function.iterate_add_apply, h₁, h₂]⟩

/-- **The remaining sweeps run out the cap.**  From the start of sweep `k` of a stuck state
with a party unfinished, the run reaches the test `done < n` after the sweeps. -/
theorem Sim.Stuck.finishes (hs : s.Stuck) (hd : s.done ≠ s.n) {k : Nat} (hk : k < sweepCap) :
    ∃ m, (step sm)^[m] { s with pc := .party k 0 } = { s with pc := .finish } := by
  obtain ⟨d, h⟩ : ∃ d, sweepCap - k = d := ⟨_, rfl⟩
  induction d generalizing k with
  | zero => omega
  | succ d ih =>
      obtain ⟨m₁, h₁⟩ := hs.sweep sm k (Nat.zero_le s.n)
      have hnext : step sm { s with pc := .party k s.n } =
          { s with pc := if k + 1 < sweepCap then .party (k + 1) 0 else .finish } := by
        simp only [Simulate.step, Nat.lt_irrefl, if_false, if_neg hd]
        split_ifs <;> rfl
      by_cases hk' : k + 1 < sweepCap
      · obtain ⟨m₂, h₂⟩ := ih hk' (by omega)
        refine ⟨m₂ + 1 + m₁, ?_⟩
        rw [Function.iterate_add_apply, Function.iterate_add_apply, h₁, Function.iterate_one,
          hnext, if_pos hk', h₂]
      · exact ⟨1 + m₁, by rw [Function.iterate_add_apply, h₁, Function.iterate_one, hnext,
          if_neg hk']⟩

end Stuck

/-- What `simulate::run` does when no party can move. -/
structure Quiescence (sm : StateMachine σ Msg Out) : Prop where
  /-- At the end of its turn, a party has its output, or waits for a message with an empty
  inbox. -/
  turnEnd : ∀ (s : Sim σ Msg Out) k i,
    (s.pc = .party k i ∨ s.pc = .deliver k i ∨ s.pc = .proceed k i) →
    (step sm s).pc = .party k (i + 1) →
    ((step sm s).outputs i).isSome ∨ ((step sm s).wantsMsg i = true ∧ (step sm s).queues i = [])
  /-- At the start of a sweep after the first, with every unfinished inbox empty, the run
  calls no party and places no message again (only its program counter moves), and it
  returns the error of an incomplete protocol, with the parties finished at that point. -/
  quietSweep : ∀ n (parties : Nat → σ) (s : Sim σ Msg Out) k, Reachable sm n parties s →
    s.pc = .party k 0 → 0 < k → (∀ j < n, s.outputs j = none → s.queues j = []) →
    (∀ m, ∃ p, (step sm)^[m] s = { s with pc := p }) ∧
      let done := (List.range n).countP fun j => (s.outputs j).isSome
      ∃ m, ∀ m' ≥ m, ((step sm)^[m'] s).result =
        .error (.err s!"protocol did not complete: {done}/{n} parties finished")

/-- **Quiescence.**  A turn ends with the party finished or waiting on an empty inbox; a
sweep after the first that starts with every unfinished inbox empty makes no call, nor does
any later one, and the run returns `Err("protocol did not complete: {done}/{n} parties
finished")` with `done` the parties finished at that sweep. -/
theorem run_quiescence : Quiescence sm where
  turnEnd s _ _ hpc hend := turn_end_step sm s hpc hend
  quietSweep n parties s k hs hpc hk hq := by
    have hinv := inv_of_reachable sm hs
    have hsw := sweeps_of_reachable sm hs
    obtain rfl := hs.n_eq
    have hstuck : s.Stuck := fun j hj ho => ⟨hsw.waits hpc hk hj ho, hq j hj ho⟩
    obtain ⟨hcap, hd⟩ := hsw.sweepStart k hpc
    have hlt : s.done < s.n := lt_of_le_of_ne (hinv.done ▸ (List.countP_le_length _).trans
      (List.length_range _).le) (hd hk)
    refine ⟨fun m => (hstuck.frozen sm hinv.pcOk m).imp fun _ h => h.1, ?_⟩
    obtain ⟨m, hm⟩ := hstuck.finishes sm (hd hk) hcap
    have hs0 : { s with pc := .party k 0 } = s := by rw [← hpc]
    rw [hs0] at hm
    have hfin : ¬ (step sm { s with pc := .finish }).pc.Live := by
      simp only [Simulate.step, if_pos hlt, Pc.Live, not_false_eq_true]
    refine ⟨m + 1, fun m' hm' => ?_⟩
    obtain ⟨m'', rfl⟩ := Nat.exists_eq_add_of_le' hm'
    rw [Function.iterate_add_apply, Function.iterate_succ_apply', hm,
      Function.iterate_fixed (step_of_not_live sm hfin)]
    simp only [Simulate.step, if_pos hlt, Sim.result]
    rw [hinv.done]

/-- One party whose `proceed` always asks for one more message. -/
def waiter : StateMachine Unit Unit Unit where
  proceed _ := (.needsOneMoreMessage, ())
  receivedMsg _ _ := (.ok (), ())

theorem run_quiescence_waiter :
    (Reachable waiter 1 (fun _ => ()) ((step waiter)^[5] (start 1 fun _ => ())) ∧
      ((step waiter)^[5] (start 1 fun _ => ())).pc = .party 1 0 ∧ 0 < 1 ∧
      ∀ j < 1, ((step waiter)^[5] (start 1 fun _ => ())).outputs j = none →
        ((step waiter)^[5] (start 1 fun _ => ())).queues j = []) ∧
    (∀ m, ∃ p, (step waiter)^[m] ((step waiter)^[5] (start 1 fun _ => ())) =
        { (step waiter)^[5] (start 1 fun _ => ()) with pc := p }) ∧
      ∃ m, ∀ m' ≥ m, ((step waiter)^[m'] ((step waiter)^[5] (start 1 fun _ => ()))).result =
        .error (.err "protocol did not complete: 0/1 parties finished") :=
  ⟨⟨reachable_iterate waiter 1 _ 5, rfl, Nat.one_pos, by decide⟩,
    (run_quiescence waiter).quietSweep 1 _ _ 1 (reachable_iterate waiter 1 _ 5) rfl Nat.one_pos
      (by decide)⟩

end Quiescence

end Simulate
end GuardianWallet
