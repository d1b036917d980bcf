import GuardianWallet.Simulate

/-!
# The invariant of `simulate::run`

One invariant holds at every state a run passes through (`Inv`, `inv_of_reachable`).  It is
stated over the ghost trace, so that it says what the run has done so far:

* `fifo`: for every inbox, the messages handed to `received_msg` followed by the messages
  still queued are exactly the messages placed in it, in order;
* `ids`: the ids assigned so far are `0, 1, 2, …` as `u64`, and `next_id` is the next one;
* `outputs`: the output slot of a party holds exactly the values its `proceed` returned as
  `Output`;
* `done`: `done` counts the filled output slots;
* `phase` and `honours`: the calls on every party follow the `StateMachine` contract, and
  while the run is live the flags `wants_msg` and `outputs` say where each party stands in it;
* `failures`: a failed call is the last event of the trace and the run has returned `Err`.

**Proof.**  `step` executes one of a few transitions: a move of the program counter
(`Inv.setPc`), a delivery (`Inv.deliver_ok`, `Inv.deliver_err`), a call of `proceed`
(`Inv.proceedStep`), and the enqueues of the routing (`Inv.enqueue`, `Inv.broadcastTo`).
Each keeps `Inv`; `Inv.step` puts them together and `inv_of_reachable` runs it along a run.
-/

namespace GuardianWallet
namespace Simulate

open RoundBased

section Invariant

variable {σ Msg Out : Type}

/-- The phase the flags of a state give party `i`. -/
def Sim.phase (s : Sim σ Msg Out) (i : Nat) : Phase :=
  if (s.outputs i).isSome then .finished else if s.wantsMsg i then .awaiting else .running

/-- The run has not returned. -/
def Pc.Live : Pc Out → Prop
  | .returned _ | .panicked => False
  | _ => True

/-- A run that has returned or panicked stays where it is. -/
theorem step_of_not_live (sm : StateMachine σ Msg Out) {s : Sim σ Msg Out} (h : ¬ s.pc.Live) :
    step sm s = s := by
  unfold step
  split <;> simp_all [Pc.Live]

/-- What the program counter says of the party it is at. -/
def Sim.PcOk (s : Sim σ Msg Out) : Prop :=
  match s.pc with
  | .party _ i => i ≤ s.n
  | .deliver _ i => i < s.n ∧ s.outputs i = none
  | .proceed _ i => i < s.n ∧ s.outputs i = none ∧ s.wantsMsg i = false
  | _ => True

/-- A failed call in a trace. -/
def Event.IsFailure : Event Msg Out → Prop
  | .call _ c => c.IsFailure
  | .enqueue _ _ => False

/-- No call of the trace failed. -/
def FailureFree (t : List (Event Msg Out)) : Prop := ∀ e ∈ t, ¬ e.IsFailure

/-- The invariant of every state a run passes through. -/
structure Inv (s : Sim σ Msg Out) : Prop where
  pcOk : s.PcOk
  fifo : ∀ j, receivedBy j s.trace ++ s.queues j = enqueuedTo j s.trace
  ids : ∃ c, assignedIds s.trace = (List.range c).map UInt64.ofNat ∧ s.nextId = UInt64.ofNat c
  outputs : ∀ i, outputsOf i s.trace = (s.outputs i).toList
  done : s.done = (List.range s.n).countP fun i => (s.outputs i).isSome
  phase : s.pc.Live → ∀ i, replay (callsOf i s.trace) = some (s.phase i)
  honours : ∀ i, Honours (callsOf i s.trace)
  failures : FailureFree s.trace ∨
    ∃ pre ev e, s.trace = pre ++ [ev] ∧ FailureFree pre ∧ ev.IsFailure ∧
      s.pc = .returned (.error e)
  returned : ∀ r, s.pc = .returned r →
    (¬ s.done < s.n ∧ r = collectOutputs s.n s.outputs) ∨ (s.done < s.n ∧ ∃ e, r = .error e) ∨
      ¬ FailureFree s.trace

theorem inv_start (n : Nat) (parties : Nat → σ) : Inv (start n parties : Sim σ Msg Out) where
  pcOk := Nat.zero_le _
  fifo _ := rfl
  ids := ⟨0, rfl, rfl⟩
  outputs _ := rfl
  done := by simp [start]
  phase _ _ := by simp [start, Sim.phase]
  honours _ := rfl
  failures := .inl (by simp [FailureFree, start])
  returned _ h := by simp [start] at h

theorem FailureFree.append_call {t : List (Event Msg Out)} (h : FailureFree t) (i : Nat)
    {c : Call Msg Out} (hc : ¬ c.IsFailure) : FailureFree (t ++ [.call i c]) :=
  List.forall_mem_append.2 ⟨h, by simpa [Event.IsFailure] using hc⟩

theorem Inv.failureFree {s : Sim σ Msg Out} (h : Inv s) (hl : s.pc.Live) :
    FailureFree s.trace := by
  rcases h.failures with h | ⟨pre, ev, e, htr, hpre, hev, hpc⟩
  · exact h
  · rw [hpc] at hl; exact hl.elim

theorem honours_of_phase {t : List (Event Msg Out)} {ph : Nat → Phase}
    (h : ∀ i, replay (callsOf i t) = some (ph i)) (i : Nat) : Honours (callsOf i t) := by
  simp [Honours, h]

/-- A call on party `i` that moves its phase to the one the new flags give, while the flags
of the other parties stay, keeps the phase law. -/
theorem phase_call {s : Sim σ Msg Out} (s' : Sim σ Msg Out)
    (hph : ∀ j, replay (callsOf j s.trace) = some (s.phase j))
    {i : Nat} {c : Call Msg Out} (htr : ∀ j, callsOf j s'.trace = callsOf j (s.trace ++ [.call i c]))
    (hi : (s.phase i).after c = some (s'.phase i)) (hj : ∀ j, j ≠ i → s'.phase j = s.phase j) :
    ∀ j, replay (callsOf j s'.trace) = some (s'.phase j) := by
  intro j
  rw [htr]
  by_cases h : j = i
  · subst h; simp [hph, hi]
  · simp [Ne.symm h, hph, hj j h]

theorem ofNat_succ_uint64 (c : Nat) : UInt64.ofNat c + 1 = UInt64.ofNat (c + 1) := by
  apply UInt64.eq_of_toBitVec_eq
  simp [UInt64.add_def, UInt64.ofNat, BitVec.ofNat_add]

/-- Filling the empty output slot of a party `i < n` adds one to the count of filled slots. -/
theorem countP_update_some {n i : Nat} (hi : i < n) {f : Nat → Option Out} (hf : f i = none)
    (o : Out) : (List.range n).countP (fun j => (Function.update f i (some o) j).isSome) =
      (List.range n).countP (fun j => (f j).isSome) + 1 := by
  induction n with
  | zero => omega
  | succ n ih =>
      rw [List.range_succ, List.countP_append, List.countP_append]
      rcases Nat.lt_succ_iff_lt_or_eq.1 hi with hi | rfl
      · simp only [ih hi, List.countP_singleton, Function.update_noteq (Nat.ne_of_gt hi)]
        omega
      · have : ∀ j ∈ List.range i,
            (Function.update f i (some o) j).isSome = true ↔ (f j).isSome = true :=
          fun j hj => by rw [Function.update_noteq (Nat.ne_of_lt (List.mem_range.1 hj))]
        simp [List.countP_congr this, hf]

theorem not_failureFree_append_call {t : List (Event Msg Out)} (i : Nat) {c : Call Msg Out}
    (hc : c.IsFailure) : ¬ FailureFree (t ++ [.call i c]) :=
  fun h => h (.call i c) (by simp) hc

/-- A step that moves only the program counter, from a live state. -/
theorem Inv.setPc {s : Sim σ Msg Out} (h : Inv s) (hl : s.pc.Live) (p : Pc Out)
    (hok : ({ s with pc := p } : Sim σ Msg Out).PcOk)
    (hret : ∀ r, p = .returned r → (¬ s.done < s.n ∧ r = collectOutputs s.n s.outputs) ∨
      (s.done < s.n ∧ ∃ e, r = .error e)) : Inv { s with pc := p } where
  pcOk := hok
  fifo := h.fifo
  ids := h.ids
  outputs := h.outputs
  done := h.done
  phase _ := h.phase hl
  honours := h.honours
  failures := .inl (h.failureFree hl)
  returned r hr := (hret r hr).elim .inl (.inr ∘ .inl)

/-- A step from a live state to a live state that moves only the program counter. -/
theorem Inv.setLivePc {s : Sim σ Msg Out} (h : Inv s) (hl : s.pc.Live) {p : Pc Out}
    (hp : p.Live) (hok : ({ s with pc := p } : Sim σ Msg Out).PcOk) : Inv { s with pc := p } :=
  h.setPc hl p hok fun r hr => by subst hr; exact hp.elim

/-- Placing a message in an inbox keeps the invariant of a live state. -/
theorem Inv.enqueue {s : Sim σ Msg Out} (h : Inv s) (hl : s.pc.Live) (j : Nat) (snd : UInt16)
    (t : MessageType) (m : Msg) : Inv (s.enqueue j snd t m) := by
  obtain ⟨c, hc, hid⟩ := h.ids
  refine ⟨h.pcOk, fun j' => ?_, ⟨c + 1, by simp [hc, hid, List.range_succ],
    by simp [hid, ofNat_succ_uint64]⟩, fun i => by simpa using h.outputs i, h.done,
    fun _ i => by simpa using h.phase hl i, fun i => by simpa using h.honours i,
    .inl (List.forall_mem_append.2 ⟨h.failureFree hl, by simp [Event.IsFailure]⟩),
    fun r hr => by rw [Sim.enqueue_pc] at hr; rw [hr] at hl; exact hl.elim⟩
  by_cases hj : j' = j
  · subst hj; simp [← h.fifo j']
  · simpa [Function.update_noteq hj, Ne.symm hj] using h.fifo j'

theorem Inv.broadcastTo (i : Nat) (m : Msg) :
    ∀ (js : List Nat) {s : Sim σ Msg Out}, Inv s → s.pc.Live → Inv (broadcastTo i m js s)
  | [], _, h, _ => h
  | j :: js, s, h, hl => by
      unfold Simulate.broadcastTo
      split_ifs
      · exact Inv.broadcastTo i m js (h.enqueue hl j _ _ m) hl
      · exact Inv.broadcastTo i m js h hl

/-- A call on party `i` that does not fail and leaves the run live keeps the invariant,
given what it does to the inboxes, the output slots and the flags. -/
theorem Inv.call {s s' : Sim σ Msg Out} (h : Inv s) (hl : s.pc.Live) {i : Nat}
    {c : Call Msg Out} (htr : s'.trace = s.trace ++ [.call i c]) (hid : s'.nextId = s.nextId)
    (hok : s'.PcOk) (hl' : s'.pc.Live) (hc : ¬ c.IsFailure)
    (hq : ∀ j, receivedBy j [.call i c] ++ s'.queues j = s.queues j)
    (ho : ∀ j, (s'.outputs j).toList = (s.outputs j).toList ++ outputsOf j [.call i c])
    (hd : s'.done = (List.range s'.n).countP fun j => (s'.outputs j).isSome)
    (hi : (s.phase i).after c = some (s'.phase i))
    (hj : ∀ j, j ≠ i → s'.phase j = s.phase j) : Inv s' :=
  have hph := phase_call s' (h.phase hl) (fun _ => by rw [htr]) hi hj
  { pcOk := hok
    fifo := fun j => by
      rw [htr, receivedBy_append, List.append_assoc, hq, h.fifo, enqueuedTo_append,
        enqueuedTo_call, List.append_nil]
    ids := by rw [htr, hid, assignedIds_append, assignedIds_call, List.append_nil]; exact h.ids
    outputs := fun j => by rw [htr, outputsOf_append, h.outputs, ho]
    done := hd
    phase := fun _ => hph
    honours := honours_of_phase hph
    failures := .inl (htr ▸ (h.failureFree hl).append_call i hc)
    returned := fun r hr => by rw [hr] at hl'; exact hl'.elim }

section Party

variable {s : Sim σ Msg Out} {k i : Nat}

/-- `received_msg` accepted the head `m` of the inbox of party `i`. -/
theorem Inv.deliver_ok (h : Inv s) (hpc : s.pc = .deliver k i) (hw : s.wantsMsg i = true)
    {m : Incoming Msg} {rest : List (Incoming Msg)} (hq : s.queues i = m :: rest) (p : σ) :
    Inv { s.called i p (.receivedMsg m true) with
      queues := Function.update s.queues i rest
      wantsMsg := Function.update s.wantsMsg i false
      pc := .proceed k i } := by
  have hok : i < s.n ∧ s.outputs i = none := by simpa [Sim.PcOk, hpc] using h.pcOk
  refine h.call (by simp [hpc, Pc.Live]) rfl rfl ⟨hok.1, hok.2, by simp⟩ trivial
    (by simp [Call.IsFailure]) (fun j => ?_) (fun _ => by simp) h.done
    (by simp [Sim.phase, hok.2, hw, Phase.after]) fun j hj => by
      simp [Sim.phase, Function.update_noteq hj]
  by_cases hj : j = i
  · subst hj; simp [hq]
  · simp [Function.update_noteq hj, Ne.symm hj]

/-- `received_msg` refused the head `m` of the inbox of party `i`: the run returns `Err`. -/
theorem Inv.deliver_err (h : Inv s) (hpc : s.pc = .deliver k i) (hw : s.wantsMsg i = true)
    {m : Incoming Msg} {rest : List (Incoming Msg)} (hq : s.queues i = m :: rest) (p : σ)
    (e : String) :
    Inv { s.called i p (.receivedMsg m false) with
      queues := Function.update s.queues i rest
      pc := .returned (.error e) } := by
  have hok : i < s.n ∧ s.outputs i = none := by simpa [Sim.PcOk, hpc] using h.pcOk
  have hl : s.pc.Live := by simp [hpc, Pc.Live]
  refine ⟨trivial, fun j => ?_, by simpa using h.ids, fun j => by simpa using h.outputs j,
    h.done, fun h => h.elim, fun j => ?_,
    .inr ⟨s.trace, _, e, rfl, h.failureFree hl, trivial, rfl⟩,
    fun _ _ => .inr (.inr (not_failureFree_append_call i trivial))⟩
  · by_cases hj : j = i
    · subst hj; simpa [hq] using h.fifo j
    · simpa [Function.update_noteq hj, Ne.symm hj] using h.fifo j
  · by_cases hj : j = i
    · subst hj; simp [Honours, h.phase hl, Sim.phase, hok.2, hw, Phase.after]
    · simpa [Ne.symm hj] using h.honours j

/-- `proceed` of the party at the program counter. -/
theorem Inv.proceedStep (sm : StateMachine σ Msg Out) (h : Inv s) (hpc : s.pc = .proceed k i) :
    Inv (proceedStep sm s k i) := by
  have hok : i < s.n ∧ s.outputs i = none ∧ s.wantsMsg i = false := by
    simpa [Sim.PcOk, hpc] using h.pcOk
  have hl : s.pc.Live := by simp [hpc, Pc.Live]
  have hrun : s.phase i = .running := by simp [Sim.phase, hok.2.1, hok.2.2]
  unfold Simulate.proceedStep
  generalize sm.proceed (s.parties i) = r
  obtain ⟨r, p⟩ := r
  /- A call that leaves the party running keeps the invariant, still at `proceed k i`. -/
  have hcall : ∀ c : Call Msg Out, Phase.running.after c = some .running → c.output? = none →
      ¬ c.IsFailure → (∀ j, receivedBy j [.call i c] = []) → Inv (s.called i p c) :=
    fun c hc ho hf hr => h.call hl rfl rfl (by simpa [Sim.PcOk, hpc] using hok)
      (by simp [hpc, Pc.Live]) hf (fun j => by simp [hr]) (fun _ => by simp [ho]) h.done
      (hrun ▸ hc) fun _ _ => rfl
  cases r with
  | sendMsg o =>
      have h' := hcall (.proceed (.sendMsg o)) rfl rfl (by simp [Call.IsFailure]) fun _ => rfl
      have hl' : (s.called i p (.proceed (.sendMsg o))).pc.Live := by simp [hpc, Pc.Live]
      simp only [Simulate.route]
      split
      · exact (h'.broadcastTo i o.msg _ hl').setLivePc (by simpa using hl') trivial
          (by simpa [Sim.PcOk] using And.intro hok.1 hok.2.1)
      · split_ifs
        · exact (h'.enqueue hl' _ _ _ _).setLivePc (by simpa using hl') trivial
            (by simpa [Sim.PcOk] using And.intro hok.1 hok.2.1)
        · exact h'.setPc hl' _ trivial fun _ hr => by cases hr
  | yielded =>
      exact (hcall (.proceed .yielded) rfl rfl (by simp [Call.IsFailure]) fun _ => rfl).setLivePc
        (by simp [hpc, Pc.Live]) trivial (by simpa [Sim.PcOk] using And.intro hok.1 hok.2.1)
  | needsOneMoreMessage =>
      exact h.call hl rfl rfl ⟨hok.1, hok.2.1⟩ trivial (by simp [Call.IsFailure])
        (fun _ => by simp) (fun _ => by simp) h.done
        (by rw [hrun]; simp [Sim.phase, hok.2.1, Phase.after])
        fun j hj => by simp [Sim.phase, Function.update_noteq hj]
  | output o =>
      refine h.call hl rfl rfl hok.1 trivial (by simp [Call.IsFailure]) (fun _ => by simp)
        (fun j => ?_) (by simp [h.done, countP_update_some hok.1 hok.2.1])
        (by rw [hrun]; simp [Sim.phase, Phase.after])
        fun j hj => by simp [Sim.phase, Function.update_noteq hj]
      by_cases hj : j = i
      · subst hj; simp [hok.2.1]
      · simp [Function.update_noteq hj, Ne.symm hj]
  | error e =>
      refine ⟨trivial, fun j => by simpa using h.fifo j, by simpa using h.ids,
        fun j => by simpa using h.outputs j, h.done, fun h => h.elim, fun j => ?_,
        .inr ⟨s.trace, _, _, rfl, h.failureFree hl, trivial, rfl⟩,
        fun _ _ => .inr (.inr (not_failureFree_append_call i trivial))⟩
      by_cases hj : j = i
      · subst hj; simp [Honours, h.phase hl, hrun, Phase.after]
      · simpa [Ne.symm hj] using h.honours j

end Party

variable (sm : StateMachine σ Msg Out)

/-- **One step keeps the invariant.** -/
theorem Inv.step {s : Sim σ Msg Out} (h : Inv s) : Inv (step sm s) := by
  unfold Simulate.step
  split
  · next k i hpc =>
      have hl : s.pc.Live := by simp [hpc, Pc.Live]
      have hi : i ≤ s.n := by simpa [Sim.PcOk, hpc] using h.pcOk
      split_ifs with h1 h2
      · exact h.setLivePc hl trivial (by simp [Sim.PcOk]; omega)
      · exact h.setLivePc hl trivial (by simpa [Sim.PcOk, h1] using h2)
      all_goals exact h.setLivePc hl trivial (by simp [Sim.PcOk])
  · next k i hpc =>
      have hl : s.pc.Live := by simp [hpc, Pc.Live]
      have hok : i < s.n ∧ s.outputs i = none := by simpa [Sim.PcOk, hpc] using h.pcOk
      split_ifs with hw
      · split
        · exact h.setLivePc hl trivial (by simp [Sim.PcOk]; omega)
        · next m rest hq =>
            unfold deliverStep
            generalize sm.receivedMsg (s.parties i) m = r
            obtain ⟨r, p⟩ := r
            cases r with
            | error => exact h.deliver_err hpc hw hq p _
            | ok => exact h.deliver_ok hpc hw hq p
      · exact h.setLivePc hl trivial (by simp [Sim.PcOk, hok.1, hok.2, hw])
  · next k i hpc => exact h.proceedStep sm hpc
  · next hpc =>
      split_ifs with hd
      · exact h.setPc (by simp [hpc, Pc.Live]) _ trivial
          fun _ hr => .inr ⟨hd, _, (Pc.returned.inj hr).symm⟩
      · exact h.setPc (by simp [hpc, Pc.Live]) _ trivial
          fun _ hr => .inl ⟨hd, (Pc.returned.inj hr).symm⟩
  · exact h
  · exact h

/-- **The invariant holds at every state a run passes through.** -/
theorem inv_of_reachable {n : Nat} {parties : Nat → σ} {s : Sim σ Msg Out}
    (h : Reachable sm n parties s) : Inv s := by
  induction h with
  | start => exact inv_start n parties
  | step _ ih => exact ih.step sm

end Invariant

end Simulate
end GuardianWallet
