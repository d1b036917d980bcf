import GuardianWallet.SimulateInvariant
import Mathlib.Data.List.Nodup

/-!
# What every run of `simulate::run` does

Facts about every state a run passes through, read off the invariant of
`SimulateInvariant`:

* **Routing and delivery.**  A broadcast from party `i` is placed once in every other inbox
  and not in `i`'s own; a point-to-point message to `d` only in inbox `d`; each inbox is
  delivered in the order it was filled (`run_routes_fifo`).  Message ids are `next_id`, a
  `u64` counting from 0, so they are distinct while at most `2^64` messages have been
  placed, and a party that keeps sending makes them repeat (`run_ids_repeat`).
* **Outputs.**  `done` counts the filled output slots, `Ok(outs)` lists each party's single
  `Output` in party order, and `run` returns `Ok` exactly when every party produced an
  output and no call failed; once that is so, it does return `Ok` within the rest of the
  sweep and two more steps (`run_outputs_in_order`).
* **Contract.**  The calls on each party keep the `StateMachine` contract, `wants_msg[i]`
  is the contract's "awaiting" phase, and the run stops at the first failed call
  (`run_honours_contract`).
* **Locality.**  The simulator shares nothing between parties but messages: each party's
  state, and each value in `Ok(outs)`, come from that party's own machine
  (`run_eq_ok_local`).
* **Livelock.**  `SWEEP_CAP` bounds the sweeps, not the turns: a party that never asks for a
  message keeps its turn forever, and the run never returns (`run_selfSender_livelock`).
-/

namespace GuardianWallet
namespace Simulate

open RoundBased

section Properties

variable {σ Msg Out : Type} (sm : StateMachine σ Msg Out)

/-- Every point-to-point destination the machine names is below `n`. -/
def P2PBelow (n : Nat) : Prop :=
  ∀ st d m, (sm.proceed st).1 = .sendMsg ⟨.oneParty d, m⟩ → d.toNat < n

/-- What the broadcast loop over distinct indices `js` does to inbox `j`. -/
theorem broadcastTo_queues (i : Nat) (m : Msg) (j : Nat) :
    ∀ (js : List Nat) (s : Sim σ Msg Out), js.Nodup →
      (j ∈ js → j ≠ i → ∃ id, (broadcastTo i m js s).queues j =
          s.queues j ++ [⟨id, i.toUInt16, .broadcast, m⟩]) ∧
      (j ∉ js ∨ j = i → (broadcastTo i m js s).queues j = s.queues j)
  | [], s, _ => ⟨by simp, fun _ => rfl⟩
  | j' :: js, s, hnd => by
      obtain ⟨hj', hnd⟩ := List.nodup_cons.1 hnd
      have ih := broadcastTo_queues i m j js
        (if j' ≠ i then s.enqueue j' i.toUInt16 .broadcast m else s) hnd
      rw [broadcastTo]
      by_cases hjj : j = j'
      · subst hjj
        rw [ih.2 (.inl hj')]
        by_cases hji : j = i
        · simp [hji]
        · exact ⟨fun _ _ => ⟨s.nextId, by simp [hji]⟩, fun h => by simp [hji] at h⟩
      · have h0 : (if j' ≠ i then s.enqueue j' i.toUInt16 .broadcast m else s).queues j =
            s.queues j := by split_ifs <;> simp [Function.update_noteq hjj]
        refine ⟨fun hm hji => ?_, fun h => ?_⟩
        · obtain ⟨id, hid⟩ := ih.1 (by simpa [hjj] using hm) hji
          exact ⟨id, by rw [hid, h0]⟩
        · rw [ih.2 (by simpa [hjj] using h), h0]

theorem toUInt16_toNat {i : Nat} (h : i < 65536) : i.toUInt16.toNat = i := by
  simp [Nat.toUInt16, UInt16.toNat_ofNat_of_lt, UInt16.size, h]

/-- The ids `0, 1, …, c - 1` as `u64` are distinct when `c ≤ 2^64`. -/
theorem nodup_ofNat_range {c : Nat} (hc : c ≤ UInt64.size) :
    ((List.range c).map UInt64.ofNat).Nodup := by
  refine List.Nodup.map_on (fun a ha b hb hab => ?_) (List.nodup_range c)
  have ha' : a < UInt64.size := lt_of_lt_of_le (List.mem_range.1 ha) hc
  have hb' : b < UInt64.size := lt_of_lt_of_le (List.mem_range.1 hb) hc
  rw [← UInt64.toNat_ofNat_of_lt ha', ← UInt64.toNat_ofNat_of_lt hb', hab]

/-- What `simulate::run` does with messages, at a state `s` of a run over `n` parties. -/
structure RoutesFifo (n : Nat) (s : Sim σ Msg Out) : Prop where
  /-- A broadcast of `m` from party `i` appends one `Incoming { sender: i, Broadcast, m }` to
  every inbox `j ≠ i` and leaves inbox `i` as it was. -/
  broadcast : ∀ k i m p, s.pc = .proceed k i →
    sm.proceed (s.parties i) = (.sendMsg ⟨.allParties, m⟩, p) →
    ∀ j < n, (j ≠ i → ∃ inc : Incoming Msg, (step sm s).queues j = s.queues j ++ [inc] ∧
        inc.sender.toNat = i ∧ inc.msgType = .broadcast ∧ inc.msg = m) ∧
      (j = i → (step sm s).queues j = s.queues j)
  /-- A message of party `i` to `d < n` appends one `Incoming { sender: i, P2P, m }` to inbox
  `d` and leaves the others; one to `d ≥ n` indexes `outgoing_queues` out of bounds. -/
  p2p : ∀ k i d m p, s.pc = .proceed k i →
    sm.proceed (s.parties i) = (.sendMsg ⟨.oneParty d, m⟩, p) →
    (d.toNat < n → ∀ j < n,
      (j = d.toNat → ∃ inc : Incoming Msg, (step sm s).queues j = s.queues j ++ [inc] ∧
        inc.sender.toNat = i ∧ inc.msgType = .p2p ∧ inc.msg = m) ∧
      (j ≠ d.toNat → (step sm s).queues j = s.queues j)) ∧
    (n ≤ d.toNat → (step sm s).pc = .panicked)
  /-- Every party has been handed exactly the oldest messages of its inbox, in order. -/
  fifo : ∀ j, receivedBy j s.trace ++ s.queues j = enqueuedTo j s.trace
  /-- The ids assigned so far are distinct while at most `2^64` have been assigned. -/
  ids_nodup : (assignedIds s.trace).length ≤ UInt64.size → (assignedIds s.trace).Nodup

/-- **Routing, FIFO delivery and message ids.**  Every state of a run with `n ≤ 65536`
parties routes broadcasts to every other inbox and point-to-point messages to a destination
below `n` to their one inbox (one beyond panics), delivers each inbox in order, and has
assigned distinct ids while at most `2^64` have been assigned. -/
theorem run_routes_fifo {n : Nat} (hn : n ≤ 65536) {parties : Nat → σ}
    {s : Sim σ Msg Out} (hs : Reachable sm n parties s) : RoutesFifo sm n s := by
  have h := inv_of_reachable sm hs
  have hsn := hs.n_eq
  have hi : ∀ k i, s.pc = .proceed k i → i < n := fun k i hpc => by
    have := h.pcOk; simp only [Sim.PcOk, hpc] at this; omega
  refine ⟨fun k i m p hpc hr j hj => ?_, fun k i d m p hpc hr => ?_, h.fifo, ?_⟩
  · have hq := broadcastTo_queues i m j (List.range s.n)
      (s.called i p (.proceed (.sendMsg ⟨.allParties, m⟩))) (List.nodup_range _)
    have hstep : (step sm s).queues = (broadcastTo i m (List.range s.n)
        (s.called i p (.proceed (.sendMsg ⟨.allParties, m⟩)))).queues := by
      simp [step, hpc, proceedStep, hr, route]
    rw [hstep]
    refine ⟨fun hji => ?_, fun hji => (hq.2 (.inr hji))⟩
    obtain ⟨id, hid⟩ := hq.1 (List.mem_range.2 (hsn ▸ hj)) hji
    exact ⟨_, hid, toUInt16_toNat (by have := hi k i hpc; omega), rfl, rfl⟩
  · refine ⟨fun hd j _ => ?_, fun hd => by
      simp [step, hpc, proceedStep, hr, route, show ¬ d.toNat < s.n by omega]⟩
    have hstep : (step sm s).queues = Function.update s.queues d.toNat
        (s.queues d.toNat ++ [⟨s.nextId, i.toUInt16, .p2p, m⟩]) := by
      simp [step, hpc, proceedStep, hr, route, hsn ▸ hd]
    rw [hstep]
    refine ⟨fun hjd => ⟨⟨s.nextId, i.toUInt16, .p2p, m⟩, by subst hjd; simp,
      toUInt16_toNat (by have := hi k i hpc; omega), rfl, rfl⟩,
      fun hjd => by simp [Function.update_noteq hjd]⟩
  · obtain ⟨c, hc, -⟩ := h.ids
    rw [hc, List.length_map, List.length_range]
    exact nodup_ofNat_range

/-- One party that sends itself a point-to-point message at every `proceed`. -/
def selfSender : StateMachine Unit Unit Unit where
  proceed _ := (.sendMsg ⟨.oneParty 0, ()⟩, ())
  receivedMsg _ m := (.error m, ())

theorem selfSender_p2pBelow : P2PBelow selfSender 1 := by
  intro st d m h
  simp only [selfSender, ProceedResult.sendMsg.injEq, Outgoing.mk.injEq,
    MessageDestination.oneParty.injEq] at h
  rw [← h.1]; decide

theorem run_routes_fifo_selfSender :
    (1 ≤ 65536 ∧ Reachable selfSender 1 (fun _ => ()) ((step selfSender)^[3] (start 1 fun _ => ()))) ∧
    RoutesFifo selfSender 1 ((step selfSender)^[3] (start 1 fun _ => ())) :=
  ⟨⟨by decide, reachable_iterate selfSender 1 _ 3⟩,
    run_routes_fifo selfSender (by decide) (reachable_iterate selfSender 1 _ 3)⟩

/-- After its first step, `selfSender` alternates delivery checks and sends, one call of
`proceed` and one message every two steps, all in the turn of party 0 of sweep 0. -/
theorem selfSender_iterate (k : Nat) :
    ((step selfSender)^[1 + 2 * k] (start 1 fun _ => ())).pc = .deliver 0 0 ∧
      ((step selfSender)^[1 + 2 * k] (start 1 fun _ => ())).wantsMsg 0 = false ∧
      (assignedIds ((step selfSender)^[1 + 2 * k] (start 1 fun _ => ())).trace).length = k ∧
      (callsOf 0 ((step selfSender)^[1 + 2 * k] (start 1 fun _ => ())).trace).length = k := by
  induction k with
  | zero => exact ⟨rfl, rfl, rfl, rfl⟩
  | succ k ih =>
      obtain ⟨hpc, hw, hlen, hcalls⟩ := ih
      have hn := (reachable_iterate selfSender 1 (fun _ => ()) (1 + 2 * k)).n_eq
      rw [show 1 + 2 * (k + 1) = 2 + (1 + 2 * k) by omega, Function.iterate_add_apply]
      generalize (step selfSender)^[1 + 2 * k] (start 1 fun _ => ()) = s at hpc hw hlen hcalls hn
      simp [step, hpc, hw, proceedStep, route, selfSender, hn, hlen, hcalls]

/-- **Message ids repeat**: the one-party run of `selfSender` has assigned the id `0`
twice once it has sent `2^64 + 1` messages. -/
theorem run_ids_repeat :
    1 ≤ 65536 ∧ P2PBelow selfSender 1 ∧
      ¬ (assignedIds ((step selfSender)^[1 + 2 * (UInt64.size + 1)] (start 1 fun _ => ())).trace).Nodup := by
  refine ⟨by decide, selfSender_p2pBelow, fun hnd => ?_⟩
  have hlen := (selfSender_iterate (UInt64.size + 1)).2.2.1
  obtain ⟨c, hc, -⟩ := (inv_of_reachable selfSender (reachable_iterate selfSender 1 _ _)).ids
  rw [hc] at hnd hlen
  simp only [List.length_map, List.length_range] at hlen
  subst hlen
  exact absurd (List.inj_on_of_nodup_map hnd (List.mem_range.2 (Nat.succ_pos _))
    (List.mem_range.2 (Nat.lt_succ_self _)) (by decide)) (by decide)

/-- **The sweep cap does not bound a turn.**  The one-party run of `selfSender` never
returns, whatever the fuel, while its calls of `proceed` grow without bound: the inner loop
of a turn re-runs `proceed` as long as the party does not ask for a message, and the cap
counts only sweeps. -/
theorem run_selfSender_livelock :
    (∀ fuel, run selfSender 1 (fun _ => ()) fuel = .error .outOfFuel) ∧
      ∀ k, (callsOf 0 ((step selfSender)^[1 + 2 * k] (start 1 fun _ => ())).trace).length = k := by
  refine ⟨fun fuel => ?_, fun k => (selfSender_iterate k).2.2.2⟩
  obtain ⟨k, rfl | rfl⟩ : ∃ k, fuel = 2 * k ∨ fuel = 2 * k + 1 := ⟨fuel / 2, by omega⟩
  · cases k with
    | zero => rfl
    | succ k =>
        obtain ⟨hpc, hw, -⟩ := selfSender_iterate k
        rw [run, show 2 * (k + 1) = (1 + 2 * k) + 1 by omega, Function.iterate_succ_apply']
        simp [step, hpc, hw, Sim.result]
  · rw [run, show 2 * k + 1 = 1 + 2 * k by omega]
    simp [Sim.result, (selfSender_iterate k).1]

/-- A run over no party returns `Ok([])` after two steps. -/
theorem runVec_nil [Inhabited σ] (fuel : Nat) : runVec sm ([] : List σ) (fuel + 2) = .ok ([] : List Out) := by
  have h2 : (step sm)^[2] (start 0 fun i => ([] : List σ).getD i default) =
      { start 0 (fun i => ([] : List σ).getD i default) with pc := .returned (.ok []) } := rfl
  rw [runVec, run, List.length_nil, Function.iterate_add_apply, h2,
    Function.iterate_fixed (step_of_not_live sm (by simp [Pc.Live]))]
  rfl

section Outputs

variable {s : Sim σ Msg Out}

/-- With `done` not below `n`, every output slot is filled. -/
theorem Inv.filled_of_not_lt (h : Inv s) (hd : ¬ s.done < s.n) :
    ∀ i < s.n, (s.outputs i).isSome := by
  have hle := List.countP_le_length (fun i => (s.outputs i).isSome) (l := List.range s.n)
  have hall : (List.range s.n).countP (fun i => (s.outputs i).isSome) = (List.range s.n).length := by
    have := h.done; rw [List.length_range] at *; omega
  exact fun i hi => List.countP_eq_length.1 hall i (List.mem_range.2 hi)

/-- A run that returned `Ok(outs)` collected `outs` from the slots and saw no failed call. -/
theorem Inv.returned_ok (h : Inv s) {outs : List Out} (hpc : s.pc = .returned (.ok outs)) :
    collectOutputs s.n s.outputs = .ok outs ∧ FailureFree s.trace := by
  have hff : FailureFree s.trace := by
    rcases h.failures with hff | ⟨_, _, _, _, _, _, hpc'⟩
    · exact hff
    · rw [hpc] at hpc'; cases hpc'
  rcases h.returned _ hpc with ⟨-, hr⟩ | ⟨-, _, hr⟩ | hr
  · exact ⟨hr.symm, hff⟩
  · cases hr
  · exact (hr hff).elim

end Outputs

section Contract

variable {s : Sim σ Msg Out}

/-- The `StateMachine` contract as `simulate::run` keeps it, at a state `s` of a run. -/
structure HonoursContract (s : Sim σ Msg Out) : Prop where
  /-- The calls on every party follow the contract: one accepted message per request before
  the next `proceed`, and no call after `Output` or `Error`. -/
  honours : ∀ i, Honours (callsOf i s.trace)
  /-- While the run is live, a party awaits a message exactly when its output slot is empty
  and `wants_msg[i]` is set. -/
  awaiting_iff : s.pc.Live →
    ∀ i, replay (callsOf i s.trace) = some .awaiting ↔ s.outputs i = none ∧ s.wantsMsg i = true
  /-- The next step calls `received_msg` on party `i` only when `wants_msg[i]` is set. -/
  received_when_wanted : ∀ i m b,
    callsOf i (step sm s).trace = callsOf i s.trace ++ [.receivedMsg m b] → s.wantsMsg i = true
  /-- A failed call is the last event of the run, and the run has returned `Err`. -/
  stops_at_failure : ∀ pre ev post, s.trace = pre ++ ev :: post → ev.IsFailure →
    post = [] ∧ ∃ e, s.pc = .returned (.error e)

/-- A failed call is the last event of a trace the invariant holds of. -/
theorem Inv.failure_last (h : Inv s) {pre post : List (Event Msg Out)} {ev : Event Msg Out}
    (htr : s.trace = pre ++ ev :: post) (hev : ev.IsFailure) :
    post = [] ∧ ∃ e, s.pc = .returned (.error e) := by
  rcases h.failures with hff | ⟨pre', ev', e, htr', hpre, -, hpc⟩
  · exact (hff ev (by simp [htr]) hev).elim
  · refine ⟨?_, e, hpc⟩
    rcases List.eq_nil_or_concat post with rfl | ⟨post', x, rfl⟩
    · rfl
    · have := (List.append_inj' (show pre' ++ [ev'] = (pre ++ ev :: post') ++ [x] by
        rw [← htr', htr]; simp) rfl).1
      exact (hpre ev (by simp [this]) hev).elim

/-- **The `StateMachine` contract.**  At every state of a run, the calls on every party
honour the contract, `wants_msg` is its awaiting phase, `received_msg` is called only on a
party that wants a message, and the run stops at the first failed call. -/
theorem run_honours_contract {n : Nat} {parties : Nat → σ} (hs : Reachable sm n parties s) :
    HonoursContract sm s := by
  have h := inv_of_reachable sm hs
  refine ⟨h.honours, fun hl i => ?_, fun i m b hc => ?_, fun _ _ _ => h.failure_last⟩
  · rw [h.phase hl i, Option.some_inj]
    unfold Sim.phase
    cases s.outputs i <;> cases s.wantsMsg i <;> simp
  · by_cases hl : s.pc.Live
    · have hon := (h.step sm).honours i
      rw [hc, Honours, replay_append_singleton, h.phase hl i] at hon
      unfold Sim.phase at hon
      split_ifs at hon with h1 h2
      · simp at hon
      · exact h2
      · cases b <;> simp [Phase.after] at hon
    · rw [step_of_not_live sm hl] at hc
      simp at hc

theorem run_honours_contract_selfSender :
    Reachable selfSender 1 (fun _ => ()) ((step selfSender)^[3] (start 1 fun _ => ())) ∧
      HonoursContract selfSender ((step selfSender)^[3] (start 1 fun _ => ())) :=
  ⟨reachable_iterate selfSender 1 _ 3,
    run_honours_contract selfSender (reachable_iterate selfSender 1 _ 3)⟩

end Contract

section Locality

/-- The states party `p` reaches by its own `proceed` and `received_msg` calls. -/
inductive PartyReach (p : σ) : σ → Prop
  | start : PartyReach p p
  | proceed {st : σ} : PartyReach p st → PartyReach p (sm.proceed st).2
  | receivedMsg {st : σ} (m : Incoming Msg) : PartyReach p st →
      PartyReach p (sm.receivedMsg st m).2

/-- Each party's state, and each value it output, come from its own machine started at
`parties i`: the simulator shares nothing between parties but messages. -/
structure Local (parties : Nat → σ) (s : Sim σ Msg Out) : Prop where
  state : ∀ i, PartyReach sm (parties i) (s.parties i)
  outputs : ∀ i o, o ∈ outputsOf i s.trace →
    ∃ st, PartyReach sm (parties i) st ∧ (sm.proceed st).1 = .output o

@[simp] theorem broadcastTo_outputsOf (i : Nat) (m : Msg) (j : Nat) :
    ∀ (js : List Nat) (s : Sim σ Msg Out),
      outputsOf j (broadcastTo i m js s).trace = outputsOf j s.trace
  | [], _ => rfl
  | j' :: js, s => by rw [broadcastTo, broadcastTo_outputsOf]; split_ifs <;> simp

variable {sm} {parties : Nat → σ} {s : Sim σ Msg Out}

/-- A step that moves no party and records no output keeps locality. -/
theorem Local.frame (h : Local sm parties s) {s' : Sim σ Msg Out}
    (hp : s'.parties = s.parties) (ho : ∀ j, outputsOf j s'.trace = outputsOf j s.trace) :
    Local sm parties s' :=
  ⟨fun j => hp ▸ h.state j, fun j o hj => h.outputs j o (ho j ▸ hj)⟩

/-- A call on party `i` that leaves it in a state of its own machine keeps locality, when
every value the call outputs comes from such a state. -/
theorem Local.called (h : Local sm parties s) (i : Nat) {p : σ} {c : Call Msg Out}
    (hp : PartyReach sm (parties i) p)
    (hc : ∀ o, c.output? = some o →
      ∃ st, PartyReach sm (parties i) st ∧ (sm.proceed st).1 = .output o) :
    Local sm parties (s.called i p c) := by
  refine ⟨fun j => ?_, fun j o hj => ?_⟩
  · by_cases hj : j = i
    · subst hj; simpa using hp
    · simpa [Function.update_noteq hj] using h.state j
  · simp only [Sim.called_trace, outputsOf_append, outputsOf_call, List.mem_append] at hj
    rcases hj with hj | hj
    · exact h.outputs j o hj
    · split_ifs at hj with hji
      · subst hji; exact hc o (by simpa using hj)
      · simp at hj

/-- **One step keeps locality.** -/
theorem Local.step (h : Local sm parties s) : Local sm parties (step sm s) := by
  unfold Simulate.step
  split
  · split_ifs <;> exact h.frame rfl fun _ => rfl
  · next k i _ =>
      split_ifs
      · split
        · exact h.frame rfl fun _ => rfl
        · next m rest _ =>
            have h' := h.called i ((h.state i).receivedMsg m)
              (c := .receivedMsg m (sm.receivedMsg (s.parties i) m).1.isOk)
              fun _ ho => by simp [Call.output?] at ho
            unfold deliverStep
            dsimp only
            split <;> exact h'.frame rfl fun _ => rfl
      · exact h.frame rfl fun _ => rfl
  · next k i _ =>
      have h' := h.called i (h.state i).proceed (c := .proceed (sm.proceed (s.parties i)).1)
        fun o ho => ⟨_, h.state i, by
          cases hr : (sm.proceed (s.parties i)).1 <;> simp_all [Call.output?]⟩
      unfold proceedStep route
      dsimp only
      split
      · split
        · exact h'.frame (by simp) fun _ => by simp
        · split_ifs
          · exact h'.frame rfl fun _ => by
              simp only [Sim.enqueue_trace, outputsOf_append, outputsOf_enqueue, List.append_nil]
          · exact h'.frame rfl fun _ => rfl
      all_goals exact h'.frame rfl fun _ => rfl
  · split_ifs <;> exact h.frame rfl fun _ => rfl
  · exact h
  · exact h

/-- Locality holds at every state a run passes through. -/
theorem local_of_reachable {n : Nat} (hs : Reachable sm n parties s) : Local sm parties s := by
  induction hs with
  | start => exact ⟨fun _ => .start, fun _ _ h => absurd h (List.not_mem_nil _)⟩
  | step _ ih => exact ih.step

/-- **A run that returned `Ok(outs)` returned, for each party, a value its own machine
output.** -/
theorem run_eq_ok_local {n : Nat} {fuel : Nat} {outs : List Out}
    (h : run sm n parties fuel = .ok outs) :
    outs.length = n ∧ ∀ i o, outs[i]? = some o →
      ∃ st, PartyReach sm (parties i) st ∧ (sm.proceed st).1 = .output o := by
  have hs := reachable_iterate sm n parties fuel
  have hinv := inv_of_reachable sm hs
  have hmap := collectOutputs_eq_ok_iff.1 (hinv.returned_ok (Sim.result_eq_ok.1 h)).1
  rw [hs.n_eq] at hmap
  refine ⟨by simpa using (congrArg List.length hmap).symm, fun i o ho => ?_⟩
  have hi : i < n := by
    have := congrArg List.length hmap
    simp only [List.length_map, List.length_range] at this
    exact this ▸ (List.getElem?_eq_some_iff.1 ho).1
  have hslot : _ = some (some o) := (congrArg (·[i]?) hmap).trans (by simp [ho])
  simp only [List.getElem?_map, List.getElem?_range hi, Option.map_some', Option.some.injEq] at hslot
  exact (local_of_reachable hs).outputs i o (by simp [hinv.outputs i, hslot])

/-- Every point-to-point destination that party `i`'s own machine names is below `n`. -/
def DestsBelow (sm : StateMachine σ Msg Out) (n : Nat) (parties : Nat → σ) : Prop :=
  ∀ i < n, ∀ st d m, PartyReach sm (parties i) st →
    (sm.proceed st).1 = .sendMsg ⟨.oneParty d, m⟩ → d.toNat < n

theorem Sim.result_eq_panic {s : Sim σ Msg Out} {msg : String}
    (h : s.result = .error (.panic msg)) : s.pc = .panicked := by
  unfold Sim.result at h
  split at h <;> simp_all

/-- With destinations below `n`, no step of a run panics. -/
theorem step_not_panicked {n : Nat} (hd : DestsBelow sm n parties) (hs : Reachable sm n parties s)
    (hp : s.pc ≠ .panicked) : (step sm s).pc ≠ .panicked := by
  unfold Simulate.step
  split
  · split_ifs <;> simp
  · split_ifs
    · split
      · simp
      · unfold deliverStep; dsimp only; split <;> simp
    · simp
  · next k i hpc =>
      have hi : i < n := by
        have := (inv_of_reachable sm hs).pcOk
        simp only [Sim.PcOk, hpc, hs.n_eq] at this
        exact this.1
      unfold proceedStep route
      dsimp only
      split
      · next o hr =>
          split
          · simp
          · next d hdest =>
              have := hd i hi _ d o.msg ((local_of_reachable hs).state i) (by rw [hr, ← hdest])
              simp [hs.n_eq, this]
      all_goals simp
  · split_ifs <;> simp
  · exact hp
  · exact hp

/-- With destinations below `n`, no state of a run has panicked. -/
theorem reachable_not_panicked {n : Nat} (hd : DestsBelow sm n parties)
    (hs : Reachable sm n parties s) : s.pc ≠ .panicked := by
  induction hs with
  | start => simp [start]
  | step hs ih => exact step_not_panicked hd hs ih

/-- **With destinations below `n`, `run` never panics.** -/
theorem run_ne_panic {n : Nat} (hd : DestsBelow sm n parties) (fuel : Nat) (msg : String) :
    run sm n parties fuel ≠ .error (.panic msg) := fun h =>
  reachable_not_panicked hd (reachable_iterate sm n parties fuel) (Sim.result_eq_panic h)

theorem run_ne_panic_selfSender :
    DestsBelow selfSender 1 (fun _ => ()) ∧ run selfSender 1 (fun _ => ()) 5 ≠ .error (.panic "") :=
  ⟨fun _ _ st d m _ h => selfSender_p2pBelow st d m h,
    run_ne_panic (fun _ _ st d m _ h => selfSender_p2pBelow st d m h) 5 ""⟩

end Locality

end Properties

end Simulate
end GuardianWallet
