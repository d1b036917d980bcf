import GuardianWallet.Basic
import Mathlib.Logic.Function.Iterate

/-!
# `simulate::run`: the local round-robin simulator

`run` (`src/simulate.rs`) drives the `n` parties of one protocol in one process; the native
binary has the same function under the name `simulate`.  Each party has a FIFO inbox, a
`wants_msg` flag and an output slot; `done` counts finished parties and `next_id` numbers
the messages placed in inboxes.

**Model.**  The loops of `run` are a program-counter machine.  `Pc` names the point of the
source that the next `step` executes:

* `party k i`: the head of `for i in 0..n` in sweep `k`, with `i = n` standing for the test
  `done == n` after that loop;
* `deliver k i`: the head of the inner `loop`, the `wants_msg[i]` branch;
* `proceed k i`: the `match parties[i].proceed()`;
* `finish`: after the sweeps, the test `done < n` and the collection of the outputs;
* `returned r` and `panicked`: the call has ended (a destination `dest >= n` indexes
  `queues` out of bounds).

The vector `parties` is given by its length `n` and its entries `Nat → σ`; `next_id` is a
`u64` and wraps.  The field `trace` is ghost: the calls made on the parties and the messages
placed in inboxes, in order.  `run` is `step` iterated `fuel` times; `Reachable` is the set of
states a run passes through.
-/

namespace GuardianWallet
namespace Simulate

open RoundBased

/-- The bound of the outer loop `for _ in 0..100_000`. -/
def sweepCap : Nat := 100000

/-- An event of a run: a call on party `i`, or a message placed at the back of inbox `j`. -/
inductive Event (Msg Out : Type)
  | call (i : Nat) (c : Call Msg Out)
  | enqueue (j : Nat) (m : Incoming Msg)

/-- The point of `run` the next step executes. -/
inductive Pc (Out : Type)
  | party (sweep i : Nat)
  | deliver (sweep i : Nat)
  | proceed (sweep i : Nat)
  | finish
  | returned (r : Except String (List Out))
  | panicked

/-- The locals of `run`, its program counter, and the ghost trace. -/
structure Sim (σ Msg Out : Type) where
  n : Nat
  parties : Nat → σ
  queues : Nat → List (Incoming Msg)
  wantsMsg : Nat → Bool
  outputs : Nat → Option Out
  done : Nat
  nextId : UInt64
  pc : Pc Out
  trace : List (Event Msg Out)

section Step

variable {σ Msg Out : Type} (sm : StateMachine σ Msg Out)

/-- The state `run` starts from. -/
def start (n : Nat) (parties : Nat → σ) : Sim σ Msg Out where
  n := n
  parties := parties
  queues := fun _ => []
  wantsMsg := fun _ => false
  outputs := fun _ => none
  done := 0
  nextId := 0
  pc := .party 0 0
  trace := []

/-- `queues[j].push_back(Incoming { id: next_id, sender, msg_type, msg }); next_id += 1`. -/
def Sim.enqueue (s : Sim σ Msg Out) (j : Nat) (sender : UInt16) (t : MessageType) (m : Msg) :
    Sim σ Msg Out :=
  { s with
    queues := Function.update s.queues j (s.queues j ++ [⟨s.nextId, sender, t, m⟩])
    nextId := s.nextId + 1
    trace := s.trace ++ [.enqueue j ⟨s.nextId, sender, t, m⟩] }

section Enqueue

variable (s : Sim σ Msg Out) (j : Nat) (snd : UInt16) (t : MessageType) (m : Msg)

@[simp] theorem Sim.enqueue_n : (s.enqueue j snd t m).n = s.n := rfl
@[simp] theorem Sim.enqueue_parties : (s.enqueue j snd t m).parties = s.parties := rfl
@[simp] theorem Sim.enqueue_wantsMsg : (s.enqueue j snd t m).wantsMsg = s.wantsMsg := rfl
@[simp] theorem Sim.enqueue_outputs : (s.enqueue j snd t m).outputs = s.outputs := rfl
@[simp] theorem Sim.enqueue_done : (s.enqueue j snd t m).done = s.done := rfl
@[simp] theorem Sim.enqueue_pc : (s.enqueue j snd t m).pc = s.pc := rfl

@[simp] theorem Sim.enqueue_queues : (s.enqueue j snd t m).queues =
    Function.update s.queues j (s.queues j ++ [⟨s.nextId, snd, t, m⟩]) := rfl

@[simp] theorem Sim.enqueue_nextId : (s.enqueue j snd t m).nextId = s.nextId + 1 := rfl

@[simp] theorem Sim.enqueue_trace :
    (s.enqueue j snd t m).trace = s.trace ++ [.enqueue j ⟨s.nextId, snd, t, m⟩] := rfl

end Enqueue

/-- The broadcast loop `for j in 0..n { if j != i { .. } }`, over the indices `js`. -/
def broadcastTo (i : Nat) (m : Msg) : List Nat → Sim σ Msg Out → Sim σ Msg Out
  | [], s => s
  | j :: js, s => broadcastTo i m js (if j ≠ i then s.enqueue j i.toUInt16 .broadcast m else s)

/-- What the broadcast loop leaves unchanged. -/
theorem broadcastTo_frame (i : Nat) (m : Msg) : ∀ (js : List Nat) (s : Sim σ Msg Out),
    (broadcastTo i m js s).n = s.n ∧ (broadcastTo i m js s).parties = s.parties ∧
      (broadcastTo i m js s).wantsMsg = s.wantsMsg ∧ (broadcastTo i m js s).outputs = s.outputs ∧
      (broadcastTo i m js s).done = s.done ∧ (broadcastTo i m js s).pc = s.pc
  | [], s => by simp [broadcastTo]
  | j :: js, s => by
      have := broadcastTo_frame i m js (if j ≠ i then s.enqueue j i.toUInt16 .broadcast m else s)
      rw [broadcastTo]
      split_ifs at this ⊢ <;> simp [this]

@[simp] theorem broadcastTo_n (i : Nat) (m : Msg) (js : List Nat) (s : Sim σ Msg Out) :
    (broadcastTo i m js s).n = s.n := (broadcastTo_frame i m js s).1

@[simp] theorem broadcastTo_parties (i : Nat) (m : Msg) (js : List Nat) (s : Sim σ Msg Out) :
    (broadcastTo i m js s).parties = s.parties := (broadcastTo_frame i m js s).2.1

@[simp] theorem broadcastTo_wantsMsg (i : Nat) (m : Msg) (js : List Nat) (s : Sim σ Msg Out) :
    (broadcastTo i m js s).wantsMsg = s.wantsMsg := (broadcastTo_frame i m js s).2.2.1

@[simp] theorem broadcastTo_outputs (i : Nat) (m : Msg) (js : List Nat) (s : Sim σ Msg Out) :
    (broadcastTo i m js s).outputs = s.outputs := (broadcastTo_frame i m js s).2.2.2.1

@[simp] theorem broadcastTo_done (i : Nat) (m : Msg) (js : List Nat) (s : Sim σ Msg Out) :
    (broadcastTo i m js s).done = s.done := (broadcastTo_frame i m js s).2.2.2.2.1

@[simp] theorem broadcastTo_pc (i : Nat) (m : Msg) (js : List Nat) (s : Sim σ Msg Out) :
    (broadcastTo i m js s).pc = s.pc := (broadcastTo_frame i m js s).2.2.2.2.2

/-- A call on party `i`, which leaves the party in state `p`. -/
def Sim.called (s : Sim σ Msg Out) (i : Nat) (p : σ) (c : Call Msg Out) : Sim σ Msg Out :=
  { s with parties := Function.update s.parties i p, trace := s.trace ++ [.call i c] }

section Called

variable (s : Sim σ Msg Out) (i : Nat) (p : σ) (c : Call Msg Out)

@[simp] theorem Sim.called_n : (s.called i p c).n = s.n := rfl
@[simp] theorem Sim.called_queues : (s.called i p c).queues = s.queues := rfl
@[simp] theorem Sim.called_wantsMsg : (s.called i p c).wantsMsg = s.wantsMsg := rfl
@[simp] theorem Sim.called_outputs : (s.called i p c).outputs = s.outputs := rfl
@[simp] theorem Sim.called_done : (s.called i p c).done = s.done := rfl
@[simp] theorem Sim.called_nextId : (s.called i p c).nextId = s.nextId := rfl
@[simp] theorem Sim.called_pc : (s.called i p c).pc = s.pc := rfl

@[simp] theorem Sim.called_parties :
    (s.called i p c).parties = Function.update s.parties i p := rfl

@[simp] theorem Sim.called_trace : (s.called i p c).trace = s.trace ++ [.call i c] := rfl

end Called

/-- The `wants_msg[i]` branch with `m` popped from `queues[i]`: `received_msg`, then
`wants_msg[i] = false`. -/
def deliverStep (s : Sim σ Msg Out) (k i : Nat) (m : Incoming Msg) (rest : List (Incoming Msg)) :
    Sim σ Msg Out :=
  let r := sm.receivedMsg (s.parties i) m
  let s' := { s.called i r.2 (.receivedMsg m r.1.isOk) with
    queues := Function.update s.queues i rest }
  match r.1 with
  | .error _ => { s' with pc := .returned (.error s!"party {i} failed to receive message") }
  | .ok () => { s' with wantsMsg := Function.update s.wantsMsg i false, pc := .proceed k i }

/-- The routing of `ProceedResult::SendMsg(outgoing)` from party `i`. -/
def route (s : Sim σ Msg Out) (k i : Nat) (o : Outgoing Msg) : Sim σ Msg Out :=
  match o.recipient with
  | .allParties => { broadcastTo i o.msg (List.range s.n) s with pc := .deliver k i }
  | .oneParty d =>
      if d.toNat < s.n then { s.enqueue d.toNat i.toUInt16 .p2p o.msg with pc := .deliver k i }
      else { s with pc := .panicked }

/-- The `match parties[i].proceed()` of the inner loop. -/
def proceedStep (s : Sim σ Msg Out) (k i : Nat) : Sim σ Msg Out :=
  let r := sm.proceed (s.parties i)
  let s' := s.called i r.2 (.proceed r.1)
  match r.1 with
  | .sendMsg o => route s' k i o
  | .needsOneMoreMessage =>
      { s' with wantsMsg := Function.update s.wantsMsg i true, pc := .deliver k i }
  | .output o =>
      { s' with
        outputs := Function.update s.outputs i (some o)
        done := s.done + 1
        pc := .party k (i + 1) }
  | .yielded => { s' with pc := .deliver k i }
  | .error e => { s' with pc := .returned (.error s!"party {i} protocol error: {e}") }

/-- `outputs.into_iter().enumerate().map(|(i, o)| o.ok_or_else(..)).collect()`. -/
def collectOutputs (n : Nat) (outputs : Nat → Option Out) : Except String (List Out) :=
  collectResults <| (List.range n).map fun i =>
    match outputs i with
    | some o => .ok o
    | none => .error s!"party {i} missing output"

theorem collectOutputs_eq_ok_iff {n : Nat} {outputs : Nat → Option Out} {outs : List Out} :
    collectOutputs n outputs = .ok outs ↔ (List.range n).map outputs = outs.map some := by
  rw [collectOutputs, collectResults_eq_ok_iff]
  induction List.range n generalizing outs with
  | nil => cases outs <;> simp
  | cons i l ih => cases outs <;> cases h : outputs i <;> simp [h, ih]

theorem collectOutputs_exists {n : Nat} {outputs : Nat → Option Out}
    (h : ∀ i < n, (outputs i).isSome) : ∃ outs, collectOutputs n outputs = .ok outs := by
  simp only [collectOutputs_eq_ok_iff]
  induction n with
  | zero => exact ⟨[], rfl⟩
  | succ n ih =>
      obtain ⟨outs, ho⟩ := ih fun i hi => h i (by omega)
      obtain ⟨o, hof⟩ := Option.isSome_iff_exists.1 (h n (by omega))
      exact ⟨outs ++ [o], by simp [List.range_succ, ho, hof]⟩

/-- One step of `run`. -/
def step (s : Sim σ Msg Out) : Sim σ Msg Out :=
  match s.pc with
  | .party k i =>
      if i < s.n then
        if (s.outputs i).isSome then { s with pc := .party k (i + 1) }
        else { s with pc := .deliver k i }
      else if s.done = s.n then { s with pc := .finish }
      else if k + 1 < sweepCap then { s with pc := .party (k + 1) 0 }
      else { s with pc := .finish }
  | .deliver k i =>
      if s.wantsMsg i then
        match s.queues i with
        | [] => { s with pc := .party k (i + 1) }
        | m :: rest => deliverStep sm s k i m rest
      else { s with pc := .proceed k i }
  | .proceed k i => proceedStep sm s k i
  | .finish =>
      if s.done < s.n then
        let done := s.done
        let n := s.n
        { s with pc := .returned (.error s!"protocol did not complete: {done}/{n} parties finished") }
      else { s with pc := .returned (collectOutputs s.n s.outputs) }
  | .returned _ => s
  | .panicked => s

/-- No step changes the length of the party vector. -/
@[simp] theorem step_n (s : Sim σ Msg Out) : (step sm s).n = s.n := by
  unfold step
  split
  · split_ifs <;> rfl
  · split_ifs
    · split
      · rfl
      · unfold deliverStep; dsimp only; split <;> rfl
    · rfl
  · unfold proceedStep route; dsimp only; split <;> (try split) <;> (try split_ifs) <;> simp
  · split_ifs <;> rfl
  · rfl
  · rfl

/-- What a state says `run` returned: its value, its `Err`, a panic, or nothing yet. -/
def Sim.result (s : Sim σ Msg Out) : Except Fault (List Out) :=
  match s.pc with
  | .returned (.ok outs) => .ok outs
  | .returned (.error e) => .error (.err e)
  | .panicked => .error (.panic "index out of bounds")
  | _ => .error .outOfFuel

theorem Sim.result_eq_ok {s : Sim σ Msg Out} {outs : List Out} :
    s.result = .ok outs ↔ s.pc = .returned (.ok outs) := by
  unfold Sim.result
  split <;> simp_all

/-- `run` on the vector `parties` of length `n`, after `fuel` steps. -/
def run (n : Nat) (parties : Nat → σ) (fuel : Nat) : Except Fault (List Out) :=
  ((step sm)^[fuel] (start n parties)).result

/-- `simulate::run` on the vector of parties `parties`. -/
def runVec [Inhabited σ] (parties : List σ) (fuel : Nat) : Except Fault (List Out) :=
  run sm parties.length (fun i => parties.getD i default) fuel

/-- The states a run passes through. -/
inductive Reachable (n : Nat) (parties : Nat → σ) : Sim σ Msg Out → Prop
  | start : Reachable n parties (start n parties)
  | step {s : Sim σ Msg Out} : Reachable n parties s → Reachable n parties (step sm s)

theorem Reachable.n_eq {n : Nat} {parties : Nat → σ} {s : Sim σ Msg Out}
    (h : Reachable sm n parties s) : s.n = n := by
  induction h with
  | start => rfl
  | step _ ih => rw [step_n, ih]

theorem reachable_iterate (n : Nat) (parties : Nat → σ) (fuel : Nat) :
    Reachable sm n parties ((step sm)^[fuel] (start n parties)) := by
  induction fuel with
  | zero => exact .start
  | succ fuel ih =>
      rw [Function.iterate_succ_apply']
      exact ih.step

end Step

section Trace

variable {Msg Out : Type}

/-- The calls a trace makes on party `i`, in order. -/
def callsOf (i : Nat) : List (Event Msg Out) → List (Call Msg Out) :=
  List.filterMap fun
    | .call j c => if j = i then some c else none
    | .enqueue _ _ => none

/-- The messages a trace places in inbox `j`, in order. -/
def enqueuedTo (j : Nat) : List (Event Msg Out) → List (Incoming Msg) :=
  List.filterMap fun
    | .enqueue j' m => if j' = j then some m else none
    | .call _ _ => none

/-- The messages a trace hands to `received_msg` of party `j`, in order. -/
def receivedBy (j : Nat) : List (Event Msg Out) → List (Incoming Msg) :=
  List.filterMap fun
    | .call j' (.receivedMsg m _) => if j' = j then some m else none
    | _ => none

/-- The message ids a trace assigns, in order. -/
def assignedIds : List (Event Msg Out) → List UInt64 :=
  List.filterMap fun
    | .enqueue _ m => some m.id
    | .call _ _ => none

/-- The values party `i` returned in `ProceedResult::Output`, in order. -/
def outputsOf (i : Nat) (t : List (Event Msg Out)) : List Out :=
  (callsOf i t).filterMap Call.output?

variable (i j : Nat) (c : Call Msg Out) (m : Incoming Msg) (t t' : List (Event Msg Out))

@[simp] theorem callsOf_nil : callsOf i ([] : List (Event Msg Out)) = [] := rfl

@[simp] theorem enqueuedTo_nil : enqueuedTo j ([] : List (Event Msg Out)) = [] := rfl

@[simp] theorem receivedBy_nil : receivedBy j ([] : List (Event Msg Out)) = [] := rfl

@[simp] theorem assignedIds_nil : assignedIds ([] : List (Event Msg Out)) = [] := rfl

@[simp] theorem outputsOf_nil : outputsOf i ([] : List (Event Msg Out)) = [] := rfl

@[simp] theorem callsOf_append : callsOf i (t ++ t') = callsOf i t ++ callsOf i t' :=
  List.filterMap_append ..

@[simp] theorem callsOf_cons_call :
    callsOf i (.call j c :: t) = if j = i then c :: callsOf i t else callsOf i t := by
  by_cases h : j = i <;> simp [callsOf, h]

@[simp] theorem callsOf_cons_enqueue :
    callsOf i ((.enqueue j m : Event Msg Out) :: t) = callsOf i t := rfl

@[simp] theorem enqueuedTo_append : enqueuedTo j (t ++ t') = enqueuedTo j t ++ enqueuedTo j t' :=
  List.filterMap_append ..

@[simp] theorem enqueuedTo_call : enqueuedTo j [.call i c] = [] := rfl

@[simp] theorem enqueuedTo_enqueue : enqueuedTo j [(.enqueue i m : Event Msg Out)] = if i = j then [m] else [] := by
  by_cases h : i = j <;> simp [enqueuedTo, h]

@[simp] theorem receivedBy_append : receivedBy j (t ++ t') = receivedBy j t ++ receivedBy j t' :=
  List.filterMap_append ..

@[simp] theorem receivedBy_call_proceed (r : ProceedResult Out Msg) :
    receivedBy j [.call i (.proceed r)] = [] := rfl

@[simp] theorem receivedBy_call_receivedMsg (b : Bool) :
    receivedBy j [(.call i (.receivedMsg m b) : Event Msg Out)] = if i = j then [m] else [] := by
  by_cases h : i = j <;> simp [receivedBy, h]

@[simp] theorem receivedBy_enqueue : receivedBy j [(.enqueue i m : Event Msg Out)] = [] := rfl

@[simp] theorem assignedIds_append : assignedIds (t ++ t') = assignedIds t ++ assignedIds t' :=
  List.filterMap_append ..

@[simp] theorem assignedIds_call : assignedIds [.call i c] = [] := rfl

@[simp] theorem assignedIds_enqueue : assignedIds [(.enqueue i m : Event Msg Out)] = [m.id] := rfl

@[simp] theorem assignedIds_cons_call : assignedIds (.call i c :: t) = assignedIds t := rfl

@[simp] theorem assignedIds_cons_enqueue :
    assignedIds ((.enqueue i m : Event Msg Out) :: t) = m.id :: assignedIds t := rfl

@[simp] theorem outputsOf_append : outputsOf i (t ++ t') = outputsOf i t ++ outputsOf i t' := by
  simp [outputsOf]

@[simp] theorem outputsOf_call :
    outputsOf i [(.call j c : Event Msg Out)] = if j = i then c.output?.toList else [] := by
  by_cases h : j = i
  · cases hc : c.output? <;> simp [outputsOf, h, hc]
  · simp [outputsOf, h]

@[simp] theorem outputsOf_enqueue : outputsOf i [(.enqueue j m : Event Msg Out)] = [] := rfl

end Trace

end Simulate
end GuardianWallet
