import Mathlib.Logic.Function.Basic
import Mathlib.Data.List.Basic

/-!
# The `round_based` state-machine interface and its caller contract

Both ceremonies of `mpc-wasm` drive CGGMP24 protocols through the `StateMachine` trait of
`round_based`: `proceed` reports what the machine wants next, and `received_msg` hands it one
incoming message.  This module gives the data types of that interface, a machine as the
record of its two methods over an explicit state, and the contract a driver must keep.

**The contract.**  As the trait documents it: `received_msg` is called only after `proceed`
returned `NeedsOneMoreMessage`, once per such request, and is followed by `proceed`; once
`proceed` returned `Output` or `Error` the machine is not used again.  `Phase.after` is this
contract as an automaton over the calls of one driver; a call sequence honours it when the
automaton accepts every call (`Honours`).

**Faults.**  A Rust call of this crate ends with a value, with `Err`, or with a panic;
`Fault` names the last two, and the fuel running out before a loop of the model stops.
-/

namespace GuardianWallet

/-- How a call of the source ends without a value. -/
inductive Fault
  /-- The call returned `Err(msg)`, or the process printed `msg` and exited with status 1. -/
  | err (msg : String)
  /-- The call panicked (an `expect`, an index out of bounds). -/
  | panic (msg : String)
  /-- A loop of the call had not stopped within the fuel the model was run with. -/
  | outOfFuel
deriving DecidableEq, Repr

/-- `map_err` on the text of an `Err`; a panic or a lack of fuel stays as it is. -/
def Fault.mapErr (f : String → String) : Fault → Fault
  | .err msg => .err (f msg)
  | fault => fault

/-- Rust's `v[i]`: the element, or the panic of an index out of bounds. -/
def index {α : Type} (v : List α) (i : Nat) : Except Fault α :=
  match v[i]? with
  | some a => .ok a
  | none => .error (.panic "index out of bounds")

theorem index_eq_ok {α : Type} {v : List α} {i : Nat} {a : α} :
    index v i = .ok a ↔ v[i]? = some a := by
  unfold index
  split <;> rename_i h <;> simp [h]

theorem index_of_lt {α : Type} {v : List α} {i : Nat} (h : i < v.length) :
    index v i = .ok v[i] :=
  index_eq_ok.2 (List.getElem?_eq_getElem h)

theorem bind_eq_ok {ε α β : Type} {x : Except ε α} {f : α → Except ε β} {b : β} :
    x >>= f = .ok b ↔ ∃ a, x = .ok a ∧ f a = .ok b := by
  cases x <;> simp [bind, Except.bind]

@[simp] theorem mapError_eq_ok {ε ε' α : Type} {f : ε → ε'} {x : Except ε α} {a : α} :
    x.mapError f = .ok a ↔ x = .ok a := by
  cases x <;> simp [Except.mapError]

/-- A call that does not panic: it returns, returns `Err`, or runs out of fuel. -/
def NoPanic {α : Type} (r : Except Fault α) : Prop :=
  ∀ msg, r ≠ .error (.panic msg)

section NoPanic

variable {α β : Type}

@[simp] theorem noPanic_ok (a : α) : NoPanic (.ok a : Except Fault α) := fun _ h => by cases h

@[simp] theorem noPanic_throw_err (msg : String) :
    NoPanic (throw (Fault.err msg) : Except Fault α) := fun _ h => by cases h

theorem NoPanic.bind {x : Except Fault α} {f : α → Except Fault β} (hx : NoPanic x)
    (hf : ∀ a, x = .ok a → NoPanic (f a)) : NoPanic (x >>= f) := by
  cases x with
  | error e => intro msg h; exact hx msg (by rw [Except.error.inj h])
  | ok a => exact hf a rfl

/-- `map_err` into `Fault.err` never makes a panic. -/
@[simp] theorem noPanic_mapError_err {ε : Type} (x : Except ε α) (g : ε → String) :
    NoPanic (x.mapError fun e => Fault.err (g e)) := by
  intro msg h
  cases x <;> cases h

theorem NoPanic.mapErr {x : Except Fault α} (hx : NoPanic x) (g : String → String) :
    NoPanic (x.mapError (Fault.mapErr g)) := by
  intro msg h
  cases x with
  | ok a => cases h
  | error e =>
      cases e with
      | panic m => exact hx m rfl
      | _ => cases h

theorem index_noPanic {v : List α} {i : Nat} (h : i < v.length) : NoPanic (index v i) := by
  rw [index_of_lt h]; exact noPanic_ok _

end NoPanic

section Collect

variable {ε α : Type}

/-- `Iterator::collect` into a `Result<Vec<_>, _>`: all the values, or the first `Err`. -/
def collectResults : List (Except ε α) → Except ε (List α)
  | [] => .ok []
  | .ok a :: rs => (collectResults rs).map (a :: ·)
  | .error e :: _ => .error e

@[simp] theorem collectResults_map_ok :
    ∀ as : List α, collectResults (as.map (.ok : α → Except ε α)) = .ok as
  | [] => rfl
  | a :: as => by simp [collectResults, collectResults_map_ok as, Except.map]

theorem eq_map_ok_of_collectResults :
    ∀ {rs : List (Except ε α)} {as : List α}, collectResults rs = .ok as → rs = as.map .ok
  | [], _, h => by cases h; rfl
  | .error _ :: _, _, h => by cases h
  | .ok a :: rs, as, h => by
      cases h' : collectResults rs with
      | error e => simp [collectResults, h', Except.map] at h
      | ok bs =>
          simp only [collectResults, h', Except.map, Except.ok.injEq] at h
          subst h
          simp [eq_map_ok_of_collectResults h']

theorem collectResults_eq_ok_iff {rs : List (Except ε α)} {as : List α} :
    collectResults rs = .ok as ↔ rs = as.map .ok :=
  ⟨eq_map_ok_of_collectResults, fun h => h ▸ collectResults_map_ok as⟩

/-- A `collect` over `enumerate()` that returned `Ok(bs)` relates each item to its value as
the loop body does, whatever the index. -/
theorem forall₂_of_collectResults_enumFrom {β : Type} {f : Nat × α → Except ε β}
    {R : α → β → Prop} (hf : ∀ i a b, f (i, a) = .ok b → R a b) :
    ∀ {k : Nat} {as : List α} {bs : List β},
      collectResults ((as.enumFrom k).map f) = .ok bs → List.Forall₂ R as bs
  | _, [], _, h => by cases h; exact .nil
  | k, a :: as, bs, h => by
      obtain ⟨b, bs', hb, hbs, rfl⟩ : ∃ b bs', f (k, a) = .ok b ∧
          collectResults ((as.enumFrom (k + 1)).map f) = .ok bs' ∧ bs = b :: bs' := by
        cases hfa : f (k, a) <;> cases hr : collectResults ((as.enumFrom (k + 1)).map f) <;>
          simp_all [collectResults, Except.map]
      exact .cons (hf k a b hb) (forall₂_of_collectResults_enumFrom hf hbs)

theorem noPanic_collectResults :
    ∀ {rs : List (Except Fault α)}, (∀ r ∈ rs, NoPanic r) → NoPanic (collectResults rs)
  | [], _ => noPanic_ok _
  | .error e :: _, h => fun msg he =>
      h _ (List.mem_cons_self _ _) msg (by simpa [collectResults] using he)
  | .ok _ :: rs, h => by
      have ih := noPanic_collectResults fun r hr => h r (List.mem_cons_of_mem _ hr)
      intro msg he
      cases hr : collectResults rs with
      | ok _ => simp [collectResults, hr, Except.map] at he
      | error e => simp [collectResults, hr, Except.map] at he; exact ih msg (he ▸ hr)

end Collect

namespace RoundBased

/-- `round_based::MessageType`. -/
inductive MessageType
  | broadcast
  | p2p
deriving DecidableEq, Repr

/-- `round_based::MessageDestination`: every other party, or one party by index. -/
inductive MessageDestination
  | allParties
  | oneParty (p : UInt16)
deriving DecidableEq, Repr

/-- `round_based::Incoming`: a message as the receiving machine sees it. -/
structure Incoming (Msg : Type) where
  id : UInt64
  sender : UInt16
  msgType : MessageType
  msg : Msg
deriving DecidableEq, Repr

/-- `round_based::Outgoing`: a message a machine asks to send. -/
structure Outgoing (Msg : Type) where
  recipient : MessageDestination
  msg : Msg
deriving DecidableEq, Repr

/-- `round_based::state_machine::ProceedResult`; an execution error is kept as its text. -/
inductive ProceedResult (Out Msg : Type)
  | sendMsg (outgoing : Outgoing Msg)
  | needsOneMoreMessage
  | output (o : Out)
  | yielded
  | error (e : String)
deriving DecidableEq, Repr

/-- A `round_based` state machine over an explicit state `σ`.  Both methods take
`&mut self`, so both return the state they leave; `received_msg` returns the message back
when it refuses it. -/
structure StateMachine (σ Msg Out : Type) where
  proceed : σ → ProceedResult Out Msg × σ
  receivedMsg : σ → Incoming Msg → Except (Incoming Msg) Unit × σ

section Contract

variable {Msg Out : Type}

/-- One call of a driver on a machine, with what the call returned. -/
inductive Call (Msg Out : Type)
  | proceed (r : ProceedResult Out Msg)
  | receivedMsg (m : Incoming Msg) (accepted : Bool)
deriving DecidableEq, Repr

/-- Where a driver stands in the contract of one machine. -/
inductive Phase
  /-- `proceed` may be called. -/
  | running
  /-- The last `proceed` asked for a message and none was taken since. -/
  | awaiting
  /-- `proceed` returned `Output` or `Error`. -/
  | finished
deriving DecidableEq, Repr

/-- The phase after one more call, or `none` when the contract forbids the call. -/
def Phase.after : Phase → Call Msg Out → Option Phase
  | .running, .proceed .needsOneMoreMessage => some .awaiting
  | .running, .proceed (.output _) => some .finished
  | .running, .proceed (.error _) => some .finished
  | .running, .proceed (.sendMsg _) => some .running
  | .running, .proceed .yielded => some .running
  | .awaiting, .receivedMsg _ true => some .running
  | .awaiting, .receivedMsg _ false => some .awaiting
  | _, _ => none

/-- The phase a call sequence leaves a fresh machine in, or `none` if it breaks the contract. -/
def replay (calls : List (Call Msg Out)) : Option Phase :=
  calls.foldlM Phase.after .running

/-- A call sequence honours the `StateMachine` contract. -/
def Honours (calls : List (Call Msg Out)) : Prop :=
  (replay calls).isSome

instance (calls : List (Call Msg Out)) : Decidable (Honours calls) :=
  inferInstanceAs (Decidable ((replay calls).isSome = true))

@[simp] theorem replay_nil : replay ([] : List (Call Msg Out)) = some .running := rfl

@[simp] theorem replay_append_singleton (calls : List (Call Msg Out)) (c : Call Msg Out) :
    replay (calls ++ [c]) = (replay calls).bind (·.after c) := by
  simp [replay, List.foldlM_append]

theorem replay_append (calls calls' : List (Call Msg Out)) :
    replay (calls ++ calls') = (replay calls).bind (calls'.foldlM Phase.after) := by
  simp [replay, List.foldlM_append]

/-- A call sequence that breaks the contract breaks it whatever follows. -/
theorem not_honours_append {calls : List (Call Msg Out)} (h : ¬ Honours calls)
    (calls' : List (Call Msg Out)) : ¬ Honours (calls ++ calls') := by
  simp only [Honours, Option.isSome_iff_ne_none, ne_eq, not_not] at h ⊢
  rw [replay_append, h]
  rfl

/-- The value of a call of `proceed` that returned `Output`. -/
def Call.output? : Call Msg Out → Option Out
  | .proceed (.output o) => some o
  | _ => none

@[simp] theorem Call.output?_output (o : Out) :
    (Call.proceed (.output o) : Call Msg Out).output? = some o := rfl

@[simp] theorem Call.output?_sendMsg (o : Outgoing Msg) :
    (Call.proceed (.sendMsg o) : Call Msg Out).output? = none := rfl

@[simp] theorem Call.output?_needsOneMoreMessage :
    (Call.proceed .needsOneMoreMessage : Call Msg Out).output? = none := rfl

@[simp] theorem Call.output?_yielded : (Call.proceed .yielded : Call Msg Out).output? = none := rfl

@[simp] theorem Call.output?_error (e : String) :
    (Call.proceed (.error e) : Call Msg Out).output? = none := rfl

@[simp] theorem Call.output?_receivedMsg (m : Incoming Msg) (b : Bool) :
    (Call.receivedMsg m b : Call Msg Out).output? = none := rfl

/-- A failed call: `proceed` returned `Error`, or `received_msg` refused its message. -/
def Call.IsFailure : Call Msg Out → Prop
  | .proceed (.error _) => True
  | .receivedMsg _ false => True
  | _ => False

/-- A finished machine accepts no call at all. -/
@[simp] theorem finished_after (c : Call Msg Out) : Phase.finished.after c = none := by
  cases c <;> rfl

end Contract

end RoundBased
end GuardianWallet
