import GuardianWallet.SimulateProperties

/-!
# The channels of `simulate::run`

The simulator is the network of the parties it runs: a party's `SendMsg` is the only way a
message enters an inbox, and `received_msg` the only way one leaves it.  This module states
the network's guarantee over a whole run, for every party `j < n`: the messages handed to
`j`, followed by those still queued for it, are exactly the messages the other parties'
`proceed` calls addressed to `j`, in the order they were sent (`run_channels`).  Nothing
is lost, duplicated, reordered or invented; a broadcast reaches every other party and not
its sender, a point-to-point message its destination only; and each message carries the
index of the party that sent it (as a `u16`) and the kind it was sent as.

**Proof.**  The messages addressed to `j` are read off the ghost trace (`sentTo`).  Every
step appends to the trace exactly the enqueues of what it sends (`Channels.step`), so the
enqueues to each inbox match the sends to it at every state of a run
(`channels_of_reachable`); the invariant's FIFO law then splits them into the delivered and
the queued.
-/

namespace GuardianWallet

namespace RoundBased

/-- What the receiver sees of a message besides its id: sender, kind and payload. -/
def Incoming.content {Msg : Type} (m : Incoming Msg) : UInt16 × MessageType × Msg :=
  (m.sender, m.msgType, m.msg)

end RoundBased

namespace Simulate

open RoundBased

section Sends

variable {Msg Out : Type}

/-- The messages a trace's calls of `proceed` address to party `j`, in the order they were
sent, as `j` receives them: a broadcast of any other party, and a point-to-point message to
`j`, each with its sender's index as a `u16`. -/
def sentTo (j : Nat) : List (Event Msg Out) → List (UInt16 × MessageType × Msg) :=
  List.filterMap fun
    | .call i (.proceed (.sendMsg ⟨.allParties, m⟩)) =>
        if j ≠ i then some (i.toUInt16, .broadcast, m) else none
    | .call i (.proceed (.sendMsg ⟨.oneParty d, m⟩)) =>
        if d.toNat = j then some (i.toUInt16, .p2p, m) else none
    | _ => none

variable (i j : Nat) (t t' : List (Event Msg Out)) (m : Msg)

@[simp] theorem sentTo_append : sentTo j (t ++ t') = sentTo j t ++ sentTo j t' :=
  List.filterMap_append ..

@[simp] theorem sentTo_enqueue (k : Nat) (inc : Incoming Msg) :
    sentTo j [(.enqueue k inc : Event Msg Out)] = [] := rfl

@[simp] theorem sentTo_receivedMsg (inc : Incoming Msg) (b : Bool) :
    sentTo j [(.call i (.receivedMsg inc b) : Event Msg Out)] = [] := rfl

@[simp] theorem sentTo_broadcast :
    sentTo j [(.call i (.proceed (.sendMsg ⟨.allParties, m⟩)) : Event Msg Out)] =
      if j ≠ i then [(i.toUInt16, .broadcast, m)] else [] := by
  by_cases h : j = i <;> simp [sentTo, h]

@[simp] theorem sentTo_p2p (d : UInt16) :
    sentTo j [(.call i (.proceed (.sendMsg ⟨.oneParty d, m⟩)) : Event Msg Out)] =
      if d.toNat = j then [(i.toUInt16, .p2p, m)] else [] := by
  by_cases h : d.toNat = j <;> simp [sentTo, h]

end Sends

section Channels

variable {σ Msg Out : Type}

/-- The broadcast loop places `m` once in inbox `j` when `j` is one of the distinct indices
`js` other than the sender, and otherwise places nothing there. -/
theorem broadcastTo_enqueuedTo (i : Nat) (m : Msg) (j : Nat) :
    ∀ (js : List Nat) (s : Sim σ Msg Out), js.Nodup →
      (enqueuedTo j (broadcastTo i m js s).trace).map Incoming.content =
        (enqueuedTo j s.trace).map Incoming.content ++
          if j ∈ js ∧ j ≠ i then [(i.toUInt16, .broadcast, m)] else []
  | [], s, _ => by simp [broadcastTo]
  | j' :: js, s, hnd => by
      obtain ⟨hj', hnd⟩ := List.nodup_cons.1 hnd
      rw [broadcastTo, broadcastTo_enqueuedTo i m j js _ hnd]
      by_cases hjj : j = j'
      · subst hjj
        by_cases hji : j = i <;> simp [hji, hj', Incoming.content]
      · split_ifs <;> simp_all [Ne.symm hjj]

/-- The broadcast loop sends nothing of its own: it only places messages. -/
@[simp] theorem broadcastTo_sentTo (i : Nat) (m : Msg) (j : Nat) :
    ∀ (js : List Nat) (s : Sim σ Msg Out),
      sentTo j (broadcastTo i m js s).trace = sentTo j s.trace
  | [], _ => rfl
  | j' :: js, s => by rw [broadcastTo, broadcastTo_sentTo]; split_ifs <;> simp

/-- Every inbox `j < n` has been handed exactly the messages sent to it, in order. -/
def Channels (s : Sim σ Msg Out) : Prop :=
  ∀ j < s.n, (enqueuedTo j s.trace).map Incoming.content = sentTo j s.trace

variable {s : Sim σ Msg Out}

/-- A step that appends to the trace events whose enqueues match their sends keeps
`Channels`. -/
theorem Channels.extend (h : Channels s) {s' : Sim σ Msg Out} (hn : s'.n = s.n)
    (t : List (Event Msg Out)) (ht : s'.trace = s.trace ++ t)
    (hj : ∀ j < s.n, (enqueuedTo j t).map Incoming.content = sentTo j t) : Channels s' := by
  intro j hj'
  rw [hn] at hj'
  rw [ht, enqueuedTo_append, List.map_append, sentTo_append, h j hj', hj j hj']

variable (sm : StateMachine σ Msg Out)

/-- **One step keeps `Channels`.** -/
theorem Channels.step (h : Channels s) : Channels (step sm s) := by
  unfold Simulate.step
  split
  · split_ifs <;> exact h
  · split_ifs
    · split
      · exact h
      · unfold deliverStep
        dsimp only
        split <;> exact h.extend rfl [_] rfl fun _ _ => rfl
    · exact h
  · next k i _ =>
      unfold proceedStep
      generalize sm.proceed (s.parties i) = r
      obtain ⟨r, p⟩ := r
      cases r with
      | sendMsg o =>
          obtain ⟨_ | d, m⟩ := o
          · dsimp only [route]
            intro j hj
            have hj' : j < s.n := by simpa using hj
            simp only [broadcastTo_sentTo, Sim.called_trace, sentTo_append, sentTo_broadcast]
            rw [broadcastTo_enqueuedTo _ _ _ _ _ (List.nodup_range _)]
            simp [h j hj', List.mem_range.2 hj']
          · dsimp only [route]
            split_ifs with hd
            · exact h.extend rfl ([_] ++ [_]) (List.append_assoc _ _ _) fun j _ => by
                simp only [enqueuedTo_append, sentTo_append, List.map_append, enqueuedTo_call,
                  enqueuedTo_enqueue, sentTo_enqueue, sentTo_p2p, List.append_nil, List.nil_append]
                by_cases hj : d.toNat = j <;> simp [hj, Incoming.content]
            · exact h.extend rfl [_] rfl fun j hj => by
                simp only [enqueuedTo_call, List.map_nil, sentTo_p2p]
                rw [if_neg (by simp at hd; omega)]
      | _ => exact h.extend rfl [_] rfl fun _ _ => rfl
  · split_ifs <;> exact h
  · exact h
  · exact h

/-- `Channels` holds at every state a run passes through. -/
theorem channels_of_reachable {n : Nat} {parties : Nat → σ} (hs : Reachable sm n parties s) :
    Channels s := by
  induction hs with
  | start => intro j _; rfl
  | step _ ih => exact ih.step sm

/-- **Reliable FIFO channels.**  At every state of a run, for every party `j < n`, the
messages handed to `j`'s `received_msg` followed by those still in its inbox are exactly
the messages the parties' `proceed` calls addressed to `j`, each once and in the order they
were sent, with the sender's index, the kind and the payload it was sent with. -/
theorem run_channels {n : Nat} {parties : Nat → σ} (hs : Reachable sm n parties s) {j : Nat}
    (hj : j < n) : (receivedBy j s.trace ++ s.queues j).map Incoming.content = sentTo j s.trace := by
  rw [(inv_of_reachable sm hs).fifo j]
  exact channels_of_reachable sm hs j (hs.n_eq ▸ hj)

theorem run_channels_selfSender :
    (Reachable selfSender 1 (fun _ => ()) ((step selfSender)^[3] (start 1 fun _ => ())) ∧ 0 < 1) ∧
    (receivedBy 0 ((step selfSender)^[3] (start 1 fun _ => ())).trace ++
        ((step selfSender)^[3] (start 1 fun _ => ())).queues 0).map Incoming.content =
      sentTo 0 ((step selfSender)^[3] (start 1 fun _ => ())).trace :=
  ⟨⟨reachable_iterate selfSender 1 _ 3, Nat.one_pos⟩,
    run_channels selfSender (reachable_iterate selfSender 1 _ 3) Nat.one_pos⟩

end Channels

end Simulate
end GuardianWallet
