import GuardianWallet.SignProperties

/-!
# The session store `SESSIONS`

The three WASM calls of `sign.rs` share one store.  `Op` is one call with its arguments, and
`runOps` a sequence of calls, failing or not.

**Results.**  What each call does to the store, and over every sequence of calls the
invariant that a stored session's keygen index is a member of its group, kept by every call
(`Valid`, `Valid.runOps`), and that a session keeps its index and its group until its id is
created again or destroyed (`keeps_runOps`).  `sessions_store_ops` collects them.
-/

namespace GuardianWallet
namespace Sign

open RoundBased

/-- One call of the signing API on `SESSIONS`; a creation names the id it generates. -/
inductive Op
  | create (coreShareBytes auxInfoBytes messageHash : List UInt8) (partyIndex : UInt16)
      (partiesAtKeygen : List UInt16) (eidBytes : List UInt8) (sessionId : String)
  | process (sessionId : String) (incoming : List WasmSignMessage)
  | destroy (sessionId : String)

/-- The call puts a new session under `id`, or removes it. -/
def Op.Replaces (id : String) : Op → Prop
  | .create _ _ _ _ _ _ sessionId => sessionId = id
  | .process _ _ => False
  | .destroy sessionId => sessionId = id

/-- Every stored session's keygen index is a member of its group. -/
def Valid {σ Msg Sig : Type} (sessions : Sessions σ Msg Sig) : Prop :=
  ∀ id s, sessions id = some s → s.partyIndex ∈ s.partiesAtKeygen

section Store

variable {σ Msg Sig Core Aux Key : Type} (c : Codec Msg Sig)
  (sm : StateMachine σ Msg (Except String Sig)) (lib : KeyLib Core Aux Key σ)

/-- The store after one call. -/
def Op.apply (fuel : Nat) (sessions : Sessions σ Msg Sig) : Op → Sessions σ Msg Sig
  | .create coreShareBytes auxInfoBytes messageHash partyIndex parties eidBytes sessionId =>
      (createSession c sm lib fuel sessions coreShareBytes auxInfoBytes messageHash partyIndex
        parties eidBytes sessionId).2
  | .process sessionId incoming => (processRound c sm fuel sessions sessionId incoming).2
  | .destroy sessionId => (destroySession sessions sessionId).2

/-- The store after a sequence of calls. -/
def runOps (fuel : Nat) (ops : List Op) (sessions : Sessions σ Msg Sig) : Sessions σ Msg Sig :=
  ops.foldl (Op.apply c sm lib fuel) sessions

/-- What a successful `create_session` stores. -/
theorem createSession_ok {fuel : Nat} {sessions sessions' : Sessions σ Msg Sig}
    {coreShareBytes auxInfoBytes messageHash eidBytes : List UInt8} {partyIndex : UInt16}
    {parties : List UInt16} {sessionId : String} {res : CreateSessionResult}
    (h : createSession c sm lib fuel sessions coreShareBytes auxInfoBytes messageHash partyIndex
      parties eidBytes sessionId = (.ok res, sessions')) :
    res.sessionId = sessionId ∧ ∃ s, sessions' = Function.update sessions sessionId (some s) ∧
      s.partyIndex = partyIndex ∧ s.partiesAtKeygen = parties ∧ partyIndex ∈ parties := by
  rcases createSession_eq c sm lib h with ⟨_, h, -⟩ | ⟨pos, st, s, messages, hpos, hdb, hr, rfl⟩
  · cases h
  cases hr
  have hpi := congrArg (·.2.partyIndex) hdb
  have hpk := congrArg (·.2.partiesAtKeygen) hdb
  simp only [driveBatch_partyIndex, driveBatch_partiesAtKeygen] at hpi hpk
  exact ⟨rfl, s, rfl, hpi.symm, hpk.symm, mem_of_findIdx? hpos⟩

/-- Whatever `create_session` returns, the store is the old one, or the old one with one
session under the id it returns. -/
theorem createSession_snd (fuel : Nat) (sessions : Sessions σ Msg Sig)
    (coreShareBytes auxInfoBytes messageHash : List UInt8) (partyIndex : UInt16)
    (parties : List UInt16) (eidBytes : List UInt8) (sessionId : String) :
    (createSession c sm lib fuel sessions coreShareBytes auxInfoBytes messageHash partyIndex
      parties eidBytes sessionId).2 = sessions ∨
    ∃ s, (createSession c sm lib fuel sessions coreShareBytes auxInfoBytes messageHash partyIndex
      parties eidBytes sessionId).2 = Function.update sessions sessionId (some s) ∧
      s.partyIndex = partyIndex ∧ s.partiesAtKeygen = parties ∧ partyIndex ∈ parties := by
  rcases h : createSession c sm lib fuel sessions coreShareBytes auxInfoBytes messageHash
    partyIndex parties eidBytes sessionId with ⟨_ | res, sessions'⟩
  · rcases createSession_eq c sm lib h with ⟨_, -, rfl⟩ | ⟨_, _, _, _, -, -, hr, -⟩
    · exact .inl rfl
    · cases hr
  · exact .inr (createSession_ok c sm lib h).2

/-- `process_round` keeps every id present or absent, changes only the session it names,
and that session keeps its keygen index and its group. -/
theorem processRound_snd (fuel : Nat) (sessions : Sessions σ Msg Sig) (sessionId : String)
    (incoming : List WasmSignMessage) :
    (sessions sessionId = none ∧ (processRound c sm fuel sessions sessionId incoming).2 = sessions) ∨
    ∃ s s', sessions sessionId = some s ∧
      (processRound c sm fuel sessions sessionId incoming).2 =
        Function.update sessions sessionId (some s') ∧
      s'.partyIndex = s.partyIndex ∧ s'.partiesAtKeygen = s.partiesAtKeygen := by
  unfold processRound
  split
  · next h => exact .inl ⟨h, rfl⟩
  · next s h =>
      exact .inr ⟨s, _, h, rfl, SignSession.processRound_partyIndex c sm s fuel incoming,
        SignSession.processRound_partiesAtKeygen c sm s fuel incoming⟩

/-- Every call keeps `Valid`. -/
theorem Valid.apply {sessions : Sessions σ Msg Sig} (h : Valid sessions) (fuel : Nat) (op : Op) :
    Valid (op.apply c sm lib fuel sessions) := by
  intro id s hs
  cases op with
  | create coreShareBytes auxInfoBytes messageHash partyIndex parties eidBytes sessionId =>
      rcases createSession_snd c sm lib fuel sessions coreShareBytes auxInfoBytes messageHash
        partyIndex parties eidBytes sessionId with he | ⟨s', he, hpi, hpk, hmem⟩ <;>
        simp only [Op.apply, he] at hs
      · exact h id s hs
      · by_cases hid : id = sessionId
        · subst hid; simp only [Function.update_same, Option.some.injEq] at hs
          subst hs; exact hpi ▸ hpk ▸ hmem
        · exact h id s (by rwa [Function.update_noteq hid] at hs)
  | process sessionId incoming =>
      rcases processRound_snd c sm fuel sessions sessionId incoming with
        ⟨-, he⟩ | ⟨s₀, s', h₀, he, hpi, hpk⟩ <;> simp only [Op.apply, he] at hs
      · exact h id s hs
      · by_cases hid : id = sessionId
        · subst hid; simp only [Function.update_same, Option.some.injEq] at hs
          subst hs; exact hpi ▸ hpk ▸ h id s₀ h₀
        · exact h id s (by rwa [Function.update_noteq hid] at hs)
  | destroy sessionId =>
      by_cases hid : id = sessionId
      · subst hid; simp [Op.apply, destroySession] at hs
      · exact h id s (by simpa [Op.apply, destroySession, Function.update_noteq hid] using hs)

/-- **`Valid` over a run.** -/
theorem Valid.runOps {sessions : Sessions σ Msg Sig} (h : Valid sessions) (fuel : Nat) :
    ∀ ops : List Op, Valid (runOps c sm lib fuel ops sessions) := by
  intro ops
  induction ops generalizing sessions with
  | nil => exact h
  | cons op ops ih => exact ih (h.apply c sm lib fuel op)

/-- A call that does not replace `id` keeps the session there, with its index and group. -/
theorem keeps_apply {sessions : Sessions σ Msg Sig} {id : String} {s : SignSession σ Msg Sig}
    (hs : sessions id = some s) (fuel : Nat) {op : Op} (hop : ¬ op.Replaces id) :
    ∃ s', op.apply c sm lib fuel sessions id = some s' ∧
      s'.partyIndex = s.partyIndex ∧ s'.partiesAtKeygen = s.partiesAtKeygen := by
  cases op with
  | create coreShareBytes auxInfoBytes messageHash partyIndex parties eidBytes sessionId =>
      have hid : id ≠ sessionId := fun h => hop (h ▸ rfl)
      rcases createSession_snd c sm lib fuel sessions coreShareBytes auxInfoBytes messageHash
        partyIndex parties eidBytes sessionId with he | ⟨s', he, -⟩ <;>
        simp [Op.apply, he, Function.update_noteq hid, hs]
  | process sessionId incoming =>
      rcases processRound_snd c sm fuel sessions sessionId incoming with
        ⟨h₀, he⟩ | ⟨s₀, s', h₀, he, hpi, hpk⟩
      · simp [Op.apply, he, hs]
      · by_cases hid : id = sessionId
        · subst hid
          rw [hs, Option.some.injEq] at h₀
          subst h₀
          exact ⟨s', by simp [Op.apply, he], hpi, hpk⟩
        · simp [Op.apply, he, Function.update_noteq hid, hs]
  | destroy sessionId =>
      have hid : id ≠ sessionId := fun h => hop (h ▸ rfl)
      simp [Op.apply, destroySession, Function.update_noteq hid, hs]

/-- **A session lives on.**  Over a run in which no call creates or destroys `id`, the
session under `id` stays, with the keygen index and the group it was created with. -/
theorem keeps_runOps (fuel : Nat) {id : String} :
    ∀ (ops : List Op) {sessions : Sessions σ Msg Sig} {s : SignSession σ Msg Sig},
      (∀ op ∈ ops, ¬ op.Replaces id) → sessions id = some s →
      ∃ s', runOps c sm lib fuel ops sessions id = some s' ∧
        s'.partyIndex = s.partyIndex ∧ s'.partiesAtKeygen = s.partiesAtKeygen
  | [], _, s, _, hs => ⟨s, hs, rfl, rfl⟩
  | op :: ops, _, _, hops, hs => by
      obtain ⟨s₁, h₁, hpi, hpk⟩ := keeps_apply c sm lib hs fuel (hops op (.head _))
      obtain ⟨s₂, h₂, hpi₂, hpk₂⟩ :=
        keeps_runOps fuel ops (fun op h => hops op (.tail _ h)) h₁
      exact ⟨s₂, h₂, hpi₂.trans hpi, hpk₂.trans hpk⟩

/-- What the three calls do to `SESSIONS`, and what holds over every sequence of them. -/
structure StoreSpec : Prop where
  /-- A failing `create_session` leaves the store as it was. -/
  create_error : ∀ fuel (sessions sessions' : Sessions σ Msg Sig) coreShareBytes auxInfoBytes
      messageHash partyIndex parties eidBytes sessionId f,
    createSession c sm lib fuel sessions coreShareBytes auxInfoBytes messageHash partyIndex
      parties eidBytes sessionId = (.error f, sessions') → sessions' = sessions
  /-- A successful one returns its id, changes the store at that id only, and stores there a
  session of the given keygen index and group, the index a member of the group. -/
  create_ok : ∀ fuel (sessions sessions' : Sessions σ Msg Sig) coreShareBytes auxInfoBytes
      messageHash partyIndex parties eidBytes sessionId res,
    createSession c sm lib fuel sessions coreShareBytes auxInfoBytes messageHash partyIndex
      parties eidBytes sessionId = (.ok res, sessions') →
    res.sessionId = sessionId ∧ (∀ id, id ≠ sessionId → sessions' id = sessions id) ∧
      ∃ s, sessions' sessionId = some s ∧ s.partyIndex = partyIndex ∧
        s.partiesAtKeygen = parties ∧ partyIndex ∈ parties
  /-- `process_round`, succeeding or failing, adds and removes no id, changes only the session
  it names, and that session keeps its keygen index and group. -/
  process : ∀ fuel (sessions sessions' : Sessions σ Msg Sig) sessionId incoming r,
    processRound c sm fuel sessions sessionId incoming = (r, sessions') →
    (∀ id, (sessions' id).isSome = (sessions id).isSome) ∧
      (∀ id, id ≠ sessionId → sessions' id = sessions id) ∧
      ∀ s', sessions' sessionId = some s' → ∃ s, sessions sessionId = some s ∧
        s'.partyIndex = s.partyIndex ∧ s'.partiesAtKeygen = s.partiesAtKeygen
  /-- `destroy_session` returns whether the id was present and removes it and nothing else,
  so that a second call returns `false`. -/
  destroy : ∀ (sessions : Sessions σ Msg Sig) sessionId,
    (destroySession sessions sessionId).1 = (sessions sessionId).isSome ∧
      (destroySession sessions sessionId).2 sessionId = none ∧
      (∀ id, id ≠ sessionId → (destroySession sessions sessionId).2 id = sessions id) ∧
      (destroySession (destroySession sessions sessionId).2 sessionId).1 = false
  /-- Over every sequence of calls, every stored session's index is a member of its group. -/
  valid : ∀ fuel ops (sessions : Sessions σ Msg Sig), Valid sessions →
    Valid (runOps c sm lib fuel ops sessions)
  /-- Over every sequence of calls that does not create or destroy `id`, the session under
  `id` stays, with its keygen index and group. -/
  keeps : ∀ fuel ops (sessions : Sessions σ Msg Sig) id s, (∀ op ∈ ops, ¬ op.Replaces id) →
    sessions id = some s → ∃ s', runOps c sm lib fuel ops sessions id = some s' ∧
      s'.partyIndex = s.partyIndex ∧ s'.partiesAtKeygen = s.partiesAtKeygen

/-- **The session store.**  Every call of the signing API and every sequence of them keep
`SESSIONS` as `StoreSpec` says. -/
theorem sessions_store_ops : StoreSpec c sm lib where
  create_error _ _ _ _ _ _ _ _ _ _ _ h := by
    rcases createSession_eq c sm lib h with ⟨_, -, he⟩ | ⟨_, _, _, _, -, -, hr, -⟩
    · exact he
    · cases hr
  create_ok _ _ _ _ _ _ _ _ _ sessionId _ h := by
    obtain ⟨hid, s, rfl, hpi, hpk, hmem⟩ := createSession_ok c sm lib h
    exact ⟨hid, fun id hne => Function.update_noteq hne _ _, s, by simp, hpi, hpk, hmem⟩
  process fuel sessions _ sessionId incoming _ h := by
    rcases processRound_snd c sm fuel sessions sessionId incoming with
      ⟨h₀, he⟩ | ⟨s₀, s', h₀, he, hpi, hpk⟩ <;> rw [h] at he <;> simp only at he <;> subst he
    · exact ⟨fun _ => rfl, fun _ _ => rfl, fun s' hs' => (by simp [h₀] at hs')⟩
    · refine ⟨fun id => ?_, fun id hne => Function.update_noteq hne _ _, fun s'' hs'' => ?_⟩
      · by_cases hid : id = sessionId
        · subst hid; simp [h₀]
        · simp [Function.update_noteq hid]
      · simp only [Function.update_same, Option.some.injEq] at hs''
        exact ⟨s₀, h₀, hs'' ▸ hpi, hs'' ▸ hpk⟩
  destroy sessions sessionId :=
    ⟨rfl, by simp [destroySession], fun _ hne => by simp [destroySession, Function.update_noteq hne],
      by simp [destroySession]⟩
  valid fuel ops _ h := h.runOps c sm lib fuel ops
  keeps fuel ops _ _ _ hops hs := keeps_runOps c sm lib fuel ops hops hs

end Store

end Sign
end GuardianWallet
