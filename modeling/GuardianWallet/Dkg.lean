import GuardianWallet.SimulateProperties

/-!
# The DKG ceremonies of `lib.rs` and `native-gen`

Both crates run the two-phase CGGMP24 key generation of `n` parties in one process, with the
simulator of `Simulate` (`native-gen` carries its own copy, `simulate`, line for line the
same).  Phase A simulates `aux_info_gen(eid, i, n, primes)` for every party `i`, Phase B
`keygen(eid, i, n).set_threshold(threshold)`, and each party's key share and aux info are
serialized in party order, next to the shared public key of party 0's share.

**Entry points.**  `lib.rs` has `run_dkg`, which generates each party's primes, and
`run_dkg_with_primes`, which deserializes them from the caller's bytes; both check `n` and
`threshold` first (`checkParams`).  `native-gen` has `run_dkg` and `run_dkg_with_primes`
(one base64 line per party), both through `run_dkg_inner`; `gen_aux_info`, which runs
Phase A alone and emits its serialized outputs as an `AuxInfoOutput`; and
`run_dkg_with_aux`, which runs Phase B only and re-emits cached aux info.  None of the
native ones checks `n` or `threshold`.

**Model.**  What the code uses of `cggmp24`, `serde_json`, `base64` and `hex` is the record
`DkgLib`.  Randomness is an argument: `generated i` are the primes
`PregeneratedPrimes::generate` gives party `i`, and the `eid` of `gen_aux_info` is the
bytes `getrandom` gives.  A party's `Err` is the text `{e:?}` prints.  Each simulation is
`Simulate.runVec` with `fuel` steps.  The two phases, the same in every entry point but
for the texts of their errors, are `auxPhase` and `keygenPhase`.
-/

namespace GuardianWallet
namespace Dkg

open RoundBased Simulate

/-- `AuxInfoOutput` of `native-gen`: the base64 of each party's serialized `AuxInfo`, and
the number of parties. -/
structure AuxInfoOutput where
  auxInfos : List String
  n : UInt16
deriving DecidableEq, Repr

/-- What the DKG entry points use of `cggmp24`, `serde_json`, `base64` and `hex`.  A party
of `aux_info_gen` has state `σA` and messages `MA`, one of `keygen` state `σK` and
messages `MK`.  The machines are total functions: a panic inside the library, such as the
assertion `n >= 2` that `round_based` makes of a ceremony, is not modelled. -/
structure DkgLib (Primes Aux Core σA σK MA MK : Type) where
  /-- The machine `wrap_protocol` makes of `aux_info_gen(..).start(..)`. -/
  auxMachine : StateMachine σA MA (Except String Aux)
  /-- The party `aux_info_gen(ExecutionId::new(eid), i, n, primes)`. -/
  auxInfoGen : List UInt8 → UInt16 → UInt16 → Primes → σA
  /-- The machine `wrap_protocol` makes of `keygen(..).set_threshold(..).start(..)`. -/
  keygenMachine : StateMachine σK MK (Except String Core)
  /-- The party `keygen::<Secp256k1>(ExecutionId::new(eid), i, n).set_threshold(t)`. -/
  keygen : List UInt8 → UInt16 → UInt16 → UInt16 → σK
  /-- `serde_json::from_slice` into `PregeneratedPrimes`. -/
  primesFromJson : List UInt8 → Except String Primes
  /-- `serde_json::to_vec` of a `CoreKeyShare`. -/
  coreToJson : Core → Except String (List UInt8)
  /-- `serde_json::to_vec` of an `AuxInfo`. -/
  auxToJson : Aux → Except String (List UInt8)
  /-- `serde_json::from_slice` into an `AuxInfo`. -/
  auxFromJson : List UInt8 → Except String Aux
  /-- `shared_public_key().to_bytes(true)`: the compressed public key. -/
  sharedPublicKey : Core → List UInt8
  /-- `serde_json::from_str` into an `AuxInfoOutput`. -/
  parseAuxInfoOutput : String → Except String AuxInfoOutput
  /-- `STANDARD.encode` of `base64`. -/
  b64Encode : List UInt8 → String
  /-- `STANDARD.decode` of `base64`. -/
  b64Decode : String → Except String (List UInt8)
  /-- `hex::encode`. -/
  hexEncode : List UInt8 → String

section Results

variable {α : Type}

/-- The loop `for (i, result) in results.into_iter().enumerate()` that unwraps each party's
result and stops at the first `Err`, reported as `msg i e`. -/
def partyResults (msg : Nat → String → String) (results : List (Except String α)) :
    Except Fault (List α) :=
  collectResults (results.enum.map fun (i, r) => r.mapError fun e => .err (msg i e))

theorem enumFrom_mapError_eq_map_ok (msg : Nat → String → String) :
    ∀ (k : Nat) (rs : List (Except String α)) (as : List α),
      (rs.enumFrom k).map (fun (i, r) => r.mapError fun e => Fault.err (msg i e)) =
          as.map .ok ↔ rs = as.map .ok
  | _, [], as => by cases as <;> simp
  | k, r :: rs, as => by
      cases as with
      | nil => simp
      | cons a as =>
          simp only [List.enumFrom_cons, List.map_cons, List.cons.injEq,
            enumFrom_mapError_eq_map_ok msg (k + 1) rs as]
          cases r <;> simp [Except.mapError]

theorem partyResults_eq_ok {msg : Nat → String → String} {results : List (Except String α)}
    {as : List α} : partyResults msg results = .ok as ↔ results = as.map .ok := by
  rw [partyResults, collectResults_eq_ok_iff, List.enum, enumFrom_mapError_eq_map_ok]

end Results

section Phases

variable {Primes Aux Core σA σK MA MK : Type} [Inhabited σA] [Inhabited σK]
  (lib : DkgLib Primes Aux Core σA σK MA MK)

/-- The parties of Phase B: `keygen(eid, i, n).set_threshold(threshold)` for `i < n`. -/
def keygenParties (eidBytes : List UInt8) (n threshold : UInt16) : List σK :=
  (List.range n.toNat).map fun i => lib.keygen eidBytes i.toUInt16 n threshold

/-- Phase A over `auxParties`: the simulation, then its results unwrapped; `partyErr` words
a party's `Err`. -/
def auxPhase (partyErr : Nat → String → String) (fuel : Nat) (auxParties : List σA) :
    Except Fault (List Aux) := do
  let auxResults ← (runVec lib.auxMachine auxParties fuel).mapError
    (Fault.mapErr fun e => s!"aux_info_gen failed: {e}")
  partyResults partyErr auxResults

/-- Phase B: the keygen simulation, then its results unwrapped; `partyErr` words a party's
`Err`. -/
def keygenPhase (partyErr : Nat → String → String) (fuel : Nat) (eidBytes : List UInt8)
    (n threshold : UInt16) : Except Fault (List Core) := do
  let kgResults ← (runVec lib.keygenMachine (keygenParties lib eidBytes n threshold) fuel).mapError
    (Fault.mapErr fun e => s!"keygen failed: {e}")
  partyResults partyErr kgResults

/-- The loop `for i in 0..n as usize` that serializes `core_shares[i]` and `aux_infos[i]`. -/
def serializeShares (n : UInt16) (coreShares : List Core) (auxInfos : List Aux) :
    Except Fault (List (List UInt8 × List UInt8)) :=
  collectResults <| (List.range n.toNat).map fun i => do
    let coreBytes ← (lib.coreToJson (← index coreShares i)).mapError
      fun e => .err s!"serialize core share {i}: {e}"
    let auxBytes ← (lib.auxToJson (← index auxInfos i)).mapError
      fun e => .err s!"serialize aux info {i}: {e}"
    pure (coreBytes, auxBytes)

omit [Inhabited σK] in
theorem auxPhase_eq_ok {partyErr : Nat → String → String} {fuel : Nat} {auxParties : List σA}
    {auxs : List Aux} :
    auxPhase lib partyErr fuel auxParties = .ok auxs ↔
      runVec lib.auxMachine auxParties fuel = .ok (auxs.map .ok) := by
  simp [auxPhase, bind_eq_ok, partyResults_eq_ok]

omit [Inhabited σA] in
theorem keygenPhase_eq_ok {partyErr : Nat → String → String} {fuel : Nat}
    {eidBytes : List UInt8} {n threshold : UInt16} {cores : List Core} :
    keygenPhase lib partyErr fuel eidBytes n threshold = .ok cores ↔
      runVec lib.keygenMachine (keygenParties lib eidBytes n threshold) fuel =
        .ok (cores.map .ok) := by
  simp [keygenPhase, bind_eq_ok, partyResults_eq_ok]

end Phases

namespace Wasm

/-- `DkgShare` of `lib.rs`: one party's serialized key share and aux info. -/
structure DkgShare where
  coreShare : List UInt8
  auxInfo : List UInt8
deriving DecidableEq, Repr

/-- `DkgResult` of `lib.rs`: the shares in party order and the compressed public key. -/
structure DkgResult where
  shares : List DkgShare
  publicKey : List UInt8
deriving DecidableEq, Repr

/-- The checks `run_dkg` and `run_dkg_with_primes` make before anything else. -/
def checkParams (n threshold : UInt16) : Except Fault Unit :=
  if n < 2 then .error (.err "n must be at least 2")
  else if threshold < 2 || threshold > n then
    .error (.err s!"threshold must be in [2, {n}], got {threshold}")
  else .ok ()

theorem checkParams_eq_ok {n threshold : UInt16} :
    checkParams n threshold = .ok () ↔ 2 ≤ n ∧ 2 ≤ threshold ∧ threshold ≤ n := by
  unfold checkParams
  split_ifs with h1 h2
  · simp only [reduceCtorEq, false_iff, not_and]; intro h; exact absurd h (UInt16.not_le.2 h1)
  · simp only [Bool.or_eq_true, decide_eq_true_eq] at h2
    simp only [reduceCtorEq, false_iff, not_and]
    intro _ h3 h4
    rcases h2 with h2 | h2
    · exact absurd h3 (UInt16.not_le.2 h2)
    · exact absurd h4 (UInt16.not_le.2 h2)
  · simp only [Bool.or_eq_true, decide_eq_true_eq, not_or] at h2
    exact iff_of_true rfl ⟨UInt16.not_lt.1 h1, UInt16.not_lt.1 h2.1, UInt16.not_lt.1 h2.2⟩

section Entry

variable {Primes Aux Core σA σK MA MK : Type} [Inhabited σA] [Inhabited σK]
  (lib : DkgLib Primes Aux Core σA σK MA MK)

/-- What `run_dkg` and `run_dkg_with_primes` do once the Phase A parties are built. -/
def dkgPhases (fuel : Nat) (eidBytes : List UInt8) (n threshold : UInt16)
    (auxParties : List σA) : Except Fault DkgResult := do
  let auxInfos ← auxPhase lib (fun i e => s!"aux_info_gen party {i} failed: {e}") fuel auxParties
  let coreShares ← keygenPhase lib (fun i e => s!"keygen party {i} failed: {e}") fuel eidBytes n
    threshold
  let pk := lib.sharedPublicKey (← index coreShares 0)
  let shares ← serializeShares lib n coreShares auxInfos
  pure ⟨shares.map fun (coreShare, auxInfo) => ⟨coreShare, auxInfo⟩, pk⟩

/-- `run_dkg`. -/
def runDkg (fuel : Nat) (eidBytes : List UInt8) (n threshold : UInt16)
    (generated : Nat → Primes) : Except Fault DkgResult := do
  checkParams n threshold
  dkgPhases lib fuel eidBytes n threshold <|
    (List.range n.toNat).map fun i => lib.auxInfoGen eidBytes i.toUInt16 n (generated i)

/-- The loop `for i in 0..n` of `run_dkg_with_primes` that deserializes `primes_bytes[i]`
and builds party `i` of Phase A. -/
def primesParties (eidBytes : List UInt8) (n : UInt16) (primesBytes : List (List UInt8)) :
    Except Fault (List σA) :=
  collectResults <| (List.range n.toNat).map fun i => do
    let primes ← (lib.primesFromJson (← index primesBytes i)).mapError
      fun e => .err s!"deserialize primes for party {i}: {e}"
    pure (lib.auxInfoGen eidBytes i.toUInt16 n primes)

/-- `run_dkg_with_primes`, with `primesBytes` the byte arrays of `serialized_primes`. -/
def runDkgWithPrimes (fuel : Nat) (eidBytes : List UInt8) (n threshold : UInt16)
    (primesBytes : List (List UInt8)) : Except Fault DkgResult := do
  checkParams n threshold
  if primesBytes.length < n.toNat then
    let len := primesBytes.length
    throw (.err s!"need {n} sets of primes, got {len}")
  let auxParties ← primesParties lib eidBytes n primesBytes
  dkgPhases lib fuel eidBytes n threshold auxParties

end Entry

end Wasm

namespace Native

/-- `DkgShare` of `native-gen`: the base64 of one party's serialized key share and aux
info. -/
structure DkgShare where
  coreShare : String
  auxInfo : String
deriving DecidableEq, Repr

/-- `DkgOutput` of `native-gen`: the shares in party order and the public key in hex. -/
structure DkgOutput where
  shares : List DkgShare
  publicKey : String
deriving DecidableEq, Repr

section Entry

variable {Primes Aux Core σA σK MA MK : Type} [Inhabited σA] [Inhabited σK]
  (lib : DkgLib Primes Aux Core σA σK MA MK)

/-- The parties `primes_list.into_iter().enumerate()` gives Phase A. -/
def auxParties (eidBytes : List UInt8) (n : UInt16) (primesList : List Primes) : List σA :=
  primesList.enum.map fun (i, primes) => lib.auxInfoGen eidBytes i.toUInt16 n primes

omit [Inhabited σA] [Inhabited σK] in
@[simp] theorem auxParties_length (eidBytes : List UInt8) (n : UInt16) (primesList : List Primes) :
    (auxParties lib eidBytes n primesList).length = primesList.length := by
  simp [auxParties]

omit [Inhabited σA] [Inhabited σK] in
@[simp] theorem auxParties_getElem? (eidBytes : List UInt8) (n : UInt16)
    (primesList : List Primes) (j : Nat) :
    (auxParties lib eidBytes n primesList)[j]? =
      primesList[j]?.map (lib.auxInfoGen eidBytes j.toUInt16 n) := by
  simp [auxParties, List.getElem?_enum]
  cases primesList[j]? <;> rfl

/-- `run_dkg_inner`: Phase A over `primes_list`, Phase B, and the shares in base64 (encoding
after the loop, as no encoding fails). -/
def runDkgInner (fuel : Nat) (n threshold : UInt16) (eidBytes : List UInt8)
    (primesList : List Primes) : Except Fault DkgOutput := do
  let auxInfos ← auxPhase lib (fun i e => s!"aux_info_gen party {i}: {e}") fuel
    (auxParties lib eidBytes n primesList)
  let coreShares ← keygenPhase lib (fun i e => s!"keygen party {i}: {e}") fuel eidBytes n
    threshold
  let pkHex := lib.hexEncode (lib.sharedPublicKey (← index coreShares 0))
  let shares ← serializeShares lib n coreShares auxInfos
  pure ⟨shares.map fun (coreBytes, auxBytes) => ⟨lib.b64Encode coreBytes, lib.b64Encode auxBytes⟩,
    pkHex⟩

/-- `run_dkg`: `n` sets of generated primes, then `run_dkg_inner`. -/
def runDkg (fuel : Nat) (n threshold : UInt16) (eidBytes : List UInt8)
    (generated : Nat → Primes) : Except Fault DkgOutput :=
  runDkgInner lib fuel n threshold eidBytes ((List.range n.toNat).map generated)

/-- The loop of `run_dkg_with_primes` over the first `n` lines: each the base64 of
serialized primes. -/
def decodePrimes (n : UInt16) (primeLines : List String) : Except Fault (List Primes) :=
  collectResults <| (primeLines.take n.toNat).enum.map fun (i, line) => do
    let bytes ← (lib.b64Decode line.trim).mapError fun e => .err s!"decode prime {i}: {e}"
    (lib.primesFromJson bytes).mapError fun e => .err s!"deserialize prime {i}: {e}"

/-- `run_dkg_with_primes`: the first `n` lines, each the base64 of serialized primes. -/
def runDkgWithPrimes (fuel : Nat) (n threshold : UInt16) (eidBytes : List UInt8)
    (primeLines : List String) : Except Fault DkgOutput := do
  if primeLines.length < n.toNat then
    let len := primeLines.length
    throw (.err s!"Need {n} prime sets, got {len}")
  let primesList ← decodePrimes lib n primeLines
  runDkgInner lib fuel n threshold eidBytes primesList

/-- `gen_aux_info`, with `eidBytes` the bytes `getrandom` gives. -/
def genAuxInfo (fuel : Nat) (n : UInt16) (eidBytes : List UInt8) (generated : Nat → Primes) :
    Except Fault AuxInfoOutput := do
  let auxResults ← (runVec lib.auxMachine
      (auxParties lib eidBytes n ((List.range n.toNat).map generated)) fuel).mapError
    (Fault.mapErr fun e => s!"aux_info_gen failed: {e}")
  let auxInfoB64s ← collectResults <| auxResults.enum.map fun (i, result) => do
    let aux ← result.mapError fun e => .err s!"aux_info_gen party {i}: {e}"
    let bytes ← (lib.auxToJson aux).mapError fun e => .err s!"serialize aux info {i}: {e}"
    pure (lib.b64Encode bytes)
  pure ⟨auxInfoB64s, n⟩

/-- `run_dkg_with_aux`: Phase B only, next to the cached aux info of `auxInfoJson`, which is
decoded and deserialized as a check and re-emitted as it was read. -/
def runDkgWithAux (fuel : Nat) (n threshold : UInt16) (eidBytes : List UInt8)
    (auxInfoJson : String) : Except Fault DkgOutput := do
  let auxOutput ← (lib.parseAuxInfoOutput auxInfoJson).mapError
    fun e => .err s!"parse cached aux info: {e}"
  if auxOutput.n.toNat < n.toNat || auxOutput.auxInfos.length < n.toNat then
    let len := auxOutput.auxInfos.length
    throw (.err s!"Need {n} aux_infos, got {len}")
  let _ ← collectResults <| (auxOutput.auxInfos.take n.toNat).enum.map fun (i, b64Str) => do
    let bytes ← (lib.b64Decode b64Str).mapError fun e => .err s!"decode aux info {i}: {e}"
    (lib.auxFromJson bytes).mapError fun e => .err s!"deserialize aux info {i}: {e}"
  let coreShares ← keygenPhase lib (fun i e => s!"keygen party {i}: {e}") fuel eidBytes n
    threshold
  let pkHex := lib.hexEncode (lib.sharedPublicKey (← index coreShares 0))
  let shares ← collectResults <| (List.range n.toNat).map fun i => do
    let coreBytes ← (lib.coreToJson (← index coreShares i)).mapError
      fun e => .err s!"serialize core share {i}: {e}"
    pure (⟨lib.b64Encode coreBytes, ← index auxOutput.auxInfos i⟩ : DkgShare)
  pure ⟨shares, pkHex⟩

end Entry

end Native

end Dkg
end GuardianWallet
