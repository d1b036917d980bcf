import GuardianWallet.DkgProperties

/-!
# Which DKG calls fail before running, and which panic

**Checks.**  `lib.rs` rejects `n < 2` and a threshold outside `[2, n]` before it runs any
protocol.  `native-gen` checks neither: with `n = 0` both phases run over no party and
`core_shares[0]` panics (`native_dkg_unchecked`).

**Panics.**  Every other panic of a DKG entry point would be a panic of a simulation, a
machine naming a party outside its ceremony.  When the library's machines address only the
parties of their own ceremony (`DkgLib.AddressesOwnParties`), every index of the entry
points is in bounds: those of `lib.rs` never panic, and those of `native-gen` never panic
from two parties on (`wasm_dkg_no_panic`, `native_dkg_no_panic`).  Below two parties the
native ones are not safe: with `n = 0` they panic on `core_shares[0]`, and with `n = 1` they
start a ceremony that `round_based` rejects with a failed assertion `n >= 2`.  That panic is
inside the library, whose machines the model takes as total functions, so nothing is stated
below two parties.
-/

namespace GuardianWallet
namespace Dkg

open RoundBased Simulate

section Checks

variable {Primes Aux Core σA σK MA MK : Type} [Inhabited σA] [Inhabited σK]
  (lib : DkgLib Primes Aux Core σA σK MA MK) (fuel : Nat) (eidBytes : List UInt8)
  (threshold : UInt16)

omit [Inhabited σK] in
theorem auxPhase_nil (err : Nat → String → String) :
    auxPhase lib err (fuel + 2) [] = .ok [] := by
  rw [auxPhase, runVec_nil]; rfl

omit [Inhabited σA] in
theorem keygenPhase_zero (err : Nat → String → String) :
    keygenPhase lib err (fuel + 2) eidBytes 0 threshold = .ok [] := by
  rw [keygenPhase, show keygenParties lib eidBytes 0 threshold = [] from rfl, runVec_nil]; rfl

/-- `run_dkg_inner` over no party runs both phases and panics on `core_shares[0]`. -/
theorem Native.runDkgInner_zero :
    Native.runDkgInner lib (fuel + 2) 0 threshold eidBytes ([] : List Primes) =
      .error (.panic "index out of bounds") := by
  rw [Native.runDkgInner, show Native.auxParties lib eidBytes 0 ([] : List Primes) = [] from rfl,
    auxPhase_nil, keygenPhase_zero]
  rfl

/-- **`native-gen` checks neither `n` nor `threshold`**: with `n = 0`, every native entry
point runs both phases over no party and panics on `core_shares[0]`, whatever the library;
the entry points of `lib.rs` return the error of their checks, whatever the library and
the fuel, so before any protocol runs. -/
theorem native_dkg_unchecked :
    (∀ generated : Nat → Primes, Native.runDkg lib (fuel + 2) 0 threshold eidBytes generated =
      .error (.panic "index out of bounds")) ∧
    (∀ primeLines, Native.runDkgWithPrimes lib (fuel + 2) 0 threshold eidBytes primeLines =
      .error (.panic "index out of bounds")) ∧
    (∀ auxInfoJson cache, lib.parseAuxInfoOutput auxInfoJson = .ok cache →
      Native.runDkgWithAux lib (fuel + 2) 0 threshold eidBytes auxInfoJson =
        .error (.panic "index out of bounds")) ∧
    (∀ n e (generated : Nat → Primes) primesBytes, Wasm.checkParams n threshold = .error e →
      Wasm.runDkg lib fuel eidBytes n threshold generated = .error e ∧
      Wasm.runDkgWithPrimes lib fuel eidBytes n threshold primesBytes = .error e) := by
  refine ⟨fun _ => Native.runDkgInner_zero lib fuel eidBytes threshold,
    fun _ => Native.runDkgInner_zero lib fuel eidBytes threshold, fun _ _ hparse => ?_,
    fun _ _ _ _ hchk => ⟨by rw [Wasm.runDkg, hchk]; rfl, by rw [Wasm.runDkgWithPrimes, hchk]; rfl⟩⟩
  rw [Native.runDkgWithAux, hparse, keygenPhase_zero]
  rfl

end Checks

section Panics

variable {Primes Aux Core σA σK MA MK : Type} [Inhabited σA] [Inhabited σK]
  (lib : DkgLib Primes Aux Core σA σK MA MK)

/-- Party `i` of an `n`-party ceremony of the library names only destinations below `n`. -/
structure DkgLib.AddressesOwnParties : Prop where
  aux : ∀ eidBytes i n primes st d m,
    PartyReach lib.auxMachine (lib.auxInfoGen eidBytes i n primes) st →
      (lib.auxMachine.proceed st).1 = .sendMsg ⟨.oneParty d, m⟩ → d.toNat < n.toNat
  keygen : ∀ eidBytes i n threshold st d m,
    PartyReach lib.keygenMachine (lib.keygen eidBytes i n threshold) st →
      (lib.keygenMachine.proceed st).1 = .sendMsg ⟨.oneParty d, m⟩ → d.toNat < n.toNat

/-- `echoLib` sends nothing, so it addresses only its own parties. -/
theorem echoLib_addressesOwnParties : echoLib.AddressesOwnParties where
  aux _ _ _ _ _ _ _ _ h := by cases h
  keygen _ _ _ _ _ _ _ _ h := by cases h

variable {lib} {fuel : Nat} {eidBytes : List UInt8} {n threshold : UInt16}

omit [Inhabited σK] in
/-- An aux simulation over `n` parties of one ceremony does not panic. -/
theorem DkgLib.AddressesOwnParties.auxRun (hlib : lib.AddressesOwnParties) {parties : List σA}
    (hlen : parties.length = n.toNat)
    (hp : ∀ j < n.toNat, ∃ primes, parties[j]? = some (lib.auxInfoGen eidBytes j.toUInt16 n primes)) :
    NoPanic (runVec lib.auxMachine parties fuel) := by
  refine fun _ h => reachable_not_panicked (fun i hi st d m hst hsend => ?_)
    (reachable_iterate _ _ _ fuel) (Sim.result_eq_panic h)
  obtain ⟨primes, hj⟩ := hp i (hlen ▸ hi)
  rw [List.getD_eq_getElem?_getD, hj, Option.getD_some] at hst
  exact hlen ▸ hlib.aux _ _ _ _ _ _ _ hst hsend

omit [Inhabited σA] in
/-- The keygen simulation does not panic. -/
theorem DkgLib.AddressesOwnParties.keygenRun (hlib : lib.AddressesOwnParties) :
    NoPanic (runVec lib.keygenMachine (keygenParties lib eidBytes n threshold) fuel) := by
  refine fun _ h => reachable_not_panicked (fun i hi st d m hst hsend => ?_)
    (reachable_iterate _ _ _ fuel) (Sim.result_eq_panic h)
  have hi' : i < n.toNat := by simpa [keygenParties] using hi
  rw [List.getD_eq_getElem?_getD, keygenParties, List.getElem?_map, List.getElem?_range hi',
    Option.map_some', Option.getD_some] at hst
  simpa [keygenParties] using hlib.keygen _ _ _ _ _ _ _ hst hsend

theorem partyResults_noPanic {α : Type} (msg : Nat → String → String)
    (results : List (Except String α)) : NoPanic (partyResults msg results) :=
  noPanic_collectResults fun _ hr => by
    obtain ⟨⟨i, r⟩, -, rfl⟩ := List.mem_map.1 hr
    exact noPanic_mapError_err _ _

omit [Inhabited σK] in
theorem auxPhase_noPanic {err : Nat → String → String} {auxParties : List σA}
    (h : NoPanic (runVec lib.auxMachine auxParties fuel)) :
    NoPanic (auxPhase lib err fuel auxParties) :=
  (h.mapErr _).bind fun _ _ => partyResults_noPanic _ _

omit [Inhabited σA] in
theorem keygenPhase_noPanic {err : Nat → String → String}
    (h : NoPanic (runVec lib.keygenMachine (keygenParties lib eidBytes n threshold) fuel)) :
    NoPanic (keygenPhase lib err fuel eidBytes n threshold) :=
  (h.mapErr _).bind fun _ _ => partyResults_noPanic _ _

omit [Inhabited σA] [Inhabited σK] in
/-- The serialization loop indexes only below `n`. -/
theorem serializeShares_noPanic {cores : List Core} {auxs : List Aux}
    (hc : n.toNat ≤ cores.length) (ha : n.toNat ≤ auxs.length) :
    NoPanic (serializeShares lib n cores auxs) :=
  noPanic_collectResults fun _ hr => by
    obtain ⟨i, hi, rfl⟩ := List.mem_map.1 hr
    have hi : i < n.toNat := List.mem_range.1 hi
    exact (index_noPanic (by omega)).bind fun _ _ => (noPanic_mapError_err _ _).bind fun _ _ =>
      (index_noPanic (by omega)).bind fun _ _ => (noPanic_mapError_err _ _).bind fun _ _ =>
        noPanic_ok _

/-- The phases of `lib.rs` over `n ≥ 1` parties panic only if a simulation does. -/
theorem Wasm.dkgPhases_noPanic (hlib : lib.AddressesOwnParties) (hn : 0 < n.toNat)
    {auxParties : List σA} (hlen : auxParties.length = n.toNat)
    (hp : ∀ j < n.toNat, ∃ primes, auxParties[j]? = some (lib.auxInfoGen eidBytes j.toUInt16 n primes)) :
    NoPanic (Wasm.dkgPhases lib fuel eidBytes n threshold auxParties) :=
  (auxPhase_noPanic (hlib.auxRun hlen hp)).bind fun auxs ha =>
    (keygenPhase_noPanic hlib.keygenRun).bind fun cores hc => by
      have hcl := KeygenCeremony.length lib ((keygenPhase_eq_ok lib).1 hc)
      have hal : auxs.length = n.toNat := by
        simpa [hlen] using runVec_eq_ok_length ((auxPhase_eq_ok lib).1 ha)
      exact (index_noPanic (by omega)).bind fun _ _ =>
        (serializeShares_noPanic (by omega) (by omega)).bind fun _ _ => noPanic_ok _

omit [Inhabited σA] [Inhabited σK] in
theorem Wasm.checkParams_noPanic : NoPanic (Wasm.checkParams n threshold) := by
  unfold Wasm.checkParams
  split_ifs <;> intro _ h <;> cases h

omit [Inhabited σA] [Inhabited σK] in
theorem Wasm.primesParties_noPanic {primesBytes : List (List UInt8)}
    (hlen : n.toNat ≤ primesBytes.length) :
    NoPanic (Wasm.primesParties lib eidBytes n primesBytes) :=
  noPanic_collectResults fun _ hr => by
    obtain ⟨i, hi, rfl⟩ := List.mem_map.1 hr
    have hi : i < n.toNat := List.mem_range.1 hi
    exact (index_noPanic (by omega)).bind fun _ _ => (noPanic_mapError_err _ _).bind fun _ _ =>
      noPanic_ok _

/-- **The entry points of `lib.rs` never panic** when the library's machines address only the
parties of their ceremony: the checks give `n ≥ 2`, each simulation returns `n` outputs, and
every index is below `n`. -/
theorem wasm_dkg_no_panic (hlib : lib.AddressesOwnParties) :
    (∀ generated : Nat → Primes, NoPanic (Wasm.runDkg lib fuel eidBytes n threshold generated)) ∧
    ∀ primesBytes, NoPanic (Wasm.runDkgWithPrimes lib fuel eidBytes n threshold primesBytes) := by
  have hn : ∀ u : Unit, Wasm.checkParams n threshold = .ok u → 0 < n.toNat := fun _ h => by
    have := BitVec.le_def.1 (UInt16.le_def.1 (Wasm.checkParams_eq_ok.1 h).1)
    exact Nat.lt_of_lt_of_le (by decide) this
  refine ⟨fun generated => Wasm.checkParams_noPanic.bind fun u hu =>
    Wasm.dkgPhases_noPanic hlib (hn u hu) (by simp) fun j hj => ⟨generated j, by simp [hj]⟩,
    fun primesBytes => Wasm.checkParams_noPanic.bind fun u hu => ?_⟩
  dsimp only
  split
  · exact (noPanic_throw_err _).bind fun _ h => by cases h
  · next hlt =>
      refine (noPanic_ok _).bind fun _ _ =>
        (Wasm.primesParties_noPanic (Nat.not_lt.1 hlt)).bind fun auxParties hp => ?_
      obtain ⟨hlen, hparty⟩ := Wasm.primesParties_ok lib hp
      exact Wasm.dkgPhases_noPanic hlib (hn u hu) hlen hparty

theorem wasm_dkg_no_panic_echo :
    echoLib.AddressesOwnParties ∧
      (∀ generated : Nat → Unit, NoPanic (Wasm.runDkg echoLib 12 [] 2 2 generated)) ∧
      ∀ primesBytes, NoPanic (Wasm.runDkgWithPrimes echoLib 12 [] 2 2 primesBytes) :=
  ⟨echoLib_addressesOwnParties, wasm_dkg_no_panic echoLib_addressesOwnParties⟩

/-- `run_dkg_inner` over `n ≥ 1` sets of primes panics only if a simulation does. -/
theorem Native.runDkgInner_noPanic (hlib : lib.AddressesOwnParties) (hn : 0 < n.toNat)
    {primesList : List Primes} (hlen : primesList.length = n.toNat) :
    NoPanic (Native.runDkgInner lib fuel n threshold eidBytes primesList) :=
  (auxPhase_noPanic (hlib.auxRun (by simpa using hlen) (Native.auxParties_ceremony lib hlen))).bind
    fun auxs ha => (keygenPhase_noPanic hlib.keygenRun).bind fun cores hc => by
      have hcl := KeygenCeremony.length lib ((keygenPhase_eq_ok lib).1 hc)
      have hal : auxs.length = n.toNat := by
        simpa [hlen] using runVec_eq_ok_length ((auxPhase_eq_ok lib).1 ha)
      exact (index_noPanic (by omega)).bind fun _ _ =>
        (serializeShares_noPanic (by omega) (by omega)).bind fun _ _ => noPanic_ok _

omit [Inhabited σA] [Inhabited σK] in
theorem Native.decodePrimes_noPanic (primeLines : List String) :
    NoPanic (Native.decodePrimes lib n primeLines) :=
  noPanic_collectResults fun _ hr => by
    obtain ⟨_, -, rfl⟩ := List.mem_map.1 hr
    exact (noPanic_mapError_err _ _).bind fun _ _ => noPanic_mapError_err _ _

omit [Inhabited σK] in
/-- `gen_aux_info` panics only if its simulation does, which it does not here. -/
theorem Native.genAuxInfo_noPanic (hlib : lib.AddressesOwnParties) (N : UInt16)
    (eidAux : List UInt8) (generated : Nat → Primes) :
    NoPanic (Native.genAuxInfo lib fuel N eidAux generated) :=
  ((hlib.auxRun (by simp) (Native.auxParties_ceremony lib (by simp))).mapErr _).bind fun _ _ =>
    (noPanic_collectResults fun _ hr => by
      obtain ⟨_, -, rfl⟩ := List.mem_map.1 hr
      exact (noPanic_mapError_err _ _).bind fun _ _ => (noPanic_mapError_err _ _).bind
        fun _ _ => noPanic_ok _).bind fun _ _ => noPanic_ok _

omit [Inhabited σA] in
/-- `run_dkg_with_aux` over `n ≥ 1` parties panics only if its simulation does: its check
makes every index of the cache below its length. -/
theorem Native.runDkgWithAux_noPanic (hlib : lib.AddressesOwnParties) (hn : 0 < n.toNat)
    (auxInfoJson : String) :
    NoPanic (Native.runDkgWithAux lib fuel n threshold eidBytes auxInfoJson) := by
  refine (noPanic_mapError_err _ _).bind fun cache _ => ?_
  dsimp only
  split
  · exact (noPanic_throw_err _).bind fun _ h => by cases h
  · next hchk =>
      simp only [Bool.or_eq_true, decide_eq_true_eq, not_or, Nat.not_lt] at hchk
      refine (noPanic_ok _).bind fun _ _ => (noPanic_collectResults fun _ hr => ?_).bind
        fun _ _ => (keygenPhase_noPanic hlib.keygenRun).bind fun cores hc => ?_
      · obtain ⟨_, -, rfl⟩ := List.mem_map.1 hr
        exact (noPanic_mapError_err _ _).bind fun _ _ => noPanic_mapError_err _ _
      · have hcl := KeygenCeremony.length lib ((keygenPhase_eq_ok lib).1 hc)
        refine (index_noPanic (by omega)).bind fun _ _ =>
          (noPanic_collectResults fun _ hr => ?_).bind fun _ _ => noPanic_ok _
        obtain ⟨i, hi, rfl⟩ := List.mem_map.1 hr
        have hi : i < n.toNat := List.mem_range.1 hi
        exact (index_noPanic (by omega)).bind fun _ _ => (noPanic_mapError_err _ _).bind
          fun _ _ => (index_noPanic (by omega)).bind fun _ _ => noPanic_ok _

/-- **The entry points of `native-gen` never panic from two parties on** when the
library's machines address only the parties of their ceremony; nor does `gen_aux_info` for
two or more parties. -/
theorem native_dkg_no_panic (hlib : lib.AddressesOwnParties) (hn : 2 ≤ n) :
    (∀ generated : Nat → Primes, NoPanic (Native.runDkg lib fuel n threshold eidBytes generated)) ∧
    (∀ primeLines, NoPanic (Native.runDkgWithPrimes lib fuel n threshold eidBytes primeLines)) ∧
    (∀ auxInfoJson, NoPanic (Native.runDkgWithAux lib fuel n threshold eidBytes auxInfoJson)) ∧
    ∀ N : UInt16, 2 ≤ N → ∀ eidAux (generated : Nat → Primes),
      NoPanic (Native.genAuxInfo lib fuel N eidAux generated) := by
  have hn0 : 0 < n.toNat :=
    Nat.lt_of_lt_of_le (by decide) (BitVec.le_def.1 (UInt16.le_def.1 hn))
  refine ⟨fun _ => Native.runDkgInner_noPanic hlib hn0 (by simp), fun primeLines => ?_,
    Native.runDkgWithAux_noPanic hlib hn0, fun N _ => Native.genAuxInfo_noPanic hlib N⟩
  unfold Native.runDkgWithPrimes
  dsimp only
  split
  · exact (noPanic_throw_err _).bind fun _ h => by cases h
  · next hlt =>
      exact (noPanic_ok _).bind fun _ _ => (Native.decodePrimes_noPanic _).bind fun _ hps =>
        Native.runDkgInner_noPanic hlib hn0
          (by simpa [Nat.not_lt.1 hlt] using Native.decodePrimes_ok lib hps)

theorem native_dkg_no_panic_echo :
    (echoLib.AddressesOwnParties ∧ (2 : UInt16) ≤ 2) ∧
      (∀ generated : Nat → Unit, NoPanic (Native.runDkg echoLib 12 2 2 [] generated)) ∧
      (∀ primeLines, NoPanic (Native.runDkgWithPrimes echoLib 12 2 2 [] primeLines)) ∧
      (∀ auxInfoJson, NoPanic (Native.runDkgWithAux echoLib 12 2 2 [] auxInfoJson)) ∧
      ∀ N : UInt16, 2 ≤ N → ∀ eidAux (generated : Nat → Unit),
        NoPanic (Native.genAuxInfo echoLib 12 N eidAux generated) :=
  ⟨⟨echoLib_addressesOwnParties, by decide⟩,
    native_dkg_no_panic echoLib_addressesOwnParties (by decide)⟩

end Panics

end Dkg
end GuardianWallet
