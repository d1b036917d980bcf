import GuardianWallet.Dkg
import Mathlib.Data.List.Forall2

/-!
# What the DKG entry points return

**Shares.**  Whenever an entry point returns `Ok`, it returns one share per party, share
`i` made of the serializations of the `i`-th output of the keygen simulation and of the
`i`-th output of an `aux_info_gen` simulation, and the public key of party 0's key share.
For `run_dkg` and `run_dkg_with_primes` of both crates that aux simulation is over the same
`n` parties; `run_dkg_with_aux` takes the first `n` outputs of the cached `gen_aux_info(N)`
run, and accepts any `N ≥ n`, so its aux info can come from a ceremony of more parties
than the key shares (`dkg_shares_pair`, `dkg_with_aux_wider_cache`).
-/

namespace GuardianWallet
namespace Dkg

open RoundBased Simulate

/-- A loop `for i in 0..n` that returned `Ok(bs)` returned, at each `i`, the value of its
body at `i`. -/
theorem range_map_eq_map_ok {ε β : Type} {f : Nat → Except ε β} {n : Nat} {bs : List β}
    (h : (List.range n).map f = bs.map .ok) :
    bs.length = n ∧ ∀ i (hi : i < bs.length), f i = .ok bs[i] := by
  have hlen : bs.length = n := by simpa using (congrArg List.length h).symm
  refine ⟨hlen, fun i hi => ?_⟩
  have := congrArg (·[i]?) h
  simpa [List.getElem?_range (hlen ▸ hi), List.getElem?_eq_getElem hi] using this

/-- `simulate::run` returns one value per party. -/
theorem runVec_eq_ok_length {σ Msg Out : Type} [Inhabited σ] {sm : StateMachine σ Msg Out}
    {parties : List σ} {fuel : Nat} {outs : List Out} (h : runVec sm parties fuel = .ok outs) :
    outs.length = parties.length :=
  (run_eq_ok_local h).1

section Spec

variable {Primes Aux Core σA σK MA MK : Type} [Inhabited σA] [Inhabited σK]
  (lib : DkgLib Primes Aux Core σA σK MA MK)

/-- `auxs` are the outputs, in party order, of a finished simulation of `aux_info_gen` over
`n` parties, party `j` being `aux_info_gen(eid, j, n, primes)` for some primes. -/
def AuxCeremony (fuel : Nat) (eidBytes : List UInt8) (n : UInt16) (auxs : List Aux) : Prop :=
  ∃ parties : List σA, parties.length = n.toNat ∧
    (∀ j < n.toNat, ∃ primes, parties[j]? = some (lib.auxInfoGen eidBytes j.toUInt16 n primes)) ∧
    runVec lib.auxMachine parties fuel = .ok (auxs.map .ok)

/-- `cores` are the outputs, in party order, of the finished keygen simulation of `n`
parties with `threshold`. -/
def KeygenCeremony (fuel : Nat) (eidBytes : List UInt8) (n threshold : UInt16)
    (cores : List Core) : Prop :=
  runVec lib.keygenMachine (keygenParties lib eidBytes n threshold) fuel = .ok (cores.map .ok)

/-- A share of `lib.rs`: the serializations of a key share and of an aux info. -/
def Wasm.ShareOf (ca : Core × Aux) (share : Wasm.DkgShare) : Prop :=
  lib.coreToJson ca.1 = .ok share.coreShare ∧ lib.auxToJson ca.2 = .ok share.auxInfo

/-- A share of `native-gen`: the base64 of the serializations of a key share and of an aux
info. -/
def Native.ShareOf (ca : Core × Aux) (share : Native.DkgShare) : Prop :=
  (lib.coreToJson ca.1).map lib.b64Encode = .ok share.coreShare ∧
    (lib.auxToJson ca.2).map lib.b64Encode = .ok share.auxInfo

/-- What a DKG of `n` parties dealt, given the aux outputs `auxs` it pairs the key shares
with: one share per party, share `i` relating the `i`-th output of the keygen simulation and
`auxs[i]` as `R` says, and the public key `pk` from party 0's key share. -/
def Dealt {Share PK : Type} (R : Core × Aux → Share → Prop) (pkOf : Core → PK) (fuel : Nat)
    (eidBytes : List UInt8) (n threshold : UInt16) (auxs : List Aux) (shares : List Share)
    (pk : PK) : Prop :=
  ∃ cores, KeygenCeremony lib fuel eidBytes n threshold cores ∧ shares.length = n.toNat ∧
    List.Forall₂ R (cores.zip auxs) shares ∧ cores.head?.map pkOf = some pk

omit [Inhabited σA] in
theorem KeygenCeremony.length {fuel : Nat} {eidBytes : List UInt8} {n threshold : UInt16}
    {cores : List Core} (h : KeygenCeremony lib fuel eidBytes n threshold cores) :
    cores.length = n.toNat := by
  simpa [keygenParties] using runVec_eq_ok_length h

end Spec

section Serialize

variable {Primes Aux Core σA σK MA MK : Type} (lib : DkgLib Primes Aux Core σA σK MA MK)

/-- The serialization loop over `n` key shares and `n` aux infos that returned `Ok(pairs)`
serialized, at each `i`, the `i`-th key share and aux info. -/
theorem serializeShares_ok {n : UInt16} {cores : List Core} {auxs : List Aux}
    {pairs : List (List UInt8 × List UInt8)} (hc : cores.length = n.toNat)
    (ha : auxs.length = n.toNat) (h : serializeShares lib n cores auxs = .ok pairs) :
    List.Forall₂ (fun ca p => lib.coreToJson ca.1 = .ok p.1 ∧ lib.auxToJson ca.2 = .ok p.2)
      (cores.zip auxs) pairs := by
  obtain ⟨hlen, hat⟩ := range_map_eq_map_ok (collectResults_eq_ok_iff.1 h)
  refine List.forall₂_iff_get.2 ⟨by simp [hc, ha, hlen], fun i h1 h2 => ?_⟩
  have hi : i < n.toNat := hlen ▸ h2
  have := hat i h2
  simp only [index_of_lt (hc ▸ hi), index_of_lt (ha ▸ hi), bind_eq_ok, mapError_eq_ok] at this
  obtain ⟨_, ⟨rfl⟩, cb, hcb, _, ⟨rfl⟩, ab, hab, hp⟩ := this
  simp only [List.get_eq_getElem, List.getElem_zip, ← (Except.ok.inj hp)]
  exact ⟨hcb, hab⟩

end Serialize

section Entry

variable {Primes Aux Core σA σK MA MK : Type} [Inhabited σA] [Inhabited σK]
  (lib : DkgLib Primes Aux Core σA σK MA MK) {fuel : Nat} {eidBytes : List UInt8}
  {n threshold : UInt16}

/-- The two phases and the serialization loop, as every entry point but `run_dkg_with_aux`
runs them, over `n` parties of Phase A. -/
theorem phases_ok {errA errK : Nat → String → String} {auxParties : List σA} {auxs : List Aux}
    {cores : List Core} {core0 : Core} {pairs : List (List UInt8 × List UInt8)}
    (hlen : auxParties.length = n.toNat) (haux : auxPhase lib errA fuel auxParties = .ok auxs)
    (hkg : keygenPhase lib errK fuel eidBytes n threshold = .ok cores)
    (h0 : index cores 0 = .ok core0) (hser : serializeShares lib n cores auxs = .ok pairs) :
    runVec lib.auxMachine auxParties fuel = .ok (auxs.map .ok) ∧
      KeygenCeremony lib fuel eidBytes n threshold cores ∧ pairs.length = n.toNat ∧
      List.Forall₂ (fun ca p => lib.coreToJson ca.1 = .ok p.1 ∧ lib.auxToJson ca.2 = .ok p.2)
        (cores.zip auxs) pairs ∧ cores.head? = some core0 := by
  have haux := (auxPhase_eq_ok lib).1 haux
  have hkg : KeygenCeremony lib fuel eidBytes n threshold cores := (keygenPhase_eq_ok lib).1 hkg
  have ha : auxs.length = n.toNat := by simpa [hlen] using runVec_eq_ok_length haux
  have hshares := serializeShares_ok lib hkg.length ha hser
  refine ⟨haux, hkg, ?_, hshares, ?_⟩
  · simpa [hkg.length, ha] using hshares.length_eq.symm
  · simp [List.head?_eq_getElem?, index_eq_ok.1 h0]

/-- What `run_dkg` and `run_dkg_with_primes` of `lib.rs` return once the `n` parties of
Phase A are built: the outputs of the simulation over them, dealt with the keygen
outputs. -/
theorem Wasm.dkgPhases_ok {auxParties : List σA} {res : Wasm.DkgResult}
    (hlen : auxParties.length = n.toNat)
    (h : Wasm.dkgPhases lib fuel eidBytes n threshold auxParties = .ok res) :
    ∃ auxs, runVec lib.auxMachine auxParties fuel = .ok (auxs.map .ok) ∧
      Dealt lib (Wasm.ShareOf lib) lib.sharedPublicKey fuel eidBytes n threshold auxs
        res.shares res.publicKey := by
  simp only [Wasm.dkgPhases, bind_eq_ok] at h
  obtain ⟨auxs, haux, cores, hkg, core0, h0, pairs, hser, hres⟩ := h
  obtain ⟨haux, hkg, hlen, hshares, h0⟩ := phases_ok lib hlen haux hkg h0 hser
  obtain rfl := (Except.ok.inj hres).symm
  exact ⟨auxs, haux, cores, hkg, by simpa using hlen,
    List.forall₂_map_right_iff.2 (hshares.imp fun _ _ h => h), by simp [h0]⟩

/-- **`run_dkg` of `lib.rs`.** -/
theorem Wasm.runDkg_ok {generated : Nat → Primes} {res : Wasm.DkgResult}
    (h : Wasm.runDkg lib fuel eidBytes n threshold generated = .ok res) :
    ∃ auxs, AuxCeremony lib fuel eidBytes n auxs ∧
      Dealt lib (Wasm.ShareOf lib) lib.sharedPublicKey fuel eidBytes n threshold auxs
        res.shares res.publicKey := by
  obtain ⟨_, -, h⟩ := bind_eq_ok.1 h
  obtain ⟨auxs, haux, hdealt⟩ := Wasm.dkgPhases_ok lib (by simp) h
  exact ⟨auxs, ⟨_, by simp, fun j hj => ⟨generated j, by simp [hj]⟩, haux⟩, hdealt⟩

omit [Inhabited σA] [Inhabited σK] in
/-- The primes loop of `run_dkg_with_primes` that returned `Ok` built `n` parties, party `j`
being `aux_info_gen(eid, j, n, primes)`. -/
theorem Wasm.primesParties_ok {primesBytes : List (List UInt8)} {auxParties : List σA}
    (h : Wasm.primesParties lib eidBytes n primesBytes = .ok auxParties) :
    auxParties.length = n.toNat ∧
      ∀ j < n.toNat, ∃ primes, auxParties[j]? = some (lib.auxInfoGen eidBytes j.toUInt16 n primes) := by
  obtain ⟨hlen, hat⟩ := range_map_eq_map_ok (collectResults_eq_ok_iff.1 h)
  refine ⟨hlen, fun j hj => ?_⟩
  have hj' : j < auxParties.length := hlen ▸ hj
  have := hat j hj'
  simp only [bind_eq_ok, mapError_eq_ok] at this
  obtain ⟨_, -, primes, -, hp⟩ := this
  exact ⟨primes, by rw [List.getElem?_eq_getElem hj', ← Except.ok.inj hp]⟩

/-- **`run_dkg_with_primes` of `lib.rs`.** -/
theorem Wasm.runDkgWithPrimes_ok {primesBytes : List (List UInt8)} {res : Wasm.DkgResult}
    (h : Wasm.runDkgWithPrimes lib fuel eidBytes n threshold primesBytes = .ok res) :
    ∃ auxs, AuxCeremony lib fuel eidBytes n auxs ∧
      Dealt lib (Wasm.ShareOf lib) lib.sharedPublicKey fuel eidBytes n threshold auxs
        res.shares res.publicKey := by
  obtain ⟨_, -, h⟩ := bind_eq_ok.1 h
  dsimp only at h
  split_ifs at h
  · cases h
  obtain ⟨_, -, h⟩ := bind_eq_ok.1 h
  obtain ⟨auxParties, hparties, h⟩ := bind_eq_ok.1 h
  obtain ⟨hlen, hparty⟩ := Wasm.primesParties_ok lib hparties
  obtain ⟨auxs, haux, hdealt⟩ := Wasm.dkgPhases_ok lib hlen h
  exact ⟨auxs, ⟨auxParties, hlen, hparty, haux⟩, hdealt⟩

/-- The `Ok` rows of a `collect` whose rows are `Err` or a value related to `b`. -/
theorem exists_map_ok_of_forall₂ {ε α β : Type} {P : α → β → Prop} :
    ∀ {rs : List (Except ε α)} {bs : List β},
      List.Forall₂ (fun r b => ∃ a, r = .ok a ∧ P a b) rs bs →
        ∃ as, rs = as.map .ok ∧ List.Forall₂ P as bs
  | _, _, .nil => ⟨[], rfl, .nil⟩
  | _, _, .cons ⟨a, rfl, hab⟩ h =>
      let ⟨as, hrs, has⟩ := exists_map_ok_of_forall₂ h
      ⟨a :: as, by rw [hrs]; rfl, .cons hab has⟩

omit [Inhabited σA] [Inhabited σK] in
/-- The parties `run_dkg_inner` builds from `n` sets of primes: party `j` is
`aux_info_gen(eid, j, n, primes_list[j])`. -/
theorem Native.auxParties_ceremony {primesList : List Primes} (hlen : primesList.length = n.toNat) :
    ∀ j < n.toNat, ∃ primes, (Native.auxParties lib eidBytes n primesList)[j]? =
      some (lib.auxInfoGen eidBytes j.toUInt16 n primes) := fun j hj => by
  have hj' : j < primesList.length := hlen ▸ hj
  exact ⟨primesList[j], by simp [List.getElem?_eq_getElem hj']⟩

omit [Inhabited σA] [Inhabited σK] in
/-- The primes loop of `run_dkg_with_primes` that returned `Ok` decoded one set per line it
read. -/
theorem Native.decodePrimes_ok {primeLines : List String} {primesList : List Primes}
    (h : Native.decodePrimes lib n primeLines = .ok primesList) :
    primesList.length = (primeLines.take n.toNat).length := by
  have hrows : List.Forall₂ (fun _ _ => True) (primeLines.take n.toNat) primesList :=
    forall₂_of_collectResults_enumFrom (fun _ _ _ _ => trivial) h
  exact hrows.length_eq.symm

/-- `run_dkg_inner` of `native-gen`: Phase A over `primes_list`, dealt with the keygen
outputs. -/
theorem Native.runDkgInner_ok {primesList : List Primes} {res : Native.DkgOutput}
    (hlen : primesList.length = n.toNat)
    (h : Native.runDkgInner lib fuel n threshold eidBytes primesList = .ok res) :
    ∃ auxs, AuxCeremony lib fuel eidBytes n auxs ∧
      Dealt lib (Native.ShareOf lib) (lib.hexEncode ∘ lib.sharedPublicKey) fuel eidBytes n
        threshold auxs res.shares res.publicKey := by
  simp only [Native.runDkgInner, bind_eq_ok] at h
  obtain ⟨auxs, haux, cores, hkg, core0, h0, pairs, hser, hres⟩ := h
  obtain ⟨haux, hkg, hpairs, hshares, h0⟩ :=
    phases_ok lib (by simpa using hlen) haux hkg h0 hser
  obtain rfl := (Except.ok.inj hres).symm
  exact ⟨auxs, ⟨_, by simpa using hlen, Native.auxParties_ceremony lib hlen, haux⟩, cores, hkg,
    by simpa using hpairs,
    List.forall₂_map_right_iff.2 (hshares.imp fun _ _ h => by
      simp [Native.ShareOf, h.1, h.2, Except.map]), by simp [h0]⟩

/-- **`run_dkg` of `native-gen`.** -/
theorem Native.runDkg_ok {generated : Nat → Primes} {res : Native.DkgOutput}
    (h : Native.runDkg lib fuel n threshold eidBytes generated = .ok res) :
    ∃ auxs, AuxCeremony lib fuel eidBytes n auxs ∧
      Dealt lib (Native.ShareOf lib) (lib.hexEncode ∘ lib.sharedPublicKey) fuel eidBytes n
        threshold auxs res.shares res.publicKey :=
  Native.runDkgInner_ok lib (by simp) h

/-- **`run_dkg_with_primes` of `native-gen`.** -/
theorem Native.runDkgWithPrimes_ok {primeLines : List String} {res : Native.DkgOutput}
    (h : Native.runDkgWithPrimes lib fuel n threshold eidBytes primeLines = .ok res) :
    ∃ auxs, AuxCeremony lib fuel eidBytes n auxs ∧
      Dealt lib (Native.ShareOf lib) (lib.hexEncode ∘ lib.sharedPublicKey) fuel eidBytes n
        threshold auxs res.shares res.publicKey := by
  unfold Native.runDkgWithPrimes at h
  dsimp only at h
  split_ifs at h with hlt
  · cases h
  obtain ⟨_, -, h⟩ := bind_eq_ok.1 h
  obtain ⟨primesList, hps, h⟩ := bind_eq_ok.1 h
  exact Native.runDkgInner_ok lib (by simpa [Nat.not_lt.1 hlt] using Native.decodePrimes_ok lib hps) h

omit [Inhabited σK] in
/-- **`gen_aux_info`**: the cache holds, in party order, the base64 of the serialized
outputs of an `aux_info_gen` ceremony of `N` parties. -/
theorem Native.genAuxInfo_ok {N : UInt16} {eidAux : List UInt8} {generated : Nat → Primes}
    {cache : AuxInfoOutput} (h : Native.genAuxInfo lib fuel N eidAux generated = .ok cache) :
    cache.n = N ∧ ∃ auxs, AuxCeremony lib fuel eidAux N auxs ∧
      List.Forall₂ (fun aux s => (lib.auxToJson aux).map lib.b64Encode = .ok s) auxs
        cache.auxInfos := by
  simp only [Native.genAuxInfo, bind_eq_ok, mapError_eq_ok] at h
  obtain ⟨results, hrun, b64s, hb64, hres⟩ := h
  obtain rfl := (Except.ok.inj hres).symm
  have hrows : List.Forall₂ (fun r s => ∃ aux, r = .ok aux ∧
      (lib.auxToJson aux).map lib.b64Encode = .ok s) results b64s :=
    forall₂_of_collectResults_enumFrom (fun _ r s hs => by
      simp only [bind_eq_ok, mapError_eq_ok] at hs
      obtain ⟨aux, rfl, bytes, hb, hs⟩ := hs
      exact ⟨aux, rfl, by simp [hb, Except.map, ← Except.ok.inj hs]⟩) hb64
  obtain ⟨auxs, rfl, hauxs⟩ := exists_map_ok_of_forall₂ hrows
  exact ⟨rfl, auxs, ⟨_, by simp, fun j hj => ⟨generated j, by
    rw [Native.auxParties_getElem?]; simp [hj]⟩, hrun⟩, hauxs⟩

omit [Inhabited σA] in
/-- **`run_dkg_with_aux`**: the cache had at least `n` parties, and share `i` holds the
base64 of the `i`-th key share next to the `i`-th cached string, as it was read. -/
theorem Native.runDkgWithAux_ok {auxInfoJson : String} {cache : AuxInfoOutput}
    {res : Native.DkgOutput} (hparse : lib.parseAuxInfoOutput auxInfoJson = .ok cache)
    (h : Native.runDkgWithAux lib fuel n threshold eidBytes auxInfoJson = .ok res) :
    n.toNat ≤ cache.n.toNat ∧ ∃ cores, KeygenCeremony lib fuel eidBytes n threshold cores ∧
      res.shares.length = n.toNat ∧
      List.Forall₂ (fun (cs : Core × String) share =>
          (lib.coreToJson cs.1).map lib.b64Encode = .ok share.coreShare ∧ share.auxInfo = cs.2)
        (cores.zip cache.auxInfos) res.shares ∧
      cores.head?.map (lib.hexEncode ∘ lib.sharedPublicKey) = some res.publicKey := by
  unfold Native.runDkgWithAux at h
  obtain ⟨_, hao, h⟩ := bind_eq_ok.1 h
  rw [mapError_eq_ok, hparse] at hao
  obtain rfl := Except.ok.inj hao
  dsimp only at h
  split_ifs at h with hchk
  · cases h
  simp only [Bool.or_eq_true, decide_eq_true_eq, not_or, Nat.not_lt] at hchk
  obtain ⟨_, -, h⟩ := bind_eq_ok.1 h
  obtain ⟨_, -, h⟩ := bind_eq_ok.1 h
  obtain ⟨cores, hkg, h⟩ := bind_eq_ok.1 h
  obtain ⟨core0, h0, h⟩ := bind_eq_ok.1 h
  obtain ⟨shares, hsh, hres⟩ := bind_eq_ok.1 h
  obtain rfl := (Except.ok.inj hres).symm
  have hkg : KeygenCeremony lib fuel eidBytes n threshold cores := (keygenPhase_eq_ok lib).1 hkg
  obtain ⟨hlen, hat⟩ := range_map_eq_map_ok (collectResults_eq_ok_iff.1 hsh)
  refine ⟨hchk.1, cores, hkg, hlen, List.forall₂_iff_get.2 ⟨?_, fun i h1 h2 => ?_⟩,
    by simp [List.head?_eq_getElem?, index_eq_ok.1 h0]⟩
  · simp [hkg.length, hlen, hchk.2]
  · have hi : i < n.toNat := hlen ▸ h2
    have := hat i h2
    simp only [index_of_lt (hkg.length ▸ hi), index_of_lt (Nat.lt_of_lt_of_le hi hchk.2),
      bind_eq_ok, mapError_eq_ok] at this
    obtain ⟨_, ⟨rfl⟩, cb, hcb, _, ⟨rfl⟩, hp⟩ := this
    simp only [List.get_eq_getElem, List.getElem_zip, ← Except.ok.inj hp]
    exact ⟨by simp [hcb, Except.map], trivial⟩

omit [Inhabited σA] [Inhabited σK] in
/-- Cached strings that are the base64 of serialized aux infos make shares of those aux
infos. -/
theorem Native.shareOf_of_cached {cores : List Core} {auxs : List Aux} {strs : List String}
    {shares : List Native.DkgShare}
    (haux : List.Forall₂ (fun aux s => (lib.auxToJson aux).map lib.b64Encode = .ok s) auxs strs)
    (hsh : List.Forall₂ (fun (cs : Core × String) share =>
        (lib.coreToJson cs.1).map lib.b64Encode = .ok share.coreShare ∧ share.auxInfo = cs.2)
      (cores.zip strs) shares) :
    List.Forall₂ (Native.ShareOf lib) (cores.zip auxs) shares := by
  induction haux generalizing cores shares with
  | nil => simpa using hsh
  | cons hs _ ih =>
      cases cores with
      | nil => simpa using hsh
      | cons c cores =>
          cases hsh with
          | cons h1 h2 => exact .cons ⟨h1.1, by rw [h1.2]; exact hs⟩ (ih h2)

end Entry

section Deals

variable {Primes Aux Core σA σK MA MK : Type} [Inhabited σA] [Inhabited σK]
  (lib : DkgLib Primes Aux Core σA σK MA MK)

/-- What every DKG entry point that returned `Ok` dealt.  `run_dkg` and
`run_dkg_with_primes` of both crates pair the key shares with an `aux_info_gen` ceremony of
the same `n` parties; `run_dkg_with_aux`, fed the line of a `gen_aux_info(N)` run, with that
ceremony of `N ≥ n` parties, whose first `n` outputs it uses. -/
structure DkgDeals (fuel : Nat) : Prop where
  wasmRunDkg : ∀ eidBytes n threshold generated res,
    Wasm.runDkg lib fuel eidBytes n threshold generated = .ok res →
      ∃ auxs, AuxCeremony lib fuel eidBytes n auxs ∧
        Dealt lib (Wasm.ShareOf lib) lib.sharedPublicKey fuel eidBytes n threshold auxs
          res.shares res.publicKey
  wasmRunDkgWithPrimes : ∀ eidBytes n threshold primesBytes res,
    Wasm.runDkgWithPrimes lib fuel eidBytes n threshold primesBytes = .ok res →
      ∃ auxs, AuxCeremony lib fuel eidBytes n auxs ∧
        Dealt lib (Wasm.ShareOf lib) lib.sharedPublicKey fuel eidBytes n threshold auxs
          res.shares res.publicKey
  nativeRunDkg : ∀ n threshold eidBytes generated res,
    Native.runDkg lib fuel n threshold eidBytes generated = .ok res →
      ∃ auxs, AuxCeremony lib fuel eidBytes n auxs ∧
        Dealt lib (Native.ShareOf lib) (lib.hexEncode ∘ lib.sharedPublicKey) fuel eidBytes n
          threshold auxs res.shares res.publicKey
  nativeRunDkgWithPrimes : ∀ n threshold eidBytes primeLines res,
    Native.runDkgWithPrimes lib fuel n threshold eidBytes primeLines = .ok res →
      ∃ auxs, AuxCeremony lib fuel eidBytes n auxs ∧
        Dealt lib (Native.ShareOf lib) (lib.hexEncode ∘ lib.sharedPublicKey) fuel eidBytes n
          threshold auxs res.shares res.publicKey
  nativeRunDkgWithAux : ∀ fuelAux N eidAux generated cache auxInfoJson n threshold eidBytes res,
    Native.genAuxInfo lib fuelAux N eidAux generated = .ok cache →
    lib.parseAuxInfoOutput auxInfoJson = .ok cache →
    Native.runDkgWithAux lib fuel n threshold eidBytes auxInfoJson = .ok res →
      n.toNat ≤ N.toNat ∧ ∃ auxs, AuxCeremony lib fuelAux eidAux N auxs ∧
        Dealt lib (Native.ShareOf lib) (lib.hexEncode ∘ lib.sharedPublicKey) fuel eidBytes n
          threshold auxs res.shares res.publicKey

/-- **Every DKG entry point that returns `Ok` deals one share per party from the two
ceremonies, and the public key of party 0's key share.** -/
theorem dkg_shares_pair (fuel : Nat) : DkgDeals lib fuel where
  wasmRunDkg _ _ _ _ _ h := Wasm.runDkg_ok lib h
  wasmRunDkgWithPrimes _ _ _ _ _ h := Wasm.runDkgWithPrimes_ok lib h
  nativeRunDkg _ _ _ _ _ h := Native.runDkg_ok lib h
  nativeRunDkgWithPrimes _ _ _ _ _ h := Native.runDkgWithPrimes_ok lib h
  nativeRunDkgWithAux _ _ _ _ _ _ _ _ _ _ hgen hparse h := by
    obtain ⟨rfl, auxs, hcer, hauxs⟩ := Native.genAuxInfo_ok lib hgen
    obtain ⟨hn, cores, hkg, hlen, hsh, hpk⟩ := Native.runDkgWithAux_ok lib hparse h
    exact ⟨hn, auxs, hcer, cores, hkg, hlen, Native.shareOf_of_cached lib hauxs hsh, hpk⟩

end Deals

section Echo

/-- A party that outputs its own state at once and ignores every message. -/
def echo {σ Msg : Type} : StateMachine σ Msg (Except String σ) where
  proceed st := (.output (.ok st), st)
  receivedMsg st _ := (.ok (), st)

theorem echo_partyReach {σ Msg : Type} {p st : σ}
    (h : PartyReach (echo : StateMachine σ Msg (Except String σ)) p st) : st = p := by
  induction h with
  | start => rfl
  | proceed _ ih => exact ih
  | receivedMsg _ _ ih => exact ih

/-- A library whose aux party is its own `(i, n)` and outputs it at once, whose key share is
its party index, and whose serializations write those numbers as bytes; its cache parser
returns the line `gen_aux_info(3)` writes. -/
def echoLib : DkgLib Unit (UInt16 × UInt16) UInt16 (UInt16 × UInt16) UInt16 Unit Unit where
  auxMachine := echo
  auxInfoGen _ i n _ := (i, n)
  keygenMachine := echo
  keygen _ i _ _ := i
  primesFromJson _ := .ok ()
  coreToJson c := .ok [c.toUInt8]
  auxToJson a := .ok [a.1.toUInt8, a.2.toUInt8]
  auxFromJson _ := .ok (0, 0)
  sharedPublicKey _ := []
  parseAuxInfoOutput _ := .ok ⟨["AD", "BD", "CD"], 3⟩
  b64Encode bs := String.mk (bs.map fun b => Char.ofNat (b.toNat + 65))
  b64Decode _ := .ok []
  hexEncode _ := ""

/-- Output `j` of every `aux_info_gen` ceremony of `N` `echoLib` parties is `(j, N)`. -/
theorem echoLib_auxCeremony {fuel : Nat} {eidAux : List UInt8} {N : UInt16}
    {auxs : List (UInt16 × UInt16)} (h : AuxCeremony echoLib fuel eidAux N auxs) :
    ∀ j < N.toNat, auxs[j]? = some (j.toUInt16, N) := by
  obtain ⟨parties, hlen, hparty, hrun⟩ := h
  obtain ⟨hout, hloc⟩ := run_eq_ok_local hrun
  intro j hj
  obtain ⟨_, hp⟩ := hparty j hj
  have hj' : j < auxs.length := by simp only [List.length_map] at hout; omega
  obtain ⟨st, hst, hps⟩ := hloc j (.ok auxs[j]) (by simp [List.getElem?_eq_getElem hj'])
  obtain rfl := echo_partyReach hst
  simp [List.getD_eq_getElem?_getD, hp, echoLib, echo, List.getElem?_eq_getElem hj'] at hps ⊢
  exact hps.symm

/-- **`run_dkg_with_aux` deals aux info from a ceremony of more parties**: fed the line of
`gen_aux_info(3)`, a DKG of 2 parties returns `Ok`, and its aux infos are the
serializations of no `aux_info_gen` ceremony of 2 parties. -/
theorem dkg_with_aux_wider_cache :
    Native.genAuxInfo echoLib 12 3 [] (fun _ => ()) = .ok ⟨["AD", "BD", "CD"], 3⟩ ∧
    echoLib.parseAuxInfoOutput "" = .ok ⟨["AD", "BD", "CD"], 3⟩ ∧
    Native.runDkgWithAux echoLib 12 2 2 [] "" = .ok ⟨[⟨"A", "AD"⟩, ⟨"B", "BD"⟩], ""⟩ ∧
    ∀ fuel eidAux auxs, AuxCeremony echoLib fuel eidAux 2 auxs →
      ¬ List.Forall₂ (fun aux s => (echoLib.auxToJson aux).map echoLib.b64Encode = .ok s) auxs
        ["AD", "BD"] := by
  refine ⟨rfl, rfl, rfl, fun fuel eidAux auxs hcer hf => ?_⟩
  have h0 := echoLib_auxCeremony hcer 0 (by decide)
  cases hf with
  | cons h _ =>
      obtain rfl := Option.some.inj (List.getElem?_cons_zero.symm.trans h0)
      have hser : (echoLib.auxToJson (0, 2)).map echoLib.b64Encode = .ok "AC" := rfl
      exact absurd (Except.ok.inj (hser.symm.trans h)) (by decide)

end Echo

end Dkg
end GuardianWallet
