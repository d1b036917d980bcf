import GuardianWallet.DkgProperties

/-!
# `native-gen` refines the DKG of `lib.rs`

`run_dkg` and `run_dkg_with_primes` of `native-gen` run the same two phases
(`aux_info_gen` over the primes, then `keygen`) and the same serialization loop as `run_dkg`
and `run_dkg_with_primes` of `lib.rs`.  They differ around the phases: the native entry
points do not check `n` and the threshold, word a party's error differently, read the
primes as lines of base64, and print the shares in base64 and the public key in hex where
WASM returns bytes.

This module proves that these are all the differences.  On parameters WASM accepts, the two
return `Ok` together, `Err` together, panic together with the same message and run out of
fuel together, and the native output is the WASM result with its bytes encoded
(`Wasm.DkgResult.toNative`): `native_dkg_refines` for `run_dkg`, and
`native_dkg_with_primes_refines` for `run_dkg_with_primes` when each native line is the
base64 of the WASM input's serialized primes.

**Proof.**  Results are compared with the text of each `Err` dropped (`unworded`); a panic
and its message, and running out of fuel, are kept.  Seen so, a phase does not depend on how
it words a party's error (`partyResults_unworded`), so `run_dkg_inner` is the WASM phases over
the parties it builds, encoded (`Native.runDkgInner_unworded`).  The two primes loops, one
over the indices `0..n` and one over the enumerated lines, agree row by row
(`unworded_collectResults_range'`).
-/

namespace GuardianWallet
namespace Dkg

section Faults

variable {α β γ : Type}

/-- A fault with the text of an `Err` dropped; a panic, with its message, and running out of
fuel stay as they are. -/
def Fault.forgetErr : Fault → Fault
  | .err _ => .err ""
  | f => f

/-- A result with the text of its `Err` dropped. -/
def unworded (x : Except Fault α) : Except Fault α := x.mapError Fault.forgetErr

@[simp] theorem unworded_ok (a : α) : unworded (.ok a : Except Fault α) = .ok a := rfl

@[simp] theorem unworded_pure (a : α) : unworded (pure a : Except Fault α) = pure a := rfl

@[simp] theorem unworded_bind (x : Except Fault α) (f : α → Except Fault β) :
    unworded (x >>= f) = unworded x >>= fun a => unworded (f a) := by
  cases x <;> rfl

@[simp] theorem unworded_map (x : Except Fault α) (f : α → β) :
    unworded (x.map f) = (unworded x).map f := by
  cases x <;> rfl

/-- Rewording an `Err` changes nothing once its text is dropped. -/
@[simp] theorem unworded_mapErr (x : Except Fault α) (g : String → String) :
    unworded (x.mapError (Fault.mapErr g)) = unworded x := by
  rcases x with (_ | _ | _) | _ <;> rfl

/-- An error of a library call reported as an `Err`, whatever its text. -/
@[simp] theorem unworded_mapError_err (x : Except String α) (msg : String → String) :
    unworded (x.mapError fun e => .err (msg e)) = x.mapError fun _ => .err "" := by
  cases x <;> rfl

@[simp] theorem unworded_index (v : List α) (i : Nat) : unworded (index v i) = index v i := by
  unfold index
  split <;> rfl

theorem unworded_collectResults : ∀ rs : List (Except Fault α),
    unworded (collectResults rs) = collectResults (rs.map unworded)
  | [] => rfl
  | .error _ :: _ => rfl
  | .ok _ :: rs => by simp [collectResults, unworded_collectResults rs]

theorem map_bind (x : Except Fault α) (f : α → Except Fault β) (g : β → γ) :
    (x >>= f).map g = x >>= fun a => (f a).map g := by
  cases x <;> rfl

/-- A phase's results, with the texts of its `Err`s dropped, do not depend on how it words
a party's `Err`. -/
@[simp] theorem partyResults_unworded (msg : Nat → String → String)
    (results : List (Except String α)) :
    unworded (partyResults msg results) =
      collectResults (results.map fun r => r.mapError fun _ => .err "") := by
  have hrow : (unworded ∘ fun (p : Nat × Except String α) =>
      p.2.mapError fun e => Fault.err (msg p.1 e)) =
      (fun r => r.mapError fun _ => .err "") ∘ Prod.snd := by
    funext p; simp
  rw [partyResults, unworded_collectResults, List.map_map, hrow, ← List.map_map, List.enum_map_snd]

/-- Two loops, one over the indices `k, k + 1, ..` and one over the rows of `l` enumerated
from `k`: when each index row is, with its text of `Err` dropped, the list row with its
value under `g`, so are the two collections. -/
theorem unworded_collectResults_range' {F : Nat × γ → Except Fault α} {G : Nat → Except Fault β}
    {g : Nat × α → β} :
    ∀ (l : List γ) (k m : Nat), l.length = m →
      (∀ j (hj : j < l.length),
        unworded (G (k + j)) = (unworded (F (k + j, l[j]))).map fun a => g (k + j, a)) →
      unworded (collectResults ((List.range' k m).map G)) =
        (unworded (collectResults ((l.enumFrom k).map F))).map fun as => (as.enumFrom k).map g
  | [], _, _, hm, _ => by subst hm; rfl
  | c :: l, k, _, hm, h => by
      subst hm
      have ih := unworded_collectResults_range' l (k + 1) _ rfl fun j hj => by
        rw [Nat.add_right_comm]; exact h (j + 1) (Nat.succ_lt_succ hj)
      have h0 : unworded (G k) = (unworded (F (k, c))).map fun a => g (k, a) :=
        h 0 (Nat.succ_pos _)
      simp only [List.length_cons, List.range'_succ, List.enumFrom_cons, List.map_cons]
      cases hF : F (k, c) with
      | error e =>
          cases hG : G k with
          | error =>
              simp only [hF, hG, unworded, Except.mapError, Except.map, Except.error.injEq] at h0
              simp [collectResults, unworded, Except.mapError, Except.map, h0]
          | ok => simp [hF, hG, unworded, Except.mapError, Except.map] at h0
      | ok a =>
          have hG : G k = .ok (g (k, a)) := by
            cases hG : G k <;> simp [hF, hG, unworded, Except.mapError, Except.map] at h0 ⊢
            exact h0
          simp only [collectResults, hG, unworded_map, ih]
          cases unworded (collectResults ((l.enumFrom (k + 1)).map F)) <;> rfl

end Faults

section Entry

variable {Primes Aux Core σA σK MA MK : Type} [Inhabited σA] [Inhabited σK]
  (lib : DkgLib Primes Aux Core σA σK MA MK) {fuel : Nat} {eidBytes : List UInt8}
  {n threshold : UInt16}

omit [Inhabited σA] [Inhabited σK] in
/-- A WASM result as `native-gen` prints it: each share's bytes in base64, the public key in
hex. -/
def Wasm.DkgResult.toNative (res : Wasm.DkgResult) : Native.DkgOutput :=
  ⟨res.shares.map fun sh => ⟨lib.b64Encode sh.coreShare, lib.b64Encode sh.auxInfo⟩,
    lib.hexEncode res.publicKey⟩

/-- `run_dkg_inner` is the phases of `lib.rs` over the parties it builds, encoded. -/
theorem Native.runDkgInner_unworded (primesList : List Primes) :
    unworded (Native.runDkgInner lib fuel n threshold eidBytes primesList) =
      (unworded (Wasm.dkgPhases lib fuel eidBytes n threshold
        (Native.auxParties lib eidBytes n primesList))).map (Wasm.DkgResult.toNative lib) := by
  simp only [Native.runDkgInner, Wasm.dkgPhases, auxPhase, keygenPhase, unworded_bind,
    unworded_mapErr, partyResults_unworded, unworded_index, unworded_pure, map_bind]
  simp [Except.map, Wasm.DkgResult.toNative, pure, Except.pure, Function.comp_def]

omit [Inhabited σA] [Inhabited σK] in
/-- The parties `run_dkg` of `native-gen` builds from `n` generated sets of primes are those
`run_dkg` of `lib.rs` builds. -/
theorem Native.auxParties_range_map (generated : Nat → Primes) :
    Native.auxParties lib eidBytes n ((List.range n.toNat).map generated) =
      (List.range n.toNat).map fun i => lib.auxInfoGen eidBytes i.toUInt16 n (generated i) := by
  refine List.ext_getElem? fun j => ?_
  simp only [Native.auxParties_getElem?, List.getElem?_map, Option.map_map]
  by_cases hj : j < n.toNat
  · rw [List.getElem?_range hj]; rfl
  · rw [List.getElem?_eq_none (by simpa using hj)]; rfl

/-- **`run_dkg` of `native-gen` refines `run_dkg` of `lib.rs`.**  For every `n` and
threshold `lib.rs` accepts, the two return `Ok` together, `Err` together, panic together with
the same message and run out of fuel together, and the native output is the WASM result with
its shares in base64 and its key in hex. -/
theorem native_dkg_refines (hp : 2 ≤ n ∧ 2 ≤ threshold ∧ threshold ≤ n)
    (generated : Nat → Primes) :
    unworded (Native.runDkg lib fuel n threshold eidBytes generated) =
      unworded ((Wasm.runDkg lib fuel eidBytes n threshold generated).map
        (Wasm.DkgResult.toNative lib)) := by
  rw [Native.runDkg, Native.runDkgInner_unworded, Native.auxParties_range_map, Wasm.runDkg,
    Wasm.checkParams_eq_ok.2 hp, unworded_map]
  rfl

theorem native_dkg_refines_echo :
    ((2 : UInt16) ≤ 2 ∧ (2 : UInt16) ≤ 2 ∧ (2 : UInt16) ≤ 2) ∧
      unworded (Native.runDkg echoLib 12 2 2 [] fun _ => ()) =
        unworded ((Wasm.runDkg echoLib 12 [] 2 2 fun _ => ()).map
          (Wasm.DkgResult.toNative echoLib)) :=
  ⟨by decide, native_dkg_refines echoLib (by decide) _⟩

omit [Inhabited σA] [Inhabited σK] in
/-- The primes loops of the two `run_dkg_with_primes`: when each line is, after `trim`, the
base64 of the byte array at its index, the WASM loop builds the parties `run_dkg_inner`
builds from the primes the native loop decodes, and fails as the native loop fails. -/
theorem Native.decodePrimes_unworded {primeLines : List String}
    {primesBytes : List (List UInt8)}
    (hdec : List.Forall₂ (fun line bytes => lib.b64Decode line.trim = .ok bytes)
      primeLines primesBytes) (hn : n.toNat ≤ primeLines.length) :
    unworded (Wasm.primesParties lib eidBytes n primesBytes) =
      (unworded (Native.decodePrimes lib n primeLines)).map (Native.auxParties lib eidBytes n) := by
  rw [Wasm.primesParties, Native.decodePrimes, List.range_eq_range', List.enum_eq_enumFrom,
    show Native.auxParties lib eidBytes n = fun primesList => (primesList.enumFrom 0).map
      fun p => lib.auxInfoGen eidBytes p.1.toUInt16 n p.2 from rfl]
  refine unworded_collectResults_range' _ 0 _ (List.length_take_of_le hn) fun j hj => ?_
  have hjl : j < primeLines.length := (List.length_take_le' _ _).trans_lt' hj
  have hjb : j < primesBytes.length := hdec.length_eq ▸ hjl
  have hrow : lib.b64Decode primeLines[j].trim = .ok primesBytes[j] := hdec.get hjl hjb
  simp only [Nat.zero_add, List.getElem_take, index_of_lt hjb, hrow, unworded_bind,
    unworded_mapError_err, unworded_pure, unworded_ok]
  cases lib.primesFromJson primesBytes[j] <;> rfl

/-- **`run_dkg_with_primes` of `native-gen` refines the one of `lib.rs`.**  For every `n`
and threshold `lib.rs` accepts, when each line the native binary reads is, after `trim`,
the base64 of the serialized primes WASM is given at its index, the two return `Ok`
together, `Err` together, panic together with the same message and run out of fuel
together, and the native output is the WASM result encoded. -/
theorem native_dkg_with_primes_refines (hp : 2 ≤ n ∧ 2 ≤ threshold ∧ threshold ≤ n)
    {primeLines : List String} {primesBytes : List (List UInt8)}
    (hdec : List.Forall₂ (fun line bytes => lib.b64Decode line.trim = .ok bytes)
      primeLines primesBytes) :
    unworded (Native.runDkgWithPrimes lib fuel n threshold eidBytes primeLines) =
      unworded ((Wasm.runDkgWithPrimes lib fuel eidBytes n threshold primesBytes).map
        (Wasm.DkgResult.toNative lib)) := by
  rw [Native.runDkgWithPrimes, Wasm.runDkgWithPrimes, Wasm.checkParams_eq_ok.2 hp,
    ← hdec.length_eq, unworded_map]
  by_cases hlt : primeLines.length < n.toNat
  · simp only [if_pos hlt]; rfl
  · simp only [if_neg hlt, unworded_bind, Native.runDkgInner_unworded,
      Native.decodePrimes_unworded lib hdec (Nat.not_lt.1 hlt)]
    cases unworded (Native.decodePrimes lib n primeLines) <;> rfl

theorem native_dkg_with_primes_refines_echo :
    ((2 : UInt16) ≤ 2 ∧ (2 : UInt16) ≤ 2 ∧ (2 : UInt16) ≤ 2) ∧
      List.Forall₂ (fun line bytes => echoLib.b64Decode line.trim = .ok bytes) ["e30=", "e30="]
        [[], []] ∧
      unworded (Native.runDkgWithPrimes echoLib 12 2 2 [] ["e30=", "e30="]) =
        unworded ((Wasm.runDkgWithPrimes echoLib 12 [] 2 2 [[], []]).map
          (Wasm.DkgResult.toNative echoLib)) :=
  ⟨by decide, .cons rfl (.cons rfl .nil), native_dkg_with_primes_refines echoLib (by decide)
    (.cons rfl (.cons rfl .nil))⟩

end Entry

end Dkg
end GuardianWallet
