import GuardianWallet.Basic
import Mathlib.Tactic.FinCases

/-!
# `uuid_v4`: the id of a signing session

`create_session` names each session with `uuid_v4()`: sixteen bytes from `getrandom`, the
version stamp `bytes[6] = (bytes[6] & 0x0f) | 0x40` and the variant stamp
`bytes[8] = (bytes[8] & 0x3f) | 0x80`, and the bytes written as `{:02x}` in groups of 4, 2,
2, 2 and 6 joined by hyphens.

**Results.**  For all sixteen bytes, the text is a version-4 UUID of RFC 4122
(`IsUuidV4`), and two texts are equal exactly when their bytes agree on the 122 bits the
stamps keep (`uuid_v4_ids`): the text loses none of the randomness.  The text is decoded
back to the stamped bytes (`uuidBytes_uuidFormat`), and the stamps keep the low bits of the
bytes they overwrite (`versionStamp_toNat`, `variantStamp_toNat`).
-/

namespace GuardianWallet
namespace Sign

section Stamps

/-- `a | b` of two bytes, read as numbers. -/
theorem toNat_lor (a b : UInt8) : (a ||| b).toNat = a.toNat ||| b.toNat := BitVec.toNat_or ..

/-- The version stamp keeps the low four bits and sets the high nibble to `4`. -/
theorem versionStamp_toNat (x : UInt8) : ((x &&& 0x0f) ||| 0x40).toNat = x.toNat % 16 + 64 := by
  rw [toNat_lor, UInt8.and_toNat]
  have hor : ∀ a < 16, a ||| 64 = a + 64 := by decide
  have hand : x.toNat &&& 15 = x.toNat % 16 := Nat.and_pow_two_sub_one_eq_mod x.toNat 4
  exact (congrArg (· ||| 64) hand).trans (hor _ (Nat.mod_lt _ (by decide)))

/-- The variant stamp keeps the low six bits and sets the high two to `10`. -/
theorem variantStamp_toNat (x : UInt8) : ((x &&& 0x3f) ||| 0x80).toNat = x.toNat % 64 + 128 := by
  rw [toNat_lor, UInt8.and_toNat]
  have hor : ∀ a < 64, a ||| 128 = a + 128 := by decide
  have hand : x.toNat &&& 63 = x.toNat % 64 := Nat.and_pow_two_sub_one_eq_mod x.toNat 6
  exact (congrArg (· ||| 128) hand).trans (hor _ (Nat.mod_lt _ (by decide)))

/-- The `[u8; 16]` of `uuid_v4` after its two stamps. -/
def uuidStamp (bytes : Fin 16 → UInt8) : Fin 16 → UInt8 :=
  let bytes := Function.update bytes 6 ((bytes 6 &&& 0x0f) ||| 0x40)
  Function.update bytes 8 ((bytes 8 &&& 0x3f) ||| 0x80)

variable (b : Fin 16 → UInt8)

@[simp] theorem uuidStamp_six : (uuidStamp b 6).toNat = (b 6).toNat % 16 + 64 := by
  simp [uuidStamp, Function.update_noteq (show (6 : Fin 16) ≠ 8 by decide), versionStamp_toNat]

@[simp] theorem uuidStamp_eight : (uuidStamp b 8).toNat = (b 8).toNat % 64 + 128 := by
  simp [uuidStamp, Function.update_noteq (show (8 : Fin 16) ≠ 6 by decide), variantStamp_toNat]

theorem uuidStamp_of_ne {i : Fin 16} (h6 : i ≠ 6) (h8 : i ≠ 8) : uuidStamp b i = b i := by
  simp [uuidStamp, Function.update_noteq h6, Function.update_noteq h8]

/-- Two byte arrays get the same stamps exactly when they agree on the 122 bits the stamps
keep. -/
theorem uuidStamp_eq_iff {b b' : Fin 16 → UInt8} :
    uuidStamp b = uuidStamp b' ↔ (∀ i, i ≠ 6 → i ≠ 8 → b i = b' i) ∧
      (b 6).toNat % 16 = (b' 6).toNat % 16 ∧ (b 8).toNat % 64 = (b' 8).toNat % 64 := by
  constructor
  · intro h
    have h6 := congrArg UInt8.toNat (congrFun h 6)
    have h8 := congrArg UInt8.toNat (congrFun h 8)
    simp only [uuidStamp_six, uuidStamp_eight] at h6 h8
    refine ⟨fun i hi6 hi8 => ?_, by omega, by omega⟩
    simpa [uuidStamp_of_ne _ hi6 hi8] using congrFun h i
  · rintro ⟨hr, h6, h8⟩
    funext i
    by_cases hi6 : i = 6
    · subst hi6; exact UInt8.toNat.inj (by simp [h6])
    by_cases hi8 : i = 8
    · subst hi8; exact UInt8.toNat.inj (by simp [h8])
    rw [uuidStamp_of_ne _ hi6 hi8, uuidStamp_of_ne _ hi6 hi8, hr i hi6 hi8]

end Stamps

section Format

/-- `{:02x}` of a byte: two lowercase hex digits. -/
def hex02 (b : UInt8) : List Char := [Nat.digitChar (b.toNat / 16), Nat.digitChar (b.toNat % 16)]

/-- The `format!` of `uuid_v4`. -/
def uuidFormat (b : Fin 16 → UInt8) : String :=
  ⟨hex02 (b 0) ++ hex02 (b 1) ++ hex02 (b 2) ++ hex02 (b 3) ++ '-' ::
    (hex02 (b 4) ++ hex02 (b 5) ++ '-' ::
    (hex02 (b 6) ++ hex02 (b 7) ++ '-' ::
    (hex02 (b 8) ++ hex02 (b 9) ++ '-' ::
    (hex02 (b 10) ++ hex02 (b 11) ++ hex02 (b 12) ++ hex02 (b 13) ++ hex02 (b 14) ++
      hex02 (b 15)))))⟩

/-- `uuid_v4`, with `bytes` the sixteen bytes `getrandom` gives. -/
def uuidV4 (bytes : Fin 16 → UInt8) : String := uuidFormat (uuidStamp bytes)

example : uuidV4 (fun _ => 0xff) = "ffffffff-ffff-4fff-bfff-ffffffffffff" := rfl

/-- The lowercase hex digits, in order of value. -/
def hexDigits : List Char := "0123456789abcdef".data

/-- The value of a hex digit: its position among `hexDigits`. -/
def hexVal (c : Char) : Nat := hexDigits.indexOf c

/-- The canonical text of a version-4 UUID (RFC 4122): groups of 8, 4, 4, 4 and 12 lowercase
hex digits joined by hyphens, the third group starting with the version digit `4` and the
fourth with a variant digit `8`, `9`, `a` or `b`. -/
structure IsUuidV4 (s : String) : Prop where
  groups : ∃ g₁ g₂ g₃ g₄ g₅ : List Char,
    s.data = g₁ ++ '-' :: (g₂ ++ '-' :: (g₃ ++ '-' :: (g₄ ++ '-' :: g₅))) ∧
    [g₁.length, g₂.length, g₃.length, g₄.length, g₅.length] = [8, 4, 4, 4, 12] ∧
    ∀ g ∈ [g₁, g₂, g₃, g₄, g₅], ∀ c ∈ g, c ∈ hexDigits
  version : s.data[14]? = some '4'
  variant : ∃ c ∈ ['8', '9', 'a', 'b'], s.data[19]? = some c

/-- Where `uuid_v4` writes the first digit of byte `i`. -/
def uuidPos (i : Fin 16) : Nat := [0, 2, 4, 6, 9, 11, 14, 16, 19, 21, 24, 26, 28, 30, 32, 34].getD i 0

/-- The bytes a UUID text names, each read from its two digits. -/
def uuidBytes (s : String) (i : Fin 16) : UInt8 :=
  (hexVal (s.data.getD (uuidPos i) '0') * 16 + hexVal (s.data.getD (uuidPos i + 1) '0')).toUInt8

theorem digitChar_mem : ∀ d < 16, Nat.digitChar d ∈ hexDigits := by decide

theorem hexVal_digitChar : ∀ d < 16, hexVal (Nat.digitChar d) = d := by decide

theorem hex02_mem {x : UInt8} {c : Char} (hc : c ∈ hex02 x) : c ∈ hexDigits := by
  have hx : x.toNat < 256 := x.toNat_lt_size
  simp only [hex02, List.mem_cons, List.mem_singleton, List.not_mem_nil, or_false] at hc
  rcases hc with rfl | rfl
  · exact digitChar_mem _ (by omega)
  · exact digitChar_mem _ (by omega)

/-- A byte is read back from its `{:02x}`. -/
theorem hex02_decode (x : UInt8) :
    (hexVal (Nat.digitChar (x.toNat / 16)) * 16 + hexVal (Nat.digitChar (x.toNat % 16))).toUInt8 = x := by
  have hx : x.toNat < 256 := x.toNat_lt_size
  rw [hexVal_digitChar _ (by omega), hexVal_digitChar _ (by omega), Nat.div_add_mod']
  exact UInt8.toNat.inj (UInt8.toNat_ofNat_of_lt x.toNat_lt_size)

/-- **The format round-trips**: the text gives back its sixteen bytes. -/
theorem uuidBytes_uuidFormat (b : Fin 16 → UInt8) : uuidBytes (uuidFormat b) = b := by
  funext i
  fin_cases i <;> apply hex02_decode

theorem uuidFormat_injective : Function.Injective uuidFormat :=
  Function.LeftInverse.injective uuidBytes_uuidFormat

/-- The id `uuid_v4` writes for any bytes is a version-4 UUID. -/
theorem uuidV4_isUuidV4 (b : Fin 16 → UInt8) : IsUuidV4 (uuidV4 b) := by
  have hv := uuidStamp_eight b
  have hx : (b 8).toNat % 64 / 16 < 4 := by omega
  refine ⟨⟨[0, 1, 2, 3].flatMap (hex02 ∘ uuidStamp b), [4, 5].flatMap (hex02 ∘ uuidStamp b),
    [6, 7].flatMap (hex02 ∘ uuidStamp b), [8, 9].flatMap (hex02 ∘ uuidStamp b),
    [10, 11, 12, 13, 14, 15].flatMap (hex02 ∘ uuidStamp b), rfl, rfl, ?_⟩, ?_, ?_⟩
  · intro g hg c hc
    simp only [List.mem_cons, List.not_mem_nil, or_false] at hg
    rcases hg with rfl | rfl | rfl | rfl | rfl <;>
    · obtain ⟨i, -, hc⟩ := List.mem_flatMap.1 hc
      exact hex02_mem hc
  · show some (Nat.digitChar ((uuidStamp b 6).toNat / 16)) = some '4'
    rw [uuidStamp_six, show ((b 6).toNat % 16 + 64) / 16 = 4 by omega]
    rfl
  · have hdigit : ∀ k < 4, Nat.digitChar (8 + k) ∈ ['8', '9', 'a', 'b'] := by decide
    refine ⟨_, hdigit _ hx, ?_⟩
    show some (Nat.digitChar ((uuidStamp b 8).toNat / 16)) = _
    rw [hv, show ((b 8).toNat % 64 + 128) / 16 = 8 + (b 8).toNat % 64 / 16 by omega]

/-- **`uuid_v4`.**  For all sixteen random bytes the session id is a version-4 UUID of
RFC 4122, and two ids are equal exactly when their bytes agree on the 122 bits the version
and variant stamps keep. -/
theorem uuid_v4_ids (b b' : Fin 16 → UInt8) :
    IsUuidV4 (uuidV4 b) ∧
      (uuidV4 b = uuidV4 b' ↔ (∀ i, i ≠ 6 → i ≠ 8 → b i = b' i) ∧
        (b 6).toNat % 16 = (b' 6).toNat % 16 ∧ (b 8).toNat % 64 = (b' 8).toNat % 64) :=
  ⟨uuidV4_isUuidV4 b, uuidFormat_injective.eq_iff.trans uuidStamp_eq_iff⟩

end Format

end Sign
end GuardianWallet
