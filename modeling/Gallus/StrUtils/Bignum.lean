import Gallus.StrUtils.Number
import Mathlib.Data.BitVec

/-!
# The 32-bit form of the parsers (`strutils.c`)

With `GALLUS_ARCH_32_BITS` an `unsigned long` has 32 bits, and the parsers read a big integer by
`s_bignum_2_uint64_t` instead of `mpz_get_si` and `mpz_get_ui`.

* `bignum2Uint64`: the two halves of the magnitude, put together and negated.
* `bignum2Uint64_eq`: the low 64 bits of the two's complement, for every big integer.
* `Arch`: the platforms, `IntType.parseOn` the parsers on them. `IntType.storeOn_bits32`: a value of
  the type is stored as it is on both, so that every parser answers alike.
-/

namespace Gallus
namespace StrUtils

/-- `mpz_get_ui` with an `unsigned long` of 32 bits: the low 32 bits of the absolute value. -/
def mpzGetUi32 (v : Int) : BitVec 32 := BitVec.ofNat 32 v.natAbs

/-- `s_bignum_2_uint64_t`. -/
def bignum2Uint64 (v : Int) : BitVec 64 :=
  let isNeg := decide (v < 0)
  let v := if isNeg then -v else v
  let zHi := v.tdiv (2 ^ 32)
  let zLo := v.tmod (2 ^ 32)
  let hi := mpzGetUi32 zHi
  let lo := mpzGetUi32 zLo
  let ret := hi.setWidth 64 <<< 32 ||| lo.setWidth 64
  if isNeg then ~~~(ret - 1) else ret

/-- Two words side by side. -/
theorem toNat_halves (hi lo : BitVec 32) :
    (hi.setWidth 64 <<< 32 ||| lo.setWidth 64).toNat = hi.toNat * 2 ^ 32 + lo.toNat := by
  have hhi := hi.isLt
  have hlo := lo.isLt
  rw [BitVec.toNat_or, BitVec.toNat_shiftLeft, BitVec.toNat_setWidth, BitVec.toNat_setWidth,
    Nat.mod_eq_of_lt (a := hi.toNat) (by omega), Nat.mod_eq_of_lt (a := lo.toNat) (by omega),
    Nat.shiftLeft_eq, Nat.mod_eq_of_lt (by omega), ← Nat.shiftLeft_eq,
    ← Nat.shiftLeft_add_eq_or_of_lt hlo]

/-- The halves of a magnitude are its low 64 bits. -/
theorem halves_eq {m : Int} (h : 0 ≤ m) :
    (mpzGetUi32 (m.tdiv (2 ^ 32))).setWidth 64 <<< 32 |||
      (mpzGetUi32 (m.tmod (2 ^ 32))).setWidth 64 = BitVec.ofInt 64 m := by
  obtain ⟨n, rfl⟩ := Int.eq_ofNat_of_zero_le h
  apply BitVec.eq_of_toNat_eq
  rw [toNat_halves, Int.tdiv_eq_ediv_of_nonneg h, Int.tmod_eq_emod_of_nonneg h]
  simp only [mpzGetUi32, BitVec.toNat_ofNat, BitVec.toNat_ofInt]
  omega

/-- A decrement and a complement negate. -/
theorem not_sub_one (x : BitVec 64) : ~~~(x - 1) = -x := by
  bv_omega

theorem bignum2Uint64_eq (v : Int) : bignum2Uint64 v = BitVec.ofInt 64 v := by
  unfold bignum2Uint64
  by_cases hneg : v < 0
  · simp only [hneg, decide_true, if_true, halves_eq (m := -v) (by omega), not_sub_one]
    rw [BitVec.ofInt_neg, BitVec.neg_neg]
  · simp only [hneg, decide_false, Bool.false_eq_true, if_false]
    exact halves_eq (by omega)

/-- A low half of zero. -/
example : bignum2Uint64 (-2 ^ 32) = 0xffffffff00000000#64 := by decide

/-! ## The parsers -/

/-- The platforms. -/
inductive Arch
  | bits32 | bits64

/-- `(int64_t)` of a 64-bit pattern. -/
def Arch.signed : Arch → Int → Int
  | .bits64 => mpzGetSi
  | .bits32 => fun v => (bignum2Uint64 v).toInt

/-- `(uint64_t)` of a 64-bit pattern. -/
def Arch.unsigned : Arch → Int → Int
  | .bits64 => mpzGetUi
  | .bits32 => fun v => (bignum2Uint64 v).toNat

/-- What the parser of a type stores of a big integer, on a platform. -/
def IntType.storeOn (arch : Arch) : IntType → Int → Int
  | .int16 => fun v => intN 16 (arch.signed v)
  | .uint16 => fun v => uintN 16 (arch.unsigned v)
  | .int32 => fun v => intN 32 (arch.signed v)
  | .uint32 => fun v => uintN 32 (arch.unsigned v)
  | .int64 => arch.signed
  | .uint64 => arch.unsigned

/-- The parser of a type, on a platform. -/
def IntType.parseOn (arch : Arch) (gmp : Gmp) (ty : IntType) : List Char → Int → Result × Int :=
  strParse gmp ty.lower ty.upper (ty.storeOn arch)

/-- The `_by_base` parser of a type, on a platform. -/
def IntType.parseByBaseOn (arch : Arch) (gmp : Gmp) (ty : IntType) :
    List Char → Int → Nat → Result × Int :=
  strParseByBase gmp ty.lower ty.upper (ty.storeOn arch)

theorem IntType.parseOn_bits64 (gmp : Gmp) (ty : IntType) :
    ty.parseOn .bits64 gmp = ty.parse gmp ∧ ty.parseByBaseOn .bits64 gmp = ty.parseByBase gmp := by
  cases ty <;> exact ⟨rfl, rfl⟩

/-- The 64-bit pattern is a value of the range again. -/
theorem Arch.signed_bits32 {v : Int} (hlo : -2 ^ 63 ≤ v) (hhi : v < 2 ^ 63) :
    signed .bits32 v = v := by
  simp only [signed, bignum2Uint64_eq, BitVec.toInt_ofInt]
  exact i64_of_range hlo hhi

theorem Arch.unsigned_bits32 {v : Int} (hlo : 0 ≤ v) (hhi : v < 2 ^ 64) :
    unsigned .bits32 v = v := by
  simp only [unsigned, bignum2Uint64_eq, BitVec.toNat_ofInt]
  omega

/-- Both platforms store a value of the type as it is. -/
theorem IntType.storeOn_bits32 {ty : IntType} {v : Int} (h : ty.lower ≤ v ∧ v ≤ ty.upper) :
    ty.storeOn .bits32 v = ty.store v := by
  cases ty <;> simp only [lower, upper] at h <;> simp only [storeOn, store]
  case int16 | int32 | int64 =>
    rw [Arch.signed_bits32 (by omega) (by omega), mpzGetSi_of_range (by omega) (by omega)]
  case uint16 | uint32 | uint64 =>
    rw [Arch.unsigned_bits32 (by omega) (by omega), mpzGetUi_of_range (by omega) (by omega)]

/-- A parser stores nothing else than values of the range. -/
theorem strParse_congr (gmp : Gmp) {lower upper : Int} {f g : Int → Int}
    (h : ∀ v, lower ≤ v ∧ v ≤ upper → f v = g v) :
    strParse gmp lower upper f = strParse gmp lower upper g ∧
      strParseByBase gmp lower upper f = strParseByBase gmp lower upper g := by
  have hrange : ∀ r : Option Int, (inRange r lower upper).1 = Result.ok →
      f (inRange r lower upper).2 = g (inRange r lower upper).2 := by
    rintro (_ | v) hr
    · exact absurd hr (by simp [inRange, Result.invalidArgs, Result.ok])
    · simp only [inRange] at hr ⊢
      split_ifs at hr with hv
      · exact h v hv
      · exact absurd hr (by decide)
  constructor
  · funext buf val
    simp only [strParse]
    split_ifs with hbuf hr
    · rw [hrange _ hr]
    · rfl
    · rfl
  · funext buf val base
    simp only [strParseByBase]
    split_ifs with hbuf hr
    · rw [hrange _ hr]
    · rfl
    · rfl

/-- **The 32-bit platform.** Every big integer becomes its remainder by `2 ^ 64`, the negative ones
as well, and every parser answers and stores as on the 64-bit platform. -/
theorem bignum2Uint64_mod (gmp : Gmp) :
    (∀ v : Int, ((bignum2Uint64 v).toNat : Int) = v % 2 ^ 64) ∧
    ∀ ty : IntType, ty.parseOn .bits32 gmp = ty.parse gmp ∧
      ty.parseByBaseOn .bits32 gmp = ty.parseByBase gmp := by
  refine ⟨fun v => ?_, fun ty => ?_⟩
  · rw [bignum2Uint64_eq, BitVec.toNat_ofInt]
    omega
  · rw [ty.parse_eq, ty.parseByBase_eq]
    exact strParse_congr gmp fun v hv => ty.storeOn_bits32 hv

end StrUtils
end Gallus
