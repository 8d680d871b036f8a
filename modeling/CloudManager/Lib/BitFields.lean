/-
# Fields side by side in a number

`place w x y` puts the field `y` of `w` bits to the right of `x`. A field is
read back by a shift (`place_shiftRight`) or a mask (`place_mask`), and numbers
put together this way compare as their leftmost different fields do
(`place_lt_place`, `place_lt_place_right`). The last section is about 64-bit
signed words: `word a` is the number that the bits of `a` spell, and `|`, `&`,
`<<` and `>>` on words that are not negative are those of numbers.
-/
import Mathlib.Tactic.Linarith
import Mathlib.Data.Nat.Bitwise

namespace CloudManager
namespace BitFields

/-- The field `y` of `w` bits to the right of `x`. -/
def place (w x y : ℕ) : ℕ := x <<< w ||| y

variable {w x y x' y' n : ℕ}

theorem place_eq (hy : y < 2 ^ w) : place w x y = 2 ^ w * x + y := by
  rw [place, ← Nat.shiftLeft_add_eq_or_of_lt hy, Nat.shiftLeft_eq, Nat.mul_comm]

theorem place_lt (hx : x < 2 ^ n) (hy : y < 2 ^ w) : place w x y < 2 ^ (w + n) := by
  calc place w x y < 2 ^ w * (x + 1) := by rw [place_eq hy, Nat.mul_add, Nat.mul_one]; omega
    _ ≤ 2 ^ w * 2 ^ n := Nat.mul_le_mul_left _ hx
    _ = 2 ^ (w + n) := (Nat.pow_add 2 w n).symm

/-! ### Order -/

/-- A larger field on the left makes a larger number, whatever is on the right. -/
theorem place_lt_place (hx : x < x') (hy : y < 2 ^ w) : place w x y < place w x' y' := by
  calc place w x y < 2 ^ w * (x + 1) := by rw [place_eq hy, Nat.mul_add, Nat.mul_one]; omega
    _ ≤ 2 ^ w * x' := Nat.mul_le_mul_left _ hx
    _ = x' <<< w := by rw [Nat.shiftLeft_eq, Nat.mul_comm]
    _ ≤ place w x' y' := Nat.left_le_or

theorem place_lt_place_right (hy : y < y') (hy' : y' < 2 ^ w) : place w x y < place w x y' := by
  rw [place_eq (hy.trans hy'), place_eq hy']
  omega

/-! ### Reading a field back -/

theorem place_shiftRight (hy : y < 2 ^ w) : place w x y >>> w = x := by
  rw [place_eq hy, Nat.shiftRight_eq_div_pow, Nat.mul_add_div (by positivity),
    Nat.div_eq_of_lt hy, Nat.add_zero]

theorem place_mask (hy : y < 2 ^ w) : place w x y &&& (2 ^ w - 1) = y := by
  rw [place_eq hy, Nat.and_two_pow_sub_one_eq_mod, Nat.mul_add_mod, Nat.mod_eq_of_lt hy]

/-! ### In a 64-bit signed word -/

/-- The number spelt by the bits of `a`. -/
def word (a : Int64) : ℕ := a.toBitVec.toNat

variable {a b k : Int64}

theorem word_inj (h : word a = word b) : a = b :=
  Int64.toBitVec_inj.mp (BitVec.toNat_inj.mp h)

theorem toInt_eq_word (h : word a < 2 ^ 63) : a.toInt = word a := by
  unfold word at h
  rw [← Int64.toInt_toBitVec, BitVec.toInt_eq_toNat_of_lt (by omega)]
  rfl

theorem word_eq_toInt (h : 0 ≤ a.toInt) : (word a : ℤ) = a.toInt := by
  have hlt := a.toBitVec.isLt
  rw [← Int64.toInt_toBitVec, BitVec.toInt_eq_toNat_bmod, Int.bmod_def] at h ⊢
  unfold word
  split at h <;> omega

theorem word_or (a b : Int64) : word (a ||| b) = word a ||| word b := by
  rw [word, Int64.toBitVec_or, BitVec.toNat_or]
  rfl

theorem word_and (a b : Int64) : word (a &&& b) = word a &&& word b := by
  rw [word, Int64.toBitVec_and, BitVec.toNat_and]
  rfl

/-- A shift by less than 64 is a shift by that much. -/
theorem toNat_smod_word (hk : word k < 64) : (k.toBitVec.smod 64).toNat = word k := by
  have hm : k.toBitVec.msb = false := by
    apply BitVec.msb_eq_false_iff_two_mul_lt.mpr
    unfold word at hk
    omega
  rw [BitVec.toNat_smod, hm]
  exact Nat.mod_eq_of_lt hk

theorem word_shiftLeft (hk : word k < 64) (ha : word a < 2 ^ (64 - word k)) :
    word (a <<< k) = word a <<< word k := by
  have hlt : word a <<< word k < 2 ^ 64 := by
    rw [Nat.shiftLeft_eq]
    calc word a * 2 ^ word k < 2 ^ (64 - word k) * 2 ^ word k := by gcongr
      _ = 2 ^ 64 := by rw [← Nat.pow_add, Nat.sub_add_cancel hk.le]
  rw [word, Int64.toBitVec_shiftLeft, BitVec.shiftLeft_eq', BitVec.toNat_shiftLeft,
    toNat_smod_word hk]
  exact Nat.mod_eq_of_lt hlt

/-- On a word that is not negative the arithmetic shift is that of its number. -/
theorem word_shiftRight (hk : word k < 64) (ha : word a < 2 ^ 63) :
    word (a >>> k) = word a >>> word k := by
  have hm : a.toBitVec.msb = false := by
    apply BitVec.msb_eq_false_iff_two_mul_lt.mpr
    unfold word at ha
    omega
  rw [word, Int64.toBitVec_shiftRight, BitVec.toNat_sshiftRight'_of_msb_false hm,
    toNat_smod_word hk]
  rfl

end BitFields
end CloudManager
