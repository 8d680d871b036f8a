/-
# Numerals

The digits of a number in a base up to 16 (`Nat.toDigits`), read back as the number
(`value_toDigits`), also behind zeros: padded to a width, different numbers have
different numerals (`leftpad_injective`).
-/
import Mathlib.Data.Nat.Bitwise
import Mathlib.Data.List.Basic

namespace CloudManager
namespace Numerals

def digitValue (c : Char) : ℕ := "0123456789abcdef".toList.idxOf c

theorem digitValue_digitChar : ∀ d < 16, digitValue (Nat.digitChar d) = d := by decide

/-- The number of a numeral in base `b`. -/
def value (b : ℕ) (s : List Char) : ℕ := s.foldl (fun v c => b * v + digitValue c) 0

variable {b : ℕ}

theorem value_concat (s : List Char) (c : Char) :
    value b (s ++ [c]) = b * value b s + digitValue c := by
  unfold value
  rw [List.foldl_append]
  rfl

/-- A numeral is read back as its number. -/
theorem value_toDigits (hb : 1 < b) (hb' : b ≤ 16) (n : ℕ) : value b (Nat.toDigits b n) = n := by
  induction n using Nat.strongRecOn with
  | _ n ih =>
    rcases Nat.lt_or_ge n b with h | h
    · rw [Nat.toDigits_of_lt_base h]
      show b * 0 + digitValue (Nat.digitChar n) = n
      rw [digitValue_digitChar n (by omega), Nat.mul_zero, Nat.zero_add]
    · have hmod : n % b < b := Nat.mod_lt n (by omega)
      rw [Nat.toDigits_of_base_le hb h, value_concat, ih (n / b) (Nat.div_lt_self (by omega) hb),
        digitValue_digitChar _ (by omega), Nat.div_add_mod]

theorem value_leftpad (w : ℕ) (s : List Char) : value b (s.leftpad w '0') = value b s := by
  unfold List.leftpad
  generalize w - s.length = k
  induction k with
  | zero => rw [List.replicate_zero, List.nil_append]
  | succ k ih =>
    rw [← ih, List.replicate_succ]
    show List.foldl _ (b * 0 + digitValue '0') (List.replicate k '0' ++ s) = _
    rw [show digitValue '0' = 0 by decide]
    rfl

theorem leftpad_injective (hb : 1 < b) (hb' : b ≤ 16) (w : ℕ) {m n : ℕ}
    (h : (Nat.toDigits b m).leftpad w '0' = (Nat.toDigits b n).leftpad w '0') : m = n := by
  have hv := congrArg (value b) h
  rw [value_leftpad, value_leftpad, value_toDigits hb hb', value_toDigits hb hb'] at hv
  exact hv

/-- A number below `b ^ w` fills the width exactly. -/
theorem length_leftpad (hb : 1 < b) {w n : ℕ} (hw : 0 < w) (h : n < b ^ w) :
    ((Nat.toDigits b n).leftpad w '0').length = w := by
  have hlen := (Nat.length_toDigits_le_iff hb hw).mpr h
  rw [List.length_leftpad]
  omega

end Numerals
end CloudManager
