/-
# Decimal texts

Behind a stem that does not end in a digit, the text of a number ends in the text
of no larger number (`le_of_suffix`). A signed text is read back as the number it
is of (`parse_toString`).
-/
import Mathlib.Data.List.Infix

namespace CloudManager
namespace Decimal

theorem toList_toString (n : ℕ) : (toString n).toList = Nat.toDigits 10 n := by
  rw [Nat.toString_eq_repr, Nat.toList_repr]

/-- Of two texts the longer one is of the larger number. -/
theorem le_of_digits_suffix {m k : ℕ} (h : Nat.toDigits 10 m <:+ Nat.toDigits 10 k) : m ≤ k := by
  obtain ⟨p, hp⟩ := h
  have hm : Nat.ofDigitChars 10 (Nat.toDigits 10 m) 0 = m := Nat.ofDigitChars_ten_toDigits
  have hk : Nat.ofDigitChars 10 (p ++ Nat.toDigits 10 m) 0 = k := by
    rw [hp]
    exact Nat.ofDigitChars_ten_toDigits
  rw [Nat.ofDigitChars_append, Nat.ofDigitChars_eq_ofDigitChars_zero, hm] at hk
  omega

theorem le_of_suffix {m k : ℕ} {stem : List Char} (hstem : ∀ c ∈ stem.getLast?, c.isDigit = false)
    (h : Nat.toDigits 10 m <:+ stem ++ Nat.toDigits 10 k) : m ≤ k := by
  rcases List.suffix_or_suffix_of_suffix h (List.suffix_append stem _) with hmk | hkm
  · exact le_of_digits_suffix hmk
  · obtain ⟨p, hp⟩ := hkm
    have hp' : p = [] := by
      by_contra hne
      -- what the longer text has more stands at the end of the stem
      rw [← hp, List.suffix_append_self_iff] at h
      obtain ⟨s, hs⟩ := h
      have hlast : p.getLast hne ∈ stem.getLast? := by
        rw [← hs, List.getLast?_append_of_ne_nil _ hne, List.getLast?_eq_getLast_of_ne_nil hne]
        rfl
      have hdigit : (p.getLast hne).isDigit = true := by
        have hmem : p.getLast hne ∈ Nat.toDigits 10 m := by
          rw [← hp]
          exact List.mem_append_left _ (List.getLast_mem hne)
        exact Nat.isDigit_of_mem_toDigits (by omega) (by omega) hmem
      rw [hstem _ hlast] at hdigit
      cases hdigit
    rw [hp', List.nil_append] at hp
    exact le_of_digits_suffix (hp ▸ List.suffix_rfl)

/-! ### Signed texts -/

/-- A sign, if there is one, and the digits. -/
def signed : List Char → Bool × List Char
  | '-' :: digits => (true, digits)
  | '+' :: digits => (false, digits)
  | digits => (false, digits)

/-- The number of a signed decimal text. -/
def parse (s : List Char) : Option Int :=
  let (negative, digits) := signed s
  if digits ≠ [] ∧ digits.all Char.isDigit then
    let n := Nat.ofDigitChars 10 digits 0
    some (if negative then -(n : Int) else n)
  else none

theorem all_isDigit (n : ℕ) : (Nat.toDigits 10 n).all Char.isDigit = true :=
  List.all_eq_true.mpr fun _ hc => Nat.isDigit_of_mem_toDigits (by omega) (by omega) hc

theorem signed_toDigits (n : ℕ) : signed (Nat.toDigits 10 n) = (false, Nat.toDigits 10 n) := by
  have hall := all_isDigit n
  generalize Nat.toDigits 10 n = digits at hall
  unfold signed
  split
  · simp at hall
  · simp at hall
  · rfl

/-- The text of an integer: its digits, behind a minus where it is negative. -/
theorem text_cases (i : Int) : ∃ n : ℕ,
    i = n ∧ (toString i).toList = Nat.toDigits 10 n ∨
      i = -(n : Int) ∧ (toString i).toList = '-' :: Nat.toDigits 10 n := by
  rcases i with n | n
  · exact ⟨n, .inl ⟨rfl, toList_toString n⟩⟩
  · refine ⟨n + 1, .inr ⟨rfl, ?_⟩⟩
    show ("-" ++ toString (n + 1)).toList = _
    rw [String.toList_append, toList_toString]
    rfl

/-- **A number comes back** from its text. -/
theorem parse_toString (i : Int) : parse (toString i).toList = some i := by
  obtain ⟨n, ⟨hi, htext⟩ | ⟨hi, htext⟩⟩ := text_cases i
  · unfold parse
    rw [htext, signed_toDigits, hi]
    dsimp only
    rw [if_pos ⟨Nat.toDigits_ne_nil, all_isDigit n⟩, Nat.ofDigitChars_ten_toDigits]
    rfl
  · have hsigned : signed ('-' :: Nat.toDigits 10 n) = (true, Nat.toDigits 10 n) := rfl
    unfold parse
    rw [htext, hsigned, hi]
    dsimp only
    rw [if_pos ⟨Nat.toDigits_ne_nil, all_isDigit n⟩, Nat.ofDigitChars_ten_toDigits]
    rfl

/-- The text of an integer is of digits and a minus, and not empty. -/
theorem text_spec (i : Int) : (toString i).toList ≠ [] ∧
    ∀ c ∈ (toString i).toList, c = '-' ∨ c.isDigit = true := by
  obtain ⟨n, ⟨-, htext⟩ | ⟨-, htext⟩⟩ := text_cases i
  · rw [htext]
    exact ⟨Nat.toDigits_ne_nil, fun c hc => .inr (List.all_eq_true.mp (all_isDigit n) c hc)⟩
  · rw [htext]
    refine ⟨List.cons_ne_nil _ _, fun c hc => ?_⟩
    rcases List.mem_cons.mp hc with hc | hc
    · exact .inl hc
    · exact .inr (List.all_eq_true.mp (all_isDigit n) c hc)

end Decimal
end CloudManager
