/-
# Reading a text from left to right

At each place an item begins, as far as `itemAt` says, and the reading goes on behind
its text; else a character is an item of its own.
-/
import Mathlib.Data.List.Basic
import Mathlib.Data.List.Infix

namespace CloudManager
namespace Scan

variable {β : Type*} (itemAt : List Char → Option β) (text : β → List Char) (single : Char → β)

/-- Past `skip` more characters of an item. -/
def scan : ℕ → List Char → List β
  | _, [] => []
  | skip + 1, _ :: s => scan skip s
  | 0, c :: s =>
    match itemAt (c :: s) with
    | some x => x :: scan ((text x).length - 1) s
    | none => single c :: scan 0 s

variable {itemAt text single}

/-- What is read is the text. -/
theorem flatMap_scan (hsingle : ∀ c, text (single c) = [c])
    (hitem : ∀ s x, itemAt s = some x → text x <+: s ∧ text x ≠ []) (k : ℕ) (s : List Char) :
    (scan itemAt text single k s).flatMap text = s.drop k := by
  induction s generalizing k with
  | nil => cases k <;> rfl
  | cons c s ih =>
    cases k with
    | succ k => exact ih k
    | zero =>
      unfold scan
      split
      · rename_i x hx
        obtain ⟨⟨rest, hrest⟩, hne⟩ := hitem _ _ hx
        have hpos := List.length_pos_of_ne_nil hne
        rw [List.flatMap_cons, ih, ← List.drop_succ_cons (a := c), Nat.sub_add_cancel hpos,
          ← hrest, List.drop_left, List.drop_zero]
      · rw [List.flatMap_cons, hsingle, ih]
        rfl

/-- What is read is a character, or an item that begins somewhere. -/
theorem of_mem_scan {k : ℕ} {s : List Char} {x : β} (h : x ∈ scan itemAt text single k s) :
    (∃ c, x = single c) ∨ ∃ s', itemAt s' = some x := by
  induction s generalizing k with
  | nil => cases k <;> cases h
  | cons c s ih =>
    cases k with
    | succ k => exact ih h
    | zero =>
      unfold scan at h
      split at h
      · rename_i x' hx'
        obtain rfl | h := List.mem_cons.mp h
        · exact .inr ⟨_, hx'⟩
        · exact ih h
      · obtain rfl | h := List.mem_cons.mp h
        · exact .inl ⟨c, rfl⟩
        · exact ih h

end Scan
end CloudManager
