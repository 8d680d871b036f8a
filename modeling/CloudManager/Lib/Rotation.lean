/-
# Taking turns

A position runs along a list, and starts over where it has come past the end.
Whatever the position, as many turns as the list has elements take each of
them: they are the list, rotated (`turns_eq_rotate`).
-/
import Mathlib.Data.List.Rotate

namespace CloudManager
namespace Rotation

variable {α : Type*} (l : List α)

/-- The place a turn reads. -/
def place (pos : ℕ) : ℕ := if l.length ≤ pos then 0 else pos

/-- What a turn reads, if there is anything, and the position after it. -/
def turn (pos : ℕ) : Option α × ℕ :=
  match l[place l pos]? with
  | some x => (some x, place l pos + 1)
  | none => (none, place l pos)

def turns : ℕ → ℕ → List (Option α)
  | 0, _ => []
  | n + 1, pos => (turn l pos).1 :: turns n (turn l pos).2

/-- The position after some turns. -/
def after : ℕ → ℕ → ℕ
  | 0, pos => pos
  | n + 1, pos => after n (turn l pos).2

variable {l} {pos : ℕ}

theorem place_lt (h : l ≠ []) (pos : ℕ) : place l pos < l.length := by
  unfold place
  split
  · exact List.length_pos_of_ne_nil h
  · omega

theorem turn_eq (h : place l pos < l.length) :
    turn l pos = (some l[place l pos], place l pos + 1) := by
  unfold turn
  rw [List.getElem?_eq_getElem h]

/-- A list with an element has one for every turn. -/
theorem mem_of_turn (h : l ≠ []) (pos : ℕ) : ∃ x ∈ l, (turn l pos).1 = some x := by
  have hlt := place_lt h pos
  exact ⟨_, List.getElem_mem hlt, by rw [turn_eq hlt]⟩

/-- The position after a turn is at most the end of the list, wherever it was. -/
theorem turn_le (l : List α) (pos : ℕ) : (turn l pos).2 ≤ l.length := by
  by_cases hl : l = []
  · have hplace : place l pos = 0 := if_pos (by simp [hl])
    unfold turn
    rw [hplace, hl]
    exact le_refl 0
  · have hlt := place_lt hl pos
    rw [turn_eq hlt]
    exact hlt

theorem turn_place (pos : ℕ) : turn l (place l pos) = turn l pos := by
  have hplace : place l (place l pos) = place l pos := by
    unfold place
    split_ifs <;> omega
  unfold turn
  rw [hplace]

theorem turns_add (m n pos : ℕ) : turns l (m + n) pos = turns l m pos ++ turns l n (after l m pos) := by
  induction m generalizing pos with
  | zero =>
    rw [Nat.zero_add]
    rfl
  | succ m ih =>
    rw [Nat.succ_add]
    show _ :: turns l (m + n) _ = _
    rw [ih]
    rfl

/-- Up to the end of the list the turns go along it. -/
theorem turns_of_le (pos n : ℕ) (h : pos + n ≤ l.length) :
    turns l n pos = ((l.drop pos).take n).map some ∧ after l n pos = pos + n := by
  induction n generalizing pos with
  | zero => simp [turns, after]
  | succ n ih =>
    have hlt : pos < l.length := by omega
    have hplace : place l pos = pos := if_neg (by omega)
    have hturn : turn l pos = (some l[pos], pos + 1) := by
      rw [turn_eq (by omega)]
      simp only [hplace]
    obtain ⟨hturns, hafter⟩ := ih (pos + 1) (by omega)
    constructor
    · show (turn l pos).1 :: turns l n (turn l pos).2 = _
      rw [hturn, hturns, List.drop_eq_getElem_cons hlt]
      rfl
    · show after l n (turn l pos).2 = _
      rw [hturn, hafter]
      omega

/-- **A round.** As many turns as there are elements read the list from the position on,
and from its start to there. -/
theorem turns_eq_rotate (l : List α) (pos : ℕ) :
    turns l l.length pos = (l.rotate (place l pos)).map some := by
  by_cases hl : l = []
  · rw [hl]
    rfl
  have hlt := place_lt hl pos
  have hpos := List.length_pos_of_ne_nil hl
  generalize hp : place l pos = p at hlt
  -- the first turn goes to its place, wherever the position is
  have hplace : turns l l.length pos = turns l l.length p := by
    obtain ⟨n, hn⟩ : ∃ n, l.length = n + 1 := ⟨l.length - 1, by omega⟩
    rw [hn]
    show (turn l pos).1 :: turns l n (turn l pos).2 = (turn l p).1 :: turns l n (turn l p).2
    rw [← hp, turn_place]
  obtain ⟨hright, hend⟩ := turns_of_le (l := l) p (l.length - p) (by omega)
  have hleft : turns l p l.length = turns l p 0 := by
    cases p with
    | zero => rfl
    | succ p =>
      have hstart : place l l.length = 0 := if_pos (le_refl _)
      show (turn l l.length).1 :: turns l p (turn l l.length).2 = _
      rw [← turn_place, hstart]
      rfl
  have hstop : p + (l.length - p) = l.length := by omega
  have hright' : (l.drop p).take (l.length - p) = l.drop p :=
    List.take_of_length_le (by rw [List.length_drop])
  have hstart := (turns_of_le (l := l) 0 p (by omega)).1
  calc turns l l.length pos = turns l (l.length - p) p ++ turns l p (after l (l.length - p) p) := by
        rw [hplace, ← turns_add, Nat.sub_add_cancel hlt.le]
    _ = (l.drop p).map some ++ (l.take p).map some := by
        rw [hright, hend, hstop, hleft, hstart, hright', List.drop_zero]
    _ = (l.rotate p).map some := by
        rw [List.rotate_eq_drop_append_take hlt.le, List.map_append]

end Rotation
end CloudManager
