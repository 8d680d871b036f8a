/-
# Arrays in one column

The handlers of `String[]` and `Integer[]` write the elements of an array into one
column with commas between them, and split the text of the column at its commas
when they read it. A comma in an element is not escaped, and `split` leaves out
the empty parts at the end.

`roundTrip_iff`: an array of integers comes back, and an array of strings does if and
only if none has a comma and the last is not empty, unless it is the only one.
-/
import CloudManager.Lib.Decimal
import CloudManager.Lib.JavaString

namespace CloudManager
namespace ArrayTypeHandlers

open JavaString

/-- The text of the column: null for a null array and for an empty one. A null element
has no text. -/
def columnText {α : Type*} (text : α → String) (parameter : Option (List (Option α))) :
    Option String :=
  match parameter with
  | some (x :: xs) => some (join ',' ((x :: xs).map fun x => x.elim "" text))
  | _ => none

namespace StringArrayTypeHandler

def setParameter (parameter : Option (List (Option String))) : Option String :=
  columnText id parameter

def getValue (value : Option String) : Option (List String) := value.map (split ',')

/-- The array comes back. -/
def RoundTrip (array : List String) : Prop :=
  getValue (setParameter (some (array.map some))) = some array

instance RoundTrip.decidable (array : List String) : Decidable (RoundTrip array) :=
  inferInstanceAs (Decidable (_ = _))

end StringArrayTypeHandler

/-- What the message of the exception quotes. -/
structure NumberFormatException where
  input : String
  deriving DecidableEq, Repr

/-- `Integer.valueOf`, of ASCII digits. -/
def valueOf (s : String) : Except NumberFormatException Int32 :=
  match Decimal.parse s.toList with
  | some n =>
    if Int32.minValue.toInt ≤ n ∧ n ≤ Int32.maxValue.toInt then .ok (Int32.ofInt n) else .error ⟨s⟩
  | none => .error ⟨s⟩

namespace IntegerArrayTypeHandler

def setParameter (parameter : Option (List (Option Int32))) : Option String :=
  columnText (fun i => toString i.toInt) parameter

def getValue (value : Option String) : Except NumberFormatException (Option (List Int32)) :=
  match value with
  | some val => ((split ',' val).mapM valueOf).map some
  | none => .ok none

/-- The array comes back. -/
def RoundTrip (array : List Int32) : Prop :=
  getValue (setParameter (some (array.map some))) = .ok (some array)

end IntegerArrayTypeHandler

theorem columnText_some {α : Type*} (text : α → String) {array : List α} (hne : array ≠ []) :
    columnText text (some (array.map some)) = some (join ',' (array.map text)) := by
  obtain ⟨x, xs, rfl⟩ := List.exists_cons_of_ne_nil hne
  unfold columnText
  rw [List.map_cons]
  dsimp only
  rw [← List.map_cons, List.map_map]
  rfl

theorem valueOf_toString (i : Int32) : valueOf (toString i.toInt) = .ok i := by
  unfold valueOf
  rw [Decimal.parse_toString]
  dsimp only
  rw [if_pos ⟨Int32.minValue_le_toInt i, Int32.toInt_le i⟩, Int32.ofInt_toInt]

theorem mapM_valueOf (array : List Int32) :
    (array.map fun i => toString i.toInt).mapM valueOf = .ok array := by
  induction array with
  | nil => rfl
  | cons i array ih =>
    rw [List.map_cons, List.mapM_cons, valueOf_toString, ih]
    rfl

theorem string_roundTrip_iff (array : List String) : StringArrayTypeHandler.RoundTrip array ↔
    array ≠ [] ∧ (∀ s ∈ array, ',' ∉ s.toList) ∧ (array.length = 1 ∨ array.getLast? ≠ some "") := by
  by_cases hne : array = []
  · rw [hne]
    decide
  · unfold StringArrayTypeHandler.RoundTrip StringArrayTypeHandler.setParameter
    rw [columnText_some id hne, List.map_id]
    show some _ = some _ ↔ _
    rw [Option.some.injEq, split_join_iff hne]
    exact ⟨fun h => ⟨hne, h⟩, fun h => h.2⟩

theorem integer_roundTrip_iff (array : List Int32) :
    IntegerArrayTypeHandler.RoundTrip array ↔ array ≠ [] := by
  constructor
  · rintro h rfl
    cases h
  · intro hne
    have hmap : (array.map fun i => toString i.toInt) ≠ [] := by simpa using hne
    have hsplit : split ',' (join ',' (array.map fun i => toString i.toInt)) =
        array.map fun i => toString i.toInt := by
      rw [split_join_iff hmap]
      constructor
      · intro s hs
        obtain ⟨i, -, rfl⟩ := List.mem_map.mp hs
        intro hcomma
        have hc := (Decimal.text_spec i.toInt).2 ',' hcomma
        revert hc
        decide
      · right
        intro hlast
        obtain ⟨i, -, hi⟩ := List.mem_map.mp (List.mem_of_getLast? hlast)
        exact (Decimal.text_spec i.toInt).1 (by rw [hi]; rfl)
    unfold IntegerArrayTypeHandler.RoundTrip IntegerArrayTypeHandler.setParameter
    rw [columnText_some _ hne]
    unfold IntegerArrayTypeHandler.getValue
    dsimp only
    rw [hsplit, mapM_valueOf]
    rfl

/-- **The round trip** of both handlers. -/
theorem roundTrip_iff (strings : List String) (integers : List Int32) :
    (StringArrayTypeHandler.RoundTrip strings ↔
      strings ≠ [] ∧ (∀ s ∈ strings, ',' ∉ s.toList) ∧
        (strings.length = 1 ∨ strings.getLast? ≠ some "")) ∧
    (IntegerArrayTypeHandler.RoundTrip integers ↔ integers ≠ []) :=
  ⟨string_roundTrip_iff strings, integer_roundTrip_iff integers⟩

/-- `["a,b"]` is read back as two strings. -/
theorem not_roundTrip : ¬ ∀ array : List String, array ≠ [] →
    StringArrayTypeHandler.RoundTrip array := by
  intro h
  have hcomma := h ["a,b"] (by decide)
  revert hcomma
  decide

example : StringArrayTypeHandler.getValue
    (StringArrayTypeHandler.setParameter (some [some "a", some "", some ""])) = some ["a"] := by decide

end ArrayTypeHandlers
end CloudManager
