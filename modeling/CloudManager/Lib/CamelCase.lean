/-
# Camel case

The camel form of a name with underscores capitalises the words between them. In
lower case it is the name without its underscores (`camelForm_lower`), so names that
differ in more than underscores and letter case have different camel forms, and
a front that is cut off a name makes no difference if and only if it is of
underscores (`camelForm_append_iff`).
-/
import Mathlib

namespace CloudManager
namespace CamelCase

def capital : List Char → List Char
  | [] => []
  | c :: cs => c.toUpper :: cs.map Char.toLower

def camelForm (name : List Char) : List Char := (name.splitOn '_').flatMap capital

theorem capital_lower (word : List Char) :
    (capital word).map Char.toLower = word.map Char.toLower := by
  rcases word with _ | ⟨c, cs⟩
  · rfl
  · have hcs : (cs.map Char.toLower).map Char.toLower = cs.map Char.toLower := by
      rw [List.map_map]
      exact List.map_congr_left fun d _ => Char.toLower_toLower_eq_toLower d
    show c.toUpper.toLower :: (cs.map Char.toLower).map Char.toLower = _
    rw [hcs, Char.toLower_toUpper_eq_toLower]
    rfl

/-- What a list is split at is all that its parts leave out. -/
theorem flatten_splitOn (sep : Char) (l : List Char) :
    (l.splitOn sep).flatten = l.filter (· ≠ sep) := by
  induction l with
  | nil => rfl
  | cons c l ih =>
    rw [List.splitOn_cons_eq_if_modifyHead]
    by_cases hc : c = sep
    · rw [if_pos (by simpa using hc), List.flatten_cons, ih, List.filter_cons_of_neg (by simpa using hc)]
      rfl
    · obtain ⟨first, rest, hl⟩ := List.exists_cons_of_ne_nil (List.splitOn_ne_nil sep l)
      rw [hl, List.flatten_cons] at ih
      rw [if_neg (by simpa using hc), hl, List.modifyHead_cons, List.flatten_cons,
        List.filter_cons_of_pos (by simpa using hc), List.cons_append, ih]

theorem camelForm_lower (name : List Char) :
    (camelForm name).map Char.toLower = (name.filter (· ≠ '_')).map Char.toLower := by
  have hwords : ∀ words : List (List Char),
      (words.flatMap capital).map Char.toLower = words.flatten.map Char.toLower := by
    intro words
    induction words with
    | nil => rfl
    | cons word words ih =>
      rw [List.flatMap_cons, List.map_append, ih, capital_lower, List.flatten_cons, List.map_append]
  unfold camelForm
  rw [hwords, flatten_splitOn]

theorem length_camelForm (name : List Char) :
    (camelForm name).length = (name.filter (· ≠ '_')).length := by
  have h := congrArg List.length (camelForm_lower name)
  rwa [List.length_map, List.length_map] at h

theorem camelForm_eq_nil_iff {name : List Char} : camelForm name = [] ↔ ∀ c ∈ name, c = '_' := by
  rw [← List.length_eq_zero_iff, length_camelForm, List.length_eq_zero_iff, List.filter_eq_nil_iff]
  simp

theorem camelForm_cons (name : List Char) : camelForm ('_' :: name) = camelForm name := by
  unfold camelForm
  rw [List.splitOn_cons_eq_if_modifyHead, if_pos (by rfl), List.flatMap_cons]
  rfl

/-- A front of a name makes no difference if and only if it is of underscores. -/
theorem camelForm_append_iff (front name : List Char) :
    camelForm (front ++ name) = camelForm name ↔ ∀ c ∈ front, c = '_' := by
  constructor
  · intro h
    have hlen := congrArg List.length h
    rw [length_camelForm, length_camelForm, List.filter_append, List.length_append] at hlen
    have hnil : front.filter (· ≠ '_') = [] := List.length_eq_zero_iff.mp (by omega)
    rw [List.filter_eq_nil_iff] at hnil
    simpa using hnil
  · intro h
    induction front with
    | nil => rfl
    | cons c front ih =>
      obtain ⟨rfl, hfront⟩ := List.forall_mem_cons.mp h
      rw [List.cons_append, camelForm_cons]
      exact ih hfront

/-- It begins with a capital, if with a letter. -/
theorem camelForm_head (name : List Char) : ∀ c ∈ (camelForm name).head?, c.toUpper = c := by
  have hwords : ∀ words : List (List Char), ∀ c ∈ (words.flatMap capital).head?, c.toUpper = c := by
    intro words
    induction words with
    | nil => nofun
    | cons word words ih =>
      rcases word with _ | ⟨d, ds⟩
      · exact ih
      · intro c hc
        obtain rfl : d.toUpper = c := Option.some.inj hc
        exact Char.toUpper_toUpper_eq_toUpper d
  exact hwords _

end CamelCase
end CloudManager
