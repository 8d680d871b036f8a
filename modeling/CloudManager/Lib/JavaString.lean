/-
# Java's strings, where they differ from Lean's
-/
import Mathlib.Data.List.DropRight
import Mathlib.Data.List.Infix
import CloudManager.Lib.JavaText

namespace CloudManager
namespace JavaString

/-- `trim` drops what is not above the space, control characters included. -/
def trimStart (l : List Char) : List Char := l.dropWhile (· ≤ ' ')

def trim (s : String) : String :=
  String.ofList (trimStart (trimStart s.toList).reverse).reverse

/-- `replace(" ", "")`. -/
def dropSpaces (s : String) : String := String.ofList (s.toList.filter (· ≠ ' '))

/-- `equalsIgnoreCase`, of ASCII letters. -/
def equalsIgnoreCase (s t : String) : Bool := s.toList.map Char.toLower = t.toList.map Char.toLower

/-- `split` at a character: empty strings at the end are left out, and a text
without the character is its only part. -/
def split (sep : Char) (s : String) : List String :=
  if sep ∈ s.toList then
    ((s.toList.splitOn sep).reverse.dropWhile List.isEmpty).reverse.map String.ofList
  else [s]

/-- `split(..)[0]`, if there is a part at all. -/
def firstPart (sep : Char) (s : String) : Option String := (split sep s).head?

/-- A text without the separator is its only part. -/
theorem split_of_not_mem {sep : Char} {s : String} (h : sep ∉ s.toList) : split sep s = [s] :=
  if_neg h

theorem firstPart_of_not_mem {sep : Char} {s : String} (h : sep ∉ s.toList) :
    firstPart sep s = some s := by
  rw [firstPart, split_of_not_mem h]
  rfl

/-- What stands before the separator is the first part. -/
theorem firstPart_append {sep : Char} {s t a : String} (h : sep ∉ s.toList)
    (ha : firstPart sep (s ++ String.singleton sep ++ t) = some a) : a = s := by
  have hl : (s ++ String.singleton sep ++ t).toList = s.toList ++ sep :: t.toList := by simp
  have hs : (s.toList ++ sep :: t.toList).splitOn sep = s.toList :: t.toList.splitOn sep := by
    rw [List.splitOn_eq_splitOnP, List.splitOn_eq_splitOnP]
    apply List.splitOnP_append_cons_of_forall_mem
    · intro x hx
      simpa using fun he : x = sep => h (he ▸ hx)
    · simp
  rw [firstPart, split, hl, if_pos (by simp), hs, List.head?_map, Option.map_eq_some_iff] at ha
  obtain ⟨part, hpart, rfl⟩ := ha
  -- the parts left are a prefix of all of them
  have hpre : ((s.toList :: t.toList.splitOn sep).reverse.dropWhile List.isEmpty).reverse <+:
      s.toList :: t.toList.splitOn sep := List.rdropWhile_prefix ..
  obtain ⟨rest, hrest⟩ := hpre
  have hhead := congrArg List.head? hrest
  rw [List.head?_append, hpart] at hhead
  obtain rfl : part = s.toList := by simpa using hhead
  exact String.ofList_toList

/-! ### The parts of a text -/

/-- An element stays at the front if it is not dropped, or something after it is not. -/
theorem rdropWhile_cons {α : Type} {p : α → Bool} {a : α} {l : List α}
    (h : p a = false ∨ l.rdropWhile p ≠ []) : (a :: l).rdropWhile p = a :: l.rdropWhile p := by
  unfold List.rdropWhile at *
  rw [List.reverse_cons, List.dropWhile_append]
  by_cases hl : l.reverse.dropWhile p = []
  · obtain ha | hne := h
    · simp [hl, ha]
    · exact (hne (by rw [hl, List.reverse_nil])).elim
  · simp [hl]

theorem head?_splitOn (sep : Char) (l : List Char) :
    (l.splitOn sep).head? = some (l.takeWhile (· ≠ sep)) := by
  induction l with
  | nil => rfl
  | cons c l ih =>
    rw [List.splitOn_cons_eq_if_modifyHead]
    by_cases hc : c = sep
    · simp [hc]
    · simp [hc, ih]

/-- Only separators leave nothing but empty parts. -/
theorem isEmpty_splitOn (sep : Char) (l : List Char) :
    (∀ part ∈ l.splitOn sep, part.isEmpty = true) ↔ ∀ c ∈ l, c = sep := by
  induction l with
  | nil => simp
  | cons c l ih =>
    rw [List.splitOn_cons_eq_if_modifyHead]
    by_cases hc : c = sep
    · simpa [hc] using ih
    · have hne := List.splitOn_ne_nil sep l
      cases hl : l.splitOn sep with
      | nil => exact (hne hl).elim
      | cons part parts => simp [hc]

/-- The parts after a first one, where it or something after it is not empty. -/
theorem split_append_cons {sep : Char} {p rest : List Char} (hp : sep ∉ p)
    (hne : p ≠ [] ∨ ∃ c ∈ rest, c ≠ sep) :
    split sep (String.ofList (p ++ sep :: rest)) =
      String.ofList p :: ((rest.splitOn sep).rdropWhile List.isEmpty).map String.ofList := by
  have hs : (p ++ sep :: rest).splitOn sep = p :: rest.splitOn sep :=
    List.splitOn_append_cons_self_of_not_mem hp rest
  have hkept : p.isEmpty = false ∨ (rest.splitOn sep).rdropWhile List.isEmpty ≠ [] := by
    rw [ne_eq, List.rdropWhile_eq_nil_iff, isEmpty_splitOn]
    simpa using hne
  rw [split, String.toList_ofList, if_pos (by simp), hs]
  exact congrArg (·.map String.ofList) (rdropWhile_cons hkept)

/-- The first of the parts, where there is a character beside the separator. -/
theorem head?_rdropWhile_splitOn (sep : Char) (l : List Char) :
    ((l.splitOn sep).rdropWhile List.isEmpty).head? =
      if ∃ c ∈ l, c ≠ sep then some (l.takeWhile (· ≠ sep)) else none := by
  by_cases h : ∃ c ∈ l, c ≠ sep
  · have hne : (l.splitOn sep).rdropWhile List.isEmpty ≠ [] := by
      rw [ne_eq, List.rdropWhile_eq_nil_iff, isEmpty_splitOn]
      simpa using h
    obtain ⟨rest, hrest⟩ := List.rdropWhile_prefix List.isEmpty (l := l.splitOn sep)
    have hhead := congrArg List.head? hrest
    rw [head?_splitOn, List.head?_append_of_ne_nil _ hne] at hhead
    rw [if_pos h, hhead]
  · have hnil : (l.splitOn sep).rdropWhile List.isEmpty = [] := by
      rw [List.rdropWhile_eq_nil_iff, isEmpty_splitOn]
      simpa using h
    rw [if_neg h, hnil]
    rfl

/-- The first part ends at the first separator; there is none in a text of
separators alone. -/
theorem head?_split (sep : Char) (l : List Char) :
    (split sep (String.ofList l)).head? =
      if l ≠ [] ∧ ∀ c ∈ l, c = sep then none else some (String.ofList (l.takeWhile (· ≠ sep))) := by
  rw [split, String.toList_ofList]
  by_cases hsep : sep ∈ l
  · have hne : l ≠ [] := List.ne_nil_of_mem hsep
    have hhead := head?_rdropWhile_splitOn sep l
    rw [if_pos hsep, List.head?_map]
    show (((l.splitOn sep).rdropWhile List.isEmpty).head?).map _ = _
    rw [hhead]
    by_cases h : ∃ c ∈ l, c ≠ sep
    · have hall : ¬ ∀ c ∈ l, c = sep := by simpa using h
      simp [h, hall]
    · have hall : ∀ c ∈ l, c = sep := by simpa using h
      rw [if_neg h, if_pos ⟨hne, hall⟩]
      rfl
  · have hall : ¬ (l ≠ [] ∧ ∀ c ∈ l, c = sep) := by
      rintro ⟨hne, h⟩
      obtain ⟨c, hc⟩ := List.exists_mem_of_ne_nil l hne
      exact hsep (h c hc ▸ hc)
    have htake : l.takeWhile (· ≠ sep) = l := by
      rw [List.takeWhile_eq_self_iff]
      intro c hc
      simpa using fun he : c = sep => hsep (he ▸ hc)
    rw [if_neg hsep, if_neg hall, htake]
    rfl

/-! ### Joining -/

/-- `StringUtils.join` with a character between the parts. -/
def join (sep : Char) (parts : List String) : String := (String.singleton sep).intercalate parts

theorem toList_join (sep : Char) (parts : List String) :
    (join sep parts).toList = [sep].intercalate (parts.map String.toList) := by
  unfold join
  rw [String.toList_intercalate, String.toList_singleton]

/-- A join begins with its first part. -/
theorem exists_join_cons (sep : Char) (s : String) (parts : List String) :
    ∃ more, (join sep (s :: parts)).toList = s.toList ++ more := by
  rw [toList_join, List.map_cons]
  rcases parts with _ | ⟨t, parts⟩
  · exact ⟨[], by simp⟩
  · rw [List.map_cons, List.intercalate_cons_cons, List.append_assoc]
    exact ⟨_, rfl⟩

theorem not_mem_of_mem_splitOn {sep : Char} {l part : List Char} (h : part ∈ l.splitOn sep) :
    sep ∉ part := by
  induction l generalizing part with
  | nil => simp_all
  | cons c l ih =>
    rw [List.splitOn_cons_eq_if_modifyHead] at h
    obtain ⟨first, parts, hl⟩ := List.exists_cons_of_ne_nil (List.splitOn_ne_nil sep l)
    have hfirst : sep ∉ first := ih (hl ▸ List.mem_cons_self)
    split at h
    · rcases List.mem_cons.mp h with rfl | h
      · exact List.not_mem_nil
      · exact ih h
    · rename_i hc
      rw [hl, List.modifyHead_cons, List.mem_cons] at h
      rcases h with rfl | h
      · intro hmem
        rcases List.mem_cons.mp hmem with rfl | hmem
        · exact hc (beq_self_eq_true _)
        · exact hfirst hmem
      · exact ih (hl ▸ List.mem_cons_of_mem _ h)

/-- The parts left are the first of all of them. -/
theorem split_isPrefix {sep : Char} {s : String} (h : sep ∈ s.toList) :
    split sep s <+: (s.toList.splitOn sep).map String.ofList := by
  have hpre : (s.toList.splitOn sep).rdropWhile List.isEmpty <+: s.toList.splitOn sep :=
    List.rdropWhile_prefix ..
  unfold split
  rw [if_pos h]
  exact List.IsPrefix.map String.ofList hpre

/-- No part has the separator. -/
theorem not_mem_of_mem_split {sep : Char} {s part : String} (h : part ∈ split sep s) :
    sep ∉ part.toList := by
  by_cases hsep : sep ∈ s.toList
  · obtain ⟨l, hl, rfl⟩ := List.mem_map.mp (List.IsPrefix.subset (split_isPrefix hsep) h)
    rw [String.toList_ofList]
    exact not_mem_of_mem_splitOn hl
  · rw [split_of_not_mem hsep] at h
    rwa [List.mem_singleton.mp h]

/-- Of parts without the separator the empty ones at the end are lost, unless there is only
one part. -/
theorem split_join {sep : Char} {parts : List String} (hne : parts ≠ [])
    (h : ∀ s ∈ parts, sep ∉ s.toList) :
    split sep (join sep parts) = if parts.length = 1 then parts else parts.rdropWhile (· = "") := by
  obtain ⟨s, rest, rfl⟩ := List.exists_cons_of_ne_nil hne
  rcases rest with _ | ⟨s', rest⟩
  · have hjoin : join sep [s] = s := String.intercalate_singleton
    rw [hjoin, split_of_not_mem (h s List.mem_cons_self)]
    rfl
  · have hsep : sep ∈ (join sep (s :: s' :: rest)).toList := by
      rw [toList_join]
      simp
    have hparts : (join sep (s :: s' :: rest)).toList.splitOn sep =
        (s :: s' :: rest).map String.toList := by
      rw [toList_join]
      refine List.splitOn_intercalate sep (fun l hl => ?_) (by simp)
      obtain ⟨t, ht, rfl⟩ := List.mem_map.mp hl
      exact h t ht
    have hempty : (List.isEmpty ∘ String.toList) = fun s : String => decide (s = "") := by
      funext s
      rw [Function.comp_apply, Bool.eq_iff_iff, List.isEmpty_iff, String.toList_eq_nil_iff,
        decide_eq_true_iff]
    rw [split, if_pos hsep, hparts, if_neg (by simp)]
    unfold List.rdropWhile
    rw [← List.map_reverse, List.dropWhile_map, ← List.map_reverse, List.map_map, hempty]
    simp

/-- **Parts come back** from their join if and only if none has the separator, and the last
one is not empty unless it is the only one. -/
theorem split_join_iff {sep : Char} {parts : List String} (hne : parts ≠ []) :
    split sep (join sep parts) = parts ↔
      (∀ s ∈ parts, sep ∉ s.toList) ∧ (parts.length = 1 ∨ parts.getLast? ≠ some "") := by
  constructor
  · intro h
    have hsep : ∀ s ∈ parts, sep ∉ s.toList := fun s hs => not_mem_of_mem_split (h ▸ hs)
    refine ⟨hsep, ?_⟩
    by_contra hcon
    obtain ⟨hlen, hlast⟩ := not_or.mp hcon
    rw [split_join hne hsep, if_neg hlen, List.rdropWhile_eq_self_iff] at h
    rw [not_ne_iff, List.getLast?_eq_some_getLast hne, Option.some.injEq] at hlast
    exact h hne (by simpa using hlast)
  · rintro ⟨hsep, hlen⟩
    rw [split_join hne hsep]
    split
    · rfl
    · rename_i hlen'
      rw [List.rdropWhile_eq_self_iff]
      intro hne' hlast
      have hlast' : parts.getLast hne' = "" := by simpa using hlast
      exact (hlen.resolve_left hlen') (by rw [List.getLast?_eq_some_getLast hne', hlast'])

/-- The text before the last separator, and after it; all of it is after where
there is none. -/
def splitLast (sep : Char) (s : String) : String × String :=
  let last := s.toList.rtakeWhile (· ≠ sep)
  (String.ofList (s.toList.take (s.toList.length - last.length - 1)), String.ofList last)

theorem splitLast_of_not_mem {sep : Char} {s : String} (h : sep ∉ s.toList) :
    splitLast sep s = ("", s) := by
  have hl : s.toList.rtakeWhile (· ≠ sep) = s.toList := by
    rw [List.rtakeWhile_eq_self_iff]
    intro x hx
    simpa using fun he : x = sep => h (he ▸ hx)
  simp only [splitLast, hl, Nat.sub_self]
  simp

theorem splitLast_append {sep : Char} {s t : String} (h : sep ∉ t.toList) :
    splitLast sep (s ++ String.singleton sep ++ t) = (s, t) := by
  have hl : (s ++ String.singleton sep ++ t).toList = s.toList ++ sep :: t.toList := by simp
  have ht : (s.toList ++ sep :: t.toList).rtakeWhile (· ≠ sep) = t.toList := by
    rw [List.rtakeWhile, List.reverse_append, List.reverse_cons, List.append_assoc,
      List.takeWhile_append_of_pos]
    · simp
    · intro x hx
      simpa using fun he : x = sep => h (he ▸ List.mem_reverse.mp hx)
  have hn : (s.toList ++ sep :: t.toList).length - t.toList.length - 1 = s.toList.length := by
    simp only [List.length_append, List.length_cons]
    omega
  simp only [splitLast, hl, ht, hn, List.take_left' rfl, String.ofList_toList]

/-- `indexOf(part) >= 0`. -/
def contains (s part : String) : Bool := s.toList.tails.any (part.toList.isPrefixOf ·)

/-- `substring(0, index)` at the first `c`, if that is not at the start. -/
def cutAt (c : Char) (s : String) : String :=
  let index := s.toList.idxOf c
  if 0 < index then String.ofList (s.toList.take index) else s

theorem idxOf_append_cons {c : Char} {a more : List Char} (h : c ∉ a) :
    (a ++ c :: more).idxOf c = a.length := by
  rw [List.idxOf_append_of_notMem h]
  simp

/-- What stands before the first `c` is left, unless that is nothing. -/
theorem cutAt_append_cons {c : Char} {a more : List Char} (h : c ∉ a) :
    cutAt c (String.ofList (a ++ c :: more)) = String.ofList (if a = [] then c :: more else a) := by
  simp only [cutAt, String.toList_ofList, idxOf_append_cons h, List.take_left]
  rcases a with _ | ⟨x, a⟩
  · rfl
  · rfl

theorem cutAt_of_not_mem {c : Char} {w : List Char} (h : c ∉ w) :
    cutAt c (String.ofList w) = String.ofList w := by
  simp only [cutAt, String.toList_ofList, List.idxOf_eq_length h, List.take_length, ite_self]

example : split '.' "alter table a.b" = ["alter table a", "b"] := by decide

example : split ' ' " a  " = ["", "a"] := by decide

end JavaString
end CloudManager
