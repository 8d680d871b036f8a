/-
# What a row has in a column

The definitions of a column take their turns on one text: each sets its default for a
blank value, which stays for the ones after it, and then makes its object of the value
(`readDefinitions_eq`).
-/
import Mathlib.Data.List.Dedup
import CloudManager.Lib.Sequences
import CloudManager.Framework.Excel.Import

namespace CloudManager
namespace Framework
namespace Excel

open Sequences

variable {N D J V : Type*} {poi : Poi N D} {conv : Converters N J V}
  {multimap : List (ℤ × CellBeanDefinition J)} {o : CellBeanDefinition J} {k : ℤ}

/-! ### The columns of a multimap -/

theorem mem_definitionsAt : o ∈ definitionsAt multimap k ↔ (k, o) ∈ multimap := by
  simp only [definitionsAt, List.mem_map, List.mem_filter, decide_eq_true_eq]
  constructor
  · rintro ⟨⟨j, p⟩, ⟨hm, rfl⟩, rfl⟩
    exact hm
  · exact fun h => ⟨(k, o), ⟨h, rfl⟩, rfl⟩

theorem mem_columnsIndex : k ∈ columnsIndex multimap ↔ ∃ o, (k, o) ∈ multimap := by
  simp [columnsIndex, List.mem_dedup]

/-- Each column once, from left to right. -/
theorem pairwise_columnsIndex (multimap : List (ℤ × CellBeanDefinition J)) :
    (columnsIndex multimap).Pairwise (· < ·) := by
  have hle : (columnsIndex multimap).Pairwise (· ≤ ·) := List.pairwise_insertionSort _ _
  have hnd : (columnsIndex multimap).Nodup :=
    (List.perm_insertionSort _ _).nodup_iff.mpr (List.nodup_dedup _)
  exact hle.imp₂ (fun _ _ hle hne => lt_of_le_of_ne hle hne) (List.nodup_iff_pairwise_ne.mp hnd)

/-! ### The turns of the definitions -/

def CellBeanDefinition.hasDefault (o : CellBeanDefinition J) : Bool := !isBlank o.defaultValue

/-- The default of the definition, if it has one. -/
def CellBeanDefinition.ownDefault (o : CellBeanDefinition J) : Option String :=
  if o.hasDefault then some o.defaultValue else none

/-- The first default of the definitions, if one has one. -/
def firstDefault (os : List (CellBeanDefinition J)) : Option String :=
  (os.find? (·.hasDefault)).map (·.defaultValue)

/-- The value with the first default, if it is blank. -/
def filled (poi : Poi N D) (definitions : List (CellBeanDefinition J)) (v : Option (Value N)) :
    Option (Value N) :=
  if blankValue poi v then
    ((definitions.find? fun o => !isBlank o.defaultValue).map fun o => .string o.defaultValue).or v
  else v

/-- The date of a text. -/
def dateOf (poi : Poi N D) (conv : Converters N J V) (value : Option (Value N)) : Option (Obj N V) :=
  match value with
  | none => none
  | some v => if isBlank (v.toString poi) then none else (conv.parseDate (v.toString poi)).map .other

/-- What is made of a value for a definition. -/
def parsed (poi : Poi N D) (conv : Converters N J V) (o : CellBeanDefinition J)
    (value : Option (Value N)) : Option (Obj N V) :=
  match o.read with
  | some read => conv.read read o value
  | none => if conv.isDate o.javaType then dateOf poi conv value else value.map .value

/-- The definitions of a column, each with what is made of the value at its turn. -/
def turns (poi : Poi N D) (conv : Converters N J V) :
    List (CellBeanDefinition J) → Option (Value N) → List (CellBeanDefinition J × Option (Obj N V))
  | [], _ => []
  | o :: os, v => (o, parsed poi conv o (filled poi [o] v)) :: turns poi conv os (filled poi [o] v)

/-- The turns on a text. -/
def readDefinitions (poi : Poi N D) (conv : Converters N J V)
    (definitions : List (CellBeanDefinition J)) (d : DisplayText N J V) : DisplayText N J V :=
  definitions.foldl (fun d o => parseValue poi conv o (fillDefault poi o d)) d

/-- The value with the default of one definition. -/
theorem filled_singleton (o : CellBeanDefinition J) (v : Option (Value N)) :
    filled poi [o] v = if blankValue poi v then (o.ownDefault.map .string).or v else v := by
  unfold filled CellBeanDefinition.ownDefault CellBeanDefinition.hasDefault
  cases hd : isBlank o.defaultValue <;> simp [hd]

theorem filled_eq (os : List (CellBeanDefinition J)) (v : Option (Value N)) :
    filled poi os v = if blankValue poi v then ((firstDefault os).map .string).or v else v := by
  unfold filled firstDefault CellBeanDefinition.hasDefault
  rw [Option.map_map]
  rfl

theorem filled_nil (v : Option (Value N)) : filled poi ([] : List (CellBeanDefinition J)) v = v := by
  simp [filled]

theorem filled_cons (o : CellBeanDefinition J) (os : List (CellBeanDefinition J))
    (v : Option (Value N)) : filled poi (o :: os) v = filled poi os (filled poi [o] v) := by
  unfold filled
  by_cases hb : blankValue poi v = true
  · by_cases ho : isBlank o.defaultValue = true
    · simp [hb, ho]
    · simp [hb, ho, Value.toString]
  · simp [hb]

theorem filled_append (os os' : List (CellBeanDefinition J)) (v : Option (Value N)) :
    filled poi (os ++ os') v = filled poi os' (filled poi os v) := by
  induction os generalizing v with
  | nil => rw [List.nil_append, filled_nil]
  | cons o os ih => rw [List.cons_append, filled_cons, ih, ← filled_cons]

theorem turns_append (os os' : List (CellBeanDefinition J)) (v : Option (Value N)) :
    turns poi conv (os ++ os') v = turns poi conv os v ++ turns poi conv os' (filled poi os v) := by
  induction os generalizing v with
  | nil => rw [filled_nil]; rfl
  | cons o os ih => simp only [List.cons_append, turns, ih, ← filled_cons]

theorem mem_of_mem_turns {os : List (CellBeanDefinition J)} {v : Option (Value N)}
    {y : CellBeanDefinition J × Option (Obj N V)} (h : y ∈ turns poi conv os v) : y.1 ∈ os := by
  induction os generalizing v with
  | nil => cases h
  | cons o os ih =>
    obtain rfl | h := List.mem_cons.mp h
    · exact List.mem_cons_self
    · exact List.mem_cons_of_mem o (ih h)

theorem dateValue_fst (d : DisplayText N J V) : (d.dateValue poi conv).1 = dateOf poi conv d.value := by
  unfold DisplayText.dateValue dateOf
  cases d.value with
  | none => rfl
  | some v =>
    by_cases hb : isBlank (v.toString poi) = true
    · simp [hb]
    · cases hp : conv.parseDate (v.toString poi) <;> simp [hb, hp]

theorem fillDefault_eq (o : CellBeanDefinition J) (d : DisplayText N J V) :
    fillDefault poi o d = { d with value := filled poi [o] d.value } := by
  unfold fillDefault
  by_cases hb : blankValue poi d.value = true
  · by_cases ho : isBlank o.defaultValue = true <;> simp [filled, hb, ho]
  · simp [filled, hb]

/-- Only a date that cannot be parsed leaves an error. -/
theorem parseValue_eq (poi : Poi N D) (conv : Converters N J V) (o : CellBeanDefinition J)
    (d : DisplayText N J V) : ∃ error, parseValue poi conv o d =
      { d with propertyValue := d.propertyValue ++ [(o, parsed poi conv o d.value)], error := error } := by
  unfold parseValue parsed
  cases o.read with
  | some read => exact ⟨d.error, rfl⟩
  | none =>
    by_cases hd : conv.isDate o.javaType = true
    · refine ⟨(d.dateValue poi conv).2, ?_⟩
      simp only [hd, if_true, ← dateValue_fst]
    · exact ⟨d.error, by simp [hd]⟩

/-- After all turns: the first default for a blank value, and an object for each
definition. -/
theorem readDefinitions_eq (poi : Poi N D) (conv : Converters N J V)
    (os : List (CellBeanDefinition J)) (d : DisplayText N J V) :
    ∃ error, readDefinitions poi conv os d =
      { d with value := filled poi os d.value
               propertyValue := d.propertyValue ++ turns poi conv os d.value
               error := error } := by
  induction os generalizing d with
  | nil => exact ⟨d.error, by simp [readDefinitions, turns, filled_nil]⟩
  | cons o os ih =>
    obtain ⟨error, herror⟩ := parseValue_eq poi conv o (fillDefault poi o d)
    obtain ⟨error', herror'⟩ := ih (parseValue poi conv o (fillDefault poi o d))
    refine ⟨error', ?_⟩
    show readDefinitions poi conv os (parseValue poi conv o (fillDefault poi o d)) = _
    rw [herror', herror, fillDefault_eq]
    simp [turns, ← filled_cons]

/-! ### A column of a row -/

/-- The value that a row of beans has in a column: a default for a blank one. -/
def beanValue (poi : Poi N D) (multimap : List (ℤ × CellBeanDefinition J)) (row : Row N D) (k : ℤ) :
    Option (Value N) :=
  filled poi (definitionsAt multimap k) ((readCell poi row (k - 1).toNat).getD none)

/-- The text is that of a column of the row. -/
structure ColumnText (poi : Poi N D) (conv : Converters N J V)
    (multimap : List (ℤ × CellBeanDefinition J)) (x : ℕ × Row N D) (k : ℤ) (d : DisplayText N J V) :
    Prop where
  rowIndex : d.rowIndex = x.1
  cellIndex : (d.cellIndex : ℤ) + 1 = k
  value : d.value = beanValue poi multimap x.2 k
  propertyValue : d.propertyValue =
    turns poi conv (definitionsAt multimap k) ((readCell poi x.2 (k - 1).toNat).getD none)
  defaultFlag : d.defaultFlag = false

variable {x : ℕ × Row N D} {d : DisplayText N J V}

theorem columnText_readColumn (h : readColumn poi conv multimap x k = some d) :
    ColumnText poi conv multimap x k d := by
  unfold readColumn at h
  split at h
  · cases h
  rename_i hk
  obtain ⟨v, hv, rfl⟩ := Option.map_eq_some_iff.mp h
  obtain ⟨error, herror⟩ := readDefinitions_eq poi conv (definitionsAt multimap k)
    { rowIndex := x.1, cellIndex := (k - 1).toNat, value := v }
  have hcell : (((k - 1).toNat : ℕ) : ℤ) + 1 = k := by omega
  rw [readDefinitions] at herror
  rw [herror]
  exact ⟨rfl, hcell, by rw [beanValue, hv]; rfl, by rw [hv]; rfl, rfl⟩

theorem isSome_readColumn : (readColumn poi conv multimap x k).isSome = true ↔
    0 < k ∧ readableAt poi x.2 (k - 1).toNat = true := by
  unfold readColumn
  split
  · rename_i hk
    simp [not_lt.mpr hk]
  · rename_i hk
    rw [Option.isSome_map, isSome_readCell]
    simp [not_le.mp hk]

theorem isSome_getRow : (getRow poi conv multimap x).isSome = true ↔
    ∀ f ∈ multimap, 0 < f.1 ∧ readableAt poi x.2 (f.1 - 1).toNat = true := by
  unfold getRow
  rw [isSome_mapM]
  constructor
  · exact fun h f hf => isSome_readColumn.mp (h f.1 (mem_columnsIndex.mpr ⟨f.2, hf⟩))
  · intro h k hk
    obtain ⟨o, ho⟩ := mem_columnsIndex.mp hk
    exact isSome_readColumn.mpr (h _ ho)

variable {ds : List (DisplayText N J V)}

/-- The texts of a row are those of its columns. -/
theorem of_mem_getRow (h : getRow poi conv multimap x = some ds) (hd : d ∈ ds) :
    ∃ k o, (k, o) ∈ multimap ∧ ColumnText poi conv multimap x k d := by
  obtain ⟨k, hk, hcol⟩ := (mem_of_mapM h).mp hd
  obtain ⟨o, ho⟩ := mem_columnsIndex.mp hk
  exact ⟨k, o, ho, columnText_readColumn hcol⟩

theorem exists_mem_getRow (h : getRow poi conv multimap x = some ds) (ho : (k, o) ∈ multimap) :
    ∃ d ∈ ds, ColumnText poi conv multimap x k d := by
  have hread : (readColumn poi conv multimap x k).isSome = true :=
    isSome_readColumn.mpr (isSome_getRow.mp (Option.isSome_of_eq_some h) _ ho)
  obtain ⟨d, hd⟩ := Option.isSome_iff_exists.mp hread
  exact ⟨d, (mem_of_mapM h).mpr ⟨k, mem_columnsIndex.mpr ⟨o, ho⟩, hd⟩, columnText_readColumn hd⟩

end Excel
end Framework
end CloudManager
