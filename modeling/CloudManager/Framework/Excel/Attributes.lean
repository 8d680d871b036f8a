/-
# Annotated fields and the header of a sheet

`SheetBeanCache` collects the annotations of a class by group, in maps by the name of
the field: of several annotations of a group on one field the last one stays
(`values_initSheetBean`). `getSubTitle` puts each definition under the columns whose
header is its title (`definitionsAt_getSubTitle`).
-/
import Mathlib.Data.List.Nodup
import CloudManager.Lib.Sequences
import CloudManager.Framework.Excel.Import

namespace CloudManager
namespace Framework
namespace Excel

open Sequences

/-! ### Annotations -/

structure CellAttribute where
  title : String := ""
  defaultValue : String := ""
  ofName : String := ""
  cellIndex : ℤ := -1
  gorup : String := "default"
  parameters : List String := []
  allowRepeat : Bool := true
  repeatTemplate : String := ""
  allowBlank : Bool := true
  blankTemplate : String := ""
  /-- The class of the converter, if not the default one. -/
  readConverter : Option String := none

/-- A field of a class, with its annotations. -/
structure Field (J : Type*) where
  name : String
  javaType : J
  cellAttributes : List CellAttribute := []
  cellAttribute : Option CellAttribute := none

variable {N D J V : Type*}

def Field.attributes (field : Field J) : List CellAttribute :=
  field.cellAttributes ++ field.cellAttribute.toList

def Field.definition (field : Field J) (cellAttribute : CellAttribute) : CellBeanDefinition J where
  name := field.name
  javaType := field.javaType
  title := cellAttribute.title
  parameters := cellAttribute.parameters
  defaultValue := cellAttribute.defaultValue
  ofName := cellAttribute.ofName
  allowRepeat := cellAttribute.allowRepeat
  allowBlank := cellAttribute.allowBlank
  read := cellAttribute.readConverter
  cellIndex := cellAttribute.cellIndex
  blankTemplate := cellAttribute.blankTemplate
  repeatTemplate := cellAttribute.repeatTemplate

/-- The definitions by group and field. -/
abbrev Property (J : Type*) := LinkedHashMap String (LinkedHashMap String (CellBeanDefinition J))

def parse (field : Field J) (property : Property J) (cellAttribute : CellAttribute) : Property J :=
  property.put cellAttribute.gorup (((property.get cellAttribute.gorup).getD .empty).put field.name
    (field.definition cellAttribute))

def initSheetBean (fields : List (Field J)) : Property J :=
  fields.foldl (fun property field => field.attributes.foldl (parse field) property) .empty

/-! ### The header -/

variable (poi : Poi N D) (conv : Converters N J V)

def getSubTitieRow (row : Row N D) : Option (List (ℕ × String)) :=
  (List.range row.length).mapM fun i => (readCell poi row i).map fun value => (i, textOf poi value)

def getSubTitle (group : LinkedHashMap String (CellBeanDefinition J)) (row : Row N D) :
    Option (List (ℤ × CellBeanDefinition J)) :=
  let definitions := group.entries.map Prod.snd
  (getSubTitieRow poi row).map fun displayTexts =>
    ((definitions.filter fun o => isBlank o.title).map fun o => (o.cellIndex, o)) ++
      displayTexts.flatMap fun t =>
        (definitions.filter fun o => !isBlank o.title && o.title = t.2).map fun o => (t.1 + 1, o)

/-- The row at `getSubTitleIndex`. -/
def subTitleRow (sheetBean : SheetBean J) (sheet : Sheet N D) : Option (Row N D) :=
  if getSubTitleIndex sheetBean < 0 then none
  else sheet.rows[(getSubTitleIndex sheetBean).toNat]?.join

/-- What an import of beans sets: the beans, each with its row, and the errors. -/
structure Imported (N D J V : Type*) where
  data : List ((ℕ × Row N D) × Bean N V)
  error : List (Report J)

/-- `imports`, for beans with the titles of the sheet. -/
def importBeans (fields : List (Field J)) (sheetBean : SheetBean J) (sheet : Sheet N D) :
    Option (Imported N D J V) :=
  ((initSheetBean fields).get sheetBean.gorup).bind fun group =>
    (subTitleRow sheetBean sheet).bind fun row =>
      (getSubTitle poi group row).bind fun multimap =>
        (getDisplayText poi conv sheetBean multimap sheet).bind fun displayTexts =>
          (getData conv (displayTexts.map Prod.snd)).map fun data =>
            { data := (displayTexts.map Prod.fst).zip data
              error := (validateBean poi conv sheet.sheetName multimap
                (displayTexts.map Prod.snd)).reports }

/-! ### The definitions of a group -/

/-- The annotations of a group on a field, as definitions. -/
def Field.definitions (field : Field J) (group : String) : List (CellBeanDefinition J) :=
  (field.attributes.filter (·.gorup = group)).map field.definition

/-- All annotations of a group. -/
def definitions (fields : List (Field J)) (group : String) : List (CellBeanDefinition J) :=
  fields.flatMap (·.definitions group)

/-- Each field's last annotation of the group. -/
def lastOfFields (fields : List (Field J)) (group : String) : List (CellBeanDefinition J) :=
  fields.filterMap fun field => (field.definitions group).getLast?

/-- An annotation of a group is put into the map of the group. -/
def putDefinition (m : Option (LinkedHashMap String (CellBeanDefinition J)))
    (o : CellBeanDefinition J) : Option (LinkedHashMap String (CellBeanDefinition J)) :=
  some ((m.getD .empty).put o.name o)

variable {fields : List (Field J)} {group : String}

theorem get_parse (field : Field J) (property : Property J) (attributes : List CellAttribute) :
    (attributes.foldl (parse field) property).get group =
      ((attributes.filter (·.gorup = group)).map field.definition).foldl putDefinition
        (property.get group) := by
  induction attributes generalizing property with
  | nil => rfl
  | cons a attributes ih =>
    rw [List.foldl_cons, ih, parse, LinkedHashMap.get_put]
    by_cases ha : a.gorup = group
    · subst ha
      simp [putDefinition, Field.definition]
    · rw [if_neg fun h => ha h.symm]
      simp [ha]

theorem get_initSheetBean_foldl (property : Property J) :
    (fields.foldl (fun property field => field.attributes.foldl (parse field) property)
        property).get group =
      (definitions fields group).foldl putDefinition (property.get group) := by
  induction fields generalizing property with
  | nil => rfl
  | cons field fields ih =>
    rw [List.foldl_cons, ih, get_parse]
    simp [definitions, Field.definitions, List.foldl_append]

theorem foldl_putDefinition (m : LinkedHashMap String (CellBeanDefinition J))
    (os : List (CellBeanDefinition J)) :
    os.foldl putDefinition (some m) = some (m.putAll (os.map fun o => (o.name, o))) := by
  induction os generalizing m with
  | nil => rfl
  | cons o os ih => exact ih (m.put o.name o)

/-- The map of a group, if there is an annotation of it. -/
theorem get_initSheetBean :
    (initSheetBean fields).get group = if (definitions fields group).isEmpty then none else
      some (LinkedHashMap.empty.putAll ((definitions fields group).map fun o => (o.name, o))) := by
  rw [initSheetBean, get_initSheetBean_foldl]
  cases definitions fields group with
  | nil => rfl
  | cons o os => exact foldl_putDefinition (LinkedHashMap.empty.put o.name o) os

variable {m : LinkedHashMap String (CellBeanDefinition J)} {o : CellBeanDefinition J}

theorem mem_definitions {field : Field J} (h : o ∈ field.definitions group) : o.name = field.name := by
  obtain ⟨a, -, rfl⟩ := List.mem_map.mp h
  rfl

/-- Of each field with a name of its own the last annotation stays. -/
theorem entries_definitions (hnames : (fields.map (·.name)).Nodup)
    (hm : ∀ field ∈ fields, field.name ∉ m.keys) :
    (m.putAll ((definitions fields group).map fun o => (o.name, o))).entries =
      m.entries ++ (lastOfFields fields group).map fun o => (o.name, o) := by
  induction fields generalizing m with
  | nil => exact (List.append_nil _).symm
  | cons field fields ih =>
    obtain ⟨hnot, hnames⟩ := List.nodup_cons.mp hnames
    obtain ⟨hfield, hfields⟩ := List.forall_mem_cons.mp hm
    have hkey : ∀ e ∈ (field.definitions group).map fun o => (o.name, o), e.1 = field.name := by
      intro e he
      obtain ⟨o, ho, rfl⟩ := List.mem_map.mp he
      exact mem_definitions ho
    rw [definitions, List.flatMap_cons, List.map_append, LinkedHashMap.putAll_append,
      LinkedHashMap.putAll_of_key hkey, List.getLast?_map, lastOfFields, List.filterMap_cons]
    cases ho : (field.definitions group).getLast? with
    | none => exact ih hnames hfields
    | some o =>
      have hname : o.name = field.name := mem_definitions (List.mem_of_getLast? ho)
      have hput : (m.put field.name o).entries = m.entries ++ [(o.name, o)] := by
        rw [hname]
        exact LinkedHashMap.putEntry_of_not_mem o hfield
      have hkeys : ∀ f ∈ fields, f.name ∉ (m.put field.name o).keys := by
        intro f hf hmem
        rw [LinkedHashMap.keys_put, if_neg hfield] at hmem
        obtain hmem | hmem := List.mem_append.mp hmem
        · exact hfields f hf hmem
        · exact hnot (List.mem_map.mpr ⟨f, hf, List.mem_singleton.mp hmem⟩)
      refine (ih hnames hkeys).trans ?_
      rw [hput, List.map_cons, List.append_assoc]
      rfl

theorem entries_initSheetBean (hnames : (fields.map (·.name)).Nodup)
    (h : (initSheetBean fields).get group = some m) :
    m.entries = (lastOfFields fields group).map fun o => (o.name, o) := by
  rw [get_initSheetBean] at h
  split at h
  · cases h
  obtain rfl := Option.some.inj h
  exact entries_definitions hnames fun _ _ => List.not_mem_nil

theorem values_initSheetBean (hnames : (fields.map (·.name)).Nodup)
    (h : (initSheetBean fields).get group = some m) :
    m.entries.map Prod.snd = lastOfFields fields group := by
  rw [entries_initSheetBean hnames h, List.map_map]
  exact List.map_id' _

/-- The names are the keys of the map. -/
theorem nodup_name_initSheetBean (hnames : (fields.map (·.name)).Nodup)
    (h : (initSheetBean fields).get group = some m) :
    ((m.entries.map Prod.snd).map (·.name)).Nodup := by
  have hkeys := m.nodup
  rw [entries_initSheetBean hnames h] at hkeys ⊢
  simpa [Function.comp_def] using hkeys

/-- The annotations that stay are among those of the group, in their order. -/
theorem lastOfFields_sublist (fields : List (Field J)) (group : String) :
    (lastOfFields fields group).Sublist (definitions fields group) := by
  induction fields with
  | nil => exact List.Sublist.slnil
  | cons field fields ih =>
    rw [lastOfFields, List.filterMap_cons, definitions, List.flatMap_cons]
    cases ho : (field.definitions group).getLast? with
    | none => exact ih.trans (List.sublist_append_right _ _)
    | some o =>
      exact (List.singleton_sublist.mpr (List.mem_of_getLast? ho)).append ih

theorem nodup_lastOfFields (hpaths : ((definitions fields group).map (·.path)).Nodup) :
    ((lastOfFields fields group).map (·.path)).Nodup :=
  hpaths.sublist ((lastOfFields_sublist fields group).map _)

/-- Definitions of a group with the same path are the same. -/
theorem eq_of_path {os : List (CellBeanDefinition J)} (hpaths : (os.map (·.path)).Nodup)
    {o o' : CellBeanDefinition J} (ho : o ∈ os) (ho' : o' ∈ os) (h : o.path = o'.path) : o = o' :=
  List.inj_on_of_nodup_map hpaths ho ho' h

/-! ### The columns of a definition -/

variable {poi} {row : Row N D} {multimap : List (ℤ × CellBeanDefinition J)}

/-- The text that a header is read as. -/
def titleAt (poi : Poi N D) (row : Row N D) (i : ℕ) : Option String :=
  (readCell poi row i).map (textOf poi)

theorem mem_getSubTitieRow {texts : List (ℕ × String)} (h : getSubTitieRow poi row = some texts)
    {i : ℕ} {s : String} : (i, s) ∈ texts ↔ i < row.length ∧ titleAt poi row i = some s := by
  rw [mem_of_mapM h]
  simp only [List.mem_range, titleAt, Option.map_eq_some_iff]
  constructor
  · rintro ⟨j, hj, v, hv, he⟩
    obtain ⟨rfl, rfl⟩ := Prod.mk.inj he
    exact ⟨hj, v, hv, rfl⟩
  · rintro ⟨hi, v, hv, rfl⟩
    exact ⟨i, hi, v, hv, rfl⟩

/-- The annotation is for the cells at an index: it gives their column, or has the title
that their header is read as. -/
def forCell (poi : Poi N D) (header : Row N D) (o : CellBeanDefinition J) (i : ℕ) : Bool :=
  if isBlank o.title then o.cellIndex = i + 1
  else i < header.length && titleAt poi header i = some o.title

/-- The annotations for the cells at an index: those that give the column before those with
the title, each in the order of the fields. -/
def annotationsAt (poi : Poi N D) (fields : List (Field J)) (group : String) (header : Row N D)
    (i : ℕ) : List (CellBeanDefinition J) :=
  ((lastOfFields fields group).filter fun o => isBlank o.title && forCell poi header o i) ++
    (lastOfFields fields group).filter fun o => !isBlank o.title && forCell poi header o i

theorem isSome_getSubTitle : (getSubTitle poi m row).isSome = true ↔
    ∀ i < row.length, readableAt poi row i = true := by
  rw [getSubTitle, Option.isSome_map, getSubTitieRow, isSome_mapM]
  simp [isSome_readCell]

theorem mem_getSubTitle (h : getSubTitle poi m row = some multimap) {k : ℤ} :
    (k, o) ∈ multimap ↔ o ∈ m.entries.map Prod.snd ∧
      (isBlank o.title = true ∧ k = o.cellIndex ∨ ∃ i : ℕ, forCell poi row o i = true ∧ k = i + 1) := by
  obtain ⟨texts, htexts, rfl⟩ := Option.map_eq_some_iff.mp h
  simp only [List.mem_append, List.mem_flatMap, List.mem_map, List.mem_filter, Prod.mk.injEq,
    Bool.and_eq_true, Bool.not_eq_true', decide_eq_true_eq]
  constructor
  · rintro (⟨o', ⟨ho, hb⟩, rfl, rfl⟩ | ⟨⟨i, s⟩, ht, o', ⟨ho, hb, rfl⟩, rfl, rfl⟩)
    · exact ⟨ho, .inl ⟨hb, rfl⟩⟩
    · obtain ⟨hi, hs⟩ := (mem_getSubTitieRow htexts).mp ht
      exact ⟨ho, .inr ⟨i, by simp [forCell, hb, hi, hs], rfl⟩⟩
  · rintro ⟨ho, ⟨hb, rfl⟩ | ⟨i, hi, rfl⟩⟩
    · exact .inl ⟨o, ⟨ho, hb⟩, rfl, rfl⟩
    · unfold forCell at hi
      split at hi
      · rename_i hb
        exact .inl ⟨o, ⟨ho, hb⟩, of_decide_eq_true hi, rfl⟩
      · rename_i hb
        obtain ⟨hlt, hs⟩ : i < row.length ∧ titleAt poi row i = some o.title := by simpa using hi
        exact .inr ⟨(i, o.title), (mem_getSubTitieRow htexts).mpr ⟨hlt, hs⟩, o,
          ⟨ho, by simpa using hb, rfl⟩, rfl, rfl⟩

theorem nodup_getSubTitieRow {texts : List (ℕ × String)} (h : getSubTitieRow poi row = some texts) :
    (texts.map Prod.fst).Nodup := by
  have hfst : texts.map Prod.fst = (List.range row.length).map id := by
    refine map_of_mapM h fun i _ t ht => ?_
    obtain ⟨v, -, rfl⟩ := Option.map_eq_some_iff.mp ht
    rfl
  rw [hfst, List.map_id]
  exact List.nodup_range

/-- The definitions of a column are the annotations for its cells, in their order. -/
theorem definitionsAt_getSubTitle (h : getSubTitle poi m row = some multimap)
    (hm : m.entries.map Prod.snd = lastOfFields fields group) (i : ℕ) :
    definitionsAt multimap ((i : ℤ) + 1) = annotationsAt poi fields group row i := by
  obtain ⟨texts, htexts, rfl⟩ := Option.map_eq_some_iff.mp h
  have htitled : (texts.map fun t => ((m.entries.map Prod.snd).filter fun o =>
        !isBlank o.title && o.title = t.2).map fun o => ((t.1 : ℤ) + 1, o)) =
      (List.range row.length).map fun j => ((m.entries.map Prod.snd).filter fun o =>
        !isBlank o.title && titleAt poi row j = some o.title).map fun o => ((j : ℤ) + 1, o) := by
    refine map_of_mapM htexts fun j _ t ht => ?_
    obtain ⟨v, hv, rfl⟩ := Option.map_eq_some_iff.mp ht
    simp [titleAt, hv, eq_comm]
  have hcolumn : ∀ j : ℕ, ((((lastOfFields fields group).filter fun o =>
        !isBlank o.title && titleAt poi row j = some o.title).map fun o => ((j : ℤ) + 1, o)).filter
          fun f => decide (f.1 = (i : ℤ) + 1)).map Prod.snd =
      if j = i then (lastOfFields fields group).filter fun o =>
        !isBlank o.title && titleAt poi row j = some o.title else [] := by
    intro j
    by_cases hji : j = i
    · simp [hji, List.filter_map, Function.comp_def]
    · rw [if_neg hji, List.filter_eq_nil_iff.mpr, List.map_nil]
      intro f hf
      obtain ⟨o, -, rfl⟩ := List.mem_map.mp hf
      rw [decide_eq_true_eq]
      omega
  rw [List.flatMap_def, htitled, ← List.flatMap_def, hm, definitionsAt, List.filter_append,
    List.map_append, List.filter_flatMap, List.map_flatMap]
  simp only [hcolumn]
  rw [flatMap_ite_eq List.nodup_range, annotationsAt, List.filter_map, List.map_map]
  congr 1
  · refine (List.map_id' _).trans ?_
    rw [List.filter_filter]
    refine List.filter_congr fun o _ => ?_
    by_cases hb : isBlank o.title = true <;> simp [hb, forCell]
  · by_cases hi : i < row.length
    · rw [if_pos (List.mem_range.mpr hi)]
      refine List.filter_congr fun o _ => ?_
      by_cases hb : isBlank o.title = true <;> simp [hb, hi, forCell]
    · rw [if_neg fun hmem => hi (List.mem_range.mp hmem)]
      refine (List.filter_eq_nil_iff.mpr fun o _ => ?_).symm
      by_cases hb : isBlank o.title = true <;> simp [hb, hi, forCell]

/-- A column has a definition once, by its name or by its path. -/
theorem nodup_getSubTitle {α : Type*} {key : CellBeanDefinition J → α}
    (hkeys : ((m.entries.map Prod.snd).map key).Nodup) (h : getSubTitle poi m row = some multimap) :
    (multimap.map fun f => (f.1, key f.2)).Nodup := by
  obtain ⟨texts, htexts, rfl⟩ := Option.map_eq_some_iff.mp h
  have hinj := List.inj_on_of_nodup_map hkeys
  have hpart : ∀ (p : CellBeanDefinition J → Bool) (g : CellBeanDefinition J → ℤ),
      (((m.entries.map Prod.snd).filter p).map fun o => (g o, key o)).Nodup := by
    intro p g
    refine List.Nodup.of_map Prod.snd ?_
    rw [List.map_map]
    exact hkeys.sublist (List.filter_sublist.map _)
  rw [List.map_append, List.map_flatMap, List.map_map]
  refine List.nodup_append.mpr ⟨hpart _ _, List.nodup_flatMap.mpr ⟨fun t _ => ?_, ?_⟩, ?_⟩
  · rw [List.map_map]
    exact hpart _ fun _ => t.1 + 1
  · have hfst := nodup_getSubTitieRow htexts
    rw [List.nodup_iff_pairwise_ne, List.pairwise_map] at hfst
    refine hfst.imp fun {t t'} hne e he he' => hne ?_
    obtain ⟨f, hf, rfl⟩ := List.mem_map.mp he
    obtain ⟨o, -, rfl⟩ := List.mem_map.mp hf
    obtain ⟨f', hf', hk⟩ := List.mem_map.mp he'
    obtain ⟨o', -, rfl⟩ := List.mem_map.mp hf'
    have hk : (t'.1 : ℤ) + 1 = t.1 + 1 := congrArg Prod.fst hk
    omega
  · rintro e he e' he' rfl
    obtain ⟨o, ho, rfl⟩ := List.mem_map.mp he
    obtain ⟨t, -, ht⟩ := List.mem_flatMap.mp he'
    obtain ⟨f, hf, hk⟩ := List.mem_map.mp ht
    obtain ⟨o', ho', rfl⟩ := List.mem_map.mp hf
    obtain ⟨ho, hb⟩ := List.mem_filter.mp ho
    obtain ⟨ho', hb'⟩ := List.mem_filter.mp ho'
    obtain rfl : o' = o := hinj ho' ho (congrArg Prod.snd hk)
    simp [hb] at hb'

end Excel
end Framework
end CloudManager
