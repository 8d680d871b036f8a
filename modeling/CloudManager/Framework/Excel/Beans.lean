/-
# Annotated attributes in beans

Each annotation of a group with a header in the sheet should have its property set to
what its cell is converted to, and a required one that is blank, or without its header,
should be reported. Annotations are lost where several are on one field, a header that is
missing is passed over, and defaults of one attribute are seen by the others of its
column: `mapped_iff` says for which classes and sheets nothing of that happens.
-/
import Mathlib.Data.Finset.Max
import Mathlib.Data.Set.Basic
import CloudManager.Framework.Excel.Attributes
import CloudManager.Framework.Excel.Duplicates

namespace CloudManager
namespace Framework
namespace Excel

open Sequences

variable {N D J V : Type*} {poi : Poi N D} {conv : Converters N J V}

/-! ### Setting properties -/

/-- A property that is set; with an exception nothing is. -/
def assign (t : Bean N V) (e : String × Option (Option (Obj N V))) : Option (Bean N V) :=
  e.2.map fun value => Function.update t e.1 (some value)

def assignments (conv : Converters N J V) (ds : List (DisplayText N J V)) :
    List (String × Option (Option (Obj N V))) :=
  ds.flatMap fun d => d.propertyValue.map fun x => (x.1.path, returnValue conv d x.1 x.2)

theorem foldlM_setProperties (ds : List (DisplayText N J V)) (t : Bean N V) :
    ds.foldlM (setProperties conv) t = (assignments conv ds).foldlM assign t := by
  induction ds generalizing t with
  | nil => rfl
  | cons d ds ih =>
    have hd : setProperties conv t d =
        (d.propertyValue.map fun x => (x.1.path, returnValue conv d x.1 x.2)).foldlM assign t := by
      rw [List.foldlM_map]
      rfl
    rw [List.foldlM_cons, hd, assignments, List.flatMap_cons, List.foldlM_append]
    exact bind_congr ih

variable {l : List (String × Option (Option (Obj N V)))} {t t' : Bean N V}

theorem isSome_foldlM_assign (h : ∀ e ∈ l, e.2.isSome = true) (t : Bean N V) :
    (l.foldlM assign t).isSome = true := by
  induction l generalizing t with
  | nil => rfl
  | cons e l ih =>
    obtain ⟨he, hl⟩ := List.forall_mem_cons.mp h
    obtain ⟨value, hv⟩ := Option.isSome_iff_exists.mp he
    rw [List.foldlM_cons, assign, hv]
    exact ih hl _

theorem foldlM_assign_of_ne (h : l.foldlM assign t = some t') {p : String}
    (hp : ∀ e ∈ l, e.1 ≠ p) : t' p = t p := by
  induction l generalizing t with
  | nil =>
    cases h
    rfl
  | cons e l ih =>
    obtain ⟨he, hl⟩ := List.forall_mem_cons.mp hp
    rw [List.foldlM_cons] at h
    obtain ⟨s, hs, h⟩ := Option.bind_eq_some_iff.mp h
    obtain ⟨value, -, rfl⟩ := Option.map_eq_some_iff.mp hs
    rw [ih h hl, Function.update_of_ne he.symm]

/-- What is set last stays. -/
theorem foldlM_assign_last {l' : List (String × Option (Option (Obj N V)))}
    {e : String × Option (Option (Obj N V))} (h : (l ++ e :: l').foldlM assign t = some t')
    (hl' : ∀ e' ∈ l', e'.1 ≠ e.1) : ∃ value, e.2 = some value ∧ t' e.1 = some value := by
  rw [List.foldlM_append] at h
  obtain ⟨s, -, h⟩ := Option.bind_eq_some_iff.mp h
  rw [List.foldlM_cons] at h
  obtain ⟨s', hs', h⟩ := Option.bind_eq_some_iff.mp h
  obtain ⟨value, hv, rfl⟩ := Option.map_eq_some_iff.mp hs'
  exact ⟨value, hv, by rw [foldlM_assign_of_ne h hl', Function.update_self]⟩

/-! ### The bean of a row -/

/-- The object of a property: the converter of the type, where there is one, is given the
value of the text. -/
def returned (conv : Converters N J V) (o : CellBeanDefinition J) (value : Option (Obj N V))
    (final : Option (Value N)) : Option (Option (Obj N V)) :=
  match conv.factory o.javaType with
  | some factory => factory o final
  | none => some value

/-- The definitions of a column up to the one with the path. -/
def upTo (o : CellBeanDefinition J) (os : List (CellBeanDefinition J)) : List (CellBeanDefinition J) :=
  (os.takeWhile fun o' => o'.path ≠ o.path) ++ [o]

/-- The value of a column at the turn of a definition: a default of it or of one before it
for a blank one. -/
def turnValue (poi : Poi N D) (multimap : List (ℤ × CellBeanDefinition J)) (row : Row N D) (k : ℤ)
    (o : CellBeanDefinition J) : Option (Value N) :=
  filled poi (upTo o (definitionsAt multimap k)) ((readCell poi row (k - 1).toNat).getD none)

/-- What a column of a row sets. -/
def columnAssignments (poi : Poi N D) (conv : Converters N J V)
    (multimap : List (ℤ × CellBeanDefinition J)) (row : Row N D) (k : ℤ) :
    List (String × Option (Option (Obj N V))) :=
  (turns poi conv (definitionsAt multimap k) ((readCell poi row (k - 1).toNat).getD none)).map
    fun y => (y.1.path, returned conv y.1 y.2 (beanValue poi multimap row k))

variable {multimap : List (ℤ × CellBeanDefinition J)} {x : ℕ × Row N D}
  {ds : List (DisplayText N J V)} {k : ℤ} {o : CellBeanDefinition J}

theorem assignments_getRow (h : getRow poi conv multimap x = some ds) :
    assignments conv ds = (columnsIndex multimap).flatMap (columnAssignments poi conv multimap x.2) := by
  rw [assignments, List.flatMap_def, List.flatMap_def]
  congr 1
  refine map_of_mapM h fun k _ d hd => ?_
  have hcol := columnText_readColumn hd
  rw [columnAssignments, hcol.propertyValue]
  refine List.map_congr_left fun y _ => ?_
  rw [returned, ← hcol.value]
  rfl

theorem fst_mem_columnAssignments {row : Row N D} {e : String × Option (Option (Obj N V))}
    (h : e ∈ columnAssignments poi conv multimap row k) :
    ∃ o', (k, o') ∈ multimap ∧ o'.path = e.1 := by
  obtain ⟨y, hy, rfl⟩ := List.mem_map.mp h
  exact ⟨y.1, mem_definitionsAt.mp (mem_of_mem_turns hy), rfl⟩

/-- The column of a definition that is read last. -/
structure LastColumn (multimap : List (ℤ × CellBeanDefinition J)) (o : CellBeanDefinition J) (k : ℤ) :
    Prop where
  mem : (k, o) ∈ multimap
  last : ∀ k' o', (k', o') ∈ multimap → o'.path = o.path → k' ≤ k

theorem exists_lastColumn (hk : (k, o) ∈ multimap)
    (hpath : ∀ k' o', (k', o') ∈ multimap → o'.path = o.path → o' = o) :
    ∃ k, LastColumn multimap o k := by
  have hmem : k ∈ ((multimap.filter fun f => f.2.path = o.path).map Prod.fst).toFinset := by
    rw [List.mem_toFinset]
    exact List.mem_map.mpr ⟨(k, o), List.mem_filter.mpr ⟨hk, by simp⟩, rfl⟩
  obtain ⟨j, hj, hmax⟩ := Finset.exists_max_image _ id ⟨k, hmem⟩
  rw [List.mem_toFinset] at hj
  obtain ⟨⟨j, o'⟩, hf, rfl⟩ := List.mem_map.mp hj
  obtain ⟨hmem', hp⟩ := List.mem_filter.mp hf
  obtain rfl := hpath _ _ hmem' (by simpa using hp)
  refine ⟨j, hmem', fun k' o'' hk' hp' => hmax k' ?_⟩
  rw [List.mem_toFinset]
  exact List.mem_map.mpr ⟨(k', o''), List.mem_filter.mpr ⟨hk', by simpa using hp'⟩, rfl⟩

/-- A column has each path once. -/
theorem nodup_definitionsAt (hn : (multimap.map fun f => (f.1, f.2.path)).Nodup) (k : ℤ) :
    ((definitionsAt multimap k).map (·.path)).Nodup := by
  refine List.Nodup.of_map (fun p => (k, p)) ?_
  have hsub := hn.sublist ((List.filter_sublist (p := fun f => decide (f.1 = k))).map _)
  rw [definitionsAt, List.map_map, List.map_map]
  convert hsub using 1
  refine List.map_congr_left fun f hf => ?_
  have hk : f.1 = k := by simpa using (List.mem_filter.mp hf).2
  simp [hk]

/-- The columns in their order, around one of them. -/
theorem columnsIndex_split (hk : ∃ o, (k, o) ∈ multimap) :
    ∃ ks ks', columnsIndex multimap = ks ++ k :: ks' ∧ ∀ k' ∈ ks', k < k' := by
  obtain ⟨ks, ks', hks⟩ := List.append_of_mem (mem_columnsIndex.mpr hk)
  have hlt := pairwise_columnsIndex multimap
  rw [hks] at hlt
  exact ⟨ks, ks', hks, (List.pairwise_cons.mp (List.pairwise_append.mp hlt).2.1).1⟩

/-- The property of a definition is set to what its last column has at its turn. -/
theorem bean_of_lastColumn (hn : (multimap.map fun f => (f.1, f.2.path)).Nodup)
    (h : getRow poi conv multimap x = some ds) {t : Bean N V}
    (ht : ds.foldlM (setProperties conv) (fun _ => none) = some t)
    (hk : LastColumn multimap o k) :
    ∃ value, returned conv o (parsed poi conv o (turnValue poi multimap x.2 k o))
        (beanValue poi multimap x.2 k) = some value ∧ t o.path = some value := by
  obtain ⟨ks, ks', hks, hlt⟩ := columnsIndex_split ⟨o, hk.mem⟩
  obtain ⟨os, os', hos⟩ := List.append_of_mem (mem_definitionsAt.mpr hk.mem)
  have hpaths := nodup_definitionsAt hn k
  rw [hos, List.map_append, List.map_cons] at hpaths
  have hbefore : ∀ o' ∈ os, o'.path ≠ o.path := fun o' ho' =>
    (List.nodup_append.mp hpaths).2.2 _ (List.mem_map.mpr ⟨o', ho', rfl⟩) _ List.mem_cons_self
  have hafter : ∀ o' ∈ os', o'.path ≠ o.path := fun o' ho' he =>
    (List.nodup_cons.mp (List.nodup_append.mp hpaths).2.1).1 (List.mem_map.mpr ⟨o', ho', he⟩)
  have hup : upTo o (definitionsAt multimap k) = os ++ [o] := by
    rw [upTo, hos, List.takeWhile_append_of_pos (by simpa using hbefore),
      List.takeWhile_cons_of_neg (by simp), List.append_nil]
  obtain ⟨before, after, hcolumn, hne⟩ : ∃ before after,
      columnAssignments poi conv multimap x.2 k = before ++ (o.path, returned conv o
        (parsed poi conv o (turnValue poi multimap x.2 k o)) (beanValue poi multimap x.2 k)) :: after ∧
        ∀ e ∈ after, e.1 ≠ o.path := by
    rw [columnAssignments, turnValue, hup, hos, turns_append, List.map_append, filled_append]
    refine ⟨_, _, rfl, fun e he => ?_⟩
    obtain ⟨y, hy, rfl⟩ := List.mem_map.mp he
    exact hafter _ (mem_of_mem_turns hy)
  rw [foldlM_setProperties, assignments_getRow h, hks, List.flatMap_append, List.flatMap_cons, hcolumn,
    List.append_assoc, List.cons_append, ← List.append_assoc] at ht
  refine foldlM_assign_last ht fun e he => ?_
  obtain he | he := List.mem_append.mp he
  · exact hne e he
  · obtain ⟨k', hk', he⟩ := List.mem_flatMap.mp he
    obtain ⟨o', ho', hp⟩ := fst_mem_columnAssignments he
    intro hpath
    exact absurd (hk.last k' o' ho' (hp.trans hpath)) (not_le.mpr (hlt k' hk'))

/-- A property that no column has a definition for is not set. -/
theorem bean_eq_none (h : getRow poi conv multimap x = some ds) {t : Bean N V}
    (ht : ds.foldlM (setProperties conv) (fun _ => none) = some t) {p : String}
    (hp : ∀ f ∈ multimap, f.2.path ≠ p) : t p = none := by
  rw [foldlM_setProperties, assignments_getRow h] at ht
  refine foldlM_assign_of_ne ht fun e he => ?_
  obtain ⟨k, -, he⟩ := List.mem_flatMap.mp he
  obtain ⟨o, ho, hpath⟩ := fst_mem_columnAssignments he
  exact fun hpe => hp _ ho (hpath.trans hpe)

/-! ### The blanks reported -/

def Validation.blanks (st : Validation J) : List (ℕ × ℕ × Option (CellBeanDefinition J)) :=
  (st.reports.filter (·.kind = .blank)).map fun r => (r.rowIndex, r.cellIndex, r.definition)

theorem blanks_report {kind : ErrorKind} (st : Validation J) (d : DisplayText N J V)
    (definition : Option (CellBeanDefinition J)) (text : String) :
    (st.report d kind definition text).blanks =
      st.blanks ++ if kind = .blank then [(d.rowIndex, d.cellIndex, definition)] else [] := by
  by_cases hk : kind = .blank <;>
    simp [Validation.report, Validation.blanks, List.filter_append, hk]

theorem isShown_elim (v : Option (Value N)) :
    isShown (v.elim "" (Value.toString poi)) = shownValue poi v := by
  cases v with
  | none => exact isShown_empty
  | some v => rfl

variable {sheetName : String}

theorem blanks_validateField (o : CellBeanDefinition J) (d : DisplayText N J V)
    (val : Option (Obj N V)) (st : Validation J) :
    (validateField poi conv sheetName o d val st).blanks = st.blanks ++
      if !o.allowBlank && !isShown (checkedText poi conv (checked d val)) then
        [(d.rowIndex, d.cellIndex, some o)] else [] := by
  have hvalid : ∀ st : Validation J, ((conv.valid o d (checked d val)).foldl
      (fun st msg => st.report d .valid (some o) msg) st).blanks = st.blanks := by
    intro st
    rw [foldl_append (fun s msg _ => blanks_report s d (some o) msg) st]
    simp
  have hlookup : ∀ (value : String) (st : Validation J),
      (if o.allowRepeat then st else
        { (if (o.name, value) ∈ st.seen then reportRepeat poi sheetName o d st else st) with
          seen := (if (o.name, value) ∈ st.seen then reportRepeat poi sheetName o d st
            else st).seen ++ [(o.name, value)] }).blanks = st.blanks := by
    intro value st
    split
    · rfl
    · show (if (o.name, value) ∈ st.seen then reportRepeat poi sheetName o d st else st).blanks = _
      split
      · exact (blanks_report st d _ _).trans (by simp)
      · rfl
  refine (hvalid _).trans ((hlookup _ _).trans ?_)
  split
  · exact (blanks_report st d _ _).trans (by simp)
  · simp

theorem blanks_reportText (d : DisplayText N J V) (st : Validation J) :
    (reportText sheetName d st).blanks = st.blanks := by
  unfold reportText
  split
  · split
    · rfl
    · exact (blanks_report st d _ _).trans (by simp)
  · rfl

theorem blanks_validateBean (displayTexts : List (List (DisplayText N J V))) :
    (validateBean poi conv sheetName multimap displayTexts).blanks =
      displayTexts.flatMap fun list => list.flatMap fun d =>
        (definitionsAt multimap (d.cellIndex + 1)).flatMap fun o =>
          if !o.allowBlank && !shownValue poi d.value then [(d.rowIndex, d.cellIndex, some o)]
          else [] := by
  refine foldl_append (F := Validation.blanks) (fun st list _ => ?_) ({} : Validation J)
  refine foldl_append (F := Validation.blanks) (fun st d _ => ?_) st
  rw [blanks_reportText, foldl_append (fun st o _ => blanks_validateField o d none st) st]
  simp only [checkedText_none, isShown_elim]

/-- A blank is reported where a definition that may not be blank is shown nothing. -/
theorem mem_blanks {rows : List ((ℕ × Row N D) × List (DisplayText N J V))}
    (h : ∀ y ∈ rows, getRow poi conv multimap y.1 = some y.2) {y i : ℕ} :
    (∃ r ∈ (validateBean poi conv sheetName multimap (rows.map Prod.snd)).reports,
        r.kind = .blank ∧ r.rowIndex = y ∧ r.cellIndex = i ∧ r.definition = some o) ↔
      ∃ z ∈ rows, z.1.1 = y ∧ ((i : ℤ) + 1, o) ∈ multimap ∧ o.allowBlank = false ∧
        shownValue poi (beanValue poi multimap z.1.2 (i + 1)) = false := by
  have hblanks : (∃ r ∈ (validateBean poi conv sheetName multimap (rows.map Prod.snd)).reports,
        r.kind = .blank ∧ r.rowIndex = y ∧ r.cellIndex = i ∧ r.definition = some o) ↔
      (y, i, some o) ∈ (validateBean poi conv sheetName multimap (rows.map Prod.snd)).blanks := by
    simp [Validation.blanks, and_assoc]
  rw [hblanks, blanks_validateBean]
  simp only [List.mem_flatMap, List.mem_map]
  constructor
  · rintro ⟨_, ⟨z, hz, rfl⟩, d, hd, o', ho', he⟩
    split at he
    · rename_i hb
      obtain ⟨rfl, rfl, rfl⟩ : y = d.rowIndex ∧ i = d.cellIndex ∧ o = o' := by
        simpa using List.mem_singleton.mp he
      obtain ⟨k, -, -, hcol⟩ := of_mem_getRow (h z hz) hd
      rw [Bool.and_eq_true, Bool.not_eq_true', Bool.not_eq_true', hcol.value, ← hcol.cellIndex] at hb
      exact ⟨z, hz, hcol.rowIndex.symm, mem_definitionsAt.mp ho', hb⟩
    · cases he
  · rintro ⟨z, hz, rfl, ho, hblank, hshown⟩
    obtain ⟨d, hd, hcol⟩ := exists_mem_getRow (h z hz) ho
    have hi : d.cellIndex = i := by
      have hc := hcol.cellIndex
      omega
    refine ⟨_, ⟨z, hz, rfl⟩, d, hd, o, by rw [hi]; exact mem_definitionsAt.mpr ho, ?_⟩
    rw [hcol.value, hblank, hshown, hcol.rowIndex, hi]
    exact List.mem_singleton.mpr rfl

/-! ### What is promised -/

/-- The header of a column shows the title. -/
def headed (poi : Poi N D) (row : Row N D) (title : String) (i : ℕ) : Bool :=
  (cellValue poi row i).any fun v => v.toString poi = title

/-- The columns of an attribute: under the headers with its title, or the one given. -/
def cellsOf (poi : Poi N D) (header : Row N D) (o : CellBeanDefinition J) : List ℕ :=
  if isBlank o.title then if 0 < o.cellIndex then [(o.cellIndex - 1).toNat] else []
  else (List.range header.length).filter (headed poi header o.title)

/-- Not blank, and without a default. -/
def CellBeanDefinition.required (o : CellBeanDefinition J) : Prop :=
  o.allowBlank = false ∧ isBlank o.defaultValue = true

/-- The object of a cell's value for an attribute: of its default for a blank one. -/
def converted (poi : Poi N D) (conv : Converters N J V) (o : CellBeanDefinition J)
    (value : Option (Value N)) : Option (Option (Obj N V)) :=
  returned conv o (parsed poi conv o (filled poi [o] value)) (filled poi [o] value)

/-- Every attribute is set to what a cell of it is converted to, and every required one is
reported where its cell is blank, or if its header is missing. -/
structure Mapped (poi : Poi N D) (conv : Converters N J V) (os : List (CellBeanDefinition J))
    (header : Row N D) (r : Imported N D J V) : Prop where
  value : ∀ x ∈ r.data, ∀ o ∈ os, cellsOf poi header o ≠ [] → ∃ i ∈ cellsOf poi header o,
    ∃ value, converted poi conv o (cellValue poi x.1.2 i) = some value ∧ x.2 o.path = some value
  blank : ∀ x ∈ r.data, ∀ o ∈ os, o.required → ∀ i ∈ cellsOf poi header o,
    shownAt x.1.2 i = false → ∃ e ∈ r.error,
      e.kind = .blank ∧ e.rowIndex = x.1.1 ∧ e.cellIndex = i ∧ e.definition = some o
  missing : ∀ o ∈ os, o.required → isBlank o.title = false → cellsOf poi header o = [] →
    ∃ e ∈ r.error, e.kind = .blank ∧ e.definition = some o

/-! ### What disturbs an attribute -/

/-- The last of the cells that an annotation is for. -/
structure LastCell (poi : Poi N D) (header : Row N D) (o : CellBeanDefinition J) (j : ℕ) : Prop where
  mem : forCell poi header o j = true
  last : ∀ i, forCell poi header o i = true → i ≤ j

/-- What an attribute is due for a cell: what it shows, or the default for a blank one. -/
def due (poi : Poi N D) (o : CellBeanDefinition J) (row : Row N D) (i : ℕ) : Option (Value N) :=
  filled poi [o] (cellValue poi row i)

/-- A cell stands for a value among annotations: it is read as that, or is read as blank, and
their first default is the value. -/
def StandsFor (poi : Poi N D) (os : List (CellBeanDefinition J)) (row : Row N D) (j : ℕ)
    (v : Option (Value N)) : Prop :=
  match firstDefault os with
  | some s => if vacantAt poi row j then some (.string s) = v else readCell poi row j = some v
  | none => readCell poi row j = some v

/-- A cell stays blank among annotations: it is read as nothing that is shown, and their first
default shows nothing. -/
def StaysBlank (poi : Poi N D) (os : List (CellBeanDefinition J)) (row : Row N D) (i : ℕ) : Prop :=
  countsAt poi row i = false ∧ (vacantAt poi row i = true → defaultShown os = false)

/-- The rows of data with a cell that counts, or a vacant one with a default that is shown. -/
def countedRows (poi : Poi N D) (fields : List (Field J)) (sheetBean : SheetBean J)
    (sheet : Sheet N D) (header : Row N D) : Set (ℕ × Row N D) :=
  {x | x ∈ sheet.rowsFrom (firstRow sheetBean) ∧
    ∃ o ∈ lastOfFields fields sheetBean.gorup, ∃ i, forCell poi header o i = true ∧
      (countsAt poi x.2 i = true ∨ vacantAt poi x.2 i = true ∧
        defaultShown (annotationsAt poi fields sheetBean.gorup header i) = true)}

/-- The cells of the annotations that stay can be read, and the columns given exist. -/
def ReadableCells (poi : Poi N D) (fields : List (Field J)) (sheetBean : SheetBean J)
    (sheet : Sheet N D) (header : Row N D) : Prop :=
  ∀ x ∈ sheet.rowsFrom (firstRow sheetBean), ∀ o ∈ lastOfFields fields sheetBean.gorup,
    (isBlank o.title = true → 0 < o.cellIndex) ∧
      ∀ i, forCell poi header o i = true → readableAt poi x.2 i = true

/-- An attribute with a cell is the last of its field, and the last cell that its annotation
is for stands for what one of its cells is due, among the annotations up to it and among all
of this cell. A blank cell of a required one has a header that is read as its title, and
stays blank. A required one without a cell has a header that is only read as its title, with
a cell under it that stays blank. -/
structure Undisturbed (poi : Poi N D) (fields : List (Field J)) (group : String) (header : Row N D)
    (rows : Set (ℕ × Row N D)) : Prop where
  value : ∀ x ∈ rows, ∀ o ∈ definitions fields group, cellsOf poi header o ≠ [] →
    o ∈ lastOfFields fields group ∧ ∃ j, LastCell poi header o j ∧
    (∃ i ∈ cellsOf poi header o,
      StandsFor poi (upTo o (annotationsAt poi fields group header j)) x.2 j (due poi o x.2 i)) ∧
    ∃ i ∈ cellsOf poi header o,
      StandsFor poi (annotationsAt poi fields group header j) x.2 j (due poi o x.2 i)
  blank : ∀ x ∈ rows, ∀ o ∈ definitions fields group, o.required → ∀ i ∈ cellsOf poi header o,
    shownAt x.2 i = false → o ∈ lastOfFields fields group ∧ forCell poi header o i = true ∧
      StaysBlank poi (annotationsAt poi fields group header i) x.2 i
  missing : ∀ o ∈ definitions fields group, o.required → isBlank o.title = false →
    cellsOf poi header o = [] → o ∈ lastOfFields fields group ∧
      ∃ i, forCell poi header o i = true ∧ ∃ x ∈ rows,
        StaysBlank poi (annotationsAt poi fields group header i) x.2 i

variable {row : Row N D} {os : List (CellBeanDefinition J)} {i : ℕ}

theorem standsFor_iff (hread : readableAt poi row i = true) {v : Option (Value N)} :
    StandsFor poi os row i v ↔ filled poi os ((readCell poi row i).getD none) = v := by
  obtain ⟨w, hw⟩ := Option.isSome_iff_exists.mp (isSome_readCell.trans hread)
  rw [StandsFor, filled_eq, hw, Option.getD_some, blank_readCell hw]
  cases firstDefault os with
  | none => cases vacantAt poi row i <;> simp
  | some s => cases vacantAt poi row i <;> simp

theorem staysBlank_iff (hread : readableAt poi row i = true) :
    StaysBlank poi os row i ↔
      shownValue poi (filled poi os ((readCell poi row i).getD none)) = false := by
  obtain ⟨w, hw⟩ := Option.isSome_iff_exists.mp (isSome_readCell.trans hread)
  rw [hw, Option.getD_some, shown_filled, shown_readCell hw, blank_readCell hw, StaysBlank]
  cases countsAt poi row i <;> cases vacantAt poi row i <;> simp

/-! ### The import as a whole -/

variable {fields : List (Field J)} {sheetBean : SheetBean J} {sheet : Sheet N D}
  {displayTexts : List ((ℕ × Row N D) × List (DisplayText N J V))}

theorem importBeans_eq_some_iff {r : Imported N D J V} :
    importBeans poi conv fields sheetBean sheet = some r ↔ ∃ m row multimap displayTexts data,
      (initSheetBean fields).get sheetBean.gorup = some m ∧ subTitleRow sheetBean sheet = some row ∧
      getSubTitle poi m row = some multimap ∧
      getDisplayText poi conv sheetBean multimap sheet = some displayTexts ∧
      getData conv (displayTexts.map Prod.snd) = some data ∧
      r = { data := (displayTexts.map Prod.fst).zip data
            error := (validateBean poi conv sheet.sheetName multimap
              (displayTexts.map Prod.snd)).reports } := by
  simp only [importBeans, Option.bind_eq_some_iff, Option.map_eq_some_iff]
  constructor
  · rintro ⟨m, hm, row, hrow, multimap, hmap, displayTexts, hd, data, hdata, rfl⟩
    exact ⟨m, row, multimap, displayTexts, data, hm, hrow, hmap, hd, hdata, rfl⟩
  · rintro ⟨m, row, multimap, displayTexts, data, hm, hrow, hmap, hd, hdata, rfl⟩
    exact ⟨m, hm, row, hrow, multimap, hmap, displayTexts, hd, data, hdata, rfl⟩

/-- An index is that of one row. -/
theorem eq_of_mem_rowsFrom {start : ℤ} {x y : ℕ × Row N D} (hx : x ∈ sheet.rowsFrom start)
    (hy : y ∈ sheet.rowsFrom start) (h : x.1 = y.1) : x = y := by
  have hnd : ((sheet.rowsFrom start).map Prod.fst).Nodup := by
    rw [List.nodup_iff_pairwise_ne, List.pairwise_map]
    exact (pairwise_rowsFrom sheet start).imp fun hlt => hlt.ne
  exact List.inj_on_of_nodup_map hnd hx hy h

theorem eq_of_index {x y : ℕ × Row N D} (hx : x ∈ keptRows poi sheetBean sheet multimap)
    (hy : y ∈ keptRows poi sheetBean sheet multimap) (h : x.1 = y.1) : x = y :=
  eq_of_mem_rowsFrom (List.mem_filter.mp hx).1 (List.mem_filter.mp hy).1 h

theorem isSome_getData (h : ∀ o value final, (returned conv o value final).isSome = true)
    (displayTexts : List (List (DisplayText N J V))) : (getData conv displayTexts).isSome = true := by
  refine isSome_mapM.mpr fun ds _ => ?_
  rw [foldlM_setProperties]
  refine isSome_foldlM_assign (fun e he => ?_) _
  obtain ⟨d, -, he⟩ := List.mem_flatMap.mp he
  obtain ⟨y, -, rfl⟩ := List.mem_map.mp he
  exact h y.1 y.2 d.value

/-- The columns are those of the annotations of a group that stay. -/
structure Columns (poi : Poi N D) (fields : List (Field J)) (group : String) (header : Row N D)
    (multimap : List (ℤ × CellBeanDefinition J)) : Prop where
  nodup : (multimap.map fun f => (f.1, f.2.path)).Nodup
  mem : ∀ {k o}, (k, o) ∈ multimap ↔ o ∈ lastOfFields fields group ∧
    (isBlank o.title = true ∧ k = o.cellIndex ∨ ∃ i : ℕ, forCell poi header o i = true ∧ k = i + 1)
  column : ∀ i : ℕ, definitionsAt multimap ((i : ℤ) + 1) = annotationsAt poi fields group header i

theorem columns_getSubTitle {m : LinkedHashMap String (CellBeanDefinition J)} {header : Row N D}
    {group : String} (hnames : (fields.map (·.name)).Nodup)
    (hpaths : ((definitions fields group).map (·.path)).Nodup)
    (hm : (initSheetBean fields).get group = some m) (h : getSubTitle poi m header = some multimap) :
    Columns poi fields group header multimap where
  nodup := by
    refine nodup_getSubTitle ?_ h
    rw [values_initSheetBean hnames hm]
    exact nodup_lastOfFields hpaths
  mem := by
    intro k o
    rw [mem_getSubTitle h, values_initSheetBean hnames hm]
  column := definitionsAt_getSubTitle h (values_initSheetBean hnames hm)

/-- The columns of an import of beans are of definitions with names of their own. -/
theorem namedOnce_getSubTitle {m : LinkedHashMap String (CellBeanDefinition J)} {header : Row N D}
    {group : String} (hnames : (fields.map (·.name)).Nodup)
    (hm : (initSheetBean fields).get group = some m) (h : getSubTitle poi m header = some multimap) :
    NamedOnce multimap where
  definition f hf g hg hname := by
    have hnd := nodup_name_initSheetBean hnames hm
    exact List.inj_on_of_nodup_map hnd ((mem_getSubTitle h).mp hf).1 ((mem_getSubTitle h).mp hg).1 hname
  nodup := List.Nodup.of_map _ (nodup_getSubTitle (nodup_name_initSheetBean hnames hm) h)

/-- The index of the cells of a column. -/
theorem exists_cell (h : 0 < k) : ∃ i : ℕ, k = i + 1 := ⟨(k - 1).toNat, by omega⟩

section Columns

variable {group : String} {header : Row N D} (hcols : Columns poi fields group header multimap)
include hcols

theorem Columns.mem_succ : ((i : ℤ) + 1, o) ∈ multimap ↔
    o ∈ lastOfFields fields group ∧ forCell poi header o i = true := by
  rw [hcols.mem]
  refine and_congr_right fun _ => ⟨?_, fun hi => .inr ⟨i, hi, rfl⟩⟩
  rintro (⟨hb, hk⟩ | ⟨j, hj, hk⟩)
  · simp [forCell, hb, hk]
  · obtain rfl : i = j := by omega
    exact hj

theorem Columns.mem_definitions (hk : (k, o) ∈ multimap) : o ∈ definitions fields group :=
  (lastOfFields_sublist fields group).subset (hcols.mem.mp hk).1

theorem Columns.beanValue_eq : beanValue poi multimap row (i + 1) =
    filled poi (annotationsAt poi fields group header i) ((readCell poi row i).getD none) := by
  rw [beanValue, hcols.column]
  simp

theorem Columns.turnValue_eq : turnValue poi multimap row (i + 1) o =
    filled poi (upTo o (annotationsAt poi fields group header i))
      ((readCell poi row i).getD none) := by
  rw [turnValue, hcols.column]
  simp

/-- The last column of an annotation that stays is that of its last cell. -/
theorem Columns.lastColumn_iff (hpaths : ((definitions fields group).map (·.path)).Nodup)
    (hpos : ∀ f ∈ multimap, 0 < f.1) :
    LastColumn multimap o ((i : ℤ) + 1) ↔
      o ∈ lastOfFields fields group ∧ LastCell poi header o i := by
  constructor
  · intro h
    obtain ⟨ho, hi⟩ := hcols.mem_succ.mp h.mem
    refine ⟨ho, hi, fun j hj => ?_⟩
    have hle := h.last _ _ (hcols.mem_succ.mpr ⟨ho, hj⟩) rfl
    omega
  · rintro ⟨ho, hi⟩
    refine ⟨hcols.mem_succ.mpr ⟨ho, hi.mem⟩, fun k o' hk hpath => ?_⟩
    obtain rfl : o' = o := eq_of_path hpaths (hcols.mem_definitions hk)
      ((lastOfFields_sublist fields group).subset ho) hpath
    obtain ⟨j, rfl⟩ := exists_cell (hpos _ hk)
    have hle := hi.last j (hcols.mem_succ.mp hk).2
    omega

end Columns

theorem readable_iff {header : Row N D}
    (hcols : Columns poi fields sheetBean.gorup header multimap) :
    Readable poi sheetBean sheet multimap ↔ ReadableCells poi fields sheetBean sheet header := by
  refine forall₂_congr fun x _ => ⟨fun h o ho => ⟨fun hb => ?_, fun i hi => ?_⟩, fun h f hf => ?_⟩
  · exact (h _ (hcols.mem.mpr ⟨ho, .inl ⟨hb, rfl⟩⟩)).1
  · simpa using (h _ (hcols.mem_succ.mpr ⟨ho, hi⟩)).2
  · obtain ⟨ho, hk⟩ := hcols.mem.mp hf
    obtain ⟨hcell, hread⟩ := h f.2 ho
    have hpos : 0 < f.1 := by
      obtain ⟨hb, hk⟩ | ⟨i, -, hk⟩ := hk
      · rw [hk]
        exact hcell hb
      · omega
    obtain ⟨k, o⟩ := f
    obtain ⟨i, rfl⟩ := exists_cell hpos
    exact ⟨hpos, by simpa using hread i (hcols.mem_succ.mp hf).2⟩

theorem mem_countedRows {header : Row N D}
    (hcols : Columns poi fields sheetBean.gorup header multimap) :
    x ∈ countedRows poi fields sheetBean sheet header ↔ x ∈ keptRows poi sheetBean sheet multimap := by
  rw [keptRows, List.mem_filter, beanCounts_iff]
  refine and_congr_right fun _ => ?_
  constructor
  · rintro ⟨o, ho, i, hi, hcounts⟩
    refine ⟨_, hcols.mem_succ.mpr ⟨ho, hi⟩, Int.natCast_succ_pos i, ?_⟩
    rw [hcols.column]
    simpa using hcounts
  · rintro ⟨⟨k, o⟩, hf, hpos, hcounts⟩
    obtain ⟨i, rfl⟩ := exists_cell hpos
    obtain ⟨ho, hi⟩ := hcols.mem_succ.mp hf
    refine ⟨o, ho, i, hi, ?_⟩
    rw [hcols.column] at hcounts
    simpa using hcounts

theorem mapped_of_undisturbed {header : Row N D} {data : List (Bean N V)}
    (hpaths : ((definitions fields sheetBean.gorup).map (·.path)).Nodup)
    (hcols : Columns poi fields sheetBean.gorup header multimap)
    (hd : getDisplayText poi conv sheetBean multimap sheet = some displayTexts)
    (hdata : getData conv (displayTexts.map Prod.snd) = some data)
    (h : Undisturbed poi fields sheetBean.gorup header
      (countedRows poi fields sheetBean sheet header)) :
    Mapped poi conv (definitions fields sheetBean.gorup) header
      { data := (displayTexts.map Prod.fst).zip data
        error := (validateBean poi conv sheet.sheetName multimap
          (displayTexts.map Prod.snd)).reports } := by
  have hrow : ∀ y ∈ displayTexts, getRow poi conv multimap y.1 = some y.2 :=
    fun y hy => of_mem_importRows hd hy
  have hkept : ∀ x ∈ (displayTexts.map Prod.fst).zip data, ∃ ds, (x.1, ds) ∈ displayTexts ∧
      ds.foldlM (setProperties conv) (fun _ => none) = some x.2 :=
    fun x hx => (mem_zip_mapM hdata).mp hx
  have hmem : ∀ y ∈ displayTexts, y.1 ∈ countedRows poi fields sheetBean sheet header := by
    intro y hy
    rw [mem_countedRows hcols, ← fst_getDisplayText hd]
    exact List.mem_map.mpr ⟨y, hy, rfl⟩
  have hread : ∀ y ∈ displayTexts, ∀ (i : ℕ) o, ((i : ℤ) + 1, o) ∈ multimap →
      readableAt poi y.1.2 i = true := fun y hy i o ho => by
    simpa using (isSome_getRow.mp (Option.isSome_of_eq_some (hrow y hy)) _ ho).2
  constructor
  · intro x hx o ho hcells
    obtain ⟨ds, hds, ht⟩ := hkept x hx
    obtain ⟨hlast, j, hj, ⟨i, hi, hturn⟩, i', hi', hfinal⟩ := h.value x.1 (hmem _ hds) o ho hcells
    have hpos : ∀ f ∈ multimap, 0 < f.1 := fun f hf =>
      (isSome_getRow.mp (Option.isSome_of_eq_some (hrow _ hds)) f hf).1
    have hk := (hcols.lastColumn_iff hpaths hpos).mpr ⟨hlast, hj⟩
    rw [standsFor_iff (hread _ hds j o hk.mem), ← hcols.turnValue_eq] at hturn
    rw [standsFor_iff (hread _ hds j o hk.mem), ← hcols.beanValue_eq] at hfinal
    obtain ⟨value, hv, hset⟩ := bean_of_lastColumn hcols.nodup (hrow _ hds) ht hk
    -- the value at the turn, or the one in the end, where the type has a converter
    cases hf : conv.factory o.javaType with
    | none =>
      refine ⟨i, hi, value, ?_, hset⟩
      rw [converted, ← due, ← hturn, ← hv]
      simp only [returned, hf]
    | some factory =>
      refine ⟨i', hi', value, ?_, hset⟩
      rw [converted, ← due, ← hfinal, ← hv]
      simp only [returned, hf]
  · intro x hx o ho hreq i hi hshown
    obtain ⟨ds, hds, -⟩ := hkept x hx
    obtain ⟨hlast, hfor, hblank⟩ := h.blank x.1 (hmem _ hds) o ho hreq i hi hshown
    have hcol := hcols.mem_succ.mpr ⟨hlast, hfor⟩
    rw [staysBlank_iff (hread _ hds i o hcol), ← hcols.beanValue_eq] at hblank
    exact (mem_blanks hrow).mpr ⟨(x.1, ds), hds, rfl, hcol, hreq.1, hblank⟩
  · intro o ho hreq htitle hcells
    obtain ⟨hlast, i, hfor, x, hx, hblank⟩ := h.missing o ho hreq htitle hcells
    rw [mem_countedRows hcols, ← fst_getDisplayText hd] at hx
    obtain ⟨y, hy, rfl⟩ := List.mem_map.mp hx
    have hcol := hcols.mem_succ.mpr ⟨hlast, hfor⟩
    rw [staysBlank_iff (hread y hy i o hcol), ← hcols.beanValue_eq] at hblank
    obtain ⟨e, he, hkind, -, -, hdef⟩ :=
      (mem_blanks hrow).mpr ⟨y, hy, rfl, hcol, hreq.1, hblank⟩
    exact ⟨e, he, hkind, hdef⟩

/-! ### Values as they are read -/

/-- Converters that keep the value: of the turn, or, for every type, of the end. -/
def asRead (factories : Bool) : Converters N J V where
  isDate _ := false
  parseDate _ := none
  read _ _ value := value.map .value
  factory _ := if factories then some fun _ value => some (value.map .value) else none
  toString _ := ""
  valid _ _ _ := []

theorem parsed_asRead (factories : Bool) (o : CellBeanDefinition J) (value : Option (Value N)) :
    parsed poi (asRead factories : Converters N J V) o value = value.map .value := by
  unfold parsed
  cases o.read <;> rfl

theorem returned_asRead (factories : Bool) (o : CellBeanDefinition J) (value final : Option (Value N)) :
    returned (asRead factories : Converters N J V) o (value.map .value) final =
      some ((if factories then final else value).map .value) := by
  cases factories <;> rfl

theorem map_value_inj {v v' : Option (Value N)}
    (h : v.map (Obj.value (V := V)) = v'.map .value) : v = v' :=
  Option.map_injective (fun _ _ => Obj.value.inj) h

/-- With converters that keep the value an import of cells that can be read returns. -/
theorem exists_import (factories : Bool) (h : Readable poi sheetBean sheet multimap) :
    ∃ displayTexts data,
      getDisplayText poi (asRead factories : Converters N J V) sheetBean multimap sheet =
        some displayTexts ∧
      getData (asRead factories) (displayTexts.map Prod.snd) = some data := by
  have hsome : (getDisplayText poi (asRead factories : Converters N J V) sheetBean multimap
      sheet).isSome = true := isSome_getDisplayText.mpr h
  obtain ⟨displayTexts, hd⟩ := Option.isSome_iff_exists.mp hsome
  have hsome' : (getData (asRead factories) (displayTexts.map Prod.snd)).isSome = true :=
    isSome_getData (fun _ _ _ => by cases factories <;> rfl) _
  obtain ⟨data, hdata⟩ := Option.isSome_iff_exists.mp hsome'
  exact ⟨displayTexts, data, hd, hdata⟩

/-- Each row that is kept has a bean, with converters that keep the value. -/
theorem exists_bean {factories : Bool} {data : List (Bean N V)}
    (hd : getDisplayText poi (asRead factories : Converters N J V) sheetBean multimap sheet =
      some displayTexts)
    (hdata : getData (asRead factories) (displayTexts.map Prod.snd) = some data)
    (hx : x ∈ keptRows poi sheetBean sheet multimap) :
    ∃ ds t, getRow poi (asRead factories) multimap x = some ds ∧
      ds.foldlM (setProperties (asRead factories)) (fun _ => none) = some t ∧
      (x, t) ∈ (displayTexts.map Prod.fst).zip data := by
  rw [← fst_getDisplayText hd] at hx
  obtain ⟨y, hy, rfl⟩ := List.mem_map.mp hx
  obtain ⟨t, ht⟩ := Option.isSome_iff_exists.mp
    (isSome_mapM.mp (Option.isSome_of_eq_some hdata) y.2 (List.mem_map.mpr ⟨y, hy, rfl⟩))
  exact ⟨y.2, t, of_mem_importRows hd hy, ht, (mem_zip_mapM hdata).mpr ⟨y.2, hy, ht⟩⟩

/-- What is promised, read back: an attribute with a cell has a column, and the value of the
last one is that of a cell. -/
theorem value_of_mapped {group : String} {header : Row N D} {factories : Bool}
    {data : List (Bean N V)} {error : List (Report J)}
    (hpaths : ((definitions fields group).map (·.path)).Nodup)
    (hcols : Columns poi fields group header multimap)
    (hd : getDisplayText poi (asRead factories : Converters N J V) sheetBean multimap sheet =
      some displayTexts)
    (hdata : getData (asRead factories) (displayTexts.map Prod.snd) = some data)
    (h : Mapped poi (asRead factories) (definitions fields group) header
      ⟨(displayTexts.map Prod.fst).zip data, error⟩)
    (hx : x ∈ keptRows poi sheetBean sheet multimap) (ho : o ∈ definitions fields group)
    (hcells : cellsOf poi header o ≠ []) :
    (∃ k, LastColumn multimap o k) ∧ ∀ k, LastColumn multimap o k →
      ∃ i ∈ cellsOf poi header o, (if factories then beanValue poi multimap x.2 k
        else turnValue poi multimap x.2 k o) = due poi o x.2 i := by
  obtain ⟨ds, t, hrow, ht, hmem⟩ := exists_bean hd hdata hx
  obtain ⟨i, hi, value, hconv, hset⟩ := h.value _ hmem o ho hcells
  have hpath : ∀ k' o', (k', o') ∈ multimap → o'.path = o.path → o' = o := fun k' o' hk' hp =>
    eq_of_path hpaths (hcols.mem_definitions hk') ho hp
  constructor
  · by_cases hk : ∃ k, (k, o) ∈ multimap
    · obtain ⟨k, hk⟩ := hk
      exact exists_lastColumn hk hpath
    · have hnone : t o.path = none := bean_eq_none hrow ht fun f hf hp => hk ⟨f.1, by
        rw [← hpath f.1 f.2 hf hp]
        exact hf⟩
      exact nomatch hnone.symm.trans hset
  · intro k hk
    obtain ⟨value', hv, hset'⟩ := bean_of_lastColumn hcols.nodup hrow ht hk
    obtain rfl : value = value' := Option.some.inj (hset.symm.trans hset')
    rw [parsed_asRead, returned_asRead] at hv
    rw [converted, parsed_asRead, returned_asRead] at hconv
    refine ⟨i, hi, ?_⟩
    have heq := map_value_inj (Option.some.inj (hv.trans hconv.symm))
    rw [heq]
    cases factories <;> rfl

theorem undisturbed_of_mapped {header : Row N D}
    (hpaths : ((definitions fields sheetBean.gorup).map (·.path)).Nodup)
    (hcols : Columns poi fields sheetBean.gorup header multimap)
    (hread : ReadableCells poi fields sheetBean sheet header)
    (h : ∀ (conv : Converters N J V) displayTexts data,
      getDisplayText poi conv sheetBean multimap sheet = some displayTexts →
      getData conv (displayTexts.map Prod.snd) = some data →
      Mapped poi conv (definitions fields sheetBean.gorup) header
        ⟨(displayTexts.map Prod.fst).zip data, (validateBean poi conv sheet.sheetName multimap
          (displayTexts.map Prod.snd)).reports⟩) :
    Undisturbed poi fields sheetBean.gorup header
      (countedRows poi fields sheetBean sheet header) := by
  have hreadable := (readable_iff hcols).mpr hread
  obtain ⟨displayTexts, data, hd, hdata⟩ := exists_import (V := V) false hreadable
  have hmapped := h _ _ _ hd hdata
  have hrow : ∀ y ∈ displayTexts, getRow poi (asRead false) multimap y.1 = some y.2 :=
    fun y hy => of_mem_importRows hd hy
  have hmem : ∀ y ∈ displayTexts, y.1 ∈ keptRows poi sheetBean sheet multimap := fun y hy => by
    rw [← fst_getDisplayText hd]
    exact List.mem_map.mpr ⟨y, hy, rfl⟩
  constructor
  · intro x hx o ho hcells
    have hpos : ∀ f ∈ multimap, 0 < f.1 := fun f hf => (hreadable x hx.1 f hf).1
    have hkept := (mem_countedRows hcols).mp hx
    obtain ⟨⟨k, hk⟩, hturn⟩ := value_of_mapped hpaths hcols hd hdata hmapped hkept ho hcells
    obtain ⟨displayTexts', data', hd', hdata'⟩ := exists_import (V := V) true hreadable
    obtain ⟨-, hfinal⟩ :=
      value_of_mapped hpaths hcols hd' hdata' (h _ _ _ hd' hdata') hkept ho hcells
    obtain ⟨j, rfl⟩ := exists_cell (hpos _ hk.mem)
    obtain ⟨hlast, hj⟩ := (hcols.lastColumn_iff hpaths hpos).mp hk
    have hcell := (hread x hx.1 o hlast).2 j hj.mem
    refine ⟨hlast, j, hj, ?_, ?_⟩
    · obtain ⟨i, hi, he⟩ := hturn _ hk
      rw [if_neg Bool.false_ne_true, hcols.turnValue_eq] at he
      exact ⟨i, hi, (standsFor_iff hcell).mpr he⟩
    · obtain ⟨i, hi, he⟩ := hfinal _ hk
      rw [if_pos rfl, hcols.beanValue_eq] at he
      exact ⟨i, hi, (standsFor_iff hcell).mpr he⟩
  · intro x hx o ho hreq i hi hshown
    have hkept := (mem_countedRows hcols).mp hx
    obtain ⟨ds, t, -, -, hbean⟩ := exists_bean hd hdata hkept
    obtain ⟨z, hz, hindex, hcol, -, hblank⟩ :=
      (mem_blanks hrow).mp (hmapped.blank _ hbean o ho hreq i hi hshown)
    obtain ⟨hlast, hfor⟩ := hcols.mem_succ.mp hcol
    rw [eq_of_index (hmem z hz) hkept hindex, hcols.beanValue_eq] at hblank
    exact ⟨hlast, hfor, (staysBlank_iff ((hread x hx.1 o hlast).2 i hfor)).mpr hblank⟩
  · intro o ho hreq htitle hcells
    obtain ⟨e, he, hkind, hdef⟩ := hmapped.missing o ho hreq htitle hcells
    obtain ⟨z, hz, -, hcol, -, hblank⟩ := (mem_blanks hrow).mp ⟨e, he, hkind, rfl, rfl, hdef⟩
    obtain ⟨hlast, hfor⟩ := hcols.mem_succ.mp hcol
    have hx := (mem_countedRows hcols).mpr (hmem z hz)
    rw [hcols.beanValue_eq] at hblank
    exact ⟨hlast, _, hfor, z.1, hx,
      (staysBlank_iff ((hread z.1 hx.1 o hlast).2 _ hfor)).mpr hblank⟩

/-- **Attributes of beans.** Whatever the converters are, an import that returns sets every
attribute of the group to what its cell is converted to, and reports every required one
that is blank or without its header, exactly if, where the header and the cells can be read,
no attribute is disturbed. The fields of the class have names of their own, and no two
annotations of the group are for one property. -/
theorem mapped_iff (poi : Poi N D) (fields : List (Field J)) (sheetBean : SheetBean J)
    (sheet : Sheet N D) (hnames : (fields.map (·.name)).Nodup)
    (hpaths : ((definitions fields sheetBean.gorup).map (·.path)).Nodup) :
    (∀ (conv : Converters N J V) r header, importBeans poi conv fields sheetBean sheet = some r →
      subTitleRow sheetBean sheet = some header →
        Mapped poi conv (definitions fields sheetBean.gorup) header r) ↔
    ∀ header, subTitleRow sheetBean sheet = some header →
      (∀ i < header.length, readableAt poi header i = true) →
      ReadableCells poi fields sheetBean sheet header →
        Undisturbed poi fields sheetBean.gorup header
          (countedRows poi fields sheetBean sheet header) := by
  constructor
  · intro h header hheader htitles hread
    by_cases hnil : definitions fields sheetBean.gorup = []
    · constructor <;> simp [hnil]
    · obtain ⟨m, hm⟩ : ∃ m, (initSheetBean fields).get sheetBean.gorup = some m := by
        rw [get_initSheetBean, if_neg (by simpa using hnil)]
        exact ⟨_, rfl⟩
      obtain ⟨multimap, hmap⟩ := Option.isSome_iff_exists.mp (isSome_getSubTitle.mpr htitles)
      refine undisturbed_of_mapped (V := V) hpaths (columns_getSubTitle hnames hpaths hm hmap) hread ?_
      intro conv displayTexts data hd hdata
      exact h conv _ header (importBeans_eq_some_iff.mpr
        ⟨m, header, multimap, displayTexts, data, hm, hheader, hmap, hd, hdata, rfl⟩) hheader
  · intro h conv r header hr hheader
    obtain ⟨m, row, multimap, displayTexts, data, hm, hrow, hmap, hd, hdata, rfl⟩ :=
      importBeans_eq_some_iff.mp hr
    obtain rfl : header = row := Option.some.inj (hheader.symm.trans hrow)
    have hcols := columns_getSubTitle hnames hpaths hm hmap
    have hreadable := isSome_getDisplayText.mp (Option.isSome_of_eq_some hd)
    exact mapped_of_undisturbed hpaths hcols hd hdata (h header hheader
      (isSome_getSubTitle.mp (Option.isSome_of_eq_some hmap)) ((readable_iff hcols).mp hreadable))

/-! ### Suppliers -/

/-- Two attributes on one field. -/
def supplier : List (Field Unit) :=
  [{ name := "supplier", javaType := (),
     cellAttributes := [{ title := "code", ofName := "code" }, { title := "name", ofName := "name" }] }]

/-- An attribute that may not be blank. -/
def origin : List (Field Unit) :=
  [{ name := "origin", javaType := (), cellAttribute := some { title := "origin", allowBlank := false } }]

def titles : SheetBean Unit := { subTitleIndex := 1, dataIndex := 2 }

def suppliers : Sheet Bool Unit :=
  ⟨"suppliers", [some [some (.plain (.text "code")), some (.plain (.text "name"))],
    some [some (.plain (.text "A")), some (.plain (.text "B"))]]⟩

theorem mapped_suppliers :
    (∀ (conv : Converters Bool Unit Unit) r header,
      importBeans twoNumbers conv supplier titles suppliers = some r →
      subTitleRow titles suppliers = some header →
        Mapped twoNumbers conv (definitions supplier titles.gorup) header r) ↔
    ∀ header, subTitleRow titles suppliers = some header →
      (∀ i < header.length, readableAt twoNumbers header i = true) →
      ReadableCells twoNumbers supplier titles suppliers header →
        Undisturbed twoNumbers supplier titles.gorup header
          (countedRows twoNumbers supplier titles suppliers header) :=
  mapped_iff twoNumbers supplier titles suppliers (by decide) (by decide)

theorem isSome_suppliers (fields : List (Field Unit)) (h : fields = supplier ∨ fields = origin) :
    (importBeans twoNumbers (asRead false : Converters Bool Unit Unit) fields titles
      suppliers).isSome = true := by
  obtain rfl | rfl := h <;> decide

/-- The code of a supplier is not set, as the name is on the same field; and that there is
no column for the origin is not reported. -/
theorem attribute_lost :
    (¬ ∀ (conv : Converters Bool Unit Unit) r header,
      importBeans twoNumbers conv supplier titles suppliers = some r →
      subTitleRow titles suppliers = some header →
        Mapped twoNumbers conv (definitions supplier titles.gorup) header r) ∧
    ¬ ∀ (conv : Converters Bool Unit Unit) r header,
      importBeans twoNumbers conv origin titles suppliers = some r →
      subTitleRow titles suppliers = some header →
        Mapped twoNumbers conv (definitions origin titles.gorup) header r := by
  constructor
  · intro h
    have hmapped := h (asRead false) _ _ (Option.some_get (isSome_suppliers _ (.inl rfl))).symm rfl
    obtain ⟨i, -, value, -, hset⟩ := hmapped.value _ List.mem_cons_self _ List.mem_cons_self (by decide)
    cases hset
  · intro h
    have hmapped := h (asRead false) _ _ (Option.some_get (isSome_suppliers _ (.inr rfl))).symm rfl
    obtain ⟨e, he, -⟩ := hmapped.missing _ List.mem_cons_self ⟨rfl, by decide⟩ (by decide) (by decide)
    cases he

end Excel
end Framework
end CloudManager
