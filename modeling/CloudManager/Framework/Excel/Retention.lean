/-
# Which rows an import keeps

A row should be in the result exactly if a mapped cell of it shows something. Whether it
is kept is decided by what was made of the cells: in a map a name with a default counts
for nothing, in a bean the defaults themselves count, and both read the date of a
formula as null. `retained_iff` says for which sheets that makes no difference.
-/
import Mathlib.Data.List.Pairwise
import CloudManager.Framework.Excel.Columns

namespace CloudManager
namespace Framework
namespace Excel

open Sequences

variable {N D J V : Type*} (poi : Poi N D) (conv : Converters N J V)

/-! ### What counts -/

/-- A mapped cell of the row shows something. -/
def showsMapped (multimap : List (ℤ × CellBeanDefinition J)) (row : Row N D) : Bool :=
  multimap.any fun f => 0 < f.1 && shownAt row (f.1 - 1).toNat

/-- A cell counts that is in the last column of its name, and the name has no default. -/
def mapCounts (field : List (ℤ × CellBeanDefinition J)) (row : Row N D) : Bool :=
  field.any fun f => 0 < f.1 && countsAt poi row (f.1 - 1).toNat &&
    field.all fun g => g.2.name ≠ f.2.name || isBlank g.2.defaultValue && g.1 ≤ f.1

/-- The first default of the definitions, if there is one, shows something. -/
def defaultShown (definitions : List (CellBeanDefinition J)) : Bool :=
  (definitions.find? fun o => !isBlank o.defaultValue).any fun o => isShown o.defaultValue

/-- A mapped cell counts, or is vacant and its column has a default. -/
def beanCounts (multimap : List (ℤ × CellBeanDefinition J)) (row : Row N D) : Bool :=
  multimap.any fun f => 0 < f.1 && (countsAt poi row (f.1 - 1).toNat ||
    vacantAt poi row (f.1 - 1).toNat && defaultShown (definitionsAt multimap f.1))

variable {poi conv} {row : Row N D} {i : ℕ} {v : Option (Value N)}

/-! ### The loop over the rows -/

theorem importRows_cons {α : Type*} (read : ℕ × Row N D → Option α) (isEmpty : α → Bool)
    (x : ℕ × Row N D) (rows : List (ℕ × Row N D)) :
    importRows read isEmpty (x :: rows) = (read x).bind fun a =>
      (importRows read isEmpty rows).map fun l => if isEmpty a then l else (x, a) :: l := by
  unfold importRows
  rw [List.mapM_cons]
  cases read x with
  | none => rfl
  | some a =>
    cases rows.mapM fun x => (read x).map (x, ·) with
    | none => rfl
    | some l => by_cases h : isEmpty a = true <;> simp [h]

theorem importRows_fst {α : Type*} (read : ℕ × Row N D → Option α) (isEmpty : α → Bool)
    (rows : List (ℕ × Row N D)) :
    (importRows read isEmpty rows).map (List.map Prod.fst) =
      if ∀ x ∈ rows, (read x).isSome = true then
        some (rows.filter fun x => (read x).any fun a => !isEmpty a) else none := by
  induction rows with
  | nil => simp [importRows]
  | cons x rows ih =>
    rw [importRows_cons]
    simp only [List.forall_mem_cons]
    cases hx : read x with
    | none => rfl
    | some a =>
      simp only [Option.isSome_some, true_and, Option.bind_some]
      cases hl : importRows read isEmpty rows with
      | none =>
        rw [hl] at ih
        split at ih
        · cases ih
        · rename_i hr
          rw [if_neg hr]
          rfl
      | some l =>
        rw [hl] at ih
        split at ih
        · rename_i hr
          rw [if_pos hr]
          have hl := Option.some.inj ih
          by_cases he : isEmpty a = true <;> simp [hx, he, hl]
        · cases ih

/-- Exactly the rows with a property are kept. -/
theorem importRows_eq_iff {α : Type*} {read : ℕ × Row N D → Option α} {isEmpty : α → Bool}
    {rows : List (ℕ × Row N D)} {p : ℕ × Row N D → Bool} :
    (importRows read isEmpty rows).map (List.map Prod.fst) = some (rows.filter p) ↔
      ∀ x ∈ rows, (read x).isSome = true ∧ ((read x).any fun a => !isEmpty a) = p x := by
  rw [importRows_fst]
  constructor
  · intro h
    split at h
    · rename_i hr
      exact fun x hx => ⟨hr x hx, filter_eq_filter_iff.mp (Option.some.inj h) x hx⟩
    · cases h
  · intro h
    rw [if_pos fun x hx => (h x hx).1, filter_eq_filter_iff.mpr fun x hx => (h x hx).2]

/-! ### Maps -/

variable {sheetBean : SheetBean J}

/-- The columns with a definition are looked at. -/
theorem le_lastCellIndex {f : ℤ × CellBeanDefinition J} (hf : f ∈ sheetBean.field)
    (row : Row N D) : f.1 ≤ lastCellIndex sheetBean row := by
  have hmem : f.1 ∈ columnsIndex sheetBean.field := mem_columnsIndex.mpr ⟨f.2, hf⟩
  have hle := (List.pairwise_insertionSort (· ≤ ·)
    (sheetBean.field.map Prod.fst).dedup).rel_getLast hmem
  have hne : columnsIndex sheetBean.field ≠ [] := List.ne_nil_of_mem hmem
  simp only [lastCellIndex, List.getLast?_eq_getLast_of_ne_nil hne, Option.getD_some]
  have hmax := hle.trans (Int.self_le_toNat _)
  split
  · exact hmax
  · exact hmax.trans (Int.ofNat_le.mpr (Nat.le_max_left _ _))

/-- What a map has for a cell of a column without a default. -/
def undefaulted (poi : Poi N D) (v : Option (Value N)) : Option (Value N) :=
  if blankValue poi v then none else v

theorem shown_undefaulted : shownValue poi (undefaulted poi v) = shownValue poi v := by
  unfold undefaulted
  split
  · rename_i hb
    by_cases h : shownValue poi v = true
    · rw [not_blank_of_shown h] at hb
      cases hb
    · simp [h]
  · rfl

theorem orDefault_of_isBlank {o : CellBeanDefinition J} (h : isBlank o.defaultValue = true) :
    o.orDefault poi v = undefaulted poi v := by
  simp [CellBeanDefinition.orDefault, undefaulted, h]

/-- The entries that column `i` puts. -/
def columnEntries (poi : Poi N D) (field : List (ℤ × CellBeanDefinition J)) (row : Row N D) (i : ℕ) :
    List (MapKey × Option (Value N)) :=
  (definitionsAt field (i + 1)).map fun o =>
    (.name o.name, o.orDefault poi ((readCell poi row i).getD none))

theorem isSome_mapColumn (hskip : sheetBean.skipNoMapping = true) (y : ℕ) :
    (mapColumn (V := V) poi sheetBean y row i).isSome = true ↔
      (definitionsAt sheetBean.field (i + 1) ≠ [] → readableAt poi row i = true) := by
  unfold mapColumn
  split
  · rename_i h
    simp [hskip, h]
  · rename_i h
    rw [Option.isSome_map, isSome_readCell]
    exact ⟨fun hr _ => hr, fun hr => hr h⟩

theorem mapColumn_fst (hskip : sheetBean.skipNoMapping = true) {y : ℕ}
    {c : List (MapKey × Option (Value N)) × List (DisplayText N J V)}
    (h : mapColumn poi sheetBean y row i = some c) :
    c.1 = columnEntries poi sheetBean.field row i := by
  unfold mapColumn at h
  unfold columnEntries
  split at h
  · rename_i hd
    rw [if_pos hskip] at h
    cases h
    rw [hd]
    rfl
  · obtain ⟨value, hv, rfl⟩ := Option.map_eq_some_iff.mp h
    rw [hv]
    rfl

/-- The map of a row. -/
def rowMap (poi : Poi N D) (field : List (ℤ × CellBeanDefinition J)) (row : Row N D) (n : ℕ) :
    LinkedHashMap MapKey (Option (Value N)) :=
  LinkedHashMap.empty.putAll ((List.range n).flatMap (columnEntries poi field row))

theorem isSome_mapRow (hskip : sheetBean.skipNoMapping = true) {x : ℕ × Row N D} :
    (mapRow (V := V) poi sheetBean x).isSome = true ↔
      ∀ f ∈ sheetBean.field, 0 < f.1 → readableAt poi x.2 (f.1 - 1).toNat = true := by
  unfold mapRow
  rw [Option.isSome_map, isSome_mapM]
  constructor
  · intro h f hf hpos
    have hle := le_lastCellIndex hf x.2
    have hindex : ((f.1 - 1).toNat : ℤ) + 1 = f.1 := by omega
    refine (isSome_mapColumn hskip x.1).mp
      (h (f.1 - 1).toNat (List.mem_range.mpr (by omega))) ?_
    rw [hindex]
    exact List.ne_nil_of_mem (mem_definitionsAt.mpr hf)
  · intro h i _
    refine (isSome_mapColumn hskip x.1).mpr fun hne => ?_
    obtain ⟨o, ho⟩ := List.exists_mem_of_ne_nil _ hne
    have hr := h _ (mem_definitionsAt.mp ho) (by show (0 : ℤ) < i + 1; omega)
    simpa using hr

theorem mapRow_fst (hskip : sheetBean.skipNoMapping = true) {x : ℕ × Row N D}
    {r : LinkedHashMap MapKey (Option (Value N)) × List (DisplayText N J V)}
    (h : mapRow poi sheetBean x = some r) :
    r.1 = rowMap poi sheetBean.field x.2 (lastCellIndex sheetBean x.2) := by
  obtain ⟨l, hl, rfl⟩ := Option.map_eq_some_iff.mp h
  have hcols : l.map Prod.fst =
      (List.range (lastCellIndex sheetBean x.2)).map (columnEntries poi sheetBean.field x.2) :=
    map_of_mapM hl fun i _ c hc => mapColumn_fst hskip hc
  show LinkedHashMap.empty.putAll (l.flatMap Prod.fst) = _
  rw [List.flatMap_def, hcols, ← List.flatMap_def]
  rfl

/-- No definition of the name has a default. -/
def Undefaulted (field : List (ℤ × CellBeanDefinition J)) (s : String) : Prop :=
  ∀ g ∈ field, g.2.name = s → isBlank g.2.defaultValue = true

theorem not_mem_hasDefaultValue {s : String} :
    MapKey.name s ∉ hasDefaultValue sheetBean ↔ Undefaulted sheetBean.field s := by
  simp only [hasDefaultValue, List.mem_map, List.mem_filter, Bool.not_eq_true', Undefaulted,
    MapKey.name.injEq, not_exists, not_and]
  constructor
  · intro h g hg hs
    by_contra hd
    exact h g ⟨hg, by simpa using hd⟩ hs
  · rintro h g ⟨hg, hd⟩ hs
    rw [h g hg hs] at hd
    cases hd

variable {field : List (ℤ × CellBeanDefinition J)} {s : String}

/-- The value of a name without a default is that of the last column of the name: by
induction on the columns read. -/
theorem get_rowMap (hs : Undefaulted field s) (n : ℕ) :
    (rowMap poi field row n).get (.name s) = some v ↔
      ∃ i < n, (∃ o ∈ definitionsAt field (i + 1), o.name = s) ∧
        (∀ j < n, i < j → ∀ o ∈ definitionsAt field (j + 1), o.name ≠ s) ∧
        v = undefaulted poi ((readCell poi row i).getD none) := by
  induction n with
  | zero =>
    simp [rowMap, LinkedHashMap.putAll, LinkedHashMap.get, LinkedHashMap.empty,
      LinkedHashMap.getEntry]
  | succ n ih =>
    have hstep : rowMap poi field row (n + 1) =
        (rowMap poi field row n).putAll (columnEntries poi field row n) := by
      simp [rowMap, LinkedHashMap.putAll, List.range_succ, List.flatMap_append]
    have hval : ∀ e ∈ columnEntries poi field row n, e.1 = .name s →
        e.2 = undefaulted poi ((readCell poi row n).getD none) := by
      intro e he hk
      obtain ⟨o, ho, rfl⟩ := List.mem_map.mp he
      exact orDefault_of_isBlank (hs _ (mem_definitionsAt.mp ho) (MapKey.name.inj hk))
    have hmem : MapKey.name s ∈ (columnEntries poi field row n).map Prod.fst ↔
        ∃ o ∈ definitionsAt field (n + 1), o.name = s := by
      simp [columnEntries, Function.comp_def]
    rw [hstep, LinkedHashMap.get_putAll_of_forall _ hval]
    by_cases hn : ∃ o ∈ definitionsAt field (n + 1), o.name = s
    · rw [if_pos (hmem.mpr hn), Option.some.injEq]
      constructor
      · rintro rfl
        exact ⟨n, n.lt_succ_self, hn, fun j hj hlt => by omega, rfl⟩
      · rintro ⟨i, hi, -, hlast, rfl⟩
        obtain ⟨o, ho, hname⟩ := hn
        obtain rfl : i = n := by
          by_contra hne
          exact hlast n n.lt_succ_self (by omega) o ho hname
        rfl
    · rw [if_neg fun h => hn (hmem.mp h), ih]
      constructor
      · rintro ⟨i, hi, hdef, hlast, rfl⟩
        refine ⟨i, Nat.lt_succ_of_lt hi, hdef, fun j hj hlt o ho hname => ?_, rfl⟩
        obtain hj | rfl := Nat.lt_succ_iff_lt_or_eq.mp hj
        · exact hlast j hj hlt o ho hname
        · exact hn ⟨o, ho, hname⟩
      · rintro ⟨i, hi, hdef, hlast, rfl⟩
        have hin : i < n := by
          obtain hi | rfl := Nat.lt_succ_iff_lt_or_eq.mp hi
          · exact hi
          · exact absurd hdef hn
        exact ⟨i, hin, hdef, fun j hj => hlast j (Nat.lt_succ_of_lt hj), rfl⟩

theorem name_of_mem_rowMap {n : ℕ} {k : MapKey} (h : (k, v) ∈ (rowMap poi field row n).entries) :
    ∃ s, k = .name s := by
  have hk : k ∈ (rowMap poi field row n).keys := List.mem_map.mpr ⟨_, h, rfl⟩
  obtain hk | hk := LinkedHashMap.mem_keys_putAll hk
  · cases hk
  · obtain ⟨e, he, rfl⟩ := List.mem_map.mp hk
    obtain ⟨i, -, he⟩ := List.mem_flatMap.mp he
    obtain ⟨o, -, rfl⟩ := List.mem_map.mp he
    exact ⟨o.name, rfl⟩

theorem mapCounts_iff : mapCounts poi field row = true ↔
    ∃ f ∈ field, 0 < f.1 ∧ countsAt poi row (f.1 - 1).toNat = true ∧ Undefaulted field f.2.name ∧
      ∀ g ∈ field, g.2.name = f.2.name → g.1 ≤ f.1 := by
  simp only [mapCounts, List.any_eq_true, List.all_eq_true, Bool.and_eq_true, Bool.or_eq_true,
    decide_eq_true_eq, Undefaulted, ne_eq]
  refine exists_congr fun f => and_congr_right fun _ => ?_
  constructor
  · rintro ⟨⟨hpos, hc⟩, h⟩
    exact ⟨hpos, hc, fun g hg hs => ((h g hg).resolve_left (not_not.mpr hs)).1,
      fun g hg hs => ((h g hg).resolve_left (not_not.mpr hs)).2⟩
  · rintro ⟨hpos, hc, hd, hl⟩
    refine ⟨⟨hpos, hc⟩, fun g hg => ?_⟩
    by_cases hs : g.2.name = f.2.name
    · exact .inr ⟨hd g hg hs, hl g hg hs⟩
    · exact .inl hs

/-- A row of a map is kept if a cell of it counts. -/
theorem emptyMap_rowMap
    (hr : ∀ f ∈ sheetBean.field, 0 < f.1 → readableAt poi row (f.1 - 1).toNat = true) :
    emptyMap poi sheetBean (rowMap poi sheetBean.field row (lastCellIndex sheetBean row)) = false ↔
      mapCounts poi sheetBean.field row = true := by
  have hentry : emptyMap poi sheetBean (rowMap poi sheetBean.field row (lastCellIndex sheetBean row)) =
      false ↔ ∃ k v, (rowMap poi sheetBean.field row (lastCellIndex sheetBean row)).get k = some v ∧
        shownValue poi v = true ∧ k ∉ hasDefaultValue sheetBean := by
    simp only [emptyMap, decide_eq_false_iff_not, length_takeWhile_eq_iff,
      LinkedHashMap.get_eq_some_iff]
    simp
  -- a column of the map as one of the definitions, and what its cell is read as
  have hcell : ∀ f ∈ sheetBean.field, 0 < f.1 →
      shownValue poi ((readCell poi row (f.1 - 1).toNat).getD none) =
        countsAt poi row (f.1 - 1).toNat := by
    intro f hf hpos
    have hsome := hr f hf hpos
    rw [← isSome_readCell] at hsome
    obtain ⟨v, hv⟩ := Option.isSome_iff_exists.mp hsome
    rw [hv, Option.getD_some, shown_readCell hv]
  rw [hentry, mapCounts_iff]
  constructor
  · rintro ⟨k, v, hget, hshown, hk⟩
    obtain ⟨s, rfl⟩ := name_of_mem_rowMap ((LinkedHashMap.get_eq_some_iff _).mp hget)
    have hs := not_mem_hasDefaultValue.mp hk
    obtain ⟨i, hi, ⟨o, ho, rfl⟩, hlast, rfl⟩ := (get_rowMap hs _).mp hget
    have hf := mem_definitionsAt.mp ho
    have hc := hcell _ hf (by show (0 : ℤ) < i + 1; omega)
    refine ⟨_, hf, by show (0 : ℤ) < i + 1; omega, ?_, hs, fun g hg hname => ?_⟩
    · rw [← hc]
      simpa [shown_undefaulted] using hshown
    · by_contra hlt
      have hle := le_lastCellIndex hg row
      replace hlt : (i : ℤ) + 1 < g.1 := not_le.mp hlt
      have hindex : ((g.1 - 1).toNat : ℤ) + 1 = g.1 := by omega
      refine hlast (g.1 - 1).toNat (by omega) (by omega) g.2 ?_ hname
      rw [hindex]
      exact mem_definitionsAt.mpr hg
  · rintro ⟨f, hf, hpos, hc, hs, hlast⟩
    have hle := le_lastCellIndex hf row
    have hindex : ((f.1 - 1).toNat : ℤ) + 1 = f.1 := by omega
    refine ⟨.name f.2.name, undefaulted poi ((readCell poi row (f.1 - 1).toNat).getD none),
      (get_rowMap hs _).mpr ⟨(f.1 - 1).toNat, by omega, ⟨f.2, ?_, rfl⟩, fun j hj hlt o ho hname => ?_,
        rfl⟩, ?_, not_mem_hasDefaultValue.mpr hs⟩
    · rw [hindex]
      exact mem_definitionsAt.mpr hf
    · have hmax : (j : ℤ) + 1 ≤ f.1 := hlast _ (mem_definitionsAt.mp ho) hname
      omega
    · rw [shown_undefaulted, hcell f hf hpos, hc]

/-! ### Beans -/

variable {multimap : List (ℤ × CellBeanDefinition J)} {k : ℤ}

theorem shown_filled (definitions : List (CellBeanDefinition J)) (v : Option (Value N)) :
    shownValue poi (filled poi definitions v) =
      (shownValue poi v || blankValue poi v && defaultShown definitions) := by
  unfold filled defaultShown
  by_cases hb : blankValue poi v = true
  · have hv : shownValue poi v = false := by
      by_contra h
      rw [Bool.not_eq_false] at h
      rw [not_blank_of_shown h] at hb
      cases hb
    cases definitions.find? fun o => !isBlank o.defaultValue <;> simp [hb, hv, Value.toString]
  · simp [hb]

theorem shown_beanValue (hread : readableAt poi row (k - 1).toNat = true) :
    shownValue poi (beanValue poi multimap row k) = true ↔
      countsAt poi row (k - 1).toNat = true ∨ vacantAt poi row (k - 1).toNat = true ∧
        defaultShown (definitionsAt multimap k) = true := by
  rw [← isSome_readCell] at hread
  obtain ⟨v, hv⟩ := Option.isSome_iff_exists.mp hread
  rw [beanValue, hv, Option.getD_some, shown_filled, shown_readCell hv, blank_readCell hv,
    Bool.or_eq_true, Bool.and_eq_true]

theorem beanCounts_iff : beanCounts poi multimap row = true ↔
    ∃ f ∈ multimap, 0 < f.1 ∧ (countsAt poi row (f.1 - 1).toNat = true ∨
      vacantAt poi row (f.1 - 1).toNat = true ∧ defaultShown (definitionsAt multimap f.1) = true) := by
  simp only [beanCounts, List.any_eq_true, Bool.and_eq_true, Bool.or_eq_true, decide_eq_true_eq]

/-- A row of beans is kept if a cell or a default of it counts. -/
theorem emptyTexts_getRow {x : ℕ × Row N D} {ds : List (DisplayText N J V)}
    (h : getRow poi conv multimap x = some ds) :
    emptyTexts poi ds = false ↔ beanCounts poi multimap x.2 = true := by
  have hread := isSome_getRow.mp (Option.isSome_of_eq_some h)
  have hflag : ∀ d ∈ ds, d.defaultFlag = false := by
    intro d hd
    obtain ⟨k, o, -, hcol⟩ := of_mem_getRow h hd
    exact hcol.defaultFlag
  have htext : emptyTexts poi ds = false ↔ ∃ d ∈ ds, shownValue poi d.value = true := by
    simp only [emptyTexts, decide_eq_false_iff_not, length_takeWhile_eq_iff, not_forall]
    constructor
    · rintro ⟨d, hd, hs⟩
      exact ⟨d, hd, by simpa [hflag d hd] using hs⟩
    · rintro ⟨d, hd, hs⟩
      exact ⟨d, hd, by simpa [hflag d hd] using hs⟩
  rw [htext, beanCounts_iff]
  constructor
  · rintro ⟨d, hd, hs⟩
    obtain ⟨k, o, ho, hcol⟩ := of_mem_getRow h hd
    obtain ⟨hpos, hcell⟩ := hread _ ho
    rw [hcol.value, shown_beanValue hcell] at hs
    exact ⟨_, ho, hpos, hs⟩
  · rintro ⟨f, hf, hpos, hs⟩
    obtain ⟨d, hd, hcol⟩ := exists_mem_getRow h hf
    refine ⟨d, hd, ?_⟩
    rw [hcol.value]
    exact (shown_beanValue (hread f hf).2).mpr hs

/-! ### Which rows are kept -/

/-- The mapped cells of the row can be read, and one of them counts for a map exactly if
one shows something. -/
def MapSound (poi : Poi N D) (field : List (ℤ × CellBeanDefinition J)) (row : Row N D) : Prop :=
  (∀ f ∈ field, 0 < f.1 → readableAt poi row (f.1 - 1).toNat = true) ∧
    mapCounts poi field row = showsMapped field row

/-- Every column of a definition is there and can be read, and one of them counts for a
bean exactly if one shows something. -/
def BeanSound (poi : Poi N D) (multimap : List (ℤ × CellBeanDefinition J)) (row : Row N D) : Prop :=
  (∀ f ∈ multimap, 0 < f.1 ∧ readableAt poi row (f.1 - 1).toNat = true) ∧
    beanCounts poi multimap row = showsMapped multimap row

theorem mapRow_sound_iff (hskip : sheetBean.skipNoMapping = true) (x : ℕ × Row N D) (p : Bool) :
    ((mapRow (V := V) poi sheetBean x).isSome = true ∧
        ((mapRow (V := V) poi sheetBean x).any fun a => !emptyMap poi sheetBean a.1) = p) ↔
      (∀ f ∈ sheetBean.field, 0 < f.1 → readableAt poi x.2 (f.1 - 1).toNat = true) ∧
        mapCounts poi sheetBean.field x.2 = p := by
  rw [isSome_mapRow hskip]
  refine and_congr_right fun hr => ?_
  obtain ⟨r, hrow⟩ := Option.isSome_iff_exists.mp ((isSome_mapRow (V := V) hskip).mpr hr)
  have hempty := emptyMap_rowMap hr
  rw [← mapRow_fst hskip hrow] at hempty
  rw [hrow, Option.any_some]
  cases hm : mapCounts poi sheetBean.field x.2 <;> simp [hm] at hempty <;> simp [hempty]

theorem getRow_sound_iff (x : ℕ × Row N D) (p : Bool) :
    ((getRow poi conv multimap x).isSome = true ∧
        ((getRow poi conv multimap x).any fun a => !emptyTexts poi a) = p) ↔
      (∀ f ∈ multimap, 0 < f.1 ∧ readableAt poi x.2 (f.1 - 1).toNat = true) ∧
        beanCounts poi multimap x.2 = p := by
  rw [isSome_getRow]
  refine and_congr_right fun hr => ?_
  obtain ⟨ds, hrow⟩ := Option.isSome_iff_exists.mp (isSome_getRow.mpr hr)
  have hempty := emptyTexts_getRow hrow
  rw [hrow, Option.any_some]
  cases hm : beanCounts poi multimap x.2 <;> simp [hm] at hempty <;> simp [hempty]

/-- **Row retention.** The rows kept of a sheet are those with a mapped cell that shows
something, in their order, exactly if every row from the first one of data on is sound:
for maps (of at least one definition, with unmapped columns skipped) and for beans. -/
theorem retained_iff (poi : Poi N D) (conv : Converters N J V) (sheet : Sheet N D)
    (sheetBean : SheetBean J) (multimap : List (ℤ × CellBeanDefinition J)) :
    (sheetBean.skipNoMapping = true →
      ((importMap (V := V) poi sheetBean sheet).map (List.map Prod.fst) =
          some ((sheet.rowsFrom (sheetBean.dataIndex - 1)).filter fun x =>
            showsMapped sheetBean.field x.2) ↔
        sheetBean.field ≠ [] ∧ ∀ x ∈ sheet.rowsFrom (sheetBean.dataIndex - 1),
          MapSound poi sheetBean.field x.2)) ∧
    ((getDisplayText poi conv sheetBean multimap sheet).map (List.map Prod.fst) =
        some ((sheet.rowsFrom (firstRow sheetBean)).filter fun x => showsMapped multimap x.2) ↔
      ∀ x ∈ sheet.rowsFrom (firstRow sheetBean), BeanSound poi multimap x.2) := by
  refine ⟨fun hskip => ?_, ?_⟩
  · unfold importMap
    split
    · rename_i hnil
      simp [List.isEmpty_iff.mp hnil]
    · rename_i hne
      rw [importRows_eq_iff]
      have hfield : sheetBean.field ≠ [] := fun h => hne (List.isEmpty_iff.mpr h)
      simp only [hfield, ne_eq, not_false_eq_true, true_and]
      exact forall₂_congr fun x _ => mapRow_sound_iff hskip x _
  · unfold getDisplayText
    rw [importRows_eq_iff]
    exact forall₂_congr fun x _ => getRow_sound_iff x _

/-! ### One row -/

/-- The numbers 0 and 1, and one day. -/
def twoNumbers : Poi Bool Unit where
  formatNumber n := if n then "1" else "0"
  formatDate _ := "2020-01-02 00:00:00"
  valueOf n := if n then "1.0" else "0.0"
  formulaDate _ := "2020-1-2"
  coerce
    | .blank => some (.inl false)
    | _ => none
  shown_number := by decide
  shown_date _ := by decide
  shown_valueOf := by decide

/-- No date, and no converter but the default one. -/
def plainTexts : Converters Bool Unit Unit where
  isDate _ := false
  parseDate _ := none
  read _ _ value := value.map .value
  factory _ := none
  toString _ := ""
  valid _ _ _ := []

/-- A column for the quantity. -/
def quantity (defaultValue : String) : List (ℤ × CellBeanDefinition Unit) :=
  [(1, { name := "quantity", javaType := (), defaultValue := defaultValue })]

def quantities (defaultValue : String) : SheetBean Unit :=
  { dataIndex := 1, skipNoMapping := true, field := quantity defaultValue }

def oneCell (content : Content Bool Unit) : Sheet Bool Unit :=
  ⟨"stock", [some [some (.plain content)]]⟩

theorem retained_number :
    ((importMap (V := Unit) twoNumbers (quantities "") (oneCell (.number true))).map
          (List.map Prod.fst) =
        some (((oneCell (.number true)).rowsFrom 0).filter fun x =>
          showsMapped (quantities "").field x.2) ↔
      (quantities "").field ≠ [] ∧ ∀ x ∈ (oneCell (.number true)).rowsFrom 0,
        MapSound twoNumbers (quantities "").field x.2) ∧
    ((getDisplayText twoNumbers plainTexts (quantities "") (quantity "")
          (oneCell (.number true))).map (List.map Prod.fst) =
        some (((oneCell (.number true)).rowsFrom 0).filter fun x => showsMapped (quantity "") x.2) ↔
      ∀ x ∈ (oneCell (.number true)).rowsFrom 0, BeanSound twoNumbers (quantity "") x.2) :=
  (retained_iff twoNumbers plainTexts (oneCell (.number true)) (quantities "") (quantity "")).imp_left
    fun h => h rfl

/-- A row is dropped with its quantity, as there is a default; and a blank row is kept
with the default. -/
theorem default_retained : ¬ (
    (importMap (V := Unit) twoNumbers (quantities "0") (oneCell (.number true))).map
        (List.map Prod.fst) =
      some (((oneCell (.number true)).rowsFrom 0).filter fun x =>
        showsMapped (quantities "0").field x.2)) ∧
    ¬ ((getDisplayText twoNumbers plainTexts (quantities "0") (quantity "0")
        (oneCell .blank)).map (List.map Prod.fst) =
      some (((oneCell .blank).rowsFrom 0).filter fun x => showsMapped (quantity "0") x.2)) :=
  ⟨fun h => absurd (congrArg (Option.map List.length) h) (by decide),
    fun h => absurd (congrArg (Option.map List.length) h) (by decide)⟩

end Excel
end Framework
end CloudManager
