/-
# Repeated values

Both ways of validation share `validateField`, which looks a value up among those seen
of its name. For maps they are forgotten after each row, and no repeat is reported at all.
For beans they are those of all columns with the definition, in this row and in all rows
before it; a definition has several columns where the header has its title several times.
`repeats_reported` says for which rows that comes to the repeats in a column.
-/
import Mathlib.Data.List.Nodup
import CloudManager.Framework.Excel.Retention

namespace CloudManager
namespace Framework
namespace Excel

open Sequences

variable {N D J V : Type*}

/-! ### Checks -/

/-- A value that is looked up: its row, its definition and its text. -/
structure Check (J : Type*) where
  rowIndex : ℕ
  definition : CellBeanDefinition J
  text : String

/-- What is looked up, if repeats are not allowed. -/
def Check.key (c : Check J) : Option (String × String) :=
  if c.definition.allowRepeat then none else some (c.definition.name, c.text)

theorem of_key {c : Check J} {name text : String} (h : c.key = some (name, text)) :
    c.definition.name = name ∧ c.text = text := by
  unfold Check.key at h
  split at h
  · cases h
  · exact Prod.mk.injEq .. ▸ Option.some.inj h

/-- The rows and definitions of the repeats reported. -/
def Validation.repeated (st : Validation J) : List (ℕ × Option (CellBeanDefinition J)) :=
  (st.reports.filter (·.kind = .repeated)).map fun r => (r.rowIndex, r.definition)

/-- From `st` to `st'` the checks `cs` are made. -/
structure Checks (st : Validation J) (cs : List (Check J)) (st' : Validation J) : Prop where
  seen : st'.seen = st.seen ++ cs.filterMap Check.key
  repeated : st'.repeated =
    st.repeated ++ (repeats Check.key st.seen cs).map fun c => (c.rowIndex, some c.definition)

variable {poi : Poi N D} {conv : Converters N J V} {sheetName : String}
  {st st' st'' : Validation J} {cs cs' : List (Check J)} {d : DisplayText N J V}
  {o : CellBeanDefinition J}

theorem Checks.refl (st : Validation J) : Checks st [] st := by
  constructor <;> simp [repeats]

theorem Checks.trans (h : Checks st cs st') (h' : Checks st' cs' st'') :
    Checks st (cs ++ cs') st'' where
  seen := by rw [h'.seen, h.seen, List.append_assoc, List.filterMap_append]
  repeated := by
    rw [h'.repeated, h.repeated, h.seen, repeats_append, List.map_append, List.append_assoc]

theorem Checks.foldl {α : Type*} {g : Validation J → α → Validation J} {f : α → List (Check J)}
    {l : List α} (h : ∀ st, ∀ a ∈ l, Checks st (f a) (g st a)) (st : Validation J) :
    Checks st (l.flatMap f) (l.foldl g st) := by
  induction l generalizing st with
  | nil => exact .refl st
  | cons a l ih =>
    exact (h st a List.mem_cons_self).trans
      (ih (fun st b hb => h st b (List.mem_cons_of_mem a hb)) (g st a))

/-- Reports of other kinds. -/
theorem Checks.report {kind : ErrorKind} (hk : kind ≠ .repeated) (st : Validation J)
    (d : DisplayText N J V) (definition : Option (CellBeanDefinition J)) (text : String) :
    Checks st [] (st.report d kind definition text) where
  seen := by simp [Validation.report]
  repeated := by simp [Validation.report, Validation.repeated, repeats, List.filter_append, hk]

theorem repeated_reportRepeat (poi : Poi N D) (sheetName : String) (o : CellBeanDefinition J)
    (d : DisplayText N J V) (st : Validation J) :
    (reportRepeat poi sheetName o d st).repeated = st.repeated ++ [(d.rowIndex, some o)] := by
  simp [reportRepeat, Validation.report, Validation.repeated, List.filter_append]

theorem seen_reportRepeat (st : Validation J) : (reportRepeat poi sheetName o d st).seen = st.seen :=
  rfl

/-- The lookup of `validateField`. -/
theorem checks_lookup (value : String) (st : Validation J) :
    Checks st [⟨d.rowIndex, o, value⟩] (if o.allowRepeat then st else
      { (if (o.name, value) ∈ st.seen then reportRepeat poi sheetName o d st else st) with
        seen := (if (o.name, value) ∈ st.seen then reportRepeat poi sheetName o d st
          else st).seen ++ [(o.name, value)] }) := by
  by_cases ho : o.allowRepeat = true
  · constructor <;> simp [Check.key, ho, repeats]
  · by_cases hm : (o.name, value) ∈ st.seen
    · have hrep := repeated_reportRepeat poi sheetName o d st
      constructor
      · simp [Check.key, ho, hm, seen_reportRepeat]
      · simp only [ho, hm]
        simpa [Check.key, ho, hm, repeats, Validation.repeated] using hrep
    · constructor <;> simp [Check.key, ho, hm, repeats, Validation.repeated]

theorem checks_validateField (conv : Converters N J V) (val : Option (Obj N V))
    (st : Validation J) :
    Checks st [⟨d.rowIndex, o, checkedText poi conv (checked d val)⟩]
      (validateField poi conv sheetName o d val st) := by
  have hblank : Checks st [] (if !o.allowBlank && !isShown (checkedText poi conv (checked d val)) then
      reportBlank poi sheetName o d st else st) := by
    split
    · exact .report (by decide) st d _ _
    · exact .refl st
  have hvalid : ∀ st, Checks st [] ((conv.valid o d (checked d val)).foldl
      (fun st msg => st.report d .valid (some o) msg) st) := by
    intro st
    have h := Checks.foldl (f := fun _ => []) (l := conv.valid o d (checked d val))
      (g := fun st msg => st.report d .valid (some o) msg)
      (fun st msg _ => .report (by decide) st d _ msg) st
    rwa [List.flatMap_eq_nil_iff.mpr fun _ _ => rfl] at h
  exact (hblank.trans (checks_lookup _ _)).trans (hvalid _)

theorem checks_reportText (sheetName : String) (d : DisplayText N J V) (st : Validation J) :
    Checks st [] (reportText sheetName d st) := by
  unfold reportText
  split
  · split
    · exact .refl st
    · exact .report (by decide) st d _ _
  · exact .refl st

/-! ### The checks of a row -/

/-- The checks of a text of a row of beans. -/
def textChecks (poi : Poi N D) (multimap : List (ℤ × CellBeanDefinition J))
    (d : DisplayText N J V) : List (Check J) :=
  (definitionsAt multimap (d.cellIndex + 1)).map fun o =>
    ⟨d.rowIndex, o, d.value.elim "" (Value.toString poi)⟩

theorem checkedText_none (d : DisplayText N J V) :
    checkedText poi conv (checked d none) = d.value.elim "" (Value.toString poi) := by
  unfold checked checkedText
  cases d.value <;> rfl

variable {multimap : List (ℤ × CellBeanDefinition J)}

theorem checks_validateBean (poi : Poi N D) (conv : Converters N J V) (sheetName : String)
    (multimap : List (ℤ × CellBeanDefinition J)) (displayTexts : List (List (DisplayText N J V))) :
    Checks {} (displayTexts.flatMap fun list => list.flatMap (textChecks poi multimap))
      (validateBean poi conv sheetName multimap displayTexts) := by
  refine Checks.foldl (fun st list _ => Checks.foldl (fun st d _ => ?_) st) {}
  have hfields := Checks.foldl (l := definitionsAt multimap (d.cellIndex + 1))
    (g := fun st o => validateField poi conv sheetName o d none st)
    (fun st o _ => checks_validateField conv none st) st
  have h := hfields.trans (checks_reportText sheetName d _)
  simpa [textChecks, checkedText_none, List.map_eq_flatMap] using h

/-- The text that is looked up of a row in a column. -/
def rowText (poi : Poi N D) (multimap : List (ℤ × CellBeanDefinition J)) (x : ℕ × Row N D) (k : ℤ) :
    String :=
  (beanValue poi multimap x.2 k).elim "" (Value.toString poi)

/-- The checks of a row of beans, by columns. -/
def rowChecks (poi : Poi N D) (multimap : List (ℤ × CellBeanDefinition J)) (x : ℕ × Row N D) :
    List (Check J) :=
  (columnsIndex multimap).flatMap fun k => (definitionsAt multimap k).map fun o =>
    ⟨x.1, o, rowText poi multimap x k⟩

theorem textChecks_getRow {x : ℕ × Row N D} {ds : List (DisplayText N J V)}
    (h : getRow poi conv multimap x = some ds) :
    ds.flatMap (textChecks poi multimap) = rowChecks poi multimap x := by
  rw [List.flatMap_def, rowChecks, List.flatMap_def]
  congr 1
  refine map_of_mapM h fun k _ d hd => ?_
  have hcol := columnText_readColumn hd
  rw [textChecks, hcol.rowIndex, hcol.cellIndex, hcol.value]
  rfl

theorem mem_rowChecks {x : ℕ × Row N D} {c : Check J} :
    c ∈ rowChecks poi multimap x ↔ ∃ f ∈ multimap,
      c = ⟨x.1, f.2, rowText poi multimap x f.1⟩ := by
  simp only [rowChecks, List.mem_flatMap, List.mem_map, mem_columnsIndex, mem_definitionsAt]
  constructor
  · rintro ⟨k, -, o, ho, rfl⟩
    exact ⟨(k, o), ho, rfl⟩
  · rintro ⟨f, hf, rfl⟩
    exact ⟨f.1, ⟨f.2, hf⟩, f.2, hf, rfl⟩

/-! ### Names of their own -/

/-- A name is that of one definition, in one column. -/
theorem eq_of_name {f g : ℤ × CellBeanDefinition J} (hn : (multimap.map (·.2.name)).Nodup)
    (hf : f ∈ multimap) (hg : g ∈ multimap) (h : f.2.name = g.2.name) : f = g :=
  List.inj_on_of_nodup_map hn hf hg h

/-- The names of different columns. -/
theorem nodup_names (hn : (multimap.map (·.2.name)).Nodup) {ks : List ℤ} (hks : ks.Nodup) :
    (ks.flatMap fun k => (definitionsAt multimap k).map (·.name)).Nodup := by
  refine List.nodup_flatMap.mpr ⟨fun k _ => ?_, hks.imp fun {k k'} hne s hs hs' => ?_⟩
  · rw [definitionsAt, List.map_map]
    exact hn.sublist (List.filter_sublist.map _)
  · obtain ⟨o, ho, rfl⟩ := List.mem_map.mp hs
    obtain ⟨o', ho', hname⟩ := List.mem_map.mp hs'
    have he := eq_of_name hn (mem_definitionsAt.mp ho') (mem_definitionsAt.mp ho) hname
    exact hne (congrArg Prod.fst he).symm

theorem nodup_keys {cs : List (Check J)} (h : (cs.map (·.definition.name)).Nodup) :
    (cs.filterMap Check.key).Nodup := by
  rw [List.nodup_iff_pairwise_ne, List.pairwise_map] at h
  refine List.nodup_iff_pairwise_ne.mpr (h.filterMap Check.key fun c c' hne k hk k' hk' he => ?_)
  subst he
  exact hne ((of_key hk).1.trans (of_key hk').1.symm)

/-! ### The rows of beans -/

theorem pairwise_rowsFrom (sheet : Sheet N D) (start : ℤ) :
    (sheet.rowsFrom start).Pairwise fun x y => x.1 < y.1 := by
  have hz : sheet.rows.zipIdx.Pairwise fun x y => x.2 < y.2 := by
    rw [← List.pairwise_map (f := Prod.snd) (R := (· < ·)), List.zipIdx_map_snd]
    exact List.pairwise_lt_range'
  refine hz.filterMap _ fun x y hlt a ha b hb => ?_
  split at ha
  · obtain ⟨r, -, rfl⟩ := Option.map_eq_some_iff.mp ha
    split at hb
    · obtain ⟨r', -, rfl⟩ := Option.map_eq_some_iff.mp hb
      exact hlt
    · cases hb
  · cases ha

/-- What is kept was read, and is not empty. -/
theorem of_mem_importRows {α : Type*} {read : ℕ × Row N D → Option α} {isEmpty : α → Bool}
    {rows : List (ℕ × Row N D)} {l : List ((ℕ × Row N D) × α)}
    (h : importRows read isEmpty rows = some l) {x : (ℕ × Row N D) × α} (hx : x ∈ l) :
    read x.1 = some x.2 := by
  obtain ⟨l', hl', rfl⟩ := Option.map_eq_some_iff.mp h
  obtain ⟨y, -, hy⟩ := (mem_of_mapM hl').mp (List.mem_filter.mp hx).1
  obtain ⟨a, ha, rfl⟩ := Option.map_eq_some_iff.mp hy
  exact ha

theorem fst_importRows {α : Type*} {read : ℕ × Row N D → Option α} {isEmpty : α → Bool}
    {rows : List (ℕ × Row N D)} {l : List ((ℕ × Row N D) × α)}
    (h : importRows read isEmpty rows = some l) :
    l.map Prod.fst = rows.filter fun x => (read x).any fun a => !isEmpty a := by
  have hfst := importRows_fst read isEmpty rows
  rw [h] at hfst
  split at hfst
  · exact Option.some.inj hfst
  · cases hfst

/-- A repeat of `o` is reported at a row with a value that is not blank exactly if a row
kept before has the same value: the same text. -/
def ReportsRepeats {β : Type*} (poi : Poi N D) (value : (ℕ × Row N D) × β → Option (Value N))
    (o : CellBeanDefinition J) (kept : List ((ℕ × Row N D) × β)) (reports : List (Report J)) : Prop :=
  ∀ l x l', kept = l ++ x :: l' → blankValue poi (value x) = false →
    ((∃ r ∈ reports, r.kind = .repeated ∧ r.rowIndex = x.1.1 ∧ r.definition = some o) ↔
      ∃ x' ∈ l, (value x').map (Value.toString poi) = (value x).map (Value.toString poi))

theorem mem_repeated {y : ℕ} {definition : Option (CellBeanDefinition J)} :
    (∃ r ∈ st.reports, r.kind = .repeated ∧ r.rowIndex = y ∧ r.definition = definition) ↔
      (y, definition) ∈ st.repeated := by
  simp [Validation.repeated, and_assoc]

/-- The text that is looked up, of a value that is not blank. -/
theorem text_eq_iff {v v' : Option (Value N)} (h : blankValue poi v = false) :
    v'.elim "" (Value.toString poi) = v.elim "" (Value.toString poi) ↔
      v'.map (Value.toString poi) = v.map (Value.toString poi) := by
  cases v with
  | none => cases h
  | some a =>
    cases v' with
    | some b => simp
    | none =>
      have hne : "" ≠ a.toString poi := by
        intro he
        rw [blankValue_some, ← he] at h
        revert h
        decide
      simpa using hne

/-- The text of a column in a row of beans. -/
def columnText (k : ℤ) (ds : List (DisplayText N J V)) : Option (Value N) :=
  (ds.find? fun d => (d.cellIndex : ℤ) + 1 = k).bind (·.value)

theorem columnText_getRow {x : ℕ × Row N D} {ds : List (DisplayText N J V)}
    (h : getRow poi conv multimap x = some ds) {f : ℤ × CellBeanDefinition J} (hf : f ∈ multimap) :
    columnText f.1 ds = beanValue poi multimap x.2 f.1 := by
  unfold columnText
  obtain ⟨d, hmem, hcol⟩ := exists_mem_getRow h hf
  cases hd : ds.find? fun d => (d.cellIndex : ℤ) + 1 = f.1 with
  | none =>
    have hne := List.find?_eq_none.mp hd d hmem
    simp [hcol.cellIndex] at hne
  | some d' =>
    have hk : (d'.cellIndex : ℤ) + 1 = f.1 := by simpa using List.find?_some hd
    obtain ⟨k, o, -, hcol'⟩ := of_mem_getRow h (List.mem_of_find?_eq_some hd)
    obtain rfl : k = f.1 := hcol'.cellIndex.symm.trans hk
    rw [Option.bind_some, hcol'.value]

theorem key_rowCheck {f : ℤ × CellBeanDefinition J} (hr : f.2.allowRepeat = false)
    (x : ℕ × Row N D) :
    Check.key (⟨x.1, f.2, rowText poi multimap x f.1⟩ : Check J) =
      some (f.2.name, rowText poi multimap x f.1) := by
  simp [Check.key, hr]

/-- A name is that of one definition, which is in a column once. -/
structure NamedOnce (multimap : List (ℤ × CellBeanDefinition J)) : Prop where
  definition : ∀ f ∈ multimap, ∀ g ∈ multimap, f.2.name = g.2.name → f.2 = g.2
  nodup : multimap.Nodup

/-- The text of `x` in column `k` was looked up before: in `x`, in a column of the definition
on its left, or in a row of `l`, in any column of it. -/
def LookedUp (poi : Poi N D) (multimap : List (ℤ × CellBeanDefinition J))
    (o : CellBeanDefinition J) (l : List (ℕ × Row N D)) (x : ℕ × Row N D) (k : ℤ) : Prop :=
  ∃ k', (k', o) ∈ multimap ∧ (k' < k ∧ rowText poi multimap x k' = rowText poi multimap x k ∨
    ∃ y ∈ l, rowText poi multimap y k' = rowText poi multimap x k)

/-- The definitions by columns: one with several columns from left to right. -/
theorem pairwise_rowChecks (poi : Poi N D) (h : multimap.Nodup) (x : ℕ × Row N D) :
    ∃ fs : List (ℤ × CellBeanDefinition J),
      rowChecks poi multimap x = fs.map (fun f => ⟨x.1, f.2, rowText poi multimap x f.1⟩) ∧
      (∀ f, f ∈ fs ↔ f ∈ multimap) ∧ fs.Pairwise fun f g => f.2 = g.2 → f.1 < g.1 := by
  refine ⟨(columnsIndex multimap).flatMap fun k => (definitionsAt multimap k).map fun o => (k, o),
    ?_, fun f => ?_, ?_⟩
  · simp [rowChecks, List.map_flatMap, Function.comp_def]
  · simp only [List.mem_flatMap, List.mem_map, mem_columnsIndex, mem_definitionsAt]
    constructor
    · rintro ⟨k, -, o, ho, rfl⟩
      exact ho
    · exact fun hf => ⟨f.1, ⟨f.2, hf⟩, f.2, hf, rfl⟩
  · refine List.pairwise_flatMap.mpr ⟨fun k _ => ?_, ?_⟩
    · have hcolumn : (definitionsAt multimap k).Nodup := by
        refine List.Nodup.map_on (fun f hf g hg hfg => ?_) (h.filter _)
        have hk : f.1 = k := by simpa using (List.mem_filter.mp hf).2
        have hk' : g.1 = k := by simpa using (List.mem_filter.mp hg).2
        exact Prod.ext (hk.trans hk'.symm) hfg
      rw [List.pairwise_map]
      exact hcolumn.imp fun hne he => absurd he hne
    · refine (pairwise_columnsIndex multimap).imp fun {k k'} hlt f hf g hg _ => ?_
      obtain ⟨o, -, rfl⟩ := List.mem_map.mp hf
      obtain ⟨o', -, rfl⟩ := List.mem_map.mp hg
      exact hlt

/-- What was looked up in rows. -/
theorem mem_keys_rowChecks (poi : Poi N D) (hn : NamedOnce multimap) {f : ℤ × CellBeanDefinition J}
    (hf : f ∈ multimap) (hr : f.2.allowRepeat = false) (l : List (ℕ × Row N D)) (text : String) :
    (f.2.name, text) ∈ (l.flatMap (rowChecks poi multimap)).filterMap Check.key ↔
      ∃ k, (k, f.2) ∈ multimap ∧ ∃ y ∈ l, rowText poi multimap y k = text := by
  simp only [List.mem_filterMap, List.mem_flatMap]
  constructor
  · rintro ⟨c, ⟨y, hy, hc⟩, hck⟩
    obtain ⟨g, hg, rfl⟩ := mem_rowChecks.mp hc
    obtain ⟨hname, htext⟩ := of_key hck
    refine ⟨g.1, ?_, y, hy, htext⟩
    rw [← hn.definition g hg f hf hname]
    exact hg
  · rintro ⟨k, hk, y, hy, rfl⟩
    exact ⟨_, ⟨y, hy, mem_rowChecks.mpr ⟨(k, f.2), hk, rfl⟩⟩, key_rowCheck (f := (k, f.2)) hr y⟩

/-- A repeat of a definition is found in a row if a text of it there was looked up before, or
comes in a column of the definition on the left. -/
theorem mem_repeats_rowCheck (poi : Poi N D) (hn : NamedOnce multimap)
    {f : ℤ × CellBeanDefinition J} (hr : f.2.allowRepeat = false) (seen : List (String × String))
    (x : ℕ × Row N D) :
    (∃ c ∈ repeats Check.key seen (rowChecks poi multimap x), c.definition = f.2) ↔
      ∃ k, (k, f.2) ∈ multimap ∧ ((f.2.name, rowText poi multimap x k) ∈ seen ∨
        ∃ k', (k', f.2) ∈ multimap ∧ k' < k ∧ rowText poi multimap x k' = rowText poi multimap x k) := by
  obtain ⟨fs, hfs, hmem, hpairwise⟩ := pairwise_rowChecks poi hn.nodup x
  constructor
  · rintro ⟨c, hc, hdef⟩
    obtain ⟨before, after, key, hsplit, hck, hseen⟩ := mem_repeats_iff.mp hc
    rw [hfs] at hsplit
    obtain ⟨fs₁, fs₂, rfl, rfl, htail⟩ := List.map_eq_append_iff.mp hsplit
    obtain ⟨g, fs₃, rfl, rfl, -⟩ := List.map_eq_cons_iff.mp htail
    have hg : g ∈ multimap := (hmem g).mp (by simp)
    have hgf : g.2 = f.2 := hdef
    obtain rfl := Option.some.inj ((key_rowCheck (hgf ▸ hr) x).symm.trans hck)
    refine ⟨g.1, hgf ▸ hg, hseen.imp (hgf ▸ ·) fun hseen => ?_⟩
    obtain ⟨c', hc', hkey⟩ := List.mem_filterMap.mp hseen
    obtain ⟨g', hg', rfl⟩ := List.mem_map.mp hc'
    have hg'm : g' ∈ multimap := (hmem g').mp (List.mem_append_left _ hg')
    obtain ⟨hname, htext⟩ := of_key hkey
    have hgg := hn.definition g' hg'm g hg hname
    refine ⟨g'.1, hgf ▸ hgg ▸ hg'm, ?_, htext⟩
    exact (List.pairwise_append.mp hpairwise).2.2 g' hg' g List.mem_cons_self hgg
  · rintro ⟨k, hk, hseen⟩
    refine ⟨⟨x.1, f.2, rowText poi multimap x k⟩, mem_repeats_iff.mpr ?_, rfl⟩
    obtain ⟨fs₁, fs₂, rfl⟩ := List.append_of_mem ((hmem (k, f.2)).mpr hk)
    refine ⟨_, _, (f.2.name, rowText poi multimap x k), by rw [hfs, List.map_append, List.map_cons],
      key_rowCheck (f := (k, f.2)) hr x, hseen.imp_right ?_⟩
    rintro ⟨k', hk', hlt, htext⟩
    have hleft : (k', f.2) ∈ fs₁ := by
      obtain hin | hin := List.mem_append.mp ((hmem (k', f.2)).mpr hk')
      · exact hin
      obtain he | hin := List.mem_cons.mp hin
      · exact absurd (congrArg Prod.fst he) hlt.ne
      · have hafter := (List.pairwise_cons.mp (List.pairwise_append.mp hpairwise).2.1).1 _ hin rfl
        exact absurd hafter (not_lt.mpr hlt.le)
    refine List.mem_filterMap.mpr ⟨_, List.mem_map_of_mem hleft, ?_⟩
    rw [← htext]
    exact key_rowCheck (f := (k', f.2)) hr x

/-- A repeat is found at a row if a text of the definition in it was looked up before. -/
theorem mem_repeats_rowChecks (poi : Poi N D) (hn : NamedOnce multimap)
    {f : ℤ × CellBeanDefinition J} (hf : f ∈ multimap) (hr : f.2.allowRepeat = false)
    {l l' : List (ℕ × Row N D)} {x : ℕ × Row N D} (hindex : ∀ y ∈ l ++ l', y.1 ≠ x.1) :
    (∃ c ∈ repeats Check.key [] ((l ++ x :: l').flatMap (rowChecks poi multimap)),
        c.rowIndex = x.1 ∧ c.definition = f.2) ↔
      ∃ k, (k, f.2) ∈ multimap ∧ LookedUp poi multimap f.2 l x k := by
  have hother : ∀ (l₀ : List (ℕ × Row N D)) (seen) (c : Check J), (∀ y ∈ l₀, y ∈ l ++ l') →
      c ∈ repeats Check.key seen (l₀.flatMap (rowChecks poi multimap)) → c.rowIndex ≠ x.1 := by
    intro l₀ seen c hl₀ hc
    obtain ⟨y, hy, hcy⟩ := List.mem_flatMap.mp (mem_of_mem_repeats hc)
    obtain ⟨g, -, rfl⟩ := mem_rowChecks.mp hcy
    exact hindex y (hl₀ y hy)
  have hlooked : ∀ k, LookedUp poi multimap f.2 l x k ↔
      (f.2.name, rowText poi multimap x k) ∈ (l.flatMap (rowChecks poi multimap)).filterMap Check.key ∨
        ∃ k', (k', f.2) ∈ multimap ∧ k' < k ∧
          rowText poi multimap x k' = rowText poi multimap x k := by
    intro k
    rw [mem_keys_rowChecks poi hn hf hr l, LookedUp, or_comm, ← exists_or]
    exact exists_congr fun k' => and_or_left
  simp only [hlooked]
  rw [← mem_repeats_rowCheck poi hn hr, List.flatMap_append, List.flatMap_cons, repeats_append,
    repeats_append, List.nil_append]
  constructor
  · rintro ⟨c, hc, hrow, hdef⟩
    obtain hc | hc := List.mem_append.mp hc
    · exact (hother l _ c (fun y => List.mem_append_left l') hc hrow).elim
    obtain hc | hc := List.mem_append.mp hc
    · exact ⟨c, hc, hdef⟩
    · exact (hother l' _ c (fun y => List.mem_append_right l) hc hrow).elim
  · rintro ⟨c, hc, hdef⟩
    obtain ⟨g, -, hg⟩ := mem_rowChecks.mp (mem_of_mem_repeats hc)
    refine ⟨c, List.mem_append_right _ (List.mem_append_left _ hc), ?_, hdef⟩
    rw [hg]

/-- The rows that an import of beans keeps. -/
def keptRows (poi : Poi N D) (sheetBean : SheetBean J) (sheet : Sheet N D)
    (multimap : List (ℤ × CellBeanDefinition J)) : List (ℕ × Row N D) :=
  (sheet.rowsFrom (firstRow sheetBean)).filter fun x => beanCounts poi multimap x.2

theorem isSome_importRows {α : Type*} {read : ℕ × Row N D → Option α} {isEmpty : α → Bool}
    {rows : List (ℕ × Row N D)} :
    (importRows read isEmpty rows).isSome = true ↔ ∀ x ∈ rows, (read x).isSome = true := by
  rw [importRows, Option.isSome_map, isSome_mapM]
  simp only [Option.isSome_map]

/-- Every row can be read. -/
def Readable (poi : Poi N D) (sheetBean : SheetBean J) (sheet : Sheet N D)
    (multimap : List (ℤ × CellBeanDefinition J)) : Prop :=
  ∀ x ∈ sheet.rowsFrom (firstRow sheetBean), ∀ f ∈ multimap,
    0 < f.1 ∧ readableAt poi x.2 (f.1 - 1).toNat = true

theorem isSome_getDisplayText {sheetBean : SheetBean J} {sheet : Sheet N D} :
    (getDisplayText poi conv sheetBean multimap sheet).isSome = true ↔
      Readable poi sheetBean sheet multimap := by
  rw [getDisplayText, isSome_importRows]
  exact forall₂_congr fun x _ => isSome_getRow

theorem fst_getDisplayText {sheetBean : SheetBean J} {sheet : Sheet N D}
    {displayTexts : List ((ℕ × Row N D) × List (DisplayText N J V))}
    (h : getDisplayText poi conv sheetBean multimap sheet = some displayTexts) :
    displayTexts.map Prod.fst = keptRows poi sheetBean sheet multimap := by
  have hread := isSome_getDisplayText.mp (Option.isSome_of_eq_some h)
  rw [fst_importRows h]
  exact filter_eq_filter_iff.mpr fun x hx => ((getRow_sound_iff x _).mpr ⟨hread x hx, rfl⟩).2

/-- Wherever a text of a definition that may not repeat comes a second time, in a column of
the definition further to the right or in a later row, each value of it in this row has come
before in the same column. -/
def RepeatsInColumn (poi : Poi N D) (multimap : List (ℤ × CellBeanDefinition J))
    (rows : List (ℕ × Row N D)) : Prop :=
  ∀ l x l', rows = l ++ x :: l' → ∀ f ∈ multimap, f.2.allowRepeat = false →
    blankValue poi (beanValue poi multimap x.2 f.1) = false →
    (∃ k, (k, f.2) ∈ multimap ∧ LookedUp poi multimap f.2 l x k) →
      ∃ y ∈ l, (beanValue poi multimap y.2 f.1).map (Value.toString poi) =
        (beanValue poi multimap x.2 f.1).map (Value.toString poi)

/-- What is reported of a definition at a row. -/
theorem mem_reports_bean {sheetBean : SheetBean J} {sheet : Sheet N D}
    {beans : List ((ℕ × Row N D) × List (DisplayText N J V))}
    (h : getDisplayText poi conv sheetBean multimap sheet = some beans) (hn : NamedOnce multimap)
    {f : ℤ × CellBeanDefinition J} (hf : f ∈ multimap) (hr : f.2.allowRepeat = false)
    {l l' : List ((ℕ × Row N D) × List (DisplayText N J V))}
    {x : (ℕ × Row N D) × List (DisplayText N J V)} (hbeans : beans = l ++ x :: l') :
    (∃ r ∈ (validateBean poi conv sheetName multimap (beans.map Prod.snd)).reports,
        r.kind = .repeated ∧ r.rowIndex = x.1.1 ∧ r.definition = some f.2) ↔
      ∃ k, (k, f.2) ∈ multimap ∧ LookedUp poi multimap f.2 (l.map Prod.fst) x.1 k := by
  subst hbeans
  have hrow : ∀ y ∈ l ++ x :: l', y.2.flatMap (textChecks poi multimap) = rowChecks poi multimap y.1 :=
    fun y hy => textChecks_getRow (of_mem_importRows h hy)
  have hindex : ∀ y ∈ l.map Prod.fst ++ l'.map Prod.fst, y.1 ≠ x.1.1 := by
    have hpw := (pairwise_rowsFrom sheet (firstRow sheetBean)).filter
      (fun x => (getRow poi conv multimap x).any fun a => !emptyTexts poi a)
    rw [← fst_importRows h, List.map_append, List.map_cons] at hpw
    intro y hy
    obtain hy | hy := List.mem_append.mp hy
    · exact (pairwise_iff_append.mp hpw _ x.1 _ rfl y hy).ne
    · exact ((List.pairwise_cons.mp (List.pairwise_append.mp hpw).2.1).1 y hy).ne'
  have hflat : ((l ++ x :: l').map Prod.snd).flatMap
        (fun list => list.flatMap (textChecks poi multimap)) =
      (l.map Prod.fst ++ x.1 :: l'.map Prod.fst).flatMap (rowChecks poi multimap) := by
    rw [List.flatMap_map, List.flatMap_congr hrow, ← List.map_cons, ← List.map_append,
      List.flatMap_map]
  have hrepeated : (validateBean poi conv sheetName multimap
      ((l ++ x :: l').map Prod.snd)).repeated =
      (repeats Check.key [] ((l.map Prod.fst ++ x.1 :: l'.map Prod.fst).flatMap
        (rowChecks poi multimap))).map fun c => (c.rowIndex, some c.definition) := by
    rw [(checks_validateBean poi conv sheetName multimap _).repeated, hflat]
    rfl
  rw [mem_repeated, hrepeated, List.mem_map]
  simp only [Prod.mk.injEq, Option.some.injEq]
  exact mem_repeats_rowChecks poi hn hf hr hindex

/-- For beans the repeats reported are those in a column exactly if a text comes a second
time only where the values do. -/
theorem reportsRepeats_bean_iff {sheetBean : SheetBean J} {sheet : Sheet N D}
    {beans : List ((ℕ × Row N D) × List (DisplayText N J V))}
    (h : getDisplayText poi conv sheetBean multimap sheet = some beans) (hn : NamedOnce multimap) :
    (∀ f ∈ multimap, f.2.allowRepeat = false →
      ReportsRepeats poi (fun x => columnText f.1 x.2) f.2 beans
        (validateBean poi conv sheetName multimap (beans.map Prod.snd)).reports) ↔
      RepeatsInColumn poi multimap (keptRows poi sheetBean sheet multimap) := by
  have htext : ∀ y ∈ beans, ∀ f ∈ multimap, columnText f.1 y.2 = beanValue poi multimap y.1.2 f.1 :=
    fun y hy f hf => columnText_getRow (of_mem_importRows h hy) hf
  rw [RepeatsInColumn, ← fst_getDisplayText h]
  constructor
  · intro hreports l₁ x₁ l₂ hsplit f hf hr hblank hlook
    obtain ⟨l, l'', rfl, rfl, htail⟩ := List.map_eq_append_iff.mp hsplit
    obtain ⟨x, l', rfl, rfl, rfl⟩ := List.map_eq_cons_iff.mp htail
    have hx := htext x (by simp) f hf
    obtain ⟨y, hy, he⟩ := (hreports f hf hr l x l' rfl ((congrArg _ hx).trans hblank)).mp
      ((mem_reports_bean h hn hf hr rfl).mpr hlook)
    dsimp only at he
    rw [hx, htext y (List.mem_append_left _ hy) f hf] at he
    exact ⟨y.1, List.mem_map_of_mem hy, he⟩
  · rintro hcolumn f hf hr l x l' rfl hblank
    have hx := htext x (by simp) f hf
    rw [mem_reports_bean h hn hf hr rfl]
    dsimp only at hblank ⊢
    rw [hx] at hblank ⊢
    constructor
    · intro hlook
      obtain ⟨z, hz, he⟩ := hcolumn (l.map Prod.fst) x.1 (l'.map Prod.fst) (by simp) f hf hr hblank hlook
      obtain ⟨y, hy, rfl⟩ := List.mem_map.mp hz
      exact ⟨y, hy, by rw [htext y (List.mem_append_left _ hy) f hf]; exact he⟩
    · rintro ⟨y, hy, he⟩
      rw [htext y (List.mem_append_left _ hy) f hf] at he
      exact ⟨f.1, hf, f.1, hf, .inr ⟨y.1, List.mem_map_of_mem hy, (text_eq_iff hblank).mpr he⟩⟩

/-- Where each definition has one column, its texts come a second time in this column only. -/
theorem repeatsInColumn_of_nodup (hn : (multimap.map (·.2.name)).Nodup)
    (rows : List (ℕ × Row N D)) : RepeatsInColumn poi multimap rows := by
  rintro l x l' - f hf - hblank ⟨k, hk, k', hk', hlook⟩
  obtain ⟨j, o⟩ := f
  obtain rfl : k = j := congrArg Prod.fst (eq_of_name hn hk hf rfl)
  obtain rfl : k' = k := congrArg Prod.fst (eq_of_name hn hk' hf rfl)
  obtain ⟨hlt, -⟩ | ⟨y, hy, htext⟩ := hlook
  · exact absurd hlt (lt_irrefl _)
  · exact ⟨y, hy, (text_eq_iff hblank).mp htext⟩

/-! ### The rows of maps -/

variable {sheetBean : SheetBean J}

/-- The value that a row of maps has in a column: the default for a blank one. -/
def mapValue (poi : Poi N D) (f : ℤ × CellBeanDefinition J) (row : Row N D) : Option (Value N) :=
  if 0 < f.1 then f.2.orDefault poi ((readCell poi row (f.1 - 1).toNat).getD none) else none

/-- An entry that a column puts for a definition. -/
theorem of_mem_mapColumn {y i : ℕ} {row : Row N D}
    {c : List (MapKey × Option (Value N)) × List (DisplayText N J V)}
    (h : mapColumn poi sheetBean y row i = some c) {e : MapKey × Option (Value N)} (he : e ∈ c.1)
    {s : String} (hs : e.1 = .name s) :
    ∃ o, ((i : ℤ) + 1, o) ∈ sheetBean.field ∧ o.name = s ∧
      e.2 = mapValue poi ((i : ℤ) + 1, o) row := by
  unfold mapColumn at h
  split at h
  · split at h
    · cases h
      cases he
    · obtain ⟨v, -, rfl⟩ := Option.map_eq_some_iff.mp h
      obtain rfl := List.mem_singleton.mp he
      cases hs
  · obtain ⟨v, hv, rfl⟩ := Option.map_eq_some_iff.mp h
    obtain ⟨o, ho, rfl⟩ := List.mem_map.mp he
    refine ⟨o, mem_definitionsAt.mp ho, MapKey.name.inj hs, ?_⟩
    have hpos : (0 : ℤ) < i + 1 := by omega
    simp [mapValue, hpos, hv]

theorem mem_mapColumn {y i : ℕ} {row : Row N D}
    {c : List (MapKey × Option (Value N)) × List (DisplayText N J V)}
    (h : mapColumn poi sheetBean y row i = some c) {o : CellBeanDefinition J}
    (ho : ((i : ℤ) + 1, o) ∈ sheetBean.field) : .name o.name ∈ c.1.map Prod.fst := by
  have hmem := mem_definitionsAt.mpr ho
  unfold mapColumn at h
  split at h
  · rename_i hnil
    rw [hnil] at hmem
    cases hmem
  · obtain ⟨v, hv, rfl⟩ := Option.map_eq_some_iff.mp h
    exact List.mem_map.mpr ⟨_, List.mem_map.mpr ⟨o, hmem, rfl⟩, rfl⟩

theorem get_mapRow (hn : (sheetBean.field.map (·.2.name)).Nodup) {x : ℕ × Row N D}
    {r : LinkedHashMap MapKey (Option (Value N)) × List (DisplayText N J V)}
    (h : mapRow poi sheetBean x = some r) {f : ℤ × CellBeanDefinition J} (hf : f ∈ sheetBean.field) :
    (r.1.get (.name f.2.name)).join = mapValue poi f x.2 := by
  obtain ⟨l, hl, rfl⟩ := Option.map_eq_some_iff.mp h
  have hval : ∀ e ∈ l.flatMap Prod.fst, e.1 = .name f.2.name → e.2 = mapValue poi f x.2 := by
    intro e he hs
    obtain ⟨c, hc, he⟩ := List.mem_flatMap.mp he
    obtain ⟨i, -, hi⟩ := (mem_of_mapM hl).mp hc
    obtain ⟨o, ho, hname, hv⟩ := of_mem_mapColumn hi he hs
    rw [hv, eq_of_name hn ho hf hname]
  rw [LinkedHashMap.get_putAll_of_forall _ hval]
  split
  · rfl
  · rename_i hk
    have hpos : ¬ 0 < f.1 := by
      intro hpos
      have hle := le_lastCellIndex hf x.2
      have hi : (f.1 - 1).toNat ∈ List.range (lastCellIndex sheetBean x.2) :=
        List.mem_range.mpr (by omega)
      have hindex : ((f.1 - 1).toNat : ℤ) + 1 = f.1 := by omega
      obtain ⟨c, hc⟩ := Option.isSome_iff_exists.mp
        (isSome_mapM.mp (Option.isSome_of_eq_some hl) _ hi)
      have hmem := mem_mapColumn hc (o := f.2) (by rw [hindex]; exact hf)
      rw [List.map_flatMap] at hk
      exact hk (List.mem_flatMap.mpr ⟨c, (mem_of_mapM hl).mpr ⟨_, hi, hc⟩, hmem⟩)
    simp [mapValue, hpos, LinkedHashMap.get, LinkedHashMap.empty, LinkedHashMap.getEntry]

/-- The checks of a text of a row of maps. -/
def propertyChecks (poi : Poi N D) (conv : Converters N J V) (d : DisplayText N J V) :
    List (Check J) :=
  d.propertyValue.map fun x => ⟨d.rowIndex, x.1, checkedText poi conv (checked d x.2)⟩

theorem nodup_keys_mapRow (hn : (sheetBean.field.map (·.2.name)).Nodup) {x : ℕ × Row N D}
    {r : LinkedHashMap MapKey (Option (Value N)) × List (DisplayText N J V)}
    (h : mapRow poi sheetBean x = some r) :
    ((r.2.flatMap (propertyChecks poi conv)).filterMap Check.key).Nodup := by
  obtain ⟨l, hl, rfl⟩ := Option.map_eq_some_iff.mp h
  have hcols : l.map (fun c => c.2.flatMap fun d => d.propertyValue.map (·.1.name)) =
      (List.range (lastCellIndex sheetBean x.2)).map fun i : ℕ =>
        (definitionsAt sheetBean.field ((i : ℤ) + 1)).map (·.name) := by
    refine map_of_mapM hl fun i _ c hc => ?_
    unfold mapColumn at hc
    split at hc
    · rename_i hd
      rw [hd]
      split at hc
      · cases hc
        rfl
      · obtain ⟨v, -, rfl⟩ := Option.map_eq_some_iff.mp hc
        rfl
    · obtain ⟨v, -, rfl⟩ := Option.map_eq_some_iff.mp hc
      simp [Function.comp_def]
  have hks : ((List.range (lastCellIndex sheetBean x.2)).map fun i : ℕ => (i : ℤ) + 1).Nodup :=
    List.nodup_range.map fun i j hij => by
      have hij : (i : ℤ) + 1 = j + 1 := hij
      omega
  have hnames := nodup_names hn hks
  rw [List.flatMap_map, List.flatMap_def, ← hcols, ← List.flatMap_def] at hnames
  refine nodup_keys ?_
  simpa [propertyChecks, List.map_flatMap, List.flatMap_assoc, Function.comp_def] using hnames

theorem checks_rowOfMap (list : List (DisplayText N J V)) (st : Validation J) :
    Checks st (list.flatMap (propertyChecks poi conv)) (list.foldl (fun st d =>
      reportText sheetName d (d.propertyValue.foldl
        (fun st x => validateField poi conv sheetName x.1 d x.2 st) st)) st) := by
  refine Checks.foldl (fun st d _ => ?_) st
  have hfields := Checks.foldl (l := d.propertyValue)
    (g := fun st x => validateField poi conv sheetName x.1 d x.2 st)
    (fun st x _ => checks_validateField conv x.2 st) st
  have h := hfields.trans (checks_reportText sheetName d _)
  simpa [propertyChecks, List.map_eq_flatMap] using h

/-- With a name for each column no row has a value twice, and other rows are forgotten. -/
theorem repeated_validateMap (hn : (sheetBean.field.map (·.2.name)).Nodup)
    {displayTexts : List (List (DisplayText N J V))}
    (h : ∀ list ∈ displayTexts, ∃ x r, mapRow poi sheetBean x = some r ∧ r.2 = list) :
    (validateMap poi conv sheetName displayTexts).repeated = [] := by
  unfold validateMap
  have hstart : ({} : Validation J).repeated = [] := rfl
  generalize ({} : Validation J) = st at hstart ⊢
  induction displayTexts generalizing st with
  | nil => exact hstart
  | cons list displayTexts ih =>
    refine ih (fun l hl => h l (List.mem_cons_of_mem list hl)) _ ?_
    obtain ⟨x, r, hx, rfl⟩ := h list List.mem_cons_self
    have hnone : repeats Check.key [] (r.2.flatMap (propertyChecks poi conv)) = [] :=
      repeats_eq_nil (nodup_keys_mapRow hn hx)
    rw [(checks_rowOfMap r.2 { st with seen := [] }).repeated, hnone]
    exact (List.append_nil _).trans hstart

/-! ### Which repeats are reported -/

/-- The row is read as a map that is not empty. -/
def keptAsMap (V : Type*) (poi : Poi N D) (sheetBean : SheetBean J) (x : ℕ × Row N D) : Bool :=
  (mapRow (V := V) poi sheetBean x).any fun r => !emptyMap poi sheetBean r.1

/-- No two rows kept as maps have the same value in a column that may not repeat, unless
it is blank. -/
def RepeatFree (V : Type*) (poi : Poi N D) (sheetBean : SheetBean J) (sheet : Sheet N D) : Prop :=
  ((sheet.rowsFrom (sheetBean.dataIndex - 1)).filter (keptAsMap V poi sheetBean)).Pairwise fun x' x =>
    ∀ f ∈ sheetBean.field, f.2.allowRepeat = false → blankValue poi (mapValue poi f x.2) = false →
      (mapValue poi f x'.2).map (Value.toString poi) ≠ (mapValue poi f x.2).map (Value.toString poi)

/-- A code that may not repeat. -/
def codes : SheetBean Unit :=
  { dataIndex := 1, field := [(1, { name := "code", javaType := (), allowRepeat := false })] }

/-- The same number twice. -/
def twice : Sheet Bool Unit :=
  ⟨"stock", [some [some (.plain (.number true))], some [some (.plain (.number true))]]⟩

/-- The code under two headers. -/
def twoCodes : List (ℤ × CellBeanDefinition Unit) :=
  [(1, { name := "code", javaType := (), allowRepeat := false }),
    (2, { name := "code", javaType := (), allowRepeat := false })]

theorem isSome_twice : (importMap (V := Unit) twoNumbers codes twice).isSome = true := by decide

/-- The same number in both columns of one row. -/
def sideBySide : Sheet Bool Unit :=
  ⟨"stock", [some [some (.plain (.number true)), some (.plain (.number true))]]⟩

theorem isSome_sideBySide :
    (getDisplayText twoNumbers plainTexts codes twoCodes sideBySide).isSome = true := by decide

end Excel
end Framework
end CloudManager
