/-
# Defaults

A property whose cell is blank should have the default of its definition, or nothing if
there is none, and with a default it should not be reported as missing. Maps fill in
each definition's own default, but what is checked is the value before that; beans fill
in the first default of the column for all its definitions, and check the value after
it. `defaults_iff` says for which rows that makes no difference: a required property of
a map has no default, and a column of beans has no default but that of the property. A
property has one definition.
-/
import CloudManager.Framework.Excel.Beans

namespace CloudManager
namespace Framework
namespace Excel

open Sequences

variable {N D J V : Type*}

/-! ### Blank cells -/

/-- Nothing, or blank text. -/
def Content.isBlank : Content N D → Bool
  | .blank => true
  | .text s => Excel.isBlank (JavaString.trim s)
  | .number _ | .date _ | .boolean _ | .error => false

/-- There is no cell at the index of the row, or a blank one. -/
def blankAt (row : Row N D) (i : ℕ) : Bool := (row.getCell i).all (·.content.isBlank)

variable {poi : Poi N D} {conv : Converters N J V} {row : Row N D} {i : ℕ} {v : Option (Value N)}

/-- A blank cell is read as blank, or, of a formula, as a number. -/
theorem readCell_of_blankAt (hb : blankAt row i = true) (h : readCell poi row i = some v) :
    vacantAt poi row i = true ∨ ∃ n, v = some (.double n) := by
  unfold blankAt at hb
  unfold readCell at h
  unfold vacantAt
  cases hc : row.getCell i with
  | none => exact .inl rfl
  | some c =>
    rw [hc] at h hb
    rcases c with c | r
    · refine .inl ?_
      cases c <;> simp_all [Cell.content, Content.isBlank, Cell.vacant]
    · simp only [Option.all_some, Cell.content, getCell, Cell.vacant] at h hb ⊢
      cases hn : numericOf poi r with
      | some x =>
        rw [hn] at h
        rcases x with n | d
        · cases h
          exact .inr ⟨n, rfl⟩
        · exact .inl rfl
      | none =>
        rw [hn] at h
        cases r <;> simp_all [Content.isBlank]

theorem ownDefault_eq_some {o : CellBeanDefinition J} {s : String} (h : o.ownDefault = some s) :
    isBlank s = false := by
  unfold CellBeanDefinition.ownDefault at h
  split at h
  · rename_i hd
    cases h
    simpa [CellBeanDefinition.hasDefault] using hd
  · cases h

theorem firstDefault_eq_some {os : List (CellBeanDefinition J)} {s : String}
    (h : firstDefault os = some s) : isBlank s = false := by
  obtain ⟨o, ho, rfl⟩ := Option.map_eq_some_iff.mp h
  simpa [CellBeanDefinition.hasDefault] using List.find?_some ho

/-! ### Maps -/

variable {sheetBean : SheetBean J} {sheetName : String}

/-- Where the cell of a property is blank, the map has its default, or nothing without
one, and one with a default is not reported. -/
structure MapDefaults (poi : Poi N D) (field : List (ℤ × CellBeanDefinition J))
    (reports : List (Report J)) (x : (ℕ × Row N D) × LinkedHashMap MapKey (Option (Value N))) :
    Prop where
  value : ∀ f ∈ field, 0 < f.1 → blankAt x.1.2 (f.1 - 1).toNat = true →
    (x.2.get (.name f.2.name)).join = f.2.ownDefault.map .string
  report : ∀ f ∈ field, 0 < f.1 → blankAt x.1.2 (f.1 - 1).toNat = true → f.2.hasDefault = true →
    ¬ ∃ r ∈ reports, r.kind = .blank ∧ r.rowIndex = x.1.1 ∧ (r.cellIndex : ℤ) + 1 = f.1 ∧
      r.definition = some f.2

/-- A blank cell of a property is read as blank, and the property, if it has a default,
may be blank. -/
def MapFilled (poi : Poi N D) (field : List (ℤ × CellBeanDefinition J)) (row : Row N D) : Prop :=
  ∀ f ∈ field, 0 < f.1 → blankAt row (f.1 - 1).toNat = true →
    vacantAt poi row (f.1 - 1).toNat = true ∧ (f.2.hasDefault = true → f.2.allowBlank = true)

variable {x : ℕ × Row N D}
  {r : LinkedHashMap MapKey (Option (Value N)) × List (DisplayText N J V)}

/-- The text of a column of a row of maps. -/
def mapText (y i : ℕ) (field : List (ℤ × CellBeanDefinition J)) (v : Option (Value N)) :
    DisplayText N J V where
  rowIndex := y
  cellIndex := i
  propertyValue := (definitionsAt field (i + 1)).map fun o => (o, v.map .value)

theorem mem_texts_mapColumn {y : ℕ} {d : DisplayText N J V} :
    (∃ c, mapColumn poi sheetBean y row i = some c ∧ d ∈ c.2) ↔
      definitionsAt sheetBean.field (i + 1) ≠ [] ∧
        ∃ v, readCell poi row i = some v ∧ d = mapText y i sheetBean.field v := by
  unfold mapColumn mapText
  cases hd : definitionsAt sheetBean.field (i + 1) with
  | nil =>
    have hnone : ∀ c, (if sheetBean.skipNoMapping then some ([], []) else
        (readCell poi row i).map fun value => ([(MapKey.index i, value)], [])) =
          some (c : List (MapKey × Option (Value N)) × List (DisplayText N J V)) → c.2 = [] := by
      intro c hc
      split at hc
      · cases hc
        rfl
      · obtain ⟨v, -, rfl⟩ := Option.map_eq_some_iff.mp hc
        rfl
    constructor
    · rintro ⟨c, hc, hmem⟩
      rw [hnone c hc] at hmem
      cases hmem
    · exact fun h => (h.1 rfl).elim
  | cons o os => cases readCell poi row i <;> simp

/-- The texts of a row of maps are those of the columns with a definition. -/
theorem mem_texts_mapRow (h : mapRow poi sheetBean x = some r) {d : DisplayText N J V} :
    d ∈ r.2 ↔ ∃ i < lastCellIndex sheetBean x.2, definitionsAt sheetBean.field (i + 1) ≠ [] ∧
      ∃ v, readCell poi x.2 i = some v ∧ d = mapText x.1 i sheetBean.field v := by
  obtain ⟨l, hl, rfl⟩ := Option.map_eq_some_iff.mp h
  simp only [List.mem_flatMap, mem_of_mapM hl, List.mem_range]
  constructor
  · rintro ⟨c, ⟨i, hi, hc⟩, hd⟩
    exact ⟨i, hi, mem_texts_mapColumn.mp ⟨c, hc, hd⟩⟩
  · rintro ⟨i, hi, hd⟩
    obtain ⟨c, hc, hd⟩ := mem_texts_mapColumn.mpr hd
    exact ⟨c, ⟨i, hi, hc⟩, hd⟩

/-- The column of a definition is read. -/
theorem exists_readCell (h : mapRow (V := V) poi sheetBean x = some r)
    {f : ℤ × CellBeanDefinition J} (hf : f ∈ sheetBean.field) (hpos : 0 < f.1) :
    ∃ v, readCell poi x.2 (f.1 - 1).toNat = some v := by
  obtain ⟨l, hl, -⟩ := Option.map_eq_some_iff.mp h
  have hle := le_lastCellIndex hf x.2
  have hi : (f.1 - 1).toNat ∈ List.range (lastCellIndex sheetBean x.2) :=
    List.mem_range.mpr (by omega)
  have hindex : ((f.1 - 1).toNat : ℤ) + 1 = f.1 := by omega
  have hne : definitionsAt sheetBean.field (((f.1 - 1).toNat : ℤ) + 1) ≠ [] := by
    rw [hindex]
    exact List.ne_nil_of_mem (mem_definitionsAt.mpr hf)
  obtain ⟨c, hc⟩ := Option.isSome_iff_exists.mp
    (isSome_mapM.mp (Option.isSome_of_eq_some hl) _ hi)
  unfold mapColumn at hc
  split at hc
  · rename_i hd
    exact (hne hd).elim
  · obtain ⟨v, hv, -⟩ := Option.map_eq_some_iff.mp hc
    exact ⟨v, hv⟩

/-- The blanks reported of maps: what is checked is the value of the cell. -/
theorem blanks_validateMap (displayTexts : List (List (DisplayText N J V))) :
    (validateMap poi conv sheetName displayTexts).blanks =
      displayTexts.flatMap fun list => list.flatMap fun d => d.propertyValue.flatMap fun y =>
        if !y.1.allowBlank && !isShown (checkedText poi conv (checked d y.2)) then
          [(d.rowIndex, d.cellIndex, some y.1)] else [] := by
  refine foldl_append (F := Validation.blanks) (fun st list _ => ?_) ({} : Validation J)
  refine foldl_append (F := Validation.blanks) (fun st d _ => ?_) { st with seen := [] }
  rw [blanks_reportText]
  exact foldl_append (F := Validation.blanks) (fun st y _ => blanks_validateField y.1 d y.2 st) st

/-- A blank is reported of a map where a definition that may not be blank has a cell that
shows nothing. -/
theorem mem_blanks_map {rows : List ((ℕ × Row N D) ×
      LinkedHashMap MapKey (Option (Value N)) × List (DisplayText N J V))}
    (h : ∀ y ∈ rows, mapRow poi sheetBean y.1 = some y.2) {o : CellBeanDefinition J} {y i : ℕ} :
    (∃ e ∈ (validateMap poi conv sheetName (rows.map fun z => z.2.2)).reports,
        e.kind = .blank ∧ e.rowIndex = y ∧ e.cellIndex = i ∧ e.definition = some o) ↔
      ∃ z ∈ rows, z.1.1 = y ∧ ((i : ℤ) + 1, o) ∈ sheetBean.field ∧ o.allowBlank = false ∧
        shownValue poi ((readCell poi z.1.2 i).getD none) = false := by
  have hblanks : (∃ e ∈ (validateMap poi conv sheetName (rows.map fun z => z.2.2)).reports,
        e.kind = .blank ∧ e.rowIndex = y ∧ e.cellIndex = i ∧ e.definition = some o) ↔
      (y, i, some o) ∈ (validateMap poi conv sheetName (rows.map fun z => z.2.2)).blanks := by
    simp [Validation.blanks, and_assoc]
  have htext : ∀ (v : Option (Value N)) (z : ℕ × Row N D),
      isShown (checkedText poi conv (checked (mapText (V := V) z.1 i sheetBean.field v)
        (v.map .value))) = shownValue poi v := by
    intro v z
    cases v with
    | none => exact isShown_empty
    | some v => rfl
  rw [hblanks, blanks_validateMap]
  simp only [List.mem_flatMap, List.mem_map]
  constructor
  · rintro ⟨_, ⟨z, hz, rfl⟩, d, hd, p, hp, he⟩
    obtain ⟨j, -, -, v, hv, rfl⟩ := (mem_texts_mapRow (h z hz)).mp hd
    obtain ⟨o', ho', rfl⟩ := List.mem_map.mp hp
    split at he
    · rename_i hb
      obtain ⟨rfl, rfl, rfl⟩ : y = z.1.1 ∧ i = j ∧ o = o' := by
        simpa [mapText] using List.mem_singleton.mp he
      rw [Bool.and_eq_true, Bool.not_eq_true', Bool.not_eq_true', htext] at hb
      refine ⟨z, hz, rfl, mem_definitionsAt.mp ho', hb.1, ?_⟩
      rw [hv, Option.getD_some]
      exact hb.2
    · cases he
  · rintro ⟨z, hz, rfl, ho, hblank, hshown⟩
    obtain ⟨v, hv⟩ := exists_readCell (h z hz) ho (by show (0 : ℤ) < i + 1; omega)
    have hi : ((i : ℤ) + 1 - 1).toNat = i := by omega
    have hmem := mem_definitionsAt.mpr ho
    have hle := le_lastCellIndex ho z.1.2
    rw [hi] at hv
    rw [hv, Option.getD_some] at hshown
    refine ⟨_, ⟨z, hz, rfl⟩, mapText z.1.1 i sheetBean.field v, ?_, (o, v.map .value), ?_, ?_⟩
    · refine (mem_texts_mapRow (h z hz)).mpr ⟨i, ?_, List.ne_nil_of_mem hmem, v, hv, rfl⟩
      replace hle : (i : ℤ) + 1 ≤ lastCellIndex sheetBean z.1.2 := hle
      omega
    · exact List.mem_map.mpr ⟨o, hmem, rfl⟩
    · rw [htext, hblank, hshown]
      exact List.mem_singleton.mpr rfl

theorem shown_of_vacant (h : readCell poi row i = some v) (hv : vacantAt poi row i = true) :
    blankValue poi v = true ∧ shownValue poi v = false := by
  have hblank : blankValue poi v = true := (blank_readCell h).trans hv
  refine ⟨hblank, ?_⟩
  by_contra hs
  rw [not_blank_of_shown (by simpa using hs)] at hblank
  cases hblank

/-- A blank cell gives the default to the map if it is read as blank. -/
theorem orDefault_of_blankAt (hb : blankAt row i = true) (h : readCell poi row i = some v)
    (o : CellBeanDefinition J) :
    o.orDefault poi v = o.ownDefault.map .string ↔ vacantAt poi row i = true := by
  constructor
  · intro he
    obtain hv | ⟨n, rfl⟩ := readCell_of_blankAt hb h
    · exact hv
    · have hshown : isShown (poi.valueOf n) = true := poi.shown_valueOf n
      have hblank : blankValue poi (some (Value.double n)) = false := not_isBlank_of_isShown hshown
      rw [CellBeanDefinition.orDefault, if_neg (by simp [hblank])] at he
      cases ho : o.ownDefault <;> rw [ho] at he <;> cases he
  · intro hv
    rw [CellBeanDefinition.orDefault, if_pos (shown_of_vacant h hv).1]
    unfold CellBeanDefinition.ownDefault CellBeanDefinition.hasDefault
    cases isBlank o.defaultValue <;> rfl

/-- A row of maps has its defaults, and no blank reported for them, exactly if it is
filled. -/
theorem mapDefaults_iff (hn : (sheetBean.field.map (·.2.name)).Nodup)
    {rows : List ((ℕ × Row N D) ×
      LinkedHashMap MapKey (Option (Value N)) × List (DisplayText N J V))}
    (h : ∀ y ∈ rows, mapRow poi sheetBean y.1 = some y.2)
    {x : (ℕ × Row N D) × LinkedHashMap MapKey (Option (Value N)) × List (DisplayText N J V)}
    (hx : x ∈ rows) :
    MapDefaults poi sheetBean.field
        (validateMap poi conv sheetName (rows.map fun z => z.2.2)).reports (x.1, x.2.1) ↔
      MapFilled poi sheetBean.field x.1.2 := by
  have hvalue : ∀ f ∈ sheetBean.field, 0 < f.1 → blankAt x.1.2 (f.1 - 1).toNat = true →
      ((x.2.1.get (.name f.2.name)).join = f.2.ownDefault.map .string ↔
        vacantAt poi x.1.2 (f.1 - 1).toNat = true) := by
    intro f hf hpos hb
    obtain ⟨v, hv⟩ := exists_readCell (h x hx) hf hpos
    rw [get_mapRow hn (h x hx) hf, mapValue, if_pos hpos, hv, Option.getD_some]
    exact orDefault_of_blankAt hb hv f.2
  have hreport : ∀ f ∈ sheetBean.field, 0 < f.1 →
      vacantAt poi x.1.2 (f.1 - 1).toNat = true →
      ((∃ r ∈ (validateMap poi conv sheetName (rows.map fun z => z.2.2)).reports,
        r.kind = .blank ∧ r.rowIndex = x.1.1 ∧ (r.cellIndex : ℤ) + 1 = f.1 ∧
          r.definition = some f.2) ↔ f.2.allowBlank = false) := by
    intro f hf hpos hvac
    obtain ⟨v, hv⟩ := exists_readCell (h x hx) hf hpos
    have hcell : ((f.1 - 1).toNat : ℤ) + 1 = f.1 := by omega
    constructor
    · rintro ⟨r, hr, hkind, hrow, hcol, hdef⟩
      obtain ⟨z, -, -, -, hallow, -⟩ := (mem_blanks_map h).mp ⟨r, hr, hkind, hrow, rfl, hdef⟩
      exact hallow
    · intro hallow
      have hmem : (((f.1 - 1).toNat : ℤ) + 1, f.2) ∈ sheetBean.field := by rwa [hcell]
      have hshown : shownValue poi ((readCell poi x.1.2 (f.1 - 1).toNat).getD none) = false := by
        rw [hv, Option.getD_some]
        exact (shown_of_vacant hv hvac).2
      have hr : ∃ r ∈ (validateMap poi conv sheetName (rows.map fun z => z.2.2)).reports,
          r.kind = .blank ∧ r.rowIndex = x.1.1 ∧ r.cellIndex = (f.1 - 1).toNat ∧
            r.definition = some f.2 :=
        (mem_blanks_map h).mpr ⟨x, hx, rfl, hmem, hallow, hshown⟩
      obtain ⟨r, hr, hkind, hrow, hcol, hdef⟩ := hr
      exact ⟨r, hr, hkind, hrow, by rw [hcol, hcell], hdef⟩
  constructor
  · rintro ⟨hval, hrep⟩ f hf hpos hb
    have hvac := (hvalue f hf hpos hb).mp (hval f hf hpos hb)
    refine ⟨hvac, fun hd => ?_⟩
    by_contra hallow
    exact hrep f hf hpos hb hd ((hreport f hf hpos hvac).mpr (by simpa using hallow))
  · intro hfilled
    refine ⟨fun f hf hpos hb => ?_, fun f hf hpos hb hd he => ?_⟩
    · exact (hvalue f hf hpos hb).mpr (hfilled f hf hpos hb).1
    · obtain ⟨hvac, hallow⟩ := hfilled f hf hpos hb
      have hfalse := (hreport f hf hpos hvac).mp he
      rw [hallow hd] at hfalse
      cases hfalse

/-! ### Beans -/

variable {multimap : List (ℤ × CellBeanDefinition J)}

/-- Where the cell of a property is blank, the bean has what its default is converted to,
or, without one, what a blank value is, and one with a default is not reported. -/
structure BeanDefaults (poi : Poi N D) (conv : Converters N J V)
    (multimap : List (ℤ × CellBeanDefinition J)) (reports : List (Report J))
    (x : (ℕ × Row N D) × Bean N V) : Prop where
  value : ∀ f ∈ multimap, blankAt x.1.2 (f.1 - 1).toNat = true →
    ∃ w, blankValue poi w = true ∧
      ∃ value, converted poi conv f.2 w = some value ∧ x.2 f.2.path = some value
  report : ∀ f ∈ multimap, blankAt x.1.2 (f.1 - 1).toNat = true → f.2.hasDefault = true →
    ¬ ∃ r ∈ reports, r.kind = .blank ∧ r.rowIndex = x.1.1 ∧ (r.cellIndex : ℤ) + 1 = f.1 ∧
      r.definition = some f.2

/-- A blank cell of a property is read as blank, the first default of its column is its
own, and, if the property may not be blank, not the text `null`. -/
def BeanFilled (poi : Poi N D) (multimap : List (ℤ × CellBeanDefinition J)) (row : Row N D) : Prop :=
  ∀ f ∈ multimap, blankAt row (f.1 - 1).toNat = true →
    vacantAt poi row (f.1 - 1).toNat = true ∧
      firstDefault (definitionsAt multimap f.1) = f.2.ownDefault ∧
      (f.2.allowBlank = false → ∀ s ∈ f.2.ownDefault, isShown s = true)

/-- Filled by some definitions, a blank cell is its property's default, or blank without
one, exactly if it is read as blank and the first default is the property's. -/
theorem filled_own_iff (hb : blankAt row i = true) (h : readCell poi row i = some v)
    (os : List (CellBeanDefinition J)) (o : CellBeanDefinition J) :
    (∃ w, blankValue poi w = true ∧ filled poi os v = filled poi [o] w) ↔
      vacantAt poi row i = true ∧ firstDefault os = o.ownDefault := by
  have hstring : ∀ {s : String} {w : Option (Value N)}, isBlank s = false →
      blankValue poi w = true → some (.string s) ≠ w := by
    rintro s w hs hw rfl
    exact Bool.false_ne_true (hs.symm.trans hw)
  have hown : ∀ {w : Option (Value N)}, blankValue poi w = true →
      filled poi [o] w = (o.ownDefault.map .string).or w := fun hw => by
    rw [filled_singleton, if_pos hw]
  obtain hv | ⟨n, rfl⟩ := readCell_of_blankAt hb h
  · have hblank := (shown_of_vacant h hv).1
    have hfilled : filled poi os v = ((firstDefault os).map .string).or v := by
      rw [filled_eq, if_pos hblank]
    rw [and_iff_right hv, hfilled]
    constructor
    · rintro ⟨w, hw, he⟩
      rw [hown hw] at he
      cases hf : firstDefault os with
      | none =>
        cases ho : o.ownDefault with
        | none => rfl
        | some t =>
          rw [hf, ho] at he
          exact (hstring (ownDefault_eq_some ho) hblank he.symm).elim
      | some s =>
        cases ho : o.ownDefault with
        | none =>
          rw [hf, ho] at he
          exact (hstring (firstDefault_eq_some hf) hw he).elim
        | some t =>
          rw [hf, ho] at he
          exact congrArg some (Value.string.inj (Option.some.inj he))
    · exact fun he => ⟨v, hblank, by rw [hown hblank, he]⟩
  · -- a formula that is read as a number
    have hshown : isShown (poi.valueOf n) = true := poi.shown_valueOf n
    have hnumber : blankValue poi (some (Value.double n)) = false := not_isBlank_of_isShown hshown
    rw [filled_eq, if_neg (by simp [hnumber]), ← blank_readCell h, hnumber]
    constructor
    · rintro ⟨w, hw, he⟩
      rw [hown hw] at he
      cases ho : o.ownDefault with
      | none =>
        rw [ho] at he
        have hw' : some (Value.double n) = w := he
        rw [← hw', hnumber] at hw
        cases hw
      | some t =>
        rw [ho] at he
        cases he
    · exact fun he => nomatch he.1

theorem firstDefault_upTo {os : List (CellBeanDefinition J)} {o : CellBeanDefinition J}
    (h : firstDefault os = o.ownDefault) :
    firstDefault (upTo o os) = o.ownDefault := by
  unfold firstDefault upTo at *
  rw [List.find?_append]
  cases hf : (os.takeWhile fun o' => o'.path ≠ o.path).find? (·.hasDefault) with
  | some o' =>
    have hfind : os.find? (·.hasDefault) = some o' :=
      (List.takeWhile_prefix _).find?_eq_some hf
    rw [hfind] at h
    exact h
  | none =>
    unfold CellBeanDefinition.ownDefault
    cases hd : o.hasDefault <;> simp [hd]

variable {sheet : Sheet N D} {displayTexts : List ((ℕ × Row N D) × List (DisplayText N J V))}

/-- With one definition for each property, its column is the last one. -/
theorem lastColumn_of_mem (hn : (multimap.map (·.2.path)).Nodup) {f : ℤ × CellBeanDefinition J}
    (hf : f ∈ multimap) : LastColumn multimap f.2 f.1 where
  mem := hf
  last k' o' hk' hpath := by
    have he : (k', o') = f := List.inj_on_of_nodup_map hn hk' hf hpath
    exact (congrArg Prod.fst he).le

theorem nodup_columns (hn : (multimap.map (·.2.path)).Nodup) :
    (multimap.map fun f => (f.1, f.2.path)).Nodup := by
  refine List.Nodup.of_map Prod.snd ?_
  rwa [List.map_map]

theorem beanDefaults_of_filled (hn : (multimap.map (·.2.path)).Nodup) {data : List (Bean N V)}
    (hd : getDisplayText poi conv sheetBean multimap sheet = some displayTexts)
    (hdata : getData conv (displayTexts.map Prod.snd) = some data)
    {x : (ℕ × Row N D) × Bean N V} (hx : x ∈ (displayTexts.map Prod.fst).zip data)
    (h : BeanFilled poi multimap x.1.2) :
    BeanDefaults poi conv multimap (validateBean poi conv sheetName multimap
      (displayTexts.map Prod.snd)).reports x := by
  have hrow : ∀ y ∈ displayTexts, getRow poi conv multimap y.1 = some y.2 :=
    fun y hy => of_mem_importRows hd hy
  have hkept : ∀ y ∈ displayTexts, y.1 ∈ keptRows poi sheetBean sheet multimap := fun y hy => by
    rw [← fst_getDisplayText hd]
    exact List.mem_map.mpr ⟨y, hy, rfl⟩
  obtain ⟨ds, hds, ht⟩ := (mem_zip_mapM hdata).mp hx
  have hread := isSome_getRow.mp (Option.isSome_of_eq_some (hrow _ hds))
  have hcell : ∀ f ∈ multimap, ∃ v, readCell poi x.1.2 (f.1 - 1).toNat = some v := fun f hf =>
    Option.isSome_iff_exists.mp (isSome_readCell.trans (hread f hf).2)
  constructor
  · intro f hf hb
    obtain ⟨v, hv⟩ := hcell f hf
    obtain ⟨hvac, hfirst, -⟩ := h f hf hb
    have hblank := (shown_of_vacant hv hvac).1
    have hturn : turnValue poi multimap x.1.2 f.1 f.2 = filled poi [f.2] v := by
      rw [turnValue, hv, Option.getD_some, filled_eq, filled_singleton, firstDefault_upTo hfirst]
    have hfinal : beanValue poi multimap x.1.2 f.1 = filled poi [f.2] v := by
      rw [beanValue, hv, Option.getD_some, filled_eq, filled_singleton, hfirst]
    obtain ⟨value, hvalue, hset⟩ := bean_of_lastColumn (nodup_columns hn) (hrow _ hds) ht
      (lastColumn_of_mem hn hf)
    rw [hturn, hfinal] at hvalue
    exact ⟨v, hblank, value, hvalue, hset⟩
  · rintro f hf hb hdefault ⟨r, hr, hkind, hindex, hcol, hdef⟩
    obtain ⟨z, hz, hzindex, -, hallow, hshown⟩ := (mem_blanks hrow).mp ⟨r, hr, hkind, hindex, rfl, hdef⟩
    have he : z.1 = x.1 := eq_of_index (hkept z hz) (hkept _ hds) hzindex
    obtain ⟨v, hv⟩ := hcell f hf
    obtain ⟨hvac, hfirst, hnull⟩ := h f hf hb
    have hblank := (shown_of_vacant hv hvac).1
    have hown : f.2.ownDefault = some f.2.defaultValue := if_pos hdefault
    rw [he, hcol, beanValue, hv, Option.getD_some, filled_eq, if_pos hblank, hfirst, hown] at hshown
    have hs := hnull hallow f.2.defaultValue hown
    exact Bool.false_ne_true (hshown.symm.trans hs)

theorem filled_of_beanDefaults (hn : (multimap.map (·.2.path)).Nodup) {data : List (Bean N V)}
    (hd : getDisplayText poi (asRead true : Converters N J V) sheetBean multimap sheet =
      some displayTexts)
    (hdata : getData (asRead true) (displayTexts.map Prod.snd) = some data)
    {x : (ℕ × Row N D) × Bean N V} (hx : x ∈ (displayTexts.map Prod.fst).zip data)
    (h : BeanDefaults poi (asRead true) multimap (validateBean poi (asRead true) sheetName multimap
      (displayTexts.map Prod.snd)).reports x) :
    BeanFilled poi multimap x.1.2 := by
  have hrow : ∀ y ∈ displayTexts, getRow poi (asRead true) multimap y.1 = some y.2 :=
    fun y hy => of_mem_importRows hd hy
  obtain ⟨ds, hds, ht⟩ := (mem_zip_mapM hdata).mp hx
  have hread := isSome_getRow.mp (Option.isSome_of_eq_some (hrow _ hds))
  intro f hf hb
  obtain ⟨hpos, hcell⟩ := hread f hf
  obtain ⟨v, hv⟩ := Option.isSome_iff_exists.mp (isSome_readCell.trans hcell)
  obtain ⟨w, hw, value, hconv, hset⟩ := h.value f hf hb
  obtain ⟨value', hvalue, hset'⟩ := bean_of_lastColumn (nodup_columns hn) (hrow _ hds) ht
    (lastColumn_of_mem hn hf)
  obtain rfl : value = value' := Option.some.inj (hset.symm.trans hset')
  rw [parsed_asRead, returned_asRead] at hvalue
  rw [converted, parsed_asRead, returned_asRead] at hconv
  have hfinal : beanValue poi multimap x.1.2 f.1 = filled poi [f.2] w :=
    map_value_inj (Option.some.inj (hvalue.trans hconv.symm))
  have hbean : beanValue poi multimap x.1.2 f.1 = filled poi (definitionsAt multimap f.1) v := by
    rw [beanValue, hv, Option.getD_some]
  obtain ⟨hvac, hfirst⟩ := (filled_own_iff hb hv (definitionsAt multimap f.1) f.2).mp
    ⟨w, hw, hbean.symm.trans hfinal⟩
  refine ⟨hvac, hfirst, fun hallow s hs => ?_⟩
  by_contra hshown
  have hdefault : f.2.hasDefault = true := by
    by_contra hne
    rw [CellBeanDefinition.ownDefault, if_neg hne] at hs
    cases hs
  have hblank := (shown_of_vacant hv hvac).1
  have hnull : shownValue poi (beanValue poi multimap x.1.2 f.1) = false := by
    rw [hbean, filled_eq, if_pos hblank, hfirst, Option.mem_def.mp hs]
    show isShown s = false
    simpa using hshown
  have hcol : ((f.1 - 1).toNat : ℤ) + 1 = f.1 := by omega
  rw [← hcol] at hnull
  have hmem : (((f.1 - 1).toNat : ℤ) + 1, f.2) ∈ multimap := by rwa [hcol]
  have hr : ∃ r ∈ (validateBean poi (asRead true) sheetName multimap
      (displayTexts.map Prod.snd)).reports, r.kind = .blank ∧ r.rowIndex = x.1.1 ∧
        r.cellIndex = (f.1 - 1).toNat ∧ r.definition = some f.2 :=
    (mem_blanks hrow).mpr ⟨_, hds, rfl, hmem, hallow, hnull⟩
  obtain ⟨r, hr, hkind, hindex, hcell', hdef⟩ := hr
  exact h.report f hf hb hdefault ⟨r, hr, hkind, hindex, by rw [hcell', hcol], hdef⟩

/-! ### Both ways -/

theorem of_importMap {maps : List ((ℕ × Row N D) ×
      LinkedHashMap MapKey (Option (Value N)) × List (DisplayText N J V))}
    (h : importMap poi sheetBean sheet = some maps) :
    (∀ x ∈ maps, mapRow poi sheetBean x.1 = some x.2) ∧
      maps.map Prod.fst =
        (sheet.rowsFrom (sheetBean.dataIndex - 1)).filter (keptAsMap V poi sheetBean) := by
  unfold importMap at h
  split at h
  · cases h
  · exact ⟨fun x hx => of_mem_importRows h hx, fst_importRows h⟩

/-- **Defaults.** With one definition for each property: of maps, the rows kept have their
defaults, and no blank is reported for them, exactly if every row kept is filled; and so
of beans, whatever the converters are, where the sheet can be read. -/
theorem defaults_iff (poi : Poi N D) (sheet : Sheet N D) (sheetBean : SheetBean J)
    (hfield : (sheetBean.field.map (·.2.name)).Nodup) (multimap : List (ℤ × CellBeanDefinition J))
    (hmultimap : (multimap.map (·.2.path)).Nodup) :
    (∀ (conv : Converters N J V) maps, importMap poi sheetBean sheet = some maps →
      ((∀ x ∈ maps, MapDefaults poi sheetBean.field
          (validateMap poi conv sheet.sheetName (maps.map fun z => z.2.2)).reports (x.1, x.2.1)) ↔
        ∀ x ∈ (sheet.rowsFrom (sheetBean.dataIndex - 1)).filter (keptAsMap V poi sheetBean),
          MapFilled poi sheetBean.field x.2)) ∧
    ((∀ (conv : Converters N J V) displayTexts data,
        getDisplayText poi conv sheetBean multimap sheet = some displayTexts →
        getData conv (displayTexts.map Prod.snd) = some data →
        ∀ x ∈ (displayTexts.map Prod.fst).zip data, BeanDefaults poi conv multimap
          (validateBean poi conv sheet.sheetName multimap (displayTexts.map Prod.snd)).reports x) ↔
      (Readable poi sheetBean sheet multimap →
        ∀ x ∈ keptRows poi sheetBean sheet multimap, BeanFilled poi multimap x.2)) := by
  refine ⟨fun conv maps hmaps => ?_, fun h hread x hx => ?_, fun h conv displayTexts data hd hdata => ?_⟩
  · obtain ⟨hread, hkept⟩ := of_importMap hmaps
    rw [← hkept]
    simp only [List.forall_mem_map]
    exact forall₂_congr fun x hx => mapDefaults_iff hfield hread hx
  · have hsome : (getDisplayText poi (asRead true : Converters N J V) sheetBean multimap
        sheet).isSome = true := isSome_getDisplayText.mpr hread
    obtain ⟨displayTexts, hd⟩ := Option.isSome_iff_exists.mp hsome
    have hsome' : (getData (asRead true) (displayTexts.map Prod.snd)).isSome = true :=
      isSome_getData (fun _ _ _ => rfl) _
    obtain ⟨data, hdata⟩ := Option.isSome_iff_exists.mp hsome'
    obtain ⟨ds, t, -, -, hmem⟩ := exists_bean hd hdata hx
    exact filled_of_beanDefaults hmultimap hd hdata hmem (h _ _ _ hd hdata _ hmem)
  · intro x hx
    have hread := isSome_getDisplayText.mp (Option.isSome_of_eq_some hd)
    have hmem : x.1 ∈ keptRows poi sheetBean sheet multimap := by
      rw [← fst_getDisplayText hd]
      exact (List.of_mem_zip hx).1
    exact beanDefaults_of_filled hmultimap hd hdata hx (h hread x.1 hmem)

/-! ### Two columns -/

/-- A name, and a unit that has a default and may not be blank. -/
def units : List (ℤ × CellBeanDefinition Unit) :=
  [(1, { name := "name", javaType := () }),
    (2, { name := "unit", javaType := (), defaultValue := "kg", allowBlank := false })]

/-- Two properties of one column, the first of which has a default. -/
def shared : List (ℤ × CellBeanDefinition Unit) :=
  [(1, { name := "name", javaType := () }),
    (2, { name := "unit", javaType := (), defaultValue := "kg" }),
    (2, { name := "remark", javaType := () })]

def columnsOf (field : List (ℤ × CellBeanDefinition Unit)) : SheetBean Unit :=
  { dataIndex := 1, field := field }

/-- A row with a name only. -/
def nameOnly : Sheet Bool Unit := ⟨"stock", [some [some (.plain (.text "nail")), none]]⟩

theorem defaults_nameOnly :
    (∀ (conv : Converters Bool Unit Unit) maps,
      importMap twoNumbers (columnsOf units) nameOnly = some maps →
      ((∀ x ∈ maps, MapDefaults twoNumbers (columnsOf units).field (validateMap twoNumbers conv
          nameOnly.sheetName (maps.map fun z => z.2.2)).reports (x.1, x.2.1)) ↔
        ∀ x ∈ (nameOnly.rowsFrom ((columnsOf units).dataIndex - 1)).filter
            (keptAsMap Unit twoNumbers (columnsOf units)),
          MapFilled twoNumbers (columnsOf units).field x.2)) ∧
    ((∀ (conv : Converters Bool Unit Unit) displayTexts data,
        getDisplayText twoNumbers conv (columnsOf units) shared nameOnly = some displayTexts →
        getData conv (displayTexts.map Prod.snd) = some data →
        ∀ x ∈ (displayTexts.map Prod.fst).zip data, BeanDefaults twoNumbers conv shared
          (validateBean twoNumbers conv nameOnly.sheetName shared
            (displayTexts.map Prod.snd)).reports x) ↔
      (Readable twoNumbers (columnsOf units) nameOnly shared →
        ∀ x ∈ keptRows twoNumbers (columnsOf units) nameOnly shared,
          BeanFilled twoNumbers shared x.2)) :=
  defaults_iff twoNumbers nameOnly (columnsOf units) (by decide) shared (by decide)

theorem isSome_nameOnly :
    (importMap (V := Unit) twoNumbers (columnsOf units) nameOnly).isSome = true ∧
      (getDisplayText twoNumbers (asRead true : Converters Bool Unit Unit) (columnsOf units) shared
        nameOnly).isSome = true := by
  decide

/-- The unit is reported as missing, although it has a default; and the remark, which has
none, is given the unit's. -/
theorem default_misplaced :
    ¬ ((∀ (conv : Converters Bool Unit Unit) maps,
        importMap twoNumbers (columnsOf units) nameOnly = some maps →
        ∀ x ∈ maps, MapDefaults twoNumbers units (validateMap twoNumbers conv
          nameOnly.sheetName (maps.map fun z => z.2.2)).reports (x.1, x.2.1)) ∨
      ∀ (conv : Converters Bool Unit Unit) displayTexts data,
        getDisplayText twoNumbers conv (columnsOf units) shared nameOnly = some displayTexts →
        getData conv (displayTexts.map Prod.snd) = some data →
        ∀ x ∈ (displayTexts.map Prod.fst).zip data, BeanDefaults twoNumbers conv shared
          (validateBean twoNumbers conv nameOnly.sheetName shared
            (displayTexts.map Prod.snd)).reports x) := by
  rintro (h | h)
  · obtain ⟨maps, hmaps⟩ := Option.isSome_iff_exists.mp isSome_nameOnly.1
    have hmem : (0, [some (.plain (.text "nail")), none]) ∈ maps.map Prod.fst := by
      rw [(of_importMap hmaps).2]
      decide
    obtain ⟨x, hx, he⟩ := List.mem_map.mp hmem
    have hread : ∀ y ∈ maps, mapRow twoNumbers (columnsOf units) y.1 = some y.2 :=
      (of_importMap hmaps).1
    have hnames : ((columnsOf units).field.map (·.2.name)).Nodup := by decide
    have hfilled := (mapDefaults_iff hnames hread hx).mp (h (asRead true) maps hmaps x hx)
    rw [he] at hfilled
    have hallow := (hfilled _ (List.mem_cons_of_mem _ List.mem_cons_self) (by decide) (by decide)).2
    exact absurd (hallow (by decide)) (by decide)
  · obtain ⟨displayTexts, hd⟩ := Option.isSome_iff_exists.mp isSome_nameOnly.2
    have hsome : (getData (asRead true) (displayTexts.map Prod.snd)).isSome = true :=
      isSome_getData (fun _ _ _ => rfl) _
    obtain ⟨data, hdata⟩ := Option.isSome_iff_exists.mp hsome
    have hmem : (0, [some (.plain (.text "nail")), none]) ∈
        keptRows twoNumbers (columnsOf units) nameOnly shared := by
      decide
    obtain ⟨ds, t, -, -, hx⟩ := exists_bean hd hdata hmem
    have hfilled := filled_of_beanDefaults (by decide) hd hdata hx (h _ _ _ hd hdata _ hx)
    have hblank : blankAt (N := Bool) (D := Unit) [some (.plain (.text "nail")), none] 1 = true := rfl
    have hfirst := (hfilled (2, { name := "remark", javaType := () }) (by decide) hblank).2.1
    exact absurd hfirst (by decide)

end Excel
end Framework
end CloudManager
