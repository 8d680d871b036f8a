/-
# Row keys within row keys

Which rows give an object (`found`), and which keys belong to a row: those within its
key (`region`), among them those of the objects nested in its object (`scope`). In a
well-formed result map a row with a key has an object (`found_of_key`), and sibling
maps have no key in common (`scope_disjoint`).
-/
import CloudManager.Commons.ResultSets

namespace CloudManager
namespace ResultSetHandler

variable {V : Type*}

/-! ### Rows with a value -/

/-- A property that refers to the last object, or to all. -/
def Link.ofList {α : Type*} (isCollection : Bool) (as : List α) : Link α :=
  if isCollection then .collection as else as.getLast?.elim .null .one

/-- The first row of a group. -/
def first (rows : List (Row V)) : Row V := rows.headD fun _ => none

mutual

/-- The row has a value for the map or for a map nested in it. -/
def found (q : Query) : ResultMap → Option String → Row V → Bool
  | .mk _ mappings autoMappings _ nested, columnPrefix, row =>
    foundNested q nested columnPrefix row ||
      (rowValues q mappings autoMappings columnPrefix row).2 || q.returnInstanceForEmptyRow

def foundNested (q : Query) : NestedMaps → Option String → Row V → Bool
  | .nil, _, _ => false
  | .cons n m rest, parentPrefix, row =>
    (anyNotNullColumnHasValue q n (getColumnPrefix parentPrefix n) row &&
      found q m (getColumnPrefix parentPrefix n) row) || foundNested q rest parentPrefix row

end

/-! ### Result maps that can be told apart -/

def NestedMaps.toList : NestedMaps → List (NestedMapping × ResultMap)
  | .nil => []
  | .cons n m rest => (n, m) :: rest.toList

/-- Each column of the key sets a property, so a row with a key has an object. -/
def ResultMap.isKeyed (q : Query) : ResultMap → Bool
  | .mk _ [] autoMappings keyColumns .nil => q.returnInstanceForEmptyRow ||
    keyColumns.all fun c => autoMappings.any fun a => a.column == c && a.property.isSome
  | .mk _ mappings _ _ _ => q.returnInstanceForEmptyRow ||
    (keyMappings mappings).all fun c => c.property.isSome

/-- Two maps nested in one: other properties, and keys that differ. -/
def apart (q : Query) (parentPrefix : Option String) (x y : NestedMapping × ResultMap) : Bool :=
  x.1.property ≠ y.1.property && (x.2.id ≠ y.2.id ||
    (x.2.columnsOfKey q (getColumnPrefix parentPrefix x.1)).all fun c =>
      c ∉ y.2.columnsOfKey q (getColumnPrefix parentPrefix y.1))

mutual

/-- No circular reference, keyed throughout, and sibling maps apart. -/
def wellFormed (q : Query) : ResultMap → Option String → List String → Bool
  | .mk id mappings autoMappings keyColumns nested, columnPrefix, around =>
    (ResultMap.mk id mappings autoMappings keyColumns nested).isKeyed q &&
      wellFormedNested q nested columnPrefix (id :: around)

def wellFormedNested (q : Query) : NestedMaps → Option String → List String → Bool
  | .nil, _, _ => true
  | .cons n m rest, parentPrefix, around =>
    (n.columnPrefix.isSome || m.id ∉ around) &&
      (rest.toList.all fun y => apart q parentPrefix (n, m) y) &&
      wellFormed q m (getColumnPrefix parentPrefix n) around &&
      wellFormedNested q rest parentPrefix around

end

/-! ### Keys within keys -/

/-- The key is `k₀`, or that of a row nested in the row of `k₀`. -/
def Within (k₀ : CacheKey V) : CacheKey V → Prop
  | .root r => .root r = k₀
  | .combined r p => .combined r p = k₀ ∨ Within k₀ p

theorem Within.refl (k : CacheKey V) : Within k k := by
  cases k with
  | root r => exact rfl
  | combined r p => exact Or.inl rfl

theorem Within.trans {k₁ k₂ k₃ : CacheKey V} (h : Within k₁ k₂) (h' : Within k₂ k₃) :
    Within k₁ k₃ := by
  induction k₃ with
  | root r =>
    cases (show CacheKey.root r = k₂ from h')
    exact h
  | combined r p ih =>
    rcases h' with rfl | h'
    · exact h
    · exact Or.inr (ih h')

theorem Within.parent {r : RowKey V} {p k : CacheKey V} (h : Within (.combined r p) k) :
    Within p k :=
  Within.trans (show Within p (.combined r p) from Or.inr (Within.refl p)) h

/-- How many rows a key combines. -/
def depth : CacheKey V → ℕ
  | .root _ => 0
  | .combined _ p => depth p + 1

theorem depth_le {k₀ k : CacheKey V} (h : Within k₀ k) : depth k₀ ≤ depth k := by
  induction k with
  | root r =>
    cases (show CacheKey.root r = k₀ from h)
    exact Nat.le_refl _
  | combined r p ih =>
    rcases h with rfl | h
    · exact Nat.le_refl _
    · have := ih h
      show depth k₀ ≤ depth p + 1
      omega

/-- Keys within two different keys of one depth differ. -/
theorem Within.eq {k₁ k₂ k : CacheKey V} (h₁ : Within k₁ k) (h₂ : Within k₂ k)
    (hd : depth k₁ = depth k₂) : k₁ = k₂ := by
  induction k with
  | root r => exact (show CacheKey.root r = k₁ from h₁).symm.trans h₂
  | combined r p ih =>
    rcases h₁ with rfl | h₁ <;> rcases h₂ with rfl | h₂
    · rfl
    · have := depth_le h₂
      have : depth (.combined r p) = depth p + 1 := rfl
      omega
    · have := depth_le h₁
      have : depth (.combined r p) = depth p + 1 := rfl
      omega
    · exact ih h₁ h₂

/-- The keys within the key of a row, if it has one. -/
def region (κ : Option (CacheKey V)) (k : CacheKey V) : Prop := ∃ k₀, κ = some k₀ ∧ Within k₀ k

/-- The key of a row nested in the row of a key. -/
def nestedKey (q : Query) (m : ResultMap) (columnPrefix : Option String)
    (κ : Option (CacheKey V)) (row : Row V) : Option (CacheKey V) :=
  combineKeys (createRowKey q m columnPrefix row) κ

/-- The keys of the objects nested in an object. -/
def scope (q : Query) (ns : NestedMaps) (parentPrefix : Option String) (κ : Option (CacheKey V))
    (k : CacheKey V) : Prop :=
  ∃ x ∈ ns.toList, ∃ row, region (nestedKey q x.2 (getColumnPrefix parentPrefix x.1) κ row) k

theorem nestedKey_eq {q : Query} {m : ResultMap} {columnPrefix : Option String}
    {κ : Option (CacheKey V)} {row : Row V} {k : CacheKey V}
    (h : nestedKey q m columnPrefix κ row = some k) :
    ∃ r p, createRowKey q m columnPrefix row = some r ∧ κ = some p ∧ k = .combined r p := by
  obtain ⟨r, hr, h⟩ := Option.bind_eq_some_iff.mp h
  obtain ⟨p, hp, h⟩ := Option.map_eq_some_iff.mp h
  exact ⟨r, p, hr, hp, h.symm⟩

theorem depth_nestedKey {q : Query} {m : ResultMap} {columnPrefix : Option String}
    {κ : Option (CacheKey V)} {row : Row V} {k : CacheKey V}
    (h : nestedKey q m columnPrefix κ row = some k) :
    depth k = (κ.map depth).getD 0 + 1 := by
  obtain ⟨r, p, -, rfl, rfl⟩ := nestedKey_eq h
  rfl

/-- A nested key lies within the key around it, and is another. -/
theorem region_of_scope {q : Query} {ns : NestedMaps} {parentPrefix : Option String}
    {κ : Option (CacheKey V)} {k : CacheKey V} (h : scope q ns parentPrefix κ k) :
    region κ k ∧ κ ≠ some k := by
  obtain ⟨x, -, row, k₀, hk₀, hw⟩ := h
  obtain ⟨r, p, -, rfl, rfl⟩ := nestedKey_eq hk₀
  refine ⟨⟨p, rfl, hw.parent⟩, fun he => ?_⟩
  rw [Option.some.inj he] at hw
  have hd := depth_le hw
  have : depth (.combined r k) = depth k + 1 := rfl
  omega

theorem region_disjoint {κ₁ κ₂ : Option (CacheKey V)} {k : CacheKey V} (h₁ : region κ₁ k)
    (h₂ : region κ₂ k) (hd : ∀ k₁ k₂, κ₁ = some k₁ → κ₂ = some k₂ → depth k₁ = depth k₂) :
    κ₁ = κ₂ := by
  obtain ⟨k₁, rfl, hw₁⟩ := h₁
  obtain ⟨k₂, rfl, hw₂⟩ := h₂
  rw [hw₁.eq hw₂ (hd k₁ k₂ rfl rfl)]

/-- Keys of one depth that differ have no key within both. -/
theorem apart_of_ne {key : Row V → Option (CacheKey V)}
    (hd : ∀ row row' k k', key row = some k → key row' = some k' → depth k = depth k')
    {row row' : Row V} (hne : key row = key row' → key row = none) :
    ∀ k, region (key row) k → ¬ region (key row') k := by
  intro k hr hr'
  have he := hne (region_disjoint hr hr' fun k₁ k₂ => hd row row' k₁ k₂)
  obtain ⟨k₀, hk₀, -⟩ := hr
  rw [he] at hk₀
  cases hk₀

/-- The columns of a key are columns of the key of its map, and there is one. -/
theorem createRowKey_eq {q : Query} {m : ResultMap} {columnPrefix : Option String}
    {row : Row V} {r : RowKey V} (h : createRowKey q m columnPrefix row = some r) :
    r.id = m.id ∧ r.values ≠ [] ∧ ∀ v ∈ r.values, v.1 ∈ m.columnsOfKey q columnPrefix ∧
      v.2 = row v.1 ∧ (v.2.isSome ∨ q.returnInstanceForEmptyRow = true) := by
  simp only [createRowKey] at h
  split at h
  · cases h
  · rename_i hne
    cases h
    refine ⟨rfl, hne, fun v hv => ?_⟩
    obtain ⟨hv, hs⟩ := List.mem_filter.mp hv
    obtain ⟨c, hc, rfl⟩ := List.mem_map.mp hv
    refine ⟨hc, rfl, ?_⟩
    rcases Bool.or_eq_true_iff.mp hs with hs | hs
    · exact .inl hs
    · exact .inr (Bool.and_eq_true_iff.mp hs).2

theorem foldl_found {α β : Type*} {f : β × Bool → α → β × Bool}
    (hf : ∀ acc c, acc.2 = true → (f acc c).2 = true) {l : List α} {c : α} (hc : c ∈ l)
    (hfc : ∀ acc, (f acc c).2 = true) (acc : β × Bool) : (l.foldl f acc).2 = true := by
  have hkeep : ∀ (l : List α) (acc : β × Bool), acc.2 = true → (l.foldl f acc).2 = true := by
    intro l
    induction l with
    | nil => exact fun _ h => h
    | cons d l ih => exact fun acc h => ih _ (hf acc d h)
  obtain ⟨l₁, l₂, rfl⟩ := List.append_of_mem hc
  rw [List.foldl_append]
  exact hkeep l₂ _ (hfc _)

section
variable {q : Query} {mappings autoMappings : List ColumnMapping} {columnPrefix : Option String}
  {row : Row V} {c : ColumnMapping}

theorem setProperty_of_isSome {acc : (String → Option V) × Bool} {value : Option V}
    (hp : c.property.isSome = true) (hv : value.isSome = true) :
    (setProperty q acc c value).2 = true := by
  obtain ⟨p, hp⟩ := Option.isSome_iff_exists.mp hp
  simp [setProperty, hp, hv]

theorem setProperty_keeps {acc : (String → Option V) × Bool} {value : Option V}
    (h : acc.2 = true) : (setProperty q acc c value).2 = true := by
  unfold setProperty
  rcases c.property with _ | p
  · exact h
  · simp [h]

theorem rowValues_of_automatic (hc : c ∈ autoMappings) (hp : c.property.isSome = true)
    (hv : (row c.column).isSome = true) :
    (rowValues q mappings autoMappings columnPrefix row).2 = true := by
  have hauto : (applyAutomaticMappings q autoMappings row (fun _ => none, false)).2 = true := by
    refine foldl_found (fun acc d h => ?_) hc (fun acc => ?_) _
    · exact setProperty_keeps h
    · exact setProperty_of_isSome hp hv
  have hkeep : ∀ (l : List ColumnMapping) (acc : (String → Option V) × Bool), acc.2 = true →
      (applyPropertyMappings q l columnPrefix row acc).2 = true := by
    intro l
    induction l with
    | nil => exact fun _ h => h
    | cons d l ih =>
      intro acc h
      refine ih _ ?_
      dsimp only
      split
      · exact setProperty_keeps h
      · exact h
  exact hkeep _ _ hauto

theorem rowValues_of_mapping (hc : c ∈ mappings) (hp : c.property.isSome = true)
    (hq : q.hasColumn (prependPrefix c.column columnPrefix) = true)
    (hv : (row (prependPrefix c.column columnPrefix)).isSome = true) :
    (rowValues q mappings autoMappings columnPrefix row).2 = true := by
  refine foldl_found (fun acc d h => ?_) hc (fun acc => ?_) _
  · dsimp only
    split
    · exact setProperty_keeps h
    · exact h
  · dsimp only
    rw [if_pos hq]
    exact setProperty_of_isSome hp hv

end

/-- A row with a key has an object. -/
theorem found_of_key {q : Query} {m : ResultMap} {columnPrefix : Option String} {row : Row V}
    {r : RowKey V} (hm : m.isKeyed q = true) (h : createRowKey q m columnPrefix row = some r) :
    found q m columnPrefix row = true := by
  obtain ⟨-, hne, hv⟩ := createRowKey_eq h
  obtain ⟨v, hmem⟩ := List.exists_mem_of_ne_nil _ hne
  obtain ⟨hc, hrow, hsome⟩ := hv v hmem
  have hmapped : ∀ id mappings autoMappings keyColumns nested,
      ResultMap.mk id mappings autoMappings keyColumns nested = m →
      v.1 ∈ ((keyMappings mappings).map fun c => prependPrefix c.column columnPrefix).filter
        q.hasColumn →
      (q.returnInstanceForEmptyRow || (keyMappings mappings).all fun c => c.property.isSome) =
        true → found q m columnPrefix row = true := by
    rintro id mappings autoMappings keyColumns nested rfl hc hk
    unfold found
    rcases Bool.or_eq_true_iff.mp hk with hk | hk
    · rw [hk, Bool.or_true]
    rcases hsome with hsome | hsome
    · obtain ⟨hc, hq⟩ := List.mem_filter.mp hc
      obtain ⟨c, hc, hcv⟩ := List.mem_map.mp hc
      have hcm : c ∈ mappings := by
        unfold keyMappings at hc
        split at hc
        · exact (List.mem_filter.mp hc).1
        · exact hc
      rw [rowValues_of_mapping hcm (List.all_eq_true.mp hk c hc) (hcv ▸ hq)
        (by rw [hcv, ← hrow]; exact hsome)]
      simp
    · rw [hsome, Bool.or_true]
  match m, hm, hc, hmapped with
  | .mk id [] autoMappings keyColumns .nil, hm, hc, _ =>
    unfold found
    rcases Bool.or_eq_true_iff.mp hm with hk | hk
    · rw [hk, Bool.or_true]
    rcases hsome with hsome | hsome
    · obtain ⟨c, hcm, hcp⟩ := List.any_eq_true.mp (List.all_eq_true.mp hk v.1 hc)
      obtain ⟨hcv, hp⟩ := Bool.and_eq_true_iff.mp hcp
      rw [rowValues_of_automatic hcm hp (by rw [eq_of_beq hcv, ← hrow]; exact hsome)]
      simp
    · rw [hsome, Bool.or_true]
  | .mk id (c :: mappings) autoMappings keyColumns nested, hm, hc, hmapped =>
    exact hmapped _ _ _ _ _ rfl hc hm
  | .mk id [] autoMappings keyColumns (.cons n m rest), hm, hc, hmapped =>
    exact hmapped _ _ _ _ _ rfl hc hm

/-- Maps that are apart have no key in common. -/
theorem scope_disjoint {q : Query} {parentPrefix : Option String}
    {x y : NestedMapping × ResultMap} {κ : Option (CacheKey V)} {row row' : Row V}
    {k : CacheKey V} (h : apart q parentPrefix x y = true)
    (hx : region (nestedKey q x.2 (getColumnPrefix parentPrefix x.1) κ row) k)
    (hy : region (nestedKey q y.2 (getColumnPrefix parentPrefix y.1) κ row') k) : False := by
  have he := region_disjoint hx hy fun k₁ k₂ h₁ h₂ => by
    rw [depth_nestedKey h₁, depth_nestedKey h₂]
  obtain ⟨k₀, hk₀, -⟩ := hx
  obtain ⟨r, p, hr, hp, hk⟩ := nestedKey_eq hk₀
  obtain ⟨r', p', hr', -, hk'⟩ := nestedKey_eq (he ▸ hk₀)
  have hrr : r' = r := by
    rw [hk] at hk'
    exact (CacheKey.combined.inj hk').1.symm
  subst hrr
  obtain ⟨hid, hne, hc⟩ := createRowKey_eq hr
  obtain ⟨hid', -, hc'⟩ := createRowKey_eq hr'
  obtain ⟨v, hv⟩ := List.exists_mem_of_ne_nil _ hne
  have hor := (Bool.and_eq_true_iff.mp h).2
  rcases Bool.or_eq_true_iff.mp hor with hor | hor
  · exact of_decide_eq_true hor (hid.symm.trans hid')
  · have := List.all_eq_true.mp hor v.1 (hc v hv).1
    exact of_decide_eq_true this (hc' v hv).1

end ResultSetHandler
end CloudManager
