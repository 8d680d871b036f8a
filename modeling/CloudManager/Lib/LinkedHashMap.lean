/-
# Maps in insertion order

A `LinkedHashMap` lists its entries in the order the keys were first put; a
put to a key that is there replaces the value in its place. That no key occurs
twice is part of the type.
-/
import Mathlib.Data.List.Induction
import Mathlib.Data.List.Nodup
import Mathlib.Data.List.Perm.Subperm

namespace CloudManager

structure LinkedHashMap (κ β : Type*) where
  entries : List (κ × β)
  nodup : (entries.map Prod.fst).Nodup

namespace LinkedHashMap

variable {κ β : Type*}

def empty : LinkedHashMap κ β := ⟨[], List.nodup_nil⟩

def keys (m : LinkedHashMap κ β) : List κ := m.entries.map Prod.fst

theorem ext {m m' : LinkedHashMap κ β} (h : m.entries = m'.entries) : m = m' := by
  cases m
  cases m'
  subst h
  rfl

variable [DecidableEq κ]

instance [DecidableEq β] : DecidableEq (LinkedHashMap κ β) := fun m m' =>
  decidable_of_iff (m.entries = m'.entries) ⟨ext, fun h => by rw [h]⟩

def putEntry (k : κ) (v : β) : List (κ × β) → List (κ × β)
  | [] => [(k, v)]
  | e :: es => if e.1 = k then (k, v) :: es else e :: putEntry k v es

def getEntry (k : κ) : List (κ × β) → Option β
  | [] => none
  | e :: es => if e.1 = k then some e.2 else getEntry k es

theorem getEntry_cons (k : κ) (e : κ × β) (es : List (κ × β)) :
    getEntry k (e :: es) = if e.1 = k then some e.2 else getEntry k es := rfl

/-! ### Putting -/

theorem keys_putEntry (k : κ) (v : β) (es : List (κ × β)) :
    (putEntry k v es).map Prod.fst =
      if k ∈ es.map Prod.fst then es.map Prod.fst else es.map Prod.fst ++ [k] := by
  induction es with
  | nil => rfl
  | cons e es ih =>
    unfold putEntry
    by_cases h : e.1 = k
    · simp [h]
    · have h' : ¬ k = e.1 := fun hk => h hk.symm
      rw [if_neg h, List.map_cons, ih]
      by_cases hk : k ∈ es.map Prod.fst <;> simp [hk, h']

theorem nodup_putEntry (k : κ) (v : β) {es : List (κ × β)} (h : (es.map Prod.fst).Nodup) :
    ((putEntry k v es).map Prod.fst).Nodup := by
  rw [keys_putEntry]
  split
  · exact h
  · rename_i hk
    refine List.nodup_append.mpr ⟨h, List.nodup_singleton k, fun a ha b hb hab => ?_⟩
    rw [List.mem_singleton] at hb
    exact hk (hb ▸ hab ▸ ha)

def put (m : LinkedHashMap κ β) (k : κ) (v : β) : LinkedHashMap κ β :=
  ⟨putEntry k v m.entries, nodup_putEntry k v m.nodup⟩

def get (m : LinkedHashMap κ β) (k : κ) : Option β := getEntry k m.entries

/-- `putAll`, and `put` in a `forEach`: entry by entry. -/
def putAll (m : LinkedHashMap κ β) (es : List (κ × β)) : LinkedHashMap κ β :=
  es.foldl (fun m e => m.put e.1 e.2) m

theorem keys_put (m : LinkedHashMap κ β) (k : κ) (v : β) :
    (m.put k v).keys = if k ∈ m.keys then m.keys else m.keys ++ [k] :=
  keys_putEntry k v m.entries

/-- A key is there from before, or is one put. -/
theorem mem_keys_putAll {m : LinkedHashMap κ β} {es : List (κ × β)} {k : κ}
    (h : k ∈ (m.putAll es).keys) : k ∈ m.keys ∨ k ∈ es.map Prod.fst := by
  induction es generalizing m with
  | nil => exact .inl h
  | cons e es ih =>
    rcases ih (m := m.put e.1 e.2) h with hk | hk
    · rw [keys_put] at hk
      split at hk
      · exact .inl hk
      · rcases List.mem_append.mp hk with hk | hk
        · exact .inl hk
        · exact .inr (List.mem_cons.mpr (.inl (List.mem_singleton.mp hk)))
    · exact .inr (List.mem_cons_of_mem _ hk)

/-- The keys that were there stay where they are. -/
theorem keys_prefix_put (m : LinkedHashMap κ β) (k : κ) (v : β) : m.keys <+: (m.put k v).keys := by
  rw [keys_put]
  split
  · exact List.prefix_refl _
  · exact List.prefix_append _ _

theorem putEntry_of_not_mem {k : κ} (v : β) {es : List (κ × β)} (h : k ∉ es.map Prod.fst) :
    putEntry k v es = es ++ [(k, v)] := by
  induction es with
  | nil => rfl
  | cons e es ih =>
    rw [List.map_cons, List.mem_cons, not_or] at h
    unfold putEntry
    rw [if_neg fun he => h.1 he.symm, ih h.2]
    rfl

/-- New keys are put at the end, in order. -/
theorem entries_putAll (m : LinkedHashMap κ β) {es : List (κ × β)}
    (h : (m.keys ++ es.map Prod.fst).Nodup) : (m.putAll es).entries = m.entries ++ es := by
  induction es generalizing m with
  | nil => simp [putAll]
  | cons e es ih =>
    have hmem : e.1 ∉ m.keys := by
      intro he
      have hd := (List.nodup_append.mp h).2.2
      exact hd e.1 he e.1 (by simp) rfl
    have hput : (m.put e.1 e.2).entries = m.entries ++ [e] := putEntry_of_not_mem e.2 hmem
    have hkeys : (m.put e.1 e.2).keys = m.keys ++ [e.1] := by
      unfold keys
      rw [hput, List.map_append]
      rfl
    show ((m.put e.1 e.2).putAll es).entries = _
    rw [ih _ (by rw [hkeys]; simpa using h), hput, List.append_assoc]
    rfl

theorem putEntry_putEntry (k : κ) (v v' : β) (es : List (κ × β)) :
    putEntry k v' (putEntry k v es) = putEntry k v' es := by
  induction es with
  | nil => simp [putEntry]
  | cons e es ih =>
    by_cases he : e.1 = k <;> simp [putEntry, he, ih]

/-- Of the values of one key the last one is put. -/
theorem putAll_of_key {m : LinkedHashMap κ β} {es : List (κ × β)} {k : κ}
    (h : ∀ e ∈ es, e.1 = k) : m.putAll es = es.getLast?.elim m fun e => m.put k e.2 := by
  induction es using List.reverseRecOn with
  | nil => rfl
  | append_singleton es e ih =>
    obtain rfl := h e (by simp)
    have hes := ih fun e' he' => h e' (List.mem_append_left _ he')
    have hlast : m.putAll (es ++ [e]) = (m.putAll es).put e.1 e.2 := by
      simp [putAll, List.foldl_append]
    rw [hlast, hes, List.getLast?_append, List.getLast?_singleton, Option.some_or]
    cases es.getLast? with
    | none => rfl
    | some e' => exact LinkedHashMap.ext (putEntry_putEntry e.1 e'.2 e.2 m.entries)

theorem putAll_append (m : LinkedHashMap κ β) (es es' : List (κ × β)) :
    m.putAll (es ++ es') = (m.putAll es).putAll es' :=
  List.foldl_append

theorem entries_putAll_empty {es : List (κ × β)} (h : (es.map Prod.fst).Nodup) :
    ((empty : LinkedHashMap κ β).putAll es).entries = es :=
  entries_putAll empty (by simpa [keys, empty] using h)

/-! ### Getting -/

/-- A map that has as many entries as were put has just these. -/
theorem entries_putAll_of_length {es : List (κ × β)}
    (h : es.length ≤ (empty.putAll es).entries.length) : (empty.putAll es).entries = es := by
  refine entries_putAll_empty ?_
  have hsub : (empty.putAll es).keys ⊆ es.map Prod.fst := fun k hk =>
    (mem_keys_putAll hk).resolve_left List.not_mem_nil
  have hperm : (empty.putAll es).keys.Perm (es.map Prod.fst) :=
    ((empty.putAll es).nodup.subperm hsub).perm_of_length_le (by
      simpa [keys] using h)
  exact hperm.nodup_iff.mp (empty.putAll es).nodup

theorem get_put_self (m : LinkedHashMap κ β) (k : κ) (v : β) : (m.put k v).get k = some v := by
  show getEntry k (putEntry k v m.entries) = some v
  induction m.entries with
  | nil => simp [putEntry, getEntry]
  | cons e es ih =>
    unfold putEntry
    by_cases h : e.1 = k
    · simp [h, getEntry]
    · simp [h, getEntry, ih]

theorem get_put_of_ne (m : LinkedHashMap κ β) {k k' : κ} (v : β) (h : k' ≠ k) :
    (m.put k v).get k' = m.get k' := by
  show getEntry k' (putEntry k v m.entries) = getEntry k' m.entries
  have hk : ¬ k = k' := fun he => h he.symm
  induction m.entries with
  | nil => simp [putEntry, getEntry, hk]
  | cons e es ih =>
    unfold putEntry
    by_cases he : e.1 = k
    · simp [he, getEntry, hk]
    · simp only [he, if_false, getEntry, ih]

theorem mem_keys_of_getEntry {k : κ} {v : β} {es : List (κ × β)} (h : getEntry k es = some v) :
    k ∈ es.map Prod.fst := by
  induction es with
  | nil => cases h
  | cons e es ih =>
    unfold getEntry at h
    by_cases he : e.1 = k
    · simp [he]
    · rw [if_neg he] at h
      exact List.mem_cons_of_mem _ (ih h)

theorem get_eq_some_iff (m : LinkedHashMap κ β) {k : κ} {v : β} :
    m.get k = some v ↔ (k, v) ∈ m.entries := by
  obtain ⟨es, hn⟩ := m
  show getEntry k es = some v ↔ (k, v) ∈ es
  induction es with
  | nil => simp [getEntry]
  | cons e es ih =>
    rw [List.map_cons, List.nodup_cons] at hn
    rw [getEntry_cons, List.mem_cons]
    split
    · rename_i he
      subst he
      have hout : (e.1, v) ∉ es := fun hm => hn.1 (List.mem_map.mpr ⟨_, hm, rfl⟩)
      simp [hout, Prod.ext_iff, eq_comm]
    · rename_i he
      have hne : (k, v) ≠ e := fun h => he (by rw [← h])
      rw [ih hn.2]
      simp [hne]

theorem get_put (m : LinkedHashMap κ β) (k k' : κ) (v : β) :
    (m.put k v).get k' = if k' = k then some v else m.get k' := by
  split
  · rename_i h
    rw [h, get_put_self]
  · rename_i h
    exact get_put_of_ne m v h

/-- The value of a key that is put with one value only. -/
theorem get_putAll_of_forall (m : LinkedHashMap κ β) {es : List (κ × β)} {k : κ} {v : β}
    (h : ∀ e ∈ es, e.1 = k → e.2 = v) :
    (m.putAll es).get k = if k ∈ es.map Prod.fst then some v else m.get k := by
  induction es generalizing m with
  | nil => rfl
  | cons e es ih =>
    obtain ⟨he, hes⟩ := List.forall_mem_cons.mp h
    show ((m.put e.1 e.2).putAll es).get k = _
    rw [ih _ hes, get_put, List.map_cons]
    by_cases hk : k = e.1
    · simp [← hk, he hk.symm]
    · rw [if_neg hk]
      by_cases hmem : k ∈ es.map Prod.fst <;> simp [hk, hmem]

end LinkedHashMap
end CloudManager
