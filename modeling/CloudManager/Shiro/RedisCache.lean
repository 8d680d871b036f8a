/-
# SpringShiroCache against a map of its own

The caches of `SpringShiroRedisCacheManager` share one Redis. An entry of the
cache `name` is stored under `name:key`; `getKey`, `get` and `put` do so.
`remove` asks `get` for the key that already carries the prefix, so the
prefix is there twice, and `keys` asks Redis for the pattern `name`, which
matches no entry. The reference is one finite map for each cache name
(`Ref`).

`meets_iff`: along any sequence of operations the cache behaves as the
reference exactly where `remove` is called for a key whose entry agrees with
that of `name:key`, and `size`, `values` and `clear` on an empty cache.

The model has no expiry, so `put` is the branch without a time to live, as
with one that is not reached. `get` unwraps a `SimpleValueWrapper`; no such
value is ever stored, since it is not serialisable.
-/
import Mathlib.Data.Finmap
import CloudManager.Lib.Runs
import CloudManager.Lib.Wildcard

namespace CloudManager
namespace RedisCache

open Runs Wildcard

variable {V : Type*}

/-! ### The shared Redis -/

/-- The keys of Redis and their values. -/
abbrev Redis (V : Type*) := AList (fun _ : String => V)

/-- KEYS. -/
def keysLike (r : Redis V) (pattern : String) : List String := r.keys.filter (glob pattern)

/-- DEL of a list of keys. -/
def deleteAll (r : Redis V) (ks : List String) : Redis V := ks.foldl (fun r k => r.erase k) r

/-! ### SpringShiroCache -/

namespace SpringShiroCache

def getKey (name key : String) : String := name ++ ":" ++ key

def get (name : String) (r : Redis V) (key : String) : Option V := r.lookup (getKey name key)

def put (name : String) (r : Redis V) (key : String) (value : V) : V × Redis V :=
  (value, r.insert (getKey name key) value)

/-- `get` is given the stored key, and prefixes it once more. -/
def remove (name : String) (r : Redis V) (key : String) : Option V × Redis V :=
  let k := getKey name key
  (get name r k, r.erase k)

/-- The pattern is the bare name. -/
def keys (name : String) (r : Redis V) : List String := keysLike r name

def clear (name : String) (r : Redis V) : Redis V := deleteAll r (keys name r)

def size (name : String) (r : Redis V) : ℕ := (keys name r).length

def values (name : String) (r : Redis V) : List V := (keys name r).filterMap r.lookup

end SpringShiroCache

open SpringShiroCache

/-- A cache name without `:` and without special characters of KEYS. -/
structure CacheName where
  text : String
  plain : ∀ c ∈ text.toList, c ≠ ':' ∧ c ∉ globChars
  deriving DecidableEq

theorem append_colon_inj : ∀ {as bs xs ys : List Char}, ':' ∉ as → ':' ∉ bs →
    as ++ ':' :: xs = bs ++ ':' :: ys → as = bs ∧ xs = ys
  | [], [], _, _, _, _, h => ⟨rfl, (List.cons.inj h).2⟩
  | [], b :: bs, _, _, _, hb, h => by
    rw [List.nil_append, List.cons_append] at h
    exact (hb ((List.cons.inj h).1 ▸ List.mem_cons_self)).elim
  | a :: as, [], _, _, ha, _, h => by
    rw [List.nil_append, List.cons_append] at h
    exact (ha ((List.cons.inj h).1 ▸ List.mem_cons_self)).elim
  | a :: as, b :: bs, _, _, ha, hb, h => by
    simp only [List.cons_append, List.cons.injEq] at h
    obtain ⟨rfl, h⟩ := h
    obtain ⟨rfl, rfl⟩ := append_colon_inj (fun hm => ha (List.mem_cons_of_mem _ hm))
      (fun hm => hb (List.mem_cons_of_mem _ hm)) h
    exact ⟨rfl, rfl⟩

theorem getKey_toList (name key : String) :
    (getKey name key).toList = name.toList ++ ':' :: key.toList := by
  simp [getKey, String.toList_append]

/-- The stored key gives back the cache name and the key. -/
theorem getKey_inj {name name' : CacheName} {key key' : String}
    (h : getKey name.text key = getKey name'.text key') : name = name' ∧ key = key' := by
  have h' := congrArg String.toList h
  rw [getKey_toList, getKey_toList] at h'
  obtain ⟨h1, h2⟩ := append_colon_inj (fun hm => (name.plain _ hm).1 rfl)
    (fun hm => (name'.plain _ hm).1 rfl) h'
  obtain ⟨text, plain⟩ := name
  obtain ⟨text', plain'⟩ := name'
  obtain rfl : text = text' := String.toList_inj.mp h1
  exact ⟨rfl, String.toList_inj.mp h2⟩

/-- No entry is stored under a bare cache name. -/
theorem getKey_ne_name (name name' : CacheName) (key : String) :
    getKey name.text key ≠ name'.text := fun h => by
  have hm : ':' ∈ name'.text.toList := by
    rw [← h, getKey_toList]
    simp
  exact (name'.plain _ hm).1 rfl

/-! ### The reference -/

/-- One finite map for each cache name. -/
abbrev Ref (V : Type*) := CacheName → Finmap (fun _ : String => V)

/-- An operation of the cache `name`. -/
inductive Op (V : Type*)
  | put (name : CacheName) (key : String) (value : V)
  | get (name : CacheName) (key : String)
  | remove (name : CacheName) (key : String)
  | clear (name : CacheName)
  | size (name : CacheName)
  | keys (name : CacheName)
  | values (name : CacheName)

/-- What is compared of the result of an operation. -/
inductive Out (V : Type*)
  | done
  | value (o : Option V)
  | size (n : ℕ)
  | values (vs : Multiset V)
  deriving DecidableEq

/-- The operation on the caches. -/
def exec (r : Redis V) : Op V → Out V × Redis V
  | .put name key value => (.done, (put name.text r key value).2)
  | .get name key => (.value (get name.text r key), r)
  | .remove name key => (.value (remove name.text r key).1, (remove name.text r key).2)
  | .clear name => (.done, clear name.text r)
  | .size name => (.size (size name.text r), r)
  | .keys _ => (.done, r)
  | .values name => (.values (values name.text r), r)

/-- The operation on the reference. -/
def refExec (m : Ref V) : Op V → Out V × Ref V
  | .put name key value => (.done, Function.update m name ((m name).insert key value))
  | .get name key => (.value ((m name).lookup key), m)
  | .remove name key => (.value ((m name).lookup key), Function.update m name ((m name).erase key))
  | .clear name => (.done, Function.update m name ∅)
  | .size name => (.size (m name).keys.card, m)
  | .keys _ => (.done, m)
  | .values name => (.values ((m name).entries.map (·.2)), m)

/-- Both, side by side. -/
def step (s : Redis V × Ref V) (op : Op V) : Redis V × Ref V :=
  ((exec s.1 op).2, (refExec s.2 op).2)

/-- Every cache holds what its map holds. -/
def Agrees (r : Redis V) (m : Ref V) : Prop :=
  ∀ (name : CacheName) (key : String), r.lookup (getKey name.text key) = (m name).lookup key

/-- The operation returns what the reference returns and leaves the caches in
agreement with it; so `clear` empties its cache and changes no other. -/
def Meets (s : Redis V × Ref V) (op : Op V) : Prop :=
  (exec s.1 op).1 = (refExec s.2 op).1 ∧ Agrees (step s op).1 (step s op).2

/-- Where the operation does what it should. -/
def Fits (s : Redis V × Ref V) : Op V → Prop
  | .remove name key => (s.2 name).lookup (getKey name.text key) = (s.2 name).lookup key
  | .clear name | .size name | .values name => s.2 name = ∅
  | .put _ _ _ | .get _ _ | .keys _ => True

/-! ### The refinement -/

/-- The caches agree with the maps, and Redis holds entries of caches only. -/
structure Inv (s : Redis V × Ref V) : Prop where
  agrees : Agrees s.1 s.2
  entry : ∀ k ∈ s.1, ∃ (name : CacheName) (key : String), k = getKey name.text key

theorem inv_empty : Inv ((∅, fun _ => ∅) : Redis V × Ref V) :=
  ⟨fun _ _ => by simp, fun _ h => (AList.notMem_empty _ h).elim⟩

/-- `keys` finds nothing. -/
theorem Inv.keys_eq_nil {s : Redis V × Ref V} (h : Inv s) (name : CacheName) :
    keys name.text s.1 = [] := by
  rw [keys, keysLike, List.filter_eq_nil_iff]
  intro k hk hg
  rw [glob_plain fun c hc => (name.plain c hc).2] at hg
  obtain ⟨name', key, rfl⟩ := h.entry k (AList.mem_keys.mpr hk)
  exact getKey_ne_name name' name key hg

theorem Inv.clear_eq {s : Redis V × Ref V} (h : Inv s) (name : CacheName) :
    clear name.text s.1 = s.1 := by
  rw [clear, h.keys_eq_nil]
  rfl

theorem agrees_put {r : Redis V} {m : Ref V} (h : Agrees r m) (name : CacheName) (key : String)
    (value : V) : Agrees (r.insert (getKey name.text key) value)
      (Function.update m name ((m name).insert key value)) := by
  intro name' key'
  by_cases hk : getKey name'.text key' = getKey name.text key
  · obtain ⟨rfl, rfl⟩ := getKey_inj hk
    rw [AList.lookup_insert, Function.update_self, Finmap.lookup_insert]
  · rw [AList.lookup_insert_ne hk, h]
    by_cases hn : name' = name
    · subst hn
      rw [Function.update_self, Finmap.lookup_insert_of_ne _ fun he => hk (by rw [he])]
    · rw [Function.update_of_ne hn]

theorem agrees_remove {r : Redis V} {m : Ref V} (h : Agrees r m) (name : CacheName) (key : String) :
    Agrees (r.erase (getKey name.text key)) (Function.update m name ((m name).erase key)) := by
  intro name' key'
  by_cases hk : getKey name'.text key' = getKey name.text key
  · obtain ⟨rfl, rfl⟩ := getKey_inj hk
    rw [AList.lookup_erase, Function.update_self, Finmap.lookup_erase]
  · rw [AList.lookup_erase_ne hk, h]
    by_cases hn : name' = name
    · subst hn
      rw [Function.update_self, Finmap.lookup_erase_ne fun he => hk (by rw [he])]
    · rw [Function.update_of_ne hn]

/-- Nothing deleted agrees with a map emptied only if the map was empty. -/
theorem agrees_clear_iff {r : Redis V} {m : Ref V} (h : Agrees r m) (name : CacheName) :
    Agrees r (Function.update m name ∅) ↔ m name = ∅ := by
  constructor
  · intro h'
    refine Finmap.ext_lookup fun key => ?_
    rw [← h name key, h' name key, Function.update_self]
  · intro he
    rwa [← he, Function.update_eq_self]

theorem card_keys_eq_zero {f : Finmap (fun _ : String => V)} : f.keys.card = 0 ↔ f = ∅ := by
  rw [Finset.card_eq_zero]
  constructor
  · intro h
    refine Finmap.ext_lookup fun key => ?_
    rw [Finmap.lookup_empty, Finmap.lookup_eq_none, ← Finmap.mem_keys, h]
    simp
  · rintro rfl
    exact Finmap.keys_empty

theorem values_eq_zero {f : Finmap (fun _ : String => V)} :
    f.entries.map (·.2) = (0 : Multiset V) ↔ f = ∅ := by
  rw [Multiset.map_eq_zero]
  exact ⟨fun h => Finmap.ext h, fun h => by rw [h]; rfl⟩

/-- An operation meets the reference exactly where it fits. -/
theorem Inv.meets_iff_fits {s : Redis V × Ref V} (h : Inv s) (op : Op V) : Meets s op ↔ Fits s op := by
  obtain ⟨r, m⟩ := s
  cases op with
  | put name key value =>
    simp only [Meets, Fits, exec, refExec, step, true_and, iff_true]
    exact agrees_put h.agrees name key value
  | get name key =>
    simp only [Meets, Fits, exec, refExec, step, iff_true, Out.value.injEq]
    exact ⟨h.agrees name key, h.agrees⟩
  | remove name key =>
    simp only [Meets, Fits, exec, refExec, step, Out.value.injEq]
    have ha : Agrees (remove name.text r key).2 _ := agrees_remove h.agrees name key
    rw [and_iff_left ha]
    show r.lookup (getKey name.text (getKey name.text key)) = _ ↔ _
    rw [h.agrees name (getKey name.text key)]
  | clear name =>
    simp only [Meets, Fits, exec, refExec, step, true_and, h.clear_eq name]
    exact agrees_clear_iff h.agrees name
  | size name =>
    simp only [Meets, Fits, exec, refExec, step, Out.size.injEq, SpringShiroCache.size,
      h.keys_eq_nil name, List.length_nil]
    rw [and_iff_left h.agrees, eq_comm, card_keys_eq_zero]
  | keys name =>
    simp only [Meets, Fits, exec, refExec, step, true_and, iff_true]
    exact h.agrees
  | values name =>
    simp only [Meets, Fits, exec, refExec, step, Out.values.injEq, SpringShiroCache.values,
      h.keys_eq_nil name, List.filterMap_nil, Multiset.coe_nil]
    rw [and_iff_left h.agrees, eq_comm, values_eq_zero]

theorem Inv.next {s : Redis V × Ref V} (h : Inv s) {op : Op V} (hm : Meets s op) :
    Inv (step s op) := by
  refine ⟨hm.2, fun k hk => ?_⟩
  cases op with
  | put name key value =>
    rcases (AList.mem_insert _).mp hk with rfl | hk
    · exact ⟨name, key, rfl⟩
    · exact h.entry k hk
  | remove name key => exact h.entry k (AList.mem_erase.mp hk).2
  | clear name =>
    simp only [step, exec, h.clear_eq name] at hk
    exact h.entry k hk
  | get | size | keys | values => exact h.entry k hk

/-- **The cache refines its reference** along a sequence of operations, from
an empty Redis, exactly where every operation of it fits. -/
theorem meets_iff (ops : List (Op V)) :
    Along step Meets (∅, fun _ => ∅) ops ↔ Along step Fits (∅, fun _ => ∅) ops :=
  along_iff (fun _ op h => h.meets_iff_fits op) (fun _ _ h hm => h.next hm) ops inv_empty

def sessions : CacheName := ⟨"sessions", by simp [globChars]⟩

/-- An entry is put and the cache is asked for its size, which it says is 0. -/
theorem size_after_put : ¬ ∀ ops : List (Op ℕ), Along step Meets (∅, fun _ => ∅) ops := by
  intro h
  have h2 := (h [.put sessions "a" 1, .size sessions]).2.1.1
  revert h2
  decide

end RedisCache
end CloudManager
