/-
# Sharding by id: the precise and the range algorithms

`doSharding` of the two precise (equality) and the two range algorithms. All
four match a target by the decimal text of `id % collection.size()`: the
precise ones return the first target whose name ends in it, or else the first
target of all; the range ones collect, for every id of the range, each target
whose name ends in it, and have no such fallback.

Java's `long` is `Int64`, its `%` truncates towards zero. The range loop runs
`i++` in 64 bits and is given fuel; below `Long.MAX_VALUE` it ends after the
ids of the range (`rangeLoop_eq`).

`doSharding_agree_iff`: the two routes agree on an id exactly when some
target carries its remainder, or the first target, to which the precise route
falls back, carries the remainder of some id of the range.

`doSharding_ends_iff`: the range loops end exactly where the upper end of the
range is not `Long.MAX_VALUE`.
-/
import Mathlib.Data.List.Basic
import Mathlib.Algebra.Order.Group.Int

namespace CloudManager
namespace Sharding

/-! ### The algorithms -/

/-- `String.endsWith`. -/
def endsWith (name suffix : String) : Bool := suffix.toList.isSuffixOf name.toList

/-- The decimal text of `id % size`. -/
def modText (id : Int) (size : ℕ) : String := toString (id.tmod size)

/-- The target carries the remainder of `id`. -/
def carries (collection : List String) (id : Int) (name : String) : Bool :=
  endsWith name (modText id collection.length)

/-- `doSharding` of the precise algorithms. A null value and an empty
collection raise an exception that is caught; the fallback then throws on the
empty collection (`none`). -/
def preciseSharding (collection : List String) (value : Option Int64) : Option String :=
  match value with
  | none => collection.head?
  | some id =>
    match collection.find? (carries collection id.toInt) with
    | some name => some name
    | none => collection.head?

/-- The loop of the range algorithms from `i`; `none` when the fuel is out. -/
def rangeLoop (collection : List String) (hi : Int64) : ℕ → Int64 → List String → Option (List String)
  | 0, _, _ => none
  | fuel + 1, i, collect =>
    if i ≤ hi then
      rangeLoop collection hi fuel (i + 1) (collect ++ collection.filter (carries collection i.toInt))
    else some collect

/-- `doSharding` of the range algorithms on the closed range `[lo, hi]`. -/
def rangeSharding (fuel : ℕ) (collection : List String) (lo hi : Int64) : Option (List String) :=
  rangeLoop collection hi fuel lo []

namespace DataBasePreciseShardingAlgorithm

def doSharding (collection : List String) (value : Option Int64) : Option String :=
  preciseSharding collection value

end DataBasePreciseShardingAlgorithm

namespace DataBaseRangeShardingAlgorithm

def doSharding (fuel : ℕ) (collection : List String) (lo hi : Int64) : Option (List String) :=
  rangeSharding fuel collection lo hi

end DataBaseRangeShardingAlgorithm

namespace TablePreciseShardingAlgorithm

def doSharding (collection : List String) (value : Option Int64) : Option String :=
  preciseSharding collection value

end TablePreciseShardingAlgorithm

namespace TableRangeShardingAlgorithm

def doSharding (fuel : ℕ) (collection : List String) (lo hi : Int64) : Option (List String) :=
  rangeSharding fuel collection lo hi

end TableRangeShardingAlgorithm

/-! ### The range loop -/

/-- The ids `i, i + 1, ..` of a range, `n` of them. -/
def ids (i : Int) : ℕ → List Int
  | 0 => []
  | n + 1 => i :: ids (i + 1) n

theorem mem_ids {i j : Int} : ∀ {n : ℕ}, j ∈ ids i n ↔ i ≤ j ∧ j < i + n
  | 0 => by simp [ids]
  | n + 1 => by
    rw [ids, List.mem_cons, mem_ids]
    push_cast
    omega

theorem toInt_succ {i hi : Int64} (h : i ≤ hi) (hhi : hi < Int64.maxValue) :
    (i + 1).toInt = i.toInt + 1 := by
  have h1 := Int64.le_iff_toInt_le.mp h
  have h2 := Int64.lt_iff_toInt_lt.mp hhi
  have h3 := Int64.le_toInt i
  rw [Int64.toInt_maxValue] at h2
  rw [Int64.toInt_add, Int64.toInt_one, Int.bmod_eq_of_le (by omega) (by omega)]

/-- The values of the loop variable; `none` when the fuel is out. -/
def visits (hi : Int64) : ℕ → Int64 → Option (List Int64)
  | 0, _ => none
  | fuel + 1, i => if i ≤ hi then (visits hi fuel (i + 1)).map (i :: ·) else some []

/-- The loop adds the targets of each id that it visits. -/
theorem rangeLoop_visits (collection : List String) (hi : Int64) (fuel : ℕ) (i : Int64)
    (collect : List String) : rangeLoop collection hi fuel i collect =
      (visits hi fuel i).map fun js =>
        collect ++ js.flatMap fun j => collection.filter (carries collection j.toInt) := by
  induction fuel generalizing i collect with
  | zero => rfl
  | succ fuel ih =>
    unfold rangeLoop visits
    split
    · rw [ih, Option.map_map]
      congr 1
      funext js
      simp only [Function.comp_apply, List.flatMap_cons, List.append_assoc]
    · simp

theorem visits_eq {hi : Int64} (hhi : hi < Int64.maxValue) (n : ℕ) (i : Int64)
    (h : i.toInt + n = hi.toInt + 1) :
    ∃ js, visits hi (n + 1) i = some js ∧ js.map Int64.toInt = ids i.toInt n := by
  induction n generalizing i with
  | zero =>
    have hgt : ¬ i ≤ hi := fun hle => by
      have := Int64.le_iff_toInt_le.mp hle
      omega
    refine ⟨[], ?_, rfl⟩
    unfold visits
    rw [if_neg hgt]
  | succ n ih =>
    have hle : i ≤ hi := Int64.le_iff_toInt_le.mpr (by omega)
    have hs := toInt_succ hle hhi
    obtain ⟨js, hjs, hids⟩ := ih (i + 1) (by rw [hs]; push_cast at h; omega)
    refine ⟨i :: js, ?_, ?_⟩
    · unfold visits
      rw [if_pos hle, hjs]
      rfl
    · rw [List.map_cons, hids, hs]
      rfl

/-- **The loop ends.** Below `Long.MAX_VALUE` it visits the `n` ids from `i`
to `hi` in order and then stops. -/
theorem rangeLoop_eq (collection : List String) {hi : Int64} (hhi : hi < Int64.maxValue) (n : ℕ)
    (i : Int64) (collect : List String) (h : i.toInt + n = hi.toInt + 1) :
    rangeLoop collection hi (n + 1) i collect =
      some (collect ++ (ids i.toInt n).flatMap fun j => collection.filter (carries collection j)) := by
  obtain ⟨js, hjs, hids⟩ := visits_eq hhi n i h
  rw [rangeLoop_visits, hjs, ← hids, List.flatMap_map]
  rfl

/-- More fuel changes nothing. -/
theorem rangeLoop_mono (collection : List String) (hi : Int64) : ∀ (fuel k : ℕ) (i : Int64)
    (collect r : List String), rangeLoop collection hi fuel i collect = some r →
      rangeLoop collection hi (fuel + k) i collect = some r
  | 0, _, _, _, _, h => by cases h
  | fuel + 1, k, i, collect, r, h => by
    rw [Nat.add_right_comm, rangeLoop]
    rw [rangeLoop] at h
    split at h
    · rename_i hle
      rw [if_pos hle]
      exact rangeLoop_mono collection hi fuel k (i + 1) _ r h
    · rename_i hle
      rw [if_neg hle]
      exact h

/-- The result does not depend on the fuel. -/
theorem rangeLoop_unique {collection : List String} {hi i : Int64} {f g : ℕ}
    {collect r r' : List String} (h : rangeLoop collection hi f i collect = some r)
    (h' : rangeLoop collection hi g i collect = some r') : r = r' := by
  have h1 := rangeLoop_mono collection hi f g i collect r h
  have h2 := rangeLoop_mono collection hi g f i collect r' h'
  rw [Nat.add_comm] at h2
  exact Option.some.inj (h1.symm.trans h2)

/-- What a range query collects: the targets that carry the remainder of
some id of the range. -/
theorem rangeSharding_spec (collection : List String) {lo hi : Int64} (hle : lo ≤ hi)
    (hhi : hi < Int64.maxValue) : ∃ fuel collect, rangeSharding fuel collection lo hi = some collect ∧
      ∀ name, name ∈ collect ↔ name ∈ collection ∧
        ∃ j, lo.toInt ≤ j ∧ j ≤ hi.toInt ∧ carries collection j name = true := by
  have hi' := Int64.le_iff_toInt_le.mp hle
  obtain ⟨n, hn⟩ : ∃ n : ℕ, lo.toInt + n = hi.toInt + 1 := ⟨(hi.toInt + 1 - lo.toInt).toNat, by omega⟩
  refine ⟨n + 1, _, rangeLoop_eq collection hhi n lo [] hn, fun name => ?_⟩
  simp only [List.nil_append, List.mem_flatMap, mem_ids, List.mem_filter]
  constructor
  · rintro ⟨j, ⟨h1, h2⟩, h3, h4⟩
    exact ⟨h3, j, h1, by omega, h4⟩
  · rintro ⟨h3, j, h1, h2, h4⟩
    exact ⟨j, ⟨h1, by omega⟩, h3, h4⟩

/-! ### The precise route -/

/-- Where some target carries the remainder, a target that does is chosen. -/
theorem preciseSharding_carried {collection : List String} {id : Int64}
    (h : ∃ name ∈ collection, carries collection id.toInt name = true) :
    ∃ name ∈ collection, carries collection id.toInt name = true ∧
      preciseSharding collection (some id) = some name := by
  obtain ⟨name, hf⟩ := Option.isSome_iff_exists.mp (List.find?_isSome.mpr h)
  exact ⟨name, List.mem_of_find?_eq_some hf, List.find?_some hf, by simp [preciseSharding, hf]⟩

/-- Where none does, the first target is chosen. -/
theorem preciseSharding_fallback {first : String} {rest : List String} {id : Int64}
    (h : ¬ ∃ name ∈ first :: rest, carries (first :: rest) id.toInt name = true) :
    preciseSharding (first :: rest) (some id) = some first := by
  have hf : (first :: rest).find? (carries (first :: rest) id.toInt) = none := by
    rw [List.find?_eq_none]
    intro name hm hc
    exact h ⟨name, hm, hc⟩
  simp [preciseSharding, hf]

/-! ### The two routes together -/

/-- The target that the precise algorithm chooses for `id` is one of those
the range algorithm chooses for `[lo, hi]`. -/
def Agree (precise : List String → Option Int64 → Option String)
    (range : ℕ → List String → Int64 → Int64 → Option (List String))
    (collection : List String) (lo hi id : Int64) : Prop :=
  ∃ fuel collect name, range fuel collection lo hi = some collect ∧
    precise collection (some id) = some name ∧ name ∈ collect

/-- Some target carries the remainder of `id`, or the first target carries
that of some id of the range. -/
def Routed (collection : List String) (lo hi id : Int64) : Prop :=
  (∃ name ∈ collection, carries collection id.toInt name = true) ∨
  ∃ first ∈ collection.head?, ∃ j, lo.toInt ≤ j ∧ j ≤ hi.toInt ∧ carries collection j first = true

theorem agree_iff {collection : List String} {lo hi id : Int64} (hne : collection ≠ [])
    (hhi : hi < Int64.maxValue) (hlo : lo ≤ id) (hid : id ≤ hi) :
    Agree preciseSharding rangeSharding collection lo hi id ↔ Routed collection lo hi id := by
  obtain ⟨first, rest, rfl⟩ := List.exists_cons_of_ne_nil hne
  simp only [Routed, List.head?_cons, Option.mem_def, Option.some.injEq, exists_eq_left']
  have h1 := Int64.le_iff_toInt_le.mp hlo
  have h2 := Int64.le_iff_toInt_le.mp hid
  obtain ⟨fuel, collect, hr, hmem⟩ := rangeSharding_spec (first :: rest)
    (Int64.le_iff_toInt_le.mpr (h1.trans h2)) hhi
  by_cases hc : ∃ name ∈ first :: rest, carries (first :: rest) id.toInt name = true
  · obtain ⟨name, hn, hcar, hp⟩ := preciseSharding_carried hc
    exact ⟨fun _ => .inl hc, fun _ => ⟨fuel, collect, name, hr, hp,
      (hmem name).mpr ⟨hn, id.toInt, h1, h2, hcar⟩⟩⟩
  · have hp := preciseSharding_fallback hc
    constructor
    · rintro ⟨f, collect', name, hr', hp', hm⟩
      obtain rfl : collect = collect' := rangeLoop_unique hr hr'
      obtain rfl : first = name := Option.some.inj (hp.symm.trans hp')
      exact .inr ((hmem first).mp hm).2
    · rintro (h | h)
      · exact (hc h).elim
      · exact ⟨fuel, collect, first, hr, hp, (hmem first).mpr ⟨List.mem_cons_self, h⟩⟩

/-- **The range route finds what the precise route wrote**, for the database
and for the table pair, exactly where the id is routed by a remainder. -/
theorem doSharding_agree_iff {collection : List String} {lo hi id : Int64} (hne : collection ≠ [])
    (hhi : hi < Int64.maxValue) (hlo : lo ≤ id) (hid : id ≤ hi) :
    (Agree DataBasePreciseShardingAlgorithm.doSharding DataBaseRangeShardingAlgorithm.doSharding
        collection lo hi id ∧
      Agree TablePreciseShardingAlgorithm.doSharding TableRangeShardingAlgorithm.doSharding
        collection lo hi id) ↔ Routed collection lo hi id := by
  have h := agree_iff hne hhi hlo hid
  exact ⟨fun ha => h.mp ha.1, fun hr => ⟨h.mpr hr, h.mpr hr⟩⟩

/-- Two targets and the ids -3 to 4: the id 3 is found. -/
theorem doSharding_agree_two :
    (Agree DataBasePreciseShardingAlgorithm.doSharding DataBaseRangeShardingAlgorithm.doSharding
        ["ds0", "ds1"] (-3) 4 3 ∧
      Agree TablePreciseShardingAlgorithm.doSharding TableRangeShardingAlgorithm.doSharding
        ["ds0", "ds1"] (-3) 4 3) :=
  (doSharding_agree_iff (by decide) (by decide) (by decide) (by decide)).mpr (.inl (by decide))

/-- The id -1 of two targets leaves the remainder -1, which no target
carries: the precise route falls back to `ds0`, the range `[-1, -1]` is
answered by no target. -/
theorem doSharding_disagree : ¬ ∀ (collection : List String) (lo hi id : Int64), collection ≠ [] →
    hi < Int64.maxValue → lo ≤ id → id ≤ hi →
    Agree DataBasePreciseShardingAlgorithm.doSharding DataBaseRangeShardingAlgorithm.doSharding
      collection lo hi id := by
  intro h
  obtain ⟨fuel, collect, name, hr, hp, hm⟩ :=
    h ["ds0", "ds1"] (-1) (-1) (-1) (by decide) (by decide) (by decide) (by decide)
  have hnil : rangeSharding 2 ["ds0", "ds1"] (-1) (-1) = some [] := by decide
  rw [rangeLoop_unique hr hnil] at hm
  cases hm

/-! ### Termination -/

/-- Every id is at most `Long.MAX_VALUE`, and after the last comes the first. -/
theorem visits_maxValue (fuel : ℕ) (i : Int64) : visits Int64.maxValue fuel i = none := by
  induction fuel generalizing i with
  | zero => rfl
  | succ fuel ih =>
    have hle : i ≤ Int64.maxValue := Int64.le_iff_toInt_le.mpr (Int64.toInt_le i)
    unfold visits
    rw [if_pos hle, ih]
    rfl

/-- The algorithm ends, after exactly the ids of the range in their order. -/
def Ends (doSharding : ℕ → List String → Int64 → Int64 → Option (List String))
    (collection : List String) (lo hi : Int64) : Prop :=
  ∃ fuel js, visits hi fuel lo = some js ∧
    js.map Int64.toInt = ids lo.toInt (hi.toInt + 1 - lo.toInt).toNat ∧
    doSharding fuel collection lo hi =
      some (js.flatMap fun j => collection.filter (carries collection j.toInt))

theorem ends_iff (collection : List String) (lo hi : Int64) :
    Ends rangeSharding collection lo hi ↔ hi < Int64.maxValue := by
  constructor
  · rintro ⟨fuel, js, hjs, -, -⟩
    by_contra hge
    have hhi : hi = Int64.maxValue := by
      have h1 := Int64.toInt_le hi
      have h2 : ¬ hi.toInt < Int64.maxValue.toInt := fun hlt => hge (Int64.lt_iff_toInt_lt.mpr hlt)
      exact Int64.toInt_inj.mp (by omega)
    rw [hhi, visits_maxValue] at hjs
    cases hjs
  · intro hhi
    by_cases hle : lo ≤ hi
    · have hle' := Int64.le_iff_toInt_le.mp hle
      obtain ⟨js, hjs, hids⟩ := visits_eq hhi (hi.toInt + 1 - lo.toInt).toNat lo (by omega)
      refine ⟨_, js, hjs, hids, ?_⟩
      unfold rangeSharding
      rw [rangeLoop_visits, hjs]
      rfl
    · have hgt : ¬ lo.toInt ≤ hi.toInt := fun h => hle (Int64.le_iff_toInt_le.mpr h)
      have hnone : (hi.toInt + 1 - lo.toInt).toNat = 0 := by omega
      have hjs : visits hi 1 lo = some [] := by
        unfold visits
        rw [if_neg hle]
      refine ⟨1, [], hjs, by rw [hnone]; rfl, ?_⟩
      unfold rangeSharding
      rw [rangeLoop_visits, hjs]
      rfl

/-- **The range loops end**, after exactly the ids of their range, where its upper end is
below `Long.MAX_VALUE`. -/
theorem doSharding_ends_iff (collection : List String) (lo hi : Int64) :
    (Ends DataBaseRangeShardingAlgorithm.doSharding collection lo hi ∧
      Ends TableRangeShardingAlgorithm.doSharding collection lo hi) ↔ hi < Int64.maxValue := by
  have h := ends_iff collection lo hi
  exact ⟨fun ha => h.mp ha.1, fun hhi => ⟨h.mpr hhi, h.mpr hhi⟩⟩

/-- The range of `Long.MAX_VALUE` alone is never left. -/
theorem not_doSharding_ends : ¬ ∀ (collection : List String) (lo hi : Int64), collection ≠ [] →
    lo ≤ hi → Ends DataBaseRangeShardingAlgorithm.doSharding collection lo hi := by
  intro h
  have hends := h ["ds0", "ds1"] Int64.maxValue Int64.maxValue (by decide) (by decide)
  exact absurd ((ends_iff _ _ _).mp hends) (by decide)

end Sharding
end CloudManager
