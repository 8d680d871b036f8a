/-
# Sharding by id over numbered targets

The targets are `stem0` to `stem(n - 1)`, in the order of their numbers. Of more
than ten some end in the same digits, as `stem1` and `stem11` do; the precise
algorithms still find the one with the number `id mod n`, since no target
before it ends in that number.
-/
import CloudManager.Dubbo.Sharding
import CloudManager.Lib.Decimal

namespace CloudManager
namespace Sharding

/-- The names `stem0`, `stem1`, .., `n` of them. -/
def targets (stem : String) (n : ℕ) : List String := (List.range n).map fun k => stem ++ toString k

theorem length_targets (stem : String) (n : ℕ) : (targets stem n).length = n := by
  unfold targets
  rw [List.length_map, List.length_range]

theorem modText_eq {id : Int} (hid : 0 ≤ id) (n : ℕ) : modText id n = toString (id.toNat % n) := by
  have hmod : id.tmod n = ((id.toNat % n : ℕ) : Int) := by
    rw [Int.tmod_eq_emod_of_nonneg hid, Int.natCast_mod, Int.toNat_of_nonneg hid]
  unfold modText
  rw [hmod]
  rfl

/-- `endsWith` on the name of a target. -/
theorem endsWith_target (stem : String) (m k : ℕ) :
    endsWith (stem ++ toString k) (toString m) = true ↔
      Nat.toDigits 10 m <:+ stem.toList ++ Nat.toDigits 10 k := by
  unfold endsWith
  rw [List.isSuffixOf_iff_suffix, String.toList_append, Decimal.toList_toString,
    Decimal.toList_toString]

/-- The first target that carries the remainder has it for its number. -/
theorem find_targets {stem : String} {n : ℕ} {id : Int} (hn : 0 < n)
    (hstem : ∀ c ∈ stem.toList.getLast?, c.isDigit = false) (hid : 0 ≤ id) :
    (targets stem n).find? (carries (targets stem n) id) = some (stem ++ toString (id.toNat % n)) := by
  have hcarries : ∀ k, carries (targets stem n) id (stem ++ toString k) = true ↔
      Nat.toDigits 10 (id.toNat % n) <:+ stem.toList ++ Nat.toDigits 10 k := by
    intro k
    unfold carries
    rw [length_targets, modText_eq hid, endsWith_target]
  have hfound : (List.range n).find? (carries (targets stem n) id ∘ fun k => stem ++ toString k) =
      some (id.toNat % n) := by
    rw [List.find?_range_eq_some]
    refine ⟨(hcarries _).mpr (List.suffix_append _ _), List.mem_range.mpr (Nat.mod_lt _ hn), ?_⟩
    intro k hk
    have hnot : ¬ carries (targets stem n) id (stem ++ toString k) = true := fun h => by
      have := Decimal.le_of_suffix hstem ((hcarries k).mp h)
      omega
    simpa using hnot
  have hmap : (targets stem n).find? (carries (targets stem n) id) =
      ((List.range n).find? (carries (targets stem n) id ∘ fun k => stem ++ toString k)).map
        fun k => stem ++ toString k := List.find?_map ..
  rw [hmap, hfound]
  rfl

/-- **The target of an id** is the one with its remainder for a number. -/
theorem doSharding_targets {stem : String} {n : ℕ} {id : Int64} (hn : 0 < n)
    (hstem : ∀ c ∈ stem.toList.getLast?, c.isDigit = false) (hid : 0 ≤ id) :
    DataBasePreciseShardingAlgorithm.doSharding (targets stem n) (some id) =
        some (stem ++ toString (id.toInt.toNat % n)) ∧
      TablePreciseShardingAlgorithm.doSharding (targets stem n) (some id) =
        some (stem ++ toString (id.toInt.toNat % n)) := by
  have hid' : 0 ≤ id.toInt := Int64.le_iff_toInt_le.mp hid
  have hprecise : preciseSharding (targets stem n) (some id) =
      some (stem ++ toString (id.toInt.toNat % n)) := by
    unfold preciseSharding
    dsimp only
    rw [find_targets hn hstem hid']
  exact ⟨hprecise, hprecise⟩

/-- Of twelve targets `ds1` and `ds11` end in 1: the id 25 goes to the former. -/
theorem doSharding_twelve :
    DataBasePreciseShardingAlgorithm.doSharding (targets "ds" 12) (some 25) = some ("ds" ++ "1") ∧
      TablePreciseShardingAlgorithm.doSharding (targets "ds" 12) (some 25) = some ("ds" ++ "1") := by
  have hlast : "ds".toList.getLast? = some 's' := by decide
  have hstem : ∀ c ∈ "ds".toList.getLast?, c.isDigit = false := by
    intro c hc
    rw [hlast] at hc
    rw [← Option.some.inj hc]
    decide
  exact doSharding_targets (by decide) hstem (by decide)

end Sharding
end CloudManager
