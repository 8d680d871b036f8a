/-
# The paging state of an entity

The numbers a `BaseEntity` carries through a paged query, all of them Java
`int`s, so the row window is computed modulo `2^32`.
-/
import Mathlib.Tactic.Linarith
import Mathlib.Tactic.Ring

namespace CloudManager

structure BaseEntity where
  pageSize : Int32 := 20
  pageIndex : Int32 := 1
  totalCount : Int32 := 0
  totalPage : Int32 := 0
  startRow : Int32 := 0
  /-- A page index has been set. -/
  pageIndexQuery : Bool := false
  deriving DecidableEq, Repr

namespace BaseEntity

variable (e : BaseEntity)

def setPageIndex (pageIndex : Int32) : BaseEntity :=
  { e with pageIndex := pageIndex, pageIndexQuery := true }

/-- `Math.ceil` of the quotient as doubles; the quotient by zero is infinite,
and the cast makes the largest `int` of it. -/
def ceilQuotient (totalCount pageSize : Int32) : Int32 :=
  if pageSize = 0 then Int32.maxValue
  else Int32.ofInt (-((-totalCount.toInt).fdiv pageSize.toInt))

def setTotalCount (totalCount : Int32) : BaseEntity :=
  { e with totalCount := totalCount,
           totalPage := if totalCount ≤ 0 then 1 else ceilQuotient totalCount e.pageSize }

def setStartRowByPageIndex : BaseEntity :=
  { e with startRow := (e.pageIndex - 1) * e.pageSize }

def getStartRow : Int32 :=
  if e.pageIndexQuery then (e.pageIndex - 1) * e.pageSize else e.startRow

def getEndRow : Int32 := e.getStartRow + e.pageSize

/-- `listByPage` before the count, for an entity with a page index. -/
def beforeCount : BaseEntity := if e.pageIndexQuery then e.setStartRowByPageIndex else e

/-- `listByPage` after the count: the total, and no page beyond the last one. -/
def afterCount (totalCount : Int32) : BaseEntity :=
  let e := e.setTotalCount totalCount
  if e.totalPage < e.pageIndex then e.setPageIndex e.totalPage else e

variable {e}

/-- With a page index the field `startRow` is what `getStartRow` gives, before the count. -/
theorem startRow_beforeCount (h : e.pageIndexQuery = true) :
    e.beforeCount.startRow = e.getStartRow ∧ e.beforeCount.getStartRow = e.getStartRow := by
  simp [beforeCount, setStartRowByPageIndex, getStartRow, h]

/-! ### The numbers without overflow -/

/-- The number of pages of a positive total. -/
theorem toInt_ceilQuotient {totalCount pageSize : Int32} (ht : 0 < totalCount)
    (hp : 0 < pageSize) : (ceilQuotient totalCount pageSize).toInt =
      (totalCount.toInt + pageSize.toInt - 1) / pageSize.toInt := by
  have ht' : 0 < totalCount.toInt := Int32.lt_iff_toInt_lt.mp ht
  have hp' : 0 < pageSize.toInt := Int32.lt_iff_toInt_lt.mp hp
  have hlt := totalCount.toInt_lt
  have hne : pageSize ≠ 0 := fun h => by simp [h] at hp'
  have hq : -((-totalCount.toInt).fdiv pageSize.toInt) =
      (totalCount.toInt + pageSize.toInt - 1) / pageSize.toInt := by
    rw [Int.fdiv_eq_ediv_of_nonneg _ hp'.le]
    have h1 := Int.emod_nonneg (-totalCount.toInt) hp'.ne'
    have h2 := Int.emod_lt_of_pos (-totalCount.toInt) hp'
    have h3 := Int.mul_ediv_add_emod (-totalCount.toInt) pageSize.toInt
    symm
    rw [Int.ediv_eq_iff_of_pos hp']
    constructor <;> nlinarith
  have hle : (totalCount.toInt + pageSize.toInt - 1) / pageSize.toInt ≤ totalCount.toInt := by
    apply Int.ediv_le_of_le_mul hp'
    nlinarith
  have hge : 0 ≤ (totalCount.toInt + pageSize.toInt - 1) / pageSize.toInt :=
    Int.ediv_nonneg (by omega) hp'.le
  unfold ceilQuotient
  rw [if_neg hne, hq]
  exact Int32.toInt_ofInt_of_le (by omega) (by omega)

/-- The window of page `k`, for a total of `total` keys. -/
theorem window_toInt {pageSize total k : Int32} (ht : 0 < total) (hp : 0 < pageSize)
    (h1 : 1 ≤ k) (hk : k.toInt ≤ (total.toInt + pageSize.toInt - 1) / pageSize.toInt) :
    ((k - 1) * pageSize).toInt = (k.toInt - 1) * pageSize.toInt ∧
      ((k - 1) * pageSize + pageSize).toInt = (k.toInt * pageSize.toInt).bmod (2 ^ 32) := by
  have ht' : 0 < total.toInt := Int32.lt_iff_toInt_lt.mp ht
  have hp' : 0 < pageSize.toInt := Int32.lt_iff_toInt_lt.mp hp
  have h1' : 1 ≤ k.toInt := Int32.le_iff_toInt_le.mp h1
  have hlt := total.toInt_lt
  have hk' : k.toInt * pageSize.toInt ≤ total.toInt + pageSize.toInt - 1 :=
    (Int.le_ediv_iff_mul_le hp').mp hk
  have hsub : (k - 1).toInt = k.toInt - 1 := by
    have := k.toInt_lt
    rw [Int32.toInt_sub]
    exact Int.bmod_eq_of_le (by simp; omega) (by simp; omega)
  have hnn : 0 ≤ (k.toInt - 1) * pageSize.toInt := mul_nonneg (by omega) hp'.le
  have hs : ((k - 1) * pageSize).toInt = (k.toInt - 1) * pageSize.toInt := by
    rw [Int32.toInt_mul, hsub]
    have hlt31 : (k.toInt - 1) * pageSize.toInt < 2 ^ 31 := by linarith
    exact Int.bmod_eq_of_le (by omega) (by omega)
  refine ⟨hs, ?_⟩
  rw [Int32.toInt_add, hs]
  congr 1
  ring

end BaseEntity
end CloudManager
