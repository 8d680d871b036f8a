/-
# The row windows of the pages

The pages of a `BaseEntity` cut the rows into windows of `pageSize` rows, all
in 32-bit arithmetic. `windows_partition`: the windows of the pages
`1 .. totalPage` are disjoint and make up the rows, and the page that
`listByPage` fetches is the one asked for, or the last.
-/
import Mathlib
import CloudManager.Framework.BaseEntity

namespace CloudManager
namespace BaseEntity

/-! ### Consecutive windows -/

/-- The rows of page `k` without overflow. -/
def rowsOfPage (p k : ℤ) : Set ℤ := Set.Ico ((k - 1) * p) ((k - 1) * p + p)

variable {p j k n t : ℤ}

theorem mem_rowsOfPage_iff (hp : 0 < p) {x : ℤ} : x ∈ rowsOfPage p k ↔ x / p = k - 1 := by
  rw [Int.ediv_eq_iff_of_pos hp]
  exact Iff.rfl

theorem rowsOfPage_disjoint (hp : 0 < p) (h : j ≠ k) :
    Disjoint (rowsOfPage p j) (rowsOfPage p k) := by
  rw [Set.disjoint_left]
  intro x hj hk
  rw [mem_rowsOfPage_iff hp] at hj hk
  omega

/-- `n` windows that reach the end of the `t` rows make up the rows. -/
theorem mem_rowsOfPages_iff (hp : 0 < p) (hn : t ≤ n * p) {x : ℤ} :
    (∃ k, (1 ≤ k ∧ k ≤ n) ∧ x ∈ rowsOfPage p k) ∧ x < t ↔ 0 ≤ x ∧ x < t := by
  refine and_congr_left fun hx => ⟨?_, fun h0 => ?_⟩
  · rintro ⟨k, ⟨h1, -⟩, hm⟩
    have hnn : 0 ≤ (k - 1) * p := mul_nonneg (by omega) hp.le
    exact hnn.trans hm.1
  · have hlt : x / p < n := Int.ediv_lt_of_lt_mul hp (by linarith)
    have hnn : 0 ≤ x / p := Int.ediv_nonneg h0 hp.le
    refine ⟨x / p + 1, ⟨by omega, by omega⟩, ?_⟩
    rw [mem_rowsOfPage_iff hp, add_sub_cancel_right]

/-! ### The windows of the entity -/

/-- The rows of the entity's page. -/
def window (e : BaseEntity) : Set ℤ :=
  Set.Ico e.getStartRow.toInt (e.getStartRow.toInt + e.pageSize.toInt)

variable {e : BaseEntity} {totalCount pageIndex : Int32}

/-- The last page begins among the rows, or is the first, and reaches their end. -/
theorem totalPage_spec (hp : 1 ≤ e.pageSize) (ht : 0 ≤ totalCount) :
    1 ≤ (e.setTotalCount totalCount).totalPage.toInt ∧
      ((e.setTotalCount totalCount).totalPage.toInt - 1) * e.pageSize.toInt <
        max totalCount.toInt 1 ∧
      totalCount.toInt ≤ (e.setTotalCount totalCount).totalPage.toInt * e.pageSize.toInt := by
  have hp' : 1 ≤ e.pageSize.toInt := Int32.le_iff_toInt_le.mp hp
  have ht' : 0 ≤ totalCount.toInt := Int32.le_iff_toInt_le.mp ht
  by_cases h0 : totalCount ≤ 0
  · have hz : totalCount.toInt ≤ 0 := Int32.le_iff_toInt_le.mp h0
    have h1 : (e.setTotalCount totalCount).totalPage.toInt = 1 := by simp [setTotalCount, h0]
    rw [h1]
    exact ⟨le_rfl, by simp, by omega⟩
  · have hpos : 0 < totalCount := Int32.not_le.mp h0
    have hpos' : 0 < totalCount.toInt := Int32.lt_iff_toInt_lt.mp hpos
    have hpp : 0 < e.pageSize := Int32.lt_of_lt_of_le (by decide) hp
    have hq : (e.setTotalCount totalCount).totalPage.toInt =
        (totalCount.toInt + e.pageSize.toInt - 1) / e.pageSize.toInt := by
      simp only [setTotalCount, h0, if_false]
      exact toInt_ceilQuotient hpos hpp
    obtain ⟨h1, h2⟩ := (Int.ediv_eq_iff_of_pos (by omega)).mp hq.symm
    refine ⟨?_, ?_, by linarith⟩
    · by_contra hlt
      have hm : (e.setTotalCount totalCount).totalPage.toInt * e.pageSize.toInt ≤ 0 :=
        mul_nonpos_of_nonpos_of_nonneg (by omega) (by omega)
      omega
    · apply lt_max_of_lt_left
      linarith

/-- No page up to the last overflows. -/
theorem toInt_getStartRow (hp : 1 ≤ e.pageSize) (h1 : 1 ≤ pageIndex)
    (hk : pageIndex ≤ (e.setTotalCount totalCount).totalPage) :
    ((e.setTotalCount totalCount).setPageIndex pageIndex).getStartRow.toInt =
      (pageIndex.toInt - 1) * e.pageSize.toInt := by
  have hpp : 0 < e.pageSize := Int32.lt_of_lt_of_le (by decide) hp
  by_cases h0 : totalCount ≤ 0
  · have hone : pageIndex = 1 := by
      apply Int32.le_antisymm _ h1
      simpa [setTotalCount, h0] using hk
    subst hone
    simp [setPageIndex, getStartRow]
  · have hpos : 0 < totalCount := Int32.not_le.mp h0
    have hq : pageIndex.toInt ≤
        (totalCount.toInt + e.pageSize.toInt - 1) / e.pageSize.toInt := by
      rw [← toInt_ceilQuotient hpos hpp]
      apply Int32.le_iff_toInt_le.mp
      simpa only [setTotalCount, h0, if_false] using hk
    exact (window_toInt hpos hpp h1 hq).1

theorem window_setPageIndex (hp : 1 ≤ e.pageSize) (h1 : 1 ≤ pageIndex)
    (hk : pageIndex ≤ (e.setTotalCount totalCount).totalPage) :
    ((e.setTotalCount totalCount).setPageIndex pageIndex).window =
      rowsOfPage e.pageSize.toInt pageIndex.toInt := by
  rw [window, toInt_getStartRow hp h1 hk]
  rfl

/-- The page that `listByPage` fetches is the one asked for or the last,
although its first start row, set before the count, may have overflowed. -/
theorem afterCount_setPageIndex (e : BaseEntity) (totalCount pageIndex : Int32) :
    let page := min pageIndex (e.setTotalCount totalCount).totalPage
    ((e.setPageIndex pageIndex).beforeCount.afterCount totalCount).pageIndex = page ∧
      ((e.setPageIndex pageIndex).beforeCount.afterCount totalCount).getStartRow =
        ((e.setTotalCount totalCount).setPageIndex page).getStartRow ∧
      ((e.setPageIndex pageIndex).beforeCount.afterCount totalCount).pageSize = e.pageSize := by
  intro page
  by_cases h : (e.setTotalCount totalCount).totalPage < pageIndex
  · have hpage : page = (e.setTotalCount totalCount).totalPage := if_neg (Int32.not_le.mpr h)
    have hc : (e.setPageIndex pageIndex).beforeCount.afterCount totalCount =
        ((e.setPageIndex pageIndex).beforeCount.setTotalCount totalCount).setPageIndex
          (e.setTotalCount totalCount).totalPage := if_pos h
    rw [hc, hpage]
    exact ⟨rfl, rfl, rfl⟩
  · have hpage : page = pageIndex := if_pos (Int32.not_lt.mp h)
    have hc : (e.setPageIndex pageIndex).beforeCount.afterCount totalCount =
        (e.setPageIndex pageIndex).beforeCount.setTotalCount totalCount := if_neg h
    rw [hc, hpage]
    exact ⟨rfl, rfl, rfl⟩

theorem min_mem_pages {k n : Int32} (hk : 1 ≤ k) (hn : 1 ≤ n) : 1 ≤ min k n ∧ min k n ≤ n := by
  by_cases h : k ≤ n
  · have hm : min k n = k := if_pos h
    rw [hm]
    exact ⟨hk, h⟩
  · have hm : min k n = n := if_neg h
    rw [hm]
    exact ⟨hn, Int32.le_refl n⟩

/-- A page number up to the last is an `int`. -/
theorem exists_page (hp : 1 ≤ e.pageSize) {k : ℤ} (h1 : 1 ≤ k)
    (hk : k ≤ (e.setTotalCount totalCount).totalPage.toInt) :
    ∃ i : Int32, 1 ≤ i ∧ i ≤ (e.setTotalCount totalCount).totalPage ∧
      ((e.setTotalCount totalCount).setPageIndex i).window = rowsOfPage e.pageSize.toInt k := by
  have hlt := (e.setTotalCount totalCount).totalPage.toInt_lt
  have hi : (Int32.ofInt k).toInt = k := Int32.toInt_ofInt_of_le (by omega) (by omega)
  have h1' : 1 ≤ Int32.ofInt k := Int32.le_iff_toInt_le.mpr (by rw [hi]; exact h1)
  have hk' : Int32.ofInt k ≤ (e.setTotalCount totalCount).totalPage :=
    Int32.le_iff_toInt_le.mpr (by rw [hi]; exact hk)
  exact ⟨Int32.ofInt k, h1', hk', by rw [window_setPageIndex hp h1' hk', hi]⟩

/-- The windows up to the last page make up the rows. -/
theorem windows_cover (hp : 1 ≤ e.pageSize) (ht : 0 ≤ totalCount) :
    {x | ∃ k : Int32, 1 ≤ k ∧ k ≤ (e.setTotalCount totalCount).totalPage ∧
        x ∈ ((e.setTotalCount totalCount).setPageIndex k).window} ∩ Set.Iio totalCount.toInt =
      Set.Ico 0 totalCount.toInt := by
  have hp' : 0 < e.pageSize.toInt := Int32.le_iff_toInt_le.mp hp
  obtain ⟨-, -, hend⟩ := totalPage_spec hp ht
  ext x
  rw [Set.mem_inter_iff, Set.mem_Iio, Set.mem_Ico, ← mem_rowsOfPages_iff hp' hend]
  refine and_congr_left fun _ => ⟨?_, ?_⟩
  · rintro ⟨k, hk1, hk, hx⟩
    rw [window_setPageIndex hp hk1 hk] at hx
    exact ⟨k.toInt, ⟨Int32.le_iff_toInt_le.mp hk1, Int32.le_iff_toInt_le.mp hk⟩, hx⟩
  · rintro ⟨k, ⟨hk1, hk⟩, hx⟩
    obtain ⟨i, h1, hi, hw⟩ := exists_page hp hk1 hk
    exact ⟨i, h1, hi, by rwa [hw]⟩

/-- The page fetched is the one asked for or the last, and begins among the
rows. -/
theorem fetched_spec (hp : 1 ≤ e.pageSize) (ht : 0 ≤ totalCount) (h1 : 1 ≤ pageIndex) :
    let fetched := (e.setPageIndex pageIndex).beforeCount.afterCount totalCount
    fetched.pageIndex = min pageIndex (e.setTotalCount totalCount).totalPage ∧
      fetched.window = ((e.setTotalCount totalCount).setPageIndex
        (min pageIndex (e.setTotalCount totalCount).totalPage)).window ∧
      0 ≤ fetched.getStartRow.toInt ∧
      fetched.getStartRow.toInt < max totalCount.toInt 1 := by
  intro fetched
  have hp' : 0 < e.pageSize.toInt := Int32.le_iff_toInt_le.mp hp
  obtain ⟨hn1, hstart, -⟩ := totalPage_spec hp ht
  obtain ⟨hpage, hrow, hsize⟩ := afterCount_setPageIndex e totalCount pageIndex
  obtain ⟨hm1, hm2⟩ := min_mem_pages h1 (Int32.le_iff_toInt_le.mpr hn1)
  have hs := toInt_getStartRow hp hm1 hm2
  refine ⟨hpage, ?_, ?_, ?_⟩
  · rw [window, window, hrow, hsize]
    rfl
  · have hge : 1 ≤ (min pageIndex (e.setTotalCount totalCount).totalPage).toInt :=
      Int32.le_iff_toInt_le.mp hm1
    rw [hrow, hs]
    exact mul_nonneg (by omega) hp'.le
  · have hle := Int32.le_iff_toInt_le.mp hm2
    rw [hrow, hs]
    exact lt_of_le_of_lt (by gcongr) hstart

/-- **Paging windows partition the result**: for any total the windows of the
pages are disjoint and make up the rows, and whatever page is asked for, the
one fetched is that page or the last, and begins among the rows. -/
theorem windows_partition (e : BaseEntity) (hp : 1 ≤ e.pageSize) (totalCount : Int32)
    (ht : 0 ≤ totalCount) :
    (∀ j k : Int32, 1 ≤ j → j ≤ (e.setTotalCount totalCount).totalPage → 1 ≤ k →
      k ≤ (e.setTotalCount totalCount).totalPage → j ≠ k →
        Disjoint ((e.setTotalCount totalCount).setPageIndex j).window
          ((e.setTotalCount totalCount).setPageIndex k).window) ∧
    {x | ∃ k : Int32, 1 ≤ k ∧ k ≤ (e.setTotalCount totalCount).totalPage ∧
        x ∈ ((e.setTotalCount totalCount).setPageIndex k).window} ∩ Set.Iio totalCount.toInt =
      Set.Ico 0 totalCount.toInt ∧
    ∀ pageIndex : Int32, 1 ≤ pageIndex →
      let fetched := (e.setPageIndex pageIndex).beforeCount.afterCount totalCount
      fetched.pageIndex = min pageIndex (e.setTotalCount totalCount).totalPage ∧
        fetched.window = ((e.setTotalCount totalCount).setPageIndex
          (min pageIndex (e.setTotalCount totalCount).totalPage)).window ∧
        0 ≤ fetched.getStartRow.toInt ∧
        fetched.getStartRow.toInt < max totalCount.toInt 1 := by
  refine ⟨fun j k hj1 hj hk1 hk hne => ?_, windows_cover hp ht, fun _ h1 => fetched_spec hp ht h1⟩
  rw [window_setPageIndex hp hj1 hj, window_setPageIndex hp hk1 hk]
  exact rowsOfPage_disjoint (Int32.le_iff_toInt_le.mp hp) fun h => hne (Int32.toInt_inj.mp h)

/-- Twenty rows, seven a page, and a page number far too large. -/
def sevenRows : BaseEntity := { pageSize := 7 }

theorem sevenRows_partition :
    ({x | ∃ k : Int32, 1 ≤ k ∧ k ≤ (sevenRows.setTotalCount 20).totalPage ∧
        x ∈ ((sevenRows.setTotalCount 20).setPageIndex k).window} ∩ Set.Iio 20 = Set.Ico 0 20) ∧
      ((sevenRows.setPageIndex 2147483647).beforeCount.afterCount 20).getStartRow.toInt < 20 := by
  have h := windows_partition sevenRows (by decide) 20 (by decide)
  exact ⟨h.2.1, (h.2.2 2147483647 (by decide)).2.2.2⟩

example : ((sevenRows.setPageIndex 2147483647).beforeCount.afterCount 20).pageIndex = 3 := by decide

end BaseEntity
end CloudManager
