/-
# One-to-many paging on MySQL

The multi-table template of `PageSqlHelper` numbers the rows of the inner
query by two session variables: the number goes up whenever a row's primary key
differs from the one before, so it counts blocks of equal adjacent keys. The
total the pages are made from is `COUNT(DISTINCT key)`. The templates of the
other databases rank over an order that ends with the key, where a block is a
key; here the order is the caller's, a key may come back in a later block, and
then there are more blocks than keys. `paged_iff` says for which lists the
pages still show every row once and every key whole.
-/
import Mathlib.Data.List.Destutter
import Mathlib.Tactic.Ring
import CloudManager.Framework.BaseEntity

namespace CloudManager
namespace Paging

/-- What the template reads of a row: its primary key, and whether MySQL takes
the key for equal to the empty string `@id` starts from. -/
structure Query (κ R : Type*) where
  pk : R → κ
  blank : κ → Bool

variable {κ R : Type*} [DecidableEq κ] (q : Query κ R)

/-! ### The two statements -/

/-- `@id != T.{PKColumn}`, with `none` for the initial `''`. -/
def Query.differs : Option κ → κ → Bool
  | none, pk => !q.blank pk
  | some id, pk => id ≠ pk

/-- The rows with their `rownum`, from the values of `@dense_rank` and `@id`. -/
def denseRank : ℕ → Option κ → List R → List (ℕ × R)
  | _, _, [] => []
  | rank, id, r :: rows =>
    let rank := if q.differs id (q.pk r) then rank + 1 else rank
    (rank, r) :: denseRank rank (some (q.pk r)) rows

def numbered (rows : List R) : List (ℕ × R) := denseRank q 0 none rows

/-- `SELECT COUNT(DISTINCT {PKColumn})`; a count that is no `int` throws. -/
def countDistinct (rows : List R) : Option Int32 :=
  let n := (rows.map q.pk).dedup.length
  if n < 2 ^ 31 then some (Int32.ofNat n) else none

/-- `ROWNUM > {startRow} AND ROWNUM <= {endRow}`. -/
def inWindow (e : BaseEntity) (x : ℕ × R) : Prop :=
  e.getStartRow.toInt < x.1 ∧ x.1 ≤ e.getEndRow.toInt

instance (e : BaseEntity) : DecidablePred (inWindow (R := R) e) := fun x =>
  inferInstanceAs (Decidable (e.getStartRow.toInt < x.1 ∧ x.1 ≤ e.getEndRow.toInt))

/-- `listByPage`: the count, then the page. -/
def listByPage (e : BaseEntity) (rows : List R) : Option (BaseEntity × List (ℕ × R)) :=
  (countDistinct q rows).map fun total =>
    let e := e.beforeCount.afterCount total
    (e, (numbered q rows).filter (inWindow e ·))

/-- A request for page `k`. -/
def request (pageSize k : Int32) : BaseEntity :=
  BaseEntity.setPageIndex { pageSize := pageSize } k

/-! ### What the pages should be -/

/-- Page `k` shows the numbered row `x`. -/
def Shown (pageSize : Int32) (rows : List R) (k : Int32) (x : ℕ × R) : Prop :=
  ∃ page ∈ listByPage q (request pageSize k) rows, x ∈ page.2

/-- The query has a number of pages, each row is on exactly one of them, and a
page that shows a key shows all its rows. -/
def Paged (pageSize : Int32) (rows : List R) : Prop :=
  ∃ total ∈ countDistinct q rows,
    let pages := ((request pageSize 1).setTotalCount total).totalPage
    (∀ x ∈ numbered q rows, ∃! k, (1 ≤ k ∧ k ≤ pages) ∧ Shown q pageSize rows k x) ∧
    ∀ k, 1 ≤ k → k ≤ pages → ∀ x y, Shown q pageSize rows k x → y ∈ numbered q rows →
      q.pk y.2 = q.pk x.2 → Shown q pageSize rows k y

/-- The number of blocks of equal adjacent keys. -/
def blocks (keys : List κ) : ℕ := (keys.destutter (· ≠ ·)).length

/-- The number, from 1, of the block the row at `i` stands in. -/
def block (rows : List R) (i : ℕ) : ℕ := blocks ((rows.map q.pk).take (i + 1))

/-- The number of pages the distinct keys take. -/
def keyPages (pageSize : ℤ) (rows : List R) : ℤ :=
  ((rows.map q.pk).dedup.length + pageSize - 1) / pageSize

/-- The lists that page well: the first key is not blank, the last window ends
within an `int`, the blocks fill no more pages than the keys, and two blocks of
one key fall on one page. -/
structure Fits (pageSize : ℤ) (rows : List R) : Prop where
  first : ∀ r ∈ rows.head?, q.blank (q.pk r) = false
  window : keyPages q pageSize rows * pageSize < 2 ^ 31
  enough : blocks (rows.map q.pk) ≤ keyPages q pageSize rows * pageSize
  together : ∀ i < rows.length, ∀ j < rows.length, ∀ r ∈ rows[i]?, ∀ r' ∈ rows[j]?,
    q.pk r = q.pk r' →
      ((block q rows i : ℤ) - 1) / pageSize = ((block q rows j : ℤ) - 1) / pageSize

/-! ### The numbers are block numbers -/

theorem blocks_cons_cons (a b : κ) (l : List κ) :
    blocks (a :: b :: l) = (if a = b then 0 else 1) + blocks (b :: l) := by
  unfold blocks
  rw [List.destutter_cons_cons]
  by_cases h : a = b
  · subst h
    simp [List.destutter_cons']
  · simp [h, List.destutter_cons', Nat.add_comm]

theorem blocks_pos (a : κ) (l : List κ) : 1 ≤ blocks (a :: l) := by
  have h : (a :: l).destutter (· ≠ ·) ≠ [] := by simp
  exact List.length_pos_iff.mpr h

/-- A list has at least as many blocks as one of its sublists has distinct
neighbours. -/
theorem length_le_blocks {l keys : List κ} (hl : l.IsChain (· ≠ ·)) (h : l.Sublist keys) :
    l.length ≤ blocks keys :=
  hl.length_le_length_destutter_ne h

/-- There are at least as many blocks as keys. -/
theorem distinct_le_blocks (keys : List κ) : keys.dedup.length ≤ blocks keys :=
  length_le_blocks (List.nodup_dedup keys).isChain (List.dedup_sublist keys)

theorem blocks_take_le (keys : List κ) (i : ℕ) : blocks (keys.take i) ≤ blocks keys :=
  length_le_blocks (List.isChain_destutter _ _)
    ((List.destutter_sublist _ _).trans (List.take_sublist i keys))

theorem denseRank_getElem? (rank : ℕ) (k : κ) (rows : List R) (i : ℕ) :
    (denseRank q rank (some k) rows)[i]? =
      rows[i]?.map fun r => (rank + blocks (k :: (rows.map q.pk).take (i + 1)) - 1, r) := by
  induction rows generalizing rank k i with
  | nil => rfl
  | cons r rows ih =>
    have hrank : ∀ keys, (if q.differs (some k) (q.pk r) then rank + 1 else rank) +
        blocks (q.pk r :: keys) = rank + blocks (k :: q.pk r :: keys) := by
      intro keys
      rw [blocks_cons_cons]
      by_cases hk : k = q.pk r
      · simp [Query.differs, hk]
      · simp [Query.differs, hk]
        omega
    rcases i with _ | i
    · have h1 : blocks [q.pk r] = 1 := rfl
      have h0 := hrank []
      simp only [denseRank, List.getElem?_cons_zero, Option.map_some, List.map_cons,
        List.take_succ_cons, List.take_zero]
      congr 2
      omega
    · simp only [denseRank, List.getElem?_cons_succ, List.map_cons]
      rw [ih, List.take_succ_cons, hrank]

theorem numbered_getElem? {rows : List R} (h : ∀ r ∈ rows.head?, q.blank (q.pk r) = false)
    (i : ℕ) : (numbered q rows)[i]? = rows[i]?.map fun r => (block q rows i, r) := by
  rcases rows with _ | ⟨r, rows⟩
  · rfl
  · have hr : q.blank (q.pk r) = false := h r rfl
    have hn : numbered q (r :: rows) = (1, r) :: denseRank q 1 (some (q.pk r)) rows := by
      simp [numbered, denseRank, Query.differs, hr]
    rw [hn]
    rcases i with _ | i
    · rfl
    · rw [List.getElem?_cons_succ, List.getElem?_cons_succ, denseRank_getElem?]
      unfold block
      rw [List.map_cons, List.take_succ_cons, Nat.add_sub_cancel_left]

/-- Every row has a number, and a number belongs to a row. -/
theorem mem_numbered {rows : List R} (h : ∀ r ∈ rows.head?, q.blank (q.pk r) = false)
    {x : ℕ × R} : x ∈ numbered q rows ↔ ∃ i r, rows[i]? = some r ∧ x = (block q rows i, r) := by
  rw [List.mem_iff_getElem?]
  simp only [numbered_getElem? q h, Option.map_eq_some_iff]
  constructor
  · rintro ⟨i, r, hr, hx⟩
    exact ⟨i, r, hr, hx.symm⟩
  · rintro ⟨i, r, hr, hx⟩
    exact ⟨i, r, hr, hx.symm⟩

/-- The last row's number is the number of blocks. -/
theorem last_mem_numbered {rows : List R} (h : ∀ r ∈ rows.head?, q.blank (q.pk r) = false)
    (hne : rows ≠ []) : (blocks (rows.map q.pk), rows.getLast hne) ∈ numbered q rows := by
  have hlen : 0 < rows.length := List.length_pos_iff.mpr hne
  have hb : block q rows (rows.length - 1) = blocks (rows.map q.pk) := by
    unfold block
    rw [Nat.sub_add_cancel hlen, List.take_of_length_le (by simp)]
  rw [mem_numbered q h]
  refine ⟨rows.length - 1, rows.getLast hne, ?_, by rw [hb]⟩
  rw [List.getLast_eq_getElem, List.getElem?_eq_getElem]

/-! ### The windows in integers -/

/-- A number above the window's start is in the window when the end is `m` and
has not overflowed. -/
theorem le_bmod_iff {m b : ℤ} (hb : 0 < b) (h0 : 0 ≤ m) (h1 : m < 2 ^ 32) :
    b ≤ m.bmod (2 ^ 32) ↔ b ≤ m ∧ m < 2 ^ 31 := by
  by_cases hm : m < 2 ^ 31
  · have he : m.bmod (2 ^ 32) = m := Int.bmod_eq_of_le (by omega) (by omega)
    rw [he, and_iff_left hm]
  · have he : m.bmod (2 ^ 32) = m - 2 ^ 32 := by
      rw [← Int.sub_bmod_right m (2 ^ 32)]
      exact Int.bmod_eq_of_le (by omega) (by omega)
    rw [he]
    constructor <;> omega

variable {q} {pageSize : Int32} {rows : List R}

theorem countDistinct_eq_some {total : Int32} (h : total ∈ countDistinct q rows) :
    total.toInt = (rows.map q.pk).dedup.length ∧ (rows.map q.pk).dedup.length < 2 ^ 31 := by
  unfold countDistinct at h
  simp only [Option.mem_def, Option.ite_none_right_eq_some, Option.some.injEq] at h
  obtain ⟨hlt, rfl⟩ := h
  exact ⟨Int32.toInt_ofNat_of_lt hlt, hlt⟩

theorem distinct_pos (hne : rows ≠ []) : 0 < (rows.map q.pk).dedup.length := by
  obtain ⟨r, hr⟩ := List.exists_mem_of_ne_nil rows hne
  have hmem : q.pk r ∈ (rows.map q.pk).dedup :=
    List.mem_dedup.mpr (List.mem_map_of_mem hr)
  exact List.length_pos_of_mem hmem

theorem keyPages_spec {p : ℤ} (hp : 0 < p) (rows : List R) :
    (keyPages q p rows - 1) * p < (rows.map q.pk).dedup.length ∧
      ((rows.map q.pk).dedup.length : ℤ) ≤ keyPages q p rows * p := by
  have h := (Int.ediv_eq_iff_of_pos hp).mp (rfl : keyPages q p rows = keyPages q p rows)
  obtain ⟨h1, h2⟩ := h
  constructor <;> linarith

/-- The window `listByPage` fetches for a page up to the last. -/
theorem inWindow_request {total k : Int32} (ht : 0 < total) (hp : 0 < pageSize) (h1 : 1 ≤ k)
    (hk : k.toInt ≤ (total.toInt + pageSize.toInt - 1) / pageSize.toInt) (x : ℕ × R) :
    inWindow ((request pageSize k).beforeCount.afterCount total) x ↔
      (k.toInt - 1) * pageSize.toInt < x.1 ∧
        x.1 ≤ (k.toInt * pageSize.toInt).bmod (2 ^ 32) := by
  obtain ⟨hs, he⟩ := BaseEntity.window_toInt ht hp h1 hk
  have hle : ¬ BaseEntity.ceilQuotient total pageSize < k := by
    rw [Int32.lt_iff_toInt_lt, BaseEntity.toInt_ceilQuotient ht hp]
    omega
  have hpos : ¬ total ≤ 0 := Int32.not_le.mpr ht
  rw [← hs, ← he]
  simp [inWindow, request, BaseEntity.beforeCount, BaseEntity.afterCount,
    BaseEntity.setPageIndex, BaseEntity.setStartRowByPageIndex, BaseEntity.setTotalCount,
    BaseEntity.getStartRow, BaseEntity.getEndRow, hpos, hle]

/-- What a page up to the last shows: its window, unless the end overflows. -/
theorem shown_iff {total k : Int32} (hp : 0 < pageSize) (hne : rows ≠ [])
    (hc : total ∈ countDistinct q rows) (h1 : 1 ≤ k)
    (hk : k.toInt ≤ keyPages q pageSize.toInt rows) (x : ℕ × R) :
    Shown q pageSize rows k x ↔ x ∈ numbered q rows ∧
      (k.toInt - 1) * pageSize.toInt < x.1 ∧ x.1 ≤ k.toInt * pageSize.toInt ∧
        k.toInt * pageSize.toInt < 2 ^ 31 := by
  obtain ⟨htot, hlt⟩ := countDistinct_eq_some hc
  have hpos := distinct_pos (q := q) hne
  have hp' : 0 < pageSize.toInt := Int32.lt_iff_toInt_lt.mp hp
  have h1' : 1 ≤ k.toInt := Int32.le_iff_toInt_le.mp h1
  have ht : 0 < total := Int32.lt_iff_toInt_lt.mpr (by rw [htot]; simpa using hpos)
  have hk' : k.toInt ≤ (total.toInt + pageSize.toInt - 1) / pageSize.toInt := by
    rw [htot]
    exact hk
  have hshown : Shown q pageSize rows k x ↔ x ∈ numbered q rows ∧
      (k.toInt - 1) * pageSize.toInt < x.1 ∧
        x.1 ≤ (k.toInt * pageSize.toInt).bmod (2 ^ 32) := by
    unfold Shown listByPage
    rw [Option.mem_def.mp hc]
    simp [inWindow_request ht hp h1 hk']
  have hstart : 0 ≤ (k.toInt - 1) * pageSize.toInt := mul_nonneg (by omega) hp'.le
  have hend : 0 ≤ k.toInt * pageSize.toInt := mul_nonneg (by omega) hp'.le
  have hlast : (k.toInt - 1) * pageSize.toInt ≤
      (keyPages q pageSize.toInt rows - 1) * pageSize.toInt :=
    mul_le_mul_of_nonneg_right (by omega) hp'.le
  have hkeys := (keyPages_spec (q := q) hp' rows).1
  have hsize := pageSize.toInt_lt
  -- the window of the page before the last ends within an int
  have hlt32 : k.toInt * pageSize.toInt < 2 ^ 32 :=
    calc k.toInt * pageSize.toInt
        = (k.toInt - 1) * pageSize.toInt + pageSize.toInt := by ring
      _ ≤ (keyPages q pageSize.toInt rows - 1) * pageSize.toInt + pageSize.toInt :=
          Int.add_le_add_right hlast _
      _ < 2 ^ 31 + 2 ^ 31 := by omega
      _ = 2 ^ 32 := by norm_num
  rw [hshown]
  apply and_congr_right'
  apply and_congr_right
  intro hgt
  exact le_bmod_iff (by omega) hend hlt32

theorem totalPage_toInt {total : Int32} (hp : 0 < pageSize) (hne : rows ≠ [])
    (hc : total ∈ countDistinct q rows) :
    ((request pageSize 1).setTotalCount total).totalPage.toInt =
      keyPages q pageSize.toInt rows := by
  obtain ⟨htot, -⟩ := countDistinct_eq_some hc
  have hpos := distinct_pos (q := q) hne
  have ht : 0 < total := Int32.lt_iff_toInt_lt.mpr (by rw [htot]; simpa using hpos)
  have hpos' : ¬ total ≤ 0 := Int32.not_le.mpr ht
  have hpages : ((request pageSize 1).setTotalCount total).totalPage =
      BaseEntity.ceilQuotient total pageSize := by
    simp [request, BaseEntity.setTotalCount, BaseEntity.setPageIndex, hpos']
  rw [hpages, BaseEntity.toInt_ceilQuotient ht hp, htot]
  rfl

/-! ### Which lists page well -/

/-- A number in the window of page `k` has `k` for the page of its block. -/
theorem ediv_eq_page {p k b : ℤ} (hp : 0 < p) :
    (b - 1) / p = k - 1 ↔ (k - 1) * p < b ∧ b ≤ k * p := by
  have hend : k * p = (k - 1) * p + p := by ring
  rw [Int.ediv_eq_iff_of_pos hp]
  omega

/-- A blank first key has the number zero, which no page shows. -/
theorem blank_first {r : R} (hr : q.blank (q.pk r) = true) (rows : List R) :
    (0, r) ∈ numbered q (r :: rows) := by
  simp [numbered, denseRank, Query.differs, hr]

/-- The numbers go from 1 to the number of blocks. -/
theorem numbered_bounds (h : ∀ r ∈ rows.head?, q.blank (q.pk r) = false) {x : ℕ × R}
    (hx : x ∈ numbered q rows) : 1 ≤ x.1 ∧ x.1 ≤ blocks (rows.map q.pk) := by
  obtain ⟨i, r, hr, rfl⟩ := (mem_numbered q h).mp hx
  refine ⟨?_, blocks_take_le _ _⟩
  show 1 ≤ block q rows i
  unfold block
  rcases rows with _ | ⟨r0, rows0⟩
  · cases hr
  · exact blocks_pos _ _

section

variable {total : Int32} (hp : 0 < pageSize) (hne : rows ≠ [])
  (hc : total ∈ countDistinct q rows)
include hp hne hc

/-- The pages up to the last, in integers. -/
theorem page_le {k : Int32} (hk : k ≤ ((request pageSize 1).setTotalCount total).totalPage) :
    k.toInt ≤ keyPages q pageSize.toInt rows := by
  rw [← totalPage_toInt hp hne hc]
  exact Int32.le_iff_toInt_le.mp hk

/-- Where the first row is on a page, its key is not blank. -/
theorem first_of_shown (h : ∀ x ∈ numbered q rows, ∃ k : Int32, 1 ≤ k ∧
      k.toInt ≤ keyPages q pageSize.toInt rows ∧ Shown q pageSize rows k x) :
    ∀ r ∈ rows.head?, q.blank (q.pk r) = false := by
  intro r hr
  have hp' : 0 < pageSize.toInt := Int32.lt_iff_toInt_lt.mp hp
  rcases rows with _ | ⟨r', rows'⟩
  · exact absurd rfl hne
  obtain rfl : r' = r := by simpa using hr
  by_contra hb
  obtain ⟨k, h1, hk, hsh⟩ := h _ (blank_first (Bool.eq_true_of_not_eq_false hb) rows')
  obtain ⟨-, hlt, -⟩ := (shown_iff hp hne hc h1 hk _).mp hsh
  have h1' : 1 ≤ k.toInt := Int32.le_iff_toInt_le.mp h1
  have hnn : 0 ≤ (k.toInt - 1) * pageSize.toInt := mul_nonneg (by omega) hp'.le
  simp only [Nat.cast_zero] at hlt
  omega

/-- Where the last row is on a page, that page is the last, and its window
neither overflows nor leaves a block out. -/
theorem last_of_shown (first : ∀ r ∈ rows.head?, q.blank (q.pk r) = false)
    (h : ∀ x ∈ numbered q rows, ∃ k : Int32, 1 ≤ k ∧
      k.toInt ≤ keyPages q pageSize.toInt rows ∧ Shown q pageSize rows k x) :
    keyPages q pageSize.toInt rows * pageSize.toInt < 2 ^ 31 ∧
      blocks (rows.map q.pk) ≤ keyPages q pageSize.toInt rows * pageSize.toInt := by
  have hp' : 0 < pageSize.toInt := Int32.lt_iff_toInt_lt.mp hp
  obtain ⟨k, h1, hk, hsh⟩ := h _ (last_mem_numbered q first hne)
  obtain ⟨-, -, hle, hend⟩ := (shown_iff hp hne hc h1 hk _).mp hsh
  have hlt : (keyPages q pageSize.toInt rows - 1) * pageSize.toInt <
      k.toInt * pageSize.toInt :=
    calc (keyPages q pageSize.toInt rows - 1) * pageSize.toInt
        < (rows.map q.pk).dedup.length := (keyPages_spec (q := q) hp' rows).1
      _ ≤ blocks (rows.map q.pk) := mod_cast distinct_le_blocks (rows.map q.pk)
      _ ≤ k.toInt * pageSize.toInt := hle
  have hkk := lt_of_mul_lt_mul_right hlt hp'.le
  have heq : k.toInt = keyPages q pageSize.toInt rows := by omega
  rw [← heq]
  exact ⟨hend, hle⟩

/-- Where no window overflows, a page shows the blocks of its number. -/
theorem Fits.shown_iff_page (h : Fits q pageSize.toInt rows) {k : Int32} (h1 : 1 ≤ k)
    (hk : k.toInt ≤ keyPages q pageSize.toInt rows) {x : ℕ × R} (hx : x ∈ numbered q rows) :
    Shown q pageSize rows k x ↔ ((x.1 : ℤ) - 1) / pageSize.toInt = k.toInt - 1 := by
  have hp' : 0 < pageSize.toInt := Int32.lt_iff_toInt_lt.mp hp
  have hend : k.toInt * pageSize.toInt < 2 ^ 31 :=
    (mul_le_mul_of_nonneg_right hk hp'.le).trans_lt h.window
  rw [shown_iff hp hne hc h1 hk, ediv_eq_page hp']
  exact ⟨fun hs => ⟨hs.2.1, hs.2.2.1⟩, fun hs => ⟨hx, hs.1, hs.2, hend⟩⟩

end

theorem Paged.fits (hp : 0 < pageSize) (hne : rows ≠ []) (h : Paged q pageSize rows) :
    Fits q pageSize.toInt rows := by
  obtain ⟨total, hc, once, together⟩ := h
  have hp' : 0 < pageSize.toInt := Int32.lt_iff_toInt_lt.mp hp
  have hshown : ∀ x ∈ numbered q rows, ∃ k : Int32, 1 ≤ k ∧
      k.toInt ≤ keyPages q pageSize.toInt rows ∧ Shown q pageSize rows k x := by
    intro x hx
    obtain ⟨k, ⟨⟨h1, hk⟩, hsh⟩, -⟩ := once x hx
    exact ⟨k, h1, page_le hp hne hc hk, hsh⟩
  have first := first_of_shown hp hne hc hshown
  have hlast := last_of_shown hp hne hc first hshown
  refine ⟨first, hlast.1, hlast.2, fun i _ j _ r hi r' hj heq => ?_⟩
  have hx := (mem_numbered q first).mpr ⟨i, r, hi, rfl⟩
  have hy := (mem_numbered q first).mpr ⟨j, r', hj, rfl⟩
  obtain ⟨k, ⟨⟨h1, hk⟩, hsh⟩, -⟩ := once _ hx
  have hk' := page_le hp hne hc hk
  have hsh' := together k h1 hk _ _ hsh hy heq.symm
  obtain ⟨-, hlt, hle, -⟩ := (shown_iff hp hne hc h1 hk' _).mp hsh
  obtain ⟨-, hlt', hle', -⟩ := (shown_iff hp hne hc h1 hk' _).mp hsh'
  rw [(ediv_eq_page hp').mpr ⟨hlt, hle⟩, (ediv_eq_page hp').mpr ⟨hlt', hle'⟩]

/-- The page of a row, counted from its number. -/
theorem Fits.page_of_numbered (hp : 0 < pageSize) (h : Fits q pageSize.toInt rows) {x : ℕ × R}
    (hx : x ∈ numbered q rows) : 0 ≤ ((x.1 : ℤ) - 1) / pageSize.toInt ∧
      ((x.1 : ℤ) - 1) / pageSize.toInt < keyPages q pageSize.toInt rows := by
  have hp' : 0 < pageSize.toInt := Int32.lt_iff_toInt_lt.mp hp
  obtain ⟨hlow, hhigh⟩ := numbered_bounds h.first hx
  constructor
  · exact Int.ediv_nonneg (by omega) hp'.le
  · apply (Int.ediv_lt_iff_lt_mul hp').mpr
    calc (x.1 : ℤ) - 1 < x.1 := by omega
      _ ≤ blocks (rows.map q.pk) := mod_cast hhigh
      _ ≤ keyPages q pageSize.toInt rows * pageSize.toInt := h.enough

theorem Fits.paged (hp : 0 < pageSize) (hne : rows ≠ []) (h : Fits q pageSize.toInt rows) :
    Paged q pageSize rows := by
  have hp' : 0 < pageSize.toInt := Int32.lt_iff_toInt_lt.mp hp
  have hhigh := (keyPages_spec (q := q) hp' rows).2
  have hwindow := h.window
  have hlt : (rows.map q.pk).dedup.length < 2 ^ 31 := by omega
  have hc : Int32.ofNat (rows.map q.pk).dedup.length ∈ countDistinct q rows := if_pos hlt
  have hpages := totalPage_toInt hp hne hc
  refine ⟨_, hc, fun x hx => ?_, fun k h1 hk x y hsh hy heq => ?_⟩
  · obtain ⟨h0, hup⟩ := h.page_of_numbered hp hx
    have hlim := ((request pageSize 1).setTotalCount
      (Int32.ofNat (rows.map q.pk).dedup.length)).totalPage.toInt_lt
    have hk : (Int32.ofInt (((x.1 : ℤ) - 1) / pageSize.toInt + 1)).toInt =
        ((x.1 : ℤ) - 1) / pageSize.toInt + 1 := Int32.toInt_ofInt_of_le (by omega) (by omega)
    set k := Int32.ofInt (((x.1 : ℤ) - 1) / pageSize.toInt + 1)
    have h1 : 1 ≤ k := Int32.le_iff_toInt_le.mpr (by rw [hk]; simp; omega)
    have hsh : Shown q pageSize rows k x :=
      (h.shown_iff_page hp hne hc h1 (by omega) hx).mpr (by omega)
    refine ⟨k, ⟨⟨h1, Int32.le_iff_toInt_le.mpr (by omega)⟩, hsh⟩, fun k' hk' => ?_⟩
    obtain ⟨⟨h1', hkp'⟩, hsh'⟩ := hk'
    have heq := (h.shown_iff_page hp hne hc h1' (page_le hp hne hc hkp') hx).mp hsh'
    exact Int32.toInt_inj.mp (by omega)
  · have hk' := page_le hp hne hc hk
    have hx := ((shown_iff hp hne hc h1 hk' x).mp hsh).1
    have hpx := (h.shown_iff_page hp hne hc h1 hk' hx).mp hsh
    obtain ⟨i, r, hr, rfl⟩ := (mem_numbered q h.first).mp hx
    obtain ⟨j, r', hr', rfl⟩ := (mem_numbered q h.first).mp hy
    have hi : i < rows.length := (List.getElem?_eq_some_iff.mp hr).1
    have hj : j < rows.length := (List.getElem?_eq_some_iff.mp hr').1
    have hblock := h.together i hi j hj r hr r' hr' heq.symm
    exact (h.shown_iff_page hp hne hc h1 hk' hy).mpr (hblock.symm.trans hpx)

/-- **Paging.** Over the multi-table template, every row is on exactly one of
the pages and a page that shows a key shows all its rows, if and only if the
first key is not blank, the last window ends within an `int`, the blocks of
equal adjacent keys fit on the pages the distinct keys take, and blocks of one
key fall on one page. -/
theorem paged_iff (q : Query κ R) {pageSize : Int32} (hp : 0 < pageSize) (rows : List R) :
    Paged q pageSize rows ↔ Fits q pageSize.toInt rows := by
  rcases rows with _ | ⟨r, rows⟩
  · have hp' : 0 < pageSize.toInt := Int32.lt_iff_toInt_lt.mp hp
    have h0 : keyPages q pageSize.toInt ([] : List R) = 0 := by
      show (((0 : ℕ) : ℤ) + pageSize.toInt - 1) / pageSize.toInt = 0
      exact Int.ediv_eq_zero_of_lt (by simp; omega) (by simp)
    have hfits : Fits q pageSize.toInt ([] : List R) :=
      ⟨by simp, by rw [h0]; simp, by rw [h0]; simp [blocks], by simp⟩
    have hpaged : Paged q pageSize ([] : List R) :=
      ⟨0, rfl, ⟨fun _ hx => absurd hx List.not_mem_nil,
        fun _ _ _ _ _ _ hy => absurd hy List.not_mem_nil⟩⟩
    exact iff_of_true hpaged hfits
  · exact ⟨Paged.fits hp (List.cons_ne_nil r rows), Fits.paged hp (List.cons_ne_nil r rows)⟩

/-- Rows that are their keys, which are numbers: zero equals `''`. -/
def numbers : Query ℕ ℕ := ⟨id, (· = 0)⟩

theorem paged_three : Paged numbers 2 [7, 7, 5, 9, 9] :=
  (paged_iff numbers (by decide) [7, 7, 5, 9, 9]).mpr
    ⟨by decide, by decide, by decide, by decide⟩

/-- The key 7 comes back after 5: three blocks, and two pages of one. -/
theorem returning_key : ¬ ∀ (pageSize : Int32), 0 < pageSize → ∀ rows : List ℕ,
    Paged numbers pageSize rows := fun h =>
  absurd ((h 1 (by decide) [7, 5, 7]).fits (by decide) (by decide)).enough (by decide)

end Paging
end CloudManager
