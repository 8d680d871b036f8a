/-
# Deleting and selecting by an array of primary keys

`PrimaryKeysProvider` builds the statement as a MyBatis script: the text up to
the name of the primary key column, then a `<foreach>` over the array that
opens with ` IN (`. MyBatis emits nothing at all for an empty array, and what is
left, `where id`, is still a statement: MySQL keeps the rows whose `id` is not
zero. So the two methods do what their names say exactly when the array is not
empty or the table has no row with a non-zero key (`byPrimaryKeys_iff`).
-/
import Mathlib.Data.List.Basic

namespace CloudManager
namespace PrimaryKeys

/-! ### The script -/

/-- The attributes and the body of a `<foreach>`. -/
structure ForEach where
  collection : String
  index : String
  item : String
  openText : String
  separator : String
  close : String
  body : String
  deriving DecidableEq, Repr

inductive Node
  | text (s : String)
  | foreach (f : ForEach)
  deriving DecidableEq, Repr

/-- What the provider reads of an entity class. -/
structure EntityColumn where
  column : String
  id : Bool
  deriving DecidableEq, Repr

structure EntityClass where
  canonicalName : String
  tableName : String
  columns : List EntityColumn
  deriving DecidableEq, Repr

/-- With no id column every column is one. -/
def getPKColumns (e : EntityClass) : List EntityColumn :=
  let pkColumns := e.columns.filter (·.id)
  if pkColumns.isEmpty then e.columns else pkColumns

/-- The texts `SqlHelper` gives for an entity. -/
structure SqlHelper where
  deleteFromTable : EntityClass → String
  selectAllColumns : EntityClass → String
  fromTable : EntityClass → String

/-- `MapperException` with its message. -/
structure MapperException where
  message : String
  deriving DecidableEq, Repr

/-- The `<foreach>` of both statements. -/
def inKeys : ForEach where
  collection := "array"
  index := "index"
  item := "id"
  openText := " IN ("
  separator := ","
  close := ")"
  body := "#{id}"

/-- The body the two methods share: `head`, then the condition on the only
primary key column. -/
def byPrimaryKeys (method : String) (head : List Node) (e : EntityClass) :
    Except MapperException (List Node) :=
  match getPKColumns e with
  | [column] => .ok (head ++ [.text " where ", .text column.column, .foreach inKeys])
  | _ => .error ⟨"继承 " ++ method ++ " 方法的实体类[" ++ e.canonicalName ++
      "]中必须只有一个带有 @Id 注解的字段"⟩

def deleteByPrimaryKeys (h : SqlHelper) (e : EntityClass) : Except MapperException (List Node) :=
  byPrimaryKeys "deleteByPrimaryKeys" [.text (h.deleteFromTable e)] e

def selectByPrimaryKeys (h : SqlHelper) (e : EntityClass) : Except MapperException (List Node) :=
  byPrimaryKeys "selectByPrimaryKeys" [.text (h.selectAllColumns e), .text (h.fromTable e)] e

/-! ### What MyBatis makes of it -/

/-- A piece of the statement sent: text, or a bound parameter (`none`: null). -/
inductive Piece (κ : Type*)
  | text (s : String)
  | bound (v : Option κ)
  deriving DecidableEq, Repr

variable {κ R : Type*}

/-- One round of the loop: a reference to the item is bound to its value. -/
def ForEach.renderItem (f : ForEach) (v : Option κ) : List (Piece κ) :=
  if f.body = "#\x7b" ++ f.item ++ "\x7d" then [.bound v] else [.text f.body]

/-- The rounds after the first, each after a separator. -/
def ForEach.renderRest (f : ForEach) (vs : List (Option κ)) : List (Piece κ) :=
  vs.flatMap fun v => .text f.separator :: f.renderItem v

/-- Nothing for an empty array, else the items joined by the separator between
`open` and `close`. -/
def ForEach.render (f : ForEach) : List (Option κ) → List (Piece κ)
  | [] => []
  | v :: vs => .text f.openText :: f.renderItem v ++ f.renderRest vs ++ [.text f.close]

def render (array : List (Option κ)) : List Node → List (Piece κ)
  | [] => []
  | .text s :: ns => .text s :: render array ns
  | .foreach f :: ns => f.render array ++ render array ns

/-! ### What MySQL makes of that -/

/-- A condition MySQL reads in a WHERE clause. -/
inductive Where (κ : Type*)
  /-- The column alone. -/
  | column (c : String)
  | isIn (c : String) (vs : List (Option κ))
  deriving DecidableEq, Repr

/-- The values of an IN list after its first, up to the closing bracket. -/
def readItems : List (Piece κ) → Option (List (Option κ))
  | [.text ")"] => some []
  | .text "," :: .bound v :: ps => (readItems ps).map (v :: ·)
  | _ => none

def readWhere : List (Piece κ) → Option (Where κ)
  | [.text " where ", .text c] => some (.column c)
  | .text " where " :: .text c :: .text " IN (" :: .bound v :: ps =>
    (readItems ps).map fun vs => .isIn c (v :: vs)
  | _ => none

/-- A table's rows as MySQL sees them: the value of a column, and whether a
value counts as non-zero. -/
structure Table (κ R : Type*) where
  value : String → R → κ
  nonZero : κ → Bool

/-- A null in an IN list equals no value. -/
def Where.keeps [DecidableEq κ] (t : Table κ R) : Where κ → R → Bool
  | .column c, r => t.nonZero (t.value c r)
  | .isIn c vs, r => vs.any (· = some (t.value c r))

/-- A DELETE: the rows that are left and the number deleted. -/
def delete [DecidableEq κ] (t : Table κ R) (rows : List R) :
    List (Piece κ) → Option (List R × ℕ)
  | .text _ :: ps => (readWhere ps).map fun w =>
      (rows.filter (!w.keeps t ·), (rows.filter (w.keeps t)).length)
  | _ => none

/-- A SELECT of all columns. -/
def select [DecidableEq κ] (t : Table κ R) (rows : List R) : List (Piece κ) → Option (List R)
  | .text _ :: .text _ :: ps => (readWhere ps).map fun w => rows.filter (w.keeps t)
  | _ => none

/-! ### The condition the scripts come to -/

theorem readItems_renderRest (vs : List (Option κ)) :
    readItems (inKeys.renderRest vs ++ [.text inKeys.close]) = some vs := by
  induction vs with
  | nil => rfl
  | cons v vs ih =>
    calc readItems (inKeys.renderRest (v :: vs) ++ [.text inKeys.close])
        = (readItems (inKeys.renderRest vs ++ [.text inKeys.close])).map (v :: ·) := rfl
      _ = some (v :: vs) := by rw [ih]; rfl

/-- The condition the statement carries: the column alone for an empty array. -/
def condition (c : String) : List (Option κ) → Where κ
  | [] => .column c
  | v :: vs => .isIn c (v :: vs)

theorem readWhere_render (c : String) (array : List (Option κ)) :
    readWhere (render array [.text " where ", .text c, .foreach inKeys]) =
      some (condition c array) := by
  rcases array with _ | ⟨v, vs⟩
  · rfl
  · calc readWhere (render (v :: vs) [.text " where ", .text c, .foreach inKeys])
        = (readItems (inKeys.renderRest vs ++ [.text inKeys.close] ++ [])).map
            fun ws => .isIn c (v :: ws) := rfl
      _ = some (condition c (v :: vs)) := by
        rw [List.append_nil, readItems_renderRest]
        rfl

theorem byPrimaryKeys_ok {e : EntityClass} {c : EntityColumn} (h : getPKColumns e = [c])
    (method : String) (head : List Node) :
    byPrimaryKeys method head e =
      .ok (head ++ [.text " where ", .text c.column, .foreach inKeys]) := by
  unfold byPrimaryKeys
  rw [h]

/-- Without a single primary key column there is no statement, and the message
names the method and the class. -/
theorem byPrimaryKeys_error {e : EntityClass} (h : (getPKColumns e).length ≠ 1)
    (method : String) (head : List Node) :
    byPrimaryKeys method head e = .error ⟨"继承 " ++ method ++ " 方法的实体类[" ++
      e.canonicalName ++ "]中必须只有一个带有 @Id 注解的字段"⟩ := by
  unfold byPrimaryKeys
  rcases hk : getPKColumns e with _ | ⟨c, _ | ⟨d, cs⟩⟩
  · rfl
  · rw [hk] at h
    exact absurd rfl h
  · rfl

variable [DecidableEq κ]

/-- What the service's `deleteByPrimaryKeys` does to the rows of the table. -/
def runDelete (h : SqlHelper) (e : EntityClass) (t : Table κ R) (rows : List R)
    (keys : List (Option κ)) : Except MapperException (Option (List R × ℕ)) :=
  (deleteByPrimaryKeys h e).map fun script => delete t rows (render keys script)

/-- What the service's `selectByPrimaryKeys` returns. -/
def runSelect (h : SqlHelper) (e : EntityClass) (t : Table κ R) (rows : List R)
    (keys : List (Option κ)) : Except MapperException (Option (List R)) :=
  (selectByPrimaryKeys h e).map fun script => select t rows (render keys script)

variable {h : SqlHelper} {e : EntityClass} {c : EntityColumn}

theorem runDelete_eq (hc : getPKColumns e = [c]) (t : Table κ R) (rows : List R)
    (keys : List (Option κ)) :
    runDelete h e t rows keys = .ok (some (rows.filter (!(condition c.column keys).keeps t ·),
      (rows.filter ((condition c.column keys).keeps t)).length)) := by
  unfold runDelete deleteByPrimaryKeys
  rw [byPrimaryKeys_ok hc]
  show Except.ok ((readWhere (render keys [.text " where ", .text c.column, .foreach inKeys])).map
    fun w => (rows.filter (!w.keeps t ·), (rows.filter (w.keeps t)).length)) = _
  rw [readWhere_render]
  rfl

theorem runSelect_eq (hc : getPKColumns e = [c]) (t : Table κ R) (rows : List R)
    (keys : List (Option κ)) :
    runSelect h e t rows keys = .ok (some (rows.filter ((condition c.column keys).keeps t))) := by
  unfold runSelect selectByPrimaryKeys
  rw [byPrimaryKeys_ok hc]
  show Except.ok ((readWhere (render keys [.text " where ", .text c.column, .foreach inKeys])).map
    fun w => rows.filter (w.keeps t)) = _
  rw [readWhere_render]
  rfl

/-! ### Exactly the rows of the array -/

/-- The row's primary key is an element of the array. -/
def Named (t : Table κ R) (c : EntityColumn) (keys : List (Option κ)) (r : R) : Prop :=
  some (t.value c.column r) ∈ keys

instance (t : Table κ R) (c : EntityColumn) (keys : List (Option κ)) :
    DecidablePred (Named t c keys) := fun r =>
  inferInstanceAs (Decidable (some (t.value c.column r) ∈ keys))

/-- The delete leaves the other rows, the select returns the named ones. -/
def Exact (h : SqlHelper) (e : EntityClass) (c : EntityColumn) (t : Table κ R) (rows : List R)
    (keys : List (Option κ)) : Prop :=
  runDelete h e t rows keys =
      .ok (some (rows.filter (¬ Named t c keys ·), (rows.filter (Named t c keys)).length)) ∧
    runSelect h e t rows keys = .ok (some (rows.filter (Named t c keys)))

/-- On every row the condition picks the named rows, unless the array is empty
and the row's key is not zero. -/
theorem keeps_condition (t : Table κ R) (keys : List (Option κ)) (r : R) :
    ((condition c.column keys).keeps t r = decide (Named t c keys r)) ↔
      (keys ≠ [] ∨ t.nonZero (t.value c.column r) = false) := by
  rcases keys with _ | ⟨v, vs⟩
  · have hn : ¬ Named t c [] r := List.not_mem_nil
    have hk : (condition c.column ([] : List (Option κ))).keeps t r =
        t.nonZero (t.value c.column r) := rfl
    rw [hk, decide_eq_false hn]
    simp
  · have hk : (condition c.column (v :: vs)).keeps t r = decide (Named t c (v :: vs) r) := by
      show (v :: vs).any (· = some (t.value c.column r)) = _
      rw [Bool.eq_iff_iff, List.any_eq_true, decide_eq_true_iff]
      simp [Named]
    simp [hk]

/-- **Exactness.** The delete deletes, and the select returns, exactly the rows
whose primary key is in the array, if and only if the array is not empty or no
row of the table has a non-zero key. -/
theorem byPrimaryKeys_iff (hc : getPKColumns e = [c]) (t : Table κ R) (rows : List R)
    (keys : List (Option κ)) :
    Exact h e c t rows keys ↔
      keys ≠ [] ∨ ∀ r ∈ rows, t.nonZero (t.value c.column r) = false := by
  have hrows : (∀ r ∈ rows, (condition c.column keys).keeps t r = decide (Named t c keys r)) ↔
      (keys ≠ [] ∨ ∀ r ∈ rows, t.nonZero (t.value c.column r) = false) := by
    simp only [keeps_condition]
    by_cases hk : keys = [] <;> simp [hk]
  rw [← hrows]
  unfold Exact
  rw [runDelete_eq hc, runSelect_eq hc]
  simp only [Except.ok.injEq, Option.some.injEq, Prod.mk.injEq]
  constructor
  · intro hx r hr
    have hsel := hx.2
    have hmem : r ∈ rows.filter ((condition c.column keys).keeps t) ↔
        r ∈ rows.filter (Named t c keys) := by rw [hsel]
    simp only [List.mem_filter, hr, true_and] at hmem
    exact Bool.eq_iff_iff.mpr hmem
  · intro hx
    have hsel : rows.filter ((condition c.column keys).keeps t) = rows.filter (Named t c keys) :=
      List.filter_congr hx
    have hdel : rows.filter (!(condition c.column keys).keeps t ·) =
        rows.filter (¬ Named t c keys ·) := by
      apply List.filter_congr
      intro r hr
      rw [hx r hr, decide_not]
    exact ⟨⟨hdel, by rw [hsel]⟩, hsel⟩

/-- An entity with the primary key `id`; its rows are their keys. -/
def entity : EntityClass := ⟨"Role", "sys_role", [⟨"id", true⟩, ⟨"name", false⟩]⟩

def helper : SqlHelper := ⟨fun e => "DELETE FROM " ++ e.tableName,
  fun _ => "SELECT id,name ", fun e => "FROM " ++ e.tableName⟩

def table : Table Int Int := ⟨fun _ r => r, (· ≠ 0)⟩

theorem byPrimaryKeys_three :
    Exact helper entity ⟨"id", true⟩ table [0, 1, 2] [some 2, none, some 2] :=
  (byPrimaryKeys_iff (by decide) table _ _).mpr (.inl (by decide))

/-- The empty array deletes every row with a non-zero key. -/
theorem delete_empty : ¬ ∀ (e : EntityClass) (c : EntityColumn), getPKColumns e = [c] →
    ∀ (rows : List Int) (keys : List (Option Int)), Exact helper e c table rows keys := fun h =>
  absurd (h entity ⟨"id", true⟩ (by decide) [1, 2] []).1 (by decide)

end PrimaryKeys
end CloudManager
