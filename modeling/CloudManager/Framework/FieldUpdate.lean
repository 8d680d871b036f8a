/-
# Updates of the columns that a list names

`updateForFieldByPrimaryKey` and `updateForFieldByExample` take a record and a list of
field names. The `<set>` has one `<if>` for each column beside the ids, whose test
looks for the column's property in the list, and does not ask whether the column
is updatable: the check is commented out.

`fieldWise_iff`: the update assigns the updatable columns that are named, and no
others, if and only if no column beside the ids is named that is not updatable.
-/
import Mathlib.Data.List.Forall2
import CloudManager.Framework.InsertProviders

namespace CloudManager
namespace FieldUpdate

open InsertProviders

/-! ### The provider -/

/-- The condition of the statement: the primary key's columns with the values of a record,
or what `updateByExampleWhereClause` makes of the example. -/
inductive Where
  | equals (entityName : String) (columns : List EntityColumn)
  | byExample
  deriving DecidableEq, Repr

structure Script where
  updateTable : String
  set : Trim
  condition : Where
  deriving DecidableEq, Repr

def wherePKColumns (e : EntityClass) (entityName : String) : Where :=
  .equals entityName (getPKColumns e)

namespace ShareUpdateProvider

/-- `updateTable` is the text of `SqlHelper`. -/
def updateForFieldByPrimaryKey (updateTable : EntityClass → String) (e : EntityClass) : Script where
  updateTable := updateTable e
  set := ProviderHelper.updateSetColumns e "record" false
  condition := wherePKColumns e "record"

def updateForFieldByExample (updateTable : EntityClass → String) (e : EntityClass) : Script where
  updateTable := updateTable e
  set := ProviderHelper.updateSetColumns e "record" false
  condition := .byExample

end ShareUpdateProvider

/-! ### The statement -/

variable {V : Type*}

/-- The values that the condition compares with, by column. -/
inductive Condition (V : Type*)
  | equals (values : List (String × Option V))
  | byExample
  deriving DecidableEq, Repr

structure Update (V : Type*) where
  updateTable : String
  set : List (Item V)
  condition : Condition V

def Where.render (p : Parameter V) : Where → Option (Condition V)
  | .equals entityName columns =>
    (p.record entityName).map fun r => .equals (columns.map fun c => (c.column, r c.property))
  | .byExample => some .byExample

def Script.render (x : Context V) (p : Parameter V) (s : Script) : Option (Update V) :=
  (s.set.items x p).bind fun items =>
    (s.condition.render p).map fun condition => ⟨s.updateTable, items, condition⟩

/-- The arguments of both methods: a record and the names. -/
def parameter (record : Record V) (fields : List String) : Parameter V where
  isParamMap := true
  record name := if name = "record" then some record else none
  list _ := none
  fields := some fields
  updateFields := none

/-- A row by column. -/
abbrev Row (V : Type*) := String → Option V

def assign (row : Row V) : Item V → Row V
  | .assign name _ value => Function.update row name value
  | _ => row

/-- The rows that the database finds for the condition are assigned. Without an item there
is no `SET`, and the statement is refused. -/
def Update.run (found : Condition V → Row V → Bool) (u : Update V) (rows : List (Row V)) :
    Option (List (Row V)) :=
  if u.set.isEmpty then none
  else some (rows.map fun row => if found u.condition row then u.set.foldl assign row else row)

/-! ### Its purpose -/

/-- The list names the column's property. -/
def named (fields : List String) (c : EntityColumn) : Bool :=
  fields.any (JavaString.equalsIgnoreCase · c.property)

/-- What is to be assigned, where `updatable` says how a column is declared. -/
def assignable (updatable : EntityColumn → Bool) (e : EntityClass) (fields : List String) :
    List EntityColumn :=
  e.columns.filter fun c => !c.id && named fields c && updatable c

/-- A column with the value of its own property. -/
def own (record : Record V) (c : EntityColumn) : Item V :=
  .assign c.column c.property (record c.property)

/-- The `SET` has the columns to be assigned, and in every row that is found the others keep
their values. -/
def FieldWise (x : Context V) (updatable : EntityColumn → Bool) (e : EntityClass)
    (record : Record V) (fields : List String) (s : Script) : Prop :=
  ∃ u, s.render x (parameter record fields) = some u ∧
    u.set = (assignable updatable e fields).map (own record) ∧
    ∀ found rows, ∃ rows', u.run found rows = some rows' ∧
      List.Forall₂ (fun row row' => ∀ name, name ∉ (assignable updatable e fields).map (·.column) →
        row' name = row name) rows rows'

/-! ### The clause -/

variable {x : Context V} {record : Record V} {fields : List String}

theorem renderAll_fields (columns : List EntityColumn) :
    renderAll x (parameter record fields)
        (columns.map fun c => .ifHasField c.property (.equalsHolder "record" c)) =
      some ((columns.filter (named fields)).map (own record)) := by
  induction columns with
  | nil => rfl
  | cons c columns ih =>
    have hrender : Fragment.render x (parameter record fields)
        (.ifHasField c.property (.equalsHolder "record" c)) =
          some (if named fields c then [own record c] else []) := by
      show (some (named fields c)).bind _ = _
      rw [Option.bind_some]
      split <;> rfl
    rw [List.map_cons, renderAll_cons, hrender, ih, List.filter_cons]
    by_cases hc : named fields c = true
    · simp [hc]
    · simp [hc]

theorem items_updateSetColumns (e : EntityClass) :
    (ProviderHelper.updateSetColumns e "record" false).items x (parameter record fields) =
      some ((e.columns.filter fun c => !c.id && named fields c).map (own record)) := by
  have hbody : (ProviderHelper.updateSetColumns e "record" false).body =
      (e.columns.filter (!·.id)).map fun c => .ifHasField c.property (.equalsHolder "record" c) := rfl
  unfold Trim.items
  rw [hbody, renderAll_fields, List.filter_filter]
  congr 3
  funext c
  exact Bool.and_comm _ _

/-- The clause is the wanted one where it has no column that is not updatable. -/
theorem items_eq_iff (record : Record V) (fields : List String) (updatable : EntityColumn → Bool)
    (e : EntityClass) :
    (e.columns.filter fun c => !c.id && named fields c).map (own record) =
        (assignable updatable e fields).map (own record) ↔
      ∀ c ∈ e.columns, c.id = false → named fields c = true → updatable c = true := by
  have hassignable : assignable updatable e fields =
      (e.columns.filter fun c => !c.id && named fields c).filter updatable := by
    unfold assignable
    rw [List.filter_filter]
    congr 1
    funext c
    exact Bool.and_comm _ _
  have hall : (∀ c ∈ e.columns.filter fun c => !c.id && named fields c, updatable c = true) ↔
      ∀ c ∈ e.columns, c.id = false → named fields c = true → updatable c = true := by
    simp only [List.mem_filter, Bool.and_eq_true, Bool.not_eq_true', and_imp]
  rw [hassignable, ← hall]
  constructor
  · intro h
    have hlen := congrArg List.length h
    rw [List.length_map, List.length_map] at hlen
    exact List.length_filter_eq_length_iff.mp hlen.symm
  · intro h
    rw [List.filter_eq_self.mpr h]

/-- A column that no item names keeps its value. -/
theorem foldl_assign (items : List EntityColumn) (row : Row V) {name : String}
    (h : name ∉ items.map (·.column)) : (items.map (own record)).foldl assign row name = row name := by
  induction items generalizing row with
  | nil => rfl
  | cons c items ih =>
    rw [List.map_cons, List.mem_cons, not_or] at h
    rw [List.map_cons, List.foldl_cons, ih _ h.2]
    exact Function.update_of_ne h.1 _ _

variable {updatable : EntityColumn → Bool} {e : EntityClass}

theorem fieldWise_script {s : Script} (hset : s.set = ProviderHelper.updateSetColumns e "record" false)
    {condition : Condition V} (hwhere : s.condition.render (parameter record fields) = some condition)
    (hne : assignable updatable e fields ≠ []) :
    FieldWise x updatable e record fields s ↔
      ∀ c ∈ e.columns, c.id = false → named fields c = true → updatable c = true := by
  rw [← items_eq_iff record fields updatable e]
  have hrender : s.render x (parameter record fields) = some ⟨s.updateTable,
      (e.columns.filter fun c => !c.id && named fields c).map (own record), condition⟩ := by
    unfold Script.render
    rw [hset, items_updateSetColumns, hwhere]
    rfl
  constructor
  · rintro ⟨u, hu, hitems, -⟩
    rw [hrender, Option.some.injEq] at hu
    rw [← hitems, ← hu]
  · intro hitems
    refine ⟨_, hrender, hitems, fun found rows => ?_⟩
    unfold Update.run
    dsimp only
    rw [hitems, if_neg (by simpa using hne)]
    refine ⟨_, rfl, ?_⟩
    rw [List.forall₂_map_right_iff, List.forall₂_same]
    intro row _ name hname
    split
    · exact foldl_assign _ row hname
    · rfl

/-- **Field-wise updates.** Where the list names a column to be assigned, both methods
assign the columns named and leave the others alone, if and only if the list names no
column beside the ids that is not updatable. -/
theorem fieldWise_iff (updateTable : EntityClass → String) (hne : assignable updatable e fields ≠ []) :
    (FieldWise x updatable e record fields
        (ShareUpdateProvider.updateForFieldByPrimaryKey updateTable e) ∧
      FieldWise x updatable e record fields
        (ShareUpdateProvider.updateForFieldByExample updateTable e)) ↔
      ∀ c ∈ e.columns, c.id = false → named fields c = true → updatable c = true := by
  have hkey : FieldWise x updatable e record fields
      (ShareUpdateProvider.updateForFieldByPrimaryKey updateTable e) ↔ _ :=
    fieldWise_script rfl rfl hne
  have hexample : FieldWise x updatable e record fields
      (ShareUpdateProvider.updateForFieldByExample updateTable e) ↔ _ :=
    fieldWise_script rfl rfl hne
  exact ⟨fun h => hkey.mp h.1, fun h => ⟨hkey.mpr h, hexample.mpr h⟩⟩

/-- The creation time of a user is declared not updatable. -/
def user : EntityClass where
  tableName := "user"
  columns := [{ column := "id", property := "id", id := true }, { column := "name", property := "name" },
    { column := "create_time", property := "createTime" }]

def declared (c : EntityColumn) : Bool := c.column ≠ "create_time"

def ada : Record String := fun property => if property = "name" then some "ada" else none

theorem fieldWise_name :
    FieldWise context declared user ada ["NAME", "name", "age"]
        (ShareUpdateProvider.updateForFieldByPrimaryKey (·.tableName) user) ∧
      FieldWise context declared user ada ["NAME", "name", "age"]
        (ShareUpdateProvider.updateForFieldByExample (·.tableName) user) :=
  (fieldWise_iff (·.tableName) (by decide)).mpr (by decide)

/-- Naming it, too, assigns it. -/
theorem not_fieldWise : ¬ ∀ (updatable : EntityColumn → Bool) (e : EntityClass) (fields : List String),
    assignable updatable e fields ≠ [] → FieldWise context updatable e ada fields
      (ShareUpdateProvider.updateForFieldByPrimaryKey (·.tableName) e) := by
  intro h
  have hboth := h declared user ["name", "createTime"] (by decide)
  rw [fieldWise_script rfl rfl (by decide)] at hboth
  exact absurd hboth (by decide)

end FieldUpdate
end CloudManager
