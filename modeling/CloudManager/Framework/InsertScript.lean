/-
# The scripts of the insert providers, and what MyBatis makes of them

A provider's script is a list of nodes; in a `<trim>` every fragment ends in a
comma, the last of which the `suffixOverrides` drops, so a rendered `<trim>` is
a group of items between its prefix and suffix, and nothing at all without
items. `render` is `none` where MyBatis throws: a guard or a value read of a name
that the parameter does not have, or a static method that its class lacks.
-/
import Mathlib.Data.List.Basic
import CloudManager.Lib.JavaString

namespace CloudManager
namespace InsertProviders

/-! ### Entities and parameters -/

/-- What the providers read of a column; `javaString` says that its type is
`String`. -/
structure EntityColumn where
  column : String
  property : String
  id : Bool := false
  insertable : Bool := true
  generator : Option String := none
  javaString : Bool := false
  deriving DecidableEq, Repr

structure EntityClass where
  tableName : String
  columns : List EntityColumn
  deriving DecidableEq, Repr

/-- A record by property; `none` is null. -/
abbrev Record (V : Type*) := String → Option V

/-- A mapper method's argument. -/
structure Parameter (V : Type*) where
  /-- Whether it is a `ParamMap`. -/
  isParamMap : Bool
  /-- The record a name stands for: `""` for the argument itself. -/
  record : String → Option (Record V)
  list : String → Option (List (Option (Record V)))
  fields : Option (List String)
  /-- Whether the map has the key, and its value. -/
  updateFields : Option (Option (List String))

/-- What the scripts rest on: `String`s' `isEmpty`, `isNotEmpty` of the
configuration, the texts of `SqlHelper`, the order of a `HashSet` of strings,
and what a static call on `org.apache.ibatis.ognl.Ognl` gives. -/
structure Context (V : Type*) where
  isEmpty : V → Bool
  notEmpty : Bool
  insertIntoTable : EntityClass → String
  getDynamicTableName : EntityClass → String
  updateSetColumns : EntityClass → String → Bool → Bool → String
  hashSet : List String → List String
  ibatis : String → Option String

/-! ### Scripts -/

/-- A piece of a `<trim>`'s body; each text ends in a comma. -/
inductive Fragment
  | column (c : EntityColumn)
  /-- `column.getColumnHolder(entityName, suffix, ",")`. -/
  | holder (entityName : String) (c : EntityColumn) (suffix : String)
  /-- `column.getColumnEqualsHolder(entityName)`. -/
  | equalsHolder (entityName : String) (c : EntityColumn)
  /-- `column=VALUES(column)`. -/
  | equalsValues (c : EntityColumn)
  | ifNotNull (entityName : String) (c : EntityColumn) (contents : Fragment)
  | ifIsNull (entityName : String) (c : EntityColumn) (contents : Fragment)
  /-- `<if>` on `hasField` of the repository's `Ognl`. -/
  | ifHasField (property : String) (contents : Fragment)
  /-- `<if>` on a static call of `org.apache.ibatis.ognl.Ognl`. -/
  | ifIbatis (call : String) (contents : Fragment)
  deriving DecidableEq, Repr

structure Trim where
  opening : String
  closing : String
  body : List Fragment
  deriving DecidableEq, Repr

/-- A static call in a `<bind>`. -/
inductive Call
  | ibatis (call : String)
  /-- `mergeUsing` of the repository's `Ognl`. -/
  | mergeUsing (params : String)
  deriving DecidableEq, Repr

inductive Node
  | text (s : String)
  /-- The text that begins the update part. -/
  | update (s : String)
  | bind (name : String) (call : Call)
  | bindValue (name : String)
  | trim (t : Trim)
  | foreach (collection item separator : String) (t : Trim)
  deriving DecidableEq, Repr

/-- A whole script: nodes, or a `<choose>` on a list that is not empty. -/
inductive Script
  | nodes (ns : List Node)
  | whenNotEmpty (collection : String) (ns : List Node) (otherwise : String)
  deriving DecidableEq, Repr

/-! ### Ognl -/

/-- With no id column every column is one. -/
def getPKColumns (e : EntityClass) : List EntityColumn :=
  let pkColumns := e.columns.filter (·.id)
  if pkColumns.isEmpty then e.columns else pkColumns

namespace Ognl

variable {V : Type*}

def hasField (p : Parameter V) (field : String) : Option Bool :=
  if p.isParamMap then
    (p.updateFields.getD p.fields).map fun ff => ff.any (JavaString.equalsIgnoreCase · field)
  else some true

/-- `column`: the texts of the select list and of the condition. -/
def column (x : Context V) (columns : List EntityColumn) : String × String :=
  let columns := columns.filter (·.insertable)
  let select := x.hashSet (columns.map fun c => "#\x7brecord." ++ c.property ++ "\x7d " ++ c.column)
  let on := x.hashSet (columns.map fun c => " T." ++ c.column ++ "=T1." ++ c.column)
  (",".intercalate select, " AND".intercalate on)

/-- It throws without a `ParamMap`, without `fields`, and without a record. -/
def mergeUsing (x : Context V) (e : EntityClass) (p : Parameter V) (params : String) :
    Option String :=
  if p.isParamMap && (p.record "record").isSome then
    p.fields.map fun fields =>
      let columns :=
        if fields.isEmpty then getPKColumns e
        else (x.hashSet fields).filterMap fun field => e.columns.find? (·.property = field)
      let aa := column x columns
      "(SELECT " ++ aa.1 ++ " " ++ params ++ ") T1 ON (" ++ aa.2 ++ ")"
  else none

end Ognl

/-! ### Rendering -/

/-- An item of a group: a column's name, a bound value with its property, or an
assignment. -/
inductive Item (V : Type*)
  | column (name : String)
  | bound (property : String) (value : Option V)
  | assign (name property : String) (value : Option V)
  | assignValues (name : String)
  deriving DecidableEq, Repr

/-- A piece of the statement sent. -/
inductive Piece (V : Type*)
  | text (s : String)
  | update (s : String)
  | group (opening : String) (items : List (Item V)) (closing : String)
  deriving DecidableEq, Repr

variable {V : Type*} (x : Context V) (e : EntityClass)

/-- The test of `getIfNotNull`; that of `getIfIsNull` is its negation. -/
def present (r : Record V) (c : EntityColumn) : Bool :=
  (r c.property).any fun v => !(x.notEmpty && c.javaString && x.isEmpty v)

/-- A property with a suffix is bound by no `<bind>`. -/
def Fragment.render (p : Parameter V) : Fragment → Option (List (Item V))
  | .column c => some [.column c.column]
  | .holder entityName c suffix =>
    if suffix = "" then (p.record entityName).map fun r => [.bound c.property (r c.property)]
    else none
  | .equalsHolder entityName c =>
    (p.record entityName).map fun r => [.assign c.column c.property (r c.property)]
  | .equalsValues c => some [.assignValues c.column]
  | .ifNotNull entityName c contents =>
    (p.record entityName).bind fun r => if present x r c then contents.render p else some []
  | .ifIsNull entityName c contents =>
    (p.record entityName).bind fun r => if present x r c then some [] else contents.render p
  | .ifHasField property contents =>
    (Ognl.hasField p property).bind fun has => if has then contents.render p else some []
  | .ifIbatis call contents =>
    (x.ibatis call).bind fun test => if test = "true" then contents.render p else some []

def renderAll (p : Parameter V) (body : List Fragment) : Option (List (Item V)) :=
  (body.mapM (Fragment.render x p)).map List.flatten

def Trim.items (p : Parameter V) (t : Trim) : Option (List (Item V)) := renderAll x p t.body

/-- A group, or nothing where there is no item. -/
def Trim.wrap (t : Trim) (items : List (Item V)) : List (Piece V) :=
  if items.isEmpty then [] else [.group t.opening items t.closing]

def Call.eval (p : Parameter V) : Call → Option String
  | .ibatis call => x.ibatis call
  | .mergeUsing params => Ognl.mergeUsing x e p params

/-- The argument with `item` standing for a record of the list. -/
def Parameter.withItem (p : Parameter V) (item : String) (r : Option (Record V)) : Parameter V :=
  { p with record := Function.update p.record item r }

/-- The rounds of a `<foreach>`; one that gives nothing takes no separator. -/
def renderRounds (separator : String) (t : Trim) (rounds : List (List (Item V))) : List (Piece V) :=
  (((rounds.map t.wrap).filter (!·.isEmpty)).intersperse [.text separator]).flatten

/-- `bound` are the texts of the `<bind>`s so far. -/
def render (p : Parameter V) (bound : List (String × String)) : List Node → Option (List (Piece V))
  | [] => some []
  | .text s :: ns => (render p bound ns).map (.text s :: ·)
  | .update s :: ns => (render p bound ns).map (.update s :: ·)
  | .bind name call :: ns =>
    (call.eval x e p).bind fun value => render p ((name, value) :: bound) ns
  | .bindValue name :: ns =>
    (bound.lookup name).bind fun value => (render p bound ns).map (.text value :: ·)
  | .trim t :: ns =>
    (t.items x p).bind fun items => (render p bound ns).map (t.wrap items ++ ·)
  | .foreach collection item separator t :: ns =>
    ((p.list collection).bind (·.mapM fun r => t.items x (p.withItem item r))).bind fun rounds =>
      (render p bound ns).map (renderRounds separator t rounds ++ ·)

def Script.render (p : Parameter V) : Script → Option (List (Piece V))
  | .nodes ns => InsertProviders.render x e p [] ns
  | .whenNotEmpty collection ns otherwise =>
    if ((p.list collection).getD []).isEmpty then some [.text otherwise]
    else InsertProviders.render x e p [] ns

/-! ### The items of a body -/

variable {x} {e} {p : Parameter V}

@[simp]
theorem renderAll_nil : renderAll x p [] = some [] := rfl

@[simp]
theorem renderAll_cons (f : Fragment) (body : List Fragment) :
    renderAll x p (f :: body) = (f.render x p).bind fun a => (renderAll x p body).map (a ++ ·) := by
  unfold renderAll
  rw [List.mapM_cons]
  cases f.render x p with
  | none => rfl
  | some a => cases body.mapM (Fragment.render x p) <;> rfl

theorem renderAll_append (body body' : List Fragment) :
    renderAll x p (body ++ body') =
      (renderAll x p body).bind fun a => (renderAll x p body').map (a ++ ·) := by
  induction body with
  | nil => simp
  | cons f body ih =>
    rw [List.cons_append, renderAll_cons, renderAll_cons, ih]
    cases f.render x p with
    | none => rfl
    | some a =>
      cases renderAll x p body with
      | none => rfl
      | some b => simp [Function.comp_def]

/-- A loop over columns that all read one record. -/
theorem renderAll_flatMap {f : EntityColumn → List Fragment} {o : Option (Record V)}
    {g : Record V → EntityColumn → List (Item V)} (h : ∀ c, renderAll x p (f c) = o.map (g · c))
    (columns : List EntityColumn) :
    renderAll x p (columns.flatMap f) =
      if columns = [] then some [] else o.map fun r => columns.flatMap (g r) := by
  induction columns with
  | nil => rfl
  | cons c columns ih =>
    rw [List.flatMap_cons, renderAll_append, h, ih, if_neg (List.cons_ne_nil _ _)]
    cases o with
    | none => rfl
    | some r => by_cases hc : columns = [] <;> simp [hc]

theorem renderAll_columns (columns : List EntityColumn) :
    renderAll x p (columns.map .column) = some (columns.map fun c => .column c.column) := by
  induction columns with
  | nil => rfl
  | cons c columns ih =>
    rw [List.map_cons, renderAll_cons, ih]
    rfl

end InsertProviders
end CloudManager
