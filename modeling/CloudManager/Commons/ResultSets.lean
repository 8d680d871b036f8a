/-
# Mapping joined rows to objects

`MyBatisDefaultResultSetHandlerEx` maps a row of a join to the objects of its
result map and of the result maps nested in it. An object is found again by its
row key: `nestedResultObjects` keeps the objects made so far under the keys of
their rows, a nested one under its key combined with that of the object around it.

The objects are kept by number in the order they are created. A result map is its
tree of nested result maps; what does not depend on the row is data of it (the
property `findProperty` finds for a column, the automatic mappings, the columns
of the key of a map without mappings). Rows are what the type handlers read.

Left out are discriminators, constructor mappings, nested selects and their lazy
loading, further result sets, simple results (a value of one type handler) and the
columns of `params_`; the names of columns are ASCII.
-/
import Mathlib.Data.Nat.Notation
import Mathlib.Logic.Function.Basic

namespace CloudManager
namespace ResultSetHandler

/-! ### Result maps -/

/-- A result mapping without a nested result map: its column, and the property that is
found for the column with the prefix around it. -/
structure ColumnMapping where
  column : String
  property : Option String
  /-- The setter takes a primitive type. -/
  isPrimitive : Bool := false
  isId : Bool := false
  deriving DecidableEq, Repr

/-- A result mapping with a nested result map. -/
structure NestedMapping where
  property : String
  columnPrefix : Option String := none
  notNullColumns : List String := []
  /-- The property is a collection. -/
  isCollection : Bool := true
  deriving DecidableEq, Repr

mutual

inductive ResultMap
  | mk (id : String) (mappings : List ColumnMapping) (autoMappings : List ColumnMapping)
      (keyColumns : List String) (nested : NestedMaps)

/-- The nested result maps in the order of their mappings. -/
inductive NestedMaps
  | nil
  | cons (mapping : NestedMapping) (resultMap : ResultMap) (rest : NestedMaps)

end

def ResultMap.id : ResultMap → String
  | .mk id _ _ _ _ => id

/-- The settings and the columns of a query that the handler reads. -/
structure Query where
  columnNames : List String
  returnInstanceForEmptyRow : Bool := false
  callSettersOnNulls : Bool := false

/-- What a row has in a column; `none` is null. -/
abbrev Row (V : Type*) := String → Option V

def toUpperCase (s : String) : String := String.ofList (s.toList.map Char.toUpper)

def Query.hasColumn (q : Query) (column : String) : Bool :=
  q.columnNames.any fun name => toUpperCase name == toUpperCase column

def prependPrefix (columnName : String) (columnPrefix : Option String) : String :=
  if columnName = "" then columnName else columnPrefix.getD "" ++ columnName

def getColumnPrefix (parentPrefix : Option String) (n : NestedMapping) : Option String :=
  let columnPrefix := parentPrefix.getD "" ++ n.columnPrefix.getD ""
  if columnPrefix = "" then none else some (toUpperCase columnPrefix)

/-! ### Row keys -/

/-- A `CacheKey` of a row: the id of the result map, then columns and their values. -/
structure RowKey (V : Type*) where
  id : String
  values : List (String × Option V)
  deriving DecidableEq

/-- The key of a row, or that of a nested row combined with the key around it. -/
inductive CacheKey (V : Type*)
  | root (rowKey : RowKey V)
  | combined (rowKey : RowKey V) (parentRowKey : CacheKey V)
  deriving DecidableEq

variable {V : Type*}

/-- `getResultMappingsForRowKey`, without the nested mappings: those of the id, or all. -/
def keyMappings (mappings : List ColumnMapping) : List ColumnMapping :=
  if mappings.any ColumnMapping.isId then mappings.filter ColumnMapping.isId else mappings

/-- A map without mappings has the columns of its automatic ones in its key. -/
def ResultMap.isMapped : ResultMap → Bool
  | .mk _ [] _ _ .nil => false
  | _ => true

def ResultMap.columnsOfKey (q : Query) (columnPrefix : Option String) : ResultMap → List String
  | .mk _ [] _ keyColumns .nil => keyColumns
  | .mk _ mappings _ _ _ =>
    ((keyMappings mappings).map fun c => prependPrefix c.column columnPrefix).filter q.hasColumn

/-- A key needs a value: the id alone is the null key. -/
def createRowKey (q : Query) (m : ResultMap) (columnPrefix : Option String) (row : Row V) :
    Option (RowKey V) :=
  let columns := m.columnsOfKey q columnPrefix
  let values := (columns.map fun c => (c, row c)).filter fun v =>
    v.2.isSome || m.isMapped && q.returnInstanceForEmptyRow
  if values = [] then none else some ⟨m.id, values⟩

def combineKeys (rowKey : Option (RowKey V)) (parentRowKey : Option (CacheKey V)) :
    Option (CacheKey V) :=
  rowKey.bind fun k => parentRowKey.map fun p => .combined k p

/-! ### Objects -/

/-- What a property holds that refers to other objects. -/
inductive Link (α : Type*)
  | null
  | one (object : α)
  | collection (objects : List α)
  deriving DecidableEq, Repr

def Link.map {α β : Type*} (f : α → β) : Link α → Link β
  | .null => .null
  | .one a => .one (f a)
  | .collection as => .collection (as.map f)

/-- `instantiateCollectionPropertyIfAppropriate`. -/
def Link.instantiate {α : Type*} (isCollection : Bool) : Link α → Link α
  | .null => if isCollection then .collection [] else .null
  | l => l

/-- `linkObjects`: a collection takes the object in, any other property is set to it. -/
def Link.add {α : Type*} (isCollection : Bool) (l : Link α) (a : α) : Link α :=
  match l.instantiate isCollection with
  | .collection as => .collection (as ++ [a])
  | _ => .one a

structure Object (V : Type*) where
  values : String → Option V := fun _ => none
  links : String → Link ℕ := fun _ => .null

/-- The handler between two rows. -/
structure Handler (V : Type*) where
  objects : List (Object V) := []
  nestedResultObjects : CacheKey V → Option ℕ := fun _ => none
  ancestorObjects : String → Option ℕ := fun _ => none

namespace Handler

def putAncestor (s : Handler V) (resultMapId : String) (a : ℕ) : Handler V :=
  { s with ancestorObjects := Function.update s.ancestorObjects resultMapId (some a) }

def removeAncestor (s : Handler V) (resultMapId : String) : Handler V :=
  { s with ancestorObjects := Function.update s.ancestorObjects resultMapId none }

def create (s : Handler V) (o : Object V) : Handler V := { s with objects := s.objects ++ [o] }

/-- A change of what a property of an object refers to. -/
def changeLink (s : Handler V) (a : ℕ) (property : String) (f : Link ℕ → Link ℕ) : Handler V :=
  { s with objects := s.objects.modify a fun o =>
      { o with links := Function.update o.links property (f (o.links property)) } }

variable [DecidableEq V]

/-- Nothing is kept under the null key. -/
def putNested (s : Handler V) (combinedKey : Option (CacheKey V)) (rowValue : Option ℕ) :
    Handler V :=
  match combinedKey with
  | none => s
  | some k => { s with nestedResultObjects := Function.update s.nestedResultObjects k rowValue }

end Handler

/-! ### The values of a row -/

/-- A null is set only where setters are called on nulls; it is no value found. -/
def setProperty (q : Query) (acc : (String → Option V) × Bool) (c : ColumnMapping)
    (value : Option V) : (String → Option V) × Bool :=
  match c.property with
  | none => acc
  | some property =>
    (if value.isSome || q.callSettersOnNulls && !c.isPrimitive then
      Function.update acc.1 property value else acc.1, acc.2 || value.isSome)

def applyAutomaticMappings (q : Query) (autoMappings : List ColumnMapping) (row : Row V)
    (acc : (String → Option V) × Bool) : (String → Option V) × Bool :=
  autoMappings.foldl (fun acc c => setProperty q acc c (row c.column)) acc

def applyPropertyMappings (q : Query) (mappings : List ColumnMapping)
    (columnPrefix : Option String) (row : Row V) (acc : (String → Option V) × Bool) :
    (String → Option V) × Bool :=
  mappings.foldl (fun acc c =>
    let column := prependPrefix c.column columnPrefix
    if q.hasColumn column then setProperty q acc c (row column) else acc) acc

/-- The values of a new object, and whether the row has one. -/
def rowValues (q : Query) (mappings autoMappings : List ColumnMapping)
    (columnPrefix : Option String) (row : Row V) : (String → Option V) × Bool :=
  applyPropertyMappings q mappings columnPrefix row
    (applyAutomaticMappings q autoMappings row (fun _ => none, false))

def anyNotNullColumnHasValue (q : Query) (n : NestedMapping) (columnPrefix : Option String)
    (row : Row V) : Bool :=
  if n.notNullColumns ≠ [] then
    n.notNullColumns.any fun c => (row (prependPrefix c columnPrefix)).isSome
  else match columnPrefix with
    | none => true
    | some p => q.columnNames.any fun name =>
        (toUpperCase p).toList.isPrefixOf (toUpperCase name).toList

/-! ### A row -/

variable [DecidableEq V]

mutual

/-- The object of a row: the one known under its key, or a new one. Either is passed the
nested objects of the row. -/
def getRowValue (q : Query) (row : Row V) : ResultMap → Option (CacheKey V) → Option String →
    Option ℕ → Handler V → Option ℕ × Handler V
  | .mk id _ _ _ nested, combinedKey, columnPrefix, some a, s =>
    let r := applyNestedResultMappings q row nested a columnPrefix combinedKey false
      (s.putAncestor id a)
    (some a, r.2.removeAncestor id)
  | .mk id mappings autoMappings _ nested, combinedKey, columnPrefix, none, s =>
    let a := s.objects.length
    let v := rowValues q mappings autoMappings columnPrefix row
    let r := applyNestedResultMappings q row nested a columnPrefix combinedKey true
      ((s.create { values := v.1 }).putAncestor id a)
    let rowValue := if r.1 || v.2 || q.returnInstanceForEmptyRow then some a else none
    (rowValue, (r.2.removeAncestor id).putNested combinedKey rowValue)

/-- The nested objects of a row for the object `a`; whether one was linked to it. -/
def applyNestedResultMappings (q : Query) (row : Row V) : NestedMaps → ℕ → Option String →
    Option (CacheKey V) → Bool → Handler V → Bool × Handler V
  | .nil, _, _, _, _, s => (false, s)
  | .cons n m rest, a, parentPrefix, parentRowKey, newObject, s =>
    let columnPrefix := getColumnPrefix parentPrefix n
    match if n.columnPrefix.isNone then s.ancestorObjects m.id else none with
    | some ancestorObject =>
      -- a circular reference
      let s := if newObject then s.changeLink a n.property (·.add n.isCollection ancestorObject)
        else s
      applyNestedResultMappings q row rest a parentPrefix parentRowKey newObject s
    | none =>
      let combinedKey := combineKeys (createRowKey q m columnPrefix row) parentRowKey
      let known := combinedKey.bind s.nestedResultObjects
      let s := s.changeLink a n.property (·.instantiate n.isCollection)
      if anyNotNullColumnHasValue q n columnPrefix row then
        match getRowValue q row m combinedKey columnPrefix known s with
        | (some rowValue, s) =>
          if known.isNone then
            let r := applyNestedResultMappings q row rest a parentPrefix parentRowKey newObject
              (s.changeLink a n.property (·.add n.isCollection rowValue))
            (true, r.2)
          else applyNestedResultMappings q row rest a parentPrefix parentRowKey newObject s
        | (none, s) =>
          applyNestedResultMappings q row rest a parentPrefix parentRowKey newObject s
      else applyNestedResultMappings q row rest a parentPrefix parentRowKey newObject s

end

/-! ### All rows -/

/-- The loop over the rows: the handler, what the result handler was given, and the
object of the row before. -/
structure Loop (V : Type*) where
  handler : Handler V := {}
  results : List (Option ℕ) := []
  rowValue : Option ℕ := none

/-- A row of the loop. With `resultOrdered`, an object is passed on and all are forgotten
when the next one begins. -/
def handleRow (q : Query) (m : ResultMap) (resultOrdered : Bool) (l : Loop V) (row : Row V) :
    Loop V :=
  let rowKey := (createRowKey q m none row).map CacheKey.root
  let partialObject := rowKey.bind l.handler.nestedResultObjects
  if resultOrdered then
    let l := if partialObject.isNone && l.rowValue.isSome then
      { l with handler := { l.handler with nestedResultObjects := fun _ => none }
               results := l.results ++ [l.rowValue] } else l
    let r := getRowValue q row m rowKey none partialObject l.handler
    { l with handler := r.2, rowValue := r.1 }
  else
    let r := getRowValue q row m rowKey none partialObject l.handler
    { handler := r.2
      results := if partialObject.isNone then l.results ++ [r.1] else l.results
      rowValue := r.1 }

/-- `shouldProcessMoreRows` before each row. -/
def handleRows (q : Query) (m : ResultMap) (resultOrdered : Bool) (limit : ℕ) :
    Loop V → List (Row V) → Loop V
  | l, [] => l
  | l, row :: rows =>
    if l.results.length < limit then
      handleRows q m resultOrdered limit (handleRow q m resultOrdered l row) rows
    else l

/-- The rows from the offset on, for a result handler that keeps what it is given. -/
def handleRowValuesForNestedResultMap (q : Query) (m : ResultMap) (resultOrdered : Bool)
    (offset limit : ℕ) (rows : List (Row V)) : Loop V :=
  let l := handleRows q m resultOrdered limit {} (rows.drop offset)
  if l.rowValue.isSome && resultOrdered && decide (l.results.length < limit) then
    { l with results := l.results ++ [l.rowValue], rowValue := none }
  else l

end ResultSetHandler
end CloudManager
