/-
# The keeper of table ids and column lists

`TableInfoKeeper` remembers which table an id of the binlog stands for, and
the columns of every table as the database last described them. It reads the
descriptions through JDBC, where any call may throw: what was read until then
replaces the columns known before. The table name of `getColumns` is a LIKE
pattern, so a table's list also takes the columns of the tables whose names
its own name matches.
-/
import Mathlib.Logic.Function.Basic
import CloudManager.Lib.Wildcard

namespace CloudManager

structure ColumnInfo where
  name : String
  type : String
  deriving DecidableEq, Repr

structure TableInfo where
  databaseName : String
  tableName : String
  fullName : String
  deriving DecidableEq, Repr

/-! ### JDBC metadata -/

structure SQLException where
  message : String
  deriving DecidableEq, Repr

/-- A result set: the rows it gives, and what the `next` after them throws. -/
structure ResultSet (α : Type) where
  rows : List α
  failure : Option SQLException

structure DatabaseMetaData where
  getCatalogs : Except SQLException (ResultSet String)
  /-- The tables of a database. -/
  getTables : String → Except SQLException (ResultSet String)
  /-- The columns of the tables of a database whose names match a pattern. -/
  getColumns : String → String → Except SQLException (ResultSet ColumnInfo)

/-- A loop over the rows of a query with a local variable `c`, which keeps its
value when something throws. -/
def eachRow {α γ : Type} (body : α → γ → γ × Option SQLException) :
    Except SQLException (ResultSet α) → γ → γ × Option SQLException
  | .error e, c => (c, some e)
  | .ok rs, c => go rs.failure rs.rows c
where
  go (failure : Option SQLException) : List α → γ → γ × Option SQLException
    | [], c => (c, failure)
    | a :: as, c =>
      match body a c with
      | (c, some e) => (c, some e)
      | (c, none) => go failure as c

namespace TableInfoKeeper

/-- The columns of each `database.table`. -/
abbrev Columns := String → Option (List ColumnInfo)

end TableInfoKeeper

structure TableInfoKeeper where
  tabledIdMap : Int → Option TableInfo
  columnsMap : TableInfoKeeper.Columns

namespace TableInfoKeeper

def fullName (databaseName tableName : String) : String := databaseName ++ "." ++ tableName

/-! ### Reading the columns -/

/-- One table: an empty list under its key, then its columns one by one. -/
def readTable (metaData : DatabaseMetaData) (databaseName tableName : String) (cols : Columns) :
    Columns × Option SQLException :=
  let key := fullName databaseName tableName
  match metaData.getColumns databaseName tableName with
  | .error e => (cols, some e)
  | .ok colSet =>
    eachRow (fun columnInfo cols =>
        (Function.update cols key ((cols key).map (· ++ [columnInfo])), none))
      (.ok colSet) (Function.update cols key (some []))

def readDatabase (metaData : DatabaseMetaData) (databaseName : String) :
    Columns → Columns × Option SQLException :=
  eachRow (readTable metaData databaseName) (metaData.getTables databaseName)

def readColumns (metaData : DatabaseMetaData) : Columns → Columns × Option SQLException :=
  eachRow (readDatabase metaData) metaData.getCatalogs

/-- `refreshColumnsMap`: an exception is logged, and the columns read so far
become the keeper's. -/
def refreshColumnsMap (connection : Except SQLException DatabaseMetaData) (k : TableInfoKeeper) :
    TableInfoKeeper :=
  match connection with
  | .error _ => { k with columnsMap := fun _ => none }
  | .ok metaData => { k with columnsMap := (readColumns metaData fun _ => none).1 }

/-- The constructor. -/
def init (connection : Except SQLException DatabaseMetaData) : TableInfoKeeper :=
  refreshColumnsMap connection ⟨fun _ => none, fun _ => none⟩

/-! ### The two maps -/

def getColumns (k : TableInfoKeeper) (fullName : String) : Option (List ColumnInfo) :=
  k.columnsMap fullName

def getTableInfo (k : TableInfoKeeper) (tableId : Int) : Option TableInfo := k.tabledIdMap tableId

def saveTableIdMap (k : TableInfoKeeper) (tableId : Int) (databaseName tableName : String) :
    TableInfoKeeper :=
  let table : TableInfo := ⟨databaseName, tableName, fullName databaseName tableName⟩
  { k with tabledIdMap := Function.update k.tabledIdMap tableId (some table) }

@[simp] theorem refreshColumnsMap_tabledIdMap (connection : Except SQLException DatabaseMetaData)
    (k : TableInfoKeeper) : (k.refreshColumnsMap connection).tabledIdMap = k.tabledIdMap := by
  unfold refreshColumnsMap
  rcases connection with e | metaData <;> rfl

end TableInfoKeeper
end CloudManager
