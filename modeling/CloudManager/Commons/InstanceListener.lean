/-
# The binlog listener

`InstanceListener` turns the events of the binlog into `CDCEvent`s at the end
of a queue: one for each row of a row event, one for each query that names a
table. A row carries values only; their names come from the keeper's cached
columns (`getMap`). Where the cached list has another length than the row it
is refreshed, but the list looked at before is the one compared again, so that
row is dropped; the rows after it find the new list.
-/
import CloudManager.Commons.TableInfoKeeper
import CloudManager.Lib.JavaString
import CloudManager.Lib.LinkedHashMap

namespace CloudManager

/-- The header fields a `CDCEvent` takes over. -/
structure EventHeader where
  timestamp : Int
  eventType : Int
  serverId : Int
  timestampOfReceipt : Int
  position : Int
  nextPosition : Int
  deriving DecidableEq, Repr

/-- The values of a row as text; `none` is null. -/
abbrev Row := List (Option String)

/-- The events the listener acts on. -/
inductive BinlogEvent
  | tableMap (tableId : Int) (databaseName tableName : String)
  | deleteRows (tableId : Int) (rows : List Row)
  | updateRows (tableId : Int) (rows : List (Row × Row))
  | writeRows (tableId : Int) (rows : List Row)
  | query (databaseName sql : String)
  /-- An event that is only traced. -/
  | other
  deriving DecidableEq, Repr

structure CDCEvent where
  eventId : ℕ
  databaseName : String
  tableName : String
  header : EventHeader
  before : Option (LinkedHashMap String String)
  after : Option (LinkedHashMap String String)
  isDdl : Bool
  sql : Option String
  deriving DecidableEq

namespace InstanceListener

/-- The listener: its keeper, the queue and the counter of event ids. -/
structure State where
  tableInfoKeeper : TableInfoKeeper
  queue : List CDCEvent
  uuid : ℕ

/-- What the listener finds around it: the database's metadata, and Java's
`toLowerCase`. -/
structure Env where
  connection : Except SQLException DatabaseMetaData
  toLowerCase : String → String

/-! ### Rows -/

/-- A null value becomes the empty string. -/
def render : Option String → String
  | none => ""
  | some text => text

/-- The map of a row against a column list of its length. -/
def pairColumns (columnInfoList : List ColumnInfo) (cols : Row) : LinkedHashMap String String :=
  LinkedHashMap.empty.putAll ((columnInfoList.map (·.name)).zip (cols.map render))

/-- `getMap`: the row's map, or null, and the keeper afterwards. -/
def getMap (env : Env) (k : TableInfoKeeper) (cols : Row) (databaseName tableName : String) :
    Option (LinkedHashMap String String) × TableInfoKeeper :=
  if cols.isEmpty then (none, k)
  else
    match k.getColumns (TableInfoKeeper.fullName databaseName tableName) with
    | none => (none, k)
    | some columnInfoList =>
      if columnInfoList.length ≠ cols.length then
        let k := k.refreshColumnsMap env.connection
        -- the list compared again is the old one
        if columnInfoList.length ≠ cols.length then (none, k)
        else (some (pairColumns columnInfoList cols), k)
      else (some (pairColumns columnInfoList cols), k)

/-- `map != null && map.size() > 0`. -/
def usable (m : Option (LinkedHashMap String String)) : Bool :=
  m.any fun m => !m.entries.isEmpty

namespace State

variable (s : State)

/-- A new event at the end of the queue. -/
def enqueue (header : EventHeader) (info : TableInfo)
    (before after : Option (LinkedHashMap String String)) (isDdl : Bool) (sql : Option String) :
    State :=
  { s with queue := s.queue ++ [⟨s.uuid, info.databaseName, info.tableName, header, before, after,
             isDdl, sql⟩]
           uuid := s.uuid + 1 }

/-- One map of a row. -/
def mapRow (env : Env) (info : TableInfo) (cols : Row) :
    Option (LinkedHashMap String String) × State :=
  let (map, k) := getMap env s.tableInfoKeeper cols info.databaseName info.tableName
  (map, { s with tableInfoKeeper := k })

def deleteRow (env : Env) (header : EventHeader) (info : TableInfo) (row : Row) : State :=
  let (beforeMap, s) := s.mapRow env info row
  if usable beforeMap then s.enqueue header info beforeMap none false none else s

def updateRow (env : Env) (header : EventHeader) (info : TableInfo) (row : Row × Row) : State :=
  let (beforeMap, s) := s.mapRow env info row.1
  let (afterMap, s) := s.mapRow env info row.2
  if usable beforeMap && usable afterMap then s.enqueue header info beforeMap afterMap false none
  else s

def writeRow (env : Env) (header : EventHeader) (info : TableInfo) (row : Row) : State :=
  let (afterMap, s) := s.mapRow env info row
  if usable afterMap then s.enqueue header info none afterMap false none else s

/-- The loop of a row event; an id without a table throws. -/
def eachRow {α : Type} (body : State → TableInfo → α → State) (tableId : Int) (rows : List α) :
    Except String State :=
  match s.tableInfoKeeper.getTableInfo tableId with
  | none => .error "NullPointerException"
  | some info => .ok (rows.foldl (fun s row => body s info row) s)

end State

/-! ### Queries -/

def checkFlag (sql flag : String) : Bool := (JavaString.split ' ' sql).contains flag

/-- The first non-empty word after the first one that contains `flag`. -/
def wordAfter (flag : String) : Bool → List String → Option String
  | _, [] => none
  | start, w :: ws =>
    if JavaString.contains w flag then wordAfter flag true ws
    else if start && !w.isEmpty then some w
    else wordAfter flag start ws

/-- `getTableName`; the replacements of back-quotes and semicolons have no
effect, as their result is not used. -/
def getTableName (sql flag : String) : Except String String := do
  let tName ← match JavaString.split '.' sql with
    | _ :: s :: _ =>
      match JavaString.split ' ' s with
      | [] => Except.error "ArrayIndexOutOfBoundsException"
      | w :: _ => .ok w
    | _ =>
      match wordAfter flag false (JavaString.split ' ' sql) with
      | none => .error "NullPointerException"
      | some w => .ok w
  return JavaString.cutAt '(' tName

/-- `createTableInfo`: null for a query without one of the two words. -/
def createTableInfo (env : Env) (databaseName sql : String) : Except String (Option TableInfo) :=
  let sql := env.toLowerCase sql
  let flag := if checkFlag sql "table" then some "table"
    else if checkFlag sql "truncate" then some "truncate" else none
  match flag with
  | none => .ok none
  | some flag => do
    let tableName ← getTableName sql flag
    return some ⟨databaseName, tableName, TableInfoKeeper.fullName databaseName tableName⟩

/-! ### Events -/

/-- `onEvents`. -/
def onEvents (env : Env) (s : State) (header : EventHeader) : BinlogEvent → Except String State
  | .tableMap tableId databaseName tableName =>
    .ok { s with tableInfoKeeper :=
            s.tableInfoKeeper.saveTableIdMap tableId databaseName tableName }
  | .deleteRows tableId rows => s.eachRow (fun s => s.deleteRow env header) tableId rows
  | .updateRows tableId rows => s.eachRow (fun s => s.updateRow env header) tableId rows
  | .writeRows tableId rows => s.eachRow (fun s => s.writeRow env header) tableId rows
  | .query databaseName sql => do
    match ← createTableInfo env databaseName sql with
    | none => return s
    | some info => return s.enqueue header info none none true (some sql)
  | .other => .ok s

/-- `OpenReplicatorEx.onEvents`: what the listener throws is logged. -/
def receive (env : Env) (s : State) (header : EventHeader) (e : BinlogEvent) : State :=
  match onEvents env s header e with
  | .ok s' => s'
  | .error _ => s

/-- A query that names no table, or throws, leaves the listener as it is. -/
theorem receive_query (env : Env) (s : State) (header : EventHeader) (databaseName sql : String) :
    receive env s header (.query databaseName sql) =
      match createTableInfo env databaseName sql with
      | .ok (some info) => s.enqueue header info none none true (some sql)
      | _ => s := by
  unfold receive
  simp only [onEvents]
  rcases createTableInfo env databaseName sql with m | _ | info <;> rfl

/-! ### What one row comes to -/

variable {env : Env} {k : TableInfoKeeper} {cols : Row} {databaseName tableName : String}

/-- With cached columns of the row's length, the row is paired with them and
nothing is refreshed. -/
theorem getMap_of_cached {columnInfoList : List ColumnInfo}
    (hk : k.getColumns (TableInfoKeeper.fullName databaseName tableName) = some columnInfoList)
    (hlen : columnInfoList.length = cols.length) (hne : cols ≠ []) :
    getMap env k cols databaseName tableName = (some (pairColumns columnInfoList cols), k) := by
  unfold getMap
  have hemp : cols.isEmpty = false := by simpa using hne
  simp [hemp, hk, hlen]

/-- Without a cached list the row is dropped, and the cache stays as it is. -/
theorem getMap_of_uncached
    (hk : k.getColumns (TableInfoKeeper.fullName databaseName tableName) = none) :
    getMap env k cols databaseName tableName = (none, k) := by
  unfold getMap
  by_cases hemp : cols.isEmpty = true <;> simp [hemp, hk]

/-- With a list of another length the row is dropped, and the cache refreshed. -/
theorem getMap_of_length_ne {columnInfoList : List ColumnInfo}
    (hk : k.getColumns (TableInfoKeeper.fullName databaseName tableName) = some columnInfoList)
    (hlen : columnInfoList.length ≠ cols.length) (hne : cols ≠ []) :
    getMap env k cols databaseName tableName = (none, k.refreshColumnsMap env.connection) := by
  unfold getMap
  have hemp : cols.isEmpty = false := by simpa using hne
  simp [hemp, hk, hlen]

end InstanceListener
end CloudManager
