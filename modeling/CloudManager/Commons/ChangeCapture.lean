/-
# Change capture over an evolving schema

The database writes TABLE_MAP, row and query events while its schema changes;
the listener reads them. A row event is written only for a table its id stands
for and with rows of that table's length (`step`), and `written` collects what
its rows say under the column names of that moment. Capture is complete when
the queue holds exactly these changes, in order (`Complete`).

A row whose names are in the listener's cache adds its change (`adds_rowEvent`), and no
row event adds more changes than it has rows (`receive_atMost`).
-/
import CloudManager.Commons.InstanceListener
import CloudManager.Lib.Runs

namespace CloudManager
namespace ChangeCapture

open InstanceListener Runs

/-- A table has columns, of different names. -/
structure Table where
  columns : List ColumnInfo
  nonempty : columns ≠ []
  nodup : (columns.map (·.name)).Nodup

def Table.names (t : Table) : List String := t.columns.map (·.name)

/-- The databases with their tables. -/
abbrev Schema := List (String × List (String × Table))

namespace Schema

def tables (s : Schema) (databaseName : String) : List (String × Table) :=
  (s.lookup databaseName).getD []

def table (s : Schema) (databaseName tableName : String) : Option Table :=
  (s.tables databaseName).lookup tableName

/-- What JDBC says of the schema when every query succeeds. -/
def metaData (s : Schema) : DatabaseMetaData where
  getCatalogs := .ok ⟨s.map Prod.fst, none⟩
  getTables databaseName := .ok ⟨(s.tables databaseName).map Prod.fst, none⟩
  getColumns databaseName pattern :=
    .ok ⟨((s.tables databaseName).filter (Wildcard.like pattern ·.1)).flatMap (·.2.columns), none⟩

end Schema

/-- A row's change: the columns' values before and after it. -/
structure RowChange where
  header : EventHeader
  databaseName : String
  tableName : String
  before : Option (List (String × String))
  after : Option (List (String × String))
  deriving DecidableEq, Repr

structure World where
  schema : Schema
  /-- The tables the ids of the binlog stand for. -/
  tableIds : Int → Option (String × String)
  listener : InstanceListener.State
  /-- The changes of the rows written so far. -/
  written : List RowChange

inductive Event
  | evolve (schema : Schema)
  | write (header : EventHeader) (e : BinlogEvent)

/-- A row under the names of its table. -/
def image (t : Table) (row : Row) : List (String × String) := t.names.zip (row.map render)

/-- The id and the rows, before and after, of a row event. -/
def rowsOf : BinlogEvent → Option (Int × List (Option Row × Option Row))
  | .deleteRows tableId rows => some (tableId, rows.map fun r => (some r, none))
  | .updateRows tableId rows => some (tableId, rows.map fun r => (some r.1, some r.2))
  | .writeRows tableId rows => some (tableId, rows.map fun r => (none, some r))
  | _ => none

/-- The row has a value for each column. -/
def Fits (t : Table) (row : Option Row) : Prop := ∀ r ∈ row, r.length = t.columns.length

instance (t : Table) (row : Option Row) : Decidable (Fits t row) :=
  inferInstanceAs (Decidable (∀ r ∈ row, r.length = t.columns.length))

def change (header : EventHeader) (databaseName tableName : String) (t : Table)
    (row : Option Row × Option Row) : RowChange :=
  ⟨header, databaseName, tableName, row.1.map (image t), row.2.map (image t)⟩

/-- The table an id stands for, with its names. -/
def World.tableOf (w : World) (tableId : Int) : Option (String × String × Table) :=
  (w.tableIds tableId).bind fun id => (w.schema.table id.1 id.2).map fun t => (id.1, id.2, t)

/-- The listener's surroundings. -/
def env (toLowerCase : String → String) (w : World) : Env := ⟨.ok w.schema.metaData, toLowerCase⟩

def newTableIds (w : World) : BinlogEvent → Int → Option (String × String)
  | .tableMap tableId databaseName tableName =>
    Function.update w.tableIds tableId (some (databaseName, tableName))
  | _ => w.tableIds

/-- The schema changes, or an event is written and received. -/
def step (toLowerCase : String → String) (w : World) : Event → Option World
  | .evolve schema => some { w with schema := schema }
  | .write header e =>
    let listener := receive (env toLowerCase w) w.listener header e
    match rowsOf e with
    | none => some { w with listener := listener, tableIds := newTableIds w e }
    | some (tableId, rows) =>
      (w.tableOf tableId).bind fun (databaseName, tableName, t) =>
        if ∀ row ∈ rows, Fits t row.1 ∧ Fits t row.2 then
          some { w with listener := listener,
                        written := w.written ++ rows.map (change header databaseName tableName t) }
        else none

/-- The keeper and the listener are new. -/
def start (schema : Schema) : World where
  schema := schema
  tableIds _ := none
  listener := ⟨TableInfoKeeper.init (.ok schema.metaData), [], 0⟩
  written := []

/-! ### Completeness -/

/-- The change a row's event in the queue stands for. -/
def changeOf (e : CDCEvent) : RowChange :=
  ⟨e.header, e.databaseName, e.tableName, e.before.map (·.entries), e.after.map (·.entries)⟩

/-- The changes in the queue, in order, without the queries. -/
def changes (queue : List CDCEvent) : List RowChange :=
  (queue.filter (!·.isDdl)).map changeOf

/-- The queue holds one event for each row written, in order, with the names
and values of its table. -/
def Complete (w : World) : Prop := changes w.listener.queue = w.written

instance (w : World) : Decidable (Complete w) :=
  inferInstanceAs (Decidable (changes w.listener.queue = w.written))

/-! ### A row -/

/-- From `s` to `s'` the listener adds the changes `cs` to its queue, and
nothing else. -/
def Adds (s s' : InstanceListener.State) (cs : List RowChange) : Prop :=
  s'.tableInfoKeeper = s.tableInfoKeeper ∧ changes s'.queue = changes s.queue ++ cs

theorem Adds.refl (s : InstanceListener.State) : Adds s s [] := ⟨rfl, by simp⟩

theorem Adds.trans {s s' s'' : InstanceListener.State} {cs cs' : List RowChange}
    (h : Adds s s' cs) (h' : Adds s' s'' cs') : Adds s s'' (cs ++ cs') :=
  ⟨h'.1.trans h.1, by rw [h'.2, h.2, List.append_assoc]⟩

theorem adds_enqueue (s : InstanceListener.State) (header : EventHeader) (info : TableInfo)
    (before after : Option (LinkedHashMap String String)) (sql : Option String) :
    Adds s (s.enqueue header info before after false sql)
      [⟨header, info.databaseName, info.tableName, before.map (·.entries), after.map (·.entries)⟩] := by
  refine ⟨rfl, ?_⟩
  show changes (s.queue ++ [_]) = _
  simp [changes, changeOf]

/-- A query adds no change. -/
theorem adds_enqueue_ddl (s : InstanceListener.State) (header : EventHeader) (info : TableInfo)
    (before after : Option (LinkedHashMap String String)) (sql : Option String) :
    Adds s (s.enqueue header info before after true sql) [] := by
  refine ⟨rfl, ?_⟩
  show changes (s.queue ++ [_]) = _
  simp [changes]

/-- The rows of a loop add their changes one after the other. -/
theorem adds_foldl {α : Type} {body : InstanceListener.State → α → InstanceListener.State}
    {c : α → RowChange} {k : TableInfoKeeper} (rows : List α)
    (h : ∀ s, s.tableInfoKeeper = k → ∀ a ∈ rows, Adds s (body s a) [c a])
    (s : InstanceListener.State) (hs : s.tableInfoKeeper = k) :
    Adds s (rows.foldl body s) (rows.map c) := by
  induction rows generalizing s with
  | nil => exact Adds.refl s
  | cons a rows ih =>
    have ha := h s hs a List.mem_cons_self
    have hrest := ih (fun s hs b hb => h s hs b (List.mem_cons_of_mem a hb)) (body s a)
      (ha.1.trans hs)
    exact ha.trans hrest

variable (env : Env) {s : InstanceListener.State} {info : TableInfo} {t : Table}

/-- The map of a row whose names are cached is its image. -/
theorem mapRow_of_cached {row : Row}
    (hk : (s.tableInfoKeeper.getColumns
      (TableInfoKeeper.fullName info.databaseName info.tableName)).map (·.map (·.name)) =
        some t.names) (hrow : row.length = t.columns.length) :
    ∃ m : LinkedHashMap String String, s.mapRow env info row = (some m, s) ∧
      m.entries = image t row ∧ usable (some m) = true := by
  obtain ⟨cached, hc, hnames⟩ := Option.map_eq_some_iff.mp hk
  have hlen : cached.length = row.length := by
    have := congrArg List.length hnames
    rw [List.length_map, Table.names, List.length_map] at this
    omega
  have hcols : 0 < t.columns.length := List.length_pos_iff.mpr t.nonempty
  have hne : row ≠ [] := List.length_pos_iff.mp (by omega)
  have hkeys : ((cached.map (·.name)).zip (row.map render)).map Prod.fst = t.names := by
    rw [List.map_fst_zip (by simp [hlen]), hnames]
  have hnodup : (((cached.map (·.name)).zip (row.map render)).map Prod.fst).Nodup := by
    rw [hkeys]
    exact t.nodup
  have hentries : (pairColumns cached row).entries = image t row :=
    calc (pairColumns cached row).entries
        = (cached.map (·.name)).zip (row.map render) :=
          LinkedHashMap.entries_putAll_empty hnodup
      _ = image t row := by rw [hnames, image]
  have himage : (image t row).length = t.columns.length := by
    simp [image, Table.names, hrow]
  refine ⟨pairColumns cached row, ?_, hentries, ?_⟩
  · unfold State.mapRow
    rw [getMap_of_cached hc hlen hne]
  · show (!(pairColumns cached row).entries.isEmpty) = true
    rw [hentries]
    rcases hi : image t row with _ | ⟨p, ps⟩
    · rw [hi] at himage
      simp at himage
      omega
    · rfl

/-- The listener has the names of a table in its cache. -/
def NamesCached (s : InstanceListener.State) (info : TableInfo) (t : Table) : Prop :=
  (s.tableInfoKeeper.getColumns
    (TableInfoKeeper.fullName info.databaseName info.tableName)).map (·.map (·.name)) =
      some t.names

theorem NamesCached.of_eq {s' : InstanceListener.State} (h : NamesCached s info t)
    (hk : s'.tableInfoKeeper = s.tableInfoKeeper) : NamesCached s' info t := by
  unfold NamesCached
  rw [hk]
  exact h

variable (header : EventHeader)

theorem adds_deleteRow (hk : NamesCached s info t) {row : Row}
    (hrow : row.length = t.columns.length) :
    Adds s (s.deleteRow env header info row)
      [change header info.databaseName info.tableName t (some row, none)] := by
  obtain ⟨m, hm, he, hu⟩ := mapRow_of_cached env hk hrow
  have hs : s.deleteRow env header info row =
      s.enqueue header info (some m) none false none := by
    unfold State.deleteRow
    simp [hm, hu]
  have hadds := adds_enqueue s header info (some m) none none
  rw [hs]
  simpa [change, he] using hadds

theorem adds_writeRow (hk : NamesCached s info t) {row : Row}
    (hrow : row.length = t.columns.length) :
    Adds s (s.writeRow env header info row)
      [change header info.databaseName info.tableName t (none, some row)] := by
  obtain ⟨m, hm, he, hu⟩ := mapRow_of_cached env hk hrow
  have hs : s.writeRow env header info row =
      s.enqueue header info none (some m) false none := by
    unfold State.writeRow
    simp [hm, hu]
  have hadds := adds_enqueue s header info none (some m) none
  rw [hs]
  simpa [change, he] using hadds

theorem adds_updateRow (hk : NamesCached s info t) {row : Row × Row}
    (hbefore : row.1.length = t.columns.length) (hafter : row.2.length = t.columns.length) :
    Adds s (s.updateRow env header info row)
      [change header info.databaseName info.tableName t (some row.1, some row.2)] := by
  obtain ⟨m, hm, he, hu⟩ := mapRow_of_cached env hk hbefore
  obtain ⟨m', hm', he', hu'⟩ := mapRow_of_cached env hk hafter
  have hs : s.updateRow env header info row =
      s.enqueue header info (some m) (some m') false none := by
    unfold State.updateRow
    simp [hm, hu, hm', hu']
  have hadds := adds_enqueue s header info (some m) (some m') none
  rw [hs]
  simpa [change, he, he'] using hadds

/-! ### An event -/

/-- The loop of a row event adds the changes its body adds row by row. -/
theorem adds_eachRow {α : Type} {body : InstanceListener.State → TableInfo → α →
      InstanceListener.State} {sides : α → Option Row × Option Row} {tableId : Int} {rows : List α}
    (hid : s.tableInfoKeeper.getTableInfo tableId = some info)
    (hk : rows.map sides ≠ [] → NamesCached s info t)
    (hfits : ∀ row ∈ rows.map sides, Fits t row.1 ∧ Fits t row.2)
    (hbody : ∀ s', NamesCached s' info t → ∀ row, Fits t (sides row).1 → Fits t (sides row).2 →
      Adds s' (body s' info row)
        [change header info.databaseName info.tableName t (sides row)]) :
    ∃ s', s.eachRow body tableId rows = .ok s' ∧
      Adds s s' ((rows.map sides).map (change header info.databaseName info.tableName t)) := by
  refine ⟨rows.foldl (fun s row => body s info row) s, ?_, ?_⟩
  · unfold State.eachRow
    rw [hid]
  · rw [List.map_map]
    apply adds_foldl (k := s.tableInfoKeeper) rows _ s rfl
    intro s' hs' row hrow
    have hmem := List.mem_map_of_mem (f := sides) hrow
    have hcached := (hk (List.ne_nil_of_mem hmem)).of_eq hs'
    exact hbody s' hcached row (hfits _ hmem).1 (hfits _ hmem).2

/-- A row event over a table whose names are cached adds a change for each row. -/
theorem adds_rowEvent {e : BinlogEvent} {tableId : Int} {rows : List (Option Row × Option Row)}
    (hrows : rowsOf e = some (tableId, rows))
    (hid : s.tableInfoKeeper.getTableInfo tableId = some info)
    (hk : rows ≠ [] → NamesCached s info t)
    (hfits : ∀ row ∈ rows, Fits t row.1 ∧ Fits t row.2) :
    Adds s (receive env s header e)
      (rows.map (change header info.databaseName info.tableName t)) := by
  have hreceive : ∃ s', onEvents env s header e = .ok s' ∧
      Adds s s' (rows.map (change header info.databaseName info.tableName t)) := by
    rcases e with _ | ⟨id, rs⟩ | ⟨id, rs⟩ | ⟨id, rs⟩ | _ | _ <;>
      simp only [rowsOf, Option.some.injEq, Prod.mk.injEq, reduceCtorEq] at hrows
    case deleteRows =>
      obtain ⟨rfl, rfl⟩ := hrows
      exact adds_eachRow header hid hk hfits fun s' hs' row hbefore _ =>
        adds_deleteRow env header hs' (hbefore row rfl)
    case updateRows =>
      obtain ⟨rfl, rfl⟩ := hrows
      exact adds_eachRow header hid hk hfits fun s' hs' row hbefore hafter =>
        adds_updateRow env header hs' (hbefore row.1 rfl) (hafter row.2 rfl)
    case writeRows =>
      obtain ⟨rfl, rfl⟩ := hrows
      exact adds_eachRow header hid hk hfits fun s' hs' row _ hafter =>
        adds_writeRow env header hs' (hafter row rfl)
  obtain ⟨s', hs', hadds⟩ := hreceive
  unfold receive
  rw [hs']
  exact hadds

/-! ### At most one change for each row -/

/-- From `s` to `s'` the listener adds at most `n` changes. -/
def AddsAtMost (s s' : InstanceListener.State) (n : ℕ) : Prop :=
  ∃ cs, changes s'.queue = changes s.queue ++ cs ∧ cs.length ≤ n

theorem AddsAtMost.none {s' : InstanceListener.State} (h : s'.queue = s.queue) (n : ℕ) :
    AddsAtMost s s' n :=
  ⟨[], by rw [h, List.append_nil], Nat.zero_le n⟩

theorem AddsAtMost.trans {s' s'' : InstanceListener.State} {n n' : ℕ} (h : AddsAtMost s s' n)
    (h' : AddsAtMost s' s'' n') : AddsAtMost s s'' (n + n') := by
  obtain ⟨cs, hcs, hn⟩ := h
  obtain ⟨cs', hcs', hn'⟩ := h'
  refine ⟨cs ++ cs', by rw [hcs', hcs, List.append_assoc], ?_⟩
  rw [List.length_append]
  omega

/-- A row that adds one change at most, and not the change `c`. -/
def AddsNot (s s' : InstanceListener.State) (c : RowChange) : Prop :=
  ∃ cs, changes s'.queue = changes s.queue ++ cs ∧ cs.length ≤ 1 ∧ cs ≠ [c]

theorem AddsNot.none {s' : InstanceListener.State} (h : s'.queue = s.queue) (c : RowChange) :
    AddsNot s s' c :=
  ⟨[], by rw [h, List.append_nil], Nat.zero_le 1, nofun⟩

theorem addsAtMost_enqueue (s s' : InstanceListener.State) (h : s'.queue = s.queue)
    (before after : Option (LinkedHashMap String String)) :
    AddsAtMost s (s'.enqueue header info before after false none) 1 := by
  obtain ⟨-, hadds⟩ := adds_enqueue s' header info before after none
  exact ⟨_, by rw [hadds, h], by simp⟩

theorem addsAtMost_deleteRow (row : Row) : AddsAtMost s (s.deleteRow env header info row) 1 := by
  unfold State.deleteRow
  dsimp only
  split
  · exact addsAtMost_enqueue header s _ rfl _ _
  · exact .none rfl 1

theorem addsAtMost_writeRow (row : Row) : AddsAtMost s (s.writeRow env header info row) 1 := by
  unfold State.writeRow
  dsimp only
  split
  · exact addsAtMost_enqueue header s _ rfl _ _
  · exact .none rfl 1

theorem addsAtMost_updateRow (row : Row × Row) :
    AddsAtMost s (s.updateRow env header info row) 1 := by
  unfold State.updateRow
  dsimp only
  split
  · exact addsAtMost_enqueue header s _ rfl _ _
  · exact .none rfl 1

theorem addsAtMost_foldl {α : Type} {body : InstanceListener.State → α → InstanceListener.State}
    (h : ∀ s a, AddsAtMost s (body s a) 1) (rows : List α) (s : InstanceListener.State) :
    AddsAtMost s (rows.foldl body s) rows.length := by
  induction rows generalizing s with
  | nil => exact .none rfl 0
  | cons a rows ih =>
    rw [List.foldl_cons, List.length_cons, Nat.add_comm]
    exact (h s a).trans (ih (body s a))

/-- A row event adds no more changes than it has rows, also where it throws. -/
theorem receive_atMost {e : BinlogEvent} {tableId : Int} {rows : List (Option Row × Option Row)}
    (hrows : rowsOf e = some (tableId, rows)) :
    AddsAtMost s (receive env s header e) rows.length := by
  have hloop : ∀ {α : Type} {body : InstanceListener.State → TableInfo → α →
        InstanceListener.State} (rs : List α), (∀ s info a, AddsAtMost s (body s info a) 1) →
      ∀ s', s.eachRow body tableId rs = .ok s' → AddsAtMost s s' rs.length := by
    intro α body rs hbody s' hs'
    unfold State.eachRow at hs'
    split at hs'
    · cases hs'
    · next info _ =>
      obtain rfl := Except.ok.inj hs'
      exact addsAtMost_foldl (fun s a => hbody s info a) rs s
  have hevents : ∀ s', onEvents env s header e = .ok s' → AddsAtMost s s' rows.length := by
    rcases e with _ | ⟨id, rs⟩ | ⟨id, rs⟩ | ⟨id, rs⟩ | _ | _ <;>
      simp only [rowsOf, Option.some.injEq, Prod.mk.injEq, reduceCtorEq] at hrows
    case deleteRows =>
      obtain ⟨rfl, rfl⟩ := hrows
      rw [List.length_map]
      exact hloop rs fun s info row => addsAtMost_deleteRow env header row
    case updateRows =>
      obtain ⟨rfl, rfl⟩ := hrows
      rw [List.length_map]
      exact hloop rs fun s info row => addsAtMost_updateRow env header row
    case writeRows =>
      obtain ⟨rfl, rfl⟩ := hrows
      rw [List.length_map]
      exact hloop rs fun s info row => addsAtMost_writeRow env header row
  unfold receive
  split
  · next s' hs' => exact hevents s' hs'
  · exact .none rfl _

/-! ### A row without its names -/

/-- Where the names cached are not the table's, a row's map is not its image. -/
theorem mapRow_of_not_cached (hk : ¬ NamesCached s info t) {row : Row}
    (hrow : row.length = t.columns.length) :
    (s.mapRow env info row).1.map (·.entries) ≠ some (image t row) := by
  have hcols : 0 < t.columns.length := List.length_pos_iff.mpr t.nonempty
  have hne : row ≠ [] := List.length_pos_iff.mp (by omega)
  intro himage
  unfold State.mapRow at himage
  rcases hc : s.tableInfoKeeper.getColumns
      (TableInfoKeeper.fullName info.databaseName info.tableName) with _ | cached
  · rw [getMap_of_uncached hc] at himage
    cases himage
  · by_cases hlen : cached.length = row.length
    · rw [getMap_of_cached hc hlen hne] at himage
      have hentries : (pairColumns cached row).entries = image t row := Option.some.inj himage
      have hkeys : ((cached.map (·.name)).zip (row.map render)).map Prod.fst =
          cached.map (·.name) := List.map_fst_zip (by simp [hlen])
      have himagekeys : (image t row).map Prod.fst = t.names :=
        List.map_fst_zip (by simp [Table.names, hrow])
      have hlength : ((cached.map (·.name)).zip (row.map render)).length = (image t row).length := by
        simp [image, Table.names, hlen, hrow]
      have hput : (pairColumns cached row).entries = (cached.map (·.name)).zip (row.map render) :=
        LinkedHashMap.entries_putAll_of_length (hlength.trans (congrArg _ hentries.symm)).le
      refine hk ?_
      unfold NamesCached
      rw [hc, Option.map_some, ← hkeys, ← himagekeys, ← hentries]
      exact congrArg some (congrArg (List.map Prod.fst) hput.symm)
    · rw [getMap_of_length_ne hc hlen hne] at himage
      cases himage

/-- A row whose table has other names than the cached ones adds a wrong change or none. -/
theorem addsNot_deleteRow (hk : ¬ NamesCached s info t) {row : Row}
    (hrow : row.length = t.columns.length) :
    AddsNot s (s.deleteRow env header info row)
      (change header info.databaseName info.tableName t (some row, none)) := by
  have hmap := mapRow_of_not_cached env hk hrow
  unfold State.deleteRow
  dsimp only
  split
  · obtain ⟨-, hadds⟩ := adds_enqueue (s.mapRow env info row).2 header info
      (s.mapRow env info row).1 none none
    refine ⟨_, hadds, by simp, fun hc => hmap ?_⟩
    exact congrArg RowChange.before (List.singleton_inj.mp hc)
  · exact .none rfl _

theorem addsNot_writeRow (hk : ¬ NamesCached s info t) {row : Row}
    (hrow : row.length = t.columns.length) :
    AddsNot s (s.writeRow env header info row)
      (change header info.databaseName info.tableName t (none, some row)) := by
  have hmap := mapRow_of_not_cached env hk hrow
  unfold State.writeRow
  dsimp only
  split
  · obtain ⟨-, hadds⟩ := adds_enqueue (s.mapRow env info row).2 header info none
      (s.mapRow env info row).1 none
    refine ⟨_, hadds, by simp, fun hc => hmap ?_⟩
    exact congrArg RowChange.after (List.singleton_inj.mp hc)
  · exact .none rfl _

theorem addsNot_updateRow (hk : ¬ NamesCached s info t) {row : Row × Row}
    (hrow : row.1.length = t.columns.length) :
    AddsNot s (s.updateRow env header info row)
      (change header info.databaseName info.tableName t (some row.1, some row.2)) := by
  have hmap := mapRow_of_not_cached env hk hrow
  unfold State.updateRow
  dsimp only
  split
  · obtain ⟨-, hadds⟩ := adds_enqueue ((s.mapRow env info row.1).2.mapRow env info row.2).2 header
      info (s.mapRow env info row.1).1 ((s.mapRow env info row.1).2.mapRow env info row.2).1 none
    refine ⟨_, hadds, by simp, fun hc => hmap ?_⟩
    exact congrArg RowChange.before (List.singleton_inj.mp hc)
  · exact .none rfl _

/-- A row event over a table whose names are not cached misses the first row's change. -/
theorem misses_rowEvent {e : BinlogEvent} {tableId : Int} {row : Option Row × Option Row}
    {rows : List (Option Row × Option Row)} (hrows : rowsOf e = some (tableId, row :: rows))
    (hid : s.tableInfoKeeper.getTableInfo tableId = some info) (hk : ¬ NamesCached s info t)
    (hfits : Fits t row.1 ∧ Fits t row.2) :
    ∃ cs cs', changes (receive env s header e).queue = changes s.queue ++ (cs ++ cs') ∧
      cs.length ≤ 1 ∧ cs'.length ≤ rows.length ∧
      cs ≠ [change header info.databaseName info.tableName t row] := by
  have hloop : ∀ {α : Type} {body : InstanceListener.State → TableInfo → α →
        InstanceListener.State} (a : α) (as : List α),
      (∀ s info a, AddsAtMost s (body s info a) 1) →
      AddsNot s (body s info a) (change header info.databaseName info.tableName t row) →
      ∃ s', s.eachRow body tableId (a :: as) = .ok s' ∧
        ∃ cs cs', changes s'.queue = changes s.queue ++ (cs ++ cs') ∧
          cs.length ≤ 1 ∧ cs'.length ≤ as.length ∧
          cs ≠ [change header info.databaseName info.tableName t row] := by
    intro α body a as hbody hfirst
    obtain ⟨cs, hcs, hlen, hne⟩ := hfirst
    obtain ⟨cs', hcs', hlen'⟩ := addsAtMost_foldl (fun s b => hbody s info b) as (body s info a)
    refine ⟨(a :: as).foldl (fun s row => body s info row) s, ?_, cs, cs', ?_, hlen, hlen', hne⟩
    · unfold State.eachRow
      rw [hid]
    · rw [← List.append_assoc, ← hcs]
      exact hcs'
  have hevents : ∃ s', onEvents env s header e = .ok s' ∧
      ∃ cs cs', changes s'.queue = changes s.queue ++ (cs ++ cs') ∧
        cs.length ≤ 1 ∧ cs'.length ≤ rows.length ∧
        cs ≠ [change header info.databaseName info.tableName t row] := by
    rcases e with _ | ⟨id, _ | ⟨r, rs⟩⟩ | ⟨id, _ | ⟨r, rs⟩⟩ | ⟨id, _ | ⟨r, rs⟩⟩ | _ | _ <;>
      simp only [rowsOf, List.map_nil, List.map_cons, Option.some.injEq, Prod.mk.injEq,
        List.cons.injEq, reduceCtorEq, and_false] at hrows
    case deleteRows.cons =>
      obtain ⟨rfl, rfl, rfl⟩ := hrows
      rw [List.length_map]
      exact hloop r rs (fun s info row => addsAtMost_deleteRow env header row)
        (addsNot_deleteRow env header hk (hfits.1 r rfl))
    case updateRows.cons =>
      obtain ⟨rfl, rfl, rfl⟩ := hrows
      rw [List.length_map]
      exact hloop r rs (fun s info row => addsAtMost_updateRow env header row)
        (addsNot_updateRow env header hk (hfits.1 r.1 rfl))
    case writeRows.cons =>
      obtain ⟨rfl, rfl, rfl⟩ := hrows
      rw [List.length_map]
      exact hloop r rs (fun s info row => addsAtMost_writeRow env header row)
        (addsNot_writeRow env header hk (hfits.2 r rfl))
  obtain ⟨s', hs', hmisses⟩ := hevents
  unfold receive
  rw [hs']
  exact hmisses

/-! ### Other events -/

/-- Any other event adds no change, and only a TABLE_MAP event touches the ids. -/
theorem changes_receive {e : BinlogEvent} (hrows : rowsOf e = none) :
    changes (receive env s header e).queue = changes s.queue := by
  rcases e with _ | _ | _ | _ | ⟨databaseName, sql⟩ | _
  case tableMap => rfl
  case other => rfl
  case query =>
    rw [receive_query]
    rcases createTableInfo env databaseName sql with m | _ | info
    · rfl
    · rfl
    · have hadds := adds_enqueue_ddl s header info none none (some sql)
      simpa using hadds.2
  all_goals cases hrows

theorem tableIds_receive {w : World} {e : BinlogEvent} (hrows : rowsOf e = none)
    (h : ∀ tableId, w.listener.tableInfoKeeper.getTableInfo tableId =
      (w.tableIds tableId).map fun id => ⟨id.1, id.2, TableInfoKeeper.fullName id.1 id.2⟩)
    (tableId : Int) :
    (receive env w.listener header e).tableInfoKeeper.getTableInfo tableId =
      (newTableIds w e tableId).map fun id =>
        ⟨id.1, id.2, TableInfoKeeper.fullName id.1 id.2⟩ := by
  rcases e with ⟨id, databaseName, tableName⟩ | _ | _ | _ | ⟨databaseName, sql⟩ | _
  case tableMap =>
    show Function.update w.listener.tableInfoKeeper.tabledIdMap id _ tableId =
      (Function.update w.tableIds id (some (databaseName, tableName)) tableId).map _
    by_cases hid : tableId = id
    · subst hid
      rw [Function.update_self, Function.update_self]
      rfl
    · rw [Function.update_of_ne hid, Function.update_of_ne hid]
      exact h tableId
  case other => exact h tableId
  case query =>
    have hk : (receive env w.listener header (.query databaseName sql)).tableInfoKeeper =
        w.listener.tableInfoKeeper := by
      rw [receive_query]
      rcases createTableInfo env databaseName sql with m | _ | info <;> rfl
    rw [hk]
    exact h tableId
  all_goals cases hrows

/-! ### A table -/

def idColumn : ColumnInfo := ⟨"id", "INT"⟩
def nameColumn : ColumnInfo := ⟨"name", "VARCHAR"⟩

/-- The table `user`, at first with a key only. -/
def userTable : Table := ⟨[idColumn], by decide, by decide⟩
def userTable' : Table := ⟨[idColumn, nameColumn], by decide, by decide⟩

end ChangeCapture
end CloudManager
