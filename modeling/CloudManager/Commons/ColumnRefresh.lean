/-
# A refresh, read completely or not

`refreshColumnsMap` reads the catalogs, their tables and the tables' columns in
three nested loops, and any of the calls may throw. What it has read is a list of
entries, a table's full name with its columns, and whether it came to the end
(`entriesRead`); the new map is the fold of these entries (`columnsMap_refresh`),
also when the reading broke off.

A refresh is right if it leaves the map alone where the reading breaks off, and
else installs the columns of every table of the database (`AllOrNothing`). As the
code goes, `allOrNothing_iff`, a complete reading takes a database in which every
table's name, as a LIKE pattern, finds that table's columns and no more (`FindsOwn`).
A reading that breaks off at some point of the listing of tables is right for the
keepers alone that knew just the tables up to this point (`columnsUpTo`).
-/
import CloudManager.Commons.ChangeCapture

namespace CloudManager
namespace TableInfoKeeper

open ChangeCapture

/-! ### What is read -/

/-- The full name of a table, with its columns. -/
abbrev Entry := String × List ColumnInfo

def put (cols : Columns) (e : Entry) : Columns := Function.update cols e.1 (some e.2)

variable {α : Type}

/-- What the rows of a query read, where each row reads with `one`, and what breaks it
off. -/
def readRows (one : α → List Entry × Option SQLException) (failure : Option SQLException) :
    List α → List Entry × Option SQLException
  | [] => ([], failure)
  | a :: as =>
    match one a with
    | (es, some e) => (es, some e)
    | (es, none) => (es ++ (readRows one failure as).1, (readRows one failure as).2)

def readAll (one : α → List Entry × Option SQLException) :
    Except SQLException (ResultSet α) → List Entry × Option SQLException
  | .error e => ([], some e)
  | .ok rs => readRows one rs.failure rs.rows

def tableRead (metaData : DatabaseMetaData) (databaseName tableName : String) :
    List Entry × Option SQLException :=
  match metaData.getColumns databaseName tableName with
  | .error e => ([], some e)
  | .ok colSet => ([(fullName databaseName tableName, colSet.rows)], colSet.failure)

def databaseRead (metaData : DatabaseMetaData) (databaseName : String) :
    List Entry × Option SQLException :=
  readAll (tableRead metaData databaseName) (metaData.getTables databaseName)

/-- The entries that a refresh over a connection reads. -/
def entriesRead : Except SQLException DatabaseMetaData → List Entry × Option SQLException
  | .error e => ([], some e)
  | .ok metaData => readAll (databaseRead metaData) metaData.getCatalogs

/-- A loop whose body puts what its row reads puts what the rows read. -/
theorem eachRow_eq {body : α → Columns → Columns × Option SQLException}
    {one : α → List Entry × Option SQLException}
    (h : ∀ a cols, body a cols = ((one a).1.foldl put cols, (one a).2))
    (q : Except SQLException (ResultSet α)) (cols : Columns) :
    eachRow body q cols = ((readAll one q).1.foldl put cols, (readAll one q).2) := by
  rcases q with e | ⟨rows, failure⟩
  · rfl
  · show eachRow.go body failure rows cols =
      ((readRows one failure rows).1.foldl put cols, (readRows one failure rows).2)
    induction rows generalizing cols with
    | nil => rfl
    | cons a rows ih =>
      rcases ha : one a with ⟨es, _ | e⟩
      · simp only [eachRow.go, readRows, h, ha, List.foldl_append]
        exact ih (es.foldl put cols)
      · simp only [eachRow.go, readRows, h, ha]

/-- The columns of a table are added to the empty list under its key. -/
theorem readTable_eq (metaData : DatabaseMetaData) (databaseName tableName : String)
    (cols : Columns) : readTable metaData databaseName tableName cols =
      ((tableRead metaData databaseName tableName).1.foldl put cols,
        (tableRead metaData databaseName tableName).2) := by
  unfold readTable tableRead
  rcases metaData.getColumns databaseName tableName with e | ⟨rows, failure⟩
  · rfl
  · dsimp only [List.foldl_cons, List.foldl_nil, put]
    generalize fullName databaseName tableName = key
    have hrows : ∀ (rows read : List ColumnInfo),
        eachRow.go (fun columnInfo cols =>
            (Function.update cols key ((cols key).map (· ++ [columnInfo])), none)) failure rows
          (Function.update cols key (some read)) =
        (Function.update cols key (some (read ++ rows)), failure) := by
      intro rows
      induction rows with
      | nil =>
        intro read
        rw [List.append_nil]
        rfl
      | cons columnInfo rows ih =>
        intro read
        simp only [eachRow.go, Function.update_self, Option.map_some, Function.update_idem, ih,
          List.append_assoc, List.singleton_append]
    exact hrows rows []

theorem readColumns_eq (metaData : DatabaseMetaData) (cols : Columns) :
    readColumns metaData cols = ((entriesRead (.ok metaData)).1.foldl put cols,
      (entriesRead (.ok metaData)).2) :=
  eachRow_eq (fun databaseName =>
    eachRow_eq (readTable_eq metaData databaseName) (metaData.getTables databaseName))
    metaData.getCatalogs cols

/-- The map of the entries read, the last of a name counting. -/
def installed (es : List Entry) : Columns := es.foldl put fun _ => none

/-- The entries read become the map, wherever the reading ends. -/
theorem columnsMap_refresh (connection : Except SQLException DatabaseMetaData)
    (k : TableInfoKeeper) :
    (k.refreshColumnsMap connection).columnsMap = installed (entriesRead connection).1 := by
  rcases connection with e | metaData
  · rfl
  · show (readColumns metaData fun _ => none).1 = _
    rw [readColumns_eq]
    rfl

/-! ### The map of some entries -/

/-- `x` is the last of a list with its key. -/
def IsLast {β : Type} (key : β → String) (l : List β) (x : β) : Prop :=
  ∃ before after, l = before ++ x :: after ∧ ∀ y ∈ after, key y ≠ key x

theorem exists_isLast {β : Type} {key : β → String} {l : List β} {k : String}
    (h : k ∈ l.map key) : ∃ x, IsLast key l x ∧ key x = k := by
  induction l with
  | nil => cases h
  | cons y l ih =>
    by_cases hl : k ∈ l.map key
    · obtain ⟨x, ⟨before, after, rfl, hafter⟩, hx⟩ := ih hl
      exact ⟨x, ⟨y :: before, after, rfl, hafter⟩, hx⟩
    · have hy : key y = k := ((List.mem_cons.mp h).resolve_right hl).symm
      refine ⟨y, ⟨[], l, rfl, fun z hz he => hl ?_⟩, hy⟩
      exact hy ▸ he ▸ List.mem_map_of_mem hz

theorem foldl_put_of_not_mem {es : List Entry} {key : String} (h : ∀ e ∈ es, e.1 ≠ key)
    (cols : Columns) : es.foldl put cols key = cols key := by
  induction es generalizing cols with
  | nil => rfl
  | cons e es ih =>
    rw [List.foldl_cons, ih (fun e he => h e (List.mem_cons_of_mem _ he)), put,
      Function.update_of_ne (h e List.mem_cons_self).symm]

theorem installed_of_isLast {es : List Entry} {e : Entry} (h : IsLast Prod.fst es e) :
    installed es e.1 = some e.2 := by
  obtain ⟨before, after, rfl, hafter⟩ := h
  rw [installed, List.foldl_append, List.foldl_cons, foldl_put_of_not_mem hafter, put,
    Function.update_self]

theorem mem_of_installed {es : List Entry} {key : String} (h : (installed es key).isSome) :
    key ∈ es.map Prod.fst := by
  by_contra hne
  have hnone : installed es key = none :=
    foldl_put_of_not_mem (fun e he hk => hne (List.mem_map.mpr ⟨e, he, hk⟩)) _
  rw [hnone] at h
  cases h

/-! ### The database -/

/-- What JDBC lists for the columns of a table name, a LIKE pattern. -/
def columnsLike (s : Schema) (databaseName pattern : String) : List ColumnInfo :=
  ((s.tables databaseName).filter (Wildcard.like pattern ·.1)).flatMap (·.2.columns)

/-- A query throws, or its rows are those of `l` up to where one throws. -/
def Gives (l : List α) : Except SQLException (ResultSet α) → Prop
  | .error _ => True
  | .ok rs => rs.rows <+: l ∧ (rs.failure = none → rs.rows = l)

/-- What is read over the connection is the schema, as far as it is read. -/
structure Describes (s : Schema) (connection : Except SQLException DatabaseMetaData) : Prop where
  catalogs : ∀ metaData, connection = .ok metaData → Gives (s.map Prod.fst) metaData.getCatalogs
  tables : ∀ metaData, connection = .ok metaData → ∀ databaseName,
    Gives ((s.tables databaseName).map Prod.fst) (metaData.getTables databaseName)
  columns : ∀ metaData, connection = .ok metaData → ∀ databaseName pattern,
    Gives (columnsLike s databaseName pattern) (metaData.getColumns databaseName pattern)

theorem describes_error (s : Schema) (e : SQLException) : Describes s (.error e) :=
  ⟨nofun, nofun, nofun⟩

theorem describes_metaData (s : Schema) : Describes s (.ok s.metaData) where
  catalogs metaData h := by
    cases h
    exact ⟨List.prefix_rfl, fun _ => rfl⟩
  tables metaData h databaseName := by
    cases h
    exact ⟨List.prefix_rfl, fun _ => rfl⟩
  columns metaData h databaseName pattern := by
    cases h
    exact ⟨List.prefix_rfl, fun _ => rfl⟩

/-- The tables in the order of the databases, each with its database. -/
def listing (s : Schema) : List (String × String) :=
  s.flatMap fun d => (s.tables d.1).map fun t => (d.1, t.1)

/-- The entry of a table, as its name finds it. -/
def entryOf (s : Schema) (x : String × String) : Entry :=
  (fullName x.1 x.2, columnsLike s x.1 x.2)

/-- The tables listed are those that the schema has. -/
theorem mem_listing {s : Schema} {x : String × String} :
    x ∈ listing s ↔ (s.table x.1 x.2).isSome := by
  rw [Schema.table, List.lookup_isSome_iff]
  simp only [listing, List.mem_flatMap, List.mem_map, beq_iff_eq]
  constructor
  · rintro ⟨d, -, t, ht, rfl⟩
    exact ⟨t, ht, rfl⟩
  · rintro ⟨t, ht, hx⟩
    have hd : (s.lookup x.1).isSome := by
      rw [Schema.tables] at ht
      rcases hl : s.lookup x.1 with _ | ts
      · rw [hl] at ht
        cases ht
      · rfl
    obtain ⟨d, hd, hx1⟩ := List.lookup_isSome_iff.mp hd
    have hname : x.1 = d.1 := by simpa using hx1
    exact ⟨d, hd, t, hname ▸ ht, Prod.ext hname.symm hx.symm⟩

/-! ### Up to a point -/

/-- The tables read to their end, and how many columns of the next one, if it was begun. -/
structure Point where
  tables : ℕ
  columns : Option ℕ
  deriving DecidableEq, Repr

/-- The entries of `l` up to a point. -/
def entriesUpTo (s : Schema) (l : List (String × String)) (p : Point) : List Entry :=
  (l.take p.tables).map (entryOf s) ++
    ((l[p.tables]?).bind fun x =>
      p.columns.map fun n => (fullName x.1 x.2, (columnsLike s x.1 x.2).take n)).toList

variable {s : Schema} {l l' : List (String × String)}

theorem entriesUpTo_none (n : ℕ) : entriesUpTo s l ⟨n, none⟩ = (l.take n).map (entryOf s) := by
  unfold entriesUpTo
  cases l[n]? <;> simp

/-- A point of a list is one of every longer list. -/
theorem entriesUpTo_append (s : Schema) (l l' : List (String × String)) (p : Point) :
    ∃ p', entriesUpTo s (l ++ l') p' = entriesUpTo s l p := by
  by_cases h : p.tables < l.length
  · refine ⟨p, ?_⟩
    unfold entriesUpTo
    rw [List.take_append_of_le_length (by omega), List.getElem?_append_left h]
  · refine ⟨⟨l.length, none⟩, ?_⟩
    rw [entriesUpTo_none, List.take_left]
    unfold entriesUpTo
    rw [List.take_of_length_le (by omega), List.getElem?_eq_none (by omega)]
    simp

/-- A point behind a list that is read completely. -/
theorem entriesUpTo_after (p : Point) :
    l.map (entryOf s) ++ entriesUpTo s l' p =
      entriesUpTo s (l ++ l') ⟨l.length + p.tables, p.columns⟩ := by
  unfold entriesUpTo
  dsimp only
  rw [List.take_length_add_append, List.getElem?_append_right (by omega), Nat.add_sub_cancel_left,
    List.map_append, List.append_assoc]

/-- What is read for the tables `l`: their entries up to a point, all of them if
nothing throws. -/
def ReadsOf (s : Schema) (l : List (String × String)) (read : List Entry × Option SQLException) :
    Prop :=
  (∃ p, read.1 = entriesUpTo s l p) ∧ (read.2 = none → read.1 = l.map (entryOf s))

theorem readsOf_error (e : SQLException) : ReadsOf s l ([], some e) :=
  ⟨⟨⟨0, none⟩, by rw [entriesUpTo_none]; rfl⟩, nofun⟩

/-- A loop over rows each of which reads its tables reads the tables of them all. -/
theorem ReadsOf.all {one : α → List Entry × Option SQLException}
    {tables : α → List (String × String)} (h : ∀ a, ReadsOf s (tables a) (one a)) {rows : List α}
    {q : Except SQLException (ResultSet α)} (hq : Gives rows q) :
    ReadsOf s (rows.flatMap tables) (readAll one q) := by
  rcases q with e | ⟨read, failure⟩
  · exact readsOf_error e
  obtain ⟨⟨rest, hrest⟩, hall⟩ := hq
  have hrows : ∀ read : List α, (∃ p, (readRows one failure read).1 =
        entriesUpTo s (read.flatMap tables) p) ∧
      ((readRows one failure read).2 = none → failure = none ∧
        (readRows one failure read).1 = (read.flatMap tables).map (entryOf s)) := by
    intro read
    induction read with
    | nil => exact ⟨⟨⟨0, none⟩, rfl⟩, fun hf => ⟨hf, rfl⟩⟩
    | cons a read ih =>
      obtain ⟨⟨p, hp⟩, hread⟩ := ih
      obtain ⟨⟨p', hp'⟩, hone⟩ := h a
      rcases ha : one a with ⟨es, _ | e⟩
      · rw [ha] at hone
        have hes : es = (tables a).map (entryOf s) := hone rfl
        simp only [readRows, ha, List.flatMap_cons]
        refine ⟨⟨⟨(tables a).length + p.tables, p.columns⟩, ?_⟩,
          fun hf => ⟨(hread hf).1, ?_⟩⟩
        · rw [hes, hp, entriesUpTo_after]
        · rw [hes, (hread hf).2, List.map_append]
      · rw [ha] at hp'
        obtain ⟨p'', hp''⟩ := entriesUpTo_append s (tables a) (read.flatMap tables) p'
        simp only [readRows, ha, List.flatMap_cons]
        exact ⟨⟨p'', hp'.trans hp''.symm⟩, nofun⟩
  obtain ⟨⟨p, hp⟩, hread⟩ := hrows read
  obtain ⟨p', hp'⟩ := entriesUpTo_append s (read.flatMap tables) (rest.flatMap tables) p
  refine ⟨⟨p', ?_⟩, fun hf => ?_⟩
  · rw [← hrest, List.flatMap_append]
    exact hp.trans hp'.symm
  · obtain ⟨hfail, hes⟩ := hread hf
    have hread' : read = rows := hall hfail
    rw [← hread']
    exact hes

/-- A refresh reads the entries of the tables up to a point. -/
theorem readsOf_entriesRead {connection : Except SQLException DatabaseMetaData}
    (hs : Describes s connection) : ReadsOf s (listing s) (entriesRead connection) := by
  rcases connection with e | metaData
  · exact readsOf_error e
  have htable : ∀ databaseName tableName,
      ReadsOf s [(databaseName, tableName)] (tableRead metaData databaseName tableName) := by
    intro databaseName tableName
    have hgives := hs.columns metaData rfl databaseName tableName
    unfold tableRead
    rcases hq : metaData.getColumns databaseName tableName with e | colSet
    · exact readsOf_error e
    · rw [hq] at hgives
      obtain ⟨hpre, hall⟩ := hgives
      refine ⟨⟨⟨0, some colSet.rows.length⟩, ?_⟩, fun hf => ?_⟩
      · show [_] = [(_, _)]
        rw [← List.prefix_iff_eq_take.mp hpre]
      · show [_] = [entryOf s (databaseName, tableName)]
        rw [entryOf, ← hall hf]
  have hdatabase : ∀ databaseName,
      ReadsOf s ((s.tables databaseName).map fun t => (databaseName, t.1))
        (databaseRead metaData databaseName) := by
    intro databaseName
    have hall := ReadsOf.all (fun tableName => htable databaseName tableName)
      (hs.tables metaData rfl databaseName)
    rwa [List.flatMap_map, ← List.map_eq_flatMap] at hall
  have hall := ReadsOf.all hdatabase (hs.catalogs metaData rfl)
  rwa [List.flatMap_map] at hall

/-- A complete reading has the entry of every table. -/
theorem entriesRead_complete {connection : Except SQLException DatabaseMetaData}
    (hs : Describes s connection) (h : (entriesRead connection).2 = none) :
    (entriesRead connection).1 = (listing s).map (entryOf s) :=
  (readsOf_entriesRead hs).2 h

/-- The map of the tables listed up to a point. -/
def columnsUpTo (s : Schema) (p : Point) : Columns := installed (entriesUpTo s (listing s) p)

/-! ### The law -/

/-- The map from the full name of each table to its columns. -/
structure IsColumnsMap (s : Schema) (cols : Columns) : Prop where
  table : ∀ databaseName tableName t, s.table databaseName tableName = some t →
    cols (fullName databaseName tableName) = some t.columns
  key : ∀ key, (cols key).isSome → ∃ databaseName tableName,
    (s.table databaseName tableName).isSome ∧ key = fullName databaseName tableName

/-- The metadata are read to the end. -/
def Complete : Except SQLException DatabaseMetaData → Prop
  | .error _ => False
  | .ok metaData => (readColumns metaData fun _ => none).2 = none

/-- A refresh that reads the metadata to the end installs the columns of every table,
and any other leaves the map as it is. -/
structure AllOrNothing (s : Schema) (connection : Except SQLException DatabaseMetaData)
    (k : TableInfoKeeper) : Prop where
  all : Complete connection → IsColumnsMap s (k.refreshColumnsMap connection).columnsMap
  nothing : ¬ Complete connection → (k.refreshColumnsMap connection).columnsMap = k.columnsMap

def fullNameOf (x : String × String) : String := fullName x.1 x.2

/-- The name of each table finds its own columns; where tables share a full name, as
`a.b` with `c` and `a` with `b.c` do, that of the last one counts. -/
def FindsOwn (s : Schema) : Prop :=
  ∀ databaseName tableName t, s.table databaseName tableName = some t →
    ∀ x, IsLast fullNameOf (listing s) x → fullNameOf x = fullName databaseName tableName →
      columnsLike s x.1 x.2 = t.columns

theorem complete_iff {connection : Except SQLException DatabaseMetaData} :
    Complete connection ↔ (entriesRead connection).2 = none := by
  rcases connection with e | metaData
  · exact ⟨False.elim, nofun⟩
  · rw [Complete, readColumns_eq]

theorem readRows_complete {one : α → List Entry × Option SQLException}
    (h : ∀ a, (one a).2 = none) (rows : List α) : (readRows one none rows).2 = none := by
  induction rows with
  | nil => rfl
  | cons a rows ih =>
    rcases ha : one a with ⟨es, _ | e⟩
    · simp only [readRows, ha, ih]
    · have hone := h a
      rw [ha] at hone
      cases hone

theorem complete_metaData (s : Schema) : Complete (.ok s.metaData) :=
  complete_iff.mpr (readRows_complete (fun _ => readRows_complete (fun _ => rfl) _) _)

/-- The map installed has, for the last table of a full name, what its name finds. -/
theorem installed_listing {s : Schema} {x : String × String}
    (h : IsLast fullNameOf (listing s) x) :
    installed ((listing s).map (entryOf s)) (fullNameOf x) = some (columnsLike s x.1 x.2) := by
  obtain ⟨before, after, hlist, hafter⟩ := h
  apply installed_of_isLast (e := entryOf s x)
  refine ⟨before.map (entryOf s), after.map (entryOf s), by rw [hlist]; simp, ?_⟩
  intro e he
  obtain ⟨y, hy, rfl⟩ := List.mem_map.mp he
  exact hafter y hy

theorem isColumnsMap_installed (s : Schema) :
    IsColumnsMap s (installed ((listing s).map (entryOf s))) ↔ FindsOwn s := by
  constructor
  · intro h databaseName tableName t ht x hx hname
    have hmap := h.table databaseName tableName t ht
    rw [← hname, installed_listing hx] at hmap
    exact Option.some.inj hmap
  · intro h
    refine ⟨fun databaseName tableName t ht => ?_, fun key hkey => ?_⟩
    · have hmem : (databaseName, tableName) ∈ listing s := mem_listing.mpr (by rw [ht]; rfl)
      obtain ⟨x, hx, hname⟩ := exists_isLast (List.mem_map_of_mem (f := fullNameOf) hmem)
      calc installed ((listing s).map (entryOf s)) (fullName databaseName tableName)
          = installed ((listing s).map (entryOf s)) (fullNameOf x) := congrArg _ hname.symm
        _ = some (columnsLike s x.1 x.2) := installed_listing hx
        _ = some t.columns := congrArg some (h databaseName tableName t ht x hx hname)
    · obtain ⟨e, he, rfl⟩ := List.mem_map.mp (mem_of_installed hkey)
      obtain ⟨x, hx, rfl⟩ := List.mem_map.mp he
      exact ⟨x.1, x.2, mem_listing.mp hx, rfl⟩

/-- A keeper that knows the table `app.user`. -/
def knowing : TableInfoKeeper := init (.ok (Schema.metaData [("app", [("user", userTable)])]))

/-- A connection that breaks off behind the first column of a table. -/
def interrupted : Except SQLException DatabaseMetaData :=
  .ok { Schema.metaData [("app", [("user", userTable')])] with
    getColumns := fun databaseName pattern =>
      .ok ⟨(columnsLike [("app", [("user", userTable')])] databaseName pattern).take 1,
        some ⟨"Communications link failure"⟩⟩ }

theorem describes_interrupted : Describes [("app", [("user", userTable')])] interrupted where
  catalogs metaData h := by
    cases h
    exact ⟨List.prefix_rfl, fun _ => rfl⟩
  tables metaData h databaseName := by
    cases h
    exact ⟨List.prefix_rfl, fun _ => rfl⟩
  columns metaData h databaseName pattern := by
    cases h
    exact ⟨List.take_prefix _ _, nofun⟩

/-- Two tables, and the name of the first finds both. -/
def twoTables : Schema := [("app", [("a_b", userTable), ("axb", userTable')])]

end TableInfoKeeper
end CloudManager
