/-
# The connections the keeper borrows

Each of the keeper's calls takes a connection from the data source; the three
queries close their statement and its result set, and no call closes its
connection. So the connections borrowed and not closed only grow: after a run
they are the calls that got one, up to the size of the pool
(`connections_foldl`). A sequence of calls leaves none borrowed exactly if the
data source gives none of them a connection (`returned_iff`).

Once the pool is exhausted a refresh finds no connection, and installs an empty
map; from then on every row is dropped (`getMap_of_exhausted`).
-/
import CloudManager.Commons.InstanceListener
import CloudManager.Lib.Runs

namespace CloudManager

/-- Where the server's binlog is. -/
structure BinlogInfo where
  binlogName : Option String := none
  fileSize : Option Int := none
  position : Int := 0
  deriving DecidableEq, Repr

namespace TableInfoKeeper

open Runs

/-! ### The pool -/

/-- A data source of `size` connections, with those borrowed and not closed. -/
structure Pool where
  size : ℕ
  connections : ℕ := 0
  deriving DecidableEq, Repr

/-- What a call throws. -/
inductive Thrown
  /-- The pool has no connection left. -/
  | noConnection
  | sql (e : SQLException)
  deriving DecidableEq, Repr

def Thrown.exception : Thrown → SQLException
  | .noConnection => ⟨"no connection"⟩
  | .sql e => e

def Pool.Exhausted (p : Pool) : Prop := p.size ≤ p.connections

instance (p : Pool) : Decidable p.Exhausted := inferInstanceAs (Decidable (_ ≤ _))

/-- `getConnection`; with connections left it can be `refused` for another reason. -/
def Pool.getConnection (p : Pool) (refused : Option SQLException) : Except Thrown Unit × Pool :=
  if p.Exhausted then (.error .noConnection, p)
  else
    match refused with
    | some e => (.error (.sql e), p)
    | none => (.ok (), { p with connections := p.connections + 1 })

/-! ### The calls -/

/-- What the database answers to a query, and what each call on the way throws. -/
structure Query (α : Type) where
  refused : Option SQLException := none
  createStatement : Option SQLException := none
  executeQuery : Except SQLException (ResultSet α)
  closeResultSet : Option SQLException := none
  closeStatement : Option SQLException := none

namespace Query

variable {α γ : Type}

/-- The loop over the rows: each is put into `c`. -/
def rows (body : γ → α → γ) (c : γ) (rs : ResultSet α) : Except Thrown γ :=
  match rs.failure with
  | some e => .error (.sql e)
  | none => .ok (rs.rows.foldl body c)

/-- A `finally` block: the first close that throws ends it, in the place of the
result. -/
def closing (closes : List (Option SQLException)) (r : Except Thrown γ) : Except Thrown γ :=
  match closes.findSome? id with
  | some e => .error (.sql e)
  | none => r

/-- A query over a new connection; of what it opens the statement and the result
set are closed. -/
def run (q : Query α) (body : γ → α → γ) (c : γ) (p : Pool) : Except Thrown γ × Pool :=
  match p.getConnection q.refused with
  | (.error e, p) => (.error e, p)
  | (.ok _, p) =>
    match q.createStatement with
    | some e => (.error (.sql e), p)
    | none =>
      match q.executeQuery with
      | .error e => (closing [q.closeStatement] (.error (.sql e)), p)
      | .ok rs => (closing [q.closeResultSet, q.closeStatement] (rows body c rs), p)

end Query

/-- `show master status`, of the columns `File` and `Position`. -/
def getBinlogInfo (q : Query (Option String × Int)) : Pool → Except Thrown BinlogInfo × Pool :=
  q.run (fun binlogInfo row => { binlogInfo with binlogName := row.1, position := row.2 }) {}

/-- `show binary logs`, of the columns `Log_name` and `File_size`. -/
def getBinlogInfos (q : Query (Option String × Int)) :
    Pool → Except Thrown (List BinlogInfo) × Pool :=
  q.run (fun list row => list ++ [{ binlogName := row.1, fileSize := some row.2 }]) []

/-- `show variables like 'server_id'`, of the column `Value`. -/
def getMasterServerId (q : Query Int) : Pool → Except Thrown Int × Pool :=
  q.run (fun _ value => value) 0

/-- What `getConnection().getMetaData()` comes to. -/
def metaDataOf (r : Except Thrown Unit) (metaData : Except SQLException DatabaseMetaData) :
    Except SQLException DatabaseMetaData :=
  match r with
  | .error e => .error e.exception
  | .ok _ => metaData

/-- A call on the keeper, with how the database takes it. -/
inductive Call
  | refreshColumnsMap (refused : Option SQLException)
      (metaData : Except SQLException DatabaseMetaData)
  | getBinlogInfo (q : Query (Option String × Int))
  | getBinlogInfos (q : Query (Option String × Int))
  | getMasterServerId (q : Query Int)

/-- Why the data source refuses the call a connection, if it does. -/
def Call.refused : Call → Option SQLException
  | .refreshColumnsMap refused _ => refused
  | .getBinlogInfo q => q.refused
  | .getBinlogInfos q => q.refused
  | .getMasterServerId q => q.refused

/-- The keeper and its data source. -/
structure Source where
  keeper : TableInfoKeeper
  pool : Pool

def step (s : Source) : Call → Source
  | .refreshColumnsMap refused metaData =>
    let (r, pool) := s.pool.getConnection refused
    ⟨s.keeper.refreshColumnsMap (metaDataOf r metaData), pool⟩
  | .getBinlogInfo q => { s with pool := (getBinlogInfo q s.pool).2 }
  | .getBinlogInfos q => { s with pool := (getBinlogInfos q s.pool).2 }
  | .getMasterServerId q => { s with pool := (getMasterServerId q s.pool).2 }

/-- No connection is borrowed after the call, which did not fail for lack of one. -/
def Returned (s : Source) (c : Call) : Prop :=
  (step s c).pool.connections = 0 ∧
    (s.pool.getConnection c.refused).1 ≠ .error .noConnection

instance (s : Source) (c : Call) : Decidable (Returned s c) := inferInstanceAs (Decidable (_ ∧ _))

/-! ### What a call does to the pool -/

/-- A query leaves the pool as `getConnection` does. -/
theorem Query.run_pool {α γ : Type} (q : Query α) (body : γ → α → γ) (c : γ) (p : Pool) :
    (q.run body c p).2 = (p.getConnection q.refused).2 := by
  unfold Query.run
  rcases p.getConnection q.refused with ⟨e | u, p'⟩
  · rfl
  · dsimp only
    cases q.createStatement with
    | some e => rfl
    | none =>
      dsimp only
      rcases q.executeQuery with e | rs <;> rfl

/-- Every call takes a connection, and gives none back. -/
theorem step_pool (s : Source) (c : Call) :
    (step s c).pool = (s.pool.getConnection c.refused).2 := by
  cases c with
  | refreshColumnsMap refused metaData => rfl
  | getBinlogInfo q => exact q.run_pool _ _ s.pool
  | getBinlogInfos q => exact q.run_pool _ _ s.pool
  | getMasterServerId q => exact q.run_pool _ _ s.pool

theorem getConnection_refused {p : Pool} {refused : Option SQLException} (h : refused.isSome) :
    (p.getConnection refused).2 = p := by
  obtain ⟨e, rfl⟩ := Option.isSome_iff_exists.mp h
  unfold Pool.getConnection
  by_cases hp : p.Exhausted <;> simp [hp]

theorem getConnection_accepted (p : Pool) :
    (p.getConnection none).2 = { p with connections := if p.Exhausted then p.connections else
      p.connections + 1 } := by
  unfold Pool.getConnection
  by_cases hp : p.Exhausted <;> simp [hp]

/-- A pool with all its connections free does not lack one. -/
theorem getConnection_ne_noConnection {p : Pool} (hsize : 0 < p.size) (h : p.connections = 0)
    (refused : Option SQLException) : (p.getConnection refused).1 ≠ .error .noConnection := by
  have hp : ¬ p.Exhausted := by
    unfold Pool.Exhausted
    omega
  unfold Pool.getConnection
  cases refused <;> simp [hp]

/-- From a free pool a call returns what it borrows exactly if it gets nothing. -/
theorem returned_iff_refused {s : Source} (hsize : 0 < s.pool.size)
    (h : s.pool.connections = 0) (c : Call) : Returned s c ↔ c.refused.isSome := by
  have hlack := getConnection_ne_noConnection hsize h c.refused
  unfold Returned
  rw [step_pool, and_iff_left hlack]
  cases hc : c.refused with
  | some e =>
    rw [getConnection_refused rfl]
    simpa using h
  | none =>
    have hp : ¬ s.pool.Exhausted := by
      unfold Pool.Exhausted
      omega
    rw [getConnection_accepted, if_neg hp]
    simp

/-! ### Runs -/

@[simp] theorem size_step (s : Source) (c : Call) : (step s c).pool.size = s.pool.size := by
  rw [step_pool]
  unfold Pool.getConnection
  split
  · rfl
  · split <;> rfl

/-- A keeper beside a pool none of whose connections is borrowed. -/
def Source.start (k : TableInfoKeeper) (size : ℕ) : Source := ⟨k, { size := size }⟩

/-- **Connections.** Every call of a sequence leaves no connection borrowed, and none
lacks one, exactly if the data source refuses a connection to each. -/
theorem returned_iff (k : TableInfoKeeper) (size : ℕ) (hsize : 0 < size) (calls : List Call) :
    Along step Returned (Source.start k size) calls ↔ ∀ c ∈ calls, c.refused.isSome := by
  let I (s : Source) : Prop := 0 < s.pool.size ∧ s.pool.connections = 0
  have hstart : I (Source.start k size) := ⟨hsize, rfl⟩
  have hkeep : ∀ s c, I s → Returned s c → I (step s c) := fun s c hI hc =>
    ⟨(size_step s c).symm ▸ hI.1, hc.1⟩
  calc Along step Returned (Source.start k size) calls
      ↔ Along step (fun _ c => c.refused.isSome) (Source.start k size) calls :=
        along_iff (fun s c hI => returned_iff_refused hI.1 hI.2 c) hkeep calls hstart
    _ ↔ ∀ c ∈ calls, c.refused.isSome := along_const _ calls

/-- The connections borrowed are the calls that were not refused, up to the size of
the pool. -/
theorem connections_foldl (s : Source) (h : s.pool.connections ≤ s.pool.size)
    (calls : List Call) :
    (calls.foldl step s).pool.connections =
      min s.pool.size (s.pool.connections + calls.countP (·.refused.isNone)) := by
  induction calls generalizing s with
  | nil => simp [h]
  | cons c calls ih =>
    have hstep : (step s c).pool.connections =
        min s.pool.size (s.pool.connections + if c.refused.isNone then 1 else 0) := by
      rw [step_pool]
      cases hc : c.refused with
      | some e => simp [getConnection_refused, h]
      | none =>
        rw [getConnection_accepted]
        by_cases hp : s.pool.size ≤ s.pool.connections
        · simp [Pool.Exhausted, hp]
          omega
        · simp [Pool.Exhausted, hp]
          omega
    rw [List.foldl_cons, ih (step s c) (by rw [size_step, hstep]; omega), size_step, hstep,
      List.countP_cons]
    omega

/-! ### The rows after that -/

/-- A refresh that finds no connection empties the map. -/
theorem getColumns_of_exhausted {s : Source} (h : s.pool.Exhausted)
    (refused : Option SQLException) (metaData : Except SQLException DatabaseMetaData)
    (fullName : String) :
    (step s (.refreshColumnsMap refused metaData)).keeper.getColumns fullName = none := by
  simp only [step, Pool.getConnection, if_pos h, metaDataOf]
  rfl

/-- In a pool all of whose connections have been taken, a refresh makes the listener
drop every row, of whatever table. -/
theorem getMap_of_exhausted (k : TableInfoKeeper) {size : ℕ} {calls : List Call}
    (h : size ≤ calls.countP (·.refused.isNone)) (refused : Option SQLException)
    (metaData : Except SQLException DatabaseMetaData) (env : InstanceListener.Env)
    (cols : Row) (databaseName tableName : String) :
    let s := step (calls.foldl step (Source.start k size)) (.refreshColumnsMap refused metaData)
    InstanceListener.getMap env s.keeper cols databaseName tableName = (none, s.keeper) := by
  have hsize : ∀ (calls : List Call) (s : Source),
      (calls.foldl step s).pool.size = s.pool.size := by
    intro calls
    induction calls with
    | nil => exact fun s => rfl
    | cons c calls ih => exact fun s => (ih (step s c)).trans (size_step s c)
  have hexhausted : (calls.foldl step (Source.start k size)).pool.Exhausted := by
    unfold Pool.Exhausted
    rw [hsize, connections_foldl _ (Nat.zero_le _)]
    show size ≤ min size (0 + _)
    omega
  exact InstanceListener.getMap_of_uncached (getColumns_of_exhausted hexhausted refused metaData _)

/-! ### Two calls -/

/-- A database without tables. -/
def noTables : DatabaseMetaData where
  getCatalogs := .ok ⟨[], none⟩
  getTables _ := .ok ⟨[], none⟩
  getColumns _ _ := .ok ⟨[], none⟩

/-- A database that is down. -/
def down : SQLException := ⟨"Communications link failure"⟩

theorem returned_down :
    Along step Returned (Source.start (init (.error down)) 2)
        [.refreshColumnsMap (some down) (.ok noTables), .getMasterServerId ⟨some down, none,
          .ok ⟨[1], none⟩, none, none⟩] ↔
      ∀ c ∈ ([.refreshColumnsMap (some down) (.ok noTables), .getMasterServerId ⟨some down, none,
          .ok ⟨[1], none⟩, none, none⟩] : List Call), c.refused.isSome :=
  returned_iff _ 2 (by decide) _

/-- A refresh keeps its connection: with one in the pool, the next call lacks one. -/
theorem connection_leaked :
    (¬ ∀ (k : TableInfoKeeper) (size : ℕ) (calls : List Call), 0 < size →
      Along step Returned (Source.start k size) calls) ∧
    ((step (Source.start (init (.error down)) 1)
      (.refreshColumnsMap none (.ok noTables))).pool.getConnection none).1 =
        .error .noConnection := by
  refine ⟨fun h => ?_, by decide⟩
  have hlaw := h (init (.error down)) 1 [.refreshColumnsMap none (.ok noTables)] (by decide)
  revert hlaw
  decide

end TableInfoKeeper
end CloudManager
