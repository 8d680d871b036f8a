/-
# Complete capture

The names of a row event's values come from the cache that the listener fills at
its start from the schema's description (`described`), and refreshes when a row's
length does not fit, at no other time and too late for that row. A change once missed
or misnamed stays so: the queue never has more changes than were written
(`length_changes_le`), and no later event repairs it (`complete_of_later`).

`captured_iff`: a run's capture is complete exactly if each row event of it is of a
table that still has the column names that the schema of the listener's start lists
under its full name.
-/
import CloudManager.Commons.ColumnRefresh

namespace CloudManager
namespace ChangeCapture

open InstanceListener Runs

/-! ### What the listener's start finds -/

/-- The column names that the description of a schema lists under a table's full name:
those that the name of its last table finds, as a LIKE pattern. -/
def described (s : Schema) (databaseName tableName : String) : Option (List String) :=
  ((TableInfoKeeper.listing s).filter fun x =>
      TableInfoKeeper.fullNameOf x = TableInfoKeeper.fullName databaseName tableName).getLast?.map
    fun x => (TableInfoKeeper.columnsLike s x.1 x.2).map (·.name)

theorem installed_getLast? (es : List TableInfoKeeper.Entry) (key : String) :
    TableInfoKeeper.installed es key = ((es.filter (·.1 = key)).getLast?).map Prod.snd := by
  unfold TableInfoKeeper.installed
  induction es using List.reverseRecOn with
  | nil => rfl
  | append_singleton es e ih =>
    rw [List.foldl_concat, List.filter_append, TableInfoKeeper.put]
    by_cases he : e.1 = key
    · subst he
      simp
    · rw [Function.update_of_ne (Ne.symm he), ih]
      simp [he]

/-- The listener's start caches what the description lists. -/
theorem getColumns_init (s : Schema) (databaseName tableName : String) :
    ((TableInfoKeeper.init (.ok s.metaData)).getColumns
      (TableInfoKeeper.fullName databaseName tableName)).map (·.map (·.name)) =
        described s databaseName tableName := by
  have hs := TableInfoKeeper.describes_metaData s
  have hread : (TableInfoKeeper.entriesRead (.ok s.metaData)).2 = none :=
    TableInfoKeeper.complete_iff.mp (TableInfoKeeper.complete_metaData s)
  show ((TableInfoKeeper.refreshColumnsMap _ _).columnsMap _).map _ = _
  rw [TableInfoKeeper.columnsMap_refresh, TableInfoKeeper.entriesRead_complete hs hread,
    installed_getLast?, described, List.filter_map, List.getLast?_map, Option.map_map, Option.map_map]
  rfl

/-- A row event that has rows is of a table with the column names that the schema of the
listener's start lists under its full name. -/
def Unchanged (initial : Schema) (w : World) : Event → Prop
  | .evolve _ => True
  | .write _ e => ∀ x ∈ rowsOf e, x.2 ≠ [] → ∀ id ∈ w.tableOf x.1,
      described initial id.1 id.2.1 = some id.2.2.names

instance (initial : Schema) (w : World) : ∀ e, Decidable (Unchanged initial w e)
  | .evolve _ => .isTrue trivial
  | .write _ e => inferInstanceAs (Decidable (∀ x ∈ rowsOf e, x.2 ≠ [] → ∀ id ∈ w.tableOf x.1,
      described initial id.1 id.2.1 = some id.2.2.names))

/-! ### While nothing is missed -/

/-- The queue is complete, and the listener knows the ids and the columns of its start. -/
structure Inv (initial : Schema) (w : World) : Prop where
  complete : Complete w
  tableIds : ∀ tableId, w.listener.tableInfoKeeper.getTableInfo tableId =
    (w.tableIds tableId).map fun id => ⟨id.1, id.2, TableInfoKeeper.fullName id.1 id.2⟩
  columnsMap : w.listener.tableInfoKeeper.columnsMap =
    (TableInfoKeeper.init (.ok initial.metaData)).columnsMap

theorem inv_start (schema : Schema) : Inv schema (start schema) := by
  have h : (TableInfoKeeper.init (.ok schema.metaData)).tabledIdMap = fun _ => none :=
    TableInfoKeeper.refreshColumnsMap_tabledIdMap _ _
  exact ⟨rfl, fun tableId => congrFun h tableId, rfl⟩

variable {initial : Schema} {toLowerCase : String → String} {w w' : World} {e : Event}

/-- The names cached are those described at the start. -/
theorem Inv.namesCached_iff (h : Inv initial w) (databaseName tableName fullName : String)
    (t : Table) :
    NamesCached w.listener ⟨databaseName, tableName, fullName⟩ t ↔
      described initial databaseName tableName = some t.names := by
  rw [← getColumns_init]
  unfold NamesCached TableInfoKeeper.getColumns
  rw [h.columnsMap]

theorem columnsMap_receive {env : Env} {s : InstanceListener.State} {header : EventHeader}
    {e : BinlogEvent} (hrows : rowsOf e = none) :
    (receive env s header e).tableInfoKeeper.columnsMap = s.tableInfoKeeper.columnsMap := by
  rcases e with _ | _ | _ | _ | ⟨databaseName, sql⟩ | _
  case tableMap => rfl
  case other => rfl
  case query =>
    rw [receive_query]
    rcases createTableInfo env databaseName sql with m | _ | info <;> rfl
  all_goals cases hrows

/-- A row event is of the table its id stands for, with rows of that table's length. -/
theorem step_rows {header : EventHeader} {e : BinlogEvent} {tableId : Int}
    {rows : List (Option Row × Option Row)} (hrows : rowsOf e = some (tableId, rows))
    (he : step toLowerCase w (.write header e) = some w') :
    ∃ databaseName tableName t, w.tableIds tableId = some (databaseName, tableName) ∧
      w.tableOf tableId = some (databaseName, tableName, t) ∧
      (∀ row ∈ rows, Fits t row.1 ∧ Fits t row.2) ∧
      w' = { w with listener := receive (env toLowerCase w) w.listener header e,
                    written := w.written ++ rows.map (change header databaseName tableName t) } := by
  unfold step at he
  simp only [hrows] at he
  obtain ⟨⟨databaseName, tableName, t⟩, ht, he⟩ := Option.bind_eq_some_iff.mp he
  simp only [Option.ite_none_right_eq_some, Option.some.injEq] at he
  obtain ⟨hfits, rfl⟩ := he
  obtain ⟨id, hid, hidt⟩ := Option.bind_eq_some_iff.mp ht
  obtain ⟨t', -, hids⟩ := Option.map_eq_some_iff.mp hidt
  simp only [Prod.mk.injEq] at hids
  obtain ⟨rfl, rfl, rfl⟩ := hids
  exact ⟨id.1, id.2, t', hid, ht, hfits, rfl⟩

theorem inv_step (h : Inv initial w) (hc : Unchanged initial w e)
    (he : step toLowerCase w e = some w') : Inv initial w' := by
  cases e with
  | evolve schema =>
    simp only [step, Option.some.injEq] at he
    subst he
    exact ⟨h.complete, h.tableIds, h.columnsMap⟩
  | write header e =>
    rcases hrows : rowsOf e with _ | ⟨tableId, rows⟩
    · simp only [step, hrows, Option.some.injEq] at he
      subst he
      exact ⟨(changes_receive _ header hrows).trans h.complete,
        tableIds_receive _ header hrows h.tableIds, (columnsMap_receive hrows).trans h.columnsMap⟩
    · obtain ⟨databaseName, tableName, t, hid, ht, hfits, rfl⟩ := step_rows hrows he
      have hinfo : w.listener.tableInfoKeeper.getTableInfo tableId =
          some ⟨databaseName, tableName, TableInfoKeeper.fullName databaseName tableName⟩ := by
        rw [h.tableIds, hid]
        rfl
      have hadds := adds_rowEvent (env toLowerCase w) header hrows hinfo
        (fun hne => (h.namesCached_iff _ _ _ t).mpr (hc (tableId, rows) hrows hne _ ht)) hfits
      refine ⟨?_, fun tableId' => ?_, ?_⟩
      · show changes _ = w.written ++ _
        rw [hadds.2]
        exact congrArg (· ++ _) h.complete
      · show (receive (env toLowerCase w) w.listener header e).tableInfoKeeper.getTableInfo _ = _
        rw [hadds.1]
        exact h.tableIds tableId'
      · show (receive (env toLowerCase w) w.listener header e).tableInfoKeeper.columnsMap = _
        rw [hadds.1]
        exact h.columnsMap

/-! ### What is missed stays missed -/

/-- A step adds changes, and not more than it writes. -/
theorem step_adds (he : step toLowerCase w e = some w') : ∃ cs rs,
    changes w'.listener.queue = changes w.listener.queue ++ cs ∧ w'.written = w.written ++ rs ∧
      cs.length ≤ rs.length := by
  cases e with
  | evolve schema =>
    simp only [step, Option.some.injEq] at he
    subst he
    exact ⟨[], [], by simp, by simp, Nat.le_refl 0⟩
  | write header e =>
    rcases hrows : rowsOf e with _ | ⟨tableId, rows⟩
    · simp only [step, hrows, Option.some.injEq] at he
      subst he
      exact ⟨[], [], by simp [changes_receive _ header hrows], by simp, Nat.le_refl 0⟩
    · obtain ⟨databaseName, tableName, t, -, -, -, rfl⟩ := step_rows hrows he
      obtain ⟨cs, hcs, hlen⟩ := receive_atMost (env toLowerCase w) (s := w.listener) header hrows
      exact ⟨cs, _, hcs, rfl, by rwa [List.length_map]⟩

/-- The queue has no more changes than were written. -/
theorem length_changes_le (h : (changes w.listener.queue).length ≤ w.written.length)
    (he : step toLowerCase w e = some w') :
    (changes w'.listener.queue).length ≤ w'.written.length := by
  obtain ⟨cs, rs, hcs, hrs, hlen⟩ := step_adds he
  rw [hcs, hrs, List.length_append, List.length_append]
  omega

/-- A queue that is complete after a step was complete before it. -/
theorem complete_of_later (h : (changes w.listener.queue).length ≤ w.written.length)
    (he : step toLowerCase w e = some w') (hc : Complete w') : Complete w := by
  obtain ⟨cs, rs, hcs, hrs, hlen⟩ := step_adds he
  unfold Complete at hc ⊢
  rw [hcs, hrs] at hc
  have hall := congrArg List.length hc
  rw [List.length_append, List.length_append] at hall
  exact (List.append_inj hc (by omega)).1

/-- A row event whose table has other names now loses its first row's change. -/
theorem unchanged_of_complete (h : Inv initial w) (he : step toLowerCase w e = some w')
    (hc : Complete w') : Unchanged initial w e := by
  cases e with
  | evolve schema => trivial
  | write header e =>
    rintro ⟨tableId, rows⟩ hrows hne id hid
    obtain ⟨databaseName, tableName, t, hids, ht, hfits, rfl⟩ := step_rows hrows he
    obtain rfl : (databaseName, tableName, t) = id := Option.some.inj (ht.symm.trans hid)
    by_contra hnames
    have hinfo : w.listener.tableInfoKeeper.getTableInfo tableId =
        some ⟨databaseName, tableName, TableInfoKeeper.fullName databaseName tableName⟩ := by
      rw [h.tableIds, hids]
      rfl
    obtain ⟨row, rest, rfl⟩ := List.exists_cons_of_ne_nil hne
    obtain ⟨cs, cs', hcs, hlen, hlen', hfirst⟩ := misses_rowEvent (env toLowerCase w) header hrows
      hinfo (fun hcached => hnames ((h.namesCached_iff _ _ _ t).mp hcached))
      (hfits row List.mem_cons_self)
    have hall : cs ++ cs' = (row :: rest).map (change header databaseName tableName t) := by
      have hqueue : changes w.listener.queue ++ (cs ++ cs') =
          w.written ++ (row :: rest).map (change header databaseName tableName t) := by
        rw [← hcs]
        exact hc
      exact List.append_cancel_left (h.complete ▸ hqueue)
    have htotal := congrArg List.length hall
    rw [List.length_append, List.length_map, List.length_cons] at htotal
    rw [List.map_cons, ← List.singleton_append] at hall
    exact hfirst (List.append_inj hall (by rw [List.length_singleton]; omega)).1

/-! ### Runs -/

/-- **Completeness.** In every run the queue holds one event for each row written, in order,
under the column names of its table, exactly if all row events of the run are of tables with
the names that the schema of the listener's start lists. -/
theorem captured_iff (toLowerCase : String → String) (schema : Schema) {w : World}
    (h : Reach (step toLowerCase) (fun _ _ => True) (start schema) w) :
    Complete w ↔ Reach (step toLowerCase) (Unchanged schema) (start schema) w := by
  have hinv : ∀ {w}, Reach (step toLowerCase) (Unchanged schema) (start schema) w → Inv schema w :=
    fun h => h.invariant (inv_start schema) fun _ _ _ hi hc he => inv_step hi hc he
  refine ⟨?_, fun h => (hinv h).complete⟩
  -- along the run: as long as the queue is complete, each event met the condition
  refine (h.invariant (I := fun w => (changes w.listener.queue).length ≤ w.written.length ∧
    (Complete w → Reach (step toLowerCase) (Unchanged schema) (start schema) w))
    ⟨Nat.le_refl 0, fun _ => .init⟩ ?_).2
  rintro w e w' ⟨hlen, hrun⟩ - he
  refine ⟨length_changes_le hlen he, fun hc => ?_⟩
  have hw := hrun (complete_of_later hlen he hc)
  exact hw.step (unchanged_of_complete (hinv hw) he hc) he

def userHeader : EventHeader := ⟨0, 23, 1, 0, 4, 100⟩

/-- Rows of one table are written, updated and deleted. -/
def oneSchema : List Event :=
  [.write userHeader (.tableMap 7 "app" "user"),
    .write userHeader (.writeRows 7 [[some "1", some "ann"], [some "2", none]]),
    .write userHeader (.query "app" "create table tag (id int)"),
    .write userHeader (.updateRows 7 [([some "2", none], [some "2", some "bob"])]),
    .write userHeader (.deleteRows 7 [[some "1", some "ann"]])]

theorem captured_oneSchema :
    let w := (runWith (step id) (fun _ _ => True) (start [("app", [("user", userTable')])])
      oneSchema).get (by decide)
    Complete w ↔ Reach (step id) (Unchanged [("app", [("user", userTable')])])
      (start [("app", [("user", userTable')])]) w :=
  captured_iff id _ (reach_get oneSchema (by decide))

/-- A column is added, and then two rows are written: the first is dropped. -/
def columnAdded : List Event :=
  [.evolve [("app", [("user", userTable')])],
    .write userHeader (.tableMap 7 "app" "user"),
    .write userHeader (.writeRows 7 [[some "1", some "ann"], [some "2", none]])]

/-- In some run the first row after a schema change is lost. -/
theorem first_row_dropped : ¬ ∀ (schema : Schema) (w : World),
    Reach (step id) (fun _ _ => True) (start schema) w → Complete w := fun h =>
  absurd (h [("app", [("user", userTable)])] _ (reach_get columnAdded (by decide))) (by decide)

end ChangeCapture
end CloudManager
