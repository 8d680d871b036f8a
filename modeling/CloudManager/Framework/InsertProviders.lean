/-
# Columns and values of the insert providers' statements

The providers list the columns with one helper and the values with another,
each with its own rule for what is left out. `aligned_iff`: in a statement that
is built, the column list and each tuple hold the same columns in the same
order, unless it is MySQL's `mergeInto` of an entity whose key is generated by
the database: that lists the id and leaves its value out.
-/
import CloudManager.Framework.InsertScript
import CloudManager.Lib.Sequences

namespace CloudManager
namespace InsertProviders

variable {V : Type*} (x : Context V) (e : EntityClass)

/-! ### SqlHelper and ProviderHelper -/

/-- What the loops leave out: a column that is not insertable, and an id when
ids are skipped. -/
def listed (skipId : Bool) (columnList : List EntityColumn) : List EntityColumn :=
  columnList.filter fun column => !(!column.insertable || (skipId && column.id))

/-- `SqlHelper.insertColumns` with neither `notNull` nor `notEmpty`. -/
def insertColumns (skipId : Bool) : Node :=
  .trim ⟨"(", ")", (listed skipId e.columns).map .column⟩

namespace ProviderHelper

/-- No column has a value of its own any more. -/
def allowInsert (_ : EntityColumn) : Bool := false

/-- The loop has no body any more. -/
def getBindSql : List Node := []

def getDynamicColumnSql (columnList : List EntityColumn) (skipId : Bool) (entityName : String) :
    Trim where
  opening := "("
  closing := ")"
  body := (listed skipId columnList).flatMap fun column =>
    if allowInsert column then [.column column]
    else [.ifNotNull entityName column (.column column)]

def getDynamicColumnValuesSql (columnList : List EntityColumn) (skipId : Bool)
    (entityName : String) : Trim where
  opening := "VALUES("
  closing := ")"
  body := (listed skipId columnList).flatMap fun column =>
    (if allowInsert column then [.ifIsNull entityName column (.holder "" column "_bind")] else []) ++
      [.ifNotNull entityName column (.holder entityName column "")]

def getColumnValuesSql (entityName opening closing : String) (columnList : List EntityColumn)
    (skipId : Bool) : Trim where
  opening := opening
  closing := closing
  body := (listed skipId columnList).flatMap fun column =>
    [.ifNotNull entityName column (.holder entityName column ""),
      if allowInsert column then .ifIsNull entityName column (.holder "" column "_bind")
      else .ifIsNull entityName column (.holder entityName column "")]

def updateSetColumns (entityName : String) (notNull : Bool) : Trim where
  opening := "SET"
  closing := ""
  body := (e.columns.filter (!·.id)).map fun column =>
    .ifHasField column.property
      (if notNull then .ifNotNull entityName column (.equalsHolder entityName column)
      else .equalsHolder entityName column)

end ProviderHelper

open ProviderHelper

def isIncrement (column : EntityColumn) : Bool :=
  column.generator.any (JavaString.equalsIgnoreCase "JDBC")

/-- `getPKColumns(..).iterator().next()`, which throws without columns. -/
def PKColumn : Option EntityColumn := (getPKColumns e).head?

/-! ### The providers -/

namespace MySqlInsertProvider

def duplicateSelectiveByPrimaryKey : Option Script :=
  some (.nodes
    [.bind "fields" (.ibatis "fieldToString(_parameter)"),
      .text (x.insertIntoTable e), .text "(", .bindValue "fields", .text ")", .text " VALUES ",
      .foreach "records" "record" ","
        ⟨"(", ")", e.columns.map fun column =>
          .ifIbatis ("hasField(_parameter,'" ++ column.property ++ "')")
            (.holder "record" column "")⟩,
      .update "ON DUPLICATE KEY UPDATE",
      .trim ⟨"", "", (e.columns.filter (!·.id)).map fun column =>
        .ifIbatis ("hasField(_parameter,'" ++ column.property ++ "')") (.equalsValues column)⟩])

def insertList : Option Script :=
  (PKColumn e).map fun pk =>
    .whenNotEmpty "list"
      (getBindSql ++
        ([.text (x.insertIntoTable e), insertColumns e (isIncrement pk), .text " VALUES ",
          .foreach "list" "record" ","
            (getColumnValuesSql "record" "(" ")" e.columns (isIncrement pk))] : List Node))
      "SELECT 1 FROM DUAL"

def mergeInto : Option Script :=
  (PKColumn e).map fun pk =>
    .nodes (getBindSql ++
      ([.text "REPLACE  INTO ", .text (x.getDynamicTableName e), insertColumns e false,
        .trim (getColumnValuesSql "" "VALUES(" ")" e.columns (isIncrement pk))] : List Node))

def mergeIntoSelective : Option Script :=
  (PKColumn e).map fun pk =>
    .nodes (getBindSql ++
      ([.text "REPLACE  INTO ", .text (x.getDynamicTableName e),
        .trim (getDynamicColumnSql e.columns (isIncrement pk) ""),
        .trim (getDynamicColumnValuesSql e.columns (isIncrement pk) "")] : List Node))

end MySqlInsertProvider

/-- `MERGE INTO` of the Oracle and SQL Server providers, up to the column list. -/
def mergeUsing (call : Call) : List Node :=
  getBindSql ++
    ([.bind "using" call, .text "MERGE INTO ", .text (x.getDynamicTableName e), .text " T USING ",
      .bindValue "using", .text " WHEN NOT MATCHED THEN INSERT"] : List Node)

namespace OracleInsertProvider

def usingCall : Call := .ibatis "mergeUsing(_parameter,\" FROM DUAL\")"

def insertList : Option Script :=
  (PKColumn e).map fun _ =>
    .whenNotEmpty "list"
      (getBindSql ++
        ([.text (x.insertIntoTable e), insertColumns e false,
          .foreach "list" "record" "UNION ALL"
            (getColumnValuesSql "record" "(SELECT" " FROM DUAL)" e.columns false)] : List Node))
      "SELECT 1 FROM DUAL"

def mergeInto : Option Script :=
  some (.nodes (mergeUsing x e usingCall ++
    ([insertColumns e false, .trim (getColumnValuesSql "record" "VALUES(" ")" e.columns false),
      .update "WHEN MATCHED THEN UPDATE ",
      .text (x.updateSetColumns e "record" false false)] : List Node)))

def mergeIntoSelective : Option Script :=
  some (.nodes (mergeUsing x e usingCall ++
    ([.trim (getDynamicColumnSql e.columns false "record"),
      .trim (getDynamicColumnValuesSql e.columns false "record"),
      .update "WHEN MATCHED THEN UPDATE ",
      .text (x.updateSetColumns e "record" true x.notEmpty)] : List Node)))

def mergeIntoForField : Option Script :=
  some (.nodes (mergeUsing x e usingCall ++
    ([.trim (getDynamicColumnSql e.columns false "record"),
      .trim (getDynamicColumnValuesSql e.columns false "record"),
      .update "WHEN MATCHED THEN UPDATE ", .trim (updateSetColumns e "record" false)] : List Node)))

end OracleInsertProvider

namespace SqlServerInsertProvider

def usingCall : Call := .mergeUsing ""

def insertList : Option Script :=
  (PKColumn e).map fun _ =>
    .whenNotEmpty "list"
      (getBindSql ++
        ([.text (x.insertIntoTable e), insertColumns e false, .text " VALUES ",
          .foreach "list" "record" ","
            (getColumnValuesSql "record" "(" ")" e.columns false)] : List Node))
      "SELECT 1 "

def mergeInto : Option Script :=
  some (.nodes (mergeUsing x e usingCall ++
    ([insertColumns e false, .trim (getColumnValuesSql "record" "VALUES(" ")" e.columns false),
      .update "WHEN MATCHED THEN UPDATE ", .text (x.updateSetColumns e "record" false false),
      .text ";"] : List Node)))

def mergeIntoSelective : Option Script :=
  some (.nodes (mergeUsing x e usingCall ++
    ([.trim (getDynamicColumnSql e.columns false "record"),
      .trim (getDynamicColumnValuesSql e.columns false "record"),
      .update "WHEN MATCHED THEN UPDATE ",
      .text (x.updateSetColumns e "record" true x.notEmpty), .text ";"] : List Node)))

def mergeIntoForField : Option Script :=
  some (.nodes (mergeUsing x e usingCall ++
    ([.trim (getDynamicColumnSql e.columns false "record"),
      .trim (getDynamicColumnValuesSql e.columns false "record"),
      .update "WHEN MATCHED THEN UPDATE ", .trim (updateSetColumns e "record" false),
      .text ";"] : List Node)))

end SqlServerInsertProvider

inductive Provider
  | mySql
  | oracle
  | sqlServer
  deriving DecidableEq, Repr

inductive Method
  | insertList
  | mergeInto
  | mergeIntoForField
  | mergeIntoSelective
  | duplicateSelectiveByPrimaryKey
  deriving DecidableEq, Repr

/-- The script of a provider's method; `none` where it throws or returns null. -/
def script : Provider → Method → Option Script
  | .mySql, .insertList => MySqlInsertProvider.insertList x e
  | .mySql, .mergeInto => MySqlInsertProvider.mergeInto x e
  | .mySql, .mergeIntoForField => none
  | .mySql, .mergeIntoSelective => MySqlInsertProvider.mergeIntoSelective x e
  | .mySql, .duplicateSelectiveByPrimaryKey =>
    MySqlInsertProvider.duplicateSelectiveByPrimaryKey x e
  | .oracle, .insertList => OracleInsertProvider.insertList x e
  | .oracle, .mergeInto => OracleInsertProvider.mergeInto x e
  | .oracle, .mergeIntoForField => OracleInsertProvider.mergeIntoForField x e
  | .oracle, .mergeIntoSelective => OracleInsertProvider.mergeIntoSelective x e
  | .oracle, .duplicateSelectiveByPrimaryKey => none
  | .sqlServer, .insertList => SqlServerInsertProvider.insertList x e
  | .sqlServer, .mergeInto => SqlServerInsertProvider.mergeInto x e
  | .sqlServer, .mergeIntoForField => SqlServerInsertProvider.mergeIntoForField x e
  | .sqlServer, .mergeIntoSelective => SqlServerInsertProvider.mergeIntoSelective x e
  | .sqlServer, .duplicateSelectiveByPrimaryKey => none

/-- The statement sent for an argument, if there is one. -/
def statement (provider : Provider) (method : Method) (p : Parameter V) : Option (List (Piece V)) :=
  (script x e provider method).bind fun s => s.render x e p

/-! ### Alignment -/

/-- The groups up to the update part: the column list, then the tuples. -/
def insertGroups : List (Piece V) → List (List (Item V))
  | [] => []
  | .update _ :: _ => []
  | .text _ :: ps => insertGroups ps
  | .group _ items _ :: ps => items :: insertGroups ps

/-- A record of the argument. -/
def Parameter.Holds (p : Parameter V) (r : Record V) : Prop :=
  (∃ name, p.record name = some r) ∨ ∃ name, ∃ records ∈ p.list name, some r ∈ records

/-- The tuple is a record's values of the columns, in their order. -/
def IsTuple (p : Parameter V) (columns : List EntityColumn) (items : List (Item V)) : Prop :=
  ∃ r, p.Holds r ∧ items = columns.map fun c => .bound c.property (r c.property)

/-- A column list and at least one tuple, all of the same columns in the same
order; or neither, where no column is listed. -/
def Aligned (e : EntityClass) (p : Parameter V) (ps : List (Piece V)) : Prop :=
  insertGroups ps = [] ∨
    ∃ columns ⊆ e.columns, ∃ tuples, tuples ≠ [] ∧
      insertGroups ps = (columns.map fun c => .column c.column) :: tuples ∧
      ∀ items ∈ tuples, IsTuple p columns items

/-- MySQL's `mergeInto` of an entity with an insertable id whose key is
generated by the database, for an argument whose other columns can be read. -/
def Skewed (e : EntityClass) (provider : Provider) (method : Method) (p : Parameter V) : Prop :=
  provider = .mySql ∧ method = .mergeInto ∧ (∃ pk ∈ PKColumn e, isIncrement pk) ∧
    (∃ c ∈ e.columns, c.insertable ∧ c.id) ∧
    ((p.record "").isSome ∨ listed true e.columns = [])

/-! ### What the helpers list -/

variable {x} {e} {p : Parameter V}

theorem listed_subset (skipId : Bool) : listed skipId e.columns ⊆ e.columns :=
  List.filter_subset_self _

/-- Each column gives its value, whether it is null or not. -/
theorem getColumnValuesSql_items (entityName opening closing : String) (columnList : List EntityColumn)
    (skipId : Bool) :
    (getColumnValuesSql entityName opening closing columnList skipId).items x p =
      if listed skipId columnList = [] then some []
      else (p.record entityName).map fun r =>
        (listed skipId columnList).map fun c => .bound c.property (r c.property) := by
  have h : ∀ c, renderAll x p [.ifNotNull entityName c (.holder entityName c ""),
      .ifIsNull entityName c (.holder entityName c "")] =
        (p.record entityName).map fun r => [.bound c.property (r c.property)] := by
    intro c
    cases hr : p.record entityName with
    | none => simp [Fragment.render, hr]
    | some r => by_cases hp : present x r c <;> simp [Fragment.render, hr, hp]
  have hall := renderAll_flatMap h (listed skipId columnList)
  simp only [← List.map_eq_flatMap] at hall
  exact hall

/-- A loop that keeps the columns whose property is there. -/
theorem flatMap_present {r : Record V} (item : EntityColumn → Item V) (columns : List EntityColumn) :
    (columns.flatMap fun c => if present x r c then [item c] else []) =
      (columns.filter (present x r)).map item := by
  induction columns with
  | nil => rfl
  | cons c columns ih =>
    rw [List.flatMap_cons, ih, List.filter_cons]
    split <;> rfl

theorem getDynamicColumnSql_items (entityName : String) (columnList : List EntityColumn)
    (skipId : Bool) :
    (getDynamicColumnSql columnList skipId entityName).items x p =
      if listed skipId columnList = [] then some []
      else (p.record entityName).map fun r =>
        ((listed skipId columnList).filter (present x r)).map fun c => .column c.column := by
  have h : ∀ c, renderAll x p [.ifNotNull entityName c (.column c)] =
      (p.record entityName).map fun r => if present x r c then [.column c.column] else [] := by
    intro c
    cases hr : p.record entityName with
    | none => simp [Fragment.render, hr]
    | some r => by_cases hp : present x r c <;> simp [Fragment.render, hr, hp]
  have hall := renderAll_flatMap h (listed skipId columnList)
  simp only [flatMap_present] at hall
  exact hall

theorem getDynamicColumnValuesSql_items (entityName : String) (columnList : List EntityColumn)
    (skipId : Bool) :
    (getDynamicColumnValuesSql columnList skipId entityName).items x p =
      if listed skipId columnList = [] then some []
      else (p.record entityName).map fun r =>
        ((listed skipId columnList).filter (present x r)).map
          fun c => .bound c.property (r c.property) := by
  have h : ∀ c, renderAll x p [.ifNotNull entityName c (.holder entityName c "")] =
      (p.record entityName).map fun r =>
        if present x r c then [.bound c.property (r c.property)] else [] := by
    intro c
    cases hr : p.record entityName with
    | none => simp [Fragment.render, hr]
    | some r => by_cases hp : present x r c <;> simp [Fragment.render, hr, hp]
  have hall := renderAll_flatMap h (listed skipId columnList)
  simp only [flatMap_present] at hall
  exact hall

/-! ### The groups of a script -/

variable {bound : List (String × String)} {ps : List (Piece V)}

theorem insertGroups_wrap (t : Trim) (items : List (Item V)) (ps : List (Piece V)) :
    insertGroups (t.wrap items ++ ps) = [items].filter (!·.isEmpty) ++ insertGroups ps := by
  cases items <;> rfl

theorem insertGroups_text (s : String) (ps : List (Piece V)) :
    insertGroups (.text s :: ps) = insertGroups ps := rfl

theorem insertGroups_intersperse (separator : String) (t : Trim) {rounds : List (List (Item V))}
    (h : ∀ items ∈ rounds, items ≠ []) (ps : List (Piece V)) :
    insertGroups (((rounds.map t.wrap).intersperse [.text separator]).flatten ++ ps) =
      rounds ++ insertGroups ps := by
  induction rounds with
  | nil => rfl
  | cons a rounds ih =>
    have hfilter : [a].filter (!·.isEmpty) = [a] := by simp [h a List.mem_cons_self]
    cases rounds with
    | nil =>
      show insertGroups (t.wrap a ++ [] ++ ps) = _
      rw [List.append_nil, insertGroups_wrap, hfilter]
    | cons b rounds =>
      have ih := ih fun items hi => h items (List.mem_cons_of_mem _ hi)
      show insertGroups ((t.wrap a ++
        ([.text separator] ++ ((((b :: rounds).map t.wrap).intersperse [.text separator]).flatten))) ++
          ps) = _
      rw [List.append_assoc, insertGroups_wrap, hfilter]
      exact congrArg ([a] ++ ·) ih

theorem insertGroups_rounds (separator : String) (t : Trim) (rounds : List (List (Item V)))
    (ps : List (Piece V)) :
    insertGroups (renderRounds separator t rounds ++ ps) =
      rounds.filter (!·.isEmpty) ++ insertGroups ps := by
  have hwrap : ((rounds.map t.wrap).filter (!·.isEmpty)) =
      (rounds.filter (!·.isEmpty)).map t.wrap := by
    rw [List.filter_map]
    congr 1
    apply List.filter_congr
    intro items _
    cases items <;> rfl
  unfold renderRounds
  rw [hwrap]
  apply insertGroups_intersperse
  intro items hi
  simpa using (List.mem_filter.mp hi).2

/-- The nodes up to the column list of a merge give no group. -/
theorem render_mergeUsing {call : Call} {ns : List Node}
    (h : render x e p bound (mergeUsing x e call ++ ns) = some ps) :
    ∃ bound' ps', render x e p bound' ns = some ps' ∧ insertGroups ps = insertGroups ps' := by
  simp only [mergeUsing, getBindSql, List.nil_append, List.cons_append, render,
    Option.bind_eq_some_iff, Option.map_eq_some_iff] at h
  obtain ⟨value, -, _, ⟨_, ⟨_, ⟨value', -, _, ⟨ps', h, rfl⟩, rfl⟩, rfl⟩, rfl⟩, rfl⟩ := h
  exact ⟨_, ps', h, rfl⟩

/-- Two lists, up to the update part or the end. -/
theorem render_trims {columns values : Trim} {ns : List Node}
    (h : render x e p bound (.trim columns :: .trim values :: ns) = some ps)
    (hns : ∀ ps', render x e p bound ns = some ps' → insertGroups ps' = []) :
    ∃ a ∈ columns.items x p, ∃ b ∈ values.items x p,
      insertGroups ps = [a, b].filter (!·.isEmpty) := by
  simp only [render, Option.bind_eq_some_iff, Option.map_eq_some_iff] at h
  obtain ⟨a, ha, _, ⟨b, hb, ps', h, rfl⟩, rfl⟩ := h
  refine ⟨a, ha, b, hb, ?_⟩
  rw [insertGroups_wrap, insertGroups_wrap, hns ps' h, List.append_nil, ← List.filter_append]
  rfl

/-! ### Aligned scripts -/

/-- The lists of the same columns, where those without an item are left out. -/
theorem aligned_of_groups {columns : List EntityColumn} (tuples : List (List (Item V)))
    (hsub : columns ⊆ e.columns) (hne : tuples ≠ [])
    (ht : ∀ items ∈ tuples, (columns = [] ∧ items = []) ∨ IsTuple p columns items)
    (hg : insertGroups ps =
      ((columns.map fun c => .column c.column) :: tuples).filter (!·.isEmpty)) :
    Aligned e p ps := by
  by_cases hc : columns = []
  · left
    subst hc
    rw [hg, List.filter_eq_nil_iff]
    intro items hi
    rcases List.mem_cons.mp hi with rfl | hi
    · simp
    · rcases ht items hi with ⟨-, rfl⟩ | ⟨r, -, rfl⟩ <;> simp
  · right
    have htuple : ∀ items ∈ tuples, IsTuple p columns items := fun items hi =>
      (ht items hi).resolve_left fun h => hc h.1
    refine ⟨columns, hsub, tuples, hne, ?_, htuple⟩
    rw [hg, List.filter_eq_self]
    intro items hi
    rcases List.mem_cons.mp hi with rfl | hi
    · simp [hc]
    · obtain ⟨r, -, rfl⟩ := htuple items hi
      simp [hc]

/-- The values of the listed columns are a tuple. -/
theorem isTuple_of_items {entityName opening closing : String} {skipId : Bool}
    {items : List (Item V)}
    (h : items ∈ (getColumnValuesSql entityName opening closing e.columns skipId).items x p) :
    (listed skipId e.columns = [] ∧ items = []) ∨
      ∃ r, p.record entityName = some r ∧
        items = (listed skipId e.columns).map fun c => .bound c.property (r c.property) := by
  rw [getColumnValuesSql_items] at h
  split at h
  · rename_i hc
    cases h
    exact .inl ⟨hc, rfl⟩
  · obtain ⟨r, hr, rfl⟩ := Option.map_eq_some_iff.mp h
    exact .inr ⟨r, hr, rfl⟩

/-- One tuple of all listed columns, where the two lists skip the same. -/
theorem aligned_all {skipId skipId' : Bool} {entityName opening closing : String} {ns : List Node}
    (hskip : listed skipId e.columns = listed skipId' e.columns)
    (h : render x e p bound (insertColumns e skipId ::
      .trim (getColumnValuesSql entityName opening closing e.columns skipId') :: ns) = some ps)
    (hns : ∀ ps', render x e p bound ns = some ps' → insertGroups ps' = []) : Aligned e p ps := by
  obtain ⟨a, ha, b, hb, hg⟩ := render_trims h hns
  obtain rfl : _ = a := Option.some.inj ((renderAll_columns _).symm.trans ha)
  refine aligned_of_groups [b] (listed_subset skipId) (by simp) ?_ hg
  intro items hi
  obtain rfl := List.mem_singleton.mp hi
  rw [hskip]
  refine (isTuple_of_items hb).imp_right ?_
  rintro ⟨r, hr, rfl⟩
  exact ⟨r, .inl ⟨entityName, hr⟩, rfl⟩

/-- One tuple of the columns whose properties are there. -/
theorem aligned_dynamic {skipId : Bool} {entityName : String} {ns : List Node}
    (h : render x e p bound (.trim (getDynamicColumnSql e.columns skipId entityName) ::
      .trim (getDynamicColumnValuesSql e.columns skipId entityName) :: ns) = some ps)
    (hns : ∀ ps', render x e p bound ns = some ps' → insertGroups ps' = []) : Aligned e p ps := by
  obtain ⟨a, ha, b, hb, hg⟩ := render_trims h hns
  rw [getDynamicColumnSql_items] at ha
  rw [getDynamicColumnValuesSql_items] at hb
  by_cases hc : listed skipId e.columns = []
  · rw [if_pos hc] at ha hb
    cases ha
    cases hb
    exact .inl hg
  · rw [if_neg hc] at ha hb
    obtain ⟨r, hr, rfl⟩ := Option.map_eq_some_iff.mp ha
    simp only [hr, Option.map_some, Option.mem_def, Option.some.injEq] at hb
    subst hb
    refine aligned_of_groups [_] ?_ (by simp) ?_ hg
    · exact fun c hc => listed_subset skipId (List.mem_of_mem_filter hc)
    · intro items hi
      exact .inr ⟨r, .inl ⟨entityName, hr⟩, List.mem_singleton.mp hi⟩

theorem render_texts {ns : List Node} (texts : List String)
    (h : render x e p bound (texts.map .text ++ ns) = some ps) :
    ∃ ps', render x e p bound ns = some ps' ∧ insertGroups ps = insertGroups ps' := by
  induction texts generalizing ps with
  | nil => exact ⟨ps, h, rfl⟩
  | cons s texts ih =>
    obtain ⟨ps1, h1, rfl⟩ := Option.map_eq_some_iff.mp h
    obtain ⟨ps', h', hg⟩ := ih h1
    exact ⟨ps', h', hg⟩

/-- A tuple for each record of the list. -/
theorem aligned_insertList (texts : List String) {skipId : Bool}
    {into separator opening closing otherwise : String}
    (h : (Script.whenNotEmpty "list" (.text into :: insertColumns e skipId :: (texts.map .text ++
      ([.foreach "list" "record" separator
        (getColumnValuesSql "record" opening closing e.columns skipId)] : List Node)))
      otherwise).render x e p = some ps) : Aligned e p ps := by
  simp only [Script.render] at h
  split at h
  · cases h
    exact .inl rfl
  rename_i hne
  obtain ⟨ps1, h1, rfl⟩ := Option.map_eq_some_iff.mp h
  obtain ⟨a, ha, h2⟩ := Option.bind_eq_some_iff.mp h1
  obtain rfl : _ = a := Option.some.inj ((renderAll_columns _).symm.trans ha)
  obtain ⟨ps3, h3, rfl⟩ := Option.map_eq_some_iff.mp h2
  obtain ⟨ps4, h4, hg⟩ := render_texts texts h3
  obtain ⟨rounds, hr, h5⟩ := Option.bind_eq_some_iff.mp h4
  obtain ⟨records, hlist, hmap⟩ := Option.bind_eq_some_iff.mp hr
  cases h5
  have hlen : rounds.length = records.length := by
    simpa using (congrArg List.length (Sequences.mapM_eq_some_iff.mp hmap)).symm
  refine aligned_of_groups rounds (listed_subset skipId) ?_ ?_ ?_
  · rintro rfl
    have hnil : records = [] := List.length_eq_zero_iff.mp hlen.symm
    rw [hlist, hnil] at hne
    exact hne rfl
  · intro items hi
    obtain ⟨r, hmem, hitems⟩ := (Sequences.mem_of_mapM hmap).mp hi
    refine (isTuple_of_items hitems).imp_right ?_
    rintro ⟨r', hr', rfl⟩
    simp only [Parameter.withItem, Function.update_self] at hr'
    subst hr'
    exact ⟨r', .inr ⟨"list", records, hlist, hmem⟩, rfl⟩
  · rw [insertGroups_text, insertGroups_wrap, hg, insertGroups_rounds, insertGroups,
      List.append_nil, ← List.filter_append]
    rfl

/-! ### When the lists are aligned -/

variable {provider : Provider} {method : Method}

/-- Ids are skipped on both sides, or there is no id to skip. -/
theorem listed_eq_or (skipId : Bool) :
    listed false e.columns = listed skipId e.columns ∨
      skipId = true ∧ ∃ c ∈ e.columns, c.insertable ∧ c.id := by
  by_cases hid : ∃ c ∈ e.columns, c.insertable ∧ c.id
  · cases skipId with
    | false => exact .inl rfl
    | true => exact .inr ⟨rfl, hid⟩
  · left
    apply List.filter_congr
    intro c hc
    have hcid : ¬ (c.insertable = true ∧ c.id = true) := fun h => hid ⟨c, hc, h⟩
    cases hi : c.insertable <;> cases hd : c.id <;> simp_all

theorem insertGroups_of_update {text : String} {ns : List Node} (ps' : List (Piece V))
    (h : render x e p bound (.update text :: ns) = some ps') : insertGroups ps' = [] := by
  obtain ⟨_, -, rfl⟩ := Option.map_eq_some_iff.mp h
  rfl

theorem insertGroups_of_nil (ps' : List (Piece V)) (h : render x e p bound [] = some ps') :
    insertGroups ps' = [] := by
  cases h
  rfl

/-- The same groups are aligned in the same way. -/
theorem Aligned.congr {ps' : List (Piece V)} (hg : insertGroups ps = insertGroups ps')
    (h : Aligned e p ps') : Aligned e p ps := by
  unfold Aligned
  rwa [hg]

theorem aligned_merge_all {call : Call} {skipId : Bool} {text : String} {ns : List Node}
    (h : (Script.nodes (mergeUsing x e call ++ (insertColumns e skipId ::
      .trim (getColumnValuesSql "record" "VALUES(" ")" e.columns skipId) ::
        .update text :: ns))).render x e p = some ps) : Aligned e p ps := by
  obtain ⟨bound', ps', h', hg⟩ := render_mergeUsing h
  exact (aligned_all rfl h' insertGroups_of_update).congr hg

theorem aligned_merge_dynamic {call : Call} {skipId : Bool} {text : String} {ns : List Node}
    (h : (Script.nodes (mergeUsing x e call ++
      (.trim (getDynamicColumnSql e.columns skipId "record") ::
        .trim (getDynamicColumnValuesSql e.columns skipId "record") ::
          .update text :: ns))).render x e p = some ps) : Aligned e p ps := by
  obtain ⟨bound', ps', h', hg⟩ := render_mergeUsing h
  exact (aligned_dynamic h' insertGroups_of_update).congr hg

namespace MySqlInsertProvider

theorem duplicate_throws (hognl : x.ibatis "fieldToString(_parameter)" = none) :
    (duplicateSelectiveByPrimaryKey x e).bind (·.render x e p) = none := by
  show ((x.ibatis "fieldToString(_parameter)").bind _) = none
  rw [hognl]
  rfl

theorem aligned_replace_dynamic {into table : String} {skipId : Bool}
    (h : (Script.nodes (getBindSql ++ ([.text into, .text table,
      .trim (getDynamicColumnSql e.columns skipId ""),
      .trim (getDynamicColumnValuesSql e.columns skipId "")] : List Node))).render x e p =
      some ps) : Aligned e p ps := by
  obtain ⟨ps', h', hg⟩ := render_texts [into, table] h
  exact (aligned_dynamic h' insertGroups_of_nil).congr hg

/-- `mergeInto`, unless it skips the value of an id that it lists. -/
theorem aligned_mergeInto {into table : String} {pk : EntityColumn} (hpk : pk ∈ PKColumn e)
    (hs : ¬ Skewed e .mySql .mergeInto p)
    (h : (Script.nodes (getBindSql ++ ([.text into, .text table, insertColumns e false,
      .trim (getColumnValuesSql "" "VALUES(" ")" e.columns (isIncrement pk))] :
        List Node))).render x e p = some ps) : Aligned e p ps := by
  obtain ⟨ps', h', hg⟩ := render_texts [into, table] h
  rcases listed_eq_or (e := e) (isIncrement pk) with hskip | ⟨hinc, hid⟩
  · exact (aligned_all hskip h' insertGroups_of_nil).congr hg
  · -- the values cannot be read, so there is no statement
    have hread : ¬ ((p.record "").isSome ∨ listed true e.columns = []) := fun hr =>
      hs ⟨rfl, rfl, ⟨pk, hpk, hinc⟩, hid, hr⟩
    rw [not_or, Option.not_isSome_iff_eq_none] at hread
    obtain ⟨_, -, b, hb, -⟩ := render_trims h' insertGroups_of_nil
    rw [hinc, getColumnValuesSql_items, if_neg hread.2, hread.1] at hb
    cases hb

end MySqlInsertProvider

/-- What is not the skewed case is aligned. -/
theorem aligned_of_not_skewed (hognl : x.ibatis "fieldToString(_parameter)" = none)
    (hs : ¬ Skewed e provider method p) (h : statement x e provider method p = some ps) :
    Aligned e p ps := by
  cases provider with
  | mySql =>
    cases method with
    | insertList =>
      obtain ⟨s, hscript, h⟩ := Option.bind_eq_some_iff.mp h
      obtain ⟨pk, -, rfl⟩ := Option.map_eq_some_iff.mp hscript
      exact aligned_insertList [" VALUES "] h
    | mergeInto =>
      obtain ⟨s, hscript, h⟩ := Option.bind_eq_some_iff.mp h
      obtain ⟨pk, hpk, rfl⟩ := Option.map_eq_some_iff.mp hscript
      exact MySqlInsertProvider.aligned_mergeInto hpk hs h
    | mergeIntoForField => cases h
    | mergeIntoSelective =>
      obtain ⟨s, hscript, h⟩ := Option.bind_eq_some_iff.mp h
      obtain ⟨pk, -, rfl⟩ := Option.map_eq_some_iff.mp hscript
      exact MySqlInsertProvider.aligned_replace_dynamic h
    | duplicateSelectiveByPrimaryKey =>
      cases (MySqlInsertProvider.duplicate_throws hognl).symm.trans h
  | oracle =>
    cases method with
    | insertList =>
      obtain ⟨s, hscript, h⟩ := Option.bind_eq_some_iff.mp h
      obtain ⟨_, -, rfl⟩ := Option.map_eq_some_iff.mp hscript
      exact aligned_insertList [] h
    | mergeInto => exact aligned_merge_all h
    | mergeIntoForField => exact aligned_merge_dynamic h
    | mergeIntoSelective => exact aligned_merge_dynamic h
    | duplicateSelectiveByPrimaryKey => cases h
  | sqlServer =>
    cases method with
    | insertList =>
      obtain ⟨s, hscript, h⟩ := Option.bind_eq_some_iff.mp h
      obtain ⟨_, -, rfl⟩ := Option.map_eq_some_iff.mp hscript
      exact aligned_insertList [" VALUES "] h
    | mergeInto => exact aligned_merge_all h
    | mergeIntoForField => exact aligned_merge_dynamic h
    | mergeIntoSelective => exact aligned_merge_dynamic h
    | duplicateSelectiveByPrimaryKey => cases h

theorem length_listed_lt {id : EntityColumn} (hmem : id ∈ e.columns) (hid : id.insertable ∧ id.id) :
    (listed true e.columns).length < (listed false e.columns).length := by
  have hfilter : listed true e.columns = (listed false e.columns).filter (!·.id) := by
    unfold listed
    rw [List.filter_filter]
    apply List.filter_congr
    intro c _
    cases c.insertable <;> cases c.id <;> rfl
  rw [hfilter]
  apply List.length_filter_lt_length_iff_exists.mpr
  exact ⟨id, List.mem_filter.mpr ⟨hmem, by simp [hid.1]⟩, by simp [hid.2]⟩

/-- A tuple shorter than the column list does not go with it. -/
theorem not_aligned_of_length {a b : List (Item V)} (hlt : b.length < a.length)
    (hg : insertGroups ps = [a, b].filter (!·.isEmpty)) : ¬ Aligned e p ps := by
  have ha : a ≠ [] := by
    rintro rfl
    exact Nat.not_lt_zero _ hlt
  rw [Aligned, hg]
  rintro (h | ⟨columns, -, tuples, hne, h, ht⟩)
  · rw [List.filter_eq_nil_iff] at h
    have := h a List.mem_cons_self
    simp [ha] at this
  · rw [List.filter_cons_of_pos (by simp [ha])] at h
    obtain ⟨rfl, htuples⟩ := List.cons.inj h
    by_cases hb : b = []
    · -- no tuple at all
      subst hb
      exact hne htuples.symm
    · rw [List.filter_cons_of_pos (by simp [hb])] at htuples
      obtain ⟨r, -, rfl⟩ := ht b (htuples ▸ List.mem_cons_self)
      simp at hlt

/-- A skewed statement is built, and is not aligned. -/
theorem not_aligned_of_skewed (hs : Skewed e provider method p) :
    ∃ ps, statement x e provider method p = some ps ∧ ¬ Aligned e p ps := by
  obtain ⟨rfl, rfl, ⟨pk, hpk, hinc⟩, ⟨id, hmem, hid⟩, hread⟩ := hs
  -- the tuple, which has no value for the id
  obtain ⟨values, hvalues, hlen⟩ : ∃ values,
      (getColumnValuesSql "" "VALUES(" ")" e.columns true).items x p = some values ∧
        values.length = (listed true e.columns).length := by
    rw [getColumnValuesSql_items]
    split
    · rename_i hc
      exact ⟨[], rfl, by rw [hc]; rfl⟩
    · rename_i hc
      obtain ⟨r, hr⟩ := Option.isSome_iff_exists.mp (hread.resolve_right hc)
      exact ⟨_, by rw [hr]; rfl, List.length_map ..⟩
  have hcolumns : Trim.items x p ⟨"(", ")", (listed false e.columns).map .column⟩ = _ :=
    renderAll_columns _
  have hstatement : ∃ ps, statement x e .mySql .mergeInto p = some ps := by
    simp [statement, script, MySqlInsertProvider.mergeInto, Option.mem_def.mp hpk, hinc,
      Script.render, getBindSql, render, insertColumns, hcolumns, hvalues]
  obtain ⟨ps, hps⟩ := hstatement
  refine ⟨ps, hps, ?_⟩
  obtain ⟨s, hscript, h⟩ := Option.bind_eq_some_iff.mp hps
  obtain ⟨pk', hpk', rfl⟩ := Option.map_eq_some_iff.mp hscript
  obtain rfl : pk = pk' := Option.some.inj (hpk.symm.trans hpk')
  obtain ⟨ps', h', hg⟩ := render_texts ["REPLACE  INTO ", x.getDynamicTableName e] h
  rw [hinc] at h'
  obtain ⟨a, ha, b, hb, hg'⟩ := render_trims h' insertGroups_of_nil
  obtain rfl : _ = a := Option.some.inj (hcolumns.symm.trans ha)
  obtain rfl : values = b := Option.some.inj (hvalues.symm.trans hb)
  apply not_aligned_of_length _ (hg.trans hg')
  rw [hlen, List.length_map]
  exact length_listed_lt hmem hid

/-- **Alignment.** The column list and the tuples of a statement hold the same
columns in the same order, if and only if it is not MySQL's `mergeInto` of an
entity with an insertable id that the database generates. -/
theorem aligned_iff (hognl : x.ibatis "fieldToString(_parameter)" = none) :
    (∀ ps, statement x e provider method p = some ps → Aligned e p ps) ↔
      ¬ Skewed e provider method p := by
  constructor
  · intro h hs
    obtain ⟨ps, hps, hn⟩ := not_aligned_of_skewed (x := x) hs
    exact hn (h ps hps)
  · exact fun hs _ => aligned_of_not_skewed hognl hs

/-! ### An entity whose key the database generates -/

def role : EntityClass where
  tableName := "sys_role"
  columns :=
    [{ column := "id", property := "id", id := true, generator := some "JDBC" },
      { column := "role_name", property := "name", javaString := true }]

/-- The configuration of the repository, for strings as values. -/
def context : Context String where
  isEmpty := (· = "")
  notEmpty := false
  insertIntoTable e := "INSERT INTO " ++ e.tableName
  getDynamicTableName e := e.tableName
  updateSetColumns _ _ _ _ := "SET role_name = #{record.name}"
  hashSet := List.dedup
  ibatis _ := none

def admin : Record String := fun property => if property = "name" then some "admin" else none

/-- The argument of a method with one parameter, which is not annotated. -/
def argument (r : Record String) : Parameter String where
  isParamMap := false
  record name := if name = "" then some r else none
  list _ := none
  fields := none
  updateFields := none

/-- The argument of `insertList`. -/
def listOf (records : List (Record String)) : Parameter String where
  isParamMap := false
  record _ := none
  list name := if name = "list" then some (records.map some) else none
  fields := none
  updateFields := none

theorem aligned_role :
    (statement context role .mySql .insertList (listOf [admin, admin])).isSome ∧
      ∀ ps, statement context role .mySql .insertList (listOf [admin, admin]) = some ps →
        Aligned role (listOf [admin, admin]) ps :=
  ⟨by decide +kernel, (aligned_iff (x := context) rfl).mpr fun h => by cases h.2.1⟩

/-- `REPLACE  INTO sys_role (id,role_name) VALUES(?)`. -/
def replaced : List (Piece String) :=
  [.text "REPLACE  INTO ", .text "sys_role", .group "(" [.column "id", .column "role_name"] ")",
    .group "VALUES(" [.bound "name" (some "admin")] ")"]

/-- The id is listed, and its value is left out. -/
theorem replace_skewed : ¬ ∀ (x : Context String) (e : EntityClass) (provider : Provider)
    (method : Method) (p : Parameter String) (ps : List (Piece String)),
    x.ibatis "fieldToString(_parameter)" = none →
      statement x e provider method p = some ps → Aligned e p ps := fun h => by
  have hps : statement context role .mySql .mergeInto (argument admin) = some replaced := by
    decide +kernel
  have hn : ¬ Aligned role (argument admin) replaced := by
    apply not_aligned_of_length (a := [.column "id", .column "role_name"])
      (b := [.bound "name" (some "admin")])
    · decide
    · rfl
  exact hn (h context role _ _ _ _ rfl hps)

end InsertProviders
end CloudManager
