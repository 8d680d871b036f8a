/-
# Paged and unpaged calls of one mapped statement

`listByPage` replaces the SQL source of a mapped statement by one that pages,
at its first paged call, and registers a count statement beside it; an unpaged
call puts the original source back while it runs. What throws goes back to
`DispatchInterceptor.intercept`, which runs the statement that stands in the
invocation's arguments by then. `independent_of_careful`: the SQL sent for a
call is that of its own parameters, in every run whose paged calls find the
sources built for their own templates and leave the parser off.
-/
import CloudManager.Framework.PageSql
import CloudManager.Lib.Runs

namespace CloudManager
namespace PageProcess

open PageSql Runs

/-- A call's argument: the entity, if its first parameter is one, and the rest. -/
structure Param (A : Type*) where
  entity : Option Entity
  args : A

/-- What the sources rest on: the configuration's database, the SQL parser, and
`SqlSourceBuilder.parse`. -/
structure Configuration where
  databaseId : Option String
  ccj : Sql → Parsed
  toStatic : Sql → Option Sql

/-- `BridgeHelper.getDialect`. -/
def getDialect (databaseId : Option String) : Option String :=
  if databaseId = some "Microsoft SQL Server" then some "sqlserver" else databaseId

/-! ### SQL sources -/

variable {A : Type*}

/-- MyBatis's own sources, and any other. -/
inductive SqlSource (A : Type*)
  | dynamicSqlSource (rootSqlNode : Param A → Option Sql)
  | rawSqlSource (sql : Sql)
  | staticSqlSource (sql : Sql)
  | other (getBoundSql : Param A → Option Sql)

inductive AbstractSqlSource (A : Type*)
  | pageDynamicSqlSource (rootSqlNode : Param A → Option Sql) (singleQuery flag : Bool)
  | pageRawSqlSource (sql : Sql) (singleQuery flag : Bool)

variable (x : Configuration)

def SqlSource.getBoundSql (p : Param A) : SqlSource A → Option Sql
  | .dynamicSqlSource rootSqlNode => (rootSqlNode p).bind x.toStatic
  | .rawSqlSource sql | .staticSqlSource sql => some sql
  | .other getBoundSql => getBoundSql p

namespace AbstractSqlSource

def singleQuery : AbstractSqlSource A → Bool
  | .pageDynamicSqlSource _ singleQuery _ | .pageRawSqlSource _ singleQuery _ => singleQuery

def flag : AbstractSqlSource A → Bool
  | .pageDynamicSqlSource _ _ flag | .pageRawSqlSource _ _ flag => flag

/-- The source a page source is built from. -/
def getSqlSource : AbstractSqlSource A → SqlSource A
  | .pageDynamicSqlSource rootSqlNode _ _ => .dynamicSqlSource rootSqlNode
  | .pageRawSqlSource sql _ _ => .staticSqlSource sql

/-- The branch that both `getBoundSql`s take; the parser is given the stored
`singleQuery` for the flag. -/
def wrap (singleQuery flag : Bool) (sql : Sql) (e : Entity) : Option Sql :=
  let databaseId := getDialect x.databaseId
  if e.useCCJSqlParse then parse x.ccj sql databaseId singleQuery e
  else if flag then getCountSql sql databaseId singleQuery
  else getSql sql databaseId singleQuery

/-- A raw source replaces nothing in what the parser gives. -/
def getBoundSql (p : Param A) (source : AbstractSqlSource A) : Option Sql :=
  p.entity.bind fun e =>
    match source with
    | .pageDynamicSqlSource rootSqlNode singleQuery flag =>
      (rootSqlNode p).bind fun sql => (wrap x singleQuery flag sql e).bind fun sql =>
        x.toStatic (replace (getDialect x.databaseId) flag sql e)
    | .pageRawSqlSource sql singleQuery flag =>
      (wrap x singleQuery flag sql e).map fun sql =>
        if e.useCCJSqlParse then sql else replace (getDialect x.databaseId) flag sql e

end AbstractSqlSource

/-- The page source built over a source; none over an unknown kind. -/
def SqlSource.page (singleQuery : Bool) : SqlSource A → Option (AbstractSqlSource A)
  | .dynamicSqlSource rootSqlNode => some (.pageDynamicSqlSource rootSqlNode singleQuery false)
  | .rawSqlSource sql | .staticSqlSource sql => some (.pageRawSqlSource sql singleQuery false)
  | .other _ => none

/-- The count source built over a page source. -/
def AbstractSqlSource.count (singleQuery : Bool) : AbstractSqlSource A → AbstractSqlSource A
  | .pageDynamicSqlSource rootSqlNode _ _ => .pageDynamicSqlSource rootSqlNode singleQuery true
  | .pageRawSqlSource sql _ _ => .pageRawSqlSource sql singleQuery true

/-! ### The mapped statement -/

/-- The source a mapped statement has. -/
inductive Source (A : Type*)
  | plain (source : SqlSource A)
  | page (source : AbstractSqlSource A)

/-- A mapped statement and its count statement, if it is registered. -/
structure MappedStatement (A : Type*) where
  sqlSource : Source A
  countMs : Option (AbstractSqlSource A)

/-- A call, and what the database answers to it: the row of the count, if there
is one, and whether the `n`-th statement sent throws. -/
structure Call (A : Type*) where
  param : Param A
  totalCount : Option Int32
  throws : ℕ → Bool

/-- The invocation as it goes: what `args[0]` is, the argument, and the SQL
sent. -/
structure Invocation (A : Type*) where
  ms : MappedStatement A
  isCount : Bool
  param : Param A
  sent : List Sql

namespace Invocation

def getBoundSql (i : Invocation A) : Option Sql :=
  if i.isCount then i.ms.countMs.bind (·.getBoundSql x i.param)
  else
    match i.ms.sqlSource with
    | .plain source => source.getBoundSql x i.param
    | .page source => source.getBoundSql x i.param

/-- `proceed`, and whether it throws. -/
def proceed (c : Call A) (i : Invocation A) : Invocation A × Bool :=
  match i.getBoundSql x with
  | none => (i, true)
  | some sql => ({ i with sent := i.sent ++ [sql] }, c.throws i.sent.length)

def setSource (i : Invocation A) (source : Source A) : Invocation A :=
  { i with ms := { i.ms with sqlSource := source } }

def setEntity (i : Invocation A) (e : Entity) : Invocation A :=
  { i with param := { i.param with entity := some e } }

end Invocation

open Invocation

/-- An unpaged call; the page source is not put back after an exception. -/
def unpaged (c : Call A) (i : Invocation A) : Invocation A × Bool :=
  match i.ms.sqlSource with
  | .page source =>
    let r := (i.setSource (.plain source.getSqlSource)).proceed x c
    if r.2 then r else (r.1.setSource (.page source), false)
  | .plain _ => i.proceed x c

/-- The page source of a statement, built if it has none. -/
def pageSource (singleQuery : Bool) : Source A → Option (AbstractSqlSource A)
  | .page source => some source
  | .plain source => source.page singleQuery

def Entity.afterCount (e : Entity) (totalCount : Int32) : Entity :=
  { e with toBaseEntity := e.toBaseEntity.afterCount totalCount }

def Entity.beforeCount (e : Entity) : Entity :=
  { e with toBaseEntity := e.toBaseEntity.beforeCount }

/-- A paged call: the sources are built if they are not there, then the count and
the page run. -/
def paged (c : Call A) (e : Entity) (i : Invocation A) : Invocation A × Bool :=
  let e' := Entity.beforeCount e
  let i := i.setEntity e'
  match pageSource e.singleQuery i.ms.sqlSource with
  | none => (i, true)
  | some source =>
    let countMs := i.ms.countMs.getD (source.count e.singleQuery)
    let r := ({ i with ms := ⟨.page source, some countMs⟩, isCount := true }).proceed x c
    if r.2 then r
    else
      match c.totalCount with
      | none => (r.1, true)
      | some totalCount =>
        ({ r.1.setEntity (Entity.afterCount e' totalCount) with isCount := false }).proceed x c

def listByPage (c : Call A) (i : Invocation A) : Invocation A × Bool :=
  match i.param.entity with
  | none => (i, true)
  | some e => if e.pagingQuery then paged x c e i else unpaged x c i

/-- What throws is logged, and the invocation proceeds as it stands. -/
def orProceed (c : Call A) (r : Invocation A × Bool) : Invocation A :=
  if r.2 then (r.1.proceed x c).1 else r.1

def intercept (c : Call A) (i : Invocation A) : Invocation A := orProceed x c (listByPage x c i)

/-! ### Runs -/

/-- The mapped statement, and the calls with the SQL sent for each, newest first. -/
structure State (A : Type*) where
  ms : MappedStatement A
  log : List (Call A × List Sql)

def step (s : State A) (c : Call A) : Option (State A) :=
  let i := intercept x c ⟨s.ms, false, c.param, []⟩
  some ⟨i.ms, (c, i.sent) :: s.log⟩

/-- The mapped statement as it is configured. -/
def start (original : SqlSource A) : State A := ⟨⟨.plain original, none⟩, []⟩

/-! ### The SQL of a call's own parameters -/

/-- The text a call's own flag selects: the count's or the page's. -/
def template (flag : Bool) (sql : Sql) (e : Entity) : Option Sql :=
  let databaseId := getDialect x.databaseId
  if e.useCCJSqlParse then parse x.ccj sql databaseId flag e
  else if flag then getCountSql sql databaseId e.singleQuery
  else getSql sql databaseId e.singleQuery

/-- The count or the page of a source, for a call's own parameters. -/
def ownSql (flag : Bool) (p : Param A) (source : SqlSource A) : Option Sql :=
  p.entity.bind fun e =>
    match source with
    | .dynamicSqlSource rootSqlNode =>
      (rootSqlNode p).bind fun sql => (template x flag sql e).bind fun sql =>
        x.toStatic (replace (getDialect x.databaseId) flag sql e)
    | .rawSqlSource sql | .staticSqlSource sql =>
      (template x flag sql e).map fun sql =>
        if e.useCCJSqlParse then sql else replace (getDialect x.databaseId) flag sql e
    | .other _ => none

/-- A statement that throws is tried once more. -/
def attempts (c : Call A) (n : ℕ) : Option Sql → List Sql
  | none => []
  | some sql => if c.throws n then [sql, sql] else [sql]

/-- The SQL that a call sends by its own parameters. -/
def expected (original : SqlSource A) (c : Call A) : List Sql :=
  match c.param.entity with
  | none => (original.getBoundSql x c.param).toList
  | some e =>
    if e.pagingQuery then
      let e' := Entity.beforeCount e
      let p := { c.param with entity := some e' }
      if (original.page e.singleQuery).isNone then (original.getBoundSql x p).toList
      else
        match ownSql x true p original with
        | none => []
        | some sql =>
          if c.throws 0 then [sql, sql]
          else
            match c.totalCount with
            | none => [sql, sql]
            | some totalCount =>
              let p := { c.param with entity := some (Entity.afterCount e' totalCount) }
              sql :: attempts c 1 (ownSql x false p original)
    else attempts c 0 (original.getBoundSql x c.param)

/-- The SQL sent for each call is that of its own parameters. -/
def Independent (original : SqlSource A) (s : State A) : Prop :=
  ∀ y ∈ s.log, y.2 = expected x original y.1

/-- The page source and the count source that there are. -/
def MappedStatement.sources (ms : MappedStatement A) : List (AbstractSqlSource A) :=
  (match ms.sqlSource with
    | .page source => [source]
    | .plain _ => []) ++ ms.countMs.toList

/-- A paged call leaves the parser off and finds no source built for other
templates, if its kind of source is paged at all; a call without an entity finds
no page source. -/
def Careful (original : SqlSource A) (s : State A) (c : Call A) : Prop :=
  match c.param.entity with
  | none => ∀ source ∈ s.ms.sources, source.flag = true
  | some e =>
    e.pagingQuery = true → (original.page e.singleQuery).isSome = true →
      e.useCCJSqlParse = false ∧
      ∀ source ∈ s.ms.sources,
        dialect (getDialect x.databaseId) source.singleQuery =
          dialect (getDialect x.databaseId) e.singleQuery

/-! ### The sources of a mapped statement -/

variable {x} {original : SqlSource A} {ms : MappedStatement A} {c : Call A}

/-- The sources that there are were built from the original one. -/
structure Inv (original : SqlSource A) (ms : MappedStatement A) : Prop where
  plain : ∀ source, ms.sqlSource = .plain source →
    source = original ∨ ∃ b, (original.page b).map (·.getSqlSource) = some source
  page : ∀ source, ms.sqlSource = .page source → original.page source.singleQuery = some source
  count : ∀ source ∈ ms.countMs, ∃ page, original.page source.singleQuery = some page ∧
    source = page.count source.singleQuery

theorem Inv.start : Inv original (PageProcess.start original).ms where
  plain _ h := by
    cases h
    exact .inl rfl
  page _ h := by cases h
  count _ h := by cases h

/-- Whatever a page source was built from gives the same SQL as the original. -/
theorem getBoundSql_getSqlSource {b : Bool} {source : SqlSource A}
    (h : (original.page b).map (·.getSqlSource) = some source) (p : Param A) :
    source.getBoundSql x p = original.getBoundSql x p := by
  cases original <;> cases h <;> rfl

theorem page_getSqlSource {b b' : Bool} {source : SqlSource A}
    (h : (original.page b).map (·.getSqlSource) = some source) :
    source.page b' = original.page b' := by
  cases original <;> cases h <;> rfl

theorem singleQuery_page {b : Bool} {page : AbstractSqlSource A} (h : original.page b = some page) :
    page.singleQuery = b ∧ page.flag = false ∧ (page.count b).singleQuery = b := by
  cases original <;> cases h <;> exact ⟨rfl, rfl, rfl⟩

/-- What a statement without a page source runs. -/
theorem Inv.getBoundSql_plain (h : Inv original ms) {source : SqlSource A}
    (hs : ms.sqlSource = .plain source) (p : Param A) :
    source.getBoundSql x p = original.getBoundSql x p := by
  rcases h.plain source hs with rfl | ⟨b, hb⟩
  · rfl
  · exact getBoundSql_getSqlSource hb p

theorem Inv.pageSource_eq (h : Inv original ms) {b : Bool} :
    pageSource b ms.sqlSource =
      match ms.sqlSource with
      | .page source => some source
      | .plain _ => original.page b := by
  cases hs : ms.sqlSource with
  | page source => rfl
  | plain source =>
    rcases h.plain source hs with rfl | ⟨b', hb⟩
    · rfl
    · exact page_getSqlSource hb

/-! ### A call's own templates -/

variable {e : Entity} {p : Param A}

theorem wrap_eq_template {b flag : Bool} (hccj : e.useCCJSqlParse = false)
    (hd : dialect (getDialect x.databaseId) b = dialect (getDialect x.databaseId) e.singleQuery)
    (sql : Sql) : AbstractSqlSource.wrap x b flag sql e = template x flag sql e := by
  simp only [AbstractSqlSource.wrap, template, getCountSql, getSql, hccj, hd]
  rfl

theorem getBoundSql_page {page : AbstractSqlSource A} {b : Bool} (h : original.page b = some page)
    (he : p.entity = some e) (hccj : e.useCCJSqlParse = false)
    (hd : dialect (getDialect x.databaseId) b = dialect (getDialect x.databaseId) e.singleQuery) :
    page.getBoundSql x p = ownSql x false p original := by
  unfold AbstractSqlSource.getBoundSql ownSql
  rw [he, Option.bind_some, Option.bind_some]
  cases original with
  | other => cases h
  | _ =>
    cases h
    simp only [wrap_eq_template hccj hd]

theorem getBoundSql_count {page : AbstractSqlSource A} {b b' : Bool}
    (h : original.page b' = some page) (he : p.entity = some e) (hccj : e.useCCJSqlParse = false)
    (hd : dialect (getDialect x.databaseId) b = dialect (getDialect x.databaseId) e.singleQuery) :
    (page.count b).getBoundSql x p = ownSql x true p original := by
  unfold AbstractSqlSource.getBoundSql ownSql
  rw [he, Option.bind_some, Option.bind_some]
  cases original with
  | other => cases h
  | _ =>
    cases h
    simp only [AbstractSqlSource.count, wrap_eq_template hccj hd]

/-! ### What an invocation sends -/

variable {i : Invocation A}

theorem proceed_of_none (h : i.getBoundSql x = none) : i.proceed x c = (i, true) := by
  unfold proceed
  rw [h]

theorem proceed_of_some {sql : Sql} (h : i.getBoundSql x = some sql) :
    i.proceed x c = ({ i with sent := i.sent ++ [sql] }, c.throws i.sent.length) := by
  unfold proceed
  rw [h]

theorem proceed_ms : (i.proceed x c).1.ms = i.ms := by
  cases h : i.getBoundSql x with
  | none => rw [proceed_of_none h]
  | some sql => rw [proceed_of_some h]

theorem proceed_sent : (i.proceed x c).1.sent = i.sent ++ (i.getBoundSql x).toList := by
  cases h : i.getBoundSql x with
  | none => rw [proceed_of_none h]; simp
  | some sql => rw [proceed_of_some h]; rfl

/-- After it was sent and threw, the same statement is sent again. -/
theorem again_spec {sql : Sql} (h : i.getBoundSql x = some sql) :
    orProceed x c ({ i with sent := i.sent ++ [sql] }, true) =
      { i with sent := i.sent ++ [sql] ++ [sql] } := by
  have h' : ({ i with sent := i.sent ++ [sql] } : Invocation A).getBoundSql x = some sql := h
  simp only [orProceed, if_true, proceed_of_some h']

/-- A statement and, if it throws, the same statement again. -/
theorem retry_spec : (orProceed x c (i.proceed x c)).ms = i.ms ∧
    (orProceed x c (i.proceed x c)).sent =
      i.sent ++ attempts c i.sent.length (i.getBoundSql x) := by
  cases h : i.getBoundSql x with
  | none =>
    simp only [proceed_of_none h, if_true, orProceed]
    exact ⟨trivial, by simp [attempts]⟩
  | some sql =>
    rw [proceed_of_some h]
    cases ht : c.throws i.sent.length with
    | true =>
      rw [again_spec h]
      exact ⟨rfl, by simp [attempts, ht]⟩
    | false => exact ⟨rfl, by simp [orProceed, attempts, ht]⟩

/-! ### What a call sends, and what it leaves -/

/-- The invocation of a call at its start. -/
def Invocation.of (ms : MappedStatement A) (c : Call A) : Invocation A := ⟨ms, false, c.param, []⟩

theorem getBoundSql_of {source : SqlSource A} (hs : ms.sqlSource = .plain source) :
    (Invocation.of ms c).getBoundSql x = source.getBoundSql x c.param := by
  simp only [Invocation.of, Invocation.getBoundSql, hs]
  rfl

/-- Without an entity the statement runs as it stands. -/
theorem intercept_none (h : Inv original ms) (he : c.param.entity = none)
    (hok : ∀ source ∈ ms.sources, source.flag = true) :
    (intercept x c (.of ms c)).sent = expected x original c ∧
      Inv original (intercept x c (.of ms c)).ms := by
  have hi : intercept x c (.of ms c) = ((Invocation.of ms c).proceed x c).1 := by
    simp [intercept, listByPage, Invocation.of, he, orProceed]
  rw [hi, proceed_sent, proceed_ms]
  refine ⟨?_, h⟩
  cases hs : ms.sqlSource with
  | plain source =>
    rw [getBoundSql_of hs, h.getBoundSql_plain hs, expected, he]
    rfl
  | page source =>
    have htrue := hok source (by simp [MappedStatement.sources, hs])
    rw [(singleQuery_page (h.page source hs)).2.1] at htrue
    cases htrue

/-- The original source stands in while an unpaged call runs, and stays there
after an exception. -/
theorem Inv.unwrap (h : Inv original ms) {source : AbstractSqlSource A}
    (hs : ms.sqlSource = .page source) :
    Inv original { ms with sqlSource := .plain source.getSqlSource } where
  plain source' hs' := by
    cases hs'
    exact .inr ⟨source.singleQuery, by rw [h.page source hs]; rfl⟩
  page _ hs' := by cases hs'
  count := h.count

/-- An unpaged call runs the original source. -/
theorem intercept_unpaged (h : Inv original ms) (he : c.param.entity = some e)
    (hp : e.pagingQuery = false) :
    (intercept x c (.of ms c)).sent = expected x original c ∧
      Inv original (intercept x c (.of ms c)).ms := by
  have hexp : expected x original c = attempts c 0 (original.getBoundSql x c.param) := by
    simp [expected, he, hp]
  have hlist : listByPage x c (.of ms c) = unpaged x c (.of ms c) := by
    simp [listByPage, Invocation.of, he, hp]
  rw [intercept, hlist, hexp]
  cases hs : ms.sqlSource with
  | plain source =>
    have hun : unpaged x c (.of ms c) = (Invocation.of ms c).proceed x c := by
      simp only [unpaged, Invocation.of, hs]
    obtain ⟨hms, hsent⟩ := retry_spec (x := x) (c := c) (i := .of ms c)
    rw [hun, hms, hsent, getBoundSql_of hs, h.getBoundSql_plain hs]
    exact ⟨rfl, h⟩
  | page source =>
    have hsql : ((Invocation.of ms c).setSource (.plain source.getSqlSource)).getBoundSql x =
        original.getBoundSql x c.param :=
      getBoundSql_getSqlSource (b := source.singleQuery) (by rw [h.page source hs]; rfl) c.param
    obtain ⟨hms, hsent⟩ := retry_spec (x := x) (c := c)
      (i := (Invocation.of ms c).setSource (.plain source.getSqlSource))
    rw [hsql] at hsent
    generalize hr : ((Invocation.of ms c).setSource (.plain source.getSqlSource)).proceed x c = r
      at hms hsent
    have hun : unpaged x c (.of ms c) =
        if r.2 then r else (r.1.setSource (.page source), false) := by
      simp only [unpaged, ← hr]
      simp only [Invocation.of, hs]
    rw [hun]
    by_cases hthrows : r.2 = true
    · rw [if_pos hthrows, hsent, hms]
      exact ⟨rfl, h.unwrap hs⟩
    · have hms' : r.1.ms = { ms with sqlSource := .plain source.getSqlSource } := by
        rw [← hr, proceed_ms]
        rfl
      simp only [orProceed, if_neg hthrows] at hsent ⊢
      refine ⟨hsent, ?_⟩
      -- the page source is put back
      have hback : (r.1.setSource (.page source)).ms = ms := by
        simp only [setSource, hms', ← hs]
      rw [if_neg Bool.false_ne_true, hback]
      exact h

theorem page_isSome {b k : Bool} {page : AbstractSqlSource A} (h : original.page b = some page) :
    (original.page k).isSome = true := by
  cases original <;> cases h <;> rfl

/-- Count sources of one flag are the same, whatever the page's flag. -/
theorem count_eq {b b' k : Bool} {page page' : AbstractSqlSource A} (h : original.page b = some page)
    (h' : original.page b' = some page') : page.count k = page'.count k := by
  cases original <;> cases h <;> cases h' <;> rfl

/-- The sources a paged call runs with. -/
theorem Inv.build (h : Inv original ms) {b : Bool} {source : AbstractSqlSource A}
    (hs : pageSource b ms.sqlSource = some source) :
    Inv original ⟨.page source, some (ms.countMs.getD (source.count b))⟩ ∧
      (source ∈ ms.sources ∨ source.singleQuery = b) ∧
      (ms.countMs.getD (source.count b) ∈ ms.sources ∨
        (ms.countMs.getD (source.count b)).singleQuery = b) := by
  have hsource : original.page source.singleQuery = some source ∧
      (source ∈ ms.sources ∨ source.singleQuery = b) := by
    rw [h.pageSource_eq] at hs
    cases hsql : ms.sqlSource with
    | page source' =>
      rw [hsql] at hs
      cases hs
      exact ⟨h.page source hsql, .inl (by simp [MappedStatement.sources, hsql])⟩
    | plain source' =>
      rw [hsql] at hs
      have hb := (singleQuery_page hs).1
      exact ⟨hb.symm ▸ hs, .inr hb⟩
  obtain ⟨hpage, hor⟩ := hsource
  obtain ⟨page, hpb⟩ := Option.isSome_iff_exists.mp (page_isSome (k := b) hpage)
  have hcount : source.count b = page.count b := count_eq hpage hpb
  have hb : (source.count b).singleQuery = b := by
    rw [hcount]
    exact (singleQuery_page hpb).2.2
  refine ⟨⟨nofun, ?_, ?_⟩, hor, ?_⟩
  · rintro _ ⟨⟩
    exact hpage
  · rintro _ ⟨⟩
    cases hc : ms.countMs with
    | some k => exact h.count k hc
    | none =>
      rw [Option.getD_none, hb]
      exact ⟨page, hpb, hcount⟩
  · cases hc : ms.countMs with
    | some k => exact .inl (by simp [MappedStatement.sources, hc])
    | none => exact .inr hb

/-- A kind of source that is not paged: the original runs instead. -/
theorem intercept_unsupported (h : Inv original ms) (he : c.param.entity = some e)
    (hp : e.pagingQuery = true) (hs : pageSource e.singleQuery ms.sqlSource = none) :
    (intercept x c (.of ms c)).sent = expected x original c ∧
      Inv original (intercept x c (.of ms c)).ms := by
  have hi : intercept x c (.of ms c) =
      (((Invocation.of ms c).setEntity (Entity.beforeCount e)).proceed x c).1 := by
    have hs' : pageSource e.singleQuery
        ((Invocation.of ms c).setEntity (Entity.beforeCount e)).ms.sqlSource = none := hs
    have hentity : (Invocation.of ms c).param.entity = some e := he
    simp only [intercept, listByPage, hentity, hp, if_true, paged, hs', orProceed]
  rw [hi, proceed_sent, proceed_ms]
  refine ⟨?_, h⟩
  rw [h.pageSource_eq] at hs
  cases hsql : ms.sqlSource with
  | page source =>
    rw [hsql] at hs
    cases hs
  | plain source =>
    rw [hsql] at hs
    have hnone : (original.page e.singleQuery).isNone = true := by simp [hs]
    simp only [expected, he, hp, hnone, if_true, Invocation.getBoundSql, Invocation.setEntity,
      Invocation.of, hsql, h.getBoundSql_plain hsql]
    rfl

/-- The count and the page of its own flag, where these are what its sources
give. -/
theorem intercept_supported {source countMs : AbstractSqlSource A} (he : c.param.entity = some e)
    (hp : e.pagingQuery = true) (hs : pageSource e.singleQuery ms.sqlSource = some source)
    (hc : ms.countMs.getD (source.count e.singleQuery) = countMs)
    (hpage : (original.page e.singleQuery).isNone = false)
    (hcountSql : ∀ p : Param A, p.entity = some (Entity.beforeCount e) →
      countMs.getBoundSql x p = ownSql x true p original)
    (hpageSql : ∀ (p : Param A) (n : Int32),
      p.entity = some (Entity.afterCount (Entity.beforeCount e) n) →
        source.getBoundSql x p = ownSql x false p original) :
    (intercept x c (.of ms c)).sent = expected x original c ∧
      (intercept x c (.of ms c)).ms = ⟨.page source, some countMs⟩ := by
  let i : Invocation A := ⟨⟨.page source, some countMs⟩, true,
    { c.param with entity := some (Entity.beforeCount e) }, []⟩
  have hi : intercept x c (.of ms c) = orProceed x c
      (if (i.proceed x c).2 then i.proceed x c
      else
        match c.totalCount with
        | none => ((i.proceed x c).1, true)
        | some n =>
          ({ (i.proceed x c).1.setEntity (Entity.afterCount (Entity.beforeCount e) n) with
              isCount := false }).proceed x c) := by
    have hentity : (Invocation.of ms c).param.entity = some e := he
    have hs' : pageSource e.singleQuery
        ((Invocation.of ms c).setEntity (Entity.beforeCount e)).ms.sqlSource = some source := hs
    have hc' : ((Invocation.of ms c).setEntity (Entity.beforeCount e)).ms.countMs.getD
        (source.count e.singleQuery) = countMs := hc
    simp only [intercept, listByPage, hentity, hp, if_true, paged, hs', hc']
    rfl
  have hsql : i.getBoundSql x = ownSql x true i.param original := hcountSql i.param rfl
  rw [hi]
  simp only [expected, he, hp, hpage, if_true]
  cases ho : ownSql x true i.param original with
  | none =>
    rw [ho] at hsql
    simp only [proceed_of_none hsql, if_true, orProceed]
    exact ⟨rfl, rfl⟩
  | some sql =>
    rw [ho] at hsql
    have hr : i.proceed x c = ({ i with sent := i.sent ++ [sql] }, c.throws 0) :=
      proceed_of_some hsql
    rw [hr]
    cases ht : c.throws 0 with
    | true =>
      rw [if_pos rfl, again_spec hsql]
      exact ⟨rfl, rfl⟩
    | false =>
      simp only [Bool.false_eq_true, if_false]
      cases htotal : c.totalCount with
      | none =>
        simp only [again_spec hsql]
        exact ⟨rfl, rfl⟩
      | some n =>
        -- the page, after the count was sent
        let last : Invocation A := ⟨⟨.page source, some countMs⟩, false,
          { c.param with entity := some (Entity.afterCount (Entity.beforeCount e) n) }, [sql]⟩
        have hlast : last.getBoundSql x = ownSql x false last.param original :=
          hpageSql last.param n rfl
        obtain ⟨hms, hsent⟩ := retry_spec (x := x) (c := c) (i := last)
        rw [hlast] at hsent
        exact ⟨hsent, hms⟩

/-- A paged call runs the count and the page of its own flag. -/
theorem intercept_paged (h : Inv original ms) (he : c.param.entity = some e)
    (hp : e.pagingQuery = true)
    (hok : (original.page e.singleQuery).isSome = true →
      e.useCCJSqlParse = false ∧ ∀ source ∈ ms.sources,
        dialect (getDialect x.databaseId) source.singleQuery =
          dialect (getDialect x.databaseId) e.singleQuery) :
    (intercept x c (.of ms c)).sent = expected x original c ∧
      Inv original (intercept x c (.of ms c)).ms := by
  cases hs : pageSource e.singleQuery ms.sqlSource with
  | none => exact intercept_unsupported h he hp hs
  | some source =>
    obtain ⟨hinv, hsource, hcount⟩ := h.build hs
    have hpage := hinv.page source rfl
    have hsome : (original.page e.singleQuery).isSome = true := page_isSome hpage
    obtain ⟨hccj, hsame⟩ := hok hsome
    have hdialect : ∀ source, source ∈ ms.sources ∨ source.singleQuery = e.singleQuery →
        dialect (getDialect x.databaseId) source.singleQuery =
          dialect (getDialect x.databaseId) e.singleQuery := by
      rintro source (hmem | heq)
      · exact hsame source hmem
      · rw [heq]
    obtain ⟨page, hcpage, hceq⟩ := hinv.count _ rfl
    have hnone : (original.page e.singleQuery).isNone = false := by simpa using hsome
    obtain ⟨hsent, hms⟩ := intercept_supported (x := x) he hp hs rfl hnone
      (fun p hpe => by
        rw [hceq]
        exact getBoundSql_count hcpage hpe hccj (hdialect _ hcount))
      (fun p n hpe => getBoundSql_page hpage hpe hccj (hdialect _ hsource))
    rw [hms]
    exact ⟨hsent, hinv⟩

/-! ### Every run -/

/-- What a careful call sends is that of its own parameters. -/
theorem step_spec {s : State A} (h : Inv original s.ms) (hok : Careful x original s c) :
    (intercept x c (.of s.ms c)).sent = expected x original c ∧
      Inv original (intercept x c (.of s.ms c)).ms := by
  cases he : c.param.entity with
  | none =>
    simp only [Careful, he] at hok
    exact intercept_none h he hok
  | some e =>
    simp only [Careful, he] at hok
    cases hp : e.pagingQuery with
    | false => exact intercept_unpaged h he hp
    | true => exact intercept_paged h he hp (hok hp)

/-- **History independence** in every run whose paged calls find the sources
built for their own templates: each call sends the SQL of its own parameters. -/
theorem independent_of_careful (x : Configuration) (original : SqlSource A) {s : State A}
    (h : Reach (step x) (Careful x original) (start original) s) : Independent x original s := by
  have hI : Inv original s.ms ∧ Independent x original s := by
    apply h.invariant (I := fun s => Inv original s.ms ∧ Independent x original s)
    · exact ⟨Inv.start, nofun⟩
    · rintro s c s' ⟨hinv, hlog⟩ hok hstep
      cases hstep
      obtain ⟨hsent, hinv'⟩ := step_spec hinv hok
      refine ⟨hinv', fun y hy => ?_⟩
      rcases List.mem_cons.mp hy with rfl | hy
      · exact hsent
      · exact hlog y hy
  exact hI.2

/-! ### Calls on MySQL -/

instance (s : State A) (c : Call A) : Decidable (Careful x original s c) :=
  match h : c.param.entity with
  | none => decidable_of_iff (∀ source ∈ s.ms.sources, source.flag = true) (by simp [Careful, h])
  | some e => decidable_of_iff (e.pagingQuery = true → (original.page e.singleQuery).isSome = true →
      e.useCCJSqlParse = false ∧ ∀ source ∈ s.ms.sources,
        dialect (getDialect x.databaseId) source.singleQuery =
          dialect (getDialect x.databaseId) e.singleQuery) (by simp [Careful, h])

def mysql : Configuration where
  databaseId := some "mysql"
  ccj _ := .jsqlParserException
  toStatic := some

def query : SqlSource Unit := .staticSqlSource "SELECT * FROM sys_role".toList

/-- A call for the first page, of 20 rows and three in all, where nothing throws. -/
def call (pagingQuery singleQuery : Bool) : Call Unit where
  param := ⟨some { pagingQuery := pagingQuery, singleQuery := singleQuery }, ()⟩
  totalCount := some 3
  throws _ := false

theorem independent_oneTemplate :
    Independent mysql query ((runWith (step mysql) (Careful mysql query) (start query)
      [call true true, call false false, call true true]).get (by decide +kernel)) :=
  independent_of_careful mysql query
    (reach_get [call true true, call false false, call true true] (by decide +kernel))

/-- A call of a single table is sent the SQL for joins of the first call. -/
theorem template_kept : ¬ ∀ (x : Configuration) (original : SqlSource Unit) (s : State Unit),
    Reach (step x) (fun _ _ => True) (start original) s → Independent x original s := fun h => by
  have hr : Reach (step mysql) (fun _ _ => True) (start query) _ :=
    reach_get [call true false, call true true] (by decide +kernel)
  have hlast := h mysql query _ hr (_, _) List.mem_cons_self
  revert hlast
  decide +kernel

end PageProcess
end CloudManager
