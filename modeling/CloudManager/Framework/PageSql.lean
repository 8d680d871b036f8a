/-
# The SQL of a paged query

`PageSqlHelper` wraps the user's SQL by the template of the database, one for
queries of a single table and one for joins, and `AbstractSqlSource.replace`
fills the placeholders in. `SQLParseHelper` does both at once on what a parser
makes of the SQL. Texts are lists of characters; `none` is an exception.
-/
import CloudManager.Framework.BaseEntity
import CloudManager.Lib.JavaString
import CloudManager.Lib.JavaText

namespace CloudManager
namespace PageSql

abbrev Sql := List Char

/-- What paging reads of an entity, besides its numbers. -/
structure Entity extends BaseEntity where
  pagingQuery : Bool := true
  singleQuery : Bool := false
  useCCJSqlParse : Bool := false
  pkColumn : Option Sql := none
  deriving DecidableEq, Repr

/-! ### PageSqlHelper -/

def HEADER : Sql := "\x7bheader\x7d".toList
def ORDER_BY : Sql := "\x7borderby\x7d".toList
def ORDER_BY_OVER : Sql := "\x7borderbyover\x7d".toList

structure DialectType where
  /-- `prefix`. -/
  opening : Sql
  suffix : Sql
  countPrefix : Sql
  countSuffix : Sql
  deriving DecidableEq, Repr

/-- Joins. -/
def LEFT_JION_MAP : List (String × DialectType) :=
  [("mysql",
    { countPrefix := "SELECT COUNT(DISTINCT  \x7bPKColumn\x7d) FROM(".toList
      countSuffix := ") T".toList
      opening := "SELECT * FROM ( SELECT CASE WHEN @id != T.\x7bPKColumn\x7d THEN ".toList ++
        "@dense_rank := @dense_rank + 1 ELSE @dense_rank := @dense_rank END AS rownum, ".toList ++
        "@id := T.\x7bPKColumn\x7d AS ke, T.* FROM ( SELECT * FROM (".toList
      suffix := ") T, (SELECT @dense_rank := 0) d, (SELECT @id := '') k ".toList ++ ORDER_BY ++
        ") T ) t WHERE ROWNUM > \x7bstartRow\x7d AND ROWNUM <= \x7bendRow\x7d".toList }),
   ("oracle",
    { countPrefix := "SELECT COUNT(DISTINCT NUMROW) FROM(SELECT DENSE_RANK() OVER(".toList ++
        ORDER_BY_OVER ++ ") NUMROW FROM (".toList
      countSuffix := ") T) T".toList
      opening := "SELECT * FROM(SELECT DENSE_RANK() OVER(".toList ++ ORDER_BY_OVER ++
        ") NUMROW,T.* FROM (".toList
      suffix := ") T ) T WHERE T.NUMROW >\x7bstartRow\x7d AND T.NUMROW <= \x7bendRow\x7d ".toList ++
        ORDER_BY }),
   ("sqlserver",
    { countPrefix := HEADER ++
        "SELECT COUNT(DISTINCT NUMROW) FROM(SELECT DENSE_RANK() OVER(".toList ++ ORDER_BY_OVER ++
        ") NUMROW FROM (".toList
      countSuffix := ") T) T".toList
      opening := HEADER ++ "SELECT * FROM(SELECT DENSE_RANK() OVER(".toList ++ ORDER_BY_OVER ++
        ") NUMROW,T.* FROM (".toList
      suffix := ") T ) T WHERE T.NUMROW >\x7bstartRow\x7d AND T.NUMROW <= \x7bendRow\x7d ".toList ++
        ORDER_BY })]

/-- Queries of one table. -/
def SINGLE_QUERY_MAP : List (String × DialectType) :=
  [("mysql",
    { countPrefix := "SELECT COUNT(*) FROM( ".toList
      countSuffix := " ) T".toList
      opening := []
      suffix := ORDER_BY ++ " LIMIT \x7bstartRow\x7d, \x7bpageSize\x7d".toList }),
   ("oracle",
    { countPrefix := "SELECT COUNT(DISTINCT NUMROW) FROM(SELECT DENSE_RANK() OVER(".toList ++
        ORDER_BY_OVER ++ ") NUMROW  FROM (".toList
      countSuffix := ") T) T".toList
      opening := "SELECT * FROM(SELECT DENSE_RANK() OVER(".toList ++ ORDER_BY_OVER ++
        ") NUMROW, T.* FROM (".toList
      suffix := ") T ) T WHERE T.NUMROW >\x7bstartRow\x7d AND T.NUMROW <= \x7bendRow\x7d ".toList ++
        ORDER_BY }),
   ("sqlserver",
    { countPrefix := HEADER ++
        "SELECT COUNT(DISTINCT NUMROW) FROM(SELECT DENSE_RANK() OVER(".toList ++ ORDER_BY_OVER ++
        ") NUMROW FROM (".toList
      countSuffix := ") T) T".toList
      opening := HEADER ++ "SELECT * FROM(SELECT DENSE_RANK() OVER(".toList ++ ORDER_BY_OVER ++
        ") NUMROW,T.* FROM (".toList
      suffix := ") T ) T WHERE T.NUMROW >\x7bstartRow\x7d AND T.NUMROW <= \x7bendRow\x7d ".toList ++
        ORDER_BY })]

/-- The templates a flag selects; a database without templates has none. -/
def dialect (databaseId : Option String) (singleQuery : Bool) : Option DialectType :=
  let map := if singleQuery then SINGLE_QUERY_MAP else LEFT_JION_MAP
  databaseId.bind fun id =>
    (map.find? fun entry => JavaString.equalsIgnoreCase entry.1 id).map Prod.snd

def dialects : List DialectType := (LEFT_JION_MAP ++ SINGLE_QUERY_MAP).map Prod.snd

theorem mem_dialects {databaseId : Option String} {singleQuery : Bool} {d : DialectType}
    (h : dialect databaseId singleQuery = some d) : d ∈ dialects := by
  obtain ⟨id, -, hid⟩ := Option.bind_eq_some_iff.mp h
  obtain ⟨entry, hfind, rfl⟩ := Option.map_eq_some_iff.mp hid
  have hentry := List.mem_of_find?_eq_some hfind
  unfold dialects
  rw [List.map_append, List.mem_append]
  cases singleQuery with
  | true => exact .inr (List.mem_map_of_mem hentry)
  | false => exact .inl (List.mem_map_of_mem hentry)

def getSql (countextSql : Sql) (databaseId : Option String) (singleQuery : Bool) : Option Sql :=
  (dialect databaseId singleQuery).map fun d => d.opening ++ countextSql ++ d.suffix

def getCountSql (countextSql : Sql) (databaseId : Option String) (singleQuery : Bool) : Option Sql :=
  (dialect databaseId singleQuery).map fun d => d.countPrefix ++ countextSql ++ d.countSuffix

/-! ### AbstractSqlSource -/

/-- `String.valueOf(int)`. -/
def valueOf (n : Int32) : Sql := (toString n.toInt).toList

/-- A number is written with digits and a minus sign. -/
theorem mem_valueOf {n : Int32} {c : Char} (h : c ∈ valueOf n) : c = '-' ∨ c.isDigit = true := by
  have hdigit : ∀ k : ℕ, c ∈ k.repr.toList → c.isDigit = true := fun k hk => by
    rw [Nat.toList_repr] at hk
    exact Nat.isDigit_of_mem_toDigits (by decide) (by decide) hk
  rw [valueOf, Int.toString_eq_repr, Int.repr_eq_if] at h
  split at h
  · exact .inr (hdigit _ h)
  · rw [String.toList_append, List.mem_append] at h
    rcases h with h | h
    · exact .inl (by simpa using h)
    · exact .inr (hdigit _ h)

theorem valueOf_ne_nil (n : Int32) : valueOf n ≠ [] := by
  rw [valueOf, Int.toString_eq_repr, Int.repr_eq_if]
  split
  · rw [Nat.toList_repr]
    exact Nat.toDigits_ne_nil
  · simp

def getPKColumn (e : Entity) : Sql :=
  match e.pkColumn with
  | some pkColumn => if JavaText.isBlank pkColumn then "ID".toList else pkColumn
  | none => "ID".toList

/-- ` ORDER BY `. -/
def orderByText : Sql := " ORDER BY ".toList

/-- What opens and closes the marker of a placeholder. -/
def marker (key : Sql) : Sql × Sql :=
  if key = HEADER then ("#header\x7b".toList, "header\x7d".toList)
  else if key = ORDER_BY then ("#orderby\x7b".toList, "\x7d".toList)
  else ("#overby\x7b".toList, "\x7d".toList)

def converOrderByOver (databaseId : Option String) (e : Entity) : Sql :=
  let mysql := databaseId.any (JavaString.equalsIgnoreCase "mysql")
  if !mysql || (mysql && !e.singleQuery) then orderByText ++ getPKColumn e else []

/-- `flag` is that of the count; the sorting is empty, the loop that fills it
having no body any more. -/
def converOrderBy (flag : Bool) (e : Entity) (key sql : Sql) : Sql :=
  let sql :=
    if key = ORDER_BY_OVER then
      orderByText ++ JavaText.dropOrderBy 0 sql ++ [','] ++ getPKColumn e
    else if key = ORDER_BY && !flag then
      if JavaText.isBlank sql then orderByText else orderByText ++ JavaText.dropOrderBy 0 sql
    else sql
  if sql = orderByText then [] else sql

/-- A placeholder takes the text of the first marker, which is then dropped. -/
def replaceKey (flag : Bool) (e : Entity) (sql key : Sql) : Sql :=
  let m := (JavaText.find (marker key).1 (marker key).2 sql).getD ([], [])
  JavaText.replace m.1 [] (JavaText.replace key (converOrderBy flag e key m.2) sql)

def replace (databaseId : Option String) (flag : Bool) (sql : Sql) (e : Entity) : Sql :=
  let sql := JavaText.squeeze false sql
  let sql := JavaText.replace "\x7bstartRow\x7d".toList (valueOf e.getStartRow) sql
  let sql := JavaText.replace "\x7bendRow\x7d".toList (valueOf e.getEndRow) sql
  let sql := JavaText.replace "\x7bpageSize\x7d".toList (valueOf e.pageSize) sql
  let sql := JavaText.replace "\x7bPKColumn\x7d".toList (getPKColumn e) sql
  if JavaText.contains "#overby".toList sql then
    [HEADER, ORDER_BY, ORDER_BY_OVER].foldl (replaceKey flag e) sql
  else
    let sql := JavaText.replace ORDER_BY_OVER (converOrderByOver databaseId e) sql
    [HEADER, ORDER_BY].foldl (replaceKey flag e) sql

/-! ### SQLParseHelper -/

/-- A plain select as the parser gives it, its parts as their texts. -/
structure PlainSelect where
  withItems : List Sql
  /-- `orderByToString`. -/
  orderBy : Sql
  useBrackets : Bool
  oracleHint : Option Sql
  skip : Option Sql
  first : Option Sql
  distinct : Option Sql
  top : Option Sql
  selectItems : Sql
  intoTables : Option (List Sql)
  fromItem : Option Sql
  /-- Whether a join is simple, and its text. -/
  joins : List (Bool × Sql)
  whereText : Option Sql
  oracleHierarchical : Option Sql
  groupBy : Sql
  having : Option Sql
  limit : Option Sql
  offset : Option Sql
  fetch : Option Sql
  isForUpdate : Bool
  forUpdateTable : Option Sql
  deriving DecidableEq, Repr

/-- What `CCJSqlParserUtil.parse` makes of a text. -/
inductive Parsed
  | jsqlParserException
  /-- Another statement, or a select with another body. -/
  | other
  | plain (select : PlainSelect)
  deriving DecidableEq, Repr

namespace PlainSelect

/-- `append(a).append(" ")`, if it is there. -/
def spaced (a : Option Sql) : Sql := (a.map fun a => a ++ [' ']).getD []

/-- `append(keyword).append(a)`, if it is there. -/
def after (keyword : String) (a : Option Sql) : Sql := (a.map fun a => keyword.toList ++ a).getD []

def toString (s : PlainSelect) : Sql :=
  let whereText := after " WHERE " s.whereText
  let body :=
    if s.fromItem.isSome then
      after " FROM " s.fromItem ++
      s.joins.flatMap (fun join => (if join.1 then ", " else " ").toList ++ join.2) ++
      whereText ++ after "" s.oracleHierarchical ++ s.groupBy ++ after " HAVING " s.having ++
      after "" s.limit ++ after "" s.offset ++ after "" s.fetch ++
      (if s.isForUpdate then " FOR UPDATE".toList ++ after " OF " s.forUpdateTable else [])
    else whereText
  (if s.useBrackets then ['('] else []) ++ "SELECT ".toList ++
    spaced s.oracleHint ++ spaced s.skip ++ spaced s.first ++ spaced s.distinct ++ spaced s.top ++
    s.selectItems ++ after " INTO " (s.intoTables.map fun ts => List.intercalate ", ".toList ts) ++
    body ++ (if s.useBrackets then [')'] else [])

end PlainSelect

/-- `SQLParseHelper.parse`, where `flag` says that it is the count; a text that
the parser does not take is left as it is. -/
def parse (ccj : Sql → Parsed) (sql : Sql) (databaseId : Option String) (flag : Bool) (e : Entity) :
    Option Sql :=
  match ccj sql with
  | .jsqlParserException => some sql
  | .other => none
  | .plain select =>
    let withItems := !select.withItems.isEmpty
    let header := if withItems then "WITH ".toList ++ List.intercalate [','] select.withItems else []
    let orderby := if withItems then select.orderBy else " ORDER BY ID".toList
    let body := select.toString
    let wrapped :=
      if flag then getCountSql body databaseId e.singleQuery
      else getSql body databaseId e.singleQuery
    wrapped.map fun wrapped =>
      let sql := header ++ wrapped
      let sql := JavaText.replace HEADER [] sql
      let sql := JavaText.replace ORDER_BY orderby sql
      let sql := JavaText.replace "\x7bstartRow\x7d".toList (valueOf e.getStartRow) sql
      let sql := JavaText.replace "\x7bendRow\x7d".toList (valueOf e.getEndRow) sql
      let sql := JavaText.replace "\x7bpageSize\x7d".toList (valueOf e.pageSize) sql
      JavaText.replace "\x7bPKColumn\x7d".toList (getPKColumn e) sql

end PageSql
end CloudManager
