/-
# The count statement counts and the page statement pages

A page source and a count source carry two flags, `flag` for the count and
`singleQuery` for the templates of one table. Without the SQL parser the text is
wrapped by both. With it the source hands `singleQuery` to `SQLParseHelper.parse` in
the place of the count's flag, so the text is wrapped for the count exactly where the
query is one of a single table; the wrappings differ, whatever the query
(`parse_true_ne_false`), so that is right for one of the two statements only.
-/
import CloudManager.Framework.PageProcess

namespace CloudManager
namespace PageProcess

open PageSql JavaText

variable {A : Type*}

namespace AbstractSqlSource

/-! ### What a source wraps -/

/-- The user's SQL. -/
def query (p : Param A) : AbstractSqlSource A → Option Sql
  | .pageDynamicSqlSource rootSqlNode _ _ => rootSqlNode p
  | .pageRawSqlSource sql _ _ => some sql

/-- What becomes of the wrapped SQL; a raw source replaces nothing in what the parser
gives. -/
def finish (x : Configuration) (e : Entity) (sql : Sql) : AbstractSqlSource A → Option Sql
  | .pageDynamicSqlSource _ _ flag => x.toStatic (replace (getDialect x.databaseId) flag sql e)
  | .pageRawSqlSource _ _ flag =>
    some (if e.useCCJSqlParse then sql else replace (getDialect x.databaseId) flag sql e)

/-- The wrapped SQL. -/
def wrapping (x : Configuration) (p : Param A) (e : Entity) (source : AbstractSqlSource A) :
    Option Sql :=
  (source.query p).bind fun sql => wrap x source.singleQuery source.flag sql e

/-- The wrapping that the source's flag asks for: that of the count for a count source,
that of the page for a page source. -/
def properWrapping (x : Configuration) (p : Param A) (e : Entity) (source : AbstractSqlSource A) :
    Option Sql :=
  (source.query p).bind fun sql =>
    let databaseId := getDialect x.databaseId
    if e.useCCJSqlParse then parse x.ccj sql databaseId source.flag e
    else if source.flag then getCountSql sql databaseId source.singleQuery
    else getSql sql databaseId source.singleQuery

theorem getBoundSql_eq (x : Configuration) (p : Param A) (source : AbstractSqlSource A) :
    source.getBoundSql x p =
      p.entity.bind fun e => (source.wrapping x p e).bind (source.finish x e ·) := by
  unfold getBoundSql wrapping
  cases hp : p.entity with
  | none => rfl
  | some e =>
    cases source with
    | pageDynamicSqlSource rootSqlNode singleQuery flag =>
      simp only [query, finish, Option.bind_some, Option.bind_assoc]
      rfl
    | pageRawSqlSource sql singleQuery flag =>
      simp only [query, finish, Option.bind_some]
      exact Option.map_eq_bind

end AbstractSqlSource

/-! ### The two wrappings of a plain select -/

/-- What `parse` fills in, one after the other. -/
def fill (orderby : Sql) (e : Entity) (sql : Sql) : Sql :=
  let sql := JavaText.replace HEADER [] sql
  let sql := JavaText.replace ORDER_BY orderby sql
  let sql := JavaText.replace "\x7bstartRow\x7d".toList (valueOf e.getStartRow) sql
  let sql := JavaText.replace "\x7bendRow\x7d".toList (valueOf e.getEndRow) sql
  let sql := JavaText.replace "\x7bpageSize\x7d".toList (valueOf e.pageSize) sql
  JavaText.replace "\x7bPKColumn\x7d".toList (getPKColumn e) sql

/-- Blanks are in no placeholder: the parts between them are filled one by one. -/
theorem fill_append_blank (orderby : Sql) (e : Entity) (a b : Sql) :
    fill orderby e (a ++ ' ' :: b) = fill orderby e a ++ ' ' :: fill orderby e b := by
  unfold fill
  simp only
  rw [replace_append_cons (by decide) (by decide), replace_append_cons (by decide) (by decide),
    replace_append_cons (by decide) (by decide), replace_append_cons (by decide) (by decide),
    replace_append_cons (by decide) (by decide), replace_append_cons (by decide) (by decide)]

theorem fill_cons {c : Char} (hc : c ≠ '\x7b') (orderby : Sql) (e : Entity) (sql : Sql) :
    fill orderby e (c :: sql) = c :: fill orderby e sql := by
  have hhead : ∀ t : Sql, t.head? = some '\x7b' → t.head? ≠ some c := fun t ht he =>
    hc (Option.some.inj (he.symm.trans ht))
  unfold fill
  simp only
  rw [replace_cons (by decide) (hhead _ rfl), replace_cons (by decide) (hhead _ rfl),
    replace_cons (by decide) (hhead _ rfl), replace_cons (by decide) (hhead _ rfl),
    replace_cons (by decide) (hhead _ rfl), replace_cons (by decide) (hhead _ rfl)]

/-- The text for the count and that for the page are not the same, whatever stands in
and before them. -/
def Differ (d : DialectType) : Prop := ∀ (orderby : Sql) (e : Entity) (header body : Sql),
  fill orderby e (header ++ (d.countPrefix ++ body ++ d.countSuffix)) ≠
    fill orderby e (header ++ (d.opening ++ body ++ d.suffix))

/-- They begin with different words after a common first one. -/
theorem differ_of_openings {d : DialectType} (first : Sql) (c c' : Char)
    (hcount : first ++ [' ', c] <+: d.countPrefix) (hpage : first ++ [' ', c'] <+: d.opening)
    (hc : c ≠ '\x7b') (hc' : c' ≠ '\x7b') (hne : c ≠ c') : Differ d := by
  intro orderby e header body heq
  obtain ⟨a, ha⟩ := hcount
  obtain ⟨b, hb⟩ := hpage
  have hcount : header ++ (d.countPrefix ++ body ++ d.countSuffix) =
      (header ++ first) ++ ' ' :: c :: (a ++ body ++ d.countSuffix) := by
    rw [← ha]
    simp only [List.append_assoc, List.cons_append, List.nil_append]
  have hpage : header ++ (d.opening ++ body ++ d.suffix) =
      (header ++ first) ++ ' ' :: c' :: (b ++ body ++ d.suffix) := by
    rw [← hb]
    simp only [List.append_assoc, List.cons_append, List.nil_append]
  rw [hcount, hpage, fill_append_blank, fill_append_blank, fill_cons hc, fill_cons hc',
    List.append_cancel_left_eq, List.cons.injEq, List.cons.injEq] at heq
  exact hne heq.2.1

/-- A number is filled in for the page's size. -/
theorem fill_pageSize (orderby : Sql) (e : Entity) :
    fill orderby e "\x7bpageSize\x7d".toList = valueOf e.pageSize := by
  have hpk : ¬ "\x7bPKColumn\x7d".toList <:+: valueOf e.pageSize := fun hi => by
    have hmem : '\x7b' ∈ valueOf e.pageSize := hi.subset (by decide)
    rcases mem_valueOf hmem with h | h <;> revert h <;> decide
  have hother : ∀ t ∈ [HEADER, ORDER_BY, "\x7bstartRow\x7d".toList, "\x7bendRow\x7d".toList],
      t ≠ [] ∧ ¬ t <:+: "\x7bpageSize\x7d".toList := by decide
  have hkeep : ∀ t ∈ [HEADER, ORDER_BY, "\x7bstartRow\x7d".toList, "\x7bendRow\x7d".toList],
      ∀ r, JavaText.replace t r "\x7bpageSize\x7d".toList = "\x7bpageSize\x7d".toList :=
    fun t ht r => replace_of_not_infix (hother t ht).1 (hother t ht).2
  unfold fill
  simp only
  rw [hkeep HEADER (by decide), hkeep ORDER_BY (by decide),
    hkeep "\x7bstartRow\x7d".toList (by decide), hkeep "\x7bendRow\x7d".toList (by decide)]
  have hself := replace_self_append (t := "\x7bpageSize\x7d".toList) (by decide)
    (valueOf e.pageSize) []
  rw [List.append_nil, replace_nil (by decide), List.append_nil] at hself
  rw [hself, replace_of_not_infix (by decide) hpk]

/-- Or the count ends with a name, and the page with its size. -/
theorem differ_of_ends {d : DialectType} (hcount : " T".toList <:+ d.countSuffix)
    (hpage : " \x7bpageSize\x7d".toList <:+ d.suffix) : Differ d := by
  intro orderby e header body heq
  obtain ⟨a, ha⟩ := hcount
  obtain ⟨b, hb⟩ := hpage
  have hcount : header ++ (d.countPrefix ++ body ++ d.countSuffix) =
      (header ++ (d.countPrefix ++ body ++ a)) ++ ' ' :: "T".toList := by
    rw [← ha]
    simp only [List.append_assoc]
    rfl
  have hpage : header ++ (d.opening ++ body ++ d.suffix) =
      (header ++ (d.opening ++ body ++ b)) ++ ' ' :: "\x7bpageSize\x7d".toList := by
    rw [← hb]
    simp only [List.append_assoc]
    rfl
  have hT : fill orderby e "T".toList = "T".toList := by
    have hnil : fill orderby e [] = [] := rfl
    show fill orderby e ('T' :: []) = _
    rw [fill_cons (by decide), hnil]
    rfl
  rw [hcount, hpage, fill_append_blank, fill_append_blank, fill_pageSize, hT] at heq
  -- the last characters
  have hlast := congrArg List.getLast? heq
  rw [List.getLast?_append_of_ne_nil _ (by simp), List.getLast?_append_of_ne_nil _ (by simp),
    List.getLast?_cons_of_ne_nil (by simp), List.getLast?_cons_of_ne_nil (valueOf_ne_nil _)] at hlast
  have hmem : 'T' ∈ valueOf e.pageSize := List.mem_of_getLast? hlast.symm
  rcases mem_valueOf hmem with h | h <;> revert h <;> decide

/-- So it is for every database. -/
theorem differ_of_dialect {databaseId : Option String} {singleQuery : Bool} {d : DialectType}
    (h : dialect databaseId singleQuery = some d) : Differ d := by
  have hmem := mem_dialects h
  simp only [dialects, LEFT_JION_MAP, SINGLE_QUERY_MAP, List.cons_append, List.nil_append,
    List.map_cons, List.map_nil, List.mem_cons, List.not_mem_nil, or_false] at hmem
  rcases hmem with rfl | rfl | rfl | rfl | rfl | rfl
  · exact differ_of_openings "SELECT".toList 'C' '*' (by decide) (by decide) (by decide) (by decide)
      (by decide)
  · exact differ_of_openings "SELECT".toList 'C' '*' (by decide) (by decide) (by decide) (by decide)
      (by decide)
  · exact differ_of_openings (HEADER ++ "SELECT".toList) 'C' '*' (by decide) (by decide) (by decide)
      (by decide) (by decide)
  · exact differ_of_ends (by decide) (by decide)
  · exact differ_of_openings "SELECT".toList 'C' '*' (by decide) (by decide) (by decide) (by decide)
      (by decide)
  · exact differ_of_openings (HEADER ++ "SELECT".toList) 'C' '*' (by decide) (by decide) (by decide)
      (by decide) (by decide)

/-- The text around the query, by the count's flag. -/
def DialectType.around (d : DialectType) (flag : Bool) (body : Sql) : Sql :=
  if flag then d.countPrefix ++ body ++ d.countSuffix else d.opening ++ body ++ d.suffix

theorem Differ.around {d : DialectType} (h : Differ d) {b flag : Bool} (hne : b ≠ flag)
    (orderby : Sql) (e : Entity) (header body : Sql) :
    fill orderby e (header ++ DialectType.around d b body) ≠
      fill orderby e (header ++ DialectType.around d flag body) := by
  have hd := h orderby e header body
  cases b with
  | true =>
    cases flag with
    | true => exact (hne rfl).elim
    | false => exact hd
  | false =>
    cases flag with
    | true => exact hd.symm
    | false => exact (hne rfl).elim

theorem parse_plain {ccj : Sql → Parsed} {sql : Sql} {select : PlainSelect}
    (h : ccj sql = .plain select) (databaseId : Option String) (flag : Bool) (e : Entity) :
    parse ccj sql databaseId flag e = (dialect databaseId e.singleQuery).map fun d =>
      fill (if !select.withItems.isEmpty then select.orderBy else " ORDER BY ID".toList) e
        ((if !select.withItems.isEmpty then
            "WITH ".toList ++ List.intercalate [','] select.withItems else []) ++
          DialectType.around d flag select.toString) := by
  unfold parse
  rw [h]
  simp only [getCountSql, getSql]
  cases flag with
  | true =>
    simp only [fill, DialectType.around, if_true, Option.map_map, Function.comp_def]
  | false =>
    simp only [fill, DialectType.around, Bool.false_eq_true, if_false, Option.map_map,
      Function.comp_def]

/-- What a plain select is wrapped in shows the flag, if the database has templates. -/
theorem parse_eq_iff {ccj : Sql → Parsed} {sql : Sql} {databaseId : Option String} {e : Entity}
    (b flag : Bool) : parse ccj sql databaseId b e = parse ccj sql databaseId flag e ↔
      ∀ select, ccj sql = .plain select → (dialect databaseId e.singleQuery).isSome = true →
        b = flag := by
  by_cases hb : b = flag
  · rw [hb]
    exact ⟨fun _ _ _ _ => rfl, fun _ => rfl⟩
  cases hccj : ccj sql with
  | jsqlParserException =>
    have hleft : ∀ flag, parse ccj sql databaseId flag e = some sql := fun flag => by
      rw [parse, hccj]
    rw [hleft, hleft]
    exact ⟨fun _ _ h => (by cases h), fun _ => rfl⟩
  | other =>
    have hleft : ∀ flag, parse ccj sql databaseId flag e = none := fun flag => by
      rw [parse, hccj]
    rw [hleft, hleft]
    exact ⟨fun _ _ h => (by cases h), fun _ => rfl⟩
  | plain select =>
    rw [parse_plain hccj, parse_plain hccj]
    cases hd : dialect databaseId e.singleQuery with
    | none =>
      rw [Option.map_none, Option.map_none]
      exact ⟨fun _ _ _ hsome => (Bool.false_ne_true hsome).elim, fun _ => rfl⟩
    | some d =>
      constructor
      · intro heq
        exact ((differ_of_dialect hd).around hb _ _ _ _ (Option.some.inj heq)).elim
      · intro h
        exact (hb (h select rfl rfl)).elim

/-! ### The two statements -/

namespace AbstractSqlSource

/-- **Count and page.** What a source wraps its query in is the wrapping that its flag
asks for exactly if the parser is off, or the flag is the same as that of a single table,
or the parser takes no plain select from the query, or the database has no templates. -/
theorem wrapping_iff (x : Configuration) (p : Param A) (e : Entity) (source : AbstractSqlSource A) :
    source.wrapping x p e = source.properWrapping x p e ↔
      (e.useCCJSqlParse = true → ∀ sql select, source.query p = some sql →
        x.ccj sql = .plain select → (dialect (getDialect x.databaseId) e.singleQuery).isSome = true →
          source.singleQuery = source.flag) := by
  unfold wrapping properWrapping
  cases hq : source.query p with
  | none => exact ⟨fun _ _ _ _ h => (by cases h), fun _ => rfl⟩
  | some sql =>
    rw [Option.bind_some, Option.bind_some, wrap]
    by_cases hccj : e.useCCJSqlParse = true
    · rw [if_pos hccj, if_pos hccj, parse_eq_iff]
      constructor
      · rintro h - sql' select ⟨⟩ hs hd
        exact h select hs hd
      · intro h select hs hd
        exact h hccj sql select rfl hs hd
    · rw [if_neg hccj, if_neg hccj]
      exact ⟨fun _ h => (hccj h).elim, fun _ => rfl⟩

/-- The source wraps its query as its flag asks for. -/
def Yields (x : Configuration) (p : Param A) (source : AbstractSqlSource A) : Prop :=
  ∀ e ∈ p.entity, source.wrapping x p e = source.properWrapping x p e

/-- **Count and page.** The SQL of a source is made of what it wraps its query in; and
that is the wrapping for the count in a count source, and for the page in a page source,
exactly if the parser is off, or the flags for the count and for a single table are the
same, or the query is no plain select, or the database has no templates. -/
theorem yields_iff (x : Configuration) (p : Param A) (source : AbstractSqlSource A) :
    source.getBoundSql x p =
      (p.entity.bind fun e => (source.wrapping x p e).bind (source.finish x e ·)) ∧
    (source.Yields x p ↔ ∀ e ∈ p.entity, e.useCCJSqlParse = true → ∀ sql select,
      source.query p = some sql → x.ccj sql = .plain select →
        (dialect (getDialect x.databaseId) e.singleQuery).isSome = true →
          source.singleQuery = source.flag) :=
  ⟨getBoundSql_eq x p source, forall₂_congr fun e _ => wrapping_iff x p e source⟩

end AbstractSqlSource

open AbstractSqlSource in
/-- Of the two sources built over one, both are right only where no plain select is
wrapped by the parser. -/
theorem both_yield_iff {x : Configuration} {p : Param A} {original : SqlSource A} {b : Bool}
    {page : AbstractSqlSource A} (h : original.page b = some page) :
    page.Yields x p ∧ (page.count b).Yields x p ↔ ∀ e ∈ p.entity, e.useCCJSqlParse = true →
      ∀ sql select, page.query p = some sql → x.ccj sql = .plain select →
        dialect (getDialect x.databaseId) e.singleQuery = none := by
  obtain ⟨hb, hflag, hcount⟩ := singleQuery_page h
  have hquery : (page.count b).query p = page.query p := by
    cases page with
    | pageDynamicSqlSource rootSqlNode singleQuery flag => rfl
    | pageRawSqlSource sql singleQuery flag => rfl
  have hcountFlag : (page.count b).flag = true := by
    cases page with
    | pageDynamicSqlSource rootSqlNode singleQuery flag => rfl
    | pageRawSqlSource sql singleQuery flag => rfl
  have hpageIff : page.Yields x p ↔ _ := forall₂_congr fun e _ => wrapping_iff x p e page
  have hcountIff : (page.count b).Yields x p ↔ _ :=
    forall₂_congr fun e _ => wrapping_iff x p e (page.count b)
  rw [hpageIff, hcountIff, hb, hflag, hcount, hcountFlag, hquery]
  constructor
  · rintro ⟨hp, hc⟩ e he hccj sql select hq hs
    by_contra hne
    have hsome := Option.isSome_iff_ne_none.mpr hne
    exact Bool.false_ne_true ((hp e he hccj sql select hq hs hsome).symm.trans
      (hc e he hccj sql select hq hs hsome))
  · intro hnone
    refine ⟨fun e he hccj sql select hq hs hsome => ?_, fun e he hccj sql select hq hs hsome => ?_⟩
    · rw [hnone e he hccj sql select hq hs] at hsome
      cases hsome
    · rw [hnone e he hccj sql select hq hs] at hsome
      cases hsome

/-! ### One table on MySQL -/

/-- `SELECT * FROM sys_role`, as the parser gives it. -/
def roles : PlainSelect where
  withItems := []
  orderBy := []
  useBrackets := false
  oracleHint := none
  skip := none
  first := none
  distinct := none
  top := none
  selectItems := "*".toList
  intoTables := none
  fromItem := some "sys_role".toList
  joins := []
  whereText := none
  oracleHierarchical := none
  groupBy := []
  having := none
  limit := none
  offset := none
  fetch := none
  isForUpdate := false
  forUpdateTable := none

def parsing : Configuration := { mysql with ccj := fun _ => .plain roles }

/-- The page of a single table, with the parser on. -/
def pageOfRoles : AbstractSqlSource Unit :=
  .pageRawSqlSource "SELECT * FROM sys_role".toList true false

/-- What is sent for the page is the count. -/
theorem page_counts : ¬ ∀ (x : Configuration) (p : Param Unit) (source : AbstractSqlSource Unit),
    source.Yields x p := by
  intro h
  have hpage := h parsing ⟨some { useCCJSqlParse := true, singleQuery := true }, ()⟩ pageOfRoles _ rfl
  revert hpage
  decide +kernel

end PageProcess
end CloudManager
