/-
# A paged query keeps the user's SQL

`PageSqlHelper` puts the templates around a query, and `AbstractSqlSource.replace` fills
them in. `keeps_of_clean`: everything of a clean query is kept but the whitespace outside
literals and parameters and the markers, and no placeholder and no marker is left.
-/
import CloudManager.Framework.PageMarkers

namespace CloudManager
namespace PageSql

open JavaText Scan Substitution

variable {value : Sql → Sql} {done : List Sql} {k : Sql} {ps : List Piece} {e : Entity}
  {before after qs : List (Fragment Sql)} {key : Sql} {flag : Bool}

/-! ### The values -/

/-- What a placeholder is replaced by; `window` is the order of the window. -/
def valueAt (flag : Bool) (e : Entity) (qs : List (Fragment Sql)) (window k : Sql) : Sql :=
  if k = START_ROW then valueOf e.getStartRow
  else if k = END_ROW then valueOf e.getEndRow
  else if k = PAGE_SIZE then valueOf e.pageSize
  else if k = PK_COLUMN then getPKColumn e
  else if k = HEADER then converOrderBy flag e HEADER (contentOf HEADER qs)
  else if k = ORDER_BY then converOrderBy flag e ORDER_BY (contentOf ORDER_BY qs)
  else if k = ORDER_BY_OVER then window
  else []

theorem quiet_of_forall {s : Sql} (hbrace : '\x7b' ∉ s) (hhash : '#' ∉ s.map Char.toLower) :
    Quiet s := by
  refine ⟨fun k hk hi => ?_, fun key hkey hi => ?_⟩
  · obtain ⟨body, rfl, -⟩ := placeholder_cases k hk
    exact hbrace (hi.subset List.mem_cons_self)
  · obtain ⟨body, hbody, -⟩ := opening_cases key hkey
    unfold Opens at hi
    rw [hbody] at hi
    exact hhash (hi.subset List.mem_cons_self)

theorem quiet_valueOf (n : Int32) : Quiet (valueOf n) := by
  have hlower : ∀ c : Char, c = '-' ∨ c.isDigit = true → c ≠ '\x7b' ∧ c.toLower ≠ '#' := by
    intro c hc
    have hle : c.val ≤ '9'.val := by
      obtain rfl | hc := hc
      · decide
      · unfold Char.isDigit at hc
        exact of_decide_eq_true (Bool.and_eq_true_iff.mp hc).2
    have hlower : c.toLower = c := by
      unfold Char.toLower
      rw [dif_neg]
      rintro ⟨hA, -⟩
      exact absurd (UInt32.le_trans hA hle) (by decide)
    rw [hlower]
    refine ⟨?_, ?_⟩
    · rintro rfl
      exact absurd hle (by decide)
    · rintro rfl
      revert hc
      decide
  refine quiet_of_forall (fun hmem => (hlower _ (mem_valueOf hmem)).1 rfl) fun hmem => ?_
  obtain ⟨c, hc, he⟩ := List.mem_map.mp hmem
  exact (hlower c (mem_valueOf hc)).2 he

/-- Behind a text without braces and hashes. -/
theorem Quiet.append {a s : Sql} (h : Quiet s) (hbrace : '\x7b' ∉ a)
    (hhash : '#' ∉ a.map Char.toLower) : Quiet (a ++ s) := by
  refine ⟨fun k hk hi => ?_, fun key hkey hi => ?_⟩
  · obtain ⟨body, rfl, -⟩ := placeholder_cases k hk
    exact h.placeholder _ hk (infix_of_not_mem hi hbrace)
  · obtain ⟨body, hbody, -⟩ := opening_cases key hkey
    refine h.opening key hkey ?_
    unfold Opens at hi ⊢
    rw [hbody, List.map_append] at hi
    rw [hbody]
    exact infix_of_not_mem hi hhash

/-- On both sides of a comma. -/
theorem Quiet.comma {a b : Sql} (ha : Quiet a) (hb : Quiet b) : Quiet (a ++ ',' :: b) := by
  have hb' : Quiet ([','] ++ b) := hb.append (by decide) (by decide)
  refine ⟨fun k hk hi => ?_, fun key hkey hi => ?_⟩
  · obtain ⟨body, rfl, -, -, -, -, hcomma, -⟩ := placeholder_cases k hk
    have hno : NoStraddle ('\x7b' :: (body ++ ['\x7d'])) a (',' :: b) :=
      noStraddle_of_head (by simpa using hcomma) a b
    obtain hi | hi := hno.left_or_right hi
    · exact ha.placeholder _ hk hi
    · exact hb'.placeholder _ hk hi
  · obtain ⟨body, hbody, -, -, -, hcomma, -⟩ := opening_cases key hkey
    unfold Opens at hi
    rw [List.map_append] at hi
    have hno : NoStraddle ((marker key).1.map Char.toLower) (a.map Char.toLower)
        (',' :: b.map Char.toLower) := by
      rw [hbody]
      exact noStraddle_of_head hcomma _ _
    obtain hi | hi := hno.left_or_right hi
    · exact ha.opening key hkey hi
    · exact hb'.opening key hkey hi

theorem quiet_orderBy {s : Sql} (h : Quiet s) : Quiet (orderByText ++ s) :=
  h.append (by decide) (by decide)

/-- A marker has in it what the code takes from the text. -/
theorem contentOf_cases (h : Clean ps e) (hqs : qs <:+ marked ps) (hkey : key ∈ markerKeys) :
    contentOf key qs = [] ∨ ∃ t, .hole t ∈ marked ps ∧ IsMarker key t ∧
      JavaText.find (marker key).1 (marker key).2 t = some (t, contentOf key qs) := by
  by_cases hex : ∃ t, .hole t ∈ qs ∧ IsMarker key t
  · obtain ⟨t, hmem, hm⟩ := hex
    obtain ⟨content, hfind, -⟩ := find_of_isMarker h (hqs.subset hmem) hkey hm
    rw [contentOf_of_find h hqs hkey hmem hm hfind]
    exact .inr ⟨t, hqs.subset hmem, hm, hfind⟩
  · exact .inl (contentOf_of_none h hqs hkey fun t hmem hm => hex ⟨t, hmem, hm⟩)

theorem quiet_contentOf (h : Clean ps e) (hqs : qs <:+ marked ps) (hkey : key ∈ markerKeys) :
    Quiet (contentOf key qs) := by
  obtain hnil | ⟨t, hmem, hm, hfind⟩ := contentOf_cases h hqs hkey
  · rw [hnil]
    exact quiet_nil
  obtain ⟨content, hfind', hopens⟩ := find_of_isMarker h hmem hkey hm
  have hopen : ∀ key ∈ markerKeys, (marker key).1 ≠ [] := by decide
  have htail := infix_tail_of_find_self (hopen key hkey) hfind
  refine ⟨fun k hk hi => ?_, fun key' hkey' hi => (hopens key' hkey').1 (hi.trans (htail.map _))⟩
  -- the marker is a part of the query
  have hpart : [.hole t] <:+: marked ps := (List.singleton_infix_iff _ _).mpr hmem
  have ht : t <:+: without [] (marked ps) := by
    have hi := infix_render id (fun _ => []) [] hpart
    have hrender : render id (fun _ => []) [] [.hole t] = t := List.append_nil t
    rwa [hrender] at hi
  exact h.placeholder k hk [] (hi.trans ((htail.trans (List.tail_suffix t).isInfix).trans ht))

/-- Without its `order by`, too. -/
theorem quiet_dropOrderBy (h : Clean ps e) (hqs : qs <:+ marked ps) (hkey : key ∈ markerKeys)
    (hne : key ≠ HEADER) : Quiet (dropOrderBy 0 (contentOf key qs)) := by
  obtain hnil | ⟨t, hmem, hm, hfind⟩ := contentOf_cases h hqs hkey
  · rw [hnil]
    exact quiet_nil
  obtain ⟨content, hfind', hopens⟩ := find_of_isMarker h hmem hkey hm
  rw [hfind] at hfind'
  obtain rfl : contentOf key qs = content := (Prod.mk.inj (Option.some.inj hfind')).2
  refine ⟨fun k hk hi => ?_, fun key' hkey' => (hopens key' hkey').2⟩
  -- the first brace closes the marker
  have hclose : ∀ key ∈ markerKeys, key ≠ HEADER → (marker key).2 = ['\x7d'] := by decide
  obtain ⟨-, ending, -, hend⟩ := of_find_self hfind
  rw [hclose key hkey hne] at hend
  obtain ⟨body, rfl, -⟩ := placeholder_cases k hk
  exact not_mem_of_findClose hend (dropOrderBy_subset 0 _ (hi.subset (by simp)))

theorem quiet_converOrderBy (h : Clean ps e) (hqs : qs <:+ marked ps) (hkey : key ∈ markerKeys) :
    Quiet (converOrderBy flag e key (contentOf key qs)) := by
  have hempty : ∀ {s : Sql}, Quiet s → Quiet (if s = orderByText then [] else s) := fun hs => by
    split
    · exact quiet_nil
    · exact hs
  unfold converOrderBy
  refine hempty ?_
  split
  · rename_i hwindow
    have hdrop := quiet_dropOrderBy h hqs hkey (by rw [hwindow]; decide)
    have hcomma := quiet_orderBy (hdrop.comma h.pkColumn)
    simpa using hcomma
  · split
    · rename_i horder
      have hne : key ≠ HEADER := by
        rintro rfl
        exact absurd horder (by cases flag <;> decide)
      split
      · have hnone := quiet_orderBy quiet_nil
        simpa using hnone
      · exact quiet_orderBy (quiet_dropOrderBy h hqs hkey hne)
    · exact quiet_contentOf h hqs hkey

theorem quiet_converOrderByOver (h : Clean ps e) (databaseId : Option String) :
    Quiet (converOrderByOver databaseId e) := by
  unfold converOrderByOver
  dsimp only
  split
  · exact quiet_orderBy h.pkColumn
  · exact quiet_nil

theorem inert_valueAt (h : Clean ps e) (hqs : qs <:+ marked ps) {window : Sql}
    (hwindow : Quiet window) : Inert (valueAt flag e qs window) := by
  refine ⟨fun k hk => ?_, fun t ht => ?_⟩
  · have hcases : ∀ {P : Prop} [Decidable P] {a b : Sql}, Quiet a → Quiet b →
        Quiet (if P then a else b) := fun ha hb => by
      split
      · exact ha
      · exact hb
    have hconver : ∀ key ∈ markerKeys, Quiet (converOrderBy flag e key (contentOf key qs)) :=
      fun key hkey => quiet_converOrderBy h hqs hkey
    unfold valueAt
    exact hcases (quiet_valueOf _) (hcases (quiet_valueOf _) (hcases (quiet_valueOf _)
      (hcases h.pkColumn (hcases (hconver _ (by decide)) (hcases (hconver _ (by decide))
        (hcases hwindow quiet_nil))))))
  · have hne : ∀ k ∈ placeholders, t ≠ k := fun k hk he => ht (he ▸ hk)
    unfold valueAt
    rw [if_neg (hne _ (by decide)), if_neg (hne _ (by decide)), if_neg (hne _ (by decide)),
      if_neg (hne _ (by decide)), if_neg (hne _ (by decide)), if_neg (hne _ (by decide)),
      if_neg (hne _ (by decide))]

/-! ### Templates -/

/-- What stands before and after the query, for the count or the page. -/
def DialectType.sides (d : DialectType) (flag : Bool) : Sql × Sql :=
  if flag then (d.countPrefix, d.countSuffix) else (d.opening, d.suffix)

def DialectType.leading (d : DialectType) (flag : Bool) : List (Fragment Sql) :=
  templateParts (squeeze false (d.sides flag).1)

def DialectType.trailing (d : DialectType) (flag inSpace : Bool) : List (Fragment Sql) :=
  templateParts (squeeze inSpace (d.sides flag).2)

theorem fill_templateParts (s : Sql) : fill id (templateParts s) = s := by
  refine flatMap_scan (fun _ => rfl) (fun s p hp => ?_) 0 s
  obtain ⟨k, hk, rfl⟩ := Option.map_eq_some_iff.mp hp
  obtain ⟨body, hbody, -⟩ := placeholder_cases k (List.mem_of_find?_eq_some hk)
  have hpre := List.find?_some hk
  refine ⟨List.isPrefixOf_iff_prefix.mp hpre, ?_⟩
  show k ≠ []
  rw [hbody]
  exact List.cons_ne_nil _ _

/-- Of every template. The order comes first only after the page of a single table. -/
theorem sides_cases : ∀ d ∈ dialects, ∀ flag b, Side (d.leading flag) ∧ Side (d.trailing flag b) ∧
    ClosedOff (d.leading flag) ∧ OpenedBy (d.trailing flag b) ∧
    (flag = true → (d.trailing flag b).head? ≠ some (.hole ORDER_BY)) ∧
    (spaceAfter false (d.sides flag).1 = true → (d.leading flag).getLast? = some (.char ' ')) := by
  decide +kernel

/-- The order of a page is empty, or begins with a blank. -/
theorem head_converOrderBy (s : Sql) : ∀ c ∈ (converOrderBy false e ORDER_BY s).head?, c = ' ' := by
  have hhead : ∀ s : Sql, ∀ c ∈ (if orderByText ++ s = orderByText then []
      else orderByText ++ s).head?, c = ' ' := fun s c hc => by
    split at hc
    · cases hc
    · have hblank : orderByText = ' ' :: orderByText.tail := rfl
      rw [hblank] at hc
      exact (Option.some.inj hc).symm
  have hne : ORDER_BY ≠ ORDER_BY_OVER := by decide
  unfold converOrderBy
  simp only [if_neg hne, decide_true, Bool.not_false, Bool.and_self, if_true]
  split
  · have hnil := hhead []
    rwa [List.append_nil] at hnil
  · exact hhead _

theorem template_of_mem {d : DialectType} (hd : d ∈ dialects) (flag b : Bool) (window : Sql) :
    Template (valueAt flag e qs window) (d.leading flag) (d.trailing flag b) := by
  obtain ⟨hleft, hright, hclosed, hopened, hcount, -⟩ := sides_cases d hd flag b
  refine ⟨hleft, hright, hclosed, hopened, fun hfirst => ?_⟩
  cases flag with
  | true => exact (hcount rfl hfirst).elim
  | false =>
    have hvalue : valueAt false e qs window ORDER_BY =
        converOrderBy false e ORDER_BY (contentOf ORDER_BY qs) := by
      unfold valueAt
      rw [if_neg (by decide), if_neg (by decide), if_neg (by decide), if_neg (by decide),
        if_neg (by decide), if_pos rfl]
    rw [hvalue]
    exact head_converOrderBy _

/-! ### The replacement -/

/-- The numbers and the column of the primary key. -/
def fillPlain (e : Entity) (s : Sql) : Sql :=
  JavaText.replace PK_COLUMN (getPKColumn e) (JavaText.replace PAGE_SIZE (valueOf e.pageSize)
    (JavaText.replace END_ROW (valueOf e.getEndRow)
      (JavaText.replace START_ROW (valueOf e.getStartRow) s)))

/-- The placeholders with markers. -/
def fillMarked (databaseId : Option String) (flag : Bool) (e : Entity) (s : Sql) : Sql :=
  if JavaText.contains "#overby".toList s then markerKeys.foldl (replaceKey flag e) s
  else [HEADER, ORDER_BY].foldl (replaceKey flag e)
    (JavaText.replace ORDER_BY_OVER (converOrderByOver databaseId e) s)

theorem replace_eq (databaseId : Option String) (flag : Bool) (sql : Sql) (e : Entity) :
    replace databaseId flag sql e =
      fillMarked databaseId flag e (fillPlain e (JavaText.squeeze false sql)) := rfl

def numbers : List Sql := [START_ROW, END_ROW, PAGE_SIZE, PK_COLUMN]

theorem fillPlain_render {window : Sql} (hv : Inert (valueAt flag e qs window)) (h : Clean ps e)
    (ht : Template (valueAt flag e qs window) before after) (hqs : qs <:+ marked ps) :
    fillPlain e (fill id (before ++ (qs ++ after))) =
      render id (valueAt flag e qs window) numbers (before ++ (qs ++ after)) := by
  have hnumbers : ∀ k ∈ numbers, k ∈ placeholders := by decide
  have hfold : numbers.foldl (fun s k => JavaText.replace (id k) (valueAt flag e qs window k) s)
      (render id (valueAt flag e qs window) [] (before ++ (qs ++ after))) =
        render id (valueAt flag e qs window) ([] ++ numbers) (before ++ (qs ++ after)) :=
    foldl_replace (fun k hk => solid_placeholder (hnumbers k hk)) (by decide) fun k hk =>
      .inr fun _ _ => fresh_placeholder hv h ht hqs (hnumbers k hk)
  rw [render_nil] at hfold
  exact hfold

/-- Every placeholder is filled in, and every marker is taken out. -/
structure Done (qs : List (Fragment Sql)) (done : List Sql) : Prop where
  placeholder : ∀ k ∈ placeholders, k ∈ done
  marker : ∀ key ∈ markerKeys, ∀ t, .hole t ∈ qs → IsMarker key t → t ∈ done

theorem not_mem_of_subset (h : Clean ps e) (hqs : qs <:+ marked ps) (hdone : done ⊆ placeholders)
    {t : Sql} (ht : .hole t ∈ qs) : t ∉ done := fun hmem =>
  not_mem_placeholders h (hqs.subset ht) (hdone hmem)

theorem valueAt_converOrderBy {window : Sql} (hkey : key ∈ [HEADER, ORDER_BY]) :
    valueAt flag e qs window key = converOrderBy flag e key (contentOf key qs) := by
  obtain rfl | hkey := List.mem_cons.mp hkey
  · rfl
  · rw [List.mem_singleton.mp hkey]
    rfl

/-- Where an `overby` is seen. -/
theorem foldl_markerKeys (h : Clean ps e) (hqs : qs <:+ marked ps) {window : Sql}
    (hwindow : window = converOrderBy flag e ORDER_BY_OVER (contentOf ORDER_BY_OVER qs))
    (ht : Template (valueAt flag e qs window) before after) : ∃ done, Done qs done ∧
      markerKeys.foldl (replaceKey flag e)
        (render id (valueAt flag e qs window) numbers (before ++ (qs ++ after))) =
          render id (valueAt flag e qs window) done (before ++ (qs ++ after)) := by
  have hv : Inert (valueAt flag e qs window) :=
    inert_valueAt h hqs (hwindow ▸ quiet_converOrderBy h hqs (by decide))
  have hvalue : ∀ key ∈ markerKeys,
      valueAt flag e qs window key = converOrderBy flag e key (contentOf key qs) := by
    intro key hkey
    have hkeys : markerKeys = [HEADER, ORDER_BY] ++ [ORDER_BY_OVER] := rfl
    rw [hkeys, List.mem_append, List.mem_singleton] at hkey
    obtain hkey | rfl := hkey
    · exact valueAt_converOrderBy hkey
    · exact hwindow
  have hsub : numbers ⊆ placeholders := by decide
  have hout : ∀ key ∈ markerKeys, key ∉ numbers := by decide
  obtain ⟨done, hnumbers, hdone, hfold⟩ := foldl_replaceKey hv h ht hqs (fun _ hkey => hkey)
    (by decide) hvalue fun key hkey =>
      ⟨hout key hkey, fun t hmem _ => not_mem_of_subset h hqs hsub hmem⟩
  refine ⟨done, ⟨fun k hk => ?_, fun key hkey => (hdone key hkey).2⟩, hfold⟩
  have hcases : k ∈ numbers ∨ k ∈ markerKeys := List.mem_append.mp hk
  exact hcases.elim (fun hk => hnumbers hk) fun hk => (hdone k hk).1

/-- Where there is none. -/
theorem foldl_of_no_overby (h : Clean ps e) (hqs : qs <:+ marked ps) {window : Sql}
    (hwindow : Quiet window) (hnone : ∀ t, .hole t ∈ qs → ¬ IsMarker ORDER_BY_OVER t)
    (ht : Template (valueAt flag e qs window) before after) : ∃ done, Done qs done ∧
      [HEADER, ORDER_BY].foldl (replaceKey flag e) (JavaText.replace ORDER_BY_OVER window
        (render id (valueAt flag e qs window) numbers (before ++ (qs ++ after)))) =
          render id (valueAt flag e qs window) done (before ++ (qs ++ after)) := by
  have hv : Inert (valueAt flag e qs window) := inert_valueAt h hqs hwindow
  have hfill : JavaText.replace ORDER_BY_OVER window
      (render id (valueAt flag e qs window) numbers (before ++ (qs ++ after))) =
        render id (valueAt flag e qs window) (numbers ++ [ORDER_BY_OVER])
          (before ++ (qs ++ after)) :=
    replace_render (solid_placeholder (by decide)) (by decide)
      (fresh_placeholder hv h ht hqs (by decide))
  have hsub : numbers ++ [ORDER_BY_OVER] ⊆ placeholders := by decide
  have hout : ∀ key ∈ [HEADER, ORDER_BY], key ∈ markerKeys ∧ key ∉ numbers ++ [ORDER_BY_OVER] := by
    decide
  obtain ⟨done, hnumbers, hdone, hfold⟩ := foldl_replaceKey hv h ht hqs
    (fun key hkey => (hout key hkey).1) (by decide) (fun _ hkey => valueAt_converOrderBy hkey)
    fun key hkey => ⟨(hout key hkey).2, fun t hmem _ => not_mem_of_subset h hqs hsub hmem⟩
  rw [hfill]
  refine ⟨done, ⟨fun k hk => ?_, fun key hkey t hmem hm => ?_⟩, hfold⟩
  · have hcases : ∀ k ∈ placeholders, k ∈ numbers ++ [ORDER_BY_OVER] ∨ k ∈ [HEADER, ORDER_BY] := by
      decide
    exact (hcases k hk).elim (fun hk => hnumbers hk) fun hk => (hdone k hk).1
  · have hcases : ∀ key ∈ markerKeys, key = ORDER_BY_OVER ∨ key ∈ [HEADER, ORDER_BY] := by decide
    obtain rfl | hkey := hcases key hkey
    · exact (hnone t hmem hm).elim
    · exact (hdone key hkey).2 t hmem hm

/-- Whichever branch the code takes: everything is filled in, and the markers are taken
out. -/
theorem fillMarked_render (h : Clean ps e) (hqs : qs <:+ marked ps)
    (ht : ∀ window, Template (valueAt flag e qs window) before after)
    (hseen : ∀ t, .hole t ∈ qs → IsMarker ORDER_BY_OVER t → "#overby".toList <:+: without [] qs)
    (databaseId : Option String) : ∃ window done, Quiet window ∧ Done qs done ∧
      fillMarked databaseId flag e (fillPlain e (fill id (before ++ (qs ++ after)))) =
        render id (valueAt flag e qs window) done (before ++ (qs ++ after)) := by
  unfold fillMarked
  by_cases hc : JavaText.contains "#overby".toList
      (fillPlain e (fill id (before ++ (qs ++ after)))) = true
  · have hwindow : Quiet (converOrderBy flag e ORDER_BY_OVER (contentOf ORDER_BY_OVER qs)) :=
      quiet_converOrderBy h hqs (by decide)
    rw [if_pos hc, fillPlain_render (inert_valueAt h hqs hwindow) h (ht _) hqs]
    obtain ⟨done, hdone, hfold⟩ := foldl_markerKeys h hqs rfl (ht _)
    exact ⟨_, done, hwindow, hdone, hfold⟩
  · have hwindow : Quiet (converOrderByOver databaseId e) := quiet_converOrderByOver h databaseId
    rw [if_neg hc]
    rw [fillPlain_render (inert_valueAt h hqs hwindow) h (ht _) hqs] at hc ⊢
    have hnone : ∀ t, .hole t ∈ qs → ¬ IsMarker ORDER_BY_OVER t := fun t hmem hm => by
      have hsub : numbers ⊆ placeholders := by decide
      have hsame : render id (valueAt flag e qs (converOrderByOver databaseId e)) numbers qs =
          without [] qs := (render_of_forall_not_mem fun t hmem =>
        not_mem_of_subset h hqs hsub hmem).trans (render_nil qs).symm
      have hi := hseen t hmem hm
      rw [← hsame] at hi
      have hpart : qs <:+: before ++ (qs ++ after) := ⟨before, after, by rw [List.append_assoc]⟩
      exact hc (contains_iff.mpr (hi.trans (infix_render _ _ _ hpart)))
    obtain ⟨done, hdone, hfold⟩ := foldl_of_no_overby h hqs hwindow hnone (ht _)
    exact ⟨_, done, hwindow, hdone, hfold⟩

/-! ### What is kept -/

/-- The SQL of the count or the page, where the database has templates. -/
def paged (databaseId : Option String) (flag singleQuery : Bool) (q : Sql) (e : Entity) :
    Option Sql :=
  (if flag then getCountSql q databaseId singleQuery else getSql q databaseId singleQuery).map
    (replace databaseId flag · e)

/-- A text has the query in it, and nothing that is to be replaced. -/
structure KeepsQuery (ps : List Piece) (out : Sql) : Prop where
  query : ∃ s, Keeps ps s ∧ s <:+: out
  placeholder : ∀ k ∈ placeholders, ¬ k <:+: out
  marker : ∀ key ∈ markerKeys, JavaText.find (marker key).1 (marker key).2 out = none

theorem of_mem_paged {databaseId : Option String} {singleQuery : Bool} {q out : Sql}
    (h : out ∈ paged databaseId flag singleQuery q e) : ∃ d ∈ dialects,
      out = replace databaseId flag ((d.sides flag).1 ++ q ++ (d.sides flag).2) e := by
  obtain ⟨sql, hsql, rfl⟩ := Option.map_eq_some_iff.mp h
  cases flag with
  | true =>
    obtain ⟨d, hd, rfl⟩ := Option.map_eq_some_iff.mp hsql
    exact ⟨d, mem_dialects hd, rfl⟩
  | false =>
    obtain ⟨d, hd, rfl⟩ := Option.map_eq_some_iff.mp hsql
    exact ⟨d, mem_dialects hd, rfl⟩

/-- Squeezed, a wrapped query is a text with holes. -/
theorem squeeze_wrapped {lexis : Lexis} {q : Sql} (h : Squeezed (pieces lexis q)) (d : DialectType)
    (flag : Bool) :
    let b := spaceAfter false (d.sides flag).1
    JavaText.squeeze false ((d.sides flag).1 ++ q ++ (d.sides flag).2) =
      fill id (d.leading flag ++
        (squeezed b (pieces lexis q) ++ d.trailing flag (spaceAfter b q))) := by
  intro b
  have hquery : fill id (squeezed b (pieces lexis q)) = JavaText.squeeze b q := by
    rw [fill_squeezed (fun p hp => tight_of_mem_pieces hp) h, text_pieces]
  have hleading : fill id (d.leading flag) = JavaText.squeeze false (d.sides flag).1 :=
    fill_templateParts _
  have htrailing : fill id (d.trailing flag (spaceAfter b q)) =
      JavaText.squeeze (spaceAfter b q) (d.sides flag).2 := fill_templateParts _
  rw [fill_append, fill_append, hquery, hleading, htrailing, List.append_assoc, squeeze_append,
    squeeze_append]

/-- All its markers taken out, the query is kept, with the blank before it if it begins
with one. -/
theorem keeps_without (h : Clean ps e) (b : Bool)
    (hdone : Done (squeezed b ps) done) (hqs : squeezed b ps <:+ marked ps) :
    Keeps ps (without done (squeezed b ps)) ∨
      b = true ∧ Keeps ps (' ' :: without done (squeezed b ps)) := by
  have hholes : ∀ t, .hole t ∈ squeezed b ps → t ∈ done := fun t ht => by
    obtain ⟨key, hkey, content, hfind, -⟩ := h.found t (hqs.subset ht)
    exact hdone.marker key hkey t ht (of_find_self hfind).1
  have hkeep := (keeps_bare ps).1
  have hbare : without done (squeezed b ps) = bare b ps := render_of_mem hholes
  rw [hbare]
  unfold bare at hkeep ⊢
  obtain hsame | ⟨hb, hspace⟩ := squeezed_cases b ps
  · rw [hsame]
    exact .inl hkeep
  · rw [hspace] at hkeep
    exact .inr ⟨hb, hkeep⟩

theorem overby_seen (h : Clean ps e) (b : Bool) {t : Sql} (ht : .hole t ∈ squeezed b ps)
    (hm : IsMarker ORDER_BY_OVER t) : "#overby".toList <:+: without [] (squeezed b ps) := by
  have hi := h.overby t ((squeezed_suffix b ps).subset ht) hm
  unfold marked at hi
  obtain hsame | ⟨-, hspace⟩ := squeezed_cases b ps
  · rwa [hsame]
  · rw [hspace] at hi
    have hhash : "#overby".toList = '#' :: "overby".toList := by decide
    rw [hhash] at hi ⊢
    exact infix_of_not_mem (a := [' ']) hi (by decide)

/-- Blanks in a literal of MySQL, with either quote or a quote that is escaped. -/
example (e : Entity) :
    ¬ Clean (pieces mysql "SELECT * FROM t WHERE n = \x22a  b\x22".toList) e ∧
      ¬ Clean (pieces mysql "SELECT * FROM t WHERE n = 'it\\'s  x'".toList) e :=
  ⟨fun h => absurd (h.literals "\x22a  b\x22".toList (.inl (by decide +kernel))) (by decide),
    fun h => absurd (h.literals "'it\\'s  x'".toList (.inl (by decide +kernel))) (by decide)⟩

/-- A query that has a placeholder outside its markers is not kept. -/
theorem not_mem_bare_of_keeps {out : Sql} (h : KeepsQuery ps out) (hk : k ∈ placeholders) :
    ¬ k <:+: bare false ps := fun hi => by
  obtain ⟨s, hkeep, hs⟩ := h.query
  have hspace : ∀ k ∈ placeholders, ∀ c ∈ k, isSpace c = false := by decide
  exact h.placeholder k hk ((hkeep.of_bare (hspace k hk) false hi).trans hs)

/-! ### One marker -/

/-- A query with one marker at most: what is to be looked at is the query with it, and
without it. -/
theorem clean_of_one_marker {t : Sql} (hliterals : Squeezed ps)
    (hone : ∀ t', .hole t' ∈ marked ps → t' = t)
    (hplaceholder : ∀ k ∈ placeholders,
      ¬ k <:+: without [] (marked ps) ∧ ¬ k <:+: without [t] (marked ps))
    (hopening : ∀ key ∈ markerKeys, ¬ Opens key (without [t] (marked ps ++ [.char '\x7b'])) ∧
      (¬ IsMarker key t → ¬ Opens key (without [] (marked ps ++ [.char '\x7b']))))
    (hfound : .hole t ∈ marked ps → ∃ key ∈ markerKeys, ∃ content,
      JavaText.find (marker key).1 (marker key).2 t = some (t, content) ∧
        ∀ key' ∈ markerKeys, ¬ Opens key' t.tail ∧ ¬ Opens key' (dropOrderBy 0 content))
    (hoverby : IsMarker ORDER_BY_OVER t → "#overby".toList <:+: without [] (marked ps))
    (hpk : Quiet (getPKColumn e)) : Clean ps e := by
  have hcases : ∀ {ps : List (Fragment Sql)}, (∀ t', .hole t' ∈ ps → t' = t) → ∀ done,
      (t ∈ done → without done ps = without [t] ps) ∧
        (t ∉ done → without done ps = without [] ps) := by
    intro ps hps done
    refine ⟨fun ht => render_congr fun t' ht' => ?_, fun ht => render_congr fun t' ht' => ?_⟩
    · rw [hps t' ht']
      exact iff_of_true ht List.mem_cons_self
    · rw [hps t' ht']
      exact iff_of_false ht List.not_mem_nil
  refine ⟨hliterals, fun k hk done => ?_, fun key hkey done stretch hs hdone => ?_,
    fun key _ t₁ t₂ h₁ h₂ _ _ => (hone t₁ h₁).trans (hone t₂ h₂).symm, fun t' ht' => ?_,
    fun t' ht' hm => hoverby (hone t' ht' ▸ hm), hpk⟩
  · by_cases ht : t ∈ done
    · rw [(hcases hone done).1 ht]
      exact (hplaceholder k hk).2
    · rw [(hcases hone done).2 ht]
      exact (hplaceholder k hk).1
  · have hstretch : ∀ t', .hole t' ∈ stretch → t' = t := fun t' ht' => by
      have hmem := hs.subset ht'
      exact hone t' (by simpa using hmem)
    have hwhole : ∀ done', without done' stretch <:+: without done' (marked ps ++ [.char '\x7b']) :=
      fun done' => infix_render _ _ _ hs
    by_cases ht : t ∈ done
    · rw [(hcases hstretch done).1 ht]
      exact fun hi => (hopening key hkey).1 (hi.trans ((hwhole [t]).map _))
    · rw [(hcases hstretch done).2 ht]
      by_cases hm : IsMarker key t
      · -- then the marker is not in the stretch
        have hout : .hole t ∉ stretch := fun hmem => ht (hdone t hmem hm)
        have hsame : without ([] ++ [t]) stretch = without [] stretch := render_of_not_mem hout
        rw [← hsame]
        exact fun hi => (hopening key hkey).1 (hi.trans ((hwhole [t]).map _))
      · exact fun hi => (hopening key hkey).2 hm (hi.trans ((hwhole []).map _))
  · obtain rfl := hone t' ht'
    exact hfound ht'

/-- A query with one marker and literals with single blanks. -/
def orders : Sql :=
  "SELECT a,  b FROM t WHERE n = #\x7bn\x7d AND s = 'it\\'s y' AND r = \x22x y\x22 ".toList ++
    "#orderby\x7ba  desc\x7d".toList

theorem clean_orders : Clean (pieces mysql orders) {} := by
  have hmarked : ∀ p ∈ marked (pieces mysql orders), p = .hole "#orderby\x7ba desc\x7d".toList ∨ p.isChar = true := by
    decide +kernel
  have hone : ∀ t, .hole t ∈ marked (pieces mysql orders) → t = "#orderby\x7ba desc\x7d".toList := fun t ht =>
    (hmarked _ ht).elim Fragment.hole.inj fun h => (Bool.false_ne_true h).elim
  refine clean_of_one_marker (squeezed_of_all (by decide +kernel)) hone (by decide +kernel)
    (by decide +kernel) (fun _ => ⟨ORDER_BY, by decide, "a desc".toList, by decide +kernel⟩)
    (by decide +kernel) (quiet_of_forall (by decide) (by decide))

end PageSql
end CloudManager
