/-
# The table name of a DDL statement

`getTableName` cuts the name out of the lower-cased text. If there is a dot with
something other than dots after it, the name is taken to follow the first dot; else
it is the first word after `table` that does not contain this word. Either way it
ends at a blank or a parenthesis; the back-quotes and semicolons stay, since the
results of the replacements are not used.

So the name is found (`Ddl.Found`) if it stands where it is looked for, bare, and
with nothing joined to it but a parenthesis (`createTableInfo_iff`): after the first
dot of all, or as the first such word where no dot counts.
-/
import CloudManager.Commons.InstanceListener

namespace CloudManager
namespace InstanceListener

/-! ### Statements -/

inductive Verb
  | create
  | alter
  | drop
  | truncate
  deriving DecidableEq, Repr

def Verb.text : Verb → List Char
  | .create => "create".toList
  | .alter => "alter".toList
  | .drop => "drop".toList
  | .truncate => "truncate".toList

/-- A character of a name without back-quotes. -/
def isIdentifier (c : Char) : Bool := c.isAlphanum || c = '_' || c = '$' || 128 ≤ c.toNat

/-- A name, written with back-quotes or without. -/
structure Name where
  quoted : Bool
  text : List Char
  nonempty : text ≠ []
  spelled : if quoted then '\x60' ∉ text else ∀ c ∈ text, isIdentifier c

def Name.written (n : Name) : List Char :=
  if n.quoted then '\x60' :: n.text ++ ['\x60'] else n.text

/-- A statement in lower case: a verb, `table`, the name and the rest, which does not
go on with the name. -/
structure Ddl where
  verb : Verb
  qualifier : Option Name
  name : Name
  rest : List Char
  ends : ∀ c ∈ rest.head?, c ≠ '.' ∧ c ≠ '\x60' ∧ (name.quoted = false → isIdentifier c = false)

namespace Ddl

variable (d : Ddl)

/-- The text from the name on. -/
def written : List Char :=
  (d.qualifier.elim [] fun q => q.written ++ ['.']) ++ d.name.written ++ d.rest

def text : String := String.ofList (d.verb.text ++ ' ' :: "table".toList ++ ' ' :: d.written)

/-- The name of the table as the statement means it. -/
def tableName : String := String.ofList d.name.text

/-- The text after the first dot. -/
def afterDot : List Char := (d.written.dropWhile (· ≠ '.')).tail

/-- The first word from the name on that is not empty and does not contain `table`. -/
def word : Option (List Char) :=
  (d.written.splitOn ' ').find? fun w =>
    !w.isEmpty && !JavaString.contains (String.ofList w) "table"

end Ddl

/-- A word gives the name: it is the name (which has a parenthesis only if it begins
with one), or the name, without a parenthesis, and a parenthesis after it. -/
def Gives (name w : List Char) : Prop :=
  (w = name ∧ ('(' ∈ name → name.head? = some '(')) ∨
    ('(' ∉ name ∧ ∃ more, w = name ++ '(' :: more)

/-- The name is where it is looked for. -/
def Ddl.Found (d : Ddl) : Prop :=
  if ∃ c ∈ d.afterDot, c ≠ '.' then
    Gives d.name.text (d.afterDot.takeWhile fun c => c ≠ '.' ∧ c ≠ ' ')
  else ∃ w, d.word = some w ∧ Gives d.name.text w

/-! ### What is cut out -/

theorem cutAt_eq_iff {name w : List Char} (hname : name ≠ []) :
    JavaString.cutAt '(' (String.ofList w) = String.ofList name ↔ Gives name w := by
  by_cases hw : '(' ∈ w
  · obtain ⟨a, more, rfl, ha⟩ := List.eq_append_cons_of_mem hw
    rw [JavaString.cutAt_append_cons ha, String.ofList_inj]
    by_cases hnil : a = []
    · -- a parenthesis at the start is not cut at
      subst hnil
      rw [if_pos rfl, List.nil_append]
      constructor
      · rintro rfl
        exact .inl ⟨rfl, fun _ => rfl⟩
      · rintro (⟨h, -⟩ | ⟨hnot, more', h⟩)
        · exact h
        · obtain ⟨c, name, rfl⟩ := List.exists_cons_of_ne_nil hname
          obtain rfl : '(' = c := (List.cons.inj h).1
          exact (hnot List.mem_cons_self).elim
    · rw [if_neg hnil]
      constructor
      · rintro rfl
        exact .inr ⟨ha, more, rfl⟩
      · rintro (⟨rfl, hhead⟩ | ⟨hnot, more', h⟩)
        · obtain ⟨c, a, rfl⟩ := List.exists_cons_of_ne_nil hnil
          have hc : c = '(' := by simpa using hhead (by simp)
          exact (ha (hc ▸ List.mem_cons_self)).elim
        · have hlen := congrArg (List.idxOf '(') h
          rw [JavaString.idxOf_append_cons ha, JavaString.idxOf_append_cons hnot] at hlen
          exact List.append_inj_left h hlen
  · rw [JavaString.cutAt_of_not_mem hw, String.ofList_inj]
    constructor
    · rintro rfl
      exact .inl ⟨rfl, fun h => (hw h).elim⟩
    · rintro (⟨h, -⟩ | ⟨-, more, rfl⟩)
      · exact h
      · exact (hw (by simp)).elim

theorem wordAfter_eq_find? (flag : String) (ws : List String) :
    wordAfter flag true ws = ws.find? fun w => !w.isEmpty && !JavaString.contains w flag := by
  induction ws with
  | nil => rfl
  | cons w ws ih =>
    rw [wordAfter, List.find?_cons]
    by_cases hw : JavaString.contains w flag = true
    · simp [hw, ih]
    · by_cases he : w.isEmpty = true <;> simp [hw, he, ih]

/-- Empty parts at the end do not count for a search that passes them over. -/
theorem find?_rdropWhile {α : Type} {p q : α → Bool} (h : ∀ a, p a = true → q a = false)
    (l : List α) : (l.rdropWhile p).find? q = l.find? q := by
  have hnone : (l.rtakeWhile p).find? q = none := by
    rw [List.find?_eq_none]
    intro a ha
    simp [h a (List.mem_rtakeWhile_imp ha)]
  calc (l.rdropWhile p).find? q
      = ((l.rdropWhile p) ++ (l.rtakeWhile p)).find? q := by
        rw [List.find?_append, hnone, Option.or_none]
    _ = l.find? q := by rw [List.rdropWhile_append_rtakeWhile]

namespace Ddl

variable (d : Ddl)

theorem verb_text (v : Verb) : v.text ≠ [] ∧ '.' ∉ v.text ∧ ' ' ∉ v.text ∧
    JavaString.contains (String.ofList v.text) "table" = false := by
  cases v <;> decide

theorem dot_not_mem_verb : '.' ∉ d.verb.text ++ ' ' :: "table".toList ++ [' '] := by
  have hverb := (verb_text d.verb).2.1
  simp [hverb]

/-- The words of a statement: its verb, `table`, and those from the name on. -/
theorem split_text : JavaString.split ' ' d.text = String.ofList d.verb.text :: "table" ::
    ((d.written.splitOn ' ').rdropWhile List.isEmpty).map String.ofList := by
  obtain ⟨hne, -, hverb, -⟩ := verb_text d.verb
  have htable : ("table".toList ++ ' ' :: d.written).splitOn ' ' =
      "table".toList :: d.written.splitOn ' ' :=
    List.splitOn_append_cons_self_of_not_mem (by decide) d.written
  have hkept : List.isEmpty "table".toList = false := by decide
  rw [text, List.append_assoc, List.cons_append, JavaString.split_append_cons hverb (.inl hne),
    htable, JavaString.rdropWhile_cons (.inl hkept), List.map_cons, String.ofList_toList]

theorem checkFlag_text : checkFlag d.text "table" = true := by
  rw [checkFlag, split_text]
  simp

/-- The parts between the dots: one up to the first dot, and those after it. -/
theorem split_dot : ∃ part, JavaString.split '.' d.text =
    part :: ((d.afterDot.splitOn '.').rdropWhile List.isEmpty).map String.ofList := by
  have hverb := d.dot_not_mem_verb
  have htext : d.text = String.ofList ((d.verb.text ++ ' ' :: "table".toList ++ [' ']) ++
      d.written) := by simp [text]
  have hsplit := List.takeWhile_append_dropWhile (p := (· ≠ '.')) (l := d.written)
  have htake : '.' ∉ d.written.takeWhile (· ≠ '.') := fun h => by
    simpa using List.mem_takeWhile_imp h
  rw [htext, afterDot]
  cases hdrop : d.written.dropWhile (· ≠ '.') with
  | nil =>
    rw [hdrop, List.append_nil] at hsplit
    rw [hsplit] at htake
    have hmem : '.' ∉ (String.ofList ((d.verb.text ++ ' ' :: "table".toList ++ [' ']) ++
        d.written)).toList := by
      rw [String.toList_ofList]
      exact fun h => (List.mem_append.mp h).elim hverb htake
    rw [JavaString.split_of_not_mem hmem]
    exact ⟨_, rfl⟩
  | cons c after =>
    have hc : c = '.' := by
      have hhead := List.head?_dropWhile_not (fun c : Char => decide (c ≠ '.')) d.written
      rw [hdrop] at hhead
      simpa using hhead
    subst hc
    rw [hdrop] at hsplit
    have hmem : '.' ∉ (d.verb.text ++ ' ' :: "table".toList ++ [' ']) ++
        d.written.takeWhile (· ≠ '.') := fun h => (List.mem_append.mp h).elim hverb htake
    rw [← hsplit, ← List.append_assoc, JavaString.split_append_cons hmem (.inl (by simp))]
    exact ⟨_, rfl⟩

/-- Where a dot counts, the name is looked for after the first one. -/
theorem getTableName_of_dot (h : ∃ c ∈ d.afterDot, c ≠ '.') : getTableName d.text "table" =
    match JavaString.split ' ' (String.ofList (d.afterDot.takeWhile (· ≠ '.'))) with
    | [] => .error "ArrayIndexOutOfBoundsException"
    | w :: _ => .ok (JavaString.cutAt '(' w) := by
  obtain ⟨part, hparts⟩ := d.split_dot
  have hhead := JavaString.head?_rdropWhile_splitOn '.' d.afterDot
  rw [if_pos h] at hhead
  obtain ⟨parts, hparts'⟩ := List.head?_eq_some_iff.mp hhead
  rw [hparts', List.map_cons] at hparts
  unfold getTableName
  rw [hparts]
  dsimp only
  cases JavaString.split ' ' (String.ofList (d.afterDot.takeWhile (· ≠ '.'))) <;> rfl

/-- Where none counts, it is looked for among the words. -/
theorem getTableName_of_no_dot (h : ¬ ∃ c ∈ d.afterDot, c ≠ '.') : getTableName d.text "table" =
    match d.word with
    | none => .error "NullPointerException"
    | some w => .ok (JavaString.cutAt '(' (String.ofList w)) := by
  obtain ⟨part, hparts⟩ := d.split_dot
  have hhead := JavaString.head?_rdropWhile_splitOn '.' d.afterDot
  rw [if_neg h, List.head?_eq_none_iff] at hhead
  rw [hhead, List.map_nil] at hparts
  have hword : wordAfter "table" false (JavaString.split ' ' d.text) = d.word.map String.ofList := by
    have hverb := (verb_text d.verb).2.2.2
    have htable : JavaString.contains "table" "table" = true := by decide
    rw [split_text, wordAfter, if_neg (by simp [hverb]), wordAfter, if_pos htable,
      wordAfter_eq_find?, List.find?_map, word, if_neg (by simp)]
    have hcomp : (fun w => !w.isEmpty && !JavaString.contains w "table") ∘ String.ofList =
        fun w => !w.isEmpty && !JavaString.contains (String.ofList w) "table" := by
      funext w
      have hempty : (String.ofList w).isEmpty = w.isEmpty := by
        cases w <;> simp [String.isEmpty_iff]
      simp [hempty]
    rw [hcomp, find?_rdropWhile fun w hw => by simp [hw]]
  unfold getTableName
  rw [hparts]
  dsimp only
  rw [hword]
  cases d.word <;> rfl

end Ddl

/-- What `createTableInfo` makes of the name. -/
theorem createTableInfo_eq {env : Env} {databaseName sql : String} {d : Ddl}
    (h : env.toLowerCase sql = d.text) : createTableInfo env databaseName sql =
      (getTableName d.text "table").map fun tableName =>
        some ⟨databaseName, tableName, TableInfoKeeper.fullName databaseName tableName⟩ := by
  unfold createTableInfo
  simp only [h, d.checkFlag_text, if_true]
  cases getTableName d.text "table" <;> rfl

theorem getTableName_iff (d : Ddl) :
    getTableName d.text "table" = .ok d.tableName ↔ d.Found := by
  have hcut : ∀ w, JavaString.cutAt '(' (String.ofList w) = d.tableName ↔ Gives d.name.text w :=
    fun w => cutAt_eq_iff d.name.nonempty
  unfold Ddl.Found
  by_cases h : ∃ c ∈ d.afterDot, c ≠ '.'
  · rw [if_pos h, d.getTableName_of_dot h]
    have hhead := JavaString.head?_split ' ' (d.afterDot.takeWhile (· ≠ '.'))
    have htake : (d.afterDot.takeWhile (· ≠ '.')).takeWhile (· ≠ ' ') =
        d.afterDot.takeWhile fun c => c ≠ '.' ∧ c ≠ ' ' := by
      rw [List.takeWhile_takeWhile]
      simp [and_comm]
    by_cases hall : d.afterDot.takeWhile (· ≠ '.') ≠ [] ∧
        ∀ c ∈ d.afterDot.takeWhile (· ≠ '.'), c = ' '
    · -- blanks alone have no word: the code throws, and the name is not empty
      rw [if_pos hall, List.head?_eq_none_iff] at hhead
      have hnil : (d.afterDot.takeWhile fun c => c ≠ '.' ∧ c ≠ ' ') = [] := by
        rw [← htake, List.takeWhile_eq_nil_iff]
        intro hlen
        simpa using hall.2 _ (List.getElem_mem hlen)
      rw [hhead, hnil]
      simp [Gives, d.name.nonempty, eq_comm]
    · rw [if_neg hall, htake] at hhead
      obtain ⟨ws, hws⟩ := List.head?_eq_some_iff.mp hhead
      rw [hws]
      simp [hcut]
  · rw [if_neg h, d.getTableName_of_no_dot h]
    cases d.word with
    | none => simp
    | some w => simp [hcut]

/-- **The name of a statement.** It is extracted, and nothing throws, exactly if it is
where it is looked for. -/
theorem createTableInfo_iff (env : Env) (databaseName sql : String) (d : Ddl)
    (h : env.toLowerCase sql = d.text) :
    createTableInfo env databaseName sql = .ok (some ⟨databaseName, d.tableName,
        TableInfoKeeper.fullName databaseName d.tableName⟩) ↔ d.Found := by
  rw [createTableInfo_eq h, ← getTableName_iff]
  cases getTableName d.text "table" with
  | error e => simp [Except.map]
  | ok tableName =>
    simp only [Except.map, Except.ok.injEq, Option.some.injEq, TableInfo.mk.injEq, true_and]
    exact ⟨fun h => h.1, fun h => ⟨h, by rw [h]⟩⟩

/-! ### Some statements -/

def person : Name := ⟨false, "person".toList, by decide, by decide⟩

/-- The listener on a server without connection; letters are lowered one by one. -/
def lowering : Env where
  connection := .error ⟨"Communications link failure"⟩
  toLowerCase sql := String.ofList (sql.toList.map Char.toLower)

/-- `alter table app.person add age int`. -/
def addAge : Ddl :=
  ⟨.alter, some ⟨false, "app".toList, by decide, by decide⟩, person, " add age int".toList,
    by decide⟩

theorem createTableInfo_addAge :
    createTableInfo lowering "app" "ALTER TABLE app.Person ADD age INT" =
        .ok (some ⟨"app", addAge.tableName, TableInfoKeeper.fullName "app" addAge.tableName⟩) ↔
      addAge.Found :=
  createTableInfo_iff lowering "app" "ALTER TABLE app.Person ADD age INT" addAge (by decide)

/-- `drop table person;`. -/
def dropPerson : Ddl := ⟨.drop, none, person, ";".toList, by decide⟩

/-- `truncate table usertable`. -/
def truncateTable : Ddl :=
  ⟨.truncate, none, ⟨false, "usertable".toList, by decide, by decide⟩, [], by decide⟩

/-- The semicolon stays at the name, and a name with `table` in it is passed over. -/
theorem name_misread :
    (¬ ∀ (env : Env) (databaseName sql : String) (d : Ddl), env.toLowerCase sql = d.text →
      createTableInfo env databaseName sql = .ok (some ⟨databaseName, d.tableName,
        TableInfoKeeper.fullName databaseName d.tableName⟩)) ∧
    createTableInfo lowering "app" truncateTable.text = .error "NullPointerException" := by
  refine ⟨fun h => ?_, by decide⟩
  have hperson := h lowering "app" "DROP TABLE person;" dropPerson (by decide)
  revert hperson
  decide

end InstanceListener
end CloudManager
