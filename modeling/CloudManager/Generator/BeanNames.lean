/-
# The names the generator gives to tables

`getBeanName` drops a configured prefix from a table's name and writes the rest in
camel case; the files of the entity and of the mapper are named after that. It drops
the prefix where the name has it anywhere, whatever the letter case, and cuts
behind the last place where the name has it in the very letter case.

`lossless_iff`: every table has the name without its leading prefix, and tables that
differ in more than that, underscores and letter case have different files, if and
only if for each table there are only underscores between the place of the cut and
the end of the leading prefix.
-/
import CloudManager.Lib.CamelCase
import CloudManager.Lib.JavaString
import CloudManager.Lib.Sequences

namespace CloudManager
namespace BeanNames

open CamelCase JavaString Sequences

/-! ### Ctrls -/

/-- `toUpperCase`, of ASCII letters. -/
def toUpperCase (s : String) : String := String.ofList (s.toList.map Char.toUpper)

/-- `lastIndexOf`, which is -1 where there is none. -/
def lastIndexOf (s part : String) : Int :=
  match (List.range (s.toList.length + 1)).reverse.find? fun i =>
    part.toList.isPrefixOf (s.toList.drop i) with
  | some i => i
  | none => -1

namespace Ctrls

/-- The argument of `substring`; without it the name is kept. -/
def cut (tableName jdbcPrefix : String) : ℕ :=
  if !JavaText.isBlank jdbcPrefix.toList &&
      contains (toUpperCase tableName) (toUpperCase jdbcPrefix) then
    (lastIndexOf tableName jdbcPrefix + jdbcPrefix.toList.length).toNat
  else 0

/-- One round of the loop over the words: in lower case, then with its first letter in upper
case. -/
def word (name : String) : List Char :=
  match name.toList.map Char.toLower with
  | [] => []
  | c :: cs => c.toUpper :: cs

/-- `none` where `setCharAt(0, ..)` throws; `status` may be null. -/
def getBeanName (tableName jdbcPrefix : String) (status : Option Bool) : Option String :=
  let name := split '_' (String.ofList (tableName.toList.drop (cut tableName jdbcPrefix)))
  let sb := name.flatMap word
  match status, sb with
  | none, sb => some (String.ofList sb)
  | some _, [] => none
  | some status, c :: cs => some (String.ofList ((if status then c.toLower else c.toUpper) :: cs))

end Ctrls

/-! ### DataOperator and the files -/

/-- A null prefix is blank, as an empty one is. -/
structure Config where
  jdbcTablePrefix : String
  generator : String
  fileSavePath : String
  entityNamespacePath : String
  daoNamespacePath : String
  deriving DecidableEq, Repr

/-- A row of the query for the tables. -/
structure ResultRow where
  tableName : String
  tableComment : Option String := none
  columnName : Option String := none
  autoIncrement : Option String := none
  deriving DecidableEq, Repr

structure Table where
  number : String
  tableName : String
  tableComment : Option String
  key : Option String
  identity : String
  entityName : String
  iDaoName : String
  iServiceName : String
  serviceImplName : String
  actionName : String
  aliasName : String
  deriving DecidableEq, Repr

namespace DataOperator

def suffix (config : Config) : String :=
  if equalsIgnoreCase "com.lilianghui.core.Generator2" config.generator then "Mapper" else "Dao"

def row (config : Config) (rs : ResultRow) (i : ℕ) : Option Table :=
  (Ctrls.getBeanName rs.tableName config.jdbcTablePrefix (some false)).map fun beanName =>
    { number := toString i
      tableName := rs.tableName
      tableComment := rs.tableComment
      key := rs.columnName
      identity := if rs.autoIncrement.any fun s => !JavaText.isBlank s.toList then "自增" else "无"
      entityName := beanName
      iDaoName := beanName ++ suffix config
      iServiceName := beanName ++ "Service"
      serviceImplName := beanName ++ "ServiceImpl"
      actionName := beanName ++ "Controller"
      aliasName := toUpperCase beanName }

/-- The rows are numbered from 1. -/
def getTableName (config : Config) (rs : List ResultRow) : Option (List Table) :=
  (rs.zipIdx 1).mapM fun r => row config r.1 r.2

end DataOperator

/-- Where `FileManager.createFile` writes. -/
def createFile (config : Config) (file : String) : String := config.fileSavePath ++ "/" ++ file

namespace AbstractGenerator

def buildEntity (config : Config) (table : Table) : String :=
  createFile config (config.entityNamespacePath ++ table.entityName ++ ".java")

def buildIDao (config : Config) (table : Table) : String :=
  createFile config (config.daoNamespacePath ++ table.iDaoName ++ ".java")

end AbstractGenerator

/-! ### What the names are to be -/

/-- The end of a leading prefix, compared without regard to letter case. -/
def leading (jdbcPrefix name : String) : ℕ :=
  if (jdbcPrefix.toList.map Char.toUpper).isPrefixOf (name.toList.map Char.toUpper) then
    jdbcPrefix.toList.length
  else 0

def stripped (jdbcPrefix name : String) : List Char := name.toList.drop (leading jdbcPrefix name)

/-- What is left without underscores and letter case. -/
def canonical (jdbcPrefix name : String) : List Char :=
  ((stripped jdbcPrefix name).filter (· ≠ '_')).map Char.toLower

/-- Every table has the camel form of its name without a leading prefix, and no table's
files are written over another one's. -/
def Lossless (config : Config) (rs : List ResultRow) : Prop :=
  ∃ tables, DataOperator.getTableName config rs = some tables ∧
    tables.map (fun t => (t.tableName, t.entityName)) = rs.map (fun r =>
      (r.tableName, String.ofList (camelForm (stripped config.jdbcTablePrefix r.tableName)))) ∧
    ∀ t ∈ tables, ∀ t' ∈ tables,
      canonical config.jdbcTablePrefix t.tableName ≠ canonical config.jdbcTablePrefix t'.tableName →
      t.entityName ≠ t'.entityName ∧
      AbstractGenerator.buildEntity config t ≠ AbstractGenerator.buildEntity config t' ∧
      AbstractGenerator.buildIDao config t ≠ AbstractGenerator.buildIDao config t'

/-- The characters between two places. -/
def between (name : List Char) (i j : ℕ) : List Char := (name.drop (min i j)).take (max i j - min i j)

/-- There are only underscores between the cut and the end of the leading prefix. -/
def Harmless (jdbcPrefix name : String) : Prop :=
  ∀ c ∈ between name.toList (Ctrls.cut name jdbcPrefix) (leading jdbcPrefix name), c = '_'

instance Harmless.decidable (jdbcPrefix name : String) : Decidable (Harmless jdbcPrefix name) :=
  inferInstanceAs (Decidable (∀ c ∈ _, _))

/-! ### One name -/

theorem camelForm_drop_iff (name : List Char) (i j : ℕ) :
    camelForm (name.drop i) = camelForm (name.drop j) ↔ ∀ c ∈ between name i j, c = '_' := by
  have hparts : name.drop (min i j) = between name i j ++ name.drop (max i j) := by
    have hdrop := List.take_append_drop (max i j - min i j) (name.drop (min i j))
    have hplace : min i j + (max i j - min i j) = max i j := by omega
    rw [List.drop_drop, hplace] at hdrop
    exact hdrop.symm
  have hsides : camelForm (name.drop i) = camelForm (name.drop j) ↔
      camelForm (name.drop (min i j)) = camelForm (name.drop (max i j)) := by
    rcases Nat.le_total i j with h | h
    · rw [min_eq_left h, max_eq_right h]
    · rw [min_eq_right h, max_eq_left h]
      exact eq_comm
  rw [hsides, hparts, camelForm_append_iff]

theorem word_ofList (l : List Char) : Ctrls.word (String.ofList l) = capital l := by
  unfold Ctrls.word
  rw [String.toList_ofList]
  rcases l with _ | ⟨c, cs⟩
  · rfl
  · show c.toLower.toUpper :: cs.map Char.toLower = _
    rw [Char.toUpper_toLower_eq_toUpper]
    rfl

/-- The words of `split` are those between the underscores. -/
theorem flatMap_word (l : List Char) :
    (split '_' (String.ofList l)).flatMap Ctrls.word = camelForm l := by
  have hwords : ∀ words : List (List Char),
      (words.map String.ofList).flatMap Ctrls.word = words.flatMap capital := by
    intro words
    rw [List.flatMap_map]
    exact congrArg (words.flatMap ·) (funext word_ofList)
  unfold split
  rw [String.toList_ofList]
  split
  · -- the parts left out are empty
    have hempty : ∀ words : List (List Char),
        (words.rdropWhile List.isEmpty).flatMap capital = words.flatMap capital := by
      intro words
      induction words using List.reverseRecOn with
      | nil => rfl
      | append_singleton words word ih =>
        rcases word with _ | ⟨c, cs⟩
        · rw [List.rdropWhile_concat_pos _ _ _ rfl, ih, List.flatMap_append]
          simp [capital]
        · rw [List.rdropWhile_concat_neg _ _ _ (by simp)]
    rw [hwords]
    exact hempty _
  · rename_i hnone
    unfold camelForm
    rw [List.splitOn_eq_singleton hnone, List.flatMap_singleton, List.flatMap_singleton, word_ofList]

theorem getBeanName_eq (tableName jdbcPrefix : String) :
    Ctrls.getBeanName tableName jdbcPrefix (some false) =
      if camelForm (tableName.toList.drop (Ctrls.cut tableName jdbcPrefix)) = [] then none
      else some (String.ofList (camelForm (tableName.toList.drop (Ctrls.cut tableName jdbcPrefix)))) := by
  have hhead := camelForm_head (tableName.toList.drop (Ctrls.cut tableName jdbcPrefix))
  unfold Ctrls.getBeanName
  dsimp only
  rw [flatMap_word]
  rcases hsb : camelForm (tableName.toList.drop (Ctrls.cut tableName jdbcPrefix)) with _ | ⟨c, cs⟩
  · rfl
  · rw [hsb] at hhead
    show some (String.ofList (c.toUpper :: cs)) = _
    rw [hhead c rfl, if_neg (List.cons_ne_nil c cs)]

/-- The prefix is not all there is to the name. -/
def Proper (jdbcPrefix name : String) : Prop := ∃ c ∈ stripped jdbcPrefix name, c ≠ '_'

instance Proper.decidable (jdbcPrefix name : String) : Decidable (Proper jdbcPrefix name) :=
  inferInstanceAs (Decidable (∃ c ∈ _, _))

theorem getBeanName_iff {jdbcPrefix tableName : String} (h : Proper jdbcPrefix tableName) :
    Ctrls.getBeanName tableName jdbcPrefix (some false) =
        some (String.ofList (camelForm (stripped jdbcPrefix tableName))) ↔
      Harmless jdbcPrefix tableName := by
  have hne : camelForm (stripped jdbcPrefix tableName) ≠ [] := by
    rw [ne_eq, camelForm_eq_nil_iff]
    obtain ⟨c, hc, hne⟩ := h
    exact fun hall => hne (hall c hc)
  unfold Harmless
  rw [getBeanName_eq, ← camelForm_drop_iff]
  constructor
  · intro heq
    split at heq
    · cases heq
    · exact String.ofList_inj.mp (Option.some.inj heq)
  · intro heq
    rw [heq]
    exact if_neg hne

/-! ### All tables -/

variable {config : Config} {rs : List ResultRow} {tables : List Table}

theorem of_row {r : ResultRow} {i : ℕ} {t : Table} (h : DataOperator.row config r i = some t) :
    t.tableName = r.tableName ∧
    Ctrls.getBeanName r.tableName config.jdbcTablePrefix (some false) = some t.entityName ∧
    t.iDaoName = t.entityName ++ DataOperator.suffix config := by
  obtain ⟨beanName, hbean, rfl⟩ := Option.map_eq_some_iff.mp h
  exact ⟨rfl, hbean, rfl⟩

/-- The tables are those of the rows, with their names. -/
theorem names_getTableName (h : DataOperator.getTableName config rs = some tables) :
    tables.map (fun t => (t.tableName, some t.entityName)) = rs.map fun r =>
      (r.tableName, Ctrls.getBeanName r.tableName config.jdbcTablePrefix (some false)) := by
  have hrows : tables.map (fun t => (t.tableName, some t.entityName)) =
      (rs.zipIdx 1).map fun r =>
        (r.1.tableName, Ctrls.getBeanName r.1.tableName config.jdbcTablePrefix (some false)) :=
    map_of_mapM h fun r _ t ht => by rw [(of_row ht).1, (of_row ht).2.1]
  have hfst : ((rs.zipIdx 1).map Prod.fst).map (fun r =>
      (r.tableName, Ctrls.getBeanName r.tableName config.jdbcTablePrefix (some false))) =
      (rs.zipIdx 1).map fun r =>
        (r.1.tableName, Ctrls.getBeanName r.1.tableName config.jdbcTablePrefix (some false)) :=
    List.map_map
  rw [hrows, ← hfst, List.zipIdx_map_fst]

theorem isSome_getTableName (h : ∀ r ∈ rs,
    (Ctrls.getBeanName r.tableName config.jdbcTablePrefix (some false)).isSome = true) :
    (DataOperator.getTableName config rs).isSome = true := by
  unfold DataOperator.getTableName
  rw [isSome_mapM]
  intro r hr
  have hmem : r.1 ∈ rs := by
    rw [← List.zipIdx_map_fst 1 rs]
    exact List.mem_map_of_mem hr
  unfold DataOperator.row
  rw [Option.isSome_map]
  exact h r.1 hmem

/-- A table is that of some row. -/
theorem exists_row (h : DataOperator.getTableName config rs = some tables) :
    ∀ t ∈ tables, ∃ r ∈ rs, ∃ i, DataOperator.row config r i = some t := by
  intro t ht
  obtain ⟨r, hr, hrow⟩ := (mem_of_mapM h).mp ht
  refine ⟨r.1, ?_, r.2, hrow⟩
  rw [← List.zipIdx_map_fst 1 rs]
  exact List.mem_map_of_mem hr

/-- The camel form tells names apart that differ in more than underscores and letter case. -/
theorem canonical_eq {jdbcPrefix name name' : String}
    (h : camelForm (stripped jdbcPrefix name) = camelForm (stripped jdbcPrefix name')) :
    canonical jdbcPrefix name = canonical jdbcPrefix name' := by
  unfold canonical
  rw [← camelForm_lower, ← camelForm_lower, h]

theorem createFile_inj {directory name name' extension : String}
    (h : createFile config (directory ++ name ++ extension) =
      createFile config (directory ++ name' ++ extension)) : name = name' := by
  unfold createFile at h
  have hlist := congrArg String.toList h
  simp only [String.toList_append, List.append_cancel_left_eq, List.append_cancel_right_eq] at hlist
  exact String.toList_inj.mp hlist

theorem files_ne {t t' : Table} {r r' : ResultRow} {i i' : ℕ}
    (ht : DataOperator.row config r i = some t) (ht' : DataOperator.row config r' i' = some t')
    (h : t.entityName ≠ t'.entityName) :
    AbstractGenerator.buildEntity config t ≠ AbstractGenerator.buildEntity config t' ∧
    AbstractGenerator.buildIDao config t ≠ AbstractGenerator.buildIDao config t' := by
  refine ⟨fun heq => h (createFile_inj heq), fun heq => h ?_⟩
  have hdao := createFile_inj heq
  rw [(of_row ht).2.2, (of_row ht').2.2] at hdao
  have hlist := congrArg String.toList hdao
  rw [String.toList_append, String.toList_append, List.append_cancel_right_eq] at hlist
  exact String.toList_inj.mp hlist

/-- The prefix `m_`, as the generator is set up by default. -/
def defaultConfig : Config where
  jdbcTablePrefix := "m_"
  generator := "com.lilianghui.core.Generator2"
  fileSavePath := "out"
  entityNamespacePath := "entity/"
  daoNamespacePath := "mapper/"

end BeanNames
end CloudManager
