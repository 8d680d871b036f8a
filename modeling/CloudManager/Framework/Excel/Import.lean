/-
# `Import`: rows to maps and to beans

A sheet is imported as maps (`importMap`) or as beans, by columns that the caller or
the header has given definitions to (`getDisplayText`, `getData`). Both ways read the
rows one after the other and leave out those that they take for empty; what is read is
then checked against the definitions (`validateMap`, `validateBean`).

An exception anywhere ends the import: `none`. What a `ReadConverter` throws is not
modelled.
-/
import Mathlib.Data.List.Sort
import Mathlib.Logic.Function.Basic
import CloudManager.Framework.Excel.Sheet
import CloudManager.Lib.LinkedHashMap

namespace CloudManager
namespace Framework
namespace Excel

/-! ### Definitions -/

/-- What an attribute or a caller says of a column; an empty text stands for null. -/
structure CellBeanDefinition (J : Type*) where
  name : String
  javaType : J
  title : String := ""
  parameters : List String := []
  defaultValue : String := ""
  ofName : String := ""
  allowRepeat : Bool := true
  allowBlank : Bool := true
  /-- The class of its `ReadConverter`, if not the default one. -/
  read : Option String := none
  cellIndex : ℤ := -1
  blankTemplate : String := ""
  repeatTemplate : String := ""
  deriving DecidableEq

structure SheetBean (J : Type*) where
  titleIndex : ℤ := 1
  subTitleIndex : ℤ := 2
  dataIndex : ℤ := 3
  skipNoMapping : Bool := false
  gorup : String := "default"
  field : List (ℤ × CellBeanDefinition J) := []
  showTitle : Bool := false

/-- An object of a property: as it was read, or another one. -/
inductive Obj (N V : Type*)
  | value (v : Value N)
  | other (x : V)
  deriving DecidableEq

/-- A cell that was read, for the definitions of its column. -/
structure DisplayText (N J V : Type*) where
  rowIndex : ℕ
  cellIndex : ℕ
  value : Option (Value N) := none
  propertyValue : List (CellBeanDefinition J × Option (Obj N V)) := []
  error : Option String := none
  defaultFlag : Bool := false

/-- The code of other classes: converters of definitions and of types, the parser of
dates, and the callers' own checks. -/
structure Converters (N J V : Type*) where
  /-- `Date.class.isAssignableFrom`. -/
  isDate : J → Bool
  parseDate : String → Option V
  read : String → CellBeanDefinition J → Option (Value N) → Option (Obj N V)
  /-- The `ReadConverterFactory` registered for a type; for a text that it cannot convert
  it throws. -/
  factory : J → Option (CellBeanDefinition J → Option (Value N) → Option (Option (Obj N V)))
  toString : V → String
  valid : CellBeanDefinition J → DisplayText N J V → Option (Obj N V) → List String

variable {N D J V : Type*} (poi : Poi N D) (conv : Converters N J V)

def Obj.toString : Obj N V → String
  | .value v => v.toString poi
  | .other x => conv.toString x

/-- `multimap.get`. -/
def definitionsAt (multimap : List (ℤ × CellBeanDefinition J)) (index : ℤ) :
    List (CellBeanDefinition J) :=
  (multimap.filter (·.1 = index)).map Prod.snd

/-- The keys of the multimap, sorted. -/
def columnsIndex (multimap : List (ℤ × CellBeanDefinition J)) : List ℤ :=
  (multimap.map Prod.fst).dedup.insertionSort (· ≤ ·)

/-- The loop over the rows, of both ways: each is read, and kept if it is not empty. -/
def importRows {α : Type*} (read : ℕ × Row N D → Option α) (isEmpty : α → Bool)
    (rows : List (ℕ × Row N D)) : Option (List ((ℕ × Row N D) × α)) :=
  (rows.mapM fun x => (read x).map (x, ·)).map fun l => l.filter fun x => !isEmpty x.2

/-! ### Maps -/

inductive MapKey
  | index (i : ℕ)
  | name (s : String)
  deriving DecidableEq

/-- The value of a map's entry: the default for a blank one. -/
def CellBeanDefinition.orDefault (o : CellBeanDefinition J) (value : Option (Value N)) :
    Option (Value N) :=
  if blankValue poi value then
    if isBlank o.defaultValue then none else some (.string o.defaultValue)
  else value

variable (sheetBean : SheetBean J)

/-- The names of the definitions with a default. -/
def hasDefaultValue : List MapKey :=
  (sheetBean.field.filter fun f => !isBlank f.2.defaultValue).map fun f => .name f.2.name

/-- What column `i` puts into the map of the row, and its text. -/
def mapColumn (y : ℕ) (row : Row N D) (i : ℕ) :
    Option (List (MapKey × Option (Value N)) × List (DisplayText N J V)) :=
  match definitionsAt sheetBean.field (i + 1) with
  | [] =>
    if sheetBean.skipNoMapping then some ([], [])
    else (readCell poi row i).map fun value => ([(.index i, value)], [])
  | fields =>
    (readCell poi row i).map fun value =>
      (fields.map fun o => (.name o.name, o.orDefault poi value),
        [{ rowIndex := y, cellIndex := i, propertyValue := fields.map fun o => (o, value.map .value) }])

/-- The number of columns of a row that are looked at. -/
def lastCellIndex (row : Row N D) : ℕ :=
  let maxCellIndex := ((columnsIndex sheetBean.field).getLast?.getD 0).toNat
  if sheetBean.skipNoMapping then maxCellIndex else max maxCellIndex row.length

def mapRow (x : ℕ × Row N D) :
    Option (LinkedHashMap MapKey (Option (Value N)) × List (DisplayText N J V)) :=
  ((List.range (lastCellIndex sheetBean x.2)).mapM (mapColumn poi sheetBean x.1 x.2)).map fun l =>
    (LinkedHashMap.empty.putAll (l.flatMap Prod.fst), l.flatMap Prod.snd)

/-- The loop counts entries up to the first one that is there; a name with a default
never is. -/
def emptyMap (map : LinkedHashMap MapKey (Option (Value N))) : Bool :=
  (map.entries.takeWhile fun m =>
    !shownValue poi m.2 || m.1 ∈ hasDefaultValue sheetBean).length = map.entries.length

/-- With no definition at all the greatest column throws. -/
def importMap (sheet : Sheet N D) :
    Option (List ((ℕ × Row N D) ×
      LinkedHashMap MapKey (Option (Value N)) × List (DisplayText N J V))) :=
  if sheetBean.field.isEmpty then none
  else importRows (mapRow poi sheetBean) (fun x => emptyMap poi sheetBean x.1)
    (sheet.rowsFrom (sheetBean.dataIndex - 1))

/-! ### Beans -/

/-- A default is set for a blank value, and stays for the definitions that come after. -/
def fillDefault (definition : CellBeanDefinition J) (d : DisplayText N J V) : DisplayText N J V :=
  if blankValue poi d.value && !isBlank definition.defaultValue then
    { d with value := some (.string definition.defaultValue) }
  else d

def dateError : String :=
  "日期转换错误,请参照以下日期格式:yyyy-MM-dd,yyyy-MM-dd HH:mm:ss,yyyy-MM-dd HH,yyyy-MM-dd HH:mm," ++
    "yyyy/MM/dd,yyyy/MM/dd HH/mm/ss,yyyy/MM/dd HH:mm:ss"

/-- `getDateValue`, with the error that it leaves. -/
def DisplayText.dateValue (d : DisplayText N J V) : Option (Obj N V) × Option String :=
  match d.value with
  | none => (none, d.error)
  | some v =>
    if isBlank (v.toString poi) then (none, d.error)
    else
      match conv.parseDate (v.toString poi) with
      | some x => (some (.other x), d.error)
      | none => (none, some dateError)

def parseValue (definition : CellBeanDefinition J) (d : DisplayText N J V) : DisplayText N J V :=
  match definition.read with
  | some read =>
    { d with propertyValue := d.propertyValue ++ [(definition, conv.read read definition d.value)] }
  | none =>
    if conv.isDate definition.javaType then
      let (date, error) := d.dateValue poi conv
      { d with propertyValue := d.propertyValue ++ [(definition, date)], error := error }
    else { d with propertyValue := d.propertyValue ++ [(definition, d.value.map .value)] }

/-- A column of a row; asked for a cell before the first one, an XSSF row throws. -/
def readColumn (multimap : List (ℤ × CellBeanDefinition J)) (x : ℕ × Row N D) (index : ℤ) :
    Option (DisplayText N J V) :=
  if index ≤ 0 then none
  else (readCell poi x.2 (index - 1).toNat).map fun value =>
    (definitionsAt multimap index).foldl
      (fun d definition => parseValue poi conv definition (fillDefault poi definition d))
      { rowIndex := x.1, cellIndex := (index - 1).toNat, value := value }

def getRow (multimap : List (ℤ × CellBeanDefinition J)) (x : ℕ × Row N D) :
    Option (List (DisplayText N J V)) :=
  (columnsIndex multimap).mapM (readColumn poi conv multimap x)

def emptyTexts (displayTexts : List (DisplayText N J V)) : Bool :=
  (displayTexts.takeWhile fun d => d.defaultFlag || !shownValue poi d.value).length =
    displayTexts.length

def getSubTitleIndex : ℤ :=
  (if sheetBean.showTitle ∧ sheetBean.titleIndex > sheetBean.subTitleIndex then
    sheetBean.titleIndex + 1 else sheetBean.subTitleIndex) - 1

/-- The index of the first row of data. -/
def firstRow : ℤ :=
  if sheetBean.dataIndex > 0 then sheetBean.dataIndex - 1 else getSubTitleIndex sheetBean + 1

def getDisplayText (multimap : List (ℤ × CellBeanDefinition J)) (sheet : Sheet N D) :
    Option (List ((ℕ × Row N D) × List (DisplayText N J V))) :=
  importRows (getRow poi conv multimap) (emptyTexts poi) (sheet.rowsFrom (firstRow sheetBean))

/-- What `BeanUtils.setProperty` was given for a property, by its path. -/
abbrev Bean (N V : Type*) := String → Option (Option (Obj N V))

/-- `name`, or `name.ofName`. -/
def CellBeanDefinition.path (definition : CellBeanDefinition J) : String :=
  if isBlank definition.ofName then definition.name
  else definition.name ++ "." ++ definition.ofName

/-- The converter of the type, where there is one, is given the text as it is in the end. -/
def returnValue (d : DisplayText N J V) (definition : CellBeanDefinition J)
    (value : Option (Obj N V)) : Option (Option (Obj N V)) :=
  match conv.factory definition.javaType with
  | some factory => factory definition d.value
  | none => some value

def setProperties (t : Bean N V) (d : DisplayText N J V) : Option (Bean N V) :=
  d.propertyValue.foldlM (fun t x => (returnValue conv d x.1 x.2).map fun value =>
    Function.update t x.1.path (some value)) t

def getData (displayTexts : List (List (DisplayText N J V))) : Option (List (Bean N V)) :=
  displayTexts.mapM fun list => list.foldlM (setProperties conv) fun _ => none

/-! ### Validation -/

inductive ErrorKind
  | blank
  | repeated
  | valid
  | text
  deriving DecidableEq, Repr

/-- An error; the import keeps its text. -/
structure Report (J : Type*) where
  rowIndex : ℕ
  cellIndex : ℕ
  kind : ErrorKind
  definition : Option (CellBeanDefinition J)
  text : String
  deriving DecidableEq

/-- `String.valueOf` of an object that may be null. -/
def textOf (value : Option (Value N)) : String := value.elim "null" (Value.toString poi)

def replace (target replacement s : String) : String :=
  String.ofList (JavaText.replace target.toList replacement.toList s.toList)

def parseError (template : String) (sheetName : String) (definition : CellBeanDefinition J)
    (d : DisplayText N J V) : String :=
  let s := replace "#{sheetName}" sheetName template
  let s := replace "#{rowIndex}" s!"{d.rowIndex + 1}" s
  let s := replace "#{cellIndex}" s!"{d.cellIndex + 1}" s
  let s := replace "#{value}" (d.value.elim "" (Value.toString poi)) s
  definition.parameters.zipIdx.foldl (fun s p => replace ("#\x7bp" ++ s!"{p.2 + 1}" ++ "\x7d") p.1 s) s

/-- Where a text is: the beginning of the messages. -/
def place (sheetName : String) (d : DisplayText N J V) : String :=
  s!"工作簿[{sheetName}]在第[{d.rowIndex + 1}]行第[{d.cellIndex + 1}]列"

/-- The values seen, by name, and the errors. -/
structure Validation (J : Type*) where
  seen : List (String × String) := []
  reports : List (Report J) := []

def Validation.report (st : Validation J) (d : DisplayText N J V) (kind : ErrorKind)
    (definition : Option (CellBeanDefinition J)) (text : String) : Validation J :=
  { st with reports := st.reports ++ [⟨d.rowIndex, d.cellIndex, kind, definition, text⟩] }

variable (sheetName : String)

def reportBlank (definition : CellBeanDefinition J) (d : DisplayText N J V) (st : Validation J) :
    Validation J :=
  st.report d .blank definition
    (if isBlank definition.blankTemplate then place sheetName d ++ "不能为空"
    else parseError poi definition.blankTemplate sheetName definition d)

def reportRepeat (definition : CellBeanDefinition J) (d : DisplayText N J V) (st : Validation J) :
    Validation J :=
  st.report d .repeated definition
    (if isBlank definition.repeatTemplate then
      place sheetName d ++ s!"有重复值,重复值为[{textOf poi d.value}]"
    else parseError poi definition.repeatTemplate sheetName definition d)

/-- The value that is checked, and its text. -/
def checked (d : DisplayText N J V) (val : Option (Obj N V)) : Option (Obj N V) :=
  val.or (d.value.map .value)

def checkedText (val : Option (Obj N V)) : String := val.elim "" (Obj.toString poi conv)

def validateField (definition : CellBeanDefinition J) (d : DisplayText N J V)
    (val : Option (Obj N V)) (st : Validation J) : Validation J :=
  let val := checked d val
  let value := checkedText poi conv val
  let st :=
    if !definition.allowBlank && !isShown value then reportBlank poi sheetName definition d st else st
  let st :=
    if definition.allowRepeat then st
    else
      let st' := if (definition.name, value) ∈ st.seen then reportRepeat poi sheetName definition d st
        else st
      { st' with seen := st'.seen ++ [(definition.name, value)] }
  (conv.valid definition d val).foldl (fun st msg => st.report d .valid definition msg) st

/-- The error that a conversion has left. -/
def reportText (d : DisplayText N J V) (st : Validation J) : Validation J :=
  match d.error with
  | some error => if isBlank error then st
    else st.report d .text none (place sheetName d ++ s!"错误:{error}")
  | none => st

/-- `validate` of maps: the values seen are those of one row. A `HashMap` lists its
definitions in some order; here it is theirs. -/
def validateMap (displayTexts : List (List (DisplayText N J V))) : Validation J :=
  displayTexts.foldl (fun st list =>
    list.foldl (fun st d =>
      reportText sheetName d (d.propertyValue.foldl
        (fun st x => validateField poi conv sheetName x.1 d x.2 st) st)) { st with seen := [] }) {}

/-- `validate` of beans. -/
def validateBean (multimap : List (ℤ × CellBeanDefinition J))
    (displayTexts : List (List (DisplayText N J V))) : Validation J :=
  displayTexts.foldl (fun st list =>
    list.foldl (fun st d =>
      reportText sheetName d ((definitionsAt multimap (d.cellIndex + 1)).foldl
        (fun st definition => validateField poi conv sheetName definition d none st) st)) st) {}

end Excel
end Framework
end CloudManager
