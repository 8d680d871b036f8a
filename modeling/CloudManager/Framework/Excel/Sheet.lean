/-
# Sheets, and what the import reads of a cell

`Import.getCell` makes an object of a cell: a text for numbers, dates and texts, a
Boolean, or the number of a formula. A formula with a date leaves its `switch` before
the text of the date is set, and is read as null; a cell with an error throws.
-/
import Mathlib.Data.List.Basic
import CloudManager.Lib.JavaString
import CloudManager.Lib.JavaText

namespace CloudManager
namespace Framework
namespace Excel

/-! ### Cells -/

/-- What a cell, or the result of a formula, shows: numbers `N` and dates `D` (numbers in
a format of dates). -/
inductive Content (N D : Type*)
  | blank
  | text (s : String)
  | number (n : N)
  | date (d : D)
  | boolean (b : Bool)
  | error
  deriving DecidableEq

inductive Cell (N D : Type*)
  | plain (content : Content N D)
  | formula (result : Content N D)
  deriving DecidableEq

/-- A row: its cells from the first on, where there are any. -/
abbrev Row (N D : Type*) := List (Option (Cell N D))

/-- A sheet: its rows from the first on, where there are any. -/
structure Sheet (N D : Type*) where
  sheetName : String
  rows : List (Option (Row N D))

variable {N D : Type*}

def Row.getCell (row : Row N D) (i : ℕ) : Option (Cell N D) := row[i]?.join

/-- The rows from an index on that are there, with their indices. -/
def Sheet.rowsFrom (sheet : Sheet N D) (start : ℤ) : List (ℕ × Row N D) :=
  sheet.rows.zipIdx.filterMap fun x => if start ≤ x.2 then x.1.map fun row => (x.2, row) else none

/-! ### Objects -/

def isBlank (s : String) : Bool := JavaText.isBlank s.toList

/-- Not blank, and not `null` in any case. -/
def isShown (s : String) : Bool := !isBlank s && !JavaString.equalsIgnoreCase "null" s

/-- What `getCell` sets as a value. -/
inductive Value (N : Type*)
  | string (s : String)
  | boolean (b : Bool)
  | double (n : N)
  deriving DecidableEq

/-- The texts of numbers and dates, none of them blank, and what POI reads as the number
of a formula that has none (`coerce`; `none`: it throws). -/
structure Poi (N D : Type*) where
  /-- `DecimalFormat("#.####")`. -/
  formatNumber : N → String
  formatDate : D → String
  /-- `String.valueOf` of a double. -/
  valueOf : N → String
  /-- The text of the date of a formula: year, month and day. -/
  formulaDate : D → String
  coerce : Content N D → Option (N ⊕ D)
  shown_number : ∀ n, isShown (JavaString.trim (formatNumber n)) = true
  shown_date : ∀ d, isShown (JavaString.trim (formatDate d)) = true
  shown_valueOf : ∀ n, isShown (valueOf n) = true

variable (poi : Poi N D)

def Value.toString : Value N → String
  | .string s => s
  | .boolean b => if b then "true" else "false"
  | .double n => poi.valueOf n

/-- `value == null || StringUtils.isBlank(value.toString())`. -/
def blankValue (v : Option (Value N)) : Bool := v.all fun v => isBlank (v.toString poi)

/-- The value is there, not blank, and not `null`. -/
def shownValue (v : Option (Value N)) : Bool := v.any fun v => isShown (v.toString poi)

/-! ### `getCell` -/

/-- `getNumericCellValue` of a formula, as a date where its format is one of dates. -/
def numericOf : Content N D → Option (N ⊕ D)
  | .number n => some (.inl n)
  | .date d => some (.inr d)
  | c => poi.coerce c

/-- A value that is a text is trimmed. -/
def Value.trimmed : Value N → Value N
  | .string s => .string (JavaString.trim s)
  | v => v

/-- `none`: an exception; `some none`: null. -/
def getCell : Cell N D → Option (Option (Value N))
  | .plain .blank => some (some (.string ""))
  | .plain (.text s) => some (some (Value.string s).trimmed)
  | .plain (.number n) => some (some (Value.string (poi.formatNumber n)).trimmed)
  | .plain (.date d) => some (some (Value.string (poi.formatDate d)).trimmed)
  | .plain (.boolean b) => some (some (.boolean b))
  | .plain .error => none
  | .formula r =>
    match numericOf poi r with
    -- the text of the date is made, and the switch is left
    | some (.inr _) => some none
    | some (.inl n) => some (some (.double n))
    | none =>
      match r with
      | .text s => some (some (Value.string s).trimmed)
      | _ => none

/-- The value of the cell at an index of a row; null for none. -/
def readCell (row : Row N D) (i : ℕ) : Option (Option (Value N)) :=
  match row.getCell i with
  | none => some none
  | some cell => getCell poi cell

/-! ### What the sheet shows -/

/-- Anything but blank, the text `null` and an error. -/
def Content.shown : Content N D → Bool
  | .text s => isShown (JavaString.trim s)
  | .number _ | .date _ | .boolean _ => true
  | .blank | .error => false

def Cell.content : Cell N D → Content N D
  | .plain c | .formula c => c

/-- The cell at an index of a row shows something. -/
def shownAt (row : Row N D) (i : ℕ) : Bool := (row.getCell i).any (·.content.shown)

/-- The value of what a cell shows; null for an error. -/
def Cell.value : Cell N D → Option (Value N)
  | .plain .blank | .formula .blank => some (.string "")
  | .plain (.text s) | .formula (.text s) => some (Value.string s).trimmed
  | .plain (.number n) => some (Value.string (poi.formatNumber n)).trimmed
  | .formula (.number n) => some (.double n)
  | .plain (.date d) => some (Value.string (poi.formatDate d)).trimmed
  | .formula (.date d) => some (.string (poi.formulaDate d))
  | .plain (.boolean b) | .formula (.boolean b) => some (.boolean b)
  | .plain .error | .formula .error => none

/-- The value of the cell at an index of a row; null for none. -/
def cellValue (row : Row N D) (i : ℕ) : Option (Value N) := (row.getCell i).bind (·.value poi)

/-! ### Reading, cell by cell -/

/-- The cell can be read. -/
def Cell.readable : Cell N D → Bool
  | .plain .error => false
  | .plain _ => true
  | .formula (.text _) => true
  | .formula r => (numericOf poi r).isSome

/-- The cell is read as something: a formula as its number, where it has one, and as
nothing where it has a date. -/
def Cell.counts : Cell N D → Bool
  | .plain c => c.shown
  | .formula r =>
    match numericOf poi r with
    | some (.inl _) => true
    | some (.inr _) => false
    | none => r.shown

/-- The cell is read as null or as a blank text. -/
def Cell.vacant : Cell N D → Bool
  | .plain .blank => true
  | .plain (.text s) => isBlank (JavaString.trim s)
  | .plain _ => false
  | .formula r =>
    match numericOf poi r with
    | some (.inl _) => false
    | some (.inr _) => true
    | none =>
      match r with
      | .text s => isBlank (JavaString.trim s)
      | _ => false

def readableAt (row : Row N D) (i : ℕ) : Bool := (row.getCell i).all (·.readable poi)

def countsAt (row : Row N D) (i : ℕ) : Bool := (row.getCell i).any (·.counts poi)

def vacantAt (row : Row N D) (i : ℕ) : Bool := (row.getCell i).all (·.vacant poi)

variable {poi}

@[simp] theorem shownValue_none : shownValue poi none = false := rfl

@[simp] theorem shownValue_some (v : Value N) : shownValue poi (some v) = isShown (v.toString poi) :=
  rfl

@[simp] theorem blankValue_none : blankValue poi none = true := rfl

@[simp] theorem blankValue_some (v : Value N) : blankValue poi (some v) = isBlank (v.toString poi) :=
  rfl

theorem isShown_empty : isShown "" = false := by decide

theorem isShown_boolean (b : Bool) : isShown (if b then "true" else "false") = true := by
  revert b
  decide

theorem isSome_getCell (c : Cell N D) : (getCell poi c).isSome = c.readable poi := by
  rcases c with c | r
  · cases c <;> rfl
  · simp only [getCell]
    split
    · rename_i d hn
      cases r <;> simp [Cell.readable, hn]
    · rename_i n hn
      cases r <;> simp [Cell.readable, hn]
    · rename_i hn
      cases r <;> simp [Cell.readable, hn]

theorem shown_getCell {c : Cell N D} {v : Option (Value N)} (h : getCell poi c = some v) :
    shownValue poi v = c.counts poi := by
  rcases c with c | r
  · cases c with
    | blank =>
      cases h
      simp only [shownValue_some, Value.toString, Cell.counts, Content.shown, isShown_empty]
    | text s =>
      cases h
      simp only [Value.trimmed, shownValue_some, Value.toString, Cell.counts, Content.shown]
    | number n =>
      cases h
      simp only [Value.trimmed, shownValue_some, Value.toString, Cell.counts, Content.shown,
        poi.shown_number]
    | date d =>
      cases h
      simp only [Value.trimmed, shownValue_some, Value.toString, Cell.counts, Content.shown,
        poi.shown_date]
    | boolean b =>
      cases h
      simp only [shownValue_some, Value.toString, Cell.counts, Content.shown, isShown_boolean]
    | error => cases h
  · simp only [getCell] at h
    split at h
    · rename_i d hn
      cases h
      simp [Cell.counts, hn]
    · rename_i n hn
      cases h
      simp only [Cell.counts, hn, shownValue_some, Value.toString, poi.shown_valueOf]
    · rename_i hn
      split at h
      · cases h
        simp only [Value.trimmed, shownValue_some, Value.toString, Cell.counts, hn, Content.shown]
      · cases h

theorem not_isBlank_of_isShown {s : String} (h : isShown s = true) : isBlank s = false := by
  simp only [isShown, Bool.and_eq_true, Bool.not_eq_true'] at h
  exact h.1

theorem not_blank_of_shown {v : Option (Value N)} (h : shownValue poi v = true) :
    blankValue poi v = false := by
  cases v with
  | none => cases h
  | some v => exact not_isBlank_of_isShown h

theorem blank_getCell {c : Cell N D} {v : Option (Value N)} (h : getCell poi c = some v) :
    blankValue poi v = c.vacant poi := by
  rcases c with c | r
  · cases c with
    | blank =>
      cases h
      simp only [blankValue_some, Value.toString, Cell.vacant]
      decide
    | text s =>
      cases h
      simp only [Value.trimmed, blankValue_some, Value.toString, Cell.vacant]
    | number n =>
      cases h
      simp only [Value.trimmed, blankValue_some, Value.toString, Cell.vacant,
        not_isBlank_of_isShown (poi.shown_number n)]
    | date d =>
      cases h
      simp only [Value.trimmed, blankValue_some, Value.toString, Cell.vacant,
        not_isBlank_of_isShown (poi.shown_date d)]
    | boolean b =>
      cases h
      simp only [blankValue_some, Value.toString, Cell.vacant,
        not_isBlank_of_isShown (isShown_boolean b)]
    | error => cases h
  · simp only [getCell] at h
    split at h
    · rename_i d hn
      cases h
      simp [Cell.vacant, hn]
    · rename_i n hn
      cases h
      simp only [Cell.vacant, hn, blankValue_some, Value.toString,
        not_isBlank_of_isShown (poi.shown_valueOf n)]
    · rename_i hn
      split at h
      · cases h
        simp only [Value.trimmed, blankValue_some, Value.toString, Cell.vacant, hn]
      · cases h

variable {row : Row N D} {i : ℕ} {v : Option (Value N)}

theorem isSome_readCell : (readCell poi row i).isSome = readableAt poi row i := by
  unfold readCell readableAt
  cases row.getCell i with
  | none => rfl
  | some c => exact isSome_getCell c

theorem shown_readCell (h : readCell poi row i = some v) : shownValue poi v = countsAt poi row i := by
  unfold readCell at h
  unfold countsAt
  split at h
  · rename_i hc
    cases h
    simp [hc]
  · rename_i c hc
    simpa [hc] using shown_getCell h

theorem blank_readCell (h : readCell poi row i = some v) : blankValue poi v = vacantAt poi row i := by
  unfold readCell at h
  unfold vacantAt
  split at h
  · rename_i hc
    cases h
    simp [hc]
  · rename_i c hc
    simpa [hc] using blank_getCell h

end Excel
end Framework
end CloudManager
