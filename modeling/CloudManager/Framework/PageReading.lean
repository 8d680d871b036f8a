/-
# How a query is read

A query is read into its string literals, its parameters `#{..}`, the markers of the
paging and other characters. What is a literal depends on the database: MySQL has two
quotes and a backslash that escapes, Oracle has literals with brackets of their own; and
in a comment or a quoted name a quote begins no literal (`Lexis`). The pieces read add up
to the query (`text_pieces`).
-/
import CloudManager.Framework.PageSql
import CloudManager.Lib.Scan

namespace CloudManager
namespace PageSql

open JavaText Scan

/-! ### Pieces -/

inductive Piece
  | char (c : Char)
  | literal (s : Sql)
  | parameter (s : Sql)
  | marker (s : Sql)
  deriving DecidableEq, Repr

def Piece.text : Piece → Sql
  | .char c => [c]
  | .literal s | .parameter s | .marker s => s

def markerKeys : List Sql := [HEADER, ORDER_BY, ORDER_BY_OVER]

/-- Up to the first `close`, and with it. -/
def upTo (close : Sql) : Sql → Option Sql
  | [] => none
  | c :: s =>
    if startsWith close (c :: s) then some ((c :: s).take close.length)
    else (upTo close s).map (c :: ·)

/-- From `opening`, at the start, up to the first `close`. -/
def between (opening close s : Sql) : Option Sql :=
  if startsWith opening s then
    (upTo close (s.drop opening.length)).map (s.take opening.length ++ ·)
  else none

/-! ### Literals -/

/-- What a database takes for a literal, a name or a comment. -/
structure Lexis where
  /-- The quotes of literals. -/
  quotes : List Char
  /-- A backslash in a literal escapes a quote. -/
  escapes : Bool := false
  /-- A literal has brackets of its own after `q'`. -/
  brackets : Bool := false
  /-- What opens and what closes a quoted name. -/
  names : List (Char × Char)
  /-- A comment begins with two dashes only before a space. -/
  dashesSpace : Bool := false
  hashComments : Bool := false
  nestedComments : Bool := false
  /-- What is between `/*!` and its end is read. -/
  versions : Bool := false
  isSpace_quote : ∀ quote ∈ quotes, isSpace quote = false

def mysql : Lexis :=
  { quotes := ['\'', '\x22'], escapes := true, names := [('\x60', '\x60')], dashesSpace := true
    hashComments := true, versions := true, isSpace_quote := by decide }

def oracle : Lexis :=
  { quotes := ['\''], brackets := true, names := [('\x22', '\x22')], isSpace_quote := by decide }

def sqlserver : Lexis :=
  { quotes := ['\''], names := [('\x22', '\x22'), ('[', ']')], nestedComments := true
    isSpace_quote := by decide }

/-- Up to the closing quote, and with it: the first one that is not doubled and not
escaped. -/
def toQuote (quote : Char) (escapes : Bool) : Bool → Sql → Option Sql
  | _, [] => none
  | true, c :: s => (toQuote quote escapes false s).map (c :: ·)
  | false, c :: s =>
    if c = quote then
      if s.head? = some quote then (toQuote quote escapes true s).map (c :: ·) else some [c]
    else (toQuote quote escapes (escapes && c = '\\') s).map (c :: ·)

/-- The bracket that closes another one; other characters close themselves. -/
def closing (c : Char) : Char :=
  if c = '[' then ']' else if c = '(' then ')' else if c = '<' then '>'
  else if c = '\x7b' then '\x7d' else c

/-- Up to the closing bracket with a quote behind it, and with both. -/
def toBracket (bracket : Char) : Sql → Option Sql
  | c :: d :: s =>
    if c = bracket && d = '\'' then some [c, d] else (toBracket bracket (d :: s)).map (c :: ·)
  | _ => none

/-- A literal such as `q'[..]'` at the start. -/
def bracketedAt : Sql → Option Sql
  | q :: quote :: bracket :: s =>
    if (q = 'q' || q = 'Q') && quote = '\'' && !isSpace bracket then
      (toBracket (closing bracket) s).map ([q, quote, bracket] ++ ·)
    else none
  | _ => none

/-- From one of the characters, at the start, up to what closes it. -/
def delimitedAt (delimiters : List (Char × Char)) (escapes : Bool) : Sql → Option Sql
  | [] => none
  | c :: s => (delimiters.find? (·.1 = c)).bind fun d =>
    (toQuote d.2 escapes false s).map (c :: ·)

/-- A literal at the start. -/
def literalAt (lexis : Lexis) (s : Sql) : Option Sql :=
  (delimitedAt (lexis.quotes.map fun quote => (quote, quote)) lexis.escapes s).or
    (if lexis.brackets then bracketedAt s else none)

/-! ### Names and comments -/

/-- Up to the end of a comment of which `depth` more are open, and with it. -/
def toEnd (nested : Bool) : ℕ → Sql → Option Sql
  | depth, c :: d :: s =>
    if c = '*' && d = '/' then
      if depth = 0 then some [c, d] else (toEnd nested (depth - 1) s).map ([c, d] ++ ·)
    else if nested && c = '/' && d = '*' then (toEnd nested (depth + 1) s).map ([c, d] ++ ·)
    else (toEnd nested depth (d :: s)).map (c :: ·)
  | _, _ => none

/-- A comment at the start. -/
def commentAt (lexis : Lexis) (s : Sql) : Option Sql :=
  if ['/', '*'].isPrefixOf s && !(lexis.versions && ['/', '*', '!'].isPrefixOf s) then
    (toEnd lexis.nestedComments 0 (s.drop 2)).map (s.take 2 ++ ·)
  else if ['-', '-'].isPrefixOf s && (!lexis.dashesSpace || (s.drop 2).head?.all isSpace) ||
      lexis.hashComments && ['#'].isPrefixOf s then
    some (s.takeWhile (· ≠ '\n'))
  else none

/-- A quoted name or a comment at the start. -/
def skippedAt (lexis : Lexis) (s : Sql) : Option Sql :=
  (delimitedAt lexis.names false s).or (commentAt lexis s)

/-! ### Reading -/

/-- A marker or a parameter at the start. -/
def markupAt (s : Sql) : Option Piece :=
  ((markerKeys.findSome? fun key => between (marker key).1 (marker key).2 s).map .marker).or
    ((between ['#', '\x7b'] ['\x7d'] s).map .parameter)

/-- What is read: a piece, or a text without literals. -/
inductive Token
  | piece (p : Piece)
  | skipped (s : Sql)

def Token.text : Token → Sql
  | .piece p => p.text
  | .skipped s => s

def tokenAt (lexis : Lexis) (s : Sql) : Option Token :=
  ((((literalAt lexis s).map .literal).or (markupAt s)).map .piece).or
    ((skippedAt lexis s).map .skipped)

/-- Markers and parameters are found in names and comments too. -/
def Token.pieces : Token → List Piece
  | .piece p => [p]
  | .skipped s => scan markupAt Piece.text .char 0 s

/-- What is nothing else is characters. -/
def pieces (lexis : Lexis) (s : Sql) : List Piece :=
  (scan (tokenAt lexis) Token.text (fun c => .piece (.char c)) 0 s).flatMap Token.pieces

/-! ### What is read is the query -/

/-- A text begins and ends with no space. -/
structure Tight (s : Sql) : Prop where
  ne_nil : s ≠ []
  head : ∀ c ∈ s.head?, isSpace c = false
  last : ∀ c ∈ s.getLast?, isSpace c = false

theorem toLower_of_isSpace {c : Char} (h : isSpace c = true) : c.toLower = c := by
  have hall : ∀ c ∈ [' ', '\t', '\n', '\x0b', '\x0c', '\r'], Char.toLower c = c := by decide
  exact hall c (by simpa [isSpace] using h)

theorem isSpace_of_toLower {c d : Char} (h : c.toLower = d) (hd : isSpace d = false) :
    isSpace c = false := by
  by_contra hc
  have hc' : isSpace c = true := by simpa using hc
  rw [toLower_of_isSpace hc'] at h
  rw [h, hd] at hc'
  cases hc'

/-- A text that is a tight one, but for the case, is tight. -/
theorem tight_of_map_toLower {s t : Sql} (h : s.map Char.toLower = t) (ht : Tight t) : Tight s := by
  refine ⟨?_, fun c hc => ?_, fun c hc => ?_⟩
  · rintro rfl
    exact ht.ne_nil h.symm
  · have hhead := congrArg List.head? h
    rw [List.head?_map, hc] at hhead
    exact isSpace_of_toLower rfl (ht.head _ hhead.symm)
  · have hlast := congrArg List.getLast? h
    rw [List.getLast?_map, hc] at hlast
    exact isSpace_of_toLower rfl (ht.last _ hlast.symm)

theorem map_take_of_startsWith {part s : Sql} (h : startsWith part s = true) :
    (s.take part.length).map Char.toLower = part.map Char.toLower := by
  have hpre := List.prefix_iff_eq_take.mp (startsWith_iff.mp h)
  rw [List.map_take, hpre, List.length_map]

theorem upTo_eq {close s t : Sql} (h : upTo close s = some t) :
    t <+: s ∧ ∃ a b, t = a ++ b ∧ b.map Char.toLower = close.map Char.toLower := by
  induction s generalizing t with
  | nil => cases h
  | cons c s ih =>
    unfold upTo at h
    split at h
    · rename_i hs
      cases h
      exact ⟨List.take_prefix _ _, [], _, rfl, map_take_of_startsWith hs⟩
    · obtain ⟨t', ht', rfl⟩ := Option.map_eq_some_iff.mp h
      obtain ⟨hpre, a, b, rfl, hb⟩ := ih ht'
      exact ⟨List.cons_prefix_cons.mpr ⟨rfl, hpre⟩, c :: a, b, rfl, hb⟩

theorem between_eq {opening close s t : Sql} (h : between opening close s = some t) :
    t <+: s ∧ ∃ o a b, t = o ++ (a ++ b) ∧ o.map Char.toLower = opening.map Char.toLower ∧
      b.map Char.toLower = close.map Char.toLower := by
  unfold between at h
  split at h
  · rename_i hs
    obtain ⟨t', ht', rfl⟩ := Option.map_eq_some_iff.mp h
    obtain ⟨hpre, a, b, rfl, hb⟩ := upTo_eq ht'
    refine ⟨?_, _, a, b, rfl, map_take_of_startsWith hs, hb⟩
    conv_rhs => rw [← List.take_append_drop opening.length s]
    exact (List.prefix_append_right_inj _).mpr hpre
  · cases h

theorem tight_between {opening close s t : Sql} (ho : Tight (opening.map Char.toLower))
    (hc : Tight (close.map Char.toLower)) (h : between opening close s = some t) : Tight t := by
  obtain ⟨-, o, a, b, rfl, ho', hb⟩ := between_eq h
  have hopening := tight_of_map_toLower ho' ho
  have hclose := tight_of_map_toLower hb hc
  refine ⟨by simp [hopening.ne_nil], fun c hc => ?_, fun c hc => ?_⟩
  · rw [List.head?_append_of_ne_nil _ hopening.ne_nil] at hc
    exact hopening.head c hc
  · rw [← List.append_assoc, List.getLast?_append_of_ne_nil _ hclose.ne_nil] at hc
    exact hclose.last c hc

/-- What is read at a place stands there, and has tight ends. -/
def Sound (s t : Sql) : Prop := t <+: s ∧ Tight t

theorem sound_cons {c d : Char} {s t : Sql} (hc : isSpace c = false) (hd : isSpace d = false)
    (h : t <+: s ∧ ∃ a, t = a ++ [d]) : Sound (c :: s) (c :: t) := by
  obtain ⟨hpre, a, rfl⟩ := h
  refine ⟨List.cons_prefix_cons.mpr ⟨rfl, hpre⟩, by simp, fun e he => ?_, fun e he => ?_⟩
  · obtain rfl : c = e := by simpa using he
    exact hc
  · rw [← List.cons_append, List.getLast?_concat] at he
    obtain rfl : d = e := by simpa using he
    exact hd

theorem toQuote_eq {quote : Char} {escapes skip : Bool} {s t : Sql}
    (h : toQuote quote escapes skip s = some t) : t <+: s ∧ ∃ a, t = a ++ [quote] := by
  have hcons : ∀ {skip : Bool} {c : Char} {s t : Sql},
      (∀ {t}, toQuote quote escapes skip s = some t → t <+: s ∧ ∃ a, t = a ++ [quote]) →
      (toQuote quote escapes skip s).map (c :: ·) = some t → t <+: c :: s ∧ ∃ a, t = a ++ [quote] := by
    intro skip c s t ih h
    obtain ⟨t', ht', rfl⟩ := Option.map_eq_some_iff.mp h
    obtain ⟨hpre, a, rfl⟩ := ih ht'
    exact ⟨List.cons_prefix_cons.mpr ⟨rfl, hpre⟩, c :: a, rfl⟩
  induction s generalizing skip t with
  | nil => cases skip <;> cases h
  | cons c s ih =>
    cases skip with
    | true => exact hcons ih h
    | false =>
      unfold toQuote at h
      split at h
      · rename_i hc
        subst hc
        split at h
        · exact hcons ih h
        · cases h
          exact ⟨List.cons_prefix_cons.mpr ⟨rfl, List.nil_prefix⟩, [], rfl⟩
      · exact hcons ih h

theorem toBracket_eq {bracket : Char} {s t : Sql} (h : toBracket bracket s = some t) :
    t <+: s ∧ ∃ a, t = a ++ ['\''] := by
  fun_induction toBracket bracket s generalizing t with
  | case1 c d s hc =>
    cases h
    obtain ⟨-, rfl⟩ : c = bracket ∧ d = '\'' := by simpa using hc
    exact ⟨⟨s, rfl⟩, [c], rfl⟩
  | case2 c d s hc ih =>
    obtain ⟨t', ht', rfl⟩ := Option.map_eq_some_iff.mp h
    obtain ⟨hpre, a, rfl⟩ := ih ht'
    exact ⟨List.cons_prefix_cons.mpr ⟨rfl, hpre⟩, c :: a, rfl⟩
  | case3 => cases h

theorem sound_delimitedAt {delimiters : List (Char × Char)} {escapes : Bool} {s t : Sql}
    (hd : ∀ d ∈ delimiters, isSpace d.1 = false ∧ isSpace d.2 = false)
    (h : delimitedAt delimiters escapes s = some t) : Sound s t := by
  cases s with
  | nil => cases h
  | cons c s =>
    obtain ⟨d, hfind, ht⟩ := Option.bind_eq_some_iff.mp h
    obtain ⟨t', ht', rfl⟩ := Option.map_eq_some_iff.mp ht
    obtain rfl : d.1 = c := by simpa using List.find?_some hfind
    obtain ⟨ho, hc⟩ := hd d (List.mem_of_find?_eq_some hfind)
    exact sound_cons ho hc (toQuote_eq ht')

theorem sound_bracketedAt {s t : Sql} (h : bracketedAt s = some t) : Sound s t := by
  unfold bracketedAt at h
  split at h
  · rename_i q quote bracket s
    split at h
    · rename_i hq
      obtain ⟨t', ht', rfl⟩ := Option.map_eq_some_iff.mp h
      obtain ⟨hpre, a, rfl⟩ := toBracket_eq ht'
      have hspace : isSpace q = false := by
        have hcases : (q = 'q' ∨ q = 'Q') := by
          simp only [Bool.and_eq_true, Bool.or_eq_true, decide_eq_true_eq] at hq
          exact hq.1.1
        obtain rfl | rfl := hcases <;> decide
      exact sound_cons (d := '\'') hspace (by decide) ⟨(List.prefix_append_right_inj [quote, bracket]).mpr hpre,
        [quote, bracket] ++ a, by simp⟩
    · cases h
  · cases h

theorem sound_literalAt {lexis : Lexis} {s t : Sql} (h : literalAt lexis s = some t) : Sound s t := by
  obtain h | ⟨-, h⟩ := Option.or_eq_some_iff.mp h
  · refine sound_delimitedAt (fun d hd => ?_) h
    obtain ⟨quote, hquote, rfl⟩ := List.mem_map.mp hd
    exact ⟨lexis.isSpace_quote quote hquote, lexis.isSpace_quote quote hquote⟩
  · split at h
    · exact sound_bracketedAt h
    · cases h

/-- A marker or a parameter has tight ends, and stands where it was found. -/
theorem sound_markupAt {s : Sql} {p : Piece} (h : markupAt s = some p) : Sound s p.text := by
  have hends : ∀ {opening close t : Sql}, between opening close s = some t →
      Tight (opening.map Char.toLower) → Tight (close.map Char.toLower) → Sound s t :=
    fun hb ho hc => ⟨(between_eq hb).1, tight_between ho hc hb⟩
  have htight : ∀ t ∈ [['#', '\x7b'], ['\x7d']] ++
      markerKeys.flatMap fun key => [(marker key).1, (marker key).2],
      Tight (t.map Char.toLower) := fun t ht => by
    have hall : ∀ t ∈ [['#', '\x7b'], ['\x7d']] ++
        markerKeys.flatMap (fun key => [(marker key).1, (marker key).2]),
        t.map Char.toLower ≠ [] ∧ (∀ c ∈ (t.map Char.toLower).head?, isSpace c = false) ∧
          ∀ c ∈ (t.map Char.toLower).getLast?, isSpace c = false := by
      decide
    obtain ⟨hne, hhead, hlast⟩ := hall t ht
    exact ⟨hne, hhead, hlast⟩
  obtain h | ⟨-, h⟩ := Option.or_eq_some_iff.mp h
  · obtain ⟨t, ht, rfl⟩ := Option.map_eq_some_iff.mp h
    obtain ⟨key, hkey, ht⟩ := List.exists_of_findSome?_eq_some ht
    refine hends ht (htight _ ?_) (htight _ ?_)
    · exact List.mem_append_right _ (List.mem_flatMap.mpr ⟨key, hkey, by simp⟩)
    · exact List.mem_append_right _ (List.mem_flatMap.mpr ⟨key, hkey, by simp⟩)
  · obtain ⟨t, ht, rfl⟩ := Option.map_eq_some_iff.mp h
    exact hends ht (htight _ (by simp)) (htight _ (by simp))

theorem toEnd_isPrefix {nested : Bool} {depth : ℕ} {s t : Sql} (h : toEnd nested depth s = some t) :
    t <+: s := by
  fun_induction toEnd nested depth s generalizing t with
  | case1 =>
    cases h
    exact ⟨_, rfl⟩
  | case2 depth c d s hc hd ih =>
    obtain ⟨t', ht', rfl⟩ := Option.map_eq_some_iff.mp h
    exact (List.prefix_append_right_inj [c, d]).mpr (ih ht')
  | case3 depth c d s hc hn ih =>
    obtain ⟨t', ht', rfl⟩ := Option.map_eq_some_iff.mp h
    exact (List.prefix_append_right_inj [c, d]).mpr (ih ht')
  | case4 depth c d s hc hn ih =>
    obtain ⟨t', ht', rfl⟩ := Option.map_eq_some_iff.mp h
    exact List.cons_prefix_cons.mpr ⟨rfl, ih ht'⟩
  | case5 => cases h

theorem commentAt_isPrefix {lexis : Lexis} {s t : Sql} (h : commentAt lexis s = some t) :
    t <+: s ∧ t ≠ [] := by
  unfold commentAt at h
  split at h
  · rename_i hs
    obtain ⟨t', ht', rfl⟩ := Option.map_eq_some_iff.mp h
    have hopen : ['/', '*'] <+: s := List.isPrefixOf_iff_prefix.mp (Bool.and_eq_true_iff.mp hs).1
    have htake : s.take 2 = ['/', '*'] := (List.prefix_iff_eq_take.mp hopen).symm
    refine ⟨?_, by simp [htake]⟩
    conv_rhs => rw [← List.take_append_drop 2 s]
    exact (List.prefix_append_right_inj _).mpr (toEnd_isPrefix ht')
  · split at h
    · rename_i hs
      cases h
      refine ⟨List.takeWhile_prefix _, ?_⟩
      cases s with
      | nil => simp at hs
      | cons c s =>
        have hc : c ≠ '\n' := by
          rintro rfl
          simp at hs
        simp [hc]
    · cases h

theorem delimitedAt_isPrefix {delimiters : List (Char × Char)} {escapes : Bool} {s t : Sql}
    (h : delimitedAt delimiters escapes s = some t) : t <+: s ∧ t ≠ [] := by
  cases s with
  | nil => cases h
  | cons c s =>
    obtain ⟨d, -, ht⟩ := Option.bind_eq_some_iff.mp h
    obtain ⟨t', ht', rfl⟩ := Option.map_eq_some_iff.mp ht
    exact ⟨List.cons_prefix_cons.mpr ⟨rfl, (toQuote_eq ht').1⟩, by simp⟩

theorem skippedAt_isPrefix {lexis : Lexis} {s t : Sql} (h : skippedAt lexis s = some t) :
    t <+: s ∧ t ≠ [] := by
  obtain h | ⟨-, h⟩ := Option.or_eq_some_iff.mp h
  · exact delimitedAt_isPrefix h
  · exact commentAt_isPrefix h

theorem of_tokenAt {lexis : Lexis} {s : Sql} {x : Token} (h : tokenAt lexis s = some x) :
    (x.text <+: s ∧ x.text ≠ []) ∧ ∀ p, x = .piece p → Tight p.text := by
  obtain h | ⟨-, h⟩ := Option.or_eq_some_iff.mp h
  · obtain ⟨p, hp, rfl⟩ := Option.map_eq_some_iff.mp h
    have hs : Sound s p.text := by
      obtain hp | ⟨-, hp⟩ := Option.or_eq_some_iff.mp hp
      · obtain ⟨t, ht, rfl⟩ := Option.map_eq_some_iff.mp hp
        exact sound_literalAt ht
      · exact sound_markupAt hp
    exact ⟨⟨hs.1, hs.2.ne_nil⟩, fun p' hp' => Token.piece.inj hp' ▸ hs.2⟩
  · obtain ⟨t, ht, rfl⟩ := Option.map_eq_some_iff.mp h
    exact ⟨skippedAt_isPrefix ht, nofun⟩

theorem text_markup (s : Sql) : (scan markupAt Piece.text .char 0 s).flatMap Piece.text = s :=
  flatMap_scan (fun _ => rfl) (fun _ _ hp => ⟨(sound_markupAt hp).1, (sound_markupAt hp).2.ne_nil⟩) 0 s

theorem text_token (x : Token) : x.pieces.flatMap Piece.text = x.text := by
  cases x with
  | piece p => exact List.append_nil _
  | skipped s => exact text_markup s

/-- A query is its pieces. -/
theorem text_pieces (lexis : Lexis) (s : Sql) : (pieces lexis s).flatMap Piece.text = s := by
  rw [pieces, List.flatMap_assoc, List.flatMap_congr fun x _ => text_token x]
  exact flatMap_scan (fun _ => rfl) (fun _ _ hx => (of_tokenAt hx).1) 0 s

/-- Every piece but a character has tight ends. -/
theorem tight_of_mem_pieces {lexis : Lexis} {s : Sql} {p : Piece} (h : p ∈ pieces lexis s) :
    (∃ c, p = .char c) ∨ Tight p.text := by
  obtain ⟨x, hx, hp⟩ := List.mem_flatMap.mp h
  cases x with
  | piece p' =>
    obtain rfl := List.mem_singleton.mp hp
    obtain ⟨c, hc⟩ | ⟨s', hs'⟩ := of_mem_scan hx
    · exact .inl ⟨c, Token.piece.inj hc⟩
    · exact .inr ((of_tokenAt hs').2 p rfl)
  | skipped t => exact (of_mem_scan hp).imp_right fun ⟨_, hs'⟩ => (sound_markupAt hs').2

end PageSql
end CloudManager
