/-
# The pieces of a query

What of a query must not change: its string literals, its parameters `#{..}` and its
other text but for the whitespace (`Keeps`). Markers are taken out. Squeezed, a query
whose literals and parameters have single blanks only is a text with holes, one for each
marker (`fill_squeezed`).
-/
import CloudManager.Framework.PageReading
import CloudManager.Lib.Substitution

namespace CloudManager
namespace PageSql

open JavaText Substitution

/-! ### What is kept -/

/-- A text is that of pieces without the markers, and with other whitespace outside the
literals and parameters. -/
inductive Keeps : List Piece → Sql → Prop
  | nil : Keeps [] []
  | char {ps : List Piece} {s : Sql} {c : Char} (hc : isSpace c = false) (rest : Keeps ps s) :
      Keeps (.char c :: ps) (c :: s)
  | space {ps : List Piece} {s w : Sql} {c : Char} (hc : isSpace c = true) (hne : w ≠ [])
      (hw : ∀ d ∈ w, isSpace d = true) (rest : Keeps ps s) : Keeps (.char c :: ps) (w ++ s)
  /-- A run of spaces counts as one. -/
  | more {ps : List Piece} {s : Sql} {c d : Char} (hc : isSpace c = true) (hd : isSpace d = true)
      (rest : Keeps (.char d :: ps) s) : Keeps (.char c :: .char d :: ps) s
  | literal {ps : List Piece} {s : Sql} (t : Sql) (rest : Keeps ps s) :
      Keeps (.literal t :: ps) (t ++ s)
  | parameter {ps : List Piece} {s : Sql} (t : Sql) (rest : Keeps ps s) :
      Keeps (.parameter t :: ps) (t ++ s)
  | marker {ps : List Piece} {s : Sql} (t : Sql) (rest : Keeps ps s) : Keeps (.marker t :: ps) s

/-- What is kept has every literal and every parameter as it was. -/
theorem Keeps.of_mem {ps : List Piece} {s : Sql} (h : Keeps ps s) {t : Sql}
    (ht : .literal t ∈ ps ∨ .parameter t ∈ ps) : t <:+: s := by
  induction h with
  | nil => simp at ht
  | char _ _ ih => exact (ih (by simpa using ht)).trans (List.suffix_cons _ _).isInfix
  | space _ _ _ _ ih => exact (ih (by simpa using ht)).trans (List.suffix_append _ _).isInfix
  | more _ _ _ ih => exact ih (by simpa using ht)
  | literal t' _ ih =>
    by_cases he : t = t'
    · exact he ▸ (List.prefix_append _ _).isInfix
    · exact (ih (by simpa [he] using ht)).trans (List.suffix_append _ _).isInfix
  | parameter t' _ ih =>
    by_cases he : t = t'
    · exact he ▸ (List.prefix_append _ _).isInfix
    · exact (ih (by simpa [he] using ht)).trans (List.suffix_append _ _).isInfix
  | marker _ _ ih => exact ih (by simpa using ht)

/-! ### Squeezed -/

/-- The pieces with single blanks outside the literals and parameters, and markers that
are squeezed as holes. -/
def squeezed : Bool → List Piece → List (Fragment Sql)
  | _, [] => []
  | inSpace, .char c :: ps =>
    if isSpace c then (if inSpace then squeezed true ps else .char ' ' :: squeezed true ps)
    else .char c :: squeezed false ps
  | _, .literal s :: ps | _, .parameter s :: ps => s.map .char ++ squeezed false ps
  | _, .marker s :: ps => .hole (squeeze false s) :: squeezed false ps

/-- The text with the markers `done` taken out. -/
def without (done : List Sql) : List (Fragment Sql) → Sql := render id (fun _ => []) done

theorem fill_map_char (f : Sql → Sql) (s : Sql) : fill f (s.map .char) = s := by
  induction s with
  | nil => rfl
  | cons c s ih => exact congrArg (c :: ·) ih

theorem fill_append (f : Sql → Sql) (p q : List (Fragment Sql)) :
    fill f (p ++ q) = fill f p ++ fill f q := List.flatMap_append

theorem fill_cons (f : Sql → Sql) (p : Fragment Sql) (ps : List (Fragment Sql)) :
    fill f (p :: ps) = p.fill f ++ fill f ps := List.flatMap_cons

/-- Squeezing leaves the literals and parameters as they are. -/
def Squeezed (ps : List Piece) : Prop :=
  ∀ t, .literal t ∈ ps ∨ .parameter t ∈ ps → squeeze false t = t

/-- A literal or a parameter is as it is when squeezed. -/
def Piece.isSqueezed : Piece → Bool
  | .literal t | .parameter t => squeeze false t = t
  | .char _ | .marker _ => true

theorem squeezed_of_all {ps : List Piece} (h : ∀ p ∈ ps, p.isSqueezed = true) : Squeezed ps := by
  intro t ht
  obtain ht | ht := ht
  · exact of_decide_eq_true (h _ ht)
  · exact of_decide_eq_true (h _ ht)

theorem Squeezed.tail {p : Piece} {ps : List Piece} (h : Squeezed (p :: ps)) : Squeezed ps :=
  fun t ht => h t (ht.imp (List.mem_cons_of_mem p) (List.mem_cons_of_mem p))

/-- Before a tight text nothing is squeezed, and after it no run of spaces goes on. -/
theorem squeeze_tight (inSpace : Bool) {t : Sql} (h : Tight t) (s : Sql) :
    squeeze inSpace (t ++ s) = squeeze false t ++ squeeze false s := by
  have hafter : spaceAfter inSpace t = false := by
    unfold spaceAfter
    cases hl : t.getLast? with
    | none => exact (h.ne_nil (List.getLast?_eq_none_iff.mp hl)).elim
    | some c => exact h.last c hl
  rw [squeeze_append, hafter, squeeze_eq_false inSpace h.head]

/-- The squeezed query is a text with its markers as holes. -/
theorem fill_squeezed {ps : List Piece} (htight : ∀ p ∈ ps, (∃ c, p = .char c) ∨ Tight p.text)
    (h : Squeezed ps) (inSpace : Bool) :
    fill id (squeezed inSpace ps) = squeeze inSpace (ps.flatMap Piece.text) := by
  induction ps generalizing inSpace with
  | nil => rfl
  | cons p ps ih =>
    obtain ⟨hp, hps⟩ := List.forall_mem_cons.mp htight
    have ih := ih hps h.tail
    have htext : (p :: ps).flatMap Piece.text = p.text ++ ps.flatMap Piece.text := rfl
    rw [htext]
    cases p with
    | char c =>
      show fill id (squeezed inSpace (.char c :: ps)) = squeeze inSpace (c :: _)
      rw [squeeze_cons, squeezed]
      by_cases hc : isSpace c = true
      · rw [if_pos hc, if_pos hc]
        cases inSpace
        · exact congrArg (' ' :: ·) (ih true)
        · exact ih true
      · rw [if_neg hc, if_neg hc]
        exact congrArg (c :: ·) (ih false)
    | literal t =>
      have ht : Tight t := hp.resolve_left (by simp)
      have hsame : squeeze false t = t := h t (.inl List.mem_cons_self)
      show fill id (t.map .char ++ squeezed false ps) = squeeze inSpace (t ++ _)
      rw [squeeze_tight inSpace ht, hsame, fill_append, fill_map_char, ih]
    | parameter t =>
      have ht : Tight t := hp.resolve_left (by simp)
      have hsame : squeeze false t = t := h t (.inr List.mem_cons_self)
      show fill id (t.map .char ++ squeezed false ps) = squeeze inSpace (t ++ _)
      rw [squeeze_tight inSpace ht, hsame, fill_append, fill_map_char, ih]
    | marker t =>
      have ht : Tight t := hp.resolve_left (by simp)
      show fill id (.hole (squeeze false t) :: squeezed false ps) = squeeze inSpace (t ++ _)
      rw [squeeze_tight inSpace ht, fill_cons, ih]
      rfl

/-- The query without its markers. -/
def bare (inSpace : Bool) (ps : List Piece) : Sql := fill (fun _ => []) (squeezed inSpace ps)

theorem bare_char {c : Char} (hc : isSpace c = false) (inSpace : Bool) (ps : List Piece) :
    bare inSpace (.char c :: ps) = c :: bare false ps := by
  unfold bare
  rw [squeezed, if_neg (by simp [hc])]
  rfl

theorem bare_space {c : Char} (hc : isSpace c = true) (inSpace : Bool) (ps : List Piece) :
    bare inSpace (.char c :: ps) = (if inSpace then [] else [' ']) ++ bare true ps := by
  unfold bare
  rw [squeezed, if_pos hc]
  cases inSpace <;> rfl

theorem bare_literal (inSpace : Bool) (t : Sql) (ps : List Piece) :
    bare inSpace (.literal t :: ps) = t ++ bare false ps := by
  unfold bare
  rw [squeezed, fill_append, fill_map_char]

theorem bare_parameter (inSpace : Bool) (t : Sql) (ps : List Piece) :
    bare inSpace (.parameter t :: ps) = t ++ bare false ps := by
  unfold bare
  rw [squeezed, fill_append, fill_map_char]

/-- The bare query is what is kept. -/
theorem keeps_bare (ps : List Piece) : Keeps ps (bare false ps) ∧
    ∀ c, isSpace c = true → Keeps (.char c :: ps) (' ' :: bare true ps) := by
  have hspace : ∀ {ps : List Piece} {s : Sql}, Keeps ps s → ∀ c, isSpace c = true →
      Keeps (.char c :: ps) (' ' :: s) := fun h c hc =>
    .space hc (by simp) (by decide : ∀ d ∈ [' '], isSpace d = true) h
  induction ps with
  | nil => exact ⟨.nil, hspace .nil⟩
  | cons p ps ih =>
    obtain ⟨ih, ihs⟩ := ih
    cases p with
    | char d =>
      by_cases hd : isSpace d = true
      · rw [bare_space hd, bare_space hd]
        exact ⟨ihs d hd, fun c hc => .more hc hd (ihs d hd)⟩
      · have hd : isSpace d = false := by simpa using hd
        rw [bare_char hd, bare_char hd]
        exact ⟨.char hd ih, hspace (.char hd ih)⟩
    | literal t =>
      rw [bare_literal, bare_literal]
      exact ⟨.literal t ih, hspace (.literal t ih)⟩
    | parameter t =>
      rw [bare_parameter, bare_parameter]
      exact ⟨.parameter t ih, hspace (.parameter t ih)⟩
    | marker t => exact ⟨.marker t ih, hspace (.marker t ih)⟩

/-- After a space the squeezed query is the same, or begins without its space. -/
theorem squeezed_cases (inSpace : Bool) (ps : List Piece) :
    squeezed inSpace ps = squeezed false ps ∨
      inSpace = true ∧ squeezed false ps = .char ' ' :: squeezed inSpace ps := by
  cases inSpace with
  | false => exact .inl rfl
  | true =>
    cases ps with
    | nil => exact .inl rfl
    | cons p ps =>
      cases p with
      | char c =>
        by_cases hc : isSpace c = true
        · rw [squeezed, squeezed, if_pos hc, if_pos hc]
          exact .inr ⟨rfl, rfl⟩
        · rw [squeezed, squeezed, if_neg hc, if_neg hc]
          exact .inl rfl
      | literal t => exact .inl rfl
      | parameter t => exact .inl rfl
      | marker t => exact .inl rfl

/-- A text without spaces that the bare query begins with. -/
theorem Keeps.begins {ps : List Piece} {s t : Sql} (h : Keeps ps s)
    (ht : ∀ c ∈ t, isSpace c = false) (hpre : t <+: bare false ps) : t <+: s := by
  have hblank : ∀ {ps : List Piece} {s t : Sql} {c : Char}, isSpace c = true →
      (∀ c ∈ t, isSpace c = false) → t <+: bare false (.char c :: ps) → t <+: s := by
    intro ps s t c hc ht hpre
    rw [bare_space hc] at hpre
    obtain rfl | ⟨t', rfl, -⟩ := List.prefix_cons_iff.mp hpre
    · exact List.nil_prefix
    · exact absurd (ht ' ' List.mem_cons_self) (by decide)
  have hsame : ∀ {l s z t : Sql}, (∀ {t : Sql}, (∀ c ∈ t, isSpace c = false) → t <+: z → t <+: s) →
      (∀ c ∈ t, isSpace c = false) → t <+: l ++ z → t <+: l ++ s := by
    intro l s z t ih ht hpre
    obtain hle | ⟨t', rfl⟩ := List.prefix_or_prefix_of_prefix hpre (List.prefix_append l z)
    · exact hle.trans (List.prefix_append l s)
    · rw [List.prefix_append_right_inj] at hpre ⊢
      exact ih (fun c hc => ht c (List.mem_append_right l hc)) hpre
  induction h generalizing t with
  | nil => exact hpre
  | char hc rest ih =>
    rw [bare_char hc] at hpre
    obtain rfl | ⟨t', rfl, hrest⟩ := List.prefix_cons_iff.mp hpre
    · exact List.nil_prefix
    · exact List.cons_prefix_cons.mpr ⟨rfl, ih (List.forall_mem_cons.mp ht).2 hrest⟩
  | space hc => exact hblank hc ht hpre
  | more hc => exact hblank hc ht hpre
  | literal l rest ih =>
    rw [bare_literal] at hpre
    exact hsame ih ht hpre
  | parameter l rest ih =>
    rw [bare_parameter] at hpre
    exact hsame ih ht hpre
  | marker m rest ih => exact ih ht hpre

/-- A text without spaces that the bare query has is kept. -/
theorem Keeps.of_bare {ps : List Piece} {s t : Sql} (h : Keeps ps s)
    (ht : ∀ c ∈ t, isSpace c = false) (inSpace : Bool) (hi : t <:+: bare inSpace ps) : t <:+: s := by
  have hblank : ∀ {ps : List Piece} {c : Char}, isSpace c = true → ∀ b,
      t <:+: bare b (.char c :: ps) → t <:+: bare true ps := by
    intro ps c hc b hi
    rw [bare_space hc] at hi
    cases b with
    | true => exact hi
    | false =>
      obtain hpre | hi := List.infix_cons_iff.mp hi
      · obtain rfl | ⟨t', rfl, -⟩ := List.prefix_cons_iff.mp hpre
        · exact List.nil_infix
        · exact absurd (ht ' ' List.mem_cons_self) (by decide)
      · exact hi
  have hsame : ∀ {ps : List Piece} {l s : Sql}, Keeps ps s → (t <:+: bare false ps → t <:+: s) →
      t <:+: l ++ bare false ps → t <:+: l ++ s := by
    intro ps l s hk ih hi
    obtain hi | hi | ⟨x, y, rfl, hx, hy⟩ := List.infix_append_iff.mp hi
    · exact hi.trans (List.prefix_append l s).isInfix
    · exact (ih hi).trans (List.suffix_append l s).isInfix
    · have hy' : y <+: s := hk.begins (fun c hc => ht c (List.mem_append_right x hc)) hy
      exact List.infix_append_iff.mpr (.inr (.inr ⟨x, y, rfl, hx, hy'⟩))
  induction h generalizing inSpace with
  | nil => exact hi
  | @char ps s c hc rest ih =>
    rw [bare_char hc] at hi
    exact hsame (l := [c]) rest (ih false) hi
  | space hc hne hw rest ih =>
    exact (ih true (hblank hc inSpace hi)).trans (List.suffix_append _ _).isInfix
  | more hc hd rest ih => exact ih true (hblank hc inSpace hi)
  | literal l rest ih =>
    rw [bare_literal] at hi
    exact hsame rest (ih false) hi
  | parameter l rest ih =>
    rw [bare_parameter] at hi
    exact hsame rest (ih false) hi
  | marker m rest ih => exact ih false hi

theorem squeezed_suffix (b : Bool) (ps : List Piece) : squeezed b ps <:+ squeezed false ps := by
  obtain hsame | ⟨-, hspace⟩ := squeezed_cases b ps
  · rw [hsame]
  · rw [hspace]
    exact List.suffix_cons _ _

end PageSql
end CloudManager
