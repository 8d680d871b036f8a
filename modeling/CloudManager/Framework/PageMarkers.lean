/-
# The markers and placeholders of a paged query

`AbstractSqlSource.replace` replaces placeholders and markers one after the other in the
whole text, the template and the query in it. Of a query whose literals and parameters
have single blanks only, that has no placeholder, and the opening of a marker only at its
markers, which are alike (`Clean`), the placeholders found are those of the template
(`not_placeholder`), and the markers found those of the query (`not_opens`); the loop
fills the ones in and takes the others out (`foldl_replaceKey`).
-/
import Mathlib.Data.List.Chain
import CloudManager.Framework.PagePieces

namespace CloudManager
namespace PageSql

open JavaText Scan Substitution

/-! ### Placeholders and openings -/

def START_ROW : Sql := "\x7bstartRow\x7d".toList
def END_ROW : Sql := "\x7bendRow\x7d".toList
def PAGE_SIZE : Sql := "\x7bpageSize\x7d".toList
def PK_COLUMN : Sql := "\x7bPKColumn\x7d".toList

def placeholders : List Sql := [START_ROW, END_ROW, PAGE_SIZE, PK_COLUMN] ++ markerKeys

/-- The opening of the placeholder's marker is in the text, in some case. -/
def Opens (key s : Sql) : Prop := (marker key).1.map Char.toLower <:+: s.map Char.toLower

instance (key s : Sql) : Decidable (Opens key s) :=
  inferInstanceAs (Decidable ((marker key).1.map Char.toLower <:+: s.map Char.toLower))

theorem placeholder_cases : ∀ k ∈ placeholders,
    ∃ body, k = '\x7b' :: (body ++ ['\x7d']) ∧ '\x7b' ∉ body ++ ['\x7d'] ∧ '\x7d' ∉ body ∧
      ' ' ∉ body ∧ ')' ∉ body ∧ ',' ∉ body ∧ '#' ∉ k.map Char.toLower := by
  have hall : ∀ k ∈ placeholders, k = '\x7b' :: (k.tail.dropLast ++ ['\x7d']) ∧
      '\x7b' ∉ k.tail.dropLast ++ ['\x7d'] ∧ '\x7d' ∉ k.tail.dropLast ∧
      ' ' ∉ k.tail.dropLast ∧ ')' ∉ k.tail.dropLast ∧ ',' ∉ k.tail.dropLast ∧
      '#' ∉ k.map Char.toLower := by
    decide
  exact fun k hk => ⟨_, hall k hk⟩

theorem opening_cases : ∀ key ∈ markerKeys,
    ∃ body, (marker key).1.map Char.toLower = '#' :: body ∧ '#' ∉ body ∧ ' ' ∉ body ∧
      ')' ∉ body ∧ ',' ∉ body ∧ 's' ∉ body ∧ '\x7d' ∉ body := by
  have hall : ∀ key ∈ markerKeys, (marker key).1.map Char.toLower =
      '#' :: ((marker key).1.map Char.toLower).tail ∧
      '#' ∉ ((marker key).1.map Char.toLower).tail ∧ ' ' ∉ ((marker key).1.map Char.toLower).tail ∧
      ')' ∉ ((marker key).1.map Char.toLower).tail ∧
      ',' ∉ ((marker key).1.map Char.toLower).tail ∧
      's' ∉ ((marker key).1.map Char.toLower).tail ∧
      '\x7d' ∉ ((marker key).1.map Char.toLower).tail := by
    decide
  exact fun key hkey => ⟨_, hall key hkey⟩

/-! ### Templates -/

/-- A template as a text with its placeholders as holes. -/
def templateParts : Sql → List (Fragment Sql) :=
  scan (fun s => (placeholders.find? (·.isPrefixOf s)).map .hole) (Fragment.fill id) .char 0

/-- What may follow in a template: no placeholder is followed by a character of one, but
that `SELECT` may follow the header. -/
def follows : Fragment Sql → Fragment Sql → Bool
  | .hole k, .char c => c ∈ [' ', ')', ','] || (k = HEADER && c = 'S')
  | .hole _, .hole _ => false
  | .char c, .char d => c ≠ 'S' || d ≠ 'i'
  | .char c, .hole _ => c ≠ 'S'

def plainPart : Fragment Sql → Bool
  | .char c => c ≠ '\x7b' && c.toLower ≠ '#'
  | .hole k => k ∈ placeholders

/-- One side of a template. -/
structure Side (ps : List (Fragment Sql)) : Prop where
  parts : ∀ p ∈ ps, plainPart p = true
  chain : ps.IsChain (follows · ·)

instance (ps : List (Fragment Sql)) : Decidable (Side ps) :=
  decidable_of_iff ((∀ p ∈ ps, plainPart p = true) ∧ ps.IsChain (follows · ·))
    ⟨fun h => ⟨h.1, h.2⟩, fun h => ⟨h.parts, h.chain⟩⟩

/-- It ends with a blank or a bracket, or is empty. -/
def ClosedOff (ps : List (Fragment Sql)) : Prop := ∀ p ∈ ps.getLast?, p = .char '(' ∨ p = .char ' '

/-- It begins with a blank or a bracket, or with the placeholder of the order. -/
def OpenedBy (ps : List (Fragment Sql)) : Prop :=
  ∀ p ∈ ps.head?, p = .char ')' ∨ p = .char ' ' ∨ p = .hole ORDER_BY

instance (ps : List (Fragment Sql)) : Decidable (ClosedOff ps) :=
  inferInstanceAs (Decidable (∀ p ∈ ps.getLast?, p = .char '(' ∨ p = .char ' '))

instance (ps : List (Fragment Sql)) : Decidable (OpenedBy ps) :=
  inferInstanceAs (Decidable (∀ p ∈ ps.head?, p = .char ')' ∨ p = .char ' ' ∨ p = .hole ORDER_BY))

theorem Side.of_infix {ps qs : List (Fragment Sql)} (h : Side ps) (hq : qs <:+: ps) : Side qs :=
  ⟨fun p hp => h.parts p (hq.subset hp), h.chain.infix hq⟩

theorem ClosedOff.of_suffix {ps qs : List (Fragment Sql)} (h : ClosedOff ps) (hq : qs <:+ ps) :
    ClosedOff qs := by
  intro p hp
  obtain ⟨front, rfl⟩ := hq
  refine h p ?_
  rw [List.getLast?_append, Option.mem_def.mp hp]
  rfl

/-- A text with no placeholder and no opening. -/
structure Quiet (s : Sql) : Prop where
  placeholder : ∀ k ∈ placeholders, ¬ k <:+: s
  opening : ∀ key ∈ markerKeys, ¬ Opens key s

/-- What the placeholders are replaced by is quiet, and markers are taken out. -/
structure Inert (value : Sql → Sql) : Prop where
  quiet : ∀ k ∈ placeholders, Quiet (value k)
  marker : ∀ t, t ∉ placeholders → value t = []

variable {value : Sql → Sql} {done : List Sql} {k : Sql} {ps : List (Fragment Sql)} {z : Sql}

/-- An occurrence in a list of texts and what follows them, if it begins in none. -/
theorem infix_of_flatMap {α : Type} {g : α → Sql} {ps : List α} {t z : Sql}
    (h : t <:+: ps.flatMap g ++ z) (hp : ∀ p rest, p :: rest <:+ ps →
      t <:+: g p ++ (rest.flatMap g ++ z) → t <:+: rest.flatMap g ++ z) : t <:+: z := by
  induction ps with
  | nil => exact h
  | cons p ps ih =>
    rw [List.flatMap_cons, List.append_assoc] at h
    exact ih (hp p ps List.suffix_rfl h) fun p' rest hrest =>
      hp p' rest (hrest.trans (List.suffix_cons p ps))

/-- A placeholder is not in another one, nor does it begin there. -/
theorem infix_of_placeholder {k k' : Sql} (hk : k ∈ placeholders) (hk' : k' ∈ placeholders)
    (hne : k' ≠ k) (h : k <:+: k' ++ z) : k <:+: z := by
  have hstarts : ∀ k ∈ placeholders, ∀ k' ∈ placeholders, k <+: k' → k = k' := by decide
  obtain ⟨body, rfl, hbody, -⟩ := placeholder_cases k hk
  obtain ⟨body', rfl, hbody', -⟩ := placeholder_cases k' hk'
  refine infix_of_append h fun c a ha hpre => ?_
  obtain hsame | hsuffix := List.suffix_cons_iff.mp ha
  · rw [hsame] at hpre
    obtain hle | hle := List.prefix_or_prefix_of_prefix hpre (List.prefix_append _ z)
    · exact hne (hstarts _ hk _ hk' hle).symm
    · exact hne (hstarts _ hk' _ hk hle)
  · obtain ⟨rest, hrest⟩ := hpre
    obtain ⟨rfl, -⟩ := List.cons.inj hrest
    exact hbody' (hsuffix.subset List.mem_cons_self)

/-- Nothing straddles `c` and another character that is not after it in the text. -/
theorem noStraddle_of_pair {t : Sql} {c : Char} {b : Sql} (hlast : t.getLast? ≠ some c)
    (hpair : ∀ d ∈ b.head?, ¬ [c, d] <:+: t) (a : Sql) : NoStraddle t a (c :: b) := by
  rintro x y rfl - hy - hpre
  cases y with
  | nil => exact hy rfl
  | cons d y =>
    obtain ⟨rest, hrest⟩ := hpre
    obtain ⟨rfl, htail⟩ := List.cons.inj hrest
    cases y with
    | nil => exact hlast (by rw [List.getLast?_append_of_ne_nil x hy]; rfl)
    | cons e y =>
      refine hpair e (by rw [← htail]; rfl) ?_
      exact (List.prefix_append [d, e] y).isInfix.trans (List.suffix_append x _).isInfix

/-- What follows a placeholder in a template is not in another one. -/
theorem noStraddle_follow (hps : Side (.hole k :: ps)) (hz : z = [] ∨ ClosedOff (.hole k :: ps))
    {k' : Sql} (hk' : k' ∈ placeholders) (a : Sql) :
    NoStraddle k' a (render id value done ps ++ z) := by
  obtain ⟨body, rfl, hbody, hclose, hspace, hparen, hcomma, -⟩ := placeholder_cases k' hk'
  cases ps with
  | nil =>
    obtain rfl | hz := hz
    · exact noStraddle_nil _ _
    · exact (hz (.hole k) rfl).elim (by simp) (by simp)
  | cons p ps =>
    obtain ⟨hfollow, hchain⟩ := List.isChain_cons_cons.mp hps.chain
    cases p with
    | hole k'' => simp [follows] at hfollow
    | char c =>
      simp only [follows, List.mem_cons, List.not_mem_nil, or_false, Bool.or_eq_true,
        decide_eq_true_eq, Bool.and_eq_true] at hfollow
      show NoStraddle _ a (c :: (render id value done ps ++ z))
      obtain hfollow | ⟨-, rfl⟩ := hfollow
      · apply noStraddle_of_head
        rw [List.tail_cons, List.mem_append, List.mem_singleton, not_or]
        rcases hfollow with rfl | rfl | rfl
        · exact ⟨hspace, by decide⟩
        · exact ⟨hparen, by decide⟩
        · exact ⟨hcomma, by decide⟩
      · -- `SELECT`, after the header
        apply noStraddle_of_pair
        · rw [← List.cons_append, List.getLast?_concat]
          decide
        · intro d hd hpair
          have hi : ∀ k ∈ placeholders, ∀ d ∈ k, ['S', d] <:+: k → d = 'i' := by decide
          obtain rfl := hi _ hk' d (hpair.subset (by simp)) hpair
          cases ps with
          | nil =>
            obtain rfl | hz := hz
            · cases hd
            · exact (hz (.char 'S') rfl).elim (by simp) (by simp)
          | cons p ps =>
            have hnext := (List.isChain_cons_cons.mp hchain).1
            cases p with
            | hole k'' => simp [follows] at hnext
            | char e =>
              obtain rfl : e = 'i' := Option.some.inj hd
              simp [follows] at hnext

/-- On a side of the template no placeholder is left but those to come. -/
theorem infix_of_side (hv : Inert value) (hps : Side ps) (hz : z = [] ∨ ClosedOff ps)
    (hk : k ∈ placeholders) (hraw : .hole k ∈ ps → k ∈ done)
    (h : k <:+: render id value done ps ++ z) : k <:+: z := by
  refine infix_of_flatMap h fun p rest hrest hp => ?_
  have hside : Side (p :: rest) := hps.of_infix hrest.isInfix
  have hend : z = [] ∨ ClosedOff (p :: rest) := hz.imp_right (·.of_suffix hrest)
  have hpart := hside.parts p List.mem_cons_self
  cases p with
  | char c =>
    have hc : c ≠ '\x7b' := by
      simp only [plainPart, Bool.and_eq_true, decide_eq_true_eq] at hpart
      exact hpart.1
    obtain ⟨body, rfl, -⟩ := placeholder_cases k hk
    exact infix_of_not_mem hp (by simpa [Fragment.fill] using hc.symm)
  | hole k' =>
    have hk' : k' ∈ placeholders := by simpa [plainPart] using hpart
    by_cases hd : k' ∈ done
    · change k <:+: current id value done k' ++ _ at hp
      rw [current_of_mem hd] at hp
      exact ((noStraddle_follow hside hend hk (value k')).left_or_right hp).resolve_left
        ((hv.quiet k' hk').placeholder k hk)
    · change k <:+: current id value done k' ++ _ at hp
      rw [current_of_not_mem hd] at hp
      refine infix_of_placeholder hk hk' ?_ hp
      rintro rfl
      exact hd (hraw (hrest.subset List.mem_cons_self))

/-- What follows a placeholder in a template is not in the opening of a marker. -/
theorem noStraddle_opening (hps : Side (.hole k :: ps)) (hz : z = [] ∨ ClosedOff (.hole k :: ps))
    {key : Sql} (hkey : key ∈ markerKeys) (a : Sql) :
    NoStraddle ((marker key).1.map Char.toLower) a
      ((render id value done ps ++ z).map Char.toLower) := by
  obtain ⟨body, hbody, -, hspace, hparen, hcomma, hs, -⟩ := opening_cases key hkey
  rw [hbody]
  cases ps with
  | nil =>
    obtain rfl | hz := hz
    · exact noStraddle_nil _ _
    · exact (hz (.hole k) rfl).elim (by simp) (by simp)
  | cons p ps =>
    have hfollow := (List.isChain_cons_cons.mp hps.chain).1
    cases p with
    | hole k'' => simp [follows] at hfollow
    | char c =>
      simp only [follows, List.mem_cons, List.not_mem_nil, or_false, Bool.or_eq_true,
        decide_eq_true_eq, Bool.and_eq_true] at hfollow
      show NoStraddle _ a (c.toLower :: (render id value done ps ++ z).map Char.toLower)
      apply noStraddle_of_head
      rw [List.tail_cons]
      rcases hfollow with (rfl | rfl | rfl) | ⟨-, rfl⟩
      · exact hspace
      · exact hparen
      · exact hcomma
      · exact hs

/-- On a side of the template no marker begins. -/
theorem opens_of_side (hv : Inert value) (hps : Side ps) (hz : z = [] ∨ ClosedOff ps) {key : Sql}
    (hkey : key ∈ markerKeys) (h : Opens key (render id value done ps ++ z)) : Opens key z := by
  unfold Opens at h ⊢
  have hmap : ∀ ps, (render id value done ps ++ z).map Char.toLower = (ps.flatMap fun p =>
      (Fragment.fill (current id value done) p).map Char.toLower) ++ z.map Char.toLower := fun ps => by
    rw [List.map_append, render, fill, List.map_flatMap]
  rw [hmap] at h
  refine infix_of_flatMap h fun p rest hrest hp => ?_
  have hside : Side (p :: rest) := hps.of_infix hrest.isInfix
  have hend : z = [] ∨ ClosedOff (p :: rest) := hz.imp_right (·.of_suffix hrest)
  have hpart := hside.parts p List.mem_cons_self
  obtain ⟨body, hbody, -⟩ := opening_cases key hkey
  cases p with
  | char c =>
    have hc : c.toLower ≠ '#' := by
      simp only [plainPart, Bool.and_eq_true, decide_eq_true_eq] at hpart
      exact hpart.2
    rw [hbody] at hp ⊢
    exact infix_of_not_mem hp (by simpa [Fragment.fill] using hc.symm)
  | hole k' =>
    have hk' : k' ∈ placeholders := by simpa [plainPart] using hpart
    by_cases hd : k' ∈ done
    · change _ <:+: (current id value done k').map Char.toLower ++ _ at hp
      rw [current_of_mem hd] at hp
      have hno : NoStraddle ((marker key).1.map Char.toLower) ((value k').map Char.toLower)
          ((render id value done rest ++ z).map Char.toLower) :=
        noStraddle_opening hside hend hkey _
      rw [hmap] at hno
      exact (hno.left_or_right hp).resolve_left ((hv.quiet k' hk').opening key hkey)
    · change _ <:+: (current id value done k').map Char.toLower ++ _ at hp
      obtain ⟨_, -, -, -, -, -, -, hhash⟩ := placeholder_cases k' hk'
      rw [current_of_not_mem hd, hbody] at hp
      rw [hbody]
      exact infix_of_not_mem hp hhash

/-! ### Clean queries -/

/-- The squeezed query, its markers as holes. -/
def marked (ps : List Piece) : List (Fragment Sql) := squeezed false ps

/-- A marker of the placeholder. -/
def IsMarker (key t : Sql) : Prop := startsWith (marker key).1 t = true

instance (key t : Sql) : Decidable (IsMarker key t) := inferInstanceAs (Decidable (_ = true))

/-- Of the squeezed query: its literals and parameters are as they were; it has no
placeholder, and the opening of a marker only at its markers, whichever of them are taken
out; the markers of one placeholder are the same, and are found as they are; if one is an
`overby`, it is seen. And the column of the primary key has no placeholder or opening. -/
structure Clean (ps : List Piece) (e : Entity) : Prop where
  literals : Squeezed ps
  placeholder : ∀ k ∈ placeholders, ∀ done, ¬ k <:+: without done (marked ps)
  opening : ∀ key ∈ markerKeys, ∀ done stretch,
    stretch <:+: marked ps ++ [.char '\x7b'] →
    (∀ t, .hole t ∈ stretch → IsMarker key t → t ∈ done) → ¬ Opens key (without done stretch)
  same : ∀ key ∈ markerKeys, ∀ t t', .hole t ∈ marked ps →
    .hole t' ∈ marked ps → IsMarker key t → IsMarker key t' → t = t'
  found : ∀ t, .hole t ∈ marked ps → ∃ key ∈ markerKeys, ∃ content,
    JavaText.find (marker key).1 (marker key).2 t = some (t, content) ∧
      ∀ key' ∈ markerKeys, ¬ Opens key' t.tail ∧ ¬ Opens key' (dropOrderBy 0 content)
  overby : ∀ t, .hole t ∈ marked ps → IsMarker ORDER_BY_OVER t →
    "#overby".toList <:+: without [] (marked ps)
  pkColumn : Quiet (getPKColumn e)

/-- What the code makes of a text around the query: the template's sides. -/
structure Template (value : Sql → Sql) (before after : List (Fragment Sql)) : Prop where
  left : Side before
  right : Side after
  closedOff : ClosedOff before
  openedBy : OpenedBy after
  /-- Where the order comes first, a blank does. -/
  orderBy : .hole ORDER_BY ∈ after.head? → ∀ c ∈ (value ORDER_BY).head?, c = ' '

variable {ps : List Piece} {e : Entity} {before after qs : List (Fragment Sql)} {key : Sql}

theorem opens_of_isMarker {t : Sql} (h : IsMarker key t) : Opens key t :=
  (startsWith_iff.mp h).isInfix

theorem not_mem_placeholders (h : Clean ps e) {t : Sql}
    (ht : .hole t ∈ marked ps) : t ∉ placeholders := by
  intro hk
  obtain ⟨key, hkey, content, hfind, -⟩ := h.found t ht
  obtain ⟨body, hbody, -⟩ := opening_cases key hkey
  obtain ⟨_, -, -, -, -, -, -, hhash⟩ := placeholder_cases t hk
  have hopens := startsWith_of_find hfind
  rw [hbody] at hopens
  exact hhash (hopens.subset List.mem_cons_self)

/-- The placeholders' values do not matter in the query. -/
theorem render_query (hv : Inert value) (h : Clean ps e)
    (hqs : qs <:+: marked ps) :
    render id value done qs = without done qs := by
  refine List.flatMap_congr fun p hp => ?_
  cases p with
  | char c => rfl
  | hole t =>
    have ht := not_mem_placeholders h (hqs.subset hp)
    show current id value done t = current id (fun _ => []) done t
    unfold current
    rw [hv.marker t ht]

theorem infix_render (token value : Sql → Sql) (done : List Sql) {ps qs : List (Fragment Sql)}
    (h : qs <:+: ps) : render token value done qs <:+: render token value done ps := by
  obtain ⟨a, b, rfl⟩ := h
  rw [render_append, render_append]
  exact List.infix_append _ _ _

/-- Between the query and what follows it no placeholder arises. -/
theorem noStraddle_after (ht : Template value before after) {bs : List (Fragment Sql)}
    (hbs : bs <+: after) (hk : k ∈ placeholders) (a : Sql) :
    NoStraddle k a (render id value done bs) := by
  obtain ⟨body, rfl, hbody, hclose, hspace, hparen, hcomma, -⟩ := placeholder_cases k hk
  have hblank : ∀ b, NoStraddle ('\x7b' :: (body ++ ['\x7d'])) a (' ' :: b) := fun b =>
    noStraddle_of_head (by simpa using hspace) a b
  cases bs with
  | nil => exact noStraddle_nil _ _
  | cons p bs =>
    have hp : after.head? = some p := by
      obtain ⟨rest, rfl⟩ := hbs
      rfl
    rcases ht.openedBy p hp with rfl | rfl | rfl
    · exact noStraddle_of_head (by simpa using hparen) a _
    · exact hblank _
    · show NoStraddle _ a (current id value done ORDER_BY ++ render id value done bs)
      by_cases hd : ORDER_BY ∈ done
      · rw [current_of_mem hd]
        cases hv : value ORDER_BY with
        | nil =>
          have hside : Side (.hole ORDER_BY :: bs) := ht.right.of_infix hbs.isInfix
          have hno : NoStraddle _ a (render id value done bs ++ []) :=
            noStraddle_follow hside (.inl rfl) hk a
          rwa [List.append_nil] at hno
        | cons c v =>
          obtain rfl : c = ' ' := ht.orderBy hp c (by rw [hv]; rfl)
          exact hblank _
      · rw [current_of_not_mem hd]
        have hbrace : '\x7b' ∉ ('\x7b' :: (body ++ ['\x7d'])).tail := hbody
        have horder : id ORDER_BY = '\x7b' :: ORDER_BY.tail := rfl
        rw [horder]
        exact noStraddle_of_head hbrace a _

/-- **No placeholder** is anywhere but where it is to be replaced. -/
theorem not_placeholder (hv : Inert value) (h : Clean ps e) (ht : Template value before after)
    (hqs : qs <:+ marked ps) {stretch : List (Fragment Sql)}
    (hs : stretch <:+: before ++ (qs ++ after)) (hk : k ∈ placeholders)
    (hraw : .hole k ∈ stretch → k ∈ done) : ¬ k <:+: render id value done stretch := by
  have hne : k ≠ [] := by
    obtain ⟨body, rfl, -⟩ := placeholder_cases k hk
    simp
  have hquery : ∀ {l : List (Fragment Sql)}, l <:+: qs → ¬ k <:+: render id value done l :=
    fun hl hi => by
      have hl' := hl.trans hqs.isInfix
      rw [render_query hv h hl'] at hi
      exact h.placeholder k hk done (hi.trans (infix_render _ _ _ hl'))
  have hside : ∀ {l ps : List (Fragment Sql)}, Side ps → l <:+: ps → (.hole k ∈ l → k ∈ done) →
      ¬ k <:+: render id value done l := fun hps hl hl' hi => by
    rw [← List.append_nil (render id value done _)] at hi
    exact hne (List.infix_nil.mp (infix_of_side hv (hps.of_infix hl) (.inl rfl) hk hl' hi))
  have htail : ∀ {l : List (Fragment Sql)}, l <:+: qs ++ after → (.hole k ∈ l → k ∈ done) →
      ¬ k <:+: render id value done l := fun hl hl' hi => by
    obtain hl | hl | ⟨a, b, rfl, ha, hb⟩ := List.infix_append_iff.mp hl
    · exact hquery hl hi
    · exact hside ht.right hl hl' hi
    · rw [render_append] at hi
      obtain hi | hi := (noStraddle_after ht hb hk _).left_or_right hi
      · exact hquery ha.isInfix hi
      · exact hside ht.right hb.isInfix (fun hb' => hl' (List.mem_append_right a hb')) hi
  intro hi
  obtain hl | hl | ⟨a, b, rfl, ha, hb⟩ := List.infix_append_iff.mp hs
  · exact hside ht.left hl hraw hi
  · exact htail hl hraw hi
  · rw [render_append] at hi
    have hi := infix_of_side hv (ht.left.of_infix ha.isInfix) (.inr (ht.closedOff.of_suffix ha)) hk
      (fun ha' => hraw (List.mem_append_left b ha')) hi
    exact htail hb.isInfix (fun hb' => hraw (List.mem_append_right a hb')) hi

/-- Of an opening only the last character is a brace. -/
theorem eq_brace (hkey : key ∈ markerKeys) {x y b : Sql}
    (hxy : (marker key).1.map Char.toLower = x ++ y) (hy : y ≠ []) (hyb : y <+: '\x7b' :: b) :
    y = ['\x7b'] := by
  have hlast : ∀ key ∈ markerKeys, (marker key).1.map Char.toLower =
      ((marker key).1.map Char.toLower).dropLast ++ ['\x7b'] ∧
      '\x7b' ∉ ((marker key).1.map Char.toLower).dropLast := by
    decide
  obtain ⟨-, hbrace⟩ := hlast key hkey
  obtain ⟨y', rfl⟩ : ∃ y', y = '\x7b' :: y' := by
    obtain ⟨c, y', rfl⟩ := List.exists_cons_of_ne_nil hy
    obtain ⟨rest, hrest⟩ := hyb
    exact ⟨y', congrArg (· :: y') (List.cons.inj hrest).1⟩
  have hnil : y' = [] := by
    by_contra hne
    have hdrop := congrArg List.dropLast hxy
    rw [List.dropLast_append_of_ne_nil (by simp), List.dropLast_cons_of_ne_nil hne] at hdrop
    exact hbrace (hdrop ▸ List.mem_append_right x List.mem_cons_self)
  rw [hnil]

/-- An opening that a brace behind the query would complete is not at its end. -/
theorem noStraddle_brace (hv : Inert value) (h : Clean ps e) {as : List (Fragment Sql)}
    (has : as <:+ marked ps) (hkey : key ∈ markerKeys)
    (hraw : ∀ t, .hole t ∈ as → IsMarker key t → t ∈ done) (b : Sql) :
    NoStraddle ((marker key).1.map Char.toLower) ((render id value done as).map Char.toLower)
      ('\x7b' :: b) := by
  intro x y hxy hx hy hxa hyb
  obtain rfl := eq_brace hkey hxy hy hyb
  have hstretch : as ++ [.char '\x7b'] <:+: marked ps ++ [.char '\x7b'] := by
    obtain ⟨front, hfront⟩ := has
    exact ⟨front, [], by rw [← hfront]; simp⟩
  refine h.opening key hkey done _ hstretch (fun t htmem => hraw t (by simpa using htmem)) ?_
  unfold Opens
  have hquery : render id value done as = without done as := render_query hv h has.isInfix
  have hwithout : without done (as ++ [.char '\x7b']) = without done as ++ ['\x7b'] :=
    render_append _ _
  obtain ⟨front, hfront⟩ := hxa
  rw [hwithout, ← hquery, List.map_append, ← hfront, hxy, List.append_assoc]
  exact (List.suffix_append _ _).isInfix

/-- Between the query and what follows it no marker begins. -/
theorem not_opens_after (hv : Inert value) (h : Clean ps e) (ht : Template value before after)
    {as bs : List (Fragment Sql)} (has : as <:+ marked ps) (hbs : bs <+: after) (hkey : key ∈ markerKeys)
    (hraw : ∀ t, .hole t ∈ as → IsMarker key t → t ∈ done) :
    NoStraddle ((marker key).1.map Char.toLower) ((render id value done as).map Char.toLower)
      ((render id value done bs).map Char.toLower) := by
  obtain ⟨body, hbody, -, hspace, hparen, hcomma, -⟩ := opening_cases key hkey
  cases bs with
  | nil => exact noStraddle_nil _ _
  | cons p bs =>
    have hp : after.head? = some p := by
      obtain ⟨rest, rfl⟩ := hbs
      rfl
    have hblank : ∀ b, NoStraddle ((marker key).1.map Char.toLower)
        ((render id value done as).map Char.toLower) (' ' :: b) := fun b => by
      rw [hbody]
      exact noStraddle_of_head hspace _ b
    rcases ht.openedBy p hp with rfl | rfl | rfl
    · rw [hbody]
      exact noStraddle_of_head hparen _ _
    · exact hblank _
    · show NoStraddle _ _ ((current id value done ORDER_BY ++ render id value done bs).map _)
      by_cases hd : ORDER_BY ∈ done
      · rw [current_of_mem hd]
        cases hvalue : value ORDER_BY with
        | nil =>
          have hside : Side (.hole ORDER_BY :: bs) := ht.right.of_infix hbs.isInfix
          have hno : NoStraddle ((marker key).1.map Char.toLower)
              ((render id value done as).map Char.toLower)
              ((render id value done bs ++ []).map Char.toLower) :=
            noStraddle_opening hside (.inl rfl) hkey _
          rwa [List.append_nil] at hno
        | cons c v =>
          obtain rfl : c = ' ' := ht.orderBy hp c (by rw [hvalue]; rfl)
          exact hblank _
      · -- the placeholder itself begins with a brace
        rw [current_of_not_mem hd]
        exact noStraddle_brace hv h has hkey hraw _

/-- **No opening** is anywhere but at the markers that are to be taken out. -/
theorem not_opens (hv : Inert value) (h : Clean ps e) (ht : Template value before after)
    (hqs : qs <:+ marked ps) {stretch : List (Fragment Sql)}
    (hs : stretch <:+: before ++ (qs ++ after)) (hkey : key ∈ markerKeys)
    (hraw : ∀ t, .hole t ∈ stretch → IsMarker key t → t ∈ done) :
    ¬ Opens key (render id value done stretch) := by
  have hne : (marker key).1.map Char.toLower ≠ [] := by
    obtain ⟨body, hbody, -⟩ := opening_cases key hkey
    rw [hbody]
    simp
  have hquery : ∀ {l : List (Fragment Sql)}, l <:+: qs →
      (∀ t, .hole t ∈ l → IsMarker key t → t ∈ done) → ¬ Opens key (render id value done l) :=
    fun hl hl' hi => by
      have hl'' := hl.trans hqs.isInfix
      rw [render_query hv h hl''] at hi
      exact h.opening key hkey done _ (hl''.trans (List.prefix_append _ _).isInfix) hl' hi
  have hside : ∀ {l ps : List (Fragment Sql)}, Side ps → l <:+: ps →
      ¬ Opens key (render id value done l) := fun hps hl hi => by
    rw [← List.append_nil (render id value done _)] at hi
    exact hne (List.infix_nil.mp (opens_of_side hv (hps.of_infix hl) (.inl rfl) hkey hi))
  have htail : ∀ {l : List (Fragment Sql)}, l <:+: qs ++ after →
      (∀ t, .hole t ∈ l → IsMarker key t → t ∈ done) → ¬ Opens key (render id value done l) :=
    fun hl hl' hi => by
      obtain hl | hl | ⟨a, b, rfl, ha, hb⟩ := List.infix_append_iff.mp hl
      · exact hquery hl hl' hi
      · exact hside ht.right hl hi
      · have ha' : ∀ t, .hole t ∈ a → IsMarker key t → t ∈ done := fun t hmem =>
          hl' t (List.mem_append_left b hmem)
        unfold Opens at hi
        rw [render_append, List.map_append] at hi
        obtain hi | hi := (not_opens_after hv h ht (ha.trans hqs) hb hkey ha').left_or_right hi
        · exact hquery ha.isInfix ha' hi
        · exact hside ht.right hb.isInfix hi
  intro hi
  obtain hl | hl | ⟨a, b, rfl, ha, hb⟩ := List.infix_append_iff.mp hs
  · exact hside ht.left hl hi
  · exact htail hl hraw hi
  · rw [render_append] at hi
    have hi := opens_of_side hv (ht.left.of_infix ha.isInfix) (.inr (ht.closedOff.of_suffix ha))
      hkey hi
    exact htail hb.isInfix (fun t hmem => hraw t (List.mem_append_right a hmem)) hi

/-! ### One placeholder and its marker -/

theorem isMarker_unique {key' t : Sql} (hkey : key ∈ markerKeys) (hkey' : key' ∈ markerKeys)
    (h : IsMarker key t) (h' : IsMarker key' t) : key = key' := by
  have hall : ∀ key ∈ markerKeys, ∀ key' ∈ markerKeys,
      (marker key).1.map Char.toLower <+: (marker key').1.map Char.toLower → key = key' := by
    decide
  obtain hpre | hpre :=
    List.prefix_or_prefix_of_prefix (startsWith_iff.mp h) (startsWith_iff.mp h')
  · exact hall key hkey key' hkey' hpre
  · exact (hall key' hkey' key hkey hpre).symm

theorem find_of_isMarker (h : Clean ps e) {t : Sql} (ht : .hole t ∈ marked ps)
    (hkey : key ∈ markerKeys) (hm : IsMarker key t) : ∃ content,
      JavaText.find (marker key).1 (marker key).2 t = some (t, content) ∧
        ∀ key' ∈ markerKeys, ¬ Opens key' t.tail ∧ ¬ Opens key' (dropOrderBy 0 content) := by
  obtain ⟨key', hkey', content, hfind, hopens⟩ := h.found t ht
  obtain rfl := isMarker_unique hkey hkey' hm (of_find_self hfind).1
  exact ⟨content, hfind, hopens⟩

theorem solid_placeholder (hk : k ∈ placeholders) : Solid k := by
  obtain ⟨body, rfl, -, hclose, -⟩ := placeholder_cases k hk
  have hbody : '\x7d' ∉ '\x7b' :: body := by simpa using hclose
  exact solid_of_last hbody

/-- A marker does not begin with what it ends with. -/
theorem solid_marker (h : Clean ps e) {t : Sql} (ht : .hole t ∈ marked ps) : Solid t := by
  obtain ⟨key, hkey, content, hfind, hopens⟩ := h.found t ht
  obtain ⟨hs, ending, htext, hend⟩ := of_find_self hfind
  have hstart := startsWith_iff.mp hs
  have hlast : ∀ key ∈ markerKeys, ((marker key).2.map Char.toLower).getLast? = some '\x7d' := by
    decide
  have hne : t ≠ [] := by
    rintro rfl
    cases hfind
  refine solid_of_border hne fun x y hxy hx hy hpre => ?_
  have hpre' : y.map Char.toLower <+: t.map Char.toLower := hpre.map _
  obtain hle | hle := List.prefix_or_prefix_of_prefix hpre' hstart
  · -- a border within the opening would have the last character of the marker there
    have hclose := map_findClose hend
    have hending : ending ≠ [] := by
      rintro rfl
      have hnone := hlast key hkey
      rw [← hclose] at hnone
      cases hnone
    have hy' : (y.map Char.toLower).getLast? = some '\x7d' := by
      rw [← hlast key hkey, ← hclose, List.getLast?_map, List.getLast?_map]
      have hlast' := congrArg List.getLast? (hxy.symm.trans htext)
      rw [List.getLast?_append_of_ne_nil x hy, List.getLast?_append_of_ne_nil _ hending] at hlast'
      rw [hlast']
    obtain ⟨body, hbody, -, -, -, -, -, hbrace⟩ := opening_cases key hkey
    have hmem := hle.subset (List.mem_of_getLast? hy')
    rw [hbody] at hmem
    simp [hbrace] at hmem
  · refine (hopens key hkey).1 (hle.isInfix.trans ?_)
    obtain ⟨c, x, rfl⟩ := List.exists_cons_of_ne_nil hx
    rw [hxy]
    exact ((List.suffix_append x y).isInfix).map _

/-- The markers are those of the query. -/
theorem mem_query_of_isMarker (ht : Template value before after) {t : Sql}
    (hkey : key ∈ markerKeys) (hm : IsMarker key t) (hmem : .hole t ∈ before ++ (qs ++ after)) :
    .hole t ∈ qs := by
  have hside : ∀ {ps : List (Fragment Sql)}, Side ps → .hole t ∉ ps := fun hps hmem => by
    have hk : t ∈ placeholders := by simpa [plainPart] using hps.parts _ hmem
    obtain ⟨_, -, -, -, -, -, -, hhash⟩ := placeholder_cases t hk
    obtain ⟨body, hbody, -⟩ := opening_cases key hkey
    have hopens := opens_of_isMarker hm
    unfold Opens at hopens
    rw [hbody] at hopens
    exact hhash (hopens.subset List.mem_cons_self)
  obtain hmem | hmem := List.mem_append.mp hmem
  · exact (hside ht.left hmem).elim
  · obtain hmem | hmem := List.mem_append.mp hmem
    · exact hmem
    · exact (hside ht.right hmem).elim

theorem fresh_placeholder (hv : Inert value) (h : Clean ps e) (ht : Template value before after)
    (hqs : qs <:+ marked ps) (hk : k ∈ placeholders) :
    Fresh id value done k (before ++ (qs ++ after)) := fun _ hs hmem =>
  not_placeholder hv h ht hqs hs hk fun hmem' => (hmem hmem').elim

theorem fresh_marker (hv : Inert value) (h : Clean ps e) (ht : Template value before after)
    (hqs : qs <:+ marked ps) (hkey : key ∈ markerKeys) {t : Sql} (hmem : .hole t ∈ marked ps)
    (hm : IsMarker key t) : Fresh id value done t (before ++ (qs ++ after)) := by
  intro stretch hs hout hi
  have hopens : ¬ Opens key (render id value done stretch) :=
    not_opens hv h ht hqs hs hkey fun t' ht' hm' => by
      have hmem' := hqs.subset (mem_query_of_isMarker ht hkey hm' (hs.subset ht'))
      rw [h.same key hkey t t' hmem hmem' hm hm'] at hout
      exact (hout ht').elim
  exact hopens ((opens_of_isMarker hm).trans (hi.map Char.toLower))

/-- Without a marker nothing is found. -/
theorem find_render_none (hv : Inert value) (h : Clean ps e) (ht : Template value before after)
    (hqs : qs <:+ marked ps) (hkey : key ∈ markerKeys)
    (hnone : ∀ t, .hole t ∈ qs → ¬ IsMarker key t) :
    JavaText.find (marker key).1 (marker key).2
      (render id value done (before ++ (qs ++ after))) = none :=
  find_eq_none (not_opens hv h ht hqs List.infix_rfl hkey fun t hmem hm =>
    (hnone t (mem_query_of_isMarker ht hkey hm hmem) hm).elim)

/-- A marker is found that is there. -/
theorem find_render (hv : Inert value) (h : Clean ps e) (ht : Template value before after)
    (hqs : qs <:+ marked ps) (hkey : key ∈ markerKeys) {t content : Sql} (hmem : .hole t ∈ qs)
    (hm : IsMarker key t)
    (hfind : JavaText.find (marker key).1 (marker key).2 t = some (t, content)) (hdone : t ∉ done) :
    JavaText.find (marker key).1 (marker key).2
      (render id value done (before ++ (qs ++ after))) = some (t, content) := by
  have hall : Fragment.hole t ∈ before ++ (qs ++ after) :=
    List.mem_append_right _ (List.mem_append_left _ hmem)
  -- up to the first of its holes the text has no opening
  obtain ⟨w, w', hw, hout⟩ := List.eq_append_cons_of_mem hall
  have hw' : w <:+: before ++ (qs ++ after) := ⟨[], .hole t :: w', by rw [hw]; rfl⟩
  have hnone : ¬ Opens key (render id value done w) :=
    not_opens hv h ht hqs hw' hkey fun t' ht' hm' => by
      have hmem' := mem_query_of_isMarker ht hkey hm' (hw'.subset ht')
      rw [h.same key hkey t t' (hqs.subset hmem) (hqs.subset hmem') hm hm'] at hout
      exact (hout ht').elim
  have hrender : render id value done (before ++ (qs ++ after)) =
      render id value done w ++ (t ++ render id value done w') := by
    rw [hw, render_append]
    show _ ++ (current id value done t ++ _) = _
    rw [current_of_not_mem hdone]
    rfl
  have hclose : ∀ key ∈ markerKeys, (marker key).2 ≠ [] := by decide
  rw [hrender, find_append ?_ hnone]
  · exact find_self_append (hclose key hkey) hfind _
  · -- a marker begins with a character that an opening only begins with
    obtain ⟨body, hbody, hhash, -⟩ := opening_cases key hkey
    obtain ⟨rest, hrest⟩ := startsWith_iff.mp hm
    rw [List.map_append, ← hrest, hbody, List.cons_append, List.cons_append]
    exact noStraddle_of_head hhash _ _

/-- The text of the first marker of a placeholder, or nothing. -/
def contentOf (key : Sql) (qs : List (Fragment Sql)) : Sql :=
  ((JavaText.find (marker key).1 (marker key).2 (fill id qs)).map Prod.snd).getD []

theorem quiet_nil : Quiet [] := by
  refine ⟨fun k hk hi => ?_, fun key hkey hi => ?_⟩
  · obtain ⟨body, rfl, -⟩ := placeholder_cases k hk
    cases List.infix_nil.mp hi
  · obtain ⟨body, hbody, -⟩ := opening_cases key hkey
    unfold Opens at hi
    rw [hbody] at hi
    cases List.infix_nil.mp hi

theorem inert_nil : Inert fun _ => [] := ⟨fun _ _ => quiet_nil, fun _ _ => rfl⟩

theorem template_nil (value : Sql → Sql) : Template value [] [] where
  left := by decide
  right := by decide
  closedOff _ hp := nomatch hp
  openedBy _ hp := nomatch hp
  orderBy hp := nomatch hp

theorem render_alone (value : Sql → Sql) (qs : List (Fragment Sql)) :
    render id value [] ([] ++ (qs ++ [])) = fill id qs := by
  rw [render_nil, List.nil_append, List.append_nil]

theorem contentOf_of_none (h : Clean ps e) (hqs : qs <:+ marked ps) (hkey : key ∈ markerKeys)
    (hnone : ∀ t, .hole t ∈ qs → ¬ IsMarker key t) : contentOf key qs = [] := by
  have hfind : JavaText.find (marker key).1 (marker key).2
      (render id (fun _ => []) [] ([] ++ (qs ++ []))) = none :=
    find_render_none inert_nil h (template_nil _) hqs hkey hnone
  rw [render_alone] at hfind
  unfold contentOf
  rw [hfind]
  rfl

theorem contentOf_of_find (h : Clean ps e) (hqs : qs <:+ marked ps) (hkey : key ∈ markerKeys)
    {t content : Sql} (hmem : .hole t ∈ qs) (hm : IsMarker key t)
    (hfind : JavaText.find (marker key).1 (marker key).2 t = some (t, content)) :
    contentOf key qs = content := by
  have hfind : JavaText.find (marker key).1 (marker key).2
      (render id (fun _ => []) [] ([] ++ (qs ++ []))) = some (t, content) :=
    find_render inert_nil h (template_nil _) hqs hkey hmem hm hfind List.not_mem_nil
  rw [render_alone] at hfind
  unfold contentOf
  rw [hfind]
  rfl

theorem mem_placeholders (hkey : key ∈ markerKeys) : key ∈ placeholders :=
  List.mem_append_right _ hkey

/-- A placeholder is filled in, and its markers are taken out. -/
theorem replaceKey_render {flag : Bool} (hv : Inert value) (h : Clean ps e)
    (ht : Template value before after) (hqs : qs <:+ marked ps) (hkey : key ∈ markerKeys)
    (hvalue : value key = converOrderBy flag e key (contentOf key qs)) (hk : key ∉ done)
    (hdone : ∀ t, .hole t ∈ qs → IsMarker key t → t ∉ done) :
    ∃ ms, (∀ t ∈ ms, .hole t ∈ qs ∧ IsMarker key t) ∧
      (∀ t, .hole t ∈ qs → IsMarker key t → t ∈ ms) ∧
      replaceKey flag e (render id value done (before ++ (qs ++ after))) key =
        render id value (done ++ key :: ms) (before ++ (qs ++ after)) := by
  have hplaceholder := mem_placeholders hkey
  have hfresh : Fresh id value done key (before ++ (qs ++ after)) :=
    fresh_placeholder hv h ht hqs hplaceholder
  have hfill := replace_render (solid_placeholder hplaceholder) hk hfresh
  by_cases hex : ∃ t, .hole t ∈ qs ∧ IsMarker key t
  · obtain ⟨t, hmem, hm⟩ := hex
    obtain ⟨content, hfind, -⟩ := find_of_isMarker h (hqs.subset hmem) hkey hm
    have hcontent := contentOf_of_find h hqs hkey hmem hm hfind
    have hne : t ≠ key := by
      rintro rfl
      exact not_mem_placeholders h (hqs.subset hmem) hplaceholder
    have hout : t ∉ done ++ [key] := by
      simpa [hne] using hdone t hmem hm
    have htake := replace_render (solid_marker h (hqs.subset hmem)) hout
      (fresh_marker hv h ht hqs hkey (hqs.subset hmem) hm)
    rw [hv.marker t (not_mem_placeholders h (hqs.subset hmem)), List.append_assoc] at htake
    refine ⟨[t], fun t' ht' => ?_, fun t' ht' hm' => ?_, ?_⟩
    · rw [List.mem_singleton.mp ht']
      exact ⟨hmem, hm⟩
    · exact List.mem_singleton.mpr
        (h.same key hkey t' t (hqs.subset ht') (hqs.subset hmem) hm' hm)
    · unfold replaceKey
      rw [find_render hv h ht hqs hkey hmem hm hfind (hdone t hmem hm)]
      dsimp only [Option.getD_some]
      rw [← hcontent, ← hvalue]
      exact (congrArg (JavaText.replace t []) hfill).trans htake
  · have hnone : ∀ t, .hole t ∈ qs → ¬ IsMarker key t := fun t hmem hm => hex ⟨t, hmem, hm⟩
    refine ⟨[], by simp, fun t hmem hm => (hnone t hmem hm).elim, ?_⟩
    unfold replaceKey
    rw [find_render_none hv h ht hqs hkey hnone]
    dsimp only [Option.getD_none]
    rw [replace_empty, ← contentOf_of_none h hqs hkey hnone, ← hvalue]
    exact hfill

/-- The loop over the placeholders with markers. -/
theorem foldl_replaceKey {flag : Bool} (hv : Inert value) (h : Clean ps e)
    (ht : Template value before after) (hqs : qs <:+ marked ps) {keys : List Sql}
    (hkeys : ∀ key ∈ keys, key ∈ markerKeys) (hnodup : keys.Nodup)
    (hvalue : ∀ key ∈ keys, value key = converOrderBy flag e key (contentOf key qs))
    (hdone : ∀ key ∈ keys, key ∉ done ∧ ∀ t, .hole t ∈ qs → IsMarker key t → t ∉ done) :
    ∃ done', done ⊆ done' ∧
      (∀ key ∈ keys, key ∈ done' ∧ ∀ t, .hole t ∈ qs → IsMarker key t → t ∈ done') ∧
      keys.foldl (replaceKey flag e) (render id value done (before ++ (qs ++ after))) =
        render id value done' (before ++ (qs ++ after)) := by
  induction keys generalizing done with
  | nil => exact ⟨done, List.Subset.refl done, by simp, rfl⟩
  | cons key keys ih =>
    obtain ⟨hkey, hkeys⟩ := List.forall_mem_cons.mp hkeys
    obtain ⟨hvalue, hvalues⟩ := List.forall_mem_cons.mp hvalue
    obtain ⟨⟨hk, hms⟩, hdones⟩ := List.forall_mem_cons.mp hdone
    obtain ⟨hout, hnodup⟩ := List.nodup_cons.mp hnodup
    obtain ⟨ms, hsub, hall, hstep⟩ := replaceKey_render hv h ht hqs hkey hvalue hk hms
    have hrest : ∀ key' ∈ keys, key' ∉ done ++ key :: ms ∧
        ∀ t, .hole t ∈ qs → IsMarker key' t → t ∉ done ++ key :: ms := by
      intro key' hkey'
      obtain ⟨hk', hms'⟩ := hdones key' hkey'
      have hne : key' ≠ key := fun he => hout (he ▸ hkey')
      refine ⟨fun hmem => ?_, fun t ht hm hmem => ?_⟩
      · obtain hmem | hmem := List.mem_append.mp hmem
        · exact hk' hmem
        · obtain hmem | hmem := List.mem_cons.mp hmem
          · exact hne hmem
          · exact not_mem_placeholders h (hqs.subset (hsub key' hmem).1)
              (mem_placeholders (hkeys key' hkey'))
      · obtain hmem | hmem := List.mem_append.mp hmem
        · exact hms' t ht hm hmem
        · obtain rfl | hmem := List.mem_cons.mp hmem
          · exact not_mem_placeholders h (hqs.subset ht) (mem_placeholders hkey)
          · exact hne (isMarker_unique (hkeys key' hkey') hkey hm (hsub t hmem).2)
    obtain ⟨done', hle, hmem, hfold⟩ := ih hkeys hnodup hvalues hrest
    refine ⟨done', fun x hx => hle (List.mem_append_left _ hx), ?_, ?_⟩
    · refine List.forall_mem_cons.mpr ⟨⟨hle (by simp), fun t ht hm => hle ?_⟩, hmem⟩
      exact List.mem_append_right _ (List.mem_cons_of_mem _ (hall t ht hm))
    · rw [List.foldl_cons, hstep, hfold]

end PageSql
end CloudManager
