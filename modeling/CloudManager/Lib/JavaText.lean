/-
# Java's replacements in a text

Texts as lists of characters. The replacements go from left to right and do not
overlap; `find` gives the first match of a regular expression
`(open(.*?)close)` without regard to the case of ASCII letters. A replacement can be
done part by part where no occurrence straddles two parts (`replace_append`).
-/
import Mathlib.Data.List.Basic
import Mathlib.Data.List.Infix

namespace CloudManager
namespace JavaText

/-! ### Deciding

What holds of the characters of a text is decided along the text, not over all
characters there are. -/

section Decide

variable {p : Char → Prop} [DecidablePred p]

instance decidableForall (s : List Char) : Decidable (∀ c ∈ s, p c) := List.decidableBAll p s

instance decidableExists (s : List Char) : Decidable (∃ c ∈ s, p c) := List.decidableBEx p s

instance decidableForallOption (c : Option Char) : Decidable (∀ d ∈ c, p d) :=
  Option.decidableForallMem c

end Decide

/-- `\s`. -/
def isSpace (c : Char) : Bool := c ∈ [' ', '\t', '\n', '\x0b', '\x0c', '\r']

/-- `Character.isWhitespace`. -/
def isWhitespace (c : Char) : Bool :=
  isSpace c || c.toNat ∈ [0x1c, 0x1d, 0x1e, 0x1f, 0x1680, 0x2028, 0x2029, 0x205f, 0x3000] ||
    (0x2000 ≤ c.toNat && c.toNat ≤ 0x200a && c.toNat ≠ 0x2007)

/-- What `.` does not match. -/
def isLineTerminator (c : Char) : Bool := c.toNat ∈ [0x0a, 0x0d, 0x85, 0x2028, 0x2029]

/-- `StringUtils.isBlank`. -/
def isBlank (s : List Char) : Bool := s.all isWhitespace

/-! ### Literal replacement -/

/-- Past `skip` more characters of a match. -/
def replaceFrom (target replacement : List Char) : ℕ → List Char → List Char
  | _, [] => []
  | skip + 1, _ :: s => replaceFrom target replacement skip s
  | 0, c :: s =>
    if target.isPrefixOf (c :: s) then
      replacement ++ replaceFrom target replacement (target.length - 1) s
    else c :: replaceFrom target replacement 0 s

/-- `String.replace`; the empty target is found around every character. -/
def replace (target replacement s : List Char) : List Char :=
  if target.isEmpty then replacement ++ s.flatMap fun c => c :: replacement
  else replaceFrom target replacement 0 s

/-! #### Part by part -/

variable {t r a b s : List Char} {c : Char}

/-- No occurrence of `t` begins in `a` and ends in `b`. -/
def NoStraddle (t a b : List Char) : Prop :=
  ∀ x y, t = x ++ y → x ≠ [] → y ≠ [] → x <:+ a → ¬ y <+: b

theorem replaceFrom_skip (t r a b : List Char) :
    replaceFrom t r a.length (a ++ b) = replaceFrom t r 0 b := by
  induction a with
  | nil => rfl
  | cons c a ih => exact ih

theorem replaceFrom_cons (t r : List Char) (c : Char) (s : List Char) :
    replaceFrom t r 0 (c :: s) =
      if t.isPrefixOf (c :: s) then r ++ replaceFrom t r (t.length - 1) s
      else c :: replaceFrom t r 0 s := rfl

theorem replaceFrom_append (ht : t ≠ []) {k : ℕ} (hk : k ≤ a.length) (h : NoStraddle t a b) :
    replaceFrom t r k (a ++ b) = replaceFrom t r k a ++ replaceFrom t r 0 b := by
  induction a generalizing k with
  | nil =>
    obtain rfl : k = 0 := Nat.le_zero.mp hk
    simp [replaceFrom]
  | cons c a ih =>
    have hrest : NoStraddle t a b := fun x y hxy hx hy hxa =>
      h x y hxy hx hy (hxa.trans (List.suffix_cons c a))
    cases k with
    | succ k => exact ih (Nat.le_of_succ_le_succ hk) hrest
    | zero =>
      have hmatch : t.isPrefixOf (c :: a ++ b) = t.isPrefixOf (c :: a) := by
        rw [Bool.eq_iff_iff, List.isPrefixOf_iff_prefix, List.isPrefixOf_iff_prefix]
        refine ⟨fun hp => ?_, fun hp => hp.trans (List.prefix_append _ _)⟩
        obtain hle | ⟨y, rfl⟩ :=
          List.prefix_or_prefix_of_prefix hp (List.prefix_append (c :: a) b)
        · exact hle
        · rw [List.prefix_append_right_inj] at hp
          by_cases hy : y = []
          · rw [hy, List.append_nil]
          · exact (h (c :: a) y rfl (List.cons_ne_nil c a) hy List.suffix_rfl hp).elim
      rw [List.cons_append] at hmatch ⊢
      rw [replaceFrom_cons, replaceFrom_cons, hmatch]
      by_cases hp : t.isPrefixOf (c :: a) = true
      · have hlen := (List.isPrefixOf_iff_prefix.mp hp).length_le
        rw [List.length_cons] at hlen
        rw [if_pos hp, if_pos hp, ih (by omega) hrest, List.append_assoc]
      · rw [if_neg hp, if_neg hp, ih (Nat.zero_le _) hrest, List.cons_append]

theorem replace_of_ne_nil (ht : t ≠ []) (r s : List Char) :
    replace t r s = replaceFrom t r 0 s := by
  unfold replace
  rw [if_neg (by simpa using ht)]

theorem replace_append (ht : t ≠ []) (h : NoStraddle t a b) :
    replace t r (a ++ b) = replace t r a ++ replace t r b := by
  rw [replace_of_ne_nil ht, replace_of_ne_nil ht, replace_of_ne_nil ht]
  exact replaceFrom_append ht (Nat.zero_le _) h

/-- An occurrence at the start is replaced. -/
theorem replace_self_append (ht : t ≠ []) (r s : List Char) :
    replace t r (t ++ s) = r ++ replace t r s := by
  rw [replace_of_ne_nil ht, replace_of_ne_nil ht]
  cases t with
  | nil => exact (ht rfl).elim
  | cons c t =>
    have hp : (c :: t).isPrefixOf (c :: (t ++ s)) = true :=
      List.isPrefixOf_iff_prefix.mpr ⟨s, rfl⟩
    rw [List.cons_append, replaceFrom_cons, if_pos hp]
    exact congrArg (r ++ ·) (replaceFrom_skip (c :: t) r t s)

theorem replace_nil (ht : t ≠ []) (r : List Char) : replace t r [] = [] := by
  rw [replace_of_ne_nil ht]
  rfl

/-- Nothing is put around the characters. -/
theorem replace_empty (s : List Char) : replace [] [] s = s := by
  show s.flatMap (fun c => [c]) = s
  exact List.flatMap_singleton' s

/-- A text without the target stays as it is. -/
theorem replace_of_not_infix (ht : t ≠ []) (h : ¬ t <:+: s) : replace t r s = s := by
  rw [replace_of_ne_nil ht]
  induction s with
  | nil => rfl
  | cons c s ih =>
    have hp : ¬ t.isPrefixOf (c :: s) = true := fun hp =>
      h (List.isPrefixOf_iff_prefix.mp hp).isInfix
    rw [replaceFrom_cons, if_neg hp, ih fun hi => h (hi.trans (List.suffix_cons c s).isInfix)]

/-- A character with which the target does not begin. -/
theorem replace_cons (ht : t ≠ []) (h : t.head? ≠ some c) (r s : List Char) :
    replace t r (c :: s) = c :: replace t r s := by
  have hp : ¬ t.isPrefixOf (c :: s) = true := fun hp => by
    obtain ⟨z, hz⟩ := List.isPrefixOf_iff_prefix.mp hp
    cases t with
    | nil => exact ht rfl
    | cons d t =>
      obtain ⟨rfl, -⟩ := List.cons.inj hz
      exact h rfl
  rw [replace_of_ne_nil ht, replace_of_ne_nil ht, replaceFrom_cons, if_neg hp]

/-- Nothing straddles a character that the target does not have. -/
theorem noStraddle_of_not_mem (h : c ∉ t) (a b : List Char) : NoStraddle t a (c :: b) := by
  rintro x y rfl - hy - ⟨z, hz⟩
  cases y with
  | nil => exact hy rfl
  | cons d y =>
    obtain ⟨rfl, -⟩ := List.cons.inj hz
    exact h (List.mem_append_right x List.mem_cons_self)

theorem replace_append_cons (ht : t ≠ []) (h : c ∉ t) (a b : List Char) :
    replace t r (a ++ c :: b) = replace t r a ++ c :: replace t r b := by
  have hc : replace t r [c] = [c] := replace_of_not_infix ht fun hi => by
    obtain ⟨d, hd⟩ := List.exists_mem_of_ne_nil t ht
    obtain rfl := List.mem_singleton.mp (hi.subset hd)
    exact h hd
  have hsplit : NoStraddle t [c] b := by
    rintro x y rfl hx - hxc
    obtain ⟨d, hd⟩ := List.exists_mem_of_ne_nil x hx
    obtain rfl := List.mem_singleton.mp (hxc.subset hd)
    exact (h (List.mem_append_left y hd)).elim
  have htail := replace_append (r := r) ht hsplit
  rw [replace_append ht (noStraddle_of_not_mem h a b)]
  exact congrArg _ (htail.trans (by rw [hc]; rfl))

theorem noStraddle_nil (t a : List Char) : NoStraddle t a [] := fun _ _ _ _ hy _ hpre =>
  hy (List.prefix_nil.mp hpre)

/-- Nothing straddles a character that the target can only begin with. -/
theorem noStraddle_of_head (h : c ∉ t.tail) (a b : List Char) : NoStraddle t a (c :: b) := by
  rintro x y rfl hx hy - ⟨z, hz⟩
  cases y with
  | nil => exact hy rfl
  | cons d y =>
    obtain ⟨rfl, -⟩ := List.cons.inj hz
    rw [List.tail_append_of_ne_nil hx] at h
    exact h (List.mem_append_right _ List.mem_cons_self)

/-! #### Occurrences -/

/-- An occurrence that straddles nothing is on one side. -/
theorem NoStraddle.left_or_right (h : NoStraddle t a b) (ht : t <:+: a ++ b) : t <:+: a ∨ t <:+: b := by
  obtain ha | hb | ⟨x, y, hx, hy, hxy, hxa, hyb⟩ := List.infix_append_iff_ne_nil.mp ht
  · exact .inl ha
  · exact .inr hb
  · exact (h x y hxy hx hy hxa hyb).elim

/-- An occurrence that does not begin in the first of two texts is in the second. -/
theorem infix_of_append (h : t <:+: a ++ b)
    (ha : ∀ c a', c :: a' <:+ a → ¬ t <+: c :: a' ++ b) : t <:+: b := by
  induction a with
  | nil => exact h
  | cons c a ih =>
    obtain hpre | hinfix := List.infix_cons_iff.mp h
    · exact (ha c a List.suffix_rfl hpre).elim
    · exact ih hinfix fun d a' hd => ha d a' (hd.trans (List.suffix_cons c a))

/-- What begins with a character that the first text does not have. -/
theorem infix_of_not_mem (h : c :: t <:+: a ++ b) (hc : c ∉ a) : c :: t <:+: b := by
  refine infix_of_append h fun d a' hd ⟨rest, hrest⟩ => hc ?_
  obtain ⟨rfl, -⟩ := List.cons.inj hrest
  exact hd.subset List.mem_cons_self

/-- `indexOf(part) >= 0`. -/
def contains (part s : List Char) : Bool := s.tails.any (part.isPrefixOf ·)

theorem contains_iff {part s : List Char} : contains part s = true ↔ part <:+: s := by
  unfold contains
  rw [List.any_eq_true, List.infix_iff_prefix_suffix]
  constructor
  · rintro ⟨s', hs', hpre⟩
    exact ⟨s', List.isPrefixOf_iff_prefix.mp hpre, (List.mem_tails _ _).mp hs'⟩
  · rintro ⟨s', hpre, hs'⟩
    exact ⟨s', (List.mem_tails _ _).mpr hs', List.isPrefixOf_iff_prefix.mpr hpre⟩

/-! ### Regular expressions -/

/-- `replaceAll("[\\s]+", " ")`; `inSpace` within a run of spaces. -/
def squeeze : Bool → List Char → List Char
  | _, [] => []
  | inSpace, c :: s =>
    if isSpace c then (if inSpace then squeeze true s else ' ' :: squeeze true s)
    else c :: squeeze false s

/-- Whether a text ends within a run of spaces. -/
def spaceAfter (inSpace : Bool) (s : List Char) : Bool := s.getLast?.elim inSpace isSpace

theorem spaceAfter_cons (inSpace : Bool) (c : Char) (s : List Char) :
    spaceAfter inSpace (c :: s) = spaceAfter (isSpace c) s := by
  unfold spaceAfter
  cases s with
  | nil => rfl
  | cons d s =>
    rw [List.getLast?_cons_cons]
    cases h : (d :: s).getLast? with
    | none => simp at h
    | some e => rfl

theorem squeeze_cons (inSpace : Bool) (c : Char) (s : List Char) :
    squeeze inSpace (c :: s) =
      if isSpace c then (if inSpace then squeeze true s else ' ' :: squeeze true s)
      else c :: squeeze false s := rfl

theorem squeeze_append (inSpace : Bool) (a b : List Char) :
    squeeze inSpace (a ++ b) = squeeze inSpace a ++ squeeze (spaceAfter inSpace a) b := by
  induction a generalizing inSpace with
  | nil => rfl
  | cons c a ih =>
    rw [List.cons_append, spaceAfter_cons, squeeze_cons, squeeze_cons]
    by_cases hc : isSpace c = true
    · rw [if_pos hc, if_pos hc, hc, ih true]
      split <;> rfl
    · rw [if_neg hc, if_neg hc, Bool.eq_false_iff.mpr hc, ih false]
      rfl

/-- Where a text begins with no space, it does not matter what was before it. -/
theorem squeeze_eq_false (inSpace : Bool) {s : List Char} (h : ∀ c ∈ s.head?, isSpace c = false) :
    squeeze inSpace s = squeeze false s := by
  cases s with
  | nil => rfl
  | cons c s =>
    have hc : isSpace c = false := h c rfl
    rw [squeeze_cons, squeeze_cons, if_neg (by simp [hc]), if_neg (by simp [hc])]

def startsWith (part s : List Char) : Bool :=
  (part.map Char.toLower).isPrefixOf (s.map Char.toLower)

/-- `(.*?)close`: the group, and the text of `close`. -/
def findClose (close : List Char) : List Char → Option (List Char × List Char)
  | [] => if close.isEmpty then some ([], []) else none
  | c :: s =>
    if startsWith close (c :: s) then some ([], (c :: s).take close.length)
    else if isLineTerminator c then none
    else (findClose close s).map fun m => (c :: m.1, m.2)

/-- `(open(.*?)close)`: the whole match and the group. -/
def find (opening close : List Char) : List Char → Option (List Char × List Char)
  | [] => none
  | c :: s =>
    let rest := (c :: s).drop opening.length
    match if startsWith opening (c :: s) then findClose close rest else none with
    | some m => some ((c :: s).take opening.length ++ m.1 ++ m.2, m.1)
    | none => find opening close s

/-! #### Matches -/

theorem startsWith_iff {part s : List Char} :
    startsWith part s = true ↔ part.map Char.toLower <+: s.map Char.toLower :=
  List.isPrefixOf_iff_prefix

theorem startsWith_append {part s : List Char} (h : startsWith part s = true) (rest : List Char) :
    startsWith part (s ++ rest) = true := by
  rw [startsWith_iff] at h ⊢
  rw [List.map_append]
  exact h.trans (List.prefix_append _ _)

/-- In a text that is long enough, what follows it does not matter. -/
theorem startsWith_of_append {part s rest : List Char} (hlen : part.length ≤ s.length)
    (h : startsWith part (s ++ rest) = true) : startsWith part s = true := by
  rw [startsWith_iff, List.map_append] at h
  rw [startsWith_iff]
  exact List.prefix_of_prefix_length_le h (List.prefix_append _ _) (by simpa using hlen)

theorem length_le_of_findClose {close s : List Char} {m : List Char × List Char}
    (h : findClose close s = some m) : close.length ≤ s.length := by
  induction s generalizing m with
  | nil =>
    unfold findClose at h
    split at h
    · rename_i hc
      simp [List.isEmpty_iff.mp hc]
    · cases h
  | cons c s ih =>
    unfold findClose at h
    split at h
    · rename_i hs
      simpa using (startsWith_iff.mp hs).length_le
    · split at h
      · cases h
      · obtain ⟨m', hm', -⟩ := Option.map_eq_some_iff.mp h
        have hle := ih hm'
        rw [List.length_cons]
        omega

theorem findClose_append {close s : List Char} {m : List Char × List Char} (hclose : close ≠ [])
    (h : findClose close s = some m) (rest : List Char) :
    findClose close (s ++ rest) = some m := by
  induction s generalizing m with
  | nil =>
    unfold findClose at h
    rw [if_neg (by simpa using hclose)] at h
    cases h
  | cons c s ih =>
    have hlen := length_le_of_findClose h
    rw [List.cons_append]
    unfold findClose at h ⊢
    by_cases hs : startsWith close (c :: s) = true
    · have htake : (c :: (s ++ rest)).take close.length = (c :: s).take close.length :=
        List.take_append_of_le_length hlen
      rw [if_pos hs] at h
      rw [if_pos (by exact startsWith_append hs rest), htake, h]
    · have hs' : ¬ startsWith close (c :: (s ++ rest)) = true := fun h' =>
        hs (startsWith_of_append hlen h')
      rw [if_neg hs] at h
      rw [if_neg hs']
      split at h
      · cases h
      · rename_i hline
        obtain ⟨m', hm', rfl⟩ := Option.map_eq_some_iff.mp h
        rw [if_neg hline, ih hm']
        rfl

/-- What is found begins with the opening, in some case. -/
theorem startsWith_of_find {opening close s : List Char} {m : List Char × List Char}
    (h : find opening close s = some m) :
    opening.map Char.toLower <:+: s.map Char.toLower := by
  induction s with
  | nil => cases h
  | cons c s ih =>
    by_cases hs : startsWith opening (c :: s) = true
    · exact (startsWith_iff.mp hs).isInfix
    · unfold find at h
      dsimp only at h
      rw [if_neg hs] at h
      exact (ih h).trans (List.suffix_cons _ _).isInfix

theorem find_eq_none {opening close s : List Char}
    (h : ¬ opening.map Char.toLower <:+: s.map Char.toLower) : find opening close s = none := by
  cases hm : find opening close s with
  | none => rfl
  | some m => exact (h (startsWith_of_find hm)).elim

/-- Nothing is found in a text without the opening. -/
theorem find_append {opening close a b : List Char}
    (hs : NoStraddle (opening.map Char.toLower) (a.map Char.toLower) (b.map Char.toLower))
    (ha : ¬ opening.map Char.toLower <:+: a.map Char.toLower) :
    find opening close (a ++ b) = find opening close b := by
  induction a with
  | nil => rfl
  | cons c a ih =>
    have hrest : NoStraddle (opening.map Char.toLower) (a.map Char.toLower) (b.map Char.toLower) :=
      fun x y hxy hx hy hxa => hs x y hxy hx hy (hxa.trans (List.suffix_cons _ _))
    have hstart : ¬ startsWith opening (c :: (a ++ b)) = true := fun hstart => by
      have hpre := startsWith_iff.mp hstart
      rw [← List.cons_append, List.map_append] at hpre
      obtain hle | ⟨y, hy⟩ := List.prefix_or_prefix_of_prefix hpre (List.prefix_append _ _)
      · exact ha hle.isInfix
      · by_cases hnil : y = []
        · rw [hnil, List.append_nil] at hy
          exact ha (hy ▸ List.infix_rfl)
        · rw [← hy, List.prefix_append_right_inj] at hpre
          exact hs _ y hy.symm (List.cons_ne_nil _ _) hnil List.suffix_rfl hpre
    rw [List.cons_append]
    conv_lhs => unfold find
    dsimp only
    rw [if_neg hstart]
    exact ih hrest fun hi => ha (hi.trans (List.suffix_cons _ _).isInfix)

theorem findClose_prefix {close s : List Char} {m : List Char × List Char}
    (h : findClose close s = some m) : m.1 ++ m.2 <+: s := by
  induction s generalizing m with
  | nil =>
    unfold findClose at h
    split at h
    · cases h
      exact List.prefix_rfl
    · cases h
  | cons c s ih =>
    unfold findClose at h
    split at h
    · cases h
      exact List.take_prefix _ _
    · split at h
      · cases h
      · obtain ⟨m', hm', rfl⟩ := Option.map_eq_some_iff.mp h
        exact List.cons_prefix_cons.mpr ⟨rfl, ih hm'⟩

/-- The group does not have the character that closes it. -/
theorem not_mem_of_findClose {c : Char} {s : List Char} {m : List Char × List Char}
    (h : findClose [c] s = some m) : c ∉ m.1 := by
  induction s generalizing m with
  | nil => cases h
  | cons d s ih =>
    unfold findClose at h
    split at h
    · cases h
      exact List.not_mem_nil
    · rename_i hs
      split at h
      · cases h
      · obtain ⟨m', hm', rfl⟩ := Option.map_eq_some_iff.mp h
        have hne : c ≠ d := by
          rintro rfl
          exact hs (by simp [startsWith])
        exact List.not_mem_cons_of_ne_of_not_mem hne (ih hm')

/-- What is found is in the text. -/
theorem isInfix_of_find {opening close s : List Char} {m : List Char × List Char}
    (h : find opening close s = some m) : m.1 <:+: s := by
  induction s generalizing m with
  | nil => cases h
  | cons c s ih =>
    unfold find at h
    dsimp only at h
    split at h
    · rename_i m' hm'
      cases h
      split at hm'
      · have hpre := findClose_prefix hm'
        have hsplit := List.take_append_drop opening.length (c :: s)
        dsimp only
        rw [List.append_assoc]
        conv_rhs => rw [← hsplit]
        exact ((List.prefix_append_right_inj _).mpr hpre).isInfix
      · cases hm'
    · exact (ih h).trans (List.suffix_cons c s).isInfix

theorem map_findClose {close s : List Char} {m : List Char × List Char}
    (h : findClose close s = some m) : m.2.map Char.toLower = close.map Char.toLower := by
  induction s generalizing m with
  | nil =>
    unfold findClose at h
    split at h
    · rename_i hc
      cases h
      rw [List.isEmpty_iff.mp hc]
    · cases h
  | cons c s ih =>
    unfold findClose at h
    split at h
    · rename_i hs
      cases h
      have hpre := List.prefix_iff_eq_take.mp (startsWith_iff.mp hs)
      rw [hpre, List.length_map, List.map_take]
    · split at h
      · cases h
      · obtain ⟨m', hm', rfl⟩ := Option.map_eq_some_iff.mp h
        have hclose := ih hm'
        exact hclose

/-- A text that is found as a whole begins with the opening and ends with the close. -/
theorem of_find_self {opening close t content : List Char}
    (h : find opening close t = some (t, content)) :
    startsWith opening t = true ∧ ∃ ending, t = t.take opening.length ++ content ++ ending ∧
      findClose close (t.drop opening.length) = some (content, ending) := by
  cases t with
  | nil => cases h
  | cons c t =>
    unfold find at h
    dsimp only at h
    split at h
    · rename_i m hm
      split at hm
      · rename_i hs
        obtain ⟨htext, rfl⟩ := Prod.mk.inj (Option.some.inj h)
        exact ⟨hs, m.2, htext.symm, hm⟩
      · cases hm
    · -- what is found later is shorter
      have hlen := (isInfix_of_find h).length_le
      rw [List.length_cons] at hlen
      omega

/-- The group comes after the opening. -/
theorem infix_tail_of_find_self {opening close t content : List Char} (hopen : opening ≠ [])
    (h : find opening close t = some (t, content)) : content <:+: t.tail := by
  obtain ⟨hs, ending, htext, -⟩ := of_find_self h
  have hlen : opening.length ≤ t.length := by simpa using (startsWith_iff.mp hs).length_le
  have hpos := List.length_pos_of_ne_nil hopen
  have htake : t.take opening.length ≠ [] := fun hnil => by
    have hzero := congrArg List.length hnil
    rw [List.length_take, List.length_nil] at hzero
    omega
  obtain ⟨c, rest, hrest⟩ := List.exists_cons_of_ne_nil htake
  rw [hrest] at htext
  rw [htext]
  exact ⟨rest, ending, rfl⟩

/-- It is found whatever follows. -/
theorem find_self_append {opening close t content : List Char} (hclose : close ≠ [])
    (h : find opening close t = some (t, content)) (rest : List Char) :
    find opening close (t ++ rest) = some (t, content) := by
  obtain ⟨hs, ending, htext, hend⟩ := of_find_self h
  have hlen : opening.length ≤ t.length := by simpa using (startsWith_iff.mp hs).length_le
  have hend' := findClose_append hclose hend rest
  rw [← List.drop_append_of_le_length hlen] at hend'
  have htake : (t ++ rest).take opening.length = t.take opening.length :=
    List.take_append_of_le_length hlen
  cases t with
  | nil => cases h
  | cons c t =>
    rw [List.cons_append] at hend' htake ⊢
    unfold find
    dsimp only
    rw [if_pos (by exact startsWith_append hs rest), hend', htake]
    dsimp only
    rw [← htext]

/-- The length of a match of `order(\s*)by` at the start. -/
def orderBy (s : List Char) : Option ℕ :=
  let spaces := (s.drop 5).takeWhile isSpace
  if startsWith ['o', 'r', 'd', 'e', 'r'] s && startsWith ['b', 'y'] (s.drop (5 + spaces.length)) then
    some (5 + spaces.length + 2)
  else none

/-- `replaceAll("(?i)order(\\s*)by", "")`, past `skip` more characters of a match. -/
def dropOrderBy : ℕ → List Char → List Char
  | _, [] => []
  | skip + 1, _ :: s => dropOrderBy skip s
  | 0, c :: s =>
    match orderBy (c :: s) with
    | some n => dropOrderBy (n - 1) s
    | none => c :: dropOrderBy 0 s

theorem dropOrderBy_subset (k : ℕ) (s : List Char) : dropOrderBy k s ⊆ s := by
  induction s generalizing k with
  | nil => cases k <;> exact List.Subset.refl []
  | cons c s ih =>
    have hcons : s ⊆ c :: s := List.subset_cons_self c s
    cases k with
    | succ k => exact List.Subset.trans (ih k) hcons
    | zero =>
      unfold dropOrderBy
      split
      · exact List.Subset.trans (ih _) hcons
      · exact List.cons_subset_cons c (ih 0)

example : replace "aa".toList "b".toList "aaa".toList = "ba".toList := by decide

example : find "#orderby\x7b".toList "\x7d".toList "x #OrderBy\x7bid\x7d y".toList =
    some ("#OrderBy\x7bid\x7d".toList, "id".toList) := by decide

end JavaText
end CloudManager
