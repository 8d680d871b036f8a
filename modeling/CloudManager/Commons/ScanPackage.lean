/-
# The packages to scan

`checkPackage` reads a list of packages and leaves out those that are inside another
one. It keeps one set, which has the texts as they are listed at first: for each of
them it drops the dot at the end, removes from the set what is inside the package,
and adds the package unless it is inside one of the set.

`checkPackage_spec`: in whatever orders the set lists its elements, the outermost
packages are left.
-/
import Mathlib.Data.List.Nodup
import CloudManager.Lib.JavaString
import CloudManager.Lib.Outermost

namespace CloudManager
namespace ScanPackage

open JavaString JavaText

/-- A `HashSet`, of which the order of the elements says nothing. -/
structure HashSet where
  elements : List String
  nodup : elements.Nodup

namespace HashSet

instance membership : Membership String HashSet := ⟨fun s p => p ∈ s.elements⟩

def empty : HashSet := ⟨[], List.nodup_nil⟩

def add (s : HashSet) (p : String) : HashSet := ⟨s.elements.insert p, List.Nodup.insert s.nodup⟩

def remove (s : HashSet) (p : String) : HashSet := ⟨s.elements.erase p, s.nodup.erase p⟩

theorem mem_add {s : HashSet} {p x : String} : x ∈ s.add p ↔ x = p ∨ x ∈ s := List.mem_insert_iff

theorem mem_remove {s : HashSet} {p x : String} : x ∈ s.remove p ↔ x ≠ p ∧ x ∈ s :=
  s.nodup.mem_erase_iff

end HashSet

/-- `startsWith`. -/
def startsWith (s start : String) : Bool := start.toList.isPrefixOf s.toList

/-- `endsWith(".")`, and what `substring` leaves then. -/
def withoutDot (p : String) : String :=
  if p.toList.getLast? = some '.' then String.ofList p.toList.dropLast else p

/-- One round of the inner loop: `needAdd` and the set so far. -/
def visit (pInArr : String) (st : Bool × HashSet) (pack : String) : Bool × HashSet :=
  if startsWith pInArr (pack ++ ".") then (false, st.2)
  else if startsWith pack (pInArr ++ ".") then (st.1, st.2.remove pack)
  else st

/-- The body of the outer loop; `packs` are the elements as the iterator lists them. -/
def addPackage (packs : List String) (packages : HashSet) (pInArr : String) : HashSet :=
  if isBlank pInArr.toList || pInArr = "." || startsWith pInArr "." then packages
  else
    let st := packs.foldl (visit (withoutDot pInArr)) (true, packages)
    if st.1 then st.2.add (withoutDot pInArr) else st.2

/-- The outer loop. A set is iterated in an order that may be another one each time. -/
def scan (order : ℕ → HashSet → List String) : ℕ → List String → HashSet → HashSet
  | _, [], packages => packages
  | k, pInArr :: rest, packages =>
    scan order (k + 1) rest (addPackage (order k packages) packages pInArr)

def checkPackage (order : ℕ → HashSet → List String) (scanPackages : String) : HashSet :=
  if isBlank scanPackages.toList then .empty
  else
    let packages := (split ',' scanPackages).foldl HashSet.add .empty
    scan order 1 (order 0 packages) packages

/-! ### Packages -/

/-- `p` is a package inside `q`. -/
def Inside (p q : String) : Prop := q.toList ++ ['.'] <+: p.toList

instance Inside.decidable (p q : String) : Decidable (Inside p q) :=
  inferInstanceAs (Decidable (_ <+: _))

instance inside_strictOrder : IsStrictOrder String Inside where
  irrefl p h := by
    have hlen := List.IsPrefix.length_le h
    rw [List.length_append, List.length_singleton] at hlen
    omega
  trans p q r hpq hqr := hqr.trans ((List.prefix_append _ _).trans hpq)

theorem startsWith_dot {p q : String} : startsWith p (q ++ ".") = true ↔ Inside p q := by
  unfold startsWith Inside
  rw [List.isPrefixOf_iff_prefix, String.toList_append]
  rfl

/-- A dotted name: no part of it is empty, and there is no comma or blank in it. -/
def Package (name : String) : Prop :=
  (∀ part ∈ name.toList.splitOn '.', part ≠ []) ∧
    ∀ c ∈ name.toList, c ≠ ',' ∧ isWhitespace c = false

instance Package.decidable (name : String) : Decidable (Package name) :=
  inferInstanceAs (Decidable (_ ∧ _))

/-- A package as it is listed, with a dot at the end or without one. -/
def written (e : String × Bool) : String := if e.2 then e.1 ++ "." else e.1

theorem Package.ne_nil {name : String} (h : Package name) : name.toList ≠ [] := by
  intro hnil
  exact h.1 [] (by rw [hnil]; exact List.mem_singleton_self _) rfl

theorem Package.head {name : String} (h : Package name) : name.toList.head? ≠ some '.' := by
  intro hhead
  obtain ⟨rest, hrest⟩ := List.head?_eq_some_iff.mp hhead
  have hmem : [] ∈ name.toList.splitOn '.' := by
    rw [hrest, List.splitOn_cons_eq_if_modifyHead]
    exact List.mem_cons_self
  exact h.1 [] hmem rfl

theorem Package.getLast {name : String} (h : Package name) : name.toList.getLast? ≠ some '.' := by
  intro hlast
  obtain ⟨front, hfront⟩ := List.getLast?_eq_some_iff.mp hlast
  have hmem : [] ∈ name.toList.splitOn '.' := by
    rw [hfront, List.splitOn_append_cons_self]
    exact List.mem_append_right _ (List.mem_singleton_self _)
  exact h.1 [] hmem rfl

theorem withoutDot_written {e : String × Bool} (h : Package e.1) : withoutDot (written e) = e.1 := by
  obtain ⟨name, dot⟩ := e
  have hlast := h.getLast
  unfold written withoutDot
  rcases dot with _ | _
  · rw [if_neg Bool.false_ne_true, if_neg hlast]
  · rw [if_pos rfl, String.toList_append]
    simp

/-! ### The inner loop -/

theorem visit_eq (p : String) (b : Bool) (s : HashSet) (pack : String) :
    ((visit p (b, s) pack).1 = true ↔ b = true ∧ ¬ Inside p pack) ∧
    ∀ x, x ∈ (visit p (b, s) pack).2 ↔ x ∈ s ∧ ¬ (x = pack ∧ Inside x p) := by
  unfold visit
  by_cases h : Inside p pack
  · have hnot : ¬ Inside pack p := asymm h
    rw [if_pos (startsWith_dot.mpr h)]
    refine ⟨by simp [h], fun x => ?_⟩
    exact ⟨fun hx => ⟨hx, fun hp => hnot (hp.1 ▸ hp.2)⟩, fun hx => hx.1⟩
  · rw [if_neg (mt startsWith_dot.mp h)]
    by_cases h' : Inside pack p
    · rw [if_pos (startsWith_dot.mpr h')]
      refine ⟨by simp [h], fun x => ?_⟩
      rw [HashSet.mem_remove]
      exact ⟨fun hx => ⟨hx.2, fun hp => hx.1 hp.1⟩, fun hx => ⟨fun hp => hx.2 ⟨hp, hp ▸ h'⟩, hx.1⟩⟩
    · rw [if_neg (mt startsWith_dot.mp h')]
      refine ⟨by simp [h], fun x => ?_⟩
      exact ⟨fun hx => ⟨hx, fun hp => h' (hp.1 ▸ hp.2)⟩, fun hx => hx.1⟩

/-- Whether the package is to be added, and what has been removed for it. -/
theorem visits (p : String) (packs : List String) (b : Bool) (s : HashSet) :
    ((packs.foldl (visit p) (b, s)).1 = true ↔ b = true ∧ ∀ pack ∈ packs, ¬ Inside p pack) ∧
    ∀ x, x ∈ (packs.foldl (visit p) (b, s)).2 ↔ x ∈ s ∧ ¬ (x ∈ packs ∧ Inside x p) := by
  induction packs generalizing b s with
  | nil => simp
  | cons pack packs ih =>
    obtain ⟨hadd, hleft⟩ := visit_eq p b s pack
    obtain ⟨hadds, hlefts⟩ := ih (visit p (b, s) pack).1 (visit p (b, s) pack).2
    constructor
    · rw [List.foldl_cons, hadds, hadd, List.forall_mem_cons, and_assoc]
    · intro x
      rw [List.foldl_cons, hlefts, hleft, List.mem_cons, or_and_right, not_or, and_assoc]

/-- A listed package passes the first check, for its text begins with no dot. -/
theorem accepted {e : String × Bool} (he : Package e.1) :
    (isBlank (written e).toList || written e = "." || startsWith (written e) ".") = false := by
  obtain ⟨c, rest, hname⟩ := List.exists_cons_of_ne_nil he.ne_nil
  have hc : c ≠ '.' := fun h => he.head (by rw [hname, h]; rfl)
  have hblank : isWhitespace c = false := (he.2 c (by rw [hname]; exact List.mem_cons_self)).2
  obtain ⟨more, hmore⟩ : ∃ more, (written e).toList = c :: more := by
    unfold written
    split
    · rw [String.toList_append, hname]
      exact ⟨_, rfl⟩
    · exact ⟨rest, hname⟩
  have hdot : written e ≠ "." := fun h => by
    rw [h] at hmore
    exact hc (List.cons.inj hmore).1.symm
  have hstart : startsWith (written e) "." = false := by
    unfold startsWith
    rw [hmore]
    simp [List.isPrefixOf, Ne.symm hc]
  have hnotBlank : isBlank (written e).toList = false := by
    unfold isBlank
    rw [hmore, List.all_cons, hblank]
    rfl
  rw [hnotBlank, hstart, decide_eq_false hdot]
  rfl

/-- A package that is listed is put into the set. -/
theorem mem_addPackage {e : String × Bool} (he : Package e.1) {packs : List String} {s : HashSet}
    (h : packs.Perm s.elements) (x : String) :
    x ∈ addPackage packs s (written e) ↔ x ∈ Outermost.put Inside {x | x ∈ s} e.1 := by
  obtain ⟨hadd, hleft⟩ := visits e.1 packs true s
  have hpacks : ∀ y, y ∈ packs ↔ y ∈ s := fun y => h.mem_iff
  have hstays : ∀ y, y ∈ (packs.foldl (visit e.1) (true, s)).2 ↔ y ∈ s ∧ ¬ Inside y e.1 := by
    intro y
    rw [hleft, hpacks, not_and]
    exact and_congr_right fun hy => ⟨fun h => h hy, fun h _ => h⟩
  have hneedAdd : (packs.foldl (visit e.1) (true, s)).1 = true ↔ ∀ y ∈ s, ¬ Inside e.1 y := by
    rw [hadd]
    exact ⟨fun h y hy => h.2 y ((hpacks y).mpr hy), fun h => ⟨rfl, fun y hy => h y ((hpacks y).mp hy)⟩⟩
  unfold addPackage
  rw [if_neg (by rw [accepted he]; exact Bool.false_ne_true), withoutDot_written he]
  show x ∈ (if (packs.foldl (visit e.1) (true, s)).1 then _ else _) ↔
    x ∈ s ∧ ¬ Inside x e.1 ∨ x = e.1 ∧ ∀ y ∈ s, ¬ Inside e.1 y
  by_cases hneed : (packs.foldl (visit e.1) (true, s)).1 = true
  · rw [if_pos hneed, HashSet.mem_add, hstays, or_comm]
    exact or_congr_right ⟨fun hx => ⟨hx, hneedAdd.mp hneed⟩, fun hx => hx.1⟩
  · rw [if_neg hneed, hstays]
    exact ⟨.inl, fun hx => hx.resolve_right fun hp => hneed (hneedAdd.mpr hp.2)⟩

/-! ### The outer loop -/

variable {order : ℕ → HashSet → List String}

theorem mem_scan (horder : ∀ k s, (order k s).Perm s.elements) {l : List String}
    (hl : ∀ p ∈ l, ∃ e, Package e.1 ∧ written e = p) (k : ℕ) (s : HashSet) :
    {x | x ∈ scan order k l s} = (l.map withoutDot).foldl (Outermost.put Inside) {x | x ∈ s} := by
  induction l generalizing k s with
  | nil => rfl
  | cons p l ih =>
    obtain ⟨⟨e, he, rfl⟩, hrest⟩ := List.forall_mem_cons.mp hl
    have hput : {x | x ∈ addPackage (order k s) s (written e)} =
        Outermost.put Inside {x | x ∈ s} e.1 := Set.ext fun x => mem_addPackage he (horder k s) x
    rw [List.map_cons, List.foldl_cons, withoutDot_written he, ← hput]
    exact ih hrest (k + 1) _

theorem mem_addAll (l : List String) (s : HashSet) (x : String) :
    x ∈ l.foldl HashSet.add s ↔ x ∈ l ∨ x ∈ s := by
  induction l generalizing s with
  | nil => simp
  | cons p l ih => rw [List.foldl_cons, ih, HashSet.mem_add, List.mem_cons, or_left_comm, or_assoc]

/-- What the packages are read from. -/
def text (listed : List (String × Bool)) : String := join ',' (listed.map written)

variable {listed : List (String × Bool)}

theorem split_text (hne : listed ≠ []) (h : ∀ e ∈ listed, Package e.1) :
    split ',' (text listed) = listed.map written := by
  unfold text
  rw [split_join_iff (by simpa using hne)]
  refine ⟨fun s hs => ?_, .inr fun hlast => ?_⟩
  · obtain ⟨e, he, rfl⟩ := List.mem_map.mp hs
    intro hcomma
    unfold written at hcomma
    split at hcomma
    · rw [String.toList_append, List.mem_append] at hcomma
      rcases hcomma with hcomma | hcomma
      · exact ((h e he).2 ',' hcomma).1 rfl
      · exact absurd hcomma (by decide)
    · exact ((h e he).2 ',' hcomma).1 rfl
  · obtain ⟨e, he, hempty⟩ := List.mem_map.mp (List.mem_of_getLast? hlast)
    have haccepted := accepted (h e he)
    rw [hempty] at haccepted
    exact absurd haccepted (by decide)

theorem not_isBlank_text (hne : listed ≠ []) (h : ∀ e ∈ listed, Package e.1) :
    isBlank (text listed).toList = false := by
  obtain ⟨e, rest, rfl⟩ := List.exists_cons_of_ne_nil hne
  have haccepted := accepted (h e List.mem_cons_self)
  rw [Bool.or_eq_false_iff, Bool.or_eq_false_iff] at haccepted
  obtain ⟨more, hmore⟩ := exists_join_cons ',' (written e) (rest.map written)
  unfold text
  rw [List.map_cons, hmore]
  unfold isBlank at *
  rw [List.all_append, haccepted.1.1]
  rfl

/-- What is listed, or what one that is listed is called. -/
theorem eq_or_inside {x : String} (h : x ∈ listed.map written) :
    ∃ q ∈ listed.map Prod.fst, x = q ∨ Inside x q := by
  obtain ⟨⟨q, dot⟩, he, rfl⟩ := List.mem_map.mp h
  refine ⟨q, List.mem_map_of_mem he, ?_⟩
  unfold written
  rcases dot with _ | _
  · exact .inl rfl
  · right
    rw [if_pos rfl]
    unfold Inside
    rw [String.toList_append]
    exact List.prefix_refl _

/-- **The packages left** are the listed ones inside no other listed one. None of them is
inside another one, and every listed one is one of them or inside one. -/
theorem checkPackage_spec (horder : ∀ k s, (order k s).Perm s.elements) (hne : listed ≠ [])
    (hlisted : ∀ e ∈ listed, Package e.1) :
    (∀ x, x ∈ checkPackage order (text listed) ↔
      x ∈ listed.map Prod.fst ∧ ∀ q ∈ listed.map Prod.fst, ¬ Inside x q) ∧
    (∀ x ∈ checkPackage order (text listed), ∀ y ∈ checkPackage order (text listed), ¬ Inside x y) ∧
    ∀ q ∈ listed.map Prod.fst, ∃ x ∈ checkPackage order (text listed), q = x ∨ Inside q x := by
  let packages := (listed.map written).foldl HashSet.add .empty
  have hpackages : ∀ p, p ∈ order 0 packages ↔ p ∈ listed.map written := by
    intro p
    rw [(horder 0 packages).mem_iff]
    show p ∈ packages ↔ _
    rw [mem_addAll]
    exact or_iff_left List.not_mem_nil
  have hwritten : ∀ p ∈ order 0 packages, ∃ e, Package e.1 ∧ written e = p := by
    intro p hp
    obtain ⟨e, he, rfl⟩ := List.mem_map.mp ((hpackages p).mp hp)
    exact ⟨e, hlisted e he, rfl⟩
  have hresult : checkPackage order (text listed) = scan order 1 (order 0 packages) packages := by
    unfold checkPackage
    rw [not_isBlank_text hne hlisted, if_neg Bool.false_ne_true, split_text hne hlisted]
  have hnames : {x | x ∈ (order 0 packages).map withoutDot} = {q | q ∈ listed.map Prod.fst} := by
    ext q
    constructor
    · intro hq
      obtain ⟨p, hp, rfl⟩ := List.mem_map.mp hq
      obtain ⟨e, he, rfl⟩ := List.mem_map.mp ((hpackages p).mp hp)
      rw [withoutDot_written (hlisted e he)]
      exact List.mem_map_of_mem he
    · intro hq
      obtain ⟨e, he, rfl⟩ := List.mem_map.mp hq
      have hp := (hpackages (written e)).mpr (List.mem_map_of_mem he)
      exact List.mem_map.mpr ⟨_, hp, withoutDot_written (hlisted e he)⟩
  have hstart : Outermost.Settled Inside ∅ {x | x ∈ packages} := Outermost.settled_empty _
  have hsettled := hstart.foldl ((order 0 packages).map withoutDot)
  rw [hnames, Set.union_empty] at hsettled
  -- a text with a dot at the end is inside its own package, and so it is not left
  have hleft : {x | x ∈ scan order 1 (order 0 packages) packages} ⊆ {q | q ∈ listed.map Prod.fst} := by
    rw [mem_scan horder hwritten]
    intro x hx
    rcases Outermost.mem_foldl_put hx with hmem | hmem
    · obtain ⟨q, hq, rfl | hin⟩ := eq_or_inside ((mem_addAll _ _ x).mp hmem |>.resolve_right nofun)
      · exact hq
      · exact (hsettled.clear q hq x hx hin).elim
    · rw [← hnames]
      exact hmem
  rw [← mem_scan horder hwritten 1] at hsettled
  have hmem := hsettled.mem_iff hleft
  rw [hresult]
  exact ⟨hmem, fun x hx y hy => ((hmem x).mp hx).2 y (hleft hy), hsettled.cover⟩

/-- `a.b.,a.bc,a.b.c,a.b`: the set has two texts of the package `a.b`. -/
theorem checkPackage_four :
    "a.bc" ∈ checkPackage (fun _ s => s.elements)
        (text [("a.b", true), ("a.bc", false), ("a.b.c", false), ("a.b", false)]) ∧
      "a.b.c" ∉ checkPackage (fun _ s => s.elements)
        (text [("a.b", true), ("a.bc", false), ("a.b.c", false), ("a.b", false)]) := by
  obtain ⟨hmem, -, -⟩ := checkPackage_spec (fun _ s => List.Perm.refl s.elements)
    (List.cons_ne_nil ("a.b", true) [("a.bc", false), ("a.b.c", false), ("a.b", false)]) (by decide)
  exact ⟨(hmem "a.bc").mpr (by decide), fun h => absurd ((hmem "a.b.c").mp h) (by decide)⟩

example : (checkPackage (fun _ s => s.elements) "a.b.,a.bc,a.b.c,a.b").elements = ["a.b", "a.bc"] := by
  decide

end ScanPackage
end CloudManager
