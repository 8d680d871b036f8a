/-
# The objects of joined rows

What the handler has made of the rows it has seen. `Holds`: an object is the first
row of its group and holds the objects of the groups nested in it, each found again
under its key. `getRowValue_spec`: a row joins the objects it belongs to or makes
them, and changes no others (`Frame`).

What carries the proof: the keys in which the handler works on behalf of a row are
those within the row's key, and an object is older than the objects it refers to.
-/
import Mathlib.Data.List.ReduceOption
import CloudManager.Commons.RowKeys
import CloudManager.Lib.Grouping

namespace CloudManager
namespace ResultSetHandler

open Grouping

variable {V : Type*}

/-! ### What a step of the handler leaves alone -/

structure Inv (s : Handler V) : Prop where
  bound : ∀ k a, s.nestedResultObjects k = some a → a < s.objects.length
  inj : ∀ k k' a, s.nestedResultObjects k = some a → s.nestedResultObjects k' = some a → k = k'

/-- The objects under way are those of the maps around. -/
def Anc (around : List String) (s : Handler V) : Prop :=
  ∀ id ∉ around, s.ancestorObjects id = none

/-- Only objects under the keys `K` or in `A` change, and only keys in `K` are set, to new
objects or to those of `A`. -/
structure Frame (K : CacheKey V → Prop) (A : ℕ → Prop) (s s' : Handler V) : Prop where
  le : s.objects.length ≤ s'.objects.length
  objects : ∀ b < s.objects.length, ¬ A b → (∀ k, K k → s.nestedResultObjects k ≠ some b) →
    s'.objects[b]? = s.objects[b]?
  keys : ∀ k, ¬ K k → s'.nestedResultObjects k = s.nestedResultObjects k
  origin : ∀ k b, s'.nestedResultObjects k = some b →
    s.nestedResultObjects k = some b ∨ s.objects.length ≤ b ∨ A b

section
variable {K K' : CacheKey V → Prop} {A A' : ℕ → Prop} {s s' s'' : Handler V}

/-- The objects under way are in no frame. -/
theorem Frame.of_eq (ho : s'.objects = s.objects)
    (hk : s'.nestedResultObjects = s.nestedResultObjects) : Frame K A s s' where
  le := Nat.le_of_eq (congrArg List.length ho).symm
  objects := fun b _ _ _ => by rw [ho]
  keys := fun k _ => by rw [hk]
  origin := fun k b hb => .inl (hk ▸ hb)

theorem Frame.trans (h : Frame K A s s') (h' : Frame K A s' s'') : Frame K A s s'' where
  le := Nat.le_trans h.le h'.le
  objects := by
    intro b hb hA hK
    have hK' : ∀ k, K k → s'.nestedResultObjects k ≠ some b := fun k hk he => by
      rcases h.origin k b he with he | hle | ha
      · exact hK k hk he
      · omega
      · exact hA ha
    rw [h'.objects b (Nat.lt_of_lt_of_le hb h.le) hA hK', h.objects b hb hA hK]
  keys := fun k hk => (h'.keys k hk).trans (h.keys k hk)
  origin := by
    intro k b he
    have := h.le
    rcases h'.origin k b he with he | hle | ha
    · exact h.origin k b he
    · exact .inr (.inl (by omega))
    · exact .inr (.inr ha)

theorem Frame.mono (h : Frame K A s s') (hK : ∀ k, K k → K' k) (hA : ∀ a, A a → A' a) :
    Frame K' A' s s' where
  le := h.le
  objects := fun b hb ha hk => h.objects b hb (fun h' => ha (hA b h')) fun k h' => hk k (hK k h')
  keys := fun k hk => h.keys k fun h' => hk (hK k h')
  origin := by
    intro k b he
    rcases h.origin k b he with he | hle | ha
    · exact .inl he
    · exact .inr (.inl hle)
    · exact .inr (.inr (hA b ha))

theorem Frame.changeLink (s : Handler V) (a : ℕ) (property : String) (f : Link ℕ → Link ℕ) :
    Frame K (· = a) s (s.changeLink a property f) where
  le := Nat.le_of_eq (List.length_modify ..).symm
  objects := fun b _ hb _ => by
    show (s.objects.modify a _)[b]? = _
    rw [List.getElem?_modify]
    simp only [if_neg fun h : a = b => hb h.symm]
    exact id_map' _
  keys := fun _ _ => rfl
  origin := fun _ _ => .inl

theorem Frame.create (s : Handler V) (o : Object V) : Frame K A s (s.create o) where
  le := by
    show _ ≤ (s.objects ++ [o]).length
    simp
  objects := fun b hb _ _ => List.getElem?_append_left hb
  keys := fun _ _ => rfl
  origin := fun _ _ => .inl

theorem Inv.changeLink {a : ℕ} {property : String} {f : Link ℕ → Link ℕ} (h : Inv s) :
    Inv (s.changeLink a property f) where
  bound := fun k b hb => by
    show _ < (s.objects.modify a _).length
    rw [List.length_modify]
    exact h.bound k b hb
  inj := h.inj

theorem getElem?_changeLink {a : ℕ} {property : String} {f : Link ℕ → Link ℕ}
    {o : Object V} (ho : s.objects[a]? = some o) :
    (s.changeLink a property f).objects[a]? =
      some { o with links := Function.update o.links property (f (o.links property)) } := by
  show (s.objects.modify a _)[a]? = _
  rw [List.getElem?_modify_eq, ho]
  rfl

/-- The object is the one under its key, and under no other. -/
structure Owned (s : Handler V) (κ : Option (CacheKey V)) (a : ℕ) : Prop where
  key : ∀ k, κ = some k → s.nestedResultObjects k = some a
  only : ∀ k, s.nestedResultObjects k = some a → κ = some k

theorem Owned.apart {κ : Option (CacheKey V)} {b : ℕ} (h : Owned s κ b)
    (hK : ∀ k, region κ k → ¬ K k) : ∀ k, K k → s.nestedResultObjects k ≠ some b :=
  fun k hk he => hK k ⟨k, h.only k he, Within.refl k⟩ hk

theorem Owned.frame {κ : Option (CacheKey V)} {b : ℕ} (h : Owned s κ b) (hF : Frame K A s s')
    (hb : b < s.objects.length) (hA : ¬ A b) (hK : ∀ k, region κ k → ¬ K k) : Owned s' κ b where
  key := fun k hk => by
    rw [hF.keys k (hK k ⟨k, hk, Within.refl k⟩)]
    exact h.key k hk
  only := fun k hk => by
    rcases hF.origin k b hk with hk | hle | ha
    · exact h.only k hk
    · omega
    · exact absurd ha hA

end

/-! ### What the handler holds -/

variable [DecidableEq V]

/-- A group of rows, and the object made for it. -/
abbrev Made (V : Type*) := (Option (CacheKey V) × List (Row V)) × Option ℕ

/-- The objects made of `rows`, in groups by `key`: a group has one if its first row has
values, it is no older than `lo`, and nothing is known under the keys of other rows. -/
structure Family (s : Handler V) (H : Option (CacheKey V) → List (Row V) → ℕ → Prop)
    (fnd : Row V → Bool) (key : Row V → Option (CacheKey V)) (lo : ℕ) (rows : List (Row V))
    (fam : List (Made V)) : Prop where
  groups_eq : fam.map Prod.fst = groups key rows
  notFound : ∀ e ∈ fam, e.2 = none → fnd (first e.1.2) = false
  made : ∀ e ∈ fam, ∀ b, e.2 = some b →
    fnd (first e.1.2) = true ∧ lo ≤ b ∧ b < s.objects.length ∧ Owned s e.1.1 b ∧ H e.1.1 e.1.2 b
  unknown : ∀ row k, key row = some k → some k ∉ (groups key rows).map Prod.fst →
    ∀ k', Within k k' → s.nestedResultObjects k' = none

mutual

/-- **The object `a` is what the rows of a group give.** -/
def Holds (q : Query) (s : Handler V) : ResultMap → Option String → Option (CacheKey V) →
    List (Row V) → ℕ → Prop
  | .mk _ mappings autoMappings _ nested, columnPrefix, κ, rows, a =>
    ∃ o, s.objects[a]? = some o ∧
      o.values = (rowValues q mappings autoMappings columnPrefix (first rows)).1 ∧
      HoldsNested q s nested columnPrefix κ rows o.links a

def HoldsNested (q : Query) (s : Handler V) : NestedMaps → Option String →
    Option (CacheKey V) → List (Row V) → (String → Link ℕ) → ℕ → Prop
  | .nil, _, _, _, _, _ => True
  | .cons n m rest, parentPrefix, κ, rows, links, a =>
    (∃ fam, links n.property = (if rows = [] then .null else
          .ofList n.isCollection (fam.map Prod.snd).reduceOption) ∧
        Family s (fun κ' rows' b => Holds q s m (getColumnPrefix parentPrefix n) κ' rows' b)
          (found q m (getColumnPrefix parentPrefix n))
          (nestedKey q m (getColumnPrefix parentPrefix n) κ) (a + 1)
          (rows.filter (anyNotNullColumnHasValue q n (getColumnPrefix parentPrefix n))) fam) ∧
      HoldsNested q s rest parentPrefix κ rows links a

end

/-! ### A step keeps what other rows made -/

theorem key_first {key : Row V → Option (CacheKey V)} {rows : List (Row V)}
    {g : Option (CacheKey V) × List (Row V)} (h : g ∈ groups key rows) : key (first g.2) = g.1 := by
  obtain ⟨hne, hkey, -⟩ := mem_groups h
  obtain ⟨row, tail, he⟩ := List.exists_cons_of_ne_nil hne
  rw [he]
  exact (hkey row (by rw [he]; simp)).1

section
variable {K : CacheKey V → Prop} {A : ℕ → Prop} {s s' : Handler V}
  {H H' : Option (CacheKey V) → List (Row V) → ℕ → Prop} {fnd : Row V → Bool}
  {key : Row V → Option (CacheKey V)} {lo : ℕ} {rows : List (Row V)} {fam : List (Made V)}

theorem Family.key_of_mem (h : Family s H fnd key lo rows fam) {e : Made V} (he : e ∈ fam) :
    key (first e.1.2) = e.1.1 :=
  key_first (h.groups_eq ▸ List.mem_map_of_mem he)

/-- A family keeps its objects in a step that has other keys. -/
theorem Family.frame (h : Family s H fnd key lo rows fam) (hF : Frame K A s s')
    (hA : ∀ b, lo ≤ b → ¬ A b) (hK : ∀ row k, region (key row) k → ¬ K k)
    (hH : ∀ e ∈ fam, ∀ b, lo ≤ b → b < s.objects.length →
      (∀ k, K k → s.nestedResultObjects k ≠ some b) → H e.1.1 e.1.2 b → H' e.1.1 e.1.2 b) :
    Family s' H' fnd key lo rows fam where
  groups_eq := h.groups_eq
  notFound := h.notFound
  made := by
    intro e he b hb
    obtain ⟨hfnd, hlo, hlt, hown, hh⟩ := h.made e he b hb
    have hKe : ∀ k, region e.1.1 k → ¬ K k := fun k hk =>
      hK (first e.1.2) k (h.key_of_mem he ▸ hk)
    exact ⟨hfnd, hlo, Nat.lt_of_lt_of_le hlt hF.le, hown.frame hF hlt (hA b hlo) hKe,
      hH e he b hlo hlt (hown.apart hKe) hh⟩
  unknown := by
    intro row k hk hmem k' hw
    rw [hF.keys k' (hK row k' ⟨k, hk, hw⟩)]
    exact h.unknown row k hk hmem k' hw

end

section
variable {q : Query} {K : CacheKey V → Prop} {A : ℕ → Prop} {s s' : Handler V}

mutual

/-- **An object keeps what it holds in a step that has other keys.** -/
theorem Holds.frame (hF : Frame K A s s') : ∀ {m : ResultMap} {columnPrefix : Option String}
    {κ : Option (CacheKey V)} {rows : List (Row V)} {a : ℕ},
    Holds q s m columnPrefix κ rows a → (∀ k, region κ k → ¬ K k) → (∀ b, a ≤ b → ¬ A b) →
    a < s.objects.length → (∀ k, K k → s.nestedResultObjects k ≠ some a) →
    Holds q s' m columnPrefix κ rows a
  | .mk _ _ _ _ nested, columnPrefix, κ, rows, a, h, hK, hA, hlt, hne => by
    obtain ⟨o, ho, hv, hn⟩ := h
    refine ⟨o, ?_, hv, ?_⟩
    · rw [hF.objects a hlt (hA a (Nat.le_refl a)) hne]
      exact ho
    · exact HoldsNested.frame hF hn (fun k hk => hK k (region_of_scope hk).1)
        (fun b hb => hA b (Nat.le_of_lt hb)) fun _ _ => rfl

theorem HoldsNested.frame (hF : Frame K A s s') : ∀ {ns : NestedMaps}
    {parentPrefix : Option String} {κ : Option (CacheKey V)} {rows : List (Row V)}
    {links links' : String → Link ℕ} {a : ℕ},
    HoldsNested q s ns parentPrefix κ rows links a →
    (∀ k, scope q ns parentPrefix κ k → ¬ K k) → (∀ b, a < b → ¬ A b) →
    (∀ x ∈ ns.toList, links' x.1.property = links x.1.property) →
    HoldsNested q s' ns parentPrefix κ rows links' a
  | .nil, _, _, _, _, _, _, _, _, _, _ => trivial
  | .cons n m rest, parentPrefix, κ, rows, links, links', a, h, hK, hA, hl => by
    obtain ⟨⟨fam, hlink, hfam⟩, hrest⟩ := h
    have hmem : (n, m) ∈ (NestedMaps.cons n m rest).toList := List.mem_cons_self
    have hKn : ∀ row k, region (nestedKey q m (getColumnPrefix parentPrefix n) κ row) k → ¬ K k :=
      fun row k hk => hK k ⟨(n, m), hmem, row, hk⟩
    refine ⟨⟨fam, (hl _ hmem).trans hlink, ?_⟩, ?_⟩
    · refine hfam.frame hF (fun b hb => hA b (by omega)) hKn fun e he b hlo hlt hne hh => ?_
      have hKe : ∀ k, region e.1.1 k → ¬ K k := fun k hk =>
        hKn (first e.1.2) k (hfam.key_of_mem he ▸ hk)
      exact Holds.frame hF hh hKe (fun b' hb' => hA b' (by omega)) hlt hne
    · refine HoldsNested.frame hF hrest (fun k hk => hK k ?_) hA fun x hx =>
        hl x (List.mem_cons_of_mem _ hx)
      obtain ⟨x, hx, row, hr⟩ := hk
      exact ⟨x, List.mem_cons_of_mem _ hx, row, hr⟩

end

end

/-! ### A row of a family -/

structure Step (K : CacheKey V → Prop) (A : ℕ → Prop) (around : List String)
    (s s' : Handler V) : Prop where
  frame : Frame K A s s'
  inv : Inv s'
  anc : Anc around s'

/-- What `getRowValue` does: it makes the object of a row, or passes the row to the object
known under its key. -/
structure Spec (q : Query) (V : Type*) [DecidableEq V] (m : ResultMap)
    (columnPrefix : Option String) (around : List String) : Prop where
  new : ∀ (row : Row V) (κ : Option (CacheKey V)) (s : Handler V), Inv s → Anc around s →
    (∀ k, region κ k → s.nestedResultObjects k = none) →
    (κ.isSome = true → found q m columnPrefix row = true) →
    Step (region κ) (fun _ => False) around s (getRowValue q row m κ columnPrefix none s).2 ∧
    (getRowValue q row m κ columnPrefix none s).1 =
      (if found q m columnPrefix row then some s.objects.length else none) ∧
    (found q m columnPrefix row = true →
      s.objects.length < (getRowValue q row m κ columnPrefix none s).2.objects.length ∧
      Owned (getRowValue q row m κ columnPrefix none s).2 κ s.objects.length ∧
      Holds q (getRowValue q row m κ columnPrefix none s).2 m columnPrefix κ [row]
        s.objects.length)
  known : ∀ (row : Row V) (k : CacheKey V) (s : Handler V) (rows : List (Row V)) (a : ℕ),
    Inv s → Anc around s → rows ≠ [] → a < s.objects.length → Owned s (some k) a →
    Holds q s m columnPrefix (some k) rows a →
    Step (region (some k)) (fun _ => False) around s
      (getRowValue q row m (some k) columnPrefix (some a) s).2 ∧
    (getRowValue q row m (some k) columnPrefix (some a) s).1 = some a ∧
    Owned (getRowValue q row m (some k) columnPrefix (some a) s).2 (some k) a ∧
    Holds q (getRowValue q row m (some k) columnPrefix (some a) s).2 m columnPrefix (some k)
      (rows ++ [row]) a

section
variable {q : Query} {m : ResultMap} {columnPrefix : Option String} {around : List String}
  {s : Handler V} {key : Row V → Option (CacheKey V)} {lo : ℕ} {rows : List (Row V)}
  {fam : List (Made V)}

/-- An object of another key than that of the step stays as it is. -/
theorem Family.made_frame (h : Family s (Holds q s m columnPrefix) (found q m columnPrefix) key
      lo rows fam) {K : CacheKey V → Prop} {s' : Handler V}
    (hF : Frame K (fun _ => False) s s') {e : Made V} (he : e ∈ fam)
    (hK : ∀ k, region e.1.1 k → ¬ K k) {b : ℕ} (hb : e.2 = some b) :
    found q m columnPrefix (first e.1.2) = true ∧ lo ≤ b ∧ b < s'.objects.length ∧
      Owned s' e.1.1 b ∧ Holds q s' m columnPrefix e.1.1 e.1.2 b := by
  obtain ⟨hf, hlo, hlt, hown, hh⟩ := h.made e he b hb
  exact ⟨hf, hlo, Nat.lt_of_lt_of_le hlt hF.le, hown.frame hF hlt id hK,
    hh.frame hF hK (fun _ _ => id) hlt (hown.apart hK)⟩

/-- A row whose key is that of a group joins the object of the group. -/
theorem Family.step_known (hspec : Spec q V m columnPrefix around)
    (h : Family s (Holds q s m columnPrefix) (found q m columnPrefix) key lo rows fam)
    (hI : Inv s) (hA : Anc around s)
    (hd : ∀ row row' k k', key row = some k → key row' = some k' → depth k = depth k')
    (hkeyed : ∀ row k, key row = some k → found q m columnPrefix row = true)
    (row : Row V) {k : CacheKey V} (hk : key row = some k)
    (hmem : some k ∈ (groups key rows).map Prod.fst) :
    ∃ a fam', s.nestedResultObjects k = some a ∧
      (getRowValue q row m (some k) columnPrefix (some a) s).1 = some a ∧
      Step (region (some k)) (fun _ => False) around s
        (getRowValue q row m (some k) columnPrefix (some a) s).2 ∧
      fam'.map Prod.snd = fam.map Prod.snd ∧
      Family (getRowValue q row m (some k) columnPrefix (some a) s).2
        (Holds q (getRowValue q row m (some k) columnPrefix (some a) s).2 m columnPrefix)
        (found q m columnPrefix) key lo (rows ++ [row]) fam' := by
  -- each entry of the key has the object known under it
  have hentry : ∀ e ∈ fam, e.1.1 = some k → ∃ b, e.2 = some b ∧
      s.nestedResultObjects k = some b := by
    intro e he hek
    rcases hb : e.2 with _ | b
    · have hn := h.notFound e he hb
      rw [hkeyed (first e.1.2) k ((h.key_of_mem he).trans hek)] at hn
      cases hn
    · exact ⟨b, rfl, (h.made e he b hb).2.2.2.1.key k hek⟩
  rw [← h.groups_eq, List.map_map] at hmem
  obtain ⟨e₀, he₀, hek₀⟩ := List.mem_map.mp hmem
  obtain ⟨a, ha, hka⟩ := hentry e₀ he₀ hek₀
  have hcall : ∀ e ∈ fam, e.1.1 = some k →
      e.2 = some a ∧ e.1.2 ≠ [] ∧ found q m columnPrefix (first e.1.2) = true ∧ lo ≤ a ∧
        a < s.objects.length ∧ Owned s (some k) a ∧ Holds q s m columnPrefix (some k) e.1.2 a := by
    intro e he hek
    obtain ⟨b, hb, hkb⟩ := hentry e he hek
    cases hka.symm.trans hkb
    obtain ⟨hf, hlo, hlt, hown, hh⟩ := h.made e he a hb
    have hg : e.1 ∈ groups key rows := h.groups_eq ▸ List.mem_map_of_mem he
    exact ⟨hb, (mem_groups hg).1, hf, hlo, hlt, hek ▸ hown, hek ▸ hh⟩
  obtain ⟨-, hne₀, -, -, hlt, hown, hh₀⟩ := hcall e₀ he₀ hek₀
  obtain ⟨hstep, hfst, -, -⟩ := hspec.known row k s _ a hI hA hne₀ hlt hown hh₀
  refine ⟨a, fam.map fun e => if e.1.1 = some k then ((e.1.1, e.1.2 ++ [row]), e.2) else e,
    hka, hfst, hstep, ?_, ?_⟩
  · rw [List.map_map]
    refine List.map_congr_left fun e _ => ?_
    show (if e.1.1 = some k then ((e.1.1, e.1.2 ++ [row]), e.2) else e).2 = e.2
    split <;> rfl
  · have hkeep : ∀ e ∈ fam, e.1.1 ≠ some k → ∀ k', region e.1.1 k' → ¬ region (some k) k' := by
      intro e he hne k' hr
      have hke := h.key_of_mem he
      rw [← hk]
      exact apart_of_ne hd (fun h' => absurd (hke.symm.trans (h'.trans hk)) hne) k' (hke ▸ hr)
    refine ⟨?_, ?_, ?_, ?_⟩
    · rw [groups_concat, insert_known hk (h.groups_eq ▸ by
        rw [List.map_map]; exact List.mem_map.mpr ⟨e₀, he₀, hek₀⟩), ← h.groups_eq, List.map_map,
        List.map_map]
      refine List.map_congr_left fun e _ => ?_
      show (if e.1.1 = some k then ((e.1.1, e.1.2 ++ [row]), e.2) else e).1 =
        if e.1.1 = some k then (e.1.1, e.1.2 ++ [row]) else e.1
      split <;> rfl
    · intro e' he' hnone
      obtain ⟨e, he, rfl⟩ := List.mem_map.mp he'
      by_cases hek : e.1.1 = some k
      · rw [if_pos hek] at hnone
        cases (hcall e he hek).1.symm.trans hnone
      · rw [if_neg hek] at hnone ⊢
        exact h.notFound e he hnone
    · intro e' he' b hb
      obtain ⟨e, he, rfl⟩ := List.mem_map.mp he'
      by_cases hek : e.1.1 = some k
      · rw [if_pos hek] at hb ⊢
        obtain ⟨hea, hne, hf, hlo, hlt, hown, hh⟩ := hcall e he hek
        cases hea.symm.trans hb
        obtain ⟨hstep, -, hown', hh'⟩ := hspec.known row k s _ a hI hA hne hlt hown hh
        have hfirst : first (e.1.2 ++ [row]) = first e.1.2 := by
          obtain ⟨r, t, hrt⟩ := List.exists_cons_of_ne_nil hne
          rw [hrt]
          rfl
        refine ⟨?_, hlo, Nat.lt_of_lt_of_le hlt hstep.frame.le, hek ▸ hown', hek ▸ hh'⟩
        show found q m columnPrefix (first (e.1.2 ++ [row])) = true
        rw [hfirst]
        exact hf
      · rw [if_neg hek] at hb ⊢
        exact h.made_frame hstep.frame he (hkeep e he hek) hb
    · intro row' k' hk' hnew k'' hw
      have hmem : some k ∈ (groups key rows).map Prod.fst := by
        rw [← h.groups_eq, List.map_map]
        exact List.mem_map.mpr ⟨e₀, he₀, hek₀⟩
      rw [groups_concat, keys_insert_known hk hmem] at hnew
      have hne : key row' = key row → key row' = none := fun he => by
        rw [hk'] at he
        rw [he, hk] at hnew
        exact absurd hmem hnew
      rw [hstep.frame.keys k'' (hk ▸ apart_of_ne hd hne k'' ⟨k', hk', hw⟩)]
      exact h.unknown row' k' hk' hnew k'' hw

/-- A row without a group begins one. -/
theorem Family.step_new (hspec : Spec q V m columnPrefix around)
    (h : Family s (Holds q s m columnPrefix) (found q m columnPrefix) key lo rows fam)
    (hI : Inv s) (hA : Anc around s) (hlo : lo ≤ s.objects.length)
    (hd : ∀ row row' k k', key row = some k → key row' = some k' → depth k = depth k')
    (hkeyed : ∀ row k, key row = some k → found q m columnPrefix row = true)
    (row : Row V) (hnew : ∀ k, key row = some k → some k ∉ (groups key rows).map Prod.fst) :
    (key row).bind s.nestedResultObjects = none ∧
      (getRowValue q row m (key row) columnPrefix none s).1 =
        (if found q m columnPrefix row then some s.objects.length else none) ∧
      Step (region (key row)) (fun _ => False) around s
        (getRowValue q row m (key row) columnPrefix none s).2 ∧
      Family (getRowValue q row m (key row) columnPrefix none s).2
        (Holds q (getRowValue q row m (key row) columnPrefix none s).2 m columnPrefix)
        (found q m columnPrefix) key lo (rows ++ [row])
        (fam ++ [((key row, [row]), (getRowValue q row m (key row) columnPrefix none s).1)]) := by
  have hunknown : ∀ k, region (key row) k → s.nestedResultObjects k = none := by
    rintro k ⟨k₀, hk₀, hw⟩
    exact h.unknown row k₀ hk₀ (hnew k₀ hk₀) k hw
  obtain ⟨hstep, hfst, hmade⟩ := hspec.new row (key row) s hI hA hunknown fun hs => by
    obtain ⟨k, hk⟩ := Option.isSome_iff_exists.mp hs
    exact hkeyed row k hk
  refine ⟨?_, hfst, hstep, ?_, ?_, ?_, ?_⟩
  · rcases hk : key row with _ | k
    · rfl
    · exact hunknown k ⟨k, hk, Within.refl k⟩
  · rw [groups_concat, insert_new hnew, ← h.groups_eq, List.map_append]
    rfl
  · intro e he hnone
    rcases List.mem_append.mp he with he | he
    · exact h.notFound e he hnone
    · rw [List.mem_singleton.mp he, hfst] at hnone
      rw [List.mem_singleton.mp he]
      show found q m columnPrefix row = false
      by_contra hf
      rw [if_pos (by simpa using hf)] at hnone
      cases hnone
  · intro e he b hb
    rcases List.mem_append.mp he with he | he
    · refine h.made_frame hstep.frame he (fun k hr => ?_) hb
      have hke := h.key_of_mem he
      refine apart_of_ne hd (fun h' => ?_) k (hke ▸ hr)
      rcases hk : key row with _ | k'
      · rw [h', hk]
      · refine absurd ?_ (hnew k' hk)
        rw [← h.groups_eq, List.map_map]
        exact List.mem_map.mpr ⟨e, he, hke.symm.trans (h'.trans hk)⟩
    · have he := List.mem_singleton.mp he
      subst he
      have hf : found q m columnPrefix row = true := by
        by_contra hf
        rw [show (getRowValue q row m (key row) columnPrefix none s).1 = none by
          rw [hfst, if_neg hf]] at hb
        cases hb
      rw [show (getRowValue q row m (key row) columnPrefix none s).1 = some s.objects.length by
        rw [hfst, if_pos hf]] at hb
      cases hb
      exact ⟨hf, hlo, hmade hf⟩
  · intro row' k' hk' hnew' k'' hw
    rw [groups_concat, insert_new hnew, List.map_append, List.mem_append] at hnew'
    push Not at hnew'
    have hne : key row' = key row → key row' = none := fun he => by
      rw [hk'] at he
      exact absurd (by rw [he]; simp) hnew'.2
    rw [hstep.frame.keys k'' (apart_of_ne hd hne k'' ⟨k', hk', hw⟩)]
    exact h.unknown row' k' hk' hnew'.1 k'' hw

/-- **A row in a family: it joins an object or makes one.** -/
theorem Family.step (hspec : Spec q V m columnPrefix around)
    (h : Family s (Holds q s m columnPrefix) (found q m columnPrefix) key lo rows fam)
    (hI : Inv s) (hA : Anc around s) (hlo : lo ≤ s.objects.length)
    (hd : ∀ row row' k k', key row = some k → key row' = some k' → depth k = depth k')
    (hkeyed : ∀ row k, key row = some k → found q m columnPrefix row = true) (row : Row V)
    {known : Option ℕ} (hknown : known = (key row).bind s.nestedResultObjects)
    {r : Option ℕ × Handler V} (hr : r = getRowValue q row m (key row) columnPrefix known s) :
    Step (region (key row)) (fun _ => False) around s r.2 ∧
    ∃ fam', Family r.2 (Holds q r.2 m columnPrefix) (found q m columnPrefix) key lo
        (rows ++ [row]) fam' ∧
      ((known = none ∧ fam'.map Prod.snd = fam.map Prod.snd ++ [r.1] ∧
          r.1 = if found q m columnPrefix row then some s.objects.length else none) ∨
        (known.isSome = true ∧ r.1 = known ∧ fam'.map Prod.snd = fam.map Prod.snd ∧
          rows ≠ [])) := by
  by_cases hnew : ∀ k, key row = some k → some k ∉ (groups key rows).map Prod.fst
  · obtain ⟨hn, hfst, hstep, hfam⟩ := h.step_new hspec hI hA hlo hd hkeyed row hnew
    rw [hn] at hknown
    subst hknown
    rw [hr]
    refine ⟨hstep, _, hfam, .inl ⟨rfl, ?_, hfst⟩⟩
    rw [List.map_append]
    rfl
  · push Not at hnew
    obtain ⟨k, hk, hmem⟩ := hnew
    obtain ⟨a, fam', hka, hfst, hstep, hmap, hfam⟩ := h.step_known hspec hI hA hd hkeyed row hk hmem
    have hkn : known = some a := by
      rw [hknown, hk]
      exact hka
    subst hkn
    rw [hk] at hr
    rw [hr, hk]
    refine ⟨hstep, fam', hfam, .inr ⟨rfl, hfst, hmap, ?_⟩⟩
    rintro rfl
    cases hmem

end

/-! ### A row of an object -/

theorem isKeyed_of_wellFormed {q : Query} {m : ResultMap} {columnPrefix : Option String}
    {around : List String} (h : wellFormed q m columnPrefix around = true) :
    m.isKeyed q = true := by
  cases m
  exact (Bool.and_eq_true_iff.mp h).1

section
variable {q : Query} {s : Handler V} {a : ℕ} {property : String} {f : Link ℕ → Link ℕ}

theorem Family.changeLink {m : ResultMap} {columnPrefix : Option String}
    {fnd : Row V → Bool} {key : Row V → Option (CacheKey V)} {rows : List (Row V)}
    {fam : List (Made V)}
    (h : Family s (Holds q s m columnPrefix) fnd key (a + 1) rows fam) :
    Family (s.changeLink a property f) (Holds q (s.changeLink a property f) m columnPrefix) fnd
      key (a + 1) rows fam := by
  have hF : Frame (fun _ => False) (· = a) s (s.changeLink a property f) :=
    Frame.changeLink s a property f
  refine h.frame hF (fun b hb => by omega) (fun _ _ _ => id) fun e _ b hlo hlt hne hh => ?_
  exact hh.frame hF (fun _ _ => id) (fun b' hb' => by omega) hlt hne

end

theorem Link.instantiate_ofList {α : Type*} (isCollection : Bool) (as : List α) :
    (Link.ofList isCollection as).instantiate isCollection = .ofList isCollection as := by
  unfold Link.ofList
  cases isCollection
  · rcases as.getLast? with _ | a <;> rfl
  · rfl

theorem Link.add_ofList {α : Type*} (isCollection : Bool) (as : List α) (a : α) :
    (Link.ofList isCollection as).add isCollection a = .ofList isCollection (as ++ [a]) := by
  unfold Link.add
  rw [Link.instantiate_ofList]
  unfold Link.ofList
  cases isCollection
  · rw [List.getLast?_concat]
    rcases as.getLast? with _ | a <;> rfl
  · rfl

/-- A nested mapping of `applyNestedResultMappings`, where there is no circular reference. -/
def linkNested (q : Query) (row : Row V) (n : NestedMapping) (m : ResultMap) (a : ℕ)
    (columnPrefix : Option String) (combinedKey : Option (CacheKey V)) (s : Handler V) :
    Bool × Handler V :=
  let known := combinedKey.bind s.nestedResultObjects
  let s := s.changeLink a n.property (·.instantiate n.isCollection)
  if anyNotNullColumnHasValue q n columnPrefix row then
    let r := getRowValue q row m combinedKey columnPrefix known s
    match r.1, known with
    | some rowValue, none => (true, r.2.changeLink a n.property (·.add n.isCollection rowValue))
    | _, _ => (false, r.2)
  else (false, s)

theorem applyNested_cons {q : Query} {row : Row V} {n : NestedMapping} {m : ResultMap}
    {rest : NestedMaps} {a : ℕ} {parentPrefix : Option String} {κ : Option (CacheKey V)}
    {newObject : Bool} {s : Handler V}
    (h : (if n.columnPrefix.isNone then s.ancestorObjects m.id else none) = none)
    {l t : Bool × Handler V}
    (hl : l = linkNested q row n m a (getColumnPrefix parentPrefix n)
      (nestedKey q m (getColumnPrefix parentPrefix n) κ row) s)
    (ht : t = applyNestedResultMappings q row rest a parentPrefix κ newObject l.2) :
    applyNestedResultMappings q row (.cons n m rest) a parentPrefix κ newObject s =
      (l.1 || t.1, t.2) := by
  unfold applyNestedResultMappings
  rw [h]
  subst ht hl
  unfold linkNested nestedKey
  dsimp only
  split
  · generalize getRowValue q row m _ _ _ _ = r
    obtain ⟨_ | b, s'⟩ := r
    · simp
    · rcases (combineKeys _ κ).bind s.nestedResultObjects with _ | c <;> simp
  · simp

/-- The object `a` is `o`, but for the property of `n`, which refers to `as`. -/
def LinksTo (s : Handler V) (a : ℕ) (o : Object V) (n : NestedMapping) (as : List ℕ) : Prop :=
  ∃ o', s.objects[a]? = some o' ∧ o'.values = o.values ∧
    (∀ p, p ≠ n.property → o'.links p = o.links p) ∧
    o'.links n.property = .ofList n.isCollection as

section
variable {s : Handler V} {a : ℕ} {o : Object V} {n : NestedMapping} {as : List ℕ}

omit [DecidableEq V] in
theorem LinksTo.of_change {o' : Object V} {f : Link ℕ → Link ℕ} (ho : s.objects[a]? = some o')
    (hv : o'.values = o.values) (hoff : ∀ p, p ≠ n.property → o'.links p = o.links p)
    (hf : f (o'.links n.property) = .ofList n.isCollection as) :
    LinksTo (s.changeLink a n.property f) a o n as := by
  refine ⟨_, getElem?_changeLink ho, hv, fun p hp => ?_, ?_⟩
  · rw [← hoff p hp]
    exact Function.update_of_ne hp _ _
  · show Function.update o'.links n.property _ n.property = _
    rw [Function.update_self, hf]

omit [DecidableEq V] in
theorem LinksTo.add (h : LinksTo s a o n as) (b : ℕ) :
    LinksTo (s.changeLink a n.property (·.add n.isCollection b)) a o n (as ++ [b]) := by
  obtain ⟨o', ho, hv, hoff, hon⟩ := h
  refine LinksTo.of_change ho hv hoff ?_
  show (o'.links n.property).add n.isCollection b = _
  rw [hon, Link.add_ofList]

end

section
variable {q : Query} {around : List String} {s : Handler V} {row : Row V} {κ : Option (CacheKey V)}
  {a : ℕ} {o : Object V} {rows : List (Row V)}

/-- What a property refers to before its mapping is applied: its family, or nothing yet. -/
theorem LinksTo.instantiate {n : NestedMapping} {m : ResultMap} {columnPrefix : Option String}
    {fam : List (Made V)} (ho : s.objects[a]? = some o)
    (hlink : o.links n.property = if rows = [] then .null else
      .ofList n.isCollection (fam.map Prod.snd).reduceOption)
    (hfam : Family s (Holds q s m columnPrefix) (found q m columnPrefix)
      (nestedKey q m columnPrefix κ) (a + 1)
      (rows.filter (anyNotNullColumnHasValue q n columnPrefix)) fam) :
    LinksTo (s.changeLink a n.property (·.instantiate n.isCollection)) a o n
      (fam.map Prod.snd).reduceOption := by
  refine LinksTo.of_change ho rfl (fun _ _ => rfl) ?_
  show (o.links n.property).instantiate n.isCollection = _
  rw [hlink]
  split
  · rename_i hnil
    have hfst := hfam.groups_eq
    rw [hnil] at hfst
    rw [List.map_eq_nil_iff.mp hfst]
    unfold Link.ofList
    cases n.isCollection <;> rfl
  · exact Link.instantiate_ofList _ _

omit [DecidableEq V] in
/-- A nested row leaves the object around it to its mapping. -/
theorem LinksTo.frame {n : NestedMapping} {m : ResultMap} {columnPrefix : Option String}
    {as : List ℕ} {s' : Handler V} (h : LinksTo s a o n as)
    (hF : Frame (region (nestedKey q m columnPrefix κ row)) (fun _ => False) s s')
    (honly : ∀ k, s.nestedResultObjects k = some a → κ = some k) : LinksTo s' a o n as := by
  obtain ⟨o', ho, h⟩ := h
  refine ⟨o', ?_, h⟩
  rw [hF.objects a (List.getElem?_eq_some_iff.mp ho).1 id, ho]
  rintro k ⟨k₀, hk₀, hw⟩ he
  obtain ⟨rk, p, -, hp, rfl⟩ := nestedKey_eq hk₀
  have hκ := honly k he
  rw [hp] at hκ
  obtain rfl := Option.some.inj hκ
  have hd := depth_le hw
  have : depth (.combined rk p) = depth p + 1 := rfl
  omega

/-- A nested mapping adds the row to its family and links the object that is new. -/
theorem linkNested_spec {n : NestedMapping} {m : ResultMap} {columnPrefix : Option String}
    {fam : List (Made V)} {l : Bool × Handler V} (hspec : Spec q V m columnPrefix around)
    (hkeyed : m.isKeyed q = true) (hI : Inv s) (hA : Anc around s) (ho : s.objects[a]? = some o)
    (honly : ∀ k, s.nestedResultObjects k = some a → κ = some k)
    (hlink : o.links n.property = if rows = [] then .null else
      .ofList n.isCollection (fam.map Prod.snd).reduceOption)
    (hfam : Family s (Holds q s m columnPrefix) (found q m columnPrefix)
      (nestedKey q m columnPrefix κ) (a + 1)
      (rows.filter (anyNotNullColumnHasValue q n columnPrefix)) fam)
    (hl : l = linkNested q row n m a columnPrefix (nestedKey q m columnPrefix κ row) s) :
    Step (region (nestedKey q m columnPrefix κ row)) (· = a) around s l.2 ∧
    (∀ k, l.2.nestedResultObjects k = some a → κ = some k) ∧
    (∃ fam', LinksTo l.2 a o n (fam'.map Prod.snd).reduceOption ∧
      Family l.2 (Holds q l.2 m columnPrefix) (found q m columnPrefix)
        (nestedKey q m columnPrefix κ) (a + 1)
        ((rows ++ [row]).filter (anyNotNullColumnHasValue q n columnPrefix)) fam') ∧
    (rows = [] → l.1 = (anyNotNullColumnHasValue q n columnPrefix row &&
      found q m columnPrefix row)) := by
  unfold linkNested at hl
  dsimp only at hl
  have hfirst := LinksTo.instantiate ho hlink hfam
  have hF₁ : Frame (region (nestedKey q m columnPrefix κ row)) (· = a) s _ :=
    Frame.changeLink s a n.property (·.instantiate n.isCollection)
  have hfam₁ := @Family.changeLink _ _ q s a n.property (·.instantiate n.isCollection) _ _ _ _ _ _
    hfam
  have hI₁ := @Inv.changeLink _ s a n.property (·.instantiate n.isCollection) hI
  rw [List.filter_append]
  generalize hs₁ : s.changeLink a n.property (·.instantiate n.isCollection) = s₁ at *
  have hnro : s.nestedResultObjects = s₁.nestedResultObjects := hs₁ ▸ rfl
  have hA₁ : Anc around s₁ := hs₁ ▸ hA
  rw [hnro] at honly hl
  by_cases hany : anyNotNullColumnHasValue q n columnPrefix row = true
  · rw [if_pos hany] at hl
    rw [List.filter_cons_of_pos hany, List.filter_nil, hany, Bool.true_and]
    have hlo : a + 1 ≤ s₁.objects.length := (List.getElem?_eq_some_iff.mp hfirst.choose_spec.1).1
    obtain ⟨hstep, fam', hfam', hcases⟩ := hfam₁.step hspec hI₁ hA₁ hlo
      (fun row row' k k' hk hk' => by rw [depth_nestedKey hk, depth_nestedKey hk'])
      (fun row k hk => by
        obtain ⟨rk, p, hrk, -, -⟩ := nestedKey_eq hk
        exact found_of_key hkeyed hrk) row rfl rfl
    have hF := hF₁.trans (hstep.frame.mono (fun _ => id) fun _ => False.elim)
    have hlinks := hfirst.frame hstep.frame honly
    have honly₂ : ∀ k, _ → κ = some k := fun k hk => by
      rcases hstep.frame.origin k a hk with hk | hle | ha
      · exact honly k hk
      · omega
      · exact ha.elim
    generalize hknown : (nestedKey q m columnPrefix κ row).bind s₁.nestedResultObjects = known at *
    generalize hr : getRowValue q row m (nestedKey q m columnPrefix κ row) columnPrefix known s₁ =
      r at *
    obtain ⟨rowValue, s₂⟩ := r
    dsimp only at *
    rcases hcases with ⟨hnone, hmap, hfst⟩ | ⟨hsome, hfst, hmap, hrows⟩
    · by_cases hf : found q m columnPrefix row = true
      · rw [if_pos hf] at hfst
        subst hfst hnone hl
        dsimp only
        refine ⟨⟨hF.trans (Frame.changeLink ..), hstep.inv.changeLink, hstep.anc⟩, honly₂,
          ⟨fam', ?_, hfam'.changeLink⟩, fun _ => hf.symm⟩
        rw [hmap, List.reduceOption_append]
        exact hlinks.add _
      · rw [if_neg hf] at hfst
        subst hfst hl
        refine ⟨⟨hF, hstep.inv, hstep.anc⟩, honly₂, ⟨fam', ?_, hfam'⟩,
          fun _ => by simpa using hf⟩
        rw [hmap, List.reduceOption_append]
        show LinksTo s₂ a o n (_ ++ [])
        rw [List.append_nil]
        exact hlinks
    · obtain ⟨b, rfl⟩ := Option.isSome_iff_exists.mp hsome
      subst hfst hl
      refine ⟨⟨hF, hstep.inv, hstep.anc⟩, honly₂, ⟨fam', hmap ▸ hlinks, hfam'⟩, fun h => ?_⟩
      rw [h] at hrows
      exact absurd rfl hrows
  · rw [if_neg hany] at hl
    subst hl
    rw [List.filter_cons_of_neg hany, List.filter_nil, List.append_nil]
    refine ⟨⟨hF₁, hI₁, hA₁⟩, honly, ⟨fam, hfirst, hfam₁⟩, fun _ => ?_⟩
    simp [hany]

/-- **The nested mappings of an object add the row to all its families.** -/
theorem nested_spec {newObject : Bool} {parentPrefix : Option String} : ∀ {ns : NestedMaps}
    {s : Handler V} {o : Object V} {r : Bool × Handler V},
    (∀ x ∈ ns.toList, Spec q V x.2 (getColumnPrefix parentPrefix x.1) around) →
    wellFormedNested q ns parentPrefix around = true → Inv s → Anc around s →
    s.objects[a]? = some o → (∀ k, s.nestedResultObjects k = some a → κ = some k) →
    HoldsNested q s ns parentPrefix κ rows o.links a →
    r = applyNestedResultMappings q row ns a parentPrefix κ newObject s →
    Step (scope q ns parentPrefix κ) (· = a) around s r.2 ∧
    (∀ k, r.2.nestedResultObjects k = some a → κ = some k) ∧
    (∃ o', r.2.objects[a]? = some o' ∧ o'.values = o.values ∧
      (∀ p, (∀ x ∈ ns.toList, x.1.property ≠ p) → o'.links p = o.links p) ∧
      HoldsNested q r.2 ns parentPrefix κ (rows ++ [row]) o'.links a) ∧
    (rows = [] → r.1 = foundNested q ns parentPrefix row)
  | .nil, s, o, r, _, _, hI, hA, ho, honly, _, hr => by
    subst hr
    exact ⟨⟨Frame.of_eq rfl rfl, hI, hA⟩, honly, ⟨o, ho, rfl, fun _ _ => rfl, trivial⟩, fun _ => rfl⟩
  | .cons n m rest, s, o, r, hspec, hwf, hI, hA, ho, honly, hh, hr => by
    unfold wellFormedNested at hwf
    rw [Bool.and_eq_true, Bool.and_eq_true, Bool.and_eq_true] at hwf
    obtain ⟨⟨⟨hcirc, hapart⟩, hm⟩, hwf⟩ := hwf
    have hapart : ∀ x ∈ rest.toList, apart q parentPrefix (n, m) x = true :=
      List.all_eq_true.mp hapart
    have hprop : ∀ x ∈ rest.toList, x.1.property ≠ n.property := fun x hx he =>
      of_decide_eq_true (Bool.and_eq_true_iff.mp (hapart x hx)).1 he.symm
    have hanc : (if n.columnPrefix.isNone then s.ancestorObjects m.id else none) = none := by
      split
      · rename_i hnone
        rcases Bool.or_eq_true_iff.mp hcirc with hs | hid
        · rw [Option.isNone_iff_eq_none.mp hnone] at hs
          cases hs
        · exact hA m.id (of_decide_eq_true hid)
      · rfl
    obtain ⟨⟨fam, hlink, hfam⟩, hrest⟩ := hh
    obtain ⟨l, hl⟩ : ∃ l, l = linkNested q row n m a (getColumnPrefix parentPrefix n)
      (nestedKey q m (getColumnPrefix parentPrefix n) κ row) s := ⟨_, rfl⟩
    obtain ⟨t, ht⟩ : ∃ t, t = applyNestedResultMappings q row rest a parentPrefix κ newObject l.2 :=
      ⟨_, rfl⟩
    obtain ⟨hstep, honly₁, ⟨fam', ⟨o₁, ho₁, hv₁, hoff₁, hon₁⟩, hfam'⟩, hflag⟩ := linkNested_spec
      (hspec (n, m) List.mem_cons_self) (isKeyed_of_wellFormed hm) hI hA ho honly hlink hfam hl
    have hnone : ∀ k, scope q rest parentPrefix κ k →
        ¬ region (nestedKey q m (getColumnPrefix parentPrefix n) κ row) k := by
      rintro k ⟨x, hx, row', hr'⟩ hr
      exact scope_disjoint (hapart x hx) hr hr'
    have hrest₁ : HoldsNested q l.2 rest parentPrefix κ rows o₁.links a :=
      hrest.frame hstep.frame hnone (fun b hb => by omega) fun x hx => hoff₁ _ (hprop x hx)
    obtain ⟨hstep', honly', ⟨o₂, ho₂, hv₂, hoff₂, hh₂⟩, hflag'⟩ := nested_spec
      (fun x hx => hspec x (List.mem_cons_of_mem _ hx)) hwf hstep.inv hstep.anc ho₁ honly₁ hrest₁ ht
    rw [applyNested_cons hanc hl ht] at hr
    subst hr
    refine ⟨⟨?_, hstep'.inv, hstep'.anc⟩, honly', ⟨o₂, ho₂, hv₂.trans hv₁, fun p hp => ?_, ?_⟩,
      fun h => ?_⟩
    · refine (hstep.frame.mono (fun k hk => ?_) fun _ => id).trans
        (hstep'.frame.mono (fun k hk => ?_) fun _ => id)
      · exact ⟨(n, m), List.mem_cons_self, row, hk⟩
      · obtain ⟨x, hx, row', hr'⟩ := hk
        exact ⟨x, List.mem_cons_of_mem _ hx, row', hr'⟩
    · rw [hoff₂ p fun x hx => hp x (List.mem_cons_of_mem _ hx)]
      exact hoff₁ p fun he => hp (n, m) List.mem_cons_self he.symm
    · refine ⟨⟨fam', ?_, ?_⟩, hh₂⟩
      · rw [hoff₂ n.property hprop, hon₁, if_neg (by simp)]
      · have hK : ∀ row' k, region (nestedKey q m (getColumnPrefix parentPrefix n) κ row') k →
            ¬ scope q rest parentPrefix κ k := by
          rintro row' k hr ⟨x, hx, row'', hr'⟩
          exact scope_disjoint (hapart x hx) hr hr'
        refine hfam'.frame hstep'.frame (fun b hb => by omega) hK
          fun e he b hlo hlt hne hh => ?_
        exact hh.frame hstep'.frame (fun k hk => hK (first e.1.2) k (hfam'.key_of_mem he ▸ hk))
          (fun b' hb' => by omega) hlt hne
    · show (l.1 || t.1) = foundNested q (.cons n m rest) parentPrefix row
      rw [hflag h, hflag' h]
      rfl

@[simp] theorem objects_putNested (s : Handler V) (κ : Option (CacheKey V)) (v : Option ℕ) :
    (s.putNested κ v).objects = s.objects := by
  cases κ <;> rfl

@[simp] theorem ancestorObjects_putNested (s : Handler V) (κ : Option (CacheKey V))
    (v : Option ℕ) : (s.putNested κ v).ancestorObjects = s.ancestorObjects := by
  cases κ <;> rfl

theorem nestedResultObjects_putNested (s : Handler V) (κ : Option (CacheKey V)) (v : Option ℕ)
    (k : CacheKey V) : (s.putNested κ v).nestedResultObjects k =
      if κ = some k then v else s.nestedResultObjects k := by
  rcases κ with _ | k'
  · rfl
  · by_cases hk : k = k'
    · rw [if_pos (by rw [hk])]
      show Function.update s.nestedResultObjects k' v k = v
      rw [hk, Function.update_self]
    · rw [if_neg fun h => hk (Option.some.inj h).symm]
      exact Function.update_of_ne hk _ _

theorem Frame.putNested (s : Handler V) (id : String) (κ : Option (CacheKey V)) (a : ℕ) :
    Frame (κ = some ·) (· = a) s ((s.removeAncestor id).putNested κ (some a)) where
  le := Nat.le_of_eq
    (congrArg List.length (objects_putNested (s.removeAncestor id) κ (some a))).symm
  objects := fun _ _ _ _ => by rw [objects_putNested]; rfl
  keys := fun k hk => by rw [nestedResultObjects_putNested, if_neg hk]; rfl
  origin := fun k b hb => by
    rw [nestedResultObjects_putNested] at hb
    split at hb
    · exact .inr (.inr (Option.some.inj hb).symm)
    · exact .inl hb

omit [DecidableEq V] in
/-- A new object counts as unchanged. -/
theorem Frame.of_new {K : CacheKey V → Prop} {s' : Handler V}
    (h : Frame K (· = s.objects.length) s s') : Frame K (fun _ => False) s s' where
  le := h.le
  objects := fun b hb _ hk => h.objects b hb (by omega) hk
  keys := h.keys
  origin := fun k b hb => by
    rcases h.origin k b hb with hb | hle | hb
    · exact .inl hb
    · exact .inr (.inl hle)
    · exact .inr (.inl (by omega))

omit [DecidableEq V] in
theorem Anc.removeAncestor {id : String} (h : Anc (id :: around) s) :
    Anc around (s.removeAncestor id) := fun id' hid' => by
  show Function.update s.ancestorObjects id none id' = none
  by_cases he : id' = id
  · rw [he, Function.update_self]
  · rw [Function.update_of_ne he]
    exact h id' (by simp [he, hid'])

omit [DecidableEq V] in
theorem Anc.putAncestor {id : String} (h : Anc around s) : Anc (id :: around) (s.putAncestor id a) :=
  fun id' hid' => by
    rw [List.mem_cons, not_or] at hid'
    show Function.update s.ancestorObjects id _ id' = none
    rw [Function.update_of_ne hid'.1]
    exact h id' hid'.2

theorem holdsNested_nil : ∀ {ns : NestedMaps} {parentPrefix : Option String},
    (∀ k, region κ k → s.nestedResultObjects k = none) →
    HoldsNested q s ns parentPrefix κ [] (fun _ => .null) a
  | .nil, _, _ => trivial
  | .cons n m rest, parentPrefix, h => by
    refine ⟨⟨[], rfl, rfl, nofun, nofun, fun row k hk _ k' hw => h k' ?_⟩, holdsNested_nil h⟩
    obtain ⟨r, p, -, hp, rfl⟩ := nestedKey_eq hk
    exact ⟨p, hp, hw.parent⟩

/-- The object of a row is new where its key is. -/
theorem getRowValue_new {id : String} {mappings autoMappings : List ColumnMapping}
    {keyColumns : List String} {nested : NestedMaps} {columnPrefix : Option String}
    (hspec : ∀ x ∈ nested.toList, Spec q V x.2 (getColumnPrefix columnPrefix x.1) (id :: around))
    (hwf : wellFormedNested q nested columnPrefix (id :: around) = true)
    (hI : Inv s) (hA : Anc around s) (hnone : ∀ k, region κ k → s.nestedResultObjects k = none)
    {m : ResultMap} (hm : m = .mk id mappings autoMappings keyColumns nested)
    (hfound : κ.isSome = true → found q m columnPrefix row = true)
    {r : Option ℕ × Handler V} (hr : r = getRowValue q row m κ columnPrefix none s) :
    Step (region κ) (fun _ => False) around s r.2 ∧
    r.1 = (if found q m columnPrefix row then some s.objects.length else none) ∧
    (found q m columnPrefix row = true → s.objects.length < r.2.objects.length ∧
      Owned r.2 κ s.objects.length ∧ Holds q r.2 m columnPrefix κ [row] s.objects.length) := by
  subst hm
  unfold getRowValue at hr
  dsimp only at hr
  generalize hv : rowValues q mappings autoMappings columnPrefix row = v at hr
  obtain ⟨s₁, hs₁⟩ : ∃ s₁, s₁ = (s.create { values := v.1 }).putAncestor id s.objects.length :=
    ⟨_, rfl⟩
  have hlen₁ : s₁.objects.length = s.objects.length + 1 := by
    rw [hs₁]
    exact List.length_append
  have hF₁ : ∀ K, Frame K (fun _ => False) s s₁ := fun K => by
    rw [hs₁]
    exact (Frame.create s { values := v.1 }).trans (Frame.of_eq rfl rfl)
  have hnro₁ : s₁.nestedResultObjects = s.nestedResultObjects := by rw [hs₁]; rfl
  have hI₁ : Inv s₁ := ⟨fun k b hb => by
    have := hI.bound k b (hnro₁ ▸ hb)
    omega, hnro₁ ▸ hI.inj⟩
  have hA₁ : Anc (id :: around) s₁ := by
    rw [hs₁]
    exact Anc.putAncestor hA
  have hnew : ∀ k, s.nestedResultObjects k ≠ some s.objects.length := fun k hk =>
    Nat.lt_irrefl _ (hI.bound k _ hk)
  have ho₁ : s₁.objects[s.objects.length]? = some { values := v.1 } := by
    rw [hs₁]
    exact List.getElem?_concat_length
  rw [← hs₁] at hr
  obtain ⟨t, ht⟩ : ∃ t, t = applyNestedResultMappings q row nested s.objects.length columnPrefix κ
    true s₁ := ⟨_, rfl⟩
  rw [← ht] at hr
  have hh₁ : HoldsNested q s₁ nested columnPrefix κ [] (fun _ => .null) s.objects.length :=
    holdsNested_nil (hnro₁ ▸ hnone)
  obtain ⟨hstep, honly, ⟨o, ho, hov, -, hh⟩, hflag⟩ := nested_spec hspec hwf hI₁ hA₁ ho₁
    (fun k hk => absurd (hnro₁ ▸ hk) (hnew k)) hh₁ ht
  have hF₂ : Frame (region κ) (· = s.objects.length) s t.2 :=
    ((hF₁ _).mono (fun _ h => h) fun _ => False.elim).trans
      (hstep.frame.mono (fun k hk => (region_of_scope hk).1) fun _ h => h)
  have hfirst : o.values = (rowValues q mappings autoMappings columnPrefix (first [row])).1 := by
    rw [hov]
    exact congrArg Prod.fst hv.symm
  have hflag' : (t.1 || v.2 || q.returnInstanceForEmptyRow) =
      found q (.mk id mappings autoMappings keyColumns nested) columnPrefix row := by
    rw [hflag rfl]
    unfold found
    rw [hv]
  rw [hflag'] at hr
  by_cases hf : found q (.mk id mappings autoMappings keyColumns nested) columnPrefix row = true
  · rw [if_pos hf] at hr ⊢
    subst hr
    have hput := Frame.putNested t.2 id κ s.objects.length
    have hlt : s.objects.length < t.2.objects.length := by
      have := hstep.frame.le
      omega
    refine ⟨⟨?_, ⟨fun k b hb => ?_, fun k k' b hb hb' => ?_⟩, ?_⟩, rfl, fun _ => ⟨?_, ?_, ?_⟩⟩
    · refine (hF₂.trans (hput.mono (fun k hk => ?_) fun _ h => h)).of_new
      exact ⟨k, hk, Within.refl k⟩
    · rw [nestedResultObjects_putNested] at hb
      rw [objects_putNested]
      split at hb
      · cases hb
        exact hlt
      · exact hstep.inv.bound k b hb
    · rw [nestedResultObjects_putNested] at hb hb'
      split at hb <;> split at hb'
      · rename_i h h'
        exact Option.some.inj (h.symm.trans h')
      · rename_i h h'
        cases hb
        exact absurd (honly k' hb') h'
      · rename_i h h'
        cases hb'
        exact absurd (honly k hb) h
      · exact hstep.inv.inj k k' b hb hb'
    · have := hstep.anc.removeAncestor
      exact fun id' hid' => by
        rw [ancestorObjects_putNested]
        exact this id' hid'
    · rw [objects_putNested]
      exact hlt
    · refine ⟨fun k hk => by rw [nestedResultObjects_putNested, if_pos hk], fun k hk => ?_⟩
      rw [nestedResultObjects_putNested] at hk
      by_contra hne
      rw [if_neg hne] at hk
      exact hne (honly k hk)
    · refine ⟨o, by rw [objects_putNested]; exact ho, hfirst, ?_⟩
      exact hh.frame hput (fun k hk => (region_of_scope hk).2) (fun b hb => by omega)
        fun _ _ => rfl
  · rw [if_neg hf] at hr ⊢
    subst hr
    have hκ : κ = none := by
      by_contra hs
      exact hf (hfound (Option.isSome_iff_ne_none.mpr hs))
    subst hκ
    refine ⟨⟨?_, ⟨hstep.inv.bound, hstep.inv.inj⟩, hstep.anc.removeAncestor⟩, rfl,
      fun h => absurd h hf⟩
    exact hF₂.of_new.trans (Frame.of_eq rfl rfl)

/-- A known object is passed the row. -/
theorem getRowValue_known {id : String} {mappings autoMappings : List ColumnMapping}
    {keyColumns : List String} {nested : NestedMaps} {columnPrefix : Option String}
    (hspec : ∀ x ∈ nested.toList, Spec q V x.2 (getColumnPrefix columnPrefix x.1) (id :: around))
    (hwf : wellFormedNested q nested columnPrefix (id :: around) = true)
    (hI : Inv s) (hA : Anc around s) (hrows : rows ≠ []) {k : CacheKey V}
    (hown : Owned s (some k) a) {m : ResultMap}
    (hm : m = .mk id mappings autoMappings keyColumns nested)
    (h : Holds q s m columnPrefix (some k) rows a) {r : Option ℕ × Handler V}
    (hr : r = getRowValue q row m (some k) columnPrefix (some a) s) :
    Step (region (some k)) (fun _ => False) around s r.2 ∧ r.1 = some a ∧
    Owned r.2 (some k) a ∧ Holds q r.2 m columnPrefix (some k) (rows ++ [row]) a := by
  subst hm
  obtain ⟨o, ho, hv, hn⟩ := h
  unfold getRowValue at hr
  dsimp only at hr
  obtain ⟨t, ht⟩ : ∃ t, t = applyNestedResultMappings q row nested a columnPrefix (some k) false
    (s.putAncestor id a) := ⟨_, rfl⟩
  rw [← ht] at hr
  have hput : Frame (fun _ => False) (fun _ => False) s (s.putAncestor id a) :=
    Frame.of_eq rfl rfl
  have hI₁ : Inv (s.putAncestor id a) := ⟨hI.bound, hI.inj⟩
  have hn₁ : HoldsNested q (s.putAncestor id a) nested columnPrefix (some k) rows o.links a :=
    hn.frame hput (fun _ _ h => h) (fun _ _ h => h) fun _ _ => rfl
  obtain ⟨hstep, honly, ⟨o', ho', hv', -, hh⟩, -⟩ :=
    nested_spec hspec hwf hI₁ hA.putAncestor ho hown.only hn₁ ht
  subst hr
  have hF := hstep.frame
  refine ⟨⟨⟨hF.le, fun b hb _ hk => ?_, fun k' hk' => ?_, fun k' b hb => ?_⟩,
    ⟨hstep.inv.bound, hstep.inv.inj⟩, hstep.anc.removeAncestor⟩, rfl, ⟨fun k' hk' => ?_, honly⟩,
    ⟨o', ho', ?_, ?_⟩⟩
  · refine hF.objects b hb (fun he => ?_) fun k' hk' => hk k' (region_of_scope hk').1
    exact hk k ⟨k, rfl, Within.refl k⟩ (he ▸ hown.key k rfl)
  · exact hF.keys k' fun h => hk' (region_of_scope h).1
  · rcases hF.origin k' b hb with hb | hle | he
    · exact .inl hb
    · exact .inr (.inl hle)
    · refine .inl ?_
      have hk := honly k' (he ▸ hb)
      rw [he, ← Option.some.inj hk]
      exact hown.key k rfl
  · refine (hF.keys k' fun h => (region_of_scope h).2 hk').trans ?_
    exact hown.key k' hk'
  · rw [hv', hv]
    obtain ⟨r, l, hrl⟩ := List.exists_cons_of_ne_nil hrows
    rw [hrl]
    rfl
  · have hF' : Frame (fun _ => False) (fun _ => False) t.2 (t.2.removeAncestor id) :=
      Frame.of_eq rfl rfl
    exact hh.frame hF' (fun _ _ h => h) (fun _ _ h => h) fun _ _ => rfl

end

mutual

/-- **`getRowValue` makes the object of a row, or passes the row to the one it knows.** -/
theorem getRowValue_spec (q : Query) : ∀ {m : ResultMap} {columnPrefix : Option String}
    {around : List String}, wellFormed q m columnPrefix around = true →
    Spec q V m columnPrefix around
  | .mk id mappings autoMappings keyColumns nested, columnPrefix, around, h => by
    have hwf := (Bool.and_eq_true_iff.mp h).2
    have hspec := nestedMaps_spec q hwf
    exact ⟨fun row κ s hI hA hnone hfound => getRowValue_new hspec hwf hI hA hnone rfl hfound rfl,
      fun row k s rows a hI hA hrows _ hown hh =>
        getRowValue_known hspec hwf hI hA hrows hown rfl hh rfl⟩

theorem nestedMaps_spec (q : Query) : ∀ {ns : NestedMaps} {parentPrefix : Option String}
    {around : List String}, wellFormedNested q ns parentPrefix around = true →
    ∀ x ∈ ns.toList, Spec q V x.2 (getColumnPrefix parentPrefix x.1) around
  | .nil, _, _, _ => nofun
  | .cons n m rest, parentPrefix, around, h => by
    unfold wellFormedNested at h
    rw [Bool.and_eq_true, Bool.and_eq_true] at h
    intro x hx
    rcases List.mem_cons.mp hx with rfl | hx
    · exact getRowValue_spec q h.1.2
    · exact nestedMaps_spec q h.2 x hx

end

end ResultSetHandler
end CloudManager
