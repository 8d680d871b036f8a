/-
# The outermost elements of a set, found one by one

Of some elements each may be inside another one. `put` lets an element in unless it
is inside one that is there, and throws out what is inside it. Whatever is there
at first and in whatever order they are put, of the elements that have been put the
outermost ones are there, and nothing inside them (`Settled.foldl`).
-/
import Mathlib.Data.Set.Insert
import Mathlib.Order.Defs.Unbundled

namespace CloudManager
namespace Outermost

variable {α : Type*} (inside : α → α → Prop)

def put (s : Set α) (p : α) : Set α :=
  {x | x ∈ s ∧ ¬ inside x p ∨ x = p ∧ ∀ y ∈ s, ¬ inside p y}

/-- An element inside no other one. -/
def Outer (s : Set α) (x : α) : Prop := x ∈ s ∧ ∀ y ∈ s, ¬ inside x y

/-- Nothing in `s` is inside what has been put, and all of that is in `s`, or inside
something there. -/
structure Settled (done s : Set α) : Prop where
  clear : ∀ q ∈ done, ∀ x ∈ s, ¬ inside x q
  cover : ∀ q ∈ done, ∃ x ∈ s, q = x ∨ inside q x

variable {inside} {done s : Set α} {p : α}

/-- What is there has been there at first, or has been put. -/
theorem mem_foldl_put {l : List α} {x : α} (h : x ∈ l.foldl (put inside) s) : x ∈ s ∨ x ∈ l := by
  induction l generalizing s with
  | nil => exact .inl h
  | cons p l ih =>
    rcases ih h with (⟨hx, -⟩ | ⟨rfl, -⟩) | hx
    · exact .inl hx
    · exact .inr List.mem_cons_self
    · exact .inr (List.mem_cons_of_mem _ hx)

theorem settled_empty (s : Set α) : Settled inside ∅ s := ⟨nofun, nofun⟩

/-- Where nothing else is left, the outermost elements are. -/
theorem Settled.mem_iff (h : Settled inside done s) (hs : s ⊆ done) (x : α) :
    x ∈ s ↔ Outer inside done x := by
  constructor
  · intro hx
    exact ⟨hs hx, fun y hy => h.clear y hy x hx⟩
  · rintro ⟨hx, houter⟩
    obtain ⟨y, hy, rfl | hxy⟩ := h.cover x hx
    · exact hy
    · exact (houter y (hs hy) hxy).elim

variable [IsStrictOrder α inside]

/-- What is put is there afterwards, or inside something that was there and stays. -/
theorem exists_put (inside : α → α → Prop) [IsStrictOrder α inside] (s : Set α) (p : α) :
    ∃ x ∈ put inside s p, p = x ∨ inside p x := by
  by_cases h : ∃ y ∈ s, inside p y
  · obtain ⟨y, hy, hpy⟩ := h
    exact ⟨y, .inl ⟨hy, asymm hpy⟩, .inr hpy⟩
  · exact ⟨p, .inr ⟨rfl, fun y hy hpy => h ⟨y, hy, hpy⟩⟩, .inl rfl⟩

theorem Settled.put (h : Settled inside done s) (p : α) :
    Settled inside (insert p done) (put inside s p) where
  clear := by
    rintro q hq x (⟨hx, hxp⟩ | ⟨rfl, hx⟩) hin
    · rcases Set.mem_insert_iff.mp hq with rfl | hq
      · exact hxp hin
      · exact h.clear q hq x hx hin
    · rcases Set.mem_insert_iff.mp hq with rfl | hq
      · exact irrefl _ hin
      · -- what covers `q` covers the element put, too
        obtain ⟨y, hy, rfl | hqy⟩ := h.cover q hq
        · exact hx _ hy hin
        · exact hx y hy (IsTrans.trans _ _ _ hin hqy)
  cover := by
    intro q hq
    obtain ⟨z, hz, hpz⟩ := exists_put inside s p
    rcases Set.mem_insert_iff.mp hq with rfl | hq
    · exact ⟨z, hz, hpz⟩
    · obtain ⟨x, hx, hqx⟩ := h.cover q hq
      by_cases hxp : inside x p
      · -- what covered `q` is thrown out, and what covers `p` covers `q`
        have hqp : inside q p := by
          rcases hqx with rfl | hqx
          · exact hxp
          · exact IsTrans.trans _ _ _ hqx hxp
        refine ⟨z, hz, .inr ?_⟩
        rcases hpz with rfl | hpz
        · exact hqp
        · exact IsTrans.trans _ _ _ hqp hpz
      · exact ⟨x, .inl ⟨hx, hxp⟩, hqx⟩

/-- **One by one.** -/
theorem Settled.foldl (h : Settled inside done s) (l : List α) :
    Settled inside ({x | x ∈ l} ∪ done) (l.foldl (Outermost.put inside) s) := by
  induction l generalizing done s with
  | nil => simpa using h
  | cons p l ih =>
    have hcons : {x | x ∈ p :: l} = insert p {x | x ∈ l} := Set.ext fun x => List.mem_cons
    rw [hcons, Set.insert_union, ← Set.union_insert]
    exact ih (h.put p)

end Outermost
end CloudManager
