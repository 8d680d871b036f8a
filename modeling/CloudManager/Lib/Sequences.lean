/-
# Lists that are read, filtered and searched

`mapM` in `Option` reads a list element by element, and is nothing if one element
cannot be read.
-/
import Mathlib.Data.List.TakeWhile

namespace CloudManager
namespace Sequences

variable {α β γ : Type*}

theorem mapM_eq_some_iff {f : α → Option β} {l : List α} {l' : List β} :
    l.mapM f = some l' ↔ l.map f = l'.map some := by
  induction l generalizing l' with
  | nil => cases l' <;> simp
  | cons a l ih =>
    rw [List.mapM_cons, List.map_cons]
    cases l' with
    | nil => cases f a <;> cases l.mapM f <;> simp
    | cons b l' =>
      rw [List.map_cons, List.cons.injEq, ← ih]
      cases f a <;> cases l.mapM f <;> simp

theorem isSome_mapM {f : α → Option β} {l : List α} :
    (l.mapM f).isSome = true ↔ ∀ a ∈ l, (f a).isSome = true := by
  induction l with
  | nil => simp
  | cons a l ih =>
    rw [List.mapM_cons, List.forall_mem_cons, ← ih]
    cases f a <;> cases l.mapM f <;> simp

/-- What is read is read of some element, and each element gives one. -/
theorem mem_of_mapM {f : α → Option β} {l : List α} {l' : List β} (h : l.mapM f = some l')
    {b : β} : b ∈ l' ↔ ∃ a ∈ l, f a = some b := by
  have hb : some b ∈ l.map f ↔ some b ∈ l'.map some := by rw [mapM_eq_some_iff.mp h]
  simpa using hb.symm

theorem flatMap_ite_eq [DecidableEq α] {f : α → List β} {l : List α} (hl : l.Nodup) (a : α) :
    (l.flatMap fun b => if b = a then f b else []) = if a ∈ l then f a else [] := by
  induction l with
  | nil => rfl
  | cons b l ih =>
    obtain ⟨hb, hl⟩ := List.nodup_cons.mp hl
    rw [List.flatMap_cons, ih hl]
    by_cases hba : b = a
    · subst hba
      simp [hb]
    · simp [hba, Ne.symm hba]

/-- What is known of each element read is known of the list. -/
theorem map_of_mapM {f : α → Option β} {g : β → γ} {g' : α → γ} {l : List α} {l' : List β}
    (h : l.mapM f = some l') (hf : ∀ a ∈ l, ∀ b, f a = some b → g b = g' a) :
    l'.map g = l.map g' := by
  induction l generalizing l' with
  | nil =>
    cases h
    rfl
  | cons a l ih =>
    rw [List.mapM_cons] at h
    obtain ⟨b, hb, h⟩ := Option.bind_eq_some_iff.mp h
    obtain ⟨bs, hbs, h⟩ := Option.bind_eq_some_iff.mp h
    cases h
    rw [List.map_cons, List.map_cons, hf a List.mem_cons_self b hb,
      ih hbs fun c hc => hf c (List.mem_cons_of_mem a hc)]

/-- What is read of tagged elements, with their tags. -/
theorem mem_zip_mapM {f : β → Option γ} {l : List (α × β)} {l' : List γ}
    (h : (l.map Prod.snd).mapM f = some l') {a : α} {c : γ} :
    (a, c) ∈ (l.map Prod.fst).zip l' ↔ ∃ b, (a, b) ∈ l ∧ f b = some c := by
  induction l generalizing l' with
  | nil =>
    cases h
    simp
  | cons x l ih =>
    rw [List.map_cons, List.mapM_cons] at h
    obtain ⟨y, hy, h⟩ := Option.bind_eq_some_iff.mp h
    obtain ⟨ys, hys, h⟩ := Option.bind_eq_some_iff.mp h
    cases h
    rw [List.map_cons, List.zip_cons_cons, List.mem_cons, ih hys]
    constructor
    · rintro (he | ⟨b, hb, hc⟩)
      · obtain ⟨rfl, rfl⟩ := Prod.mk.inj he
        exact ⟨x.2, List.mem_cons_self, hy⟩
      · exact ⟨b, List.mem_cons_of_mem x hb, hc⟩
    · rintro ⟨b, hb, hc⟩
      obtain rfl | hb := List.mem_cons.mp hb
      · exact .inl (Prod.ext rfl (Option.some.inj (hc.symm.trans hy)))
      · exact .inr ⟨b, hb, hc⟩

theorem filter_eq_filter_iff {p q : α → Bool} {l : List α} :
    l.filter p = l.filter q ↔ ∀ a ∈ l, p a = q a := by
  refine ⟨fun h a ha => ?_, List.filter_congr⟩
  have hmem : a ∈ l.filter p ↔ a ∈ l.filter q := by rw [h]
  simp only [List.mem_filter, ha, true_and] at hmem
  exact Bool.eq_iff_iff.mpr hmem

/-- A count of elements up to the first that is not `p` counts them all if all are. -/
theorem length_takeWhile_eq_iff {p : α → Bool} {l : List α} :
    (l.takeWhile p).length = l.length ↔ ∀ a ∈ l, p a = true := by
  refine ⟨fun h => List.takeWhile_eq_self_iff.mp ((List.takeWhile_prefix p).eq_of_length h),
    fun h => ?_⟩
  rw [List.takeWhile_eq_self_iff.mpr h]

/-- In order: what comes before an element is related to it. -/
theorem pairwise_iff_append {R : α → α → Prop} {l : List α} :
    l.Pairwise R ↔ ∀ l₁ a l₂, l = l₁ ++ a :: l₂ → ∀ b ∈ l₁, R b a := by
  constructor
  · rintro h l₁ a l₂ rfl b hb
    exact (List.pairwise_append.mp h).2.2 b hb a List.mem_cons_self
  · intro h
    induction l with
    | nil => exact .nil
    | cons c l ih =>
      refine .cons (fun a ha => ?_) (ih fun l₁ a l₂ hl b hb => ?_)
      · obtain ⟨l₁, l₂, rfl⟩ := List.append_of_mem ha
        exact h (c :: l₁) a l₂ rfl c List.mem_cons_self
      · exact h (c :: l₁) a l₂ (by rw [hl]; rfl) b (List.mem_cons_of_mem c hb)

/-- What each step of a fold appends. -/
theorem foldl_append {σ : Type*} {F : σ → List γ} {g : σ → α → σ} {f : α → List γ} {l : List α}
    (h : ∀ s, ∀ a ∈ l, F (g s a) = F s ++ f a) (s : σ) :
    F (l.foldl g s) = F s ++ l.flatMap f := by
  induction l generalizing s with
  | nil => simp
  | cons a l ih =>
    rw [List.foldl_cons, ih (fun s b hb => h s b (List.mem_cons_of_mem a hb)),
      h s a List.mem_cons_self, List.flatMap_cons, List.append_assoc]

/-! ### Repeats -/

variable {κ : Type*} [DecidableEq κ] {key : α → Option κ} {seen : List κ}

/-- The elements with a key that was seen, among the elements before them too. -/
def repeats (key : α → Option κ) : List κ → List α → List α
  | _, [] => []
  | seen, a :: l =>
    match key a with
    | none => repeats key seen l
    | some k => (if k ∈ seen then [a] else []) ++ repeats key (seen ++ [k]) l

theorem repeats_append (seen : List κ) (l l' : List α) :
    repeats key seen (l ++ l') =
      repeats key seen l ++ repeats key (seen ++ l.filterMap key) l' := by
  induction l generalizing seen with
  | nil => simp [repeats]
  | cons a l ih => cases hk : key a <;> simp [repeats, hk, ih]

/-- An element repeats if its key was seen at the start or is that of one before it. -/
theorem mem_repeats_iff {l : List α} {a : α} :
    a ∈ repeats key seen l ↔ ∃ l₁ l₂ k, l = l₁ ++ a :: l₂ ∧ key a = some k ∧
      (k ∈ seen ∨ k ∈ l₁.filterMap key) := by
  induction l generalizing seen with
  | nil => simp [repeats]
  | cons b l ih =>
    have hrest : a ∈ repeats key (seen ++ (key b).toList) l ↔ ∃ l₁ l₂ k,
        b :: l = (b :: l₁) ++ a :: l₂ ∧ key a = some k ∧
          (k ∈ seen ∨ k ∈ (b :: l₁).filterMap key) := by
      rw [ih]
      refine exists₃_congr fun l₁ l₂ k => ?_
      rw [List.cons_append, List.cons.injEq, List.mem_append, or_assoc]
      refine and_congr (by simp) (and_congr_right fun _ => or_congr_right ?_)
      cases hb : key b <;> simp [hb]
    have hsplit : a ∈ repeats key seen (b :: l) ↔
        (a = b ∧ ∃ k ∈ seen, key a = some k) ∨ a ∈ repeats key (seen ++ (key b).toList) l := by
      cases hb : key b with
      | none =>
        simp only [repeats, hb, Option.toList_none, List.append_nil]
        refine (or_iff_right ?_).symm
        rintro ⟨rfl, k, -, hk⟩
        rw [hb] at hk
        cases hk
      | some k =>
        simp only [repeats, hb, Option.toList_some, List.mem_append]
        refine or_congr_left ⟨fun h => ?_, ?_⟩
        · split at h
          · rename_i hk
            obtain rfl := List.mem_singleton.mp h
            exact ⟨rfl, k, hk, hb⟩
          · cases h
        · rintro ⟨rfl, k', hk', hak⟩
          obtain rfl : k = k' := Option.some.inj (hb.symm.trans hak)
          rw [if_pos hk']
          exact List.mem_cons_self
    rw [hsplit, hrest]
    constructor
    · rintro (⟨rfl, k, hk, hak⟩ | ⟨l₁, l₂, k, hl, h⟩)
      · exact ⟨[], l, k, rfl, hak, .inl hk⟩
      · exact ⟨b :: l₁, l₂, k, hl, h⟩
    · rintro ⟨_ | ⟨c, l₁⟩, l₂, k, hl, hak, h⟩
      · obtain ⟨rfl, -⟩ := List.cons.inj hl
        exact .inl ⟨rfl, k, h.resolve_right List.not_mem_nil, hak⟩
      · obtain ⟨rfl, -⟩ := List.cons.inj hl
        exact .inr ⟨l₁, l₂, k, hl, hak, h⟩

theorem mem_of_mem_repeats {l : List α} {a : α} (h : a ∈ repeats key seen l) : a ∈ l := by
  obtain ⟨l₁, l₂, k, rfl, -⟩ := mem_repeats_iff.mp h
  exact List.mem_append_right l₁ List.mem_cons_self

/-- Elements with keys of their own do not repeat. -/
theorem repeats_eq_nil {l : List α} (hn : (l.filterMap key).Nodup) : repeats key [] l = [] := by
  refine List.eq_nil_iff_forall_not_mem.mpr fun a ha => ?_
  obtain ⟨l₁, l₂, k, rfl, hak, h⟩ := mem_repeats_iff.mp ha
  rw [List.filterMap_append, List.filterMap_cons_some hak] at hn
  exact (List.nodup_append.mp hn).2.2 k (h.resolve_left List.not_mem_nil) k List.mem_cons_self rfl

end Sequences
end CloudManager
