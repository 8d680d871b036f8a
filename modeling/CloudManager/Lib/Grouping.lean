/-
# Grouping by key, as the elements come

An element joins the group of its key; the first of its key begins a group, and so
does every element without a key. `groups` lists the groups in the order they began.
`groups_concat` is the step of a loop that groups. `runs` closes a group when another
key comes; it gives the same groups if no key comes again later (`runs_eq_groups`).
-/
import Mathlib.Data.List.Induction
import Mathlib.Data.List.Nodup

namespace CloudManager
namespace Grouping

variable {α β κ ι : Type*} [DecidableEq κ] [DecidableEq ι]

/-- `x` joins the group of its key, or begins one. -/
def insert (key : α → Option κ) (gs : List (Option κ × List α)) (x : α) :
    List (Option κ × List α) :=
  if (key x).isSome ∧ key x ∈ gs.map Prod.fst then
    gs.map fun e => if e.1 = key x then (e.1, e.2 ++ [x]) else e
  else gs ++ [(key x, [x])]

def groups (key : α → Option κ) (l : List α) : List (Option κ × List α) :=
  l.foldl (insert key) []

variable {key : α → Option κ} {l : List α} {x : α}

@[simp] theorem groups_nil : groups key [] = [] := rfl

theorem groups_concat : groups key (l ++ [x]) = insert key (groups key l) x := by
  rw [groups, List.foldl_concat, groups]

theorem groups_singleton : groups key [x] = [(key x, [x])] := by
  show insert key [] x = _
  rw [insert, if_neg (by simp)]
  rfl

theorem insert_known {gs : List (Option κ × List α)} {k : κ} (hk : key x = some k)
    (h : some k ∈ gs.map Prod.fst) :
    insert key gs x = gs.map fun e => if e.1 = some k then (e.1, e.2 ++ [x]) else e := by
  rw [insert, if_pos ⟨by rw [hk]; rfl, by rw [hk]; exact h⟩, hk]

theorem insert_new {gs : List (Option κ × List α)}
    (h : ∀ k, key x = some k → some k ∉ gs.map Prod.fst) :
    insert key gs x = gs ++ [(key x, [x])] := by
  rw [insert, if_neg]
  rintro ⟨hs, hm⟩
  obtain ⟨k, hk⟩ := Option.isSome_iff_exists.mp hs
  exact h k hk (hk ▸ hm)

theorem keys_insert_known {gs : List (Option κ × List α)} {k : κ} (hk : key x = some k)
    (h : some k ∈ gs.map Prod.fst) : (insert key gs x).map Prod.fst = gs.map Prod.fst := by
  rw [insert_known hk h, List.map_map]
  refine List.map_congr_left fun e _ => ?_
  show (if e.1 = some k then (e.1, e.2 ++ [x]) else e).1 = e.1
  split <;> rfl

theorem mem_insert_known {gs : List (Option κ × List α)} {k : κ} {k' : Option κ} {g : List α}
    (hk : key x = some k) (h : some k ∈ gs.map Prod.fst) (hg : (k', g) ∈ insert key gs x) :
    (k' = some k ∧ ∃ g', (some k, g') ∈ gs ∧ g = g' ++ [x]) ∨ (k' ≠ some k ∧ (k', g) ∈ gs) := by
  rw [insert_known hk h] at hg
  obtain ⟨⟨k'', g''⟩, hmem, he⟩ := List.mem_map.mp hg
  by_cases hkk : k'' = some k
  · subst hkk
    rw [if_pos rfl] at he
    cases he
    exact .inl ⟨rfl, g'', hmem, rfl⟩
  · rw [if_neg hkk] at he
    cases he
    exact .inr ⟨hkk, hmem⟩

/-- No group is empty, and its elements have its key. -/
theorem mem_groups {k : Option κ} {g : List α} (h : (k, g) ∈ groups key l) :
    g ≠ [] ∧ (∀ y ∈ g, key y = k ∧ y ∈ l) ∧ (k = none → g.length = 1) := by
  induction l using List.reverseRecOn generalizing k g with
  | nil => simp at h
  | append_singleton l x ih =>
    rw [groups_concat] at h
    have hold : ∀ k' g', (k', g') ∈ groups key l → g' ≠ [] ∧
        (∀ y ∈ g', key y = k' ∧ y ∈ l ++ [x]) ∧ (k' = none → g'.length = 1) := fun k' g' h' =>
      have hi := ih h'
      ⟨hi.1, fun y hy => ⟨(hi.2.1 y hy).1, List.mem_append_left _ (hi.2.1 y hy).2⟩, hi.2.2⟩
    by_cases hnew : ∀ k', key x = some k' → some k' ∉ (groups key l).map Prod.fst
    · rw [insert_new hnew] at h
      rcases List.mem_append.mp h with h | h
      · exact hold k g h
      · cases List.mem_singleton.mp h
        refine ⟨by simp, fun y hy => ?_, fun _ => rfl⟩
        rw [List.mem_singleton.mp hy]
        exact ⟨rfl, by simp⟩
    · push Not at hnew
      obtain ⟨k', hk', hmem⟩ := hnew
      rcases mem_insert_known hk' hmem h with ⟨rfl, g', hg', rfl⟩ | ⟨-, h⟩
      · refine ⟨by simp, fun y hy => ?_, nofun⟩
        rcases List.mem_append.mp hy with hy | hy
        · exact (hold _ _ hg').2.1 y hy
        · rw [List.mem_singleton.mp hy]
          exact ⟨hk', by simp⟩
      · exact hold k g h

theorem length_groups_le : (groups key l).length ≤ l.length := by
  induction l using List.reverseRecOn with
  | nil => simp
  | append_singleton l x ih =>
    rw [groups_concat, insert, List.length_append]
    split
    · rw [List.length_map]
      omega
    · rw [List.length_append, List.length_singleton, List.length_singleton]
      omega

/-- Renaming the keys, one to one, keeps the groups. -/
theorem groups_map_key {f : κ → ι} (hf : Function.Injective f) :
    groups (fun y => (key y).map f) l = (groups key l).map fun e => (e.1.map f, e.2) := by
  induction l using List.reverseRecOn with
  | nil => rfl
  | append_singleton l x ih =>
    have hfst : ((groups key l).map fun e => (e.1.map f, e.2)).map Prod.fst =
        ((groups key l).map Prod.fst).map (Option.map f) := by
      rw [List.map_map, List.map_map]
      rfl
    have hmem : ∀ k, some (f k) ∈ ((groups key l).map Prod.fst).map (Option.map f) ↔
        some k ∈ (groups key l).map Prod.fst := fun k => by
      rw [show some (f k) = Option.map f (some k) from rfl]
      exact List.mem_map_of_injective (Option.map_injective hf)
    rw [groups_concat, groups_concat, ih]
    by_cases hnew : ∀ k, key x = some k → some k ∉ (groups key l).map Prod.fst
    · rw [insert_new hnew, insert_new, List.map_append]
      · rfl
      · intro i hi
        obtain ⟨k, hk, rfl⟩ := Option.map_eq_some_iff.mp hi
        rw [hfst, hmem]
        exact hnew k hk
    · push Not at hnew
      obtain ⟨k, hk, hm⟩ := hnew
      have hk' : (fun y => (key y).map f) x = some (f k) := by
        show (key x).map f = some (f k)
        rw [hk]
        rfl
      have hm' : some (f k) ∈ ((groups key l).map fun e => (e.1.map f, e.2)).map Prod.fst := by
        rw [hfst, hmem]
        exact hm
      rw [insert_known hk hm, @insert_known α ι _ (fun y => (key y).map f) x _ (f k) hk' hm',
        List.map_map, List.map_map]
      refine List.map_congr_left fun e _ => ?_
      have he : e.1.map f = some (f k) ↔ e.1 = some k :=
        ⟨fun h => Option.map_injective hf h, fun h => by rw [h]; rfl⟩
      show (if e.1.map f = some (f k) then (e.1.map f, e.2 ++ [x]) else (e.1.map f, e.2)) =
        ((if e.1 = some k then (e.1, e.2 ++ [x]) else e).1.map f,
          (if e.1 = some k then (e.1, e.2 ++ [x]) else e).2)
      by_cases hek : e.1 = some k
      · rw [if_pos (he.mpr hek), if_pos hek]
      · rw [if_neg (fun h => hek (he.mp h)), if_neg hek]

/-! ### Runs of adjacent elements -/

/-- `x` joins the last run if it has its key, or begins one. -/
def extend (key : α → Option κ) (gs : List (Option κ × List α)) (x : α) :
    List (Option κ × List α) :=
  match gs.getLast? with
  | none => [(key x, [x])]
  | some e => if (key x).isSome ∧ e.1 = key x then gs.dropLast ++ [(e.1, e.2 ++ [x])]
    else gs ++ [(key x, [x])]

def runs (key : α → Option κ) (l : List α) : List (Option κ × List α) :=
  l.foldl (extend key) []

theorem runs_concat : runs key (l ++ [x]) = extend key (runs key l) x := by
  rw [runs, List.foldl_concat, runs]

theorem extend_known {gs : List (Option κ × List α)} {g : List α} {k : κ} (hk : key x = some k) :
    extend key (gs ++ [(some k, g)]) x = gs ++ [(some k, g ++ [x])] := by
  unfold extend
  rw [List.getLast?_concat]
  dsimp only
  rw [if_pos ⟨by rw [hk]; rfl, hk.symm⟩, List.dropLast_concat]

theorem extend_new {gs : List (Option κ × List α)}
    (h : ∀ e, gs.getLast? = some e → ∀ k, key x = some k → e.1 ≠ some k) :
    extend key gs x = gs ++ [(key x, [x])] := by
  unfold extend
  rcases he : gs.getLast? with _ | e
  · rw [List.getLast?_eq_none_iff.mp he]
    rfl
  · dsimp only
    rw [if_neg]
    rintro ⟨hs, hek⟩
    obtain ⟨k, hk⟩ := Option.isSome_iff_exists.mp hs
    exact h e he k hk (hek.trans hk)

/-- A row changes the last run at most. -/
theorem extend_append {gs cur : List (Option κ × List α)} (hcur : cur ≠ []) :
    extend key (gs ++ cur) x = gs ++ extend key cur x := by
  obtain ⟨cur, e, rfl⟩ := (List.eq_nil_or_concat cur).resolve_left hcur
  rw [List.concat_eq_append]
  unfold extend
  rw [← List.append_assoc, List.getLast?_concat, List.getLast?_concat]
  dsimp only
  split
  · rw [List.dropLast_concat, List.dropLast_concat, List.append_assoc]
  · rw [List.append_assoc, List.append_assoc, List.append_assoc]

theorem extend_ne_nil {gs : List (Option κ × List α)} : extend key gs x ≠ [] := by
  unfold extend
  split
  · simp
  · split <;> simp

/-- The runs before the last one stay as they are, and so does a last one without a key. -/
theorem runs_append {m : List α} : ∀ {l : List α} {gs cur : List (Option κ × List α)},
    runs key l = gs ++ cur → (cur = [] → ∀ e, gs.getLast? = some e → e.1 = none) →
    ∃ t, runs key (l ++ m) = gs ++ t := by
  induction m with
  | nil =>
    intro l gs cur h _
    rw [List.append_nil]
    exact ⟨cur, h⟩
  | cons y m ih =>
    intro l gs cur h hend
    rw [← List.singleton_append, ← List.append_assoc]
    by_cases hcur : cur = []
    · refine ih (?_ : _ = gs ++ [(key y, [y])]) (by simp)
      rw [runs_concat, h, hcur, List.append_nil]
      exact extend_new fun e he k _ hek => by
        rw [hend hcur e he] at hek
        cases hek
    · refine ih (?_ : _ = gs ++ _) (fun hnil => absurd hnil (extend_ne_nil : extend key cur y ≠ []))
      rw [runs_concat, h, extend_append hcur]

/-- Renaming the keys, one to one, keeps the runs. -/
theorem runs_map_key {f : κ → ι} (hf : Function.Injective f) :
    runs (fun y => (key y).map f) l = (runs key l).map fun e => (e.1.map f, e.2) := by
  induction l using List.reverseRecOn with
  | nil => rfl
  | append_singleton l x ih =>
    rw [runs_concat, runs_concat, ih]
    unfold extend
    rw [List.getLast?_map]
    rcases (runs key l).getLast? with _ | e
    · rfl
    · have he : ((key x).map f).isSome ∧ e.1.map f = (key x).map f ↔
          (key x).isSome ∧ e.1 = key x := by
        rw [Option.isSome_map]
        exact and_congr_right fun _ => (Option.map_injective hf).eq_iff
      show (if _ then _ else _) = List.map _ (if _ then _ else _)
      by_cases hx : (key x).isSome ∧ e.1 = key x
      · rw [if_pos hx, if_pos (he.mpr hx), List.map_append, List.map_dropLast]
        rfl
      · rw [if_neg hx, if_neg (fun h => hx (he.mp h)), List.map_append]
        rfl

/-- Where no key begins two runs, the runs are the groups. -/
theorem runs_eq_groups (h : ((runs key l).filterMap Prod.fst).Nodup) :
    runs key l = groups key l := by
  induction l using List.reverseRecOn with
  | nil => rfl
  | append_singleton l x ih =>
    rw [runs_concat] at h ⊢
    rw [groups_concat]
    by_cases hx : ∃ gs g k, key x = some k ∧ runs key l = gs ++ [(some k, g)]
    · obtain ⟨gs, g, k, hk, hl⟩ := hx
      rw [hl, extend_known hk, List.filterMap_append, List.nodup_append] at h
      have hl' : groups key l = gs ++ [(some k, g)] := by
        rw [← ih, hl]
        rw [hl, List.filterMap_append, List.nodup_append]
        exact h
      have hne : ∀ e ∈ gs, e.1 ≠ some k := fun e he hek =>
        h.2.2 k (List.mem_filterMap.mpr ⟨e, he, hek⟩) k (by simp) rfl
      rw [hl, extend_known hk, hl', insert_known hk (by simp), List.map_append]
      congr 1
      · refine ((List.map_congr_left fun e he => ?_).trans (List.map_id gs)).symm
        rw [if_neg (hne e he)]
        rfl
      · rw [List.map_singleton, if_pos rfl]
    · have hnew : extend key (runs key l) x = runs key l ++ [(key x, [x])] := by
        refine extend_new fun e he k hk hek => hx ?_
        obtain ⟨gs, hgs⟩ := List.getLast?_eq_some_iff.mp he
        exact ⟨gs, e.2, k, hk, by rw [hgs, ← hek]⟩
      rw [hnew, List.filterMap_append, List.nodup_append] at h
      have hl := ih h.1
      rw [hnew, hl, insert_new]
      intro k hk hmem
      rw [← hl] at hmem
      obtain ⟨e, he, hek⟩ := List.mem_map.mp hmem
      exact h.2.2 k (List.mem_filterMap.mpr ⟨e, he, hek⟩) k (by simp [hk]) rfl

end Grouping
end CloudManager
