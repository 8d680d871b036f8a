/-
# Ordered rows give an object for each run

With `resultOrdered` the handler passes an object on when the next one begins, and
forgets what it knew. `ordered`: it passes on the trees of the runs of adjacent rows
with one key, without those that give no object, the first `limit` of them and each
of them whole. `ordered_eq_joined`: where no key begins two runs, these are the
objects it passes on without `resultOrdered`.
-/
import CloudManager.Commons.JoinedRows

namespace CloudManager
namespace ResultSetHandler

open Grouping

variable {V : Type*} [DecidableEq V] {q : Query} {m : ResultMap}

/-- The runs that give an object. -/
def foundRuns (q : Query) (m : ResultMap) (gs : List (Option (CacheKey V) × List (Row V))) :
    List (Tree V) :=
  (gs.filter fun g => found q m none (first g.2)).map fun g => tree q m none g.2

theorem foundRuns_append (gs gs' : List (Option (CacheKey V) × List (Row V))) :
    foundRuns q m (gs ++ gs') = foundRuns q m gs ++ foundRuns q m gs' := by
  unfold foundRuns
  rw [List.filter_append, List.map_append]

theorem foundRuns_singleton (g : Option (CacheKey V) × List (Row V)) :
    foundRuns q m [g] = if found q m none (first g.2) then [tree q m none g.2] else [] := by
  unfold foundRuns
  by_cases hf : found q m none (first g.2) = true
  · simp [hf]
  · simp [hf]

/-- Between two rows: the runs `closed` are passed on, objects from `lo` on are those of the
run under way. -/
structure Under (q : Query) (m : ResultMap) (closed : List (Option (CacheKey V) × List (Row V)))
    (cur : List (Made V)) (lo : ℕ) (s : Handler V) (results : List (Option ℕ)) : Prop where
  family : Family s (Holds q s m none) (found q m none) (rootKey q m) lo
    (cur.flatMap fun e => e.1.2) cur
  old : ∀ k b, s.nestedResultObjects k = some b → lo ≤ b
  lo_le : lo ≤ s.objects.length
  inv : Inv s
  anc : Anc [] s
  results : ∀ objects : List (Object V), (∀ b < lo, objects[b]? = s.objects[b]?) →
    results.map (Option.map (read objects m)) = (foundRuns q m closed).map some

section
variable {closed : List (Option (CacheKey V) × List (Row V))} {cur : List (Made V)} {lo : ℕ}
  {s : Handler V} {results : List (Option ℕ)}

theorem under_nil : Under q m ([] : List (Option (CacheKey V) × List (Row V))) [] 0 {} [] where
  family := ⟨rfl, nofun, nofun, fun _ _ _ _ _ _ => rfl⟩
  old := nofun
  lo_le := Nat.le_refl 0
  inv := ⟨nofun, nofun⟩
  anc := fun _ _ => rfl
  results := fun _ _ => rfl

/-- Nothing older than the run under way changes. -/
theorem Under.older (h : Under q m closed cur lo s results) {K : CacheKey V → Prop}
    {s' : Handler V} (hF : Frame K (fun _ => False) s s') :
    (∀ k b, s'.nestedResultObjects k = some b → lo ≤ b) ∧ lo ≤ s'.objects.length ∧
    ∀ objects : List (Object V), (∀ b < lo, objects[b]? = s'.objects[b]?) →
      results.map (Option.map (read objects m)) = (foundRuns q m closed).map some := by
  have hle := h.lo_le
  refine ⟨fun k b hb => ?_, Nat.le_trans hle hF.le, fun objects ho => h.results objects ?_⟩
  · rcases hF.origin k b hb with hb | hb | hb
    · exact h.old k b hb
    · omega
    · exact hb.elim
  · intro b hb
    rw [ho b hb, hF.objects b (by omega) id]
    intro k _ hk
    have := h.old k b hk
    omega

/-- The run under way is passed on, and its objects are forgotten. -/
theorem Under.close {g : Option (CacheKey V) × List (Row V)} {a : ℕ}
    (h : Under q m closed [(g, some a)] lo s results) :
    Under q m (closed ++ [g]) [] s.objects.length { s with nestedResultObjects := fun _ => none }
      (results ++ [some a]) where
  family := ⟨rfl, nofun, nofun, fun _ _ _ _ _ _ => rfl⟩
  old := nofun
  lo_le := Nat.le_refl _
  inv := ⟨nofun, nofun⟩
  anc := h.anc
  results := by
    intro objects ho
    have hle := h.lo_le
    have hread := h.family.map_read (read_of_holds ho)
    have hold := h.results objects fun b hb => ho b (by omega)
    obtain ⟨hf, -⟩ := h.family.made _ (List.mem_singleton_self _) a rfl
    rw [← h.family.groups_eq] at hread
    have htree : some (read objects m a) = some (tree q m none g.2) :=
      (List.head_eq_of_cons_eq hread).trans (if_pos hf)
    rw [List.map_append, hold, foundRuns_append, foundRuns_singleton, if_pos hf, List.map_append]
    exact congrArg _ (congrArg (fun t => [t]) htree)

/-- A row begins a run: its object is under way, or there is none. -/
theorem Under.begin (hwf : wellFormed q m none [] = true) (h : Under q m closed [] lo s results)
    (row : Row V) {r : Option ℕ × Handler V}
    (hr : r = getRowValue q row m (rootKey q m row) none none s) :
    (rootKey q m row).bind s.nestedResultObjects = none ∧
    ∃ closed' cur, closed' ++ cur.map Prod.fst = closed ++ [(rootKey q m row, [row])] ∧
      (cur = [] → ∀ e, closed'.getLast? = some e → e.1 = none) ∧
      (∀ e ∈ cur, e.2 = r.1) ∧ (cur = [] ↔ r.1 = none) ∧ cur.length ≤ 1 ∧
      Under q m closed' cur lo r.2 results := by
  obtain ⟨hnone, hfst, hstep, hfam⟩ := h.family.step_new (getRowValue_spec q hwf) h.inv h.anc
    h.lo_le depth_rootKey (found_of_rootKey hwf) row fun _ _ => by simp
  obtain ⟨hold, hle, hres⟩ := h.older hstep.frame
  rw [← hr] at hfst hfam hold hle hres hstep
  refine ⟨hnone, ?_⟩
  by_cases hf : found q m none row = true
  · rw [if_pos hf] at hfst
    refine ⟨closed, [((rootKey q m row, [row]), r.1)], rfl, nofun, ?_, ?_, Nat.le_refl _, ?_⟩
    · intro e he
      rw [List.mem_singleton.mp he]
    · rw [hfst]
      simp
    · exact ⟨hfam, hold, hle, hstep.inv, hstep.anc, hres⟩
  · rw [if_neg hf] at hfst
    have hkey : rootKey q m row = none := by
      rcases hk : rootKey q m row with _ | k
      · rfl
      · exact absurd (found_of_rootKey hwf row k hk) hf
    refine ⟨closed ++ [(rootKey q m row, [row])], [], List.append_nil _, fun _ e he => ?_, nofun,
      by simp [hfst], Nat.zero_le _, ⟨⟨rfl, nofun, nofun, ?_⟩, hold, hle, hstep.inv, hstep.anc, ?_⟩⟩
    · rw [List.getLast?_concat] at he
      cases he
      exact hkey
    · intro row' k hk hnew k' hw
      rw [hstep.frame.keys k' (by rw [hkey]; rintro ⟨_, h, _⟩; cases h)]
      exact h.family.unknown row' k hk hnew k' hw
    · intro objects ho
      rw [foundRuns_append, foundRuns_singleton,
        if_neg (show ¬ found q m none (first [row]) = true from hf), List.append_nil]
      exact hres objects ho

/-- A row of the key of the run under way joins it. -/
theorem Under.join (hwf : wellFormed q m none [] = true) {k : CacheKey V} {g : List (Row V)} {a : ℕ}
    (h : Under q m closed [((some k, g), some a)] lo s results) (row : Row V)
    (hk : rootKey q m row = some k) {r : Option ℕ × Handler V}
    (hr : r = getRowValue q row m (some k) none (some a) s) :
    s.nestedResultObjects k = some a ∧ r.1 = some a ∧
      Under q m closed [((some k, g ++ [row]), some a)] lo r.2 results := by
  have hrows : ([((some k, g), some a)] : List (Made V)).flatMap (fun e => e.1.2) = g :=
    List.append_nil g
  have hfamily := h.family
  rw [hrows] at hfamily
  have hg : groups (rootKey q m) g = [(some k, g)] := hfamily.groups_eq.symm
  obtain ⟨a', fam, hka, hfst, hstep, hmap, hfam⟩ := hfamily.step_known (getRowValue_spec q hwf)
    h.inv h.anc depth_rootKey (found_of_rootKey hwf) row hk (by rw [hg]; simp)
  have haa : a' = a := by
    have := (hfamily.made _ (List.mem_singleton_self _) a rfl).2.2.2.1.key k rfl
    exact Option.some.inj (hka.symm.trans this)
  subst haa
  rw [← hr] at hfst hstep hfam
  have hfst' := hfam.groups_eq
  rw [groups_concat, hg, insert_known hk (by simp), List.map_singleton, if_pos rfl] at hfst'
  have hfam' : fam = [((some k, g ++ [row]), some a')] := by
    have hlen : fam.length = 1 := by
      have := congrArg List.length hmap
      rwa [List.length_map, List.length_map] at this
    obtain ⟨e, rfl⟩ := List.length_eq_one_iff.mp hlen
    have h₁ := List.head_eq_of_cons_eq hfst'
    have h₂ := List.head_eq_of_cons_eq hmap
    exact congrArg (fun e => [e]) (Prod.ext h₁ h₂)
  subst hfam'
  obtain ⟨hold, hle, hres⟩ := h.older hstep.frame
  refine ⟨hka, hfst, ?_, hold, hle, hstep.inv, hstep.anc, hres⟩
  rw [show ([((some k, g ++ [row]), some a')] : List (Made V)).flatMap (fun e => e.1.2) =
    g ++ [row] from List.append_nil _]
  exact hfam

end

/-! ### The rows of a query -/

/-- The loop with `resultOrdered` after the rows `done`. -/
def Ran (q : Query) (m : ResultMap) (done : List (Row V)) (l : Loop V) : Prop :=
  ∃ closed cur lo, runs (rootKey q m) done = closed ++ cur.map Prod.fst ∧
    (cur = [] → ∀ e, closed.getLast? = some e → e.1 = none) ∧
    (∀ e ∈ cur, e.2 = l.rowValue) ∧ (cur = [] ↔ l.rowValue = none) ∧ cur.length ≤ 1 ∧
    Under q m closed cur lo l.handler l.results

theorem ran_nil : Ran q m ([] : List (Row V)) {} :=
  ⟨[], [], 0, rfl, nofun, nofun, by simp, Nat.zero_le _, under_nil⟩

/-- A row of the loop with `resultOrdered`. -/
theorem Ran.step (hwf : wellFormed q m none [] = true) {done : List (Row V)} {l : Loop V}
    (h : Ran q m done l) (row : Row V) :
    Ran q m (done ++ [row]) (handleRow q m true l row) ∧
      (handleRow q m true l row).results.length ≤ l.results.length + 1 := by
  obtain ⟨closed, cur, lo, hruns, hend, hval, hnil, hlen, hunder⟩ := h
  have hkey : (createRowKey q m none row).map CacheKey.root = rootKey q m row := rfl
  unfold handleRow Ran
  rw [hkey, if_pos rfl, runs_concat, hruns]
  rcases cur with _ | ⟨e, cur⟩
  · -- no run is under way
    have hnone := hnil.mp rfl
    obtain ⟨hpart, closed', cur', happ, hend', hval', hnil', hlen', hunder'⟩ :=
      hunder.begin hwf row rfl
    rw [hpart, hnone]
    refine ⟨⟨closed', cur', lo, ?_, hend', hval', hnil', hlen', hunder'⟩, by simp⟩
    rw [List.map_nil, List.append_nil, happ]
    exact extend_new fun e he k _ hek => by
      rw [hend rfl e he] at hek
      cases hek
  · have hcur : cur = [] := List.length_eq_zero_iff.mp (by simpa using hlen)
    subst hcur
    obtain ⟨a, ha⟩ : ∃ a, l.rowValue = some a := by
      rcases hv : l.rowValue with _ | a
      · cases hnil.mpr hv
      · exact ⟨a, rfl⟩
    obtain ⟨⟨κ, g⟩, v⟩ := e
    obtain rfl : v = some a := (hval _ (List.mem_singleton_self _)).trans ha
    by_cases hsame : ∃ k, rootKey q m row = some k ∧ κ = some k
    · obtain ⟨k, hk, rfl⟩ := hsame
      obtain ⟨hka, hfst, hunder'⟩ := hunder.join hwf row hk rfl
      have hpart : (rootKey q m row).bind l.handler.nestedResultObjects = some a := by
        rw [hk]
        exact hka
      rw [hpart, hk]
      refine ⟨⟨closed, [((some k, g ++ [row]), some a)], lo, ?_, nofun, ?_, ?_, Nat.le_refl _,
        hunder'⟩, Nat.le_succ _⟩
      · exact extend_known hk
      · intro e he
        rw [List.mem_singleton.mp he]
        exact hfst.symm
      · simp [hfst]
    · -- another run begins
      have hpart : (rootKey q m row).bind l.handler.nestedResultObjects = none := by
        rcases hk : rootKey q m row with _ | k
        · rfl
        · refine hunder.family.unknown row k hk ?_ k (Within.refl k)
          rw [← hunder.family.groups_eq]
          intro hmem
          exact hsame ⟨k, hk, (List.mem_singleton.mp hmem).symm⟩
      obtain ⟨hpart', closed', cur', happ, hend', hval', hnil', hlen', hunder'⟩ :=
        hunder.close.begin hwf row rfl
      rw [hpart, ha]
      refine ⟨⟨closed', cur', l.handler.objects.length, ?_, hend', hval', hnil', hlen', hunder'⟩, ?_⟩
      · rw [happ]
        refine extend_new fun e he k hk hek => hsame ⟨k, hk, ?_⟩
        rw [List.map_singleton, List.getLast?_concat] at he
        rw [← hek, ← Option.some.inj he]
      · simp

/-- What is passed on is the start of what the rows give, the object under way the next. -/
theorem Ran.results {done : List (Row V)} {l : Loop V} (h : Ran q m done l) :
    ∃ ts, l.results.map (Option.map (read l.handler.objects m)) = ts.map some ∧
      (∀ rest, ∃ t, foundRuns q m (runs (rootKey q m) (done ++ rest)) = ts ++ t) ∧
      foundRuns q m (runs (rootKey q m) done) =
        ts ++ (l.rowValue.map (read l.handler.objects m)).toList := by
  obtain ⟨closed, cur, lo, hruns, hend, hval, hnil, hlen, hunder⟩ := h
  refine ⟨foundRuns q m closed, hunder.results _ fun _ _ => rfl, fun rest => ?_, ?_⟩
  · obtain ⟨t, ht⟩ := runs_append (m := rest) hruns fun hcur => hend (List.map_eq_nil_iff.mp hcur)
    rw [ht, foundRuns_append]
    exact ⟨_, rfl⟩
  · rw [hruns, foundRuns_append]
    congr 1
    rcases cur with _ | ⟨e, cur⟩
    · rw [hnil.mp rfl]
      rfl
    · have hcur : cur = [] := List.length_eq_zero_iff.mp (by simpa using hlen)
      subst hcur
      have hmem : e ∈ [e] := List.mem_singleton_self e
      have hread := hunder.family.map_read (read_of_holds fun _ _ => rfl)
      rw [← hunder.family.groups_eq] at hread
      rcases hv : e.2 with _ | a
      · rw [hval e hmem] at hv
        cases hnil.mpr hv
      · obtain ⟨hf, -⟩ := hunder.family.made e hmem a hv
        rw [← hval e hmem, List.map_singleton, foundRuns_singleton, if_pos hf]
        have htree : e.2.map (read l.handler.objects m) = some (tree q m none e.1.2) :=
          (List.head_eq_of_cons_eq hread).trans (if_pos hf)
        rw [htree]
        rfl

theorem handleRows_ran (hwf : wellFormed q m none [] = true) (limit : ℕ) {rows : List (Row V)} :
    ∀ {done : List (Row V)} {l : Loop V}, Ran q m done l → l.results.length ≤ limit →
    ∃ done' rest, done' ++ rest = done ++ rows ∧
      Ran q m done' (handleRows q m true limit l rows) ∧
      (handleRows q m true limit l rows).results.length ≤ limit ∧
      (rest = [] ∨ (handleRows q m true limit l rows).results.length = limit) := by
  induction rows with
  | nil =>
    intro done l h hle
    exact ⟨done, [], rfl, h, hle, .inl rfl⟩
  | cons row rows ih =>
    intro done l h hle
    unfold handleRows
    split
    · rename_i hlt
      obtain ⟨h', hle'⟩ := h.step hwf row
      obtain ⟨done', rest, happ, hrest⟩ := ih h' (by omega)
      exact ⟨done', rest, by rw [happ, List.append_assoc]; rfl, hrest⟩
    · rename_i hge
      exact ⟨done, row :: rows, rfl, h, hle, .inr (by omega)⟩

/-- **With `resultOrdered` the runs become trees, each of them whole**: those that give an
object, up to the limit. -/
theorem ordered (hwf : wellFormed q m none [] = true) (offset limit : ℕ) (rows : List (Row V)) :
    let l := handleRowValuesForNestedResultMap q m true offset limit rows
    l.results.map (Option.map (read l.handler.objects m)) =
      (((runs (createRowKey q m none) (rows.drop offset)).filter fun g =>
        found q m none (first g.2)).take limit).map fun g => some (tree q m none g.2) := by
  intro l
  have htrees : (((runs (createRowKey q m none) (rows.drop offset)).filter fun g =>
      found q m none (first g.2)).take limit).map (fun g => some (tree q m none g.2)) =
      ((foundRuns q m (runs (rootKey q m) (rows.drop offset))).take limit).map some := by
    have hkey : rootKey q m = fun row : Row V => (createRowKey q m none row).map CacheKey.root := rfl
    unfold foundRuns
    rw [hkey, runs_map_key fun r r' h => CacheKey.root.inj h, List.filter_map, List.map_map,
      ← List.map_take, List.map_map]
    rfl
  obtain ⟨r, hr⟩ : ∃ r, r = handleRows q m true limit {} (rows.drop offset) := ⟨_, rfl⟩
  have hl : l = if r.rowValue.isSome && true && decide (r.results.length < limit) then
      { r with results := r.results ++ [r.rowValue], rowValue := none } else r := by
    rw [hr]
    rfl
  obtain ⟨done, rest, happ, hran, hle, hend⟩ : ∃ done' rest, done' ++ rest = [] ++ rows.drop offset ∧
      Ran q m done' r ∧ r.results.length ≤ limit ∧ (rest = [] ∨ r.results.length = limit) := by
    rw [hr]
    exact handleRows_ran hwf limit ran_nil (Nat.zero_le limit)
  obtain ⟨ts, hts, hrest, hlast⟩ := hran.results
  have hlen : ts.length = r.results.length := by
    have := congrArg List.length hts
    rw [List.length_map, List.length_map] at this
    exact this.symm
  rw [List.nil_append] at happ
  rw [htrees, ← happ]
  by_cases hlt : r.results.length < limit
  · -- all rows are read, and the object under way is passed on
    obtain rfl : rest = [] := hend.resolve_right (by omega)
    rw [List.append_nil, hlast, List.take_of_length_le]
    · rcases hv : r.rowValue with _ | a
      · rw [hl, hv]
        simpa using hts
      · rw [hl, hv]
        simp [hlt, hts]
    · rw [List.length_append, hlen]
      rcases r.rowValue with _ | a
      · exact hle
      · exact hlt
  · obtain ⟨t, ht⟩ := hrest rest
    rw [ht, List.take_append_of_le_length (by omega), List.take_of_length_le (by omega), hl,
      if_neg (by simp [hlt])]
    exact hts

/-- **Ordered rows give the objects that rows give in any order**, but for the nulls: if no
key begins two runs, `resultOrdered` changes nothing else. -/
theorem ordered_eq_joined (hwf : wellFormed q m none [] = true) (offset limit : ℕ)
    (rows : List (Row V)) (hlimit : rows.length ≤ limit)
    (hrows : ((runs (createRowKey q m none) (rows.drop offset)).filterMap Prod.fst).Nodup) :
    let l := handleRowValuesForNestedResultMap q m true offset limit rows
    let l' := handleRowValuesForNestedResultMap q m false offset limit rows
    l.results.map (Option.map (read l.handler.objects m)) =
      (l'.results.map (Option.map (read l'.handler.objects m))).filter Option.isSome := by
  intro l l'
  have hlen : ∀ rows' : List (Row V), (groups (createRowKey q m none) rows').length ≤
      rows'.length := fun _ => length_groups_le
  have hdrop : (rows.drop offset).length ≤ limit := by
    rw [List.length_drop]
    omega
  have hread : readRows q m limit (rows.drop offset) = rows.drop offset := by
    have := @find?_inits _ (rows.drop offset) [] fun start =>
      decide (limit ≤ (groups (createRowKey q m none) start).length)
    rw [List.append_nil] at this
    refine this (fun p hp hne => ?_) (.inl rfl)
    have := hlen p
    have := hp.length_le
    have : p.length ≠ (rows.drop offset).length := fun h => hne (hp.eq_of_length h)
    simp
    omega
  have hord : l.results.map (Option.map (read l.handler.objects m)) = _ :=
    ordered hwf offset limit rows
  have hjoin : l'.results.map (Option.map (read l'.handler.objects m)) = _ :=
    joined hwf offset limit rows
  rw [hord, hjoin, hread, runs_eq_groups hrows, List.filter_map, List.take_of_length_le]
  · have hsome : (Option.isSome ∘ fun g : Option (RowKey V) × List (Row V) =>
        if found q m none (first g.2) then some (tree q m none g.2) else none) =
        fun g => found q m none (first g.2) := by
      funext g
      show Option.isSome (if _ then _ else _) = _
      by_cases hf : found q m none (first g.2) = true
      · rw [if_pos hf, hf]
        rfl
      · rw [if_neg hf]
        simpa using hf
    rw [hsome]
    refine List.map_congr_left fun g hg => ?_
    rw [if_pos (List.mem_filter.mp hg).2]
  · have := hlen (rows.drop offset)
    exact Nat.le_trans (List.length_filter_le _ _) (by omega)

/-- An order whose rows are not adjacent is passed on twice. -/
example :
    (handleRowValuesForNestedResultMap { columnNames := ["ID", "I_ID"] } orders true 0 10
      [orderRow (some 1) (some 7), orderRow (some 2) none, orderRow (some 1) (some 8)]).results =
      [some 0, some 2, some 4] := by
  decide +kernel

/-- Orders one after the other, the second without an item. -/
theorem ordered_orders :
    let q : Query := { columnNames := ["ID", "I_ID"] }
    let rows := [orderRow (some 1) (some 7), orderRow (some 1) (some 8), orderRow (some 2) none]
    let l := handleRowValuesForNestedResultMap q orders true 0 1 rows
    l.results.map (Option.map (read l.handler.objects orders)) =
      (((runs (createRowKey q orders none) (rows.drop 0)).filter fun g =>
        found q orders none (first g.2)).take 1).map fun g => some (tree q orders none g.2) :=
  ordered (by decide +kernel) 0 1 _

theorem ordered_eq_joined_orders :
    let q : Query := { columnNames := ["ID", "I_ID"] }
    let rows := [orderRow (some 1) (some 7), orderRow (some 1) (some 8), orderRow (some 2) none]
    let l := handleRowValuesForNestedResultMap q orders true 0 3 rows
    let l' := handleRowValuesForNestedResultMap q orders false 0 3 rows
    l.results.map (Option.map (read l.handler.objects orders)) =
      (l'.results.map (Option.map (read l'.handler.objects orders))).filter Option.isSome :=
  ordered_eq_joined (by decide +kernel) 0 3 _ (by decide) (by decide +kernel)

end ResultSetHandler
end CloudManager
