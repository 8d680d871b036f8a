/-
# Joined rows give the trees they were joined from

What the objects of a result are meant to be: the rows grouped by their row key, the
first row of a group giving the values, and the rows of a group grouped again for
each nested result map (`tree`). `joined`: without `resultOrdered` the handler
passes on those trees, in the order their rows come, with a null where a row gives
no object. With a limit it reads the rows up to the one that begins the last object
(`readRows`), so later rows of that object are not read.
-/
import Mathlib.Data.List.Infix
import CloudManager.Commons.RowObjects

namespace CloudManager
namespace ResultSetHandler

open Grouping

variable {V : Type*}

/-! ### What the objects are meant to be -/

/-- An object with all it refers to. -/
inductive Tree (V : Type*)
  | node (values : String → Option V) (links : List (String × Link (Tree V)))

variable [DecidableEq V]

mutual

/-- **The tree of the rows of one object.** -/
def tree (q : Query) : ResultMap → Option String → List (Row V) → Tree V
  | .mk _ mappings autoMappings _ nested, columnPrefix, rows =>
    .node (rowValues q mappings autoMappings columnPrefix (first rows)).1
      (treeNested q nested columnPrefix rows)

def treeNested (q : Query) : NestedMaps → Option String → List (Row V) →
    List (String × Link (Tree V))
  | .nil, _, _ => []
  | .cons n m rest, parentPrefix, rows =>
    let columnPrefix := getColumnPrefix parentPrefix n
    let gs := groups (createRowKey q m columnPrefix)
      (rows.filter (anyNotNullColumnHasValue q n columnPrefix))
    let gs := gs.filter fun g => found q m columnPrefix (first g.2)
    (n.property, .ofList n.isCollection (gs.map fun g => tree q m columnPrefix g.2)) ::
      treeNested q rest parentPrefix rows

end

mutual

/-- The tree of an object of the handler. -/
def read (objects : List (Object V)) : ResultMap → ℕ → Tree V
  | .mk _ _ _ _ nested, a =>
    let o := objects.getD a {}
    .node o.values (readNested objects nested o)

def readNested (objects : List (Object V)) : NestedMaps → Object V →
    List (String × Link (Tree V))
  | .nil, _ => []
  | .cons n m rest, o =>
    (n.property, (o.links n.property).map (read objects m)) :: readNested objects rest o

end

/-- The key of the object of a row. -/
def rootKey (q : Query) (m : ResultMap) (row : Row V) : Option (CacheKey V) :=
  (createRowKey q m none row).map CacheKey.root

/-- The shortest start of the rows that begins `limit` objects, or all rows. -/
def readRows (q : Query) (m : ResultMap) (limit : ℕ) (rows : List (Row V)) : List (Row V) :=
  (rows.inits.find? fun start => limit ≤ (groups (createRowKey q m none) start).length).getD rows

/-! ### An object reads as its tree -/

theorem Link.map_ofList {α β : Type*} (f : α → β) (isCollection : Bool) (as : List α) :
    (Link.ofList isCollection as).map f = .ofList isCollection (as.map f) := by
  unfold Link.ofList
  cases isCollection
  · rw [List.getLast?_map]
    rcases as.getLast? with _ | a <;> rfl
  · rfl

theorem reduceOption_map_ite {α β : Type*} (p : α → Bool) (f : α → β) (l : List α) :
    (l.map fun x => if p x then some (f x) else none).reduceOption = (l.filter p).map f := by
  induction l with
  | nil => rfl
  | cons x l ih =>
    rw [List.map_cons]
    by_cases hp : p x = true
    · rw [if_pos hp, List.filter_cons_of_pos hp, List.map_cons, ← ih]
      rfl
    · rw [if_neg hp, List.filter_cons_of_neg hp, ← ih]
      rfl

/-- The groups by the nested keys are those by the keys of the rows: rows of an object
without a key are one. -/
theorem groups_nestedKey {q : Query} {m : ResultMap} {columnPrefix : Option String}
    {κ : Option (CacheKey V)} {l : List (Row V)} (h : κ = none → l.length ≤ 1) :
    (groups (nestedKey q m columnPrefix κ) l).map Prod.snd =
      (groups (createRowKey q m columnPrefix) l).map Prod.snd := by
  rcases κ with _ | p
  · match l, h rfl with
    | [], _ => rfl
    | [row], _ => rw [groups_singleton, groups_singleton]; rfl
  · have hkey : nestedKey q m columnPrefix (some p) =
        fun row => (createRowKey q m columnPrefix row).map fun r => CacheKey.combined r p := by
      funext row
      unfold nestedKey combineKeys
      rcases createRowKey q m columnPrefix row <;> rfl
    rw [hkey, groups_map_key fun r r' h => (CacheKey.combined.inj h).1, List.map_map]
    rfl

/-- What a family refers to are the trees of its groups. -/
theorem Family.map_read {q : Query} {s : Handler V} {m : ResultMap} {columnPrefix : Option String}
    {key : Row V → Option (CacheKey V)} {lo : ℕ} {rows : List (Row V)} {fam : List (Made V)}
    (h : Family s (Holds q s m columnPrefix) (found q m columnPrefix) key lo rows fam)
    {objects : List (Object V)} (hread : ∀ κ rows a, rows ≠ [] →
      (κ = none → rows.length ≤ 1) → Holds q s m columnPrefix κ rows a →
      read objects m a = tree q m columnPrefix rows) :
    (fam.map Prod.snd).map (Option.map (read objects m)) =
      ((groups key rows).map Prod.snd).map fun g =>
        if found q m columnPrefix (first g) then some (tree q m columnPrefix g) else none := by
  rw [← h.groups_eq, List.map_map, List.map_map, List.map_map]
  refine List.map_congr_left fun e he => ?_
  show e.2.map (read objects m) = if found q m columnPrefix (first e.1.2) then
    some (tree q m columnPrefix e.1.2) else none
  have hg : e.1 ∈ groups key rows := h.groups_eq ▸ List.mem_map_of_mem he
  obtain ⟨hne, -, hone⟩ := mem_groups hg
  rcases hb : e.2 with _ | b
  · rw [h.notFound e he hb]
    rfl
  · obtain ⟨hf, -, -, -, hh⟩ := h.made e he b hb
    rw [hf]
    exact congrArg some (hread e.1.1 e.1.2 b hne (fun hn => Nat.le_of_eq (hone hn)) hh)

section
variable {q : Query} {s : Handler V} {objects : List (Object V)}

mutual

/-- Whatever happens to newer objects, an object reads as the tree of its rows. -/
theorem read_of_holds (hobj : ∀ b < s.objects.length, objects[b]? = s.objects[b]?) :
    ∀ {m : ResultMap} {columnPrefix : Option String} (κ : Option (CacheKey V))
    (rows : List (Row V)) (a : ℕ), rows ≠ [] → (κ = none → rows.length ≤ 1) →
    Holds q s m columnPrefix κ rows a → read objects m a = tree q m columnPrefix rows
  | .mk _ _ _ _ _, _, κ, rows, a, hne, hone, h => by
    obtain ⟨o, ho, hv, hn⟩ := h
    have hget : objects.getD a {} = o := by
      rw [List.getD_eq_getElem?_getD, hobj a (List.getElem?_eq_some_iff.mp ho).1, ho]
      rfl
    unfold read tree
    dsimp only
    rw [hget, hv, readNested_of_holds hobj κ rows a hne hone hn]

theorem readNested_of_holds (hobj : ∀ b < s.objects.length, objects[b]? = s.objects[b]?)
    {o : Object V} : ∀ {ns : NestedMaps} {parentPrefix : Option String}
    (κ : Option (CacheKey V)) (rows : List (Row V)) (a : ℕ), rows ≠ [] →
    (κ = none → rows.length ≤ 1) → HoldsNested q s ns parentPrefix κ rows o.links a →
    readNested objects ns o = treeNested q ns parentPrefix rows
  | .nil, _, _, _, _, _, _, _ => rfl
  | .cons n m rest, parentPrefix, κ, rows, a, hne, hone, h => by
    obtain ⟨⟨fam, hlink, hfam⟩, hrest⟩ := h
    have hmap := hfam.map_read (read_of_holds hobj)
    rw [groups_nestedKey fun hκ =>
      Nat.le_trans (List.length_filter_le _ _) (hone hκ)] at hmap
    unfold readNested treeNested
    dsimp only
    rw [readNested_of_holds hobj κ rows a hne hone hrest, hlink, if_neg hne, Link.map_ofList,
      ← List.reduceOption_map, hmap, List.map_map, ← reduceOption_map_ite]
    rfl

end

end

/-! ### The rows of a query -/

section
variable {q : Query} {m : ResultMap}

/-- The loop after the rows `done`. -/
structure Done (q : Query) (m : ResultMap) (done : List (Row V)) (fam : List (Made V))
    (l : Loop V) : Prop where
  family : Family l.handler (Holds q l.handler m none) (found q m none) (rootKey q m) 0 done fam
  results : l.results = fam.map Prod.snd
  inv : Inv l.handler
  anc : Anc [] l.handler

theorem groups_rootKey (rows : List (Row V)) : (groups (rootKey q m) rows).map Prod.snd =
    (groups (createRowKey q m none) rows).map Prod.snd := by
  have hkey : rootKey q m = fun row : Row V => (createRowKey q m none row).map CacheKey.root := rfl
  rw [hkey, groups_map_key fun r r' h => CacheKey.root.inj h, List.map_map]
  rfl

theorem Done.length {done : List (Row V)} {fam : List (Made V)} {l : Loop V}
    (h : Done q m done fam l) :
    l.results.length = (groups (createRowKey q m none) done).length := by
  rw [h.results, List.length_map, ← @List.length_map _ _ (groups (createRowKey q m none) done)
    Prod.snd, ← groups_rootKey, ← h.family.groups_eq]
  simp

theorem done_nil : Done q m ([] : List (Row V)) [] {} where
  family := ⟨rfl, nofun, nofun, fun _ _ _ _ _ _ => rfl⟩
  results := rfl
  inv := ⟨nofun, nofun⟩
  anc := fun _ _ => rfl

omit [DecidableEq V] in
theorem depth_rootKey (row row' : Row V) (k k' : CacheKey V) (h : rootKey q m row = some k)
    (h' : rootKey q m row' = some k') : depth k = depth k' := by
  obtain ⟨r, -, rfl⟩ := Option.map_eq_some_iff.mp h
  obtain ⟨r', -, rfl⟩ := Option.map_eq_some_iff.mp h'
  rfl

omit [DecidableEq V] in
theorem found_of_rootKey (hwf : wellFormed q m none [] = true) (row : Row V) (k : CacheKey V)
    (h : rootKey q m row = some k) : found q m none row = true := by
  obtain ⟨r, hr, -⟩ := Option.map_eq_some_iff.mp h
  exact found_of_key (isKeyed_of_wellFormed hwf) hr

/-- A row of the loop without `resultOrdered`. -/
theorem Done.step (hwf : wellFormed q m none [] = true) {done : List (Row V)}
    {fam : List (Made V)} {l : Loop V} (h : Done q m done fam l) (row : Row V) :
    ∃ fam', Done q m (done ++ [row]) fam' (handleRow q m false l row) := by
  obtain ⟨hstep, fam', hfam, hcases⟩ := h.family.step (getRowValue_spec q hwf) h.inv h.anc
    (Nat.zero_le _) depth_rootKey (found_of_rootKey hwf) row rfl rfl
  refine ⟨fam', hfam, ?_, hstep.inv, hstep.anc⟩
  show (if ((rootKey q m row).bind l.handler.nestedResultObjects).isNone then _ else _) = _
  rcases hcases with ⟨hnone, hmap, -⟩ | ⟨hsome, -, hmap, -⟩
  · rw [if_pos (by rw [hnone]; rfl), hmap, ← h.results]
    rfl
  · rw [if_neg, hmap, ← h.results]
    rw [Option.isNone_iff_eq_none]
    exact Option.isSome_iff_ne_none.mp hsome

/-- The first start of a list that passes a test, where none before it does. -/
theorem find?_inits {α : Type*} {start rest : List α} : ∀ {P : List α → Bool},
    (∀ p, p <+: start → p ≠ start → P p = false) → (rest = [] ∨ P start = true) →
    ((start ++ rest).inits.find? P).getD (start ++ rest) = start := by
  induction start with
  | nil =>
    intro P _ hend
    rcases hend with rfl | hend
    · show (([[]] : List (List α)).find? P).getD [] = []
      rw [List.find?_cons]
      split <;> rfl
    · rcases rest with _ | ⟨x, rest⟩
      · rw [show ([] ++ [] : List α).inits = [[]] from rfl, List.find?_cons_of_pos hend]
        rfl
      · rw [List.nil_append, List.inits_cons, List.find?_cons_of_pos hend]
        rfl
  | cons x start ih =>
    intro P h hend
    have hnil : ¬ P [] = true := by
      rw [h [] (List.nil_prefix) (by simp)]
      simp
    have ih := @ih (fun p => P (x :: p))
      (fun p hp hne => h (x :: p) (List.cons_prefix_cons.mpr ⟨rfl, hp⟩) fun he =>
        hne (List.cons.inj he).2) hend
    rw [List.cons_append, List.inits_cons, List.find?_cons_of_neg hnil, List.find?_map]
    show Option.getD (Option.map (fun p => x :: p) _) (x :: (start ++ rest)) = _
    rw [Option.getD_map]
    exact congrArg (x :: ·) ih

/-- The loop stops at the row that begins the last object. -/
theorem handleRows_done (hwf : wellFormed q m none [] = true) (limit : ℕ)
    {rows : List (Row V)} : ∀ {done : List (Row V)} {fam : List (Made V)} {l : Loop V},
    Done q m done fam l →
    (∀ p, p <+: done → p ≠ done → (groups (createRowKey q m none) p).length < limit) →
    ∃ fam', Done q m (readRows q m limit (done ++ rows)) fam' (handleRows q m false limit l rows) := by
  induction rows with
  | nil =>
    intro done fam l h hp
    have hr : readRows q m limit (done ++ []) = done :=
      find?_inits (fun p hpd hne => by simpa using hp p hpd hne) (.inl rfl)
    rw [hr]
    exact ⟨fam, h⟩
  | cons row rows ih =>
    intro done fam l h hp
    unfold handleRows
    rw [h.length]
    split
    · rename_i hlt
      obtain ⟨fam', h'⟩ := h.step hwf row
      have := ih h' fun p hpd hne => by
        rcases List.prefix_concat_iff.mp hpd with rfl | hpd
        · exact absurd rfl hne
        · by_cases he : p = done
          · rw [he]
            exact hlt
          · exact hp p hpd he
      rw [List.append_assoc] at this
      exact this
    · rename_i hge
      have hr : readRows q m limit (done ++ row :: rows) = done :=
        find?_inits (fun p hpd hne => by simpa using hp p hpd hne)
          (.inr (decide_eq_true (Nat.le_of_not_lt hge)))
      rw [hr]
      exact ⟨fam, h⟩

/-- **Joined rows become the trees of their groups**, in the order the groups begin. The
rows read are those from the offset to the one that begins the last object. -/
theorem joined (hwf : wellFormed q m none [] = true) (offset limit : ℕ) (rows : List (Row V)) :
    let l := handleRowValuesForNestedResultMap q m false offset limit rows
    l.results.map (Option.map (read l.handler.objects m)) =
      (groups (createRowKey q m none) (readRows q m limit (rows.drop offset))).map fun g =>
        if found q m none (first g.2) then some (tree q m none g.2) else none := by
  intro l
  have hl : l = handleRows q m false limit {} (rows.drop offset) := by
    show (if _ then _ else _) = _
    rw [if_neg (by simp)]
  obtain ⟨fam, h⟩ : ∃ fam, Done q m (readRows q m limit ([] ++ rows.drop offset)) fam
      (handleRows q m false limit {} (rows.drop offset)) :=
    handleRows_done hwf limit done_nil fun p hp hne => absurd (List.prefix_nil.mp hp) hne
  rw [List.nil_append, ← hl] at h
  rw [h.results, h.family.map_read (read_of_holds fun _ _ => rfl), groups_rootKey, List.map_map]
  rfl

end

/-- Orders with their items, in a join that gives an order a row for each item. The property
of an item is the one of camel case that is found for `I_id`. -/
def orders : ResultMap :=
  .mk "order" [{ column := "id", property := some "id", isId := true }] [] []
    (.cons { property := "items", columnPrefix := some "i_" }
      (.mk "item" [{ column := "id", property := some "iId", isId := true }] [] [] .nil) .nil)

def orderRow (order item : Option ℕ) : Row ℕ := fun column =>
  if toUpperCase column = "ID" then order
  else if toUpperCase column = "I_ID" then item else none

/-- Two orders whose rows alternate, one of them without an item. -/
theorem joined_orders :
    let q : Query := { columnNames := ["ID", "I_ID"] }
    let l := handleRowValuesForNestedResultMap q orders false 0 10
      [orderRow (some 1) (some 7), orderRow (some 2) none, orderRow (some 1) (some 8)]
    l.results.map (Option.map (read l.handler.objects orders)) =
      (groups (createRowKey q orders none) (readRows q orders 10 (List.drop 0
        [orderRow (some 1) (some 7), orderRow (some 2) none, orderRow (some 1) (some 8)]))).map
        fun g => if found q orders none (first g.2) then some (tree q orders none g.2) else none :=
  joined (by decide +kernel) 0 10 _

end ResultSetHandler
end CloudManager
