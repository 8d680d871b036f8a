/-
# `BasicPropertyPlaceholderConfigurer.resolveVarProperty`

The references `${name}` and `${name:default}` in the texts of a table of properties
are replaced, property by property, by one `String.replace` for each reference that has
been found so far, in the property or in one before it. `Resolves` says what a text
should become.
-/
import Mathlib.Data.Finset.Card
import Mathlib.Data.Finset.Dedup
import Mathlib.Logic.Relation
import CloudManager.Lib.JavaString
import CloudManager.Lib.LinkedHashMap
import CloudManager.Lib.Scan
import CloudManager.Lib.Substitution

namespace CloudManager
namespace Framework
namespace PropertyPlaceholder

open JavaText Scan Substitution

abbrev Text := List Char

/-! ### The pattern -/

/-- The group of a match of `\$\{((.*?))\}` at the start. -/
def matchAt : Text → Option Text
  | '$' :: '\x7b' :: s =>
    let group := s.takeWhile fun c => c ≠ '\x7d' && !isLineTerminator c
    if (s.drop group.length).head? = some '\x7d' then some group else none
  | _ => none

/-- `matcher.group(0)`. -/
def token (group : Text) : Text := '$' :: '\x7b' :: (group ++ ['\x7d'])

/-- The matches in a text, and the characters between them. -/
def parts : Text → List (Fragment Text) :=
  scan (fun s => (matchAt s).map .hole) (Fragment.fill token) .char 0

def groups (s : Text) : List Text :=
  (parts s).filterMap fun p =>
    match p with
    | .char _ => none
    | .hole group => some group

theorem mem_groups {s g : Text} : g ∈ groups s ↔ .hole g ∈ parts s := by
  unfold groups
  rw [List.mem_filterMap]
  constructor
  · rintro ⟨p, hp, h⟩
    cases p with
    | char c => cases h
    | hole g' =>
      cases h
      exact hp
  · exact fun h => ⟨_, h, rfl⟩

theorem of_matchAt {s g : Text} (h : matchAt s = some g) : '\x7d' ∉ g ∧ token g <+: s := by
  unfold matchAt at h
  split at h
  · rename_i s
    simp only [Option.ite_none_right_eq_some, Option.some.injEq] at h
    obtain ⟨hhead, rfl⟩ := h
    refine ⟨fun hmem => ?_, ?_⟩
    · have hne := List.mem_takeWhile_imp hmem
      simp at hne
    · obtain ⟨rest, hrest⟩ := List.head?_eq_some_iff.mp hhead
      refine ⟨rest, ?_⟩
      have hs := List.take_append_drop
        (s.takeWhile fun c => c ≠ '\x7d' && !isLineTerminator c).length s
      rw [hrest, ← List.prefix_iff_eq_take.mp (List.takeWhile_prefix _)] at hs
      show '$' :: '\x7b' :: (_ ++ ['\x7d'] ++ rest) = _
      rw [List.append_assoc]
      exact congrArg (fun l => '$' :: '\x7b' :: l) hs
  · cases h

/-- A text is its parts. -/
theorem fill_parts (s : Text) : fill token (parts s) = s := by
  refine flatMap_scan (fun c => rfl) (fun s p hp => ?_) 0 s
  obtain ⟨g, hg, rfl⟩ := Option.map_eq_some_iff.mp hp
  exact ⟨(of_matchAt hg).2, by simp [Fragment.fill, token]⟩

theorem not_mem_of_hole {s g : Text} (h : .hole g ∈ parts s) : '\x7d' ∉ g := by
  obtain ⟨c, hc⟩ | ⟨s', hs'⟩ := of_mem_scan h
  · cases hc
  · obtain ⟨g', hg', he⟩ := Option.map_eq_some_iff.mp hs'
    cases he
    exact (of_matchAt hg').1

theorem solid_token {s g : Text} (h : g ∈ groups s) : Solid (token g) := by
  have hg : '\x7d' ∉ g := not_mem_of_hole (mem_groups.mp h)
  have hbody : '\x7d' ∉ '$' :: '\x7b' :: g := by simpa using hg
  exact solid_of_last hbody

theorem token_injective : Function.Injective token := fun g g' h => by
  have htail := (List.cons.inj (List.cons.inj h).2).2
  exact List.append_cancel_right htail

/-! ### The code -/

/-- `System.getProperty`; it throws for the empty name. -/
abbrev SystemProperties := Text → Option Text

variable (sys : SystemProperties) (props : LinkedHashMap Text Text)

/-- The value that is put for a match. -/
def valueOf (group : Text) : Except String (Option Text) :=
  match JavaString.split ':' (String.ofList group) with
  | [] => .error "ArrayIndexOutOfBoundsException"
  | name :: splits =>
    match props.get name.toList with
    | some value => .ok (some value)
    | none =>
      match splits with
      | default :: _ => .ok (some default.toList)
      | [] => if name = "" then .error "IllegalArgumentException" else .ok (sys name.toList)

/-- The loop over the matches of a value. -/
def putMatches (temp : LinkedHashMap Text (Option Text)) (val : Text) :
    Except String (LinkedHashMap Text (Option Text)) :=
  (groups val).foldlM (fun temp group => (valueOf sys props group).map (temp.put (token group))) temp

/-- The loop over `temp`, a `HashMap`, which lists its entries in some order. -/
def replaceAll (entries : List (Text × Option Text)) (val : Text) : Text :=
  entries.foldl (fun val e => replace e.1 (e.2.getD []) val) val

/-- A property, with what was found in it and those before. -/
def resolveEntry (order : List (Text × Option Text) → List (Text × Option Text))
    (st : LinkedHashMap Text Text × LinkedHashMap Text (Option Text)) (m : Text × Text) :
    Except String (LinkedHashMap Text Text × LinkedHashMap Text (Option Text)) :=
  (putMatches sys props st.2 m.2).map fun temp =>
    (if groups m.2 = [] then st.1 else st.1.put m.1 (replaceAll (order temp.entries) m.2), temp)

/-- The table is not written to before the loop has ended. -/
def resolveVarProperty (order : List (Text × Option Text) → List (Text × Option Text)) :
    Except String (LinkedHashMap Text Text) :=
  (props.entries.foldlM (resolveEntry sys props order)
    (LinkedHashMap.empty, LinkedHashMap.empty)).map fun st => props.putAll st.1.entries

/-! ### What a text should become -/

/-- The name of a reference is what stands before the first colon. -/
def nameOf (group : Text) : Text := group.takeWhile (· ≠ ':')

/-- Its default is what stands after it, if there is one. -/
def defaultOf (group : Text) : Option Text :=
  if ':' ∈ group then some (group.dropWhile (· ≠ ':')).tail else none

/-- What a reference to no property of the table stands for. -/
def undefinedValue (group : Text) : Text :=
  (defaultOf group).getD ((sys (nameOf group)).getD [])

variable (get : Text → Option Text)

/-- The parts of a text resolve to a text, by what a table has for its names. -/
inductive Resolves : List (Fragment Text) → Text → Prop
  | nil : Resolves [] []
  | char {ps : List (Fragment Text)} {w : Text} (c : Char) (rest : Resolves ps w) :
      Resolves (.char c :: ps) (c :: w)
  | property {ps : List (Fragment Text)} {w v u : Text} {g : Text} (defined : get (nameOf g) = some v)
      (value : Resolves (parts v) u) (rest : Resolves ps w) : Resolves (.hole g :: ps) (u ++ w)
  | undefined {ps : List (Fragment Text)} {w : Text} {g : Text} (undef : get (nameOf g) = none)
      (rest : Resolves ps w) : Resolves (.hole g :: ps) (undefinedValue sys g ++ w)

/-- A property refers to another one. -/
def Refers (k k' : Text) : Prop :=
  ∃ v, get k = some v ∧ (get k').isSome = true ∧ ∃ g ∈ groups v, nameOf g = k'

def Acyclic : Prop := ∀ k, ¬ Relation.TransGen (Refers get) k k

variable {sys get}

/-- A text resolves to one text. -/
theorem Resolves.unique {ps : List (Fragment Text)} {w w' : Text} (h : Resolves sys get ps w)
    (h' : Resolves sys get ps w') : w = w' := by
  induction h generalizing w' with
  | nil =>
    cases h'
    rfl
  | char c _ ih =>
    obtain - | ⟨-, h'⟩ := h'
    rw [ih h']
  | property hdef _ _ ihv ih =>
    cases h' with
    | property hdef' hv hrest =>
      obtain rfl := Option.some.inj (hdef.symm.trans hdef')
      rw [ihv hv, ih hrest]
    | undefined hundef hrest => cases hdef.symm.trans hundef
  | undefined hundef _ ih =>
    cases h' with
    | property hdef hv hrest => cases hdef.symm.trans hundef
    | undefined hundef' hrest => rw [ih hrest]

/-- Parts resolve where the properties they refer to do. -/
theorem exists_resolves_of {ps : List (Fragment Text)}
    (h : ∀ g v, .hole g ∈ ps → get (nameOf g) = some v → ∃ u, Resolves sys get (parts v) u) :
    ∃ w, Resolves sys get ps w := by
  induction ps with
  | nil => exact ⟨[], .nil⟩
  | cons p ps ih =>
    obtain ⟨w, hw⟩ := ih fun g v hg => h g v (List.mem_cons_of_mem p hg)
    cases p with
    | char c => exact ⟨c :: w, .char c hw⟩
    | hole g =>
      cases hget : get (nameOf g) with
      | none => exact ⟨_, .undefined hget hw⟩
      | some v =>
        obtain ⟨u, hu⟩ := h g v List.mem_cons_self hget
        exact ⟨_, .property hget hu hw⟩

variable {props : LinkedHashMap Text Text}

/-- Without a cycle, what can be reached by references gets less with each of them. -/
theorem wellFounded_refers (h : Acyclic props.get) :
    WellFounded fun k' k => Refers props.get k k' := by
  classical
  let reached (k : Text) : Finset Text :=
    props.keys.toFinset.filter fun k' => Relation.TransGen (Refers props.get) k k'
  refine Subrelation.wf (r := InvImage (· < ·) fun k => (reached k).card) ?_
    (InvImage.wf _ Nat.lt_wfRel.wf)
  intro k' k hk
  have hsub : reached k' ⊆ reached k := fun x hx => by
    obtain ⟨hx, hreach⟩ := Finset.mem_filter.mp hx
    exact Finset.mem_filter.mpr ⟨hx, .head hk hreach⟩
  have hmem : k' ∈ props.keys := by
    obtain ⟨v, -, hsome, -⟩ := hk
    obtain ⟨v', hv'⟩ := Option.isSome_iff_exists.mp hsome
    exact LinkedHashMap.mem_keys_of_getEntry hv'
  apply Finset.card_lt_card
  rw [Finset.ssubset_iff_of_subset hsub]
  refine ⟨k', Finset.mem_filter.mpr ⟨List.mem_toFinset.mpr hmem, .single hk⟩, fun hself => ?_⟩
  exact h k' (Finset.mem_filter.mp hself).2

/-- In a table without cycles every property's text resolves. -/
theorem exists_resolves (h : Acyclic props.get) {k v : Text} (hk : props.get k = some v) :
    ∃ w, Resolves sys props.get (parts v) w := by
  induction k using (wellFounded_refers h).induction generalizing v with
  | _ k ih =>
    refine exists_resolves_of fun g u hg hu => ih (nameOf g) ?_ hu
    exact ⟨v, hk, Option.isSome_of_eq_some hu, g, mem_groups.mpr hg, rfl⟩

/-! ### References that are read as they are meant -/

variable (sys get)

/-- What a reference should stand for, where no reference follows. -/
def meant (group : Text) : Text := (get (nameOf group)).getD (undefinedValue sys group)

/-- A property that is referred to has no reference itself; a default has no colon, and
where it is empty, no system property takes its place; and something is left of the
reference when it is split. -/
def ReadRight (group : Text) : Prop :=
  (∀ v ∈ get (nameOf group), groups v = [] ∧ (group = [] ∨ ∃ c ∈ group, c ≠ ':')) ∧
  (get (nameOf group) = none →
    (nameOf group ≠ [] ∨ ∃ default ∈ defaultOf group, default ≠ []) ∧
    ∀ default ∈ defaultOf group,
      ':' ∉ default ∧ (default = [] → (sys (nameOf group)).getD [] = []))

instance (group : Text) : Decidable (ReadRight sys get group) :=
  inferInstanceAs (Decidable ((∀ v ∈ get (nameOf group), _) ∧ (get (nameOf group) = none → _)))

variable {sys get}

theorem not_mem_nameOf (g : Text) : ':' ∉ nameOf g := fun h => by
  simpa using List.mem_takeWhile_imp h

/-- A reference with a default is its name, a colon and the default. -/
theorem eq_of_defaultOf {g d : Text} (h : defaultOf g = some d) : g = nameOf g ++ ':' :: d := by
  unfold defaultOf at h
  split at h
  · cases h
    have hsplit := List.takeWhile_append_dropWhile (p := (· ≠ ':')) (l := g)
    cases hdrop : g.dropWhile (· ≠ ':') with
    | nil =>
      rename_i hmem
      rw [hdrop, List.append_nil] at hsplit
      rw [← hsplit] at hmem
      exact (not_mem_nameOf g hmem).elim
    | cons c d =>
      have hc : c = ':' := by
        have hhead := List.head?_dropWhile_not (fun c : Char => decide (c ≠ ':')) g
        rw [hdrop] at hhead
        simpa using hhead
      subst hc
      rw [hdrop] at hsplit
      exact hsplit.symm
  · cases h

theorem eq_of_defaultOf_none {g : Text} (h : defaultOf g = none) : nameOf g = g ∧ ':' ∉ g := by
  unfold defaultOf at h
  split at h
  · cases h
  · rename_i hmem
    refine ⟨List.takeWhile_eq_self_iff.mpr fun c hc => ?_, hmem⟩
    simpa using fun he : c = ':' => hmem (he ▸ hc)

/-- The first part of the reference is its name. -/
theorem split_of_readRight {g v : Text} (hget : get (nameOf g) = some v)
    (h : ReadRight sys get g) :
    ∃ splits, JavaString.split ':' (String.ofList g) = String.ofList (nameOf g) :: splits := by
  have hhead := JavaString.head?_split ':' g
  have hcolons : ¬ (g ≠ [] ∧ ∀ c ∈ g, c = ':') := by
    rintro ⟨hne, hall⟩
    obtain hnil | ⟨c, hc, hcolon⟩ := (h.1 v hget).2
    · exact hne hnil
    · exact hcolon (hall c hc)
  rw [if_neg hcolons] at hhead
  exact List.head?_eq_some_iff.mp hhead

theorem valueOf_of_readRight {g : Text} (h : ReadRight sys props.get g) :
    ∃ w, valueOf sys props g = .ok w ∧ w.getD [] = meant sys props.get g := by
  unfold valueOf meant
  cases hget : props.get (nameOf g) with
  | some v =>
    obtain ⟨splits, hsplit⟩ := split_of_readRight hget h
    rw [hsplit]
    dsimp only
    rw [String.toList_ofList, hget]
    exact ⟨some v, rfl, rfl⟩
  | none =>
    obtain ⟨hne, hdefault⟩ := h.2 hget
    unfold undefinedValue
    cases hd : defaultOf g with
    | none =>
      obtain ⟨hname, hcolon⟩ := eq_of_defaultOf_none hd
      have hne : g ≠ [] := by
        obtain hne | ⟨d, hd', -⟩ := hne
        · rwa [hname] at hne
        · rw [hd] at hd'
          cases hd'
      rw [JavaString.split_of_not_mem (by rwa [String.toList_ofList])]
      dsimp only
      rw [String.toList_ofList, ← hname, hget, hname]
      dsimp only
      rw [if_neg (by simpa using hne)]
      exact ⟨sys g, rfl, by rw [hname]; rfl⟩
    | some d =>
      obtain ⟨hcolon, hempty⟩ := hdefault d hd
      have hkept : nameOf g ≠ [] ∨ ∃ c ∈ d, c ≠ ':' := by
        obtain hne | ⟨d', hd', hne⟩ := hne
        · exact .inl hne
        · obtain rfl := Option.some.inj (hd.symm.trans hd')
          obtain ⟨c, hc⟩ := List.exists_mem_of_ne_nil d hne
          exact .inr ⟨c, hc, fun he => hcolon (he ▸ hc)⟩
      have hsplit := JavaString.split_append_cons (not_mem_nameOf g) hkept
      rw [← eq_of_defaultOf hd, List.splitOn_eq_singleton hcolon] at hsplit
      rw [hsplit]
      dsimp only
      rw [String.toList_ofList, hget]
      cases d with
      | nil =>
        have hne : nameOf g ≠ [] := hkept.resolve_right (by simp)
        have hempty' : ([[]] : List Text).rdropWhile List.isEmpty = [] := rfl
        rw [hempty']
        dsimp only [List.map_nil]
        rw [if_neg (by simpa using hne)]
        exact ⟨_, rfl, hempty rfl⟩
      | cons c d =>
        have hrest : [c :: d].rdropWhile List.isEmpty = [c :: d] := rfl
        rw [hrest]
        exact ⟨some (c :: d), by simp, rfl⟩

variable (sys get)

/-- Every reference of the table is read as it is meant, and, whichever references have
been replaced in a property's text, a reference that has not been is there only where it
was, unless it stands for itself. -/
structure Plain : Prop where
  read : ∀ k v, get k = some v → ∀ g ∈ groups v, ReadRight sys get g
  fresh : ∀ k v, get k = some v → ∀ k' v', get k' = some v' → ∀ g ∈ groups v',
    meant sys get g = token g ∨ ∀ done, g ∉ done → Fresh token (meant sys get) done g (parts v)

variable {sys get}

/-- Parts without references resolve to their text. -/
theorem resolves_fill {ps : List (Fragment Text)} (h : ∀ g, .hole g ∈ ps →
      ∀ v, get (nameOf g) = some v → Resolves sys get (parts v) v) :
    Resolves sys get ps (fill (meant sys get) ps) := by
  induction ps with
  | nil => exact .nil
  | cons p ps ih =>
    have hrest := ih fun g hg => h g (List.mem_cons_of_mem p hg)
    cases p with
    | char c => exact .char c hrest
    | hole g =>
      have hfill : fill (meant sys get) (.hole g :: ps) =
          meant sys get g ++ fill (meant sys get) ps := rfl
      rw [hfill, meant]
      cases hget : get (nameOf g) with
      | none => exact .undefined hget hrest
      | some v => exact .property hget (h g List.mem_cons_self v hget) hrest

theorem fill_of_groups_eq_nil {v : Text} (h : groups v = []) (f : Text → Text) :
    fill f (parts v) = v := by
  have hfill : fill f (parts v) = fill token (parts v) := by
    refine List.flatMap_congr fun p hp => ?_
    cases p with
    | char c => rfl
    | hole g =>
      rw [← mem_groups, h] at hp
      cases hp
  rw [hfill, fill_parts]

theorem Plain.resolves (h : Plain sys get) {k v : Text} (hk : get k = some v) :
    Resolves sys get (parts v) (fill (meant sys get) (parts v)) := by
  refine resolves_fill fun g hg u hu => ?_
  have hread := (h.read k v hk g (mem_groups.mpr hg)).1 u hu
  have hself : Resolves sys get (parts u) (fill (meant sys get) (parts u)) :=
    resolves_fill fun g' hg' => by
      rw [← mem_groups, hread.1] at hg'
      cases hg'
  rwa [fill_of_groups_eq_nil hread.1] at hself

/-! ### The loop -/

/-- What has been put is for references of the table, and what they are meant to be. -/
def Found (sys : SystemProperties) (get : Text → Option Text)
    (temp : LinkedHashMap Text (Option Text)) : Prop :=
  ∀ e ∈ temp.entries, ∃ g, (∃ k v, get k = some v ∧ g ∈ groups v) ∧
    e.1 = token g ∧ e.2.getD [] = meant sys get g

theorem Found.put {temp : LinkedHashMap Text (Option Text)} (h : Found sys get temp) {g : Text}
    (hg : ∃ k v, get k = some v ∧ g ∈ groups v) {w : Option Text}
    (hw : w.getD [] = meant sys get g) : Found sys get (temp.put (token g) w) := by
  intro e he
  rw [← LinkedHashMap.get_eq_some_iff, LinkedHashMap.get_put] at he
  split at he
  · rename_i hkey
    cases he
    exact ⟨g, hg, hkey, hw⟩
  · exact h e ((LinkedHashMap.get_eq_some_iff temp).mp he)

/-- The matches of a value are put, and what was there stays. -/
theorem putMatches_of_plain (h : Plain sys props.get) {k v : Text} (hk : props.get k = some v)
    {temp : LinkedHashMap Text (Option Text)} (htemp : Found sys props.get temp) :
    ∃ temp', putMatches sys props temp v = .ok temp' ∧ Found sys props.get temp' ∧
      ∀ g ∈ groups v, token g ∈ temp'.keys := by
  have hgroups : ∀ g ∈ groups v, ReadRight sys props.get g ∧
      ∃ k v, props.get k = some v ∧ g ∈ groups v := fun g hg => ⟨h.read k v hk g hg, k, v, hk, hg⟩
  unfold putMatches
  generalize groups v = gs at hgroups
  suffices hkeys : ∃ temp', gs.foldlM (fun temp group => (valueOf sys props group).map
      (temp.put (token group))) temp = .ok temp' ∧ Found sys props.get temp' ∧
      (∀ t ∈ temp.keys, t ∈ temp'.keys) ∧ ∀ g ∈ gs, token g ∈ temp'.keys by
    obtain ⟨temp', hok, hfound, -, hmem⟩ := hkeys
    exact ⟨temp', hok, hfound, hmem⟩
  induction gs generalizing temp with
  | nil => exact ⟨temp, rfl, htemp, fun t ht => ht, fun g hg => nomatch hg⟩
  | cons g gs ih =>
    obtain ⟨⟨hread, hg⟩, hgs⟩ := List.forall_mem_cons.mp hgroups
    obtain ⟨w, hok, hw⟩ := valueOf_of_readRight hread
    obtain ⟨temp', hok', hfound, hkept, hmem⟩ := ih (htemp.put hg hw) hgs
    have hpre := LinkedHashMap.keys_prefix_put temp (token g) w
    refine ⟨temp', ?_, hfound, fun t ht => hkept t (hpre.subset ht), ?_⟩
    · rw [List.foldlM_cons, hok]
      exact hok'
    · refine List.forall_mem_cons.mpr ⟨hkept _ ?_, hmem⟩
      exact LinkedHashMap.mem_keys_of_getEntry (LinkedHashMap.get_put_self temp (token g) w)

/-- The entries stand for references. -/
theorem exists_replaceAll_eq {l : List (Text × Option Text)}
    (h : ∀ e ∈ l, ∃ g, (∃ k v, get k = some v ∧ g ∈ groups v) ∧
      e.1 = token g ∧ e.2.getD [] = meant sys get g) :
    ∃ gs : List Text, (∀ g ∈ gs, ∃ k v, get k = some v ∧ g ∈ groups v) ∧ l.map Prod.fst = gs.map token ∧
      ∀ val, replaceAll l val =
        gs.foldl (fun val g => replace (token g) (meant sys get g) val) val := by
  induction l with
  | nil => exact ⟨[], by simp, rfl, fun val => rfl⟩
  | cons e l ih =>
    obtain ⟨⟨g, hg, htoken, hvalue⟩, hl⟩ := List.forall_mem_cons.mp h
    obtain ⟨gs, hgs, hkeys, hfold⟩ := ih hl
    refine ⟨g :: gs, List.forall_mem_cons.mpr ⟨hg, hgs⟩, ?_, fun val => ?_⟩
    · rw [List.map_cons, List.map_cons, htoken, hkeys]
    · unfold replaceAll at hfold ⊢
      rw [List.foldl_cons, List.foldl_cons, hfold, htoken, hvalue]

/-- However the entries are listed, the references of a value are replaced by what they
are meant to be. -/
theorem replaceAll_of_plain (h : Plain sys get) {k v : Text} (hk : get k = some v)
    {temp : LinkedHashMap Text (Option Text)} (htemp : Found sys get temp)
    (hkeys : ∀ g ∈ groups v, token g ∈ temp.keys) {l : List (Text × Option Text)}
    (hl : l.Perm temp.entries) : replaceAll l v = fill (meant sys get) (parts v) := by
  obtain ⟨gs, hgs, hmap, hfold⟩ := exists_replaceAll_eq fun e he => htemp e (hl.mem_iff.mp he)
  have hmem : ∀ g, .hole g ∈ parts v → g ∈ gs := fun g hg => by
    have hkey : token g ∈ l.map Prod.fst :=
      (hl.map Prod.fst).mem_iff.mpr (hkeys g (mem_groups.mpr hg))
    rw [hmap] at hkey
    exact (List.mem_map_of_injective token_injective).mp hkey
  have hnodup : ([] ++ gs).Nodup := by
    have hn : (l.map Prod.fst).Nodup := (hl.map Prod.fst).nodup_iff.mpr temp.nodup
    rw [hmap] at hn
    exact hn.of_map token
  have hsolid : ∀ g ∈ gs, Solid (token g) := fun g hg => by
    obtain ⟨k', v', -, hg'⟩ := hgs g hg
    exact solid_token hg'
  have hfresh : ∀ g ∈ gs, meant sys get g = token g ∨
      ∀ done, g ∉ done → Fresh token (meant sys get) done g (parts v) := fun g hg => by
    obtain ⟨k', v', hk', hg'⟩ := hgs g hg
    exact h.fresh k v hk k' v' hk' g hg'
  have hfill := foldl_replace hsolid hnodup hfresh
  rwa [render_nil, fill_parts, ← hfold, List.nil_append, render_of_mem hmem] at hfill

/-- What has been replaced is right, and no processed property with a reference is left
out. -/
structure Replaced (sys : SystemProperties) (get : Text → Option Text) (done : List (Text × Text))
    (st : LinkedHashMap Text Text × LinkedHashMap Text (Option Text)) : Prop where
  found : Found sys get st.2
  value : ∀ e ∈ st.1.entries, ∃ v, get e.1 = some v ∧ e.2 = fill (meant sys get) (parts v)
  keys : ∀ m ∈ done, groups m.2 ≠ [] → m.1 ∈ st.1.keys

variable {order : List (Text × Option Text) → List (Text × Option Text)}

/-- One property. -/
theorem Replaced.step (h : Plain sys props.get) (horder : ∀ l, (order l).Perm l)
    {done : List (Text × Text)}
    {st : LinkedHashMap Text Text × LinkedHashMap Text (Option Text)}
    (hst : Replaced sys props.get done st) {m : Text × Text} (hm : m ∈ props.entries) :
    ∃ st', resolveEntry sys props order st m = .ok st' ∧
      Replaced sys props.get (done ++ [m]) st' := by
  have hk : props.get m.1 = some m.2 := (LinkedHashMap.get_eq_some_iff props).mpr hm
  obtain ⟨temp, hok, hfound, hkeys⟩ := putMatches_of_plain h hk hst.found
  unfold resolveEntry
  rw [hok]
  refine ⟨_, rfl, hfound, fun e he => ?_, fun m' hm' hne => ?_⟩
  · dsimp only at he
    split at he
    · exact hst.value e he
    · rw [← LinkedHashMap.get_eq_some_iff, LinkedHashMap.get_put] at he
      split at he
      · rename_i hkey
        refine ⟨m.2, by rw [hkey, hk], ?_⟩
        rw [← Option.some.inj he, replaceAll_of_plain h hk hfound hkeys (horder _)]
      · exact hst.value e ((LinkedHashMap.get_eq_some_iff st.1).mp he)
  · dsimp only
    obtain hm' | hm' := List.mem_append.mp hm'
    · have hmem := hst.keys m' hm' hne
      split
      · exact hmem
      · exact (LinkedHashMap.keys_prefix_put _ _ _).subset hmem
    · obtain rfl := List.mem_singleton.mp hm'
      rw [if_neg hne]
      exact LinkedHashMap.mem_keys_of_getEntry (LinkedHashMap.get_put_self _ _ _)

/-- The loop over the properties. -/
theorem Replaced.foldlM (h : Plain sys props.get) (horder : ∀ l, (order l).Perm l)
    {done l : List (Text × Text)}
    {st : LinkedHashMap Text Text × LinkedHashMap Text (Option Text)}
    (hst : Replaced sys props.get done st) (hl : ∀ m ∈ l, m ∈ props.entries) :
    ∃ st', l.foldlM (resolveEntry sys props order) st = .ok st' ∧
      Replaced sys props.get (done ++ l) st' := by
  induction l generalizing done st with
  | nil => exact ⟨st, rfl, by rwa [List.append_nil]⟩
  | cons m l ih =>
    obtain ⟨hm, hl⟩ := List.forall_mem_cons.mp hl
    obtain ⟨st', hok, hst'⟩ := hst.step h horder hm
    obtain ⟨st'', hok', hst''⟩ := ih hst' hl
    refine ⟨st'', ?_, by rwa [List.append_assoc] at hst''⟩
    rw [List.foldlM_cons, hok]
    exact hok'

/-- Every property is its text with the references as they are meant to be. -/
theorem resolveVarProperty_of_plain (h : Plain sys props.get) (horder : ∀ l, (order l).Perm l) :
    ∃ r, resolveVarProperty sys props order = .ok r ∧
      ∀ k, r.get k = (props.get k).map fun v => fill (meant sys props.get) (parts v) := by
  have hinit : Replaced sys props.get [] (LinkedHashMap.empty, LinkedHashMap.empty) :=
    ⟨fun e he => (nomatch he), fun e he => (nomatch he), fun m hm => (nomatch hm)⟩
  obtain ⟨st, hok, hst⟩ := hinit.foldlM h horder fun m hm => hm
  unfold resolveVarProperty
  rw [hok]
  refine ⟨_, rfl, fun k => ?_⟩
  cases hk : props.get k with
  | none =>
    have hout : ∀ e ∈ st.1.entries, e.1 ≠ k := by
      rintro e he rfl
      obtain ⟨v, hv, -⟩ := hst.value e he
      cases hk.symm.trans hv
    have hmem : k ∉ st.1.entries.map Prod.fst := fun hmem => by
      obtain ⟨e, he, hkey⟩ := List.mem_map.mp hmem
      exact hout e he hkey
    rw [LinkedHashMap.get_putAll_of_forall props (v := []) fun e he hkey => (hout e he hkey).elim,
      if_neg hmem, hk, Option.map_none]
  | some v =>
    have hsame : ∀ e ∈ st.1.entries, e.1 = k → e.2 = fill (meant sys props.get) (parts v) := by
      rintro e he rfl
      obtain ⟨v', hv', hvalue⟩ := hst.value e he
      rw [hk] at hv'
      cases hv'
      exact hvalue
    rw [LinkedHashMap.get_putAll_of_forall props hsame, Option.map_some]
    split
    · rfl
    · rename_i hout
      by_cases hgroups : groups v = []
      · rw [hk, fill_of_groups_eq_nil hgroups]
      · have hmem := (LinkedHashMap.get_eq_some_iff props).mp hk
        exact (hout (hst.keys (k, v) hmem hgroups)).elim

/-- What every property's text resolves to is what it is in the end, in whatever order the
table and `temp` are listed. -/
def Substituted (sys : SystemProperties) (props : LinkedHashMap Text Text) : Prop :=
  ∃ value : Text → Option Text,
    (∀ k, Option.Rel (fun v w => Resolves sys props.get (parts v) w) (props.get k) (value k)) ∧
    ∀ (table : LinkedHashMap Text Text) (order : List (Text × Option Text) → List (Text × Option Text)),
      table.entries.Perm props.entries → (∀ l, (order l).Perm l) →
      ∃ r, resolveVarProperty sys table order = .ok r ∧ r.get = value

theorem get_eq_of_perm {table : LinkedHashMap Text Text} (h : table.entries.Perm props.entries) :
    table.get = props.get := by
  funext k
  refine Option.ext fun v => ?_
  rw [LinkedHashMap.get_eq_some_iff, LinkedHashMap.get_eq_some_iff, h.mem_iff]

/-- **Placeholders.** A plain table is resolved. -/
theorem substituted_of_plain (sys : SystemProperties) (props : LinkedHashMap Text Text)
    (h : Plain sys props.get) : Substituted sys props := by
  refine ⟨fun k => (props.get k).map fun v => fill (meant sys props.get) (parts v), fun k => ?_,
    fun table order htable horder => ?_⟩
  · dsimp only
    cases hk : props.get k with
    | none => exact .none
    | some v =>
      refine .some ?_
      exact h.resolves hk
  · have hget := get_eq_of_perm htable
    rw [← hget] at h ⊢
    obtain ⟨r, hok, hr⟩ := resolveVarProperty_of_plain h horder
    exact ⟨r, hok, funext hr⟩

/-! ### Tables without other dollar signs -/

/-- No reference begins within the reference. -/
def Unnested (group : Text) : Prop := ¬ ['$', '\x7b'] <:+: group

instance (group : Text) : Decidable (Unnested group) :=
  inferInstanceAs (Decidable (¬ ['$', '\x7b'] <:+: group))

/-- What follows an opening has no other one. -/
theorem Unnested.not_infix {k : Text} (h : Unnested k) :
    ¬ ['$', '\x7b'] <:+: '\x7b' :: (k ++ ['\x7d']) := by
  intro hinfix
  obtain hpre | hinfix := List.infix_cons_iff.mp hinfix
  · obtain ⟨rest, hrest⟩ := hpre
    exact absurd (List.cons.inj hrest).1 (by decide)
  · obtain hsuffix | hinfix := List.infix_concat_iff.mp hinfix
    · obtain ⟨front, hfront⟩ := hsuffix
      have hlast := congrArg List.getLast? hfront
      rw [List.getLast?_append_of_ne_nil front (by simp), List.getLast?_concat] at hlast
      exact absurd hlast (by decide)
    · exact h hinfix

/-- A token is not in another one, nor does it begin there. -/
theorem infix_of_token {g k b : Text} (hg : '\x7d' ∉ g) (hk : '\x7d' ∉ k) (hn : Unnested k)
    (h : token g <:+: token k ++ b) : g = k ∨ token g <:+: b := by
  have hend : ∀ {x : Text} (l : Text), '\x7d' ∉ x → (x ++ '\x7d' :: l).takeWhile (· ≠ '\x7d') = x :=
    fun l hx => by
      rw [List.takeWhile_append_of_pos (fun c hc => by simpa using fun he : c = '\x7d' => hx (he ▸ hc))]
      simp
  obtain hpre | hinfix := List.infix_cons_iff.mp h
  · left
    obtain ⟨rest, hrest⟩ := hpre
    have hbody : g ++ '\x7d' :: rest = k ++ '\x7d' :: b := by
      simpa [token] using hrest
    rw [← hend rest hg, ← hend b hk, hbody]
  · right
    refine infix_of_append hinfix fun c a hc hpre => ?_
    obtain ⟨rest, hrest⟩ := hpre
    obtain ⟨rfl, htail⟩ := List.cons.inj hrest
    cases a with
    | nil =>
      obtain ⟨front, hfront⟩ := hc
      have hlast := congrArg List.getLast? hfront
      rw [List.getLast?_append_of_ne_nil front (by simp), ← List.cons_append,
        List.getLast?_concat] at hlast
      exact absurd hlast (by decide)
    | cons d a =>
      obtain ⟨rfl, -⟩ := List.cons.inj htail
      exact hn.not_infix ((List.prefix_append ['$', '\x7b'] a).isInfix.trans hc.isInfix)

/-- Where dollar signs are in references only, of which none is in another one or is
replaced by a text with one, no reference is anywhere else. -/
theorem plain_of_dollar (hread : ∀ k v, get k = some v → ∀ g ∈ groups v, ReadRight sys get g)
    (hchar : ∀ k v, get k = some v → .char '$' ∉ parts v)
    (hhole : ∀ k v, get k = some v → ∀ g ∈ groups v, Unnested g ∧ '$' ∉ meant sys get g) :
    Plain sys get := by
  refine ⟨hread, fun k v hk k' v' hk' g hg => .inr fun done hdone stretch hs hmem hinfix => ?_⟩
  have hclosed : '\x7d' ∉ g := not_mem_of_hole (mem_groups.mp hg)
  induction stretch with
  | nil => simp [render, fill, token] at hinfix
  | cons p stretch ih =>
    have htail := ih ((List.suffix_cons p stretch).isInfix.trans hs)
      fun hrest => hmem (List.mem_cons_of_mem p hrest)
    have hp : p ∈ parts v := hs.subset List.mem_cons_self
    apply htail
    cases p with
    | char c =>
      refine infix_of_not_mem (a := [c]) hinfix fun hc => ?_
      rw [List.mem_singleton.mp hc] at hchar
      exact hchar k v hk hp
    | hole g' =>
      have hg' : g' ∈ groups v := mem_groups.mpr hp
      by_cases hd : g' ∈ done
      · have hvalue : render token (meant sys get) done (.hole g' :: stretch) =
            meant sys get g' ++ render token (meant sys get) done stretch := by
          simp [render, fill, Fragment.fill, current, hd]
        rw [hvalue] at hinfix
        exact infix_of_not_mem hinfix (hhole k v hk g' hg').2
      · have htoken : render token (meant sys get) done (.hole g' :: stretch) =
            token g' ++ render token (meant sys get) done stretch := by
          simp [render, fill, Fragment.fill, current, hd]
        rw [htoken] at hinfix
        obtain rfl | hrest := infix_of_token hclosed (not_mem_of_hole hp) (hhole k v hk g' hg').1
          hinfix
        · exact (hmem List.mem_cons_self).elim
        · exact hrest

/-! ### Two tables -/

/-- Texts as properties. -/
def tableOf (entries : List (String × String))
    (h : ((entries.map fun e => (e.1.toList, e.2.toList)).map Prod.fst).Nodup) :
    LinkedHashMap Text Text :=
  ⟨entries.map fun e => (e.1.toList, e.2.toList), h⟩

def noSystem : SystemProperties := fun _ => none

/-- A reference to a property, and one with a default. -/
def addressed : LinkedHashMap Text Text :=
  tableOf [("url", "jdbc:$\x7bhost\x7d:$\x7bport:3306\x7d"), ("host", "db")] (by decide)

/-- A reference to a property with a reference, in the order that a `Hashtable` of eleven
buckets lists them, the last bucket first. -/
def chained : LinkedHashMap Text Text :=
  tableOf [("x", "$\x7by\x7d"), ("z", "1"), ("y", "$\x7bz\x7d")] (by decide)

theorem forall_get {P : Text → Text → Prop} (h : ∀ e ∈ props.entries, P e.1 e.2) :
    ∀ k v, props.get k = some v → P k v := fun k v hk =>
  h (k, v) ((LinkedHashMap.get_eq_some_iff props).mp hk)

theorem plain_addressed : Plain noSystem addressed.get :=
  plain_of_dollar (forall_get (by decide)) (forall_get (by decide)) (forall_get (by decide))

theorem substituted_addressed : Substituted noSystem addressed :=
  substituted_of_plain noSystem addressed plain_addressed

/-- The properties that refer to others are ranked. -/
theorem acyclic_chained : Acyclic chained.get := by
  have hrank : ∀ k v, chained.get k = some v → ∀ g ∈ groups v,
      [['z'], ['y'], ['x']].idxOf (nameOf g) < [['z'], ['y'], ['x']].idxOf k :=
    forall_get (by decide)
  have hless : ∀ k k', Relation.TransGen (Refers chained.get) k k' →
      [['z'], ['y'], ['x']].idxOf k' < [['z'], ['y'], ['x']].idxOf k := by
    intro k k' h
    induction h with
    | single h =>
      obtain ⟨v, hk, -, g, hg, rfl⟩ := h
      exact hrank _ v hk g hg
    | tail _ h ih =>
      obtain ⟨v, hk, -, g, hg, rfl⟩ := h
      exact (hrank _ v hk g hg).trans ih
  exact fun k h => (hless k k h).ne rfl

/-- Read first, the first property is left with the reference of the second. -/
theorem not_substituted_chained : Acyclic chained.get ∧ ¬ Substituted noSystem chained := by
  refine ⟨acyclic_chained, fun ⟨value, hresolves, hvalue⟩ => ?_⟩
  obtain ⟨r, hok, rfl⟩ := hvalue chained id (List.Perm.refl _) fun l => List.Perm.refl l
  have hget : r.get ['x'] = some "$\x7bz\x7d".toList := by
    have heval : (resolveVarProperty noSystem chained id).map (·.get ['x']) =
        .ok (some "$\x7bz\x7d".toList) := by
      decide
    rw [hok] at heval
    exact Except.ok.inj heval
  have hleft : Resolves noSystem chained.get (parts "$\x7by\x7d".toList) "$\x7bz\x7d".toList := by
    have h := hresolves ['x']
    rw [hget] at h
    cases h with
    | some h => exact h
  have hright : Resolves noSystem chained.get (parts "$\x7by\x7d".toList) ['1'] :=
    .property (v := "$\x7bz\x7d".toList) rfl (.property (v := ['1']) rfl (.char '1' .nil) .nil) .nil
  exact absurd (hleft.unique hright) (by decide)

end PropertyPlaceholder
end Framework
end CloudManager
