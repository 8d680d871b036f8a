/-
# Refreshing the URL authorisation chains

`refreshChainDefinitions` first gets the filter, then clears the chains it
serves requests with, and only then loads the definitions and rebuilds, chain
by chain. An exception is logged and nothing is put back. So a refresh that
fails after the clear leaves the chains built so far, and none of the old ones
(`clearThenRebuild`); a request that comes in between finds those.

A definition's tokens are resolved to filters by Shiro's `createChain`, which
adds each to the chain of the URL as it is resolved: what each token comes to
is a parameter, and so is the matching of a request against a chain's name.
-/
import Mathlib.Data.List.Induction
import CloudManager.Lib.JavaString
import CloudManager.Lib.LinkedHashMap
import CloudManager.Lib.Traced

namespace CloudManager
namespace FilterChains

variable {F : Type}

abbrev Chains (F : Type) := LinkedHashMap String (List F)

/-- The chain manager's chains and the factory bean's definitions. -/
structure State (F : Type) where
  filterChains : Chains F
  filterChainDefinitionMap : LinkedHashMap String String

/-- A map whose keys and values may be null. -/
abbrev NullableMap := LinkedHashMap (Option String) (Option String)

/-- What a refresh finds around it. -/
structure ShiroTemplate (F : Type) where
  /-- `shiroFilterFactoryBean.getObject()`. -/
  getObject : Except String Unit
  /-- `shiroProperties.getFilterChainDefinitionMap()`. -/
  filterChainDefinitions : Option NullableMap
  loadAuth : Except String (Option NullableMap)
  /-- The tokens of a definition in order, each a filter or the exception
  `createChain` throws at it. -/
  tokens : String → String → List (Except String F)

/-! ### The definitions -/

/-- `trim()` of a reference that may be null. -/
def trimNullable : Option String → Except String String
  | none => .error "NullPointerException"
  | some s => .ok (JavaString.trim s)

def trimEntry (e : Option String × Option String) : Except String (String × String) := do
  let key ← trimNullable e.1
  let value ← trimNullable e.2
  return (key, value)

def putAllNullable (m : NullableMap) : Option NullableMap → NullableMap
  | none => m
  | some m' => m.putAll m'.entries

variable (e : ShiroTemplate F)

/-- The configured definitions, over them the loaded ones, all trimmed. -/
def loadAllAuth : Except String (LinkedHashMap String String) := do
  let map := putAllNullable .empty e.filterChainDefinitions
  let authc ← e.loadAuth
  let map := putAllNullable map authc
  let clean ← map.entries.mapM trimEntry
  return LinkedHashMap.empty.putAll clean

/-- `chainDefinition` as it is passed on to `createChain`. -/
def chainDefinition (value : String) : String := JavaString.dropSpaces (JavaString.trim value)

/-! ### The refresh -/

/-- A filter at the end of the chain `url`, which is made if need be. -/
def addToChain (chains : Chains F) (url : String) (f : F) : Chains F :=
  chains.put url ((chains.get url).getD [] ++ [f])

def addToken (url : String) : Except String F → Traced (State F) Unit
  | .ok f => .modify fun s => { s with filterChains := addToChain s.filterChains url f }
  | .error m => .throw m

/-- `manager.createChain`. -/
def createChain (url definition : String) : Traced (State F) Unit :=
  Traced.forEach (addToken url) (e.tokens url definition)

/-- The refresh after `manager.getFilterChains().clear()`. -/
def rebuild : Traced (State F) Unit := do
  Traced.modify fun s => { s with filterChainDefinitionMap := .empty }
  let definitions ← Traced.ofExcept (loadAllAuth e)
  Traced.modify fun s => { s with filterChainDefinitionMap := definitions }
  Traced.forEach (fun d => createChain e d.1 (chainDefinition d.2)) definitions.entries

def refreshChainDefinitions : Traced (State F) Unit :=
  match e.getObject with
  | .error _ => Traced.throw "get ShiroFilter from shiroFilterFactoryBean error!"
  | .ok _ => do
    Traced.modify fun s => { s with filterChains := .empty }
    rebuild e

/-- The name of the chain a request resolves to: the first that matches. -/
def resolve (pathMatches : String → String → Bool) (chains : Chains F) (url : String) :
    Option String :=
  chains.keys.find? (pathMatches · url)

/-! ### What a refresh does to the chains -/

/-- The filters of a list of tokens, up to the first that throws. -/
def filtersOf : List (Except String F) → List F
  | .ok f :: ts => f :: filtersOf ts
  | _ => []

def throwOf : List (Except String F) → Except String Unit
  | [] => .ok ()
  | .ok _ :: ts => throwOf ts
  | .error m :: _ => .error m

/-- The tokens of a definition. -/
def definitionTokens (d : String × String) : List (Except String F) :=
  e.tokens d.1 (chainDefinition d.2)

/-- The additions of one definition. -/
def definitionAdds (d : String × String) : List (String × F) :=
  (filtersOf (definitionTokens e d)).map (d.1, ·)

/-- What the rebuild adds, in order: the filters of the loaded definitions up to
the first token that throws; nothing if the loading throws. -/
def added : List (String × F) :=
  match loadAllAuth e with
  | .error _ => []
  | .ok definitions =>
    Traced.loopWrites (definitionAdds e) (fun d => throwOf (definitionTokens e d))
      definitions.entries

/-- The chains that additions make of none. -/
def build (adds : List (String × F)) : Chains F :=
  adds.foldl (fun chains a => addToChain chains a.1 a.2) .empty

/-- An assignment that leaves the chains as they are, or adds to one. -/
def writeChains (chains : Chains F) : Option (String × F) → Chains F
  | none => chains
  | some a => addToChain chains a.1 a.2

theorem foldl_writeChains (chains : Chains F) (ws : List (Option (String × F))) :
    ws.foldl writeChains chains =
      (ws.filterMap id).foldl (fun chains a => addToChain chains a.1 a.2) chains := by
  induction ws generalizing chains with
  | nil => rfl
  | cons w ws ih =>
    rcases w with _ | a
    · exact ih chains
    · exact ih (addToChain chains a.1 a.2)

open Traced

/-- The chains go through the writes, one for each assignment. -/
abbrev WritesChains (p : Traced (State F) Unit) (ws : List (Option (String × F)))
    (r : Except String Unit) : Prop :=
  Writes State.filterChains writeChains p ws r

theorem writes_addTokens (url : String) (ts : List (Except String F)) :
    WritesChains (forEach (addToken url) ts) ((filtersOf ts).map fun f => some (url, f))
      (throwOf ts) := by
  induction ts with
  | nil => exact writes_pure ()
  | cons t ts ih =>
    rcases t with m | f
    · exact (writes_throw m).bind_error
    · have hf : WritesChains (addToken url (.ok f)) [some (url, f)] (.ok ()) :=
        writes_modify fun _ => rfl
      exact hf.bind ih

theorem writes_definitions (ds : List (String × String)) :
    WritesChains (forEach (fun d => createChain e d.1 (chainDefinition d.2)) ds)
      ((loopWrites (definitionAdds e) (fun d => throwOf (definitionTokens e d)) ds).map some)
      (loopResult (fun d => throwOf (definitionTokens e d)) ds) := by
  have h := Writes.forEach (fun d => writes_addTokens d.1 (definitionTokens e d)) ds
  have hmap : ∀ ds : List (String × String),
      loopWrites (fun d => (filtersOf (definitionTokens e d)).map fun f => some (d.1, f))
        (fun d => throwOf (definitionTokens e d)) ds =
      (loopWrites (definitionAdds e) (fun d => throwOf (definitionTokens e d)) ds).map some := by
    intro ds
    induction ds with
    | nil => rfl
    | cons d ds ih =>
      unfold loopWrites
      rcases throwOf (definitionTokens e d) with m | u <;> simp [definitionAdds, ih]
  rw [← hmap]
  exact h

/-- How the rebuild ends. -/
def outcome : Except String Unit :=
  match loadAllAuth e with
  | .error m => .error m
  | .ok definitions => loopResult (fun d => throwOf (definitionTokens e d)) definitions.entries

/-- The assignments of the rebuild, as far as the chains see them. -/
theorem writes_rebuild : ∃ ws, ws.filterMap id = added e ∧ WritesChains (rebuild e) ws (outcome e) := by
  have hclear : WritesChains (F := F)
      (modify fun s => { s with filterChainDefinitionMap := .empty }) [none] (.ok ()) :=
    writes_modify fun _ => rfl
  rcases hl : loadAllAuth e with m | definitions
  · have hload : Writes State.filterChains writeChains
        (ofExcept (loadAllAuth e) : Traced (State F) _) [] (.error m) := by
      rw [hl]
      exact writes_throw m
    refine ⟨[none], by simp [added, hl], ?_⟩
    have ho : outcome e = .error m := by simp [outcome, hl]
    rw [ho]
    exact hclear.bind hload.bind_error
  · have hload : Writes State.filterChains writeChains
        (ofExcept (loadAllAuth e) : Traced (State F) _) [] (.ok definitions) := by
      rw [hl]
      exact writes_pure definitions
    have hset : WritesChains (F := F)
        (modify fun s => { s with filterChainDefinitionMap := definitions }) [none] (.ok ()) :=
      writes_modify fun _ => rfl
    have ho : outcome e =
        loopResult (fun d => throwOf (definitionTokens e d)) definitions.entries := by
      simp [outcome, hl]
    rw [ho]
    refine ⟨none :: none :: (added e).map some, by simp, ?_⟩
    have ha : added e = loopWrites (definitionAdds e) (fun d => throwOf (definitionTokens e d))
        definitions.entries := by simp [added, hl]
    rw [ha]
    exact hclear.bind (hload.bind (hset.bind (writes_definitions e definitions.entries)))

/-! ### The chains that are built -/

theorem build_append (adds : List (String × F)) (a : String × F) :
    build (adds ++ [a]) = addToChain (build adds) a.1 a.2 := by
  unfold build
  rw [List.foldl_append]
  rfl

/-- A built chain holds the filters added to it, in order. -/
theorem get_build (adds : List (String × F)) (url : String) :
    ((build adds).get url).getD [] = (adds.filter (·.1 = url)).map (·.2) := by
  induction adds using List.reverseRecOn with
  | nil => rfl
  | append_singleton adds a ih =>
    rw [build_append, List.filter_append, List.map_append, ← ih]
    unfold addToChain
    by_cases h : url = a.1
    · subst h
      rw [LinkedHashMap.get_put_self]
      simp
    · have h' : ¬ a.1 = url := fun he => h he.symm
      rw [LinkedHashMap.get_put_of_ne _ _ h]
      simp [h']

/-- A request that resolves keeps the chain it resolves to while chains are
added. -/
def KeepsResolving (chains chains' : Chains F) : Prop :=
  ∀ pathMatches url p, resolve pathMatches chains url = some p →
    resolve pathMatches chains' url = some p

theorem keepsResolving_writeChains (chains : Chains F) (w : Option (String × F)) :
    KeepsResolving chains (writeChains chains w) := by
  rcases w with _ | a
  · exact fun _ _ _ h => h
  · exact fun _ _ _ h => (LinkedHashMap.keys_prefix_put chains a.1 _).find?_eq_some h

/-- The filters of `url` among the additions of complete definitions are those
of its own definition. -/
theorem filter_definitionAdds (url : String) (ds : List (String × String))
    (hd : (ds.map Prod.fst).Nodup) :
    ((ds.flatMap (definitionAdds e)).filter (·.1 = url)).map (·.2) =
      (LinkedHashMap.getEntry url ds).elim []
        fun v => filtersOf (definitionTokens e (url, v)) := by
  have hown : ∀ d, ((definitionAdds e d).filter (·.1 = url)).map (·.2) =
      if d.1 = url then filtersOf (definitionTokens e d) else [] := by
    intro d
    unfold definitionAdds
    by_cases h : d.1 = url <;> simp [h, List.filter_map, Function.comp_def]
  induction ds with
  | nil => rfl
  | cons d ds ih =>
    rw [List.map_cons, List.nodup_cons] at hd
    rw [List.flatMap_cons, List.filter_append, List.map_append, hown, ih hd.2,
      LinkedHashMap.getEntry_cons]
    by_cases h : d.1 = url
    · have hnone : LinkedHashMap.getEntry url ds = none := by
        rcases hg : LinkedHashMap.getEntry url ds with _ | v
        · rfl
        · exact absurd (h ▸ LinkedHashMap.mem_keys_of_getEntry hg) hd.1
      subst h
      simp [hnone]
    · simp [h]

/-! ### Atomicity, and what holds instead -/

/-- A refresh that fails leaves the chains as they were, and what resolves
before and after it resolves all through. -/
def Atomic (e : ShiroTemplate F) (pathMatches : String → String → Bool) (s : State F) : Prop :=
  (∀ m, (refreshChainDefinitions e).result s = .error m →
    ((refreshChainDefinitions e).final s).filterChains = s.filterChains) ∧
  ∀ t ∈ (refreshChainDefinitions e).states s, ∀ url,
    (resolve pathMatches s.filterChains url).isSome →
    (resolve pathMatches ((refreshChainDefinitions e).final s).filterChains url).isSome →
    (resolve pathMatches t.filterChains url).isSome

/-- The refresh clears and then rebuilds. -/
structure ClearThenRebuild (e : ShiroTemplate F) (s : State F) : Prop where
  /-- Without a filter nothing is changed. -/
  before : ∀ m, e.getObject = .error m →
    (refreshChainDefinitions e).states s = [] ∧
      ∃ m', (refreshChainDefinitions e).result s = .error m'
  /-- After the clear there are the chains built so far. -/
  rebuilt : ∀ t ∈ (refreshChainDefinitions e).states s,
    ∃ adds, adds <+: added e ∧ t.filterChains = build adds
  /-- The refresh ends, by an exception or not, with everything built until then. -/
  ended : e.getObject = .ok () →
    ((refreshChainDefinitions e).final s).filterChains = build (added e)
  /-- If it completes, a URL has the filters of its new definition. -/
  completed : (refreshChainDefinitions e).result s = .ok () →
    ∃ definitions, loadAllAuth e = .ok definitions ∧ ∀ url,
      (((refreshChainDefinitions e).final s).filterChains.get url).getD [] =
        (definitions.get url).elim [] fun v => filtersOf (definitionTokens e (url, v))
  /-- What resolves after the clear resolves to the same chain from then on. -/
  resolves : ((refreshChainDefinitions e).states s).Pairwise
    fun t t' => KeepsResolving t.filterChains t'.filterChains

/-- Without the filter the refresh does nothing but throw. -/
theorem refresh_of_error {m : String} (h : e.getObject = .error m) (s : State F) :
    refreshChainDefinitions e s =
      ([], .error "get ShiroFilter from shiroFilterFactoryBean error!") := by
  unfold refreshChainDefinitions
  rw [h]
  rfl

/-- The states of a refresh that gets the filter: the clear, then the rebuild. -/
theorem refresh_of_ok (h : e.getObject = .ok ()) (s : State F) :
    refreshChainDefinitions e s =
      ({ s with filterChains := .empty } :: (rebuild e).states { s with filterChains := .empty },
        (rebuild e).result { s with filterChains := .empty }) := by
  unfold refreshChainDefinitions
  rw [h]
  rfl

/-- The chains go from none through the additions, with stops in between. -/
theorem refresh_passes (h : e.getObject = .ok ()) (s : State F) :
    ∃ ws, ws.filterMap id = added e ∧
      ((refreshChainDefinitions e).states s).map State.filterChains =
        .empty :: passes writeChains .empty ws := by
  obtain ⟨ws, hws, hw⟩ := writes_rebuild e
  refine ⟨ws, hws, ?_⟩
  unfold states
  rw [refresh_of_ok e h, List.map_cons]
  exact congrArg _ (hw _).1

theorem refresh_result (h : e.getObject = .ok ()) (s : State F) :
    (refreshChainDefinitions e).result s = outcome e := by
  obtain ⟨ws, -, hw⟩ := writes_rebuild e
  unfold result
  rw [refresh_of_ok e h]
  exact (hw _).2

theorem refresh_final (h : e.getObject = .ok ()) (s : State F) :
    ((refreshChainDefinitions e).final s).filterChains = build (added e) := by
  obtain ⟨ws, hws, hw⟩ := writes_rebuild e
  have hf : (refreshChainDefinitions e).final s =
      (rebuild e).final { s with filterChains := .empty } := by
    unfold final states
    rw [refresh_of_ok e h, List.getLastD_cons]
    rfl
  rw [hf, hw.part_final, foldl_writeChains, hws]
  rfl

/-- A rebuild that completes has added every definition. -/
theorem added_of_outcome_ok (h : outcome e = .ok ()) : ∃ definitions,
    loadAllAuth e = .ok definitions ∧
      added e = definitions.entries.flatMap (definitionAdds e) := by
  rcases hl : loadAllAuth e with m | definitions
  · simp [outcome, hl] at h
  · have hloop : loopResult (fun d => throwOf (definitionTokens e d)) definitions.entries =
        .ok () := by simpa [outcome, hl] using h
    refine ⟨definitions, rfl, ?_⟩
    rw [← (loopResult_ok (definitionAdds e) hloop).2]
    simp [added, hl]

/-- **Clear, then rebuild.** What a refresh does to the chains, whatever throws
and wherever. -/
theorem clearThenRebuild (e : ShiroTemplate F) (s : State F) : ClearThenRebuild e s := by
  rcases hg : e.getObject with m | u
  · have hr := refresh_of_error e hg s
    have hs : (refreshChainDefinitions e).states s = [] := congrArg Prod.fst hr
    have ht : (refreshChainDefinitions e).result s =
        .error "get ShiroFilter from shiroFilterFactoryBean error!" := congrArg Prod.snd hr
    refine ⟨fun _ _ => ⟨hs, _, ht⟩, ?_, fun h => ?_, fun h => ?_, ?_⟩
    · simp [hs]
    · rw [hg] at h
      cases h
    · rw [ht] at h
      cases h
    · rw [hs]
      exact List.Pairwise.nil
  · obtain ⟨ws, hws, hpasses⟩ := refresh_passes e hg s
    refine ⟨fun m hm => ?_, fun t ht => ?_, fun _ => refresh_final e hg s, fun hok => ?_, ?_⟩
    · rw [hg] at hm
      cases hm
    · have hmem : t.filterChains ∈ .empty :: passes writeChains .empty ws := by
        rw [← hpasses]
        exact List.mem_map_of_mem ht
      rcases List.mem_cons.mp hmem with h0 | hmem
      · exact ⟨[], List.nil_prefix, h0⟩
      · obtain ⟨n, hn⟩ := mem_passes hmem
        refine ⟨(ws.take n).filterMap id, ?_, ?_⟩
        · rw [← hws]
          exact (List.take_prefix n ws).filterMap id
        · rw [hn, foldl_writeChains]
          rfl
    · rw [refresh_result e hg] at hok
      obtain ⟨definitions, hl, hadded⟩ := added_of_outcome_ok e hok
      refine ⟨definitions, hl, fun url => ?_⟩
      calc (((refreshChainDefinitions e).final s).filterChains.get url).getD []
          = ((build (added e)).get url).getD [] := by rw [refresh_final e hg]
        _ = ((added e).filter (·.1 = url)).map (·.2) := get_build _ url
        _ = ((definitions.entries.flatMap (definitionAdds e)).filter (·.1 = url)).map (·.2) := by
            rw [hadded]
        _ = _ := filter_definitionAdds e url definitions.entries definitions.nodup
    · rw [← List.pairwise_map (f := State.filterChains), hpasses]
      have hp := pairwise_passes keepsResolving_writeChains
        (fun h h' p u q hq => h' p u q (h p u q hq)) (LinkedHashMap.empty : Chains F) ws
      exact List.pairwise_cons.mpr hp

/-- A refresh whose loading throws. -/
def brokenLoad : ShiroTemplate Unit := ⟨.ok (), none, .error "connection refused", fun _ _ => []⟩

/-- One protected URL. -/
def protectedState : State Unit := ⟨build [("/admin", ())], .empty⟩

/-- The old chain is gone after a refresh that failed. -/
theorem not_atomic : ¬ ∀ (e : ShiroTemplate Unit) (pathMatches : String → String → Bool)
    (s : State Unit), Atomic e pathMatches s := fun h => by
  have hf := (h brokenLoad (· == ·) protectedState).1 "connection refused" rfl
  have hk : (((refreshChainDefinitions brokenLoad).final protectedState).filterChains.get
      "/admin") = none := by decide
  have hk' : protectedState.filterChains.get "/admin" = some [()] := by decide
  rw [hf, hk'] at hk
  cases hk

end FilterChains
end CloudManager
