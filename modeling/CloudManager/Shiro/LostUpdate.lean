/-
# Updates of one session from several nodes

A SET stores the whole session object, so what another node has stored since
the object was read goes back to what the object holds. `Tracked` adds to the
DAO what such a write-back is judged by: the attributes last stored, for each
object those the application has written and no SET has stored yet (`dirty`),
and those that changed in Redis behind the object's back (`stale`).

`noRevert_of_notStale`: where every SET stores an object whose stale attributes
it has itself written, no step changes an attribute in Redis that the stored
object has not written.
-/
import Mathlib.Data.Fintype.Basic
import CloudManager.Lib.Runs
import CloudManager.Shiro.Revocation


namespace CloudManager
namespace SpringShiroSessionDAO

open Runs

variable {τ ν ρ K V : Type*} [DecidableEq τ] [DecidableEq ν] [DecidableEq ρ] [DecidableEq K]

/-! ### What a step does to Redis and to an object -/

/-- The object whose SET Redis accepts in this step: its node, reference and
contents. -/
def setBy (p : SpringShiroSessionDAO τ ν K V) (s : State τ ν ρ K V) :
    Event τ ν ρ K V → Option (ν × ρ × RedisSimpleSession K V)
  | .save t =>
    match s.pc t with
    | .readSave r | .updateSave r =>
      ((s.heap (p.node t) r).filter fun x => 0 < x.timeout).map fun x => (p.node t, r, x)
    | _ => none
  | _ => none

/-- The step decodes the session into this object. -/
def fresh (p : SpringShiroSessionDAO τ ν K V) (n : ν) (r : ρ) : Event τ ν ρ K V → Bool
  | .get t r' => n = p.node t ∧ r = r'
  | _ => false

/-- The application writes the attribute `k` of this object. -/
def wrote (n : ν) (r : ρ) (k : K) : Event τ ν ρ K V → Bool
  | .use n' r' (.setAttribute k' _) => n = n' ∧ r = r' ∧ k = k'
  | .use n' r' (.removeAttribute k') => n = n' ∧ r = r' ∧ k = k'
  | _ => false

variable {p : SpringShiroSessionDAO τ ν K V} {s s' : State τ ν ρ K V} {e : Event τ ν ρ K V}
  {n : ν} {r : ρ} {x y : RedisSimpleSession K V}

omit [DecidableEq τ] [DecidableEq ν] [DecidableEq ρ] [DecidableEq K] in
theorem setBy_eq_some {o : ν × ρ × RedisSimpleSession K V} (h : o ∈ setBy p s e) :
    s.heap o.1 o.2.1 = some o.2.2 ∧ ∃ t, e = .save t := by
  unfold setBy at h
  split at h
  · rename_i t
    split at h
    case h_3 => cases h
    all_goals
      obtain ⟨x, hx, rfl⟩ := Option.map_eq_some_iff.mp h
      exact ⟨(Option.filter_eq_some_iff.mp hx).1, t, rfl⟩
  · cases h

omit [DecidableEq ν] [DecidableEq ρ] [DecidableEq K] in
/-- `save` sets the key if the object has a time to live that Redis accepts. -/
theorem save_redis {t : τ} {next : Pc ρ} (h : p.save s t r next = some s') :
    s'.heap = s.heap ∧ ∃ x, s.heap (p.node t) r = some x ∧
      (0 < x.timeout ∧ s'.redis = Redis.setPx s.now x.timeout x ∨
        ¬ 0 < x.timeout ∧ s'.redis = s.redis) := by
  obtain ⟨x, hx, hs'⟩ := Option.map_eq_some_iff.mp h
  by_cases htl : 0 < x.timeout
  · have hk : s.saveSession x = some (Redis.setPx s.now x.timeout x) := if_pos htl
    simp only [hk] at hs'
    subst hs'
    exact ⟨rfl, x, hx, .inl ⟨htl, rfl⟩⟩
  · have hk : s.saveSession x = none := if_neg htl
    simp only [hk] at hs'
    subst hs'
    exact ⟨rfl, x, hx, .inr ⟨htl, rfl⟩⟩

/-! ### What a step does to an object -/

/-- The objects of `s'` are those of `s` with the attributes they had. -/
def SameAttributes (s s' : State τ ν ρ K V) : Prop :=
  ∀ n r y, s'.heap n r = some y → ∃ x, s.heap n r = some x ∧ y.attributes = x.attributes

omit [DecidableEq τ] [DecidableEq ν] [DecidableEq ρ] [DecidableEq K] in
theorem SameAttributes.of_heap (h : s'.heap = s.heap) : SameAttributes s s' := fun _ _ y hy =>
  ⟨y, h ▸ hy, rfl⟩

omit [DecidableEq τ] [DecidableEq K] in
theorem SameAttributes.write (hx : s.heap n r = some x) (hy : y.attributes = x.attributes) :
    SameAttributes s (s.write n r y) := by
  intro m q z hz
  rw [heap_write] at hz
  split at hz
  · rename_i hmq
    obtain ⟨rfl, rfl⟩ := hmq
    cases hz
    exact ⟨x, hx, hy⟩
  · exact ⟨z, hz, rfl⟩

/-- All that a step does which makes no SET, decodes no session and is no use. -/
theorem step_other (h : p.step s e = some s') (hs : ∀ t, e ≠ .save t) (hg : ∀ t r, e ≠ .get t r)
    (hu : ∀ n r u, e ≠ .use n r u) :
    (s'.redis = s.redis ∨ s'.redis = none) ∧ SameAttributes s s' := by
  cases e with
  | tick d =>
    simp only [step, Option.some.injEq] at h
    subst h
    exact ⟨.inl rfl, .of_heap rfl⟩
  | use n r u => exact (hu n r u rfl).elim
  | read t =>
    simp only [step, Option.ite_none_right_eq_some, Option.some.injEq] at h
    obtain ⟨-, rfl⟩ := h
    unfold readMemory
    split
    · exact ⟨.inl rfl, .of_heap rfl⟩
    · exact ⟨.inl rfl, .of_heap rfl⟩
    · split <;> exact ⟨.inl rfl, .of_heap rfl⟩
  | get t r => exact (hg t r rfl).elim
  | save t => exact (hs t rfl).elim
  | cache t =>
    obtain ⟨r, x, -, hx, rfl⟩ := step_cache_cases h
    have hw : SameAttributes s (s.write (p.node t) r (x.setCreateTimestamp s.now)) :=
      .write hx rfl
    exact ⟨.inl rfl, hw⟩
  | update t r =>
    simp only [step, Option.ite_none_right_eq_some] at h
    obtain ⟨x, hx, rfl⟩ := Option.map_eq_some_iff.mp h.2
    unfold beginUpdate
    split
    · split
      · have hw : SameAttributes s (s.write (p.node t) r (x.setChanged false)) := .write hx rfl
        exact ⟨.inl rfl, hw⟩
      · exact ⟨.inl rfl, .of_heap rfl⟩
    · exact ⟨.inl rfl, .of_heap rfl⟩
  | check t =>
    obtain ⟨r, x, -, rfl⟩ := step_check_cases h
    split <;> exact ⟨.inl rfl, .of_heap rfl⟩
  | delete t =>
    simp only [step, Option.ite_none_right_eq_some, Option.some.injEq] at h
    obtain ⟨-, rfl⟩ := h
    exact ⟨.inl rfl, .of_heap rfl⟩
  | del t =>
    simp only [step, Option.ite_none_right_eq_some, Option.some.injEq] at h
    obtain ⟨-, rfl⟩ := h
    exact ⟨.inr rfl, .of_heap rfl⟩

/-- A SET stores an object as it is, or is refused. -/
theorem step_save {t : τ} (h : p.step s (.save t) = some s') :
    s'.heap = s.heap ∧
      ((∃ o ∈ setBy p s (.save t), s'.redis = Redis.setPx s.now o.2.2.timeout o.2.2) ∨
        setBy p s (.save t) = none ∧ s'.redis = s.redis) := by
  rcases step_save_cases h with ⟨r, hp, h⟩ | ⟨r, hp, h⟩
  all_goals
    obtain ⟨hh, x, hx, ⟨htl, hr⟩ | ⟨htl, hr⟩⟩ := save_redis h
    · refine ⟨hh, .inl ⟨(p.node t, r, x), ?_, hr⟩⟩
      simp [setBy, hp, hx, htl]
    · exact ⟨hh, .inr ⟨by simpa [setBy, hp, hx] using htl, hr⟩⟩

/-- GET decodes what is in Redis into the new object. -/
theorem step_get {t : τ} (h : p.step s (.get t r) = some s') :
    s'.redis = s.redis ∧ ∀ m q z, s'.heap m q = some z →
      if fresh p m q (.get t r : Event τ ν ρ K V) then
        ∃ x ∈ Redis.get s.now s.redis, z.attributes = x.attributes
      else s.heap m q = some z := by
  simp only [step, Option.ite_none_right_eq_some, Option.some.injEq] at h
  obtain ⟨⟨-, hnone⟩, rfl⟩ := h
  have hkeep : ∀ m q z, s.heap m q = some z → fresh p m q (.get t r : Event τ ν ρ K V) = false := by
    intro m q z hz
    rw [fresh, decide_eq_false_iff_not]
    rintro ⟨rfl, rfl⟩
    rw [hz] at hnone
    cases hnone
  have hsame : ∀ m q z, s.heap m q = some z →
      if fresh p m q (.get t r : Event τ ν ρ K V) then
        ∃ x ∈ Redis.get s.now s.redis, z.attributes = x.attributes
      else s.heap m q = some z := fun m q z hz => by
    rw [hkeep m q z hz]
    exact hz
  unfold readRedis
  rcases hg : Redis.get s.now s.redis with _ | x
  · exact ⟨rfl, fun m q z hz => by simpa only [hg] using hsame m q z hz⟩
  · have hw : ∀ y : RedisSimpleSession K V, y.attributes = x.attributes →
        ∀ m q z, (s.write (p.node t) r y).heap m q = some z →
          if fresh p m q (.get t r : Event τ ν ρ K V) then
            ∃ x' ∈ some x, z.attributes = x'.attributes
          else s.heap m q = some z := by
      intro y hy m q z hz
      rw [heap_write] at hz
      split at hz
      · rename_i hmq
        cases hz
        rw [if_pos (by simpa [fresh] using hmq)]
        exact ⟨x, rfl, hy⟩
      · simpa only [hg] using hsame m q z hz
    simp only
    split
    · split
      · exact ⟨rfl, hw _ rfl⟩
      · exact ⟨rfl, fun m q z hz => by simpa only [hg] using hsame m q z hz⟩
    · exact ⟨rfl, hw x rfl⟩

/-- A use changes the attributes it writes, of one object. -/
theorem step_use {m : ν} {q : ρ} {u : RedisSimpleSession.Use K V}
    (h : p.step s (.use m q u) = some s') : s'.redis = s.redis ∧
      ∀ n r y, s'.heap n r = some y → ∃ x, s.heap n r = some x ∧
        ∀ k, wrote n r k (.use m q u : Event τ ν ρ K V) = false → y.attributes k = x.attributes k := by
  obtain ⟨x, hx, rfl⟩ := Option.map_eq_some_iff.mp h
  refine ⟨rfl, fun n r y hy => ?_⟩
  rw [heap_write] at hy
  split at hy
  · rename_i hnr
    obtain ⟨rfl, rfl⟩ := hnr
    cases hy
    refine ⟨x, hx, fun k hk => ?_⟩
    cases u with
    | setAttribute k' v =>
      have hne : k ≠ k' := by simpa [wrote] using hk
      exact Function.update_of_ne hne _ _
    | removeAttribute k' =>
      have hne : k ≠ k' := by simpa [wrote] using hk
      exact Function.update_of_ne hne _ _
    | _ => rfl
  · exact ⟨y, hy, fun _ _ => rfl⟩

/-! ### Who holds what -/

variable [DecidableEq V]

/-- The DAO, and what a write-back is judged by. -/
structure Tracked (τ ν ρ K V : Type*) where
  base : State τ ν ρ K V
  /-- The attributes stored last. -/
  stored : K → Option V
  /-- The application has written the attribute of the object since the object
  was read from Redis or stored. -/
  dirty : ν → ρ → K → Bool
  /-- The stored attribute has changed since then. -/
  stale : ν → ρ → K → Bool

/-- The step makes the object and Redis agree. -/
def synced (p : SpringShiroSessionDAO τ ν K V) (s : State τ ν ρ K V) (e : Event τ ν ρ K V) (n : ν)
    (r : ρ) : Bool :=
  fresh p n r e || (setBy p s e).any fun o => o.1 = n ∧ o.2.1 = r

/-- The step stores another value of the attribute. -/
def changes (p : SpringShiroSessionDAO τ ν K V) (s : Tracked τ ν ρ K V) (e : Event τ ν ρ K V)
    (k : K) : Bool :=
  (setBy p s.base e).any fun o => o.2.2.attributes k ≠ s.stored k

def Tracked.step (p : SpringShiroSessionDAO τ ν K V) (s : Tracked τ ν ρ K V)
    (e : Event τ ν ρ K V) : Option (Tracked τ ν ρ K V) :=
  (p.step s.base e).map fun b =>
    { base := b
      stored := ((setBy p s.base e).map fun o => o.2.2.attributes).getD s.stored
      dirty := fun n r k => !synced p s.base e n r && (s.dirty n r k || wrote n r k e)
      stale := fun n r k => !synced p s.base e n r && (s.stale n r k || changes p s e k) }

/-- A step changes an attribute in Redis only by a SET of an object in which the
application has written it. -/
structure NoRevert (p : SpringShiroSessionDAO τ ν K V) (s : Tracked τ ν ρ K V)
    (e : Event τ ν ρ K V) (s' : Tracked τ ν ρ K V) : Prop where
  visible : ∀ x ∈ Redis.get s'.base.now s'.base.redis, x.attributes = s'.stored
  written : ∀ k, s'.stored k ≠ s.stored k →
    ∃ o ∈ setBy p s.base e, s.dirty o.1 o.2.1 k = true

/-- A SET stores an object only if the application has written all of its
attributes that are stale. -/
def NotStale (p : SpringShiroSessionDAO τ ν K V) (s : Tracked τ ν ρ K V) (e : Event τ ν ρ K V) :
    Prop :=
  ∀ o ∈ setBy p s.base e, ∀ k, s.stale o.1 o.2.1 k = true → s.dirty o.1 o.2.1 k = true

instance [Fintype K] (p : SpringShiroSessionDAO τ ν K V) (s : Tracked τ ν ρ K V)
    (e : Event τ ν ρ K V) : Decidable (NotStale p s e) :=
  inferInstanceAs (Decidable (∀ o ∈ setBy p s.base e, ∀ k : K,
    s.stale o.1 o.2.1 k = true → s.dirty o.1 o.2.1 k = true))

/-- The objects the nodes hold are as they are in Redis. -/
structure Tracked.Initial (s : Tracked τ ν ρ K V) : Prop where
  visible : ∀ c ∈ s.base.redis, c.value.attributes = s.stored
  agree : ∀ n r x, s.base.heap n r = some x → x.attributes = s.stored

/-- What is not dirty and not stale is as it is in Redis. -/
structure Synced (s : Tracked τ ν ρ K V) : Prop where
  visible : ∀ c ∈ s.base.redis, c.value.attributes = s.stored
  agree : ∀ n r x, s.base.heap n r = some x → ∀ k, s.dirty n r k = false →
    s.stale n r k = false → x.attributes k = s.stored k

variable {q q' : Tracked τ ν ρ K V}

omit [DecidableEq τ] [DecidableEq ν] [DecidableEq ρ] [DecidableEq K] [DecidableEq V] in
theorem Synced.get (h : Synced q) (hx : x ∈ Redis.get q.base.now q.base.redis) :
    x.attributes = q.stored := by
  obtain ⟨c, hc, rfl⟩ := Redis.get_eq_some.mp hx
  exact h.visible c (Redis.live_eq_some.mp hc).1

omit [DecidableEq τ] [DecidableEq ν] [DecidableEq ρ] [DecidableEq K] [DecidableEq V] in
theorem Synced.start (h : q.Initial) : Synced q :=
  ⟨h.visible, fun n r x hx k _ _ => congrFun (h.agree n r x hx) k⟩

/-- A SET of `o`: the attributes of `o` that are not dirty stay in Redis as they
are, and what else is neither dirty nor stale was so before. -/
theorem Synced.set (h : Synced q) {o : ν × ρ × RedisSimpleSession K V} (ho : o ∈ setBy p q.base e)
    (he : q.step p e = some q') (hr : q'.base.redis =
      Redis.setPx q.base.now o.2.2.timeout o.2.2) (hh : q'.base.heap = q.base.heap) : Synced q' := by
  obtain ⟨b, hb, rfl⟩ := Option.map_eq_some_iff.mp he
  have ho' : setBy p q.base e = some o := ho
  have hst : ((setBy p q.base e).map fun o => o.2.2.attributes).getD q.stored =
      o.2.2.attributes := by rw [ho']; rfl
  simp only at hr hh
  obtain ⟨hobj, t, rfl⟩ := setBy_eq_some ho
  constructor
  · intro c hc
    rw [hr] at hc
    cases hc
    exact hst.symm
  · intro n r x hx k hd hs
    rw [hh] at hx
    simp only [hst]
    by_cases hnr : o.1 = n ∧ o.2.1 = r
    · -- the object stored
      obtain ⟨rfl, rfl⟩ := hnr
      rw [hobj] at hx
      cases hx
      rfl
    · have hsync : synced p q.base (.save t) n r = false := by
        simpa [synced, fresh, ho'] using hnr
      simp only [hsync, Bool.not_false, Bool.true_and, Bool.or_eq_false_iff] at hd hs
      have hsame : o.2.2.attributes k = q.stored k := by simpa [changes, ho'] using hs.2
      rw [h.agree n r x hx k hd.1 hs.1, hsame]

/-- A step that stores nothing. -/
theorem Synced.other (h : Synced q) (hnone : setBy p q.base e = none) (he : q.step p e = some q')
    (hr : q'.base.redis = q.base.redis ∨ q'.base.redis = none)
    (hh : ∀ n r y, q'.base.heap n r = some y →
      if fresh p n r e then ∃ x ∈ Redis.get q.base.now q.base.redis, y.attributes = x.attributes
      else ∃ x, q.base.heap n r = some x ∧
        ∀ k, wrote n r k e = false → y.attributes k = x.attributes k) : Synced q' := by
  obtain ⟨b, hb, rfl⟩ := Option.map_eq_some_iff.mp he
  simp only at hr hh
  constructor
  · intro c hc
    rcases hr with hr | hr
    · rw [hr] at hc
      simpa [hnone] using h.visible c hc
    · rw [hr] at hc
      cases hc
  · intro n r y hy k hd hs
    have hy' := hh n r y hy
    simp only [hnone, Option.map_none, Option.getD_none]
    cases hf : fresh p n r e with
    | true =>
      rw [hf, if_pos rfl] at hy'
      obtain ⟨x, hx, hyx⟩ := hy'
      rw [hyx, h.get hx]
    | false =>
      rw [hf, if_neg Bool.false_ne_true] at hy'
      obtain ⟨x, hx, hyx⟩ := hy'
      have hsync : synced p q.base e n r = false := by simp [synced, hf, hnone]
      simp only [hsync, Bool.not_false, Bool.true_and, Bool.or_eq_false_iff] at hd hs
      rw [hyx k hd.2, h.agree n r x hx k hd.1 hs.1]

theorem Synced.step (h : Synced q) (he : q.step p e = some q') : Synced q' := by
  obtain ⟨b, hb, hq⟩ := Option.map_eq_some_iff.mp he
  have hbase : q'.base = b := by rw [← hq]
  by_cases hs : ∃ t, e = .save t
  · obtain ⟨t, rfl⟩ := hs
    obtain ⟨hh, ⟨o, ho, hr⟩ | ⟨hnone, hr⟩⟩ := step_save hb
    · exact h.set ho he (hbase ▸ hr) (hbase ▸ hh)
    · refine h.other hnone he (.inl (hbase ▸ hr)) fun n r y hy => ?_
      rw [hbase, hh] at hy
      exact ⟨y, hy, fun _ _ => rfl⟩
  have hnone : setBy p q.base e = none := by
    rcases hset : setBy p q.base e with _ | o
    · rfl
    · exact (hs (setBy_eq_some hset).2).elim
  by_cases hg : ∃ t r, e = .get t r
  · obtain ⟨t, r, rfl⟩ := hg
    obtain ⟨hr, hh⟩ := step_get hb
    refine h.other hnone he (.inl (hbase ▸ hr)) fun m r' y hy => ?_
    rw [hbase] at hy
    have hy' := hh m r' y hy
    split
    · rename_i hf
      rwa [if_pos hf] at hy'
    · rename_i hf
      rw [if_neg hf] at hy'
      exact ⟨y, hy', fun _ _ => rfl⟩
  by_cases hu : ∃ n r u, e = .use n r u
  · obtain ⟨n, r, u, rfl⟩ := hu
    obtain ⟨hr, hh⟩ := step_use hb
    refine h.other hnone he (.inl (hbase ▸ hr)) fun m r' y hy => ?_
    rw [hbase] at hy
    exact hh m r' y hy
  · obtain ⟨hr, hh⟩ := step_other hb (fun t ht => hs ⟨t, ht⟩) (fun t r ht => hg ⟨t, r, ht⟩)
      (fun n r u ht => hu ⟨n, r, u, ht⟩)
    have hf : ∀ m r', fresh p m r' e = false := by
      intro m r'
      cases e with
      | get t r => exact (hg ⟨t, r, rfl⟩).elim
      | _ => rfl
    refine h.other hnone he (hbase ▸ hr) fun m r' y hy => ?_
    rw [hbase] at hy
    obtain ⟨x, hx, hyx⟩ := hh m r' y hy
    rw [hf, if_neg Bool.false_ne_true]
    exact ⟨x, hx, fun k _ => congrFun hyx k⟩

/-- **No update is lost** in a run whose SETs store no stale attribute that the
application has not written itself. -/
theorem noRevert_of_notStale {q₀ : Tracked τ ν ρ K V} (h0 : q₀.Initial)
    (h : Reach (Tracked.step p) (NotStale p) q₀ q) (hok : NotStale p q e)
    (he : q.step p e = some q') : NoRevert p q e q' := by
  have hI : Synced q := h.invariant (Synced.start h0) fun _ _ _ hi _ he => hi.step he
  refine ⟨fun x hx => (hI.step he).get hx, fun k hne => ?_⟩
  obtain ⟨b, hb, rfl⟩ := Option.map_eq_some_iff.mp he
  rcases hset : setBy p q.base e with _ | o
  · simp [hset] at hne
  · refine ⟨o, rfl, ?_⟩
    by_contra hd
    have hd' : q.dirty o.1 o.2.1 k = false := Bool.eq_false_of_not_eq_true hd
    have hs : q.stale o.1 o.2.1 k = false := Bool.eq_false_of_not_eq_true fun hs =>
      hd (hok o hset k hs)
    have hx := hI.agree o.1 o.2.1 o.2.2 (setBy_eq_some hset).1 k hd' hs
    simp only [hset, Option.map_some, Option.getD_some] at hne
    exact hne hx

/-! ### Runs -/

/-- The session of a logged-in user, held by no node. -/
def trackedLogin : Tracked (Fin 2) (Fin 2) ℕ Bool ℕ where
  base := loggedIn
  stored k := if k then some 7 else none
  dirty _ _ _ := false
  stale _ _ _ := false

theorem trackedLogin_initial : trackedLogin.Initial where
  visible c hc := by
    cases hc
    rfl
  agree n r x hx := by cases hx

/-- Both nodes read the session, and node 1 sets an attribute. -/
def bothRead : List (Event (Fin 2) (Fin 2) ℕ Bool ℕ) :=
  [.read node0, .get node0 0, .save node0, .cache node0,
    .read node1, .get node1 0, .save node1, .cache node1,
    .use node1 0 (.setAttribute false 1), .update node1 0]

def afterBothRead : Tracked (Fin 2) (Fin 2) ℕ Bool ℕ :=
  (runWith (Tracked.step twoNodes) (NotStale twoNodes) trackedLogin bothRead).get (by decide)

theorem noRevert_bothRead :
    NoRevert twoNodes afterBothRead (.save 1)
      ((afterBothRead.step twoNodes (.save 1)).get (by decide)) :=
  noRevert_of_notStale trackedLogin_initial (reach_get bothRead (by decide)) (by decide)
    (Option.some_get _).symm

/-- Node 0 reads the session once more: its GET comes before the SET of node 1's
update. -/
def readAcross : List (Event (Fin 2) (Fin 2) ℕ Bool ℕ) :=
  bothRead ++ [.tick 10001, .read node0, .get node0 1, .save node1, .check node1]

/-- The SET that resets the access time takes the attribute back. -/
theorem update_lost : ¬ ∀ q₀ q q' : Tracked (Fin 2) (Fin 2) ℕ Bool ℕ, ∀ e, q₀.Initial →
    Reach (Tracked.step twoNodes) (fun _ _ => True) q₀ q → q.step twoNodes e = some q' →
      NoRevert twoNodes q e q' := fun h => by
  have hn := h trackedLogin _ _ (.save 0) trackedLogin_initial
    (reach_get readAcross (by decide)) (Option.some_get (by decide)).symm
  obtain ⟨o, ho, hd⟩ := hn.written false (by decide)
  revert o
  decide

end SpringShiroSessionDAO
end CloudManager
