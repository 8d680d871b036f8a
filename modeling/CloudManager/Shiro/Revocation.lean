/-
# Revoking a session

Once `delete` has completed the session should be gone: absent from Redis for
good, and served by no node for longer than `timeToLiveSeconds` (`Revoked`).
`doReadSession` writes back what it read and `update` writes what a node holds,
and neither looks whether the session is still there, so a SET that comes after
the DEL brings the session back (`revived`). In a run in which a SET, or a put
into a memory, after a delete finds the session still in Redis the session
stays revoked (`revoked_of_careful`).

The invariant is on the stamps: whatever a memory holds was put there before
the first delete completed.
-/
import CloudManager.Lib.Runs
import CloudManager.Shiro.SessionDAO


namespace CloudManager
namespace SpringShiroSessionDAO

open Runs

variable {τ ν ρ K V : Type*} [DecidableEq τ] [DecidableEq ν] [DecidableEq ρ] [DecidableEq K]

/-- The session is revoked by a delete that has completed: it is not in Redis,
and what was returned after the delete was returned within the time to live of
a memory. -/
structure Revoked (p : SpringShiroSessionDAO τ ν K V) (s : State τ ν ρ K V) : Prop where
  absent : s.deletedAt.isSome → Redis.get s.now s.redis = none
  served : ∀ d ∈ s.deletedAt, ∀ t ∈ s.returnedAt, d < t → t ≤ d + p.timeToLiveSeconds * 1000

/-- The object carries the time it was put into a memory, and no delete had
completed before. -/
def Stamped (s : State τ ν ρ K V) (x : RedisSimpleSession K V) : Prop :=
  ∃ c, x.createTimestamp = some c ∧ c ≤ s.now ∧ ∀ d ∈ s.deletedAt, c ≤ d

/-- A memory entry refers to a stamped object. -/
def MemoryStamped (s : State τ ν ρ K V) : Prop :=
  ∀ n r, s.sessions n = some r → ∃ x, s.heap n r = some x ∧ Stamped s x

/-- Nobody is inside the DAO, nothing has been deleted or returned yet; Redis
and the memories hold anything that `cache` may have left there. -/
structure Initial (s : State τ ν ρ K V) : Prop where
  idle : ∀ t, s.pc t = .idle
  deletedAt : s.deletedAt = none
  returnedAt : s.returnedAt = none
  memory : MemoryStamped s

/-- The object the thread's next SET stores. -/
def saving (p : SpringShiroSessionDAO τ ν K V) (s : State τ ν ρ K V) (t : τ) :
    Option (RedisSimpleSession K V) :=
  match s.pc t with
  | .readSave r => s.heap (p.node t) r
  | .updateSave r => s.heap (p.node t) r
  | _ => none

/-- No late writes: a SET that Redis accepts, or a put into a memory, that comes
after a completed delete finds the session still in Redis. -/
def Careful (p : SpringShiroSessionDAO τ ν K V) (s : State τ ν ρ K V) :
    Event τ ν ρ K V → Prop
  | .save t => ∀ x ∈ saving p s t, 0 < x.timeout →
      s.deletedAt = none ∨ (Redis.get s.now s.redis).isSome
  | .cache _ => ∀ d ∈ s.deletedAt, s.now ≤ d ∨ (Redis.get s.now s.redis).isSome
  | _ => True

instance (p : SpringShiroSessionDAO τ ν K V) (s : State τ ν ρ K V) :
    ∀ e, Decidable (Careful p s e)
  | .save t => inferInstanceAs (Decidable (∀ x ∈ saving p s t, 0 < x.timeout →
      s.deletedAt = none ∨ (Redis.get s.now s.redis).isSome))
  | .cache _ => inferInstanceAs (Decidable (∀ d ∈ s.deletedAt,
      s.now ≤ d ∨ (Redis.get s.now s.redis).isSome))
  | .tick _ | .use _ _ _ | .read _ | .get _ _ | .update _ _ | .check _ | .delete _ | .del _ =>
    .isTrue trivial

/-! ### The invariant -/

structure Inv (p : SpringShiroSessionDAO τ ν K V) (s : State τ ν ρ K V) : Prop
    extends Revoked p s where
  memory : MemoryStamped s
  past : ∀ d ∈ s.deletedAt, d ≤ s.now
  returnedPast : ∀ t ∈ s.returnedAt, t ≤ s.now

variable {p : SpringShiroSessionDAO τ ν K V} {s s' : State τ ν ρ K V}

omit [DecidableEq τ] [DecidableEq ν] [DecidableEq ρ] [DecidableEq K] in
theorem inv_of_initial (h : Initial s) : Inv p s := by
  have hd := h.deletedAt
  have hr := h.returnedAt
  exact ⟨⟨by simp [hd], by simp [hd]⟩, h.memory, by simp [hd], by simp [hr]⟩

omit [DecidableEq τ] [DecidableEq ν] [DecidableEq ρ] [DecidableEq K] in
/-- A session that is in Redis has not been deleted. -/
theorem Inv.not_deleted (h : Inv p s) (hs : (Redis.get s.now s.redis).isSome) :
    s.deletedAt = none := by
  rcases hd : s.deletedAt with _ | d
  · rfl
  · rw [h.absent (by rw [hd]; rfl)] at hs
    cases hs

omit [DecidableEq ν] [DecidableEq ρ] [DecidableEq K] in
theorem Inv.setPc (h : Inv p s) (t : τ) (c : Pc ρ) : Inv p (s.setPc t c) :=
  ⟨⟨h.absent, h.served⟩, h.memory, h.past, h.returnedPast⟩

omit [DecidableEq τ] [DecidableEq ν] [DecidableEq ρ] [DecidableEq K] in
theorem inv_tick (h : Inv p s) (d : ℕ) : Inv p { s with now := s.now + d } := by
  have hle : s.now ≤ s.now + d := by omega
  refine ⟨⟨fun hs => ?_, h.served⟩, fun n r hr => ?_, fun t ht => ?_, fun t ht => ?_⟩
  · have h0 := Redis.get_eq_none.mp (h.absent hs)
    exact Redis.get_eq_none.mpr (Redis.live_none_mono h0 hle)
  · obtain ⟨x, hx, c, hc, hcn, hcd⟩ := h.memory n r hr
    exact ⟨x, hx, c, hc, hcn.trans hle, hcd⟩
  · exact (h.past t ht).trans hle
  · exact (h.returnedPast t ht).trans hle

omit [DecidableEq τ] [DecidableEq K] in
/-- An object may be overwritten by one that is stamped as well if the memory
refers to it. -/
theorem Inv.write (h : Inv p s) (n : ν) (r : ρ) (x : RedisSimpleSession K V)
    (hx : s.sessions n = some r → Stamped s x) : Inv p (s.write n r x) := by
  refine ⟨⟨h.absent, h.served⟩, fun m q hq => ?_, h.past, h.returnedPast⟩
  have hq' : s.sessions m = some q := hq
  show ∃ y, Function.update s.heap n (Function.update (s.heap n) r (some x)) m q = some y ∧ Stamped s y
  by_cases hm : m = n
  · subst hm
    rw [Function.update_self]
    by_cases hr : q = r
    · subst hr
      exact ⟨x, Function.update_self .., hx hq'⟩
    · rw [Function.update_of_ne hr]
      exact h.memory m q hq'
  · rw [Function.update_of_ne hm]
    exact h.memory m q hq'

omit [DecidableEq τ] [DecidableEq K] in
/-- An object that is overwritten keeping its stamp stays stamped. -/
theorem Inv.rewrite (h : Inv p s) {n : ν} {r : ρ} {x y : RedisSimpleSession K V}
    (hx : s.heap n r = some x) (hy : y.createTimestamp = x.createTimestamp) :
    Inv p (s.write n r y) := by
  apply h.write
  intro hr
  obtain ⟨x', hx', c, hc, hcd⟩ := h.memory n r hr
  rw [hx, Option.some.injEq] at hx'
  subst hx'
  exact ⟨c, hy.trans hc, hcd⟩

omit [DecidableEq τ] [DecidableEq K] in
/-- A new object is referred to by no memory. -/
theorem Inv.alloc (h : Inv p s) {n : ν} {r : ρ} (hr : s.heap n r = none)
    (x : RedisSimpleSession K V) : Inv p (s.write n r x) := by
  apply h.write
  intro hs
  obtain ⟨y, hy, -⟩ := h.memory n r hs
  rw [hr] at hy
  cases hy

omit [DecidableEq τ] [DecidableEq ν] [DecidableEq ρ] [DecidableEq K] in
theorem Inv.returned (h : Inv p s)
    (hd : ∀ d ∈ s.deletedAt, d < s.now → s.now ≤ d + p.timeToLiveSeconds * 1000) :
    Inv p s.returned := by
  refine ⟨⟨h.absent, fun d hdd t ht => ?_⟩, h.memory, h.past, fun t ht => ?_⟩
  · obtain rfl : s.now = t := by simpa [State.returned] using ht
    exact hd d hdd
  · obtain rfl : s.now = t := by simpa [State.returned] using ht
    exact le_refl _

omit [DecidableEq τ] [DecidableEq ρ] [DecidableEq K] in
theorem Inv.uncache (h : Inv p s) (n : ν) : Inv p (s.uncache n) := by
  refine ⟨⟨h.absent, h.served⟩, fun m r hr => ?_, h.past, h.returnedPast⟩
  have hr' : Function.update s.sessions n none m = some r := hr
  by_cases hm : m = n
  · subst hm
    rw [Function.update_self] at hr'
    cases hr'
  · rw [Function.update_of_ne hm] at hr'
    exact h.memory m r hr'

omit [DecidableEq τ] [DecidableEq K] in
theorem Inv.cache (h : Inv p s) (hd : ∀ d ∈ s.deletedAt, s.now ≤ d) (n : ν) (r : ρ)
    (x : RedisSimpleSession K V) : Inv p (s.cache n r x) := by
  have hst : Stamped s (x.setCreateTimestamp s.now) := ⟨s.now, rfl, le_refl _, hd⟩
  have hw := h.write n r (x.setCreateTimestamp s.now) fun _ => hst
  refine ⟨⟨hw.absent, hw.served⟩, fun m q hq => ?_, hw.past, hw.returnedPast⟩
  have hq' : Function.update s.sessions n (some r) m = some q := hq
  by_cases hm : m = n
  · subst hm
    rw [Function.update_self, Option.some.injEq] at hq'
    subst hq'
    refine ⟨x.setCreateTimestamp s.now, ?_, hst⟩
    show Function.update s.heap m (Function.update (s.heap m) r _) m r = _
    rw [Function.update_self, Function.update_self]
  · rw [Function.update_of_ne hm] at hq'
    exact hw.memory m q hq'

omit [DecidableEq τ] [DecidableEq ν] [DecidableEq ρ] [DecidableEq K] in
theorem Inv.deleted (h : Inv p s) : Inv p s.deleted := by
  have hd : ∀ d ∈ s.deleted.deletedAt, d ∈ s.deletedAt ∨ d = s.now := by
    intro d hd
    have hd' : d ∈ s.deletedAt.or (some s.now) := hd
    rcases hs : s.deletedAt with _ | d'
    · rw [hs] at hd'
      exact .inr (by simpa [eq_comm] using hd')
    · rw [hs] at hd'
      exact .inl hd'
  refine ⟨⟨fun _ => rfl, fun d hdd t ht hlt => ?_⟩, fun n r hr => ?_, fun d hdd => ?_,
    h.returnedPast⟩
  · rcases hd d hdd with h1 | rfl
    · exact h.served d h1 t ht hlt
    · have : t ≤ s.now := h.returnedPast t ht
      omega
  · obtain ⟨x, hx, c, hc, hcn, hcd⟩ := h.memory n r hr
    refine ⟨x, hx, c, hc, hcn, fun d hdd => ?_⟩
    rcases hd d hdd with h1 | rfl
    · exact hcd d h1
    · exact hcn
  · rcases hd d hdd with h1 | rfl
    · exact h.past d h1
    · exact le_refl _

/-! ### What each step keeps -/

omit [DecidableEq τ] [DecidableEq ν] [DecidableEq ρ] [DecidableEq K] in
theorem cacheSession_eq_hit {n : ν} {x : RedisSimpleSession K V}
    (h : p.cacheSession s n = .hit x) : ∃ r c, s.sessions n = some r ∧ s.heap n r = some x ∧
      x.createTimestamp = some c ∧ s.now ≤ c + p.timeToLiveSeconds * 1000 := by
  unfold cacheSession at h
  rcases hb : (s.sessions n).bind (s.heap n) with _ | y
  · simp [hb] at h
  · obtain ⟨r, hr, hy⟩ := Option.bind_eq_some_iff.mp hb
    rcases hc : y.createTimestamp with _ | c
    · simp [hb, hc] at h
    · simp only [hb, hc] at h
      split at h
      · cases h
      · rename_i hlt
        cases h
        exact ⟨r, c, hr, hy, hc, by omega⟩

omit [DecidableEq τ] [DecidableEq ν] [DecidableEq ρ] [DecidableEq K] in
/-- What a memory serves was put there before any delete completed. -/
theorem Inv.hit (h : Inv p s) {n : ν} {x : RedisSimpleSession K V}
    (hx : p.cacheSession s n = .hit x) :
    ∀ d ∈ s.deletedAt, s.now ≤ d + p.timeToLiveSeconds * 1000 := by
  obtain ⟨r, c, hr, hy, hc, hle⟩ := cacheSession_eq_hit hx
  obtain ⟨y, hy', c', hc', -, hcd⟩ := h.memory n r hr
  rw [hy, Option.some.injEq] at hy'
  subst hy'
  rw [hc, Option.some.injEq] at hc'
  subst hc'
  intro d hd
  calc s.now ≤ c + p.timeToLiveSeconds * 1000 := hle
    _ ≤ d + p.timeToLiveSeconds * 1000 := Int.add_le_add_right (hcd d hd) _

omit [DecidableEq ν] [DecidableEq ρ] [DecidableEq K] in
theorem Inv.readMemory (h : Inv p s) (t : τ) : Inv p (p.readMemory s t) := by
  unfold SpringShiroSessionDAO.readMemory
  rcases hx : p.cacheSession s (p.node t) with x | _ | _
  · show Inv p (if _ then s.returned else s.setPc t .readGet)
    split
    · exact h.returned fun d hd _ => h.hit hx d hd
    · exact h.setPc t _
  · exact h.setPc t _
  · exact h

omit [DecidableEq K] in
theorem Inv.readRedis (h : Inv p s) (t : τ) {r : ρ} (hr : s.heap (p.node t) r = none) :
    Inv p (p.readRedis s t r) := by
  unfold SpringShiroSessionDAO.readRedis
  rcases hg : Redis.get s.now s.redis with _ | x
  · exact h.setPc t _
  · have hd : s.deletedAt = none := h.not_deleted (by rw [hg]; rfl)
    simp only
    split
    · split
      · exact (h.alloc hr _).setPc t _
      · exact h.setPc t _
    · apply ((h.alloc hr x).setPc t .idle).returned
      intro d hdd
      have hdd' : d ∈ s.deletedAt := hdd
      rw [hd] at hdd'
      cases hdd'

omit [DecidableEq ν] [DecidableEq ρ] [DecidableEq K] in
theorem Inv.save (h : Inv p s) {t : τ} {r : ρ} {next : Pc ρ}
    (hc : ∀ x ∈ s.heap (p.node t) r, 0 < x.timeout →
      s.deletedAt = none ∨ (Redis.get s.now s.redis).isSome)
    (hs : p.save s t r next = some s') : Inv p s' := by
  obtain ⟨x, hx, hs'⟩ := Option.map_eq_some_iff.mp hs
  by_cases htl : 0 < x.timeout
  · have hd : s.deletedAt = none := (hc x hx htl).elim id h.not_deleted
    have hk : s.saveSession x = some (Redis.setPx s.now x.timeout x) := if_pos htl
    simp only [hk] at hs'
    subst hs'
    apply Inv.setPc
    exact ⟨⟨fun hsome => by simp [hd] at hsome, h.served⟩, h.memory, h.past, h.returnedPast⟩
  · have hk : s.saveSession x = none := if_neg htl
    simp only [hk] at hs'
    subst hs'
    exact h.setPc t _

omit [DecidableEq K] in
theorem Inv.beginUpdate (h : Inv p s) (t : τ) {r : ρ} {x : RedisSimpleSession K V}
    (hx : s.heap (p.node t) r = some x) : Inv p (p.beginUpdate s t r x) := by
  unfold SpringShiroSessionDAO.beginUpdate
  split
  · split
    · exact (h.rewrite (y := x.setChanged false) hx rfl).setPc t _
    · exact h
  · exact h

theorem inv_step {e : Event τ ν ρ K V} (h : Inv p s) (hc : Careful p s e)
    (he : p.step s e = some s') : Inv p s' := by
  cases e with
  | tick d =>
    simp only [step, Option.some.injEq] at he
    exact he ▸ inv_tick h d
  | use n r u =>
    obtain ⟨x, hx, rfl⟩ := Option.map_eq_some_iff.mp he
    exact h.rewrite hx (x.use_createTimestamp s.now u)
  | read t =>
    simp only [step, Option.ite_none_right_eq_some, Option.some.injEq] at he
    exact he.2 ▸ h.readMemory t
  | get t r =>
    simp only [step, Option.ite_none_right_eq_some, Option.some.injEq] at he
    obtain ⟨⟨-, hr⟩, rfl⟩ := he
    exact h.readRedis t (Option.isNone_iff_eq_none.mp hr)
  | save t =>
    rcases step_save_cases he with ⟨r, hp, he⟩ | ⟨r, hp, he⟩
    · exact h.save (by simpa [Careful, saving, hp] using hc) he
    · exact h.save (by simpa [Careful, saving, hp] using hc) he
  | cache t =>
    obtain ⟨r, x, -, -, rfl⟩ := step_cache_cases he
    have hd : ∀ d ∈ s.deletedAt, s.now ≤ d := by
      intro d hdd
      rcases hc d hdd with hle | hlive
      · exact hle
      · rw [h.not_deleted hlive] at hdd
        cases hdd
    apply ((h.cache hd (p.node t) r x).setPc t .idle).returned
    intro d hdd hlt
    have hle : s.now ≤ d := hd d hdd
    have hlt' : d < s.now := hlt
    omega
  | update t r =>
    simp only [step, Option.ite_none_right_eq_some] at he
    obtain ⟨x, hx, rfl⟩ := Option.map_eq_some_iff.mp he.2
    exact h.beginUpdate t hx
  | check t =>
    obtain ⟨r, x, -, rfl⟩ := step_check_cases he
    apply Inv.setPc
    split
    · exact h
    · exact h.uncache _
  | delete t =>
    simp only [step, Option.ite_none_right_eq_some, Option.some.injEq] at he
    exact he.2 ▸ (h.uncache _).setPc t _
  | del t =>
    simp only [step, Option.ite_none_right_eq_some, Option.some.injEq] at he
    exact he.2 ▸ h.deleted.setPc t _

/-! ### Revocation -/

/-- **Revocation.** In a run without late writes, once a delete has completed
the session is never in Redis again, and no node returns it later than the time
to live of its memory. -/
theorem revoked_of_careful {s₀ : State τ ν ρ K V} (h0 : Initial s₀)
    (h : Reach p.step (Careful p) s₀ s) : Revoked p s :=
  (h.invariant (inv_of_initial h0) fun _ _ _ hi hc he => inv_step hi hc he).toRevoked

/-- Two nodes with a thread each; a session is valid until it is stopped or
expired, and passes validation until its timeout after the last access. -/
def twoNodes : SpringShiroSessionDAO (Fin 2) (Fin 2) Bool ℕ where
  principals := true
  isValid x := x.stopTimestamp.isNone && !x.expired
  validate now x := x.stopTimestamp.isNone && !x.expired &&
    (decide (x.timeout < 0) || decide (now ≤ x.lastAccessTime + x.timeout))
  timeToLiveSeconds := 10
  node t := t

/-- The threads of the two nodes. -/
def node0 : Fin 2 := 0
def node1 : Fin 2 := 1

/-- A session of a logged-in user, saved half an hour before it runs out. -/
def loggedIn : State (Fin 2) (Fin 2) ℕ Bool ℕ where
  now := 0
  redis := Redis.setPx 0 1800000 ⟨⟨fun k => if k then some 7 else none, 0, 1800000, none, false⟩, false, none⟩
  heap _ _ := none
  sessions _ := none
  pc _ := .idle
  deletedAt := none
  returnedAt := none

theorem loggedIn_initial : Initial loggedIn :=
  ⟨fun _ => rfl, rfl, rfl, fun _ _ h => by cases h⟩

/-- Node 0 reads the session, node 1 deletes it, and node 0 serves it from its
memory for another ten seconds. -/
def logout : List (Event (Fin 2) (Fin 2) ℕ Bool ℕ) :=
  [.read 0, .get 0 0, .save 0, .cache 0, .delete 1, .del 1, .tick 10000, .read 0, .tick 1, .read 0,
    .get 0 1]

theorem revoked_logout :
    Revoked twoNodes ((runWith twoNodes.step (Careful twoNodes) loggedIn logout).get (by decide)) :=
  revoked_of_careful loggedIn_initial (reach_get logout (by decide))

/-- Node 0 reads the session and sets an attribute; node 1 deletes the session;
then node 0 updates it. -/
def revival : List (Event (Fin 2) (Fin 2) ℕ Bool ℕ) :=
  [.read 0, .get 0 0, .save 0, .cache 0, .use 0 0 (.setAttribute false 1), .delete 1, .del 1,
    .update 0 0, .save 0, .check 0]

def afterRevival : State (Fin 2) (Fin 2) ℕ Bool ℕ :=
  (runWith twoNodes.step (fun _ _ => True) loggedIn revival).get (by decide)

/-- In some run the session is back in Redis after its delete. -/
theorem revived : ¬ ∀ s₀ s : State (Fin 2) (Fin 2) ℕ Bool ℕ, Initial s₀ →
    Reach twoNodes.step (fun _ _ => True) s₀ s → Revoked twoNodes s := fun h => by
  have hr : Revoked twoNodes afterRevival :=
    h loggedIn _ loggedIn_initial (reach_get revival (by decide))
  have habs := hr.absent (by decide)
  have hlive : (Redis.get afterRevival.now afterRevival.redis).isSome = true := by decide
  rw [habs] at hlive
  cases hlive

end SpringShiroSessionDAO
end CloudManager
