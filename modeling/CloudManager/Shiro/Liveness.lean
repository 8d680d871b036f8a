/-
# A session in use does not run out

Reads that come one after the other, each at one instant (`doReadSession`; it
is a run of the DAO's steps, `doReadSession_run`). A read that misses the
node's memory refreshes the key's time to live and the access time in Redis; a
read from a memory does not, but it comes at most `timeToLiveSeconds` after the
refresh that filled the memory. So if the reads follow each other within the
timeout less `timeToLiveSeconds`, every one of them finds the session
(`reads_served`). `Active` is the invariant, with the time of the last refresh.
-/
import CloudManager.Lib.Runs
import CloudManager.Shiro.Revocation


namespace CloudManager
namespace SpringShiroSessionDAO

open Runs

variable {τ ν ρ K V : Type*} [DecidableEq τ] [DecidableEq ν] [DecidableEq ρ] [DecidableEq K]

/-! ### A read at one instant -/

inductive ReadResult (K V : Type*)
  | session (x : RedisSimpleSession K V)
  | null
  | throws

section
variable (p : SpringShiroSessionDAO τ ν K V)

/-- `doReadSession` from the validation on: a new access time, `saveSession` and
`cache` for the object `r`. -/
def refresh (s : State τ ν ρ K V) (t : τ) (r : ρ) (x : RedisSimpleSession K V) :
    ReadResult K V × State τ ν ρ K V :=
  match s.saveSession x with
  | none => (.throws, s.write (p.node t) r x)
  | some k =>
    (.session (x.setCreateTimestamp s.now),
      (State.cache { s.write (p.node t) r x with redis := k } (p.node t) r x).returned)

/-- `doReadSession` where the memory has nothing to serve; a session decoded
from Redis becomes the object `r`. -/
def readThrough (s : State τ ν ρ K V) (t : τ) (r : ρ) : ReadResult K V × State τ ν ρ K V :=
  match Redis.get s.now s.redis with
  | none => (.null, s)
  | some x =>
    if (x.getAttribute p.principals).isSome then
      if p.validate s.now x.toSimpleSession then p.refresh s t r (x.setLastAccessTime s.now)
      else (.throws, s)
    else (.session x, (s.write (p.node t) r x).returned)

def doReadSession (s : State τ ν ρ K V) (t : τ) (r : ρ) : ReadResult K V × State τ ν ρ K V :=
  match p.cacheSession s (p.node t) with
  | .throws => (.throws, s)
  | .miss => p.readThrough s t r
  | .hit x =>
    if (x.getAttribute p.principals).isSome then (.session x, s.returned)
    else p.readThrough s t r

end

variable {p : SpringShiroSessionDAO τ ν K V} {s : State τ ν ρ K V} {t : τ} {r : ρ}

omit [DecidableEq ν] [DecidableEq ρ] [DecidableEq K] in
theorem setPc_idle (h : s.pc t = .idle) : s.setPc t .idle = s := by
  rw [State.setPc, ← h, Function.update_eq_self]

omit [DecidableEq ν] [DecidableEq ρ] [DecidableEq K] in
theorem setPc_setPc (s : State τ ν ρ K V) (c c' : Pc ρ) : (s.setPc t c).setPc t c' = s.setPc t c' := by
  simp only [State.setPc, Function.update_idem]

theorem step_readGet (hr : s.heap (p.node t) r = none) :
    p.step (s.setPc t .readGet) (.get t r) = some (p.readRedis (s.setPc t .readGet) t r) := by
  have hpc : (s.setPc t .readGet).pc t = .readGet := Function.update_self ..
  exact if_pos ⟨hpc, by rw [State.setPc, hr]; rfl⟩

theorem step_readSave {x : RedisSimpleSession K V} (hx : s.heap (p.node t) r = some x) :
    p.step (s.setPc t (.readSave r)) (.save t) = some (match s.saveSession x with
      | some k => State.setPc { s with redis := k } t (.readCache r)
      | none => s.setPc t .idle) := by
  have hpc : (s.setPc t (.readSave r)).pc t = .readSave r := Function.update_self ..
  have hsave : (s.setPc t (.readSave r)).saveSession x = s.saveSession x := rfl
  simp only [step, hpc, save]
  rw [show (s.setPc t (.readSave r)).heap = s.heap from rfl, hx, Option.map_some, hsave]
  cases s.saveSession x with
  | none => simp only [setPc_setPc]
  | some k => simp only [State.setPc, Function.update_idem]

theorem step_readCache {x : RedisSimpleSession K V} (hx : s.heap (p.node t) r = some x) :
    p.step (s.setPc t (.readCache r)) (.cache t) =
      some ((s.cache (p.node t) r x).setPc t .idle).returned := by
  have hpc : (s.setPc t (.readCache r)).pc t = .readCache r := Function.update_self ..
  simp only [step, hpc]
  rw [show (s.setPc t (.readCache r)).heap = s.heap from rfl, hx, Option.map_some]
  simp only [State.setPc, State.cache, State.write, Function.update_idem]

/-- From the SET on, for the object just decoded and validated. -/
theorem refresh_run (hi : s.pc t = .idle) (x : RedisSimpleSession K V) :
    ∃ es, (∀ e ∈ es, e ∈ [.save t, .cache t]) ∧
      runWith p.step (fun _ _ => True) ((s.write (p.node t) r x).setPc t (.readSave r)) es =
        some (p.refresh s t r x).2 := by
  have hqi : (s.write (p.node t) r x).pc t = .idle := hi
  have hqx : (s.write (p.node t) r x).heap (p.node t) r = some x := by simp [State.write]
  have hsave := step_readSave (p := p) hqx
  rw [show (s.write (p.node t) r x).saveSession x = s.saveSession x from rfl] at hsave
  unfold refresh
  rcases hk : s.saveSession x with _ | k <;> simp only [hk] at hsave
  · refine ⟨[.save t], by simp, ?_⟩
    simp [runWith, hsave, setPc_idle hqi]
  · refine ⟨[.save t, .cache t], by simp, ?_⟩
    have hcache := step_readCache (p := p) (s := { s.write (p.node t) r x with redis := k }) hqx
    rw [setPc_idle (s := State.cache { s.write (p.node t) r x with redis := k } _ r x) hqi] at hcache
    simp [runWith, hsave, hcache]

/-- From the GET on. -/
theorem readThrough_run (hi : s.pc t = .idle) (hr : s.heap (p.node t) r = none) :
    ∃ es, (∀ e ∈ es, e ∈ [.get t r, .save t, .cache t]) ∧
      runWith p.step (fun _ _ => True) (s.setPc t .readGet) es =
        some (p.readThrough s t r).2 := by
  have hget := step_readGet (p := p) hr
  unfold readRedis at hget
  rw [show Redis.get (s.setPc t .readGet).now (s.setPc t .readGet).redis =
    Redis.get s.now s.redis from rfl] at hget
  unfold readThrough
  rcases hg : Redis.get s.now s.redis with _ | x <;> simp only [hg] at hget
  · refine ⟨[.get t r], by simp, ?_⟩
    simp [runWith, hget, setPc_setPc, setPc_idle hi]
  by_cases hp : (x.getAttribute p.principals).isSome = true
  · by_cases hv : p.validate s.now x.toSimpleSession = true
    · have hread : p.step (s.setPc t .readGet) (.get t r) =
          some ((s.write (p.node t) r (x.setLastAccessTime s.now)).setPc t (.readSave r)) := by
        rw [hget, if_pos hp, if_pos (show p.validate (s.setPc t .readGet).now _ = true from hv)]
        exact congrArg some (setPc_setPc (s.write (p.node t) r _) _ _)
      obtain ⟨es, hes, hrun⟩ := refresh_run (p := p) (r := r) hi (x.setLastAccessTime s.now)
      refine ⟨.get t r :: es, ?_, by simp [runWith, hread, hrun, hp, hv]⟩
      exact List.forall_mem_cons.mpr ⟨List.mem_cons_self, fun e he => List.mem_cons_of_mem _ (hes e he)⟩
    · refine ⟨[.get t r], by simp, ?_⟩
      have hv' : p.validate (s.setPc t .readGet).now x.toSimpleSession = false :=
        Bool.eq_false_of_not_eq_true hv
      simp [runWith, hget, hp, hv, hv', setPc_setPc, setPc_idle hi]
  · refine ⟨[.get t r], by simp, ?_⟩
    have hw : (s.write (p.node t) r x).pc t = .idle := hi
    have hend : (((s.setPc t .readGet).write (p.node t) r x).setPc t .idle).returned =
        (s.write (p.node t) r x).returned := by
      conv_rhs => rw [← setPc_idle hw]
      exact congrArg State.returned (setPc_setPc (s.write (p.node t) r x) _ _)
    simp [runWith, hget, hp, hend]

/-- The read is a run of steps of its thread, with no time passing. -/
theorem doReadSession_run (hi : s.pc t = .idle) (hr : s.heap (p.node t) r = none) :
    ∃ es, (∀ e ∈ es, e ∈ [.read t, .get t r, .save t, .cache t]) ∧
      runWith p.step (fun _ _ => True) s es = some (p.doReadSession s t r).2 := by
  have hread : p.step s (.read t) = some (p.readMemory s t) := if_pos hi
  obtain ⟨es, hes, hrun⟩ := readThrough_run (p := p) hi hr
  have hes' : ∀ e ∈ (.read t : Event τ ν ρ K V) :: es, e ∈ [.read t, .get t r, .save t, .cache t] :=
    List.forall_mem_cons.mpr ⟨List.mem_cons_self, fun e he => List.mem_cons_of_mem _ (hes e he)⟩
  unfold doReadSession
  rcases hc : p.cacheSession s (p.node t) with x | _ | _
  · by_cases hx : (x.getAttribute p.principals).isSome = true
    · exact ⟨[.read t], by simp, by simp [runWith, hread, readMemory, hc, hx]⟩
    · exact ⟨.read t :: es, hes', by simp [runWith, hread, readMemory, hc, hx, hrun]⟩
  · exact ⟨.read t :: es, hes', by simp [runWith, hread, readMemory, hc, hrun]⟩
  · exact ⟨[.read t], by simp, by simp [runWith, hread, readMemory, hc]⟩

/-! ### Reads one after the other -/

/-- A read of the thread `t`, `gap` milliseconds after the one before. -/
structure Visit (τ ρ : Type*) where
  gap : ℕ
  thread : τ
  session : ρ

def State.after (s : State τ ν ρ K V) (gap : ℕ) : State τ ν ρ K V := { s with now := s.now + gap }

/-- The state after the read. -/
def visit (p : SpringShiroSessionDAO τ ν K V) (s : State τ ν ρ K V) (v : Visit τ ρ) :
    State τ ν ρ K V :=
  (p.doReadSession (s.after v.gap) v.thread v.session).2

/-- The read returns the session, with its principals. -/
def Served (p : SpringShiroSessionDAO τ ν K V) (s : State τ ν ρ K V) (v : Visit τ ρ) : Prop :=
  ∃ x, (p.doReadSession (s.after v.gap) v.thread v.session).1 = .session x ∧
    (x.getAttribute p.principals).isSome

/-- The session `x` was refreshed in Redis at `b`, and the memories were filled
by then; the last read came within the time to live after it. -/
structure Active (p : SpringShiroSessionDAO τ ν K V) (b : Int) (x : RedisSimpleSession K V)
    (s : State τ ν ρ K V) : Prop where
  redis : s.redis = Redis.setPx b x.timeout x
  access : x.lastAccessTime = b
  principals : (x.getAttribute p.principals).isSome
  running : x.stopTimestamp = none ∧ x.expired = false
  since : b ≤ s.now
  recent : s.now ≤ b + max (p.timeToLiveSeconds * 1000) 0
  memory : ∀ n r, s.sessions n = some r →
    ∃ y c, s.heap n r = some y ∧ y.createTimestamp = some c ∧ c ≤ b

/-- Shiro's `validate` passes a session that runs and was used within its timeout. -/
def PassesInTime (p : SpringShiroSessionDAO τ ν K V) : Prop :=
  ∀ (now : Int) (x : SimpleSession K V), x.stopTimestamp = none → x.expired = false →
    now ≤ x.lastAccessTime + x.timeout → p.validate now x = true

variable {b : Int} {x : RedisSimpleSession K V}

omit [DecidableEq τ] [DecidableEq K] in
/-- A read that goes to Redis in time finds the session and refreshes it. -/
theorem Active.readThrough (h : Active p b x s) (hv : PassesInTime p) (gap : ℕ) (hpos : 0 < x.timeout)
    (hin : s.now + gap ≤ b + x.timeout) :
    ∃ y b' x', (p.readThrough (s.after gap) t r).1 = .session y ∧
      (y.getAttribute p.principals).isSome ∧
      Active p b' x' (p.readThrough (s.after gap) t r).2 ∧ x'.timeout = x.timeout := by
  have hget : Redis.get (s.after gap).now (s.after gap).redis = some x := by
    show Redis.get (s.now + gap) s.redis = some x
    rw [h.redis]
    exact Redis.get_setPx x hin
  have hval : p.validate (s.after gap).now x.toSimpleSession = true :=
    hv _ _ h.running.1 h.running.2 (by rw [h.access]; exact hin)
  set y := x.setLastAccessTime (s.after gap).now with hy
  have hsave : (s.after gap).saveSession y =
      some (Redis.setPx (s.after gap).now x.timeout y) := if_pos hpos
  have hread : p.readThrough (s.after gap) t r = p.refresh (s.after gap) t r y := by
    simp only [SpringShiroSessionDAO.readThrough, hget, h.principals, hval, if_true, hy]
  rw [hread, refresh, hsave]
  refine ⟨y.setCreateTimestamp _, (s.after gap).now, y, rfl, h.principals, ?_, rfl⟩
  refine ⟨rfl, rfl, h.principals, h.running, le_rfl, ?_, fun n q hq => ?_⟩
  · show s.now + gap ≤ s.now + gap + _
    omega
  · -- the node of the read holds the object just stamped, the others what they held
    have hq' : Function.update s.sessions (p.node t) (some r) n = some q := hq
    have hheap : ∀ z, (State.cache { (s.after gap).write (p.node t) r y with redis := z }
        (p.node t) r y).heap n q = if n = p.node t ∧ q = r then
          some (y.setCreateTimestamp (s.after gap).now) else s.heap n q := by
      intro z
      show ((State.write _ _ _ _).heap n q) = _
      rw [heap_write]
      split
      · rfl
      · rename_i hne
        show ((s.after gap).write (p.node t) r y).heap n q = _
        rw [heap_write, if_neg hne]
        rfl
    by_cases hn : n = p.node t
    · subst hn
      rw [Function.update_self, Option.some.injEq] at hq'
      exact ⟨_, _, (hheap _).trans (if_pos ⟨rfl, hq'.symm⟩), rfl, le_rfl⟩
    · rw [Function.update_of_ne hn] at hq'
      obtain ⟨z, c, hz, hc, hcb⟩ := h.memory n q hq'
      have hb : b ≤ s.now + gap := by
        have := h.since
        omega
      exact ⟨z, c, (hheap _).trans ((if_neg fun hc => hn hc.1).trans hz), hc, hcb.trans hb⟩

omit [DecidableEq τ] [DecidableEq ν] [DecidableEq ρ] [DecidableEq K] in
/-- A memory never holds an object without the time it was put there. -/
theorem Active.cacheSession_ne_throws (h : Active p b x s) (gap : ℕ) (n : ν) :
    p.cacheSession (s.after gap) n ≠ .throws := by
  unfold cacheSession
  rcases hb : ((s.after gap).sessions n).bind ((s.after gap).heap n) with _ | y
  · simp
  · obtain ⟨q, hq, hy⟩ := Option.bind_eq_some_iff.mp hb
    obtain ⟨z, c, hz, hc, -⟩ := h.memory n q hq
    rw [show (s.after gap).heap n q = s.heap n q from rfl, hz] at hy
    cases hy
    simp only [hc]
    split <;> simp

omit [DecidableEq τ] [DecidableEq ν] [DecidableEq ρ] [DecidableEq K] in
/-- A read from a memory leaves Redis as it is, and comes within the time to
live after the last refresh. -/
theorem Active.hit (h : Active p b x s) {gap : ℕ} {n : ν} {y : RedisSimpleSession K V}
    (hy : p.cacheSession (s.after gap) n = .hit y) : Active p b x (s.after gap).returned := by
  refine ⟨h.redis, h.access, h.principals, h.running, ?_, ?_, h.memory⟩
  · have hb := h.since
    show b ≤ s.now + gap
    omega
  · obtain ⟨q, c, hq, hz, hc, hle⟩ := cacheSession_eq_hit hy
    obtain ⟨z, c', hz', hc', hcb⟩ := h.memory n q hq
    rw [show (s.after gap).heap n q = s.heap n q from rfl, hz'] at hz
    cases hz
    rw [hc', Option.some.injEq] at hc
    subst hc
    calc (s.after gap).now ≤ c' + p.timeToLiveSeconds * 1000 := hle
      _ ≤ b + p.timeToLiveSeconds * 1000 := Int.add_le_add_right hcb _
      _ ≤ b + max (p.timeToLiveSeconds * 1000) 0 := Int.add_le_add_left (le_max_left _ _) _

omit [DecidableEq τ] [DecidableEq K] in
/-- A read in time is served and leaves the session active. -/
theorem Active.visit (h : Active p b x s) (hv : PassesInTime p) {v : Visit τ ρ}
    (hgap : v.gap + max (p.timeToLiveSeconds * 1000) 0 < x.timeout) :
    Served p s v ∧ ∃ b' x', Active p b' x' (visit p s v) ∧ x'.timeout = x.timeout := by
  have hmax : 0 ≤ max (p.timeToLiveSeconds * 1000) 0 := le_max_right _ _
  have hin : s.now + v.gap ≤ b + x.timeout := by
    have := h.recent
    omega
  obtain ⟨y, b', x', hy, hp, hA, htl⟩ :=
    h.readThrough (t := v.thread) (r := v.session) hv v.gap (by omega) hin
  unfold Served SpringShiroSessionDAO.visit doReadSession
  rcases hc : p.cacheSession (s.after v.gap) (p.node v.thread) with z | _ | _
  · by_cases hz : (z.getAttribute p.principals).isSome = true
    · simp only [hz, if_true]
      exact ⟨⟨z, rfl, hz⟩, b, x, h.hit hc, rfl⟩
    · simp only [hz]
      exact ⟨⟨y, hy, hp⟩, b', x', hA, htl⟩
  · exact ⟨⟨y, hy, hp⟩, b', x', hA, htl⟩
  · exact (h.cacheSession_ne_throws v.gap _ hc).elim

/-- The session `x` has just been saved to Redis by a logged-in user's request,
and the memories hold what earlier puts left there. -/
structure JustSaved (p : SpringShiroSessionDAO τ ν K V) (x : RedisSimpleSession K V)
    (s : State τ ν ρ K V) : Prop where
  redis : s.redis = Redis.setPx s.now x.timeout x
  access : x.lastAccessTime = s.now
  principals : (x.getAttribute p.principals).isSome
  running : x.stopTimestamp = none ∧ x.expired = false
  memory : ∀ n r, s.sessions n = some r →
    ∃ y c, s.heap n r = some y ∧ y.createTimestamp = some c ∧ c ≤ s.now

omit [DecidableEq τ] [DecidableEq ν] [DecidableEq ρ] [DecidableEq K] in
theorem JustSaved.active (h : JustSaved p x s) : Active p s.now x s :=
  ⟨h.redis, h.access, h.principals, h.running, le_rfl, by omega, h.memory⟩

omit [DecidableEq τ] [DecidableEq K] in
/-- **A session in use does not run out**: while the reads, on any nodes, follow
the save and each other within the timeout less the time to live of the
memories, every one of them returns the session. -/
theorem reads_served (p : SpringShiroSessionDAO τ ν K V) (hv : PassesInTime p)
    {x : RedisSimpleSession K V} {s : State τ ν ρ K V} (h : JustSaved p x s)
    (vs : List (Visit τ ρ))
    (hgap : ∀ v ∈ vs, v.gap + max (p.timeToLiveSeconds * 1000) 0 < x.timeout) :
    Along (visit p) (Served p) s vs := by
  have hrun : ∀ (vs : List (Visit τ ρ)) (b : Int) (y : RedisSimpleSession K V)
      (s : State τ ν ρ K V), Active p b y s → y.timeout = x.timeout →
        (∀ v ∈ vs, v.gap + max (p.timeToLiveSeconds * 1000) 0 < x.timeout) →
          Along (visit p) (Served p) s vs := by
    intro vs
    induction vs with
    | nil => exact fun _ _ _ _ _ _ => trivial
    | cons v vs ih =>
      intro b y s hA htl hgap
      obtain ⟨hs, b', x', hA', htl'⟩ := hA.visit hv (htl ▸ hgap v List.mem_cons_self)
      exact ⟨hs, ih b' x' _ hA' (htl'.trans htl) fun w hw => hgap w (List.mem_cons_of_mem v hw)⟩
  exact hrun vs s.now x s h.active rfl hgap

/-- Reads of both nodes, twenty-nine minutes apart at most. -/
def visits : List (Visit (Fin 2) ℕ) :=
  [⟨1740000, node0, 0⟩, ⟨9000, node0, 1⟩, ⟨1740000, node1, 0⟩, ⟨1789999, node0, 1⟩]

theorem twoNodes_passes : PassesInTime twoNodes := by
  intro now x hs he hle
  simp [twoNodes, hs, he, hle]

theorem loggedIn_justSaved : JustSaved twoNodes
    ⟨⟨fun k => if k then some 7 else none, 0, 1800000, none, false⟩, false, none⟩ loggedIn :=
  ⟨rfl, rfl, rfl, ⟨rfl, rfl⟩, fun _ _ h => by cases h⟩

theorem visits_served : Along (visit twoNodes) (Served twoNodes) loggedIn visits :=
  reads_served twoNodes twoNodes_passes loggedIn_justSaved visits (by decide)

end SpringShiroSessionDAO
end CloudManager
