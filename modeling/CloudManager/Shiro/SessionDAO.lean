/-
# The session DAO: Redis, and a memory on every node

`SpringShiroSessionDAO` keeps a session in Redis for its timeout and, on each
node, in a memory that serves it for `timeToLiveSeconds`. What follows is the
life of one session id over any nodes and threads. A step is one access to
Redis or to a node's memory together with the code up to the next one; the
threads' steps interleave freely and time passes between any two.

A session read from Redis is a new object of the node's heap, and the memory
holds a reference, so the application and the memory share the object.
-/
import CloudManager.Lib.RedisKey
import CloudManager.Shiro.RedisSimpleSession

namespace CloudManager

/-- The settings of a `SpringShiroSessionDAO`: Shiro's part, how long a node's
memory serves a session, and the node a thread runs on. -/
structure SpringShiroSessionDAO (τ ν K V : Type*) extends Shiro K V where
  timeToLiveSeconds : Int
  node : τ → ν

namespace SpringShiroSessionDAO

variable {τ ν ρ K V : Type*}

/-- Where a thread stands in `doReadSession`, `update` or `delete`: the access
it makes next. -/
inductive Pc (ρ : Type*)
  | idle
  /-- `doReadSession`: the memory had nothing to serve; GET is next. -/
  | readGet
  /-- `doReadSession`: the access time is set; SET is next. -/
  | readSave (session : ρ)
  /-- `doReadSession`: saved; the put into the memory is next. -/
  | readCache (session : ρ)
  /-- `update`: `changed` is cleared; SET is next. -/
  | updateSave (session : ρ)
  /-- `update`: saved; the second check of the session is next. -/
  | updateCheck (session : ρ)
  /-- `delete`: out of the memory; DEL is next. -/
  | deleteRedis
  deriving DecidableEq, Repr

inductive Event (τ ν ρ K V : Type*)
  /-- Time passes. -/
  | tick (d : ℕ)
  /-- The application uses a session object it holds. -/
  | use (n : ν) (session : ρ) (u : RedisSimpleSession.Use K V)
  /-- `doReadSession` is called: the look into the memory. -/
  | read (t : τ)
  /-- GET; the session is decoded into the new object `session`. -/
  | get (t : τ) (session : ρ)
  /-- `saveSession`: SET. -/
  | save (t : τ)
  /-- `cache`: the put into the memory, after which `doReadSession` returns. -/
  | cache (t : τ)
  /-- `update` is called with an object of the thread's node. -/
  | update (t : τ) (session : ρ)
  /-- The check at the end of `update`, and `uncache` where it fails. -/
  | check (t : τ)
  /-- `delete` is called: `uncache`. -/
  | delete (t : τ)
  /-- DEL, after which `delete` has completed. -/
  | del (t : τ)
  deriving Repr

structure State (τ ν ρ K V : Type*) where
  now : Int
  redis : Redis.Key (RedisSimpleSession K V)
  /-- The session objects of each node. -/
  heap : ν → ρ → Option (RedisSimpleSession K V)
  /-- `DefaultMemorySessionDAO.sessions` at this id, on each node. -/
  sessions : ν → Option ρ
  pc : τ → Pc ρ
  /-- When the first `delete` completed. -/
  deletedAt : Option Int
  /-- When `doReadSession` last returned the session. -/
  returnedAt : Option Int

variable [DecidableEq τ] [DecidableEq ν] [DecidableEq ρ] [DecidableEq K]

namespace State

variable (s : State τ ν ρ K V)

def setPc (t : τ) (c : Pc ρ) : State τ ν ρ K V := { s with pc := Function.update s.pc t c }

/-- Make `x` the contents of the object `r` on node `n`. -/
def write (n : ν) (r : ρ) (x : RedisSimpleSession K V) : State τ ν ρ K V :=
  { s with heap := Function.update s.heap n (Function.update (s.heap n) r (some x)) }

/-- `doReadSession` returns the session. -/
def returned : State τ ν ρ K V := { s with returnedAt := some s.now }

/-- `uncache`. -/
def uncache (n : ν) : State τ ν ρ K V :=
  { s with sessions := Function.update s.sessions n none }

/-- `cache`: stamp the object and put it into the memory. -/
def cache (n : ν) (r : ρ) (x : RedisSimpleSession K V) : State τ ν ρ K V :=
  let s := s.write n r (x.setCreateTimestamp s.now)
  { s with sessions := Function.update s.sessions n (some r) }

/-- DEL, the end of `delete`. -/
def deleted : State τ ν ρ K V :=
  { s with redis := Redis.del, deletedAt := s.deletedAt.or (some s.now) }

/-- The key the SET of `saveSession` leaves; Redis refuses a time to live that
is not positive, and the call throws. -/
def saveSession (x : RedisSimpleSession K V) : Option (Redis.Key (RedisSimpleSession K V)) :=
  if 0 < x.timeout then some (Redis.setPx s.now x.timeout x) else none

end State

omit [DecidableEq τ] [DecidableEq K] in
theorem heap_write (s : State τ ν ρ K V) (n : ν) (r : ρ) (x : RedisSimpleSession K V) (m : ν)
    (q : ρ) : (s.write n r x).heap m q = if m = n ∧ q = r then some x else s.heap m q := by
  unfold State.write
  by_cases hm : m = n
  · subst hm
    by_cases hq : q = r
    · subst hq
      simp
    · simp [hq]
  · simp [hm]

/-- What the memory of a node gives (`cacheSession`). -/
inductive Cached (K V : Type*)
  | hit (x : RedisSimpleSession K V)
  | miss
  /-- `DateUtils.addSeconds` of a null date throws. -/
  | throws

variable (p : SpringShiroSessionDAO τ ν K V)

/-- `cacheSession`: nothing once the object's time in the memory has passed. -/
def cacheSession (s : State τ ν ρ K V) (n : ν) : Cached K V :=
  match (s.sessions n).bind (s.heap n) with
  | none => .miss
  | some x =>
    match x.createTimestamp with
    | none => .throws
    | some c => if c + p.timeToLiveSeconds * 1000 < s.now then .miss else .hit x

/-- The look into the memory: a session with principals is returned. -/
def readMemory (s : State τ ν ρ K V) (t : τ) : State τ ν ρ K V :=
  match p.cacheSession s (p.node t) with
  | .throws => s
  | .miss => s.setPc t .readGet
  | .hit x => if (x.getAttribute p.principals).isSome then s.returned else s.setPc t .readGet

/-- GET: null and a session without principals are returned as they are; any
other is validated and gets a new access time. -/
def readRedis (s : State τ ν ρ K V) (t : τ) (r : ρ) : State τ ν ρ K V :=
  match Redis.get s.now s.redis with
  | none => s.setPc t .idle
  | some x =>
    if (x.getAttribute p.principals).isSome then
      if p.validate s.now x.toSimpleSession then
        (s.write (p.node t) r (x.setLastAccessTime s.now)).setPc t (.readSave r)
      else s.setPc t .idle
    else ((s.write (p.node t) r x).setPc t .idle).returned

/-- SET of the object `r`, and on to `next`. -/
def save (s : State τ ν ρ K V) (t : τ) (r : ρ) (next : Pc ρ) : Option (State τ ν ρ K V) :=
  (s.heap (p.node t) r).map fun x =>
    match s.saveSession x with
    | some k => State.setPc { s with redis := k } t next
    | none => s.setPc t .idle

/-- `update` up to its SET: nothing for a session that is no longer valid or
has not changed. -/
def beginUpdate (s : State τ ν ρ K V) (t : τ) (r : ρ) (x : RedisSimpleSession K V) :
    State τ ν ρ K V :=
  if p.isValid x.toSimpleSession then
    if x.changed then (s.write (p.node t) r (x.setChanged false)).setPc t (.updateSave r) else s
  else s

def step (s : State τ ν ρ K V) : Event τ ν ρ K V → Option (State τ ν ρ K V)
  | .tick d => some { s with now := s.now + d }
  | .use n r u => (s.heap n r).map fun x => s.write n r (x.use s.now u)
  | .read t => if s.pc t = .idle then some (p.readMemory s t) else none
  | .get t r =>
    if s.pc t = .readGet ∧ (s.heap (p.node t) r).isNone then some (p.readRedis s t r) else none
  | .save t =>
    match s.pc t with
    | .readSave r => p.save s t r (.readCache r)
    | .updateSave r => p.save s t r (.updateCheck r)
    | _ => none
  | .cache t =>
    match s.pc t with
    | .readCache r =>
      (s.heap (p.node t) r).map fun x => ((s.cache (p.node t) r x).setPc t .idle).returned
    | _ => none
  | .update t r =>
    if s.pc t = .idle then (s.heap (p.node t) r).map (p.beginUpdate s t r) else none
  | .check t =>
    match s.pc t with
    | .updateCheck r => (s.heap (p.node t) r).map fun x =>
        (if p.isValid x.toSimpleSession then s else s.uncache (p.node t)).setPc t .idle
    | _ => none
  | .delete t =>
    if s.pc t = .idle then some ((s.uncache (p.node t)).setPc t .deleteRedis) else none
  | .del t =>
    if s.pc t = .deleteRedis then some (s.deleted.setPc t .idle) else none

/-! ### What the steps inside a call do -/

variable {p} {s s' : State τ ν ρ K V} {t : τ}

theorem step_save_cases (h : p.step s (.save t) = some s') :
    (∃ r, s.pc t = .readSave r ∧ p.save s t r (.readCache r) = some s') ∨
      ∃ r, s.pc t = .updateSave r ∧ p.save s t r (.updateCheck r) = some s' := by
  unfold step at h
  rcases hp : s.pc t with _ | _ | r | r | r | r | _ <;> simp only [hp] at h
  case readSave => exact .inl ⟨r, rfl, h⟩
  case updateSave => exact .inr ⟨r, rfl, h⟩
  all_goals cases h

theorem step_cache_cases (h : p.step s (.cache t) = some s') :
    ∃ r x, s.pc t = .readCache r ∧ s.heap (p.node t) r = some x ∧
      s' = ((s.cache (p.node t) r x).setPc t .idle).returned := by
  unfold step at h
  rcases hp : s.pc t with _ | _ | r | r | r | r | _ <;> simp only [hp] at h
  case readCache =>
    obtain ⟨x, hx, hs⟩ := Option.map_eq_some_iff.mp h
    exact ⟨r, x, rfl, hx, hs.symm⟩
  all_goals cases h

theorem step_check_cases (h : p.step s (.check t) = some s') :
    ∃ (r : ρ) (x : RedisSimpleSession K V), s.pc t = .updateCheck r ∧
      s' = (if p.isValid x.toSimpleSession then s else s.uncache (p.node t)).setPc t .idle := by
  unfold step at h
  rcases hp : s.pc t with _ | _ | r | r | r | r | _ <;> simp only [hp] at h
  case updateCheck =>
    obtain ⟨x, -, hs⟩ := Option.map_eq_some_iff.mp h
    exact ⟨r, x, rfl, hs.symm⟩
  all_goals cases h

end SpringShiroSessionDAO
end CloudManager
