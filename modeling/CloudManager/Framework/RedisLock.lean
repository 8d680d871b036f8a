/-
# The Redis lock: clients, commands and interleavings

`RedisLock.lock` and `RedisLock.unlock` of any number of clients on one lock
key. A client is one `Lock` object and the thread that uses it; its program
counter `Pc` names the Redis command it sends next, or the clock it reads
next, so that a step of the system is one command, one clock reading or the
passing of time, and every interleaving is a run (`step`).

The value of the key is an expiry stamp, `currentTimeMillis() + timeout`. The
source stores its decimal form and reads it back with `Long.parseLong`; here
it is the number. The lock key is written by `RedisLock` only, so the value
read is never the empty string.

`leaseEnd` is no variable of the source: it is the end of the lease that
began with the last SETNX or GETSET by which a `lock` call of the client
succeeded.
-/
import CloudManager.Lib.Runs
import CloudManager.Lib.RedisKey

namespace CloudManager
namespace RedisLock

open Redis

/-- `Lock.DEFAULT_LOOP_WAIT_TIME`. -/
def defaultLoopWaitTime : Int := 150

/-- Where a client is: what it does next. -/
inductive Pc
  /-- outside `lock` and `unlock` -/
  | idle
  /-- at the head of the loop body, before SETNX -/
  | setIfAbsent
  /-- SETNX set the key, before EXPIRE -/
  | expire
  /-- SETNX found the key, before GET -/
  | get
  /-- GET returned `oldValue`, before it is compared with the clock -/
  | test (oldValue : Int)
  /-- `oldValue` has passed, before the clock is read for the new stamp -/
  | stamp (oldValue : Int)
  /-- before GETSET -/
  | getAndSet (oldValue newValue : Int)
  /-- GETSET returned `oldValue`, before EXPIRE -/
  | expireTaken
  /-- GETSET returned another value, before that is written back -/
  | restore (currentRedisValue : Int)
  /-- this attempt failed: in `Thread.sleep` -/
  | sleep
  /-- in `unlock`, before DEL -/
  | delete
  deriving DecidableEq, Repr

/-- A client: the flag of its `Lock` object and the variables of its call. -/
structure Client where
  pc : Pc := .idle
  isLock : Bool := false
  lockExpirseTimeout : Int := 0
  lockWaitMillSeconds : Int := 0
  redisValue : Int := 0
  leaseEnd : Int := 0
  deriving DecidableEq, Repr

namespace Client

/-- The test of the `while` loop, and what follows the loop. -/
def loopHead (cl : Client) : Client :=
  if 0 < cl.lockWaitMillSeconds then { cl with pc := .setIfAbsent }
  else { cl with pc := .idle, isLock := false }

/-- `lock` is called: the stamp for SETNX is computed once, before the loop. -/
def lock (cl : Client) (now lockExpirseTimeout lockWaitTimeout : Int) : Client :=
  loopHead { cl with
    lockExpirseTimeout := lockExpirseTimeout
    lockWaitMillSeconds := lockWaitTimeout
    redisValue := now + lockExpirseTimeout }

/-- `unlock` is called. -/
def unlock (cl : Client) : Client :=
  if cl.isLock then { cl with pc := .delete } else cl

/-- The next command of a call in progress, on the key `k` at `now`. -/
def turn (now : Int) (k : Key Int) (cl : Client) : Option (Key Int × Client) :=
  match cl.pc with
  | .idle => none
  | .setIfAbsent =>
    match setnx now cl.redisValue k with
    | (true, k') => some (k', { cl with
        pc := .expire, isLock := true, leaseEnd := now + cl.lockExpirseTimeout })
    | (false, k') => some (k', { cl with pc := .get, isLock := false })
  | .expire => some (expire now cl.lockExpirseTimeout k, { cl with pc := .idle })
  | .get =>
    match get now k with
    | some oldValue => some (k, { cl with pc := .test oldValue })
    | none => some (k, { cl with pc := .sleep })
  | .test oldValue =>
    if oldValue < now then some (k, { cl with pc := .stamp oldValue })
    else some (k, { cl with pc := .sleep })
  | .stamp oldValue =>
    some (k, { cl with pc := .getAndSet oldValue (cl.lockExpirseTimeout + now) })
  | .getAndSet oldValue newValue =>
    match getset now newValue k with
    | (some currentRedisValue, k') =>
      if currentRedisValue = oldValue then
        some (k', { cl with pc := .expireTaken, leaseEnd := now + cl.lockExpirseTimeout })
      else some (k', { cl with pc := .restore currentRedisValue })
    -- `currentRedisValue.equals` on null: the exception leaves `lock`
    | (none, k') => some (k', { cl with pc := .idle })
  | .expireTaken =>
    some (expire now cl.lockExpirseTimeout k, { cl with pc := .idle, isLock := true })
  | .restore currentRedisValue => some (set currentRedisValue, { cl with pc := .sleep })
  -- an interrupt may end the sleep at any time, it is only logged
  | .sleep =>
    some (k, loopHead { cl with lockWaitMillSeconds := cl.lockWaitMillSeconds - defaultLoopWaitTime })
  | .delete => some (del, { cl with pc := .idle, isLock := false })

/-- The client holds the lock within its lease. -/
def holds (cl : Client) (now : Int) : Prop := cl.isLock = true ∧ now < cl.leaseEnd

instance (cl : Client) (now : Int) : Decidable (cl.holds now) := inferInstanceAs (Decidable (_ ∧ _))

/-- A lease of the client is in force: it holds the lock, or its GETSET has
won it and EXPIRE is still to come. -/
def inLease (cl : Client) (now : Int) : Prop :=
  (cl.isLock = true ∨ cl.pc = .expireTaken) ∧ now < cl.leaseEnd

instance (cl : Client) (now : Int) : Decidable (cl.inLease now) :=
  inferInstanceAs (Decidable ((_ ∨ _) ∧ _))

theorem holds.inLease {cl : Client} {now : Int} (h : cl.holds now) : cl.inLease now :=
  ⟨.inl h.1, h.2⟩

end Client

/-! ### The system -/

/-- One common clock, the lock key, and the clients. -/
structure State (ι : Type*) where
  now : Int
  key : Key Int
  clients : ι → Client

/-- What can happen next. -/
inductive Ev (ι : Type*)
  /-- time passes -/
  | tick (d : ℕ)
  /-- a client calls `lock` with these timeouts -/
  | lock (c : ι) (lockExpirseTimeout lockWaitTimeout : Int)
  /-- a client calls `unlock` -/
  | unlock (c : ι)
  /-- a client in a call does its next command -/
  | run (c : ι)

variable {ι : Type*}

/-- The client `c` becomes `cl`. -/
def State.setClient [DecidableEq ι] (s : State ι) (c : ι) (cl : Client) : State ι :=
  { s with clients := Function.update s.clients c cl }

/-- A step of the system. -/
def step [DecidableEq ι] (s : State ι) : Ev ι → Option (State ι)
  | .tick d => some { s with now := s.now + d }
  | .lock c lockExpirseTimeout lockWaitTimeout =>
    if (s.clients c).pc = .idle then
      some (s.setClient c ((s.clients c).lock s.now lockExpirseTimeout lockWaitTimeout))
    else none
  | .unlock c =>
    if (s.clients c).pc = .idle then some (s.setClient c (s.clients c).unlock) else none
  | .run c =>
    ((s.clients c).turn s.now s.key).map fun r => { s.setClient c r.2 with key := r.1 }

/-- No call is in progress and nobody holds the lock; the key may hold
anything that an earlier run left in it. -/
def Initial (s : State ι) : Prop := ∀ c, (s.clients c).pc = .idle ∧ (s.clients c).isLock = false

/-- No two clients hold the lock within their leases. -/
def MutualExclusion (s : State ι) : Prop :=
  ∀ c c', c ≠ c' → ¬ ((s.clients c).holds s.now ∧ (s.clients c').holds s.now)

/-- If DEL is what `c` does next and the key is there, no other client holds
the lock within its lease. -/
def UnlockSafe (s : State ι) (c : ι) : Prop :=
  (s.clients c).pc = .delete → get s.now s.key ≠ none → ∀ c', c' ≠ c → ¬ (s.clients c').holds s.now

end RedisLock
end CloudManager
