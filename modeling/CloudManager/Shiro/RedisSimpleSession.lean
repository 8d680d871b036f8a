/-
# The session stored in Redis

`RedisSimpleSession` is Shiro's `SimpleSession` with two fields of its own:
`changed`, which every setter raises and `touch` clears, and the time at which
the object was put in a node's memory. Whether a session is valid, and whether
`validate` throws, is Shiro's to say: both are taken as parameters (`Shiro`).
-/
import Mathlib.Logic.Function.Basic
import Mathlib.Algebra.Order.Group.Int

namespace CloudManager

/-- The state of a `SimpleSession`, times in milliseconds. -/
structure SimpleSession (K V : Type*) where
  attributes : K → Option V
  lastAccessTime : Int
  timeout : Int
  stopTimestamp : Option Int
  expired : Bool

structure RedisSimpleSession (K V : Type*) extends SimpleSession K V where
  /-- A field other than `lastAccessTime` has changed. -/
  changed : Bool
  createTimestamp : Option Int

/-- What the session DAO uses of Shiro: the key of the principals attribute,
`isValid`, and whether `validate` passes at a time. -/
structure Shiro (K V : Type*) where
  principals : K
  isValid : SimpleSession K V → Bool
  validate : Int → SimpleSession K V → Bool

namespace RedisSimpleSession

variable {K V : Type*}

def getAttribute (s : RedisSimpleSession K V) (k : K) : Option V := s.attributes k

def setChanged (s : RedisSimpleSession K V) (b : Bool) : RedisSimpleSession K V :=
  { s with changed := b }

def setLastAccessTime (s : RedisSimpleSession K V) (now : Int) : RedisSimpleSession K V :=
  { s with lastAccessTime := now }

def setCreateTimestamp (s : RedisSimpleSession K V) (now : Int) : RedisSimpleSession K V :=
  { s with createTimestamp := some now }

def setTimeout (s : RedisSimpleSession K V) (timeout : Int) : RedisSimpleSession K V :=
  setChanged { s with timeout := timeout } true

def setExpired (s : RedisSimpleSession K V) (expired : Bool) : RedisSimpleSession K V :=
  setChanged { s with expired := expired } true

def setStopTimestamp (s : RedisSimpleSession K V) (t : Option Int) : RedisSimpleSession K V :=
  setChanged { s with stopTimestamp := t } true

/-- `touch` clears `changed` first: an access alone is not written to Redis. -/
def touch (s : RedisSimpleSession K V) (now : Int) : RedisSimpleSession K V :=
  { s.setChanged false with lastAccessTime := now }

/-- `stop`: the first stop's time stays. -/
def stop (s : RedisSimpleSession K V) (now : Int) : RedisSimpleSession K V :=
  setChanged { s with stopTimestamp := some (s.stopTimestamp.getD now) } true

def expire (s : RedisSimpleSession K V) (now : Int) : RedisSimpleSession K V :=
  (s.stop now).setExpired true

variable [DecidableEq K]

def setAttribute (s : RedisSimpleSession K V) (k : K) (v : V) : RedisSimpleSession K V :=
  setChanged { s with attributes := Function.update s.attributes k (some v) } true

def removeAttribute (s : RedisSimpleSession K V) (k : K) : RedisSimpleSession K V :=
  { s.setChanged true with attributes := Function.update s.attributes k none }

/-- What the application does to a session it holds. -/
inductive Use (K V : Type*)
  | setAttribute (k : K) (v : V)
  | removeAttribute (k : K)
  | setTimeout (timeout : Int)
  | setExpired (expired : Bool)
  | setStopTimestamp (t : Option Int)
  | touch
  | stop
  | expire
  deriving DecidableEq, Repr

def use (s : RedisSimpleSession K V) (now : Int) : Use K V → RedisSimpleSession K V
  | .setAttribute k v => s.setAttribute k v
  | .removeAttribute k => s.removeAttribute k
  | .setTimeout t => s.setTimeout t
  | .setExpired b => s.setExpired b
  | .setStopTimestamp t => s.setStopTimestamp t
  | .touch => s.touch now
  | .stop => s.stop now
  | .expire => s.expire now

/-- No use of a session touches the time it was put in memory. -/
@[simp] theorem use_createTimestamp (s : RedisSimpleSession K V) (now : Int) (u : Use K V) :
    (s.use now u).createTimestamp = s.createTimestamp := by
  cases u <;> rfl

/-- After a use the session is changed exactly when the use is not `touch`. -/
theorem use_changed (s : RedisSimpleSession K V) (now : Int) (u : Use K V) :
    (s.use now u).changed = true ↔ u ≠ .touch := by
  cases u <;> simp [use, setAttribute, removeAttribute, setTimeout, setExpired, setStopTimestamp,
    touch, stop, expire, setChanged]

end RedisSimpleSession
end CloudManager
