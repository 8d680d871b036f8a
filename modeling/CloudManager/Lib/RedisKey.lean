/-
# One Redis key: its value, its deadline and the atomic commands on it

Each command is a function of the server's clock, in milliseconds. A key
whose deadline has passed is absent to every command (`live`). GETSET and
SET drop the deadline a key had, EXPIRE sets it anew on a key that is there,
and a time to live that is not positive deletes the key.

`Lasts now k P t` says that the key is there with a value of `P` and does not
run out before `t`; the lemmas below give what each command leaves of this.
`Same now k k'` says that no command can tell the keys apart any more.
-/
import Mathlib.Data.Option.Basic
import Mathlib.Algebra.Order.Group.Int

namespace CloudManager
namespace Redis

/-- A stored value and its deadline (`none`: the key does not expire). -/
structure Cell (V : Type*) where
  value : V
  deadline : Option Int
  deriving DecidableEq, Repr

/-- A key, absent or holding a cell. -/
abbrev Key (V : Type*) := Option (Cell V)

variable {V : Type*}

/-- The cell still counts at `now`. -/
def Cell.aliveAt (c : Cell V) (now : Int) : Bool := c.deadline.all (now ≤ ·)

/-- The key as a command at `now` sees it. -/
def live (now : Int) (k : Key V) : Key V := k.filter (·.aliveAt now)

/-- SETNX: whether the key was set, and the key afterwards. -/
def setnx (now : Int) (v : V) (k : Key V) : Bool × Key V :=
  match live now k with
  | some c => (false, some c)
  | none => (true, some ⟨v, none⟩)

/-- GET. -/
def get (now : Int) (k : Key V) : Option V := (live now k).map (·.value)

/-- GETSET: the old value, and the key afterwards, without a deadline. -/
def getset (now : Int) (v : V) (k : Key V) : Option V × Key V := (get now k, some ⟨v, none⟩)

/-- SET. -/
def set (v : V) : Key V := some ⟨v, none⟩

/-- SET with a time to live in milliseconds (PSETEX). -/
def setPx (now ttl : Int) (v : V) : Key V := some ⟨v, some (now + ttl)⟩

/-- EXPIRE in milliseconds (PEXPIRE). -/
def expire (now ttl : Int) (k : Key V) : Key V :=
  if ttl ≤ 0 then none
  else (live now k).map fun c => { c with deadline := some (now + ttl) }

/-- DEL. -/
def del : Key V := none

/-! ### What a command sees -/

theorem live_eq_some {now : Int} {k : Key V} {c : Cell V} :
    live now k = some c ↔ k = some c ∧ ∀ d ∈ c.deadline, now ≤ d := by
  have h : c.aliveAt now = true ↔ ∀ d ∈ c.deadline, now ≤ d := by
    cases hd : c.deadline <;> simp [Cell.aliveAt, hd]
  rw [live, Option.filter_eq_some_iff, h]

/-- A key that is gone stays gone. -/
theorem live_none_mono {now t : Int} {k : Key V} (h : live now k = none) (ht : now ≤ t) :
    live t k = none := by
  cases hc : live t k with
  | none => rfl
  | some c =>
    obtain ⟨hk, hd⟩ := live_eq_some.mp hc
    have : live now k = some c := live_eq_some.mpr ⟨hk, fun d hdd => ht.trans (hd d hdd)⟩
    rw [h] at this
    cases this

theorem get_eq_some {now : Int} {k : Key V} {v : V} :
    get now k = some v ↔ ∃ c, live now k = some c ∧ c.value = v := by
  simp [get]

theorem get_eq_none {now : Int} {k : Key V} : get now k = none ↔ live now k = none := by
  simp [get]

/-- A value set with a time to live is there until that has passed. -/
theorem get_setPx {now t ttl : Int} (v : V) (h : t ≤ now + ttl) :
    get t (setPx now ttl v) = some v :=
  get_eq_some.mpr ⟨⟨v, some (now + ttl)⟩, live_eq_some.mpr ⟨rfl, by simpa using h⟩, rfl⟩

/-! ### How long a key lasts -/

/-- At `now` the key is there with a value of `P`, and it does not run out
before `t`. -/
def Lasts (now : Int) (k : Key V) (P : V → Prop) (t : Int) : Prop :=
  ∃ c, live now k = some c ∧ P c.value ∧ ∀ d ∈ c.deadline, t ≤ d

variable {now t : Int} {k : Key V} {P : V → Prop}

theorem Lasts.get (h : Lasts now k P t) : ∃ v, get now k = some v ∧ P v := by
  obtain ⟨c, hc, hp, -⟩ := h
  exact ⟨c.value, get_eq_some.mpr ⟨c, hc, rfl⟩, hp⟩

/-- Time may pass up to `t`. -/
theorem Lasts.tick {now' : Int} (h : Lasts now k P t) (ht : now' ≤ t) : Lasts now' k P t := by
  obtain ⟨c, hc, hp, hd⟩ := h
  obtain ⟨hk, -⟩ := live_eq_some.mp hc
  exact ⟨c, live_eq_some.mpr ⟨hk, fun d hdd => ht.trans (hd d hdd)⟩, hp, hd⟩

/-- A value just set stays until it is overwritten. -/
theorem lasts_set {v : V} (now t : Int) (hv : P v) : Lasts now (set v) P t :=
  ⟨⟨v, none⟩, rfl, hv, by simp⟩

/-- SETNX leaves a key that is there as it is. -/
theorem setnx_of_get {v w : V} (h : Redis.get now k = some w) : setnx now v k = (false, k) := by
  obtain ⟨c, hc, -⟩ := get_eq_some.mp h
  rw [setnx, hc, (live_eq_some.mp hc).1]

/-- SETNX sets a key that is not there. -/
theorem setnx_of_absent {v : V} (h : Redis.get now k = none) : setnx now v k = (true, set v) := by
  rw [setnx, get_eq_none.mp h]
  rfl

/-- EXPIRE keeps a key to `t` if the new deadline is not before it. -/
theorem Lasts.expire {ttl : Int} (h : Lasts now k P t) (hnow : now < t) (ht : t ≤ now + ttl) :
    Lasts now (expire now ttl k) P t := by
  obtain ⟨c, hc, hp, -⟩ := h
  have hpos : ¬ ttl ≤ 0 := by omega
  refine ⟨{ c with deadline := some (now + ttl) }, ?_, hp, by simpa using ht⟩
  rw [Redis.expire, if_neg hpos, hc]
  exact live_eq_some.mpr ⟨rfl, by simp; omega⟩

/-! ### Keys that are the same to every command -/

/-- A command and its arguments. -/
inductive Command (V : Type*)
  | setnx (v : V)
  | get
  | getset (v : V)
  | set (v : V)
  | expire (ttl : Int)
  | del
  deriving DecidableEq, Repr

/-- The key after a command. -/
def Command.apply (now : Int) (k : Key V) : Command V → Key V
  | .setnx v => (Redis.setnx now v k).2
  | .get => k
  | .getset v => (Redis.getset now v k).2
  | .set v => Redis.set v
  | .expire ttl => Redis.expire now ttl k
  | .del => Redis.del

/-- From `now` on the keys are the same: both gone, or there with the same value
and the same deadline. -/
def Same (now : Int) (k k' : Key V) : Prop := live now k = live now k'

instance [DecidableEq V] (now : Int) (k k' : Key V) : Decidable (Same now k k') :=
  inferInstanceAs (Decidable (_ = _))

theorem live_live (h : now ≤ t) : live t (live now k) = live t k := by
  cases hl : live now k with
  | none => exact (live_none_mono hl h).symm
  | some c => rw [(live_eq_some.mp hl).1]

variable {k' : Key V}

theorem Same.tick (h : Same now k k') (ht : now ≤ t) : Same t k k' := by
  unfold Same at h ⊢
  rw [← live_live ht, h, live_live ht]

/-- A command keeps them the same. -/
theorem Same.apply (h : Same now k k') (c : Command V) :
    Same now (c.apply now k) (c.apply now k') := by
  unfold Same at h
  cases c with
  | setnx v => simp only [Command.apply, setnx, h, Same]
  | get => exact h
  | getset v => rfl
  | set v => rfl
  | expire ttl => simp only [Command.apply, Redis.expire, h, Same]
  | del => rfl

end Redis
end CloudManager
