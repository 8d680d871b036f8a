/-
# A lock attempt that fails

One call of `lock` among the commands of other clients. Beside the key runs the
key as the others' commands alone leave it (`others`); a call that returns false
or throws should end with both the same (`NoEffect`).

An attempt that has found an expired stamp writes before it knows whether it has
won: GETSET makes a key that has gone meanwhile, and takes the deadline off one
that has changed hands; the SET after it puts back a value that may be out of
date. `noEffect_of_careful` is the law for the runs in which GETSET finds the
stamp that was read, or a key without a deadline that nobody changes until it is
put back.
-/
import CloudManager.Framework.RedisLock

namespace CloudManager
namespace RedisLock

open Redis Runs

/-! ### The command a client sends -/

/-- The command that a client in a call sends next, if that is what it does. -/
def Client.command (cl : Client) : Option (Command Int) :=
  match cl.pc with
  | .setIfAbsent => some (.setnx cl.redisValue)
  | .get => some .get
  | .getAndSet _ newValue => some (.getset newValue)
  | .expire | .expireTaken => some (.expire cl.lockExpirseTimeout)
  | .restore currentRedisValue => some (.set currentRedisValue)
  | .delete => some .del
  | .idle | .test _ | .stamp _ | .sleep => none

/-- The key after the next command of a client. -/
def Client.effect (now : Int) (k : Key Int) (cl : Client) : Key Int :=
  cl.command.elim k (·.apply now k)

/-- A turn does to the key what its command does. -/
theorem turn_key {now : Int} {k : Key Int} {cl : Client} {r : Key Int × Client}
    (h : cl.turn now k = some r) : r.1 = cl.effect now k := by
  unfold Client.turn at h
  unfold Client.effect Client.command
  cases hp : cl.pc with
  | idle => simp [hp] at h
  | setIfAbsent =>
    simp only [hp] at h
    cases hl : live now k <;> simp [setnx, hl] at h <;> simp [Command.apply, setnx, hl, ← h]
  | get =>
    simp only [hp] at h
    split at h <;> cases h <;> rfl
  | test oldValue =>
    simp only [hp] at h
    split at h <;> cases h <;> rfl
  | getAndSet oldValue newValue =>
    simp only [hp, getset] at h
    cases hg : Redis.get now k with
    | none =>
      rw [hg] at h
      cases h
      rfl
    | some v =>
      rw [hg] at h
      dsimp only at h
      split at h <;> cases h <;> rfl
  | _ =>
    simp only [hp] at h
    cases h
    rfl

/-! ### One call among others' commands -/

/-- How a call ends. -/
inductive Ending
  | returned (b : Bool)
  | thrown
  deriving DecidableEq, Repr

/-- The call fails: it returns false, or throws. -/
def Ending.failed : Ending → Bool
  | .returned b => !b
  | .thrown => true

/-- A call of `lock`: the clock, the key as it is and as the others' commands alone
leave it, the client, and the ending once there is one. -/
structure Attempt where
  now : Int
  key : Key Int
  others : Key Int
  client : Client
  ending : Option Ending := none
  deriving DecidableEq, Repr

namespace Attempt

/-- What happens next: time passes, a command of another client is carried out, or
the call goes on, by its next step or by a command that throws, after it was carried
out (its answer is lost) or before. -/
inductive Ev
  | tick (d : ℕ)
  | other (command : Command Int)
  | run
  | throws (executed : Bool)
  deriving DecidableEq, Repr

/-- The ending of a call that has come to `cl` from the program counter `pc`: at
GETSET only the exception leaves the call. -/
def endingOf (pc : Pc) (cl : Client) : Option Ending :=
  if cl.pc = .idle then
    match pc with
    | .getAndSet _ _ => some .thrown
    | _ => some (.returned cl.isLock)
  else none

/-- `lock` is called on a key in any state. -/
def start (now : Int) (key : Key Int) (lockExpirseTimeout lockWaitTimeout : Int) : Attempt :=
  let cl := ({} : Client).lock now lockExpirseTimeout lockWaitTimeout
  { now := now, key := key, others := key, client := cl, ending := endingOf .sleep cl }

def step (s : Attempt) : Ev → Option Attempt
  | .tick d => some { s with now := s.now + d }
  | .other command => some { s with
      key := command.apply s.now s.key
      others := command.apply s.now s.others }
  | .run =>
    if s.ending.isSome then none
    else (s.client.turn s.now s.key).map fun r =>
      { s with key := r.1, client := r.2, ending := endingOf s.client.pc r.2 }
  | .throws executed =>
    if s.ending.isSome || s.client.command.isNone then none
    else some { s with
      key := if executed then s.client.effect s.now s.key else s.key
      client := { s.client with pc := .idle }
      ending := some .thrown }

/-- A call that has failed leaves the key as the others' commands alone leave it. -/
def NoEffect (s : Attempt) : Prop := ∀ e ∈ s.ending, e.failed = true → Same s.now s.key s.others

instance (s : Attempt) : Decidable s.NoEffect :=
  inferInstanceAs (Decidable (∀ e ∈ s.ending, e.failed = true → Same s.now s.key s.others))

/-- The stamp that a GETSET should find. -/
def expected : Pc → Option Int
  | .getAndSet oldValue _ => some oldValue
  | _ => none

/-- The value that was found instead is still to be put back. -/
def restoring : Pc → Bool
  | .restore _ => true
  | _ => false

/-- The call has won, and EXPIRE is still to come. -/
def won : Pc → Bool
  | .expire | .expireTaken => true
  | _ => false

/-- GETSET finds the stamp that GET returned, or a key without a deadline; what is put
back has not changed meanwhile; and no command throws after the call has written. -/
def Careful (s : Attempt) : Ev → Prop
  | .tick _ => True
  | .other command =>
    restoring s.client.pc = true → Same s.now (command.apply s.now s.others) s.others
  | .run => ∀ oldValue ∈ expected s.client.pc,
    get s.now s.key = some oldValue ∨ ∃ c ∈ live s.now s.key, c.deadline = none
  | .throws executed =>
    won s.client.pc = false ∧
      if restoring s.client.pc = true then executed = true
      else executed = true → Same s.now (s.client.effect s.now s.key) s.key

instance (s : Attempt) : ∀ e, Decidable (s.Careful e)
  | .tick _ => .isTrue trivial
  | .other _ => inferInstanceAs (Decidable (_ → _))
  | .run => inferInstanceAs (Decidable (∀ oldValue ∈ expected s.client.pc, _ ∨ _))
  | .throws _ => inferInstanceAs (Decidable (_ ∧ ite _ _ _))

/-! ### What a step keeps -/

/-- The key is as the others' commands leave it, but for the value that is still to
be put back; a call that has won need not undo anything, and none is in `unlock`. -/
def Undone (s : Attempt) : Prop :=
  match s.client.pc with
  | .restore currentRedisValue => Same s.now (set currentRedisValue) s.others
  | .expire => s.client.isLock = true
  | .expireTaken => True
  | .delete => False
  | _ => Same s.now s.key s.others

/-- A call in progress has nothing else to undo, and one that has failed nothing at
all. -/
structure Inv (s : Attempt) : Prop where
  running : s.ending = none → s.Undone
  failed : s.NoEffect

theorem NoEffect.of_same {s : Attempt} (h : Same s.now s.key s.others) : s.NoEffect :=
  fun _ _ _ => h

/-- Where the key has to be as the others' commands leave it. -/
def clean : Pc → Bool
  | .restore _ | .expire | .expireTaken | .delete => false
  | _ => true

theorem undone_of_same {s : Attempt} (hpc : clean s.client.pc = true)
    (h : Same s.now s.key s.others) : s.Undone := by
  unfold Undone
  cases hp : s.client.pc with
  | restore v => rw [hp] at hpc; cases hpc
  | expire => rw [hp] at hpc; cases hpc
  | expireTaken => trivial
  | delete => rw [hp] at hpc; cases hpc
  | _ => exact h

theorem Inv.of_same {s : Attempt} (hpc : clean s.client.pc = true)
    (h : Same s.now s.key s.others) : Inv s :=
  ⟨fun _ => undone_of_same hpc h, .of_same h⟩

/-- A call that returns true has not failed. -/
theorem Inv.of_true {s : Attempt} {cl : Client} {k : Key Int} {pc : Pc} (hidle : cl.pc = .idle)
    (hlock : cl.isLock = true) (hpc : expected pc = none) :
    Inv { s with key := k, client := cl, ending := endingOf pc cl } := by
  have hend : endingOf pc cl = some (.returned true) := by
    unfold endingOf
    rw [if_pos hidle, hlock]
    cases pc with
    | getAndSet oldValue newValue => cases hpc
    | _ => rfl
  rw [hend]
  refine ⟨nofun, ?_⟩
  rintro _ ⟨⟩ hf
  cases hf

theorem clean_loopHead (cl : Client) : clean cl.loopHead.pc = true := by
  unfold Client.loopHead
  split <;> rfl

theorem Inv.start (now : Int) (key : Key Int) (lockExpirseTimeout lockWaitTimeout : Int) :
    Inv (Attempt.start now key lockExpirseTimeout lockWaitTimeout) :=
  .of_same (clean_loopHead _) rfl

variable {s s' : Attempt}

theorem Inv.tick (h : Inv s) (d : ℕ) : Inv { s with now := s.now + d } := by
  have hle : s.now ≤ s.now + d := by omega
  refine ⟨fun he => ?_, fun e he hf => (h.failed e he hf).tick hle⟩
  have hu := h.running he
  unfold Undone at hu ⊢
  cases hp : s.client.pc with
  | expire => simpa only [hp] using hu
  | expireTaken => trivial
  | delete => simp only [hp] at hu
  | _ =>
    simp only [hp] at hu ⊢
    exact hu.tick hle

theorem Inv.other (h : Inv s) {command : Command Int} (hc : s.Careful (.other command)) :
    Inv { s with key := command.apply s.now s.key, others := command.apply s.now s.others } := by
  refine ⟨fun he => ?_, fun e he hf => (h.failed e he hf).apply command⟩
  have hu := h.running he
  unfold Undone at hu ⊢
  cases hp : s.client.pc with
  | expire => simpa only [hp] using hu
  | expireTaken => trivial
  | delete => simp only [hp] at hu
  | restore v =>
    have hsame : Same s.now (command.apply s.now s.others) s.others := hc (by rw [hp]; rfl)
    simp only [hp] at hu ⊢
    exact Eq.trans hu (Eq.symm hsame)
  | _ =>
    simp only [hp] at hu ⊢
    exact hu.apply command

/-- A command that throws. -/
theorem Inv.throws (h : Inv s) {executed : Bool} (hn : s.ending = none)
    (hc : s.Careful (.throws executed)) (ending : Ending) :
    Inv { s with key := if executed then s.client.effect s.now s.key else s.key
                 client := { s.client with pc := .idle }
                 ending := some ending } := by
  refine .of_same rfl ?_
  have hu := h.running hn
  obtain ⟨hwon, hx⟩ := hc
  unfold Undone at hu
  cases hp : s.client.pc with
  | expire => rw [hp] at hwon; cases hwon
  | expireTaken => rw [hp] at hwon; cases hwon
  | delete => simp only [hp] at hu
  | restore v =>
    simp only [hp, restoring, if_true] at hx hu
    simpa [hx, Client.effect, Client.command, hp, Command.apply] using hu
  | _ =>
    simp only [hp, restoring, Bool.false_eq_true, if_false] at hx hu
    by_cases he : executed = true
    · simp only [he, if_true]
      exact Eq.trans (hx he) hu
    · simpa [he] using hu

/-- The next step of the call. -/
theorem Inv.run (h : Inv s) (hn : s.ending = none) (hc : s.Careful .run) {r : Key Int × Client}
    (hr : s.client.turn s.now s.key = some r) :
    Inv { s with key := r.1, client := r.2, ending := endingOf s.client.pc r.2 } := by
  have hu := h.running hn
  unfold Undone at hu
  unfold Client.turn at hr
  cases hp : s.client.pc with
  | idle => simp [hp] at hr
  | delete => simp only [hp] at hu
  | setIfAbsent =>
    simp only [hp] at hr hu
    cases hg : get s.now s.key with
    | none =>
      rw [setnx_of_absent hg] at hr
      cases hr
      exact ⟨fun _ => rfl, nofun⟩
    | some v =>
      rw [setnx_of_get hg] at hr
      cases hr
      exact .of_same rfl hu
  | expire =>
    simp only [hp] at hr hu
    cases hr
    exact .of_true rfl hu rfl
  | expireTaken =>
    simp only [hp] at hr
    cases hr
    exact .of_true rfl rfl rfl
  | get =>
    simp only [hp] at hr hu
    split at hr <;> cases hr <;> exact .of_same rfl hu
  | test oldValue =>
    simp only [hp] at hr hu
    split at hr <;> cases hr <;> exact .of_same rfl hu
  | stamp oldValue =>
    simp only [hp] at hr hu
    cases hr
    exact .of_same rfl hu
  | getAndSet oldValue newValue =>
    simp only [hp, getset] at hr hu
    obtain hold | ⟨c, hlive, hd⟩ := hc oldValue (by rw [hp]; rfl)
    · rw [hold] at hr
      simp only [if_true] at hr
      cases hr
      exact ⟨fun _ => trivial, nofun⟩
    · have hget : get s.now s.key = some c.value := get_eq_some.mpr ⟨c, hlive, rfl⟩
      rw [hget] at hr
      dsimp only at hr
      split at hr
      · cases hr
        exact ⟨fun _ => trivial, nofun⟩
      · cases hr
        refine ⟨fun _ => ?_, nofun⟩
        -- the value found had no deadline, so SET brings the key back as it was
        have hcell : c = ⟨c.value, none⟩ := by rw [← hd]
        have hset : Same s.now (set c.value) s.key := by
          unfold Same
          rw [hlive, hcell]
          rfl
        exact Eq.trans hset hu
  | restore v =>
    simp only [hp] at hr hu
    cases hr
    exact .of_same rfl hu
  | sleep =>
    simp only [hp] at hr hu
    cases hr
    exact .of_same (clean_loopHead _) hu

theorem Inv.step {e : Ev} (h : Inv s) (hc : s.Careful e) (he : s.step e = some s') : Inv s' := by
  cases e with
  | tick d =>
    cases he
    exact h.tick d
  | other command =>
    cases he
    exact h.other hc
  | run =>
    simp only [Attempt.step] at he
    split at he
    · cases he
    · rename_i hn
      obtain ⟨r, hr, rfl⟩ := Option.map_eq_some_iff.mp he
      exact h.run (by simpa using hn) hc hr
  | throws executed =>
    simp only [Attempt.step] at he
    split at he
    · cases he
    · rename_i hn
      cases he
      have hnone : s.ending = none := by
        cases hs : s.ending with
        | none => rfl
        | some e => simp [hs] at hn
      exact h.throws hnone hc .thrown

/-- **A failed attempt has no effect** in every run in which GETSET finds the stamp
that was read, or a key without a deadline that stays as it is until it is put back,
and no command throws after the call has written: when the call has returned false or
thrown, the key is what the other clients' commands alone have made of it. -/
theorem noEffect_of_careful (now : Int) (key : Key Int) (lockExpirseTimeout lockWaitTimeout : Int)
    {s : Attempt}
    (h : Reach step Careful (start now key lockExpirseTimeout lockWaitTimeout) s) : s.NoEffect := by
  have hI : Inv s := h.invariant (Inv.start now key lockExpirseTimeout lockWaitTimeout)
    fun _ _ _ hi hc he => hi.step hc he
  exact hI.failed

/-! ### The calls of the clients -/

/-- A client of the system in a call, beside the key of the others' commands. -/
def ofState {ι : Type*} (s : State ι) (c : ι) (others : Key Int) : Attempt :=
  { now := s.now, key := s.key, others := others, client := s.clients c }

/-- Whatever step the system takes while a client is in a call is one of the call, or a
command of another client, or none of either. -/
theorem ofState_step {ι : Type*} [DecidableEq ι] {s s' : State ι} {e : RedisLock.Ev ι} {c : ι}
    (others : Key Int) (hcall : (s.clients c).pc ≠ .idle) (h : RedisLock.step s e = some s') :
    (∃ others', ofState s' c others' = ofState s c others) ∨
      ∃ ev a, (ofState s c others).step ev = some a ∧
        { a with ending := none } = ofState s' c a.others := by
  cases e with
  | tick d =>
    cases h
    exact .inr ⟨.tick d, _, rfl, rfl⟩
  | lock c' lockExpirseTimeout lockWaitTimeout =>
    simp only [RedisLock.step, Option.ite_none_right_eq_some, Option.some.injEq] at h
    obtain ⟨hidle, rfl⟩ := h
    have hne : c ≠ c' := fun he => hcall (he ▸ hidle)
    exact .inl ⟨others, by simp [ofState, State.setClient, Function.update_of_ne hne]⟩
  | unlock c' =>
    simp only [RedisLock.step, Option.ite_none_right_eq_some, Option.some.injEq] at h
    obtain ⟨hidle, rfl⟩ := h
    have hne : c ≠ c' := fun he => hcall (he ▸ hidle)
    exact .inl ⟨others, by simp [ofState, State.setClient, Function.update_of_ne hne]⟩
  | run c' =>
    obtain ⟨r, hr, rfl⟩ := Option.map_eq_some_iff.mp h
    by_cases he : c = c'
    · subst he
      refine .inr ⟨.run, { ofState s c others with
        key := r.1, client := r.2, ending := endingOf (s.clients c).pc r.2 }, ?_, ?_⟩
      · simp [step, ofState, hr]
      · simp [ofState, State.setClient]
    · have hkey := turn_key hr
      have hc : (s.setClient c' r.2).clients c = s.clients c := Function.update_of_ne he _ _
      cases hcmd : (s.clients c').command with
      | none =>
        have hsame : r.1 = s.key := by rw [hkey, Client.effect, hcmd]; rfl
        exact .inl ⟨others, by simp [ofState, State.setClient, Function.update_of_ne he, hsame]⟩
      | some command =>
        have heff : r.1 = command.apply s.now s.key := by rw [hkey, Client.effect, hcmd]; rfl
        refine .inr ⟨.other command, _, rfl, ?_⟩
        simp [ofState, State.setClient, Function.update_of_ne he, heff]

/-! ### Two runs -/

/-- The lock is held with a stamp that has passed and no deadline: client 1 takes the
lock over, and the call puts back what it finds. -/
def putBack : List Ev :=
  [.run, .run, .run, .run, .other (.getset 40000), .run, .run, .tick 150, .run]

theorem noEffect_putBack :
    ((runWith step Careful (start 10000 (some ⟨0, none⟩) 30000 100) putBack).get
      (by decide)).NoEffect :=
  noEffect_of_careful 10000 (some ⟨0, none⟩) 30000 100 (reach_get putBack (by decide))

/-- The lock is held with a stamp that has passed, and its holder releases it after the
call has read the stamp. GETSET makes the key anew, and null for the old value throws. -/
def released : List Ev := [.run, .run, .run, .run, .other .del, .run]

/-- Client 1 takes the lock over with a deadline, and the call takes it off. -/
def takenOver : List Ev :=
  [.run, .run, .run, .run, .other (.getset 40000), .other (.expire 30000), .run, .run, .tick 150,
    .run]

/-- A failed attempt makes a key that its holder has deleted, and takes the deadline off
one that another client has won. -/
theorem failed_attempt_writes :
    (¬ ∀ (now : Int) (key : Key Int) (lockExpirseTimeout lockWaitTimeout : Int) (s : Attempt),
      Reach step (fun _ _ => True) (start now key lockExpirseTimeout lockWaitTimeout) s →
        s.NoEffect) ∧
    ¬ ((runWith step (fun _ _ => True) (start 10000 (some ⟨0, none⟩) 30000 100) takenOver).get
      (by decide)).NoEffect := by
  refine ⟨fun h => ?_, by decide⟩
  have hfail := h 10000 (some ⟨0, none⟩) 30000 100 _ (reach_get released (by decide))
  revert hfail
  decide

end Attempt

end RedisLock
end CloudManager
