/-
# The Redis lock excludes, as long as no command undercuts a lease

The lock is safe because the key outlives every lease: while a client is in
its lease, the key is there, its stamp is at most one millisecond short of
the end of the lease (a rival needs `stamp < now`) and its deadline is not
before it (`Covers`). A rival then fails both SETNX and the test of the stamp.

Not every command of the source keeps this. SETNX writes a stamp computed
before the wait loop, GETSET one that may be older than the command; a GETSET
that loses overwrites the stamp of the winner, and the SET after it writes
back a stamp that may be out of date; EXPIRE after a pause shortens the key of
another client, and DEL after the lease removes it. `Careful` says, command
by command, that this does not happen; runs of careful steps keep `Inv`
(`inv_of_reach`), which gives mutual exclusion and a safe unlock. Without it
both fail, `overlap_reachable` and `stolen_unlock_reachable`.
-/
import Mathlib.Data.Fintype.Basic
import CloudManager.Framework.RedisLock

namespace CloudManager
namespace RedisLock

open Redis Runs

variable {ι : Type*}

/-! ### Steps that undercut no lease -/

/-- No lease in force ends after `t`. -/
def NoLeaseBeyond (s : State ι) (t : Int) : Prop :=
  ∀ c, (s.clients c).inLease s.now → (s.clients c).leaseEnd ≤ t

instance [Fintype ι] (s : State ι) (t : Int) : Decidable (NoLeaseBeyond s t) :=
  inferInstanceAs (Decidable (∀ _, _ → _))

/-- What the next command of the client `cl` must meet in order not to
undercut a lease. -/
def CarefulAt (s : State ι) (cl : Client) : Pc → Prop
  -- the stamp SETNX sets is at most a millisecond older than the command
  | .setIfAbsent => get s.now s.key = none → s.now + cl.lockExpirseTimeout ≤ cl.redisValue + 1
  -- so is the stamp of a GETSET that wins; one that loses ends no lease early
  | .getAndSet oldValue newValue => ∀ v ∈ get s.now s.key,
      if v = oldValue then s.now + cl.lockExpirseTimeout ≤ newValue + 1
      else NoLeaseBeyond s (newValue + 1)
  | .restore currentRedisValue => NoLeaseBeyond s (currentRedisValue + 1)
  | .expire | .expireTaken => NoLeaseBeyond s (s.now + cl.lockExpirseTimeout)
  -- DEL within the own lease, or on a key that is gone or has run out
  | .delete => s.now < cl.leaseEnd ∨ ∀ v ∈ get s.now s.key, v < s.now
  | .idle | .get | .test _ | .stamp _ | .sleep => True

instance [Fintype ι] (s : State ι) (cl : Client) : ∀ pc, Decidable (CarefulAt s cl pc)
  | .setIfAbsent => inferInstanceAs (Decidable (_ → _))
  | .getAndSet _ _ => inferInstanceAs (Decidable (∀ v ∈ get s.now s.key, ite _ _ _))
  | .restore _ | .expire | .expireTaken => inferInstanceAs (Decidable (NoLeaseBeyond s _))
  | .delete => inferInstanceAs (Decidable (_ ∨ ∀ v ∈ get s.now s.key, v < s.now))
  | .idle | .get | .test _ | .stamp _ | .sleep => .isTrue trivial

/-- The steps that undercut no lease. -/
def Careful (s : State ι) : Ev ι → Prop
  | .run c => CarefulAt s (s.clients c) (s.clients c).pc
  | .tick _ | .lock _ _ _ | .unlock _ => True

instance [Fintype ι] (s : State ι) : ∀ e, Decidable (Careful s e)
  | .run c => inferInstanceAs (Decidable (CarefulAt s (s.clients c) _))
  | .tick _ | .lock _ _ _ | .unlock _ => .isTrue trivial

/-! ### The invariant -/

/-- The key stands for a lease until `t`: it is there, it does not run out
before `t`, and its stamp does not pass before `t` either. -/
def Covers (now : Int) (k : Key Int) (t : Int) : Prop := Lasts now k (fun v => t ≤ v + 1) t

/-- What a client knows between two commands. -/
def Client.Knows (now : Int) (cl : Client) : Prop :=
  match cl.pc with
  | .expire => cl.isLock = true ∧ cl.leaseEnd ≤ now + cl.lockExpirseTimeout
  | .expireTaken => cl.leaseEnd ≤ now + cl.lockExpirseTimeout
  | .stamp oldValue => oldValue < now
  | .getAndSet oldValue _ => oldValue < now
  | .delete => cl.isLock = true
  | _ => True

/-- The key covers every lease in force, and there is at most one. -/
structure Inv (s : State ι) : Prop where
  covered : ∀ c, (s.clients c).inLease s.now → Covers s.now s.key (s.clients c).leaseEnd
  alone : ∀ c c', (s.clients c).inLease s.now → (s.clients c').inLease s.now → c = c'
  knows : ∀ c, (s.clients c).Knows s.now

theorem inv_of_initial {s : State ι} (h : Initial s) : Inv s := by
  have hno : ∀ c, ¬ (s.clients c).inLease s.now := fun c hc => by
    rcases hc.1 with hl | hp
    · rw [(h c).2] at hl; cases hl
    · rw [(h c).1] at hp; cases hp
  refine ⟨fun c hc => (hno c hc).elim, fun c _ hc => (hno c hc).elim, fun c => ?_⟩
  simp [Client.Knows, (h c).1]

/-- A rival that reads the key of a lease in force reads a stamp that has
not passed. -/
theorem Covers.stamp {now t : Int} {k : Key Int} (h : Covers now k t) (ht : now < t) :
    ∃ v, get now k = some v ∧ now ≤ v := by
  obtain ⟨v, hv, hp⟩ := h.get
  exact ⟨v, hv, by omega⟩

/-- Where the key is gone, no lease is in force. -/
theorem Inv.no_lease_of_absent {s : State ι} (hi : Inv s) (h : get s.now s.key = none) (c : ι) :
    ¬ (s.clients c).inLease s.now := fun hc => by
  obtain ⟨v, hv, -⟩ := (hi.covered c hc).stamp hc.2
  rw [h] at hv
  cases hv

/-- Where the stamp of the key has passed, no lease is in force. -/
theorem Inv.no_lease_of_passed {s : State ι} (hi : Inv s) {v : Int}
    (h : get s.now s.key = some v) (hv : v < s.now) (c : ι) : ¬ (s.clients c).inLease s.now :=
  fun hc => by
    obtain ⟨w, hw, hle⟩ := (hi.covered c hc).stamp hc.2
    obtain rfl : v = w := Option.some.inj (h.symm.trans hw)
    omega

/-- A careful DEL finds no lease of another client in force. -/
theorem Inv.others_of_delete {s : State ι} (hi : Inv s) {c : ι}
    (hp : (s.clients c).pc = .delete) (hc : CarefulAt s (s.clients c) .delete) :
    ∀ c', c' ≠ c → ¬ (s.clients c').inLease s.now := by
  have hlock : (s.clients c).isLock = true := by
    have := hi.knows c
    simpa only [Client.Knows, hp] using this
  intro c' hne hc'
  rcases hc with hown | hgone
  · exact hne (hi.alone c' c hc' ⟨.inl hlock, hown⟩)
  · cases hg : get s.now s.key with
    | none => exact hi.no_lease_of_absent hg c' hc'
    | some v => exact hi.no_lease_of_passed hg (hgone v hg) c' hc'

/-! ### Each step keeps it -/

theorem Client.Knows.tick {now : Int} {cl : Client} (h : cl.Knows now) (d : ℕ) :
    cl.Knows (now + d) := by
  obtain ⟨pc, _, _, _, _, _⟩ := cl
  cases pc with
  | expire => exact ⟨h.1, by have := h.2; simp only at this ⊢; omega⟩
  | expireTaken | stamp | getAndSet => simp only [Client.Knows] at h ⊢; omega
  | delete => exact h
  | _ => trivial

theorem inv_tick {s : State ι} (hi : Inv s) (d : ℕ) : Inv { s with now := s.now + d } := by
  have hback : ∀ c, (s.clients c).inLease (s.now + d) → (s.clients c).inLease s.now :=
    fun c hc => ⟨hc.1, by have := hc.2; omega⟩
  exact ⟨fun c hc => (hi.covered c (hback c hc)).tick hc.2.le,
    fun c c' hc hc' => hi.alone c c' (hback c hc) (hback c' hc'), fun c => (hi.knows c).tick d⟩

variable [DecidableEq ι]

/-- One client changes, and the key with it. The key must still cover the
leases of the others and the lease of the client; and where the client is in
a lease now, it was before or nobody else is. -/
theorem Inv.update {s : State ι} (hi : Inv s) (c : ι) (cl : Client) (k : Key Int)
    (hothers : ∀ c', c' ≠ c → (s.clients c').inLease s.now → Covers s.now k (s.clients c').leaseEnd)
    (hself : cl.inLease s.now → Covers s.now k cl.leaseEnd)
    (halone : cl.inLease s.now → (s.clients c).inLease s.now ∨
      ∀ c', c' ≠ c → ¬ (s.clients c').inLease s.now)
    (hknows : cl.Knows s.now) : Inv { s.setClient c cl with key := k } := by
  have hne : ∀ c', c' ≠ c → (s.setClient c cl).clients c' = s.clients c' :=
    fun c' h => Function.update_of_ne h _ _
  have heq : (s.setClient c cl).clients c = cl := Function.update_self _ _ _
  have hone : ∀ c', c' ≠ c → cl.inLease s.now → ¬ (s.clients c').inLease s.now := fun c' h hc hc' => by
    rcases halone hc with h1 | h1
    · exact h (hi.alone c' c hc' h1)
    · exact h1 c' h hc'
  refine ⟨fun c' hc => ?_, fun a b ha hb => ?_, fun c' => ?_⟩
  · by_cases h : c' = c
    · subst h; simp only [heq] at hc ⊢; exact hself hc
    · simp only [hne c' h] at hc ⊢; exact hothers c' h hc
  · by_cases h1 : a = c <;> by_cases h2 : b = c
    · rw [h1, h2]
    · subst h1; simp only [heq, hne b h2] at ha hb; exact (hone b h2 ha hb).elim
    · subst h2; simp only [heq, hne a h1] at ha hb; exact (hone a h1 hb ha).elim
    · simp only [hne a h1, hne b h2] at ha hb; exact hi.alone a b ha hb
  · by_cases h : c' = c
    · subst h; simp only [heq]; exact hknows
    · simp only [hne c' h]; exact hi.knows c'

/-- A client that changes without the key keeps it, if it enters no lease. -/
theorem Inv.move {s : State ι} (hi : Inv s) (c : ι) (cl : Client)
    (hlease : cl.inLease s.now → (s.clients c).inLease s.now ∧ cl.leaseEnd = (s.clients c).leaseEnd)
    (hknows : cl.Knows s.now) : Inv (s.setClient c cl) := by
  refine hi.update c cl s.key (fun c' _ hc' => hi.covered c' hc') (fun hc => ?_)
    (fun hc => .inl (hlease hc).1) hknows
  rw [(hlease hc).2]
  exact hi.covered c (hlease hc).1

/-- A change of the program counter starts no lease. -/
theorem Client.inLease_at {cl : Client} {now : Int} {pc : Pc} (hpc : pc ≠ .expireTaken)
    (h : ({ cl with pc := pc } : Client).inLease now) : cl.inLease now :=
  ⟨h.1.imp id fun he => (hpc he).elim, h.2⟩

/-- A client that only moves on in its code. -/
theorem Inv.moveTo {s : State ι} (hi : Inv s) (c : ι) {pc : Pc} (hpc : pc ≠ .expireTaken)
    (hknows : ({ s.clients c with pc := pc } : Client).Knows s.now) :
    Inv (s.setClient c { s.clients c with pc := pc }) :=
  hi.move c _ (fun h => ⟨Client.inLease_at hpc h, rfl⟩) hknows

theorem Client.loopHead_lease {cl : Client} {now : Int} (h : cl.loopHead.inLease now) :
    cl.isLock = true ∧ now < cl.leaseEnd := by
  unfold Client.loopHead at h
  split at h
  · exact ⟨by simpa [Client.inLease] using h.1, h.2⟩
  · simp [Client.inLease] at h

theorem Client.loopHead_leaseEnd (cl : Client) : cl.loopHead.leaseEnd = cl.leaseEnd := by
  unfold Client.loopHead
  split <;> rfl

theorem Client.loopHead_knows (cl : Client) (now : Int) : cl.loopHead.Knows now := by
  unfold Client.loopHead
  split <;> trivial

/-- The head of the loop is reached from a client with the same flag. -/
theorem Inv.moveLoop {s : State ι} (hi : Inv s) (c : ι) (cl : Client)
    (hl : cl.isLock = (s.clients c).isLock) (he : cl.leaseEnd = (s.clients c).leaseEnd) :
    Inv (s.setClient c cl.loopHead) := by
  refine hi.move c _ (fun h => ?_) (cl.loopHead_knows _)
  obtain ⟨h1, h2⟩ := Client.loopHead_lease h
  exact ⟨⟨.inl (hl ▸ h1), he ▸ h2⟩, by rw [Client.loopHead_leaseEnd, he]⟩

/-! ### The commands -/

/-- **A lease begins.** No lease is in force, and the client sets a stamp
that covers its own. -/
theorem Inv.acquire {s : State ι} (hi : Inv s) (c : ι) (cl : Client) (v : Int)
    (hno : ∀ c', ¬ (s.clients c').inLease s.now) (hv : cl.leaseEnd ≤ v + 1)
    (hknows : cl.Knows s.now) : Inv { s.setClient c cl with key := set v } :=
  hi.update c cl (set v) (fun c' _ hc' => (hno c' hc').elim) (fun _ => lasts_set _ _ hv)
    (fun _ => .inr fun c' _ => hno c') hknows

/-- The key is overwritten by a stamp that covers the leases in force. -/
theorem Inv.overwrite {s : State ι} (hi : Inv s) (c : ι) (cl : Client) (v : Int)
    (hv : NoLeaseBeyond s (v + 1))
    (hlease : cl.inLease s.now → (s.clients c).inLease s.now ∧ cl.leaseEnd = (s.clients c).leaseEnd)
    (hknows : cl.Knows s.now) : Inv { s.setClient c cl with key := set v } := by
  refine hi.update c cl (set v) (fun c' _ hc' => lasts_set _ _ (hv c' hc')) (fun hc => ?_)
    (fun hc => .inl (hlease hc).1) hknows
  rw [(hlease hc).2]
  exact lasts_set _ _ (hv c (hlease hc).1)

/-- EXPIRE, with a deadline that no lease in force passes. -/
theorem Inv.expireKey {s : State ι} (hi : Inv s) (c : ι) (cl : Client) (ttl : Int)
    (hv : NoLeaseBeyond s (s.now + ttl))
    (hlease : cl.inLease s.now → (s.clients c).inLease s.now ∧ cl.leaseEnd = (s.clients c).leaseEnd)
    (hknows : cl.Knows s.now) : Inv { s.setClient c cl with key := expire s.now ttl s.key } := by
  have hkeep : ∀ c', (s.clients c').inLease s.now →
      Covers s.now (expire s.now ttl s.key) (s.clients c').leaseEnd :=
    fun c' hc' => (hi.covered c' hc').expire hc'.2 (hv c' hc')
  refine hi.update c cl _ (fun c' _ hc' => hkeep c' hc') (fun hc => ?_)
    (fun hc => .inl (hlease hc).1) hknows
  rw [(hlease hc).2]
  exact hkeep c (hlease hc).1

/-- DEL by a client of which nobody else's lease is in the way. -/
theorem Inv.release {s : State ι} (hi : Inv s) (c : ι) (cl : Client)
    (hno : ∀ c', c' ≠ c → ¬ (s.clients c').inLease s.now) (hcl : ¬ cl.inLease s.now)
    (hknows : cl.Knows s.now) : Inv { s.setClient c cl with key := del } :=
  hi.update c cl del (fun c' h hc' => (hno c' h hc').elim) (fun h => (hcl h).elim)
    (fun h => (hcl h).elim) hknows

/-- The next command of a client keeps the invariant. -/
theorem inv_run {s s' : State ι} (hi : Inv s) {c : ι} (hc : Careful s (.run c))
    (h : step s (.run c) = some s') : Inv s' := by
  obtain ⟨⟨k, cl⟩, ht, rfl⟩ := Option.map_eq_some_iff.mp h
  have hk := hi.knows c
  simp only [Careful] at hc
  unfold Client.turn at ht
  cases hp : (s.clients c).pc with
  | idle => simp [hp] at ht
  | setIfAbsent =>
    simp only [hp, CarefulAt] at ht hc
    cases hg : get s.now s.key with
    | none =>
      rw [setnx_of_absent hg] at ht
      cases ht
      exact hi.acquire c _ _ (hi.no_lease_of_absent hg) (hc hg) ⟨rfl, le_rfl⟩
    | some v =>
      rw [setnx_of_get hg] at ht
      cases ht
      exact hi.move c _ (fun h => by simp [Client.inLease] at h) trivial
  | expire =>
    simp only [hp, CarefulAt, Option.some.injEq, Prod.mk.injEq, Client.Knows] at ht hc hk
    obtain ⟨rfl, rfl⟩ := ht
    exact hi.expireKey c _ _ hc (fun h => ⟨⟨.inl hk.1, h.2⟩, rfl⟩) trivial
  | get =>
    simp only [hp] at ht
    split at ht <;> cases ht <;> exact hi.moveTo c (by simp) trivial
  | test oldValue =>
    simp only [hp] at ht
    split at ht <;> cases ht
    · rename_i hlt
      exact hi.moveTo c (by simp) hlt
    · exact hi.moveTo c (by simp) trivial
  | stamp oldValue =>
    simp only [hp, Option.some.injEq, Prod.mk.injEq, Client.Knows] at ht hk
    obtain ⟨rfl, rfl⟩ := ht
    exact hi.moveTo c (by simp) hk
  | getAndSet oldValue newValue =>
    simp only [hp, CarefulAt, getset, Client.Knows] at ht hc hk
    cases hg : get s.now s.key with
    | none =>
      simp only [hg, Option.some.injEq, Prod.mk.injEq] at ht
      obtain ⟨rfl, rfl⟩ := ht
      refine hi.overwrite c _ newValue (fun c' hc' => (hi.no_lease_of_absent hg c' hc').elim)
        (fun h => ⟨Client.inLease_at (by simp) h, rfl⟩) trivial
    | some v =>
      have hcv := hc v hg
      simp only [hg] at ht
      by_cases hv : v = oldValue
      · -- the stamp read has passed, so the lease it stood for is over
        subst hv
        simp only [if_true, Option.some.injEq, Prod.mk.injEq] at ht hcv
        obtain ⟨rfl, rfl⟩ := ht
        exact hi.acquire c _ newValue (hi.no_lease_of_passed hg hk) hcv le_rfl
      · simp only [if_neg hv, Option.some.injEq, Prod.mk.injEq] at ht hcv
        obtain ⟨rfl, rfl⟩ := ht
        exact hi.overwrite c _ newValue hcv
          (fun h => ⟨Client.inLease_at (by simp) h, rfl⟩) trivial
  | expireTaken =>
    simp only [hp, CarefulAt, Option.some.injEq, Prod.mk.injEq] at ht hc
    obtain ⟨rfl, rfl⟩ := ht
    exact hi.expireKey c _ _ hc (fun h => ⟨⟨.inr hp, h.2⟩, rfl⟩) trivial
  | restore currentRedisValue =>
    simp only [hp, CarefulAt, Option.some.injEq, Prod.mk.injEq] at ht hc
    obtain ⟨rfl, rfl⟩ := ht
    exact hi.overwrite c _ currentRedisValue hc
      (fun h => ⟨Client.inLease_at (by simp) h, rfl⟩) trivial
  | sleep =>
    simp only [hp, Option.some.injEq, Prod.mk.injEq] at ht
    obtain ⟨rfl, rfl⟩ := ht
    exact hi.moveLoop c _ rfl rfl
  | delete =>
    simp only [hp, Option.some.injEq, Prod.mk.injEq] at ht hc
    obtain ⟨rfl, rfl⟩ := ht
    exact hi.release c _ (hi.others_of_delete hp hc) (fun h => by simp [Client.inLease] at h) trivial

theorem inv_step {s s' : State ι} {e : Ev ι} (hi : Inv s) (hc : Careful s e)
    (h : step s e = some s') : Inv s' := by
  cases e with
  | tick d =>
    simp only [step, Option.some.injEq] at h
    exact h ▸ inv_tick hi d
  | lock c lockExpirseTimeout lockWaitTimeout =>
    simp only [step, Option.ite_none_right_eq_some, Option.some.injEq] at h
    obtain ⟨-, rfl⟩ := h
    exact hi.moveLoop c _ rfl rfl
  | unlock c =>
    simp only [step, Option.ite_none_right_eq_some, Option.some.injEq] at h
    obtain ⟨hp, rfl⟩ := h
    unfold Client.unlock
    split
    · rename_i hl
      exact hi.move c _ (fun h => ⟨⟨.inl hl, h.2⟩, rfl⟩) hl
    · exact hi.move c _ (fun h => ⟨h, rfl⟩) (hi.knows c)
  | run c => exact inv_run hi hc h

/-- Every state of a careful run satisfies the invariant. -/
theorem inv_of_reach {s₀ s : State ι} (h0 : Initial s₀) (h : Reach step Careful s₀ s) : Inv s :=
  h.invariant (inv_of_initial h0) fun _ _ _ hi hc he => inv_step hi hc he

/-! ### Mutual exclusion -/

/-- **Mutual exclusion.** In a run in which no command undercuts a lease, no
two clients hold the lock within their leases. -/
theorem mutualExclusion_of_careful {s₀ s : State ι} (h0 : Initial s₀)
    (h : Reach step Careful s₀ s) : MutualExclusion s :=
  fun c c' hne hc => hne ((inv_of_reach h0 h).alone c c' hc.1.inLease hc.2.inLease)

/-- Callers that unlock only while their own lease has not ended. -/
def Polite (s : State ι) : Ev ι → Prop
  | .unlock c => s.now < (s.clients c).leaseEnd
  | .tick _ | .lock _ _ _ | .run _ => True

instance (s : State ι) : ∀ e, Decidable (Polite s e)
  | .unlock c => inferInstanceAs (Decidable (s.now < (s.clients c).leaseEnd))
  | .tick _ | .lock _ _ _ | .run _ => .isTrue trivial

/-- Three clients, nobody has called yet. -/
def start : State (Fin 3) := ⟨0, none, fun _ => {}⟩

theorem start_initial : Initial start := fun _ => ⟨rfl, rfl⟩

/-- Client 0 stops between SETNX and EXPIRE; after its lease client 1 finds
the stamp passed and takes the lock over. -/
def takeover : List (Ev (Fin 3)) :=
  [.lock 0 30000 10000, .run 0, .tick 30001,
    .lock 1 30000 10000, .run 1, .run 1, .run 1, .run 1, .run 1, .run 1]

theorem mutualExclusion_takeover :
    MutualExclusion ((runWith step Careful start takeover).get (by decide)) :=
  mutualExclusion_of_careful start_initial (reach_get takeover (by decide))

/-- Client 1 waits 150 ms for client 0 to unlock; its SETNX then sets the
stamp it computed before the wait, which passes 150 ms before its lease ends.
Client 2 takes the lock over in that time. -/
def overlap : List (Ev (Fin 3)) :=
  [.lock 0 30000 10000, .run 0, .run 0,
    .lock 1 30000 10000, .run 1, .run 1, .run 1,
    .tick 150, .unlock 0, .run 0,
    .run 1, .run 1, .run 1,
    .tick 29851,
    .lock 2 30000 10000, .run 2, .run 2, .run 2, .run 2, .run 2, .run 2]

/-- Polite callers alone do not give mutual exclusion. -/
theorem overlap_reachable : ¬ ∀ s₀ s : State (Fin 3), Initial s₀ → Reach step Polite s₀ s →
    MutualExclusion s := fun h =>
  h start _ start_initial (reach_get overlap (by decide)) 1 2 (by decide) (by decide)

/-! ### A safe unlock -/

/-- **Unlock is safe.** In a run in which no command undercuts a lease, DEL
never removes the key while another client holds the lock within its lease. -/
theorem unlockSafe_of_careful {s₀ s : State ι} (h0 : Initial s₀) (h : Reach step Careful s₀ s)
    {c : ι} (hc : Careful s (.run c)) : UnlockSafe s c := by
  intro hp _ c' hne hh
  simp only [Careful, hp] at hc
  exact (inv_of_reach h0 h).others_of_delete hp hc c' hne hh.inLease

/-- After `takeover` client 1 unlocks. -/
theorem unlockSafe_takeover :
    UnlockSafe ((runWith step Careful start (takeover ++ [.unlock 1])).get (by decide)) 1 :=
  unlockSafe_of_careful start_initial (reach_get _ (by decide)) (by decide)

/-- The lease of client 0 ends in the middle of its work, the key runs out,
client 1 takes the lock, and client 0 unlocks. -/
def stolen : List (Ev (Fin 3)) :=
  [.lock 0 30000 10000, .run 0, .run 0, .tick 30001,
    .lock 1 30000 10000, .run 1, .run 1, .unlock 0]

/-- In some run the DEL of a late unlock removes the key of another holder. -/
theorem stolen_unlock_reachable : ¬ ∀ s₀ s : State (Fin 3), Initial s₀ →
    Reach step (fun _ _ => True) s₀ s → ∀ c, UnlockSafe s c := fun h =>
  h start _ start_initial (reach_get stolen (by decide)) 0 (by decide) (by decide) 1 (by decide)
    (by decide)

end RedisLock
end CloudManager
