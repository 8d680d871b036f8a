/-
# The kickout filter under concurrent requests

A request of the filter gets the deque from the cache, edits its copy, puts it
back and then looks whether its own session was kicked; other requests run in
between (`get`, `edit`, `put`, `leave`). One after the other the four steps are
`onAccessDenied` (`request_steps`). `enforced_of_careful`: the deque stays
within the limit, and the sessions let through stay in it, in every run in
which no `put` drops an entry of a live session that its `get` did not see.
-/
import CloudManager.Shiro.Kickout

namespace CloudManager
namespace Kickout
namespace Race

open Runs RedisCache

variable {S : Type*} [DecidableEq S]

/-- Where a thread is in a request of the session `s`; `read` is the deque as
the cache returned it. -/
inductive Pc (S : Type*)
  | idle
  | got (s : S) (read : List S)
  | edited (s : S) (read deque : List S)
  | written (s : S)

/-- The sessions and the cache, the threads, and the sessions let through. -/
structure Server (S : Type*) where
  st : State S
  pc : ℕ → Pc S := fun _ => .idle
  passed : List S := []

inductive Event (S : Type*)
  | login (s : S)
  | remember (s : S)
  | logout (s : S)
  | get (thread : ℕ) (s : S)
  | edit (thread : ℕ)
  | put (thread : ℕ)
  | leave (thread : ℕ)

variable (p : KickoutProperties) (account : String)

def Server.goto (r : Server S) (thread : ℕ) (pc : Pc S) : Server S :=
  { r with pc := Function.update r.pc thread pc }

/-- The edit of the copy: push the session, kick while there are too many. -/
def editDeque (st : State S) (read : List S) (s : S) : State S × List S :=
  kickLoop p (pushed st read s).length st (pushed st read s)

def step (r : Server S) : Event S → Option (Server S)
  | .login s => some { r with st := r.st.login s }
  | .remember s => some { r with st := r.st.remember s }
  | .logout s => some { r with st := preHandle r.st s }
  | .get thread s =>
    match r.pc thread with
    | .idle =>
      -- a request of a session that is not recognised goes on without the cache
      if r.st.recognised s then
        some ({ r with st := r.st.noteRequest s }.goto thread (.got s (dequeOf p account r.st)))
      else some r
    | _ => none
  | .edit thread =>
    match r.pc thread with
    | .got s read =>
      let x := editDeque p r.st read s
      some ({ r with st := x.1 }.goto thread (.edited s read x.2))
    | _ => none
  | .put thread =>
    match r.pc thread with
    | .edited s _ deque =>
      some ({ r with st := writeBack p account r.st deque }.goto thread (.written s))
    | _ => none
  | .leave thread =>
    match r.pc thread with
    | .written s =>
      let x := Kickout.leave r.st s
      some ({ r with st := x.2, passed := if x.1 then s :: r.passed else r.passed }.goto thread .idle)
    | _ => none

/-- With nobody in between the four steps are the filter. -/
theorem request_steps (r : Server S) (thread : ℕ) (s : S) (hi : r.pc thread = .idle)
    (hs : r.st.recognised s = true) :
    runWith (step p account) (fun _ _ => True) r
        [.get thread s, .edit thread, .put thread, .leave thread] =
      some { r with st := (onAccessDenied p account r.st s).2,
                    passed := if (onAccessDenied p account r.st s).1 then s :: r.passed
                      else r.passed } := by
  have hpc : Function.update r.pc thread .idle = r.pc := by rw [← hi, Function.update_eq_self]
  simp [runWith, step, hi, hs, Server.goto, hpc, onAccessDenied, editDeque,
    isAuthenticated_or_isRemembered]

/-- The session has ended or is marked as kicked out. -/
def gone (st : State S) (x : S) : Bool := (st.session x).ended || (st.session x).kickout

/-- What the filter is for: the deque has no id twice and at most `maxSession`,
and the live sessions let through are in it, so they are no more than that. -/
structure Enforced (r : Server S) : Prop where
  nodup : (dequeOf p account r.st).Nodup
  short : (dequeOf p account r.st).length ≤ p.maxSession
  all : ∀ x ∈ r.passed, gone r.st x = false → x ∈ dequeOf p account r.st
  count : ∀ l : List S, l.Nodup → (∀ x ∈ l, x ∈ r.passed ∧ gone r.st x = false) →
    l.length ≤ p.maxSession

/-- All requests have finished. -/
def Quiet (r : Server S) : Prop := ∀ thread, r.pc thread = .idle

/-- Every id in the cached deque, but the thread's own, is in the deque the
thread read, or its session is gone. -/
def Covers (st : State S) (cached : List S) : Pc S → Prop
  | .edited s read _ => ∀ x ∈ cached, x = s ∨ x ∈ read ∨ gone st x = true
  | .idle | .got _ _ | .written _ => True

/-- A `put` overwrites no other live session that its `get` did not return. -/
def Careful (r : Server S) : Event S → Prop
  | .put thread => Covers r.st (dequeOf p account r.st) (r.pc thread)
  | .login _ | .remember _ | .logout _ | .get _ _ | .edit _ | .leave _ => True

instance (st : State S) (cached : List S) : ∀ pc, Decidable (Covers st cached pc)
  | .edited s read _ => inferInstanceAs (Decidable (∀ x ∈ cached, x = s ∨ x ∈ read ∨ gone st x = true))
  | .idle | .got _ _ | .written _ => .isTrue trivial

instance (r : Server S) : ∀ e, Decidable (Careful p account r e)
  | .put thread => inferInstanceAs (Decidable (Covers r.st (dequeOf p account r.st) (r.pc thread)))
  | .login _ | .remember _ | .logout _ | .get _ _ | .edit _ | .leave _ => .isTrue trivial

/-! ### What only grows -/

/-- From `st` to `st'` sessions are added, end and are kicked only. -/
structure Grows (st st' : State S) : Prop where
  ids : ∀ x ∈ st.ids, x ∈ st'.ids
  stays : ∀ x ∈ st.ids, gone st x = true → gone st' x = true

/-- A session of the account that is in the deque, or has to be no more. -/
def Kept (st : State S) (deque : List S) (x : S) : Prop :=
  x ∈ st.ids ∧ (x ∈ deque ∨ gone st x = true)

variable {p account} {st st' st'' : State S} {deque : List S} {s x : S}

omit [DecidableEq S] in
theorem Grows.refl (st : State S) : Grows st st := ⟨fun _ h => h, fun _ _ h => h⟩

omit [DecidableEq S] in
theorem Grows.trans (h : Grows st st') (h' : Grows st' st'') : Grows st st'' :=
  ⟨fun x hx => h'.ids x (h.ids x hx), fun x hx hg => h'.stays x (h.ids x hx) (h.stays x hx hg)⟩

omit [DecidableEq S] in
theorem Kept.grows (h : Kept st deque x) (hg : Grows st st') : Kept st' deque x :=
  ⟨hg.ids x h.1, h.2.imp_right (hg.stays x h.1)⟩

omit [DecidableEq S] in
theorem gone_iff : gone st x = true ↔ (st.session x).ended = true ∨ (st.session x).kickout = true := by
  simp [gone]

/-- Writing one session, which stays gone if it was. -/
theorem Grows.setSession {y : Session} (h : gone st s = true → (y.ended || y.kickout) = true) :
    Grows st (st.setSession s y) := by
  refine ⟨fun _ hx => hx, fun x _ hx => ?_⟩
  by_cases he : x = s
  · subst he
    simp only [gone, State.setSession, Function.update_self]
    exact h hx
  · simpa only [gone, State.setSession, Function.update_of_ne he] using hx

theorem Grows.new {y : Session} (hs : s ∉ st.ids) :
    Grows st { st.setSession s y with ids := s :: st.ids } := by
  refine ⟨fun x hx => List.mem_cons_of_mem s hx, fun x hx hg => ?_⟩
  have hne : x ≠ s := fun he => hs (he ▸ hx)
  simpa only [gone, State.setSession, Function.update_of_ne hne] using hg

theorem Grows.login : Grows st (st.login s) := by
  unfold State.login
  split
  · split
    · exact Grows.setSession id
    · exact .refl st
  · rename_i hs
    exact .new hs

theorem Grows.remember : Grows st (st.remember s) := by
  unfold State.remember
  split
  · exact .refl st
  · rename_i hs
    exact .new hs

theorem Grows.logout : Grows st (st.logout s) := Grows.setSession fun _ => rfl

theorem Grows.noteRequest : Grows st (st.noteRequest s) := Grows.setSession id

theorem Grows.mark : Grows st (st.mark s) := by
  unfold State.mark
  split
  · exact .refl st
  · exact Grows.setSession fun _ => by simp

theorem Grows.preHandle : Grows st (preHandle st s) := by
  unfold Kickout.preHandle
  split
  · exact .logout
  · exact .refl st

theorem Grows.leave : Grows st (Kickout.leave st s).2 := by
  unfold Kickout.leave
  split
  · exact .logout
  · exact .refl st

theorem gone_mark : gone (st.mark s) s = true := by
  unfold State.mark
  split
  · rename_i h
    simp [gone, h]
  · simp [gone, State.setSession]

/-! ### The edit -/

/-- What the loop makes of a deque: a part of it within the limit, whose
missing sessions are gone. -/
structure Trimmed (p : KickoutProperties) (st : State S) (deque : List S)
    (r : State S × List S) : Prop where
  grows : Grows st r.1
  redis : r.1.redis = st.redis
  nodup : r.2.Nodup
  subset : ∀ x ∈ r.2, x ∈ deque
  short : r.2.length ≤ p.maxSession
  left : ∀ x ∈ deque, x ∈ r.2 ∨ gone r.1 x = true

theorem mark_redis (st : State S) (s : S) : (st.mark s).redis = st.redis := by
  unfold State.mark
  split <;> rfl

theorem kickLoop_trimmed : ∀ (fuel : ℕ) {st : State S} {deque : List S}, deque.length ≤ fuel →
    deque.Nodup → (∀ x ∈ deque, x ∈ st.ids) → Trimmed p st deque (kickLoop p fuel st deque)
  | 0, st, deque, hf, hn, _ => by
    obtain rfl := List.length_eq_zero_iff.mp (Nat.le_zero.mp hf)
    exact ⟨.refl st, rfl, hn, fun _ h => h, Nat.zero_le _, fun _ h => .inl h⟩
  | fuel + 1, st, deque, hf, hn, hk => by
    by_cases hlen : p.maxSession < deque.length
    · obtain ⟨v, rest, hr, hperm, -⟩ := @removeOne_perm _ p.kickoutAfter deque
        (List.ne_nil_of_length_pos (Nat.zero_lt_of_lt hlen))
      have hmem : ∀ x, x ∈ deque ↔ x = v ∨ x ∈ rest := fun x => by
        rw [hperm.mem_iff, List.mem_cons]
      have hlen' : rest.length ≤ fuel := by
        have := hperm.length_eq
        rw [List.length_cons] at this
        omega
      have hids : ∀ x ∈ rest, x ∈ (st.mark v).ids := fun x hx => by
        rw [st.mark_ids]
        exact hk x ((hmem x).mpr (.inr hx))
      have ih := kickLoop_trimmed fuel hlen' (List.nodup_cons.mp (hperm.nodup_iff.mp hn)).2 hids
      have hstep : kickLoop p (fuel + 1) st deque = kickLoop p fuel (st.mark v) rest := by
        rw [kickLoop, if_pos hlen, hr]
      rw [hstep]
      refine ⟨Grows.mark.trans ih.grows, ih.redis.trans (mark_redis st v), ih.nodup,
        fun x hx => (hmem x).mpr (.inr (ih.subset x hx)), ih.short, fun x hx => ?_⟩
      rcases (hmem x).mp hx with rfl | hx
      · -- the session just removed is marked, or had ended
        have hv : x ∈ (st.mark x).ids := by
          rw [st.mark_ids]
          exact hk x ((hmem x).mpr (.inl rfl))
        exact .inr (ih.grows.stays x hv gone_mark)
      · exact ih.left x hx
    · rw [kickLoop_short p st (Nat.not_lt.mp hlen)]
      exact ⟨.refl st, rfl, hn, fun _ h => h, Nat.not_lt.mp hlen, fun _ h => .inl h⟩

/-- After the edit the requesting session and those read are in the copy or gone. -/
theorem editDeque_trimmed {read : List S} (hs : s ∈ st.ids) (hn : read.Nodup)
    (hk : ∀ x ∈ read, x ∈ st.ids) :
    Grows st (editDeque p st read s).1 ∧ (editDeque p st read s).1.redis = st.redis ∧
      (editDeque p st read s).2.Nodup ∧ (editDeque p st read s).2.length ≤ p.maxSession ∧
      (∀ x ∈ (editDeque p st read s).2, x ∈ st.ids) ∧
      ∀ x, x = s ∨ x ∈ read → Kept (editDeque p st read s).1 (editDeque p st read s).2 x := by
  have hn' : (pushed st read s).Nodup := by
    unfold pushed
    split
    · rename_i h
      exact List.nodup_cons.mpr ⟨h.1, hn⟩
    · exact hn
  have hk' : ∀ x ∈ pushed st read s, x ∈ st.ids := fun x hx => by
    rcases mem_pushed hx with hx | ⟨rfl, -⟩
    · exact hk x hx
    · exact hs
  have ht : Trimmed p st (pushed st read s) (editDeque p st read s) :=
    kickLoop_trimmed _ le_rfl hn' hk'
  refine ⟨ht.grows, ht.redis, ht.nodup, ht.short, fun x hx => hk' x (ht.subset x hx), ?_⟩
  rintro x (rfl | hx)
  · refine ⟨ht.grows.ids x hs, ?_⟩
    by_cases hm : x ∈ pushed st read x
    · exact ht.left x hm
    · -- not pushed: the session is marked as kicked out
      have hkick : (st.session x).kickout = true := by
        unfold pushed at hm
        split at hm
        · exact (hm List.mem_cons_self).elim
        · rename_i hc
          by_contra hf
          exact hc ⟨hm, Bool.eq_false_of_not_eq_true hf⟩
      exact .inr (ht.grows.stays x hs (gone_iff.mpr (.inr hkick)))
  · exact ⟨ht.grows.ids x (hk x hx), ht.left x (subset_pushed st read s hx)⟩

/-! ### The invariant -/

/-- What holds of a thread, with the cached deque. -/
def Knows (p : KickoutProperties) (st : State S) (deque : List S) : Pc S → Prop
  | .idle => True
  | .got s read => read.Nodup ∧ s ∈ st.ids ∧ ∀ x ∈ read, x ∈ st.ids
  | .edited s read copy => copy.Nodup ∧ copy.length ≤ p.maxSession ∧ (∀ x ∈ copy, x ∈ st.ids) ∧
      ∀ x, x = s ∨ x ∈ read → Kept st copy x
  | .written s => Kept st deque s

omit [DecidableEq S] in
theorem Knows.grows {pc : Pc S} (h : Knows p st deque pc) (hg : Grows st st') :
    Knows p st' deque pc := by
  cases pc with
  | idle => trivial
  | got s read => exact ⟨h.1, hg.ids s h.2.1, fun x hx => hg.ids x (h.2.2 x hx)⟩
  | edited s read copy =>
    obtain ⟨h1, h2, h3, h4⟩ := h
    exact ⟨h1, h2, fun x hx => hg.ids x (h3 x hx), fun x hx => (h4 x hx).grows hg⟩
  | written s => exact Kept.grows h hg

omit [DecidableEq S] in
/-- A new deque in the cache that keeps what was kept. -/
theorem Knows.replace {pc : Pc S} {copy : List S} (h : Knows p st deque pc)
    (hc : ∀ x, Kept st deque x → Kept st copy x) : Knows p st copy pc := by
  cases pc with
  | idle => trivial
  | got s read => exact h
  | edited s read copy => exact h
  | written s => exact hc s h

variable (p account) in
structure Inv (r : Server S) : Prop where
  nodup : (dequeOf p account r.st).Nodup
  short : (dequeOf p account r.st).length ≤ p.maxSession
  known : ∀ x ∈ dequeOf p account r.st, x ∈ r.st.ids
  passed : ∀ x ∈ r.passed, Kept r.st (dequeOf p account r.st) x
  threads : ∀ thread, Knows p r.st (dequeOf p account r.st) (r.pc thread)

variable {r r' : Server S} {thread : ℕ}

omit [DecidableEq S] in
theorem dequeOf_congr (h : st'.redis = st.redis) : dequeOf p account st' = dequeOf p account st := by
  rw [dequeOf, dequeOf, h]

omit [DecidableEq S] in
/-- The sessions change, the cache does not. -/
theorem Inv.grows (h : Inv p account r) (hg : Grows r.st st') (hr : st'.redis = r.st.redis) :
    Inv p account { r with st := st' } := by
  have hd : dequeOf p account st' = dequeOf p account r.st := dequeOf_congr hr
  refine ⟨?_, ?_, fun x hx => ?_, fun x hx => ?_, fun t => ?_⟩
  · rw [hd]; exact h.nodup
  · rw [hd]; exact h.short
  · rw [hd] at hx
    exact hg.ids x (h.known x hx)
  · rw [hd]; exact (h.passed x hx).grows hg
  · rw [hd]; exact (h.threads t).grows hg

omit [DecidableEq S] in
theorem Inv.goto {pc : Pc S} (h : Inv p account r)
    (hpc : Knows p r.st (dequeOf p account r.st) pc) : Inv p account (r.goto thread pc) :=
  ⟨h.nodup, h.short, h.known, h.passed,
    (Function.forall_update_iff r.pc (p := fun _ pc => Knows p r.st (dequeOf p account r.st) pc)).mpr
      ⟨hpc, fun t _ => h.threads t⟩⟩

omit [DecidableEq S] in
/-- The copy is put back; the condition says that it loses nobody. -/
theorem Inv.put {read copy : List S} (h : Inv p account r)
    (hpc : r.pc thread = .edited s read copy)
    (hok : ∀ x ∈ dequeOf p account r.st, x = s ∨ x ∈ read ∨ gone r.st x = true) :
    Inv p account ({ r with st := writeBack p account r.st copy }.goto thread (.written s)) := by
  have hd : dequeOf p account (writeBack p account r.st copy) = copy := dequeOf_writeBack ..
  have hg : Grows r.st (writeBack p account r.st copy) := ⟨fun _ h => h, fun _ _ h => h⟩
  obtain ⟨h1, h2, h3, h4⟩ : Knows p r.st _ (.edited s read copy) := hpc ▸ h.threads thread
  have hc : ∀ x, Kept r.st (dequeOf p account r.st) x → Kept r.st copy x := by
    rintro x ⟨hx, hm | hm⟩
    · rcases hok x hm with he | he | he
      · exact h4 x (.inl he)
      · exact h4 x (.inr he)
      · exact ⟨hx, .inr he⟩
    · exact ⟨hx, .inr hm⟩
  have hI : Inv p account { r with st := writeBack p account r.st copy } := by
    refine ⟨?_, ?_, fun x hx => ?_, fun x hx => ?_, fun t => ?_⟩
    · rw [hd]; exact h1
    · rw [hd]; exact h2
    · rw [hd] at hx
      exact h3 x hx
    · rw [hd]; exact (hc x (h.passed x hx)).grows hg
    · rw [hd]; exact ((h.threads t).replace hc).grows hg
  apply hI.goto
  show Kept _ (dequeOf p account (writeBack p account r.st copy)) s
  rw [hd]
  exact (h4 s (.inl rfl)).grows hg

theorem redis_login (st : State S) (s : S) : (st.login s).redis = st.redis := by
  unfold State.login
  split
  · split <;> rfl
  · rfl

theorem redis_remember (st : State S) (s : S) : (st.remember s).redis = st.redis := by
  unfold State.remember
  split <;> rfl

theorem redis_preHandle (st : State S) (s : S) : (preHandle st s).redis = st.redis := by
  unfold preHandle
  split <;> rfl

theorem redis_leave (st : State S) (s : S) : (Kickout.leave st s).2.redis = st.redis := by
  unfold Kickout.leave
  split <;> rfl

/-- A session whose request passes was kept, and stays so. -/
theorem Inv.leave (h : Inv p account r) (hpc : r.pc thread = .written s) :
    Inv p account ({ r with st := (Kickout.leave r.st s).2,
                            passed := if (Kickout.leave r.st s).1 then s :: r.passed
                              else r.passed }.goto thread .idle) := by
  have hs : Kept r.st (dequeOf p account r.st) s := by
    have := h.threads thread
    rwa [hpc] at this
  have hI : Inv p account { r with st := (Kickout.leave r.st s).2 } :=
    h.grows .leave (redis_leave ..)
  have hd : dequeOf p account (Kickout.leave r.st s).2 = dequeOf p account r.st :=
    dequeOf_congr (redis_leave ..)
  have hp : ∀ x ∈ s :: r.passed,
      Kept (Kickout.leave r.st s).2 (dequeOf p account (Kickout.leave r.st s).2) x := by
    rw [hd]
    intro x hx
    rcases List.mem_cons.mp hx with rfl | hx
    · exact hs.grows .leave
    · exact (h.passed x hx).grows .leave
  have hI' : Inv p account { r with st := (Kickout.leave r.st s).2,
                                    passed := if (Kickout.leave r.st s).1 then s :: r.passed
                                      else r.passed } := by
    refine ⟨hI.nodup, hI.short, hI.known, fun x hx => hp x ?_, hI.threads⟩
    simp only at hx
    split at hx
    · exact hx
    · exact List.mem_cons_of_mem s hx
  exact hI'.goto trivial

theorem Inv.step {e : Event S} (h : Inv p account r) (hok : Careful p account r e)
    (he : step p account r e = some r') : Inv p account r' := by
  cases e with
  | login s =>
    cases he
    exact h.grows .login (redis_login ..)
  | remember s =>
    cases he
    exact h.grows .remember (redis_remember ..)
  | logout s =>
    cases he
    exact h.grows .preHandle (redis_preHandle ..)
  | get thread s =>
    simp only [Race.step] at he
    split at he
    · split at he
      · rename_i hs
        cases he
        have hg : Grows r.st (r.st.noteRequest s) := .noteRequest
        apply (h.grows hg rfl).goto
        exact ⟨h.nodup, hg.ids s (State.recognised_iff.mp hs).1,
          fun x hx => hg.ids x (h.known x hx)⟩
      · cases he
        exact h
    · cases he
  | edit thread =>
    simp only [Race.step] at he
    split at he
    · rename_i s read hpc
      cases he
      obtain ⟨hn, hs, hk⟩ : Knows p r.st _ (.got s read) := hpc ▸ h.threads thread
      obtain ⟨hg, hr, h1, h2, h3, h4⟩ := editDeque_trimmed (p := p) hs hn hk
      apply (h.grows hg hr).goto
      exact ⟨h1, h2, fun x hx => hg.ids x (h3 x hx), h4⟩
    · cases he
  | put thread =>
    simp only [Race.step] at he
    split at he
    · rename_i s read copy hpc
      cases he
      rw [Careful, hpc] at hok
      exact h.put hpc hok
    · cases he
  | leave thread =>
    simp only [Race.step] at he
    split at he
    · rename_i s hpc
      cases he
      exact h.leave hpc
    · cases he

/-! ### Runs -/

/-- Nobody has logged in, Redis is empty. -/
def start : Server S := { st := initial }

theorem Inv.start (p : KickoutProperties) (account : String) :
    Inv p account (Race.start : Server S) := by
  have h := inv_initial (S := S) p account
  exact ⟨h.tracks.nodup, h.short, fun x hx => (h.tracks.known x hx).1, List.forall_mem_nil _,
    fun _ => trivial⟩

/-- **The filter enforces the limit** in every run in which no request writes
its deque over the entry of another live session that it has not read. -/
theorem enforced_of_careful (p : KickoutProperties) (account : String) {r : Server S}
    (h : Reach (step p account) (Careful p account) start r) : Enforced p account r := by
  have hI : Inv p account r := h.invariant (Inv.start p account) fun _ _ _ => Inv.step
  have hall : ∀ x ∈ r.passed, gone r.st x = false → x ∈ dequeOf p account r.st := fun x hx hg =>
    (hI.passed x hx).2.resolve_right (by simp [hg])
  refine ⟨hI.nodup, hI.short, hall, fun l hl hm => ?_⟩
  have hsub : l.Subperm (dequeOf p account r.st) :=
    hl.subperm fun x hx => hall x (hm x hx).1 (hm x hx).2
  exact hsub.length_le.trans hI.short

/-- One session is allowed: the second to come kicks the first. -/
def oneAfterOther : List (Event ℕ) :=
  [.login 1, .login 2, .get 0 1, .edit 0, .put 0, .leave 0, .get 1 2, .edit 1, .put 1, .leave 1]

theorem enforced_oneAfterOther :
    Enforced {} "lili" ((runWith (step {} "lili") (Careful {} "lili") start oneAfterOther).get
      (by decide)) :=
  enforced_of_careful {} "lili" (reach_get oneAfterOther (by decide))

/-- Both get the empty deque, and the second `put` drops the first's entry. -/
def sideBySide : List (Event ℕ) :=
  [.login 1, .login 2, .get 0 1, .get 1 2, .edit 0, .edit 1, .put 0, .put 1, .leave 0, .leave 1]

/-- Two sessions pass where one is allowed, and the deque knows one of them. -/
theorem entry_lost :
    ¬ ∀ (p : KickoutProperties) (account : String) (r : Server ℕ),
      Reach (step p account) (fun _ _ => True) start r → Quiet r → Enforced p account r := fun h => by
  have he := h {} "lili" _ (reach_get sideBySide (by decide)) (by rintro (_ | _ | _) <;> rfl)
  have hc := he.count [1, 2] (by decide) (by decide)
  revert hc
  decide

end Race
end Kickout
end CloudManager
