/-
# The kickout filter and the limit on an account's sessions

`KickoutSessionControlFilter` keeps, in the Redis cache, a deque of the
session ids of each account and marks a session as kicked out while the deque
is longer than `maxSession`. It does so for every session it recognises, also one
that is only remembered by a cookie, and `LogoutFilter` ends a session without
taking its id from the deque; so the deque counts sessions that are not logged in.
The runs here are logins, sessions recognised by the cookie, requests and logouts of
one account, one after the other.

`Tracks` is what the deque knows: every live session is in it, and what else
is in it has ended or is only remembered. `justified_iff`: the filter evicts live
sessions only above the limit exactly where, whenever a session is added to a full
deque, it and all sessions in the deque are logged in, or else the one that is
evicted is not.
-/
import Mathlib.Data.List.Nodup
import CloudManager.Shiro.RedisCache

namespace CloudManager
namespace Kickout

open Runs RedisCache

/-- `ShiroProperties.KickoutProperties`, but for the URL of the redirect. -/
structure KickoutProperties where
  cacheName : String := "kickoutCache"
  kickoutAfter : Bool := false
  maxSession : ℕ := 1

/-- What the filters read and write of a session. -/
structure Session where
  /-- it has made a request that the filter saw -/
  requested : Bool := false
  /-- it has been stopped by a logout, and is gone from the session store -/
  ended : Bool := false
  /-- its subject is known by a rememberMe cookie, and has not logged in -/
  remembered : Bool := false
  /-- the attribute `kickout` -/
  kickout : Bool := false
  deriving DecidableEq, Repr

variable {S : Type*} [DecidableEq S]

/-- The shared Redis and the sessions of the account: `ids` are those that
have logged in or were remembered. -/
structure State (S : Type*) where
  redis : Redis (List S)
  ids : List S
  session : S → Session

namespace State

def setSession (st : State S) (s : S) (x : Session) : State S :=
  { st with session := Function.update st.session s x }

/-- The session is of the account, and has not ended. -/
def recognised (st : State S) (s : S) : Bool := s ∈ st.ids && !(st.session s).ended

/-- `subject.isAuthenticated()`. -/
def isAuthenticated (st : State S) (s : S) : Bool := st.recognised s && !(st.session s).remembered

/-- `subject.isRemembered()`. -/
def isRemembered (st : State S) (s : S) : Bool := st.recognised s && (st.session s).remembered

/-- Logged in, and not logged out. -/
def active (st : State S) (s : S) : Bool := !(st.session s).ended && !(st.session s).remembered

/-- Logged in, having made a request, not logged out and not kicked. -/
def live (st : State S) (s : S) : Bool :=
  s ∈ st.ids && (st.session s).requested && st.active s && !(st.session s).kickout

def liveCount (st : State S) : ℕ := (st.ids.filter st.live).length

/-- A login: of a session that was remembered, or of one with a new id. -/
def login (st : State S) (s : S) : State S :=
  if s ∈ st.ids then
    if st.isRemembered s then st.setSession s { st.session s with remembered := false } else st
  else { st.setSession s {} with ids := s :: st.ids }

/-- The account's cookie comes with a new session. -/
def remember (st : State S) (s : S) : State S :=
  if s ∈ st.ids then st
  else { st.setSession s { remembered := true } with ids := s :: st.ids }

/-- The filter sees a request of the session. -/
def noteRequest (st : State S) (s : S) : State S :=
  st.setSession s { st.session s with requested := true }

/-- `subject.logout()`. -/
def logout (st : State S) (s : S) : State S :=
  st.setSession s { st.session s with ended := true }

/-- `kickoutSession.setAttribute`; for a session that has ended `getSession`
throws, which is only logged. -/
def mark (st : State S) (s : S) : State S :=
  if (st.session s).ended then st else st.setSession s { st.session s with kickout := true }

end State

/-! ### The filters -/

/-- `removeFirst` or `removeLast`: the id taken and the rest. -/
def removeOne (kickoutAfter : Bool) (deque : List S) : Option (S × List S) :=
  if kickoutAfter then
    match deque with
    | [] => none
    | x :: xs => some (x, xs)
  else deque.getLast?.map fun x => (x, deque.dropLast)

/-- The `while` loop; the fuel is the length of the deque. -/
def kickLoop (p : KickoutProperties) : ℕ → State S → List S → State S × List S
  | 0, st, deque => (st, deque)
  | fuel + 1, st, deque =>
    if p.maxSession < deque.length then
      match removeOne p.kickoutAfter deque with
      | some (kickoutSessionId, deque) => kickLoop p fuel (st.mark kickoutSessionId) deque
      | none => (st, deque)
    else (st, deque)

/-- The deque of the account. -/
def dequeOf (p : KickoutProperties) (account : String) (st : State S) : List S :=
  (SpringShiroCache.get p.cacheName st.redis account).getD []

/-- The deque with the requesting session in it, unless it was kicked. -/
def pushed (st : State S) (deque : List S) (s : S) : List S :=
  if s ∉ deque ∧ (st.session s).kickout = false then s :: deque else deque

/-- `cache.put(account, deque)`. -/
def writeBack (p : KickoutProperties) (account : String) (st : State S) (deque : List S) : State S :=
  { st with redis := (SpringShiroCache.put p.cacheName st.redis account deque).2 }

/-- A kicked session is logged out and its request redirected. -/
def leave (st : State S) (s : S) : Bool × State S :=
  if (st.session s).kickout then (false, st.logout s) else (true, st)

/-- `KickoutSessionControlFilter.onAccessDenied` for a request of the session
`s`: whether the request goes on, and the state afterwards. -/
def onAccessDenied (p : KickoutProperties) (account : String) (st : State S) (s : S) :
    Bool × State S :=
  if !st.isAuthenticated s && !st.isRemembered s then (true, st)
  else
    let deque := pushed (st.noteRequest s) (dequeOf p account st) s
    let r := kickLoop p deque.length (st.noteRequest s) deque
    leave (writeBack p account r.1 r.2) s

/-- `LogoutFilter.preHandle`: the deque is left as it is. -/
def preHandle (st : State S) (s : S) : State S :=
  if st.recognised s then st.logout s else st

/-! ### Runs -/

inductive Ev (S : Type*)
  | login (s : S)
  | remember (s : S)
  | request (s : S)
  | logout (s : S)

def step (p : KickoutProperties) (account : String) (st : State S) : Ev S → State S
  | .login s => st.login s
  | .remember s => st.remember s
  | .request s => (onAccessDenied p account st s).2
  | .logout s => preHandle st s

/-- Every live session the loop marks is marked while more than `maxSession`
sessions are live. -/
def LoopJustified (p : KickoutProperties) : ℕ → State S → List S → Prop
  | 0, _, _ => True
  | fuel + 1, st, deque =>
    if p.maxSession < deque.length then
      match removeOne p.kickoutAfter deque with
      | some (kickoutSessionId, deque) =>
        (st.live kickoutSessionId = true → p.maxSession < st.liveCount) ∧
          LoopJustified p fuel (st.mark kickoutSessionId) deque
      | none => True
    else True

/-- The filter kicks within a request only above the limit. -/
def Justified (p : KickoutProperties) (account : String) (st : State S) : Ev S → Prop
  | .request s =>
    st.recognised s = true →
      let deque := pushed (st.noteRequest s) (dequeOf p account st) s
      LoopJustified p deque.length (st.noteRequest s) deque
  | .login _ | .remember _ | .logout _ => True

/-- The session that goes when `s` joins the full deque: `s` itself at the young end, at
the old end the one that has been there longest. -/
def evicted (p : KickoutProperties) (deque : List S) (s : S) : S :=
  if p.kickoutAfter then s else deque.getLast?.getD s

/-- A session is added to a full deque only if it and all those in the deque are logged
in, or if the one that is evicted is not. -/
def Fits (p : KickoutProperties) (account : String) (st : State S) : Ev S → Prop
  | .request s =>
    let deque := dequeOf p account st
    st.recognised s = true → s ∉ deque → (st.session s).kickout = false →
      deque.length = p.maxSession →
      (∀ x ∈ s :: deque, st.active x = true) ∨ st.active (evicted p deque s) = false
  | .login _ | .remember _ | .logout _ => True

/-- The limit is on the sessions of the account that are recognised. -/
theorem isAuthenticated_or_isRemembered (st : State S) (s : S) :
    (!st.isAuthenticated s && !st.isRemembered s) = !st.recognised s := by
  unfold State.isAuthenticated State.isRemembered
  cases st.recognised s <;> cases (st.session s).remembered <;> rfl

/-! ### What the deque knows -/

/-- Recognised, having made a request and not kicked. -/
def State.present (st : State S) (s : S) : Bool :=
  s ∈ st.ids && (st.session s).requested && !(st.session s).ended && !(st.session s).kickout

/-- Every session present is in the deque; the sessions in it have made a
request and are not kicked. -/
structure Tracks (st : State S) (deque : List S) : Prop where
  idsNodup : st.ids.Nodup
  nodup : deque.Nodup
  known : ∀ x ∈ deque, x ∈ st.ids ∧ (st.session x).requested = true ∧ (st.session x).kickout = false
  all : ∀ x, st.present x = true → x ∈ deque

theorem State.present_iff {st : State S} {x : S} : st.present x = true ↔ x ∈ st.ids ∧
    (st.session x).requested = true ∧ (st.session x).ended = false ∧ (st.session x).kickout = false := by
  simp [State.present, and_assoc]

theorem State.recognised_iff {st : State S} {s : S} :
    st.recognised s = true ↔ s ∈ st.ids ∧ (st.session s).ended = false := by
  simp [State.recognised]

/-- In the deque, the live sessions are those that are logged in. -/
theorem Tracks.live_iff {st : State S} {deque : List S} (h : Tracks st deque) {x : S}
    (hx : x ∈ deque) : st.live x = true ↔ st.active x = true := by
  obtain ⟨h1, h2, h3⟩ := h.known x hx
  simp [State.live, h1, h2, h3]

theorem State.present_of_live {st : State S} {x : S} (h : st.live x = true) :
    st.present x = true := by
  simp only [State.live, State.active, Bool.and_eq_true, decide_eq_true_eq] at h
  simp only [State.present, Bool.and_eq_true, decide_eq_true_eq]
  exact ⟨⟨h.1.1, h.1.2.1⟩, h.2⟩

/-- The live sessions are counted by the deque. -/
theorem Tracks.liveCount {st : State S} {deque : List S} (h : Tracks st deque) :
    st.liveCount = (deque.filter st.active).length := by
  refine List.Perm.length_eq ?_
  rw [List.perm_ext_iff_of_nodup (h.idsNodup.filter _) (h.nodup.filter _)]
  intro x
  simp only [List.mem_filter]
  constructor
  · rintro ⟨-, hl⟩
    have hx := h.all x (State.present_of_live hl)
    exact ⟨hx, (h.live_iff hx).mp hl⟩
  · rintro ⟨hx, he⟩
    exact ⟨(h.known x hx).1, (h.live_iff hx).mpr he⟩

/-- All of the deque is live exactly if every session in it is logged in. -/
theorem Tracks.length_le_liveCount {st : State S} {deque : List S} (h : Tracks st deque) :
    deque.length ≤ st.liveCount ↔ ∀ x ∈ deque, st.active x = true := by
  have hle := List.length_filter_le st.active deque
  rw [h.liveCount]
  constructor
  · intro hge
    exact List.length_filter_eq_length_iff.mp (hle.antisymm hge)
  · intro hall
    exact (List.length_filter_eq_length_iff.mpr hall).ge

/-! ### One eviction -/

omit [DecidableEq S] in
/-- What `removeOne` takes from a deque that is not empty. -/
theorem removeOne_perm {after : Bool} {deque : List S} (h : deque ≠ []) :
    ∃ v rest, removeOne after deque = some (v, rest) ∧ deque.Perm (v :: rest) ∧
      (if after then deque.head? else deque.getLast?) = some v := by
  cases after with
  | true =>
    obtain ⟨v, rest, rfl⟩ := List.exists_cons_of_ne_nil h
    exact ⟨v, rest, rfl, .refl _, rfl⟩
  | false =>
    refine ⟨deque.getLast h, deque.dropLast, ?_, ?_, ?_⟩
    · simp [removeOne, List.getLast?_eq_some_getLast h]
    · conv_lhs => rw [← List.dropLast_append_getLast h]
      exact List.perm_append_singleton _ _
    · simp [List.getLast?_eq_some_getLast h]

theorem State.mark_session (st : State S) (v x : S) (hx : x ≠ v) :
    (st.mark v).session x = st.session x := by
  unfold State.mark
  split
  · rfl
  · exact Function.update_of_ne hx _ _

theorem State.mark_ids (st : State S) (v : S) : (st.mark v).ids = st.ids := by
  unfold State.mark
  split <;> rfl

/-- A session just evicted has ended or is kicked. -/
theorem State.mark_not_present (st : State S) (v : S) : (st.mark v).present v = false := by
  unfold State.mark State.present
  split
  · rename_i h
    simp [h]
  · simp [State.setSession]

/-- The evicted session leaves the deque, and nothing else changes in it. -/
theorem Tracks.evict {st : State S} {deque rest : List S} {v : S} (h : Tracks st deque)
    (hp : deque.Perm (v :: rest)) : Tracks (st.mark v) rest := by
  have hn := (List.perm_cons v |>.mpr (List.Perm.refl rest)).nodup_iff.mp (hp.nodup_iff.mp h.nodup)
  have hne : ∀ x ∈ rest, x ≠ v := fun x hx he => (List.nodup_cons.mp hn).1 (he ▸ hx)
  refine ⟨st.mark_ids v ▸ h.idsNodup, (List.nodup_cons.mp hn).2, fun x hx => ?_, fun x hx => ?_⟩
  · rw [st.mark_ids, st.mark_session v x (hne x hx)]
    exact h.known x (hp.mem_iff.mpr (List.mem_cons_of_mem v hx))
  · have hxv : x ≠ v := fun he => by rw [he, st.mark_not_present] at hx; cases hx
    have hl : st.present x = true := by
      rw [State.present_iff] at hx ⊢
      rwa [st.mark_ids, st.mark_session v x hxv] at hx
    exact (List.mem_cons.mp (hp.mem_iff.mp (h.all x hl))).resolve_left hxv

/-! ### The loop -/

theorem kickLoop_short (p : KickoutProperties) (st : State S) {deque : List S}
    (h : deque.length ≤ p.maxSession) : ∀ fuel, kickLoop p fuel st deque = (st, deque)
  | 0 => rfl
  | fuel + 1 => by rw [kickLoop, if_neg (by omega)]

theorem loopJustified_short (p : KickoutProperties) (st : State S) {deque : List S}
    (h : deque.length ≤ p.maxSession) : ∀ fuel, LoopJustified p fuel st deque
  | 0 => trivial
  | fuel + 1 => by rw [LoopJustified, if_neg (by omega)]; trivial

/-- One session too many: one eviction, and the loop is over. -/
theorem kickLoop_one (p : KickoutProperties) (st : State S) {deque rest : List S} {v : S}
    (hlen : deque.length = p.maxSession + 1) (hr : removeOne p.kickoutAfter deque = some (v, rest))
    (hrest : rest.length = p.maxSession) :
    kickLoop p deque.length st deque = (st.mark v, rest) ∧
      (LoopJustified p deque.length st deque ↔
        (st.live v = true → p.maxSession < st.liveCount)) := by
  rw [hlen, kickLoop, LoopJustified, if_pos (by omega), if_pos (by omega), hr]
  exact ⟨kickLoop_short p _ hrest.le _, and_iff_left (loopJustified_short p _ hrest.le _)⟩

/-! ### A request -/

theorem State.noteRequest_of_ne (st : State S) {s x : S} (h : x ≠ s) :
    (st.noteRequest s).session x = st.session x := Function.update_of_ne h _ _

theorem State.noteRequest_self (st : State S) (s : S) :
    (st.noteRequest s).session s = { st.session s with requested := true } :=
  Function.update_self _ _ _

theorem State.noteRequest_active (st : State S) (s x : S) :
    (st.noteRequest s).active x = st.active x := by
  unfold State.active
  by_cases h : x = s
  · rw [h, st.noteRequest_self]
  · rw [st.noteRequest_of_ne h]

theorem State.noteRequest_kickout (st : State S) (s x : S) :
    ((st.noteRequest s).session x).kickout = (st.session x).kickout := by
  by_cases h : x = s
  · rw [h, st.noteRequest_self]
  · rw [st.noteRequest_of_ne h]

theorem mem_pushed {st : State S} {deque : List S} {s x : S} (h : x ∈ pushed st deque s) :
    x ∈ deque ∨ x = s ∧ (st.session s).kickout = false := by
  unfold pushed at h
  split at h
  · rename_i hs
    rcases List.mem_cons.mp h with hx | hx
    · exact .inr ⟨hx, hs.2⟩
    · exact .inl hx
  · exact .inl h

theorem subset_pushed (st : State S) (deque : List S) (s : S) : deque ⊆ pushed st deque s := by
  unfold pushed
  split
  · exact List.subset_cons_self s deque
  · exact List.Subset.refl _

/-- The deque with the requesting session keeps track of the sessions present. -/
theorem Tracks.request {st : State S} {deque : List S} (h : Tracks st deque) {s : S}
    (hs : s ∈ st.ids) : Tracks (st.noteRequest s) (pushed (st.noteRequest s) deque s) := by
  refine ⟨h.idsNodup, ?_, fun x hx => ?_, fun x hx => ?_⟩
  · unfold pushed
    split
    · rename_i hn
      exact List.nodup_cons.mpr ⟨hn.1, h.nodup⟩
    · exact h.nodup
  · have hk := st.noteRequest_kickout s x
    rw [hk]
    rcases mem_pushed hx with hx | ⟨rfl, hf⟩
    · obtain ⟨h1, h2, h3⟩ := h.known x hx
      refine ⟨h1, ?_, h3⟩
      by_cases he : x = s
      · rw [he, st.noteRequest_self]
      · rw [st.noteRequest_of_ne he]; exact h2
    · rw [hk] at hf
      exact ⟨hs, by rw [st.noteRequest_self], hf⟩
  · obtain ⟨h1, h2, h3, h4⟩ := State.present_iff.mp hx
    by_cases he : x = s
    · subst he
      unfold pushed
      by_cases hm : x ∈ deque
      · rw [if_neg fun hc => hc.1 hm]; exact hm
      · rw [if_pos ⟨hm, h4⟩]; exact List.mem_cons_self
    · rw [st.noteRequest_of_ne he] at h2 h3 h4
      exact subset_pushed _ _ _ (h.all x (State.present_iff.mpr ⟨h1, h2, h3, h4⟩))

theorem Tracks.logout {st : State S} {deque : List S} (h : Tracks st deque) (s : S) :
    Tracks (st.logout s) deque := by
  have hk : ∀ x, ((st.logout s).session x).requested = (st.session x).requested ∧
      ((st.logout s).session x).kickout = (st.session x).kickout := by
    intro x
    unfold State.logout State.setSession
    by_cases he : x = s
    · subst he; simp
    · simp [he]
  refine ⟨h.idsNodup, h.nodup, fun x hx => ?_, fun x hx => h.all x ?_⟩
  · rw [(hk x).1, (hk x).2]
    exact h.known x hx
  · obtain ⟨h1, h2, h3, h4⟩ := State.present_iff.mp hx
    have hne : x ≠ s := fun he => by
      rw [he] at h3
      simp [State.logout, State.setSession] at h3
    have hsess : (st.logout s).session x = st.session x := Function.update_of_ne hne _ _
    rw [hsess] at h2 h3 h4
    exact State.present_iff.mpr ⟨h1, h2, h3, h4⟩

/-- Between the steps of a run the deque keeps track of the sessions present and
is within the limit. -/
structure Inv (p : KickoutProperties) (account : String) (st : State S) : Prop where
  tracks : Tracks st (dequeOf p account st)
  short : (dequeOf p account st).length ≤ p.maxSession

omit [DecidableEq S] in
/-- What `removeOne` takes when `s` joins the full deque. -/
theorem eq_evicted {p : KickoutProperties} {s v : S} {deque : List S}
    (hv : (if p.kickoutAfter then (s :: deque).head? else (s :: deque).getLast?) = some v) :
    v = evicted p deque s := by
  unfold evicted
  cases ha : p.kickoutAfter with
  | true =>
    rw [if_pos ha, List.head?_cons] at hv
    exact (Option.some.inj hv).symm
  | false =>
    rw [if_neg (by simp [ha]), List.getLast?_cons] at hv
    exact (Option.some.inj hv).symm

/-- The loop of a request, as the claim about it needs it: it ends with a
deque within the limit that keeps track of the sessions present, and it kicks
above the limit only exactly if the request fits. -/
def LoopSpec (p : KickoutProperties) (account : String) (st : State S) (s : S)
    (deque : List S) : Prop :=
  ∃ st' deque', kickLoop p deque.length (st.noteRequest s) deque = (st', deque') ∧
    Tracks st' deque' ∧ deque'.length ≤ p.maxSession ∧
    (LoopJustified p deque.length (st.noteRequest s) deque ↔ Fits p account st (.request s))

/-- A session joins a full deque, and one is evicted. -/
theorem Inv.loop_full {p : KickoutProperties} {account : String} {st : State S}
    (h : Inv p account st) {s : S} (hs : st.recognised s = true)
    (hnot : s ∉ dequeOf p account st) (hkick : (st.session s).kickout = false)
    (hfull : (dequeOf p account st).length = p.maxSession) :
    LoopSpec p account st s (s :: dequeOf p account st) := by
  have hids := (State.recognised_iff.mp hs).1
  have hpush : pushed (st.noteRequest s) (dequeOf p account st) s = s :: dequeOf p account st :=
    if_pos ⟨hnot, by rw [st.noteRequest_kickout]; exact hkick⟩
  have ht := h.tracks.request hids
  rw [hpush] at ht
  have hfits : Fits p account st (.request s) ↔
      (∀ x ∈ s :: dequeOf p account st, st.active x = true) ∨
        st.active (evicted p (dequeOf p account st) s) = false :=
    ⟨fun hf => hf hs hnot hkick hfull, fun hf _ _ _ _ => hf⟩
  set deque := dequeOf p account st
  have hlen : (s :: deque).length = p.maxSession + 1 := by rw [List.length_cons, hfull]
  obtain ⟨v, rest, hr, hperm, hv⟩ :=
    @removeOne_perm _ p.kickoutAfter (s :: deque) (List.cons_ne_nil s deque)
  have hrest : rest.length = p.maxSession := by
    have := hperm.length_eq
    rw [hlen, List.length_cons] at this
    omega
  obtain ⟨hloop, hone⟩ := kickLoop_one p (st.noteRequest s) hlen hr hrest
  refine ⟨_, rest, hloop, ht.evict hperm, hrest.le, ?_⟩
  -- the count is above the limit exactly if all of them are logged in
  have hcount : p.maxSession < (st.noteRequest s).liveCount ↔
      ∀ x ∈ s :: deque, st.active x = true := by
    have := ht.length_le_liveCount
    rw [hlen, Nat.add_one_le_iff] at this
    rw [this]
    simp only [State.noteRequest_active]
  have hvmem : v ∈ s :: deque := hperm.mem_iff.mpr List.mem_cons_self
  rw [hone, hcount, hfits, ht.live_iff hvmem, State.noteRequest_active, ← eq_evicted hv]
  cases st.active v <;> simp

theorem Inv.loop {p : KickoutProperties} {account : String} {st : State S} (h : Inv p account st)
    {s : S} (hs : st.recognised s = true) :
    LoopSpec p account st s (pushed (st.noteRequest s) (dequeOf p account st) s) := by
  have hk := st.noteRequest_kickout s s
  have ht := h.tracks.request (State.recognised_iff.mp hs).1
  by_cases hadd : s ∉ dequeOf p account st ∧ (st.session s).kickout = false
  · have hpush : pushed (st.noteRequest s) (dequeOf p account st) s = s :: dequeOf p account st :=
      if_pos ⟨hadd.1, hk.trans hadd.2⟩
    by_cases hfull : (dequeOf p account st).length = p.maxSession
    · rw [hpush]
      exact h.loop_full hs hadd.1 hadd.2 hfull
    · have hle : (pushed (st.noteRequest s) (dequeOf p account st) s).length ≤ p.maxSession := by
        have := h.short
        rw [hpush, List.length_cons]
        omega
      exact ⟨_, _, kickLoop_short p _ hle _, ht, hle,
        fun _ _ _ _ hf => (hfull hf).elim, fun _ => loopJustified_short p _ hle _⟩
  · have hpush : pushed (st.noteRequest s) (dequeOf p account st) s = dequeOf p account st :=
      if_neg (by rw [hk]; exact hadd)
    have hle : (pushed (st.noteRequest s) (dequeOf p account st) s).length ≤ p.maxSession := by
      rw [hpush]
      exact h.short
    exact ⟨_, _, kickLoop_short p _ hle _, ht, hle,
      fun _ _ hn hkf _ => (hadd ⟨hn, hkf⟩).elim, fun _ => loopJustified_short p _ hle _⟩

/-! ### Runs of the filters -/

omit [DecidableEq S] in
theorem dequeOf_writeBack (p : KickoutProperties) (account : String) (st : State S)
    (deque : List S) : dequeOf p account (writeBack p account st deque) = deque := by
  unfold dequeOf writeBack SpringShiroCache.get SpringShiroCache.put
  rw [AList.lookup_insert]
  rfl

theorem Inv.logout {p : KickoutProperties} {account : String} {st : State S}
    (h : Inv p account st) (s : S) : Inv p account (st.logout s) :=
  ⟨h.tracks.logout s, h.short⟩

theorem inv_request {p : KickoutProperties} {account : String} {st : State S}
    (h : Inv p account st) (s : S) : Inv p account (onAccessDenied p account st s).2 := by
  unfold onAccessDenied
  rw [isAuthenticated_or_isRemembered]
  by_cases hs : st.recognised s = true
  · rw [hs, Bool.not_true, if_neg Bool.false_ne_true]
    obtain ⟨st', deque', hloop, ht, hlen, -⟩ := h.loop hs
    have hback := dequeOf_writeBack p account st' deque'
    have hinv : Inv p account (writeBack p account st' deque') := by
      refine ⟨?_, hback.symm ▸ hlen⟩
      rw [hback]
      exact ⟨ht.idsNodup, ht.nodup, ht.known, ht.all⟩
    simp only [hloop]
    unfold leave
    split
    · exact hinv.logout s
    · exact hinv
  · rw [Bool.eq_false_of_not_eq_true hs, Bool.not_false, if_pos rfl]
    exact h

/-- A session with a new id has made no request yet. -/
theorem Inv.new {p : KickoutProperties} {account : String} {st : State S}
    (h : Inv p account st) {s : S} (hs : s ∉ st.ids) {x : Session} (hx : x.requested = false) :
    Inv p account { st.setSession s x with ids := s :: st.ids } := by
  have hsess : ∀ y, y ≠ s → (st.setSession s x).session y = st.session y :=
    fun y hy => Function.update_of_ne hy _ _
  have hnew : (st.setSession s x).session s = x := Function.update_self _ _ _
  refine ⟨⟨List.nodup_cons.mpr ⟨hs, h.tracks.idsNodup⟩, h.tracks.nodup, fun y hy => ?_,
    fun y hy => ?_⟩, h.short⟩
  · obtain ⟨h1, h2, h3⟩ := h.tracks.known y hy
    have hne : y ≠ s := fun he => hs (he ▸ h1)
    refine ⟨List.mem_cons_of_mem s h1, ?_, ?_⟩
    · show ((st.setSession s x).session y).requested = true
      rw [hsess y hne]; exact h2
    · show ((st.setSession s x).session y).kickout = false
      rw [hsess y hne]; exact h3
  · obtain ⟨h1, h2, h3, h4⟩ := State.present_iff.mp hy
    change ((st.setSession s x).session y).requested = true at h2
    change ((st.setSession s x).session y).ended = false at h3
    change ((st.setSession s x).session y).kickout = false at h4
    have hne : y ≠ s := fun he => by rw [he, hnew, hx] at h2; cases h2
    rw [hsess y hne] at h2 h3 h4
    exact h.tracks.all y (State.present_iff.mpr ⟨(List.mem_cons.mp h1).resolve_left hne, h2, h3, h4⟩)

/-- A remembered session logs in. -/
theorem Tracks.login {st : State S} {deque : List S} (h : Tracks st deque) (s : S) :
    Tracks (st.setSession s { st.session s with remembered := false }) deque := by
  have hk : ∀ x, ∃ r, (st.setSession s { st.session s with remembered := false }).session x =
      { st.session x with remembered := r } := by
    intro x
    by_cases he : x = s
    · subst he
      exact ⟨false, Function.update_self _ _ _⟩
    · exact ⟨(st.session x).remembered, Function.update_of_ne he _ _⟩
  refine ⟨h.idsNodup, h.nodup, fun x hx => ?_, fun x hx => h.all x ?_⟩
  · obtain ⟨r, hr⟩ := hk x
    rw [hr]
    exact h.known x hx
  · obtain ⟨r, hr⟩ := hk x
    rw [State.present_iff, hr] at hx
    exact State.present_iff.mpr hx

theorem inv_login {p : KickoutProperties} {account : String} {st : State S}
    (h : Inv p account st) (s : S) : Inv p account (st.login s) := by
  unfold State.login
  split
  · split
    · exact ⟨h.tracks.login s, h.short⟩
    · exact h
  · rename_i hs
    exact h.new hs rfl

theorem inv_remember {p : KickoutProperties} {account : String} {st : State S}
    (h : Inv p account st) (s : S) : Inv p account (st.remember s) := by
  unfold State.remember
  split
  · exact h
  · rename_i hs
    exact h.new hs rfl

theorem inv_step {p : KickoutProperties} {account : String} {st : State S}
    (h : Inv p account st) (e : Ev S) : Inv p account (step p account st e) := by
  cases e with
  | login s => exact inv_login h s
  | remember s => exact inv_remember h s
  | request s => exact inv_request h s
  | logout s =>
    show Inv p account (preHandle st s)
    unfold preHandle
    split
    · exact h.logout s
    · exact h

theorem Inv.justified_iff_fits {p : KickoutProperties} {account : String} {st : State S}
    (h : Inv p account st) (e : Ev S) : Justified p account st e ↔ Fits p account st e := by
  cases e with
  | login s => exact Iff.rfl
  | remember s => exact Iff.rfl
  | logout s => exact Iff.rfl
  | request s =>
    by_cases hs : st.recognised s = true
    · obtain ⟨-, -, -, -, -, hiff⟩ := h.loop hs
      exact ⟨fun hj => hiff.mp (hj hs), fun hf _ => hiff.mpr hf⟩
    · exact ⟨fun _ hc => (hs hc).elim, fun _ hc => (hs hc).elim⟩

/-- Nobody has logged in, Redis is empty. -/
def initial : State S := ⟨∅, [], fun _ => {}⟩

theorem inv_initial (p : KickoutProperties) (account : String) :
    Inv p account (initial : State S) := by
  have hd : dequeOf p account (initial : State S) = [] := by
    show ((∅ : Redis (List S)).lookup _).getD [] = []
    rw [AList.lookup_empty]
    rfl
  refine ⟨⟨List.nodup_nil, ?_, ?_, fun x hx => ?_⟩, ?_⟩
  · rw [hd]; exact List.nodup_nil
  · rw [hd]; simp
  · simp [State.present, initial] at hx
  · rw [hd]; simp

/-- **The filter kicks above the limit only**, along a run of logins, remembered
sessions, requests and logouts, exactly if every request of the run fits. -/
theorem justified_iff (p : KickoutProperties) (account : String) (es : List (Ev S)) :
    Along (step p account) (Justified p account) initial es ↔
      Along (step p account) (Fits p account) initial es :=
  have hiff : ∀ (st : State S) (e : Ev S), Inv p account st →
      (Justified p account st e ↔ Fits p account st e) := fun _ e h => h.justified_iff_fits e
  along_iff hiff (fun _ e h _ => inv_step h e) es (inv_initial p account)

/-- With room for two sessions, the sessions 1 and 2 make a request, 2 logs
out, and 3 makes its first request: 1 is kicked out although only 1 and 3 are
live. Where 2 stays and 3 is only remembered, 1 is kicked out too. -/
theorem kicked_within_limit :
    (¬ ∀ es : List (Ev ℕ), Along (step { maxSession := 2 } "lili")
      (Justified { maxSession := 2 } "lili") initial es) ∧
    ¬ Along (step { maxSession := 2 } "lili") (Justified { maxSession := 2 } "lili") initial
      [.login 1, .request 1, .login 2, .request 2, .remember 3, .request 3] := by
  refine ⟨fun h => ?_, fun h => ?_⟩
  · have hrun := h [.login 1, .request 1, .login 2, .request 2, .logout 2, .login 3, .request 3]
    obtain ⟨-, -, -, -, -, -, hlast, -⟩ := hrun
    have hover := (hlast (by decide)).1
    revert hover
    decide
  · obtain ⟨-, -, -, -, -, hlast, -⟩ := h
    have hover := (hlast (by decide)).1
    revert hover
    decide

end Kickout
end CloudManager
