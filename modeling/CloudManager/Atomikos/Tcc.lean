/-
# The TCC participants, and `newOrderWithTcc`

A participant keeps a record of each try, and a cancel or a confirm sets the state of
all records of its transaction, whatever it is. `Participants` takes the requests of
one transaction in any order; `NewOrder` has the initiator as well, whose requests,
and the coordinator's for it, reach a participant late, more than once or not at all.

The initiator cancels after any failure, also of a confirm that one participant has
carried out: `stable_of_orderly` says in which runs the records come to one outcome.
-/
import Mathlib.Data.Int.Notation
import Mathlib.Logic.Function.Basic
import CloudManager.Lib.Runs

namespace CloudManager
namespace Atomikos

open Runs

/-! ### The participants -/

inductive AtomikosTccState
  | ordered
  | confirmed
  | canceled
  deriving DecidableEq, Repr

/-- The two outcomes, one of them each. -/
def AtomikosTccState.Opposed : AtomikosTccState → AtomikosTccState → Prop
  | .confirmed, .canceled | .canceled, .confirmed => True
  | _, _ => False

instance : ∀ a b : AtomikosTccState, Decidable (a.Opposed b)
  | .confirmed, .canceled | .canceled, .confirmed => isTrue trivial
  | .ordered, _ | .confirmed, .ordered | .confirmed, .confirmed | .canceled, .ordered
  | .canceled, .canceled => isFalse id

/-- A row of `users_0` or of `item`; the other columns are the `body`. -/
structure Record (B : Type*) where
  body : B
  txId : String
  expireTime : ℤ
  state : AtomikosTccState

variable {B : Type*}

namespace IndexService

/-- `saveUser`, `saveItem`: an insert. -/
def save (records : List (Record B)) (r : Record B) : List (Record B) := records ++ [r]

/-- `updateUser`, `updateItem`: `updateByExampleSelective` where the `txId` is equal. -/
def update (records : List (Record B)) (txId : String) (state : AtomikosTccState) :
    List (Record B) :=
  records.map fun r => if r.txId = txId then { r with state := state } else r

end IndexService

/-- What a request asks of a participant. -/
inductive Operation
  | tryOperation
  | confirm
  | cancel
  deriving DecidableEq, Repr

/-- The state that it sets. -/
def Operation.outcome : Operation → Option AtomikosTccState
  | .tryOperation => none
  | .confirm => some .confirmed
  | .cancel => some .canceled

namespace TccParticipantController

/-- `executeTry` of both participants, at the time `now`. -/
def executeTry (records : List (Record B)) (txId : String) (body : B) (now : ℤ) :
    List (Record B) :=
  IndexService.save records ⟨body, txId, now + 30, .ordered⟩

def executeCancel (records : List (Record B)) (txId : String) : List (Record B) :=
  IndexService.update records txId .canceled

def executeConfirm (records : List (Record B)) (txId : String) : List (Record B) :=
  IndexService.update records txId .confirmed

end TccParticipantController

inductive Participant
  | user
  | item
  deriving DecidableEq, Repr

def Participant.other : Participant → Participant
  | .user => .item
  | .item => .user

namespace UserController

def executeTry (records : List (Record B)) (txId : String) (body : B) (now : ℤ) :
    List (Record B) :=
  TccParticipantController.executeTry records txId body now

def executeCancel (records : List (Record B)) (txId : String) : List (Record B) :=
  TccParticipantController.executeCancel records txId

def executeConfirm (records : List (Record B)) (txId : String) : List (Record B) :=
  TccParticipantController.executeConfirm records txId

end UserController

namespace ItemController

def executeTry (records : List (Record B)) (txId : String) (body : B) (now : ℤ) :
    List (Record B) :=
  TccParticipantController.executeTry records txId body now

def executeCancel (records : List (Record B)) (txId : String) : List (Record B) :=
  TccParticipantController.executeCancel records txId

def executeConfirm (records : List (Record B)) (txId : String) : List (Record B) :=
  TccParticipantController.executeConfirm records txId

end ItemController

/-- The execution of a request: its body and time are those of a try; `works`: the
database does what it is told. -/
structure Execution (B : Type*) where
  participant : Participant
  operation : Operation
  body : B
  now : ℤ
  works : Bool

namespace TccParticipantController

/-- What the participant's `executeTry`, `executeConfirm` or `executeCancel` makes of its
records, with the status of its answer. -/
def execute (records : List (Record B)) (txId : String) (e : Execution B) :
    ℕ × List (Record B) :=
  match e.participant, e.operation with
  | .user, .tryOperation => (201, UserController.executeTry records txId e.body e.now)
  | .user, .confirm => (202, UserController.executeConfirm records txId)
  | .user, .cancel => (202, UserController.executeCancel records txId)
  | .item, .tryOperation => (201, ItemController.executeTry records txId e.body e.now)
  | .item, .confirm => (202, ItemController.executeConfirm records txId)
  | .item, .cancel => (202, ItemController.executeCancel records txId)

/-- `tryOperation`, `confirm` and `cancel`: an exception is a 404. -/
def handle (records : List (Record B)) (txId : String) (e : Execution B) :
    ℕ × List (Record B) :=
  if e.works then execute records txId e else (404, records)

end TccParticipantController

open TccParticipantController

/-- The records of both, and where a cancel has been carried out. -/
structure Participants (B : Type*) where
  records : Participant → List (Record B)
  canceled : Participant → Bool := fun _ => false

namespace Participants

variable (txId : String)

def perform (s : Participants B) (e : Execution B) : Participants B where
  records := Function.update s.records e.participant (handle (s.records e.participant) txId e).2
  canceled :=
    if e.works ∧ e.operation = .cancel then Function.update s.canceled e.participant true
    else s.canceled

/-- A request for the transaction, at any time. -/
def step (s : Participants B) (e : Execution B) : Option (Participants B) := some (perform txId s e)

/-! ### What is asked of the records -/

/-- No record goes from one outcome to the other. -/
def Final (s s' : Participants B) : Prop :=
  ∀ (p : Participant) (i : ℕ) (r r' : Record B), (s.records p)[i]? = some r →
    (s'.records p)[i]? = some r' → r.txId = txId → ¬ r.state.Opposed r'.state

/-- Where a cancel has been carried out no record is left ORDERED. -/
def NoneOrdered (s : Participants B) : Prop :=
  ∀ p, s.canceled p = true → ∀ r ∈ s.records p, r.txId = txId → r.state ≠ .ordered

/-- No record is CONFIRMED with one of the other participant CANCELED. -/
def Agree (s : Participants B) : Prop :=
  ∀ p, ∀ r ∈ s.records p, ∀ r' ∈ s.records p.other, r.txId = txId → r'.txId = txId →
    ¬ r.state.Opposed r'.state

/-- No record of the participant has the outcome opposed to this one. -/
def Clear (s : Participants B) (o : AtomikosTccState) (p : Participant) : Prop :=
  ∀ r ∈ s.records p, r.txId = txId → ¬ r.state.Opposed o

instance (s : Participants B) (o : AtomikosTccState) (p : Participant) :
    Decidable (s.Clear txId o p) :=
  inferInstanceAs (Decidable (∀ r ∈ s.records p, r.txId = txId → ¬ r.state.Opposed o))

/-- What a request that sets no outcome, or this one, must find. -/
def Ready (s : Participants B) (p : Participant) : Option AtomikosTccState → Prop
  | none => s.canceled p = false
  | some o => s.Clear txId o p

instance (s : Participants B) (p : Participant) : ∀ o, Decidable (s.Ready txId p o)
  | none => inferInstanceAs (Decidable (s.canceled p = false))
  | some o => inferInstanceAs (Decidable (s.Clear txId o p))

/-- A try is not carried out after a cancel; a confirm is not carried out on a
CANCELED record, nor a cancel on a CONFIRMED one. -/
def Fits (s : Participants B) (e : Execution B) : Prop :=
  e.works = true → s.Ready txId e.participant e.operation.outcome

/-- Nor where there is such a record at the other participant. -/
def FitsOther (s : Participants B) (e : Execution B) : Prop :=
  e.works = true → ∀ o ∈ e.operation.outcome, (∃ r ∈ s.records e.participant, r.txId = txId) →
    s.Clear txId o e.participant.other

instance (s : Participants B) (e : Execution B) : Decidable (s.Fits txId e) :=
  inferInstanceAs (Decidable (e.works = true → s.Ready txId e.participant e.operation.outcome))

instance (s : Participants B) (e : Execution B) : Decidable (s.FitsOther txId e) :=
  inferInstanceAs (Decidable (e.works = true → ∀ o ∈ e.operation.outcome,
    (∃ r ∈ s.records e.participant, r.txId = txId) → s.Clear txId o e.participant.other))

/-! ### What a request does -/

variable {txId} {s s' : Participants B} {e : Execution B} {o : AtomikosTccState}

theorem perform_fails (hw : e.works = false) : s.perform txId e = s := by
  simp [perform, handle, hw]

theorem perform_try (txId : String) (s : Participants B) (hw : e.works = true)
    (ho : e.operation.outcome = none) :
    (s.perform txId e).records = Function.update s.records e.participant
        (s.records e.participant ++ [⟨e.body, txId, e.now + 30, .ordered⟩]) ∧
      (s.perform txId e).canceled = s.canceled := by
  obtain ⟨p, operation, body, now, works⟩ := e
  cases hw
  cases operation <;> cases ho
  cases p <;> exact ⟨rfl, rfl⟩

theorem perform_outcome (txId : String) (s : Participants B) (hw : e.works = true)
    (ho : e.operation.outcome = some o) :
    (s.perform txId e).records = Function.update s.records e.participant
        (IndexService.update (s.records e.participant) txId o) ∧
      (s.perform txId e).canceled =
        if o = .canceled then Function.update s.canceled e.participant true else s.canceled := by
  obtain ⟨p, operation, body, now, works⟩ := e
  cases hw
  cases operation <;> cases ho <;> cases p <;> exact ⟨rfl, rfl⟩

theorem outcome_cases {operation : Operation} (ho : operation.outcome = some o) :
    o = .confirmed ∨ o = .canceled := by
  cases operation <;> cases ho
  · exact .inl rfl
  · exact .inr rfl

theorem mem_update {records : List (Record B)} {r : Record B}
    (h : r ∈ IndexService.update records txId o) :
    r ∈ records ∧ r.txId ≠ txId ∨
      ∃ r₀ ∈ records, r₀.txId = txId ∧ r = { r₀ with state := o } := by
  obtain ⟨r₀, hr₀, rfl⟩ := List.mem_map.mp h
  by_cases ht : r₀.txId = txId
  · exact .inr ⟨r₀, hr₀, ht, if_pos ht⟩
  · simp only [if_neg ht]
    exact .inl ⟨hr₀, ht⟩

theorem eq_of_not_opposed : ∀ {a b : AtomikosTccState}, ¬ a.Opposed b → a ≠ .ordered →
    b ≠ .ordered → b = a
  | .ordered, _, _, ha, _ => (ha rfl).elim
  | _, .ordered, _, _, hb => (hb rfl).elim
  | .confirmed, .confirmed, _, _, _ | .canceled, .canceled, _, _, _ => rfl
  | .confirmed, .canceled, h, _, _ | .canceled, .confirmed, h, _, _ => (h trivial).elim

theorem opposed_comm : ∀ {a b : AtomikosTccState}, a.Opposed b ↔ b.Opposed a
  | .confirmed, .canceled | .canceled, .confirmed | .ordered, .ordered
  | .ordered, .confirmed | .ordered, .canceled | .confirmed, .ordered | .canceled, .ordered
  | .confirmed, .confirmed | .canceled, .canceled => Iff.rfl

/-! ### Single steps -/

/-- Every record is still there, and keeps the outcome that it has. -/
def Kept (txId : String) (s s' : Participants B) : Prop :=
  ∀ (p : Participant) (i : ℕ) (r : Record B), (s.records p)[i]? = some r → r.txId = txId →
    ∃ r', (s'.records p)[i]? = some r' ∧ r'.txId = txId ∧
      (r.state ≠ .ordered → r'.state = r.state)

theorem Kept.refl : Kept txId s s := fun _ _ r hr ht => ⟨r, hr, ht, fun _ => rfl⟩

theorem Kept.trans {s'' : Participants B} (h : Kept txId s s') (h' : Kept txId s' s'') :
    Kept txId s s'' := by
  intro p i r hr ht
  obtain ⟨r', hr', ht', hs'⟩ := h p i r hr ht
  obtain ⟨r'', hr'', ht'', hs''⟩ := h' p i r' hr' ht'
  refine ⟨r'', hr'', ht'', fun hs => ?_⟩
  rw [hs'' (by rwa [hs' hs]), hs' hs]

theorem Kept.final (h : Kept txId s s') : s.Final txId s' := by
  intro p i r r' hr hr' ht hop
  obtain ⟨r'', hr'', -, hs⟩ := h p i r hr ht
  obtain rfl : r'' = r' := Option.some.inj (hr''.symm.trans hr')
  have hne : r.state ≠ .ordered := by
    intro ho
    rw [ho] at hop
    exact hop
  rw [hs hne] at hop
  revert hop
  cases r.state <;> exact id

theorem kept_perform (h : s.Fits txId e) : Kept txId s (s.perform txId e) := by
  cases hw : e.works with
  | false =>
    rw [perform_fails hw]
    exact .refl
  | true =>
    have hfits := h hw
    cases ho : e.operation.outcome with
    | none =>
      intro p i r hr ht
      refine ⟨r, ?_, ht, fun _ => rfl⟩
      rw [(perform_try _ _ hw ho).1]
      by_cases hp : p = e.participant
      · subst hp
        rw [Function.update_self, List.getElem?_append_left (List.getElem?_eq_some_iff.mp hr).1, hr]
      · rw [Function.update_of_ne hp, hr]
    | some o =>
      rw [ho] at hfits
      intro p i r hr ht
      by_cases hp : p = e.participant
      · subst hp
        refine ⟨{ r with state := o }, ?_, ht, fun hs => ?_⟩
        · rw [(perform_outcome _ _ hw ho).1, Function.update_self, IndexService.update,
            List.getElem?_map, hr]
          simp [ht]
        · refine eq_of_not_opposed (hfits r (List.mem_of_getElem? hr) ht) hs ?_
          obtain rfl | rfl := outcome_cases ho <;> simp
      · refine ⟨r, ?_, ht, fun _ => rfl⟩
        rw [(perform_outcome _ _ hw ho).1, Function.update_of_ne hp, hr]

/-- An update keeps the outcomes only of records that have none opposed to it. -/
theorem clear_of_final (hw : e.works = true) (ho : e.operation.outcome = some o)
    (h : s.Final txId (s.perform txId e)) : s.Clear txId o e.participant := by
  intro r hr ht
  obtain ⟨i, hi⟩ := List.mem_iff_getElem?.mp hr
  refine h e.participant i r { r with state := o } hi ?_ ht
  rw [(perform_outcome _ _ hw ho).1, Function.update_self, IndexService.update, List.getElem?_map, hi]
  simp [ht]

/-- What one request may do to a participant whose cancels have left nothing ORDERED. -/
theorem fits_iff (h : s.NoneOrdered txId) :
    s.Final txId (s.perform txId e) ∧ (s.perform txId e).NoneOrdered txId ↔ s.Fits txId e := by
  cases hw : e.works with
  | false => simp [perform_fails hw, Fits, hw, h, Kept.refl.final]
  | true =>
    cases ho : e.operation.outcome with
    | none =>
      obtain ⟨hr, hc⟩ := perform_try txId s hw ho
      constructor
      · rintro ⟨-, hn⟩ -
        rw [ho]
        by_contra hcanceled
        have hcanceled' : s.canceled e.participant = true := by simpa [Ready] using hcanceled
        refine hn e.participant (by rwa [hc]) ⟨e.body, txId, e.now + 30, .ordered⟩ ?_ rfl rfl
        simp [hr]
      · intro hf
        refine ⟨(kept_perform hf).final, fun p hp r hrp ht => ?_⟩
        have hfree := hf hw
        rw [ho] at hfree
        rw [hc] at hp
        have hne : p ≠ e.participant := by
          rintro rfl
          exact Bool.false_ne_true (hfree.symm.trans hp)
        rw [hr, Function.update_of_ne hne] at hrp
        exact h p hp r hrp ht
    | some o =>
      obtain ⟨hr, hc⟩ := perform_outcome txId s hw ho
      constructor
      · rintro ⟨hf, -⟩ -
        rw [ho]
        exact clear_of_final hw ho hf
      · intro hf
        refine ⟨(kept_perform hf).final, fun p hp r hrp ht => ?_⟩
        by_cases hpe : p = e.participant
        · subst hpe
          rw [hr, Function.update_self] at hrp
          obtain ⟨-, hne⟩ | ⟨r₀, -, -, rfl⟩ := mem_update hrp
          · exact (hne ht).elim
          · obtain rfl | rfl := outcome_cases ho <;> simp
        · rw [hr, Function.update_of_ne hpe] at hrp
          refine h p ?_ r hrp ht
          rw [hc] at hp
          split at hp
          · rwa [Function.update_of_ne hpe] at hp
          · exact hp

/-- It is enough to look from one of the two. -/
theorem agree_iff_at (p : Participant) :
    s.Agree txId ↔ ∀ r ∈ s.records p, ∀ r' ∈ s.records p.other, r.txId = txId → r'.txId = txId →
      ¬ r.state.Opposed r'.state := by
  refine ⟨fun h => h p, fun h q r hr r' hr' ht ht' => ?_⟩
  by_cases hq : q = p
  · subst hq
    exact h r hr r' hr' ht ht'
  · have hp : q = p.other ∧ q.other = p := by
      revert hq
      cases p <;> cases q <;> simp [Participant.other]
    obtain ⟨rfl, hp⟩ := hp
    rw [hp] at hr'
    rw [opposed_comm]
    exact h r' hr' r hr ht' ht

/-- What one request may do to participants that agree. -/
theorem agree_iff (h : s.Agree txId) :
    (s.perform txId e).Agree txId ↔ s.FitsOther txId e := by
  have hne : e.participant.other ≠ e.participant := by cases e.participant <;> simp [Participant.other]
  cases hw : e.works with
  | false => simp [perform_fails hw, FitsOther, hw, h]
  | true =>
    cases ho : e.operation.outcome with
    | none =>
      refine ⟨fun _ _ o ho' => by simp [ho] at ho', fun _ => (agree_iff_at e.participant).mpr ?_⟩
      rw [(perform_try _ _ hw ho).1, Function.update_self, Function.update_of_ne hne]
      intro r hr r' hr' ht ht'
      obtain hr | hr := List.mem_append.mp hr
      · exact h e.participant r hr r' hr' ht ht'
      · obtain rfl := List.mem_singleton.mp hr
        exact id
    | some o =>
      rw [agree_iff_at e.participant, (perform_outcome _ _ hw ho).1, Function.update_self,
        Function.update_of_ne hne]
      constructor
      · rintro hn - o' ho' ⟨r₀, hr₀, ht₀⟩ r hr ht
        obtain rfl : o = o' := by simpa [ho] using ho'
        rw [opposed_comm]
        refine hn { r₀ with state := o } (List.mem_map.mpr ⟨r₀, hr₀, if_pos ht₀⟩) r hr ht₀ ht
      · intro hf r hr r' hr' ht ht'
        obtain ⟨-, hne'⟩ | ⟨r₀, hr₀, ht₀, rfl⟩ := mem_update hr
        · exact (hne' ht).elim
        · rw [opposed_comm]
          exact hf hw o ho ⟨r₀, hr₀, ht₀⟩ r' hr' ht'

/-! ### Runs of requests -/

theorem start_none (records : Participant → List (Record B)) :
    ({ records := records } : Participants B).NoneOrdered txId := nofun

theorem noneOrdered_of_reach {records : Participant → List (Record B)}
    (h : Reach (step txId) (Fits txId) { records := records } s) : s.NoneOrdered txId := by
  refine h.invariant (start_none records) fun s e s' hi hok he => ?_
  obtain rfl := Option.some.inj he
  exact ((fits_iff hi).mpr hok).2

theorem kept_of_reach (h : Reach (step txId) (Fits txId) s s') : Kept txId s s' := by
  induction h with
  | init => exact .refl
  | step _ hok he ih =>
    obtain rfl := Option.some.inj he
    exact ih.trans (kept_perform hok)

end Participants

/-! ### The initiator -/

/-- Where `newOrderWithTcc` is: the answer that it waits for. -/
inductive Pc
  | start
  | tryUser
  | tryItem
  | confirm
  | cancel
  | returned
  | thrown
  deriving DecidableEq, Repr

/-- The initiator with its requests, and those that the coordinator forwards for it:
each may be carried out at any time from now on, any number of times or never. -/
structure NewOrder (B : Type*) where
  participants : Participants B
  pc : Pc := .start
  sent : List (Participant × Operation) := []
  /-- The participants that have answered a try with success. -/
  tried : List Participant := []

namespace NewOrder

inductive Event (B : Type*)
  | begin
  | execute (e : Execution B)
  /-- The initiator gets its answer, a success or a failure. -/
  | answer (ok : Bool)

/-- The next request of the initiator. -/
def send (s : NewOrder B) (pc : Pc) (requests : List (Participant × Operation)) : NewOrder B :=
  { s with pc := pc, sent := requests ++ s.sent }

variable (txId : String) (body : Participant → B)

/-- A success of a try has been carried out; of the coordinator's answers nothing is
known. -/
def step (s : NewOrder B) : Event B → Option (NewOrder B)
  | .begin =>
    match s.pc with
    | .start => some (s.send .tryUser [(.user, .tryOperation)])
    | _ => none
  | .execute e =>
    if (e.participant, e.operation) ∈ s.sent then
      some { s with
        participants := s.participants.perform txId { e with body := body e.participant }
        tried :=
          if e.works ∧ e.operation = .tryOperation then e.participant :: s.tried else s.tried }
    else none
  | .answer ok =>
    match s.pc, ok with
    | .tryUser, true =>
      if .user ∈ s.tried then some (s.send .tryItem [(.item, .tryOperation)]) else none
    | .tryItem, true =>
      if .item ∈ s.tried then some (s.send .confirm [(.user, .confirm), (.item, .confirm)]) else none
    | .confirm, true => some { s with pc := .returned }
    | .tryUser, false | .tryItem, false | .confirm, false =>
      some (s.send .cancel [(.user, .cancel), (.item, .cancel)])
    | .cancel, _ => some { s with pc := .thrown }
    | _, _ => none

/-! ### Runs of the initiator -/

/-- The condition on the requests that are carried out. -/
def Orderly (s : NewOrder B) : Event B → Prop
  | .execute e => s.participants.Fits txId e ∧ s.participants.FitsOther txId e
  | .begin | .answer _ => True

instance (s : NewOrder B) : ∀ e, Decidable (s.Orderly txId e)
  | .execute e => inferInstanceAs (Decidable (s.participants.Fits txId e ∧
      s.participants.FitsOther txId e))
  | .begin | .answer _ => isTrue trivial

variable {txId body} {s s' : NewOrder B}

/-- A step carries one request out, or none. -/
theorem step_participants {e : Event B} (h : step txId body s e = some s') :
    (∃ x, e = .execute x ∧
        s'.participants = s.participants.perform txId { x with body := body x.participant }) ∨
      (∀ x, e ≠ .execute x) ∧ s'.participants = s.participants := by
  cases e with
  | begin =>
    simp only [step] at h
    split at h <;> cases h
    exact .inr ⟨nofun, rfl⟩
  | execute x =>
    simp only [step] at h
    split at h <;> cases h
    exact .inl ⟨x, rfl, rfl⟩
  | answer ok =>
    refine .inr ⟨nofun, ?_⟩
    simp only [step] at h
    split at h
    · split at h <;> cases h
      rfl
    · split at h <;> cases h
      rfl
    all_goals cases h <;> rfl

/-- The participants of an orderly run make an orderly run of their own. -/
theorem reach_participants (h : Reach (step txId body) (Orderly txId) s s') :
    Reach (Participants.step txId) (Participants.Fits txId) s.participants s'.participants := by
  induction h with
  | init => exact .init
  | @step s₁ s₂ e _ hok he ih =>
    obtain ⟨x, rfl, hx⟩ | ⟨-, hx⟩ := step_participants he
    · rw [hx]
      exact ih.step (e := { x with body := body x.participant }) hok.1 rfl
    · rw [hx]
      exact ih

theorem agree_of_reach {records : Participant → List (Record B)}
    (h0 : ∀ p, ∀ r ∈ records p, r.txId ≠ txId)
    (h : Reach (step txId body) (Orderly txId) { participants := { records := records } } s) :
    s.participants.Agree txId := by
  refine h.invariant (I := fun s => s.participants.Agree txId)
    (fun p r hr _ _ ht _ => (h0 p r hr ht).elim) fun s e s' hi hok he => ?_
  obtain ⟨x, rfl, hx⟩ | ⟨-, hx⟩ := step_participants he
  · rw [hx]
    exact (Participants.agree_iff hi).mpr hok.2
  · rw [hx]
    exact hi

end NewOrder

/-- **One outcome.** As long as the requests that are carried out fit: in any order of
requests no record goes from one outcome to the other, and a cancel leaves nothing
ORDERED; in the runs of `newOrderWithTcc` the participants agree as well. The first
request that does not fit breaks this. -/
theorem stable_of_orderly (txId : String) (records : Participant → List (Record B))
    (h0 : ∀ p, ∀ r ∈ records p, r.txId ≠ txId) :
    (∀ s : Participants B,
      Reach (Participants.step txId) (Participants.Fits txId) { records := records } s →
        s.NoneOrdered txId ∧
        (∀ s', Reach (Participants.step txId) (Participants.Fits txId) s s' → s.Final txId s') ∧
        ∀ e, s.Final txId (s.perform txId e) ∧ (s.perform txId e).NoneOrdered txId ↔
          s.Fits txId e) ∧
    ∀ (body : Participant → B) (s : NewOrder B),
      Reach (NewOrder.step txId body) (NewOrder.Orderly txId)
          { participants := { records := records } } s →
        s.participants.NoneOrdered txId ∧ s.participants.Agree txId ∧
        (∀ s', Reach (NewOrder.step txId body) (NewOrder.Orderly txId) s s' →
          s.participants.Final txId s'.participants) ∧
        ∀ e s', NewOrder.step txId body s e = some s' →
          (s.participants.Final txId s'.participants ∧ s'.participants.NoneOrdered txId ∧
            s'.participants.Agree txId ↔ s.Orderly txId e) := by
  constructor
  · intro s h
    have hn := Participants.noneOrdered_of_reach h
    exact ⟨hn, fun s' h' => (Participants.kept_of_reach h').final,
      fun e => Participants.fits_iff hn⟩
  · intro body s h
    have hn := Participants.noneOrdered_of_reach (NewOrder.reach_participants h)
    have ha := NewOrder.agree_of_reach h0 h
    refine ⟨hn, ha, fun s' h' =>
      (Participants.kept_of_reach (NewOrder.reach_participants h')).final, fun e s' he => ?_⟩
    obtain ⟨x, rfl, hx⟩ | ⟨hne, hx⟩ := NewOrder.step_participants he
    · rw [hx, ← and_assoc, Participants.fits_iff hn, Participants.agree_iff ha]
      exact Iff.rfl
    · rw [hx]
      have ho : s.Orderly txId e := by
        cases e with
        | execute x => exact (hne x rfl).elim
        | _ => trivial
      exact iff_of_true ⟨Participants.Kept.refl.final, hn, ha⟩ ho

/-! ### Runs of one order -/

/-- A request to the participant that is carried out. -/
def doneAt (p : Participant) (operation : Operation) : Execution ℕ :=
  ⟨p, operation, 0, 0, true⟩

/-- Both tries succeed, and the coordinator confirms. -/
def ordering : List (NewOrder.Event ℕ) :=
  [.begin, .execute (doneAt .user .tryOperation), .answer true,
    .execute (doneAt .item .tryOperation), .answer true, .execute (doneAt .user .confirm)]

theorem stable_ordering :
    ((runWith (Participants.step "1") (Participants.Fits "1") { records := fun _ => [] }
      [doneAt .user .cancel]).get (by decide)).NoneOrdered "1" ∧
    ((runWith (NewOrder.step "1" fun _ => 0) (NewOrder.Orderly "1")
      { participants := { records := fun _ => [] } }
      (ordering ++ [.execute (doneAt .item .confirm), .answer true])).get
        (by decide)).participants.Agree "1" :=
  have h := stable_of_orderly (B := ℕ) "1" (fun _ => []) (by simp)
  ⟨(h.1 _ (reach_get [doneAt .user .cancel] (by decide))).1,
    (h.2 (fun _ => 0) _ (reach_get (ordering ++ [.execute (doneAt .item .confirm), .answer true])
      (by decide))).2.1⟩

/-- A cancel overwrites a confirm, a late try stays, and of an order whose confirm
fails at one participant the other one's record is CONFIRMED and its own CANCELED. -/
theorem outcomes_mixed :
    (¬ ∀ s s' : Participants ℕ,
      Reach (Participants.step "1") (fun _ _ => True) { records := fun _ => [] } s →
        Reach (Participants.step "1") (fun _ _ => True) s s' → s.Final "1" s') ∧
    (¬ ∀ s : Participants ℕ,
      Reach (Participants.step "1") (fun _ _ => True) { records := fun _ => [] } s →
        s.NoneOrdered "1") ∧
    ¬ ∀ s : NewOrder ℕ, Reach (NewOrder.step "1" fun _ => 0) (fun _ _ => True)
      { participants := { records := fun _ => [] } } s → s.participants.Agree "1" := by
  refine ⟨fun h => ?_, fun h => ?_, fun h => ?_⟩
  · exact h _ _ (reach_get [doneAt .user .tryOperation, doneAt .user .confirm] (by decide))
      (reach_get [doneAt .user .cancel] (by decide)) .user 0 ⟨0, "1", 30, .confirmed⟩
      ⟨0, "1", 30, .canceled⟩ rfl rfl rfl trivial
  · exact h _ (reach_get [doneAt .user .cancel, doneAt .user .tryOperation] (by decide)) .user
      rfl ⟨0, "1", 30, .ordered⟩ (List.mem_singleton.mpr rfl) rfl rfl
  · exact h _ (reach_get (ordering ++ [.answer false, .execute (doneAt .item .cancel)])
      (by decide)) .user ⟨0, "1", 30, .confirmed⟩ (List.mem_singleton.mpr rfl)
      ⟨0, "1", 30, .canceled⟩ (List.mem_singleton.mpr rfl) rfl rfl trivial

end Atomikos
end CloudManager
