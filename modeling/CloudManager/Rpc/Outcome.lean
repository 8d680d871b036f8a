/-
# What a call returns of its execution

The server's task (`MessageRecvInitializeTask`) answers a request with the result
of the method, or with the message of the exception. The caller returns the
result field of the response it finds in its callback, and null without one: of
an exception it tells nothing. `reports_iff` says when the caller gets the
outcome of the execution.
-/
import CloudManager.Rpc.Matching


namespace CloudManager
namespace Rpc

open Runs

variable {κ A B V : Type*} [DecidableEq κ]

/-! ### The server's task -/

/-- A value that may be null, or an exception with its message, which may be null
too. -/
abbrev Outcome (V : Type*) := Except (Option String) (Option V)

namespace MessageRecvInitializeTask

/-- What Spring and reflection answer a task: `getBean(Class.forName(className))`,
and `MethodUtils.invokeMethod` on a bean. -/
structure Answers (A B V : Type*) where
  getBean : String → Except (Option String) B
  invokeMethod : B → String → A → Outcome V

/-- `resolveBean` after its first look into `BEAN_MAP`, which gave `seen`. Where
another task has put the bean in between, it stays null. -/
def resolveBean (x : Answers A B V) (beanMap : String → Option B) (seen : Option B)
    (className : String) : Except (Option String) (Option B) × (String → Option B) :=
  match seen with
  | some serviceBean => (.ok (some serviceBean), beanMap)
  | none =>
    match beanMap className with
    | some _ => (.ok none, beanMap)
    | none =>
      match x.getBean className with
      | .error message => (.error message, beanMap)
      | .ok bean => (.ok (some bean), Function.update beanMap className (some bean))

/-- A method of null is a `NullPointerException`. -/
def reflect (x : Answers A B V) (beanMap : String → Option B) (seen : Option B)
    (request : MessageRequest A) : Outcome V × (String → Option B) :=
  let (bean, beanMap) := resolveBean x beanMap seen request.className
  (bean.bind fun
    | some serviceBean => x.invokeMethod serviceBean request.methodName request.parameters
    | none => .error none, beanMap)

/-- `run` after `reflect`: the response that is written. -/
def answer (request : MessageRequest A) : Outcome V → MessageResponse V
  | .ok result => { messageId := request.messageId, result := result }
  | .error message => { messageId := request.messageId, error := message }

end MessageRecvInitializeTask

open MessageRecvInitializeTask

/-! ### Client and server -/

/-- The requests of the calls; their ids are random UUIDs. -/
structure Requests (κ A : Type*) where
  request : κ → MessageRequest A
  distinct : Function.Injective fun c => (request c).messageId

def Requests.messageId (q : Requests κ A) (c : κ) : String := (q.request c).messageId

/-- Where the request of a call is. -/
inductive Task (B V : Type*)
  | unsent
  /-- Written; the first look into `BEAN_MAP` is next. -/
  | sent
  | looked (seen : Option B)
  /-- The response is under way. -/
  | responded (outcome : Outcome V)
  | arrived (outcome : Outcome V)

/-- The outcome of the execution, once there is one. -/
def Task.outcome : Task B V → Option (Outcome V)
  | .responded outcome | .arrived outcome => some outcome
  | _ => none

def Task.hasArrived : Task B V → Bool
  | .arrived _ => true
  | _ => false

structure System (κ B V : Type*) where
  client : Client κ V := {}
  /-- `BEAN_MAP`. -/
  beanMap : String → Option B := fun _ => none
  task : κ → Task B V := fun _ => .unsent

namespace System

inductive Event (κ A B V : Type*)
  /-- A step of the client, where no response arrives. -/
  | client (e : Rpc.Event κ V)
  | look (c : κ)
  | run (c : κ) (answers : Answers A B V)
  /-- The response of the call's request arrives. -/
  | arrive (c : κ)

variable (q : Requests κ A)

def setTask (s : System κ B V) (c : κ) (t : Task B V) : System κ B V :=
  { s with task := Function.update s.task c t }

/-- The tasks after a step of the client: a request that is written is sent. -/
def sent (s : System κ B V) : Rpc.Event κ V → κ → Task B V
  | .act c .write => if s.client.active then Function.update s.task c .sent else s.task
  | _ => s.task

def step (s : System κ B V) : Event κ A B V → Option (System κ B V)
  | .client (.arrive _) => none
  | .client e => (s.client.step q.messageId e).map fun client =>
    { s with client := client, task := s.sent e }
  | .look c =>
    match s.task c with
    | .sent => some (s.setTask c (.looked (s.beanMap (q.request c).className)))
    | _ => none
  | .run c answers =>
    match s.task c with
    | .looked seen =>
      let (outcome, beanMap) := reflect answers s.beanMap seen (q.request c)
      some { s.setTask c (.responded outcome) with beanMap := beanMap }
    | _ => none
  | .arrive c =>
    match s.task c with
    | .responded outcome =>
      (s.client.step q.messageId (.arrive (answer (q.request c) outcome))).map fun client =>
        { s.setTask c (.arrived outcome) with client := client }
    | _ => none

/-! ### What the steps do -/

variable {q} {s s' : System κ B V}

/-- No response arrives in a step of the client. -/
theorem step_client {e : Rpc.Event κ V} (h : step (A := A) q s (.client e) = some s') :
    (∀ r, e ≠ .arrive r) ∧ s.client.step q.messageId e = some s'.client ∧ s'.task = s.sent e := by
  cases e with
  | arrive r => cases h
  | _ =>
    simp only [step, Option.map_eq_some_iff] at h
    obtain ⟨client, hc, rfl⟩ := h
    exact ⟨fun _ => nofun, hc, rfl⟩

theorem step_look {c : κ} (h : step (V := V) q s (.look c) = some s') :
    s.task c = .sent ∧ s' = s.setTask c (.looked (s.beanMap (q.request c).className)) := by
  simp only [step] at h
  split at h
  · rename_i ht
    exact ⟨ht, (Option.some.inj h).symm⟩
  · cases h

theorem step_run {c : κ} {answers : Answers A B V} (h : step q s (.run c answers) = some s') :
    ∃ seen outcome, s.task c = .looked seen ∧
      s'.client = s.client ∧ s'.task = Function.update s.task c (.responded outcome) := by
  simp only [step] at h
  split at h
  · rename_i seen ht
    cases h
    exact ⟨seen, _, ht, rfl, rfl⟩
  · cases h

theorem step_arrive {c : κ} (h : step q s (.arrive c : Event κ A B V) = some s') :
    ∃ outcome, s.task c = .responded outcome ∧
      s.client.step q.messageId (.arrive (answer (q.request c) outcome)) = some s'.client ∧
      s'.task = Function.update s.task c (.arrived outcome) := by
  simp only [step] at h
  split at h
  · rename_i outcome ht
    obtain ⟨client, hc, rfl⟩ := Option.map_eq_some_iff.mp h
    exact ⟨outcome, ht, hc, rfl⟩
  · cases h

/-- The client of a run of the system makes a run of the client. -/
theorem reach_client {ok : System κ B V → Event κ A B V → Prop} (h : Reach (step q) ok {} s) :
    Reach (Client.step q.messageId) (fun _ _ => True) {} s.client := by
  refine h.invariant (I := fun s => Reach (Client.step q.messageId) (fun _ _ => True) {} s.client)
    .init fun s e s' hi _ he => ?_
  cases e with
  | client e => exact hi.step trivial (step_client he).2.1
  | look c =>
    obtain ⟨-, rfl⟩ := step_look he
    exact hi
  | run c answers =>
    obtain ⟨seen, outcome, ht, hc, ht'⟩ := step_run he
    rw [hc]
    exact hi
  | arrive c =>
    obtain ⟨outcome, ht, hc, ht'⟩ := step_arrive he
    exact hi.step trivial hc

/-! ### What a call returns -/

variable (q)

/-- The response of the call's own request has arrived. -/
def Answered (s : System κ B V) (c : κ) (r : MessageResponse V) : Prop :=
  ∃ outcome, s.task c = .arrived outcome ∧ r = answer (q.request c) outcome

/-- What a call returns that has come to such an end. -/
def Ends (s : System κ B V) (c : κ) : Ending → Returned V → Prop
  | .read true, r => ∃ outcome, s.task c = .arrived outcome ∧
      r = .value (answer (q.request c) outcome).result
  | .read false, r => r = .value none
  | .interrupted, r => r = .throws
  | .unwritten, r => r = .throws ∧ s.task c = .unsent

structure OutcomeInv (s : System κ B V) : Prop where
  stored : ∀ c r, s.client.response c = some r → Answered q s c r
  inHand : ∀ x ∈ s.client.channel.handover, Answered q s x.callBack x.response
  unsent : ∀ c, s.client.pc c = .idle ∨ s.client.pc c = .put → s.task c = .unsent
  ended : ∀ c ending r, s.client.pc c = .returned ending r → Ends q s c ending r

omit [DecidableEq κ] in
theorem OutcomeInv.start : OutcomeInv q ({} : System κ B V) where
  stored _ _ h := by cases h
  inHand _ h := by cases h
  unsent _ _ := rfl
  ended _ _ _ h := by cases h

variable {q}

omit [DecidableEq κ] in
theorem Answered.mono {c : κ} {r : MessageResponse V} (h : Answered q s c r)
    (ht : ∀ outcome, s.task c = .arrived outcome → s'.task c = .arrived outcome) :
    Answered q s' c r := by
  obtain ⟨outcome, hc, hr⟩ := h
  exact ⟨outcome, ht outcome hc, hr⟩

omit [DecidableEq κ] in
theorem Ends.mono {c : κ} {ending : Ending} {r : Returned V} (h : Ends q s c ending r)
    (ht : ∀ outcome, s.task c = .arrived outcome → s'.task c = .arrived outcome)
    (hu : s.task c = .unsent → s'.task c = .unsent) : Ends q s' c ending r := by
  match ending, h with
  | .read true, ⟨outcome, hc, hr⟩ => exact ⟨outcome, ht outcome hc, hr⟩
  | .read false, hr => exact hr
  | .interrupted, hr => exact hr
  | .unwritten, ⟨hr, hc⟩ => exact ⟨hr, hu hc⟩

/-- A task on the server moves on. -/
theorem OutcomeInv.serve (h : OutcomeInv q s) {c : κ} {t : Task B V}
    (hc : s'.client = s.client) (ht : s'.task = Function.update s.task c t)
    (hu : s.task c ≠ .unsent) (ha : ∀ outcome, s.task c ≠ .arrived outcome) :
    OutcomeInv q s' := by
  have hkeep : ∀ d, (s.task d = .unsent ∨ ∃ outcome, s.task d = .arrived outcome) →
      s'.task d = s.task d := by
    rintro d hd
    have hdc : d ≠ c := by
      rintro rfl
      exact hd.elim hu fun ⟨outcome, ho⟩ => ha outcome ho
    rw [ht, Function.update_of_ne hdc]
  refine ⟨fun d r hr => ?_, fun x hx => ?_, fun d hd => ?_, fun d ending r hd => ?_⟩
  · exact (h.stored d r (hc ▸ hr)).mono fun o ho => (hkeep d (.inr ⟨o, ho⟩)).trans ho
  · exact (h.inHand x (hc ▸ hx)).mono fun o ho => (hkeep _ (.inr ⟨o, ho⟩)).trans ho
  · have hd' := h.unsent d (hc ▸ hd)
    exact (hkeep d (.inl hd')).trans hd'
  · exact (h.ended d ending r (hc ▸ hd)).mono (fun o ho => (hkeep d (.inr ⟨o, ho⟩)).trans ho)
      fun ho => (hkeep d (.inl ho)).trans ho

omit [DecidableEq κ] in
/-- A step of the client that writes nothing and moves no call. -/
theorem OutcomeInv.keep (h : OutcomeInv q s) (ht : s'.task = s.task)
    (hr : ∀ c r, s'.client.response c = some r → Answered q s c r)
    (hx : ∀ x ∈ s'.client.channel.handover, Answered q s x.callBack x.response)
    (hp : ∀ c, s'.client.pc c = .idle ∨ s'.client.pc c = .put →
      s.client.pc c = .idle ∨ s.client.pc c = .put)
    (he : ∀ c ending r, s'.client.pc c = .returned ending r → Ends q s c ending r) :
    OutcomeInv q s' where
  stored c r hc := (hr c r hc).mono fun _ ho => ht ▸ ho
  inHand x hc := (hx x hc).mono fun _ ho => ht ▸ ho
  unsent c hc := ht ▸ h.unsent c (hp c hc)
  ended c ending r hc := (he c ending r hc).mono (fun _ ho => ht ▸ ho) fun ho => ht ▸ ho

omit [DecidableEq κ] in
/-- A step of the channel that moves no call and stores no response. -/
theorem OutcomeInv.channel (h : OutcomeInv q s) (ht : s'.task = s.task)
    (hr : s'.client.response = s.client.response) (hp : s'.client.pc = s.client.pc)
    (hx : ∀ x ∈ s'.client.channel.handover, x ∈ s.client.channel.handover) : OutcomeInv q s' :=
  h.keep ht (by rw [hr]; exact h.stored) (fun x hx' => h.inHand x (hx x hx'))
    (by rw [hp]; exact fun _ => id) (by rw [hp]; exact h.ended)

/-- What is known of the calls is known after one of them has moved on. -/
theorem OutcomeInv.goto (h : OutcomeInv q s) {c : κ} {pc : Pc V}
    (hpc : ∀ d, s'.client.pc d = if d = c then pc else s.client.pc d)
    (hb : pc = .idle ∨ pc = .put → s.client.pc c = .idle ∨ s.client.pc c = .put)
    (he : ∀ ending r, pc = .returned ending r → Ends q s c ending r) :
    (∀ d, s'.client.pc d = .idle ∨ s'.client.pc d = .put →
      s.client.pc d = .idle ∨ s.client.pc d = .put) ∧
    ∀ d ending r, s'.client.pc d = .returned ending r → Ends q s d ending r := by
  constructor
  · intro d hd
    rw [hpc] at hd
    split at hd
    · rename_i hdc
      exact hdc ▸ hb hd
    · exact hd
  · intro d ending r hd
    rw [hpc] at hd
    split at hd
    · rename_i hdc
      exact hdc ▸ he ending r hd
    · exact h.ended d ending r hd

/-- The call moves on without a write. -/
theorem OutcomeInv.move (h : OutcomeInv q s) {c : κ} {pc : Pc V}
    (hc : s'.client = s.client.goto c pc) (ht : s'.task = s.task)
    (hb : pc ≠ .idle ∧ pc ≠ .put) (he : ∀ ending r, pc = .returned ending r → Ends q s c ending r) :
    OutcomeInv q s' := by
  have hpc : ∀ d, s'.client.pc d = if d = c then pc else s.client.pc d := fun d => by
    rw [hc, Client.goto_pc]
  obtain ⟨hunsent, hended⟩ := h.goto hpc (fun hd => (hd.elim hb.1 hb.2).elim) he
  refine h.keep ht (fun d r hr => h.stored d r ?_) (fun x hx => h.inHand x ?_) hunsent hended
  · rwa [hc] at hr
  · rwa [hc] at hx

/-- A write finds the call's request unsent. -/
theorem OutcomeInv.write (h : OutcomeInv q s) {c : κ} {pc : Pc V}
    (hn : s.client.next c .write = some pc) (hc : s'.client = s.client.goto c pc)
    (ht : s'.task = s.sent (.act c .write)) : OutcomeInv q s' := by
  obtain ⟨hp, rfl⟩ := Client.next_write hn
  have hu := h.unsent c (.inr hp)
  cases ha : s.client.active with
  | false =>
    simp only [ha, Bool.false_eq_true, if_false] at hc
    refine h.move hc (by simpa [sent, ha] using ht) (by simp) fun ending r hr => ?_
    cases hr
    exact ⟨rfl, hu⟩
  | true =>
    simp only [ha, if_true] at hc
    have ht' : s'.task = Function.update s.task c .sent := by simpa [sent, ha] using ht
    have hother : ∀ d, d ≠ c → s'.task d = s.task d := fun d hd => by
      rw [ht', Function.update_of_ne hd]
    -- no response of the call has arrived before its request is sent
    have hkeep : ∀ d outcome, s.task d = .arrived outcome → s'.task d = .arrived outcome := by
      intro d outcome hd
      have hdc : d ≠ c := by
        rintro rfl
        rw [hu] at hd
        cases hd
      rw [hother d hdc, hd]
    refine ⟨fun d r hr => ?_, fun x hx => ?_, fun d hd => ?_, fun d ending r hd => ?_⟩
    · rw [hc] at hr
      exact (h.stored d r hr).mono (hkeep d)
    · rw [hc] at hx
      exact (h.inHand x hx).mono (hkeep _)
    · rw [hc, Client.goto_pc] at hd
      split at hd
      · simp at hd
      · rename_i hdc
        exact (hother d hdc).trans (h.unsent d hd)
    · rw [hc, Client.goto_pc] at hd
      split at hd
      · cases hd
      · rename_i hdc
        exact (h.ended d ending r hd).mono (hkeep d) fun ho => (hother d hdc).trans ho

theorem OutcomeInv.client {e : Rpc.Event κ V} (h : OutcomeInv q s)
    (he : s.client.step q.messageId e = some s'.client) (hne : ∀ r, e ≠ .arrive r)
    (ht : s'.task = s.sent e) : OutcomeInv q s' := by
  cases e with
  | channelActive =>
    have hc : s'.client = { s.client with active := true } := (Option.some.inj he).symm
    exact h.channel ht (by rw [hc]) (by rw [hc]) (by rw [hc]; exact fun _ => id)
  | put c =>
    obtain ⟨hi, hc⟩ := Client.step_put he
    have hpc : ∀ d, s'.client.pc d = if d = c then .put else s.client.pc d := fun d => by
      rw [hc, Client.goto_pc]
      rfl
    obtain ⟨hunsent, hended⟩ := h.goto hpc (fun _ => .inl hi) nofun
    exact h.keep ht (by simpa [hc] using h.stored) (by simpa [hc] using h.inHand) hunsent hended
  | act c a =>
    obtain ⟨pc, hn, hc⟩ := Client.step_act he
    by_cases ha : a = .write
    · subst ha
      exact h.write hn hc ht
    · have ht' : s'.task = s.task := by
        rw [ht]
        cases a <;> first | rfl | exact (ha rfl).elim
      refine h.move hc ht' (Client.next_begun hn) fun ending r hr => ?_
      subst hr
      obtain ⟨hp, rfl, rfl⟩ | ⟨-, rfl, rfl⟩ | ⟨-, rfl, rfl⟩ := Client.next_returned hn
      · exact ⟨rfl, h.unsent c (.inr hp)⟩
      · rfl
      · rcases hs : s.client.response c with _ | r
        · rfl
        · obtain ⟨outcome, ho, rfl⟩ := h.stored c r hs
          exact ⟨outcome, ho, rfl⟩
  | arrive r => exact (hne r rfl).elim
  | remove =>
    obtain ⟨x, hx, hc⟩ := Client.step_remove he
    refine h.channel ht (by simp [hc]) (by simp [hc]) fun y hy => ?_
    rw [hc] at hy
    rw [hx]
    exact hy
  | overLock =>
    obtain ⟨x, hx, -, hc⟩ := Client.step_overLock he
    refine h.channel ht (by simp [hc]) (by simp [hc]) fun y hy => ?_
    rw [hc] at hy
    rw [hx]
    exact hy
  | store =>
    obtain ⟨x, hx, hc⟩ := Client.step_store he
    have hin := h.inHand x (by rw [hx]; rfl)
    refine h.keep ht (fun d r hr => ?_) (fun y hy => ?_) (by simp [hc]) (by simpa [hc] using h.ended)
    · rw [hc] at hr
      simp only [Function.update_apply] at hr
      split at hr
      · rename_i hdx
        cases hr
        exact hdx ▸ hin
      · exact h.stored d r hr
    · rw [hc] at hy
      cases hy
      exact hin
  | signal =>
    obtain ⟨x, hx, ⟨-, hc⟩ | ⟨-, hc⟩⟩ := Client.step_signal he
    · have hin := h.inHand x (by rw [hx]; rfl)
      have hpc : ∀ d, s'.client.pc d = if d = x.callBack then .woken false else s.client.pc d :=
        fun d => by rw [hc, Client.setChannel_pc, Client.goto_pc]
      obtain ⟨hunsent, hended⟩ := h.goto hpc (by simp) nofun
      refine h.keep ht (by simpa [hc] using h.stored) (fun y hy => ?_) hunsent hended
      rw [hc] at hy
      cases hy
      exact hin
    · refine h.channel ht (by simp [hc]) (by simp [hc]) fun y hy => ?_
      rw [hc] at hy
      rw [hx]
      exact hy
  | unlock =>
    obtain ⟨x, -, hc⟩ := Client.step_unlock he
    refine h.channel ht (by simp [hc]) (by simp [hc]) fun y hy => ?_
    rw [hc] at hy
    cases hy

/-- The response of a call's request is handed to the call, or to none. -/
theorem OutcomeInv.arrive (h : OutcomeInv q s)
    (hm : ∀ k c, s.client.map k = some c → k = q.messageId c) {c : κ} {outcome : Outcome V}
    (hc : s.task c = .responded outcome)
    (he : s.client.step q.messageId (.arrive (answer (q.request c) outcome)) = some s'.client)
    (ht : s'.task = Function.update s.task c (.arrived outcome)) : OutcomeInv q s' := by
  -- the step without the arrival, and then the arrival
  have hmid : OutcomeInv q { s with task := s'.task } :=
    h.serve rfl ht (by simp [hc]) (by simp [hc])
  have hid : (answer (q.request c) outcome).messageId = q.messageId c := by
    cases outcome <;> rfl
  obtain ⟨hi, ⟨-, hcl⟩ | ⟨d, hd, hcl⟩⟩ := Client.step_arrive he
  · exact hmid.keep rfl (by simpa only [hcl] using hmid.stored) (by simpa only [hcl] using hmid.inHand)
      (by simp [hcl]) (by simpa only [hcl] using hmid.ended)
  · have hdc : d = c := q.distinct ((hm _ d hd).symm.trans hid)
    refine hmid.keep rfl (by simpa only [hcl] using hmid.stored) ?_ (by simp [hcl])
      (by simpa only [hcl] using hmid.ended)
    rw [hcl]
    rintro x ⟨⟩
    exact ⟨outcome, by simp [ht, hdc], by rw [hdc]⟩

theorem OutcomeInv.step {e : Event κ A B V} (h : OutcomeInv q s)
    (hm : ∀ k c, s.client.map k = some c → k = q.messageId c)
    (he : step q s e = some s') : OutcomeInv q s' := by
  cases e with
  | client e =>
    obtain ⟨hne, hc, ht⟩ := step_client he
    exact h.client hc hne ht
  | look c =>
    obtain ⟨hs, rfl⟩ := step_look he
    exact h.serve rfl rfl (by simp [hs]) (by simp [hs])
  | run c answers =>
    obtain ⟨seen, outcome, hs, hc, ht⟩ := step_run he
    exact h.serve hc ht (by simp [hs]) (by simp [hs])
  | arrive c =>
    obtain ⟨outcome, hs, hc, ht⟩ := step_arrive he
    exact h.arrive hm hs hc ht

theorem outcomeInv_of_reach (h : Reach (step q) (fun _ (_ : Event κ A B V) => True) {} s) :
    OutcomeInv q s := by
  induction h with
  | init => exact .start q
  | step hr _ he ih =>
    have hI := (reach_client hr).invariant (I := Client.MatchInv q.messageId) (.start _)
      fun _ _ _ hi _ => hi.step
    exact ih.step hI.mapped he

/-- The caller is told the outcome: a result, or an exception. -/
def Reports : Outcome V → Returned V → Prop
  | .ok result, r => r = .value result
  | .error _, r => r = .throws

/-- A result is found in the callback, or is null; an exception is met by an
interrupt. -/
def Told : Outcome V → Ending → Prop
  | .ok result, ending => ending = .read true ∨ ending = .read false ∧ result = none
  | .error _, ending => ending = .interrupted

/-- **What a call returns** is the outcome of the execution of its request exactly
if the execution succeeded and the call reads its callback after the response is
stored (or the result is null), or it failed and the call is interrupted. -/
theorem reports_iff (q : Requests κ A) {s : System κ B V}
    (h : Reach (step q) (fun _ (_ : Event κ A B V) => True) {} s) {c : κ} {ending : Ending}
    {r : Returned V} {outcome : Outcome V} (hr : s.client.pc c = .returned ending r)
    (ho : (s.task c).outcome = some outcome) : Reports outcome r ↔ Told outcome ending := by
  have he := (outcomeInv_of_reach h).ended c ending r hr
  match ending, he with
  | .read true, ⟨outcome', ht, hv⟩ =>
    obtain rfl : outcome' = outcome := by simpa [ht, Task.outcome] using ho
    subst hv
    cases outcome' <;> simp [Reports, Told, answer]
  | .read false, hv =>
    have hv' : r = .value none := hv
    subst hv'
    cases outcome <;> simp [Reports, Told, eq_comm]
  | .interrupted, hv =>
    have hv' : r = .throws := hv
    subst hv'
    cases outcome <;> simp [Reports, Told]
  | .unwritten, ⟨_, ht⟩ =>
    rw [ht] at ho
    cases ho

/-- A service whose method is called on two ids. -/
def two : Requests Bool Unit where
  request c := ⟨if c then "1" else "0", "Service", "name", ()⟩
  distinct c d h := by cases c <;> cases d <;> first | rfl | exact absurd h (by decide)

/-- The bean is found, and its method comes to this end. -/
def invoked (outcome : Outcome String) : Answers Unit Unit String where
  getBean _ := .ok ()
  invokeMethod _ _ _ := outcome

/-- One call, up to its return. -/
def callAndReturn (outcome : Outcome String) : List (Event Bool Unit Unit String) :=
  [.client .channelActive] ++ (Client.callOf true).map .client ++
    [.look true, .run true (invoked outcome), .arrive true] ++
    [.remove, .overLock, .store, .signal, .unlock].map .client ++
    (Client.returnOf true).map .client

theorem reports_result :
    Reports (.ok (some "n") : Outcome String) (.value (some "n")) ↔
      Told (.ok (some "n") : Outcome String) (.read true) :=
  reports_iff two (s := (runWith (step two) (fun _ _ => True) {}
    (callAndReturn (.ok (some "n")))).get (by decide)) (c := true)
    (reach_get (callAndReturn (.ok (some "n"))) (by decide)) (by decide) (by decide)

/-- No wait times out before the response has arrived, and none is interrupted. -/
def inTime (s : System κ B V) : Event κ A B V → Bool
  | .client (.act c .timeout) => (s.task c).hasArrived
  | .client (.act _ .interrupt) => false
  | _ => true

/-- The method throws, and the call returns null. -/
theorem failure_hidden : ¬ ∀ (q : Requests Bool Unit) (s : System Bool Unit String),
    Reach (step q) (fun s (e : Event Bool Unit Unit String) => s.inTime e) {} s → ∀ c ending r outcome,
      s.client.pc c = .returned ending r → (s.task c).outcome = some outcome →
        Reports outcome r := fun h => by
  have hr := h two _ (reach_get (callAndReturn (.error (some "failed"))) (by decide)) true
    (.read true) (.value none) (.error (some "failed")) (by decide) (by decide)
  exact nomatch hr

end System
end Rpc
end CloudManager
