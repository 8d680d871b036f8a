/-
# The span sender

A call of the sender hands a message to a RocketMQ producer, with a callback that
passes the broker's answer on. The producer is the template's, or one that the sender
makes for the call; everything that throws on the way is caught in `publish` and
logged, and the caller's callback never hears of it.

In every state reached the callback of a call whose message went out is completed once,
or still with the producer, and the callback of any other never is (`completed_iff`): an
`execute` then waits for ever (`waits_of_thrown`).
-/
import Mathlib.Logic.Function.Basic
import CloudManager.Lib.JavaText
import CloudManager.Lib.Runs

namespace CloudManager
namespace Sleuth

open Runs

/-! ### The producers -/

inductive Exception
  | nullPointer
  | illegalArgument (message : String)
  /-- What the producer throws. -/
  | client (message : String)
  /-- What the template makes of an exception. -/
  | messaging (cause : Exception)
  deriving DecidableEq, Repr

/-- `RocketMQProperties.Producer`. -/
structure ProducerConfig where
  group : Option String := none
  sendMsgTimeout : ℕ := 3000
  compressMsgBodyOverHowmuch : ℕ := 1024 * 4
  retryTimesWhenSendFailed : ℕ := 2
  retryTimesWhenSendAsyncFailed : ℕ := 2
  retryAnotherBrokerWhenNotStoreOk : Bool := false
  maxMessageSize : ℕ := 1024 * 1024 * 4
  deriving DecidableEq, Repr

structure RocketMQProperties where
  nameServer : Option String := none
  producer : Option ProducerConfig := none
  deriving DecidableEq, Repr

/-- A producer of the group, set up from the properties. -/
structure DefaultMQProducer where
  group : String
  namesrvAddr : Option String
  sendMsgTimeout : ℕ
  retryTimesWhenSendFailed : ℕ
  retryTimesWhenSendAsyncFailed : ℕ
  maxMessageSize : ℕ
  compressMsgBodyOverHowmuch : ℕ
  retryAnotherBrokerWhenNotStoreOk : Bool
  deriving DecidableEq, Repr

/-- `Assert.hasText`. -/
def hasText (text : Option String) : Bool := text.any fun s => !JavaText.isBlank s.toList

/-- What throws while a message is sent: the start of a producer, the building of the
message, or the producer's `send`. -/
structure Attempt where
  start : Option Exception := none
  build : Option Exception := none
  send : Option Exception := none
  deriving DecidableEq, Repr

/-- `throw` the exception, if there is one. -/
def raise (e : Option Exception) : Except Exception Unit := e.elim (.ok ()) .error

/-- `createMQProducer`. -/
def createMQProducer (rocketMQProperties : Option RocketMQProperties) (a : Attempt) :
    Except Exception DefaultMQProducer :=
  match rocketMQProperties.bind fun p => p.producer.map fun c => (p, c) with
  | none => .error .nullPointer
  | some (properties, producerConfig) => do
    unless hasText producerConfig.group do
      throw (.illegalArgument "[spring.rocketmq.producer.group] must not be null")
    raise a.start
    return {
      group := producerConfig.group.getD ""
      namesrvAddr := properties.nameServer
      sendMsgTimeout := producerConfig.sendMsgTimeout
      retryTimesWhenSendFailed := producerConfig.retryTimesWhenSendFailed
      retryTimesWhenSendAsyncFailed := producerConfig.retryTimesWhenSendAsyncFailed
      maxMessageSize := producerConfig.maxMessageSize
      compressMsgBodyOverHowmuch := producerConfig.compressMsgBodyOverHowmuch
      retryAnotherBrokerWhenNotStoreOk := producerConfig.retryAnotherBrokerWhenNotStoreOk }

/-- A message, and the sender's own producer, if it goes out through that. -/
structure Message where
  producer : Option DefaultMQProducer
  topic : String
  tags : String := ""
  body : List UInt8
  deriving DecidableEq, Repr

/-- The template: `recode` is `new String(..)` and then the bytes in its charset. -/
structure RocketMQTemplate where
  recode : List UInt8 → List UInt8

/-- `convertToRocketMsg`: the destination is a topic, or a topic, `:` and tags. -/
def RocketMQTemplate.convertToRocketMsg (t : RocketMQTemplate) (destination : String)
    (payload : List UInt8) : Message where
  producer := none
  topic := String.ofList (destination.toList.takeWhile (· ≠ ':'))
  tags := String.ofList (destination.toList.dropWhile (· ≠ ':')).tail
  body := t.recode payload

/-- `asyncSend`; the payload is not null. -/
def RocketMQTemplate.asyncSend (t : RocketMQTemplate) (destination : String)
    (payload : List UInt8) (a : Attempt) : Except Exception Message :=
  (do
    raise a.build
    raise a.send
    return t.convertToRocketMsg destination payload : Except Exception Message).mapError .messaging

/-- `createRocketMQSender`: over a template, or by a producer of the sender's own. -/
inductive RocketMQSender
  | template (rocketMQTemplate : RocketMQTemplate)
  | producer (rocketMQProperties : Option RocketMQProperties)

/-- `send`: the message that the producer takes over, unless something throws. -/
def RocketMQSender.send (topic : String) (message : List UInt8) (a : Attempt) :
    RocketMQSender → Except Exception Message
  | .template rocketMQTemplate => rocketMQTemplate.asyncSend topic message a
  | .producer rocketMQProperties => do
    let producer ← createMQProducer rocketMQProperties a
    raise a.build
    raise a.send
    return { producer := producer, topic := topic, body := message }

/-! ### The sender's calls -/

/-- What a callback is told. -/
inductive Completion
  | onSuccess
  | onError (e : Exception)
  deriving DecidableEq, Repr

/-- A call: its message, whether it is an `execute` and what throws in its sending, once it
is made, the message while the producer has it and with it the `SendCallbackEx`, what the
broker has acknowledged, and the completions of its callback. -/
structure KafkaCall where
  message : List UInt8
  made : Option (Bool × Attempt) := none
  inFlight : Option Message := none
  acknowledged : Bool := false
  completions : List Completion := []
  deriving DecidableEq, Repr

structure RocketSender where
  topic : String
  rocketMQSender : RocketMQSender
  /-- `encoder.encode`. -/
  encode : List (List UInt8) → List UInt8

structure State where
  closeCalled : Bool := false
  calls : ℕ → Option KafkaCall := fun _ => none

inductive Event
  | sendSpans (c : ℕ) (encodedSpans : List (List UInt8))
  /-- `doExecute`, if `blocking`, or `doEnqueue`. -/
  | publish (c : ℕ) (blocking : Bool) (a : Attempt)
  /-- The broker acknowledges the message, and the producer tells. -/
  | acknowledge (c : ℕ)
  /-- The producer gives the message up. -/
  | fail (c : ℕ) (e : Exception)
  | close

namespace KafkaCall

variable (x : KafkaCall)

/-- `publish`: what is thrown is logged. -/
def publish (r : RocketSender) (blocking : Bool) (a : Attempt) : KafkaCall :=
  let x := { x with made := some (blocking, a) }
  match r.rocketMQSender.send r.topic x.message a with
  | .ok message => { x with inFlight := some message }
  | .error _ => x

/-- `SendCallbackEx.onSuccess`. -/
def onSuccess : KafkaCall :=
  { x with inFlight := none, acknowledged := true, completions := x.completions ++ [.onSuccess] }

/-- `SendCallbackEx.onException`. -/
def onException (e : Exception) : KafkaCall :=
  { x with inFlight := none, completions := x.completions ++ [.onError e] }

/-- `await`: an `execute` goes on when its callback is completed. -/
def awaits : Bool := x.made.any (·.1) && x.completions.isEmpty

/-- The callback is completed once, or will be by the producer; with success only if the
broker has acknowledged; and an `execute` waits only for the producer. -/
structure Completed : Prop where
  once : x.inFlight = none → x.completions.length = 1
  pending : x.inFlight.isSome → x.completions = []
  acknowledged : .onSuccess ∈ x.completions → x.acknowledged = true
  awaits : x.awaits = true → x.inFlight.isSome

end KafkaCall

namespace RocketSender

variable (r : RocketSender)

def put (s : State) (c : ℕ) (x : KafkaCall) : State :=
  { s with calls := Function.update s.calls c (some x) }

def step (s : State) : Event → Option State
  | .sendSpans c encodedSpans =>
    if s.closeCalled || (s.calls c).isSome then none
    else some (put s c { message := r.encode encodedSpans })
  | .publish c blocking a =>
    match s.calls c with
    | none => none
    | some x => if x.made.isSome then none else some (put s c (x.publish r blocking a))
  | .acknowledge c =>
    match s.calls c with
    | none => none
    | some x => if x.inFlight.isNone then none else some (put s c x.onSuccess)
  | .fail c e =>
    match s.calls c with
    | none => none
    | some x => if x.inFlight.isNone then none else some (put s c (x.onException e))
  | .close => some { s with closeCalled := true }

/-- Nothing throws: neither the building of the message nor its sending, nor, with a
producer of the sender's own, that producer's making, whose group is given. -/
def Accepts (a : Attempt) : Prop :=
  a.build = none ∧ a.send = none ∧
    match r.rocketMQSender with
    | .template _ => True
    | .producer rocketMQProperties => a.start = none ∧
        ∃ p ∈ rocketMQProperties, ∃ c ∈ p.producer, hasText c.group = true

/-! ### A call goes out or not -/

@[simp] theorem raise_none : raise none = .ok () := rfl
@[simp] theorem raise_some (e : Exception) : raise (some e) = .error e := rfl

theorem isOk_createMQProducer (p : Option RocketMQProperties) (a : Attempt) :
    (createMQProducer p a).toBool = true ↔ a.start = none ∧
      ∃ q ∈ p, ∃ c ∈ q.producer, hasText c.group = true := by
  unfold createMQProducer
  rcases p with _ | ⟨nameServer, _ | c⟩
  · simp [Except.toBool]
  · simp [Except.toBool]
  · cases ht : hasText c.group with
    | false => simp [ht, bind, Except.bind, throw, throwThe, MonadExceptOf.throw, Except.toBool]
    | true => cases hs : a.start <;> simp [ht, bind, Except.bind, pure, Except.pure, Except.toBool]

theorem isOk_send (message : List UInt8) (a : Attempt) :
    (r.rocketMQSender.send r.topic message a).toBool = true ↔ r.Accepts a := by
  unfold Accepts
  cases r.rocketMQSender with
  | template t =>
    unfold RocketMQSender.send RocketMQTemplate.asyncSend
    cases hb : a.build <;> cases hs : a.send <;>
      simp [bind, Except.bind, Except.mapError, Except.toBool, pure, Except.pure]
  | producer p =>
    have hcreate := isOk_createMQProducer p a
    unfold RocketMQSender.send
    dsimp only
    rw [← hcreate]
    cases hc : createMQProducer p a <;> cases hb : a.build <;> cases hs : a.send <;>
      simp [bind, Except.bind, Except.toBool, pure, Except.pure]

/-! ### The invariant -/

/-- The producer has the message, or its callback has been completed once. -/
def Sent (x : KafkaCall) : Prop :=
  (x.inFlight.isSome ∧ x.completions = []) ∨ (x.inFlight = none ∧
    ((x.completions = [.onSuccess] ∧ x.acknowledged = true) ∨ ∃ e, x.completions = [.onError e]))

def Idle (x : KafkaCall) : Prop := x.inFlight = none ∧ x.completions = []

/-- A call is sent if its attempt is accepted; until then, and if not, it is idle. -/
def Fits (x : KafkaCall) : Prop :=
  match x.made with
  | none => Idle x
  | some (_, a) => (r.Accepts a ∧ Sent x) ∨ (¬ r.Accepts a ∧ Idle x)

def Inv (s : State) : Prop := ∀ c x, s.calls c = some x → r.Fits x

variable {r} {s s' : State} {x : KafkaCall}

theorem Inv.put (h : r.Inv s) (c : ℕ) (hx : r.Fits x) : r.Inv (put s c x) := by
  intro c' y hy
  change Function.update s.calls c (some x) c' = some y at hy
  by_cases he : c' = c
  · subst he
    rw [Function.update_self] at hy
    exact Option.some.inj hy ▸ hx
  · rw [Function.update_of_ne he] at hy
    exact h c' y hy

theorem Fits.publish (h : r.Fits x) (hmade : x.made = none) (blocking : Bool) (a : Attempt) :
    r.Fits (x.publish r blocking a) := by
  have hidle : Idle x := by
    unfold Fits at h
    rw [hmade] at h
    exact h
  have hok := r.isOk_send x.message a
  cases hsend : r.rocketMQSender.send r.topic x.message a with
  | ok message =>
    have hpublish : x.publish r blocking a =
        { x with made := some (blocking, a), inFlight := some message } := by
      simp only [KafkaCall.publish, hsend]
    rw [hsend] at hok
    rw [hpublish]
    exact Or.inl ⟨hok.mp rfl, .inl ⟨rfl, hidle.2⟩⟩
  | error e =>
    have hpublish : x.publish r blocking a = { x with made := some (blocking, a) } := by
      simp only [KafkaCall.publish, hsend]
    rw [hsend] at hok
    rw [hpublish]
    exact Or.inr ⟨fun ha => Bool.false_ne_true (hok.mpr ha), hidle⟩

/-- A message in flight went out, and its callback is not completed yet. -/
theorem Fits.inFlight (h : r.Fits x) (hflight : x.inFlight ≠ none) :
    ∃ blocking a, x.made = some (blocking, a) ∧ r.Accepts a ∧ x.completions = [] := by
  unfold Fits at h
  rcases hmade : x.made with _ | ⟨blocking, a⟩
  · rw [hmade] at h
    exact (hflight h.1).elim
  · rw [hmade] at h
    rcases h with ⟨ha, ⟨-, hnil⟩ | ⟨hnone, -⟩⟩ | ⟨-, hnone, -⟩
    · exact ⟨blocking, a, rfl, ha, hnil⟩
    · exact (hflight hnone).elim
    · exact (hflight hnone).elim

theorem Fits.onSuccess (h : r.Fits x) (hflight : x.inFlight ≠ none) : r.Fits x.onSuccess := by
  obtain ⟨blocking, a, hmade, ha, hnil⟩ := h.inFlight hflight
  unfold KafkaCall.onSuccess Fits
  simp only [hmade, hnil]
  exact .inl ⟨ha, .inr ⟨rfl, .inl ⟨rfl, rfl⟩⟩⟩

theorem Fits.onException (h : r.Fits x) (hflight : x.inFlight ≠ none) (e : Exception) :
    r.Fits (x.onException e) := by
  obtain ⟨blocking, a, hmade, ha, hnil⟩ := h.inFlight hflight
  unfold KafkaCall.onException Fits
  simp only [hmade, hnil]
  exact .inl ⟨ha, .inr ⟨rfl, .inr ⟨e, rfl⟩⟩⟩

theorem Inv.step {e : Event} (h : r.Inv s) (he : r.step s e = some s') : r.Inv s' := by
  cases e with
  | sendSpans c encodedSpans =>
    simp only [RocketSender.step, Option.ite_none_left_eq_some, Option.some.injEq] at he
    exact he.2 ▸ h.put c ⟨rfl, rfl⟩
  | publish c blocking a =>
    cases hc : s.calls c with
    | none => simp [RocketSender.step, hc] at he
    | some x =>
      simp only [RocketSender.step, hc, Option.ite_none_left_eq_some, Option.some.injEq] at he
      obtain ⟨hmade, rfl⟩ := he
      exact h.put c ((h c x hc).publish (by simpa using hmade) blocking a)
  | acknowledge c =>
    cases hc : s.calls c with
    | none => simp [RocketSender.step, hc] at he
    | some x =>
      simp only [RocketSender.step, hc, Option.ite_none_left_eq_some, Option.some.injEq] at he
      obtain ⟨hflight, rfl⟩ := he
      exact h.put c ((h c x hc).onSuccess (by simpa using hflight))
  | fail c e =>
    cases hc : s.calls c with
    | none => simp [RocketSender.step, hc] at he
    | some x =>
      simp only [RocketSender.step, hc, Option.ite_none_left_eq_some, Option.some.injEq] at he
      obtain ⟨hflight, rfl⟩ := he
      exact h.put c ((h c x hc).onException (by simpa using hflight) e)
  | close =>
    cases he
    exact h

theorem inv_of_reach (h : Reach r.step (fun _ _ => True) {} s) : r.Inv s :=
  h.invariant (fun _ _ hx => by cases hx) fun _ _ _ hi _ he => hi.step he

/-! ### The callbacks -/

/-- **Callbacks.** In every state reached, the callback of a call that was made is
completed as it should be exactly if nothing threw when its message was sent. -/
theorem completed_iff (r : RocketSender) {s : State} (h : Reach r.step (fun _ _ => True) {} s)
    {c : ℕ} {x : KafkaCall} {blocking : Bool} {a : Attempt} (hx : s.calls c = some x)
    (hmade : x.made = some (blocking, a)) : x.Completed ↔ r.Accepts a := by
  have hfits := inv_of_reach h c x hx
  unfold Fits at hfits
  rw [hmade] at hfits
  rcases hfits with ⟨ha, hstate⟩ | ⟨ha, hnone, hnil⟩
  · refine iff_of_true ?_ ha
    rcases hstate with ⟨hflight, hnil⟩ | ⟨hnone, ⟨hc, hack⟩ | ⟨e, hc⟩⟩
    · refine ⟨fun hnone => ?_, fun _ => hnil, fun hmem => ?_, fun _ => hflight⟩
      · rw [hnone] at hflight
        cases hflight
      · rw [hnil] at hmem
        cases hmem
    · refine ⟨fun _ => by rw [hc]; rfl, fun hflight => ?_, fun _ => hack, fun hw => ?_⟩
      · rw [hnone] at hflight
        cases hflight
      · simp [KafkaCall.awaits, hc] at hw
    · refine ⟨fun _ => by rw [hc]; rfl, fun hflight => ?_, fun hmem => ?_, fun hw => ?_⟩
      · rw [hnone] at hflight
        cases hflight
      · simp [hc] at hmem
      · simp [KafkaCall.awaits, hc] at hw
  · refine iff_of_false (fun hcompleted => ?_) ha
    have honce := hcompleted.once hnone
    rw [hnil] at honce
    cases honce

/-- An `execute` whose message did not go out waits in every state after that. -/
theorem waits_of_thrown (h : Reach r.step (fun _ _ => True) {} s) {c : ℕ} {a : Attempt}
    (hx : s.calls c = some x) (hmade : x.made = some (true, a)) (ha : ¬ r.Accepts a) :
    x.awaits = true ∧ x.inFlight = none := by
  have hfits := inv_of_reach h c x hx
  unfold Fits at hfits
  rw [hmade] at hfits
  rcases hfits with ⟨ha', -⟩ | ⟨-, hnone, hnil⟩
  · exact (ha ha').elim
  · exact ⟨by simp [KafkaCall.awaits, hmade, hnil], hnone⟩

/-! ### Two senders -/

/-- A sender over a template; the spans are joined. -/
def overTemplate : RocketSender := ⟨"zipkin", .template ⟨id⟩, List.flatten⟩

/-- A sender without a template and properties. -/
def ownProducer : RocketSender := ⟨"zipkin", .producer none, List.flatten⟩

def acknowledged : List Event := [.sendSpans 0 [[91, 93]], .publish 0 true {}, .acknowledge 0]

def executed : List Event := [.sendSpans 0 [[91, 93]], .publish 0 true {}]

/-- A call, and where it is once its message is acknowledged. -/
def acknowledgedCall : KafkaCall where
  message := [91, 93]
  made := some (true, {})
  acknowledged := true
  completions := [.onSuccess]

theorem completed_acknowledged : acknowledgedCall.Completed ↔ overTemplate.Accepts {} :=
  completed_iff overTemplate (reach_get acknowledged (by decide)) (c := 0) (by decide) rfl

/-- No producer can be made, and the `execute` waits for ever. -/
theorem callback_lost : ¬ ∀ (r : RocketSender) (s : State),
    Reach r.step (fun _ _ => True) {} s → ∀ c x, s.calls c = some x → x.made.isSome →
      x.Completed := by
  intro h
  have hcall := h ownProducer _ (reach_get executed (by decide)) 0
    { message := [91, 93], made := some (true, {}) } (by decide) rfl
  have hlength := hcall.once rfl
  revert hlength
  decide

end RocketSender

end Sleuth
end CloudManager
