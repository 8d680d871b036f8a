/-
# The client of the RPC: calls, and the channel that answers them

A call (`NettyProxy.invoke`) puts an entry for its message id into the handler's
map, writes the request and waits on the condition of its callback; the channel
thread (`OutputClientHandler.channelRead`) takes the entry of a response's id out
and hands the response over (`MessageCallBack.over`). A step is one access to
the map, the lock, the condition or the response; the calls and the channel
interleave freely, and any responses arrive.

A condition does not remember a signal: it wakes a caller that waits, or no one.
-/
import Mathlib.Logic.Function.Basic
import CloudManager.Lib.Runs


namespace CloudManager
namespace Rpc

/-! ### Messages -/

/-- A request; the parameters' types are not read. -/
structure MessageRequest (A : Type*) where
  messageId : String
  className : String
  methodName : String
  parameters : A
  deriving DecidableEq, Repr

/-- A response; `none` is null. -/
structure MessageResponse (V : Type*) where
  messageId : String
  error : Option String := none
  result : Option V := none
  deriving DecidableEq, Repr

/-! ### The state of the client -/

/-- What `invoke` gives its caller. -/
inductive Returned (V : Type*)
  | value (v : Option V)
  | throws
  deriving DecidableEq, Repr

/-- How a call comes to its end: it reads the callback, where the response is
stored or not; it is interrupted in its wait; or its write throws. -/
inductive Ending
  | read (stored : Bool)
  | interrupted
  | unwritten
  deriving DecidableEq, Repr

/-- Where a call is: the step it takes next. -/
inductive Pc (V : Type*)
  | idle
  /-- `sendRequest`: the entry is put; the write is next. -/
  | put
  /-- `start`: the lock is next. -/
  | written
  /-- The lock is held; `await` is next. -/
  | locked
  | waiting
  /-- Off the condition; the lock is next. -/
  | woken (interrupted : Bool)
  /-- The lock is held again; the end of `start` is next. -/
  | relocked (interrupted : Bool)
  | returned (ending : Ending) (r : Returned V)
  deriving DecidableEq, Repr

/-- The callback that `channelRead` found for a response, and the response's place
among those that arrived. -/
structure Handover (κ V : Type*) where
  callBack : κ
  response : MessageResponse V
  number : ℕ
  deriving DecidableEq, Repr

/-- Where the channel thread is in `channelRead`. -/
inductive Channel (κ V : Type*)
  | idle
  /-- The entry is found; its removal is next. -/
  | found (x : Handover κ V)
  /-- `over`: the lock is next. -/
  | removed (x : Handover κ V)
  /-- The lock is held; the store is next. -/
  | locked (x : Handover κ V)
  /-- The response is stored; the signal is next. -/
  | stored (x : Handover κ V)
  /-- The unlock is next. -/
  | signalled (x : Handover κ V)
  deriving DecidableEq, Repr

/-- The handler and the callbacks, with the responses that arrived, in order, and
the calls they were handed to. -/
structure Client (κ V : Type*) where
  /-- `context` is set. -/
  active : Bool := false
  /-- `STRING_OBJECT_MAP`. -/
  map : String → Option κ := fun _ => none
  pc : κ → Pc V := fun _ => .idle
  /-- `MessageCallBack.response`. -/
  response : κ → Option (MessageResponse V) := fun _ => none
  channel : Channel κ V := .idle
  arrived : List (MessageResponse V) := []
  delivered : List (ℕ × κ) := []

/-- A step of a call after `sendRequest` has put its entry. -/
inductive Action
  | write
  | lock
  | await
  | timeout
  /-- `await` returns without a reason. -/
  | wakeUp
  | interrupt
  | read
  deriving DecidableEq, Repr

inductive Event (κ V : Type*)
  | channelActive
  /-- `sendRequest` puts the entry. -/
  | put (c : κ)
  | act (c : κ) (a : Action)
  /-- `channelRead` looks the response's id up. -/
  | arrive (r : MessageResponse V)
  | remove
  | overLock
  | store
  | signal
  | unlock
  deriving DecidableEq, Repr

variable {κ V : Type*} [DecidableEq κ]

namespace Client

/-- The channel thread holds the lock of the callback. -/
def held (s : Client κ V) (c : κ) : Bool :=
  match s.channel with
  | .locked x | .stored x | .signalled x => x.callBack = c
  | _ => false

/-- The call holds the lock of its callback. -/
def holds (s : Client κ V) (c : κ) : Bool :=
  match s.pc c with
  | .locked | .relocked _ => true
  | _ => false

def goto (s : Client κ V) (c : κ) (pc : Pc V) : Client κ V :=
  { s with pc := Function.update s.pc c pc }

/-- `STRING_OBJECT_MAP.put`, and `remove` for no callback. -/
def setEntry (s : Client κ V) (k : String) (o : Option κ) : Client κ V :=
  { s with map := Function.update s.map k o }

def setChannel (s : Client κ V) (channel : Channel κ V) : Client κ V :=
  { s with channel := channel }

/-- Where the action takes the call. `getResult` of no response is null. -/
def next (s : Client κ V) (c : κ) : Action → Option (Pc V)
  | .write =>
    match s.pc c with
    | .put => some (if s.active then .written else .returned .unwritten .throws)
    | _ => none
  | .lock =>
    match s.pc c with
    | .written => if s.held c then none else some .locked
    | .woken i => if s.held c then none else some (.relocked i)
    | _ => none
  | .await =>
    match s.pc c with
    | .locked => some .waiting
    | _ => none
  | .timeout | .wakeUp =>
    match s.pc c with
    | .waiting => some (.woken false)
    | _ => none
  | .interrupt =>
    match s.pc c with
    | .waiting => some (.woken true)
    | _ => none
  | .read =>
    match s.pc c with
    | .relocked true => some (.returned .interrupted .throws)
    | .relocked false =>
      some (.returned (.read (s.response c).isSome) (.value ((s.response c).bind (·.result))))
    | _ => none

variable (messageId : κ → String)

def step (s : Client κ V) : Event κ V → Option (Client κ V)
  | .channelActive => some { s with active := true }
  | .put c =>
    match s.pc c with
    | .idle => some ((s.setEntry (messageId c) (some c)).goto c .put)
    | _ => none
  | .act c a => (s.next c a).map (s.goto c)
  | .arrive r =>
    match s.channel with
    | .idle =>
      let channel := match s.map r.messageId with
        | some c => .found ⟨c, r, s.arrived.length⟩
        | none => .idle
      some { s with channel := channel, arrived := s.arrived ++ [r] }
    | _ => none
  | .remove =>
    match s.channel with
    | .found x => some ((s.setEntry x.response.messageId none).setChannel (.removed x))
    | _ => none
  | .overLock =>
    match s.channel with
    | .removed x => if s.holds x.callBack then none else some (s.setChannel (.locked x))
    | _ => none
  | .store =>
    match s.channel with
    | .locked x => some { s with
        response := Function.update s.response x.callBack (some x.response)
        channel := .stored x
        delivered := (x.number, x.callBack) :: s.delivered }
    | _ => none
  | .signal =>
    match s.channel with
    | .stored x =>
      let s' := match s.pc x.callBack with
        | .waiting => s.goto x.callBack (.woken false)
        | _ => s
      some (s'.setChannel (.signalled x))
    | _ => none
  | .unlock =>
    match s.channel with
    | .signalled _ => some (s.setChannel .idle)
    | _ => none

/-! ### What the steps do -/

variable {messageId} {s s' : Client κ V} {c : κ}

@[simp] theorem goto_pc (pc : Pc V) (d : κ) :
    (s.goto c pc).pc d = if d = c then pc else s.pc d := by
  simp [goto, Function.update_apply]

@[simp] theorem goto_map (pc : Pc V) : (s.goto c pc).map = s.map := rfl
@[simp] theorem goto_response (pc : Pc V) : (s.goto c pc).response = s.response := rfl
@[simp] theorem goto_channel (pc : Pc V) : (s.goto c pc).channel = s.channel := rfl

section

omit [DecidableEq κ]

@[simp] theorem setEntry_map (k : String) (o : Option κ) (l : String) :
    (s.setEntry k o).map l = if l = k then o else s.map l := by
  simp [setEntry, Function.update_apply]

@[simp] theorem setEntry_pc (k : String) (o : Option κ) : (s.setEntry k o).pc = s.pc := rfl
@[simp] theorem setEntry_response (k : String) (o : Option κ) :
    (s.setEntry k o).response = s.response := rfl
@[simp] theorem setEntry_channel (k : String) (o : Option κ) :
    (s.setEntry k o).channel = s.channel := rfl
@[simp] theorem setChannel_pc (ch : Channel κ V) : (s.setChannel ch).pc = s.pc := rfl
@[simp] theorem setChannel_map (ch : Channel κ V) : (s.setChannel ch).map = s.map := rfl
@[simp] theorem setChannel_response (ch : Channel κ V) :
    (s.setChannel ch).response = s.response := rfl
@[simp] theorem setChannel_channel (ch : Channel κ V) : (s.setChannel ch).channel = ch := rfl

end

theorem step_put (h : step messageId s (.put c) = some s') :
    s.pc c = .idle ∧ s' = (s.setEntry (messageId c) (some c)).goto c .put := by
  simp only [step] at h
  split at h
  · rename_i hp
    exact ⟨hp, (Option.some.inj h).symm⟩
  · cases h

theorem step_act {a : Action} (h : step messageId s (.act c a) = some s') :
    ∃ pc, s.next c a = some pc ∧ s' = s.goto c pc := by
  obtain ⟨pc, hn, he⟩ := Option.map_eq_some_iff.mp h
  exact ⟨pc, hn, he.symm⟩

theorem step_arrive {r : MessageResponse V} (h : step messageId s (.arrive r) = some s') :
    s.channel = .idle ∧
      (s.map r.messageId = none ∧ s' = { s with arrived := s.arrived ++ [r] } ∨
        ∃ c, s.map r.messageId = some c ∧
          s' = { s with
            channel := .found ⟨c, r, s.arrived.length⟩
            arrived := s.arrived ++ [r] }) := by
  simp only [step] at h
  split at h
  · rename_i hc
    refine ⟨hc, ?_⟩
    rcases hm : s.map r.messageId with _ | c
    · simp only [hm, Option.some.injEq] at h
      exact .inl ⟨rfl, by rw [← h, ← hc]⟩
    · simp only [hm, Option.some.injEq] at h
      exact .inr ⟨c, rfl, h.symm⟩
  · cases h

theorem step_remove (h : step messageId s .remove = some s') :
    ∃ x, s.channel = .found x ∧
      s' = (s.setEntry x.response.messageId none).setChannel (.removed x) := by
  simp only [step] at h
  split at h
  · rename_i x hc
    exact ⟨x, hc, (Option.some.inj h).symm⟩
  · cases h

theorem step_overLock (h : step messageId s .overLock = some s') :
    ∃ x, s.channel = .removed x ∧ s.holds x.callBack = false ∧
      s' = s.setChannel (.locked x) := by
  simp only [step] at h
  split at h
  · rename_i x hc
    split at h
    · cases h
    · rename_i hh
      exact ⟨x, hc, by simpa using hh, (Option.some.inj h).symm⟩
  · cases h

theorem step_store (h : step messageId s .store = some s') :
    ∃ x, s.channel = .locked x ∧
      s' = { s with
        response := Function.update s.response x.callBack (some x.response)
        channel := .stored x
        delivered := (x.number, x.callBack) :: s.delivered } := by
  simp only [step] at h
  split at h
  · rename_i x hc
    exact ⟨x, hc, (Option.some.inj h).symm⟩
  · cases h

/-- The signal wakes the caller if it waits. -/
theorem step_signal (h : step messageId s .signal = some s') :
    ∃ x, s.channel = .stored x ∧
      (s.pc x.callBack = .waiting ∧
          s' = (s.goto x.callBack (.woken false)).setChannel (.signalled x) ∨
        s.pc x.callBack ≠ .waiting ∧ s' = s.setChannel (.signalled x)) := by
  simp only [step] at h
  split at h
  · rename_i x hc
    refine ⟨x, hc, ?_⟩
    have he := (Option.some.inj h).symm
    split at he
    · rename_i hp
      exact .inl ⟨hp, he⟩
    · rename_i hp
      exact .inr ⟨hp, he⟩
  · cases h

theorem step_unlock (h : step messageId s .unlock = some s') :
    ∃ x, s.channel = .signalled x ∧ s' = s.setChannel .idle := by
  simp only [step] at h
  split at h
  · rename_i x hc
    exact ⟨x, hc, (Option.some.inj h).symm⟩
  · cases h

/-- A call returns by a write that throws, or by the end of `start`. -/
theorem next_returned {a : Action} {ending : Ending} {r : Returned V}
    (h : s.next c a = some (.returned ending r)) :
    s.pc c = .put ∧ ending = .unwritten ∧ r = .throws ∨
      s.pc c = .relocked true ∧ ending = .interrupted ∧ r = .throws ∨
      s.pc c = .relocked false ∧ ending = .read (s.response c).isSome ∧
        r = .value ((s.response c).bind (·.result)) := by
  cases a with
  | write =>
    simp only [next] at h
    split at h
    · rename_i hp
      split at h <;> cases h
      exact .inl ⟨hp, rfl, rfl⟩
    · cases h
  | lock =>
    simp only [next] at h
    split at h
    · split at h <;> cases h
    · split at h <;> cases h
    · cases h
  | read =>
    simp only [next] at h
    split at h
    · rename_i hp
      cases h
      exact .inr (.inl ⟨hp, rfl, rfl⟩)
    · rename_i hp
      cases h
      exact .inr (.inr ⟨hp, rfl, rfl⟩)
    · cases h
  | _ =>
    simp only [next] at h
    split at h <;> cases h

/-- No action takes a call back to its beginning. -/
theorem next_begun {a : Action} {pc : Pc V} (h : s.next c a = some pc) :
    pc ≠ .idle ∧ pc ≠ .put := by
  cases a with
  | write =>
    simp only [next] at h
    split at h
    · split at h <;> cases h <;> simp
    · cases h
  | lock =>
    simp only [next] at h
    split at h
    · split at h <;> cases h
      simp
    · split at h <;> cases h
      simp
    · cases h
  | _ =>
    simp only [next] at h
    split at h <;> cases h <;> simp

/-- A write finds the entry put. -/
theorem next_write {pc : Pc V} (h : s.next c .write = some pc) :
    s.pc c = .put ∧ pc = if s.active then .written else .returned .unwritten .throws := by
  simp only [next] at h
  split at h
  · rename_i hp
    exact ⟨hp, (Option.some.inj h).symm⟩
  · cases h

/-! ### Runs of one call -/

/-- `channelRead` of a response that is expected. -/
def channelRead (r : MessageResponse V) : List (Event κ V) :=
  [.arrive r, .remove, .overLock, .store, .signal, .unlock]

/-- `sendRequest`, and `start` up to the wait. -/
def callOf (c : κ) : List (Event κ V) := [.put c, .act c .write, .act c .lock, .act c .await]

/-- The end of `start`. -/
def returnOf (c : κ) : List (Event κ V) := [.act c .lock, .act c .read]

/-- Ids for the calls 0, 1 and others. -/
def ids (c : ℕ) : String := if c = 0 then "0" else if c = 1 then "1" else "2"

end Client
end Rpc
end CloudManager
