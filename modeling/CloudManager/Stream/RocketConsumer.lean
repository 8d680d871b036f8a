/-
# The RocketMQ stream consumer

The broker's calls of `consumeMessage` put their messages into a bounded queue, and
the poll loop of the container takes them out and passes them to the listener.
Every failure in between is caught and logged: `consumeMessage` returns
CONSUME_SUCCESS for every batch whose bodies are not null. `passed_iff` says for
which batches that is true of every message.
-/
import Mathlib.Logic.Function.Basic
import CloudManager.Lib.Executions

namespace CloudManager
namespace Stream

open Runs

/-! ### The consumer -/

/-- What `EmbeddedHeaderUtils.extractHeaders` makes of a payload, and the message
builder of that; `none`: an exception. -/
structure Conversion (P V M : Type*) where
  extractHeaders : P → Option V
  build : V → Option M

variable {P V M : Type*}

def Conversion.message (x : Conversion P V M) (payload : P) : Option M :=
  (x.extractHeaders payload).bind x.build

/-- A message of a batch: its call of `consumeMessage`, and its place in the batch. -/
structure Item where
  call : ℕ
  index : ℕ
  deriving DecidableEq, Repr

/-- Where a call of `consumeMessage` is; a body may be null. -/
inductive Call (P M : Type*)
  | idle
  /-- The loop comes to the message at place `i`. -/
  | next (batch : List (Option P)) (i : ℕ)
  /-- In `queue.put`. -/
  | put (batch : List (Option P)) (i : ℕ) (message : M)
  /-- CONSUME_SUCCESS is returned. -/
  | success (batch : List (Option P))
  /-- The message at place `i` had no body: `new String` throws. -/
  | threw (batch : List (Option P)) (i : ℕ)
  deriving DecidableEq

def Call.batch : Call P M → Option (List (Option P))
  | .idle => none
  | .next batch _ | .put batch _ _ | .success batch | .threw batch _ => some batch

/-- The number of messages that the loop is done with. -/
def Call.taken : Call P M → ℕ
  | .idle => 0
  | .next _ i | .put _ i _ | .threw _ i => i
  | .success batch => batch.length

/-- The loop is within the batch, and what it puts is made of the message it has come to. -/
def Call.Fits (x : Conversion P V M) : Call P M → Prop
  | .next batch i => i ≤ batch.length
  | .put batch i message =>
    ∃ payload, batch[i]? = some (some payload) ∧ x.message payload = some message
  | _ => True

/-- The queue, the calls, and the message that the poll loop has in hand, with the
messages that were put, passed to the listener, lost, and lost by an interrupt. -/
structure Consumer (P M : Type*) where
  queue : List (Item × M) := []
  call : ℕ → Call P M := fun _ => .idle
  polled : Option (Item × M) := none
  puts : List (Item × M) := []
  onMessages : List (Item × M) := []
  failed : List Item := []
  interrupted : List Item := []

inductive Event (P : Type*)
  | consumeMessage (c : ℕ) (batch : List (Option P))
  /-- The loop's next turn, up to `queue.put`. -/
  | turn (c : ℕ)
  | put (c : ℕ)
  /-- `queue.put` throws an `InterruptedException`. -/
  | interrupt (c : ℕ)
  /-- `nextMessage`: with nothing in the queue it throws after its timeout, and the loop
  goes on. -/
  | poll
  /-- `executeListener`; what the listener throws is caught. -/
  | onMessage
  deriving DecidableEq

/-- A step of the poll loop. -/
def Event.loops : Event P → Prop
  | .poll | .onMessage => True
  | _ => False

namespace Consumer

def goto (s : Consumer P M) (c : ℕ) (call : Call P M) : Consumer P M :=
  { s with call := Function.update s.call c call }

variable (x : Conversion P V M) (prefetchCount : ℕ)

def step (s : Consumer P M) : Event P → Option (Consumer P M)
  | .consumeMessage c batch =>
    match s.call c with
    | .idle => some (s.goto c (.next batch 0))
    | _ => none
  | .turn c =>
    match s.call c with
    | .next batch i =>
      match batch[i]? with
      | none => some (s.goto c (.success batch))
      | some none => some (s.goto c (.threw batch i))
      | some (some payload) =>
        match x.message payload with
        | some message => some (s.goto c (.put batch i message))
        | none => some { s.goto c (.next batch (i + 1)) with failed := ⟨c, i⟩ :: s.failed }
    | _ => none
  | .put c =>
    match s.call c with
    | .put batch i message =>
      if s.queue.length < prefetchCount then
        some { s.goto c (.next batch (i + 1)) with
          queue := s.queue ++ [(⟨c, i⟩, message)]
          puts := s.puts ++ [(⟨c, i⟩, message)] }
      else none
    | _ => none
  | .interrupt c =>
    match s.call c with
    | .put batch i _ =>
      some { s.goto c (.next batch (i + 1)) with
        failed := ⟨c, i⟩ :: s.failed
        interrupted := ⟨c, i⟩ :: s.interrupted }
    | _ => none
  | .poll =>
    match s.polled, s.queue with
    | none, y :: queue => some { s with polled := some y, queue := queue }
    | none, [] => some s
    | some _, _ => none
  | .onMessage =>
    match s.polled with
    | some y => some { s with polled := none, onMessages := s.onMessages ++ [y] }
    | none => none

/-! ### What the steps do -/

variable {x prefetchCount} {s s' : Consumer P M} {c : ℕ}

@[simp] theorem goto_call (call : Call P M) (d : ℕ) :
    (s.goto c call).call d = if d = c then call else s.call d := by
  simp [goto, Function.update_apply]

theorem step_consumeMessage {batch : List (Option P)}
    (h : step x prefetchCount s (.consumeMessage c batch) = some s') :
    s.call c = .idle ∧ s' = s.goto c (.next batch 0) := by
  simp only [step] at h
  split at h
  · rename_i hc
    exact ⟨hc, (Option.some.inj h).symm⟩
  · cases h

theorem step_turn (h : step x prefetchCount s (.turn c) = some s') :
    ∃ batch i, s.call c = .next batch i ∧
      (batch[i]? = none ∧ s' = s.goto c (.success batch) ∨
        batch[i]? = some none ∧ s' = s.goto c (.threw batch i) ∨
        ∃ payload, batch[i]? = some (some payload) ∧
          ((∃ message, x.message payload = some message ∧
              s' = s.goto c (.put batch i message)) ∨
            x.message payload = none ∧
              s' = { s.goto c (.next batch (i + 1)) with failed := ⟨c, i⟩ :: s.failed })) := by
  simp only [step] at h
  split at h
  · rename_i batch i hc
    refine ⟨batch, i, hc, ?_⟩
    split at h
    · rename_i hb
      exact .inl ⟨hb, (Option.some.inj h).symm⟩
    · rename_i hb
      exact .inr (.inl ⟨hb, (Option.some.inj h).symm⟩)
    · rename_i payload hb
      refine .inr (.inr ⟨payload, hb, ?_⟩)
      split at h
      · rename_i message hm
        exact .inl ⟨message, hm, (Option.some.inj h).symm⟩
      · rename_i hm
        exact .inr ⟨hm, (Option.some.inj h).symm⟩
  · cases h

theorem step_put (h : step x prefetchCount s (.put c) = some s') :
    ∃ batch i message, s.call c = .put batch i message ∧ s.queue.length < prefetchCount ∧
      s' = { s.goto c (.next batch (i + 1)) with
        queue := s.queue ++ [(⟨c, i⟩, message)]
        puts := s.puts ++ [(⟨c, i⟩, message)] } := by
  simp only [step] at h
  split at h
  · rename_i batch i message hc
    split at h
    · rename_i hq
      exact ⟨batch, i, message, hc, hq, (Option.some.inj h).symm⟩
    · cases h
  · cases h

theorem step_interrupt (h : step x prefetchCount s (.interrupt c) = some s') :
    ∃ batch i message, s.call c = .put batch i message ∧
      s' = { s.goto c (.next batch (i + 1)) with
        failed := ⟨c, i⟩ :: s.failed
        interrupted := ⟨c, i⟩ :: s.interrupted } := by
  simp only [step] at h
  split at h
  · rename_i batch i message hc
    exact ⟨batch, i, message, hc, (Option.some.inj h).symm⟩
  · cases h

theorem step_poll (h : step x prefetchCount s .poll = some s') :
    s.polled = none ∧ ((∃ y queue, s.queue = y :: queue ∧
        s' = { s with polled := some y, queue := queue }) ∨ s.queue = [] ∧ s' = s) := by
  simp only [step] at h
  split at h
  · rename_i y queue hp hq
    exact ⟨hp, .inl ⟨y, queue, hq, (Option.some.inj h).symm⟩⟩
  · rename_i hp hq
    exact ⟨hp, .inr ⟨hq, (Option.some.inj h).symm⟩⟩
  · cases h

theorem step_onMessage (h : step x prefetchCount s .onMessage = some s') :
    ∃ y, s.polled = some y ∧
      s' = { s with polled := none, onMessages := s.onMessages ++ [y] } := by
  simp only [step] at h
  split at h
  · rename_i y hp
    exact ⟨y, hp, (Option.some.inj h).symm⟩
  · cases h

/-! ### Where the messages are -/

/-- The item's body is this payload. -/
def Carries (s : Consumer P M) (k : Item) (payload : P) : Prop :=
  ∃ batch, (s.call k.call).batch = some batch ∧ batch[k.index]? = some (some payload)

/-- Every message that a loop is done with was put, once, or is lost, for a reason; and
what was put is in the queue, in hand or passed on, in this order. -/
structure Inv (x : Conversion P V M) (s : Consumer P M) : Prop where
  flow : s.onMessages ++ s.polled.toList ++ s.queue = s.puts
  once : (s.puts.map Prod.fst).Nodup
  content : ∀ y ∈ s.puts, ∃ payload, s.Carries y.1 payload ∧ x.message payload = some y.2
  taken : ∀ k, k ∈ s.puts.map Prod.fst ∨ k ∈ s.failed ↔ k.index < (s.call k.call).taken
  apart : ∀ k ∈ s.failed, k ∉ s.puts.map Prod.fst
  cause : ∀ k ∈ s.failed, k ∈ s.interrupted ∨
    ∃ payload, s.Carries k payload ∧ x.message payload = none
  interrupted : ∀ k ∈ s.interrupted, k ∈ s.failed
  fits : ∀ c, (s.call c).Fits x

theorem Inv.start : Inv x ({} : Consumer P M) where
  flow := rfl
  once := List.nodup_nil
  content _ h := by cases h
  taken k := by simp [Call.taken]
  apart _ h := by cases h
  cause _ h := by cases h
  interrupted _ h := by cases h
  fits _ := trivial

theorem Carries.mono {k : Item} {payload : P} (h : s.Carries k payload)
    (hb : ∀ d b, (s.call d).batch = some b → (s'.call d).batch = some b) :
    s'.Carries k payload := by
  obtain ⟨batch, hk, hi⟩ := h
  exact ⟨batch, hb _ _ hk, hi⟩

/-- A call moves on, with its batch. -/
theorem batch_goto {call : Call P M} (hb : ∀ b, (s.call c).batch = some b → call.batch = some b)
    (d : ℕ) (b : List (Option P)) (h : (s.call d).batch = some b) :
    ((s.goto c call).call d).batch = some b := by
  rw [goto_call]
  split
  · rename_i hd
    exact hb b (hd ▸ h)
  · exact h

/-- A call moves on, and is done with no message by that. -/
theorem Inv.goto (h : Inv x s) {call : Call P M}
    (hb : ∀ b, (s.call c).batch = some b → call.batch = some b)
    (ht : call.taken = (s.call c).taken) (hf : call.Fits x) : Inv x (s.goto c call) := by
  refine ⟨h.flow, h.once, fun y hy => ?_, fun k => ?_, h.apart, fun k hk => ?_, h.interrupted,
    fun d => ?_⟩
  · obtain ⟨payload, hc, hm⟩ := h.content y hy
    exact ⟨payload, hc.mono (batch_goto hb), hm⟩
  · have htaken : ((s.goto c call).call k.call).taken = (s.call k.call).taken := by
      rw [goto_call]
      split
      · rename_i hk
        rw [ht, hk]
      · rfl
    rw [htaken]
    exact h.taken k
  · exact (h.cause k hk).imp_right fun ⟨payload, hc, hm⟩ => ⟨payload, hc.mono (batch_goto hb), hm⟩
  · rw [goto_call]
    split
    · exact hf
    · exact h.fits d

/-- The items that the loops are done with, when one loop goes a place further. -/
theorem taken_next (h : Inv x s) {batch : List (Option P)} {i : ℕ}
    (ht : (s.call c).taken = i) (k : Item) :
    k = ⟨c, i⟩ ∨ k ∈ s.puts.map Prod.fst ∨ k ∈ s.failed ↔
      k.index < ((s.goto c (.next batch (i + 1))).call k.call).taken := by
  rw [h.taken, goto_call]
  obtain ⟨d, j⟩ := k
  split
  · rename_i hd
    obtain rfl : d = c := hd
    rw [ht]
    simp only [Call.taken, Item.mk.injEq, true_and]
    omega
  · rename_i hd
    have hne : (⟨d, j⟩ : Item) ≠ ⟨c, i⟩ := fun he => hd (congrArg Item.call he)
    simp only [hne, false_or]

/-- The item that a loop has come to is neither put nor lost yet. -/
theorem Inv.not_taken (h : Inv x s) {i : ℕ} (ht : (s.call c).taken = i) :
    ⟨c, i⟩ ∉ s.puts.map Prod.fst ∧ ⟨c, i⟩ ∉ s.failed := by
  have hk : ¬ ((⟨c, i⟩ : Item).index < (s.call (⟨c, i⟩ : Item).call).taken) := by
    simp only [ht]
    omega
  exact not_or.mp fun hor => hk ((h.taken ⟨c, i⟩).mp hor)

theorem Inv.put (h : Inv x s) {batch : List (Option P)} {i : ℕ} {message : M}
    (hc : s.call c = .put batch i message) :
    Inv x { s.goto c (.next batch (i + 1)) with
      queue := s.queue ++ [(⟨c, i⟩, message)]
      puts := s.puts ++ [(⟨c, i⟩, message)] } := by
  have hbatch : ∀ b, (s.call c).batch = some b → (Call.next (M := M) batch (i + 1)).batch = some b :=
    fun b hb => by simpa [hc, Call.batch] using hb
  have ht : (s.call c).taken = i := by rw [hc]; rfl
  have hnew := h.not_taken ht
  obtain ⟨payload, hp, hm⟩ : (Call.put batch i message).Fits x := hc ▸ h.fits c
  refine ⟨?_, ?_, fun y hy => ?_, fun k => ?_, fun k hk hput => ?_, fun k hk => ?_, h.interrupted,
    fun d => ?_⟩
  · simp only [← List.append_assoc, ← h.flow]
    rfl
  · simp only [List.map_append, List.map_cons, List.map_nil]
    exact List.nodup_append.mpr ⟨h.once, by simp, fun a ha b hb => by
      rintro rfl
      rw [List.mem_singleton] at hb
      exact hnew.1 (hb ▸ ha)⟩
  · obtain hy | hy := List.mem_append.mp hy
    · obtain ⟨payload, hcar, hm⟩ := h.content y hy
      exact ⟨payload, hcar.mono (batch_goto hbatch), hm⟩
    · obtain rfl := List.mem_singleton.mp hy
      exact ⟨payload, ⟨batch, by simp [Call.batch], hp⟩, hm⟩
  · rw [← taken_next h ht]
    simp only [List.map_append, List.map_cons, List.map_nil, List.mem_append, List.mem_singleton]
    tauto
  · simp only [List.map_append, List.map_cons, List.map_nil, List.mem_append,
      List.mem_singleton] at hput
    obtain hput | rfl := hput
    · exact h.apart k hk hput
    · exact hnew.2 hk
  · exact (h.cause k hk).imp_right fun ⟨payload, hcar, hm⟩ =>
      ⟨payload, hcar.mono (batch_goto hbatch), hm⟩
  · show ((s.goto c (.next batch (i + 1))).call d).Fits x
    rw [goto_call]
    split
    · exact (List.getElem?_eq_some_iff.mp hp).1
    · exact h.fits d

/-- A message is lost: its conversion throws, or its put is interrupted. -/
theorem Inv.fail (h : Inv x s) {batch : List (Option P)} {i : ℕ} {interrupted : List Item}
    (hb : (s.call c).batch = some batch) (ht : (s.call c).taken = i) (hi : i < batch.length)
    (hc : (interrupted = s.interrupted ∧
        ∃ payload, batch[i]? = some (some payload) ∧ x.message payload = none) ∨
      interrupted = ⟨c, i⟩ :: s.interrupted) :
    Inv x { s.goto c (.next batch (i + 1)) with
      failed := ⟨c, i⟩ :: s.failed
      interrupted := interrupted } := by
  have hbatch : ∀ b, (s.call c).batch = some b → (Call.next (M := M) batch (i + 1)).batch = some b :=
    fun b hb' => hb.symm.trans hb'
  have hnew := h.not_taken ht
  have hold : ∀ k ∈ s.interrupted, k ∈ interrupted := by
    obtain ⟨rfl, -⟩ | rfl := hc
    · exact fun _ => id
    · exact fun _ => List.mem_cons_of_mem _
  refine ⟨h.flow, h.once, fun y hy => ?_, fun k => ?_, fun k hk => ?_, fun k hk => ?_,
    fun k hk => ?_, fun d => ?_⟩
  · obtain ⟨payload, hcar, hm⟩ := h.content y hy
    exact ⟨payload, hcar.mono (batch_goto hbatch), hm⟩
  · rw [← taken_next h ht]
    simp only [List.mem_cons]
    tauto
  · obtain rfl | hk := List.mem_cons.mp hk
    · exact hnew.1
    · exact h.apart k hk
  · obtain rfl | hk := List.mem_cons.mp hk
    · obtain ⟨-, payload, hp, hm⟩ | rfl := hc
      · exact .inr ⟨payload, ⟨batch, by simp [Call.batch], hp⟩, hm⟩
      · exact .inl List.mem_cons_self
    · exact (h.cause k hk).imp (hold k) fun ⟨payload, hcar, hm⟩ =>
        ⟨payload, hcar.mono (batch_goto hbatch), hm⟩
  · obtain ⟨rfl, -⟩ | rfl := hc
    · exact List.mem_cons_of_mem _ (h.interrupted k hk)
    · obtain rfl | hk := List.mem_cons.mp hk
      · exact List.mem_cons_self
      · exact List.mem_cons_of_mem _ (h.interrupted k hk)
  · show ((s.goto c (.next batch (i + 1))).call d).Fits x
    rw [goto_call]
    split
    · exact hi
    · exact h.fits d

theorem Inv.step {e : Event P} (h : Inv x s) (he : step x prefetchCount s e = some s') :
    Inv x s' := by
  cases e with
  | consumeMessage c batch =>
    obtain ⟨hc, rfl⟩ := step_consumeMessage he
    exact h.goto (by simp [hc, Call.batch]) (by simp [hc, Call.taken]) (Nat.zero_le _)
  | turn c =>
    obtain ⟨batch, i, hc, ⟨hb, rfl⟩ | ⟨hb, rfl⟩ | ⟨payload, hb, hs⟩⟩ := step_turn he
    · have hfits : i ≤ batch.length := by simpa [hc, Call.Fits] using h.fits c
      have hlen := List.getElem?_eq_none_iff.mp hb
      exact h.goto (by simp [hc, Call.batch]) (by simp [hc, Call.taken]; omega) trivial
    · exact h.goto (by simp [hc, Call.batch]) (by simp [hc, Call.taken]) trivial
    · obtain ⟨message, hm, rfl⟩ | ⟨hm, rfl⟩ := hs
      · exact h.goto (by simp [hc, Call.batch]) (by simp [hc, Call.taken]) ⟨payload, hb, hm⟩
      · exact h.fail (by simp [hc, Call.batch]) (by simp [hc, Call.taken])
          (List.getElem?_eq_some_iff.mp hb).1 (.inl ⟨rfl, payload, hb, hm⟩)
  | put c =>
    obtain ⟨batch, i, message, hc, -, rfl⟩ := step_put he
    exact h.put hc
  | interrupt c =>
    obtain ⟨batch, i, message, hc, rfl⟩ := step_interrupt he
    obtain ⟨payload, hp, -⟩ : (Call.put batch i message).Fits x := hc ▸ h.fits c
    exact h.fail (by simp [hc, Call.batch]) (by simp [hc, Call.taken])
      (List.getElem?_eq_some_iff.mp hp).1 (.inr rfl)
  | poll =>
    obtain ⟨hp, ⟨y, queue, hq, rfl⟩ | ⟨-, rfl⟩⟩ := step_poll he
    · refine ⟨?_, h.once, h.content, h.taken, h.apart, h.cause, h.interrupted, h.fits⟩
      simpa [hp, hq] using h.flow
    · exact h
  | onMessage =>
    obtain ⟨y, hp, rfl⟩ := step_onMessage he
    refine ⟨?_, h.once, h.content, h.taken, h.apart, h.cause, h.interrupted, h.fits⟩
    simpa [hp] using h.flow

/-! ### What is passed to the listener -/

/-- What only grows. -/
structure Grows (s s' : Consumer P M) : Prop where
  puts : s.puts <+: s'.puts
  onMessages : s.onMessages <+: s'.onMessages

theorem Grows.refl (s : Consumer P M) : Grows s s := ⟨List.prefix_rfl, List.prefix_rfl⟩

theorem Grows.trans {s'' : Consumer P M} (h : Grows s s') (h' : Grows s' s'') : Grows s s'' :=
  ⟨h.puts.trans h'.puts, h.onMessages.trans h'.onMessages⟩

theorem grows_step (e : Event P) (he : step x prefetchCount s e = some s') : Grows s s' := by
  cases e with
  | consumeMessage c batch =>
    obtain ⟨-, rfl⟩ := step_consumeMessage he
    exact ⟨List.prefix_rfl, List.prefix_rfl⟩
  | turn c =>
    obtain ⟨batch, i, -, ⟨-, rfl⟩ | ⟨-, rfl⟩ | ⟨payload, -, ⟨message, -, rfl⟩ | ⟨-, rfl⟩⟩⟩ :=
      step_turn he
    all_goals exact ⟨List.prefix_rfl, List.prefix_rfl⟩
  | put c =>
    obtain ⟨batch, i, message, -, -, rfl⟩ := step_put he
    exact ⟨List.prefix_append _ _, List.prefix_rfl⟩
  | interrupt c =>
    obtain ⟨batch, i, message, -, rfl⟩ := step_interrupt he
    exact ⟨List.prefix_rfl, List.prefix_rfl⟩
  | poll =>
    obtain ⟨-, ⟨y, queue, -, rfl⟩ | ⟨-, rfl⟩⟩ := step_poll he
    all_goals exact ⟨List.prefix_rfl, List.prefix_rfl⟩
  | onMessage =>
    obtain ⟨y, -, rfl⟩ := step_onMessage he
    exact ⟨List.prefix_rfl, List.prefix_append _ _⟩

/-- The polls and passes that are left until the `n`-th message put is passed on. -/
def left (n : ℕ) (s : Consumer P M) : ℕ :=
  2 * (n + 1 - s.onMessages.length) - s.polled.toList.length

/-- Every poll and every pass is one less, until the message is passed on. -/
theorem left_step {e : Event P} {n : ℕ} {y : Item × M} (h : Inv x s) (hn : s.puts[n]? = some y)
    (he : step x prefetchCount s e = some s') :
    y ∈ s'.onMessages ∨ left n s' ≤ left n s ∧ (e.loops → left n s' < left n s) := by
  by_cases hy : y ∈ s.onMessages
  · exact .inl ((grows_step e he).onMessages.subset hy)
  have hlen : s.onMessages.length ≤ n := by
    by_contra hlt
    rw [← h.flow, List.append_assoc, List.getElem?_append_left (by omega)] at hn
    exact hy (List.mem_of_getElem? hn)
  refine .inr ?_
  cases e with
  | consumeMessage c batch =>
    obtain ⟨-, rfl⟩ := step_consumeMessage he
    exact ⟨Nat.le_refl _, False.elim⟩
  | turn c =>
    obtain ⟨batch, i, -, ⟨-, rfl⟩ | ⟨-, rfl⟩ | ⟨payload, -, ⟨message, -, rfl⟩ | ⟨-, rfl⟩⟩⟩ :=
      step_turn he
    all_goals exact ⟨Nat.le_refl _, False.elim⟩
  | put c =>
    obtain ⟨batch, i, message, -, -, rfl⟩ := step_put he
    exact ⟨Nat.le_refl _, False.elim⟩
  | interrupt c =>
    obtain ⟨batch, i, message, -, rfl⟩ := step_interrupt he
    exact ⟨Nat.le_refl _, False.elim⟩
  | poll =>
    obtain ⟨hp, ⟨z, queue, -, rfl⟩ | ⟨hq, -⟩⟩ := step_poll he
    · have hless : left n { s with polled := some z, queue := queue } < left n s := by
        simp only [left, hp, Option.toList_some, Option.toList_none, List.length_cons,
          List.length_nil]
        omega
      exact ⟨Nat.le_of_lt hless, fun _ => hless⟩
    · -- with nothing in the queue or in hand everything put has been passed on
      have hflow : s.onMessages = s.puts := by simpa [hp, hq] using h.flow
      exact (hy (hflow ▸ List.mem_of_getElem? hn)).elim
  | onMessage =>
    obtain ⟨z, hp, rfl⟩ := step_onMessage he
    have hless : left n { s with polled := none, onMessages := s.onMessages ++ [z] } < left n s := by
      simp only [left, hp, Option.toList_some, Option.toList_none, List.length_cons,
        List.length_nil, List.length_append]
      omega
    exact ⟨Nat.le_of_lt hless, fun _ => hless⟩

theorem inv_of_reach (h : Reach (step x prefetchCount) (fun _ _ => True) {} s) : Inv x s :=
  h.invariant .start fun _ _ _ hi _ => hi.step

/-- What is put is passed on while the poll loop runs. -/
theorem eventually_passed (r : Execution (step x prefetchCount) (fun _ _ => True) {})
    (fair : ∀ t, ∃ u, t ≤ u ∧ (r.event u).loops) {t : ℕ} {y : Item × M}
    (hy : y ∈ (r.state t).puts) : ∃ u, t ≤ u ∧ y ∈ (r.state u).onMessages := by
  obtain ⟨n, hn⟩ := List.mem_iff_getElem?.mp hy
  refine r.eventually (P := fun s => y ∈ s.onMessages) (Q := fun s => s.puts[n]? = some y)
    (μ := left n) fair ?_ ?_ ?_ hn
  · intro s e s' _ hq he
    obtain ⟨l, hl⟩ := (grows_step e he).puts
    rw [← hl, List.getElem?_append_left (List.getElem?_eq_some_iff.mp hq).1, hq]
  · intro s e s' hr hq he
    exact (left_step (inv_of_reach hr) hq he).imp_right And.left
  · intro s e s' hr hq hl he
    exact (left_step (inv_of_reach hr) hq he).imp_right fun hs => hs.2 hl

/-- In a list without a key twice an entry is the only one of its key. -/
theorem filter_eq_singleton {α β : Type*} [DecidableEq α] :
    ∀ {l : List (α × β)} {y : α × β}, (l.map Prod.fst).Nodup → y ∈ l →
      l.filter (·.1 = y.1) = [y]
  | z :: l, y, hn, hy => by
    obtain ⟨hz, hl⟩ := List.nodup_cons.mp hn
    obtain rfl | hy := List.mem_cons.mp hy
    · have hrest : l.filter (·.1 = y.1) = [] := by
        refine List.filter_eq_nil_iff.mpr fun w hw => ?_
        simp only [decide_eq_true_eq]
        exact fun he => hz (he ▸ List.mem_map.mpr ⟨w, hw, rfl⟩)
      simp [hrest]
    · have hne : z.1 ≠ y.1 := fun he => hz (he ▸ List.mem_map.mpr ⟨y, hy, rfl⟩)
      simp [hne, filter_eq_singleton hl hy]

/-- The message at place `i` of the call's batch is passed to the listener once, as what
its body is converted to. -/
def Passed (x : Conversion P V M) (s : Consumer P M) (c : ℕ) (batch : List (Option P)) (i : ℕ) :
    Prop :=
  ∃ payload message, batch[i]? = some (some payload) ∧ x.message payload = some message ∧
    s.onMessages.filter (·.1 = ⟨c, i⟩) = [(⟨c, i⟩, message)]

/-- Every body of the batch can be converted, and no put of the call was interrupted. -/
def Sound (x : Conversion P V M) (s : Consumer P M) (c : ℕ) (batch : List (Option P)) : Prop :=
  (∀ payload, some payload ∈ batch → (x.message payload).isSome = true) ∧
    ∀ k ∈ s.interrupted, k.call ≠ c

/-- **Acknowledged batches.** While the poll loop runs, every message of a batch that is
acknowledged comes to be passed to the listener, once and for ever, and none of them is
lost, exactly if every body can be converted and no put of the batch was interrupted. -/
theorem passed_iff (x : Conversion P V M) (prefetchCount : ℕ)
    (r : Execution (step x prefetchCount) (fun _ _ => True) {})
    (fair : ∀ t, ∃ u, t ≤ u ∧ (r.event u).loops) {t c : ℕ} {batch : List (Option P)}
    (hc : (r.state t).call c = .success batch) :
    ((∀ i, i < batch.length → ∃ u, ∀ v, u ≤ v → Passed x (r.state v) c batch i) ∧
        ∀ i, ⟨c, i⟩ ∉ (r.state t).failed) ↔ Sound x (r.state t) c batch := by
  have h := inv_of_reach (r.reach t)
  have hbatch : ((r.state t).call c).batch = some batch := by rw [hc]; rfl
  have htaken : ∀ i, (⟨c, i⟩ : Item) ∈ (r.state t).puts.map Prod.fst ∨ ⟨c, i⟩ ∈ (r.state t).failed ↔
      i < batch.length := fun i => by rw [h.taken, hc]; rfl
  constructor
  · rintro ⟨-, hlost⟩
    constructor
    · intro payload hp
      obtain ⟨i, hi⟩ := List.mem_iff_getElem?.mp hp
      obtain hput | hf := (htaken i).mpr (List.getElem?_eq_some_iff.mp hi).1
      · obtain ⟨⟨k, message⟩, hy, rfl⟩ := List.mem_map.mp hput
        obtain ⟨payload', ⟨batch', hb', hi'⟩, hm⟩ := h.content _ hy
        obtain rfl : batch = batch' := Option.some.inj (hbatch.symm.trans hb')
        obtain rfl : payload = payload' := by simpa using hi.symm.trans hi'
        rw [hm]
        rfl
      · exact (hlost i hf).elim
    · rintro ⟨d, i⟩ hk rfl
      exact hlost i (h.interrupted _ hk)
  · rintro ⟨hconv, hint⟩
    have hlost : ∀ i, ⟨c, i⟩ ∉ (r.state t).failed := by
      intro i hf
      obtain hk | ⟨payload, ⟨batch', hb', hi⟩, hm⟩ := h.cause _ hf
      · exact hint _ hk rfl
      · obtain rfl : batch = batch' := Option.some.inj (hbatch.symm.trans hb')
        have hs := hconv payload (List.mem_of_getElem? hi)
        rw [hm] at hs
        cases hs
    refine ⟨fun i hi => ?_, hlost⟩
    obtain hput | hf := (htaken i).mpr hi
    · obtain ⟨⟨k, message⟩, hy, rfl⟩ := List.mem_map.mp hput
      obtain ⟨payload, ⟨batch', hb', hp⟩, hm⟩ := h.content _ hy
      obtain rfl : batch = batch' := Option.some.inj (hbatch.symm.trans hb')
      obtain ⟨u, -, hu⟩ := eventually_passed r fair hy
      refine ⟨u, fun v hv => ⟨payload, message, hp, hm, ?_⟩⟩
      have hgrow := r.related Grows.refl Grows.trans (fun _ e _ => grows_step e) hv
      have hv := inv_of_reach (r.reach v)
      have hnodup : ((r.state v).onMessages.map Prod.fst).Nodup := by
        have honce := hv.once
        rw [← hv.flow, List.append_assoc, List.map_append] at honce
        exact (List.nodup_append.mp honce).1
      exact filter_eq_singleton hnodup (hgrow.onMessages.subset hu)
    · exact (hlost i hf).elim

/-! ### A batch of one message -/

/-- Payloads with headers that can be extracted, or not. -/
def marked : Conversion Bool Unit String where
  extractHeaders good := if good then some () else none
  build _ := some "message"

/-- The batch is put and acknowledged, and its message passed on. -/
def oneMessage : List (Event Bool) :=
  [.consumeMessage 0 [some true], .turn 0, .put 0, .turn 0, .poll, .onMessage]

/-- Then the poll loop finds nothing. -/
def polling : Execution (step marked 1) (fun _ _ => True) {} :=
  .ofRun oneMessage .poll (Option.some_get (by decide)).symm rfl trivial

theorem passed_polling :
    ((∀ i, i < [some true].length → ∃ u, ∀ v, u ≤ v → Passed marked (polling.state v) 0 [some true] i) ∧
        ∀ i, ⟨0, i⟩ ∉ (polling.state 4).failed) ↔ Sound marked (polling.state 4) 0 [some true] :=
  have hc : (polling.state 4).call 0 = .success [some true] := rfl
  passed_iff marked 1 polling (Execution.ofRun_fair _ _ _ trivial) hc

/-- A message whose headers cannot be extracted is in an acknowledged batch. -/
theorem acknowledged_lost : ¬ ∀ s : Consumer Bool String,
    Reach (step marked 1) (fun _ _ => True) {} s →
      ∀ c batch, s.call c = .success batch → ∀ i, ⟨c, i⟩ ∉ s.failed := fun h => by
  have hn := h _ (reach_get [.consumeMessage 0 [some false], .turn 0, .turn 0] (by decide)) 0
    [some false] (by decide) 0
  revert hn
  decide

end Consumer
end Stream
end CloudManager
