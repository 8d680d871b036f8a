/-
# The listener container

`DefaultRocketMQListenerContainer` passes the batches it is called with to its
listener, message by message; the first exception, of the listener or of the
conversion, ends the batch with RECONSUME_LATER, or with
SUSPEND_CURRENT_QUEUE_A_MOMENT in the orderly mode, and the client gives the batch
again. Batches may also be lost with their consumer and be given again.

`nothing_lost`: what the broker has done with was handled, and every other message
is still at the broker, in a batch, or given up. `handled_once`: with batches of one
message and none of them lost, no message is handled twice. `handled_in_order`: in
the orderly mode the messages are handled for the first time in their order, and
none behind one that cannot be converted.
-/
import Mathlib.Data.List.Perm.Subperm
import Mathlib.Data.List.Perm.Basic
import Mathlib.Data.List.Flatten
import Mathlib.Data.List.Nodup
import CloudManager.Lib.Runs

namespace CloudManager
namespace ListenerContainer

open Runs

variable {M P C O : Type*}

/-! ### Converting a message -/

/-- `messageType`, a class. -/
inductive MessageType (C : Type*)
  | messageExt
  | string
  | other (messageType : C)
  deriving DecidableEq, Repr

/-- What the listener is called with. -/
inductive Payload (M O : Type*)
  | messageExt (m : M)
  | string (str : String)
  | object (o : O)
  deriving DecidableEq, Repr

/-- What the conversion reads. `forName` decodes a body, if there is a charset of this
name; `readValue` is the object mapper's, and `none` its exception. -/
structure Container (M C O : Type*) where
  messageType : MessageType C
  charset : String := "UTF-8"
  forName : String → Option (List UInt8 → String)
  getBody : M → Option (List UInt8)
  readValue : String → C → Option O

/-- The body as a string; `none`: an exception. -/
def Container.str (c : Container M C O) (m : M) : Option String := do
  let decode ← c.forName c.charset
  let body ← c.getBody m
  some (decode body)

/-- `doConvertMessage`; `none`: an exception. -/
def Container.doConvertMessage (c : Container M C O) (m : M) : Option (Payload M O) :=
  match c.messageType with
  | .messageExt => some (.messageExt m)
  | .string => (c.str m).map .string
  | .other messageType =>
    (c.str m).bind fun str => (c.readValue str messageType).map .object

/-- Messages of one byte, read as digits. -/
def digits : Container ℕ Unit ℕ where
  messageType := .other ()
  forName := fun name =>
    if name = "UTF-8" then some fun body => String.ofList (body.map fun b => Char.ofNat b.toNat)
    else none
  getBody := fun m => some [UInt8.ofNat m]
  readValue := fun str _ => (str.toList.head?.map Char.toNat).bind fun d =>
    if 48 ≤ d ∧ d ≤ 57 then some (d - 48) else none

/-! ### A turn of the loop -/

/-- A conversion of messages, as `doConvertMessage` of a container. -/
abbrev Conversion (M P : Type*) := M → Option P

/-- A call of `consumeMessage`: its messages, and how many the loop is done with. -/
structure Batch (M : Type*) where
  msgs : List M
  done : ℕ := 0
  deriving DecidableEq, Repr

/-- The messages the loop is done with. -/
def Batch.passed (b : Batch M) : List M := b.msgs.take b.done

/-- What a turn of the loop comes to. -/
inductive Turn (M P : Type*)
  | handled (message : M) (payload : P)
  /-- RECONSUME_LATER, or SUSPEND_CURRENT_QUEUE_A_MOMENT. -/
  | failed
  /-- CONSUME_SUCCESS, or SUCCESS. -/
  | success
  deriving DecidableEq, Repr

/-- A turn of the loop of `consumeMessage`; `returns`: `onMessage` does not throw. -/
def Batch.turn (convert : Conversion M P) (b : Batch M) (returns : Bool) : Turn M P :=
  match b.msgs[b.done]? with
  | none => .success
  | some m =>
    match convert m with
    | none => .failed
    | some p => if returns then .handled m p else .failed

section
variable {convert : Conversion M P} {b : Batch M} {returns : Bool}

theorem turn_handled {m : M} {p : P} (h : b.turn convert returns = .handled m p) :
    b.msgs[b.done]? = some m ∧ convert m = some p := by
  unfold Batch.turn at h
  split at h
  · cases h
  · rename_i m' hm
    split at h
    · cases h
    · rename_i p' hp
      split at h
      · cases h
        exact ⟨hm, hp⟩
      · cases h

theorem turn_success (h : b.turn convert returns = .success) : b.passed = b.msgs := by
  unfold Batch.turn at h
  split at h
  · rename_i hm
    exact List.take_of_length_le (List.getElem?_eq_none_iff.mp hm)
  · split at h
    · cases h
    · split at h <;> cases h

theorem passed_next {m : M} (h : b.msgs[b.done]? = some m) :
    Batch.passed { b with done := b.done + 1 } = b.passed ++ [m] := by
  unfold Batch.passed
  rw [List.take_add_one, h]
  rfl

/-- A batch of one message has handled none of it when it fails. -/
theorem turn_failed {m : M} (h : b.turn convert returns = .failed) (hb : b.msgs = [m]) :
    b.passed = [] := by
  unfold Batch.turn at h
  unfold Batch.passed
  rw [hb] at h ⊢
  rcases hd : b.done with _ | d
  · rfl
  · rw [hd] at h
    cases h

end

/-! ### Batches of a list -/

section
variable {α β : Type*} {l : List α} {i : ℕ} {a : α}

theorem flatMap_eraseIdx (f : α → List β) (h : l[i]? = some a) :
    (l.flatMap f).Perm (f a ++ (l.eraseIdx i).flatMap f) := by
  obtain ⟨hi, rfl⟩ := List.getElem?_eq_some_iff.mp h
  exact ((List.getElem_cons_eraseIdx_perm hi).symm.flatMap_right f)

theorem flatMap_set (f : α → List β) (h : l[i]? = some a) (a' : α) :
    ((l.set i a').flatMap f).Perm (f a' ++ (l.eraseIdx i).flatMap f) := by
  obtain ⟨hi, -⟩ := List.getElem?_eq_some_iff.mp h
  have hset := flatMap_eraseIdx f (List.getElem?_set_self (a := a') hi)
  rwa [List.eraseIdx_set_eq] at hset

end

/-! ### Consuming concurrently -/

/-- The messages at the broker, in batches, done with and given up, and what the listener
has handled. -/
structure Concurrent (M P : Type*) where
  pending : List M
  batches : List (Batch M) := []
  acknowledged : List M := []
  dead : List M := []
  handled : List (M × P) := []

inductive Event (M : Type*)
  /-- `consumeMessage` is called with these messages. -/
  | deliver (msgs : List M)
  /-- A turn of one of the loops. -/
  | turn (i : ℕ) (returns : Bool)
  /-- The result of a batch does not reach the broker. -/
  | lost (i : ℕ)
  /-- A message comes again, for no offset behind it was stored. -/
  | again (m : M)
  /-- The broker gives a message up after too many attempts. -/
  | giveUp (m : M)
  deriving DecidableEq, Repr

variable [DecidableEq M]

namespace Concurrent

/-- The batch goes back to the broker. -/
def reconsume (s : Concurrent M P) (i : ℕ) (b : Batch M) : Concurrent M P :=
  { s with pending := s.pending ++ b.msgs, batches := s.batches.eraseIdx i }

def step (convert : Conversion M P) (s : Concurrent M P) : Event M → Option (Concurrent M P)
  | .deliver msgs =>
    if msgs ≠ [] ∧ msgs.Nodup ∧ msgs ⊆ s.pending then
      some { s with pending := s.pending.diff msgs, batches := s.batches ++ [⟨msgs, 0⟩] }
    else none
  | .turn i returns =>
    match s.batches[i]? with
    | none => none
    | some b =>
      match b.turn convert returns with
      | .handled m p =>
        some { s with
          batches := s.batches.set i { b with done := b.done + 1 }
          handled := s.handled ++ [(m, p)] }
      | .failed => some (s.reconsume i b)
      | .success =>
        some { s with
          batches := s.batches.eraseIdx i
          acknowledged := s.acknowledged ++ b.msgs }
  | .lost i =>
    match s.batches[i]? with
    | none => none
    | some b => some (s.reconsume i b)
  | .again m =>
    if m ∈ s.acknowledged then
      some { s with acknowledged := s.acknowledged.erase m, pending := s.pending ++ [m] }
    else none
  | .giveUp m =>
    if m ∈ s.pending then some { s with pending := s.pending.erase m, dead := s.dead ++ [m] }
    else none

/-- All messages, wherever they are. -/
def messages (s : Concurrent M P) : List M :=
  s.pending ++ s.batches.flatMap Batch.msgs ++ s.acknowledged ++ s.dead

end Concurrent

/-! ### Every run of the concurrent mode -/

namespace Concurrent

structure Inv (convert : Conversion M P) (all : List M) (s : Concurrent M P) : Prop where
  messages : s.messages.Perm all
  acknowledged : ∀ m ∈ s.acknowledged, ∃ p, (m, p) ∈ s.handled
  done : ∀ b ∈ s.batches, ∀ m ∈ b.passed, ∃ p, (m, p) ∈ s.handled
  converted : ∀ m p, (m, p) ∈ s.handled → convert m = some p

variable {convert : Conversion M P} {all : List M} {s s' : Concurrent M P}

theorem Inv.reconsume (h : Inv convert all s) {i : ℕ} {b : Batch M}
    (hb : s.batches[i]? = some b) : Inv convert all (s.reconsume i b) where
  messages := by
    refine .trans (List.perm_iff_count.mpr fun m => ?_) h.messages
    have hcount := (flatMap_eraseIdx Batch.msgs hb).count_eq m
    unfold Concurrent.messages Concurrent.reconsume
    simp only [List.count_append] at hcount ⊢
    omega
  acknowledged := h.acknowledged
  done := fun b hb => h.done b (List.mem_of_mem_eraseIdx hb)
  converted := h.converted

theorem inv_step (h : Inv convert all s) {e : Event M}
    (hstep : step convert s e = some s') : Inv convert all s' := by
  unfold step at hstep
  match e with
  | .deliver msgs =>
    dsimp only at hstep
    split at hstep
    · rename_i hmsgs
      obtain ⟨-, hnodup, hsub⟩ := hmsgs
      cases hstep
      have hdiff : (msgs ++ s.pending.diff msgs).Perm s.pending :=
        List.subperm_append_diff_self_of_count_le
          (List.subperm_ext_iff.mp (hnodup.subperm hsub))
      refine ⟨.trans (List.perm_iff_count.mpr fun m => ?_) h.messages, h.acknowledged,
        fun b hb => ?_, h.converted⟩
      · have hcount := hdiff.count_eq m
        unfold Concurrent.messages
        rw [List.flatMap_append, List.flatMap_singleton]
        simp only [List.count_append] at hcount ⊢
        omega
      · rcases List.mem_append.mp hb with hb | hb
        · exact h.done b hb
        · rw [List.mem_singleton.mp hb]
          exact nofun
    · cases hstep
  | .turn i returns =>
    dsimp only at hstep
    split at hstep
    · cases hstep
    · rename_i b hb
      have hmem : b ∈ s.batches := List.mem_of_getElem? hb
      split at hstep
      · rename_i m p hturn
        obtain ⟨hm, hp⟩ := turn_handled hturn
        cases hstep
        have hkeep : ∀ m', (∃ p', (m', p') ∈ s.handled) → ∃ p', (m', p') ∈ s.handled ++ [(m, p)] :=
          fun m' ⟨p', hp'⟩ => ⟨p', List.mem_append_left _ hp'⟩
        refine ⟨.trans (List.perm_iff_count.mpr fun m' => ?_) h.messages,
          fun m' hm' => hkeep m' (h.acknowledged m' hm'), fun b' hb' m' hm' => ?_,
          fun m' p' hmp => ?_⟩
        · have hcount := (flatMap_eraseIdx Batch.msgs hb).count_eq m'
          have hset := (flatMap_set Batch.msgs hb { b with done := b.done + 1 }).count_eq m'
          unfold Concurrent.messages
          simp only [List.count_append] at hcount hset ⊢
          omega
        · rcases List.mem_or_eq_of_mem_set hb' with hb' | rfl
          · exact hkeep m' (h.done b' hb' m' hm')
          · rw [passed_next hm] at hm'
            rcases List.mem_append.mp hm' with hm' | hm'
            · exact hkeep m' (h.done b hmem m' hm')
            · rw [List.mem_singleton.mp hm']
              exact ⟨p, List.mem_append_right _ List.mem_cons_self⟩
        · rcases List.mem_append.mp hmp with hmp | hmp
          · exact h.converted m' p' hmp
          · cases List.mem_singleton.mp hmp
            exact hp
      · cases hstep
        exact h.reconsume hb
      · rename_i hturn
        cases hstep
        refine ⟨.trans (List.perm_iff_count.mpr fun m => ?_) h.messages, fun m hm => ?_,
          fun b hb => h.done b (List.mem_of_mem_eraseIdx hb), h.converted⟩
        · have hcount := (flatMap_eraseIdx Batch.msgs hb).count_eq m
          unfold Concurrent.messages
          simp only [List.count_append] at hcount ⊢
          omega
        · rcases List.mem_append.mp hm with hm | hm
          · exact h.acknowledged m hm
          · exact h.done b hmem m (by rwa [turn_success hturn])
  | .lost i =>
    dsimp only at hstep
    split at hstep
    · cases hstep
    · rename_i b hb
      cases hstep
      exact h.reconsume hb
  | .again m =>
    dsimp only at hstep
    split at hstep
    · rename_i hm
      cases hstep
      refine ⟨.trans (List.perm_iff_count.mpr fun m' => ?_) h.messages,
        fun m' hm' => h.acknowledged m' (List.mem_of_mem_erase hm'), h.done, h.converted⟩
      have hcount := (List.perm_cons_erase hm).count_eq m'
      unfold Concurrent.messages
      simp only [List.count_append, List.count_cons, List.count_nil] at hcount ⊢
      omega
    · cases hstep
  | .giveUp m =>
    dsimp only at hstep
    split at hstep
    · rename_i hm
      cases hstep
      refine ⟨.trans (List.perm_iff_count.mpr fun m' => ?_) h.messages, h.acknowledged, h.done,
        h.converted⟩
      have hcount := (List.perm_cons_erase hm).count_eq m'
      unfold Concurrent.messages
      simp only [List.count_append, List.count_cons, List.count_nil] at hcount ⊢
      omega
    · cases hstep

/-- **No message is lost.** Whatever fails, the messages are at the broker, in a batch, done
with or given up; one that is done with was converted and handled. -/
theorem nothing_lost {c : Container M C O} {s : Concurrent M (Payload M O)}
    (h : Reach (step c.doConvertMessage) (fun _ _ => True) { pending := all } s) :
    s.messages.Perm all ∧
      ∀ m ∈ s.acknowledged, ∃ p, c.doConvertMessage m = some p ∧ (m, p) ∈ s.handled := by
  have hinv : Inv c.doConvertMessage all s :=
    h.invariant ⟨by simp [Concurrent.messages], nofun, nofun, nofun⟩ fun _ _ _ h _ => inv_step h
  refine ⟨hinv.messages, fun m hm => ?_⟩
  obtain ⟨p, hp⟩ := hinv.acknowledged m hm
  exact ⟨p, hinv.converted m p hp, hp⟩

/-- A batch of two messages, the second not a digit, comes again, and both are given up. -/
def twice : List (Event ℕ) :=
  [.deliver [49, 65], .turn 0 true, .turn 0 true, .deliver [50], .deliver [49, 65], .turn 1 true,
    .turn 0 true, .turn 1 true, .turn 0 true, .giveUp 49, .giveUp 65]

theorem nothing_lost_twice :
    let s := (runWith (step digits.doConvertMessage) (fun _ _ => True) { pending := [49, 65, 50] }
      twice).get (by decide)
    s.messages.Perm [49, 65, 50] ∧ ∀ m ∈ s.acknowledged,
      ∃ p, digits.doConvertMessage m = some p ∧ (m, p) ∈ s.handled :=
  nothing_lost (reach_get twice (by decide))

example : ((runWith (step digits.doConvertMessage) (fun _ _ => True) { pending := [49, 65, 50] }
    twice).get (by decide)).handled.map Prod.fst = [49, 49, 50] := by decide

/-! ### Batches of one message -/

/-- A batch is called with one message, as by default; its result reaches the broker. -/
def Single (_ : Concurrent M P) : Event M → Prop
  | .deliver msgs => msgs.length = 1
  | .lost _ | .again _ => False
  | .turn _ _ | .giveUp _ => True

instance (s : Concurrent M P) (e : Event M) : Decidable (Single s e) := by
  cases e <;> unfold Single <;> infer_instance

/-- What is handled is done with, or is in a batch that the loop is done with. -/
structure Once (s : Concurrent M P) : Prop where
  single : ∀ b ∈ s.batches, ∃ m, b.msgs = [m]
  handled : (s.handled.map Prod.fst).Perm
    (s.acknowledged ++ s.batches.flatMap Batch.passed)

theorem once_step (h : Once s) {e : Event M} (hok : Single s e)
    (hstep : step convert s e = some s') : Once s' := by
  unfold step at hstep
  match e with
  | .deliver msgs =>
    dsimp only at hstep
    split at hstep
    · cases hstep
      refine ⟨fun b hb => ?_, ?_⟩
      · rcases List.mem_append.mp hb with hb | hb
        · exact h.single b hb
        · rw [List.mem_singleton.mp hb]
          exact List.length_eq_one_iff.mp hok
      · show (s.handled.map Prod.fst).Perm
          (s.acknowledged ++ (s.batches ++ [Batch.mk msgs 0]).flatMap Batch.passed)
        rw [List.flatMap_append, List.flatMap_singleton]
        show (s.handled.map Prod.fst).Perm
          (s.acknowledged ++ (s.batches.flatMap Batch.passed ++ []))
        rw [List.append_nil]
        exact h.handled
    · cases hstep
  | .turn i returns =>
    dsimp only at hstep
    split at hstep
    · cases hstep
    · rename_i b hb
      obtain ⟨m, hm⟩ := h.single b (List.mem_of_getElem? hb)
      have hsplit := h.handled.trans
        ((flatMap_eraseIdx Batch.passed hb).append_left s.acknowledged)
      split at hstep
      · rename_i m' p hturn
        obtain ⟨hm', -⟩ := turn_handled hturn
        cases hstep
        refine ⟨fun b' hb' => ?_, List.perm_iff_count.mpr fun a => ?_⟩
        · rcases List.mem_or_eq_of_mem_set hb' with hb' | rfl
          · exact h.single b' hb'
          · exact ⟨m, hm⟩
        · have hcount := hsplit.count_eq a
          have hset := (flatMap_set Batch.passed hb { b with done := b.done + 1 }).count_eq a
          dsimp only at hset ⊢
          rw [passed_next hm'] at hset
          rw [List.map_append]
          simp only [List.count_append, List.map_cons, List.map_nil] at hcount hset ⊢
          omega
      · rename_i hturn
        cases hstep
        refine ⟨fun b hb => h.single b (List.mem_of_mem_eraseIdx hb), ?_⟩
        rwa [turn_failed hturn hm] at hsplit
      · rename_i hturn
        cases hstep
        refine ⟨fun b hb => h.single b (List.mem_of_mem_eraseIdx hb), ?_⟩
        rwa [turn_success hturn, ← List.append_assoc] at hsplit
  | .giveUp m =>
    dsimp only at hstep
    split at hstep
    · cases hstep
      exact ⟨h.single, h.handled⟩
    · cases hstep

/-- **No message is handled twice**, when batches are of one message and no result is
lost; and none that is handled comes again or is given up. -/
theorem handled_once {c : Container M C O} {s : Concurrent M (Payload M O)} (hall : all.Nodup)
    (h : Reach (step c.doConvertMessage) Single { pending := all } s) :
    (s.handled.map Prod.fst).Nodup ∧
      ∀ m ∈ s.handled.map Prod.fst, m ∉ s.pending ∧ m ∉ s.dead := by
  have hinv : Inv c.doConvertMessage all s :=
    h.invariant ⟨by simp [Concurrent.messages], nofun, nofun, nofun⟩ fun _ _ _ h _ => inv_step h
  have honce : Once s :=
    h.invariant ⟨nofun, List.Perm.refl _⟩ fun _ _ _ h hok => once_step h hok
  have hcount : ∀ m, s.messages.count m ≤ 1 := by
    intro m
    rw [hinv.messages.count_eq]
    exact List.nodup_iff_count_le_one.mp hall m
  -- what is handled is counted among the messages done with and in batches
  have hle : ∀ m, (s.handled.map Prod.fst).count m + s.pending.count m + s.dead.count m ≤ 1 := by
    intro m
    have hhandled := honce.handled.count_eq m
    have hsub : (s.batches.flatMap Batch.passed).count m
        ≤ (s.batches.flatMap Batch.msgs).count m :=
      (List.Sublist.flatMap_right _ fun b _ => List.take_sublist b.done b.msgs).count_le m
    have hm := hcount m
    unfold Concurrent.messages at hm
    simp only [List.count_append] at hhandled hm
    omega
  refine ⟨List.nodup_iff_count_le_one.mpr fun m => ?_, fun m hm => ?_⟩
  · have hm := hle m
    omega
  · have hpos := List.count_pos_iff.mpr hm
    have hm := hle m
    exact ⟨List.count_eq_zero.mp (by omega), List.count_eq_zero.mp (by omega)⟩

/-- A message is handled after it failed, and another is given up. -/
def afterwards : List (Event ℕ) :=
  [.deliver [49], .deliver [65], .turn 0 false, .turn 0 true, .giveUp 65, .deliver [49],
    .turn 0 true, .turn 0 true]

theorem handled_once_afterwards :
    let s := (runWith (step digits.doConvertMessage) Single { pending := [49, 65] }
      afterwards).get (by decide)
    (s.handled.map Prod.fst).Nodup ∧
      ∀ m ∈ s.handled.map Prod.fst, m ∉ s.pending ∧ m ∉ s.dead :=
  handled_once (by decide : [49, 65].Nodup) (reach_get afterwards (by decide))

end Concurrent

/-! ### Consuming orderly -/

/-- A queue from its offset on, the batch that is taken from its front, the messages behind
the offset, and what the listener has handled. -/
structure Orderly (M P : Type*) where
  queue : List M
  batch : Option (Batch M) := none
  acknowledged : List M := []
  handled : List (M × P) := []

inductive QueueEvent
  /-- `consumeMessage` is called with the next `n` messages. -/
  | deliver (n : ℕ)
  | turn (returns : Bool)
  /-- The queue is taken again, from an offset stored `n` messages before. -/
  | lost (n : ℕ)
  deriving DecidableEq, Repr

namespace Orderly

omit [DecidableEq M] in
def step (convert : Conversion M P) (s : Orderly M P) : QueueEvent → Option (Orderly M P)
  | .deliver n =>
    match s.batch with
    | none =>
      if 0 < n ∧ s.queue ≠ [] then some { s with batch := some ⟨s.queue.take n, 0⟩ } else none
    | some _ => none
  | .turn returns =>
    match s.batch with
    | none => none
    | some b =>
      match b.turn convert returns with
      | .handled m p =>
        some { s with batch := some { b with done := b.done + 1 }, handled := s.handled ++ [(m, p)] }
      | .failed => some { s with batch := none }
      | .success =>
        some { s with
          queue := s.queue.drop b.msgs.length
          batch := none
          acknowledged := s.acknowledged ++ b.msgs }
  | .lost n =>
    let stored := s.acknowledged.length - n
    some { s with
      queue := s.acknowledged.drop stored ++ s.queue
      batch := none
      acknowledged := s.acknowledged.take stored }

/-- The messages in the order they were handled in for the first time. -/
def firsts (s : Orderly M P) : List M := (s.handled.map Prod.fst).eraseDups

/-! ### Every run of the orderly mode -/

/-- A walk along `all` that is behind `j` finds its place again, or is one further. -/
theorem eraseDups_concat {all l : List M} (hall : all.Nodup) {i j : ℕ} {m : M}
    (hl : l.eraseDups = all.take j) (hm : all[i]? = some m) (hi : i ≤ j) :
    (l ++ [m]).eraseDups = all.take (max j (i + 1)) := by
  have hmem : m ∈ l ↔ m ∈ all.take j := by rw [← hl, List.mem_eraseDups]
  rw [List.eraseDups_append, hl]
  obtain ⟨hlt, rfl⟩ := List.getElem?_eq_some_iff.mp hm
  rcases Nat.lt_or_ge i j with hij | hij
  · have hin : all[i] ∈ l := hmem.mpr (List.mem_take_iff_getElem.mpr ⟨i, by omega, rfl⟩)
    rw [Nat.max_eq_left hij]
    simp [List.removeAll, hin]
  · have hij : i = j := by omega
    subst hij
    have hout : all[i] ∉ l := by
      rw [hmem, List.mem_take_iff_getElem]
      rintro ⟨k, hk, heq⟩
      have hki : k = i := (hall.getElem_inj_iff).mp heq
      omega
    rw [Nat.max_eq_right (by omega), List.take_add_one, hm]
    simp [List.removeAll, hout, List.eraseDups_cons]

structure Inv (convert : Conversion M P) (all : List M) (s : Orderly M P) : Prop where
  messages : s.acknowledged ++ s.queue = all
  batch : ∀ b, s.batch = some b → b.msgs <+: s.queue
  firsts : ∃ j, s.firsts = all.take j ∧ s.acknowledged.length ≤ j ∧
    ∀ b, s.batch = some b → s.acknowledged.length + b.done ≤ j
  converted : ∀ m p, (m, p) ∈ s.handled → convert m = some p

variable {convert : Conversion M P} {all : List M} {s s' : Orderly M P}

theorem inv_step (hall : all.Nodup) (h : Inv convert all s) {e : QueueEvent}
    (hstep : step convert s e = some s') : Inv convert all s' := by
  obtain ⟨j, hj, hack, hdone⟩ := h.firsts
  unfold step at hstep
  match e with
  | .deliver n =>
    dsimp only at hstep
    split at hstep
    · split at hstep
      · cases hstep
        refine ⟨h.messages, fun b hb => ?_, ⟨j, hj, hack, fun b hb => ?_⟩, h.converted⟩
        · cases hb
          exact List.take_prefix n s.queue
        · cases hb
          exact hack
      · cases hstep
    · cases hstep
  | .turn returns =>
    dsimp only at hstep
    split at hstep
    · cases hstep
    · rename_i b hb
      have hprefix := h.batch b hb
      have hle := hdone b hb
      split at hstep
      · rename_i m p hturn
        obtain ⟨hm, hp⟩ := turn_handled hturn
        cases hstep
        -- the message stands in the queue where it stands in the batch
        have hall' : all[s.acknowledged.length + b.done]? = some m := by
          rw [← h.messages, List.getElem?_append_right (by omega), Nat.add_sub_cancel_left]
          obtain ⟨rest, hrest⟩ := hprefix
          rw [← hrest, List.getElem?_append_left (List.getElem?_eq_some_iff.mp hm).1]
          exact hm
        have hfirsts : Orderly.firsts
            { s with batch := some { b with done := b.done + 1 }, handled := s.handled ++ [(m, p)] }
            = all.take (max j (s.acknowledged.length + b.done + 1)) := by
          unfold Orderly.firsts
          rw [List.map_append]
          exact eraseDups_concat hall hj hall' hle
        refine ⟨h.messages, fun b' hb' => ?_, ⟨_, hfirsts, ?_, fun b' hb' => ?_⟩,
          fun m' p' hmp => ?_⟩
        · cases hb'
          exact hprefix
        · exact Nat.le_trans hack (Nat.le_max_left _ _)
        · cases hb'
          exact Nat.le_max_right _ _
        · rcases List.mem_append.mp hmp with hmp | hmp
          · exact h.converted m' p' hmp
          · cases List.mem_singleton.mp hmp
            exact hp
      · cases hstep
        exact ⟨h.messages, nofun, ⟨j, hj, hack, nofun⟩, h.converted⟩
      · rename_i hturn
        cases hstep
        obtain ⟨rest, hrest⟩ := hprefix
        have hlen : b.msgs.length ≤ b.done := by
          have htake := congrArg List.length (turn_success hturn)
          unfold Batch.passed at htake
          rw [List.length_take] at htake
          omega
        refine ⟨?_, nofun, ⟨j, hj, ?_, nofun⟩, h.converted⟩
        · show s.acknowledged ++ b.msgs ++ s.queue.drop b.msgs.length = all
          rw [← h.messages, ← hrest, List.drop_left, List.append_assoc]
        · show (s.acknowledged ++ b.msgs).length ≤ j
          rw [List.length_append]
          omega
  | .lost n =>
    dsimp only at hstep
    cases hstep
    refine ⟨?_, nofun, ⟨j, hj, ?_, nofun⟩, h.converted⟩
    · show s.acknowledged.take _ ++ (s.acknowledged.drop _ ++ s.queue) = all
      rw [← List.append_assoc, List.take_append_drop]
      exact h.messages
    · exact Nat.le_trans (List.length_take_le' _ _) hack

/-- **The queue is handled in its order.** Whatever fails and however often a batch comes
again, the messages are handled for the first time in the order of the queue, what is
behind the offset was handled, and nothing is handled from a message on that cannot be
converted. -/
theorem handled_in_order {c : Container M C O} {s : Orderly M (Payload M O)} (hall : all.Nodup)
    (h : Reach (step c.doConvertMessage) (fun _ _ => True) { queue := all } s) :
    s.acknowledged ++ s.queue = all ∧ s.acknowledged <+: s.firsts ∧ s.firsts <+: all ∧
      ∀ front m back, all = front ++ m :: back → c.doConvertMessage m = none →
        s.firsts <+: front := by
  have hinv : Inv c.doConvertMessage all s :=
    h.invariant ⟨rfl, nofun, ⟨0, rfl, Nat.le_refl 0, nofun⟩, nofun⟩
      fun _ _ _ h _ => inv_step hall h
  obtain ⟨j, hj, hack, -⟩ := hinv.firsts
  have hprefix : s.firsts <+: all := hj ▸ List.take_prefix j all
  refine ⟨hinv.messages, ?_, hprefix, fun front m back hsplit hm => ?_⟩
  · have hlen : s.acknowledged.length ≤ s.firsts.length := by
      have hmessages := congrArg List.length hinv.messages
      rw [List.length_append] at hmessages
      rw [hj, List.length_take]
      omega
    exact List.prefix_of_prefix_length_le ⟨_, hinv.messages⟩ hprefix hlen
  · have hfront : front <+: all := ⟨m :: back, hsplit.symm⟩
    rcases Nat.le_total s.firsts.length front.length with hle | hle
    · exact List.prefix_of_prefix_length_le hprefix hfront hle
    · obtain ⟨rest, hrest⟩ := List.prefix_of_prefix_length_le hfront hprefix hle
      rcases rest with _ | ⟨m', rest⟩
      · have heq : s.firsts = front := by rw [← hrest, List.append_nil]
        exact heq ▸ List.prefix_refl _
      · exfalso
        -- the next one handled would be the message that cannot be converted
        have hm' : m' = m := by
          obtain ⟨tail, htail⟩ := hprefix
          rw [hsplit, ← hrest, List.append_assoc] at htail
          have hcons := List.append_cancel_left htail
          injection hcons
        have hmem : m ∈ s.handled.map Prod.fst := by
          rw [← List.mem_eraseDups]
          show m ∈ s.firsts
          rw [← hrest, hm']
          exact List.mem_append_right _ List.mem_cons_self
        obtain ⟨⟨m'', p⟩, hp, rfl⟩ := List.mem_map.mp hmem
        rw [hinv.converted _ _ hp] at hm
        cases hm

/-- A batch that fails at its second message comes again; the third cannot be converted. -/
def suspended : List QueueEvent :=
  [.deliver 2, .turn true, .turn false, .deliver 3, .turn true, .turn true, .turn true]

theorem handled_in_order_suspended :
    let s := (runWith (step digits.doConvertMessage) (fun _ _ => True)
      { queue := [49, 50, 65, 51] } suspended).get (by decide)
    s.acknowledged ++ s.queue = [49, 50, 65, 51] ∧ s.acknowledged <+: s.firsts ∧
      s.firsts <+: [49, 50, 65, 51] ∧
      ∀ front m back, [49, 50, 65, 51] = front ++ m :: back →
        digits.doConvertMessage m = none → s.firsts <+: front :=
  handled_in_order (by decide) (reach_get suspended (by decide))

end Orderly

end ListenerContainer
end CloudManager
