/-
# Responses meet the calls they answer

Whatever responses arrive, in whatever order, a call that returns a value returns
that of a response with its own message id, and a response is handed to one call
at most (`responses_matched`).
-/
import CloudManager.Rpc.Client


namespace CloudManager
namespace Rpc

open Runs

variable {κ V : Type*} [DecidableEq κ]

namespace Channel

/-- What the channel thread hands over. -/
def handover : Channel κ V → Option (Handover κ V)
  | .idle => none
  | .found x | .removed x | .locked x | .stored x | .signalled x => some x

/-- What is not stored yet. -/
def pending : Channel κ V → Option (Handover κ V)
  | .found x | .removed x | .locked x => some x
  | _ => none

end Channel

namespace Client

variable (messageId : κ → String) {s s' : Client κ V}

/-- A response with the call's id arrived and was handed to the call. -/
def Carries (s : Client κ V) (c : κ) (r : MessageResponse V) : Prop :=
  ∃ n, (n, c) ∈ s.delivered ∧ s.arrived[n]? = some r ∧ r.messageId = messageId c

/-- A value returned is that of a response to the call, and no response is handed
to two calls. -/
structure Matched (s : Client κ V) : Prop where
  own : ∀ c ending v, s.pc c = .returned ending (.value (some v)) →
    ∃ r, Carries messageId s c r ∧ r.result = some v
  once : ∀ n c c', (n, c) ∈ s.delivered → (n, c') ∈ s.delivered → c = c'

structure MatchInv (s : Client κ V) : Prop extends Matched messageId s where
  mapped : ∀ k c, s.map k = some c → k = messageId c
  handed : ∀ x ∈ s.channel.handover,
    s.arrived[x.number]? = some x.response ∧ x.response.messageId = messageId x.callBack
  fresh : ∀ x ∈ s.channel.pending, ∀ d ∈ s.delivered, d.1 ≠ x.number
  bound : ∀ d ∈ s.delivered, d.1 < s.arrived.length
  stored : ∀ c r, s.response c = some r → Carries messageId s c r

omit [DecidableEq κ] in
theorem MatchInv.start : MatchInv messageId ({} : Client κ V) where
  own _ _ _ h := by cases h
  once _ _ _ h := by cases h
  mapped _ _ h := by cases h
  handed _ h := by cases h
  fresh _ h := by cases h
  bound _ h := by cases h
  stored _ _ h := by cases h

variable {messageId}

omit [DecidableEq κ] in
theorem Carries.mono {c : κ} {r : MessageResponse V} (h : Carries messageId s c r)
    (hd : ∀ d ∈ s.delivered, d ∈ s'.delivered)
    (ha : ∀ (n : ℕ) r, s.arrived[n]? = some r → s'.arrived[n]? = some r) :
    Carries messageId s' c r := by
  obtain ⟨n, hn, hr, hid⟩ := h
  exact ⟨n, hd _ hn, ha _ _ hr, hid⟩

omit [DecidableEq κ] in
/-- A step that no response arrives in and none is stored in. -/
theorem MatchInv.keep (h : MatchInv messageId s) (ha : s'.arrived = s.arrived)
    (hd : s'.delivered = s.delivered) (hr : s'.response = s.response)
    (hm : ∀ k c, s'.map k = some c → k = messageId c)
    (hh : ∀ x ∈ s'.channel.handover, x ∈ s.channel.handover)
    (hp : ∀ x ∈ s'.channel.pending, x ∈ s.channel.pending)
    (ho : ∀ c ending v, s'.pc c = .returned ending (.value (some v)) →
      ∃ r, Carries messageId s c r ∧ r.result = some v) : MatchInv messageId s' where
  own c ending v hpc := by
    obtain ⟨r, hc, hv⟩ := ho c ending v hpc
    exact ⟨r, hc.mono (by simp [hd]) (by simp [ha]), hv⟩
  once := by simpa only [hd] using h.once
  mapped := hm
  handed x hx := ha ▸ h.handed x (hh x hx)
  fresh x hx d hdel := h.fresh x (hp x hx) d (hd ▸ hdel)
  bound d hdel := ha ▸ h.bound d (hd ▸ hdel)
  stored c r hc := (h.stored c r (hr ▸ hc)).mono (by simp [hd]) (by simp [ha])

theorem MatchInv.act (h : MatchInv messageId s) {c : κ} {a : Action} {pc : Pc V}
    (hn : s.next c a = some pc) : MatchInv messageId (s.goto c pc) := by
  refine h.keep rfl rfl rfl h.mapped (fun _ => id) (fun _ => id) fun d ending v hpc => ?_
  rw [goto_pc] at hpc
  split at hpc
  · rename_i hd
    subst hd hpc
    obtain ⟨-, -, hr⟩ | ⟨-, -, hr⟩ | ⟨-, -, hr⟩ := next_returned hn
    · cases hr
    · cases hr
    · obtain ⟨r, hc, hv⟩ := Option.bind_eq_some_iff.mp (Returned.value.inj hr).symm
      exact ⟨r, h.stored d r hc, hv⟩
  · exact h.own d ending v hpc

omit [DecidableEq κ] in
theorem MatchInv.arrive (h : MatchInv messageId s) {r : MessageResponse V} {channel : Channel κ V}
    (hx : channel = .idle ∨ ∃ c, s.map r.messageId = some c ∧
      channel = .found ⟨c, r, s.arrived.length⟩) :
    MatchInv messageId { s with channel := channel, arrived := s.arrived ++ [r] } := by
  have ha : ∀ (n : ℕ) r', s.arrived[n]? = some r' → (s.arrived ++ [r])[n]? = some r' := fun n r' hn => by
    rw [List.getElem?_append_left (List.getElem?_eq_some_iff.mp hn).1]
    exact hn
  refine ⟨⟨fun c ending v hpc => ?_, h.once⟩, h.mapped, ?_, ?_, fun d hd => ?_, fun c r' hr => ?_⟩
  · obtain ⟨r', hr', hv⟩ := h.own c ending v hpc
    exact ⟨r', hr'.mono (fun _ => id) ha, hv⟩
  · obtain rfl | ⟨c, hm, rfl⟩ := hx
    · intro x hx
      cases hx
    · rintro x ⟨⟩
      exact ⟨by simp, h.mapped _ _ hm⟩
  · obtain rfl | ⟨c, hm, rfl⟩ := hx
    · intro x hx
      cases hx
    · rintro x ⟨⟩ d hd
      exact Nat.ne_of_lt (h.bound d hd)
  · rw [List.length_append]
    exact Nat.lt_add_right 1 (h.bound d hd)
  · exact (h.stored c r' hr).mono (fun _ => id) ha

theorem MatchInv.store (h : MatchInv messageId s) {x : Handover κ V} (hc : s.channel = .locked x) :
    MatchInv messageId { s with
      response := Function.update s.response x.callBack (some x.response)
      channel := .stored x
      delivered := (x.number, x.callBack) :: s.delivered } := by
  obtain ⟨hget, hid⟩ := h.handed x (by rw [hc]; rfl)
  have hfresh := h.fresh x (by rw [hc]; rfl)
  have hd : ∀ d ∈ s.delivered, d ∈ (x.number, x.callBack) :: s.delivered := fun _ =>
    List.mem_cons_of_mem _
  refine ⟨⟨fun c ending v hpc => ?_, fun n c c' hn hn' => ?_⟩, h.mapped, ?_, ?_, fun d hdel => ?_,
    fun c r hr => ?_⟩
  · obtain ⟨r, hr, hv⟩ := h.own c ending v hpc
    exact ⟨r, hr.mono hd (fun _ _ => id), hv⟩
  · rcases List.mem_cons.mp hn with he | hn <;> rcases List.mem_cons.mp hn' with he' | hn'
    · cases he
      cases he'
      rfl
    · cases he
      exact (hfresh _ hn' rfl).elim
    · cases he'
      exact (hfresh _ hn rfl).elim
    · exact h.once n c c' hn hn'
  · rintro y ⟨⟩
    exact ⟨hget, hid⟩
  · intro y hy
    cases hy
  · rcases List.mem_cons.mp hdel with rfl | hdel
    · exact (List.getElem?_eq_some_iff.mp hget).1
    · exact h.bound d hdel
  · simp only [Function.update_apply] at hr
    split at hr
    · rename_i hcx
      cases hr
      exact ⟨x.number, hcx ▸ List.mem_cons_self, hget, hcx ▸ hid⟩
    · exact (h.stored c r hr).mono hd (fun _ _ => id)

theorem MatchInv.step {e : Event κ V} (h : MatchInv messageId s)
    (he : step messageId s e = some s') : MatchInv messageId s' := by
  cases e with
  | channelActive =>
    cases he
    exact h.keep rfl rfl rfl h.mapped (fun _ => id) (fun _ => id) h.own
  | put c =>
    obtain ⟨-, rfl⟩ := step_put he
    refine h.keep rfl rfl rfl (fun k d hk => ?_) (fun _ => id) (fun _ => id) fun d ending v hpc => ?_
    · rw [goto_map, setEntry_map] at hk
      split at hk
      · rename_i hkc
        cases hk
        exact hkc
      · exact h.mapped k d hk
    · rw [goto_pc] at hpc
      split at hpc
      · cases hpc
      · exact h.own d ending v hpc
  | act c a =>
    obtain ⟨pc, hn, rfl⟩ := step_act he
    exact h.act hn
  | arrive r =>
    obtain ⟨hc, ⟨-, rfl⟩ | ⟨c, hm, rfl⟩⟩ := step_arrive he
    · exact h.arrive (.inl hc)
    · exact h.arrive (.inr ⟨c, hm, rfl⟩)
  | remove =>
    obtain ⟨x, hc, rfl⟩ := step_remove he
    refine h.keep rfl rfl rfl (fun k d hk => ?_) (fun y hy => ?_) (fun y hy => ?_) h.own
    · rw [setChannel_map, setEntry_map] at hk
      split at hk
      · cases hk
      · exact h.mapped k d hk
    · rw [hc]
      exact hy
    · rw [hc]
      exact hy
  | overLock =>
    obtain ⟨x, hc, -, rfl⟩ := step_overLock he
    refine h.keep rfl rfl rfl h.mapped (fun y hy => ?_) (fun y hy => ?_) h.own
    · rw [hc]
      exact hy
    · rw [hc]
      exact hy
  | store =>
    obtain ⟨x, hc, rfl⟩ := step_store he
    exact h.store hc
  | signal =>
    obtain ⟨x, hc, ⟨-, rfl⟩ | ⟨-, rfl⟩⟩ := step_signal he
    · refine h.keep rfl rfl rfl h.mapped (fun y hy => ?_) (fun y hy => by cases hy)
        fun d ending v hpc => ?_
      · rw [hc]
        exact hy
      · rw [setChannel_pc, goto_pc] at hpc
        split at hpc
        · cases hpc
        · exact h.own d ending v hpc
    · refine h.keep rfl rfl rfl h.mapped (fun y hy => ?_) (fun y hy => by cases hy) h.own
      rw [hc]
      exact hy
  | unlock =>
    obtain ⟨x, -, rfl⟩ := step_unlock he
    exact h.keep rfl rfl rfl h.mapped (fun y hy => by cases hy) (fun y hy => by cases hy) h.own

/-- **Responses are matched** in every state that is reached: a value returned is
the result of a response with the call's own id, and each response is handed to
at most one call. -/
theorem responses_matched (messageId : κ → String) {s : Client κ V}
    (h : Reach (step messageId) (fun _ _ => True) {} s) : Matched messageId s :=
  (h.invariant (MatchInv.start messageId) fun _ _ _ hi _ => hi.step).toMatched

/-- Two calls, whose responses come in the other order, one of them twice, and one
that no call waits for. -/
def outOfOrder : List (Event ℕ String) :=
  [.channelActive] ++ callOf 0 ++ callOf 1 ++ channelRead { messageId := "1", result := some "b" } ++
    [.arrive { messageId := "7" }] ++ channelRead { messageId := "0", result := some "a" } ++
    [.arrive { messageId := "1", result := some "c" }] ++ returnOf 1 ++ returnOf 0

theorem matched_outOfOrder :
    Matched ids ((runWith (step ids) (fun _ _ => True) {} outOfOrder).get (by decide)) :=
  responses_matched ids (reach_get outOfOrder (by decide))

example : ((runWith (step ids) (fun _ _ => True) {} outOfOrder).get (by decide)).pc 0 =
    .returned (.read true) (.value (some "a")) := by decide

end Client
end Rpc
end CloudManager
