/-
# What the wait of a call leaves behind

A signal is lost on a caller that does not wait yet, and only the channel thread
takes an entry out of the map. So no call waits for a response that is there in
every run whose calls begin to wait before it is stored
(`not_lost_of_awaitsFirst`), and no entry outlives its call in every run whose
waits end after the entry is taken out (`noLeftover_of_answeredFirst`).
-/
import CloudManager.Rpc.Client


namespace CloudManager
namespace Rpc
namespace Client

open Runs

variable {κ V : Type*} [DecidableEq κ] {messageId : κ → String} {s s' : Client κ V}

/-! ### Lost wake-ups -/

/-- The channel thread has stored the call's response, and its signal is next. -/
def signalPending (s : Client κ V) (c : κ) : Bool :=
  match s.channel with
  | .stored x => x.callBack = c
  | _ => false

/-- The call waits, its response is stored, and no signal is to come. -/
def Lost (s : Client κ V) (c : κ) : Prop :=
  s.pc c = .waiting ∧ (s.response c).isSome = true ∧ s.signalPending c = false

instance [DecidableEq V] (s : Client κ V) (c : κ) : Decidable (s.Lost c) :=
  inferInstanceAs (Decidable (_ ∧ _ ∧ _))

/-- No call begins to wait when its response is stored. -/
def AwaitsFirst (s : Client κ V) : Event κ V → Prop
  | .act c .await => (s.response c).isSome = false
  | _ => True

instance : ∀ (s : Client κ V) (e : Event κ V), Decidable (s.AwaitsFirst e)
  | s, .act c .await => inferInstanceAs (Decidable ((s.response c).isSome = false))
  | _, .channelActive | _, .put _ | _, .arrive _ | _, .remove | _, .overLock | _, .store
  | _, .signal | _, .unlock | _, .act _ .write | _, .act _ .lock | _, .act _ .timeout
  | _, .act _ .wakeUp | _, .act _ .interrupt | _, .act _ .read => isTrue trivial

/-- A call waits after `await` only. -/
theorem next_waiting {c : κ} {a : Action} (h : s.next c a = some .waiting) : a = .await := by
  cases a with
  | await => rfl
  | write =>
    simp only [next] at h
    split at h
    · split at h <;> cases h
    · cases h
  | lock =>
    simp only [next] at h
    split at h
    · split at h <;> cases h
    · split at h <;> cases h
    · cases h
  | _ =>
    simp only [next] at h
    split at h <;> cases h

/-- A waiting call with a stored response has its signal to come. -/
def Signals (s : Client κ V) : Prop :=
  ∀ c, s.pc c = .waiting → (s.response c).isSome = true → s.signalPending c = true

theorem signalPending_iff {c : κ} :
    s.signalPending c = true ↔ ∃ x, s.channel = .stored x ∧ x.callBack = c := by
  unfold signalPending
  split
  · rename_i x hx
    simp [hx]
  · rename_i hx
    refine ⟨fun h => (Bool.false_ne_true h).elim, ?_⟩
    rintro ⟨x, h, -⟩
    exact (hx x h).elim

/-- Where the channel thread is not at a signal, no call waits for a response that
is there. -/
theorem Signals.elim (h : Signals s) (hc : ∀ x, s.channel ≠ .stored x) {c : κ}
    (hw : s.pc c = .waiting) (hr : (s.response c).isSome = true) : False := by
  obtain ⟨x, hx, -⟩ := signalPending_iff.mp (h c hw hr)
  exact hc x hx

theorem Signals.step {e : Event κ V} (h : Signals s) (hok : s.AwaitsFirst e)
    (he : step messageId s e = some s') : Signals s' := by
  cases e with
  | channelActive =>
    cases he
    exact h
  | put c =>
    obtain ⟨-, rfl⟩ := step_put he
    intro d hw hr
    rw [goto_pc] at hw
    split at hw
    · cases hw
    · exact h d hw hr
  | act c a =>
    obtain ⟨pc, hn, rfl⟩ := step_act he
    intro d hw hr
    rw [goto_pc] at hw
    split at hw
    · rename_i hd
      subst hd hw
      obtain rfl := next_waiting hn
      rw [goto_response, show (s.response d).isSome = false from hok] at hr
      cases hr
    · exact h d hw hr
  | arrive r =>
    obtain ⟨hc, ⟨-, rfl⟩ | ⟨c, -, rfl⟩⟩ := step_arrive he
    · exact h
    · exact fun _ hw hr => (h.elim (by simp [hc]) hw hr).elim
  | remove =>
    obtain ⟨x, hc, rfl⟩ := step_remove he
    exact fun _ hw hr => (h.elim (by simp [hc]) hw hr).elim
  | overLock =>
    obtain ⟨x, hc, -, rfl⟩ := step_overLock he
    exact fun _ hw hr => (h.elim (by simp [hc]) hw hr).elim
  | store =>
    obtain ⟨x, hc, rfl⟩ := step_store he
    intro d hw hr
    by_cases hd : d = x.callBack
    · exact signalPending_iff.mpr ⟨x, rfl, hd.symm⟩
    · have hr' : (s.response d).isSome = true := by
        simpa only [Function.update_of_ne hd] using hr
      exact (h.elim (by simp [hc]) hw hr').elim
  | signal =>
    obtain ⟨x, hc, ⟨-, rfl⟩ | ⟨hp, rfl⟩⟩ := step_signal he
    · intro d hw hr
      rw [setChannel_pc, goto_pc] at hw
      split at hw
      · cases hw
      · rename_i hd
        obtain ⟨y, hy, rfl⟩ := signalPending_iff.mp (h d hw hr)
        rw [hc] at hy
        cases hy
        exact (hd rfl).elim
    · intro d hw hr
      obtain ⟨y, hy, rfl⟩ := signalPending_iff.mp (h d hw hr)
      rw [hc] at hy
      cases hy
      exact (hp hw).elim
  | unlock =>
    obtain ⟨x, hc, rfl⟩ := step_unlock he
    exact fun _ hw hr => (h.elim (by simp [hc]) hw hr).elim

/-- **No wake-up is lost** in a run whose calls begin to wait before their
responses are stored. -/
theorem not_lost_of_awaitsFirst (messageId : κ → String) {s : Client κ V}
    (h : Reach (step messageId) AwaitsFirst {} s) (c : κ) : ¬ s.Lost c := by
  have hI : Signals s := h.invariant (fun _ hw => by cases hw) fun _ _ _ hi hok => hi.step hok
  rintro ⟨hw, hr, hp⟩
  rw [hI c hw hr] at hp
  cases hp

/-- The response comes while the call waits. -/
def inTurn : List (Event ℕ String) :=
  [.channelActive] ++ callOf 0 ++ channelRead { messageId := "0", result := some "a" }

theorem not_lost_inTurn :
    ¬ ((runWith (step ids) AwaitsFirst {} inTurn).get (by decide)).Lost 0 :=
  not_lost_of_awaitsFirst ids (reach_get inTurn (by decide)) 0

/-- The response comes between the write of the request and the wait. -/
def early : List (Event ℕ String) :=
  [.channelActive, .put 0, .act 0 .write] ++
    channelRead { messageId := "0", result := some "a" } ++ [.act 0 .lock, .act 0 .await]

/-- The call waits on for the response it has. -/
theorem wakeup_lost : ¬ ∀ (messageId : ℕ → String) (s : Client ℕ String),
    Reach (step messageId) (fun _ _ => True) {} s → ∀ c, ¬ s.Lost c := fun h => by
  have hl := h ids _ (reach_get early (by decide)) 0
  revert hl
  decide

/-! ### Entries left over -/

/-- No entry is for a call that has returned; when every call has, there is none. -/
structure NoLeftover (s : Client κ V) : Prop where
  pending : ∀ k c, s.map k = some c → ∀ ending r, s.pc c ≠ .returned ending r
  empty : (∀ c, s.pc c = .idle ∨ ∃ ending r, s.pc c = .returned ending r) → ∀ k, s.map k = none

/-- The write does not throw, and a wait that is not signalled ends after the call's
entry is taken out. -/
def AnsweredFirst (messageId : κ → String) (s : Client κ V) : Event κ V → Prop
  | .act _ .write => s.active = true
  | .act c .timeout | .act c .wakeUp | .act c .interrupt => s.map (messageId c) ≠ some c
  | _ => True

instance (messageId : κ → String) :
    ∀ (s : Client κ V) (e : Event κ V), Decidable (AnsweredFirst messageId s e)
  | s, .act _ .write => inferInstanceAs (Decidable (s.active = true))
  | s, .act c .timeout | s, .act c .wakeUp | s, .act c .interrupt =>
    inferInstanceAs (Decidable (s.map (messageId c) ≠ some c))
  | _, .channelActive | _, .put _ | _, .arrive _ | _, .remove | _, .overLock | _, .store
  | _, .signal | _, .unlock | _, .act _ .lock | _, .act _ .await | _, .act _ .read => isTrue trivial

/-! ### What the steps keep of the map -/

/-- The wait of the call is over. -/
def past (s : Client κ V) (c : κ) : Bool :=
  match s.pc c with
  | .woken _ | .relocked _ | .returned _ _ => true
  | _ => false

/-- The channel thread has taken the call's entry out and hands its response over. -/
def taken (s : Client κ V) (c : κ) : Bool :=
  match s.channel with
  | .removed x | .locked x | .stored x | .signalled x => x.callBack = c
  | _ => false

variable (messageId) in
/-- A call has an entry from its `put` until the channel thread takes it out, and
waits no longer than that. -/
structure LeftInv (s : Client κ V) : Prop where
  mapped : ∀ k c, s.map k = some c → k = messageId c ∧ s.pc c ≠ .idle
  found : ∀ x, s.channel = .found x →
    x.response.messageId = messageId x.callBack ∧ s.pc x.callBack ≠ .idle
  taken : ∀ c, s.taken c = true → s.map (messageId c) ≠ some c ∧ s.pc c ≠ .idle
  past : ∀ c, s.past c = true → s.map (messageId c) ≠ some c

theorem LeftInv.start : LeftInv messageId ({} : Client κ V) where
  mapped _ _ h := by cases h
  found _ h := by cases h
  taken _ h := by cases h
  past _ h := by cases h

/-- By `AnsweredFirst` a wait ends after the call's entry is taken out. -/
theorem next_past {c : κ} {a : Action} {pc : Pc V} (h : s.next c a = some pc)
    (hok : AnsweredFirst messageId s (.act c a)) (hp : (s.goto c pc).past c = true) :
    s.past c = true ∨ s.map (messageId c) ≠ some c := by
  cases a with
  | write =>
    have ha : s.active = true := hok
    obtain ⟨-, rfl⟩ := next_write h
    simp [past, ha] at hp
  | lock =>
    simp only [next] at h
    split at h
    · split at h <;> cases h
      simp [past] at hp
    · rename_i hw
      exact .inl (by simp [past, hw])
    · cases h
  | await =>
    simp only [next] at h
    split at h <;> cases h
    simp [past] at hp
  | read =>
    simp only [next] at h
    split at h
    · rename_i hw
      exact .inl (by simp [past, hw])
    · rename_i hw
      exact .inl (by simp [past, hw])
    · cases h
  | _ => exact .inr hok

/-- The map loses entries at most, the calls stay where they are, and the channel
thread has nothing new in hand. -/
theorem LeftInv.keep (h : LeftInv messageId s) (hm : ∀ k c, s'.map k = some c → s.map k = some c)
    (hp : s'.pc = s.pc) (hf : ∀ x, s'.channel = .found x →
      x.response.messageId = messageId x.callBack ∧ s.pc x.callBack ≠ .idle)
    (ht : ∀ c, s'.taken c = true → s'.map (messageId c) ≠ some c ∧ s.pc c ≠ .idle) :
    LeftInv messageId s' where
  mapped k c hk := hp ▸ h.mapped k c (hm k c hk)
  found x hx := hp ▸ hf x hx
  taken c hc := hp ▸ ht c hc
  past c hc := by
    have hc' : s.past c = true := by simpa only [Client.past, hp] using hc
    exact fun hk => h.past c hc' (hm _ c hk)

theorem LeftInv.act (h : LeftInv messageId s) {c : κ} {pc : Pc V} (hne : pc ≠ .idle)
    (hp : (s.goto c pc).past c = true → s.past c = true ∨ s.map (messageId c) ≠ some c) :
    LeftInv messageId (s.goto c pc) := by
  have hpc : ∀ d, s.pc d ≠ .idle → (s.goto c pc).pc d ≠ .idle := fun d hd => by
    rw [goto_pc]
    split
    · exact hne
    · exact hd
  refine ⟨fun k d hk => ?_, fun x hx => ?_, fun d hd => ?_, fun d hd => ?_⟩
  · exact ⟨(h.mapped k d hk).1, hpc d (h.mapped k d hk).2⟩
  · exact ⟨(h.found x hx).1, hpc _ (h.found x hx).2⟩
  · exact ⟨(h.taken d hd).1, hpc d (h.taken d hd).2⟩
  · by_cases hdc : d = c
    · subst hdc
      exact (hp hd).elim (h.past d) id
    · have hd' : s.past d = true := by simpa [Client.past, goto_pc, hdc] using hd
      exact h.past d hd'

theorem LeftInv.put (h : LeftInv messageId s) {c : κ} (hi : s.pc c = .idle) :
    LeftInv messageId ((s.setEntry (messageId c) (some c)).goto c .put) := by
  have hmap : ∀ k d, (s.setEntry (messageId c) (some c)).map k = some d → d ≠ c → s.map k = some d := by
    intro k d hk hd
    rw [setEntry_map] at hk
    split at hk
    · cases hk
      exact (hd rfl).elim
    · exact hk
  have hpc : ∀ d, s.pc d ≠ .idle → d ≠ c := fun d hd hdc => hd (hdc ▸ hi)
  have hgo : ∀ d, s.pc d ≠ .idle → ((s.setEntry (messageId c) (some c)).goto c .put).pc d ≠ .idle :=
    fun d hd => by
      rw [goto_pc, if_neg (hpc d hd)]
      exact hd
  refine ⟨fun k d hk => ?_, fun x hx => ?_, fun d hd => ?_, fun d hd => ?_⟩
  · by_cases hdc : d = c
    · subst hdc
      refine ⟨?_, by simp⟩
      rw [goto_map, setEntry_map] at hk
      split at hk
      · assumption
      · exact (h.mapped k d hk).1
    · have hk' := h.mapped k d (hmap k d hk hdc)
      exact ⟨hk'.1, hgo d hk'.2⟩
  · exact ⟨(h.found x hx).1, hgo _ (h.found x hx).2⟩
  · have hd' := h.taken d hd
    exact ⟨fun hk => hd'.1 (hmap _ d hk (hpc d hd'.2)), hgo d hd'.2⟩
  · by_cases hdc : d = c
    · subst hdc
      simp [Client.past] at hd
    · have hd' : s.past d = true := by simpa [Client.past, goto_pc, hdc] using hd
      exact fun hk => h.past d hd' (hmap _ d hk hdc)

theorem LeftInv.step {e : Event κ V} (h : LeftInv messageId s) (hok : AnsweredFirst messageId s e)
    (he : step messageId s e = some s') : LeftInv messageId s' := by
  cases e with
  | channelActive =>
    cases he
    exact h.keep (fun _ _ => id) rfl h.found h.taken
  | put c =>
    obtain ⟨hi, rfl⟩ := step_put he
    exact h.put hi
  | act c a =>
    obtain ⟨pc, hn, rfl⟩ := step_act he
    exact h.act (next_begun hn).1 (next_past hn hok)
  | arrive r =>
    obtain ⟨hc, ⟨-, rfl⟩ | ⟨c, hm, rfl⟩⟩ := step_arrive he
    · exact h.keep (fun _ _ => id) rfl h.found h.taken
    · refine h.keep (fun _ _ => id) rfl ?_ fun d hd => by cases hd
      rintro x ⟨⟩
      exact h.mapped _ _ hm
  | remove =>
    obtain ⟨x, hc, rfl⟩ := step_remove he
    obtain ⟨hid, hp⟩ := h.found x hc
    refine h.keep (fun k d hk => ?_) rfl (fun y hy => by cases hy) fun d hd => ?_
    · rw [setChannel_map, setEntry_map] at hk
      split at hk
      · cases hk
      · exact hk
    · obtain rfl : x.callBack = d := by simpa [Client.taken] using hd
      exact ⟨by simp [hid], hp⟩
  | overLock =>
    obtain ⟨x, hc, -, rfl⟩ := step_overLock he
    refine h.keep (fun _ _ => id) rfl (fun y hy => by cases hy) fun d hd => ?_
    exact h.taken d (by simpa [Client.taken, hc] using hd)
  | store =>
    obtain ⟨x, hc, rfl⟩ := step_store he
    refine h.keep (fun _ _ => id) rfl (fun y hy => by cases hy) fun d hd => ?_
    exact h.taken d (by simpa [Client.taken, hc] using hd)
  | signal =>
    obtain ⟨x, hc, ⟨-, rfl⟩ | ⟨-, rfl⟩⟩ := step_signal he
    · have ht := h.taken x.callBack (by simp [Client.taken, hc])
      have hs : LeftInv messageId (s.goto x.callBack (.woken false)) :=
        h.act (by simp) fun _ => .inr ht.1
      refine hs.keep (fun _ _ => id) rfl (fun y hy => by cases hy) fun d hd => ?_
      exact hs.taken d (by simpa [Client.taken, hc] using hd)
    · refine h.keep (fun _ _ => id) rfl (fun y hy => by cases hy) fun d hd => ?_
      exact h.taken d (by simpa [Client.taken, hc] using hd)
  | unlock =>
    obtain ⟨x, -, rfl⟩ := step_unlock he
    exact h.keep (fun _ _ => id) rfl (fun y hy => by cases hy) fun d hd => by cases hd

/-- **Nothing is left pending** in a run whose writes do not throw and whose waits
end after the channel thread has taken the entry out. -/
theorem noLeftover_of_answeredFirst (messageId : κ → String) {s : Client κ V}
    (h : Reach (step messageId) (AnsweredFirst messageId) {} s) : s.NoLeftover := by
  have hI : LeftInv messageId s := h.invariant .start fun _ _ _ hi hok => hi.step hok
  have hp : ∀ k c, s.map k = some c → ∀ ending r, s.pc c ≠ .returned ending r := by
    intro k c hk ending r hr
    obtain ⟨rfl, -⟩ := hI.mapped k c hk
    exact hI.past c (by simp [past, hr]) hk
  refine ⟨hp, fun hall k => ?_⟩
  rcases hk : s.map k with _ | c
  · rfl
  · obtain hi | ⟨ending, r, hr⟩ := hall c
    · exact ((hI.mapped k c hk).2 hi).elim
    · exact (hp k c hk ending r hr).elim

theorem noLeftover_answered :
    ((runWith (step ids) (AnsweredFirst ids) {} (inTurn ++ returnOf 0)).get (by decide)).NoLeftover :=
  noLeftover_of_answeredFirst ids (reach_get (inTurn ++ returnOf 0) (by decide))

/-- No response comes. -/
def unanswered : List (Event ℕ String) :=
  [.channelActive] ++ callOf 0 ++ [.act 0 .timeout] ++ returnOf 0

/-- The call has timed out and returned, and its entry stays. -/
theorem entry_left : ¬ ∀ (messageId : ℕ → String) (s : Client ℕ String),
    Reach (step messageId) (fun _ _ => True) {} s → s.NoLeftover := fun h => by
  have hl := (h ids _ (reach_get unanswered (by decide))).pending "0" 0 (by decide)
    (.read false) (.value none)
  revert hl
  decide

end Client
end Rpc
end CloudManager
