/-
# The connections of the RPC's clients

`NettyProxy` keeps a handler for each address in a map that all calls share. A call
that finds none connects and puts its own: the look, the connection and the put are
steps of their own, and other calls run in between. The handlers are clients
(`Client.step`), each with its own channel, which may be closed.

`answered_own`: the value of a call is that of a response with the call's id that came
over a connection to the call's own address, whichever handler the map holds.
`never_again`: nothing takes a handler out of the map; once the connections to an
address are closed, every call to it that begins later returns null or throws.
-/
import CloudManager.Lib.JavaString
import CloudManager.Lib.Decimal
import CloudManager.Rpc.Matching


namespace CloudManager
namespace Rpc

open Runs

variable {κ V : Type*} [DecidableEq κ]

/-! ### The calls of a client -/

namespace Client

/-- What a client has of calls, it has of calls that have begun. -/
structure Begun (s : Client κ V) : Prop where
  mapped : ∀ k c, s.map k = some c → s.pc c ≠ .idle
  handed : ∀ x ∈ s.channel.handover, s.pc x.callBack ≠ .idle
  stored : ∀ c r, s.response c = some r → s.pc c ≠ .idle

variable {messageId : κ → String} {s s' : Client κ V}

omit [DecidableEq κ] in
theorem Begun.start : Begun ({} : Client κ V) where
  mapped _ _ h := by cases h
  handed _ h := by cases h
  stored _ _ h := by cases h

theorem goto_ne_idle {c d : κ} {pc : Pc V} (hpc : pc ≠ .idle) (hd : s.pc d ≠ .idle) :
    (s.goto c pc).pc d ≠ .idle := by
  rw [goto_pc]
  split
  · exact hpc
  · exact hd

/-- A call begins by the put of its entry. -/
theorem pc_step {e : Event κ V} (h : step messageId s e = some s') {c : κ} :
    (s.pc c ≠ .idle → s'.pc c ≠ .idle) ∧ (s'.pc c ≠ .idle → s.pc c ≠ .idle ∨ e = .put c ∨
      ∃ a, e = .act c a) := by
  match e with
  | .channelActive =>
    cases h
    exact ⟨id, .inl⟩
  | .put d =>
    obtain ⟨-, rfl⟩ := step_put h
    refine ⟨goto_ne_idle nofun, fun hc => ?_⟩
    rw [goto_pc] at hc
    split at hc
    · rename_i hcd
      exact .inr (.inl (by rw [hcd]))
    · exact .inl hc
  | .act d a =>
    obtain ⟨pc, hn, rfl⟩ := step_act h
    refine ⟨goto_ne_idle (next_begun hn).1, fun hc => ?_⟩
    rw [goto_pc] at hc
    split at hc
    · rename_i hcd
      exact .inr (.inr ⟨a, by rw [hcd]⟩)
    · exact .inl hc
  | .arrive r =>
    obtain ⟨-, ⟨-, rfl⟩ | ⟨d, -, rfl⟩⟩ := step_arrive h
    · exact ⟨id, .inl⟩
    · exact ⟨id, .inl⟩
  | .remove =>
    obtain ⟨x, -, rfl⟩ := step_remove h
    exact ⟨id, .inl⟩
  | .overLock =>
    obtain ⟨x, -, -, rfl⟩ := step_overLock h
    exact ⟨id, .inl⟩
  | .store =>
    obtain ⟨x, -, rfl⟩ := step_store h
    exact ⟨id, .inl⟩
  | .signal =>
    obtain ⟨x, -, ⟨hw, rfl⟩ | ⟨-, rfl⟩⟩ := step_signal h
    · refine ⟨goto_ne_idle nofun, fun hc => .inl ?_⟩
      rw [setChannel_pc, goto_pc] at hc
      split at hc
      · rename_i hcx
        rw [hcx, hw]
        exact nofun
      · exact hc
    · exact ⟨id, .inl⟩
  | .unlock =>
    obtain ⟨x, -, rfl⟩ := step_unlock h
    exact ⟨id, .inl⟩

theorem Begun.step {e : Event κ V} (hb : Begun s) (h : step messageId s e = some s') :
    Begun s' := by
  have hpc : ∀ {c}, s.pc c ≠ .idle → s'.pc c ≠ .idle := (pc_step h).1
  match e with
  | .channelActive =>
    cases h
    exact ⟨hb.mapped, hb.handed, hb.stored⟩
  | .put d =>
    have hd : s'.pc d ≠ .idle := by
      obtain ⟨-, rfl⟩ := step_put h
      rw [goto_pc, if_pos rfl]
      exact nofun
    obtain ⟨-, rfl⟩ := step_put h
    refine ⟨fun k c hk => ?_, fun x hx => hpc (hb.handed x hx), fun c r hr => hpc (hb.stored c r hr)⟩
    rw [goto_map, setEntry_map] at hk
    split at hk
    · cases hk
      exact hd
    · exact hpc (hb.mapped k c hk)
  | .act d a =>
    obtain ⟨pc, -, rfl⟩ := step_act h
    exact ⟨fun k c hk => hpc (hb.mapped k c hk), fun x hx => hpc (hb.handed x hx),
      fun c r hr => hpc (hb.stored c r hr)⟩
  | .arrive r =>
    obtain ⟨hc, ⟨-, rfl⟩ | ⟨d, hd, rfl⟩⟩ := step_arrive h
    · exact ⟨hb.mapped, hb.handed, hb.stored⟩
    · refine ⟨hb.mapped, fun x hx => ?_, hb.stored⟩
      cases hx
      exact hb.mapped _ d hd
  | .remove =>
    obtain ⟨x, hc, rfl⟩ := step_remove h
    refine ⟨fun k c hk => ?_, fun y hy => hb.handed y ?_, hb.stored⟩
    · rw [setChannel_map, setEntry_map] at hk
      split at hk
      · cases hk
      · exact hb.mapped k c hk
    · rw [hc]
      exact hy
  | .overLock =>
    obtain ⟨x, hc, -, rfl⟩ := step_overLock h
    refine ⟨hb.mapped, fun y hy => hb.handed y ?_, hb.stored⟩
    rw [hc]
    exact hy
  | .store =>
    obtain ⟨x, hc, rfl⟩ := step_store h
    have hx : s.pc x.callBack ≠ .idle := hb.handed x (by rw [hc]; rfl)
    refine ⟨hb.mapped, fun y hy => hb.handed y ?_, fun c r hr => ?_⟩
    · rw [hc]
      exact hy
    · dsimp only at hr
      rw [Function.update_apply] at hr
      split at hr
      · rename_i hcx
        exact hcx ▸ hx
      · exact hb.stored c r hr
  | .signal =>
    have hchannel : s'.channel.handover = s.channel.handover ∧ s'.map = s.map ∧
        s'.response = s.response := by
      obtain ⟨x, hc, ⟨-, rfl⟩ | ⟨-, rfl⟩⟩ := step_signal h
      · exact ⟨by rw [hc]; rfl, rfl, rfl⟩
      · exact ⟨by rw [hc]; rfl, rfl, rfl⟩
    obtain ⟨hh, hm, hr⟩ := hchannel
    exact ⟨fun k c hk => hpc (hb.mapped k c (hm ▸ hk)), fun x hx => hpc (hb.handed x (hh ▸ hx)),
      fun c r hc => hpc (hb.stored c r (hr ▸ hc))⟩
  | .unlock =>
    obtain ⟨x, hc, rfl⟩ := step_unlock h
    exact ⟨hb.mapped, nofun, hb.stored⟩

/-- No response is there for the call, and it returns none. -/
def Unanswered (s : Client κ V) (c : κ) : Prop :=
  s.response c = none ∧ ∀ ending r, s.pc c = .returned ending r → r = .value none ∨ r = .throws

/-- While nothing arrives, the channel thread rests and no call is answered. -/
theorem rest_step {e : Event κ V} (h : step messageId s e = some s') (hs : s.channel = .idle)
    (he : ∀ r, e ≠ .arrive r) :
    s'.channel = .idle ∧ ∀ c, s.Unanswered c → s'.Unanswered c := by
  match e with
  | .channelActive =>
    cases h
    exact ⟨hs, fun _ => id⟩
  | .put d =>
    obtain ⟨-, rfl⟩ := step_put h
    refine ⟨hs, fun c hc => ⟨hc.1, fun ending r hr => ?_⟩⟩
    rw [goto_pc] at hr
    split at hr
    · cases hr
    · exact hc.2 ending r hr
  | .act d a =>
    obtain ⟨pc, hn, rfl⟩ := step_act h
    refine ⟨hs, fun c hc => ⟨hc.1, fun ending r hr => ?_⟩⟩
    rw [goto_pc] at hr
    split at hr
    · rename_i hcd
      subst hcd
      rw [hr] at hn
      rcases next_returned hn with ⟨-, -, hv⟩ | ⟨-, -, hv⟩ | ⟨-, -, hv⟩
      · exact .inr hv
      · exact .inr hv
      · rw [hc.1] at hv
        exact .inl hv
    · exact hc.2 ending r hr
  | .arrive r => exact absurd rfl (he r)
  | .remove =>
    obtain ⟨x, hc, -⟩ := step_remove h
    rw [hs] at hc
    cases hc
  | .overLock =>
    obtain ⟨x, hc, -⟩ := step_overLock h
    rw [hs] at hc
    cases hc
  | .store =>
    obtain ⟨x, hc, -⟩ := step_store h
    rw [hs] at hc
    cases hc
  | .signal =>
    obtain ⟨x, hc, -⟩ := step_signal h
    rw [hs] at hc
    cases hc
  | .unlock =>
    obtain ⟨x, hc, -⟩ := step_unlock h
    rw [hs] at hc
    cases hc

end Client

/-! ### The proxy and its handlers -/

namespace NettyProxy

def IGNORE_METHOD_NAME : List String := ["toString", "hashCode", "equals", "wait"]

/-- The host and the port that `invoke` reads of an address; `none`: an exception. -/
def hostAndPort (address : String) : Option (String × ℤ) :=
  match JavaString.split ':' address with
  | host :: port :: _ =>
    -- `Integer.valueOf` also takes digits that are not ASCII
    (Decimal.parse port.toList).bind fun n =>
      if Int32.minValue.toInt ≤ n ∧ n ≤ Int32.maxValue.toInt then some (host, n) else none
  | _ => none

/-- An `OutputClientHandler`, and the channel it is connected by. -/
structure Handler (κ V : Type*) where
  /-- The address that it was connected for. -/
  address : String
  host : String
  port : ℤ
  closed : Bool := false
  client : Client κ V := {}

/-- Where a call is in `invoke`. -/
inductive Pc
  | idle
  | addressed (address : String)
  /-- The map has no handler; the connection is next. -/
  | absent (address : String)
  /-- The put is next. -/
  | connected (address : String) (handler : ℕ)
  | present (address : String)
  /-- `sendRequest` and `start` are next, on this handler. -/
  | obtained (address : String) (handler : ℕ)
  | over (threw : Bool)
  deriving DecidableEq, Repr

structure Proxy (κ V : Type*) where
  /-- `CHANNEL_FUTURE_MAP`. -/
  map : String → Option ℕ := fun _ => none
  handlers : List (Handler κ V) := []
  pc : κ → Pc := fun _ => .idle

inductive Event (κ V : Type*)
  /-- `invoke` begins; `none`: no address, or an exception of the discovery. -/
  | address (c : κ) (methodName : String) (address : Option String)
  | look (c : κ)
  | connect (c : κ) (connects : Bool)
  | put (c : κ)
  | get (c : κ)
  | client (k : ℕ) (e : Rpc.Event κ V)
  | close (k : ℕ)
  deriving DecidableEq, Repr

namespace Proxy

def goto (s : Proxy κ V) (c : κ) (pc : Pc) : Proxy κ V :=
  { s with pc := Function.update s.pc c pc }

/-- Calls use the handlers they have obtained; a closed channel reads nothing. -/
def allows (s : Proxy κ V) (k : ℕ) (x : Handler κ V) : Rpc.Event κ V → Bool
  | .put c | .act c _ => s.pc c = .obtained x.address k
  | .channelActive | .arrive _ => !x.closed
  | .remove | .overLock | .store | .signal | .unlock => true

variable (messageId : κ → String)

def step (s : Proxy κ V) : Event κ V → Option (Proxy κ V)
  | .address c methodName address =>
    match s.pc c with
    | .idle =>
      if methodName ∈ IGNORE_METHOD_NAME then some (s.goto c (.over false))
      else
        match address with
        | none => some (s.goto c (.over true))
        | some a => some (s.goto c (.addressed a))
    | _ => none
  | .look c =>
    match s.pc c with
    | .addressed a => some (s.goto c (if (s.map a).isSome then .present a else .absent a))
    | _ => none
  | .connect c connects =>
    match s.pc c with
    | .absent a =>
      match hostAndPort a with
      | none => some (s.goto c (.over true))
      | some (host, port) =>
        if connects then
          some (goto { s with handlers := s.handlers ++ [{ address := a, host, port }] } c
            (.connected a s.handlers.length))
        else some (s.goto c (.over true))
    | _ => none
  | .put c =>
    match s.pc c with
    | .connected a k =>
      some (goto { s with map := Function.update s.map a (some k) } c (.present a))
    | _ => none
  | .get c =>
    match s.pc c with
    | .present a =>
      match s.map a with
      | none => some (s.goto c (.over true))
      | some k => some (s.goto c (.obtained a k))
    | _ => none
  | .client k e =>
    match s.handlers[k]? with
    | none => none
    | some x =>
      if s.allows k x e then
        (Client.step messageId x.client e).map fun client =>
          { s with handlers := s.handlers.set k { x with client := client } }
      else none
  | .close k =>
    match s.handlers[k]? with
    | none => none
    | some x => some { s with handlers := s.handlers.set k { x with closed := true } }

/-! ### What a step does -/

/-- Where a call goes on its own. -/
inductive Next (s : Proxy κ V) (c : κ) : Pc → Prop
  | over (threw : Bool) : Next s c (.over threw)
  | addressed (a : String) : Next s c (.addressed a)
  | present {a : String} : (s.map a).isSome → Next s c (.present a)
  | absent {a : String} : s.map a = none → Next s c (.absent a)
  | obtained {a : String} {k : ℕ} : s.map a = some k → Next s c (.obtained a k)

inductive Step (s : Proxy κ V) : Proxy κ V → Prop
  | goto {c : κ} {pc : Pc} : (∀ a k, s.pc c ≠ .obtained a k) → Next s c pc → Step s (s.goto c pc)
  | connect {c : κ} {a host : String} {port : ℤ} : s.pc c = .absent a →
    hostAndPort a = some (host, port) →
    Step s (goto { s with handlers := s.handlers ++ [{ address := a, host, port }] } c
      (.connected a s.handlers.length))
  | put {c : κ} {a : String} {k : ℕ} : s.pc c = .connected a k →
    Step s (goto { s with map := Function.update s.map a (some k) } c (.present a))
  | client {k : ℕ} {x : Handler κ V} {e : Rpc.Event κ V} {client : Client κ V} :
    s.handlers[k]? = some x → s.allows k x e = true →
    Client.step messageId x.client e = some client →
    Step s { s with handlers := s.handlers.set k { x with client := client } }
  | close {k : ℕ} {x : Handler κ V} : s.handlers[k]? = some x →
    Step s { s with handlers := s.handlers.set k { x with closed := true } }

variable {messageId} {s s' : Proxy κ V}

theorem step_cases {e : Event κ V} (h : step messageId s e = some s') : Step messageId s s' := by
  unfold step at h
  match e with
  | .address c methodName address =>
    dsimp only at h
    split at h
    · rename_i hpc
      have hne : ∀ a k, s.pc c ≠ .obtained a k := by simp [hpc]
      split at h
      · cases h
        exact .goto hne (.over false)
      · split at h
        · cases h
          exact .goto hne (.over true)
        · cases h
          exact .goto hne (.addressed _)
    · cases h
  | .look c =>
    dsimp only at h
    split at h
    · rename_i a hpc
      have hne : ∀ a k, s.pc c ≠ .obtained a k := by simp [hpc]
      cases h
      split
      · rename_i hm
        exact .goto hne (.present hm)
      · rename_i hm
        exact .goto hne (.absent (by simpa using hm))
    · cases h
  | .connect c connects =>
    dsimp only at h
    split at h
    · rename_i a hpc
      have hne : ∀ a k, s.pc c ≠ .obtained a k := by simp [hpc]
      split at h
      · cases h
        exact .goto hne (.over true)
      · rename_i host port hp
        split at h
        · cases h
          exact .connect hpc hp
        · cases h
          exact .goto hne (.over true)
    · cases h
  | .put c =>
    dsimp only at h
    split at h
    · rename_i a k hpc
      cases h
      exact .put hpc
    · cases h
  | .get c =>
    dsimp only at h
    split at h
    · rename_i a hpc
      have hne : ∀ a k, s.pc c ≠ .obtained a k := by simp [hpc]
      split at h
      · cases h
        exact .goto hne (.over true)
      · rename_i k hm
        cases h
        exact .goto hne (.obtained hm)
    · cases h
  | .client k e =>
    dsimp only at h
    split at h
    · cases h
    · rename_i x hx
      split at h
      · rename_i hallows
        obtain ⟨client, hc, rfl⟩ := Option.map_eq_some_iff.mp h
        exact .client hx hallows hc
      · cases h
  | .close k =>
    dsimp only at h
    split at h
    · cases h
    · rename_i x hx
      cases h
      exact .close hx

/-! ### The handlers of every run -/

theorem pc_goto {c d : κ} {pc : Pc} :
    (s.goto c pc).pc d = if d = c then pc else s.pc d := by
  simp [goto, Function.update_apply]

theorem pc_of_goto {c d : κ} {pc pc' : Pc} (h : (s.goto c pc).pc d = pc') (hne : pc ≠ pc') :
    s.pc d = pc' := by
  rw [pc_goto] at h
  split at h
  · exact absurd h hne
  · exact h

omit [DecidableEq κ] in
theorem get_set {k j : ℕ} {x y : Handler κ V} (hx : s.handlers[k]? = some x) :
    (s.handlers.set k y)[j]? = if j = k then some y else s.handlers[j]? := by
  have hlt : k < s.handlers.length := (List.getElem?_eq_some_iff.mp hx).1
  rw [List.getElem?_set]
  by_cases hjk : k = j
  · rw [if_pos hjk, if_pos hlt, if_pos hjk.symm]
  · rw [if_neg hjk, if_neg (Ne.symm hjk)]

/-- There is a handler `k`, connected for the address. -/
def For (s : Proxy κ V) (a : String) (k : ℕ) : Prop :=
  ∃ x, s.handlers[k]? = some x ∧ x.address = a

omit [DecidableEq κ] in
theorem For.append {a : String} {k : ℕ} (h : s.For a k) (y : Handler κ V) :
    For { s with handlers := s.handlers ++ [y] } a k := by
  obtain ⟨x, hx, ha⟩ := h
  refine ⟨x, ?_, ha⟩
  show (s.handlers ++ [y])[k]? = some x
  rw [List.getElem?_append_left (List.getElem?_eq_some_iff.mp hx).1]
  exact hx

omit [DecidableEq κ] in
theorem For.set {a : String} {j k : ℕ} {x y : Handler κ V} (h : s.For a j)
    (hx : s.handlers[k]? = some x) (hy : y.address = x.address) :
    For { s with handlers := s.handlers.set k y } a j := by
  obtain ⟨z, hz, ha⟩ := h
  by_cases hjk : j = k
  · subst hjk
    rw [hx] at hz
    cases hz
    exact ⟨y, by rw [get_set hx, if_pos rfl], hy.trans ha⟩
  · exact ⟨z, by rw [get_set hx, if_neg hjk, hz], ha⟩

/-- Handlers stay, for their addresses. -/
theorem For.step {a : String} {k : ℕ} (h : s.For a k) (hs : Step messageId s s') : s'.For a k := by
  cases hs with
  | goto | put => exact h
  | connect => exact h.append _
  | client hx => exact h.set hx rfl
  | close hx => exact h.set hx rfl

/-- What is known of a handler: its target, its client, and the calls that have begun on it. -/
structure Sound (messageId : κ → String) (s : Proxy κ V) (k : ℕ) (x : Handler κ V) : Prop where
  target : hostAndPort x.address = some (x.host, x.port)
  matched : x.client.MatchInv messageId
  begun : x.client.Begun
  obtained : ∀ c, x.client.pc c ≠ .idle → s.pc c = .obtained x.address k

variable (messageId) in
structure Inv (s : Proxy κ V) : Prop where
  map : ∀ a k, s.map a = some k → s.For a k
  connected : ∀ c a k, s.pc c = .connected a k → s.For a k
  handlers : ∀ k x, s.handlers[k]? = some x → Sound messageId s k x

omit [DecidableEq κ] in
theorem Inv.start : Inv messageId ({} : Proxy κ V) where
  map _ _ h := by cases h
  connected _ _ _ h := by cases h
  handlers _ _ h := by cases h

omit [DecidableEq κ] in
theorem Sound.of_pc {k : ℕ} {x : Handler κ V} (h : Sound messageId s k x)
    (hs : ∀ c, s.pc c = .obtained x.address k → s'.pc c = .obtained x.address k) :
    Sound messageId s' k x :=
  ⟨h.target, h.matched, h.begun, fun c hc => hs c (h.obtained c hc)⟩

/-- The move of a call that has no handler moves no call that has one. -/
theorem pc_goto_obtained {c d : κ} {pc : Pc} {a : String} {k : ℕ}
    (hc : ∀ a k, s.pc c ≠ .obtained a k) (hd : s.pc d = .obtained a k) :
    (s.goto c pc).pc d = .obtained a k := by
  rw [pc_goto, if_neg fun hdc => hc _ _ (hdc ▸ hd)]
  exact hd

theorem Inv.step (h : Inv messageId s) (hs : Step messageId s s') : Inv messageId s' := by
  have hfor : ∀ {a k}, s.For a k → s'.For a k := fun hk => hk.step hs
  cases hs with
  | @goto c pc hc hnext =>
    refine ⟨fun a k hk => hfor (h.map a k hk), fun d a k hd => ?_,
      fun k x hx => (h.handlers k x hx).of_pc fun d => pc_goto_obtained hc⟩
    refine hfor (h.connected d a k (pc_of_goto hd ?_))
    rintro rfl
    cases hnext
  | @connect c a host port hc hp =>
    have hne : ∀ a k, s.pc c ≠ .obtained a k := by simp [hc]
    have hnew : (s.handlers ++ [{ address := a, host, port }])[s.handlers.length]? =
        some ({ address := a, host, port } : Handler κ V) := List.getElem?_concat_length
    refine ⟨fun a k hk => hfor (h.map a k hk), fun d b k hd => ?_, fun k x hx => ?_⟩
    · rw [pc_goto] at hd
      split at hd
      · cases hd
        exact ⟨_, hnew, rfl⟩
      · exact hfor (h.connected d b k hd)
    · rcases Nat.lt_or_ge k s.handlers.length with hk | hk
      · have hold : s.handlers[k]? = some x := by
          rw [← List.getElem?_append_left hk]
          exact hx
        exact (h.handlers k x hold).of_pc fun d => pc_goto_obtained hne
      · have hlt : k < (s.handlers ++ [_]).length := (List.getElem?_eq_some_iff.mp hx).1
        rw [List.length_append, List.length_singleton] at hlt
        have hk : k = s.handlers.length := by omega
        subst hk
        have heq := hnew.symm.trans hx
        cases heq
        exact ⟨hp, .start messageId, .start, fun d hd => absurd rfl hd⟩
  | @put c a k hc =>
    have hne : ∀ a k, s.pc c ≠ .obtained a k := by simp [hc]
    refine ⟨fun b j hj => ?_, fun d b j hd => ?_,
      fun j x hx => (h.handlers j x hx).of_pc fun d => pc_goto_obtained hne⟩
    · rw [show (goto _ _ _ : Proxy κ V).map = Function.update s.map a (some k) from rfl,
        Function.update_apply] at hj
      split at hj
      · rename_i hb
        cases hj
        rw [hb]
        exact hfor (h.connected c a k hc)
      · exact hfor (h.map b j hj)
    · exact hfor (h.connected d b j (pc_of_goto hd nofun))
  | @client k x e client hx hallows hc =>
    refine ⟨fun a j hj => hfor (h.map a j hj), fun d a j hd => hfor (h.connected d a j hd),
      fun j y hy => ?_⟩
    have hsound := h.handlers k x hx
    rw [get_set hx] at hy
    split at hy
    · rename_i hjk
      cases hy
      refine ⟨hsound.target, hsound.matched.step hc, hsound.begun.step hc, fun d hd => ?_⟩
      subst hjk
      rcases (Client.pc_step hc).2 hd with hd | rfl | ⟨a, rfl⟩
      · exact hsound.obtained d hd
      · exact of_decide_eq_true hallows
      · exact of_decide_eq_true hallows
    · exact (h.handlers j y hy).of_pc fun d => id
  | @close k x hx =>
    refine ⟨fun a j hj => hfor (h.map a j hj), fun d a j hd => hfor (h.connected d a j hd),
      fun j y hy => ?_⟩
    rw [get_set hx] at hy
    split at hy
    · rename_i hjk
      cases hy
      subst hjk
      have hsound := h.handlers j x hx
      exact ⟨hsound.target, hsound.matched, hsound.begun, hsound.obtained⟩
    · exact (h.handlers j y hy).of_pc fun d => id

variable (messageId) in
/-- **A call gets the answer of its own address.** In every run, a value that a call returns
is the result of a response with its message id, which came over a connection to the host
and the port of its address; and the call has been on no other connection. -/
theorem answered_own (h : Reach (step messageId) (fun _ _ => True) ({} : Proxy κ V) s) {k : ℕ}
    {x : Handler κ V} (hx : s.handlers[k]? = some x) {c : κ} {ending : Ending} {v : V}
    (hc : x.client.pc c = .returned ending (.value (some v))) :
    (∃ a, s.pc c = .obtained a k ∧ hostAndPort a = some (x.host, x.port)) ∧
      (∃ r ∈ x.client.arrived, r.messageId = messageId c ∧ r.result = some v) ∧
      ∀ j y, s.handlers[j]? = some y → j ≠ k → y.client.pc c = .idle := by
  have hinv : Inv messageId s :=
    h.invariant Inv.start fun _ _ _ hi _ hs => hi.step (step_cases hs)
  have hsound := hinv.handlers k x hx
  have hpc : s.pc c = .obtained x.address k := hsound.obtained c (by rw [hc]; exact nofun)
  refine ⟨⟨x.address, hpc, hsound.target⟩, ?_, fun j y hy hjk => ?_⟩
  · obtain ⟨r, ⟨n, -, hn, hid⟩, hr⟩ := hsound.matched.own c ending v hc
    exact ⟨r, List.mem_of_getElem? hn, hid, hr⟩
  · by_contra hne
    have hj := (hinv.handlers j y hy).obtained c hne
    rw [hpc] at hj
    injection hj with _ hkj
    exact hjk hkj.symm

/-- The first steps of a call to the address. -/
def toHandler (c : ℕ) (a : String) : List (Event ℕ String) :=
  [.address c "name" (some a), .look c]

/-- Two calls to one address that both find no handler; the second put overwrites the first. -/
def sideBySide : List (Event ℕ String) :=
  toHandler 0 "h:80" ++ toHandler 1 "h:80" ++
    [.connect 0 true, .connect 1 true, .put 0, .get 0, .put 1, .get 1,
      .client 0 .channelActive, .client 1 .channelActive] ++
    (Client.callOf 0).map (.client 0) ++ (Client.callOf 1).map (.client 1) ++
    (Client.channelRead { messageId := "0", result := some "a" }).map (.client 0) ++
    (Client.channelRead { messageId := "1", result := some "b" }).map (.client 1) ++
    (Client.returnOf 0).map (.client 0) ++ (Client.returnOf 1).map (.client 1)

def overwritten : Proxy ℕ String :=
  (runWith (step Client.ids) (fun _ _ => True) {} sideBySide).get (by decide)

def first : Handler ℕ String := (overwritten.handlers[0]?).get (by decide)

theorem answered_overwritten :
    (∃ a, overwritten.pc 0 = .obtained a 0 ∧ hostAndPort a = some (first.host, first.port)) ∧
      (∃ r ∈ first.client.arrived, r.messageId = Client.ids 0 ∧ r.result = some "a") ∧
      ∀ j y, overwritten.handlers[j]? = some y → j ≠ 0 → y.client.pc 0 = .idle :=
  answered_own Client.ids (reach_get sideBySide (by decide)) (Option.some_get (by decide)).symm
    (by decide : first.client.pc 0 = .returned (.read true) (.value (some "a")))

example : overwritten.map "h:80" = some 1 := by decide

/-! ### Closed connections -/

/-- All connections for the address are closed, the map has one of them, and no call is about
to connect. -/
structure Dead (s : Proxy κ V) (a : String) : Prop where
  map : (s.map a).isSome = true
  closed : ∀ (k : ℕ) (x : Handler κ V), s.handlers[k]? = some x → x.address = a →
    x.closed = true ∧ x.client.channel = .idle
  absent : ∀ c, s.pc c ≠ .absent a
  connected : ∀ c k, s.pc c ≠ .connected a k

/-- No connection for the address has a response for the call. -/
def Unanswered (s : Proxy κ V) (a : String) (c : κ) : Prop :=
  ∀ (k : ℕ) (x : Handler κ V), s.handlers[k]? = some x → x.address = a → x.client.Unanswered c

omit [DecidableEq κ] in
/-- A closed channel reads nothing. -/
theorem not_arrive {k : ℕ} {x : Handler κ V} {e : Rpc.Event κ V} (h : s.allows k x e = true)
    (hx : x.closed = true) (r : MessageResponse V) : e ≠ .arrive r := by
  rintro rfl
  unfold allows at h
  rw [hx] at h
  cases h

theorem Dead.step {a : String} (h : Dead s a) (hs : Step messageId s s') :
    Dead s' a ∧ ∀ c, s.Unanswered a c → s'.Unanswered a c := by
  cases hs with
  | @goto c pc hc hnext =>
    refine ⟨⟨h.map, h.closed, fun d hd => ?_, fun d k hd => ?_⟩, fun _ => id⟩
    · refine h.absent d (pc_of_goto hd ?_)
      rintro rfl
      cases hnext with
      | absent hm =>
        have hmap := h.map
        rw [hm] at hmap
        cases hmap
    · refine h.connected d k (pc_of_goto hd ?_)
      rintro rfl
      cases hnext
  | @connect c b host port hc hp =>
    -- the call is about to connect to another address
    have hba : b ≠ a := fun hba => h.absent c (hba ▸ hc)
    have hnew : ∀ (k : ℕ) (x : Handler κ V),
        (s.handlers ++ [{ address := b, host, port }])[k]? = some x → x.address = a →
          s.handlers[k]? = some x := by
      intro k x hx ha
      rcases Nat.lt_or_ge k s.handlers.length with hk | hk
      · rwa [List.getElem?_append_left hk] at hx
      · rw [List.getElem?_append_right hk] at hx
        have hmem := List.mem_singleton.mp (List.mem_of_getElem? hx)
        rw [hmem] at ha
        exact absurd ha hba
    refine ⟨⟨h.map, fun k x hx ha => h.closed k x (hnew k x hx ha) ha, fun d hd => ?_,
      fun d k hd => ?_⟩, fun d hd k x hx ha => hd k x (hnew k x hx ha) ha⟩
    · exact h.absent d (pc_of_goto hd nofun)
    · refine h.connected d k (pc_of_goto hd fun hb => ?_)
      injection hb with hb
      exact hba hb
  | @put c b k hc =>
    have hba : b ≠ a := fun hba => h.connected c k (hba ▸ hc)
    refine ⟨⟨?_, h.closed, fun d hd => ?_, fun d j hd => ?_⟩, fun _ => id⟩
    · show (Function.update s.map b (some k) a).isSome = true
      rw [Function.update_of_ne (Ne.symm hba)]
      exact h.map
    · exact h.absent d (pc_of_goto hd nofun)
    · exact h.connected d j (pc_of_goto hd nofun)
  | @client k x e client hx hallows hc =>
    refine ⟨⟨h.map, fun j y hy ha => ?_, h.absent, h.connected⟩, fun d hd j y hy ha => ?_⟩
    · rw [get_set hx] at hy
      split at hy
      · cases hy
        obtain ⟨hclosed, hidle⟩ := h.closed k x hx ha
        exact ⟨hclosed, (Client.rest_step hc hidle (not_arrive hallows hclosed)).1⟩
      · exact h.closed j y hy ha
    · rw [get_set hx] at hy
      split at hy
      · cases hy
        obtain ⟨hclosed, hidle⟩ := h.closed k x hx ha
        exact (Client.rest_step hc hidle (not_arrive hallows hclosed)).2 d (hd k x hx ha)
      · exact hd j y hy ha
  | @close k x hx =>
    refine ⟨⟨h.map, fun j y hy ha => ?_, h.absent, h.connected⟩, fun d hd j y hy ha => ?_⟩
    · rw [get_set hx] at hy
      split at hy
      · cases hy
        exact ⟨rfl, (h.closed k x hx ha).2⟩
      · exact h.closed j y hy ha
    · rw [get_set hx] at hy
      split at hy
      · cases hy
        exact hd k x hx ha
      · exact hd j y hy ha

variable (messageId) in
/-- **A closed connection is never replaced.** Once the connections for an address are closed
and no call is about to connect to it, they stay the ones the map has; every call to the
address that begins later returns null or throws, in every run. -/
theorem never_again {a : String} {s₀ : Proxy κ V}
    (h₀ : Reach (step messageId) (fun _ _ => True) ({} : Proxy κ V) s₀) (hdead : Dead s₀ a)
    (h : Reach (step messageId) (fun _ _ => True) s₀ s) :
    Dead s a ∧ ∀ c, s₀.pc c = .idle → ∀ (k : ℕ) (x : Handler κ V), s.handlers[k]? = some x →
      x.address = a → ∀ ending r, x.client.pc c = .returned ending r →
        r = .value none ∨ r = .throws := by
  have hinv : Inv messageId s₀ :=
    h₀.invariant Inv.start fun _ _ _ hi _ hs => hi.step (step_cases hs)
  have hstart : ∀ c, s₀.pc c = .idle → s₀.Unanswered a c := by
    intro c hc k x hx _
    have hsound := hinv.handlers k x hx
    have hidle : x.client.pc c = .idle := by
      by_contra hne
      rw [hsound.obtained c hne] at hc
      cases hc
    refine ⟨?_, fun ending r hr => ?_⟩
    · rcases hr : x.client.response c with _ | r
      · rfl
      · exact absurd hidle (hsound.begun.stored c r hr)
    · rw [hidle] at hr
      cases hr
  have hrun : Dead s a ∧ ∀ c, s₀.Unanswered a c → s.Unanswered a c := by
    apply h.invariant (I := fun s => Dead s a ∧ ∀ c, s₀.Unanswered a c → s.Unanswered a c)
    · exact ⟨hdead, fun _ => id⟩
    · intro s e s' hi _ hs
      obtain ⟨hd, hu⟩ := hi
      obtain ⟨hd', hu'⟩ := hd.step (step_cases hs)
      exact ⟨hd', fun c hc => hu' c (hu c hc)⟩
  exact ⟨hrun.1, fun c hc k x hx ha => (hrun.2 c (hstart c hc) k x hx ha).2⟩

/-- A call is answered, and its connection is closed. -/
def answeredAndClosed : List (Event ℕ String) :=
  toHandler 0 "h:80" ++ [.connect 0 true, .put 0, .get 0, .client 0 .channelActive] ++
    (Client.callOf 0).map (.client 0) ++
    (Client.channelRead { messageId := "0", result := some "a" }).map (.client 0) ++
    (Client.returnOf 0).map (.client 0) ++ [.close 0]

/-- Another call, which finds the closed connection. -/
def afterwards : List (Event ℕ String) :=
  toHandler 1 "h:80" ++ [.get 1] ++ (Client.callOf 1).map (.client 0) ++
    [.client 0 (.act 1 .timeout)] ++ (Client.returnOf 1).map (.client 0)

def closed : Proxy ℕ String :=
  (runWith (step Client.ids) (fun _ _ => True) {} answeredAndClosed).get (by decide)

theorem dead_closed : Dead closed "h:80" where
  map := by decide
  closed k x hx _ := by
    rcases k with _ | k
    · cases hx
      exact ⟨rfl, rfl⟩
    · cases hx
  absent c hc := by
    rcases c with _ | c
    · cases hc
    · cases hc
  connected c k hc := by
    rcases c with _ | c
    · cases hc
    · cases hc

theorem never_again_closed :
    let s := (runWith (step Client.ids) (fun _ _ => True) closed afterwards).get (by decide)
    Dead s "h:80" ∧ ∀ c, closed.pc c = .idle → ∀ (k : ℕ) (x : Handler ℕ String),
      s.handlers[k]? = some x → x.address = "h:80" → ∀ ending r,
        x.client.pc c = .returned ending r → r = .value none ∨ r = .throws :=
  never_again Client.ids (reach_get answeredAndClosed (by decide)) dead_closed
    (reach_get afterwards (by decide))

end Proxy

end NettyProxy
end Rpc
end CloudManager
