/-
# Stateless tokens across the nodes of the gateway

`StatelessController.login` signs a token for a user and puts it into the cache the
nodes share; `StatelessAuthcFilter` admits a request whose token is in the cache and
was signed by the node's own `TokenManager`; `LogoutFilter` removes the token of its
request. A node's `TokenManager` makes its key when the node starts.

`admitted_iff`: in every run a node admits a token exactly if the node has issued it
to a user that exists, since it started, with no logout of it since, and within the
timeout of the cache. So no other node admits it, and a node that starts again
admits none of its old tokens. A token names its second only: logins of a user in
one second have one token between them, and a logout ends them all.

The signing library is a parameter (`Jwt`): what it signs with a key it parses with
that key, and with no other.
-/
import Mathlib.Data.List.Induction
import Mathlib.Data.List.Nodup
import Mathlib.Logic.Function.Basic
import CloudManager.Lib.JavaText

namespace CloudManager
namespace StatelessToken

/-! ### Tokens -/

structure Claims where
  id : String
  subject : String
  audience : String
  /-- In seconds, as the two dates below. -/
  issuedAt : ℕ
  expiration : Option ℕ
  notBefore : Option ℕ
  deriving DecidableEq, Repr

inductive Parsed
  | claims (c : Claims)
  | expired
  | failed
  deriving DecidableEq, Repr

/-- The library for tokens; `parse` is given the time in milliseconds. -/
structure Jwt (Key : Type*) where
  sign : Key → Claims → String
  parse : Key → ℕ → String → Parsed

structure Jwt.Lawful {Key : Type*} (jwt : Jwt Key) : Prop where
  parse_sign : ∀ k now c, c.expiration = none → c.notBefore = none →
    jwt.parse k now (jwt.sign k c) = .claims c
  parse_other : ∀ k k' now c, k ≠ k' → jwt.parse k now (jwt.sign k' c) = .failed
  not_blank : ∀ k c, JavaText.isBlank (jwt.sign k c).toList = false

structure TokenManager (Key : Type*) where
  jwtId : String
  SECRET_KEY : Key

inductive JwtTokenStatus
  | JWT_SUCCESS | JWT_ERRCODE_EXPIRE | JWT_ERRCODE_FAIL
  deriving DecidableEq, Repr

variable {Key N : Type*}

/-- `createJWT(audience, subject, nowMillis, ttlMillis)`. -/
def createJWT (jwt : Jwt Key) (m : TokenManager Key) (audience subject : String)
    (nowMillis : ℕ) (ttlMillis : ℤ) : String :=
  jwt.sign m.SECRET_KEY
    { id := m.jwtId, subject, audience, issuedAt := nowMillis / 1000
      expiration := if 0 ≤ ttlMillis then some ((nowMillis + ttlMillis.toNat) / 1000) else none
      notBefore := if 0 ≤ ttlMillis then some (nowMillis / 1000) else none }

def validateJWT (jwt : Jwt Key) (m : TokenManager Key) (now : ℕ) (jwtStr : String) :
    JwtTokenStatus :=
  match jwt.parse m.SECRET_KEY now jwtStr with
  | .claims _ => .JWT_SUCCESS
  | .expired => .JWT_ERRCODE_EXPIRE
  | .failed => .JWT_ERRCODE_FAIL

/-! ### The nodes and what they share -/

structure Config (Key : Type*) where
  jwt : Jwt Key
  /-- How long the cache keeps an entry, in milliseconds. -/
  timeout : Option ℕ
  /-- The map of the id and the certificate code, as JSON. -/
  writeValue : String → String → String

/-- An entry of the cache ends at a time, or never. -/
structure State (Key N : Type*) where
  now : ℕ := 0
  managers : N → Option (TokenManager Key) := fun _ => none
  xAuthTokenCache : String → Option (Option ℕ) := fun _ => none
  /-- The users `selectByPrimaryKey` finds. -/
  users : String → Bool := fun _ => false

inductive Event (Key N : Type*)
  /-- A node starts, with a manager of its own. -/
  | start (node : N) (manager : TokenManager Key)
  /-- A login that the realm has accepted or not. -/
  | login (node : N) (id certificateCode : String) (authenticated : Bool)
  | logout (node : N) (authorization : Option String)
  | tick (millis : ℕ)
  | users (users : String → Bool)

variable [DecidableEq N]

def isLive (now : ℕ) : Option (Option ℕ) → Bool
  | none => false
  | some none => true
  | some (some ends) => now ≤ ends

/-- The token a login gives. -/
def Config.token (p : Config Key) (m : TokenManager Key) (now : ℕ) (id certificateCode : String) :
    String :=
  createJWT p.jwt m id (p.writeValue id certificateCode) now (-1)

/-- `put` and `remove` of the cache. -/
def State.put (s : State Key N) (a : String) (e : Option (Option ℕ)) : State Key N :=
  { s with xAuthTokenCache := Function.update s.xAuthTokenCache a e }

def step (p : Config Key) (s : State Key N) : Event Key N → State Key N
  | .start node manager => { s with managers := Function.update s.managers node (some manager) }
  | .login node id certificateCode authenticated =>
    match s.managers node with
    | none => s
    | some m =>
      if authenticated then
        s.put (p.token m s.now id certificateCode) (some (p.timeout.map (s.now + ·)))
      else s
  | .logout _ authorization =>
    match authorization with
    | none => s
    | some a =>
      if JavaText.isBlank a.toList then s else s.put a none
  | .tick millis => { s with now := s.now + millis }
  | .users users => { s with users }

def run (p : Config Key) (events : List (Event Key N)) : State Key N := events.foldl (step p) {}

/-- `executeLogin`: the realm looks the user of the token up. -/
def executeLogin (p : Config Key) (s : State Key N) (m : TokenManager Key) (a : String) : Bool :=
  match p.jwt.parse m.SECRET_KEY s.now a with
  | .claims c => s.users c.audience
  | _ => false

/-- `StatelessAuthcFilter.isAccessAllowed`. -/
def isAccessAllowed (p : Config Key) (s : State Key N) (node : N) (isLoginRequest isPermissive : Bool)
    (authorization : Option String) : Bool :=
  if isLoginRequest || isPermissive then true
  else match authorization, s.managers node with
    | some a, some m =>
      if JavaText.isBlank a.toList || !isLive s.now (s.xAuthTokenCache a) ||
          validateJWT p.jwt m s.now a != .JWT_SUCCESS then false
      else executeLogin p s m a
    | _, _ => false

/-! ### What a run has issued -/

/-- How long a part of a run takes. -/
def elapsed : List (Event Key N) → ℕ
  | [] => 0
  | .tick millis :: events => millis + elapsed events
  | _ :: events => elapsed events

/-- A login of `user` on `node` between `pre` and `post` gave the token `a` within the
timeout, and no logout has removed it since. -/
def Held (p : Config Key) (later : ℕ) (a : String) (node : N) (user code : String)
    (pre post : List (Event Key N)) : Prop :=
  (∃ m, (run p pre).managers node = some m ∧ p.token m (run p pre).now user code = a) ∧
    (∀ n, .logout n (some a) ∉ post) ∧ ∀ t, p.timeout = some t → elapsed post + later ≤ t

/-- The node has issued the token to `user` since it started; the token is still held. -/
def Issued (p : Config Key) (events : List (Event Key N)) (node : N) (user a : String) : Prop :=
  ∃ code pre post, events = pre ++ .login node user code true :: post ∧
    Held p 0 a node user code pre post ∧ ∀ m, .start node m ∉ post

section
variable {p : Config Key} {events : List (Event Key N)} {e : Event Key N}

theorem run_concat : run p (events ++ [e]) = step p (run p events) e := by
  rw [run, List.foldl_concat, run]

/-- Where an event stands in a run with one event more. -/
theorem exists_concat {α : Type*} {l : List α} {x y : α} {P : List α → List α → Prop} :
    (∃ pre post, l ++ [y] = pre ++ x :: post ∧ P pre post) ↔
      (y = x ∧ P l []) ∨ ∃ pre post, l = pre ++ x :: post ∧ P pre (post ++ [y]) := by
  refine ⟨?_, ?_⟩
  · rintro ⟨pre, post, h, hp⟩
    rcases List.eq_nil_or_concat post with rfl | ⟨post', z, rfl⟩
    · obtain ⟨rfl, h₂⟩ := List.append_inj' h rfl
      exact .inl ⟨List.head_eq_of_cons_eq h₂, hp⟩
    · rw [List.concat_eq_append] at h hp
      rw [show pre ++ x :: (post' ++ [z]) = (pre ++ x :: post') ++ [z] by simp] at h
      obtain ⟨h₁, h₂⟩ := List.append_inj' h rfl
      rw [← List.head_eq_of_cons_eq h₂] at hp
      exact .inr ⟨pre, post', h₁, hp⟩
  · rintro (⟨rfl, hp⟩ | ⟨pre, post, rfl, hp⟩)
    · exact ⟨l, [], rfl, hp⟩
    · exact ⟨pre, post ++ [y], by simp, hp⟩

theorem managers_step (s : State Key N) {node : N} (h : ∀ m, e ≠ .start node m) :
    (step p s e).managers node = s.managers node := by
  match e with
  | .start n m =>
    have hn : node ≠ n := fun he => h m (by rw [he])
    exact Function.update_of_ne hn _ _
  | .login n id code authenticated =>
    show (match s.managers n with | none => s | some m => _).managers node = _
    rcases s.managers n with _ | m
    · rfl
    · cases authenticated <;> rfl
  | .logout n authorization =>
    rcases authorization with _ | a
    · rfl
    · show (if _ then s else s.put a none).managers node = _
      split <;> rfl
  | .tick _ => rfl
  | .users _ => rfl

/-- The manager of a node is that of its last start. -/
theorem managers_iff {node : N} {m : TokenManager Key} :
    (run p events).managers node = some m ↔
      ∃ pre post, events = pre ++ .start node m :: post ∧ ∀ m', .start node m' ∉ post := by
  induction events using List.reverseRecOn with
  | nil => simp [run]
  | append_singleton events e ih =>
    rw [run_concat, exists_concat]
    by_cases he : ∃ m', e = .start node m'
    · obtain ⟨m', rfl⟩ := he
      show Function.update (run p events).managers node (some m') node = some m ↔ _
      rw [Function.update_self]
      simp only [Option.some.injEq, Event.start.injEq, true_and, List.not_mem_nil,
        not_false_eq_true, implies_true, and_true, List.mem_append, List.mem_singleton]
      refine ⟨.inl, ?_⟩
      rintro (h | ⟨_, _, _, h⟩)
      · exact h
      · exact absurd (.inr rfl) (h m')
    · push Not at he
      rw [managers_step _ he, ih]
      simp only [he m, false_and, false_or, List.mem_append, List.mem_singleton, not_or]
      refine ⟨?_, ?_⟩
      · rintro ⟨pre, post, h, hs⟩
        exact ⟨pre, post, h, fun m' => ⟨hs m', (he m').symm⟩⟩
      · rintro ⟨pre, post, h, hs⟩
        exact ⟨pre, post, h, fun m' => (hs m').1⟩

omit [DecidableEq N] in
theorem elapsed_concat : elapsed (events ++ [e]) = elapsed events + elapsed [e] := by
  induction events with
  | nil => exact (Nat.zero_add _).symm
  | cons e' events ih =>
    match e' with
    | .tick millis =>
      show millis + elapsed (events ++ [e]) = millis + elapsed events + elapsed [e]
      rw [ih, Nat.add_assoc]
    | .start _ _ => exact ih
    | .login _ _ _ _ => exact ih
    | .logout _ _ => exact ih
    | .users _ => exact ih

theorem now_step (s : State Key N) : (step p s e).now = s.now + elapsed [e] := by
  match e with
  | .start _ _ => rfl
  | .login n id code authenticated =>
    show (match s.managers n with | none => s | some m => _).now = _
    rcases s.managers n with _ | m
    · rfl
    · cases authenticated <;> rfl
  | .logout n authorization =>
    rcases authorization with _ | a
    · rfl
    · show (if _ then s else s.put a none).now = s.now
      split <;> rfl
  | .tick _ => simp [step, elapsed]
  | .users _ => rfl

theorem held_concat {later : ℕ} {a : String} {node : N} {user code : String}
    {pre post : List (Event Key N)} :
    Held p later a node user code pre (post ++ [e]) ↔
      (∀ n, e ≠ .logout n (some a)) ∧ Held p (elapsed [e] + later) a node user code pre post := by
  unfold Held
  rw [elapsed_concat]
  simp only [List.mem_append, List.mem_singleton, not_or]
  refine ⟨?_, ?_⟩
  · rintro ⟨hm, hl, ht⟩
    exact ⟨fun n he => (hl n).2 he.symm, hm, fun n => (hl n).1, fun t h => by have := ht t h; omega⟩
  · rintro ⟨he, hm, hl, ht⟩
    exact ⟨hm, fun n => ⟨hl n, fun h => he n h.symm⟩, fun t h => by have := ht t h; omega⟩

/-- A login of the run gave the token, and it is held for `later` more. -/
def IsHeld (p : Config Key) (events : List (Event Key N)) (a : String) (later : ℕ) : Prop :=
  ∃ node user code pre post, events = pre ++ .login node user code true :: post ∧
    Held p later a node user code pre post

theorem isHeld_concat {a : String} {later : ℕ} :
    IsHeld p (events ++ [e]) a later ↔
      (∃ node user code, e = .login node user code true ∧ Held p later a node user code events []) ∨
        (∀ n, e ≠ .logout n (some a)) ∧ IsHeld p events a (elapsed [e] + later) := by
  unfold IsHeld
  simp only [exists_concat, held_concat]
  constructor
  · rintro ⟨node, user, code, ⟨he, hheld⟩ | ⟨pre, post, h, hl, hheld⟩⟩
    · exact .inl ⟨node, user, code, he, hheld⟩
    · exact .inr ⟨hl, node, user, code, pre, post, h, hheld⟩
  · rintro (⟨node, user, code, he, hheld⟩ | ⟨hl, node, user, code, pre, post, h, hheld⟩)
    · exact ⟨node, user, code, .inl ⟨he, hheld⟩⟩
    · exact ⟨node, user, code, .inr ⟨pre, post, h, hl, hheld⟩⟩

/-- An event that is neither a logout of the token nor a login that gives it. -/
theorem isHeld_of_quiet {a : String} {later : ℕ} (hl : ∀ n, e ≠ .logout n (some a))
    (hh : ∀ node user code, e = .login node user code true →
      ¬ Held p later a node user code events []) :
    IsHeld p (events ++ [e]) a later ↔ IsHeld p events a (elapsed [e] + later) := by
  rw [isHeld_concat]
  constructor
  · rintro (⟨node, user, code, he, hheld⟩ | ⟨-, hheld⟩)
    · exact absurd hheld (hh node user code he)
    · exact hheld
  · exact fun hheld => .inr ⟨hl, hheld⟩

theorem step_login {s : State Key N} {node : N} {m : TokenManager Key} (hm : s.managers node = some m)
    (id code : String) (authenticated : Bool) :
    step p s (.login node id code authenticated) = if authenticated then
      s.put (p.token m s.now id code) (some (p.timeout.map (s.now + ·))) else s := by
  show (match s.managers node with | none => s | some m => _) = _
  rw [hm]

/-- A node that has not started gives no token. -/
theorem step_login_of_none {s : State Key N} {node : N} (hm : s.managers node = none)
    (id code : String) (authenticated : Bool) :
    step p s (.login node id code authenticated) = s := by
  show (match s.managers node with | none => s | some m => _) = _
  rw [hm]

theorem step_logout_self {a : String} (ha : JavaText.isBlank a.toList = false) (s : State Key N)
    (node : N) : (step p s (.logout node (some a))).xAuthTokenCache a = none := by
  show (if JavaText.isBlank a.toList then s else s.put a none).xAuthTokenCache a = none
  rw [if_neg (by rw [ha]; simp)]
  exact Function.update_self ..

theorem step_logout_of_ne {a : String} {authorization : Option String} (h : authorization ≠ some a)
    (s : State Key N) (node : N) :
    (step p s (.logout node authorization)).xAuthTokenCache a = s.xAuthTokenCache a := by
  rcases authorization with _ | b
  · rfl
  · show (if JavaText.isBlank b.toList then s else s.put b none).xAuthTokenCache a = _
    split
    · rfl
    · exact Function.update_of_ne (fun he => h (by rw [he])) _ _

/-- An entry just put lasts for the timeout. -/
theorem isLive_put (timeout : Option ℕ) (now later : ℕ) :
    isLive (now + later) (some (timeout.map (now + ·))) = true ↔
      ∀ t, timeout = some t → later ≤ t := by
  rcases timeout with _ | t
  · simp [isLive]
  · simp [isLive]

/-- What is in the cache is what a login has put there. -/
theorem isLive_iff {a : String} (ha : JavaText.isBlank a.toList = false) (later : ℕ) :
    isLive ((run p events).now + later) ((run p events).xAuthTokenCache a) = true ↔
      IsHeld p events a later := by
  induction events using List.reverseRecOn generalizing later with
  | nil => simp [run, isLive, IsHeld]
  | append_singleton events e ih =>
    rw [run_concat, now_step, Nat.add_assoc]
    -- a step that leaves the entry of the token alone
    have hquiet : (step p (run p events) e).xAuthTokenCache a = (run p events).xAuthTokenCache a →
        (∀ n, e ≠ .logout n (some a)) →
        (∀ node user code, e = .login node user code true →
          ¬ Held p later a node user code events []) →
        (isLive ((run p events).now + (elapsed [e] + later))
          ((step p (run p events) e).xAuthTokenCache a) = true ↔ IsHeld p (events ++ [e]) a later) :=
      fun hc hl hh => by rw [hc, ih, isHeld_of_quiet hl hh]
    match e with
    | .start n m => exact hquiet rfl (by simp) (by simp)
    | .tick d => exact hquiet rfl (by simp) (by simp)
    | .users u => exact hquiet rfl (by simp) (by simp)
    | .logout n authorization =>
      by_cases hb : authorization = some a
      · subst hb
        rw [step_logout_self ha, isHeld_concat]
        refine ⟨nofun, ?_⟩
        rintro (⟨node, user, code, he, -⟩ | ⟨hl, -⟩)
        · cases he
        · exact absurd rfl (hl n)
      · exact hquiet (step_logout_of_ne hb _ _) (fun n' he => hb (by cases he; rfl)) (by simp)
    | .login n id code authenticated =>
      rcases hm : (run p events).managers n with _ | m
      · refine hquiet (by rw [step_login_of_none hm]) (by simp) fun node user code' he => ?_
        cases he
        rintro ⟨⟨m, hm', -⟩, -⟩
        rw [hm] at hm'
        cases hm'
      rw [step_login hm] at hquiet ⊢
      by_cases hput : authenticated = true ∧ p.token m (run p events).now id code = a
      · obtain ⟨rfl, htoken⟩ := hput
        have hentry : ((run p events).put (p.token m (run p events).now id code)
            (some (p.timeout.map ((run p events).now + ·)))).xAuthTokenCache a =
            some (p.timeout.map ((run p events).now + ·)) := by
          rw [htoken]
          exact Function.update_self ..
        have hzero : elapsed [(.login n id code true : Event Key N)] + later = later := Nat.zero_add _
        rw [if_pos rfl, hentry, hzero, isLive_put, isHeld_concat, hzero]
        refine ⟨fun ht => .inl ⟨n, id, code, rfl, ⟨m, hm, htoken⟩, by simp, fun t h => ?_⟩, ?_⟩
        · rw [elapsed, Nat.zero_add]
          exact ht t h
        · rintro (⟨node, user, code', -, -, -, ht⟩ | ⟨-, node, user, code', pre, post, -, -, -, ht⟩) t h
          · exact (Nat.le_add_left _ _).trans (ht t h)
          · exact (Nat.le_add_left _ _).trans (ht t h)
      · refine hquiet ?_ (by simp) fun node user code' he => ?_
        · split
          · rename_i hauth
            exact Function.update_of_ne (fun he => hput ⟨hauth, he.symm⟩) _ _
          · rfl
        · cases he
          rintro ⟨⟨m', hm', htoken⟩, -⟩
          rw [hm] at hm'
          cases hm'
          exact hput ⟨rfl, htoken⟩

/-! ### Keys of their own -/

def startKey : Event Key N → Option Key
  | .start _ m => some m.SECRET_KEY
  | _ => none

omit [DecidableEq N] in
/-- Where no key comes twice, two starts with one key are the same. -/
theorem start_unique (hkeys : (events.filterMap startKey).Nodup) {a a' b b' : List (Event Key N)}
    {x y : Event Key N} {k : Key} (h : events = a ++ x :: b) (h' : events = a' ++ y :: b')
    (hx : startKey x = some k) (hy : startKey y = some k) : a = a' ∧ x = y ∧ b = b' := by
  have htwice : ∀ l c r : List (Event Key N), ∀ u v : Event Key N, events = l ++ u :: c ++ v :: r →
      startKey u = some k → startKey v = some k → False := by
    intro l c r u v he hu hv
    rw [he, List.filterMap_append, List.nodup_append] at hkeys
    exact hkeys.2.2 k (List.mem_filterMap.mpr ⟨u, by simp, hu⟩) k
      (List.mem_filterMap.mpr ⟨v, by simp, hv⟩) rfl
  rcases List.append_eq_append_iff.mp (h.symm.trans h') with ⟨c, hc, hd⟩ | ⟨c, hc, hd⟩
  · rcases c with _ | ⟨z, c⟩
    · rw [List.nil_append] at hd
      cases hd
      exact ⟨by rw [hc, List.append_nil], rfl, rfl⟩
    · cases hd
      exact (htwice a c b' x y (by rw [h', hc]) hx hy).elim
  · rcases c with _ | ⟨z, c⟩
    · rw [List.nil_append] at hd
      cases hd
      exact ⟨by rw [hc, List.append_nil], rfl, rfl⟩
    · cases hd
      exact (htwice a' c b y x (by rw [h, hc]) hy hx).elim

omit [DecidableEq N] in
/-- All that the filter asks of a token. -/
theorem isAccessAllowed_eq_true {s : State Key N} {node : N} {a : String} :
    isAccessAllowed p s node false false (some a) = true ↔ ∃ m, s.managers node = some m ∧
      JavaText.isBlank a.toList = false ∧ isLive s.now (s.xAuthTokenCache a) = true ∧
        ∃ c : Claims, p.jwt.parse m.SECRET_KEY s.now a = .claims c ∧ s.users c.audience = true := by
  unfold isAccessAllowed validateJWT executeLogin
  rw [if_neg (by simp)]
  rcases s.managers node with _ | m
  · exact ⟨nofun, nofun⟩
  simp only [Option.some.injEq, exists_eq_left']
  cases JavaText.isBlank a.toList <;> cases isLive s.now (s.xAuthTokenCache a) <;>
    cases p.jwt.parse m.SECRET_KEY s.now a <;> simp

/-- The manager of a node that does not start again. -/
theorem managers_append {node : N} {m : TokenManager Key} {pre post : List (Event Key N)}
    (hm : (run p pre).managers node = some m) (hno : ∀ m', .start node m' ∉ post) :
    (run p (pre ++ post)).managers node = some m := by
  obtain ⟨s, r, rfl, hr⟩ := managers_iff.mp hm
  refine managers_iff.mpr ⟨s, r ++ post, by rw [List.append_assoc, List.cons_append], fun m' hmem => ?_⟩
  rcases List.mem_append.mp hmem with hmem | hmem
  · exact hr m' hmem
  · exact hno m' hmem

/-- Where no key comes twice, managers with one key are of one node, which has not started
since. -/
theorem same_manager (hkeys : (events.filterMap startKey).Nodup) {node node' : N}
    {m m' : TokenManager Key} {pre post : List (Event Key N)} (hev : events = pre ++ post)
    (hm' : (run p pre).managers node' = some m') (hm : (run p events).managers node = some m)
    (hk : m.SECRET_KEY = m'.SECRET_KEY) :
    node = node' ∧ m = m' ∧ ∀ m'', .start node m'' ∉ post := by
  obtain ⟨s₁, r₁, h₁, hno⟩ := managers_iff.mp hm
  obtain ⟨s₂, r₂, h₂, -⟩ := managers_iff.mp hm'
  have hev' : events = s₂ ++ .start node' m' :: (r₂ ++ post) := by
    rw [hev, h₂, List.append_assoc, List.cons_append]
  obtain ⟨-, hs, hr⟩ := start_unique hkeys h₁ hev' (k := m.SECRET_KEY) rfl (congrArg some hk.symm)
  cases hs
  exact ⟨rfl, rfl, fun m'' hmem => hno m'' (hr ▸ List.mem_append_right _ hmem)⟩

/-- What a node admits, where each start has a key of its own. -/
theorem isAccessAllowed_iff (hjwt : p.jwt.Lawful) (hkeys : (events.filterMap startKey).Nodup) (node : N)
    (a : String) :
    isAccessAllowed p (run p events) node false false (some a) = true ↔
      ∃ user, (run p events).users user = true ∧ Issued p events node user a := by
  have hlive : ∀ ha : JavaText.isBlank a.toList = false,
      isLive (run p events).now ((run p events).xAuthTokenCache a) = true ↔ IsHeld p events a 0 :=
    fun ha => isLive_iff ha 0
  rw [isAccessAllowed_eq_true]
  constructor
  · rintro ⟨m, hm, hblank, hentry, c, hc, huser⟩
    obtain ⟨node', user, code, pre, post, hev, hheld⟩ := (hlive hblank).mp hentry
    obtain ⟨m', hm', rfl⟩ := hheld.1
    -- a token is parsed with the key it was signed with, and with no other
    have hk : m.SECRET_KEY = m'.SECRET_KEY := by
      by_contra hne
      exact nomatch (hjwt.parse_other _ _ (run p events).now _ hne).symm.trans hc
    obtain ⟨rfl, rfl, hno⟩ := same_manager hkeys hev hm' hm hk
    obtain rfl := Parsed.claims.inj
      ((hjwt.parse_sign m.SECRET_KEY (run p events).now _ rfl rfl).symm.trans hc)
    exact ⟨user, huser, code, pre, post, hev, hheld,
      fun m'' hmem => hno m'' (List.mem_cons_of_mem _ hmem)⟩
  · rintro ⟨user, huser, code, pre, post, hev, hheld, hno⟩
    have hblank : JavaText.isBlank a.toList = false := by
      obtain ⟨m, -, rfl⟩ := hheld.1
      exact hjwt.not_blank _ _
    have hentry := (hlive hblank).mpr ⟨node, user, code, pre, post, hev, hheld⟩
    obtain ⟨m, hm, rfl⟩ := hheld.1
    refine ⟨m, ?_, hblank, hentry, _, hjwt.parse_sign _ _ _ rfl rfl, huser⟩
    rw [hev]
    exact managers_append hm fun m' hmem => hno m' ((List.mem_cons.mp hmem).resolve_left nofun)

/-- **A node admits the tokens it has issued itself**: since it started, to a user that exists,
without a logout since and within the timeout. -/
theorem admitted_iff (hjwt : p.jwt.Lawful) (hkeys : (events.filterMap startKey).Nodup) (node : N)
    (a : String) :
    isAccessAllowed p (run p events) node false false (some a) = true ↔
      ∃ user, (run p events).users user = true ∧ Issued p events node user a :=
  isAccessAllowed_iff hjwt hkeys node a

end

/-! ### Tokens in plain text -/

def packText (s : List Char) : List Char := s.flatMap (fun c => ['a', c]) ++ ['z']

def unpackText : List Char → List Char × List Char
  | 'a' :: c :: r => (c :: (unpackText r).1, (unpackText r).2)
  | _ :: r => ([], r)
  | [] => ([], [])

theorem unpackText_pack (r : List Char) : ∀ s, unpackText (packText s ++ r) = (s, r)
  | [] => rfl
  | c :: s => by
    show (c :: (unpackText (packText s ++ r)).1, (unpackText (packText s ++ r)).2) = _
    rw [unpackText_pack r s]

/-- A library that writes the key, as `key` has it, and the claims one after another. -/
def plain (key : Key → List Char) : Jwt Key where
  sign k c := String.ofList ('J' :: (packText (key k) ++ (packText c.id.toList ++
    (packText c.subject.toList ++ (packText c.audience.toList ++
      packText (List.replicate c.issuedAt 'x'))))))
  parse k _ t :=
    match t.toList with
    | 'J' :: r =>
      let k' := unpackText r
      let id := unpackText k'.2
      let subject := unpackText id.2
      let audience := unpackText subject.2
      let issuedAt := unpackText audience.2
      if k'.1 = key k then .claims ⟨String.ofList id.1, String.ofList subject.1,
        String.ofList audience.1, issuedAt.1.length, none, none⟩ else .failed
    | _ => .failed

theorem plain_lawful {key : Key → List Char} (hkey : Function.Injective key) :
    (plain key).Lawful where
  parse_sign k now c he hn := by
    obtain ⟨id, subject, audience, issuedAt, expiration, notBefore⟩ := c
    have h := unpackText_pack [] (List.replicate issuedAt 'x')
    rw [List.append_nil] at h
    simp only at he hn
    subst he hn
    simp [plain, unpackText_pack, h]
  parse_other k k' now c hk := by
    have hne : key k' ≠ key k := fun h => hk (hkey h).symm
    simp [plain, unpackText_pack, hne]
  not_blank k c := by
    simp only [plain, String.toList_ofList]
    rfl

def unary (k : ℕ) : List Char := List.replicate k 'x'

theorem unary_injective : Function.Injective unary := fun k k' h => by
  have hlen := congrArg List.length h
  unfold unary at hlen
  rwa [List.length_replicate, List.length_replicate] at hlen

/-- A user that logs in and comes back half a second later. -/
theorem admitted_plain :
    let p : Config ℕ := ⟨plain unary, some 1000, fun id _ => id⟩
    let events : List (Event ℕ ℕ) :=
      [.start 0 ⟨"n", 7⟩, .users fun _ => true, .login 0 "u" "c" true, .tick 500]
    let a := (plain unary).sign 7 ⟨"n", "u", "u", 0, none, none⟩
    isAccessAllowed p (run p events) 0 false false (some a) = true ↔
      ∃ user, (run p events).users user = true ∧ Issued p events 0 user a :=
  admitted_iff (plain_lawful unary_injective) (by decide) 0 _

end StatelessToken
end CloudManager
