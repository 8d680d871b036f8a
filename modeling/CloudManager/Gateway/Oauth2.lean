/-
# The gateway's OAuth2 authorisation codes

`Oauth2Controller` keeps, for each registered client, its secret, the code of the
last login and the last access token. `login` puts a new code in the place of the
last one, whosever that was, and `token` leaves the code it has exchanged where it
is. `exchanges_of_considerate` says what is left of the life of a code, and that it
fails at the first request that overwrites or repeats one.
-/
import Mathlib.Logic.Function.Basic
import CloudManager.Lib.Runs

namespace CloudManager
namespace Gateway

open Runs

/-! ### The requests -/

/-- What `objectMap` has of a registered client. -/
structure ClientData where
  secret : String
  code : Option String := none
  token : Option String := none
  deriving DecidableEq

/-- How `shiroService.login` ends. -/
inductive ShiroLogin
  | throws
  | refused
  | authenticated (principal : String)

structure OAuthAuthzRequest where
  clientId : String
  responseType : String
  redirectURI : Option String := none

/-- A request of `login`: its session, what the login comes to where the session has
none, its OAuth parameters (`none`: they are not valid) and the code that is
generated for it. -/
structure LoginRequest (S : Type*) where
  session : S
  shiroLogin : ShiroLogin
  oauthRequest : Option OAuthAuthzRequest
  authorizationCode : String

structure OAuthTokenRequest where
  clientId : String
  clientSecret : Option String
  code : Option String
  grantType : String

inductive LoginReply
  | throws
  | error
  | redirect (location : String)

inductive TokenReply
  | throws
  | badRequest (description : String)
  | ok (accessToken expiresIn userId : String)

namespace Oauth2Controller

/-- The map from a client's id to what is kept of it. -/
abbrev ObjectMap := String → Option ClientData

def put (objectMap : ObjectMap) (clientId : String) (d : ClientData) : ObjectMap :=
  Function.update objectMap clientId (some d)

@[simp] theorem put_apply (objectMap : ObjectMap) (clientId k : String) (d : ClientData) :
    put objectMap clientId d k = if k = clientId then some d else objectMap k := by
  simp [put, Function.update_apply]

/-- The end of `login`: the location of the redirect, which may not be built. -/
def respond (locate : Option String → Option String → Option String)
    (redirectURI code : Option String) : LoginReply :=
  match locate redirectURI code with
  | some location => .redirect location
  | none => .throws

/-- `login` of a session's principal, with the principal afterwards. `locate` makes the
location of a redirect address and a code. -/
def login {S : Type*} (locate : Option String → Option String → Option String)
    (objectMap : ObjectMap) (principal : Option String) (x : LoginRequest S) :
    LoginReply × Option String × ObjectMap :=
  match principal.elim x.shiroLogin .authenticated with
  | .throws => (.throws, none, objectMap)
  | .refused => (.error, none, objectMap)
  | .authenticated username =>
    match x.oauthRequest with
    | none => (.throws, some username, objectMap)
    | some r =>
      if r.responseType = "code" then
        match objectMap r.clientId with
        | none => (.throws, some username, objectMap)
        | some d =>
          (respond locate r.redirectURI (some x.authorizationCode), some username,
            put objectMap r.clientId { d with code := some x.authorizationCode })
      else (respond locate r.redirectURI none, some username, objectMap)

/-- `none` where the client is not registered: the map's null throws. -/
def checkClient (objectMap : ObjectMap) (clientId : String) (clientKey : Option String) :
    Option Bool :=
  (objectMap clientId).map fun d => some d.secret == clientKey

/-- `token`, with the access token that is generated for it. -/
def token (objectMap : ObjectMap) (oAuthTokenRequest : Option OAuthTokenRequest)
    (accessToken : String) : TokenReply × ObjectMap :=
  match oAuthTokenRequest with
  | none => (.throws, objectMap)
  | some x =>
    match checkClient objectMap x.clientId x.clientSecret, objectMap x.clientId with
    | some true, some d =>
      if x.grantType = "authorization_code" then
        match x.code with
        | none => (.throws, objectMap)
        | some authcode =>
          if some authcode = d.code then
            (.ok accessToken "3600" "1111111111111",
              put objectMap x.clientId { d with token := some accessToken })
          else (.badRequest "校验失败", objectMap)
      else (.badRequest "校验失败", objectMap)
    | some false, _ => (.badRequest "密码错误", objectMap)
    | _, _ => (.throws, objectMap)

end Oauth2Controller

open Oauth2Controller

/-! ### Runs of the controller -/

/-- A code, the client it was issued to and the user who had logged in. -/
structure Issue where
  clientId : String
  code : String
  user : String
  deriving DecidableEq

/-- The exchange of a code for an access token. -/
structure Exchange where
  clientId : String
  code : String
  deriving DecidableEq

/-- The controller, the principals of the sessions, the codes issued and the codes
exchanged. -/
structure Server (S : Type*) where
  objectMap : ObjectMap
  principal : S → Option String := fun _ => none
  issued : List Issue := []
  exchanged : List Exchange := []

namespace Server

/-- The clients are registered with their secrets. -/
def start {S : Type*} (secret : String → Option String) : Server S where
  objectMap k := (secret k).map fun secret => { secret := secret }

inductive Event (S : Type*)
  | login (x : LoginRequest S)
  | token (x : Option OAuthTokenRequest) (accessToken : String)

variable {S : Type*}

/-- The user of a login request, if it is let in. -/
def user (s : Server S) (x : LoginRequest S) : Option String :=
  match (s.principal x.session).elim x.shiroLogin .authenticated with
  | .authenticated username => some username
  | _ => none

/-- The code that a login request is issued, for the client of its parameters. -/
def issue (s : Server S) (x : LoginRequest S) : Option Issue :=
  match s.user x, x.oauthRequest with
  | some username, some r =>
    if r.responseType = "code" ∧ (s.objectMap r.clientId).isSome then
      some ⟨r.clientId, x.authorizationCode, username⟩
    else none
  | _, _ => none

/-- The exchange that a token request made if it got this reply. -/
def exchange (x : Option OAuthTokenRequest) : TokenReply → Option Exchange
  | .ok _ _ _ => x.bind fun r => r.code.map fun code => ⟨r.clientId, code⟩
  | _ => none

variable [DecidableEq S] (locate : Option String → Option String → Option String)

/-- A request, one at a time. No code is generated twice. -/
def step (s : Server S) : Event S → Option (Server S)
  | .login x =>
    let (_, principal, objectMap) := Oauth2Controller.login locate s.objectMap (s.principal x.session) x
    if x.authorizationCode ∈ s.issued.map (·.code) then none
    else some { s with
      objectMap := objectMap
      principal := Function.update s.principal x.session principal
      issued := (s.issue x).toList ++ s.issued }
  | .token x accessToken =>
    let (reply, objectMap) := Oauth2Controller.token s.objectMap x accessToken
    some { s with
      objectMap := objectMap
      exchanged := (exchange x reply).toList ++ s.exchanged }

/-! ### What the requests do -/

variable {s s' : Server S} {locate}

/-- The client's secret comes with the code that is kept of it. -/
def Accepts (objectMap : ObjectMap) (r : OAuthTokenRequest) (d : ClientData) (code : String) :
    Prop :=
  objectMap r.clientId = some d ∧ r.clientSecret = some d.secret ∧
    r.grantType = "authorization_code" ∧ r.code = some code ∧ d.code = some code

omit [DecidableEq S] in
/-- A token is given for an accepted code; nothing else changes the map. -/
theorem token_cases (objectMap : ObjectMap) (x : Option OAuthTokenRequest) (accessToken : String) :
    (∃ r d code, x = some r ∧ Accepts objectMap r d code ∧
        Oauth2Controller.token objectMap x accessToken =
          (.ok accessToken "3600" "1111111111111",
            put objectMap r.clientId { d with token := some accessToken })) ∨
      (∀ r d code, x = some r → ¬ Accepts objectMap r d code) ∧
        ∃ reply, Oauth2Controller.token objectMap x accessToken = (reply, objectMap) ∧
          exchange x reply = none := by
  rcases x with _ | r
  · exact .inr ⟨nofun, _, rfl, rfl⟩
  rcases hd : objectMap r.clientId with _ | d
  · refine .inr ⟨?_, .throws, by simp [Oauth2Controller.token, checkClient, hd], rfl⟩
    rintro _ d code ⟨⟩ ⟨h, -⟩
    rw [hd] at h
    cases h
  by_cases hs : r.clientSecret = some d.secret
  · have hc : checkClient objectMap r.clientId r.clientSecret = some true := by
      simp [checkClient, hd, hs]
    by_cases hg : r.grantType = "authorization_code"
    · rcases hk : r.code with _ | code
      · refine .inr ⟨?_, .throws, by simp [Oauth2Controller.token, hc, hd, hg, hk], rfl⟩
        rintro _ d code ⟨⟩ ⟨-, -, -, h, -⟩
        rw [hk] at h
        cases h
      · by_cases he : d.code = some code
        · refine .inl ⟨r, d, code, rfl, ⟨hd, hs, hg, hk, he⟩, ?_⟩
          simp [Oauth2Controller.token, hc, hd, hg, hk, he]
        · refine .inr ⟨?_, .badRequest "校验失败", ?_, rfl⟩
          · rintro _ d' code' ⟨⟩ ⟨h, -, -, h', h''⟩
            rw [hd] at h
            rw [hk] at h'
            cases h
            cases h'
            exact he h''
          · simp [Oauth2Controller.token, hc, hd, hg, hk, Ne.symm he]
    · refine .inr ⟨?_, .badRequest "校验失败", by simp [Oauth2Controller.token, hc, hd, hg], rfl⟩
      rintro _ d code ⟨⟩ ⟨-, -, h, -⟩
      exact hg h
  · have hc : checkClient objectMap r.clientId r.clientSecret = some false := by
      simp [checkClient, hd, Ne.symm hs]
    refine .inr ⟨?_, .badRequest "密码错误", by simp [Oauth2Controller.token, hc, hd], rfl⟩
    rintro _ d' code ⟨⟩ ⟨h, h', -⟩
    rw [hd] at h
    cases h
    exact hs h'

omit [DecidableEq S] in
/-- The map changes where a code is issued. -/
theorem login_objectMap (locate : Option String → Option String → Option String) (s : Server S)
    (x : LoginRequest S) :
    s.issue x = none ∧
        (Oauth2Controller.login locate s.objectMap (s.principal x.session) x).2.2 = s.objectMap ∨
      ∃ i d, s.issue x = some i ∧ i.code = x.authorizationCode ∧ s.user x = some i.user ∧
        s.objectMap i.clientId = some d ∧
        (Oauth2Controller.login locate s.objectMap (s.principal x.session) x).2.2 =
          put s.objectMap i.clientId { d with code := some i.code } := by
  unfold Oauth2Controller.login issue user
  cases hu : (s.principal x.session).elim x.shiroLogin .authenticated with
  | throws => exact .inl ⟨rfl, rfl⟩
  | refused => exact .inl ⟨rfl, rfl⟩
  | authenticated username =>
    rcases hr : x.oauthRequest with _ | r
    · exact .inl ⟨rfl, rfl⟩
    · by_cases hc : r.responseType = "code"
      · rcases hd : s.objectMap r.clientId with _ | d
        · exact .inl (by simp [hc, hd])
        · exact .inr ⟨⟨r.clientId, x.authorizationCode, username⟩, d, by simp [hc, hd]⟩
      · exact .inl (by simp [hc])

theorem step_login {x : LoginRequest S} (h : step locate s (.login x) = some s') :
    x.authorizationCode ∉ s.issued.map (·.code) ∧ s'.exchanged = s.exchanged ∧
      (s.issue x = none ∧ s'.issued = s.issued ∧ s'.objectMap = s.objectMap ∨
        ∃ i d, s.issue x = some i ∧ i.code = x.authorizationCode ∧ s.user x = some i.user ∧
          s.objectMap i.clientId = some d ∧ s'.issued = i :: s.issued ∧
          s'.objectMap = put s.objectMap i.clientId { d with code := some i.code }) := by
  simp only [step] at h
  split at h
  · cases h
  · rename_i hf
    cases h
    refine ⟨hf, rfl, ?_⟩
    obtain ⟨hi, hm⟩ | ⟨i, d, hi, hc, hu, hd, hm⟩ := login_objectMap locate s x
    · exact .inl ⟨hi, by simp [hi], hm⟩
    · exact .inr ⟨i, d, hi, hc, hu, hd, by simp [hi], hm⟩

theorem step_token {x : Option OAuthTokenRequest} {accessToken : String}
    (h : step locate s (.token x accessToken) = some s') :
    s'.issued = s.issued ∧
      ((∀ r d code, x = some r → ¬ Accepts s.objectMap r d code) ∧
          s'.exchanged = s.exchanged ∧ s'.objectMap = s.objectMap ∨
        ∃ r d code, x = some r ∧ Accepts s.objectMap r d code ∧
          s'.exchanged = ⟨r.clientId, code⟩ :: s.exchanged ∧
          s'.objectMap = put s.objectMap r.clientId { d with token := some accessToken }) := by
  simp only [step, Option.some.injEq] at h
  subst h
  refine ⟨rfl, ?_⟩
  obtain ⟨r, d, code, rfl, ha, ht⟩ | ⟨ha, reply, ht, he⟩ := token_cases s.objectMap x accessToken
  · refine .inr ⟨r, d, code, rfl, ha, ?_, by simp [ht]⟩
    simp [ht, exchange, ha.2.2.2.1]
  · exact .inl ⟨ha, by simp [ht, he], by simp [ht]⟩

/-! ### The life of a code -/

/-- Some request of the client gets a token for the code. -/
def Usable (s : Server S) (i : Issue) : Prop :=
  ∃ r accessToken, r.clientId = i.clientId ∧ r.code = some i.code ∧
    ∃ token expiresIn userId, (Oauth2Controller.token s.objectMap (some r) accessToken).1 =
      .ok token expiresIn userId

/-- Tokens are given for codes that were issued to the client. -/
def ExchangesIssued (s : Server S) : Prop :=
  ∀ x ∈ s.exchanged, ∃ user, ⟨x.clientId, x.code, user⟩ ∈ s.issued

def ExchangesOnce (s : Server S) : Prop := (s.exchanged.map (·.code)).Nodup

/-- A login leaves the codes of other users usable that are not exchanged yet. -/
def KeepsOthers (s : Server S) : Event S → Server S → Prop
  | .login x, s' => ∀ i ∈ s.issued, s.user x ≠ some i.user →
      ⟨i.clientId, i.code⟩ ∉ s.exchanged → s.Usable i → s'.Usable i
  | .token _ _, _ => True

/-- A login that is issued a code finds none of another user that is not exchanged yet,
and an accepted code was not exchanged before. -/
def Considerate (s : Server S) : Event S → Prop
  | .login x => ∀ i ∈ s.issue x, ∀ d ∈ s.objectMap i.clientId, ∀ code ∈ d.code,
      ⟨i.clientId, code⟩ ∈ s.exchanged ∨ ⟨i.clientId, code, i.user⟩ ∈ s.issued
  | .token x _ => ∀ r ∈ x, ∀ d ∈ s.objectMap r.clientId, ∀ code ∈ d.code,
      Accepts s.objectMap r d code → ⟨r.clientId, code⟩ ∉ s.exchanged

omit [DecidableEq S] in
/-- The code that is kept is usable, and no other. -/
theorem usable_iff {i : Issue} :
    s.Usable i ↔ ∃ d, s.objectMap i.clientId = some d ∧ d.code = some i.code := by
  constructor
  · rintro ⟨r, accessToken, hc, hk, token, expiresIn, userId, ht⟩
    obtain ⟨_, d, code, ⟨⟩, ⟨hd, -, -, hr, he⟩, -⟩ | ⟨-, reply, hreply, hx⟩ :=
      token_cases s.objectMap (some r) accessToken
    · rw [hk] at hr
      cases hr
      exact ⟨d, hc ▸ hd, he⟩
    · rw [hreply] at ht
      subst ht
      simp [exchange, hk] at hx
  · rintro ⟨d, hd, hk⟩
    refine ⟨⟨i.clientId, some d.secret, some i.code, "authorization_code"⟩, "", rfl, rfl, "",
      "3600", "1111111111111", ?_⟩
    simp [Oauth2Controller.token, checkClient, hd, hk]

instance (s : Server S) (i : Issue) : Decidable (s.Usable i) :=
  decidable_of_iff ((s.objectMap i.clientId).bind (·.code) = some i.code)
    (by rw [usable_iff, Option.bind_eq_some_iff])

instance (objectMap : ObjectMap) (r : OAuthTokenRequest) (d : ClientData) (code : String) :
    Decidable (Accepts objectMap r d code) :=
  inferInstanceAs (Decidable (_ ∧ _ ∧ _ ∧ _ ∧ _))

instance (s : Server S) : ∀ (e : Event S) (s' : Server S), Decidable (s.KeepsOthers e s')
  | .login x, s' => inferInstanceAs (Decidable (∀ i ∈ s.issued, s.user x ≠ some i.user →
      ⟨i.clientId, i.code⟩ ∉ s.exchanged → s.Usable i → s'.Usable i))
  | .token _ _, _ => isTrue trivial

instance (s : Server S) : ∀ e : Event S, Decidable (s.Considerate e)
  | .login x => inferInstanceAs (Decidable (∀ i ∈ s.issue x, ∀ d ∈ s.objectMap i.clientId,
      ∀ code ∈ d.code, (⟨i.clientId, code⟩ : Exchange) ∈ s.exchanged ∨
        (⟨i.clientId, code, i.user⟩ : Issue) ∈ s.issued))
  | .token x _ => inferInstanceAs (Decidable (∀ r ∈ x, ∀ d ∈ s.objectMap r.clientId,
      ∀ code ∈ d.code, Accepts s.objectMap r d code → ⟨r.clientId, code⟩ ∉ s.exchanged))

/-- Where the kept code comes from, and the exchanges so far. -/
structure CodeInv (s : Server S) : Prop where
  kept : ∀ k d code, s.objectMap k = some d → d.code = some code →
    ∃ user, ⟨k, code, user⟩ ∈ s.issued
  distinct : ∀ i ∈ s.issued, ∀ j ∈ s.issued, i.code = j.code → i = j
  exchanged : s.ExchangesIssued
  once : s.ExchangesOnce

omit [DecidableEq S] in
theorem CodeInv.start (secret : String → Option String) : (start secret : Server S).CodeInv where
  kept k d code hd hk := by
    obtain ⟨secret, -, rfl⟩ := Option.map_eq_some_iff.mp hd
    cases hk
  distinct _ hi := by cases hi
  exchanged _ hx := by cases hx
  once := List.nodup_nil

/-- What a login that is issued a code finds, if it keeps the others' codes. -/
theorem CodeInv.login (h : s.CodeInv) {x : LoginRequest S}
    (he : step locate s (.login x) = some s') :
    s'.ExchangesOnce ∧ (s.KeepsOthers (.login x) s' ↔ s.Considerate (.login x)) := by
  obtain ⟨hf, hx, hs⟩ := step_login he
  refine ⟨by simpa only [ExchangesOnce, hx] using h.once, ?_⟩
  obtain ⟨hi, -, hm⟩ | ⟨i, d, hi, hc, hu, hd, -, hm⟩ := hs
  · simp [KeepsOthers, Considerate, hi, usable_iff, hm]
  constructor
  · intro hk j hj d' hd' code hcode
    rw [hi] at hj
    cases hj
    rw [Option.mem_def, hd] at hd'
    cases hd'
    obtain ⟨user, hissued⟩ := h.kept _ _ _ hd hcode
    by_contra hne
    obtain ⟨hnx, hnu⟩ := not_or.mp hne
    have hother : s.user x ≠ some user := fun hsame => by
      rw [hu] at hsame
      cases hsame
      exact hnu hissued
    obtain ⟨d', hd', hk'⟩ := usable_iff.mp
      (hk ⟨i.clientId, code, user⟩ hissued hother hnx (usable_iff.mpr ⟨d, hd, hcode⟩))
    -- the new code is kept now, and was not issued before
    rw [hm, put_apply, if_pos rfl] at hd'
    cases hd'
    cases hk'
    exact hf (List.mem_map.mpr ⟨_, hissued, hc⟩)
  · intro hok j hj hother hnx hus
    obtain ⟨d', hd', hk⟩ := usable_iff.mp hus
    by_cases hcl : j.clientId = i.clientId
    · obtain hx' | hsame := hok i hi d' (hcl ▸ hd') j.code hk
      · exact (hnx (hcl ▸ hx')).elim
      · have heq := h.distinct _ hj _ hsame rfl
        exact (hother (by rw [hu, heq])).elim
    · exact usable_iff.mpr ⟨d', by rw [hm, put_apply, if_neg hcl, hd'], hk⟩

theorem CodeInv.token (h : s.CodeInv) {x : Option OAuthTokenRequest} {accessToken : String}
    (he : step locate s (.token x accessToken) = some s') :
    s'.ExchangesOnce ↔ s.Considerate (.token x accessToken) := by
  obtain ⟨-, ⟨hn, hx, -⟩ | ⟨r, d, code, rfl, ha, hx, -⟩⟩ := step_token he
  · simp only [ExchangesOnce, hx]
    exact ⟨fun _ r hr d _ code _ ha => (hn r d code hr ha).elim, fun _ => h.once⟩
  simp only [ExchangesOnce, hx, List.map_cons, List.nodup_cons]
  constructor
  · rintro ⟨hnew, -⟩ _ ⟨⟩ d' hd' code' hk' - hmem
    rw [Option.mem_def, ha.1] at hd'
    cases hd'
    rw [Option.mem_def, ha.2.2.2.2] at hk'
    cases hk'
    exact hnew (List.mem_map.mpr ⟨_, hmem, rfl⟩)
  · intro hok
    refine ⟨fun hmem => ?_, h.once⟩
    obtain ⟨y, hy, hcode⟩ := List.mem_map.mp hmem
    obtain ⟨user, hissued⟩ := h.kept _ _ _ ha.1 ha.2.2.2.2
    obtain ⟨user', hissued'⟩ := h.exchanged y hy
    -- the code was issued once, so to this client
    have heq := h.distinct _ hissued' _ hissued hcode
    have hy' : y = ⟨r.clientId, code⟩ := by
      injection heq with hclient
      cases y
      simp_all
    exact hok r rfl d ha.1 code ha.2.2.2.2 ha (hy' ▸ hy)

theorem CodeInv.step (h : s.CodeInv) {e : Event S} (he : step locate s e = some s')
    (hok : s.Considerate e) : s'.CodeInv := by
  cases e with
  | login x =>
    have honce := (h.login he).1
    obtain ⟨hf, hx, ⟨-, hs, hm⟩ | ⟨i, d, hi, hc, -, hd, hs, hm⟩⟩ := step_login he
    · exact ⟨by simpa only [hm, hs] using h.kept, by simpa only [hs] using h.distinct,
        by simpa only [ExchangesIssued, hx, hs] using h.exchanged, honce⟩
    refine ⟨fun k d' code hd' hk => ?_, ?_, fun y hy => ?_, honce⟩
    · rw [hm, put_apply] at hd'
      split at hd'
      · rename_i hki
        cases hd'
        cases hk
        exact ⟨i.user, by rw [hs, hki]; exact List.mem_cons_self⟩
      · obtain ⟨user, hu⟩ := h.kept k d' code hd' hk
        exact ⟨user, by rw [hs]; exact List.mem_cons_of_mem _ hu⟩
    · have hfresh : ∀ j ∈ s.issued, j.code ≠ i.code := fun j hj hji =>
        hf (List.mem_map.mpr ⟨j, hj, hji.trans hc⟩)
      rw [hs]
      intro j hj l hl hjl
      obtain rfl | hj' := List.mem_cons.mp hj
      · obtain rfl | hl' := List.mem_cons.mp hl
        · rfl
        · exact (hfresh l hl' hjl.symm).elim
      · obtain rfl | hl' := List.mem_cons.mp hl
        · exact (hfresh j hj' hjl).elim
        · exact h.distinct j hj' l hl' hjl
    · rw [hx] at hy
      obtain ⟨user, hu⟩ := h.exchanged y hy
      exact ⟨user, by rw [hs]; exact List.mem_cons_of_mem _ hu⟩
  | token x accessToken =>
    have honce := (h.token he).mpr hok
    obtain ⟨hs, ⟨-, hx, hm⟩ | ⟨r, d, code, rfl, ha, hx, hm⟩⟩ := step_token he
    · exact ⟨by simpa only [hm, hs] using h.kept, by simpa only [hs] using h.distinct,
        by simpa only [ExchangesIssued, hx, hs] using h.exchanged, honce⟩
    refine ⟨fun k d' code' hd' hk => ?_, by simpa only [hs] using h.distinct, fun y hy => ?_, honce⟩
    · rw [hs]
      rw [hm, put_apply] at hd'
      split at hd'
      · rename_i hkr
        cases hd'
        exact hkr ▸ h.kept _ _ _ ha.1 hk
      · exact h.kept k d' code' hd' hk
    · rw [hx] at hy
      rw [hs]
      rcases List.mem_cons.mp hy with rfl | hy
      · exact h.kept _ _ _ ha.1 ha.2.2.2.2
      · exact h.exchanged y hy

/-- **Authorisation codes**, as long as logins and exchanges are considerate: tokens are
given for codes issued to the client before, once for each, and a login keeps the
codes of others. It is the first request that is not considerate that breaks this. -/
theorem exchanges_of_considerate
    (locate : Option String → Option String → Option String) (secret : String → Option String)
    (h : Reach (step locate) Considerate (start secret) s) :
    s.ExchangesIssued ∧ s.ExchangesOnce ∧
      ∀ e s', step locate s e = some s' →
        (s'.ExchangesOnce ∧ s.KeepsOthers e s' ↔ s.Considerate e) := by
  have hI : s.CodeInv := h.invariant (.start secret) fun _ _ _ hi hok he => hi.step he hok
  refine ⟨hI.exchanged, hI.once, fun e s' he => ?_⟩
  cases e with
  | login x =>
    obtain ⟨honce, hk⟩ := hI.login he
    exact ⟨fun hs => hk.mp hs.2, fun hok => ⟨honce, hk.mpr hok⟩⟩
  | token x accessToken =>
    exact ⟨fun hs => (hI.token he).mp hs.1, fun hok => ⟨(hI.token he).mpr hok, trivial⟩⟩

/-! ### Two users of one client -/

/-- The one client. -/
def secrets (clientId : String) : Option String := if clientId = "c" then some "secret" else none

def location (_ _ : Option String) : Option String := some "/"

def loginOf (session : ℕ) (user code : String) : Event ℕ :=
  .login ⟨session, .authenticated user, some { clientId := "c", responseType := "code" }, code⟩

def tokenOf (code : String) : Event ℕ :=
  .token (some ⟨"c", some "secret", some code, "authorization_code"⟩) "token"

/-- The second user logs in after the first one's code is exchanged. -/
def inTurn : List (Event ℕ) := [loginOf 0 "ann" "1", tokenOf "1", loginOf 1 "bob" "2", tokenOf "2"]

theorem exchanges_inTurn :
    let s : Server ℕ :=
      (runWith (step location) Considerate (start secrets) inTurn).get (by decide)
    s.ExchangesIssued ∧ s.ExchangesOnce ∧
      ∀ e s', step location s e = some s' →
        (s'.ExchangesOnce ∧ s.KeepsOthers e s' ↔ s.Considerate e) :=
  exchanges_of_considerate location secrets (reach_get inTurn (by decide))

/-- A code is exchanged a second time; and a login takes the first user's code away. -/
theorem exchange_repeated_and_code_lost :
    (¬ ∀ s : Server ℕ, Reach (step location) (fun _ _ => True) (start secrets) s →
        s.ExchangesOnce) ∧
      ¬ ∀ s : Server ℕ, Reach (step location) (fun _ _ => True) (start secrets) s →
        ∀ e s', step location s e = some s' → s.KeepsOthers e s' := by
  constructor
  · intro h
    have hn := h _ (reach_get [loginOf 0 "ann" "1", tokenOf "1", tokenOf "1"] (by decide))
    revert hn
    unfold ExchangesOnce
    decide
  · intro h
    have hk := h _ (reach_get [loginOf 0 "ann" "1"] (by decide)) (loginOf 1 "bob" "2") _ rfl
    revert hk
    decide

end Server
end Gateway
end CloudManager
