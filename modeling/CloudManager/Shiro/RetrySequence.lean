/-
# Logins one after the other

Without other threads in between, `doCredentialsMatch` is one function of the
cache. Along a sequence of attempts the cached count of an account is its wrong
answers since its last right one (`Counts`), so an attempt is refused exactly
when there are `total` of them already (`sequential`); attempts on other
accounts leave it alone (`logins_filter`).

The count is an `int`: it wraps after 2^31 - 1 wrong answers, which only a
`total` of that size lets come about.
-/
import CloudManager.Shiro.RetryLimit

namespace CloudManager

open Runs RedisCache

namespace RetryLimitHashedCredentialsMatcher

variable (m : RetryLimitHashedCredentialsMatcher)

/-- `doCredentialsMatch`, where `matched` is the answer of the comparison. -/
def doCredentialsMatch (r : Redis Int32) (account : String) (matched : Bool) :
    Outcome × Redis Int32 :=
  if !m.enable then (.answer matched, r)
  else
    let retryCount := m.count r account + 1
    if m.total < retryCount then (.excessiveAttempts, r)
    else (.answer matched, m.writeBack r account matched retryCount)

/-- An attempt on an account, and the state after it. -/
def attempt (s : State) (a : String × Bool) : State :=
  let (outcome, redis) := m.doCredentialsMatch s.redis a.1 a.2
  { s with redis := redis, log := ⟨a.1, a.2, outcome⟩ :: s.log }

/-- The attempts of a sequence, newest first. -/
def logins (attempts : List (String × Bool)) : List Login := (attempts.foldl m.attempt {}).log

/-- An attempt alone goes through the steps of the threads. -/
theorem attempt_eq_run (s : State) (thread : ℕ) (a : String × Bool) (h : s.flight thread = none) :
    ∃ s₁, m.step s (.get thread a.1 a.2) = some s₁ ∧
      (s₁ = m.attempt s a ∨ m.step s₁ (.finish thread) = some (m.attempt s a)) := by
  have hnone : (s.flight thread).isSome = false := by rw [h]; rfl
  by_cases hen : m.enable = true
  · by_cases hlt : m.total < m.count s.redis a.1 + 1
    · refine ⟨s.ends ⟨a.1, a.2, .excessiveAttempts⟩, ?_, .inl ?_⟩
      · simp [step, hnone, hen, hlt]
      · simp [attempt, doCredentialsMatch, State.ends, hen, hlt]
    · refine ⟨_, by simp only [step, hnone, hen, if_neg hlt]; rfl, .inr ?_⟩
      have hback : Function.update s.flight thread none = s.flight := by
        rw [← h, Function.update_eq_self]
      simp [step, attempt, doCredentialsMatch, hen, hlt, hback]
  · have hen' : m.enable = false := by simpa using hen
    refine ⟨s.ends ⟨a.1, a.2, .answer a.2⟩, ?_, .inl ?_⟩
    · simp [step, hnone, hen']
    · simp [attempt, doCredentialsMatch, State.ends, hen']

/-! ### The law -/

/-- What an attempt should come to: refused after `total` wrong answers since
the last right one, else the answer of the comparison. -/
def lawful (log : List Login) (a : String × Bool) : Outcome :=
  if m.total.toInt ≤ wrongSince a.1 log then .excessiveAttempts else .answer a.2

/-- The attempt comes to that. -/
def Lawful (s : State) (a : String × Bool) : Prop :=
  (m.doCredentialsMatch s.redis a.1 a.2).1 = m.lawful s.log a

instance (s : State) (a : String × Bool) : Decidable (m.Lawful s a) :=
  inferInstanceAs (Decidable (_ = _))

variable {m} {s s' : State}

variable (m) in
/-- The cached counts are the wrong answers; there are no more of them than
attempts, and than `total`. -/
structure Counts (s : State) : Prop where
  count : ∀ account, (m.count s.redis account).toInt = wrongSince account s.log
  bounded : ∀ account, wrongSince account s.log ≤ s.log.length
  inLimit : ∀ account, wrongSince account s.log ≤ m.total.toInt.toNat

variable (m) in
/-- The next wrong answer does not come to the largest `int` as its count. -/
def Room (s : State) : Prop := m.total ≠ Int32.maxValue ∨ s.log.length < 2147483647

theorem Counts.start : Counts m {} where
  count _ := rfl
  bounded _ := le_rfl
  inLimit _ := Nat.zero_le _

theorem Counts.ne_maxValue (h : Counts m s) (hroom : m.Room s) (account : String) :
    m.count s.redis account ≠ Int32.maxValue := by
  intro he
  have hc := h.count account
  have hb := h.bounded account
  have hl := h.inLimit account
  rw [he] at hc
  have hmax : Int32.maxValue.toInt = 2147483647 := rfl
  rcases hroom with htotal | hlen
  · have htop := m.total.toInt_lt
    have hne : m.total.toInt ≠ 2147483647 := fun ht => htotal (Int32.toInt_inj.mp ht)
    omega
  · omega

/-- The check is the law. -/
theorem Counts.refuses_iff (h : Counts m s) (hroom : m.Room s) (account : String) :
    m.total < m.count s.redis account + 1 ↔ m.total.toInt ≤ wrongSince account s.log := by
  rw [Int32.lt_iff_toInt_lt, toInt_succ_of_ne (h.ne_maxValue hroom account), h.count]
  omega

theorem Counts.lawful (h : Counts m s) (hen : m.enable = true) (hroom : m.Room s)
    (a : String × Bool) : m.Lawful s a := by
  have hiff := h.refuses_iff hroom a.1
  unfold Lawful doCredentialsMatch RetryLimitHashedCredentialsMatcher.lawful
  rw [hen]
  simp only [Bool.not_true, Bool.false_eq_true, if_false]
  by_cases hlt : m.total < m.count s.redis a.1 + 1
  · rw [if_pos hlt, if_pos (hiff.mp hlt)]
  · rw [if_neg hlt, if_neg fun h => hlt (hiff.mpr h)]

/-! ### What an attempt leaves -/

theorem Counts.refuse (h : Counts m s) (account : String) (matched : Bool) :
    Counts m (s.ends ⟨account, matched, .excessiveAttempts⟩) where
  count account' := by
    rw [State.ends, wrongSince_excessive]
    exact h.count account'
  bounded account' := by
    rw [State.ends, wrongSince_excessive]
    exact (h.bounded account').trans (Nat.le_succ _)
  inLimit account' := by
    rw [State.ends, wrongSince_excessive]
    exact h.inLimit account'

theorem Counts.right (h : Counts m s) (account : String) :
    Counts m { s with redis := (SpringShiroCache.remove m.cacheName s.redis account).2
                      log := ⟨account, true, .answer true⟩ :: s.log } where
  count account' := by
    rw [wrongSince_right, count_remove]
    by_cases he : account = account'
    · rw [if_pos he, if_pos he.symm]
      rfl
    · rw [if_neg he, if_neg (Ne.symm he)]
      exact h.count account'
  bounded account' := by
    rw [wrongSince_right]
    have hb := h.bounded account'
    rw [List.length_cons]
    split <;> omega
  inLimit account' := by
    rw [wrongSince_right]
    have hl := h.inLimit account'
    split <;> omega

theorem Counts.wrong (h : Counts m s) (hroom : m.Room s) {account : String}
    (hpass : ¬ m.total.toInt ≤ wrongSince account s.log) :
    Counts m { s with redis := (SpringShiroCache.put m.cacheName s.redis account
                                  (m.count s.redis account + 1)).2
                      log := ⟨account, false, .answer false⟩ :: s.log } where
  count account' := by
    rw [wrongSince_wrong, count_put]
    by_cases he : account = account'
    · subst he
      rw [if_pos rfl, if_pos rfl, toInt_succ_of_ne (h.ne_maxValue hroom account), h.count]
      push_cast
      rfl
    · rw [if_neg he, if_neg (Ne.symm he)]
      exact h.count account'
  bounded account' := by
    rw [wrongSince_wrong]
    have hb := h.bounded account'
    rw [List.length_cons]
    split <;> omega
  inLimit account' := by
    rw [wrongSince_wrong]
    have hl := h.inLimit account'
    by_cases he : account = account'
    · subst he
      rw [if_pos rfl]
      omega
    · rw [if_neg he]
      exact hl

theorem Counts.attempt (h : Counts m s) (hen : m.enable = true) (hroom : m.Room s)
    (a : String × Bool) : Counts m (m.attempt s a) := by
  have hiff := h.refuses_iff hroom a.1
  unfold RetryLimitHashedCredentialsMatcher.attempt doCredentialsMatch
  rw [hen]
  simp only [Bool.not_true, Bool.false_eq_true, if_false]
  by_cases hlt : m.total < m.count s.redis a.1 + 1
  · rw [if_pos hlt]
    exact h.refuse a.1 a.2
  · rw [if_neg hlt]
    have hpass := fun hle => hlt (hiff.mpr hle)
    cases ha : a.2 with
    | true => exact h.right a.1
    | false => exact h.wrong hroom hpass

/-- The law along the rest of a sequence. -/
theorem Counts.along (h : Counts m s) (hen : m.enable = true) (attempts : List (String × Bool))
    (hmax : m.total ≠ Int32.maxValue ∨ s.log.length + attempts.length ≤ 2147483647) :
    Along m.attempt m.Lawful s attempts := by
  induction attempts generalizing s with
  | nil => trivial
  | cons a attempts ih =>
    rw [List.length_cons] at hmax
    have hroom : m.Room s := hmax.imp id fun hle => by omega
    refine ⟨h.lawful hen hroom a, ih (h.attempt hen hroom a) ?_⟩
    have hlen : (m.attempt s a).log.length = s.log.length + 1 := rfl
    rw [hlen]
    exact hmax.imp id fun hle => by omega

/-! ### Other accounts -/

/-- An attempt leaves the counts of the other accounts alone. -/
theorem count_doCredentialsMatch_of_ne {r : Redis Int32} {account account' : String}
    (h : account' ≠ account) (matched : Bool) :
    m.count (m.doCredentialsMatch r account matched).2 account' = m.count r account' := by
  unfold doCredentialsMatch writeBack
  split
  · rfl
  dsimp only
  split
  · rfl
  dsimp only
  split
  · rw [count_remove, if_neg h]
  · rw [count_put, if_neg h]

/-- What an attempt comes to depends on the count of its account only. -/
theorem doCredentialsMatch_congr {r r' : Redis Int32} {account : String}
    (h : m.count r account = m.count r' account) (matched : Bool) :
    (m.doCredentialsMatch r account matched).1 = (m.doCredentialsMatch r' account matched).1 ∧
      m.count (m.doCredentialsMatch r account matched).2 account =
        m.count (m.doCredentialsMatch r' account matched).2 account := by
  unfold doCredentialsMatch writeBack
  rw [h]
  split
  · exact ⟨rfl, h⟩
  dsimp only
  split
  · exact ⟨rfl, h⟩
  refine ⟨rfl, ?_⟩
  dsimp only
  split
  · rw [count_remove, count_remove, if_pos rfl, if_pos rfl]
  · rw [count_put, count_put, if_pos rfl, if_pos rfl]

theorem redis_attempt (s : State) (a : String × Bool) :
    (m.attempt s a).redis = (m.doCredentialsMatch s.redis a.1 a.2).2 := rfl

theorem log_attempt (s : State) (a : String × Bool) :
    (m.attempt s a).log = ⟨a.1, a.2, (m.doCredentialsMatch s.redis a.1 a.2).1⟩ :: s.log := rfl

/-- The states agree on an account: its count, and its attempts. -/
structure SameFor (m : RetryLimitHashedCredentialsMatcher) (account : String) (s s' : State) :
    Prop where
  count : m.count s.redis account = m.count s'.redis account
  log : s.log.filter (·.account = account) = s'.log.filter (·.account = account)

theorem SameFor.other {account : String} (h : SameFor m account s s') {a : String × Bool}
    (hne : a.1 ≠ account) : SameFor m account (m.attempt s a) s' where
  count := by
    rw [redis_attempt, count_doCredentialsMatch_of_ne (Ne.symm hne)]
    exact h.count
  log := by
    rw [log_attempt, List.filter_cons_of_neg (by simpa using hne)]
    exact h.log

theorem SameFor.same {account : String} (h : SameFor m account s s') (matched : Bool) :
    SameFor m account (m.attempt s (account, matched)) (m.attempt s' (account, matched)) where
  count := (doCredentialsMatch_congr h.count matched).2
  log := by
    rw [log_attempt, log_attempt, List.filter_cons_of_pos (by simp),
      List.filter_cons_of_pos (by simp), h.log, (doCredentialsMatch_congr h.count matched).1]

/-- The attempts on an account are those of its own part of the sequence. -/
theorem sameFor_foldl (account : String) (attempts : List (String × Bool))
    (h : SameFor m account s s') : SameFor m account (attempts.foldl m.attempt s)
      ((attempts.filter (·.1 = account)).foldl m.attempt s') := by
  induction attempts generalizing s s' with
  | nil => exact h
  | cons a attempts ih =>
    obtain ⟨account', matched⟩ := a
    by_cases he : account' = account
    · subst he
      rw [List.filter_cons_of_pos (by simp)]
      exact ih (h.same matched)
    · rw [List.filter_cons_of_neg (by simpa using he)]
      exact ih (h.other he)

theorem account_of_mem_log {account : String} {attempts : List (String × Bool)}
    (h : ∀ a ∈ attempts, a.1 = account) (hs : ∀ l ∈ s.log, l.account = account) :
    ∀ l ∈ (attempts.foldl m.attempt s).log, l.account = account := by
  induction attempts generalizing s with
  | nil => exact hs
  | cons a attempts ih =>
    refine ih (fun b hb => h b (List.mem_cons_of_mem a hb)) fun l hl => ?_
    rcases List.mem_cons.mp hl with rfl | hl
    · exact h a List.mem_cons_self
    · exact hs l hl

variable (m) in
theorem logins_filter (account : String) (attempts : List (String × Bool)) :
    (m.logins attempts).filter (·.account = account) =
      m.logins (attempts.filter (·.1 = account)) := by
  have hsame : SameFor m account (attempts.foldl m.attempt {})
      ((attempts.filter (·.1 = account)).foldl m.attempt {}) :=
    sameFor_foldl account attempts ⟨rfl, rfl⟩
  have hmem : ∀ l ∈ m.logins (attempts.filter (·.1 = account)), l.account = account :=
    account_of_mem_log (fun a ha => by simpa using (List.mem_filter.mp ha).2) nofun
  exact hsame.log.trans (List.filter_eq_self.mpr fun l hl => by simpa using hmem l hl)

/-- **The sequential law.** With the limit switched on, and below the largest
`int`, an attempt is refused exactly when its account has had `total` wrong
answers since its last right one; else it is answered. The attempts on an account
are those that its own sequence gives. -/
theorem sequential (m : RetryLimitHashedCredentialsMatcher) (attempts : List (String × Bool))
    (hen : m.enable = true) (hmax : m.total ≠ Int32.maxValue ∨ attempts.length ≤ 2147483647) :
    Along m.attempt m.Lawful {} attempts ∧ ∀ account,
      (m.logins attempts).filter (·.account = account) =
        m.logins (attempts.filter (·.1 = account)) := by
  refine ⟨Counts.start.along hen attempts ?_, fun account => m.logins_filter account attempts⟩
  exact hmax.imp id fun hlen => (Nat.zero_add _).trans_le hlen

/-- Two wrong answers, and then even the right password is refused. -/
theorem sequential_twice :
    Along twice.attempt twice.Lawful {} [("ann", false), ("bob", true), ("ann", false), ("ann", true)] ∧
      ∀ account, (twice.logins [("ann", false), ("bob", true), ("ann", false), ("ann", true)]).filter
          (·.account = account) =
        twice.logins ([("ann", false), ("bob", true), ("ann", false), ("ann", true)].filter
          (·.1 = account)) :=
  sequential twice _ rfl (.inl (by decide))

/-- One wrong password allowed, and the limit switched off. -/
def switchedOff : RetryLimitHashedCredentialsMatcher :=
  { cacheName := "retryLimitCache", total := 1, enable := false }

/-- Nothing is refused then. -/
theorem never_refused : ¬ ∀ (m : RetryLimitHashedCredentialsMatcher)
    (attempts : List (String × Bool)), Along m.attempt m.Lawful {} attempts := by
  intro h
  have hlaw := h switchedOff [("ann", false), ("ann", false)]
  revert hlaw
  decide

end RetryLimitHashedCredentialsMatcher
end CloudManager
