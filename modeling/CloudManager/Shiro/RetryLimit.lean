/-
# The password retry limit

`doCredentialsMatch` reads the account's count of wrong passwords from the
cache, increments its own copy, refuses above `total`, and only then drops the
count (right password) or writes its copy back (wrong one). Attempts run
between each other's steps: `get` is the part up to the check, `finish` the
`remove` or `put`. `limited_of_careful`: the limit holds in every run in which
no copy is written over a larger count.
-/
import CloudManager.Shiro.RedisCache

namespace CloudManager

open Runs RedisCache

structure RetryLimitHashedCredentialsMatcher where
  cacheName : String
  total : Int32 := 5
  enable : Bool := true

namespace RetryLimitHashedCredentialsMatcher

/-- How an attempt ends: with the answer of the comparison, or refused. -/
inductive Outcome
  | answer (matched : Bool)
  | excessiveAttempts
  deriving DecidableEq, Repr

/-- An attempt that has ended. -/
structure Login where
  account : String
  matched : Bool
  outcome : Outcome
  deriving DecidableEq, Repr

/-- An attempt that has passed the check, with the count it read. -/
structure Attempt where
  account : String
  matched : Bool
  read : Int32
  deriving DecidableEq, Repr

/-- The shared cache, the attempts in flight by thread, and those that have
ended, newest first. -/
structure State where
  redis : Redis Int32 := ∅
  flight : ℕ → Option Attempt := fun _ => none
  log : List Login := []

inductive Event
  | get (thread : ℕ) (account : String) (matched : Bool)
  | finish (thread : ℕ)
  deriving DecidableEq, Repr

variable (m : RetryLimitHashedCredentialsMatcher)

/-- The count in the cache; no entry is a new counter. -/
def count (r : Redis Int32) (account : String) : Int32 :=
  (SpringShiroCache.get m.cacheName r account).getD 0

/-- The end of `doCredentialsMatch`, on the copy incremented to `retryCount`. -/
def writeBack (r : Redis Int32) (account : String) (matched : Bool) (retryCount : Int32) :
    Redis Int32 :=
  if matched then (SpringShiroCache.remove m.cacheName r account).2
  else (SpringShiroCache.put m.cacheName r account retryCount).2

def State.ends (s : State) (l : Login) : State := { s with log := l :: s.log }

def step (s : State) : Event → Option State
  | .get thread account matched =>
    if (s.flight thread).isSome then none
    else if !m.enable then some (s.ends ⟨account, matched, .answer matched⟩)
    else if m.total < m.count s.redis account + 1 then
      some (s.ends ⟨account, matched, .excessiveAttempts⟩)
    else
      let a : Attempt := ⟨account, matched, m.count s.redis account⟩
      some { s with flight := Function.update s.flight thread (some a) }
  | .finish thread => (s.flight thread).map fun a =>
    { redis := m.writeBack s.redis a.account a.matched (a.read + 1)
      flight := Function.update s.flight thread none
      log := ⟨a.account, a.matched, .answer a.matched⟩ :: s.log }

/-! ### The limit -/

/-- The wrong passwords of the account that were answered since its last
successful login. -/
def wrongSince (account : String) : List Login → ℕ
  | [] => 0
  | l :: log =>
    if l.account = account then
      match l.outcome with
      | .answer true => 0
      | .answer false => wrongSince account log + 1
      | .excessiveAttempts => wrongSince account log
    else wrongSince account log

/-- At most `total` wrong passwords are answered between two logins, and what is
not answered is refused. -/
def Limited (s : State) : Prop :=
  (∀ account, wrongSince account s.log ≤ m.total.toInt.toNat) ∧
    ∀ l ∈ s.log, l.outcome = .answer l.matched ∨ l.outcome = .excessiveAttempts

/-- The limit is switched on, and no count is written over a larger one or
past the largest `int`. -/
def Careful (s : State) : Event → Prop
  | .get _ _ matched => m.enable = true ∨ matched = true
  | .finish thread =>
    ∀ a ∈ s.flight thread, a.matched = false →
      (m.count s.redis a.account).toInt ≤ a.read.toInt ∧ a.read ≠ Int32.maxValue

instance : ∀ (s : State) (e : Event), Decidable (m.Careful s e)
  | _, .get _ _ _ => inferInstanceAs (Decidable (_ ∨ _))
  | s, .finish thread => inferInstanceAs (Decidable (∀ a ∈ s.flight thread, _))

/-! ### The count in the cache -/

variable {m} {s s' : State} {r : Redis Int32} {account account' : String}

theorem getKey_right_inj {name : String}
    (h : SpringShiroCache.getKey name account = SpringShiroCache.getKey name account') :
    account = account' := by
  have h' := congrArg String.toList h
  rw [getKey_toList, getKey_toList] at h'
  exact String.toList_inj.mp (List.cons.inj (List.append_cancel_left h')).2

theorem count_put (v : Int32) (account' : String) :
    m.count (SpringShiroCache.put m.cacheName r account v).2 account' =
      if account' = account then v else m.count r account' := by
  unfold count SpringShiroCache.get SpringShiroCache.put
  split
  · rename_i h
    rw [h, AList.lookup_insert]
    rfl
  · rename_i h
    rw [AList.lookup_insert_ne fun he => h (getKey_right_inj he)]

theorem count_remove (account' : String) :
    m.count (SpringShiroCache.remove m.cacheName r account).2 account' =
      if account' = account then 0 else m.count r account' := by
  unfold count SpringShiroCache.get SpringShiroCache.remove
  split
  · rename_i h
    rw [h, AList.lookup_erase]
    rfl
  · rename_i h
    rw [AList.lookup_erase_ne fun he => h (getKey_right_inj he)]

theorem toInt_succ_of_ne {a : Int32} (h : a ≠ Int32.maxValue) : (a + 1).toInt = a.toInt + 1 := by
  have hlt := a.toInt_lt
  have hle := a.le_toInt
  have hne : a.toInt ≠ 2147483647 := fun he => h (Int32.toInt_inj.mp he)
  rw [Int32.toInt_add]
  exact Int.bmod_eq_of_le (by simp; omega) (by simp; omega)

/-! ### What a step keeps -/

variable (m) in
/-- The cached count is no less than the wrong answers, and an attempt in flight
has passed the check. -/
structure Inv (s : State) : Prop where
  counted : ∀ account, (wrongSince account s.log : ℤ) ≤ (m.count s.redis account).toInt
  inLimit : ∀ account, wrongSince account s.log ≤ m.total.toInt.toNat
  passed : ∀ thread, ∀ a ∈ s.flight thread, a.read + 1 ≤ m.total
  ended : ∀ l ∈ s.log, l.outcome = .answer l.matched ∨ l.outcome = .excessiveAttempts

theorem Inv.start : Inv m {} where
  counted _ := le_rfl
  inLimit _ := Nat.zero_le _
  passed _ _ h := by cases h
  ended _ h := by cases h

variable {thread : ℕ} {matched : Bool} {a : Attempt}

theorem wrongSince_right (log : List Login) (account : String) :
    wrongSince account' (⟨account, true, .answer true⟩ :: log) =
      if account = account' then 0 else wrongSince account' log := rfl

theorem wrongSince_wrong (log : List Login) (account : String) :
    wrongSince account' (⟨account, false, .answer false⟩ :: log) =
      if account = account' then wrongSince account' log + 1 else wrongSince account' log := rfl

theorem wrongSince_excessive (log : List Login) (account : String) :
    wrongSince account' (⟨account, matched, .excessiveAttempts⟩ :: log) =
      wrongSince account' log := by
  rw [wrongSince]
  split <;> rfl

theorem Inv.refuse (h : Inv m s) :
    Inv m (s.ends ⟨account, matched, .excessiveAttempts⟩) where
  counted account' := by
    rw [State.ends, wrongSince_excessive]
    exact h.counted account'
  inLimit account' := by
    rw [State.ends, wrongSince_excessive]
    exact h.inLimit account'
  passed := h.passed
  ended l hl := by
    rcases List.mem_cons.mp hl with rfl | hl
    · exact .inr rfl
    · exact h.ended l hl

theorem passed_update (h : Inv m s) (thread : ℕ) {v : Option Attempt}
    (hv : ∀ a ∈ v, a.read + 1 ≤ m.total) :
    ∀ t, ∀ a ∈ Function.update s.flight thread v t, a.read + 1 ≤ m.total :=
  (Function.forall_update_iff s.flight (p := fun _ o => ∀ a ∈ o, a.read + 1 ≤ m.total)).mpr
    ⟨hv, fun t _ => h.passed t⟩

theorem Inv.enter (h : Inv m s) (hle : m.count s.redis account + 1 ≤ m.total) :
    Inv m { s with flight := Function.update s.flight thread
                      (some ⟨account, matched, m.count s.redis account⟩) } where
  counted := h.counted
  inLimit := h.inLimit
  passed := passed_update h thread (by rintro _ ⟨⟩; exact hle)
  ended := h.ended

/-- Whatever happens to the cache, a right password starts the account afresh. -/
theorem Inv.right {r : Redis Int32} {flight : ℕ → Option Attempt} (h : Inv m s)
    (hr : ∀ account', account' ≠ account → m.count r account' = m.count s.redis account')
    (h0 : 0 ≤ (m.count r account).toInt) (hf : ∀ thread, ∀ a ∈ flight thread, a.read + 1 ≤ m.total) :
    Inv m { redis := r, flight := flight, log := ⟨account, true, .answer true⟩ :: s.log } where
  counted account' := by
    rw [wrongSince_right]
    split
    · rename_i he
      rw [← he]
      exact h0
    · rename_i he
      rw [hr account' (Ne.symm he)]
      exact h.counted account'
  inLimit account' := by
    rw [wrongSince_right]
    split
    · exact Nat.zero_le _
    · exact h.inLimit account'
  passed := hf
  ended l hl := by
    rcases List.mem_cons.mp hl with rfl | hl
    · exact .inl rfl
    · exact h.ended l hl

/-- A wrong password is answered with a count that is not below the cached one. -/
theorem Inv.wrong {flight : ℕ → Option Attempt} {read : Int32} (h : Inv m s)
    (hle : (m.count s.redis account).toInt ≤ read.toInt) (hmax : read ≠ Int32.maxValue)
    (hpass : read + 1 ≤ m.total) (hf : ∀ thread, ∀ a ∈ flight thread, a.read + 1 ≤ m.total) :
    Inv m { redis := (SpringShiroCache.put m.cacheName s.redis account (read + 1)).2
            flight := flight
            log := ⟨account, false, .answer false⟩ :: s.log } where
  counted account' := by
    rw [wrongSince_wrong, count_put]
    by_cases he : account = account'
    · subst he
      rw [if_pos rfl, if_pos rfl, toInt_succ_of_ne hmax]
      have hc := h.counted account
      push_cast
      omega
    · rw [if_neg he, if_neg (Ne.symm he)]
      exact h.counted account'
  inLimit account' := by
    rw [wrongSince_wrong]
    by_cases he : account = account'
    · subst he
      rw [if_pos rfl]
      have hc := h.counted account
      have hp := Int32.le_iff_toInt_le.mp hpass
      rw [toInt_succ_of_ne hmax] at hp
      omega
    · rw [if_neg he]
      exact h.inLimit account'
  passed := hf
  ended l hl := by
    rcases List.mem_cons.mp hl with rfl | hl
    · exact .inl rfl
    · exact h.ended l hl

theorem Inv.step {e : Event} (h : Inv m s) (hok : m.Careful s e) (he : m.step s e = some s') :
    Inv m s' := by
  have h0 : ∀ account, 0 ≤ (m.count s.redis account).toInt := fun account =>
    (Int.natCast_nonneg _).trans (h.counted account)
  cases e with
  | get thread account matched =>
    simp only [RetryLimitHashedCredentialsMatcher.step] at he
    split at he
    · cases he
    split at he
    · -- the limit is switched off, so the password is right
      rename_i hen
      have hm : matched = true := hok.resolve_left (by simpa using hen)
      subst hm
      cases he
      exact h.right (fun _ _ => rfl) (h0 account) h.passed
    split at he
    · cases he
      exact h.refuse
    · rename_i hle
      cases he
      exact h.enter (Int32.not_lt.mp hle)
  | finish thread =>
    obtain ⟨a, ha, rfl⟩ := Option.map_eq_some_iff.mp he
    have hf := passed_update h thread (v := none) (by rintro _ ⟨⟩)
    obtain ⟨account, matched, read⟩ := a
    cases matched with
    | true =>
      apply h.right _ _ hf
      · intro account' hne
        exact (count_remove account').trans (if_neg hne)
      · exact (congrArg Int32.toInt ((count_remove account).trans (if_pos rfl))).ge
    | false =>
      obtain ⟨hle, hmax⟩ := hok _ ha rfl
      exact h.wrong hle hmax (h.passed thread _ ha) hf

/-- **The limit holds** in every run in which no count is written over a larger
one: between two logins at most `total` wrong passwords are answered. -/
theorem limited_of_careful (m : RetryLimitHashedCredentialsMatcher) {s : State}
    (h : Reach m.step m.Careful {} s) : m.Limited s := by
  have hI : Inv m s := h.invariant Inv.start fun _ _ _ => Inv.step
  exact ⟨hI.inLimit, hI.ended⟩

/-! ### Runs -/

/-- Two wrong passwords are allowed. -/
def twice : RetryLimitHashedCredentialsMatcher := { cacheName := "retryLimitCache", total := 2 }

/-- One after the other: wrong, wrong, refused although right. -/
def oneByOne : List Event :=
  [.get 0 "ann" false, .finish 0, .get 0 "ann" false, .finish 0, .get 0 "ann" true]

theorem limited_oneByOne :
    twice.Limited ((runWith twice.step twice.Careful {} oneByOne).get (by decide)) :=
  limited_of_careful twice (reach_get oneByOne (by decide))

/-- Three guesses at once, all on the count of none. -/
def parallel : List Event :=
  [.get 0 "ann" false, .get 1 "ann" false, .get 2 "ann" false, .finish 0, .finish 1, .finish 2]

/-- Parallel guesses share one count. -/
theorem parallel_guesses :
    ¬ ∀ (m : RetryLimitHashedCredentialsMatcher) (s : State),
      Reach m.step (fun _ _ => True) {} s → m.Limited s := fun h => by
  have hl := (h twice _ (reach_get parallel (by decide))).1 "ann"
  revert hl
  decide

end RetryLimitHashedCredentialsMatcher
end CloudManager
