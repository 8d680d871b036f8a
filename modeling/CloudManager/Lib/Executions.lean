/-
# Infinite executions of a guarded step function

An `Execution step ok s₀` takes an enabled event that meets `ok` at every time; what
each step keeps holds of any two of its states (`Execution.related`). `eventually`
is the rule for what must happen: a measure that no step lets grow and that some
events, which come again and again, make smaller. `ofRun` is the execution that
makes a finite run and then idles.
-/
import CloudManager.Lib.Runs

namespace CloudManager
namespace Runs

variable {σ ε : Type*}

structure Execution (step : σ → ε → Option σ) (ok : σ → ε → Prop) (s₀ : σ) where
  state : ℕ → σ
  event : ℕ → ε
  init : state 0 = s₀
  ok : ∀ t, ok (state t) (event t)
  next : ∀ t, step (state t) (event t) = some (state (t + 1))

namespace Execution

variable {step : σ → ε → Option σ} {ok : σ → ε → Prop} {s₀ : σ}

theorem reach (r : Execution step ok s₀) (t : ℕ) : Reach step ok s₀ (r.state t) := by
  induction t with
  | zero =>
    rw [r.init]
    exact .init
  | succ t ih => exact ih.step (r.ok t) (r.next t)

/-- A preorder that each step goes along. -/
theorem related (r : Execution step ok s₀) {R : σ → σ → Prop} (refl : ∀ s, R s s)
    (trans : ∀ {a b c}, R a b → R b c → R a c)
    (hs : ∀ s e s', step s e = some s' → R s s') {t u : ℕ} (h : t ≤ u) :
    R (r.state t) (r.state u) := by
  induction h with
  | refl => exact refl _
  | step _ ih => exact trans ih (hs _ _ _ (r.next _))

/-! ### What must happen -/

variable {P Q : σ → Prop} {again : ε → Prop} {μ : σ → ℕ}

/-- While `Q` holds no step lets the measure grow, until `P` does. -/
theorem not_grown (r : Execution step ok s₀)
    (keep : ∀ s e s', Reach step ok s₀ s → Q s → step s e = some s' → Q s')
    (grow : ∀ s e s', Reach step ok s₀ s → Q s → step s e = some s' → P s' ∨ μ s' ≤ μ s)
    {t : ℕ} (hq : Q (r.state t)) (d : ℕ) :
    (∃ u, t ≤ u ∧ P (r.state u)) ∨ Q (r.state (t + d)) ∧ μ (r.state (t + d)) ≤ μ (r.state t) := by
  induction d with
  | zero => exact .inr ⟨hq, Nat.le_refl _⟩
  | succ d ih =>
    obtain hp | ⟨hqd, hμ⟩ := ih
    · exact .inl hp
    · obtain hp | hle := grow _ _ _ (r.reach _) hqd (r.next (t + d))
      · exact .inl ⟨_, Nat.le_add_right t (d + 1), hp⟩
      · exact .inr ⟨keep _ _ _ (r.reach _) hqd (r.next (t + d)), Nat.le_trans hle hμ⟩

/-- The events that come again and again make the measure smaller, until `P` holds. -/
theorem eventually (r : Execution step ok s₀) (fair : ∀ t, ∃ u, t ≤ u ∧ again (r.event u))
    (keep : ∀ s e s', Reach step ok s₀ s → Q s → step s e = some s' → Q s')
    (grow : ∀ s e s', Reach step ok s₀ s → Q s → step s e = some s' → P s' ∨ μ s' ≤ μ s)
    (less : ∀ s e s', Reach step ok s₀ s → Q s → again e → step s e = some s' →
      P s' ∨ μ s' < μ s) {t : ℕ} (hq : Q (r.state t)) : ∃ u, t ≤ u ∧ P (r.state u) := by
  have hbound : ∀ n t, Q (r.state t) → μ (r.state t) < n → ∃ u, t ≤ u ∧ P (r.state u) := by
    intro n
    induction n with
    | zero => exact fun t _ hn => absurd hn (Nat.not_lt_zero _)
    | succ n ih =>
      intro t hq hn
      obtain ⟨u, htu, hu⟩ := fair t
      obtain ⟨d, rfl⟩ := Nat.exists_eq_add_of_le htu
      obtain hp | ⟨hqd, hμ⟩ := r.not_grown keep grow hq d
      · exact hp
      have hq' := keep _ _ _ (r.reach _) hqd (r.next (t + d))
      obtain hp | hlt := less _ _ _ (r.reach _) hqd hu (r.next (t + d))
      · exact ⟨_, Nat.le_add_right t (d + 1), hp⟩
      obtain ⟨v, hv, hp⟩ := ih (t + d + 1) hq' (by omega)
      exact ⟨v, by omega, hp⟩
  exact hbound _ t hq (Nat.lt_succ_self _)

/-! ### A finite run, and then idling -/

/-- The state after the first `t` events. -/
def stateOf (step : σ → ε → Option σ) (idle : ε) (s₀ : σ) (es : List ε) : ℕ → σ
  | 0 => s₀
  | t + 1 =>
    (step (stateOf step idle s₀ es t) (es.getD t idle)).getD (stateOf step idle s₀ es t)

theorem stateOf_cons (idle : ε) {s s' : σ} {e : ε} (es : List ε) (h : step s e = some s') (t : ℕ) :
    stateOf step idle s (e :: es) (t + 1) = stateOf step idle s' es t := by
  induction t with
  | zero => simp [stateOf, h]
  | succ t ih =>
    rw [stateOf, ih, List.getD_cons_succ]
    rfl

theorem step_stateOf [∀ s e, Decidable (ok s e)] {idle : ε} {s' : σ}
    (hidle : step s' idle = some s') (hok : ok s' idle) :
    ∀ (es : List ε) {s : σ}, runWith step ok s es = some s' → ∀ t,
      ok (stateOf step idle s es t) (es.getD t idle) ∧
        step (stateOf step idle s es t) (es.getD t idle) =
          some (stateOf step idle s es (t + 1))
  | [], s, h, t => by
    obtain rfl : s = s' := by simpa [runWith] using h
    have hs : ∀ t, stateOf step idle s ([] : List ε) t = s := by
      intro t
      induction t with
      | zero => rfl
      | succ t ih => simp [stateOf, ih, hidle]
    simp [hs, hidle, hok]
  | e :: es, s, h, t => by
    simp only [runWith] at h
    split at h
    · rename_i hoke
      obtain ⟨s₁, h₁, h₂⟩ := Option.bind_eq_some_iff.mp h
      cases t with
      | zero => exact ⟨hoke, by simp [stateOf, h₁]⟩
      | succ t =>
        rw [stateOf_cons idle es h₁, stateOf_cons idle es h₁, List.getD_cons_succ]
        exact step_stateOf hidle hok es h₂ t
    · cases h

/-- The run `es`, and the idle event from its end on. -/
def ofRun [∀ s e, Decidable (ok s e)] (es : List ε) (idle : ε) {s' : σ}
    (h : runWith step ok s₀ es = some s') (hidle : step s' idle = some s') (hok : ok s' idle) :
    Execution step ok s₀ where
  state := stateOf step idle s₀ es
  event t := es.getD t idle
  init := rfl
  ok t := (step_stateOf hidle hok es h t).1
  next t := (step_stateOf hidle hok es h t).2

theorem ofRun_fair [∀ s e, Decidable (ok s e)] {es : List ε} {idle : ε} {s' : σ}
    (h : runWith step ok s₀ es = some s') (hidle : step s' idle = some s') (hok : ok s' idle)
    (ha : again idle) (t : ℕ) : ∃ u, t ≤ u ∧ again ((ofRun es idle h hidle hok).event u) :=
  ⟨t + es.length, Nat.le_add_right _ _, by
    have hd : es.getD (t + es.length) idle = idle := by
      rw [List.getD_eq_getElem?_getD, List.getElem?_eq_none (Nat.le_add_left _ _), Option.getD_none]
    simpa only [ofRun, hd] using ha⟩

end Execution
end Runs
end CloudManager
