/-
# Runs of a guarded step function, and what holds along them

A system is a step function `step : σ → ε → Option σ`: `some s'` when the
event is enabled in the state, `none` otherwise. `Reach step ok s₀ s` says
that `s` is reached from `s₀` by enabled events each of which met `ok` in the
state it was taken in; with `ok := fun _ _ => True` these are all the
reachable states. An invariant is proved once, by a step lemma
(`Reach.invariant`). A concrete run is replayed by `runWith`, which also
checks `ok`, and `reach_get` turns the replay into a `Reach`.

For a total step function `Along step P s es` says that `P` holds at every
step of the run `es` from `s`. `along_iff` compares two such laws: where
an invariant makes them agree step by step they agree along every run.
-/
import Mathlib.Data.List.Basic

namespace CloudManager
namespace Runs

variable {σ ε : Type*}

/-! ### Reachable states -/

/-- The states reached from `s₀` by enabled events that meet `ok`. -/
inductive Reach (step : σ → ε → Option σ) (ok : σ → ε → Prop) (s₀ : σ) : σ → Prop
  | init : Reach step ok s₀ s₀
  | step {s s' : σ} {e : ε} : Reach step ok s₀ s → ok s e → step s e = some s' → Reach step ok s₀ s'

variable {step : σ → ε → Option σ} {ok : σ → ε → Prop} {s₀ s s' : σ}

/-- What holds at the start and is kept by every step holds in every state
reached. -/
theorem Reach.invariant {I : σ → Prop} (h : Reach step ok s₀ s) (h0 : I s₀)
    (hs : ∀ s e s', I s → ok s e → step s e = some s' → I s') : I s := by
  induction h with
  | init => exact h0
  | step _ hok he ih => exact hs _ _ _ ih hok he

/-! ### Replaying a run -/

/-- Replay `es` from `s`; `none` if an event is disabled or does not meet `ok`. -/
def runWith (step : σ → ε → Option σ) (ok : σ → ε → Prop) [∀ s e, Decidable (ok s e)] :
    σ → List ε → Option σ
  | s, [] => some s
  | s, e :: es => if ok s e then (step s e).bind fun s' => runWith step ok s' es else none

theorem Reach.runWith [∀ s e, Decidable (ok s e)] :
    ∀ {s : σ} (es : List ε), Reach step ok s₀ s → runWith step ok s es = some s' →
      Reach step ok s₀ s'
  | s, [], h, he => by
    simp only [Runs.runWith, Option.some.injEq] at he
    exact he ▸ h
  | s, e :: es, h, he => by
    simp only [Runs.runWith] at he
    split at he
    · rename_i hok
      obtain ⟨s1, h1, h2⟩ := Option.bind_eq_some_iff.mp he
      exact Reach.runWith es (h.step hok h1) h2
    · cases he

/-- The end of a replay is reached. -/
theorem reach_get [∀ s e, Decidable (ok s e)] (es : List ε)
    (h : (runWith step ok s₀ es).isSome = true) :
    Reach step ok s₀ ((runWith step ok s₀ es).get h) :=
  Reach.runWith es .init (Option.some_get h).symm

/-! ### Laws along a run of a total step function -/

/-- `P` holds at every step of the run `es` from `s`. -/
def Along (step : σ → ε → σ) (P : σ → ε → Prop) : σ → List ε → Prop
  | _, [] => True
  | s, e :: es => P s e ∧ Along step P (step s e) es

instance Along.decidable (step : σ → ε → σ) (P : σ → ε → Prop) [∀ s e, Decidable (P s e)] :
    ∀ (s : σ) (es : List ε), Decidable (Along step P s es)
  | _, [] => .isTrue trivial
  | s, e :: es => @instDecidableAnd _ _ _ (Along.decidable step P (step s e) es)

/-- Two laws that an invariant makes agree at each step agree along every
run; the invariant only has to survive the steps at which they hold. -/
theorem along_iff {step : σ → ε → σ} {P Q : σ → ε → Prop} {I : σ → Prop}
    (hPQ : ∀ s e, I s → (P s e ↔ Q s e)) (hI : ∀ s e, I s → P s e → I (step s e)) :
    ∀ {s : σ} (es : List ε), I s → (Along step P s es ↔ Along step Q s es)
  | _, [], _ => Iff.rfl
  | s, e :: es, h => by
    simp only [Along]
    constructor
    · rintro ⟨hp, hr⟩
      exact ⟨(hPQ s e h).mp hp, (along_iff hPQ hI es (hI s e h hp)).mp hr⟩
    · rintro ⟨hq, hr⟩
      have hp := (hPQ s e h).mpr hq
      exact ⟨hp, (along_iff hPQ hI es (hI s e h hp)).mpr hr⟩

/-- A law on the events alone holds along a run if it holds of its events. -/
theorem along_const {step : σ → ε → σ} {P : ε → Prop} :
    ∀ (s : σ) (es : List ε), Along step (fun _ e => P e) s es ↔ ∀ e ∈ es, P e
  | _, [] => by simp [Along]
  | s, e :: es => by simp [Along, along_const (step s e) es]

end Runs
end CloudManager
