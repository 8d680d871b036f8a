/-
# Procedures that change a shared state and may throw

`Traced σ α` is a procedure that changes a state one assignment at a time, in
full view of others, and returns or throws. What it does from a state is the
list of the states after each of its assignments, and its result; an exception
undoes nothing. `Writes p f es r` says of a part `f` of the state what the
whole of it goes through: each of the writes `es` in turn, and then the result
`r`. The rules below put the writes of a sequence and of a loop together.
-/
import Mathlib.Data.List.Basic

namespace CloudManager

def Traced (σ α : Type) := σ → List σ × Except String α

namespace Traced

variable {σ α β : Type}

/-- The states after each assignment. -/
def states (p : Traced σ α) (s : σ) : List σ := (p s).1

def result (p : Traced σ α) (s : σ) : Except String α := (p s).2

/-- The state in which the procedure ends. -/
def final (p : Traced σ α) (s : σ) : σ := (p.states s).getLastD s

def pure (a : α) : Traced σ α := fun _ => ([], .ok a)

def throw (message : String) : Traced σ α := fun _ => ([], .error message)

/-- A value already computed, or the exception thrown instead. -/
def ofExcept (r : Except String α) : Traced σ α := fun _ => ([], r)

/-- One assignment. -/
def modify (f : σ → σ) : Traced σ Unit := fun s => ([f s], .ok ())

def bind (p : Traced σ α) (q : α → Traced σ β) : Traced σ β := fun s =>
  match p.result s with
  | .ok a => (p.states s ++ (q a).states (p.final s), (q a).result (p.final s))
  | .error e => (p.states s, .error e)

theorem bind_of_ok {p : Traced σ α} {q : α → Traced σ β} {s : σ} {a : α}
    (h : p.result s = .ok a) :
    p.bind q s = (p.states s ++ (q a).states (p.final s), (q a).result (p.final s)) := by
  unfold bind
  rw [h]

theorem bind_of_error {p : Traced σ α} {q : α → Traced σ β} {s : σ} {m : String}
    (h : p.result s = .error m) : p.bind q s = (p.states s, .error m) := by
  unfold bind
  rw [h]

instance : Monad (Traced σ) where
  pure := pure
  bind := bind

/-- A loop over a list, left at the first exception. -/
def forEach (body : α → Traced σ Unit) : List α → Traced σ Unit
  | [] => pure ()
  | a :: as => bind (body a) fun _ => forEach body as

/-! ### The writes to a part of the state -/

variable {γ ω : Type}

/-- The values a part goes through from `c` under the writes `ws`. -/
def passes (write : γ → ω → γ) : γ → List ω → List γ
  | _, [] => []
  | c, w :: ws => write c w :: passes write (write c w) ws

theorem passes_append (write : γ → ω → γ) (c : γ) (ws vs : List ω) :
    passes write c (ws ++ vs) = passes write c ws ++ passes write (ws.foldl write c) vs := by
  induction ws generalizing c with
  | nil => rfl
  | cons w ws ih =>
    show write c w :: passes write (write c w) (ws ++ vs) = _
    rw [ih]
    rfl

theorem getLastD_passes (write : γ → ω → γ) (c : γ) (ws : List ω) :
    (passes write c ws).getLastD c = ws.foldl write c := by
  induction ws generalizing c with
  | nil => rfl
  | cons w ws ih =>
    show (write c w :: passes write (write c w) ws).getLastD c = _
    rw [List.getLastD_cons, ih]
    rfl

/-- Each value passed is the result of the writes up to it. -/
theorem mem_passes {write : γ → ω → γ} {c d : γ} {ws : List ω} (h : d ∈ passes write c ws) :
    ∃ n, d = (ws.take n).foldl write c := by
  induction ws generalizing c with
  | nil => cases h
  | cons w ws ih =>
    rcases List.mem_cons.mp h with rfl | h
    · exact ⟨1, rfl⟩
    · obtain ⟨n, hn⟩ := ih h
      exact ⟨n + 1, hn⟩

/-- A relation that a write keeps, and that is transitive, holds from each
value passed to the later ones. -/
theorem pairwise_passes {write : γ → ω → γ} {R : γ → γ → Prop} (hw : ∀ c w, R c (write c w))
    (ht : ∀ {a b c}, R a b → R b c → R a c) (c : γ) (ws : List ω) :
    (∀ d ∈ passes write c ws, R c d) ∧ (passes write c ws).Pairwise R := by
  induction ws generalizing c with
  | nil => exact ⟨by simp [passes], List.Pairwise.nil⟩
  | cons w ws ih =>
    obtain ⟨h1, h2⟩ := ih (write c w)
    refine ⟨fun d hd => ?_, List.pairwise_cons.mpr ⟨h1, h2⟩⟩
    rcases List.mem_cons.mp hd with rfl | hd
    · exact hw c w
    · exact ht (hw c w) (h1 d hd)

/-- From every state, the part `part` goes through the writes `ws`, and the
result is `r`. -/
def Writes (part : σ → γ) (write : γ → ω → γ) (p : Traced σ α) (ws : List ω)
    (r : Except String α) : Prop :=
  ∀ s, (p.states s).map part = passes write (part s) ws ∧ p.result s = r

variable {part : σ → γ} {write : γ → ω → γ}

theorem Writes.part_final {p : Traced σ α} {ws : List ω} {r : Except String α}
    (h : Writes part write p ws r) (s : σ) : part (p.final s) = ws.foldl write (part s) := by
  rw [← getLastD_passes, ← (h s).1]
  unfold final
  rcases List.eq_nil_or_concat (p.states s) with hs | ⟨l, t, hs⟩ <;> simp [hs]

theorem writes_pure (a : α) : Writes part write (pure a) [] (.ok a) := fun _ => ⟨rfl, rfl⟩

theorem writes_throw (m : String) : Writes part write (throw m : Traced σ α) [] (.error m) :=
  fun _ => ⟨rfl, rfl⟩

theorem writes_modify {f : σ → σ} {w : ω} (h : ∀ s, part (f s) = write (part s) w) :
    Writes part write (modify f) [w] (.ok ()) :=
  fun s => ⟨congrArg (fun c => [c]) (h s), rfl⟩

theorem Writes.bind {p : Traced σ α} {q : α → Traced σ β} {ws vs : List ω} {a : α}
    {r : Except String β} (hp : Writes part write p ws (.ok a)) (hq : Writes part write (q a) vs r) :
    Writes part write (p.bind q) (ws ++ vs) r := by
  intro s
  obtain ⟨h1, h2⟩ := hp s
  obtain ⟨h3, h4⟩ := hq (p.final s)
  have hb := bind_of_ok (q := q) h2
  constructor
  · show (p.bind q s).1.map part = _
    rw [hb, List.map_append, h1, h3, hp.part_final, passes_append]
  · show (p.bind q s).2 = r
    rw [hb, h4]

theorem Writes.bind_error {p : Traced σ α} {q : α → Traced σ β} {ws : List ω} {m : String}
    (hp : Writes part write p ws (.error m)) : Writes part write (p.bind q) ws (.error m) := by
  intro s
  obtain ⟨h1, h2⟩ := hp s
  have hb := bind_of_error (q := q) h2
  constructor
  · show (p.bind q s).1.map part = _
    rw [hb, h1]
  · show (p.bind q s).2 = _
    rw [hb]

/-- The writes of a loop whose body writes `out a` and ends with `err a`: those
of the rounds up to the first that throws. -/
def loopWrites (out : α → List ω) (err : α → Except String Unit) : List α → List ω
  | [] => []
  | a :: as => match err a with
    | .ok _ => out a ++ loopWrites out err as
    | .error _ => out a

def loopResult (err : α → Except String Unit) : List α → Except String Unit
  | [] => .ok ()
  | a :: as => match err a with
    | .ok _ => loopResult err as
    | .error m => .error m

theorem Writes.forEach {body : α → Traced σ Unit} {out : α → List ω}
    {err : α → Except String Unit} (h : ∀ a, Writes part write (body a) (out a) (err a))
    (as : List α) :
    Writes part write (Traced.forEach body as) (loopWrites out err as) (loopResult err as) := by
  induction as with
  | nil => exact writes_pure ()
  | cons a as ih =>
    have ha := h a
    unfold Traced.forEach loopWrites loopResult
    rcases he : err a with m | u
    · rw [he] at ha
      exact ha.bind_error
    · rw [he] at ha
      exact ha.bind ih

/-- A loop that ends has run every round to its end. -/
theorem loopResult_ok (out : α → List ω) {err : α → Except String Unit} {as : List α}
    (h : loopResult err as = .ok ()) :
    (∀ a ∈ as, err a = .ok ()) ∧ loopWrites out err as = as.flatMap out := by
  induction as with
  | nil => exact ⟨by simp, rfl⟩
  | cons a as ih =>
    unfold loopResult at h
    rcases he : err a with m | u
    · rw [he] at h
      cases h
    · rw [he] at h
      obtain ⟨h1, h2⟩ := ih h
      refine ⟨fun b hb => ?_, ?_⟩
      · rcases List.mem_cons.mp hb with rfl | hb
        · exact he
        · exact h1 b hb
      · unfold loopWrites
        rw [he, List.flatMap_cons, ← h2]

end Traced
end CloudManager
