/-
# Filling the holes of a text one key after the other

A text has holes, each with a key. Written out, a hole is the token of its key, and is
filled by `String.replace`, one key after the other. What is replaced are the tokens in
the text as it has become, so a token that stands in a value, or that arises where a
value meets its neighbours, is replaced too. Where none does (`Fresh`), the holes are
filled with the values, whatever the order of the keys (`foldl_replace`).
-/
import Mathlib.Data.List.TakeDrop
import Mathlib.Data.List.TakeWhile
import CloudManager.Lib.JavaText

namespace CloudManager
namespace Substitution

open JavaText

/-- A character, or a hole. -/
inductive Fragment (κ : Type*)
  | char (c : Char)
  | hole (k : κ)
  deriving DecidableEq, Repr

def Fragment.isChar {κ : Type*} : Fragment κ → Bool
  | .char _ => true
  | .hole _ => false

variable {κ : Type*} [DecidableEq κ] {token value : κ → List Char}

def Fragment.fill (f : κ → List Char) : Fragment κ → List Char
  | .char c => [c]
  | .hole k => f k

/-- The text with every hole filled. -/
def fill (f : κ → List Char) (parts : List (Fragment κ)) : List Char := parts.flatMap (Fragment.fill f)

/-- A key that is done is its value, another one its token. -/
def current (token value : κ → List Char) (done : List κ) (k : κ) : List Char :=
  if k ∈ done then value k else token k

def render (token value : κ → List Char) (done : List κ) : List (Fragment κ) → List Char :=
  fill (current token value done)

/-- No occurrence of the text ends within another one. -/
def Solid (t : List Char) : Prop := t ≠ [] ∧ ∀ a b, NoStraddle t a (t ++ b)

/-- Between the holes of a key its token does not occur. -/
def Fresh (token value : κ → List Char) (done : List κ) (k : κ) (parts : List (Fragment κ)) : Prop :=
  ∀ stretch, stretch <:+: parts → .hole k ∉ stretch →
    ¬ token k <:+: render token value done stretch

variable {t r a b : List Char} {done : List κ} {k : κ} {parts : List (Fragment κ)}

theorem current_of_mem (h : k ∈ done) : current token value done k = value k := if_pos h

theorem current_of_not_mem (h : k ∉ done) : current token value done k = token k := if_neg h

theorem render_append (p q : List (Fragment κ)) :
    render token value done (p ++ q) = render token value done p ++ render token value done q :=
  List.flatMap_append

/-- A text is solid if no part that it begins with is one that it ends with. -/
theorem solid_of_border (ht : t ≠ [])
    (h : ∀ x y, t = x ++ y → x ≠ [] → y ≠ [] → ¬ y <+: t) : Solid t := by
  refine ⟨ht, fun a b x y hxy hx hy _ hpre => h x y hxy hx hy ?_⟩
  refine List.prefix_of_prefix_length_le hpre (List.prefix_append t b) ?_
  rw [hxy, List.length_append]
  omega

/-- A text is solid if its last character only ends it. -/
theorem solid_of_last {body : List Char} {c : Char} (h : c ∉ body) : Solid (body ++ [c]) := by
  refine solid_of_border (by simp) fun x y hxy hx hy hpre => h ?_
  have hlen : y.length ≤ body.length := by
    have hsum := congrArg List.length hxy
    have hpos := List.length_pos_of_ne_nil hx
    rw [List.length_append, List.length_append, List.length_singleton] at hsum
    omega
  have hbody : y <+: body := List.prefix_of_prefix_length_le hpre (List.prefix_append body [c]) hlen
  have hlast := congrArg List.getLast? hxy
  rw [List.getLast?_append_of_ne_nil x hy, List.getLast?_concat] at hlast
  exact hbody.subset (List.mem_of_getLast? hlast.symm)

/-- The first occurrence is replaced. -/
theorem Solid.replace_append (h : Solid t) (ha : ¬ t <:+: a) :
    replace t r (a ++ (t ++ b)) = a ++ (r ++ replace t r b) := by
  rw [JavaText.replace_append h.1 (h.2 a b), replace_of_not_infix h.1 ha, replace_self_append h.1]

/-- A text that is replaced by itself. -/
theorem replace_self (ht : t ≠ []) (s : List Char) : replace t t s = s := by
  induction hn : s.length using Nat.strong_induction_on generalizing s with
  | _ n ih =>
    subst hn
    cases s with
    | nil => exact replace_nil ht t
    | cons c s =>
      by_cases hp : t <+: c :: s
      · obtain ⟨s', hs'⟩ := hp
        have hlen : s'.length < (c :: s).length := by
          have hpos := List.length_pos_of_ne_nil ht
          rw [← hs', List.length_append]
          omega
        rw [← hs', replace_self_append ht, ih _ hlen s' rfl]
      · have hstep : replace t t (c :: s) = c :: replace t t s := by
          rw [replace_of_ne_nil ht, replace_of_ne_nil ht, replaceFrom_cons,
            if_neg (by rwa [List.isPrefixOf_iff_prefix])]
        rw [hstep, ih s.length (by simp) s rfl]

theorem Fresh.of_infix {q : List (Fragment κ)} (h : Fresh token value done k parts)
    (hq : q <:+: parts) : Fresh token value done k q :=
  fun stretch hs => h stretch (hs.trans hq)

/-- It matters only which of the keys that are there are done. -/
theorem render_congr {done' : List κ} (h : ∀ k, .hole k ∈ parts → (k ∈ done ↔ k ∈ done')) :
    render token value done parts = render token value done' parts := by
  refine List.flatMap_congr fun p hp => ?_
  cases p with
  | char c => rfl
  | hole k =>
    show current token value done k = current token value done' k
    unfold current
    rw [if_congr (h k hp) rfl rfl]

theorem render_of_not_mem (h : .hole k ∉ parts) :
    render token value (done ++ [k]) parts = render token value done parts := by
  refine render_congr fun k' hk' => ?_
  have hne : k' ≠ k := fun he => h (he ▸ hk')
  simp [hne]

/-- One key: its holes are filled. -/
theorem replace_render (htoken : Solid (token k)) (hk : k ∉ done)
    (h : Fresh token value done k parts) :
    replace (token k) (value k) (render token value done parts) =
      render token value (done ++ [k]) parts := by
  induction hn : parts.length using Nat.strong_induction_on generalizing parts with
  | _ n ih =>
    subst hn
    by_cases hmem : Fragment.hole k ∈ parts
    · obtain ⟨p, q, rfl, hp⟩ := List.eq_append_cons_of_mem hmem
      have hq : replace (token k) (value k) (render token value done q) =
          render token value (done ++ [k]) q :=
        ih q.length (by simp; omega) (h.of_infix ⟨p ++ [.hole k], [], by simp⟩) rfl
      have hfirst : ¬ token k <:+: render token value done p :=
        h p (List.prefix_append p _).isInfix hp
      have hhole : render token value done (p ++ .hole k :: q) =
          render token value done p ++ (token k ++ render token value done q) := by
        rw [render_append]
        simp [render, fill, Fragment.fill, current, hk]
      have hfilled : render token value (done ++ [k]) (p ++ .hole k :: q) =
          render token value (done ++ [k]) p ++ (value k ++ render token value (done ++ [k]) q) := by
        rw [render_append]
        simp [render, fill, Fragment.fill, current]
      rw [hhole, hfilled, htoken.replace_append hfirst, hq, render_of_not_mem hp]
    · rw [render_of_not_mem hmem, replace_of_not_infix htoken.1 (h _ List.infix_rfl hmem)]

/-- A key whose value is its token. -/
theorem render_of_self (h : value k = token k) (parts : List (Fragment κ)) :
    render token value (done ++ [k]) parts = render token value done parts := by
  refine List.flatMap_congr fun p _ => ?_
  cases p with
  | char c => rfl
  | hole k' =>
    by_cases he : k' = k
    · simp [Fragment.fill, current, he, h]
    · simp [Fragment.fill, current, he]

/-- **One key after the other.** Where each key's token is fresh whenever its turn may
come, the holes of the keys are filled, in whatever order they come. -/
theorem foldl_replace {ks : List κ} (htoken : ∀ k ∈ ks, Solid (token k))
    (hks : (done ++ ks).Nodup)
    (h : ∀ k ∈ ks, value k = token k ∨ ∀ done, k ∉ done → Fresh token value done k parts) :
    ks.foldl (fun s k => replace (token k) (value k) s) (render token value done parts) =
      render token value (done ++ ks) parts := by
  induction ks generalizing done with
  | nil => rw [List.append_nil, List.foldl_nil]
  | cons k ks ih =>
    have hk : k ∉ done := fun hmem =>
      (List.nodup_append.mp hks).2.2 k hmem k List.mem_cons_self rfl
    have hstep : replace (token k) (value k) (render token value done parts) =
        render token value (done ++ [k]) parts := by
      obtain hself | hfresh := h k List.mem_cons_self
      · rw [hself, replace_self (htoken k List.mem_cons_self).1, render_of_self hself]
      · exact replace_render (htoken k List.mem_cons_self) hk (hfresh done hk)
    have hrest : (done ++ [k] ++ ks).Nodup := by rwa [List.append_assoc]
    rw [List.foldl_cons, hstep, ih (fun k hk => htoken k (List.mem_cons_of_mem _ hk)) hrest
      fun k hk => h k (List.mem_cons_of_mem _ hk), List.append_assoc]
    rfl

/-- Done with all their keys, the holes are values. -/
theorem render_of_mem (h : ∀ k, .hole k ∈ parts → k ∈ done) :
    render token value done parts = fill value parts := by
  refine List.flatMap_congr fun p hp => ?_
  cases p with
  | char c => rfl
  | hole k => exact if_pos (h k hp)

/-- With none of their keys done, they are tokens. -/
theorem render_of_forall_not_mem (h : ∀ k, .hole k ∈ parts → k ∉ done) :
    render token value done parts = fill token parts := by
  refine List.flatMap_congr fun p hp => ?_
  cases p with
  | char c => rfl
  | hole k => exact if_neg (h k hp)

theorem render_nil (parts : List (Fragment κ)) : render token value [] parts = fill token parts :=
  render_of_forall_not_mem fun _ _ => List.not_mem_nil

end Substitution
end CloudManager
