/-
# Wildcard patterns

A pattern is a list of atoms, each of which takes one character of the text
or, for `many`, any number of them. `glob` reads a pattern in the notation of
the Redis command KEYS (`*`, `?`, `[abc]`, `[^abc]`, `[a-c]`, `\x`), `like` one
in SQL's (`%`, `_`, `\x`). A KEYS pattern without special characters matches its
own text and nothing else (`glob_plain`).
-/
import Mathlib.Data.List.Basic

namespace CloudManager
namespace Wildcard

inductive Atom
  /-- this character -/
  | char (c : Char)
  /-- any one character -/
  | one
  /-- any characters, also none -/
  | many
  /-- one character of the class between brackets -/
  | oneOf (cls : List Char)
  deriving DecidableEq, Repr

/-- Membership in a class without its sign: single characters and ranges. -/
def inClass : List Char → Char → Bool
  | a :: '-' :: b :: cls, c => (a ≤ c && c ≤ b) || inClass cls c
  | a :: cls, c => a == c || inClass cls c
  | [], _ => false

/-- The atom takes the character `c`. -/
def Atom.takes : Atom → Char → Bool
  | .char a, c => a == c
  | .one, _ => true
  | .many, _ => true
  | .oneOf ('^' :: cls), c => !inClass cls c
  | .oneOf cls, c => inClass cls c

/-- The pattern matches the whole text. -/
def accepts : List Atom → List Char → Bool
  | [], cs => cs.isEmpty
  | .many :: p, cs => cs.tails.any (accepts p)
  | _ :: _, [] => false
  | a :: p, c :: cs => a.takes c && accepts p cs

/-- The atoms of a KEYS pattern; the first argument is the class that is open,
in reverse. -/
def parseGlob : Option (List Char) → List Char → List Atom
  | none, [] => []
  | none, '*' :: cs => .many :: parseGlob none cs
  | none, '?' :: cs => .one :: parseGlob none cs
  | none, '[' :: cs => parseGlob (some []) cs
  | none, '\\' :: c :: cs => .char c :: parseGlob none cs
  | none, c :: cs => .char c :: parseGlob none cs
  | some cls, [] => [.oneOf cls.reverse]
  | some cls, ']' :: cs => .oneOf cls.reverse :: parseGlob none cs
  | some cls, c :: cs => parseGlob (some (c :: cls)) cs

/-- KEYS: `text` matches `pattern`. -/
def glob (pattern text : String) : Bool := accepts (parseGlob none pattern.toList) text.toList

/-- The atoms of a LIKE pattern. -/
def parseLike : List Char → List Atom
  | [] => []
  | '%' :: cs => .many :: parseLike cs
  | '_' :: cs => .one :: parseLike cs
  | '\\' :: c :: cs => .char c :: parseLike cs
  | c :: cs => .char c :: parseLike cs

/-- LIKE: `text` matches `pattern`. -/
def like (pattern text : String) : Bool := accepts (parseLike pattern.toList) text.toList

/-- The characters with a meaning in a KEYS pattern. -/
def globChars : List Char := ['*', '?', '[', '\\']

theorem parseGlob_plain : ∀ {cs : List Char}, (∀ c ∈ cs, c ∉ globChars) →
    parseGlob none cs = cs.map .char
  | [], _ => rfl
  | c :: cs, h => by
    have ih := parseGlob_plain fun x hx => h x (List.mem_cons_of_mem c hx)
    have hc := h c List.mem_cons_self
    simp only [globChars, List.mem_cons, List.not_mem_nil, or_false, not_or] at hc
    obtain ⟨h1, h2, h3, h4⟩ := hc
    rw [parseGlob, ih, List.map_cons]
    · exact h1
    · exact h2
    · exact h3
    · intro _ _ hc'
      exact (h4 hc').elim

theorem accepts_chars : ∀ cs ds : List Char, accepts (cs.map .char) ds = true ↔ ds = cs
  | [], [] => by simp [accepts]
  | [], d :: ds => by simp [accepts]
  | c :: cs, [] => by simp [accepts]
  | c :: cs, d :: ds => by
    simp only [List.map_cons, accepts, Atom.takes, Bool.and_eq_true, beq_iff_eq, accepts_chars cs ds,
      List.cons.injEq]
    exact and_congr_left fun _ => eq_comm

/-- A pattern without special characters matches its own text only. -/
theorem glob_plain {pattern : String} (h : ∀ c ∈ pattern.toList, c ∉ globChars) (text : String) :
    glob pattern text = true ↔ text = pattern := by
  rw [glob, parseGlob_plain h, accepts_chars, String.toList_inj]

end Wildcard
end CloudManager
