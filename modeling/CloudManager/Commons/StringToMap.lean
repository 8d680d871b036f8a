/-
# The converter of the filter chains' text

`StringToMapConverter` reads a map from lines `key:value`, in their order. A line is
split at every colon, and only the first two parts are looked at: of a value with
a colon, as `perms[user:add]` has one, the rest is left out, and a value of
colons alone throws.

`convert_lines_iff`: the pairs come back from their lines if and only if no value
has a colon.
-/
import CloudManager.Lib.JavaString
import CloudManager.Lib.LinkedHashMap

namespace CloudManager
namespace StringToMapConverter

open JavaString

/-- The cause is the exception of an index past the parts of a line. -/
structure RuntimeException where
  index : ℕ
  deriving DecidableEq, Repr

/-- The body of the `forEach` over the lines. -/
def putRow (stringStringMap : LinkedHashMap String String) (rows : String) :
    Except RuntimeException (LinkedHashMap String String) :=
  match split ':' rows with
  | key :: value :: _ => .ok (stringStringMap.put key value)
  | [_] => .error ⟨1⟩
  | [] => .error ⟨0⟩

def convert (source : String) : Except RuntimeException (LinkedHashMap String String) :=
  (split '\n' source).foldlM putRow .empty

/-- The line of a pair. -/
def line (p : String × String) : String := join ':' [p.1, p.2]

def lines (pairs : List (String × String)) : String := join '\n' (pairs.map line)

/-- Pairs that lines can be written of. -/
structure Listed (pairs : List (String × String)) : Prop where
  nonempty : pairs ≠ []
  nodup : (pairs.map Prod.fst).Nodup
  key : ∀ p ∈ pairs, ':' ∉ p.1.toList ∧ '\n' ∉ p.1.toList
  value : ∀ p ∈ pairs, p.2 ≠ "" ∧ '\n' ∉ p.2.toList

/-- The pairs come back, in their order. -/
def Converted (pairs : List (String × String)) : Prop :=
  ∃ m, convert (lines pairs) = .ok m ∧ m.entries = pairs

theorem toList_line (p : String × String) : (line p).toList = p.1.toList ++ ':' :: p.2.toList := by
  unfold line
  rw [toList_join]
  simp [List.intercalate]

/-! ### One line -/

/-- The value up to its first colon. -/
def upToColon (value : String) : String := String.ofList (value.toList.takeWhile (· ≠ ':'))

theorem upToColon_eq_iff {value : String} : upToColon value = value ↔ ':' ∉ value.toList := by
  have htoList : upToColon value = value ↔ value.toList.takeWhile (· ≠ ':') = value.toList := by
    unfold upToColon
    rw [← String.toList_inj, String.toList_ofList]
  rw [htoList, List.takeWhile_eq_self_iff]
  constructor
  · intro h hmem
    simpa using h ':' hmem
  · intro h c hc
    simpa using fun he : c = ':' => h (he ▸ hc)

/-- What a line puts, if it does not throw. -/
theorem of_putRow {m m' : LinkedHashMap String String} {p : String × String}
    (hkey : ':' ∉ p.1.toList) (h : putRow m (line p) = .ok m') :
    m' = m.put p.1 (upToColon p.2) := by
  have hmem : ':' ∈ (line p).toList := by
    rw [toList_line]
    exact List.mem_append_right _ List.mem_cons_self
  have hparts := split_isPrefix hmem
  rw [toList_line, List.splitOn_append_cons_self_of_not_mem hkey] at hparts
  obtain ⟨first, rest, hsplit⟩ := List.exists_cons_of_ne_nil (List.splitOn_ne_nil ':' p.2.toList)
  have hfirst : first = p.2.toList.takeWhile (· ≠ ':') := by
    have hhead := head?_splitOn ':' p.2.toList
    rw [hsplit] at hhead
    exact Option.some.inj hhead
  rw [hsplit, List.map_cons, List.map_cons, String.ofList_toList] at hparts
  unfold putRow at h
  split at h
  · rename_i key value more hline
    rw [hline, List.cons_prefix_cons, List.cons_prefix_cons] at hparts
    obtain ⟨rfl, rfl, -⟩ := hparts
    rw [← Except.ok.inj h, hfirst]
    rfl
  · cases h
  · cases h

theorem putRow_of_not_mem (m : LinkedHashMap String String) {p : String × String}
    (hkey : ':' ∉ p.1.toList) (hne : p.2 ≠ "") (hvalue : ':' ∉ p.2.toList) :
    putRow m (line p) = .ok (m.put p.1 p.2) := by
  have hsplit : split ':' (line p) = [p.1, p.2] := by
    unfold line
    rw [split_join_iff (by simp)]
    refine ⟨fun s hs => ?_, .inr (by simpa using hne)⟩
    rcases List.mem_cons.mp hs with rfl | hs
    · exact hkey
    · rwa [List.mem_singleton.mp hs]
  unfold putRow
  rw [hsplit]

/-! ### The lines -/

theorem split_lines {pairs : List (String × String)} (h : Listed pairs) :
    split '\n' (lines pairs) = pairs.map line := by
  unfold lines
  rw [split_join_iff (by simpa using h.nonempty)]
  refine ⟨fun s hs => ?_, .inr fun hlast => ?_⟩
  · obtain ⟨p, hp, rfl⟩ := List.mem_map.mp hs
    rw [toList_line, List.mem_append, List.mem_cons]
    rintro (hmem | hmem | hmem)
    · exact (h.key p hp).2 hmem
    · exact absurd hmem (by decide)
    · exact (h.value p hp).2 hmem
  · obtain ⟨p, -, hp⟩ := List.mem_map.mp (List.mem_of_getLast? hlast)
    have hempty := congrArg String.toList hp
    rw [toList_line] at hempty
    simp at hempty

/-- What the lines put, if none throws. -/
theorem of_foldlM {pairs : List (String × String)} {m m' : LinkedHashMap String String}
    (hkey : ∀ p ∈ pairs, ':' ∉ p.1.toList) (h : (pairs.map line).foldlM putRow m = .ok m') :
    m' = m.putAll (pairs.map fun p => (p.1, upToColon p.2)) := by
  induction pairs generalizing m with
  | nil => exact (Except.ok.inj h).symm
  | cons p pairs ih =>
    obtain ⟨hp, hpairs⟩ := List.forall_mem_cons.mp hkey
    rw [List.map_cons, List.foldlM_cons] at h
    rcases hrow : putRow m (line p) with e | m1
    · rw [hrow] at h
      cases h
    · rw [hrow] at h
      rw [ih hpairs h, of_putRow hp hrow]
      rfl

theorem foldlM_of_not_mem {pairs : List (String × String)} {m : LinkedHashMap String String}
    (h : ∀ p ∈ pairs, ':' ∉ p.1.toList ∧ p.2 ≠ "" ∧ ':' ∉ p.2.toList) :
    (pairs.map line).foldlM putRow m = .ok (m.putAll pairs) := by
  induction pairs generalizing m with
  | nil => rfl
  | cons p pairs ih =>
    obtain ⟨⟨hkey, hne, hvalue⟩, hpairs⟩ := List.forall_mem_cons.mp h
    rw [List.map_cons, List.foldlM_cons, putRow_of_not_mem m hkey hne hvalue]
    exact ih hpairs

/-- **The round trip** of the lines. -/
theorem convert_lines_iff {pairs : List (String × String)} (h : Listed pairs) :
    Converted pairs ↔ ∀ p ∈ pairs, ':' ∉ p.2.toList := by
  unfold Converted convert
  rw [split_lines h]
  constructor
  · rintro ⟨m, hm, hentries⟩
    have hput := of_foldlM (fun p hp => (h.key p hp).1) hm
    have hnodup : ((pairs.map fun p => (p.1, upToColon p.2)).map Prod.fst).Nodup := by
      rw [List.map_map]
      exact h.nodup
    rw [hput, LinkedHashMap.entries_putAll_empty hnodup] at hentries
    have hself : (pairs.map fun p => (p.1, upToColon p.2)) = pairs.map id := by
      rw [hentries, List.map_id]
    intro p hp
    exact upToColon_eq_iff.mp (congrArg Prod.snd (List.map_inj_left.mp hself p hp))
  · intro hvalues
    refine ⟨_, foldlM_of_not_mem fun p hp => ⟨(h.key p hp).1, (h.value p hp).1, hvalues p hp⟩, ?_⟩
    exact LinkedHashMap.entries_putAll_empty h.nodup

theorem listed_login : Listed [("/login", "anon"), ("/**", "authc")] where
  nonempty := by decide
  nodup := by decide
  key := by decide
  value := by decide

theorem converted_login : Converted [("/login", "anon"), ("/**", "authc")] :=
  (convert_lines_iff listed_login).mpr (by decide)

/-- A permission string is cut at its colon. -/
theorem not_converted : ¬ ∀ pairs, Listed pairs → Converted pairs := by
  intro h
  have hlisted : Listed [("/user/add", "perms[user:add]")] := by
    constructor <;> decide
  obtain ⟨m, hm, hentries⟩ := h _ hlisted
  have hcut : convert (lines [("/user/add", "perms[user:add]")]) =
      .ok (LinkedHashMap.empty.put "/user/add" "perms[user") := by decide
  rw [hcut, Except.ok.injEq] at hm
  rw [← hm] at hentries
  exact absurd hentries (by decide)

end StringToMapConverter
end CloudManager
