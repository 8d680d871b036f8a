/-
# The load balancers of the RPC client

Five strategies choose a server from the map of servers with their weights. The
polling ones keep a position from call to call, which another map may find past
its end; the random ones draw a place, and `IpHashRibbon` takes the remainder of
the client's `hashCode`, which Java gives the sign of the hash code.

`fair`: from every position reached, a round of calls over one map takes each
server as often as its weight, or once. `selects_iff`: every call with weighted
servers returns one of them, unless a negative hash code leaves a remainder.

An `ArrayList` has less than 2^31 elements. While the map has less servers, and the
weights' sum is less, the position of Java's type `int` does not overflow
(`poll_le`, `positions`); both theorems say so.
-/
import Mathlib
import CloudManager.Commons.Discovery
import CloudManager.Lib.Rotation
import CloudManager.Lib.Sequences

namespace CloudManager
namespace Ribbons

open Rotation Runs

/-- Servers in the order of the map's iteration; a weight may be null. -/
abbrev IpMap (K : Type*) := LinkedHashMap K (Option Int32)

inductive Exception
  | nullPointer
  | indexOutOfBounds
  | illegalArgument
  | arithmetic
  deriving DecidableEq, Repr

variable {K : Type*}

/-! ### The strategies -/

/-- `iplist.get(pos)`. -/
def get (iplist : List K) (pos : Int) : Except Exception K :=
  match if pos < 0 then none else iplist[pos.toNat]? with
  | some serverName => .ok serverName
  | none => .error .indexOutOfBounds

/-- The turn of both polling ribbons: a server, and the position afterwards. -/
def poll (iplist : List K) (pos : ℕ) : Except Exception K × ℕ :=
  let pos := if iplist.length ≤ pos then 0 else pos
  match get iplist pos with
  | .ok serverName => (.ok serverName, pos + 1)
  | .error e => (.error e, pos)

/-- Each server as often as its weight; a null weight throws. -/
def ipArrayList (ipMap : IpMap K) : Except Exception (List K) :=
  match ipMap.entries.mapM fun e => e.2.map fun weight => List.replicate weight.toInt.toNat e.1 with
  | some servers => .ok servers.flatten
  | none => .error .nullPointer

/-- `random.nextInt(bound)`, where `draw` stands for what is drawn: it is any number below
the bound, and the bound is positive. -/
def nextInt (bound draw : ℕ) : Except Exception ℕ :=
  if bound = 0 then .error .illegalArgument else .ok (draw % bound)

/-- `String.hashCode`, of UTF-16 units. -/
def hashCode (s : List UInt16) : Int32 :=
  s.foldl (fun h c => 31 * h + Int32.ofNat c.toNat) 0

namespace PollRibbon

def getIpAddress (pos : ℕ) (ipMap : IpMap K) : Except Exception K × ℕ := poll ipMap.keys pos

end PollRibbon

namespace PollWeightRibbon

def getIpAddress (pos : ℕ) (ipMap : IpMap K) : Except Exception K × ℕ :=
  match ipArrayList ipMap with
  | .ok servers => poll servers pos
  | .error e => (.error e, pos)

end PollWeightRibbon

namespace RandomRibbon

def getIpAddress (ipMap : IpMap K) (draw : ℕ) : Except Exception K :=
  (nextInt ipMap.keys.length draw).bind fun pos => get ipMap.keys pos

end RandomRibbon

namespace RandomWeightRibbon

def getIpAddress (ipMap : IpMap K) (draw : ℕ) : Except Exception K :=
  (ipArrayList ipMap).bind fun servers =>
    (nextInt servers.length draw).bind fun pos => get servers pos

end RandomWeightRibbon

namespace IpHashRibbon

def getIpAddress (ipMap : IpMap K) (clientIp : List UInt16) : Except Exception K :=
  if ipMap.keys.isEmpty then .error .arithmetic
  else get ipMap.keys ((hashCode clientIp).toInt.tmod ipMap.keys.length)

end IpHashRibbon

inductive Ribbon
  | poll
  | pollWeight
  | random
  | randomWeight
  | ipHash
  deriving DecidableEq, Repr

/-- The arguments of a call, and what `Random` draws in it. -/
structure Call (K : Type*) where
  ipMap : IpMap K
  clientIp : List UInt16 := []
  draw : ℕ := 0

/-- A call, and the position after it; only the polling ribbons have one. -/
def Ribbon.getIpAddress (ribbon : Ribbon) (pos : ℕ) (c : Call K) : Except Exception K × ℕ :=
  match ribbon with
  | .poll => PollRibbon.getIpAddress pos c.ipMap
  | .pollWeight => PollWeightRibbon.getIpAddress pos c.ipMap
  | .random => (RandomRibbon.getIpAddress c.ipMap c.draw, pos)
  | .randomWeight => (RandomWeightRibbon.getIpAddress c.ipMap c.draw, pos)
  | .ipHash => (IpHashRibbon.getIpAddress c.ipMap c.clientIp, pos)

/-! ### Turns -/

/-- What a call answers. -/
def answer : Option K → Except Exception K
  | some serverName => .ok serverName
  | none => .error .indexOutOfBounds

/-- A polling ribbon takes turns along its list. -/
theorem poll_eq (iplist : List K) (pos : ℕ) :
    poll iplist pos = (answer (turn iplist pos).1, (turn iplist pos).2) := by
  have hget : get iplist (place iplist pos : ℕ) = answer iplist[place iplist pos]? := by
    unfold get
    rw [if_neg (by omega), Int.toNat_natCast]
    cases iplist[place iplist pos]? <;> rfl
  show (match get iplist (place iplist pos : ℕ) with
    | .ok serverName => ((Except.ok serverName : Except Exception K), place iplist pos + 1)
    | .error e => (.error e, place iplist pos)) = _
  rw [hget]
  unfold turn
  cases iplist[place iplist pos]? <;> rfl

/-- The position that a turn leaves is one of the list, or its end. -/
theorem poll_le (iplist : List K) (pos : ℕ) : (poll iplist pos).2 ≤ iplist.length := by
  rw [poll_eq]
  exact turn_le iplist pos

/-- The ribbon that the discovery services keep is the plain one. -/
theorem pollRibbon_eq (pos : ℕ) {ipMap : IpMap String} {m : LinkedHashMap String ℕ}
    (h : m.keys = ipMap.keys) : PollRibbon.getIpAddress pos ipMap =
      (answer (Discovery.pollRibbon pos m).1, (Discovery.pollRibbon pos m).2) := by
  have hturn : Discovery.pollRibbon pos m = turn m.keys pos := by
    unfold Discovery.pollRibbon turn place
    dsimp only
    generalize m.keys[if m.keys.length ≤ pos then 0 else pos]? = found
    cases found <;> rfl
  rw [hturn, h]
  exact poll_eq _ pos

/-- Calls one after the other over the same map. -/
def calls (getIpAddress : ℕ → Except Exception K × ℕ) : ℕ → ℕ → List (Except Exception K)
  | 0, _ => []
  | n + 1, pos => (getIpAddress pos).1 :: calls getIpAddress n (getIpAddress pos).2

theorem calls_poll (iplist : List K) (n pos : ℕ) :
    calls (poll iplist) n pos = (turns iplist n pos).map answer := by
  induction n generalizing pos with
  | zero => rfl
  | succ n ih =>
    show (poll iplist pos).1 :: calls (poll iplist) n (poll iplist pos).2 = _
    rw [poll_eq, ih]
    rfl

/-- A round takes the list, in some order. -/
theorem exists_round (iplist : List K) (pos : ℕ) : ∃ servers : List K, servers.Perm iplist ∧
    calls (poll iplist) iplist.length pos = servers.map .ok := by
  refine ⟨iplist.rotate (place iplist pos), List.rotate_perm _ _, ?_⟩
  rw [calls_poll, turns_eq_rotate, List.map_map]
  rfl

/-! ### Weights -/

/-- How often a server is listed for its weight. -/
def copies (weight : Option Int32) : ℕ := weight.elim 0 fun w => w.toInt.toNat

def totalWeight (ipMap : IpMap K) : ℕ := (ipMap.entries.map fun e => copies e.2).sum

/-- No weight is null or negative. -/
def Weighed (ipMap : IpMap K) : Prop := ∀ e ∈ ipMap.entries, ∃ w : Int32, e.2 = some w ∧ 0 ≤ w

/-- The servers, each as often as its weight. -/
def expanded (ipMap : IpMap K) : List K :=
  ipMap.entries.flatMap fun e => List.replicate (copies e.2) e.1

/-- A weight that is not null gives as many copies. -/
theorem replicate_of_some {e : K × Option Int32} {w : Int32} (h : e.2 = some w) :
    (e.2.map fun weight => List.replicate weight.toInt.toNat e.1) =
      some (List.replicate (copies e.2) e.1) := by
  rw [h]
  rfl

theorem Weighed.ipArrayList_eq {ipMap : IpMap K} (h : Weighed ipMap) :
    ipArrayList ipMap = .ok (expanded ipMap) := by
  have hmap : (ipMap.entries.mapM fun e => e.2.map fun weight =>
      List.replicate weight.toInt.toNat e.1) =
        some (ipMap.entries.map fun e => List.replicate (copies e.2) e.1) := by
    rw [Sequences.mapM_eq_some_iff, List.map_map]
    refine List.map_congr_left fun e he => ?_
    obtain ⟨w, hw, -⟩ := h e he
    exact replicate_of_some hw
  unfold ipArrayList
  rw [hmap]
  rfl

theorem length_expanded (ipMap : IpMap K) : (expanded ipMap).length = totalWeight ipMap := by
  unfold expanded
  rw [List.length_flatMap]
  simp only [List.length_replicate]
  rfl

/-- The list is the expanded one, unless a null weight throws. -/
theorem eq_expanded {ipMap : IpMap K} {servers : List K} (h : ipArrayList ipMap = .ok servers) :
    servers = expanded ipMap := by
  unfold ipArrayList at h
  split at h
  · next lists hlists =>
    obtain rfl := Except.ok.inj h
    rw [Sequences.mapM_eq_some_iff] at hlists
    have hmap : ipMap.entries.map (fun e => e.2.map fun weight =>
        List.replicate weight.toInt.toNat e.1) =
          (ipMap.entries.map fun e => List.replicate (copies e.2) e.1).map some := by
      rw [List.map_map]
      refine List.map_congr_left fun e he => ?_
      have hmem := List.mem_map_of_mem (f := fun e : K × Option Int32 => e.2.map fun weight =>
        List.replicate weight.toInt.toNat e.1) he
      rw [hlists] at hmem
      obtain ⟨l, -, hl⟩ := List.mem_map.mp hmem
      obtain ⟨w, hw, -⟩ := Option.map_eq_some_iff.mp hl.symm
      exact replicate_of_some hw
    rw [List.map_injective_iff.mpr (Option.some_injective _) (hlists.symm.trans hmap)]
    rfl
  · cases h

/-- A key is listed for its own weight. -/
theorem count_expanded [DecidableEq K] (ipMap : IpMap K) {e : K × Option Int32}
    (h : e ∈ ipMap.entries) : (expanded ipMap).count e.1 = copies e.2 := by
  obtain ⟨es, hnodup⟩ := ipMap
  show (es.flatMap _).count e.1 = _
  induction es with
  | nil => simp at h
  | cons d es ih =>
    rw [List.map_cons, List.nodup_cons] at hnodup
    rw [List.flatMap_cons, List.count_append, List.count_replicate]
    rcases List.mem_cons.mp h with rfl | hmem
    · have hout : (es.flatMap fun e => List.replicate (copies e.2) e.1).count e.1 = 0 := by
        rw [List.count_eq_zero]
        intro hin
        obtain ⟨d, hd, hd'⟩ := List.mem_flatMap.mp hin
        rw [List.eq_of_mem_replicate hd'] at hnodup
        exact hnodup.1 (List.mem_map_of_mem hd)
      rw [hout]
      simp
    · have hne : d.1 ≠ e.1 := fun he => hnodup.1 (he ▸ List.mem_map_of_mem hmem)
      rw [ih hnodup.2 hmem]
      simp [hne]

/-! ### Fairness -/

/-- **Round robin.** Whatever position the earlier calls have left, a round of the weighted
ribbon takes each server as often as its weight, and a round of the plain one takes it
once. With less than 2^31 places in the list, no call leaves a position that an `int`
does not hold. -/
theorem fair [DecidableEq K] (ipMap : IpMap K) (pos : ℕ) :
    (Weighed ipMap → 0 < totalWeight ipMap →
      (∃ servers : List K, calls (PollWeightRibbon.getIpAddress · ipMap) (totalWeight ipMap) pos =
          servers.map .ok ∧
        ∀ e ∈ ipMap.entries, ∀ w : Int32, e.2 = some w → (servers.count e.1 : Int) = w.toInt) ∧
      (totalWeight ipMap < 2 ^ 31 →
        ∀ pos, (PollWeightRibbon.getIpAddress pos ipMap).2 < 2 ^ 31)) ∧
    (∃ servers : List K, calls (PollRibbon.getIpAddress · ipMap) ipMap.keys.length pos =
        servers.map .ok ∧ ∀ k ∈ ipMap.keys, servers.count k = 1) ∧
    (ipMap.keys.length < 2 ^ 31 → ∀ pos, (PollRibbon.getIpAddress pos ipMap).2 < 2 ^ 31) := by
  refine ⟨?_, ?_, fun hbound pos => lt_of_le_of_lt (poll_le _ pos) hbound⟩
  · intro hweighed _
    obtain ⟨servers, hperm, hcalls⟩ := exists_round (expanded ipMap) pos
    have hribbon : (PollWeightRibbon.getIpAddress · ipMap) = poll (expanded ipMap) := by
      funext pos
      unfold PollWeightRibbon.getIpAddress
      rw [hweighed.ipArrayList_eq]
    rw [length_expanded] at hcalls
    refine ⟨⟨servers, by rw [hribbon, hcalls], fun e he w hw => ?_⟩, fun hbound pos => ?_⟩
    · obtain ⟨w', hw', hnonneg⟩ := hweighed e he
      obtain rfl : w = w' := Option.some.inj (hw.symm.trans hw')
      have hle : 0 ≤ w.toInt := Int32.le_iff_toInt_le.mp hnonneg
      rw [hperm.count_eq, count_expanded ipMap he, hw]
      exact Int.toNat_of_nonneg hle
    · have hle := poll_le (expanded ipMap) pos
      rw [length_expanded] at hle
      rw [show PollWeightRibbon.getIpAddress pos ipMap = poll (expanded ipMap) pos from
        congrFun hribbon pos]
      exact lt_of_le_of_lt hle hbound
  · obtain ⟨servers, hperm, hcalls⟩ := exists_round ipMap.keys pos
    refine ⟨servers, hcalls, fun k hk => ?_⟩
    rw [hperm.count_eq]
    exact List.count_eq_one_of_mem ipMap.nodup hk

/-- Two servers of weights 2 and 1, from a position past the end. -/
def twoServers : IpMap String := ⟨[("10.0.0.1:80", some 2), ("10.0.0.2:80", some 1)], by decide⟩

theorem fair_twoServers : (∃ servers : List String,
    calls (PollWeightRibbon.getIpAddress · twoServers) 3 7 = servers.map .ok ∧
      (servers.count "10.0.0.1:80" : Int) = 2) ∧
    ∀ pos, (PollWeightRibbon.getIpAddress pos twoServers).2 < 2 ^ 31 := by
  have hweighed : Weighed twoServers := by
    intro e he
    rcases List.mem_cons.mp he with rfl | he
    · exact ⟨2, rfl, by decide⟩
    · rw [List.mem_singleton.mp he]
      exact ⟨1, rfl, by decide⟩
  obtain ⟨⟨servers, hcalls, hcount⟩, hpos⟩ := (fair twoServers 7).1 hweighed (by decide)
  exact ⟨⟨servers, hcalls, hcount ("10.0.0.1:80", some 2) (by decide) 2 rfl⟩, hpos (by decide)⟩

/-! ### Selecting a registered server -/

/-- The map has a server, and every weight is at least 1. -/
def Call.Weighted (c : Call K) : Prop :=
  c.ipMap.keys ≠ [] ∧ ∀ e ∈ c.ipMap.entries, ∃ w : Int32, e.2 = some w ∧ 1 ≤ w

/-- The call returns a key of its map. -/
def Selects (ribbon : Ribbon) (pos : ℕ) (c : Call K) : Prop :=
  ∃ k ∈ c.ipMap.keys, (ribbon.getIpAddress pos c).1 = .ok k

/-- The remainder of the hash code is no negative number. -/
def Call.Hashed (c : Call K) : Prop :=
  0 ≤ (hashCode c.clientIp).toInt ∨ (c.ipMap.keys.length : Int) ∣ (hashCode c.clientIp).toInt

def next (ribbon : Ribbon) (pos : ℕ) (c : Call K) : ℕ := (ribbon.getIpAddress pos c).2

theorem exists_poll {iplist : List K} (h : iplist ≠ []) (pos : ℕ) :
    ∃ k ∈ iplist, (poll iplist pos).1 = .ok k := by
  obtain ⟨k, hk, hturn⟩ := mem_of_turn h pos
  exact ⟨k, hk, by rw [poll_eq, hturn]; rfl⟩

theorem exists_get {iplist : List K} {n : Int} (h0 : 0 ≤ n) (hlt : n < iplist.length) :
    ∃ k ∈ iplist, get iplist n = .ok k := by
  have hlt' : n.toNat < iplist.length := by omega
  refine ⟨iplist[n.toNat], List.getElem_mem hlt', ?_⟩
  unfold get
  rw [if_neg (by omega), List.getElem?_eq_getElem hlt']

theorem exists_draw {iplist : List K} (h : iplist ≠ []) (draw : ℕ) :
    ∃ k ∈ iplist, ((nextInt iplist.length draw).bind fun pos => get iplist pos) = .ok k := by
  have hpos := List.length_pos_of_ne_nil h
  have hlt := Nat.mod_lt draw hpos
  have hget : ∃ k ∈ iplist, get iplist (draw % iplist.length : ℕ) = .ok k :=
    exists_get (by omega) (by omega)
  obtain ⟨k, hk, hget⟩ := hget
  refine ⟨k, hk, ?_⟩
  unfold nextInt
  rw [if_neg (by omega)]
  exact hget

theorem Call.Weighted.weighed {c : Call K} (h : c.Weighted) : Weighed c.ipMap := by
  intro e he
  obtain ⟨w, hw, hle⟩ := h.2 e he
  have hpos : 1 ≤ w.toInt := Int32.le_iff_toInt_le.mp hle
  exact ⟨w, hw, Int32.le_iff_toInt_le.mpr (show 0 ≤ w.toInt by omega)⟩

/-- Every server is listed, and nothing else. -/
theorem Call.Weighted.servers {c : Call K} (h : c.Weighted) : ∃ servers : List K,
    ipArrayList c.ipMap = .ok servers ∧ servers ≠ [] ∧ ∀ k ∈ servers, k ∈ c.ipMap.keys := by
  refine ⟨expanded c.ipMap, h.weighed.ipArrayList_eq, ?_, fun k hk => ?_⟩
  · obtain ⟨k, hk⟩ := List.exists_mem_of_ne_nil _ h.1
    obtain ⟨e, he, -⟩ := List.mem_map.mp hk
    obtain ⟨w, hw, hle⟩ := h.2 e he
    have hpos : 1 ≤ w.toInt := Int32.le_iff_toInt_le.mp hle
    have hcopies : copies e.2 ≠ 0 := by
      rw [hw]
      show w.toInt.toNat ≠ 0
      omega
    exact List.ne_nil_of_mem (List.mem_flatMap.mpr ⟨e, he, List.mem_replicate.mpr ⟨hcopies, rfl⟩⟩)
  · obtain ⟨e, he, hrep⟩ := List.mem_flatMap.mp hk
    rw [List.eq_of_mem_replicate hrep]
    exact List.mem_map_of_mem he

theorem ipHash_iff {ipMap : IpMap K} (h : ipMap.keys ≠ []) (clientIp : List UInt16) :
    (∃ k ∈ ipMap.keys, IpHashRibbon.getIpAddress ipMap clientIp = .ok k) ↔
      0 ≤ (hashCode clientIp).toInt ∨ (ipMap.keys.length : Int) ∣ (hashCode clientIp).toInt := by
  have hpos := List.length_pos_of_ne_nil h
  have hget : IpHashRibbon.getIpAddress ipMap clientIp =
      get ipMap.keys ((hashCode clientIp).toInt.tmod ipMap.keys.length) := by
    unfold IpHashRibbon.getIpAddress
    rw [if_neg (by simpa using h)]
  rw [hget]
  generalize (hashCode clientIp).toInt = code
  have hlt : code.tmod ipMap.keys.length < ipMap.keys.length := Int.tmod_lt_of_pos _ (by omega)
  constructor
  · rintro ⟨k, -, hk⟩
    by_contra hcon
    obtain ⟨hneg, hndvd⟩ := not_or.mp hcon
    have hle : 0 ≤ (-code).tmod ipMap.keys.length := Int.tmod_nonneg _ (by omega)
    rw [Int.neg_tmod] at hle
    have hne : code.tmod ipMap.keys.length ≠ 0 := fun h0 => hndvd (Int.dvd_of_tmod_eq_zero h0)
    unfold get at hk
    rw [if_pos (by omega)] at hk
    cases hk
  · rintro (h0 | hdvd)
    · exact exists_get (Int.tmod_nonneg _ h0) hlt
    · rw [Int.tmod_eq_zero_of_dvd hdvd] at hlt ⊢
      exact exists_get (Int.le_refl 0) hlt

theorem step_iff (ribbon : Ribbon) (pos : ℕ) (c : Call K) (h : c.Weighted) :
    Selects ribbon pos c ↔ (ribbon = .ipHash → c.Hashed) := by
  obtain ⟨servers, hlist, hne, hkeys⟩ := h.servers
  cases ribbon with
  | poll => exact iff_of_true (exists_poll h.1 pos) nofun
  | pollWeight =>
    refine iff_of_true ?_ nofun
    obtain ⟨k, hk, hpoll⟩ := exists_poll hne pos
    refine ⟨k, hkeys k hk, ?_⟩
    show (PollWeightRibbon.getIpAddress pos c.ipMap).1 = _
    unfold PollWeightRibbon.getIpAddress
    rw [hlist]
    exact hpoll
  | random => exact iff_of_true (exists_draw h.1 c.draw) nofun
  | randomWeight =>
    refine iff_of_true ?_ nofun
    obtain ⟨k, hk, hdraw⟩ := exists_draw hne c.draw
    refine ⟨k, hkeys k hk, ?_⟩
    show RandomWeightRibbon.getIpAddress c.ipMap c.draw = _
    unfold RandomWeightRibbon.getIpAddress
    rw [hlist]
    exact hdraw
  | ipHash =>
    rw [show (Ribbon.ipHash = .ipHash → c.Hashed) ↔ c.Hashed from ⟨fun hc => hc rfl, fun hc _ => hc⟩]
    exact ipHash_iff h.1 c.clientIp

/-- The lists that a ribbon makes of the map are no longer than an `ArrayList` can be. -/
def Call.Listed (c : Call K) : Prop := c.ipMap.keys.length < 2 ^ 31 ∧ totalWeight c.ipMap < 2 ^ 31

theorem next_lt (ribbon : Ribbon) {pos : ℕ} (hpos : pos < 2 ^ 31) {c : Call K} (h : c.Listed) :
    next ribbon pos c < 2 ^ 31 := by
  cases ribbon with
  | poll => exact lt_of_le_of_lt (poll_le _ pos) h.1
  | pollWeight =>
    show (PollWeightRibbon.getIpAddress pos c.ipMap).2 < 2 ^ 31
    unfold PollWeightRibbon.getIpAddress
    split
    · next servers hservers =>
      refine lt_of_le_of_lt (poll_le servers pos) ?_
      rw [eq_expanded hservers, length_expanded]
      exact h.2
    -- a null weight throws before the position is touched
    · exact hpos
  | random => exact hpos
  | randomWeight => exact hpos
  | ipHash => exact hpos

/-- Along every run the position stays one that an `int` holds. -/
theorem positions (ribbon : Ribbon) {calls : List (Call K)} (h : ∀ c ∈ calls, c.Listed) :
    ∀ pos < 2 ^ 31, Along (next ribbon) (fun pos c => next ribbon pos c < 2 ^ 31) pos calls := by
  induction calls with
  | nil => exact fun _ _ => trivial
  | cons c calls ih =>
    intro pos hpos
    obtain ⟨hc, hcalls⟩ := List.forall_mem_cons.mp h
    have hnext := next_lt ribbon hpos hc
    exact ⟨hnext, ih hcalls _ hnext⟩

/-- **Selection.** Along every run of calls with weighted servers each call returns a key of
its map, if and only if `IpHashRibbon` is asked for no client whose hash code is negative and
no multiple of the number of servers. The position stays an `int` while the lists are no
longer than an `ArrayList` can be. -/
theorem selects_iff (ribbon : Ribbon) (calls : List (Call K)) :
    (Along (next ribbon) (fun pos c => c.Weighted → Selects ribbon pos c) 0 calls ↔
      ∀ c ∈ calls, c.Weighted → ribbon = .ipHash → c.Hashed) ∧
    ((∀ c ∈ calls, c.Listed) →
      Along (next ribbon) (fun pos c => next ribbon pos c < 2 ^ 31) 0 calls) := by
  refine ⟨?_, fun h => positions ribbon h 0 (by decide)⟩
  have hconst : Along (next ribbon) (fun _ (c : Call K) => c.Weighted → ribbon = .ipHash → c.Hashed)
      0 calls ↔ ∀ c ∈ calls, c.Weighted → ribbon = .ipHash → c.Hashed := along_const 0 calls
  rw [← hconst]
  refine along_iff (I := fun _ => True) (fun pos c _ => ?_) (fun _ _ _ _ => trivial) calls trivial
  exact forall_congr' fun h => step_iff ribbon pos c h

/-- A client at `192.168.1.100`, whose hash code is negative and odd, and two servers. -/
def oddClient : Call String where
  ipMap := ⟨[("10.0.0.1:80", some 1), ("10.0.0.2:80", some 1)], by decide⟩
  clientIp := [49, 57, 50, 46, 49, 54, 56, 46, 49, 46, 49, 48, 48]

theorem not_selects : ¬ ∀ (ribbon : Ribbon) (calls : List (Call String)),
    Along (next ribbon) (fun pos c => c.Weighted → Selects ribbon pos c) 0 calls := by
  intro h
  have hweighted : oddClient.Weighted := by
    refine ⟨by decide, fun e he => ⟨1, ?_, by decide⟩⟩
    rcases List.mem_cons.mp he with rfl | he
    · rfl
    · rw [List.mem_singleton.mp he]
  have hthrows : (Ribbon.ipHash.getIpAddress 0 oddClient).1 = .error .indexOutOfBounds := by decide
  obtain ⟨k, -, hk⟩ := (h .ipHash [oddClient]).1 hweighted
  rw [hthrows] at hk
  cases hk

end Ribbons
end CloudManager
