/-
# The ids of a node

`UUID.generate` writes an id from the node's address, the time its class was loaded,
the upper and the lower half of the time, read one after the other, and a counter
that all threads of the node share. The threads interleave freely, and the clock may
be set.

`same_id_iff`: two calls of a run give one id exactly if what each read as the upper
half agrees, what each read as the lower half agrees, and 2^15 calls or a multiple
of it were counted from one to the other. `idOf_inj`: ids of nodes with different
addresses, or loaded in different stretches of 2^8 milliseconds, are different.
-/
import Mathlib.Logic.Function.Basic
import Mathlib.Data.Nat.Bitwise
import Mathlib.Data.List.Basic
import CloudManager.Lib.Numerals

namespace CloudManager
namespace Uuid

/-! ### The parts of an id -/

/-- The address `InetAddress` gives, four bytes of it. -/
def IptoInt (bytes : List (BitVec 8)) : BitVec 32 :=
  (bytes.take 4).foldl (fun result b => (result <<< 8) - BitVec.ofInt 32 (-128) + b.signExtend 32) 0

/-- `(int) (currentTimeMillis() >>> 8)`. -/
def getJVM (millis : ℕ) : BitVec 32 := BitVec.ofNat 32 (millis >>> 8)

def getHiTime (millis : ℕ) : BitVec 16 := BitVec.ofNat 16 (millis >>> 32)

def getLoTime (millis : ℕ) : BitVec 32 := BitVec.ofNat 32 millis

/-- What a call gets of the counter, and what it leaves. -/
def getCount (counter : BitVec 16) : BitVec 16 × BitVec 16 :=
  let counter := if counter.slt 0 then 0 else counter
  (counter, counter + 1)

def toHexString (n : BitVec 32) : List Char := Nat.toDigits 16 n.toNat

/-- `buf.replace(buf.length() - s.length(), buf.length(), s)`; it throws for a start below 0. -/
def replaceEnd (buf s : List Char) : Option (List Char) :=
  if s.length ≤ buf.length then some (buf.take (buf.length - s.length) ++ s) else none

/-- `format(int)`. -/
def format (intval : BitVec 32) : Option (List Char) :=
  replaceEnd "00000000".toList (toHexString intval)

/-- `format(short)`: the short becomes an int. -/
def formatShort (shortval : BitVec 16) : Option (List Char) :=
  replaceEnd "0000".toList (toHexString (shortval.signExtend 32))

/-! ### The threads of a node -/

structure Node where
  IP : BitVec 32
  JVM : BitVec 32

/-- A call that has returned: the times it has read, and its id. -/
structure Call where
  hiTime : ℕ
  loTime : ℕ
  id : List Char
  deriving DecidableEq, Repr

/-- Where a thread is in `generate`, with the text so far. -/
inductive Pc
  | idle
  | hiTime (hi : ℕ) (buf : List Char)
  | loTime (hi lo : ℕ) (buf : List Char)
  deriving DecidableEq, Repr

structure State (T : Type*) where
  now : ℕ := 0
  counter : BitVec 16 := 0
  pc : T → Pc := fun _ => .idle
  calls : List Call := []

inductive Event (T : Type*)
  /-- The clock is read as `millis` from now on. -/
  | clock (millis : ℕ)
  | hiTime (t : T)
  | loTime (t : T)
  | count (t : T)
  deriving DecidableEq, Repr

variable {T : Type*} [DecidableEq T]

def step (node : Node) (s : State T) : Event T → State T
  | .clock millis => { s with now := millis }
  | .hiTime t =>
    match s.pc t with
    | .idle =>
      match format node.IP, format node.JVM, formatShort (getHiTime s.now) with
      | some a, some b, some c =>
        { s with pc := Function.update s.pc t (.hiTime s.now (a ++ b ++ c)) }
      | _, _, _ => s
    | _ => s
  | .loTime t =>
    match s.pc t with
    | .hiTime hi buf =>
      match format (getLoTime s.now) with
      | some d => { s with pc := Function.update s.pc t (.loTime hi s.now (buf ++ d)) }
      | none => { s with pc := Function.update s.pc t .idle }
    | _ => s
  | .count t =>
    match s.pc t with
    | .loTime hi lo buf =>
      match formatShort (getCount s.counter).1 with
      | some e =>
        { s with
          counter := (getCount s.counter).2
          pc := Function.update s.pc t .idle
          calls := s.calls ++ [⟨hi, lo, buf ++ e⟩] }
      | none =>
        { s with counter := (getCount s.counter).2, pc := Function.update s.pc t .idle }
    | _ => s

def run (node : Node) (events : List (Event T)) : State T := events.foldl (step node) {}

/-! ### Numerals of a fixed width -/

/-- The numeral a part is written as. -/
def field (w n : ℕ) : List Char := (Nat.toDigits 16 n).leftpad w '0'

theorem replaceEnd_zeros {w n : ℕ} (hw : 0 < w) (h : n < 16 ^ w) :
    replaceEnd (List.replicate w '0') (Nat.toDigits 16 n) = some (field w n) := by
  have hlen := (Nat.length_toDigits_le_iff (by decide) hw).mpr h
  unfold replaceEnd field List.leftpad
  rw [List.length_replicate, if_pos hlen, List.take_replicate, Nat.min_eq_left (Nat.sub_le _ _)]

theorem format_eq (n : BitVec 32) : format n = some (field 8 n.toNat) := by
  have hlt : n.toNat < 16 ^ 8 := n.isLt
  exact replaceEnd_zeros (by decide) hlt

/-- A short that is not negative is written in four digits. -/
theorem formatShort_eq {n : BitVec 16} (h : n.toNat < 2 ^ 15) :
    formatShort n = some (field 4 n.toNat) := by
  have hmsb : n.msb = false := by
    rw [BitVec.msb_eq_false_iff_two_mul_lt]
    omega
  have hext : (n.signExtend 32).toNat = n.toNat := by
    rw [BitVec.toNat_signExtend, hmsb, BitVec.toNat_setWidth]
    simp only [Bool.false_eq_true, if_false]
    omega
  have hlt : n.toNat < 16 ^ 4 := by omega
  unfold formatShort toHexString
  rw [hext]
  exact replaceEnd_zeros (by decide) hlt

/-- A negative short throws. -/
theorem formatShort_none {n : BitVec 16} (h : 2 ^ 15 ≤ n.toNat) : formatShort n = none := by
  have hmsb : n.msb = true := by
    rw [BitVec.msb_eq_true_iff_two_mul_ge]
    omega
  have hext : 2 ^ 31 ≤ (n.signExtend 32).toNat := by
    rw [BitVec.toNat_signExtend, hmsb, if_pos rfl]
    omega
  have hlen : ¬ (toHexString (n.signExtend 32)).length ≤ 4 := by
    unfold toHexString
    rw [Nat.length_toDigits_le_iff (by decide) (by decide)]
    omega
  unfold formatShort replaceEnd
  exact if_neg hlen

theorem length_field {w n : ℕ} (hw : 0 < w) (h : n < 16 ^ w) : (field w n).length = w :=
  Numerals.length_leftpad (by decide) hw h

theorem field_inj {w m n : ℕ} (h : field w m = field w n) : m = n :=
  Numerals.leftpad_injective (by decide) (by decide) w h

/-! ### What an id is made of -/

/-- The upper half of a time, as an id has it. -/
def hiWord (millis : ℕ) : ℕ := millis / 2 ^ 32 % 2 ^ 16

def loWord (millis : ℕ) : ℕ := millis % 2 ^ 32

theorem toNat_getHiTime (millis : ℕ) : (getHiTime millis).toNat = hiWord millis := by
  unfold getHiTime hiWord
  rw [BitVec.toNat_ofNat, Nat.shiftRight_eq_div_pow]

theorem toNat_getLoTime (millis : ℕ) : (getLoTime millis).toNat = loWord millis :=
  BitVec.toNat_ofNat ..

/-- The text of a call that read the upper half `hi`. -/
def head (node : Node) (hi : ℕ) : List Char :=
  field 8 node.IP.toNat ++ field 8 node.JVM.toNat ++ field 4 (hiWord hi)

/-- The id of the call that is counted as number `k`. -/
def idOf (node : Node) (hi lo k : ℕ) : List Char :=
  head node hi ++ field 8 (loWord lo) ++ field 4 (k % 2 ^ 15)

theorem hiWord_lt (millis : ℕ) : hiWord millis < 16 ^ 4 := Nat.mod_lt _ (by decide)

theorem loWord_lt (millis : ℕ) : loWord millis < 16 ^ 8 := Nat.mod_lt _ (by decide)

/-- An id tells its parts. -/
theorem idOf_inj {node node' : Node} {hi hi' lo lo' k k' : ℕ} :
    idOf node hi lo k = idOf node' hi' lo' k' ↔
      (node.IP = node'.IP ∧ node.JVM = node'.JVM) ∧
        hiWord hi = hiWord hi' ∧ loWord lo = loWord lo' ∧ k % 2 ^ 15 = k' % 2 ^ 15 := by
  have hword : ∀ n : BitVec 32, n.toNat < 16 ^ 8 := fun n => n.isLt
  have hcount : ∀ k, k % 2 ^ 15 < 16 ^ 4 := fun k =>
    Nat.lt_trans (Nat.mod_lt k (by decide)) (by decide)
  unfold idOf head
  refine ⟨fun h => ?_, ?_⟩
  · -- every field has its width, so the texts agree field by field
    obtain ⟨h, h₅⟩ := List.append_inj' h (by
      rw [length_field (by decide) (hcount k), length_field (by decide) (hcount k')])
    obtain ⟨h, h₄⟩ := List.append_inj' h (by
      rw [length_field (by decide) (loWord_lt lo), length_field (by decide) (loWord_lt lo')])
    obtain ⟨h, h₃⟩ := List.append_inj' h (by
      rw [length_field (by decide) (hiWord_lt hi), length_field (by decide) (hiWord_lt hi')])
    obtain ⟨h₁, h₂⟩ := List.append_inj' h (by
      rw [length_field (by decide) (hword _), length_field (by decide) (hword _)])
    exact ⟨⟨BitVec.eq_of_toNat_eq (field_inj h₁), BitVec.eq_of_toNat_eq (field_inj h₂)⟩,
      field_inj h₃, field_inj h₄, field_inj h₅⟩
  · rintro ⟨⟨h₁, h₂⟩, h₃, h₄, h₅⟩
    rw [h₁, h₂, h₃, h₄, h₅]

/-! ### The counter -/

theorem slt_zero {counter : BitVec 16} : counter.slt 0 = true ↔ 2 ^ 15 ≤ counter.toNat := by
  show counter.slt 0#16 = true ↔ _
  rw [BitVec.slt_zero_iff_msb_cond, BitVec.msb_eq_true_iff_two_mul_ge]
  omega

theorem getCount_lt (counter : BitVec 16) : (getCount counter).1.toNat < 2 ^ 15 := by
  unfold getCount
  dsimp only
  split
  · decide
  · rename_i h
    rw [slt_zero] at h
    omega

/-- After 2^15 - 1 the counter begins again at 0. -/
theorem getCount_next (counter : BitVec 16) :
    (getCount (getCount counter).2).1.toNat = ((getCount counter).1.toNat + 1) % 2 ^ 15 := by
  have hlt := getCount_lt counter
  have hsnd : (getCount counter).2 = (getCount counter).1 + 1 := rfl
  rw [hsnd]
  generalize (getCount counter).1 = n at hlt ⊢
  have hn : (n + 1).toNat = n.toNat + 1 := by
    rw [BitVec.toNat_add]
    show (n.toNat + 1) % 2 ^ 16 = _
    omega
  unfold getCount
  dsimp only
  split
  · rename_i h
    rw [slt_zero, hn] at h
    show 0 = _
    omega
  · rename_i h
    rw [slt_zero, hn] at h
    rw [hn]
    omega

/-! ### Every run -/

/-- The text of a call on its way. -/
def Written (node : Node) : Pc → Prop
  | .idle => True
  | .hiTime hi buf => hiWord hi < 2 ^ 15 ∧ buf = head node hi
  | .loTime hi lo buf => hiWord hi < 2 ^ 15 ∧ buf = head node hi ++ field 8 (loWord lo)

/-- The calls are counted in the order they return. -/
structure Inv (node : Node) (s : State T) : Prop where
  counter : (getCount s.counter).1.toNat = s.calls.length % 2 ^ 15
  pc : ∀ t, Written node (s.pc t)
  calls : ∀ k c, s.calls[k]? = some c →
    hiWord c.hiTime < 2 ^ 15 ∧ c.id = idOf node c.hiTime c.loTime k

theorem Inv.setPc {node : Node} {s : State T} (hs : Inv node s) {t : T} {pc : Pc}
    (hpc : Written node pc) : Inv node { s with pc := Function.update s.pc t pc } where
  counter := hs.counter
  pc t' := by
    show Written node (Function.update s.pc t pc t')
    by_cases ht : t' = t
    · rw [ht, Function.update_self]
      exact hpc
    · rw [Function.update_of_ne ht]
      exact hs.pc t'
  calls := hs.calls

theorem inv_step {node : Node} {s : State T} (hs : Inv node s) (e : Event T) :
    Inv node (step node s e) := by
  match e with
  | .clock millis => exact ⟨hs.counter, hs.pc, hs.calls⟩
  | .hiTime t =>
    unfold step
    rcases hpc : s.pc t with _ | _ | _ <;> dsimp only <;> rw [hpc]
    · dsimp only
      rw [format_eq, format_eq]
      -- a negative upper half throws, and the call is over
      rcases Nat.lt_or_ge (getHiTime s.now).toNat (2 ^ 15) with h | h
      · rw [formatShort_eq h]
        rw [toNat_getHiTime] at h ⊢
        exact @Inv.setPc T _ node s hs t (.hiTime s.now _) ⟨h, rfl⟩
      · rw [formatShort_none h]
        exact hs
    · exact hs
    · exact hs
  | .loTime t =>
    have hw := hs.pc t
    unfold step
    rcases hpc : s.pc t with _ | ⟨hi, buf⟩ | _ <;> dsimp only <;> rw [hpc]
    · exact hs
    · rw [hpc] at hw
      dsimp only
      rw [format_eq, toNat_getLoTime]
      refine @Inv.setPc T _ node s hs t (.loTime hi s.now _) ⟨hw.1, ?_⟩
      rw [hw.2]
    · exact hs
  | .count t =>
    have hw := hs.pc t
    unfold step
    rcases hpc : s.pc t with _ | _ | ⟨hi, lo, buf⟩ <;> dsimp only <;> rw [hpc]
    · exact hs
    · exact hs
    · rw [hpc] at hw
      dsimp only
      rw [formatShort_eq (getCount_lt _), hs.counter]
      have hidle := @Inv.setPc T _ node s hs t .idle trivial
      refine ⟨?_, hidle.pc, fun k c hc => ?_⟩
      · show (getCount (getCount s.counter).2).1.toNat = _
        rw [getCount_next, hs.counter, List.length_append, List.length_singleton]
        omega
      · rcases Nat.lt_or_ge k s.calls.length with hk | hk
        · rw [List.getElem?_append_left hk] at hc
          exact hs.calls k c hc
        · rw [List.getElem?_append_right hk] at hc
          have hk' : k = s.calls.length := by
            by_contra hne
            rw [List.getElem?_eq_none (by rw [List.length_singleton]; omega)] at hc
            cases hc
          rw [hk', Nat.sub_self] at hc
          cases hc
          refine ⟨hw.1, ?_⟩
          show buf ++ _ = _
          rw [hw.2, hk']
          rfl

theorem inv_run (node : Node) (events : List (Event T)) : Inv node (run node events) := by
  unfold run
  have h₀ : Inv node ({} : State T) := ⟨rfl, fun _ => trivial, nofun⟩
  generalize ({} : State T) = s at h₀
  induction events generalizing s with
  | nil => exact h₀
  | cons e events ih => exact ih _ (inv_step h₀ e)

/-- **Two calls give one id exactly if** they read one upper and one lower half of the time,
and a multiple of 2^15 calls was counted from one to the other. -/
theorem same_id_iff (node : Node) (events : List (Event T)) {i k : ℕ} {c d : Call}
    (hc : (run node events).calls[i]? = some c) (hd : (run node events).calls[k]? = some d) :
    c.id = d.id ↔ c.hiTime / 2 ^ 32 % 2 ^ 15 = d.hiTime / 2 ^ 32 % 2 ^ 15 ∧
      c.loTime % 2 ^ 32 = d.loTime % 2 ^ 32 ∧ i % 2 ^ 15 = k % 2 ^ 15 := by
  obtain ⟨hchi, hcid⟩ := (inv_run node events).calls i c hc
  obtain ⟨hdhi, hdid⟩ := (inv_run node events).calls k d hd
  have hword : ∀ a, hiWord a < 2 ^ 15 → hiWord a = a / 2 ^ 32 % 2 ^ 15 := fun a h => by
    unfold hiWord at h ⊢
    omega
  rw [hcid, hdid, idOf_inj, ← hword _ hchi, ← hword _ hdhi]
  exact ⟨fun h => h.2, fun h => ⟨⟨rfl, rfl⟩, h⟩⟩

/-- Two threads: one reads its lower half after the upper half has changed. -/
def straddling : List (Event Bool) :=
  [.hiTime true, .hiTime false, .loTime false, .clock (2 ^ 32), .loTime true, .count true,
    .count false]

theorem same_id_straddling :
    ∃ c d, (run ⟨5, 255⟩ straddling).calls[0]? = some c ∧
      (run ⟨5, 255⟩ straddling).calls[1]? = some d ∧
      (c.id = d.id ↔ c.hiTime / 2 ^ 32 % 2 ^ 15 = d.hiTime / 2 ^ 32 % 2 ^ 15 ∧
        c.loTime % 2 ^ 32 = d.loTime % 2 ^ 32 ∧ 0 % 2 ^ 15 = 1 % 2 ^ 15) :=
  ⟨⟨0, 2 ^ 32, "00000005000000ff0000000000000000".toList⟩,
    ⟨0, 0, "00000005000000ff0000000000000001".toList⟩, by decide +kernel, by decide +kernel,
    same_id_iff ⟨5, 255⟩ straddling (by decide +kernel) (by decide +kernel)⟩

/-! ### Addresses -/

theorem toNat_signExtend_byte : ∀ b : BitVec 8,
    (b.signExtend 32 - BitVec.ofInt 32 (-128)).toNat = (b + 128).toNat := by decide +kernel

/-- One byte of an address. -/
theorem toNat_address {r : BitVec 32} (h : r.toNat < 2 ^ 24) (b : BitVec 8) :
    ((r <<< 8) - BitVec.ofInt 32 (-128) + b.signExtend 32).toNat =
      r.toNat * 256 + (b + 128).toNat := by
  have hb := (b + 128).isLt
  have hcomm : (r <<< 8) - BitVec.ofInt 32 (-128) + b.signExtend 32 =
      (r <<< 8) + (b.signExtend 32 - BitVec.ofInt 32 (-128)) := by
    rw [BitVec.sub_eq_add_neg, BitVec.sub_eq_add_neg, BitVec.add_assoc,
      BitVec.add_comm (-BitVec.ofInt 32 (-128))]
  rw [hcomm, BitVec.toNat_add, toNat_signExtend_byte, BitVec.toNat_shiftLeft, Nat.shiftLeft_eq]
  omega

/-- Addresses that differ in their first four bytes have different numbers. -/
theorem IptoInt_inj {bytes bytes' : List (BitVec 8)} (hlen : 4 ≤ bytes.length)
    (hlen' : 4 ≤ bytes'.length) (h : IptoInt bytes = IptoInt bytes') :
    bytes.take 4 = bytes'.take 4 := by
  have hnum : ∀ l : List (BitVec 8), 4 ≤ l.length → ∃ a b c d, l.take 4 = [a, b, c, d] ∧
      (IptoInt l).toNat = (((a + 128).toNat * 256 + (b + 128).toNat) * 256 +
        (c + 128).toNat) * 256 + (d + 128).toNat := fun l hl => by
    match l, hl with
    | a :: b :: c :: d :: _, _ =>
      have ha := (a + 128).isLt
      have hb := (b + 128).isLt
      have hc := (c + 128).isLt
      refine ⟨a, b, c, d, rfl, ?_⟩
      show BitVec.toNat (_ - _ + d.signExtend 32) = _
      have h₁ := @toNat_address 0 (by decide) a
      rw [show (0 : BitVec 32).toNat = 0 from rfl, Nat.zero_mul, Nat.zero_add] at h₁
      have h₂ := @toNat_address _ (by rw [h₁]; omega) b
      rw [h₁] at h₂
      have h₃ := @toNat_address _ (by rw [h₂]; omega) c
      rw [h₂] at h₃
      have h₄ := @toNat_address _ (by rw [h₃]; omega) d
      rw [h₃] at h₄
      exact h₄
  obtain ⟨a, b, c, d, hl, hn⟩ := hnum bytes hlen
  obtain ⟨a', b', c', d', hl', hn'⟩ := hnum bytes' hlen'
  rw [h, hn'] at hn
  have hbyte : ∀ x y : BitVec 8, (x + 128).toNat = (y + 128).toNat → x = y := fun x y hxy => by
    rw [BitVec.toNat_add, BitVec.toNat_add] at hxy
    exact BitVec.eq_of_toNat_eq (by omega)
  have hx : ∀ x : BitVec 8, (x + 128).toNat < 256 := fun x => (x + 128).isLt
  have := hx a
  have := hx b
  have := hx c
  have := hx d
  have := hx a'
  have := hx b'
  have := hx c'
  have := hx d'
  rw [hl, hl', hbyte a a' (by omega), hbyte b b' (by omega), hbyte c c' (by omega),
    hbyte d d' (by omega)]

end Uuid
end CloudManager
