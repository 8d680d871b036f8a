/-
# The protobuf values of Redis

`ProtocbufRedisSerializer` writes an object as the length of its class's name in four
bytes, the name, and what `ProtobufUtils` makes of the object.

`deserialize_serialize`: an object that is written is read back. `deserialize_iff`: a
value is read exactly if it is a name's length, the name of a class and data that
`ProtobufUtils` reads for the class; and the error of the memory is thrown exactly if
the length in front is that of no array, however short the value is.
-/
import Mathlib.Data.Nat.Bitwise
import Mathlib.Data.BitVec
import Mathlib.Data.List.Basic

namespace CloudManager
namespace ProtocbufRedisSerializer

/-! ### Lengths -/

/-- `intToBytes2`: the byte at `i` is `(byte) (n >> (24 - i * 8))`. -/
def intToBytes2 (n : BitVec 32) : List (BitVec 8) :=
  (List.range 4).map fun i => (n.sshiftRight (24 - i * 8)).setWidth 8

/-- `byteToInt2`; a byte becomes an int with its sign, which the mask takes off. -/
def byteToInt2 (b : List (BitVec 8)) : BitVec 32 :=
  b.foldl (fun n b => n <<< 8 ||| (b.signExtend 32 &&& 0xff#32)) 0

theorem masked (b : BitVec 8) : b.signExtend 32 &&& 0xff#32 = b.setWidth 32 := by
  revert b
  decide +kernel

theorem toNat_next {n : BitVec 32} (b : BitVec 8) (hn : n.toNat < 2 ^ 24) :
    (n <<< 8 ||| (b.signExtend 32 &&& 0xff#32)).toNat = n.toNat * 256 + b.toNat := by
  have hb : b.toNat < 2 ^ 8 := b.isLt
  have hshift : (n <<< 8).toNat = n.toNat <<< 8 := by
    rw [BitVec.toNat_shiftLeft, Nat.shiftLeft_eq]
    omega
  have hmask : (b.signExtend 32 &&& 0xff#32).toNat = b.toNat := by
    rw [masked, BitVec.toNat_setWidth]
    omega
  rw [BitVec.toNat_or, hshift, hmask, ← Nat.shiftLeft_add_eq_or_of_lt hb, Nat.shiftLeft_eq]

theorem toNat_byteToInt2 (a b c d : BitVec 8) :
    (byteToInt2 [a, b, c, d]).toNat =
      ((a.toNat * 256 + b.toNat) * 256 + c.toNat) * 256 + d.toNat := by
  have ha : a.toNat < 2 ^ 8 := a.isLt
  have hb : b.toNat < 2 ^ 8 := b.isLt
  have hc : c.toNat < 2 ^ 8 := c.isLt
  unfold byteToInt2
  simp only [List.foldl_cons, List.foldl_nil]
  have h1 := toNat_next (n := 0) a (by decide)
  have h2 := toNat_next b (by rw [h1]; simp; omega)
  have h3 := toNat_next c (by rw [h2, h1]; simp; omega)
  have h4 := toNat_next d (by rw [h3, h2, h1]; simp; omega)
  rw [h4, h3, h2, h1]
  simp

theorem toNat_shifted (n : BitVec 32) {k : ℕ} (hk : k ≤ 24) :
    ((n.sshiftRight k).setWidth 8).toNat = n.toNat / 2 ^ k % 256 := by
  -- the bits that come in from above are cut off
  have hlow : (n.sshiftRight k).setWidth 8 = (n >>> k).setWidth 8 := by
    apply BitVec.eq_of_getLsbD_eq
    intro i hi
    rw [BitVec.getLsbD_setWidth, BitVec.getLsbD_setWidth, BitVec.getLsbD_sshiftRight,
      BitVec.getLsbD_ushiftRight, if_pos (by omega)]
    simp only [show ¬ 32 ≤ i by omega, decide_false, Bool.not_false, Bool.true_and]
  rw [hlow, BitVec.toNat_setWidth, BitVec.toNat_ushiftRight, Nat.shiftRight_eq_div_pow]

theorem toNat_intToBytes2 (n : BitVec 32) :
    (intToBytes2 n).map BitVec.toNat =
      [n.toNat / 2 ^ 24 % 256, n.toNat / 2 ^ 16 % 256, n.toNat / 2 ^ 8 % 256, n.toNat % 256] := by
  have h24 := toNat_shifted n (k := 24) (by omega)
  have h16 := toNat_shifted n (k := 16) (by omega)
  have h8 := toNat_shifted n (k := 8) (by omega)
  have h0 := toNat_shifted n (k := 0) (by omega)
  rw [Nat.pow_zero, Nat.div_one] at h0
  show [_, _, _, _] = _
  rw [h24, h16, h8, h0]

theorem length_intToBytes2 (n : BitVec 32) : (intToBytes2 n).length = 4 := rfl

/-- The length that is written is read. -/
theorem byteToInt2_intToBytes2 (n : BitVec 32) : byteToInt2 (intToBytes2 n) = n := by
  have hn : n.toNat < 2 ^ 32 := n.isLt
  obtain ⟨b0, b1, b2, b3, hb⟩ := List.length_eq_four.mp (length_intToBytes2 n)
  have hnat := toNat_intToBytes2 n
  rw [hb] at hnat ⊢
  simp only [List.map_cons, List.map_nil, List.cons.injEq, and_true] at hnat
  obtain ⟨h0, h1, h2, h3⟩ := hnat
  apply BitVec.eq_of_toNat_eq
  rw [toNat_byteToInt2, h0, h1, h2, h3]
  omega

/-- Four bytes are written for the length that is read of them. -/
theorem intToBytes2_byteToInt2 {b : List (BitVec 8)} (hb : b.length = 4) :
    intToBytes2 (byteToInt2 b) = b := by
  obtain ⟨b0, b1, b2, b3, rfl⟩ := List.length_eq_four.mp hb
  have h0 : b0.toNat < 2 ^ 8 := b0.isLt
  have h1 : b1.toNat < 2 ^ 8 := b1.isLt
  have h2 : b2.toNat < 2 ^ 8 := b2.isLt
  have h3 : b3.toNat < 2 ^ 8 := b3.isLt
  apply List.map_injective_iff.mpr (fun _ _ => BitVec.eq_of_toNat_eq)
  rw [toNat_intToBytes2, toNat_byteToInt2]
  simp only [List.map_cons, List.map_nil, List.cons.injEq, and_true]
  omega

/-! ### Values -/

/-- What the serializer calls: the names of classes, the platform's charset, and
`ProtobufUtils`; `none`: an exception. -/
structure Codecs (C O : Type*) where
  getClass : O → C
  getName : C → String
  getBytes : String → List (BitVec 8)
  newString : List (BitVec 8) → String
  forName : String → Option C
  serialize : O → Option (List (BitVec 8))
  deSerialize : List (BitVec 8) → C → Option O
  /-- No longer array can be made. -/
  longest : ℕ

/-- What a call comes to. -/
inductive Result (α : Type*)
  | ok (a : α)
  | serializationException
  | outOfMemoryError
  deriving DecidableEq, Repr

def Result.bind {α β : Type*} (r : Result α) (f : α → Result β) : Result β :=
  match r with
  | .ok a => f a
  | .serializationException => .serializationException
  | .outOfMemoryError => .outOfMemoryError

variable {C O : Type*} (x : Codecs C O)

/-- `serialize`; `none` is null. -/
def serialize (t : Option O) : Result (List (BitVec 8)) :=
  match t with
  | none => .ok []
  | some t =>
    let sampleNameByte := x.getBytes (x.getName (x.getClass t))
    match x.serialize t with
    | none => .serializationException
    | some data => .ok (intToBytes2 (BitVec.ofNat 32 sampleNameByte.length) ++ sampleNameByte ++ data)

/-- `pop`, with what it leaves in the list. A negative length and a list that is too short
are exceptions. -/
def pop (linkedList : List (BitVec 8)) (length : ℤ) :
    Result (List (BitVec 8) × List (BitVec 8)) :=
  if length < 0 then .serializationException
  else if x.longest < length.toNat then .outOfMemoryError
  else if linkedList.length < length.toNat then .serializationException
  else .ok (linkedList.take length.toNat, linkedList.drop length.toNat)

/-- `ProtobufUtils.deSerialize(data, Class.forName(className))`. -/
def read (className data : List (BitVec 8)) : Result (Option O) :=
  match (x.forName (x.newString className)).bind (x.deSerialize data) with
  | none => .serializationException
  | some t => .ok (some t)

def deserialize (bytes : List (BitVec 8)) : Result (Option O) :=
  if bytes = [] then .ok none
  else
    (pop x bytes 4).bind fun (length, linkedList) =>
      (pop x linkedList (byteToInt2 length).toInt).bind fun (className, linkedList) =>
        (pop x linkedList linkedList.length).bind fun (data, _) => read x className data

/-! ### Popping -/

section
variable {x} {α β : Type*} {r : Result α} {f : α → Result β} {l a rest : List (BitVec 8)}

theorem bind_eq_ok {b : β} : r.bind f = .ok b ↔ ∃ a, r = .ok a ∧ f a = .ok b := by
  rcases r with a | _ | _ <;> simp [Result.bind]

theorem bind_eq_outOfMemoryError :
    r.bind f = .outOfMemoryError ↔ r = .outOfMemoryError ∨ ∃ a, r = .ok a ∧ f a = .outOfMemoryError := by
  rcases r with a | _ | _ <;> simp [Result.bind]

theorem pop_append (h : a.length ≤ x.longest) : pop x (a ++ rest) a.length = .ok (a, rest) := by
  unfold pop
  rw [if_neg (by omega), Int.toNat_natCast, if_neg (by omega), List.length_append,
    if_neg (by omega), List.take_left, List.drop_left]

theorem of_pop {n : ℤ} (h : pop x l n = .ok (a, rest)) : l = a ++ rest ∧ n = a.length := by
  unfold pop at h
  split at h
  · cases h
  · split at h
    · cases h
    · split at h
      · cases h
      · rename_i hn _ hl
        cases h
        refine ⟨(List.take_append_drop _ _).symm, ?_⟩
        rw [List.length_take]
        omega

theorem pop_eq_outOfMemoryError {n : ℤ} : pop x l n = .outOfMemoryError ↔ (x.longest : ℤ) < n := by
  unfold pop
  split
  · simp
    omega
  · split
    · simp
      omega
    · split
      · simp
        omega
      · simp
        omega

theorem read_ne_outOfMemoryError {className data : List (BitVec 8)} :
    read x className data ≠ .outOfMemoryError := by
  unfold read
  split <;> exact nofun

end

/-! ### Reading -/

theorem toInt_ofNat {k : ℕ} (hk : k < 2 ^ 31) : (BitVec.ofNat 32 k).toInt = k := by
  rw [BitVec.toInt_eq_toNat_cond, BitVec.toNat_ofNat]
  omega

variable {x}

theorem deserialize_frame {className data : List (BitVec 8)} (hname : className.length < 2 ^ 31)
    (hlen : (intToBytes2 (BitVec.ofNat 32 className.length) ++ className ++ data).length
      ≤ x.longest) :
    deserialize x (intToBytes2 (BitVec.ofNat 32 className.length) ++ className ++ data) =
      read x className data := by
  have h4 := length_intToBytes2 (BitVec.ofNat 32 className.length)
  rw [List.length_append, List.length_append, h4] at hlen
  have hne : intToBytes2 (BitVec.ofNat 32 className.length) ++ className ++ data ≠ [] := by
    intro h
    have hlength := congrArg List.length h
    rw [List.length_append, List.length_append, h4, List.length_nil] at hlength
    omega
  have hlength : pop x (intToBytes2 (BitVec.ofNat 32 className.length) ++ (className ++ data)) 4 =
      .ok (intToBytes2 (BitVec.ofNat 32 className.length), className ++ data) :=
    pop_append (by omega)
  have hclassName : pop x (className ++ data) className.length = .ok (className, data) :=
    pop_append (by omega)
  have hdata : pop x data data.length = .ok (data, []) := by
    have h : pop x (data ++ []) data.length = .ok (data, []) := pop_append (by omega)
    rwa [List.append_nil] at h
  unfold deserialize
  rw [if_neg hne, List.append_assoc, hlength]
  show ((pop x (className ++ data) (byteToInt2 (intToBytes2 _)).toInt).bind fun _ => _) = _
  rw [byteToInt2_intToBytes2, toInt_ofNat hname, hclassName]
  show ((pop x data data.length).bind fun _ => _) = _
  rw [hdata]
  rfl

theorem frame_of_deserialize {bytes : List (BitVec 8)} {o : Option O} (hne : bytes ≠ [])
    (h : deserialize x bytes = .ok o) :
    ∃ className data, className.length < 2 ^ 31 ∧
      bytes = intToBytes2 (BitVec.ofNat 32 className.length) ++ className ++ data ∧
      read x className data = .ok o := by
  unfold deserialize at h
  rw [if_neg hne] at h
  obtain ⟨⟨length, l⟩, hlength, hl⟩ := bind_eq_ok.mp h
  obtain ⟨⟨className, l'⟩, hclassName, hl'⟩ := bind_eq_ok.mp hl
  obtain ⟨⟨data, rest⟩, hdata, hread⟩ := bind_eq_ok.mp hl'
  obtain ⟨rfl, h4⟩ := of_pop hlength
  obtain ⟨rfl, hname⟩ := of_pop hclassName
  obtain ⟨hsplit, hall⟩ := of_pop hdata
  have hrest : rest = [] := by
    rw [hsplit, List.length_append] at hall
    exact List.eq_nil_of_length_eq_zero (by omega)
  have hlt : className.length < 2 ^ 31 := by
    have hbound := BitVec.toInt_lt (x := byteToInt2 length)
    omega
  have hbytes : BitVec.ofNat 32 className.length = byteToInt2 length := by
    apply BitVec.eq_of_toInt_eq
    rw [toInt_ofNat hlt]
    exact hname.symm
  refine ⟨className, data, hlt, ?_, hread⟩
  rw [hbytes, intToBytes2_byteToInt2 (by omega), hsplit, hrest, List.append_nil, List.append_assoc]

theorem deserialize_eq_outOfMemoryError {bytes : List (BitVec 8)} (hx : 4 ≤ x.longest)
    (hlen : bytes.length ≤ x.longest) :
    deserialize x bytes = .outOfMemoryError ↔
      4 ≤ bytes.length ∧ (x.longest : ℤ) < (byteToInt2 (bytes.take 4)).toInt := by
  rcases eq_or_ne bytes [] with rfl | hne
  · simp [deserialize]
  unfold deserialize
  rw [if_neg hne, bind_eq_outOfMemoryError, pop_eq_outOfMemoryError]
  constructor
  · rintro (h | ⟨⟨length, l⟩, hlength, h⟩)
    · omega
    · obtain ⟨rfl, h4⟩ := of_pop hlength
      rw [List.length_append] at hlen ⊢
      rw [List.take_left' (by omega)]
      refine ⟨by omega, ?_⟩
      rcases bind_eq_outOfMemoryError.mp h with h | ⟨⟨className, l'⟩, hclassName, h⟩
      · exact pop_eq_outOfMemoryError.mp h
      · exfalso
        obtain ⟨hl, -⟩ := of_pop hclassName
        rw [hl, List.length_append] at hlen
        rcases bind_eq_outOfMemoryError.mp h with h | ⟨⟨data, rest⟩, -, h⟩
        · have hlong := pop_eq_outOfMemoryError.mp h
          omega
        · exact read_ne_outOfMemoryError h
  · rintro ⟨h4, hlong⟩
    have htake : (bytes.take 4).length = 4 := by
      rw [List.length_take]
      omega
    have hpop : pop x (bytes.take 4 ++ bytes.drop 4) (bytes.take 4).length =
        .ok (bytes.take 4, bytes.drop 4) :=
      pop_append (by omega)
    rw [List.take_append_drop, htake] at hpop
    exact .inr ⟨_, hpop, bind_eq_outOfMemoryError.mpr (.inl (pop_eq_outOfMemoryError.mpr hlong))⟩

/-- **What is written is read back**, of every class that is found by its name. -/
theorem deserialize_serialize {t : Option O} {bytes : List (BitVec 8)} (hx : x.longest < 2 ^ 31)
    (hname : ∀ o, x.newString (x.getBytes (x.getName (x.getClass o))) = x.getName (x.getClass o))
    (hforName : ∀ o, x.forName (x.getName (x.getClass o)) = some (x.getClass o))
    (hdata : ∀ o data, x.serialize o = some data → x.deSerialize data (x.getClass o) = some o)
    (hs : serialize x t = .ok bytes) (hlen : bytes.length ≤ x.longest) :
    deserialize x bytes = .ok t := by
  unfold serialize at hs
  rcases t with _ | o
  · cases hs
    rfl
  · dsimp only at hs
    split at hs
    · cases hs
    · rename_i data hd
      cases hs
      rw [deserialize_frame ?_ hlen]
      · unfold read
        rw [hname, hforName, Option.bind_some, hdata o data hd]
      · rw [List.length_append, List.length_append] at hlen
        omega

/-- **What is read.** An object comes of the frames of a known class, and of nothing else;
the error of the memory comes of a length in front that no array has, and the rest are
exceptions of the serializer. -/
theorem deserialize_iff {bytes : List (BitVec 8)} (hx : 4 ≤ x.longest)
    (hlen : bytes.length ≤ x.longest) :
    (∀ t, deserialize x bytes = .ok (some t) ↔
      ∃ className data c, className.length < 2 ^ 31 ∧
        bytes = intToBytes2 (BitVec.ofNat 32 className.length) ++ className ++ data ∧
        x.forName (x.newString className) = some c ∧ x.deSerialize data c = some t) ∧
    (deserialize x bytes = .ok none ↔ bytes = []) ∧
    (deserialize x bytes = .outOfMemoryError ↔
      4 ≤ bytes.length ∧ (x.longest : ℤ) < (byteToInt2 (bytes.take 4)).toInt) := by
  have hread : ∀ {className data o}, read x className data = .ok o ↔
      ∃ c t, x.forName (x.newString className) = some c ∧ x.deSerialize data c = some t ∧
        o = some t := by
    intro className data o
    unfold read
    rcases hc : x.forName (x.newString className) with _ | c
    · simp
    · rcases ht : x.deSerialize data c with _ | t
      · simp [ht]
      · simp [ht, eq_comm]
  refine ⟨fun t => ⟨fun h => ?_, ?_⟩, ⟨fun h => ?_, ?_⟩, deserialize_eq_outOfMemoryError hx hlen⟩
  · have hne : bytes ≠ [] := by
      rintro rfl
      cases h
    obtain ⟨className, data, hlt, hbytes, h⟩ := frame_of_deserialize hne h
    obtain ⟨c, t', hc, ht, heq⟩ := hread.mp h
    cases heq
    exact ⟨className, data, c, hlt, hbytes, hc, ht⟩
  · rintro ⟨className, data, c, hlt, rfl, hc, ht⟩
    rw [deserialize_frame hlt hlen]
    exact hread.mpr ⟨c, t, hc, ht, rfl⟩
  · by_contra hne
    obtain ⟨className, data, -, -, h⟩ := frame_of_deserialize hne h
    obtain ⟨c, t, -, -, heq⟩ := hread.mp h
    cases heq
  · rintro rfl
    rfl

/-- One class, of messages that stand for their own bytes; the runs below write the field
of number 1 with the value 7. -/
def bytesOnly : Codecs Unit (List (BitVec 8)) where
  getClass := fun _ => ()
  getName := fun _ => "B"
  getBytes := fun s => s.toList.map fun c => BitVec.ofNat 8 c.toNat
  newString := fun b => String.ofList (b.map fun c => Char.ofNat c.toNat)
  forName := fun name => if name = "B" then some () else none
  serialize := some
  deSerialize := fun data _ => some data
  longest := 65536

theorem deserialize_serialize_bytes : deserialize bytesOnly [0, 0, 0, 1, 66, 8, 7] = .ok (some [8, 7]) :=
  deserialize_serialize (t := some [8, 7]) (by decide)
    (fun _ => (by decide : bytesOnly.newString (bytesOnly.getBytes "B") = "B"))
    (fun _ => (by decide : bytesOnly.forName "B" = some ())) (fun _ _ h => h.symm) (by decide)
    (by decide)

theorem deserialize_iff_bytes :
    (∀ t, deserialize bytesOnly [0, 0, 0, 1, 66, 8, 7] = .ok (some t) ↔
      ∃ className data c, className.length < 2 ^ 31 ∧
        [0, 0, 0, 1, 66, 8, 7] = intToBytes2 (BitVec.ofNat 32 className.length) ++ className ++ data ∧
        bytesOnly.forName (bytesOnly.newString className) = some c ∧
        bytesOnly.deSerialize data c = some t) ∧
    (deserialize bytesOnly [0, 0, 0, 1, 66, 8, 7] = .ok none ↔
      ([0, 0, 0, 1, 66, 8, 7] : List (BitVec 8)) = []) ∧
    (deserialize bytesOnly [0, 0, 0, 1, 66, 8, 7] = .outOfMemoryError ↔
      4 ≤ ([0, 0, 0, 1, 66, 8, 7] : List (BitVec 8)).length ∧ (bytesOnly.longest : ℤ) <
        (byteToInt2 (([0, 0, 0, 1, 66, 8, 7] : List (BitVec 8)).take 4)).toInt) :=
  deserialize_iff (by decide) (by decide)

-- a text in JSON starts with a length of more than 2^30
example : deserialize bytesOnly [0x7b, 0x22, 0x61, 0x22] = .outOfMemoryError := by decide

end ProtocbufRedisSerializer
end CloudManager
