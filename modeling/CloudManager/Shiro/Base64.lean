/-
# Base64 of keys and signatures

`Base64` of the Shiro starter: `encode` to a string, a stream or a writer, `decode`
from a string or characters to an array or a stream. An access outside an array is
an exception (`none`).

`decode_eq`: decoding always returns, whatever the text, and what it returns is that
of the text's Base64 characters four by four (`bytes`). `decode_encode`: every way
of encoding is read back by every way of decoding. `encode(data, off, len)` encodes
the bytes from `off` up to `len`, not `len` bytes.
-/
import Mathlib.Data.Nat.Bitwise
import Mathlib.Data.List.Basic

namespace CloudManager
namespace Base64

def S_BASE64CHAR : List Char :=
  "ABCDEFGHIJKLMNOPQRSTUVWXYZabcdefghijklmnopqrstuvwxyz0123456789+/".toList

def S_BASE64PAD : Char := '='

/-- `S_DECODETABLE`. -/
def decodeTable (ch : Char) : ℕ :=
  if S_BASE64CHAR.idxOf ch < 64 then S_BASE64CHAR.idxOf ch else 127

/-! ### Encoding -/

/-- The next elements of an array of size `cap`. -/
def write {α : Type} (cap : ℕ) (out xs : List α) : Option (List α) :=
  if out.length + xs.length ≤ cap then some (out ++ xs) else none

variable {σ : Type}

/-- The loop of `encode` from `rindex` on: `put` takes four characters, and whether they
are of three bytes. -/
def encodeTo (put : σ → List Char → Bool → Option σ) (data : List UInt8) (rindex rest : ℕ)
    (s : σ) : Option σ :=
  if 3 ≤ rest then do
    let b₀ ← data[rindex]?
    let b₁ ← data[rindex + 1]?
    let b₂ ← data[rindex + 2]?
    let i := (b₀.toNat <<< 16) + (b₁.toNat <<< 8) + b₂.toNat
    let c₀ ← S_BASE64CHAR[i >>> 18]?
    let c₁ ← S_BASE64CHAR[(i >>> 12) &&& 0x3f]?
    let c₂ ← S_BASE64CHAR[(i >>> 6) &&& 0x3f]?
    let c₃ ← S_BASE64CHAR[i &&& 0x3f]?
    let s ← put s [c₀, c₁, c₂, c₃] true
    encodeTo put data (rindex + 3) (rest - 3) s
  else if rest = 1 then do
    let b₀ ← data[rindex]?
    let i := b₀.toNat
    let c₀ ← S_BASE64CHAR[i >>> 2]?
    let c₁ ← S_BASE64CHAR[(i <<< 4) &&& 0x3f]?
    put s [c₀, c₁, S_BASE64PAD, S_BASE64PAD] false
  else if rest = 2 then do
    let b₀ ← data[rindex]?
    let b₁ ← data[rindex + 1]?
    let i := (b₀.toNat <<< 8) + b₁.toNat
    let c₀ ← S_BASE64CHAR[i >>> 10]?
    let c₁ ← S_BASE64CHAR[(i >>> 4) &&& 0x3f]?
    let c₂ ← S_BASE64CHAR[(i <<< 2) &&& 0x3f]?
    put s [c₀, c₁, c₂, S_BASE64PAD] false
  else some s
termination_by rest

/-- `encode(byte[], int, int)`. An array of 2^31 characters or more is refused. -/
def encode (data : List UInt8) (off len : ℕ) : Option (List Char) :=
  if len = 0 then some []
  else if 2 ^ 31 ≤ len / 3 * 4 + 4 then none
  else encodeTo (fun out cs _ => write (len / 3 * 4 + 4) out cs) data off (len - off) []

/-- `encode(byte[], int, int, OutputStream)`. -/
def encodeStream (data : List UInt8) (off len : ℕ) : Option (List Char) :=
  if len = 0 then some []
  else encodeTo (fun out cs _ => some (out ++ cs)) data off (len - off) []

/-- Four characters to the writer; a line of 76 ends. -/
def writeLine (s : List Char × ℕ) (cs : List Char) (full : Bool) : Option (List Char × ℕ) :=
  if full then
    some (s.1 ++ cs ++ (if (s.2 + 4) % 76 = 0 then ['\n'] else []), s.2 + 4)
  else some (s.1 ++ cs, s.2)

/-- `encode(byte[], int, int, Writer)`. -/
def encodeWriter (data : List UInt8) (off len : ℕ) : Option (List Char) :=
  if len = 0 then some []
  else (encodeTo writeLine data off (len - off) ([], 0)).map Prod.fst

/-! ### Decoding -/

def isBase64 (ch : Char) : Bool := ch == S_BASE64PAD || decodeTable ch != 127

/-- `decode0`: one, two or three bytes. -/
def decode0 (c₀ c₁ c₂ c₃ : Char) : List UInt8 :=
  let b₀ := decodeTable c₀
  let b₁ := decodeTable c₁
  let b₂ := decodeTable c₂
  let b₃ := decodeTable c₃
  let o₀ := UInt8.ofNat ((b₀ <<< 2) &&& 0xfc ||| (b₁ >>> 4) &&& 0x3)
  let o₁ := UInt8.ofNat ((b₁ <<< 4) &&& 0xf0 ||| (b₂ >>> 2) &&& 0xf)
  let o₂ := UInt8.ofNat ((b₂ <<< 6) &&& 0xc0 ||| b₃ &&& 0x3f)
  if c₂ = S_BASE64PAD then [o₀] else if c₃ = S_BASE64PAD then [o₀, o₁] else [o₀, o₁, o₂]

/-- The loop of `decode`, with the characters read of the next four. -/
def decodeTo (put : σ → List UInt8 → Option σ) : List Char → List Char → σ → Option σ
  | _, [], s => some s
  | ibuf, ch :: data, s =>
    if isBase64 ch then
      match ibuf with
      | [c₀, c₁, c₂] => (put s (decode0 c₀ c₁ c₂ ch)).bind (decodeTo put [] data)
      | ibuf => decodeTo put (ibuf ++ [ch]) data s
    else decodeTo put ibuf data s

/-- `decode(char[], int, int)`. -/
def decode (data : List Char) (off len : ℕ) : Option (List UInt8) :=
  if len = 0 ∨ off + len ≤ data.length then
    decodeTo (write (len / 4 * 3 + 3)) [] ((data.drop off).take len) []
  else none

/-- `decode(char[], int, int, OutputStream)`. -/
def decodeStream (data : List Char) (off len : ℕ) : Option (List UInt8) :=
  if len = 0 ∨ off + len ≤ data.length then
    decodeTo (fun out bs => some (out ++ bs)) [] ((data.drop off).take len) []
  else none

/-- `decode(String)`. -/
def decodeString (data : List Char) : Option (List UInt8) :=
  decodeTo (write (data.length / 4 * 3 + 3)) [] data []

/-- `decode(String, OutputStream)`. -/
def decodeStringStream (data : List Char) : Option (List UInt8) :=
  decodeTo (fun out bs => some (out ++ bs)) [] data []

/-! ### What decoding returns -/

/-- Four characters at a time, what is left of them dropped. -/
def bytes : List Char → List UInt8
  | c₀ :: c₁ :: c₂ :: c₃ :: rest => decode0 c₀ c₁ c₂ c₃ ++ bytes rest
  | _ => []

theorem length_decode0 (c₀ c₁ c₂ c₃ : Char) : (decode0 c₀ c₁ c₂ c₃).length ≤ 3 := by
  unfold decode0
  dsimp only
  split
  · simp
  · split <;> simp

/-- Fewer than four characters give no byte. -/
theorem bytes_short {cs : List Char} (h : cs.length < 4) : bytes cs = [] := by
  match cs, h with
  | [], _ => rfl
  | [_], _ => rfl
  | [_, _], _ => rfl
  | [_, _, _], _ => rfl

/-- The loop puts what `bytes` gives, if there is room for three bytes of every four
characters. -/
theorem decodeTo_eq {put : List UInt8 → List UInt8 → Option (List UInt8)} {cap : ℕ}
    (hput : ∀ out bs, out.length + bs.length ≤ cap → put out bs = some (out ++ bs)) :
    ∀ (data ibuf : List Char) (out : List UInt8), ibuf.length < 4 →
      out.length + (ibuf.length + data.length) / 4 * 3 ≤ cap →
      decodeTo put ibuf data out = some (out ++ bytes (ibuf ++ data.filter isBase64))
  | [], ibuf, out, hbuf, _ => by
    rw [List.filter_nil, List.append_nil, bytes_short hbuf, List.append_nil]
    rfl
  | ch :: data, ibuf, out, hbuf, hcap => by
    rw [List.length_cons] at hcap
    unfold decodeTo
    by_cases hch : isBase64 ch = true
    · rw [if_pos hch, List.filter_cons_of_pos hch]
      split
      · rename_i c₀ c₁ c₂
        have hlen := length_decode0 c₀ c₁ c₂ ch
        rw [show [c₀, c₁, c₂].length = 3 from rfl] at hcap
        rw [hput out _ (by omega), Option.bind_some, decodeTo_eq hput data [] _ (by simp)]
        · rw [List.nil_append, List.append_assoc]
          rfl
        · rw [List.length_append, List.length_nil]
          omega
      · rename_i hne
        have hlt : ibuf.length < 3 := by
          have h3 : ibuf.length ≠ 3 := fun h => by
            match ibuf, h with
            | [c₀, c₁, c₂], _ => exact hne c₀ c₁ c₂ rfl
          omega
        rw [decodeTo_eq hput data (ibuf ++ [ch]) out, List.append_assoc]
        · rfl
        · rw [List.length_append, List.length_singleton]
          omega
        · rw [List.length_append, List.length_singleton]
          omega
    · rw [if_neg hch, List.filter_cons_of_neg hch]
      exact decodeTo_eq hput data ibuf out hbuf (by omega)

/-- **Decoding returns**, from a string or a stream, what the Base64 characters of the text
give; its array is large enough. -/
theorem decode_eq (data : List Char) :
    decodeString data = some (bytes (data.filter isBase64)) ∧
    decodeStringStream data = some (bytes (data.filter isBase64)) := by
  refine ⟨decodeTo_eq (fun out bs h => if_pos h) data [] [] (by simp) ?_,
    @decodeTo_eq (fun out bs => some (out ++ bs)) (data.length / 4 * 3) (fun _ _ _ => rfl) data []
      [] (by simp) ?_⟩
  · simp only [List.length_nil, Nat.zero_add]
    omega
  · simp only [List.length_nil, Nat.zero_add]
    omega

/-! ### What encoding writes -/

/-- The character of six bits. -/
def char (i : ℕ) : Char := S_BASE64CHAR.getD i S_BASE64PAD

theorem getElem?_base64 {i : ℕ} (h : i < 64) : S_BASE64CHAR[i]? = some (char i) := by
  have hlen : S_BASE64CHAR.length = 64 := by decide
  unfold char
  rw [List.getD_eq_getElem?_getD, List.getElem?_eq_getElem (by omega)]
  rfl

theorem decodeTable_char : ∀ i < 64, decodeTable (char i) = i := by decide +kernel

theorem char_ne_pad : ∀ i < 64, char i ≠ S_BASE64PAD := by decide +kernel

theorem isBase64_char {i : ℕ} (h : i < 64) : isBase64 (char i) = true := by
  unfold isBase64
  rw [decodeTable_char i h, Bool.or_eq_true]
  exact .inr (by simp; omega)

/-- The characters of three bytes, and of what is left at the end. -/
def pieces : List UInt8 → List (List Char × Bool)
  | a :: b :: c :: rest =>
    ([char (a.toNat / 4), char (a.toNat % 4 * 16 + b.toNat / 16),
      char (b.toNat % 16 * 4 + c.toNat / 64), char (c.toNat % 64)], true) :: pieces rest
  | [a, b] =>
    [([char (a.toNat / 4), char (a.toNat % 4 * 16 + b.toNat / 16), char (b.toNat % 16 * 4),
      S_BASE64PAD], false)]
  | [a] => [([char (a.toNat / 4), char (a.toNat % 4 * 16), S_BASE64PAD, S_BASE64PAD], false)]
  | [] => []

theorem and_63 (i : ℕ) : i &&& 0x3f = i % 64 := Nat.and_two_pow_sub_one_eq_mod i 6

theorem getElem?_of_take {data l : List UInt8} {rindex : ℕ}
    (h : (data.drop rindex).take l.length = l) {j : ℕ} (hj : j < l.length) :
    data[rindex + j]? = l[j]? := by
  rw [← List.getElem?_drop, ← List.getElem?_take_of_lt hj, h]

/-- The loop puts the pieces one after another. -/
theorem encodeTo_eq {put : σ → List Char → Bool → Option σ} {data : List UInt8} :
    ∀ (l : List UInt8) (rindex : ℕ) (s : σ), (data.drop rindex).take l.length = l →
      encodeTo put data rindex l.length s = (pieces l).foldlM (fun s p => put s p.1 p.2) s
  | [], rindex, s, _ => by
    unfold encodeTo
    rfl
  | [a], rindex, s, h => by
    have ha := a.toNat_lt
    have h₀ : data[rindex]? = some a := getElem?_of_take h (j := 0) (by simp)
    have hi : (a.toNat <<< 4) &&& 0x3f = a.toNat % 4 * 16 := by
      rw [and_63, Nat.shiftLeft_eq]
      omega
    have hi' : a.toNat >>> 2 = a.toNat / 4 := Nat.shiftRight_eq_div_pow _ 2
    unfold encodeTo
    rw [show [a].length = 1 from rfl, if_neg (by decide), if_pos rfl, h₀]
    simp only [Option.bind_eq_bind, Option.bind_some]
    rw [hi, hi', getElem?_base64 (by omega), getElem?_base64 (by omega)]
    simp [pieces]
  | [a, b], rindex, s, h => by
    have ha := a.toNat_lt
    have hb := b.toNat_lt
    have h₀ : data[rindex]? = some a := getElem?_of_take h (j := 0) (by simp)
    have h₁ : data[rindex + 1]? = some b := getElem?_of_take h (j := 1) (by simp)
    obtain ⟨i, hi⟩ : ∃ i, i = (a.toNat <<< 8) + b.toNat := ⟨_, rfl⟩
    have hi' : i = a.toNat * 256 + b.toNat := by rw [hi, Nat.shiftLeft_eq]
    have e₀ : i >>> 10 = a.toNat / 4 := by
      rw [Nat.shiftRight_eq_div_pow]
      omega
    have e₁ : (i >>> 4) &&& 0x3f = a.toNat % 4 * 16 + b.toNat / 16 := by
      rw [and_63, Nat.shiftRight_eq_div_pow]
      omega
    have e₂ : (i <<< 2) &&& 0x3f = b.toNat % 16 * 4 := by
      rw [and_63, Nat.shiftLeft_eq]
      omega
    unfold encodeTo
    rw [show [a, b].length = 2 from rfl, if_neg (by decide), if_neg (by decide), if_pos rfl, h₀, h₁]
    simp only [Option.bind_eq_bind, Option.bind_some]
    rw [← hi, e₀, e₁, e₂, getElem?_base64 (by omega), getElem?_base64 (by omega),
      getElem?_base64 (by omega)]
    simp [pieces]
  | a :: b :: c :: rest, rindex, s, h => by
    have ha := a.toNat_lt
    have hb := b.toNat_lt
    have hc := c.toNat_lt
    have h₀ : data[rindex]? = some a := getElem?_of_take h (j := 0) (by simp)
    have h₁ : data[rindex + 1]? = some b := getElem?_of_take h (j := 1) (by simp)
    have h₂ : data[rindex + 2]? = some c := getElem?_of_take h (j := 2) (by simp)
    obtain ⟨i, hi⟩ : ∃ i, i = (a.toNat <<< 16) + (b.toNat <<< 8) + c.toNat := ⟨_, rfl⟩
    have hi' : i = a.toNat * 65536 + b.toNat * 256 + c.toNat := by
      rw [hi, Nat.shiftLeft_eq, Nat.shiftLeft_eq]
    have e₀ : i >>> 18 = a.toNat / 4 := by
      rw [Nat.shiftRight_eq_div_pow]
      omega
    have e₁ : (i >>> 12) &&& 0x3f = a.toNat % 4 * 16 + b.toNat / 16 := by
      rw [and_63, Nat.shiftRight_eq_div_pow]
      omega
    have e₂ : (i >>> 6) &&& 0x3f = b.toNat % 16 * 4 + c.toNat / 64 := by
      rw [and_63, Nat.shiftRight_eq_div_pow]
      omega
    have e₃ : i &&& 0x3f = c.toNat % 64 := by
      rw [and_63]
      omega
    have hrest : (data.drop (rindex + 3)).take rest.length = rest := by
      have := congrArg (List.drop 3) h
      rw [List.drop_take, List.drop_drop] at this
      exact this
    unfold encodeTo
    rw [if_pos (by simp), h₀, h₁, h₂]
    simp only [Option.bind_eq_bind, Option.bind_some]
    rw [← hi, e₀, e₁, e₂, e₃, getElem?_base64 (by omega), getElem?_base64 (by omega),
      getElem?_base64 (by omega), getElem?_base64 (by omega)]
    simp only [Option.bind_some, pieces, List.foldlM_cons]
    refine congrArg _ (funext fun s' => ?_)
    exact encodeTo_eq rest (rindex + 3) s' hrest

/-! ### Reading it back -/

def text (l : List UInt8) : List Char := (pieces l).flatMap Prod.fst

/-- The three bytes of four groups of six bits. -/
theorem byte₀ : ∀ i < 64, ∀ j < 64,
    ((i <<< 2) &&& 0xfc ||| (j >>> 4) &&& 0x3) = 4 * i + j / 16 := by
  decide +kernel

theorem byte₁ : ∀ j < 64, ∀ k < 64,
    ((j <<< 4) &&& 0xf0 ||| (k >>> 2) &&& 0xf) = 16 * (j % 16) + k / 4 := by
  decide +kernel

theorem byte₂ : ∀ k < 64, ∀ n < 64, ((k <<< 6) &&& 0xc0 ||| n &&& 0x3f) = 64 * (k % 4) + n := by
  decide +kernel

theorem ofNat_eq {a : UInt8} {n : ℕ} (h : n = a.toNat) : UInt8.ofNat n = a := by
  rw [h, UInt8.ofNat_toNat]

section
variable (a b c : UInt8)

theorem decode0_three :
    decode0 (char (a.toNat / 4)) (char (a.toNat % 4 * 16 + b.toNat / 16))
      (char (b.toNat % 16 * 4 + c.toNat / 64)) (char (c.toNat % 64)) = [a, b, c] := by
  have ha := a.toNat_lt
  have hb := b.toNat_lt
  have hc := c.toNat_lt
  have l₀ : a.toNat / 4 < 64 := by omega
  have l₁ : a.toNat % 4 * 16 + b.toNat / 16 < 64 := by omega
  have l₂ : b.toNat % 16 * 4 + c.toNat / 64 < 64 := by omega
  have l₃ : c.toNat % 64 < 64 := by omega
  unfold decode0
  dsimp only
  rw [if_neg (char_ne_pad _ l₂), if_neg (char_ne_pad _ l₃), decodeTable_char _ l₀,
    decodeTable_char _ l₁, decodeTable_char _ l₂, decodeTable_char _ l₃, byte₀ _ l₀ _ l₁,
    byte₁ _ l₁ _ l₂, byte₂ _ l₂ _ l₃]
  rw [@ofNat_eq a _ (by omega), @ofNat_eq b _ (by omega), @ofNat_eq c _ (by omega)]

theorem decode0_two :
    decode0 (char (a.toNat / 4)) (char (a.toNat % 4 * 16 + b.toNat / 16))
      (char (b.toNat % 16 * 4)) S_BASE64PAD = [a, b] := by
  have ha := a.toNat_lt
  have hb := b.toNat_lt
  have l₀ : a.toNat / 4 < 64 := by omega
  have l₁ : a.toNat % 4 * 16 + b.toNat / 16 < 64 := by omega
  have l₂ : b.toNat % 16 * 4 < 64 := by omega
  unfold decode0
  dsimp only
  rw [if_neg (char_ne_pad _ l₂), if_pos rfl, decodeTable_char _ l₀, decodeTable_char _ l₁,
    decodeTable_char _ l₂, byte₀ _ l₀ _ l₁, byte₁ _ l₁ _ l₂]
  rw [@ofNat_eq a _ (by omega), @ofNat_eq b _ (by omega)]

theorem decode0_one :
    decode0 (char (a.toNat / 4)) (char (a.toNat % 4 * 16)) S_BASE64PAD S_BASE64PAD = [a] := by
  have ha := a.toNat_lt
  have l₀ : a.toNat / 4 < 64 := by omega
  have l₁ : a.toNat % 4 * 16 < 64 := by omega
  unfold decode0
  dsimp only
  rw [if_pos rfl, decodeTable_char _ l₀, decodeTable_char _ l₁, byte₀ _ l₀ _ l₁]
  rw [@ofNat_eq a _ (by omega)]

end

theorem bytes_text : ∀ l : List UInt8, bytes (text l) = l
  | [] => rfl
  | [a] => (List.append_nil _).trans (decode0_one a)
  | [a, b] => (List.append_nil _).trans (decode0_two a b)
  | a :: b :: c :: rest => by
    show decode0 _ _ _ _ ++ bytes (text rest) = _
    rw [decode0_three, bytes_text rest]
    rfl

/-- Every character of a piece is a Base64 character. -/
theorem isBase64_text : ∀ l : List UInt8, ∀ ch ∈ text l, isBase64 ch = true
  | [] => nofun
  | [a] => by
    have ha := a.toNat_lt
    intro ch hch
    have hch : ch ∈ [_, _, _, _] := hch
    simp only [List.mem_cons, List.not_mem_nil, or_false] at hch
    rcases hch with rfl | rfl | rfl | rfl
    · exact isBase64_char (by omega)
    · exact isBase64_char (by omega)
    · rfl
    · rfl
  | [a, b] => by
    have ha := a.toNat_lt
    have hb := b.toNat_lt
    intro ch hch
    have hch : ch ∈ [_, _, _, _] := hch
    simp only [List.mem_cons, List.not_mem_nil, or_false] at hch
    rcases hch with rfl | rfl | rfl | rfl
    · exact isBase64_char (by omega)
    · exact isBase64_char (by omega)
    · exact isBase64_char (by omega)
    · rfl
  | a :: b :: c :: rest => by
    have ha := a.toNat_lt
    have hb := b.toNat_lt
    have hc := c.toNat_lt
    intro ch hch
    have hch : ch ∈ [_, _, _, _] ++ text rest := hch
    rcases List.mem_append.mp hch with hch | hch
    · simp only [List.mem_cons, List.not_mem_nil, or_false] at hch
      rcases hch with rfl | rfl | rfl | rfl
      · exact isBase64_char (by omega)
      · exact isBase64_char (by omega)
      · exact isBase64_char (by omega)
      · exact isBase64_char (by omega)
    · exact isBase64_text rest ch hch

/-- The pieces fit the array of `encode`. -/
theorem length_text : ∀ l : List UInt8, (text l).length = (l.length + 2) / 3 * 4
  | [] => rfl
  | [_] => by simp [text, pieces]
  | [_, _] => by simp [text, pieces]
  | a :: b :: c :: rest => by
    show ([_, _, _, _] ++ text rest).length = _
    rw [List.length_append, length_text rest]
    simp only [List.length_cons, List.length_nil]
    omega

theorem foldlM_write {cap : ℕ} : ∀ (ps : List (List Char × Bool)) (out : List Char),
    out.length + (ps.flatMap Prod.fst).length ≤ cap →
    ps.foldlM (fun out p => write cap out p.1) out = some (out ++ ps.flatMap Prod.fst)
  | [], out, _ => by simp
  | p :: ps, out, h => by
    rw [List.flatMap_cons, List.length_append] at h
    rw [List.foldlM_cons, write, if_pos (by omega)]
    show ps.foldlM _ _ = _
    rw [foldlM_write ps (out ++ p.1) (by rw [List.length_append]; omega), List.flatMap_cons,
      List.append_assoc]

theorem foldlM_append : ∀ (ps : List (List Char × Bool)) (out : List Char),
    ps.foldlM (fun out p => some (out ++ p.1)) out = some (out ++ ps.flatMap Prod.fst)
  | [], out => by simp
  | p :: ps, out => by
    rw [List.foldlM_cons]
    show ps.foldlM _ _ = _
    rw [foldlM_append ps (out ++ p.1), List.flatMap_cons, List.append_assoc]

/-- Without its line ends the writer's text is that of the string. -/
theorem foldlM_writeLine : ∀ (ps : List (List Char × Bool)) (s : List Char × ℕ),
    (∀ p ∈ ps, ∀ ch ∈ p.1, isBase64 ch = true) →
    ∃ s', ps.foldlM (fun s p => writeLine s p.1 p.2) s = some s' ∧
      s'.1.filter isBase64 = s.1.filter isBase64 ++ ps.flatMap Prod.fst
  | [], s, _ => ⟨s, rfl, by simp⟩
  | p :: ps, s, h => by
    obtain ⟨s₁, hs₁, hfilter⟩ : ∃ s₁, writeLine s p.1 p.2 = some s₁ ∧
        s₁.1.filter isBase64 = s.1.filter isBase64 ++ p.1 := by
      have hp : p.1.filter isBase64 = p.1 :=
        List.filter_eq_self.mpr (h p List.mem_cons_self)
      unfold writeLine
      split
      · refine ⟨_, rfl, ?_⟩
        rw [List.filter_append, List.filter_append, hp]
        split
        · rw [show ['\n'].filter isBase64 = [] by decide, List.append_nil]
        · rw [List.filter_nil, List.append_nil]
      · refine ⟨_, rfl, ?_⟩
        rw [List.filter_append, hp]
    obtain ⟨s', hs', hfilter'⟩ := foldlM_writeLine ps s₁ fun p hp => h p (List.mem_cons_of_mem _ hp)
    refine ⟨s', ?_, ?_⟩
    · rw [List.foldlM_cons, hs₁]
      exact hs'
    · rw [hfilter', hfilter, List.flatMap_cons, List.append_assoc]

/-- The characters of an array, from its start to its end. -/
theorem decode_all (s : List Char) : decode s 0 s.length = decodeString s ∧
    decodeStream s 0 s.length = decodeStringStream s := by
  have h : s.length = 0 ∨ 0 + s.length ≤ s.length := .inr (by omega)
  unfold decode decodeStream
  rw [if_pos h, if_pos h, List.drop_zero, List.take_length]
  exact ⟨rfl, rfl⟩

/-- **What any way of encoding writes, any way of decoding reads back**: the bytes from
`off` up to `len`. -/
theorem decode_encode (data : List UInt8) (off len : ℕ) (hlen : len ≤ data.length)
    (hcap : len / 3 * 4 + 4 < 2 ^ 31) :
    ∃ out lines, encode data off len = some out ∧ encodeStream data off len = some out ∧
      encodeWriter data off len = some lines ∧ lines.filter isBase64 = out ∧
      (∀ s, s = out ∨ s = lines → decodeString s = some ((data.take len).drop off) ∧
        decodeStringStream s = some ((data.take len).drop off) ∧
        decode s 0 s.length = some ((data.take len).drop off) ∧
        decodeStream s 0 s.length = some ((data.take len).drop off)) := by
  have hl : ((data.take len).drop off).length = len - off := by
    rw [List.length_drop, List.length_take]
    omega
  generalize hd : (data.take len).drop off = l at hl ⊢
  have htake : (data.drop off).take l.length = l := by
    rw [hl, ← List.drop_take, hd]
  have hmem : ∀ p ∈ pieces l, ∀ ch ∈ p.1, isBase64 ch = true := fun p hp ch hch =>
    isBase64_text l ch (List.mem_flatMap.mpr ⟨p, hp, hch⟩)
  obtain ⟨lines, hlines, hfilter⟩ : ∃ lines, encodeWriter data off len = some lines ∧
      lines.filter isBase64 = text l := by
    unfold encodeWriter
    split
    · have : l = [] := List.length_eq_zero_iff.mp (by omega)
      subst this
      exact ⟨[], rfl, rfl⟩
    · obtain ⟨s', hs', hf⟩ := foldlM_writeLine (pieces l) ([], 0) hmem
      rw [← hl, encodeTo_eq l off _ htake, hs']
      exact ⟨s'.1, rfl, hf⟩
  have htext : (text l).filter isBase64 = text l := List.filter_eq_self.mpr (isBase64_text l)
  refine ⟨text l, lines, ?_, ?_, hlines, hfilter, fun s hs => ?_⟩
  · unfold encode
    split
    · have : l = [] := List.length_eq_zero_iff.mp (by omega)
      subst this
      rfl
    · have hroom := length_text l
      rw [if_neg (by omega), ← hl, encodeTo_eq l off _ htake]
      exact foldlM_write (pieces l) [] (by
        show 0 + (text l).length ≤ _
        omega)
  · unfold encodeStream
    split
    · have : l = [] := List.length_eq_zero_iff.mp (by omega)
      subst this
      rfl
    · rw [← hl, encodeTo_eq l off _ htake]
      exact foldlM_append (pieces l) []
  · have hbytes : bytes (s.filter isBase64) = l := by
      rcases hs with rfl | rfl
      · rw [htext, bytes_text]
      · rw [hfilter, bytes_text]
    rw [(decode_all s).1, (decode_all s).2, (decode_eq s).1, (decode_eq s).2, hbytes]
    exact ⟨rfl, rfl, rfl, rfl⟩

/-- Bytes 1 and 2 of four: `len` is where they end. -/
theorem decode_encode_part :
    ∃ out lines, encode [7, 255, 0, 9] 1 3 = some out ∧ encodeStream [7, 255, 0, 9] 1 3 = some out ∧
      encodeWriter [7, 255, 0, 9] 1 3 = some lines ∧ lines.filter isBase64 = out ∧
      (∀ s, s = out ∨ s = lines → decodeString s = some [255, 0] ∧
        decodeStringStream s = some [255, 0] ∧ decode s 0 s.length = some [255, 0] ∧
        decodeStream s 0 s.length = some [255, 0]) :=
  decode_encode [7, 255, 0, 9] 1 3 (by decide) (by decide)

/-! ### Texts one after another -/

theorem bytes_append {t : List Char} : ∀ {s : List Char}, 4 ∣ s.length →
    bytes (s ++ t) = bytes s ++ bytes t
  | [], _ => rfl
  | [_], h => by simp at h
  | [_, _], h => by simp at h
  | [_, _, _], h => by simp at h
  | c₀ :: c₁ :: c₂ :: c₃ :: s, h => by
    have hs : 4 ∣ s.length := by
      simp only [List.length_cons] at h
      omega
    show decode0 _ _ _ _ ++ bytes (s ++ t) = decode0 _ _ _ _ ++ bytes s ++ bytes t
    rw [bytes_append hs, List.append_assoc]

/-- **Texts of whole groups decode one after another**, whatever other characters and padding
are in them; no text is an exception. -/
theorem decode_append (s t : List Char) (h : 4 ∣ (s.filter isBase64).length) :
    ∃ bs bs', decodeString s = some bs ∧ decodeString t = some bs' ∧
      decodeString (s ++ t) = some (bs ++ bs') ∧ decodeStringStream (s ++ t) = some (bs ++ bs') := by
  refine ⟨_, _, (decode_eq s).1, (decode_eq t).1, ?_, ?_⟩
  · rw [(decode_eq (s ++ t)).1, List.filter_append, bytes_append h]
  · rw [(decode_eq (s ++ t)).2, List.filter_append, bytes_append h]

theorem decode_append_lines :
    ∃ bs bs', decodeString "Bw==\n".toList = some bs ∧ decodeString "/w!AJ".toList = some bs' ∧
      decodeString ("Bw==\n".toList ++ "/w!AJ".toList) = some (bs ++ bs') ∧
      decodeStringStream ("Bw==\n".toList ++ "/w!AJ".toList) = some (bs ++ bs') :=
  decode_append _ _ (by decide)

/-! ### Texts that are letters only -/

theorem char_decodeTable {ch : Char} (h : decodeTable ch < 64) : char (decodeTable ch) = ch := by
  have hlen : S_BASE64CHAR.length = 64 := by decide
  unfold decodeTable at h ⊢
  split at h
  · rename_i hidx
    rw [if_pos hidx]
    unfold char
    rw [List.getD_eq_getElem?_getD, List.getElem?_eq_getElem (by omega), Option.getD_some]
    exact List.getElem_idxOf (by omega)
  · omega

/-- Whole groups of letters, as an id has, are written again as they were read. -/
theorem text_bytes : ∀ s : List Char, 4 ∣ s.length → (∀ ch ∈ s, decodeTable ch < 64) →
    text (bytes s) = s
  | [], _, _ => rfl
  | [_], h, _ => by simp at h
  | [_, _], h, _ => by simp at h
  | [_, _, _], h, _ => by simp at h
  | c₀ :: c₁ :: c₂ :: c₃ :: s, h, hs => by
    have hdvd : 4 ∣ s.length := by
      simp only [List.length_cons] at h
      omega
    obtain ⟨l₀, hs⟩ := List.forall_mem_cons.mp hs
    obtain ⟨l₁, hs⟩ := List.forall_mem_cons.mp hs
    obtain ⟨l₂, hs⟩ := List.forall_mem_cons.mp hs
    obtain ⟨l₃, hs⟩ := List.forall_mem_cons.mp hs
    have ih := text_bytes s hdvd hs
    rw [← char_decodeTable l₀, ← char_decodeTable l₁, ← char_decodeTable l₂,
      ← char_decodeTable l₃]
    generalize decodeTable c₀ = i at l₀ ⊢
    generalize decodeTable c₁ = j at l₁ ⊢
    generalize decodeTable c₂ = k at l₂ ⊢
    generalize decodeTable c₃ = n at l₃ ⊢
    have hdecode : decode0 (char i) (char j) (char k) (char n) =
        [UInt8.ofNat (4 * i + j / 16), UInt8.ofNat (16 * (j % 16) + k / 4),
          UInt8.ofNat (64 * (k % 4) + n)] := by
      unfold decode0
      dsimp only
      rw [if_neg (char_ne_pad _ l₂), if_neg (char_ne_pad _ l₃), decodeTable_char _ l₀,
        decodeTable_char _ l₁, decodeTable_char _ l₂, decodeTable_char _ l₃, byte₀ _ l₀ _ l₁,
        byte₁ _ l₁ _ l₂, byte₂ _ l₂ _ l₃]
    have hnat : ∀ m < 256, (UInt8.ofNat m).toNat = m := fun m hm => UInt8.toNat_ofNat_of_lt hm
    show text (decode0 _ _ _ _ ++ bytes s) = _
    rw [hdecode]
    show [_, _, _, _] ++ text (bytes s) = _
    rw [ih, hnat _ (by omega), hnat _ (by omega), hnat _ (by omega),
      show (4 * i + j / 16) / 4 = i by omega,
      show (4 * i + j / 16) % 4 * 16 + (16 * (j % 16) + k / 4) / 16 = j by omega,
      show (16 * (j % 16) + k / 4) % 16 * 4 + (64 * (k % 4) + n) / 64 = k by omega,
      show (64 * (k % 4) + n) % 64 = n by omega]
    rfl

/-- Different texts of letters are different bytes. -/
theorem decodeString_inj {s t : List Char} (hs : 4 ∣ s.length) (ht : 4 ∣ t.length)
    (hs' : ∀ ch ∈ s, decodeTable ch < 64) (ht' : ∀ ch ∈ t, decodeTable ch < 64)
    (h : decodeString s = decodeString t) : s = t := by
  have hletters : ∀ u : List Char, (∀ ch ∈ u, decodeTable ch < 64) → u.filter isBase64 = u :=
    fun u hu => List.filter_eq_self.mpr fun ch hch => by
      have := hu ch hch
      unfold isBase64
      rw [Bool.or_eq_true]
      exact .inr (by simp; omega)
  rw [(decode_eq s).1, (decode_eq t).1, hletters s hs', hletters t ht', Option.some.injEq] at h
  rw [← text_bytes s hs hs', ← text_bytes t ht ht', h]

end Base64
end CloudManager
