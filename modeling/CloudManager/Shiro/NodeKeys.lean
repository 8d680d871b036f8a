/-
# The keys of the nodes

`TokenManager()` makes its key of a new id of its node. `admitted_started`: where the
addresses of the nodes differ in their first four bytes and a node starts again no
sooner than 2^8 milliseconds, and within 34 years, every start has a key of its own
(`nodup_startKeys`), so that a node admits exactly the tokens it has issued itself
(`StatelessTokens.lean`), whatever its threads do while the id is made.

The decoder is that of a library; on texts of letters in whole groups it does what
`Base64.decode` does.
-/
import CloudManager.Shiro.Base64
import CloudManager.Shiro.Uuid
import CloudManager.Shiro.StatelessTokens

namespace CloudManager
namespace NodeKey

open StatelessToken

variable {N : Type*} [DecidableEq N]

/-- `TokenManager()`: the key is made of an id of the node, one of those its threads make. -/
def Made (decodeBase64 : List Char → List UInt8) (node : Uuid.Node)
    (m : TokenManager (List UInt8)) : Prop :=
  ∃ (calls : List (Uuid.Event ℕ)) (c : Uuid.Call), c ∈ (Uuid.run node calls).calls ∧
    m.SECRET_KEY = decodeBase64 c.id

/-- The node as it is when it starts. -/
def started (address : List (BitVec 8)) (millis : ℕ) : Uuid.Node :=
  ⟨Uuid.IptoInt address, Uuid.getJVM millis⟩

/-! ### Ids as texts to decode -/

theorem digitChar_letter : ∀ d < 16, Base64.decodeTable (Nat.digitChar d) < 64 := by decide +kernel

theorem toDigits_letter (n : ℕ) : ∀ ch ∈ Nat.toDigits 16 n, Base64.decodeTable ch < 64 := by
  induction n using Nat.strongRecOn with
  | _ n ih =>
    intro ch hch
    rw [Nat.toDigits_eq_if (by decide)] at hch
    split at hch
    · rename_i h
      rw [List.mem_singleton.mp hch]
      exact digitChar_letter n h
    · rename_i h
      rcases List.mem_append.mp hch with hch | hch
      · exact ih (n / 16) (Nat.div_lt_self (by omega) (by decide)) ch hch
      · rw [List.mem_singleton.mp hch]
        exact digitChar_letter _ (Nat.mod_lt n (by decide))

theorem field_letter {w n : ℕ} : ∀ ch ∈ Uuid.field w n, Base64.decodeTable ch < 64 := by
  intro ch hch
  unfold Uuid.field List.leftpad at hch
  rcases List.mem_append.mp hch with hch | hch
  · rw [List.eq_of_mem_replicate hch]
    decide +kernel
  · exact toDigits_letter n ch hch

/-- An id is eight groups of letters. -/
theorem id_letters (node : Uuid.Node) (hi lo k : ℕ) :
    (Uuid.idOf node hi lo k).length = 32 ∧
      ∀ ch ∈ Uuid.idOf node hi lo k, Base64.decodeTable ch < 64 := by
  have hword : ∀ n : BitVec 32, n.toNat < 16 ^ 8 := fun n => n.isLt
  have hcount : k % 2 ^ 15 < 16 ^ 4 := Nat.lt_trans (Nat.mod_lt k (by decide)) (by decide)
  unfold Uuid.idOf Uuid.head
  refine ⟨?_, fun ch hch => ?_⟩
  · rw [List.length_append, List.length_append, List.length_append, List.length_append,
      Uuid.length_field (by decide) (hword _), Uuid.length_field (by decide) (hword _),
      Uuid.length_field (by decide) (Uuid.hiWord_lt hi),
      Uuid.length_field (by decide) (Uuid.loWord_lt lo), Uuid.length_field (by decide) hcount]
  · rcases List.mem_append.mp hch with hch | hch
    · rcases List.mem_append.mp hch with hch | hch
      · rcases List.mem_append.mp hch with hch | hch
        · rcases List.mem_append.mp hch with hch | hch
          · exact field_letter ch hch
          · exact field_letter ch hch
        · exact field_letter ch hch
      · exact field_letter ch hch
    · exact field_letter ch hch

/-- What a decoder has to do, of which `decodeString` is one. -/
def Decodes (decodeBase64 : List Char → List UInt8) : Prop :=
  ∀ s, 4 ∣ s.length → (∀ ch ∈ s, Base64.decodeTable ch < 64) →
    Base64.decodeString s = some (decodeBase64 s)

/-- One key, one node: the same address and the same 2^8 milliseconds. -/
theorem Made.node_eq {decodeBase64 : List Char → List UInt8} (hdecode : Decodes decodeBase64)
    {node node' : Uuid.Node} {m m' : TokenManager (List UInt8)} (hm : Made decodeBase64 node m)
    (hm' : Made decodeBase64 node' m') (h : m.SECRET_KEY = m'.SECRET_KEY) :
    node.IP = node'.IP ∧ node.JVM = node'.JVM := by
  obtain ⟨calls, c, hc, hkey⟩ := hm
  obtain ⟨calls', c', hc', hkey'⟩ := hm'
  obtain ⟨k, hk⟩ := List.mem_iff_getElem?.mp hc
  obtain ⟨k', hk'⟩ := List.mem_iff_getElem?.mp hc'
  have hid := ((Uuid.inv_run node calls).calls k c hk).2
  have hid' := ((Uuid.inv_run node' calls').calls k' c' hk').2
  obtain ⟨hlen, hletters⟩ := id_letters node c.hiTime c.loTime k
  obtain ⟨hlen', hletters'⟩ := id_letters node' c'.hiTime c'.loTime k'
  rw [← hid] at hlen hletters
  rw [← hid'] at hlen' hletters'
  have hdvd : 4 ∣ c.id.length := ⟨8, hlen⟩
  have hdvd' : 4 ∣ c'.id.length := ⟨8, hlen'⟩
  have heq : c.id = c'.id := Base64.decodeString_inj hdvd hdvd' hletters hletters' (by
    rw [hdecode _ hdvd hletters, hdecode _ hdvd' hletters', ← hkey, ← hkey', h])
  rw [hid, hid'] at heq
  exact (Uuid.idOf_inj.mp heq).1

/-! ### Starts of a run -/

/-- The 2^8 milliseconds a class was loaded in do not come again for 34 years. -/
theorem getJVM_ne {a b : ℕ} (h : a + 2 ^ 8 ≤ b) (h' : b + 2 ^ 8 < a + 2 ^ 40) :
    Uuid.getJVM a ≠ Uuid.getJVM b := by
  intro he
  have hnat := congrArg BitVec.toNat he
  unfold Uuid.getJVM at hnat
  rw [BitVec.toNat_ofNat, BitVec.toNat_ofNat, Nat.shiftRight_eq_div_pow,
    Nat.shiftRight_eq_div_pow] at hnat
  omega

variable {p : Config (List UInt8)} {events : List (Event (List UInt8) N)}
  {decodeBase64 : List Char → List UInt8} {address : N → List (BitVec 8)}

/-- Ids of different nodes, or of different starts of one node, give different keys. -/
theorem nodup_startKeys (hdecode : Decodes decodeBase64) (hlen : ∀ n, 4 ≤ (address n).length)
    (haddress : ∀ n n', (address n).take 4 = (address n').take 4 → n = n')
    (hmade : ∀ i n m, events[i]? = some (.start n m) →
      Made decodeBase64 (started (address n) (run p (events.take i)).now) m)
    (hagain : ∀ i j n m m', i < j → events[i]? = some (.start n m) →
      events[j]? = some (.start n m') →
      (run p (events.take i)).now + 2 ^ 8 ≤ (run p (events.take j)).now ∧
        (run p (events.take j)).now + 2 ^ 8 < (run p (events.take i)).now + 2 ^ 40) :
    (events.filterMap startKey).Nodup := by
  unfold List.Nodup
  rw [List.pairwise_filterMap, List.pairwise_iff_getElem]
  intro i j hi hj hij k hx k' hy hk
  have hgi : events[i]? = some events[i] := List.getElem?_eq_getElem hi
  have hgj : events[j]? = some events[j] := List.getElem?_eq_getElem hj
  match events[i], events[j], hx, hy, hgi, hgj with
  | .start n m, .start n' m', hx, hy, hgi, hgj =>
    cases hx
    cases hy
    obtain ⟨hip, hjvm⟩ := (hmade i n m hgi).node_eq hdecode (hmade j n' m' hgj) hk
    have hn : n = n' := haddress n n' (Uuid.IptoInt_inj (hlen n) (hlen n') hip)
    subst hn
    obtain ⟨h₁, h₂⟩ := hagain i j n m m' hij hgi hgj
    exact getJVM_ne h₁ h₂ hjvm

/-- **Nodes with addresses of their own admit the tokens they have issued themselves**: the
keys of all starts differ, and so a node's tokens are those of its own last start. -/
theorem admitted_started (hjwt : p.jwt.Lawful) (hdecode : Decodes decodeBase64)
    (hlen : ∀ n, 4 ≤ (address n).length)
    (haddress : ∀ n n', (address n).take 4 = (address n').take 4 → n = n')
    (hmade : ∀ i n m, events[i]? = some (.start n m) →
      Made decodeBase64 (started (address n) (run p (events.take i)).now) m)
    (hagain : ∀ i j n m m', i < j → events[i]? = some (.start n m) →
      events[j]? = some (.start n m') →
      (run p (events.take i)).now + 2 ^ 8 ≤ (run p (events.take j)).now ∧
        (run p (events.take j)).now + 2 ^ 8 < (run p (events.take i)).now + 2 ^ 40) :
    (events.filterMap startKey).Nodup ∧ ∀ node a,
      (isAccessAllowed p (run p events) node false false (some a) = true ↔
        ∃ user, (run p events).users user = true ∧ Issued p events node user a) :=
  have hkeys := nodup_startKeys hdecode hlen haddress hmade hagain
  ⟨hkeys, isAccessAllowed_iff hjwt hkeys⟩

/-! ### Two nodes -/

def keyText (key : List UInt8) : List Char := key.map fun b => Char.ofNat b.toNat

theorem keyText_injective : Function.Injective keyText := by
  refine List.map_injective_iff.mpr fun b b' h => ?_
  have hchar : ∀ n < 2 ^ 8, (Char.ofNat n).toNat = n := by decide +kernel
  have hnat := congrArg Char.toNat h
  rw [hchar _ b.toNat_lt, hchar _ b'.toNat_lt] at hnat
  exact UInt8.toNat_inj.mp hnat

def decoded (s : List Char) : List UInt8 := (Base64.decodeString s).getD []

theorem decodes_decoded : Decodes decoded := fun s _ _ => by
  unfold decoded
  rw [(Base64.decode_eq s).1]
  rfl

/-- The nodes 10.0.0.1 and 10.0.0.2. -/
def twoAddresses : Bool → List (BitVec 8)
  | false => [10, 0, 0, 1]
  | true => [10, 0, 0, 2]

/-- The manager of a node whose first id is made as it starts. -/
def firstManager (n : Bool) (millis : ℕ) : TokenManager (List UInt8) where
  jwtId := toString millis
  SECRET_KEY := decoded (Uuid.idOf (started (twoAddresses n) millis) millis millis 0)

/-- Both nodes start, a user logs in at the first, and the second starts again. -/
def twoNodes : List (Event (List UInt8) Bool) :=
  [.start false (firstManager false 0), .start true (firstManager true 0), .users fun _ => true,
    .login false "u" "c" true, .tick 500, .start true (firstManager true 500)]

def twoConfig : Config (List UInt8) := ⟨plain keyText, some 1000, fun id _ => id⟩

theorem made_firstManager (n : Bool) {millis : ℕ} (h : millis = 0 ∨ millis = 500) :
    Made decoded (started (twoAddresses n) millis) (firstManager n millis) := by
  refine ⟨[.clock millis, .hiTime 0, .loTime 0, .count 0], ⟨millis, millis, _⟩, ?_, rfl⟩
  rcases h with rfl | rfl
  · revert n
    decide +kernel
  · revert n
    decide +kernel

theorem now_twoNodes : (run twoConfig (twoNodes.take 0)).now = 0 ∧
    (run twoConfig (twoNodes.take 1)).now = 0 ∧ (run twoConfig (twoNodes.take 5)).now = 500 :=
  ⟨rfl, rfl, rfl⟩

theorem admitted_twoNodes : (twoNodes.filterMap startKey).Nodup ∧ ∀ node a,
    (isAccessAllowed twoConfig (run twoConfig twoNodes) node false false (some a) = true ↔
      ∃ user, (run twoConfig twoNodes).users user = true ∧
        Issued twoConfig twoNodes node user a) := by
  obtain ⟨h₀, h₁, h₅⟩ := now_twoNodes
  have hstart : ∀ i n m, twoNodes[i]? = some (.start n m) →
      (i = 0 ∧ n = false ∧ m = firstManager false 0) ∨ (i = 1 ∧ n = true ∧ m = firstManager true 0) ∨
        (i = 5 ∧ n = true ∧ m = firstManager true 500) := fun i n m h => by
    match i, h with
    | 0, h => cases h; exact .inl ⟨rfl, rfl, rfl⟩
    | 1, h => cases h; exact .inr (.inl ⟨rfl, rfl, rfl⟩)
    | 5, h => cases h; exact .inr (.inr ⟨rfl, rfl, rfl⟩)
  refine @admitted_started Bool _ twoConfig twoNodes decoded twoAddresses
    (plain_lawful keyText_injective) decodes_decoded (by decide) (by decide) (fun i n m h => ?_)
    (fun i j n m m' hij h h' => ?_)
  · rcases hstart i n m h with ⟨rfl, rfl, rfl⟩ | ⟨rfl, rfl, rfl⟩ | ⟨rfl, rfl, rfl⟩
    · rw [h₀]
      exact made_firstManager false (.inl rfl)
    · rw [h₁]
      exact made_firstManager true (.inl rfl)
    · rw [h₅]
      exact made_firstManager true (.inr rfl)
  · rcases hstart i n m h with ⟨rfl, rfl, -⟩ | ⟨rfl, rfl, -⟩ | ⟨rfl, rfl, -⟩ <;>
      rcases hstart j _ m' h' with ⟨rfl, hn, -⟩ | ⟨rfl, hn, -⟩ | ⟨rfl, hn, -⟩ <;> cases hn
    · omega
    · omega
    · rw [h₁, h₅]
      omega
    · omega
    · omega

end NodeKey
end CloudManager
