/-
# Ids from the clock: SnowFlake

`nextId` packs the time since `twepoch`, the data centre, the worker and a
sequence number within the millisecond into a `long`. The clock is the list of
readings that one call sees. `nextId_cases` says all that a call can do; from
it the ids of a generator increase (`ids_increasing`) and name the
generator that made them (`ids_global`).
-/
import CloudManager.Lib.BitFields
import CloudManager.Lib.Runs

namespace CloudManager

open BitFields Runs

namespace SnowFlake

def twepoch : Int64 := 1420041600000
def workerIdBits : Int64 := 5
def datacenterIdBits : Int64 := 5
def maxWorkerId : Int64 := (-1 : Int64) ^^^ ((-1 : Int64) <<< workerIdBits)
def maxDatacenterId : Int64 := (-1 : Int64) ^^^ ((-1 : Int64) <<< datacenterIdBits)
def sequenceBits : Int64 := 12
def workerIdShift : Int64 := sequenceBits
def datacenterIdShift : Int64 := sequenceBits + workerIdBits
def timestampLeftShift : Int64 := sequenceBits + workerIdBits + datacenterIdBits
def sequenceMask : Int64 := (-1 : Int64) ^^^ ((-1 : Int64) <<< sequenceBits)

/-! ### The constants -/

theorem toInt_maxWorkerId : maxWorkerId.toInt = 31 := by decide

theorem toInt_maxDatacenterId : maxDatacenterId.toInt = 31 := by decide

theorem toInt_sequenceMask : sequenceMask.toInt = 4095 := by decide

theorem word_sequenceMask : word sequenceMask = 2 ^ 12 - 1 := by decide

theorem toInt_and_sequenceMask (a : Int64) :
    0 ≤ (a &&& sequenceMask).toInt ∧ (a &&& sequenceMask).toInt ≤ sequenceMask.toInt := by
  have hle : word (a &&& sequenceMask) ≤ 4095 := by
    rw [word_and, word_sequenceMask]
    exact Nat.and_le_right
  rw [toInt_sequenceMask, toInt_eq_word (by omega)]
  omega

end SnowFlake

open SnowFlake in
/-- A generator; the constructor's checks and the mask are its invariant. -/
structure SnowFlake where
  workerId : Int64
  datacenterId : Int64
  sequence : Int64 := 0
  lastTimestamp : Int64 := -1
  workerId_mem : 0 ≤ workerId.toInt ∧ workerId.toInt ≤ maxWorkerId.toInt
  datacenterId_mem : 0 ≤ datacenterId.toInt ∧ datacenterId.toInt ≤ maxDatacenterId.toInt
  sequence_mem : 0 ≤ sequence.toInt ∧ sequence.toInt ≤ sequenceMask.toInt

namespace SnowFlake

/-- The constructor. -/
def new (workerId datacenterId : Int64) : Except String SnowFlake :=
  if hw : workerId > maxWorkerId ∨ workerId < 0 then
    .error ("worker Id can't be greater than " ++ toString maxWorkerId ++ " or less than 0")
  else if hd : datacenterId > maxDatacenterId ∨ datacenterId < 0 then
    .error ("datacenter Id can't be greater than " ++ toString maxDatacenterId ++ " or less than 0")
  else
    .ok { workerId := workerId
          datacenterId := datacenterId
          workerId_mem := by simpa [Int64.lt_iff_toInt_lt, and_comm] using hw
          datacenterId_mem := by simpa [Int64.lt_iff_toInt_lt, and_comm] using hd
          sequence_mem := by decide }

/-- Read the clock until it is past `lastTimestamp`; `none` while it is not. -/
def tilNextMillis (lastTimestamp : Int64) : List Int64 → Option Int64
  | [] => none
  | timestamp :: clock =>
    if timestamp ≤ lastTimestamp then tilNextMillis lastTimestamp clock else some timestamp

/-- The id packed from the fields. -/
def pack (g : SnowFlake) : Int64 :=
  ((g.lastTimestamp - twepoch) <<< timestampLeftShift) |||
    (g.datacenterId <<< datacenterIdShift) |||
    (g.workerId <<< workerIdShift) |||
    g.sequence

/-- The end of `nextId`: keep the time, return the id. -/
def emit (g : SnowFlake) (timestamp : Int64) : Except String Int64 × SnowFlake :=
  let g := { g with lastTimestamp := timestamp }
  (.ok g.pack, g)

/-- One call, with the readings of the clock it sees; `none` if it still waits
for the next millisecond when they end. -/
def nextId (g : SnowFlake) : List Int64 → Option (Except String Int64 × SnowFlake)
  | [] => none
  | timestamp :: clock =>
    if timestamp < g.lastTimestamp then
      some (.error ("Clock moved backwards.  Refusing to generate id for " ++
        toString (g.lastTimestamp - timestamp) ++ " milliseconds"), g)
    else if g.lastTimestamp = timestamp then
      let sequence := (g.sequence + 1) &&& sequenceMask
      let next := { g with sequence := sequence, sequence_mem := toInt_and_sequenceMask _ }
      if sequence = 0 then (tilNextMillis g.lastTimestamp clock).map next.emit
      else some (next.emit timestamp)
    else some ({ g with sequence := 0, sequence_mem := by decide }.emit timestamp)

/-! ### What a call can do -/

/-- The readings for which 41 bits of milliseconds are enough. -/
def InRange (timestamp : Int64) : Prop :=
  twepoch.toInt ≤ timestamp.toInt ∧ timestamp.toInt < twepoch.toInt + 2 ^ 41

instance (timestamp : Int64) : Decidable (InRange timestamp) := inferInstanceAs (Decidable (_ ∧ _))

/-- `g'` is `g` at a later instant: a later time, or a later place in the
same millisecond. -/
structure Later (g g' : SnowFlake) : Prop where
  workerId : g'.workerId = g.workerId
  datacenterId : g'.datacenterId = g.datacenterId
  instant : g.lastTimestamp < g'.lastTimestamp ∨
    g.lastTimestamp = g'.lastTimestamp ∧ g.sequence.toInt < g'.sequence.toInt

variable {g g' : SnowFlake} {clock : List Int64} {timestamp : Int64}

theorem tilNextMillis_some {last : Int64} : ∀ {clock : List Int64},
    tilNextMillis last clock = some timestamp → timestamp ∈ clock ∧ last < timestamp
  | t :: clock, h => by
    unfold tilNextMillis at h
    split at h
    · obtain ⟨hm, hl⟩ := tilNextMillis_some h
      exact ⟨List.mem_cons_of_mem _ hm, hl⟩
    · rename_i hle
      cases h
      exact ⟨List.mem_cons_self, Int64.not_le.mp hle⟩

/-- The next sequence number, unless it wraps around to 0. -/
theorem sequence_lt_next (h : (g.sequence + 1) &&& sequenceMask ≠ 0) :
    g.sequence.toInt < ((g.sequence + 1) &&& sequenceMask).toInt := by
  obtain ⟨h0, h1⟩ := g.sequence_mem
  rw [toInt_sequenceMask] at h1
  have hw := word_eq_toInt h0
  have hs : word (g.sequence + 1) = word g.sequence + 1 := by
    unfold word at hw ⊢
    rw [Int64.toBitVec_add, BitVec.toNat_add_of_lt]
    · rfl
    · have : g.sequence.toBitVec.toNat + 1 < 2 ^ 64 := by omega
      exact this
  have hm : word ((g.sequence + 1) &&& sequenceMask) = (word g.sequence + 1) % 2 ^ 12 := by
    rw [word_and, hs, word_sequenceMask, Nat.and_two_pow_sub_one_eq_mod]
  have hne : word ((g.sequence + 1) &&& sequenceMask) ≠ 0 := fun hz => h (word_inj hz)
  rw [← hw, toInt_eq_word (by omega)]
  omega

/-- **All that a call can do**: throw at a clock behind the last id and leave the
generator as it is, or move to a later instant that the clock showed and return
the id packed there. -/
theorem nextId_cases {r : Except String Int64} (h : g.nextId clock = some (r, g')) :
    (∃ m, r = .error m ∧ g' = g ∧ ∃ t ∈ clock.head?, t < g.lastTimestamp) ∨
      (r = .ok g'.pack ∧ g'.lastTimestamp ∈ clock ∧ Later g g') := by
  cases clock with
  | nil => cases h
  | cons t clock =>
    simp only [nextId] at h
    split at h
    · rename_i hback
      cases h
      exact .inl ⟨_, rfl, rfl, t, rfl, hback⟩
    rename_i hback
    split at h
    · rename_i heq
      split at h
      · -- the sequence is used up: the first reading past the millisecond
        obtain ⟨t', ht', he⟩ := Option.map_eq_some_iff.mp h
        obtain ⟨hm, hl⟩ := tilNextMillis_some ht'
        cases he
        exact .inr ⟨rfl, List.mem_cons_of_mem _ hm, rfl, rfl, .inl hl⟩
      · rename_i hne
        cases h
        exact .inr ⟨rfl, List.mem_cons_self, rfl, rfl, .inr ⟨heq, sequence_lt_next hne⟩⟩
    · rename_i hne
      cases h
      have hlt : g.lastTimestamp < t := Int64.lt_of_le_of_ne (Int64.not_lt.mp hback) hne
      exact .inr ⟨rfl, List.mem_cons_self, rfl, rfl, .inl hlt⟩

theorem tilNextMillis_isSome {last : Int64} : ∀ {clock : List Int64},
    (∃ t ∈ clock, last < t) → ∃ t, tilNextMillis last clock = some t
  | [], ⟨_, hm, _⟩ => absurd hm List.not_mem_nil
  | t :: clock, ⟨t', hm, hl⟩ => by
    unfold tilNextMillis
    split
    · rename_i hle
      rcases List.mem_cons.mp hm with rfl | hm
      · exact absurd hl (Int64.not_lt.mpr hle)
      · exact tilNextMillis_isSome ⟨t', hm, hl⟩
    · exact ⟨t, rfl⟩

/-- A call whose clock is not behind the last id returns an id, once the clock is past the
millisecond of the last one. -/
theorem nextId_returns (hle : g.lastTimestamp ≤ timestamp) (h : ∃ t ∈ clock, g.lastTimestamp < t) :
    ∃ g', g.nextId (timestamp :: clock) = some (.ok g'.pack, g') := by
  have hends : ∃ r g', g.nextId (timestamp :: clock) = some (r, g') := by
    simp only [nextId]
    split
    · exact ⟨_, _, rfl⟩
    split
    · split
      · obtain ⟨t, ht⟩ := tilNextMillis_isSome h
        rw [ht]
        exact ⟨_, _, rfl⟩
      · exact ⟨_, _, rfl⟩
    · exact ⟨_, _, rfl⟩
  obtain ⟨r, g', hn⟩ := hends
  rcases nextId_cases hn with ⟨_, -, -, t, ht, hlt⟩ | ⟨rfl, -, -⟩
  · obtain rfl : timestamp = t := Option.some.inj ht
    exact absurd hle (Int64.not_le.mpr hlt)
  · exact ⟨g', hn⟩

/-! ### The id as a number -/

theorem word_workerId_lt (g : SnowFlake) : word g.workerId < 2 ^ 5 := by
  have hw := word_eq_toInt g.workerId_mem.1
  have hle := g.workerId_mem.2
  rw [toInt_maxWorkerId] at hle
  omega

theorem word_datacenterId_lt (g : SnowFlake) : word g.datacenterId < 2 ^ 5 := by
  have hw := word_eq_toInt g.datacenterId_mem.1
  have hle := g.datacenterId_mem.2
  rw [toInt_maxDatacenterId] at hle
  omega

theorem word_sequence_lt (g : SnowFlake) : word g.sequence < 2 ^ 12 := by
  have hw := word_eq_toInt g.sequence_mem.1
  have hle := g.sequence_mem.2
  rw [toInt_sequenceMask] at hle
  omega

theorem toInt_sub_twepoch (h : InRange timestamp) :
    (timestamp - twepoch).toInt = timestamp.toInt - twepoch.toInt := by
  apply Int64.toInt_sub_of_le
  · decide
  · exact Int64.le_iff_toInt_le.mpr h.1

theorem word_sub_twepoch (h : InRange timestamp) :
    (word (timestamp - twepoch) : ℤ) = timestamp.toInt - twepoch.toInt := by
  have hs := toInt_sub_twepoch h
  have h1 := h.1
  rw [word_eq_toInt (by omega), hs]

theorem word_sub_twepoch_lt (h : InRange timestamp) : word (timestamp - twepoch) < 2 ^ 41 := by
  have hw := word_sub_twepoch h
  have h2 := h.2
  omega

/-- The four fields side by side. -/
def code (g : SnowFlake) : ℕ :=
  place 12 (place 5 (place 5 (word (g.lastTimestamp - twepoch)) (word g.datacenterId))
    (word g.workerId)) (word g.sequence)

theorem code_lt (h : InRange g.lastTimestamp) : g.code < 2 ^ 63 := by
  have h1 := place_lt (word_sub_twepoch_lt h) (word_datacenterId_lt g)
  have h2 := place_lt h1 (word_workerId_lt g)
  exact place_lt h2 (word_sequence_lt g)

/-- The shifts of `nextId` lay the fields side by side. -/
theorem word_pack (h : InRange g.lastTimestamp) : word g.pack = g.code := by
  have h1 := word_sub_twepoch_lt h
  have h2 := word_datacenterId_lt g
  have h3 := word_workerId_lt g
  have ht : word ((g.lastTimestamp - twepoch) <<< timestampLeftShift) =
      word (g.lastTimestamp - twepoch) <<< 22 :=
    word_shiftLeft (by decide) (h1.trans (by decide))
  have hd : word (g.datacenterId <<< datacenterIdShift) = word g.datacenterId <<< 17 :=
    word_shiftLeft (by decide) (h2.trans (by decide))
  have hw : word (g.workerId <<< workerIdShift) = word g.workerId <<< 12 :=
    word_shiftLeft (by decide) (h3.trans (by decide))
  rw [pack, word_or, word_or, word_or, ht, hd, hw]
  simp only [code, place, Nat.shiftLeft_or_distrib, ← Nat.shiftLeft_add]

theorem toInt_pack (h : InRange g.lastTimestamp) : g.pack.toInt = g.code := by
  have hw := word_pack h
  have hlt := code_lt h
  rw [toInt_eq_word (by omega), hw]

/-! ### Reading an id -/

theorem pack_timestamp (h : InRange g.lastTimestamp) :
    (g.pack >>> 22) + twepoch = g.lastTimestamp := by
  have hlt := code_lt h
  have hw : word (g.pack >>> 22) = word (g.lastTimestamp - twepoch) := by
    have hs : word (g.pack >>> 22) = g.code >>> 22 := by
      rw [word_shiftRight (by decide) (by rw [word_pack h]; exact hlt), word_pack h]
      rfl
    have h5 : (22 : ℕ) = 12 + 5 + 5 := rfl
    rw [hs, h5, Nat.shiftRight_add, Nat.shiftRight_add, code, place_shiftRight (word_sequence_lt g),
      place_shiftRight (word_workerId_lt g), place_shiftRight (word_datacenterId_lt g)]
  rw [word_inj hw, Int64.sub_add_cancel]

theorem pack_datacenterId (h : InRange g.lastTimestamp) :
    (g.pack >>> 17) &&& 31 = g.datacenterId := by
  apply word_inj
  have h5 : word 17 = 12 + 5 := rfl
  have hm : word 31 = 2 ^ 5 - 1 := rfl
  rw [word_and, word_shiftRight (by decide) (by rw [word_pack h]; exact code_lt h), word_pack h,
    h5, hm, Nat.shiftRight_add, code, place_shiftRight (word_sequence_lt g),
    place_shiftRight (word_workerId_lt g), place_mask (word_datacenterId_lt g)]

theorem pack_workerId (h : InRange g.lastTimestamp) : (g.pack >>> 12) &&& 31 = g.workerId := by
  apply word_inj
  have h5 : word 12 = 12 := rfl
  have hm : word 31 = 2 ^ 5 - 1 := rfl
  rw [word_and, word_shiftRight (by decide) (by rw [word_pack h]; exact code_lt h), word_pack h,
    h5, hm, code, place_shiftRight (word_sequence_lt g), place_mask (word_workerId_lt g)]

theorem pack_sequence (h : InRange g.lastTimestamp) : g.pack &&& 4095 = g.sequence := by
  apply word_inj
  have hm : word 4095 = 2 ^ 12 - 1 := rfl
  rw [word_and, word_pack h, hm, code, place_mask (word_sequence_lt g)]

/-- At a later instant the id is larger. -/
theorem code_lt_code (h : Later g g') (hg : InRange g.lastTimestamp)
    (hg' : InRange g'.lastTimestamp) : g.code < g'.code := by
  rcases h.instant with hlt | ⟨heq, hlt⟩
  · have hlt' := Int64.lt_iff_toInt_lt.mp hlt
    have h1 := word_sub_twepoch hg
    have h2 := word_sub_twepoch hg'
    apply place_lt_place _ (word_sequence_lt g)
    apply place_lt_place _ (word_workerId_lt g)
    apply place_lt_place _ (word_datacenterId_lt g)
    omega
  · have h1 := word_eq_toInt g.sequence_mem.1
    have h2 := word_eq_toInt g'.sequence_mem.1
    rw [code, code, heq, h.datacenterId, h.workerId]
    exact place_lt_place_right (by omega) (word_sequence_lt g')

/-! ### Runs -/

/-- A generator and the ids it has returned, oldest first. -/
structure History where
  gen : SnowFlake
  ids : List Int64 := []

/-- One call; a call that throws returns nothing. -/
def History.step (s : History) (clock : List Int64) : Option History :=
  (s.gen.nextId clock).map fun
    | (.ok id, gen) => { gen := gen, ids := s.ids ++ [id] }
    | (.error _, gen) => { s with gen := gen }

/-- All readings of a call are in range. -/
def Readings (_ : History) (clock : List Int64) : Prop := ∀ t ∈ clock, InRange t

instance (s : History) (clock : List Int64) : Decidable (Readings s clock) :=
  List.decidableBAll InRange clock

/-- The histories of a generator whose clock stays in range. -/
abbrev Generates (g : SnowFlake) (s : History) : Prop :=
  Reach History.step Readings { gen := g } s

theorem new_ok {workerId datacenterId : Int64} (h : new workerId datacenterId = .ok g) :
    g.workerId = workerId ∧ g.datacenterId = datacenterId ∧ g.lastTimestamp = -1 := by
  unfold new at h
  split at h
  · cases h
  split at h
  · cases h
  · cases h
    exact ⟨rfl, rfl, rfl⟩

/-- Before the first id nothing is known of the time; after it, the ids
increase up to the one packed from the generator's own fields. -/
structure Inv (g : SnowFlake) (s : History) : Prop where
  workerId : s.gen.workerId = g.workerId
  datacenterId : s.gen.datacenterId = g.datacenterId
  started : s.ids ≠ [] → InRange s.gen.lastTimestamp
  increasing : s.ids.Pairwise (· < ·)
  bounded : ∀ id ∈ s.ids, 0 ≤ id.toInt ∧ id.toInt ≤ s.gen.code
  made : ∀ id ∈ s.ids, (id >>> 17) &&& 31 = g.datacenterId ∧ (id >>> 12) &&& 31 = g.workerId

theorem Inv.init (g : SnowFlake) : Inv g { gen := g } where
  workerId := rfl
  datacenterId := rfl
  started h := absurd rfl h
  increasing := .nil
  bounded _ h := by cases h
  made _ h := by cases h

/-- What a call that returns does to the generator. -/
theorem Inv.returns {s : History} (hI : Inv g s) (hL : Later s.gen g')
    (hr : InRange g'.lastTimestamp) : Inv g { gen := g', ids := s.ids ++ [g'.pack] } where
  workerId := hL.workerId.trans hI.workerId
  datacenterId := hL.datacenterId.trans hI.datacenterId
  started _ := hr
  increasing := by
    apply List.pairwise_append.mpr
    refine ⟨hI.increasing, List.pairwise_singleton _ _, fun id hid id' hid' => ?_⟩
    rw [List.mem_singleton.mp hid']
    apply Int64.lt_iff_toInt_lt.mpr
    have hlt := code_lt_code hL (hI.started (List.ne_nil_of_mem hid)) hr
    calc id.toInt ≤ s.gen.code := (hI.bounded id hid).2
      _ < g'.code := Int.ofNat_lt.mpr hlt
      _ = g'.pack.toInt := (toInt_pack hr).symm
  bounded id hid := by
    rcases List.mem_append.mp hid with h | h
    · obtain ⟨h0, hle⟩ := hI.bounded id h
      have hlt := code_lt_code hL (hI.started (List.ne_nil_of_mem h)) hr
      exact ⟨h0, hle.trans (Int.ofNat_le.mpr hlt.le)⟩
    · rw [List.mem_singleton.mp h, toInt_pack hr]
      exact ⟨Int.natCast_nonneg _, le_rfl⟩
  made id hid := by
    rcases List.mem_append.mp hid with h | h
    · exact hI.made id h
    · rw [List.mem_singleton.mp h, pack_datacenterId hr, pack_workerId hr]
      exact ⟨hL.datacenterId.trans hI.datacenterId, hL.workerId.trans hI.workerId⟩

theorem Inv.step {s s' : History} {clock : List Int64} (hI : Inv g s) (hok : Readings s clock)
    (h : s.step clock = some s') : Inv g s' := by
  obtain ⟨⟨r, g'⟩, hn, rfl⟩ := Option.map_eq_some_iff.mp h
  rcases nextId_cases hn with ⟨m, rfl, rfl, -⟩ | ⟨rfl, hm, hL⟩
  · exact hI
  · exact hI.returns hL (hok _ hm)

theorem Generates.inv {s : History} (h : Generates g s) : Inv g s :=
  h.invariant (Inv.init g) fun _ _ _ => Inv.step

/-- **Ids increase**: whatever the clock shows, the ids of one generator are
strictly increasing, so distinct, and none is negative; a call that throws
leaves the last time and the sequence as they were, and one whose clock is not
behind the last id does not throw. -/
theorem ids_increasing {s : History} (h : Generates g s) :
    s.ids.Pairwise (· < ·) ∧ s.ids.Nodup ∧ (∀ id ∈ s.ids, 0 ≤ id) ∧
      (∀ clock m g', s.gen.nextId clock = some (.error m, g') →
        g'.lastTimestamp = s.gen.lastTimestamp ∧ g'.sequence = s.gen.sequence) ∧
      ∀ t clock, s.gen.lastTimestamp ≤ t → (∃ t' ∈ clock, s.gen.lastTimestamp < t') →
        ∃ g', s.gen.nextId (t :: clock) = some (.ok g'.pack, g') := by
  have hI := h.inv
  refine ⟨hI.increasing, hI.increasing.imp fun hlt => Int64.ne_of_lt hlt, fun id hid => ?_,
    fun clock m g' hn => ?_, fun t clock hle h => nextId_returns hle h⟩
  · exact Int64.le_iff_toInt_le.mpr (hI.bounded id hid).1
  · rcases nextId_cases hn with ⟨_, -, rfl, -⟩ | ⟨hr, -, -⟩
    · exact ⟨rfl, rfl⟩
    · cases hr

/-- Worker `w` of data centre `w`. -/
def worker (w : Int64) (h : 0 ≤ w.toInt ∧ w.toInt ≤ 31) : SnowFlake where
  workerId := w
  datacenterId := w
  workerId_mem := toInt_maxWorkerId ▸ h
  datacenterId_mem := toInt_maxDatacenterId ▸ h
  sequence_mem := by decide

/-- Two ids in one millisecond, a clock that moves back, a later id. -/
def clocks : List (List Int64) :=
  [[1420041600007], [1420041600007], [1420041600006], [1420041600009]]

theorem clocks_increasing :
    (((runWith History.step Readings { gen := worker 12 (by decide) } clocks).get
      (by decide)).ids.Pairwise (· < ·)) :=
  (ids_increasing (reach_get clocks (by decide))).1

/-- **Ids name their generator**: generators accepted with different pairs never
return the same id, and an id gives back the fields it was packed from. -/
theorem ids_global :
    (∀ w d w' d' g g' s s', new w d = .ok g → new w' d' = .ok g' → (w, d) ≠ (w', d') →
      Generates g s → Generates g' s' → ∀ id ∈ s.ids, id ∉ s'.ids) ∧
    ∀ w d g s, new w d = .ok g → Generates g s →
      ∀ clock id g', Readings s clock → s.gen.nextId clock = some (.ok id, g') →
        (id >>> 22) + twepoch = g'.lastTimestamp ∧ (id >>> 17) &&& 31 = d ∧
          (id >>> 12) &&& 31 = w ∧ id &&& 4095 = g'.sequence ∧ g'.lastTimestamp ∈ clock := by
  constructor
  · intro w d w' d' g g' s s' hg hg' hne hs hs' id hid hid'
    obtain ⟨hw, hd, -⟩ := new_ok hg
    obtain ⟨hw', hd', -⟩ := new_ok hg'
    obtain ⟨h1, h2⟩ := hs.inv.made id hid
    obtain ⟨h1', h2'⟩ := hs'.inv.made id hid'
    apply hne
    rw [← hw, ← hd, ← hw', ← hd', ← h1, ← h2, ← h1', ← h2']
  · intro w d g s hg hs clock id g' hc hn
    obtain ⟨hw, hd, -⟩ := new_ok hg
    rcases nextId_cases hn with ⟨_, hr, -⟩ | ⟨hr, hm, hL⟩
    · cases hr
    · cases hr
      have hr := hc _ hm
      have hd' := hL.datacenterId.trans hs.inv.datacenterId
      have hw' := hL.workerId.trans hs.inv.workerId
      exact ⟨pack_timestamp hr, (pack_datacenterId hr).trans (hd'.trans hd),
        (pack_workerId hr).trans (hw'.trans hw), pack_sequence hr, hm⟩

theorem workers_global :
    (∀ id ∈ ((runWith History.step Readings { gen := worker 12 (by decide) } clocks).get
        (by decide)).ids,
      id ∉ ((runWith History.step Readings { gen := worker 3 (by decide) } clocks).get
        (by decide)).ids) ∧
    ((30982144 : Int64) >>> 22) + twepoch = 1420041600007 ∧ ((30982144 : Int64) >>> 17) &&& 31 = 12 ∧
      ((30982144 : Int64) >>> 12) &&& 31 = 12 ∧ (30982144 : Int64) &&& 4095 = 0 ∧
        (1420041600007 : Int64) ∈ [(1420041600007 : Int64)] :=
  ⟨ids_global.1 12 12 3 3 _ _ _ _ rfl rfl (by decide) (reach_get clocks (by decide))
    (reach_get clocks (by decide)),
    ids_global.2 12 12 (worker 12 (by decide)) _ rfl .init [1420041600007] 30982144
      ((worker 12 (by decide)).emit 1420041600007).2 (by decide) rfl⟩

end SnowFlake
end CloudManager
