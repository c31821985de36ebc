import BTBFerret.BTBEntry
import BTBFerret.FallibleRuns
import Mathlib.Data.Prod.Lex

/-!
# Address ranges

A range is an interval of addresses, or a stripe of one: with interleaving masks it has only those
addresses whose masked parities, read as a number, are its match value. The tests between ranges
panic on pairs they were not made for, and a shift by the width of its operand is undefined; both
are faults here.
-/

namespace BTBFerret.Ranges

open List
open BitVec (le_def lt_def)

inductive RangeFault
  | undefinedShift
  | cannotIntersect
  | cannotSubset
  deriving DecidableEq

structure AddrRange where
  start : Addr
  end_ : Addr
  masks : List Addr
  intlvMatch : BitVec 8
  deriving DecidableEq

def popCount (x : Addr) : Nat :=
  (range 64).countP fun i => x.getLsbD i

def ctz64 (x : BitVec 64) : Nat :=
  ((range 64).find? fun i => x.getLsbD i).getD 64

/-- One bit for each mask, the parity of the bits it selects; the first mask gives the lowest. -/
def sel (masks : List Addr) (a : Addr) : Nat :=
  masks.zipIdx.foldl (fun s (mask, i) => s ||| ((popCount (a &&& mask) % 2) <<< i)) 0

def rangeSize (start size : Addr) : AddrRange where
  start := start
  end_ := start + size
  masks := []
  intlvMatch := 0

namespace AddrRange

def interleaved (r : AddrRange) : Bool := !r.masks.isEmpty

def size (r : AddrRange) : Except RangeFault Addr :=
  if r.masks.length < 64 then .ok ((r.end_ - r.start) >>> r.masks.length)
  else .error .undefinedShift

/-- The masks together, in an `int`: only their lower 32 bits are kept. -/
def combinedMask (r : AddrRange) : BitVec 32 :=
  r.masks.foldl (fun combined mask => combined ||| mask.setWidth 32) 0

def granularity (r : AddrRange) : Except RangeFault Addr :=
  if r.interleaved then
    let lowestBit := ctz64 (r.combinedMask.signExtend 64)
    if lowestBit < 64 then .ok (1#64 <<< lowestBit) else .error .undefinedShift
  else r.size

def mergesWith (r r' : AddrRange) : Bool :=
  decide (r'.start = r.start) && decide (r'.end_ = r.end_) && decide (r'.masks = r.masks)

/-- The parities are collected in an `int`, which has room for 32 of them. -/
def contains (r : AddrRange) (a : Addr) : Except RangeFault Bool :=
  if r.start ≤ a ∧ a < r.end_ then
    if r.masks.length ≤ 32 then .ok (decide (sel r.masks a = r.intlvMatch.toNat))
    else .error .undefinedShift
  else .ok false

def intersects (r r' : AddrRange) : Except RangeFault Bool :=
  if r'.end_ ≤ r.start ∨ r.end_ ≤ r'.start then .ok false
  else if !r.interleaved && !r'.interleaved then .ok true
  else do
    let size ← r'.size
    if size = 1 then r.contains r'.start
    else if r.mergesWith r' then .ok (decide (r.intlvMatch = r'.intlvMatch))
    else .error .cannotIntersect

def isSubset (r r' : AddrRange) : Except RangeFault Bool :=
  if r.interleaved then .error .cannotSubset
  else if r'.interleaved then do
    if ← r'.contains r.start then
      let size ← r.size
      let granularity ← r'.granularity
      if size ≤ granularity then
        if r.start = r.end_ - 1 then .ok true else r'.contains (r.end_ - 1)
      else .ok false
    else .ok false
  else if r.end_ ≤ r.start then .ok (decide (r'.start ≤ r.start) && decide (r'.end_ = 0))
  else if r'.end_ ≤ r'.start then .ok (decide (r'.start ≤ r.start))
  else .ok (decide (r'.start ≤ r.start) && decide (r.end_ ≤ r'.end_))

/-- The order of the map: by the start, stripes by their match value and before other ranges. -/
def lt (r r' : AddrRange) : Bool :=
  if r.start ≠ r'.start then decide (r.start < r'.start)
  else if r.interleaved && r'.interleaved then decide (r.intlvMatch < r'.intlvMatch)
  else r.interleaved

/-! ## What a range stands for -/

variable {r r' r'' : AddrRange} {a : Addr}

def Holds (r : AddrRange) (a : Addr) : Prop :=
  r.start ≤ a ∧ a < r.end_ ∧ (r.interleaved = true → sel r.masks a = r.intlvMatch.toNat)

/-- The intervals share an address. -/
def Overlaps (r r' : AddrRange) : Prop :=
  r.start < r'.end_ ∧ r'.start < r.end_

instance (r r' : AddrRange) : Decidable (Overlaps r r') :=
  inferInstanceAs (Decidable (_ ∧ _))

/-- The shifts that a test of the stripe makes are defined: there are at most 32 masks, and one of
them has a bit below bit 32. -/
def Readable (r : AddrRange) : Prop :=
  r.interleaved = true → r.masks.length ≤ 32 ∧ r.combinedMask ≠ 0

instance (r : AddrRange) : Decidable (Readable r) :=
  inferInstanceAs (Decidable (_ → _))

lemma overlaps_comm : Overlaps r r' ↔ Overlaps r' r := And.comm

lemma mergesWith_iff : r.mergesWith r' = true ↔
    r'.start = r.start ∧ r'.end_ = r.end_ ∧ r'.masks = r.masks := by
  simp [mergesWith, and_assoc]

lemma mergesWith_comm : r.mergesWith r' = r'.mergesWith r := by
  rw [Bool.eq_iff_iff, mergesWith_iff, mergesWith_iff]
  exact ⟨fun ⟨hs, he, hm⟩ => ⟨hs.symm, he.symm, hm.symm⟩,
    fun ⟨hs, he, hm⟩ => ⟨hs.symm, he.symm, hm.symm⟩⟩

lemma mergesWith_trans (h : r.mergesWith r' = true) (h' : r'.mergesWith r'' = true) :
    r.mergesWith r'' = true := by
  obtain ⟨hs, he, hm⟩ := mergesWith_iff.mp h
  obtain ⟨hs', he', hm'⟩ := mergesWith_iff.mp h'
  exact mergesWith_iff.mpr ⟨hs'.trans hs, he'.trans he, hm'.trans hm⟩

lemma interleaved_of_mergesWith (h : r.mergesWith r' = true) :
    r'.interleaved = r.interleaved := by
  rw [interleaved, interleaved, (mergesWith_iff.mp h).2.2]

lemma overlaps_congr (h : r.mergesWith r' = true) : Overlaps r' r'' ↔ Overlaps r r'' := by
  obtain ⟨hs, he, -⟩ := mergesWith_iff.mp h
  rw [Overlaps, Overlaps, hs, he]

def key (r : AddrRange) : Nat ×ₗ Nat ×ₗ Nat :=
  toLex (r.start.toNat, toLex (if r.interleaved then (0, r.intlvMatch.toNat) else (1, 0)))

lemma lt_iff : r.lt r' = true ↔ r.key < r'.key := by
  unfold lt key
  rw [Prod.Lex.toLex_lt_toLex, Prod.Lex.toLex_lt_toLex]
  by_cases hs : r.start = r'.start
  · rw [if_neg (not_not.mpr hs), hs]
    cases r.interleaved <;> cases r'.interleaved <;> simp [lt_def]
  · have hne : r.start.toNat ≠ r'.start.toNat := fun h => hs (BitVec.eq_of_toNat_eq h)
    rw [if_pos hs, decide_eq_true_iff, lt_def]
    exact ⟨.inl, fun h => h.resolve_right fun h => hne h.1⟩

lemma start_le_of_key_le (h : r.key ≤ r'.key) : r.start ≤ r'.start := by
  rcases Prod.Lex.toLex_le_toLex.mp h with hlt | ⟨heq, -⟩
  · exact BitVec.le_of_lt (lt_def.mpr hlt)
  · exact le_def.mpr heq.le

/-! ## The tests -/

lemma contains_eq (h : Readable r) (hr : r.interleaved = true) :
    ∃ b, r.contains a = .ok b ∧ (b = true ↔ r.Holds a) := by
  unfold contains
  by_cases hin : r.start ≤ a ∧ a < r.end_
  · rw [if_pos hin, if_pos (h hr).1]
    refine ⟨_, rfl, ?_⟩
    rw [decide_eq_true_iff]
    exact ⟨fun hsel => ⟨hin.1, hin.2, fun _ => hsel⟩, fun hholds => hholds.2.2 hr⟩
  · rw [if_neg hin]
    exact ⟨false, rfl, iff_of_false Bool.false_ne_true fun hholds => hin ⟨hholds.1, hholds.2.1⟩⟩

lemma ctz64_lt {x : BitVec 64} (hx : x ≠ 0) : ctz64 x < 64 := by
  unfold ctz64
  cases hfind : (range 64).find? fun i => x.getLsbD i with
  | some =>
    have := mem_of_find?_eq_some hfind
    simpa using this
  | none =>
    refine absurd (BitVec.eq_of_getLsbD_eq fun i hi => ?_) hx
    have := find?_eq_none.mp hfind i (mem_range.mpr hi)
    simpa using this

lemma one_le_shift {k : Nat} (hk : k < 64) : 1#64 ≤ 1#64 <<< k := by
  rw [le_def, BitVec.toNat_shiftLeft]
  have hpow : 2 ^ k < 2 ^ 64 := Nat.pow_lt_pow_right (by decide) hk
  have hpos : 0 < 2 ^ k := Nat.two_pow_pos k
  simp only [BitVec.toNat_ofNat, Nat.one_mod, Nat.shiftLeft_eq, Nat.one_mul]
  rw [Nat.mod_eq_of_lt (by simpa using hpow)]
  omega

lemma granularity_eq (h : Readable r) (hr : r.interleaved = true) :
    ∃ g, r.granularity = .ok g ∧ 1#64 ≤ g := by
  have hne : r.combinedMask.signExtend 64 ≠ 0 := by
    intro hzero
    refine (h hr).2 (BitVec.eq_of_getLsbD_eq fun i hi => ?_)
    have hbit : (r.combinedMask.signExtend 64).getLsbD i = false := by
      rw [hzero]
      exact BitVec.getLsbD_zero
    have hwide : i < 64 := by omega
    rw [BitVec.getLsbD_signExtend, if_pos hi, decide_eq_true hwide, Bool.true_and] at hbit
    exact hbit.trans BitVec.getLsbD_zero.symm
  unfold granularity
  rw [if_pos hr]
  dsimp only
  rw [if_pos (ctz64_lt hne)]
  exact ⟨_, rfl, one_le_shift (ctz64_lt hne)⟩

lemma isSubset_rangeSize (ha : a.toNat + 1 < 2 ^ 64) (hr : r.start < r.end_) (h : Readable r) :
    ∃ b, (rangeSize a 1).isSubset r = .ok b ∧ (b = true ↔ r.Holds a) := by
  have hsucc : (a + 1).toNat = a.toNat + 1 := by
    rw [BitVec.toNat_add]
    exact Nat.mod_eq_of_lt ha
  unfold isSubset
  rw [show (rangeSize a 1).interleaved = false from rfl, if_neg Bool.false_ne_true]
  by_cases hinter : r.interleaved = true
  · rw [if_pos hinter]
    obtain ⟨b, hcontains, hb⟩ := r.contains_eq (a := a) h hinter
    obtain ⟨g, hgranularity, hg⟩ := r.granularity_eq h hinter
    have hsize : (rangeSize a 1).size = .ok 1 := by
      change Except.ok ((a + 1 - a) >>> 0) = Except.ok 1
      congr 1
      rw [BitVec.ushiftRight_zero, BitVec.add_comm, BitVec.add_sub_cancel]
    refine ⟨b, ?_, hb⟩
    change (r.contains a >>= _) = _
    rw [hcontains, hsize, hgranularity]
    cases b with
    | false => rfl
    | true =>
      have hlast : (rangeSize a 1).start = (rangeSize a 1).end_ - 1 :=
        (BitVec.add_sub_cancel a 1).symm
      exact (if_pos hg).trans (if_pos hlast)
  · rw [if_neg hinter]
    have hplain : ¬ (rangeSize a 1).end_ ≤ (rangeSize a 1).start := by
      change ¬ a + 1 ≤ a
      rw [le_def, hsucc]
      omega
    rw [if_neg hplain, if_neg (BitVec.not_le.mpr hr)]
    refine ⟨_, rfl, ?_⟩
    change (decide (r.start ≤ a) && decide (a + 1 ≤ r.end_)) = true ↔ _
    rw [Bool.and_eq_true_iff, decide_eq_true_iff, decide_eq_true_iff,
      le_def (x := a + 1), hsucc]
    constructor
    · rintro ⟨hs, he⟩
      exact ⟨hs, lt_def.mpr he, fun h => absurd h hinter⟩
    · rintro ⟨hs, he, -⟩
      exact ⟨hs, lt_def.mp he⟩

end AddrRange

end BTBFerret.Ranges
