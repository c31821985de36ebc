import Mathlib.Tactic

/-!
# The hashes of PHAST

`phast.cc`: the dependence predictor folds a branch history to the width of set and
tag together, and a program counter with that hash to the width of either. The loops
run on fuel; without enough of it they have no result.
-/

namespace BTBFerret

namespace Phast

open Nat

/-- The loop of `xorFold`. -/
def foldRest (mask : BitVec 64) (size : Nat) : Nat → BitVec 64 → BitVec 64 → Option (BitVec 64)
  | 0, _, _ => none
  | fuel + 1, fold, history =>
    if history = 0 then some fold
    else foldRest mask size fuel (fold ^^^ (history &&& mask)) (history >>> size)

/-- The mask is computed as an `int` and then widened. -/
def foldMask (size : Nat) : BitVec 64 := ((1#32 <<< size) - 1).signExtend 64

def xorFold (fuel : Nat) (pc history : BitVec 64) (size : Nat) : Option (BitVec 64) :=
  let mask := foldMask size
  foldRest mask size fuel ((history &&& mask) ^^^ (pc &&& mask)) (history >>> size)

structure SimplBlockCache where
  setBits : Nat
  tagBits : Nat

/-- The tables of the constructor, for the parameters `phast_num_rows` and `phast_tag_bits`. -/
def SimplBlockCache.init (numRows tagBits : Nat) : SimplBlockCache := ⟨numRows.log2, tagBits⟩

variable (c : SimplBlockCache) (fuel : Nat)

def getIndex (pc history : BitVec 64) : Option (BitVec 64) :=
  xorFold fuel 0 ((pc ^^^ (pc >>> 2) ^^^ (pc >>> 5)) ^^^ history) c.setBits

def getTag (pc history : BitVec 64) : Option (BitVec 64) :=
  xorFold fuel 0 ((pc ^^^ (pc >>> 3) ^^^ (pc >>> 7)) ^^^ history) c.tagBits

/-- The loop of `foldHistory`, with the rest that is left when fewer than `width` bits are. -/
def foldWidth (width : Nat) : Nat → BitVec 64 → BitVec 500 → Nat → Option (BitVec 64)
  | 0, _, _, _ => none
  | fuel + 1, hash, h, bits =>
    if width ≤ bits then
      foldWidth width fuel (hash ^^^ (h &&& ((1#64 <<< width) - 1).setWidth 500).setWidth 64)
        (h >>> width) (bits - width)
    else some (hash ^^^ (h &&& ((1#64 <<< bits) - 1).setWidth 500).setWidth 64)

/-- The hash of a table that `generateBranchHash` returns; a `bitset` has `BITSETSIZE` bits. -/
def foldHistory (h : BitVec 500) (bits : Nat) : Option (BitVec 64) :=
  foldWidth (c.setBits + c.tagBits) fuel 0 h bits

lemma toNat_foldMask {size : Nat} (h : size ≤ 30) : (foldMask size).toNat = 2 ^ size - 1 := by
  have hall : ∀ n ≤ 30, (foldMask n).toNat = 2 ^ n - 1 := by decide
  exact hall size h

lemma toNat_and_foldMask {size : Nat} (h : size ≤ 30) (x : BitVec 64) :
    (x &&& foldMask size).toNat < 2 ^ size := by
  rw [BitVec.toNat_and, toNat_foldMask h]
  have hle := and_le_right (n := x.toNat) (m := 2 ^ size - 1)
  have hpos := Nat.two_pow_pos size
  omega

/-- Each round takes at least one bit off the history. -/
lemma foldRest_spec {size : Nat} (hpos : 1 ≤ size) (hle : size ≤ 30) {bits : Nat}
    (hfuel : bits < fuel) {fold history : BitVec 64} (hbits : history.toNat < 2 ^ bits)
    (hfold : fold.toNat < 2 ^ size) :
    ∃ r, foldRest (foldMask size) size fuel fold history = some r ∧ r.toNat < 2 ^ size := by
  induction fuel generalizing bits fold history with
  | zero => omega
  | succ fuel ih =>
    rw [foldRest]
    split
    · exact ⟨fold, rfl, hfold⟩
    · rename_i hne
      have hnat : history.toNat ≠ 0 := fun h => hne (BitVec.eq_of_toNat_eq h)
      obtain ⟨b, rfl⟩ : ∃ b, bits = b + 1 := exists_eq_succ_of_ne_zero (by
        rintro rfl
        omega)
      refine ih (by omega : b < fuel) ?_ ?_
      · rw [BitVec.toNat_ushiftRight, shiftRight_eq_div_pow,
          Nat.div_lt_iff_lt_mul (Nat.two_pow_pos size), ← pow_add]
        exact hbits.trans_le (Nat.pow_le_pow_right (by decide) (by omega))
      · rw [BitVec.toNat_xor]
        exact xor_lt_two_pow hfold (toNat_and_foldMask hle history)

lemma xorFold_spec {size : Nat} (hpos : 1 ≤ size) (hle : size ≤ 30) (hfuel : 64 < fuel)
    (pc history : BitVec 64) :
    ∃ r, xorFold fuel pc history size = some r ∧ r.toNat < 2 ^ size := by
  refine foldRest_spec fuel hpos hle hfuel (history >>> size).isLt ?_
  rw [BitVec.toNat_xor]
  exact xor_lt_two_pow (toNat_and_foldMask hle history) (toNat_and_foldMask hle pc)

lemma foldWidth_isSome {width : Nat} (hpos : 1 ≤ width) {bits : Nat} (hfuel : bits < fuel)
    (hash : BitVec 64) (h : BitVec 500) : (foldWidth width fuel hash h bits).isSome = true := by
  induction fuel generalizing bits hash h with
  | zero => omega
  | succ fuel ih =>
    rw [foldWidth]
    split
    · exact ih (by omega) _ _
    · rfl

/-- A history that is shifted by no bit at all stays. -/
lemma foldRest_stuck {history : BitVec 64} (hne : history ≠ 0) (mask fold : BitVec 64) :
    foldRest mask 0 fuel fold history = none := by
  induction fuel generalizing fold with
  | zero => rfl
  | succ fuel ih =>
    rw [foldRest, if_neg hne, BitVec.ushiftRight_zero]
    exact ih _

lemma getIndex_single_row (tagBits : Nat) (pc history : BitVec 64) :
    (∃ index, getIndex ⟨0, tagBits⟩ (fuel + 1) pc history = some index ∧ index.toNat < 1) ↔
      history = pc ^^^ (pc >>> 2) ^^^ (pc >>> 5) := by
  unfold getIndex xorFold
  constructor
  · rintro ⟨index, hindex, -⟩
    by_contra hne
    have hne' : ((pc ^^^ (pc >>> 2) ^^^ (pc >>> 5)) ^^^ history) >>> 0 ≠ 0 := by
      rw [BitVec.ushiftRight_zero]
      exact fun h => hne (BitVec.xor_eq_zero_iff.mp h).symm
    cases (foldRest_stuck _ hne' _ _).symm.trans hindex
  · rintro rfl
    exact ⟨0, by simp [foldRest], Nat.one_pos⟩

/-- The loops of `getTag` and `foldHistory` always end. That of `getIndex` ends, with the index of a
row, exactly if there are two rows or more or nothing is left to fold. -/
theorem phast_hashing_terminates {k tagBits : Nat} (hrows : k ≤ 30) (htag : 1 ≤ tagBits)
    (htag' : tagBits ≤ 30) (pc history : BitVec 64) (h : BitVec 500) {bits fuel : Nat}
    (hfuel : 64 < fuel) (hbits : bits < fuel) :
    ((∃ index, getIndex (.init (2 ^ k) tagBits) fuel pc history = some index ∧
        index.toNat < 2 ^ k) ↔ 1 ≤ k ∨ history = pc ^^^ (pc >>> 2) ^^^ (pc >>> 5)) ∧
    (getTag (.init (2 ^ k) tagBits) fuel pc history).isSome = true ∧
    (foldHistory (.init (2 ^ k) tagBits) fuel h bits).isSome = true := by
  have hinit : SimplBlockCache.init (2 ^ k) tagBits = ⟨k, tagBits⟩ := by
    rw [SimplBlockCache.init, log2_two_pow]
  rw [hinit]
  refine ⟨?_, ?_, foldWidth_isSome fuel (htag.trans (Nat.le_add_left _ _)) hbits 0 h⟩
  · rcases Nat.eq_zero_or_pos k with rfl | hpos
    · obtain ⟨fuel, rfl⟩ := exists_eq_succ_of_ne_zero (Nat.ne_zero_of_lt hfuel)
      exact (getIndex_single_row fuel tagBits pc history).trans (or_iff_right (by decide)).symm
    · exact iff_of_true (xorFold_spec fuel hpos hrows hfuel 0 _) (.inl hpos)
  · obtain ⟨r, hr, -⟩ := xorFold_spec fuel htag htag' hfuel 0 _
    exact Option.isSome_of_eq_some hr

/-- The default tables, of 128 rows. -/
theorem phast_hashing_terminates_small :
    ∃ index, getIndex (.init 128 16) 65 4096 0 = some index ∧ index.toNat < 128 :=
  (phast_hashing_terminates (k := 7) (by decide) (by decide : 1 ≤ 16) (by decide)
    4096 0 0 (by decide : 64 < 65) (by decide : 60 < 65)).1.mpr (.inl (by decide))

/-- With a single row the loop of `getIndex` runs forever. -/
theorem single_row_never_ends : (SimplBlockCache.init 1 16).setBits = 0 ∧
    ∀ fuel, getIndex (.init 1 16) fuel 4096 0 = none := by
  exact ⟨rfl, fun fuel => foldRest_stuck fuel (by decide) _ _⟩

end Phast

end BTBFerret
