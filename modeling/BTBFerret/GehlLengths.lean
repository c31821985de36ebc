import BTBFerret.CorrectorTables

/-!
# The lengths of the histories of a statistical corrector

`gIndex`, `gPredict` and `gUpdate` of `statistical_corrector.cc`, for any class derived from
`StatisticalCorrector`. Table `i` of a group sees the history under the mask
`(int64_t) ((1 << length[i]) - 1)`, which is computed in a 32-bit `int` and then widened.
-/

namespace BTBFerret

namespace StatisticalCorrector

open List Nat
open BitVec (toNat_ofNat twoPow)

/-- What the compiled code computes where the language leaves it open: `(1 << n) - 1` outside 0 to
30, and `x >> n` outside 0 to 63. -/
structure OpenShifts where
  ones : Int → BitVec 32
  shiftRight : BitVec 64 → Int → BitVec 64

namespace OpenShifts

variable (u : OpenShifts)

/-- `(int64_t) ((1 << n) - 1)`. -/
def onesBelow (n : Int) : BitVec 64 :=
  (if 0 ≤ n ∧ n ≤ 30 then BitVec.ofNat 32 (2 ^ n.toNat - 1) else u.ones n).signExtend 64

end OpenShifts

/-- What a class derived from `StatisticalCorrector` fixes for its groups. `getIndUpds` picks the
weight and sees the PC alone. -/
structure Derived where
  instShiftAmt : Nat
  scCountersWidth : Nat
  extraWeightsWidth : Nat
  gIndexLogsSubstr : Nat → Nat → Int
  getIndUpds : Addr → Addr

structure Group where
  length : Nat → Int
  nbr : Nat
  logs : Int

structure GroupTables where
  tab : Nat → BitVec 64 → Int
  w : Addr → Int

namespace Derived

variable (d : Derived) (u : OpenShifts) (g : Group)

def gIndex (branchPC : Addr) (bhist : BitVec 64) (i : Nat) : BitVec 64 :=
  let shift := sar u.shiftRight
  (shift branchPC d.instShiftAmt ^^^ bhist ^^^ shift bhist (8 - i) ^^^
    shift bhist (16 - 2 * i) ^^^ shift bhist (24 - 3 * i) ^^^
    shift bhist (32 - 3 * i) ^^^ shift bhist (40 - 4 * i)) &&&
    u.onesBelow (g.logs - d.gIndexLogsSubstr g.nbr i)

/-- The history that table `i` sees. -/
def bhist (u : OpenShifts) (g : Group) (hist : BitVec 64) (i : Nat) : BitVec 64 :=
  hist &&& u.onesBelow (g.length i)

/-- The loop body of `gPredict`: the sum so far and the indices read. -/
def predictTable (t : GroupTables) (branchPC : Addr) (hist : BitVec 64)
    (acc : Int × List (BitVec 64)) (i : Nat) : Int × List (BitVec 64) :=
  let index := d.gIndex u g branchPC (bhist u g hist i) i
  (acc.1 + (2 * t.tab i index + 1), acc.2 ++ [index])

variable (t : GroupTables)

def gPredict (branchPC : Addr) (hist : BitVec 64) : Int × List (BitVec 64) :=
  let loop := (range g.nbr).foldl (d.predictTable u g t branchPC hist) (0, [])
  ((1 + if 0 ≤ t.w (d.getIndUpds branchPC) then 1 else 0) * loop.1, loop.2)

def setCounter (i : Nat) (index : BitVec 64) (ctr : Int) : GroupTables :=
  { t with tab := Function.update t.tab i (Function.update (t.tab i) index ctr) }

def setWeight (ind : Addr) (ctr : Int) : GroupTables :=
  { t with w := Function.update t.w ind ctr }

/-- The loop body of `gUpdate`: the sum so far, the tables and the indices trained. -/
def updateTable (branchPC : Addr) (taken : Bool) (hist : BitVec 64)
    (acc : Int × GroupTables × List (BitVec 64)) (i : Nat) :
    Int × GroupTables × List (BitVec 64) :=
  let (percsum, t, indices) := acc
  let index := d.gIndex u g branchPC (bhist u g hist i) i
  let ctr := t.tab i index
  (percsum + (2 * ctr + 1), setCounter t i index (ctrUpdate ctr taken d.scCountersWidth),
    indices ++ [index])

def gUpdate (branchPC : Addr) (taken : Bool) (hist : BitVec 64) (lsum : Int) :
    GroupTables × List (BitVec 64) :=
  let (percsum, t, indices) :=
    (range g.nbr).foldl (d.updateTable u g branchPC taken hist) (0, t, [])
  let ind := d.getIndUpds branchPC
  let xsum := lsum - (if 0 ≤ t.w ind then 1 else 0) * percsum
  let t := if decide (0 ≤ xsum + percsum) != decide (0 ≤ xsum) then
      setWeight t ind (ctrUpdate (t.w ind) (decide (0 ≤ percsum) == taken) d.extraWeightsWidth)
    else t
  (t, indices)

/-- The loop body of `gUpdate` of `MPP_StatisticalCorrector`, whose counters are one bit narrower
before the last table. -/
def updateTableMPP (branchPC : Addr) (taken : Bool) (hist : BitVec 64)
    (acc : GroupTables × List (BitVec 64)) (i : Nat) : GroupTables × List (BitVec 64) :=
  let (t, indices) := acc
  let index := d.gIndex u g branchPC (bhist u g hist i) i
  (setCounter t i index (ctrUpdate (t.tab i index) taken
      (d.scCountersWidth - if i + 1 < g.nbr then 1 else 0)), indices ++ [index])

/-- `gUpdate` of `MPP_StatisticalCorrector`, which trains no weight. -/
def gUpdateMPP (branchPC : Addr) (taken : Bool) (hist : BitVec 64) :
    GroupTables × List (BitVec 64) :=
  (range g.nbr).foldl (d.updateTableMPP u g branchPC taken hist) (t, [])

/-! ## The indices of a group -/

def indices (branchPC : Addr) (hist : BitVec 64) : List (BitVec 64) :=
  (range g.nbr).map fun i => d.gIndex u g branchPC (bhist u g hist i) i

variable {d u g} {branchPC : Addr} {hist : BitVec 64}

lemma indices_gPredict : (d.gPredict u g t branchPC hist).2 = d.indices u g branchPC hist :=
  (foldl_emits (f := d.predictTable u g t branchPC hist) Prod.snd (fun _ _ => rfl) _ (0, [])).trans
    (nil_append _)

lemma indices_gUpdate (taken : Bool) (lsum : Int) :
    (d.gUpdate u g t branchPC taken hist lsum).2 = d.indices u g branchPC hist :=
  (foldl_emits (f := d.updateTable u g branchPC taken hist) (fun acc => acc.2.2)
    (fun _ _ => rfl) _ (0, t, [])).trans (nil_append _)

lemma indices_gUpdateMPP (taken : Bool) :
    (d.gUpdateMPP u g t branchPC taken hist).2 = d.indices u g branchPC hist :=
  (foldl_emits (f := d.updateTableMPP u g branchPC taken hist) Prod.snd (fun _ _ => rfl) _
    (t, [])).trans (nil_append _)

lemma indices_get {i : Nat} (hi : i < g.nbr) :
    (d.indices u g branchPC hist)[i]? = some (d.gIndex u g branchPC (bhist u g hist i) i) := by
  simp [indices, hi]

end Derived

/-! ## The mask -/

/-- A mask keeps the bits below `n` of every history only if it is their mask. -/
lemma masks_low_bits_iff {n : Nat} (hn : n ≤ 64) (m : BitVec 64) :
    (∀ hist : BitVec 64, (hist &&& m).toNat = hist.toNat % 2 ^ n) ↔
      m = BitVec.ofNat 64 (2 ^ n - 1) := by
  have hpos : 0 < 2 ^ n := Nat.two_pow_pos n
  have hle : 2 ^ n ≤ 2 ^ 64 := Nat.pow_le_pow_right (by decide) hn
  have hlt : 2 ^ n - 1 < 2 ^ 64 := by omega
  constructor
  · intro h
    have hones := h (BitVec.allOnes 64)
    have hmod : (2 ^ 64 - 1) % 2 ^ n = 2 ^ n - 1 := by
      have hsplit : 2 ^ 64 = 2 ^ n * 2 ^ (64 - n) := by
        rw [← pow_add, Nat.add_sub_cancel' hn]
      rw [hsplit]
      obtain ⟨k, hk⟩ : ∃ k, 2 ^ (64 - n) = k + 1 :=
        ⟨2 ^ (64 - n) - 1, (succ_pred_eq_of_pos (Nat.two_pow_pos _)).symm⟩
      rw [hk, mul_succ, Nat.add_sub_assoc hpos, mul_add_mod,
        mod_eq_of_lt (sub_lt hpos Nat.one_pos)]
    rw [BitVec.allOnes_and, BitVec.toNat_allOnes, hmod] at hones
    exact BitVec.eq_of_toNat_eq (by rw [hones, toNat_ofNat, mod_eq_of_lt hlt])
  · rintro rfl hist
    rw [BitVec.toNat_and, toNat_ofNat, mod_eq_of_lt hlt, and_two_pow_sub_one_eq_mod]

lemma signExtend_injective {v v' : BitVec 32} (h : v.signExtend 64 = v'.signExtend 64) :
    v = v' := by
  have hint := congrArg BitVec.toInt h
  rw [BitVec.toInt_signExtend_of_le (by decide), BitVec.toInt_signExtend_of_le (by decide)] at hint
  exact BitVec.eq_of_toInt_eq hint

namespace OpenShifts

variable {u : OpenShifts} {n : Int}

lemma onesBelow_of_le (h0 : 0 ≤ n) (h30 : n ≤ 30) :
    u.onesBelow n = BitVec.ofNat 64 (2 ^ n.toNat - 1) := by
  obtain ⟨k, rfl⟩ := Int.eq_ofNat_of_zero_le h0
  have hk : k < 31 := by omega
  have hpow : 2 ^ k < 2 ^ 31 := Nat.pow_lt_pow_right (by decide) hk
  have hmsb : (BitVec.ofNat 32 (2 ^ k - 1)).msb = false := by
    rw [BitVec.msb_eq_false_iff_two_mul_lt, toNat_ofNat, mod_eq_of_lt (by omega)]
    omega
  rw [onesBelow, if_pos ⟨h0, h30⟩, Int.toNat_natCast,
    BitVec.signExtend_eq_setWidth_of_msb_false hmsb]
  exact BitVec.eq_of_toNat_eq (by
    simp only [BitVec.toNat_setWidth, toNat_ofNat]
    omega)

/-- All bits of the mask from bit 31 on are the sign of the `int`. -/
lemma getLsbD_onesBelow (h31 : 31 ≤ n) {j : Nat} (hj : 31 ≤ j) (hj' : j < 64) :
    (u.onesBelow n).getLsbD j = (u.ones n).msb := by
  rw [onesBelow, if_neg (by omega), BitVec.getLsbD_signExtend, decide_eq_true hj', Bool.true_and]
  split
  · rename_i hlt
    obtain rfl : j = 31 := by omega
    rfl
  · rfl

/-- Among the lengths from 0 to 63, those up to 30 get their mask, and 31 if the subtraction wraps
around. From 32 on no value of the `int` is the mask. -/
lemma onesBelow_eq_iff (h0 : 0 ≤ n) (h63 : n ≤ 63) :
    u.onesBelow n = BitVec.ofNat 64 (2 ^ n.toNat - 1) ↔
      n ≤ 30 ∨ n = 31 ∧ u.ones 31 = 0x7fffffff#32 := by
  constructor
  · intro h
    by_contra hnot
    have h31 : 31 ≤ n := by omega
    by_cases hn : n = 31
    · subst hn
      rw [onesBelow, if_neg (by decide)] at h
      exact hnot (.inr ⟨rfl, signExtend_injective (h.trans (by decide))⟩)
    · -- Bit 31 is below the length and bit 63 is not, yet they are equal.
      have hbit : ∀ j, j < 64 →
          (BitVec.ofNat 64 (2 ^ n.toNat - 1)).getLsbD j = decide (j < n.toNat) := by
        intro j hj
        rw [BitVec.getLsbD_ofNat, testBit_two_pow_sub_one, decide_eq_true hj, Bool.true_and]
      have hlow := getLsbD_onesBelow (u := u) h31 (j := 31) le_rfl (by decide)
      have hhigh := getLsbD_onesBelow (u := u) h31 (j := 63) (by decide) (by decide)
      rw [h, hbit _ (by decide)] at hlow hhigh
      have hin : 31 < n.toNat := by omega
      have hout : ¬63 < n.toNat := by omega
      rw [decide_eq_true hin] at hlow
      rw [decide_eq_false hout, ← hlow] at hhigh
      exact Bool.false_ne_true hhigh
  · rintro (h30 | ⟨rfl, hwrap⟩)
    · exact onesBelow_of_le h0 h30
    · rw [onesBelow, if_neg (by decide), hwrap]
      decide

end OpenShifts

/-! ## What a table sees of a history -/

namespace Derived

variable {d : Derived} {u : OpenShifts} {g : Group} {branchPC : Addr} {hist : BitVec 64}

def lowBits (length : Int) (hist : BitVec 64) : BitVec 64 :=
  BitVec.ofNat 64 (hist.toNat % 2 ^ length.toNat)

lemma lowBits_congr {length : Int} {hist hist' : BitVec 64}
    (h : ∀ j < length.toNat, hist.getLsbD j = hist'.getLsbD j) :
    lowBits length hist = lowBits length hist' := by
  refine congrArg (BitVec.ofNat 64) (eq_of_testBit_eq fun j => ?_)
  rw [testBit_mod_two_pow, testBit_mod_two_pow]
  by_cases hj : j < length.toNat
  · exact congrArg (decide (j < length.toNat) && ·) (h j hj)
  · rw [decide_eq_false hj, Bool.false_and, Bool.false_and]

lemma toNat_bhist_iff {i : Nat} (h0 : 0 ≤ g.length i) (h63 : g.length i ≤ 63) :
    (∀ hist, (bhist u g hist i).toNat = hist.toNat % 2 ^ (g.length i).toNat) ↔
      g.length i ≤ 30 ∨ g.length i = 31 ∧ u.ones 31 = 0x7fffffff#32 :=
  (masks_low_bits_iff (by omega) _).trans (OpenShifts.onesBelow_eq_iff h0 h63)

lemma bhist_eq_lowBits {i : Nat} (h : (bhist u g hist i).toNat =
      hist.toNat % 2 ^ (g.length i).toNat) : bhist u g hist i = lowBits (g.length i) hist := by
  rw [lowBits, ← h, BitVec.ofNat_toNat, BitVec.setWidth_eq]

/-- Table `i` sees the history modulo `2 ^ length[i]` exactly while the mask fits the 32-bit `int`.
Prediction and training of either class then use the index of that remainder, so histories with the
same low bits share it. -/
theorem history_lengths_honoured (d : Derived) (u : OpenShifts) (g : Group) {i : Nat}
    (hi : i < g.nbr) (h0 : 0 ≤ g.length i) (h63 : g.length i ≤ 63) :
    ((∀ hist, (bhist u g hist i).toNat = hist.toNat % 2 ^ (g.length i).toNat) ↔
      g.length i ≤ 30 ∨ g.length i = 31 ∧ u.ones 31 = 0x7fffffff#32) ∧
    (g.length i ≤ 30 ∨ g.length i = 31 ∧ u.ones 31 = 0x7fffffff#32 →
      (∀ t branchPC hist,
        (d.gPredict u g t branchPC hist).2[i]? =
            some (d.gIndex u g branchPC (lowBits (g.length i) hist) i) ∧
          (∀ taken lsum, (d.gUpdate u g t branchPC taken hist lsum).2[i]? =
            some (d.gIndex u g branchPC (lowBits (g.length i) hist) i)) ∧
          ∀ taken, (d.gUpdateMPP u g t branchPC taken hist).2[i]? =
            some (d.gIndex u g branchPC (lowBits (g.length i) hist) i)) ∧
      ∀ hist hist' : BitVec 64,
        (∀ j < (g.length i).toNat, hist.getLsbD j = hist'.getLsbD j) → ∀ t branchPC,
          (d.gPredict u g t branchPC hist).2[i]? = (d.gPredict u g t branchPC hist').2[i]? ∧
          (∀ taken lsum, (d.gUpdate u g t branchPC taken hist lsum).2[i]? =
            (d.gUpdate u g t branchPC taken hist' lsum).2[i]?) ∧
          ∀ taken, (d.gUpdateMPP u g t branchPC taken hist).2[i]? =
            (d.gUpdateMPP u g t branchPC taken hist').2[i]?) := by
  refine ⟨toNat_bhist_iff h0 h63, fun hint => ?_⟩
  have hmod := (toNat_bhist_iff h0 h63).mpr hint
  have hindex : ∀ branchPC hist, (d.indices u g branchPC hist)[i]? =
      some (d.gIndex u g branchPC (lowBits (g.length i) hist) i) := by
    intro branchPC hist
    rw [indices_get hi, bhist_eq_lowBits (hmod hist)]
  simp only [indices_gPredict, indices_gUpdate, indices_gUpdateMPP, hindex]
  refine ⟨fun _ _ _ => ⟨trivial, fun _ _ => trivial, fun _ => trivial⟩, ?_⟩
  intro hist hist' hlow t branchPC
  rw [lowBits_congr hlow]
  exact ⟨rfl, fun _ _ => rfl, fun _ => rfl⟩

/-- The second table of a group with the lengths 40, 24 and 10. -/
theorem history_lengths_honoured_small :
    ∃ (d : Derived) (u : OpenShifts) (g : Group), 1 < g.nbr ∧ g.length 1 = 24 ∧
      (bhist u g 0x1ffffff 1).toNat = 0xffffff ∧ ∀ t, (d.gPredict u g t 0 0x1ffffff).2[1]? =
        (d.gPredict u g t 0 0xffffff).2[1]? := by
  let d : Derived := ⟨2, 6, 6, fun _ _ => 0, fun _ => 0⟩
  let u : OpenShifts := ⟨fun _ => 0, fun x _ => x⟩
  let g : Group := ⟨fun i => ([40, 24, 10] : List Int).getD i 0, 3, 10⟩
  obtain ⟨hmod, hsame⟩ :=
    history_lengths_honoured d u g (i := 1) (by decide) (by decide) (by decide)
  have hint : g.length 1 ≤ 30 ∨ g.length 1 = 31 ∧ u.ones 31 = 0x7fffffff#32 := .inl (by decide)
  refine ⟨d, u, g, by decide, by decide, (hmod.mpr hint _).trans (by decide), fun t => ?_⟩
  exact ((hsame hint).2 _ _ (by decide) t 0).1

end Derived

/-! ## The groups of the 64KB corrector -/

namespace SC64KB

def derived (c : TableParams) : Derived where
  instShiftAmt := c.instShiftAmt
  scCountersWidth := c.scCountersWidth
  extraWeightsWidth := c.extraWeightsWidth
  gIndexLogsSubstr nbr i := StatisticalCorrector.gIndexLogsSubstr nbr i
  getIndUpds := StatisticalCorrector.getIndUpds c

def group (c : TableParams) (length : Nat → Int) (g : Gehl) : Group := ⟨length, c.nb g, c.logs g⟩

def moduloShifts : OpenShifts where
  ones n := BitVec.ofNat 32 (2 ^ (n % 32).toNat - 1)
  shiftRight x n := x.sshiftRight (n % 64).toNat

def shippedLength (g : Gehl) (i : Nat) : Int := (lengths64KB g).getD i 0

def shippedBackward : Group := group default64KB (shippedLength .bw) .bw

/-- Where the count is taken modulo 32, bit 8 of the history is lost. Whatever the shift gives, the
first table of backward branches does not see the 40 low bits: bit 39 is lost where the `int` is not
negative, and bit 45 is seen where it is. -/
theorem shipped_length_not_honoured :
    (Derived.bhist moduloShifts shippedBackward 256 0).toNat = 0 ∧ 256 % 2 ^ 40 = 256 ∧
    ∀ u : OpenShifts, ∃ hist : BitVec 64,
      (Derived.bhist u shippedBackward hist 0).toNat ≠ hist.toNat % 2 ^ 40 ∧
      ∀ t, ((derived default64KB).gPredict u shippedBackward t 0 hist).2[0]? ≠
        some ((derived default64KB).gIndex u shippedBackward 0 (Derived.lowBits 40 hist) 0) := by
  refine ⟨by decide, by decide, fun u => ?_⟩
  have hsees : ∀ j, 31 ≤ j → j < 64 → Derived.bhist u shippedBackward (twoPow 64 j) 0 =
      if (u.ones 40).msb then twoPow 64 j else 0 := by
    intro j hj hj'
    have hbit := OpenShifts.getLsbD_onesBelow (u := u) (n := 40) (by decide) hj hj'
    rw [← hbit]
    exact BitVec.twoPow_and ..
  have hread : ∀ t hist, ((derived default64KB).gPredict u shippedBackward t 0 hist).2[0]? =
      some ((derived default64KB).gIndex u shippedBackward 0
        (Derived.bhist u shippedBackward hist 0) 0) := by
    intro t hist
    rw [Derived.indices_gPredict]
    exact Derived.indices_get (by decide)
  have hindex : ∀ bhist, (derived default64KB).gIndex u shippedBackward 0 bhist 0 =
      (BitVec.sshiftRight 0 2 ^^^ bhist ^^^ bhist.sshiftRight 8 ^^^ bhist.sshiftRight 16 ^^^
        bhist.sshiftRight 24 ^^^ bhist.sshiftRight 32 ^^^ bhist.sshiftRight 40) &&& 1023 :=
    fun _ => rfl
  cases hsign : (u.ones 40).msb with
  | false =>
    refine ⟨twoPow 64 39, ?_, fun t => ?_⟩
    · rw [hsees 39 (by decide) (by decide), hsign]
      decide
    · rw [hread, hsees 39 (by decide) (by decide), hsign, hindex, hindex]
      decide
  | true =>
    refine ⟨twoPow 64 45, ?_, fun t => ?_⟩
    · rw [hsees 45 (by decide) (by decide), hsign]
      decide
    · rw [hread, hsees 45 (by decide) (by decide), hsign, hindex, hindex]
      decide

end SC64KB

end StatisticalCorrector

end BTBFerret
