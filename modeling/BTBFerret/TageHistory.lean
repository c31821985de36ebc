import BTBFerret.StatisticalCorrector

/-!
# The histories of TAGE

`tage_base.cc` and the history functions of `tage_sc_l.cc`: a path history, a global history of
bits and folded histories that are kept in step with it. The global history lives in a buffer that
is filled from the end to the start, where its youngest part is copied to the end. A branch
remembers how many bits it has inserted, and taking it back shifts them out again. The three arrays
of folded histories are one list here; the tables are not modelled.
-/

namespace BTBFerret

open Speculation

namespace Tage

open BitVec

/-! ## Folded histories -/

/-- A bit of the history, a `uint8_t` in the source. -/
def bit (b : Bool) : BitVec 32 := BitVec.ofNat 32 b.toNat

lemma getLsbD_bit (b : Bool) (i : Nat) : (bit b).getLsbD i = (decide (i = 0) && b) := by
  cases b with
  | false | true => simp [bit]

lemma getLsbD_one (i : Nat) : (1 : BitVec 32).getLsbD i = decide (i = 0) :=
  (getLsbD_bit true i).trans (Bool.and_true _)

/-- `(1ULL << width) - 1`, cut to 32 bits. -/
def mask (width : Nat) : BitVec 32 := BitVec.ofNat 32 (2 ^ width - 1)

lemma getLsbD_mask (width i : Nat) :
    (mask width).getLsbD i = (decide (i < 32) && decide (i < width)) := by
  simp [mask, getLsbD_ofNat, Nat.testBit_two_pow_sub_one]

/-- `FoldedHistory::update` with `h[0]` and `h[origLength]`. -/
def foldIn (compLength outpoint : Nat) (comp : BitVec 32) (h0 hOrig : Bool) : BitVec 32 :=
  let comp := (comp <<< 1) ||| bit h0
  let comp := comp ^^^ (bit hOrig <<< outpoint)
  let comp := comp ^^^ (comp >>> compLength)
  comp &&& mask compLength

/-- `FoldedHistory::restore`. -/
def foldOut (compLength outpoint : Nat) (comp : BitVec 32) (h0 hOrig : Bool) : BitVec 32 :=
  let comp := comp ^^^ (bit hOrig <<< outpoint)
  let tmp := (comp &&& 1) ^^^ bit h0
  (tmp <<< (compLength - 1)) ||| (comp >>> 1)

/-- The bits from `width` on are zero. -/
def Fits (width : Nat) (comp : BitVec 32) : Prop := ∀ i, width ≤ i → comp.getLsbD i = false

section

variable {compLength outpoint i : Nat} {comp : BitVec 32}

/-- The bits are rotated by one; the new bit goes to the start and the oldest to `outpoint`. -/
lemma getLsbD_foldIn (hlt : compLength < 32) (h : Fits compLength comp)
    (hout : outpoint < compLength) (h0 hOrig : Bool) (hi : i < compLength) :
    (foldIn compLength outpoint comp h0 hOrig).getLsbD i =
      ((if i = 0 then h0 ^^ comp.getLsbD (compLength - 1) else comp.getLsbD (i - 1)) ^^
        (decide (i = outpoint) && hOrig)) := by
  have hhigh := h (compLength + i - 1)
  simp only [foldIn, getLsbD_and, getLsbD_xor, getLsbD_or,
    getLsbD_ushiftRight, getLsbD_shiftLeft, getLsbD_bit, getLsbD_mask]
  grind

lemma fits_foldIn (compLength outpoint : Nat) (comp : BitVec 32) (h0 hOrig : Bool) :
    Fits compLength (foldIn compLength outpoint comp h0 hOrig) := by
  intro i hi
  rw [foldIn, getLsbD_and, getLsbD_mask, decide_eq_false (not_lt.mpr hi), Bool.and_false,
    Bool.and_false]

lemma getLsbD_foldOut (hpos : 0 < compLength) (hlt : compLength < 32) (h0 hOrig : Bool)
    (hi : i < 32) :
    (foldOut compLength outpoint comp h0 hOrig).getLsbD i =
      ((decide (i = compLength - 1) &&
          (comp.getLsbD 0 ^^ (decide (0 = outpoint) && hOrig) ^^ h0)) ||
        (comp.getLsbD (i + 1) ^^ (decide (i + 1 < 32) && decide (i + 1 = outpoint) && hOrig))) := by
  have hcomm := Nat.add_comm 1 i
  simp only [foldOut, getLsbD_and, getLsbD_xor, getLsbD_or,
    getLsbD_ushiftRight, getLsbD_shiftLeft, getLsbD_bit, getLsbD_one]
  grind

section

variable (hpos : 0 < compLength) (hlt : compLength < 32) (h : Fits compLength comp)
  (hout : outpoint < compLength) (h0 hOrig : Bool)

include hpos hlt h hout

lemma fits_foldOut : Fits compLength (foldOut compLength outpoint comp h0 hOrig) := by
  intro i hi
  rcases Nat.lt_or_ge i 32 with hlow | hhigh
  · have hzero := h (i + 1) (by omega)
    rw [getLsbD_foldOut hpos hlt h0 hOrig hlow]
    grind
  · exact getLsbD_of_ge _ i hhigh

/-- `restore` is the inverse of `update`. -/
lemma foldOut_foldIn :
    foldOut compLength outpoint (foldIn compLength outpoint comp h0 hOrig) h0 hOrig = comp := by
  apply eq_of_getLsbD_eq
  intro i hi
  have hfirst := getLsbD_foldIn hlt h hout h0 hOrig hpos
  have hnext := fun hlow => getLsbD_foldIn hlt h hout h0 hOrig (i := i + 1) hlow
  have hnone := fits_foldIn compLength outpoint comp h0 hOrig (i + 1)
  have hzero := h i
  rw [getLsbD_foldOut hpos hlt h0 hOrig hi]
  grind

end

end

/-- A folded history of at most `maxHist` bits. `comp` never has more than `compLength` bits. -/
@[ext] structure FoldedHistory (maxHist : Nat) where
  comp : BitVec 32
  compLength : Nat
  origLength : Nat
  pos : 0 < compLength
  lt : compLength < 32
  le : origLength ≤ maxHist
  fits : Fits compLength comp

namespace FoldedHistory

variable {maxHist : Nat} (f : FoldedHistory maxHist)

def outpoint : Nat := f.origLength % f.compLength

def update (h0 hOrig : Bool) : FoldedHistory maxHist :=
  { f with
    comp := foldIn f.compLength f.outpoint f.comp h0 hOrig
    fits := fits_foldIn _ _ _ h0 hOrig }

def restore (h0 hOrig : Bool) : FoldedHistory maxHist :=
  { f with
    comp := foldOut f.compLength f.outpoint f.comp h0 hOrig
    fits := fits_foldOut f.pos f.lt f.fits (Nat.mod_lt _ f.pos) h0 hOrig }

lemma restore_update (h0 hOrig : Bool) : (f.update h0 hOrig).restore h0 hOrig = f := by
  ext1
  · exact foldOut_foldIn f.pos f.lt f.fits (Nat.mod_lt _ f.pos) h0 hOrig
  · rfl
  · rfl

end FoldedHistory

/-! ## The histories of a thread -/

/-- `TAGEBase`, or `TAGE_SC_L_TAGE`, which has its own history functions. -/
inductive TageVariant where
  | base
  | scl
  deriving DecidableEq, Repr

structure TageParams where
  variant : TageVariant
  histBufferSize : Nat
  maxHist : Nat
  pathHistBits : Nat
  instShiftAmt : Nat
  takenOnlyHistory : Bool
  truncatePathHist : Bool
  speculativeHistUpdate : Bool

/-- The bits that a rollover copies besides the visible history. -/
def rollbackBuffer : Nat := 2000

/-- `globalHist` has `histBufferSize` bits, the youngest one at `ptGhist`. -/
structure ThreadHistory (c : TageParams) where
  pathHist : BitVec 32
  nonSpecPathHist : BitVec 32
  globalHist : Nat → Bool
  ptGhist : Nat
  folded : List (FoldedHistory c.maxHist)

/-- What a branch remembers of its updates. -/
structure BranchInfo where
  pathHist : BitVec 32
  ghist : BitVec 64
  nGhist : Nat
  modified : Bool

def makeBranchInfo : BranchInfo := ⟨0, 0, 0, false⟩

inductive TageFault where
  /-- a bit outside of the buffer -/
  | outOfBounds
  /-- `assert((tHist.ptGhist + maxHist) < tHist.globalHist.size())` -/
  | rollbackExceeded
  /-- `assert(bi->nGhist == 0)` -/
  | historyModified
  deriving DecidableEq, Repr

section

variable (c : TageParams)

def branchType (inst : StaticInst) : Nat :=
  match c.variant with
  | .base => 0
  | .scl => StatisticalCorrector.branchTypeExtra inst

/-- The loop of `TAGE_SC_L_TAGE::calcNewPathHist`. -/
def pathBits : Nat → BitVec 32 → BitVec 32 → BitVec 32
  | 0, _, phist => phist
  | t + 1, path, phist =>
    let phist := (phist <<< 1) ^^^ (path &&& 127)
    pathBits t (path.sshiftRight 1)
      (if c.truncatePathHist then phist &&& mask c.pathHistBits else phist)

def calcNewPathHist (pc : Addr) (phist : BitVec 32) (taken : Bool) (brtype : Nat) (target : Addr) :
    BitVec 32 :=
  if c.takenOnlyHistory && !taken then phist
  else match c.variant with
    | .base =>
      let pathbit := ((pc >>> c.instShiftAmt) &&& 1).setWidth 32
      ((phist <<< 1) + pathbit) &&& mask c.pathHistBits
    | .scl =>
      let pc := pc >>> c.instShiftAmt
      let target := target >>> c.instShiftAmt
      let path := (pc ^^^ (pc >>> 2) ^^^ (pc >>> 4)).setWidth 32
      let path := if brtype = 3 ∧ taken = true then
          path ^^^ ((target >>> 2) ^^^ (target >>> 4)).setWidth 32
        else path
      pathBits c (if brtype = 2 then 3 else 2) path phist

/-- The bits that a branch shifts into the global history, and their number. A not-taken branch
leaves the old values with `takenOnlyHistory`. -/
def newGhist (pc : Addr) (taken : Bool) (brtype : Nat) (target : Addr) (bi : BranchInfo) :
    BranchInfo :=
  let pc := pc >>> c.instShiftAmt
  let target := target >>> c.instShiftAmt
  if c.takenOnlyHistory then
    if taken then { bi with ghist := (pc >>> 2) ^^^ (target >>> 3), nGhist := 2 } else bi
  else match c.variant with
    | .base => { bi with ghist := if taken then 1 else 0, nGhist := 1 }
    | .scl =>
      let ghist := (pc ^^^ (pc >>> 2)) ^^^ BitVec.ofNat 64 taken.toNat
      { bi with
        ghist := if brtype = 3 ∧ taken = true then ghist ^^^ (target >>> 2) else ghist
        nGhist := if brtype = 2 then 3 else 2 }

end

/-- The copy loop of a rollover, one bit after the other. -/
def copyBits (src dst : Nat) : Nat → (Nat → Bool) → Nat → Bool
  | 0, g => g
  | k + 1, g =>
    let g := copyBits src dst k g
    Function.update g (dst + k) (g (src + k))

namespace ThreadHistory

variable {c : TageParams}

def copyStart (c : TageParams) : Nat := c.histBufferSize - c.maxHist - rollbackBuffer

variable (s : ThreadHistory c)

def rollOver : Except TageFault (ThreadHistory c) :=
  if c.histBufferSize < s.ptGhist + (c.maxHist + rollbackBuffer) then .error .outOfBounds
  else .ok { s with
    globalHist := copyBits s.ptGhist (copyStart c) (c.maxHist + rollbackBuffer) s.globalHist
    ptGhist := copyStart c }

def inBounds : Bool :=
  s.folded.all fun f => s.ptGhist + f.origLength < c.histBufferSize

def updateFolded : Except TageFault (ThreadHistory c) :=
  if s.inBounds then .ok { s with
    folded := s.folded.map fun f =>
      f.update (s.globalHist s.ptGhist) (s.globalHist (s.ptGhist + f.origLength)) }
  else .error .outOfBounds

def restoreFolded : Except TageFault (ThreadHistory c) :=
  if s.inBounds then .ok { s with
    folded := s.folded.map fun f =>
      f.restore (s.globalHist s.ptGhist) (s.globalHist (s.ptGhist + f.origLength)) }
  else .error .outOfBounds

/-- One bit; `globalHist.at` checks the position. -/
def shiftIn (b : Bool) : Except TageFault (ThreadHistory c) :=
  if s.ptGhist = 0 ∨ c.histBufferSize < s.ptGhist then .error .outOfBounds
  else
    updateFolded { s with
      globalHist := Function.update s.globalHist (s.ptGhist - 1) b
      ptGhist := s.ptGhist - 1 }

def shiftBits : Nat → BitVec 64 → ThreadHistory c → Except TageFault (ThreadHistory c)
  | 0, _, s => .ok s
  | n + 1, bv, s => do
    let s ← s.shiftIn (bv.getLsbD 0)
    shiftBits n (bv >>> 1) s

def updateGHist (bv : BitVec 64) (n : Nat) : Except TageFault (ThreadHistory c) :=
  if n = 0 then .ok s
  else if s.ptGhist < n then s.rollOver >>= shiftBits n bv
  else shiftBits n bv s

/-- One bit is taken back. -/
def shiftOut : Except TageFault (ThreadHistory c) := do
  let s ← s.restoreFolded
  if s.ptGhist + 1 + c.maxHist < c.histBufferSize then return { s with ptGhist := s.ptGhist + 1 }
  else .error .rollbackExceeded

def unshiftBits : Nat → ThreadHistory c → Except TageFault (ThreadHistory c)
  | 0, s => .ok s
  | n + 1, s => do
    let s ← s.shiftOut
    unshiftBits n s

def updatePathAndGlobalHistory (s : ThreadHistory c) (brtype : Nat) (taken : Bool)
    (pc target : Addr)
    (bi : BranchInfo) : Except TageFault (ThreadHistory c × BranchInfo) := do
  let s := { s with pathHist := calcNewPathHist c pc s.pathHist taken brtype target }
  let bi := newGhist c pc taken brtype target bi
  let s ← s.updateGHist bi.ghist bi.nGhist
  return (s, bi)

def restoreHistState (bi : BranchInfo) : Except TageFault (ThreadHistory c × BranchInfo) :=
  if c.speculativeHistUpdate = false then .ok (s, bi)
  else if bi.modified = false then .ok (s, bi)
  else
    let s := { s with pathHist := bi.pathHist }
    if bi.nGhist = 0 then .ok (s, bi)
    else do
      let s ← unshiftBits bi.nGhist s
      return (s, { bi with nGhist := 0, modified := false })

/-- The part of `recordHistState` that is restored. -/
def recordHistState (bi : BranchInfo) : BranchInfo :=
  { bi with pathHist := s.pathHist }

/-- The first branches of `updateHistories`: a branch without an update records the history, and an
update made before is reverted. -/
def prepare (bi : BranchInfo) : Except TageFault (ThreadHistory c × BranchInfo) :=
  if bi.modified then s.restoreHistState bi
  else .ok (s, if c.speculativeHistUpdate then s.recordHistState bi else bi)

def updateHistories (pc : Addr) (speculative taken : Bool) (target : Addr) (inst : StaticInst)
    (bi : BranchInfo) : Except TageFault (ThreadHistory c × BranchInfo) :=
  if speculative ≠ c.speculativeHistUpdate then
    if speculative then .ok (s, bi)
    else .ok ({ s with
      nonSpecPathHist := calcNewPathHist c pc bi.pathHist taken (branchType c inst) target }, bi)
  else do
    let (s, bi) ← s.prepare bi
    if bi.nGhist ≠ 0 then .error .historyModified
    else
      let (s, bi) ← s.updatePathAndGlobalHistory (branchType c inst) taken pc target bi
      return (s, { bi with modified := true })

end ThreadHistory

/-! ## The predictor -/

structure BranchRecord where
  inst : StaticInst
  pc : Addr
  taken : Bool
  target : Addr
  info : BranchInfo

/-- A branch is predicted, or the predecoder finds it and gives it a record without an update. -/
inductive BranchInput where
  | predicted (inst : StaticInst) (pc : Addr) (taken : Bool) (target : Addr)
  | placeholder (inst : StaticInst) (pc : Addr) (target : Addr)

structure Correction where
  taken : Bool
  target : Addr

def predict {c : TageParams} (s : ThreadHistory c) :
    BranchInput → Except TageFault (ThreadHistory c × BranchRecord)
  | .predicted inst pc taken target => do
    let (s, bi) ← s.updateHistories pc true taken target inst makeBranchInfo
    return (s, ⟨inst, pc, taken, target, bi⟩)
  | .placeholder inst pc target => .ok (s, ⟨inst, pc, false, target, makeBranchInfo⟩)

/-- `TAGEBase::squash` with the outcome of the branch. -/
def correct {c : TageParams} (s : ThreadHistory c) (r : BranchRecord) (o : Correction) :
    Except TageFault (ThreadHistory c × BranchRecord) := do
  let (s, bi) ← s.updateHistories r.pc true o.taken o.target r.inst r.info
  return (s, { r with taken := o.taken, target := o.target, info := bi })

/-- `TAGE::squash` of a branch takes its update back, `TAGE::update` at the commit may update
the non-speculative histories. -/
def tagePredictor (c : TageParams) :
    Predictor (ThreadHistory c) BranchInput Correction BranchRecord TageFault where
  predict := predict
  correct := correct
  squash s r := Prod.fst <$> s.restoreHistState r.info
  commit s r := Prod.fst <$> s.updateHistories r.pc false r.taken r.target r.inst r.info

end Tage

end BTBFerret
