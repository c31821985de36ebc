import BTBFerret.BTBEntry
import BTBFerret.FallibleRuns

/-!
# Branch records of the ITTAGE predictor

A lookup creates the record of a branch without a target. The update that follows fills it in, but
returns at once for branches that add nothing to the history; commit relies on the target. What the
tables predict is given, and the histories themselves are left out.
-/

namespace BTBFerret.IndirectTage

open FallibleRuns

inductive Provider where
  | btb
  | tage
  deriving DecidableEq

structure ITTAGEBranchInfo where
  branchPC : Addr
  type : BranchType
  indirect : Bool
  taken : Bool
  squash : Bool
  provider : Provider
  predTarget : Option PCState
  corrTarget : Option PCState

structure ITTAGEParams where
  histBitsConditional : Nat
  histBitsIndBranch : Nat
  histBitsIndCall : Nat
  histBitsCall : Nat
  /-- The constructor panics for more. -/
  one_direction_bit : histBitsConditional ≤ 1

/-- The assertions on the PC, and a null pointer that is followed. -/
inductive Fault where
  | noBranchPC
  | noTarget
  deriving DecidableEq

def isIndirectNoReturn (type : BranchType) : Bool :=
  type == .callIndirect || type == .indirectUncond

def ITTAGEParams.histBits (p : ITTAGEParams) (type : BranchType) : Nat :=
  (match type with
    | .directCond => p.histBitsConditional
    | .indirectUncond => p.histBitsIndBranch
    | .callDirect => p.histBitsCall
    | .callIndirect => p.histBitsIndCall
    | _ => 0) % 256

def calculateHistUpdate (p : ITTAGEParams) (type : BranchType) (pc : Addr) (taken : Bool)
    (target : Addr) : Addr × Nat :=
  let nBits := p.histBits type
  let hist : Addr := if type = .directCond then if taken then 1 else 0
    else target ^^^ (target >>> 3) ^^^ pc
  (hist &&& (BitVec.ofNat 64 (2 ^ nBits) - 1), nBits)

def genIndirectInfo (pc : Addr) (type : BranchType) : ITTAGEBranchInfo where
  branchPC := pc
  type := type
  indirect := isIndirectNoReturn type
  taken := false
  squash := false
  provider := .btb
  predTarget := none
  corrTarget := none

def lookup (pc : Addr) (tagePredict : Option PCState) : ITTAGEBranchInfo :=
  { genIndirectInfo pc .noBranch with
    provider := if tagePredict.isSome then .tage else .btb
    predTarget := tagePredict }

def update (p : ITTAGEParams) (pc : Addr) (squash taken : Bool) (target : PCState)
    (brType : BranchType) (history : Option ITTAGEBranchInfo) :
    Except Fault (Option ITTAGEBranchInfo) :=
  if (calculateHistUpdate p brType pc taken target.instAddr).2 = 0 then .ok history
  else
    let bi := history.getD (genIndirectInfo pc brType)
    if bi.branchPC = 0 then .error .noBranchPC
    else .ok (some { bi with
      predTarget := if bi.provider = .btb ∧ bi.predTarget = none then some target else bi.predTarget
      indirect := isIndirectNoReturn brType
      type := brType
      taken := taken
      corrTarget := some target
      squash := bi.squash || squash })

def commit (p : ITTAGEParams) (history : Option ITTAGEBranchInfo) :
    Except Fault (Option (PCState × Addr × Nat)) :=
  match history with
  | none => .ok none
  | some bi =>
    if bi.branchPC = 0 then .error .noBranchPC
    else match bi.corrTarget with
      | none => .error .noTarget
      | some target =>
        .ok (some (target, calculateHistUpdate p bi.type bi.branchPC bi.taken target.instAddr))

/-! ## The life of a branch -/

/-- What `BPredUnit::predict` has found before it turns to the indirect predictor, and what it
takes as the target in the end. -/
structure Predicted where
  predTaken : Bool
  branchDetected : Bool
  tagePredict : Option PCState
  target : PCState

def Predicted.looksUp (h : Predicted) (inst : StaticInst) : Bool :=
  h.predTaken && h.branchDetected && inst.isIndirectCtrl && !inst.isReturn

/-- The part of `BPredUnit::predict` that concerns the indirect predictor. -/
def predict (p : ITTAGEParams) (inst : StaticInst) (pc : Addr) (h : Predicted) :
    Except Fault (Option ITTAGEBranchInfo) :=
  update p pc false h.predTaken h.target (getBranchType inst)
    (if h.looksUp inst then some (lookup pc h.tagePredict) else none)

def correct (p : ITTAGEParams) (inst : StaticInst) (pc : Addr)
    (history : Option ITTAGEBranchInfo) (corr : Bool × PCState) :
    Except Fault (Option ITTAGEBranchInfo) :=
  update p pc true corr.1 corr.2 (getBranchType inst) history

def lifeCycle (p : ITTAGEParams) (inst : StaticInst) (pc : Addr) (h : Predicted)
    (corrections : List (Bool × PCState)) : Except Fault (Option ITTAGEBranchInfo) := do
  let history ← predict p inst pc h
  run (correct p inst pc) history corrections

/-- A record that commit can use. -/
def Usable (history : Option ITTAGEBranchInfo) : Prop :=
  ∀ bi, history = some bi → bi.corrTarget.isSome ∧ bi.branchPC ≠ 0

variable {p : ITTAGEParams} {inst : StaticInst} {pc : Addr}

lemma usable_update {squash taken : Bool} {target : PCState} {brType : BranchType}
    {history history' : Option ITTAGEBranchInfo}
    (hbits : p.histBits brType ≠ 0 ∨ Usable history)
    (h : update p pc squash taken target brType history = .ok history') : Usable history' := by
  unfold update at h
  split at h
  · rename_i hnone
    cases h
    exact hbits.resolve_left fun hne => hne hnone
  · simp only at h
    split at h
    · cases h
    · rename_i hpc
      cases h
      rintro bi ⟨⟩
      exact ⟨rfl, hpc⟩

lemma update_of_no_bits {squash taken : Bool} {target : PCState} {brType : BranchType}
    (history : Option ITTAGEBranchInfo) (hbits : p.histBits brType = 0) :
    update p pc squash taken target brType history = .ok history := if_pos hbits

/-- The record of a lookup stays without a target. -/
lemma unfilled_of_no_bits {h : Predicted} {corrections : List (Bool × PCState)}
    {history : Option ITTAGEBranchInfo} (hbits : p.histBits (getBranchType inst) = 0)
    (hlooks : h.looksUp inst = true) (hlife : lifeCycle p inst pc h corrections = .ok history) :
    history = some (lookup pc h.tagePredict) := by
  obtain ⟨first, hpredict, hrun⟩ := bind_eq_ok_iff.mp hlife
  rw [predict, update_of_no_bits _ hbits, if_pos hlooks] at hpredict
  refine run_invariant_always (· = some (lookup pc h.tagePredict)) (fun s _ _ hs hstep => ?_)
    (Except.ok.inj hpredict).symm hrun
  rw [correct, update_of_no_bits _ hbits] at hstep
  exact (Except.ok.inj hstep).symm.trans hs

/-- The record of a branch has a target at commit exactly if branches of its type add to the history
or the predictor was not asked for a target. -/
theorem committed_record_has_target (p : ITTAGEParams) (inst : StaticInst) (pc : Addr)
    (h : Predicted) (corrections : List (Bool × PCState)) (bi : ITTAGEBranchInfo)
    (hlife : lifeCycle p inst pc h corrections = .ok (some bi)) :
    (bi.corrTarget.isSome ∧ ∃ trained, commit p (some bi) = .ok (some trained)) ↔
      p.histBits (getBranchType inst) ≠ 0 ∨ h.looksUp inst = false := by
  constructor
  · rintro ⟨htarget, -⟩
    by_contra hnot
    obtain ⟨hbits, hlooks⟩ := not_or.mp hnot
    have hbi := unfilled_of_no_bits (not_not.mp hbits) (Bool.eq_true_of_not_eq_false hlooks) hlife
    rw [Option.some.inj hbi] at htarget
    cases htarget
  · intro hbits
    obtain ⟨history, hpredict, hrun⟩ := bind_eq_ok_iff.mp hlife
    have hstart : Usable history := by
      refine usable_update (hbits.imp_right fun hnot => ?_) hpredict
      rw [hnot]
      rintro bi ⟨⟩
    have husable : Usable (some bi) := run_invariant_always Usable
      (fun _ _ _ hs hstep => usable_update (.inr hs) hstep) hstart hrun
    obtain ⟨htarget, hpc⟩ := husable bi rfl
    obtain ⟨target, heq⟩ := Option.isSome_iff_exists.mp htarget
    have hcommit : commit p (some bi) = .ok (some
        (target, calculateHistUpdate p bi.type bi.branchPC bi.taken target.instAddr)) := by
      dsimp only [commit]
      rw [if_neg hpc, heq]
    exact ⟨htarget, _, hcommit⟩

def defaultParams : ITTAGEParams := ⟨0, 10, 5, 5, zero_le_one⟩

def indirectJump (conditional : Bool) : StaticInst :=
  ⟨0, true, false, false, false, true, conditional, !conditional, false, false, 4⟩

def takenTo (target : Addr) : Predicted := ⟨true, true, none, .ofAddr target⟩

/-- An indirect jump is predicted to 128 and corrected to 256. -/
theorem committed_record_has_target_jump :
    ∃ bi, lifeCycle defaultParams (indirectJump false) 64 (takenTo 128) [(true, .ofAddr 256)] =
        .ok (some bi) ∧
      ∃ trained, commit defaultParams (some bi) = .ok (some trained) := by
  refine ⟨_, rfl, ((committed_record_has_target _ (indirectJump false) 64 (takenTo 128)
    [(true, .ofAddr 256)] _ rfl).mpr (.inl (by decide))).2⟩

/-- A conditional indirect jump adds nothing to the history, and the record of its lookup never
gets a target. -/
theorem conditional_jump_commits_without_target :
    ∃ bi, lifeCycle defaultParams (indirectJump true) 64 (takenTo 128) [(true, .ofAddr 256)] =
        .ok (some bi) ∧
      bi.corrTarget = none ∧ commit defaultParams (some bi) = .error .noTarget :=
  ⟨_, rfl, rfl, rfl⟩

end BTBFerret.IndirectTage
