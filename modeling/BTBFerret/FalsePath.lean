import BTBFerret.BlockMap

/-!
# The false path of an override

While a prediction takes cycles the stage follows the level-1 predictions and announces each step as
a fetch target to the prefetcher. The target ends where the step leads, so it is a block of
instructions only if the step falls through.
-/

namespace BTBFerret

open FallibleRuns

namespace FrontEnd

open BitVec

variable {B : BranchTargetBuffer} {c : FrontEndParams}

def falsePathTarget (c : FrontEndParams) (s : FrontEnd B) (ans : Answers) :
    Attempt B (FrontEnd B × FetchTarget) := do
  let t ← s.advanceL1PredPC c ans
  return (t, .override (.ofAddr s.falsePathCurAddr) (.ofAddr t.falsePathCurAddr) 0)

def overrideTarget (c : FrontEndParams) (s : FrontEnd B) : FrontEndOp B → Option FetchTarget
  | .tick tid sig answers =>
    match s.checkSignalsAndUpdate c (c.thread tid) sig with
    | .ok u =>
      if c.decoupledFrontEnd && u.bacStatus == .overriding && c.modelOverrideFalsePath then
        (u.falsePathTarget c (answers 0)).toOption.map Prod.snd
      else none
    | .error _ => none
  | _ => none

lemma overrideTarget_eq_some {s : FrontEnd B} {op : FrontEndOp B} {ft : FetchTarget}
    (hft : s.overrideTarget c op = some ft) :
    ∃ tid sig answers u t, op = .tick tid sig answers ∧ c.decoupledFrontEnd = true ∧
      s.checkSignalsAndUpdate c (c.thread tid) sig = .ok u ∧ u.bacStatus = .overriding ∧
      c.modelOverrideFalsePath = true ∧ u.advanceL1PredPC c (answers 0) = .ok t ∧
      ft = .override (.ofAddr u.falsePathCurAddr) (.ofAddr t.falsePathCurAddr) 0 := by
  cases op with
  | tick tid sig answers =>
    unfold overrideTarget at hft
    dsimp only at hft
    cases hcheck : s.checkSignalsAndUpdate c (c.thread tid) sig with
    | error =>
      rw [hcheck] at hft
      cases hft
    | ok u =>
      rw [hcheck] at hft
      dsimp only at hft
      split at hft
      · rename_i hdo
        simp only [Bool.and_eq_true, beq_iff_eq] at hdo
        unfold falsePathTarget at hft
        cases hadv : u.advanceL1PredPC c (answers 0) with
        | error =>
          rw [hadv] at hft
          cases hft
        | ok t =>
          rw [hadv] at hft
          obtain rfl := Option.some.inj hft
          exact ⟨tid, sig, answers, u, t, rfl, hdo.1.1, hcheck, hdo.1.2, hdo.2, hadv, rfl⟩
      · cases hft
  | _ => cases hft

/-- The step hands the target to the queue. -/
lemma step_overrideTarget {s : FrontEnd B} {op : FrontEndOp B} {ft : FetchTarget}
    (hft : s.overrideTarget c op = some ft) : ∃ t : FrontEnd B, s.step c op =
      (t.ftq.insert c.numFTQEntries ft).bind fun ftq => .ok { t with ftq := ftq } := by
  obtain ⟨tid, sig, answers, u, t, rfl, hdec, hcheck, hstatus, hmodel, hadv, rfl⟩ :=
    overrideTarget_eq_some hft
  have hrun : u.bacStatus ≠ .running := by
    rw [hstatus]
    decide
  refine ⟨t, ?_⟩
  simp only [step, tick, hdec, if_true]
  rw [hcheck]
  change u.generate c (c.thread tid) answers = _
  rw [generate, if_neg hrun, if_pos hstatus, generateOverrideFetchTargets, hmodel]
  change (u.advanceL1PredPC c (answers 0)).bind _ = _
  rw [hadv]
  rfl

def FallsThrough (c : FrontEndParams) (s : FrontEnd B) (ans : Answers) : Prop :=
  let start := s.falsePathCurAddr
  let branch := s.bpu.lookupBBBranch start
  start.toNat + c.fetchTargetWidth < 2 ^ 64 ∧
    ((∀ r, B.lookupL1 s.bpu.btb 0 branch = .ok r → r.2 = maxAddr) ∨
      (ans.l1Taken = false ∧ branch.toNat + 4 ≤ start.toNat + c.fetchTargetWidth))

def FalsePathFalls (c : FrontEndParams) (s : FrontEnd B) : FrontEndOp B → Prop
  | .tick tid sig answers =>
    ∀ u, s.checkSignalsAndUpdate c (c.thread tid) sig = .ok u → u.FallsThrough c (answers 0)
  | _ => True

lemma toNat_add_of_lt {a : Addr} {n : Nat} (h : a.toNat + n < 2 ^ 64) :
    (a + BitVec.ofNat 64 n).toNat = a.toNat + n := by
  rw [toNat_add, toNat_ofNat, Nat.add_mod_mod, Nat.mod_eq_of_lt h]

lemma meets_advanceL1PredPC_falls {s : FrontEnd B} {ans : Answers}
    (hmap : s.falsePathCurAddr ≤ s.bpu.lookupBBBranch s.falsePathCurAddr)
    (hfalls : s.FallsThrough c ans) :
    Meets (s.advanceL1PredPC c ans) (fun t => InBlock c.fetchTargetWidth s.falsePathCurAddr
      t.falsePathCurAddr) (fun _ => True) := by
  obtain ⟨hfits, hcase⟩ := hfalls
  have hwidth : InBlock c.fetchTargetWidth s.falsePathCurAddr
      (s.falsePathCurAddr + BitVec.ofNat 64 c.fetchTargetWidth) := by
    unfold InBlock
    rw [toNat_add_of_lt hfits]
    omega
  unfold advanceL1PredPC BPredUnit.predictL1
  dsimp only
  generalize s.bpu.lookupBBBranch s.falsePathCurAddr = branch at hmap hcase
  cases hlookup : B.lookupL1 s.bpu.btb 0 branch with
  | error => trivial
  | ok r =>
    change InBlock c.fetchTargetWidth s.falsePathCurAddr
      (if (if r.2 ≠ maxAddr ∧ ans.l1Taken = false then branch + 4 else r.2) = maxAddr then
        s.falsePathCurAddr + BitVec.ofNat 64 c.fetchTargetWidth
      else if r.2 ≠ maxAddr ∧ ans.l1Taken = false then branch + 4 else r.2)
    generalize hpick : (if r.2 ≠ maxAddr ∧ ans.l1Taken = false then branch + 4 else r.2) = target
    by_cases hr : r.2 = maxAddr
    · rw [if_neg (fun h => h.1 hr), hr] at hpick
      rw [if_pos hpick.symm]
      exact hwidth
    · rcases hcase with hmiss | ⟨hnot, hin⟩
      · exact absurd (hmiss r hlookup) hr
      · rw [if_pos ⟨hr, hnot⟩] at hpick
        have hnext : (branch + 4).toNat = branch.toNat + 4 :=
          toNat_add_of_lt (n := 4) (by omega)
        rw [le_def] at hmap
        split
        · exact hwidth
        · rw [← hpick]
          unfold InBlock
          omega

/-- In every run an override target that a step hands to the queue while the false path falls
through is a block of at most the width of a fetch target. -/
theorem override_targets_contiguous {btb : B.State} {pc : PCState} {ops : List (FrontEndOp B)}
    {s : FrontEnd B} (h : Reached c btb pc ops s) {op : FrontEndOp B} {ft : FetchTarget}
    (hft : s.overrideTarget c op = some ft) :
    (∃ t : FrontEnd B, s.step c op =
      (t.ftq.insert c.numFTQEntries ft).bind fun ftq => .ok { t with ftq := ftq }) ∧
    (s.FalsePathFalls c op → ft.startAddress.toNat ≤ ft.endAddress.toNat ∧
      ft.endAddress.toNat ≤ ft.startAddress.toNat + c.fetchTargetWidth) := by
  refine ⟨step_overrideTarget hft, fun hfalls => ?_⟩
  obtain ⟨tid, sig, answers, u, t, rfl, hdec, hcheck, -, -, hadv, rfl⟩ := overrideTarget_eq_some hft
  have hthread : c.thread tid = 0 := if_pos hdec
  have hthrough := hfalls u hcheck
  rw [hthread] at hcheck
  have hblocks := (Blocks.checked hdec (reached_blocks hdec searchBounded_all h) sig).of_ok hcheck
  have hmap : u.falsePathCurAddr ≤ u.bpu.lookupBBBranch u.falsePathCurAddr := by
    by_cases hmapped : u.bpu.lookupBBBranch u.falsePathCurAddr = maxAddr
    · rw [hmapped, le_def]
      exact Nat.le_of_lt_succ u.falsePathCurAddr.isLt
    · exact hblocks.no_fallback _ hmapped
  exact (meets_advanceL1PredPC_falls hmap hthrough).of_ok hadv

/-! ## A far override -/

def twoInL1 : Params := { Params.small with l1btb := .small 2 Nat.two_pos }

/-- The branch at 4 jumps to 12 and the branch at 16 to `far`; both are in L1. The stage starts
again at 0, where the prediction takes two cycles. -/
def farOverride (far : Addr) : List (FrontEndOp (multiLevelBTB twoInL1)) :=
  [quietTick, .updatePC 0 (.direct true) (.ofAddr 4) .notTaken,
    .tick 0 { Signals.quiet with commitSquash := some ⟨.ofAddr 12, 1, true, true⟩ }
      fun _ => .notTaken,
    .btbEvent (.advance 1 1),
    .tick 0 { Signals.quiet with doneSeqNum := 1 } fun _ => .notTaken,
    .updatePC 0 (.direct true) (.ofAddr 16) .notTaken,
    .tick 0 { Signals.quiet with commitSquash := some ⟨.ofAddr far, 2, true, true⟩ }
      fun _ => .notTaken,
    .btbEvent (.advance 1 1),
    .tick 0 { Signals.quiet with doneSeqNum := 2 } fun _ => .notTaken,
    .tick 0 { Signals.quiet with commitSquash := some ⟨.ofAddr 0, 2, false, false⟩ }
      fun _ => .notTaken,
    .tick 0 .quiet fun _ => { Answers.notTaken with cond := (true, 2), l1Taken := true }]

def atFarOverride : Except (FrontEndFault (multiLevelBTB twoInL1).Fault)
    (FrontEnd (multiLevelBTB twoInL1)) :=
  run (step blockBased) (init (State.init twoInL1 ⟨false, false⟩) (.ofAddr 0)) (farOverride 4096)

/-- The false path follows the branch at 16 to 4096 and announces all of it. -/
theorem override_target_follows_branch :
    ∃ s : FrontEnd (multiLevelBTB twoInL1),
      Reached blockBased (State.init twoInL1 ⟨false, false⟩) (.ofAddr 0) (farOverride 4096) s ∧
      s.overrideTarget blockBased
        (.tick 0 .quiet fun _ => { Answers.notTaken with l1Taken := true }) =
          some (.override (.ofAddr 12) (.ofAddr 4096) 0) ∧
      blockBased.fetchTargetWidth = 8 := by
  obtain ⟨s, hs, hft⟩ := exists_of_holdsAt atFarOverride
    (fun s => s.overrideTarget blockBased
      (.tick 0 .quiet fun _ => { Answers.notTaken with l1Taken := true }) ==
        some (.override (.ofAddr 12) (.ofAddr 4096) 0)) (by decide +kernel)
  exact ⟨s, hs, eq_of_beq hft, rfl⟩

/-- With the branch at 16 predicted not taken the target is the block from 12 to 20. -/
theorem override_targets_contiguous_small :
    ∃ s : FrontEnd (multiLevelBTB twoInL1),
      Reached blockBased (State.init twoInL1 ⟨false, false⟩) (.ofAddr 0) (farOverride 4096) s ∧
      s.overrideTarget blockBased quietTick = some (.override (.ofAddr 12) (.ofAddr 20) 0) ∧
      (20 : Addr).toNat ≤ (12 : Addr).toNat + 8 := by
  obtain ⟨s, hs, htest⟩ := exists_of_holdsAt atFarOverride
    (fun s => s.overrideTarget blockBased quietTick ==
        some (.override (.ofAddr 12) (.ofAddr 20) 0) &&
      match s.checkSignalsAndUpdate blockBased 0 .quiet with
      | .ok u => u.falsePathCurAddr == 12 && u.bpu.lookupBBBranch 12 == 16
      | .error _ => false) (by decide +kernel)
  obtain ⟨hft, hpath⟩ := Bool.and_eq_true_iff.mp htest
  have hfalls : s.FalsePathFalls blockBased quietTick := by
    intro u hu
    have hu' : s.checkSignalsAndUpdate blockBased 0 .quiet = .ok u := hu
    rw [hu'] at hpath
    obtain ⟨hstart, hbranch⟩ := Bool.and_eq_true_iff.mp hpath
    have hstart : u.falsePathCurAddr = 12 := eq_of_beq hstart
    have hbranch : u.bpu.lookupBBBranch 12 = 16 := eq_of_beq hbranch
    unfold FallsThrough
    dsimp only
    rw [hstart, hbranch]
    exact ⟨by decide, .inr ⟨rfl, by decide⟩⟩
  exact ⟨s, hs, eq_of_beq hft, ((override_targets_contiguous hs (eq_of_beq hft)).2 hfalls).2⟩

end FrontEnd

end BTBFerret
