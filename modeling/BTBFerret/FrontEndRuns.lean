import BTBFerret.BranchAddressCalculation

/-!
# Runs of the front end

The stage ticks with the signals of the cycle; fetch builds instructions, pops consumed targets and
asks for a resteer; the CPU drains and resumes; the BTB has events of its own. The environment
chooses the order. A run stops at the first fault.
-/

namespace BTBFerret

open ReplacementPolicy FallibleRuns

inductive FrontEndOp (B : BranchTargetBuffer) where
  | tick (tid : ThreadID) (sig : Signals) (answers : Nat → Answers)
  | updatePC (tid : ThreadID) (inst : StaticInst) (fetchPC : PCState) (ans : Answers)
  | popHead
  | bacResteer
  | drainStall
  | drainResume
  | btbEvent (e : B.Event)

def FrontEndParams.thread (c : FrontEndParams) (tid : ThreadID) : ThreadID :=
  if c.decoupledFrontEnd then 0 else tid

namespace FrontEnd

variable {B : BranchTargetBuffer} (c : FrontEndParams)

def step (s : FrontEnd B) : FrontEndOp B → Attempt B (FrontEnd B)
  | .tick tid sig answers => s.tick c (c.thread tid) sig answers
  | .updatePC tid inst fetchPC ans => Prod.fst <$> s.updatePC c ans (c.thread tid) inst fetchPC
  | .popHead => do
    let (ftq, _) ← s.ftq.popHead
    return { s with ftq := ftq }
  -- the squash signal reaches the stage with a later tick
  | .bacResteer => .ok { s with ftq := s.ftq.invalidate }
  | .drainStall => .ok { s with stalls := { s.stalls with drain := true } }
  | .drainResume => .ok { s with stalls := { s.stalls with drain := false } }
  | .btbEvent e => do
    let btb ← BPredUnit.ofBTB (B.event s.bpu.btb e)
    return { s with bpu := { s.bpu with btb := btb } }

def Reached (btb : B.State) (pc : PCState) (ops : List (FrontEndOp B)) (s : FrontEnd B) : Prop :=
  run (step c) (init btb pc) ops = .ok s

end FrontEnd

/-! ## The multi-level BTB in the front end -/

inductive BTBEvent where
  | processDeferredPrefetchQueue
  | memInvalidate
  | advance (ticks : Tick) (cycles : Cycles)

def multiLevelBTB (p : Params) : BranchTargetBuffer where
  State := State p
  Fault := Fault
  Event := BTBEvent
  isMultiLevelBTB := true
  valid := State.valid
  getInst := State.getInst
  lookupWithLatency := State.lookupWithLatency
  lookupL1 := fun s tid pc => .ok (s.lookupL1 tid pc)
  update := State.update
  updateDirection := State.updateDirection
  trainMarkovOnCommit := State.trainMarkovOnCommit
  trainPrefetchBitsOnCommit := State.trainPrefetchBitsOnCommit
  setBBMap := fun s map => { s with bbMap := some map }
  event := fun s e => match e with
    | .processDeferredPrefetchQueue => s.processDeferredPrefetchQueue
    | .memInvalidate => .ok s.memInvalidate
    | .advance ticks cycles => s.step (.advance ticks cycles)

/-! ## A small front end -/

def FrontEndParams.small (numFTQEntries : Nat) : FrontEndParams where
  decoupledFrontEnd := true
  fetchTargetWidth := 4
  minInstSize := 4
  minInstSize_pos := Nat.succ_pos _
  maxFTPerCycle := 2
  maxTakenPredPerCycle := 2
  numFTQEntries := numFTQEntries
  blockBTB := false
  modelOverrideFalsePath := true
  requiresBTBHit := true
  updateBTBAtSquash := false
  basicBlockBTB := false
  useBtbBim := false
  overridingCPred := false
  ras := false
  iPred := false
  advancePC := fun inst pc => .ofAddr (pc.instAddr + BitVec.ofNat 64 inst.size)

def Signals.quiet : Signals := ⟨none, 0, none, none⟩

/-- Conditional branches are predicted not taken at once. -/
def Answers.notTaken : Answers := ⟨(false, 0), (false, 0), 0, none, none, 0, false⟩

def StaticInst.direct (conditional : Bool) : StaticInst :=
  ⟨0, true, false, false, true, false, conditional, !conditional, false, false, 4⟩

/-- A cycle without signals, with conditional branches predicted not taken. -/
def quietTick {B : BranchTargetBuffer} : FrontEndOp B := .tick 0 .quiet fun _ => .notTaken

def learnBranch {B : BranchTargetBuffer} : List (FrontEndOp B) :=
  [quietTick, .popHead, .updatePC 0 (.direct true) (.ofAddr 12) .notTaken,
    .tick 0 { Signals.quiet with commitSquash := some ⟨.ofAddr 0, 1, true, true⟩ }
      fun _ => .notTaken,
    .tick 0 { Signals.quiet with doneSeqNum := 1 } fun _ => .notTaken]

abbrev FrontEnd.ReachedSmall (c : FrontEndParams) :=
  Reached (B := multiLevelBTB .small) c (State.init .small ⟨false, false⟩) (.ofAddr 0)

lemma FrontEnd.exists_reached (c : FrontEndParams)
    (ops : List (FrontEndOp (multiLevelBTB .small)))
    (test : FrontEnd (multiLevelBTB .small) → Bool)
    (h : holdsAt (run (FrontEnd.step c)
      (.init (B := multiLevelBTB .small) (State.init .small ⟨false, false⟩) (.ofAddr 0)) ops) test =
        true) :
    ∃ s, ReachedSmall c ops s ∧ test s = true :=
  exists_of_holdsAt _ _ h

end BTBFerret
