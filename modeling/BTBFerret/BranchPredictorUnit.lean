import BTBFerret.Operations

/-!
# The branch predictor unit

`bpred_unit.cc`: the unit asks its predictors and keeps a history object for every branch in
flight. The histories that instructions own are in `predHist`, the youngest at the front; a squash
undoes them from the front and an update commits them from the back. The BTB is any implementation
of the interface of `btb.hh`. What the other predictors answer is an argument of a prediction, and
the calls that undo or commit a history are recorded in a log.
-/

namespace BTBFerret

abbrev InstSeqNum := Nat
abbrev FTSeqNum := Nat

/-- The interface of `btb.hh`, with the training calls that the unit makes for a
multi-level BTB and the events that the BTB schedules for itself. -/
structure BranchTargetBuffer where
  State : Type
  Fault : Type
  Event : Type
  isMultiLevelBTB : Bool
  valid : State → ThreadID → Addr → Bool
  getInst : State → ThreadID → Addr → Option StaticInst
  lookupWithLatency : State → ThreadID → Addr → BranchType → Bool → Addr → Bool →
    Except Fault (State × BTBLookupResult)
  lookupL1 : State → ThreadID → Addr → Except Fault (State × Addr)
  update : State → ThreadID → Addr → PCState → BranchType → Option StaticInst → Except Fault State
  updateDirection : State → ThreadID → Addr → Bool → State
  trainMarkovOnCommit : State → Addr → Bool → Except Fault State
  trainPrefetchBitsOnCommit : State → ThreadID → Addr → Bool → State
  setBBMap : State → BBMap → State
  event : State → Event → Except Fault State

inductive FrontEndFault (φ : Type) where
  /-- the BTB stops -/
  | btb (fault : φ)
  /-- `assert(hist == nullptr)` before a prediction -/
  | historyPresent
  /-- `assert(staticInst)` for a branch found in the BTB -/
  | nullInst
  /-- the target of a history is dereferenced -/
  | nullTarget
  /-- `assert(ftq[tid].size() < numEntries)` in `FTQ::insert` -/
  | ftqInsert
  /-- `assert(ft->bpuHistory == nullptr)` in `FTQ::squash` -/
  | ftqSquash
  /-- `assert(!ftq[tid].empty())` in `FTQ::popHead` -/
  | ftqPopHead
  /-- the head of the queue is dereferenced although there is none -/
  | nullFetchTarget
  /-- `assert(ft->inRange(pc.instAddr()))` -/
  | outOfRange
  /-- `assert(hist->type == brType)` -/
  | historyType
  /-- `assert(predPC != nullptr)` in `FetchTarget::readPredTarg` -/
  | nullPredPC

abbrev Attempt (B : BranchTargetBuffer) := Except (FrontEndFault B.Fault)

/-- The parameters of predictor unit, fetch target queue and branch address calculation.
`overridingCPred`, `ras` and `iPred` tell which predictors are configured; `advancePC` is that of
the ISA. -/
structure FrontEndParams where
  decoupledFrontEnd : Bool
  fetchTargetWidth : Nat
  minInstSize : Nat
  minInstSize_pos : 0 < minInstSize
  maxFTPerCycle : Nat
  maxTakenPredPerCycle : Nat
  numFTQEntries : Nat
  blockBTB : Bool
  modelOverrideFalsePath : Bool
  requiresBTBHit : Bool
  updateBTBAtSquash : Bool
  basicBlockBTB : Bool
  useBtbBim : Bool
  overridingCPred : Bool
  ras : Bool
  iPred : Bool
  advancePC : StaticInst → PCState → PCState

inductive TargetProvider where
  | noTarget
  | btb
  | ras
  | indirect
  deriving DecidableEq

/-- The history of a predicted branch; the identity stands for the pointer. `ftNum` is for the
specification only: the fetch target in which predecoding found the branch. -/
structure PredictorHistory where
  id : Nat
  seqNum : InstSeqNum
  tid : ThreadID
  pc : Addr
  startAddress : Addr
  inst : StaticInst
  type : BranchType
  predTaken : Bool
  actuallyTaken : Bool
  condPred : Bool
  btbHit : Bool
  l2btbHit : Bool
  targetProvider : TargetProvider
  mispredict : Bool
  target : Option PCState
  ftNum : FTSeqNum
  deriving DecidableEq

structure Answers where
  /-- `cPred->lookup` -/
  cond : Bool × Cycles
  /-- `overridingCPred->lookup` -/
  overriding : Bool × Cycles
  /-- `cPred->getStaticLatency` -/
  staticLatency : Cycles
  /-- `ras->pop` -/
  returnAddr : Option PCState
  /-- `iPred->lookup` -/
  indirectTarget : Option PCState
  /-- `iPred->getStaticLatency` -/
  indirectLatency : Cycles
  /-- `cPred->predictL1NoUpdate` -/
  l1Taken : Bool

structure Prediction where
  taken : Bool
  latency : Cycles
  deriving DecidableEq

/-- A history leaves the unit. -/
inductive HistoryEvent where
  | squashed (hist : PredictorHistory)
  | committed (hist : PredictorHistory)
  deriving DecidableEq

def HistoryEvent.hist : HistoryEvent → PredictorHistory
  | .squashed hist => hist
  | .committed hist => hist

structure BPredUnit (B : BranchTargetBuffer) where
  btb : B.State
  bbMap : BBMap
  blockStartAddr : ThreadID → Addr
  predHist : ThreadID → List PredictorHistory
  nextHistory : Nat
  log : List HistoryEvent

namespace BPredUnit

variable {B : BranchTargetBuffer} (c : FrontEndParams)

def init (btb : B.State) : BPredUnit B where
  btb := B.setBBMap btb (fun _ => none)
  bbMap := fun _ => none
  blockStartAddr := fun _ => 0
  predHist := fun _ => []
  nextHistory := 0
  log := []

def ofBTB {α : Type} (x : Except B.Fault α) : Attempt B α :=
  x.mapError .btb

def newHistory (s : BPredUnit B) (tid : ThreadID) (seqNum : InstSeqNum) (pc : Addr)
    (inst : StaticInst) : BPredUnit B × PredictorHistory :=
  ({ s with nextHistory := s.nextHistory + 1 },
    { id := s.nextHistory, seqNum := seqNum, tid := tid, pc := pc, startAddress := 0, inst := inst
      type := getBranchType inst, predTaken := false, actuallyTaken := false, condPred := false
      btbHit := false, l2btbHit := false, targetProvider := .noTarget, mispredict := false
      target := none, ftNum := 0 })

variable (s : BPredUnit B) (ans : Answers)

/-- The direction and the latency of the predictor that gives it. -/
def direction (inst : StaticInst) : Bool × Cycles :=
  if !inst.isCondCtrl then (true, 0)
  else if c.overridingCPred && ans.overriding.1 != ans.cond.1 then ans.overriding
  else ans.cond

/-- The target, in the order in which the predictors override each other, and the
latency that the indirect predictor may add. -/
def provideTarget (inst : StaticInst) (predTaken : Bool) (btbTarget : Option PCState)
    (latency : Cycles) : TargetProvider × Option PCState × Cycles :=
  let branchDetected := btbTarget.isSome || !c.requiresBTBHit
  let fromBTB := if btbTarget.isSome && predTaken then (TargetProvider.btb, btbTarget)
    else (.noTarget, none)
  let fromRAS := if c.ras && branchDetected && !inst.isCall && inst.isReturn then
      match ans.returnAddr with
      | some a => (TargetProvider.ras, some a)
      | none => fromBTB
    else fromBTB
  if c.iPred && predTaken && branchDetected && inst.isIndirectCtrl && !inst.isReturn then
    match ans.indirectTarget with
    | some a => (.indirect, some a, max latency ans.indirectLatency)
    | none => (fromRAS.1, fromRAS.2, latency)
  else (fromRAS.1, fromRAS.2, latency)

/-- `BPredUnit::predict` with the history returned to the caller. -/
def predict (inst : StaticInst) (seqNum : InstSeqNum) (pc : PCState) (tid : ThreadID) :
    Attempt B (BPredUnit B × PredictorHistory × PCState × Prediction) := do
  let (s, hist) := s.newHistory tid seqNum pc.instAddr inst
  let (condPred, condLatency) := direction c ans inst
  let basePrediction := if condLatency = 2 then !condPred else condPred
  let (btb, res) ← ofBTB (B.lookupWithLatency s.btb tid pc.instAddr hist.type condPred
    (s.blockStartAddr tid) basePrediction)
  -- the latency of an override of the bimodal predictor in the BTB is only simulated
  let cbpLatency := if c.useBtbBim then
      if condPred = res.taken then res.latency else ans.staticLatency
    else condLatency
  let (provider, target, latency) :=
    provideTarget c ans inst condPred res.target (max cbpLatency res.latency)
  let predTaken := condPred && provider != .noTarget
  let target := if provider = .noTarget then c.advancePC inst pc else target.getD pc
  let hist := { hist with
    condPred := condPred
    predTaken := predTaken
    actuallyTaken := predTaken
    btbHit := res.target.isSome
    l2btbHit := B.isMultiLevelBTB && res.target.isSome && res.l2Hit
    targetProvider := provider
    target := some target }
  return ({ s with btb := btb }, hist, target, ⟨predTaken, latency⟩)

variable (tid : ThreadID)

def insertPredictorHistory (hist : PredictorHistory) : BPredUnit B :=
  { s with predHist := Function.update s.predHist tid (hist :: s.predHist tid) }

def predictAndInsert (inst : StaticInst) (seqNum : InstSeqNum) (pc : PCState) (tid : ThreadID) :
    Attempt B (BPredUnit B × PCState × Prediction) := do
  let (s, hist, pc, pred) ← s.predict c ans inst seqNum pc tid
  return (s.insertPredictorHistory tid hist, pc, pred)

def lookupBBBranch (bbStartPC : Addr) : Addr := (s.bbMap bbStartPC).getD maxAddr

def setBlockStartAddr (addr : Addr) : BPredUnit B :=
  { s with blockStartAddr := Function.update s.blockStartAddr tid addr }

/-- A level-1 prediction for the false path, without an update of any history. -/
def predictL1 (pc : Addr) : Attempt B (BPredUnit B × Addr) := do
  let (btb, target) ← ofBTB (B.lookupL1 s.btb tid pc)
  return ({ s with btb := btb }, if target ≠ maxAddr ∧ ans.l1Taken = false then pc + 4 else target)

def updateBTB (hist : PredictorHistory) : Attempt B (BPredUnit B) :=
  if !c.requiresBTBHit && (hist.inst.isReturn || (c.iPred && hist.inst.isIndirectCtrl)) then .ok s
  else match hist.target with
    | none => .error .nullTarget
    | some target => do
      let btb ← ofBTB (B.update s.btb tid hist.pc target hist.type (some hist.inst))
      let s := { s with btb := btb }
      if c.basicBlockBTB then
        -- the BTB has a pointer to the map
        let bbMap := Function.update s.bbMap hist.startAddress (some hist.pc)
        return { s with bbMap := bbMap, btb := B.setBBMap s.btb bbMap }
      else return s

/-- Committed taken branches are installed, unless mispredicted ones were at the squash. -/
def updateBTBAtCommit (hist : PredictorHistory) : Attempt B (BPredUnit B) :=
  if hist.actuallyTaken && !c.updateBTBAtSquash then s.updateBTB c tid hist else .ok s

def trainBTBAtCommit (hist : PredictorHistory) : Attempt B (BPredUnit B) :=
  let s := if c.useBtbBim then
      { s with btb := B.updateDirection s.btb tid hist.pc hist.actuallyTaken } else s
  if B.isMultiLevelBTB then do
    let btb ← ofBTB (B.trainMarkovOnCommit s.btb hist.pc hist.l2btbHit)
    return { s with btb := B.trainPrefetchBitsOnCommit btb tid hist.pc hist.actuallyTaken }
  else .ok s

def commitBranch (hist : PredictorHistory) : Attempt B (BPredUnit B) := do
  let s := { s with log := s.log ++ [HistoryEvent.committed hist] }
  let s ← s.updateBTBAtCommit c tid hist
  s.trainBTBAtCommit c tid hist

/-- The loop of `update` over the histories, the oldest first; returns those that stay. -/
def commitUntil (tid : ThreadID) (doneSn : InstSeqNum) :
    BPredUnit B → List PredictorHistory →
      Attempt B (BPredUnit B × List PredictorHistory)
  | s, [] => .ok (s, [])
  | s, hist :: younger =>
    if hist.seqNum ≤ doneSn then do
      let s ← s.commitBranch c tid hist
      s.commitUntil tid doneSn younger
    else .ok (s, hist :: younger)

def update (s : BPredUnit B) (doneSn : InstSeqNum) (tid : ThreadID) :
    Attempt B (BPredUnit B) := do
  let (s, kept) ← s.commitUntil c tid doneSn (s.predHist tid).reverse
  return { s with predHist := Function.update s.predHist tid kept.reverse }

def squashHistory (hist : PredictorHistory) : BPredUnit B :=
  { s with log := s.log ++ [.squashed hist] }

/-- The loop of `squash` over the histories, the youngest first; returns those that stay. -/
def squashYounger (squashedSn : InstSeqNum) :
    BPredUnit B → List PredictorHistory → BPredUnit B × List PredictorHistory
  | s, [] => (s, [])
  | s, hist :: older =>
    if squashedSn < hist.seqNum then (s.squashHistory hist).squashYounger squashedSn older
    else (s, hist :: older)

def squash (squashedSn : InstSeqNum) (tid : ThreadID) : BPredUnit B :=
  let (s, kept) := s.squashYounger squashedSn (s.predHist tid)
  { s with predHist := Function.update s.predHist tid kept }

def squashAndCorrect (squashedSn : InstSeqNum) (corrTarget : PCState) (actuallyTaken : Bool)
    (tid : ThreadID) : Attempt B (BPredUnit B) :=
  let s := s.squash squashedSn tid
  match s.predHist tid with
  | [] => .ok s
  | hist :: older =>
    let hist := { hist with
      mispredict := true, actuallyTaken := actuallyTaken, target := some corrTarget }
    let s := { s with predHist := Function.update s.predHist tid (hist :: older) }
    if actuallyTaken && c.updateBTBAtSquash then s.updateBTB c tid hist else .ok s

end BPredUnit

end BTBFerret
