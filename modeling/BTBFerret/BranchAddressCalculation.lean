import BTBFerret.FetchTargetQueue

/-!
# The branch address calculation stage

`bac.cc`: in the decoupled front end the stage runs ahead of fetch. It searches the instruction
stream for branches known to the BTB, predicts them and inserts fetch targets into the queue. Fetch
calls it back for every predecoded instruction, and commit, decode and fetch resteer it. In the
coupled front end it only passes the signals on.
-/

namespace BTBFerret

open FallibleRuns

inductive ThreadStatus where
  | idle
  | running
  | squashing
  | blocked
  | overriding
  | ftqFull
  | ftqLocked
  deriving DecidableEq

structure Stalls where
  fetch : Bool
  drain : Bool
  bpu : Bool
  deriving DecidableEq

/-- A squash from commit: the resumed PC, the last sequence number that stays, and
for a mispredicted control instruction its direction. -/
structure CommitSquash where
  pc : PCState
  doneSeqNum : InstSeqNum
  mispredictedControl : Bool
  branchTaken : Bool

structure DecodeSquash where
  nextPC : PCState
  doneSeqNum : InstSeqNum
  branchMispredict : Bool
  branchTaken : Bool

/-- The signals of one cycle. Without a squash commit sends the sequence number up
to which instructions are done, or zero. -/
structure Signals where
  commitSquash : Option CommitSquash
  doneSeqNum : InstSeqNum
  decodeSquash : Option DecodeSquash
  fetchSquash : Option PCState

structure FrontEnd (B : BranchTargetBuffer) where
  bpu : BPredUnit B
  ftq : FTQ
  bacStatus : ThreadStatus
  bacPC : PCState
  stalls : Stalls
  branchPredictRemaining : Cycles
  falsePathCurAddr : Addr
  globalSeqNum : InstSeqNum
  globalFTSeqNum : FTSeqNum

namespace FrontEnd

variable {B : BranchTargetBuffer} (c : FrontEndParams)

/-- The state after `startupStage`. -/
def init (btb : B.State) (pc : PCState) : FrontEnd B where
  bpu := .init btb
  ftq := .resetState
  bacStatus := .running
  bacPC := pc
  stalls := ⟨false, false, false⟩
  branchPredictRemaining := 0
  falsePathCurAddr := 0
  globalSeqNum := 1
  globalFTSeqNum := 1

/-! ## Squashes -/

variable (s : FrontEnd B)

/-- The histories attached to the queue are undone from tail to head. -/
def squashBpuHistories : FrontEnd B :=
  if !c.decoupledFrontEnd then s
  else { s with
    bpu := s.ftq.histories.reverse.foldl BPredUnit.squashHistory s.bpu
    ftq := { s.ftq with targets := s.ftq.targets.map FetchTarget.withoutHistory } }

def squash (s : FrontEnd B) (newPC : PCState) : Attempt B (FrontEnd B) :=
  if !c.decoupledFrontEnd then .ok s
  else do
    let ftq ← s.ftq.squash
    return { s with
      bacStatus := .squashing
      bacPC := newPC
      ftq := ftq
      branchPredictRemaining := 0
      stalls := { s.stalls with bpu := false } }

variable (ans : Answers) (tid : ThreadID)

def squashFromCommit (sig : CommitSquash) : Attempt B (FrontEnd B) := do
  let s ← (s.squashBpuHistories c).squash c sig.pc
  if sig.mispredictedControl then
    let bpu ← s.bpu.squashAndCorrect c sig.doneSeqNum sig.pc sig.branchTaken tid
    return { s with bpu := bpu }
  else return { s with bpu := s.bpu.squash sig.doneSeqNum tid }

def squashFromDecode (sig : DecodeSquash) : Attempt B (FrontEnd B) := do
  let s ← (s.squashBpuHistories c).squash c sig.nextPC
  if sig.branchMispredict then
    let bpu ← s.bpu.squashAndCorrect c sig.doneSeqNum sig.nextPC sig.branchTaken tid
    return { s with bpu := bpu }
  else return { s with bpu := s.bpu.squash sig.doneSeqNum tid }

def commitDone (doneSeqNum : InstSeqNum) : Attempt B (FrontEnd B) :=
  if doneSeqNum = 0 then .ok s
  else do
    let bpu ← s.bpu.update c doneSeqNum tid
    return { s with bpu := bpu }

/-- The flag tells whether there was a squash. -/
def checkAndUpdateBPUSignals (sig : Signals) : Attempt B (FrontEnd B × Bool) :=
  match sig.commitSquash with
  | some squash => do
    let s ← s.squashFromCommit c tid squash
    return (s, true)
  | none => do
    let s ← s.commitDone c tid sig.doneSeqNum
    match sig.decodeSquash with
    | some squash =>
      let s ← s.squashFromDecode c tid squash
      return (s, true)
    | none =>
      match sig.fetchSquash with
      | some nextPC =>
        if s.bacStatus = .squashing then return (s, false)
        else
          let s ← (s.squashBpuHistories c).squash c nextPC
          return (s, true)
      | none => return (s, false)

/-! ## The status machine -/

def drain : Attempt B (FrontEnd B) := do
  let s := s.squashBpuHistories c
  let ftq ← s.ftq.squash
  return { s with ftq := ftq, bacStatus := .idle }

def countDown : FrontEnd B :=
  if 0 < s.branchPredictRemaining then
    { s with
      branchPredictRemaining := s.branchPredictRemaining - 1
      stalls := { s.stalls with bpu := true } }
  else { s with stalls := { s.stalls with bpu := false } }

/-- The part of `checkSignalsAndUpdate` after the stalls: the next status. -/
def nextStatus (q : FTQ) (status : ThreadStatus) (bpuStall : Bool) : ThreadStatus :=
  if !q.isReady && status != .idle then .idle
  else if status == .running && q.isLocked then .ftqLocked
  else if status == .ftqLocked && !q.isLocked then .running
  else if status == .ftqFull && !q.isFull c.numFTQEntries then .running
  else if status == .squashing then .running
  else if q.isFull c.numFTQEntries then .ftqFull
  else if status == .overriding && !bpuStall then .running
  else if q.isReady && (status == .idle || status == .blocked) then .running
  else status

def settle : FrontEnd B :=
  let s := s.countDown
  if s.stalls.fetch then { s with bacStatus := .blocked }
  else
    let status := if s.stalls.bpu then .overriding else s.bacStatus
    { s with bacStatus := nextStatus c s.ftq status s.stalls.bpu }

/-- The returned flag of the source only tells whether the stage became active. -/
def checkSignalsAndUpdate (sig : Signals) : Attempt B (FrontEnd B) := do
  let (s, squashed) ← s.checkAndUpdateBPUSignals c tid sig
  if squashed then return s
  else if s.stalls.drain then s.drain c
  else return s.settle c

/-! ## Generating fetch targets -/

def searchBranch (valid : Addr → Bool) (start : Addr) (offset : Nat) : Addr × Bool :=
  let searchAddr := start + BitVec.ofNat 64 offset
  if valid searchAddr then (searchAddr, true)
  else if c.fetchTargetWidth ≤ offset then (searchAddr, false)
  else searchBranch valid start (offset + c.minInstSize)
termination_by c.fetchTargetWidth - offset
decreasing_by
  have := c.minInstSize_pos
  omega

/-- The last address of the next fetch target, and whether a branch was found there. -/
def findBranch (start : Addr) : Addr × Bool :=
  if c.blockBTB then
    let brAddr := s.bpu.lookupBBBranch start
    if brAddr ≠ maxAddr ∧ start ≤ brAddr ∧ B.valid s.bpu.btb tid brAddr = true then (brAddr, true)
    else (start + BitVec.ofNat 64 c.fetchTargetWidth, false)
  else searchBranch c (B.valid s.bpu.btb tid) start 0

/-- `BAC::predict`: the history is attached to the fetch target. -/
def predict (s : FrontEnd B) (ans : Answers) (tid : ThreadID) (inst : StaticInst)
    (ft : FetchTarget) (pc : PCState) :
    Attempt B (FrontEnd B × FetchTarget × PCState × Prediction) :=
  if ft.bpuHistory.isSome then .error .historyPresent
  else do
    let (bpu, hist, pc, pred) ← s.bpu.predict c ans inst ft.ftNum pc tid
    return ({ s with bpu := bpu }, { ft with bpuHistory := some hist }, pc, pred)

variable (ft : FetchTarget)

def predictExit (exitPC : PCState) :
    Attempt B (FrontEnd B × FetchTarget × PCState × Bool × StaticInst) :=
  match B.getInst s.bpu.btb tid exitPC.instAddr with
  | none => .error .nullInst
  | some inst => do
    let s := if c.blockBTB then
      { s with bpu := s.bpu.setBlockStartAddr tid ft.startAddress } else s
    let (s, ft, nextPC, pred) ← s.predict c ans tid inst ft exitPC
    return ({ s with branchPredictRemaining := pred.latency }, ft, nextPC, pred.taken, inst)

def nextTargetPC (exitPC predictedPC : PCState) (predTaken : Bool) (inst : Option StaticInst) :
    PCState :=
  let nextPC := if predTaken then predictedPC
    else .ofAddr (exitPC.instAddr + BitVec.ofNat 64 c.minInstSize)
  match inst with
  | some i =>
    if i.isMicroop && !i.isLastMicroop then .ofAddr (exitPC.instAddr + BitVec.ofNat 64 i.size)
    else nextPC
  | none => nextPC

def advanceL1PredPC : Attempt B (FrontEnd B) := do
  let brAddr := s.bpu.lookupBBBranch s.falsePathCurAddr
  let (bpu, target) ← s.bpu.predictL1 ans 0 brAddr
  return { s with
    bpu := bpu
    falsePathCurAddr := if target = maxAddr then
      s.falsePathCurAddr + BitVec.ofNat 64 c.fetchTargetWidth else target }

def completeTarget (ans : Answers) (ft : FetchTarget) (exitPC : PCState) (branchFound : Bool) :
    Attempt B (FrontEnd B × FetchTarget × PCState × Bool) :=
  if branchFound then do
    let (s, ft, predictedPC, predTaken, inst) ← s.predictExit c ans tid ft exitPC
    let nextPC := nextTargetPC c exitPC predictedPC predTaken (some inst)
    return (s, ft.finalize exitPC true predTaken nextPC, nextPC, predTaken)
  else
    let nextPC := nextTargetPC c exitPC exitPC false none
    .ok (s, ft.finalize exitPC false false nextPC, nextPC, false)

def startFalsePath (startAddr : Addr) : Attempt B (FrontEnd B) :=
  if s.branchPredictRemaining ≠ 0 then
    advanceL1PredPC c { s with falsePathCurAddr := startAddr } ans
  else .ok s

/-- One iteration of the loop of `generateFetchTargets`. The flag tells whether the
target ends with a branch predicted taken. -/
def generateFetchTarget (ans : Answers) : Attempt B (FrontEnd B × Bool) := do
  let startAddr := s.bacPC.instAddr
  let ft := FetchTarget.start s.bacPC s.globalFTSeqNum
  let s := { s with globalFTSeqNum := s.globalFTSeqNum + 1 }
  let (exitAddr, branchFound) := s.findBranch c tid startAddr
  let (s, ft, nextPC, predTaken) ← s.completeTarget c tid ans ft (.ofAddr exitAddr) branchFound
  let s ← s.startFalsePath c ans startAddr
  let ftq ← s.ftq.insert c.numFTQEntries ft
  return ({ s with ftq := ftq, bacPC := nextPC }, predTaken)

/-- The loop of `generateFetchTargets`, with the targets and the taken predictions this cycle still
allows; `answers i` is for the `i`-th target. -/
def generateLoop (tid : ThreadID) :
    Nat → Nat → (Nat → Answers) → FrontEnd B → Attempt B (FrontEnd B)
  | 0, _, _, s => .ok s
  | _ + 1, 0, _, s => .ok s
  | fts + 1, takens + 1, answers, s => do
    let (s, predTaken) ← s.generateFetchTarget c tid (answers 0)
    if s.ftq.isFull c.numFTQEntries then return { s with bacStatus := .ftqFull }
    else if s.branchPredictRemaining ≠ 0 then return s
    else
      generateLoop tid fts (if predTaken then takens else takens + 1) (fun i => answers (i + 1)) s

def generateFetchTargets (answers : Nat → Answers) : Attempt B (FrontEnd B) :=
  generateLoop c tid c.maxFTPerCycle c.maxTakenPredPerCycle answers s

def generateOverrideFetchTargets : Attempt B (FrontEnd B) :=
  if !c.modelOverrideFalsePath then .ok s
  else do
    let startAddr := s.falsePathCurAddr
    let s ← s.advanceL1PredPC c ans
    let ft := FetchTarget.override (.ofAddr startAddr) (.ofAddr s.falsePathCurAddr) 0
    let ftq ← s.ftq.insert c.numFTQEntries ft
    return { s with ftq := ftq }

def generate (answers : Nat → Answers) : Attempt B (FrontEnd B) :=
  if s.bacStatus = .running then s.generateFetchTargets c tid answers
  -- generating targets never changes the status to `overriding`
  else if s.bacStatus = .overriding then s.generateOverrideFetchTargets c (answers 0)
  else .ok s

/-- A cycle of the stage, for one active thread. -/
def tick (sig : Signals) (answers : Nat → Answers) : Attempt B (FrontEnd B) :=
  if c.decoupledFrontEnd then do
    let s ← s.checkSignalsAndUpdate c tid sig
    s.generate c tid answers
  else do
    let (s, _) ← s.checkAndUpdateBPUSignals c tid sig
    return { s with bacStatus := .idle }

/-! ## Predecoded instructions -/

def takeHistory (pc : PCState) : FrontEnd B × Option PredictorHistory :=
  if ft.isExitBranch pc.instAddr && ft.bpuHistory.isSome then
    ({ s with ftq := s.ftq.setHead ft.withoutHistory }, ft.bpuHistory)
  else (s, none)

/-- A history of another type is pushed back, all histories of the queue are undone
and the queue is locked. -/
def checkType (s : FrontEnd B) (ft : FetchTarget) (hist : Option PredictorHistory)
    (brType : BranchType) : FrontEnd B × Option PredictorHistory :=
  match hist with
  | none => (s, none)
  | some h =>
    if h.type = brType then (s, some h)
    else
      let s := { s with ftq := s.ftq.setHead ft }.squashBpuHistories c
      ({ s with ftq := s.ftq.lock }, none)

/-- A branch inside of a complex instruction without a history is predicted afresh, after the queue
is squashed and locked. -/
def predictMicroBranch (inst : StaticInst) (ft : FetchTarget) (pc : PCState) :
    Attempt B (FrontEnd B × PredictorHistory × PCState) := do
  let s := s.squashBpuHistories c
  let s := { s with ftq := s.ftq.lock }
  let (bpu, hist, pc, _) ← s.bpu.predict c ans inst ft.ftNum pc tid
  return ({ s with bpu := bpu }, hist, pc)

def branchPlaceholder (s : FrontEnd B) (tid : ThreadID) (seqNum : InstSeqNum) (inst : StaticInst)
    (pc : PCState) : FrontEnd B × PredictorHistory :=
  let (bpu, hist) := s.bpu.newHistory tid seqNum pc.instAddr inst
  ({ s with bpu := bpu }, { hist with target := some (c.advancePC inst pc) })

def branchHistory (seqNum : InstSeqNum) (inst : StaticInst) (ft : FetchTarget) (pc : PCState) :
    Attempt B (FrontEnd B × PredictorHistory × Option PCState) := do
  let (s, hist) := s.takeHistory ft pc
  let (s, hist) := s.checkType c ft hist (getBranchType inst)
  match hist with
  | some h => return (s, h, none)
  | none =>
    if inst.isMicroop && !inst.isLastMicroop then
      let (s, h, nextPC) ← s.predictMicroBranch c ans tid inst ft pc
      return (s, h, some nextPC)
    else
      let (s, h) := s.branchPlaceholder c tid seqNum inst pc
      return (s, h, none)

def predecodedPC (hist : PredictorHistory) (inst : StaticInst) (pc : PCState) :
    Attempt B PCState :=
  if hist.predTaken then
    match ft.predPC with
    | some predPC => .ok predPC
    | none => .error .nullPredPC
  else .ok (c.advancePC inst pc)

def nextFetchPC (hist : PredictorHistory) (inst : StaticInst) (pc : PCState)
    (predictedPC : Option PCState) : Attempt B PCState :=
  match predictedPC with
  | some pc => .ok pc
  | none => predecodedPC c ft hist inst pc

/-- Fetch has predecoded a branch in the head of the queue: its history gets the sequence number and
moves to the predictor unit. -/
def updatePreDecode (seqNum : InstSeqNum) (inst : StaticInst) (pc : PCState) (ft : FetchTarget) :
    Attempt B (FrontEnd B × PCState × Bool) :=
  if !ft.inRange pc.instAddr then .error .outOfRange
  else do
    let (s, hist, predictedPC) ← s.branchHistory c ans tid seqNum inst ft pc
    if hist.type ≠ getBranchType inst then .error .historyType
    else
      let hist := { hist with startAddress := ft.startAddress, seqNum := seqNum, ftNum := ft.ftNum }
      let s := { s with bpu := s.bpu.insertPredictorHistory tid hist }
      let pc ← nextFetchPC c ft hist inst pc predictedPC
      return (s, pc, hist.predTaken)

/-- An instruction of the decoupled front end, from the head of the queue. The last flag
tells whether the fetch target is consumed. -/
def updatePCFromTarget (seqNum : InstSeqNum) (inst : StaticInst) (fetchPC : PCState)
    (ft : FetchTarget) : Attempt B (FrontEnd B × PCState × Bool × Bool) :=
  let isExit := ft.isExitInst fetchPC.instAddr && (!inst.isMicroop || inst.isLastMicroop)
  if inst.isControl then do
    let (s, nextPC, taken) ← s.updatePreDecode c ans tid seqNum inst fetchPC ft
    return (s, nextPC, taken, isExit || !s.ftq.isReady)
  else .ok (s, c.advancePC inst fetchPC, false, isExit || !s.ftq.isReady)

def updatePC (s : FrontEnd B) (ans : Answers) (tid : ThreadID) (inst : StaticInst)
    (fetchPC : PCState) : Attempt B (FrontEnd B × PCState × Bool × Bool) :=
  let seqNum := s.globalSeqNum
  let s := { s with globalSeqNum := s.globalSeqNum + 1 }
  if c.decoupledFrontEnd then
    match s.ftq.readHead with
    | none => .error .nullFetchTarget
    | some ft => s.updatePCFromTarget c ans tid seqNum inst fetchPC ft
  else if inst.isControl then do
    let (bpu, nextPC, pred) ← s.bpu.predictAndInsert c ans inst seqNum fetchPC tid
    return ({ s with bpu := bpu }, nextPC, pred.taken, false)
  else .ok (s, c.advancePC inst fetchPC, false, false)

end FrontEnd

end BTBFerret
