import BTBFerret.FrontEndRuns

/-!
# The fetch stage

`fetch.cc`, for the one thread of the decoupled front end. In a cycle the branch address
calculation ticks first; then fetch looks at the same signals, takes the head of the fetch target
queue and builds instructions until the head is consumed, pops it and goes on. A target that it
cannot leave as predicted makes it resteer the branch address calculation, with a delay.

The environment chooses the instructions and the end of the loop. The loop is a run of steps of its
own, one for each instruction or micro-op, with its local variables in the state.
-/

namespace BTBFerret

inductive FetchStatus where
  | running
  | idle
  | squashing
  | blocked
  | fetching
  | trapPending
  | quiescePending
  | itlbWait
  | icacheWaitResponse
  | icacheWaitRetry
  | icacheAccessComplete
  | ftqEmpty
  | noGoodAddr
  deriving DecidableEq

/-- `fetchToBacDelay` is the number of cycles until a resteer arrives. -/
structure FetchParams where
  frontEnd : FrontEndParams
  fetchToBacDelay : Cycles

/-- The signals of commit and decode that fetch and the branch address calculation read in the
same cycle. -/
structure PipelineSignals where
  commitSquash : Option CommitSquash
  doneSeqNum : InstSeqNum
  trapPending : Bool
  decodeSquash : Option DecodeSquash

def PipelineSignals.withResteer (sig : PipelineSignals) (fetchSquash : Option PCState) : Signals :=
  ⟨sig.commitSquash, sig.doneSeqNum, sig.decodeSquash, fetchSquash⟩

/-- An instruction or micro-op that fetch extracts. `branching` is what its PC tells about itself,
and `more` whether the macro-op or the decoder has another. -/
structure FetchedInst where
  inst : StaticInst
  isQuiesce : Bool
  branching : Bool
  more : Bool
  ans : Answers

/-- The local variables of `Fetch::fetch`. `curFT` is null or points to the head of the queue;
`inner` tells that the loop over micro-ops goes on. -/
structure FetchLoop where
  curFT : Bool
  predictedBranch : Bool
  quiesce : Bool
  mispredict : Bool
  numFT : Nat
  numTaken : Nat
  inner : Bool

structure Consumed where
  target : FetchTarget
  pc : PCState
  next : Option FetchTarget

/-- Fetch on top of the rest of the front end. `toBAC` holds the resteer signals on their way, the
oldest first, and `loop` the variables of the loop. The last two fields are for the specification
only: the addresses fetched and the targets consumed since the queue was last squashed. -/
structure FetchStage (B : BranchTargetBuffer) where
  frontEnd : FrontEnd B
  fetchStatus : FetchStatus
  pc : PCState
  drain : Bool
  toBAC : List (Option PCState)
  loop : Option FetchLoop
  fetched : List Addr
  consumed : List Consumed

inductive FetchFault (φ : Type) where
  /-- a function of the rest of the front end stops -/
  | frontEnd (fault : FrontEndFault φ)
  /-- `assert(!curFT || curFT->inRange(this_pc.instAddr()))` at the top of the loop -/
  | outOfRange
  /-- not a fault of the source: the step is not due -/
  | order

def FTQ.isHeadReady (q : FTQ) : Bool := q.isReady && !q.isEmpty

def FrontEnd.squashesQueue {B : BranchTargetBuffer} (s : FrontEnd B) (sig : Signals) : Bool :=
  sig.commitSquash.isSome || sig.decodeSquash.isSome ||
    (sig.fetchSquash.isSome && s.bacStatus != .squashing) || s.stalls.drain

namespace FetchStage

variable {B : BranchTargetBuffer} (c : FetchParams)

/-- Both stages start at the PC of the thread. -/
def init (btb : B.State) (pc : PCState) : FetchStage B where
  frontEnd := .init btb pc
  fetchStatus := .running
  pc := pc
  drain := false
  toBAC := List.replicate c.fetchToBacDelay none
  loop := none
  fetched := []
  consumed := []

def ofFrontEnd {α : Type} (x : Attempt B α) : Except (FetchFault B.Fault) α :=
  x.mapError .frontEnd

/-! ## Signals -/

variable (s : FetchStage B)

def doSquash (newPC : PCState) : FetchStage B :=
  { s with pc := newPC, fetchStatus := .squashing }

/-- The statuses that a drain does not turn into `Blocked`. -/
def waiting (status : FetchStatus) : Bool :=
  status == .icacheWaitResponse || status == .icacheWaitRetry || status == .itlbWait ||
    status == .ftqEmpty || status == .quiescePending

/-- The part of `checkSignalsAndUpdate` after the squash signals. -/
def updateStatus : FetchStage B :=
  if s.drain && !waiting s.fetchStatus then { s with fetchStatus := .blocked }
  else if s.fetchStatus == .blocked || s.fetchStatus == .squashing then
    { s with fetchStatus := if s.frontEnd.ftq.isEmpty then .ftqEmpty else .running }
  else if s.fetchStatus == .ftqEmpty && !s.frontEnd.ftq.isEmpty then
    { s with fetchStatus := .running }
  else s

def checkSignalsAndUpdate (sig : PipelineSignals) : FetchStage B :=
  match sig.commitSquash with
  | some squash => s.doSquash squash.pc
  | none =>
    if sig.trapPending then { s with fetchStatus := .trapPending }
    else match sig.decodeSquash with
      | some squash =>
        if s.fetchStatus = .squashing then s.updateStatus else s.doSquash squash.nextPC
      | none => s.updateStatus

/-! ## A cycle up to the loop -/

def leave (signal : Option PCState) : FetchStage B :=
  { s with loop := none, toBAC := (s.toBAC ++ [signal]).take c.fetchToBacDelay }

/-- The queue is invalidated until the signal arrives. -/
def bacResteer : FetchStage B :=
  leave c { s with frontEnd := { s.frontEnd with ftq := s.frontEnd.ftq.invalidate } } (some s.pc)

def enterLoop : FetchStage B :=
  { s with fetchStatus := .running, loop := some ⟨true, false, false, false, 0, 0, false⟩ }

/-- `Fetch::fetch` up to its loop. The environment says whether instructions are at hand, or what
the status becomes. -/
def fetch (line : Option FetchStatus) : FetchStage B :=
  if s.fetchStatus ≠ .running ∧ s.fetchStatus ≠ .icacheAccessComplete ∧ s.fetchStatus ≠ .idle then
    s.leave c none
  else if !s.frontEnd.ftq.isHeadReady then leave c { s with fetchStatus := .ftqEmpty } none
  else if !s.frontEnd.ftq.readHead.any (fun ft => ft.inRange s.pc.instAddr) then s.bacResteer c
  else if s.fetchStatus = .icacheAccessComplete then s.enterLoop
  else if s.fetchStatus = .running then
    match line with
    | some status => leave c { s with fetchStatus := status } none
    | none => s.enterLoop
  else s.leave c none

/-- The branch address calculation ticks before fetch. -/
def cycle (s : FetchStage B) (sig : PipelineSignals) (answers : Nat → Answers)
    (line : Option FetchStatus) : Except (FetchFault B.Fault) (FetchStage B) := do
  let signals := sig.withResteer s.toBAC.head?.join
  let squashed := s.frontEnd.squashesQueue signals
  let frontEnd ← ofFrontEnd (s.frontEnd.tick c.frontEnd 0 signals answers)
  let s := { s with
    frontEnd := frontEnd
    toBAC := s.toBAC.tail
    fetched := if squashed then [] else s.fetched
    consumed := if squashed then [] else s.consumed }
  return (s.checkSignalsAndUpdate sig).fetch c line

/-! ## The loop -/

/-- The conditions of the outer loop and its first check. -/
def goesOn (q : FTQ) (l : FetchLoop) : Bool :=
  !l.predictedBranch && !l.quiesce && q.isReady && l.curFT

def popTarget (l : FetchLoop) (ft : FetchTarget) : Except (FetchFault B.Fault) (FetchStage B) := do
  let numFT := l.numFT + 1
  let numTaken := if l.predictedBranch then l.numTaken + 1 else l.numTaken
  let l := { l with curFT := false, numFT := numFT, numTaken := numTaken, inner := false }
  let (ftq, popped) ← ofFrontEnd s.frontEnd.ftq.popHead
  let s := { s with frontEnd := { s.frontEnd with ftq := ftq } }
  if popped then
    let more := numFT < c.frontEnd.maxFTPerCycle && numTaken < c.frontEnd.maxTakenPredPerCycle
    return { s with
      consumed := s.consumed ++ [⟨ft, s.pc, ftq.targets.head?⟩]
      loop := some { l with curFT := more && ftq.readHead.isSome } }
  else return { s with loop := some { l with mispredict := true } }

def completes (inst : StaticInst) (pc nextPC : PCState) : Bool :=
  !inst.isMicroop || inst.isLastMicroop || nextPC.instAddr != pc.instAddr

/-- The instruction is built and the PC updated. A quiesce instruction ends the loop before the
head is popped. -/
def nextInst (l : FetchLoop) (isQuiesce : Bool) (ft : FetchTarget) :
    Except (FetchFault B.Fault) (FetchStage B) :=
  if isQuiesce then .ok { s with
    fetchStatus := .quiescePending, loop := some { l with quiesce := true, inner := false } }
  else if l.curFT then .ok { s with loop := some l }
  else s.popTarget c l ft

/-- One pass of the loop over micro-ops, from `buildInst` on. -/
def buildInst (l : FetchLoop) (i : FetchedInst) (ft : FetchTarget) :
    Except (FetchFault B.Fault) (FetchStage B) := do
  let (frontEnd, nextPC, taken, consumed) ←
    ofFrontEnd (s.frontEnd.updatePC c.frontEnd i.ans 0 i.inst s.pc)
  let l := { l with
    curFT := !consumed && ft.inRange nextPC.instAddr
    predictedBranch := l.predictedBranch || i.branching || taken
    inner := i.more }
  let s := { s with
    frontEnd := frontEnd
    pc := nextPC
    fetched := if completes i.inst s.pc nextPC then s.fetched ++ [s.pc.instAddr] else s.fetched }
  s.nextInst c l i.isQuiesce ft

/-- The assertion is checked at the top of the outer loop. -/
def fetchInst (l : FetchLoop) (i : FetchedInst) : Except (FetchFault B.Fault) (FetchStage B) :=
  match s.frontEnd.ftq.readHead with
  | none => .error .order
  | some ft =>
    if l.inner then s.buildInst c l i ft
    else if !goesOn s.frontEnd.ftq l then .error .order
    else if !ft.inRange s.pc.instAddr then .error .outOfRange
    else s.buildInst c l i ft

/-- After the loop a failed pop makes fetch resteer the branch address calculation. -/
def finish (l : FetchLoop) : FetchStage B :=
  if l.mispredict then s.bacResteer c else s.leave c none

/-! ## Runs -/

/-- A translation or a cache access that fetch waits for decides its status. -/
def memoryEvent (status : FetchStatus) : FetchStage B :=
  if s.fetchStatus = .itlbWait ∨ s.fetchStatus = .icacheWaitResponse ∨
      s.fetchStatus = .icacheWaitRetry then { s with fetchStatus := status }
  else s

/-- An access that is issued after the loop, with the status that `fetchCacheLine` leaves. -/
def pipelineIcacheAccesses (status : FetchStatus) : FetchStage B :=
  if s.fetchStatus = .running then { s with fetchStatus := status } else s

end FetchStage

inductive FetchOp (B : BranchTargetBuffer) where
  | cycle (sig : PipelineSignals) (answers : Nat → Answers) (line : Option FetchStatus)
  | inst (i : FetchedInst)
  | finish
  | memoryEvent (status : FetchStatus)
  | pipelineIcacheAccesses (status : FetchStatus)
  | wakeFromQuiesce
  | drainStall
  | drainResume
  | btbEvent (e : B.Event)

namespace FetchStage

variable {B : BranchTargetBuffer} (c : FetchParams)

def step (s : FetchStage B) (op : FetchOp B) : Except (FetchFault B.Fault) (FetchStage B) :=
  match s.loop, op with
  | none, .cycle sig answers line => s.cycle c sig answers line
  | some l, .inst i => s.fetchInst c l i
  | some l, .finish => .ok (s.finish c l)
  | none, .memoryEvent status => .ok (s.memoryEvent status)
  | none, .pipelineIcacheAccesses status => .ok (s.pipelineIcacheAccesses status)
  | none, .wakeFromQuiesce => .ok { s with fetchStatus := .running }
  | none, .drainStall => do
    let frontEnd ← ofFrontEnd (s.frontEnd.step c.frontEnd .drainStall)
    return { s with frontEnd := frontEnd, drain := true }
  | none, .drainResume => do
    let frontEnd ← ofFrontEnd (s.frontEnd.step c.frontEnd .drainResume)
    return { s with frontEnd := frontEnd, drain := false }
  | none, .btbEvent e => do
    let frontEnd ← ofFrontEnd (s.frontEnd.step c.frontEnd (.btbEvent e))
    return { s with frontEnd := frontEnd }
  | _, _ => .error .order

end FetchStage

end BTBFerret
