import BTBFerret.FallibleRuns

/-!
# Squashing in the commit stage

The reorder buffer of a thread is a list with the oldest instruction first. A squash walks it from
its tail, a number of entries a cycle, and marks the loads it passes if it is due to a violation of
the memory order; any other squash takes the marks away. A marked load that reaches the head trains
the predictor of memory dependences. The cause of a squash is a variable of `commit` that is not
set back between the threads.

Kept for statements only: the squashes of each thread with their own causes, whether one covers an
instruction in flight, and the squashed instructions that have left.
-/

namespace BTBFerret.CommitSquash

abbrev ThreadID := Nat

structure DynInst where
  threadNumber : ThreadID
  seqNum : Nat
  isLoad : Bool
  violatingStoreSeqNum : Nat
  squashed : Bool
  squashedDueToMemOrder : Bool
  covered : Bool
  deriving DecidableEq

def DynInst.squashNumbered (seqNum : Nat) (inst : DynInst) : DynInst :=
  if inst.seqNum = seqNum then { inst with squashed := true } else inst

inductive ThreadStatus
  | running
  | idle
  | robSquashing
  | robSquashingDueToMemOrder
  | trapPending
  | fetchTrapPending
  | squashAfterPending
  deriving DecidableEq

namespace ThreadStatus

def isSquashing (status : ThreadStatus) : Bool :=
  decide (status = .robSquashing) || decide (status = .robSquashingDueToMemOrder)

def mayCommit (status : ThreadStatus) : Bool :=
  decide (status = .running) || decide (status = .idle) || decide (status = .fetchTrapPending)

end ThreadStatus

structure Squash where
  number : Nat
  memOrder : Bool
  deriving DecidableEq

structure Thread where
  instList : List DynInst
  squashIt : Option Nat
  squashedSeqNum : Nat
  doneSquashing : Bool
  commitStatus : ThreadStatus
  youngestSeqNum : Nat
  lastCommitedSeqNum : Nat
  trapSquash : Bool
  tcSquash : Bool
  squashes : List Squash

/-- The asserts, and an iterator that is not valid. -/
inductive Fault
  | squashItAtEnd
  | danglingSquashIt
  | trapAndTC
  | tcInTrap
  deriving DecidableEq

structure Params where
  numThreads : Nat
  numEntries : Nat
  squashWidth : Option Nat

namespace Thread

def empty : Thread := ⟨[], none, 0, true, .idle, 0, 0, false, false, []⟩

/-! ## The reorder buffer -/

def updateViolationMarker (squashSeqNum : Nat) (instList : List DynInst) : List DynInst :=
  instList.map fun inst =>
    if squashSeqNum < inst.seqNum then { inst with squashedDueToMemOrder := false } else inst

/-- What the walk does to an instruction. -/
def squashInst (dueToMemOrder : Bool) (inst : DynInst) : DynInst :=
  { inst with
    squashed := true
    squashedDueToMemOrder :=
      if inst.isLoad && dueToMemOrder then true else inst.squashedDueToMemOrder }

/-- The loop of `doSquash`, from an entry on towards the head. The iterator is at the end of the
list after the head was squashed. -/
def squashLoop (squashedSeqNum : Nat) (dueToMemOrder : Bool) :
    Nat → List DynInst → Nat → List DynInst × Option Nat
  | 0, instList, it => (instList, some it)
  | rounds + 1, instList, it =>
    match instList[it]? with
    | none => (instList, some it)
    | some inst =>
      if squashedSeqNum < inst.seqNum then
        let instList := instList.set it (squashInst dueToMemOrder inst)
        match it with
        | 0 => (instList, none)
        | it + 1 => squashLoop squashedSeqNum dueToMemOrder rounds instList it
      else (instList, some it)

variable (p : Params) (exiting : Bool)

def numInstsToSquash : Nat :=
  if exiting then p.numEntries else p.squashWidth.getD p.numEntries

variable (th : Thread)

/-- The iterator is at the end once everything was squashed. -/
def finish : Thread := { th with squashIt := none, doneSquashing := true }

def doSquash (dueToMemOrder : Bool) (th : Thread) : Except Fault Thread :=
  match th.squashIt with
  | none => .error .squashItAtEnd
  | some it =>
    match th.instList[it]? with
    | none => .error .danglingSquashIt
    | some inst =>
      if inst.seqNum < th.squashedSeqNum then .ok th.finish
      else
        let marked := if dueToMemOrder then th.instList
          else updateViolationMarker th.squashedSeqNum th.instList
        let walked := squashLoop th.squashedSeqNum dueToMemOrder (numInstsToSquash p exiting)
          marked it
        let th := { th with instList := walked.1, squashIt := walked.2 }
        match walked.2 with
        | none => .ok th.finish
        | some it =>
          match th.instList[it]? with
          | none => .error .danglingSquashIt
          | some inst => .ok (if inst.seqNum ≤ th.squashedSeqNum then th.finish else th)

def robSquash (squashNum : Nat) (dueToMemOrder : Bool) (th : Thread) : Except Fault Thread :=
  if th.instList.isEmpty then .ok th
  else doSquash p exiting dueToMemOrder { th with
    doneSquashing := false
    squashedSeqNum := squashNum
    squashIt := some (th.instList.length - 1) }

/-! ## Commit, for one thread -/

/-- A squash is noted with its own cause. -/
def note (number : Nat) (memOrder : Bool) (th : Thread) : Thread :=
  { th with
    squashes := ⟨number, memOrder⟩ :: th.squashes
    instList := th.instList.map fun inst =>
      { inst with covered := inst.covered || decide (number < inst.seqNum) } }

/-- The number that squashes all instructions of the thread. -/
def beforeHead : Nat :=
  match th.instList with
  | [] => th.lastCommitedSeqNum
  | head :: _ => head.seqNum - 1

def squashAll : Except Fault Thread :=
  robSquash p exiting th.beforeHead false
    { th.note th.beforeHead false with youngestSeqNum := th.lastCommitedSeqNum }

def squashFromTrap : Except Fault Thread := do
  let th ← th.squashAll p exiting
  return { th with trapSquash := false, commitStatus := .robSquashing }

def squashFromTC : Except Fault Thread := do
  let th ← th.squashAll p exiting
  return { th with commitStatus := .robSquashing, tcSquash := false }

def squashFromSquashAfter : Except Fault Thread := do
  let th ← th.squashAll p exiting
  return { th with commitStatus := .robSquashing }

/-- Traps, squashes from the thread context and those after an instruction, which commit itself
raises. -/
def squashFromCommit : Except Fault Thread :=
  if th.trapSquash then
    if th.tcSquash then .error .trapAndTC else th.squashFromTrap p exiting
  else if th.tcSquash then
    if th.commitStatus = .trapPending then .error .tcInTrap else th.squashFromTC p exiting
  else if th.commitStatus = .squashAfterPending then th.squashFromSquashAfter p exiting
  else .ok th

end Thread

/-- A squash signal of the execute stage. Without a mispredicted branch it is for a violation of the
memory order. -/
structure IEWSquash where
  squashedSeqNum : Nat
  mispredicted : Bool
  includeSquashInst : Bool

namespace Thread

/-- The part of `commit` for one active thread, with the variable `squashedDueToMemOrder` before and
after it. -/
def handleSquash (p : Params) (exiting : Bool) (fromIEW : Option IEWSquash) (dueToMemOrder : Bool)
    (th : Thread) : Except Fault (Bool × Thread) := do
  let th ← th.squashFromCommit p exiting
  match fromIEW with
  | none => return (dueToMemOrder, th)
  | some signal =>
    if th.commitStatus ≠ .trapPending ∧ signal.squashedSeqNum ≤ th.youngestSeqNum then
      let dueToMemOrder := dueToMemOrder || !signal.mispredicted
      let squashedInst := if signal.includeSquashInst then signal.squashedSeqNum - 1
        else signal.squashedSeqNum
      let th ← robSquash p exiting squashedInst dueToMemOrder
        { th.note squashedInst (!signal.mispredicted) with
          commitStatus := if dueToMemOrder then .robSquashingDueToMemOrder else .robSquashing
          youngestSeqNum := squashedInst }
      return (dueToMemOrder, th)
    else return (dueToMemOrder, th)

/-- The part of `tick` for one active thread. -/
def tickSquash (p : Params) (exiting : Bool) (th : Thread) : Except Fault Thread :=
  if th.commitStatus.isSquashing then
    if th.doneSquashing then .ok { th with commitStatus := .running }
    else th.doSquash p exiting (decide (th.commitStatus = .robSquashingDueToMemOrder))
  else .ok th

/-- The part of `getInsts` for one instruction. -/
def getInst (inst : DynInst) (th : Thread) : Thread :=
  if !inst.squashed && decide (th.commitStatus ≠ .robSquashing) &&
      decide (th.commitStatus ≠ .trapPending) then
    { th with
      instList := th.instList ++ [{ inst with covered := th.commitStatus.isSquashing }]
      youngestSeqNum := inst.seqNum }
  else th

end Thread

/-! ## Commit, for all threads -/

structure Retired where
  inst : DynInst
  squashes : List Squash

structure Commit where
  threads : ThreadID → Thread
  retired : List Retired
  trained : List Retired

/-- What becomes of a head that is not squashed. -/
inductive Outcome
  | commit (squashAfter : Bool)
  | trap
  | wait
  deriving DecidableEq

/-- What the commit stage sees in a cycle, and the threads that `getCommittingThread` chooses. -/
structure Cycle where
  activeThreads : List ThreadID
  exiting : ThreadID → Bool
  fromIEW : ThreadID → Option IEWSquash
  fromRename : List DynInst
  choices : List (ThreadID × Outcome)

namespace Commit

def empty : Commit := ⟨fun _ => Thread.empty, [], []⟩

def setThread (s : Commit) (tid : ThreadID) (th : Thread) : Commit :=
  { s with threads := Function.update s.threads tid th }

/-- The first loop of `tick`. -/
def tickThreads (p : Params) (c : Cycle) (s : Commit) : Except Fault Commit :=
  c.activeThreads.foldlM (fun s tid => do
    return s.setThread tid (← (s.threads tid).tickSquash p (c.exiting tid))) s

/-- The loop over the squashes. The variable goes from one thread to the next. -/
def squashThreads (p : Params) (c : Cycle) :
    List ThreadID → Bool → Commit → Except Fault Commit
  | [], _, s => .ok s
  | tid :: rest, dueToMemOrder, s => do
    let (dueToMemOrder, th) ←
      (s.threads tid).handleSquash p (c.exiting tid) (c.fromIEW tid) dueToMemOrder
    squashThreads p c rest dueToMemOrder (s.setThread tid th)

def numSquashing (c : Cycle) (s : Commit) : Nat :=
  c.activeThreads.countP fun tid => (s.threads tid).commitStatus.isSquashing

def getInsts (insts : List DynInst) (s : Commit) : Commit :=
  insts.foldl
    (fun s inst => s.setThread inst.threadNumber ((s.threads inst.threadNumber).getInst inst)) s

/-- The loop of `commitInsts`. One violation is reported in a cycle. -/
def commitInsts : List (ThreadID × Outcome) → Bool → Commit → Commit
  | [], _, s => s
  | (tid, outcome) :: choices, updatedMemDep, s =>
    let th := s.threads tid
    if th.commitStatus.mayCommit then
      match th.instList with
      | [] => s
      | head :: rest =>
        if head.squashed then
          let train := head.squashedDueToMemOrder && !updatedMemDep && head.isLoad &&
            decide (head.violatingStoreSeqNum ≠ 0)
          let s := s.setThread tid { th with instList := rest }
          commitInsts choices (updatedMemDep || train) { s with
            retired := ⟨head, th.squashes⟩ :: s.retired
            trained := if train then ⟨head, th.squashes⟩ :: s.trained else s.trained }
        else match outcome with
          | .commit squashAfter => commitInsts choices updatedMemDep (s.setThread tid { th with
              instList := rest
              lastCommitedSeqNum := head.seqNum
              commitStatus := if squashAfter then .squashAfterPending else th.commitStatus })
          | .trap => s.setThread tid { th with commitStatus := .trapPending }
          | .wait => s
    else s

def cycle (p : Params) (c : Cycle) (s : Commit) : Except Fault Commit := do
  let s ← s.tickThreads p c
  let s ← squashThreads p c c.activeThreads false s
  if s.numSquashing c ≠ p.numThreads then
    return commitInsts c.choices false (s.getInsts c.fromRename)
  else return s

/-- Between the cycles events raise squashes, an interrupt is taken when nothing is in flight, and
the execute stage squashes instructions of its own. -/
inductive Op
  | cycle (c : Cycle)
  | trapEvent (tid : ThreadID)
  | tcEvent (tid : ThreadID)
  | interrupt
  | squashInQueues (tid : ThreadID) (seqNum : Nat)

def step (p : Params) (s : Commit) : Op → Except Fault Commit
  | .cycle c => s.cycle p c
  | .trapEvent tid => .ok (s.setThread tid { s.threads tid with trapSquash := true })
  | .tcEvent tid => .ok (s.setThread tid { s.threads tid with tcSquash := true })
  | .interrupt => .ok (if (s.threads 0).instList.isEmpty then
      s.setThread 0 { s.threads 0 with commitStatus := .trapPending } else s)
  | .squashInQueues tid seqNum => .ok (s.setThread tid { s.threads tid with
      instList := (s.threads tid).instList.map (DynInst.squashNumbered seqNum) })

end Commit

end BTBFerret.CommitSquash
