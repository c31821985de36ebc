import BTBFerret.BranchPredictorUnit

/-!
# Fetch targets and their queue

`ftq.cc`: a fetch target is a block of instructions that ends with a predicted
branch or at the maximal width. It carries the history of the prediction until
fetch reaches the branch. The queue belongs to the one thread of the decoupled
front end.
-/

namespace BTBFerret

structure FetchTarget where
  startPC : PCState
  endPC : Option PCState
  predPC : Option PCState
  ftSeqNum : FTSeqNum
  isBranch : Bool
  taken : Bool
  isOverrideFT : Bool
  bpuHistory : Option PredictorHistory
  deriving DecidableEq

namespace FetchTarget

/-- A target whose end is not known yet. -/
def start (startPC : PCState) (seqNum : FTSeqNum) : FetchTarget :=
  ⟨startPC, none, none, seqNum, false, false, false, none⟩

def override (startPC endPC : PCState) (seqNum : FTSeqNum) : FetchTarget :=
  ⟨startPC, some endPC, none, seqNum, false, false, true, none⟩

variable (ft : FetchTarget)

def finalize (exitPC : PCState) (isBranch predTaken : Bool) (predPC : PCState) : FetchTarget :=
  { ft with endPC := some exitPC, predPC := some predPC, taken := predTaken, isBranch := isBranch }

def startAddress : Addr := ft.startPC.instAddr

def endAddress : Addr := (ft.endPC.map PCState.instAddr).getD maxAddr

def inRange (addr : Addr) : Bool :=
  ft.startAddress ≤ addr && addr ≤ ft.endAddress

def isExitInst (addr : Addr) : Bool := addr == ft.endAddress

def isExitBranch (addr : Addr) : Bool := addr == ft.endAddress && ft.isBranch

def ftNum : FTSeqNum := ft.ftSeqNum

def nextAddress : Option Addr := ft.predPC.map PCState.instAddr

def withoutHistory : FetchTarget := { ft with bpuHistory := none }

end FetchTarget

inductive FTQStatus where
  | invalid
  | valid
  | full
  | locked
  deriving DecidableEq

structure FTQ where
  targets : List FetchTarget
  status : FTQStatus

namespace FTQ

def resetState : FTQ := ⟨[], .valid⟩

variable (q : FTQ)

def size : Nat := q.targets.length

def isFull (numEntries : Nat) : Bool := numEntries ≤ q.size

def isEmpty (q : FTQ) : Bool := q.targets.isEmpty

def invalidate : FTQ := if q.isEmpty then q else { q with status := .invalid }

def isReady : Bool := q.status != .invalid

def lock : FTQ := { q with status := .locked }

def isLocked : Bool := q.status == .locked

/-- The histories attached to the queue, the oldest first. -/
def histories : List PredictorHistory := q.targets.filterMap FetchTarget.bpuHistory

def insert {φ : Type} (q : FTQ) (numEntries : Nat) (ft : FetchTarget) :
    Except (FrontEndFault φ) FTQ :=
  if q.isFull numEntries then .error .ftqInsert
  else if ft.isOverrideFT then .ok q
  else .ok { q with targets := q.targets ++ [ft] }

def squash {φ : Type} (q : FTQ) : Except (FrontEndFault φ) FTQ :=
  if q.targets.any (fun ft => ft.bpuHistory.isSome) then .error .ftqSquash else .ok ⟨[], .valid⟩

def readHead : Option FetchTarget :=
  if q.status = .invalid then none else q.targets.head?

/-- Replace the head by the target that the pointer of the fetch stage now points to. -/
def setHead (ft : FetchTarget) : FTQ := { q with targets := ft :: q.targets.tail }

/-- A head with a history stays and invalidates the queue, and so does leaving a locked queue. The
flag tells whether fetch may go on. -/
def popHead {φ : Type} (q : FTQ) : Except (FrontEndFault φ) (FTQ × Bool) :=
  match q.targets with
  | [] => .error .ftqPopHead
  | head :: rest =>
    if head.bpuHistory.isSome then .ok ({ q with status := .invalid }, false)
    else if q.status = .locked then .ok (⟨rest, .invalid⟩, false)
    else .ok (⟨rest, q.status⟩, true)

end FTQ

end BTBFerret
