import BTBFerret.FallibleRuns

/-!
# The memory dependence unit

A memory instruction is made dependent on the store that the predictor names, if it still has an
entry, and on the outstanding barriers of its kind; it counts them in `memDeps` and is put on the
list of each. Completing an instruction takes one off the counts of those on its list. An
instruction whose count and registers allow it is handed to the instruction queue.

Entries are numbered in the order they are made, and their fields are functions of that number.
Squashed entries stay on the lists they were put on. Kept for statements only: the completed
entries, what each depends on, which came in through `insert`, and the calls of
`addReadyMemInst`.
-/

namespace BTBFerret.MemDep

open Function

abbrev InstSeqNum := Nat

structure DynInst where
  seqNum : InstSeqNum
  isLoad : Bool
  isStore : Bool
  isAtomic : Bool
  isReadBarrier : Bool
  isWriteBarrier : Bool
  isHtmCmd : Bool
  deriving DecidableEq

namespace DynInst

def blocksLoads (inst : DynInst) : Bool := inst.isReadBarrier || inst.isHtmCmd

def blocksStores (inst : DynInst) : Bool := inst.isWriteBarrier || inst.isHtmCmd

def hasDependents (inst : DynInst) : Bool :=
  inst.isStore || inst.isAtomic || inst.isReadBarrier || inst.isWriteBarrier || inst.isHtmCmd

end DynInst

/-- The asserts and the panic of `insert`. -/
inductive Fault
  | notInHash
  | squashedEntry
  | noBarrier
  | unknownType
  deriving DecidableEq

structure PredictionResult where
  seqNum : InstSeqNum
  storeQueueDistance : Nat

def PredictionResult.store (prediction : PredictionResult) (storeQueue : List DynInst) :
    Option InstSeqNum :=
  if prediction.storeQueueDistance ≠ 0 ∧ prediction.storeQueueDistance ≤ storeQueue.length then
    storeQueue[prediction.storeQueueDistance - 1]?.map DynInst.seqNum
  else if prediction.seqNum ≠ 0 then some prediction.seqNum
  else none

structure MemDepUnit where
  inst : Nat → DynInst
  dependInsts : Nat → List Nat
  regsReady : Nat → Bool
  memDeps : Nat → Int
  squashed : Nat → Bool
  numEntries : Nat
  memDepHash : InstSeqNum → Option Nat
  instList : List Nat
  loadBarrierSNs : List InstSeqNum
  storeBarrierSNs : List InstSeqNum
  completed : Nat → Bool
  producers : Nat → List Nat
  entered : Nat → Bool
  ready : List Nat

namespace MemDepUnit

def empty : MemDepUnit where
  inst _ := ⟨0, false, false, false, false, false, false⟩
  dependInsts _ := []
  regsReady _ := false
  memDeps _ := 0
  squashed _ := false
  numEntries := 0
  memDepHash _ := none
  instList := []
  loadBarrierSNs := []
  storeBarrierSNs := []
  completed _ := false
  producers _ := []
  entered _ := false
  ready := []

variable (s : MemDepUnit) (inst : DynInst)

def findInHash : Except Fault Nat :=
  match s.memDepHash inst.seqNum with
  | some e => .ok e
  | none => .error .notInHash

def moveToReady (e : Nat) : Except Fault MemDepUnit :=
  if s.squashed e then .error .squashedEntry else .ok { s with ready := s.ready ++ [e] }

/-- A new entry in the hash and at the end of the list. An entry that is already there under the
sequence number would stay. -/
def addEntry : MemDepUnit :=
  { s with
    inst := update s.inst s.numEntries inst
    numEntries := s.numEntries + 1
    memDepHash := update s.memDepHash inst.seqNum
      ((s.memDepHash inst.seqNum).or (some s.numEntries))
    instList := s.instList ++ [s.numEntries] }

def insertBarrierSN : MemDepUnit :=
  { s with
    loadBarrierSNs :=
      if inst.blocksLoads then s.loadBarrierSNs.insert inst.seqNum else s.loadBarrierSNs
    storeBarrierSNs :=
      if inst.blocksStores then s.storeBarrierSNs.insert inst.seqNum else s.storeBarrierSNs }

def dependencies (predicted : Option InstSeqNum) : List Nat :=
  (predicted.bind s.memDepHash).toList ++
    (if inst.isLoad || inst.isAtomic then s.loadBarrierSNs.filterMap s.memDepHash else []) ++
    if inst.isStore || inst.isAtomic then s.storeBarrierSNs.filterMap s.memDepHash else []

def addDependent (e : Nat) (dependency : Nat) : MemDepUnit :=
  { s with
    dependInsts := update s.dependInsts dependency (s.dependInsts dependency ++ [e]) }

def insert (predicted : Option InstSeqNum) (readyToIssue : Bool) : Except Fault MemDepUnit := do
  let e := s.numEntries
  let s := s.addEntry inst
  let deps := s.dependencies inst predicted
  let s := { s with
    producers := update s.producers e deps
    entered := update s.entered e true
    regsReady := update s.regsReady e readyToIssue
    memDeps := update s.memDeps e deps.length }
  let s ← if deps.isEmpty then (if readyToIssue then s.moveToReady e else .ok s)
    else .ok (deps.foldl (fun s d => s.addDependent e d) s)
  let s := s.insertBarrierSN inst
  if inst.isStore || inst.isAtomic || inst.isLoad then return s else .error .unknownType

def insertBarrier : MemDepUnit :=
  (s.addEntry inst).insertBarrierSN inst

def setRegsReady : Except Fault MemDepUnit := do
  let e ← s.findInHash inst
  let s := { s with regsReady := update s.regsReady e true }
  if s.memDeps e = 0 then s.moveToReady e else return s

/-- One round of the loop of `wakeDependents`. -/
def releaseOne (dependent : Nat) : Except Fault MemDepUnit :=
  let s := { s with memDeps := update s.memDeps dependent (s.memDeps dependent - 1) }
  if s.memDeps dependent = 0 then
    if s.regsReady dependent && !s.squashed dependent then s.moveToReady dependent else .ok s
  else .ok s

def wakeDependents : Except Fault MemDepUnit :=
  if !inst.hasDependents then .ok s
  else do
    let e ← s.findInHash inst
    let s ← (s.dependInsts e).foldlM releaseOne s
    return { s with dependInsts := update s.dependInsts e [] }

def removeCompleted : Except Fault MemDepUnit := do
  let e ← s.findInHash inst
  return { s with
    instList := s.instList.erase e
    memDepHash := update s.memDepHash inst.seqNum none
    completed := update s.completed e true }

def completeInst : Except Fault MemDepUnit := do
  let s ← s.wakeDependents inst
  let s ← s.removeCompleted inst
  if inst.blocksStores && s.storeBarrierSNs.isEmpty then .error .noBarrier
  else if inst.blocksLoads && s.loadBarrierSNs.isEmpty then .error .noBarrier
  else return { s with
    storeBarrierSNs :=
      if inst.blocksStores then s.storeBarrierSNs.erase inst.seqNum else s.storeBarrierSNs
    loadBarrierSNs :=
      if inst.blocksLoads then s.loadBarrierSNs.erase inst.seqNum else s.loadBarrierSNs }

/-- The loop of `squash`, over the entries from the youngest on. -/
def squashFrom (squashedNum : InstSeqNum) (s : MemDepUnit) : List Nat → Except Fault MemDepUnit
  | [] => .ok s
  | e :: rest =>
    if squashedNum < (s.inst e).seqNum then do
      let found ← s.findInHash (s.inst e)
      squashFrom squashedNum { s with
        loadBarrierSNs := s.loadBarrierSNs.erase (s.inst e).seqNum
        storeBarrierSNs := s.storeBarrierSNs.erase (s.inst e).seqNum
        squashed := update s.squashed found true
        memDepHash := update s.memDepHash (s.inst e).seqNum none
        instList := rest.reverse } rest
    else .ok s

def squash (squashedNum : InstSeqNum) : Except Fault MemDepUnit :=
  squashFrom squashedNum s s.instList.reverse

inductive Op
  | insert (inst : DynInst) (prediction : PredictionResult) (storeQueue : List DynInst)
      (readyToIssue : Bool)
  | insertBarrier (inst : DynInst)
  | regsReady (inst : DynInst)
  | completeInst (inst : DynInst)
  | squash (squashedNum : InstSeqNum)

def step : Op → Except Fault MemDepUnit
  | .insert inst prediction storeQueue readyToIssue =>
    s.insert inst (prediction.store storeQueue) readyToIssue
  | .insertBarrier inst => .ok (s.insertBarrier inst)
  | .regsReady inst => s.setRegsReady inst
  | .completeInst inst => s.completeInst inst
  | .squash squashedNum => s.squash squashedNum

end MemDepUnit

end BTBFerret.MemDep
