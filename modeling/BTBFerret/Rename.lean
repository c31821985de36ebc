import BTBFerret.BTBEntry
import BTBFerret.FallibleRuns

/-!
# Register renaming

A destination takes a register from the free list of its class, and the mapping it replaces goes to
the history buffer of the thread. Squashing undoes the newest entries and holds their registers
back in `freeingInProgress` until the instructions have left the reorder buffer; committing takes
the oldest entries and frees the registers they replaced. Pinned and non-renameable destinations
keep their register: the two registers of their history entry are the same.

Kept for statements only: the instructions that count as renamed with the map after each, and the
youngest renamed and last committed number. Other stages change the number of writes left.
-/

namespace BTBFerret.Renaming

open Function

abbrev InstSeqNum := Nat

/-! ## Registers -/

inductive RegClassType
  | int
  | float
  | vec
  | vecElem
  | vecPred
  | mat
  | cc
  | misc
  | invalid
  deriving DecidableEq

instance : Fintype RegClassType where
  elems := {.int, .float, .vec, .vecElem, .vecPred, .mat, .cc, .misc, .invalid}
  complete c := by cases c <;> decide

/-- A flattened architectural register, with the pinned writes that an instruction asks for. -/
structure RegId where
  classValue : RegClassType
  index : Nat
  numPinnedWrites : Int

def RegId.isRenameable (r : RegId) : Bool :=
  r.classValue != .misc && r.classValue != .invalid

structure PhysRegId where
  classValue : RegClassType
  index : Nat
  deriving DecidableEq

def invalidPhysRegId : PhysRegId := ⟨.invalid, 0⟩

/-- The fixed registers of the register file. -/
structure RegFile where
  miscRegId : Nat → PhysRegId
  isAlwaysReady : PhysRegId → Bool

/-- The asserts, and an index beyond a rename map. -/
inductive Fault
  | noFreeReg
  | pinnedTwice
  | badIndex
  | wrongClass
  | remapped
  deriving DecidableEq

/-- The free lists and the pinned writes left for each register. -/
structure Pool where
  freeLists : RegClassType → List PhysRegId
  pins : PhysRegId → Int

variable (c : RegFile) (pool : Pool)

def Pool.setPins (p : PhysRegId) (n : Int) : Pool :=
  { pool with pins := update pool.pins p n }

def Pool.addReg (p : PhysRegId) : Pool :=
  { pool with
    freeLists := update pool.freeLists p.classValue (pool.freeLists p.classValue ++ [p]) }

abbrev RenameMap := RegClassType → List PhysRegId

/-- The new and the previous physical register. -/
abbrev RenameInfo := PhysRegId × PhysRegId

def SimpleRenameMap.rename (map : List PhysRegId) (r : RegId) :
    Except Fault (RenameInfo × Pool × List PhysRegId) :=
  match map[r.index]? with
  | none => .error .badIndex
  | some prev =>
    if r.classValue = .invalid then
      if prev.classValue = .invalid then .ok ((prev, prev), pool, map) else .error .wrongClass
    else if 0 < pool.pins prev then
      -- a pinned register is not renamed
      if r.numPinnedWrites = 0 then
        .ok ((prev, prev), pool.setPins prev (pool.pins prev - 1), map)
      else .error .pinnedTwice
    else
      match pool.freeLists r.classValue with
      | [] => .error .noFreeReg
      | new :: rest =>
        .ok ((new, prev),
          { freeLists := update pool.freeLists r.classValue rest
            pins := update pool.pins new r.numPinnedWrites },
          map.set r.index new)

/-- `lookup` of a register that is not renamed. -/
def UnifiedRenameMap.lookupFixed (r : RegId) : PhysRegId :=
  if r.classValue = .invalid then invalidPhysRegId else c.miscRegId r.index

def UnifiedRenameMap.rename (c : RegFile) (pool : Pool) (map : RenameMap) (r : RegId) :
    Except Fault (RenameInfo × Pool × RenameMap) :=
  if !r.isRenameable then
    let phys := lookupFixed c r
    .ok ((phys, phys), if !c.isAlwaysReady phys then pool.setPins phys r.numPinnedWrites else pool,
      map)
  else do
    let (info, pool, m) ← SimpleRenameMap.rename pool (map r.classValue) r
    return (info, pool, update map r.classValue m)

def UnifiedRenameMap.setEntry (map : RenameMap) (r : RegId) (p : PhysRegId) :
    Except Fault RenameMap :=
  if p.classValue ≠ r.classValue then .error .wrongClass
  else if !r.isRenameable then if p = lookupFixed c r then .ok map else .error .remapped
  else if ¬ r.index < (map r.classValue).length then .error .badIndex
  else .ok (update map r.classValue ((map r.classValue).set r.index p))

/-! ## The rename stage -/

structure RenameHistory where
  instSeqNum : InstSeqNum
  archReg : RegId
  newPhysReg : PhysRegId
  prevPhysReg : PhysRegId

structure RenameThread where
  renameMap : RenameMap
  historyBuffer : List RenameHistory
  freeingInProgress : List PhysRegId
  renamed : List (InstSeqNum × RenameMap)
  youngest : InstSeqNum
  lastCommitted : InstSeqNum

structure DynInst where
  seqNum : InstSeqNum
  destRegs : List RegId

/-- One round of the loop of `renameDestRegs`. -/
def renameDest (seqNum : InstSeqNum) (s : Pool × RenameThread) (r : RegId) :
    Except Fault (Pool × RenameThread) := do
  let ((new, prev), pool, map) ← UnifiedRenameMap.rename c s.1 s.2.renameMap r
  return (pool, { s.2 with
    renameMap := map
    historyBuffer := ⟨seqNum, r, new, prev⟩ :: s.2.historyBuffer })

def renameDestRegs (t : RenameThread) (inst : DynInst) : Except Fault (Pool × RenameThread) := do
  let (pool, t) ← inst.destRegs.foldlM (renameDest c inst.seqNum) (pool, t)
  return (pool, { t with
    renamed := (inst.seqNum, t.renameMap) :: t.renamed
    youngest := inst.seqNum })

/-- One round of the loop of `doSquash`. -/
def undo (t : RenameThread) (h : RenameHistory) : Except Fault RenameThread :=
  if h.newPhysReg ≠ h.prevPhysReg then do
    let map ← UnifiedRenameMap.setEntry c t.renameMap h.archReg h.prevPhysReg
    return { t with
      renameMap := map
      freeingInProgress := t.freeingInProgress ++ [h.newPhysReg] }
  else .ok t

def squashHistory (c : RegFile) (squashedSeqNum : InstSeqNum) (t : RenameThread) :
    List RenameHistory → Except Fault RenameThread
  | [] => .ok { t with historyBuffer := [] }
  | h :: rest =>
    if squashedSeqNum < h.instSeqNum then do
      let t ← undo c t h
      squashHistory c squashedSeqNum t rest
    else .ok { t with historyBuffer := h :: rest }

def doSquash (squashedSeqNum : InstSeqNum) (t : RenameThread) : Except Fault RenameThread := do
  let t ← squashHistory c squashedSeqNum t t.historyBuffer
  return { t with renamed := t.renamed.filter fun r => decide (r.1 ≤ squashedSeqNum) }

/-- The loop of `removeFromHistory`, over the entries from the oldest on. -/
def commitHistory (instSeqNum : InstSeqNum) (pool : Pool) :
    List RenameHistory → Pool × List RenameHistory
  | [] => (pool, [])
  | h :: rest =>
    if h.instSeqNum ≤ instSeqNum then
      commitHistory instSeqNum
        (if h.newPhysReg ≠ h.prevPhysReg then pool.addReg h.prevPhysReg else pool) rest
    else (pool, h :: rest)

def removeFromHistory (instSeqNum : InstSeqNum) (pool : Pool) (t : RenameThread) :
    Pool × RenameThread :=
  let (pool, left) := commitHistory instSeqNum pool t.historyBuffer.reverse
  (pool, { t with
    historyBuffer := left.reverse
    lastCommitted := max t.lastCommitted instSeqNum })

/-- The part of `checkSignalsAndUpdate` that frees the registers of squashed instructions, once
the reorder buffer is not squashing. -/
def releaseSquashed (t : RenameThread) : Pool × RenameThread :=
  (t.freeingInProgress.foldl Pool.addReg pool, { t with freeingInProgress := [] })

def canRename (inst : DynInst) : Prop :=
  ∀ c, c ≠ .misc → c ≠ .invalid →
    inst.destRegs.countP (fun r => decide (r.classValue = c)) ≤ (pool.freeLists c).length

instance (pool : Pool) (inst : DynInst) : Decidable (canRename pool inst) :=
  inferInstanceAs (Decidable (∀ _, _))

structure Rename where
  pool : Pool
  threads : ThreadID → RenameThread

def Rename.setThread (s : Rename) (tid : ThreadID) (pt : Pool × RenameThread) : Rename where
  pool := pt.1
  threads := update s.threads tid pt.2

inductive Op
  | renameDestRegs (inst : DynInst) (tid : ThreadID)
  | doSquash (squashedSeqNum : InstSeqNum) (tid : ThreadID)
  | removeFromHistory (instSeqNum : InstSeqNum) (tid : ThreadID)
  | releaseSquashed (tid : ThreadID)
  | setPins (p : PhysRegId) (n : Int)

def step (s : Rename) : Op → Except Fault Rename
  | .renameDestRegs inst tid => s.setThread tid <$> renameDestRegs c s.pool (s.threads tid) inst
  | .doSquash sn tid => (fun t => s.setThread tid (s.pool, t)) <$> doSquash c sn (s.threads tid)
  | .removeFromHistory sn tid =>
    .ok (s.setThread tid (removeFromHistory sn s.pool (s.threads tid)))
  | .releaseSquashed tid => .ok (s.setThread tid (releaseSquashed s.pool (s.threads tid)))
  | .setPins p n => .ok { s with pool := s.pool.setPins p n }

end BTBFerret.Renaming
