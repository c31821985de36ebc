import BTBFerret.AssociativeCache

/-!
# BTB entries and their indexing policy

`btb_entry.hh`: the key of a BTB access is an address and a thread, the entry stores a tag cut from
the address and the thread, and a BTB level is a set-associative container of such entries. The tag
extractor is fixed by the level.
-/

namespace BTBFerret

open ReplacementPolicy AssociativeCache

abbrev Addr := BitVec 64
abbrev ThreadID := Int
abbrev Cycles := Nat

def maxAddr : Addr := BitVec.allOnes 64

/-- The program counter state, with the fields of `PCStateWithNext`. -/
structure PCState where
  pc : Addr
  upc : Nat
  npc : Addr
  nupc : Nat
  deriving DecidableEq

def PCState.instAddr (s : PCState) : Addr := s.pc

/-- `PCStateWithNext::set` on an address. -/
def PCState.ofAddr (a : Addr) : PCState := ⟨a, 0, 0, 1⟩

/-- A static instruction. The identity stands for the object pointed to. -/
structure StaticInst where
  id : Nat
  isControl : Bool
  isReturn : Bool
  isCall : Bool
  isDirectCtrl : Bool
  isIndirectCtrl : Bool
  isCondCtrl : Bool
  isUncondCtrl : Bool
  isMicroop : Bool
  isLastMicroop : Bool
  size : Nat
  deriving DecidableEq

inductive BranchType where
  | noBranch
  | return_
  | callDirect
  | callIndirect
  | directCond
  | directUncond
  | indirectCond
  | indirectUncond
  deriving DecidableEq

def getBranchType (inst : StaticInst) : BranchType :=
  if inst.isReturn then .return_
  else if inst.isCall then
    if inst.isDirectCtrl then .callDirect else .callIndirect
  else if inst.isDirectCtrl then
    if inst.isCondCtrl then .directCond else .directUncond
  else if inst.isIndirectCtrl then
    if inst.isCondCtrl then .indirectCond else .indirectUncond
  else .noBranch

def isCall (type : BranchType) : Bool :=
  type == .callDirect || type == .callIndirect

def isIndirect (type : BranchType) : Bool :=
  type == .callIndirect || type == .indirectUncond || type == .indirectCond

/-- `GenericSatCounter`, restricted to what a BTB entry does with it. -/
structure SatCounter where
  initialVal : Nat
  maxVal : Nat
  counter : Nat
  deriving DecidableEq

namespace SatCounter

def mk' (bits initialVal : Nat) : SatCounter := ⟨initialVal, 2 ^ bits - 1, initialVal⟩

def reset (c : SatCounter) : SatCounter := { c with counter := c.initialVal }

/-- `+= 1`. -/
def incr (c : SatCounter) : SatCounter :=
  { c with counter := if 1 ≤ c.maxVal - c.counter then c.counter + 1 else c.maxVal }

/-- `+= -1`. -/
def decr (c : SatCounter) : SatCounter :=
  { c with counter := if 1 < c.counter then c.counter - 1 else 0 }

end SatCounter

structure KeyType where
  address : Addr
  tid : ThreadID
  deriving DecidableEq

structure BTBEntry where
  target : Option PCState
  inst : Option StaticInst
  valid : Bool
  tag : KeyType
  branchAddr : Addr
  prefetched : Bool
  takenPrefetched : Bool
  triggeredByPBHit : Bool
  prefetchedFromL3 : Bool
  timestamp : Cycles
  prefetchDistance : Nat
  predTaken : Bool
  fromPBuffer : Bool
  markovPredType : Int
  prefetchThrough : Bool
  prefetchTarget : Bool
  toL1 : Bool
  prefetchTriggerType : BranchType
  dir : SatCounter

namespace BTBEntry

/-- The default constructor. -/
def empty : BTBEntry where
  target := none
  inst := none
  valid := false
  tag := ⟨maxAddr, -1⟩
  branchAddr := 0
  prefetched := false
  takenPrefetched := false
  triggeredByPBHit := false
  prefetchedFromL3 := false
  timestamp := 0
  prefetchDistance := 0
  predTaken := false
  fromPBuffer := false
  markovPredType := -1
  prefetchThrough := false
  prefetchTarget := false
  toL1 := false
  prefetchTriggerType := .noBranch
  dir := SatCounter.mk' 2 1

/-- `update(target, inst)`: the branch address stays what it was. -/
def update (e : BTBEntry) (target : PCState) (inst : Option StaticInst) : BTBEntry :=
  { e with target := some target, inst := inst }

/-- `update(other)`: copy another entry, accumulating the fall-through bit. -/
def updateFrom (e other : BTBEntry) : BTBEntry :=
  { e with
    inst := other.inst
    branchAddr := other.branchAddr
    target := other.target
    prefetchThrough := e.prefetchThrough || other.prefetchThrough
    prefetchTarget := other.prefetchTarget
    dir := other.dir }

/-- `insert`, after the assertion of `setValid`. -/
def insert (extractTag : Addr → Addr) (key : KeyType) (e : BTBEntry) : BTBEntry :=
  { e with
    valid := true
    tag := ⟨extractTag key.address, key.tid⟩
    branchAddr := key.address
    prefetched := false
    takenPrefetched := false
    triggeredByPBHit := false
    prefetchedFromL3 := false
    timestamp := 0
    prefetchDistance := 0
    predTaken := false
    fromPBuffer := false
    markovPredType := -1
    prefetchThrough := false
    prefetchTarget := false
    toL1 := false
    prefetchTriggerType := .noBranch
    dir := e.dir.reset }

def invalidate (e : BTBEntry) : BTBEntry :=
  { e with valid := false, tag := ⟨maxAddr, -1⟩ }

def «match» (extractTag : Addr → Addr) (key : KeyType) (e : BTBEntry) : Bool :=
  e.valid && e.tag.address == extractTag key.address && e.tag.tid == key.tid

/-- `target->instAddr()`. A valid entry always has a target, so the value for a
null target is never used. -/
def targetAddr (e : BTBEntry) : Addr :=
  match e.target with
  | some t => t.instAddr
  | none => 0

/-- Two-bit counter: 0 and 1 are not taken. -/
def getDir (e : BTBEntry) : Bool := 1 < e.dir.counter

def updateDir (taken : Bool) (e : BTBEntry) : BTBEntry :=
  { e with dir := if taken then e.dir.incr else e.dir.decr }

def setPrefetchBits (target through : Bool) (e : BTBEntry) : BTBEntry :=
  { e with prefetchTarget := target, prefetchThrough := through }

end BTBEntry

/-- `BTBSetAssociative` of one level with its replacement policy. The number of sets is a power of
two that fits 32 bits; the number of threads is given by its binary logarithm. -/
structure BTBLevel where
  log2NumSets : Nat
  numSets_fits : log2NumSets < 32
  assoc : Nat
  assoc_pos : 0 < assoc
  setShift : Nat
  tagBits : Nat
  log2NumThreads : Nat
  policy : Policy (Fin (2 ^ log2NumSets) × Fin assoc)

namespace BTBLevel

variable (v : BTBLevel)

def tagShift : Nat := v.setShift + v.log2NumSets

def setMask : Addr := BitVec.ofNat 64 (2 ^ v.log2NumSets - 1)

/-- `mask(tag_bits)`. -/
def tagMask : Addr :=
  if 64 ≤ v.tagBits then BitVec.allOnes 64 else BitVec.ofNat 64 (2 ^ v.tagBits - 1)

def extractSetAddr (key : KeyType) : Addr :=
  ((key.address >>> v.setShift) ^^^
    (BitVec.ofInt 64 key.tid <<< (v.tagShift - v.setShift - v.log2NumThreads))) &&& v.setMask

def extractTag (addr : Addr) : Addr := (addr >>> v.tagShift) &&& v.tagMask

/-- The mask keeps exactly the index bits. -/
lemma and_setMask_lt (a : Addr) : (a &&& v.setMask).toNat < 2 ^ v.log2NumSets := by
  have hfits : v.log2NumSets ≤ 64 := by have := v.numSets_fits; omega
  have hle : 2 ^ v.log2NumSets ≤ 2 ^ 64 := Nat.pow_le_pow_right (by omega) hfits
  have hpos : 0 < 2 ^ v.log2NumSets := Nat.two_pow_pos _
  have hmask : v.setMask.toNat = 2 ^ v.log2NumSets - 1 := by
    simp only [setMask, BitVec.toNat_ofNat]
    exact Nat.mod_eq_of_lt (by omega)
  rw [BitVec.toNat_and, hmask, Nat.and_two_pow_sub_one_eq_mod]
  exact Nat.mod_lt _ hpos

def extractSet (key : KeyType) : Fin (2 ^ v.log2NumSets) :=
  ⟨(v.extractSetAddr key).toNat, v.and_setMask_lt _⟩

/-- The container of one BTB level. -/
def shape : Shape BTBEntry KeyType where
  Tag := KeyType
  tagOf := fun key => ⟨v.extractTag key.address, key.tid⟩
  tag := BTBEntry.tag
  isValid := BTBEntry.valid
  «match» := BTBEntry.match v.extractTag
  insert := BTBEntry.insert v.extractTag
  invalidate := BTBEntry.invalidate
  initVal := BTBEntry.empty
  numSets := 2 ^ v.log2NumSets
  assoc := v.assoc
  assoc_pos := v.assoc_pos
  extractSet := v.extractSet
  policy := v.policy
  match_iff := by
    intro k e
    obtain ⟨_⟩ := k
    simp only [BTBEntry.match, Bool.and_eq_true, beq_iff_eq, and_assoc]
    constructor
    · rintro ⟨hv, ha, ht⟩
      exact ⟨hv, by rw [← ha, ← ht]⟩
    · rintro ⟨hv, ht⟩
      rw [ht]
      exact ⟨hv, rfl, rfl⟩
  isValid_insert := fun _ _ => rfl
  tag_insert := fun _ _ => rfl
  isValid_invalidate := fun _ => rfl
  isValid_initVal := rfl

end BTBLevel

/-- A container holding the entries of a BTB level. -/
abbrev BTBCache (v : BTBLevel) := Cache v.shape

end BTBFerret
