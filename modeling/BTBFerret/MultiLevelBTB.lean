import BTBFerret.BTBEntry
import BTBFerret.FallibleRuns

/-!
# The state of the multi-level BTB

`multilevel_btb.hh`: three BTB levels and the prefetch buffer, the compressed tag arrays that filter
prefetches, the Markov table and the prefetch-bit prefetcher. Statistics are a log of increments and
samples. Time is an input: the simulation tick drives the replacement policies and the BTB's clock
cycle the prefetch latencies.
-/

namespace BTBFerret

open ReplacementPolicy AssociativeCache

/-- Ways in which an operation ends the simulation. -/
inductive Fault where
  /-- `panic("There is bug in bpu->BTBValid(tid, br_addr) from bac.cc")` -/
  | lookupPanic
  /-- `assert(l1btb.findEntry({instPC, tid}) == nullptr)` in `freeUpL1Entry` -/
  | freeUpL1Entry
  /-- `assert(!isValid())` in `BTBEntry::setValid` -/
  | setValid
  /-- `assert(!isValid())` in `TaggedEntry::setValid` -/
  | markovSetValid
  /-- `assert(successors.size() < maxMarkovSuccessors)` -/
  | markovSuccessors
  /-- `std::invalid_argument("RHS cycle value larger than LHS")` -/
  | cyclesUnderflow
  /-- a member of the null `chainEntry` is written -/
  | nullChainEntry
  /-- `getBranchType` of a null instruction -/
  | nullInst
  /-- `assert (index < size())` of a late prefetch vector of five buckets -/
  | latePrefetchBucket
  deriving DecidableEq

inductive BTBAccessLevel where
  | l1
  | l2
  | l3
  deriving DecidableEq

inductive BTBAccessReason where
  | noReason
  | btbMiss
  | nonEntry
  | prefetch
  | normalL2Hit
  | overrideL1Miss
  deriving DecidableEq

inductive ChainEndReason where
  | none
  | evicted
  | demand
  | presence
  | l2Miss
  | l3Miss
  | retFilter
  | depthExhaust
  deriving DecidableEq

inductive TriggerLocation where
  | l1Hit
  | l2Hit
  | l3Hit
  | pbHit
  deriving DecidableEq

inductive TagAction where
  | hit
  | insert
  | invalidate
  deriving DecidableEq

/-- One increment of a counter or one sample of a distribution. -/
inductive Stat where
  | lookups (type : BranchType)
  | updates (type : BranchType)
  | l1MissL2Hits
  | l1Hits
  | normalL1Hits
  | l1Accesses
  | l2Accesses
  | l2AccessesByReason (reason : BTBAccessReason)
  | l1HitInOverriding
  | l1MissInOverriding
  | pbHits
  | l3Hits
  | uselessPrefetches (type : BranchType)
  | totalPrefetches
  | prefetchHits (type : BranchType)
  | latePrefetchByPBHit (bucket : Nat)
  | latePrefetchByL2Hit (bucket : Nat)
  | l1Installed
  | compressedTagChecks
  | compressedTagFalsePositives
  | compressedTagFalseNegatives
  | compressedTagAliases
  | takenPathPrefetches
  | notTakenPathPrefetches
  | prefetchHitsFromTaken (type : BranchType)
  | prefetchHitsFromNotTaken (type : BranchType)
  | callL2OrPrefetchHits
  | callFallThroughL2Only
  | updatesL2hits
  | updatesL2miss
  | updatesL3hits
  | updatesL3miss
  | pfIssued
  | pfL2LookupHit
  | pfL2LookupMiss
  | pfL3LookupHit
  | pfL3LookupMiss
  | mkHits
  | pfTriggerCall
  | pfTriggerBwExit
  | pfTriggerFwExit
  | pfTriggerCondAlt
  | skipDuetoDemand
  | skipDuetoPresence
  | enqueueDeferred
  | chainEndEvicted
  | chainEndDemand
  | chainEndPresence
  | chainEndL2Miss
  | chainEndL3Miss
  | chainEndRetFilter
  | chainEndNonEntry
  | chainEndDepthExhaust
  | prefetchesPerTrigger (sample : Nat)
  | parallelChains (sample : Nat)
  deriving DecidableEq

/-! ## The Markov table -/

structure MarkovEntry where
  valid : Bool
  secure : Bool
  tag : Addr
  successors : List (Addr × Nat)
  deriving DecidableEq

namespace MarkovEntry

def empty : MarkovEntry := ⟨false, false, maxAddr, []⟩

def insert (extractTag : Addr → Addr) (key : Addr) (e : MarkovEntry) : MarkovEntry :=
  { e with valid := true, tag := extractTag key, secure := true }

def invalidate (_ : MarkovEntry) : MarkovEntry := ⟨false, false, maxAddr, []⟩

def «match» (extractTag : Addr → Addr) (key : Addr) (e : MarkovEntry) : Bool :=
  e.valid && e.tag == extractTag key && e.secure == true

end MarkovEntry

/-- `TaggedSetAssociative` with entries of one byte, and its policy. -/
structure MarkovLevel where
  log2NumSets : Nat
  numSets_fits : log2NumSets < 32
  assoc : Nat
  assoc_pos : 0 < assoc
  policy : Policy (Fin (2 ^ log2NumSets) × Fin assoc)

namespace MarkovLevel

variable (v : MarkovLevel)

def extractTag (addr : Addr) : Addr := addr >>> v.log2NumSets

def extractSet (key : Addr) : Fin (2 ^ v.log2NumSets) :=
  ⟨key.toNat % 2 ^ v.log2NumSets, Nat.mod_lt _ (Nat.two_pow_pos _)⟩

def shape : Shape MarkovEntry Addr where
  Tag := Addr × Bool
  tagOf := fun key => (v.extractTag key, true)
  tag := fun e => (e.tag, e.secure)
  isValid := MarkovEntry.valid
  «match» := MarkovEntry.match v.extractTag
  insert := MarkovEntry.insert v.extractTag
  invalidate := MarkovEntry.invalidate
  initVal := MarkovEntry.empty
  numSets := 2 ^ v.log2NumSets
  assoc := v.assoc
  assoc_pos := v.assoc_pos
  extractSet := v.extractSet
  policy := v.policy
  match_iff := by
    intro k e
    simp [MarkovEntry.match, and_assoc]
  isValid_insert := fun _ _ => rfl
  tag_insert := fun _ _ => rfl
  isValid_invalidate := fun _ => rfl
  isValid_initVal := rfl

end MarkovLevel

/-! ## Parameters -/

/-- `sortByFrequency` stands for `std::sort` with the comparison on frequencies, which leaves the
order of equal ones open. -/
structure Params where
  l1btb : BTBLevel
  pBuffer : BTBLevel
  l2btb : BTBLevel
  l3btb : BTBLevel
  l1CompressedTags : BTBLevel
  pbCompressedTags : BTBLevel
  markov : MarkovLevel
  l1Latency : Cycles
  l2Latency : Cycles
  l3Latency : Cycles
  enableL3 : Bool
  minInstSize : Nat
  trainBitsOnLookup : Bool
  trainBitsOnCommit : Bool
  prefetchOnPrefetchHit : Bool
  cleanBitsOnL1Promotion : Bool
  noPrefetchLatency : Bool
  prefetchDepth : Nat
  maxChainTrackerEntries : Nat
  depthOnlyCall : Bool
  limitRet : Bool
  nonexclusive : Bool
  newPBits : Bool
  onlyCall : Bool
  onlyCallAndBackward : Bool
  callFallthrough : Bool
  forwardLoopExit : Bool
  backwardLoopExit : Bool
  allConditional : Bool
  prefetchFwExitOnL1Hit : Bool
  useCompressedTagFilter : Bool
  indirectAltBit : Bool
  limitedMarkov : Bool
  markovOnlyMisses : Bool
  maxMarkovSuccessors : Nat
  sortByFrequency : List (Addr × Nat) → List (Addr × Nat)
  sortByFrequency_perm : ∀ l, (sortByFrequency l).Perm l
  sortByFrequency_sorted : ∀ l, (sortByFrequency l).Pairwise (fun a b => b.2 ≤ a.2)

namespace Params

variable (p : Params)

def usesPrefetchBitPolicy : Bool := p.trainBitsOnLookup || p.trainBitsOnCommit

def probesPBuffer : Bool := p.limitedMarkov || p.trainBitsOnLookup || p.trainBitsOnCommit

def fallThrough (pc : Addr) : Addr := pc + BitVec.ofNat 64 p.minInstSize

def chainSlot (chainId : Nat) : Option (Fin p.maxChainTrackerEntries) :=
  if h : 0 < p.maxChainTrackerEntries then
    some ⟨chainId % p.maxChainTrackerEntries, Nat.mod_lt _ h⟩
  else none

end Params

/-! ## State -/

structure PrevBlockInfo where
  branchPC : Addr
  target : Addr
  fallThrough : Addr
  valid : Bool
  deriving DecidableEq

structure DeferredPrefetchEntry where
  pc : Addr
  tid : ThreadID
  issueTime : Cycles
  toL1 : Bool
  triggeredByPBHit : Bool
  takenPrefetched : Bool
  triggerType : BranchType
  chainId : Nat
  allocateChain : Bool
  depth : Nat
  deriving DecidableEq

structure ActiveChainEntry where
  chainId : Nat
  remainingPrefetches : Nat
  lastEndReason : ChainEndReason
  deriving DecidableEq

def ActiveChainEntry.empty : ActiveChainEntry := ⟨0, 0, .none⟩

structure PrevBrInfo where
  isBw : Bool
  isL1Miss : Bool
  deriving DecidableEq

/-- The block map of the branch predictor unit: block start to its branch. -/
abbrev BBMap := Addr → Option Addr

structure State (p : Params) where
  l1btb : BTBCache p.l1btb
  pBuffer : BTBCache p.pBuffer
  l2btb : BTBCache p.l2btb
  l3btb : BTBCache p.l3btb
  l1CompressedTags : BTBCache p.l1CompressedTags
  pbCompressedTags : BTBCache p.pbCompressedTags
  markov : Cache p.markov.shape
  prevBranches : List (Addr × Bool)
  prevBlockInfo : ThreadID → PrevBlockInfo
  deferredPrefetchQueue : List DeferredPrefetchEntry
  nextChainId : Nat
  chainTable : Vector ActiveChainEntry p.maxChainTrackerEntries
  currentCycleDemand : List Addr
  prevBwBranch : PrevBrInfo
  bbMap : Option BBMap
  curTick : Tick
  curCycle : Cycles
  stats : List Stat

/-- The constructed BTB. `prevBwBranch` is not initialised by the constructor,
so its first value is a parameter. -/
def State.init (p : Params) (bw : PrevBrInfo) : State p where
  l1btb := Cache.init _
  pBuffer := Cache.init _
  l2btb := Cache.init _
  l3btb := Cache.init _
  l1CompressedTags := Cache.init _
  pbCompressedTags := Cache.init _
  markov := Cache.init _
  prevBranches := [(0, false), (1, false), (2, false), (3, false)]
  prevBlockInfo := fun _ => ⟨0, 0, 0, false⟩
  deferredPrefetchQueue := []
  nextChainId := 1
  chainTable := Vector.replicate _ ActiveChainEntry.empty
  currentCycleDemand := []
  prevBwBranch := bw
  bbMap := none
  curTick := 0
  curCycle := 0
  stats := []

namespace State

variable {p : Params}

variable (s : State p)

def count (stat : Stat) : State p := { s with stats := stat :: s.stats }

def recordDemandLookup (pc : Addr) : State p :=
  { s with currentCycleDemand := pc :: s.currentCycleDemand }

def isDemandAccess (pc : Addr) : Bool := s.currentCycleDemand.contains pc

def recordBTBAccess (level : BTBAccessLevel) (reason : BTBAccessReason) : State p :=
  let s := s.count .l1Accesses
  if level = .l1 then
    if reason = .noReason then s.count .normalL1Hits else s
  else
    let s := s.count .l2Accesses
    if reason = .noReason then s else s.count (.l2AccessesByReason reason)

variable (tid : ThreadID) (instPC : Addr)

/-- Is the branch in any level or in the prefetch buffer? -/
def valid : Bool :=
  (s.l1btb.findEntry ⟨instPC, tid⟩).isSome || (s.pBuffer.findEntry ⟨instPC, tid⟩).isSome ||
    (s.l2btb.findEntry ⟨instPC, tid⟩).isSome ||
    (p.enableL3 && (s.l3btb.findEntry ⟨instPC, tid⟩).isSome)

/-- The entry that `getInst` reads, searched in the order of the source. -/
def servingEntry : Option BTBEntry :=
  match s.l1btb.findEntry ⟨instPC, tid⟩ with
  | some l => some (s.l1btb.get l)
  | none =>
    match s.pBuffer.findEntry ⟨instPC, tid⟩ with
    | some l => some (s.pBuffer.get l)
    | none =>
      match s.l2btb.findEntry ⟨instPC, tid⟩ with
      | some l => some (s.l2btb.get l)
      | none =>
        if p.enableL3 then (s.l3btb.findEntry ⟨instPC, tid⟩).map s.l3btb.get else none

def getInst : Option StaticInst :=
  (s.servingEntry tid instPC).bind BTBEntry.inst

def lookupL1 : State p × Addr :=
  match s.l1btb.findEntry ⟨instPC, tid⟩ with
  | some l => ((s.recordBTBAccess .l1 .noReason).count .l1HitInOverriding,
      (s.l1btb.get l).targetAddr)
  | none => ((s.count .l1MissInOverriding).recordBTBAccess .l2 .overrideL1Miss, maxAddr)

def updateDirection (taken : Bool) : State p :=
  match s.l1btb.findEntry ⟨instPC, tid⟩ with
  | some l => { s with l1btb := s.l1btb.modify l (BTBEntry.updateDir taken) }
  | none => s

/-- `memInvalidate`: an unused third level is left alone. -/
def memInvalidate : State p :=
  { s with
    l1btb := s.l1btb.clear
    l2btb := s.l2btb.clear
    l3btb := if p.enableL3 then s.l3btb.clear else s.l3btb
    pBuffer := s.pBuffer.clear
    l1CompressedTags := s.l1CompressedTags.clear
    pbCompressedTags := s.pbCompressedTags.clear
    deferredPrefetchQueue := []
    chainTable := s.chainTable.map (fun _ => ActiveChainEntry.empty) }

end State

end BTBFerret
