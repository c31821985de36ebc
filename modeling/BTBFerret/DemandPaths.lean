import BTBFerret.Prefetching

/-!
# Updates and lookups

A branch always enters the hierarchy through L1. Freeing the way it needs writes the L1 victim back
to L2, whose victim goes to L3, and in the nonexclusive mode the L1 victim is mirrored to L3. Every
write-back is keyed by the victim's address and the thread of the caller.
-/

namespace BTBFerret

open AssociativeCache

/-- What a lookup returns; the target pointer is modelled by its value. -/
structure BTBLookupResult where
  target : Option PCState
  latency : Cycles
  l1Hit : Bool
  pBufferHit : Bool
  l2Hit : Bool
  l3Hit : Bool
  prefetchHit : Bool
  predMatch : Bool
  taken : Bool
  prefetchTriggerType : BranchType
  deriving DecidableEq

namespace State

variable {p : Params}

/-! ## Freeing an L1 way -/

variable (s : State p) (tid : ThreadID)

def writeBackL3 (victim : BTBEntry) : Except Fault (State p) :=
  let key : KeyType := ⟨victim.branchAddr, tid⟩
  match s.l3btb.findEntry key with
  | some l =>
    let l3 := (s.l3btb.accessEntry s.curTick l).modify l (fun e => e.updateFrom victim)
    .ok { s.count .updatesL3hits with l3btb := l3 }
  | none => do
    let (l, l3) := s.l3btb.findVictim key true
    let l3 ← l3.insertEntry Fault.setValid s.curTick key l
    return { s.count .updatesL3miss with l3btb := l3.modify l (fun e => e.updateFrom victim) }

def displaceL2 (e : BTBEntry) : Except Fault (State p) :=
  if e.valid && p.enableL3 then s.writeBackL3 tid e else .ok s

def writeBackL2 (victim : BTBEntry) : Except Fault (State p) :=
  let key : KeyType := ⟨victim.branchAddr, tid⟩
  match s.l2btb.findEntry key with
  | some l =>
    let l2 := (s.l2btb.accessEntry s.curTick l).modify l (fun e => e.updateFrom victim)
    .ok { s.count .updatesL2hits with l2btb := l2 }
  | none => do
    let (l, l2) := s.l2btb.findVictim key false
    let s ← { s with l2btb := l2 }.displaceL2 tid (l2.get l)
    -- the entry is invalidated here without telling the replacement policy
    let l2 ← (s.l2btb.modify l BTBEntry.invalidate).insertEntry Fault.setValid s.curTick key l
    return { s.count .updatesL2miss with l2btb := l2.modify l (fun e => e.updateFrom victim) }

def writeBackVictim (victim : BTBEntry) : Except Fault (State p) :=
  if victim.valid then do
    let s ← s.writeBackL2 tid victim
    if p.nonexclusive && p.enableL3 then s.writeBackL3 tid victim else return s
  else .ok s

/-- `freeUpL1Entry`: the way returned is tagged with the key and still holds the
target and the instruction of the branch it replaces. -/
def freeUpL1Entry (s : State p) (tid : ThreadID) (instPC : Addr) :
    Except Fault (Loc p.l1btb.shape × State p) :=
  let key : KeyType := ⟨instPC, tid⟩
  if (s.l1btb.findEntry key).isSome then .error .freeUpL1Entry
  else do
    let (l, l1) := s.l1btb.findVictim key false
    let s ← { s with l1btb := l1 }.writeBackVictim tid (l1.get l)
    let l1 ← (s.l1btb.modify l BTBEntry.invalidate).insertEntry Fault.setValid s.curTick key l
    return (l, { s with l1btb := l1 })

/-! ## Update -/

def markChangedTarget (p : Params) (type : BranchType) (target : PCState) (e : BTBEntry) :
    BTBEntry :=
  if p.usesPrefetchBitPolicy && p.indirectAltBit && isIndirect type &&
      e.targetAddr != target.instAddr then e.setPrefetchBits true true
  else e

def allocateBits (p : Params) (e : BTBEntry) : BTBEntry :=
  if p.usesPrefetchBitPolicy then e.setPrefetchBits true false else e

def updatedEntry (s : State p) (tid : ThreadID) (instPC : Addr) (target : PCState)
    (type : BranchType) : Except Fault (Loc p.l1btb.shape × State p) :=
  match s.l1btb.findEntry ⟨instPC, tid⟩ with
  | none => do
    let (l, s) ← s.freeUpL1Entry tid instPC
    return (l, { s with l1btb := s.l1btb.modify l (allocateBits p) })
  | some l => .ok (l, { s with l1btb := s.l1btb.modify l (markChangedTarget p type target) })

def update (s : State p) (tid : ThreadID) (instPC : Addr) (target : PCState)
    (type : BranchType) (inst : Option StaticInst) : Except Fault (State p) := do
  let (l, s) ← (s.count (.updates type)).updatedEntry tid instPC target type
  let s ← s.l1CompressedTagSync instPC tid .insert
  let l1 := (s.l1btb.modify l (fun e => e.update target inst)).accessEntry s.curTick l
  return { s with l1btb := l1 }

/-! ## Lookup -/

def recordPrevBlockInfo (instPC targetAddr : Addr) : State p :=
  { s with prevBlockInfo :=
    Function.update s.prevBlockInfo tid ⟨instPC, targetAddr, p.fallThrough instPC, true⟩ }

def trainBits (prev : PrevBlockInfo) (blockStartAddr : Addr) (e : BTBEntry) : BTBEntry :=
  { e with
    prefetchTarget := e.prefetchTarget || decide (blockStartAddr = prev.target)
    prefetchThrough := e.prefetchThrough || decide (blockStartAddr = prev.fallThrough) }

def trainPrevBlock (blockStartAddr : Addr) : State p :=
  let prev := s.prevBlockInfo tid
  if p.trainBitsOnLookup && blockStartAddr != 0 && prev.valid then
    match s.l1btb.findEntry ⟨prev.branchPC, tid⟩ with
    | some l => { s with l1btb := s.l1btb.modify l (trainBits prev blockStartAddr) }
    | none => s
  else s

def recordBlock (instPC blockStartAddr targetAddr : Addr) : State p :=
  if p.trainBitsOnLookup && blockStartAddr != 0 then s.recordPrevBlockInfo tid instPC targetAddr
  else s

def countCallFallThrough (instPC : Addr) (type : BranchType) : State p :=
  match s.bbMap with
  | none => s
  | some map =>
    if isCall type then
      let s := s.count .callL2OrPrefetchHits
      match map (p.fallThrough instPC) with
      | none => s
      | some ftPC =>
        if (s.l1btb.findEntry ⟨ftPC, tid⟩).isNone && (s.pBuffer.findEntry ⟨ftPC, tid⟩).isNone &&
            (s.l2btb.findEntry ⟨ftPC, tid⟩).isSome then s.count .callFallThroughL2Only
        else s
    else s

/-- The bits of an L1 entry filled from `src` by a pBuffer or an L2 hit. -/
def promoteBits (p : Params) (src e : BTBEntry) : BTBEntry :=
  if p.cleanBitsOnL1Promotion then e.setPrefetchBits false false
  else e.setPrefetchBits src.prefetchTarget src.prefetchThrough

def handleL1Hit (s : State p) (tid : ThreadID) (instPC : Addr) (l : Loc p.l1btb.shape)
    (type : BranchType) (basePrediction : Bool) : State p × BTBLookupResult :=
  let hit := s.l1btb.get l
  let s := s.count .l1Hits
  let s := if hit.prefetched then s.count (.prefetchHits hit.prefetchTriggerType) else s
  -- only the first reuse of an entry that came from the buffer is counted
  let touched := if hit.prefetched then { hit with prefetched := false }
    else { hit with fromPBuffer := false }
  let s := { s with l1btb := s.l1btb.set l touched }
  let s := s.tryInitialTrigger tid instPC type hit.targetAddr hit.prefetchTarget
    hit.prefetchThrough basePrediction .l1Hit 0 true false
  (s, { target := hit.target, latency := p.l1Latency, l1Hit := true, pBufferHit := false
        l2Hit := false, l3Hit := false, prefetchHit := hit.prefetched, predMatch := false
        taken := hit.getDir, prefetchTriggerType := hit.prefetchTriggerType })

def isInFlight (e : BTBEntry) : Bool :=
  !p.noPrefetchLatency && decide (0 < e.timestamp) && decide (s.curCycle < e.timestamp)

def prefetchTiming (e : BTBEntry) : Except Fault (Cycles × Cycles) :=
  if s.isInFlight e then
    let remainingTime := e.timestamp - s.curCycle
    let totalLatency := if e.prefetchedFromL3 then p.l3Latency else p.l2Latency
    if remainingTime ≤ totalLatency then .ok (remainingTime, totalLatency - remainingTime)
    else .error .cyclesUnderflow
  else .ok (0, 0)

def countPrefetchHit (e : BTBEntry) (coveredCycle : Cycles) : Except Fault (State p) :=
  let s := s.count (.prefetchHits e.prefetchTriggerType)
  let s := if p.usesPrefetchBitPolicy then
    if e.takenPrefetched then s.count (.prefetchHitsFromTaken e.prefetchTriggerType)
    else s.count (.prefetchHitsFromNotTaken e.prefetchTriggerType) else s
  let bucket := if s.isInFlight e then coveredCycle else 4
  if bucket < 5 then
    .ok (s.count (if e.triggeredByPBHit then .latePrefetchByPBHit bucket
      else .latePrefetchByL2Hit bucket))
  else .error .latePrefetchBucket

def consumePrefetch (l : Loc p.pBuffer.shape) (coveredCycle : Cycles) : Except Fault (State p) :=
  let hit := s.pBuffer.get l
  if hit.prefetched then do
    let s ← s.countPrefetchHit hit coveredCycle
    let used :=
      { hit with prefetched := false, takenPrefetched := false, triggeredByPBHit := false }
    return { s with pBuffer := s.pBuffer.set l used }
  else .ok s

def triggerMarkov (instPC : Addr) (triggeredByPBHit : Bool) (baseLatency : Cycles)
    (type : BranchType) : Except Fault (State p) :=
  if p.limitedMarkov then
    prefetchMarkovSuccessor false 1 triggeredByPBHit tid p.prefetchDepth s instPC baseLatency type
  else .ok s

/-- Copy `src` into the L1 way freed for the branch. -/
def fillL1 (instPC : Addr) (src : BTBEntry) : Except Fault (Loc p.l1btb.shape × State p) := do
  let (way, s) ← s.freeUpL1Entry tid instPC
  let s ← { s with l1btb := s.l1btb.modify way (fun e => e.updateFrom src) }.l1CompressedTagSync
    instPC tid .insert
  return (way, s)

def installPromoted (way : Loc p.l1btb.shape) (hit : BTBEntry) : State p :=
  let complete := fun e : BTBEntry =>
    promoteBits p hit { e with predTaken := hit.predTaken, prefetched := false }
  ({ s with l1btb := s.l1btb.modify way complete }.count .l1Installed).count .pbHits

/-- The promoted entry leaves the buffer. -/
def dropFromPBuffer (instPC : Addr) (l : Loc p.pBuffer.shape) : Except Fault (State p) :=
  { s with pBuffer := s.pBuffer.invalidate l }.pbCompressedTagSync instPC tid .invalidate

def handlePBufferHit (instPC : Addr) (l : Loc p.pBuffer.shape) (type : BranchType)
    (basePrediction : Bool) : Except Fault (State p × BTBLookupResult) := do
  let hit := s.pBuffer.get l
  let (remainingTime, coveredCycle) ← s.prefetchTiming hit
  let s ← s.consumePrefetch l coveredCycle
  let (way, s) ← s.fillL1 tid instPC hit
  let s := (s.installPromoted way hit).countCallFallThrough tid instPC type
  let s := s.tryInitialTrigger tid instPC type hit.targetAddr hit.prefetchTarget
    hit.prefetchThrough basePrediction .pbHit remainingTime
    (!s.isInFlight hit || decide (0 < coveredCycle)) true
  let s ← s.dropFromPBuffer tid instPC l
  let s ← s.triggerMarkov tid instPC true remainingTime type
  return (s, { target := (s.l1btb.get way).target, latency := remainingTime, l1Hit := false
               pBufferHit := true, l2Hit := false, l3Hit := false, prefetchHit := true
               predMatch := false, taken := (s.l1btb.get way).getDir
               prefetchTriggerType := hit.prefetchTriggerType })

/-- The migrated L2 entry stays, touched once more, or it leaves L2. -/
def releaseL2 (l : Loc p.l2btb.shape) : State p :=
  { s with l2btb := if p.nonexclusive then s.l2btb.accessEntry s.curTick l
    else s.l2btb.invalidate l }

def releaseL3 (l : Loc p.l3btb.shape) : State p :=
  { s with l3btb := if p.nonexclusive then s.l3btb.accessEntry s.curTick l
    else s.l3btb.invalidate l }

def setPromotedBits (way : Loc p.l1btb.shape) (src : BTBEntry) : State p :=
  { s with l1btb := s.l1btb.modify way (promoteBits p src) }

def handleL2Hit (s : State p) (tid : ThreadID) (instPC : Addr) (l : Loc p.l2btb.shape)
    (type : BranchType) (taken : Bool) : Except Fault (State p × BTBLookupResult) := do
  let s := (s.count .l1MissL2Hits).countCallFallThrough tid instPC type
  -- freeing the L1 way may overwrite the L2 entry, so it is copied first
  let snapshot := s.l2btb.get l
  let (way, s) ← (s.releaseL2 l).fillL1 tid instPC snapshot
  let s := s.setPromotedBits way snapshot
  let s ← s.triggerMarkov tid instPC false p.l2Latency type
  let s := s.tryInitialTrigger tid instPC type snapshot.targetAddr snapshot.prefetchTarget
    snapshot.prefetchThrough taken .l2Hit p.l2Latency false true
  return (s, { target := (s.l1btb.get way).target, latency := p.l2Latency, l1Hit := false
               pBufferHit := false, l2Hit := true, l3Hit := false, prefetchHit := false
               predMatch := false, taken := (s.l1btb.get way).getDir
               prefetchTriggerType := .noBranch })

/-- `handleL3Hit`: as for L2, but the bits stay as the copy left them. -/
def handleL3Hit (s : State p) (tid : ThreadID) (instPC : Addr) (l : Loc p.l3btb.shape)
    (type : BranchType) (taken : Bool) : Except Fault (State p × BTBLookupResult) := do
  let s := s.count .l3Hits
  let snapshot := s.l3btb.get l
  let (way, s) ← (s.releaseL3 l).fillL1 tid instPC snapshot
  let s := s.tryInitialTrigger tid instPC type snapshot.targetAddr snapshot.prefetchTarget
    snapshot.prefetchThrough taken .l3Hit p.l3Latency false true
  return (s, { target := (s.l1btb.get way).target, latency := p.l3Latency, l1Hit := false
               pBufferHit := false, l2Hit := false, l3Hit := true, prefetchHit := false
               predMatch := false, taken := (s.l1btb.get way).getDir
               prefetchTriggerType := .noBranch })

def beginLookup (instPC : Addr) (type : BranchType) (blockStartAddr : Addr) : State p :=
  ((s.recordDemandLookup instPC).count (.lookups type)).trainPrevBlock tid blockStartAddr

def lookupBelowL1 (instPC : Addr) (type : BranchType) (taken : Bool) (blockStartAddr : Addr)
    (basePrediction : Bool) : Except Fault (State p × BTBLookupResult) :=
  let key : KeyType := ⟨instPC, tid⟩
  let (pbEntry, pb) := if p.probesPBuffer then s.pBuffer.accessKey s.curTick key
    else (none, s.pBuffer)
  match pbEntry with
  | some l =>
    ({ s with pBuffer := pb }.recordBlock tid instPC blockStartAddr (pb.get l).targetAddr)
      |>.handlePBufferHit tid instPC l type basePrediction
  | none =>
    let (l2Entry, l2) := s.l2btb.accessKey s.curTick key
    match l2Entry with
    | some l =>
      ({ s with l2btb := l2 }.recordBTBAccess .l2 .normalL2Hit)
        |>.recordBlock tid instPC blockStartAddr (l2.get l).targetAddr
        |>.handleL2Hit tid instPC l type taken
    | none =>
      let (l3Entry, l3) := if p.enableL3 then s.l3btb.accessKey s.curTick key
        else (none, s.l3btb)
      match l3Entry with
      | some l =>
        ({ s with l3btb := l3 }.recordBlock tid instPC blockStartAddr (l3.get l).targetAddr)
          |>.handleL3Hit tid instPC l type taken
      | none => .error .lookupPanic

def lookupWithLatency (instPC : Addr) (type : BranchType) (taken : Bool) (blockStartAddr : Addr)
    (basePrediction : Bool) : Except Fault (State p × BTBLookupResult) := do
  let s := s.beginLookup tid instPC type blockStartAddr
  let (l1Entry, l1) := s.l1btb.accessKey s.curTick ⟨instPC, tid⟩
  let s ← { s with l1btb := l1 }.l1CompressedTagSync instPC tid .hit
  match l1Entry with
  | some l =>
    let s := s.recordBlock tid instPC blockStartAddr (s.l1btb.get l).targetAddr
    return s.handleL1Hit tid instPC l type basePrediction
  | none => s.lookupBelowL1 tid instPC type taken blockStartAddr basePrediction

end State

end BTBFerret
