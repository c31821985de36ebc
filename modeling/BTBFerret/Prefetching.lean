import BTBFerret.MultiLevelBTB

/-!
# Prefetching into the prefetch buffer

Two prefetchers fill the buffer. The Markov prefetcher issues directly from a
lookup. The prefetch-bit prefetcher finds the next branch through the block
map, stages it in the deferred queue ordered by issue time and issues it from
the queue event, where a table of active chains bounds how far a chain runs.
-/

namespace BTBFerret

open AssociativeCache

namespace State

variable {p : Params}

/-! ## The compressed tag filters -/

variable (s : State p)

def countFilterCheck (approx exact : Option BTBEntry) : State p :=
  let s := s.count .compressedTagChecks
  let s := if approx.isSome && !exact.isSome then s.count .compressedTagFalsePositives
    else if !approx.isSome && exact.isSome then s.count .compressedTagFalseNegatives else s
  match approx, exact with
  | some c, some f => if c.branchAddr = f.branchAddr then s else s.count .compressedTagAliases
  | _, _ => s

def l1ApproxContains (pc : Addr) (tid : ThreadID) : State p × Bool :=
  if !p.useCompressedTagFilter then (s, (s.l1btb.findEntry ⟨pc, tid⟩).isSome)
  else
    let approx := s.l1CompressedTags.findEntry ⟨pc, tid⟩
    let exact := s.l1btb.findEntry ⟨pc, tid⟩
    (s.countFilterCheck (approx.map s.l1CompressedTags.get) (exact.map s.l1btb.get), approx.isSome)

def pbApproxContains (pc : Addr) (tid : ThreadID) : State p × Bool :=
  if !p.useCompressedTagFilter then (s, (s.pBuffer.findEntry ⟨pc, tid⟩).isSome)
  else
    let approx := s.pbCompressedTags.findEntry ⟨pc, tid⟩
    let exact := s.pBuffer.findEntry ⟨pc, tid⟩
    (s.countFilterCheck (approx.map s.pbCompressedTags.get) (exact.map s.pBuffer.get),
      approx.isSome)

/-- Both filters, the second only when the first one misses. -/
def approxContains (pc : Addr) (tid : ThreadID) : State p × Bool :=
  let (s, inL1) := s.l1ApproxContains pc tid
  if inL1 then (s, true) else s.pbApproxContains pc tid

def l1CompressedTagSync (pc : Addr) (tid : ThreadID) (action : TagAction) :
    Except Fault (State p) :=
  if !p.useCompressedTagFilter then .ok s
  else match action with
  | .hit => .ok { s with l1CompressedTags := (s.l1CompressedTags.accessKey s.curTick ⟨pc, tid⟩).2 }
  | .insert =>
    match s.l1CompressedTags.findEntry ⟨pc, tid⟩ with
    | some l => .ok { s with l1CompressedTags := s.l1CompressedTags.accessEntry s.curTick l }
    | none => do
      let (l, tags) := s.l1CompressedTags.findVictim ⟨pc, tid⟩ true
      let tags ← tags.insertEntry Fault.setValid s.curTick ⟨pc, tid⟩ l
      return { s with l1CompressedTags := tags }
  | .invalidate => .ok s

def pbCompressedTagSync (pc : Addr) (tid : ThreadID) (action : TagAction) :
    Except Fault (State p) :=
  if !p.useCompressedTagFilter then .ok s
  else match action with
  | .hit => .ok s
  | .insert => do
    let (l, tags) := s.pbCompressedTags.findVictim ⟨pc, tid⟩ true
    let tags ← tags.insertEntry Fault.setValid s.curTick ⟨pc, tid⟩ l
    return { s with pbCompressedTags := tags }
  | .invalidate =>
    match s.pbCompressedTags.findEntry ⟨pc, tid⟩ with
    | some l => .ok { s with pbCompressedTags := s.pbCompressedTags.invalidate l }
    | none => .ok s

/-! ## Filling the prefetch buffer -/

def prefetchedEntry (p : Params) (src : BTBEntry) (arrivalCycle : Cycles)
    (triggeredByPBHit : Bool) (pfDistance : Nat) (takenPrefetched : Bool)
    (triggerType : BranchType) (fromL3 : Bool) (victim : BTBEntry) : BTBEntry :=
  { victim with
    target := src.target
    inst := src.inst
    dir := src.dir
    timestamp := arrivalCycle
    prefetched := true
    triggeredByPBHit := triggeredByPBHit
    prefetchedFromL3 := fromL3
    prefetchTarget := src.prefetchTarget
    prefetchThrough := src.prefetchThrough
    prefetchDistance := pfDistance
    prefetchTriggerType := triggerType
    takenPrefetched :=
      if p.usesPrefetchBitPolicy && takenPrefetched then true else victim.takenPrefetched }

def countPrefetch (takenPrefetched : Bool) : State p :=
  let s := ((s.count .pfIssued).count .totalPrefetches).recordBTBAccess .l2 .prefetch
  if p.usesPrefetchBitPolicy then
    if takenPrefetched then s.count .takenPathPrefetches else s.count .notTakenPathPrefetches
  else s

/-- Replace a way of the buffer by a copy of `src`. -/
def insertPrefetch (pc : Addr) (tid : ThreadID) (copy : BTBEntry → BTBEntry) :
    Except Fault (State p) := do
  -- the victim's flag survives the invalidation and is inspected after it
  let (victim, pb) := s.pBuffer.findVictim ⟨pc, tid⟩ true
  let s := if (pb.get victim).prefetched then
    s.count (.uselessPrefetches (pb.get victim).prefetchTriggerType) else s
  let pb ← pb.insertEntry Fault.setValid s.curTick ⟨pc, tid⟩ victim
  let s ← { s with pBuffer := pb }.pbCompressedTagSync pc tid .insert
  return { s with pBuffer := s.pBuffer.modify victim copy }

/-- `enqueuePrefetch` of the entry `src` found in L2 or L3. The parameter `toL1`
of the source is not used there and is left out. -/
def enqueuePrefetch (pc : Addr) (tid : ThreadID) (src : BTBEntry) (arrivalCycle : Cycles)
    (triggeredByPBHit : Bool) (pfDistance : Nat) (takenPrefetched : Bool) (triggerType : BranchType)
    (fromL3 : Bool) : Except Fault (State p) :=
  let (s, present) := s.approxContains pc tid
  if present then .ok s
  else (s.countPrefetch takenPrefetched).insertPrefetch pc tid (prefetchedEntry p src arrivalCycle
    triggeredByPBHit pfDistance takenPrefetched triggerType fromL3)

/-! ## The Markov prefetcher -/

def branchTypeOf (inst : Option StaticInst) : Except Fault BranchType :=
  match inst with
  | some i => .ok (getBranchType i)
  | none => .error .nullInst

/-- How the successors of a successor are prefetched. -/
abbrev Chase (p : Params) := State p → Addr → Cycles → BranchType → Except Fault (State p)

/-- Follow a prefetched successor if the depth allows it. -/
def chaseSuccessor
    (chase : Option (Chase p))
    (s : State p) (successor : Addr) (src : BTBEntry) (arrival : Cycles) : Except Fault (State p) :=
  match chase with
  | none => .ok s
  | some chase => do
    let nextTriggerType ← branchTypeOf src.inst
    chase s successor (if s.curCycle < arrival then arrival - s.curCycle else 0) nextTriggerType

/-- The loop over the successors. `chase` prefetches the successors of a
successor, as the source does by recursion while the depth allows it. -/
def prefetchSuccessors
    (chase : Option (Chase p))
    (tid : ThreadID) (toL1 : Bool) (numSuccessors : Nat) (triggeredByPBHit : Bool)
    (triggerType : BranchType) :
    List (Addr × Nat) → Nat → Cycles → State p → Except Fault (State p)
  | [], _, _, s => .ok s
  | (successor, _) :: rest, prefetched, arrival, s =>
    let continue_ := prefetchSuccessors chase tid toL1 numSuccessors triggeredByPBHit
      triggerType rest
    if numSuccessors ≤ prefetched then .ok s
    else if successor = 0 then continue_ prefetched arrival s
    else
      let (s, inL1) := s.l1ApproxContains successor tid
      if inL1 then continue_ prefetched (arrival + 1) s
      else match s.l2btb.findEntry ⟨successor, tid⟩ with
      | none => continue_ prefetched arrival (s.count .pfL2LookupMiss)
      | some l =>
        let src := s.l2btb.get l
        let s := s.count .pfL2LookupHit
        let (s, inPB) := if toL1 then (s, false) else s.pbApproxContains successor tid
        if inPB then continue_ prefetched (arrival + 1) s
        else do
          let s ← s.enqueuePrefetch successor tid src arrival triggeredByPBHit 0 false
            triggerType false
          let s ← chaseSuccessor chase s successor src arrival
          continue_ (prefetched + 1) (arrival + 1) s

/-- `prefetchMarkovSuccessor`, which its callers reach with `limitedMarkov` only.
The recursion runs while the depth is larger than two. -/
def prefetchMarkovSuccessor (toL1 : Bool) (numSuccessors : Nat) (triggeredByPBHit : Bool)
    (tid : ThreadID) : Nat → State p → Addr → Cycles → BranchType → Except Fault (State p)
  | depth, s, pc, baseLatency, triggerType =>
    match s.markov.findEntry pc with
    | none => .ok s
    | some l =>
      let s := { s with markov := s.markov.accessEntry s.curTick l }
      let successors := (s.markov.get l).successors
      let s := s.count .mkHits
      let arrival := s.curCycle + p.l2Latency + baseLatency
      match depth with
      | d + 1 =>
        prefetchSuccessors
          (if 2 < d + 1 then
            some (prefetchMarkovSuccessor toL1 numSuccessors triggeredByPBHit tid d) else none)
          tid toL1 numSuccessors triggeredByPBHit triggerType successors 0 arrival s
      | 0 =>
        prefetchSuccessors none tid toL1 numSuccessors triggeredByPBHit triggerType
          successors 0 arrival s

def trainSuccessors (p : Params) (dest : Addr) (successors : List (Addr × Nat)) :
    Except Fault (List (Addr × Nat)) :=
  if successors.any (fun a => a.1 == dest) then
    -- only the first pair of that address is incremented
    .ok (successors.takeWhile (fun a => a.1 != dest) ++
      match successors.dropWhile (fun a => a.1 != dest) with
      | [] => []
      | (a, freq) :: rest => (a, freq + 1) :: rest)
  else
    let kept := if p.maxMarkovSuccessors ≤ successors.length then
      (p.sortByFrequency successors).dropLast else successors
    if kept.length < p.maxMarkovSuccessors then .ok (kept ++ [(dest, 1)])
    else .error .markovSuccessors

def markovEntry (src : Addr) : Except Fault (Loc p.markov.shape × Cache p.markov.shape) :=
  match s.markov.findEntry src with
  | some l => .ok (l, s.markov.accessEntry s.curTick l)
  | none => do
    let (l, markov) := s.markov.findVictim src true
    let markov ← markov.insertEntry Fault.markovSetValid s.curTick src l
    return (l, markov)

def trainMarkovOnCommit (pc : Addr) (wasL2Hit : Bool) : Except Fault (State p) :=
  if !p.limitedMarkov || (p.markovOnlyMisses && !wasL2Hit) then .ok s
  else match s.prevBranches with
  | [] => .ok s
  | (src, _) :: rest => do
    let s := { s with prevBranches := rest ++ [(pc, wasL2Hit)] }
    let (l, markov) ← s.markovEntry src
    let successors ← trainSuccessors p pc (markov.get l).successors
    return { s with markov := markov.modify l (fun e => { e with successors := successors }) }

/-! ## The prefetch-bit prefetcher -/

def trainPrefetchBitsOnCommit (tid : ThreadID) (pc : Addr) (actuallyTaken : Bool) : State p :=
  if !p.trainBitsOnCommit then s
  else match s.l1btb.findEntry ⟨pc, tid⟩ with
  | none => s
  | some l =>
    let train := fun e : BTBEntry =>
      if !p.cleanBitsOnL1Promotion then
        if actuallyTaken then { e with prefetchTarget := true }
        else { e with prefetchThrough := true }
      else e.setPrefetchBits actuallyTaken (!actuallyTaken)
    { s with l1btb := s.l1btb.modify l train }

/-- The bits that remain set after the policy, `(doPfTarget, doPfThrough)`. -/
def applyNewPBitsLogic (type : BranchType) (taken isBackward : Bool) (doPfTarget doPfThrough : Bool)
    (triggerLoc : TriggerLocation) : State p × Bool × Bool :=
  if (triggerLoc == .l1Hit && !p.prefetchFwExitOnL1Hit) ||
      (triggerLoc == .l2Hit && !p.usesPrefetchBitPolicy) ||
      (triggerLoc == .l3Hit && !p.usesPrefetchBitPolicy) ||
      (triggerLoc == .pbHit && !p.prefetchOnPrefetchHit) then (s, false, false)
  else if !p.newPBits then (s, doPfTarget, doPfThrough)
  else
    let isForwardExit := s.prevBwBranch.isBw && doPfTarget && doPfThrough && !taken &&
      s.prevBwBranch.isL1Miss
    if p.forwardLoopExit && isForwardExit then (s.count .pfTriggerFwExit, true, false)
    -- forward exits might have happened on L1 hits
    else if triggerLoc == .l1Hit then (s, false, false)
    else if p.onlyCall && !isCall type then (s, false, false)
    else if p.onlyCallAndBackward && !isCall type &&
        (!isBackward || !doPfTarget || !doPfThrough) then (s, false, false)
    else if p.callFallthrough && isCall type then (s.count .pfTriggerCall, false, true)
    else if p.backwardLoopExit && isBackward && taken && doPfTarget && doPfThrough then
      (s.count .pfTriggerBwExit, false, true)
    else if !p.allConditional then (s, false, false)
    else if doPfTarget && doPfThrough then (s.count .pfTriggerCondAlt, !taken, taken)
    else (s, false, false)

variable (entry : DeferredPrefetchEntry)

/-- Insert before the first entry that is not issued earlier (`std::lower_bound`). -/
def insertDeferred (queue : List DeferredPrefetchEntry) : List DeferredPrefetchEntry :=
  queue.takeWhile (fun a => a.issueTime < entry.issueTime) ++
    entry :: queue.dropWhile (fun a => a.issueTime < entry.issueTime)

def prefetchViaBBMap (tid : ThreadID) (lookupAddr : Addr) (isTakenPath : Bool)
    (triggeredByPBHit : Bool) (depth : Nat) (baseLatency : Cycles) (triggerType : BranchType)
    (chainId : Nat) (allocateChain : Bool) : State p :=
  match s.bbMap.bind (fun map => map lookupAddr) with
  | none => s
  | some pfPC =>
    let inL2 := (s.l2btb.findEntry ⟨pfPC, tid⟩).isSome
    let inL3 := p.enableL3 && (s.l3btb.findEntry ⟨pfPC, tid⟩).isSome
    if !(inL2 || inL3) && allocateChain then s
    else if p.limitRet && triggerType == .return_ then s
    else
      let entry : DeferredPrefetchEntry :=
        { pc := pfPC, tid := tid, issueTime := s.curCycle + (baseLatency + 1), toL1 := false
          triggeredByPBHit := triggeredByPBHit, takenPrefetched := isTakenPath
          triggerType := triggerType, chainId := chainId, allocateChain := allocateChain
          depth := depth }
      { s with deferredPrefetchQueue := insertDeferred entry s.deferredPrefetchQueue }

def tryInitialTrigger (tid : ThreadID) (instPC : Addr) (type : BranchType) (targetAddr : Addr)
    (doPfTarget doPfThrough taken : Bool) (triggerLoc : TriggerLocation) (baseLatency : Cycles)
    (triggeredByPBHit isL1Miss : Bool) : State p :=
  if s.bbMap.isNone then s
  else
    let isBackward : Bool := targetAddr < instPC
    if p.indirectAltBit && p.newPBits && doPfTarget && doPfThrough && isIndirect type then s
    else
      let (s, doPfTarget, doPfThrough) :=
        s.applyNewPBitsLogic type taken isBackward doPfTarget doPfThrough triggerLoc
      let effectiveDepth := if p.depthOnlyCall && !isCall type then 1 else p.prefetchDepth
      let s := { s with prevBwBranch := ⟨isBackward, isL1Miss⟩ }
      if doPfTarget || doPfThrough then
        let currentChainId := s.nextChainId
        let s := { s with nextChainId := s.nextChainId + 1 }
        let s := if doPfTarget then
          s.prefetchViaBBMap tid targetAddr true triggeredByPBHit effectiveDepth baseLatency type
            currentChainId true else s
        let baseLatency := if doPfTarget then baseLatency + 1 else baseLatency
        if doPfThrough then
          s.prefetchViaBBMap tid (p.fallThrough instPC) false triggeredByPBHit effectiveDepth
            baseLatency type currentChainId true
        else s
      else s

/-! ## The deferred queue event -/

def isChainDead (chainId : Nat) : Bool :=
  !s.deferredPrefetchQueue.any (fun entry => entry.chainId == chainId)

variable (i : Fin p.maxChainTrackerEntries)

def setLastEndReason (reason : ChainEndReason) : State p :=
  { s with chainTable := s.chainTable.set i { s.chainTable[i] with lastEndReason := reason } }

def recordChainEnd : State p :=
  let stat := match s.chainTable[i].lastEndReason with
    | .evicted => Stat.chainEndEvicted
    | .demand => .chainEndDemand
    | .presence => .chainEndPresence
    | .l2Miss => .chainEndL2Miss
    | .l3Miss => .chainEndL3Miss
    | .retFilter => .chainEndRetFilter
    | .depthExhaust => .chainEndDepthExhaust
    | .none => .chainEndNonEntry
  (s.count stat).setLastEndReason i .none

/-- The slot changes hands unless the chain already owns it. The sampled
difference is one of unsigned 32-bit numbers. -/
def allocateChainSlot : State p :=
  let oldChain := s.chainTable[i]
  if oldChain.chainId = entry.chainId then s
  else
    let s := if oldChain.chainId = 0 then s
      else
        let s := if s.isChainDead oldChain.chainId || oldChain.remainingPrefetches == 0 then
          s.recordChainEnd i else s.count .chainEndEvicted
        s.count (.prefetchesPerTrigger
          ((entry.depth + 2 ^ 32 - oldChain.remainingPrefetches) % 2 ^ 32))
    { s with chainTable := s.chainTable.set i ⟨entry.chainId, entry.depth, .none⟩ }

def chargeChain : State p × Bool :=
  let remaining := s.chainTable[i].remainingPrefetches - 1
  let s := { s with chainTable :=
    s.chainTable.set i { s.chainTable[i] with remainingPrefetches := remaining } }
  if remaining = 0 then (s.setLastEndReason i .depthExhaust, true) else (s, false)

def stageTarget (targetAddr : Addr) (baseLatency : Cycles) (pfType : BranchType)
    (i : Fin p.maxChainTrackerEntries) : State p :=
  let s := s.prefetchViaBBMap entry.tid targetAddr true entry.triggeredByPBHit 1 baseLatency
    pfType entry.chainId false
  if p.limitRet && pfType == .return_ then s.setLastEndReason i .retFilter else s

def continueChain (s : State p) (entry : DeferredPrefetchEntry) (pfEntry : BTBEntry)
    (arrival : Cycles) (i : Fin p.maxChainTrackerEntries) : Except Fault (State p) :=
  if s.chainTable[i].remainingPrefetches = 0 then .ok s
  else do
    let (s, completedChain) := s.chargeChain i
    let nextBaseLatency := if s.curCycle < arrival then arrival - s.curCycle else 0
    let pfType ← branchTypeOf pfEntry.inst
    let isIndirectAlt := p.indirectAltBit && isIndirect pfType &&
      pfEntry.prefetchTarget && pfEntry.prefetchThrough
    let followTarget := pfEntry.prefetchTarget && !completedChain && !isIndirectAlt
    let followThrough := pfEntry.prefetchThrough && !completedChain && !isIndirectAlt
    let s := if followTarget then
      s.stageTarget entry pfEntry.targetAddr nextBaseLatency pfType i else s
    let nextBaseLatency := if followTarget then nextBaseLatency + 1 else nextBaseLatency
    return if followThrough then
      s.prefetchViaBBMap entry.tid (p.fallThrough entry.pc) false entry.triggeredByPBHit 1
        nextBaseLatency pfType entry.chainId false
    else s

def prefetchSource (pc : Addr) (tid : ThreadID) : Option (BTBEntry × Cycles × Bool) :=
  match s.l2btb.findEntry ⟨pc, tid⟩ with
  | some l => some (s.l2btb.get l, p.l2Latency, false)
  | none =>
    if p.enableL3 then
      (s.l3btb.findEntry ⟨pc, tid⟩).map (fun l => (s.l3btb.get l, p.l3Latency, true))
    else none

def issueDeferred (chainEntry : Option (Fin p.maxChainTrackerEntries)) (pfEntry : BTBEntry)
    (pfLatency : Cycles) (fromL3 : Bool) : Except Fault (State p) := do
  let s := s.count (if fromL3 then .pfL3LookupHit else .pfL2LookupHit)
  let arrival := entry.issueTime + pfLatency
  let s ← s.enqueuePrefetch entry.pc entry.tid pfEntry arrival entry.triggeredByPBHit 0
    entry.takenPrefetched entry.triggerType fromL3
  let slot := if entry.allocateChain then p.chainSlot entry.chainId else none
  let s := match slot with
    | some i => s.allocateChainSlot entry i
    | none => s
  match slot.or chainEntry with
  | some i => s.continueChain entry pfEntry arrival i
  | none => return s

/-- A staged prefetch has found no source. -/
def missDeferred (chainEntry : Option (Fin p.maxChainTrackerEntries)) : State p :=
  let s := s.count (if p.enableL3 then .pfL3LookupMiss else .pfL2LookupMiss)
  match chainEntry with
  | some i =>
    if entry.allocateChain then s
    else s.setLastEndReason i (if p.enableL3 then .l3Miss else .l2Miss)
  | none => s

/-- May the entry be examined? A chain continues only while it owns its slot and
has budget left. -/
def validChain (chainEntry : Option (Fin p.maxChainTrackerEntries)) : Bool :=
  match chainEntry with
  | none => true
  | some i =>
    if s.chainTable[i].chainId ≠ entry.chainId then entry.allocateChain
    else s.chainTable[i].remainingPrefetches != 0

/-- One iteration of the loop of `processDeferredPrefetchQueue`. -/
def processDeferredEntry : Except Fault (State p) :=
  let chainEntry := if entry.chainId = 0 then none else p.chainSlot entry.chainId
  if !s.validChain entry chainEntry then .ok s
  else
    let s := s.count .enqueueDeferred
    if s.isDemandAccess entry.pc then
      let s := s.count .skipDuetoDemand
      if entry.allocateChain then .ok s
      else match chainEntry with
      | some i => .ok (s.setLastEndReason i .demand)
      | none => .error .nullChainEntry
    else
      let (s, hit) := s.approxContains entry.pc entry.tid
      if hit then
        let s := match chainEntry with
          | some i => if entry.allocateChain then s else s.setLastEndReason i .presence
          | none => s
        .ok (s.count .skipDuetoPresence)
      else match s.prefetchSource entry.pc entry.tid with
      | some (pfEntry, pfLatency, fromL3) =>
        s.issueDeferred entry chainEntry pfEntry pfLatency fromL3
      | none => .ok (s.missDeferred entry chainEntry)

def activeChains : List Nat :=
  s.deferredPrefetchQueue.foldl (fun active entry =>
    if entry.chainId ≠ 0 ∧ entry.chainId ∉ active then
      match p.chainSlot entry.chainId with
      | some i =>
        if s.chainTable[i].chainId = entry.chainId then active ++ [entry.chainId] else active
      | none => active ++ [entry.chainId]
    else active) []

/-- The queue event. Its rescheduling is left to the environment. -/
def processDeferredPrefetchQueue : Except Fault (State p) := do
  let s := if s.deferredPrefetchQueue.isEmpty then s
    else s.count (.parallelChains s.activeChains.length)
  let ready := fun entry : DeferredPrefetchEntry =>
    p.noPrefetchLatency || decide (entry.issueTime ≤ s.curCycle)
  let readyEntries := s.deferredPrefetchQueue.takeWhile ready
  let s := { s with deferredPrefetchQueue := s.deferredPrefetchQueue.dropWhile ready }
  let s ← readyEntries.foldlM processDeferredEntry s
  return { s with currentCycleDemand := [] }

end State

end BTBFerret
