import BTBFerret.DemandPaths

/-!
# Operations and runs

Besides the calls of the branch predictor unit an operation may be the queue event, a change of the
block map or the passing of time. A run stops at the first fault, so in every run that returns a
state all lookups were for branches present in the BTB.
-/

namespace BTBFerret

open ReplacementPolicy AssociativeCache FallibleRuns List

inductive Op where
  | update (tid : ThreadID) (instPC : Addr) (target : PCState) (type : BranchType)
      (inst : Option StaticInst)
  | lookup (tid : ThreadID) (instPC : Addr) (type : BranchType) (taken : Bool)
      (blockStartAddr : Addr) (basePrediction : Bool)
  | trainMarkovOnCommit (pc : Addr) (wasL2Hit : Bool)
  | trainPrefetchBitsOnCommit (tid : ThreadID) (pc : Addr) (actuallyTaken : Bool)
  | processDeferredPrefetchQueue
  | memInvalidate
  | lookupL1 (tid : ThreadID) (instPC : Addr)
  | updateDirection (tid : ThreadID) (instPC : Addr) (taken : Bool)
  | setBBMap (map : BBMap)
  | advance (ticks : Tick) (cycles : Cycles)

/-! ## A small configuration

One set in every level, whole addresses as tags and no mirroring in L3; the
other flags have their defaults. Concrete runs are evaluated in it. -/

def BTBLevel.small (ways : Nat) (h : 0 < ways) : BTBLevel := ⟨0, by omega, ways, h, 0, 64, 0, lru⟩

def BTBLevel.firstWay (v : BTBLevel) : Loc v.shape := (⟨0, Nat.two_pow_pos _⟩, ⟨0, v.assoc_pos⟩)

def Params.small : Params where
  l1btb := .small 1 (by omega)
  pBuffer := .small 8 (by omega)
  l2btb := .small 2 (by omega)
  l3btb := .small 2 (by omega)
  l1CompressedTags := .small 1 (by omega)
  pbCompressedTags := .small 8 (by omega)
  markov := ⟨0, by omega, 4, by omega, lru⟩
  l1Latency := 0
  l2Latency := 3
  l3Latency := 3
  enableL3 := false
  minInstSize := 4
  trainBitsOnLookup := false
  trainBitsOnCommit := false
  prefetchOnPrefetchHit := false
  cleanBitsOnL1Promotion := false
  noPrefetchLatency := false
  prefetchDepth := 1
  maxChainTrackerEntries := 4
  depthOnlyCall := false
  limitRet := false
  nonexclusive := false
  newPBits := false
  onlyCall := false
  onlyCallAndBackward := false
  callFallthrough := true
  forwardLoopExit := false
  backwardLoopExit := true
  allConditional := true
  prefetchFwExitOnL1Hit := false
  useCompressedTagFilter := false
  indirectAltBit := false
  limitedMarkov := false
  markovOnlyMisses := false
  maxMarkovSuccessors := 4
  sortByFrequency := fun l => l.mergeSort (fun a b => b.2 ≤ a.2)
  sortByFrequency_perm := fun l => mergeSort_perm l _
  sortByFrequency_sorted := fun l => by
    have h := @pairwise_mergeSort (Addr × Nat) (fun a b => decide (b.2 ≤ a.2))
      (by intro a b c; simp; omega) (by intro a b; simp; omega) l
    simpa using h

def Op.resolve (pc target : Addr) : Op := .update 0 pc (PCState.ofAddr target) .directUncond none

def Op.predict (pc : Addr) : Op := .lookup 0 pc .directUncond true 0 true

/-- Time passes. -/
def Op.wait : Op := .advance 1 10

def markovOn : Params := { Params.small with limitedMarkov := true }

/-- Branch 20 moves to L2. -/
def movedToL2 : List Op := [.resolve 20 101, .wait, .resolve 10 100, .wait]

def broughtBack : List Op := movedToL2 ++ [.predict 20]

/-- Branch 20 moves to L2 and then, as the successor of branch 10, into the buffer. -/
def bufferFilled : List Op :=
  [.wait, .resolve 20 101, .wait, .resolve 10 100, .trainMarkovOnCommit 10 false,
    .trainMarkovOnCommit 0 false, .trainMarkovOnCommit 0 false, .trainMarkovOnCommit 0 false,
    .trainMarkovOnCommit 20 false, .wait, .resolve 30 100, .wait, .predict 10, .wait]

namespace State

variable {p : Params}

def step (s : State p) : Op → Except Fault (State p)
  | .update tid instPC target type inst => s.update tid instPC target type inst
  | .lookup tid instPC type taken blockStartAddr basePrediction =>
    Prod.fst <$> s.lookupWithLatency tid instPC type taken blockStartAddr basePrediction
  | .trainMarkovOnCommit pc wasL2Hit => s.trainMarkovOnCommit pc wasL2Hit
  | .trainPrefetchBitsOnCommit tid pc actuallyTaken =>
    .ok (s.trainPrefetchBitsOnCommit tid pc actuallyTaken)
  | .processDeferredPrefetchQueue => s.processDeferredPrefetchQueue
  | .memInvalidate => .ok s.memInvalidate
  | .lookupL1 tid instPC => .ok (s.lookupL1 tid instPC).1
  | .updateDirection tid instPC taken => .ok (s.updateDirection tid instPC taken)
  | .setBBMap map => .ok { s with bbMap := some map }
  | .advance ticks cycles =>
    .ok { s with curTick := s.curTick + ticks, curCycle := s.curCycle + cycles }

def Reached (bw : PrevBrInfo) (ops : List Op) (s : State p) : Prop :=
  run step (State.init p bw) ops = .ok s

lemma exists_run (p : Params) (ops : List Op) (test : State p → Bool)
    (h : holdsAt (run step (State.init p ⟨false, false⟩) ops) test = true) :
    ∃ s, run step (State.init p ⟨false, false⟩) ops = .ok s ∧ test s = true :=
  exists_of_holdsAt _ _ h

end State

def Op.stored (tid : ThreadID) (instPC : Addr) : Op → Option (PCState × Option StaticInst)
  | .update tid' instPC' target _ inst =>
    if tid' = tid ∧ instPC' = instPC then some (target, inst) else none
  | _ => none

/-- The arguments of the most recent update of a branch. -/
def lastUpdate (tid : ThreadID) (instPC : Addr) (ops : List Op) :
    Option (PCState × Option StaticInst) :=
  ops.reverse.findSome? (Op.stored tid instPC)

lemma lastUpdate_append (tid : ThreadID) (instPC : Addr) (ops : List Op) (o : Op) :
    lastUpdate tid instPC (ops ++ [o]) = (o.stored tid instPC).or (lastUpdate tid instPC ops) := by
  unfold lastUpdate
  rw [reverse_append, reverse_singleton, singleton_append, findSome?_cons]
  cases o.stored tid instPC with
  | none | some => rfl

end BTBFerret
