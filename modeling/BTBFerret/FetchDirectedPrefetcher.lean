import BTBFerret.FetchTargetQueue

/-!
# The fetch-directed prefetcher

`fdp.cc`: every fetch target that enters the queue is announced to the prefetcher, which translates
the addresses of its blocks and queues prefetches for them. A block is skipped if one of the queues
has a request for it, searched with `std::find`, whose comparison takes the address as an `int`.
-/

namespace BTBFerret

open ReplacementPolicy

namespace Prefetcher

open BitVec

/-- `blkSize` is an `unsigned` number of bytes. -/
structure PrefetcherParams where
  blkSize : BitVec 32
  blkSize_pos : 0 < blkSize.toNat
  squashPrefetches : Bool
  latency : Tick
  pfqSize : Nat
  tqSize : Nat
  cacheSnoop : Bool
  cacheSet : Bool

/-- A request; the identity stands for its place in memory. Without a time it is never ready. -/
structure PrefetchRequest where
  id : Nat
  addr : Addr
  ftn : FTSeqNum
  pkt : Bool
  readyTime : Option Tick
  canceled : Bool
  deriving DecidableEq

/-- How a translation ends; `inCache` also covers the miss queue. -/
structure Translation where
  failed : Bool
  uncacheable : Bool
  inCache : Bool
  curTick : Tick

/-- `assert(it != translationq.end())` in `translationComplete`. -/
inductive PrefetcherFault where
  | notInTranslation

/-- For the specification only: the blocks skipped as already queued, with the addresses in the
queues at that time, the blocks that `tqDrops` counts and the requests whose translation has
finished. -/
structure FetchDirectedPrefetcher where
  pfq : List PrefetchRequest
  translationq : List PrefetchRequest
  nextRequest : Nat
  skipped : List (Addr × List Addr)
  tqDrops : List Addr
  finished : List Nat

namespace PrefetchRequest

/-- `operator==(const int &a)`: the `int` is widened to the type of the address. -/
def eqInt (r : PrefetchRequest) (a : BitVec 32) : Bool := r.addr == a.signExtend 64

/-- `std::find` narrows the block address to the `int` of the comparison. -/
def found (q : List PrefetchRequest) (blkAddr : Addr) : Bool :=
  q.any fun r => r.eqInt (blkAddr.truncate 32)

def create (id : Nat) (addr : Addr) (ftn : FTSeqNum) : PrefetchRequest :=
  ⟨id, addr, ftn, false, none, false⟩

def createPkt (r : PrefetchRequest) (readyTime : Tick) : PrefetchRequest :=
  { r with pkt := true, readyTime := some readyTime }

def markCanceled (r : PrefetchRequest) : PrefetchRequest := { r with canceled := true }

end PrefetchRequest

def blockAddress (p : PrefetcherParams) (a : Addr) : Addr := a &&& ~~~(p.blkSize.setWidth 64 - 1)

/-- The loop of `notifyFTQInsert` goes on for this block. -/
def visits (p : PrefetcherParams) (endBlkAddr blkAddr : Addr) : Bool :=
  blkAddr ≤ endBlkAddr && !((2 * p.blkSize).setWidth 64 < endBlkAddr - blkAddr)

lemma le_of_visits {p : PrefetcherParams} {e b : Addr} (h : visits p e b = true) : b ≤ e := by
  unfold visits at h
  exact of_decide_eq_true (Bool.and_eq_true_iff.mp h).1

/-- A block that wraps around is not visited, so the loop only goes up. -/
lemma visits_next {p : PrefetcherParams} {e b : Addr} (h : visits p e b = true)
    (hnext : visits p e (b + p.blkSize.setWidth 64) = true) :
    b < b + p.blkSize.setWidth 64 := by
  have hpos := p.blkSize_pos
  have hlt := p.blkSize.isLt
  have htwo := (2 * p.blkSize).isLt
  unfold visits at h hnext
  simp only [Bool.and_eq_true, decide_eq_true_eq, Bool.not_eq_true', decide_eq_false_iff_not,
    le_def, lt_def, toNat_sub, toNat_add, toNat_setWidth]
    at h hnext ⊢
  generalize (2 * p.blkSize).toNat = twice at *
  have hb := b.isLt
  have he := e.isLt
  omega

namespace FetchDirectedPrefetcher

variable (p : PrefetcherParams)

def init : FetchDirectedPrefetcher := ⟨[], [], 0, [], [], []⟩

variable (s : FetchDirectedPrefetcher)

def queued : List Addr :=
  (s.pfq ++ s.translationq).map PrefetchRequest.addr

/-- A request whose translation succeeded moves to the prefetch queue, unless it is dropped. -/
def enqueue (r : PrefetchRequest) (t : Translation) : FetchDirectedPrefetcher :=
  if t.failed || r.canceled || t.uncacheable || (p.cacheSnoop && p.cacheSet && t.inCache) then s
  else if s.pfq.length < p.pfqSize then
    { s with pfq := s.pfq ++ [r.createPkt (t.curTick + p.latency)] }
  else s

def translationComplete (id : Nat) (t : Translation) :
    Except PrefetcherFault FetchDirectedPrefetcher :=
  match s.translationq.find? (fun r => r.id == id) with
  | none => .error .notInTranslation
  | some r =>
    let s := s.enqueue p r t
    .ok { s with
      translationq := s.translationq.eraseP fun r => r.id == id
      finished := s.finished ++ [id] }

def skip (blkAddr : Addr) : FetchDirectedPrefetcher :=
  { s with skipped := s.skipped ++ [(blkAddr, s.queued)] }

/-- The body of the loop. The MMU may finish the translation at once or later. -/
def notifyBlock (s : FetchDirectedPrefetcher) (ft : FetchTarget) (now : Option Translation)
    (blkAddr : Addr) : Except PrefetcherFault FetchDirectedPrefetcher :=
  if PrefetchRequest.found s.pfq blkAddr then .ok (s.skip blkAddr)
  else if PrefetchRequest.found s.translationq blkAddr then .ok (s.skip blkAddr)
  else if p.tqSize ≤ s.translationq.length then
    .ok { s with tqDrops := s.tqDrops ++ [blkAddr] }
  else
    let s' := { s with
      translationq := s.translationq ++ [.create s.nextRequest blkAddr ft.ftNum]
      nextRequest := s.nextRequest + 1 }
    match now with
    | some t => s'.translationComplete p s.nextRequest t
    | none => .ok s'

/-- The loop of `notifyFTQInsert`. -/
def notifyBlocks (ft : FetchTarget) (now : Addr → Option Translation) (endBlkAddr : Addr)
    (s : FetchDirectedPrefetcher) (blkAddr : Addr) :
    Except PrefetcherFault FetchDirectedPrefetcher :=
  if visits p endBlkAddr blkAddr then do
    let s ← s.notifyBlock p ft (now blkAddr) blkAddr
    notifyBlocks ft now endBlkAddr s (blkAddr + p.blkSize.setWidth 64)
  else .ok s
termination_by if visits p endBlkAddr blkAddr then endBlkAddr.toNat + 1 - blkAddr.toNat else 0
decreasing_by
  rename_i h
  have hle := le_def.mp (le_of_visits h)
  rw [if_pos h]
  split
  · rename_i hnext
    have hup := lt_def.mp (visits_next h hnext)
    omega
  · omega

def notifyFTQInsert (s : FetchDirectedPrefetcher) (ft : FetchTarget)
    (now : Addr → Option Translation) : Except PrefetcherFault FetchDirectedPrefetcher :=
  s.notifyBlocks p ft now (blockAddress p ft.endAddress) (blockAddress p ft.startAddress)

def notifyFTQRemove (ft : FetchTarget) : FetchDirectedPrefetcher :=
  if !p.squashPrefetches then s
  else { s with
    translationq := s.translationq.map fun r => if r.ftn = ft.ftNum then r.markCanceled else r
    pfq := s.pfq.filter fun r => r.ftn ≠ ft.ftNum }

def getPacket : FetchDirectedPrefetcher × Option PrefetchRequest :=
  ({ s with pfq := s.pfq.tail }, s.pfq.head?)

inductive Op where
  | notifyFTQInsert (ft : FetchTarget) (now : Addr → Option Translation)
  | notifyFTQRemove (ft : FetchTarget)
  | translationComplete (id : Nat) (t : Translation)
  | getPacket

def step : Op → Except PrefetcherFault FetchDirectedPrefetcher
  | .notifyFTQInsert ft now => s.notifyFTQInsert p ft now
  | .notifyFTQRemove ft => .ok (s.notifyFTQRemove p ft)
  | .translationComplete id t => s.translationComplete p id t
  | .getPacket => .ok s.getPacket.1

end FetchDirectedPrefetcher

end Prefetcher

end BTBFerret
