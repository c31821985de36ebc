import Mathlib.Data.BitVec
import Mathlib.Data.List.Pairwise

/-!
# Forwarding and ordering violations in the load/store queue

`LSQUnit::read` searches the older stores for the youngest one that overlaps a load, and
`LSQUnit::checkViolations` the younger loads for one that has passed a store. Queues are lists with
the oldest instruction first, and iterators are positions in them.
-/

namespace BTBFerret.LoadStore

open List BitVec

abbrev Addr := BitVec 64

abbrev InstSeqNum := Nat

/-! ## Forwarding -/

structure SQEntry where
  seqNum : InstSeqNum
  effAddr : Addr
  size : Nat
  strictlyOrdered : Bool
  isCacheMaintenance : Bool
  isAtomic : Bool
  isMasked : Bool
  completed : Bool
  isAllZeros : Bool
  data : Nat → BitVec 8

structure LoadRequest where
  seqNum : InstSeqNum
  vaddr : Addr
  size : Nat
  pos : 0 < size
  isLLSC : Bool
  isDataPrefetch : Bool

inductive Coverage where
  | noCoverage
  | partialCoverage
  | fullCoverage

/-- What becomes of a load. -/
inductive Outcome where
  | memoryAccess
  | writeback
  | rescheduled

/-- What the search changes: the load, and the store that the oldest stalled load waits for. -/
structure ReadState where
  memData : Option (List (BitVec 8))
  forwardedFrom : InstSeqNum
  effAddrValid : Bool
  /-- `stallingStoreIsn` and the sequence number of the load at `stallingLoadIdx` -/
  stalled : Option (InstSeqNum × InstSeqNum)

namespace SQEntry

/-- A store that the search looks at. -/
def considered (e : SQEntry) : Bool := e.size != 0 && !e.strictlyOrdered && !e.isCacheMaintenance

def coverage (e : SQEntry) (r : LoadRequest) : Coverage :=
  let reqE := r.vaddr + BitVec.ofNat 64 r.size
  let stE := e.effAddr + BitVec.ofNat 64 e.size
  let storeHasLowerLimit := decide (e.effAddr ≤ r.vaddr)
  let storeHasUpperLimit := decide (reqE ≤ stE)
  let lowerLoadHasStorePart := decide (r.vaddr < stE)
  let upperLoadHasStorePart := decide (e.effAddr < reqE)
  if !e.isAtomic && storeHasLowerLimit && storeHasUpperLimit && !r.isLLSC then
    if e.isMasked then .partialCoverage else .fullCoverage
  else if (!r.isLLSC && ((storeHasLowerLimit && lowerLoadHasStorePart) ||
      (storeHasUpperLimit && upperLoadHasStorePart) ||
      (lowerLoadHasStorePart && upperLoadHasStorePart))) ||
    (r.isLLSC && ((storeHasLowerLimit || upperLoadHasStorePart) &&
      (storeHasUpperLimit || lowerLoadHasStorePart))) ||
    (e.isAtomic && ((storeHasLowerLimit || upperLoadHasStorePart) &&
      (storeHasUpperLimit || lowerLoadHasStorePart))) then .partialCoverage
  else .noCoverage

def copied (e : SQEntry) (r : LoadRequest) : List (BitVec 8) :=
  let shiftAmt := (r.vaddr - e.effAddr).toNat
  if e.isAllZeros then replicate r.size 0
  else (range r.size).map fun i => e.data (shiftAmt + i)

/-- The byte that the store writes to an address of its range. -/
def byteAt (e : SQEntry) (a : Nat) : BitVec 8 :=
  if e.isAllZeros then 0 else e.data (a - e.effAddr.toNat)

/-- The ranges meet. -/
def meets (e : SQEntry) (r : LoadRequest) : Bool :=
  decide (e.effAddr.toNat < r.vaddr.toNat + r.size) &&
    decide (r.vaddr.toNat < e.effAddr.toNat + e.size)

/-- The store has all bytes of the load and may hand them over. -/
def serves (e : SQEntry) (r : LoadRequest) : Bool :=
  decide (e.effAddr.toNat ≤ r.vaddr.toNat) &&
    decide (r.vaddr.toNat + r.size ≤ e.effAddr.toNat + e.size) &&
    !e.isAtomic && !e.isMasked && !r.isLLSC

end SQEntry

/-- The load waits for the store, and is the one to be woken if it is the oldest. -/
def reschedule (l : ReadState) (r : LoadRequest) (e : SQEntry) : ReadState :=
  { l with
    effAddrValid := false
    stalled := if l.stalled.all (fun s => decide (r.seqNum < s.2)) then some (e.seqNum, r.seqNum)
      else l.stalled }

/-- The loop over the older stores, the youngest first. No store that has been written back should
cover a part of the load. -/
def searchStores (l : ReadState) (r : LoadRequest) : List SQEntry → Option (Outcome × ReadState)
  | [] => some (.memoryAccess, l)
  | e :: older =>
    if e.considered then
      match e.coverage r with
      | .fullCoverage =>
        some (.writeback, { l with memData := some (e.copied r), forwardedFrom := e.seqNum })
      | .partialCoverage => if e.completed then none else some (.rescheduled, reschedule l r e)
      | .noCoverage => searchStores l r older
    else searchStores l r older

/-- The stores between `storeWBIt` and the load's `sqIt`, the youngest first. -/
def olderStores (storeQueue : List SQEntry) (storeWBIt sqIt : Nat) : List SQEntry :=
  ((storeQueue.take sqIt).drop storeWBIt).reverse

def read (storeQueue : List SQEntry) (storeWBIt sqIt : Nat) (l : ReadState) (r : LoadRequest) :
    Option (Outcome × ReadState) :=
  searchStores l r (if r.isDataPrefetch then [] else olderStores storeQueue storeWBIt sqIt)

/-- The end of the range is an address. -/
def NoWrap (addr : Addr) (size : Nat) : Prop := addr.toNat + size < 2 ^ 64

lemma NoWrap.toNat_end {addr : Addr} {size : Nat} (h : NoWrap addr size) :
    (addr + BitVec.ofNat 64 size).toNat = addr.toNat + size := by
  unfold NoWrap at h
  rw [toNat_add, toNat_ofNat]
  omega

section

variable {e : SQEntry} {r : LoadRequest}

/-- In all its forms the test says that the ranges meet. -/
lemma coverage_eq (hr : NoWrap r.vaddr r.size) (he : NoWrap e.effAddr e.size) :
    e.coverage r = if e.meets r then if e.serves r then .fullCoverage else .partialCoverage
      else .noCoverage := by
  have hpos := r.pos
  unfold SQEntry.meets SQEntry.serves SQEntry.coverage
  simp only [le_def, lt_def, hr.toNat_end, he.toNat_end]
  generalize r.vaddr.toNat = a
  generalize e.effAddr.toNat = b
  -- the four comparisons are the same for all kinds of loads and stores
  by_cases hlower : b ≤ a <;> by_cases hupper : a + r.size ≤ b + e.size <;>
    by_cases hpart : a < b + e.size <;> by_cases hpart' : b < a + r.size <;>
    first
      | omega
      | cases e.isAtomic <;> cases r.isLLSC <;> cases e.isMasked <;> simp [*]

lemma copied_getElem (hr : NoWrap r.vaddr r.size) (h : e.serves r = true) {i : Nat}
    (hi : i < r.size) : (e.copied r)[i]? = some (e.byteAt (r.vaddr.toNat + i)) := by
  have hlower : e.effAddr.toNat ≤ r.vaddr.toNat := by
    simp only [SQEntry.serves, Bool.and_eq_true, decide_eq_true_eq] at h
    exact h.1.1.1.1
  have hshift : (r.vaddr - e.effAddr).toNat = r.vaddr.toNat - e.effAddr.toNat := by
    unfold NoWrap at hr
    rw [toNat_sub]
    omega
  unfold SQEntry.copied SQEntry.byteAt
  split
  · simp [hi]
  · simp [hi, hshift, Nat.sub_add_comm hlower]

lemma searchStores_eq (l : ReadState) (hr : NoWrap r.vaddr r.size) (stores : List SQEntry)
    (hstores : ∀ e ∈ stores, NoWrap e.effAddr e.size) :
    searchStores l r stores = match stores.find? (fun e => e.considered && e.meets r) with
      | none => some (.memoryAccess, l)
      | some e =>
        if e.serves r then
          some (.writeback, { l with memData := some (e.copied r), forwardedFrom := e.seqNum })
        else if e.completed then none else some (.rescheduled, reschedule l r e) := by
  induction stores with
  | nil => rfl
  | cons e _ ih =>
    have holder := ih fun x hx => hstores x (mem_cons_of_mem e hx)
    rw [find?_cons, searchStores, coverage_eq hr (hstores e mem_cons_self), holder]
    cases e.considered <;> cases e.meets r <;> cases hserves : e.serves r <;> simp [hserves]

/-- A load sees the youngest older store that it meets, and gets its bytes if the store may hand all
of them over; else it has to be tried again. -/
theorem load_sees_youngest_store (storeQueue : List SQEntry) (storeWBIt sqIt : Nat) (l : ReadState)
    (r : LoadRequest) (hprefetch : r.isDataPrefetch = false) (hr : NoWrap r.vaddr r.size)
    (hstores : ∀ e ∈ storeQueue, NoWrap e.effAddr e.size) :
    match (olderStores storeQueue storeWBIt sqIt).find? (fun e => e.considered && e.meets r) with
    | none => read storeQueue storeWBIt sqIt l r = some (.memoryAccess, l)
    | some e => e.completed = false →
      if e.serves r then
        ∃ l' bytes, read storeQueue storeWBIt sqIt l r = some (.writeback, l') ∧
          l'.memData = some bytes ∧ bytes.length = r.size ∧
          (∀ i < r.size, bytes[i]? = some (e.byteAt (r.vaddr.toNat + i))) ∧
          l'.forwardedFrom = e.seqNum
      else
        ∃ l', read storeQueue storeWBIt sqIt l r = some (.rescheduled, l') ∧
          l'.memData = l.memData ∧ l'.forwardedFrom = l.forwardedFrom := by
  have hread : read storeQueue storeWBIt sqIt l r =
      searchStores l r (olderStores storeQueue storeWBIt sqIt) := by simp [read, hprefetch]
  rw [hread, searchStores_eq l hr (olderStores storeQueue storeWBIt sqIt) fun e he =>
    hstores e (mem_of_mem_take (mem_of_mem_drop (mem_reverse.mp he)))]
  cases (olderStores storeQueue storeWBIt sqIt).find? _ with
  | none => rfl
  | some e =>
    intro hpending
    cases hserves : e.serves r with
    | true =>
      have hlength : (e.copied r).length = r.size := by
        unfold SQEntry.copied
        split <;> simp
      simp only [hserves, if_true]
      exact ⟨_, _, rfl, rfl, hlength, fun i hi => copied_getElem hr hserves hi, rfl⟩
    | false =>
      simp only [hserves, hpending, Bool.false_eq_true, if_false]
      exact ⟨_, rfl, rfl, rfl⟩

def smallStore (seqNum : InstSeqNum) (effAddr : Addr) : SQEntry :=
  ⟨seqNum, effAddr, 4, false, false, false, false, false, false,
    fun i => BitVec.ofNat 8 (10 * seqNum + i)⟩

def smallLoad : LoadRequest := ⟨3, 18, 2, Nat.two_pos, false, false⟩

/-- Of two stores that have all bytes of a load the younger one hands them over. -/
theorem load_sees_youngest_store_small :
    ∃ l' bytes, read [smallStore 1 16, smallStore 2 17] 0 2 ⟨none, 0, true, none⟩ smallLoad =
        some (.writeback, l') ∧
      l'.memData = some bytes ∧ bytes.length = 2 ∧
      (∀ i < 2, bytes[i]? = some ((smallStore 2 17).byteAt (18 + i))) ∧ l'.forwardedFrom = 2 := by
  have hwrap : ∀ e ∈ [smallStore 1 16, smallStore 2 17], NoWrap e.effAddr e.size := by
    simp [NoWrap, smallStore]
  exact load_sees_youngest_store _ 0 2 ⟨none, 0, true, none⟩ smallLoad rfl
    (show 18 + 2 < 2 ^ 64 by decide) hwrap rfl

end

/-! ## Ordering violations -/

structure LoadInst where
  seqNum : InstSeqNum
  effAddr : Addr
  effSize : Nat
  effAddrValid : Bool
  strictlyOrdered : Bool
  hitExternalSnoop : Bool
  possibleLoadViolation : Bool
  sqIt : Int
  forwardedFrom : InstSeqNum
  violatingStoreSeqNum : InstSeqNum
  violatingStorePC : Addr
  storeQueueDistance : Int

/-- The instruction that is executed. -/
structure MemInst where
  seqNum : InstSeqNum
  pc : Addr
  effAddr : Addr
  effSize : Nat
  sqIt : Int
  /-- the position of the first load that is younger -/
  lqIt : Nat

structure LSQUnit where
  depCheckShift : Nat
  loadQueue : List LoadInst
  memDepViolator : Option LoadInst

def lastBlock (shift : Nat) (addr : Addr) (size : Nat) : Addr :=
  (addr + BitVec.ofNat 64 size - 1) >>> shift

def overlaps (shift : Nat) (inst : MemInst) (ld : LoadInst) : Bool :=
  decide (ld.effAddr >>> shift ≤ lastBlock shift inst.effAddr inst.effSize) &&
    decide (inst.effAddr >>> shift ≤ lastBlock shift ld.effAddr ld.effSize)

def excused (inst : MemInst) (ld : LoadInst) : Bool :=
  decide (inst.seqNum < ld.forwardedFrom) || decide (inst.seqNum < ld.violatingStoreSeqNum)

def LoadInst.violates (ld : LoadInst) (inst : MemInst) : LoadInst :=
  { ld with
    violatingStoreSeqNum := inst.seqNum
    violatingStorePC := inst.pc
    storeQueueDistance := ld.sqIt - inst.sqIt }

def checkLoads (shift : Nat) (isLoad : Bool) (inst : MemInst) (violator : Option LoadInst) :
    List LoadInst → Bool × Option LoadInst × List LoadInst
  | [] => (false, violator, [])
  | ld :: rest =>
    let skip (ld : LoadInst) :=
      let r := checkLoads shift isLoad inst violator rest
      (r.1, r.2.1, ld :: r.2.2)
    if !ld.effAddrValid || ld.strictlyOrdered then skip ld
    else if overlaps shift inst ld then
      if isLoad then
        if ld.hitExternalSnoop && violator.all (fun v => decide (ld.seqNum < v.seqNum)) then
          (true, some ld, ld :: rest)
        else skip { ld with possibleLoadViolation := true }
      -- a younger load than the violator is squashed with it
      else if violator.any (fun v => decide (v.seqNum < ld.seqNum)) then
        (false, violator, ld :: rest)
      else if excused inst ld then skip ld
      else (true, some (ld.violates inst), ld.violates inst :: rest)
    else skip ld

def checkViolations (s : LSQUnit) (isLoad : Bool) (inst : MemInst) (loadIt : Nat) :
    Bool × LSQUnit :=
  let r := checkLoads s.depCheckShift isLoad inst s.memDepViolator (s.loadQueue.drop loadIt)
  (r.1, { s with loadQueue := s.loadQueue.take loadIt ++ r.2.2, memDepViolator := r.2.1 })

structure StoreAccess where
  storeFault : Bool
  isTranslationDelayed : Bool
  readPredicate : Bool
  size : Nat

def executeStore (s : LSQUnit) (inst : MemInst) (acc : StoreAccess) : Bool × LSQUnit :=
  if acc.isTranslationDelayed && !acc.storeFault then (acc.storeFault, s)
  else if !acc.readPredicate || acc.size == 0 then (acc.storeFault, s)
  else checkViolations s false inst inst.lqIt

structure Passed (shift : Nat) (inst : MemInst) (ld : LoadInst) : Prop where
  valid : ld.effAddrValid = true
  ordinary : ld.strictlyOrdered = false
  overlaps : overlaps shift inst ld = true
  unexcused : excused inst ld = false

section

variable (shift : Nat) (inst : MemInst) (violator : Option LoadInst)

/-- The search for a store ends at this load. -/
def stopsAt (ld : LoadInst) : Bool :=
  ld.effAddrValid && !ld.strictlyOrdered && overlaps shift inst ld &&
    (violator.any (fun v => decide (v.seqNum < ld.seqNum)) || !excused inst ld)

lemma checkLoads_eq (loads : List LoadInst) :
    ((checkLoads shift false inst violator loads).1,
      (checkLoads shift false inst violator loads).2.1) =
      match loads.find? (stopsAt shift inst violator) with
      | none => (false, violator)
      | some ld => if violator.any (fun v => decide (v.seqNum < ld.seqNum)) then (false, violator)
        else (true, some (ld.violates inst)) := by
  induction loads with
  | nil => rfl
  | cons ld rest ih =>
    rw [find?_cons, stopsAt, checkLoads]
    cases ld.effAddrValid <;> cases ld.strictlyOrdered <;> cases overlaps shift inst ld <;>
      cases hany : violator.any (fun v => decide (v.seqNum < ld.seqNum)) <;>
      cases excused inst ld <;> simp [hany, ih]

variable {shift inst violator} {ld : LoadInst} {loads : List LoadInst}

lemma Passed.stopsAt (h : Passed shift inst ld) : stopsAt shift inst violator ld = true := by
  simp [LoadStore.stopsAt, h.valid, h.ordinary, h.overlaps, h.unexcused]

lemma first_le (hsorted : loads.Pairwise (·.seqNum < ·.seqNum)) {test : LoadInst → Bool}
    {first : LoadInst} (hfirst : loads.find? test = some first) (hld : ld ∈ loads)
    (htest : test ld = true) : first.seqNum ≤ ld.seqNum := by
  obtain ⟨-, _, _, rfl, holder⟩ := find?_eq_some_iff_append.mp hfirst
  rcases mem_append.mp hld with hold | hrest
  · exact absurd htest (by simpa using holder ld hold)
  · rcases mem_cons.mp hrest with rfl | hyoung
    · exact le_rfl
    · exact ((pairwise_cons.mp (pairwise_append.mp hsorted).2.1).1 ld hyoung).le

/-- No load that has passed the store is missed: it or an older one is the violator. A reported
violation is that of the oldest such load. -/
theorem passing_load_found (s : LSQUnit) (inst : MemInst) (acc : StoreAccess)
    (hsorted : s.loadQueue.Pairwise (·.seqNum < ·.seqNum)) :
    (executeStore s inst acc = (acc.storeFault, s) ∨
      executeStore s inst acc = checkViolations s false inst inst.lqIt) ∧
    (∀ ld ∈ s.loadQueue.drop inst.lqIt, Passed s.depCheckShift inst ld →
      ∃ v, (checkViolations s false inst inst.lqIt).2.memDepViolator = some v ∧
        v.seqNum ≤ ld.seqNum) ∧
    ((checkViolations s false inst inst.lqIt).1 = true →
      ∃ ld ∈ s.loadQueue.drop inst.lqIt, Passed s.depCheckShift inst ld ∧
        (∀ other ∈ s.loadQueue.drop inst.lqIt, Passed s.depCheckShift inst other →
          ld.seqNum ≤ other.seqNum) ∧
        ∃ v, (checkViolations s false inst inst.lqIt).2.memDepViolator = some v ∧
          v.seqNum = ld.seqNum ∧ v.violatingStoreSeqNum = inst.seqNum ∧
          v.sqIt - v.storeQueueDistance = inst.sqIt) := by
  have hrest := hsorted.sublist (drop_sublist inst.lqIt s.loadQueue)
  have hcheck := checkLoads_eq s.depCheckShift inst s.memDepViolator (s.loadQueue.drop inst.lqIt)
  refine ⟨?_, ?_⟩
  · unfold executeStore
    split
    · exact .inl rfl
    · split
      · exact .inl rfl
      · exact .inr rfl
  · cases hfirst : (s.loadQueue.drop inst.lqIt).find?
        (stopsAt s.depCheckShift inst s.memDepViolator) with
    | none =>
      rw [hfirst] at hcheck
      constructor
      · exact fun ld hld hpassed => absurd hpassed.stopsAt (find?_eq_none.mp hfirst ld hld)
      · exact fun hreport => nomatch hreport.symm.trans (Prod.mk.inj hcheck).1
    | some first =>
      have hle : ∀ ld ∈ s.loadQueue.drop inst.lqIt, Passed s.depCheckShift inst ld →
          first.seqNum ≤ ld.seqNum :=
        fun ld hld hpassed => first_le hrest hfirst hld hpassed.stopsAt
      simp only [hfirst] at hcheck
      split at hcheck
      · rename_i holder
        obtain ⟨v, hv, hlt⟩ : ∃ v, s.memDepViolator = some v ∧ v.seqNum < first.seqNum := by
          simpa [Option.any_eq_true] using holder
        obtain ⟨hsilent, hsame⟩ := Prod.mk.inj hcheck
        constructor
        · exact fun ld hld hpassed => ⟨v, hsame.trans hv, hlt.le.trans (hle ld hld hpassed)⟩
        · exact fun hreport => nomatch hreport.symm.trans hsilent
      · rename_i hnone
        obtain ⟨-, hviolator⟩ := Prod.mk.inj hcheck
        have hpassed : Passed s.depCheckShift inst first := by
          have hstops := find?_some hfirst
          simp only [stopsAt, hnone, Bool.false_or, Bool.and_eq_true, Bool.not_eq_true'] at hstops
          exact ⟨hstops.1.1.1, hstops.1.1.2, hstops.1.2, hstops.2⟩
        exact ⟨fun ld hld hld' => ⟨_, hviolator, hle ld hld hld'⟩, fun _ =>
          ⟨first, mem_of_find?_eq_some hfirst, hpassed, hle, _, hviolator, rfl, rfl,
            Int.sub_sub_self first.sqIt inst.sqIt⟩⟩

/-- A load of eight bytes that has got its value from memory. -/
def earlyLoad (seqNum : InstSeqNum) (sqIt : Int) : LoadInst :=
  ⟨seqNum, 64, 8, true, false, false, false, sqIt, 0, 0, 0, 0⟩

/-- Of two loads that have passed a store the older is the violator. -/
theorem passing_load_found_small :
    let s : LSQUnit := ⟨4, [earlyLoad 5 2, earlyLoad 7 3], none⟩
    let store : MemInst := ⟨3, 32, 64, 4, 1, 0⟩
    (executeStore s store ⟨false, false, true, 4⟩).1 = true ∧
      ∃ v, (checkViolations s false store 0).2.memDepViolator = some v ∧ v.seqNum ≤ 5 := by
  intro s store
  have hsorted : s.loadQueue.Pairwise (·.seqNum < ·.seqNum) := by decide
  obtain ⟨-, hfound, -⟩ := passing_load_found s store ⟨false, false, true, 4⟩ hsorted
  exact ⟨by decide, hfound (earlyLoad 5 2) mem_cons_self ⟨rfl, rfl, by decide, by decide⟩⟩

end

end BTBFerret.LoadStore
