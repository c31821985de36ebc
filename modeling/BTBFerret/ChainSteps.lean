import BTBFerret.BufferSteps

/-!
# The deferred queue and the chain table under every operation

A trigger starts a chain and stages one or two entries for it. The queue event
takes the ready entries out and examines them one by one: an entry is skipped,
or its prefetch is paid for by its chain, which may then stage continuations.
-/

namespace BTBFerret

open FallibleRuns List Function Bool Chains

/-- `effectiveDepth`: how many prefetches a trigger may issue. -/
def Params.triggerDepth (p : Params) (type : BranchType) : Nat :=
  if p.depthOnlyCall && !isCall type then 1 else p.prefetchDepth

namespace Chains

variable {p : Params}

variable (c : Chains p)

def stage (es : List DeferredPrefetchEntry) : Chains p :=
  { c with queue := es.foldl (fun queue e => State.insertDeferred e queue) c.queue }

variable (i : Fin p.maxChainTrackerEntries)

def assign (chainId remaining : Nat) : Chains p :=
  { c with
    owner := update c.owner i chainId
    remaining := update c.remaining i remaining }

lemma stage_append (es es' : List DeferredPrefetchEntry) :
    c.stage (es ++ es') = (c.stage es).stage es' := by
  unfold stage
  rw [foldl_append]

lemma assign_same : c.assign i (c.owner i) (c.remaining i) = c := by
  unfold assign
  rw [update_eq_self, update_eq_self]

lemma assign_assign (chainId remaining chainId' remaining' : Nat) :
    (c.assign i chainId remaining).assign i chainId' remaining' =
      c.assign i chainId' remaining' := by
  unfold assign
  rw [update_idem, update_idem]

def budgetFor (e : DeferredPrefetchEntry) : Nat :=
  if c.owner i = e.chainId then c.remaining i else e.depth

end Chains

namespace State

variable {p : Params}

/-- How many prefetches have filled the buffer. -/
def issuedPrefetches (s : State p) : Nat := s.stats.count .totalPrefetches

lemma issuedPrefetches_eq (s : State p) :
    s.issuedPrefetches = s.books.accounts.count .totalPrefetches := by
  change _ = (s.stats.filter Stat.isAccount).count .totalPrefetches
  rw [count_filter rfl]
  rfl

lemma issuedPrefetches_of_books {s t : State p} (h : t.books = s.books) :
    t.issuedPrefetches = s.issuedPrefetches := by
  rw [issuedPrefetches_eq, issuedPrefetches_eq, h]

lemma Filling.issuedPrefetches {s t : State p} {i : Issue} (h : Filling s t i) :
    t.issuedPrefetches = s.issuedPrefetches + 1 := by
  rw [issuedPrefetches_eq, issuedPrefetches_eq, h.books, Books.fill]
  dsimp only
  split
  · rw [count_cons_of_ne (fun h => by cases h), count_cons_self]
  · rw [count_cons_self]

/-! ## The chain table -/

section

variable (s : State p) (i : Fin p.maxChainTrackerEntries)

lemma chains_setChainTable (x : ActiveChainEntry) {h : i.val < p.maxChainTrackerEntries} :
    ({ s with chainTable := s.chainTable.set i x h } : State p).chains =
      s.chains.assign i x.chainId x.remainingPrefetches := by
  have hget : (s.chainTable.set i x h).get = Function.update s.chainTable.get i x := by
    funext j
    by_cases hj : j = i
    · subst hj
      rw [update_self]
      exact Vector.getElem_set_self h
    · rw [update_of_ne hj]
      exact Vector.getElem_set_ne h j.isLt (fun h => hj (Fin.ext h.symm))
  unfold chains assign
  dsimp only
  rw [hget]
  congr 1
  · funext j
    exact apply_update (fun _ e => ActiveChainEntry.chainId e) _ i x j
  · funext j
    exact apply_update (fun _ e => ActiveChainEntry.remainingPrefetches e) _ i x j

lemma chains_setLastEndReason
    (reason : ChainEndReason) : (s.setLastEndReason i reason).chains = s.chains := by
  unfold setLastEndReason
  rw [chains_setChainTable]
  exact assign_same s.chains i

lemma chains_recordChainEnd : (s.recordChainEnd i).chains = s.chains := by
  unfold recordChainEnd
  dsimp only
  rw [chains_setLastEndReason]
  rfl

lemma chainTable_memInvalidate : s.memInvalidate.chainTable.get i = .empty :=
  Vector.getElem_map _ i.isLt

end

lemma chains_allocateChainSlot (s : State p) (e : DeferredPrefetchEntry)
    (i : Fin p.maxChainTrackerEntries) :
    (s.allocateChainSlot e i).chains = s.chains.assign i e.chainId (s.chains.budgetFor i e) := by
  unfold allocateChainSlot budgetFor
  dsimp only
  by_cases hown : s.chainTable[i].chainId = e.chainId
  · have howner : s.chains.owner i = e.chainId := hown
    rw [if_pos hown, if_pos howner, ← howner, assign_same]
  · have howner : ¬ s.chains.owner i = e.chainId := hown
    rw [if_neg hown, if_neg howner]
    generalize hu : (if s.chainTable[i].chainId = 0 then s
      else (if s.isChainDead s.chainTable[i].chainId ||
        s.chainTable[i].remainingPrefetches == 0 then
        s.recordChainEnd i else s.count .chainEndEvicted).count (.prefetchesPerTrigger
          ((e.depth + 2 ^ 32 - s.chainTable[i].remainingPrefetches) % 2 ^ 32))) = u
    have hchains : u.chains = s.chains := by
      rw [← hu]
      split
      · rfl
      · split
        · exact chains_recordChainEnd s i
        · rfl
    rw [chains_setChainTable, hchains]

lemma chains_chargeChain (s : State p) (i : Fin p.maxChainTrackerEntries) :
    (s.chargeChain i).1.chains =
      s.chains.assign i (s.chains.owner i) (s.chains.remaining i - 1) := by
  unfold chargeChain
  dsimp only
  split
  · rw [chains_setLastEndReason, chains_setChainTable]
    rfl
  · rw [chains_setChainTable]
    rfl

/-! ## Staging -/

lemma insertDeferred_perm (e : DeferredPrefetchEntry) (queue : List DeferredPrefetchEntry) :
    (insertDeferred e queue).Perm (e :: queue) := by
  unfold insertDeferred
  refine perm_middle.trans ?_
  rw [takeWhile_append_dropWhile]

lemma stage_perm (c : Chains p) (es : List DeferredPrefetchEntry) :
    (c.stage es).queue.Perm (es ++ c.queue) := by
  unfold stage
  dsimp only
  induction es generalizing c with
  | nil => exact List.Perm.refl _
  | cons e rest ih =>
    have hstep := ih { c with queue := insertDeferred e c.queue }
    rw [foldl_cons]
    refine hstep.trans ?_
    refine ((insertDeferred_perm e c.queue).append_left rest).trans ?_
    exact perm_middle

structure StagedFor (now : Cycles) (chainId : Nat) (allocateChain : Bool) (depth : Nat)
    (e : DeferredPrefetchEntry) : Prop where
  chainId : e.chainId = chainId
  allocateChain : e.allocateChain = allocateChain
  depth : e.depth = depth
  issueTime : now < e.issueTime

/-- From `u` to `v` at most `n` entries of the chain have been staged, and the chains have not
changed otherwise. -/
def Staging (chainId : Nat) (allocateChain : Bool) (depth n : Nat) (u v : State p) : Prop :=
  ∃ es : List DeferredPrefetchEntry, es.length ≤ n ∧
    (∀ e ∈ es, StagedFor u.curCycle chainId allocateChain depth e) ∧
    v.chains = u.chains.stage es

section

variable {chainId depth m n : Nat} {allocateChain : Bool} {u v w : State p}

lemma Staging.of_same (h : v.chains = u.chains) : Staging chainId allocateChain depth n u v := by
  refine ⟨[], Nat.zero_le n, ?_, h⟩
  intro e he
  cases he

lemma Staging.trans (h : Staging chainId allocateChain depth m u v)
    (h' : Staging chainId allocateChain depth n v w) :
    Staging chainId allocateChain depth (m + n) u w := by
  obtain ⟨es, hes, hstaged, hchains⟩ := h
  obtain ⟨es', hes', hstaged', hchains'⟩ := h'
  have hcycle : v.curCycle = u.curCycle := congrArg Chains.curCycle hchains
  rw [hcycle] at hstaged'
  refine ⟨es ++ es', ?_, ?_, ?_⟩
  · rw [length_append]
    omega
  · intro e he
    rcases mem_append.mp he with he | he
    · exact hstaged e he
    · exact hstaged' e he
  · rw [hchains', hchains, stage_append]

lemma Staging.follow (h : Staging chainId allocateChain depth 1 u v) (followed : Bool) :
    Staging chainId allocateChain depth followed.toNat u (if followed = true then v else u) := by
  cases followed with
  | true => exact h
  | false => exact .of_same rfl

end

lemma staging_prefetchViaBBMap (s : State p) (tid : ThreadID) (lookupAddr : Addr)
    (isTakenPath triggeredByPBHit : Bool) (depth : Nat) (baseLatency : Cycles)
    (triggerType : BranchType) (chainId : Nat) (allocateChain : Bool) :
    Staging chainId allocateChain depth 1 s (s.prefetchViaBBMap tid lookupAddr isTakenPath
      triggeredByPBHit depth baseLatency triggerType chainId allocateChain) := by
  unfold prefetchViaBBMap
  split
  · exact .of_same rfl
  · dsimp only
    split
    · exact .of_same rfl
    · split
      · exact .of_same rfl
      · refine ⟨[_], Nat.le_refl 1, ?_, rfl⟩
        intro e he
        rw [mem_singleton.mp he]
        refine ⟨rfl, rfl, rfl, ?_⟩
        dsimp only
        have hlt : ∀ a b : Nat, a < a + (b + 1) := by omega
        exact hlt s.curCycle baseLatency

lemma applyNewPBitsLogic_exclusive (hnew : p.newPBits = true) (s : State p) (type : BranchType)
    (taken isBackward doPfTarget doPfThrough : Bool) (triggerLoc : TriggerLocation) :
    (s.applyNewPBitsLogic type taken isBackward doPfTarget doPfThrough triggerLoc).2.1 = false ∨
      (s.applyNewPBitsLogic type taken isBackward doPfTarget doPfThrough triggerLoc).2.2 =
        false := by
  -- the policy is followed case by case
  have hite : ∀ {c : Prop} [Decidable c] {r r' : State p × Bool × Bool},
      (r.2.1 = false ∨ r.2.2 = false) → (r'.2.1 = false ∨ r'.2.2 = false) →
      (if c then r else r').2.1 = false ∨ (if c then r else r').2.2 = false := by
    intro c _ r r' h h'
    split
    · exact h
    · exact h'
  unfold applyNewPBitsLogic
  rw [hnew]
  apply hite (.inl rfl)
  rw [if_neg (by decide)]
  repeat' apply hite
  all_goals first | exact .inl rfl | exact .inr rfl | skip
  cases taken with
  | true => exact .inl rfl
  | false => exact .inr rfl

inductive TriggerMove (p : Params) (type : BranchType) (c c' : Chains p) : Prop
  | none (same : c' = c)
  | start (es : List DeferredPrefetchEntry) (one : p.newPBits = true → es.length ≤ 1)
      (staged : ∀ e ∈ es, StagedFor c.curCycle c.nextChainId true (p.triggerDepth type) e)
      (chains : c' = { c.stage es with nextChainId := c.nextChainId + 1 })

lemma chains_tryInitialTrigger (s : State p) (tid : ThreadID) (instPC : Addr) (type : BranchType)
    (targetAddr : Addr) (doPfTarget doPfThrough taken : Bool) (triggerLoc : TriggerLocation)
    (baseLatency : Cycles) (triggeredByPBHit isL1Miss : Bool) :
    TriggerMove p type s.chains (s.tryInitialTrigger tid instPC type targetAddr doPfTarget
      doPfThrough taken triggerLoc baseLatency triggeredByPBHit isL1Miss).chains := by
  unfold tryInitialTrigger
  split
  · exact .none rfl
  · dsimp only
    split
    · exact .none rfl
    · have hone := fun hnew => applyNewPBitsLogic_exclusive hnew s type taken
        (decide (targetAddr < instPC)) doPfTarget doPfThrough triggerLoc
      have haside := applyNewPBitsLogic_counted s type taken
        (decide (targetAddr < instPC)) doPfTarget
        doPfThrough triggerLoc
      generalize s.applyNewPBitsLogic type taken (decide (targetAddr < instPC)) doPfTarget
        doPfThrough triggerLoc = r at hone haside ⊢
      obtain ⟨u, toTarget, toThrough⟩ := r
      dsimp only at hone haside ⊢
      have hsame : ({ u with prevBwBranch := ⟨decide (targetAddr < instPC), isL1Miss⟩ } :
          State p).chains = s.chains := haside.chains
      have hnext : u.nextChainId = s.nextChainId := congrArg Chains.nextChainId haside.chains
      split
      · generalize hv : ({ { u with prevBwBranch := ⟨decide (targetAddr < instPC), isL1Miss⟩ } with
          nextChainId := u.nextChainId + 1 } : State p) = v
        have hvchains : v.chains = { s.chains with nextChainId := s.nextChainId + 1 } := by
          rw [← hv, ← haside.chains, ← hnext]
          rfl
        rw [hnext]
        -- one staging for each way that is followed
        have htarget := (staging_prefetchViaBBMap v tid targetAddr true triggeredByPBHit
          (p.triggerDepth type) baseLatency type s.nextChainId true).follow toTarget
        obtain ⟨es, hes, hstaged, hchains⟩ := htarget.trans ((staging_prefetchViaBBMap _ tid
          (p.fallThrough instPC) false triggeredByPBHit (p.triggerDepth type)
          (if toTarget = true then baseLatency + 1 else baseLatency) type s.nextChainId true).follow
          toThrough)
        have hcycle : v.curCycle = s.curCycle := congrArg Chains.curCycle hvchains
        rw [hcycle] at hstaged
        refine .start es ?_ hstaged (hchains.trans ?_)
        · intro hnew
          have htarget := toNat_le toTarget
          have hthrough := toNat_le toThrough
          rcases hone hnew with h | h
          · rw [h, toNat_false] at hes
            omega
          · rw [h, toNat_false] at hes
            omega
        · rw [hvchains]
          rfl
      · exact .none hsame

/-! ## One entry of the queue -/

inductive EntryMove (s : State p) (e : DeferredPrefetchEntry) (s' : State p) : Prop
  /-- nothing is issued -/
  | skip (chains : s'.chains = s.chains) (issued : s'.issuedPrefetches = s.issuedPrefetches)
  /-- the chain takes or holds its slot and pays -/
  | spend (i : Fin p.maxChainTrackerEntries) (slot : p.chainSlot e.chainId = some i)
      (valid : s.chains.owner i = e.chainId ∨ e.allocateChain = true)
      (budget : s.chains.budgetFor i e ≠ 0) (more : List DeferredPrefetchEntry)
      (staged : ∀ e' ∈ more, StagedFor s.curCycle e.chainId false 1 e')
      (chains : s'.chains = (s.chains.assign i e.chainId (s.chains.budgetFor i e - 1)).stage more)
      (issued : s'.issuedPrefetches = s.issuedPrefetches + 1)
  /-- no chain pays, for want of a slot or of a budget to start with -/
  | unpaid (want : e.chainId = 0 ∨ p.chainSlot e.chainId = none ∨
        (e.allocateChain = true ∧ e.depth = 0))
      (queue : s'.chains.queue = s.chains.queue) (nextChainId : s'.nextChainId = s.nextChainId)
      (curCycle : s'.curCycle = s.curCycle)

lemma chains_continueChain (s : State p) (e : DeferredPrefetchEntry) (pfEntry : BTBEntry)
    (arrival : Cycles) (i : Fin p.maxChainTrackerEntries) :
    Meets (s.continueChain e pfEntry arrival i)
      (fun t => (s.chains.remaining i = 0 ∧ t = s) ∨ (s.chains.remaining i ≠ 0 ∧
        ∃ more : List DeferredPrefetchEntry,
          (∀ e' ∈ more, StagedFor s.curCycle e.chainId false 1 e') ∧
          t.chains = (s.chains.assign i (s.chains.owner i) (s.chains.remaining i - 1)).stage more))
      (fun _ => True) := by
  unfold continueChain
  split
  · rename_i hzero
    exact .inl ⟨hzero, rfl⟩
  · rename_i hpos
    have hcharge := chains_chargeChain s i
    dsimp only
    generalize s.chargeChain i = r at hcharge ⊢
    obtain ⟨u, completedChain⟩ := r
    dsimp only at hcharge ⊢
    have hcycle : u.curCycle = s.curCycle := congrArg Chains.curCycle hcharge
    refine Meets.bind_any ?_
    intro pfType
    generalize (pfEntry.prefetchTarget && !completedChain && !(p.indirectAltBit &&
      isIndirect pfType && pfEntry.prefetchTarget && pfEntry.prefetchThrough)) = followTarget
    generalize (pfEntry.prefetchThrough && !completedChain && !(p.indirectAltBit &&
      isIndirect pfType && pfEntry.prefetchTarget && pfEntry.prefetchThrough)) = followThrough
    generalize (if u.curCycle < arrival then arrival - u.curCycle else 0) = nextBaseLatency
    have htarget : Staging e.chainId false 1 1 u
        (u.stageTarget e pfEntry.targetAddr nextBaseLatency pfType i) := by
      refine (staging_prefetchViaBBMap u e.tid pfEntry.targetAddr true e.triggeredByPBHit 1
        nextBaseLatency pfType e.chainId false).trans (n := 0) (.of_same ?_)
      unfold stageTarget
      dsimp only
      split
      · exact chains_setLastEndReason _ _ _
      · rfl
    obtain ⟨more, _, hstaged, hchains⟩ := (htarget.follow followTarget).trans
      ((staging_prefetchViaBBMap _ e.tid (p.fallThrough e.pc) false e.triggeredByPBHit 1
        (if followTarget = true then nextBaseLatency + 1 else nextBaseLatency) pfType e.chainId
        false).follow followThrough)
    rw [hcycle] at hstaged
    rw [hcharge] at hchains
    exact .inr ⟨hpos, more, hstaged, hchains⟩

/-- A chain that owns the slot needs budget, another one needs leave to allocate. -/
lemma validChain_some (s : State p) (e : DeferredPrefetchEntry)
    (i : Fin p.maxChainTrackerEntries) : s.validChain e (some i) = true ↔
      (s.chains.owner i = e.chainId ∧ s.chains.remaining i ≠ 0) ∨
        (s.chains.owner i ≠ e.chainId ∧ e.allocateChain = true) := by
  have howner : s.chains.owner i = s.chainTable[i].chainId := rfl
  have hremaining : s.chains.remaining i = s.chainTable[i].remainingPrefetches := rfl
  unfold validChain
  dsimp only
  rw [howner, hremaining]
  by_cases hown : s.chainTable[i].chainId = e.chainId
  · rw [if_neg (fun h => h hown), bne_iff_ne]
    constructor
    · exact fun hpos => .inl ⟨hown, hpos⟩
    · rintro (⟨_, hpos⟩ | ⟨hne, _⟩)
      · exact hpos
      · exact absurd hown hne
  · rw [if_pos hown]
    constructor
    · exact fun halloc => .inr ⟨hown, halloc⟩
    · rintro (⟨hsame, _⟩ | ⟨_, halloc⟩)
      · exact absurd hsame hown
      · exact halloc

lemma validChain_congr {s t : State p} (h : t.chains = s.chains) (e : DeferredPrefetchEntry)
    (slot : Option (Fin p.maxChainTrackerEntries)) : t.validChain e slot = s.validChain e slot := by
  cases slot with
  | none => rfl
  | some => rw [Bool.eq_iff_iff, validChain_some, validChain_some, h]

/-! ## Samples -/

lemma samples_of_stats {s t : State p} (h : t.stats = s.stats) : t.samples = s.samples := by
  unfold samples
  rw [h]

lemma samples_allocateChainSlot (s : State p) (e : DeferredPrefetchEntry)
    (i : Fin p.maxChainTrackerEntries) :
    (s.allocateChainSlot e i).samples =
      if s.chains.owner i = e.chainId ∨ s.chains.owner i = 0 then s.samples
      else (e.depth + 2 ^ 32 - s.chains.remaining i) % 2 ^ 32 :: s.samples := by
  have howner : s.chains.owner i = s.chainTable[i].chainId := rfl
  have hremaining : s.chains.remaining i = s.chainTable[i].remainingPrefetches := rfl
  rw [howner, hremaining]
  unfold allocateChainSlot
  dsimp only
  by_cases hown : s.chainTable[i].chainId = e.chainId
  · rw [if_pos hown, if_pos (.inl hown)]
  · rw [if_neg hown]
    by_cases hempty : s.chainTable[i].chainId = 0
    · rw [if_pos hempty, if_pos (.inr hempty)]
      rfl
    · rw [if_neg hempty, if_neg (not_or.mpr ⟨hown, hempty⟩)]
      have hend : (if s.isChainDead s.chainTable[i].chainId ||
          s.chainTable[i].remainingPrefetches == 0 then s.recordChainEnd i
          else s.count .chainEndEvicted).samples = s.samples := by
        split
        · unfold recordChainEnd setLastEndReason
          dsimp only
          split <;> rfl
        · rfl
      exact congrArg (_ :: ·) hend

inductive Sampling (s : State p) (e : DeferredPrefetchEntry) (s' : State p) : Prop
  | none (same : s'.samples = s.samples)
  | takeover (i : Fin p.maxChainTrackerEntries) (slot : p.chainSlot e.chainId = some i)
      (alloc : e.allocateChain = true) (occupied : s.chains.owner i ≠ 0)
      (other : s.chains.owner i ≠ e.chainId) (taken : s'.chains.owner i = e.chainId)
      (sample : s'.samples = (e.depth + 2 ^ 32 - s.chains.remaining i) % 2 ^ 32 :: s.samples)

/-! ## The examination of an entry -/

structure Passing (s t : State p) : Prop where
  chains : t.chains = s.chains
  issued : t.issuedPrefetches = s.issuedPrefetches
  samples : t.samples = s.samples

section

variable {s t s' : State p} {e : DeferredPrefetchEntry}

lemma Passing.trans (h : Passing s t) (h' : Passing t s') : Passing s s' :=
  ⟨h'.chains.trans h.chains, h'.issued.trans h.issued, h'.samples.trans h.samples⟩

lemma Counted.passing (h : Counted [] s t) : Passing s t :=
  ⟨h.chains, issuedPrefetches_of_books h.books, h.samples⟩

lemma passing_setLastEndReason (s : State p) (i : Fin p.maxChainTrackerEntries)
    (reason : ChainEndReason) : Passing s (s.setLastEndReason i reason) :=
  ⟨chains_setLastEndReason s i reason, rfl, rfl⟩

lemma passing_reason (s : State p) (chainEntry : Option (Fin p.maxChainTrackerEntries))
    (kept : Bool) (reason : ChainEndReason) :
    Passing s (match chainEntry with
      | some i => if kept then s else s.setLastEndReason i reason
      | none => s) := by
  cases chainEntry with
  | none => exact ⟨rfl, rfl, rfl⟩
  | some i =>
    cases kept with
    | true => exact ⟨rfl, rfl, rfl⟩
    | false => exact passing_setLastEndReason s i reason

lemma Passing.skip (h : Passing s s') : EntryMove s e s' ∧ Sampling s e s' :=
  ⟨.skip h.chains h.issued, .none h.samples⟩

/-- The chains, the count and the samples before are all that matters. -/
lemma Passing.before (h : Passing s t) (hmove : EntryMove t e s' ∧ Sampling t e s') :
    EntryMove s e s' ∧ Sampling s e s' := by
  have hcycle : t.curCycle = s.curCycle := congrArg Chains.curCycle h.chains
  have hnext : t.nextChainId = s.nextChainId := congrArg Chains.nextChainId h.chains
  constructor
  · cases hmove.1 with
    | skip chains issued => exact .skip (chains.trans h.chains) (issued.trans h.issued)
    | spend i slot valid budget more staged chains issued =>
      rw [h.chains] at valid budget chains
      rw [hcycle] at staged
      rw [h.issued] at issued
      exact .spend i slot valid budget more staged chains issued
    | unpaid want queue nextChainId curCycle =>
      rw [h.chains] at queue
      exact .unpaid want queue (nextChainId.trans hnext) (curCycle.trans hcycle)
  · cases hmove.2 with
    | none same => exact .none (same.trans h.samples)
    | takeover i slot alloc occupied other taken sample =>
      rw [h.chains] at occupied other sample
      rw [h.samples] at sample
      exact .takeover i slot alloc occupied other taken sample

/-- A chain that has come to hold its slot pays, if anything remains of its budget. -/
lemma entryMove_continueChain {w : State p} {i : Fin p.maxChainTrackerEntries}
    (pfEntry : BTBEntry) (arrival : Cycles) (slot : p.chainSlot e.chainId = some i)
    (valid : s.chains.owner i = e.chainId ∨ e.allocateChain = true)
    (want : s.chains.budgetFor i e = 0 → e.chainId = 0 ∨ (e.allocateChain = true ∧ e.depth = 0))
    (hassign : w.chains = s.chains.assign i e.chainId (s.chains.budgetFor i e))
    (hissued : w.issuedPrefetches = s.issuedPrefetches + 1) :
    Meets (w.continueChain e pfEntry arrival i)
      (fun v => EntryMove s e v ∧ v.chains.owner i = e.chainId ∧ v.samples = w.samples)
      (fun _ => True) := by
  have hcycle : w.curCycle = s.curCycle := congrArg Chains.curCycle hassign
  have hremaining : w.chains.remaining i = s.chains.budgetFor i e := by
    rw [hassign]
    exact update_self i _ _
  have howner : w.chains.owner i = e.chainId := by
    rw [hassign]
    exact update_self i _ _
  refine ((chains_continueChain w e pfEntry arrival i).and
    (silent_continueChain (T := fun _ => True) w e trivial pfEntry arrival i)).mono ?_
    (fun _ _ => trivial)
  rintro v ⟨hv, hsilent⟩
  have hsamples := samples_of_stats hsilent.stats
  rcases hv with ⟨hzero, rfl⟩ | ⟨hpos, more, hmore, hchains⟩
  · rw [hremaining] at hzero
    have hqueue : v.chains.queue = s.chains.queue := by
      rw [hassign]
      rfl
    have hnext : v.nextChainId = s.nextChainId := congrArg Chains.nextChainId hassign
    refine ⟨.unpaid ?_ hqueue hnext hcycle, howner, rfl⟩
    rcases want hzero with h0 | hdepth
    · exact .inl h0
    · exact .inr (.inr hdepth)
  · rw [howner, hremaining, hassign, assign_assign] at hchains
    rw [hremaining] at hpos
    rw [hcycle] at hmore
    refine ⟨.spend i slot valid hpos more hmore hchains ?_, ?_, hsamples⟩
    · rw [issuedPrefetches_of_books hsilent.books]
      exact hissued
    · rw [hchains]
      exact update_self i _ _

lemma entryMove_issueDeferred (s : State p) (e : DeferredPrefetchEntry) (pfEntry : BTBEntry)
    (pfLatency : Cycles) (fromL3 : Bool) (source : s.FillSource ⟨e.pc, e.tid⟩ pfEntry)
    (hpass : (s.approxContains e.pc e.tid).2 = false)
    (hvalid : s.validChain e (if e.chainId = 0 then none else p.chainSlot e.chainId) = true) :
    Meets (s.issueDeferred e (if e.chainId = 0 then none else p.chainSlot e.chainId) pfEntry
      pfLatency fromL3) (fun t => EntryMove s e t ∧ Sampling s e t) (fun _ => True) := by
  have hcount : Passing s (s.count (if fromL3 then .pfL3LookupHit else .pfL2LookupHit)) := by
    split
    · exact (counted_count s _ rfl rfl).passing
    · exact (counted_count s _ rfl rfl).passing
  unfold issueDeferred
  dsimp only
  obtain ⟨u, t, _, ht, hcalm, _, hfill, htchains, htsamples⟩ := enqueuePrefetch_fills
    (F := fun _ => True) (T := fun _ => True)
    (s.count (if fromL3 then .pfL3LookupHit else .pfL2LookupHit))
    (e.issue pfEntry pfLatency fromL3) trivial source
    ((approxContains_of_stats s _ _ _).trans hpass)
  refine Meets.bind_of_ok ht ?_
  have hchains : t.chains = s.chains := htchains.trans hcount.chains
  have hsamples : t.samples = s.samples := htsamples.trans hcount.samples
  have hissued : t.issuedPrefetches = s.issuedPrefetches + 1 := by
    have hbase := hcount.issued
    have hsame := issuedPrefetches_of_books hcalm.books
    have hone := hfill.issuedPrefetches
    omega
  have hunpaid : e.chainId = 0 ∨ p.chainSlot e.chainId = none →
      EntryMove s e t ∧ Sampling s e t := by
    intro want
    refine ⟨.unpaid ?_ (congrArg Chains.queue hchains) (congrArg Chains.nextChainId hchains)
      (congrArg Chains.curCycle hchains), .none hsamples⟩
    rcases want with h0 | hnone
    · exact .inl h0
    · exact .inr (.inl hnone)
  cases hslot : p.chainSlot e.chainId with
  | none =>
    simp only [ite_self]
    exact hunpaid (.inr hslot)
  | some i =>
    have hpays : e.chainId ≠ 0 → (s.chains.owner i = e.chainId ∧ s.chains.remaining i ≠ 0) ∨
        (s.chains.owner i ≠ e.chainId ∧ e.allocateChain = true) := by
      intro h0
      rwa [if_neg h0, hslot, validChain_some] at hvalid
    -- an owned slot without budget would have stopped the entry
    have want : s.chains.budgetFor i e = 0 →
        e.chainId = 0 ∨ (e.allocateChain = true ∧ e.depth = 0) := by
      intro hzero
      by_cases h0 : e.chainId = 0
      · exact .inl h0
      unfold budgetFor at hzero
      rcases hpays h0 with ⟨hown, hpos⟩ | ⟨hne, halloc⟩
      · rw [if_pos hown] at hzero
        exact absurd hzero hpos
      · rw [if_neg hne] at hzero
        exact .inr ⟨halloc, hzero⟩
    cases halloc : e.allocateChain with
    | true =>
      simp only [if_true, Option.some_or]
      have hassign := chains_allocateChainSlot t e i
      have hsample := samples_allocateChainSlot t e i
      rw [hchains] at hassign hsample
      have hpaid := issuedPrefetches_of_books
        (calm_allocateChainSlot (T := fun _ => True) t e i).books
      refine (entryMove_continueChain pfEntry _ hslot (.inr halloc) want hassign
        (hpaid.trans hissued)).mono ?_ (fun _ h => h)
      rintro v ⟨hmove, howner, hv⟩
      refine ⟨hmove, ?_⟩
      rw [hsample, hsamples] at hv
      split at hv
      · exact .none hv
      · rename_i hforeign
        obtain ⟨hne, hoccupied⟩ := not_or.mp hforeign
        exact .takeover i hslot halloc hoccupied hne howner hv
    | false =>
      simp only [false_eq_true, if_false, Option.none_or]
      by_cases h0 : e.chainId = 0
      · rw [if_pos h0]
        exact hunpaid (.inl h0)
      · rw [if_neg h0]
        -- a continuation is valid only if its chain holds the slot
        have hown : s.chains.owner i = e.chainId := by
          rcases hpays h0 with ⟨hown, _⟩ | ⟨_, hleave⟩
          · exact hown
          · rw [halloc] at hleave
            cases hleave
        have hassign : t.chains = s.chains.assign i e.chainId (s.chains.budgetFor i e) := by
          unfold budgetFor
          rw [hchains, if_pos hown, ← hown, assign_same]
        refine (entryMove_continueChain pfEntry _ hslot (.inl hown) want hassign hissued).mono ?_
          (fun _ h => h)
        rintro v ⟨hmove, _, hv⟩
        exact ⟨hmove, .none (hv.trans hsamples)⟩

lemma meets_processDeferredEntry (s : State p) (e : DeferredPrefetchEntry) :
    Meets (s.processDeferredEntry e) (fun s' => EntryMove s e s' ∧ Sampling s e s')
      (fun _ => True) := by
  unfold processDeferredEntry
  dsimp only
  generalize hslot : (if e.chainId = 0 then none else p.chainSlot e.chainId) = chainEntry
  split
  · exact Passing.skip ⟨rfl, rfl, rfl⟩
  · rename_i hvalid
    have hcount := counted_count s .enqueueDeferred rfl rfl
    split
    · have hskip := (hcount.trans (counted_count _ .skipDuetoDemand rfl rfl)).passing
      split
      · exact hskip.skip
      · split
        · exact (hskip.trans (passing_setLastEndReason _ _ _)).skip
        · exact trivial
    · have hcheck := (hcount.trans
        (approxContains_spec (s.count .enqueueDeferred) e.pc e.tid).1).passing
      have hagain := approxContains_again (s.count .enqueueDeferred) e.pc e.tid
      generalize (s.count .enqueueDeferred).approxContains e.pc e.tid = r at hcheck hagain ⊢
      split
      · exact (hcheck.trans ((passing_reason _ chainEntry e.allocateChain _).trans
          (counted_count _ .skipDuetoPresence rfl rfl).passing)).skip
      · rename_i hmiss
        split
        · rename_i pfEntry pfLatency fromL3 hsrc
          rw [← hslot] at hvalid ⊢
          refine (entryMove_issueDeferred _ e pfEntry pfLatency fromL3
            (prefetchSource_fillSource hsrc) ?_ ?_).mono (fun _ ht => hcheck.before ht)
            (fun _ h => h)
          · rw [hagain]
            exact not_eq_true _ ▸ hmiss
          · rw [validChain_congr hcheck.chains]
            simpa using hvalid
        · refine (hcheck.trans ?_).skip
          have hmissed : Passing r.1
              (r.1.count (if p.enableL3 then .pfL3LookupMiss else .pfL2LookupMiss)) := by
            split
            · exact (counted_count r.1 _ rfl rfl).passing
            · exact (counted_count r.1 _ rfl rfl).passing
          exact hmissed.trans (passing_reason _ chainEntry _ _)

lemma entryMove_processDeferredEntry (h : s.processDeferredEntry e = .ok s') : EntryMove s e s' :=
  ((meets_processDeferredEntry s e).of_ok h).1

lemma sampling_processDeferredEntry (h : s.processDeferredEntry e = .ok s') : Sampling s e s' :=
  ((meets_processDeferredEntry s e).of_ok h).2

end

/-! ## The queue event -/

def popReady (s : State p) : State p :=
  let s := if s.deferredPrefetchQueue.isEmpty then s
    else s.count (.parallelChains s.activeChains.length)
  { s with
    deferredPrefetchQueue := s.deferredPrefetchQueue.dropWhile
      (fun entry => p.noPrefetchLatency || decide (entry.issueTime ≤ s.curCycle)) }

/-- Nothing but the queue and the statistics is touched. -/
lemma chains_popReady (s : State p) :
    s.popReady.chains = { s.chains with queue := s.popReady.deferredPrefetchQueue } := by
  unfold popReady
  dsimp only
  split
  · rfl
  · rfl

lemma readyEntries_append_popReady (s : State p) :
    s.readyEntries ++ s.popReady.deferredPrefetchQueue = s.deferredPrefetchQueue := by
  unfold readyEntries popReady
  dsimp only
  split
  · exact takeWhile_append_dropWhile
  · exact takeWhile_append_dropWhile

lemma processDeferredPrefetchQueue_run {s s' : State p}
    (h : s.processDeferredPrefetchQueue = .ok s') :
    ∃ u, run processDeferredEntry s.popReady s.readyEntries = .ok u ∧ s'.chains = u.chains := by
  unfold processDeferredPrefetchQueue at h
  obtain ⟨u, hu, hs'⟩ := bind_eq_ok_iff.mp h
  rw [foldlM_eq_run] at hu
  refine ⟨u, ?_, ?_⟩
  · rw [← hu]
    unfold popReady readyEntries
    dsimp only
    split
    · rfl
    · rfl
  · cases hs'
    rfl

/-! ## All operations -/

inductive ChainStep (s : State p) : Op → State p → Prop
  | same {o : Op} {s' : State p} (chains : s'.chains = s.chains)
      (other : o ≠ .processDeferredPrefetchQueue) : ChainStep s o s'
  | trigger {tid : ThreadID} {instPC : Addr} {type : BranchType} {taken : Bool}
      {blockStartAddr : Addr} {basePrediction : Bool} {s' : State p}
      (move : TriggerMove p type s.chains s'.chains) :
      ChainStep s (.lookup tid instPC type taken blockStartAddr basePrediction) s'
  | event {s' : State p} (u : State p)
      (examined : run processDeferredEntry s.popReady s.readyEntries = .ok u)
      (chains : s'.chains = u.chains) : ChainStep s .processDeferredPrefetchQueue s'
  | clear : ChainStep s .memInvalidate s.memInvalidate
  | advance {ticks cycles : Nat} {s' : State p}
      (chains : s'.chains = { s.chains with curCycle := s.curCycle + cycles }) :
      ChainStep s (.advance ticks cycles) s'

lemma step_chains {s s' : State p} {o : Op} (h : s.step o = .ok s') : ChainStep s o s' := by
  cases o with
  | update => exact .same ((aside_update s _ _ _ _ _).of_ok h).chains (fun he => by cases he)
  | lookup tid instPC type =>
    obtain ⟨r, hr, he⟩ := map_eq_ok_iff.mp h
    obtain ⟨u, targetAddr, target, through, actual, loc, latency, byPBHit, isL1Miss, hu, hs'⟩ :=
      ((lookupWithLatency_books (A := fun _ => True) _ _ _ _ _ _ s (fun _ _ _ => trivial)).of_ok
        hr).2
    have hmove := chains_tryInitialTrigger u tid instPC type targetAddr target through actual loc
      latency byPBHit isL1Miss
    rw [hu, ← hs', he] at hmove
    exact .trigger hmove
  | trainMarkovOnCommit =>
    exact .same ((aside_trainMarkovOnCommit s _ _).of_ok h).chains (fun he => by cases he)
  | trainPrefetchBitsOnCommit =>
    cases h
    exact .same (aside_trainPrefetchBitsOnCommit s _ _ _).chains (fun he => by cases he)
  | processDeferredPrefetchQueue =>
    obtain ⟨u, hu, hs'⟩ := processDeferredPrefetchQueue_run h
    exact .event u hu hs'
  | memInvalidate =>
    cases h
    exact .clear
  | lookupL1 tid instPC =>
    cases h
    exact .same (counted_lookupL1 s tid instPC).chains (fun he => by cases he)
  | updateDirection tid instPC taken =>
    cases h
    exact .same (aside_updateDirection s tid instPC taken).chains (fun he => by cases he)
  | setBBMap =>
    cases h
    exact .same rfl (fun he => by cases he)
  | advance =>
    cases h
    exact .advance rfl

end State

end BTBFerret
