import BTBFerret.Effects
import Mathlib.Logic.Relation

/-!
# What prefetching does to the state

Most helpers leave all levels alone, and `Soft` and `Calm` say so once. A prefetch proper changes
the prefetch buffer, its shadow tags and the account of prefetches: it replaces one way by a copy of
the branch's L2 or L3 entry. Everything a prefetcher does is a sequence of these two kinds of step.
Each function is walked through once, for the lines and for the account.
-/

namespace BTBFerret

open ReplacementPolicy AssociativeCache FallibleRuns Cache Option Relation

def Stat.triggerSample : Stat → Option Nat
  | .prefetchesPerTrigger issuedPF => some issuedPF
  | _ => none

structure Books (p : Params) where
  pBuffer : BTBCache p.pBuffer
  pbCompressedTags : BTBCache p.pbCompressedTags
  accounts : List Stat

structure Chains (p : Params) where
  queue : List DeferredPrefetchEntry
  nextChainId : Nat
  owner : Fin p.maxChainTrackerEntries → Nat
  remaining : Fin p.maxChainTrackerEntries → Nat
  curCycle : Cycles

structure Issue where
  key : KeyType
  src : BTBEntry
  arrivalCycle : Cycles
  triggeredByPBHit : Bool
  pfDistance : Nat
  takenPrefetched : Bool
  triggerType : BranchType
  fromL3 : Bool

def Issue.copy (p : Params) (i : Issue) : BTBEntry → BTBEntry :=
  State.prefetchedEntry p i.src i.arrivalCycle i.triggeredByPBHit i.pfDistance i.takenPrefetched
    i.triggerType i.fromL3

def DeferredPrefetchEntry.issue (e : DeferredPrefetchEntry) (src : BTBEntry) (latency : Cycles)
    (fromL3 : Bool) : Issue :=
  ⟨⟨e.pc, e.tid⟩, src, e.issueTime + latency, e.triggeredByPBHit, 0, e.takenPrefetched,
    e.triggerType, fromL3⟩

namespace Books

variable {p : Params}

def victim (b : Books p) (key : KeyType) : BTBEntry :=
  b.pBuffer.get (b.pBuffer.findVictim key true).1

def fill (b : Books p) (now : Tick) (i : Issue) : Books p where
  pBuffer := b.pBuffer.replace now i.key (i.copy p)
  pbCompressedTags := if p.useCompressedTagFilter then
    b.pbCompressedTags.replace now i.key id else b.pbCompressedTags
  accounts :=
    let accounts := .totalPrefetches :: b.accounts
    if (b.victim i.key).prefetched then
      .uselessPrefetches (b.victim i.key).prefetchTriggerType :: accounts else accounts

lemma get_fill (b : Books p) (now : Tick) (i : Issue) (l : Loc p.pBuffer.shape) :
    (b.fill now i).pBuffer.get l = if l = (b.pBuffer.findVictim i.key true).1 then
      i.copy p (p.pBuffer.shape.insert i.key (p.pBuffer.shape.invalidate (b.victim i.key)))
      else b.pBuffer.get l :=
  get_replace b.pBuffer now i.key (i.copy p) l

end Books

namespace State

variable {p : Params}

def books (s : State p) : Books p := ⟨s.pBuffer, s.pbCompressedTags, s.stats.filter Stat.isAccount⟩

def chains (s : State p) : Chains p where
  queue := s.deferredPrefetchQueue
  nextChainId := s.nextChainId
  owner := fun i => (s.chainTable.get i).chainId
  remaining := fun i => (s.chainTable.get i).remainingPrefetches
  curCycle := s.curCycle

/-- The sampled values, the latest first. -/
def samples (s : State p) : List Nat := s.stats.filterMap Stat.triggerSample

/-- The three levels that prefetches are copied from or compared with. -/
def hierarchy (s : State p) : BTBCache p.l1btb × BTBCache p.l2btb × BTBCache p.l3btb :=
  (s.l1btb, s.l2btb, s.l3btb)

/-- The state outside the levels: times, block map and Markov successors stay,
and newly staged prefetches are for branches of the block map. -/
structure Rest (T : ThreadID → Prop) (s s' : State p) : Prop where
  markov : ∀ l, s'.markov.get l = s.markov.get l
  bbMap : s'.bbMap = s.bbMap
  curTick : s'.curTick = s.curTick
  curCycle : s'.curCycle = s.curCycle
  queue : ∀ e ∈ s'.deferredPrefetchQueue, e ∈ s.deferredPrefetchQueue ∨
    (T e.tid ∧ ∃ map a, s.bbMap = some map ∧ map a = some e.pc)

/-- No level changes either. -/
structure Soft (T : ThreadID → Prop) (s s' : State p) : Prop extends Rest T s s' where
  l1btb : s'.l1btb = s.l1btb
  pBuffer : s'.pBuffer = s.pBuffer
  l2btb : s'.l2btb = s.l2btb
  l3btb : s'.l3btb = s.l3btb

/-- Nor do the shadow tags and the account. -/
structure Calm (T : ThreadID → Prop) (s s' : State p) : Prop extends Soft T s s' where
  books : s'.books = s.books

structure Still (T : ThreadID → Prop) (s s' : State p) : Prop extends Calm T s s' where
  chains : s'.chains = s.chains

/-- Nothing is counted. -/
structure Silent (T : ThreadID → Prop) (s s' : State p) : Prop extends Calm T s s' where
  stats : s'.stats = s.stats

/-- Nothing happens to the levels, to the buffer or to the account. -/
structure Quiet (s t : State p) : Prop where
  books : t.books = s.books
  hierarchy : t.hierarchy = s.hierarchy

variable {T : ThreadID → Prop} {s s' s'' : State p}

lemma Rest.refl (s : State p) : Rest T s s :=
  ⟨fun _ => rfl, rfl, rfl, rfl, fun _ h => .inl h⟩

lemma Rest.trans (h : Rest T s s') (h' : Rest T s' s'') : Rest T s s'' := by
  refine ⟨fun l => (h'.markov l).trans (h.markov l), h'.bbMap.trans h.bbMap,
    h'.curTick.trans h.curTick, h'.curCycle.trans h.curCycle, ?_⟩
  intro e he
  rcases h'.queue e he with hold | ⟨ht, map, a, hmap, ha⟩
  · exact h.queue e hold
  · exact .inr ⟨ht, map, a, h.bbMap ▸ hmap, ha⟩

lemma Soft.refl (s : State p) : Soft T s s := ⟨Rest.refl s, rfl, rfl, rfl, rfl⟩

lemma Soft.trans (h : Soft T s s') (h' : Soft T s' s'') : Soft T s s'' :=
  ⟨h.toRest.trans h'.toRest, h'.l1btb.trans h.l1btb, h'.pBuffer.trans h.pBuffer,
    h'.l2btb.trans h.l2btb, h'.l3btb.trans h.l3btb⟩

lemma Soft.hierarchy (h : Soft T s s') : s'.hierarchy = s.hierarchy := by
  simp only [State.hierarchy, h.l1btb, h.l2btb, h.l3btb]

lemma Calm.refl (s : State p) : Calm T s s := ⟨Soft.refl s, rfl⟩

lemma Calm.trans (h : Calm T s s') (h' : Calm T s' s'') : Calm T s s'' :=
  ⟨h.toSoft.trans h'.toSoft, h'.books.trans h.books⟩

lemma Calm.quiet (h : Calm T s s') : Quiet s s' := ⟨h.books, h.hierarchy⟩

lemma Silent.refl (s : State p) : Silent T s s := ⟨Calm.refl s, rfl⟩

lemma Silent.trans (h : Silent T s s') (h' : Silent T s' s'') : Silent T s s'' :=
  ⟨h.toCalm.trans h'.toCalm, h'.stats.trans h.stats⟩

/-! ## Counting and the tag filters -/

lemma soft_others (s : State p) (l1 : BTBCache p.l1CompressedTags)
    (pb : BTBCache p.pbCompressedTags) (next : Nat)
    (table : Vector ActiveChainEntry p.maxChainTrackerEntries) (demand : List Addr)
    (prev : PrevBrInfo) (stats : List Stat) :
    Soft T s { s with
      l1CompressedTags := l1, pbCompressedTags := pb, nextChainId := next, chainTable := table
      currentCycleDemand := demand, prevBwBranch := prev, stats := stats } :=
  ⟨⟨fun _ => rfl, rfl, rfl, rfl, fun _ h => .inl h⟩, rfl, rfl, rfl, rfl⟩

lemma soft_count (s : State p) (stat : Stat) : Soft T s (s.count stat) :=
  soft_others s _ _ _ _ _ _ _

lemma calm_count (s : State p) {stat : Stat} (h : stat.isAccount = false) :
    Calm T s (s.count stat) := by
  refine ⟨soft_count s stat, ?_⟩
  simp [books, count, h]

structure Counted (accounts : List Stat) (s s' : State p) : Prop where
  state : ∃ stats, s' = { s with stats := stats }
  accounts : s'.books.accounts = accounts ++ s.books.accounts
  samples : s'.samples = s.samples

lemma Counted.refl (s : State p) : Counted [] s s := ⟨⟨s.stats, rfl⟩, rfl, rfl⟩

variable {a : List Stat}

lemma Counted.trans (h : Counted a s s') (h' : Counted [] s' s'') : Counted a s s'' := by
  obtain ⟨_, hs⟩ := h.state
  obtain ⟨stats', hs'⟩ := h'.state
  exact ⟨⟨stats', by rw [hs', hs]⟩, h'.accounts.trans h.accounts, h'.samples.trans h.samples⟩

lemma counted_count (s : State p) (stat : Stat) (h : stat.isAccount = false)
    (h' : stat.triggerSample = none) : Counted [] s (s.count stat) :=
  ⟨⟨_, rfl⟩, List.filter_cons_of_neg (by simp [h]), List.filterMap_cons_none h'⟩

lemma Counted.soft (h : Counted a s s') : Soft T s s' := by
  obtain ⟨_, rfl⟩ := h.state
  exact soft_others s _ _ _ _ _ _ _

lemma Counted.chains (h : Counted a s s') : s'.chains = s.chains := by
  obtain ⟨_, rfl⟩ := h.state
  rfl

lemma Counted.books (h : Counted a s s') :
    s'.books = { s.books with accounts := a ++ s.books.accounts } := by
  obtain ⟨_, rfl⟩ := h.state
  exact congrArg (Books.mk s.pBuffer s.pbCompressedTags) h.accounts

lemma Counted.calm (h : Counted [] s s') : Calm T s s' := ⟨h.soft, h.books⟩

lemma counted_recordBTBAccess (s : State p) (level : BTBAccessLevel) (reason : BTBAccessReason) :
    Counted [] s (s.recordBTBAccess level reason) := by
  unfold recordBTBAccess
  dsimp only
  have h1 := counted_count s .l1Accesses rfl rfl
  split
  · split
    · exact h1.trans (counted_count _ _ rfl rfl)
    · exact h1
  · have h2 := h1.trans (counted_count _ .l2Accesses rfl rfl)
    split
    · exact h2
    · exact h2.trans (counted_count _ _ rfl rfl)

lemma counted_countFilterCheck (s : State p) (approx exact : Option BTBEntry) :
    Counted [] s (s.countFilterCheck approx exact) := by
  unfold countFilterCheck
  dsimp only
  have h1 := counted_count s .compressedTagChecks rfl rfl
  have h : Counted [] s
      (if approx.isSome && !exact.isSome then
        (s.count .compressedTagChecks).count .compressedTagFalsePositives
      else if !approx.isSome && exact.isSome then
        (s.count .compressedTagChecks).count .compressedTagFalseNegatives
      else s.count .compressedTagChecks) := by
    split
    · exact h1.trans (counted_count _ _ rfl rfl)
    · split
      · exact h1.trans (counted_count _ _ rfl rfl)
      · exact h1
  split
  · split
    · exact h
    · exact h.trans (counted_count _ _ rfl rfl)
  · exact h

section

variable (s : State p) (pc : Addr) (tid : ThreadID)

/-- Without the filter the check is an exact one. -/
lemma l1ApproxContains_spec :
    Counted [] s (s.l1ApproxContains pc tid).1 ∧
      (p.useCompressedTagFilter = false →
        (s.l1ApproxContains pc tid).2 = (s.l1btb.findEntry ⟨pc, tid⟩).isSome) := by
  cases hf : p.useCompressedTagFilter with
  | false =>
    rw [l1ApproxContains, hf]
    exact ⟨Counted.refl s, fun _ => rfl⟩
  | true =>
    rw [l1ApproxContains, hf]
    exact ⟨counted_countFilterCheck s _ _, fun h => by cases h⟩

lemma pbApproxContains_spec :
    Counted [] s (s.pbApproxContains pc tid).1 ∧
      (p.useCompressedTagFilter = false →
        (s.pbApproxContains pc tid).2 = (s.pBuffer.findEntry ⟨pc, tid⟩).isSome) := by
  cases hf : p.useCompressedTagFilter with
  | false =>
    rw [pbApproxContains, hf]
    exact ⟨Counted.refl s, fun _ => rfl⟩
  | true =>
    rw [pbApproxContains, hf]
    exact ⟨counted_countFilterCheck s _ _, fun h => by cases h⟩

/-- What neither filter has is in neither level, or not among the shadow tags. -/
lemma approxContains_spec :
    Counted [] s (s.approxContains pc tid).1 ∧ ((s.approxContains pc tid).2 = false →
      (p.useCompressedTagFilter = false →
        s.l1btb.findEntry ⟨pc, tid⟩ = none ∧ s.pBuffer.findEntry ⟨pc, tid⟩ = none) ∧
      (p.useCompressedTagFilter = true → s.pbCompressedTags.findEntry ⟨pc, tid⟩ = none)) := by
  obtain ⟨counted1, exact1⟩ := l1ApproxContains_spec s pc tid
  obtain ⟨counted2, exact2⟩ := pbApproxContains_spec (s.l1ApproxContains pc tid).1 pc tid
  cases h1 : (s.l1ApproxContains pc tid).2 with
  | true =>
    simp only [approxContains, h1, if_true]
    exact ⟨counted1, fun h => by cases h⟩
  | false =>
    simp only [approxContains, h1, Bool.false_eq_true, if_false]
    refine ⟨counted1.trans counted2, fun h2 => ⟨fun hf => ?_, fun hf => ?_⟩⟩
    · rw [exact1 hf] at h1
      rw [exact2 hf, (counted1.soft (T := fun _ => True)).pBuffer] at h2
      exact ⟨not_isSome_iff_eq_none.mp (by rw [h1]; exact Bool.false_ne_true),
        not_isSome_iff_eq_none.mp (by rw [h2]; exact Bool.false_ne_true)⟩
    · have htags : (s.l1ApproxContains pc tid).1.pbCompressedTags = s.pbCompressedTags :=
        congrArg Books.pbCompressedTags counted1.books
      simp only [pbApproxContains, hf, Bool.not_true, Bool.false_eq_true, if_false] at h2
      rw [← htags]
      exact not_isSome_iff_eq_none.mp (by rw [h2]; exact Bool.false_ne_true)

end

/-- The answers of the filter checks depend on the tags only. -/
lemma l1ApproxContains_congr (s t : State p) (h : t.l1btb = s.l1btb)
    (htags : t.l1CompressedTags = s.l1CompressedTags) (pc : Addr) (tid : ThreadID) :
    (t.l1ApproxContains pc tid).2 = (s.l1ApproxContains pc tid).2 := by
  unfold l1ApproxContains
  rw [h, htags]
  split <;> rfl

lemma pbApproxContains_congr (s t : State p) (h : t.pBuffer = s.pBuffer)
    (htags : t.pbCompressedTags = s.pbCompressedTags) (pc : Addr) (tid : ThreadID) :
    (t.pbApproxContains pc tid).2 = (s.pbApproxContains pc tid).2 := by
  unfold pbApproxContains
  rw [h, htags]
  split <;> rfl

lemma approxContains_of_stats (s : State p) (stats : List Stat) (pc : Addr) (tid : ThreadID) :
    ({ s with stats := stats }.approxContains pc tid).2 = (s.approxContains pc tid).2 := by
  obtain ⟨after, hafter⟩ := (l1ApproxContains_spec s pc tid).1.state
  obtain ⟨after', hafter'⟩ := (l1ApproxContains_spec { s with stats := stats } pc tid).1.state
  have hl1 : ({ s with stats := stats }.l1ApproxContains pc tid).2 =
      (s.l1ApproxContains pc tid).2 :=
    l1ApproxContains_congr s { s with stats := stats } rfl rfl pc tid
  unfold approxContains
  dsimp only
  rw [hl1, hafter, hafter']
  split
  · rfl
  · exact pbApproxContains_congr { s with stats := after } { s with stats := after' } rfl rfl pc tid

section

variable (s : State p) (pc : Addr) (tid : ThreadID)

lemma approxContains_again :
    ((s.approxContains pc tid).1.approxContains pc tid).2 = (s.approxContains pc tid).2 := by
  obtain ⟨stats, hs⟩ := (approxContains_spec s pc tid).1.state
  rw [hs]
  exact approxContains_of_stats s stats pc tid

lemma still_l1CompressedTagSync (action : TagAction) :
    ∃ s', s.l1CompressedTagSync pc tid action = .ok s' ∧ Still T s s' := by
  unfold l1CompressedTagSync
  split
  · exact ⟨s, rfl, Calm.refl s, rfl⟩
  · cases action with
    | hit => exact ⟨_, rfl, ⟨soft_others s _ _ _ _ _ _ _, rfl⟩, rfl⟩
    | invalidate => exact ⟨s, rfl, Calm.refl s, rfl⟩
    | insert =>
      dsimp only
      split
      · exact ⟨_, rfl, ⟨soft_others s _ _ _ _ _ _ _, rfl⟩, rfl⟩
      · rw [insertEntry_eq _ _ _ (findVictim_invalid s.l1CompressedTags ⟨pc, tid⟩)]
        exact ⟨_, rfl, ⟨soft_others s _ _ _ _ _ _ _, rfl⟩, rfl⟩

lemma pbCompressedTagSync_insert :
    s.pbCompressedTagSync pc tid .insert =
      .ok { s with pbCompressedTags := if p.useCompressedTagFilter then
        s.pbCompressedTags.replace s.curTick ⟨pc, tid⟩ id else s.pbCompressedTags } := by
  cases hf : p.useCompressedTagFilter with
  | false => simp [pbCompressedTagSync, hf]
  | true =>
    have hinv := findVictim_invalid s.pbCompressedTags ⟨pc, tid⟩
    simp only [pbCompressedTagSync, hf, insertEntry_eq _ _ _ hinv, replace,
      modify_id]
    rfl

lemma pbCompressedTagSync_invalidate :
    s.pbCompressedTagSync pc tid .invalidate =
      .ok { s with pbCompressedTags := if p.useCompressedTagFilter then
          match s.pbCompressedTags.findEntry ⟨pc, tid⟩ with
          | some m => s.pbCompressedTags.invalidate m
          | none => s.pbCompressedTags
        else s.pbCompressedTags } := by
  unfold pbCompressedTagSync
  cases p.useCompressedTagFilter with
  | false => rfl
  | true =>
    cases s.pbCompressedTags.findEntry ⟨pc, tid⟩ with
    | some | none => rfl

end

/-! ## Staging and the chain tracker -/

lemma mem_insertDeferred {entry e : DeferredPrefetchEntry} {queue : List DeferredPrefetchEntry}
    (h : e ∈ insertDeferred entry queue) : e = entry ∨ e ∈ queue := by
  rcases List.mem_append.mp h with hm | hm
  · exact .inr ((List.takeWhile_sublist _).subset hm)
  · rcases List.mem_cons.mp hm with he | hm
    · exact .inl he
    · exact .inr ((List.dropWhile_sublist _).subset hm)

variable {tid : ThreadID}

section

variable (s : State p)

lemma silent_prefetchViaBBMap (hT : T tid) (lookupAddr : Addr)
    (isTakenPath triggeredByPBHit : Bool) (depth : Nat) (baseLatency : Cycles)
    (triggerType : BranchType) (chainId : Nat) (allocateChain : Bool) :
    Silent T s (s.prefetchViaBBMap tid lookupAddr isTakenPath triggeredByPBHit depth baseLatency
      triggerType chainId allocateChain) := by
  unfold prefetchViaBBMap
  split
  · exact Silent.refl s
  · rename_i pfPC hmap
    dsimp only
    split
    · exact Silent.refl s
    · split
      · exact Silent.refl s
      · refine ⟨⟨⟨⟨fun _ => rfl, rfl, rfl, rfl, ?_⟩, rfl, rfl, rfl, rfl⟩, rfl⟩, rfl⟩
        intro e he
        rcases mem_insertDeferred he with rfl | hold
        · obtain ⟨map, hb, ha⟩ := bind_eq_some_iff.mp hmap
          exact .inr ⟨hT, map, lookupAddr, hb, ha⟩
        · exact .inl hold

lemma counted_ite {c : Prop} [Decidable c] {r r' : State p × Bool × Bool} (h : Counted [] s r.1)
    (h' : Counted [] s r'.1) : Counted [] s (if c then r else r').1 := by
  split
  · exact h
  · exact h'

lemma applyNewPBitsLogic_counted (type : BranchType)
    (taken isBackward doPfTarget doPfThrough : Bool) (triggerLoc : TriggerLocation) :
    Counted [] s
      (s.applyNewPBitsLogic type taken isBackward doPfTarget doPfThrough triggerLoc).1 := by
  unfold applyNewPBitsLogic
  dsimp only
  repeat' apply counted_ite
  all_goals first | exact Counted.refl s | exact counted_count s _ rfl rfl

lemma silent_track (next : Nat)
    (table : Vector ActiveChainEntry p.maxChainTrackerEntries) (prev : PrevBrInfo) :
    Silent T s { s with nextChainId := next, chainTable := table, prevBwBranch := prev } :=
  ⟨⟨soft_others s _ _ _ _ _ _ _, rfl⟩, rfl⟩

lemma calm_tryInitialTrigger (hT : T tid) (instPC : Addr) (type : BranchType)
    (targetAddr : Addr) (doPfTarget doPfThrough taken : Bool) (triggerLoc : TriggerLocation)
    (baseLatency : Cycles) (triggeredByPBHit isL1Miss : Bool) :
    Calm T s (s.tryInitialTrigger tid instPC type targetAddr doPfTarget doPfThrough taken
      triggerLoc baseLatency triggeredByPBHit isL1Miss) := by
  unfold tryInitialTrigger
  split
  · exact Calm.refl s
  · dsimp only
    split
    · exact Calm.refl s
    · have hbits := applyNewPBitsLogic_counted s type taken (decide (targetAddr < instPC))
        doPfTarget doPfThrough triggerLoc
      generalize s.applyNewPBitsLogic type taken (decide (targetAddr < instPC)) doPfTarget
        doPfThrough triggerLoc = r at hbits ⊢
      split
      · have hchain : Calm T s { r.1 with
            prevBwBranch := ⟨decide (targetAddr < instPC), isL1Miss⟩
            nextChainId := r.1.nextChainId + 1 } :=
          hbits.calm.trans (silent_track r.1 _ _ _).toCalm
        -- one or both paths are staged
        split
        · split
          · exact (hchain.trans (silent_prefetchViaBBMap _ hT _ _ _ _ _ _ _ _).toCalm).trans
              (silent_prefetchViaBBMap _ hT _ _ _ _ _ _ _ _).toCalm
          · exact hchain.trans (silent_prefetchViaBBMap _ hT _ _ _ _ _ _ _ _).toCalm
        · split
          · exact hchain.trans (silent_prefetchViaBBMap _ hT _ _ _ _ _ _ _ _).toCalm
          · exact hchain
      · exact hbits.calm.trans (silent_track r.1 _ _ _).toCalm

lemma silent_setLastEndReason (i : Fin p.maxChainTrackerEntries)
    (reason : ChainEndReason) : Silent T s (s.setLastEndReason i reason) :=
  silent_track s _ _ _

lemma calm_recordChainEnd (i : Fin p.maxChainTrackerEntries) : Calm T s (s.recordChainEnd i) := by
  unfold recordChainEnd
  refine (calm_count s ?_).trans (silent_setLastEndReason _ i .none).toCalm
  cases s.chainTable[i].lastEndReason <;> rfl

lemma calm_allocateChainSlot (entry : DeferredPrefetchEntry)
    (i : Fin p.maxChainTrackerEntries) : Calm T s (s.allocateChainSlot entry i) := by
  unfold allocateChainSlot
  dsimp only
  split
  · exact Calm.refl s
  · split
    · exact (silent_track s _ _ _).toCalm
    · split
      · exact ((calm_recordChainEnd s i).trans (calm_count _ rfl)).trans
          (silent_track _ _ _ _).toCalm
      · exact ((calm_count s rfl).trans (calm_count _ rfl)).trans (silent_track _ _ _ _).toCalm

end

lemma branchTypeOf_spec (inst : Option StaticInst) :
    Meets (branchTypeOf inst) (fun _ => True) (fun fault => fault = .nullInst) := by
  cases inst with
  | none => exact rfl
  | some => exact trivial

lemma silent_chargeChain (s : State p) (i : Fin p.maxChainTrackerEntries) :
    Silent T s (s.chargeChain i).1 := by
  unfold chargeChain
  dsimp only
  split
  · exact (silent_track s _ _ _).trans (silent_setLastEndReason _ i _)
  · exact silent_track s _ _ _

section

variable (s : State p) (entry : DeferredPrefetchEntry)

lemma silent_stageTarget (hT : T entry.tid)
    (targetAddr : Addr) (baseLatency : Cycles) (pfType : BranchType)
    (i : Fin p.maxChainTrackerEntries) :
    Silent T s (s.stageTarget entry targetAddr baseLatency pfType i) := by
  unfold stageTarget
  dsimp only
  split
  · exact (silent_prefetchViaBBMap s hT _ _ _ _ _ _ _ _).trans (silent_setLastEndReason _ i _)
  · exact silent_prefetchViaBBMap s hT _ _ _ _ _ _ _ _

lemma silent_continueChain (hT : T entry.tid)
    (pfEntry : BTBEntry) (arrival : Cycles) (i : Fin p.maxChainTrackerEntries) :
    Meets (s.continueChain entry pfEntry arrival i) (Silent T s)
      (fun fault => fault = .nullInst) := by
  unfold continueChain
  split
  · exact Silent.refl s
  · refine (branchTypeOf_spec pfEntry.inst).bind ?_
    intro pfType _
    have hcharge := silent_chargeChain (T := T) s i
    dsimp only [meets_pure]
    split
    · split
      · exact (hcharge.trans (silent_stageTarget _ entry hT _ _ _ i)).trans
          (silent_prefetchViaBBMap _ hT _ _ _ _ _ _ _ _)
      · exact hcharge.trans (silent_prefetchViaBBMap _ hT _ _ _ _ _ _ _ _)
    · split
      · exact hcharge.trans (silent_stageTarget _ entry hT _ _ _ i)
      · exact hcharge

lemma calm_missDeferred (chainEntry : Option (Fin p.maxChainTrackerEntries)) :
    Calm T s (s.missDeferred entry chainEntry) := by
  have hcount : Calm T s (s.count (if p.enableL3 then .pfL3LookupMiss else .pfL2LookupMiss)) := by
    split
    · exact calm_count s rfl
    · exact calm_count s rfl
  unfold missDeferred
  dsimp only
  split
  · split
    · exact hcount
    · exact hcount.trans (silent_setLastEndReason _ _ _).toCalm
  · exact hcount

end

/-! ## Filling the buffer -/

def FillSource (s : State p) (key : KeyType) (src : BTBEntry) : Prop :=
  (∃ l, s.l2btb.findEntry key = some l ∧ src = s.l2btb.get l) ∨
    (s.l2btb.findEntry key = none ∧ p.enableL3 = true ∧
      ∃ l, s.l3btb.findEntry key = some l ∧ src = s.l3btb.get l)

lemma FillSource.of_hierarchy (h : s'.hierarchy = s.hierarchy) {key : KeyType} {src : BTBEntry}
    (hsrc : s.FillSource key src) : s'.FillSource key src := by
  have h2 : s'.l2btb = s.l2btb := congrArg (fun x => x.2.1) h
  have h3 : s'.l3btb = s.l3btb := congrArg (fun x => x.2.2) h
  unfold FillSource
  rw [h2, h3]
  exact hsrc

/-- One buffer fill. Which keys may be filled is told by `F`. -/
structure Fill (F : KeyType → Prop) (T : ThreadID → Prop) (s s' : State p) (key : KeyType)
    (src : BTBEntry) (way : Loc p.pBuffer.shape) : Prop extends Rest T s s' where
  l1btb : s'.l1btb = s.l1btb
  l2btb : s'.l2btb = s.l2btb
  l3btb : s'.l3btb = s.l3btb
  wanted : F key
  source : s.FillSource key src
  way_set : way.1 = p.pBuffer.shape.extractSet key
  /-- the exact filter lets only keys pass that neither L1 nor the buffer has -/
  absent : p.useCompressedTagFilter = false →
    s.l1btb.findEntry key = none ∧ s.pBuffer.findEntry key = none
  way_slot : s.pBuffer.findEntry key = none → way = s.pBuffer.slotFor key
  pBuffer : lines s'.pBuffer = Function.update (lines s.pBuffer) way
    ⟨true, p.pBuffer.shape.tagOf key, key.address, src.target, src.inst⟩

/-- One buffer fill, with the whole new content of the books. -/
structure Filling (s t : State p) (i : Issue) : Prop where
  hierarchy : t.hierarchy = s.hierarchy
  source : s.FillSource i.key i.src
  fresh : p.useCompressedTagFilter = true → s.pbCompressedTags.findEntry i.key = none
  books : t.books = s.books.fill s.curTick i

def Prefetched (F : KeyType → Prop) (T : ThreadID → Prop) : State p → State p → Prop :=
  Relation.ReflTransGen (fun s s' => Soft T s s' ∨ ∃ key src way, Fill F T s s' key src way)

/-- What a prefetcher does whose issues all meet `A`. -/
def Fetching (A : Issue → Prop) : State p → State p → Prop :=
  ReflTransGen (fun s t => Quiet s t ∨ ∃ i, A i ∧ Filling s t i)

/-- Both at once. -/
def Prefetching (A : Issue → Prop) (F : KeyType → Prop) (T : ThreadID → Prop) :
    State p → State p → Prop :=
  ReflTransGen (fun s s' => Calm T s s' ∨
    ∃ i way, A i ∧ Fill F T s s' i.key i.src way ∧ Filling s s' i)

variable {A : Issue → Prop} {F : KeyType → Prop}

lemma Calm.prefetching (h : Calm T s s') : Prefetching A F T s s' :=
  ReflTransGen.single (.inl h)

lemma Prefetching.trans (h : Prefetching A F T s s') (h' : Prefetching A F T s' s'') :
    Prefetching A F T s s'' :=
  Relation.ReflTransGen.trans h h'

lemma Prefetching.mono {B : Issue → Prop} (hAB : ∀ i, A i → B i)
    (h : Prefetching A F T s s') : Prefetching B F T s s' := by
  refine ReflTransGen.mono (fun _ _ hstep => ?_) _ _ h
  exact hstep.imp id (fun ⟨i, way, hi, hfill⟩ => ⟨i, way, hAB i hi, hfill⟩)

lemma Prefetching.prefetched (h : Prefetching A F T s s') : Prefetched F T s s' := by
  refine Relation.ReflTransGen.mono (fun _ _ hstep => ?_) _ _ h
  rcases hstep with hcalm | ⟨i, way, _, hfill, _⟩
  · exact .inl hcalm.toSoft
  · exact .inr ⟨i.key, i.src, way, hfill⟩

lemma Prefetching.fetching (h : Prefetching A F T s s') : Fetching A s s' := by
  refine Relation.ReflTransGen.mono (fun _ _ hstep => ?_) _ _ h
  rcases hstep with hcalm | ⟨i, _, hi, _, hfill⟩
  · exact .inl hcalm.quiet
  · exact .inr ⟨i, hi, hfill⟩

lemma Prefetched.rest (h : Prefetched F T s s') : Rest T s s' := by
  induction h with
  | refl => exact Rest.refl s
  | tail _ hstep ih =>
    rcases hstep with hsoft | ⟨_, _, _, hfill⟩
    · exact ih.trans hsoft.toRest
    · exact ih.trans hfill.toRest

lemma Prefetched.levels (h : Prefetched F T s s') :
    s'.l1btb = s.l1btb ∧ s'.l2btb = s.l2btb ∧ s'.l3btb = s.l3btb := by
  induction h with
  | refl => exact ⟨rfl, rfl, rfl⟩
  | tail _ hstep ih =>
    obtain ⟨h1, h2, h3⟩ := ih
    rcases hstep with hsoft | ⟨_, _, _, hfill⟩
    · exact ⟨hsoft.l1btb.trans h1, hsoft.l2btb.trans h2, hsoft.l3btb.trans h3⟩
    · exact ⟨hfill.l1btb.trans h1, hfill.l2btb.trans h2, hfill.l3btb.trans h3⟩

lemma Fetching.hierarchy (h : Fetching A s s') : s'.hierarchy = s.hierarchy := by
  induction h with
  | refl => rfl
  | tail _ hstep ih =>
    rcases hstep with hq | ⟨_, _, hfill⟩
    · exact hq.hierarchy.trans ih
    · exact hfill.hierarchy.trans ih

lemma Prefetching.meets {x : Except Fault (State p)} {bad : Fault → Prop}
    (h : Prefetching A F T s s') (hx : Meets x (Prefetching A F T s') bad) :
    Meets x (Prefetching A F T s) bad :=
  hx.mono (fun _ h' => h.trans h') (fun _ hb => hb)

lemma countPrefetch_counted (s : State p) (takenPrefetched : Bool) :
    Counted [.totalPrefetches] s (s.countPrefetch takenPrefetched) := by
  have htotal : Counted [.totalPrefetches] s ((s.count .pfIssued).count .totalPrefetches) :=
    ⟨⟨_, rfl⟩, rfl, rfl⟩
  have h := htotal.trans (counted_recordBTBAccess _ .l2 .prefetch)
  unfold countPrefetch
  dsimp only
  split
  · split
    · exact h.trans (counted_count _ .takenPathPrefetches rfl rfl)
    · exact h.trans (counted_count _ .notTakenPathPrefetches rfl rfl)
  · exact h

lemma get_findVictim_flags (C : BTBCache p.pBuffer) (key : KeyType) :
    ((C.findVictim key true).2.get (C.findVictim key true).1) =
      (C.get (C.findVictim key true).1).invalidate := by
  rw [get_findVictim_drop, if_pos rfl]
  rfl

lemma insertPrefetch_eq (s : State p) (key : KeyType) (copy : BTBEntry → BTBEntry) :
    s.insertPrefetch key.address key.tid copy = .ok { s with
      pBuffer := s.pBuffer.replace s.curTick key copy
      pbCompressedTags := if p.useCompressedTagFilter then
        s.pbCompressedTags.replace s.curTick key id else s.pbCompressedTags
      stats := if (s.books.victim key).prefetched then
        .uselessPrefetches (s.books.victim key).prefetchTriggerType :: s.stats else s.stats } := by
  have hinv := findVictim_invalid s.pBuffer key
  have hflags := get_findVictim_flags s.pBuffer key
  have hcount : (if (s.pBuffer.get (s.pBuffer.findVictim key true).1).invalidate.prefetched then
        s.count (.uselessPrefetches (s.pBuffer.get
          (s.pBuffer.findVictim key true).1).invalidate.prefetchTriggerType) else s) =
      { s with stats := if (s.books.victim key).prefetched then
        .uselessPrefetches (s.books.victim key).prefetchTriggerType :: s.stats else s.stats } := by
    change (if (s.books.victim key).prefetched then _ else _) = _
    split <;> rfl
  unfold insertPrefetch
  dsimp only
  rw [show (⟨key.address, key.tid⟩ : KeyType) = key from rfl, hflags, hcount,
    insertEntry_eq _ _ _ hinv]
  change (pbCompressedTagSync _ _ _ _ >>= _) = _
  rw [pbCompressedTagSync_insert]
  rfl

lemma lines_replace (C : BTBCache p.pBuffer) (now : Tick) (i : Issue) :
    lines (C.replace now i.key (i.copy p)) = Function.update (lines C)
      (C.findVictim i.key true).1
      ⟨true, p.pBuffer.shape.tagOf i.key, i.key.address, i.src.target, i.src.inst⟩ := by
  funext l
  simp only [lines, get_replace]
  by_cases hl : l = (C.findVictim i.key true).1
  · rw [if_pos hl, hl, Function.update_self]
    rfl
  · rw [if_neg hl, Function.update_of_ne hl]
    rfl

lemma enqueuePrefetch_fills (s : State p) (i : Issue) (wanted : F i.key)
    (source : s.FillSource i.key i.src)
    (hpass : (s.approxContains i.key.address i.key.tid).2 = false) :
    ∃ u t way, s.enqueuePrefetch i.key.address i.key.tid i.src i.arrivalCycle i.triggeredByPBHit
        i.pfDistance i.takenPrefetched i.triggerType i.fromL3 = .ok t ∧ Calm T s u ∧
      Fill F T u t i.key i.src way ∧ Filling u t i ∧ t.chains = s.chains ∧
      t.samples = s.samples := by
  obtain ⟨hcheck, habsent⟩ := approxContains_spec s i.key.address i.key.tid
  obtain ⟨hexact, hfresh⟩ := habsent hpass
  have hcount := countPrefetch_counted
    (s.approxContains i.key.address i.key.tid).1 i.takenPrefetched
  simp only [enqueuePrefetch, hpass, Bool.false_eq_true, if_false]
  generalize (s.approxContains i.key.address i.key.tid).1 = u at hcheck hcount ⊢
  obtain ⟨stats, rfl⟩ := hcheck.state
  have hhit := hcount.books
  have hsamples := hcount.samples.trans hcheck.samples
  obtain ⟨stats', hstate⟩ := hcount.state
  rw [hstate] at hhit hsamples ⊢
  refine ⟨_, _, (s.pBuffer.findVictim i.key true).1, insertPrefetch_eq _ i.key (i.copy p),
    hcheck.calm, ⟨⟨fun _ => rfl, rfl, rfl, rfl, fun _ h => .inl h⟩, rfl, rfl, rfl, wanted, source,
      Cache.findVictim_set _ _ _, hexact,
      fun h => (Cache.slotFor_of_none h true).symm, lines_replace s.pBuffer s.curTick i⟩,
    ⟨rfl, source, hfresh, ?_⟩, rfl, ?_⟩
  · have haccounts : stats'.filter Stat.isAccount =
        .totalPrefetches :: stats.filter Stat.isAccount := congrArg Books.accounts hhit
    refine congrArg (Books.mk _ _) ?_
    change List.filter _ (if (s.books.victim i.key).prefetched then _ else _) =
      if (s.books.victim i.key).prefetched then _ :: .totalPrefetches :: stats.filter Stat.isAccount
      else .totalPrefetches :: stats.filter Stat.isAccount
    rw [← haccounts]
    split
    · exact List.filter_cons_of_pos rfl
    · rfl
  · rw [← hsamples]
    unfold samples
    dsimp only
    split
    · exact List.filterMap_cons_none rfl
    · rfl

lemma enqueuePrefetch_spec (s : State p) (i : Issue) (hA : A i) (wanted : F i.key)
    (source : s.FillSource i.key i.src) :
    ∃ t, s.enqueuePrefetch i.key.address i.key.tid i.src i.arrivalCycle i.triggeredByPBHit
        i.pfDistance i.takenPrefetched i.triggerType i.fromL3 = .ok t ∧
      Prefetching A F T s t ∧ t.chains = s.chains ∧ t.samples = s.samples := by
  cases hp : (s.approxContains i.key.address i.key.tid).2 with
  | true =>
    have hcheck := (approxContains_spec s i.key.address i.key.tid).1
    refine ⟨_, ?_, hcheck.calm.prefetching, hcheck.chains, hcheck.samples⟩
    simp only [enqueuePrefetch, hp, if_true]
  | false =>
    obtain ⟨u, t, way, ht, hcalm, hfill, hfilling, hsame⟩ :=
      enqueuePrefetch_fills (T := T) s i wanted source hp
    exact ⟨t, ht, hcalm.prefetching.tail (.inr ⟨i, way, hA, hfill, hfilling⟩), hsame⟩

/-! ## The Markov prefetcher -/

/-- What a prefetcher does that stages nothing. -/
structure Hunting (F : KeyType → Prop) (T : ThreadID → Prop) (s s' : State p) : Prop where
  prefetching : Prefetching (fun _ => True) F T s s'
  chains : s'.chains = s.chains

lemma Counted.hunting (h : Counted [] s s') : Hunting F T s s' := ⟨h.calm.prefetching, h.chains⟩

lemma Hunting.refl (s : State p) : Hunting F T s s := (Counted.refl s).hunting

lemma Hunting.trans (h : Hunting F T s s') (h' : Hunting F T s' s'') : Hunting F T s s'' :=
  ⟨h.prefetching.trans h'.prefetching, h'.chains.trans h.chains⟩

lemma Hunting.meets {x : Except Fault (State p)} {bad : Fault → Prop} (h : Hunting F T s s')
    (hx : Meets x (Hunting F T s') bad) : Meets x (Hunting F T s) bad :=
  hx.mono (fun _ h' => h.trans h') (fun _ hb => hb)

def SuccessorsFrom (F : KeyType → Prop) (tid : ThreadID) (s : State p) : Prop :=
  ∀ l, ∀ a ∈ (s.markov.get l).successors, F ⟨a.1, tid⟩

lemma Hunting.successorsFrom (h : Hunting F T s s') (hs : SuccessorsFrom F tid s) :
    SuccessorsFrom F tid s' := by
  intro l a ha
  rw [h.prefetching.prefetched.rest.markov l] at ha
  exact hs l a ha

variable {chase : Option (Chase p)}

lemma chaseSuccessor_spec
    (hchase : ∀ f, chase = some f → ∀ t pc latency type, SuccessorsFrom F tid t →
      Meets (f t pc latency type) (Hunting F T t) (fun fault => fault = .nullInst))
    (s : State p) (successor : Addr) (src : BTBEntry) (arrival : Cycles)
    (hs : SuccessorsFrom F tid s) :
    Meets (chaseSuccessor chase s successor src arrival) (Hunting F T s)
      (fun fault => fault = .nullInst) := by
  cases chase with
  | none => exact Hunting.refl s
  | some f =>
    refine (branchTypeOf_spec src.inst).bind ?_
    intro type _
    exact hchase f rfl s successor _ type hs

lemma counted_bufferCheck (s : State p) (toL1 : Bool) (successor : Addr) (tid : ThreadID) :
    Counted [] s (if toL1 then (s.count .pfL2LookupHit, false)
      else (s.count .pfL2LookupHit).pbApproxContains successor tid).1 := by
  have hhit := counted_count s .pfL2LookupHit rfl rfl
  split
  · exact hhit
  · exact hhit.trans (pbApproxContains_spec _ successor tid).1

lemma enqueuePrefetch_successor (h : Counted [] s s') {successor : Addr}
    {l : Loc p.l2btb.shape} (hl : s.l2btb.findEntry ⟨successor, tid⟩ = some l)
    (wanted : F ⟨successor, tid⟩) (arrival : Cycles) (triggeredByPBHit : Bool)
    (triggerType : BranchType) :
    ∃ t, s'.enqueuePrefetch successor tid (s.l2btb.get l) arrival triggeredByPBHit 0 false
      triggerType false = .ok t ∧ Hunting F T s' t := by
  have source : s'.FillSource ⟨successor, tid⟩ (s.l2btb.get l) :=
    FillSource.of_hierarchy (h.soft (T := T)).hierarchy (.inl ⟨l, hl, rfl⟩)
  obtain ⟨t, ht, hfill, hchains, _⟩ := enqueuePrefetch_spec (T := T) (F := F) (A := fun _ => True)
    s' ⟨⟨successor, tid⟩, s.l2btb.get l, arrival, triggeredByPBHit, 0, false, triggerType, false⟩
    trivial wanted source
  exact ⟨t, ht, hfill, hchains⟩

lemma prefetchSuccessors_spec
    (hchase : ∀ f, chase = some f → ∀ t pc latency type, SuccessorsFrom F tid t →
      Meets (f t pc latency type) (Hunting F T t) (fun fault => fault = .nullInst))
    (toL1 : Bool) (numSuccessors : Nat) (triggeredByPBHit : Bool) (triggerType : BranchType)
    (successors : List (Addr × Nat)) (hsucc : ∀ a ∈ successors, F ⟨a.1, tid⟩) (prefetched : Nat)
    (arrival : Cycles) (s : State p) (hs : SuccessorsFrom F tid s) :
    Meets (prefetchSuccessors chase tid toL1 numSuccessors triggeredByPBHit triggerType successors
      prefetched arrival s) (Hunting F T s) (fun fault => fault = .nullInst) := by
  induction successors generalizing prefetched arrival s with
  | nil => exact Hunting.refl s
  | cons a rest ih =>
    have hrest : ∀ b ∈ rest, F ⟨b.1, tid⟩ := fun b hb => hsucc b (List.mem_cons_of_mem a hb)
    -- the rest of the loop, from any state that prefetching has reached
    have next : ∀ {t : State p}, Hunting F T s t → ∀ n c,
        Meets (prefetchSuccessors chase tid toL1 numSuccessors triggeredByPBHit triggerType rest
          n c t) (Hunting F T s) (fun fault => fault = .nullInst) :=
      fun ht n c => ht.meets (ih hrest n c _ (ht.successorsFrom hs))
    obtain ⟨successor, freq⟩ := a
    unfold prefetchSuccessors
    dsimp only
    split
    · exact Hunting.refl s
    · split
      · exact next (Hunting.refl s) _ _
      · have hL1 := (l1ApproxContains_spec s successor tid).1
        generalize s.l1ApproxContains successor tid = q at hL1 ⊢
        split
        · exact next hL1.hunting _ _
        · split
          · exact next (hL1.trans (counted_count _ _ rfl rfl)).hunting _ _
          · rename_i l hl2
            have hPB := counted_bufferCheck q.1 toL1 successor tid
            generalize (if toL1 then _ else _) = r at hPB ⊢
            have hready : Hunting F T s r.1 := (hL1.trans hPB).hunting
            split
            · exact next hready _ _
            · obtain ⟨t, ht, hfill⟩ := enqueuePrefetch_successor (T := T) hPB hl2
                (hsucc (successor, freq) List.mem_cons_self) arrival triggeredByPBHit triggerType
              rw [ht]
              have htotal := hready.trans hfill
              refine (chaseSuccessor_spec hchase t successor _ arrival
                (htotal.successorsFrom hs)).bind ?_
              intro u hu
              exact next (htotal.trans hu) _ _

lemma hunting_touchMarkov (s : State p) (l : Loc p.markov.shape) :
    Hunting F T s ({ s with markov := s.markov.accessEntry s.curTick l }.count .mkHits) := by
  have htouch : Calm T s { s with markov := s.markov.accessEntry s.curTick l } :=
    ⟨⟨⟨fun _ => rfl, rfl, rfl, rfl, fun _ h => .inl h⟩, rfl, rfl, rfl, rfl⟩, rfl⟩
  exact ⟨(htouch.trans (calm_count _ rfl)).prefetching, rfl⟩

lemma prefetchMarkovSuccessor_spec (toL1 : Bool) (numSuccessors : Nat) (triggeredByPBHit : Bool)
    (tid : ThreadID) (depth : Nat) (s : State p) (pc : Addr) (baseLatency : Cycles)
    (triggerType : BranchType) (hs : SuccessorsFrom F tid s) :
    Meets (prefetchMarkovSuccessor toL1 numSuccessors triggeredByPBHit tid depth s pc baseLatency
      triggerType) (Hunting F T s) (fun fault => fault = .nullInst) := by
  induction depth generalizing s pc baseLatency triggerType with
  | zero =>
    unfold prefetchMarkovSuccessor
    split
    · exact Hunting.refl s
    · rename_i l _
      have htouch := hunting_touchMarkov (F := F) (T := T) s l
      exact htouch.meets (prefetchSuccessors_spec (fun f hf => by cases hf) _ _ _ _ _
        (fun a ha => hs l a ha) _ _ _ (htouch.successorsFrom hs))
  | succ d ih =>
    unfold prefetchMarkovSuccessor
    split
    · exact Hunting.refl s
    · rename_i l _
      have htouch := hunting_touchMarkov (F := F) (T := T) s l
      refine htouch.meets (prefetchSuccessors_spec ?_ _ _ _ _ _
        (fun a ha => hs l a ha) _ _ _ (htouch.successorsFrom hs))
      intro f hf t pc latency type ht
      split at hf
      · cases hf
        exact ih t pc latency type ht
      · cases hf

/-! ## The deferred queue event -/

lemma prefetchSource_fillSource {pc : Addr} {src : BTBEntry} {latency : Cycles} {fromL3 : Bool}
    (h : s.prefetchSource pc tid = some (src, latency, fromL3)) : s.FillSource ⟨pc, tid⟩ src := by
  unfold prefetchSource at h
  split at h
  · rename_i l hl
    cases h
    exact .inl ⟨l, hl, rfl⟩
  · rename_i hnone
    split at h
    · rename_i hL3
      obtain ⟨l, hl, he⟩ := map_eq_some_iff.mp h
      cases he
      exact .inr ⟨hnone, hL3, l, hl, rfl⟩
    · cases h

lemma prefetchSource_of_hierarchy (h : s'.hierarchy = s.hierarchy) (pc : Addr) (tid : ThreadID) :
    s'.prefetchSource pc tid = s.prefetchSource pc tid := by
  have h2 : s'.l2btb = s.l2btb := congrArg (fun x => x.2.1) h
  have h3 : s'.l3btb = s.l3btb := congrArg (fun x => x.2.2) h
  unfold prefetchSource
  rw [h2, h3]

def Permits (A : Issue → Prop) (s : State p) (e : DeferredPrefetchEntry) : Prop :=
  ∀ src latency fromL3, s.prefetchSource e.pc e.tid = some (src, latency, fromL3) →
    A (e.issue src latency fromL3)

lemma Permits.of_hierarchy (h : s'.hierarchy = s.hierarchy) {e : DeferredPrefetchEntry}
    (hs : s.Permits A e) : s'.Permits A e := by
  intro src latency fromL3 hsrc
  rw [prefetchSource_of_hierarchy h] at hsrc
  exact hs src latency fromL3 hsrc

lemma issueDeferred_spec (s : State p) (entry : DeferredPrefetchEntry)
    (chainEntry : Option (Fin p.maxChainTrackerEntries)) (pfEntry : BTBEntry) (pfLatency : Cycles)
    (fromL3 : Bool) (hT : T entry.tid) (hA : A (entry.issue pfEntry pfLatency fromL3))
    (wanted : F ⟨entry.pc, entry.tid⟩) (source : s.FillSource ⟨entry.pc, entry.tid⟩ pfEntry) :
    Meets (s.issueDeferred entry chainEntry pfEntry pfLatency fromL3) (Prefetching A F T s)
      (fun fault => fault = .nullInst) := by
  have hcount : Calm T s (s.count (if fromL3 then .pfL3LookupHit else .pfL2LookupHit)) := by
    split
    · exact calm_count s rfl
    · exact calm_count s rfl
  obtain ⟨t, ht, hfill, _⟩ := enqueuePrefetch_spec (T := T) (F := F)
    (s.count (if fromL3 then .pfL3LookupHit else .pfL2LookupHit))
    (entry.issue pfEntry pfLatency fromL3) hA wanted (source.of_hierarchy hcount.hierarchy)
  unfold issueDeferred
  refine Meets.bind_of_ok ht ?_
  dsimp only
  generalize (if entry.allocateChain then p.chainSlot entry.chainId else none) = slot
  have htotal {u : State p} (hu : Calm T t u) :=
    (hcount.prefetching.trans hfill).trans hu.prefetching
  have hcontinue {u : State p} (hu : Calm T t u) (i) :=
    (htotal hu).meets ((silent_continueChain u entry hT pfEntry (entry.issueTime + pfLatency)
      i).mono (fun _ h => h.toCalm.prefetching) (fun _ h => h))
  cases slot with
  | some i => exact hcontinue (calm_allocateChainSlot t entry i) i
  | none =>
    cases chainEntry with
    | none => exact htotal (Calm.refl t)
    | some i => exact hcontinue (Calm.refl t) i

def Dangling (p : Params) (entry : DeferredPrefetchEntry) : Prop :=
  entry.allocateChain = false ∧
    (if entry.chainId = 0 then none else p.chainSlot entry.chainId) = none

lemma processDeferredEntry_spec (s : State p) (entry : DeferredPrefetchEntry) (hT : T entry.tid)
    (hA : s.Permits A entry) (wanted : F ⟨entry.pc, entry.tid⟩) :
    Meets (s.processDeferredEntry entry) (Prefetching A F T s)
      (fun fault => fault = .nullInst ∨ (fault = .nullChainEntry ∧ Dangling p entry)) := by
  unfold processDeferredEntry
  dsimp only
  generalize hslot : (if entry.chainId = 0 then none else p.chainSlot entry.chainId) = chainEntry
  split
  · exact (Calm.refl s).prefetching
  · have hcount : Calm T s (s.count .enqueueDeferred) := calm_count s rfl
    split
    · have hskip : Calm T s ((s.count .enqueueDeferred).count .skipDuetoDemand) :=
        hcount.trans (calm_count _ rfl)
      split
      · exact hskip.prefetching
      · rename_i halloc
        split
        · exact (hskip.trans (silent_setLastEndReason _ _ _).toCalm).prefetching
        · exact .inr ⟨rfl, Bool.not_eq_true _ ▸ halloc, hslot⟩
    · have hcheck := hcount.trans
        (approxContains_spec (s.count .enqueueDeferred) entry.pc entry.tid).1.calm
      split
      · refine Calm.prefetching (hcheck.trans (Calm.trans ?_ (calm_count _ rfl)))
        split
        · split
          · exact Calm.refl _
          · exact (silent_setLastEndReason _ _ _).toCalm
        · exact Calm.refl _
      · split
        · rename_i pfEntry pfLatency fromL3 hsrc
          exact hcheck.prefetching.meets ((issueDeferred_spec _ entry chainEntry pfEntry pfLatency
            fromL3 hT ((hA.of_hierarchy hcheck.hierarchy) _ _ _ hsrc) wanted
            (prefetchSource_fillSource hsrc)).mono (fun _ h => h) (fun _ h => .inl h))
        · exact (hcheck.trans (calm_missDeferred _ entry chainEntry)).prefetching

def readyEntries (s : State p) : List DeferredPrefetchEntry :=
  s.deferredPrefetchQueue.takeWhile
    (fun entry => p.noPrefetchLatency || decide (entry.issueTime ≤ s.curCycle))

lemma prefetching_processDeferredPrefetchQueue (s : State p)
    (hT : ∀ e ∈ s.deferredPrefetchQueue, T e.tid) (hA : ∀ e ∈ s.readyEntries, s.Permits A e)
    (wanted : ∀ e ∈ s.deferredPrefetchQueue, F ⟨e.pc, e.tid⟩) :
    Meets s.processDeferredPrefetchQueue (Prefetching A F T s)
      (fun fault => fault = .nullInst ∨
        (fault = .nullChainEntry ∧ ∃ e ∈ s.deferredPrefetchQueue, Dangling p e)) := by
  unfold processDeferredPrefetchQueue
  dsimp only
  generalize ht : (if s.deferredPrefetchQueue.isEmpty then s
    else s.count (.parallelChains s.activeChains.length)) = t
  have hcount : Calm T s t := by
    rw [← ht]
    split
    · exact Calm.refl s
    · exact calm_count s rfl
  have hready : t.deferredPrefetchQueue.takeWhile
      (fun entry => p.noPrefetchLatency || decide (entry.issueTime ≤ t.curCycle)) =
        s.readyEntries := by
    rw [← ht]
    split <;> rfl
  rw [hready]
  generalize (fun entry : DeferredPrefetchEntry =>
    p.noPrefetchLatency || decide (entry.issueTime ≤ t.curCycle)) = ready
  have hpop : Calm T t
      { t with deferredPrefetchQueue := t.deferredPrefetchQueue.dropWhile ready } :=
    ⟨⟨⟨fun _ => rfl, rfl, rfl, rfl, fun _ h => .inl ((List.dropWhile_sublist _).subset h)⟩,
      rfl, rfl, rfl, rfl⟩, rfl⟩
  have hmem : ∀ e ∈ s.readyEntries, e ∈ s.deferredPrefetchQueue :=
    fun e he => (List.takeWhile_sublist _).subset he
  refine Meets.bind (meets_foldlM (R := Prefetching A F T s) ?_ _
    (hcount.trans hpop).prefetching) ?_
  · intro u e he hu
    refine hu.meets ((processDeferredEntry_spec u e (hT e (hmem e he))
      ((hA e he).of_hierarchy hu.fetching.hierarchy) (wanted e (hmem e he))).mono
      (fun _ h => h) ?_)
    rintro fault (hinst | ⟨hnull, hdangling⟩)
    · exact .inl hinst
    · exact .inr ⟨hnull, e, hmem e he, hdangling⟩
  · intro u hu
    exact hu.tail (.inl ⟨soft_others u _ _ _ _ _ _ _, rfl⟩)

lemma processDeferredPrefetchQueue_spec (s : State p)
    (hT : ∀ e ∈ s.deferredPrefetchQueue, T e.tid)
    (wanted : ∀ e ∈ s.deferredPrefetchQueue, F ⟨e.pc, e.tid⟩) :
    Meets s.processDeferredPrefetchQueue (Prefetched F T s)
      (fun fault => fault = .nullInst ∨
        (fault = .nullChainEntry ∧ ∃ e ∈ s.deferredPrefetchQueue, Dangling p e)) :=
  (prefetching_processDeferredPrefetchQueue (A := fun _ => True) s hT
    (fun _ _ _ _ _ _ => trivial) wanted).mono (fun _ h => h.prefetched) (fun _ h => h)

lemma fetching_processDeferredPrefetchQueue (s : State p)
    (hA : ∀ e ∈ s.readyEntries, s.Permits A e) :
    Meets s.processDeferredPrefetchQueue (Fetching A s) (fun _ => True) :=
  (prefetching_processDeferredPrefetchQueue (F := fun _ => True) (T := fun _ => True) s
    (fun _ _ => trivial) hA (fun _ _ => trivial)).mono (fun _ h => h.fetching) (fun _ _ => trivial)

end State

end BTBFerret
