import BTBFerret.ChainBounds

/-!
# What the chain tracker knows of its chains

A continuation is staged only by a chain that holds a tracker slot, so the slot that the queue event
looks up exists. When another chain takes the slot over, the depth of the new chain minus what
remains of the old one is sampled. An observer notes, for each slot, the depth its chain came with
and what it has issued since.
-/

namespace BTBFerret

open FallibleRuns List Function

namespace State

open Chains

variable {p : Params}

/-! ## Queued entries belong to chains -/

/-- What is known of a queued entry while chains below `next` have been started. -/
structure Linked (p : Params) (next : Nat) (e : DeferredPrefetchEntry) : Prop where
  pos : 0 < e.chainId
  started : e.chainId < next
  tracked : e.allocateChain = false → 0 < p.maxChainTrackerEntries
  depth : e.allocateChain = true → ∃ type, e.depth = p.triggerDepth type

structure QueueLinked (c : Chains p) : Prop where
  next : 0 < c.nextChainId
  queue : ∀ e ∈ c.queue, Linked p c.nextChainId e

lemma QueueLinked.of_same {c c' : Chains p} (h : QueueLinked c) (hqueue : c'.queue = c.queue)
    (hnext : c'.nextChainId = c.nextChainId) : QueueLinked c' := by
  constructor
  · rw [hnext]
    exact h.next
  · rw [hnext, hqueue]
    exact h.queue

lemma QueueLinked.stage {c : Chains p} (h : QueueLinked c) {es : List DeferredPrefetchEntry}
    (hes : ∀ e ∈ es, Linked p c.nextChainId e) : QueueLinked (c.stage es) := by
  refine ⟨h.next, ?_⟩
  intro e he
  rcases mem_append.mp ((stage_perm c es).mem_iff.mp he) with hnew | hold
  · exact hes e hnew
  · exact h.queue e hold

variable {s s' : State p} {e : DeferredPrefetchEntry}

/-- Only a chain that holds a slot stages continuations. -/
lemma QueueLinked.entry (hs : QueueLinked s.chains) (he : Linked p s.nextChainId e)
    (h : s.processDeferredEntry e = .ok s') :
    QueueLinked s'.chains ∧ s'.nextChainId = s.nextChainId := by
  cases entryMove_processDeferredEntry h with
  | skip chains =>
    rw [chains]
    exact ⟨hs, congrArg Chains.nextChainId chains⟩
  | spend i _ _ _ _ staged chains =>
    have hassigned : QueueLinked (s.chains.assign i e.chainId (s.chains.budgetFor i e - 1)) :=
      hs.of_same rfl rfl
    rw [chains]
    refine ⟨hassigned.stage ?_, congrArg Chains.nextChainId chains⟩
    intro e' he'
    obtain ⟨hchain, halloc, _, _⟩ := staged e' he'
    refine ⟨hchain ▸ he.pos, hchain ▸ he.started, fun _ => i.pos, ?_⟩
    intro hallocates
    rw [halloc] at hallocates
    cases hallocates
  | unpaid _ queue nextChainId =>
    exact ⟨hs.of_same queue nextChainId, nextChainId⟩

lemma QueueLinked.mem_readyEntries (hs : QueueLinked s.chains) (he : e ∈ s.readyEntries) :
    Linked p s.nextChainId e :=
  hs.queue e ((takeWhile_sublist _).subset he)

lemma nextChainId_popReady (s : State p) : s.popReady.nextChainId = s.nextChainId :=
  congrArg Chains.nextChainId (chains_popReady s)

lemma QueueLinked.popReady (hs : QueueLinked s.chains) : QueueLinked s.popReady.chains := by
  rw [chains_popReady]
  refine ⟨hs.next, ?_⟩
  intro e he
  apply hs.queue e
  change e ∈ s.deferredPrefetchQueue
  rw [← readyEntries_append_popReady]
  exact mem_append_right _ he

lemma queueLinked_step {o : Op} (hs : QueueLinked s.chains) (h : s.step o = .ok s') :
    QueueLinked s'.chains := by
  cases step_chains h with
  | same chains =>
    rw [chains]
    exact hs
  | @trigger tid instPC type taken blockStartAddr basePrediction _ move =>
    cases move with
    | none same =>
      rw [same]
      exact hs
    | start es _ staged chains =>
      rw [chains]
      -- the new chain takes the present number, which is not zero
      have hnew : ∀ e ∈ es, Linked p (s.chains.nextChainId + 1) e := by
        intro e he
        obtain ⟨hchain, halloc, hdepth, _⟩ := staged e he
        refine ⟨hchain ▸ hs.next, hchain ▸ Nat.lt_succ_self _, ?_, fun _ => ⟨type, hdepth⟩⟩
        intro hnot
        rw [halloc] at hnot
        cases hnot
      refine QueueLinked.stage (c := { s.chains with nextChainId := s.chains.nextChainId + 1 })
        ⟨Nat.succ_pos _, ?_⟩ hnew
      intro e he
      have hold := hs.queue e he
      exact ⟨hold.pos, Nat.lt_succ_of_lt hold.started, hold.tracked, hold.depth⟩
  | event _ examined chains =>
    have hready : Along processDeferredEntry (fun _ e => Linked p s.nextChainId e) s.popReady
        s.readyEntries := along_of_mem (fun e he => hs.mem_readyEntries he) _
    rw [chains]
    refine (run_invariant_state
      (fun t : State p => QueueLinked t.chains ∧ t.nextChainId = s.nextChainId) ?_
      ⟨hs.popReady, nextChainId_popReady s⟩ hready examined).1
    rintro t e t' ⟨ht, hnext⟩ he hexamine
    rw [← hnext] at he
    obtain ⟨ht', hnext'⟩ := ht.entry he hexamine
    exact ⟨ht', hnext'.trans hnext⟩
  | clear => exact ⟨hs.next, fun e he => absurd he not_mem_nil⟩
  | advance chains =>
    rw [chains]
    exact hs.of_same rfl rfl

lemma queueLinked_init (bw : PrevBrInfo) : QueueLinked (State.init p bw).chains :=
  ⟨Nat.one_pos, fun _ he => absurd he not_mem_nil⟩

lemma queueLinked_reached {bw : PrevBrInfo} {ops : List Op} (h : Reached bw ops s) :
    QueueLinked s.chains :=
  run_invariant_always (fun s : State p => QueueLinked s.chains)
    (fun _ _ _ hs hstep => queueLinked_step hs hstep) (queueLinked_init bw) h

lemma Linked.not_dangling {next : Nat} (h : Linked p next e) : ¬ Dangling p e := by
  rintro ⟨halloc, hslot⟩
  rw [if_neg (Nat.ne_of_gt h.pos), p.chainSlot_eq (h.tracked halloc)] at hslot
  cases hslot

/-- Every queued continuation has the number of a started chain and a tracker table, so the queue
event never writes through a null slot. -/
theorem continuations_have_slots {bw : PrevBrInfo} {ops : List Op} {s : State p}
    (h : Reached bw ops s) :
    (∀ e ∈ s.deferredPrefetchQueue, e.allocateChain = false →
      e.chainId ≠ 0 ∧ e.chainId < s.nextChainId ∧ 0 < p.maxChainTrackerEntries) ∧
    s.processDeferredPrefetchQueue ≠ .error .nullChainEntry := by
  have hs := queueLinked_reached h
  constructor
  · intro e he halloc
    have hlinked := hs.queue e he
    exact ⟨Nat.ne_of_gt hlinked.pos, hlinked.started, hlinked.tracked halloc⟩
  · intro hnull
    rcases (processDeferredPrefetchQueue_spec (F := fun _ => True) (T := fun _ => True) s
      (fun _ _ => trivial) (fun _ _ => trivial)).of_error hnull with hinst | ⟨_, e, he, hdangling⟩
    · cases hinst
    · exact (hs.queue e he).not_dangling hdangling

/-- One tracked chain; only calls start chains that may issue more than one prefetch. -/
def callDepth : Params := { oneTracker with depthOnlyCall := true, prefetchDepth := 5 }

def predictCall (pc : Addr) : Op := .lookup 0 pc .callDirect true 0 true

def cycles (n : Nat) : List Op :=
  (List.replicate n [Op.advance 1 1, .processDeferredPrefetchQueue]).flatten

/-- Branch 101 leads to branch 103, so that the chain goes on behind its first prefetch. -/
def chainGoesOn : List Op :=
  learnt ++ .setBBMap (fun a => if a = 7 then some 103 else fourBlocks a) ::
    predictCall 20 :: cycles 4

/-- The chain of a call goes on with an entry that needs its slot. -/
theorem continuations_have_slots_small :
    ∃ s : State callDepth, Reached ⟨false, false⟩ chainGoesOn s ∧
      (∃ e ∈ s.deferredPrefetchQueue, e.allocateChain = false ∧ e.chainId ≠ 0) ∧
      s.processDeferredPrefetchQueue ≠ .error .nullChainEntry := by
  obtain ⟨s, hs, hany⟩ := exists_run callDepth chainGoesOn
    (fun s => s.deferredPrefetchQueue.any (fun e => !e.allocateChain))
    (by decide +kernel)
  obtain ⟨e, he, halloc⟩ := any_eq_true.mp hany
  have hcontinues : e.allocateChain = false := Bool.not_eq_true' _ ▸ halloc
  obtain ⟨hslots, hnull⟩ := continuations_have_slots hs
  exact ⟨s, hs, ⟨e, he, hcontinues, (hslots e he hcontinues).1⟩, hnull⟩

/-! ## Notes on the slots -/

structure SlotNote where
  depth : Nat
  issued : Nat

def noteEntry (notes : Fin p.maxChainTrackerEntries → SlotNote) (s : State p)
    (e : DeferredPrefetchEntry) (s' : State p) : Fin p.maxChainTrackerEntries → SlotNote := fun i =>
  if p.chainSlot e.chainId = some i then
    if s'.chains.owner i = s.chains.owner i then
      ⟨(notes i).depth, (notes i).issued + (s'.issuedPrefetches - s.issuedPrefetches)⟩
    else ⟨e.depth, s'.issuedPrefetches - s.issuedPrefetches⟩
  else notes i

/-- Only the queue event concerns the slots, apart from an invalidation, which empties them. -/
def noteStep (notes : Fin p.maxChainTrackerEntries → SlotNote) (s : State p) (o : Op)
    (_ : State p) : Fin p.maxChainTrackerEntries → SlotNote :=
  match o with
  | .processDeferredPrefetchQueue =>
    watched processDeferredEntry noteEntry notes s.popReady s.readyEntries
  | _ => notes

def slotNotes (p : Params) (bw : PrevBrInfo) (ops : List Op) :
    Fin p.maxChainTrackerEntries → SlotNote :=
  watched step noteStep (fun _ => ⟨0, 0⟩) (State.init p bw) ops

structure Noted (notes : Fin p.maxChainTrackerEntries → SlotNote) (s : State p) : Prop where
  linked : QueueLinked s.chains
  balance : ∀ i, s.chains.owner i ≠ 0 → (notes i).issued + s.chains.remaining i = (notes i).depth
  depth : ∀ i, s.chains.owner i ≠ 0 → ∃ type, (notes i).depth = p.triggerDepth type

lemma noteEntry_of_same (notes : Fin p.maxChainTrackerEntries → SlotNote)
    (e : DeferredPrefetchEntry) (hchains : s'.chains = s.chains)
    (hissued : s'.issuedPrefetches = s.issuedPrefetches) : noteEntry notes s e s' = notes := by
  funext i
  unfold noteEntry
  rw [hchains, hissued, if_pos rfl, Nat.sub_self]
  exact ite_self _

variable {notes : Fin p.maxChainTrackerEntries → SlotNote}

lemma Noted.entry (hdepth : 0 < p.prefetchDepth) (hs : Noted notes s)
    (he : Linked p s.nextChainId e) (h : s.processDeferredEntry e = .ok s') :
    Noted (noteEntry notes s e s') s' := by
  have hlinked := (hs.linked.entry he h).1
  cases entryMove_processDeferredEntry h with
  | skip chains issued =>
    rw [noteEntry_of_same notes e chains issued]
    refine ⟨hlinked, ?_, ?_⟩
    · rw [chains]
      exact hs.balance
    · rw [chains]
      exact hs.depth
  | spend i slot valid budget _ _ chains =>
    have howner : s'.chains.owner i = e.chainId := by
      rw [chains]
      exact update_self i _ _
    have hremaining : s'.chains.remaining i = s.chains.budgetFor i e - 1 := by
      rw [chains]
      exact update_self i _ _
    have hothers : ∀ j, j ≠ i → s'.chains.owner j = s.chains.owner j ∧
        s'.chains.remaining j = s.chains.remaining j ∧ noteEntry notes s e s' j = notes j := by
      intro j hj
      refine ⟨?_, ?_, ?_⟩
      · rw [chains]
        exact update_of_ne hj _ _
      · rw [chains]
        exact update_of_ne hj _ _
      · unfold noteEntry
        rw [if_neg]
        intro hslot
        rw [slot] at hslot
        exact hj (Option.some.inj hslot).symm
    -- the note of the slot itself, for the owner and for a chain that takes it over
    have hnote : (noteEntry notes s e s' i).issued + s'.chains.remaining i =
        (noteEntry notes s e s' i).depth ∧
        ∃ type, (noteEntry notes s e s' i).depth = p.triggerDepth type := by
      have hone : s'.issuedPrefetches - s.issuedPrefetches = 1 := by omega
      unfold noteEntry
      rw [if_pos slot, howner, hremaining, hone]
      unfold budgetFor at budget ⊢
      by_cases hown : s.chains.owner i = e.chainId
      · rw [if_pos hown] at budget ⊢
        rw [if_pos hown.symm]
        have hoccupied : s.chains.owner i ≠ 0 := hown ▸ Nat.ne_of_gt he.pos
        have hbalance := hs.balance i hoccupied
        refine ⟨?_, hs.depth i hoccupied⟩
        dsimp only
        omega
      · rw [if_neg hown] at budget ⊢
        rw [if_neg (fun heq => hown heq.symm)]
        have halloc : e.allocateChain = true := valid.resolve_left hown
        refine ⟨?_, he.depth halloc⟩
        dsimp only
        omega
    refine ⟨hlinked, ?_, ?_⟩
    · intro j hoccupied
      by_cases hj : j = i
      · rw [hj]
        exact hnote.1
      · obtain ⟨hown, hrem, hnotes⟩ := hothers j hj
        rw [hown] at hoccupied
        rw [hrem, hnotes]
        exact hs.balance j hoccupied
    · intro j hoccupied
      by_cases hj : j = i
      · rw [hj]
        exact hnote.2
      · obtain ⟨hown, _, hnotes⟩ := hothers j hj
        rw [hown] at hoccupied
        rw [hnotes]
        exact hs.depth j hoccupied
  | unpaid want =>
    -- with a slot and a depth every prefetch is paid for
    rcases want with hzero | hnone | ⟨halloc, hd⟩
    · exact absurd hzero (Nat.ne_of_gt he.pos)
    · have hempty : ¬ 0 < p.maxChainTrackerEntries := by
        intro hn
        rw [p.chainSlot_eq hn] at hnone
        cases hnone
      exact ⟨hlinked, fun i => absurd i.pos hempty, fun i => absurd i.pos hempty⟩
    · obtain ⟨type, htype⟩ := he.depth halloc
      rw [hd] at htype
      exact absurd htype (Nat.ne_of_lt (triggerDepth_pos hdepth type))

lemma Noted.entries (hdepth : 0 < p.prefetchDepth) {u : State p}
    {entries : List DeferredPrefetchEntry} (hs : Noted notes s)
    (hentries : ∀ e ∈ entries, Linked p s.nextChainId e)
    (h : run processDeferredEntry s entries = .ok u) :
    Noted (watched processDeferredEntry noteEntry notes s entries) u ∧
      u.nextChainId = s.nextChainId := by
  refine watched_invariant (fun notes (t : State p) => Noted notes t ∧
    t.nextChainId = s.nextChainId) ?_ ⟨hs, rfl⟩ h
  rintro notes t e t' he ⟨ht, hnext⟩ hexamine
  have hlinked : Linked p t.nextChainId e := hnext ▸ hentries e he
  exact ⟨ht.entry hdepth hlinked hexamine, (ht.linked.entry hlinked hexamine).2.trans hnext⟩

lemma Noted.of_chains (hs : Noted notes s) (hlinked : QueueLinked s'.chains)
    (howner : s'.chains.owner = s.chains.owner)
    (hremaining : s'.chains.remaining = s.chains.remaining) : Noted notes s' := by
  refine ⟨hlinked, ?_, ?_⟩
  · rw [howner, hremaining]
    exact hs.balance
  · rw [howner]
    exact hs.depth

lemma Noted.popReady (hs : Noted notes s) : Noted notes s.popReady :=
  hs.of_chains hs.linked.popReady (congrArg owner (chains_popReady s) :)
    (congrArg remaining (chains_popReady s) :)

lemma Noted.ready (hdepth : 0 < p.prefetchDepth) {u : State p}
    {before after : List DeferredPrefetchEntry} (hs : Noted notes s)
    (hready : s.readyEntries = before ++ after)
    (h : run processDeferredEntry s.popReady before = .ok u) :
    Noted (watched processDeferredEntry noteEntry notes s.popReady before) u ∧
      u.nextChainId = s.nextChainId := by
  have hlinked : ∀ e ∈ before, Linked p s.popReady.nextChainId e := by
    intro e he
    rw [nextChainId_popReady]
    apply hs.linked.mem_readyEntries
    rw [hready]
    exact mem_append_left _ he
  obtain ⟨hu, hnext⟩ := hs.popReady.entries hdepth hlinked h
  exact ⟨hu, hnext.trans (nextChainId_popReady s)⟩

lemma noted_step (hdepth : 0 < p.prefetchDepth) {o : Op} (hs : Noted notes s)
    (h : s.step o = .ok s') : Noted (noteStep notes s o s') s' := by
  have hlinked := queueLinked_step hs.linked h
  cases step_chains h with
  | same chains other =>
    have hnotes : noteStep notes s o s' = notes := by
      cases o with
      | processDeferredPrefetchQueue => exact absurd rfl other
      | _ => rfl
    rw [hnotes]
    exact hs.of_chains hlinked (congrArg owner chains :) (congrArg remaining chains :)
  | trigger move =>
    cases move with
    | none same =>
      exact hs.of_chains hlinked (congrArg owner same) (congrArg remaining same)
    | start _ _ _ chains =>
      exact hs.of_chains hlinked (congrArg owner chains :)
        (congrArg remaining chains :)
  | event _ examined chains =>
    have hready := (hs.ready hdepth (append_nil _).symm examined).1
    exact hready.of_chains hlinked (congrArg owner chains) (congrArg remaining chains)
  | clear =>
    have howner : ∀ i, s.memInvalidate.chains.owner i = 0 := fun i =>
      congrArg ActiveChainEntry.chainId (chainTable_memInvalidate s i)
    exact ⟨hlinked, fun i hi => absurd (howner i) hi, fun i hi => absurd (howner i) hi⟩
  | advance chains =>
    exact hs.of_chains hlinked (congrArg owner chains :) (congrArg remaining chains :)

lemma noted_init (bw : PrevBrInfo) : Noted (fun _ => ⟨0, 0⟩) (State.init p bw) := by
  have howner : ∀ i, (State.init p bw).chains.owner i = 0 := by
    intro i
    change (Vector.replicate p.maxChainTrackerEntries ActiveChainEntry.empty)[i].chainId = 0
    simp [ActiveChainEntry.empty]
  exact ⟨queueLinked_init bw, fun i hi => absurd (howner i) hi, fun i hi => absurd (howner i) hi⟩

lemma noted_reached (hdepth : 0 < p.prefetchDepth) {bw : PrevBrInfo} {ops : List Op}
    (h : Reached bw ops s) : Noted (slotNotes p bw ops) s := by
  refine watched_invariant (fun notes (s : State p) => Noted notes s) ?_ (noted_init bw) h
  intro notes t o t' _ ht hstep
  exact noted_step hdepth ht hstep

lemma triggerDepth_uniform (h : p.depthOnlyCall = false ∨ p.prefetchDepth = 1)
    (type : BranchType) : p.triggerDepth type = p.prefetchDepth := by
  unfold Params.triggerDepth
  rcases h with hoff | hone
  · rw [hoff]
    rfl
  · rw [hone]
    exact ite_self 1

/-- When a chain takes a slot over from one of the same depth, the sampled value is the number of
prefetches that the evicted chain has issued. -/
theorem sample_counts_evicted_prefetches (hdepth : 0 < p.prefetchDepth)
    (hwidth : p.prefetchDepth < 2 ^ 32) {bw : PrevBrInfo} {ops : List Op} {s : State p}
    (h : Reached bw ops s) {before after : List DeferredPrefetchEntry}
    {e : DeferredPrefetchEntry} {u v : State p} (hready : s.readyEntries = before ++ e :: after)
    (hbefore : run processDeferredEntry s.popReady before = .ok u)
    (hexamine : u.processDeferredEntry e = .ok v)
    (hsame : (p.depthOnlyCall = false ∨ p.prefetchDepth = 1) ∨
      ∀ i, p.chainSlot e.chainId = some i → e.depth = (watched processDeferredEntry noteEntry
        (slotNotes p bw ops) s.popReady before i).depth) :
    v.samples = u.samples ∨ ∃ i, p.chainSlot e.chainId = some i ∧ u.chains.owner i ≠ 0 ∧
      u.chains.owner i ≠ e.chainId ∧ v.chains.owner i = e.chainId ∧
      v.samples = (watched processDeferredEntry noteEntry (slotNotes p bw ops) s.popReady
        before i).issued :: u.samples := by
  have hs := noted_reached hdepth h
  obtain ⟨hu, hnext⟩ := hs.ready hdepth hready hbefore
  have he : Linked p u.nextChainId e := by
    rw [hnext]
    apply hs.linked.mem_readyEntries
    rw [hready]
    exact mem_append_right _ mem_cons_self
  generalize watched processDeferredEntry noteEntry (slotNotes p bw ops) s.popReady before =
    notes at hu hsame ⊢
  cases sampling_processDeferredEntry hexamine with
  | none same => exact .inl same
  | takeover i slot alloc occupied other taken sample =>
    right
    have hbalance := hu.balance i occupied
    obtain ⟨type, htype⟩ := hu.depth i occupied
    obtain ⟨type', htype'⟩ := he.depth alloc
    have hequal : e.depth = (notes i).depth := by
      rcases hsame with huniform | hslot
      · rw [htype, htype', triggerDepth_uniform huniform, triggerDepth_uniform huniform]
      · exact hslot i slot
    have hle := triggerDepth_le hdepth type
    have hvalue : (e.depth + 2 ^ 32 - u.chains.remaining i) % 2 ^ 32 = (notes i).issued := by
      have hrest : e.depth + 2 ^ 32 - u.chains.remaining i = (notes i).issued + 2 ^ 32 := by omega
      rw [hrest, Nat.add_mod_right]
      apply Nat.mod_eq_of_lt
      omega
    rw [hvalue] at sample
    exact ⟨i, slot, occupied, other, taken, sample⟩

/-- The chain of branch 40 is about to take the slot over from the chain of branch 20. -/
def beforeTakeover (first : Op) : List Op :=
  learnt ++ first :: cycles 6 ++ predictCond 40 :: cycles 3 ++ [.advance 1 1]

/-- The evicted chain of depth one has issued one prefetch, and one is sampled. -/
theorem sample_counts_evicted_prefetches_small :
    ∃ (s v : State oneTracker) (e : DeferredPrefetchEntry)
      (i : Fin oneTracker.maxChainTrackerEntries),
      Reached ⟨false, false⟩ (beforeTakeover (predictCond 20)) s ∧ s.readyEntries = [e] ∧
      s.popReady.processDeferredEntry e = .ok v ∧ v.samples = [1] ∧
      (slotNotes oneTracker ⟨false, false⟩ (beforeTakeover (predictCond 20)) i).issued = 1 := by
  obtain ⟨s, hs, htest⟩ :=
    exists_run oneTracker (beforeTakeover (predictCond 20)) (fun s => match s.readyEntries with
      | [e] => holdsAt (s.popReady.processDeferredEntry e) (fun v => v.samples == [1]) &&
          s.popReady.samples == []
      | _ => false) (by decide +kernel)
  split at htest
  · rename_i e hready
    obtain ⟨hexamine, hnone⟩ := Bool.and_eq_true_iff.mp htest
    obtain ⟨v, hv, hsample⟩ := exists_of_holdsAt _ _ hexamine
    have hone : v.samples = [1] := eq_of_beq hsample
    have hfirst : s.readyEntries = [] ++ e :: [] := hready
    rcases sample_counts_evicted_prefetches (p := oneTracker) (by decide) (by decide) hs hfirst rfl
      hv (.inl (.inl rfl)) with hsame | ⟨i, _, _, _, _, hissued⟩
    · rw [hone, eq_of_beq hnone] at hsame
      cases hsame
    · rw [hone, eq_of_beq hnone, watched] at hissued
      exact ⟨s, v, e, i, hs, hready, hv, hone, (cons.inj hissued).1.symm⟩
  · cases htest

/-- The evicted chain has issued two of five prefetches. The conditional branch that evicts it comes
with a depth of one, and 1 - 3 wraps around. -/
theorem call_chain_sample_wraps :
    ∃ (s v : State callDepth) (e : DeferredPrefetchEntry),
      Reached ⟨false, false⟩ (beforeTakeover (predictCall 20)) s ∧ s.readyEntries = [e] ∧
      s.popReady.processDeferredEntry e = .ok v ∧ v.samples = [4294967294] ∧
      callDepth.chainSlot e.chainId = some ⟨0, by decide⟩ ∧
      (slotNotes callDepth ⟨false, false⟩ (beforeTakeover (predictCall 20)) ⟨0, by decide⟩).issued =
        2 := by
  obtain ⟨s, hs, htest⟩ :=
    exists_run callDepth (beforeTakeover (predictCall 20)) (fun s => match s.readyEntries with
      | [e] => holdsAt (s.popReady.processDeferredEntry e) (fun v => v.samples == [4294967294]) &&
          decide (callDepth.chainSlot e.chainId = some ⟨0, by decide⟩)
      | _ => false) (by decide +kernel)
  split at htest
  · rename_i e hready
    obtain ⟨hexamine, hslot⟩ := Bool.and_eq_true_iff.mp htest
    obtain ⟨v, hv, hsample⟩ := exists_of_holdsAt _ _ hexamine
    exact ⟨s, v, e, hs, hready, hv, eq_of_beq hsample, of_decide_eq_true hslot, by decide +kernel⟩
  · cases htest

end State

end BTBFerret
