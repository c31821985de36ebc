import BTBFerret.Steps

/-!
# Tags are unique within a set, and insertions never assert

Every insertion is preceded by a search for the same key, so a set never holds two valid entries
with the same tag and thread. For the prefetch buffer this needs the exact filter: a compressed tag
may deny a key that the buffer holds. The assertions about insertions cannot fail in any state.
-/

namespace BTBFerret

open ReplacementPolicy AssociativeCache FallibleRuns Cache

def BTBEntry.withLine (e : BTBEntry) (x : Line) : BTBEntry :=
  { e with
    valid := x.valid
    tag := x.tag
    branchAddr := x.branchAddr
    target := x.target
    inst := x.inst }

lemma BTBEntry.line_withLine (e : BTBEntry) (x : Line) : (e.withLine x).line = x := rfl

section

variable {v : BTBLevel} {C C' : BTBCache v}

lemma unique_of_stored (hu : C.Unique) {key : KeyType} {x : Line} (hv : x.valid = true)
    (ht : x.tag = ⟨v.extractTag key.address, key.tid⟩)
    (h : lines C' = Function.update (lines C) (C.slotFor key) x) : C'.Unique := by
  have hmatch : v.shape.match key ((C.openFor key).withLine x) = true :=
    (v.shape.match_iff key _).mpr ⟨hv, ht⟩
  refine unique_of_lines ?_ (hu.store true 0 key (fun e => e.withLine x) hmatch)
  rw [h, lines_store, BTBEntry.line_withLine]

lemma unique_written (hu : C.Unique) (tell : Bool) (now : Tick) (tid : ThreadID)
    (victim : BTBEntry) : (State.written C tell now tid victim).Unique :=
  unique_of_stored hu rfl rfl (lines_written C tell now tid victim)

end

namespace State

variable {p : Params} {F : KeyType → Prop} {T : ThreadID → Prop}

/-- None of the three levels has two valid entries with the same tag in one set. -/
structure Distinct (s : State p) : Prop where
  l1btb : s.l1btb.Unique
  l2btb : s.l2btb.Unique
  l3btb : s.l3btb.Unique

lemma distinct_init (bw : PrevBrInfo) : Distinct (State.init p bw) :=
  ⟨unique_init, unique_init, unique_init⟩

variable {s s' : State p}

lemma SameLines.distinct (h : SameLines s s') (hs : Distinct s) : Distinct s' :=
  ⟨unique_of_lines h.l1btb hs.l1btb, unique_of_lines h.l2btb hs.l2btb,
    unique_of_lines h.l3btb hs.l3btb⟩

section

variable (hs : Distinct s) (tid : ThreadID) (victim : BTBEntry)

include hs

lemma Distinct.l2After : (s.l2After tid victim).Unique := by
  unfold State.l2After
  split
  · exact unique_written hs.l2btb _ _ _ _
  · exact hs.l2btb

lemma Distinct.l3AfterDisplacement : (s.l3AfterDisplacement tid victim).Unique := by
  unfold State.l3AfterDisplacement
  split
  · split
    · exact unique_written hs.l3btb _ _ _ _
    · exact hs.l3btb
  · exact hs.l3btb

lemma Distinct.l3After : (s.l3After tid victim).Unique := by
  unfold State.l3After State.l3AfterWriteBack
  split
  · split
    · exact unique_written (hs.l3AfterDisplacement tid victim) _ _ _ _
    · exact hs.l3AfterDisplacement tid victim
  · exact hs.l3btb

end

lemma Entered.distinct {tid : ThreadID} {instPC : Addr} {x : Line} (h : Entered s s' tid instPC x)
    (hv : x.valid = true) (ht : x.tag = ⟨p.l1btb.extractTag instPC, tid⟩) (hs : Distinct s) :
    Distinct s' :=
  ⟨unique_of_stored hs.l1btb hv ht h.l1btb, unique_of_lines h.l2btb (hs.l2After _ _),
    unique_of_lines h.l3btb (hs.l3After _ _)⟩

lemma Distinct.freeing (hs : Distinct s) (key : KeyType) : Distinct (s.freeing key) := by
  have touch : ∀ {v : BTBLevel} {C : BTBCache v} (now : Tick) (l : Loc v.shape), C.Unique →
      (C.accessEntry now l).Unique := fun now l hu => unique_of_lines rfl hu
  unfold State.freeing
  split
  · exact hs
  · split
    · refine ⟨hs.l1btb, ?_, hs.l3btb⟩
      simp only [releaseL2]
      split
      · exact touch _ _ (touch _ _ hs.l2btb)
      · exact (touch _ _ hs.l2btb).invalidate _
    · split
      · refine ⟨hs.l1btb, hs.l2btb, ?_⟩
        simp only [releaseL3]
        split
        · exact touch _ _ (touch _ _ hs.l3btb)
        · exact (touch _ _ hs.l3btb).invalidate _
      · exact hs

lemma Prefetched.distinct (h : Prefetched F T s s') (hs : Distinct s) : Distinct s' := by
  obtain ⟨h1, h2, h3⟩ := h.levels
  exact ⟨h1 ▸ hs.l1btb, h2 ▸ hs.l2btb, h3 ▸ hs.l3btb⟩

lemma Effect.distinct {o : Op} (h : Effect F T s o s') (hs : Distinct s) : Distinct s' := by
  cases h with
  | quiet _ _ same => exact same.distinct hs
  | updateHit _ hit _ l1btb _ l2btb l3btb =>
    obtain ⟨hv, ht⟩ := (p.l1btb.shape.match_iff _ _).mp (findEntry_some hit).2
    refine ⟨?_, l2btb ▸ hs.l2btb, l3btb ▸ hs.l3btb⟩
    rw [← slotFor_of_some hit] at l1btb
    refine unique_of_stored hs.l1btb ?_ ?_ l1btb
    · rw [slotFor_of_some hit]
      exact hv
    · rw [slotFor_of_some hit]
      exact ht
  | updateMiss _ _ entered => exact entered.distinct rfl rfl hs
  | lookupHit _ _ _ same => exact same.distinct hs
  | lookupMiss _ _ brought prefetched =>
    exact prefetched.distinct (brought.entered.distinct rfl rfl (hs.freeing _))
  | prefetch prefetched => exact prefetched.distinct hs
  | clear =>
    refine ⟨unique_clear _, unique_clear _, ?_⟩
    unfold memInvalidate
    dsimp only
    split
    · exact unique_clear _
    · exact hs.l3btb

/-! ## The prefetch buffer -/

lemma Fill.pBuffer_unique (hexact : p.useCompressedTagFilter = false) {key : KeyType}
    {src : BTBEntry} {way : Loc p.pBuffer.shape} (h : Fill F T s s' key src way)
    (hs : s.pBuffer.Unique) : s'.pBuffer.Unique := by
  have hlines := h.pBuffer
  rw [h.way_slot (h.absent hexact).2] at hlines
  exact unique_of_stored hs rfl rfl hlines

lemma Prefetched.pBuffer_unique (hexact : p.useCompressedTagFilter = false)
    (h : Prefetched F T s s') (hs : s.pBuffer.Unique) : s'.pBuffer.Unique := by
  induction h with
  | refl => exact hs
  | tail _ hstep ih =>
    rcases hstep with hsoft | ⟨_, _, _, hfill⟩
    · rw [hsoft.pBuffer]
      exact ih
    · exact hfill.pBuffer_unique hexact ih

lemma pBufferAfter_unique (hs : s.pBuffer.Unique) (key : KeyType) :
    (s.pBufferAfter key).Unique := by
  unfold pBufferAfter
  split
  · exact hs.invalidate _
  · exact hs

lemma Effect.pBuffer_unique (hexact : p.useCompressedTagFilter = false) {o : Op}
    (h : Effect F T s o s') (hs : s.pBuffer.Unique) : s'.pBuffer.Unique := by
  cases h with
  | quiet _ _ same => exact unique_of_lines same.pBuffer hs
  | updateHit _ _ _ _ pBuffer | updateMiss _ _ _ pBuffer => exact pBuffer ▸ hs
  | lookupHit _ _ _ same => exact unique_of_lines same.pBuffer hs
  | lookupMiss _ _ brought prefetched =>
    exact prefetched.pBuffer_unique hexact
      (unique_of_lines brought.pBuffer (pBufferAfter_unique hs _))
  | prefetch prefetched => exact prefetched.pBuffer_unique hexact hs
  | clear => exact unique_clear _

lemma reached_distinct {bw : PrevBrInfo} {ops : List Op} (h : Reached bw ops s) : Distinct s :=
  run_invariant_always Distinct
    (fun s o _ hs hstep => (step_effect (allows_all s o) hstep).distinct hs) (distinct_init bw) h

lemma reached_pBuffer_unique (hexact : p.useCompressedTagFilter = false) {bw : PrevBrInfo}
    {ops : List Op} (h : Reached bw ops s) : s.pBuffer.Unique :=
  run_invariant_always (fun s => s.pBuffer.Unique)
    (fun s o _ hs hstep => (step_effect (allows_all s o) hstep).pBuffer_unique hexact hs)
    unique_init h

/-! ## Assertions -/

def NotInsertion (fault : Fault) : Prop := fault ≠ .freeUpL1Entry ∧ fault ≠ .setValid

lemma trainSuccessors_fault (dest : Addr) (successors : List (Addr × Nat)) :
    Meets (trainSuccessors p dest successors) (fun _ => True)
      (fun fault => fault = .markovSuccessors) := by
  unfold trainSuccessors
  dsimp only
  generalize (if p.maxMarkovSuccessors ≤ successors.length then
    (p.sortByFrequency successors).dropLast else successors) = kept
  split
  · trivial
  · split
    · trivial
    · exact rfl

lemma markovEntry_returns (s : State p) (src : Addr) : ∃ r, s.markovEntry src = .ok r := by
  unfold markovEntry
  split
  · exact ⟨_, rfl⟩
  · have hinv : p.markov.shape.isValid ((s.markov.findVictim src true).2.get
        (s.markov.findVictim src true).1) = false := by
      rw [get_findVictim_drop, if_pos rfl]
      exact p.markov.shape.isValid_invalidate _
    dsimp only
    rw [insertEntry_eq _ _ _ hinv]
    exact ⟨_, rfl⟩

lemma trainMarkovOnCommit_fault (s : State p) (pc : Addr) (wasL2Hit : Bool) :
    Meets (s.trainMarkovOnCommit pc wasL2Hit) (fun _ => True)
      (fun fault => fault = .markovSuccessors) := by
  unfold trainMarkovOnCommit
  split
  · trivial
  · split
    · trivial
    · rename_i src wasHit rest _
      obtain ⟨r, hr⟩ := markovEntry_returns { s with prevBranches := rest ++ [(pc, wasL2Hit)] } src
      refine Meets.bind_of_ok hr ?_
      exact (trainSuccessors_fault pc _).bind (fun _ _ => trivial)

lemma update_returns (s : State p) (tid : ThreadID) (instPC : Addr) (target : PCState)
    (type : BranchType) (inst : Option StaticInst) :
    ∃ s', s.update tid instPC target type inst = .ok s' := by
  cases hfind : s.l1btb.findEntry ⟨instPC, tid⟩ with
  | some =>
    obtain ⟨s', hs', _⟩ := update_hit (T := fun _ => True) hfind target type inst
    exact ⟨s', hs'⟩
  | none =>
    obtain ⟨s', hs', _⟩ := update_miss (T := fun _ => True) hfind target type inst
    exact ⟨s', hs'⟩

lemma lookup_fault (s : State p) (tid : ThreadID) (instPC : Addr) (type : BranchType)
    (taken : Bool) (blockStartAddr : Addr) (basePrediction : Bool) :
    Meets (s.lookupWithLatency tid instPC type taken blockStartAddr basePrediction)
      (fun _ => True) (fun fault => fault = .lookupPanic ∨ ServingFault s ⟨instPC, tid⟩ fault) := by
  refine (lookup_any _ _ _ _ _ _ _).mono
    (fun _ _ => trivial) ?_
  rintro fault ⟨_, hfault⟩
  unfold BelowFault at hfault
  split at hfault
  · exact .inl hfault
  · exact .inr hfault

lemma step_notInsertion (s : State p) (o : Op) :
    Meets (s.step o) (fun _ => True) NotInsertion := by
  have other : ∀ {fault expected : Fault}, expected ≠ .freeUpL1Entry → expected ≠ .setValid →
      fault = expected → NotInsertion fault := by
    rintro fault expected h1 h2 rfl
    exact ⟨h1, h2⟩
  cases o with
  | update tid instPC target type inst =>
    obtain ⟨s', hs'⟩ := s.update_returns tid instPC target type inst
    simp only [step, hs', meets_ok]
  | lookup =>
    refine meets_map.mpr ((s.lookup_fault _ _ _ _ _ _).mono (fun _ h => h) ?_)
    rintro fault (hf | hserving)
    · exact other (by simp) (by simp) hf
    · rcases hserving.lookupFault with ⟨_, hf | hf⟩ | ⟨_, hf⟩
      all_goals exact other (by simp) (by simp) hf
  | trainMarkovOnCommit pc wasL2Hit =>
    exact (s.trainMarkovOnCommit_fault pc wasL2Hit).mono (fun _ h => h)
      (fun _ hf => other (by simp) (by simp) hf)
  | processDeferredPrefetchQueue =>
    refine (processDeferredPrefetchQueue_spec (F := fun _ => True) (T := fun _ => True) s
      (fun _ _ => trivial) (fun _ _ => trivial)).mono (fun _ _ => trivial) ?_
    rintro fault (hf | ⟨hf, _⟩)
    · exact other (by simp) (by simp) hf
    · exact other (by simp) (by simp) hf
  | _ => trivial

/-- In every reachable state tags are unique in every set of every level, and no operation fails the
assertion of `freeUpL1Entry` or `setValid`. -/
theorem unique_and_assertion_safe (hexact : p.useCompressedTagFilter = false) {bw : PrevBrInfo}
    {ops : List Op} {s : State p} (h : Reached bw ops s) :
    s.l1btb.Unique ∧ s.l2btb.Unique ∧ s.l3btb.Unique ∧ s.pBuffer.Unique ∧
      ∀ o, s.step o ≠ .error .freeUpL1Entry ∧ s.step o ≠ .error .setValid := by
  have hs := reached_distinct h
  refine ⟨hs.l1btb, hs.l2btb, hs.l3btb, reached_pBuffer_unique hexact h, ?_⟩
  intro o
  refine ⟨?_, ?_⟩
  · intro hfault
    exact ((s.step_notInsertion o).of_error hfault).1 rfl
  · intro hfault
    exact ((s.step_notInsertion o).of_error hfault).2 rfl

/-- Branch 20 has moved to L2 and back. -/
theorem unique_and_assertion_safe_small :
    ∃ s : State Params.small, Reached ⟨false, false⟩ broughtBack s ∧
      s.l1btb.Unique ∧ s.l2btb.Unique := by
  obtain ⟨s, hs, _⟩ := exists_run Params.small broughtBack (fun s => s.valid 0 10)
    (by decide +kernel)
  obtain ⟨hl1, hl2, _⟩ := unique_and_assertion_safe rfl hs
  exact ⟨s, hs, hl1, hl2⟩

end State

end BTBFerret
