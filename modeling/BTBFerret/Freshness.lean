import BTBFerret.Residency

/-!
# Lookups and the most recent update

The levels serve the newest value of a branch, because a write-back replaces the copy below it. The
prefetch buffer is the exception: an update does not touch it, and a later lookup may promote what
it holds. So freshness needs that updates agree with the buffer.
-/

namespace BTBFerret

open AssociativeCache FallibleRuns EvictingLevels Option

/-- What the last updates stored, as far as `g` tells. -/
def newest {U : Set Addr} {α : Type} (g : Option PCState → Option StaticInst → α) (tid : ThreadID)
    (ops : List Op) (k : U) : Option α :=
  (lastUpdate tid k ops).map (fun u => g (some u.1) u.2)

def Op.trained : Op → Option (KeyType × PCState)
  | .update tid instPC target _ _ => some (⟨instPC, tid⟩, target)
  | _ => none

namespace State

variable {p : Params} {U : Set Addr} {tid : ThreadID} {α : Type}
  {g : Option PCState → Option StaticInst → α} {s s' : State p} {o : Op} {past : List Op}

lemma newest_of_not_stored {k : U} (h : o.stored tid k = none) :
    newest g tid (past ++ [o]) k = newest g tid past k := by
  simp only [newest, lastUpdate_append, h, none_or]

lemma EventOf.newest_append {e : Event U α} (h : EventOf tid g s o e) :
    newest (U := U) g tid (past ++ [o]) = e.newest (newest g tid past) := by
  funext j
  cases h with
  | @update k target type inst =>
    by_cases hj : j = k
    · subst hj
      simp [newest, Event.newest, lastUpdate_append, Op.stored]
    · have hne : ¬ ((tid : ThreadID) = tid ∧ (k : Addr) = j) :=
        fun heq => hj (Subtype.ext heq.2.symm)
      simp only [Event.newest, Function.update_of_ne hj]
      exact newest_of_not_stored (if_neg hne)
  | quiet hquiet =>
    refine newest_of_not_stored ?_
    cases o with
    | update => cases hquiet
    | _ => rfl
  | _ => exact newest_of_not_stored rfl

/-- The prefetch buffer holds newest values only. -/
def BufferFresh (tid : ThreadID) (g : Option PCState → Option StaticInst → α) (s : State p)
    (n : U → Option α) : Prop :=
  ∀ k y, view tid g s.pBuffer k = some y → n k = some y

/-! ## The levels -/

/-- An entry below L1 that a prefetch would copy is the topmost one. -/
lemma top_of_fillSource {k : U} {src : BTBEntry} (hmiss : s.l1btb.findEntry ⟨k, tid⟩ = none)
    (h : s.FillSource ⟨k, tid⟩ src) :
    (levels tid g s).top k = some (g src.target src.inst) := by
  have h1 : (levels tid g s).l1 k = none := view_eq_none.mpr hmiss
  rcases h with ⟨l, hl, rfl⟩ | ⟨hl2, _, l, hl, rfl⟩
  · have h2 : (levels tid g s).l2 k = some (g (s.l2btb.get l).target (s.l2btb.get l).inst) :=
      view_of_found hl
    rw [Levels.top_of_l2 h1, h2, some_or]
  · have h2 : (levels tid g s).l2 k = none := view_eq_none.mpr hl2
    rw [Levels.top_of_l3 h1 h2]
    exact view_of_found hl

lemma servingEntry_newest {k : U} {e : BTBEntry} {n : U → Option α}
    (hf : Fresh (levels tid g s) n) (hb : BufferFresh tid g s n)
    (he : s.servingEntry tid k = some e) : n k = some (g e.target e.inst) := by
  unfold servingEntry at he
  cases hl1 : s.l1btb.findEntry ⟨(k : Addr), tid⟩ with
  | some =>
    simp only [hl1, some.injEq] at he
    subst he
    exact hf k _ (Levels.top_of_l1 (view_of_found hl1))
  | none =>
    simp only [hl1] at he
    cases hpb : s.pBuffer.findEntry ⟨(k : Addr), tid⟩ with
    | some =>
      simp only [hpb, some.injEq] at he
      subst he
      exact hb k _ (view_of_found hpb)
    | none =>
      simp only [hpb] at he
      refine hf k _ (top_of_fillSource hl1 ?_)
      cases hl2 : s.l2btb.findEntry ⟨(k : Addr), tid⟩ with
      | some l =>
        simp only [hl2, some.injEq] at he
        exact .inl ⟨l, hl2, he.symm⟩
      | none =>
        simp only [hl2] at he
        split at he
        · rename_i hL3
          obtain ⟨l, hl, heq⟩ := map_eq_some_iff.mp he
          exact .inr ⟨hl2, hL3, l, hl, heq.symm⟩
        · cases he

lemma step_fresh (hsep : NoCollision p U tid) (hs : Settled U tid s)
    (hshallow : Shallow p.config (levels (U := U) tid g s))
    (hf : Fresh (levels (U := U) tid g s) (newest g tid past))
    (hb : p.probesPBuffer = true → BufferFresh (U := U) tid g s (newest g tid past))
    (ho : o.Uses U tid) (h : s.step o = .ok s') :
    Shallow p.config (levels (U := U) tid g s') ∧
      Fresh (levels (U := U) tid g s') (newest g tid (past ++ [o])) := by
  obtain ⟨e, hevent, htrans⟩ := step_simulates hsep hs hshallow ho (admits_all s o) h
  refine ⟨htrans.shallow hshallow, ?_⟩
  rw [hevent.newest_append]
  refine htrans.fresh hshallow hf ?_
  rintro k x rfl
  cases hevent with
  | promote probes _ hit => exact hb probes k _ (view_of_found hit)

/-! ## The prefetch buffer -/

/-- A buffer of newest values in which every branch is found. -/
structure BufferSound (tid : ThreadID) (g : Option PCState → Option StaticInst → α) (s : State p)
    (n : U → Option α) : Prop where
  unique : s.pBuffer.Unique
  keyed : Obeys (keyedRule U tid) s.pBuffer
  fresh : BufferFresh tid g s n

section

variable {T : ThreadID → Prop} {n : U → Option α}

lemma BufferSound.of_lines (h : lines s'.pBuffer = lines s.pBuffer)
    (hs : BufferSound tid g s n) : BufferSound tid g s' n := by
  refine ⟨unique_of_lines h hs.unique, hs.keyed.of_lines h, ?_⟩
  intro k y hy
  rw [view_of_lines h] at hy
  exact hs.fresh k y hy

lemma Fill.bufferSound (hexact : p.useCompressedTagFilter = false) (hsep : NoCollision p U tid)
    {key : KeyType} {src : BTBEntry} {way : Loc p.pBuffer.shape}
    (h : Fill (Inside U tid) T s s' key src way) (hf : Fresh (levels tid g s) n)
    (hs : BufferSound tid g s n) : BufferSound tid g s' n := by
  obtain ⟨a, rfl⟩ : ∃ a : U, key = ⟨a, tid⟩ := by
    obtain ⟨hmem, ht⟩ := h.wanted
    obtain ⟨address, t⟩ := key
    exact ⟨⟨address, hmem⟩, by rw [show t = tid from ht]⟩
  obtain ⟨hmiss, habsent⟩ := h.absent hexact
  have hlines := h.pBuffer
  rw [h.way_slot habsent] at hlines
  have hput := put_of_stored (g := g) (hsep _ (pBuffer_mem_levels p)) hs.unique hs.keyed rfl rfl
    hlines
  have hrule : keyedRule U tid p.pBuffer (p.pBuffer.shape.extractSet ⟨a, tid⟩)
      ⟨true, p.pBuffer.shape.tagOf ⟨a, tid⟩, a, src.target, src.inst⟩ := ⟨a.2, rfl, rfl⟩
  refine ⟨h.pBuffer_unique hexact hs.unique, hs.keyed.stored hrule hlines, ?_⟩
  intro j y hy
  by_cases hj : j = a
  · subst hj
    rw [hput.here] at hy
    rw [← hy]
    exact hf j _ (top_of_fillSource hmiss h.source)
  · rcases hput.other hj with heq | ⟨hnone, _⟩
    · rw [heq] at hy
      exact hs.fresh j y hy
    · rw [hnone] at hy
      cases hy

lemma Prefetched.bufferSound (hexact : p.useCompressedTagFilter = false)
    (hsep : NoCollision p U tid) (h : Prefetched (Inside U tid) T s s')
    (hf : Fresh (State.levels tid g s) n) (hs : BufferSound tid g s n) :
    BufferSound tid g s' n := by
  induction h with
  | refl => exact hs
  | tail hpre hstep ih =>
    rcases hstep with hsoft | ⟨key, src, way, hfill⟩
    · exact ih.of_lines (by rw [hsoft.pBuffer])
    · refine hfill.bufferSound hexact hsep ?_ ih
      rw [Prefetched.levels_eq (F := Inside U tid) (T := T) hpre]
      exact hf

lemma BufferSound.promoted (hsep : NoCollision p U tid) (hs : BufferSound tid g s n) {k : U}
    (h : lines s'.pBuffer = lines (s.pBufferAfter ⟨k, tid⟩)) : BufferSound tid g s' n := by
  unfold pBufferAfter at h
  cases hprobe : (if p.probesPBuffer then s.pBuffer.findEntry ⟨(k : Addr), tid⟩ else none) with
  | none =>
    rw [hprobe] at h
    exact hs.of_lines h
  | some l =>
    rw [hprobe] at h
    have hfound : s.pBuffer.findEntry ⟨(k : Addr), tid⟩ = some l := by
      split at hprobe
      · exact hprobe
      · cases hprobe
    refine ⟨unique_of_lines h (hs.unique.invalidate l), (hs.keyed.invalidate l).of_lines h, ?_⟩
    intro j y hy
    rw [view_of_lines h, view_invalidate (hsep _ (pBuffer_mem_levels p)) hs.unique hs.keyed hfound]
      at hy
    by_cases hj : j = k
    · rw [hj, Function.update_self] at hy
      cases hy
    · rw [Function.update_of_ne hj] at hy
      exact hs.fresh j y hy

end

/-- An update passes the target that the prefetch buffer has for the branch, if
it has one. -/
def BufferAgrees (s : State p) (o : Op) : Prop :=
  ∀ u ∈ o.trained, ∀ l ∈ s.pBuffer.findEntry u.1, (s.pBuffer.get l).target = some u.2

instance (s : State p) (o : Op) : Decidable (BufferAgrees s o) :=
  inferInstanceAs (Decidable (∀ u ∈ o.trained, ∀ l ∈ s.pBuffer.findEntry u.1,
    (s.pBuffer.get l).target = some u.2))

def targetOnly (target : Option PCState) (_ : Option StaticInst) : Option PCState := target

lemma BufferSound.update {pc : Addr} {target : PCState} {type : BranchType}
    {inst : Option StaticInst} (hagree : BufferAgrees s (.update tid pc target type inst))
    (hpb : s'.pBuffer = s.pBuffer)
    (hs : BufferSound (U := U) tid targetOnly s (newest targetOnly tid past)) :
    BufferSound (U := U) tid targetOnly s'
      (newest targetOnly tid (past ++ [.update tid pc target type inst])) := by
  refine ⟨hpb ▸ hs.unique, hpb ▸ hs.keyed, ?_⟩
  intro k y hy
  rw [hpb] at hy
  by_cases hk : pc = k
  · -- the buffer keeps its target, which is the one just passed
    subst hk
    obtain ⟨l, hl, hval⟩ := map_eq_some_iff.mp hy
    have htarget := hagree _ rfl l hl
    rw [← hval]
    simp only [newest, lastUpdate_append, Op.stored, and_self, if_true, some_or,
      map_some, targetOnly]
    exact congrArg some htarget.symm
  · have hother : Op.stored tid k (.update tid pc target type inst) = none :=
      if_neg (fun h => hk h.2)
    rw [newest_of_not_stored hother]
    exact hs.fresh k y hy

lemma step_bufferSound (hexact : p.useCompressedTagFilter = false) (hsep : NoCollision p U tid)
    (hs : Settled U tid s)
    (hf' : Fresh (levels (U := U) tid targetOnly s') (newest targetOnly tid (past ++ [o])))
    (hb : BufferSound (U := U) tid targetOnly s (newest targetOnly tid past))
    (ho : o.Uses U tid) (hagree : BufferAgrees s o) (h : s.step o = .ok s') :
    BufferSound (U := U) tid targetOnly s' (newest targetOnly tid (past ++ [o])) := by
  have unstored : (∀ k : U, o.stored tid k = none) →
      newest (U := U) targetOnly tid (past ++ [o]) = newest targetOnly tid past :=
    fun hn => funext (fun k => newest_of_not_stored (hn k))
  cases step_effect (hs.allows ho) h with
  | quiet isQuiet _ same =>
    rw [unstored (fun k => by cases o with | update => cases isQuiet | _ => rfl)]
    exact hb.of_lines same.pBuffer
  | updateHit _ _ _ _ pBuffer | updateMiss _ _ _ pBuffer =>
    obtain ⟨rfl, _⟩ := ho
    exact hb.update hagree pBuffer
  | lookupHit _ _ _ same =>
    rw [unstored (fun _ => rfl)]
    exact hb.of_lines same.pBuffer
  | @lookupMiss t instPC _ _ _ _ u _ src _ _ brought prefetched =>
    obtain ⟨rfl, hpc⟩ := ho
    rw [unstored (fun _ => rfl), prefetched.levels_eq] at hf'
    rw [unstored (fun _ => rfl)]
    exact prefetched.bufferSound hexact hsep hf' (hb.promoted hsep (k := ⟨instPC, hpc⟩)
      brought.pBuffer)
  | prefetch prefetched =>
    rw [unstored (fun _ => rfl), prefetched.levels_eq] at hf'
    rw [unstored (fun _ => rfl)]
    exact prefetched.bufferSound hexact hsep hf' hb
  | clear =>
    refine ⟨Cache.unique_clear _, obeys_clear, ?_⟩
    intro k y hy
    have hinvalid : ∀ l, (s.memInvalidate.pBuffer.get l).valid = false := by
      intro l
      unfold memInvalidate
      rw [Cache.get_clear]
      rfl
    rw [view_of_invalid hinvalid] at hy
    cases hy

/-- The invariant of freshness along a run. -/
structure Current (tid : ThreadID) (U : Set Addr) (past : List Op) (s : State p) : Prop
    extends Settled U tid s where
  shallow : Shallow p.config (levels (U := U) tid targetOnly s)
  fresh : Fresh (levels (U := U) tid targetOnly s) (newest targetOnly tid past)
  buffer : BufferSound (U := U) tid targetOnly s (newest targetOnly tid past)

lemma current_init (bw : PrevBrInfo) : Current tid U [] (State.init p bw) := by
  have hbuffer : BufferFresh (U := U) tid targetOnly (State.init p bw)
      (newest targetOnly tid []) := by
    intro k y hy
    rw [view_of_invalid (idle_init bw).pBuffer] at hy
    cases hy
  refine ⟨settled_init bw, ?_, ?_, ⟨Cache.unique_init, obeys_init, hbuffer⟩⟩
  · rw [levels_init]
    exact fun _ _ => rfl
  · rw [levels_init]
    exact fun _ _ hy => (by cases hy)

lemma step_current (hexact : p.useCompressedTagFilter = false) (hsep : NoCollision p U tid)
    (hs : Current tid U past s) (ho : o.Uses U tid) (hagree : BufferAgrees s o)
    (h : s.step o = .ok s') : Current tid U (past ++ [o]) s' := by
  obtain ⟨hshallow, hfresh⟩ := step_fresh hsep hs.toSettled hs.shallow hs.fresh
    (fun _ => hs.buffer.fresh) ho h
  exact ⟨step_settled hsep hs.toSettled ho h, hshallow, hfresh,
    step_bufferSound hexact hsep hs.toSettled hfresh hs.buffer ho hagree h⟩

/-- If updates agree with the exactly filtered prefetch buffer, a lookup of a valid
branch returns the target of its most recent update. -/
theorem lookup_returns_last_target (hexact : p.useCompressedTagFilter = false)
    (hsep : NoCollision p U tid) {bw : PrevBrInfo} {ops : List Op}
    (huses : ∀ o ∈ ops, o.Uses U tid) (hagree : Along step BufferAgrees (State.init p bw) ops)
    (h : Reached bw ops s) {pc : Addr} (hpc : pc ∈ U) (hvalid : s.valid tid pc = true)
    (type : BranchType) (taken : Bool) (blockStartAddr : Addr) (basePrediction : Bool) :
    Meets (s.lookupWithLatency tid pc type taken blockStartAddr basePrediction)
      (fun r => ∃ target inst, lastUpdate tid pc ops = some (target, inst) ∧
        r.2.target = some target)
      (LookupFault p) := by
  have hs : Current tid U ops s := run_invariant (Current tid U)
    (fun _ _ _ _ hs hc hstep => step_current hexact hsep hs hc.1 hc.2 hstep) (current_init bw)
    ((along_of_mem huses _).and hagree) h
  lift pc to U using hpc
  rw [valid_iff_servingEntry] at hvalid
  obtain ⟨e, he⟩ := isSome_iff_exists.mp hvalid
  have hnewest := servingEntry_newest hs.fresh hs.buffer.fresh he
  obtain ⟨⟨target, inst⟩, hlast, htarget⟩ := map_eq_some_iff.mp hnewest
  refine (lookup_serves ?_ he type taken blockStartAddr basePrediction).mono ?_ (fun _ hf => hf)
  · intro hoff
    exact pBuffer_findEntry_of_invalid (reached_idle hoff h).pBuffer _
  · intro r hr
    exact ⟨target, inst, hlast, hr.trans htarget.symm⟩

/-- Branch 20 is served from the buffer. -/
theorem lookup_returns_last_target_small :
    ∃ s : State markovOn, Reached ⟨false, false⟩ bufferFilled s ∧
      (s.pBuffer.findEntry ⟨20, 0⟩).isSome = true ∧
      Meets (s.lookupWithLatency 0 20 .directUncond true 0 true)
        (fun r => ∃ target inst, lastUpdate 0 20 bufferFilled = some (target, inst) ∧
          r.2.target = some target) (LookupFault markovOn) := by
  obtain ⟨s, hs, hin⟩ :=
    exists_run markovOn bufferFilled (fun s => (s.pBuffer.findEntry ⟨20, 0⟩).isSome && s.valid 0 20)
    (by decide +kernel)
  obtain ⟨hbuf, hvalid⟩ := Bool.and_eq_true_iff.mp hin
  refine ⟨s, hs, hbuf, ?_⟩
  exact lookup_returns_last_target (p := markovOn) (U := Set.univ) rfl (noCollision_small rfl _ 0)
    (uses_univ rfl) (along_of_test BufferAgrees (by decide +kernel)) hs trivial hvalid
    .directUncond true 0 true

/-- Branch 20 is resolved to a new target while the buffer has the old one, and is
evicted to L2 again. The lookup is served from the buffer. -/
theorem buffer_serves_stale_target :
    NoCollision markovOn Set.univ 0 ∧ markovOn.limitedMarkov = true ∧
    ∃ (s : State markovOn) (r : State markovOn × BTBLookupResult), Reached ⟨false, false⟩
      (bufferFilled ++ [.resolve 20 202, .wait, .resolve 10 100, .wait]) s ∧
      s.lookupWithLatency 0 20 .directUncond true 0 true = .ok r ∧
      r.2.target = some (PCState.ofAddr 101) ∧
      lastUpdate 0 20 (bufferFilled ++ [.resolve 20 202, .wait, .resolve 10 100, .wait]) =
        some (PCState.ofAddr 202, none) := by
  obtain ⟨s, hs, htest⟩ :=
    exists_run markovOn (bufferFilled ++ [.resolve 20 202, .wait, .resolve 10 100, .wait])
    (fun s => holdsAt (s.lookupWithLatency 0 20 .directUncond true 0 true)
      (fun r => decide (r.2.target = some (PCState.ofAddr 101)))) (by decide +kernel)
  obtain ⟨r, hr, htarget⟩ := exists_of_holdsAt _ _ htest
  exact ⟨noCollision_small rfl _ 0, rfl, s, r, hs, hr, of_decide_eq_true htarget, by decide⟩

/-! ## Without prefetching -/

lemma reached_fresh (hoff : p.probesPBuffer = false) (hsep : NoCollision p U tid)
    {bw : PrevBrInfo} {ops : List Op} (huses : ∀ o ∈ ops, o.Uses U tid) (h : Reached bw ops s) :
    Settled U tid s ∧ Shallow p.config (levels (U := U) tid g s) ∧
      Fresh (levels (U := U) tid g s) (newest g tid ops) := by
  refine @run_invariant _ _ _ step (fun _ o => o.Uses U tid) (fun past s => Settled U tid s ∧
    Shallow p.config (levels (U := U) tid g s) ∧
    Fresh (levels (U := U) tid g s) (newest g tid past)) ?_ [] _ s ops ?_ (along_of_mem huses _) h
  · rintro past s o s' ⟨hs, hshallow, hf⟩ ho hstep
    refine ⟨step_settled hsep hs ho hstep, step_fresh hsep hs hshallow hf ?_ ho hstep⟩
    intro hon
    rw [hoff] at hon
    cases hon
  · rw [levels_init]
    exact ⟨settled_init bw, fun _ _ => rfl, fun _ _ hy => (by cases hy)⟩

/-- Without a prefetcher a valid branch is served with what its most recent update
passed, whatever copies remain below. -/
theorem lossy_map_without_prefetching (hmarkov : p.limitedMarkov = false)
    (hlookup : p.trainBitsOnLookup = false) (hcommit : p.trainBitsOnCommit = false)
    (hsep : NoCollision p U tid) {bw : PrevBrInfo} {ops : List Op}
    (huses : ∀ o ∈ ops, o.Uses U tid) (h : Reached bw ops s) {pc : Addr} (hpc : pc ∈ U)
    (hvalid : s.valid tid pc = true) :
    ∃ target inst, lastUpdate tid pc ops = some (target, inst) ∧ s.getInst tid pc = inst ∧
      ∀ type taken blockStartAddr basePrediction, ∃ r,
        s.lookupWithLatency tid pc type taken blockStartAddr basePrediction = .ok r ∧
          r.2.target = some target := by
  have hoff : p.probesPBuffer = false := by simp [Params.probesPBuffer, hmarkov, hlookup, hcommit]
  have hidle := reached_idle hoff h
  obtain ⟨_, _, hfresh⟩ := reached_fresh hoff hsep huses h
  have hbuffer : BufferFresh (U := U) tid Prod.mk s (newest Prod.mk tid ops) := by
    intro k y hy
    rw [view_of_invalid hidle.pBuffer] at hy
    cases hy
  lift pc to U using hpc
  rw [valid_iff_servingEntry] at hvalid
  obtain ⟨e, he⟩ := isSome_iff_exists.mp hvalid
  obtain ⟨⟨target, inst⟩, hlast, hpair⟩ :=
    map_eq_some_iff.mp (servingEntry_newest hfresh hbuffer he)
  obtain ⟨htarget, hinst⟩ := Prod.mk.inj hpair
  refine ⟨target, inst, hlast, ?_, ?_⟩
  · simp only [getInst, he, bind_some]
    exact hinst.symm
  · intro type taken blockStartAddr basePrediction
    have hserves := (lookup_serves (fun _ => pBuffer_findEntry_of_invalid hidle.pBuffer _) he type
      taken blockStartAddr basePrediction).mono (fun _ hr => hr) (not_lookupFault_off hoff)
    obtain ⟨r, hr, hrt⟩ := hserves.returns
    exact ⟨r, hr, hrt.trans htarget.symm⟩

/-- The second resolution of branch 20 leaves the old copy in L2. -/
theorem lossy_map_without_prefetching_small :
    ∃ s : State Params.small, Reached ⟨false, false⟩ (movedToL2 ++ [.resolve 20 102]) s ∧
      s.inL2 0 20 = true ∧ ∃ r, s.lookupWithLatency 0 20 .directUncond true 0 true = .ok r ∧
        r.2.target = some (PCState.ofAddr 102) := by
  obtain ⟨s, hs, hin⟩ := exists_run Params.small (movedToL2 ++ [.resolve 20 102])
    (fun s => s.inL2 0 20 && s.valid 0 20) (by decide +kernel)
  obtain ⟨hl2, hvalid⟩ := Bool.and_eq_true_iff.mp hin
  obtain ⟨_, _, hlast, _, hlookup⟩ := lossy_map_without_prefetching (U := Set.univ) rfl rfl
    rfl (noCollision_small rfl _ 0) (uses_univ rfl) hs trivial hvalid
  obtain ⟨r, hr, htarget⟩ := hlookup .directUncond true 0 true
  cases hlast
  exact ⟨s, hs, hl2, r, hr, htarget⟩

end State

end BTBFerret
