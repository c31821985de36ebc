import BTBFerret.StepEffects

/-!
# The BTB with all prefetchers off

With no prefetcher configured no entry ever gets a prefetch bit, and a trigger stages nothing: only
a hit in the buffer could make the call policy stage without a bit, and the buffer stays empty.
-/

namespace BTBFerret

open ReplacementPolicy AssociativeCache FallibleRuns Cache

def BTBEntry.Unmarked (e : BTBEntry) : Prop :=
  e.prefetchTarget = false ∧ e.prefetchThrough = false

/-- A level in which no entry, valid or not, has a prefetch bit. -/
def Unmarked {v : BTBLevel} (C : BTBCache v) : Prop := ∀ l, (C.get l).Unmarked

variable {e : BTBEntry}

lemma BTBEntry.Unmarked.updateFrom {other : BTBEntry} (h : e.Unmarked) (ho : other.Unmarked) :
    (e.updateFrom other).Unmarked :=
  ⟨ho.1, by simp [BTBEntry.updateFrom, h.2, ho.2]⟩

variable {victim : BTBEntry}

section

variable {v : BTBLevel}

variable {C : BTBCache v}

lemma Unmarked.openFor (h : Unmarked C) (key : KeyType) : (C.openFor key).Unmarked := by
  unfold Cache.openFor
  split
  · exact h _
  · exact ⟨rfl, rfl⟩

lemma Unmarked.of_get {C' : BTBCache v} (h : Unmarked C) {slot : Loc v.shape} (he : e.Unmarked)
    (hget : ∀ l, C'.get l = if l = slot then e else C.get l) : Unmarked C' := by
  intro l
  rw [hget]
  split
  · exact he
  · exact h l

lemma Unmarked.written (h : Unmarked C) (tell : Bool) (now : Tick) (tid : ThreadID)
    (hv : victim.Unmarked) : Unmarked (State.written C tell now tid victim) :=
  h.of_get ((h.openFor _).updateFrom hv) (fun l => get_store C tell now _ _ l)

lemma Unmarked.invalidate (h : Unmarked C) (l : Loc v.shape) : Unmarked (C.invalidate l) :=
  h.of_get (e := (C.get l).invalidate) (h l) (fun l' => get_invalidate C l l')

lemma Unmarked.clear (h : Unmarked C) : Unmarked C.clear := by
  intro l
  rw [get_clear]
  exact h l

lemma unmarked_init : Unmarked (init v.shape) := by
  intro l
  rw [get_init]
  exact ⟨rfl, rfl⟩

end

namespace State

variable {p : Params} {T : ThreadID → Prop}

structure Idle (s : State p) : Prop where
  l1btb : Unmarked s.l1btb
  l2btb : Unmarked s.l2btb
  l3btb : Unmarked s.l3btb
  pBuffer : ∀ l, (s.pBuffer.get l).valid = false
  queue : s.deferredPrefetchQueue = []

lemma idle_init (bw : PrevBrInfo) : Idle (State.init p bw) where
  l1btb := unmarked_init
  l2btb := unmarked_init
  l3btb := unmarked_init
  pBuffer := fun l => by
    have h : (State.init p bw).pBuffer.get l = BTBEntry.empty := get_init l
    rw [h]
    rfl
  queue := rfl

lemma usesPrefetchBitPolicy_off (hoff : p.probesPBuffer = false) :
    p.usesPrefetchBitPolicy = false ∧ p.limitedMarkov = false ∧ p.trainBitsOnLookup = false ∧
      p.trainBitsOnCommit = false := by
  simp only [Params.probesPBuffer, Bool.or_eq_false_iff] at hoff
  obtain ⟨⟨hm, hl⟩, hc⟩ := hoff
  exact ⟨by simp [Params.usesPrefetchBitPolicy, hl, hc], hm, hl, hc⟩

/-! ## Triggers stage nothing -/

lemma applyNewPBitsLogic_off (hpol : p.usesPrefetchBitPolicy = false) (s : State p)
    (type : BranchType) (taken isBackward : Bool) {triggerLoc : TriggerLocation}
    (hloc : triggerLoc ≠ .pbHit) :
    (s.applyNewPBitsLogic type taken isBackward false false triggerLoc).2 = (false, false) := by
  unfold applyNewPBitsLogic
  cases triggerLoc with
  | pbHit => exact absurd rfl hloc
  | l2Hit | l3Hit => simp [hpol]
  | l1Hit =>
    cases hfw : p.prefetchFwExitOnL1Hit with
    | false => simp
    | true =>
      cases hnew : p.newPBits with
      | false | true => simp

lemma softTrigger_off (hpol : p.usesPrefetchBitPolicy = false) (tid : ThreadID) (instPC : Addr)
    (type : BranchType) (he : e.Unmarked) {triggerLoc : TriggerLocation}
    (hloc : triggerLoc ≠ .pbHit) : SoftTrigger T p tid instPC type e triggerLoc := by
  intro u taken baseLatency triggeredByPBHit isL1Miss
  unfold tryInitialTrigger
  rw [he.1, he.2]
  split
  · exact Soft.refl u
  · dsimp only
    split
    · exact Soft.refl u
    · have hbits := applyNewPBitsLogic_off hpol u type taken (decide (e.targetAddr < instPC)) hloc
      have hsoft := applyNewPBitsLogic_counted u type taken (decide (e.targetAddr < instPC))
        false false triggerLoc
      generalize u.applyNewPBitsLogic type taken (decide (e.targetAddr < instPC)) false false
        triggerLoc = r at hbits hsoft ⊢
      have h1 : r.2.1 = false := congrArg Prod.fst hbits
      have h2 : r.2.2 = false := congrArg Prod.snd hbits
      simp only [h1, h2, Bool.or_self, Bool.false_eq_true, if_false]
      exact hsoft.soft.trans (soft_others _ _ _ _ _ _ _ _)

/-! ## Every operation stays idle -/

variable {s : State p}

lemma Idle.l1Victim (h : Idle s) (tid : ThreadID) (instPC : Addr) :
    (s.l1Victim tid instPC).Unmarked := h.l1btb _

lemma Idle.l2After (h : Idle s) (tid : ThreadID) (hv : victim.Unmarked) :
    Unmarked (s.l2After tid victim) := by
  unfold State.l2After
  split
  · exact h.l2btb.written _ _ _ hv
  · exact h.l2btb

lemma Idle.l3After (h : Idle s) (tid : ThreadID) (hv : victim.Unmarked) :
    Unmarked (s.l3After tid victim) := by
  have hmid : Unmarked (s.l3AfterDisplacement tid victim) := by
    unfold State.l3AfterDisplacement
    split
    · rename_i e he
      have hmarked : e.Unmarked := by
        unfold State.displaced at he
        split at he
        · dsimp only at he
          split at he
          · cases he
            exact h.l2btb _
          · cases he
        · cases he
      split
      · exact h.l3btb.written _ _ _ hmarked
      · exact h.l3btb
    · exact h.l3btb
  unfold State.l3After State.l3AfterWriteBack
  split
  · split
    · exact hmid.written _ _ _ hv
    · exact hmid
  · exact h.l3btb

variable {s' : State p}

lemma Rest.queue_empty (h : Rest (fun _ => False) s s') (hs : s.deferredPrefetchQueue = []) :
    s'.deferredPrefetchQueue = [] := by
  apply List.eq_nil_iff_forall_not_mem.mpr
  intro e he
  rcases h.queue e he with hold | ⟨hno, _⟩
  · rw [hs] at hold
    cases hold
  · exact hno

lemma Filled.idle {u : State p} {tid : ThreadID} {instPC : Addr} {f : BTBEntry → BTBEntry}
    (h : Filled (fun _ => False) s u tid instPC f) (hs : Idle s)
    (hf : ∀ e : BTBEntry, e.Unmarked → (f e).Unmarked) (hpb : u.pBuffer = s.pBuffer) : Idle u where
  l1btb := hs.l1btb.of_get (hf _ (hs.l1btb.openFor _)) h.l1btb
  l2btb := h.l2btb ▸ hs.l2After tid (hs.l1Victim tid instPC)
  l3btb := h.l3btb ▸ hs.l3After tid (hs.l1Victim tid instPC)
  pBuffer := hpb ▸ hs.pBuffer
  queue := h.queue_empty hs.queue

lemma Rewritten.idle {way : Loc p.l1btb.shape} {f : BTBEntry → BTBEntry}
    (h : Rewritten (fun _ => False) s s' way f) (hs : Idle s)
    (hf : ∀ e : BTBEntry, e.Unmarked → (f e).Unmarked) : Idle s' where
  l1btb := hs.l1btb.of_get (hf _ (hs.l1btb way)) h.l1btb
  l2btb := h.l2btb ▸ hs.l2btb
  l3btb := h.l3btb ▸ hs.l3btb
  pBuffer := h.pBuffer ▸ hs.pBuffer
  queue := h.queue_empty hs.queue

lemma Soft.idle (h : Soft (fun _ => False) s s') (hs : Idle s) : Idle s' where
  l1btb := h.l1btb ▸ hs.l1btb
  l2btb := h.l2btb ▸ hs.l2btb
  l3btb := h.l3btb ▸ hs.l3btb
  pBuffer := h.pBuffer ▸ hs.pBuffer
  queue := h.queue_empty hs.queue

/-- A prefetcher without a key to fill only takes soft steps. -/
lemma Prefetched.idle (h : Prefetched (fun _ => False) (fun _ => False) s s') (hs : Idle s) :
    Idle s' := by
  induction h with
  | refl => exact hs
  | tail _ hstep ih =>
    rcases hstep with hsoft | ⟨_, _, _, hfill⟩
    · exact hsoft.idle ih
    · exact False.elim hfill.wanted

lemma Searching.idle (hoff : p.probesPBuffer = false) {t : State p}
    (h : Searching (fun _ => False) s t) (hs : Idle s) : Idle t where
  l1btb := h.untrained (usesPrefetchBitPolicy_off hoff).2.2.1 ▸ hs.l1btb
  l2btb := h.l2btb ▸ hs.l2btb
  l3btb := h.l3btb ▸ hs.l3btb
  pBuffer := h.pBuffer ▸ hs.pBuffer
  queue := h.queue_empty hs.queue

lemma Idle.releaseL2 (h : Idle s) (l : Loc p.l2btb.shape) :
    Idle ({ s with l2btb := s.l2btb.accessEntry s.curTick l }.releaseL2 l) := by
  refine ⟨h.l1btb, ?_, h.l3btb, h.pBuffer, h.queue⟩
  unfold State.releaseL2
  dsimp only
  split
  · exact h.l2btb
  · exact Unmarked.invalidate (C := s.l2btb.accessEntry s.curTick l) h.l2btb l

lemma Idle.releaseL3 (h : Idle s) (l : Loc p.l3btb.shape) :
    Idle ({ s with l3btb := s.l3btb.accessEntry s.curTick l }.releaseL3 l) := by
  refine ⟨h.l1btb, h.l2btb, ?_, h.pBuffer, h.queue⟩
  unfold State.releaseL3
  dsimp only
  split
  · exact h.l3btb
  · exact Unmarked.invalidate (C := s.l3btb.accessEntry s.curTick l) h.l3btb l

lemma migrated_unmarked {snapshot : BTBEntry} (hs : snapshot.Unmarked) (e : BTBEntry) :
    (migrated p snapshot e).Unmarked := by
  unfold migrated promoteBits
  split
  · exact ⟨rfl, rfl⟩
  · exact hs

lemma reused_unmarked (he : e.Unmarked) : (reused e).Unmarked := by
  unfold reused
  split <;> exact he

lemma idle_update (hoff : p.probesPBuffer = false) (hs : Idle s) {tid : ThreadID} {instPC : Addr}
    {target : PCState} {type : BranchType} {inst : Option StaticInst}
    (h : s.update tid instPC target type inst = .ok s') : Idle s' := by
  have hpol := (usesPrefetchBitPolicy_off hoff).1
  cases hfind : s.l1btb.findEntry ⟨instPC, tid⟩ with
  | none =>
    obtain ⟨u, hu, hfill, hpb⟩ := update_miss (T := fun _ => False) hfind target type inst
    rw [hu] at h
    cases h
    refine hfill.idle hs ?_ hpb
    intro e he
    simp only [allocateBits, hpol]
    exact he
  | some =>
    obtain ⟨u, hu, hrew⟩ := update_hit (T := fun _ => False) hfind target type inst
    rw [hu] at h
    cases h
    refine hrew.idle hs ?_
    intro e he
    simp only [markChangedTarget, hpol]
    exact he

lemma idle_lookup (hoff : p.probesPBuffer = false) (hs : Idle s) (tid : ThreadID) (instPC : Addr)
    (type : BranchType) (taken : Bool) (blockStartAddr : Addr) (basePrediction : Bool) :
    Meets (s.lookupWithLatency tid instPC type taken blockStartAddr basePrediction)
      (fun r => Idle r.1) (fun _ => True) := by
  obtain ⟨hpol, hmarkov, _⟩ := usesPrefetchBitPolicy_off hoff
  have htrig : ∀ t : State p, Searching (fun _ => False) s t →
      SoftTriggers (fun _ => False) t tid instPC type := by
    intro t hsearch
    have ht := hsearch.idle hoff hs
    exact ⟨fun l => softTrigger_off hpol tid instPC type (ht.l1btb l) (by decide),
      fun hp => absurd hp (by rw [hoff]; decide),
      fun l => softTrigger_off hpol tid instPC type (ht.l2btb l) (by decide),
      fun l => softTrigger_off hpol tid instPC type (ht.l3btb l) (by decide)⟩
  refine (lookup_spec (A := fun _ => True) (F := fun _ => False) s tid instPC type taken
    blockStartAddr basePrediction (fun hm => absurd hm (by rw [hmarkov]; decide))
    (fun _ _ _ => trivial) htrig).mono ?_ (fun _ _ => trivial)
  rintro r ⟨hlooked, _⟩
  cases hlooked with
  | hit _ search _ _ rewritten =>
    exact rewritten.idle (search.idle hoff hs) (fun _ he => reused_unmarked he)
  | miss t search _ _ _ _ _ served brings =>
    have ht := search.idle hoff hs
    obtain ⟨u, hfill, hbooks, hpre⟩ := brings
    have hpb : u.pBuffer = t.pBuffer := by
      rw [booksAfter_of_skip (fun hp => absurd hp (by rw [hoff]; decide))] at hbooks
      exact congrArg Books.pBuffer hbooks
    refine hpre.prefetched.idle ?_
    cases served with
    | buffer _ probes =>
      rw [hoff] at probes
      cases probes
    | l2 l =>
      exact hfill.idle (ht.releaseL2 l) (fun e _ => migrated_unmarked (ht.l2btb l) e) hpb
    | l3 l =>
      exact hfill.idle (ht.releaseL3 l) (fun e he => he.updateFrom (ht.l3btb l)) hpb

lemma idle_memInvalidate (hs : Idle s) : Idle s.memInvalidate where
  l1btb := hs.l1btb.clear
  l2btb := hs.l2btb.clear
  l3btb := by
    unfold memInvalidate
    dsimp only
    split
    · exact hs.l3btb.clear
    · exact hs.l3btb
  pBuffer := fun l => by
    have h : s.memInvalidate.pBuffer.get l = (s.pBuffer.get l).invalidate := get_clear _ l
    rw [h]
    rfl
  queue := rfl

lemma step_idle (hoff : p.probesPBuffer = false) (hs : Idle s) {o : Op} (h : s.step o = .ok s') :
    Idle s' := by
  obtain ⟨_, hmarkov, _, hcommit⟩ := usesPrefetchBitPolicy_off hoff
  cases o with
  | update => exact idle_update hoff hs h
  | lookup =>
    obtain ⟨r, hr, he⟩ := map_eq_ok_iff.mp h
    exact he ▸ (idle_lookup hoff hs _ _ _ _ _ _).of_ok hr
  | trainMarkovOnCommit =>
    simp only [step, trainMarkovOnCommit, hmarkov] at h
    cases h
    exact hs
  | trainPrefetchBitsOnCommit =>
    simp only [step, trainPrefetchBitsOnCommit, hcommit] at h
    cases h
    exact hs
  | processDeferredPrefetchQueue =>
    have hspec := processDeferredPrefetchQueue_spec (F := fun _ => False) (T := fun _ => False) s
      (fun e he => by rw [hs.queue] at he; cases he) (fun e he => by rw [hs.queue] at he; cases he)
    exact (hspec.of_ok h).idle hs
  | memInvalidate =>
    cases h
    exact idle_memInvalidate hs
  | lookupL1 tid instPC =>
    cases h
    exact (counted_lookupL1 s tid instPC).soft.idle hs
  | updateDirection tid instPC taken =>
    cases h
    unfold updateDirection
    split
    · rename_i l _
      exact (rewritten_modify s l (BTBEntry.updateDir taken)).idle hs (fun _ he => he)
    · exact hs
  | setBBMap | advance =>
    cases h
    exact ⟨hs.l1btb, hs.l2btb, hs.l3btb, hs.pBuffer, hs.queue⟩

lemma reached_idle (hoff : p.probesPBuffer = false) {bw : PrevBrInfo} {ops : List Op}
    (h : Reached bw ops s) : Idle s :=
  run_invariant_always Idle (fun _ _ _ hs hstep => step_idle hoff hs hstep) (idle_init bw) h

end State

end BTBFerret
