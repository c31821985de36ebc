import BTBFerret.StepEffects

/-!
# Every operation, seen through lines

`Effect` lists what an operation that returns can have done to the levels. The
code is consulted here for the last time: all invariants below are shown to be
kept by each kind of effect.
-/

namespace BTBFerret

open AssociativeCache FallibleRuns

/-- Operations that move no entry. -/
def Op.isQuiet : Op → Bool
  | .update .. | .lookup .. | .processDeferredPrefetchQueue | .memInvalidate => false
  | _ => true

/-- Operations that leave the Markov table, the block map and the clock alone. -/
def Op.isStatic : Op → Bool
  | .trainMarkovOnCommit .. | .setBBMap _ | .advance .. => false
  | _ => true

/-- The line that an update leaves for a branch new to L1. -/
def Line.fresh (v : BTBLevel) (key : KeyType) (target : PCState) (inst : Option StaticInst) :
    Line :=
  ⟨true, ⟨v.extractTag key.address, key.tid⟩, key.address, some target, inst⟩

namespace State

variable {p : Params} {F : KeyType → Prop} {T : ThreadID → Prop}

/-- No line of any level changes. -/
structure SameLines (s s' : State p) : Prop where
  l1btb : lines s'.l1btb = lines s.l1btb
  pBuffer : lines s'.pBuffer = lines s.pBuffer
  l2btb : lines s'.l2btb = lines s.l2btb
  l3btb : lines s'.l3btb = lines s.l3btb

variable {s s' : State p}

lemma Soft.sameLines (h : Soft T s s') : SameLines s s' :=
  ⟨by rw [h.l1btb], by rw [h.pBuffer], by rw [h.l2btb], by rw [h.l3btb]⟩

lemma sameLines_of_rewritten {t : State p} {l : Loc p.l1btb.shape} {f : BTBEntry → BTBEntry}
    (hsearch : SameLines s t) (h : Rewritten T t s' l f) (hf : ∀ e, (f e).line = e.line) :
    SameLines s s' := by
  refine ⟨?_, by rw [h.pBuffer, hsearch.pBuffer], by rw [h.l2btb, hsearch.l2btb],
    by rw [h.l3btb, hsearch.l3btb]⟩
  rw [lines_of_get h.l1btb, hf, ← hsearch.l1btb]
  exact Function.update_eq_self l (lines t.l1btb)

inductive Effect (F : KeyType → Prop) (T : ThreadID → Prop) (s : State p) :
    Op → State p → Prop
  | quiet {o : Op} {s' : State p} (isQuiet : o.isQuiet = true)
      (rest : o.isStatic = true → Rest T s s') (same : SameLines s s') : Effect F T s o s'
  | updateHit {tid : ThreadID} {instPC : Addr} {target : PCState} {type : BranchType}
      {inst : Option StaticInst} {s' : State p} (way : Loc p.l1btb.shape)
      (hit : s.l1btb.findEntry ⟨instPC, tid⟩ = some way) (rest : Rest T s s')
      (l1btb : lines s'.l1btb = Function.update (lines s.l1btb) way
        { lines s.l1btb way with target := some target, inst := inst })
      (pBuffer : s'.pBuffer = s.pBuffer) (l2btb : s'.l2btb = s.l2btb)
      (l3btb : s'.l3btb = s.l3btb) : Effect F T s (.update tid instPC target type inst) s'
  | updateMiss {tid : ThreadID} {instPC : Addr} {target : PCState} {type : BranchType}
      {inst : Option StaticInst} {s' : State p} (miss : s.l1btb.findEntry ⟨instPC, tid⟩ = none)
      (rest : Rest T s s')
      (entered : Entered s s' tid instPC (Line.fresh p.l1btb ⟨instPC, tid⟩ target inst))
      (pBuffer : s'.pBuffer = s.pBuffer) : Effect F T s (.update tid instPC target type inst) s'
  | lookupHit {tid : ThreadID} {instPC : Addr} {type : BranchType} {taken : Bool}
      {blockStartAddr : Addr} {basePrediction : Bool} {s' : State p} (way : Loc p.l1btb.shape)
      (hit : s.l1btb.findEntry ⟨instPC, tid⟩ = some way) (rest : Rest T s s')
      (same : SameLines s s') :
      Effect F T s (.lookup tid instPC type taken blockStartAddr basePrediction) s'
  | lookupMiss {tid : ThreadID} {instPC : Addr} {type : BranchType} {taken : Bool}
      {blockStartAddr : Addr} {basePrediction : Bool} {u s' : State p} {src : BTBEntry}
      (miss : s.l1btb.findEntry ⟨instPC, tid⟩ = none)
      (source : s.source ⟨instPC, tid⟩ = some src)
      (brought : Brought T s u ⟨instPC, tid⟩ src) (prefetched : Prefetched F T u s') :
      Effect F T s (.lookup tid instPC type taken blockStartAddr basePrediction) s'
  | prefetch {s' : State p} (prefetched : Prefetched F T s s') :
      Effect F T s .processDeferredPrefetchQueue s'
  | clear : Effect F T s .memInvalidate s.memInvalidate

/-! ## Updates -/

lemma line_markChangedTarget (type : BranchType) (target : PCState) (e : BTBEntry) :
    (markChangedTarget p type target e).line = e.line := by
  unfold markChangedTarget
  split <;> rfl

lemma line_allocateBits (e : BTBEntry) : (allocateBits p e).line = e.line := by
  unfold allocateBits
  split <;> rfl

lemma line_update (e : BTBEntry) (target : PCState) (inst : Option StaticInst) :
    (e.update target inst).line = { e.line with target := some target, inst := inst } := rfl

lemma branchAddr_openFor {v : BTBLevel} {C : BTBCache v} {key : KeyType}
    (h : C.findEntry key = none) : (C.openFor key).branchAddr = key.address := by
  unfold Cache.openFor
  rw [h]
  rfl

variable {tid : ThreadID} {instPC : Addr} {type : BranchType}

lemma effect_update (F : KeyType → Prop) (T : ThreadID → Prop) {target : PCState}
    {inst : Option StaticInst} (h : s.update tid instPC target type inst = .ok s') :
    Effect F T s (.update tid instPC target type inst) s' := by
  cases hfind : s.l1btb.findEntry ⟨instPC, tid⟩ with
  | some way =>
    obtain ⟨t, ht, hrew⟩ := update_hit (T := T) hfind target type inst
    rw [ht] at h
    cases h
    refine .updateHit way hfind hrew.toRest ?_ hrew.pBuffer hrew.l2btb hrew.l3btb
    rw [lines_of_get hrew.l1btb, line_update, line_markChangedTarget]
    rfl
  | none =>
    obtain ⟨t, ht, hfill, hpb⟩ := update_miss (T := T) hfind target type inst
    rw [ht] at h
    cases h
    refine .updateMiss hfind hfill.toRest ?_ hpb
    have hentered := hfill.entered
    obtain ⟨hv, htag⟩ := line_openFor s.l1btb ⟨instPC, tid⟩
    have hline : (s.l1btb.openFor ⟨instPC, tid⟩).line = ⟨true,
        ⟨p.l1btb.extractTag instPC, tid⟩, instPC, (s.l1btb.openFor ⟨instPC, tid⟩).target,
        (s.l1btb.openFor ⟨instPC, tid⟩).inst⟩ := by
      rw [BTBEntry.line, hv, htag, branchAddr_openFor hfind]
    rw [line_update, line_allocateBits, hline] at hentered
    exact hentered

/-! ## Lookups -/

lemma Searching.sameLines {t : State p} (h : Searching T s t) : SameLines s t :=
  ⟨h.l1btb.lines, by rw [h.pBuffer], by rw [h.l2btb], by rw [h.l3btb]⟩

lemma line_reused (e : BTBEntry) : (reused e).line = e.line := by
  unfold reused
  split <;> rfl

lemma effect_lookup {taken : Bool} {blockStartAddr : Addr} {basePrediction : Bool}
    {r : BTBLookupResult} (hT : T tid) (hs : p.limitedMarkov = true → SuccessorsFrom F tid s)
    (h : s.lookupWithLatency tid instPC type taken blockStartAddr basePrediction = .ok (s', r)) :
    Effect F T s (.lookup tid instPC type taken blockStartAddr basePrediction) s' := by
  have hspec := lookup_spec (A := fun _ => True) s tid instPC type taken blockStartAddr
    basePrediction hs (fun _ _ _ => trivial) (fun t _ => softTriggers_of_thread hT t instPC type)
  cases (hspec.of_ok h).1 with
  | hit _ search way found rewritten =>
    exact .lookupHit way found (search.toRest.trans rewritten.toRest)
      (sameLines_of_rewritten search.sameLines rewritten line_reused)
  | miss _ search _ missed _ _ _ served brings =>
    obtain ⟨u, hfill, hbooks, hpre⟩ := brings
    exact .lookupMiss missed ((search.source _).symm.trans served.source)
      (served.brought search hfill hbooks) hpre.prefetched

/-! ## All operations -/

def Allows (F : KeyType → Prop) (T : ThreadID → Prop) (s : State p) : Op → Prop
  | .lookup tid .. => T tid ∧ (p.limitedMarkov = true → SuccessorsFrom F tid s)
  | .processDeferredPrefetchQueue =>
    ∀ e ∈ s.deferredPrefetchQueue, T e.tid ∧ F ⟨e.pc, e.tid⟩
  | _ => True

lemma allows_all (s : State p) (o : Op) : Allows (fun _ => True) (fun _ => True) s o := by
  cases o with
  | lookup => exact ⟨trivial, fun _ _ _ _ => trivial⟩
  | processDeferredPrefetchQueue => exact fun _ _ => ⟨trivial, trivial⟩
  | _ => exact trivial

lemma line_updateDir (taken : Bool) (e : BTBEntry) : (e.updateDir taken).line = e.line := rfl

lemma sameLines_refl (s : State p) : SameLines s s := ⟨rfl, rfl, rfl, rfl⟩

lemma sameLines_trainMarkovOnCommit {pc : Addr} {wasL2Hit : Bool}
    (h : s.trainMarkovOnCommit pc wasL2Hit = .ok s') : SameLines s s' := by
  unfold trainMarkovOnCommit at h
  split at h
  · cases h
    exact sameLines_refl s
  · split at h
    · cases h
      exact sameLines_refl s
    · obtain ⟨_, _, h⟩ := bind_eq_ok_iff.mp h
      obtain ⟨_, _, h⟩ := bind_eq_ok_iff.mp h
      cases h
      exact ⟨rfl, rfl, rfl, rfl⟩

section

variable (s : State p) (tid : ThreadID)

lemma sameLines_trainPrefetchBitsOnCommit (pc : Addr)
    (actuallyTaken : Bool) : SameLines s (s.trainPrefetchBitsOnCommit tid pc actuallyTaken) := by
  unfold trainPrefetchBitsOnCommit
  split
  · exact sameLines_refl s
  · split
    · exact sameLines_refl s
    · refine ⟨lines_modify_soft _ _ ?_, rfl, rfl, rfl⟩
      intro e
      repeat' split
      all_goals rfl

lemma rest_trainPrefetchBitsOnCommit (pc : Addr)
    (actuallyTaken : Bool) : Rest T s (s.trainPrefetchBitsOnCommit tid pc actuallyTaken) := by
  unfold trainPrefetchBitsOnCommit
  split
  · exact Rest.refl s
  · split
    · exact Rest.refl s
    · exact ⟨fun _ => rfl, rfl, rfl, rfl, fun _ h => .inl h⟩

lemma rest_updateDirection (instPC : Addr) (taken : Bool) :
    Rest T s (s.updateDirection tid instPC taken) := by
  unfold updateDirection
  split
  · exact ⟨fun _ => rfl, rfl, rfl, rfl, fun _ h => .inl h⟩
  · exact Rest.refl s

lemma sameLines_updateDirection (instPC : Addr) (taken : Bool) :
    SameLines s (s.updateDirection tid instPC taken) := by
  unfold updateDirection
  split
  · exact ⟨lines_modify_soft _ _ (line_updateDir taken), rfl, rfl, rfl⟩
  · exact sameLines_refl s

end

lemma step_effect {o : Op} (hallow : Allows F T s o) (h : s.step o = .ok s') :
    Effect F T s o s' := by
  cases o with
  | update => exact effect_update F T h
  | lookup =>
    obtain ⟨_, hr, rfl⟩ := map_eq_ok_iff.mp h
    exact effect_lookup hallow.1 hallow.2 hr
  | trainMarkovOnCommit =>
    exact .quiet rfl (fun hs => by cases hs) (sameLines_trainMarkovOnCommit h)
  | trainPrefetchBitsOnCommit =>
    cases h
    exact .quiet rfl (fun _ => rest_trainPrefetchBitsOnCommit s _ _ _)
      (sameLines_trainPrefetchBitsOnCommit s _ _ _)
  | processDeferredPrefetchQueue =>
    exact .prefetch ((processDeferredPrefetchQueue_spec s (fun e he => (hallow e he).1)
      (fun e he => (hallow e he).2)).of_ok h)
  | memInvalidate =>
    cases h
    exact .clear
  | lookupL1 tid instPC =>
    cases h
    have hsoft := (counted_lookupL1 s tid instPC).soft (T := T)
    exact .quiet rfl (fun _ => hsoft.toRest) hsoft.sameLines
  | updateDirection tid instPC taken =>
    cases h
    exact .quiet rfl (fun _ => rest_updateDirection s tid instPC taken)
      (sameLines_updateDirection s tid instPC taken)
  | setBBMap | advance =>
    cases h
    exact .quiet rfl (fun hs => by cases hs) ⟨rfl, rfl, rfl, rfl⟩

/-- Most operations change nothing outside the levels that prefetching depends on. -/
lemma Effect.rest {o : Op} (h : Effect F T s o s') (ho : o.isStatic = true) : Rest T s s' := by
  cases h with
  | quiet _ rest => exact rest ho
  | updateHit _ _ rest | updateMiss _ rest | lookupHit _ _ rest => exact rest
  | lookupMiss _ _ brought prefetched => exact brought.toRest.trans prefetched.rest
  | prefetch prefetched => exact prefetched.rest
  | clear => exact ⟨fun _ => rfl, rfl, rfl, rfl, fun _ h => by cases h⟩

lemma lookup_target {taken : Bool} {blockStartAddr : Addr} {basePrediction : Bool}
    {r : BTBLookupResult}
    (h : s.lookupWithLatency tid instPC type taken blockStartAddr basePrediction = .ok (s', r)) :
    (∃ way, s.l1btb.findEntry ⟨instPC, tid⟩ = some way ∧ r.target = (s.l1btb.get way).target) ∨
      (s.l1btb.findEntry ⟨instPC, tid⟩ = none ∧
        ∃ src, s.source ⟨instPC, tid⟩ = some src ∧ r.target = src.target) := by
  cases (lookup_any _ _ _ _ _ _ _).of_ok h with
  | hit _ _ way found _ _ returns => exact .inl ⟨way, found, returns⟩
  | miss _ search _ missed _ src _ served _ returns =>
    exact .inr ⟨missed, src, (search.source _).symm.trans served.source, returns⟩

end State

end BTBFerret
