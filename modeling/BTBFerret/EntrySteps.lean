import BTBFerret.LookupEffects

/-!
# Every operation, seen through whole entries

Here every operation is described by the entries it writes, with their prefetch bits and flags: an
L1 way is rewritten in place, or it is freed for a key and rewritten, by the code's own functions.
-/

namespace BTBFerret

open AssociativeCache FallibleRuns

namespace State

variable {p : Params}

def trainedEntry (p : Params) (actuallyTaken : Bool) (e : BTBEntry) : BTBEntry :=
  if !p.cleanBitsOnL1Promotion then
    if actuallyTaken then { e with prefetchTarget := true } else { e with prefetchThrough := true }
  else e.setPrefetchBits actuallyTaken (!actuallyTaken)

/-- What an operation does to the entries of the three levels. -/
inductive EntryStep (s : State p) : Op → State p → Prop
  | keep {o : Op} {s' : State p} (l1btb : ∀ l, s'.l1btb.get l = s.l1btb.get l)
      (l2btb : ∀ l, s'.l2btb.get l = s.l2btb.get l)
      (l3btb : ∀ l, s'.l3btb.get l = s.l3btb.get l) : EntryStep s o s'
  | updateHit {tid : ThreadID} {instPC : Addr} {target : PCState} {type : BranchType}
      {inst : Option StaticInst} {s' : State p} (way : Loc p.l1btb.shape)
      (hit : s.l1btb.findEntry ⟨instPC, tid⟩ = some way)
      (rewritten : Rewritten AnyThread s s' way
        (fun e => (markChangedTarget p type target e).update target inst)) :
      EntryStep s (.update tid instPC target type inst) s'
  | updateMiss {tid : ThreadID} {instPC : Addr} {target : PCState} {type : BranchType}
      {inst : Option StaticInst} {s' : State p} (miss : s.l1btb.findEntry ⟨instPC, tid⟩ = none)
      (filled : Filled AnyThread s s' tid instPC (fun e => (allocateBits p e).update target inst)) :
      EntryStep s (.update tid instPC target type inst) s'
  | lookupHit {tid : ThreadID} {instPC : Addr} {type : BranchType} {taken : Bool}
      {blockStartAddr : Addr} {basePrediction : Bool} {s' : State p} (t : State p)
      (search : Searching AnyThread s t) (way : Loc p.l1btb.shape)
      (hit : s.l1btb.findEntry ⟨instPC, tid⟩ = some way)
      (rewritten : Rewritten AnyThread t s' way reused) :
      EntryStep s (.lookup tid instPC type taken blockStartAddr basePrediction) s'
  | lookupMiss {tid : ThreadID} {instPC : Addr} {type : BranchType} {taken : Bool}
      {blockStartAddr : Addr} {basePrediction : Bool} {s' : State p} (t : State p)
      (search : Searching AnyThread s t) (miss : s.l1btb.findEntry ⟨instPC, tid⟩ = none)
      (v : State p) (src : BTBEntry) (f : BTBEntry → BTBEntry)
      (served : Served t ⟨instPC, tid⟩ v src f) (u : State p)
      (filled : Filled AnyThread v u tid instPC f) (l1btb : s'.l1btb = u.l1btb)
      (l2btb : s'.l2btb = u.l2btb) (l3btb : s'.l3btb = u.l3btb) :
      EntryStep s (.lookup tid instPC type taken blockStartAddr basePrediction) s'
  | commit {tid : ThreadID} {pc : Addr} {actuallyTaken : Bool} {s' : State p}
      (way : Loc p.l1btb.shape) (hit : s.l1btb.findEntry ⟨pc, tid⟩ = some way)
      (rewritten : Rewritten AnyThread s s' way (trainedEntry p actuallyTaken)) :
      EntryStep s (.trainPrefetchBitsOnCommit tid pc actuallyTaken) s'
  | direction {tid : ThreadID} {instPC : Addr} {taken : Bool} {s' : State p}
      (way : Loc p.l1btb.shape) (hit : s.l1btb.findEntry ⟨instPC, tid⟩ = some way)
      (rewritten : Rewritten AnyThread s s' way (BTBEntry.updateDir taken)) :
      EntryStep s (.updateDirection tid instPC taken) s'
  | clear : EntryStep s .memInvalidate s.memInvalidate

lemma entryStep_update {s s' : State p} {tid : ThreadID} {instPC : Addr} {target : PCState}
    {type : BranchType} {inst : Option StaticInst}
    (h : s.update tid instPC target type inst = .ok s') :
    EntryStep s (.update tid instPC target type inst) s' := by
  cases hfind : s.l1btb.findEntry ⟨instPC, tid⟩ with
  | none =>
    obtain ⟨u, hu, hfill, _⟩ := update_miss (T := AnyThread) hfind target type inst
    rw [hu] at h
    cases h
    exact .updateMiss hfind hfill
  | some l =>
    obtain ⟨u, hu, hrew⟩ := update_hit (T := AnyThread) hfind target type inst
    rw [hu] at h
    cases h
    exact .updateHit l hfind hrew

section

variable {s s' : State p} {tid : ThreadID} {instPC : Addr} {type : BranchType} {taken : Bool}
  {blockStartAddr : Addr} {basePrediction : Bool} {r : BTBLookupResult}

lemma entryStep_lookup
    (h : s.lookupWithLatency tid instPC type taken blockStartAddr basePrediction = .ok (s', r)) :
    EntryStep s (.lookup tid instPC type taken blockStartAddr basePrediction) s' := by
  cases (lookup_any _ _ _ _ _ _ _).of_ok h with
  | hit t search l found rewritten => exact .lookupHit t search l found rewritten
  | miss t search _ missed v src f served brings =>
    obtain ⟨u, hfill, _, hpre⟩ := brings
    obtain ⟨h1, h2, h3⟩ := hpre.prefetched.levels
    exact .lookupMiss t search missed v src f served u hfill h1 h2 h3

end

lemma entryStep_trainPrefetchBitsOnCommit (s : State p) (tid : ThreadID) (pc : Addr)
    (actuallyTaken : Bool) :
    EntryStep s (.trainPrefetchBitsOnCommit tid pc actuallyTaken)
      (s.trainPrefetchBitsOnCommit tid pc actuallyTaken) := by
  unfold trainPrefetchBitsOnCommit
  split
  · exact .keep (fun _ => rfl) (fun _ => rfl) (fun _ => rfl)
  · split
    · exact .keep (fun _ => rfl) (fun _ => rfl) (fun _ => rfl)
    · rename_i l hl
      exact .commit l hl (rewritten_modify s l (trainedEntry p actuallyTaken))

lemma levels_trainMarkovOnCommit (s : State p) (pc : Addr) (wasL2Hit : Bool) :
    Meets (s.trainMarkovOnCommit pc wasL2Hit)
      (fun t => t.l1btb = s.l1btb ∧ t.l2btb = s.l2btb ∧ t.l3btb = s.l3btb) (fun _ => True) := by
  unfold trainMarkovOnCommit
  split
  · exact ⟨rfl, rfl, rfl⟩
  · split
    · exact ⟨rfl, rfl, rfl⟩
    · refine Meets.bind_any ?_
      intro r
      exact Meets.bind_any (fun _ => ⟨rfl, rfl, rfl⟩)

lemma step_entries {s s' : State p} {o : Op} (h : s.step o = .ok s') : EntryStep s o s' := by
  cases o with
  | update => exact entryStep_update h
  | lookup =>
    obtain ⟨_, hr, he⟩ := map_eq_ok_iff.mp h
    exact he ▸ entryStep_lookup hr
  | trainMarkovOnCommit =>
    obtain ⟨h1, h2, h3⟩ := (levels_trainMarkovOnCommit s _ _).of_ok h
    exact .keep (fun l => by rw [h1]) (fun l => by rw [h2]) (fun l => by rw [h3])
  | trainPrefetchBitsOnCommit =>
    cases h
    exact entryStep_trainPrefetchBitsOnCommit s _ _ _
  | processDeferredPrefetchQueue =>
    have hpre := (processDeferredPrefetchQueue_spec (F := fun _ => True) (T := AnyThread) s
      (fun _ _ => trivial) (fun _ _ => trivial)).of_ok h
    obtain ⟨h1, h2, h3⟩ := hpre.levels
    exact .keep (fun l => by rw [h1]) (fun l => by rw [h2]) (fun l => by rw [h3])
  | memInvalidate =>
    cases h
    exact .clear
  | lookupL1 tid instPC =>
    cases h
    have hsoft := (counted_lookupL1 s tid instPC).soft (T := AnyThread)
    exact .keep (fun l => by rw [hsoft.l1btb]) (fun l => by rw [hsoft.l2btb])
      (fun l => by rw [hsoft.l3btb])
  | updateDirection tid instPC taken =>
    cases h
    unfold updateDirection
    split
    · rename_i l hl
      exact .direction l hl (rewritten_modify s l (BTBEntry.updateDir taken))
    · exact .keep (fun _ => rfl) (fun _ => rfl) (fun _ => rfl)
  | setBBMap | advance =>
    cases h
    exact .keep (fun _ => rfl) (fun _ => rfl) (fun _ => rfl)

end State

end BTBFerret
