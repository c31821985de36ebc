import BTBFerret.Bookkeeping

/-!
# Every way to change the prefetch buffer

The buffer and its account change in four ways only: a prefetch fills a way, a lookup takes an entry
out, everything is flushed, or an L1 hit is counted. The theorem at the end names the whole new
content of the buffer, of the shadow tags and of the account.
-/

namespace BTBFerret

open ReplacementPolicy AssociativeCache FallibleRuns Cache

def BTBEntry.used (e : BTBEntry) : BTBEntry :=
  if e.prefetched then
    { e with prefetched := false, takenPrefetched := false, triggeredByPBHit := false }
  else e

namespace Books

variable {p : Params}

def take (b : Books p) (now : Tick) (key : KeyType) (l : Loc p.pBuffer.shape) : Books p where
  pBuffer := (Cache.modify (b.pBuffer.accessEntry now l) l BTBEntry.used).invalidate l
  pbCompressedTags := if p.useCompressedTagFilter then
      match b.pbCompressedTags.findEntry key with
      | some m => b.pbCompressedTags.invalidate m
      | none => b.pbCompressedTags
    else b.pbCompressedTags
  accounts := if (b.pBuffer.get l).prefetched then
    .prefetchHits (b.pBuffer.get l).prefetchTriggerType :: b.accounts else b.accounts

def clear (b : Books p) : Books p := ⟨b.pBuffer.clear, b.pbCompressedTags.clear, b.accounts⟩

def countL1Hit (b : Books p) (e : BTBEntry) : Books p :=
  if e.prefetched then { b with accounts := .prefetchHits e.prefetchTriggerType :: b.accounts }
  else b

lemma get_take (b : Books p) (now : Tick) (key : KeyType) (l m : Loc p.pBuffer.shape) :
    (b.take now key l).pBuffer.get m =
      if m = l then (b.pBuffer.get l).used.invalidate else b.pBuffer.get m := by
  have hget : (b.take now key l).pBuffer.get m = if m = l then
      BTBEntry.invalidate ((Cache.modify (b.pBuffer.accessEntry now l) l BTBEntry.used).get l)
      else (Cache.modify (b.pBuffer.accessEntry now l) l BTBEntry.used).get m :=
    get_invalidate _ l m
  rw [hget, get_modify_self, get_accessEntry, get_modify]
  split
  · rfl
  · rfl

end Books

namespace State

variable {p : Params}

/-! ## Steps of a prefetcher -/

lemma Quiet.refl (s : State p) : Quiet s s := ⟨rfl, rfl⟩

variable {s t u : State p}

lemma Quiet.trans (h : Quiet s t) (h' : Quiet t u) : Quiet s u :=
  ⟨h'.books.trans h.books, h'.hierarchy.trans h.hierarchy⟩

variable {A : Issue → Prop}

def IssuedEntry (s : State p) (i : Issue) (e : BTBEntry) : Prop :=
  s.FillSource i.key i.src ∧ ∃ victim, e = i.copy p (p.pBuffer.shape.insert i.key victim)

lemma Fetching.entries (h : Fetching A s t) (l : Loc p.pBuffer.shape) :
    t.pBuffer.get l = s.pBuffer.get l ∨ ∃ i, A i ∧ t.IssuedEntry i (t.pBuffer.get l) := by
  induction h with
  | refl => exact .inl rfl
  | @tail u w _ hstep ih =>
    -- an entry of `u` that `w` keeps
    have hkept : w.hierarchy = u.hierarchy → w.pBuffer.get l = u.pBuffer.get l →
        w.pBuffer.get l = s.pBuffer.get l ∨ ∃ i, A i ∧ w.IssuedEntry i (w.pBuffer.get l) := by
      intro hh hget
      rw [hget]
      rcases ih with hold | ⟨i, hi, hsrc, hcopy⟩
      · exact .inl hold
      · exact .inr ⟨i, hi, hsrc.of_hierarchy hh, hcopy⟩
    rcases hstep with hq | ⟨i, hi, hfill⟩
    · apply hkept hq.hierarchy
      have hpb : w.pBuffer = u.pBuffer := congrArg Books.pBuffer hq.books
      rw [hpb]
    · have hget := Books.get_fill u.books u.curTick i l
      rw [← hfill.books] at hget
      change w.pBuffer.get l = _ at hget
      split at hget
      · exact .inr ⟨i, hi, hfill.source.of_hierarchy hfill.hierarchy, _, hget⟩
      · exact hkept hfill.hierarchy hget

/-! ## The Markov prefetcher -/

/-- The Markov prefetcher is on and knows successors of the branch. -/
def MarkovHit (s : State p) (pc : Addr) : Prop :=
  p.limitedMarkov = true ∧ s.markov.findEntry pc ≠ none

lemma MarkovHit.of_get (h : ∀ l, t.markov.get l = s.markov.get l) {pc : Addr}
    (ht : t.MarkovHit pc) : s.MarkovHit pc := by
  refine ⟨ht.1, ?_⟩
  have hsame : t.markov.findEntry pc = s.markov.findEntry pc :=
    findEntry_congr (fun l _ => by rw [h l])
  rw [← hsame]
  exact ht.2

/-! ## The deferred queue event -/

/-- The latency of the level that a prefetch of the branch is read from. -/
def sourceLatency (s : State p) (key : KeyType) : Cycles :=
  if (s.l2btb.findEntry key).isSome then p.l2Latency else p.l3Latency

def IssuedFor (s : State p) (entries : List DeferredPrefetchEntry) (i : Issue) : Prop :=
  ∃ e ∈ entries, i.key = ⟨e.pc, e.tid⟩ ∧ i.arrivalCycle = e.issueTime + s.sourceLatency i.key

lemma prefetchSource_latency {pc : Addr} {tid : ThreadID} {src : BTBEntry} {latency : Cycles}
    {fromL3 : Bool} (h : s.prefetchSource pc tid = some (src, latency, fromL3)) :
    latency = s.sourceLatency ⟨pc, tid⟩ := by
  unfold prefetchSource at h
  unfold sourceLatency
  split at h
  · rename_i l hfound
    rw [hfound]
    cases h
    rfl
  · rename_i hnone
    rw [hnone]
    split at h
    · obtain ⟨l, _, he⟩ := Option.map_eq_some_iff.mp h
      cases he
      rfl
    · cases h

lemma permits_issuedFor (s : State p) (e : DeferredPrefetchEntry) :
    s.Permits (IssuedFor s [e]) e := by
  intro src latency fromL3 hsrc
  refine ⟨e, List.mem_singleton.mpr rfl, rfl, ?_⟩
  rw [DeferredPrefetchEntry.issue, prefetchSource_latency hsrc]

lemma fetching_processDeferredEntry (s : State p) (e : DeferredPrefetchEntry)
    (hA : s.Permits A e) : Meets (s.processDeferredEntry e) (Fetching A s) (fun _ => True) :=
  (processDeferredEntry_spec (F := fun _ => True) (T := fun _ => True) s e trivial hA trivial).mono
    (fun _ h => h.fetching) (fun _ _ => trivial)

end State

end BTBFerret
