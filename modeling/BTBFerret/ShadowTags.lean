import BTBFerret.BufferSteps
import BTBFerret.FifoLockstep

/-!
# The compressed tags shadow the prefetch buffer

With the compressed tag filter on, every fill of the buffer inserts the key into the compressed tags
as well, and every hit drops it from both, so the two caches stay in lock step. The filter therefore
never misses a branch that is in the buffer, and keeps it free of duplicates.
-/

namespace BTBFerret

open ReplacementPolicy AssociativeCache FallibleRuns FifoLockstep BTBLevel BitVec

/-- The compressed tag array has the geometry of the buffer and truncated tags,
and each of the two has a first-in-first-out policy of its own. -/
structure Params.FilterFits (p : Params) : Prop where
  filter : p.useCompressedTagFilter = true
  log2NumSets : p.pbCompressedTags.log2NumSets = p.pBuffer.log2NumSets
  assoc : p.pbCompressedTags.assoc = p.pBuffer.assoc
  setShift : p.pbCompressedTags.setShift = p.pBuffer.setShift
  log2NumThreads : p.pbCompressedTags.log2NumThreads = p.pBuffer.log2NumThreads
  tagBits : p.pbCompressedTags.tagBits ≤ p.pBuffer.tagBits
  pBuffer_fifo : ∃ start, p.pBuffer.policy = fifo start
  tags_fifo : ∃ start, p.pbCompressedTags.policy = fifo start

lemma getLsbD_tagMask (v : BTBLevel) {i : Nat} (hi : i < 64) :
    v.tagMask.getLsbD i = decide (i < v.tagBits) := by
  unfold tagMask
  split
  · rename_i hwide
    have hlt : i < v.tagBits := by omega
    rw [getLsbD_allOnes, decide_eq_true hi, decide_eq_true hlt]
  · rw [getLsbD_ofNat, Nat.testBit_two_pow_sub_one, decide_eq_true hi, Bool.true_and]

lemma tagMask_and_tagMask {v w : BTBLevel} (h : w.tagBits ≤ v.tagBits) :
    v.tagMask &&& w.tagMask = w.tagMask := by
  apply eq_of_getLsbD_eq
  intro i hi
  rw [getLsbD_and, getLsbD_tagMask v hi, getLsbD_tagMask w hi, ← Bool.decide_and]
  congr 1
  apply propext
  omega

lemma extractTag_truncated {v w : BTBLevel} (hshift : w.tagShift = v.tagShift)
    (h : w.tagBits ≤ v.tagBits) (addr : Addr) :
    w.extractTag addr = v.extractTag addr &&& w.tagMask := by
  unfold extractTag
  rw [BitVec.and_assoc, tagMask_and_tagMask h, hshift]

namespace Params.FilterFits

variable {p : Params}

/-- A first-in-first-out policy, whatever the first value of its clock. -/
noncomputable def view {v : BTBLevel} (h : ∃ start, v.policy = fifo start) : FifoView v.policy :=
  h.choose_spec ▸ fifoView h.choose

lemma tagShift (h : p.FilterFits) : p.pbCompressedTags.tagShift = p.pBuffer.tagShift := by
  unfold BTBLevel.tagShift
  rw [h.setShift, h.log2NumSets]

noncomputable def shadow (h : p.FilterFits) : Shadow p.pBuffer.shape p.pbCompressedTags.shape where
  numSets := congrArg (fun n => 2 ^ n) h.log2NumSets.symm
  assoc := h.assoc.symm
  extractSet := by
    intro k
    simp only [shape, extractSet, extractSetAddr, setMask,
      h.tagShift, h.setShift, h.log2NumSets, h.log2NumThreads]
  cut := fun tag => ⟨tag.address &&& p.pbCompressedTags.tagMask, tag.tid⟩
  tagOf := by
    intro k
    have htag := extractTag_truncated h.tagShift h.tagBits k.address
    simp only [shape, htag]
  first := view h.pBuffer_fifo
  second := view h.tags_fifo

end Params.FilterFits

namespace State

variable {p : Params}

def Shadowed (fits : p.FilterFits) (s : State p) : Prop :=
  fits.shadow.Lockstep s.pBuffer s.pbCompressedTags

variable {fits : p.FilterFits} {s t : State p}

lemma Shadowed.of_books (hs : Shadowed fits s) (hpb : t.pBuffer = s.pBuffer)
    (htags : t.pbCompressedTags = s.pbCompressedTags) : Shadowed fits t := by
  unfold Shadowed
  rw [hpb, htags]
  exact hs

lemma Filling.shadowed {i : Issue} (h : Filling s t i) (hs : Shadowed fits s) :
    Shadowed fits t := by
  have hpb : t.pBuffer = s.pBuffer.replace s.curTick i.key (i.copy p) :=
    congrArg Books.pBuffer h.books
  have htags : t.pbCompressedTags = s.pbCompressedTags.replace s.curTick i.key id := by
    have htag : t.pbCompressedTags = (s.books.fill s.curTick i).pbCompressedTags :=
      congrArg Books.pbCompressedTags h.books
    rw [htag]
    simp only [Books.fill, fits.filter, if_true]
    rfl
  unfold Shadowed
  rw [hpb, htags]
  -- what the prefetch writes into the way is neither its tag nor its validity
  exact Shadow.Lockstep.replace hs (h.fresh fits.filter) s.curTick (fun _ => rfl) (fun _ => rfl)
    (fun _ => rfl) (fun _ => rfl)

lemma Fetching.shadowed {A : Issue → Prop} (h : Fetching A s t) (hs : Shadowed fits s) :
    Shadowed fits t := by
  induction h with
  | refl => exact hs
  | tail _ hstep ih =>
    rcases hstep with hq | ⟨i, _, hfill⟩
    · exact ih.of_books (congrArg Books.pBuffer hq.books) (congrArg Books.pbCompressedTags hq.books)
    · exact hfill.shadowed ih

lemma used_valid (e : BTBEntry) : e.used.valid = e.valid := by
  unfold BTBEntry.used
  split <;> rfl

lemma used_tag (e : BTBEntry) : e.used.tag = e.tag := by
  unfold BTBEntry.used
  split <;> rfl

lemma shadowed_take {u : State p} {key : KeyType} {now : Tick} {l : Loc p.pBuffer.shape}
    (hs : Shadowed fits s) (hl : s.pBuffer.findEntry key = some l)
    (hu : u.books = s.books.take now key l) : Shadowed fits u := by
  have hpb : u.pBuffer =
      (Cache.modify (s.pBuffer.accessEntry now l) l BTBEntry.used).invalidate l :=
    congrArg Books.pBuffer hu
  have htouched := Shadow.Lockstep.touch hs now l
  have hget : ∀ m, (Cache.modify (s.pBuffer.accessEntry now l) l BTBEntry.used).get m =
      if m = l then (s.pBuffer.get l).used else s.pBuffer.get m :=
    fun m => Cache.get_modify _ l m BTBEntry.used
  have hused : fits.shadow.Lockstep
      (Cache.modify (s.pBuffer.accessEntry now l) l BTBEntry.used) s.pbCompressedTags := by
    refine htouched.rewrite ?_ ?_ rfl rfl
    · intro m
      rw [hget]
      split
      · rename_i hm
        rw [hm]
        exact used_valid _
      · rfl
    · intro m
      rw [hget]
      split
      · rename_i hm
        rw [hm]
        exact used_tag _
      · rfl
  have hfind : (Cache.modify (s.pBuffer.accessEntry now l) l BTBEntry.used).findEntry key =
      some l := by
    rw [← hl]
    apply Cache.findEntry_congr
    intro m _
    rw [hget]
    split
    · rename_i hm
      rw [hm]
      simp only [shape, BTBEntry.match, used_valid, used_tag]
    · rfl
  obtain ⟨m, hm, hdrop⟩ := hused.drop hfind
  have htags : u.pbCompressedTags = s.pbCompressedTags.invalidate m := by
    have htag : u.pbCompressedTags = (s.books.take now key l).pbCompressedTags :=
      congrArg Books.pbCompressedTags hu
    rw [htag]
    simp only [Books.take, fits.filter, if_true, State.books, hm]
  unfold Shadowed
  rw [hpb, htags]
  exact hdrop

lemma BookStep.shadowed {s' : State p} (h : BookStep s s') (hs : Shadowed fits s) :
    Shadowed fits s' := by
  cases h with
  | fetch _ same fetching =>
    exact fetching.shadowed (hs.of_books (congrArg Books.pBuffer same)
      (congrArg Books.pbCompressedTags same))
  | l1Hit _ e _ books =>
    have hsame : (s.books.countL1Hit e).pBuffer = s.pBuffer ∧
        (s.books.countL1Hit e).pbCompressedTags = s.pbCompressedTags := by
      unfold Books.countL1Hit
      split
      · exact ⟨rfl, rfl⟩
      · exact ⟨rfl, rfl⟩
    exact hs.of_books ((congrArg Books.pBuffer books).trans hsame.1)
      ((congrArg Books.pbCompressedTags books).trans hsame.2)
  | take _ _ found _ _ books fetching =>
    exact fetching.shadowed (shadowed_take hs found books)
  | clear books =>
    have hpb : s'.pBuffer = s.pBuffer.clear := congrArg Books.pBuffer books
    have htags : s'.pbCompressedTags = s.pbCompressedTags.clear :=
      congrArg Books.pbCompressedTags books
    unfold Shadowed
    rw [hpb, htags]
    exact Shadow.Lockstep.clear hs

/-- The filter finds every branch that is in the prefetch buffer, and no set of
the buffer holds two valid entries of one tag and thread. -/
theorem filter_finds_buffered (fits : p.FilterFits) {bw : PrevBrInfo} {ops : List Op} {s : State p}
    (h : Reached bw ops s) :
    (∀ key, (s.pBuffer.findEntry key).isSome = true →
      (s.pbCompressedTags.findEntry key).isSome = true) ∧ s.pBuffer.Unique := by
  have hinit : Shadowed fits (State.init p bw) := Shadow.Lockstep.init
  have hs : Shadowed fits s :=
    run_invariant_always (Shadowed fits) (fun _ _ _ hs hstep => (step_books hstep).shadowed hs)
      hinit h
  refine ⟨?_, Shadow.Lockstep.unique_first hs⟩
  intro key hkey
  obtain ⟨l, hl⟩ := Option.isSome_iff_exists.mp hkey
  rw [Shadow.Lockstep.findEntry_twin hs hl]
  rfl

/-- The buffer and the shadow tags of four bits, both first in first out. -/
def filtered : Params :=
  { markovOn with
    useCompressedTagFilter := true
    pBuffer := { Params.small.pBuffer with policy := fifo 7 }
    pbCompressedTags := { Params.small.pbCompressedTags with tagBits := 4, policy := fifo 0 } }

/-- The tags have branch 20 while it is in the buffer. -/
theorem filter_finds_buffered_filtered :
    ∃ s : State filtered, Reached ⟨false, false⟩ bufferFilled s ∧
      (s.pBuffer.findEntry ⟨20, 0⟩).isSome = true ∧
      (s.pbCompressedTags.findEntry ⟨20, 0⟩).isSome = true ∧ s.pBuffer.Unique := by
  obtain ⟨s, hs, hin⟩ := exists_run filtered bufferFilled
    (fun s => (s.pBuffer.findEntry ⟨20, 0⟩).isSome) (by decide +kernel)
  obtain ⟨hfound, hunique⟩ := filter_finds_buffered (p := filtered)
    ⟨rfl, rfl, rfl, rfl, rfl, by decide, ⟨7, rfl⟩, ⟨0, rfl⟩⟩ hs
  exact ⟨s, hs, hin, hfound _ hin, hunique⟩

end State

end BTBFerret
