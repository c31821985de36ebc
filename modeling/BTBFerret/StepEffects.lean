import BTBFerret.LookupEffects

/-!
# The effect of an operation on the lines

The entry below L1 that serves a lookup enters L1 in the state `freeing`, in
which the L1 way is freed for it. `Brought` describes the step by the lines it
changes, whichever level the entry comes from.
-/

namespace BTBFerret

open ReplacementPolicy AssociativeCache

def Line.placed (v : BTBLevel) (key : KeyType) (x : Line) : Line :=
  ⟨true, ⟨v.extractTag key.address, key.tid⟩, x.branchAddr, x.target, x.inst⟩

namespace State

variable {p : Params} {T : ThreadID → Prop} {F : KeyType → Prop}

/-- The state in which a lookup that missed L1 frees the way. -/
def freeing (s : State p) (key : KeyType) : State p :=
  match (if p.probesPBuffer then s.pBuffer.findEntry key else none) with
  | some _ => s
  | none =>
    match s.l2btb.findEntry key with
    | some l => { s with l2btb := s.l2btb.accessEntry s.curTick l }.releaseL2 l
    | none =>
      match (if p.enableL3 then s.l3btb.findEntry key else none) with
      | some l => { s with l3btb := s.l3btb.accessEntry s.curTick l }.releaseL3 l
      | none => s

/-- The buffer after a lookup that missed L1, before it prefetches. -/
def pBufferAfter (s : State p) (key : KeyType) : BTBCache p.pBuffer :=
  match (if p.probesPBuffer then s.pBuffer.findEntry key else none) with
  | some l => s.pBuffer.invalidate l
  | none => s.pBuffer

structure Brought (T : ThreadID → Prop) (s u : State p) (key : KeyType) (src : BTBEntry) : Prop
    extends Rest T s u where
  entered : Entered (s.freeing key) u key.tid key.address (src.line.placed p.l1btb key)
  pBuffer : lines u.pBuffer = lines (s.pBufferAfter key)

lemma Searching.agreeLevels {s t : State p} (h : Searching T s t) : AgreeLevels s t :=
  ⟨h.l1btb, h.l2btb ▸ Agree.refl _, h.l3btb ▸ Agree.refl _, h.curTick⟩

lemma Filled.entered_placed {s u : State p} {tid : ThreadID} {instPC : Addr}
    {f : BTBEntry → BTBEntry} (h : Filled T s u tid instPC f) (src : Line)
    (hf : ∀ e : BTBEntry, (f e).line = ⟨e.valid, e.tag, src.branchAddr, src.target, src.inst⟩) :
    Entered s u tid instPC (src.placed p.l1btb ⟨instPC, tid⟩) := by
  have hentered := h.entered
  obtain ⟨hv, ht⟩ := line_openFor s.l1btb ⟨instPC, tid⟩
  rw [hf, hv, ht] at hentered
  exact hentered

section

variable {s t u v : State p} {key : KeyType} {src : BTBEntry} {f : BTBEntry → BTBEntry}

lemma Served.line (h : Served t key v src f) (e : BTBEntry) :
    (f e).line = ⟨e.valid, e.tag, src.branchAddr, src.target, src.inst⟩ := by
  cases h with
  | buffer => exact promoted_line _ e
  | l2 => exact migrated_line _ e
  | l3 => rfl

lemma Served.eq_freeing (h : Served t key v src f) : v = t.freeing key := by
  unfold freeing
  cases h with
  | buffer _ probes found => simp only [probes, found, if_true]
  | l2 _ skip found => simp only [searched_of_skip skip, found]
  | l3 _ skip miss deep found => simp only [searched_of_skip skip, miss, deep, found, if_true]

lemma Searching.freeing (h : Searching T s t) (key : KeyType) :
    AgreeLevels (s.freeing key) (t.freeing key) := by
  unfold State.freeing
  rw [h.pBuffer, h.l2btb, h.l3btb]
  split
  · exact h.agreeLevels
  · split
    · refine ⟨h.l1btb, ?_, h.l3btb ▸ Agree.refl _, h.curTick⟩
      simp only [releaseL2, h.curTick]
      exact Agree.refl _
    · split
      · refine ⟨h.l1btb, h.l2btb ▸ Agree.refl _, ?_, h.curTick⟩
        simp only [releaseL3, h.curTick]
        exact Agree.refl _
      · exact h.agreeLevels

lemma lines_take (b : Books p) (now : Tick) (key : KeyType) (l : Loc p.pBuffer.shape) :
    lines (b.take now key l).pBuffer = lines (b.pBuffer.invalidate l) := by
  funext m
  rw [lines, lines, Books.get_take, Cache.get_invalidate]
  split
  · unfold BTBEntry.used
    split <;> rfl
  · rfl

lemma lines_booksAfter (s : State p) (key : KeyType) :
    lines (s.booksAfter key).pBuffer = lines (s.pBufferAfter key) := by
  unfold booksAfter pBufferAfter
  cases (if p.probesPBuffer then s.pBuffer.findEntry key else none) with
  | some l => exact lines_take s.books s.curTick key l
  | none => rfl

lemma Served.brought (h : Served t key v src f) (hsearch : Searching T s t)
    (hfill : Filled T v u key.tid key.address f) (hbooks : u.books = t.booksAfter key) :
    Brought T s u key src := by
  refine ⟨hsearch.toRest.trans ?_, ?_, ?_⟩
  · cases h <;> exact ⟨hfill.markov, hfill.bbMap, hfill.curTick, hfill.curCycle, hfill.queue⟩
  · refine Entered.of_agree ?_ (hfill.entered_placed src.line h.line)
    rw [h.eq_freeing]
    exact hsearch.freeing key
  · have hpb : u.pBuffer = (t.booksAfter key).pBuffer := congrArg Books.pBuffer hbooks
    rw [hpb, lines_booksAfter, pBufferAfter, pBufferAfter, hsearch.pBuffer]

end

end State

end BTBFerret
