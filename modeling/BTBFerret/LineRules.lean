import BTBFerret.Steps

/-!
# Rules that all valid lines obey

A rule is a condition on a line, its level and its set. An operation moves lines in four ways: an
update writes one, a lookup copies one to L1, a prefetch copies one to the buffer, and a freed L1
way sends its line and the line displaced from L2 downwards. A rule closed under these holds of
every valid line.
-/

namespace BTBFerret

open ReplacementPolicy AssociativeCache Cache Function List

abbrev LineRule := (v : BTBLevel) → Fin v.shape.numSets → Line → Prop

def Obeys (Q : LineRule) {v : BTBLevel} (C : BTBCache v) : Prop :=
  ∀ l, (lines C l).valid = true → Q v l.1 (lines C l)

variable {x : Line} {key : KeyType}

section

variable {Q : LineRule} {v : BTBLevel} {C C' : BTBCache v}

lemma obeys_of_invalid (h : ∀ l, (C.get l).valid = false) : Obeys Q C := by
  intro l hv
  rw [show (lines C l).valid = false from h l] at hv
  cases hv

lemma obeys_init : Obeys Q (init v.shape) :=
  obeys_of_invalid (fun l => by rw [get_init]; rfl)

lemma obeys_clear : Obeys Q C.clear :=
  obeys_of_invalid (fun l => by rw [get_clear]; rfl)

section

variable (hC : Obeys Q C)

include hC

lemma Obeys.of_lines (h : lines C' = lines C) : Obeys Q C' := by
  intro l hv
  rw [h] at hv ⊢
  exact hC l hv

lemma Obeys.mono {Q' : LineRule} (h : ∀ i x, Q v i x → Q' v i x) : Obeys Q' C :=
  fun l hv => h _ _ (hC l hv)

lemma Obeys.of_update {l : Loc v.shape} (hx : x.valid = true → Q v l.1 x)
    (h : lines C' = update (lines C) l x) : Obeys Q C' := by
  intro l' hv
  rw [h] at hv ⊢
  by_cases hl : l' = l
  · subst hl
    rw [update_self] at hv ⊢
    exact hx hv
  · rw [update_of_ne hl] at hv ⊢
    exact hC l' hv

lemma Obeys.stored (hx : Q v (v.shape.extractSet key) x)
    (h : lines C' = update (lines C) (C.slotFor key) x) : Obeys Q C' :=
  hC.of_update (fun _ => by rw [slotFor_set]; exact hx) h

lemma Obeys.invalidate (l : Loc v.shape) : Obeys Q (C.invalidate l) :=
  hC.of_update (x := (C.get l).invalidate.line) (fun hv => by cases hv)
    (lines_modify C l BTBEntry.invalidate)

lemma Obeys.found {l : Loc v.shape} (h : C.findEntry key = some l) :
    Q v (v.shape.extractSet key) (C.get l).line ∧ (C.get l).tag = v.shape.tagOf key := by
  obtain ⟨hset, hmatch⟩ := findEntry_some h
  obtain ⟨hv, ht⟩ := (v.shape.match_iff key _).mp hmatch
  refine ⟨?_, ht⟩
  rw [← hset]
  exact hC l hv

end

end

def Movable (Q : LineRule) (tid : ThreadID) (x : Line) : Prop :=
  ∀ v : BTBLevel, Q v (v.shape.extractSet ⟨x.branchAddr, tid⟩) (x.rekey v tid)

variable {tid : ThreadID}

lemma Obeys.written {Q : LineRule} {v : BTBLevel} {C : BTBCache v} (hC : Obeys Q C) (tell : Bool)
    (now : Tick) {victim : BTBEntry} (h : Movable Q tid victim.line) :
    Obeys Q (State.written C tell now tid victim) :=
  hC.stored (h v) (lines_written C tell now tid victim)

def Line.prefetched (v : BTBLevel) (key : KeyType) (x : Line) : Line :=
  ⟨true, v.shape.tagOf key, key.address, x.target, x.inst⟩

def Params.levels (p : Params) : List BTBLevel := [p.l1btb, p.pBuffer, p.l2btb, p.l3btb]

namespace State

variable {p : Params} {Q Q' : LineRule} {F D : KeyType → Prop} {T : ThreadID → Prop}

/-- All four levels obey the rule. -/
structure Orderly (Q : LineRule) (s : State p) : Prop where
  l1btb : Obeys Q s.l1btb
  l2btb : Obeys Q s.l2btb
  l3btb : Obeys Q s.l3btb
  pBuffer : Obeys Q s.pBuffer

lemma orderly_init (bw : PrevBrInfo) : Orderly Q (State.init p bw) :=
  ⟨obeys_init, obeys_init, obeys_init, obeys_init⟩

variable {s : State p}

lemma Orderly.mono (hs : Orderly Q s) (h : ∀ v i x, Q v i x → Q' v i x) : Orderly Q' s :=
  ⟨hs.l1btb.mono (h _), hs.l2btb.mono (h _), hs.l3btb.mono (h _), hs.pBuffer.mono (h _)⟩

variable {s' : State p}

lemma SameLines.orderly (h : SameLines s s') (hs : Orderly Q s) : Orderly Q s' :=
  ⟨hs.l1btb.of_lines h.l1btb, hs.l2btb.of_lines h.l2btb, hs.l3btb.of_lines h.l3btb,
    hs.pBuffer.of_lines h.pBuffer⟩

def evicted (s : State p) (tid : ThreadID) (instPC : Addr) : List Line :=
  let victim := s.l1Victim tid instPC
  if victim.valid then victim.line :: (s.displaced tid victim).toList.map BTBEntry.line else []

variable {instPC : Addr}

lemma mem_evicted : x ∈ s.evicted tid instPC ↔ (s.l1Victim tid instPC).valid = true ∧
      (x = (s.l1Victim tid instPC).line ∨
        ∃ e, s.displaced tid (s.l1Victim tid instPC) = some e ∧ x = e.line) := by
  unfold evicted
  dsimp only
  split
  · rename_i hv
    simp only [hv, true_and, mem_cons, mem_map, Option.mem_toList, eq_comm]
  · rename_i hv
    simp [hv]

lemma Orderly.l3AfterDisplacement (hs : Orderly Q s) {victim : BTBEntry}
    (h : ∀ e, s.displaced tid victim = some e → Movable Q tid e.line) :
    Obeys Q (s.l3AfterDisplacement tid victim) := by
  unfold State.l3AfterDisplacement
  split
  · rename_i e he
    split
    · exact hs.l3btb.written _ _ (h e he)
    · exact hs.l3btb
  · exact hs.l3btb

/-- Entering L1 keeps the rule if the new line obeys it and the lines that leave
may be written back. -/
lemma Entered.orderly (h : Entered s s' tid instPC x) (hs : Orderly Q s)
    (hx : Q p.l1btb (p.l1btb.shape.extractSet ⟨instPC, tid⟩) x)
    (hmove : ∀ y ∈ s.evicted tid instPC, Movable Q tid y) :
    Obeys Q s'.l1btb ∧ Obeys Q s'.l2btb ∧ Obeys Q s'.l3btb := by
  refine ⟨hs.l1btb.stored hx h.l1btb, Obeys.of_lines ?_ h.l2btb, Obeys.of_lines ?_ h.l3btb⟩
  · unfold State.l2After
    split
    · rename_i hv
      exact hs.l2btb.written _ _ (hmove _ (mem_evicted.mpr ⟨hv, .inl rfl⟩))
    · exact hs.l2btb
  · unfold State.l3After State.l3AfterWriteBack
    split
    · rename_i hv
      have hdisplaced : Obeys Q (s.l3AfterDisplacement tid (s.l1Victim tid instPC)) :=
        hs.l3AfterDisplacement (fun e he => hmove _ (mem_evicted.mpr ⟨hv, .inr ⟨e, he, rfl⟩⟩))
      split
      · exact hdisplaced.written _ _ (hmove _ (mem_evicted.mpr ⟨hv, .inl rfl⟩))
      · exact hdisplaced
    · exact hs.l3btb

lemma Orderly.freeing (hs : Orderly Q s) (key : KeyType) : Orderly Q (s.freeing key) := by
  have touch : ∀ {v : BTBLevel} {C : BTBCache v} (now : Tick) (l : Loc v.shape), Obeys Q C →
      Obeys Q (C.accessEntry now l) := fun now l hC => hC.of_lines rfl
  unfold State.freeing
  split
  · exact hs
  · split
    · refine ⟨hs.l1btb, ?_, hs.l3btb, hs.pBuffer⟩
      simp only [releaseL2]
      split
      · exact touch _ _ (touch _ _ hs.l2btb)
      · exact (touch _ _ hs.l2btb).invalidate _
    · split
      · refine ⟨hs.l1btb, hs.l2btb, ?_, hs.pBuffer⟩
        simp only [releaseL3]
        split
        · exact touch _ _ (touch _ _ hs.l3btb)
        · exact (touch _ _ hs.l3btb).invalidate _
      · exact hs

lemma Orderly.source (hs : Orderly Q s) {src : BTBEntry} (h : s.source key = some src) :
    ∃ v ∈ p.levels, Q v (v.shape.extractSet key) src.line ∧ src.tag = v.shape.tagOf key := by
  unfold State.source at h
  split at h
  · rename_i l hl
    cases h
    split at hl
    · exact ⟨p.pBuffer, by simp [Params.levels], hs.pBuffer.found hl⟩
    · cases hl
  · split at h
    · rename_i l hl
      cases h
      exact ⟨p.l2btb, by simp [Params.levels], hs.l2btb.found hl⟩
    · split at h
      · obtain ⟨l, hl, rfl⟩ := Option.map_eq_some_iff.mp h
        exact ⟨p.l3btb, by simp [Params.levels], hs.l3btb.found hl⟩
      · cases h

lemma Orderly.fillSource (hs : Orderly Q s) {src : BTBEntry} (h : s.FillSource key src) :
    ∃ v ∈ p.levels, Q v (v.shape.extractSet key) src.line ∧ src.tag = v.shape.tagOf key := by
  rcases h with ⟨l, hl, rfl⟩ | ⟨_, _, l, hl, rfl⟩
  · exact ⟨p.l2btb, by simp [Params.levels], hs.l2btb.found hl⟩
  · exact ⟨p.l3btb, by simp [Params.levels], hs.l3btb.found hl⟩

/-! ## The rule for operations -/

/-- A line found for a key may be copied to L1 if the key is in `D`, and to the
buffer if it is in `F`. -/
structure Copyable (Q : LineRule) (p : Params) (D F : KeyType → Prop) : Prop where
  toL1 : ∀ v ∈ p.levels, ∀ key x, D key → Q v (v.shape.extractSet key) x →
    x.tag = v.shape.tagOf key →
    Q p.l1btb (p.l1btb.shape.extractSet key) (x.placed p.l1btb key)
  toBuffer : ∀ v ∈ p.levels, ∀ key x, F key → Q v (v.shape.extractSet key) x →
    x.tag = v.shape.tagOf key →
    Q p.pBuffer (p.pBuffer.shape.extractSet key) (x.prefetched p.pBuffer key)

def updatedLine (s : State p) (tid : ThreadID) (instPC : Addr) (target : PCState)
    (inst : Option StaticInst) : Line :=
  match s.l1btb.findEntry ⟨instPC, tid⟩ with
  | some way => { lines s.l1btb way with target := some target, inst := inst }
  | none => Line.fresh p.l1btb ⟨instPC, tid⟩ target inst

/-- The valid lines that an operation makes leave L1 or L2, with its thread. -/
def leaving (s : State p) : Op → List (ThreadID × Line)
  | .update tid instPC _ _ _ =>
    if s.l1btb.findEntry ⟨instPC, tid⟩ = none then (s.evicted tid instPC).map (Prod.mk tid) else []
  | .lookup tid instPC _ _ _ _ =>
    if s.l1btb.findEntry ⟨instPC, tid⟩ = none then
      ((s.freeing ⟨instPC, tid⟩).evicted tid instPC).map (Prod.mk tid) else []
  | _ => []

/-- What leaves L1 or L2 was valid there, so it obeys the rule as well. -/
lemma Orderly.evicted (hs : Orderly Q s) (h : x ∈ s.evicted tid instPC) :
    ∃ v ∈ p.levels, ∃ i, Q v i x := by
  obtain ⟨hvalid, rfl | ⟨e, he, rfl⟩⟩ := mem_evicted.mp h
  · exact ⟨p.l1btb, by simp [Params.levels], _, hs.l1btb _ hvalid⟩
  · unfold displaced at he
    split at he
    · dsimp only at he
      split at he
      · rename_i hv
        cases he
        exact ⟨p.l2btb, by simp [Params.levels], _, hs.l2btb _ hv⟩
      · cases he
    · cases he

lemma Orderly.leaving (hs : Orderly Q s) {o : Op} {x : ThreadID × Line} (h : x ∈ s.leaving o) :
    ∃ v ∈ p.levels, ∃ i, Q v i x.2 := by
  cases o with
  | update =>
    simp only [State.leaving] at h
    split at h
    · obtain ⟨y, hy, rfl⟩ := mem_map.mp h
      exact hs.evicted hy
    · cases h
  | lookup tid instPC =>
    simp only [State.leaving] at h
    split at h
    · obtain ⟨y, hy, rfl⟩ := mem_map.mp h
      exact (hs.freeing ⟨instPC, tid⟩).evicted hy
    · cases h
  | _ => cases h

lemma Prefetched.orderly (h : Prefetched F T s s') (copies : Copyable Q p D F)
    (hs : Orderly Q s) :
    Orderly Q s' := by
  induction h with
  | refl => exact hs
  | tail _ hstep ih =>
    rcases hstep with hsoft | ⟨key, src, way, hfill⟩
    · exact hsoft.sameLines.orderly ih
    · obtain ⟨v, hv, hq, ht⟩ := ih.fillSource hfill.source
      refine ⟨hfill.l1btb ▸ ih.l1btb, hfill.l2btb ▸ ih.l2btb, hfill.l3btb ▸ ih.l3btb, ?_⟩
      refine ih.pBuffer.of_update (fun _ => ?_) hfill.pBuffer
      rw [hfill.way_set]
      exact copies.toBuffer v hv key src.line hfill.wanted hq ht

lemma Orderly.memInvalidate (hs : Orderly Q s) : Orderly Q s.memInvalidate := by
  refine ⟨obeys_clear, obeys_clear, ?_, obeys_clear⟩
  unfold State.memInvalidate
  dsimp only
  split
  · exact obeys_clear
  · exact hs.l3btb

/-- An operation keeps a rule that its copies, its write and its write-backs obey. -/
lemma Effect.orderly {o : Op} (h : Effect F T s o s') (hs : Orderly Q s)
    (copies : Copyable Q p D F) (demand : ∀ tid instPC type taken blockStartAddr basePrediction,
      o = .lookup tid instPC type taken blockStartAddr basePrediction → D ⟨instPC, tid⟩)
    (writes : ∀ tid instPC target type inst, o = .update tid instPC target type inst →
      Q p.l1btb (p.l1btb.shape.extractSet ⟨instPC, tid⟩) (s.updatedLine tid instPC target inst))
    (leaves : ∀ x ∈ s.leaving o, Movable Q x.1 x.2) : Orderly Q s' := by
  cases h with
  | quiet _ _ same => exact same.orderly hs
  | @updateHit tid instPC target type inst _ way hit _ l1btb pBuffer l2btb l3btb =>
    have hwrite := writes tid instPC target type inst rfl
    simp only [updatedLine, hit] at hwrite
    refine ⟨?_, l2btb ▸ hs.l2btb, l3btb ▸ hs.l3btb, pBuffer ▸ hs.pBuffer⟩
    refine hs.l1btb.of_update (fun _ => ?_) l1btb
    rw [(findEntry_some hit).1]
    exact hwrite
  | @updateMiss tid instPC target type inst _ miss _ entered pBuffer =>
    have hwrite := writes tid instPC target type inst rfl
    simp only [updatedLine, miss] at hwrite
    obtain ⟨h1, h2, h3⟩ := entered.orderly hs hwrite
      (fun x hx => leaves (tid, x) (by
        simp only [leaving, miss, if_true]
        exact mem_map_of_mem hx))
    exact ⟨h1, h2, h3, pBuffer ▸ hs.pBuffer⟩
  | lookupHit _ _ _ same => exact same.orderly hs
  | @lookupMiss tid instPC type taken blockStartAddr basePrediction u _ src miss source brought
      prefetched =>
    obtain ⟨v, hv, hq, ht⟩ := hs.source source
    have hcopy := copies.toL1 v hv ⟨instPC, tid⟩ src.line (demand _ _ _ _ _ _ rfl) hq ht
    obtain ⟨h1, h2, h3⟩ := brought.entered.orderly (hs.freeing _) hcopy
      (fun x hx => leaves (tid, x) (by
        simp only [leaving, miss, if_true]
        exact mem_map_of_mem hx))
    have hbuffer : Obeys Q (s.pBufferAfter ⟨instPC, tid⟩) := by
      unfold pBufferAfter
      split
      · exact hs.pBuffer.invalidate _
      · exact hs.pBuffer
    exact prefetched.orderly copies ⟨h1, h2, h3, hbuffer.of_lines brought.pBuffer⟩
  | prefetch prefetched => exact prefetched.orderly copies hs
  | clear => exact hs.memInvalidate

end State

end BTBFerret
