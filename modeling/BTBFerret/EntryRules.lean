import BTBFerret.EntrySteps
import BTBFerret.Refinement

/-!
# Rules on whole entries

A rule on entries that copying keeps is kept by every write-back: the entry that
absorbs a victim is fresh, or it is the entry of the same branch. The runs are
those of one thread over branches that no level confuses.
-/

namespace BTBFerret

open ReplacementPolicy AssociativeCache EvictingLevels Cache

/-- All entries of a level meet the rule. -/
def Every (R : BTBEntry → Prop) {v : BTBLevel} (C : BTBCache v) : Prop := ∀ l, R (C.get l)

/-- Nothing is asked of invalid entries, and copying a valid entry over one of
the same branch keeps the rule, as it does over one without the bit. -/
structure Accumulates (R : BTBEntry → Prop) : Prop where
  invalid : ∀ e : BTBEntry, e.valid = false → R e
  copy : ∀ e other : BTBEntry, R e ∨ e.prefetchThrough = false →
    e.branchAddr = other.branchAddr → other.valid = true → R other → R (e.updateFrom other)

section

variable {R : BTBEntry → Prop} {v : BTBLevel} {C C' : BTBCache v} {U : Set Addr} {tid : ThreadID}

lemma Every.of_get (h : Every R C) {slot : Loc v.shape} {e : BTBEntry} (he : R e)
    (hget : ∀ l, C'.get l = if l = slot then e else C.get l) : Every R C' := by
  intro l
  rw [hget]
  split
  · exact he
  · exact h l

lemma Every.same (h : Every R C) (hget : ∀ l, C'.get l = C.get l) : Every R C' := by
  intro l
  rw [hget]
  exact h l

lemma Accumulates.every_init (hR : Accumulates R) : Every R (init v.shape) := by
  intro l
  rw [get_init]
  exact hR.invalid _ rfl

lemma Accumulates.every_clear (hR : Accumulates R) : Every R C.clear := by
  intro l
  rw [get_clear]
  exact hR.invalid _ rfl

lemma Accumulates.every_invalidate (hR : Accumulates R) (h : Every R C) (l : Loc v.shape) :
    Every R (C.invalidate l) :=
  h.of_get (hR.invalid _ rfl) (fun m => get_invalidate C l m)

lemma Accumulates.every_released (hR : Accumulates R) (h : Every R C) (now : Tick)
    (l : Loc v.shape) (keep : Bool) :
    Every R (if keep then (C.accessEntry now l).accessEntry now l
      else (C.accessEntry now l).invalidate l) := by
  split
  · exact h
  · exact hR.every_invalidate (C := C.accessEntry now l) h l

lemma openFor_through_of_miss {key : KeyType} (h : C.findEntry key = none) :
    (C.openFor key).prefetchThrough = false := by
  unfold openFor
  rw [h]
  rfl

/-- What absorbs a victim is an entry of its branch, or one without the bit. -/
lemma openFor_of_branch (hsep : Separates v U tid) (hk : Obeys (keyedRule U tid) C)
    (h : Every R C) {a : Addr} (ha : a ∈ U) :
    (R (C.openFor ⟨a, tid⟩) ∨ (C.openFor ⟨a, tid⟩).prefetchThrough = false) ∧
      (C.openFor ⟨a, tid⟩).branchAddr = a := by
  cases hfind : C.findEntry ⟨a, tid⟩ with
  | none => exact ⟨.inr (openFor_through_of_miss hfind), State.branchAddr_openFor hfind⟩
  | some l =>
    have hopen : C.openFor ⟨a, tid⟩ = C.get l := by
      unfold openFor
      rw [hfind]
    rw [hopen]
    exact ⟨.inl (h l), (branchAddr_of_found hsep hk ha hfind).2⟩

lemma Accumulates.every_written (hR : Accumulates R) (hsep : Separates v U tid)
    (hk : Obeys (keyedRule U tid) C) (h : Every R C) (tell : Bool) (now : Tick) {victim : BTBEntry}
    (hmem : victim.branchAddr ∈ U) (hvalid : victim.valid = true) (hv : R victim) :
    Every R (State.written C tell now tid victim) := by
  obtain ⟨hopen, hbranch⟩ := openFor_of_branch hsep hk h hmem
  exact h.of_get (hR.copy _ _ hopen hbranch hvalid hv) (fun l => get_store C tell now _ _ l)

end

namespace State

variable {p : Params} {U : Set Addr} {tid : ThreadID} {R : BTBEntry → Prop} {s : State p}

lemma displaced_of_settled (hkeyed : Orderly (keyedRule U tid) s) {victim e : BTBEntry}
    (he : s.displaced tid victim = some e) :
    ∃ l, e = s.l2btb.get l ∧ e.valid = true ∧ e.branchAddr ∈ U := by
  obtain ⟨_, hget, hvalid⟩ := displaced_eq_some.mp he
  refine ⟨_, hget, hvalid, ?_⟩
  subst hget
  exact (hkeyed.l2btb _ hvalid).1

section

variable (hsep : NoCollision p U tid) (hkeyed : Orderly (keyedRule U tid) s) (hR : Accumulates R)
  {victim : BTBEntry} (hvictim : victim.valid = true → victim.branchAddr ∈ U ∧ R victim)
include hsep hkeyed hR

include hvictim in
lemma every_l2After (h2 : Every R s.l2btb) : Every R (s.l2After tid victim) := by
  unfold l2After
  split
  · rename_i hv
    obtain ⟨hmem, hr⟩ := hvictim hv
    exact hR.every_written (hsep _ (l2_mem_levels p)) hkeyed.l2btb h2 _ _ hmem hv hr
  · exact h2

lemma every_l3AfterDisplacement (h2 : Every R s.l2btb) (h3 : Every R s.l3btb) :
    Every R (s.l3AfterDisplacement tid victim) := by
  unfold l3AfterDisplacement
  split
  · rename_i e he
    obtain ⟨l, hget, hvalid, hmem⟩ := displaced_of_settled hkeyed he
    split
    · refine hR.every_written (hsep _ (l3_mem_levels p)) hkeyed.l3btb h3 _ _ hmem hvalid ?_
      rw [hget]
      exact h2 l
    · exact h3
  · exact h3

include hvictim in
lemma every_l3After (hdistinct : Distinct s)
    (hmid : victim.valid = true → Every R (s.l3AfterDisplacement tid victim))
    (h3 : victim.valid = false → Every R s.l3btb) : Every R (s.l3After tid victim) := by
  unfold l3After
  split
  · rename_i hv
    obtain ⟨hmem, hr⟩ := hvictim hv
    unfold l3AfterWriteBack
    split
    · exact hR.every_written (hsep _ (l3_mem_levels p))
        (keyed_l3AfterDisplacement hkeyed hdistinct victim) (hmid hv) _ _ hmem hv hr
    · exact hmid hv
  · rename_i hv
    exact h3 (Bool.eq_false_iff.mpr hv)

end

lemma Filled.every {T : ThreadID → Prop} {u : State p} {instPC : Addr}
    {f : BTBEntry → BTBEntry} (h : Filled T s u tid instPC f) (hsep : NoCollision p U tid)
    (hkeyed : Orderly (keyedRule U tid) s) (hdistinct : Distinct s) (hR : Accumulates R)
    (h1 : Every R s.l1btb) (h2 : Every R s.l2btb) (h3 : Every R s.l3btb)
    (hnew : R (f (s.l1btb.openFor ⟨instPC, tid⟩))) :
    Every R u.l1btb ∧ Every R u.l2btb ∧ Every R u.l3btb := by
  have hvictim : (s.l1Victim tid instPC).valid = true →
      (s.l1Victim tid instPC).branchAddr ∈ U ∧ R (s.l1Victim tid instPC) := by
    intro hv
    exact ⟨(hkeyed.l1btb _ hv).1, h1 _⟩
  refine ⟨h1.of_get hnew h.l1btb, ?_, ?_⟩
  · rw [h.l2btb]
    exact every_l2After hsep hkeyed hR hvictim h2
  · rw [h.l3btb]
    apply every_l3After hsep hkeyed hR hvictim hdistinct
    · exact fun _ => every_l3AfterDisplacement hsep hkeyed hR h2 h3
    · exact fun _ => h3

/-! ## What serves a lookup -/

section

variable {t v : State p} {key : KeyType} {src : BTBEntry} {f : BTBEntry → BTBEntry}

/-- The state in which the way is freed is as well kept as the one before. -/
lemma Served.settled {T : ThreadID → Prop} (h : Served t key v src f) (hs : Settled U tid s)
    (search : Searching T s t) (miss : s.l1btb.findEntry key = none) :
    Orderly (keyedRule U tid) v ∧ Distinct v ∧ v.l1btb.findEntry key = none := by
  have hlines := search.sameLines
  rw [h.eq_freeing]
  refine ⟨(hlines.orderly hs.keyed).freeing key, (hlines.distinct hs.distinct).freeing key, ?_⟩
  rw [l1btb_freeing, findEntry_of_lines hlines.l1btb]
  exact miss

/-- The L1 entry made of a fresh one takes over branch and bit of the source. -/
lemma Served.copied (h : Served t key v src f) {e : BTBEntry} (he : e.prefetchThrough = false) :
    (f e).branchAddr = src.branchAddr ∧
      ((f e).prefetchThrough = true → src.prefetchThrough = true) ∧
      (p.cleanBitsOnL1Promotion = false → src.prefetchThrough = true →
        (f e).prefetchThrough = true) := by
  cases h with
  | buffer =>
    unfold promoted promoteBits
    cases hc : p.cleanBitsOnL1Promotion with
    | true => exact ⟨rfl, fun hb => absurd hb Bool.false_ne_true, fun hn => absurd hn (by decide)⟩
    | false => exact ⟨rfl, fun hb => hb, fun _ hb => hb⟩
  | l2 =>
    unfold migrated promoteBits
    cases hc : p.cleanBitsOnL1Promotion with
    | true => exact ⟨rfl, fun hb => absurd hb Bool.false_ne_true, fun hn => absurd hn (by decide)⟩
    | false => exact ⟨rfl, fun hb => hb, fun _ hb => hb⟩
  | l3 l =>
    have hbit : (e.updateFrom (t.l3btb.get l)).prefetchThrough =
        (t.l3btb.get l).prefetchThrough := by
      unfold BTBEntry.updateFrom
      rw [he, Bool.false_or]
    dsimp only
    rw [hbit]
    exact ⟨rfl, fun hb => hb, fun _ hb => hb⟩

lemma valid_of_found {w : BTBLevel} {C : BTBCache w} {l : Loc w.shape}
    (h : C.findEntry key = some l) : (C.get l).valid = true :=
  ((w.shape.match_iff key _).mp (findEntry_some h).2).1

lemma Served.source_valid (h : Served t key v src f) : src.valid = true := by
  cases h with
  | buffer _ _ found | l2 _ _ found | l3 _ _ _ _ found => exact valid_of_found found

lemma Served.source_meets (h : Served t key v src f) (hb : Every R t.pBuffer)
    (h2 : Every R t.l2btb) (h3 : Every R t.l3btb) : R src := by
  cases h with
  | buffer l => exact hb l
  | l2 l => exact h2 l
  | l3 l => exact h3 l

lemma Served.every (h : Served t key v src f) (hR : Accumulates R) (h1 : Every R t.l1btb)
    (h2 : Every R t.l2btb) (h3 : Every R t.l3btb) :
    Every R v.l1btb ∧ Every R v.l2btb ∧ Every R v.l3btb := by
  cases h with
  | buffer => exact ⟨h1, h2, h3⟩
  | l2 l => exact ⟨h1, hR.every_released h2 t.curTick l p.nonexclusive, h3⟩
  | l3 l => exact ⟨h1, h2, hR.every_released h3 t.curTick l p.nonexclusive⟩

end

end State

end BTBFerret
