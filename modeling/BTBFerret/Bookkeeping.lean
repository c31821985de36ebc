import BTBFerret.PrefetchEffects

/-!
# What the demand paths leave alone

The prefetcher keeps the buffer with its shadow tags and account, and the queue of staged prefetches
with the chain tracker. Moving entries between the levels touches neither, and `Aside` says so for
each helper of the demand paths.
-/

namespace BTBFerret

open AssociativeCache FallibleRuns

namespace State

variable {p : Params}

structure Aside (s t : State p) : Prop where
  books : t.books = s.books
  chains : t.chains = s.chains

lemma Aside.refl (s : State p) : Aside s s := ⟨rfl, rfl⟩

lemma Aside.trans {s t u : State p} (h : Aside s t) (h' : Aside t u) : Aside s u :=
  ⟨h'.books.trans h.books, h'.chains.trans h.chains⟩

lemma Aside.after {s t u : State p} (h : Aside t u) (hb : t.books = s.books)
    (hc : t.chains = s.chains) : Aside s u :=
  Aside.trans ⟨hb, hc⟩ h

/-! ## Counting -/

lemma aside_count (s : State p) (stat : Stat) (h : stat.isAccount = false) :
    Aside s (s.count stat) :=
  ⟨(calm_count (T := fun _ => True) s h).books, rfl⟩

lemma Counted.aside {s t : State p} (h : Counted [] s t) : Aside s t := ⟨h.books, h.chains⟩

lemma Still.aside {T : ThreadID → Prop} {s t : State p} (h : Still T s t) : Aside s t :=
  ⟨h.books, h.chains⟩

/-! ## Moving entries between the levels -/

lemma aside_freedUp {s : State p} {st : List Stat} (h : s.SameAccounts st) (tid : ThreadID)
    (instPC : Addr) : Aside s (s.freedUp tid instPC st) :=
  ⟨congrArg (Books.mk s.pBuffer s.pbCompressedTags) h, rfl⟩

section

variable (s : State p)

variable (tid : ThreadID) (instPC : Addr)

lemma aside_updatedEntry (target : PCState) (type : BranchType) :
    Meets (s.updatedEntry tid instPC target type) (fun r => Aside s r.2) (fun _ => True) := by
  unfold updatedEntry
  split
  · rename_i hmiss
    obtain ⟨st, hacc, hfree⟩ := s.freeUpL1Entry_eq tid instPC hmiss
    exact Meets.bind_of_ok hfree ((aside_freedUp hacc tid instPC).trans ⟨rfl, rfl⟩)
  · exact ⟨rfl, rfl⟩

lemma aside_update (target : PCState) (type : BranchType) (inst : Option StaticInst) :
    Meets (s.update tid instPC target type inst) (Aside s) (fun _ => True) := by
  unfold update
  have hcount := aside_count s (.updates type) rfl
  refine (aside_updatedEntry _ tid instPC target type).bind ?_
  intro r hr
  obtain ⟨t, ht, hsync⟩ := still_l1CompressedTagSync (T := fun _ => True) r.2 instPC tid .insert
  refine Meets.bind_of_ok ht ?_
  exact ((hcount.trans hr).trans hsync.aside).trans ⟨rfl, rfl⟩

lemma aside_installPromoted (way : Loc p.l1btb.shape) (hit : BTBEntry) :
    Aside s (s.installPromoted way hit) :=
  ((aside_count _ .l1Installed rfl).trans (aside_count _ .pbHits rfl)).after rfl rfl

/-! ## Lookups and commits -/

lemma aside_beginLookup (tid : ThreadID) (instPC : Addr) (type : BranchType)
    (blockStartAddr : Addr) : Aside s (s.beginLookup tid instPC type blockStartAddr) := by
  have hstart : Aside s ((s.recordDemandLookup instPC).count (.lookups type)) :=
    (aside_count (s.recordDemandLookup instPC) (.lookups type) rfl).after rfl rfl
  unfold beginLookup trainPrevBlock
  dsimp only
  split
  · split
    · exact hstart.trans ⟨rfl, rfl⟩
    · exact hstart
  · exact hstart

lemma counted_countCallFallThrough (tid : ThreadID) (instPC : Addr)
    (type : BranchType) : Counted [] s (s.countCallFallThrough tid instPC type) := by
  unfold countCallFallThrough
  split
  · exact Counted.refl s
  · split
    · have h := counted_count s .callL2OrPrefetchHits rfl rfl
      dsimp only
      split
      · exact h
      · split
        · exact h.trans (counted_count _ _ rfl rfl)
        · exact h
    · exact Counted.refl s

lemma aside_trainMarkovOnCommit (pc : Addr) (wasL2Hit : Bool) :
    Meets (s.trainMarkovOnCommit pc wasL2Hit) (Aside s) (fun _ => True) := by
  unfold trainMarkovOnCommit
  split
  · exact Aside.refl s
  · split
    · exact Aside.refl s
    · refine Meets.bind_any ?_
      intro r
      exact Meets.bind_any (fun _ => ⟨rfl, rfl⟩)

lemma aside_trainPrefetchBitsOnCommit (tid : ThreadID) (pc : Addr)
    (actuallyTaken : Bool) : Aside s (s.trainPrefetchBitsOnCommit tid pc actuallyTaken) := by
  unfold trainPrefetchBitsOnCommit
  split
  · exact Aside.refl s
  · split
    · exact Aside.refl s
    · exact ⟨rfl, rfl⟩

lemma counted_lookupL1 : Counted [] s (s.lookupL1 tid instPC).1 := by
  unfold lookupL1
  split
  · exact (counted_recordBTBAccess s .l1 .noReason).trans (counted_count _ _ rfl rfl)
  · exact (counted_count s .l1MissInOverriding rfl rfl).trans
      (counted_recordBTBAccess _ .l2 .overrideL1Miss)

lemma aside_updateDirection (taken : Bool) : Aside s (s.updateDirection tid instPC taken) := by
  unfold updateDirection
  split
  · exact ⟨rfl, rfl⟩
  · exact Aside.refl s

end

end State

end BTBFerret
