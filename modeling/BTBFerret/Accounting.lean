import BTBFerret.BufferSteps
import BTBFerret.EntrySteps

/-!
# Prefetches are accounted for

Every issued prefetch is in exactly one of three places: it was hit, it was counted as useless when
its way was replaced, or its way still carries the prefetched flag, which survives an invalidation.
L1 entries never carry the flag.
-/

namespace BTBFerret

open ReplacementPolicy AssociativeCache FallibleRuns Bool Cache List

def Stat.isPrefetchHit : Stat → Bool
  | .prefetchHits _ => true
  | _ => false

def Stat.isUselessPrefetch : Stat → Bool
  | .uselessPrefetches _ => true
  | _ => false

def flagged {v : BTBLevel} (C : BTBCache v) : Nat :=
  ((Finset.univ : Finset (Loc v.shape)).filter (fun l => (C.get l).prefetched = true)).card

variable {e : BTBEntry}

section

variable {v : BTBLevel} {C C' : BTBCache v}

lemma flagged_eq_sum (C : BTBCache v) : flagged C = ∑ l, (C.get l).prefetched.toNat := by
  unfold flagged
  rw [Finset.card_filter]
  apply Finset.sum_congr rfl
  intro l _
  cases (C.get l).prefetched <;> rfl

lemma flagged_of_same (h : ∀ l, (C'.get l).prefetched = (C.get l).prefetched) :
    flagged C' = flagged C := by
  rw [flagged_eq_sum, flagged_eq_sum]
  apply Finset.sum_congr rfl
  intro l _
  rw [h]

/-- Rewriting one way changes the number by the new flag minus the old one. -/
lemma flagged_of_rewritten {slot : Loc v.shape}
    (h : ∀ l, C'.get l = if l = slot then e else C.get l) :
    flagged C' + (C.get slot).prefetched.toNat = flagged C + e.prefetched.toNat := by
  have hslot : C'.get slot = e := by rw [h, if_pos rfl]
  have hrest : ∑ l ∈ Finset.univ.erase slot, (C'.get l).prefetched.toNat =
      ∑ l ∈ Finset.univ.erase slot, (C.get l).prefetched.toNat := by
    apply Finset.sum_congr rfl
    intro l hl
    rw [h, if_neg (Finset.ne_of_mem_erase hl)]
  rw [flagged_eq_sum, flagged_eq_sum, ← Finset.add_sum_erase _ _ (Finset.mem_univ slot),
    ← Finset.add_sum_erase _ (fun l => (C.get l).prefetched.toNat) (Finset.mem_univ slot), hrest,
    hslot]
  omega

end

/-! ## The account of the buffer -/

namespace Books

variable {p : Params}

def Balanced (b : Books p) : Prop :=
  b.accounts.count .totalPrefetches = b.accounts.countP Stat.isPrefetchHit +
    b.accounts.countP Stat.isUselessPrefetch + flagged b.pBuffer

variable {b : Books p}

lemma Balanced.fill (h : b.Balanced) (now : Tick) (i : Issue) : (b.fill now i).Balanced := by
  have hflags : flagged (b.fill now i).pBuffer + (b.victim i.key).prefetched.toNat =
      flagged b.pBuffer + 1 :=
    flagged_of_rewritten (b.get_fill now i)
  unfold Balanced at h ⊢
  cases hv : (b.victim i.key).prefetched with
  | false =>
    have hacc : (b.fill now i).accounts = .totalPrefetches :: b.accounts := by
      simp only [Books.fill, hv, false_eq_true, if_false]
    rw [hv] at hflags
    simp only [hacc, count_cons_self, countP_cons, Stat.isPrefetchHit,
      Stat.isUselessPrefetch, false_eq_true, if_false]
    simp only [toNat_false] at hflags
    omega
  | true =>
    have hacc : (b.fill now i).accounts =
        .uselessPrefetches (b.victim i.key).prefetchTriggerType :: .totalPrefetches ::
          b.accounts := by
      simp only [Books.fill, hv, if_true]
    rw [hv] at hflags
    simp only [hacc, count_cons, countP_cons, Stat.isPrefetchHit, Stat.isUselessPrefetch,
      false_eq_true, if_false, if_true]
    simp only [toNat_true] at hflags
    simp
    omega

lemma Balanced.take (h : b.Balanced) (now : Tick) (key : KeyType) (l : Loc p.pBuffer.shape) :
    (b.take now key l).Balanced := by
  have hflag : (b.pBuffer.get l).used.invalidate.prefetched = false := by
    unfold BTBEntry.used BTBEntry.invalidate
    split
    · rfl
    · rename_i hp
      exact eq_false_iff.mpr hp
  have hflags := flagged_of_rewritten (b.get_take now key l)
  rw [hflag] at hflags
  unfold Balanced at h ⊢
  cases hp : (b.pBuffer.get l).prefetched with
  | false =>
    have hacc : (b.take now key l).accounts = b.accounts := by
      simp only [Books.take, hp, false_eq_true, if_false]
    rw [hp] at hflags
    simp only [toNat_false] at hflags
    rw [hacc]
    omega
  | true =>
    have hacc : (b.take now key l).accounts =
        .prefetchHits (b.pBuffer.get l).prefetchTriggerType :: b.accounts := by
      simp only [Books.take, hp, if_true]
    rw [hp] at hflags
    simp only [toNat_true, toNat_false] at hflags
    simp only [hacc, count_cons, countP_cons, Stat.isPrefetchHit, Stat.isUselessPrefetch,
      false_eq_true, if_false, if_true]
    simp
    omega

lemma Balanced.clear (h : b.Balanced) : b.clear.Balanced := by
  have hflags : flagged b.clear.pBuffer = flagged b.pBuffer := by
    apply flagged_of_same
    intro l
    have hget : b.clear.pBuffer.get l = (b.pBuffer.get l).invalidate := get_clear _ l
    rw [hget]
    rfl
  unfold Balanced at h ⊢
  rw [hflags]
  exact h

end Books

namespace State

variable {p : Params}

/-! ## The flags of L1 -/

/-- No L1 entry, valid or not, is marked as prefetched. -/
def L1Unflagged (s : State p) : Prop := ∀ l, (s.l1btb.get l).prefetched = false

variable {s s' : State p}

lemma L1Unflagged.of_get (h : L1Unflagged s) {slot : Loc p.l1btb.shape}
    (he : e.prefetched = false)
    (hget : ∀ l, s'.l1btb.get l = if l = slot then e else s.l1btb.get l) :
    L1Unflagged s' := by
  intro l
  rw [hget]
  split
  · exact he
  · exact h l

lemma L1Unflagged.openFor (h : L1Unflagged s) (key : KeyType) :
    (s.l1btb.openFor key).prefetched = false := by
  unfold Cache.openFor
  split
  · exact h _
  · rfl

variable {f : BTBEntry → BTBEntry}

lemma Filled.l1Unflagged {T : ThreadID → Prop} {u : State p} {tid : ThreadID} {instPC : Addr}
    (h : Filled T s u tid instPC f) (hs : L1Unflagged s)
    (hf : ∀ e : BTBEntry, e.prefetched = false → (f e).prefetched = false) : L1Unflagged u :=
  hs.of_get (hf _ (hs.openFor _)) h.l1btb

lemma Rewritten.l1Unflagged {T : ThreadID → Prop} {way : Loc p.l1btb.shape}
    (h : Rewritten T s s' way f) (hs : L1Unflagged s)
    (hf : ∀ e : BTBEntry, e.prefetched = false → (f e).prefetched = false) : L1Unflagged s' :=
  hs.of_get (hf _ (hs way)) h.l1btb

lemma reused_flag (h : e.prefetched = false) : (reused e).prefetched = false := by
  unfold reused
  split
  · rfl
  · exact h

lemma markChangedTarget_flag (type : BranchType) (target : PCState) (e : BTBEntry) :
    (markChangedTarget p type target e).prefetched = e.prefetched := by
  unfold markChangedTarget
  split <;> rfl

lemma allocateBits_flag (e : BTBEntry) : (allocateBits p e).prefetched = e.prefetched := by
  unfold allocateBits
  split <;> rfl

lemma promoteBits_flag (src e : BTBEntry) : (promoteBits p src e).prefetched = e.prefetched := by
  unfold promoteBits
  split <;> rfl

lemma trainedEntry_flag (taken : Bool) (e : BTBEntry) :
    (trainedEntry p taken e).prefetched = e.prefetched := by
  unfold trainedEntry
  split
  · split <;> rfl
  · rfl

/-- Whatever serves a lookup, the freed way stays unflagged, and freeing it
starts from the same L1. -/
lemma Served.l1Unflagged {t v : State p} {key : KeyType} {src : BTBEntry}
    (h : Served t key v src f) (ht : L1Unflagged t) :
    L1Unflagged v ∧ ∀ e : BTBEntry, e.prefetched = false → (f e).prefetched = false := by
  cases h with
  | buffer =>
    refine ⟨ht, fun e _ => ?_⟩
    unfold promoted
    rw [promoteBits_flag]
  | l2 =>
    refine ⟨ht, fun e he => ?_⟩
    unfold migrated
    rw [promoteBits_flag]
    exact he
  | l3 => exact ⟨ht, fun e he => he⟩

lemma EntryStep.l1Unflagged {o : Op} (h : EntryStep s o s') (hs : L1Unflagged s) :
    L1Unflagged s' := by
  cases h with
  | keep l1btb =>
    intro l
    rw [l1btb]
    exact hs l
  | updateHit _ _ rewritten =>
    apply rewritten.l1Unflagged hs
    intro e he
    exact (markChangedTarget_flag _ _ e).trans he
  | updateMiss _ filled =>
    apply filled.l1Unflagged hs
    intro e he
    exact (allocateBits_flag e).trans he
  | lookupHit _ search _ _ rewritten =>
    apply rewritten.l1Unflagged
    · intro l
      rw [search.flag]
      exact hs l
    · exact fun e => reused_flag
  | lookupMiss t search _ _ _ _ served _ filled l1btb =>
    have ht : L1Unflagged t := by
      intro l
      rw [search.flag]
      exact hs l
    obtain ⟨hv, hf⟩ := served.l1Unflagged ht
    intro l
    rw [l1btb]
    exact filled.l1Unflagged hv hf l
  | commit _ _ rewritten =>
    apply rewritten.l1Unflagged hs
    intro e he
    exact (trainedEntry_flag _ e).trans he
  | direction _ _ rewritten =>
    apply rewritten.l1Unflagged hs
    intro e he
    exact he
  | clear =>
    intro l
    have hget : s.memInvalidate.l1btb.get l = (s.l1btb.get l).invalidate := get_clear _ l
    rw [hget]
    exact hs l

/-! ## The account of a run -/

lemma Fetching.balanced {A : Issue → Prop} {t : State p} (h : Fetching A s t)
    (hs : s.books.Balanced) : t.books.Balanced := by
  induction h with
  | refl => exact hs
  | tail _ hstep ih =>
    rcases hstep with hq | ⟨i, _, hfill⟩
    · rw [hq.books]
      exact ih
    · rw [hfill.books]
      exact ih.fill _ i

lemma BookStep.balanced (h : BookStep s s') (hs : s.books.Balanced) (hl1 : L1Unflagged s) :
    s'.books.Balanced := by
  cases h with
  | fetch _ same fetching =>
    apply fetching.balanced
    rw [same]
    exact hs
  | l1Hit l e flag books =>
    -- an unflagged hit is no prefetch hit
    have hflag : e.prefetched = false := flag.trans (hl1 l)
    rw [books, Books.countL1Hit, hflag]
    exact hs
  | take key l _ now _ books fetching =>
    apply fetching.balanced
    rw [books]
    exact hs.take now key l
  | clear books =>
    rw [books]
    exact hs.clear

lemma balanced_init (bw : PrevBrInfo) : (State.init p bw).books.Balanced := by
  have hflags : flagged (State.init p bw).pBuffer = 0 := by
    rw [flagged_eq_sum]
    apply Finset.sum_eq_zero
    intro l _
    have hget : (State.init p bw).pBuffer.get l = BTBEntry.empty := get_init l
    rw [hget]
    rfl
  unfold Books.Balanced
  change 0 = 0 + 0 + flagged (State.init p bw).pBuffer
  omega

lemma l1Unflagged_init (bw : PrevBrInfo) : L1Unflagged (State.init p bw) := by
  intro l
  have hget : (State.init p bw).l1btb.get l = BTBEntry.empty := get_init l
  rw [hget]
  rfl

/-- Of the log only the entries that count prefetches matter to the account. -/
lemma countP_accounts (s : State p) {f : Stat → Bool}
    (hf : ∀ x, f x = true → x.isAccount = true) :
    s.books.accounts.countP f = s.stats.countP f := by
  change (s.stats.filter Stat.isAccount).countP f = s.stats.countP f
  rw [countP_filter]
  apply countP_congr
  intro x _
  constructor
  · intro h
    exact (and_eq_true_iff.mp h).1
  · intro h
    exact and_eq_true_iff.mpr ⟨h, hf x h⟩

/-- Every prefetch ever issued was hit, was counted as useless, or still has the
prefetched flag of its buffer way set. -/
theorem prefetches_accounted_for {bw : PrevBrInfo} {ops : List Op} {s : State p}
    (h : Reached bw ops s) :
    s.stats.count .totalPrefetches = s.stats.countP Stat.isPrefetchHit +
      s.stats.countP Stat.isUselessPrefetch + flagged s.pBuffer := by
  have hinv : s.books.Balanced ∧ L1Unflagged s := by
    refine run_invariant_always (fun s => s.books.Balanced ∧ L1Unflagged s) ?_ ?_ h
    · rintro t o t' ⟨hbal, hl1⟩ hstep
      exact ⟨(step_books hstep).balanced hbal hl1, (step_entries hstep).l1Unflagged hl1⟩
    · exact ⟨balanced_init bw, l1Unflagged_init bw⟩
  have hbal := hinv.1
  unfold Books.Balanced at hbal
  rw [count_eq_countP, countP_accounts, countP_accounts, countP_accounts,
    ← count_eq_countP] at hbal
  · exact hbal
  · intro x hx
    cases x <;> first | rfl | exact absurd hx Bool.false_ne_true
  · intro x hx
    cases x <;> first | rfl | exact absurd hx Bool.false_ne_true
  · intro x hx
    rw [beq_iff_eq] at hx
    rw [hx]
    rfl

/-- The one prefetch of the run still has its flag. -/
theorem prefetches_accounted_for_small :
    ∃ s : State markovOn, Reached ⟨false, false⟩ bufferFilled s ∧ flagged s.pBuffer = 1 ∧
      s.stats.count .totalPrefetches = s.stats.countP Stat.isPrefetchHit +
        s.stats.countP Stat.isUselessPrefetch + flagged s.pBuffer := by
  obtain ⟨s, hs, hin⟩ :=
    exists_run markovOn bufferFilled (fun s => flagged s.pBuffer == 1) (by decide +kernel)
  exact ⟨s, hs, eq_of_beq hin, prefetches_accounted_for hs⟩

end State

end BTBFerret
