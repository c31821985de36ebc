import BTBFerret.BufferSteps

/-!
# The choice of the Markov prefetcher

The Markov prefetcher prefetches the first stored successor that it may. Training sorts the stored
list only when it is full, so the choice is the most frequent successor when the list happens to be
in order, and not in general.
-/

namespace BTBFerret

open AssociativeCache FallibleRuns

namespace State

open List Option

variable {p : Params}

/-- The successor is worth a prefetch: L2 has it, and neither L1 nor the buffer. -/
structure Eligible (s : State p) (tid : ThreadID) (successor : Addr) : Prop where
  nonzero : successor ≠ 0
  l1btb : s.l1btb.findEntry ⟨successor, tid⟩ = none
  pBuffer : s.pBuffer.findEntry ⟨successor, tid⟩ = none
  l2btb : s.l2btb.findEntry ⟨successor, tid⟩ ≠ none

structure TellsPresence (s : State p) (tid : ThreadID) (pc : Addr) : Prop where
  l1btb : (s.l1ApproxContains pc tid).2 = (s.l1btb.findEntry ⟨pc, tid⟩).isSome
  pBuffer : (s.pbApproxContains pc tid).2 = (s.pBuffer.findEntry ⟨pc, tid⟩).isSome

lemma tellsPresence_of_off (hoff : p.useCompressedTagFilter = false) (s : State p)
    (tid : ThreadID) (pc : Addr) : s.TellsPresence tid pc := by
  constructor
  · simp only [l1ApproxContains, hoff, Bool.not_false, if_true]
  · simp only [pbApproxContains, hoff, Bool.not_false, if_true]

def chaseAt (triggeredByPBHit : Bool) (tid : ThreadID) (depth : Nat) :
    Option (Chase p) :=
  if 2 < depth then some (prefetchMarkovSuccessor false 1 triggeredByPBHit tid (depth - 1))
  else none

variable {pc : Addr}

section

variable {tid : ThreadID} {s : State p}
  {chase : Option (Chase p)}
  {triggeredByPBHit : Bool} {triggerType : BranchType}

/-- The loop over the successors ends without a prefetch, or with the prefetch of the first
eligible one and what is chased from it. -/
inductive FirstEligible (s : State p) (tid : ThreadID)
    (chase : Option (Chase p))
    (successors : List (Addr × Nat)) (result : Except Fault (State p)) : Prop
  | none (t : State p) (quiet : Quiet s t) (returns : result = .ok t)
      (skipped : ∀ a ∈ successors, ¬ s.Eligible tid a.1)
  | issue (before after : List (Addr × Nat)) (a : Addr × Nat)
      (split : successors = before ++ a :: after) (skipped : ∀ b ∈ before, ¬ s.Eligible tid b.1)
      (eligible : s.Eligible tid a.1) (i : Issue) (key : i.key = ⟨a.1, tid⟩) (u t : State p)
      (quiet : Quiet s u) (filling : Filling u t i)
      (goes : result = chaseSuccessor chase t a.1 i.src i.arrivalCycle)

lemma FirstEligible.cons {rest : List (Addr × Nat)} {result : Except Fault (State p)}
    (h : FirstEligible s tid chase rest result) {a : Addr × Nat} (ha : ¬ s.Eligible tid a.1) :
    FirstEligible s tid chase (a :: rest) result := by
  cases h with
  | none t quiet returns skipped =>
    exact .none t quiet returns (forall_mem_cons.mpr ⟨ha, skipped⟩)
  | issue before after b split skipped eligible i key u t quiet filling goes =>
    exact .issue (a :: before) after b (congrArg (a :: ·) split)
      (forall_mem_cons.mpr ⟨ha, skipped⟩) eligible i key u t quiet filling goes

lemma most_frequent_of_first {before after : List (Addr × Nat)} {a : Addr × Nat}
    (hsorted : (before ++ a :: after).Pairwise (fun a b => b.2 ≤ a.2))
    (hskipped : ∀ b ∈ before, ¬ s.Eligible tid b.1) :
    ∀ b ∈ before ++ a :: after, s.Eligible tid b.1 → b.2 ≤ a.2 := by
  intro b hb heligible
  rcases mem_append.mp hb with hbefore | hfrom
  · exact absurd heligible (hskipped b hbefore)
  · rcases mem_cons.mp hfrom with rfl | hafter
    · exact Nat.le_refl _
    · exact rel_of_pairwise_cons (pairwise_append.mp hsorted).2.1 hafter

lemma prefetchSuccessors_done (rest : List (Addr × Nat)) (arrival : Cycles) (t : State p) :
    prefetchSuccessors chase tid false 1 triggeredByPBHit triggerType rest 1 arrival t = .ok t := by
  cases rest with
  | nil => rfl
  | cons =>
    unfold prefetchSuccessors
    rfl

/-- Nothing but statistics and the Markov table separates the states, and no prefetch was
counted. -/
structure Checked (s t : State p) : Prop extends Quiet s t where
  rest : ∃ markov stats, t = { s with markov := markov, stats := stats }

variable {t : State p}

lemma Checked.trans {u : State p} (h : Checked s t) (h' : Checked t u) : Checked s u := by
  obtain ⟨_, _, rfl⟩ := h.rest
  obtain ⟨markov, stats, rfl⟩ := h'.rest
  exact ⟨h.toQuiet.trans h'.toQuiet, markov, stats, rfl⟩

lemma checked_count (t : State p) (stat : Stat) (h : stat.isAccount = false) :
    Checked t (t.count stat) :=
  ⟨(calm_count (T := fun _ => True) t h).quiet, t.markov, _, rfl⟩

lemma Counted.checked (h : Counted [] s t) : Checked s t :=
  ⟨(h.calm (T := fun _ => True)).quiet, s.markov, h.state⟩

section

variable (h : Checked s t) (htells : s.TellsPresence tid pc)

include h htells

lemma Checked.inL1 : (t.l1ApproxContains pc tid).2 = (s.l1btb.findEntry ⟨pc, tid⟩).isSome := by
  obtain ⟨_, _, ht⟩ := h.rest
  have hsame : (t.l1ApproxContains pc tid).2 = (s.l1ApproxContains pc tid).2 :=
    l1ApproxContains_congr s t (by rw [ht]) (by rw [ht]) pc tid
  rw [hsame, htells.l1btb]

lemma Checked.inPB : (t.pbApproxContains pc tid).2 = (s.pBuffer.findEntry ⟨pc, tid⟩).isSome := by
  obtain ⟨_, _, ht⟩ := h.rest
  have hsame : (t.pbApproxContains pc tid).2 = (s.pbApproxContains pc tid).2 :=
    pbApproxContains_congr s t (by rw [ht]) (by rw [ht]) pc tid
  rw [hsame, htells.pBuffer]

lemma Checked.passes (heligible : s.Eligible tid pc) : (t.approxContains pc tid).2 = false := by
  have hl1 : (t.l1ApproxContains pc tid).2 = false := by
    rw [h.inL1 htells, heligible.l1btb]
    rfl
  unfold approxContains
  dsimp only
  rw [hl1, if_neg Bool.false_ne_true,
    (h.trans (l1ApproxContains_spec t pc tid).1.checked).inPB htells, heligible.pBuffer]
  rfl

lemma enqueue_eligible (heligible : s.Eligible tid pc) (i : Issue) (hkey : i.key = ⟨pc, tid⟩)
    (hsrc : t.FillSource ⟨pc, tid⟩ i.src) : ∃ u w, Quiet s u ∧ Filling u w i ∧
      t.enqueuePrefetch pc tid i.src i.arrivalCycle i.triggeredByPBHit i.pfDistance
        i.takenPrefetched i.triggerType i.fromL3 = .ok w := by
  obtain ⟨u, w, _, hw, hcalm, _, hfilling, _⟩ := enqueuePrefetch_fills (F := fun _ => True)
    (T := fun _ => True) t i trivial (hkey ▸ hsrc) (by
      rw [hkey]
      exact h.passes htells heligible)
  rw [hkey] at hw
  exact ⟨u, w, h.toQuiet.trans hcalm.quiet, hfilling, hw⟩

end

lemma prefetchSuccessors_firstEligible (successors : List (Addr × Nat))
    (htells : ∀ a ∈ successors, s.TellsPresence tid a.1) (arrival : Cycles) (ht : Checked s t) :
    FirstEligible s tid chase successors
      (prefetchSuccessors chase tid false 1 triggeredByPBHit triggerType successors 0
        arrival t) := by
  induction successors generalizing arrival t with
  | nil => exact .none t ht.toQuiet rfl (fun a ha => by cases ha)
  | cons a rest ih =>
    obtain ⟨successor, freq⟩ := a
    obtain ⟨htell, htells⟩ := forall_mem_cons.mp htells
    -- the loop goes on from a successor that is not eligible
    have next : ∀ {u : State p}, Checked t u → ∀ c, ¬ s.Eligible tid successor →
        FirstEligible s tid chase ((successor, freq) :: rest) (prefetchSuccessors chase tid false 1
          triggeredByPBHit triggerType rest 0 c u) :=
      fun hu c hskip => (ih htells c (ht.trans hu)).cons hskip
    have htu := (l1ApproxContains_spec t successor tid).1.checked
    have hL1 := ht.inL1 htell
    unfold prefetchSuccessors
    dsimp only
    rw [if_neg (by decide)]
    split
    · rename_i hzero
      exact next ⟨Quiet.refl t, t.markov, t.stats, rfl⟩ _ (fun h => h.nonzero hzero)
    · rename_i hzero
      generalize t.l1ApproxContains successor tid = q at htu hL1 ⊢
      have hq := ht.trans htu
      split
      · rename_i hin
        refine next htu _ (fun h => ?_)
        rw [hL1, h.l1btb] at hin
        cases hin
      · rename_i hout
        have hl2 : q.1.l2btb = s.l2btb := congrArg (fun h => h.2.1) hq.hierarchy
        split
        · rename_i hmiss
          exact next (htu.trans (checked_count _ _ rfl)) _ (fun h => h.l2btb (hl2 ▸ hmiss))
        · rename_i l hl
          have hhit := htu.trans (checked_count q.1 .pfL2LookupHit rfl)
          have hPB := (ht.trans hhit).inPB htell
          have hr := hhit.trans (pbApproxContains_spec _ successor tid).1.checked
          rw [if_neg Bool.false_ne_true]
          generalize (q.1.count .pfL2LookupHit).pbApproxContains successor tid = r at hPB hr ⊢
          split
          · rename_i hin
            refine next hr _ (fun h => ?_)
            rw [hPB, h.pBuffer] at hin
            cases hin
          · rename_i hnot
            have heligible : s.Eligible tid successor := by
              refine ⟨hzero, ?_, ?_, fun hnone => ?_⟩
              · rw [hL1] at hout
                exact not_isSome_iff_eq_none.mp hout
              · rw [hPB] at hnot
                exact not_isSome_iff_eq_none.mp hnot
              · rw [← hl2, hl] at hnone
                cases hnone
            have hsource : r.1.FillSource ⟨successor, tid⟩ (q.1.l2btb.get l) :=
              FillSource.of_hierarchy ((ht.trans hr).hierarchy.trans hq.hierarchy.symm)
                (.inl ⟨l, hl, rfl⟩)
            obtain ⟨u, w, hquiet, hfilling, hw⟩ := enqueue_eligible (ht.trans hr) htell heligible
              ⟨⟨successor, tid⟩, q.1.l2btb.get l, arrival, triggeredByPBHit, 0, false, triggerType,
                false⟩ rfl hsource
            refine .issue [] rest (successor, freq) rfl (fun b hb => by cases hb) heligible _ rfl
              u w hquiet hfilling ?_
            rw [hw]
            change (chaseSuccessor chase w successor (q.1.l2btb.get l) arrival >>= fun s =>
              prefetchSuccessors chase tid false 1 triggeredByPBHit triggerType rest 1 (arrival + 1)
                s) = _
            simp only [prefetchSuccessors_done]
            exact bind_pure _

end

lemma prefetchMarkovSuccessor_hit {s : State p} {l : Loc p.markov.shape}
    (h : s.markov.findEntry pc = some l) (triggeredByPBHit : Bool) (tid : ThreadID) (depth : Nat)
    (baseLatency : Cycles) (triggerType : BranchType) :
    prefetchMarkovSuccessor false 1 triggeredByPBHit tid depth s pc baseLatency triggerType =
      prefetchSuccessors (chaseAt triggeredByPBHit tid depth) tid false 1 triggeredByPBHit
        triggerType (s.markov.get l).successors 0 (s.curCycle + p.l2Latency + baseLatency)
        ({ s with markov := s.markov.accessEntry s.curTick l }.count .mkHits) := by
  cases depth with
  | zero | succ =>
    unfold prefetchMarkovSuccessor
    rw [h]
    rfl

/-- On a hit whose stored successors are in order of frequency, the prefetcher issues nothing
because no successor is eligible, or it first prefetches one of maximal frequency among the eligible
ones, from L2, and goes on from there. -/
theorem markov_prefetches_most_frequent {s : State p} {pc : Addr} {l : Loc p.markov.shape}
    (h : s.markov.findEntry pc = some l) (tid : ThreadID)
    (hsorted : (s.markov.get l).successors.Pairwise (fun a b => b.2 ≤ a.2))
    (htells : ∀ a ∈ (s.markov.get l).successors, s.TellsPresence tid a.1)
    (triggeredByPBHit : Bool) (baseLatency : Cycles) (triggerType : BranchType) (depth : Nat) :
    (∃ t, prefetchMarkovSuccessor false 1 triggeredByPBHit tid depth s pc baseLatency triggerType =
        .ok t ∧ Quiet s t ∧ ∀ a ∈ (s.markov.get l).successors, ¬ s.Eligible tid a.1) ∨
    ∃ a ∈ (s.markov.get l).successors, s.Eligible tid a.1 ∧
      (∀ b ∈ (s.markov.get l).successors, s.Eligible tid b.1 → b.2 ≤ a.2) ∧
      ∃ u t i, Quiet s u ∧ i.key = ⟨a.1, tid⟩ ∧ Filling u t i ∧
        prefetchMarkovSuccessor false 1 triggeredByPBHit tid depth s pc baseLatency triggerType =
          chaseSuccessor (chaseAt triggeredByPBHit tid depth) t a.1 i.src i.arrivalCycle := by
  rw [prefetchMarkovSuccessor_hit h]
  generalize (s.markov.get l).successors = successors at hsorted htells ⊢
  have htouch : Checked s { s with markov := s.markov.accessEntry s.curTick l } :=
    ⟨⟨rfl, rfl⟩, _, s.stats, rfl⟩
  have hhit := htouch.trans (checked_count _ .mkHits rfl)
  cases prefetchSuccessors_firstEligible successors htells _ hhit with
  | none t quiet returns skipped => exact .inl ⟨t, returns, quiet, skipped⟩
  | issue _ _ a split skipped eligible i key u t quiet filling goes =>
    subst split
    exact .inr ⟨a, mem_append_right _ mem_cons_self, eligible,
      most_frequent_of_first hsorted skipped, u, t, i, quiet, key, filling, goes⟩

instance (s : State p) (tid : ThreadID) (successor : Addr) : Decidable (s.Eligible tid successor) :=
  decidable_of_iff (successor ≠ 0 ∧ s.l1btb.findEntry ⟨successor, tid⟩ = none ∧
      s.pBuffer.findEntry ⟨successor, tid⟩ = none ∧ s.l2btb.findEntry ⟨successor, tid⟩ ≠ none)
    ⟨fun ⟨h0, h1, hb, h2⟩ => ⟨h0, h1, hb, h2⟩, fun h => ⟨h.nonzero, h.l1btb, h.pBuffer, h.l2btb⟩⟩

def storedSuccessors (s : State p) (pc : Addr) : Option (List (Addr × Nat)) :=
  (s.markov.findEntry pc).map (fun l => (s.markov.get l).successors)

def threeBranches : List Op :=
  [.wait, .resolve 20 101, .wait, .resolve 10 100, .wait, .resolve 30 100, .wait]

def commits (pcs : List Addr) : List Op := pcs.map (.trainMarkovOnCommit · false)

/-- Branch 20 has followed branch 10 twice and branch 30 once. -/
theorem markov_prefetches_most_frequent_small :
    ∃ (s : State markovOn) (l : Loc markovOn.markov.shape), Reached ⟨false, false⟩
        (threeBranches ++ commits [10, 10, 10, 0, 20, 20, 30]) s ∧
      s.markov.findEntry 10 = some l ∧ (s.markov.get l).successors = [(20, 2), (30, 1)] ∧
      s.Eligible 0 20 ∧
      ∃ u t i, Quiet s u ∧ i.key = ⟨20, 0⟩ ∧ Filling u t i ∧
        prefetchMarkovSuccessor false 1 false 0 1 s 10 3 .directUncond = .ok t := by
  obtain ⟨s, hs, htest⟩ :=
    exists_run markovOn (threeBranches ++ commits [10, 10, 10, 0, 20, 20, 30])
    (fun s => s.storedSuccessors 10 == some [(20, 2), (30, 1)] && decide (s.Eligible 0 20) &&
      !decide (s.Eligible 0 30)) (by decide +kernel)
  simp only [Bool.and_eq_true, Bool.not_eq_true', decide_eq_true_eq,
    decide_eq_false_iff_not] at htest
  obtain ⟨⟨hstored, heligible⟩, hnot⟩ := htest
  obtain ⟨l, hl, hsuccessors⟩ := map_eq_some_iff.mp (eq_of_beq hstored)
  have hchoice := markov_prefetches_most_frequent (p := markovOn) hl 0
    (by rw [hsuccessors]; decide) (fun a _ => tellsPresence_of_off rfl s 0 a.1) false 3
    .directUncond 1
  rw [hsuccessors] at hchoice
  refine ⟨s, l, hs, hl, hsuccessors, heligible, ?_⟩
  rcases hchoice with ⟨t, _, _, hnone⟩ | ⟨a, ha, hchosen, _, u, t, i, hquiet, hkey, hfilling, hgoes⟩
  · exact absurd heligible (hnone (20, 2) mem_cons_self)
  · rcases mem_cons.mp ha with rfl | ha
    · exact ⟨u, t, i, hquiet, hkey, hfilling, hgoes⟩
    · rw [mem_singleton.mp ha] at hchosen
      exact absurd hchosen hnot

/-- Branch 20 has followed branch 10 once and branch 30 twice. The lookup of branch 10 moves branch
30 to L2, and then prefetches branch 20. -/
theorem markov_prefetches_less_frequent :
    ∃ s s' : State markovOn, Reached ⟨false, false⟩
        (threeBranches ++ commits [10, 10, 10, 0, 20, 30, 30]) s ∧
      s.storedSuccessors 10 = some [(20, 1), (30, 2)] ∧ s.step (.predict 10) = .ok s' ∧
      s'.Eligible 0 30 ∧ s'.l1btb.findEntry ⟨20, 0⟩ = none ∧ s'.l2btb.findEntry ⟨20, 0⟩ ≠ none ∧
      s.pBuffer.findEntry ⟨20, 0⟩ = none ∧ s'.pBuffer.findEntry ⟨20, 0⟩ ≠ none := by
  obtain ⟨s, hs, htest⟩ :=
    exists_run markovOn (threeBranches ++ commits [10, 10, 10, 0, 20, 30, 30])
    (fun s => s.storedSuccessors 10 == some [(20, 1), (30, 2)] &&
      (s.pBuffer.findEntry ⟨20, 0⟩).isNone &&
      holdsAt (s.step (.predict 10)) (fun s' => decide (s'.Eligible 0 30 ∧
        s'.l1btb.findEntry ⟨20, 0⟩ = none ∧ s'.l2btb.findEntry ⟨20, 0⟩ ≠ none ∧
        s'.pBuffer.findEntry ⟨20, 0⟩ ≠ none))) (by decide +kernel)
  simp only [Bool.and_eq_true] at htest
  obtain ⟨⟨hstored, hempty⟩, hlast⟩ := htest
  obtain ⟨s', hs', hafter⟩ := exists_of_holdsAt _ _ hlast
  obtain ⟨heligible, hl1, hl2, hbuffer⟩ := of_decide_eq_true hafter
  exact ⟨s, s', hs, eq_of_beq hstored, hs', heligible, hl1, hl2,
    isNone_iff_eq_none.mp hempty, hbuffer⟩

end State

end BTBFerret
