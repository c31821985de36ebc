import BTBFerret.EntryRules
import BTBFerret.QueueTiming

/-!
# When prefetches arrive

A hit on a buffer entry that is still on its way waits for the rest of the latency, and the cycles
already covered select a bucket of a histogram. Both need that an entry arrives at most one latency
of its source after its issue. The queue event provides this; the Markov prefetcher adds a base
latency on top and does not.
-/

namespace BTBFerret

open AssociativeCache FallibleRuns

namespace State

open Bool Option

variable {p : Params}

/-! ## The bound on the way -/

structure Timely (p : Params) (now : Cycles) (fromL3 : Bool) (arrival : Cycles) : Prop where
  source : fromL3 = true → p.enableL3 = true
  arrival : p.noPrefetchLatency = false → arrival ≤ now + totalLatency p fromL3

lemma Timely.later {now now' arrival : Cycles} {fromL3 : Bool}
    (h : Timely p now fromL3 arrival) (hle : now ≤ now') : Timely p now' fromL3 arrival := by
  refine ⟨h.source, ?_⟩
  intro hlat
  exact (h.arrival hlat).trans (Nat.add_le_add_right hle _)

def InTransit (s : State p) : Prop :=
  ∀ l, (s.pBuffer.get l).valid = true →
    Timely p s.curCycle (s.pBuffer.get l).prefetchedFromL3 (s.pBuffer.get l).timestamp

def MarkovIdle (s : State p) : Op → Prop
  | .lookup tid instPC _ _ _ _ =>
    s.l1btb.findEntry ⟨instPC, tid⟩ = none → ¬ s.MarkovHit instPC
  | _ => True

instance (s : State p) (pc : Addr) : Decidable (s.MarkovHit pc) :=
  inferInstanceAs (Decidable (_ ∧ _))

instance (s : State p) (o : Op) : Decidable (MarkovIdle s o) := by
  apply @Op.casesOn _ o <;> intros <;> unfold MarkovIdle <;> infer_instance

lemma markovIdle_of_off (hoff : p.limitedMarkov = false) (s : State p) (o : Op) :
    MarkovIdle s o := by
  cases o with
  | lookup =>
    rintro - ⟨hon, _⟩
    rw [hoff] at hon
    cases hon
  | _ => exact trivial

variable {s : State p}

lemma permits_timely {e : DeferredPrefetchEntry} (he : e ∈ s.readyEntries) :
    s.Permits (fun i => Timely p s.curCycle i.fromL3 i.arrivalCycle) e := by
  intro src latency fromL3 hsrc
  -- the latency and the flag come from the same level
  have hlevel : latency = totalLatency p fromL3 ∧ (fromL3 = true → p.enableL3 = true) := by
    unfold prefetchSource at hsrc
    split at hsrc
    · cases hsrc
      exact ⟨rfl, fun h => by cases h⟩
    · split at hsrc
      · rename_i hL3
        obtain ⟨l, _, hl⟩ := map_eq_some_iff.mp hsrc
        cases hl
        exact ⟨rfl, fun _ => hL3⟩
      · cases hsrc
  refine ⟨hlevel.2, ?_⟩
  intro hlat
  have hdue := readyEntries_due hlat he
  change e.issueTime + latency ≤ s.curCycle + totalLatency p fromL3
  rw [hlevel.1]
  exact Nat.add_le_add_right hdue _

variable {o : Op}

lemma supplies_timely (hidle : MarkovIdle s o) :
    Supplies (fun i => Timely p s.curCycle i.fromL3 i.arrivalCycle) s o := by
  cases o with
  | lookup => exact fun hmiss hhit => absurd hhit (hidle hmiss)
  | processDeferredPrefetchQueue => exact fun e he => permits_timely he
  | _ => exact trivial

lemma curCycle_le_step {s' : State p} (h : s.step o = .ok s') : s.curCycle ≤ s'.curCycle := by
  cases step_chains h with
  | same chains => exact (congrArg Chains.curCycle chains).ge
  | trigger move =>
    cases move with
    | none same => exact (congrArg Chains.curCycle same).ge
    | start _ _ _ chains => exact (congrArg Chains.curCycle chains).ge
  | event u examined chains =>
    have hrun : u.curCycle = s.popReady.curCycle :=
      run_invariant_always (fun t : State p => t.curCycle = s.popReady.curCycle)
        (fun t e t' ht hstep => by
          obtain ⟨_, _, _, hcycle⟩ := staged_processDeferredEntry hstep
          exact hcycle.trans ht) rfl examined
    have hpop : s.popReady.curCycle = s.curCycle := congrArg Chains.curCycle (chains_popReady s)
    exact ((congrArg Chains.curCycle chains).trans (hrun.trans hpop)).ge
  | clear => exact Nat.le_refl _
  | @advance ticks cycles _ chains =>
    have hcycle : s'.curCycle = s.curCycle + cycles := congrArg Chains.curCycle chains
    rw [hcycle]
    exact Nat.le_add_right _ _

lemma inTransit_step {s' : State p} (hs : InTransit s) (hidle : MarkovIdle s o)
    (h : s.step o = .ok s') : InTransit s' := by
  intro l hv
  have hnow := curCycle_le_step h
  rcases (step_books_of (supplies_timely hidle) h).entries l hv with
    hold | ⟨i, htimely, _, victim, hcopy⟩
  · rw [hold] at hv ⊢
    exact (hs l hv).later hnow
  · rw [hcopy]
    exact htimely.later hnow

lemma inTransit_init (bw : PrevBrInfo) : InTransit (State.init p bw) := by
  intro l hv
  unfold State.init at hv
  rw [Cache.get_init] at hv
  cases hv

lemma inTransit_reached {bw : PrevBrInfo} {ops : List Op}
    (hidle : Along step MarkovIdle (State.init p bw) ops) (h : Reached bw ops s) : InTransit s :=
  run_invariant_state InTransit (fun _ _ _ hs hc hstep => inTransit_step hs hc hstep)
    (inTransit_init bw) hidle h

variable {key : KeyType} {l : Loc p.pBuffer.shape}

lemma InTransit.wait (hs : InTransit s) (hl : s.pBuffer.findEntry key = some l)
    (hflight : s.isInFlight (s.pBuffer.get l) = true) : (s.pBuffer.get l).timestamp - s.curCycle ≤
        totalLatency p (s.pBuffer.get l).prefetchedFromL3 ∧
      s.curCycle < (s.pBuffer.get l).timestamp := by
  unfold isInFlight at hflight
  simp only [and_eq_true, not_eq_true', decide_eq_true_eq] at hflight
  obtain ⟨⟨hlat, _⟩, hlater⟩ := hflight
  have harrival := (hs l (valid_of_found hl)).arrival hlat
  exact ⟨Nat.sub_le_iff_le_add'.mpr harrival, hlater⟩

lemma lookup_timingFault {tid : ThreadID} {instPC : Addr} {type : BranchType} {taken : Bool}
    {blockStartAddr : Addr} {basePrediction : Bool} {fault : Fault}
    (h : s.lookupWithLatency tid instPC type taken blockStartAddr basePrediction = .error fault)
    (hpanic : fault ≠ .lookupPanic) (hinst : fault ≠ .nullInst) :
    ∃ l, s.pBuffer.findEntry ⟨instPC, tid⟩ = some l ∧ TimingFault s (s.pBuffer.get l) fault := by
  rcases (lookup_fault _ _ _ _ _ _ _).of_error h with
    hp | ⟨_, htiming⟩ | ⟨_, hmarkov⟩
  · exact absurd hp hpanic
  · exact htiming
  · exact absurd hmarkov hinst

/-! ## The wait -/

/-- If lookups below L1 find no Markov successors, a hit on an entry in flight waits at most the
latency of its source, and the subtraction never throws. -/
theorem inflight_wait_within_latency {bw : PrevBrInfo} {ops : List Op} {s : State p}
    (hidle : Along step MarkovIdle (State.init p bw) ops) (h : Reached bw ops s) (tid : ThreadID)
    (instPC : Addr) (type : BranchType) (taken : Bool) (blockStartAddr : Addr)
    (basePrediction : Bool) :
    (∀ l, s.pBuffer.findEntry ⟨instPC, tid⟩ = some l → s.isInFlight (s.pBuffer.get l) = true →
      (s.pBuffer.get l).timestamp - s.curCycle ≤
        if (s.pBuffer.get l).prefetchedFromL3 then p.l3Latency else p.l2Latency) ∧
    s.lookupWithLatency tid instPC type taken blockStartAddr basePrediction ≠
      .error .cyclesUnderflow := by
  have hs := inTransit_reached hidle h
  refine ⟨fun l hl hflight => (hs.wait hl hflight).1, ?_⟩
  intro hfault
  obtain ⟨l, hl, htiming⟩ := lookup_timingFault hfault (by decide) (by decide)
  cases htiming with
  | wait inFlight long => exact absurd (hs.wait hl inFlight).1 (Nat.not_le_of_gt long)

/-- The first branch of a chain is prefetched in cycle 74, one cycle before the end, and
arrives in cycle 77. -/
def oneInFlight : List Op :=
  learnt ++ predictCond 20 :: List.replicate 4 (.advance 1 1) ++
    [.processDeferredPrefetchQueue, .advance 1 1]

/-- Branch 101 is looked up while its prefetch is in flight. -/
theorem inflight_wait_within_latency_small :
    ∃ s : State oneTracker, Reached ⟨false, false⟩ oneInFlight s ∧
      (∃ l, s.pBuffer.findEntry ⟨101, 0⟩ = some l ∧ s.isInFlight (s.pBuffer.get l) = true ∧
        (s.pBuffer.get l).timestamp - s.curCycle ≤ oneTracker.l2Latency) ∧
      s.lookupWithLatency 0 101 .directCond true 0 true ≠ .error .cyclesUnderflow := by
  obtain ⟨s, hs, hin⟩ :=
    exists_run oneTracker oneInFlight (fun s => (s.pBuffer.findEntry ⟨101, 0⟩).any
      (fun l => s.isInFlight (s.pBuffer.get l) && !(s.pBuffer.get l).prefetchedFromL3))
    (by decide +kernel)
  obtain ⟨l, hl, htest⟩ := (any_eq_true _ _).mp hin
  simp only [and_eq_true, not_eq_true'] at htest
  obtain ⟨hwait, hreturns⟩ := inflight_wait_within_latency (p := oneTracker)
    (along_of_test MarkovIdle (by decide +kernel)) hs 0 101 .directCond true 0 true
  refine ⟨s, hs, ⟨l, hl, htest.1, ?_⟩, hreturns⟩
  have hle := hwait l hl htest.1
  rw [htest.2] at hle
  exact hle

/-- Branch 20 is prefetched as the Markov successor of branch 10. It arrives after two L2 latencies,
and a lookup in the same cycle throws. -/
theorem markov_wait_exceeds_latency :
    ∃ s : State markovOn, Reached ⟨false, false⟩ bufferFilled.dropLast s ∧
      (∃ l, s.pBuffer.findEntry ⟨20, 0⟩ = some l ∧ s.isInFlight (s.pBuffer.get l) = true ∧
        (s.pBuffer.get l).prefetchedFromL3 = false ∧
        markovOn.l2Latency < (s.pBuffer.get l).timestamp - s.curCycle) ∧
      s.lookupWithLatency 0 20 .directUncond true 0 true = .error .cyclesUnderflow := by
  obtain ⟨s, hs, hin⟩ :=
    exists_run markovOn bufferFilled.dropLast (fun s => (s.pBuffer.findEntry ⟨20, 0⟩).any
      (fun l => s.isInFlight (s.pBuffer.get l) && !(s.pBuffer.get l).prefetchedFromL3 &&
        decide (markovOn.l2Latency < (s.pBuffer.get l).timestamp - s.curCycle)) &&
      faultOf (s.lookupWithLatency 0 20 .directUncond true 0 true) == some .cyclesUnderflow)
    (by decide +kernel)
  obtain ⟨hin, hfault⟩ := and_eq_true_iff.mp hin
  obtain ⟨l, hl, htest⟩ := (any_eq_true _ _).mp hin
  simp only [and_eq_true, not_eq_true', decide_eq_true_eq] at htest
  obtain ⟨⟨hflight, hL2⟩, hlong⟩ := htest
  exact ⟨s, hs, ⟨l, hl, hflight, hL2, hlong⟩, eq_error_of_faultOf (eq_of_beq hfault)⟩

/-! ## The histogram of late prefetches -/

lemma countPrefetchHit_inFlight {e : BTBEntry} {coveredCycle : Cycles}
    (hflight : s.isInFlight e = true) (hsmall : coveredCycle < 5) :
    ∃ t, s.countPrefetchHit e coveredCycle = .ok t ∧
      t.stats.head? = some (if e.triggeredByPBHit then .latePrefetchByPBHit coveredCycle
        else .latePrefetchByL2Hit coveredCycle) := by
  unfold countPrefetchHit
  dsimp only
  generalize hu : (if p.usesPrefetchBitPolicy then
    if e.takenPrefetched then (s.count (.prefetchHits e.prefetchTriggerType)).count
      (.prefetchHitsFromTaken e.prefetchTriggerType)
    else (s.count (.prefetchHits e.prefetchTriggerType)).count
      (.prefetchHitsFromNotTaken e.prefetchTriggerType)
    else s.count (.prefetchHits e.prefetchTriggerType)) = u
  have hin : u.isInFlight e = true := by
    rw [← hflight, ← hu]
    split
    · split <;> rfl
    · rfl
  rw [hin, if_pos rfl, if_pos hsmall]
  exact ⟨_, rfl, rfl⟩

lemma InTransit.timing (hs : InTransit s) (hl : s.pBuffer.findEntry key = some l)
    (hflight : s.isInFlight (s.pBuffer.get l) = true) :
    s.prefetchTiming (s.pBuffer.get l) = .ok ((s.pBuffer.get l).timestamp - s.curCycle,
      totalLatency p (s.pBuffer.get l).prefetchedFromL3 -
        ((s.pBuffer.get l).timestamp - s.curCycle)) := by
  unfold prefetchTiming
  dsimp only
  rw [if_pos hflight, ← totalLatency, if_pos (hs.wait hl hflight).1]

lemma InTransit.covered (hs : InTransit s) (hl2 : p.l2Latency ≤ 4)
    (hl3 : p.enableL3 = true → p.l3Latency ≤ 4) (hl : s.pBuffer.findEntry key = some l)
    (hflight : s.isInFlight (s.pBuffer.get l) = true) :
    totalLatency p (s.pBuffer.get l).prefetchedFromL3 -
      ((s.pBuffer.get l).timestamp - s.curCycle) < 4 := by
  have hlatency : totalLatency p (s.pBuffer.get l).prefetchedFromL3 ≤ 4 := by
    unfold totalLatency
    split
    · rename_i hfrom
      exact hl3 ((hs l (valid_of_found hl)).source hfrom)
    · exact hl2
  have hwait : 0 < (s.pBuffer.get l).timestamp - s.curCycle :=
    Nat.sub_pos_of_lt (hs.wait hl hflight).2
  exact Nat.lt_of_lt_of_le (Nat.sub_lt_self hwait (hs.wait hl hflight).1) hlatency

/-- With latencies of at most four cycles and without the Markov prefetcher, a hit on an entry in
flight falls in one of the first four buckets, and no lookup leaves the histogram. -/
theorem late_prefetch_in_bucket (hmarkov : p.limitedMarkov = false) (hl2 : p.l2Latency ≤ 4)
    (hl3 : p.enableL3 = true → p.l3Latency ≤ 4) {bw : PrevBrInfo} {ops : List Op} {s : State p}
    (h : Reached bw ops s) (tid : ThreadID) (instPC : Addr) (type : BranchType) (taken : Bool)
    (blockStartAddr : Addr) (basePrediction : Bool) :
    (∀ l, s.pBuffer.findEntry ⟨instPC, tid⟩ = some l → s.isInFlight (s.pBuffer.get l) = true →
      ∃ remainingTime coveredCycle t, s.prefetchTiming (s.pBuffer.get l) =
          .ok (remainingTime, coveredCycle) ∧ coveredCycle < 4 ∧
        s.countPrefetchHit (s.pBuffer.get l) coveredCycle = .ok t ∧
        t.stats.head? = some (if (s.pBuffer.get l).triggeredByPBHit then
          .latePrefetchByPBHit coveredCycle else .latePrefetchByL2Hit coveredCycle)) ∧
    s.lookupWithLatency tid instPC type taken blockStartAddr basePrediction ≠
      .error .latePrefetchBucket := by
  have hs := inTransit_reached (along_of_forall (markovIdle_of_off hmarkov) _ _) h
  constructor
  · intro l hl hflight
    have hcovered := hs.covered hl2 hl3 hl hflight
    obtain ⟨t, ht, hstat⟩ := countPrefetchHit_inFlight hflight (Nat.lt_succ_of_lt hcovered)
    exact ⟨_, _, t, hs.timing hl hflight, hcovered, ht, hstat⟩
  · intro hfault
    obtain ⟨l, hl, htiming⟩ := lookup_timingFault hfault (by decide) (by decide)
    cases htiming with
    | bucket inFlight large =>
      exact absurd (hs.covered hl2 hl3 hl inFlight) (Nat.not_lt_of_le (Nat.le_of_succ_le large))

/-- The hit comes two cycles before the arrival, after one covered cycle. -/
theorem late_prefetch_in_bucket_small :
    ∃ s : State oneTracker, Reached ⟨false, false⟩ oneInFlight s ∧
      (∃ l, s.pBuffer.findEntry ⟨101, 0⟩ = some l ∧
        ∃ coveredCycle, s.prefetchTiming (s.pBuffer.get l) = .ok (2, coveredCycle) ∧
          coveredCycle < 4) ∧
      s.lookupWithLatency 0 101 .directCond true 0 true ≠ .error .latePrefetchBucket := by
  obtain ⟨s, hs, hin⟩ :=
    exists_run oneTracker oneInFlight (fun s => (s.pBuffer.findEntry ⟨101, 0⟩).any
      (fun l => s.isInFlight (s.pBuffer.get l) &&
        holdsAt (s.prefetchTiming (s.pBuffer.get l)) (fun r => r.1 == 2)))
    (by decide +kernel)
  obtain ⟨l, hl, htest⟩ := (any_eq_true _ _).mp hin
  obtain ⟨hflight, hwait⟩ := and_eq_true_iff.mp htest
  obtain ⟨hbucket, hreturns⟩ := late_prefetch_in_bucket (p := oneTracker) rfl (by decide)
    (fun _ => by decide) hs 0 101 .directCond true 0 true
  obtain ⟨remainingTime, coveredCycle, _, htiming, hcovered, _⟩ := hbucket l hl hflight
  obtain ⟨r, hr, htwo⟩ := exists_of_holdsAt _ _ hwait
  rw [htiming] at hr
  cases hr
  have hremaining : remainingTime = 2 := eq_of_beq htwo
  rw [hremaining] at htiming
  exact ⟨s, hs, ⟨l, hl, coveredCycle, htiming, hcovered⟩, hreturns⟩

def slowL2 : Params := { oneTracker with l2Latency := 6 }

def twelveCycles : List Op :=
  (List.replicate 12 [Op.advance 1 1, .processDeferredPrefetchQueue]).flatten

/-- The prefetch is issued in cycle 77 and arrives in cycle 83. The hit comes one cycle
before that, when five cycles are covered. -/
theorem slow_prefetch_has_no_bucket :
    slowL2.limitedMarkov = false ∧
    ∃ s : State slowL2, Reached ⟨false, false⟩ (learnt ++ predictCond 20 :: twelveCycles) s ∧
      (∃ l, s.pBuffer.findEntry ⟨101, 0⟩ = some l ∧ s.isInFlight (s.pBuffer.get l) = true ∧
        s.prefetchTiming (s.pBuffer.get l) = .ok (1, 5)) ∧
      s.lookupWithLatency 0 101 .directCond true 0 true = .error .latePrefetchBucket := by
  refine ⟨rfl, ?_⟩
  obtain ⟨s, hs, hin⟩ := exists_run slowL2 (learnt ++ predictCond 20 :: twelveCycles)
    (fun s => (s.pBuffer.findEntry ⟨101, 0⟩).any (fun l => s.isInFlight (s.pBuffer.get l) &&
        holdsAt (s.prefetchTiming (s.pBuffer.get l)) (fun r => r == (1, 5))) &&
      faultOf (s.lookupWithLatency 0 101 .directCond true 0 true) == some .latePrefetchBucket)
    (by decide +kernel)
  obtain ⟨hin, hfault⟩ := and_eq_true_iff.mp hin
  obtain ⟨l, hl, htest⟩ := (any_eq_true _ _).mp hin
  obtain ⟨hflight, htiming⟩ := and_eq_true_iff.mp htest
  obtain ⟨r, hr, hr'⟩ := exists_of_holdsAt _ _ htiming
  rw [eq_of_beq hr'] at hr
  exact ⟨s, hs, ⟨l, hl, hflight, hr⟩, eq_error_of_faultOf (eq_of_beq hfault)⟩

end State

end BTBFerret
