import BTBFerret.ChainBounds
import Mathlib.Data.List.Sort
import Mathlib.Data.List.TakeWhile

/-!
# The deferred queue runs on time

If the queue event is scheduled once in every cycle, the queue is sorted by issue time, an event
examines exactly the entries due in its cycle, and no entry is examined twice or lost, except that
an invalidation of the BTB throws the whole queue away.
-/

namespace BTBFerret

open AssociativeCache FallibleRuns List Bool Chains

/-- The order of the queue. -/
def DeferredPrefetchEntry.NotAfter (a b : DeferredPrefetchEntry) : Prop :=
  a.issueTime ≤ b.issueTime

instance : DecidableRel DeferredPrefetchEntry.NotAfter := fun a b =>
  inferInstanceAs (Decidable (a.issueTime ≤ b.issueTime))

instance : Std.Total DeferredPrefetchEntry.NotAfter :=
  ⟨fun a b => Nat.le_total a.issueTime b.issueTime⟩

instance : IsTrans DeferredPrefetchEntry DeferredPrefetchEntry.NotAfter :=
  ⟨fun _ _ _ h h' => Nat.le_trans h h'⟩

/-! ## The schedule -/

def eventDone (done : Bool) : Op → Bool
  | .processDeferredPrefetchQueue => true
  | .advance _ cycles => done && cycles == 0
  | _ => done

/-- The clock goes on to the next cycle after the queue event of this one. -/
def mayRun (done : Bool) : Op → Bool
  | .advance _ cycles => cycles == 0 || (done && cycles == 1)
  | _ => true

/-- No cycle ends without its queue event. -/
def paced : Bool → List Op → Bool
  | _, [] => true
  | done, o :: rest => mayRun done o && paced (eventDone done o) rest

/-- The operation, without the passing of cycles. -/
def Op.withinCycle : Op → Op
  | .advance ticks _ => .advance ticks 0
  | o => o

namespace State

variable {p : Params}

/-- The queue is sorted, nothing in it is overdue, and nothing is due any more once the
event of the cycle has run. -/
structure OnTime (done : Bool) (c : Chains p) : Prop where
  sorted : c.queue.Pairwise DeferredPrefetchEntry.NotAfter
  due : ∀ e ∈ c.queue, c.curCycle ≤ e.issueTime
  later : done = true → ∀ e ∈ c.queue, c.curCycle < e.issueTime

lemma insertDeferred_eq_orderedInsert (e : DeferredPrefetchEntry)
    (queue : List DeferredPrefetchEntry) :
    insertDeferred e queue = queue.orderedInsert DeferredPrefetchEntry.NotAfter e := by
  rw [orderedInsert_eq_take_drop]
  unfold insertDeferred DeferredPrefetchEntry.NotAfter
  simp only [Nat.not_le]

variable {c : Chains p}

lemma stage_sorted (h : c.queue.Pairwise DeferredPrefetchEntry.NotAfter)
    (es : List DeferredPrefetchEntry) :
    (c.stage es).queue.Pairwise DeferredPrefetchEntry.NotAfter := by
  unfold stage
  dsimp only
  induction es generalizing c with
  | nil => exact h
  | cons e _ ih =>
    rw [foldl_cons]
    apply ih (c := { c with queue := insertDeferred e c.queue })
    rw [insertDeferred_eq_orderedInsert]
    exact h.orderedInsert e _

variable {done : Bool}

lemma OnTime.stage (h : OnTime done c) {es : List DeferredPrefetchEntry}
    (hes : ∀ e ∈ es, c.curCycle < e.issueTime) : OnTime done (c.stage es) := by
  have hmem : ∀ e ∈ (c.stage es).queue, e ∈ es ∨ e ∈ c.queue := by
    intro e he
    exact mem_append.mp ((stage_perm c es).mem_iff.mp he)
  constructor
  · exact stage_sorted h.sorted es
  · intro e he
    rcases hmem e he with hnew | hold
    · exact Nat.le_of_lt (hes e hnew)
    · exact h.due e hold
  · intro hdone e he
    rcases hmem e he with hnew | hold
    · exact hes e hnew
    · exact h.later hdone e hold

lemma OnTime.of_same {c' : Chains p} (h : OnTime done c) (hqueue : c'.queue = c.queue)
    (hcycle : c'.curCycle = c.curCycle) : OnTime done c' := by
  obtain ⟨hsorted, hdue, hlater⟩ := h
  rw [← hqueue] at hsorted hdue hlater
  rw [← hcycle] at hdue hlater
  exact ⟨hsorted, hdue, hlater⟩

variable {s s' : State p} {e : DeferredPrefetchEntry}

lemma staged_processDeferredEntry (h : s.processDeferredEntry e = .ok s') :
    ∃ more : List DeferredPrefetchEntry, (∀ e' ∈ more, s.curCycle < e'.issueTime) ∧
      s'.deferredPrefetchQueue = (s.chains.stage more).queue ∧ s'.curCycle = s.curCycle := by
  cases entryMove_processDeferredEntry h with
  | skip chains =>
    refine ⟨[], fun e' he' => absurd he' not_mem_nil, ?_, ?_⟩
    · exact congrArg queue chains
    · exact congrArg Chains.curCycle chains
  | spend _ _ _ _ more staged chains =>
    refine ⟨more, fun e' he' => (staged e' he').issueTime, ?_, ?_⟩
    · exact congrArg queue chains
    · exact congrArg Chains.curCycle chains
  | unpaid _ queue _ curCycle =>
    exact ⟨[], fun e' he' => absurd he' not_mem_nil, queue, curCycle⟩

lemma OnTime.entry (h : OnTime done s.chains) (hstep : s.processDeferredEntry e = .ok s') :
    OnTime done s'.chains := by
  obtain ⟨_, hmore, hqueue, hcycle⟩ := staged_processDeferredEntry hstep
  exact (h.stage hmore).of_same hqueue hcycle

lemma readyEntries_due (hlat : p.noPrefetchLatency = false) (he : e ∈ s.readyEntries) :
    e.issueTime ≤ s.curCycle := by
  have hready := mem_takeWhile_imp he
  rw [hlat, Bool.false_or] at hready
  exact of_decide_eq_true hready

lemma mem_of_mem_readyEntries (he : e ∈ s.readyEntries) : e ∈ s.deferredPrefetchQueue :=
  (takeWhile_sublist _).subset he

/-- Entries of a sorted queue behind the first one that is not due are due later. -/
lemma later_of_mem_dropWhile {now : Nat} {queue : List DeferredPrefetchEntry}
    (hsorted : queue.Pairwise DeferredPrefetchEntry.NotAfter)
    (he : e ∈ queue.dropWhile (fun a => decide (a.issueTime ≤ now))) : now < e.issueTime := by
  induction queue with
  | nil => exact absurd he not_mem_nil
  | cons first rest ih =>
    obtain ⟨hfirst, hrest⟩ := pairwise_cons.mp hsorted
    rw [dropWhile_cons] at he
    split at he
    · exact ih hrest he
    · rename_i hnot
      have hlate : now < first.issueTime := Nat.lt_of_not_le (fun h => hnot (decide_eq_true h))
      rcases mem_cons.mp he with rfl | hmem
      · exact hlate
      · exact Nat.lt_of_lt_of_le hlate (hfirst e hmem)

lemma popReady_queue (hlat : p.noPrefetchLatency = false) (s : State p) :
    s.popReady.deferredPrefetchQueue =
      s.deferredPrefetchQueue.dropWhile (fun a => decide (a.issueTime ≤ s.curCycle)) := by
  unfold State.popReady
  rw [hlat]
  dsimp only
  split
  · rfl
  · rfl

lemma OnTime.popReady (hlat : p.noPrefetchLatency = false) (h : OnTime done s.chains) :
    OnTime true s.popReady.chains := by
  have hcycle : s.popReady.curCycle = s.curCycle := congrArg Chains.curCycle (chains_popReady s)
  have hlater : ∀ e ∈ s.popReady.deferredPrefetchQueue, s.popReady.curCycle < e.issueTime := by
    intro e he
    rw [popReady_queue hlat] at he
    rw [hcycle]
    exact later_of_mem_dropWhile h.sorted he
  constructor
  · change s.popReady.deferredPrefetchQueue.Pairwise _
    rw [popReady_queue hlat]
    exact h.sorted.sublist (dropWhile_sublist _)
  · exact fun e he => Nat.le_of_lt (hlater e he)
  · exact fun _ => hlater

lemma OnTime.mono {done' : Bool} (h : OnTime done c) (hdone : done' = true → done = true) :
    OnTime done' c :=
  ⟨h.sorted, h.due, fun hd => h.later (hdone hd)⟩

variable {o : Op}

lemma onTime_step (hlat : p.noPrefetchLatency = false) (h : OnTime done s.chains)
    (hmay : mayRun done o = true) (hstep : s.step o = .ok s') :
    OnTime (eventDone done o) s'.chains := by
  cases step_chains hstep with
  | same chains other =>
    rw [chains]
    apply h.mono
    cases o with
    | processDeferredPrefetchQueue => exact absurd rfl other
    | advance => exact fun hd => (and_eq_true_iff.mp hd).1
    | _ => exact id
  | trigger move =>
    cases move with
    | none same =>
      rw [same]
      exact h
    | start _ _ staged chains =>
      rw [chains]
      exact (h.stage (fun e he => (staged e he).issueTime)).of_same rfl rfl
  | event _ examined chains =>
    rw [chains]
    exact run_invariant_always (fun t : State p => OnTime true t.chains)
      (fun t e t' ht hexamined => ht.entry hexamined) (h.popReady hlat) examined
  | clear =>
    have hnone : ∀ e, e ∉ s.memInvalidate.chains.queue := fun e => not_mem_nil
    exact ⟨List.Pairwise.nil, fun e he => absurd he (hnone e), fun _ e he => absurd he (hnone e)⟩
  | @advance ticks cycles _ chains =>
    rw [chains]
    rcases or_eq_true_iff.mp hmay with hzero | hnext
    · obtain rfl : cycles = 0 := eq_of_beq hzero
      exact h.mono (fun hd => (and_eq_true_iff.mp hd).1)
    · obtain ⟨hdone, hone⟩ := and_eq_true_iff.mp hnext
      obtain rfl : cycles = 1 := eq_of_beq hone
      refine ⟨h.sorted, fun e he => h.later hdone e he, ?_⟩
      intro hd
      exact absurd (and_eq_true_iff.mp hd).2 Bool.false_ne_true

variable {ops : List Op}

section

variable (hlat : p.noPrefetchLatency = false) (h : OnTime done s.chains)
  (hpaced : paced done ops = true)

include hlat h hpaced

lemma along_onTime : Along step (fun s _ => ∃ done, OnTime done s.chains) s ops := by
  induction ops generalizing done s with
  | nil => trivial
  | cons _ _ ih =>
    obtain ⟨hmay, hrest⟩ := and_eq_true_iff.mp hpaced
    exact ⟨⟨done, h⟩, fun s' hstep => ih (onTime_step hlat h hmay hstep) hrest⟩

lemma onTime_run (hrun : run step s ops = .ok s') :
    OnTime (ops.foldl eventDone done) s'.chains := by
  induction ops generalizing done s with
  | nil =>
    have he : s = s' := Except.ok.inj hrun
    subst he
    exact h
  | cons _ _ ih =>
    obtain ⟨hmay, hrest⟩ := and_eq_true_iff.mp hpaced
    obtain ⟨_, hmid, htail⟩ := bind_eq_ok_iff.mp hrun
    exact ih (onTime_step hlat h hmay hmid) hrest htail

end

lemma onTime_init (bw : PrevBrInfo) : OnTime true (State.init p bw).chains := by
  have hnone : ∀ e, e ∉ (State.init p bw).chains.queue := fun e => not_mem_nil
  exact ⟨List.Pairwise.nil, fun e he => absurd he (hnone e), fun _ e he => absurd he (hnone e)⟩

/-! ## Nothing is lost -/

/-- Entries that a computation has put into the queue. -/
def newlyQueued (s : State p) (result : Except Fault (State p)) : Multiset DeferredPrefetchEntry :=
  match result with
  | .ok s' => (s'.deferredPrefetchQueue : Multiset DeferredPrefetchEntry) - s.deferredPrefetchQueue
  | .error _ => 0

def enqueued (s : State p) : Op → Multiset DeferredPrefetchEntry
  | .processDeferredPrefetchQueue =>
    tally processDeferredEntry (fun u e => u.newlyQueued (u.processDeferredEntry e)) s.popReady
      s.readyEntries
  | o => s.newlyQueued (s.step o)

def examined (s : State p) : Op → Multiset (Cycles × DeferredPrefetchEntry)
  | .processDeferredPrefetchQueue => (s.readyEntries.map (fun e => (s.curCycle, e)) : List _)
  | _ => 0

/-- Entries that an invalidation throws away. -/
def flushed (s : State p) : Op → Multiset DeferredPrefetchEntry
  | .memInvalidate => s.deferredPrefetchQueue
  | _ => 0

lemma add_newlyQueued {r : Except Fault (State p)} {more : List DeferredPrefetchEntry}
    (hr : r = .ok s') (hqueue : s'.deferredPrefetchQueue = (s.chains.stage more).queue) :
    (s.deferredPrefetchQueue : Multiset DeferredPrefetchEntry) + s.newlyQueued r =
      s'.deferredPrefetchQueue := by
  subst hr
  apply add_tsub_cancel_of_le
  rw [hqueue, Multiset.coe_le]
  exact (sublist_append_right more _).subperm.trans (stage_perm s.chains more).symm.subperm

lemma queue_of_step (h : s.step o = .ok s') (hevent : o ≠ .processDeferredPrefetchQueue)
    (hclear : o ≠ .memInvalidate) :
    ∃ more, s'.deferredPrefetchQueue = (s.chains.stage more).queue := by
  cases step_chains h with
  | same chains => exact ⟨[], congrArg queue chains⟩
  | trigger move =>
    cases move with
    | none same => exact ⟨[], congrArg queue same⟩
    | start es _ _ chains => exact ⟨es, congrArg queue chains⟩
  | event => exact absurd rfl hevent
  | clear => exact absurd rfl hclear
  | advance chains => exact ⟨[], congrArg queue chains⟩

/-- The event takes the ready entries out and puts in what their examination stages. -/
lemma queue_of_event (h : s.processDeferredPrefetchQueue = .ok s') :
    (s.deferredPrefetchQueue : Multiset DeferredPrefetchEntry) +
      s.enqueued .processDeferredPrefetchQueue = s.readyEntries + s'.deferredPrefetchQueue := by
  obtain ⟨u, hrun, hchains⟩ := processDeferredPrefetchQueue_run h
  have hqueue : s'.deferredPrefetchQueue = u.deferredPrefetchQueue := congrArg queue hchains
  have htally : (s.popReady.deferredPrefetchQueue : Multiset DeferredPrefetchEntry) +
      s.enqueued .processDeferredPrefetchQueue = u.deferredPrefetchQueue := by
    refine tally_invariant (fun (total : Multiset DeferredPrefetchEntry) (t : State p) =>
      (s.popReady.deferredPrefetchQueue : Multiset DeferredPrefetchEntry) + total =
        t.deferredPrefetchQueue) ?_ (add_zero _) (along_of_forall (fun _ _ => trivial) _ _) hrun
    intro total t e t' ht _ hstep
    obtain ⟨_, _, hmore, _⟩ := staged_processDeferredEntry hstep
    rw [← add_assoc, ht]
    exact add_newlyQueued hstep hmore
  rw [hqueue, ← htally, ← add_assoc, Multiset.coe_add, readyEntries_append_popReady]

/-- What one operation puts into the queue and takes out of it. -/
lemma queue_conserved (h : s.step o = .ok s') :
    (s.deferredPrefetchQueue : Multiset DeferredPrefetchEntry) + s.enqueued o =
      (s.examined o).map Prod.snd + s.flushed o + s'.deferredPrefetchQueue := by
  cases o with
  | processDeferredPrefetchQueue =>
    have hready : (s.examined .processDeferredPrefetchQueue).map Prod.snd = s.readyEntries := by
      unfold examined
      rw [Multiset.map_coe, map_map]
      exact congrArg _ (map_id _)
    rw [queue_of_event h, hready]
    exact congrArg (· + _) (add_zero _).symm
  | memInvalidate =>
    cases h
    have hnone : s.enqueued .memInvalidate = 0 := Multiset.zero_sub _
    rw [hnone]
    exact congrArg (· + 0) (zero_add _).symm
  | _ =>
    obtain ⟨_, hmore⟩ := queue_of_step h (fun he => by cases he) (fun he => by cases he)
    refine (add_newlyQueued h hmore).trans ?_
    exact (zero_add _).symm

/-- What was enqueued, examined and thrown away. -/
abbrev QueueTotals := Multiset DeferredPrefetchEntry ×
  Multiset (Cycles × DeferredPrefetchEntry) × Multiset DeferredPrefetchEntry

/-- The sums over a run. -/
def queueTotals (s : State p) (ops : List Op) : QueueTotals :=
  tally step (fun s o => (s.enqueued o, s.examined o, s.flushed o)) s ops

lemma queueTotals_eq (s : State p) (ops : List Op) : queueTotals s ops =
    (tally step enqueued s ops, tally step examined s ops, tally step flushed s ops) := by
  unfold queueTotals
  rw [tally_prod, tally_prod]

structure Accounted (enqueued : Multiset DeferredPrefetchEntry)
    (examined : Multiset (Cycles × DeferredPrefetchEntry))
      (flushed : Multiset DeferredPrefetchEntry)
    (waiting : List DeferredPrefetchEntry) : Prop where
  inItsCycle : ∀ x ∈ examined, x.1 = x.2.issueTime
  exactlyOnce : enqueued = examined.map Prod.snd + flushed + waiting

lemma OnTime.ready (hlat : p.noPrefetchLatency = false) (h : OnTime done s.chains)
    (he : e ∈ s.readyEntries) : e.issueTime = s.curCycle :=
  Nat.le_antisymm (readyEntries_due hlat he) (h.due e (mem_of_mem_readyEntries he))

lemma OnTime.examined (hlat : p.noPrefetchLatency = false) (h : OnTime done s.chains)
    {x : Cycles × DeferredPrefetchEntry} (hx : x ∈ s.examined o) : x.1 = x.2.issueTime := by
  cases o with
  | processDeferredPrefetchQueue =>
    obtain ⟨e, he, rfl⟩ := mem_map.mp (Multiset.mem_coe.mp hx)
    exact (h.ready hlat he).symm
  | _ => exact absurd hx (Multiset.notMem_zero x)

lemma accounted_of_paced (hlat : p.noPrefetchLatency = false) {bw : PrevBrInfo}
    (hpaced : paced true ops = true) (h : Reached bw ops s) :
    Accounted (tally step enqueued (State.init p bw) ops)
      (tally step examined (State.init p bw) ops)
      (tally step flushed (State.init p bw) ops) s.deferredPrefetchQueue := by
  have hall : Accounted (queueTotals (State.init p bw) ops).1
    (queueTotals (State.init p bw) ops).2.1
      (queueTotals (State.init p bw) ops).2.2 s.deferredPrefetchQueue := by
    refine tally_invariant (fun (total : QueueTotals) (s : State p) =>
      Accounted total.1 total.2.1 total.2.2 s.deferredPrefetchQueue) ?_ ?_
      (along_onTime hlat (onTime_init bw) hpaced) h
    · rintro ⟨enqueued, examined, flushed⟩ t o t' ⟨hcycle, honce⟩ ⟨done, hon⟩ hstep
      constructor
      · intro x hx
        rcases Multiset.mem_add.mp hx with hold | hnew
        · exact hcycle x hold
        · exact hon.examined hlat hnew
      · have hconserved := queue_conserved hstep
        dsimp only [Prod.fst_add, Prod.snd_add] at honce ⊢
        rw [honce, add_assoc, hconserved, Multiset.map_add]
        abel
    · exact ⟨fun x hx => absurd hx (Multiset.notMem_zero x), rfl⟩
  rw [queueTotals_eq] at hall
  exact hall

lemma arrival_of_processDeferredEntry (h : s.processDeferredEntry e = .ok s')
    (l : Loc p.pBuffer.shape) : s'.pBuffer.get l = s.pBuffer.get l ∨
      (s'.pBuffer.get l).timestamp = e.issueTime + s.sourceLatency ⟨e.pc, e.tid⟩ := by
  rcases ((fetching_processDeferredEntry s e (permits_issuedFor s e)).of_ok h).entries l with hsame
    | ⟨i, hi, hsrc, hcopy⟩
  · exact Or.inl hsame
  · right
    obtain ⟨_, he', hkey, harrival⟩ := hi
    obtain rfl := mem_singleton.mp he'
    obtain ⟨_, hcopy⟩ := hcopy
    rw [hcopy, ← hkey, ← harrival]
    rfl

/-- The queue is sorted, the event leaves only entries of later cycles, each entry is examined once
and in its cycle unless it is thrown away, and its prefetch arrives after the latency of its source.
-/
theorem deferred_queue_on_time (hlat : p.noPrefetchLatency = false) {bw : PrevBrInfo}
    {ops : List Op} {s : State p} (hpaced : paced true ops = true) (h : Reached bw ops s) :
    s.deferredPrefetchQueue.Pairwise (fun a b => a.issueTime ≤ b.issueTime) ∧
    (ops.foldl eventDone true = true → ∀ e ∈ s.deferredPrefetchQueue, s.curCycle < e.issueTime) ∧
    (∀ x ∈ tally step examined (State.init p bw) ops, x.1 = x.2.issueTime) ∧
    tally step enqueued (State.init p bw) ops =
      (tally step examined (State.init p bw) ops).map Prod.snd +
        tally step flushed (State.init p bw) ops + s.deferredPrefetchQueue ∧
    ∀ before e after (u v : State p), s.readyEntries = before ++ e :: after →
      run processDeferredEntry s.popReady before = .ok u → u.processDeferredEntry e = .ok v →
      ∀ l, v.pBuffer.get l = u.pBuffer.get l ∨
        (v.pBuffer.get l).timestamp = s.curCycle + u.sourceLatency ⟨e.pc, e.tid⟩ := by
  have hon := onTime_run hlat (onTime_init bw) hpaced h
  have haccounted := accounted_of_paced hlat hpaced h
  refine ⟨hon.sorted, hon.later, haccounted.inItsCycle, haccounted.exactlyOnce, ?_⟩
  intro before e after u v hready _ hstep l
  have hmem : e ∈ s.readyEntries := by
    rw [hready]
    exact mem_append_right before mem_cons_self
  rw [← hon.ready hlat hmem]
  exact arrival_of_processDeferredEntry hstep l

def pacedChain : List Op := learnt.map Op.withinCycle ++ predictCond 20 :: sixCycles

def flushedChain : List Op :=
  learnt.map Op.withinCycle ++ predictCond 20 :: .memInvalidate :: sixCycles

/-- Both entries of the chain are examined, in the cycles 4 and 5. -/
theorem deferred_queue_on_time_small :
    ∃ s : State oneTracker, Reached ⟨false, false⟩ pacedChain s ∧
      (tally step examined (State.init oneTracker ⟨false, false⟩) pacedChain).card = 2 ∧
      ∀ x ∈ tally step examined (State.init oneTracker ⟨false, false⟩) pacedChain,
        x.1 = x.2.issueTime := by
  obtain ⟨s, hs, _⟩ := exists_run oneTracker pacedChain (fun _ => true) (by decide +kernel)
  refine ⟨s, hs, by decide +kernel, ?_⟩
  exact (deferred_queue_on_time (p := oneTracker) rfl (by decide +kernel) hs).2.2.1

/-- An invalidation throws the two staged entries away; their cycles pass, and neither of
them is examined. -/
theorem invalidated_entries_not_examined :
    oneTracker.noPrefetchLatency = false ∧ paced true flushedChain = true ∧
    ∃ s : State oneTracker, Reached ⟨false, false⟩ flushedChain s ∧
      ((tally step enqueued (State.init oneTracker ⟨false, false⟩) flushedChain).filter
        (fun e => e.issueTime < s.curCycle)).card = 2 ∧
      (tally step examined (State.init oneTracker ⟨false, false⟩) flushedChain).card = 0 := by
  refine ⟨rfl, by decide +kernel, ?_⟩
  obtain ⟨s, hs, hcycle⟩ := exists_run oneTracker flushedChain
    (fun s => s.curCycle == 6) (by decide +kernel)
  have hnow : s.curCycle = 6 := eq_of_beq hcycle
  refine ⟨s, hs, ?_, by decide +kernel⟩
  rw [hnow]
  decide +kernel

end State

end BTBFerret
