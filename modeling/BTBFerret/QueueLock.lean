import BTBFerret.QueueShape

/-!
# The locked fetch target queue

Fetch locks the queue when a complex instruction has made its targets useless. The
stage looks at the lock only while it is running; from `FTQFull` and `Overriding` it
returns to `Running` without looking, and then generates targets in the same cycle.
-/

namespace BTBFerret

open FallibleRuns

namespace FrontEnd

open List

variable {B : BranchTargetBuffer} {c : FrontEndParams}

/-- A cycle does not miss the lock: the queue is full, or the stage is not in or due for a status
that it leaves without looking at the lock. -/
def LockSeen (c : FrontEndParams) (s : FrontEnd B) : FrontEndOp B → Prop
  | .tick _ _ _ => s.ftq.isFull c.numFTQEntries = true ∨
    (s.branchPredictRemaining = 0 ∧ s.bacStatus ≠ .overriding ∧ s.bacStatus ≠ .ftqFull)
  | _ => True

/-- The status machine does not run into a lock that it sees. -/
lemma nextStatus_locked {q : FTQ} {status : ThreadStatus} (stall : Bool)
    (hlocked : q.status = .locked) (hsquashing : status ≠ .squashing)
    (hseen : q.isFull c.numFTQEntries = true ∨
      (status ≠ .overriding ∧ status ≠ .ftqFull ∧ status ≠ .idle ∧ status ≠ .blocked)) :
    nextStatus c q status stall ≠ .running ∧ nextStatus c q status stall ≠ .overriding := by
  unfold nextStatus FTQ.isReady FTQ.isLocked
  rw [hlocked]
  revert hseen hsquashing
  cases q.isFull c.numFTQEntries <;> cases status <;> cases stall <;> decide

variable {s t : FrontEnd B}

/-- The stage neither runs nor overrides after it has looked at the signals. -/
lemma Checked.rests {sig : Signals} (h : Steady s)
    (hlocked : s.ftq.status = .locked)
    (hseen : s.ftq.isFull c.numFTQEntries = true ∨
      (s.branchPredictRemaining = 0 ∧ s.bacStatus ≠ .overriding ∧ s.bacStatus ≠ .ftqFull))
    (hchecked : Checked c sig s t) : t.bacStatus ≠ .running ∧ t.bacStatus ≠ .overriding := by
  cases hchecked with
  | squashed _ status | drained _ _ _ status =>
    rw [status]
    decide
  | settled _ _ _ status =>
    have hne := h.locked hlocked
    have hsquashing : s.bacStatus ≠ .squashing := fun hs => hne (h.squashing hs)
    have hidle : s.bacStatus ≠ .idle := by
      intro hs
      rcases h.idle hs with hempty | hinvalid
      · exact hne hempty
      · exact absurd (hlocked.symm.trans hinvalid) (by decide)
    rw [status, settledStatus_steady h]
    refine nextStatus_locked _ hlocked ?_ ?_
    · split
      · decide
      · exact hsquashing
    · rcases hseen with hfull | ⟨hdone, hover, hfull⟩
      · exact .inl hfull
      · rw [hdone, if_neg (Nat.lt_irrefl 0)]
        exact .inr ⟨hover, hfull, hidle, h.notBlocked⟩

/-- No target is created, none enters the queue, and none gets a history. -/
structure Untouched (s t : FrontEnd B) : Prop where
  globalFTSeqNum : t.globalFTSeqNum = s.globalFTSeqNum
  shape : t.ftq.shape <:+ s.ftq.shape
  histories : t.ftq.histories.Sublist s.ftq.histories

lemma untouched_of_same (hftq : t.ftq = s.ftq)
    (hnum : t.globalFTSeqNum = s.globalFTSeqNum) : Untouched s t := by
  constructor
  · exact hnum
  · rw [hftq]
  · rw [hftq]

lemma untouched_of_cleared (h : Cleared s.core t.core) : Untouched s t := by
  have hftq : t.ftq = ⟨[], .valid⟩ := h.ftq
  constructor
  · exact h.globalFTSeqNum
  · rw [hftq]
    exact nil_suffix
  · rw [hftq]
    exact nil_sublist _

lemma Predecoded.histories {k k' : Core} {ft : FetchTarget} {inst : StaticInst} {addr : Addr}
    {seqNum : InstSeqNum} (h : Predecoded k k' ft inst addr seqNum)
    (hhead : k.ftq.readHead = some ft) : k'.ftq.histories.Sublist k.ftq.histories := by
  obtain ⟨u, h, g, hfound, _, rfl⟩ := h.entered
  cases hfound with
  | moved =>
    obtain ⟨_, rest, htargets⟩ := targets_of_readHead hhead
    change ((ft.withoutHistory :: k.ftq.targets.tail).filterMap FetchTarget.bpuHistory).Sublist
      (k.ftq.targets.filterMap FetchTarget.bpuHistory)
    rw [htargets]
    exact (sublist_cons_self ft rest).filterMap FetchTarget.bpuHistory
  | recovered =>
    change k.undoQueue.ftq.histories.Sublist _
    rw [histories_undoQueue]
    exact nil_sublist _
  | placeholder => exact Sublist.refl _

lemma Popped.histories {q q' : FTQ} (h : Popped q q') : q'.histories.Sublist q.histories := by
  have hrest : ∀ head rest, q.targets = head :: rest →
      (rest.filterMap FetchTarget.bpuHistory).Sublist q.histories := by
    intro head rest htargets
    unfold FTQ.histories
    rw [htargets]
    exact (sublist_cons_self head rest).filterMap FetchTarget.bpuHistory
  cases h with
  | kept => exact Sublist.refl _
  | unlocked head rest htargets | popped head rest htargets => exact hrest head rest htargets

lemma Checked.untouched {sig : Signals} {u : FrontEnd B} (hchecked : Checked c sig s u)
    (hrests : u.bacStatus ≠ .running) (hgen : Generated c u t) :
    Untouched s t ∧ t.bpu.nextHistory = s.bpu.nextHistory ∧ t.bacStatus = u.bacStatus := by
  cases hgen with
  | targets running => exact absurd running hrests
  | nothing _ hcore hstatus =>
    cases hchecked with
    | squashed move =>
      have hcleared := move.cleared
      rw [← hcore] at hcleared
      exact ⟨untouched_of_cleared hcleared, hcleared.nextHistory, hstatus⟩
    | drained _ _ hdrained =>
      have hcleared : Cleared s.core t.core := by
        rw [hcore, hdrained]
        exact cleared_after_commit sig.doneSeqNum ⟨rfl, rfl, rfl⟩
      exact ⟨untouched_of_cleared hcleared, hcleared.nextHistory, hstatus⟩
    | settled _ _ hsettled =>
      have hrest := commitDone_rest s.core sig.doneSeqNum
      rw [← hsettled, ← hcore] at hrest
      exact ⟨untouched_of_same hrest.ftq hrest.globalFTSeqNum, hrest.nextHistory, hstatus⟩

lemma Moved.untouched {op : FrontEndOp B} (hmove : Moved c s t op)
    (hop : ∀ tid sig answers, op ≠ .tick tid sig answers) : Untouched s t := by
  cases hmove with
  | tick tid sig answers => exact absurd rfl (hop tid sig answers)
  | branch _ _ _ _ _ _ head core =>
    have hsame := core.sameShape head
    refine ⟨hsame.globalFTSeqNum, ?_, core.histories head⟩
    rw [show t.ftq.shape = s.ftq.shape from hsame.shape]
  | plain _ _ _ _ _ core =>
    exact untouched_of_same (congrArg Core.ftq core) (congrArg Core.globalFTSeqNum core)
  | popHead q pop core =>
    have hftq : t.ftq = q := congrArg Core.ftq core
    rw [← hftq] at pop
    exact ⟨congrArg Core.globalFTSeqNum core, pop.shape, pop.histories⟩
  | bacResteer core =>
    have hftq : t.ftq = s.ftq.invalidate := congrArg Core.ftq core
    have htargets : t.ftq.targets = s.ftq.targets := by
      rw [hftq]
      unfold FTQ.invalidate
      split
      · rfl
      · rfl
    refine ⟨congrArg Core.globalFTSeqNum core, ?_, ?_⟩
    · unfold FTQ.shape
      rw [htargets]
    · unfold FTQ.histories
      rw [htargets]
  | drainStall core | drainResume core | btbEvent _ core =>
    exact untouched_of_same (congrArg Core.ftq core) (congrArg Core.globalFTSeqNum core)

/-- While the queue is locked and every cycle sees it, nothing puts a target or a history into it,
and no cycle predicts or follows the false path. -/
theorem locked_queue_untouched (hdec : c.decoupledFrontEnd = true) {btb : B.State} {pc : PCState}
    {ops : List (FrontEndOp B)} {s t : FrontEnd B} {op : FrontEndOp B}
    (h : Reached c btb pc ops s) (hlocked : s.ftq.isLocked = true) (hseen : LockSeen c s op)
    (hstep : s.step c op = .ok t) :
    Untouched s t ∧ ∀ tid sig answers, op = .tick tid sig answers →
      t.bpu.nextHistory = s.bpu.nextHistory ∧ t.bacStatus ≠ .running ∧
        t.bacStatus ≠ .overriding := by
  have hstatus : s.ftq.status = .locked := eq_of_beq hlocked
  have hmove := ((meets_step hdec s op).of_ok hstep).1
  by_cases hop : ∀ tid sig answers, op ≠ .tick tid sig answers
  · exact ⟨hmove.untouched hop, fun tid sig answers htick => absurd htick (hop tid sig answers)⟩
  · cases hmove with
    | tick _ _ _ _ checked generated =>
      have hrests := checked.rests (reached_steady hdec h) hstatus hseen
      obtain ⟨huntouched, hnext, hsame⟩ := checked.untouched hrests.1 generated
      refine ⟨huntouched, fun _ _ _ _ => ⟨hnext, ?_⟩⟩
      rw [hsame]
      exact hrests
    | branch | plain | popHead | bacResteer | drainStall | drainResume | btbEvent =>
      exact absurd (fun _ _ _ h => by cases h) hop

/-- The branch at 12 has been replaced by one of another type, and its history locks the queue. -/
def lockQueue : List (FrontEndOp B) :=
  learnBranch ++ [.popHead, .updatePC 0 (.direct false) (.ofAddr 12) .notTaken]

/-- A cycle of the locked queue makes no history. -/
theorem locked_queue_untouched_small :
    ∃ s t, ReachedSmall (.small 4) lockQueue s ∧ s.ftq.isLocked = true ∧
      s.step (.small 4) quietTick = .ok t ∧
      t.bpu.nextHistory = s.bpu.nextHistory := by
  obtain ⟨s, hs, htest⟩ := exists_reached (.small 4) lockQueue
    (fun s => s.ftq.isLocked && s.branchPredictRemaining == 0 && s.bacStatus == .running &&
      holdsAt (s.step (.small 4) quietTick) fun _ => true) (by decide +kernel)
  simp only [Bool.and_eq_true, beq_iff_eq] at htest
  obtain ⟨⟨⟨hlocked, hdone⟩, hrun⟩, hstep⟩ := htest
  obtain ⟨t, ht, _⟩ := exists_of_holdsAt _ _ hstep
  have hseen : LockSeen (.small 4) s quietTick := by
    refine .inr ⟨hdone, ?_, ?_⟩ <;> rw [hrun] <;> decide
  exact ⟨s, t, hs, hlocked, ht, ((locked_queue_untouched rfl hs hlocked hseen ht).2 _ _ _ rfl).1⟩

/-- With two entries the stage waits for room while the lock is taken. The next cycle finds
room and pushes a target into the locked queue. -/
theorem locked_queue_gets_target :
    (FrontEndParams.small 2).decoupledFrontEnd = true ∧
    ∃ s t, ReachedSmall (.small 2) lockQueue s ∧ s.ftq.isLocked = true ∧
      s.bacStatus = .ftqFull ∧ s.ftq.size = 1 ∧
      s.step (.small 2) quietTick = .ok t ∧ t.ftq.isLocked = true ∧ t.ftq.size = 2 := by
  refine ⟨rfl, ?_⟩
  obtain ⟨s, hs, htest⟩ := exists_reached (.small 2) lockQueue
    (fun s => s.ftq.isLocked && s.bacStatus == .ftqFull && s.ftq.size == 1 &&
      holdsAt (s.step (.small 2) quietTick) fun t => t.ftq.isLocked && t.ftq.size == 2)
    (by decide +kernel)
  simp only [Bool.and_eq_true, beq_iff_eq] at htest
  obtain ⟨⟨⟨hlocked, hfull⟩, hone⟩, hstep⟩ := htest
  obtain ⟨t, ht, htwo⟩ := exists_of_holdsAt _ _ hstep
  simp only [Bool.and_eq_true, beq_iff_eq] at htwo
  exact ⟨s, t, hs, hlocked, hfull, hone, ht, htwo.1, htwo.2⟩

end FrontEnd

end BTBFerret
