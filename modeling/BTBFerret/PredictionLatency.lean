import BTBFerret.QueueLock

/-!
# The latency of a prediction

A prediction that takes cycles sets a counter, and the loop that made it stops. Every later cycle
counts down before it looks at its status, and generates no target while the counter was not zero. A
squash clears the counter. Without one the stage runs again in the first cycle after the latency.
-/

namespace BTBFerret

open FallibleRuns Nat

def Signals.Unsquashed (sig : Signals) : Prop :=
  sig.commitSquash = none ∧ sig.decodeSquash = none ∧ sig.fetchSquash = none

/-- No squash reaches the stage with the operation. -/
def FrontEndOp.Unsquashed {B : BranchTargetBuffer} : FrontEndOp B → Prop
  | .tick _ sig _ => sig.Unsquashed
  | _ => True

def FrontEndOp.isTick {B : BranchTargetBuffer} : FrontEndOp B → Bool
  | .tick _ _ _ => true
  | _ => false

/-- The cycles of a run. -/
def ticks {B : BranchTargetBuffer} (ops : List (FrontEndOp B)) : Nat := ops.countP FrontEndOp.isTick

namespace FrontEnd

variable {B : BranchTargetBuffer} {c : FrontEndParams}

def Undisturbed (s : FrontEnd B) (op : FrontEndOp B) : Prop :=
  op.Unsquashed ∧ (op.isTick = true → s.stalls.drain = false ∧ s.stalls.fetch = false ∧
    s.ftq.isReady = true ∧ s.ftq.isLocked = false)

/-- The loop of `generateFetchTargets` makes a prediction that takes `latency` cycles: for its
next target, or for a later one. -/
inductive Predicts (c : FrontEndParams) (tid : ThreadID) (latency : Cycles) :
    Nat → Nat → (Nat → Answers) → FrontEnd B → Prop
  | here {fts takens : Nat} {answers : Nat → Answers} {s : FrontEnd B} (exitAddr : Addr)
      (found : findBranch c { s with globalFTSeqNum := s.globalFTSeqNum + 1 } tid
        s.bacPC.instAddr = (exitAddr, true))
      (r : FrontEnd B × FetchTarget × PCState × Bool × StaticInst)
      (predicted : predictExit c { s with globalFTSeqNum := s.globalFTSeqNum + 1 } (answers 0) tid
        (.start s.bacPC s.globalFTSeqNum) (.ofAddr exitAddr) = .ok r)
      (charged : r.1.branchPredictRemaining = latency) :
      Predicts c tid latency (fts + 1) (takens + 1) answers s
  | later {fts takens : Nat} {answers : Nat → Answers} {s t : FrontEnd B} {taken : Bool}
      (first : s.generateFetchTarget c tid (answers 0) = .ok (t, taken))
      (room : t.ftq.isFull c.numFTQEntries = false) (free : t.branchPredictRemaining = 0)
      (rest : Predicts c tid latency fts (if taken then takens else takens + 1)
        (fun i => answers (i + 1)) t) :
      Predicts c tid latency (fts + 1) (takens + 1) answers s

def PredictsIn (c : FrontEndParams) (s : FrontEnd B) (tid : ThreadID) (sig : Signals)
    (answers : Nat → Answers) (latency : Cycles) : Prop :=
  ∃ u, s.checkSignalsAndUpdate c tid sig = .ok u ∧ u.bacStatus = .running ∧
    Predicts c tid latency c.maxFTPerCycle c.maxTakenPredPerCycle answers u

/-! ## The cycle of the prediction -/

variable {s t : FrontEnd B} {tid : ThreadID}

/-- The counter is the latency of the prediction when the target enters the queue. -/
lemma generateFetchTarget_charges {ans : Answers} {exitAddr : Addr} {taken : Bool}
    (hfound : findBranch c { s with globalFTSeqNum := s.globalFTSeqNum + 1 } tid
      s.bacPC.instAddr = (exitAddr, true))
    {r : FrontEnd B × FetchTarget × PCState × Bool × StaticInst}
    (hpredicted : predictExit c { s with globalFTSeqNum := s.globalFTSeqNum + 1 } ans tid
      (.start s.bacPC s.globalFTSeqNum) (.ofAddr exitAddr) = .ok r)
    (h : s.generateFetchTarget c tid ans = .ok (t, taken)) :
    t.branchPredictRemaining = r.1.branchPredictRemaining := by
  unfold generateFetchTarget at h
  simp only [hfound, completeTarget, hpredicted, if_true] at h
  obtain ⟨v, hv, h⟩ := bind_eq_ok_iff.mp h
  cases hv
  obtain ⟨u, hu, h⟩ := bind_eq_ok_iff.mp h
  obtain ⟨_, _, h⟩ := bind_eq_ok_iff.mp h
  cases h
  exact ((meets_startFalsePath _ _ _).of_ok hu).2.branchPredictRemaining

variable {latency : Cycles} {fts takens : Nat} {answers : Nat → Answers}

lemma Predicts.charged (h : Predicts c tid latency fts takens answers s) (hpos : 0 < latency)
    (hloop : generateLoop c tid fts takens answers s = .ok t) :
    t.branchPredictRemaining = latency := by
  induction h with
  | here _ found _ predicted charged =>
    unfold generateLoop at hloop
    obtain ⟨_, hu, hloop⟩ := bind_eq_ok_iff.mp hloop
    have hcharged := (generateFetchTarget_charges found predicted hu).trans charged
    dsimp only at hloop
    split at hloop
    · cases hloop
      exact hcharged
    · rw [if_pos (by rw [hcharged]; exact Nat.pos_iff_ne_zero.mp hpos)] at hloop
      cases hloop
      exact hcharged
  | later first room free _ ih =>
    unfold generateLoop at hloop
    rw [first] at hloop
    simp only [bind, Except.bind, room, free, ne_eq, not_true_eq_false, Bool.false_eq_true,
      if_false] at hloop
    exact ih hloop

lemma Predicts.limits (h : Predicts c tid latency fts takens answers s) :
    0 < fts ∧ 0 < takens := by
  cases h with
  | here | later => exact ⟨succ_pos _, succ_pos _⟩

/-! ## The cycles after it -/

lemma settle_remaining (s : FrontEnd B) :
    (s.settle c).branchPredictRemaining = s.branchPredictRemaining - 1 := by
  unfold settle countDown
  by_cases hpos : 0 < s.branchPredictRemaining
  · simp only [hpos, if_true]
    split <;> rfl
  · simp only [hpos, if_false]
    have hzero : s.branchPredictRemaining = 0 := Nat.eq_zero_of_not_pos hpos
    split <;> exact hzero.trans (by rw [hzero])

lemma generate_remaining (hrest : s.bacStatus ≠ .running) (h : s.generate c tid answers = .ok t) :
    t.branchPredictRemaining = s.branchPredictRemaining := by
  unfold generate at h
  rw [if_neg hrest] at h
  split at h
  · exact ((meets_generateOverrideFetchTargets s _).of_ok h).2.branchPredictRemaining
  · cases h
    rfl

lemma nextStatus_stalled (q : FTQ) : nextStatus c q .overriding true ≠ .running := by
  unfold nextStatus
  cases q.isReady <;> cases q.isLocked <;> cases q.isFull c.numFTQEntries <;> decide

lemma settledStatus_stalled (q : FTQ) (status : ThreadStatus) (fetchStall : Bool)
    {remaining : Cycles} (hpos : 0 < remaining) :
    settledStatus c q status fetchStall remaining ≠ .running := by
  unfold settledStatus
  rw [if_pos hpos, decide_eq_true hpos]
  split
  · decide
  · exact nextStatus_stalled q

lemma nextStatus_waits {q : FTQ} (hready : q.isReady = true) :
    nextStatus c q .overriding true = .overriding ∨ nextStatus c q .overriding true = .ftqFull := by
  unfold nextStatus
  rw [hready]
  cases q.isLocked <;> cases q.isFull c.numFTQEntries <;> decide

def Waits (status : ThreadStatus) : Prop :=
  status = .running ∨ status = .ftqFull ∨ status = .overriding

lemma nextStatus_resumes {q : FTQ} {status : ThreadStatus} (hready : q.isReady = true)
    (hlocked : q.isLocked = false) (hroom : q.isFull c.numFTQEntries = false)
    (hwaits : Waits status) : nextStatus c q status false = .running := by
  unfold nextStatus
  rw [hready, hlocked, hroom]
  rcases hwaits with rfl | rfl | rfl
  · decide
  · decide
  · decide

section

variable (hdec : c.decoupledFrontEnd = true)
include hdec

lemma drain_remaining (h : s.drain c = .ok t) :
    t.branchPredictRemaining = s.branchPredictRemaining := by
  unfold drain at h
  obtain ⟨q, _, h⟩ := bind_eq_ok_iff.mp h
  cases h
  exact (core_squashBpuHistories hdec s).2.branchPredictRemaining

variable {sig : Signals}

omit hdec in
lemma not_squashes (h : sig.Unsquashed) {squashing : Prop} {k k' : Core} :
    ¬ Squashes sig squashing k k' := by
  obtain ⟨hcommit, hdecode, hfetch⟩ := h
  intro hmove
  cases hmove with
  | commit q hq => exact absurd (hq.symm.trans hcommit) (Option.some_ne_none q)
  | decode _ q hq => exact absurd (hq.symm.trans hdecode) (Option.some_ne_none q)
  | fetch _ _ pc hpc => exact absurd (hpc.symm.trans hfetch) (Option.some_ne_none pc)

/-- The first half of a cycle without a squash counts down, unless the stage drains. -/
lemma check_remaining {u : FrontEnd B} (hquiet : sig.Unsquashed)
    (h : s.checkSignalsAndUpdate c 0 sig = .ok u) : u.branchPredictRemaining =
      if s.stalls.drain then s.branchPredictRemaining else s.branchPredictRemaining - 1 := by
  unfold checkSignalsAndUpdate at h
  obtain ⟨⟨v, squashed⟩, hv, h⟩ := bind_eq_ok_iff.mp h
  rcases (meets_checkAndUpdateBPUSignals hdec s sig).of_ok hv with
    ⟨_, hmove, _⟩ | ⟨hnone, _, _, hframe⟩
  · exact absurd hmove (not_squashes hquiet)
  · have hsquashed : squashed = false := hnone
    subst hsquashed
    dsimp only at h
    rw [if_neg Bool.false_ne_true, hframe.stalls] at h
    split at h
    · rename_i hdrain
      rw [if_pos hdrain, drain_remaining hdec h]
      exact hframe.branchPredictRemaining
    · rename_i hdrain
      cases h
      rw [if_neg hdrain, settle_remaining, hframe.branchPredictRemaining]

omit hdec in
lemma Checked.status {u : FrontEnd B} (hchecked : Checked c sig s u) (hquiet : sig.Unsquashed) :
    u.bacStatus = if s.stalls.drain then .idle else
      settledStatus c s.ftq s.bacStatus s.stalls.fetch s.branchPredictRemaining := by
  cases hchecked with
  | squashed move => exact absurd move (not_squashes hquiet)
  | drained _ draining _ status => rw [status, if_pos draining]
  | settled _ draining _ status =>
    rw [status, if_neg (by rw [draining]; exact Bool.false_ne_true)]

/-- A cycle that finds the counter above zero creates no target. It counts down by one, or not
at all if the stage drains. -/
lemma tick_waits (hquiet : sig.Unsquashed) (hpos : 0 < s.branchPredictRemaining)
    (h : s.tick c 0 sig answers = .ok t) : t.globalFTSeqNum = s.globalFTSeqNum ∧
      t.branchPredictRemaining =
        (if s.stalls.drain then s.branchPredictRemaining else s.branchPredictRemaining - 1) ∧
      (s.stalls.drain = false → t.bacStatus =
        settledStatus c s.ftq s.bacStatus s.stalls.fetch s.branchPredictRemaining) := by
  unfold tick at h
  rw [if_pos hdec] at h
  obtain ⟨u, hu, h⟩ := bind_eq_ok_iff.mp h
  have hchecked := ((meets_checkSignalsAndUpdate hdec s sig).of_ok hu).1
  have hstatus := hchecked.status hquiet
  have hrests : u.bacStatus ≠ .running := by
    rw [hstatus]
    split
    · decide
    · exact settledStatus_stalled _ _ _ hpos
  obtain ⟨huntouched, _, hsame⟩ :=
    hchecked.untouched hrests ((meets_generate u 0 answers).of_ok h).1
  refine ⟨huntouched.globalFTSeqNum, ?_, fun hdrain => ?_⟩
  · rw [generate_remaining hrests h, check_remaining hdec hquiet hu]
  · rw [hsame, hstatus, if_neg (by rw [hdrain]; exact Bool.false_ne_true)]

omit hdec in
lemma number_le_of_pushes {k k' : Core} (h : Pushes c k k') :
    k.globalFTSeqNum ≤ k'.globalFTSeqNum := by
  induction h with
  | refl => exact Nat.le_refl _
  | tail _ hpush ih =>
    obtain ⟨_, _, hpush⟩ := hpush
    rw [hpush.moved]
    exact le_succ_of_le ih

omit hdec in
lemma generateLoop_creates (hfts : 0 < fts) (htakens : 0 < takens)
    (h : generateLoop c tid fts takens answers s = .ok t) :
    s.globalFTSeqNum < t.globalFTSeqNum := by
  obtain ⟨_, rfl⟩ := exists_eq_succ_of_ne_zero (Nat.pos_iff_ne_zero.mp hfts)
  obtain ⟨_, rfl⟩ := exists_eq_succ_of_ne_zero (Nat.pos_iff_ne_zero.mp htakens)
  unfold generateLoop at h
  obtain ⟨⟨u, _⟩, hu, h⟩ := bind_eq_ok_iff.mp h
  obtain ⟨⟨_, _, hpushed, _⟩, _⟩ := (meets_generateFetchTarget s tid (answers 0)).of_ok hu
  have hnumber : s.globalFTSeqNum < u.globalFTSeqNum := by
    have hnum : u.globalFTSeqNum = s.globalFTSeqNum + 1 :=
      congrArg Core.globalFTSeqNum hpushed.moved
    rw [hnum]
    exact lt_succ_self _
  dsimp only at h
  split at h
  · cases h
    exact hnumber
  · split at h
    · cases h
      exact hnumber
    · exact Nat.lt_of_lt_of_le hnumber
        (number_le_of_pushes ((meets_generateLoop tid _ _ _ u).of_ok h).1)

/-- The first cycle that finds the counter at zero creates targets. -/
lemma tick_resumes (hfts : 0 < c.maxFTPerCycle) (htakens : 0 < c.maxTakenPredPerCycle)
    (hquiet : sig.Unsquashed) (hdone : s.branchPredictRemaining = 0)
    (hdrain : s.stalls.drain = false) (hfetch : s.stalls.fetch = false)
    (hready : s.ftq.isReady = true) (hlocked : s.ftq.isLocked = false)
    (hroom : s.ftq.isFull c.numFTQEntries = false) (hwaits : Waits s.bacStatus)
    (h : s.tick c 0 sig answers = .ok t) : s.globalFTSeqNum < t.globalFTSeqNum := by
  unfold tick at h
  rw [if_pos hdec] at h
  obtain ⟨u, hu, h⟩ := bind_eq_ok_iff.mp h
  have hchecked := ((meets_checkSignalsAndUpdate hdec s sig).of_ok hu).1
  have hrunning : u.bacStatus = .running := by
    rw [hchecked.status hquiet, hdrain, if_neg Bool.false_ne_true, settledStatus, hfetch, hdone,
      if_neg Bool.false_ne_true]
    exact nextStatus_resumes hready hlocked hroom hwaits
  have hnumber : u.globalFTSeqNum = s.globalFTSeqNum := by
    cases hchecked with
    | squashed move => exact absurd move (not_squashes hquiet)
    | drained _ draining => exact absurd (draining.symm.trans hdrain) (by decide)
    | settled _ _ core =>
      exact (congrArg Core.globalFTSeqNum core).trans (commitDone_rest _ _).globalFTSeqNum
  unfold generate at h
  rw [if_pos hrunning] at h
  rw [← hnumber]
  exact generateLoop_creates hfts htakens h

variable {op : FrontEndOp B}

lemma step_between (hop : op.isTick = false) (h : s.step c op = .ok t) :
    t.globalFTSeqNum = s.globalFTSeqNum ∧ t.branchPredictRemaining = s.branchPredictRemaining ∧
      t.bacStatus = s.bacStatus := by
  have hmove := ((meets_step hdec s op).of_ok h).1
  have hnumber := (hmove.untouched (by
    rintro tid sig answers rfl
    cases hop)).globalFTSeqNum
  have hstatus : t.bacStatus = s.bacStatus := by
    cases hmove with
    | tick => cases hop
    | branch | plain | popHead | bacResteer | drainStall | drainResume | btbEvent => assumption
  refine ⟨hnumber, ?_, hstatus⟩
  cases op with
  | tick => cases hop
  | updatePC tid inst pc ans =>
    obtain ⟨r, hr, rfl⟩ := map_eq_ok_iff.mp h
    rw [FrontEndParams.thread, if_pos hdec] at hr
    exact ((meets_updatePC hdec s tid inst pc ans).of_ok hr).2.2
  | popHead =>
    obtain ⟨q, _, h⟩ := bind_eq_ok_iff.mp h
    cases h
    rfl
  | btbEvent =>
    obtain ⟨_, _, h⟩ := bind_eq_ok_iff.mp h
    cases h
    rfl
  | bacResteer | drainStall | drainResume =>
    cases h
    rfl

/-! ## Runs -/

omit hdec in
lemma ticks_append (past : List (FrontEndOp B)) (op : FrontEndOp B) :
    ticks (past ++ [op]) = ticks past + if op.isTick then 1 else 0 := by
  unfold ticks
  rw [List.countP_append, List.countP_singleton]

/-- After `n` cycles without a squash at least `latency - n` are left, and none of the first
`latency` cycles has created a target. -/
structure Charged (latency : Nat) (number : FTSeqNum) (past : List (FrontEndOp B))
    (s : FrontEnd B) : Prop where
  left : latency ≤ ticks past + s.branchPredictRemaining
  number : ticks past ≤ latency → s.globalFTSeqNum = number

lemma charged_step {latency : Nat} {number : FTSeqNum} {past : List (FrontEndOp B)}
    (hs : Charged latency number past s) (hop : op.Unsquashed) (h : s.step c op = .ok t) :
    Charged latency number (past ++ [op]) t := by
  have hcount := ticks_append past op
  cases htick : op.isTick with
  | false =>
    obtain ⟨hnumber, hremaining, _⟩ := step_between hdec htick h
    rw [htick, if_neg Bool.false_ne_true] at hcount
    constructor
    · rw [hremaining, hcount]
      exact hs.left
    · rw [hnumber, hcount]
      exact hs.number
  | true =>
    cases op with
    | tick tid sig answers =>
      rw [htick, if_pos rfl] at hcount
      have htid : c.thread tid = 0 := if_pos hdec
      have hrun : s.tick c 0 sig answers = .ok t := htid ▸ h
      have hleft := hs.left
      by_cases hpos : 0 < s.branchPredictRemaining
      · obtain ⟨hnumber, hremaining, _⟩ := tick_waits hdec hop hpos hrun
        constructor
        · rw [hremaining, hcount]
          split
          · exact Nat.le_trans hleft (Nat.add_le_add_right (le_succ _) _)
          · rw [Nat.add_assoc, Nat.add_sub_cancel' hpos]
            exact hleft
        · intro hle
          rw [hcount] at hle
          rw [hnumber]
          exact hs.number (le_of_succ_le hle)
      · -- the latency is over
        rw [Nat.eq_zero_of_not_pos hpos, Nat.add_zero] at hleft
        constructor
        · rw [hcount]
          exact Nat.le_trans hleft (Nat.le_trans (le_succ _) (Nat.le_add_right _ _))
        · intro hle
          rw [hcount] at hle
          exact absurd (Nat.lt_of_lt_of_le hle hleft) (Nat.lt_irrefl _)
    | _ => cases htick

/-- After `n` undisturbed cycles exactly `latency - n` are left, and the stage waits. -/
structure Waiting (latency : Nat) (past : List (FrontEndOp B)) (s : FrontEnd B) : Prop where
  left : ticks past ≤ latency → ticks past + s.branchPredictRemaining = latency
  status : ticks past ≤ latency → Waits s.bacStatus

lemma waiting_step {latency : Nat} {past : List (FrontEndOp B)} (hs : Waiting latency past s)
    (hop : Undisturbed s op) (h : s.step c op = .ok t) : Waiting latency (past ++ [op]) t := by
  have hcount := ticks_append past op
  cases htick : op.isTick with
  | false =>
    obtain ⟨_, hremaining, hstatus⟩ := step_between hdec htick h
    rw [htick, if_neg Bool.false_ne_true] at hcount
    constructor
    · rw [hremaining, hcount]
      exact hs.left
    · rw [hstatus, hcount]
      exact hs.status
  | true =>
    cases op with
    | tick tid sig answers =>
      rw [htick, if_pos rfl] at hcount
      have htid : c.thread tid = 0 := if_pos hdec
      have hrun : s.tick c 0 sig answers = .ok t := htid ▸ h
      obtain ⟨hquiet, hclear⟩ := hop
      obtain ⟨hdrain, hfetch, hready, _⟩ := hclear rfl
      -- one cycle of the latency is left for this one
      have hgo : ticks (past ++ [.tick tid sig answers]) ≤ latency →
          ticks (past ++ [.tick tid sig answers]) + t.branchPredictRemaining = latency ∧
            Waits t.bacStatus := by
        intro hle
        rw [hcount] at hle
        have hleft := hs.left (le_of_succ_le hle)
        have hpos : 0 < s.branchPredictRemaining := by
          rw [← hleft] at hle
          exact Nat.le_of_add_le_add_left hle
        obtain ⟨_, hremaining, hstatus⟩ := tick_waits hdec hquiet hpos hrun
        rw [hdrain, if_neg Bool.false_ne_true] at hremaining
        constructor
        · rw [hremaining, hcount, Nat.add_assoc, Nat.add_sub_cancel' hpos]
          exact hleft
        rw [hstatus hdrain, settledStatus, hfetch, if_neg Bool.false_ne_true, if_pos hpos,
          decide_eq_true hpos]
        rcases nextStatus_waits hready with hover | hfull
        · exact .inr (.inr hover)
        · exact .inr (.inl hfull)
      exact ⟨fun hle => (hgo hle).1, fun hle => (hgo hle).2⟩
    | _ => cases htick

/-- The cycle that makes a prediction ends with its latency in the counter. -/
lemma PredictsIn.charged (h : PredictsIn c s 0 sig answers latency) (hpos : 0 < latency)
    (htick : s.tick c 0 sig answers = .ok t) :
    t.branchPredictRemaining = latency ∧ (t.bacStatus = .running ∨ t.bacStatus = .ftqFull) := by
  obtain ⟨u, hu, hrunning, hpredicts⟩ := h
  unfold tick at htick
  rw [if_pos hdec, hu] at htick
  change u.generate c 0 answers = .ok t at htick
  unfold generate at htick
  rw [if_pos hrunning] at htick
  obtain ⟨_, hstatus, _⟩ := (meets_generateLoop 0 _ _ _ u).of_ok htick
  rw [hrunning] at hstatus
  exact ⟨hpredicts.charged hpos htick, hstatus⟩

end

/-- The direction predictor takes three cycles. -/
def slowAnswers : Answers := { Answers.notTaken with cond := (false, 3) }

def sentToBranch : List (FrontEndOp B) :=
  learnBranch ++ [.tick 0 { Signals.quiet with fetchSquash := some (.ofAddr 12) }
    fun _ => .notTaken]

/-- A cycle in which predictions take three cycles. -/
def slowTick : FrontEndOp B := .tick 0 .quiet fun _ => slowAnswers

def slowNext (s : FrontEnd B) : Bool :=
  let t := { s with globalFTSeqNum := s.globalFTSeqNum + 1 }
  (findBranch (.small 4) t 0 s.bacPC.instAddr).2 &&
    holdsAt (predictExit (.small 4) t slowAnswers 0 (.start s.bacPC s.globalFTSeqNum)
      (.ofAddr (findBranch (.small 4) t 0 s.bacPC.instAddr).1))
      (fun r => r.1.branchPredictRemaining == 3)

lemma predictsIn_of_test (h : holdsAt (s.checkSignalsAndUpdate (.small 4) 0 .quiet)
      (fun u => u.bacStatus == .running && slowNext u) = true) :
    PredictsIn (.small 4) s 0 .quiet (fun _ => slowAnswers) 3 := by
  obtain ⟨u, hu, htest⟩ := exists_of_holdsAt _ _ h
  obtain ⟨hrunning, hnext⟩ := Bool.and_eq_true_iff.mp htest
  obtain ⟨hfound, hpredicts⟩ := Bool.and_eq_true_iff.mp hnext
  obtain ⟨r, hr, hcharged⟩ := exists_of_holdsAt _ _ hpredicts
  exact ⟨u, hu, eq_of_beq hrunning, .here _ (Prod.ext rfl hfound) r hr (eq_of_beq hcharged)⟩

instance : (op : FrontEndOp B) → Decidable op.Unsquashed
  | .tick _ sig _ => inferInstanceAs (Decidable (sig.commitSquash = none ∧ sig.decodeSquash = none ∧
      sig.fetchSquash = none))
  | .updatePC .. => .isTrue trivial
  | .popHead => .isTrue trivial
  | .bacResteer => .isTrue trivial
  | .drainStall => .isTrue trivial
  | .drainResume => .isTrue trivial
  | .btbEvent _ => .isTrue trivial

instance (s : FrontEnd B) (op : FrontEndOp B) : Decidable (Undisturbed s op) :=
  inferInstanceAs (Decidable (_ ∧ _))

end FrontEnd

end BTBFerret
