import BTBFerret.TargetMoves

/-!
# The shape of the fetch target queue

The capacity of the queue is checked at the end of an iteration and in the status machine, so the
assertion of `FTQ::insert` rests on what each status tells about the queue. The targets follow each
other: numbers increase, and each one starts where the one before it is predicted to continue.
-/

namespace BTBFerret

open FallibleRuns List

def FTQ.shape (q : FTQ) : List FetchTarget := q.targets.map FetchTarget.withoutHistory

namespace FrontEnd

variable {B : BranchTargetBuffer} {c : FrontEndParams}

/-! ## What the moves do to the queue -/

variable {q : FTQ} {ft : FetchTarget}

lemma targets_of_readHead (hhead : q.readHead = some ft) :
    q.status ≠ .invalid ∧ ∃ rest, q.targets = ft :: rest := by
  unfold FTQ.readHead at hhead
  split at hhead
  · cases hhead
  · rename_i hready
    exact ⟨hready, head?_eq_some_iff.mp hhead⟩

lemma shape_undoQueue (k : Core) : k.undoQueue.ftq.shape = k.ftq.shape := by
  change (k.ftq.targets.map _).map _ = k.ftq.targets.map _
  rw [map_map]
  rfl

lemma shape_setHead (hhead : q.readHead = some ft) :
    (q.setHead ft.withoutHistory).shape = q.shape := by
  obtain ⟨_, _, htargets⟩ := targets_of_readHead hhead
  unfold FTQ.shape FTQ.setHead
  rw [htargets]
  rfl

/-- The history of a predecoded branch is found without a change of the shape. -/
structure SameShape (k k' : Core) : Prop where
  shape : k'.ftq.shape = k.ftq.shape
  bacPC : k'.bacPC = k.bacPC
  globalFTSeqNum : k'.globalFTSeqNum = k.globalFTSeqNum

variable {k k' : Core} {inst : StaticInst} {addr : Addr}

lemma Predecoded.sameShape {seqNum : InstSeqNum} (h : Predecoded k k' ft inst addr seqNum)
    (hhead : k.ftq.readHead = some ft) : SameShape k k' := by
  obtain ⟨u, h, g, hfound, _, rfl⟩ := h.entered
  cases hfound with
  | moved => exact ⟨shape_setHead hhead, rfl, rfl⟩
  | recovered => exact ⟨shape_undoQueue k, rfl, rfl⟩
  | placeholder => exact ⟨rfl, rfl, rfl⟩

lemma Predecoded.status {seqNum : InstSeqNum} (h : Predecoded k k' ft inst addr seqNum) :
    k'.ftq.status = .locked ∨ k'.ftq.status = k.ftq.status := by
  obtain ⟨u, h, g, hfound, _, rfl⟩ := h.entered
  cases hfound with
  | moved => exact .inr rfl
  | recovered => exact .inl rfl
  | placeholder => exact .inr rfl

/-- A squash clears the queue and creates nothing. -/
structure Cleared (k k' : Core) : Prop where
  ftq : k'.ftq = ⟨[], .valid⟩
  nextHistory : k'.nextHistory = k.nextHistory
  globalFTSeqNum : k'.globalFTSeqNum = k.globalFTSeqNum

lemma cleared_after_commit (sn : InstSeqNum) (h : Cleared (k.commitDone sn) k') : Cleared k k' :=
  have hrest := commitDone_rest k sn
  ⟨h.ftq, h.nextHistory.trans hrest.nextHistory, h.globalFTSeqNum.trans hrest.globalFTSeqNum⟩

variable {sig : Signals}

lemma Squashes.cleared {squashing : Prop} (h : Squashes sig squashing k k') : Cleared k k' := by
  cases h with
  | commit => exact ⟨rfl, rfl, rfl⟩
  | decode | fetch => exact cleared_after_commit sig.doneSeqNum ⟨rfl, rfl, rfl⟩

inductive QueueMove (c : FrontEndParams) (k k' : Core) : Prop
  | shrunk (suffix : k'.ftq.shape <:+ k.ftq.shape) (pc : k'.bacPC = k.bacPC)
      (num : k'.globalFTSeqNum = k.globalFTSeqNum)
  | cleared (targets : k'.ftq.targets = []) (num : k'.globalFTSeqNum = k.globalFTSeqNum)
  | pushed (mid : Core) (ftq : mid.ftq = k.ftq) (pc : mid.bacPC = k.bacPC)
      (num : mid.globalFTSeqNum = k.globalFTSeqNum) (pushes : Pushes c mid k')

lemma QueueMove.of_same (h : k' = k) : QueueMove c k k' := by
  subst h
  exact .shrunk suffix_rfl rfl rfl

lemma Popped.shape {q' : FTQ} (h : Popped q q') : q'.shape <:+ q.shape := by
  cases h with
  | kept => exact suffix_rfl
  | unlocked _ _ htargets | popped _ _ htargets =>
    unfold FTQ.shape
    rw [htargets]
    exact suffix_cons _ _

variable {s t : FrontEnd B}

lemma Moved.queueMove {op : FrontEndOp B} (h : Moved c s t op) : QueueMove c s.core t.core := by
  cases h with
  | tick _ sig _ _ checked generated =>
    cases checked with
    | squashed move status =>
      have hcleared := move.cleared
      cases generated with
      | targets running => exact absurd (running.symm.trans status) (by decide)
      | nothing _ hcore =>
        rw [hcore]
        exact .cleared (by rw [hcleared.ftq]) hcleared.globalFTSeqNum
    | drained _ _ hcore status =>
      cases generated with
      | targets running => exact absurd (running.symm.trans status) (by decide)
      | nothing _ hcore' =>
        rw [hcore', hcore]
        exact .cleared rfl (commitDone_rest s.core sig.doneSeqNum).globalFTSeqNum
    | settled _ _ hcore =>
      have hrest := commitDone_rest s.core sig.doneSeqNum
      cases generated with
      | targets _ pushes =>
        rw [hcore] at pushes
        exact .pushed _ hrest.ftq hrest.bacPC hrest.globalFTSeqNum pushes
      | nothing _ hcore' =>
        rw [hcore', hcore]
        exact .shrunk (by rw [hrest.ftq]) hrest.bacPC hrest.globalFTSeqNum
  | branch _ _ _ _ _ _ head core =>
    have hsame := core.sameShape head
    exact .shrunk (by rw [hsame.shape]; exact suffix_rfl) hsame.bacPC hsame.globalFTSeqNum
  | plain _ _ _ _ _ core =>
    rw [core]
    exact .shrunk suffix_rfl rfl rfl
  | popHead _ pop core =>
    rw [core]
    exact .shrunk pop.shape rfl rfl
  | bacResteer core =>
    have hshape : s.ftq.invalidate.shape = s.ftq.shape := by
      unfold FTQ.invalidate
      split
      · rfl
      · rfl
    rw [core]
    exact .shrunk (by rw [hshape]; exact suffix_rfl) rfl rfl
  | drainStall core | drainResume core | btbEvent _ core => exact .of_same core

/-! ## Targets follow each other -/

/-- The second target starts where the first one is predicted to continue. -/
def Follows (a b : FetchTarget) : Prop := a.nextAddress = some b.startAddress

/-- The targets are numbered in order, each one follows the one before it, and the stage
continues behind the last one. -/
structure Linked (c : FrontEndParams) (k : Core) : Prop where
  size : k.ftq.size ≤ c.numFTQEntries
  increasing : k.ftq.targets.Pairwise (fun a b => a.ftNum < b.ftNum)
  below : ∀ ft ∈ k.ftq.targets, ft.ftNum < k.globalFTSeqNum
  follows : k.ftq.targets.IsChain Follows
  next : ∀ ft ∈ k.ftq.targets.getLast?, ft.nextAddress = some k.bacPC.instAddr

lemma linked_of_empty (h : k.ftq.targets = []) : Linked c k := by
  constructor
  · unfold FTQ.size
    rw [h]
    exact Nat.zero_le _
  · rw [h]
    exact List.Pairwise.nil
  · rw [h]
    intro ft hft
    cases hft
  · rw [h]
    exact isChain_nil
  · rw [h]
    intro ft hft
    cases hft

lemma linked_iff_shape : Linked c k ↔ k.ftq.shape.length ≤ c.numFTQEntries ∧
    k.ftq.shape.Pairwise (fun a b => a.ftNum < b.ftNum) ∧
    (∀ ft ∈ k.ftq.shape, ft.ftNum < k.globalFTSeqNum) ∧ k.ftq.shape.IsChain Follows ∧
    ∀ ft ∈ k.ftq.shape.getLast?, ft.nextAddress = some k.bacPC.instAddr := by
  unfold FTQ.shape
  rw [length_map, pairwise_map, forall_mem_map, isChain_map, getLast?_map]
  constructor
  · intro h
    refine ⟨h.size, h.increasing, h.below, h.follows, ?_⟩
    intro ft hft
    obtain ⟨ft', hlast, rfl⟩ := Option.mem_map.mp hft
    exact h.next ft' hlast
  · rintro ⟨hsize, hincreasing, hbelow, hfollows, hnext⟩
    exact ⟨hsize, hincreasing, hbelow, hfollows,
      fun ft hft => hnext ft.withoutHistory (Option.mem_map_of_mem _ hft)⟩

lemma Linked.shrunk (h : Linked c k) (suffix : k'.ftq.shape <:+ k.ftq.shape)
    (pc : k'.bacPC = k.bacPC) (num : k'.globalFTSeqNum = k.globalFTSeqNum) : Linked c k' := by
  rw [linked_iff_shape] at h ⊢
  obtain ⟨hsize, hincreasing, hbelow, hfollows, hnext⟩ := h
  rw [pc, num]
  refine ⟨suffix.length_le.trans hsize, hincreasing.sublist suffix.sublist,
    fun ft hft => hbelow ft (suffix.subset hft), hfollows.suffix suffix, ?_⟩
  intro ft hft
  -- a suffix that is not empty ends with the same target
  obtain ⟨_, hfront⟩ := suffix
  refine hnext ft ?_
  rw [← hfront, getLast?_append, hft]
  rfl

lemma Linked.push {nextPC : PCState} (h : Linked c k) (hpush : Pushed c k k' ft nextPC) :
    Linked c k' := by
  rw [hpush.moved]
  constructor
  · have hroom : ¬ c.numFTQEntries ≤ k.ftq.size := by simpa [FTQ.isFull] using hpush.room
    change (k.ftq.targets ++ [ft]).length ≤ c.numFTQEntries
    rw [length_append, length_singleton]
    exact Nat.lt_of_not_le hroom
  · refine pairwise_append.mpr ⟨h.increasing, pairwise_singleton _ _, ?_⟩
    intro a ha b hb
    rw [mem_singleton.mp hb, hpush.ftNum]
    exact h.below a ha
  · intro a ha
    change a.ftNum < k.globalFTSeqNum + 1
    rcases mem_append.mp ha with hold | hnew
    · exact Nat.lt_succ_of_lt (h.below a hold)
    · rw [mem_singleton.mp hnew, hpush.ftNum]
      exact Nat.lt_succ_self _
  · refine isChain_append.mpr ⟨h.follows, isChain_singleton _, ?_⟩
    intro a ha b hb
    obtain rfl : ft = b := Option.some.inj hb
    unfold Follows FetchTarget.startAddress
    rw [hpush.start]
    exact h.next a ha
  · intro a ha
    rw [Core.push, getLast?_concat] at ha
    obtain rfl : ft = a := Option.some.inj ha
    unfold FetchTarget.nextAddress
    rw [hpush.next]
    rfl

lemma Linked.pushes (h : Linked c k) (hpushes : Pushes c k k') : Linked c k' := by
  induction hpushes with
  | refl => exact h
  | tail _ hpush ih =>
    obtain ⟨_, _, hpush⟩ := hpush
    exact ih.push hpush

lemma Linked.moved (h : Linked c k) (hmove : QueueMove c k k') : Linked c k' := by
  cases hmove with
  | shrunk suffix pc num => exact h.shrunk suffix pc num
  | cleared targets => exact linked_of_empty targets
  | pushed _ ftq pc num pushes =>
    exact (h.shrunk (by rw [ftq]) pc num).pushes pushes

/-! ## What the status tells about the queue -/

structure Steady (s : FrontEnd B) : Prop where
  noFetchStall : s.stalls.fetch = false
  notBlocked : s.bacStatus ≠ .blocked
  squashing : s.bacStatus = .squashing → s.ftq.targets = []
  ftqLocked : s.bacStatus = .ftqLocked → s.ftq.status = .locked ∨ s.ftq.status = .invalid
  idle : s.bacStatus = .idle → s.ftq.targets = [] ∨ s.ftq.status = .invalid
  locked : s.ftq.status = .locked → s.ftq.targets ≠ []

lemma steady_init (btb : B.State) (pc : PCState) : Steady (init btb pc) := by
  constructor
  · rfl
  · rintro ⟨⟩
  · intro _
    rfl
  · rintro ⟨⟩
  · rintro ⟨⟩
  · rintro ⟨⟩

lemma nextStatus_cases (q : FTQ) (status : ThreadStatus) (stall : Bool) :
    nextStatus c q status stall ≠ .squashing ∧ nextStatus c q status stall ≠ .blocked ∧
    (nextStatus c q status stall = .ftqLocked → q.status = .locked) ∧
    (nextStatus c q status stall = .idle → q.status = .invalid) := by
  unfold nextStatus FTQ.isReady FTQ.isLocked
  cases hq : q.status <;> cases status <;> cases q.isFull c.numFTQEntries <;> cases stall <;> decide

lemma nextStatus_room {status : ThreadStatus} {stall : Bool} (hn : 0 < c.numFTQEntries)
    (hsquashing : status = .squashing → q.targets = [])
    (hlocked : status = .ftqLocked → q.status = .locked ∨ q.status = .invalid)
    (h : nextStatus c q status stall = .running ∨ nextStatus c q status stall = .overriding) :
    q.isFull c.numFTQEntries = false := by
  cases hfull : q.isFull c.numFTQEntries with
  | false => rfl
  | true =>
    have hsize : c.numFTQEntries ≤ q.targets.length := of_decide_eq_true hfull
    have hne : status ≠ .squashing := by
      intro hs
      rw [hsquashing hs, length_nil] at hsize
      omega
    unfold nextStatus FTQ.isReady FTQ.isLocked at h
    rw [hfull] at h
    revert h hlocked
    cases q.status <;> cases status <;> cases stall <;> first | exact absurd rfl hne | decide

lemma settledStatus_steady (h : Steady s) :
    settledStatus c s.ftq s.bacStatus s.stalls.fetch s.branchPredictRemaining =
      nextStatus c s.ftq (if 0 < s.branchPredictRemaining then .overriding else s.bacStatus)
        (decide (0 < s.branchPredictRemaining)) := by
  unfold settledStatus
  rw [h.noFetchStall]
  rfl

lemma Checked.room (h : Steady s) (hn : 0 < c.numFTQEntries) (hchecked : Checked c sig s t)
    (hactive : t.bacStatus = .running ∨ t.bacStatus = .overriding) :
    t.ftq.isFull c.numFTQEntries = false := by
  cases hchecked with
  | squashed _ status | drained _ _ _ status =>
    rw [status] at hactive
    rcases hactive with hrun | hover
    · cases hrun
    · cases hover
  | settled _ _ core status =>
    have hftq : t.ftq = s.ftq := (congrArg Core.ftq core).trans (commitDone_rest _ _).ftq
    rw [status, settledStatus_steady h] at hactive
    rw [hftq]
    refine nextStatus_room hn ?_ ?_ hactive
    · split
      · rintro ⟨⟩
      · exact h.squashing
    · split
      · rintro ⟨⟩
      · exact h.ftqLocked

lemma Pushes.ftq (h : Pushes c k k') :
    k'.ftq.status = k.ftq.status ∧ (k.ftq.targets ≠ [] → k'.ftq.targets ≠ []) := by
  induction h with
  | refl => exact ⟨rfl, fun hne => hne⟩
  | tail _ hpush ih =>
    obtain ⟨ft, _, hpush⟩ := hpush
    rw [hpush.moved]
    exact ⟨ih.1, fun _ => append_ne_nil_of_right_ne_nil _ (cons_ne_nil ft [])⟩

/-- The queue is empty and valid, or nothing is said about it by the status. -/
lemma steady_of_cleared (hfetch : s.stalls.fetch = false) (hftq : s.ftq = ⟨[], .valid⟩)
    (hstatus : s.bacStatus = .squashing ∨ s.bacStatus = .idle) : Steady s := by
  constructor
  · exact hfetch
  · rcases hstatus with hs | hs <;> rw [hs] <;> decide
  · intro _
    rw [hftq]
  · intro h
    rcases hstatus with hs | hs <;> exact absurd (h.symm.trans hs) (by decide)
  · intro _
    rw [hftq]
    exact .inl rfl
  · rw [hftq]
    rintro ⟨⟩

lemma Steady.tick {u : FrontEnd B} (h : Steady s) (hfetch : t.stalls.fetch = false)
    (hchecked : Checked c sig s u) (hgen : Generated c u t) : Steady t := by
  cases hchecked with
  | squashed move status =>
    cases hgen with
    | targets running => exact absurd (running.symm.trans status) (by decide)
    | nothing _ hcore hstatus =>
      exact steady_of_cleared hfetch ((congrArg Core.ftq hcore).trans move.cleared.ftq)
        (.inl (hstatus.trans status))
  | drained _ _ core status =>
    cases hgen with
    | targets running => exact absurd (running.symm.trans status) (by decide)
    | nothing _ hcore hstatus =>
      exact steady_of_cleared hfetch ((congrArg Core.ftq hcore).trans (congrArg Core.ftq core))
        (.inr (hstatus.trans status))
  | settled _ _ core status =>
    have hu : u.ftq = s.ftq := (congrArg Core.ftq core).trans (commitDone_rest _ _).ftq
    rw [settledStatus_steady h] at status
    obtain ⟨hsquashing, hblocked, hlocked, hidle⟩ := nextStatus_cases (c := c) s.ftq
      (if 0 < s.branchPredictRemaining then .overriding else s.bacStatus)
      (decide (0 < s.branchPredictRemaining))
    rw [← status] at hsquashing hblocked hlocked hidle
    cases hgen with
    | targets _ pushes hstatus =>
      obtain ⟨hq, hne⟩ := Pushes.ftq pushes
      have hq' : t.ftq.status = s.ftq.status := hq.trans (congrArg FTQ.status hu)
      -- the stage runs or waits for room, of which the invariant says nothing
      have hother : ∀ status, status ≠ .running → status ≠ .ftqFull → t.bacStatus ≠ status := by
        intro status hrun hfull ht
        rcases hstatus with hs | hs
        · exact hrun (ht.symm.trans hs)
        · exact hfull (ht.symm.trans hs)
      constructor
      · exact hfetch
      · exact hother .blocked (by decide) (by decide)
      · intro ht
        exact absurd ht (hother .squashing (by decide) (by decide))
      · intro ht
        exact absurd ht (hother .ftqLocked (by decide) (by decide))
      · intro ht
        exact absurd ht (hother .idle (by decide) (by decide))
      · intro ht
        refine hne ?_
        change u.ftq.targets ≠ []
        rw [hu]
        exact h.locked (hq'.symm.trans ht)
    | nothing _ hcore hstatus =>
      have ht : t.ftq = s.ftq := (congrArg Core.ftq hcore).trans hu
      constructor
      · exact hfetch
      · rw [hstatus]
        exact hblocked
      · intro hs
        exact absurd (hstatus.symm.trans hs) hsquashing
      · intro hs
        rw [ht]
        exact .inl (hlocked (hstatus.symm.trans hs))
      · intro hs
        rw [ht]
        exact .inr (hidle (hstatus.symm.trans hs))
      · rw [ht]
        exact h.locked

section

variable (h : Steady s) (hfetch : t.stalls.fetch = s.stalls.fetch)

include h hfetch

/-- An operation that keeps the status only has to keep what the status tells about the queue. -/
lemma Steady.of_queue
    (hstatus : t.bacStatus = s.bacStatus) (hempty : s.ftq.targets = [] → t.ftq.targets = [])
    (hlock : s.ftq.status = .locked → t.ftq.status = .locked ∨ t.ftq.status = .invalid)
    (hinvalid : s.ftq.status = .invalid → t.ftq.status = .invalid)
    (hlocked : t.ftq.status = .locked → t.ftq.targets ≠ []) : Steady t where
  noFetchStall := hfetch.trans h.noFetchStall
  notBlocked := by
    rw [hstatus]
    exact h.notBlocked
  squashing hs := hempty (h.squashing (hstatus.symm.trans hs))
  ftqLocked hs := (h.ftqLocked (hstatus.symm.trans hs)).elim hlock fun hq => .inr (hinvalid hq)
  idle hs := (h.idle (hstatus.symm.trans hs)).imp hempty hinvalid
  locked := hlocked

lemma Steady.same (hftq : t.ftq = s.ftq) (hstatus : t.bacStatus = s.bacStatus) : Steady t := by
  refine h.of_queue hfetch hstatus ?_ ?_ ?_ ?_ <;> rw [hftq]
  · exact id
  · exact .inl
  · exact id
  · exact h.locked

/-- Fetch reads the queue only while the stage is neither squashing nor idle. -/
lemma Steady.branch (hhead : s.ftq.readHead = some ft)
    (hcore : Predecoded s.core.count t.core ft inst addr s.globalSeqNum)
    (hstatus : t.bacStatus = s.bacStatus) : Steady t := by
  obtain ⟨hready, _, htargets⟩ := targets_of_readHead hhead
  have hshape : t.ftq.shape = s.ftq.shape := (hcore.sameShape hhead).shape
  have hlock : t.ftq.status = .locked ∨ t.ftq.status = s.ftq.status := hcore.status
  refine h.of_queue hfetch hstatus ?_ ?_ ?_ ?_
  · rw [htargets]
    rintro ⟨⟩
  · exact fun hs => .inl (hlock.elim id fun hsame => hsame.trans hs)
  · exact fun hs => absurd hs hready
  · intro _ hempty
    unfold FTQ.shape at hshape
    rw [hempty, htargets] at hshape
    cases hshape

lemma Steady.popHead
    (hpop : Popped s.ftq t.ftq) (hstatus : t.bacStatus = s.bacStatus) : Steady t := by
  have hpopped : s.ftq.targets ≠ [] ∧ (t.ftq.status = .invalid ∨
      (t.ftq.status = s.ftq.status ∧ s.ftq.status ≠ .locked)) := by
    generalize t.ftq = q at hpop
    cases hpop with
    | kept _ _ htargets | unlocked _ _ htargets => simp [htargets]
    | popped _ _ htargets _ hlocked => simp [htargets, hlocked]
  obtain ⟨hne, hinvalid⟩ := hpopped
  refine h.of_queue hfetch hstatus (fun hempty => absurd hempty hne) ?_ ?_ ?_
  · exact fun hs => hinvalid.elim .inr fun hx => absurd hs hx.2
  · exact fun hs => hinvalid.elim id fun hx => hx.1.trans hs
  · intro hs
    rcases hinvalid with hinvalid | ⟨hsame, hunlocked⟩
    · exact absurd (hinvalid.symm.trans hs) (by decide)
    · exact absurd (hsame.symm.trans hs) hunlocked

lemma Steady.bacResteer
    (hftq : t.ftq = s.ftq.invalidate) (hstatus : t.bacStatus = s.bacStatus) : Steady t := by
  unfold FTQ.invalidate at hftq
  split at hftq
  · exact h.same hfetch hftq hstatus
  · refine h.of_queue hfetch hstatus ?_ ?_ ?_ ?_ <;> rw [hftq]
    · exact id
    · exact fun _ => .inr rfl
    · exact fun _ => rfl
    · rintro ⟨⟩

lemma Steady.moved {op : FrontEndOp B} (hmove : Moved c s t op) : Steady t := by
  cases hmove with
  | tick _ _ _ _ checked generated =>
    exact h.tick (hfetch.trans h.noFetchStall) checked generated
  | branch _ _ _ _ _ _ head core status => exact h.branch hfetch head core status
  | plain _ _ _ _ _ core status =>
    exact h.same hfetch (congrArg Core.ftq core) status
  | popHead q pop core status =>
    have hftq : t.ftq = q := congrArg Core.ftq core
    exact h.popHead hfetch (hftq ▸ pop) status
  | bacResteer core status => exact h.bacResteer hfetch (congrArg Core.ftq core) status
  | drainStall core status | drainResume core status | btbEvent _ core status =>
    exact h.same hfetch (congrArg Core.ftq core) status

end

lemma reached_steady (hdec : c.decoupledFrontEnd = true) {btb : B.State} {pc : PCState}
    {ops : List (FrontEndOp B)} (h : Reached c btb pc ops s) : Steady s := by
  refine run_invariant_always Steady ?_ (steady_init btb pc) h
  intro s op t hs hstep
  obtain ⟨hmove, hfetch⟩ := (meets_step hdec s op).of_ok hstep
  exact hs.moved hfetch hmove

lemma reached_linked (hdec : c.decoupledFrontEnd = true) {btb : B.State} {pc : PCState}
    {ops : List (FrontEndOp B)} (h : Reached c btb pc ops s) : Linked c s.core := by
  refine run_invariant_always (fun s => Linked c s.core) ?_ (linked_of_empty rfl) h
  intro s op t hs hstep
  exact hs.moved ((meets_step hdec s op).of_ok hstep).1.queueMove

/-- With at least one entry the queue never overflows, and its targets are numbered in order
and follow each other. -/
theorem fetch_targets_linked (hdec : c.decoupledFrontEnd = true) (hn : 0 < c.numFTQEntries)
    {btb : B.State} {pc : PCState} {ops : List (FrontEndOp B)} {s : FrontEnd B}
    (h : Reached c btb pc ops s) :
    s.ftq.targets.Pairwise (fun a b => a.ftNum < b.ftNum) ∧ s.ftq.targets.IsChain Follows ∧
    s.ftq.size ≤ c.numFTQEntries ∧ ∀ op, s.step c op ≠ .error .ftqInsert := by
  have hlinked := reached_linked hdec h
  refine ⟨hlinked.increasing, hlinked.follows, hlinked.size, ?_⟩
  intro op hfault
  have hinsert := (meets_step hdec s op).of_error hfault
  refine hinsert ?_ rfl
  intro tid sig answers u _ hchecked hactive
  exact hchecked.room (reached_steady hdec h) hn hactive

/-- One cycle fills a queue of two. -/
theorem fetch_targets_linked_small :
    ∃ s, ReachedSmall (.small 2) [quietTick] s ∧ s.ftq.size = 2 ∧
      s.ftq.targets.IsChain Follows := by
  obtain ⟨s, hs, hsize⟩ :=
    exists_reached (.small 2) [quietTick] (fun s => s.ftq.size == 2) (by decide +kernel)
  exact ⟨s, hs, eq_of_beq hsize, (fetch_targets_linked rfl (by decide) hs).2.1⟩

/-- The assertion of `FTQ::insert` fails. -/
def overflows {φ α : Type} (x : Except (FrontEndFault φ) α) : Bool :=
  match x with
  | .error .ftqInsert => true
  | _ => false

lemma eq_error_of_overflows {φ α : Type} {x : Except (FrontEndFault φ) α}
    (h : overflows x = true) : x = .error .ftqInsert := by
  unfold overflows at h
  split at h
  · rfl
  · cases h

/-- A queue without entries is always full; after a squash the stage nevertheless runs. -/
theorem queue_without_entries_overflows :
    (FrontEndParams.small 0).decoupledFrontEnd = true ∧
    ∃ s, ReachedSmall (.small 0)
      [.tick 0 { Signals.quiet with commitSquash := some ⟨.ofAddr 100, 0, false, false⟩ }
        fun _ => .notTaken] s ∧
      s.step (.small 0) quietTick = .error .ftqInsert := by
  refine ⟨rfl, ?_⟩
  obtain ⟨s, hs, hfault⟩ := exists_reached (.small 0)
    [.tick 0 { Signals.quiet with commitSquash := some ⟨.ofAddr 100, 0, false, false⟩ }
    fun _ => .notTaken]
    (fun s => overflows (s.step (.small 0) quietTick))
    (by decide +kernel)
  exact ⟨s, hs, eq_error_of_overflows hfault⟩

end FrontEnd

end BTBFerret
