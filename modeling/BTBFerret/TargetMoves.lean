import BTBFerret.HistoryMoves

/-!
# Moves of the front end

The second half of a cycle pushes fetch targets, and predecoding moves the history
of a branch from the queue to the thread, or creates one. With the signals of the
first half these are all moves of the core.
-/

namespace BTBFerret

open FallibleRuns Bool List

structure Pushed (c : FrontEndParams) (k k' : Core) (ft : FetchTarget) (nextPC : PCState) :
    Prop where
  room : k.ftq.isFull c.numFTQEntries = false
  start : ft.startPC = k.bacPC
  ftNum : ft.ftNum = k.globalFTSeqNum
  next : ft.predPC = some nextPC
  history : ∀ h, ft.bpuHistory = some h →
    h.id = k.nextHistory ∧ h.pc = ft.endAddress ∧ ft.isBranch = true
  moved : k' = k.push ft nextPC

def StaticInst.notLast (inst : StaticInst) : Bool := inst.isMicroop && !inst.isLastMicroop

def FetchTarget.behind (ft : FetchTarget) (c : FrontEndParams) : Addr :=
  ft.endAddress + BitVec.ofNat 64 c.minInstSize

/-- A target leads to the address behind it, unless it has the history of a branch predicted taken;
after a branch in the middle of an instruction, behind that instruction. -/
structure Aimed (c : FrontEndParams) (ft : FetchTarget) : Prop where
  plain : ft.bpuHistory = none → ft.nextAddress = some (ft.behind c)
  branch : ∀ h, ft.bpuHistory = some h → ft.isBranch = true
  untaken : ∀ h, ft.bpuHistory = some h → h.inst.notLast = false → h.predTaken = false →
    ft.nextAddress = some (ft.behind c)
  micro : ∀ h, ft.bpuHistory = some h → h.inst.notLast = true →
    ft.nextAddress = some (ft.endAddress + BitVec.ofNat 64 h.inst.size)

def AllAimed (c : FrontEndParams) (q : FTQ) : Prop := ∀ ft ∈ q.targets, Aimed c ft

/-- What holds of the targets in the queue and of the new one. -/
lemma Pushed.targets {c : FrontEndParams} {k k' : Core} {ft : FetchTarget} {nextPC : PCState}
    {P : FetchTarget → Prop} (h : Pushed c k k' ft nextPC) (hnew : P ft)
    (hold : ∀ ft ∈ k.ftq.targets, P ft) :
    ∀ ft ∈ k'.ftq.targets, P ft := by
  rw [h.moved]
  exact forall_mem_append.mpr ⟨hold, forall_mem_singleton.mpr hnew⟩

/-- Fetch targets enter the queue one after the other. -/
def Pushes (c : FrontEndParams) : Core → Core → Prop :=
  Relation.ReflTransGen (fun k k' => ∃ ft nextPC, Pushed c k k' ft nextPC)

namespace FrontEnd

variable {B : BranchTargetBuffer} {c : FrontEndParams}

open BPredUnit

/-! ## Generating fetch targets -/

variable (s : FrontEnd B) (tid : ThreadID) (ans : Answers)

lemma meets_advanceL1PredPC :
    Meets (s.advanceL1PredPC c ans) (fun t => t.core = s.core ∧ Frame s t) NotInsert := by
  refine (meets_predictL1 s.bpu ans 0 _).bind ?_
  rintro ⟨bpu, target⟩ hsame
  exact ⟨core_bpu hsame, rfl, rfl, rfl⟩

lemma meets_startFalsePath (startAddr : Addr) :
    Meets (s.startFalsePath c ans startAddr) (fun t => t.core = s.core ∧ Frame s t) NotInsert := by
  unfold startFalsePath
  split
  · exact (meets_advanceL1PredPC { s with falsePathCurAddr := startAddr } ans).mono
      (fun _ h => ⟨h.1, h.2.1, h.2.2, h.2.3⟩) (fun _ h => h)
  · exact ⟨rfl, Frame.refl s⟩

structure Completed (s t : FrontEnd B) (ft ft' : FetchTarget) (nextPC : PCState) : Prop where
  start : ft'.startPC = ft.startPC
  ftNum : ft'.ftNum = ft.ftNum
  real : ft'.isOverrideFT = ft.isOverrideFT
  next : ft'.predPC = some nextPC
  history : ∀ h, ft'.bpuHistory = some h →
    h.id = s.bpu.nextHistory ∧ h.pc = ft'.endAddress ∧ ft'.isBranch = true
  core : t.core = { s.core with
    nextHistory := if ft'.bpuHistory.isSome then s.bpu.nextHistory + 1 else s.bpu.nextHistory }
  status : t.bacStatus = s.bacStatus
  stalls : t.stalls = s.stalls

structure Attached (s t : FrontEnd B) (ft ft' : FetchTarget) (exitPC : PCState)
    (h : PredictorHistory) : Prop where
  target : ft' = { ft with bpuHistory := some h }
  id : h.id = s.bpu.nextHistory
  pc : h.pc = exitPC.instAddr
  core : t.core = s.core.create
  status : t.bacStatus = s.bacStatus
  stalls : t.stalls = s.stalls

lemma meets_attach (tid : ThreadID) (inst : StaticInst) (ft : FetchTarget) (exitPC : PCState) :
    Meets (s.predict c ans tid inst ft exitPC)
      (fun r => ∃ h, Attached s r.1 ft r.2.1 exitPC h ∧ h.inst = inst ∧
        h.predTaken = r.2.2.2.taken) NotInsert := by
  unfold predict
  split
  · intro h
    cases h
  · refine (meets_predict c s.bpu ans inst ft.ftNum exitPC tid).bind ?_
    rintro ⟨bpu, h, pc, pred⟩ ⟨hr, hinst⟩
    refine ⟨h, ⟨rfl, hr.id, hr.pc, ?_, rfl, rfl⟩, hinst⟩
    unfold core Core.create
    rw [hr.predHist, hr.log, hr.nextHistory]

variable (ft : FetchTarget)

lemma meets_predictExit (exitPC : PCState) :
    Meets (s.predictExit c ans tid ft exitPC)
      (fun r => ∃ h, Attached s r.1 ft r.2.1 exitPC h ∧ h.inst = r.2.2.2.2 ∧
        h.predTaken = r.2.2.2.1) NotInsert := by
  unfold predictExit
  split
  · intro h
    cases h
  · rename_i inst _
    dsimp only
    -- noting the start of the block changes nothing in the core
    have hstart : (if c.blockBTB then { s with
        bpu := s.bpu.setBlockStartAddr tid ft.startAddress } else s).core = s.core ∧
        Frame s (if c.blockBTB then { s with
          bpu := s.bpu.setBlockStartAddr tid ft.startAddress } else s) := by
      split
      · exact ⟨rfl, rfl, rfl, rfl⟩
      · exact ⟨rfl, Frame.refl s⟩
    generalize (if c.blockBTB then { s with
        bpu := s.bpu.setBlockStartAddr tid ft.startAddress } else s) = t at hstart
    obtain ⟨hcore, hframe⟩ := hstart
    have hnext : t.bpu.nextHistory = s.bpu.nextHistory := congrArg Core.nextHistory hcore
    refine (meets_attach t ans tid inst ft exitPC).bind ?_
    rintro ⟨u, ft', pc, pred⟩ ⟨h, hu, hinst⟩
    refine ⟨h, ⟨hu.target, hu.id.trans hnext, hu.pc, ?_, hu.status.trans hframe.bacStatus,
      hu.stalls.trans hframe.stalls⟩, hinst⟩
    rw [← hcore]
    exact hu.core

lemma nextTargetPC_none (exitPC predictedPC : PCState) :
    (nextTargetPC c exitPC predictedPC false none).instAddr =
      exitPC.instAddr + BitVec.ofNat 64 c.minInstSize := rfl

lemma nextTargetPC_untaken {inst : StaticInst} {exitPC predictedPC : PCState}
    (hlast : inst.notLast = false) :
    (nextTargetPC c exitPC predictedPC false (some inst)).instAddr =
      exitPC.instAddr + BitVec.ofNat 64 c.minInstSize := by
  unfold StaticInst.notLast at hlast
  unfold nextTargetPC
  simp only [hlast, false_eq_true, if_false]
  rfl

lemma nextTargetPC_micro {inst : StaticInst} {exitPC predictedPC : PCState} {taken : Bool}
    (hlast : inst.notLast = true) : (nextTargetPC c exitPC predictedPC taken (some inst)).instAddr =
      exitPC.instAddr + BitVec.ofNat 64 inst.size := by
  unfold StaticInst.notLast at hlast
  unfold nextTargetPC
  simp only [hlast, if_true]
  rfl

lemma meets_completeTarget (hft : ft.bpuHistory = none) (exitPC : PCState) (branchFound : Bool) :
    Meets (s.completeTarget c tid ans ft exitPC branchFound)
      (fun r => Completed s r.1 ft r.2.1 r.2.2.1 ∧ Aimed c r.2.1 ∧
        r.2.1.endAddress = exitPC.instAddr) NotInsert := by
  unfold completeTarget
  split
  · refine (meets_predictExit s tid ans ft exitPC).bind ?_
    rintro ⟨t, ft', predictedPC, predTaken, inst⟩
      ⟨h, ⟨rfl, hid, hpc, hcore, hstatus, hstalls⟩, hinst, htaken⟩
    dsimp only at hinst htaken
    subst hinst
    refine ⟨?_, ?_, rfl⟩
    · refine ⟨rfl, rfl, rfl, rfl, ?_, hcore, hstatus, hstalls⟩
      rintro g hg
      obtain rfl := Option.some.inj hg
      exact ⟨hid, hpc, rfl⟩
    · constructor
      · rintro ⟨⟩
      · intro g _
        rfl
      · rintro g ⟨⟩ hlast huntaken
        rw [← htaken, huntaken]
        exact congrArg some (nextTargetPC_untaken hlast)
      · rintro g ⟨⟩ hlast
        exact congrArg some (nextTargetPC_micro hlast)
  · have hnone : (ft.finalize exitPC false false
        (nextTargetPC c exitPC exitPC false none)).bpuHistory = none := hft
    have hno : ∀ h, (ft.finalize exitPC false false
        (nextTargetPC c exitPC exitPC false none)).bpuHistory ≠ some h := by
      rw [hnone]
      rintro h ⟨⟩
    refine ⟨?_, ?_, rfl⟩
    · refine ⟨rfl, rfl, rfl, rfl, fun h hh => absurd hh (hno h), ?_, rfl, rfl⟩
      rw [hnone]
      rfl
    · exact ⟨fun _ => congrArg some (nextTargetPC_none exitPC exitPC),
        fun h hh => absurd hh (hno h), fun h hh => absurd hh (hno h),
        fun h hh => absurd hh (hno h)⟩

/-- `FTQ::insert` stops on a full queue only. -/
def RoomFor (c : FrontEndParams) (q : FTQ) (e : FrontEndFault B.Fault) : Prop :=
  q.isFull c.numFTQEntries = false → NotInsert e

lemma meets_ftqInsert (q : FTQ) (ft : FetchTarget) :
    Meets (q.insert c.numFTQEntries ft) (fun q' => q.isFull c.numFTQEntries = false ∧
      q' = if ft.isOverrideFT then q else { q with targets := q.targets ++ [ft] })
      (RoomFor (B := B) c q) := by
  unfold FTQ.insert
  split
  · rename_i hfull
    intro hroom
    rw [hfull] at hroom
    cases hroom
  · rename_i hroom
    rw [not_eq_true] at hroom
    split
    · exact ⟨hroom, rfl⟩
    · exact ⟨hroom, rfl⟩

lemma meets_generateFetchTarget :
    Meets (s.generateFetchTarget c tid ans)
      (fun r => (∃ ft nextPC, Pushed c s.core r.1.core ft nextPC ∧ Aimed c ft ∧ ft.endAddress =
          (findBranch c { s with globalFTSeqNum := s.globalFTSeqNum + 1 } tid s.bacPC.instAddr).1) ∧
        r.1.bacStatus = s.bacStatus ∧ r.1.stalls = s.stalls) (RoomFor c s.ftq) := by
  unfold generateFetchTarget
  refine ((meets_completeTarget _ tid ans _ rfl _ _).mono (fun _ h => h) (fun _ h _ => h)).bind ?_
  rintro ⟨t, ft, nextPC, predTaken⟩ ⟨hdone, hmade⟩
  refine ((meets_startFalsePath t ans _).mono (fun _ h => h) (fun _ h _ => h)).bind ?_
  rintro u ⟨hcore, hframe⟩
  have hu : u.core = _ := hcore.trans hdone.core
  have hftq : u.ftq = s.ftq := congrArg Core.ftq hu
  rw [hftq]
  refine (meets_ftqInsert s.ftq ft).bind ?_
  rintro q ⟨hroom, hq⟩
  have hreal : ft.isOverrideFT = false := hdone.real
  rw [hreal] at hq
  refine ⟨⟨ft, nextPC, ⟨hroom, hdone.start, hdone.ftNum, hdone.next, hdone.history, ?_⟩, hmade⟩,
    hframe.bacStatus.trans hdone.status, hframe.stalls.trans hdone.stalls⟩
  have hhist : u.bpu.predHist 0 = s.bpu.predHist 0 := congrArg Core.predHist hu
  have hlog : u.bpu.log = s.bpu.log := congrArg Core.log hu
  have hnext : u.bpu.nextHistory = _ := congrArg Core.nextHistory hu
  have hsn : u.globalSeqNum = s.globalSeqNum := congrArg Core.globalSeqNum hu
  have hftn : u.globalFTSeqNum = s.globalFTSeqNum + 1 := congrArg Core.globalFTSeqNum hu
  unfold core Core.push
  rw [hq, hhist, hlog, hnext, hsn, hftn]
  rfl

lemma meets_generateLoop (fts : Nat) : ∀ (takens : Nat) (answers : Nat → Answers)
    (s : FrontEnd B), Meets (generateLoop c tid fts takens answers s)
      (fun t => Pushes c s.core t.core ∧ (t.bacStatus = s.bacStatus ∨ t.bacStatus = .ftqFull) ∧
        t.stalls = s.stalls ∧ (AllAimed c s.ftq → AllAimed c t.ftq)) (RoomFor c s.ftq) := by
  induction fts with
  | zero =>
    intro takens answers s
    exact ⟨.refl, .inl rfl, rfl, id⟩
  | succ fts ih =>
    intro takens answers s
    cases takens with
    | zero => exact ⟨.refl, .inl rfl, rfl, id⟩
    | succ takens =>
      refine (meets_generateFetchTarget s tid (answers 0)).bind ?_
      rintro ⟨t, predTaken⟩ ⟨⟨ft, nextPC, hpush, hmade⟩, hstatus, hstalls⟩
      dsimp only at hpush hstatus hstalls ⊢
      have hpushed : ∃ ft nextPC, Pushed c s.core t.core ft nextPC := ⟨ft, nextPC, hpush⟩
      have haimed : AllAimed c s.ftq → AllAimed c t.ftq := hpush.targets hmade.1
      split
      · exact ⟨.single hpushed, .inr rfl, hstalls, haimed⟩
      · rename_i hroom
        rw [not_eq_true] at hroom
        split
        · exact ⟨.single hpushed, .inl hstatus, hstalls, haimed⟩
        · refine (ih _ _ t).mono ?_ (fun _ h _ => h hroom)
          rintro u ⟨hpushes, hu, hustalls, huaimed⟩
          refine ⟨.head hpushed hpushes, ?_, hustalls.trans hstalls, fun hs => huaimed (haimed hs)⟩
          rw [← hstatus]
          exact hu

/-- A target of the false path is dropped by the queue. -/
lemma meets_generateOverrideFetchTargets :
    Meets (s.generateOverrideFetchTargets c ans) (fun t => t.core = s.core ∧ Frame s t)
      (RoomFor c s.ftq) := by
  unfold generateOverrideFetchTargets
  split
  · exact ⟨rfl, Frame.refl s⟩
  · refine ((meets_advanceL1PredPC s ans).mono (fun _ h => h) (fun _ h _ => h)).bind ?_
    rintro t ⟨hcore, hframe⟩
    have hftq : t.ftq = s.ftq := congrArg Core.ftq hcore
    rw [hftq]
    refine (meets_ftqInsert s.ftq _).bind ?_
    rintro q ⟨_, hq⟩
    have hsame : q = t.ftq := hq.trans hftq.symm
    rw [hsame]
    exact ⟨hcore, hframe⟩

/-- What the second half of a cycle does. -/
inductive Generated (c : FrontEndParams) (s t : FrontEnd B) : Prop
  | targets (running : s.bacStatus = .running) (pushes : Pushes c s.core t.core)
      (status : t.bacStatus = .running ∨ t.bacStatus = .ftqFull)
  | nothing (rest : s.bacStatus ≠ .running) (core : t.core = s.core)
      (status : t.bacStatus = s.bacStatus)

lemma meets_generate (answers : Nat → Answers) :
    Meets (s.generate c tid answers)
      (fun t => Generated c s t ∧ t.stalls = s.stalls ∧ (AllAimed c s.ftq → AllAimed c t.ftq))
      (fun e => (s.bacStatus = .running ∨ s.bacStatus = .overriding →
        s.ftq.isFull c.numFTQEntries = false) → NotInsert e) := by
  unfold generate
  split
  · rename_i hrun
    refine (meets_generateLoop tid _ _ _ s).mono ?_ (fun _ h hroom => h (hroom (.inl hrun)))
    rintro t ⟨hpushes, hstatus, hrest⟩
    rw [hrun] at hstatus
    exact ⟨.targets hrun hpushes hstatus, hrest⟩
  · rename_i hrest
    split
    · rename_i hover
      refine (meets_generateOverrideFetchTargets s _).mono ?_
        (fun _ h hroom => h (hroom (.inr hover)))
      rintro t ⟨hcore, hframe⟩
      have hftq : t.ftq = s.ftq := congrArg Core.ftq hcore
      rw [hftq]
      exact ⟨.nothing hrest hcore hframe.bacStatus, hframe.stalls, id⟩
    · exact ⟨.nothing hrest rfl rfl, rfl, id⟩

/-! ## Predecoding -/

def exitHistory (addr : Addr) : Option PredictorHistory :=
  if ft.isExitBranch addr then ft.bpuHistory else none

def recovers (inst : StaticInst) (addr : Addr) : Bool :=
  match exitHistory ft addr with
  | some h => h.type != getBranchType inst
  | none => inst.isMicroop && !inst.isLastMicroop

/-- Where the history of a predecoded branch comes from. -/
inductive Found (k : Core) (ft : FetchTarget) (inst : StaticInst) (addr : Addr) :
    Core → PredictorHistory → Prop
  | moved (h : PredictorHistory) (hexit : exitHistory ft addr = some h)
      (hrec : recovers ft inst addr = false) :
      Found k ft inst addr { k with ftq := k.ftq.setHead ft.withoutHistory } h
  | recovered (h : PredictorHistory) (hrec : recovers ft inst addr = true)
      (hid : h.id = k.nextHistory) (hpc : h.pc = addr) :
      Found k ft inst addr k.undoQueue.lock.create h
  | placeholder (h : PredictorHistory) (hexit : exitHistory ft addr = none)
      (hrec : recovers ft inst addr = false) (hid : h.id = k.nextHistory) (hpc : h.pc = addr) :
      Found k ft inst addr k.create h

/-- Where the history of a predecoded branch is from, and whether its target is known already. -/
inductive HistoryFrom (q : FTQ) (ft : FetchTarget) (addr : Addr) :
    FTQ → PredictorHistory → Option PCState → Prop
  | head (h : PredictorHistory) (hexit : exitHistory ft addr = some h) :
      HistoryFrom q ft addr (q.setHead ft.withoutHistory) h none
  | placeholder (h : PredictorHistory) (hexit : exitHistory ft addr = none)
      (huntaken : h.predTaken = false) : HistoryFrom q ft addr q h none
  | recovered (q' : FTQ) (hq : q'.status = .locked) (h : PredictorHistory)
      (nextPC : Option PCState) : HistoryFrom q ft addr q' h nextPC

/-- The history gets the number of the instruction and, for the specification, of the target. -/
structure Enters (seqNum : InstSeqNum) (ft : FetchTarget) (h g : PredictorHistory) : Prop where
  id : g.id = h.id
  pc : g.pc = h.pc
  startAddress : g.startAddress = ft.startAddress
  seqNum : g.seqNum = seqNum
  ftNum : g.ftNum = ft.ftNum

lemma setHead_readHead {q : FTQ} {ft : FetchTarget} (hhead : q.readHead = some ft) :
    q.setHead ft = q := by
  unfold FTQ.readHead at hhead
  split at hhead
  · cases hhead
  · unfold FTQ.setHead
    rw [cons_head?_tail hhead]

lemma histories_undoQueue (k : Core) : k.undoQueue.ftq.histories = [] := by
  unfold FTQ.histories
  rw [filterMap_eq_nil_iff]
  intro ft hft
  obtain ⟨ft', _, rfl⟩ := mem_map.mp hft
  rfl

lemma undoQueue_undoQueue (k : Core) : k.undoQueue.lock.undoQueue.lock = k.undoQueue.lock := by
  have hnone : k.undoQueue.lock.ftq.histories = [] := histories_undoQueue k
  have htargets : k.undoQueue.lock.ftq.targets.map FetchTarget.withoutHistory =
      k.undoQueue.lock.ftq.targets := by
    change (k.ftq.targets.map _).map _ = k.ftq.targets.map _
    rw [map_map]
    rfl
  unfold Core.undoQueue at hnone htargets ⊢
  unfold Core.lock at hnone htargets ⊢
  dsimp only [FTQ.lock] at hnone htargets ⊢
  rw [htargets]
  simp only [FTQ.histories] at hnone ⊢
  rw [hnone, reverse_nil, map_nil, append_nil]

lemma takeHistory_eq (pc : PCState) :
    s.takeHistory ft pc = match exitHistory ft pc.instAddr with
      | some h => ({ s with ftq := s.ftq.setHead ft.withoutHistory }, some h)
      | none => (s, none) := by
  unfold takeHistory exitHistory
  cases hexit : ft.isExitBranch pc.instAddr
  · rfl
  · cases hhist : ft.bpuHistory
    · rfl
    · rfl

section

variable (hdec : c.decoupledFrontEnd = true)
include hdec

variable (s : FrontEnd B)

lemma core_recover :
    ({ s.squashBpuHistories c with ftq := (s.squashBpuHistories c).ftq.lock } : FrontEnd B).core =
        s.core.undoQueue.lock ∧
      Frame s { s.squashBpuHistories c with ftq := (s.squashBpuHistories c).ftq.lock } := by
  obtain ⟨hcore, hframe⟩ := core_squashBpuHistories hdec s
  refine ⟨?_, hframe.bacStatus, hframe.stalls, hframe.branchPredictRemaining⟩
  rw [← hcore]
  rfl

lemma meets_predictMicroBranch (ans : Answers) (tid : ThreadID) (inst : StaticInst)
    (ft : FetchTarget) (pc : PCState) :
    Meets (s.predictMicroBranch c ans tid inst ft pc) (fun r => r.2.1.id = s.bpu.nextHistory ∧
      r.2.1.pc = pc.instAddr ∧ r.1.core = s.core.undoQueue.lock.create ∧ Frame s r.1)
      NotInsert := by
  obtain ⟨hcore, hframe⟩ := core_recover hdec s
  unfold predictMicroBranch
  generalize s.squashBpuHistories c = t at hcore hframe
  have hnext : t.bpu.nextHistory = s.bpu.nextHistory := congrArg Core.nextHistory hcore
  refine (meets_predict c t.bpu ans inst ft.ftNum pc tid).bind ?_
  rintro ⟨bpu, h, pc', pred⟩ ⟨hr, _⟩
  refine ⟨hr.id.trans hnext, hr.pc, ?_, hframe.bacStatus, hframe.stalls,
    hframe.branchPredictRemaining⟩
  rw [← hcore]
  unfold core Core.create
  rw [hr.predHist, hr.log, hr.nextHistory]

lemma meets_branchHistory (ans : Answers) (tid : ThreadID) (seqNum : InstSeqNum)
    (inst : StaticInst) (ft : FetchTarget) (hhead : s.ftq.readHead = some ft) (pc : PCState) :
    Meets (s.branchHistory c ans tid seqNum inst ft pc)
      (fun r => (Found s.core ft inst pc.instAddr r.1.core r.2.1 ∧ Frame s r.1) ∧
        HistoryFrom s.ftq ft pc.instAddr r.1.ftq r.2.1 r.2.2) NotInsert := by
  unfold branchHistory
  rw [takeHistory_eq]
  cases hexit : exitHistory ft pc.instAddr with
  | none =>
    dsimp only [checkType]
    split
    · rename_i hmicro
      have hrec : recovers ft inst pc.instAddr = true := by
        unfold recovers
        rw [hexit]
        exact hmicro
      refine (meets_predictMicroBranch hdec s ans tid inst ft pc).bind ?_
      rintro ⟨t, h, nextPC⟩ ⟨hid, hpc, hcore, hframe⟩
      refine ⟨⟨?_, hframe⟩, .recovered _ (congrArg (fun k => k.ftq.status) hcore) h _⟩
      rw [hcore]
      exact .recovered h hrec hid hpc
    · rename_i hmicro
      have hrec : recovers ft inst pc.instAddr = false := by
        unfold recovers
        rw [hexit]
        exact not_eq_true _ ▸ hmicro
      exact ⟨⟨.placeholder _ hexit hrec rfl rfl, rfl, rfl, rfl⟩, .placeholder _ hexit rfl⟩
  | some h =>
    dsimp only [checkType]
    by_cases htype : h.type = getBranchType inst
    · have hrec : recovers ft inst pc.instAddr = false := by
        unfold recovers
        rw [hexit]
        simpa using htype
      rw [if_pos htype]
      exact ⟨⟨.moved h hexit hrec, rfl, rfl, rfl⟩, .head h hexit⟩
    · have hrec : recovers ft inst pc.instAddr = true := by
        unfold recovers
        rw [hexit]
        simpa using htype
      rw [if_neg htype]
      -- the history is pushed back, so that the head is as it was
      have hback : ({ { s with ftq := s.ftq.setHead ft.withoutHistory } with
          ftq := (s.ftq.setHead ft.withoutHistory).setHead ft } : FrontEnd B) = s := by
        have hset : (s.ftq.setHead ft.withoutHistory).setHead ft = s.ftq := setHead_readHead hhead
        rw [hset]
      dsimp only at hback ⊢
      rw [hback]
      obtain ⟨hcore, hframe⟩ := core_recover hdec s
      generalize ({ s.squashBpuHistories c with ftq := (s.squashBpuHistories c).ftq.lock } :
        FrontEnd B) = t at hcore hframe
      have hnext : t.bpu.nextHistory = s.bpu.nextHistory := congrArg Core.nextHistory hcore
      split
      · refine (meets_predictMicroBranch hdec t ans tid inst ft pc).bind ?_
        rintro ⟨u, g, nextPC⟩ ⟨hid, hpc, hu, hframe'⟩
        refine ⟨⟨?_, hframe'.bacStatus.trans hframe.bacStatus, hframe'.stalls.trans hframe.stalls,
          hframe'.branchPredictRemaining.trans hframe.branchPredictRemaining⟩,
          .recovered _ (congrArg (fun k => k.ftq.status) hu) g _⟩
        rw [hu, hcore, undoQueue_undoQueue]
        exact .recovered g hrec (hid.trans hnext) hpc
      · refine ⟨⟨?_, hframe.bacStatus, hframe.stalls, hframe.branchPredictRemaining⟩,
          .recovered _ (congrArg (fun k => k.ftq.status) hcore) _ _⟩
        have hplaced : ({ t with bpu := { t.bpu with nextHistory := t.bpu.nextHistory + 1 } } :
            FrontEnd B).core = s.core.undoQueue.lock.create := by
          rw [← hcore]
          rfl
        dsimp only [branchPlaceholder, newHistory]
        rw [hplaced]
        exact .recovered _ hrec hnext rfl

omit hdec in
lemma meets_nextFetchPC (hist : PredictorHistory) (inst : StaticInst) (pc : PCState)
    (predictedPC : Option PCState) :
    Meets (nextFetchPC (B := B) c ft hist inst pc predictedPC) (fun _ => True) NotInsert := by
  unfold nextFetchPC predecodedPC
  split
  · trivial
  · split
    · split
      · trivial
      · intro h
        cases h
    · trivial

omit hdec in
lemma core_insertPredictorHistory (h : PredictorHistory) :
    ({ s with bpu := s.bpu.insertPredictorHistory 0 h } : FrontEnd B).core = s.core.insert h := by
  unfold core BPredUnit.insertPredictorHistory Core.insert
  dsimp only
  rw [Function.update_self]

structure Predecoded (k k' : Core) (ft : FetchTarget) (inst : StaticInst) (addr : Addr)
    (seqNum : InstSeqNum) : Prop where
  inRange : ft.inRange addr = true
  entered : ∃ u h g, Found k ft inst addr u h ∧ Enters seqNum ft h g ∧ k' = u.insert g

lemma meets_updatePreDecode (ans : Answers) (seqNum : InstSeqNum) (inst : StaticInst)
    (pc : PCState) (ft : FetchTarget) (hhead : s.ftq.readHead = some ft) :
    Meets (s.updatePreDecode c ans 0 seqNum inst pc ft)
      (fun r => Predecoded s.core r.1.core ft inst pc.instAddr seqNum ∧ Frame s r.1) NotInsert := by
  unfold updatePreDecode
  split
  · intro h
    cases h
  · rename_i hrange
    rw [not_eq_true, not_eq_false'] at hrange
    refine (meets_branchHistory hdec s ans 0 seqNum inst ft hhead pc).bind ?_
    rintro ⟨t, h, predictedPC⟩ ⟨⟨hfound, hframe⟩, _⟩
    dsimp only at hfound hframe ⊢
    split
    · intro h
      cases h
    · refine (meets_nextFetchPC ft _ inst pc predictedPC).bind ?_
      intro nextPC _
      let g : PredictorHistory :=
        { h with startAddress := ft.startAddress, seqNum := seqNum, ftNum := ft.ftNum }
      exact ⟨⟨hrange, t.core, h, g, hfound, ⟨rfl, rfl, rfl, rfl, rfl⟩,
        core_insertPredictorHistory t g⟩,
        hframe.bacStatus, hframe.stalls, hframe.branchPredictRemaining⟩

/-! ## Steps -/

inductive Popped (q : FTQ) : FTQ → Prop
  | kept (head : FetchTarget) (rest : List FetchTarget) (htargets : q.targets = head :: rest)
      (hhist : head.bpuHistory.isSome = true) : Popped q { q with status := .invalid }
  | unlocked (head : FetchTarget) (rest : List FetchTarget) (htargets : q.targets = head :: rest)
      (hhist : head.bpuHistory = none) (hlocked : q.status = .locked) : Popped q ⟨rest, .invalid⟩
  | popped (head : FetchTarget) (rest : List FetchTarget) (htargets : q.targets = head :: rest)
      (hhist : head.bpuHistory = none) (hlocked : q.status ≠ .locked) : Popped q ⟨rest, q.status⟩

omit hdec in
lemma meets_popHead (q : FTQ) :
    Meets (q.popHead : Attempt B (FTQ × Bool)) (fun r => Popped q r.1)
      NotInsert := by
  unfold FTQ.popHead
  split
  · intro h
    cases h
  · rename_i head rest htargets
    split
    · rename_i hhist
      exact .kept head rest htargets hhist
    · rename_i hhist
      rw [not_eq_true, Option.isSome_eq_false_iff, Option.isNone_iff_eq_none] at hhist
      split
      · rename_i hlocked
        exact .unlocked head rest htargets hhist hlocked
      · rename_i hlocked
        exact .popped head rest htargets hhist hlocked

inductive Moved (c : FrontEndParams) (s t : FrontEnd B) : FrontEndOp B → Prop
  | tick (tid : ThreadID) (sig : Signals) (answers : Nat → Answers) (u : FrontEnd B)
      (checked : Checked c sig s u) (generated : Generated c u t) :
      Moved c s t (.tick tid sig answers)
  | branch (tid : ThreadID) (inst : StaticInst) (pc : PCState) (ans : Answers) (ft : FetchTarget)
      (control : inst.isControl = true) (head : s.ftq.readHead = some ft)
      (core : Predecoded s.core.count t.core ft inst pc.instAddr s.globalSeqNum)
      (status : t.bacStatus = s.bacStatus) : Moved c s t (.updatePC tid inst pc ans)
  | plain (tid : ThreadID) (inst : StaticInst) (pc : PCState) (ans : Answers)
      (control : inst.isControl = false) (core : t.core = s.core.count)
      (status : t.bacStatus = s.bacStatus) : Moved c s t (.updatePC tid inst pc ans)
  | popHead (q : FTQ) (pop : Popped s.ftq q) (core : t.core = { s.core with ftq := q })
      (status : t.bacStatus = s.bacStatus) : Moved c s t .popHead
  | bacResteer (core : t.core = { s.core with ftq := s.ftq.invalidate })
      (status : t.bacStatus = s.bacStatus) : Moved c s t .bacResteer
  | drainStall (core : t.core = s.core) (status : t.bacStatus = s.bacStatus) :
      Moved c s t .drainStall
  | drainResume (core : t.core = s.core) (status : t.bacStatus = s.bacStatus) :
      Moved c s t .drainResume
  | btbEvent (e : B.Event) (core : t.core = s.core) (status : t.bacStatus = s.bacStatus) :
      Moved c s t (.btbEvent e)

/-- Only a cycle that generates targets into a full queue stops in `FTQ::insert`. -/
def RoomIn (c : FrontEndParams) (s : FrontEnd B) (op : FrontEndOp B) : Prop :=
  ∀ tid sig answers (u : FrontEnd B), op = .tick tid sig answers → Checked c sig s u →
    u.bacStatus = .running ∨ u.bacStatus = .overriding → u.ftq.isFull c.numFTQEntries = false

lemma meets_tick (tid : ThreadID) (sig : Signals) (answers : Nat → Answers) :
    Meets (s.tick c 0 sig answers)
      (fun t => Moved c s t (.tick tid sig answers) ∧ SameStalls s t)
      (fun e => RoomIn c s (.tick tid sig answers) → NotInsert e) := by
  unfold tick
  rw [if_pos hdec]
  refine ((meets_checkSignalsAndUpdate hdec s sig).mono (fun _ h => h) (fun _ h _ => h)).bind ?_
  rintro u ⟨hchecked, hsame⟩
  refine (meets_generate u 0 answers).mono ?_
    (fun _ h hroom => h (hroom tid sig answers u rfl hchecked))
  rintro t ⟨hgen, hstalls, _⟩
  refine ⟨.tick tid sig answers u hchecked hgen, ?_, ?_⟩
  · rw [hstalls]
    exact hsame.fetch
  · rw [hstalls]
    exact hsame.drain

lemma meets_updatePC (tid : ThreadID) (inst : StaticInst) (pc : PCState) (ans : Answers) :
    Meets (s.updatePC c ans 0 inst pc)
      (fun r => Moved c s r.1 (.updatePC tid inst pc ans) ∧ SameStalls s r.1 ∧
        r.1.branchPredictRemaining = s.branchPredictRemaining) NotInsert := by
  unfold updatePC
  rw [if_pos hdec]
  split
  · intro h
    cases h
  · rename_i ft hhead
    unfold updatePCFromTarget
    split
    · rename_i hctrl
      refine (meets_updatePreDecode hdec { s with globalSeqNum := s.globalSeqNum + 1 } ans
        s.globalSeqNum inst pc ft hhead).bind ?_
      rintro ⟨t, nextPC, taken⟩ ⟨hpre, hframe⟩
      exact ⟨.branch tid inst pc ans ft hctrl hhead hpre hframe.bacStatus,
        sameStalls_of_eq hframe.stalls, hframe.branchPredictRemaining⟩
    · rename_i hctrl
      rw [not_eq_true] at hctrl
      exact ⟨.plain tid inst pc ans hctrl rfl rfl, ⟨rfl, rfl⟩, rfl⟩

lemma meets_step (op : FrontEndOp B) :
    Meets (s.step c op) (fun t => Moved c s t op ∧ t.stalls.fetch = s.stalls.fetch)
      (fun e => RoomIn c s op → NotInsert e) := by
  have hthread : ∀ tid, c.thread tid = 0 := fun tid => if_pos hdec
  cases op with
  | tick tid sig answers =>
    dsimp only [step]
    rw [hthread]
    exact (meets_tick hdec s tid sig answers).mono (fun _ h => ⟨h.1, h.2.fetch⟩) (fun _ h => h)
  | updatePC tid inst pc ans =>
    dsimp only [step]
    rw [hthread]
    rw [meets_map]
    exact (meets_updatePC hdec s tid inst pc ans).mono (fun _ h => ⟨h.1, h.2.1.fetch⟩)
      (fun _ h _ => h)
  | popHead =>
    refine ((meets_popHead s.ftq).mono (fun _ h => h) (fun _ h _ => h)).bind ?_
    rintro ⟨q, ready⟩ hpop
    exact ⟨.popHead q hpop rfl rfl, rfl⟩
  | bacResteer => exact ⟨.bacResteer rfl rfl, rfl⟩
  | drainStall => exact ⟨.drainStall rfl rfl, rfl⟩
  | drainResume => exact ⟨.drainResume rfl rfl, rfl⟩
  | btbEvent e =>
    refine ((meets_ofBTB _).mono (fun _ h => h) (fun _ h _ => h)).bind ?_
    intro btb _
    exact ⟨.btbEvent e rfl rfl, rfl⟩

end

end FrontEnd

end BTBFerret
