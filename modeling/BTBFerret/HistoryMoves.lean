import BTBFerret.FrontEndRuns

/-!
# What the front end does to histories and fetch targets

The core of the front end orders the branches in flight: the queue, the histories of the thread, the
log of those that left, the PC and the counters. Every function of the decoupled front end is one of
a few moves of the core, whatever BTB and predictors answer.
-/

namespace BTBFerret

open FallibleRuns List Function

/-- The part of the front end that orders the branches in flight. -/
structure Core where
  ftq : FTQ
  predHist : List PredictorHistory
  log : List HistoryEvent
  nextHistory : Nat
  bacPC : PCState
  globalSeqNum : InstSeqNum
  globalFTSeqNum : FTSeqNum

namespace Core

variable (k : Core)

def undoQueue : Core :=
  { k with
    ftq := { k.ftq with targets := k.ftq.targets.map FetchTarget.withoutHistory }
    log := k.log ++ k.ftq.histories.reverse.map .squashed }

/-- The queue starts again at a PC. -/
def restart (pc : PCState) : Core := { k with ftq := ⟨[], .valid⟩, bacPC := pc }

/-- The histories after a sequence number are undone, the youngest first. -/
def undoYounger (sn : InstSeqNum) : Core :=
  { k with
    predHist := k.predHist.dropWhile (fun h => sn < h.seqNum)
    log := k.log ++ (k.predHist.takeWhile (fun h => sn < h.seqNum)).map .squashed }

/-- The histories up to a sequence number are committed, the oldest first. -/
def commit (sn : InstSeqNum) : Core :=
  { k with
    predHist := (k.predHist.reverse.dropWhile (fun h => h.seqNum ≤ sn)).reverse
    log := k.log ++ (k.predHist.reverse.takeWhile (fun h => h.seqNum ≤ sn)).map .committed }

def commitDone (sn : InstSeqNum) : Core := if sn = 0 then k else k.commit sn

def correct (fix : PredictorHistory → PredictorHistory) : Core :=
  { k with predHist := k.predHist.modifyHead fix }

def push (ft : FetchTarget) (nextPC : PCState) : Core :=
  { k with
    ftq := { k.ftq with targets := k.ftq.targets ++ [ft] }
    nextHistory := if ft.bpuHistory.isSome then k.nextHistory + 1 else k.nextHistory
    bacPC := nextPC
    globalFTSeqNum := k.globalFTSeqNum + 1 }

/-- An instruction gets its sequence number. -/
def count : Core := { k with globalSeqNum := k.globalSeqNum + 1 }

def lock (k : Core) : Core := { k with ftq := k.ftq.lock }

/-- A history of the queue or a new one moves to the thread. -/
def insert (h : PredictorHistory) : Core := { k with predHist := h :: k.predHist }

def create : Core := { k with nextHistory := k.nextHistory + 1 }

end Core

/-- Only the histories of the thread and the log change. -/
structure SameRest (k k' : Core) : Prop where
  ftq : k'.ftq = k.ftq
  bacPC : k'.bacPC = k.bacPC
  nextHistory : k'.nextHistory = k.nextHistory
  globalSeqNum : k'.globalSeqNum = k.globalSeqNum
  globalFTSeqNum : k'.globalFTSeqNum = k.globalFTSeqNum

lemma commitDone_rest (k : Core) (sn : InstSeqNum) : SameRest k (k.commitDone sn) := by
  unfold Core.commitDone
  split
  · exact ⟨rfl, rfl, rfl, rfl, rfl⟩
  · exact ⟨rfl, rfl, rfl, rfl, rfl⟩

structure Corrects (fix : PredictorHistory → PredictorHistory) : Prop where
  id : ∀ h, (fix h).id = h.id
  seqNum : ∀ h, (fix h).seqNum = h.seqNum
  pc : ∀ h, (fix h).pc = h.pc
  startAddress : ∀ h, (fix h).startAddress = h.startAddress
  ftNum : ∀ h, (fix h).ftNum = h.ftNum

lemma corrects_id : Corrects id :=
  ⟨fun _ => rfl, fun _ => rfl, fun _ => rfl, fun _ => rfl, fun _ => rfl⟩

lemma modifyHead_id {α : Type} (l : List α) : l.modifyHead id = l := by
  cases l with
  | nil | cons => rfl

/-! ## The predictor unit -/

namespace BPredUnit

variable {B : BranchTargetBuffer} (c : FrontEndParams)

/-- The BTB may change, the histories do not. -/
structure SameHistories (s t : BPredUnit B) : Prop where
  predHist : t.predHist = s.predHist
  log : t.log = s.log
  nextHistory : t.nextHistory = s.nextHistory

variable (s : BPredUnit B)

lemma SameHistories.refl : SameHistories s s := ⟨rfl, rfl, rfl⟩

lemma SameHistories.trans {s t u : BPredUnit B} (h : SameHistories s t) (h' : SameHistories t u) :
    SameHistories s u :=
  ⟨h'.predHist.trans h.predHist, h'.log.trans h.log, h'.nextHistory.trans h.nextHistory⟩

/-- The faults of every function but `FTQ::insert`. -/
def NotInsert {φ : Type} (e : FrontEndFault φ) : Prop := e ≠ .ftqInsert

lemma meets_ofBTB {α : Type} (x : Except B.Fault α) :
    Meets (ofBTB x) (fun a => x = .ok a) NotInsert := by
  cases x with
  | ok => exact rfl
  | error =>
    intro h
    cases h

structure Predicted (s t : BPredUnit B) (inst : StaticInst) (seqNum : InstSeqNum) (pc : PCState)
    (hist : PredictorHistory) : Prop where
  predHist : t.predHist = s.predHist
  log : t.log = s.log
  nextHistory : t.nextHistory = s.nextHistory + 1
  id : hist.id = s.nextHistory
  pc : hist.pc = pc.instAddr
  type : hist.type = getBranchType inst

lemma meets_predict (ans : Answers) (inst : StaticInst) (seqNum : InstSeqNum) (pc : PCState)
    (tid : ThreadID) :
    Meets (s.predict c ans inst seqNum pc tid)
      (fun r => Predicted s r.1 inst seqNum pc r.2.1 ∧ r.2.1.inst = inst ∧
        r.2.1.predTaken = r.2.2.2.taken) NotInsert := by
  unfold predict
  refine (meets_ofBTB _).bind ?_
  rintro ⟨btb, res⟩ _
  exact ⟨⟨rfl, rfl, rfl, rfl, rfl, rfl⟩, rfl, rfl⟩

lemma meets_predictL1 (ans : Answers) (tid : ThreadID) (pc : Addr) :
    Meets (s.predictL1 ans tid pc) (fun r => SameHistories s r.1) NotInsert := by
  unfold predictL1
  refine (meets_ofBTB _).bind ?_
  rintro ⟨btb, target⟩ _
  exact ⟨rfl, rfl, rfl⟩

section

variable (s : BPredUnit B) (tid : ThreadID) (hist : PredictorHistory)

lemma meets_updateBTB : Meets (s.updateBTB c tid hist) (SameHistories s) NotInsert := by
  unfold updateBTB
  split
  · exact SameHistories.refl s
  · split
    · intro h
      cases h
    · refine (meets_ofBTB _).bind ?_
      intro btb _
      dsimp only
      split
      · exact ⟨rfl, rfl, rfl⟩
      · exact ⟨rfl, rfl, rfl⟩

lemma meets_updateBTBAtCommit :
    Meets (s.updateBTBAtCommit c tid hist) (SameHistories s) NotInsert := by
  unfold updateBTBAtCommit
  split
  · exact meets_updateBTB c s tid hist
  · exact SameHistories.refl s

lemma meets_trainBTBAtCommit :
    Meets (s.trainBTBAtCommit c tid hist) (SameHistories s) NotInsert := by
  unfold trainBTBAtCommit
  have hdir : SameHistories s (if c.useBtbBim then
      { s with btb := B.updateDirection s.btb tid hist.pc hist.actuallyTaken } else s) := by
    split
    · exact ⟨rfl, rfl, rfl⟩
    · exact SameHistories.refl s
  dsimp only
  generalize (if c.useBtbBim then
      { s with btb := B.updateDirection s.btb tid hist.pc hist.actuallyTaken } else s) = t at hdir
  split
  · refine (meets_ofBTB _).bind ?_
    intro btb _
    exact ⟨hdir.predHist, hdir.log, hdir.nextHistory⟩
  · exact hdir

lemma meets_commitBranch :
    Meets (s.commitBranch c tid hist)
      (SameHistories { s with log := s.log ++ [.committed hist] }) NotInsert := by
  unfold commitBranch
  refine (meets_updateBTBAtCommit c _ tid hist).bind ?_
  intro t ht
  exact (meets_trainBTBAtCommit c t tid hist).mono (fun _ h => ht.trans h) (fun _ h => h)

end

lemma meets_commitUntil (tid : ThreadID) (doneSn : InstSeqNum) (hists : List PredictorHistory) :
    ∀ s : BPredUnit B, Meets (s.commitUntil c tid doneSn hists)
      (fun r => r.2 = hists.dropWhile (fun h => h.seqNum ≤ doneSn) ∧
        SameHistories { s with log := s.log ++
          (hists.takeWhile (fun h => h.seqNum ≤ doneSn)).map .committed } r.1) NotInsert := by
  induction hists with
  | nil =>
    intro s
    refine ⟨rfl, rfl, ?_, rfl⟩
    exact (append_nil s.log).symm
  | cons hist younger ih =>
    intro s
    unfold commitUntil
    split
    · rename_i hdone
      refine (meets_commitBranch c s tid hist).bind ?_
      intro t ht
      refine (ih t).mono ?_ (fun _ h => h)
      rintro ⟨u, kept⟩ ⟨hkept, hu⟩
      refine ⟨?_, hu.predHist.trans ht.predHist, ?_, hu.nextHistory.trans ht.nextHistory⟩
      · rw [hkept, dropWhile_cons_of_pos (by simpa using hdone)]
      · have hlog := hu.log
        dsimp only at hlog ⊢
        rw [hlog, ht.log, takeWhile_cons_of_pos (by simpa using hdone), map_cons,
          append_assoc, singleton_append]
    · rename_i hdone
      refine ⟨?_, rfl, ?_, rfl⟩
      · rw [dropWhile_cons_of_neg (by simpa using hdone)]
      · rw [takeWhile_cons_of_neg (by simpa using hdone)]
        exact (append_nil s.log).symm

lemma meets_update (doneSn : InstSeqNum) (tid : ThreadID) :
    Meets (s.update c doneSn tid) (fun t =>
      t.predHist tid = ((s.predHist tid).reverse.dropWhile (fun h => h.seqNum ≤ doneSn)).reverse ∧
      t.log = s.log ++
        ((s.predHist tid).reverse.takeWhile (fun h => h.seqNum ≤ doneSn)).map .committed ∧
      t.nextHistory = s.nextHistory) NotInsert := by
  unfold update
  refine (meets_commitUntil c tid doneSn _ s).bind ?_
  rintro ⟨t, kept⟩ ⟨hkept, hsame⟩
  refine ⟨?_, hsame.log, hsame.nextHistory⟩
  dsimp only at hkept ⊢
  rw [update_self, hkept]

lemma squashYounger_eq (sn : InstSeqNum) (hists : List PredictorHistory) :
    ∀ s : BPredUnit B, s.squashYounger sn hists =
      ({ s with log := s.log ++ (hists.takeWhile (fun h => sn < h.seqNum)).map .squashed },
        hists.dropWhile (fun h => sn < h.seqNum)) := by
  induction hists with
  | nil =>
    intro s
    simp [squashYounger]
  | cons hist older ih =>
    intro s
    unfold squashYounger
    split
    · rename_i hyoung
      rw [ih, squashHistory, takeWhile_cons_of_pos (by simpa using hyoung),
        dropWhile_cons_of_pos (by simpa using hyoung), map_cons, append_assoc,
        singleton_append]
    · rename_i hyoung
      rw [takeWhile_cons_of_neg (by simpa using hyoung),
        dropWhile_cons_of_neg (by simpa using hyoung), map_nil, append_nil]

lemma foldl_squashHistory (hists : List PredictorHistory) :
    ∀ s : BPredUnit B, hists.foldl squashHistory s =
      { s with log := s.log ++ hists.map .squashed } := by
  induction hists with
  | nil =>
    intro s
    simp
  | cons _ _ ih =>
    intro s
    rw [foldl_cons, ih, squashHistory, map_cons, append_assoc, singleton_append]

end BPredUnit

lemma FTQ.meets_squash {φ : Type} (q : FTQ) :
    Meets (q.squash : Except (FrontEndFault φ) FTQ) (fun q' => q' = ⟨[], .valid⟩)
      BPredUnit.NotInsert := by
  unfold FTQ.squash
  split
  · intro h
    cases h
  · exact rfl

/-! ## Signals -/

namespace FrontEnd

variable {B : BranchTargetBuffer} {c : FrontEndParams}

open BPredUnit

def core (s : FrontEnd B) : Core :=
  ⟨s.ftq, s.bpu.predHist 0, s.bpu.log, s.bpu.nextHistory, s.bacPC, s.globalSeqNum, s.globalFTSeqNum⟩

structure Frame (s t : FrontEnd B) : Prop where
  bacStatus : t.bacStatus = s.bacStatus
  stalls : t.stalls = s.stalls
  branchPredictRemaining : t.branchPredictRemaining = s.branchPredictRemaining

lemma Frame.refl (s : FrontEnd B) : Frame s s := ⟨rfl, rfl, rfl⟩

/-- The stalls that others ask for are untouched. -/
structure SameStalls (s t : FrontEnd B) : Prop where
  fetch : t.stalls.fetch = s.stalls.fetch
  drain : t.stalls.drain = s.stalls.drain

lemma sameStalls_of_eq {s t : FrontEnd B} (h : t.stalls = s.stalls) : SameStalls s t :=
  ⟨congrArg Stalls.fetch h, congrArg Stalls.drain h⟩

lemma core_bpu {s : FrontEnd B} {bpu : BPredUnit B} (h : SameHistories s.bpu bpu) :
    ({ s with bpu := bpu } : FrontEnd B).core = s.core := by
  unfold core
  rw [h.predHist, h.log, h.nextHistory]

section

variable (hdec : c.decoupledFrontEnd = true)
include hdec

variable (s : FrontEnd B)

lemma core_squashBpuHistories :
    (s.squashBpuHistories c).core = s.core.undoQueue ∧ Frame s (s.squashBpuHistories c) := by
  unfold squashBpuHistories
  rw [hdec, foldl_squashHistory]
  exact ⟨rfl, rfl, rfl, rfl⟩

lemma meets_squash (s : FrontEnd B) (pc : PCState) :
    Meets (s.squash c pc) (fun t => t.core = s.core.restart pc ∧ t.bpu = s.bpu ∧
      t.bacStatus = .squashing ∧ t.stalls = { s.stalls with bpu := false }) NotInsert := by
  unfold squash
  rw [hdec]
  refine (FTQ.meets_squash s.ftq).bind ?_
  rintro q rfl
  exact ⟨rfl, rfl, rfl, rfl⟩

omit hdec in
lemma core_squashHistories (sn : InstSeqNum) :
    ({ s with bpu := s.bpu.squash sn 0 } : FrontEnd B).core = s.core.undoYounger sn := by
  unfold BPredUnit.squash
  rw [squashYounger_eq]
  unfold core Core.undoYounger
  simp only [update_self]

omit hdec in
lemma meets_squashAndCorrect (sn : InstSeqNum) (pc : PCState) (taken : Bool) :
    Meets (s.bpu.squashAndCorrect c sn pc taken 0) (fun bpu => ∃ fix, Corrects fix ∧
      ({ s with bpu := bpu } : FrontEnd B).core = (s.core.undoYounger sn).correct fix)
      NotInsert := by
  have hcore := core_squashHistories s sn
  unfold squashAndCorrect
  generalize s.bpu.squash sn 0 = bpu at hcore
  dsimp only
  split
  · rename_i hnone
    refine ⟨id, corrects_id, ?_⟩
    rw [hcore]
    unfold Core.correct
    rw [modifyHead_id]
  · rename_i hist older hsome
    let fix : PredictorHistory → PredictorHistory := fun h =>
      { h with mispredict := true, actuallyTaken := taken, target := some pc }
    have hfix : Corrects fix :=
      ⟨fun _ => rfl, fun _ => rfl, fun _ => rfl, fun _ => rfl, fun _ => rfl⟩
    have hfixed : ({ s with bpu := { bpu with
        predHist := update bpu.predHist 0 (fix hist :: older) } } : FrontEnd B).core =
        (s.core.undoYounger sn).correct fix := by
      rw [← hcore]
      unfold core Core.correct
      simp only [update_self, hsome, modifyHead_cons]
    split
    · refine (meets_updateBTB c _ 0 _).mono ?_ (fun _ h => h)
      intro bpu' hsame
      exact ⟨fix, hfix, (core_bpu (s := { s with bpu := _ }) hsame).trans hfixed⟩
    · exact ⟨fix, hfix, hfixed⟩

lemma meets_squashFromCommit (sig : CommitSquash) :
    Meets (s.squashFromCommit c 0 sig) (fun t => t.bacStatus = .squashing ∧
      t.stalls = { s.stalls with bpu := false } ∧ ∃ fix, Corrects fix ∧
      t.core = ((s.core.undoQueue.restart sig.pc).undoYounger sig.doneSeqNum).correct fix)
      NotInsert := by
  obtain ⟨hundo, hframe⟩ := core_squashBpuHistories hdec s
  unfold squashFromCommit
  refine (meets_squash hdec _ sig.pc).bind ?_
  rintro t ⟨hcore, _, hstatus, hstalls⟩
  rw [hundo] at hcore
  rw [hframe.stalls] at hstalls
  split
  · refine (meets_squashAndCorrect t _ _ _).bind ?_
    rintro bpu ⟨fix, hfix, hfixed⟩
    rw [hcore] at hfixed
    exact ⟨hstatus, hstalls, fix, hfix, hfixed⟩
  · refine ⟨hstatus, hstalls, id, corrects_id, ?_⟩
    rw [core_squashHistories, hcore]
    unfold Core.correct
    rw [modifyHead_id]

lemma meets_squashFromDecode (sig : DecodeSquash) :
    Meets (s.squashFromDecode c 0 sig) (fun t => t.bacStatus = .squashing ∧
      t.stalls = { s.stalls with bpu := false } ∧ ∃ fix, Corrects fix ∧
      t.core = ((s.core.undoQueue.restart sig.nextPC).undoYounger sig.doneSeqNum).correct fix)
      NotInsert :=
  meets_squashFromCommit hdec s ⟨sig.nextPC, sig.doneSeqNum, sig.branchMispredict, sig.branchTaken⟩

omit hdec in
lemma meets_commitDone (sn : InstSeqNum) :
    Meets (s.commitDone c 0 sn) (fun t => t.core = s.core.commitDone sn ∧ Frame s t)
      NotInsert := by
  unfold commitDone Core.commitDone
  split
  · exact ⟨rfl, Frame.refl s⟩
  · refine (BPredUnit.meets_update c s.bpu sn 0).bind ?_
    rintro bpu ⟨hhist, hlog, hnext⟩
    refine ⟨?_, rfl, rfl, rfl⟩
    unfold core Core.commit
    rw [hhist, hlog, hnext]

inductive Squashes (sig : Signals) (squashing : Prop) (k : Core) : Core → Prop
  | commit (q : CommitSquash) (hq : sig.commitSquash = some q)
      (fix : PredictorHistory → PredictorHistory) (hfix : Corrects fix) :
      Squashes sig squashing k (((k.undoQueue.restart q.pc).undoYounger q.doneSeqNum).correct fix)
  | decode (hcommit : sig.commitSquash = none) (q : DecodeSquash) (hq : sig.decodeSquash = some q)
      (fix : PredictorHistory → PredictorHistory) (hfix : Corrects fix) :
      Squashes sig squashing k
        ((((k.commitDone sig.doneSeqNum).undoQueue.restart q.nextPC).undoYounger
          q.doneSeqNum).correct fix)
  | fetch (hcommit : sig.commitSquash = none) (hdecode : sig.decodeSquash = none) (pc : PCState)
      (hpc : sig.fetchSquash = some pc) (hbusy : ¬ squashing) :
      Squashes sig squashing k ((k.commitDone sig.doneSeqNum).undoQueue.restart pc)

structure NoSquash (sig : Signals) (squashing : Prop) : Prop where
  commit : sig.commitSquash = none
  decode : sig.decodeSquash = none
  fetch : sig.fetchSquash = none ∨ squashing

lemma meets_checkAndUpdateBPUSignals (sig : Signals) :
    Meets (s.checkAndUpdateBPUSignals c 0 sig) (fun r =>
      (r.2 = true ∧ Squashes sig (s.bacStatus = .squashing) s.core r.1.core ∧
        r.1.bacStatus = .squashing ∧ r.1.stalls = { s.stalls with bpu := false }) ∨
      (r.2 = false ∧ NoSquash sig (s.bacStatus = .squashing) ∧
        r.1.core = s.core.commitDone sig.doneSeqNum ∧ Frame s r.1)) NotInsert := by
  unfold checkAndUpdateBPUSignals
  split
  · rename_i q hq
    refine (meets_squashFromCommit hdec s q).bind ?_
    rintro t ⟨hstatus, hstalls, fix, hfix, hcore⟩
    refine .inl ⟨rfl, ?_, hstatus, hstalls⟩
    rw [hcore]
    exact .commit q hq fix hfix
  · rename_i hcommit
    refine (meets_commitDone s sig.doneSeqNum).bind ?_
    rintro t ⟨ht, hframe⟩
    split
    · rename_i q hq
      refine (meets_squashFromDecode hdec t q).bind ?_
      rintro u ⟨hstatus, hstalls, fix, hfix, hcore⟩
      rw [hframe.stalls] at hstalls
      refine .inl ⟨rfl, ?_, hstatus, hstalls⟩
      rw [hcore, ht]
      exact .decode hcommit q hq fix hfix
    · rename_i hdecode
      split
      · rename_i pc hpc
        rw [hframe.bacStatus]
        split
        · rename_i hbusy
          exact .inr ⟨rfl, ⟨hcommit, hdecode, .inr hbusy⟩, ht, hframe⟩
        · rename_i hbusy
          obtain ⟨hundo, hundone⟩ := core_squashBpuHistories hdec t
          refine (meets_squash hdec _ pc).bind ?_
          rintro u ⟨hcore, _, hstatus, hstalls⟩
          rw [hundone.stalls, hframe.stalls] at hstalls
          refine .inl ⟨rfl, ?_, hstatus, hstalls⟩
          rw [hcore, hundo, ht]
          exact .fetch hcommit hdecode pc hpc hbusy
      · rename_i hfetch
        exact .inr ⟨rfl, ⟨hcommit, hdecode, .inl hfetch⟩, ht, hframe⟩

lemma meets_drain :
    Meets (s.drain c) (fun t => t.core = s.core.undoQueue.restart s.bacPC ∧ t.bacStatus = .idle ∧
      t.stalls = s.stalls) NotInsert := by
  obtain ⟨hundo, hframe⟩ := core_squashBpuHistories hdec s
  unfold drain
  refine (FTQ.meets_squash _).bind ?_
  rintro q rfl
  refine ⟨?_, rfl, hframe.stalls⟩
  rw [← hundo]
  have hpc : (s.squashBpuHistories c).bacPC = s.bacPC := congrArg Core.bacPC hundo
  unfold Core.restart
  rw [← hpc]
  rfl

omit hdec in
lemma core_settle : (s.settle c).core = s.core := by
  unfold settle countDown
  dsimp only
  split
  · split
    · rfl
    · rfl
  · split
    · rfl
    · rfl

omit hdec in
lemma settle_bpu : (s.settle c).bpu = s.bpu := by
  unfold settle countDown
  dsimp only
  split
  · split
    · rfl
    · rfl
  · split
    · rfl
    · rfl

def settledStatus (c : FrontEndParams) (q : FTQ) (status : ThreadStatus) (fetchStall : Bool)
    (remaining : Cycles) : ThreadStatus :=
  if fetchStall then .blocked
  else nextStatus c q (if 0 < remaining then .overriding else status) (decide (0 < remaining))

omit hdec in
lemma settle_status : (s.settle c).bacStatus =
      settledStatus c s.ftq s.bacStatus s.stalls.fetch s.branchPredictRemaining ∧
    (s.settle c).stalls.fetch = s.stalls.fetch ∧ (s.settle c).stalls.drain = s.stalls.drain := by
  unfold settle countDown settledStatus
  dsimp only
  by_cases hpos : 0 < s.branchPredictRemaining
  · simp only [hpos, ↓reduceIte, decide_true]
    split
    · exact ⟨rfl, rfl, rfl⟩
    · exact ⟨rfl, rfl, rfl⟩
  · simp only [hpos, ↓reduceIte, decide_false]
    split
    · exact ⟨rfl, rfl, rfl⟩
    · exact ⟨rfl, rfl, rfl⟩

/-- What the first half of a cycle does. -/
inductive Checked (c : FrontEndParams) (sig : Signals) (s t : FrontEnd B) : Prop
  | squashed (move : Squashes sig (s.bacStatus = .squashing) s.core t.core)
      (status : t.bacStatus = .squashing)
  | drained (quiet : NoSquash sig (s.bacStatus = .squashing)) (draining : s.stalls.drain = true)
      (core : t.core = (s.core.commitDone sig.doneSeqNum).undoQueue.restart s.bacPC)
      (status : t.bacStatus = .idle)
  | settled (quiet : NoSquash sig (s.bacStatus = .squashing)) (draining : s.stalls.drain = false)
      (core : t.core = s.core.commitDone sig.doneSeqNum)
      (status : t.bacStatus =
        settledStatus c s.ftq s.bacStatus s.stalls.fetch s.branchPredictRemaining)

lemma meets_checkSignalsAndUpdate (sig : Signals) :
    Meets (s.checkSignalsAndUpdate c 0 sig)
      (fun t => Checked c sig s t ∧ SameStalls s t) NotInsert := by
  unfold checkSignalsAndUpdate
  refine (meets_checkAndUpdateBPUSignals hdec s sig).bind ?_
  rintro ⟨t, squashed⟩ (⟨hsquashed, hmove, hstatus, hstalls⟩ | ⟨hsquashed, hquiet, hcore, hframe⟩)
  · dsimp only at hsquashed hmove hstatus hstalls
    subst hsquashed
    refine ⟨.squashed hmove hstatus, ?_, ?_⟩
    · rw [hstalls]
    · rw [hstalls]
  · dsimp only at hsquashed hcore hframe
    subst hsquashed
    have hrest := commitDone_rest s.core sig.doneSeqNum
    have hpc : t.bacPC = s.bacPC := (congrArg Core.bacPC hcore).trans hrest.bacPC
    have hftq : t.ftq = s.ftq := (congrArg Core.ftq hcore).trans hrest.ftq
    simp only [Bool.false_eq_true, if_false]
    split
    · rename_i hdrain
      refine (meets_drain hdec t).mono ?_ (fun _ h => h)
      rintro u ⟨hu, hidle, hstalls⟩
      rw [hframe.stalls] at hdrain hstalls
      rw [hcore, hpc] at hu
      exact ⟨.drained hquiet hdrain hu hidle, sameStalls_of_eq hstalls⟩
    · rename_i hdrain
      obtain ⟨hstatus, hfetch, hsame⟩ := settle_status (c := c) t
      rw [hframe.stalls, Bool.not_eq_true] at hdrain
      rw [hftq, hframe.bacStatus, hframe.stalls, hframe.branchPredictRemaining] at hstatus
      rw [hframe.stalls] at hfetch hsame
      exact ⟨.settled hquiet hdrain ((core_settle t).trans hcore) hstatus, hfetch, hsame⟩

end

end FrontEnd

end BTBFerret
