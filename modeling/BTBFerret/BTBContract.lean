import BTBFerret.TargetMoves

/-!
# What the front end asks of its BTB

A property of the BTB and of the block map that every call keeps, and faults that no call of a
known branch raises, carry over to the whole front end: the stage predicts only branches that
the BTB knows. Fetch predicts in two more places, where nothing checks that.
-/

namespace BTBFerret

open FallibleRuns Function

/-- The BTB keeps the invariant and does not stop with a bad fault, as long as only branches
that it knows are looked up. -/
structure Upholds (B : BranchTargetBuffer) (I : B.State → Prop) (bad : B.Fault → Prop) : Prop where
  lookupWithLatency : ∀ s tid pc type taken blockStartAddr basePrediction, I s →
    B.valid s tid pc = true →
    Meets (B.lookupWithLatency s tid pc type taken blockStartAddr basePrediction)
      (fun r => I r.1) (fun fault => ¬ bad fault)
  lookupL1 : ∀ s tid pc, I s →
    Meets (B.lookupL1 s tid pc) (fun r => I r.1) (fun fault => ¬ bad fault)
  update : ∀ s tid pc target type inst, I s →
    Meets (B.update s tid pc target type inst) I (fun fault => ¬ bad fault)
  updateDirection : ∀ s tid pc taken, I s → I (B.updateDirection s tid pc taken)
  trainMarkovOnCommit : ∀ s pc wasL2Hit, I s →
    Meets (B.trainMarkovOnCommit s pc wasL2Hit) I (fun fault => ¬ bad fault)
  trainPrefetchBitsOnCommit : ∀ s tid pc taken, I s → I (B.trainPrefetchBitsOnCommit s tid pc taken)
  setBBMap : ∀ s map, I s → I (B.setBBMap s map)
  event : ∀ s e, I s → Meets (B.event s e) I (fun fault => ¬ bad fault)

def Spares {φ : Type} (bad : φ → Prop) (e : FrontEndFault φ) : Prop :=
  ∀ fault, e = .btb fault → ¬ bad fault

variable {B : BranchTargetBuffer} {c : FrontEndParams} {I : B.State → Prop} {bad : B.Fault → Prop}

/-- The calls keep `J` if only branches with `V` are looked up and the map is written only with `H`
between the start of a block and its branch. -/
structure Contract (J : B.State → BBMap → Prop) (V : B.State → ThreadID → Addr → Prop)
    (H : Addr → Addr → Prop) (bad : B.Fault → Prop) : Prop where
  known : ∀ s tid pc, B.valid s tid pc = true → V s tid pc
  lookupWithLatency : ∀ s map tid pc type taken blockStartAddr basePrediction, J s map →
    V s tid pc → Meets (B.lookupWithLatency s tid pc type taken blockStartAddr basePrediction)
      (fun r => J r.1 map) (fun fault => ¬ bad fault)
  lookupL1 : ∀ s map tid pc, J s map →
    Meets (B.lookupL1 s tid pc) (fun r => J r.1 map) (fun fault => ¬ bad fault)
  update : ∀ s map tid pc target type inst, J s map →
    Meets (B.update s tid pc target type inst) (J · map) (fun fault => ¬ bad fault)
  updateDirection : ∀ s map tid pc taken, J s map → J (B.updateDirection s tid pc taken) map
  trainMarkovOnCommit : ∀ s map pc wasL2Hit, J s map →
    Meets (B.trainMarkovOnCommit s pc wasL2Hit) (J · map) (fun fault => ¬ bad fault)
  trainPrefetchBitsOnCommit : ∀ s map tid pc taken, J s map →
    J (B.trainPrefetchBitsOnCommit s tid pc taken) map
  setBBMap : ∀ s map start branch, J s map → H start branch →
    J (B.setBBMap s (Function.update map start (some branch)))
      (Function.update map start (some branch))
  event : ∀ s map e, J s map → Meets (B.event s e) (J · map) (fun fault => ¬ bad fault)

lemma Upholds.contract (h : Upholds B I bad) :
    Contract (fun s _ => I s) (fun s tid pc => B.valid s tid pc = true) (fun _ _ => True) bad where
  known _ _ _ h := h
  lookupWithLatency s _ := h.lookupWithLatency s
  lookupL1 s _ := h.lookupL1 s
  update s _ := h.update s
  updateDirection s _ := h.updateDirection s
  trainMarkovOnCommit s _ := h.trainMarkovOnCommit s
  trainPrefetchBitsOnCommit s _ := h.trainPrefetchBitsOnCommit s
  setBBMap s _ _ _ hs _ := h.setBBMap s _ hs
  event s _ := h.event s

lemma contract_bbMap {K : BBMap → Prop} {H : Addr → Addr → Prop}
    (hK : ∀ map start branch, K map → H start branch →
      K (update map start (some branch))) :
    Contract (B := B) (fun _ => K) (fun _ _ _ => True) H (fun _ => False) where
  known _ _ _ _ := trivial
  lookupWithLatency _ _ _ _ _ _ _ _ h _ := (Meets.any _).mono (fun _ _ => h) (fun _ _ => id)
  lookupL1 _ _ _ _ h := (Meets.any _).mono (fun _ _ => h) (fun _ _ => id)
  update _ _ _ _ _ _ _ h := (Meets.any _).mono (fun _ _ => h) (fun _ _ => id)
  updateDirection _ _ _ _ _ h := h
  trainMarkovOnCommit _ _ _ _ h := (Meets.any _).mono (fun _ _ => h) (fun _ _ => id)
  trainPrefetchBitsOnCommit _ _ _ _ _ h := h
  setBBMap _ := hK
  event _ _ _ h := (Meets.any _).mono (fun _ _ => h) (fun _ _ => id)

lemma meets_ofBTB_spares {α : Type} {x : Except B.Fault α} {good : α → Prop}
    (h : Meets x good (fun fault => ¬ bad fault)) :
    Meets (BPredUnit.ofBTB x) good (Spares bad) := by
  cases x with
  | ok => exact h
  | error =>
    rintro fault ⟨⟩
    exact h

section

variable {J : B.State → BBMap → Prop} {V : B.State → ThreadID → Addr → Prop}
  {H : Addr → Addr → Prop}

def BPredUnit.Holds (J : B.State → BBMap → Prop) (H : Addr → Addr → Prop) (tid : ThreadID)
    (s : BPredUnit B) : Prop :=
  J s.btb s.bbMap ∧ ∀ h ∈ s.predHist tid, H h.startAddress h.pc

variable (hB : Contract J V H bad)
include hB

/-! ## The predictor unit -/

variable {pc : PCState} {tid : ThreadID}

namespace BPredUnit

variable {s : BPredUnit B}

section

variable (hs : J s.btb s.bbMap)

include hs

lemma meets_predict_keeps (ans : Answers) (inst : StaticInst)
    (seqNum : InstSeqNum) (hknown : V s.btb tid pc.instAddr) :
    Meets (s.predict c ans inst seqNum pc tid) (fun r => J r.1.btb r.1.bbMap) (Spares bad) := by
  refine (meets_ofBTB_spares (hB.lookupWithLatency _ _ _ _ _ _ _ _ hs hknown)).bind ?_
  rintro ⟨btb, res⟩ hbtb
  exact hbtb

lemma meets_predictL1_keeps (ans : Answers) (tid : ThreadID)
    (pc : Addr) : Meets (s.predictL1 ans tid pc) (fun r => J r.1.btb r.1.bbMap) (Spares bad) := by
  refine (meets_ofBTB_spares (hB.lookupL1 _ _ _ _ hs)).bind ?_
  rintro ⟨btb, target⟩ hbtb
  exact hbtb

lemma meets_updateBTB_keeps (tid : ThreadID) {hist : PredictorHistory}
    (hhist : H hist.startAddress hist.pc) :
    Meets (s.updateBTB c tid hist) (fun t => J t.btb t.bbMap) (Spares bad) := by
  unfold updateBTB
  split
  · exact hs
  · split
    · rintro fault ⟨⟩
    · refine (meets_ofBTB_spares (hB.update _ _ _ _ _ _ _ hs)).bind ?_
      intro btb hbtb
      split
      · exact hB.setBBMap _ _ _ _ hbtb hhist
      · exact hbtb

lemma meets_trainBTBAtCommit_keeps (tid : ThreadID)
    (hist : PredictorHistory) :
    Meets (s.trainBTBAtCommit c tid hist) (fun t => J t.btb t.bbMap) (Spares bad) := by
  unfold trainBTBAtCommit
  have hdir : ∀ t, t = (if c.useBtbBim then
      { s with btb := B.updateDirection s.btb tid hist.pc hist.actuallyTaken } else s) →
      J t.btb t.bbMap := by
    rintro t rfl
    split
    · exact hB.updateDirection _ _ _ _ _ hs
    · exact hs
  generalize (if c.useBtbBim then
      { s with btb := B.updateDirection s.btb tid hist.pc hist.actuallyTaken } else s) = t at hdir
  have ht := hdir t rfl
  split
  · refine (meets_ofBTB_spares (hB.trainMarkovOnCommit _ _ _ _ ht)).bind ?_
    intro btb hbtb
    exact hB.trainPrefetchBitsOnCommit _ _ _ _ _ hbtb
  · exact ht

lemma meets_commitBranch_keeps (tid : ThreadID) {hist : PredictorHistory}
    (hhist : H hist.startAddress hist.pc) :
    Meets (s.commitBranch c tid hist) (fun t => J t.btb t.bbMap) (Spares bad) := by
  have hupdate : Meets (updateBTBAtCommit c { s with log := s.log ++ [.committed hist] } tid hist)
      (fun t => J t.btb t.bbMap) (Spares bad) := by
    unfold updateBTBAtCommit
    split
    · refine meets_updateBTB_keeps hB ?_ tid hhist
      exact hs
    · exact hs
  refine hupdate.bind ?_
  intro t ht
  exact meets_trainBTBAtCommit_keeps hB ht tid hist

end

lemma meets_commitUntil_keeps (tid : ThreadID) (doneSn : InstSeqNum)
    (hists : List PredictorHistory) :
    ∀ s : BPredUnit B, J s.btb s.bbMap → (∀ h ∈ hists, H h.startAddress h.pc) →
    Meets (s.commitUntil c tid doneSn hists)
      (fun r => J r.1.btb r.1.bbMap ∧ ∀ h ∈ r.2, H h.startAddress h.pc) (Spares bad) := by
  induction hists with
  | nil =>
    intro s hs hhists
    exact ⟨hs, hhists⟩
  | cons _ _ ih =>
    intro s hs hhists
    obtain ⟨hfirst, hrest⟩ := List.forall_mem_cons.mp hhists
    unfold commitUntil
    split
    · exact (meets_commitBranch_keeps hB hs tid hfirst).bind (fun t ht => ih t ht hrest)
    · exact ⟨hs, hhists⟩

lemma meets_update_keeps (hs : s.Holds J H tid) (doneSn : InstSeqNum) :
    Meets (s.update c doneSn tid) (Holds J H tid) (Spares bad) := by
  refine (meets_commitUntil_keeps hB tid doneSn _ s hs.1
    (fun h hh => hs.2 h (List.mem_reverse.mp hh))).bind ?_
  rintro ⟨t, kept⟩ ⟨ht, hkept⟩
  refine ⟨ht, fun h hh => hkept h ?_⟩
  dsimp only at hh
  rw [update_self] at hh
  exact List.mem_reverse.mp hh

omit hB in
lemma Holds.squash (hs : s.Holds J H tid) (sn : InstSeqNum) :
    (s.squash sn tid).Holds J H tid := by
  unfold BPredUnit.squash
  rw [squashYounger_eq]
  refine ⟨hs.1, fun h hh => hs.2 h ?_⟩
  dsimp only at hh
  rw [update_self] at hh
  exact (List.dropWhile_sublist _).subset hh

lemma meets_squashAndCorrect_keeps (hs : s.Holds J H tid) (sn : InstSeqNum) (pc : PCState)
    (taken : Bool) :
    Meets (s.squashAndCorrect c sn pc taken tid) (fun t => J t.btb t.bbMap) (Spares bad) := by
  unfold squashAndCorrect
  have hsquash := hs.squash sn
  generalize s.squash sn tid = t at hsquash
  dsimp only
  split
  · exact hsquash.1
  · rename_i hist older hsome
    have hfirst := hsquash.2 hist (by rw [hsome]; exact List.mem_cons_self)
    split
    · refine meets_updateBTB_keeps hB ?_ tid hfirst
      exact hsquash.1
    · exact hsquash.1

end BPredUnit

/-! ## The stage -/

variable {s : FrontEnd B}

namespace FrontEnd

open BPredUnit

omit hB in
lemma squashBpuHistories_eq (s : FrontEnd B) :
    ∃ log, (s.squashBpuHistories c).bpu = { s.bpu with log := log } := by
  unfold squashBpuHistories
  split
  · exact ⟨_, rfl⟩
  · rw [foldl_squashHistory]
    exact ⟨_, rfl⟩

omit hB in
lemma btb_squashBpuHistories (s : FrontEnd B) :
    (s.squashBpuHistories c).bpu.btb = s.bpu.btb ∧
      (s.squashBpuHistories c).bpu.bbMap = s.bpu.bbMap := by
  obtain ⟨log, hlog⟩ := squashBpuHistories_eq (c := c) s
  rw [hlog]
  exact ⟨rfl, rfl⟩

omit hB in
lemma meets_squash_keeps (hs : s.bpu.Holds J H tid) (pc : PCState) :
    Meets ((s.squashBpuHistories c).squash c pc) (fun t => t.bpu.Holds J H tid) (Spares bad) := by
  have hundo : (s.squashBpuHistories c).bpu.Holds J H tid := by
    obtain ⟨log, hlog⟩ := squashBpuHistories_eq (c := c) s
    rw [hlog]
    exact hs
  generalize s.squashBpuHistories c = t at hundo
  unfold squash FTQ.squash
  split
  · exact hundo
  · split
    · rintro fault ⟨⟩
    · exact hundo

lemma meets_squashFromCommit_keeps (hs : s.bpu.Holds J H tid) (sig : CommitSquash) :
    Meets (s.squashFromCommit c tid sig) (fun t => J t.bpu.btb t.bpu.bbMap) (Spares bad) := by
  refine (meets_squash_keeps hs sig.pc).bind ?_
  intro t ht
  split
  · refine (meets_squashAndCorrect_keeps hB ht _ _ _).bind ?_
    intro bpu hbpu
    exact hbpu
  · exact (ht.squash sig.doneSeqNum).1

lemma meets_commitDone_keeps (hs : s.bpu.Holds J H tid) (sn : InstSeqNum) :
    Meets (s.commitDone c tid sn) (fun t => t.bpu.Holds J H tid) (Spares bad) := by
  unfold commitDone
  split
  · exact hs
  · refine (meets_update_keeps hB hs sn).bind ?_
    intro bpu hbpu
    exact hbpu

lemma meets_checkAndUpdateBPUSignals_keeps (hs : s.bpu.Holds J H tid) (sig : Signals) :
    Meets (s.checkAndUpdateBPUSignals c tid sig) (fun r => J r.1.bpu.btb r.1.bpu.bbMap)
      (Spares bad) := by
  unfold checkAndUpdateBPUSignals
  split
  · refine (meets_squashFromCommit_keeps hB hs _).bind ?_
    intro t ht
    exact ht
  · refine (meets_commitDone_keeps hB hs _).bind ?_
    intro t ht
    split
    · rename_i q _
      -- a squash from decode is one from commit with another signal
      refine (meets_squashFromCommit_keeps hB ht
        ⟨q.nextPC, q.doneSeqNum, q.branchMispredict, q.branchTaken⟩).bind ?_
      intro u hu
      exact hu
    · split
      · split
        · exact ht.1
        · refine (meets_squash_keeps ht _).bind ?_
          intro u hu
          exact hu.1
      · exact ht.1

lemma meets_checkSignalsAndUpdate_keeps (hs : s.bpu.Holds J H tid) (sig : Signals) :
    Meets (s.checkSignalsAndUpdate c tid sig) (fun t => J t.bpu.btb t.bpu.bbMap) (Spares bad) := by
  refine (meets_checkAndUpdateBPUSignals_keeps hB hs sig).bind ?_
  rintro ⟨t, squashed⟩ ht
  dsimp only at ht ⊢
  split
  · exact ht
  · split
    · obtain ⟨hbtb, hmap⟩ := btb_squashBpuHistories (c := c) t
      rw [← hbtb, ← hmap] at ht
      unfold drain FTQ.squash
      dsimp only
      split
      · rintro fault ⟨⟩
      · exact ht
    · change J (t.settle c).bpu.btb (t.settle c).bpu.bbMap
      rw [settle_bpu]
      exact ht

/-! ## Generating fetch targets -/

omit hB in
lemma valid_of_searchBranch (valid : Addr → Bool) (start : Addr) (offset : Nat) :
    (searchBranch c valid start offset).2 = true →
      valid (searchBranch c valid start offset).1 = true := by
  fun_induction searchBranch c valid start offset with
  | case1 _ _ hvalid => exact fun _ => hvalid
  | case2 => rintro ⟨⟩
  | case3 _ _ _ _ ih => exact ih

omit hB in
lemma valid_of_findBranch (s : FrontEnd B) (tid : ThreadID) (start : Addr)
    (h : (s.findBranch c tid start).2 = true) :
    B.valid s.bpu.btb tid (s.findBranch c tid start).1 = true := by
  unfold findBranch at h ⊢
  split
  · rename_i hblock
    rw [if_pos hblock] at h
    dsimp only at h ⊢
    split
    · rename_i hfound
      exact hfound.2.2
    · rename_i hnone
      rw [if_neg hnone] at h
      cases h
  · rename_i hblock
    rw [if_neg hblock] at h
    exact valid_of_searchBranch _ _ _ h

section

variable (hs : J s.bpu.btb s.bpu.bbMap) (tid : ThreadID) (ans : Answers) (ft : FetchTarget)

include hs

lemma meets_predictExit_keeps {exitPC : PCState} (hvalid : V s.bpu.btb tid exitPC.instAddr) :
    Meets (s.predictExit c ans tid ft exitPC) (fun r => J r.1.bpu.btb r.1.bpu.bbMap)
      (Spares bad) := by
  have hpredict : ∀ (t : FrontEnd B) (inst : StaticInst),
      t.bpu.btb = s.bpu.btb ∧ t.bpu.bbMap = s.bpu.bbMap →
      Meets (t.predict c ans tid inst ft exitPC) (fun r => J r.1.bpu.btb r.1.bpu.bbMap)
          (Spares bad) := by
    intro t inst ht
    unfold predict
    split
    · rintro fault ⟨⟩
    · rw [← ht.1] at hs hvalid
      rw [← ht.2] at hs
      refine (meets_predict_keeps hB hs ans inst ft.ftNum hvalid).bind ?_
      rintro ⟨bpu, h, pc, pred⟩ hbpu
      exact hbpu
  unfold predictExit
  split
  · rintro fault ⟨⟩
  · rename_i inst _
    refine (hpredict _ inst ?_).bind ?_
    · split
      · exact ⟨rfl, rfl⟩
      · exact ⟨rfl, rfl⟩
    · rintro ⟨t, ft', pc, pred⟩ ht
      exact ht

lemma meets_completeTarget_keeps {exitPC : PCState} {branchFound : Bool}
    (hvalid : branchFound = true → V s.bpu.btb tid exitPC.instAddr) :
    Meets (s.completeTarget c tid ans ft exitPC branchFound) (fun r => J r.1.bpu.btb r.1.bpu.bbMap)
      (Spares bad) := by
  unfold completeTarget
  split
  · rename_i hfound
    refine (meets_predictExit_keeps hB hs tid ans ft (hvalid hfound)).bind ?_
    rintro ⟨t, ft', pc, taken, inst⟩ ht
    exact ht
  · exact hs

end

lemma meets_advanceL1PredPC_keeps (hs : J s.bpu.btb s.bpu.bbMap) (ans : Answers) :
    Meets (s.advanceL1PredPC c ans) (fun t => J t.bpu.btb t.bpu.bbMap) (Spares bad) := by
  refine (meets_predictL1_keeps hB hs ans 0 _).bind ?_
  rintro ⟨bpu, target⟩ hbpu
  exact hbpu

omit hB in
lemma meets_ftqInsert_spares (q : FTQ) (n : Nat) (ft : FetchTarget) :
    Meets (q.insert n ft) (fun _ => True) (Spares bad) := by
  unfold FTQ.insert
  split
  · rintro fault ⟨⟩
  · split
    · trivial
    · trivial

lemma meets_generateFetchTarget_keeps (hs : J s.bpu.btb s.bpu.bbMap) (tid : ThreadID)
    (ans : Answers) :
    Meets (s.generateFetchTarget c tid ans) (fun r => J r.1.bpu.btb r.1.bpu.bbMap)
      (Spares bad) := by
  have hcomplete : ∀ (t : FrontEnd B) ft, t.bpu = s.bpu →
      Meets (t.completeTarget c tid ans ft (.ofAddr (t.findBranch c tid s.bacPC.instAddr).1)
        (t.findBranch c tid s.bacPC.instAddr).2) (fun r => J r.1.bpu.btb r.1.bpu.bbMap)
            (Spares bad) := by
    intro t ft ht
    refine meets_completeTarget_keeps hB ?_ tid ans ft ?_
    · rw [ht]
      exact hs
    · exact fun hfound => hB.known _ _ _ (valid_of_findBranch t tid s.bacPC.instAddr hfound)
  unfold generateFetchTarget
  refine (hcomplete { s with globalFTSeqNum := s.globalFTSeqNum + 1 }
    (.start s.bacPC s.globalFTSeqNum) rfl).bind ?_
  rintro ⟨t, ft, nextPC, predTaken⟩ ht
  have hfalse : Meets (t.startFalsePath c ans s.bacPC.instAddr) (fun t => J t.bpu.btb t.bpu.bbMap)
      (Spares bad) := by
    unfold startFalsePath
    split
    · refine meets_advanceL1PredPC_keeps hB ?_ ans
      exact ht
    · exact ht
  refine hfalse.bind ?_
  intro u hu
  refine (meets_ftqInsert_spares u.ftq _ ft).bind ?_
  intro q _
  exact hu

lemma meets_generateLoop_keeps (tid : ThreadID) (fts : Nat) : ∀ (takens : Nat)
    (answers : Nat → Answers) (s : FrontEnd B), J s.bpu.btb s.bpu.bbMap →
    Meets (generateLoop c tid fts takens answers s) (fun t => J t.bpu.btb t.bpu.bbMap)
      (Spares bad) := by
  induction fts with
  | zero =>
    intro takens answers s hs
    exact hs
  | succ _ ih =>
    intro takens answers s hs
    cases takens with
    | zero => exact hs
    | succ =>
      refine (meets_generateFetchTarget_keeps hB hs tid (answers 0)).bind ?_
      rintro ⟨t, predTaken⟩ ht
      dsimp only at ht ⊢
      split
      · exact ht
      · split
        · exact ht
        · exact ih _ _ t ht

lemma meets_generate_keeps (hs : J s.bpu.btb s.bpu.bbMap) (tid : ThreadID)
    (answers : Nat → Answers) :
    Meets (s.generate c tid answers) (fun t => J t.bpu.btb t.bpu.bbMap) (Spares bad) := by
  unfold generate
  split
  · exact meets_generateLoop_keeps hB tid _ _ _ s hs
  · split
    · unfold generateOverrideFetchTargets
      split
      · exact hs
      · refine (meets_advanceL1PredPC_keeps hB hs _).bind ?_
        intro t ht
        refine (meets_ftqInsert_spares t.ftq _ _).bind ?_
        intro q _
        exact ht
    · exact hs

lemma meets_tick_keeps (hs : s.bpu.Holds J H tid) (sig : Signals) (answers : Nat → Answers) :
    Meets (s.tick c tid sig answers) (fun t => J t.bpu.btb t.bpu.bbMap) (Spares bad) := by
  unfold tick
  split
  · refine (meets_checkSignalsAndUpdate_keeps hB hs sig).bind ?_
    intro t ht
    exact meets_generate_keeps hB ht tid answers
  · refine (meets_checkAndUpdateBPUSignals_keeps hB hs sig).bind ?_
    rintro ⟨t, squashed⟩ ht
    exact ht

/-! ## Predecoded instructions -/

/-- Fetch predicts only branches that the BTB knows, in the decoupled front end only inside of a
complex instruction without a history of use. -/
def KnownToBTB (c : FrontEndParams) (s : FrontEnd B) : FrontEndOp B → Prop
  | .updatePC tid inst pc _ => inst.isControl = true →
    (c.decoupledFrontEnd = true → inst.isMicroop = true ∧ inst.isLastMicroop = false ∧
      ∃ ft, s.ftq.readHead = some ft ∧ recovers ft inst pc.instAddr = true) →
    B.valid s.bpu.btb (c.thread tid) pc.instAddr = true
  | _ => True

lemma meets_predictMicroBranch_keeps (hs : J s.bpu.btb s.bpu.bbMap) (ans : Answers)
    (tid : ThreadID)
    (inst : StaticInst) (ft : FetchTarget) (hvalid : V s.bpu.btb tid pc.instAddr) :
    Meets (s.predictMicroBranch c ans tid inst ft pc) (fun r => J r.1.bpu.btb r.1.bpu.bbMap)
      (Spares bad) := by
  unfold predictMicroBranch
  obtain ⟨hbtb, hmap⟩ := btb_squashBpuHistories (c := c) s
  rw [← hbtb] at hs hvalid
  rw [← hmap] at hs
  generalize s.squashBpuHistories c = t at hs hvalid
  refine (meets_predict_keeps hB hs ans inst ft.ftNum hvalid).bind ?_
  rintro ⟨bpu, h, nextPC, pred⟩ hbpu
  exact hbpu

lemma meets_branchHistory_keeps (hs : J s.bpu.btb s.bpu.bbMap) (ans : Answers) (tid : ThreadID)
    (seqNum : InstSeqNum) (inst : StaticInst) (ft : FetchTarget)
    (hvalid : (inst.isMicroop && !inst.isLastMicroop) = true →
      recovers ft inst pc.instAddr = true → V s.bpu.btb tid pc.instAddr) :
    Meets (s.branchHistory c ans tid seqNum inst ft pc) (fun r => J r.1.bpu.btb r.1.bpu.bbMap)
      (Spares bad) := by
  -- the BTB is the same wherever the branch without a history is predicted
  have hmicro : ∀ t : FrontEnd B, t.bpu.btb = s.bpu.btb ∧ t.bpu.bbMap = s.bpu.bbMap →
      recovers ft inst pc.instAddr = true → (inst.isMicroop && !inst.isLastMicroop) = true →
      Meets (t.predictMicroBranch c ans tid inst ft pc) (fun r => J r.1.bpu.btb r.1.bpu.bbMap)
          (Spares bad) := by
    intro t ht hrec hinst
    have hknown := hvalid hinst hrec
    rw [← ht.1] at hs hknown
    rw [← ht.2] at hs
    exact meets_predictMicroBranch_keeps hB hs ans tid inst ft hknown
  unfold branchHistory
  rw [takeHistory_eq]
  cases hexit : exitHistory ft pc.instAddr with
  | none =>
    dsimp only [checkType]
    split
    · rename_i hinst
      have hrec : recovers ft inst pc.instAddr = true := by
        unfold recovers
        rw [hexit]
        exact hinst
      refine (hmicro s ⟨rfl, rfl⟩ hrec hinst).bind ?_
      rintro ⟨t, h, nextPC⟩ ht
      exact ht
    · exact hs
  | some h =>
    dsimp only [checkType]
    by_cases htype : h.type = getBranchType inst
    · rw [if_pos htype]
      exact hs
    · have hrec : recovers ft inst pc.instAddr = true := by
        unfold recovers
        rw [hexit]
        simpa using htype
      rw [if_neg htype]
      dsimp only
      have hbtb := btb_squashBpuHistories (c := c)
        { s with ftq := (s.ftq.setHead ft.withoutHistory).setHead ft }
      generalize squashBpuHistories c
        { s with ftq := (s.ftq.setHead ft.withoutHistory).setHead ft } = t at hbtb
      split
      · rename_i hinst
        refine (hmicro { t with ftq := t.ftq.lock } hbtb hrec hinst).bind ?_
        rintro ⟨u, g, nextPC⟩ hu
        exact hu
      · change J t.bpu.btb t.bpu.bbMap
        rw [hbtb.1, hbtb.2]
        exact hs

omit hB in
lemma meets_nextFetchPC_spares (ft : FetchTarget) (hist : PredictorHistory) (inst : StaticInst)
    (pc : PCState) (predictedPC : Option PCState) :
    Meets (nextFetchPC (B := B) c ft hist inst pc predictedPC) (fun _ => True) (Spares bad) := by
  unfold nextFetchPC predecodedPC
  split
  · trivial
  · split
    · split
      · trivial
      · rintro fault ⟨⟩
    · trivial

lemma meets_updatePreDecode_keeps (hs : J s.bpu.btb s.bpu.bbMap) (ans : Answers) (tid : ThreadID)
    (seqNum : InstSeqNum) (inst : StaticInst) (ft : FetchTarget)
    (hvalid : (inst.isMicroop && !inst.isLastMicroop) = true →
      recovers ft inst pc.instAddr = true → V s.bpu.btb tid pc.instAddr) :
    Meets (s.updatePreDecode c ans tid seqNum inst pc ft) (fun r => J r.1.bpu.btb r.1.bpu.bbMap)
      (Spares bad) := by
  unfold updatePreDecode
  split
  · rintro fault ⟨⟩
  · refine (meets_branchHistory_keeps hB hs ans tid seqNum inst ft hvalid).bind ?_
    rintro ⟨t, h, predictedPC⟩ ht
    dsimp only at ht ⊢
    split
    · rintro fault ⟨⟩
    · refine (meets_nextFetchPC_spares ft _ inst pc predictedPC).bind ?_
      intro nextPC _
      exact ht

lemma meets_updatePC_keeps (hs : J s.bpu.btb s.bpu.bbMap) (tid : ThreadID) (inst : StaticInst)
    (pc : PCState) (ans : Answers) (hknown : inst.isControl = true →
      (c.decoupledFrontEnd = true → inst.isMicroop = true ∧ inst.isLastMicroop = false ∧
        ∃ ft, s.ftq.readHead = some ft ∧ recovers ft inst pc.instAddr = true) →
      V s.bpu.btb (c.thread tid) pc.instAddr) :
    Meets (s.updatePC c ans (c.thread tid) inst pc) (fun r => J r.1.bpu.btb r.1.bpu.bbMap)
      (Spares bad) := by
  unfold updatePC
  dsimp only
  split
  · split
    · rintro fault ⟨⟩
    · rename_i ft hhead
      unfold updatePCFromTarget
      split
      · rename_i hctrl
        refine Meets.bind (meets_updatePreDecode_keeps hB
          (s := { s with globalSeqNum := s.globalSeqNum + 1 }) hs ans (c.thread tid) s.globalSeqNum
          inst ft ?_) ?_
        · intro hinst hrec
          simp only [Bool.and_eq_true, Bool.not_eq_true_eq_eq_false] at hinst
          exact hknown hctrl (fun _ => ⟨hinst.1, hinst.2, ft, hhead, hrec⟩)
        · rintro ⟨t, nextPC, taken⟩ ht
          exact ht
      · exact hs
  · rename_i hdec
    split
    · rename_i hctrl
      have hvalid := hknown hctrl (fun h => absurd h hdec)
      unfold predictAndInsert
      have hpredict := meets_predict_keeps (c := c) hB hs ans inst s.globalSeqNum hvalid
      cases hr : s.bpu.predict c ans inst s.globalSeqNum pc (c.thread tid) with
      | error => exact hpredict.of_error hr
      | ok => exact hpredict.of_ok hr
    · exact hs

omit hB in
lemma meets_step_upholds (hB : Upholds B I bad) (hs : I s.bpu.btb) (op : FrontEndOp B)
    (hknown : KnownToBTB c s op) :
    Meets (s.step c op) (fun t => I t.bpu.btb) (Spares bad) := by
  cases op with
  | tick tid sig answers =>
    have hholds : s.bpu.Holds (fun btb _ => I btb) (fun _ _ => True) (c.thread tid) :=
      ⟨hs, fun _ _ => trivial⟩
    exact meets_tick_keeps hB.contract hholds sig answers
  | updatePC tid inst pc ans =>
    exact meets_map.mpr (meets_updatePC_keeps hB.contract hs tid inst pc ans hknown)
  | popHead =>
    have hpop : Meets (s.ftq.popHead : Attempt B (FTQ × Bool))
        (fun _ => True) (Spares bad) := by
      unfold FTQ.popHead
      split
      · rintro fault ⟨⟩
      · split
        · trivial
        · split
          · trivial
          · trivial
    refine hpop.bind ?_
    intro r _
    exact hs
  | bacResteer | drainStall | drainResume => exact hs
  | btbEvent e =>
    refine (meets_ofBTB_spares (hB.event _ e hs)).bind ?_
    intro btb hbtb
    exact hbtb

end FrontEnd

end

end BTBFerret
