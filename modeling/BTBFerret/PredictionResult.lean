import BTBFerret.FrontEndRuns

/-!
# What a prediction returns

The direction of a branch comes from one predictor and its target from up to three others. BTB and
indirect predictor give a target to taken branches only. The return address stack is popped by every
return that is detected, so a conditional return that is predicted not taken leaves with the return
address all the same.
-/

namespace BTBFerret

open FallibleRuns

namespace BPredUnit

open Bool Option

variable {B : BranchTargetBuffer} {c : FrontEndParams} {ans : Answers} {inst : StaticInst}

def lookupBTB (c : FrontEndParams) (s : BPredUnit B) (ans : Answers) (inst : StaticInst)
    (pc : PCState) (tid : ThreadID) : Except B.Fault (B.State × BTBLookupResult) :=
  let (condPred, condLatency) := direction c ans inst
  B.lookupWithLatency s.btb tid pc.instAddr (getBranchType inst) condPred (s.blockStartAddr tid)
    (if condLatency = 2 then !condPred else condPred)

/-- A detected return that is predicted not taken, and an address for it on the stack. -/
structure PopsNotTaken (c : FrontEndParams) (s : BPredUnit B) (ans : Answers) (inst : StaticInst)
    (pc : PCState) (tid : ThreadID) : Prop where
  ras : c.ras = true
  detected :
    (∃ btb res, s.lookupBTB c ans inst pc tid = .ok (btb, res) ∧ res.target.isSome = true) ∨
      c.requiresBTBHit = false
  return_ : inst.isReturn = true ∧ inst.isCall = false
  notTaken : (direction c ans inst).1 = false
  address : ans.returnAddr ≠ none

inductive Provided (c : FrontEndParams) (ans : Answers) (inst : StaticInst) (predTaken : Bool)
    (btbTarget : Option PCState) : TargetProvider → Option PCState → Prop
  | none : Provided c ans inst predTaken btbTarget .noTarget none
  | btb (a : PCState) (hit : btbTarget = some a) (taken : predTaken = true) :
      Provided c ans inst predTaken btbTarget .btb (some a)
  | ras (a : PCState) (popped : ans.returnAddr = some a) (on : c.ras = true)
      (detected : btbTarget.isSome = true ∨ c.requiresBTBHit = false)
      (return_ : inst.isReturn = true ∧ inst.isCall = false) :
      Provided c ans inst predTaken btbTarget .ras (some a)
  | indirect (a : PCState) (hit : ans.indirectTarget = some a) (taken : predTaken = true) :
      Provided c ans inst predTaken btbTarget .indirect (some a)

/-- The BTB, overridden by the return address stack. -/
lemma provided_direct (c : FrontEndParams) (ans : Answers) (inst : StaticInst) (predTaken : Bool)
    (btbTarget : Option PCState) {fromBTB fromRAS : TargetProvider × Option PCState}
    (hbtb : fromBTB = if btbTarget.isSome && predTaken then (TargetProvider.btb, btbTarget)
      else (.noTarget, none))
    (hras : fromRAS = if c.ras && (btbTarget.isSome || !c.requiresBTBHit) && !inst.isCall &&
        inst.isReturn then
      match ans.returnAddr with
      | some a => (TargetProvider.ras, some a)
      | none => fromBTB
      else fromBTB) :
    Provided c ans inst predTaken btbTarget fromRAS.1 fromRAS.2 := by
  have hdirect : Provided c ans inst predTaken btbTarget fromBTB.1 fromBTB.2 := by
    rw [hbtb]
    split
    · rename_i htaken
      obtain ⟨hsome, htaken⟩ := and_eq_true_iff.mp htaken
      obtain ⟨a, rfl⟩ := isSome_iff_exists.mp hsome
      exact .btb a rfl htaken
    · exact .none
  rw [hras]
  split
  · rename_i hpop
    simp only [and_eq_true, or_eq_true, not_eq_true'] at hpop
    obtain ⟨⟨⟨hon, hdetected⟩, hcall⟩, hreturn⟩ := hpop
    split
    · rename_i a ha
      exact .ras a ha hon hdetected ⟨hreturn, hcall⟩
    · exact hdirect
  · exact hdirect

lemma provided_provideTarget (predTaken : Bool) (btbTarget : Option PCState) (latency : Cycles) :
    Provided c ans inst predTaken btbTarget
      (provideTarget c ans inst predTaken btbTarget latency).1
      (provideTarget c ans inst predTaken btbTarget latency).2.1 := by
  have hdirect := provided_direct c ans inst predTaken btbTarget rfl rfl
  unfold provideTarget
  dsimp only
  split
  · rename_i hask
    simp only [and_eq_true] at hask
    split
    · rename_i a ha
      exact .indirect a ha hask.1.1.1.2
    · exact hdirect
  · exact hdirect

/-- A return that pops an address leaves with it, unless it is predicted taken and indirect. -/
lemma provideTarget_pops {btbTarget : Option PCState} {a : PCState} (on : c.ras = true)
    (detected : btbTarget.isSome = true ∨ c.requiresBTBHit = false)
    (return_ : inst.isReturn = true ∧ inst.isCall = false) (popped : ans.returnAddr = some a)
    (latency : Cycles) :
    provideTarget c ans inst false btbTarget latency = (.ras, some a, latency) := by
  have hdetected : (btbTarget.isSome || !c.requiresBTBHit) = true := by simpa using detected
  simp [provideTarget, on, hdetected, return_, popped]

lemma predict_eq_ok {s s' : BPredUnit B} {seqNum : InstSeqNum} {pc pc' : PCState} {tid : ThreadID}
    {hist : PredictorHistory} {pred : Prediction}
    (h : s.predict c ans inst seqNum pc tid = .ok (s', hist, pc', pred)) :
    ∃ btb res latency given, s.lookupBTB c ans inst pc tid = .ok (btb, res) ∧
      given = provideTarget c ans inst (direction c ans inst).1 res.target latency ∧
      hist.targetProvider = given.1 ∧ hist.target = some pc' ∧
      pred.taken = ((direction c ans inst).1 && given.1 != .noTarget) ∧
      pc' = if given.1 = .noTarget then c.advancePC inst pc else given.2.1.getD pc := by
  obtain ⟨⟨btb, res⟩, hlookup, h⟩ := bind_eq_ok_iff.mp h
  have hbtb : s.lookupBTB c ans inst pc tid = .ok (btb, res) := by
    cases hx : s.lookupBTB c ans inst pc tid with
    | ok r =>
      have hr : (.ok r : Attempt B (B.State × BTBLookupResult)) =
          .ok (btb, res) := (congrArg ofBTB hx).symm.trans hlookup
      cases hr
      rfl
    | error fault =>
      have hr : (.error (.btb fault) : Attempt B (B.State × BTBLookupResult)) =
          .ok (btb, res) := (congrArg ofBTB hx).symm.trans hlookup
      cases hr
  cases h
  exact ⟨btb, res, _, _, hbtb, rfl, rfl, rfl, rfl, rfl⟩

section

variable {s s' : BPredUnit B} {seqNum : InstSeqNum} {pc pc' : PCState} {tid : ThreadID}
  {hist : PredictorHistory} {pred : Prediction}

lemma target_of_pops (h : s.predict c ans inst seqNum pc tid = .ok (s', hist, pc', pred))
    (hpops : PopsNotTaken c s ans inst pc tid) : ans.returnAddr = some pc' := by
  obtain ⟨btb, res, latency, given, hlookup, hgiven, -, -, -, hpc⟩ := predict_eq_ok h
  obtain ⟨a, ha⟩ := ne_none_iff_exists'.mp hpops.address
  have hdetected : res.target.isSome = true ∨ c.requiresBTBHit = false := by
    refine hpops.detected.imp_left ?_
    rintro ⟨btb', res', hlookup', hhit⟩
    obtain ⟨-, rfl⟩ := Prod.mk.inj (Except.ok.inj (hlookup.symm.trans hlookup'))
    exact hhit
  rw [hpops.notTaken, provideTarget_pops hpops.ras hdetected hpops.return_ ha] at hgiven
  rw [ha, hpc, hgiven]
  rfl

/-- A prediction of not taken leaves with the fall-through PC exactly if no other address was popped
for it, and one of taken leaves with the target of its provider. -/
theorem prediction_consistent
    (h : s.predict c ans inst seqNum pc tid = .ok (s', hist, pc', pred)) :
    (pred.taken = false →
      ((pc' = c.advancePC inst pc ∧ hist.target = some (c.advancePC inst pc)) ↔
        (PopsNotTaken c s ans inst pc tid → ans.returnAddr = some (c.advancePC inst pc)))) ∧
    (pred.taken = true → hist.target = some pc' ∧
      ((hist.targetProvider = .btb ∧
          ∃ btb res, s.lookupBTB c ans inst pc tid = .ok (btb, res) ∧ res.target = some pc') ∨
        (hist.targetProvider = .ras ∧ ans.returnAddr = some pc') ∨
        (hist.targetProvider = .indirect ∧ ans.indirectTarget = some pc'))) := by
  obtain ⟨btb, res, latency, given, hlookup, hgiven, hprovider, htarget, htaken, hpc⟩ :=
    predict_eq_ok h
  have hprovided : Provided c ans inst (direction c ans inst).1 res.target given.1 given.2.1 :=
    hgiven ▸ provided_provideTarget _ _ _
  rw [htaken, htarget, hprovider]
  generalize given.1 = provider at hprovided hpc ⊢
  generalize given.2.1 = target at hprovided hpc
  refine ⟨fun hpred => ⟨?_, fun hall => ?_⟩, fun hpred => ⟨rfl, ?_⟩⟩
  · rintro ⟨hnext, -⟩ hpops
    rw [← hnext]
    exact target_of_pops h hpops
  · have hnext : pc' = c.advancePC inst pc := by
      cases hprovided with
      | none => exact hpc
      | btb _ _ taken =>
        rw [taken] at hpred
        cases hpred
      | ras a popped on detected return_ =>
        have hnot : (direction c ans inst).1 = false := (Bool.and_true _).symm.trans hpred
        have haddress : ans.returnAddr ≠ none := popped ▸ some_ne_none a
        have hgiven := hall ⟨on, detected.imp_left fun hhit => ⟨btb, res, hlookup, hhit⟩, return_,
          hnot, haddress⟩
        exact hpc.trans (some.inj (popped.symm.trans hgiven))
      | indirect _ _ taken =>
        rw [taken] at hpred
        cases hpred
    exact ⟨hnext, congrArg some hnext⟩
  · cases hprovided with
    | none => simp at hpred
    | btb _ hit => exact .inl ⟨rfl, btb, res, hlookup, hit.trans (congrArg some hpc.symm)⟩
    | ras _ popped => exact .inr (.inl ⟨rfl, popped.trans (congrArg some hpc.symm)⟩)
    | indirect _ hit => exact .inr (.inr ⟨rfl, hit.trans (congrArg some hpc.symm)⟩)

end

def withRAS : FrontEndParams := { FrontEndParams.small 4 with ras := true }

def conditionalReturn : StaticInst :=
  ⟨0, true, true, false, false, true, true, false, false, false, 4⟩

/-- The direction predictor answers `taken`, and address 200 is on top of the stack. -/
def returning (taken : Bool) : Answers :=
  { Answers.notTaken with cond := (taken, 0), returnAddr := some (.ofAddr 200) }

/-- A return at 4, known with the target 100: predicted taken it leaves to the return address, and
not taken with an empty stack it falls through. -/
theorem prediction_consistent_small :
    ∃ btb : State .small, State.Reached ⟨false, false⟩ [.wait, .resolve 4 100] btb ∧
      (∃ s' hist pc' pred, (init (B := multiLevelBTB .small) btb).predict withRAS (returning true)
          conditionalReturn 1 (.ofAddr 4) 0 = .ok (s', hist, pc', pred) ∧
        pred.taken = true ∧ hist.targetProvider = .ras ∧
        (returning true).returnAddr = some pc') ∧
      ∃ s' hist pc' pred, (init (B := multiLevelBTB .small) btb).predict withRAS .notTaken
          conditionalReturn 1 (.ofAddr 4) 0 = .ok (s', hist, pc', pred) ∧
        pred.taken = false ∧ pc' = withRAS.advancePC conditionalReturn (.ofAddr 4) := by
  obtain ⟨btb, hbtb, htest⟩ := exists_of_holdsAt
    (run State.step (State.init .small ⟨false, false⟩) [.wait, .resolve 4 100])
    (fun btb => holdsAt ((init (B := multiLevelBTB .small) btb).predict withRAS (returning true)
        conditionalReturn 1 (.ofAddr 4) 0)
        (fun r => r.2.2.2.taken && r.2.1.targetProvider == .ras) &&
      holdsAt ((init (B := multiLevelBTB .small) btb).predict withRAS .notTaken
        conditionalReturn 1 (.ofAddr 4) 0) (fun r => !r.2.2.2.taken)) (by decide +kernel)
  obtain ⟨hfirst, hsecond⟩ := and_eq_true_iff.mp htest
  refine ⟨btb, hbtb, ?_, ?_⟩
  · obtain ⟨⟨s', hist, pc', pred⟩, hr, hres⟩ := exists_of_holdsAt _ _ hfirst
    obtain ⟨htaken, hprovider⟩ := and_eq_true_iff.mp hres
    have hras : hist.targetProvider = .ras := eq_of_beq hprovider
    refine ⟨s', hist, pc', pred, hr, htaken, hras, ?_⟩
    obtain ⟨_, ⟨hother, _⟩ | ⟨_, hgiven⟩ | ⟨hother, _⟩⟩ := (prediction_consistent hr).2 htaken
    · rw [hras] at hother
      cases hother
    · exact hgiven
    · rw [hras] at hother
      cases hother
  · obtain ⟨⟨s', hist, pc', pred⟩, hr, hres⟩ := exists_of_holdsAt _ _ hsecond
    have htaken : pred.taken = false := by simpa using hres
    have hnext := ((prediction_consistent hr).1 htaken).mpr fun h => absurd rfl h.address
    exact ⟨s', hist, pc', pred, hr, htaken, hnext.1⟩

/-- The same return predicted not taken leaves with the return address. -/
theorem not_taken_return_leaves_to_ras :
    ∃ (btb : State .small) (s' : BPredUnit (multiLevelBTB .small)) (hist : PredictorHistory)
      (pc' : PCState) (pred : Prediction),
      State.Reached ⟨false, false⟩ [.wait, .resolve 4 100] btb ∧
      (init (B := multiLevelBTB .small) btb).predict withRAS (returning false) conditionalReturn 1
        (.ofAddr 4) 0 = .ok (s', hist, pc', pred) ∧
      pred.taken = false ∧ pc' = .ofAddr 200 ∧ hist.target = some (.ofAddr 200) ∧
      withRAS.advancePC conditionalReturn (.ofAddr 4) = .ofAddr 8 := by
  obtain ⟨btb, hbtb, htest⟩ := exists_of_holdsAt
    (run State.step (State.init .small ⟨false, false⟩) [.wait, .resolve 4 100])
    (fun btb => holdsAt ((init (B := multiLevelBTB .small) btb).predict withRAS (returning false)
      conditionalReturn 1 (.ofAddr 4) 0)
      (fun r => !r.2.2.2.taken && r.2.2.1 == .ofAddr 200 && r.2.1.target == some (.ofAddr 200)))
    (by decide +kernel)
  obtain ⟨⟨s', hist, pc', pred⟩, hr, hres⟩ := exists_of_holdsAt _ _ htest
  simp only [and_eq_true, not_eq_true', beq_iff_eq] at hres
  obtain ⟨⟨htaken, hpc⟩, htarget⟩ := hres
  exact ⟨btb, s', hist, pc', pred, hbtb, hr, htaken, hpc, htarget, rfl⟩

end BPredUnit

end BTBFerret
