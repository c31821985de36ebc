import BTBFerret.BTBContract
import BTBFerret.Serving
import BTBFerret.Uniqueness

/-!
# The panic of the multi-level BTB

A lookup of a branch that no level holds panics, by design: the stage asks the BTB
before it predicts. Two predictions are made without asking, the one of the coupled
front end and the one inside of a complex instruction.
-/

namespace BTBFerret

open FallibleRuns

namespace State

variable {p : Params}

/-- Without a prefetcher the BTB stays idle; this is all that the lookups need. -/
def Ready (s : State p) : Prop := p.probesPBuffer = false → Idle s

variable {s : State p}

lemma ready_step {t : State p} {o : Op} (h : Ready s) (hstep : s.step o = .ok t) : Ready t :=
  fun hoff => step_idle hoff (h hoff) hstep

lemma meets_ready (h : Ready s) (o : Op) {bad : Fault → Prop}
    (hfault : Meets (s.step o) (fun _ => True) bad) : Meets (s.step o) Ready bad := by
  cases hr : s.step o with
  | error => exact hfault.of_error hr
  | ok => exact ready_step h hr

lemma processDeferredPrefetchQueue_no_panic (s : State p) :
    Meets s.processDeferredPrefetchQueue (fun _ => True) (fun fault => ¬ fault = .lookupPanic) := by
  refine (processDeferredPrefetchQueue_spec (F := fun _ => True) (T := fun _ => True) s
    (fun _ _ => trivial) (fun _ _ => trivial)).mono (fun _ _ => trivial) ?_
  rintro fault (rfl | ⟨rfl, _⟩)
  · rintro ⟨⟩
  · rintro ⟨⟩

lemma lookup_of_valid (h : Ready s) {tid : ThreadID} {instPC : Addr}
    (hvalid : s.valid tid instPC = true) (type : BranchType) (taken : Bool) (blockStartAddr : Addr)
    (basePrediction : Bool) :
    Meets (s.lookupWithLatency tid instPC type taken blockStartAddr basePrediction)
      (fun r => Ready r.1) (fun fault => ¬ fault = .lookupPanic) := by
  rw [valid_iff_servingEntry] at hvalid
  obtain ⟨e, he⟩ := Option.isSome_iff_exists.mp hvalid
  have hserves := lookup_serves
    (fun hoff => pBuffer_findEntry_of_invalid (h hoff).pBuffer _) he type taken blockStartAddr
    basePrediction
  cases hr : s.lookupWithLatency tid instPC type taken blockStartAddr basePrediction with
  | error =>
    rintro rfl
    rcases hserves.of_error hr with ⟨_, hf | hf⟩ | ⟨_, hf⟩ <;> cases hf
  | ok r =>
    have hstep : s.step (.lookup tid instPC type taken blockStartAddr basePrediction) = .ok r.1 :=
      congrArg (Prod.fst <$> ·) hr
    exact ready_step h hstep

lemma lookup_of_invalid {tid : ThreadID} {instPC : Addr}
    (hinvalid : s.valid tid instPC = false) (type : BranchType) (taken : Bool)
    (blockStartAddr : Addr) (basePrediction : Bool) :
    s.lookupWithLatency tid instPC type taken blockStartAddr basePrediction =
      .error .lookupPanic := by
  have hnone : s.servingEntry tid instPC = none := by
    rw [valid_iff_servingEntry] at hinvalid
    cases hs : s.servingEntry tid instPC with
    | none => rfl
    | some =>
      rw [hs] at hinvalid
      cases hinvalid
  cases hl1 : s.l1btb.findEntry ⟨instPC, tid⟩ with
  | some =>
    rw [servingEntry_of_hit hl1] at hnone
    cases hnone
  | none =>
    have hbuf : s.pBuffer.findEntry ⟨instPC, tid⟩ = none := by
      cases hb : s.pBuffer.findEntry ⟨instPC, tid⟩ with
      | none => rfl
      | some =>
        unfold servingEntry at hnone
        simp only [hl1, hb] at hnone
        cases hnone
    rw [servingEntry_of_miss (fun _ => hbuf) hl1] at hnone
    have hpanic := lookup_of_no_source s type taken blockStartAddr basePrediction hl1 hnone
    exact hpanic

lemma multiLevelBTB_upholds :
    Upholds (multiLevelBTB p) (fun s => Ready s) (fun fault => fault = .lookupPanic) where
  lookupWithLatency := fun s tid pc type taken blockStartAddr basePrediction h hvalid =>
    lookup_of_valid h hvalid type taken blockStartAddr basePrediction
  lookupL1 := fun s tid pc h => ready_step h (o := .lookupL1 tid pc) rfl
  update := by
    intro s tid pc target type inst h
    obtain ⟨t, ht⟩ := update_returns s tid pc target type inst
    refine meets_ready h (.update tid pc target type inst) ?_
    change Meets (s.update tid pc target type inst) _ _
    rw [ht]
    trivial
  updateDirection := fun s tid pc taken h => ready_step h (o := .updateDirection tid pc taken) rfl
  trainMarkovOnCommit := by
    intro s pc wasL2Hit h
    refine meets_ready h (.trainMarkovOnCommit pc wasL2Hit) ?_
    refine (trainMarkovOnCommit_fault s pc wasL2Hit).mono (fun _ _ => trivial) ?_
    rintro fault rfl
    rintro ⟨⟩
  trainPrefetchBitsOnCommit := fun s tid pc taken h =>
    ready_step h (o := .trainPrefetchBitsOnCommit tid pc taken) rfl
  setBBMap := fun s map h => ready_step h (o := .setBBMap map) rfl
  event := by
    intro s e h
    cases e with
    | processDeferredPrefetchQueue =>
      exact meets_ready h .processDeferredPrefetchQueue (processDeferredPrefetchQueue_no_panic s)
    | memInvalidate => exact ready_step h (o := .memInvalidate) rfl
    | advance ticks cycles => exact ready_step h (o := .advance ticks cycles) rfl

end State

namespace FrontEnd

variable {p : Params} {c : FrontEndParams}

/-- If fetch predicts only branches that the BTB knows, no operation of a run panics; and every
lookup of another branch would. -/
theorem known_branches_never_panic {bw : PrevBrInfo} {pc : PCState}
    {ops : List (FrontEndOp (multiLevelBTB p))} {s : FrontEnd (multiLevelBTB p)}
    {op : FrontEndOp (multiLevelBTB p)}
    (along : Along (step c) (KnownToBTB c) (init (State.init p bw) pc) ops)
    (h : Reached c (State.init p bw) pc ops s) (hknown : KnownToBTB c s op) :
    s.step c op ≠ .error (.btb .lookupPanic) ∧
    ∀ tid addr, s.bpu.btb.valid tid addr = false →
      ∀ type taken blockStartAddr basePrediction,
        s.bpu.btb.lookupWithLatency tid addr type taken blockStartAddr basePrediction =
          .error .lookupPanic := by
  have hupholds := State.multiLevelBTB_upholds (p := p)
  have hstart : State.Ready (init (B := multiLevelBTB p) (State.init p bw) pc).bpu.btb :=
    hupholds.setBBMap _ _ (fun _ => State.idle_init bw)
  have hready : State.Ready s.bpu.btb := by
    refine run_invariant_state (fun s : FrontEnd (multiLevelBTB p) => State.Ready s.bpu.btb) ?_
      hstart along h
    intro s op t hs hop hstep
    exact (meets_step_upholds hupholds hs op hop).of_ok hstep
  refine ⟨?_, fun tid addr hinvalid => State.lookup_of_invalid hinvalid⟩
  intro hpanic
  exact (meets_step_upholds hupholds hready op hknown).of_error hpanic .lookupPanic rfl rfl

def microBranch : StaticInst := ⟨0, true, false, false, true, false, true, false, true, false, 4⟩

instance (s : FrontEnd (multiLevelBTB p)) (op : FrontEndOp (multiLevelBTB p)) :
    Decidable (KnownToBTB c s op) :=
  match op with
  | .updatePC tid inst pc _ =>
    decidable_of_iff (inst.isControl = true →
      (c.decoupledFrontEnd = true → inst.isMicroop = true ∧ inst.isLastMicroop = false ∧
        (s.ftq.readHead.any fun ft => recovers ft inst pc.instAddr) = true) →
      s.bpu.btb.valid (c.thread tid) pc.instAddr = true) (by
        simp only [KnownToBTB, Option.any_eq_true]
        rfl)
  | .tick _ _ _ => .isTrue trivial
  | .popHead => .isTrue trivial
  | .bacResteer => .isTrue trivial
  | .drainStall => .isTrue trivial
  | .drainResume => .isTrue trivial
  | .btbEvent _ => .isTrue trivial

/-- The next cycle predicts the branch at 12, which the BTB knows. -/
theorem known_branches_never_panic_small :
    ∃ s, ReachedSmall (.small 4) learnBranch s ∧ s.bpu.btb.valid 0 12 = true ∧
      s.step (.small 4) quietTick ≠ .error (.btb .lookupPanic) := by
  obtain ⟨s, hs, hvalid⟩ := exists_reached (.small 4) learnBranch
    (fun s => s.bpu.btb.valid 0 12) (by decide +kernel)
  have along : Along (step (.small 4)) (KnownToBTB (.small 4))
      (init (B := multiLevelBTB .small) (State.init .small ⟨false, false⟩)
        (.ofAddr 0)) learnBranch :=
    along_of_test (KnownToBTB (.small 4)) (by decide +kernel)
  have hknown : KnownToBTB (.small 4) s quietTick := trivial
  exact ⟨s, hs, hvalid, (known_branches_never_panic along hs hknown).1⟩

def panics {α : Type} (x : Except (FrontEndFault Fault) α) : Bool :=
  match x with
  | .error (.btb .lookupPanic) => true
  | _ => false

lemma eq_error_of_panics {α : Type} {x : Except (FrontEndFault Fault) α} (h : panics x = true) :
    x = .error (.btb .lookupPanic) := by
  unfold panics at h
  split at h
  · rfl
  · cases h

/-- The first branch of a complex instruction in the decoupled front end, and any new branch in
the coupled one, panic. -/
theorem unknown_branches_panic :
    (∃ s, ReachedSmall (.small 4) [quietTick] s ∧
      s.step (.small 4) (.updatePC 0 microBranch (.ofAddr 0) .notTaken) =
        .error (.btb .lookupPanic)) ∧
    ∃ s, ReachedSmall { FrontEndParams.small 4 with decoupledFrontEnd := false } [] s ∧
      s.step { FrontEndParams.small 4 with decoupledFrontEnd := false }
        (.updatePC 0 (.direct true) (.ofAddr 0) .notTaken) = .error (.btb .lookupPanic) := by
  constructor
  · obtain ⟨s, hs, hpanic⟩ := exists_reached (.small 4) [quietTick]
      (fun s => panics (s.step (.small 4) (.updatePC 0 microBranch (.ofAddr 0) .notTaken)))
      (by decide +kernel)
    exact ⟨s, hs, eq_error_of_panics hpanic⟩
  · refine ⟨_, rfl, eq_error_of_panics ?_⟩
    decide +kernel

end FrontEnd

end BTBFerret
