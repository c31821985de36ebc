import BTBFerret.QueueShape

/-!
# Where fetch targets lead

The PC behind a fetch target is fixed when the target is created. Fetch computes it once
more at the end of the target, from the history that it finds there or from the
instruction. Both agree as long as the queue is not locked.
-/

namespace BTBFerret

open FallibleRuns

/-- Fetch takes the targets as they were predicted. -/
def FTQ.usable (q : FTQ) : Prop := q.status ≠ .locked ∧ q.status ≠ .invalid

variable {ft : FetchTarget}

/-- What is behind a target that lost its history, if that was not predicted taken. -/
lemma Aimed.withoutHistory {c : FrontEndParams} (h : ft.nextAddress = some (ft.behind c)) :
    Aimed c ft.withoutHistory := by
  constructor
  · intro _
    exact h
  · rintro g ⟨⟩
  · rintro g ⟨⟩
  · rintro g ⟨⟩

namespace FrontEnd

variable {B : BranchTargetBuffer} {c : FrontEndParams}

variable {inst : StaticInst}

/-! ## What fetch makes of a target -/

/-- How the queue and the PC change when fetch predecodes an instruction of its head. -/
inductive Steered (c : FrontEndParams) (q : FTQ) (ft : FetchTarget) (inst : StaticInst)
    (pc : PCState) : FTQ → PCState → Prop
  | onward (hnone : inst.isControl = true → exitHistory ft pc.instAddr = none) :
      Steered c q ft inst pc q (c.advancePC inst pc)
  | untaken (h : PredictorHistory) (hexit : exitHistory ft pc.instAddr = some h)
      (hcontrol : inst.isControl = true) (huntaken : h.predTaken = false) :
      Steered c q ft inst pc (q.setHead ft.withoutHistory) (c.advancePC inst pc)
  | taken (h : PredictorHistory) (hexit : exitHistory ft pc.instAddr = some h)
      (hcontrol : inst.isControl = true) (predPC : PCState) (hpred : ft.predPC = some predPC) :
      Steered c q ft inst pc (q.setHead ft.withoutHistory) predPC
  | locked (q' : FTQ) (hq : q'.status = .locked) (hshape : q'.shape = q.shape) (nextPC : PCState) :
      Steered c q ft inst pc q' nextPC

lemma meets_nextFetchPC_steers {q q' : FTQ} {pc : PCState} {h g : PredictorHistory}
    {predictedPC : Option PCState} (hfrom : HistoryFrom q ft pc.instAddr q' h predictedPC)
    (hg : g.predTaken = h.predTaken) (hcontrol : inst.isControl = true)
    (hshape : q'.shape = q.shape) : Meets (nextFetchPC (B := B) c ft g inst pc predictedPC)
      (fun nextPC => Steered c q ft inst pc q' nextPC) (fun _ => True) := by
  cases hfrom with
  | head _ hexit =>
    unfold nextFetchPC predecodedPC
    dsimp only
    split
    · split
      · rename_i predPC hpred
        exact .taken h hexit hcontrol predPC hpred
      · trivial
    · rename_i huntaken
      rw [hg, Bool.not_eq_true] at huntaken
      exact .untaken h hexit hcontrol huntaken
  | placeholder _ hexit huntaken =>
    unfold nextFetchPC predecodedPC
    dsimp only
    rw [hg, huntaken, if_neg Bool.false_ne_true]
    exact .onward (fun _ => hexit)
  | recovered _ hq _ _ =>
    exact (Meets.any _).mono (fun nextPC _ => .locked q' hq hshape nextPC) (fun _ _ => trivial)

lemma meets_updatePreDecode_steers (hdec : c.decoupledFrontEnd = true) (s : FrontEnd B)
    (ans : Answers) (seqNum : InstSeqNum) (hcontrol : inst.isControl = true) (pc : PCState)
    (hhead : s.ftq.readHead = some ft) : Meets (s.updatePreDecode c ans 0 seqNum inst pc ft)
      (fun r => Steered c s.ftq ft inst pc r.1.ftq r.2.1) (fun _ => True) := by
  unfold updatePreDecode
  split
  · trivial
  · refine ((meets_branchHistory hdec s ans 0 seqNum inst ft hhead pc).mono (fun _ h => h)
      (fun _ _ => trivial)).bind ?_
    rintro ⟨t, h, predictedPC⟩ ⟨⟨hmove, _⟩, hfrom⟩
    dsimp only at hmove hfrom ⊢
    have hshape : t.ftq.shape = s.ftq.shape := by
      have hcore : t.core.ftq.shape = s.core.ftq.shape := by
        generalize t.core = k at hmove
        cases hmove with
        | moved => exact shape_setHead hhead
        | recovered => exact shape_undoQueue s.core
        | placeholder => rfl
      exact hcore
    split
    · trivial
    · refine (meets_nextFetchPC_steers hfrom rfl hcontrol hshape).bind ?_
      intro nextPC hsteered
      exact hsteered

/-- The last flag tells that the instruction is the last one of the target; the queue cannot
become invalid here. -/
lemma meets_updatePC_steers (hdec : c.decoupledFrontEnd = true) (s : FrontEnd B) (ans : Answers)
    (inst : StaticInst) (pc : PCState) (hhead : s.ftq.readHead = some ft) :
    Meets (s.updatePC c ans 0 inst pc)
      (fun r => Steered c s.ftq ft inst pc r.1.ftq r.2.1 ∧
        r.2.2.2 = (ft.isExitInst pc.instAddr && !inst.notLast || !r.1.ftq.isReady))
      (fun _ => True) := by
  have hlast : (!inst.isMicroop || inst.isLastMicroop) = !inst.notLast := by
    unfold StaticInst.notLast
    cases inst.isMicroop <;> cases inst.isLastMicroop <;> rfl
  unfold updatePC
  dsimp only
  rw [if_pos hdec, hhead]
  unfold updatePCFromTarget
  dsimp only
  split
  · rename_i hcontrol
    refine (meets_updatePreDecode_steers hdec { s with globalSeqNum := s.globalSeqNum + 1 } ans
      s.globalSeqNum hcontrol pc hhead).bind ?_
    rintro ⟨t, nextPC, taken⟩ hsteered
    refine ⟨hsteered, ?_⟩
    rw [hlast]
  · rename_i hcontrol
    refine ⟨.onward (fun h => absurd h hcontrol), ?_⟩
    rw [hlast]

lemma Steered.ready {q q' : FTQ} {pc nextPC : PCState} (h : Steered c q ft inst pc q' nextPC)
    (hready : q.status ≠ .invalid) : q'.status ≠ .invalid := by
  cases h with
  | onward | untaken | taken => exact hready
  | locked _ hq =>
    rw [hq]
    decide

/-! ## A cycle -/

/-- The signal after which the stage starts again at the PC. -/
inductive Restarts (s : FrontEnd B) (sig : Signals) : PCState → Prop
  | commit (q : CommitSquash) (hq : sig.commitSquash = some q) : Restarts s sig q.pc
  | decode (hcommit : sig.commitSquash = none) (q : DecodeSquash) (hq : sig.decodeSquash = some q) :
      Restarts s sig q.nextPC
  | fetch (hcommit : sig.commitSquash = none) (hdecode : sig.decodeSquash = none) (pc : PCState)
      (hpc : sig.fetchSquash = some pc) (hbusy : s.bacStatus ≠ .squashing) : Restarts s sig pc

/-- What a cycle does to the queue and to the PC of the stage. -/
inductive Ticked (c : FrontEndParams) (s t : FrontEnd B) (sig : Signals) : Prop
  | restarted (restarts : Restarts s sig t.bacPC) (ftq : t.ftq = ⟨[], .valid⟩)
  | drained (draining : s.stalls.drain = true) (ftq : t.ftq = ⟨[], .valid⟩)
  | grown (quiet : NoSquash sig (s.bacStatus = .squashing)) (draining : s.stalls.drain = false)
      (mid : Core) (ftq : mid.ftq = s.ftq) (bacPC : mid.bacPC = s.bacPC)
      (pushes : Pushes c mid t.core)

lemma Squashes.restarts {s : FrontEnd B} {sig : Signals} {k : Core}
    (h : Squashes sig (s.bacStatus = .squashing) s.core k) : Restarts s sig k.bacPC := by
  cases h with
  | commit q hq => exact .commit q hq
  | decode hcommit q hq => exact .decode hcommit q hq
  | fetch hcommit hdecode pc hpc hbusy => exact .fetch hcommit hdecode pc hpc hbusy

lemma Generated.rests {s t : FrontEnd B} (h : Generated c s t)
    (hstatus : s.bacStatus ≠ .running) :
    t.core = s.core := by
  cases h with
  | targets running => exact absurd running hstatus
  | nothing _ core => exact core

lemma Checked.ticked {s u t : FrontEnd B} {sig : Signals} (hchecked : Checked c sig s u)
    (hgen : Generated c u t) : Ticked c s t sig := by
  cases hchecked with
  | squashed move status =>
    have hcore : t.core = u.core := hgen.rests (by rw [status]; decide)
    have hpc : t.bacPC = u.bacPC := congrArg Core.bacPC hcore
    refine .restarted ?_ ((congrArg Core.ftq hcore).trans move.cleared.ftq)
    rw [hpc]
    exact move.restarts
  | drained _ draining core status =>
    have hcore : t.core = u.core := hgen.rests (by rw [status]; decide)
    exact .drained draining ((congrArg Core.ftq hcore).trans (congrArg Core.ftq core))
  | settled quiet draining core =>
    have hrest := commitDone_rest s.core sig.doneSeqNum
    refine .grown quiet draining u.core ?_ ?_ ?_
    · rw [core]
      exact hrest.ftq
    · rw [core]
      exact hrest.bacPC
    · cases hgen with
      | targets _ pushes => exact pushes
      | nothing _ hcore =>
        rw [hcore]
        exact .refl

lemma meets_tick_aimed (hdec : c.decoupledFrontEnd = true) (s : FrontEnd B) (sig : Signals)
    (answers : Nat → Answers) :
    Meets (s.tick c 0 sig answers) (fun t => Ticked c s t sig ∧
      (AllAimed c s.ftq → AllAimed c t.ftq)) (fun _ => True) := by
  unfold tick
  rw [if_pos hdec]
  refine ((meets_checkSignalsAndUpdate hdec s sig).mono (fun _ h => h) (fun _ _ => trivial)).bind ?_
  rintro u ⟨hchecked, _⟩
  have hkept : AllAimed c s.ftq → AllAimed c u.ftq := by
    intro hs
    cases hchecked with
    | squashed move =>
      have hftq : u.ftq = ⟨[], .valid⟩ := move.cleared.ftq
      rw [hftq]
      rintro ft ⟨⟩
    | drained _ _ core =>
      have hftq : u.ftq = ⟨[], .valid⟩ := congrArg Core.ftq core
      rw [hftq]
      rintro ft ⟨⟩
    | settled _ _ core =>
      have hftq : u.ftq = s.ftq := (congrArg Core.ftq core).trans (commitDone_rest _ _).ftq
      rw [hftq]
      exact hs
  refine (meets_generate (c := c) u 0 answers).mono ?_ (fun _ _ => trivial)
  rintro t ⟨hgenerated, _, haimed⟩
  exact ⟨hchecked.ticked hgenerated, fun hs => haimed (hkept hs)⟩

/-- Targets are only added, the first one of an empty queue at the PC of the stage. -/
lemma Pushes.head {k k' : Core} (h : Pushes c k k') :
    (k'.ftq.targets = [] ∧ k.ftq.targets = [] ∧ k'.bacPC = k.bacPC) ∨
    (∃ ft, k'.ftq.targets.head? = some ft ∧ (k.ftq.targets.head? = some ft ∨
      (k.ftq.targets = [] ∧ ft.startPC = k.bacPC))) := by
  induction h with
  | refl =>
    cases htargets : k.ftq.targets with
    | nil => exact .inl ⟨rfl, rfl, rfl⟩
    | cons ft => exact .inr ⟨ft, rfl, .inl rfl⟩
  | tail _ hpush ih =>
    obtain ⟨ft, nextPC, hpush⟩ := hpush
    rw [hpush.moved]
    rcases ih with ⟨hmid, hk, hpc⟩ | ⟨head, hhead, hold⟩
    · refine .inr ⟨ft, ?_, .inr ⟨hk, hpush.start.trans hpc⟩⟩
      rw [Core.push, hmid]
      rfl
    · refine .inr ⟨head, ?_, hold⟩
      rw [Core.push, List.head?_append, hhead]
      rfl

end FrontEnd

end BTBFerret
