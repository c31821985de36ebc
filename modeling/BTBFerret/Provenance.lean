import BTBFerret.LineRules

/-!
# Where targets come from

Was the target of a valid entry passed to an update of the thread that the entry is tagged with? And
do address, target and instruction of an entry stem from one update? Both fail in general: a victim
written back is tagged with the thread that causes the write-back, and an update that hits an entry
of an aliasing branch leaves its address in place. They hold in runs that avoid this.
-/

namespace BTBFerret

open AssociativeCache FallibleRuns List

def Op.isDemand : Op → Bool
  | .trainMarkovOnCommit .. | .processDeferredPrefetchQueue => false
  | _ => true

def TrainedBy (ops : List Op) (tid : ThreadID) (target : Option PCState) : Prop :=
  ∃ instPC t type inst, Op.update tid instPC t type inst ∈ ops ∧ target = some t

def PairedBy (ops : List Op) (instPC : Addr) (target : Option PCState)
    (inst : Option StaticInst) : Prop :=
  ∃ tid t type, Op.update tid instPC t type inst ∈ ops ∧ target = some t

variable {ops : List Op}

lemma TrainedBy.append {tid : ThreadID} {target : Option PCState} (h : TrainedBy ops tid target)
    (o : Op) : TrainedBy (ops ++ [o]) tid target := by
  obtain ⟨instPC, t, type, inst, hmem, ht⟩ := h
  exact ⟨instPC, t, type, inst, mem_append_left _ hmem, ht⟩

lemma PairedBy.append {instPC : Addr} {target : Option PCState} {inst : Option StaticInst}
    (h : PairedBy ops instPC target inst) (o : Op) : PairedBy (ops ++ [o]) instPC target inst := by
  obtain ⟨tid, t, type, hmem, ht⟩ := h
  exact ⟨tid, t, type, mem_append_left _ hmem, ht⟩

namespace State

variable {p : Params}

/-- A condition on the valid entries of all levels. -/
def Everywhere (Q : BTBEntry → Prop) (s : State p) : Prop :=
  (∀ l, (s.l1btb.get l).valid = true → Q (s.l1btb.get l)) ∧
  (∀ l, (s.l2btb.get l).valid = true → Q (s.l2btb.get l)) ∧
  (∀ l, (s.l3btb.get l).valid = true → Q (s.l3btb.get l)) ∧
  (∀ l, (s.pBuffer.get l).valid = true → Q (s.pBuffer.get l))

variable {s : State p}

lemma Orderly.everywhere {R : Line → Prop} (h : Orderly (fun _ _ => R) s) :
    Everywhere (fun e => R e.line) s :=
  ⟨h.l1btb, h.l2btb, h.l3btb, h.pBuffer⟩

/-! ## Threads -/

def trainedRule (ops : List Op) : LineRule := fun _ _ x => TrainedBy ops x.tag.tid x.target

/-- Everything that the operation makes leave L1 or L2 belongs to its thread. -/
def OwnVictims (s : State p) (o : Op) : Prop := ∀ x ∈ s.leaving o, x.2.tag.tid = x.1

instance (s : State p) (o : Op) : Decidable (OwnVictims s o) :=
  inferInstanceAs (Decidable (∀ x ∈ s.leaving o, x.2.tag.tid = x.1))

lemma tid_of_tag {v : BTBLevel} {key : KeyType} {x : Line} (h : x.tag = v.shape.tagOf key) :
    x.tag.tid = key.tid := by
  rw [h]
  rfl

lemma copyable_trainedRule (ops : List Op) :
    Copyable (trainedRule ops) p (fun _ => True) (fun _ => True) where
  toL1 := by
    intro v _ key x _ hx ht
    rw [trainedRule, tid_of_tag ht] at hx
    exact hx
  toBuffer := by
    intro v _ key x _ hx ht
    rw [trainedRule, tid_of_tag ht] at hx
    exact hx

section

variable (s : State p) (tid : ThreadID) (instPC : Addr) (target : PCState)
  (inst : Option StaticInst)

lemma updatedLine_tid : (s.updatedLine tid instPC target inst).tag.tid = tid := by
  unfold updatedLine
  split
  · rename_i way hit
    obtain ⟨_, ht⟩ := (p.l1btb.shape.match_iff _ _).mp (Cache.findEntry_some hit).2
    exact congrArg KeyType.tid ht
  · rfl

lemma updatedLine_target : (s.updatedLine tid instPC target inst).target = some target := by
  unfold updatedLine
  split <;> rfl

end

variable {s' : State p} {o : Op}

lemma step_trained (hs : Orderly (trainedRule ops) s) (hown : OwnVictims s o)
    (h : s.step o = .ok s') : Orderly (trainedRule (ops ++ [o])) s' := by
  have hgrown : Orderly (trainedRule (ops ++ [o])) s := hs.mono (fun _ _ _ hx => hx.append o)
  refine (step_effect (allows_all s o) h).orderly hgrown (copyable_trainedRule _)
    (fun _ _ _ _ _ _ _ => trivial) ?_ ?_
  · rintro tid instPC target type inst rfl
    unfold trainedRule
    rw [updatedLine_tid, updatedLine_target]
    exact ⟨instPC, target, type, inst, mem_append_right _ mem_cons_self, rfl⟩
  · intro x hx v
    obtain ⟨_, _, _, hq⟩ := hgrown.leaving hx
    rw [trainedRule, hown x hx] at hq
    exact hq

lemma reached_trained {bw : PrevBrInfo} (hown : Along step OwnVictims (State.init p bw) ops)
    (h : Reached bw ops s) : Orderly (trainedRule ops) s :=
  @run_invariant _ _ _ step OwnVictims (fun past s => Orderly (trainedRule past) s)
    (fun _ _ _ _ hs ho hstep => step_trained hs ho hstep) [] _ s ops (orderly_init bw) hown h

/-- If write-backs never concern another thread, every entry and every lookup of
a thread has a target that an update of this thread passed. -/
theorem targets_trained_by_own_thread {bw : PrevBrInfo} {ops : List Op} {s : State p}
    (hown : Along step OwnVictims (State.init p bw) ops) (h : Reached bw ops s) :
    Everywhere (fun e => TrainedBy ops e.tag.tid e.target) s ∧
      ∀ tid instPC type taken blockStartAddr basePrediction r,
        s.lookupWithLatency tid instPC type taken blockStartAddr basePrediction = .ok r →
          TrainedBy ops tid r.2.target := by
  have hs := reached_trained hown h
  refine ⟨hs.everywhere, ?_⟩
  rintro tid instPC type taken blockStartAddr basePrediction ⟨s', r⟩ hr
  rcases lookup_target hr with ⟨way, hfind, ht⟩ | ⟨_, src, hsrc, ht⟩
  · obtain ⟨hq, htag⟩ := hs.l1btb.found hfind
    rw [trainedRule, @tid_of_tag _ _ (s.l1btb.get way).line htag] at hq
    rw [ht]
    exact hq
  · obtain ⟨v, _, hq, htag⟩ := hs.source hsrc
    rw [trainedRule, @tid_of_tag _ _ src.line htag] at hq
    rw [ht]
    exact hq

/-- Two branches are trained and one moves to L2 and back. -/
theorem targets_trained_by_own_thread_small :
    ∃ s : State Params.small, Reached ⟨false, false⟩ broughtBack s ∧
      Everywhere (fun e => TrainedBy broughtBack e.tag.tid e.target) s := by
  obtain ⟨s, hs, _⟩ := exists_run Params.small broughtBack (fun s => s.valid 0 10)
    (by decide +kernel)
  exact ⟨s, hs, (targets_trained_by_own_thread (along_of_test OwnVictims (by decide +kernel)) hs).1⟩

/-- Two threads resolve a branch each; the second one takes the L1 way of the first. -/
def threadMix : List Op :=
  [.update 0 20 (PCState.ofAddr 101) .directUncond none, .wait,
    .update 1 10 (PCState.ofAddr 100) .directUncond none]

/-- The victim of thread 0 is written back for thread 1, which then finds the
target of thread 0 under the branch that only thread 0 ever resolved. -/
theorem targets_trained_by_other_thread :
    ∃ s : State Params.small, Reached ⟨false, false⟩ threadMix s ∧
      ¬ Everywhere (fun e => TrainedBy threadMix e.tag.tid e.target) s ∧
      ∃ r, s.lookupWithLatency 1 20 .directUncond true 0 true = .ok r ∧
        ¬ TrainedBy threadMix 1 r.2.target := by
  have huntrained : ¬ TrainedBy threadMix 1 (some (PCState.ofAddr 101)) := by
    rintro ⟨instPC, t, type, inst, hmem, ht⟩
    simp only [threadMix, mem_cons, Op.update.injEq, Op.wait, reduceCtorEq,
      not_mem_nil, or_false, false_or] at hmem
    rcases hmem with ⟨h, _⟩ | ⟨_, _, rfl, _⟩
    · exact absurd h (by decide)
    · exact absurd ht (by decide)
  obtain ⟨s, hs, htest⟩ := exists_of_holdsAt
    (run step (State.init Params.small ⟨false, false⟩) threadMix)
    (fun s => (s.l2btb.get (BTBLevel.firstWay _)).valid &&
      (s.l2btb.get (BTBLevel.firstWay _)).tag.tid == 1 &&
      decide ((s.l2btb.get (BTBLevel.firstWay _)).target = some (PCState.ofAddr 101)) &&
      holdsAt (s.lookupWithLatency 1 20 .directUncond true 0 true)
        (fun r => decide (r.2.target = some (PCState.ofAddr 101))))
    (by decide +kernel)
  simp only [Bool.and_eq_true, beq_iff_eq, decide_eq_true_eq] at htest
  obtain ⟨⟨⟨hv, htid⟩, htarget⟩, hlookup⟩ := htest
  obtain ⟨r, hr, hrt⟩ := exists_of_holdsAt _ _ hlookup
  refine ⟨s, hs, ?_, r, hr, ?_⟩
  · rintro ⟨_, hl2, _⟩
    have hbad : TrainedBy threadMix _ _ := hl2 _ hv
    rw [htid, htarget] at hbad
    exact huntrained hbad
  · rw [of_decide_eq_true hrt]
    exact huntrained

/-! ## Pairs of target and instruction -/

def pairedRule (ops : List Op) : LineRule := fun _ _ x => PairedBy ops x.branchAddr x.target x.inst

def HitsOwnEntry (s : State p) : Op → Prop
  | .update tid instPC _ _ _ =>
    (s.l1btb.findEntry ⟨instPC, tid⟩).all (fun way => (s.l1btb.get way).branchAddr == instPC) = true
  | _ => True

instance (s : State p) (o : Op) : Decidable (HitsOwnEntry s o) := by
  unfold HitsOwnEntry
  split <;> infer_instance

def Untrained (s : State p) : Prop := ∀ l, (s.markov.get l).successors = []

lemma untrained_init (bw : PrevBrInfo) : Untrained (State.init p bw) := by
  intro l
  unfold State.init
  rw [Cache.get_init]
  rfl

lemma Untrained.allows (hs : Untrained s) (ho : o.isDemand = true) :
    Allows (fun _ => False) (fun _ => True) s o := by
  cases o with
  | lookup =>
    refine ⟨trivial, fun _ l a ha => ?_⟩
    rw [hs l] at ha
    cases ha
  | processDeferredPrefetchQueue => cases ho
  | _ => exact trivial

lemma step_untrained (hs : Untrained s) (ho : o.isDemand = true) (h : s.step o = .ok s') :
    Untrained s' := by
  have hkeep : o.isStatic = true → Untrained s' := by
    intro hstatic l
    rw [((step_effect (hs.allows ho) h).rest hstatic).markov l]
    exact hs l
  cases o with
  | trainMarkovOnCommit => cases ho
  | setBBMap | advance =>
    cases h
    exact hs
  | _ => exact hkeep rfl

lemma updatedLine_branchAddr {tid : ThreadID} {instPC : Addr} {target : PCState}
    {type : BranchType} {inst : Option StaticInst}
    (h : HitsOwnEntry s (.update tid instPC target type inst)) :
    (s.updatedLine tid instPC target inst).branchAddr = instPC := by
  simp only [HitsOwnEntry] at h
  unfold updatedLine
  split
  · rename_i way hit
    rw [hit] at h
    exact beq_iff_eq.mp h
  · rfl

lemma updatedLine_inst (s : State p) (tid : ThreadID) (instPC : Addr) (target : PCState)
    (inst : Option StaticInst) : (s.updatedLine tid instPC target inst).inst = inst := by
  unfold updatedLine
  split <;> rfl

lemma step_paired (hs : Orderly (pairedRule ops) s) (hmarkov : Untrained s)
    (ho : o.isDemand = true) (hown : HitsOwnEntry s o) (h : s.step o = .ok s') :
    Orderly (pairedRule (ops ++ [o])) s' := by
  have hgrown : Orderly (pairedRule (ops ++ [o])) s := hs.mono (fun _ _ _ hx => hx.append o)
  have hcopies : Copyable (pairedRule (ops ++ [o])) p (fun _ => True) (fun _ => False) :=
    ⟨fun _ _ _ _ _ hx _ => hx, fun _ _ _ _ hf => False.elim hf⟩
  refine (step_effect (hmarkov.allows ho) h).orderly hgrown hcopies
    (fun _ _ _ _ _ _ _ => trivial) ?_ ?_
  · rintro tid instPC target type inst rfl
    unfold pairedRule
    rw [updatedLine_branchAddr hown, updatedLine_target, updatedLine_inst]
    exact ⟨tid, target, type, mem_append_right _ mem_cons_self, rfl⟩
  · intro x hx v
    obtain ⟨_, _, _, hq⟩ := hgrown.leaving hx
    exact hq

lemma reached_paired {bw : PrevBrInfo} (hdemand : ∀ o ∈ ops, o.isDemand = true)
    (hown : Along step HitsOwnEntry (State.init p bw) ops) (h : Reached bw ops s) :
    Orderly (pairedRule ops) s := by
  have hboth : Along step (fun s o => o.isDemand = true ∧ HitsOwnEntry s o)
      (State.init p bw) ops := (along_of_mem hdemand _).and hown
  refine (@run_invariant _ _ _ step _
    (fun past s => Orderly (pairedRule past) s ∧ Untrained s) ?_ [] _ s ops
    ⟨orderly_init bw, untrained_init bw⟩ hboth h).1
  rintro past t o t' ⟨ht, hmarkov⟩ ⟨ho, hhit⟩ hstep
  exact ⟨step_paired ht hmarkov ho hhit hstep, step_untrained hmarkov ho hstep⟩

/-- If every update that hits L1 hits an entry of its own branch, all entries hold what one update
passed together. -/
theorem entries_paired_by_update {bw : PrevBrInfo} {ops : List Op} {s : State p}
    (hdemand : ∀ o ∈ ops, o.isDemand = true)
    (hown : Along step HitsOwnEntry (State.init p bw) ops) (h : Reached bw ops s) :
    Everywhere (fun e => PairedBy ops e.branchAddr e.target e.inst) s :=
  (reached_paired hdemand hown h).everywhere

/-- Branch 20 is trained twice. -/
theorem entries_paired_by_update_small :
    ∃ s : State Params.small,
      Reached ⟨false, false⟩ [.resolve 20 101, .wait, .resolve 20 102, .wait, .predict 20] s ∧
      Everywhere (fun e => PairedBy [.resolve 20 101, .wait, .resolve 20 102, .wait, .predict 20]
        e.branchAddr e.target e.inst) s := by
  obtain ⟨s, hs, _⟩ := exists_run Params.small
    [.resolve 20 101, .wait, .resolve 20 102, .wait, .predict 20] (fun s => s.valid 0 20)
    (by decide +kernel)
  exact ⟨s, hs, entries_paired_by_update (by decide)
    (along_of_test HitsOwnEntry (by decide +kernel)) hs⟩

def narrowL1 : Params :=
  { Params.small with l1btb := { BTBLevel.small 1 Nat.one_pos with tagBits := 4 } }

/-- Branches 16 and 32 share their L1 tag; branch 17 then takes the way. -/
def aliasing : List Op := [.resolve 16 100, .wait, .resolve 32 200, .wait, .resolve 17 300]

/-- The update of branch 32 hits the entry of branch 16, and its target reaches
L2 under the address of branch 16. -/
theorem entries_paired_across_aliases :
    ∃ s : State narrowL1, Reached ⟨false, false⟩ aliasing s ∧
      ¬ Everywhere (fun e => PairedBy aliasing e.branchAddr e.target e.inst) s ∧
      ∃ l, s.l2btb.findEntry ⟨16, 0⟩ = some l ∧ (s.l2btb.get l).branchAddr = 16 ∧
        (s.l2btb.get l).target = some (PCState.ofAddr 200) := by
  have hunpaired : ∀ inst, ¬ PairedBy aliasing 16 (some (PCState.ofAddr 200)) inst := by
    rintro inst ⟨tid, t, type, hmem, ht⟩
    simp only [aliasing, Op.resolve, Op.wait, mem_cons, Op.update.injEq, reduceCtorEq,
      not_mem_nil, or_false, false_or] at hmem
    rcases hmem with ⟨_, _, rfl, _⟩ | ⟨_, h, _⟩ | ⟨_, h, _⟩
    · exact absurd ht (by decide)
    · exact absurd h (by decide)
    · exact absurd h (by decide)
  obtain ⟨s, hs, htest⟩ := exists_of_holdsAt
    (run step (State.init narrowL1 ⟨false, false⟩) aliasing)
    (fun s => decide (s.l2btb.findEntry ⟨16, 0⟩ = some (BTBLevel.firstWay _)) &&
      (s.l2btb.get (BTBLevel.firstWay _)).valid &&
      (s.l2btb.get (BTBLevel.firstWay _)).branchAddr == 16 &&
      decide ((s.l2btb.get (BTBLevel.firstWay _)).target = some (PCState.ofAddr 200)))
    (by decide +kernel)
  simp only [Bool.and_eq_true, beq_iff_eq, decide_eq_true_eq] at htest
  obtain ⟨⟨⟨hfind, hv⟩, haddr⟩, htarget⟩ := htest
  refine ⟨s, hs, ?_, _, hfind, haddr, htarget⟩
  rintro ⟨_, hl2, _⟩
  have hbad : PairedBy aliasing _ _ _ := hl2 _ hv
  rw [haddr, htarget] at hbad
  exact hunpaired _ hbad

end State

end BTBFerret
