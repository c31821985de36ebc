import BTBFerret.Views

/-!
# Runs of one thread over a set of branches

All operations concern branches of a set and one thread, and no level confuses
two of the branches. Then the prefetchers stay within the set as well, and
every valid entry sits where its branch belongs.
-/

namespace BTBFerret

open AssociativeCache FallibleRuns Cache List

/-- The operation concerns branches of `U` and the thread only. -/
def Op.Uses (U : Set Addr) (tid : ThreadID) : Op → Prop
  | .update t instPC _ _ _ => t = tid ∧ instPC ∈ U
  | .lookup t instPC _ _ _ _ => t = tid ∧ instPC ∈ U
  | .trainMarkovOnCommit pc _ => pc ∈ U
  | .setBBMap map => ∀ a b, map a = some b → b ∈ U
  | _ => True

def Op.ofThread (tid : ThreadID) : Op → Bool
  | .update t _ _ _ _ => t == tid
  | .lookup t _ _ _ _ _ => t == tid
  | _ => true

/-- Without a restriction of the branches only the thread matters. -/
lemma uses_univ {tid : ThreadID} {ops : List Op} (h : ops.all (Op.ofThread tid) = true) :
    ∀ o ∈ ops, o.Uses Set.univ tid := by
  intro o ho
  have hthread := all_eq_true.mp h o ho
  cases o with
  | update | lookup => exact ⟨beq_iff_eq.mp hthread, trivial⟩
  | setBBMap => exact fun _ _ _ => trivial
  | _ => exact trivial

/-- The keys of the branches in use. -/
def Inside (U : Set Addr) (tid : ThreadID) (key : KeyType) : Prop :=
  key.address ∈ U ∧ key.tid = tid

namespace State

variable {p : Params} {U : Set Addr} {tid : ThreadID}

/-- What the prefetchers remember stays within the branches in use. -/
structure Confined (U : Set Addr) (tid : ThreadID) (s : State p) : Prop where
  successors : ∀ l, ∀ a ∈ (s.markov.get l).successors, a.1 ∈ U
  queue : ∀ e ∈ s.deferredPrefetchQueue, e.tid = tid ∧ e.pc ∈ U
  bbMap : ∀ map, s.bbMap = some map → ∀ a b, map a = some b → b ∈ U

variable {s : State p} {o : Op}

lemma Confined.allows (hs : Confined U tid s) (ho : o.Uses U tid) :
    Allows (Inside U tid) (fun t => t = tid) s o := by
  cases o with
  | lookup =>
    exact ⟨ho.1, fun _ l a ha => ⟨hs.successors l a ha, ho.1⟩⟩
  | processDeferredPrefetchQueue =>
    intro e he
    obtain ⟨ht, hpc⟩ := hs.queue e he
    exact ⟨ht, hpc, ht⟩
  | _ => exact trivial

variable {s' : State p}

lemma Rest.confined (h : Rest (fun t => t = tid) s s') (hs : Confined U tid s) :
    Confined U tid s' := by
  refine ⟨?_, ?_, ?_⟩
  · intro l a ha
    rw [h.markov l] at ha
    exact hs.successors l a ha
  · intro e he
    rcases h.queue e he with hold | ⟨ht, map, a, hmap, ha⟩
    · exact hs.queue e hold
    · exact ⟨ht, hs.bbMap map hmap a e.pc ha⟩
  · intro map hmap
    rw [h.bbMap] at hmap
    exact hs.bbMap map hmap

/-- Training one pair adds at most the committed branch to the successors. -/
lemma mem_trainSuccessors {dest : Addr} {successors result : List (Addr × Nat)}
    (h : trainSuccessors p dest successors = .ok result) {a : Addr × Nat} (ha : a ∈ result) :
    a.1 = dest ∨ ∃ b ∈ successors, b.1 = a.1 := by
  unfold trainSuccessors at h
  dsimp only at h
  have hkept : ∀ b ∈ (if p.maxMarkovSuccessors ≤ successors.length then
      (p.sortByFrequency successors).dropLast else successors), b ∈ successors := by
    intro b hb
    split at hb
    · exact (p.sortByFrequency_perm successors).subset (dropLast_subset _ hb)
    · exact hb
  generalize (if p.maxMarkovSuccessors ≤ successors.length then
    (p.sortByFrequency successors).dropLast else successors) = kept at h hkept
  split at h
  · cases h
    rcases mem_append.mp ha with hm | hm
    · exact .inr ⟨a, (takeWhile_sublist _).subset hm, rfl⟩
    · cases hd : successors.dropWhile (fun a : Addr × Nat => a.1 != dest) with
      | nil =>
        rw [hd] at hm
        cases hm
      | cons b rest =>
        have hsub : ∀ c ∈ b :: rest, c ∈ successors := by
          rw [← hd]
          exact fun c hc => (dropWhile_sublist _).subset hc
        rw [hd] at hm
        rcases mem_cons.mp hm with rfl | hrest
        · exact .inr ⟨b, hsub b mem_cons_self, rfl⟩
        · exact .inr ⟨a, hsub a (mem_cons_of_mem b hrest), rfl⟩
  · split at h
    · cases h
      rcases mem_append.mp ha with hm | hm
      · exact .inr ⟨a, hkept a hm, rfl⟩
      · left
        rw [mem_singleton.mp hm]
    · cases h

lemma markovEntry_successors {src : Addr} {l : Loc p.markov.shape} {markov : Cache p.markov.shape}
    (h : s.markovEntry src = .ok (l, markov)) (l' : Loc p.markov.shape) {a : Addr × Nat}
    (ha : a ∈ (markov.get l').successors) : a ∈ (s.markov.get l').successors := by
  unfold markovEntry at h
  split at h
  · cases h
    exact ha
  · have hinv : p.markov.shape.isValid ((s.markov.findVictim src true).2.get
        (s.markov.findVictim src true).1) = false := by
      rw [get_findVictim_drop, if_pos rfl]
      exact p.markov.shape.isValid_invalidate _
    dsimp only at h
    rw [insertEntry_eq _ _ _ hinv] at h
    cases h
    rw [get_with_repl, get_modify] at ha
    by_cases hl : l' = (s.markov.findVictim src true).1
    · rw [if_pos hl, get_findVictim_drop, if_pos rfl] at ha
      cases ha
    · rw [if_neg hl, get_findVictim_drop, if_neg hl] at ha
      exact ha

lemma Confined.trainMarkovOnCommit (hs : Confined U tid s) {pc : Addr} (hpc : pc ∈ U)
    {wasL2Hit : Bool} (h : s.trainMarkovOnCommit pc wasL2Hit = .ok s') : Confined U tid s' := by
  unfold State.trainMarkovOnCommit at h
  split at h
  · cases h
    exact hs
  · split at h
    · cases h
      exact hs
    · obtain ⟨⟨l, markov⟩, hentry, h⟩ := bind_eq_ok_iff.mp h
      obtain ⟨successors, htrain, h⟩ := bind_eq_ok_iff.mp h
      cases h
      refine ⟨?_, hs.queue, hs.bbMap⟩
      intro l' a ha
      rw [get_modify] at ha
      split at ha
      · rcases mem_trainSuccessors htrain ha with hnew | ⟨b, hb, heq⟩
        · rw [hnew]
          exact hpc
        · rw [← heq]
          exact hs.successors l b (markovEntry_successors hentry l hb)
      · exact hs.successors l' a (markovEntry_successors hentry l' ha)

lemma confined_init (bw : PrevBrInfo) : Confined U tid (State.init p bw) := by
  refine ⟨?_, ?_, ?_⟩
  · intro l a ha
    unfold State.init at ha
    rw [get_init] at ha
    cases ha
  · intro e he
    cases he
  · intro map hmap
    cases hmap

lemma step_confined (hs : Confined U tid s) (ho : o.Uses U tid) (h : s.step o = .ok s') :
    Confined U tid s' := by
  have hstatic : o.isStatic = true → Confined U tid s' :=
    fun hst => ((step_effect (hs.allows ho) h).rest hst).confined hs
  cases o with
  | trainMarkovOnCommit => exact hs.trainMarkovOnCommit ho h
  | setBBMap =>
    cases h
    refine ⟨hs.successors, hs.queue, ?_⟩
    intro map' hmap
    cases hmap
    exact ho
  | advance =>
    cases h
    exact ⟨hs.successors, hs.queue, hs.bbMap⟩
  | _ => exact hstatic rfl

/-! ## Every entry belongs where it is -/

lemma copyable_keyedRule (hsep : NoCollision p U tid) :
    Copyable (keyedRule U tid) p (Inside U tid) (Inside U tid) where
  toL1 := by
    rintro v hv ⟨a, t⟩ x ⟨ha, ht⟩ ⟨hmem, hset, htag⟩ hfound
    dsimp only at ha ht
    subst ht
    have heq : x.branchAddr = a := hsep v hv _ hmem a ha hset.symm (htag.symm.trans hfound)
    subst heq
    exact ⟨hmem, rfl, rfl⟩
  toBuffer := by
    rintro v hv ⟨a, t⟩ x ⟨ha, ht⟩ _ _
    dsimp only at ha ht
    subst ht
    exact ⟨ha, rfl, rfl⟩

/-- The invariants of a run over branches in use. -/
structure Settled (U : Set Addr) (tid : ThreadID) (s : State p) : Prop
    extends Confined U tid s where
  keyed : Orderly (keyedRule U tid) s
  distinct : Distinct s

lemma settled_init (bw : PrevBrInfo) : Settled U tid (State.init p bw) :=
  ⟨confined_init bw, orderly_init bw, distinct_init bw⟩

lemma updatedLine_keyed (hs : Orderly (keyedRule U tid) s) {instPC : Addr} (hpc : instPC ∈ U)
    (target : PCState) (inst : Option StaticInst) :
    keyedRule U tid p.l1btb (p.l1btb.shape.extractSet ⟨instPC, tid⟩)
      (s.updatedLine tid instPC target inst) := by
  unfold updatedLine
  split
  · rename_i way hit
    exact (hs.l1btb.found hit).1
  · exact ⟨hpc, rfl, rfl⟩

/-- Whatever an operation makes leave L1 or L2 belongs to the thread of the run. -/
lemma leaving_thread (ho : o.Uses U tid) {x : ThreadID × Line} (hx : x ∈ s.leaving o) :
    x.1 = tid := by
  cases o with
  | update | lookup =>
    simp only [leaving] at hx
    split at hx
    · obtain ⟨y, _, rfl⟩ := mem_map.mp hx
      exact ho.1
    · cases hx
  | _ => cases hx

lemma step_settled (hsep : NoCollision p U tid) (hs : Settled U tid s) (ho : o.Uses U tid)
    (h : s.step o = .ok s') : Settled U tid s' := by
  have heffect := step_effect (hs.allows ho) h
  refine ⟨step_confined hs.toConfined ho h, ?_, heffect.distinct hs.distinct⟩
  refine heffect.orderly hs.keyed (copyable_keyedRule hsep) ?_ ?_ ?_
  · rintro t instPC type taken blockStartAddr basePrediction rfl
    exact ⟨ho.2, ho.1⟩
  · rintro t instPC target type inst rfl
    obtain ⟨rfl, hpc⟩ := ho
    exact updatedLine_keyed hs.keyed hpc target inst
  · intro x hx v
    obtain ⟨_, _, _, hmem, _⟩ := hs.keyed.leaving hx
    rw [leaving_thread ho hx]
    exact ⟨hmem, rfl, rfl⟩

end State

end BTBFerret
