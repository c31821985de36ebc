import BTBFerret.Refinement
import BTBFerret.Serving

/-!
# Where branches are held

What one operation can lose, whether a branch has copies in two levels, and whether L3 has
everything that L2 has: each is answered for the hierarchy of evicting maps and carried over by the
simulation.
-/

namespace BTBFerret

open FallibleRuns EvictingLevels Bool Option

def Op.isLookup : Op → Bool
  | .lookup .. => true
  | _ => false

namespace State

variable {p : Params} {U : Set Addr} {tid : ThreadID}

/-! ## Invariants of the levels along runs -/

variable {bw : PrevBrInfo} {ops : List Op} {s : State p}

section

variable {α : Type} {g : Option PCState → Option StaticInst → α}

/-- The run rule for the levels: an invariant of the abstract hierarchy, under a
condition that restricts its cascades. -/
lemma reached_levels (hsep : NoCollision p U tid) {I : Levels U α → Prop}
    {A : Event U α → Levels U α → Victims U → Prop} {cond : State p → Op → Prop}
    (hinit : I ⟨fun _ => none, fun _ => none, fun _ => none⟩)
    (hadmits : ∀ s o, Settled U tid s → o.Uses U tid → cond s o → Admits tid g A s o)
    (hkeep : ∀ m e m', Shallow p.config m → I m → Step p.config A m e m' → I m')
    (huses : ∀ o ∈ ops, o.Uses U tid) (hcond : Along step cond (State.init p bw) ops)
    (h : Reached bw ops s) :
    Settled U tid s ∧ Shallow p.config (levels (U := U) tid g s) ∧ I (levels tid g s) := by
  refine run_invariant_state
    (fun s => Settled U tid s ∧ Shallow p.config (levels (U := U) tid g s) ∧ I (levels tid g s))
    ?_ ?_ ((along_of_mem huses _).and hcond) h
  · rintro s o s' ⟨hs, hshallow, hi⟩ ⟨ho, hc⟩ hstep
    obtain ⟨e, _, htrans⟩ := step_simulates hsep hs hshallow ho (hadmits s o hs ho hc) hstep
    exact ⟨step_settled hsep hs ho hstep, htrans.shallow hshallow, hkeep _ _ _ hshallow hi htrans⟩
  · rw [levels_init]
    exact ⟨settled_init bw, fun _ _ => rfl, hinit⟩

lemma reached_settled (hsep : NoCollision p U tid) (huses : ∀ o ∈ ops, o.Uses U tid)
    (h : Reached bw ops s) : Settled U tid s ∧ Shallow p.config (levels (U := U) tid g s) := by
  have hrun := reached_levels (g := g) (I := fun _ => True) hsep trivial
    (fun s o _ _ (_ : True) => admits_all s o) (fun _ _ _ _ _ _ => trivial) huses
    (along_of_forall (fun _ _ => trivial) _ _) h
  exact ⟨hrun.1, hrun.2.1⟩

end

/-! ## What one operation keeps -/

def inL1 (s : State p) (tid : ThreadID) (a : Addr) : Bool := (s.l1btb.findEntry ⟨a, tid⟩).isSome

def inL2 (s : State p) (tid : ThreadID) (a : Addr) : Bool := (s.l2btb.findEntry ⟨a, tid⟩).isSome

def inL3 (s : State p) (tid : ThreadID) (a : Addr) : Bool := (s.l3btb.findEntry ⟨a, tid⟩).isSome

def held (U : Set Addr) (tid : ThreadID) (s : State p) : Levels U Unit :=
  levels tid (fun _ _ => ()) s

variable {k : U}

lemma isSome_iff_view {v : BTBLevel} {α : Type} {g : Option PCState → Option StaticInst → α}
    {C : BTBCache v} : (C.findEntry ⟨k, tid⟩).isSome = true ↔ view tid g C k ≠ none := by
  rw [ne_eq, view_eq_none, ← ne_eq, ne_none_iff_isSome]

lemma inL1_iff : s.inL1 tid k = true ↔ (held U tid s).l1 k ≠ none :=
  isSome_iff_view (g := fun _ _ => ()) (C := s.l1btb)

lemma inL2_iff : s.inL2 tid k = true ↔ (held U tid s).l2 k ≠ none :=
  isSome_iff_view (g := fun _ _ => ()) (C := s.l2btb)

lemma inL3_iff : s.inL3 tid k = true ↔ (held U tid s).l3 k ≠ none :=
  isSome_iff_view (g := fun _ _ => ()) (C := s.l3btb)

variable {o : Op}

lemma step_on_branch_returns (h : Reached bw ops s) (ho : o.Uses U tid) {a : Addr}
    (hbranch : o.branch = some a) (hvalid : o.isLookup = true → s.valid tid a = true) :
    Meets (s.step o) (fun _ => True) (LookupFault p) := by
  cases o with
  | update t instPC target type inst =>
    obtain ⟨s', hs'⟩ := s.update_returns t instPC target type inst
    simp only [step, hs', meets_ok]
  | lookup =>
    obtain ⟨rfl, _⟩ := ho
    cases hbranch
    have hserved := hvalid rfl
    rw [valid_iff_servingEntry] at hserved
    obtain ⟨e, he⟩ := isSome_iff_exists.mp hserved
    refine meets_map.mpr ((lookup_serves ?_ he _ _ _ _).mono (fun _ _ => trivial) (fun _ hf => hf))
    intro hoff
    exact pBuffer_findEntry_of_invalid (reached_idle hoff h).pBuffer _
  | _ => cases hbranch

/-- The transition of an operation on a branch, which is in L1 afterwards. -/
lemma step_on_branch_kept (hsep : NoCollision p U tid) {s' : State p} (hs : Settled U tid s)
    (hshallow : Shallow p.config (held U tid s)) (ho : o.Uses U tid)
    (hbranch : o.branch = some (k : Addr)) (h : s.step o = .ok s') :
    Kept p.config (held U tid s) (held U tid s') ∧ (held U tid s').l1 k ≠ none := by
  obtain ⟨e, hevent, htrans⟩ := step_simulates (g := fun _ _ => ()) hsep hs hshallow ho
    (admits_all s o) h
  have hclear : e ≠ .clear := by
    rintro rfl
    cases hevent
    cases hbranch
  obtain ⟨hkept, hhere⟩ := htrans.kept hshallow hclear
  refine ⟨hkept, ?_⟩
  cases hevent with
  | update =>
    cases Subtype.ext (some.inj hbranch)
    exact hhere _ _ (.inl rfl)
  | promote =>
    cases Subtype.ext (some.inj hbranch)
    exact hhere _ _ (.inr (.inl rfl))
  | migrate =>
    cases Subtype.ext (some.inj hbranch)
    exact hhere _ _ (.inr (.inr rfl))
  | reuse hit =>
    -- a hit leaves the levels alone
    cases Subtype.ext (some.inj hbranch)
    generalize hm : levels tid (fun _ _ => ()) s' = m' at htrans
    cases htrans
    rw [held, hm]
    exact inL1_iff.mp (isSome_iff_exists.mpr ⟨_, hit⟩)
  | quiet hquiet => cases o <;> cases hbranch <;> cases hquiet
  | prefetch | clear => cases hbranch

/-- Every call on a branch leaves it in L1. What was in L1 stays in L1 or L2, what was in L1 or L2
stays in the hierarchy if L3 is there and not mirroring, and at most one branch is lost, two with
mirroring. -/
theorem migration_keeps_branches (hsep : NoCollision p U tid) {bw : PrevBrInfo} {ops : List Op}
    {s : State p} (huses : ∀ o ∈ ops, o.Uses U tid) (h : Reached bw ops s) {o : Op}
    (ho : o.Uses U tid) {a : Addr} (hbranch : o.branch = some a)
    (hvalid : o.isLookup = true → s.valid tid a = true) :
    Meets (s.step o)
      (fun s' => s'.inL1 tid a = true ∧
        (∀ b ∈ U, s.inL1 tid b = true → s'.inL1 tid b = true ∨ s'.inL2 tid b = true) ∧
        (p.enableL3 = true → p.nonexclusive = false → ∀ b ∈ U,
          s.inL1 tid b = true ∨ s.inL2 tid b = true →
            s'.inL1 tid b = true ∨ s'.inL2 tid b = true ∨ s'.inL3 tid b = true) ∧
        ∃ lost : List Addr, lost.length ≤ (if p.enableL3 && p.nonexclusive then 2 else 1) ∧
          ∀ b ∈ U, s.inL1 tid b = true ∨ s.inL2 tid b = true ∨ s.inL3 tid b = true →
            (s'.inL1 tid b = true ∨ s'.inL2 tid b = true ∨ s'.inL3 tid b = true) ∨ b ∈ lost)
      (LookupFault p) := by
  obtain ⟨hs, hshallow⟩ := reached_settled (g := fun _ _ => ()) hsep huses h
  have ha : a ∈ U := by
    cases o with
    | update | lookup => exact some.inj hbranch ▸ ho.2
    | _ => cases hbranch
  cases hstep : s.step o with
  | error => exact (step_on_branch_returns h ho hbranch hvalid).of_error hstep
  | ok =>
    obtain ⟨hkept, hhere⟩ := step_on_branch_kept hsep hs hshallow ho (k := ⟨a, ha⟩) hbranch hstep
    obtain ⟨lost, hlength, hlost⟩ := hkept.lost
    refine ⟨(inL1_iff (k := ⟨a, ha⟩)).mpr hhere, ?_, ?_, lost.map Subtype.val, ?_, ?_⟩
    · intro b hb hin
      lift b to U using hb
      rw [inL1_iff] at hin ⊢
      rw [inL2_iff]
      exact hkept.l1 b hin
    · intro hL3 hexclusive b hb hin
      have hmir : p.config.mirrored = false := by
        rw [show p.config.mirrored = (p.nonexclusive && p.enableL3) from rfl, hexclusive,
          Bool.false_and]
      lift b to U using hb
      rw [inL1_iff, inL2_iff] at hin
      rw [inL1_iff, inL2_iff, inL3_iff]
      exact hkept.upper hL3 hmir b hin
    · rw [List.length_map, Bool.and_comm]
      exact hlength
    · intro b hb hin
      lift b to U using hb
      rw [inL1_iff, inL2_iff, inL3_iff, ← Levels.top_ne_none] at hin ⊢
      exact (hlost b hin).imp id (List.mem_map_of_mem (f := Subtype.val))

/-- Branch 20 comes back from L2 in exchange for branch 10. -/
theorem migration_keeps_branches_small :
    ∃ s : State Params.small, Reached ⟨false, false⟩ movedToL2 s ∧
      (s.inL1 0 10 = true ∧ s.inL1 0 20 = false ∧ s.valid 0 20 = true) ∧
      Meets (s.step (.predict 20))
        (fun s' => s'.inL1 0 20 = true ∧ (s'.inL1 0 10 = true ∨ s'.inL2 0 10 = true))
        (fun _ => False) := by
  obtain ⟨s, hs, htest⟩ := exists_run Params.small movedToL2
    (fun s => s.inL1 0 10 && !s.inL1 0 20 && s.valid 0 20) (by decide +kernel)
  simp only [and_eq_true, not_eq_true'] at htest
  obtain ⟨⟨h10, h20⟩, hvalid⟩ := htest
  refine ⟨s, hs, ⟨h10, h20, hvalid⟩, ?_⟩
  refine (migration_keeps_branches (U := Set.univ) (noCollision_small rfl _ 0) (uses_univ rfl) hs
    (o := .predict 20) ⟨rfl, trivial⟩ rfl (fun _ => hvalid)).mono ?_ (not_lookupFault_off rfl)
  intro s' h
  exact ⟨h.1, h.2.1 10 trivial h10⟩

/-! ## Copies in two levels -/

/-- A branch that is about to enter L1 from an update or from the prefetch
buffer is not held below. -/
def NoCopyBelow (tid : ThreadID) (s : State p) (o : Op) : Prop :=
  ∀ a ∈ o.branch, s.l1btb.findEntry ⟨a, tid⟩ = none →
    (o.isLookup = true → p.probesPBuffer = true ∧ s.pBuffer.findEntry ⟨a, tid⟩ ≠ none) →
    s.l2btb.findEntry ⟨a, tid⟩ = none ∧ s.l3btb.findEntry ⟨a, tid⟩ = none

instance (tid : ThreadID) (s : State p) (o : Op) : Decidable (NoCopyBelow tid s o) :=
  -- not the instance that goes through all addresses
  o.branch.decidableForallMem

lemma admits_entersAlone (h : NoCopyBelow tid s o) :
    Admits (U := U) tid (fun _ _ => ()) (fun e m _ => e.EntersAlone m) s o := by
  intro e k hevent hbranch hmiss
  have hbelow := h k hbranch hmiss
  cases hevent with
  | @update k' =>
    cases Subtype.ext (some.inj hbranch)
    obtain ⟨h2, h3⟩ := hbelow (fun hl => by cases hl)
    exact ⟨(view_eq_none (g := fun _ _ => ())).mpr h2, (view_eq_none (g := fun _ _ => ())).mpr h3⟩
  | @promote k' _ _ _ _ _ probes _ hit =>
    cases Subtype.ext (some.inj hbranch)
    obtain ⟨h2, h3⟩ := hbelow (fun _ => ⟨probes, by rw [hit]; exact some_ne_none _⟩)
    have hfree : s.freeing ⟨k, tid⟩ = s := by simp only [freeing, probes, if_true, hit]
    simp only [entering, hfree]
    exact ⟨(view_eq_none (g := fun _ _ => ())).mpr h2, (view_eq_none (g := fun _ _ => ())).mpr h3⟩
  | _ => exact trivial

/-- Without mirroring, no branch is in two levels if what enters L1 from outside
has no copy below. -/
theorem hierarchy_nonredundant (hexclusive : p.nonexclusive = false)
    (hsep : NoCollision p U tid) {bw : PrevBrInfo} {ops : List Op} {s : State p}
    (huses : ∀ o ∈ ops, o.Uses U tid) (hbelow : Along step (NoCopyBelow tid) (State.init p bw) ops)
    (h : Reached bw ops s) :
    ∀ a ∈ U, ¬ (s.inL1 tid a = true ∧ s.inL2 tid a = true) ∧
      ¬ (s.inL1 tid a = true ∧ s.inL3 tid a = true) ∧
      ¬ (s.inL2 tid a = true ∧ s.inL3 tid a = true) := by
  obtain ⟨_, _, hlevels⟩ := reached_levels (g := fun _ _ => ()) (I := NonRedundant) hsep
    ⟨fun _ _ => ⟨rfl, rfl⟩, fun _ _ => rfl⟩ (fun _ _ _ _ hc => admits_entersAlone hc)
    (fun _ _ _ _ hm hstep => hstep.nonRedundant hexclusive (fun _ _ _ ha => ha) hm) huses hbelow h
  intro a ha
  lift a to U using ha
  rw [inL1_iff, inL2_iff, inL3_iff]
  refine ⟨?_, ?_, ?_⟩
  · rintro ⟨h1, h2⟩
    exact h2 (hlevels.below_l1 a h1).1
  · rintro ⟨h1, h3⟩
    exact h3 (hlevels.below_l1 a h1).2
  · rintro ⟨h2, h3⟩
    exact h3 (hlevels.below_l2 a h2)

/-- Branch 20 is back in L1 and no longer in L2. -/
theorem hierarchy_nonredundant_small :
    ∃ s : State Params.small, Reached ⟨false, false⟩ broughtBack s ∧
      s.inL1 0 20 = true ∧ s.inL2 0 20 = false := by
  obtain ⟨s, hs, hin⟩ := exists_run Params.small broughtBack (fun s => s.inL1 0 20)
    (by decide +kernel)
  refine ⟨s, hs, hin, ?_⟩
  have hone := hierarchy_nonredundant (U := Set.univ) rfl (noCollision_small rfl _ 0)
    (uses_univ rfl) (along_of_test (NoCopyBelow 0) (by decide +kernel)) hs 20 trivial
  exact eq_false_iff.mpr (fun h2 => hone.1 ⟨hin, h2⟩)

/-- A branch resolved again after it moved to L2 is allocated in L1 a second time. -/
theorem update_leaves_copy_in_l2 :
    NoCollision Params.small Set.univ 0 ∧ Params.small.nonexclusive = false ∧
    ∃ s : State Params.small, Reached ⟨false, false⟩ (movedToL2 ++ [.resolve 20 102]) s ∧
      s.inL1 0 20 = true ∧ s.inL2 0 20 = true := by
  obtain ⟨s, hs, hin⟩ := exists_run Params.small (movedToL2 ++ [.resolve 20 102])
    (fun s => s.inL1 0 20 && s.inL2 0 20) (by decide +kernel)
  exact ⟨noCollision_small rfl _ 0, rfl, s, hs, and_eq_true_iff.mp hin⟩

/-! ## Inclusion of L2 in L3 -/

def mirrorVictim (s : State p) (tid : ThreadID) (victim : BTBEntry) : Option BTBEntry :=
  let l3 := s.l3AfterDisplacement tid victim
  if l3.findEntry ⟨victim.branchAddr, tid⟩ = none then
    let e := l3.get (l3.slotFor ⟨victim.branchAddr, tid⟩)
    if e.valid then some e else none
  else none

lemma mirrorVictim_of_valid {victim e : BTBEntry}
    (hmiss : (s.l3AfterDisplacement tid victim).findEntry ⟨victim.branchAddr, tid⟩ = none)
    (he : (s.l3AfterDisplacement tid victim).get
      ((s.l3AfterDisplacement tid victim).slotFor ⟨victim.branchAddr, tid⟩) = e)
    (hv : e.valid = true) : s.mirrorVictim tid victim = some e := by
  unfold mirrorVictim
  dsimp only
  rw [if_pos hmiss, he, if_pos hv]

def MirrorSparesL2 (tid : ThreadID) (s : State p) (o : Op) : Prop :=
  ∀ a ∈ o.branch, s.l1btb.findEntry ⟨a, tid⟩ = none →
    let t := s.entering o
    let victim := t.l1Victim tid a
    victim.valid = true → ∀ d ∈ t.mirrorVictim tid victim,
      t.l2btb.findEntry ⟨d.branchAddr, tid⟩ = none ∨
        (t.displaced tid victim).map BTBEntry.branchAddr = some d.branchAddr

instance (tid : ThreadID) (s : State p) (o : Op) : Decidable (MirrorSparesL2 tid s o) :=
  o.branch.decidableForallMem

lemma admits_sparesL2 (h : MirrorSparesL2 tid s o) :
    Admits (U := U) tid (fun _ _ => ()) (fun _ m w => SparesL2 m w) s o := by
  intro e k _ hbranch hmiss d hd
  have hspare := h k hbranch hmiss
  dsimp only at hspare
  generalize s.entering o = t at hspare hd ⊢
  unfold victims at hd ⊢
  dsimp only at hd ⊢
  cases hv : (t.l1Victim tid k).valid with
  | false =>
    rw [hv, Bool.false_and] at hd
    cases hd
  | true =>
    rw [hv, Bool.true_and] at hd
    rw [if_pos rfl]
    split at hd
    · obtain ⟨hnone, hvalid, hown⟩ := victimOf_eq_some.mp hd
      rcases hspare hv _ (mirrorVictim_of_valid hnone rfl hvalid) with habsent | hdisplaced
      · left
        rw [levels, view_eq_none, ← hown]
        exact habsent
      · right
        obtain ⟨x, hx, haddr⟩ := map_eq_some_iff.mp hdisplaced
        obtain ⟨hnone2, hget, hxv⟩ := displaced_eq_some.mp hx
        subst hget
        exact victimOf_eq_some.mpr ⟨hnone2, hxv, haddr.trans hown⟩
    · cases hd

/-- With mirroring, L3 has every branch of L2 if mirroring never replaces one. -/
theorem l3_includes_l2 (hL3 : p.enableL3 = true) (hmirror : p.nonexclusive = true)
    (hsep : NoCollision p U tid) {bw : PrevBrInfo} {ops : List Op} {s : State p}
    (huses : ∀ o ∈ ops, o.Uses U tid)
    (hspare : Along step (MirrorSparesL2 tid) (State.init p bw) ops) (h : Reached bw ops s) :
    ∀ a ∈ U, s.inL2 tid a = true → s.inL3 tid a = true := by
  have hmir : p.config.mirrored = true := by
    rw [show p.config.mirrored = (p.nonexclusive && p.enableL3) from rfl, hL3, hmirror,
      Bool.true_and]
  obtain ⟨_, _, hlevels⟩ := reached_levels (g := fun _ _ => ()) (I := Inclusive) hsep
    (fun _ h => absurd rfl h) (fun _ _ _ _ hc => admits_sparesL2 hc)
    (fun _ _ _ _ hm hstep => hstep.inclusive hmir (fun _ _ _ ha => ha) hm) huses hspare h
  intro a ha hin
  lift a to U using ha
  rw [inL2_iff] at hin
  rw [inL3_iff]
  exact hlevels a hin

def mirroring : Params := { Params.small with enableL3 := true, nonexclusive := true }

/-- Branch 20 is in L2 and mirrored in L3. -/
theorem l3_includes_l2_small :
    ∃ s : State mirroring, Reached ⟨false, false⟩ (movedToL2 ++ [.resolve 30 102]) s ∧
      s.inL2 0 20 = true ∧ s.inL3 0 20 = true := by
  obtain ⟨s, hs, hin⟩ := exists_run mirroring (movedToL2 ++ [.resolve 30 102])
    (fun s => s.inL2 0 20) (by decide +kernel)
  refine ⟨s, hs, hin, ?_⟩
  exact l3_includes_l2 (p := mirroring) (U := Set.univ) rfl rfl (noCollision_small rfl _ 0)
    (uses_univ rfl) (along_of_test (MirrorSparesL2 0) (by decide +kernel)) hs 20 trivial hin

/-- A hit in L2 keeps the copy there and in L3 but touches only the former, so the
mirrored victim then takes the way of the branch just served. -/
theorem mirroring_evicts_branch_of_l2 :
    NoCollision mirroring Set.univ 0 ∧ mirroring.enableL3 = true ∧ mirroring.nonexclusive = true ∧
    mirroring.l2btb.assoc ≤ mirroring.l3btb.assoc ∧
    mirroring.l2btb.log2NumSets ≤ mirroring.l3btb.log2NumSets ∧
    ∃ s : State mirroring, Reached ⟨false, false⟩
      (movedToL2 ++ [.resolve 30 102, .wait, .predict 20]) s ∧
      s.inL2 0 20 = true ∧ s.inL3 0 20 = false := by
  obtain ⟨s, hs, hin⟩ := exists_run mirroring (movedToL2 ++ [.resolve 30 102, .wait, .predict 20])
    (fun s => s.inL2 0 20 && !s.inL3 0 20) (by decide +kernel)
  simp only [and_eq_true, not_eq_true'] at hin
  exact ⟨noCollision_small rfl _ 0, rfl, rfl, by decide, by decide, s, hs, hin⟩

end State

end BTBFerret
