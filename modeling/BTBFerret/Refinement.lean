import BTBFerret.BranchesInUse

/-!
# The BTB refines the hierarchy of evicting maps

The three levels of the BTB, seen as maps, take the transitions of the abstract
hierarchy. Freeing an L1 way is a cascade, whose victims are the branches that
own the slots chosen by the replacement policies.
-/

namespace BTBFerret

open ReplacementPolicy AssociativeCache FallibleRuns EvictingLevels Cache

def Params.config (p : Params) : Config := ⟨p.enableL3, p.nonexclusive⟩

def Op.branch : Op → Option Addr
  | .update _ instPC _ _ _ => some instPC
  | .lookup _ instPC _ _ _ _ => some instPC
  | _ => none

namespace State

variable {p : Params} {U : Set Addr} {tid : ThreadID} {α : Type}
  {g : Option PCState → Option StaticInst → α}

def levels (tid : ThreadID) (g : Option PCState → Option StaticInst → α) (s : State p) :
    Levels U α :=
  ⟨view tid g s.l1btb, view tid g s.l2btb, view tid g s.l3btb⟩

variable {s s' : State p}

lemma levels_of_lines (h1 : lines s'.l1btb = lines s.l1btb) (h2 : lines s'.l2btb = lines s.l2btb)
    (h3 : lines s'.l3btb = lines s.l3btb) : levels (U := U) tid g s' = levels tid g s := by
  unfold levels
  rw [view_of_lines h1, view_of_lines h2, view_of_lines h3]

lemma SameLines.levels (h : SameLines s s') :
    State.levels (U := U) tid g s' = State.levels tid g s :=
  levels_of_lines h.l1btb h.l2btb h.l3btb

lemma Prefetched.levels_eq {F : KeyType → Prop} {T : ThreadID → Prop} (h : Prefetched F T s s') :
    State.levels (U := U) tid g s' = State.levels tid g s := by
  obtain ⟨h1, h2, h3⟩ := h.levels
  exact levels_of_lines (by rw [h1]) (by rw [h2]) (by rw [h3])

noncomputable def victims (s : State p) (U : Set Addr) (tid : ThreadID) (instPC : Addr) :
    Victims U :=
  let victim := s.l1Victim tid instPC
  { v1 := victimOf s.l1btb U tid instPC
    v2 := if victim.valid then victimOf s.l2btb U tid victim.branchAddr else none
    v3 := if victim.valid && p.enableL3 then
        (s.displaced tid victim).bind (fun e => victimOf s.l3btb U tid e.branchAddr)
      else none
    v4 := if victim.valid && p.config.mirrored then
        victimOf (s.l3AfterDisplacement tid victim) U tid victim.branchAddr
      else none }

variable {k : U}

section

variable {s : State p}

lemma displaced_eq_some {victim e : BTBEntry} : s.displaced tid victim = some e ↔
    s.l2btb.findEntry ⟨victim.branchAddr, tid⟩ = none ∧
      e = s.l2btb.get (s.l2btb.slotFor ⟨victim.branchAddr, tid⟩) ∧ e.valid = true := by
  unfold displaced
  constructor
  · intro h
    split at h
    · rename_i hnone
      dsimp only at h
      split at h
      · rename_i hv
        cases h
        exact ⟨hnone, rfl, hv⟩
      · cases h
    · cases h
  · rintro ⟨hnone, rfl, hv⟩
    rw [if_pos hnone]
    exact if_pos hv

lemma victimOf_of_no_displaced {victim : BTBEntry} (he : s.displaced tid victim = none) :
    victimOf s.l2btb U tid victim.branchAddr = none := by
  cases h : victimOf s.l2btb U tid victim.branchAddr with
  | none => rfl
  | some =>
    obtain ⟨hnone, hv, _⟩ := victimOf_eq_some.mp h
    have hsome := displaced_eq_some.mpr ⟨hnone, rfl, hv⟩
    rw [he] at hsome
    cases hsome

variable (hsep : NoCollision p U tid) (hkeyed : Orderly (keyedRule U tid) s)
  (hdistinct : Distinct s)

lemma l1_mem_levels (p : Params) : p.l1btb ∈ p.levels := by simp [Params.levels]

lemma l2_mem_levels (p : Params) : p.l2btb ∈ p.levels := by simp [Params.levels]

lemma l3_mem_levels (p : Params) : p.l3btb ∈ p.levels := by simp [Params.levels]

lemma pBuffer_mem_levels (p : Params) : p.pBuffer ∈ p.levels := by simp [Params.levels]

include hsep hkeyed hdistinct

variable {a : Addr}

lemma carry_l2 (hmiss : s.l1btb.findEntry ⟨a, tid⟩ = none) :
    Carry (view tid g s.l2btb) (carried (view tid g s.l1btb) (victimOf s.l1btb U tid a))
      (s.victims U tid a).v2 (view tid g (s.l2After tid (s.l1Victim tid a))) := by
  unfold victims l2After
  dsimp only
  cases hv : (s.l1Victim tid a).valid with
  | false =>
    rw [victimOf_of_invalid hv]
    exact ⟨rfl, rfl⟩
  | true =>
    obtain ⟨ha, hload⟩ := carried_victimOf (g := g) (e := s.l1Victim tid a) hdistinct.l1btb
      hkeyed.l1btb hmiss rfl hv
    rw [hload]
    exact put_written (hsep _ (l2_mem_levels p)) hdistinct.l2btb hkeyed.l2btb _ _ ha

lemma carry_displaced (hv : (s.l1Victim tid a).valid = true) : Carry (view tid g s.l3btb)
      (if p.config.deep then carried (view tid g s.l2btb) (s.victims U tid a).v2 else none)
      (s.victims U tid a).v3 (view tid g (s.l3AfterDisplacement tid (s.l1Victim tid a))) := by
  unfold victims l3AfterDisplacement
  dsimp only
  rw [hv, show p.config.deep = p.enableL3 from rfl, Bool.true_and, if_pos rfl]
  cases hL3 : p.enableL3 with
  | false =>
    cases s.displaced tid (s.l1Victim tid a) with
    | none | some => exact ⟨rfl, rfl⟩
  | true =>
    rw [if_pos rfl, if_pos rfl]
    cases he : s.displaced tid (s.l1Victim tid a) with
    | none =>
      rw [victimOf_of_no_displaced he]
      exact ⟨rfl, rfl⟩
    | some =>
      obtain ⟨hnone, hget, hev⟩ := displaced_eq_some.mp he
      obtain ⟨ha, hload⟩ := carried_victimOf (g := g) hdistinct.l2btb hkeyed.l2btb hnone
        hget.symm hev
      rw [hload]
      exact put_written (hsep _ (l3_mem_levels p)) hdistinct.l3btb hkeyed.l3btb _ _ ha

omit hsep in
lemma keyed_l3AfterDisplacement (victim : BTBEntry) :
    Obeys (keyedRule U tid) (s.l3AfterDisplacement tid victim) := by
  apply hkeyed.l3AfterDisplacement
  intro e he v
  obtain ⟨_, hget, hev⟩ := displaced_eq_some.mp he
  have hmem : e.branchAddr ∈ U := by
    rw [hget] at hev ⊢
    exact (found_of_valid hdistinct.l2btb hkeyed.l2btb hev).1
  exact ⟨hmem, rfl, rfl⟩

lemma carry_mirror (hmiss : s.l1btb.findEntry ⟨a, tid⟩ = none)
    (hv : (s.l1Victim tid a).valid = true) :
    Carry (view tid g (s.l3AfterDisplacement tid (s.l1Victim tid a)))
      (if p.config.mirrored then
        carried (view tid g s.l1btb) (victimOf s.l1btb U tid a) else none)
      (s.victims U tid a).v4 (view tid g (s.l3AfterWriteBack tid (s.l1Victim tid a))) := by
  unfold victims l3AfterWriteBack
  dsimp only
  rw [hv, show (p.nonexclusive && p.enableL3) = p.config.mirrored from rfl, Bool.true_and]
  cases hmir : p.config.mirrored with
  | false => exact ⟨rfl, rfl⟩
  | true =>
    rw [if_pos rfl, if_pos rfl, if_pos rfl]
    obtain ⟨ha, hload⟩ := carried_victimOf (g := g) (e := s.l1Victim tid a) hdistinct.l1btb
      hkeyed.l1btb hmiss rfl hv
    rw [hload]
    exact put_written (hsep _ (l3_mem_levels p)) (hdistinct.l3AfterDisplacement tid _)
      (keyed_l3AfterDisplacement hkeyed hdistinct _) _ _ ha

lemma Entered.cascade {x : Line} (h : Entered s s' tid k x)
    (hmiss : s.l1btb.findEntry ⟨k, tid⟩ = none) (hx : x.valid = true)
    (ht : x.tag = p.l1btb.shape.tagOf ⟨k, tid⟩) :
    Cascade p.config (levels tid g s) (levels tid g s') k (g x.target x.inst)
      (s.victims U tid k) := by
  refine ⟨?_, ?_, ?_⟩
  · exact put_of_stored (hsep _ (l1_mem_levels p)) hdistinct.l1btb hkeyed.l1btb hx ht h.l1btb
  · have hcarry := carry_l2 (g := g) hsep hkeyed hdistinct hmiss
    rw [← view_of_lines h.l2btb] at hcarry
    exact hcarry
  · have hlines := h.l3btb
    unfold l3After at hlines
    cases hv : (s.l1Victim tid k).valid with
    | true =>
      rw [hv, if_pos rfl] at hlines
      refine ⟨_, carry_displaced (g := g) hsep hkeyed hdistinct hv, ?_⟩
      have hmirror := carry_mirror (g := g) hsep hkeyed hdistinct hmiss hv
      rw [← view_of_lines hlines] at hmirror
      exact hmirror
    | false =>
      rw [hv] at hlines
      have hnone : victimOf s.l1btb U tid k = none := victimOf_of_invalid hv
      refine ⟨view tid g s.l3btb, ?_, ?_⟩
      · simp [Carry, victims, hv, carried, State.levels]
      · simp only [Carry, victims, hv, hnone, carried]
        simp [State.levels, view_of_lines hlines]

end

/-! ## What a lookup releases -/

variable {v : BTBLevel}

section

variable {s : State p} {k : U}

lemma view_touched (C : BTBCache v) (now : Tick) (l : Loc v.shape) :
    view (U := U) tid g (C.accessEntry now l) = view tid g C :=
  view_of_lines rfl

/-- A level whose found entry is touched or dropped before it is copied. -/
lemma view_released {C : BTBCache v} (hsep : Separates v U tid) (hu : C.Unique)
    (hk : Obeys (keyedRule U tid) C) {l : Loc v.shape} (h : C.findEntry ⟨k, tid⟩ = some l)
    (now : Tick) (keep : Bool) : view tid g (if keep then (C.accessEntry now l).accessEntry now l
      else (C.accessEntry now l).invalidate l) =
      if keep then view tid g C else Function.update (view tid g C) k none := by
  cases keep with
  | true => exact view_of_lines rfl
  | false =>
    have htouched := view_invalidate (g := g) hsep (C := C.accessEntry now l)
      (unique_of_lines rfl hu) (hk.of_lines rfl) (k := k) (l := l)
      ((findEntry_of_lines (C := C) rfl _).trans h)
    rw [view_touched] at htouched
    exact htouched

section

variable (hsep : NoCollision p U tid) (hkeyed : Orderly (keyedRule U tid) s)
  (hdistinct : Distinct s)
  (hbuf : (if p.probesPBuffer then s.pBuffer.findEntry ⟨(k : Addr), tid⟩ else none) = none)

include hsep hkeyed hdistinct hbuf

lemma levels_freeing_l2 {l : Loc p.l2btb.shape} (hl : s.l2btb.findEntry ⟨k, tid⟩ = some l) :
    levels tid g (s.freeing ⟨k, tid⟩) = (levels tid g s).release2 p.config k := by
  have hview := view_released (g := g) (hsep _ (l2_mem_levels p)) hdistinct.l2btb hkeyed.l2btb hl
    s.curTick p.nonexclusive
  simp only [freeing, hbuf, hl, releaseL2, levels, Levels.release2]
  rw [hview]
  exact apply_ite (fun l2 => Levels.mk _ l2 _) _ _ _

lemma levels_freeing_l3 (hl2 : s.l2btb.findEntry ⟨k, tid⟩ = none) (hL3 : p.enableL3 = true)
    {l : Loc p.l3btb.shape} (hl : s.l3btb.findEntry ⟨k, tid⟩ = some l) :
    levels tid g (s.freeing ⟨k, tid⟩) = (levels tid g s).release3 p.config k := by
  have hview := view_released (g := g) (hsep _ (l3_mem_levels p)) hdistinct.l3btb hkeyed.l3btb hl
    s.curTick p.nonexclusive
  simp only [freeing, hbuf, hl2, hL3, if_true, hl, releaseL3, levels, Levels.release3]
  rw [hview]
  exact apply_ite (fun l3 => Levels.mk _ _ l3) _ _ _

end

lemma l1btb_freeing (s : State p) (key : KeyType) : (s.freeing key).l1btb = s.l1btb := by
  unfold freeing
  split
  · rfl
  · split
    · rfl
    · split <;> rfl

end

/-! ## The simulation -/

inductive EventOf (tid : ThreadID) (g : Option PCState → Option StaticInst → α) (s : State p) :
    Op → Event U α → Prop
  | update {k : U} {target : PCState} {type : BranchType} {inst : Option StaticInst} :
      EventOf tid g s (.update tid k target type inst) (.update k (g (some target) inst))
  | promote {k : U} {type : BranchType} {taken : Bool} {blockStartAddr : Addr}
      {basePrediction : Bool} {l : Loc p.pBuffer.shape} (probes : p.probesPBuffer = true)
      (miss : s.l1btb.findEntry ⟨k, tid⟩ = none) (hit : s.pBuffer.findEntry ⟨k, tid⟩ = some l) :
      EventOf tid g s (.lookup tid k type taken blockStartAddr basePrediction)
        (.promote k (g (s.pBuffer.get l).target (s.pBuffer.get l).inst))
  | migrate {k : U} {type : BranchType} {taken : Bool} {blockStartAddr : Addr}
      {basePrediction : Bool} {x : α}
      (skip : p.probesPBuffer = true → s.pBuffer.findEntry ⟨k, tid⟩ = none) :
      EventOf tid g s (.lookup tid k type taken blockStartAddr basePrediction) (.migrate k x)
  | reuse {k : U} {type : BranchType} {taken : Bool} {blockStartAddr : Addr}
      {basePrediction : Bool} {way : Loc p.l1btb.shape}
      (hit : s.l1btb.findEntry ⟨k, tid⟩ = some way) :
      EventOf tid g s (.lookup tid k type taken blockStartAddr basePrediction) .idle
  | quiet {o : Op} (isQuiet : o.isQuiet = true) : EventOf tid g s o .idle
  | prefetch : EventOf tid g s .processDeferredPrefetchQueue .idle
  | clear : EventOf tid g s .memInvalidate .clear

/-- The state in which an operation frees an L1 way, if it does. -/
def entering (s : State p) : Op → State p
  | .lookup t instPC _ _ _ _ => s.freeing ⟨instPC, t⟩
  | _ => s

/-- The cascades that an operation can start meet the restriction. -/
def Admits (tid : ThreadID) (g : Option PCState → Option StaticInst → α)
    (A : Event U α → Levels U α → Victims U → Prop) (s : State p) (o : Op) : Prop :=
  ∀ e (k : U), EventOf tid g s o e → o.branch = some (k : Addr) →
    s.l1btb.findEntry ⟨k, tid⟩ = none →
    A e (levels tid g (s.entering o)) ((s.entering o).victims U tid k)

lemma admits_all (s : State p) (o : Op) :
    Admits (U := U) tid g (fun _ _ _ => True) s o := fun _ _ _ _ _ => trivial

section

variable (hsep : NoCollision p U tid) {s s' u : State p}
  (hkeyed : Orderly (keyedRule U tid) s) (hdistinct : Distinct s)
  {A : Event U α → Levels U α → Victims U → Prop}

include hsep hkeyed hdistinct

lemma overwrite_simulates {target : PCState} {inst : Option StaticInst} {way : Loc p.l1btb.shape}
    (hit : s.l1btb.findEntry ⟨k, tid⟩ = some way)
    (l1btb : lines s'.l1btb = Function.update (lines s.l1btb) way
      { lines s.l1btb way with target := some target, inst := inst }) (l2btb : s'.l2btb = s.l2btb)
    (l3btb : s'.l3btb = s.l3btb) :
    Step p.config A (levels tid g s) (.update k (g (some target) inst)) (levels tid g s') := by
  obtain ⟨hv, ht⟩ := (p.l1btb.shape.match_iff _ _).mp (findEntry_some hit).2
  rw [← slotFor_of_some hit] at l1btb
  have hput := put_of_stored (g := g) (hsep _ (l1_mem_levels p)) hdistinct.l1btb hkeyed.l1btb
    (by rw [slotFor_of_some hit]; exact hv) (by rw [slotFor_of_some hit]; exact ht)
    l1btb
  have hfound : (levels tid g s).l1 k ≠ none := by
    intro hnone
    rw [levels, view_eq_none, hit] at hnone
    cases hnone
  have hlevels : levels tid g s' = { levels tid g s with
      l1 := Function.update (levels tid g s).l1 k (some (g (some target) inst)) } := by
    unfold levels
    rw [l2btb, l3btb, hput.eq_update (hput.hit hfound)]
  rw [hlevels]
  exact .overwrite hfound

/-- A lookup that misses L1 promotes or migrates. -/
lemma lookupMiss_simulates {type : BranchType} {taken : Bool} {blockStartAddr : Addr}
    {basePrediction : Bool} {src : BTBEntry} (miss : s.l1btb.findEntry ⟨k, tid⟩ = none)
    (source : s.source ⟨k, tid⟩ = some src)
    (entered : Entered (s.freeing ⟨k, tid⟩) u tid k (src.line.placed p.l1btb ⟨k, tid⟩))
    (hA : Admits tid g A s (.lookup tid k type taken blockStartAddr basePrediction)) :
    ∃ e, EventOf tid g s (.lookup tid k type taken blockStartAddr basePrediction) e ∧
      Step p.config A (levels tid g s) e (levels tid g u) := by
  have hcascade := Entered.cascade (g := g) hsep (hkeyed.freeing ⟨k, tid⟩)
    (hdistinct.freeing ⟨k, tid⟩) entered (by rw [l1btb_freeing]; exact miss) rfl rfl
  have hmiss : (levels tid g s).l1 k = none := view_eq_none.mpr miss
  unfold State.source at source
  cases hbuf : (if p.probesPBuffer then s.pBuffer.findEntry ⟨(k : Addr), tid⟩ else none) with
  | some l =>
    simp only [hbuf, Option.some.injEq] at source
    subst source
    have hfree : s.freeing ⟨k, tid⟩ = s := by simp only [freeing, hbuf]
    split at hbuf
    · rename_i hprobe
      have hevent : EventOf tid g s (.lookup tid k type taken blockStartAddr basePrediction)
          (.promote k (g (s.pBuffer.get l).target (s.pBuffer.get l).inst)) :=
        .promote hprobe miss hbuf
      have hallowed := hA _ k hevent rfl miss
      simp only [entering, hfree] at hallowed hcascade
      exact ⟨_, hevent, .promote hmiss hallowed hcascade⟩
    · cases hbuf
  | none =>
    simp only [hbuf] at source
    have hskip : p.probesPBuffer = true → s.pBuffer.findEntry ⟨(k : Addr), tid⟩ = none := by
      intro hp
      rw [if_pos hp] at hbuf
      exact hbuf
    have hevent : ∀ x : α, EventOf tid g s
        (.lookup tid k type taken blockStartAddr basePrediction) (.migrate k x) :=
      fun x => .migrate hskip
    cases hl2 : s.l2btb.findEntry ⟨(k : Addr), tid⟩ with
    | some l =>
      simp only [hl2, Option.some.injEq] at source
      subst source
      have hallowed := hA _ k (hevent (g (s.l2btb.get l).target (s.l2btb.get l).inst)) rfl miss
      simp only [entering] at hallowed
      rw [levels_freeing_l2 hsep hkeyed hdistinct hbuf hl2] at hallowed hcascade
      exact ⟨_, hevent _, .migrate2 hmiss (view_of_found hl2) hallowed hcascade⟩
    | none =>
      simp only [hl2] at source
      split at source
      · rename_i hL3
        obtain ⟨l, hl, rfl⟩ := Option.map_eq_some_iff.mp source
        have hallowed := hA _ k (hevent (g (s.l3btb.get l).target (s.l3btb.get l).inst)) rfl miss
        simp only [entering] at hallowed
        rw [levels_freeing_l3 hsep hkeyed hdistinct hbuf hl2 hL3 hl] at hallowed hcascade
        exact ⟨_, hevent _, .migrate3 hmiss (view_eq_none.mpr hl2) (view_of_found hl) hallowed
          hcascade⟩
      · cases source

end

lemma view_of_invalid {C : BTBCache v} (h : ∀ l, (C.get l).valid = false) :
    view (U := U) tid g C = fun _ => none := by
  funext k
  rw [view_eq_none, findEntry_none_iff]
  intro l _
  rw [Bool.eq_false_iff]
  intro hm
  have hv : (C.get l).valid = true := ((v.shape.match_iff _ _).mp hm).1
  rw [h l] at hv
  cases hv

lemma levels_init (bw : PrevBrInfo) :
    levels (U := U) tid g (State.init p bw) = ⟨fun _ => none, fun _ => none, fun _ => none⟩ := by
  have hinit : ∀ {v : BTBLevel} (l : Loc v.shape), ((Cache.init v.shape).get l).valid = false := by
    intro v l
    rw [get_init]
    rfl
  unfold levels State.init
  rw [view_of_invalid hinit, view_of_invalid hinit, view_of_invalid hinit]

lemma levels_memInvalidate (hshallow : Shallow p.config (levels (U := U) tid g s)) :
    levels (U := U) tid g s.memInvalidate = ⟨fun _ => none, fun _ => none, fun _ => none⟩ := by
  have hclear : ∀ {v : BTBLevel} (C : BTBCache v) (l : Loc v.shape),
      (C.clear.get l).valid = false := by
    intro v C l
    rw [get_clear]
    rfl
  have hl3 : view (U := U) tid g s.memInvalidate.l3btb = fun _ => none := by
    unfold memInvalidate
    dsimp only
    split
    · exact view_of_invalid (hclear s.l3btb)
    · rename_i hL3
      funext k
      exact hshallow (Bool.eq_false_iff.mpr hL3) k
  unfold levels
  rw [hl3]
  unfold memInvalidate
  dsimp only
  rw [view_of_invalid (hclear s.l1btb), view_of_invalid (hclear s.l2btb)]

/-- Every operation of a run over branches in use is a transition of the
abstract hierarchy. -/
lemma step_simulates (hsep : NoCollision p U tid) {o : Op}
    {A : Event U α → Levels U α → Victims U → Prop} (hs : Settled U tid s)
    (hshallow : Shallow p.config (levels (U := U) tid g s)) (ho : o.Uses U tid)
    (hA : Admits tid g A s o) (h : s.step o = .ok s') :
    ∃ e, EventOf tid g s o e ∧ Step p.config A (levels tid g s) e (levels tid g s') := by
  cases step_effect (hs.allows ho) h with
  | quiet isQuiet _ same =>
    refine ⟨.idle, .quiet isQuiet, ?_⟩
    rw [same.levels]
    exact .same
  | @updateHit t instPC target type inst _ way hit _ l1btb _ l2btb l3btb =>
    obtain ⟨rfl, hpc⟩ := ho
    exact ⟨_, .update (k := ⟨instPC, hpc⟩), overwrite_simulates hsep hs.keyed hs.distinct
      (k := ⟨instPC, hpc⟩) hit l1btb l2btb l3btb⟩
  | @updateMiss t instPC target type inst _ miss _ entered _ =>
    obtain ⟨rfl, hpc⟩ := ho
    have hevent : EventOf t g s (.update t instPC target type inst)
        (.update ⟨instPC, hpc⟩ (g (some target) inst)) := .update (k := ⟨instPC, hpc⟩)
    refine ⟨_, hevent, .allocate (view_eq_none.mpr miss) (hA _ ⟨instPC, hpc⟩ hevent rfl miss) ?_⟩
    exact Entered.cascade (g := g) hsep hs.keyed hs.distinct (k := ⟨instPC, hpc⟩) entered miss
      rfl rfl
  | @lookupHit t instPC type taken blockStartAddr basePrediction _ way hit _ same =>
    obtain ⟨rfl, hpc⟩ := ho
    refine ⟨.idle, .reuse (k := ⟨instPC, hpc⟩) hit, ?_⟩
    rw [same.levels]
    exact .same
  | @lookupMiss t instPC type taken blockStartAddr basePrediction u _ src miss source brought
      prefetched =>
    obtain ⟨rfl, hpc⟩ := ho
    rw [prefetched.levels_eq]
    exact lookupMiss_simulates hsep hs.keyed hs.distinct (k := ⟨instPC, hpc⟩) miss source
      brought.entered hA
  | prefetch prefetched =>
    refine ⟨.idle, .prefetch, ?_⟩
    rw [prefetched.levels_eq]
    exact .same
  | clear =>
    refine ⟨.clear, .clear, ?_⟩
    rw [levels_memInvalidate hshallow]
    exact .clear

end State

end BTBFerret
