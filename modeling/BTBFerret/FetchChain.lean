import BTBFerret.FetchStage
import BTBFerret.TargetAims

/-!
# Fetch follows the chain of fetch targets

With instructions of one size fetch walks through a target from its start to its end and leaves it
where the next one starts. Three things can break this: a target that wraps around the address
space, a branch in the middle of an instruction that takes the history of another branch, and
squashes after which the two stages start at different PCs.
-/

namespace BTBFerret

open FallibleRuns List Option BitVec Bool

/-- The addresses of `k` instructions from a start on. -/
def walk (size : Nat) (start : Addr) (k : Nat) : List Addr :=
  (List.range' start.toNat k size).map (BitVec.ofNat 64)

def FetchTarget.range (ft : FetchTarget) (size : Nat) : List Addr :=
  walk size ft.startAddress ((ft.endAddress.toNat - ft.startAddress.toNat) / size + 1)

def Aligned (size : Nat) (a : Addr) : Prop := size ∣ a.toNat

instance (size : Nat) (a : Addr) : Decidable (Aligned size a) :=
  inferInstanceAs (Decidable (size ∣ a.toNat))

/-- Every instruction has the minimal size, and a target has room for whole instructions. -/
structure FixedSize (c : FrontEndParams) : Prop where
  advance : ∀ inst pc, inst.size = c.minInstSize → (c.advancePC inst pc).instAddr =
    if inst.notLast then pc.instAddr else pc.instAddr + BitVec.ofNat 64 c.minInstSize
  width : c.minInstSize ∣ c.fetchTargetWidth

/-! ## Walks -/

lemma walk_succ {size : Nat} {start pc : Addr} (hle : start.toNat ≤ pc.toNat)
    (hstart : Aligned size start) (hpc : Aligned size pc) :
    walk size start ((pc.toNat - start.toNat) / size + 1) =
      walk size start ((pc.toNat - start.toNat) / size) ++ [pc] := by
  have hdvd : size ∣ pc.toNat - start.toNat := Nat.dvd_sub hpc hstart
  have hlast : start.toNat + size * ((pc.toNat - start.toNat) / size) = pc.toNat := by
    rw [Nat.mul_div_cancel' hdvd]
    omega
  unfold walk
  rw [range'_concat, map_append, map_singleton, hlast, BitVec.ofNat_toNat, BitVec.setWidth_eq]

lemma walk_prefix_of_le {size : Nat} {start : Addr} {k m : Nat} (h : k ≤ m) :
    walk size start k <+: walk size start m := by
  obtain ⟨d, rfl⟩ := Nat.exists_eq_add_of_le h
  unfold walk
  rw [← range'_append, map_append]
  exact prefix_append _ _

section

variable {ft : FetchTarget} {pc : Addr} {size : Nat}

lemma inRange_iff : ft.inRange pc = true ↔
    ft.startAddress.toNat ≤ pc.toNat ∧ pc.toNat ≤ ft.endAddress.toNat := by
  unfold FetchTarget.inRange
  rw [and_eq_true, decide_eq_true_iff, decide_eq_true_iff, le_def, le_def]

lemma isExitInst_iff : ft.isExitInst pc = true ↔ pc = ft.endAddress := beq_iff_eq

lemma inRange_next (hin : ft.inRange pc = true) (hexit : ft.isExitInst pc = false)
    (hpc : Aligned size pc) (hend : Aligned size ft.endAddress) :
    ft.inRange (pc + BitVec.ofNat 64 size) = true ∧
      (pc + BitVec.ofNat 64 size).toNat = pc.toNat + size := by
  obtain ⟨hstart, hle⟩ := inRange_iff.mp hin
  have hne : pc ≠ ft.endAddress := by
    intro h
    rw [isExitInst_iff.mpr h] at hexit
    cases hexit
  have hlt : pc.toNat < ft.endAddress.toNat :=
    lt_of_le_of_ne hle (fun h => hne (eq_of_toNat_eq h))
  -- two multiples of the size differ by the size at least
  have hstep : pc.toNat + size ≤ ft.endAddress.toNat := by
    have hdvd : size ∣ ft.endAddress.toNat - pc.toNat := Nat.dvd_sub hend hpc
    have := Nat.le_of_dvd (by omega) hdvd
    omega
  have hlast := ft.endAddress.isLt
  have hnat : (pc + BitVec.ofNat 64 size).toNat = pc.toNat + size := by
    rw [toNat_add, toNat_ofNat, Nat.add_mod_mod, Nat.mod_eq_of_lt (by omega)]
  refine ⟨inRange_iff.mpr ?_, hnat⟩
  rw [hnat]
  omega

end

namespace FetchStage

variable {B : BranchTargetBuffer} {c : FetchParams}

/-! ## What is asked of a run -/

def Regular (c : FetchParams) (s : FetchStage B) : FetchOp B → Prop
  | .inst i => i.inst.size = c.frontEnd.minInstSize ∧
    Aligned c.frontEnd.minInstSize s.pc.instAddr ∧
    ∀ ft ∈ s.frontEnd.ftq.targets, Aligned c.frontEnd.minInstSize ft.startAddress ∧
      Aligned c.frontEnd.minInstSize ft.endAddress ∧
      ∀ h ∈ ft.bpuHistory, h.inst.size = c.frontEnd.minInstSize
  | _ => True

/-- No target wraps around the address space. A branch is no quiesce instruction, and one in the
middle of its instruction only takes the history of such a branch. -/
def StaysOnTarget (c : FetchParams) (s : FetchStage B) : FetchOp B → Prop
  | .inst i =>
    (∀ ft ∈ s.frontEnd.ftq.targets, ft.inRange ft.startAddress = true ∧
      ft.inRange (ft.behind c.frontEnd) = false) ∧
    (i.inst.isControl = true → i.isQuiesce = false) ∧
    (i.inst.isControl = true → i.inst.notLast = true → ∀ ft ∈ s.frontEnd.ftq.targets.head?,
      ∀ h ∈ FrontEnd.exitHistory ft s.pc.instAddr, h.inst.notLast = true)
  | _ => True

/-- After a squash both stages start at the same PC: fetch does not ignore a squash from decode, it
is still at the PC of a resteer that takes effect, and a drain ends at one PC. With a delay of at
most one cycle fetch cannot have moved since the resteer. -/
def InStep (c : FetchParams) (s : FetchStage B) : FetchOp B → Prop
  | .cycle sig _ _ =>
    (sig.commitSquash = none → sig.decodeSquash.isSome = true →
      sig.trapPending = false ∧ s.fetchStatus ≠ .squashing) ∧
    (1 < c.fetchToBacDelay → sig.commitSquash = none → sig.decodeSquash = none →
      s.frontEnd.bacStatus ≠ .squashing → ∀ p ∈ s.toBAC.head?.join, p.instAddr = s.pc.instAddr)
  | .drainResume => s.frontEnd.ftq.targets = [] →
    s.frontEnd.bacPC.instAddr = s.pc.instAddr
  | _ => True

/-! ## The course of fetch through a target -/

open FrontEnd

lemma completes_eq (inst : StaticInst) (pc nextPC : PCState) :
    completes inst pc nextPC = (!inst.notLast || nextPC.instAddr != pc.instAddr) := by
  unfold completes StaticInst.notLast
  cases inst.isMicroop <;> cases inst.isLastMicroop <;> rfl

/-- What an instruction of the head does in a usable queue: it waits at its PC for more micro-ops,
moves on within the target, ends the target or locks the queue. -/
inductive Course (c : FrontEndParams) (q : FTQ) (ft : FetchTarget) (inst : StaticInst)
    (pc : PCState) : FTQ → PCState → Prop
  | waits (ft' : FetchTarget) (hsame : ft'.withoutHistory = ft.withoutHistory)
      (haimed : Aimed c ft') (hlast : inst.notLast = true) (nextPC : PCState)
      (hpc : nextPC.instAddr = pc.instAddr) : Course c q ft inst pc (q.setHead ft') nextPC
  | moves (hlast : inst.notLast = false) (hexit : ft.isExitInst pc.instAddr = false)
      (nextPC : PCState)
      (hpc : nextPC.instAddr = pc.instAddr + BitVec.ofNat 64 c.minInstSize) :
      Course c q ft inst pc (q.setHead ft) nextPC
  | ends (ft' : FetchTarget) (hsame : ft'.withoutHistory = ft.withoutHistory)
      (hexit : ft.isExitInst pc.instAddr = true) (nextPC : PCState)
      (hnext : ft'.bpuHistory = none → ft.nextAddress = some nextPC.instAddr)
      (hmicro : inst.notLast = true → nextPC.instAddr = ft.behind c)
      (hplain : inst.isControl = false → ft' = ft ∧ nextPC.instAddr = ft.behind c) :
      Course c q ft inst pc (q.setHead ft') nextPC
  | locks (q' : FTQ) (hq : q'.status = .locked) (nextPC : PCState) :
      Course c q ft inst pc q' nextPC

variable {ft : FetchTarget}

lemma isExitInst_of_exitHistory {addr : Addr} {h : PredictorHistory}
    (hexit : exitHistory ft addr = some h) :
    ft.isExitInst addr = true ∧ ft.bpuHistory = some h := by
  unfold exitHistory at hexit
  split at hexit
  · rename_i hbranch
    exact ⟨(and_eq_true_iff.mp hbranch).1, hexit⟩
  · cases hexit

section

variable {c : FrontEndParams} (hfix : FixedSize c) {q q' : FTQ} {ft : FetchTarget}
  {inst : StaticInst} {pc nextPC : PCState}
include hfix

lemma advance_last (hsize : inst.size = c.minInstSize) (hlast : inst.notLast = false) :
    (c.advancePC inst pc).instAddr = pc.instAddr + BitVec.ofNat 64 c.minInstSize := by
  rw [hfix.advance inst pc hsize, hlast]
  rfl

lemma advance_micro (hsize : inst.size = c.minInstSize) (hlast : inst.notLast = true) :
    (c.advancePC inst pc).instAddr = pc.instAddr := by
  rw [hfix.advance inst pc hsize, hlast]
  rfl

lemma course_of_steered (hhead : q.readHead = some ft) (haimed : Aimed c ft)
    (hsize : inst.size = c.minInstSize)
    (hhist : ∀ h ∈ ft.bpuHistory, h.inst.size = c.minInstSize)
    (hmicro : inst.isControl = true → inst.notLast = true →
      ∀ h ∈ exitHistory ft pc.instAddr, h.inst.notLast = true)
    (h : Steered c q ft inst pc q' nextPC) : Course c q ft inst pc q' nextPC := by
  have hback : q.setHead ft = q := setHead_readHead hhead
  have hsame : ft.withoutHistory.withoutHistory = ft.withoutHistory := rfl
  -- the prediction after a branch that is not taken or in the middle of its instruction
  have hbehind : ∀ g, ft.bpuHistory = some g → g.predTaken = false ∨ g.inst.notLast = true →
      ft.nextAddress = some (ft.behind c) := by
    intro g hg hkind
    cases hlast : g.inst.notLast with
    | true =>
      rw [haimed.micro g hg hlast, hhist g hg]
      rfl
    | false =>
      rcases hkind with huntaken | hmid
      · exact haimed.untaken g hg hlast huntaken
      · rw [hlast] at hmid
        cases hmid
  cases h with
  | onward =>
    rw [← hback]
    cases hlast : inst.notLast with
    | true => exact .waits ft rfl haimed hlast _ (advance_micro hfix hsize hlast)
    | false =>
      have hpc : (c.advancePC inst pc).instAddr = pc.instAddr + BitVec.ofNat 64 c.minInstSize :=
        advance_last hfix hsize hlast
      cases hexit : ft.isExitInst pc.instAddr with
      | false => exact .moves hlast hexit _ hpc
      | true =>
        have hend : (c.advancePC inst pc).instAddr = ft.behind c := by
          rw [hpc, isExitInst_iff.mp hexit]
          rfl
        refine .ends ft rfl hexit _ ?_ ?_ (fun _ => ⟨rfl, hend⟩)
        · intro hplain
          rw [haimed.plain hplain, hend]
        · rw [hlast]
          rintro ⟨⟩
  | untaken g hexit hcontrol huntaken =>
    obtain ⟨hend, hg⟩ := isExitInst_of_exitHistory hexit
    have hnext := hbehind g hg (.inl huntaken)
    cases hlast : inst.notLast with
    | true =>
      exact .waits _ hsame (.withoutHistory hnext) hlast _ (advance_micro hfix hsize hlast)
    | false =>
      have hpc : (c.advancePC inst pc).instAddr = ft.behind c := by
        rw [advance_last hfix hsize hlast, isExitInst_iff.mp hend]
        rfl
      refine .ends _ hsame hend _ ?_ ?_ ?_
      · intro _
        rw [hnext, hpc]
      · rw [hlast]
        rintro ⟨⟩
      · intro hplain
        rw [hplain] at hcontrol
        cases hcontrol
  | taken g hexit hcontrol _ hpred =>
    obtain ⟨hend, hg⟩ := isExitInst_of_exitHistory hexit
    have hnext : ft.nextAddress = some nextPC.instAddr := by
      unfold FetchTarget.nextAddress
      rw [hpred]
      rfl
    refine .ends _ hsame hend _ (fun _ => hnext) ?_ ?_
    · intro hlast
      have hbranch := hbehind g hg (.inr (hmicro hcontrol hlast g hexit))
      exact some.inj (hnext.symm.trans hbranch)
    · intro hplain
      rw [hplain] at hcontrol
      cases hcontrol
  | locked _ hq => exact .locks q' hq nextPC

end

/-! ## One instruction -/

structure AtHead (c : FetchParams) (s : FetchStage B) (i : FetchedInst) (ft : FetchTarget) :
    Prop where
  head : s.frontEnd.ftq.readHead = some ft
  inRange : ft.inRange s.pc.instAddr = true
  regular : Regular c s (.inst i)
  stays : StaysOnTarget c s (.inst i)

/-- What `updatePC` returns for the instruction. -/
structure Updated (c : FetchParams) (s : FetchStage B) (i : FetchedInst) (ft : FetchTarget)
    (frontEnd : FrontEnd B) (nextPC : PCState) (done : Bool) : Prop where
  moved : Moved c.frontEnd s.frontEnd frontEnd (.updatePC 0 i.inst s.pc i.ans)
  stalls : SameStalls s.frontEnd frontEnd
  steered : Steered c.frontEnd s.frontEnd.ftq ft i.inst s.pc frontEnd.ftq nextPC
  done : done = (ft.isExitInst s.pc.instAddr && !i.inst.notLast || !frontEnd.ftq.isReady)

variable {s : FetchStage B} {i : FetchedInst}

lemma AtHead.mem (h : AtHead c s i ft) : ft ∈ s.frontEnd.ftq.targets := by
  obtain ⟨_, _, htargets⟩ := targets_of_readHead h.head
  rw [htargets]
  exact mem_cons_self

lemma meets_ofFrontEnd {α : Type} {x : Attempt B α} {good : α → Prop}
    {bad : FrontEndFault B.Fault → Prop} (h : Meets x good bad) :
    Meets (ofFrontEnd x) good (fun e => e ≠ .outOfRange) := by
  cases x with
  | ok => exact h
  | error =>
    rintro ⟨⟩

/-- How an instruction leaves the loop over micro-ops, with the state and the local variables after
the PC is updated. -/
inductive Proceeds (s : FetchStage B) (l : FetchLoop) (isQuiesce : Bool) (ft : FetchTarget) :
    FetchStage B → Prop
  | quiesces (hquiesce : isQuiesce = true) : Proceeds s l isQuiesce ft { s with
      fetchStatus := .quiescePending, loop := some { l with quiesce := true, inner := false } }
  | stays (hcur : l.curFT = true) : Proceeds s l isQuiesce ft { s with loop := some l }
  | refused (hcur : l.curFT = false) (q : FTQ) (hpop : Popped s.frontEnd.ftq q)
      (hq : q.status = .invalid) (l' : FetchLoop) (hcur' : l'.curFT = false)
      (hinner : l'.inner = false) : Proceeds s l isQuiesce ft { s with
        frontEnd := { s.frontEnd with ftq := q }, loop := some l' }
  | popped (hcur : l.curFT = false) (head : FetchTarget) (rest : List FetchTarget)
      (htargets : s.frontEnd.ftq.targets = head :: rest) (hhist : head.bpuHistory = none)
      (hlocked : s.frontEnd.ftq.status ≠ .locked) (l' : FetchLoop)
      (hcur' : l'.curFT = true → s.frontEnd.ftq.status ≠ .invalid ∧ rest ≠ [])
      (hinner : l'.inner = false) : Proceeds s l isQuiesce ft { s with
        frontEnd := { s.frontEnd with ftq := ⟨rest, s.frontEnd.ftq.status⟩ }
        consumed := s.consumed ++ [⟨ft, s.pc, rest.head?⟩]
        loop := some l' }

lemma meets_nextInst (s : FetchStage B) (l : FetchLoop) (isQuiesce : Bool) (ft : FetchTarget) :
    Meets (s.nextInst c l isQuiesce ft) (Proceeds s l isQuiesce ft) (fun e => e ≠ .outOfRange) := by
  unfold nextInst
  split
  · rename_i hquiesce
    exact .quiesces hquiesce
  · split
    · rename_i hcur
      exact .stays hcur
    · rename_i hcur
      rw [not_eq_true] at hcur
      unfold popTarget
      have hpop : Meets (s.frontEnd.ftq.popHead : Attempt B (FTQ × Bool))
          (fun r => (r.2 = false ∧ Popped s.frontEnd.ftq r.1 ∧ r.1.status = .invalid) ∨
            (r.2 = true ∧ ∃ head rest, s.frontEnd.ftq.targets = head :: rest ∧
              head.bpuHistory = none ∧ s.frontEnd.ftq.status ≠ .locked ∧
              r.1 = ⟨rest, s.frontEnd.ftq.status⟩)) (fun _ => True) := by
        unfold FTQ.popHead
        split
        · trivial
        · rename_i head rest htargets
          split
          · rename_i hhist
            exact .inl ⟨rfl, .kept head rest htargets hhist, rfl⟩
          · rename_i hhist
            have hnone : head.bpuHistory = none := by
              simpa using hhist
            split
            · rename_i hlocked
              exact .inl ⟨rfl, .unlocked head rest htargets hnone hlocked, rfl⟩
            · rename_i hlocked
              exact .inr ⟨rfl, head, rest, htargets, hnone, hlocked, rfl⟩
      refine (meets_ofFrontEnd hpop).bind ?_
      rintro ⟨q, popped⟩ (⟨hfalse, hpopped, hinvalid⟩ | ⟨htrue, head, rest, htargets, hnone,
        hlocked, hq⟩)
      · dsimp only at hfalse hpopped hinvalid ⊢
        subst hfalse
        exact .refused hcur q hpopped hinvalid _ rfl rfl
      · dsimp only at htrue hq ⊢
        subst htrue hq
        refine .popped hcur head rest htargets hnone hlocked _ ?_ rfl
        intro hcur'
        have hsome := (and_eq_true_iff.mp hcur').2
        unfold FTQ.readHead at hsome
        split at hsome
        · cases hsome
        · rename_i hready
          refine ⟨hready, ?_⟩
          rintro rfl
          cases hsome

section

variable {s : FetchStage B} {i : FetchedInst} {ft : FetchTarget} {frontEnd : FrontEnd B}
  {nextPC : PCState} {done : Bool}

lemma Updated.course (hfix : FixedSize c.frontEnd) (hat : AtHead c s i ft)
    (haimed : AllAimed c.frontEnd s.frontEnd.ftq) (h : Updated c s i ft frontEnd nextPC done) :
    Course c.frontEnd s.frontEnd.ftq ft i.inst s.pc frontEnd.ftq nextPC := by
  obtain ⟨hsize, _, hsizes⟩ := hat.regular
  obtain ⟨_, _, htargets⟩ := targets_of_readHead hat.head
  refine course_of_steered hfix hat.head (haimed ft hat.mem) hsize (hsizes ft hat.mem).2.2 ?_
    h.steered
  intro hcontrol hlast
  refine hat.stays.2.2 hcontrol hlast ft ?_
  rw [htargets]
  rfl

lemma Updated.locked (hat : AtHead c s i ft) (h : Updated c s i ft frontEnd nextPC done)
    (hlost : ¬ s.frontEnd.ftq.usable) : frontEnd.ftq.status = .locked := by
  obtain ⟨hready, _⟩ := targets_of_readHead hat.head
  have hlocked : s.frontEnd.ftq.status = .locked := by
    by_contra hne
    exact hlost ⟨hne, hready⟩
  have hsteered := h.steered
  generalize frontEnd.ftq = q at hsteered
  cases hsteered with
  | onward | untaken | taken => exact hlocked
  | locked _ hq => exact hq

lemma Updated.done_eq (hat : AtHead c s i ft) (h : Updated c s i ft frontEnd nextPC done) :
    done = (ft.isExitInst s.pc.instAddr && !i.inst.notLast) := by
  have hready := h.steered.ready (targets_of_readHead hat.head).1
  have hisReady : frontEnd.ftq.isReady = true := bne_iff_ne.mpr hready
  rw [h.done, hisReady, Bool.not_true, Bool.or_false]

def updated (s : FetchStage B) (i : FetchedInst) (frontEnd : FrontEnd B) (nextPC : PCState) :
    FetchStage B :=
  { s with
    frontEnd := frontEnd
    pc := nextPC
    fetched := if completes i.inst s.pc nextPC then s.fetched ++ [s.pc.instAddr] else s.fetched }

/-- What an instruction does to the queue and to the record of fetch. -/
inductive Built (c : FrontEndParams) (s t : FetchStage B) (ft : FetchTarget) : Prop
  | lost (hlost : ¬ t.frontEnd.ftq.usable) (hconsumed : t.consumed = s.consumed)
      (hfetched : s.fetched <+: t.fetched)
  | waits (ft' : FetchTarget) (hsame : ft'.withoutHistory = ft.withoutHistory)
      (haimed : Aimed c ft') (hftq : t.frontEnd.ftq = s.frontEnd.ftq.setHead ft')
      (hpc : t.pc.instAddr = s.pc.instAddr) (hconsumed : t.consumed = s.consumed)
      (hfetched : t.fetched = s.fetched)
  | moves (hftq : t.frontEnd.ftq = s.frontEnd.ftq) (hexit : ft.isExitInst s.pc.instAddr = false)
      (hpc : t.pc.instAddr = s.pc.instAddr + BitVec.ofNat 64 c.minInstSize)
      (hconsumed : t.consumed = s.consumed) (hfetched : t.fetched = s.fetched ++ [s.pc.instAddr])
  | rests (hftq : t.frontEnd.ftq = s.frontEnd.ftq) (hexit : ft.isExitInst s.pc.instAddr = true)
      (hpc : t.pc.instAddr = ft.behind c) (hconsumed : t.consumed = s.consumed)
      (hfetched : t.fetched = s.fetched ++ [s.pc.instAddr])
  | pops (husable : s.frontEnd.ftq.usable)
      (hftq : t.frontEnd.ftq = ⟨s.frontEnd.ftq.targets.tail, s.frontEnd.ftq.status⟩)
      (hexit : ft.isExitInst s.pc.instAddr = true)
      (hpc : ft.nextAddress = some t.pc.instAddr)
      (hconsumed : t.consumed = s.consumed ++ [⟨ft, t.pc, s.frontEnd.ftq.targets.tail.head?⟩])
      (hfetched : t.fetched = s.fetched ++ [s.pc.instAddr])

lemma fetched_updated (s : FetchStage B) (i : FetchedInst) (frontEnd : FrontEnd B)
    (nextPC : PCState) : s.fetched <+: (s.updated i frontEnd nextPC).fetched := by
  unfold updated
  dsimp only
  split
  · exact prefix_append _ _
  · exact prefix_refl _

lemma Updated.built_locked {t : FetchStage B} {l : FetchLoop}
    (hlocked : frontEnd.ftq.status = .locked)
    (hproceeds : Proceeds (s.updated i frontEnd nextPC) l i.isQuiesce ft t) :
    Built c.frontEnd s t ft := by
  have hlost : ¬ frontEnd.ftq.usable := fun h => h.1 hlocked
  have hfetched := fetched_updated s i frontEnd nextPC
  cases hproceeds with
  | quiesces | stays => exact .lost hlost rfl hfetched
  | refused _ _ _ hq => exact .lost (fun h => h.2 hq) rfl hfetched
  | popped _ _ _ _ _ hunlocked =>
    exact absurd hlocked hunlocked

lemma Updated.built (hfix : FixedSize c.frontEnd) (hat : AtHead c s i ft)
    (haimed : s.frontEnd.ftq.usable → AllAimed c.frontEnd s.frontEnd.ftq)
    (h : Updated c s i ft frontEnd nextPC done) {t : FetchStage B} {l : FetchLoop}
    (hcurFT : l.curFT = (!done && ft.inRange nextPC.instAddr))
    (hproceeds : Proceeds (s.updated i frontEnd nextPC) l i.isQuiesce ft t) :
    Built c.frontEnd s t ft := by
  by_cases husable : s.frontEnd.ftq.usable
  swap
  · exact built_locked (h.locked hat husable) hproceeds
  obtain ⟨_, hpc, hsizes⟩ := hat.regular
  obtain ⟨_, rest₀, htargets₀⟩ := targets_of_readHead hat.head
  have hsetHead : s.frontEnd.ftq.setHead ft = s.frontEnd.ftq := setHead_readHead hat.head
  rw [h.done_eq hat] at hcurFT
  have hcourse := h.course hfix hat (haimed husable)
  have hfetched : (s.updated i frontEnd nextPC).fetched =
      if completes i.inst s.pc nextPC then s.fetched ++ [s.pc.instAddr] else s.fetched := rfl
  have hftq : (s.updated i frontEnd nextPC).frontEnd.ftq = frontEnd.ftq := rfl
  rw [completes_eq] at hfetched
  generalize hq : frontEnd.ftq = q at hcourse
  cases hcourse with
  | locks _ hlocked => exact built_locked (hq.symm ▸ hlocked) hproceeds
  | waits ft' hsame haimed' hlast _ hnext =>
    -- the target is kept, so that nothing is popped
    rw [hlast, hnext, hat.inRange, Bool.not_true, Bool.and_false, Bool.not_false,
      Bool.and_self] at hcurFT
    rw [hlast, hnext, bne_self_eq_false, Bool.not_true, Bool.or_self,
      if_neg Bool.false_ne_true] at hfetched
    cases hproceeds with
    | quiesces | stays => exact .waits ft' hsame haimed' hq hnext rfl hfetched
    | refused hcur | popped hcur => exact absurd (hcurFT.symm.trans hcur) (by decide)
  | moves hlast hexit _ hnext =>
    rw [hexit, hnext, (inRange_next hat.inRange hexit hpc (hsizes ft hat.mem).2.1).1,
      Bool.false_and, Bool.not_false, Bool.and_self] at hcurFT
    rw [hlast, Bool.not_false, Bool.true_or, if_pos rfl] at hfetched
    rw [hsetHead] at hq
    cases hproceeds with
    | quiesces | stays => exact .moves hq hexit hnext rfl hfetched
    | refused hcur | popped hcur => exact absurd (hcurFT.symm.trans hcur) (by decide)
  | ends ft' _ hexit _ hnext hmicro hplain =>
    obtain ⟨_, hbehind⟩ := hat.stays.1 ft hat.mem
    -- a micro-op that ends the target moves the PC out of it
    have hdone : l.curFT = false ∧
        (!i.inst.notLast || nextPC.instAddr != s.pc.instAddr) = true := by
      rw [hexit] at hcurFT
      cases hlast : i.inst.notLast with
      | false =>
        rw [hlast] at hcurFT
        exact ⟨hcurFT, rfl⟩
      | true =>
        rw [hlast, hmicro hlast, hbehind, Bool.and_false] at hcurFT
        refine ⟨hcurFT, ?_⟩
        rw [hmicro hlast, Bool.not_true, Bool.false_or, bne_iff_ne]
        intro hsamePC
        rw [hsamePC, hat.inRange] at hbehind
        cases hbehind
    rw [hdone.2, if_pos rfl] at hfetched
    cases hproceeds with
    | quiesces hquiesce =>
      have hcontrol : i.inst.isControl = false := by
        rw [eq_false_iff]
        intro hcontrol
        rw [hat.stays.2.1 hcontrol] at hquiesce
        cases hquiesce
      obtain ⟨rfl, hnextPC⟩ := hplain hcontrol
      rw [hsetHead] at hq
      exact .rests hq hexit hnextPC rfl hfetched
    | stays hcur => exact absurd (hdone.1.symm.trans hcur) (by decide)
    | refused _ _ _ hinvalid =>
      exact .lost (fun h => h.2 hinvalid) rfl (fetched_updated s i frontEnd nextPC)
    | popped _ head rest htargets hhist =>
      have hcons : head :: rest = ft' :: rest₀ := by
        rw [← htargets, hftq, hq, FTQ.setHead, htargets₀]
        rfl
      obtain ⟨rfl, rfl⟩ := cons.inj hcons
      have htail : s.frontEnd.ftq.targets.tail = rest := by
        rw [htargets₀]
        rfl
      refine .pops husable ?_ hexit (hnext hhist) ?_ hfetched
      · rw [htail]
        dsimp only
        rw [hftq, hq]
        rfl
      · rw [htail]
        rfl

end

lemma meets_buildInst (hdec : c.frontEnd.decoupledFrontEnd = true)
    {l : FetchLoop} (hat : AtHead c s i ft) :
    Meets (s.buildInst c l i ft) (fun t => ∃ frontEnd nextPC done l',
      Updated c s i ft frontEnd nextPC done ∧
      l'.curFT = (!done && ft.inRange nextPC.instAddr) ∧
      Proceeds (s.updated i frontEnd nextPC) l' i.isQuiesce ft t) (fun e => e ≠ .outOfRange) := by
  unfold buildInst
  have hupdate := (meets_updatePC hdec s.frontEnd 0 i.inst s.pc i.ans).and
    (meets_updatePC_steers hdec s.frontEnd i.ans i.inst s.pc hat.head)
  refine (meets_ofFrontEnd hupdate).bind ?_
  rintro ⟨frontEnd, nextPC, taken, done⟩ ⟨⟨hmoved, hstalls, _⟩, hsteered, hdone⟩
  refine (meets_nextInst _ _ i.isQuiesce ft).mono ?_ (fun _ h => h)
  intro t hproceeds
  exact ⟨frontEnd, nextPC, done, _, ⟨hmoved, hstalls, hsteered, hdone⟩, rfl, hproceeds⟩

/-! ## Fetch stays on the chain -/

/-- The targets are linked and, in a usable queue, lead where they were predicted to. Fetch is in
the target it points to, and has left each target for the start of the next one. -/
structure Chained (c : FetchParams) (s : FetchStage B) : Prop where
  linked : Linked c.frontEnd s.frontEnd.core
  aimed : s.frontEnd.ftq.usable → AllAimed c.frontEnd s.frontEnd.ftq
  current : ∀ l, s.loop = some l → l.curFT = true →
    ∃ ft, s.frontEnd.ftq.readHead = some ft ∧ ft.inRange s.pc.instAddr = true
  inner : ∀ l, s.loop = some l → l.inner = true → l.curFT = true
  chain : ∀ e ∈ s.consumed, ∀ next, e.next = some next → e.pc.instAddr = next.startAddress

lemma chained_init (btb : B.State) (pc : PCState) : Chained c (init c btb pc) := by
  constructor
  · exact linked_of_empty rfl
  · rintro _ ft ⟨⟩
  · rintro l ⟨⟩
  · rintro l ⟨⟩
  · rintro e ⟨⟩

/-- Between cycles only the queue and the record matter. -/
lemma Chained.outside {t : FetchStage B} (h : Chained c s) (hloop : t.loop = none)
    (hlinked : Linked c.frontEnd t.frontEnd.core)
    (haimed : t.frontEnd.ftq.usable → AllAimed c.frontEnd t.frontEnd.ftq)
    (hconsumed : t.consumed = s.consumed ∨ t.consumed = []) : Chained c t := by
  constructor
  · exact hlinked
  · exact haimed
  · intro l hl
    rw [hloop] at hl
    cases hl
  · intro l hl
    rw [hloop] at hl
    cases hl
  · rcases hconsumed with hsame | hnone
    · rw [hsame]
      exact h.chain
    · rw [hnone]
      rintro e ⟨⟩

lemma inRange_of_same {ft' : FetchTarget} (hsame : ft'.withoutHistory = ft.withoutHistory)
    (addr : Addr) : ft'.inRange addr = ft.inRange addr := by
  have hold : ft'.withoutHistory.inRange addr = ft.withoutHistory.inRange addr := by rw [hsame]
  exact hold

section

variable {s t : FetchStage B} {i : FetchedInst} {ft : FetchTarget} {frontEnd : FrontEnd B}
  {nextPC : PCState} {done : Bool} {l : FetchLoop}

lemma Updated.linked (h : Chained c s) (hupdated : Updated c s i ft frontEnd nextPC done)
    (hproceeds : Proceeds (s.updated i frontEnd nextPC) l i.isQuiesce ft t) :
    Linked c.frontEnd t.frontEnd.core := by
  have hlinked : Linked c.frontEnd frontEnd.core := h.linked.moved hupdated.moved.queueMove
  cases hproceeds with
  | quiesces | stays => exact hlinked
  | refused _ _ hpop => exact hlinked.shrunk hpop.shape rfl rfl
  | popped _ head rest htargets hhist hlocked =>
    exact hlinked.shrunk (Popped.popped head rest htargets hhist hlocked).shape rfl rfl

/-- The first target of the rest of the queue starts where the head leads. -/
lemma next_start {q : FTQ} {next : FetchTarget} {addr : Addr} (hhead : q.readHead = some ft)
    (hfollows : q.targets.IsChain Follows) (hnext : q.targets.tail.head? = some next)
    (haddr : ft.nextAddress = some addr) : addr = next.startAddress := by
  obtain ⟨_, rest, htargets⟩ := targets_of_readHead hhead
  rw [htargets] at hfollows hnext
  obtain ⟨after, hafter⟩ := head?_eq_some_iff.mp hnext
  rw [show rest = next :: after from hafter] at hfollows
  have hfirst : Follows ft next := (isChain_cons_cons.mp hfollows).1
  exact some.inj (haddr.symm.trans hfirst)

lemma Built.aimed (hat : AtHead c s i ft) (h : Chained c s) (hbuilt : Built c.frontEnd s t ft) :
    t.frontEnd.ftq.usable → AllAimed c.frontEnd t.frontEnd.ftq := by
  obtain ⟨_, rest, htargets⟩ := targets_of_readHead hat.head
  intro husable
  cases hbuilt with
  | lost hlost => exact absurd husable hlost
  | waits _ _ haimed hftq =>
    rw [hftq] at husable ⊢
    have hold := h.aimed husable
    unfold AllAimed FTQ.setHead at *
    rw [htargets] at hold ⊢
    intro g hg
    rcases mem_cons.mp hg with rfl | hg
    · exact haimed
    · exact hold g (mem_cons_of_mem ft hg)
  | moves hftq | rests hftq =>
    rw [hftq] at husable ⊢
    exact h.aimed husable
  | pops _ hftq =>
    rw [hftq] at husable ⊢
    intro g hg
    exact h.aimed husable g (mem_of_mem_tail hg)

lemma Built.chain (hat : AtHead c s i ft) (h : Chained c s) (hbuilt : Built c.frontEnd s t ft) :
    ∀ e ∈ t.consumed, ∀ next, e.next = some next → e.pc.instAddr = next.startAddress := by
  cases hbuilt with
  | lost _ hconsumed | waits _ _ _ _ _ hconsumed | moves _ _ _ hconsumed | rests _ _ _ hconsumed =>
    rw [hconsumed]
    exact h.chain
  | pops _ _ _ hpc hconsumed =>
    rw [hconsumed]
    intro e he next hnext
    rcases mem_append.mp he with hold | hnew
    · exact h.chain e hold next hnext
    · obtain rfl := mem_singleton.mp hnew
      exact next_start hat.head h.linked.follows hnext hpc

/-- After a step fetch points to a target only if it is in it. -/
lemma Updated.current (h : Chained c s) (hat : AtHead c s i ft)
    (hupdated : Updated c s i ft frontEnd nextPC done)
    (hcurFT : l.curFT = (!done && ft.inRange nextPC.instAddr))
    (hproceeds : Proceeds (s.updated i frontEnd nextPC) l i.isQuiesce ft t)
    (hbuilt : Built c.frontEnd s t ft) {l' : FetchLoop} (hloop : t.loop = some l')
    (hcur' : l'.curFT = true) :
    ∃ g, t.frontEnd.ftq.readHead = some g ∧ g.inRange t.pc.instAddr = true := by
  have hkept : l.curFT = true →
      ∃ g, frontEnd.ftq.readHead = some g ∧ g.inRange nextPC.instAddr = true := by
    intro hcur
    rw [hcurFT] at hcur
    have hrange := (and_eq_true_iff.mp hcur).2
    have hsteered := hupdated.steered
    have hready := hsteered.ready (targets_of_readHead hat.head).1
    -- predecoding keeps the head up to its history
    have hshape : frontEnd.ftq.shape = s.frontEnd.ftq.shape := by
      generalize frontEnd.ftq = q at hsteered
      cases hsteered with
      | onward => rfl
      | untaken | taken => exact shape_setHead hat.head
      | locked _ _ hshape => exact hshape
    obtain ⟨_, _, htargets⟩ := targets_of_readHead hat.head
    unfold FTQ.shape at hshape
    rw [htargets, map_cons] at hshape
    obtain ⟨g, _, hg, hsame, _⟩ := map_eq_cons_iff.mp hshape
    refine ⟨g, ?_, ?_⟩
    · unfold FTQ.readHead
      rw [if_neg hready, hg]
      rfl
    · rw [inRange_of_same hsame]
      exact hrange
  cases hproceeds with
  | quiesces =>
    obtain rfl := some.inj hloop
    exact hkept hcur'
  | stays hcur => exact hkept hcur
  | refused _ _ _ _ _ hcur'' =>
    obtain rfl := some.inj hloop
    rw [hcur''] at hcur'
    cases hcur'
  | popped _ _ _ _ _ hlocked _ hcur'' =>
    obtain rfl := some.inj hloop
    obtain ⟨hready, hne⟩ := hcur'' hcur'
    obtain ⟨next, after, rfl⟩ := exists_cons_of_ne_nil hne
    refine ⟨next, if_neg hready, ?_⟩
    -- the entry of the record tells that fetch is at the start of the next target
    have hstart : nextPC.instAddr = next.startAddress :=
      hbuilt.chain hat h ⟨ft, nextPC, some next⟩ (mem_append_right _ mem_cons_self) next rfl
    have hmem : next ∈ s.frontEnd.ftq.targets := by
      cases hbuilt with
      | lost hlost => exact absurd ⟨hlocked, hready⟩ hlost
      | waits _ _ _ _ _ hconsumed | moves _ _ _ hconsumed | rests _ _ _ hconsumed =>
        exact absurd (congrArg length hconsumed) (by simp [updated])
      | pops _ hftq _ _ _ _ =>
        have htail : next :: after = s.frontEnd.ftq.targets.tail := congrArg FTQ.targets hftq
        refine mem_of_mem_tail ?_
        rw [← htail]
        exact mem_cons_self
    change next.inRange nextPC.instAddr = true
    rw [hstart]
    exact (hat.stays.1 next hmem).1

lemma Proceeds.inner {u : FetchStage B} {b : Bool} (h : Proceeds u l b ft t) {l' : FetchLoop}
    (hloop : t.loop = some l') (hinner : l'.inner = true) : l'.curFT = true := by
  cases h with
  | quiesces =>
    obtain rfl := some.inj hloop
    cases hinner
  | stays hcur =>
    obtain rfl := some.inj hloop
    exact hcur
  | refused _ _ _ _ _ _ hno | popped _ _ _ _ _ _ _ _ hno =>
    obtain rfl := some.inj hloop
    rw [hno] at hinner
    cases hinner

end

lemma meets_buildInst_chained (hdec : c.frontEnd.decoupledFrontEnd = true)
    (hfix : FixedSize c.frontEnd) (h : Chained c s) {l : FetchLoop}
    (hat : AtHead c s i ft) :
    Meets (s.buildInst c l i ft) (fun t => Chained c t ∧ Built c.frontEnd s t ft ∧
      t.loop.isSome = true ∧ t.toBAC = s.toBAC ∧ t.frontEnd.bacPC = s.frontEnd.bacPC ∧
      t.frontEnd.stalls.drain = s.frontEnd.stalls.drain) (fun e => e ≠ .outOfRange) := by
  refine (meets_buildInst hdec hat).mono ?_ (fun _ h => h)
  rintro t ⟨frontEnd, nextPC, done, l', hupdated, hcurFT, hproceeds⟩
  have hbuilt := hupdated.built hfix hat h.aimed hcurFT hproceeds
  refine ⟨⟨hupdated.linked h hproceeds, hbuilt.aimed hat h, ?_, ?_, hbuilt.chain hat h⟩, hbuilt, ?_⟩
  · intro l'' hloop hcur
    exact hupdated.current h hat hcurFT hproceeds hbuilt hloop hcur
  · intro l'' hloop hinner
    exact hproceeds.inner hloop hinner
  · have hpc : frontEnd.bacPC = s.frontEnd.bacPC := by
      cases hupdated.moved with
      | branch _ _ _ _ _ _ hhead hcore => exact (hcore.sameShape hhead).bacPC
      | plain _ _ _ _ _ hcore => exact congrArg Core.bacPC hcore
    have hdrain := hupdated.stalls.drain
    cases hproceeds with
    | quiesces | stays | refused | popped => exact ⟨rfl, rfl, hpc, hdrain⟩

/-! ## Cycles -/

def signalledPC (s : FetchStage B) (sig : PipelineSignals) : PCState :=
  match sig.commitSquash with
  | some squash => squash.pc
  | none =>
    if sig.trapPending then s.pc
    else match sig.decodeSquash with
      | some squash => if s.fetchStatus = .squashing then s.pc else squash.nextPC
      | none => s.pc

lemma updateStatus_eq (s : FetchStage B) :
    ∃ status, s.updateStatus = { s with fetchStatus := status } := by
  unfold updateStatus
  split
  · exact ⟨_, rfl⟩
  · split
    · exact ⟨_, rfl⟩
    · split
      · exact ⟨_, rfl⟩
      · exact ⟨s.fetchStatus, rfl⟩

lemma checkSignalsAndUpdate_eq (s : FetchStage B) (sig : PipelineSignals) :
    ∃ status, s.checkSignalsAndUpdate sig =
      { s with pc := s.signalledPC sig, fetchStatus := status } := by
  obtain ⟨status, hstatus⟩ := s.updateStatus_eq
  unfold checkSignalsAndUpdate signalledPC
  cases sig.commitSquash with
  | some => exact ⟨_, rfl⟩
  | none =>
    cases sig.trapPending with
    | true => exact ⟨_, rfl⟩
    | false =>
      cases sig.decodeSquash with
      | none => exact ⟨status, hstatus⟩
      | some =>
        by_cases hbusy : s.fetchStatus = .squashing
        · simp only [hbusy, if_true]
          exact ⟨status, hstatus⟩
        · simp only [hbusy, if_false]
          exact ⟨_, rfl⟩

inductive Fetches (c : FetchParams) (s : FetchStage B) : FetchStage B → Prop
  | left (status : FetchStatus) : Fetches c s (leave c { s with fetchStatus := status } none)
  | resteered : Fetches c s (s.bacResteer c)
  | entered (ft : FetchTarget) (hhead : s.frontEnd.ftq.readHead = some ft)
      (hrange : ft.inRange s.pc.instAddr = true) : Fetches c s s.enterLoop

lemma fetches (s : FetchStage B) (line : Option FetchStatus) : Fetches c s (s.fetch c line) := by
  unfold fetch
  split
  · exact .left s.fetchStatus
  · split
    · exact .left .ftqEmpty
    · split
      · exact .resteered
      · rename_i hrange
        rw [not_eq_true, not_eq_false', Option.any_eq_true] at hrange
        obtain ⟨ft, hhead, hin⟩ := hrange
        split
        · exact .entered ft hhead hin
        · split
          · split
            · exact .left _
            · exact .entered ft hhead hin
          · exact .left s.fetchStatus

lemma aimed_invalidate {c : FrontEndParams} {q : FTQ}
    (h : q.usable → AllAimed c q) (hq : q.invalidate.usable) : AllAimed c q.invalidate := by
  unfold FTQ.invalidate at hq ⊢
  by_cases hempty : q.isEmpty = true
  · rw [if_pos hempty] at hq ⊢
    exact h hq
  · rw [if_neg hempty] at hq
    exact absurd rfl hq.2

lemma linked_invalidate {c : FrontEndParams} {s : FrontEnd B} (h : Linked c s.core) :
    Linked c ({ s with ftq := s.ftq.invalidate } : FrontEnd B).core := by
  refine h.shrunk ?_ rfl rfl
  change s.ftq.invalidate.shape <:+ s.ftq.shape
  unfold FTQ.invalidate
  split
  · exact suffix_rfl
  · exact suffix_rfl

lemma Fetches.chained {t : FetchStage B} (h : Chained c s) (hfetches : Fetches c s t) :
    Chained c t := by
  cases hfetches with
  | left => exact h.outside rfl h.linked h.aimed (.inl rfl)
  | resteered =>
    exact h.outside rfl (linked_invalidate h.linked) (aimed_invalidate h.aimed) (.inl rfl)
  | entered ft hhead hrange =>
    refine ⟨h.linked, h.aimed, ?_, ?_, h.chain⟩
    · intro l _ _
      exact ⟨ft, hhead, hrange⟩
    · rintro l ⟨⟩ hinner
      cases hinner

lemma finish_cases (s : FetchStage B) (l : FetchLoop) : Fetches c s (s.finish c l) := by
  unfold finish
  split
  · exact .resteered
  · exact .left s.fetchStatus

/-- The state in which fetch looks at its head, after the branch address calculation has ticked
and the signals are handled. -/
def synced (s : FetchStage B) (sig : PipelineSignals) (frontEnd : FrontEnd B)
    (status : FetchStatus) : FetchStage B :=
  let squashed := s.frontEnd.squashesQueue (sig.withResteer s.toBAC.head?.join)
  { s with
    frontEnd := frontEnd
    pc := s.signalledPC sig
    fetchStatus := status
    toBAC := s.toBAC.tail
    fetched := if squashed then [] else s.fetched
    consumed := if squashed then [] else s.consumed }

structure Cycled (c : FetchParams) (s t : FetchStage B) (sig : PipelineSignals)
    (frontEnd : FrontEnd B) : Prop where
  ticked : Ticked c.frontEnd s.frontEnd frontEnd (sig.withResteer s.toBAC.head?.join)
  linked : Linked c.frontEnd frontEnd.core
  aimed : AllAimed c.frontEnd s.frontEnd.ftq → AllAimed c.frontEnd frontEnd.ftq
  drain : frontEnd.stalls.drain = s.frontEnd.stalls.drain
  fetches : ∃ status, Fetches c (s.synced sig frontEnd status) t

lemma meets_cycle (hdec : c.frontEnd.decoupledFrontEnd = true)
    (h : Chained c s) (sig : PipelineSignals) (answers : Nat → Answers)
    (line : Option FetchStatus) :
    Meets (s.cycle c sig answers line) (fun t => ∃ frontEnd, Cycled c s t sig frontEnd)
      (fun e => e ≠ .outOfRange) := by
  unfold cycle
  dsimp only
  have htick := (meets_tick hdec s.frontEnd 0 (sig.withResteer s.toBAC.head?.join) answers).and
    (meets_tick_aimed hdec s.frontEnd (sig.withResteer s.toBAC.head?.join) answers)
  refine (meets_ofFrontEnd htick).bind ?_
  rintro frontEnd ⟨⟨hmoved, hstalls⟩, hticked, haimed⟩
  refine ⟨frontEnd, hticked, h.linked.moved hmoved.queueMove, haimed, hstalls.drain, ?_⟩
  obtain ⟨status, hstatus⟩ :=
    checkSignalsAndUpdate_eq { s.synced sig frontEnd s.fetchStatus with pc := s.pc } sig
  refine ⟨status, ?_⟩
  have hfetches := fetches (c := c) (s.synced sig frontEnd status) line
  have hsynced : checkSignalsAndUpdate { s.synced sig frontEnd s.fetchStatus with pc := s.pc } sig =
      s.synced sig frontEnd status := hstatus
  rw [← hsynced] at hfetches ⊢
  exact hfetches

lemma ticked_usable {c : FrontEndParams} {s t : FrontEnd B} {sig : Signals}
    (h : Ticked c s t sig) (husable : t.ftq.usable) : t.ftq.targets = [] ∨ s.ftq.usable := by
  cases h with
  | restarted _ ftq | drained _ ftq =>
    rw [ftq]
    exact .inl rfl
  | grown _ _ _ ftq _ pushes =>
    have hstatus : t.ftq.status = s.ftq.status := by
      rw [← ftq]
      exact (Pushes.ftq pushes).1
    unfold FTQ.usable at husable ⊢
    rw [hstatus] at husable
    exact .inr husable

lemma Cycled.chained {t : FetchStage B} {sig : PipelineSignals} {frontEnd : FrontEnd B}
    (h : Chained c s) (hloop : s.loop = none) (hcycled : Cycled c s t sig frontEnd) :
    Chained c t := by
  obtain ⟨status, hfetches⟩ := hcycled.fetches
  have haimed : frontEnd.ftq.usable → AllAimed c.frontEnd frontEnd.ftq := by
    intro husable
    rcases ticked_usable hcycled.ticked husable with hempty | hold
    · intro ft hft
      rw [hempty] at hft
      cases hft
    · exact hcycled.aimed (h.aimed hold)
  have hconsumed : (s.synced sig frontEnd status).consumed = s.consumed ∨
      (s.synced sig frontEnd status).consumed = [] := by
    unfold synced
    dsimp only
    split
    · exact .inr rfl
    · exact .inl rfl
  have hmid : Chained c (s.synced sig frontEnd status) :=
    h.outside hloop hcycled.linked haimed hconsumed
  exact hfetches.chained hmid

lemma Chained.atHead (h : Chained c s) {l : FetchLoop}
    (hloop : s.loop = some l) (hcur : l.curFT = true)
    (hhead : s.frontEnd.ftq.readHead = some ft) (hreg : Regular c s (.inst i))
    (hstays : StaysOnTarget c s (.inst i)) : AtHead c s i ft := by
  obtain ⟨g, hg, hrange⟩ := h.current l hloop hcur
  obtain rfl : g = ft := some.inj (hg.symm.trans hhead)
  exact ⟨hhead, hrange, hreg, hstays⟩

/-- An instruction is only built in the head of the queue, where the assertion holds. -/
lemma meets_fetchInst (h : Chained c s) {l : FetchLoop}
    (hloop : s.loop = some l) (hreg : Regular c s (.inst i))
    (hstays : StaysOnTarget c s (.inst i)) {good : FetchStage B → Prop}
    (hbuild : ∀ ft, AtHead c s i ft → Meets (s.buildInst c l i ft) good
      (fun e => e ≠ .outOfRange)) :
    Meets (s.fetchInst c l i) good (fun e => e ≠ .outOfRange) := by
  unfold fetchInst
  split
  · rintro ⟨⟩
  · rename_i ft hhead
    split
    · rename_i hinner
      exact hbuild ft (h.atHead hloop (h.inner l hloop hinner) hhead hreg hstays)
    · split
      · rintro ⟨⟩
      · rename_i hgoes
        rw [not_eq_true, not_eq_false'] at hgoes
        have hat := h.atHead hloop (and_eq_true_iff.mp hgoes).2 hhead hreg hstays
        rw [hat.inRange]
        exact hbuild ft hat

end FetchStage

end BTBFerret
