import BTBFerret.BTBContract
import BTBFerret.HistoryOrder

/-!
# The block map

With a block-based BTB the map from the start of a block to its last branch bounds the
fetch targets, and the fetch targets bound the branches whose histories are written to
the map. The two bounds are one invariant of prediction, predecoding and squashes.
-/

namespace BTBFerret

open FallibleRuns BitVec Except

/-- A branch at most `width` bytes behind the start of its block, without wrap-around. -/
def InBlock (width : Nat) (start branch : Addr) : Prop :=
  start.toNat ≤ branch.toNat ∧ branch.toNat ≤ start.toNat + width

def MapBounded (width : Nat) (map : BBMap) : Prop :=
  ∀ start branch, map start = some branch → InBlock width start branch

def TargetBounded (width : Nat) (ft : FetchTarget) : Prop :=
  ft.endAddress.toNat ≤ ft.startAddress.toNat + width ∧
  (ft.startAddress.toNat + width < 2 ^ 64 → ft.startAddress ≤ ft.endAddress) ∧
  ∀ h, ft.bpuHistory = some h → h.pc = ft.endAddress

variable {B : BranchTargetBuffer} {c : FrontEndParams} {width : Nat}

lemma MapBounded.update {map : BBMap} (h : MapBounded width map) {start branch : Addr}
    (hnew : InBlock width start branch) :
    MapBounded width (Function.update map start (some branch)) := by
  intro a b hab
  by_cases ha : a = start
  · subst ha
    rw [Function.update_self] at hab
    obtain rfl := Option.some.inj hab
    exact hnew
  · rw [Function.update_of_ne ha] at hab
    exact h a b hab

lemma contract_mapBounded : Contract (B := B) (fun _ => MapBounded width) (fun _ _ _ => True)
    (InBlock width) (fun _ => False) :=
  contract_bbMap fun _ _ _ hmap hnew => hmap.update hnew

lemma contract_sameMap (map : BBMap) : Contract (B := B) (fun _ => (· = map)) (fun _ _ _ => True)
    (fun _ _ => False) (fun _ => False) :=
  contract_bbMap fun _ _ _ _ hnew => hnew.elim

namespace FrontEnd

open BPredUnit

def ThreadBounded (width : Nat) (k : Core) : Prop :=
  ∀ a ∈ k.tickets, InBlock width a.startAddress a.pc

variable {s : FrontEnd B}

lemma ThreadBounded.predHist (h : ThreadBounded width s.core) :
    ∀ g ∈ s.bpu.predHist 0, InBlock width g.startAddress g.pc :=
  fun g hg => h g.ticket (List.mem_map_of_mem hg)

/-! ## The map bounds the targets -/

def SearchBounded (B : BranchTargetBuffer) (c : FrontEndParams) (width : Nat) : Prop :=
  ∀ s : FrontEnd B, MapBounded width s.bpu.bbMap → ∀ tid start,
    (s.findBranch c tid start).1.toNat ≤ start.toNat + width ∧
    (start.toNat + width < 2 ^ 64 → start ≤ (s.findBranch c tid start).1)

lemma searchBounded_all : SearchBounded B c (2 ^ 64) := by
  intro s _ tid start
  constructor
  · have := (s.findBranch c tid start).1.isLt
    omega
  · intro hfits
    omega

lemma searchBounded_block (hblock : c.blockBTB = true) :
    SearchBounded B c c.fetchTargetWidth := by
  intro s hs tid start
  unfold findBranch
  rw [if_pos hblock]
  dsimp only
  split
  · rename_i hfound
    obtain ⟨hmapped, hle, _⟩ := hfound
    refine ⟨?_, fun _ => hle⟩
    unfold BPredUnit.lookupBBBranch at hmapped ⊢
    cases hentry : s.bpu.bbMap start with
    | none =>
      rw [hentry] at hmapped
      exact absurd rfl hmapped
    | some branch => exact (hs start branch hentry).2
  · have hsum : (start + BitVec.ofNat 64 c.fetchTargetWidth).toNat =
        (start.toNat + c.fetchTargetWidth) % 2 ^ 64 := by
      rw [toNat_add, toNat_ofNat, Nat.add_mod_mod]
    refine ⟨?_, ?_⟩
    · rw [hsum]
      exact Nat.mod_le _ _
    · intro hfits
      rw [le_def, hsum, Nat.mod_eq_of_lt hfits]
      exact Nat.le_add_right _ _

structure GrowsBounded (width : Nat) (s t : FrontEnd B) : Prop where
  bbMap : t.bpu.bbMap = s.bpu.bbMap
  targets : (∀ ft ∈ s.ftq.targets, TargetBounded width ft) →
    ∀ ft ∈ t.ftq.targets, TargetBounded width ft

lemma meets_generateFetchTarget_bounded (hsearch : SearchBounded B c width)
    (hs : MapBounded width s.bpu.bbMap) (tid : ThreadID) (ans : Answers) :
    Meets (s.generateFetchTarget c tid ans) (fun r => GrowsBounded width s r.1)
      (fun _ => True) := by
  obtain ⟨hend, hstart⟩ := hsearch { s with globalFTSeqNum := s.globalFTSeqNum + 1 } hs tid
    s.bacPC.instAddr
  refine ((meets_generateFetchTarget_keeps (contract_sameMap s.bpu.bbMap) rfl tid ans).and
    (meets_generateFetchTarget s tid ans)).mono ?_ (fun _ _ => trivial)
  rintro ⟨t, predTaken⟩ ⟨hmap, ⟨ft, nextPC, hpush, _, hexit⟩, _⟩
  have hst : ft.startAddress = s.bacPC.instAddr := congrArg PCState.instAddr hpush.start
  refine ⟨hmap, hpush.targets ⟨?_, ?_, fun h hh => (hpush.history h hh).2.1⟩⟩
  · rw [hst, hexit]
    exact hend
  · rw [hst, hexit]
    exact hstart

lemma GrowsBounded.refl (s : FrontEnd B) : GrowsBounded width s s := ⟨rfl, fun h => h⟩

variable {t : FrontEnd B}

lemma GrowsBounded.trans {u : FrontEnd B} (h : GrowsBounded width s t)
    (h' : GrowsBounded width t u) : GrowsBounded width s u :=
  ⟨h'.bbMap.trans h.bbMap, fun hs => h'.targets (h.targets hs)⟩

lemma meets_generateLoop_bounded (hsearch : SearchBounded B c width) (tid : ThreadID)
    (fts : Nat) : ∀ (takens : Nat) (answers : Nat → Answers) (s : FrontEnd B),
      MapBounded width s.bpu.bbMap →
      Meets (generateLoop c tid fts takens answers s) (GrowsBounded width s) (fun _ => True) := by
  induction fts with
  | zero =>
    intro takens answers s hs
    exact GrowsBounded.refl s
  | succ _ ih =>
    intro takens answers s hs
    cases takens with
    | zero => exact GrowsBounded.refl s
    | succ =>
      unfold generateLoop
      refine (meets_generateFetchTarget_bounded hsearch hs tid (answers 0)).bind ?_
      rintro ⟨t, predTaken⟩ hgrows
      dsimp only at hgrows ⊢
      split
      · exact ⟨hgrows.bbMap, hgrows.targets⟩
      · split
        · exact hgrows
        · refine (ih _ _ t ?_).mono (fun u hu => hgrows.trans hu) (fun _ h => h)
          rw [hgrows.bbMap]
          exact hs

lemma meets_generate_bounded (hsearch : SearchBounded B c width)
    (hs : MapBounded width s.bpu.bbMap) (tid : ThreadID) (answers : Nat → Answers) :
    Meets (s.generate c tid answers) (GrowsBounded width s) (fun _ => True) := by
  have hmap := meets_generate_keeps (c := c) (contract_sameMap s.bpu.bbMap) rfl tid answers
  unfold generate at hmap ⊢
  split
  · exact meets_generateLoop_bounded hsearch tid _ _ _ s hs
  · rename_i hrest
    rw [if_neg hrest] at hmap
    split
    · rename_i hover
      rw [if_pos hover] at hmap
      refine (hmap.and (meets_generateOverrideFetchTargets s _)).mono ?_ (fun _ _ => trivial)
      rintro t ⟨hsame, hcore, _⟩
      have hftq : t.ftq = s.ftq := congrArg Core.ftq hcore
      refine ⟨hsame, ?_⟩
      rw [hftq]
      exact fun h => h
    · exact GrowsBounded.refl s

/-! ## Runs -/

structure Blocks (width : Nat) (s : FrontEnd B) : Prop where
  map : MapBounded width s.bpu.bbMap
  thread : ThreadBounded width s.core
  targets : ∀ ft ∈ s.ftq.targets, TargetBounded width ft

lemma Blocks.thinned (h : Blocks width s) (hthin : Thinned s.core t.core)
    (hmap : MapBounded width t.bpu.bbMap) : Blocks width t := by
  constructor
  · exact hmap
  · intro a ha
    exact h.thread a (hthin.tickets.subset ha)
  · intro ft' hft'
    obtain ⟨ft, hft, rfl | rfl⟩ := hthin.targets ft' hft'
    · exact h.targets ft' hft
    · obtain ⟨hend, hstart, _⟩ := h.targets ft hft
      exact ⟨hend, hstart, by rintro g ⟨⟩⟩

lemma Pushes.tickets {k k' : Core} (h : Pushes c k k') : k'.tickets = k.tickets := by
  induction h with
  | refl => rfl
  | tail _ hpush ih =>
    obtain ⟨_, _, hpush⟩ := hpush
    rw [hpush.moved]
    exact ih

lemma Generated.tickets (h : Generated c s t) : t.core.tickets = s.core.tickets := by
  cases h with
  | targets _ pushes => exact Pushes.tickets pushes
  | nothing _ core => rw [core]

lemma Found.inBlock {k u : Core} {ft : FetchTarget} {inst : StaticInst} {addr : Addr}
    {h : PredictorHistory} (hfound : Found k ft inst addr u h) (hft : TargetBounded width ft)
    (hrange : ft.inRange addr = true) : InBlock width ft.startAddress h.pc := by
  unfold FetchTarget.inRange at hrange
  simp only [Bool.and_eq_true, decide_eq_true_eq, le_def] at hrange
  have hin : InBlock width ft.startAddress addr := ⟨hrange.1, hrange.2.trans hft.1⟩
  cases hfound with
  | moved h hexit hrec =>
    unfold exitHistory FetchTarget.isExitBranch at hexit
    split at hexit
    · rename_i hend
      simp only [Bool.and_eq_true, beq_iff_eq] at hend
      rw [hft.2.2 h hexit, ← hend.1]
      exact hin
    · cases hexit
  | recovered _ _ _ hpc | placeholder _ _ _ _ hpc =>
    rw [hpc]
    exact hin

lemma Blocks.branch {ft : FetchTarget} {inst : StaticInst} {addr : Addr} (h : Blocks width s)
    (hhead : s.ftq.readHead = some ft)
    (hpre : Predecoded s.core.count t.core ft inst addr s.globalSeqNum)
    (hmap : t.bpu.bbMap = s.bpu.bbMap) : Blocks width t := by
  obtain ⟨u, _, g, hfound, henter, hcore⟩ := hpre.entered
  obtain ⟨_, _, htargets⟩ := targets_of_readHead hhead
  have hft := h.targets ft (by rw [htargets]; exact List.mem_cons_self)
  have hthin : Thinned s.core u := (logged_count s.core).toThinned.trans
    (Found.thinned hfound hhead)
  constructor
  · rw [hmap]
    exact h.map
  · intro a ha
    rw [hcore] at ha
    rcases List.mem_cons.mp ha with rfl | hold
    · change InBlock _ g.startAddress g.pc
      rw [henter.startAddress, henter.pc]
      exact Found.inBlock hfound hft hpre.inRange
    · exact h.thread a (hthin.tickets.subset hold)
  · intro ft' hft'
    have hmem : ft' ∈ u.ftq.targets := by
      have hftq : t.ftq = u.ftq := congrArg Core.ftq hcore
      rw [← hftq]
      exact hft'
    obtain ⟨ft₀, hft₀, rfl | rfl⟩ := hthin.targets ft' hmem
    · exact h.targets ft' hft₀
    · obtain ⟨hend, hstart, _⟩ := h.targets ft₀ hft₀
      exact ⟨hend, hstart, by rintro g ⟨⟩⟩

section

variable (hdec : c.decoupledFrontEnd = true) (hsearch : SearchBounded B c width)
include hdec hsearch

omit hsearch in
lemma Blocks.checked (h : Blocks width s) (sig : Signals) :
    Meets (s.checkSignalsAndUpdate c 0 sig) (Blocks width) (fun _ => True) := by
  refine ((meets_checkSignalsAndUpdate_keeps contract_mapBounded ⟨h.map, h.thread.predHist⟩ sig).and
    (meets_checkSignalsAndUpdate hdec s sig)).mono ?_ (fun _ _ => trivial)
  rintro t ⟨hmap, hchecked, _⟩
  exact h.thinned (Checked.logged hchecked).toThinned hmap

lemma Blocks.tick (h : Blocks width s) (sig : Signals) (answers : Nat → Answers) :
    Meets (s.tick c 0 sig answers) (Blocks width) (fun _ => True) := by
  unfold FrontEnd.tick
  rw [if_pos hdec]
  refine (Blocks.checked hdec h sig).bind ?_
  intro t ht
  refine ((meets_generate_bounded hsearch ht.map 0 answers).and
    (meets_generate t 0 answers)).mono ?_ (fun _ _ => trivial)
  rintro u ⟨hgrows, hgen, _⟩
  constructor
  · rw [hgrows.bbMap]
    exact ht.map
  · intro a ha
    rw [hgen.tickets] at ha
    exact ht.thread a ha
  · exact hgrows.targets ht.targets

lemma Blocks.step {op : FrontEndOp B} (h : Blocks width s) (hstep : s.step c op = .ok t) :
    Blocks width t := by
  have hmove := ((meets_step hdec s op).of_ok hstep).1
  have hthread : ∀ tid, c.thread tid = 0 := fun tid => if_pos hdec
  cases op with
  | tick _ sig answers =>
    unfold FrontEnd.step at hstep
    dsimp only at hstep
    rw [hthread] at hstep
    exact (Blocks.tick hdec hsearch h sig answers).of_ok hstep
  | updatePC tid inst pc ans =>
    obtain ⟨r, hr, rfl⟩ := map_eq_ok_iff.mp hstep
    have hmap := (meets_updatePC_keeps (contract_sameMap s.bpu.bbMap) rfl tid inst pc ans
      (fun _ _ => trivial)).of_ok hr
    cases hmove with
    | branch _ _ _ _ _ _ head core => exact h.branch head core hmap
    | plain _ _ _ _ _ core =>
      refine h.thinned ?_ (by rw [hmap]; exact h.map)
      rw [core]
      exact (logged_count s.core).toThinned
  | popHead =>
    have hlog := hmove.logged (fun _ _ _ h => by cases h) (fun _ _ _ _ h => by cases h)
    obtain ⟨r, _, hr⟩ := bind_eq_ok_iff.mp hstep
    obtain rfl := ok.inj hr
    exact h.thinned hlog.toThinned h.map
  | bacResteer =>
    have hlog := hmove.logged (fun _ _ _ h => by cases h) (fun _ _ _ _ h => by cases h)
    obtain rfl := ok.inj hstep
    exact h.thinned hlog.toThinned h.map
  | drainStall | drainResume =>
    obtain rfl := ok.inj hstep
    exact ⟨h.map, h.thread, h.targets⟩
  | btbEvent =>
    obtain ⟨_, _, hr⟩ := bind_eq_ok_iff.mp hstep
    obtain rfl := ok.inj hr
    exact ⟨h.map, h.thread, h.targets⟩

lemma reached_blocks {btb : B.State} {pc : PCState} {ops : List (FrontEndOp B)}
    (h : Reached c btb pc ops s) : Blocks width s := by
  refine run_invariant_always (Blocks width)
    (fun _ _ _ hs hstep => Blocks.step hdec hsearch hs hstep)
    ?_ h
  constructor
  · rintro start branch ⟨⟩
  · rintro a ⟨⟩
  · rintro ft ⟨⟩

end

lemma Blocks.no_fallback (h : Blocks width s) (start : Addr)
    (hmapped : s.bpu.lookupBBBranch start ≠ maxAddr) : start ≤ s.bpu.lookupBBBranch start := by
  unfold BPredUnit.lookupBBBranch at hmapped ⊢
  cases hentry : s.bpu.bbMap start with
  | none =>
    rw [hentry] at hmapped
    exact absurd rfl hmapped
  | some branch => exact le_def.mpr (h.map start branch hentry).1

/-- In every reachable state the block map is bounded by the width of a fetch target, every target
stays within it, and the search finds no branch before its start. -/
theorem block_map_bounded (hdec : c.decoupledFrontEnd = true) (hblock : c.blockBTB = true)
    {btb : B.State} {pc : PCState} {ops : List (FrontEndOp B)} {s : FrontEnd B}
    (h : Reached c btb pc ops s) :
    (∀ start branch, s.bpu.bbMap start = some branch →
      start.toNat ≤ branch.toNat ∧ branch.toNat ≤ start.toNat + c.fetchTargetWidth) ∧
    (∀ ft ∈ s.ftq.targets, ft.startAddress.toNat + c.fetchTargetWidth < 2 ^ 64 →
      ft.startAddress.toNat ≤ ft.endAddress.toNat ∧
        ft.endAddress.toNat ≤ ft.startAddress.toNat + c.fetchTargetWidth) ∧
    ∀ sig t, s.checkSignalsAndUpdate c 0 sig = .ok t → ∀ start,
      t.bpu.lookupBBBranch start ≠ maxAddr → start ≤ t.bpu.lookupBBBranch start := by
  have hblocks := reached_blocks hdec (searchBounded_block hblock) h
  refine ⟨hblocks.map, ?_, ?_⟩
  · intro ft hft hfits
    obtain ⟨hend, hstart, _⟩ := hblocks.targets ft hft
    exact ⟨le_def.mp (hstart hfits), hend⟩
  · intro sig t ht
    exact ((Blocks.checked hdec hblocks sig).of_ok ht).no_fallback

def blockBased : FrontEndParams :=
  { FrontEndParams.small 4 with blockBTB := true, basicBlockBTB := true, fetchTargetWidth := 8 }

def learnBlock : List (FrontEndOp B) :=
  [quietTick, .updatePC 0 (.direct true) (.ofAddr 4) .notTaken,
    .tick 0 { Signals.quiet with commitSquash := some ⟨.ofAddr 0, 1, true, true⟩ }
      fun _ => .notTaken,
    .tick 0 { Signals.quiet with doneSeqNum := 1 } fun _ => .notTaken]

/-- The block at 0 is mapped to the branch at 4. -/
theorem block_map_bounded_small :
    ∃ s, ReachedSmall blockBased learnBlock s ∧ s.bpu.bbMap 0 = some 4 ∧
      (4 : Addr).toNat ≤ (0 : Addr).toNat + 8 := by
  obtain ⟨s, hs, hmap⟩ := exists_reached blockBased learnBlock
    (fun s => s.bpu.bbMap 0 == some 4) (by decide +kernel)
  have hentry : s.bpu.bbMap 0 = some 4 := eq_of_beq hmap
  exact ⟨s, hs, hentry, ((block_map_bounded rfl rfl hs).1 0 4 hentry).2⟩

end FrontEnd

end BTBFerret
