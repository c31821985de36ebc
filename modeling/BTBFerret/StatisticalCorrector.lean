import BTBFerret.BranchPredictorUnit
import BTBFerret.Speculation

/-!
# The histories of the statistical corrector

`statistical_corrector.cc` and `tage_sc_l_64KB.cc`: the corrector sums counters that are indexed by
six histories. With speculative updates every branch takes a checkpoint of what its update will
change, and a squash restores it, all but the path history.
-/

namespace BTBFerret

open FallibleRuns Speculation List Function

namespace StatisticalCorrector

instance threeHistories : NeZero 3 := ⟨by decide⟩

/-- The sizes of the local histories are powers of two; `im0` is the first length of the
inner-most loop histories. -/
structure SCParams where
  instShiftAmt : Nat
  shifts : Fin 3 → Nat
  logNumHistories : Fin 3 → Nat
  im0 : Nat
  speculativeHistUpdate : Bool

/-- The first, second and third local histories have the ordinals 0, 1 and 2 here. -/
structure SCThreadHistory where
  bwHist : BitVec 64
  imliCount : Nat
  pHist : BitVec 64
  localHistories : Fin 3 → Addr → BitVec 64
  imHist : Nat → BitVec 64

structure BranchInfo where
  modified : Bool
  pc : Addr
  bwHist : BitVec 64
  imliCount : Nat
  pHist : BitVec 64
  localHistories : Fin 3 → BitVec 64
  imHist : BitVec 64

def makeBranchInfo : BranchInfo := ⟨false, 0, 0, 0, 0, fun _ => 0, 0⟩

/-- Bit 1 tells indirect branches, bit 0 conditional ones. -/
def branchTypeExtra (inst : StaticInst) : Nat :=
  (if inst.isDirectCtrl then 0 else 2) + (if inst.isUncondCtrl then 0 else 1)

namespace SCThreadHistory

variable (p : SCParams)

def init : SCThreadHistory := ⟨0, 0, 0, fun _ _ => 0, fun _ => 0⟩

def getEntry (pc : Addr) (idx : Fin 3) : Addr :=
  let shiftedPC := pc >>> p.instShiftAmt
  (shiftedPC ^^^ (shiftedPC >>> p.shifts idx)) &&& BitVec.ofNat 64 (2 ^ p.logNumHistories idx - 1)

def getLocalHistory (s : SCThreadHistory) (idx : Fin 3) (pc : Addr) : BitVec 64 :=
  s.localHistories idx (getEntry p pc idx)

def setLocalHistory (s : SCThreadHistory) (idx : Fin 3) (pc : Addr) (value : BitVec 64) :
    SCThreadHistory :=
  { s with
    localHistories := update s.localHistories idx
      (update (s.localHistories idx) (getEntry p pc idx) value) }

def updateLocalHistory (s : SCThreadHistory) (idx : Fin 3) (branchPC : Addr) (taken : Bool)
    (extraXor : BitVec 64) : SCThreadHistory :=
  let hist := (s.getLocalHistory p idx branchPC <<< 1) + BitVec.ofNat 64 taken.toNat
  s.setLocalHistory p idx branchPC (if extraXor ≠ 0 then hist ^^^ extraXor else hist)

def updateImliCount (s : SCThreadHistory) (branchPC : Addr) (taken : Bool) (target : Addr) :
    SCThreadHistory :=
  if target < branchPC then
    if !taken then { s with imliCount := 0 }
    else if s.imliCount < 2 ^ p.im0 - 1 then { s with imliCount := s.imliCount + 1 }
    else s
  else s

def scHistoryUpdate (s : SCThreadHistory) (branchPC : Addr) (inst : StaticInst) (taken : Bool)
    (target : Addr) (phist : BitVec 64) : SCThreadHistory :=
  let s := { s with pHist := phist }
  if branchTypeExtra inst % 2 = 1 then
    let s := s.updateImliCount p branchPC taken target
    let backward := taken && decide (target < branchPC)
    let s := { s with bwHist := (s.bwHist <<< 1) + BitVec.ofNat 64 backward.toNat }
    s.updateLocalHistory p 0 branchPC taken 0
  else s

def scRecordHistState (s : SCThreadHistory) (branchPC : Addr) (bi : BranchInfo) : BranchInfo :=
  { bi with
    pc := branchPC
    bwHist := s.bwHist
    imliCount := s.imliCount
    pHist := s.pHist
    localHistories := update bi.localHistories 0 (s.getLocalHistory p 0 branchPC) }

/-- `StatisticalCorrector::scRestoreHistState`; a branch that is not `modified` restores nothing. -/
def scRestoreHistState (s : SCThreadHistory) (bi : BranchInfo) : SCThreadHistory :=
  let s := { s with bwHist := bi.bwHist, imliCount := bi.imliCount }
  s.setLocalHistory p 0 bi.pc (bi.localHistories 0)

end SCThreadHistory

namespace SC64KB

variable (p : SCParams)

def scHistoryUpdate (s : SCThreadHistory) (branchPC : Addr) (inst : StaticInst) (taken : Bool)
    (target : Addr) (phist : BitVec 64) : SCThreadHistory :=
  let s := if branchTypeExtra inst % 2 = 1 then
      let hist := (s.imHist s.imliCount <<< 1) + BitVec.ofNat 64 taken.toNat
      let s := { s with imHist := update s.imHist s.imliCount hist }
      let s := s.updateLocalHistory p 1 branchPC taken (branchPC &&& 15)
      s.updateLocalHistory p 2 branchPC taken 0
    else s
  s.scHistoryUpdate p branchPC inst taken target phist

def scRecordHistState (s : SCThreadHistory) (branchPC : Addr) (bi : BranchInfo) : BranchInfo :=
  let bi := s.scRecordHistState p branchPC bi
  { bi with
    imHist := s.imHist s.imliCount
    localHistories := update (update bi.localHistories
      1 (s.getLocalHistory p 1 branchPC)) 2 (s.getLocalHistory p 2 branchPC) }

def scRestoreHistState (s : SCThreadHistory) (bi : BranchInfo) : SCThreadHistory :=
  if !bi.modified then s
  else
    let s := s.scRestoreHistState p bi
    -- the count is already the restored one
    let s := { s with imHist := update s.imHist s.imliCount bi.imHist }
    let s := s.setLocalHistory p 1 bi.pc (bi.localHistories 1)
    s.setLocalHistory p 2 bi.pc (bi.localHistories 2)

def updateHistories (s : SCThreadHistory) (branchPC : Addr) (speculative : Bool)
    (inst : StaticInst) (taken : Bool) (bi : BranchInfo) (target : Addr) (phist : BitVec 64) :
    SCThreadHistory × BranchInfo :=
  if speculative != p.speculativeHistUpdate then (s, bi)
  else
    let bi := if p.speculativeHistUpdate && !bi.modified then scRecordHistState p s branchPC bi
      else bi
    let s := if bi.modified then scRestoreHistState p s bi else s
    (scHistoryUpdate p s branchPC inst taken target phist, { bi with modified := true })

end SC64KB

/-- What a prediction or a correction hands to the corrector; `phist` is the path history of
the TAGE predictor after its own update. -/
structure Outcome where
  taken : Bool
  target : Addr
  phist : BitVec 64

/-- A branch in flight: its instruction, and the checkpoint. -/
structure SCRecord where
  pc : Addr
  inst : StaticInst
  bi : BranchInfo

/-- The calls of `TAGE_SC_L`; at a commit the corrector gets its non-speculative update. -/
def corrector (p : SCParams) :
    Predictor SCThreadHistory (Addr × StaticInst × Outcome) Outcome SCRecord Empty where
  predict s b :=
    let (pc, inst, o) := b
    let (s, bi) := SC64KB.updateHistories p s pc true inst o.taken makeBranchInfo o.target o.phist
    .ok (s, ⟨pc, inst, bi⟩)
  correct s r o :=
    let (s, bi) := SC64KB.updateHistories p s r.pc true r.inst o.taken r.bi o.target o.phist
    .ok (s, { r with bi := bi })
  squash s r := .ok (SC64KB.scRestoreHistState p s r.bi)
  commit s r :=
    .ok (SC64KB.updateHistories p s r.pc false r.inst false r.bi 0 0).1

/-! ## What an update changes is in the checkpoint -/

section

open SCThreadHistory

variable {p : SCParams}

structure ButPath (s t : SCThreadHistory) : Prop where
  bwHist : s.bwHist = t.bwHist
  imliCount : s.imliCount = t.imliCount
  localHistories : s.localHistories = t.localHistories
  imHist : s.imHist = t.imHist

structure Checkpoint (p : SCParams) (r : SCRecord) (s : SCThreadHistory) : Prop where
  modified : r.bi.modified = true
  pc : r.bi.pc = r.pc
  bwHist : r.bi.bwHist = s.bwHist
  imliCount : r.bi.imliCount = s.imliCount
  localHistories : ∀ idx, r.bi.localHistories idx = s.getLocalHistory p idx r.pc
  imHist : r.bi.imHist = s.imHist s.imliCount

/-- Of the tables only the entries of the branch may differ. -/
structure Touched (p : SCParams) (pc : Addr) (s t : SCThreadHistory) : Prop where
  localHistories : ∀ idx a, a ≠ getEntry p pc idx → t.localHistories idx a = s.localHistories idx a
  imHist : ∀ n, n ≠ s.imliCount → t.imHist n = s.imHist n

lemma localHistories_setLocalHistory (s : SCThreadHistory) (idx : Fin 3) (pc : Addr)
    (value : BitVec 64) (j : Fin 3) (a : Addr) :
    (s.setLocalHistory p idx pc value).localHistories j a =
      if j = idx ∧ a = getEntry p pc idx then value else s.localHistories j a := by
  unfold setLocalHistory
  dsimp only
  by_cases hj : j = idx
  · subst hj
    rw [update_self]
    by_cases ha : a = getEntry p pc j
    · rw [if_pos ⟨rfl, ha⟩, ha, update_self]
    · rw [if_neg (fun h => ha h.2), update_of_ne ha]
  · rw [if_neg (fun h => hj h.1), update_of_ne hj]

lemma localHistories_updateLocalHistory (s : SCThreadHistory) (idx : Fin 3) (pc : Addr)
    (taken : Bool) (extraXor : BitVec 64) {j : Fin 3} {a : Addr} (ha : a ≠ getEntry p pc j) :
    (s.updateLocalHistory p idx pc taken extraXor).localHistories j a = s.localHistories j a := by
  unfold updateLocalHistory
  rw [localHistories_setLocalHistory, if_neg]
  rintro ⟨rfl, heq⟩
  exact ha heq

lemma localHistories_updateImliCount (s : SCThreadHistory) (pc : Addr) (taken : Bool)
    (target : Addr) : (s.updateImliCount p pc taken target).localHistories = s.localHistories ∧
      (s.updateImliCount p pc taken target).imHist = s.imHist := by
  unfold updateImliCount
  split
  · split
    · exact ⟨rfl, rfl⟩
    · split
      · exact ⟨rfl, rfl⟩
      · exact ⟨rfl, rfl⟩
  · exact ⟨rfl, rfl⟩

section

variable (s : SCThreadHistory) (pc : Addr) (inst : StaticInst) (taken : Bool) (target : Addr)
  (phist : BitVec 64)

lemma touched_scHistoryUpdate :
    (∀ idx a, a ≠ getEntry p pc idx →
      (s.scHistoryUpdate p pc inst taken target phist).localHistories idx a =
        s.localHistories idx a) ∧
    (s.scHistoryUpdate p pc inst taken target phist).imHist = s.imHist := by
  unfold SCThreadHistory.scHistoryUpdate
  split
  · obtain ⟨hlocal, him⟩ := localHistories_updateImliCount (p := p) { s with pHist := phist } pc
      taken target
    constructor
    · intro idx a ha
      rw [localHistories_updateLocalHistory _ _ _ _ _ ha]
      exact congrFun (congrFun hlocal idx) a
    · exact him
  · exact ⟨fun _ _ _ => rfl, rfl⟩

lemma touched_update :
    Touched p pc s (SC64KB.scHistoryUpdate p s pc inst taken target phist) := by
  unfold SC64KB.scHistoryUpdate
  constructor
  · intro idx a ha
    rw [(touched_scHistoryUpdate _ pc inst taken target phist).1 idx a ha]
    split
    · rw [localHistories_updateLocalHistory _ _ _ _ _ ha,
        localHistories_updateLocalHistory _ _ _ _ _ ha]
    · rfl
  · intro n hn
    rw [(touched_scHistoryUpdate _ pc inst taken target phist).2]
    split
    · exact update_of_ne hn _ _
    · rfl

end

lemma butPath_restore {r : SCRecord} {s t : SCThreadHistory} (hcheck : Checkpoint p r s)
    (htouched : Touched p r.pc s t) : ButPath (SC64KB.scRestoreHistState p t r.bi) s := by
  unfold SC64KB.scRestoreHistState
  rw [hcheck.modified, Bool.not_true, if_neg Bool.false_ne_true]
  constructor
  · exact hcheck.bwHist
  · exact hcheck.imliCount
  · funext idx a
    simp only [localHistories_setLocalHistory, SCThreadHistory.scRestoreHistState, hcheck.pc,
      hcheck.localHistories, getLocalHistory]
    by_cases ha : a = getEntry p r.pc idx
    · subst ha
      fin_cases idx
      · simp
      · simp
      · simp
    · have hother : ∀ j : Fin 3, ¬ (idx = j ∧ a = getEntry p r.pc j) := by
        rintro j ⟨rfl, heq⟩
        exact ha heq
      rw [if_neg (hother 2), if_neg (hother 1), if_neg (hother 0)]
      exact htouched.localHistories idx a ha
  · change update t.imHist r.bi.imliCount r.bi.imHist = s.imHist
    funext n
    by_cases hn : n = s.imliCount
    · rw [hn, ← hcheck.imliCount, update_self, hcheck.imHist, hcheck.imliCount]
    · rw [update_of_ne (by rw [hcheck.imliCount]; exact hn)]
      exact htouched.imHist n hn

inductive Stacked (p : SCParams) :
    SCThreadHistory → List (InFlight SCThreadHistory SCRecord) → Prop
  | nil {s} : Stacked p s []
  | cons {s f older} (hcheck : Checkpoint p f.record f.before)
      (htouched : Touched p f.record.pc f.before s) (hrest : Stacked p f.before older) :
      Stacked p s (f :: older)

lemma Touched.butPath {pc : Addr} {s t u : SCThreadHistory} (h : Touched p pc s t)
    (hsame : ButPath u t) : Touched p pc s u := by
  constructor
  · rw [hsame.localHistories]
    exact h.localHistories
  · rw [hsame.imHist]
    exact h.imHist

lemma Touched.from_butPath {pc : Addr} {s t u : SCThreadHistory} (h : Touched p pc s t)
    (hsame : ButPath s u) : Touched p pc u t := by
  constructor
  · rw [← hsame.localHistories]
    exact h.localHistories
  · rw [← hsame.imHist, ← hsame.imliCount]
    exact h.imHist

lemma Stacked.butPath {s t : SCThreadHistory}
    {inFlight : List (InFlight SCThreadHistory SCRecord)} (h : Stacked p t inFlight)
    (hsame : ButPath s t) : Stacked p s inFlight := by
  cases h with
  | nil => exact .nil
  | cons hcheck htouched hrest => exact .cons hcheck (htouched.butPath hsame) hrest

lemma Stacked.dropLast {inFlight : List (InFlight SCThreadHistory SCRecord)}
    {f : InFlight SCThreadHistory SCRecord} : ∀ {s : SCThreadHistory},
    Stacked p s (inFlight ++ [f]) → Stacked p s inFlight := by
  induction inFlight with
  | nil =>
    intro s h
    exact .nil
  | cons _ _ ih =>
    intro s h
    cases h with
    | cons hcheck htouched hrest => exact .cons hcheck htouched (ih hrest)

lemma checkpoint_record (s : SCThreadHistory) (pc : Addr) (inst : StaticInst)
    (bi : BranchInfo) :
    Checkpoint p ⟨pc, inst, { SC64KB.scRecordHistState p s pc bi with modified := true }⟩ s := by
  constructor
  · rfl
  · rfl
  · rfl
  · rfl
  · intro idx
    fin_cases idx
    · simp [SC64KB.scRecordHistState, SCThreadHistory.scRecordHistState]
    · simp [SC64KB.scRecordHistState]
    · simp [SC64KB.scRecordHistState]
  · rfl

section

variable (hspec : p.speculativeHistUpdate = true)
include hspec

lemma updateHistories_first (s : SCThreadHistory) (pc : Addr) (inst : StaticInst) (taken : Bool)
    (target : Addr) (phist : BitVec 64) :
    SC64KB.updateHistories p s pc true inst taken makeBranchInfo target phist =
      (SC64KB.scHistoryUpdate p s pc inst taken target phist,
        { SC64KB.scRecordHistState p s pc makeBranchInfo with modified := true }) := by
  unfold SC64KB.updateHistories
  rw [hspec]
  rfl

lemma updateHistories_again {bi : BranchInfo} (hmodified : bi.modified = true)
    (s : SCThreadHistory) (pc : Addr) (inst : StaticInst) (taken : Bool) (target : Addr)
    (phist : BitVec 64) :
    SC64KB.updateHistories p s pc true inst taken bi target phist =
      (SC64KB.scHistoryUpdate p (SC64KB.scRestoreHistState p s bi) pc inst taken target phist,
        bi) := by
  obtain ⟨modified, _⟩ := bi
  obtain rfl : modified = true := hmodified
  unfold SC64KB.updateHistories
  rw [hspec]
  rfl

/-- With speculative updates a squash restores everything but the path history. -/
lemma recovers :
    Recovers (corrector p) (fun _ _ => True) ButPath (fun s => Stacked p s.history s.inFlight) where
  predict := by
    rintro ⟨s, inFlight⟩ ⟨pc, inst, o⟩ t r hstacked _ hpredict
    unfold corrector at hpredict
    dsimp only at hpredict
    rw [updateHistories_first hspec] at hpredict
    obtain ⟨rfl, rfl⟩ := Prod.mk.inj (Except.ok.inj hpredict)
    exact .cons (checkpoint_record s pc inst makeBranchInfo) (touched_update s _ _ _ _ _) hstacked
  correct := by
    rintro s f older o t r hstacked _ hcorrect
    cases hstacked with
    | cons hcheck htouched hrest =>
      unfold corrector at hcorrect
      dsimp only at hcorrect
      rw [updateHistories_again hspec hcheck.modified] at hcorrect
      obtain ⟨rfl, rfl⟩ := Prod.mk.inj (Except.ok.inj hcorrect)
      have hback := butPath_restore hcheck htouched
      exact .cons hcheck ((touched_update _ _ _ _ _ _).from_butPath hback) hrest
  squash := by
    rintro s f older hstacked
    cases hstacked with
    | cons hcheck htouched hrest =>
      have hback := butPath_restore hcheck htouched
      exact ⟨_, rfl, hback, hrest.butPath hback⟩
  commit := by
    rintro s younger f t hstacked _ hcommit
    unfold corrector SC64KB.updateHistories at hcommit
    rw [hspec] at hcommit
    obtain rfl := Except.ok.inj hcommit
    exact hstacked.dropLast

end

/-! ## The path history -/

lemma ButPath.eq {s t : SCThreadHistory} (h : ButPath s t) (hpath : s.pHist = t.pHist) :
    s = t := by
  obtain ⟨_⟩ := s
  obtain ⟨hbw, himli, hlocal, him⟩ := h
  dsimp only at hbw himli hlocal him hpath
  rw [hbw, himli, hlocal, him, hpath]

lemma pHist_updateImliCount (s : SCThreadHistory) (pc : Addr) (taken : Bool) (target : Addr) :
    (s.updateImliCount p pc taken target).pHist = s.pHist := by
  unfold updateImliCount
  split
  · split
    · rfl
    · split
      · rfl
      · rfl
  · rfl

lemma pHist_update (s : SCThreadHistory) (pc : Addr) (inst : StaticInst) (taken : Bool)
    (target : Addr) (phist : BitVec 64) :
    (SC64KB.scHistoryUpdate p s pc inst taken target phist).pHist = phist := by
  unfold SC64KB.scHistoryUpdate SCThreadHistory.scHistoryUpdate
  split
  · exact pHist_updateImliCount _ pc taken target
  · rfl

lemma pHist_restore (s : SCThreadHistory) (bi : BranchInfo) :
    (SC64KB.scRestoreHistState p s bi).pHist = s.pHist := by
  unfold SC64KB.scRestoreHistState
  split
  · rfl
  · rfl

abbrev SCState := Speculation.State SCThreadHistory SCRecord

def KeepsPath (s : SCState) : Speculation.Op (Addr × StaticInst × Outcome) Outcome → Prop
  | .predict (_, _, o) => o.phist = s.history.pHist
  | .correct o => o.phist = s.history.pHist
  | .squash => True
  | .commit => True

def OnePath (s : SCState) : Prop := ∀ f ∈ s.inFlight, f.before.pHist = s.history.pHist

/-- If the path history never changes, a squash restores everything. -/
lemma recovers_path (hspec : p.speculativeHistUpdate = true) :
    Recovers (corrector p) KeepsPath Eq (fun s => Stacked p s.history s.inFlight ∧ OnePath s) where
  predict := by
    rintro ⟨s, inFlight⟩ ⟨pc, inst, o⟩ t r ⟨hstacked, hpath⟩ hkeeps hpredict
    refine ⟨(recovers hspec).predict hstacked trivial hpredict, ?_⟩
    unfold corrector at hpredict
    dsimp only at hpredict
    rw [updateHistories_first hspec] at hpredict
    obtain ⟨rfl, rfl⟩ := Prod.mk.inj (Except.ok.inj hpredict)
    intro f hf
    rw [pHist_update, show o.phist = s.pHist from hkeeps]
    rcases mem_cons.mp hf with rfl | hf
    · rfl
    · exact hpath f hf
  correct := by
    rintro s f older o t r ⟨hstacked, hpath⟩ hkeeps hcorrect
    refine ⟨(recovers hspec).correct hstacked trivial hcorrect, ?_⟩
    cases hstacked with
    | cons hcheck =>
      unfold corrector at hcorrect
      dsimp only at hcorrect
      rw [updateHistories_again hspec hcheck.modified] at hcorrect
      obtain ⟨rfl, rfl⟩ := Prod.mk.inj (Except.ok.inj hcorrect)
      intro g hg
      rw [pHist_update, show o.phist = s.pHist from hkeeps]
      rcases mem_cons.mp hg with rfl | hg
      · exact hpath f mem_cons_self
      · exact hpath g (mem_cons_of_mem f hg)
  squash := by
    rintro s f older ⟨hstacked, hpath⟩
    obtain ⟨t, ht, hsame, hrest⟩ := (recovers hspec).squash hstacked
    obtain rfl := Except.ok.inj ht
    have hkept : (SC64KB.scRestoreHistState p s f.record.bi).pHist = s.pHist := pHist_restore s _
    refine ⟨_, rfl, hsame.eq ?_, hrest, ?_⟩
    · exact hkept.trans (hpath f mem_cons_self).symm
    · intro g hg
      exact (hpath g (mem_cons_of_mem f hg)).trans hkept.symm
  commit := by
    rintro s younger f t ⟨hstacked, hpath⟩ _ hcommit
    refine ⟨(recovers hspec).commit hstacked trivial hcommit, ?_⟩
    unfold corrector SC64KB.updateHistories at hcommit
    rw [hspec] at hcommit
    obtain rfl := Except.ok.inj hcommit
    intro g hg
    exact hpath g (mem_append_left _ hg)

/-- Squashing down to any branch in flight restores every history but the path history. -/
theorem corrector_recovers_but_path (hspec : p.speculativeHistUpdate = true)
    {s₀ : SCThreadHistory} {ops : List (Speculation.Op (Addr × StaticInst × Outcome) Outcome)}
    {s : SCState} (h : run (step (corrector p)) ⟨s₀, []⟩ ops = .ok s)
    {younger older : List (InFlight SCThreadHistory SCRecord)}
    {f : InFlight SCThreadHistory SCRecord} (hsplit : s.inFlight = younger ++ f :: older) :
    ∃ t, run (step (corrector p)) s (List.replicate (younger.length + 1) .squash) = .ok t ∧
      ButPath t.history f.before := by
  have hinv := (recovers hspec).run Stacked.nil (along_of_forall (fun _ _ => trivial) _ _) h
  obtain ⟨_⟩ := s
  subst hsplit
  obtain ⟨t, hrun, hsame, _⟩ := (recovers hspec).unwind hinv
  exact ⟨⟨t, older⟩, hrun, hsame⟩

/-- If the path history of the TAGE predictor does not change, squashing down to any branch in
flight restores every history. -/
theorem corrector_histories_recovered (hspec : p.speculativeHistUpdate = true)
    {s₀ : SCThreadHistory} {ops : List (Speculation.Op (Addr × StaticInst × Outcome) Outcome)}
    {s : SCState} (h : run (step (corrector p)) ⟨s₀, []⟩ ops = .ok s)
    (hpath : Along (step (corrector p)) KeepsPath ⟨s₀, []⟩ ops)
    {younger older : List (InFlight SCThreadHistory SCRecord)}
    {f : InFlight SCThreadHistory SCRecord} (hsplit : s.inFlight = younger ++ f :: older) :
    ∃ t, run (step (corrector p)) s (List.replicate (younger.length + 1) .squash) = .ok t ∧
      t.inFlight = older ∧ t.history = f.before := by
  have hstart : Stacked p s₀ [] ∧ OnePath ⟨s₀, []⟩ := ⟨.nil, by rintro f ⟨⟩⟩
  have hinv := (recovers_path hspec).run hstart hpath h
  obtain ⟨_⟩ := s
  subst hsplit
  obtain ⟨t, hrun, hsame, _⟩ := (recovers_path hspec).unwind hinv
  exact ⟨⟨t, older⟩, hrun, rfl, hsame⟩

end

/-! ## The sizes of the 64KB corrector -/

def SCParams.sc64KB : SCParams := ⟨2, ![2, 5, 10], ![8, 4, 4], 10, true⟩

def loopInst : StaticInst := ⟨0, true, false, false, true, false, true, false, false, false, 4⟩

/-- A conditional branch at 64 jumps back to 32; the path history is `phist` after it. -/
def loopBranch (phist : BitVec 64) : Speculation.Op (Addr × StaticInst × Outcome) Outcome :=
  .predict (64, loopInst, ⟨true, 32, phist⟩)

/-- A branch with a path history of its own is squashed. -/
theorem corrector_recovers_but_path_64KB : ∃ s t : SCState,
    run (step (corrector .sc64KB)) ⟨.init, []⟩ [loopBranch 1] = .ok s ∧
      run (step (corrector .sc64KB)) s [.squash] = .ok t ∧ ButPath t.history .init := by
  obtain ⟨t, ht, hsame⟩ := corrector_recovers_but_path (p := .sc64KB) rfl
    (show run (step (corrector .sc64KB)) ⟨.init, []⟩ [loopBranch 1] = .ok _ from rfl)
    (show _ = [] ++ _ :: [] from rfl)
  exact ⟨_, t, rfl, ht, hsame⟩

/-- After a squash the path history of the squashed branch stays. -/
theorem corrector_keeps_squashed_path :
    ∃ s t : SCState, run (step (corrector .sc64KB)) ⟨.init, []⟩ [loopBranch 1] = .ok s ∧
      run (step (corrector .sc64KB)) s [.squash] = .ok t ∧ t.inFlight.length = 0 ∧
      SCThreadHistory.init.pHist = 0 ∧ t.history.pHist = 1 :=
  ⟨_, _, rfl, rfl, rfl, rfl, rfl⟩

def inLoop : SCState :=
  let r := SC64KB.updateHistories .sc64KB .init 64 true loopInst true makeBranchInfo 32 0
  ⟨r.1, [⟨⟨64, loopInst, r.2⟩, .init⟩]⟩

/-- The branch of a loop is squashed, and the iteration count with it. -/
theorem corrector_histories_recovered_64KB :
    run (step (corrector .sc64KB)) ⟨.init, []⟩ [loopBranch 0] = .ok inLoop ∧
      inLoop.history.imliCount = 1 ∧
      ∃ t, run (step (corrector .sc64KB)) inLoop [.squash] = .ok t ∧ t.history = .init := by
  have hrun : run (step (corrector .sc64KB)) ⟨.init, []⟩ [loopBranch 0] = .ok inLoop := rfl
  have hkeeps : Along (step (corrector .sc64KB)) KeepsPath ⟨.init, []⟩ [loopBranch 0] :=
    ⟨rfl, fun _ _ => trivial⟩
  have hsplit : inLoop.inFlight = [] ++ ⟨⟨64, loopInst, _⟩, .init⟩ :: [] := rfl
  obtain ⟨t, ht, _, hback⟩ := corrector_histories_recovered rfl hrun hkeeps hsplit
  exact ⟨hrun, rfl, t, ht, hback⟩

end StatisticalCorrector

end BTBFerret
