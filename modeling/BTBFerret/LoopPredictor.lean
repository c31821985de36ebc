import Mathlib
import BTBFerret.BTBEntry

/-!
# The loop predictor

`loop_predictor.cc` with the two functions that `tage_sc_l.cc` overrides: a table of entries that
count the iterations of a loop and predict once they have seen the same number often enough. Index
and tag are computed at the prediction and kept in the record of the branch.
-/

namespace BTBFerret

structure LoopParams where
  /-- `TAGE_SC_L_LoopPredictor`. -/
  scl : Bool
  logSizeLoopPred : Nat
  loopTableAgeBits : Nat
  loopTableConfidenceBits : Nat
  loopTableTagBits : Nat
  loopTableIterBits : Nat
  logLoopTableAssoc : Nat
  withLoopBits : Nat
  useDirectionBit : Bool
  useSpeculation : Bool
  useHashing : Bool
  restrictAllocation : Bool
  initialLoopIter : Nat
  initialLoopAge : Nat
  optionalAgeReset : Bool
  instShiftAmt : Nat
  age_le : initialLoopAge ≤ 2 ^ loopTableAgeBits - 1
  ageBits_le : loopTableAgeBits ≤ 8
  confidenceBits_le : loopTableConfidenceBits ≤ 8
  tagBits_le : loopTableTagBits ≤ 16
  iterBits_le : loopTableIterBits ≤ 16
  assoc_le : logLoopTableAssoc ≤ logSizeLoopPred
  loopBits_pos : 0 < withLoopBits
  loopBits_le : withLoopBits ≤ 8

structure LoopEntry where
  numIter : Nat
  currentIter : Nat
  currentIterSpec : Nat
  confidence : Nat
  tag : Nat
  age : Nat
  dir : Bool
  deriving DecidableEq

/-- `LoopPredictor::BranchInfo`. A `loopHit` of -1 is `none`. -/
structure LoopBranchInfo where
  loopTag : Nat
  currentIter : Nat
  loopPred : Bool
  loopPredValid : Bool
  loopIndex : Nat
  loopIndexB : Nat
  loopHit : Option Nat
  predTaken : Bool

/-- The constructor does not set `loopHit` to -1. -/
def makeBranchInfo : LoopBranchInfo := ⟨0, 0, false, false, 0, 0, some 0, false⟩

def unsignedCtrUpdate (ctr : Nat) (up : Bool) (nbits : Nat) : Nat :=
  if up then if ctr < 2 ^ nbits - 1 then ctr + 1 else ctr else ctr - 1

def signedCtrUpdate (ctr : Int) (up : Bool) (nbits : Nat) : Int :=
  if up then if ctr < 2 ^ (nbits - 1) - 1 then ctr + 1 else ctr
  else if -2 ^ (nbits - 1) < ctr then ctr - 1 else ctr

/-- The random numbers of an update: the outcome of `optionalAgeInc`, whether an allocation is
allowed, and the first way to try. -/
structure LoopDraws where
  ageInc : Bool
  allocate : Bool
  nrand : Int

namespace LoopParams

variable (c : LoopParams)

def confidenceThreshold : Nat := 2 ^ c.loopTableConfidenceBits - 1

def lindex (pcIn : Addr) : Nat :=
  let pc := pcIn >>> c.instShiftAmt
  let pc := if c.useHashing then pc ^^^ pcIn else pc
  (pc.toNat % 2 ^ (c.logSizeLoopPred - c.logLoopTableAssoc)) <<< c.logLoopTableAssoc

def finallindex (index lowPcBits way : Nat) : Nat :=
  (if c.useHashing then index ^^^ ((lowPcBits >>> way) <<< c.logLoopTableAssoc) else index) + way

/-- The first lines of `getLoop`. -/
def locate (pc : Addr) (bi : LoopBranchInfo) : LoopBranchInfo :=
  let bi := { bi with loopHit := none, loopPredValid := false, loopIndex := c.lindex pc }
  if c.useHashing then
    let pcShift := c.logSizeLoopPred - c.logLoopTableAssoc
    { bi with
      loopIndexB := (pc >>> pcShift).toNat % 2 ^ pcShift
      loopTag := ((pc >>> pcShift) ^^^ (pc >>> (pcShift + c.loopTableTagBits))).toNat %
        2 ^ c.loopTableTagBits }
  else
    let pcShift := c.instShiftAmt + c.logSizeLoopPred - c.logLoopTableAssoc
    { bi with loopTag := (pc >>> pcShift).toNat % 2 ^ c.loopTableTagBits }

def calcConf (e : LoopEntry) : Bool :=
  e.confidence == c.confidenceThreshold || c.scl && decide (128 < e.confidence * e.numIter)

def predicts (e : LoopEntry) (iter : Nat) : Bool :=
  if iter + 1 = e.numIter then if c.useDirectionBit then !e.dir else false
  else if c.useDirectionBit then e.dir else true

def ageReset (e : LoopEntry) : LoopEntry :=
  if c.optionalAgeReset then { e with age := 0 } else e

def countIteration (e : LoopEntry) : LoopEntry :=
  let e := { e with currentIter := (e.currentIter + 1) % 2 ^ c.loopTableIterBits }
  if e.numIter < e.currentIter then
    let e := { e with confidence := 0 }
    if e.numIter ≠ 0 then c.ageReset { e with numIter := 0 } else e
  else e

def endLoop (taken : Bool) (e : LoopEntry) : LoopEntry :=
  let e := if e.currentIter = e.numIter then
      let e := { e with
        confidence := unsignedCtrUpdate e.confidence true c.loopTableConfidenceBits }
      -- loops of one or two iterations are not predicted
      if e.numIter < 3 then { e with dir := taken, numIter := 0, age := 0, confidence := 0 } else e
    else if e.numIter = 0 then { e with confidence := 0, numIter := e.currentIter }
    else { c.ageReset { e with numIter := 0 } with confidence := 0 }
  { e with currentIter := 0 }

/-- `loopUpdate` of an entry that was hit. -/
def hitUpdate (taken : Bool) (bi : LoopBranchInfo) (tagePred ageInc : Bool) (e : LoopEntry) :
    LoopEntry :=
  if bi.loopPredValid && taken != bi.loopPred then
    { e with numIter := 0, age := 0, confidence := 0, currentIter := 0 }
  else
    let e := if bi.loopPredValid && (bi.loopPred != tagePred || c.scl && ageInc) then
        { e with age := unsignedCtrUpdate e.age true c.loopTableAgeBits } else e
    let e := c.countIteration e
    if taken != (if c.useDirectionBit then e.dir else true) then c.endLoop taken e else e

/-- The loop of `loopUpdate` over the ways, from the `i`-th on. -/
def allocate (bi : LoopBranchInfo) (taken : Bool) (nrand : Int) :
    Nat → Nat → (Nat → LoopEntry) → Nat → LoopEntry
  | 0, _, table => table
  | k + 1, i, table =>
    let way := ((nrand + i) % 2 ^ c.logLoopTableAssoc).toNat
    let idx := c.finallindex bi.loopIndex bi.loopIndexB way
    if (table idx).age = 0 then
      Function.update table idx { table idx with
        dir := !taken
        tag := bi.loopTag
        numIter := 0
        age := c.initialLoopAge
        confidence := 0
        currentIter := c.initialLoopIter % 2 ^ 16 }
    else
      let table := Function.update table idx { table idx with age := (table idx).age - 1 }
      if c.restrictAllocation then table else allocate bi taken nrand k (i + 1) table

end LoopParams

/-- The entry that a record points to. -/
def LoopBranchInfo.index (c : LoopParams) (bi : LoopBranchInfo) : Option Nat :=
  bi.loopHit.map (c.finallindex bi.loopIndex bi.loopIndexB)

structure LoopPredictor (c : LoopParams) where
  ltable : Nat → LoopEntry
  loopUseCounter : Int

/-- Two sets of one way, one confidence bit and three iteration bits. -/
def LoopParams.small (useSpeculation : Bool) : LoopParams :=
  ⟨false, 1, 3, 1, 4, 3, 0, 7, true, useSpeculation, false, false, 0, 7, true, 0, by decide,
    by decide, by decide, by decide, by decide, by decide, by decide, by decide⟩

namespace LoopPredictor

variable {c : LoopParams} (s : LoopPredictor c)

def setEntry (idx : Nat) (e : LoopEntry) : LoopPredictor c :=
  { s with ltable := Function.update s.ltable idx e }

lemma ltable_setEntry_of_ne {idx i : Nat} (h : i ≠ idx) (e : LoopEntry) :
    (s.setEntry idx e).ltable i = s.ltable i := Function.update_of_ne h _ _

@[simp] lemma ltable_setEntry_self (idx : Nat) (e : LoopEntry) :
    (s.setEntry idx e).ltable idx = e := Function.update_self _ _ _

def matchesWay (bi : LoopBranchInfo) (i : Nat) : Bool :=
  (s.ltable (c.finallindex bi.loopIndex bi.loopIndexB i)).tag == bi.loopTag

def getLoop (pc : Addr) (bi : LoopBranchInfo) (speculative : Bool) : LoopBranchInfo × Bool :=
  let bi := c.locate pc bi
  match (List.range (2 ^ c.logLoopTableAssoc)).find? (s.matchesWay bi) with
  | none => (bi, false)
  | some i =>
    let e := s.ltable (c.finallindex bi.loopIndex bi.loopIndexB i)
    ({ bi with loopHit := some i, loopPredValid := c.calcConf e },
      c.predicts e (if speculative then e.currentIterSpec else e.currentIter))

def specLoopUpdate (taken : Bool) (bi : LoopBranchInfo) : LoopPredictor c :=
  match bi.index c with
  | none => s
  | some idx =>
    let e := s.ltable idx
    s.setEntry idx { e with
      currentIterSpec := if taken != e.dir then 0
        else (e.currentIterSpec + 1) % 2 ^ c.loopTableIterBits }

def loopUpdate (taken : Bool) (bi : LoopBranchInfo) (tagePred : Bool) (r : LoopDraws) :
    LoopPredictor c :=
  match bi.index c with
  | some idx => s.setEntry idx (c.hitUpdate taken bi tagePred r.ageInc (s.ltable idx))
  | none =>
    if (if c.useDirectionBit then bi.predTaken != taken else taken) &&
        (r.allocate || !c.restrictAllocation) then
      { s with ltable := c.allocate bi taken r.nrand (2 ^ c.logLoopTableAssoc) 0 s.ltable }
    else s

def loopPredict (pc : Addr) (condBranch : Bool) (bi : LoopBranchInfo) (prevPredTaken : Bool) :
    LoopPredictor c × LoopBranchInfo × Bool :=
  if condBranch then
    let (bi, loopPred) := s.getLoop pc bi c.useSpeculation
    let bi := { bi with loopPred := loopPred }
    let predTaken := if 0 ≤ s.loopUseCounter ∧ bi.loopPredValid = true then loopPred
      else prevPredTaken
    (if c.useSpeculation then s.specLoopUpdate predTaken bi else s, bi, predTaken)
  else (s, bi, prevPredTaken)

def squash (bi : LoopBranchInfo) : LoopPredictor c :=
  match bi.index c with
  | none => s
  | some idx => s.setEntry idx { s.ltable idx with currentIterSpec := bi.currentIter }

/-- The same text in the source. -/
def squashLoop (bi : LoopBranchInfo) : LoopPredictor c := s.squash bi

def condBranchUpdate (pc : Addr) (taken tagePred : Bool) (bi : LoopBranchInfo) (r : LoopDraws) :
    LoopPredictor c :=
  let bi := if c.useSpeculation then
      let (bi, loopPred) := s.getLoop pc bi false
      { bi with loopPred := loopPred }
    else bi
  let s := if bi.loopPredValid && bi.predTaken != bi.loopPred then
      { s with
        loopUseCounter := signedCtrUpdate s.loopUseCounter (bi.loopPred == taken) c.withLoopBits }
    else s
  s.loopUpdate taken bi tagePred r

/-! ## Records of branches that were not predicted -/

def Owns (pc : Addr) (idx : Nat) : Prop :=
  let bi := c.locate pc makeBranchInfo
  (s.ltable idx).tag = bi.loopTag ∧
    ∃ way < 2 ^ c.logLoopTableAssoc, c.finallindex bi.loopIndex bi.loopIndexB way = idx

/-- The entries of other branches are the same. -/
def SparesOthers (pc : Addr) (t : LoopPredictor c) : Prop :=
  ∀ idx, ¬ s.Owns pc idx → t.ltable idx = s.ltable idx

lemma index_makeBranchInfo : makeBranchInfo.index c = some 0 := by
  simp [LoopBranchInfo.index, makeBranchInfo, LoopParams.finallindex]

variable {s}

lemma sparesOthers_setEntry_iff (pc : Addr) (e : LoopEntry) :
    s.SparesOthers pc (s.setEntry 0 e) ↔ s.Owns pc 0 ∨ e = s.ltable 0 := by
  constructor
  · intro hspares
    by_cases howns : s.Owns pc 0
    · exact .inl howns
    · exact .inr ((s.ltable_setEntry_self 0 e).symm.trans (hspares 0 howns))
  · rintro (howns | rfl) idx hidx
    · have hne : idx ≠ 0 := fun h0 => hidx (h0.symm ▸ howns)
      exact s.ltable_setEntry_of_ne hne e
    · rw [setEntry, Function.update_eq_self]

/-- The entries that a commit with an unfilled record leaves as they are. There are none if the
iteration counter has a bit. -/
def KeptByCommit (c : LoopParams) (taken : Bool) (e : LoopEntry) : Prop :=
  c.loopTableIterBits = 0 ∧ e.currentIter = 0 ∧
    (taken = (if c.useDirectionBit then e.dir else true) ∨
      e.numIter = 0 ∧ e.dir = taken ∧ e.age = 0 ∧ e.confidence = 0)

lemma countIteration_fields (e : LoopEntry) :
    (c.countIteration e).currentIter = (e.currentIter + 1) % 2 ^ c.loopTableIterBits ∧
      (c.countIteration e).dir = e.dir := by
  simp only [LoopParams.countIteration, LoopParams.ageReset]
  split_ifs <;> exact ⟨rfl, rfl⟩

lemma succ_mod_ne {n : Nat} (hn : 1 < n) (x : Nat) : (x + 1) % n ≠ x := by
  intro h
  have hmod : x ≡ x + 1 [MOD n] := by
    nth_rewrite 1 [← h]
    exact Nat.mod_mod _ _
  have hdvd : n ∣ 1 := by simpa using (Nat.modEq_iff_dvd' x.le_succ).mp hmod
  exact hn.ne' (Nat.dvd_one.mp hdvd)

/-- An exit in the first iteration forgets or learns the number of iterations. -/
lemma numIter_first_exit {e : LoopEntry} (hiter : e.currentIter = 0)
    (hbits : 1 < 2 ^ c.loopTableIterBits) (taken : Bool) :
    (c.endLoop taken (c.countIteration e)).numIter ≠ e.numIter := by
  have hone : (0 + 1) % 2 ^ c.loopTableIterBits = 1 := Nat.mod_eq_of_lt hbits
  simp only [LoopParams.countIteration, LoopParams.endLoop, LoopParams.ageReset, hiter, hone]
  split_ifs <;> simp_all <;> omega

lemma hitUpdate_eq_self_iff (taken tagePred ageInc : Bool) (e : LoopEntry) :
    c.hitUpdate taken makeBranchInfo tagePred ageInc e = e ↔ KeptByCommit c taken e := by
  obtain ⟨hcount, hdir⟩ := countIteration_fields (c := c) e
  have hupdate : c.hitUpdate taken makeBranchInfo tagePred ageInc e =
      if taken != (if c.useDirectionBit then e.dir else true) then
        c.endLoop taken (c.countIteration e)
      else c.countIteration e := by
    simp [LoopParams.hitUpdate, makeBranchInfo, hdir]
  rw [hupdate, KeptByCommit]
  generalize (if c.useDirectionBit then e.dir else true) = direction
  by_cases hbits : c.loopTableIterBits = 0
  · have hstill : c.countIteration e = { e with currentIter := 0 } := by
      simp [LoopParams.countIteration, hbits, Nat.mod_one]
    rw [hstill]
    cases e
    by_cases hexit : taken = direction
    · simp [hexit, hbits, eq_comm]
    · grind [LoopParams.endLoop, LoopParams.ageReset]
  · have htwo := Nat.one_lt_two_pow hbits
    refine iff_of_false ?_ fun h => hbits h.1
    by_cases hexit : (taken != direction) = true
    · rw [if_pos hexit]
      intro h
      have hiter : e.currentIter = 0 := (congrArg LoopEntry.currentIter h).symm
      exact numIter_first_exit hiter htwo taken (congrArg LoopEntry.numIter h)
    · rw [if_neg hexit]
      intro h
      exact succ_mod_ne htwo _ (hcount.symm.trans (congrArg LoopEntry.currentIter h))

/-- A record that no prediction has filled points to the first entry. A commit or a squash leaves
the entries of other branches alone exactly if that entry is one of the branch, or is one that the
call keeps. -/
theorem placeholder_spares_iff (hspec : c.useSpeculation = false) (s : LoopPredictor c) (pc : Addr)
    (taken tagePred : Bool) (r : LoopDraws) :
    (s.SparesOthers pc (s.condBranchUpdate pc taken tagePred makeBranchInfo r) ↔
      s.Owns pc 0 ∨ KeptByCommit c taken (s.ltable 0)) ∧
    ∀ t ∈ [s.squash makeBranchInfo, s.squashLoop makeBranchInfo],
      (s.SparesOthers pc t ↔ s.Owns pc 0 ∨ (s.ltable 0).currentIterSpec = 0) := by
  have hcommit : s.condBranchUpdate pc taken tagePred makeBranchInfo r =
      s.setEntry 0 (c.hitUpdate taken makeBranchInfo tagePred r.ageInc (s.ltable 0)) := by
    simp only [condBranchUpdate, hspec, loopUpdate, Bool.false_eq_true, if_false,
      index_makeBranchInfo]
    rfl
  have hsquash : s.squash makeBranchInfo =
      s.setEntry 0 { s.ltable 0 with currentIterSpec := 0 } := by
    simp only [squash, index_makeBranchInfo]
    rfl
  have hzero : { s.ltable 0 with currentIterSpec := 0 } = s.ltable 0 ↔
      (s.ltable 0).currentIterSpec = 0 := by
    generalize s.ltable 0 = e
    refine ⟨fun h => (congrArg LoopEntry.currentIterSpec h).symm, ?_⟩
    rintro h
    rw [← h]
  have hsquashed : s.SparesOthers pc (s.squash makeBranchInfo) ↔
      s.Owns pc 0 ∨ (s.ltable 0).currentIterSpec = 0 := by
    rw [hsquash, sparesOthers_setEntry_iff, hzero]
  refine ⟨?_, fun t ht => ?_⟩
  · rw [hcommit, sparesOthers_setEntry_iff, hitUpdate_eq_self_iff]
  · simp only [List.mem_cons, List.not_mem_nil, or_false] at ht
    rcases ht with rfl | rfl
    · exact hsquashed
    · exact hsquashed

/-- A loop of four iterations in each entry, the first one in its third iteration. -/
def twoLoops (useSpeculation : Bool) : LoopPredictor (.small useSpeculation) :=
  ⟨fun i => if i = 0 then ⟨4, 2, 2, 1, 5, 7, true⟩ else ⟨4, 0, 0, 0, 1, 7, true⟩, -1⟩

/-- The loop is the branch's own. -/
theorem placeholder_spares_iff_twoLoops :
    (twoLoops false).SparesOthers 10
        ((twoLoops false).condBranchUpdate 10 true false makeBranchInfo ⟨false, false, 0⟩) ∧
      ((twoLoops false).condBranchUpdate 10 true false makeBranchInfo ⟨false, false, 0⟩).ltable 0 ≠
        (twoLoops false).ltable 0 :=
  ⟨(placeholder_spares_iff rfl (twoLoops false) 10 true false ⟨false, false, 0⟩).1.mpr
    (.inl ⟨by decide, 0, by decide, by decide⟩), by decide⟩

/-- A branch of the other set counts an iteration of the loop. -/
theorem placeholder_counts_other_loop :
    ¬ (twoLoops false).SparesOthers 3
      ((twoLoops false).condBranchUpdate 3 true false makeBranchInfo ⟨false, false, 0⟩) := by
  intro h
  have hsame := congrArg LoopEntry.currentIter (h 0 (fun howns => absurd howns.1 (by decide)))
  exact absurd hsame (by decide)

/-! ## Squashing predictions -/

/-- The predictions of conditional branches, and their records, the youngest first. -/
def predictAll : List (Addr × Bool) → LoopPredictor c → LoopPredictor c × List LoopBranchInfo
  | [], s => (s, [])
  | (pc, prevPredTaken) :: rest, s =>
    let (s, bi, _) := s.loopPredict pc true makeBranchInfo prevPredTaken
    let (s, bis) := predictAll rest s
    (s, bis ++ [bi])

variable (s) in
/-- The entry that a prediction of the branch finds. -/
def hitIndex (pc : Addr) : Option Nat :=
  let bi := c.locate pc makeBranchInfo
  ((List.range (2 ^ c.logLoopTableAssoc)).find? (s.matchesWay bi)).map
    (c.finallindex bi.loopIndex bi.loopIndexB)

lemma locate_fields (pc : Addr) (bi : LoopBranchInfo) :
    (c.locate pc bi).loopHit = none ∧ (c.locate pc bi).currentIter = bi.currentIter := by
  unfold LoopParams.locate
  split
  · exact ⟨rfl, rfl⟩
  · exact ⟨rfl, rfl⟩

lemma getLoop_record (s : LoopPredictor c) (pc : Addr) (speculative : Bool) :
    (s.getLoop pc makeBranchInfo speculative).1.index c = s.hitIndex pc ∧
      (s.getLoop pc makeBranchInfo speculative).1.currentIter = 0 := by
  obtain ⟨hhit, hiter⟩ := locate_fields (c := c) pc makeBranchInfo
  unfold getLoop hitIndex
  dsimp only
  cases (List.range (2 ^ c.logLoopTableAssoc)).find?
    (s.matchesWay (c.locate pc makeBranchInfo)) with
  | none => exact ⟨by simp [LoopBranchInfo.index, hhit], hiter⟩
  | some => exact ⟨rfl, hiter⟩

lemma loopPredict_eq (hspec : c.useSpeculation = true) (s : LoopPredictor c) (pc : Addr)
    (prevPredTaken : Bool) : ∃ taken bi,
      s.loopPredict pc true makeBranchInfo prevPredTaken = (s.specLoopUpdate taken bi, bi, taken) ∧
      bi.index c = s.hitIndex pc ∧ bi.currentIter = 0 := by
  have hrecord := s.getLoop_record pc c.useSpeculation
  simp only [loopPredict, if_true]
  rw [if_pos hspec]
  exact ⟨_, _, rfl, hrecord⟩

lemma hitIndex_congr {t : LoopPredictor c} (h : ∀ i, (t.ltable i).tag = (s.ltable i).tag)
    (pc : Addr) : t.hitIndex pc = s.hitIndex pc := by
  have hmatch : ∀ bi, t.matchesWay bi = s.matchesWay bi := fun bi => by
    funext i
    simp only [matchesWay, h]
  simp only [hitIndex, hmatch]

lemma specLoopUpdate_entry (s : LoopPredictor c) (taken : Bool) (bi : LoopBranchInfo) (i : Nat) :
    ((s.specLoopUpdate taken bi).ltable i).tag = (s.ltable i).tag ∧
      (bi.index c ≠ some i → (s.specLoopUpdate taken bi).ltable i = s.ltable i) := by
  unfold specLoopUpdate
  split
  · exact ⟨rfl, fun _ => rfl⟩
  · rename_i idx hidx
    by_cases hi : i = idx
    · subst hi
      simp [hidx]
    · have hother := s.ltable_setEntry_of_ne hi
      exact ⟨by rw [hother], fun _ => hother _⟩

/-- Every entry that one of the predictions has found ends at zero, whatever it was before. -/
lemma currentIterSpec_squashed (hspec : c.useSpeculation = true) (branches : List (Addr × Bool))
    (s : LoopPredictor c) (i : Nat) :
    (((predictAll branches s).2.foldl squash (predictAll branches s).1).ltable i).currentIterSpec =
      if ∃ b ∈ branches, s.hitIndex b.1 = some i then 0 else (s.ltable i).currentIterSpec := by
  induction branches generalizing s with
  | nil => simp [predictAll]
  | cons b rest ih =>
    obtain ⟨pc, prev⟩ := b
    obtain ⟨taken, bi, hpredict, hindex, hiter⟩ := loopPredict_eq hspec s pc prev
    have hentry := s.specLoopUpdate_entry taken bi
    have hsame := hitIndex_congr (fun i => (hentry i).1)
    have hrest := ih (s.specLoopUpdate taken bi)
    simp only [predictAll, hpredict, List.foldl_append, List.foldl_cons, List.foldl_nil,
      List.exists_mem_cons_iff]
    generalize (predictAll rest (s.specLoopUpdate taken bi)).2.foldl squash _ = t at hrest
    simp only [hsame] at hrest
    -- the oldest prediction is squashed last
    by_cases hhit : s.hitIndex pc = some i
    · simp [squash, hindex, hhit, hiter]
    · have hlast : (t.squash bi).ltable i = t.ltable i := by
        unfold squash
        rw [hindex]
        split
        · rfl
        · rename_i idx hidx
          have hne : i ≠ idx := fun h => hhit (by rw [hidx, h])
          exact ltable_setEntry_of_ne _ hne _
      rw [hlast, hrest, (hentry i).2 (hindex ▸ hhit)]
      simp [hhit]

/-- Squashing every prediction restores all speculative counts exactly if the entries found had a
count of zero: the record never notes it. -/
theorem squash_recovers_iff (hspec : c.useSpeculation = true) (s : LoopPredictor c)
    (branches : List (Addr × Bool)) :
    (∀ i, (((predictAll branches s).2.foldl squash (predictAll branches s).1).ltable
        i).currentIterSpec = (s.ltable i).currentIterSpec) ↔
      ∀ b ∈ branches, ∀ i, s.hitIndex b.1 = some i → (s.ltable i).currentIterSpec = 0 := by
  simp only [currentIterSpec_squashed hspec]
  constructor
  · intro h b hb i hi
    have hzero := h i
    rw [if_pos ⟨b, hb, hi⟩] at hzero
    exact hzero.symm
  · intro h i
    split
    · rename_i hhit
      obtain ⟨b, hb, hi⟩ := hhit
      exact (h b hb i hi).symm
    · rfl

/-- The other loop is at its start. -/
theorem squash_recovers_iff_twoLoops :
    (twoLoops true).hitIndex 3 = some 1 ∧
      ∀ i, (((predictAll [(3, true)] (twoLoops true)).2.foldl squash
        (predictAll [(3, true)] (twoLoops true)).1).ltable i).currentIterSpec =
          ((twoLoops true).ltable i).currentIterSpec := by
  have hone : (twoLoops true).hitIndex 3 = some 1 := by decide
  refine ⟨hone, (squash_recovers_iff rfl (twoLoops true) [(3, true)]).mpr ?_⟩
  intro b hb i hi
  obtain rfl := List.mem_singleton.mp hb
  obtain rfl := Option.some.inj (hone.symm.trans hi)
  rfl

/-- The first loop has counted two iterations, and is predicted once more. -/
theorem squash_loses_count :
    ((twoLoops true).ltable 0).currentIterSpec = 2 ∧
      (((predictAll [(10, true)] (twoLoops true)).2.foldl squash
        (predictAll [(10, true)] (twoLoops true)).1).ltable 0).currentIterSpec = 0 := by
  decide

end LoopPredictor

end BTBFerret
