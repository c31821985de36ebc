import BTBFerret.TageHistory

/-!
# A prediction of TAGE-SC-L and its update

`TAGEBase::tagePredict` and `condBranchUpdate` with the hooks of `tage_sc_l.cc`: the longest
matching bank predicts, unless its entry is weak and a counter prefers the alternate prediction. The
counter is chosen by the confidence of the alternate prediction in the record of the branch, at the
update again. Indices, tags, allocation and the other predictors belong to the environment.
-/

namespace BTBFerret

open FallibleRuns

namespace Tage

structure TageEntry where
  ctr : Int
  tag : Nat
  u : Nat

/-- The counters for newly allocated entries are indexed modulo `numUseAltOnNa - 1`. -/
structure SCLParams where
  nHistoryTables : Nat
  noSkip : Nat → Bool
  numUseAltOnNa : Nat
  two_le : 2 ≤ numUseAltOnNa
  useAltOnNaBits : Nat
  logRatioBiModalHystEntries : Nat
  bindex : Addr → Nat
  staticLatency : Cycles

structure SCLTables where
  gtable : Nat → Nat → TageEntry
  btablePrediction : Nat → Bool
  btableHysteresis : Nat → Bool
  useAltPredForNewlyAllocated : Nat → Int

/-- What `calculateIndicesAndTags` finds for a branch and the histories. -/
structure TableLookup where
  tableIndices : Nat → Nat
  tableTags : Nat → Nat

inductive Provider where
  | none
  | bimodalOnly
  | tageLongestMatch
  | bimodalAltMatch
  | tageAltMatch
  | loop
  | sc
  deriving DecidableEq

structure Confidences where
  lowConf : Bool
  highConf : Bool
  altConf : Bool
  medConf : Bool

structure SCLBranchInfo where
  branchPC : Addr
  condBranch : Bool
  hitBank : Nat
  hitBankIndex : Nat
  altBank : Nat
  altBankIndex : Nat
  bimodalIndex : Nat
  tagePred : Bool
  altTaken : Bool
  longestMatchPred : Bool
  pseudoNewAlloc : Bool
  provider : Provider
  conf : Confidences
  lookup : TableLookup
  valid : Bool
  history : BranchInfo

def makeSCLBranchInfo (pc : Addr) (cond : Bool) : SCLBranchInfo where
  branchPC := pc
  condBranch := cond
  hitBank := 0
  hitBankIndex := 0
  altBank := 0
  altBankIndex := 0
  bimodalIndex := 0
  tagePred := false
  altTaken := false
  longestMatchPred := false
  pseudoNewAlloc := false
  provider := .none
  conf := ⟨false, false, false, false⟩
  lookup := ⟨fun _ => 0, fun _ => 0⟩
  valid := false
  history := makeBranchInfo

/-- `|2 * ctr + 1| > 1`: the counter is not weak. -/
def TageEntry.confident (e : TageEntry) : Bool := 1 < (2 * e.ctr + 1).natAbs

section

variable (c : SCLParams) (t : SCLTables)

/-- The last bank up to `n` whose entry has the tag, or zero. -/
def findBank (lookup : TableLookup) : Nat → Nat
  | 0 => 0
  | i + 1 =>
    if c.noSkip (i + 1) &&
        (t.gtable (i + 1) (lookup.tableIndices (i + 1))).tag == lookup.tableTags (i + 1) then i + 1
    else findBank lookup i

/-- The bimodal counter has one of its extreme values. -/
def bimodalConfident (bimodalIndex : Nat) : Bool :=
  let bim := 2 * (t.btablePrediction bimodalIndex).toNat +
    (t.btableHysteresis (bimodalIndex >>> c.logRatioBiModalHystEntries)).toNat
  bim == 0 || bim == 3

/-- `TAGE_SC_L_TAGE::getBimodePred` also sets the confidences. -/
def getBimodePred (bi : SCLBranchInfo) : SCLBranchInfo × Bool :=
  let highConf := bimodalConfident c t bi.bimodalIndex
  ({ bi with conf := ⟨!highConf, highConf, highConf, false⟩ }, t.btablePrediction bi.bimodalIndex)

def extraAltCalc (bi : SCLBranchInfo) : SCLBranchInfo :=
  { bi with conf := { bi.conf with
      altConf := (t.gtable bi.altBank bi.altBankIndex).confident } }

def getUseAltIdx (bi : SCLBranchInfo) : Nat :=
  (2 * ((bi.hitBank - 1) / 8) + bi.conf.altConf.toNat) % (c.numUseAltOnNa - 1)

def lookupBanks (lookup : TableLookup) (bi : SCLBranchInfo) : SCLBranchInfo :=
  let hitBank := findBank c t lookup c.nHistoryTables
  let altBank := findBank c t lookup (hitBank - 1)
  { bi with
    lookup := lookup
    bimodalIndex := c.bindex bi.branchPC
    hitBank := hitBank
    hitBankIndex := if 0 < hitBank then lookup.tableIndices hitBank else bi.hitBankIndex
    altBank := altBank
    altBankIndex := if 0 < altBank then lookup.tableIndices altBank else bi.altBankIndex }

def alternate (bi : SCLBranchInfo) : SCLBranchInfo :=
  if 0 < bi.altBank then
    extraAltCalc t { bi with altTaken := 0 ≤ (t.gtable bi.altBank bi.altBankIndex).ctr }
  else
    let (bi, altTaken) := getBimodePred c t bi
    { bi with altTaken := altTaken }

/-- `TAGEBase::tagePredict`, with the index of the counter it consults. -/
def tagePredict (lookup : TableLookup) (condBranch : Bool) (bi : SCLBranchInfo) :
    SCLBranchInfo × Bool × Option Nat :=
  if !condBranch then (bi, true, none)
  else
    let bi := lookupBanks c t lookup bi
    if 0 < bi.hitBank then
      let bi := alternate c t bi
      let hit := t.gtable bi.hitBank bi.hitBankIndex
      let bi := { bi with longestMatchPred := 0 ≤ hit.ctr, pseudoNewAlloc := !hit.confident }
      let idx := getUseAltIdx c bi
      let bi := if t.useAltPredForNewlyAllocated idx < 0 ∨ bi.pseudoNewAlloc = false then
          { bi with tagePred := bi.longestMatchPred, provider := .tageLongestMatch }
        else { bi with
          tagePred := bi.altTaken
          provider := if 0 < bi.altBank then .tageAltMatch else .bimodalAltMatch }
      (bi, bi.tagePred, some idx)
    else
      let (bi, altTaken) := getBimodePred c t bi
      let bi := { bi with
        altTaken := altTaken, tagePred := altTaken, longestMatchPred := altTaken
        provider := .bimodalOnly }
      (bi, bi.tagePred, none)

structure OtherPredictors where
  loop : Bool → Bool × Bool
  corrector : SCLBranchInfo → Confidences → Bool → Bool × Bool

structure SCLPrediction where
  info : SCLBranchInfo
  predTaken : Bool
  latency : Cycles
  consulted : Option Nat

/-- `TAGE_SC_L::predict`. The bimodal prediction is read once more, for the latency. -/
def sclPredict (lookup : TableLookup) (others : OtherPredictors) (pc : Addr) (condBranch : Bool) :
    SCLPrediction :=
  let (bi, pred, consulted) := tagePredict c t lookup condBranch (makeSCLBranchInfo pc condBranch)
  let (pred, loopPredUsed) := others.loop pred
  let (bi, bimPred) := getBimodePred c t bi
  let bi := if loopPredUsed then { bi with provider := .loop } else bi
  let (pred, usedScPred) := others.corrector bi bi.conf pred
  let bi := if usedScPred then { bi with provider := .sc } else bi
  ⟨bi, pred, if bimPred == pred then 0 else c.staticLatency, consulted⟩

def ctrUpdate (ctr : Int) (taken : Bool) (nbits : Nat) : Int :=
  if taken then if ctr < 2 ^ (nbits - 1) - 1 then ctr + 1 else ctr
  else if -2 ^ (nbits - 1) < ctr then ctr - 1 else ctr

/-- The counter moves towards the alternate prediction if that was right. -/
def adjustUseAlt (taken : Bool) (bi : SCLBranchInfo) : SCLTables :=
  let idx := getUseAltIdx c bi
  let ctr := ctrUpdate (t.useAltPredForNewlyAllocated idx) (bi.altTaken == taken) c.useAltOnNaBits
  { t with
    useAltPredForNewlyAllocated := Function.update t.useAltPredForNewlyAllocated idx ctr }

/-- The rest of an update: `adjustAlloc` and, with the decision to allocate, the allocation and the
update of the entries. -/
structure UpdateRest where
  adjustAlloc : Bool → Bool
  tables : Bool → SCLTables → SCLTables

/-- `TAGEBase::condBranchUpdate`, with the index of the counter it adjusts. -/
def condBranchUpdate (taken : Bool) (bi : SCLBranchInfo) (rest : UpdateRest) :
    SCLTables × Option Nat :=
  let alloc := bi.tagePred != taken && decide (bi.hitBank < c.nHistoryTables)
  let weak := decide (0 < bi.hitBank) && bi.pseudoNewAlloc
  let alloc := if weak && bi.longestMatchPred == taken then false else alloc
  let (t, adjusted) := if weak && bi.longestMatchPred != bi.altTaken then
      (adjustUseAlt c t taken bi, some (getUseAltIdx c bi))
    else (t, none)
  (rest.tables (rest.adjustAlloc alloc) t, adjusted)

end

/-- `TAGEBase::updateHistories` on the record of a branch, also called for a squash. Indices and
tags are computed again if they are not valid. -/
def SCLBranchInfo.updateHistories {h : TageParams} (bi : SCLBranchInfo) (s : ThreadHistory h)
    (speculative taken : Bool) (target : Addr) (inst : StaticInst) (lookup : TableLookup) :
    Except TageFault (ThreadHistory h × SCLBranchInfo) := do
  let (s, history) ← s.updateHistories bi.branchPC speculative taken target inst bi.history
  let again := speculative == h.speculativeHistUpdate && !bi.valid && bi.condBranch
  return (s, { bi with history := history, lookup := if again then lookup else bi.lookup })

def HistoryUpdate (bi bi' : SCLBranchInfo) : Prop :=
  ∃ (h : TageParams) (s s' : ThreadHistory h) (speculative taken : Bool) (target : Addr)
    (inst : StaticInst) (lookup : TableLookup),
    bi.updateHistories s speculative taken target inst lookup = .ok (s', bi')

/-! ## The counter read and the counter trained -/

variable {lookup : TableLookup}

section

variable {c : SCLParams} {t : SCLTables}

/-- The two indices only differ in the confidence. -/
lemma useAltIdx_eq_iff (bank : Nat) (b b' : Bool) :
    (2 * bank + b.toNat) % (c.numUseAltOnNa - 1) = (2 * bank + b'.toNat) % (c.numUseAltOnNa - 1) ↔
      b = b' ∨ c.numUseAltOnNa = 2 := by
  have htwo := c.two_le
  generalize c.numUseAltOnNa = n at htwo
  obtain ⟨m, rfl⟩ := Nat.exists_eq_add_of_le' htwo
  change _ % (m + 1) = _ % (m + 1) ↔ _
  constructor
  · intro h
    by_contra hne
    rw [not_or] at hne
    -- two numbers that differ by one are equal modulo one only
    have hmod : (2 * bank + b.toNat) ≡ (2 * bank + b'.toNat) [MOD m + 1] := h
    have hbit : b.toNat ≡ b'.toNat [MOD m + 1] := Nat.ModEq.add_left_cancel' _ hmod
    cases b <;> cases b' <;> simp_all [Nat.ModEq]
  · rintro (rfl | hm)
    · rfl
    · obtain rfl : m = 0 := by omega
      rw [Nat.mod_one, Nat.mod_one]

def hitBank (c : SCLParams) (t : SCLTables) (lookup : TableLookup) : Nat :=
  findBank c t lookup c.nHistoryTables

def altBank (c : SCLParams) (t : SCLTables) (lookup : TableLookup) : Nat :=
  findBank c t lookup (hitBank c t lookup - 1)

def TableLookup.entry (lookup : TableLookup) (t : SCLTables) (bank : Nat) : TageEntry :=
  t.gtable bank (lookup.tableIndices bank)

/-- The entry of the longest match is weak and disagrees with an alternate bank whose confidence is
not the bimodal one, and there are several counters. -/
structure Mistrained (c : SCLParams) (t : SCLTables) (lookup : TableLookup) (pc : Addr) : Prop where
  alternate : 0 < altBank c t lookup
  weak : (lookup.entry t (hitBank c t lookup)).confident = false
  disagree : decide (0 ≤ (lookup.entry t (hitBank c t lookup)).ctr) ≠
    decide (0 ≤ (lookup.entry t (altBank c t lookup)).ctr)
  confidence : (lookup.entry t (altBank c t lookup)).confident ≠ bimodalConfident c t (c.bindex pc)
  counters : c.numUseAltOnNa ≠ 2

lemma hitBank_pos_of_altBank (h : 0 < altBank c t lookup) : 0 < hitBank c t lookup := by
  unfold altBank at h
  by_contra hzero
  rw [show hitBank c t lookup - 1 = 0 by omega] at h
  exact Nat.lt_irrefl 0 h

/-- The confidence of the alternate prediction when the counter is chosen. -/
def altConfident (c : SCLParams) (t : SCLTables) (lookup : TableLookup) (pc : Addr) : Bool :=
  if 0 < altBank c t lookup then (lookup.entry t (altBank c t lookup)).confident
  else bimodalConfident c t (c.bindex pc)

/-- What a prediction leaves in the record of a conditional branch for the choice of the counter. -/
structure Recorded (c : SCLParams) (t : SCLTables) (lookup : TableLookup) (pc : Addr)
    (bi : SCLBranchInfo) : Prop where
  hitBank : bi.hitBank = hitBank c t lookup
  altConf : bi.conf.altConf = bimodalConfident c t (c.bindex pc)
  pseudoNewAlloc : 0 < Tage.hitBank c t lookup →
    bi.pseudoNewAlloc = !(lookup.entry t (Tage.hitBank c t lookup)).confident
  longestMatchPred : 0 < Tage.hitBank c t lookup →
    bi.longestMatchPred = decide (0 ≤ (lookup.entry t (Tage.hitBank c t lookup)).ctr)
  altTaken : 0 < altBank c t lookup →
    bi.altTaken = decide (0 ≤ (lookup.entry t (altBank c t lookup)).ctr)

lemma alternate_lookupBanks (bi : SCLBranchInfo)
    (hhit : 0 < hitBank c t lookup) :
    let found := alternate c t (lookupBanks c t lookup bi)
    found.hitBank = hitBank c t lookup ∧
      found.hitBankIndex = lookup.tableIndices (hitBank c t lookup) ∧
      found.conf.altConf = altConfident c t lookup bi.branchPC ∧
      found.bimodalIndex = c.bindex bi.branchPC ∧
      (0 < altBank c t lookup →
        found.altTaken = decide (0 ≤ (lookup.entry t (altBank c t lookup)).ctr)) := by
  have hindex : (lookupBanks c t lookup bi).hitBankIndex =
      lookup.tableIndices (hitBank c t lookup) := if_pos hhit
  by_cases halt : 0 < altBank c t lookup
  · have haltIndex : (lookupBanks c t lookup bi).altBankIndex =
        lookup.tableIndices (altBank c t lookup) := if_pos halt
    have halternate : alternate c t (lookupBanks c t lookup bi) = extraAltCalc t
        { lookupBanks c t lookup bi with
          altTaken := 0 ≤ (t.gtable (lookupBanks c t lookup bi).altBank
            (lookupBanks c t lookup bi).altBankIndex).ctr } := if_pos halt
    rw [halternate]
    refine ⟨rfl, hindex, ?_, rfl, ?_⟩
    · rw [altConfident, if_pos halt, TableLookup.entry, ← haltIndex]
      rfl
    · intro _
      rw [TableLookup.entry, ← haltIndex]
      rfl
  · have halternate : alternate c t (lookupBanks c t lookup bi) =
        { (getBimodePred c t (lookupBanks c t lookup bi)).1 with
          altTaken := (getBimodePred c t (lookupBanks c t lookup bi)).2 } := if_neg halt
    rw [halternate]
    refine ⟨rfl, hindex, ?_, rfl, fun h => absurd h halt⟩
    rw [altConfident, if_neg halt]
    rfl

/-- The index for a hit bank and a confidence. -/
def useAltIdx (c : SCLParams) (bank : Nat) (altConf : Bool) : Nat :=
  (2 * ((bank - 1) / 8) + altConf.toNat) % (c.numUseAltOnNa - 1)

/-- What is asked of the result of `tagePredict`; the confidence is still that of the choice. -/
lemma tagePredict_found (lookup : TableLookup) (pc : Addr) :
    let found := tagePredict c t lookup true (makeSCLBranchInfo pc true)
    found.1.bimodalIndex = c.bindex pc ∧
      Recorded c t lookup pc (getBimodePred c t found.1).1 ∧
      found.2.2 = if 0 < hitBank c t lookup then
        some (useAltIdx c (hitBank c t lookup) (altConfident c t lookup pc)) else none := by
  by_cases hhit : 0 < hitBank c t lookup
  · obtain ⟨hbank, hindex, hconf, hbim, halt⟩ :=
      alternate_lookupBanks (c := c) (t := t) (makeSCLBranchInfo pc true) hhit
    unfold tagePredict
    rw [Bool.not_true, if_neg Bool.false_ne_true]
    dsimp only
    rw [if_pos (show 0 < (lookupBanks c t lookup (makeSCLBranchInfo pc true)).hitBank from hhit),
      if_pos hhit]
    generalize alternate c t (lookupBanks c t lookup (makeSCLBranchInfo pc true)) = bi at *
    have hentry : t.gtable bi.hitBank bi.hitBankIndex = lookup.entry t (hitBank c t lookup) := by
      rw [hbank, hindex]
      rfl
    refine ⟨?_, ⟨?_, ?_, ?_, ?_, ?_⟩, ?_⟩
    · split <;> exact hbim
    · split <;> exact hbank
    · split <;> exact congrArg (bimodalConfident c t) hbim
    · intro _
      rw [← hentry]
      split <;> rfl
    · intro _
      rw [← hentry]
      split <;> rfl
    · intro h
      rw [← halt h]
      split <;> rfl
    · have hidx : useAltIdx c bi.hitBank bi.conf.altConf =
          useAltIdx c (hitBank c t lookup) (altConfident c t lookup pc) := by
        rw [hbank, hconf]
        rfl
      exact congrArg some hidx
  · have halt : ¬ 0 < altBank c t lookup := fun h => hhit (hitBank_pos_of_altBank h)
    unfold tagePredict
    rw [Bool.not_true, if_neg Bool.false_ne_true]
    dsimp only
    rw [if_neg (show ¬ 0 < (lookupBanks c t lookup (makeSCLBranchInfo pc true)).hitBank from hhit),
      if_neg hhit]
    refine ⟨rfl, ⟨rfl, rfl, ?_, ?_, ?_⟩, rfl⟩
    · intro h
      exact absurd h hhit
    · intro h
      exact absurd h hhit
    · intro h
      exact absurd h halt

/-- Only the provider changes after the bimodal prediction was read. -/
lemma sclPredict_recorded (lookup : TableLookup) (others : OtherPredictors) (pc : Addr) :
    Recorded c t lookup pc (sclPredict c t lookup others pc true).info ∧
      (sclPredict c t lookup others pc true).consulted = if 0 < hitBank c t lookup then
        some (useAltIdx c (hitBank c t lookup) (altConfident c t lookup pc)) else none := by
  obtain ⟨_, hrecorded, hconsulted⟩ := tagePredict_found (c := c) (t := t) lookup pc
  refine ⟨?_, hconsulted⟩
  have hprovider : ∀ (used : Bool) (provider : Provider) (bi : SCLBranchInfo),
      Recorded c t lookup pc bi →
      Recorded c t lookup pc (if used then { bi with provider := provider } else bi) := by
    intro used provider bi h
    cases used with
    | false => exact h
    | true => exact ⟨h.hitBank, h.altConf, h.pseudoNewAlloc, h.longestMatchPred, h.altTaken⟩
  exact hprovider _ _ _ (hprovider _ _ _ hrecorded)

lemma Recorded.updated {pc : Addr} {bi bi' : SCLBranchInfo}
    (h : Recorded c t lookup pc bi) (hupdates : Relation.ReflTransGen HistoryUpdate bi bi') :
    Recorded c t lookup pc bi' := by
  induction hupdates with
  | refl => exact h
  | tail _ hupdate ih =>
    obtain ⟨_, _, _, _, _, _, _, _, hstep⟩ := hupdate
    unfold SCLBranchInfo.updateHistories at hstep
    obtain ⟨_, _, hpure⟩ := bind_eq_ok_iff.mp hstep
    obtain ⟨_, rfl⟩ := Prod.mk.inj (Except.ok.inj hpure)
    exact ⟨ih.hitBank, ih.altConf, ih.pseudoNewAlloc, ih.longestMatchPred, ih.altTaken⟩

lemma adjusted_eq (taken : Bool) (bi : SCLBranchInfo) (rest : UpdateRest) :
    (condBranchUpdate c t taken bi rest).2 =
      if (decide (0 < bi.hitBank) && bi.pseudoNewAlloc && bi.longestMatchPred != bi.altTaken) = true
      then some (getUseAltIdx c bi) else none := by
  unfold condBranchUpdate
  dsimp only
  split
  · rfl
  · rfl

/-- Whatever happens meanwhile, the update of a branch adjusts the counter that its prediction
consulted, exactly if the branch is not one of those above. -/
theorem use_alt_counter_trained_where_read (c : SCLParams) (t : SCLTables) (lookup : TableLookup)
    (others : OtherPredictors) (pc : Addr) :
    (∀ bi, Relation.ReflTransGen HistoryUpdate (sclPredict c t lookup others pc true).info bi →
      ∀ (later : SCLTables) (taken : Bool) (rest : UpdateRest) (idx : Nat),
        (condBranchUpdate c later taken bi rest).2 = some idx →
        (sclPredict c t lookup others pc true).consulted = some idx) ↔
      ¬ Mistrained c t lookup pc := by
  obtain ⟨hrecorded, hconsulted⟩ := sclPredict_recorded (c := c) (t := t) lookup others pc
  constructor
  · rintro h ⟨halt, hweak, hdisagree, hconf, hcounters⟩
    have hhit := hitBank_pos_of_altBank halt
    have hadjusted : (condBranchUpdate c t true (sclPredict c t lookup others pc true).info
        ⟨id, fun _ t => t⟩).2 =
            some (getUseAltIdx c (sclPredict c t lookup others pc true).info) := by
      rw [adjusted_eq, if_pos]
      rw [hrecorded.hitBank, hrecorded.pseudoNewAlloc hhit, hrecorded.longestMatchPred hhit,
        hrecorded.altTaken halt, hweak]
      simp only [hhit, decide_true, Bool.not_false, Bool.and_self, Bool.true_and, bne_iff_ne]
      exact hdisagree
    have hsame := h _ .refl t true _ _ hadjusted
    rw [hconsulted, if_pos hhit, Option.some.injEq] at hsame
    unfold getUseAltIdx useAltIdx at hsame
    rw [hrecorded.hitBank, hrecorded.altConf, useAltIdx_eq_iff] at hsame
    rcases hsame with hequal | htwo
    · rw [altConfident, if_pos halt] at hequal
      exact hconf hequal
    · exact hcounters htwo
  · intro hnot bi hupdates later taken rest idx hadjusted
    have hbi := hrecorded.updated hupdates
    rw [adjusted_eq] at hadjusted
    split at hadjusted
    · rename_i hadjusts
      simp only [Bool.and_eq_true, decide_eq_true_eq, bne_iff_ne, ne_eq] at hadjusts
      obtain ⟨⟨hpos, hweak⟩, hdisagree⟩ := hadjusts
      rw [hbi.hitBank] at hpos
      rw [← hadjusted, hconsulted, if_pos hpos]
      unfold getUseAltIdx useAltIdx
      rw [Option.some.injEq, hbi.hitBank, hbi.altConf, useAltIdx_eq_iff]
      by_cases halt : 0 < altBank c t lookup
      · by_contra hne
        rw [not_or, altConfident, if_pos halt] at hne
        rw [hbi.pseudoNewAlloc hpos, Bool.not_eq_true'] at hweak
        rw [hbi.longestMatchPred hpos, hbi.altTaken halt] at hdisagree
        exact hnot ⟨halt, hweak, hdisagree, hne.1, hne.2⟩
      · rw [altConfident, if_neg halt]
        exact Or.inl rfl
    · cases hadjusted

def twoBanks : SCLParams where
  nHistoryTables := 2
  noSkip := fun _ => true
  numUseAltOnNa := 16
  two_le := by omega
  useAltOnNaBits := 5
  logRatioBiModalHystEntries := 0
  bindex := fun _ => 0
  staticLatency := 1

/-- The second bank is weak, the first one strong in the other direction, and the bimodal
counter weak. -/
def mixedTables : SCLTables where
  gtable := fun bank _ => if bank = 2 then ⟨0, 1, 0⟩ else ⟨-4, 1, 0⟩
  btablePrediction := fun _ => true
  btableHysteresis := fun _ => false
  useAltPredForNewlyAllocated := fun _ => 0

/-- The prediction consults the counter 1 and the update adjusts the counter 0. -/
theorem use_alt_counter_mistrained :
    let prediction := sclPredict twoBanks mixedTables ⟨fun _ => 0, fun _ => 1⟩
      ⟨fun pred => (pred, false), fun _ _ pred => (pred, false)⟩ 0 true
    prediction.consulted = some 1 ∧
      (condBranchUpdate twoBanks mixedTables true prediction.info ⟨id, fun _ t => t⟩).2 =
          some 0 := by
  decide +kernel

end

end Tage

end BTBFerret
