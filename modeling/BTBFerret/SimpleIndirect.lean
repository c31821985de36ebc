import Mathlib.Data.List.DropRight
import BTBFerret.BranchPredictorUnit
import BTBFerret.Speculation

/-!
# The simple indirect predictor

`simple_indirect.cc`: a global direction history and the path of the last indirect branches are
hashed into a cache of targets, and both are updated by predictions. The direction history is
restored from the record of a branch; the path is a deque that a squash pops at the back and a
commit trims at the front. The model is of one thread.
-/

namespace BTBFerret

open FallibleRuns Speculation List

namespace SimpleIndirect

structure SimpleIndirectParams where
  hashGHR : Bool
  hashTargets : Bool
  /-- `floorLog2(numSets)`; the constructor panics if the number is not a power of two -/
  logNumSets : Nat
  numWays : Nat
  tagBits : Nat
  pathLength : Nat
  speculativePathLength : Nat
  instShift : Nat
  ghrNumBits : Nat

structure IPredEntry where
  tag : Addr
  target : Option PCState

structure HistoryEntry where
  pcAddr : Addr
  targetAddr : Addr
  seqNum : InstSeqNum
  deriving DecidableEq

/-- The record of a branch. -/
structure IndirectHistory where
  pcAddr : Addr
  setIndex : Addr
  tag : Addr
  hit : Bool
  ghr : BitVec 32
  wasIndirect : Bool

structure SimpleIndirectPredictor where
  pathHist : List HistoryEntry
  ghr : BitVec 32
  targetCache : Addr → Nat → IPredEntry

/-- `assert(!threadInfo[tid].pathHist.empty())` in `recordTarget`. -/
inductive IndirectFault where
  | emptyPathHist

def isIndirectNoReturn (type : BranchType) : Bool :=
  type == .callIndirect || type == .indirectUncond || type == .indirectCond

namespace SimpleIndirectPredictor

variable (p : SimpleIndirectParams)

def init : SimpleIndirectPredictor := ⟨[], 0, fun _ _ => ⟨0, none⟩⟩

def ghrMask : BitVec 32 := BitVec.ofNat 32 (2 ^ p.ghrNumBits - 1)

/-- The loop of `getSetIndex` over the path, the youngest branch first. -/
def hashPath (hash : Addr) (path : List HistoryEntry) : Addr :=
  let hashShift := p.logNumSets / p.pathLength
  (path.reverse.take p.pathLength).zipIdx.foldl
    (fun (hash : Addr) (e : HistoryEntry × Nat) =>
      hash ^^^ (e.1.targetAddr >>> (p.instShift + e.2 * hashShift))) hash

variable (s : SimpleIndirectPredictor)

def getSetIndex (brAddr : Addr) : Addr :=
  let hash := brAddr >>> p.instShift
  let hash := if p.hashGHR then hash ^^^ s.ghr.setWidth 64 else hash
  let hash := if p.hashTargets then hashPath p hash s.pathHist else hash
  hash &&& BitVec.ofNat 64 (2 ^ p.logNumSets - 1)

def getTag (brAddr : Addr) : Addr :=
  (brAddr >>> p.instShift) &&& BitVec.ofNat 64 (2 ^ p.tagBits - 1)

def genIndirectInfo : IndirectHistory :=
  ⟨maxAddr, 0, 0, false, s.ghr, false⟩

def updateDirectionInfo (taken : Bool) : SimpleIndirectPredictor :=
  { s with ghr := ((s.ghr <<< 1) ||| BitVec.ofNat 32 taken.toNat) &&& ghrMask p }

def lookup (pc : Addr) : IndirectHistory × Option PCState :=
  let setIndex := s.getSetIndex p pc
  let tag := getTag p pc
  let way := (List.range p.numWays).find? fun w =>
    (s.targetCache setIndex w).tag == tag && (s.targetCache setIndex w).target.isSome
  let target := way.bind fun w => (s.targetCache setIndex w).target
  ({ s.genIndirectInfo with
    pcAddr := pc, setIndex := setIndex, tag := tag, hit := target.isSome, wasIndirect := true },
    target)

/-- Only the last entries of the path can still be needed. -/
def trim (limit : Nat) : List HistoryEntry → List HistoryEntry
  | [] => []
  | e :: path => if limit ≤ path.length + 1 then trim limit path else e :: path

def commit : SimpleIndirectPredictor :=
  { s with pathHist := trim (p.pathLength + p.speculativePathLength) s.pathHist }

def recordTarget (s : SimpleIndirectPredictor) (target : PCState) (history : IndirectHistory)
    (rand : Nat) : Except IndirectFault SimpleIndirectPredictor :=
  if s.pathHist.isEmpty then .error .emptyPathHist
  else
    let way := ((List.range p.numWays).find? fun w =>
      (s.targetCache history.setIndex w).tag == history.tag).getD (rand % p.numWays)
    .ok { s with targetCache := fun set w =>
      if set = history.setIndex ∧ w = way then ⟨history.tag, some target⟩
      else s.targetCache set w }

/-- The first part of an update during a squash: the update made at the prediction is undone. -/
def revert (history : IndirectHistory) : SimpleIndirectPredictor × IndirectHistory :=
  let s := { s with ghr := history.ghr }
  if history.wasIndirect then
    let s := { s with pathHist := s.pathHist.dropLast }
    (s, { history with setIndex := s.getSetIndex p history.pcAddr, tag := getTag p history.pcAddr })
  else (s, history)

def appendPath (s : SimpleIndirectPredictor) (sn : InstSeqNum) (target : PCState)
    (history : IndirectHistory) : SimpleIndirectPredictor :=
  if history.wasIndirect then
    { s with pathHist := s.pathHist ++ [⟨history.pcAddr, target.instAddr, sn⟩] }
  else s

def record (sn : InstSeqNum) (squash taken : Bool) (target : PCState) (history : IndirectHistory)
    (rand : Nat) : Except IndirectFault SimpleIndirectPredictor :=
  let s := (s.appendPath sn target history).updateDirectionInfo p taken
  if squash && history.wasIndirect && taken then s.recordTarget p target history rand else .ok s

def update (sn : InstSeqNum) (squash taken : Bool) (target : PCState) (brType : BranchType)
    (history : Option IndirectHistory) (rand : Nat) :
    Except IndirectFault (SimpleIndirectPredictor × IndirectHistory) := do
  let history := history.getD s.genIndirectInfo
  let history := { history with wasIndirect := isIndirectNoReturn brType }
  let (s, history) := if squash then s.revert p history else (s, history)
  let s ← s.record p sn squash taken target history rand
  return (s, history)

def squash (history : IndirectHistory) : SimpleIndirectPredictor :=
  let s := { s with ghr := history.ghr }
  if history.wasIndirect then { s with pathHist := s.pathHist.dropLast } else s

end SimpleIndirectPredictor

/-- A branch as `BPredUnit::predict` sees it. Indirect branches that are detected and predicted
taken are looked up; `target` is the prediction without that. -/
structure BranchInput where
  seqNum : InstSeqNum
  pc : Addr
  type : BranchType
  looksUp : Bool
  taken : Bool
  target : PCState

structure Correction where
  seqNum : InstSeqNum
  taken : Bool
  target : PCState
  rand : Nat

structure IndirectRecord where
  type : BranchType
  history : IndirectHistory

variable (p : SimpleIndirectParams)

def indirectPredictor :
    Predictor SimpleIndirectPredictor BranchInput Correction IndirectRecord IndirectFault where
  predict s b := do
    let (history, target) := if b.looksUp then (s.lookup p b.pc).map some id else (none, none)
    let (s, history) ← s.update p b.seqNum false b.taken (target.getD b.target) b.type history 0
    return (s, ⟨b.type, history⟩)
  correct s r c := do
    let (s, history) ← s.update p c.seqNum true c.taken c.target r.type (some r.history) c.rand
    return (s, { r with history := history })
  squash s r := .ok (s.squash r.history)
  commit s _ := .ok (s.commit p)

/-! ## The path is a window onto all indirect branches -/

/-- The held path has the last branches of the full one: enough for the path length after `k`
of them are squashed, if there are that many. -/
structure Held (pathLength k : Nat) (full held : List HistoryEntry) : Prop where
  suffix : held <:+ full
  enough : min full.length (pathLength + k) ≤ held.length

section

variable {pathLength k : Nat} {full held : List HistoryEntry}

lemma Held.rtake_eq (h : Held pathLength k full held) :
    held.rtake pathLength = full.rtake pathLength := by
  obtain ⟨front, rfl⟩ := h.suffix
  have henough := h.enough
  rw [length_append] at henough
  unfold rtake
  by_cases hlong : pathLength ≤ held.length
  · have hdrop : (front ++ held).length - pathLength =
        front.length + (held.length - pathLength) := by
      rw [length_append]
      omega
    rw [hdrop, drop_length_add_append]
  · have hfront : front = [] := eq_nil_of_length_eq_zero (by omega)
    rw [hfront]
    rfl

lemma Held.push (h : Held pathLength k full held) (e : HistoryEntry) :
    Held pathLength (k + 1) (full ++ [e]) (held ++ [e]) := by
  obtain ⟨front, rfl⟩ := h.suffix
  constructor
  · exact ⟨front, (append_assoc _ _ _).symm⟩
  · have henough := h.enough
    simp only [length_append, length_singleton] at henough ⊢
    omega

lemma Held.pop {e : HistoryEntry} (h : Held pathLength (k + 1) (full ++ [e]) held) :
    Held pathLength k full held.dropLast := by
  have henough := h.enough
  rw [length_append, length_singleton] at henough
  constructor
  · obtain ⟨front, hfull⟩ := h.suffix
    have hne : held ≠ [] := by
      rintro rfl
      rw [length_nil] at henough
      omega
    refine ⟨front, ?_⟩
    rw [← dropLast_append_of_ne_nil hne, hfull, dropLast_concat]
  · rw [length_dropLast]
    omega

lemma Held.mono {k' : Nat} (h : Held pathLength k full held) (hk : k' ≤ k) :
    Held pathLength k' full held := by
  constructor
  · exact h.suffix
  · have := h.enough
    omega

namespace SimpleIndirectPredictor

lemma trim_suffix (limit : Nat) (path : List HistoryEntry) : trim limit path <:+ path := by
  induction path with
  | nil => exact suffix_rfl
  | cons e path ih =>
    unfold trim
    split
    · exact ih.trans (suffix_cons e path)
    · exact suffix_rfl

lemma min_le_length_trim {limit n : Nat} (hn : n < limit) (path : List HistoryEntry) :
    min path.length n ≤ (trim limit path).length := by
  induction path with
  | nil => exact Nat.min_le_left _ _
  | cons =>
    unfold trim
    split
    · rw [length_cons]
      omega
    · exact Nat.min_le_left _ _

end SimpleIndirectPredictor

/-- A commit never trims what a later squash would expose. -/
lemma Held.trim (h : Held pathLength k full held) {spec : Nat} (hk : k < spec) :
    Held pathLength k full (SimpleIndirectPredictor.trim (pathLength + spec) held) := by
  constructor
  · exact (SimpleIndirectPredictor.trim_suffix _ _).trans h.suffix
  · have hlength := SimpleIndirectPredictor.min_le_length_trim
      (show pathLength + k < pathLength + spec by omega) held
    have := h.enough
    omega

end

/-! ## Recovery -/

abbrev IndirectState := Speculation.State SimpleIndirectPredictor IndirectRecord

abbrev BranchInFlight := InFlight SimpleIndirectPredictor IndirectRecord

def BranchInFlight.isIndirect (f : BranchInFlight) : Bool := isIndirectNoReturn f.record.type

def indirectInFlight (s : IndirectState) : Nat :=
  s.inFlight.countP BranchInFlight.isIndirect

structure Recorded (pathLength : Nat) (full : List HistoryEntry) (f : BranchInFlight) : Prop where
  ghr : f.record.history.ghr = f.before.ghr
  wasIndirect : f.record.history.wasIndirect = isIndirectNoReturn f.record.type
  path : f.before.pathHist.rtake pathLength = full.rtake pathLength

inductive Stacked (pathLength : Nat) : List HistoryEntry → List BranchInFlight → Prop
  | nil {full} : Stacked pathLength full []
  | direct {full f older} (hdirect : f.isIndirect = false) (hrec : Recorded pathLength full f)
      (hrest : Stacked pathLength full older) : Stacked pathLength full (f :: older)
  | indirect {full e f older} (hindirect : f.isIndirect = true)
      (hrec : Recorded pathLength full f) (hrest : Stacked pathLength full older) :
      Stacked pathLength (full ++ [e]) (f :: older)

lemma Stacked.dropLast {pathLength : Nat} {inFlight : List BranchInFlight} {f : BranchInFlight} :
    ∀ {full : List HistoryEntry}, Stacked pathLength full (inFlight ++ [f]) →
      Stacked pathLength full inFlight := by
  induction inFlight with
  | nil =>
    intro full h
    exact .nil
  | cons _ _ ih =>
    intro full h
    cases h with
    | direct hdirect hrec hrest => exact .direct hdirect hrec (ih hrest)
    | indirect hindirect hrec hrest => exact .indirect hindirect hrec (ih hrest)

/-- The invariant: the path holds enough of a full path that the records take apart. -/
def Recoverable (s : IndirectState) : Prop :=
  ∃ full, Held p.pathLength (indirectInFlight s) full s.history.pathHist ∧
    Stacked p.pathLength full s.inFlight

/-- What must be restored: the direction history and the last branches of the path. -/
def SameHistories (s t : SimpleIndirectPredictor) : Prop :=
  s.ghr = t.ghr ∧ s.pathHist.rtake p.pathLength = t.pathHist.rtake p.pathLength

section

variable {p : SimpleIndirectParams}

open SimpleIndirectPredictor

def extended (path : List HistoryEntry) (indirect : Bool) (e : HistoryEntry) : List HistoryEntry :=
  if indirect then path ++ [e] else path

variable (s : SimpleIndirectPredictor)

lemma meets_record (sn : InstSeqNum) (squash taken : Bool) (target : PCState)
    (history : IndirectHistory) (rand : Nat) :
    Meets (s.record p sn squash taken target history rand)
      (fun t => ∃ e, t.pathHist = extended s.pathHist history.wasIndirect e) (fun _ => True) := by
  have happend : ((s.appendPath sn target history).updateDirectionInfo p taken).pathHist =
      extended s.pathHist history.wasIndirect ⟨history.pcAddr, target.instAddr, sn⟩ := by
    unfold appendPath extended updateDirectionInfo
    split
    · rfl
    · rfl
  unfold record recordTarget
  dsimp only
  split
  · split
    · trivial
    · exact ⟨_, happend⟩
  · exact ⟨_, happend⟩

lemma meets_predict (b : BranchInput) :
    Meets ((indirectPredictor p).predict s b)
      (fun r => r.2.type = b.type ∧ r.2.history.ghr = s.ghr ∧
        r.2.history.wasIndirect = isIndirectNoReturn b.type ∧
        ∃ e, r.1.pathHist = extended s.pathHist (isIndirectNoReturn b.type) e)
      (fun _ => True) := by
  have hupdate : ∀ (target : PCState) (history : Option IndirectHistory),
      (∀ h, history = some h → h.ghr = s.ghr) →
      Meets (s.update p b.seqNum false b.taken target b.type history 0)
        (fun r => r.2.ghr = s.ghr ∧ r.2.wasIndirect = isIndirectNoReturn b.type ∧
          ∃ e, r.1.pathHist = extended s.pathHist (isIndirectNoReturn b.type) e)
        (fun _ => True) := by
    intro target history hghr
    refine (meets_record s _ _ _ _ _ _).bind ?_
    intro t ht
    refine ⟨?_, rfl, ht⟩
    cases history with
    | none => rfl
    | some h => exact hghr h rfl
  unfold indirectPredictor
  dsimp only
  split
  · refine (hupdate _ _ ?_).bind ?_
    · rintro h ⟨⟩
      rfl
    · rintro ⟨t, history⟩ ⟨hghr, hindirect, hpath⟩
      exact ⟨rfl, hghr, hindirect, hpath⟩
  · refine (hupdate _ _ ?_).bind ?_
    · rintro h ⟨⟩
    · rintro ⟨t, history⟩ ⟨hghr, hindirect, hpath⟩
      exact ⟨rfl, hghr, hindirect, hpath⟩

lemma meets_correct (r : IndirectRecord) (c : Correction) :
    Meets ((indirectPredictor p).correct s r c)
      (fun q => q.2.type = r.type ∧ q.2.history.ghr = r.history.ghr ∧
        q.2.history.wasIndirect = isIndirectNoReturn r.type ∧
        ∃ e, q.1.pathHist = extended
          (if isIndirectNoReturn r.type then s.pathHist.dropLast else s.pathHist)
          (isIndirectNoReturn r.type) e)
      (fun _ => True) := by
  unfold indirectPredictor update revert
  dsimp only [Option.getD_some]
  rw [if_pos rfl]
  cases isIndirectNoReturn r.type with
  | false | true =>
    refine Meets.bind ((meets_record _ _ _ _ _ _ _).bind (fun t ht => ?_)) (fun q hq => hq)
    exact ⟨rfl, rfl, rfl, ht⟩

lemma recovers : Recovers (indirectPredictor p)
    (fun s _ => indirectInFlight s < p.speculativePathLength) (SameHistories p)
    (Recoverable p) where
  predict := by
    rintro ⟨s, inFlight⟩ b t r ⟨full, hheld, hstacked⟩ _ hpredict
    obtain ⟨htype, hghr, hwas, e, hpath⟩ := (meets_predict s b).of_ok hpredict
    dsimp only at htype hghr hwas hpath hheld hstacked ⊢
    have hrec : Recorded p.pathLength full ⟨r, s⟩ := ⟨hghr, by rw [hwas, htype], hheld.rtake_eq⟩
    cases hindirect : isIndirectNoReturn b.type with
    | false =>
      have hbranch : BranchInFlight.isIndirect ⟨r, s⟩ = false := by
        rw [BranchInFlight.isIndirect, htype, hindirect]
      rw [hindirect] at hpath
      refine ⟨full, ?_, .direct hbranch hrec hstacked⟩
      unfold indirectInFlight
      rw [hpath, countP_cons_of_neg (by rw [hbranch]; exact Bool.false_ne_true)]
      exact hheld
    | true =>
      have hbranch : BranchInFlight.isIndirect ⟨r, s⟩ = true := by
        rw [BranchInFlight.isIndirect, htype, hindirect]
      rw [hindirect] at hpath
      refine ⟨full ++ [e], ?_, .indirect hbranch hrec hstacked⟩
      unfold indirectInFlight
      rw [hpath, countP_cons_of_pos hbranch]
      exact hheld.push e
  correct := by
    rintro s f older c t r ⟨full, hheld, hstacked⟩ _ hcorrect
    obtain ⟨htype, hghr, hwas, e, hpath⟩ := (meets_correct s f.record c).of_ok hcorrect
    dsimp only at htype hghr hwas hpath hheld hstacked ⊢
    cases hstacked with
    | direct hdirect hrec hrest =>
      have hbranch : BranchInFlight.isIndirect { f with record := r } = false := by
        rw [← hdirect, BranchInFlight.isIndirect, BranchInFlight.isIndirect, htype]
      rw [show isIndirectNoReturn f.record.type = false from hdirect] at hpath
      refine ⟨full, ?_, .direct hbranch ⟨hghr.trans hrec.ghr, ?_, hrec.path⟩ hrest⟩
      · unfold indirectInFlight at hheld ⊢
        rw [countP_cons_of_neg (by rw [hdirect]; exact Bool.false_ne_true)] at hheld
        rw [hpath, countP_cons_of_neg (by rw [hbranch]; exact Bool.false_ne_true)]
        exact hheld
      · rw [hwas, htype]
    | indirect hindirect hrec hrest =>
      rename_i full' e'
      have hbranch : BranchInFlight.isIndirect { f with record := r } = true := by
        rw [← hindirect, BranchInFlight.isIndirect, BranchInFlight.isIndirect, htype]
      rw [show isIndirectNoReturn f.record.type = true from hindirect] at hpath
      refine ⟨full' ++ [e], ?_, .indirect hbranch ⟨hghr.trans hrec.ghr, ?_, hrec.path⟩ hrest⟩
      · unfold indirectInFlight at hheld ⊢
        rw [countP_cons_of_pos hindirect] at hheld
        rw [hpath, countP_cons_of_pos hbranch]
        exact hheld.pop.push e
      · rw [hwas, htype]
  squash := by
    rintro s f older ⟨full, hheld, hstacked⟩
    refine ⟨s.squash f.record.history, rfl, ?_⟩
    unfold indirectInFlight at hheld
    dsimp only at hheld hstacked
    unfold SimpleIndirectPredictor.squash
    cases hstacked with
    | direct hdirect hrec hrest =>
      rw [countP_cons_of_neg (by rw [hdirect]; exact Bool.false_ne_true)] at hheld
      have hwas : f.record.history.wasIndirect = false := hrec.wasIndirect.trans hdirect
      dsimp only
      rw [hwas, if_neg Bool.false_ne_true]
      exact ⟨⟨hrec.ghr, hheld.rtake_eq.trans hrec.path.symm⟩, full, hheld, hrest⟩
    | indirect hindirect hrec hrest =>
      rename_i full' e'
      rw [countP_cons_of_pos hindirect] at hheld
      have hwas : f.record.history.wasIndirect = true := hrec.wasIndirect.trans hindirect
      dsimp only
      rw [hwas, if_pos rfl]
      exact ⟨⟨hrec.ghr, hheld.pop.rtake_eq.trans hrec.path.symm⟩, full', hheld.pop, hrest⟩
  commit := by
    rintro s younger f t ⟨full, hheld, hstacked⟩ hfew hcommit
    obtain rfl := Except.ok.inj hcommit
    refine ⟨full, (hheld.trim hfew).mono ?_, hstacked.dropLast⟩
    unfold indirectInFlight
    rw [countP_append]
    exact Nat.le_add_right _ _

/-- With fewer indirect branches in flight than the speculative path length, squashing down to any
branch in flight brings back the histories from before it was predicted. -/
theorem indirect_histories_recovered {s₀ : SimpleIndirectPredictor}
    {ops : List (Speculation.Op BranchInput Correction)} {s : IndirectState}
    (h : run (step (indirectPredictor p)) ⟨s₀, []⟩ ops = .ok s)
    (hfew : Along (step (indirectPredictor p))
      (fun s _ => indirectInFlight s < p.speculativePathLength) ⟨s₀, []⟩ ops)
    {younger older : List BranchInFlight} {f : BranchInFlight}
    (hsplit : s.inFlight = younger ++ f :: older) :
    ∃ t, run (step (indirectPredictor p)) s (List.replicate (younger.length + 1) .squash) = .ok t ∧
      t.inFlight = older ∧ t.history.ghr = f.before.ghr ∧
      t.history.pathHist.rtake p.pathLength = f.before.pathHist.rtake p.pathLength := by
  have hstart : Recoverable p ⟨s₀, []⟩ :=
    ⟨s₀.pathHist, ⟨suffix_rfl, Nat.min_le_left _ _⟩, .nil⟩
  have hinv := recovers.run hstart hfew h
  obtain ⟨_⟩ := s
  dsimp only at hsplit
  subst hsplit
  obtain ⟨t, hrun, ⟨hghr, hpath⟩, _⟩ := recovers.unwind hinv
  exact ⟨⟨t, older⟩, hrun, rfl, hghr, hpath⟩

end

/-! ## A small predictor -/

def SimpleIndirectParams.small : SimpleIndirectParams := ⟨true, true, 2, 1, 8, 2, 2, 2, 4⟩

def twoBranches : List (Speculation.Op BranchInput Correction) :=
  [.predict ⟨1, 8, .indirectUncond, true, true, .ofAddr 64⟩,
    .predict ⟨2, 64, .directCond, false, false, .ofAddr 68⟩]

/-- Two branches in flight are squashed. -/
theorem indirect_histories_recovered_small :
    ∃ s t : IndirectState,
      run (step (indirectPredictor .small)) ⟨.init, []⟩ twoBranches = .ok s ∧
      s.history.ghr = 2 ∧ s.history.pathHist = [⟨8, 64, 1⟩] ∧
      run (step (indirectPredictor .small)) s (List.replicate 2 .squash) = .ok t ∧
      t.history.ghr = 0 := by
  obtain ⟨s, hs, htest⟩ := exists_of_holdsAt
    (run (step (indirectPredictor .small)) ⟨.init, []⟩ twoBranches)
    (fun s => s.history.ghr == 2 && s.history.pathHist == [⟨8, 64, 1⟩] &&
      s.inFlight.map (fun f => f.before.ghr) == [1, 0]) (by decide +kernel)
  simp only [Bool.and_eq_true, beq_iff_eq] at htest
  obtain ⟨⟨hghr, hpath⟩, hbefore⟩ := htest
  have hfew : Along (step (indirectPredictor .small))
      (fun s _ => indirectInFlight s < SimpleIndirectParams.small.speculativePathLength)
      ⟨.init, []⟩ twoBranches := along_of_test _ (by decide +kernel)
  obtain ⟨g, _, hinFlight, _, hrest⟩ := map_eq_cons_iff.mp hbefore
  obtain ⟨f, older, hrest', hf, _⟩ := map_eq_cons_iff.mp hrest
  have hsplit : s.inFlight = [g] ++ f :: older := by
    rw [hinFlight, hrest']
    rfl
  obtain ⟨t, hrun, _, htghr, _⟩ := indirect_histories_recovered hs hfew hsplit
  exact ⟨s, t, hs, hghr, hpath, hrun, htghr.trans hf⟩

end SimpleIndirect

end BTBFerret
