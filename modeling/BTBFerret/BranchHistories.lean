import BTBFerret.FallibleRuns

/-!
# The branch histories of decode and of commit

The predictor of memory dependences is looked up with the branches that decode has recorded and
trained with those that commit has, the youngest first and bounded in number. What a squash takes
back of the first list is popped from its front by rename, the issue stage, the instruction queue
and decode itself.

The window lists the decoded instructions of a thread up to the head of the reorder buffer, the
oldest first. The pops in `squashDueToBranch` and `squashDueToMemOrder` are made on copies and have
no effect.
-/

namespace BTBFerret.Branches

open FallibleRuns List

structure PCState where
  instAddr : Nat
  microPC : Nat
  deriving DecidableEq

structure DynInst where
  seqNum : Nat
  pc : PCState
  isLoad : Bool
  isControl : Bool
  isDirectCtrl : Bool
  isUncondCtrl : Bool
  isIndirectCtrl : Bool
  predTaken : Bool
  predPC : PCState
  branchTarget : PCState
  squashed : Bool
  deriving DecidableEq

structure BranchInfo where
  indirect : Bool
  taken : Bool
  target : Nat
  seqNum : Nat
  pc : Nat
  deriving DecidableEq

abbrev BranchHistory := List BranchInfo

def maxBranchHistory : Nat := 128

namespace DynInst

/-- Direct jumps that are always taken say nothing about the path. -/
def recorded (inst : DynInst) : Bool :=
  inst.isControl && !(inst.isDirectCtrl && inst.isUncondCtrl)

def branchInfo (inst : DynInst) : BranchInfo :=
  ⟨inst.isIndirectCtrl, inst.predTaken, inst.predPC.instAddr, inst.seqNum, inst.pc.instAddr⟩

/-- The target that decode computes is not the one that was predicted. -/
def mistargeted (inst : DynInst) : Bool :=
  inst.isDirectCtrl && (inst.isUncondCtrl || inst.predTaken) &&
    decide (inst.branchTarget ≠ inst.predPC)

end DynInst

def pushBranch (history : BranchHistory) (info : BranchInfo) : BranchHistory :=
  if maxBranchHistory < (info :: history).length then (info :: history).dropLast
  else info :: history

def recordBranch (history : BranchHistory) (inst : DynInst) : BranchHistory :=
  if inst.recorded then pushBranch history inst.branchInfo else history

def revert (squashedNum : Nat) (history : BranchHistory) : BranchHistory :=
  history.dropWhile fun info => decide (squashedNum < info.seqNum)

structure Entry where
  inst : DynInst
  dispatched : Bool
  lookup : Option BranchHistory

def Entry.squash (squashedNum : Nat) (e : Entry) : Entry :=
  if squashedNum < e.inst.seqNum then { e with inst := { e.inst with squashed := true } } else e

/-- A load that has committed, with the list of decode when it was inserted and the list of commit
when it was at the head of the reorder buffer. -/
structure CommittedLoad where
  seqNum : Nat
  lookup : BranchHistory
  atHead : BranchHistory

structure Pipeline where
  decodedBranchHistory : BranchHistory
  committedBranchHistory : BranchHistory
  window : List Entry
  trapPending : Bool
  youngest : Nat
  lastCommitted : Nat
  loads : List CommittedLoad

inductive Fault
  | predictedAsBranch
  deriving DecidableEq

namespace Pipeline

def empty : Pipeline := ⟨[], [], [], false, 0, 0, []⟩

variable (s : Pipeline)

/-- An instruction that decode sends to rename. -/
def sendToRename (inst : DynInst) : Pipeline :=
  { s with window := s.window ++ [⟨inst, false, none⟩], youngest := inst.seqNum }

/-- The loop over the instructions from fetch. A wrong target drops those behind it. -/
def decodeInsts (s : Pipeline) : List DynInst → Except Fault Pipeline
  | [] => .ok s
  | inst :: rest =>
    if inst.squashed then decodeInsts s rest
    else if inst.predTaken && !inst.isControl then .error .predictedAsBranch
    else if inst.mistargeted then
      .ok { s.sendToRename { inst with predPC := inst.branchTarget } with
        decodedBranchHistory := revert inst.seqNum s.decodedBranchHistory }
    else decodeInsts { s.sendToRename inst with
      decodedBranchHistory := recordBranch s.decodedBranchHistory inst } rest

/-- The oldest instruction that was not dispatched goes to the instruction queue. A load is looked
up with the list that decode has now. -/
def dispatchFirst (history : BranchHistory) : List Entry → List Entry
  | [] => []
  | e :: rest =>
    if e.dispatched || e.inst.squashed then e :: dispatchFirst history rest
    else { e with
      dispatched := true
      lookup := if e.inst.isLoad then some history else none } :: rest

def dispatch : Pipeline :=
  { s with window := dispatchFirst s.decodedBranchHistory s.window }

def renameDoSquash (squashedNum : Nat) (history : BranchHistory) : BranchHistory :=
  revert squashedNum history

def iewSquash (squashedNum : Nat) (history : BranchHistory) : BranchHistory :=
  revert squashedNum history

def instQueueDoSquash (squashedNum : Nat) (history : BranchHistory) : BranchHistory :=
  revert squashedNum history

/-- A squash from commit, with the number of the youngest instruction that stays. -/
def squash (s : Pipeline) (squashedNum : Nat) : Pipeline :=
  { s with
    decodedBranchHistory := iewSquash squashedNum
      (instQueueDoSquash squashedNum (renameDoSquash squashedNum s.decodedBranchHistory))
    window := s.window.map (Entry.squash squashedNum)
    trapPending := false }

/-- One round of `commitInsts`. A control instruction is recorded when it commits and also when it
traps. -/
def commitHead (hasFault : Bool) : Pipeline :=
  match s.window with
  | [] => s
  | e :: rest =>
    if s.trapPending then s
    else if e.inst.squashed then { s with window := rest }
    else if !e.dispatched then s
    else if hasFault then
      { s with
        committedBranchHistory := recordBranch s.committedBranchHistory e.inst
        trapPending := true }
    else
      { s with
        committedBranchHistory := recordBranch s.committedBranchHistory e.inst
        window := rest
        lastCommitted := e.inst.seqNum
        loads := s.loads ++ e.lookup.toList.map fun history =>
          ⟨e.inst.seqNum, history, s.committedBranchHistory⟩ }

inductive Op
  | decode (insts : List DynInst)
  | dispatch
  | squash (squashedNum : Nat)
  | commit (hasFault : Bool)

def step : Op → Except Fault Pipeline
  | .decode insts => s.decodeInsts insts
  | .dispatch => .ok s.dispatch
  | .squash squashedNum => .ok (s.squash squashedNum)
  | .commit hasFault => .ok (s.commitHead hasFault)

/-- Fetch numbers the instructions in order, and what has committed is not squashed. -/
def Legal : Op → Prop
  | .decode insts => (insts.map DynInst.seqNum).Pairwise (· < ·) ∧
      ∀ inst ∈ insts, s.youngest < inst.seqNum
  | .dispatch => True
  | .squash squashedNum => s.lastCommitted ≤ squashedNum
  | .commit _ => True

/-- No branch that is to be recorded has its target corrected by decode, and none traps. -/
def Unsurprising : Op → Prop
  | .decode insts => ∀ inst ∈ insts, inst.recorded = true → inst.mistargeted = false
  | .commit true => ∀ e ∈ s.window.head?, e.inst.recorded = false
  | _ => True

instance (s : Pipeline) : DecidablePred s.Legal
  | .decode _ => inferInstanceAs (Decidable (_ ∧ _))
  | .dispatch => inferInstanceAs (Decidable True)
  | .squash _ => inferInstanceAs (Decidable (_ ≤ _))
  | .commit _ => inferInstanceAs (Decidable True)

instance (s : Pipeline) : DecidablePred s.Unsurprising
  | .decode insts => inferInstanceAs (Decidable (∀ inst ∈ insts, _ → _))
  | .dispatch => inferInstanceAs (Decidable True)
  | .squash _ => inferInstanceAs (Decidable True)
  | .commit true => inferInstanceAs (Decidable (∀ e ∈ s.window.head?, _))
  | .commit false => inferInstanceAs (Decidable True)

end Pipeline

/-- The two lists are the same as far as both go. -/
def Agree (a b : BranchHistory) : Prop := a.take b.length = b.take a.length

instance (a b : BranchHistory) : Decidable (Agree a b) := inferInstanceAs (Decidable (_ = _))

def CommittedLoad.older (load : CommittedLoad) : BranchHistory :=
  load.lookup.filter fun info => decide (info.seqNum < load.seqNum)

variable {path : BranchHistory}

lemma agree_of_path {a b : BranchHistory} (ha : a <+: path) (hb : b <+: path) : Agree a b := by
  rw [prefix_iff_eq_take.mp ha, prefix_iff_eq_take.mp hb]
  unfold Agree
  simp only [take_take, length_take]
  congr 1
  omega

/-! ## The path -/

variable {e : Entry}

namespace Entry

/-- What an instruction on the path adds to it. -/
def branch (e : Entry) : Option BranchInfo :=
  if !e.inst.squashed && e.inst.recorded then some e.inst.branchInfo else none

lemma seqNum_of_mem_branch {info : BranchInfo} (h : info ∈ e.branch) :
    info.seqNum = e.inst.seqNum := by
  unfold branch at h
  split at h
  · cases h
    rfl
  · exact absurd h (by simp)

end Entry

/-- The branches of the instructions that are not squashed, onto the path that has committed. -/
def extendPath (path : BranchHistory) : List Entry → BranchHistory
  | [] => path
  | e :: rest => extendPath (e.branch.toList ++ path) rest

def Looked (path : BranchHistory) : List Entry → Prop
  | [] => True
  | e :: rest =>
    (e.inst.squashed = false → ∀ history ∈ e.lookup,
      (history.filter fun info => decide (info.seqNum < e.inst.seqNum)) <+: path) ∧
    Looked (e.branch.toList ++ path) rest

lemma extendPath_append (path : BranchHistory) (w w' : List Entry) :
    extendPath path (w ++ w') = extendPath (extendPath path w) w' := by
  induction w generalizing path with
  | nil => rfl
  | cons _ _ ih => exact ih _

variable {w : List Entry}

lemma looked_append {w' : List Entry} :
    Looked path (w ++ w') ↔ Looked path w ∧ Looked (extendPath path w) w' := by
  induction w generalizing path with
  | nil => exact ⟨fun h => ⟨trivial, h⟩, fun h => h.2⟩
  | cons _ rest ih =>
    change (_ ∧ Looked _ (rest ++ w')) ↔ (_ ∧ _) ∧ _
    rw [ih, and_assoc]
    rfl

/-- Older than everything in the window. -/
def Before (path : BranchHistory) (w : List Entry) : Prop :=
  ∀ info ∈ path, ∀ e ∈ w, info.seqNum < e.inst.seqNum

def Ordered (w : List Entry) : Prop := (w.map fun e => e.inst.seqNum).Pairwise (· < ·)

def Descending (path : BranchHistory) : Prop := path.Pairwise fun a b => b.seqNum < a.seqNum

variable {rest : List Entry}

lemma Ordered.tail (h : Ordered (e :: rest)) : Ordered rest :=
  (pairwise_cons.mp h).2

lemma Ordered.head_lt (h : Ordered (e :: rest)) : ∀ e' ∈ rest, e.inst.seqNum < e'.inst.seqNum :=
  fun _ he' => (pairwise_cons.mp h).1 _ (mem_map_of_mem he')

lemma Before.extend (h : Before path (e :: rest)) (hordered : Ordered (e :: rest)) :
    Before (e.branch.toList ++ path) rest := by
  intro info hinfo e' he'
  rcases mem_append.mp hinfo with hinfo | hinfo
  · rw [Entry.seqNum_of_mem_branch (Option.mem_toList.mp hinfo)]
    exact hordered.head_lt e' he'
  · exact h info hinfo e' (mem_cons_of_mem _ he')

lemma descending_extendPath (hpath : Descending path) (hbefore : Before path w)
    (hordered : Ordered w) : Descending (extendPath path w) := by
  induction w generalizing path with
  | nil => exact hpath
  | cons e _ ih =>
    refine ih ?_ (hbefore.extend hordered) hordered.tail
    refine pairwise_append.mpr ⟨?_, hpath, fun info hinfo info' hinfo' => ?_⟩
    · cases e.branch with
      | none => exact .nil
      | some _ => exact pairwise_singleton _ _
    · rw [Entry.seqNum_of_mem_branch (Option.mem_toList.mp hinfo)]
      exact hbefore info' hinfo' e mem_cons_self

lemma mem_extendPath {info : BranchInfo} (h : info ∈ extendPath path w) :
    info ∈ path ∨ ∃ e ∈ w, info.seqNum = e.inst.seqNum := by
  induction w generalizing path with
  | nil => exact .inl h
  | cons e _ ih =>
    rcases ih h with h | ⟨e', he', heq⟩
    · rcases mem_append.mp h with h | h
      · exact .inr ⟨e, mem_cons_self, Entry.seqNum_of_mem_branch (Option.mem_toList.mp h)⟩
      · exact .inl h
    · exact .inr ⟨e', mem_cons_of_mem _ he', heq⟩

variable {n : Nat}

lemma filter_extendPath (hpath : ∀ info ∈ path, info.seqNum < n)
    (hw : ∀ e ∈ w, n ≤ e.inst.seqNum) :
    ((extendPath path w).filter fun info => decide (info.seqNum < n)) = path := by
  have hgeneral : ∀ path : BranchHistory,
      ((extendPath path w).filter fun info => decide (info.seqNum < n)) =
        path.filter fun info => decide (info.seqNum < n) := by
    induction w with
    | nil => exact fun _ => rfl
    | cons e _ ih =>
      intro path
      rw [extendPath, ih fun e' he' => hw e' (mem_cons_of_mem _ he'), filter_append]
      have hnil : (e.branch.toList.filter fun info => decide (info.seqNum < n)) = [] := by
        refine filter_eq_nil_iff.mpr fun info hinfo => ?_
        rw [Entry.seqNum_of_mem_branch (Option.mem_toList.mp hinfo), decide_eq_true_eq, not_lt]
        exact hw e mem_cons_self
      rw [hnil, nil_append]
  rw [hgeneral]
  exact filter_eq_self.mpr fun info hinfo => decide_eq_true (hpath info hinfo)

/-! ## Squashes -/

variable {history : BranchHistory}

lemma revert_eq_filter (h : Descending history) (n : Nat) :
    revert n history = history.filter fun info => decide (info.seqNum ≤ n) := by
  unfold revert
  induction history with
  | nil => rfl
  | cons info _ ih =>
    obtain ⟨hhead, hrest⟩ := pairwise_cons.mp h
    by_cases hn : n < info.seqNum
    · rw [dropWhile_cons_of_pos (by simpa using hn), ih hrest, filter_cons_of_neg]
      simpa using hn
    · have hle : info.seqNum ≤ n := not_lt.mp hn
      rw [dropWhile_cons_of_neg (by simpa using hle)]
      refine (filter_eq_self.mpr fun info' hinfo' => decide_eq_true ?_).symm
      rcases mem_cons.mp hinfo' with rfl | hinfo'
      · exact hle
      · exact (hhead info' hinfo').le.trans hle

lemma revert_of_le (h : ∀ info ∈ history, info.seqNum ≤ n) : revert n history = history := by
  cases history with
  | nil => rfl
  | cons info =>
    exact dropWhile_cons_of_neg (by simpa using h info mem_cons_self)

lemma Entry.seqNum_squash (n : Nat) (e : Entry) : (e.squash n).inst.seqNum = e.inst.seqNum := by
  unfold Entry.squash
  split
  · rfl
  · rfl

lemma Entry.branch_squash (n : Nat) (e : Entry) : (e.squash n).branch.toList =
    e.branch.toList.filter fun info => decide (info.seqNum ≤ n) := by
  unfold Entry.squash
  by_cases hn : n < e.inst.seqNum
  · rw [if_pos hn]
    refine (filter_eq_nil_iff.mpr fun info hinfo => ?_).symm
    rw [Entry.seqNum_of_mem_branch (Option.mem_toList.mp hinfo), decide_eq_true_eq, not_le]
    exact hn
  · rw [if_neg hn]
    refine (filter_eq_self.mpr fun info hinfo => ?_).symm
    rw [Entry.seqNum_of_mem_branch (Option.mem_toList.mp hinfo)]
    exact decide_eq_true (not_lt.mp hn)

lemma extendPath_squash (n : Nat) (path : BranchHistory) (w : List Entry) :
    extendPath (path.filter fun info => decide (info.seqNum ≤ n)) (w.map (Entry.squash n)) =
      (extendPath path w).filter fun info => decide (info.seqNum ≤ n) := by
  induction w generalizing path with
  | nil => rfl
  | cons _ _ ih =>
    rw [map_cons, extendPath, extendPath, Entry.branch_squash, ← filter_append]
    exact ih _

lemma Looked.squash (n : Nat) (h : Looked path w) :
    Looked (path.filter fun info => decide (info.seqNum ≤ n)) (w.map (Entry.squash n)) := by
  induction w generalizing path with
  | nil => trivial
  | cons e _ ih =>
    rw [map_cons]
    refine ⟨?_, ?_⟩
    · intro hs history hhistory
      unfold Entry.squash at hs hhistory ⊢
      by_cases hn : n < e.inst.seqNum
      · rw [if_pos hn] at hs
        exact absurd hs (by simp)
      · -- The load stays, so everything before it stays.
        rw [if_neg hn] at hs hhistory ⊢
        have hfilter := (h.1 hs history hhistory).filter fun info => decide (info.seqNum ≤ n)
        rw [filter_filter] at hfilter
        refine (filter_congr fun info _ => ?_) ▸ hfilter
        rw [Bool.and_eq_right_iff_imp]
        simp only [decide_eq_true_eq]
        omega
    · rw [Entry.branch_squash, ← filter_append]
      exact ih h.2

/-! ## Dispatch and recording -/

lemma extendPath_dispatchFirst (history path : BranchHistory) (w : List Entry) :
    extendPath path (Pipeline.dispatchFirst history w) = extendPath path w := by
  induction w generalizing path with
  | nil => rfl
  | cons _ _ ih =>
    unfold Pipeline.dispatchFirst
    split
    · exact ih _
    · rfl

lemma map_seqNum_dispatchFirst (history : BranchHistory) (w : List Entry) :
    ((Pipeline.dispatchFirst history w).map fun e => e.inst.seqNum) =
      w.map fun e => e.inst.seqNum := by
  induction w with
  | nil => rfl
  | cons _ _ ih =>
    unfold Pipeline.dispatchFirst
    split
    · rw [map_cons, ih, map_cons]
    · rfl

/-- What decode has recorded before a load when it is dispatched is on the path of the load. -/
lemma Looked.dispatchFirst (hhistory : history <+: extendPath path w) (hbefore : Before path w)
    (hordered : Ordered w) (h : Looked path w) :
    Looked path (Pipeline.dispatchFirst history w) := by
  induction w generalizing path with
  | nil => trivial
  | cons e rest ih =>
    unfold Pipeline.dispatchFirst
    split
    · exact ⟨h.1, ih hhistory (hbefore.extend hordered) hordered.tail h.2⟩
    · refine ⟨fun _ l hl => ?_, h.2⟩
      split at hl
      · cases hl
        have hge : ∀ e' ∈ e :: rest, e.inst.seqNum ≤ e'.inst.seqNum := by
          intro e' he'
          rcases mem_cons.mp he' with rfl | he'
          · exact le_rfl
          · exact (hordered.head_lt e' he').le
        have hpart := hhistory.filter fun info => decide (info.seqNum < e.inst.seqNum)
        rwa [filter_extendPath (fun info hinfo => hbefore info hinfo e mem_cons_self) hge] at hpart
      · exact absurd hl (by simp)

lemma recordBranch_part (h : history <+: path) (e : Entry) (hs : e.inst.squashed = false) :
    recordBranch history e.inst <+: e.branch.toList ++ path := by
  unfold recordBranch Entry.branch
  rw [hs]
  by_cases hrecorded : e.inst.recorded = true
  · rw [if_pos hrecorded, hrecorded]
    have hcons : e.inst.branchInfo :: history <+: e.inst.branchInfo :: path :=
      cons_prefix_cons.mpr ⟨rfl, h⟩
    unfold pushBranch
    split
    · exact (List.dropLast_prefix _).trans hcons
    · exact hcons
  · rw [if_neg hrecorded, Bool.not_eq_true _ |>.mp hrecorded]
    exact h

/-- The list of commit is the youngest part of the path that has committed. -/
lemma recordBranch_take (path : BranchHistory) (e : Entry) (hs : e.inst.squashed = false) :
    recordBranch (path.take maxBranchHistory) e.inst =
      (e.branch.toList ++ path).take maxBranchHistory := by
  unfold recordBranch Entry.branch
  rw [hs]
  by_cases hrecorded : e.inst.recorded = true
  · rw [if_pos hrecorded, hrecorded]
    unfold pushBranch
    change _ = (e.inst.branchInfo :: path).take maxBranchHistory
    split
    · rename_i hlong
      rw [length_cons, length_take] at hlong
      have hmin : min maxBranchHistory path.length = maxBranchHistory := by omega
      rw [dropLast_eq_take, length_cons, length_take, hmin]
      simp [maxBranchHistory, take_take]
    · rename_i hshort
      rw [length_cons, length_take] at hshort
      rw [take_of_length_le (by omega : path.length ≤ maxBranchHistory),
        take_of_length_le (by rw [length_cons]; omega)]
  · rw [if_neg hrecorded, Bool.not_eq_true _ |>.mp hrecorded]
    rfl

/-! ## Runs -/

namespace Pipeline

variable {s : Pipeline} {path : BranchHistory}

structure OnPath (s : Pipeline) (path : BranchHistory) : Prop where
  committed : s.committedBranchHistory = path.take maxBranchHistory
  descending : Descending path
  older : ∀ info ∈ path, info.seqNum ≤ s.lastCommitted
  newer : ∀ e ∈ s.window, s.lastCommitted < e.inst.seqNum ∧ e.inst.seqNum ≤ s.youngest
  bounded : s.lastCommitted ≤ s.youngest
  ordered : Ordered s.window
  decoded : s.decodedBranchHistory <+: extendPath path s.window
  looked : Looked path s.window
  loads : ∀ load ∈ s.loads, Agree load.older load.atHead

lemma OnPath.before (h : OnPath s path) : Before path s.window :=
  fun info hinfo e he => (h.older info hinfo).trans_lt (h.newer e he).1

lemma OnPath.decoded_le (h : OnPath s path) :
    ∀ info ∈ s.decodedBranchHistory, info.seqNum ≤ s.youngest := by
  intro info hinfo
  rcases mem_extendPath (h.decoded.subset hinfo) with hpath | ⟨e, he, heq⟩
  · exact (h.older info hpath).trans h.bounded
  · exact heq ▸ (h.newer e he).2

lemma onPath_empty : OnPath empty [] where
  committed := rfl
  descending := .nil
  older _ h := absurd h not_mem_nil
  newer _ h := absurd h not_mem_nil
  bounded := le_rfl
  ordered := .nil
  decoded := nil_prefix
  looked := trivial
  loads _ h := absurd h not_mem_nil

lemma OnPath.sendToRename (h : OnPath s path) (inst : DynInst) (hnew : s.youngest < inst.seqNum)
    (hhistory : history <+: (⟨inst, false, none⟩ : Entry).branch.toList ++
      extendPath path s.window) :
    OnPath { s.sendToRename inst with decodedBranchHistory := history } path where
  committed := h.committed
  descending := h.descending
  older := h.older
  newer e he := by
    rcases mem_append.mp he with he | he
    · exact ⟨(h.newer e he).1, (h.newer e he).2.trans hnew.le⟩
    · rw [mem_singleton.mp he]
      exact ⟨h.bounded.trans_lt hnew, le_rfl⟩
  bounded := h.bounded.trans hnew.le
  ordered := by
    change Ordered (s.window ++ [⟨inst, false, none⟩])
    unfold Ordered
    rw [map_append]
    refine pairwise_append.mpr ⟨h.ordered, pairwise_singleton _ _, fun n hn m hm => ?_⟩
    obtain ⟨e, he, rfl⟩ := mem_map.mp hn
    rw [mem_singleton.mp hm]
    exact (h.newer e he).2.trans_lt hnew
  decoded := by
    change history <+: extendPath path (s.window ++ [⟨inst, false, none⟩])
    rw [extendPath_append]
    exact hhistory
  looked := looked_append.mpr ⟨h.looked, fun _ _ hl => absurd hl (by simp), trivial⟩
  loads := h.loads

lemma OnPath.decodeInsts {insts : List DynInst} :
    ∀ {s : Pipeline}, OnPath s path → (insts.map DynInst.seqNum).Pairwise (· < ·) →
    (∀ inst ∈ insts, s.youngest < inst.seqNum) →
    (∀ inst ∈ insts, inst.recorded = true → inst.mistargeted = false) →
    Meets (s.decodeInsts insts) (fun s' => OnPath s' path) fun _ => True := by
  induction insts with
  | nil => exact fun h _ _ _ => h
  | cons inst rest ih =>
    intro s h hincreasing hnew hexpected
    obtain ⟨hfirst, hincreasing⟩ := pairwise_cons.mp hincreasing
    have hexpected' := fun i hi => hexpected i (mem_cons_of_mem _ hi)
    have hinst : s.youngest < inst.seqNum := hnew inst mem_cons_self
    unfold Pipeline.decodeInsts
    split
    · exact ih h hincreasing (fun i hi => hnew i (mem_cons_of_mem _ hi)) hexpected'
    · rename_i hs
      have hs : inst.squashed = false := Bool.not_eq_true _ |>.mp hs
      split
      · trivial
      · split
        · rename_i hwrong
          -- Decode drops nothing of the list, and the jump is not one that is recorded.
          have hnot : inst.recorded = false := by
            refine Bool.not_eq_true _ |>.mp fun hrecorded => ?_
            rw [hexpected inst mem_cons_self hrecorded] at hwrong
            exact Bool.false_ne_true hwrong
          rw [revert_of_le fun info hinfo => (h.decoded_le info hinfo).trans hinst.le]
          refine h.sendToRename { inst with predPC := inst.branchTarget } hinst ?_
          have hnone : (⟨{ inst with predPC := inst.branchTarget }, false, none⟩ : Entry).branch =
              none := by
            change (if !inst.squashed && inst.recorded then _ else none) = none
            rw [hnot, Bool.and_false]
            rfl
          rw [hnone]
          exact h.decoded
        · refine ih (h.sendToRename inst hinst (recordBranch_part h.decoded ⟨inst, false, none⟩ hs))
            hincreasing (fun i hi => ?_) hexpected'
          exact hfirst _ (mem_map_of_mem hi)

lemma OnPath.dispatch (h : OnPath s path) : OnPath s.dispatch path where
  committed := h.committed
  descending := h.descending
  older := h.older
  newer e he := by
    have hin : e.inst.seqNum ∈ s.window.map fun e => e.inst.seqNum := by
      rw [← map_seqNum_dispatchFirst s.decodedBranchHistory]
      exact mem_map_of_mem he
    obtain ⟨e', he', heq⟩ := mem_map.mp hin
    exact heq ▸ h.newer e' he'
  bounded := h.bounded
  ordered := by
    unfold Ordered Pipeline.dispatch
    rw [map_seqNum_dispatchFirst]
    exact h.ordered
  decoded := by
    unfold Pipeline.dispatch
    rw [extendPath_dispatchFirst]
    exact h.decoded
  looked := h.looked.dispatchFirst h.decoded h.before h.ordered
  loads := h.loads

lemma OnPath.squash (h : OnPath s path) (hn : s.lastCommitted ≤ n) :
    OnPath (s.squash n) path := by
  have hpath : (path.filter fun info => decide (info.seqNum ≤ n)) = path :=
    filter_eq_self.mpr fun info hinfo => decide_eq_true ((h.older info hinfo).trans hn)
  have hdescending : Descending s.decodedBranchHistory :=
    (descending_extendPath h.descending h.before h.ordered).sublist h.decoded.sublist
  refine
    { h with
      newer := fun e he => ?_
      ordered := ?_
      decoded := ?_
      looked := ?_ }
  · obtain ⟨e', he', rfl⟩ := mem_map.mp he
    rw [Entry.seqNum_squash]
    exact h.newer e' he'
  · unfold Ordered Pipeline.squash
    rw [map_map]
    have hsame : (fun e : Entry => e.inst.seqNum) ∘ Entry.squash n = fun e => e.inst.seqNum :=
      funext (Entry.seqNum_squash n)
    rw [hsame]
    exact h.ordered
  · change revert n (revert n (revert n s.decodedBranchHistory)) <+:
      extendPath path (s.window.map (Entry.squash n))
    have hkept : ∀ info ∈ revert n s.decodedBranchHistory, info.seqNum ≤ n := by
      intro info hinfo
      rw [revert_eq_filter hdescending] at hinfo
      exact of_decide_eq_true (mem_filter.mp hinfo).2
    rw [revert_of_le hkept, revert_of_le hkept, revert_eq_filter hdescending, ← hpath,
      extendPath_squash]
    exact h.decoded.filter _
  · have hlooked := h.looked.squash n
    rwa [hpath] at hlooked

section

variable {e : Entry} {rest : List Entry}

lemma OnPath.retireSquashed (h : OnPath s path) (hwindow : s.window = e :: rest)
    (hs : e.inst.squashed = true) : OnPath { s with window := rest } path := by
  have hbranch : e.branch = none := by
    unfold Entry.branch
    rw [hs]
    rfl
  have hordered := h.ordered
  have hdecoded := h.decoded
  have hlooked := h.looked
  rw [hwindow] at hordered hdecoded hlooked
  rw [extendPath, hbranch] at hdecoded
  have hrest := hlooked.2
  rw [hbranch] at hrest
  exact { h with
    newer := fun e' he' => h.newer e' (hwindow ▸ mem_cons_of_mem _ he')
    ordered := hordered.tail
    decoded := hdecoded
    looked := hrest }

lemma OnPath.commitFirst (h : OnPath s path) (hwindow : s.window = e :: rest)
    (hs : e.inst.squashed = false) : OnPath { s with
      committedBranchHistory := recordBranch s.committedBranchHistory e.inst
      window := rest
      lastCommitted := e.inst.seqNum
      loads := s.loads ++ e.lookup.toList.map fun history =>
        ⟨e.inst.seqNum, history, s.committedBranchHistory⟩ } (e.branch.toList ++ path) := by
  have hhead : e ∈ s.window := hwindow ▸ mem_cons_self
  have hordered := h.ordered
  have hdecoded := h.decoded
  have hlooked := h.looked
  rw [hwindow] at hordered hdecoded hlooked
  refine
    { committed := ?_
      descending := ?_
      older := fun info hinfo => ?_
      newer := fun e' he' => ?_
      bounded := (h.newer e hhead).2
      ordered := hordered.tail
      decoded := hdecoded
      looked := hlooked.2
      loads := fun load hload => ?_ }
  · rw [h.committed, recordBranch_take path e hs]
  · have hone : Before path [e] := by
      intro info hinfo e' he'
      rw [mem_singleton.mp he']
      exact h.before info hinfo e hhead
    exact descending_extendPath h.descending hone (pairwise_singleton _ _)
  · rcases mem_append.mp hinfo with hinfo | hinfo
    · exact (Entry.seqNum_of_mem_branch (Option.mem_toList.mp hinfo)).le
    · exact (h.before info hinfo e hhead).le
  · exact ⟨hordered.head_lt e' he', (h.newer e' (hwindow ▸ mem_cons_of_mem _ he')).2⟩
  · rcases mem_append.mp hload with hload | hload
    · exact h.loads load hload
    · obtain ⟨history, hhistory, rfl⟩ := mem_map.mp hload
      refine agree_of_path (hlooked.1 hs history (Option.mem_toList.mp hhistory)) ?_
      rw [h.committed]
      exact take_prefix _ _

end

lemma OnPath.commitHead (h : OnPath s path) {hasFault : Bool}
    (hfault : s.Unsurprising (.commit hasFault)) :
    ∃ path', OnPath (s.commitHead hasFault) path' := by
  unfold Pipeline.commitHead
  split
  · exact ⟨path, h⟩
  · rename_i e rest hwindow
    split
    · exact ⟨path, h⟩
    · split
      · rename_i hs
        exact ⟨path, h.retireSquashed hwindow hs⟩
      · rename_i hs
        split
        · exact ⟨path, h⟩
        · split
          · rename_i hf
            subst hf
            have hnot : e.inst.recorded = false := hfault e (by rw [hwindow]; rfl)
            refine ⟨path, { h with committed := ?_ }⟩
            unfold recordBranch
            rw [hnot]
            exact h.committed
          · exact ⟨_, h.commitFirst hwindow (Bool.not_eq_true _ |>.mp hs)⟩

lemma OnPath.step (h : OnPath s path) {op : Op} (hlegal : s.Legal op)
    (hop : s.Unsurprising op) :
    Meets (s.step op) (fun s' => ∃ path', OnPath s' path') fun _ => True := by
  cases op with
  | decode =>
    exact (h.decodeInsts hlegal.1 hlegal.2 hop).mono (fun _ hs => ⟨path, hs⟩) fun _ _ => trivial
  | dispatch => exact ⟨path, h.dispatch⟩
  | squash => exact ⟨path, h.squash hlegal⟩
  | commit => exact h.commitHead hop

/-- A load finds at the head the history it was looked up with, less what was younger than the load,
as far as both go. -/
theorem branch_histories_agree (ops : List Op) (s : Pipeline)
    (hops : Along step (fun s op => s.Legal op ∧ s.Unsurprising op) empty ops)
    (hrun : run step empty ops = .ok s) : ∀ load ∈ s.loads, Agree load.older load.atHead := by
  have hpath : Meets (run step empty ops) (fun s => ∃ path, OnPath s path) fun _ => True :=
    meets_run (fun s => ∃ path, OnPath s path)
      (fun s op ⟨_, h⟩ hop => h.step hop.1 hop.2) ⟨[], onPath_empty⟩ hops
  obtain ⟨path, h⟩ := hpath.of_ok hrun
  exact h.loads

def plainInst (seqNum : Nat) : DynInst :=
  ⟨seqNum, ⟨4 * seqNum, 0⟩, false, false, false, false, false, false, ⟨4 * seqNum + 4, 0⟩,
    ⟨0, 0⟩, false⟩

def loadInst (seqNum : Nat) : DynInst := { plainInst seqNum with isLoad := true }

def takenBranch (seqNum predicted target : Nat) : DynInst :=
  { plainInst seqNum with
    isControl := true
    isDirectCtrl := true
    predTaken := true
    predPC := ⟨predicted, 0⟩
    branchTarget := ⟨target, 0⟩ }

/-- Three branches, of which the last is on a wrong path that the second one opened. -/
def recoveredRun : List Op :=
  [.decode [takenBranch 1 40 40, takenBranch 2 80 80, takenBranch 3 120 120],
    .dispatch, .squash 2, .decode [loadInst 4], .dispatch, .dispatch, .commit false, .commit false,
    .commit false, .commit false]

/-- The load follows a squash of the third branch. -/
theorem branch_histories_agree_recovered :
    Along step (fun s op => s.Legal op ∧ s.Unsurprising op) empty recoveredRun ∧
      ∃ s, run step empty recoveredRun = .ok s ∧ s.loads ≠ [] ∧
        ∀ load ∈ s.loads, Agree load.older load.atHead := by
  have hops : Along step (fun s op => s.Legal op ∧ s.Unsurprising op) empty recoveredRun :=
    along_of_test _ (by decide +kernel)
  obtain ⟨s, hrun, hloads⟩ := exists_of_holdsAt (run step empty recoveredRun)
    (fun s => !s.loads.isEmpty) (by decide +kernel)
  refine ⟨hops, s, hrun, ?_, branch_histories_agree recoveredRun s hops hrun⟩
  simpa using hloads

def correctedRun : List Op :=
  [.decode [takenBranch 1 40 40, takenBranch 2 80 84], .dispatch, .dispatch,
    .decode [loadInst 3], .dispatch, .commit false, .commit false, .commit false]

/-- Decode corrects the target of the second branch, which the load's history then misses. -/
theorem corrected_branch_not_recorded : Along step Legal empty correctedRun ∧
    ∃ s, run step empty correctedRun = .ok s ∧ ∃ load ∈ s.loads, ¬Agree load.older load.atHead := by
  refine ⟨along_of_test _ (by decide +kernel), ?_⟩
  obtain ⟨s, hrun, hs⟩ := exists_of_holdsAt (run step empty correctedRun)
    (fun s => decide (∃ load ∈ s.loads, ¬Agree load.older load.atHead)) (by decide +kernel)
  exact ⟨s, hrun, of_decide_eq_true hs⟩

/-- A branch that traps is taken back by decode and kept by commit. -/
example : ∃ s, run step empty
      [.decode [takenBranch 1 40 40, takenBranch 2 80 80], .dispatch, .dispatch, .commit false,
        .commit true, .squash 1, .decode [loadInst 3], .dispatch, .commit false, .commit false] =
        .ok s ∧
      (decide (∃ load ∈ s.loads, ¬Agree load.older load.atHead)) = true :=
  exists_of_holdsAt _ (fun s : Pipeline => decide (∃ load ∈ s.loads, ¬Agree load.older load.atHead))
    (by decide +kernel)

end Pipeline

end BTBFerret.Branches
