import Mathlib.Data.ZMod.Basic
import BTBFerret.FrontEndRuns
import BTBFerret.Speculation

/-!
# The return address stack

`ras.cc` and the parts of `bpred_unit.cc` that work on it: a detected call pushes its return address
when it is predicted, a return pops one. A squash takes back what the branch did, and a correction
does or undoes it according to the real direction. The top moves in the integers modulo the number
of entries. The model is of one thread.
-/

namespace BTBFerret

open FallibleRuns Speculation

namespace ReturnAddr

open Except Int List Option
open StaticInst (direct isReturn)

variable {n : Nat} [NeZero n]

structure AddrStack (n : Nat) where
  addrStack : Fin n → Option PCState
  usedEntries : Nat
  tos : Fin n

/-- What a branch did to the stack; `tos` and `rasEntry` are the top before a pop. -/
structure RASHistory (n : Nat) where
  pushed : Bool
  poped : Bool
  rasEntry : Option PCState
  tos : Fin n

/-- `assert(ras_history == nullptr)` when a branch that is no call or return commits. -/
inductive RASFault where
  | strayHistory

namespace AddrStack

def incrTos (tos : Fin n) : Fin n :=
  if h : tos.val + 1 = n then ⟨0, Nat.pos_of_neZero n⟩ else ⟨tos + 1, by omega⟩

def decrTos (tos : Fin n) : Fin n :=
  if tos.val = 0 then ⟨n - 1, Nat.sub_one_lt (NeZero.ne n)⟩ else ⟨tos - 1, by omega⟩

def init : AddrStack n := ⟨fun _ => none, 0, ⟨0, Nat.pos_of_neZero n⟩⟩

variable (s : AddrStack n)

def top : Option PCState := s.addrStack s.tos

/-- One more entry is used, up to all of them. -/
def countUp (used : Nat) : Nat := if used ≠ n then used + 1 else used

def push (returnAddr : PCState) : AddrStack n where
  tos := incrTos s.tos
  addrStack := Function.update s.addrStack (incrTos s.tos) (some returnAddr)
  usedEntries := countUp (n := n) s.usedEntries

def pop : AddrStack n :=
  { s with usedEntries := s.usedEntries - 1, tos := decrTos s.tos }

def restore (tos : Fin n) (restored : Option PCState) : AddrStack n where
  tos := tos
  addrStack := Function.update s.addrStack tos restored
  usedEntries := countUp (n := n) s.usedEntries

end AddrStack

namespace RASHistory

def make : RASHistory n := ⟨false, false, none, ⟨0, Nat.pos_of_neZero n⟩⟩

end RASHistory

def push (s : AddrStack n) (pc : PCState) (history : Option (RASHistory n)) :
    AddrStack n × RASHistory n :=
  (s.push pc, { history.getD .make with pushed := true })

/-- `ReturnAddrStack::pop`; the address is in the history. -/
def pop (s : AddrStack n) (history : Option (RASHistory n)) : AddrStack n × RASHistory n :=
  (s.pop, { history.getD .make with poped := true, tos := s.tos, rasEntry := s.top })

def squash (s : AddrStack n) (history : Option (RASHistory n)) : AddrStack n :=
  match history with
  | none => s
  | some h =>
    let s := if h.pushed then s.pop else s
    if h.poped then s.restore h.tos h.rasEntry else s

/-- `ReturnAddrStack::commit`; it only counts and deletes the history. -/
def commit (brType : BranchType) (history : Option (RASHistory n)) : Except RASFault Unit :=
  if brType = .return_ ∨ brType = .callDirect ∨ brType = .callIndirect then .ok ()
  else if history.isSome then .error .strayHistory
  else .ok ()

/-! ## The unit -/

/-- The part of a predictor history that concerns the stack. -/
structure BranchRecord (n : Nat) where
  pc : Addr
  inst : StaticInst
  type : BranchType
  predTaken : Bool
  actuallyTaken : Bool
  mispredict : Bool
  rasHistory : Option (RASHistory n)

inductive BranchInput where
  | predicted (inst : StaticInst) (pc : PCState) (ans : Answers) (btbTarget : Option PCState)
  | placeholder (inst : StaticInst) (pc : PCState)

structure Correction where
  taken : Bool
  target : PCState

section

variable (c : FrontEndParams) (buildRetPC : StaticInst → PCState → PCState)

variable (s : AddrStack n)

/-- The calls of `predict`: only detected branches use the stack, whatever their direction. -/
def consult (inst : StaticInst) (pc : PCState) (btbHit : Bool) :
    AddrStack n × Option (RASHistory n) :=
  if c.ras && (btbHit || !c.requiresBTBHit) then
    if inst.isCall then (push s (buildRetPC inst pc) none).map id some
    else if inst.isReturn then (pop s none).map id some
    else (s, none)
  else (s, none)

def predictTaken (ans : Answers) (inst : StaticInst) (btbTarget : Option PCState)
    (history : Option (RASHistory n)) : Bool :=
  let condPred := (BPredUnit.direction c ans inst).1
  let ans := { ans with returnAddr := history.bind RASHistory.rasEntry }
  condPred && (BPredUnit.provideTarget c ans inst condPred btbTarget 0).1 != .noTarget

def predict : BranchInput → AddrStack n × BranchRecord n
  | .predicted inst pc ans btbTarget =>
    let (s, history) := consult c buildRetPC s inst pc btbTarget.isSome
    let taken := predictTaken c ans inst btbTarget history
    (s, ⟨pc.instAddr, inst, getBranchType inst, taken, taken, false, history⟩)
  | .placeholder inst pc =>
    (s, ⟨pc.instAddr, inst, getBranchType inst, false, false, false, none⟩)

/-- The return address of a call that is only now known to be one. -/
def correctedRetPC (r : BranchRecord n) (target : PCState) : PCState :=
  let returnAddr := buildRetPC r.inst target
  if r.inst.size ≠ 0 then .ofAddr (r.pc + BitVec.ofNat 64 r.inst.size) else returnAddr

def catchUp (r : BranchRecord n) (target : PCState) : AddrStack n × Option (RASHistory n) :=
  let (s, history) := if r.type = .return_ then (pop s r.rasHistory).map id some
    else (s, r.rasHistory)
  if r.inst.isCall then (push s (correctedRetPC buildRetPC r target) history).map id some
  else (s, history)

/-- The part of `BPredUnit::squash` that corrects the mispredicted branch. -/
def correct (r : BranchRecord n) (o : Correction) : AddrStack n × BranchRecord n :=
  let r := { r with mispredict := true, actuallyTaken := o.taken }
  if !c.ras then (s, r)
  else if o.taken && r.rasHistory.isNone then
    let (s, history) := catchUp buildRetPC s r o.target
    (s, { r with rasHistory := history })
  else if !o.taken && r.rasHistory.isSome then
    (squash s r.rasHistory, { r with rasHistory := none })
  else (s, r)

def rasPredictor : Predictor (AddrStack n) BranchInput Correction (BranchRecord n) RASFault where
  predict s b := .ok (predict c buildRetPC s b)
  correct s r o := .ok (correct c buildRetPC s r o)
  squash s r := .ok (squash s r.rasHistory)
  commit s r :=
    if c.ras then do
      commit r.type r.rasHistory
      return s
    else .ok s

end

/-! ## Positions -/

/-- The top of the stack as a number modulo the entries. -/
def position (s : AddrStack n) : ZMod n := (s.tos.val : ZMod n)

lemma incrTos_cast (tos : Fin n) : ((AddrStack.incrTos tos).val : ZMod n) = tos.val + 1 := by
  unfold AddrStack.incrTos
  split
  · rename_i hwrap
    rw [Nat.cast_zero, ← Nat.cast_one (R := ZMod n), ← Nat.cast_add, hwrap, ZMod.natCast_self]
  · rw [← Nat.cast_one (R := ZMod n), ← Nat.cast_add]

lemma decrTos_cast (tos : Fin n) : ((AddrStack.decrTos tos).val : ZMod n) = tos.val - 1 := by
  have hpos := Nat.pos_of_neZero n
  unfold AddrStack.decrTos
  split
  · rename_i hzero
    have hsum : ((n - 1 : Nat) : ZMod n) + 1 = 0 := by
      rw [← Nat.cast_one (R := ZMod n), ← Nat.cast_add, Nat.sub_add_cancel hpos, ZMod.natCast_self]
    rw [hzero, Nat.cast_zero]
    exact eq_sub_of_add_eq hsum
  · rename_i hpos'
    rw [Nat.cast_sub (by omega), Nat.cast_one]

omit [NeZero n] in
lemma tos_eq {a b : Fin n} (h : (a.val : ZMod n) = b.val) : a = b := by
  have hmod := (ZMod.natCast_eq_natCast_iff a.val b.val n).mp h
  exact Fin.ext (Nat.ModEq.eq_of_lt_of_lt hmod a.isLt b.isLt)

/-- How far a branch has moved the top. -/
def moved (history : Option (RASHistory n)) : Int :=
  match history with
  | none => 0
  | some h => (if h.pushed then 1 else 0) - (if h.poped then 1 else 0)

variable (inst : StaticInst)

/-- How far a taken branch has to move it. -/
def sign : Int :=
  (if inst.isCall then 1 else 0) - (if inst.isReturn then 1 else 0)

structure Moves (before after : AddrStack n) (history : Option (RASHistory n)) : Prop where
  position : position after = position before + moved history
  tos : ∀ h, history = some h → h.poped = true → h.tos = before.tos

variable {before : AddrStack n} {history : Option (RASHistory n)}

lemma squash_tos {after : AddrStack n} (h : Moves before after history) :
    (squash after history).tos = before.tos := by
  unfold squash
  cases history with
  | none =>
    have hpos := h.position
    rw [moved, cast_zero, add_zero] at hpos
    exact tos_eq hpos
  | some g =>
    dsimp only
    cases hpoped : g.poped with
    | true =>
      rw [if_pos rfl]
      exact h.tos g rfl hpoped
    | false =>
      rw [if_neg Bool.false_ne_true]
      have hpos := h.position
      unfold moved at hpos
      dsimp only at hpos
      rw [hpoped, if_neg Bool.false_ne_true, sub_zero] at hpos
      cases hpushed : g.pushed with
      | true =>
        rw [hpushed, if_pos rfl, cast_one] at hpos
        refine tos_eq ((decrTos_cast after.tos).trans ?_)
        exact sub_eq_of_eq_add hpos
      | false =>
        rw [hpushed, if_neg Bool.false_ne_true, cast_zero, add_zero] at hpos
        exact tos_eq hpos

section

variable {c : FrontEndParams} {buildRetPC : StaticInst → PCState → PCState}

structure Kept (r : BranchRecord n) : Prop where
  type : r.type = getBranchType r.inst
  moved : r.rasHistory.isSome → moved r.rasHistory = sign r.inst
  taken : r.actuallyTaken = true → r.rasHistory = none → sign r.inst = 0

abbrev RasOp := Speculation.Op BranchInput Correction

abbrev RasInFlight (n : Nat) := InFlight (AddrStack n) (BranchRecord n)

abbrev RasState (n : Nat) := Speculation.State (AddrStack n) (BranchRecord n)

inductive Stacked : AddrStack n → List (RasInFlight n) → Prop
  | nil {s} : Stacked s []
  | cons {s f older} (hmoves : Moves f.before s f.record.rasHistory) (hkept : Kept f.record)
      (hrest : Stacked f.before older) : Stacked s (f :: older)

omit [NeZero n] in
lemma Moves.of_tos {after after' : AddrStack n} (h : Moves before after history)
    (htos : after'.tos = after.tos) : Moves before after' history := by
  constructor
  · have hpos := h.position
    unfold ReturnAddr.position at hpos ⊢
    rw [htos]
    exact hpos
  · exact h.tos

variable {s : AddrStack n}

omit [NeZero n] in
lemma Stacked.of_tos {t : AddrStack n} {inFlight : List (RasInFlight n)}
    (h : Stacked s inFlight) (htos : t.tos = s.tos) : Stacked t inFlight := by
  cases h with
  | nil => exact .nil
  | cons hmoves hkept hrest => exact .cons (hmoves.of_tos htos) hkept hrest

omit [NeZero n] in
lemma Stacked.dropLast {inFlight : List (RasInFlight n)}
    {f : RasInFlight n} : ∀ {s : AddrStack n},
    Stacked s (inFlight ++ [f]) → Stacked s inFlight := by
  induction inFlight with
  | nil =>
    intro s h
    exact .nil
  | cons _ _ ih =>
    intro s h
    cases h with
    | cons hmoves hkept hrest => exact .cons hmoves hkept (ih hrest)

variable {inst : StaticInst}

omit [NeZero n] in
/-- A branch that the unit has not detected has no target and falls through. -/
lemma predictTaken_undetected {ans : Answers} {btbTarget : Option PCState}
    (h : (btbTarget.isSome || !c.requiresBTBHit) = false) :
    predictTaken c ans inst btbTarget history = false := by
  obtain ⟨hbtb, hreq⟩ := Bool.or_eq_false_iff.mp h
  have hnone : btbTarget = none := isNone_iff_eq_none.mp (by
    rw [← not_isSome, hbtb]
    rfl)
  subst hnone
  unfold predictTaken BPredUnit.provideTarget
  simp [hreq]

lemma getBranchType_eq_return : getBranchType inst = .return_ ↔ inst.isReturn = true := by
  constructor
  · intro h
    by_contra hnot
    unfold getBranchType at h
    rw [if_neg hnot] at h
    split at h
    · split at h
      · cases h
      · cases h
    · split at h
      · split at h
        · cases h
        · cases h
      · split at h
        · split at h
          · cases h
          · cases h
        · cases h
  · intro h
    exact if_pos h

lemma position_push (s : AddrStack n) (pc : PCState) (history : Option (RASHistory n)) :
    position (push s pc history).1 = position s + 1 := incrTos_cast s.tos

lemma position_pop (s : AddrStack n) (history : Option (RASHistory n)) :
    position (pop s history).1 = position s - 1 := decrTos_cast s.tos

omit [NeZero n] in
lemma moves_none (s : AddrStack n) : Moves s s none := by
  constructor
  · rw [moved, cast_zero, add_zero]
  · rintro h ⟨⟩

lemma consult_moves (c : FrontEndParams) (buildRetPC : StaticInst → PCState → PCState)
    (s : AddrStack n) (pc : PCState) (btbHit : Bool)
    (hone : btbHit = true ∨ c.requiresBTBHit = false →
      ¬ (inst.isCall = true ∧ inst.isReturn = true)) :
    Moves s (consult c buildRetPC s inst pc btbHit).1 (consult c buildRetPC s inst pc btbHit).2 ∧
    ((consult c buildRetPC s inst pc btbHit).2.isSome →
      moved (consult c buildRetPC s inst pc btbHit).2 = sign inst) := by
  unfold consult
  split
  · rename_i hdetected
    simp only [Bool.and_eq_true, Bool.or_eq_true, Bool.not_eq_true'] at hdetected
    split
    · rename_i hcall
      have hret : inst.isReturn = false := by
        cases h : inst.isReturn with
        | false => rfl
        | true => exact absurd ⟨hcall, h⟩ (hone hdetected.2)
      refine ⟨⟨?_, ?_⟩, fun _ => ?_⟩
      · rw [show moved _ = 1 from rfl, cast_one]
        exact position_push s _ none
      · rintro h ⟨⟩ hpoped
        cases hpoped
      · unfold sign
        rw [hcall, hret]
        rfl
    · rename_i hcall
      split
      · rename_i hret
        refine ⟨⟨?_, ?_⟩, fun _ => ?_⟩
        · rw [show moved _ = -1 from rfl, cast_neg, cast_one, ← sub_eq_add_neg]
          exact position_pop s none
        · rintro h ⟨⟩ _
          rfl
        · unfold sign
          rw [if_neg hcall, if_pos hret]
          rfl
      · exact ⟨moves_none s, (by rintro ⟨⟩)⟩
  · exact ⟨moves_none s, (by rintro ⟨⟩)⟩

/-- A predicted branch without a history of the stack needs none or falls through. -/
lemma consult_none (hras : c.ras = true) {pc : PCState} {btbTarget : Option PCState}
    {ans : Answers} (hnone : (consult c buildRetPC s inst pc btbTarget.isSome).2 = none)
    (htaken : predictTaken c ans inst btbTarget
      (consult c buildRetPC s inst pc btbTarget.isSome).2 = true) : sign inst = 0 := by
  cases hdetected : (btbTarget.isSome || !c.requiresBTBHit) with
  | false =>
    rw [predictTaken_undetected hdetected] at htaken
    cases htaken
  | true =>
    unfold consult at hnone
    rw [hras, hdetected, Bool.and_self, if_pos rfl] at hnone
    split at hnone
    · cases hnone
    · rename_i hcall
      split at hnone
      · cases hnone
      · rename_i hret
        unfold sign
        rw [if_neg hcall, if_neg hret]
        rfl

lemma catchUp_moves (buildRetPC : StaticInst → PCState → PCState) {r : BranchRecord n}
    (target : PCState) (hmoves : Moves before s none) (hnone : r.rasHistory = none)
    (htype : r.type = getBranchType r.inst) :
    Moves before (catchUp buildRetPC s r target).1 (catchUp buildRetPC s r target).2 ∧
    moved (catchUp buildRetPC s r target).2 = sign r.inst := by
  have hpos : position s = position before := by
    rw [hmoves.position, moved, cast_zero, add_zero]
  have htos : s.tos = before.tos := tos_eq hpos
  have hreturn : r.type = .return_ ↔ r.inst.isReturn = true := by
    rw [htype]
    exact getBranchType_eq_return
  unfold catchUp sign
  rw [hnone]
  by_cases hret : r.inst.isReturn = true
  · rw [if_pos (hreturn.mpr hret), if_pos hret]
    dsimp only [Prod.map, id]
    by_cases hcall : r.inst.isCall = true
    · rw [if_pos hcall, if_pos hcall]
      refine ⟨⟨?_, ?_⟩, rfl⟩
      · rw [show moved _ = 0 from rfl, cast_zero, add_zero, ← hpos]
        calc
          position _ = position (pop s none).1 + 1 := incrTos_cast _
          _ = position s := by rw [position_pop, sub_add_cancel]
      · rintro h ⟨⟩ _
        exact htos
    · rw [if_neg hcall, if_neg hcall]
      refine ⟨⟨?_, ?_⟩, rfl⟩
      · rw [show moved _ = -1 from rfl, cast_neg, cast_one, ← sub_eq_add_neg, ← hpos]
        exact position_pop s none
      · rintro h ⟨⟩ _
        exact htos
  · rw [if_neg (fun h => hret (hreturn.mp h)), if_neg hret]
    dsimp only [Prod.map, id]
    by_cases hcall : r.inst.isCall = true
    · rw [if_pos hcall, if_pos hcall]
      refine ⟨⟨?_, ?_⟩, rfl⟩
      · rw [show moved _ = 1 from rfl, cast_one, ← hpos]
        exact position_push s _ none
      · rintro h ⟨⟩ hpoped
        cases hpoped
    · rw [if_neg hcall, if_neg hcall]
      exact ⟨hmoves, rfl⟩

section

variable (hras : c.ras = true) {s : AddrStack n} {r : BranchRecord n} {o : Correction}
include hras

lemma correct_caught_up (htaken : o.taken = true) (hnone : r.rasHistory = none) :
    correct c buildRetPC s r o =
      ((catchUp buildRetPC s { r with mispredict := true, actuallyTaken := true } o.target).1,
        { r with
          mispredict := true
          actuallyTaken := true
          rasHistory := (catchUp buildRetPC s
            { r with mispredict := true, actuallyTaken := true } o.target).2 }) := by
  unfold correct
  rw [hras, htaken, hnone]
  rfl

lemma correct_used (htaken : o.taken = true) (hsome : r.rasHistory.isSome = true) :
    correct c buildRetPC s r o = (s, { r with mispredict := true, actuallyTaken := true }) := by
  obtain ⟨h, hh⟩ := isSome_iff_exists.mp hsome
  unfold correct
  rw [hras, htaken, hh]
  rfl

lemma correct_untaken (htaken : o.taken = false) :
    correct c buildRetPC s r o = (squash s r.rasHistory,
      { r with mispredict := true, actuallyTaken := false, rasHistory := none }) := by
  unfold correct
  rw [hras, htaken]
  cases hhistory : r.rasHistory with
  | none => simp [squash]
  | some => rfl

end

/-- No detected branch is a call and a return, and none that is committed as not taken has used the
stack. -/
def UsesWhenTaken (c : FrontEndParams) (s : RasState n) :
    RasOp → Prop
  | .predict (.predicted inst _ _ btbTarget) => btbTarget.isSome = true ∨ c.requiresBTBHit = false →
      ¬ (inst.isCall = true ∧ inst.isReturn = true)
  | .commit => ∀ f ∈ s.inFlight.getLast?, f.record.rasHistory.isSome = true →
      f.record.actuallyTaken = true
  | _ => True

instance decidableUsesWhenTaken (c : FrontEndParams)
    (s : RasState n) :
    (op : RasOp) → Decidable (UsesWhenTaken c s op)
  | .predict (.predicted ..) => inferInstanceAs (Decidable (_ ∨ _ → ¬ (_ ∧ _)))
  | .predict (.placeholder ..) => .isTrue trivial
  | .correct _ => .isTrue trivial
  | .squash => .isTrue trivial
  | .commit => inferInstanceAs (Decidable (∀ f ∈ s.inFlight.getLast?, _))

lemma recovers (hras : c.ras = true) :
    Recovers (rasPredictor c buildRetPC) (UsesWhenTaken c) (fun s t : AddrStack n => s.tos = t.tos)
      (fun s => Stacked s.history s.inFlight) where
  predict := by
    rintro ⟨s, inFlight⟩ b t r hstacked hone hpredict
    obtain ⟨rfl, rfl⟩ := Prod.mk.inj (ok.inj hpredict)
    cases b with
    | predicted _ pc _ btbTarget =>
      obtain ⟨hmoves, hsign⟩ := consult_moves c buildRetPC s pc btbTarget.isSome hone
      refine .cons hmoves ⟨rfl, hsign, ?_⟩ hstacked
      intro htaken hnone
      exact consult_none hras hnone htaken
    | placeholder =>
      exact .cons (moves_none s) ⟨rfl, (by rintro ⟨⟩), (by rintro ⟨⟩)⟩ hstacked
  correct := by
    rintro s f older o t r hstacked _ hcorrect
    have hcorrect : correct c buildRetPC s f.record o = (t, r) := ok.inj hcorrect
    cases hstacked with
    | cons hmoves hkept hrest =>
      cases htaken : o.taken with
      | false =>
        rw [correct_untaken hras htaken] at hcorrect
        obtain ⟨rfl, rfl⟩ := Prod.mk.inj hcorrect
        refine .cons ?_ ⟨hkept.type, (by rintro ⟨⟩), (by rintro ⟨⟩)⟩ hrest
        exact (moves_none f.before).of_tos (squash_tos hmoves)
      | true =>
        cases hsome : f.record.rasHistory.isSome with
        | true =>
          rw [correct_used hras htaken hsome] at hcorrect
          obtain ⟨rfl, rfl⟩ := Prod.mk.inj hcorrect
          refine .cons hmoves ⟨hkept.type, hkept.moved, ?_⟩ hrest
          intro _ hnone
          rw [show f.record.rasHistory = none from hnone] at hsome
          cases hsome
        | false =>
          have hnone : f.record.rasHistory = none := not_isSome_iff_eq_none.mp
            (by rw [hsome]; exact Bool.false_ne_true)
          rw [correct_caught_up hras htaken hnone] at hcorrect
          obtain ⟨rfl, rfl⟩ := Prod.mk.inj hcorrect
          rw [hnone] at hmoves
          obtain ⟨hmoves', hsign⟩ := catchUp_moves buildRetPC o.target hmoves hnone hkept.type
          refine .cons hmoves' ⟨hkept.type, fun _ => hsign, ?_⟩ hrest
          intro _ hstill
          rw [← hsign, show (catchUp buildRetPC s f.record o.target).2 = none from hstill]
          rfl
  squash := by
    rintro s f older hstacked
    cases hstacked with
    | cons hmoves _ hrest =>
      have htos := squash_tos hmoves
      exact ⟨_, rfl, htos, hrest.of_tos htos⟩
  commit := by
    rintro s younger f t hstacked _ hcommit
    have ht : t = s := by
      unfold rasPredictor at hcommit
      dsimp only at hcommit
      rw [if_pos hras] at hcommit
      obtain ⟨_, _, ht⟩ := bind_eq_ok_iff.mp hcommit
      exact (ok.inj ht).symm
    rw [ht]
    exact hstacked.dropLast

/-! ## Balance over committed branches -/

def bottom : AddrStack n → List (RasInFlight n) → AddrStack n
  | s, [] => s
  | _, f :: older => bottom f.before older

omit [NeZero n] in
lemma bottom_concat (younger : List (RasInFlight n))
    (f : RasInFlight n) :
    ∀ s : AddrStack n, bottom s (younger ++ [f]) = f.before := by
  induction younger with
  | nil =>
    intro s
    rfl
  | cons g _ ih =>
    intro s
    exact ih g.before

omit [NeZero n] in
lemma Stacked.bottom {younger : List (RasInFlight n)}
    {f : RasInFlight n} : ∀ {s : AddrStack n},
    Stacked s (younger ++ [f]) →
    position (ReturnAddr.bottom s younger) = position f.before + moved f.record.rasHistory ∧
      Kept f.record := by
  induction younger with
  | nil =>
    intro s h
    cases h with
    | cons hmoves hkept => exact ⟨hmoves.position, hkept⟩
  | cons _ _ ih =>
    intro s h
    cases h with
    | cons _ _ hrest => exact ih hrest

def committed (kind : StaticInst → Bool) (s : RasState n) :
    RasOp → Int
  | .commit =>
    match s.inFlight.getLast? with
    | some f => if f.record.actuallyTaken && kind f.record.inst then 1 else 0
    | none => 0
  | _ => 0

omit [NeZero n] in
/-- A branch that is committed under the condition has moved the stack as its kind demands. -/
lemma Kept.moved_eq {r : BranchRecord n} (h : Kept r)
    (huses : r.rasHistory.isSome = true → r.actuallyTaken = true) :
    ReturnAddr.moved r.rasHistory = (if r.actuallyTaken && r.inst.isCall then 1 else 0) -
      (if r.actuallyTaken && r.inst.isReturn then 1 else 0) := by
  cases hsome : r.rasHistory.isSome with
  | true =>
    rw [h.moved hsome, huses hsome, Bool.true_and, Bool.true_and]
    rfl
  | false =>
    have hnone : r.rasHistory = none :=
      not_isSome_iff_eq_none.mp (by rw [hsome]; exact Bool.false_ne_true)
    cases htaken : r.actuallyTaken with
    | true =>
      rw [Bool.true_and, Bool.true_and, hnone]
      exact (h.taken htaken hnone).symm
    | false =>
      rw [hnone]
      rfl

lemma position_bottom_step (hras : c.ras = true)
    {s t : RasState n}
    {op : RasOp} (hs : Stacked s.history s.inFlight)
    (hcond : UsesWhenTaken c s op) (h : step (rasPredictor c buildRetPC) s op = .ok t) :
    position (bottom t.history t.inFlight) = position (bottom s.history s.inFlight) +
      ((committed StaticInst.isCall s op - committed StaticInst.isReturn s op : Int) : ZMod n) := by
  have hzero : ((0 - 0 : Int) : ZMod n) = 0 := by rw [sub_zero, cast_zero]
  obtain ⟨h₀, inFlight⟩ := s
  cases op with
  | predict =>
    obtain ⟨r, _, ht⟩ := bind_eq_ok_iff.mp h
    obtain rfl := ok.inj ht
    change _ = _ + ((0 - 0 : Int) : ZMod n)
    rw [hzero, add_zero]
    rfl
  | correct =>
    change _ = _ + ((0 - 0 : Int) : ZMod n)
    rw [hzero, add_zero]
    cases inFlight with
    | nil =>
      obtain rfl := ok.inj h
      rfl
    | cons =>
      obtain ⟨r, _, ht⟩ := bind_eq_ok_iff.mp h
      obtain rfl := ok.inj ht
      rfl
  | squash =>
    change _ = _ + ((0 - 0 : Int) : ZMod n)
    rw [hzero, add_zero]
    cases inFlight with
    | nil =>
      obtain rfl := ok.inj h
      rfl
    | cons _ older =>
      obtain ⟨_, hsquash, ht⟩ := bind_eq_ok_iff.mp h
      obtain rfl := ok.inj ht
      obtain ⟨_, hsquash', hsame, _⟩ := (recovers hras).squash hs
      obtain rfl := ok.inj (hsquash.symm.trans hsquash')
      cases older with
      | nil => exact congrArg (fun tos : Fin n => (tos.val : ZMod n)) hsame
      | cons => rfl
  | commit =>
    rcases eq_nil_or_concat inFlight with rfl | ⟨younger, f, rfl⟩
    · obtain rfl := ok.inj h
      change _ = _ + ((0 - 0 : Int) : ZMod n)
      rw [hzero, add_zero]
    · rw [concat_eq_append] at hs hcond h ⊢
      obtain ⟨hmoved, hkept⟩ := Stacked.bottom hs
      have huses := hcond f getLast?_concat
      unfold committed
      unfold Speculation.step at h
      rw [getLast?_concat, dropLast_concat] at h
      rw [getLast?_concat]
      obtain ⟨history, hcommit, ht⟩ := bind_eq_ok_iff.mp h
      obtain rfl := ok.inj ht
      have hsame : history = h₀ := by
        unfold rasPredictor at hcommit
        dsimp only at hcommit
        rw [if_pos hras] at hcommit
        obtain ⟨_, _, ht⟩ := bind_eq_ok_iff.mp hcommit
        exact (ok.inj ht).symm
      subst hsame
      rw [bottom_concat, hmoved, hkept.moved_eq huses]

/-- If only branches committed as taken have used the stack, the top has moved by the committed
taken calls and returns once no branch is in flight. -/
theorem ras_balanced (hras : c.ras = true) {s₀ : AddrStack n}
    {ops : List (RasOp)}
    {s : RasState n}
    (h : run (step (rasPredictor c buildRetPC)) ⟨s₀, []⟩ ops = .ok s)
    (huses : Along (step (rasPredictor c buildRetPC)) (UsesWhenTaken c) ⟨s₀, []⟩ ops)
    (hdone : s.inFlight = []) :
    ∀ top : Int, top = s₀.tos.val +
        tally (step (rasPredictor c buildRetPC)) (committed StaticInst.isCall) ⟨s₀, []⟩ ops -
        tally (step (rasPredictor c buildRetPC)) (committed isReturn) ⟨s₀, []⟩ ops →
      (s.history.tos.val : Int) ≡ top [ZMOD n] ∧
        (0 ≤ top → top < n → (s.history.tos.val : Int) = top) := by
  let Inv (total : Int × Int) (s : RasState n) : Prop :=
    Stacked s.history s.inFlight ∧ position (bottom s.history s.inFlight) =
      position s₀ + ((total.1 - total.2 : Int) : ZMod n)
  have hkeep : ∀ total s op t, Inv total s → UsesWhenTaken c s op →
      step (rasPredictor c buildRetPC) s op = .ok t →
      Inv (total + (committed StaticInst.isCall s op, committed StaticInst.isReturn s op)) t := by
    rintro ⟨calls, returns⟩ s op t ⟨hstacked, hpos⟩ hcond hstep
    refine ⟨(recovers hras).step hstacked hcond hstep, ?_⟩
    rw [position_bottom_step hras hstacked hcond hstep, hpos, add_assoc, ← cast_add]
    congr 2
    dsimp only [Prod.mk_add_mk]
    omega
  have hstart : Inv 0 ⟨s₀, []⟩ := by
    refine ⟨.nil, ?_⟩
    change position s₀ = position s₀ + ((0 - 0 : Int) : ZMod n)
    rw [sub_zero, cast_zero, add_zero]
  obtain ⟨_, hpos⟩ := tally_invariant Inv hkeep hstart huses h
  rw [hdone, tally_prod] at hpos
  intro top htop
  have hmod : (s.history.tos.val : Int) ≡ top [ZMOD n] := by
    refine (ZMod.intCast_eq_intCast_iff _ _ n).mp ?_
    rw [htop, add_sub_assoc, cast_add, cast_natCast, cast_natCast]
    exact hpos
  refine ⟨hmod, ?_⟩
  intro hlow hhigh
  have hlt := s.history.tos.isLt
  rw [ModEq, emod_eq_of_lt (by omega) (by omega), emod_eq_of_lt hlow hhigh] at hmod
  exact hmod

end

/-! ## A stack of four entries -/

def withRAS : FrontEndParams := { FrontEndParams.small 4 with ras := true }

def nextInst (pc : PCState) : PCState :=
  .ofAddr (pc.instAddr + BitVec.ofNat 64 inst.size)

def condCall : StaticInst := { direct true with isCall := true }

def coroutineJump : StaticInst :=
  { direct false with
    isCall := true, isReturn := true, isDirectCtrl := false, isIndirectCtrl := true }

def branchAt (pc : Addr) (taken hit : Bool) : RasOp :=
  .predict (.predicted inst (.ofAddr pc) { Answers.notTaken with cond := (taken, 0) }
    (if hit then some (.ofAddr 64) else none))

def predictAndCommit (taken : Bool) :
    List (RasOp) := [branchAt inst 8 taken true, .commit]

/-- A call that is correctly predicted not taken leaves its return address on the stack, and a
jump that returns and calls only pushes. -/
theorem ras_unbalanced :
    (∃ s : RasState 4,
      run (step (rasPredictor withRAS nextInst)) ⟨.init, []⟩ (predictAndCommit condCall false) =
        .ok s ∧ s.inFlight.length = 0 ∧ s.history.tos.val = 1 ∧
      tally (step (rasPredictor withRAS nextInst)) (committed StaticInst.isCall)
        (⟨.init, []⟩ : RasState 4)
        (predictAndCommit condCall false) = 0) ∧
    ∃ s : RasState 4,
      run (step (rasPredictor withRAS nextInst)) ⟨.init, []⟩ (predictAndCommit coroutineJump true) =
        .ok s ∧ s.inFlight.length = 0 ∧ s.history.tos.val = 1 ∧
      tally (step (rasPredictor withRAS nextInst)) (committed StaticInst.isCall)
        (⟨.init, []⟩ : RasState 4)
        (predictAndCommit coroutineJump true) = 1 ∧
      tally (step (rasPredictor withRAS nextInst)) (committed isReturn)
        (⟨.init, []⟩ : RasState 4)
        (predictAndCommit coroutineJump true) = 1 :=
  ⟨⟨_, rfl, rfl, rfl, rfl⟩, _, rfl, rfl, rfl, rfl, rfl⟩

/-- A call, a return that is corrected to taken, a call that is squashed and one that the BTB does
not know and that is corrected to taken. -/
def callsAndReturns : List (RasOp) :=
  [branchAt condCall 8 true true,
    branchAt { direct true with isReturn := true } 64 false true,
    .correct ⟨true, .ofAddr 12⟩, branchAt condCall 16 true true, .squash,
    branchAt condCall 20 false false, .correct ⟨true, .ofAddr 64⟩, .commit, .commit, .commit]

/-- Two calls and one return are committed. -/
theorem ras_balanced_four :
    ∃ s : RasState 4,
      run (step (rasPredictor withRAS nextInst)) ⟨.init, []⟩ callsAndReturns = .ok s ∧
        (s.history.tos.val : Int) = 1 := by
  obtain ⟨s, hs, hdone⟩ := exists_of_holdsAt
    (run (step (rasPredictor withRAS nextInst))
      (⟨.init, []⟩ : RasState 4) callsAndReturns)
    (fun s => s.inFlight.isEmpty) (by decide +kernel)
  have huses : Along (step (rasPredictor withRAS nextInst)) (UsesWhenTaken withRAS)
      (⟨.init, []⟩ : RasState 4) callsAndReturns :=
    along_of_test (UsesWhenTaken withRAS) (by decide +kernel)
  exact ⟨s, hs, (ras_balanced rfl hs huses (List.isEmpty_iff.mp hdone) 1 (by decide +kernel)).2
    (by decide) (by decide)⟩

end ReturnAddr

end BTBFerret
