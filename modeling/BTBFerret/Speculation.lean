import BTBFerret.FallibleRuns

/-!
# Histories that are updated speculatively

A predictor changes its history at every prediction and keeps a record to undo the change. The
records of the branches in flight form a stack: a squash undoes the youngest, a correction replaces
what it did, a commit drops the oldest. Recovery from any number of squashes is reduced to one
obligation for each of the four operations.
-/

namespace Speculation

open FallibleRuns Except List

variable {σ ι κ ρ ε : Type}

/-- The operations of a predictor on its history `σ`, with inputs `ι` of predictions and `κ` of
corrections, and a record `ρ` for every branch. -/
structure Predictor (σ ι κ ρ ε : Type) where
  predict : σ → ι → Except ε (σ × ρ)
  correct : σ → ρ → κ → Except ε (σ × ρ)
  squash : σ → ρ → Except ε σ
  commit : σ → ρ → Except ε σ

/-- A branch in flight. `before` is for the specification only: the history just before the
branch was predicted. -/
structure InFlight (σ ρ : Type) where
  record : ρ
  before : σ

/-- The branches in flight are ordered with the youngest first. -/
structure State (σ ρ : Type) where
  history : σ
  inFlight : List (InFlight σ ρ)

inductive Op (ι κ : Type) where
  | predict (input : ι)
  | correct (outcome : κ)
  | squash
  | commit

def step (P : Predictor σ ι κ ρ ε) (s : State σ ρ) : Op ι κ → Except ε (State σ ρ)
  | .predict input => do
    let (history, record) ← P.predict s.history input
    return ⟨history, ⟨record, s.history⟩ :: s.inFlight⟩
  | .correct outcome =>
    match s.inFlight with
    | [] => .ok s
    | f :: older => do
      let (history, record) ← P.correct s.history f.record outcome
      return ⟨history, { f with record := record } :: older⟩
  | .squash =>
    match s.inFlight with
    | [] => .ok s
    | f :: older => do
      let history ← P.squash s.history f.record
      return ⟨history, older⟩
  | .commit =>
    match s.inFlight.getLast? with
    | none => .ok s
    | some f => do
      let history ← P.commit s.history f.record
      return ⟨history, s.inFlight.dropLast⟩

/-- An invariant under which a squash brings back what `Same` compares. The condition restricts
predictions, corrections and commits; a squash is always possible. -/
structure Recovers (P : Predictor σ ι κ ρ ε) (cond : State σ ρ → Op ι κ → Prop)
    (Same : σ → σ → Prop) (Inv : State σ ρ → Prop) : Prop where
  predict : ∀ {s input history record}, Inv s → cond s (.predict input) →
    P.predict s.history input = .ok (history, record) →
    Inv ⟨history, ⟨record, s.history⟩ :: s.inFlight⟩
  correct : ∀ {h f older outcome history record}, Inv ⟨h, f :: older⟩ →
    cond ⟨h, f :: older⟩ (.correct outcome) →
    P.correct h f.record outcome = .ok (history, record) →
    Inv ⟨history, { f with record := record } :: older⟩
  squash : ∀ {h f older}, Inv ⟨h, f :: older⟩ →
    ∃ history, P.squash h f.record = .ok history ∧ Same history f.before ∧ Inv ⟨history, older⟩
  commit : ∀ {h younger f history}, Inv ⟨h, younger ++ [f]⟩ → cond ⟨h, younger ++ [f]⟩ .commit →
    P.commit h f.record = .ok history → Inv ⟨history, younger⟩

variable {P : Predictor σ ι κ ρ ε} {cond : State σ ρ → Op ι κ → Prop} {Same : σ → σ → Prop}
  {Inv : State σ ρ → Prop}

section

variable (R : Recovers P cond Same Inv)

include R

lemma Recovers.step {s t : State σ ρ} {op : Op ι κ}
    (hs : Inv s) (hcond : cond s op) (h : step P s op = .ok t) : Inv t := by
  obtain ⟨_, inFlight⟩ := s
  cases op with
  | predict =>
    obtain ⟨_, hpredict, ht⟩ := bind_eq_ok_iff.mp h
    obtain rfl := ok.inj ht
    exact R.predict hs hcond hpredict
  | correct =>
    cases inFlight with
    | nil =>
      obtain rfl := ok.inj h
      exact hs
    | cons =>
      obtain ⟨_, hcorrect, ht⟩ := bind_eq_ok_iff.mp h
      obtain rfl := ok.inj ht
      exact R.correct hs hcond hcorrect
  | squash =>
    cases inFlight with
    | nil =>
      obtain rfl := ok.inj h
      exact hs
    | cons =>
      obtain ⟨_, hsquash, ht⟩ := bind_eq_ok_iff.mp h
      obtain rfl := ok.inj ht
      obtain ⟨_, hsquash', _, hinv⟩ := R.squash hs
      obtain rfl := ok.inj (hsquash.symm.trans hsquash')
      exact hinv
  | commit =>
    rcases eq_nil_or_concat inFlight with rfl | ⟨younger, f, rfl⟩
    · obtain rfl := ok.inj h
      exact hs
    · rw [concat_eq_append] at hs hcond h
      unfold Speculation.step at h
      dsimp only at h
      rw [getLast?_concat, dropLast_concat] at h
      obtain ⟨_, hcommit, ht⟩ := bind_eq_ok_iff.mp h
      obtain rfl := ok.inj ht
      exact R.commit hs hcond hcommit

lemma Recovers.run {s t : State σ ρ} {ops : List (Op ι κ)}
    (hs : Inv s) (hcond : Along (Speculation.step P) cond s ops)
    (h : run (Speculation.step P) s ops = .ok t) : Inv t :=
  run_invariant_state Inv (fun _ _ _ hs hcond hstep => R.step hs hcond hstep) hs hcond h

/-- Squashing the youngest branches returns. The induction is on these branches. -/
lemma Recovers.squashes {younger older : List (InFlight σ ρ)} :
    ∀ {h : σ}, Inv ⟨h, younger ++ older⟩ →
    ∃ history, FallibleRuns.run (Speculation.step P) ⟨h, younger ++ older⟩
        (replicate younger.length .squash) = .ok ⟨history, older⟩ ∧ Inv ⟨history, older⟩ := by
  induction younger with
  | nil =>
    intro h hinv
    exact ⟨h, rfl, hinv⟩
  | cons _ younger ih =>
    intro h hinv
    obtain ⟨next, hsquash, _, hkept⟩ := R.squash hinv
    obtain ⟨history, hrun, hrest⟩ := ih hkept
    refine ⟨history, ?_, hrest⟩
    exact bind_eq_ok_iff.mpr ⟨⟨next, younger ++ older⟩,
      bind_eq_ok_iff.mpr ⟨next, hsquash, rfl⟩, hrun⟩

/-- Squashing the youngest branches down to `f` brings back the history from before `f`. -/
lemma Recovers.unwind {younger older : List (InFlight σ ρ)}
    {f : InFlight σ ρ} {h : σ} (hinv : Inv ⟨h, younger ++ f :: older⟩) :
    ∃ history, FallibleRuns.run (Speculation.step P) ⟨h, younger ++ f :: older⟩
        (replicate (younger.length + 1) .squash) = .ok ⟨history, older⟩ ∧
      Same history f.before ∧ Inv ⟨history, older⟩ := by
  obtain ⟨_, hmid, hreached⟩ := R.squashes hinv
  obtain ⟨history, hsquash, hsame, hkept⟩ := R.squash hreached
  refine ⟨history, ?_, hsame, hkept⟩
  rw [replicate_succ', run_append [.squash] hmid]
  exact bind_eq_ok_iff.mpr ⟨⟨history, older⟩, bind_eq_ok_iff.mpr ⟨history, hsquash, rfl⟩, rfl⟩

end

end Speculation
