import Mathlib.Tactic

/-!
# Fallible computations and their runs

A computation either returns a value or stops with a fault, and `Meets` bounds both at the same
time. A run feeds a list of operations to a fallible step function and stops at the first fault.
Invariants of runs may mention the operations performed so far, and a run may be restricted to steps
that meet a condition on the state before the step.
-/

namespace FallibleRuns

open Except List

universe u v w

variable {ε : Type u} {α β σ : Type v} {ω : Type w}

variable {x : Except ε α} {f : α → Except ε β}

lemma bind_eq_ok_iff {b : β} : (x >>= f) = .ok b ↔ ∃ a, x = .ok a ∧ f a = .ok b := by
  cases x with
  | error | ok => simp [bind, Except.bind]

lemma map_eq_ok_iff {f : α → β} {b : β} : f <$> x = .ok b ↔ ∃ a, x = .ok a ∧ f a = b := by
  cases x with
  | error | ok => simp [Functor.map, Except.map]

/-- The value of `x` is `good`, and so is its fault `bad`, whichever it has. -/
def Meets (x : Except ε α) (good : α → Prop) (bad : ε → Prop) : Prop :=
  match x with
  | .ok a => good a
  | .error e => bad e

variable {a : α} {good : α → Prop} {bad : ε → Prop}

@[simp] lemma meets_ok : Meets (.ok a) good bad ↔ good a := Iff.rfl

@[simp] lemma meets_pure : Meets (pure a) good bad ↔ good a := Iff.rfl

variable {e : ε}

@[simp] lemma meets_error : Meets (.error e) good bad ↔ bad e := Iff.rfl

lemma meets_bind {good : β → Prop} :
    Meets (x >>= f) good bad ↔ Meets x (fun a => Meets (f a) good bad) bad := by
  cases x with
  | error | ok => exact Iff.rfl

lemma meets_map {f : α → β} {good : β → Prop} :
    Meets (f <$> x) good bad ↔ Meets x (fun a => good (f a)) bad := by
  cases x with
  | error | ok => exact Iff.rfl

variable {good' : α → Prop} {bad' : ε → Prop}

lemma Meets.mono (h : Meets x good bad) (hg : ∀ a, good a → good' a) (hb : ∀ e, bad e → bad' e) :
    Meets x good' bad' := by
  cases x with
  | error e => exact hb e h
  | ok a => exact hg a h

/-- Sequencing: the first computation establishes what the second one needs. -/
lemma Meets.bind {mid : α → Prop} {good : β → Prop} (h : Meets x mid bad)
    (hf : ∀ a, mid a → Meets (f a) good bad) : Meets (x >>= f) good bad :=
  meets_bind.mpr (h.mono hf (fun _ he => he))

/-- Sequencing after a computation whose value is known. -/
lemma Meets.bind_of_ok {good : β → Prop} (hx : x = .ok a) (h : Meets (f a) good bad) :
    Meets (x >>= f) good bad := by
  subst hx
  exact h

lemma Meets.of_ok (h : Meets x good bad) (hx : x = .ok a) : good a := by
  subst hx
  exact h

lemma Meets.of_error (h : Meets x good bad) (hx : x = .error e) : bad e := by
  subst hx
  exact h

lemma Meets.any (x : Except ε α) : Meets x (fun _ => True) (fun _ => True) := by
  cases x with
  | error | ok => trivial

/-- Sequencing after a computation of which nothing is asked. -/
lemma Meets.bind_any {good : β → Prop} (h : ∀ a, Meets (f a) good (fun _ => True)) :
    Meets (x >>= f) good (fun _ => True) :=
  (Meets.any x).bind (fun a _ => h a)

lemma Meets.returns (h : Meets x good (fun _ => False)) : ∃ a, x = .ok a ∧ good a := by
  cases x with
  | error => exact False.elim h
  | ok a => exact ⟨a, rfl, h⟩

/-- Evaluating a computation and a test of its value. -/
def holdsAt (x : Except ε α) (test : α → Bool) : Bool :=
  match x with
  | .ok a => test a
  | .error _ => false

lemma exists_of_holdsAt (x : Except ε α) (test : α → Bool) (h : holdsAt x test = true) :
    ∃ a, x = .ok a ∧ test a = true := by
  cases x with
  | error => cases h
  | ok a => exact ⟨a, rfl, h⟩

/-- What the computation fails with, if it does. -/
def faultOf : Except ε α → Option ε
  | .error e => some e
  | .ok _ => none

lemma eq_error_of_faultOf (h : faultOf x = some e) : x = .error e := by
  cases x with
  | error => exact congrArg error (Option.some.inj h)
  | ok => cases h

lemma Meets.and (h : Meets x good bad) (h' : Meets x good' bad') :
    Meets x (fun a => good a ∧ good' a) (fun e => bad e ∧ bad' e) := by
  cases x with
  | error | ok => exact ⟨h, h'⟩

/-- A relation kept by every element of a fallible fold is kept by the fold. -/
lemma meets_foldlM {f : σ → ω → Except ε σ} {R : σ → Prop} {l : List ω}
    (step : ∀ s, ∀ o ∈ l, R s → Meets (f s o) R bad) (s : σ) (h : R s) :
    Meets (l.foldlM f s) R bad := by
  induction l generalizing s with
  | nil => exact h
  | cons o _ ih =>
    rw [foldlM_cons]
    refine (step s o mem_cons_self h).bind ?_
    exact ih (fun s q hq => step s q (mem_cons_of_mem o hq))

/-- Feed the operations to the step function until one of them faults. -/
def run (step : σ → ω → Except ε σ) : σ → List ω → Except ε σ
  | s, [] => .ok s
  | s, o :: rest => step s o >>= fun s' => run step s' rest

/-- Every step of the run starts in a state where its operation meets `cond`. -/
def Along (step : σ → ω → Except ε σ) (cond : σ → ω → Prop) : σ → List ω → Prop
  | _, [] => True
  | s, o :: rest => cond s o ∧ ∀ s', step s o = .ok s' → Along step cond s' rest

variable {step : σ → ω → Except ε σ} {cond : σ → ω → Prop}

lemma along_of_forall (h : ∀ s o, cond s o) (s : σ) (ops : List ω) : Along step cond s ops := by
  induction ops generalizing s with
  | nil => trivial
  | cons o _ ih => exact ⟨h s o, fun s' _ => ih s'⟩

/-- Evaluating a condition along a run. -/
def alongTest (step : σ → ω → Except ε σ) (test : σ → ω → Bool) : σ → List ω → Bool
  | _, [] => true
  | s, o :: rest => test s o && match step s o with
    | .ok s' => alongTest step test s' rest
    | .error _ => true

variable {s : σ} {ops : List ω}

lemma along_of_test (cond : σ → ω → Prop) [∀ s o, Decidable (cond s o)]
    (h : alongTest step (fun s o => decide (cond s o)) s ops = true) : Along step cond s ops := by
  induction ops generalizing s with
  | nil => trivial
  | cons _ _ ih =>
    unfold alongTest at h
    obtain ⟨ho, hrest⟩ := Bool.and_eq_true_iff.mp h
    refine ⟨of_decide_eq_true ho, ?_⟩
    intro s' hs
    rw [hs] at hrest
    exact ih hrest

/-- Conditions that do not depend on the state are conditions on the operations. -/
lemma along_of_mem {cond : ω → Prop} (h : ∀ o ∈ ops, cond o) (s : σ) :
    Along step (fun _ o => cond o) s ops := by
  induction ops generalizing s with
  | nil => trivial
  | cons o _ ih =>
    exact ⟨h o mem_cons_self, fun s' _ => ih (fun q hq => h q (mem_cons_of_mem o hq)) s'⟩

lemma Along.and {cond' : σ → ω → Prop} (h : Along step cond s ops) (h' : Along step cond' s ops) :
    Along step (fun s o => cond s o ∧ cond' s o) s ops := by
  induction ops generalizing s with
  | nil => trivial
  | cons _ _ ih =>
    exact ⟨⟨h.1, h'.1⟩, fun s' hs => ih (h.2 s' hs) (h'.2 s' hs)⟩

/-- The run rule: an invariant that every step meeting `cond` keeps holds at the end of every such
run. -/
lemma run_invariant {step : σ → ω → Except ε σ} {cond : σ → ω → Prop}
    (I : List ω → σ → Prop)
    (keep : ∀ past s o s', I past s → cond s o → step s o = .ok s' → I (past ++ [o]) s')
    {past : List ω} {s s' : σ} {ops : List ω} (start : I past s)
    (along : Along step cond s ops) (h : run step s ops = .ok s') : I (past ++ ops) s' := by
  induction ops generalizing past s with
  | nil =>
    have he : s = s' := ok.inj h
    subst he
    simpa using start
  | cons o _ ih =>
    obtain ⟨mid, hmid, htail⟩ := bind_eq_ok_iff.mp h
    have kept := keep past s o mid start along.1 hmid
    simpa using ih kept (along.2 mid hmid) htail

variable {s' : σ}

lemma run_invariant_state (I : σ → Prop)
    (keep : ∀ s o s', I s → cond s o → step s o = .ok s' → I s') (start : I s)
    (along : Along step cond s ops) (h : run step s ops = .ok s') : I s' :=
  @run_invariant _ _ _ step cond (fun _ => I) (fun _ => keep) [] s s' ops start along h

/-- A run under a condition on its steps also stops only with the faults of the steps. -/
lemma meets_run (I : σ → Prop) (keep : ∀ s o, I s → cond s o → Meets (step s o) I bad)
    (start : I s) (along : Along step cond s ops) : Meets (run step s ops) I bad := by
  induction ops generalizing s with
  | nil => exact start
  | cons o _ ih =>
    have hstep := keep s o start along.1
    unfold run
    cases hs : step s o with
    | error => exact hstep.of_error hs
    | ok mid => exact ih (hstep.of_ok hs) (along.2 mid hs)

lemma run_invariant_always (I : σ → Prop) (keep : ∀ s o s', I s → step s o = .ok s' → I s')
    (start : I s) (h : run step s ops = .ok s') : I s' :=
  run_invariant_state I (fun s o s' hs (_ : True) hstep => keep s o s' hs hstep) start
    (along_of_forall (fun _ _ => trivial) s ops) h

variable {t : σ} {before : List ω}

lemma run_append (after : List ω) (h : run step s before = .ok t) :
    run step s (before ++ after) = run step t after := by
  induction before generalizing s with
  | nil =>
    have he : s = t := ok.inj h
    subst he
    rfl
  | cons _ _ ih =>
    obtain ⟨mid, hmid, htail⟩ := bind_eq_ok_iff.mp h
    rw [cons_append, run, hmid]
    exact ih htail

lemma along_before {after : List ω} (along : Along step cond s (before ++ after)) :
    Along step cond s before := by
  induction before generalizing s with
  | nil => trivial
  | cons _ _ ih => exact ⟨along.1, fun mid hmid => ih (along.2 mid hmid)⟩

lemma along_append {after : List ω} (h : run step s before = .ok t)
    (along : Along step cond s (before ++ after)) : Along step cond t after := by
  induction before generalizing s with
  | nil =>
    have he : s = t := ok.inj h
    subst he
    exact along
  | cons _ _ ih =>
    obtain ⟨mid, hmid, htail⟩ := bind_eq_ok_iff.mp h
    exact ih htail (along.2 mid hmid)

lemma foldlM_eq_run (s : σ) (ops : List ω) : ops.foldlM step s = run step s ops := by
  induction ops generalizing s with
  | nil => rfl
  | cons _ _ ih =>
    rw [foldlM_cons, run]
    congr 1
    funext s'
    exact ih s'

/-! ## Sums along a run -/

/-- The sum of what the steps of a run contribute. -/
def tally {M : Type*} [AddMonoid M] (step : σ → ω → Except ε σ) (amount : σ → ω → M) :
    σ → List ω → M
  | _, [] => 0
  | s, o :: rest => amount s o + match step s o with
    | .ok s' => tally step amount s' rest
    | .error _ => 0

variable {M : Type*}

/-- An invariant may relate the state to the sum so far. -/
lemma tally_invariant [AddMonoid M] {amount : σ → ω → M} (I : M → σ → Prop)
    (keep : ∀ total s o s', I total s → cond s o → step s o = .ok s' → I (total + amount s o) s')
    (start : I 0 s) (along : Along step cond s ops) (h : run step s ops = .ok s') :
    I (tally step amount s ops) s' := by
  have general : ∀ (rest : List ω) (total : M) (t : σ), I total t → Along step cond t rest →
      run step t rest = .ok s' → I (total + tally step amount t rest) s' := by
    intro rest
    induction rest with
    | nil =>
      intro total t ht _ hrun
      have he : t = s' := ok.inj hrun
      subst he
      rw [tally, add_zero]
      exact ht
    | cons o _ ih =>
      intro total t ht halong hrun
      obtain ⟨mid, hmid, htail⟩ := bind_eq_ok_iff.mp hrun
      have hkept := ih _ mid (keep total t o mid ht halong.1 hmid) (halong.2 mid hmid) htail
      rw [add_assoc] at hkept
      rw [tally, hmid]
      exact hkept
  have hall := general ops 0 s start along h
  rwa [zero_add] at hall

/-- What an observer has noted after a run; every step changes the notes. -/
def watched {γ : Type*} (step : σ → ω → Except ε σ) (note : γ → σ → ω → σ → γ) : γ → σ → List ω → γ
  | g, _, [] => g
  | g, s, o :: rest =>
    match step s o with
    | .error _ => g
    | .ok s' => watched step note (note g s o s') s' rest

/-- What every step preserves of the notes and the state holds after the run. -/
lemma watched_invariant {γ : Type*} {note : γ → σ → ω → σ → γ} (I : γ → σ → Prop)
    (keep : ∀ g s o s', o ∈ ops → I g s → step s o = .ok s' → I (note g s o s') s') {g : γ}
    (start : I g s) (h : run step s ops = .ok s') : I (watched step note g s ops) s' := by
  induction ops generalizing g s with
  | nil =>
    obtain rfl : s = s' := ok.inj h
    exact start
  | cons o _ ih =>
    obtain ⟨t, ht, hrest⟩ := bind_eq_ok_iff.mp h
    unfold watched
    rw [ht]
    exact ih (fun g s o s' ho => keep g s o s' (mem_cons_of_mem _ ho))
      (keep g s o t mem_cons_self start ht) hrest

lemma tally_append [AddMonoid M] (amount : σ → ω → M) (after : List ω)
    (h : run step s before = .ok t) : tally step amount s (before ++ after) =
      tally step amount s before + tally step amount t after := by
  induction before generalizing s with
  | nil =>
    have he : s = t := ok.inj h
    subst he
    rw [tally, zero_add, nil_append]
  | cons _ _ ih =>
    obtain ⟨mid, hmid, htail⟩ := bind_eq_ok_iff.mp h
    rw [cons_append, tally, tally, hmid]
    dsimp only
    rw [ih htail, add_assoc]

lemma tally_prod {N : Type*} [AddMonoid M] [AddMonoid N] (f : σ → ω → M) (g : σ → ω → N) (s : σ)
    (ops : List ω) :
    tally step (fun s o => (f s o, g s o)) s ops = (tally step f s ops, tally step g s ops) := by
  induction ops generalizing s with
  | nil => rfl
  | cons o _ ih =>
    simp only [tally]
    cases step s o with
    | ok => simp only [ih, Prod.mk_add_mk]
    | error => simp only [add_zero]

/-! ## Runs that return -/

lemma run_returns {limit : ℕ} (I : ℕ → σ → Prop)
    (keep : ∀ n s o, n < limit → I n s → cond s o → ∃ s', step s o = .ok s' ∧ I (n + 1) s') {n : ℕ}
    (start : I n s) (along : Along step cond s ops) (hlimit : n + ops.length ≤ limit) :
    ∃ s', run step s ops = .ok s' ∧ I (n + ops.length) s' := by
  induction ops generalizing n s with
  | nil => exact ⟨s, rfl, start⟩
  | cons o rest ih =>
    rw [length_cons] at hlimit ⊢
    obtain ⟨mid, hmid, hkept⟩ := keep n s o (by omega) start along.1
    obtain ⟨s', hs', hend⟩ := ih hkept (along.2 mid hmid) (by omega)
    refine ⟨s', bind_eq_ok_iff.mpr ⟨mid, hmid, hs'⟩, ?_⟩
    rwa [show n + (rest.length + 1) = n + 1 + rest.length by omega]

/-! ## Answers of a run -/

section

variable {ρ : Type v} {τ : Type*}

def answers (step : σ → ω → Except ε (ρ × σ)) : σ → List ω → Except ε (List ρ)
  | _, [] => .ok []
  | s, o :: rest => step s o >>= fun r => (r.1 :: ·) <$> answers step r.2 rest

/-- The answers of a specification that always returns. -/
def expected (spec : τ → ω → ρ × τ) : τ → List ω → List ρ
  | _, [] => []
  | t, o :: rest => (spec t o).1 :: expected spec (spec t o).2 rest

/-- A step that answers as specified, under a relation of the number of steps so far, makes the
run answer as specified. -/
lemma answers_eq_expected {step : σ → ω → Except ε (ρ × σ)} {spec : τ → ω → ρ × τ} {limit : ℕ}
    (R : ℕ → σ → τ → Prop) (keep : ∀ n s t o, n < limit → R n s t →
      ∃ s', step s o = .ok ((spec t o).1, s') ∧ R (n + 1) s' (spec t o).2) {n : ℕ} {t : τ}
    (start : R n s t) (hlimit : n + ops.length ≤ limit) :
    answers step s ops = .ok (expected spec t ops) := by
  induction ops generalizing n s t with
  | nil => rfl
  | cons o rest ih =>
    rw [length_cons] at hlimit
    obtain ⟨s', hs', hkept⟩ := keep n s t o (by omega) start
    refine bind_eq_ok_iff.mpr ⟨((spec t o).1, s'), hs', map_eq_ok_iff.mpr ?_⟩
    exact ⟨expected spec (spec t o).2 rest, ih hkept (by omega), rfl⟩

end

end FallibleRuns
