import BTBFerret.MarkovSuccessors
import BTBFerret.Uniqueness

/-!
# What the Markov table stores

Training counts a stored successor once more, or makes room and appends the new one. Nothing else
changes the successors.
-/

namespace BTBFerret

open List AssociativeCache FallibleRuns Cache

def Op.commits (pc : Addr) : Op → Bool
  | .trainMarkovOnCommit pc' _ => pc' == pc
  | _ => false

namespace State

variable {p : Params} {n n' : Addr → Nat} {l : List (Addr × Nat)}

/-- Few distinct successors, none counted more often than `n` says. -/
structure Successors (p : Params) (n : Addr → Nat) (l : List (Addr × Nat)) : Prop where
  distinct : (l.map Prod.fst).Nodup
  bounded : l.length ≤ p.maxMarkovSuccessors
  counted : ∀ a ∈ l, 0 < a.2 ∧ a.2 ≤ n a.1

lemma Successors.nil : Successors p n [] := ⟨nodup_nil, Nat.zero_le _, fun _ ha => by cases ha⟩

lemma Successors.mono (h : Successors p n l) (hle : ∀ a, n a ≤ n' a) : Successors p n' l :=
  ⟨h.distinct, h.bounded, fun a ha => (h.counted a ha).imp_right (·.trans (hle a.1))⟩

lemma Successors.train (h : Successors p n l) (hmax : 0 < p.maxMarkovSuccessors)
    (hle : ∀ a, n a ≤ n' a) {dest : Addr} (hdest : n dest < n' dest) :
    Meets (trainSuccessors p dest l) (Successors p n') (fun _ => False) := by
  have hold := (h.mono hle).counted
  unfold trainSuccessors
  split
  -- A stored successor is counted once more, in its place.
  · have hl := takeWhile_append_dropWhile (p := fun a : Addr × Nat => a.1 != dest) (l := l)
    have hfirst := head?_dropWhile_not (fun a : Addr × Nat => a.1 != dest) l
    generalize l.takeWhile (fun a : Addr × Nat => a.1 != dest) = before at hl ⊢
    generalize l.dropWhile (fun a : Addr × Nat => a.1 != dest) = rest at hl hfirst ⊢
    subst hl
    cases rest with
    | nil => exact h.mono hle
    | cons a after =>
      obtain ⟨pc, freq⟩ := a
      obtain rfl : pc = dest := by simpa using hfirst
      refine ⟨by simpa using h.distinct, by simpa using h.bounded, ?_⟩
      have hfreq := (h.counted (pc, freq) (by simp)).2
      simp only [forall_mem_append, forall_mem_cons] at hold ⊢
      exact ⟨hold.1, ⟨Nat.succ_pos _, hfreq.trans_lt hdest⟩, hold.2.2⟩
  -- A new one is appended; in a full list it replaces the least frequent one.
  · rename_i hnew
    have hroom := h.bounded
    have hperm := p.sortByFrequency_perm l
    have hlen := hperm.length_eq
    dsimp only
    generalize hkept : (if p.maxMarkovSuccessors ≤ l.length then (p.sortByFrequency l).dropLast
      else l) = kept
    have hsub : (kept.map Prod.fst).Nodup ∧ kept ⊆ l ∧ kept.length < p.maxMarkovSuccessors := by
      subst hkept
      split
      · refine ⟨?_, fun a ha => hperm.subset (dropLast_subset _ ha), by rw [length_dropLast]; omega⟩
        exact ((hperm.map _).nodup_iff.mpr h.distinct).sublist ((dropLast_sublist _).map _)
      · exact ⟨h.distinct, fun _ => id, by omega⟩
    rw [if_pos hsub.2.2]
    refine ⟨?_, by simpa using hsub.2.2, ?_⟩
    · grind
    · simp only [forall_mem_append, forall_mem_singleton]
      exact ⟨fun a ha => hold a (hsub.2.1 ha), Nat.one_pos, by omega⟩

def Stored (n : Addr → Nat) (s : State p) : Prop :=
  ∀ l, Successors p n (s.markov.get l).successors

variable {s s' : State p}

lemma Stored.markovEntry (h : Stored n s) (src : Addr) :
    Meets (s.markovEntry src) (fun r => ∀ l, Successors p n (r.2.get l).successors)
      (fun _ => False) := by
  unfold State.markovEntry
  split
  · exact h
  · have hget := get_findVictim_drop s.markov src
    dsimp only
    rw [insertEntry_eq _ _ _ (by
      rw [hget, if_pos rfl]
      exact p.markov.shape.isValid_invalidate _)]
    intro l
    rw [get_with_repl, get_modify]
    split
    · rw [hget, if_pos rfl]
      exact .nil
    · rename_i hl
      rw [hget, if_neg hl]
      exact h l

lemma Stored.trainMarkovOnCommit (h : Stored n s) (hmax : 0 < p.maxMarkovSuccessors)
    (hle : ∀ a, n a ≤ n' a) {pc : Addr} (hpc : n pc < n' pc) (wasL2Hit : Bool) :
    Meets (s.trainMarkovOnCommit pc wasL2Hit) (Stored n') (fun _ => False) := by
  unfold State.trainMarkovOnCommit
  split
  · exact fun l => (h l).mono hle
  · split
    · exact fun l => (h l).mono hle
    · rename_i src _ rest _
      refine (Stored.markovEntry (s := { s with prevBranches := rest ++ [(pc, wasL2Hit)] }) h
        src).bind ?_
      rintro ⟨l, markov⟩ hentry
      refine ((hentry l).train hmax hle hpc).bind ?_
      intro successors hsuccessors l'
      rw [get_modify]
      split
      · exact hsuccessors
      · exact (hentry l').mono hle

/-- In every reachable state the successors of an entry are distinct and at most
`maxMarkovSuccessors`, each was counted, but no more often than it was committed, and training
with any branch returns. -/
theorem stored_successors_sound (hmax : 0 < p.maxMarkovSuccessors) {bw : PrevBrInfo}
    {ops : List Op} (h : Reached bw ops s) :
    (∀ l, ((s.markov.get l).successors.map Prod.fst).Nodup ∧
      (s.markov.get l).successors.length ≤ p.maxMarkovSuccessors ∧
      ∀ a ∈ (s.markov.get l).successors, 0 < a.2 ∧ a.2 ≤ ops.countP (Op.commits a.1)) ∧
    ∀ pc wasL2Hit, ∃ s', s.step (.trainMarkovOnCommit pc wasL2Hit) = .ok s' := by
  have hstored : Stored (fun a => ops.countP (Op.commits a)) s := by
    refine @run_invariant _ _ _ step (fun _ _ => True) (fun past s =>
      Stored (fun a => past.countP (Op.commits a)) s) ?_ [] _ s ops ?_
      (along_of_forall (fun _ _ => trivial) _ ops) h
    · intro past s o s' hs _ hstep
      have hle : ∀ a, past.countP (Op.commits a) ≤ (past ++ [o]).countP (Op.commits a) :=
        fun a => by rw [countP_append]; omega
      cases o with
      | trainMarkovOnCommit pc wasL2Hit =>
        refine (hs.trainMarkovOnCommit hmax hle ?_ wasL2Hit).of_ok hstep
        simp [countP_append, Op.commits]
      | setBBMap | advance =>
        cases hstep
        exact fun l => (hs l).mono hle
      -- Only training touches the table.
      | _ =>
        intro l
        rw [((step_effect (allows_all s _) hstep).rest rfl).markov l]
        exact (hs l).mono hle
    · intro l
      unfold State.init
      rw [get_init]
      exact .nil
  refine ⟨fun l => ⟨(hstored l).distinct, (hstored l).bounded, (hstored l).counted⟩, ?_⟩
  intro pc wasL2Hit
  have hmeets : Meets (s.trainMarkovOnCommit pc wasL2Hit)
      (Stored fun a => ops.countP (Op.commits a) + 1) (fun _ => False) :=
    hstored.trainMarkovOnCommit hmax (fun _ => Nat.le_succ _) (Nat.lt_succ_self _) wasL2Hit
  exact hmeets.returns.imp fun _ h => h.1

/-- Branch 20 was committed twice and counts twice as a successor of branch 10. -/
theorem stored_successors_sound_small : ∃ (s : State markovOn) (l : Loc markovOn.markov.shape),
    Reached ⟨false, false⟩ (commits [10, 10, 10, 0, 20, 20, 30]) s ∧
      (s.markov.get l).successors = [(20, 2), (30, 1)] ∧
      (s.markov.get l).successors.length ≤ markovOn.maxMarkovSuccessors := by
  obtain ⟨s, hs, htest⟩ := exists_run markovOn (commits [10, 10, 10, 0, 20, 20, 30])
    (fun s => s.storedSuccessors 10 == some [(20, 2), (30, 1)]) (by decide +kernel)
  obtain ⟨l, _, hl⟩ := Option.map_eq_some_iff.mp (eq_of_beq htest)
  exact ⟨s, l, hs, hl, ((stored_successors_sound (by decide) hs).1 l).2.1⟩

end State

end BTBFerret
