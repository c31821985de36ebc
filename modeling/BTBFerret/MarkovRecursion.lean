import BTBFerret.PrefetchEffects

/-!
# The calls of the Markov prefetcher

`prefetchMarkovSuccessor` calls itself for a branch that it has prefetched, and the successors may
form a cycle. The functions here run as it does and also list the calls of `enqueuePrefetch`, as
pairs of a branch and the successor that is prefetched for it.
-/

namespace BTBFerret

open AssociativeCache FallibleRuns

/-- The calls that were made, also by a run that fails, and what is returned. -/
abbrev Traced (α : Type) := List (Addr × Addr) × Except Fault α

def Traced.andThen {α β : Type} (x : Traced α) (f : α → Traced β) : Traced β :=
  match x.2 with
  | .error fault => (x.1, .error fault)
  | .ok a => (x.1 ++ (f a).1, (f a).2)

namespace State

variable {p : Params}

def chaseSuccessorTraced (chase : Option (State p → Addr → Cycles → BranchType → Traced (State p)))
    (s : State p) (successor : Addr) (src : BTBEntry) (arrival : Cycles) : Traced (State p) :=
  match chase with
  | none => ([], .ok s)
  | some chase => Traced.andThen ([], branchTypeOf src.inst) fun nextTriggerType =>
    chase s successor (if s.curCycle < arrival then arrival - s.curCycle else 0) nextTriggerType

def prefetchSuccessorsTraced
    (chase : Option (State p → Addr → Cycles → BranchType → Traced (State p))) (pc : Addr)
    (tid : ThreadID) (toL1 : Bool) (numSuccessors : Nat) (triggeredByPBHit : Bool)
    (triggerType : BranchType) : List (Addr × Nat) → Nat → Cycles → State p → Traced (State p)
  | [], _, _, s => ([], .ok s)
  | (successor, _) :: rest, prefetched, arrival, s =>
    let continue_ := prefetchSuccessorsTraced chase pc tid toL1 numSuccessors triggeredByPBHit
      triggerType rest
    if numSuccessors ≤ prefetched then ([], .ok s)
    else if successor = 0 then continue_ prefetched arrival s
    else
      let (s, inL1) := s.l1ApproxContains successor tid
      if inL1 then continue_ prefetched (arrival + 1) s
      else match s.l2btb.findEntry ⟨successor, tid⟩ with
      | none => continue_ prefetched arrival (s.count .pfL2LookupMiss)
      | some l =>
        let src := s.l2btb.get l
        let s := s.count .pfL2LookupHit
        let (s, inPB) := if toL1 then (s, false) else s.pbApproxContains successor tid
        if inPB then continue_ prefetched (arrival + 1) s
        else
          Traced.andThen ([(pc, successor)],
            s.enqueuePrefetch successor tid src arrival triggeredByPBHit 0 false triggerType false)
          fun s => (chaseSuccessorTraced chase s successor src arrival).andThen fun s =>
            continue_ (prefetched + 1) (arrival + 1) s

def prefetchMarkovSuccessorTraced (toL1 : Bool) (numSuccessors : Nat) (triggeredByPBHit : Bool)
    (tid : ThreadID) : Nat → State p → Addr → Cycles → BranchType → Traced (State p)
  | depth, s, pc, baseLatency, triggerType =>
    match s.markov.findEntry pc with
    | none => ([], .ok s)
    | some l =>
      let s := { s with markov := s.markov.accessEntry s.curTick l }
      let successors := (s.markov.get l).successors
      let s := s.count .mkHits
      let arrival := s.curCycle + p.l2Latency + baseLatency
      match depth with
      | d + 1 =>
        prefetchSuccessorsTraced
          (if 2 < d + 1 then
            some (prefetchMarkovSuccessorTraced toL1 numSuccessors triggeredByPBHit tid d)
          else none)
          pc tid toL1 numSuccessors triggeredByPBHit triggerType successors 0 arrival s
      | 0 =>
        prefetchSuccessorsTraced none pc tid toL1 numSuccessors triggeredByPBHit triggerType
          successors 0 arrival s

/-! ## The same runs -/

lemma andThen_result {α β : Type} (x : Traced α) (f : α → Traced β) :
    (x.andThen f).2 = x.2 >>= fun a => (f a).2 := by
  obtain ⟨calls, _ | a⟩ := x <;> rfl

section

variable {chase : Option (State p → Addr → Cycles → BranchType → Traced (State p))} {tid : ThreadID}
  {toL1 triggeredByPBHit : Bool} {triggerType : BranchType}

/-- The function without the list of its calls. -/
def untraced (f : State p → Addr → Cycles → BranchType → Traced (State p)) (s : State p) (pc : Addr)
    (baseLatency : Cycles) (triggerType : BranchType) : Except Fault (State p) :=
  (f s pc baseLatency triggerType).2

lemma chaseSuccessorTraced_result (s : State p) (successor : Addr) (src : BTBEntry)
    (arrival : Cycles) : (chaseSuccessorTraced chase s successor src arrival).2 =
      chaseSuccessor (chase.map untraced) s successor src arrival := by
  cases chase with
  | none => rfl
  | some => exact andThen_result _ _

lemma prefetchSuccessorsTraced_result (pc : Addr) (numSuccessors : Nat)
    (successors : List (Addr × Nat)) : ∀ (prefetched : Nat) (arrival : Cycles) (s : State p),
    (prefetchSuccessorsTraced chase pc tid toL1 numSuccessors triggeredByPBHit triggerType
      successors prefetched arrival s).2 = prefetchSuccessors (chase.map untraced) tid toL1
        numSuccessors triggeredByPBHit triggerType successors prefetched arrival s := by
  induction successors with
  | nil => exact fun _ _ _ => rfl
  | cons a rest ih =>
    intro prefetched arrival s
    obtain ⟨successor, freq⟩ := a
    simp only [prefetchSuccessorsTraced, prefetchSuccessors, apply_ite Prod.snd, ih]
    congr 3
    cases (s.l1ApproxContains successor tid).1.l2btb.findEntry ⟨successor, tid⟩ with
    | none => exact ih _ _ _
    | some =>
      simp only [apply_ite Prod.snd, ih, andThen_result, chaseSuccessorTraced_result]

lemma prefetchMarkovSuccessorTraced_result (numSuccessors depth : Nat) :
    untraced (prefetchMarkovSuccessorTraced
      (p := p) toL1 numSuccessors triggeredByPBHit tid depth) =
      prefetchMarkovSuccessor toL1 numSuccessors triggeredByPBHit tid depth := by
  induction depth with
  | zero =>
    funext s pc baseLatency triggerType
    unfold untraced prefetchMarkovSuccessorTraced prefetchMarkovSuccessor
    cases s.markov.findEntry pc with
    | none => rfl
    | some => exact prefetchSuccessorsTraced_result _ _ _ _ _ _
  | succ d ih =>
    funext s pc baseLatency triggerType
    unfold untraced prefetchMarkovSuccessorTraced prefetchMarkovSuccessor
    cases s.markov.findEntry pc with
    | none => rfl
    | some =>
      dsimp only
      rw [prefetchSuccessorsTraced_result, apply_ite (Option.map untraced), Option.map_some, ih]
      rfl

/-! ## The bound -/

def Succeeds (s : State p) (pc successor : Addr) : Prop :=
  ∃ l, s.markov.findEntry pc = some l ∧ ∃ a ∈ (s.markov.get l).successors, a.1 = successor

/-- The first call is for a successor of the branch, and each further one for a successor of the
branch that was prefetched before. -/
def Follows (s : State p) : Addr → List (Addr × Addr) → Prop
  | _, [] => True
  | pc, (trigger, successor) :: rest =>
    trigger = pc ∧ s.Succeeds pc successor ∧ s.Follows successor rest

/-- At most `n` calls, along the successors in the table of `s`. -/
structure Bounded (s : State p) (pc : Addr) (n : Nat) (calls : List (Addr × Addr)) : Prop where
  length : calls.length ≤ n
  follows : s.Follows pc calls

variable {s : State p} {pc : Addr} {n : Nat}

lemma bounded_nil (s : State p) (pc : Addr) (n : Nat) : Bounded s pc n [] :=
  ⟨Nat.zero_le n, trivial⟩

lemma calls_andThen {α β : Type} (x : Traced α) (f : α → Traced β) :
    (x.andThen f).1 = x.1 ∨ ∃ a, x.2 = .ok a ∧ (x.andThen f).1 = x.1 ++ (f a).1 := by
  obtain ⟨calls, _ | a⟩ := x
  · exact .inl rfl
  · exact .inr ⟨a, rfl, rfl⟩

/-- The states on the way differ in nothing that the table stores. -/
abbrev Hunted (s t : State p) : Prop := Hunting (fun _ => True) (fun _ => True) s t

lemma bounded_chaseSuccessor (hchase : ∀ f, chase = some f → ∀ t successor latency type,
      Hunted s t → Bounded s successor n (f t successor latency type).1) {t : State p}
    (ht : Hunted s t) (successor : Addr) (src : BTBEntry) (arrival : Cycles) :
    Bounded s successor n (chaseSuccessorTraced chase t successor src arrival).1 := by
  cases chase with
  | none => exact bounded_nil s successor n
  | some f =>
    rcases calls_andThen ([], branchTypeOf src.inst) (f t successor _) with h | ⟨type, -, h⟩
    · exact h ▸ bounded_nil s successor n
    · exact h ▸ hchase f rfl t successor _ type ht

lemma calls_of_done (rest : List (Addr × Nat)) (arrival : Cycles) (t : State p) :
    (prefetchSuccessorsTraced chase pc tid toL1 1 triggeredByPBHit triggerType rest 1 arrival t).1 =
      [] := by
  cases rest with
  | nil => rfl
  | cons =>
    unfold prefetchSuccessorsTraced
    rfl

lemma bounded_prefetchSuccessors
    (hchase : ∀ f, chase = some f → ∀ t successor latency type, Hunted s t →
      Bounded s successor n (f t successor latency type).1) (successors : List (Addr × Nat))
    (hstored : ∀ a ∈ successors, s.Succeeds pc a.1) : ∀ (arrival : Cycles) {t : State p},
    Hunted s t → Bounded s pc (n + 1) (prefetchSuccessorsTraced chase pc tid toL1 1
      triggeredByPBHit triggerType successors 0 arrival t).1 := by
  induction successors with
  | nil => exact fun _ _ _ => bounded_nil s pc _
  | cons a rest ih =>
    intro arrival t ht
    obtain ⟨hfirst, hrest⟩ := List.forall_mem_cons.mp hstored
    have next := ih hrest
    obtain ⟨successor, freq⟩ := a
    unfold prefetchSuccessorsTraced
    rw [if_neg (by decide)]
    split
    · exact next _ ht
    · have hL1 := (l1ApproxContains_spec t successor tid).1
      generalize t.l1ApproxContains successor tid = q at hL1 ⊢
      dsimp only
      split
      · exact next _ (ht.trans hL1.hunting)
      · split
        · exact next _ (ht.trans (hL1.trans (counted_count _ _ rfl rfl)).hunting)
        · rename_i l hl
          have hPB := counted_bufferCheck q.1 toL1 successor tid
          generalize (if toL1 then _ else _) = r at hPB ⊢
          have hready := ht.trans (hL1.trans hPB).hunting
          split
          · exact next _ hready
          · obtain ⟨u, hu, hfill⟩ := enqueuePrefetch_successor (F := fun _ => True)
              (T := fun _ => True) hPB hl trivial arrival triggeredByPBHit triggerType
            rw [hu]
            have hrest : ∀ x : Traced (State p),
              (x.andThen fun v => prefetchSuccessorsTraced chase pc
                tid toL1 1 triggeredByPBHit triggerType rest (0 + 1) (arrival + 1) v).1 = x.1 := by
              intro x
              rcases calls_andThen x _ with h | ⟨v, -, h⟩
              · exact h
              · rw [h, calls_of_done, List.append_nil]
            have hcalls := bounded_chaseSuccessor hchase (hready.trans hfill) successor
              (q.1.l2btb.get l) arrival
            rw [← hrest] at hcalls
            exact ⟨Nat.succ_le_succ hcalls.length, rfl, hfirst, hcalls.follows⟩

lemma bounded_hit {t : State p} (ht : Hunted s t) {l : Loc p.markov.shape}
    (hl : t.markov.findEntry pc = some l)
    (hchase : ∀ f, chase = some f → ∀ t successor latency type, Hunted s t →
      Bounded s successor n (f t successor latency type).1) (arrival : Cycles) :
    Bounded s pc (n + 1) (prefetchSuccessorsTraced chase pc tid toL1 1 triggeredByPBHit triggerType
      (t.markov.get l).successors 0 arrival
      ({ t with markov := t.markov.accessEntry t.curTick l }.count .mkHits)).1 := by
  have hsame := ht.prefetching.prefetched.rest.markov
  have hfound : s.markov.findEntry pc = some l := by
    rw [← hl]
    exact (Cache.findEntry_congr fun l' _ => by rw [hsame]).symm
  refine bounded_prefetchSuccessors hchase _ (fun a ha => ⟨l, hfound, a, ?_, rfl⟩) arrival
    (ht.trans (hunting_touchMarkov t l))
  rw [← hsame]
  exact ha

/-- The recursion goes down by one level with each call. -/
lemma bounded_prefetchMarkovSuccessor (depth : Nat) :
    ∀ {t : State p} {pc : Addr} {baseLatency : Cycles} {triggerType : BranchType}, Hunted s t →
    Bounded s pc (max 1 (depth - 1))
      (prefetchMarkovSuccessorTraced toL1 1 triggeredByPBHit tid depth
      t pc baseLatency triggerType).1 := by
  induction depth with
  | zero =>
    intro t pc baseLatency triggerType ht
    unfold prefetchMarkovSuccessorTraced
    split
    · exact bounded_nil s pc _
    · rename_i l hl
      exact bounded_hit ht hl (fun _ hf => by cases hf) _
  | succ d ih =>
    intro t pc baseLatency triggerType ht
    unfold prefetchMarkovSuccessorTraced
    split
    · exact bounded_nil s pc _
    · rename_i l hl
      dsimp only
      by_cases hdeep : 2 < d + 1
      · have hmax : max 1 (d + 1 - 1) = max 1 (d - 1) + 1 := by omega
        rw [if_pos hdeep, hmax]
        refine bounded_hit ht hl (fun f hf t successor latency type ht => ?_) _
        cases hf
        exact ih ht
      · have hmax : max 1 (d + 1 - 1) = 0 + 1 := by omega
        rw [if_neg hdeep, hmax]
        exact bounded_hit ht hl (fun _ hf => by cases hf) _

/-- Whatever the table stores, a call for one successor prefetches along a path of successors, of
length at most the depth less one. -/
theorem markov_recursion_bounded (s : State p) (toL1 triggeredByPBHit : Bool) (tid : ThreadID)
    (depth : Nat) (pc : Addr) (baseLatency : Cycles) (triggerType : BranchType) :
    let run := prefetchMarkovSuccessorTraced toL1 1 triggeredByPBHit tid depth s pc baseLatency
      triggerType
    run.2 = prefetchMarkovSuccessor toL1 1 triggeredByPBHit tid depth s pc baseLatency triggerType ∧
      run.1.length ≤ max 1 (depth - 1) ∧ s.Follows pc run.1 := by
  intro run
  have hbounded : Bounded s pc (max 1 (depth - 1)) run.1 :=
    bounded_prefetchMarkovSuccessor depth (Hunting.refl s)
  exact ⟨congrFun (congrFun
    (congrFun (congrFun (prefetchMarkovSuccessorTraced_result 1 depth) s) pc)
    baseLatency) triggerType, hbounded.length, hbounded.follows⟩

end

end State

end BTBFerret
