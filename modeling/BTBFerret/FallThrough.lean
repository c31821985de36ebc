import BTBFerret.BufferSteps
import BTBFerret.EntryRules

/-!
# The fall-through bit

The bit of an entry says that its branch once committed as not taken. It is
copied between the levels, and copies are merged. With training at commit only,
no entry ever takes the bit of another branch.
-/

namespace BTBFerret

open AssociativeCache FallibleRuns

def Op.CommitsIn (U : Set Addr) (tid : ThreadID) : Op → Prop
  | .trainPrefetchBitsOnCommit t pc _ => t = tid ∧ pc ∈ U
  | _ => True

/-- The bit is set for branches that meet `Q` only. -/
def ThroughOnly (Q : Addr → Prop) (e : BTBEntry) : Prop :=
  e.valid = true → e.prefetchThrough = true → Q e.branchAddr

lemma accumulates_throughOnly (Q : Addr → Prop) : Accumulates (ThroughOnly Q) where
  invalid := by
    intro e he hv
    rw [he] at hv
    cases hv
  copy := by
    intro e other hold hbranch hvalid hother hv hbit
    change Q other.branchAddr
    rcases Bool.or_eq_true_iff.mp hbit with hb | hb
    · rcases hold with hold | hold
      · rw [← hbranch]
        exact hold hv hb
      · rw [hold] at hb
        cases hb
    · exact hother hvalid hb

variable {e : BTBEntry}

lemma ThroughOnly.mono {Q Q' : Addr → Prop} (h : ThroughOnly Q e)
    (hQ : ∀ a, Q a → Q' a) : ThroughOnly Q' e :=
  fun hv hb => hQ _ (h hv hb)

lemma ThroughOnly.of_same {Q : Addr → Prop} {e' : BTBEntry} (h : ThroughOnly Q e)
    (hv : e'.valid = e.valid) (hbranch : e'.branchAddr = e.branchAddr)
    (hbit : e'.prefetchThrough = true → e.prefetchThrough = true) : ThroughOnly Q e' := by
  intro hv' hb'
  rw [hbranch]
  exact h (hv ▸ hv') (hbit hb')

namespace State

variable {p : Params} {U : Set Addr} {tid : ThreadID} {Q : Addr → Prop} {s s' : State p}

lemma reused_same (e : BTBEntry) : (reused e).valid = e.valid ∧
    (reused e).branchAddr = e.branchAddr ∧ (reused e).prefetchThrough = e.prefetchThrough := by
  unfold reused
  split
  · exact ⟨rfl, rfl, rfl⟩
  · exact ⟨rfl, rfl, rfl⟩

lemma markChangedTarget_off (halt : p.indirectAltBit = false) (type : BranchType)
    (target : PCState) (e : BTBEntry) : markChangedTarget p type target e = e := by
  unfold markChangedTarget
  rw [halt]
  simp only [Bool.and_false, Bool.false_and, Bool.false_eq_true, if_false]

lemma trainedEntry_through {taken : Bool}
    (h : (trainedEntry p taken e).prefetchThrough = true) :
    e.prefetchThrough = true ∨ taken = false := by
  cases taken with
  | false => exact .inr rfl
  | true =>
    left
    unfold trainedEntry at h
    split at h
    · exact h
    · cases h

lemma trainedEntry_same (taken : Bool) (e : BTBEntry) :
    (trainedEntry p taken e).valid = e.valid ∧
      (trainedEntry p taken e).branchAddr = e.branchAddr := by
  unfold trainedEntry
  split
  · split
    · exact ⟨rfl, rfl⟩
    · exact ⟨rfl, rfl⟩
  · exact ⟨rfl, rfl⟩

lemma allocateBits_through (he : e.prefetchThrough = false) :
    (allocateBits p e).prefetchThrough = false := by
  unfold allocateBits
  split
  · rfl
  · exact he

/-- The bits of the three levels stay with the branches that meet `Q`. -/
lemma EntryStep.throughOnly (hlookup : p.trainBitsOnLookup = false)
    (halt : p.indirectAltBit = false) (hsep : NoCollision p U tid) (hs : Settled U tid s) {o : Op}
    (ho : o.Uses U tid) (hc : o.CommitsIn U tid)
    (hQ : ∀ a, o = .trainPrefetchBitsOnCommit tid a false → Q a) (h : EntryStep s o s')
    (h1 : Every (ThroughOnly Q) s.l1btb) (h2 : Every (ThroughOnly Q) s.l2btb)
    (h3 : Every (ThroughOnly Q) s.l3btb) (hb : Every (ThroughOnly Q) s.pBuffer) :
    Every (ThroughOnly Q) s'.l1btb ∧ Every (ThroughOnly Q) s'.l2btb ∧
      Every (ThroughOnly Q) s'.l3btb := by
  have hR := accumulates_throughOnly Q
  cases h with
  | keep l1btb l2btb l3btb => exact ⟨h1.same l1btb, h2.same l2btb, h3.same l3btb⟩
  | updateHit way _ rewritten =>
    rw [rewritten.l2btb, rewritten.l3btb]
    refine ⟨h1.of_get ?_ rewritten.l1btb, h2, h3⟩
    rw [markChangedTarget_off halt]
    exact (h1 way).of_same rfl rfl (fun hbit => hbit)
  | updateMiss miss filled =>
    obtain ⟨rfl, _⟩ := ho
    apply filled.every hsep hs.keyed hs.distinct hR h1 h2 h3
    intro _ hbit
    have hfresh := allocateBits_through (p := p) (openFor_through_of_miss miss)
    exact absurd (hfresh.symm.trans hbit) Bool.false_ne_true
  | lookupHit t search way _ rewritten =>
    rw [rewritten.l2btb, rewritten.l3btb, search.l2btb, search.l3btb]
    have ht : Every (ThroughOnly Q) t.l1btb := by
      rw [search.untrained hlookup]
      exact h1
    refine ⟨ht.of_get ?_ rewritten.l1btb, h2, h3⟩
    obtain ⟨hv, hbranch, hbit⟩ := reused_same (t.l1btb.get way)
    exact (ht way).of_same hv hbranch (fun hb => hbit ▸ hb)
  | lookupMiss _ search miss _ _ _ served _ filled l1btb l2btb l3btb =>
    obtain ⟨rfl, _⟩ := ho
    rw [l1btb, l2btb, l3btb]
    obtain ⟨hkeyed, hdistinct, hvmiss⟩ := served.settled hs search miss
    rw [← search.untrained hlookup] at h1
    rw [← search.l2btb] at h2
    rw [← search.l3btb] at h3
    rw [← search.pBuffer] at hb
    obtain ⟨hv1, hv2, hv3⟩ := served.every hR h1 h2 h3
    apply filled.every hsep hkeyed hdistinct hR hv1 hv2 hv3
    obtain ⟨hbranch, hbit, _⟩ := served.copied (openFor_through_of_miss hvmiss)
    intro _ hnew
    rw [hbranch]
    exact served.source_meets hb h2 h3 served.source_valid (hbit hnew)
  | commit way hit rewritten =>
    obtain ⟨rfl, hpc⟩ := hc
    rw [rewritten.l2btb, rewritten.l3btb]
    refine ⟨h1.of_get ?_ rewritten.l1btb, h2, h3⟩
    obtain ⟨hv, hbranch⟩ := trainedEntry_same (p := p) _ (s.l1btb.get way)
    intro hvalid hbit
    rw [hbranch]
    rcases trainedEntry_through hbit with hold | htaken
    · exact h1 way (hv ▸ hvalid) hold
    · have hown := (branchAddr_of_found (hsep _ (l1_mem_levels p)) hs.keyed.l1btb hpc hit).2
      apply hQ
      rw [htaken, ← hown]
      rfl
  | direction way _ rewritten =>
    rw [rewritten.l2btb, rewritten.l3btb]
    refine ⟨h1.of_get ?_ rewritten.l1btb, h2, h3⟩
    exact (h1 way).of_same rfl rfl (fun hbit => hbit)
  | clear =>
    refine ⟨hR.every_clear, hR.every_clear, ?_⟩
    unfold memInvalidate
    dsimp only
    split
    · exact hR.every_clear
    · exact h3

/-- A buffer copy takes its bit from the L2 or L3 entry of the same branch. -/
lemma BookStep.throughOnly (hsep : NoCollision p U tid) (hs' : Settled U tid s')
    (h : BookStep s s') (h2 : Every (ThroughOnly Q) s'.l2btb) (h3 : Every (ThroughOnly Q) s'.l3btb)
    (hb : Every (ThroughOnly Q) s.pBuffer) : Every (ThroughOnly Q) s'.pBuffer := by
  intro l hv hbit
  rcases h.entries l hv with hold | ⟨i, _, hsrc, victim, hcopy⟩
  · rw [hold] at hv hbit ⊢
    exact hb l hv hbit
  · obtain ⟨hmem, _, htag⟩ := hs'.keyed.pBuffer l hv
    change (s'.pBuffer.get l).branchAddr ∈ U at hmem
    change (s'.pBuffer.get l).tag = _ at htag
    rw [hcopy] at hmem htag hbit ⊢
    -- the tag of the copy names the thread of the key
    have htid : i.key.tid = tid := congrArg KeyType.tid htag
    have hkey : i.key = ⟨i.key.address, tid⟩ := by rw [← htid]
    change Q i.key.address
    change i.key.address ∈ U at hmem
    change i.src.prefetchThrough = true at hbit
    rcases hsrc with ⟨m, hm, hsrc⟩ | ⟨_, _, m, hm, hsrc⟩
    · rw [hkey] at hm
      rw [← (branchAddr_of_found (hsep _ (l2_mem_levels p)) hs'.keyed.l2btb hmem hm).2]
      rw [hsrc] at hbit
      exact h2 m (valid_of_found hm) hbit
    · rw [hkey] at hm
      rw [← (branchAddr_of_found (hsep _ (l3_mem_levels p)) hs'.keyed.l3btb hmem hm).2]
      rw [hsrc] at hbit
      exact h3 m (valid_of_found hm) hbit

def FellThrough (tid : ThreadID) (past : List Op) (a : Addr) : Prop :=
  .trainPrefetchBitsOnCommit tid a false ∈ past

structure BitsSound (U : Set Addr) (tid : ThreadID) (past : List Op) (s : State p) : Prop
    extends Settled U tid s where
  l1btb : Every (ThroughOnly (FellThrough tid past)) s.l1btb
  l2btb : Every (ThroughOnly (FellThrough tid past)) s.l2btb
  l3btb : Every (ThroughOnly (FellThrough tid past)) s.l3btb
  pBuffer : Every (ThroughOnly (FellThrough tid past)) s.pBuffer

lemma bitsSound_init (bw : PrevBrInfo) : BitsSound U tid [] (State.init p bw) where
  toSettled := settled_init bw
  l1btb := (accumulates_throughOnly _).every_init
  l2btb := (accumulates_throughOnly _).every_init
  l3btb := (accumulates_throughOnly _).every_init
  pBuffer := (accumulates_throughOnly _).every_init

lemma step_bitsSound (hlookup : p.trainBitsOnLookup = false) (halt : p.indirectAltBit = false)
    (hsep : NoCollision p U tid) {past : List Op} {o : Op} (hs : BitsSound U tid past s)
    (ho : o.Uses U tid) (hc : o.CommitsIn U tid) (h : s.step o = .ok s') :
    BitsSound U tid (past ++ [o]) s' := by
  have hmono : ∀ {v : BTBLevel} {C : BTBCache v}, Every (ThroughOnly (FellThrough tid past)) C →
      Every (ThroughOnly (FellThrough tid (past ++ [o]))) C := by
    intro v C hC l
    exact (hC l).mono (fun a ha => List.mem_append_left _ ha)
  have hs' := step_settled hsep hs.toSettled ho h
  obtain ⟨h1, h2, h3⟩ := (step_entries h).throughOnly hlookup halt hsep hs.toSettled ho hc
    (Q := FellThrough tid (past ++ [o]))
    (fun a ha => List.mem_append_right _ (List.mem_singleton.mpr ha.symm))
    (hmono hs.l1btb) (hmono hs.l2btb) (hmono hs.l3btb) (hmono hs.pBuffer)
  exact ⟨hs', h1, h2, h3, (step_books h).throughOnly hsep hs' h2 h3 (hmono hs.pBuffer)⟩

def Carries {v : BTBLevel} (C : BTBCache v) (key : KeyType) : Prop :=
  ∃ l, l.1 = v.shape.extractSet key ∧ v.shape.match key (C.get l) = true ∧
    (C.get l).prefetchThrough = true

lemma Carries.meets {v : BTBLevel} {C : BTBCache v} {a : Addr} (h : Carries C ⟨a, tid⟩)
    (hsep : Separates v U tid) (hk : Obeys (keyedRule U tid) C) (ha : a ∈ U)
    (hC : Every (ThroughOnly Q) C) : Q a := by
  obtain ⟨l, hset, hmatch, hbit⟩ := h
  obtain ⟨hv, htag⟩ := (v.shape.match_iff _ _).mp hmatch
  obtain ⟨hmem, hset', htag'⟩ := hk l hv
  have hown : (C.get l).branchAddr = a :=
    hsep _ hmem a ha (hset'.symm.trans hset) (htag'.symm.trans htag)
  rw [← hown]
  exact hC l hv hbit

/-- With bits trained at commit only, an entry that carries the fall-through bit
belongs to a branch that has committed as not taken. -/
theorem through_bits_committed (hlookup : p.trainBitsOnLookup = false)
    (halt : p.indirectAltBit = false) (hsep : NoCollision p U tid) {bw : PrevBrInfo}
    {ops : List Op} (huses : ∀ o ∈ ops, o.Uses U tid ∧ o.CommitsIn U tid) (h : Reached bw ops s)
    {a : Addr} (ha : a ∈ U)
    (hbit : Carries s.l1btb ⟨a, tid⟩ ∨ Carries s.l2btb ⟨a, tid⟩ ∨ Carries s.l3btb ⟨a, tid⟩ ∨
      Carries s.pBuffer ⟨a, tid⟩) :
    .trainPrefetchBitsOnCommit tid a false ∈ ops := by
  have hs : BitsSound U tid ops s := run_invariant (BitsSound U tid)
    (fun _ _ _ _ hs hc hstep => step_bitsSound hlookup halt hsep hs hc.1 hc.2 hstep)
    (bitsSound_init bw) (along_of_mem huses _) h
  rcases hbit with h1 | h2 | h3 | hb
  · exact h1.meets (hsep _ (l1_mem_levels p)) hs.keyed.l1btb ha hs.l1btb
  · exact h2.meets (hsep _ (l2_mem_levels p)) hs.keyed.l2btb ha hs.l2btb
  · exact h3.meets (hsep _ (l3_mem_levels p)) hs.keyed.l3btb ha hs.l3btb
  · exact hb.meets (hsep _ (pBuffer_mem_levels p)) hs.keyed.pBuffer ha hs.pBuffer

def throughIn {v : BTBLevel} (C : BTBCache v) (key : KeyType) : Bool :=
  (C.findEntry key).any (fun l => (C.get l).prefetchThrough)

lemma carries_of_throughIn {v : BTBLevel} {C : BTBCache v} {key : KeyType}
    (h : throughIn C key = true) : Carries C key := by
  unfold throughIn at h
  cases hl : C.findEntry key with
  | none =>
    rw [hl] at h
    cases h
  | some l =>
    rw [hl] at h
    obtain ⟨hset, hmatch⟩ := Cache.findEntry_some hl
    exact ⟨l, hset, hmatch, h⟩

/-- Bits are trained at commit, by a BTB that stages no prefetch without a block map. -/
def commitTrained : Params := { Params.small with trainBitsOnCommit := true }

/-- Branch 20 falls through and then moves to L2. -/
def fallThroughEvicted : List Op :=
  [.wait, .resolve 20 101, .trainPrefetchBitsOnCommit 0 20 false, .wait, .resolve 10 100, .wait]

/-- The bit of branch 20 is found in L2. -/
theorem through_bits_committed_small :
    ∃ s : State commitTrained, Reached ⟨false, false⟩ fallThroughEvicted s ∧
      Carries s.l2btb ⟨20, 0⟩ ∧ .trainPrefetchBitsOnCommit 0 20 false ∈ fallThroughEvicted := by
  obtain ⟨s, hs, hin⟩ := exists_of_holdsAt
    (run step (State.init commitTrained ⟨false, false⟩) fallThroughEvicted)
    (fun s => throughIn s.l2btb ⟨20, 0⟩) (by decide +kernel)
  have hcarries := carries_of_throughIn hin
  have huses : ∀ o ∈ fallThroughEvicted, o.Uses Set.univ 0 ∧ o.CommitsIn Set.univ 0 := by
    intro o ho
    refine ⟨uses_univ rfl o ho, ?_⟩
    simp only [fallThroughEvicted, List.mem_cons, List.not_mem_nil, or_false] at ho
    rcases ho with rfl | rfl | rfl | rfl | rfl | rfl
    all_goals first | exact trivial | exact ⟨rfl, trivial⟩
  exact ⟨s, hs, hcarries, through_bits_committed (p := commitTrained) rfl rfl
    (noCollision_small rfl _ 0) huses hs trivial (.inr (.inl hcarries))⟩

end State

end BTBFerret
