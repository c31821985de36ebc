import BTBFerret.MemDepUnit

/-!
# Waking up memory instructions

The count of an instruction is the number of times it stands on the lists of live entries. This
survives squashes: what an instruction depends on is older than itself, so it is never squashed
alone. An instruction is therefore handed to the instruction queue once, at the first moment when
its registers are ready and all it was made dependent on has completed.
-/

namespace BTBFerret.MemDep

open FallibleRuns List Function Option Nat

namespace MemDepUnit

open MemDepUnit

variable {s : MemDepUnit}

def seq (s : MemDepUnit) (e : Nat) : InstSeqNum := (s.inst e).seqNum

/-- The entry is in the hash. -/
def Live (s : MemDepUnit) (e : Nat) : Prop :=
  e < s.numEntries ∧ s.squashed e = false ∧ s.completed e = false

instance (s : MemDepUnit) (e : Nat) : Decidable (s.Live e) :=
  inferInstanceAs (Decidable (_ ∧ _ ∧ _))

/-- No entry was handed over twice, and of those that are not squashed exactly the ones that are
ready were handed over. -/
def Handed (s : MemDepUnit) : Prop :=
  ∀ e, s.ready.count e ≤ 1 ∧ (s.squashed e = false → s.ready.count e =
    if s.entered e = true ∧ s.regsReady e = true ∧ s.memDeps e = 0 then 1 else 0)

structure Inv (s : MemDepUnit) : Prop where
  hash : ∀ sn e, s.memDepHash sn = some e ↔ s.Live e ∧ s.seq e = sn
  increasing : ∀ e e', e < e' → e' < s.numEntries → s.seq e < s.seq e'
  sorted : s.instList.Pairwise (· < ·)
  listed : ∀ e, e ∈ s.instList ↔ s.Live e
  older : ∀ e, ∀ p ∈ s.producers e,
    p < e ∧ e < s.numEntries ∧ s.entered e = true ∧ (s.inst p).hasDependents = true
  dependents : ∀ p e, (s.dependInsts p).count e =
    if s.completed p then 0 else (s.producers e).count p
  waiting : ∀ e, s.memDeps e = ((s.producers e).countP fun p => !s.completed p : Nat)
  unsquashed : ∀ e, s.Live e → ∀ p ∈ s.producers e, s.squashed p = false
  fresh : ∀ e, s.numEntries ≤ e → s.squashed e = false ∧ s.completed e = false ∧
    s.regsReady e = false ∧ s.entered e = false
  handed : Handed s
  loads : ∀ sn, sn ∈ s.loadBarrierSNs ↔ ∃ e, s.Live e ∧ s.seq e = sn ∧ (s.inst e).blocksLoads
  stores : ∀ sn, sn ∈ s.storeBarrierSNs ↔ ∃ e, s.Live e ∧ s.seq e = sn ∧ (s.inst e).blocksStores
  loadsNodup : s.loadBarrierSNs.Nodup
  storesNodup : s.storeBarrierSNs.Nodup

lemma inv_empty : Inv empty where
  hash sn e := by simp [empty, Live]
  increasing _ _ _ h := absurd h (not_lt_zero _)
  sorted := .nil
  listed e := by simp [empty, Live]
  older _ _ h := absurd h not_mem_nil
  dependents _ _ := rfl
  waiting _ := rfl
  unsquashed _ _ _ h := absurd h not_mem_nil
  fresh _ _ := ⟨rfl, rfl, rfl, rfl⟩
  handed e := by simp [empty]
  loads sn := by simp [empty, Live]
  stores sn := by simp [empty, Live]
  loadsNodup := .nil
  storesNodup := .nil

variable {e : Nat}

lemma Inv.seq_inj (h : Inv s) {e' : Nat} (he : e < s.numEntries) (he' : e' < s.numEntries)
    (heq : s.seq e = s.seq e') : e = e' := by
  rcases lt_trichotomy e e' with hlt | rfl | hlt
  · exact absurd heq (h.increasing e e' hlt he').ne
  · rfl
  · exact absurd heq.symm (h.increasing e' e hlt he).ne

lemma Inv.producers_fresh (h : Inv s) (he : s.numEntries ≤ e) : s.producers e = [] :=
  eq_nil_iff_forall_not_mem.mpr fun p hp => absurd (h.older e p hp).2.1 (not_lt.mpr he)

lemma Inv.dependInsts_nil (h : Inv s) {p : Nat} (hp : ∀ e, p ∉ s.producers e) :
    s.dependInsts p = [] := by
  refine eq_nil_iff_forall_not_mem.mpr fun e he => ?_
  have hpos := count_pos_iff.mpr he
  rw [h.dependents p e] at hpos
  split at hpos
  · exact absurd hpos (Nat.lt_irrefl 0)
  · exact hp e (count_pos_iff.mp hpos)

lemma count_push_of_ne {c : Prop} [Decidable c] (l : List Nat) {x : Nat} (h : e ≠ x) :
    (if c then l ++ [x] else l).count e = l.count e := by
  split
  · rw [count_append, count_singleton, if_neg (by simpa using h.symm), add_zero]
  · rfl

/-! ## A new entry -/

def extend (s : MemDepUnit) (inst : DynInst) (deps : List Nat) (entered ready : Bool) :
    MemDepUnit :=
  insertBarrierSN { s with
    inst := update s.inst s.numEntries inst
    numEntries := s.numEntries + 1
    memDepHash := update s.memDepHash inst.seqNum (some s.numEntries)
    instList := s.instList ++ [s.numEntries]
    dependInsts := fun d => s.dependInsts d ++ List.replicate (deps.count d) s.numEntries
    producers := update s.producers s.numEntries deps
    entered := update s.entered s.numEntries entered
    regsReady := update s.regsReady s.numEntries ready
    memDeps := update s.memDeps s.numEntries deps.length
    ready := if entered && ready && deps.isEmpty then s.ready ++ [s.numEntries] else s.ready } inst

lemma foldl_addDependent (e : Nat) (deps : List Nat) (s : MemDepUnit) :
    deps.foldl (fun s d => s.addDependent e d) s =
      { s with dependInsts := fun d => s.dependInsts d ++ List.replicate (deps.count d) e } := by
  induction deps generalizing s with
  | nil => simp
  | cons x _ ih =>
    rw [foldl_cons, ih]
    congr 1
    funext d
    change update s.dependInsts x (s.dependInsts x ++ [e]) d ++ _ = _
    by_cases hd : d = x
    · subst hd
      rw [update_self, count_cons_self, replicate_succ, append_assoc, singleton_append]
    · rw [update_of_ne hd, count_cons_of_ne (Ne.symm hd)]

variable {inst : DynInst} {deps : List Nat} {entered ready : Bool}

lemma seq_extend_self : (s.extend inst deps entered ready).seq s.numEntries = inst.seqNum :=
  congrArg DynInst.seqNum (update_self _ _ _)

lemma inst_extend_of_lt (he : e < s.numEntries) :
    (s.extend inst deps entered ready).inst e = s.inst e :=
  update_of_ne he.ne _ _

lemma live_extend (h : Inv s) :
    (s.extend inst deps entered ready).Live e ↔ s.Live e ∨ e = s.numEntries := by
  obtain ⟨hsquashed, hcompleted, -⟩ := h.fresh s.numEntries le_rfl
  constructor
  · rintro ⟨hlt, hs, hc⟩
    rcases Nat.lt_succ_iff_lt_or_eq.mp hlt with hlt | heq
    · exact .inl ⟨hlt, hs, hc⟩
    · exact .inr heq
  · rintro (⟨hlt, hs, hc⟩ | rfl)
    · exact ⟨Nat.lt_succ_of_lt hlt, hs, hc⟩
    · exact ⟨Nat.lt_succ_self _, hsquashed, hcompleted⟩

variable {kind : DynInst → Bool} {sns : List InstSeqNum}

lemma mem_barriers_extend (h : Inv s)
    (hsns : ∀ sn, sn ∈ sns ↔ ∃ e, s.Live e ∧ s.seq e = sn ∧ kind (s.inst e) = true)
    (sn : InstSeqNum) : sn ∈ (if kind inst then sns.insert inst.seqNum else sns) ↔
      ∃ e, (s.extend inst deps entered ready).Live e ∧
        (s.extend inst deps entered ready).seq e = sn ∧
        kind ((s.extend inst deps entered ready).inst e) = true := by
  have hold : ∀ e, s.Live e → (s.extend inst deps entered ready).inst e = s.inst e :=
    fun e he => inst_extend_of_lt he.1
  have hself : (s.extend inst deps entered ready).inst s.numEntries = inst :=
    update_self _ _ _
  have hexists : (∃ e, (s.extend inst deps entered ready).Live e ∧
      (s.extend inst deps entered ready).seq e = sn ∧
      kind ((s.extend inst deps entered ready).inst e) = true) ↔
      sn ∈ sns ∨ inst.seqNum = sn ∧ kind inst = true := by
    constructor
    · rintro ⟨e, he, hseq, hkind⟩
      rcases (live_extend h).mp he with he | rfl
      · rw [seq, hold e he] at hseq
        rw [hold e he] at hkind
        exact .inl ((hsns sn).mpr ⟨e, he, hseq, hkind⟩)
      · rw [seq, hself] at hseq
        rw [hself] at hkind
        exact .inr ⟨hseq, hkind⟩
    · rintro (hin | ⟨hseq, hkind⟩)
      · obtain ⟨e, he, hseq, hkind⟩ := (hsns sn).mp hin
        refine ⟨e, (live_extend h).mpr (.inl he), ?_, ?_⟩
        · rw [seq, hold e he]
          exact hseq
        · rw [hold e he]
          exact hkind
      · refine ⟨s.numEntries, (live_extend h).mpr (.inr rfl), ?_, ?_⟩
        · rw [seq, hself]
          exact hseq
        · rw [hself]
          exact hkind
  rw [hexists]
  by_cases hkind : kind inst = true
  · rw [if_pos hkind, mem_insert_iff]
    simp only [hkind, and_true]
    exact ⟨fun hx => hx.symm.imp_right Eq.symm, fun hx => hx.symm.imp_left Eq.symm⟩
  · rw [if_neg hkind]
    exact ⟨.inl, fun hx => hx.resolve_right fun hx => hkind hx.2⟩

lemma hash_extend (h : Inv s) (hnew : ∀ e < s.numEntries, s.seq e < inst.seqNum)
    (sn : InstSeqNum) (e : Nat) : (s.extend inst deps entered ready).memDepHash sn = some e ↔
      (s.extend inst deps entered ready).Live e ∧
        (s.extend inst deps entered ready).seq e = sn := by
  rw [live_extend h]
  change update s.memDepHash inst.seqNum (some s.numEntries) sn = some e ↔ _
  by_cases hsn : sn = inst.seqNum
  · subst hsn
    rw [update_self, some_inj]
    constructor
    · rintro rfl
      exact ⟨.inr rfl, seq_extend_self⟩
    · rintro ⟨he | rfl, hseq⟩
      · rw [seq, inst_extend_of_lt he.1] at hseq
        exact absurd hseq (hnew e he.1).ne
      · rfl
  · rw [update_of_ne hsn, h.hash]
    constructor
    · rintro ⟨he, hseq⟩
      refine ⟨.inl he, ?_⟩
      rw [seq, inst_extend_of_lt he.1]
      exact hseq
    · rintro ⟨he | rfl, hseq⟩
      · rw [seq, inst_extend_of_lt he.1] at hseq
        exact ⟨he, hseq⟩
      · exact absurd (hseq.symm.trans seq_extend_self) hsn

lemma dependents_extend (h : Inv s) (hdeps : ∀ d ∈ deps, s.Live d) (p e : Nat) :
    ((s.extend inst deps entered ready).dependInsts p).count e =
      if s.completed p then 0 else ((s.extend inst deps entered ready).producers e).count p := by
  change (s.dependInsts p ++ replicate (deps.count p) s.numEntries).count e =
    if s.completed p then 0 else (update s.producers s.numEntries deps e).count p
  have hnot : s.completed p = true → deps.count p = 0 := fun hc =>
    count_eq_zero.mpr fun hp => Bool.false_ne_true ((hdeps p hp).2.2.symm.trans hc)
  rw [count_append, h.dependents, count_replicate]
  by_cases he : e = s.numEntries
  · subst he
    rw [h.producers_fresh le_rfl, update_self]
    split <;> simp_all
  · have hne : (s.numEntries == e) = false := beq_false_of_ne (Ne.symm he)
    simp only [update_of_ne he, hne, Bool.false_eq_true, if_false, add_zero]

/-- A new entry without dependencies is handed over if its registers are ready. -/
lemma handed_extend (h : Inv s) : Handed (s.extend inst deps entered ready) := by
  intro e
  change (if entered && ready && deps.isEmpty then s.ready ++ [s.numEntries]
      else s.ready).count e ≤ 1 ∧ (s.squashed e = false →
      (if entered && ready && deps.isEmpty then s.ready ++ [s.numEntries] else s.ready).count e =
      if update s.entered s.numEntries entered e = true ∧
        update s.regsReady s.numEntries ready e = true ∧
        update s.memDeps s.numEntries (deps.length : Int) e = 0 then 1 else 0)
  by_cases he : e = s.numEntries
  · subst he
    obtain ⟨hsquashed, -, -, hnot⟩ := h.fresh s.numEntries le_rfl
    have hzero : s.ready.count s.numEntries = 0 := by
      rw [(h.handed s.numEntries).2 hsquashed, hnot]
      rfl
    cases entered <;> cases ready <;> cases deps <;> simp [hzero]
    omega
  · rw [count_push_of_ne _ he, update_of_ne he, update_of_ne he, update_of_ne he]
    exact h.handed e

lemma Inv.extend (h : Inv s) (hnew : ∀ e < s.numEntries, s.seq e < inst.seqNum)
    (hdeps : ∀ d ∈ deps, s.Live d ∧ (s.inst d).hasDependents = true)
    (hentered : deps ≠ [] → entered = true) : Inv (s.extend inst deps entered ready) := by
  have hlt : ∀ d ∈ deps, d < s.numEntries := fun d hd => (hdeps d hd).1.1
  refine
    { hash := hash_extend h hnew
      increasing := fun e e' hee he' => ?_
      sorted := ?_
      listed := fun e => ?_
      older := fun e p hp => ?_
      dependents := dependents_extend h fun d hd => (hdeps d hd).1
      waiting := fun e => ?_
      unsquashed := fun e he p hp => ?_
      fresh := fun e he => ?_
      handed := handed_extend h
      loads := mem_barriers_extend h h.loads
      stores := mem_barriers_extend h h.stores
      loadsNodup := ?_
      storesNodup := ?_ }
  · have he : e < s.numEntries := by
      change e' < s.numEntries + 1 at he'
      omega
    rcases Nat.lt_succ_iff_lt_or_eq.mp he' with hlt' | rfl
    · rw [seq, seq, inst_extend_of_lt he, inst_extend_of_lt hlt']
      exact h.increasing e e' hee hlt'
    · rw [seq_extend_self, seq, inst_extend_of_lt he]
      exact hnew e he
  · refine pairwise_append.mpr ⟨h.sorted, pairwise_singleton _ _, fun e he e' he' => ?_⟩
    rw [mem_singleton.mp he']
    exact ((h.listed e).mp he).1
  · rw [live_extend h]
    change e ∈ s.instList ++ [s.numEntries] ↔ _
    rw [mem_append, mem_singleton, h.listed]
  · change p ∈ update s.producers s.numEntries deps e at hp
    change p < e ∧ e < s.numEntries + 1 ∧ update s.entered s.numEntries entered e = true ∧ _
    by_cases he : e = s.numEntries
    · subst he
      rw [update_self] at hp ⊢
      refine ⟨hlt p hp, Nat.lt_succ_self _, hentered (ne_nil_of_mem hp), ?_⟩
      rw [inst_extend_of_lt (hlt p hp)]
      exact (hdeps p hp).2
    · rw [update_of_ne he] at hp ⊢
      obtain ⟨hpe, hen, hin, hhas⟩ := h.older e p hp
      refine ⟨hpe, Nat.lt_succ_of_lt hen, hin, ?_⟩
      rw [inst_extend_of_lt (hpe.trans hen)]
      exact hhas
  · change update s.memDeps s.numEntries (deps.length : Int) e =
      ((update s.producers s.numEntries deps e).countP fun p => !s.completed p : Nat)
    by_cases he : e = s.numEntries
    · subst he
      rw [update_self, update_self, countP_eq_length.mpr]
      intro d hd
      rw [(hdeps d hd).1.2.2]
      rfl
    · rw [update_of_ne he, update_of_ne he]
      exact h.waiting e
  · change p ∈ update s.producers s.numEntries deps e at hp
    rcases (live_extend h).mp he with he | rfl
    · rw [update_of_ne he.1.ne] at hp
      exact h.unsquashed e he p hp
    · rw [update_self] at hp
      exact (hdeps p hp).1.2.1
  · have hne : e ≠ s.numEntries := (lt_of_succ_le he).ne'
    change s.squashed e = false ∧ s.completed e = false ∧
      update s.regsReady s.numEntries ready e = false ∧
      update s.entered s.numEntries entered e = false
    rw [update_of_ne hne, update_of_ne hne]
    exact h.fresh e (le_of_succ_le he)
  · change (if inst.blocksLoads then _ else _ : List InstSeqNum).Nodup
    split
    · exact h.loadsNodup.insert
    · exact h.loadsNodup
  · change (if inst.blocksStores then _ else _ : List InstSeqNum).Nodup
    split
    · exact h.storesNodup.insert
    · exact h.storesNodup

lemma hasDependents_of_blocksLoads (h : inst.blocksLoads = true) : inst.hasDependents = true := by
  unfold DynInst.blocksLoads at h
  unfold DynInst.hasDependents
  grind

lemma hasDependents_of_blocksStores (h : inst.blocksStores = true) :
    inst.hasDependents = true := by
  unfold DynInst.blocksStores at h
  unfold DynInst.hasDependents
  grind

/-- A number that the hash had before the new entry gives an entry it had before. -/
lemma memDepHash_addEntry {sn : InstSeqNum} (hsn : sn ≠ inst.seqNum) :
    (s.addEntry inst).memDepHash sn = s.memDepHash sn :=
  update_of_ne hsn _ _

lemma Inv.hash_fresh (h : Inv s) (hnew : ∀ e < s.numEntries, s.seq e < inst.seqNum) :
    s.memDepHash inst.seqNum = none := by
  refine eq_none_iff_forall_ne_some.mpr fun e he => ?_
  obtain ⟨hlive, hseq⟩ := (h.hash _ e).mp he
  exact (hnew e hlive.1).ne hseq

lemma Inv.barrier_entries (h : Inv s) (hnew : ∀ e < s.numEntries, s.seq e < inst.seqNum)
    (hsns : ∀ sn, sn ∈ sns ↔ ∃ e, s.Live e ∧ s.seq e = sn ∧ kind (s.inst e) = true) {d : Nat}
    (hd : d ∈ sns.filterMap (s.addEntry inst).memDepHash) : s.Live d ∧ kind (s.inst d) = true := by
  obtain ⟨sn, hsn, hhash⟩ := mem_filterMap.mp hd
  obtain ⟨e, he, hseq, hkind⟩ := (hsns sn).mp hsn
  rw [memDepHash_addEntry (hseq ▸ (hnew e he.1).ne), (h.hash sn e).mpr ⟨he, hseq⟩] at hhash
  cases hhash
  exact ⟨he, hkind⟩

/-- The prediction names an older instruction, and a store if it still has an entry. -/
def Predicts (s : MemDepUnit) (inst : DynInst) (sn : InstSeqNum) : Prop :=
  sn < inst.seqNum ∧
    (s.memDepHash sn).all (fun e => (s.inst e).isStore || (s.inst e).isAtomic) = true

instance (s : MemDepUnit) (inst : DynInst) (sn : InstSeqNum) : Decidable (s.Predicts inst sn) :=
  inferInstanceAs (Decidable (_ ∧ _))

section

variable (h : Inv s) (hnew : ∀ e < s.numEntries, s.seq e < inst.seqNum)

include h hnew

lemma Inv.dependencies
    {predicted : Option InstSeqNum} (hpredicted : ∀ sn ∈ predicted, s.Predicts inst sn) :
    ∀ d ∈ (s.addEntry inst).dependencies inst predicted,
      s.Live d ∧ (s.inst d).hasDependents = true := by
  intro d hd
  unfold MemDepUnit.dependencies at hd
  rw [mem_append, mem_append] at hd
  rcases hd with (hd | hd) | hd
  · obtain ⟨sn, hsn, hhash⟩ := bind_eq_some_iff.mp (mem_toList.mp hd)
    obtain ⟨hold, hstore⟩ := hpredicted sn hsn
    rw [memDepHash_addEntry hold.ne] at hhash
    rw [hhash, all_some] at hstore
    refine ⟨((h.hash sn d).mp hhash).1, ?_⟩
    unfold DynInst.hasDependents
    rw [hstore]
    rfl
  · split at hd
    · obtain ⟨hlive, hkind⟩ := h.barrier_entries hnew h.loads hd
      exact ⟨hlive, hasDependents_of_blocksLoads hkind⟩
    · exact absurd hd not_mem_nil
  · split at hd
    · obtain ⟨hlive, hkind⟩ := h.barrier_entries hnew h.stores hd
      exact ⟨hlive, hasDependents_of_blocksStores hkind⟩
    · exact absurd hd not_mem_nil

lemma insert_eq_extend
    (hmem : inst.isStore || inst.isAtomic || inst.isLoad) (predicted : Option InstSeqNum)
    (ready : Bool) : s.insert inst predicted ready =
      .ok (s.extend inst ((s.addEntry inst).dependencies inst predicted) true ready) := by
  have hsquashed : s.squashed s.numEntries = false := (h.fresh _ le_rfl).1
  have hfresh := h.hash_fresh hnew
  simp only [insert, if_pos hmem]
  generalize (s.addEntry inst).dependencies inst predicted = deps
  cases deps with
  | nil =>
    cases ready
    · simp [extend, addEntry, insertBarrierSN, hfresh, pure, bind, Except.pure,
        Except.bind]
    · simp [extend, addEntry, insertBarrierSN, moveToReady, hfresh, hsquashed, pure,
        bind, Except.pure, Except.bind]
  | cons =>
    rw [foldl_addDependent]
    simp [extend, addEntry, insertBarrierSN, hfresh, pure, bind, Except.pure,
      Except.bind]

lemma insertBarrier_eq_extend : s.insertBarrier inst = s.extend inst [] false false := by
  obtain ⟨-, -, hready, hentered⟩ := h.fresh s.numEntries le_rfl
  have hprod := h.producers_fresh (e := s.numEntries) le_rfl
  have hmemDeps : s.memDeps s.numEntries = 0 := by
    rw [h.waiting, hprod]
    rfl
  have hproducers : update s.producers s.numEntries [] = s.producers :=
    hprod ▸ update_eq_self _ _
  have hregs : update s.regsReady s.numEntries false = s.regsReady :=
    hready ▸ update_eq_self _ _
  have hin : update s.entered s.numEntries false = s.entered :=
    hentered ▸ update_eq_self _ _
  have hcount : update s.memDeps s.numEntries 0 = s.memDeps :=
    hmemDeps ▸ update_eq_self _ _
  simp [insertBarrier, extend, addEntry, h.hash_fresh hnew, hproducers,
    hregs, hin, hcount]

end

/-! ## Registers -/

lemma findInHash_eq (h : s.memDepHash inst.seqNum = some e) : s.findInHash inst = .ok e := by
  unfold findInHash
  rw [h]

lemma setRegsReady_eq (hhash : s.memDepHash inst.seqNum = some e) (hs : s.squashed e = false) :
    s.setRegsReady inst = .ok { s with
      regsReady := update s.regsReady e true
      ready := if s.memDeps e = 0 then s.ready ++ [e] else s.ready } := by
  unfold setRegsReady
  rw [findInHash_eq hhash]
  by_cases hdeps : s.memDeps e = 0
  · simp [hdeps, moveToReady, hs, bind, Except.bind]
  · simp [hdeps, bind, Except.bind, pure, Except.pure]

lemma Inv.setRegsReady (h : Inv s) (hhash : s.memDepHash inst.seqNum = some e)
    (hentered : s.entered e = true) (hnot : s.regsReady e = false) :
    Meets (s.setRegsReady inst) Inv fun _ => False := by
  obtain ⟨hlive, -⟩ := (h.hash _ e).mp hhash
  have hzero : s.ready.count e = 0 := by
    rw [(h.handed e).2 hlive.2.1, hnot]
    simp
  rw [setRegsReady_eq hhash hlive.2.1, meets_ok]
  refine { h with fresh := fun e' he' => ?_, handed := fun e' => ?_ }
  · change _ ∧ _ ∧ update s.regsReady e true e' = false ∧ _
    rw [update_of_ne (hlive.1.trans_le he').ne']
    exact h.fresh e' he'
  · change (if s.memDeps e = 0 then s.ready ++ [e] else s.ready).count e' ≤ 1 ∧
      (s.squashed e' = false → (if s.memDeps e = 0 then s.ready ++ [e] else s.ready).count e' =
      if s.entered e' = true ∧ update s.regsReady e true e' = true ∧ s.memDeps e' = 0
      then 1 else 0)
    by_cases he : e' = e
    · subst he
      rw [update_self]
      by_cases hdeps : s.memDeps e' = 0 <;> simp [hdeps, hzero, hentered]
    · rw [count_push_of_ne _ he, update_of_ne he]
      exact h.handed e'

/-! ## Completion -/

/-- One round: an entry that waits is released once, and is handed over when nothing is left. -/
lemma Handed.releaseOne (h : Handed s) {d : Nat} (hentered : s.entered d = true)
    (hpos : 0 < s.memDeps d) : ∃ ready', s.releaseOne d = .ok { s with
        memDeps := update s.memDeps d (s.memDeps d - 1), ready := ready' } ∧
      Handed { s with
        memDeps := update s.memDeps d (s.memDeps d - 1), ready := ready' } := by
  have hzero : s.squashed d = false → s.ready.count d = 0 := by
    intro hs
    rw [(h d).2 hs, if_neg fun hx => hpos.ne' hx.2.2]
  by_cases hready : s.memDeps d - 1 = 0 ∧ s.regsReady d = true ∧ s.squashed d = false
  · obtain ⟨hlast, hregs, hs⟩ := hready
    refine ⟨s.ready ++ [d], ?_, fun e => ?_⟩
    · simp [MemDepUnit.releaseOne, moveToReady, hlast, hregs, hs]
    · rw [count_append, count_singleton]
      by_cases he : e = d
      · subst he
        simp [hzero hs, hentered, hregs, hlast]
      · simp only [update_of_ne he, beq_false_of_ne (Ne.symm he), Bool.false_eq_true,
          if_false, add_zero]
        exact h e
  · refine ⟨s.ready, ?_, fun e => ?_⟩
    · simp only [MemDepUnit.releaseOne, update_self]
      split
      · rename_i hlast
        rw [if_neg]
        intro hx
        rw [Bool.and_eq_true, Bool.not_eq_true'] at hx
        exact hready ⟨hlast, hx⟩
      · rfl
    · change s.ready.count e ≤ 1 ∧ (s.squashed e = false →
        s.ready.count e = if s.entered e = true ∧ s.regsReady e = true ∧
          update s.memDeps d (s.memDeps d - 1) e = 0 then 1 else 0)
      by_cases he : e = d
      · subst he
        refine ⟨(h e).1, fun hs => ?_⟩
        rw [hzero hs, update_self, if_neg fun hx => hready ⟨hx.2.2, hx.2.1, hs⟩]
      · rw [update_of_ne he]
        exact h e

/-- The loop of `wakeDependents`. -/
lemma Handed.release (dependents : List Nat) : ∀ {s : MemDepUnit}, Handed s →
    (∀ d ∈ dependents, s.entered d = true) → (∀ d, (dependents.count d : Int) ≤ s.memDeps d) →
    ∃ ready', dependents.foldlM MemDepUnit.releaseOne s = .ok { s with
        memDeps := fun d => s.memDeps d - dependents.count d, ready := ready' } ∧
      Handed { s with memDeps := fun d => s.memDeps d - dependents.count d, ready := ready' } := by
  induction dependents with
  | nil =>
    intro s h _ _
    refine ⟨s.ready, ?_, ?_⟩
    · simp [pure, Except.pure]
    · simpa using h
  | cons x dependents ih =>
    intro s h hentered hle
    have hx := hle x
    rw [count_cons_self] at hx
    obtain ⟨ready₁, hone, h₁⟩ := h.releaseOne (hentered x mem_cons_self) (by omega)
    have hle₁ : ∀ d, (dependents.count d : Int) ≤ update s.memDeps x (s.memDeps x - 1) d := by
      intro d
      have hd := hle d
      by_cases hdx : d = x
      · subst hdx
        rw [update_self]
        omega
      · rw [count_cons_of_ne (Ne.symm hdx)] at hd
        rw [update_of_ne hdx]
        exact hd
    obtain ⟨ready', hrest, h'⟩ := ih h₁ (fun d hd => hentered d (mem_cons_of_mem _ hd)) hle₁
    have hsum : (fun d => update s.memDeps x (s.memDeps x - 1) d - dependents.count d) =
        fun d => s.memDeps d - (x :: dependents).count d := by
      funext d
      by_cases hdx : d = x
      · subst hdx
        rw [update_self, count_cons_self]
        omega
      · rw [update_of_ne hdx, count_cons_of_ne (Ne.symm hdx)]
    rw [← hsum]
    refine ⟨ready', ?_, h'⟩
    rw [foldlM_cons, hone]
    exact hrest

/-! ## An entry leaves -/

section

variable {e : Nat} {t : MemDepUnit}

lemma Inv.hash_remove (h : Inv s) (he : s.Live e)
    (hlive : ∀ e', t.Live e' ↔ s.Live e' ∧ e' ≠ e) (hinst : t.inst = s.inst) (sn : InstSeqNum)
    (e' : Nat) :
    update s.memDepHash (s.seq e) none sn = some e' ↔ t.Live e' ∧ t.seq e' = sn := by
  have hseq : t.seq e' = s.seq e' := congrArg DynInst.seqNum (congrFun hinst e')
  rw [hlive, hseq]
  by_cases hsn : sn = s.seq e
  · subst hsn
    rw [update_self]
    refine ⟨fun hx => (nomatch hx), ?_⟩
    rintro ⟨⟨he', hne⟩, hseq⟩
    exact absurd (h.seq_inj he'.1 he.1 hseq) hne
  · rw [update_of_ne hsn, h.hash]
    refine ⟨fun ⟨he', hseq⟩ => ⟨⟨he', ?_⟩, hseq⟩, fun ⟨⟨he', _⟩, hseq⟩ => ⟨he', hseq⟩⟩
    rintro rfl
    exact hsn hseq.symm

lemma Inv.listed_remove (h : Inv s) (hlive : ∀ e', t.Live e' ↔ s.Live e' ∧ e' ≠ e) (e' : Nat) :
    e' ∈ s.instList.erase e ↔ t.Live e' := by
  have hnodup : s.instList.Nodup := h.sorted.imp Nat.ne_of_lt
  rw [hnodup.mem_erase_iff, h.listed, hlive, and_comm]

lemma Inv.barriers_remove (h : Inv s) (he : s.Live e)
    (hlive : ∀ e', t.Live e' ↔ s.Live e' ∧ e' ≠ e) (hinst : t.inst = s.inst) (hnodup : sns.Nodup)
    (hsns : ∀ sn, sn ∈ sns ↔ ∃ e, s.Live e ∧ s.seq e = sn ∧ kind (s.inst e) = true)
    (sn : InstSeqNum) : sn ∈ sns.erase (s.seq e) ↔
      ∃ e', t.Live e' ∧ t.seq e' = sn ∧ kind (t.inst e') = true := by
  rw [hnodup.mem_erase_iff, hsns]
  constructor
  · rintro ⟨hne, e', he', hseq, hkind⟩
    refine ⟨e', (hlive e').mpr ⟨he', ?_⟩, ?_, ?_⟩
    · rintro rfl
      exact hne hseq.symm
    · rw [seq, hinst]
      exact hseq
    · rw [hinst]
      exact hkind
  · rintro ⟨e', he', hseq, hkind⟩
    obtain ⟨he', hne⟩ := (hlive e').mp he'
    rw [seq, hinst] at hseq
    rw [hinst] at hkind
    refine ⟨?_, e', he', hseq, hkind⟩
    rintro rfl
    exact hne (h.seq_inj he'.1 he.1 hseq)

/-- A number that is not outstanding need not be erased. -/
lemma Inv.erase_barrier (h : Inv s) (he : s.Live e)
    (hsns : ∀ sn, sn ∈ sns ↔ ∃ e, s.Live e ∧ s.seq e = sn ∧ kind (s.inst e) = true) :
    (if kind (s.inst e) then sns.erase (s.seq e) else sns) = sns.erase (s.seq e) := by
  split
  · rfl
  · rename_i hkind
    refine (erase_of_not_mem fun hin => ?_).symm
    obtain ⟨_, he', hseq, hkind'⟩ := (hsns _).mp hin
    cases h.seq_inj he'.1 he.1 hseq
    exact hkind hkind'

end

lemma countP_completed {completed : Nat → Bool} (he : completed e = false) (l : List Nat) :
    (l.countP fun p => !update completed e true p) + l.count e =
      l.countP fun p => !completed p := by
  induction l with
  | nil => rfl
  | cons x _ ih =>
    by_cases hx : x = e
    · subst hx
      simp only [countP_cons, count_cons_self, update_self, he] at ih ⊢
      simp only [Bool.not_true, Bool.false_eq_true, if_false, Bool.not_false, if_true]
      omega
    · simp only [countP_cons, count_cons_of_ne hx, update_of_ne hx] at ih ⊢
      omega

def retire (s : MemDepUnit) (e : Nat) (ready : List Nat) : MemDepUnit :=
  { s with
    memDeps := fun d => s.memDeps d - (s.dependInsts e).count d
    ready := ready
    dependInsts := update s.dependInsts e []
    instList := s.instList.erase e
    memDepHash := update s.memDepHash (s.seq e) none
    completed := update s.completed e true
    loadBarrierSNs := s.loadBarrierSNs.erase (s.seq e)
    storeBarrierSNs := s.storeBarrierSNs.erase (s.seq e) }

lemma live_retire {ready : List Nat} (e' : Nat) :
    (s.retire e ready).Live e' ↔ s.Live e' ∧ e' ≠ e := by
  change e' < s.numEntries ∧ s.squashed e' = false ∧ update s.completed e true e' = false ↔
    (e' < s.numEntries ∧ s.squashed e' = false ∧ s.completed e' = false) ∧ e' ≠ e
  by_cases he : e' = e
  · simp [he]
  · simp [he]

lemma Inv.retire (h : Inv s) (he : s.Live e) {ready : List Nat}
    (hhanded : Handed (s.retire e ready)) : Inv (s.retire e ready) where
  hash := h.hash_remove he live_retire rfl
  increasing := h.increasing
  sorted := h.sorted.sublist List.erase_sublist
  listed := h.listed_remove live_retire
  older := h.older
  dependents p d := by
    change (update s.dependInsts e [] p).count d =
      if update s.completed e true p then 0 else (s.producers d).count p
    by_cases hp : p = e
    · subst hp
      rw [update_self, update_self]
      rfl
    · rw [update_of_ne hp, update_of_ne hp]
      exact h.dependents p d
  waiting d := by
    change s.memDeps d - ((s.dependInsts e).count d : Int) =
      ((s.producers d).countP fun p => !update s.completed e true p : Nat)
    have hcount := countP_completed he.2.2 (s.producers d)
    have hdep := h.dependents e d
    rw [he.2.2, if_neg Bool.false_ne_true] at hdep
    rw [h.waiting, hdep]
    omega
  unsquashed d hd := h.unsquashed d ((live_retire d).mp hd).1
  fresh d hd := by
    change _ ∧ update s.completed e true d = false ∧ _
    rw [update_of_ne (he.1.trans_le hd).ne']
    exact h.fresh d hd
  handed := hhanded
  loads := h.barriers_remove he live_retire rfl h.loadsNodup h.loads
  stores := h.barriers_remove he live_retire rfl h.storesNodup h.stores
  loadsNodup := h.loadsNodup.erase _
  storesNodup := h.storesNodup.erase _

def discard (s : MemDepUnit) (e : Nat) : MemDepUnit :=
  { s with
    squashed := update s.squashed e true
    instList := s.instList.erase e
    memDepHash := update s.memDepHash (s.seq e) none
    loadBarrierSNs := s.loadBarrierSNs.erase (s.seq e)
    storeBarrierSNs := s.storeBarrierSNs.erase (s.seq e) }

lemma live_discard (e' : Nat) : (s.discard e).Live e' ↔ s.Live e' ∧ e' ≠ e := by
  change e' < s.numEntries ∧ update s.squashed e true e' = false ∧ s.completed e' = false ↔
    (e' < s.numEntries ∧ s.squashed e' = false ∧ s.completed e' = false) ∧ e' ≠ e
  by_cases he : e' = e
  · simp [he]
  · simp [he]

lemma Inv.discard (h : Inv s) (he : s.Live e) (hyoungest : ∀ d ∈ s.instList, d ≤ e) :
    Inv (s.discard e) where
  hash := h.hash_remove he live_discard rfl
  increasing := h.increasing
  sorted := h.sorted.sublist List.erase_sublist
  listed := h.listed_remove live_discard
  older := h.older
  dependents := h.dependents
  waiting := h.waiting
  unsquashed d hd p hp := by
    -- The producers of an entry are older than it, hence older than the one that is squashed.
    obtain ⟨hlive, -⟩ := (live_discard d).mp hd
    have hne : p ≠ e :=
      ((h.older d p hp).1.trans_le (hyoungest d ((h.listed d).mpr hlive))).ne
    change update s.squashed e true p = false
    rw [update_of_ne hne]
    exact h.unsquashed d hlive p hp
  fresh d hd := by
    change update s.squashed e true d = false ∧ _
    rw [update_of_ne (he.1.trans_le hd).ne']
    exact h.fresh d hd
  handed d := by
    refine ⟨(h.handed d).1, fun hd => (h.handed d).2 ?_⟩
    change update s.squashed e true d = false at hd
    by_cases hde : d = e
    · rw [hde, update_self] at hd
      exact absurd hd.symm Bool.false_ne_true
    · rwa [update_of_ne hde] at hd
  loads := h.barriers_remove he live_discard rfl h.loadsNodup h.loads
  stores := h.barriers_remove he live_discard rfl h.storesNodup h.stores
  loadsNodup := h.loadsNodup.erase _
  storesNodup := h.storesNodup.erase _

/-! ## The operations keep the invariant -/

def woken (s : MemDepUnit) (e : Nat) (ready : List Nat) : MemDepUnit :=
  { s with
    memDeps := fun d => s.memDeps d - (s.dependInsts e).count d
    ready := ready
    dependInsts := update s.dependInsts e [] }

lemma Inv.wakeDependents (h : Inv s) (he : s.Live e) :
    ∃ ready, s.wakeDependents (s.inst e) = .ok (s.woken e ready) ∧ Handed (s.retire e ready) := by
  have hproducer : ∀ d, (s.dependInsts e).count d = (s.producers d).count e := by
    intro d
    rw [h.dependents, he.2.2]
    rfl
  unfold MemDepUnit.wakeDependents
  by_cases hhas : (s.inst e).hasDependents = true
  · have hentered : ∀ d ∈ s.dependInsts e, s.entered d = true := by
      intro d hd
      have hpos := count_pos_iff.mpr hd
      rw [hproducer] at hpos
      exact (h.older d e (count_pos_iff.mp hpos)).2.2.1
    have hle : ∀ d, ((s.dependInsts e).count d : Int) ≤ s.memDeps d := by
      intro d
      have hcount := countP_completed he.2.2 (s.producers d)
      rw [h.waiting, hproducer]
      omega
    obtain ⟨ready, hloop, hhanded⟩ := h.handed.release _ hentered hle
    refine ⟨ready, ?_, hhanded⟩
    have hfound := findInHash_eq ((h.hash _ e).mpr ⟨he, rfl⟩)
    rw [hhas, hfound]
    change (do let s' ← (s.dependInsts e).foldlM releaseOne s
               return { s' with dependInsts := update s'.dependInsts e [] }) = _
    rw [hloop]
    rfl
  · have hnil : s.dependInsts e = [] :=
      h.dependInsts_nil fun d hd => hhas (h.older d e hd).2.2.2
    have hsame : s.woken e s.ready = s := by
      unfold woken
      simp only [hnil, count_nil, cast_zero, sub_zero]
      rw [← hnil, update_eq_self]
    refine ⟨s.ready, ?_, ?_⟩
    · rw [hsame, if_pos (by simpa using hhas)]
    · have hhanded := h.handed
      rw [← hsame] at hhanded
      exact hhanded

lemma Inv.completeInst (h : Inv s) (he : s.Live e) :
    Meets (s.completeInst (s.inst e)) Inv fun _ => False := by
  obtain ⟨ready, hwake, hhanded⟩ := h.wakeDependents he
  have hfound : (s.woken e ready).findInHash (s.inst e) = .ok e :=
    findInHash_eq ((h.hash _ e).mpr ⟨he, rfl⟩)
  have hstores : ((s.inst e).blocksStores && s.storeBarrierSNs.isEmpty) = false := by
    by_cases hb : (s.inst e).blocksStores = true
    · have hin := (h.stores _).mpr ⟨e, he, rfl, hb⟩
      simp [ne_nil_of_mem hin]
    · simp [hb]
  have hloads : ((s.inst e).blocksLoads && s.loadBarrierSNs.isEmpty) = false := by
    by_cases hb : (s.inst e).blocksLoads = true
    · have hin := (h.loads _).mpr ⟨e, he, rfl, hb⟩
      simp [ne_nil_of_mem hin]
    · simp [hb]

  have hremoved : (s.woken e ready).removeCompleted (s.inst e) = .ok { s.woken e ready with
      instList := s.instList.erase e
      memDepHash := update s.memDepHash (s.seq e) none
      completed := update s.completed e true } := by
    unfold removeCompleted
    rw [hfound]
    rfl
  have heq : s.completeInst (s.inst e) = .ok (s.retire e ready) := by
    simp only [MemDepUnit.completeInst, hwake, hremoved, bind, Except.bind]
    simp only [woken, hstores, hloads, Bool.false_eq_true, if_false, pure, Except.pure,
      MemDepUnit.retire]
    rw [← h.erase_barrier he h.loads, ← h.erase_barrier he h.stores]
    rfl
  rw [heq]
  exact h.retire he hhanded

/-- The loop of `squash`, on the entries that are left in the list. -/
lemma Inv.squashFrom (squashedNum : InstSeqNum) (l : List Nat) : ∀ {s : MemDepUnit}, Inv s →
    s.instList = l.reverse → Meets (squashFrom squashedNum s l) Inv fun _ => False := by
  induction l with
  | nil => exact fun h _ => h
  | cons e rest ih =>
    intro s h hlist
    unfold MemDepUnit.squashFrom
    split
    · rw [reverse_cons] at hlist
      have he : s.Live e := (h.listed e).mp (hlist ▸ by simp)
      have hsorted := h.sorted
      rw [hlist, pairwise_append] at hsorted
      have hbefore : ∀ d ∈ rest.reverse, d < e :=
        fun d hd => hsorted.2.2 d hd e (mem_singleton_self e)
      have herase : s.instList.erase e = rest.reverse := by
        rw [hlist, erase_append_right _ fun hin => Nat.lt_irrefl e (hbefore e hin)]
        simp
      have hyoungest : ∀ d ∈ s.instList, d ≤ e := by
        intro d hd
        rw [hlist, mem_append, mem_singleton] at hd
        rcases hd with hd | rfl
        · exact (hbefore d hd).le
        · exact le_rfl
      refine .bind_of_ok (findInHash_eq ((h.hash _ e).mpr ⟨he, rfl⟩)) ?_
      have hnext := ih (h.discard he hyoungest) herase
      unfold MemDepUnit.discard at hnext
      rw [herase] at hnext
      exact hnext
    · exact h

lemma Inv.squash (h : Inv s) (squashedNum : InstSeqNum) :
    Meets (s.squash squashedNum) Inv fun _ => False :=
  h.squashFrom squashedNum _ (reverse_reverse _).symm

/-- Instructions come in the order of their numbers, and the predictor names stores before the
instruction. Registers become ready once, and an instruction completes while it has an entry. -/
def Legal (s : MemDepUnit) : Op → Prop
  | .insert inst prediction storeQueue _ =>
    (∀ e < s.numEntries, s.seq e < inst.seqNum) ∧
      (inst.isStore || inst.isAtomic || inst.isLoad) = true ∧
      (∀ store ∈ storeQueue, s.Predicts inst store.seqNum) ∧
      (prediction.seqNum ≠ 0 → s.Predicts inst prediction.seqNum)
  | .insertBarrier inst => ∀ e < s.numEntries, s.seq e < inst.seqNum
  | .regsReady inst =>
    (s.memDepHash inst.seqNum).any (fun e => s.entered e && !s.regsReady e) = true
  | .completeInst inst =>
    (s.memDepHash inst.seqNum).any (fun e => decide (s.inst e = inst)) = true
  | .squash _ => True

instance (s : MemDepUnit) : DecidablePred s.Legal
  | .insert .. => inferInstanceAs (Decidable (_ ∧ _ ∧ _ ∧ _))
  | .insertBarrier _ => inferInstanceAs (Decidable (∀ e < _, _))
  | .regsReady _ => inferInstanceAs (Decidable (_ = true))
  | .completeInst _ => inferInstanceAs (Decidable (_ = true))
  | .squash _ => inferInstanceAs (Decidable True)

lemma predicts_store {prediction : PredictionResult} {storeQueue : List DynInst}
    (hqueue : ∀ store ∈ storeQueue, s.Predicts inst store.seqNum)
    (hnum : prediction.seqNum ≠ 0 → s.Predicts inst prediction.seqNum) :
    ∀ sn ∈ prediction.store storeQueue, s.Predicts inst sn := by
  intro sn hsn
  unfold PredictionResult.store at hsn
  split at hsn
  · obtain ⟨store, hget, rfl⟩ := map_eq_some_iff.mp hsn
    exact hqueue store (mem_of_getElem? hget)
  · split at hsn
    · rename_i hne
      cases hsn
      exact hnum hne
    · exact absurd hsn (by simp)

lemma Inv.step (h : Inv s) {op : Op} (hlegal : s.Legal op) :
    Meets (s.step op) Inv fun _ => False := by
  cases op with
  | insert inst _ _ ready =>
    obtain ⟨hnew, hmem, hqueue, hnum⟩ := hlegal
    change Meets (s.insert inst _ ready) _ _
    rw [insert_eq_extend h hnew hmem, meets_ok]
    exact h.extend hnew (h.dependencies hnew (predicts_store hqueue hnum)) fun _ => rfl
  | insertBarrier inst =>
    change Meets (.ok (s.insertBarrier inst)) _ _
    rw [insertBarrier_eq_extend h hlegal, meets_ok]
    exact h.extend hlegal (fun _ hd => absurd hd not_mem_nil) fun hne => absurd rfl hne
  | regsReady =>
    obtain ⟨e, hhash, he⟩ := Option.any_eq_true _ _ |>.mp hlegal
    rw [Bool.and_eq_true, Bool.not_eq_true'] at he
    exact h.setRegsReady hhash he.1 he.2
  | completeInst =>
    obtain ⟨e, hhash, he⟩ := Option.any_eq_true _ _ |>.mp hlegal
    rw [← of_decide_eq_true he] at hhash ⊢
    exact h.completeInst ((h.hash _ e).mp hhash).1
  | squash squashedNum => exact h.squash squashedNum

/-- How often `e` stands on the lists of live entries. -/
def occurrences (s : MemDepUnit) (e : Nat) : Nat :=
  ∑ p ∈ (Finset.range s.numEntries).filter s.Live, (s.dependInsts p).count e

lemma countP_eq_sum (l : List Nat)
    (hl : ∀ p ∈ l, p < s.numEntries ∧ s.squashed p = false) :
    (l.countP fun p => !s.completed p) =
      ∑ p ∈ (Finset.range s.numEntries).filter s.Live, l.count p := by
  induction l with
  | nil => simp
  | cons x _ ih =>
    obtain ⟨hx, hl⟩ := forall_mem_cons.mp hl
    have hmem : x ∈ (Finset.range s.numEntries).filter s.Live ↔ (!s.completed x) = true := by
      rw [Finset.mem_filter, Finset.mem_range, Bool.not_eq_true']
      exact ⟨fun h => h.2.2.2, fun h => ⟨hx.1, hx.1, hx.2, h⟩⟩
    simp only [countP_cons, count_cons, beq_iff_eq, Finset.sum_add_distrib,
      Finset.sum_ite_eq, hmem, ih hl]

lemma Inv.memDeps_eq_occurrences (h : Inv s) (he : s.Live e) : s.memDeps e = s.occurrences e := by
  have hlive : ∀ p ∈ s.producers e, p < s.numEntries ∧ s.squashed p = false := fun p hp =>
    ⟨(h.older e p hp).1.trans (h.older e p hp).2.1, h.unsquashed e he p hp⟩
  rw [h.waiting, countP_eq_sum _ hlive, occurrences]
  congr 1
  refine Finset.sum_congr rfl fun p hp => ?_
  rw [h.dependents, (Finset.mem_filter.mp hp).2.2.2, if_neg Bool.false_ne_true]

/-- Registers are ready, and everything the entry was made dependent on has completed. -/
def Due (s : MemDepUnit) (e : Nat) : Prop :=
  s.regsReady e = true ∧ ∀ p ∈ s.producers e, s.completed p = true

lemma Inv.ready_iff_due (h : Inv s) (hentered : s.entered e = true) (hs : s.squashed e = false) :
    s.ready.count e = 1 ↔ s.Due e := by
  have hzero : s.memDeps e = 0 ↔ ∀ p ∈ s.producers e, s.completed p = true := by
    rw [h.waiting, Int.natCast_eq_zero, countP_eq_zero]
    simp
  rw [(h.handed e).2 hs, Due, ← hzero]
  split
  · rename_i hdue
    exact iff_of_true rfl hdue.2
  · rename_i hnot
    exact iff_of_false zero_ne_one fun hdue => hnot ⟨hentered, hdue⟩

def writeBarrier (seqNum : InstSeqNum) : DynInst :=
  ⟨seqNum, false, false, false, false, true, false⟩

def storeInst (seqNum : InstSeqNum) : DynInst :=
  ⟨seqNum, false, true, false, false, false, false⟩

def loadInst (seqNum : InstSeqNum) : DynInst :=
  ⟨seqNum, true, false, false, false, false, false⟩

def wakeupRun : List Op :=
  [.insertBarrier (writeBarrier 1), .insert (storeInst 2) ⟨0, 0⟩ [] true,
    .insert (loadInst 3) ⟨0, 1⟩ [storeInst 2] false,
    .insert (loadInst 4) ⟨2, 0⟩ [] true, .squash 3, .regsReady (loadInst 3),
    .completeInst (writeBarrier 1), .completeInst (storeInst 2), .completeInst (loadInst 3)]

end MemDepUnit

end BTBFerret.MemDep
