import BTBFerret.Rename

/-!
# Physical registers are conserved

A renameable physical register is free, waits to be freed, is mapped, or was replaced by a mapping
that is not committed yet. The operations move registers between these places; `occ` counts how
often the places have one. Undoing the history entries younger than an instruction gives the map
right after it, as long as none of them was committed.
-/

namespace BTBFerret.Renaming

open FallibleRuns List Function

/-! ## Where a register is -/

def replaced (history : List RenameHistory) : List PhysRegId :=
  (history.filter fun h => decide (h.newPhysReg ≠ h.prevPhysReg)).map RenameHistory.prevPhysReg

variable (pool : Pool)

def Pool.occ (p : PhysRegId) : Nat :=
  ∑ c, (pool.freeLists c).count p

def RenameMap.occ (map : RenameMap) (p : PhysRegId) : Nat :=
  ∑ c, (map c).count p

def RenameThread.occ (t : RenameThread) (p : PhysRegId) : Nat :=
  t.freeingInProgress.count p + RenameMap.occ t.renameMap p + (replaced t.historyBuffer).count p

/-- How often the free lists and the threads have the register. -/
def Rename.occ (tids : Finset ThreadID) (s : Rename) (p : PhysRegId) : Nat :=
  s.pool.occ p + ∑ tid ∈ tids, (s.threads tid).occ p

lemma sum_update {ι β : Type} [DecidableEq ι] {S : Finset ι} {a : ι} (ha : a ∈ S) (g : ι → β)
    (v : β) (f : β → Nat) :
    ∑ i ∈ S, f (Function.update g a v i) + f (g a) = ∑ i ∈ S, f (g i) + f v := by
  have hrest : ∑ i ∈ S.erase a, f (Function.update g a v i) = ∑ i ∈ S.erase a, f (g i) :=
    Finset.sum_congr rfl fun i hi => by rw [update_of_ne (Finset.ne_of_mem_erase hi)]
  rw [← Finset.add_sum_erase S _ ha, ← Finset.add_sum_erase S (fun i => f (g i)) ha, hrest,
    Function.update_self]
  omega

lemma count_cons_eq (q : PhysRegId) (l : List PhysRegId) (p : PhysRegId) :
    (q :: l).count p = [q].count p + l.count p := by
  rw [← count_append, singleton_append]

lemma count_set {l : List PhysRegId} {i : Nat} {a : PhysRegId} (h : l[i]? = some a)
    (b p : PhysRegId) : (l.set i b).count p + [a].count p = l.count p + [b].count p := by
  induction l generalizing i with
  | nil => cases h
  | cons x l ih =>
    cases i with
    | zero =>
      have hx : x = a := Option.some.inj h
      subst hx
      rw [set_cons_zero, count_cons_eq b l, count_cons_eq x l]
      omega
    | succ i =>
      have := ih (i := i) h
      rw [set_cons_succ, count_cons_eq x (l.set i b), count_cons_eq x l]
      omega

/-- Taking or returning registers of one class changes the counts by theirs. -/
lemma occ_update_freeLists (c : RegClassType) (l : List PhysRegId) (pins : PhysRegId → Int)
    (p : PhysRegId) :
    Pool.occ ⟨update pool.freeLists c l, pins⟩ p + (pool.freeLists c).count p =
      pool.occ p + l.count p :=
  sum_update (Finset.mem_univ c) pool.freeLists l fun l => l.count p

lemma occ_addReg (q p : PhysRegId) : (pool.addReg q).occ p = pool.occ p + [q].count p := by
  have := occ_update_freeLists pool q.classValue (pool.freeLists q.classValue ++ [q]) pool.pins p
  rw [count_append] at this
  unfold Pool.addReg
  omega

lemma occ_foldl_addReg (l : List PhysRegId) (p : PhysRegId) :
    (l.foldl Pool.addReg pool).occ p = pool.occ p + l.count p := by
  induction l generalizing pool with
  | nil => rfl
  | cons q l ih =>
    rw [foldl_cons, ih, occ_addReg, count_cons_eq q l]
    omega

variable {map : RenameMap} {c : RegClassType}

lemma occ_update_map {i : Nat} {a : PhysRegId} (h : (map c)[i]? = some a) (b p : PhysRegId) :
    RenameMap.occ (Function.update map c ((map c).set i b)) p + [a].count p =
      RenameMap.occ map p + [b].count p := by
  have hset := count_set h b p
  have hsum := sum_update (Finset.mem_univ c) map ((map c).set i b) fun l => l.count p
  unfold RenameMap.occ
  omega

lemma replaced_cons (h : RenameHistory) (history : List RenameHistory) :
    replaced (h :: history) =
      (if h.newPhysReg ≠ h.prevPhysReg then [h.prevPhysReg] else []) ++ replaced history := by
  unfold replaced
  by_cases hne : h.newPhysReg ≠ h.prevPhysReg
  · rw [filter_cons_of_pos (by simpa using hne), if_pos hne]
    rfl
  · rw [filter_cons_of_neg (by simpa using hne), if_neg hne]
    rfl

lemma replaced_append (l r : List RenameHistory) :
    replaced (l ++ r) = replaced l ++ replaced r := by
  unfold replaced
  rw [filter_append, map_append]

/-! ## Undoing -/

def undoMap (h : RenameHistory) (map : RenameMap) : RenameMap :=
  if h.newPhysReg ≠ h.prevPhysReg then
    update map h.archReg.classValue
      ((map h.archReg.classValue).set h.archReg.index h.prevPhysReg)
  else map

def rewind (sn : InstSeqNum) : List RenameHistory → RenameMap → RenameMap
  | [], map => map
  | h :: rest, map => if sn < h.instSeqNum then rewind sn rest (undoMap h map) else map

/-- From the newest entry on, every entry that changed the map is still in force when those after
it are undone. -/
def Undoable : List RenameHistory → RenameMap → Prop
  | [], _ => True
  | h :: rest, map =>
    (h.newPhysReg ≠ h.prevPhysReg → h.archReg.isRenameable = true ∧
      h.prevPhysReg.classValue = h.archReg.classValue ∧
      (map h.archReg.classValue)[h.archReg.index]? = some h.newPhysReg) ∧
    Undoable rest (undoMap h map)

lemma Undoable.of_append {l r : List RenameHistory} (h : Undoable (l ++ r) map) :
    Undoable l map := by
  induction l generalizing map with
  | nil => trivial
  | cons _ _ ih => exact ⟨h.1, ih h.2⟩

variable {sn : InstSeqNum}

lemma rewind_of_le {history : List RenameHistory} (h : ∀ x ∈ history, x.instSeqNum ≤ sn)
    (map : RenameMap) : rewind sn history map = map := by
  cases history with
  | nil => rfl
  | cons x => exact if_neg (Nat.not_lt.mpr (h x mem_cons_self))

lemma rewind_append {l r : List RenameHistory} (h : ∀ x ∈ r, x.instSeqNum ≤ sn)
    (map : RenameMap) :
    rewind sn (l ++ r) map = rewind sn l map := by
  induction l generalizing map with
  | nil => exact rewind_of_le h map
  | cons _ _ ih =>
    rw [cons_append]
    unfold rewind
    rw [ih]

/-- Going back further goes on from where one went back to before. -/
lemma rewind_rewind {sn' : InstSeqNum} (hle : sn ≤ sn') (history : List RenameHistory)
    (map : RenameMap) :
    rewind sn (history.dropWhile fun h => decide (sn' < h.instSeqNum)) (rewind sn' history map) =
      rewind sn history map := by
  induction history generalizing map with
  | nil => rfl
  | cons x history ih =>
    by_cases hx : sn' < x.instSeqNum
    · rw [dropWhile_cons_of_pos (by simpa using hx), rewind, rewind, if_pos hx,
        if_pos (hle.trans_lt hx)]
      exact ih _
    · have hstop : rewind sn' (x :: history) map = map := if_neg hx
      rw [dropWhile_cons_of_neg (by simpa using hx), hstop]

/-! ## Renaming a destination -/

/-- What renaming a destination does: the register is kept, or the next free one replaces it. -/
inductive Renames (pool : Pool) (map : RenameMap) (r : RegId) : RenameInfo → Pool → RenameMap → Prop
  | kept {p : PhysRegId} {pool' : Pool} (hpool : pool'.freeLists = pool.freeLists) :
    Renames pool map r (p, p) pool' map
  | taken {new prev : PhysRegId} {rest : List PhysRegId} {pins : PhysRegId → Int}
    (hr : r.isRenameable = true) (hprev : (map r.classValue)[r.index]? = some prev)
    (hfree : pool.freeLists r.classValue = new :: rest) :
    Renames pool map r (new, prev) ⟨update pool.freeLists r.classValue rest, pins⟩
      (Function.update map r.classValue ((map r.classValue).set r.index new))

def Served (map : RenameMap) (r : RegId) : Prop :=
  r.isRenameable = true → r.index < (map r.classValue).length ∧ pool.freeLists r.classValue ≠ []

variable {pool : Pool} {r : RegId}

lemma meets_rename (c : RegFile) (h : Served pool map r) :
    Meets (UnifiedRenameMap.rename c pool map r)
      (fun x => Renames pool map r x.1 x.2.1 x.2.2) (· = .pinnedTwice) := by
  unfold UnifiedRenameMap.rename
  cases hr : r.isRenameable with
  | false =>
    rw [Bool.not_false, if_pos rfl]
    refine Renames.kept ?_
    dsimp only
    split <;> rfl
  | true =>
    obtain ⟨hindex, hfree⟩ := h hr
    have hinvalid : r.classValue ≠ .invalid := by
      intro heq
      rw [RegId.isRenameable, heq] at hr
      exact absurd hr (by decide)
    have hsame : Function.update map r.classValue (map r.classValue) = map :=
      Function.update_eq_self _ _
    rw [Bool.not_true, if_neg Bool.false_ne_true]
    unfold SimpleRenameMap.rename
    rw [getElem?_eq_getElem hindex]
    dsimp only
    rw [if_neg hinvalid]
    split
    · split
      · change Renames pool map r _ _ _
        rw [hsame]
        exact Renames.kept rfl
      · rfl
    · cases hlist : pool.freeLists r.classValue with
      | nil => exact absurd hlist hfree
      | cons => exact Renames.taken hr (getElem?_eq_getElem hindex) hlist

/-! ## What a thread keeps -/

/-- The registers of a map, and those that are free, are of the class they are listed under. -/
def Classified (lists : RegClassType → List PhysRegId) : Prop :=
  ∀ c, ∀ p ∈ lists c, p.classValue = c

/-- Its history can be undone from the newest entry on, entries and records are ordered, and every
point since the last commit can be gone back to. -/
structure Traceable (t : RenameThread) : Prop where
  undoable : Undoable t.historyBuffer t.renameMap
  ordered : t.historyBuffer.Pairwise fun h h' => h'.instSeqNum ≤ h.instSeqNum
  bounded : ∀ h ∈ t.historyBuffer, h.instSeqNum ≤ t.youngest
  records : t.renamed.Pairwise fun r r' => r'.1 < r.1
  recorded : ∀ r ∈ t.renamed, r.1 ≤ t.youngest
  rewinds : ∀ sn, t.lastCommitted ≤ sn →
    (t.renamed.find? fun r => decide (r.1 ≤ sn)).map Prod.snd =
      some (rewind sn t.historyBuffer t.renameMap)
  classes : Classified t.renameMap

/-- What holds between two rounds of the loop over the destinations of an instruction. -/
structure Midway (t₀ : RenameThread) (sn : InstSeqNum) (t : RenameThread) : Prop where
  undoable : Undoable t.historyBuffer t.renameMap
  ordered : t.historyBuffer.Pairwise fun h h' => h'.instSeqNum ≤ h.instSeqNum
  bounded : ∀ h ∈ t.historyBuffer, h.instSeqNum ≤ sn
  rewinds : ∀ sn' < sn, rewind sn' t.historyBuffer t.renameMap =
    rewind sn' t₀.historyBuffer t₀.renameMap
  classes : Classified t.renameMap
  lengths : ∀ c, (t.renameMap c).length = (t₀.renameMap c).length
  renamed : t.renamed = t₀.renamed
  lastCommitted : t.lastCommitted = t₀.lastCommitted

lemma undoMap_taken {new prev : PhysRegId} (sn : InstSeqNum)
    (hprev : (map r.classValue)[r.index]? = some prev) (hne : new ≠ prev) :
    undoMap ⟨sn, r, new, prev⟩
      (Function.update map r.classValue ((map r.classValue).set r.index new)) = map := by
  unfold undoMap
  rw [if_pos hne]
  dsimp only
  rw [update_self, update_idem, set_set]
  obtain ⟨_, heq⟩ := List.getElem?_eq_some_iff.mp hprev
  rw [← heq, set_getElem_self, update_eq_self]

lemma one_le_pool_occ {p : PhysRegId} (h : p ∈ pool.freeLists c) : 1 ≤ pool.occ p :=
  (List.count_pos_iff.mpr h).trans_le
    (Finset.single_le_sum (f := fun c => (pool.freeLists c).count p) (fun _ _ => Nat.zero_le _)
      (Finset.mem_univ c))

lemma one_le_map_occ {p : PhysRegId} (h : p ∈ map c) : 1 ≤ RenameMap.occ map p :=
  (List.count_pos_iff.mpr h).trans_le
    (Finset.single_le_sum (f := fun c => (map c).count p) (fun _ _ => Nat.zero_le _)
      (Finset.mem_univ c))

lemma Classified.update {lists : RegClassType → List PhysRegId} (h : Classified lists)
    {l : List PhysRegId} (hl : ∀ p ∈ l, p.classValue = c) :
    Classified (Function.update lists c l) := by
  intro c' p hp
  by_cases hc : c' = c
  · subst hc
    rw [Function.update_self] at hp
    exact hl p hp
  · rw [update_of_ne hc] at hp
    exact h c' p hp

lemma Classified.addReg (h : Classified pool.freeLists) (q : PhysRegId) :
    Classified (pool.addReg q).freeLists := by
  refine h.update fun p hp => ?_
  rcases mem_append.mp hp with hp | hp
  · exact h _ p hp
  · rw [mem_singleton.mp hp]

variable {t₀ t : RenameThread}

/-- An entry for a kept register changes nothing that is undone. -/
lemma Midway.kept (h : Midway t₀ sn t) (r : RegId) (p : PhysRegId) :
    Midway t₀ sn { t with historyBuffer := ⟨sn, r, p, p⟩ :: t.historyBuffer } := by
  have hundo : undoMap ⟨sn, r, p, p⟩ t.renameMap = t.renameMap := if_neg fun hne => hne rfl
  refine ⟨⟨fun hne => absurd rfl hne, ?_⟩, List.pairwise_cons.mpr ⟨h.bounded, h.ordered⟩, ?_, ?_,
    h.classes, h.lengths, h.renamed, h.lastCommitted⟩
  · rw [hundo]
    exact h.undoable
  · exact forall_mem_cons.mpr ⟨le_rfl, h.bounded⟩
  · intro sn' hlt
    rw [← h.rewinds sn' hlt]
    change (if sn' < sn then _ else _) = _
    rw [if_pos hlt, hundo]

/-- An entry for a register that was replaced is undone first. -/
lemma Midway.taken (h : Midway t₀ sn t) {new prev : PhysRegId} (hr : r.isRenameable = true)
    (hprev : (t.renameMap r.classValue)[r.index]? = some prev) (hne : new ≠ prev)
    (hclass : new.classValue = r.classValue) : Midway t₀ sn { t with
      renameMap := Function.update t.renameMap r.classValue
        ((t.renameMap r.classValue).set r.index new)
      historyBuffer := ⟨sn, r, new, prev⟩ :: t.historyBuffer } := by
  have hundo := undoMap_taken sn hprev hne
  obtain ⟨hlt, hget⟩ := List.getElem?_eq_some_iff.mp hprev
  refine ⟨⟨fun _ => ⟨hr, ?_, ?_⟩, ?_⟩, List.pairwise_cons.mpr ⟨h.bounded, h.ordered⟩, ?_, ?_, ?_,
    ?_,
    h.renamed, h.lastCommitted⟩
  · exact h.classes _ prev (hget ▸ List.getElem_mem hlt)
  · change (Function.update t.renameMap r.classValue _ r.classValue)[r.index]? = _
    rw [Function.update_self]
    exact List.getElem?_set_self hlt
  · rw [hundo]
    exact h.undoable
  · exact forall_mem_cons.mpr ⟨le_rfl, h.bounded⟩
  · intro sn' hsn
    rw [← h.rewinds sn' hsn]
    change (if sn' < sn then _ else _) = _
    rw [if_pos hsn, hundo]
  · refine h.classes.update fun p hp => ?_
    rcases mem_or_eq_of_mem_set hp with hp | rfl
    · exact h.classes _ p hp
    · exact hclass
  · intro c
    dsimp only
    by_cases hc : c = r.classValue
    · subst hc
      rw [Function.update_self, length_set]
      exact h.lengths _
    · rw [update_of_ne hc]
      exact h.lengths c

/-- What a round of the loop keeps, and the free registers it leaves. -/
structure Progress (t₀ : RenameThread) (sn : InstSeqNum) (before after : Pool × RenameThread)
    (r : RegId) : Prop where
  midway : Midway t₀ sn after.2
  classes : Classified after.1.freeLists
  occ : ∀ p, after.1.occ p + after.2.occ p = before.1.occ p + before.2.occ p
  free : ∀ c, (before.1.freeLists c).length ≤
    (after.1.freeLists c).length + if r.classValue = c then 1 else 0

lemma meets_renameDest (c : RegFile) (hmid : Midway t₀ sn t) (hclass : Classified pool.freeLists)
    (honce : ∀ p, pool.occ p + t.occ p ≤ 1) (hserved : Served pool t.renameMap r) :
    Meets (renameDest c sn (pool, t) r) (fun after => Progress t₀ sn (pool, t) after r)
      (· = .pinnedTwice) := by
  unfold renameDest
  refine (meets_rename c hserved).bind ?_
  rintro ⟨info, pool', map'⟩ hrenames
  cases hrenames with
  | @kept p pool' hpool =>
    refine ⟨hmid.kept r p, ?_, fun q => ?_, fun c => ?_⟩
    · change Classified pool'.freeLists
      rw [hpool]
      exact hclass
    · change pool'.occ q + _ = _
      have hrep : replaced (⟨sn, r, p, p⟩ :: t.historyBuffer) = replaced t.historyBuffer := by
        rw [replaced_cons, if_neg fun hne => hne rfl]
        rfl
      unfold Pool.occ RenameThread.occ
      rw [hpool, hrep]
    · change _ ≤ (pool'.freeLists c).length + _
      rw [hpool]
      exact Nat.le_add_right _ _
  | @taken new prev rest pins hr hprev hfree =>
    have hnew : new ∈ pool.freeLists r.classValue := by
      rw [hfree]
      exact mem_cons_self
    have hold : prev ∈ t.renameMap r.classValue := mem_of_getElem? hprev
    -- a register that is mapped is not free as well
    have hne : new ≠ prev := by
      intro heq
      have hpool := one_le_pool_occ hnew
      have hmap := one_le_map_occ hold
      have := honce new
      rw [heq] at hpool this
      unfold RenameThread.occ at this
      omega
    refine ⟨hmid.taken hr hprev hne (hclass _ new hnew), ?_, fun p => ?_, fun c => ?_⟩
    · exact hclass.update fun p hp => hclass _ p (by rw [hfree]; exact mem_cons_of_mem _ hp)
    · have hpool := occ_update_freeLists pool r.classValue rest pins p
      have hmap := occ_update_map hprev new p
      have hrep : (replaced (⟨sn, r, new, prev⟩ :: t.historyBuffer)).count p =
          [prev].count p + (replaced t.historyBuffer).count p := by
        rw [replaced_cons, if_pos hne, count_append]
      rw [hfree, count_cons_eq new rest] at hpool
      change Pool.occ ⟨Function.update pool.freeLists r.classValue rest, pins⟩ p +
          (t.freeingInProgress.count p + RenameMap.occ (Function.update t.renameMap r.classValue
            ((t.renameMap r.classValue).set r.index new)) p +
          (replaced (⟨sn, r, new, prev⟩ :: t.historyBuffer)).count p) =
        pool.occ p + (t.freeingInProgress.count p + RenameMap.occ t.renameMap p +
          (replaced t.historyBuffer).count p)
      omega
    · by_cases hc : r.classValue = c
      · subst hc
        rw [if_pos rfl, hfree]
        change _ ≤ (Function.update pool.freeLists r.classValue rest r.classValue).length + 1
        rw [Function.update_self, length_cons]
      · rw [if_neg hc]
        change _ ≤ (Function.update pool.freeLists r.classValue rest c).length + 0
        rw [update_of_ne (Ne.symm hc)]
        exact le_rfl

lemma meets_renameDests (c : RegFile) {dests : List RegId} :
    ∀ {pool : Pool} {t : RenameThread}, Midway t₀ sn t →
    Classified pool.freeLists → (∀ p, pool.occ p + t.occ p ≤ 1) →
    (∀ r ∈ dests, r.isRenameable = true → r.index < (t₀.renameMap r.classValue).length) →
    (∀ c, c ≠ .misc → c ≠ .invalid →
      dests.countP (fun r => decide (r.classValue = c)) ≤ (pool.freeLists c).length) →
    Meets (dests.foldlM (renameDest c sn) (pool, t))
      (fun after => Midway t₀ sn after.2 ∧ Classified after.1.freeLists ∧
        ∀ p, after.1.occ p + after.2.occ p = pool.occ p + t.occ p) (· = .pinnedTwice) := by
  induction dests with
  | nil => exact fun hmid hclass _ _ _ => ⟨hmid, hclass, fun _ => rfl⟩
  | cons r _ ih =>
    intro pool t hmid hclass honce hindex hfree
    have hserved : Served pool t.renameMap r := by
      intro hr
      obtain ⟨hmisc, hinvalid⟩ : r.classValue ≠ .misc ∧ r.classValue ≠ .invalid := by
        simpa [RegId.isRenameable] using hr
      refine ⟨hmid.lengths _ ▸ hindex r mem_cons_self hr, fun hnil => ?_⟩
      have := hfree r.classValue hmisc hinvalid
      rw [hnil, countP_cons_of_pos (by simp)] at this
      simp at this
    rw [foldlM_cons]
    refine (meets_renameDest c hmid hclass honce hserved).bind ?_
    rintro ⟨pool', t'⟩ hprogress
    have honce' : ∀ p, pool'.occ p + t'.occ p ≤ 1 := fun p => (hprogress.occ p).trans_le (honce p)
    refine (ih hprogress.midway hprogress.classes honce'
      (fun q hq => hindex q (mem_cons_of_mem r hq)) fun c hmisc hinvalid => ?_).mono
      (fun after hafter => ⟨hafter.1, hafter.2.1, fun p => ?_⟩) fun _ hf => hf
    · have hleft := hprogress.free c
      have := hfree c hmisc hinvalid
      rw [countP_cons] at this
      simp only [decide_eq_true_eq] at this
      change _ ≤ (pool'.freeLists c).length
      dsimp only at hleft
      omega
    · exact (hafter.2.2 p).trans (hprogress.occ p)

lemma Traceable.renameDestRegs (c : RegFile) {inst : DynInst} (h : Traceable t)
    (hclass : Classified pool.freeLists) (honce : ∀ p, pool.occ p + t.occ p ≤ 1)
    (hyounger : t.youngest < inst.seqNum) (hcan : canRename pool inst)
    (hindex : ∀ r ∈ inst.destRegs, r.isRenameable = true →
      r.index < (t.renameMap r.classValue).length) :
    Meets (renameDestRegs c pool t inst) (fun after => Traceable after.2 ∧
      Classified after.1.freeLists ∧ ∀ p, after.1.occ p + after.2.occ p = pool.occ p + t.occ p)
      (· = .pinnedTwice) := by
  have hstart : Midway t inst.seqNum t :=
    ⟨h.undoable, h.ordered, fun x hx => (h.bounded x hx).trans hyounger.le, fun _ _ => rfl,
      h.classes, fun _ => rfl, rfl, rfl⟩
  unfold Renaming.renameDestRegs
  refine (meets_renameDests c hstart hclass honce hindex hcan).bind ?_
  rintro ⟨pool', t'⟩ ⟨hmid, hclass', hocc⟩
  refine ⟨⟨hmid.undoable, hmid.ordered, hmid.bounded, ?_, ?_, ?_, hmid.classes⟩, hclass', hocc⟩
  · refine pairwise_cons.mpr ⟨fun r hr => ?_, ?_⟩
    · exact (h.recorded r (hmid.renamed ▸ hr)).trans_lt hyounger
    · rw [hmid.renamed]
      exact h.records
  · refine forall_mem_cons.mpr ⟨le_rfl, fun r hr => ?_⟩
    exact (h.recorded r (hmid.renamed ▸ hr)).trans hyounger.le
  · intro sn hsn
    dsimp only
    by_cases hle : inst.seqNum ≤ sn
    · rw [find?_cons_of_pos (by simpa using hle),
        rewind_of_le fun x hx => (hmid.bounded x hx).trans hle]
      rfl
    · rw [find?_cons_of_neg (by simpa using hle), hmid.renamed, hmid.rewinds sn (not_le.mp hle)]
      exact h.rewinds sn (hmid.lastCommitted ▸ hsn)

/-! ## Squashing -/

variable {h : RenameHistory} {rest : List RenameHistory}

lemma undo_eq (c : RegFile) (hundo : Undoable (h :: rest) t.renameMap) :
    undo c t h = .ok { t with
      renameMap := undoMap h t.renameMap
      freeingInProgress := t.freeingInProgress ++
        if h.newPhysReg ≠ h.prevPhysReg then [h.newPhysReg] else [] } := by
  unfold undo undoMap
  by_cases hne : h.newPhysReg ≠ h.prevPhysReg
  · obtain ⟨hr, hclass, hnew⟩ := hundo.1 hne
    obtain ⟨hlt, -⟩ := List.getElem?_eq_some_iff.mp hnew
    rw [if_pos hne, if_pos hne, if_pos hne]
    unfold UnifiedRenameMap.setEntry
    rw [if_neg (not_not.mpr hclass), hr, Bool.not_true, if_neg Bool.false_ne_true,
      if_neg (not_not.mpr hlt)]
    rfl
  · rw [if_neg hne, if_neg hne, if_neg hne, List.append_nil]

lemma undoMap_occ (hundo : Undoable (h :: rest) map) (p : PhysRegId) :
    (if h.newPhysReg ≠ h.prevPhysReg then [h.newPhysReg] else []).count p +
        RenameMap.occ (undoMap h map) p =
      RenameMap.occ map p +
        (if h.newPhysReg ≠ h.prevPhysReg then [h.prevPhysReg] else []).count p := by
  unfold undoMap
  by_cases hne : h.newPhysReg ≠ h.prevPhysReg
  · have := occ_update_map (hundo.1 hne).2.2 h.prevPhysReg p
    rw [if_pos hne, if_pos hne, if_pos hne]
    omega
  · rw [if_neg hne, if_neg hne, if_neg hne, count_nil]
    omega

lemma Classified.undoMap (hclass : Classified map) (hundo : Undoable (h :: rest) map) :
    Classified (undoMap h map) := by
  unfold Renaming.undoMap
  by_cases hne : h.newPhysReg ≠ h.prevPhysReg
  · rw [if_pos hne]
    refine hclass.update fun p hp => ?_
    rcases mem_or_eq_of_mem_set hp with hp | rfl
    · exact hclass _ p hp
    · exact (hundo.1 hne).2.1
  · rw [if_neg hne]
    exact hclass

/-- The loop of `doSquash` goes back to the point it is given, and what it takes off the map waits
to be freed. -/
lemma squashHistory_eq (c : RegFile) (sn : InstSeqNum) (history : List RenameHistory) :
    ∀ {t : RenameThread}, Undoable history t.renameMap → Classified t.renameMap →
    ∃ freeing, squashHistory c sn t history = .ok { t with
        renameMap := rewind sn history t.renameMap
        historyBuffer := history.dropWhile fun h => decide (sn < h.instSeqNum)
        freeingInProgress := freeing } ∧
      Undoable (history.dropWhile fun h => decide (sn < h.instSeqNum))
        (rewind sn history t.renameMap) ∧
      Classified (rewind sn history t.renameMap) ∧
      ∀ p, freeing.count p + RenameMap.occ (rewind sn history t.renameMap) p +
          (replaced (history.dropWhile fun h => decide (sn < h.instSeqNum))).count p =
        t.freeingInProgress.count p + RenameMap.occ t.renameMap p + (replaced history).count p := by
  induction history with
  | nil => exact fun hundo hclass => ⟨_, rfl, hundo, hclass, fun _ => rfl⟩
  | cons h history ih =>
    intro t hundo hclass
    unfold squashHistory
    by_cases hlt : sn < h.instSeqNum
    · have hrewind : ∀ map, rewind sn (h :: history) map = rewind sn history (undoMap h map) :=
        fun map => if_pos hlt
      rw [if_pos hlt, undo_eq c hundo, dropWhile_cons_of_pos (by simpa using hlt), hrewind]
      obtain ⟨freeing, heq, hundo', hclass', hocc⟩ := ih (t := { t with
        renameMap := undoMap h t.renameMap
        freeingInProgress := t.freeingInProgress ++
          if h.newPhysReg ≠ h.prevPhysReg then [h.newPhysReg] else [] }) hundo.2
        (hclass.undoMap hundo)
      refine ⟨freeing, heq, hundo', hclass', fun p => (hocc p).trans ?_⟩
      have hmap := undoMap_occ hundo p
      change (t.freeingInProgress ++ _).count p + RenameMap.occ (undoMap h t.renameMap) p + _ = _
      rw [replaced_cons, count_append, count_append]
      omega
    · have hrewind : ∀ map, rewind sn (h :: history) map = map := fun map => if_neg hlt
      rw [if_neg hlt, dropWhile_cons_of_neg (by simpa using hlt), hrewind]
      exact ⟨_, rfl, hundo, hclass, fun _ => rfl⟩

/-- In an ordered history the entries that are left after a squash are the older ones. -/
lemma le_of_mem_dropWhile {history : List RenameHistory}
    (h : history.Pairwise fun h h' => h'.instSeqNum ≤ h.instSeqNum) {x : RenameHistory}
    (hx : x ∈ history.dropWhile fun h => decide (sn < h.instSeqNum)) : x.instSeqNum ≤ sn := by
  induction history with
  | nil => exact absurd hx not_mem_nil
  | cons y _ ih =>
    obtain ⟨hhead, hrest⟩ := pairwise_cons.mp h
    by_cases hy : sn < y.instSeqNum
    · rw [dropWhile_cons_of_pos (by simpa using hy)] at hx
      exact ih hrest hx
    · rw [dropWhile_cons_of_neg (by simpa using hy)] at hx
      rcases mem_cons.mp hx with rfl | hx
      · exact not_lt.mp hy
      · exact (hhead x hx).trans (not_lt.mp hy)

/-- The records up to a point, looked at from a point before or after it. -/
lemma find?_filter_le {l : List (InstSeqNum × RenameMap)} (sn sn' : InstSeqNum) :
    (l.filter fun r => decide (r.1 ≤ sn')).find? (fun r => decide (r.1 ≤ sn)) =
      l.find? fun r => decide (r.1 ≤ min sn sn') := by
  rw [find?_filter]
  congr 1
  funext r
  rw [Bool.eq_iff_iff]
  simp [and_comm]

lemma Traceable.doSquash (c : RegFile) (h : Traceable t) (hsn : t.lastCommitted ≤ sn) :
    ∃ t', doSquash c sn t = .ok t' ∧ Traceable t' ∧
      t'.renameMap = rewind sn t.historyBuffer t.renameMap ∧ ∀ p, t'.occ p = t.occ p := by
  obtain ⟨_, heq, hundo, hclass, hocc⟩ := squashHistory_eq c sn t.historyBuffer h.undoable h.classes
  have hleft : ∀ x ∈ t.historyBuffer.dropWhile fun h => decide (sn < h.instSeqNum),
      x.instSeqNum ≤ sn := fun x hx => le_of_mem_dropWhile h.ordered hx
  unfold Renaming.doSquash
  rw [heq]
  refine ⟨_, rfl, ⟨hundo, h.ordered.sublist (dropWhile_sublist _), fun x hx =>
    h.bounded x ((dropWhile_sublist _).subset hx), h.records.sublist filter_sublist,
    fun r hr => h.recorded r (mem_of_mem_filter hr), fun sn' hsn' => ?_, hclass⟩, rfl, hocc⟩
  change (find? _ (t.renamed.filter _)).map Prod.snd = some (rewind sn' _ (rewind sn _ _))
  rw [find?_filter_le]
  rcases le_total sn sn' with hle | hle
  · rw [min_eq_right hle, rewind_of_le fun x hx => (hleft x hx).trans hle]
    exact h.rewinds sn hsn
  · rw [min_eq_left hle, rewind_rewind hle]
    exact h.rewinds sn' hsn'

/-! ## Committing and releasing -/

lemma commitHistory_eq (sn : InstSeqNum) (l : List RenameHistory) : ∀ (pool : Pool),
    Classified pool.freeLists → ∃ gone, l = gone ++ (commitHistory sn pool l).2 ∧
      (∀ x ∈ gone, x.instSeqNum ≤ sn) ∧ Classified (commitHistory sn pool l).1.freeLists ∧
      ∀ p, (commitHistory sn pool l).1.occ p = pool.occ p + (replaced gone).count p := by
  induction l with
  | nil =>
    exact fun pool hclass =>
      ⟨[], rfl, forall_mem_nil _, hclass, fun _ => (Nat.add_zero _).symm⟩
  | cons h _ ih =>
    intro pool hclass
    unfold commitHistory
    by_cases hle : h.instSeqNum ≤ sn
    · rw [if_pos hle]
      have hfreed : Classified (if h.newPhysReg ≠ h.prevPhysReg then pool.addReg h.prevPhysReg
          else pool).freeLists ∧ ∀ p, (if h.newPhysReg ≠ h.prevPhysReg then
            pool.addReg h.prevPhysReg else pool).occ p = pool.occ p +
            (if h.newPhysReg ≠ h.prevPhysReg then [h.prevPhysReg] else []).count p := by
        by_cases hne : h.newPhysReg ≠ h.prevPhysReg
        · rw [if_pos hne, if_pos hne]
          exact ⟨hclass.addReg _, occ_addReg pool _⟩
        · rw [if_neg hne, if_neg hne]
          exact ⟨hclass, fun _ => (Nat.add_zero _).symm⟩
      obtain ⟨gone, hsplit, hgone, hclass', hocc⟩ := ih _ hfreed.1
      refine ⟨h :: gone, by rw [cons_append, ← hsplit],
        forall_mem_cons.mpr ⟨hle, hgone⟩, hclass', fun p => ?_⟩
      rw [hocc p, hfreed.2 p, replaced_cons, count_append]
      omega
    · rw [if_neg hle]
      exact ⟨[], rfl, forall_mem_nil _, hclass, fun _ => (Nat.add_zero _).symm⟩

lemma count_replaced_reverse (l : List RenameHistory) (p : PhysRegId) :
    (replaced l.reverse).count p = (replaced l).count p :=
  (((reverse_perm l).filter _).map _).count_eq p

lemma Traceable.removeFromHistory (h : Traceable t) (hclass : Classified pool.freeLists)
    (sn : InstSeqNum) :
    let after := removeFromHistory sn pool t
    Traceable after.2 ∧ Classified after.1.freeLists ∧
      ∀ p, after.1.occ p + after.2.occ p = pool.occ p + t.occ p := by
  obtain ⟨gone, hsplit, hgone, hclass', hocc⟩ :=
    commitHistory_eq sn t.historyBuffer.reverse pool hclass
  unfold Renaming.removeFromHistory
  dsimp only
  generalize commitHistory sn pool t.historyBuffer.reverse = after at *
  have hhistory : t.historyBuffer = after.2.reverse ++ gone.reverse := by
    rw [← reverse_append, ← hsplit, reverse_reverse]
  have hsub : ∀ x ∈ after.2.reverse, x ∈ t.historyBuffer := fun x hx => by
    rw [hhistory]
    exact mem_append_left _ hx
  refine ⟨⟨?_, ?_, fun x hx => h.bounded x (hsub x hx), h.records, h.recorded, fun sn' hsn' => ?_,
    h.classes⟩, hclass', fun p => ?_⟩
  · have hundo := h.undoable
    rw [hhistory] at hundo
    exact hundo.of_append
  · have hordered := h.ordered
    rw [hhistory] at hordered
    exact (pairwise_append.mp hordered).1
  · rw [h.rewinds sn' ((le_max_left _ _).trans hsn'), hhistory, rewind_append]
    intro x hx
    exact (hgone x (mem_reverse.mp hx)).trans ((le_max_right _ _).trans hsn')
  · have hcount : (replaced t.historyBuffer).count p =
        (replaced after.2.reverse).count p + (replaced gone).count p := by
      rw [hhistory, replaced_append, count_append, count_replaced_reverse gone]
    have hfreed := hocc p
    change after.1.occ p + (t.freeingInProgress.count p + RenameMap.occ t.renameMap p +
        (replaced after.2.reverse).count p) =
      pool.occ p + (t.freeingInProgress.count p + RenameMap.occ t.renameMap p +
        (replaced t.historyBuffer).count p)
    omega

lemma classified_foldl_addReg (h : Classified pool.freeLists) (l : List PhysRegId) :
    Classified (l.foldl Pool.addReg pool).freeLists := by
  induction l generalizing pool with
  | nil => exact h
  | cons q _ ih => exact ih (h.addReg q)

lemma Traceable.releaseSquashed (h : Traceable t) (hclass : Classified pool.freeLists) :
    let after := releaseSquashed pool t
    Traceable after.2 ∧ Classified after.1.freeLists ∧
      ∀ p, after.1.occ p + after.2.occ p = pool.occ p + t.occ p := by
  refine ⟨⟨h.undoable, h.ordered, h.bounded, h.records, h.recorded, h.rewinds, h.classes⟩,
    classified_foldl_addReg hclass _, fun p => ?_⟩
  unfold Renaming.releaseSquashed RenameThread.occ
  have := occ_foldl_addReg pool t.freeingInProgress p
  dsimp only
  rw [count_nil]
  omega

/-! ## Runs -/

/-- What is asked of the stage's callers: instructions are renamed in order, if they can be, and
no committed instruction is squashed. -/
def Legal (tids : Finset ThreadID) (s : Rename) : Op → Prop
  | .renameDestRegs inst tid => tid ∈ tids ∧ (s.threads tid).youngest < inst.seqNum ∧
    canRename s.pool inst ∧ ∀ r ∈ inst.destRegs, r.isRenameable = true →
      r.index < ((s.threads tid).renameMap r.classValue).length
  | .doSquash sn tid => tid ∈ tids ∧ (s.threads tid).lastCommitted ≤ sn
  | .removeFromHistory _ tid => tid ∈ tids
  | .releaseSquashed tid => tid ∈ tids
  | .setPins _ _ => True

instance (tids : Finset ThreadID) (s : Rename) (op : Op) : Decidable (Legal tids s op) := by
  cases op <;> unfold Legal <;> infer_instance

/-- The start: nothing is in flight, the record of each thread begins with its first map, and maps
and free lists have every register of `file` once. -/
structure Starts (tids : Finset ThreadID) (file : Finset PhysRegId) (s : Rename) : Prop where
  threads : ∀ tid ∈ tids, s.threads tid = ⟨(s.threads tid).renameMap, [], [],
    [(0, (s.threads tid).renameMap)], 0, 0⟩
  maps : ∀ tid ∈ tids, Classified (s.threads tid).renameMap
  free : Classified s.pool.freeLists
  occ : ∀ p, s.occ tids p = if p ∈ file then 1 else 0

structure Conserved (tids : Finset ThreadID) (file : Finset PhysRegId) (s : Rename) : Prop where
  threads : ∀ tid ∈ tids, Traceable (s.threads tid)
  free : Classified s.pool.freeLists
  occ : ∀ p, s.occ tids p = if p ∈ file then 1 else 0

variable {tids : Finset ThreadID} {file : Finset PhysRegId} {s : Rename}

lemma Starts.conserved (h : Starts tids file s) : Conserved tids file s := by
  refine ⟨fun tid htid => ?_, h.free, h.occ⟩
  have hmap := h.maps tid htid
  have hthread := h.threads tid htid
  generalize (s.threads tid).renameMap = map at hmap hthread
  rw [hthread]
  refine ⟨trivial, .nil, forall_mem_nil _, pairwise_singleton _ _, ?_, fun sn _ => ?_, hmap⟩
  · exact forall_mem_singleton.mpr le_rfl
  · rw [find?_cons_of_pos (by simp)]
    rfl

lemma Conserved.setThread (h : Conserved tids file s) {tid : ThreadID} (htid : tid ∈ tids)
    (ht : Traceable t) (hfree : Classified pool.freeLists)
    (hocc : ∀ p, pool.occ p + t.occ p = s.pool.occ p + (s.threads tid).occ p) :
    Conserved tids file (s.setThread tid (pool, t)) := by
  refine ⟨fun tid' htid' => ?_, hfree, fun p => ?_⟩
  · change Traceable (update s.threads tid t tid')
    by_cases heq : tid' = tid
    · subst heq
      rw [update_self]
      exact ht
    · rw [update_of_ne heq]
      exact h.threads tid' htid'
  · rw [← h.occ p]
    have hsum := sum_update htid s.threads t fun t => t.occ p
    have hown := hocc p
    change pool.occ p + ∑ i ∈ tids, (update s.threads tid t i).occ p =
      s.pool.occ p + ∑ i ∈ tids, (s.threads i).occ p
    omega

lemma Conserved.once (h : Conserved tids file s) {tid : ThreadID} (htid : tid ∈ tids)
    (p : PhysRegId) : s.pool.occ p + (s.threads tid).occ p ≤ 1 := by
  have hone : s.occ tids p ≤ 1 := by
    rw [h.occ p]
    split <;> omega
  have hthread : (s.threads tid).occ p ≤ ∑ i ∈ tids, (s.threads i).occ p :=
    Finset.single_le_sum (f := fun i => (s.threads i).occ p) (fun _ _ => Nat.zero_le _) htid
  unfold Rename.occ at hone
  omega

lemma Conserved.step (c : RegFile) (h : Conserved tids file s) {op : Op}
    (hlegal : Legal tids s op) :
    Meets (step c s op) (Conserved tids file) (· = .pinnedTwice) := by
  cases op with
  | renameDestRegs _ tid =>
    obtain ⟨htid, hyounger, hcan, hindex⟩ := hlegal
    refine meets_map.mpr (((h.threads tid htid).renameDestRegs c h.free (h.once htid) hyounger hcan
      hindex).mono (fun after hafter => ?_) fun _ hf => hf)
    exact h.setThread htid hafter.1 hafter.2.1 hafter.2.2
  | doSquash sn tid =>
    obtain ⟨htid, hsn⟩ := hlegal
    obtain ⟨_, heq, ht', -, hocc⟩ := (h.threads tid htid).doSquash c hsn
    change Meets (_ <$> doSquash c sn (s.threads tid)) _ _
    rw [heq]
    exact h.setThread htid ht' h.free fun p => by rw [hocc p]
  | removeFromHistory sn tid =>
    obtain ⟨ht', hfree, hocc⟩ := (h.threads tid hlegal).removeFromHistory h.free sn
    exact h.setThread hlegal ht' hfree hocc
  | releaseSquashed tid =>
    obtain ⟨ht', hfree, hocc⟩ := (h.threads tid hlegal).releaseSquashed h.free
    exact h.setThread hlegal ht' hfree hocc
  | setPins => exact ⟨h.threads, h.free, h.occ⟩

/-- The instruction with the greatest sequence number up to `sn` among those that are renamed and
not squashed, with the map right after it. -/
def YoungestUpTo (t : RenameThread) (sn : InstSeqNum) (r : InstSeqNum × RenameMap) : Prop :=
  r ∈ t.renamed ∧ r.1 ≤ sn ∧ ∀ r' ∈ t.renamed, r'.1 ≤ sn → r'.1 ≤ r.1

lemma Traceable.youngestUpTo (h : Traceable t) (hsn : t.lastCommitted ≤ sn) :
    ∃ r, YoungestUpTo t sn r ∧ r.2 = rewind sn t.historyBuffer t.renameMap := by
  obtain ⟨r, hfind, hmap⟩ := Option.map_eq_some_iff.mp (h.rewinds sn hsn)
  obtain ⟨hle, _, _, hsplit, hbefore⟩ := find?_eq_some_iff_append.mp hfind
  have hrecords := h.records
  rw [hsplit] at hrecords
  refine ⟨r, ⟨mem_of_find?_eq_some hfind, by simpa using hle, fun r' hr' hle' => ?_⟩, hmap⟩
  rw [hsplit, mem_append, mem_cons] at hr'
  rcases hr' with hr' | rfl | hr'
  · exact absurd hle' (by simpa using hbefore r' hr')
  · exact le_rfl
  · exact ((List.pairwise_cons.mp (pairwise_append.mp hrecords).2.1).1 r' hr').le

/-- In every reachable state each register of the file is in exactly one place, and a squash
restores the map of its thread to the one right after the youngest instruction that it leaves. -/
theorem registers_conserved (c : RegFile) (hstart : Starts tids file s) {ops : List Op}
    (h : Along (step c) (Legal tids) s ops) :
    Meets (run (step c) s ops)
      (fun s' => (∀ p, s'.occ tids p = if p ∈ file then 1 else 0) ∧
        ∀ tid ∈ tids, ∀ sn, (s'.threads tid).lastCommitted ≤ sn → ∃ t r,
          doSquash c sn (s'.threads tid) = .ok t ∧ YoungestUpTo (s'.threads tid) sn r ∧
            t.renameMap = r.2)
      (· = .pinnedTwice) := by
  refine (meets_run (Conserved tids file) (fun s op hs hop => hs.step c hop) hstart.conserved
    h).mono (fun s' hs' => ⟨hs'.occ, fun tid htid sn hsn => ?_⟩) fun _ hf => hf
  obtain ⟨t, heq, -, hmap, -⟩ := (hs'.threads tid htid).doSquash c hsn
  obtain ⟨r, hr, hr2⟩ := (hs'.threads tid htid).youngestUpTo hsn
  exact ⟨t, r, heq, hr, hmap.trans hr2.symm⟩

def onlyInt (indices : List Nat) (c : RegClassType) : List PhysRegId :=
  if c = .int then indices.map fun i => ⟨.int, i⟩ else []

def twoThreads : Rename where
  pool := ⟨onlyInt [4, 5, 6], fun _ => 0⟩
  threads tid :=
    let map := if tid = 0 then onlyInt [0, 1] else onlyInt [2, 3]
    ⟨map, [], [], [(0, map)], 0, 0⟩

def sevenRegs : List PhysRegId := [4, 5, 6, 0, 1, 2, 3].map fun i => ⟨.int, i⟩

lemma sum_onlyInt (indices : List Nat) (p : PhysRegId) :
    ∑ c, (onlyInt indices c).count p = (indices.map fun i => PhysRegId.mk .int i).count p := by
  rw [Fintype.sum_eq_single .int fun c hc => ?_]
  · rfl
  · rw [onlyInt, if_neg hc, count_nil]

lemma classified_onlyInt (indices : List Nat) : Classified (onlyInt indices) := by
  intro c p hp
  unfold onlyInt at hp
  split at hp
  · obtain ⟨i, -, rfl⟩ := mem_map.mp hp
    exact Eq.symm ‹c = .int›
  · exact absurd hp not_mem_nil

lemma starts_twoThreads : Starts {0, 1} sevenRegs.toFinset twoThreads := by
  refine ⟨fun _ _ => rfl, fun tid _ => ?_, classified_onlyInt _, fun p => ?_⟩
  · change Classified (if tid = 0 then onlyInt [0, 1] else onlyInt [2, 3])
    split <;> exact classified_onlyInt _
  · have hall : twoThreads.occ {0, 1} p = sevenRegs.count p := by
      unfold Rename.occ
      rw [Finset.sum_pair (by decide)]
      have hfree : twoThreads.pool.occ p = _ := sum_onlyInt [4, 5, 6] p
      have hzero : (twoThreads.threads 0).occ p = 0 + _ + 0 :=
        congrArg (0 + · + 0) (sum_onlyInt [0, 1] p)
      have hone : (twoThreads.threads 1).occ p = 0 + _ + 0 :=
        congrArg (0 + · + 0) (sum_onlyInt [2, 3] p)
      have hsplit : sevenRegs = [4, 5, 6].map (fun i => PhysRegId.mk .int i) ++
        ([0, 1].map (fun i => PhysRegId.mk .int i) ++ [2, 3].map fun i => PhysRegId.mk .int i) :=
        rfl
      rw [hfree, hzero, hone, hsplit, count_append, count_append]
      omega
    rw [hall, List.Nodup.count (by decide : sevenRegs.Nodup)]
    simp only [mem_toFinset]

def mixedOps : List Op :=
  [.renameDestRegs ⟨1, [⟨.int, 0, 1⟩]⟩ 0, .renameDestRegs ⟨2, [⟨.int, 0, 0⟩, ⟨.misc, 3, 0⟩]⟩ 0,
    .renameDestRegs ⟨1, [⟨.int, 1, 0⟩]⟩ 1, .renameDestRegs ⟨4, [⟨.int, 1, 0⟩]⟩ 0, .doSquash 2 0,
    .removeFromHistory 1 0, .releaseSquashed 0, .renameDestRegs ⟨6, [⟨.int, 0, 0⟩]⟩ 0]

/-- Two threads rename, squash and commit over seven registers. -/
theorem registers_conserved_mixed_ops :
    let c : RegFile := ⟨fun i => ⟨.misc, i⟩, fun _ => false⟩
    Starts {0, 1} sevenRegs.toFinset twoThreads ∧
      Along (step c) (Legal {0, 1}) twoThreads mixedOps ∧
      ∃ s, run (step c) twoThreads mixedOps = .ok s ∧
        ∀ p, s.occ {0, 1} p = if p ∈ sevenRegs.toFinset then 1 else 0 := by
  intro c
  have halong : Along (step c) (Legal {0, 1}) twoThreads mixedOps :=
    along_of_test (Legal {0, 1}) (by decide +kernel)
  obtain ⟨s, hs, -⟩ := exists_of_holdsAt (run (step c) twoThreads mixedOps) (fun _ => true)
    (by decide +kernel)
  exact ⟨starts_twoThreads, halong, s, hs,
    ((registers_conserved c starts_twoThreads halong).of_ok hs).1⟩

end BTBFerret.Renaming
