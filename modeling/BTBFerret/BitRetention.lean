import BTBFerret.FallThrough
import BTBFerret.Residency

/-!
# Keeping the fall-through bit

In accumulative mode a trained bit should follow its branch through the levels.
The invariant is about the topmost copy of the branch: write-backs merge it into
the copy below, and migrations copy it up. Two paths do not look at the copy
below: an update that allocates, and a hit in the prefetch buffer.
-/

namespace BTBFerret

open ReplacementPolicy AssociativeCache FallibleRuns EvictingLevels Bool Cache Option

def FullFor (a : Addr) (e : BTBEntry) : Prop :=
  e.valid = true → e.branchAddr = a → e.prefetchThrough = true

lemma accumulates_fullFor (a : Addr) : Accumulates (FullFor a) where
  invalid := by
    intro e he hv
    rw [he] at hv
    cases hv
  copy := by
    intro e other _ _ hvalid hother _ hbranch
    exact or_eq_true_iff.mpr (.inr (hother hvalid hbranch))

/-- The entry is rewritten without being moved, and its bit is not cleared. -/
structure BitKept (e e' : BTBEntry) : Prop where
  valid : e'.valid = e.valid
  tag : e'.tag = e.tag
  branchAddr : e'.branchAddr = e.branchAddr
  through : e.prefetchThrough = true → e'.prefetchThrough = true

lemma BitKept.refl (e : BTBEntry) : BitKept e e := ⟨rfl, rfl, rfl, fun h => h⟩

lemma BitKept.trans {e e' e'' : BTBEntry} (h : BitKept e e') (h' : BitKept e' e'') :
    BitKept e e'' :=
  ⟨h'.valid.trans h.valid, h'.tag.trans h.tag, h'.branchAddr.trans h.branchAddr,
    fun hb => h'.through (h.through hb)⟩

lemma BitKept.fullFor {e e' : BTBEntry} (h : BitKept e e') {a : Addr} (he : FullFor a e) :
    FullFor a e' := by
  intro hv hbranch
  apply h.through
  apply he
  · rw [← h.valid]
    exact hv
  · rw [← h.branchAddr]
    exact hbranch

variable {victim : BTBEntry}

section

variable {v : BTBLevel} {C C' : BTBCache v} {U : Set Addr} {tid : ThreadID} {a : Addr}

lemma findEntry_of_bitKept (h : ∀ l, BitKept (C.get l) (C'.get l)) (key : KeyType) :
    C'.findEntry key = C.findEntry key := by
  apply findEntry_congr
  intro l _
  change (C'.get l).match v.extractTag key = (C.get l).match v.extractTag key
  unfold BTBEntry.match
  rw [(h l).valid, (h l).tag]

lemma every_fullFor_of_absent (hu : C.Unique) (hk : Obeys (keyedRule U tid) C)
    (h : C.findEntry ⟨a, tid⟩ = none) : Every (FullFor a) C := by
  intro l hv hbranch
  have hfound := (found_of_valid hu hk hv).2
  rw [show (lines C l).branchAddr = a from hbranch, h] at hfound
  cases hfound

/-- Absorbing a copy with the bit leaves no copy without it. -/
lemma every_fullFor_written_self (hu : C.Unique) (hk : Obeys (keyedRule U tid) C) (tell : Bool)
    (now : Tick) (hbranch : victim.branchAddr = a)
    (hbit : victim.prefetchThrough = true) :
    Every (FullFor a) (State.written C tell now tid victim) := by
  intro l
  have hget : (State.written C tell now tid victim).get l =
      if l = C.slotFor ⟨victim.branchAddr, tid⟩ then
        (C.openFor ⟨victim.branchAddr, tid⟩).updateFrom victim else C.get l :=
    get_store C tell now _ _ l
  rw [hget, hbranch]
  split
  · intro _ _
    exact or_eq_true_iff.mpr (.inr hbit)
  · rename_i hne
    intro hv hl
    have hfound := (found_of_valid hu hk hv).2
    rw [show (lines C l).branchAddr = a from hl] at hfound
    exact absurd (slotFor_of_some hfound).symm hne

lemma written_finds (tell : Bool) (now : Tick) (victim : BTBEntry) :
    (State.written C tell now tid victim).findEntry ⟨victim.branchAddr, tid⟩ =
      some (C.slotFor ⟨victim.branchAddr, tid⟩) := by
  apply findEntry_store
  have hopen := C.match_openFor ⟨victim.branchAddr, tid⟩
  exact hopen

lemma written_other (hsep : Separates v U tid) (hu : C.Unique) (tell : Bool) (now : Tick)
    (hmem : victim.branchAddr ∈ U) (ha : a ∈ U) (hne : victim.branchAddr ≠ a) :
    (State.written C tell now tid victim).findEntry ⟨a, tid⟩ =
      if C.findEntry ⟨a, tid⟩ = some (C.slotFor ⟨victim.branchAddr, tid⟩) then none
      else C.findEntry ⟨a, tid⟩ := by
  have hapart : Apart v.shape ⟨victim.branchAddr, tid⟩ ⟨a, tid⟩ :=
    apart_of_ne hsep (k := ⟨victim.branchAddr, hmem⟩) (j := ⟨a, ha⟩)
      (fun h => hne (congrArg Subtype.val h).symm)
  exact hu.findEntry_store_other tell now _ (C.match_openFor ⟨victim.branchAddr, tid⟩) hapart

/-- The ways of different branches differ. -/
lemma found_ne (hsep : Separates v U tid) (hk : Obeys (keyedRule U tid) C) {b : Addr} (ha : a ∈ U)
    (hb : b ∈ U) (hne : b ≠ a) {l : Loc v.shape} (h : C.findEntry ⟨b, tid⟩ = some l) :
    C.findEntry ⟨a, tid⟩ ≠ some l := by
  intro h'
  have hbl := (branchAddr_of_found hsep hk hb h).2
  have hal := (branchAddr_of_found hsep hk ha h').2
  exact hne (hbl.symm.trans hal)

end

namespace State

variable {p : Params} {U : Set Addr} {tid : ThreadID} {a : Addr} {s s' : State p}

/-- The topmost copy of the branch, if there is one, carries the bit. -/
structure TopMarked (tid : ThreadID) (a : Addr) (s : State p) : Prop where
  l1btb : Every (FullFor a) s.l1btb
  l2btb : s.l1btb.findEntry ⟨a, tid⟩ = none → Every (FullFor a) s.l2btb
  l3btb : s.l1btb.findEntry ⟨a, tid⟩ = none → s.l2btb.findEntry ⟨a, tid⟩ = none →
    p.enableL3 = true → Every (FullFor a) s.l3btb

lemma TopMarked.of_kept (h : TopMarked tid a s)
    (h1 : ∀ l, BitKept (s.l1btb.get l) (s'.l1btb.get l))
    (h2 : ∀ l, s'.l2btb.get l = s.l2btb.get l) (h3 : ∀ l, s'.l3btb.get l = s.l3btb.get l) :
    TopMarked tid a s' := by
  have hfind1 : s'.l1btb.findEntry ⟨a, tid⟩ = s.l1btb.findEntry ⟨a, tid⟩ :=
    findEntry_of_bitKept h1 _
  have hfind2 : s'.l2btb.findEntry ⟨a, tid⟩ = s.l2btb.findEntry ⟨a, tid⟩ := by
    apply findEntry_of_bitKept
    intro l
    rw [h2]
    exact BitKept.refl _
  constructor
  · exact fun l => (h1 l).fullFor (h.l1btb l)
  · intro hmiss
    rw [hfind1] at hmiss
    exact (h.l2btb hmiss).same h2
  · intro hmiss hmiss2 hdeep
    rw [hfind1] at hmiss
    rw [hfind2] at hmiss2
    exact (h.l3btb hmiss hmiss2 hdeep).same h3

lemma Rewritten.bitKept {T : ThreadID → Prop} {way : Loc p.l1btb.shape}
    {f : BTBEntry → BTBEntry} (h : Rewritten T s s' way f) (hf : ∀ e, BitKept e (f e))
    (l : Loc p.l1btb.shape) : BitKept (s.l1btb.get l) (s'.l1btb.get l) := by
  rw [h.l1btb]
  split
  · rename_i hl
    rw [hl]
    exact hf _
  · exact BitKept.refl _

lemma BitsAdded.bitKept {e e' : BTBEntry} (h : BitsAdded e e') : BitKept e e' := by
  obtain ⟨_, _, rfl⟩ := h
  exact ⟨rfl, rfl, rfl, fun hb => or_eq_true_iff.mpr (.inl hb)⟩

lemma reused_bitKept (e : BTBEntry) : BitKept e (reused e) := by
  unfold reused
  split
  · exact ⟨rfl, rfl, rfl, fun h => h⟩
  · exact ⟨rfl, rfl, rfl, fun h => h⟩

lemma trainedEntry_bitKept (hacc : p.cleanBitsOnL1Promotion = false) (taken : Bool)
    (e : BTBEntry) : BitKept e (trainedEntry p taken e) := by
  unfold trainedEntry
  rw [hacc]
  cases taken with
  | true => exact ⟨rfl, rfl, rfl, fun h => h⟩
  | false => exact ⟨rfl, rfl, rfl, fun _ => rfl⟩

/-! ## A branch enters L1 -/

section

variable {T : ThreadID → Prop} {u : State p} {k : Addr} {f : BTBEntry → BTBEntry}

/-- The freed way becomes the entry of the branch that enters. -/
lemma Filled.finds (h : Filled T s u tid k f)
    (hf : ∀ e : BTBEntry, (f e).valid = e.valid ∧ (f e).tag = e.tag) :
    u.l1btb.findEntry ⟨k, tid⟩ ≠ none := by
  intro hnone
  have hslot := findEntry_none_iff.mp hnone (s.l1btb.slotFor ⟨k, tid⟩)
    (s.l1btb.slotFor_set ⟨k, tid⟩)
  rw [h.l1btb, if_pos rfl] at hslot
  obtain ⟨hv, htag⟩ := hf (s.l1btb.openFor ⟨k, tid⟩)
  have hopen := (p.l1btb.shape.match_iff _ _).mp (s.l1btb.match_openFor ⟨k, tid⟩)
  have hmatch : p.l1btb.shape.match ⟨k, tid⟩ (f (s.l1btb.openFor ⟨k, tid⟩)) = true :=
    (p.l1btb.shape.match_iff _ _).mpr ⟨hv.trans hopen.1, htag.trans hopen.2⟩
  rw [hmatch] at hslot
  cases hslot

lemma Filled.topMarked_self (h : Filled T s u tid a f)
    (hf : ∀ e : BTBEntry, (f e).valid = e.valid ∧ (f e).tag = e.tag)
    (h1 : Every (FullFor a) s.l1btb)
    (hbit : (f (s.l1btb.openFor ⟨a, tid⟩)).prefetchThrough = true) : TopMarked tid a u := by
  have hhere := h.finds hf
  exact ⟨h1.of_get (fun _ _ => hbit) h.l1btb, fun hmiss => absurd hmiss hhere,
    fun hmiss => absurd hmiss hhere⟩

lemma Filled.l1_other (h : Filled T s u tid k f) (hsep : NoCollision p U tid)
    (hdistinct : Distinct s) (hk : k ∈ U) (ha : a ∈ U) (hne : k ≠ a)
    (hf : ∀ e : BTBEntry, (f e).valid = e.valid ∧ (f e).tag = e.tag) :
    u.l1btb.findEntry ⟨a, tid⟩ =
      if s.l1btb.findEntry ⟨a, tid⟩ = some (s.l1btb.slotFor ⟨k, tid⟩) then none
      else s.l1btb.findEntry ⟨a, tid⟩ := by
  have hapart : Apart p.l1btb.shape ⟨k, tid⟩ ⟨a, tid⟩ :=
    apart_of_ne (hsep _ (l1_mem_levels p)) (k := ⟨k, hk⟩) (j := ⟨a, ha⟩)
      (fun h => hne (congrArg Subtype.val h).symm)
  obtain ⟨hv, htag⟩ := hf (s.l1btb.openFor ⟨k, tid⟩)
  have hopen := (p.l1btb.shape.match_iff _ _).mp (s.l1btb.match_openFor ⟨k, tid⟩)
  have hstore := hdistinct.l1btb.findEntry_store_other true 0 f
    ((p.l1btb.shape.match_iff _ _).mpr ⟨hv.trans hopen.1, htag.trans hopen.2⟩) hapart
  rw [← hstore]
  apply findEntry_congr
  intro l _
  rw [h.l1btb, get_store]

variable (hsep : NoCollision p U tid) (hkeyed : Orderly (keyedRule U tid) s)
  (hdistinct : Distinct s) (ha : a ∈ U)
include hsep hkeyed hdistinct ha

lemma topMarked_l2_of_victim (htop : TopMarked tid a s)
    (hvictim : s.l1btb.findEntry ⟨a, tid⟩ = some (s.l1btb.slotFor ⟨k, tid⟩)) :
    Every (FullFor a) (s.l2After tid (s.l1Victim tid k)) ∧
      (s.l2After tid (s.l1Victim tid k)).findEntry ⟨a, tid⟩ ≠ none := by
  obtain ⟨hv, hbranch⟩ := branchAddr_of_found (hsep _ (l1_mem_levels p)) hkeyed.l1btb ha hvictim
  change (s.l1Victim tid k).valid = true at hv
  change (s.l1Victim tid k).branchAddr = a at hbranch
  have hbit := htop.l1btb _ hv hbranch
  unfold l2After
  rw [hv, if_pos rfl]
  refine ⟨every_fullFor_written_self hdistinct.l2btb hkeyed.l2btb _ _ hbranch hbit, ?_⟩
  have hfinds : (written s.l2btb false s.curTick tid (s.l1Victim tid k)).findEntry
      ⟨(s.l1Victim tid k).branchAddr, tid⟩ = some _ := written_finds false s.curTick _
  rw [hbranch] at hfinds
  rw [hfinds]
  exact some_ne_none _

lemma topMarked_l3_of_displaced (hdeep : p.enableL3 = true)
    (hmem : victim.branchAddr ∈ U) (hne : victim.branchAddr ≠ a)
    (h2 : Every (FullFor a) s.l2btb)
    (hslot : s.l2btb.findEntry ⟨a, tid⟩ = some (s.l2btb.slotFor ⟨victim.branchAddr, tid⟩)) :
    Every (FullFor a) (s.l3AfterDisplacement tid victim) := by
  have hsep2 := hsep _ (l2_mem_levels p)
  have hmiss : s.l2btb.findEntry ⟨victim.branchAddr, tid⟩ = none := by
    cases hfind : s.l2btb.findEntry ⟨victim.branchAddr, tid⟩ with
    | none => rfl
    | some =>
      rw [slotFor_of_some hfind] at hslot
      exact absurd hslot (found_ne hsep2 hkeyed.l2btb ha hmem hne hfind)
  obtain ⟨hv, hbranch⟩ := branchAddr_of_found hsep2 hkeyed.l2btb ha hslot
  have hdisplaced := displaced_eq_some.mpr ⟨hmiss, rfl, hv⟩
  unfold l3AfterDisplacement
  rw [hdisplaced]
  dsimp only
  rw [if_pos hdeep]
  exact every_fullFor_written_self hdistinct.l3btb hkeyed.l3btb _ _ hbranch (h2 _ hv hbranch)

lemma Filled.topMarked_other (h : Filled T s u tid k f) (hk : k ∈ U) (hne : k ≠ a)
    (hf : ∀ e : BTBEntry, (f e).valid = e.valid ∧ (f e).tag = e.tag)
    (hnew : (f (s.l1btb.openFor ⟨k, tid⟩)).branchAddr = k) (htop : TopMarked tid a s) :
    TopMarked tid a u := by
  have hl1 := h.l1_other hsep hdistinct hk ha hne hf
  have hmoved : Every (FullFor a) u.l1btb :=
    htop.l1btb.of_get (fun _ hbranch => absurd (hnew.symm.trans hbranch) hne) h.l1btb
  by_cases hvictim : s.l1btb.findEntry ⟨a, tid⟩ = some (s.l1btb.slotFor ⟨k, tid⟩)
  · obtain ⟨h2, hhere⟩ := topMarked_l2_of_victim hsep hkeyed hdistinct ha htop hvictim
    rw [← h.l2btb] at h2 hhere
    exact ⟨hmoved, fun _ => h2, fun _ hmiss2 => absurd hmiss2 hhere⟩
  rw [if_neg hvictim] at hl1
  have hR := accumulates_fullFor a
  -- a valid L1 victim is another branch if L1 lacks this one
  have hother : (s.l1Victim tid k).valid = true →
      (s.l1Victim tid k).branchAddr ∈ U ∧ FullFor a (s.l1Victim tid k) := by
    intro hv
    exact ⟨(hkeyed.l1btb _ hv).1, htop.l1btb _⟩
  refine ⟨hmoved, ?_, ?_⟩
  · intro hmiss
    rw [hl1] at hmiss
    rw [h.l2btb]
    exact every_l2After hsep hkeyed hR hother (htop.l2btb hmiss)
  · intro hmiss hmiss2 hdeep
    rw [hl1] at hmiss
    rw [h.l3btb]
    apply every_l3After hsep hkeyed hR hother hdistinct
    · intro hv
      have hne' : (s.l1Victim tid k).branchAddr ≠ a := by
        intro heq
        have hfound := (found_of_valid hdistinct.l1btb hkeyed.l1btb hv).2
        change s.l1btb.findEntry ⟨(s.l1Victim tid k).branchAddr, tid⟩ = _ at hfound
        rw [heq, hmiss] at hfound
        cases hfound
      have hmem := (hother hv).1
      by_cases hslot : s.l2btb.findEntry ⟨a, tid⟩ =
          some (s.l2btb.slotFor ⟨(s.l1Victim tid k).branchAddr, tid⟩)
      · exact topMarked_l3_of_displaced hsep hkeyed hdistinct ha hdeep hmem hne' (htop.l2btb hmiss)
          hslot
      · have hwritten := written_other (hsep _ (l2_mem_levels p)) hdistinct.l2btb false s.curTick
          hmem ha hne'
        rw [h.l2btb, l2After, hv, if_pos rfl, hwritten, if_neg hslot] at hmiss2
        exact every_l3AfterDisplacement hsep hkeyed hR (htop.l2btb hmiss)
          (htop.l3btb hmiss hmiss2 hdeep)
    · intro hv
      rw [h.l2btb, l2After, hv] at hmiss2
      exact htop.l3btb hmiss hmiss2 hdeep

end

/-! ## Lookups that miss L1 -/

section

variable {t v : State p} {k : Addr} {src : BTBEntry} {f : BTBEntry → BTBEntry}

lemma Served.keeps_key {key : KeyType} (h : Served t key v src f) (e : BTBEntry) :
    (f e).valid = e.valid ∧ (f e).tag = e.tag := by
  cases h with
  | buffer =>
    unfold promoted promoteBits
    split <;> exact ⟨rfl, rfl⟩
  | l2 =>
    unfold migrated promoteBits
    split <;> exact ⟨rfl, rfl⟩
  | l3 => exact ⟨rfl, rfl⟩

section

variable (h : Served t ⟨k, tid⟩ v src f) (hsep : NoCollision p U tid)
  (hkeyed : Orderly (keyedRule U tid) t)

include h hsep hkeyed

lemma Served.source_branch (hk : k ∈ U) : src.branchAddr = k := by
  cases h with
  | buffer _ _ found =>
    exact (branchAddr_of_found (hsep _ (pBuffer_mem_levels p)) hkeyed.pBuffer hk found).2
  | l2 _ _ found =>
    exact (branchAddr_of_found (hsep _ (l2_mem_levels p)) hkeyed.l2btb hk found).2
  | l3 _ _ _ _ found =>
    exact (branchAddr_of_found (hsep _ (l3_mem_levels p)) hkeyed.l3btb hk found).2

/-- Releasing the source of another branch leaves the copies of a branch alone. -/
lemma Served.topMarked (hdistinct : Distinct t) (hk : k ∈ U) (ha : a ∈ U)
    (hne : k ≠ a) (htop : TopMarked tid a t) : TopMarked tid a v := by
  have hR := accumulates_fullFor a
  cases h with
  | buffer => exact htop
  | l2 l _ found =>
    have hother := found_ne (hsep _ (l2_mem_levels p)) hkeyed.l2btb ha hk hne found
    have hsame : (if p.nonexclusive then (t.l2btb.accessEntry t.curTick l).accessEntry t.curTick l
        else (t.l2btb.accessEntry t.curTick l).invalidate l).findEntry ⟨a, tid⟩ =
        t.l2btb.findEntry ⟨a, tid⟩ := by
      split
      · rfl
      · have hinv := Cache.Unique.findEntry_invalidate
          (C := t.l2btb.accessEntry t.curTick l) hdistinct.l2btb l ⟨a, tid⟩
        rw [hinv]
        exact if_neg hother
    constructor
    · exact htop.l1btb
    · intro hmiss
      exact hR.every_released (htop.l2btb hmiss) t.curTick l p.nonexclusive
    · intro hmiss hmiss2 hdeep
      exact htop.l3btb hmiss (hsame.symm.trans hmiss2) hdeep
  | l3 l =>
    constructor
    · exact htop.l1btb
    · exact htop.l2btb
    · intro hmiss hmiss2 hdeep
      exact hR.every_released (htop.l3btb hmiss hmiss2 hdeep) t.curTick l p.nonexclusive

end

end

/-! ## The condition on the two paths -/

/-- The branch is in one of the levels. -/
def inHierarchy (s : State p) (tid : ThreadID) (a : Addr) : Bool :=
  s.inL1 tid a || s.inL2 tid a || s.inL3 tid a

def KeepsBit (tid : ThreadID) (a : Addr) (s : State p) (o : Op) : Prop :=
  o.branch = some a → s.inL1 tid a = false →
    (o.isLookup = true → p.probesPBuffer = true ∧ (s.pBuffer.findEntry ⟨a, tid⟩).isSome = true ∧
      throughIn s.pBuffer ⟨a, tid⟩ = false) →
    throughIn s.l2btb ⟨a, tid⟩ = false ∧ throughIn s.l3btb ⟨a, tid⟩ = false

instance (tid : ThreadID) (a : Addr) (s : State p) (o : Op) : Decidable (KeepsBit tid a s o) := by
  unfold KeepsBit
  infer_instance

lemma throughIn_of_full {v : BTBLevel} {C : BTBCache v} (hsep : Separates v U tid)
    (hk : Obeys (keyedRule U tid) C) (ha : a ∈ U) (hC : Every (FullFor a) C)
    (h : (C.findEntry ⟨a, tid⟩).isSome = true) : throughIn C ⟨a, tid⟩ = true := by
  obtain ⟨l, hl⟩ := isSome_iff_exists.mp h
  obtain ⟨hv, hbranch⟩ := branchAddr_of_found hsep hk ha hl
  unfold throughIn
  rw [hl]
  exact hC l hv hbranch

/-- A branch that is present below L1 only carries the bit there. -/
lemma TopMarked.below (h : TopMarked tid a s) (hsep : NoCollision p U tid)
    (hkeyed : Orderly (keyedRule U tid) s) (hshallow : Shallow p.config (held U tid s)) (ha : a ∈ U)
    (hin : s.inHierarchy tid a = true) (hmiss : s.l1btb.findEntry ⟨a, tid⟩ = none) :
    throughIn s.l2btb ⟨a, tid⟩ = true ∨ throughIn s.l3btb ⟨a, tid⟩ = true := by
  cases h2 : s.l2btb.findEntry ⟨a, tid⟩ with
  | some =>
    left
    apply throughIn_of_full (hsep _ (l2_mem_levels p)) hkeyed.l2btb ha (h.l2btb hmiss)
    rw [h2]
    rfl
  | none =>
    right
    have h3 : (s.l3btb.findEntry ⟨a, tid⟩).isSome = true := by
      unfold inHierarchy inL1 inL2 inL3 at hin
      rw [hmiss, h2] at hin
      exact hin
    have hdeep : p.enableL3 = true := by
      cases hoff : p.enableL3 with
      | true => rfl
      | false =>
        have hnone : (held U tid s).l3 ⟨a, ha⟩ = none := hshallow hoff ⟨a, ha⟩
        have hhere : s.inL3 tid (⟨a, ha⟩ : U) = true := h3
        exact absurd hnone (inL3_iff.mp hhere)
    exact throughIn_of_full (hsep _ (l3_mem_levels p)) hkeyed.l3btb ha (h.l3btb hmiss h2 hdeep) h3

/-- What an operation does to the topmost copy of a branch that stays present. -/
lemma EntryStep.topMarked (hacc : p.cleanBitsOnL1Promotion = false)
    (halt : p.indirectAltBit = false) (hsep : NoCollision p U tid) (hs : Settled U tid s)
    (hshallow : Shallow p.config (held U tid s)) {o : Op} (ho : o.Uses U tid) (ha : a ∈ U)
    (hin : s.inHierarchy tid a = true) (hkeeps : KeepsBit tid a s o) (h : EntryStep s o s')
    (htop : TopMarked tid a s) : TopMarked tid a s' := by
  cases h with
  | keep l1btb l2btb l3btb =>
    refine htop.of_kept (fun l => ?_) l2btb l3btb
    rw [l1btb]
    exact BitKept.refl _
  | updateHit _ _ rewritten =>
    refine htop.of_kept (rewritten.bitKept (fun e => ?_)) (fun l => by rw [rewritten.l2btb])
      (fun l => by rw [rewritten.l3btb])
    rw [markChangedTarget_off halt]
    exact ⟨rfl, rfl, rfl, fun hb => hb⟩
  | @updateMiss t instPC target type inst _ miss filled =>
    obtain ⟨rfl, hpc⟩ := ho
    have hf : ∀ e : BTBEntry, ((allocateBits p e).update target inst).valid = e.valid ∧
        ((allocateBits p e).update target inst).tag = e.tag := by
      intro e
      unfold allocateBits
      split <;> exact ⟨rfl, rfl⟩
    by_cases heq : instPC = a
    · -- the condition and the copy below contradict each other
      subst heq
      have hmiss : s.inL1 t instPC = false := by
        unfold inL1
        rw [miss]
        rfl
      obtain ⟨h2, h3⟩ := hkeeps rfl hmiss (fun hl => by cases hl)
      rcases htop.below hsep hs.keyed hshallow ha hin miss with hb | hb
      · exact absurd (h2.symm.trans hb) Bool.false_ne_true
      · exact absurd (h3.symm.trans hb) Bool.false_ne_true
    · refine filled.topMarked_other hsep hs.keyed hs.distinct ha hpc heq hf ?_ htop
      have hbranch : (allocateBits p (s.l1btb.openFor ⟨instPC, t⟩)).branchAddr =
          (s.l1btb.openFor ⟨instPC, t⟩).branchAddr := by
        unfold allocateBits
        split <;> rfl
      exact hbranch.trans (branchAddr_openFor miss)
  | lookupHit _ search _ _ rewritten =>
    refine htop.of_kept (fun l => ?_) (fun l => by rw [rewritten.l2btb, search.l2btb])
      (fun l => by rw [rewritten.l3btb, search.l3btb])
    exact (search.trained l).bitKept.trans (rewritten.bitKept reused_bitKept l)
  | @lookupMiss t' instPC _ _ _ _ _ t search miss v src f served u filled l1btb l2btb l3btb =>
    obtain ⟨rfl, hpc⟩ := ho
    obtain ⟨hkeyed, hdistinct, hvmiss⟩ := served.settled hs search miss
    have hlines := search.sameLines
    have htkeyed := hlines.orderly hs.keyed
    have httop : TopMarked t' a t := htop.of_kept (fun l => (search.trained l).bitKept)
      (fun l => by rw [search.l2btb]) (fun l => by rw [search.l3btb])
    have htmiss : t.l1btb.findEntry ⟨instPC, t'⟩ = none := by
      rw [findEntry_of_lines hlines.l1btb]
      exact miss
    have hu : TopMarked t' a u := by
      obtain ⟨hbranch, _, hbit⟩ := served.copied (openFor_through_of_miss hvmiss)
      have hsrc := served.source_branch hsep htkeyed hpc
      by_cases heq : instPC = a
      · subst heq
        apply filled.topMarked_self served.keeps_key
        · exact every_fullFor_of_absent hdistinct.l1btb hkeyed.l1btb hvmiss
        · apply hbit hacc
          cases served with
          | buffer _ probes found =>
            by_contra hclear
            have hmiss : s.inL1 t' instPC = false := by
              unfold inL1
              rw [miss]
              rfl
            rw [search.pBuffer] at found hclear
            have hbuf : (s.pBuffer.findEntry ⟨instPC, t'⟩).isSome = true ∧
                throughIn s.pBuffer ⟨instPC, t'⟩ = false := by
              unfold throughIn
              rw [found]
              exact ⟨rfl, eq_false_iff.mpr hclear⟩
            obtain ⟨h2, h3⟩ := hkeeps rfl hmiss (fun _ => ⟨probes, hbuf⟩)
            rcases htop.below hsep hs.keyed hshallow ha hin miss with hb | hb
            · exact absurd (h2.symm.trans hb) Bool.false_ne_true
            · exact absurd (h3.symm.trans hb) Bool.false_ne_true
          | l2 l _ found => exact httop.l2btb htmiss l (valid_of_found found) hsrc
          | l3 l _ miss2 deep found =>
            exact httop.l3btb htmiss miss2 deep l (valid_of_found found) hsrc
      · have hvtop := served.topMarked hsep htkeyed (hlines.distinct hs.distinct) hpc ha heq httop
        exact filled.topMarked_other hsep hkeyed hdistinct ha hpc heq served.keeps_key
          (hbranch.trans hsrc) hvtop
    refine hu.of_kept (fun l => ?_) (fun l => by rw [l2btb]) (fun l => by rw [l3btb])
    rw [l1btb]
    exact BitKept.refl _
  | commit _ _ rewritten =>
    exact htop.of_kept (rewritten.bitKept (trainedEntry_bitKept hacc _))
      (fun l => by rw [rewritten.l2btb]) (fun l => by rw [rewritten.l3btb])
  | direction _ _ rewritten =>
    exact htop.of_kept (rewritten.bitKept (fun e => ⟨rfl, rfl, rfl, fun hb => hb⟩))
      (fun l => by rw [rewritten.l2btb]) (fun l => by rw [rewritten.l3btb])
  | clear =>
    have hR := accumulates_fullFor a
    refine ⟨hR.every_clear, fun _ => hR.every_clear, fun _ _ hdeep => ?_⟩
    unfold memInvalidate
    dsimp only
    rw [if_pos hdeep]
    exact hR.every_clear

/-- The invariants of a run after the training of the branch. -/
structure Retaining (U : Set Addr) (tid : ThreadID) (a : Addr) (s : State p) : Prop
    extends Settled U tid s where
  shallow : Shallow p.config (held U tid s)
  top : TopMarked tid a s

lemma step_shallow (hsep : NoCollision p U tid) (hs : Settled U tid s)
    (hshallow : Shallow p.config (held U tid s)) {o : Op} (ho : o.Uses U tid)
    (h : s.step o = .ok s') : Shallow p.config (held U tid s') := by
  obtain ⟨e, _, hstep⟩ := step_simulates (g := fun _ _ => ()) hsep hs hshallow ho (admits_all s o) h
  exact hstep.shallow hshallow

lemma step_retaining (hacc : p.cleanBitsOnL1Promotion = false) (halt : p.indirectAltBit = false)
    (hsep : NoCollision p U tid) (ha : a ∈ U) {o : Op} (hs : Retaining U tid a s)
    (ho : o.Uses U tid) (hin : s.inHierarchy tid a = true) (hkeeps : KeepsBit tid a s o)
    (h : s.step o = .ok s') : Retaining U tid a s' :=
  ⟨step_settled hsep hs.toSettled ho h, step_shallow hsep hs.toSettled hs.shallow ho h,
    (step_entries h).topMarked hacc halt hsep hs.toSettled hs.shallow ho ha hin hkeeps hs.top⟩

lemma topMarked_of_commit (hcommit : p.trainBitsOnCommit = true)
    (hacc : p.cleanBitsOnL1Promotion = false) (hs : Settled U tid s)
    (hin : s.inL1 tid a = true) : TopMarked tid a (s.trainPrefetchBitsOnCommit tid a false) := by
  obtain ⟨way, hway⟩ := isSome_iff_exists.mp hin
  have hrew : Rewritten AnyThread s (s.trainPrefetchBitsOnCommit tid a false) way
      (trainedEntry p false) := by
    unfold trainPrefetchBitsOnCommit
    rw [hcommit]
    simp only [Bool.not_true, false_eq_true, if_false, hway]
    exact rewritten_modify s way (trainedEntry p false)
  have hfind : (s.trainPrefetchBitsOnCommit tid a false).l1btb.findEntry ⟨a, tid⟩ ≠ none := by
    rw [findEntry_of_bitKept (hrew.bitKept (trainedEntry_bitKept hacc false)), hway]
    exact some_ne_none _
  refine ⟨?_, fun hmiss => absurd hmiss hfind, fun hmiss => absurd hmiss hfind⟩
  intro l
  rw [hrew.l1btb]
  split
  · intro _ _
    unfold trainedEntry
    rw [hacc]
    rfl
  · rename_i hne
    intro hv hbranch
    have hfound := (found_of_valid hs.distinct.l1btb hs.keyed.l1btb hv).2
    rw [show (lines s.l1btb l).branchAddr = a from hbranch, hway] at hfound
    exact absurd (some.inj hfound).symm hne

/-- After its training as not taken, a branch that stays in the hierarchy has the bit in every later
L1 copy, if no update or buffer hit passes over a copy that carries it. -/
theorem through_bit_retained (hcommit : p.trainBitsOnCommit = true)
    (hacc : p.cleanBitsOnL1Promotion = false) (halt : p.indirectAltBit = false)
    (hsep : NoCollision p U tid) (ha : a ∈ U) {bw : PrevBrInfo} {pre post : List Op}
    {s₀ s : State p} (hpre : ∀ o ∈ pre, o.Uses U tid) (hpost : ∀ o ∈ post, o.Uses U tid)
    (hstart : Reached bw pre s₀) (hin : s₀.inL1 tid a = true)
    (halong : Along step (fun t o => t.inHierarchy tid a = true ∧ KeepsBit tid a t o)
      (s₀.trainPrefetchBitsOnCommit tid a false) post)
    (h : run step (s₀.trainPrefetchBitsOnCommit tid a false) post = .ok s) :
    ∀ l, s.l1btb.findEntry ⟨a, tid⟩ = some l → (s.l1btb.get l).prefetchThrough = true := by
  obtain ⟨hsettled, hshallow, _⟩ :=
    reached_levels (g := fun _ _ => ()) (I := fun _ => True) hsep trivial
    (fun s o _ _ _ => admits_all s o) (fun _ _ _ _ _ _ => trivial) hpre
    (along_of_forall (fun _ _ => trivial) _ _) hstart
  have huses : (Op.trainPrefetchBitsOnCommit tid a false).Uses U tid := trivial
  have htrained : Retaining U tid a (s₀.trainPrefetchBitsOnCommit tid a false) :=
    ⟨step_settled hsep hsettled huses rfl, step_shallow hsep hsettled hshallow huses rfl,
      topMarked_of_commit hcommit hacc hsettled hin⟩
  have hs : Retaining U tid a s := run_invariant_state (Retaining U tid a)
    (fun _ _ _ hs hc hstep => step_retaining hacc halt hsep ha hs hc.1 hc.2.1 hc.2.2 hstep) htrained
    ((along_of_mem hpost _).and halong) h
  intro l hl
  obtain ⟨hv, hbranch⟩ := branchAddr_of_found (hsep _ (l1_mem_levels p)) hs.keyed.l1btb ha hl
  exact hs.top.l1btb l hv hbranch

/-- The bit of branch 20 comes back from L2 with it. -/
theorem through_bit_retained_small :
    ∃ s₀ s : State commitTrained, Reached ⟨false, false⟩ [.wait, .resolve 20 101] s₀ ∧
      run step (s₀.trainPrefetchBitsOnCommit 0 20 false)
        [.wait, .resolve 10 100, .wait, .predict 20] = .ok s ∧
      ∃ l, s.l1btb.findEntry ⟨20, 0⟩ = some l ∧ (s.l1btb.get l).prefetchThrough = true := by
  obtain ⟨s₀, hs₀, htest⟩ := exists_of_holdsAt
    (run step (State.init commitTrained ⟨false, false⟩) [.wait, .resolve 20 101])
    (fun s₀ => s₀.inL1 0 20 &&
      alongTest step (fun t o => decide (t.inHierarchy 0 20 = true ∧ KeepsBit 0 20 t o))
        (s₀.trainPrefetchBitsOnCommit 0 20 false) [.wait, .resolve 10 100, .wait, .predict 20] &&
      holdsAt (run step (s₀.trainPrefetchBitsOnCommit 0 20 false)
        [.wait, .resolve 10 100, .wait, .predict 20]) (fun s => s.inL1 0 20)) (by decide +kernel)
  obtain ⟨htest, hlast⟩ := and_eq_true_iff.mp htest
  obtain ⟨hin, halong⟩ := and_eq_true_iff.mp htest
  obtain ⟨s, hs, hthere⟩ := exists_of_holdsAt _ _ hlast
  obtain ⟨l, hl⟩ := isSome_iff_exists.mp hthere
  refine ⟨s₀, s, hs₀, hs, l, hl, ?_⟩
  exact through_bit_retained (p := commitTrained) (U := Set.univ) rfl rfl rfl
    (noCollision_small rfl _ 0) trivial (uses_univ rfl) (uses_univ rfl) hs₀ hin
    (along_of_test _ halong) hs l hl

/-- Branch 20 falls through and moves to L2. When it is resolved again it gets a
fresh L1 entry without the bit. -/
theorem update_forgets_through_bit :
    commitTrained.trainBitsOnCommit = true ∧ commitTrained.cleanBitsOnL1Promotion = false ∧
    commitTrained.indirectAltBit = false ∧ NoCollision commitTrained Set.univ 0 ∧
    ∃ s₀ s : State commitTrained, Reached ⟨false, false⟩ [.wait, .resolve 20 101] s₀ ∧
      s₀.inL1 0 20 = true ∧
      Along step (fun t _ => t.inHierarchy 0 20 = true) (s₀.trainPrefetchBitsOnCommit 0 20 false)
        [.wait, .resolve 10 100, .wait, .resolve 20 102] ∧
      run step (s₀.trainPrefetchBitsOnCommit 0 20 false)
        [.wait, .resolve 10 100, .wait, .resolve 20 102] = .ok s ∧
      s.inL1 0 20 = true ∧ throughIn s.l1btb ⟨20, 0⟩ = false := by
  refine ⟨rfl, rfl, rfl, noCollision_small rfl _ 0, ?_⟩
  obtain ⟨s₀, hs₀, htest⟩ := exists_of_holdsAt
    (run step (State.init commitTrained ⟨false, false⟩) [.wait, .resolve 20 101])
    (fun s₀ => s₀.inL1 0 20 &&
      alongTest step (fun t _ => decide (t.inHierarchy 0 20 = true))
        (s₀.trainPrefetchBitsOnCommit 0 20 false)
        [.wait, .resolve 10 100, .wait, .resolve 20 102] &&
      holdsAt (run step (s₀.trainPrefetchBitsOnCommit 0 20 false)
        [.wait, .resolve 10 100, .wait, .resolve 20 102])
        (fun s => s.inL1 0 20 && !throughIn s.l1btb ⟨20, 0⟩)) (by decide +kernel)
  obtain ⟨htest, hlast⟩ := and_eq_true_iff.mp htest
  obtain ⟨hin, halong⟩ := and_eq_true_iff.mp htest
  obtain ⟨s, hs, hend⟩ := exists_of_holdsAt _ _ hlast
  obtain ⟨hthere, hclear⟩ := and_eq_true_iff.mp hend
  refine ⟨s₀, s, hs₀, hin, along_of_test _ halong, hs, hthere, ?_⟩
  simpa using hclear

end State

end BTBFerret
