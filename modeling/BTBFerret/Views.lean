import BTBFerret.LevelInvariants
import BTBFerret.LineRules
import BTBFerret.Uniqueness

/-!
# A level as a partial map

For one thread and a set of branches that no level confuses, a level is a map
from branches to what it stores for them. Storing a line then is a put of the
abstract hierarchy, whose victim is the branch that owned the slot.
-/

namespace BTBFerret

open ReplacementPolicy AssociativeCache EvictingLevels Function Option

def Separates (v : BTBLevel) (U : Set Addr) (tid : ThreadID) : Prop :=
  ∀ a ∈ U, ∀ b ∈ U, v.shape.extractSet ⟨a, tid⟩ = v.shape.extractSet ⟨b, tid⟩ →
    v.shape.tagOf ⟨a, tid⟩ = v.shape.tagOf ⟨b, tid⟩ → a = b

def NoCollision (p : Params) (U : Set Addr) (tid : ThreadID) : Prop :=
  ∀ v ∈ p.levels, Separates v U tid

/-- Whole addresses as tags tell all branches apart. -/
lemma separates_small (ways : Nat) (h : 0 < ways) (U : Set Addr) (tid : ThreadID) :
    Separates (.small ways h) U tid := by
  intro a _ b _ _ htag
  have hmask : (BTBLevel.small ways h).tagMask = BitVec.allOnes 64 := rfl
  have hshift : (BTBLevel.small ways h).tagShift = 0 := rfl
  have hwhole : ∀ x : Addr, (BTBLevel.small ways h).extractTag x = x := by
    intro x
    rw [BTBLevel.extractTag, hmask, hshift, BitVec.ushiftRight_zero, BitVec.and_allOnes]
  have hsame : (BTBLevel.small ways h).extractTag a = (BTBLevel.small ways h).extractTag b :=
    congrArg KeyType.address htag
  rwa [hwhole, hwhole] at hsame

lemma noCollision_small {p : Params} (h : p.levels = Params.small.levels) (U : Set Addr)
    (tid : ThreadID) : NoCollision p U tid := by
  intro v hv
  rw [h] at hv
  simp only [Params.levels, Params.small, List.mem_cons, List.not_mem_nil, or_false] at hv
  rcases hv with rfl | rfl | rfl | rfl <;> exact separates_small _ _ U tid

def keyedRule (U : Set Addr) (tid : ThreadID) : LineRule := fun v i x =>
  x.branchAddr ∈ U ∧ i = v.shape.extractSet ⟨x.branchAddr, tid⟩ ∧
    x.tag = v.shape.tagOf ⟨x.branchAddr, tid⟩

section

variable {v : BTBLevel} {U : Set Addr} {tid : ThreadID} {α : Type}
  {g : Option PCState → Option StaticInst → α} {C C' : BTBCache v}

/-- What a level stores for a branch, as far as `g` tells. -/
def view (tid : ThreadID) (g : Option PCState → Option StaticInst → α) (C : BTBCache v) (k : U) :
    Option α :=
  (C.findEntry ⟨k, tid⟩).map (fun l => g (lines C l).target (lines C l).inst)

lemma view_of_lines (h : lines C' = lines C) : view (U := U) tid g C' = view tid g C := by
  funext k
  simp only [view, findEntry_of_lines h, h]

variable {k : U}

lemma view_eq_none : view tid g C k = none ↔ C.findEntry ⟨k, tid⟩ = none := by
  simp only [view, map_eq_none_iff]

variable {l : Loc v.shape}

lemma view_of_found (h : C.findEntry ⟨k, tid⟩ = some l) :
    view tid g C k = some (g (lines C l).target (lines C l).inst) := by
  simp only [view, h, map_some]

lemma found_of_valid (hu : C.Unique) (hk : Obeys (keyedRule U tid) C)
    (hv : (lines C l).valid = true) :
    (lines C l).branchAddr ∈ U ∧ C.findEntry ⟨(lines C l).branchAddr, tid⟩ = some l := by
  obtain ⟨hmem, hset, htag⟩ := hk l hv
  exact ⟨hmem, hu.findEntry_eq hset ((v.shape.match_iff _ _).mpr ⟨hv, htag⟩)⟩

lemma branchAddr_of_found (hsep : Separates v U tid) (hk : Obeys (keyedRule U tid) C)
    {a : Addr} (ha : a ∈ U) (h : C.findEntry ⟨a, tid⟩ = some l) :
    (lines C l).valid = true ∧ (lines C l).branchAddr = a := by
  obtain ⟨hset, hmatch⟩ := Cache.findEntry_some h
  obtain ⟨hv, ht⟩ := (v.shape.match_iff _ _).mp hmatch
  obtain ⟨hmem, hset', htag⟩ := hk l hv
  refine ⟨hv, hsep _ hmem a ha ?_ ?_⟩
  · rw [← hset', hset]
  · rw [← htag]
    exact ht

open Classical in
noncomputable def owner (U : Set Addr) (x : Line) : Option U :=
  if h : x.valid = true ∧ x.branchAddr ∈ U then some ⟨x.branchAddr, h.2⟩ else none

/-- The branch that makes room when a branch is stored. -/
noncomputable def victimOf (C : BTBCache v) (U : Set Addr) (tid : ThreadID) (a : Addr) : Option U :=
  if C.findEntry ⟨a, tid⟩ = none then owner U (lines C (C.slotFor ⟨a, tid⟩)) else none

lemma owner_eq_some {x : Line} : owner U x = some k ↔ x.valid = true ∧ x.branchAddr = k := by
  unfold owner
  constructor
  · intro h
    split at h
    · rename_i hx
      exact ⟨hx.1, congrArg Subtype.val (some.inj h)⟩
    · cases h
  · rintro ⟨hv, ha⟩
    have hmem : x.branchAddr ∈ U := by
      rw [ha]
      exact k.2
    rw [dif_pos ⟨hv, hmem⟩]
    exact congrArg some (Subtype.ext ha)

lemma victimOf_eq_some {a : Addr} : victimOf C U tid a = some k ↔
    C.findEntry ⟨a, tid⟩ = none ∧ (lines C (C.slotFor ⟨a, tid⟩)).valid = true ∧
      (lines C (C.slotFor ⟨a, tid⟩)).branchAddr = k := by
  unfold victimOf
  split
  · rename_i hnone
    rw [owner_eq_some]
    exact ⟨fun h => ⟨hnone, h⟩, fun h => h.2⟩
  · rename_i hsome
    exact ⟨fun h => (by cases h), fun h => absurd h.1 hsome⟩

lemma apart_of_ne (hsep : Separates v U tid) {j : U} (h : j ≠ k) :
    Cache.Apart v.shape ⟨k, tid⟩ ⟨j, tid⟩ := by
  by_cases hset : v.shape.extractSet ⟨k, tid⟩ = v.shape.extractSet ⟨j, tid⟩
  · right
    intro htag
    exact h (Subtype.ext (hsep k k.2 j j.2 hset htag)).symm
  · exact Or.inl hset

section

variable (hsep : Separates v U tid) (hu : C.Unique) (hk : Obeys (keyedRule U tid) C)

include hsep hu hk

lemma put_of_stored {x : Line} (hv : x.valid = true) (ht : x.tag = v.shape.tagOf ⟨k, tid⟩)
    (h : lines C' = update (lines C) (C.slotFor ⟨k, tid⟩) x) :
    Put (view tid g C) k (g x.target x.inst) (victimOf C U tid k) (view tid g C') := by
  have hmatch : v.shape.match ⟨k, tid⟩ ((C.openFor ⟨k, tid⟩).withLine x) = true :=
    (v.shape.match_iff _ _).mpr ⟨hv, ht⟩
  have hsame : lines C' = lines (C.store true 0 ⟨k, tid⟩ (fun e => e.withLine x)) := by
    rw [h, lines_store, BTBEntry.line_withLine]
  have hown : C'.findEntry ⟨k, tid⟩ = some (C.slotFor ⟨k, tid⟩) := by
    rw [findEntry_of_lines hsame]
    exact C.findEntry_store true 0 _ _ hmatch
  have hother : ∀ j : U, j ≠ k → C'.findEntry ⟨j, tid⟩ =
      if C.findEntry ⟨j, tid⟩ = some (C.slotFor ⟨k, tid⟩) then none
      else C.findEntry ⟨j, tid⟩ := by
    intro j hj
    rw [findEntry_of_lines hsame]
    exact hu.findEntry_store_other true 0 _ hmatch (apart_of_ne hsep hj)
  -- a victim is found in the slot that the new line takes
  have hvictim : ∀ j, victimOf C U tid k = some j →
      C.findEntry ⟨k, tid⟩ = none ∧ C.findEntry ⟨j, tid⟩ = some (C.slotFor ⟨k, tid⟩) := by
    intro j hj
    obtain ⟨hnone, hvalid, haddr⟩ := victimOf_eq_some.mp hj
    refine ⟨hnone, ?_⟩
    rw [← haddr]
    exact (found_of_valid hu hk hvalid).2
  have hne : ∀ j, victimOf C U tid k = some j → j ≠ k := by
    rintro j hj rfl
    obtain ⟨hnone, hsome⟩ := hvictim j hj
    rw [hnone] at hsome
    cases hsome
  refine ⟨?_, ?_, ?_, ?_, ?_⟩
  · rw [view_of_found hown, h, update_self]
  · intro j hj hkeep
    have hslot : C.findEntry ⟨j, tid⟩ ≠ some (C.slotFor ⟨k, tid⟩) := by
      intro hfound
      obtain ⟨hvalid, haddr⟩ := branchAddr_of_found hsep hk j.2 hfound
      cases hfind : C.findEntry ⟨(k : Addr), tid⟩ with
      | none => exact hkeep (victimOf_eq_some.mpr ⟨hfind, hvalid, haddr⟩)
      | some =>
        rw [Cache.slotFor_of_some hfind] at haddr
        have hk' := (branchAddr_of_found hsep hk k.2 hfind).2
        exact hj (Subtype.ext (haddr.symm.trans hk'))
    have hfind := hother j hj
    rw [if_neg hslot] at hfind
    unfold view
    rw [hfind]
    cases hl : C.findEntry ⟨(j : Addr), tid⟩ with
    | none => rfl
    | some l =>
      have hl' : l ≠ C.slotFor ⟨k, tid⟩ := by
        rintro rfl
        exact hslot hl
      simp only [map_some, h, update_of_ne hl']
  · intro j hj
    rw [view_eq_none, hother j (hne j hj), if_pos (hvictim j hj).2]
  · intro j hj hnone
    rw [view_eq_none, (hvictim j hj).2] at hnone
    cases hnone
  · intro hk'
    unfold victimOf
    rw [if_neg (fun hnone => hk' (view_eq_none.mpr hnone))]

lemma put_written (tell : Bool) (now : Tick) {victim : BTBEntry} (ha : victim.branchAddr ∈ U) :
    Put (view tid g C) ⟨victim.branchAddr, ha⟩ (g victim.target victim.inst)
      (victimOf C U tid victim.branchAddr) (view tid g (State.written C tell now tid victim)) :=
  put_of_stored hsep hu hk (k := ⟨victim.branchAddr, ha⟩) rfl rfl
    (lines_written C tell now tid victim)

lemma view_invalidate (h : C.findEntry ⟨k, tid⟩ = some l) :
    view tid g (C.invalidate l) = update (view tid g C) k none := by
  funext j
  by_cases hj : j = k
  · subst hj
    rw [update_self, view_eq_none, hu.findEntry_invalidate, if_pos h]
  · rw [update_of_ne hj]
    have hl : C.findEntry ⟨j, tid⟩ ≠ some l := by
      intro hfound
      have h1 := (branchAddr_of_found hsep hk j.2 hfound).2
      have h2 := (branchAddr_of_found hsep hk k.2 h).2
      exact hj (Subtype.ext (h1.symm.trans h2))
    unfold view
    rw [hu.findEntry_invalidate, if_neg hl]
    cases hf : C.findEntry ⟨(j : Addr), tid⟩ with
    | none => rfl
    | some l' =>
      have hne : l' ≠ l := by
        rintro rfl
        exact hl hf
      simp only [map_some, lines, Cache.get_invalidate, if_neg hne]

end

lemma carried_victimOf (hu : C.Unique) (hk : Obeys (keyedRule U tid) C) {a : Addr}
    (hmiss : C.findEntry ⟨a, tid⟩ = none) {e : BTBEntry} (he : C.get (C.slotFor ⟨a, tid⟩) = e)
    (hv : e.valid = true) :
    ∃ ha : e.branchAddr ∈ U, carried (view tid g C) (victimOf C U tid a) =
      some (⟨e.branchAddr, ha⟩, g e.target e.inst) := by
  have hline : lines C (C.slotFor ⟨a, tid⟩) = e.line := by
    rw [lines, he]
  have hfound := found_of_valid hu hk (l := C.slotFor ⟨a, tid⟩) (by rw [hline]; exact hv)
  rw [hline] at hfound
  refine ⟨hfound.1, ?_⟩
  have hvictim : victimOf C U tid a = some ⟨e.branchAddr, hfound.1⟩ := by
    rw [victimOf_eq_some, hline]
    exact ⟨hmiss, hv, rfl⟩
  have hview : view tid g C ⟨e.branchAddr, hfound.1⟩ = some (g e.target e.inst) := by
    rw [view_of_found (k := ⟨e.branchAddr, hfound.1⟩) hfound.2, hline]
    rfl
  simp only [carried, hvictim, bind_some, hview, map_some]

lemma victimOf_of_invalid {a : Addr} (hv : (C.get (C.slotFor ⟨a, tid⟩)).valid = false) :
    victimOf C U tid a = none := by
  cases h : victimOf C U tid a with
  | none => rfl
  | some =>
    have hvalid := (victimOf_eq_some.mp h).2.1
    rw [show (lines C (C.slotFor ⟨a, tid⟩)).valid = false from hv] at hvalid
    cases hvalid

end

end BTBFerret
