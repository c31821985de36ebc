import BTBFerret.ReplacementPolicy

/-!
# Set-associative caches of replaceable entries

The container is generic in entry class, key type, geometry and replacement policy. An entry pointer
is a location, that is a set and a way. The first way of the set whose entry matches the key is the
one found. Inserting requires the entry to be invalid, as the entry class asserts, and is fallible.
`Unique` is the invariant that no set holds two valid entries of one tag.
-/

namespace AssociativeCache

open ReplacementPolicy Option

/-- An entry class together with the geometry and the policy of one container. -/
structure Shape (E K : Type) where
  Tag : Type
  tagOf : K → Tag
  tag : E → Tag
  isValid : E → Bool
  «match» : K → E → Bool
  insert : K → E → E
  invalidate : E → E
  initVal : E
  numSets : Nat
  assoc : Nat
  assoc_pos : 0 < assoc
  extractSet : K → Fin numSets
  policy : Policy (Fin numSets × Fin assoc)
  match_iff : ∀ k e, «match» k e = true ↔ isValid e = true ∧ tag e = tagOf k
  isValid_insert : ∀ k e, isValid (insert k e) = true
  tag_insert : ∀ k e, tag (insert k e) = tagOf k
  isValid_invalidate : ∀ e, isValid (invalidate e) = false
  isValid_initVal : isValid initVal = false

variable {E K : Type}

abbrev Loc (P : Shape E K) := Fin P.numSets × Fin P.assoc

structure Cache (P : Shape E K) where
  entries : Vector (Vector E P.assoc) P.numSets
  repl : P.policy.Data

variable {P : Shape E K}

namespace Cache

def init (P : Shape E K) : Cache P where
  entries := Vector.replicate P.numSets (Vector.replicate P.assoc P.initVal)
  repl := P.policy.instantiateEntry

def get (C : Cache P) (l : Loc P) : E := (C.entries[l.1])[l.2]

def set (C : Cache P) (l : Loc P) (e : E) : Cache P :=
  { C with entries := C.entries.set l.1 ((C.entries[l.1]).set l.2 e) }

/-- Write through an entry pointer. -/
def modify (C : Cache P) (l : Loc P) (f : E → E) : Cache P := C.set l (f (C.get l))

@[simp] lemma get_init (l : Loc P) : (init P).get l = P.initVal := by
  simp [init, get]

section

variable (C : Cache P)

lemma get_set (l l' : Loc P) (e : E) : (C.set l e).get l' = if l' = l then e else C.get l' := by
  obtain ⟨i, w⟩ := l
  obtain ⟨j, v⟩ := l'
  by_cases hs : j = i
  · subst hs
    by_cases hw : v = w
    · subst hw
      simp [get, set]
    · have hne : (w : Nat) ≠ v := fun h => hw (Fin.ext h.symm)
      simp [get, set, hw, hne]
  · have hne : (i : Nat) ≠ j := fun h => hs (Fin.ext h.symm)
    simp [get, set, hs, hne]

@[simp] lemma get_set_self (l : Loc P) (e : E) : (C.set l e).get l = e := by
  rw [get_set, if_pos rfl]

lemma get_modify (l l' : Loc P) (f : E → E) :
    (C.modify l f).get l' = if l' = l then f (C.get l) else C.get l' :=
  get_set C l l' (f (C.get l))

@[simp] lemma get_modify_self (l : Loc P) (f : E → E) : (C.modify l f).get l = f (C.get l) :=
  get_set_self C l (f (C.get l))

lemma modify_id (l : Loc P) : C.modify l id = C := by
  simp [modify, set, get]

@[simp] lemma get_with_repl (d : P.policy.Data) (l : Loc P) :
    (Cache.mk C.entries d).get l = C.get l := rfl

end

end Cache

/-- All ways of the key's set, in way order. -/
def getPossibleEntries (P : Shape E K) (k : K) : List (Loc P) :=
  (List.finRange P.assoc).map (fun w => (P.extractSet k, w))

variable {k : K} {l : Loc P}

lemma mem_getPossibleEntries : l ∈ getPossibleEntries P k ↔ l.1 = P.extractSet k := by
  obtain ⟨i, w⟩ := l
  simp [getPossibleEntries, eq_comm]

lemma getPossibleEntries_ne_nil (k : K) : getPossibleEntries P k ≠ [] := by
  have hm : (P.extractSet k, ⟨0, P.assoc_pos⟩) ∈ getPossibleEntries P k :=
    mem_getPossibleEntries.mpr rfl
  exact List.ne_nil_of_mem hm

namespace Cache

def findEntry (C : Cache P) (k : K) : Option (Loc P) :=
  (getPossibleEntries P k).find? (fun l => P.match k (C.get l))

/-- Update the replacement information of an entry. -/
def accessEntry (C : Cache P) (now : Tick) (l : Loc P) : Cache P :=
  { C with repl := P.policy.touch now l C.repl }

def accessKey (C : Cache P) (now : Tick) (k : K) : Option (Loc P) × Cache P :=
  match C.findEntry k with
  | some l => (some l, C.accessEntry now l)
  | none => (none, C)

/-- Invalidate an entry and its replacement data. -/
def invalidate (C : Cache P) (l : Loc P) : Cache P :=
  { C.modify l P.invalidate with repl := P.policy.invalidate l C.repl }

/-- The policy's choice among the key's ways, invalidated unless told otherwise. -/
def findVictim (C : Cache P) (k : K) (doInvalidate : Bool) : Loc P × Cache P :=
  let r := P.policy.getVictim C.repl (getPossibleEntries P k) (getPossibleEntries_ne_nil k)
  let C := { C with repl := r.2 }
  (r.1, if doInvalidate then C.invalidate r.1 else C)

def insertEntry {ε : Type} (fault : ε) (C : Cache P) (now : Tick) (k : K) (l : Loc P) :
    Except ε (Cache P) :=
  if P.isValid (C.get l) then .error fault
  else .ok { C.modify l (P.insert k) with repl := P.policy.reset now l C.repl }

def allEntries (P : Shape E K) : List (Loc P) :=
  (List.finRange P.numSets).flatMap (fun i => (List.finRange P.assoc).map (fun w => (i, w)))

def clear (C : Cache P) : Cache P where
  entries := C.entries.map (fun ways => ways.map P.invalidate)
  repl := (allEntries P).foldl (fun d l => P.policy.invalidate l d) C.repl

section

variable (C : Cache P)

lemma accessKey_of_some {k : K} {l : Loc P} (now : Tick) (h : C.findEntry k = some l) :
    C.accessKey now k = (some l, C.accessEntry now l) := by
  simp only [accessKey, h]

lemma accessKey_of_none {k : K} (now : Tick) (h : C.findEntry k = none) :
    C.accessKey now k = (none, C) := by
  simp only [accessKey, h]

@[simp] lemma get_accessEntry (now : Tick) (l l' : Loc P) :
    (C.accessEntry now l).get l' = C.get l' := rfl

lemma get_invalidate (l l' : Loc P) :
    (C.invalidate l).get l' = if l' = l then P.invalidate (C.get l) else C.get l' :=
  get_modify C l l' P.invalidate

@[simp] lemma get_invalidate_self (l : Loc P) : (C.invalidate l).get l = P.invalidate (C.get l) :=
  get_modify_self C l P.invalidate

@[simp] lemma get_clear (l : Loc P) : C.clear.get l = P.invalidate (C.get l) := by
  simp [clear, get]

lemma findVictim_set (k : K) (b : Bool) : (C.findVictim k b).1.1 = P.extractSet k :=
  mem_getPossibleEntries.mp (P.policy.getVictim_mem C.repl _ (getPossibleEntries_ne_nil k))

lemma get_findVictim_keep (k : K) (l : Loc P) : (C.findVictim k false).2.get l = C.get l := (rfl)

lemma get_findVictim_drop (k : K) (l : Loc P) :
    (C.findVictim k true).2.get l =
      if l = (C.findVictim k true).1 then P.invalidate (C.get (C.findVictim k true).1)
      else C.get l :=
  get_invalidate _ _ l

lemma findVictim_fst (k : K) (b b' : Bool) : (C.findVictim k b).1 = (C.findVictim k b').1 := rfl

end

variable {C : Cache P}

lemma insertEntry_eq {ε : Type} (fault : ε) (now : Tick) (k : K)
    (h : P.isValid (C.get l) = false) :
    C.insertEntry fault now k l =
      .ok { C.modify l (P.insert k) with repl := P.policy.reset now l C.repl } := by
  simp [insertEntry, h]

/-! ## Finding entries -/

lemma findEntry_some (h : C.findEntry k = some l) :
    l.1 = P.extractSet k ∧ P.match k (C.get l) = true := by
  refine ⟨mem_getPossibleEntries.mp (List.mem_of_find?_eq_some h), ?_⟩
  exact List.find?_some (p := fun l => P.match k (C.get l)) h

lemma findEntry_none_iff :
    C.findEntry k = none ↔ ∀ l : Loc P, l.1 = P.extractSet k → P.match k (C.get l) = false := by
  simp only [findEntry, List.find?_eq_none, mem_getPossibleEntries, Bool.not_eq_true]

lemma findEntry_isSome_iff : (C.findEntry k).isSome = true ↔
      ∃ l : Loc P, l.1 = P.extractSet k ∧ P.match k (C.get l) = true := by
  constructor
  · intro h
    obtain ⟨l, hl⟩ := isSome_iff_exists.mp h
    exact ⟨l, findEntry_some hl⟩
  · rintro ⟨l, hl, hm⟩
    by_contra hn
    have hnone := findEntry_none_iff.mp (not_isSome_iff_eq_none.mp hn) l hl
    rw [hm] at hnone
    cases hnone

variable {C' : Cache P}

/-- Only validity and tags of the key's own set decide what is found. -/
lemma findEntry_congr
    (h : ∀ l : Loc P, l.1 = P.extractSet k → P.match k (C'.get l) = P.match k (C.get l)) :
    C'.findEntry k = C.findEntry k := by
  apply List.find?_congr
  intro l hl
  exact h l (mem_getPossibleEntries.mp hl)

/-! ## Uniqueness of tags -/

def Unique (C : Cache P) : Prop :=
  ∀ l l' : Loc P, l.1 = l'.1 → P.isValid (C.get l) = true → P.isValid (C.get l') = true →
    P.tag (C.get l) = P.tag (C.get l') → l = l'

lemma unique_of_all_invalid (h : ∀ l, P.isValid (C.get l) = false) : Unique C := by
  intro l l' _ hv
  rw [h l] at hv
  cases hv

lemma unique_init : Unique (init P) :=
  unique_of_all_invalid (fun l => by rw [get_init]; exact P.isValid_initVal)

lemma unique_clear (C : Cache P) : Unique C.clear :=
  unique_of_all_invalid (fun l => by rw [get_clear]; exact P.isValid_invalidate _)

/-- Entries may be rewritten or dropped as long as no tag appears anew. -/
lemma Unique.of_subset (h : Unique C) (hsub : ∀ l, P.isValid (C'.get l) = true →
      P.isValid (C.get l) = true ∧ P.tag (C'.get l) = P.tag (C.get l)) : Unique C' := by
  intro l l' hset hl hl' htag
  obtain ⟨hv, ht⟩ := hsub l hl
  obtain ⟨hv', ht'⟩ := hsub l' hl'
  exact h l l' hset hv hv' (by rw [← ht, ← ht', htag])

/-- One location of the key's set receives the tag of a key not found before. -/
lemma Unique.of_insert (h : Unique C) {slot : Loc P} (hset : slot.1 = P.extractSet k)
    (absent : C.findEntry k = none) (htag : P.tag (C'.get slot) = P.tagOf k)
    (hsub : ∀ l, l ≠ slot → P.isValid (C'.get l) = true →
      P.isValid (C.get l) = true ∧ P.tag (C'.get l) = P.tag (C.get l)) : Unique C' := by
  have fresh : ∀ l : Loc P, l ≠ slot → l.1 = P.extractSet k → P.isValid (C'.get l) = true →
      P.tag (C'.get l) ≠ P.tagOf k := by
    intro l hne hl hv heq
    obtain ⟨hold, ht⟩ := hsub l hne hv
    have hm : P.match k (C.get l) = true := (P.match_iff k _).mpr ⟨hold, by rw [← ht, heq]⟩
    rw [findEntry_none_iff.mp absent l hl] at hm
    cases hm
  intro l l' hsame hl hl' heq
  by_cases ha : l = slot
  · by_cases ha' : l' = slot
    · exact ha.trans ha'.symm
    · refine False.elim (fresh l' ha' ?_ hl' ?_)
      · rw [← hsame, ha, hset]
      · rw [← heq, ha, htag]
  · by_cases ha' : l' = slot
    · refine False.elim (fresh l ha ?_ hl ?_)
      · rw [hsame, ha', hset]
      · rw [heq, ha', htag]
    · obtain ⟨hv, ht⟩ := hsub l ha hl
      obtain ⟨hv', ht'⟩ := hsub l' ha' hl'
      exact h l l' hsame hv hv' (by rw [← ht, ← ht', heq])

lemma Unique.findEntry_eq (h : Unique C) (hl : l.1 = P.extractSet k)
    (hm : P.match k (C.get l) = true) : C.findEntry k = some l := by
  obtain ⟨found, hfound⟩ := isSome_iff_exists.mp (findEntry_isSome_iff.mpr ⟨l, hl, hm⟩)
  obtain ⟨hset, hmatch⟩ := findEntry_some hfound
  obtain ⟨hv, ht⟩ := (P.match_iff k _).mp hmatch
  obtain ⟨hv', ht'⟩ := (P.match_iff k _).mp hm
  have he : found = l := h found l (hset.trans hl.symm) hv hv' (ht.trans ht'.symm)
  rw [hfound, he]

/-! ## Storing under a key -/

def slotFor (C : Cache P) (k : K) : Loc P := (C.findEntry k).getD (C.findVictim k true).1

def openFor (C : Cache P) (k : K) : E :=
  match C.findEntry k with
  | some l => C.get l
  | none => P.insert k (P.invalidate (C.get (C.findVictim k true).1))

/-- Access the key's entry or replace a victim by it, then rewrite the entry.
`tell` says whether the policy hears of the victim's invalidation. -/
def store (C : Cache P) (tell : Bool) (now : Tick) (k : K) (f : E → E) : Cache P :=
  match C.findEntry k with
  | some l => (C.accessEntry now l).modify l f
  | none =>
    let l := (C.findVictim k tell).1
    let D := if tell then (C.findVictim k tell).2 else (C.findVictim k tell).2.modify l P.invalidate
    Cache.modify { D.modify l (P.insert k) with repl := P.policy.reset now l D.repl } l f

lemma slotFor_of_some (h : C.findEntry k = some l) : C.slotFor k = l := by
  rw [slotFor, h, getD_some]

lemma slotFor_of_none (h : C.findEntry k = none) (b : Bool) :
    C.slotFor k = (C.findVictim k b).1 := by
  rw [slotFor, h, getD_none, findVictim_fst C k true b]

lemma slotFor_set (C : Cache P) (k : K) : (C.slotFor k).1 = P.extractSet k := by
  cases h : C.findEntry k with
  | some =>
    rw [slotFor_of_some h]
    exact (findEntry_some h).1
  | none =>
    rw [slotFor_of_none h true]
    exact findVictim_set C k true

/-- Either way the entry about to be rewritten is the key's own. -/
lemma match_openFor (C : Cache P) (k : K) : P.match k (C.openFor k) = true := by
  unfold openFor
  split
  · rename_i l h
    exact (findEntry_some h).2
  · exact (P.match_iff k _).mpr ⟨P.isValid_insert k _, P.tag_insert k _⟩

lemma get_store (C : Cache P) (tell : Bool) (now : Tick) (k : K) (f : E → E) (l : Loc P) :
    (C.store tell now k f).get l = if l = C.slotFor k then f (C.openFor k) else C.get l := by
  cases h : C.findEntry k with
  | some =>
    rw [slotFor_of_some h]
    simp only [store, openFor, h, get_modify, get_accessEntry]
  | none =>
    rw [slotFor_of_none h tell]
    have hopen : C.openFor k = P.insert k (P.invalidate (C.get (C.findVictim k tell).1)) := by
      simp only [openFor, h, findVictim_fst C k true tell]
    by_cases hl : l = (C.findVictim k tell).1
    · subst hl
      cases tell with
      | true => simp [store, h, hopen, get_findVictim_drop]
      | false => simp [store, h, hopen, get_findVictim_keep]
    · cases tell with
      | true => simp [store, h, hl, get_modify, get_findVictim_drop]
      | false => simp [store, h, hl, get_modify, get_findVictim_keep]

/-- Rewriting an open entry without touching its tag makes the key found there. -/
lemma findEntry_store (C : Cache P) (tell : Bool) (now : Tick) (k : K) (f : E → E)
    (hf : P.match k (f (C.openFor k)) = true) :
    (C.store tell now k f).findEntry k = some (C.slotFor k) := by
  cases h : C.findEntry k with
  | some =>
    rw [← slotFor_of_some h] at h
    rw [← h]
    apply findEntry_congr
    intro l _
    rw [get_store]
    by_cases hl : l = C.slotFor k
    · rw [if_pos hl, hf, hl, (findEntry_some h).2]
    · rw [if_neg hl]
  | none =>
    have hsome : ((C.store tell now k f).findEntry k).isSome = true := by
      refine findEntry_isSome_iff.mpr ⟨C.slotFor k, slotFor_set C k, ?_⟩
      rw [get_store, if_pos rfl]
      exact hf
    obtain ⟨l, hl⟩ := isSome_iff_exists.mp hsome
    obtain ⟨hset, hmatch⟩ := findEntry_some hl
    by_cases he : l = C.slotFor k
    · rw [hl, he]
    · rw [get_store, if_neg he, findEntry_none_iff.mp h l hset] at hmatch
      cases hmatch

lemma Unique.store (h : Unique C) (tell : Bool) (now : Tick) (k : K) (f : E → E)
    (hf : P.match k (f (C.openFor k)) = true) : Unique (C.store tell now k f) := by
  have hslot : (C.store tell now k f).get (C.slotFor k) = f (C.openFor k) := by
    rw [get_store, if_pos rfl]
  have htag : P.tag (f (C.openFor k)) = P.tagOf k := ((P.match_iff k _).mp hf).2
  have hrest : ∀ l, l ≠ C.slotFor k → P.isValid ((C.store tell now k f).get l) = true →
      P.isValid (C.get l) = true ∧ P.tag ((C.store tell now k f).get l) = P.tag (C.get l) := by
    intro l hl hv
    rw [get_store, if_neg hl] at hv ⊢
    exact ⟨hv, rfl⟩
  cases hk : C.findEntry k with
  | none =>
    exact h.of_insert (slotFor_set C k) hk (by rw [hslot, htag]) hrest
  | some =>
    apply h.of_subset
    intro l hv
    by_cases hl : l = C.slotFor k
    · obtain ⟨hval, hold⟩ := (P.match_iff k _).mp (findEntry_some hk).2
      rw [hl, slotFor_of_some hk] at *
      exact ⟨hval, by rw [hslot, htag, hold]⟩
    · exact hrest l hl hv

/-! ## Replacing a victim -/

def replace (C : Cache P) (now : Tick) (k : K) (f : E → E) : Cache P :=
  let l := (C.findVictim k true).1
  let D := (C.findVictim k true).2
  Cache.modify { D.modify l (P.insert k) with repl := P.policy.reset now l D.repl } l f

lemma get_replace (C : Cache P) (now : Tick) (k : K) (f : E → E) (l : Loc P) :
    (C.replace now k f).get l = if l = (C.findVictim k true).1 then
      f (P.insert k (P.invalidate (C.get (C.findVictim k true).1))) else C.get l := by
  by_cases hl : l = (C.findVictim k true).1
  · rw [if_pos hl, hl]
    simp [replace, get_findVictim_drop]
  · simp [replace, hl, get_modify, get_findVictim_drop]

lemma findVictim_invalid (C : Cache P) (k : K) :
    P.isValid ((C.findVictim k true).2.get (C.findVictim k true).1) = false := by
  rw [get_findVictim_drop, if_pos rfl]
  exact P.isValid_invalidate _

/-! ## Other keys -/

/-- Keys that the container cannot confuse. -/
def Apart (P : Shape E K) (k k' : K) : Prop :=
  P.extractSet k ≠ P.extractSet k' ∨ P.tagOf k ≠ P.tagOf k'

/-- A location that takes another content is lost to the key it stored, and to
no other key. -/
lemma Unique.findEntry_of_changed (h : Unique C) {slot : Loc P}
    (hrest : ∀ l, l ≠ slot → P.match k (C'.get l) = P.match k (C.get l))
    (hslot : slot.1 = P.extractSet k → P.match k (C'.get slot) = false) :
    C'.findEntry k = if C.findEntry k = some slot then none else C.findEntry k := by
  by_cases hk : C.findEntry k = some slot
  · rw [if_pos hk, findEntry_none_iff]
    intro l hl
    by_cases he : l = slot
    · subst he
      exact hslot hl
    · rw [hrest l he, Bool.eq_false_iff]
      intro hm
      have hfound := h.findEntry_eq hl hm
      rw [hk] at hfound
      exact he (some.inj hfound).symm
  · rw [if_neg hk]
    apply findEntry_congr
    intro l hl
    by_cases he : l = slot
    · subst he
      rw [hslot hl, eq_comm, Bool.eq_false_iff]
      intro hm
      exact hk (h.findEntry_eq hl hm)
    · exact hrest l he

lemma Unique.findEntry_store_other (h : Unique C) (tell : Bool) (now : Tick) {k' : K} (f : E → E)
    (hf : P.match k (f (C.openFor k)) = true) (apart : Apart P k k') :
    (C.store tell now k f).findEntry k' =
      if C.findEntry k' = some (C.slotFor k) then none else C.findEntry k' := by
  apply h.findEntry_of_changed
  · intro l hl
    rw [get_store, if_neg hl]
  · intro hset
    rw [get_store, if_pos rfl, Bool.eq_false_iff]
    intro hm
    have hsame : P.extractSet k = P.extractSet k' := by rw [← slotFor_set C k, hset]
    have htag : P.tagOf k = P.tagOf k' := by
      rw [← ((P.match_iff k _).mp hf).2, ((P.match_iff k' _).mp hm).2]
    exact apart.elim (fun hne => hne hsame) (fun hne => hne htag)

lemma Unique.findEntry_invalidate (h : Unique C) (l : Loc P) (k : K) :
    (C.invalidate l).findEntry k = if C.findEntry k = some l then none else C.findEntry k := by
  apply h.findEntry_of_changed
  · intro l' hl
    rw [get_invalidate, if_neg hl]
  · intro _
    rw [get_invalidate_self, Bool.eq_false_iff]
    intro hm
    have hv := ((P.match_iff k _).mp hm).1
    rw [P.isValid_invalidate] at hv
    cases hv

lemma Unique.invalidate (h : Unique C) (l : Loc P) : Unique (C.invalidate l) := by
  apply h.of_subset
  intro l' hv
  by_cases hl : l' = l
  · rw [hl, get_invalidate_self, P.isValid_invalidate] at hv
    cases hv
  · rw [get_invalidate, if_neg hl] at hv ⊢
    exact ⟨hv, rfl⟩

end Cache

end AssociativeCache
