import BTBFerret.AssociativeCache

/-!
# Two first-in-first-out caches in lock step

A shadow cache holds shortened tags of another cache of the same geometry. As long as every key is
inserted into both or into none, the two choose the same ways: their stamps differ by the difference
of their clocks, and a way is valid in one exactly if it is in the other. Inserting only keys that
the shadow does not have keeps the shortened tags distinct.
-/

namespace FifoLockstep

open ReplacementPolicy AssociativeCache List Function

structure FifoView {L : Type} [DecidableEq L] (π : Policy L) where
  stamp : π.Data → L → Tick
  clock : π.Data → Tick
  stamp_init : ∀ l, stamp π.instantiateEntry l = 0
  stamp_touch : ∀ now l d, stamp (π.touch now l d) = stamp d
  clock_touch : ∀ now l d, clock (π.touch now l d) = clock d
  stamp_reset : ∀ now l d, stamp (π.reset now l d) = update (stamp d) l (clock d + 1)
  clock_reset : ∀ now l d, clock (π.reset now l d) = clock d + 1
  stamp_invalidate : ∀ l d, stamp (π.invalidate l d) = update (stamp d) l 0
  clock_invalidate : ∀ l d, clock (π.invalidate l d) = clock d
  victim : ∀ d cs h, (π.getVictim d cs h).1 = firstLeast (stamp d) (cs.head h) cs
  stamp_victim : ∀ d cs h, stamp (π.getVictim d cs h).2 = stamp d
  clock_victim : ∀ d cs h, clock (π.getVictim d cs h).2 = clock d

def fifoView {L : Type} [DecidableEq L] (start : Tick) : FifoView (fifo start : Policy L) where
  stamp := FifoData.tickInserted
  clock := FifoData.timeTicks
  stamp_init := fun _ => rfl
  stamp_touch := fun _ _ _ => rfl
  clock_touch := fun _ _ _ => rfl
  stamp_reset := fun _ _ _ => rfl
  clock_reset := fun _ _ _ => rfl
  stamp_invalidate := fun _ _ => rfl
  clock_invalidate := fun _ _ => rfl
  victim := fun _ _ _ => rfl
  stamp_victim := fun _ _ _ => rfl
  clock_victim := fun _ _ _ => rfl

lemma firstLeast_map {L L' : Type} (twin : L → L') {σ : L → Tick} {τ : L' → Tick}
    (h : ∀ a b, τ (twin a) < τ (twin b) ↔ σ a < σ b) (victim : L) (cs : List L) :
    firstLeast τ (twin victim) (cs.map twin) = twin (firstLeast σ victim cs) := by
  induction cs generalizing victim with
  | nil => rfl
  | cons c _ ih =>
    simp only [map_cons, firstLeast]
    rw [← ih]
    congr 1
    by_cases hc : σ c < σ victim
    · rw [if_pos hc, if_pos ((h c victim).mpr hc)]
    · rw [if_neg hc, if_neg (fun hlt => hc ((h c victim).mp hlt))]

lemma map_cast_finRange {n m : Nat} (h : n = m) :
    (List.finRange n).map (Fin.cast h) = List.finRange m := by
  subst h
  simp

/-- Two stamps of the same age, read on clocks that show `a` and `b`. -/
def SameAge (a b x y : Nat) : Prop := (x = 0 ∧ y = 0) ∨ (0 < x ∧ 0 < y ∧ x + b = y + a)

lemma SameAge.lt_iff {a b x y x' y' : Nat} (h : SameAge a b x y) (h' : SameAge a b x' y') :
    y < y' ↔ x < x' := by
  unfold SameAge at h h'
  omega

lemma SameAge.tick {a b x y : Nat} (h : SameAge a b x y) : SameAge (a + 1) (b + 1) x y := by
  unfold SameAge at h ⊢
  omega

structure Shadow {E F K : Type} (P : Shape E K) (Q : Shape F K) where
  numSets : P.numSets = Q.numSets
  assoc : P.assoc = Q.assoc
  extractSet : ∀ k, (Q.extractSet k : Nat) = P.extractSet k
  cut : P.Tag → Q.Tag
  tagOf : ∀ k, Q.tagOf k = cut (P.tagOf k)
  first : FifoView P.policy
  second : FifoView Q.policy

namespace Shadow

variable {E F K : Type} {P : Shape E K} {Q : Shape F K} (S : Shadow P Q)

/-- The way of the shadow that corresponds to a way. -/
def twin (l : Loc P) : Loc Q := (Fin.cast S.numSets l.1, Fin.cast S.assoc l.2)

lemma twin_injective : Injective S.twin := by
  intro l l' h
  have hset : (l.1 : Nat) = l'.1 := congrArg (fun a : Loc Q => (a.1 : Nat)) h
  have hway : (l.2 : Nat) = l'.2 := congrArg (fun a : Loc Q => (a.2 : Nat)) h
  exact Prod.ext (Fin.ext hset) (Fin.ext hway)

variable {l : Loc P}

lemma twin_set {k : K} : (S.twin l).1 = Q.extractSet k ↔ l.1 = P.extractSet k := by
  rw [Fin.ext_iff, Fin.ext_iff, S.extractSet k]
  rfl

lemma map_getPossibleEntries (k : K) :
    (getPossibleEntries P k).map S.twin = getPossibleEntries Q k := by
  unfold getPossibleEntries
  rw [← map_cast_finRange S.assoc, map_map, map_map]
  apply map_congr_left
  intro w _
  exact Prod.ext (Fin.ext (S.extractSet k).symm) rfl

/-- The lock-step relation. -/
structure Lockstep (C : Cache P) (D : Cache Q) : Prop where
  valid : ∀ l, Q.isValid (D.get (S.twin l)) = P.isValid (C.get l)
  tag : ∀ l, P.isValid (C.get l) = true → Q.tag (D.get (S.twin l)) = S.cut (P.tag (C.get l))
  age : ∀ l, SameAge (S.first.clock C.repl) (S.second.clock D.repl) (S.first.stamp C.repl l)
    (S.second.stamp D.repl (S.twin l))
  unique : D.Unique

namespace Lockstep

variable {S} {C : Cache P} {D : Cache Q}

lemma init : S.Lockstep (Cache.init P) (Cache.init Q) where
  valid l := by rw [Cache.get_init, Cache.get_init, P.isValid_initVal, Q.isValid_initVal]
  tag l h := by
    rw [Cache.get_init, P.isValid_initVal] at h
    cases h
  age l := .inl ⟨S.first.stamp_init l, S.second.stamp_init _⟩
  unique := Cache.unique_init

section

variable (h : S.Lockstep C D)

include h

lemma match_twin {k : K} (hm : P.match k (C.get l) = true) :
    Q.match k (D.get (S.twin l)) = true := by
  obtain ⟨hv, ht⟩ := (P.match_iff k _).mp hm
  refine (Q.match_iff k _).mpr ⟨(h.valid l).trans hv, ?_⟩
  rw [h.tag l hv, ht, S.tagOf]

lemma findEntry_twin {k : K} (hl : C.findEntry k = some l) : D.findEntry k = some (S.twin l) := by
  obtain ⟨hset, hm⟩ := Cache.findEntry_some hl
  exact h.unique.findEntry_eq (S.twin_set.mpr hset) (h.match_twin hm)

/-- Equal tags are cut to equal tags, so the first cache has no duplicates either. -/
lemma unique_first : C.Unique := by
  intro l l' hset hv hv' htag
  apply S.twin_injective
  refine h.unique _ _ (congrArg (Fin.cast S.numSets) hset) ((h.valid l).trans hv)
    ((h.valid l').trans hv') ?_
  rw [h.tag l hv, h.tag l' hv', htag]

lemma findVictim_twin (k : K) (b : Bool) :
    (D.findVictim k b).1 = S.twin (C.findVictim k b).1 := by
  have hD : (D.findVictim k b).1 = firstLeast (S.second.stamp D.repl)
      ((getPossibleEntries Q k).head (getPossibleEntries_ne_nil k)) (getPossibleEntries Q k) :=
    S.second.victim D.repl _ _
  have hC : (C.findVictim k b).1 = firstLeast (S.first.stamp C.repl)
      ((getPossibleEntries P k).head (getPossibleEntries_ne_nil k)) (getPossibleEntries P k) :=
    S.first.victim C.repl _ _
  have hhead : (getPossibleEntries Q k).head (getPossibleEntries_ne_nil k) =
      S.twin ((getPossibleEntries P k).head (getPossibleEntries_ne_nil k)) := by
    simp only [← S.map_getPossibleEntries k, head_map]
  rw [hD, hC, hhead, ← S.map_getPossibleEntries k]
  exact firstLeast_map S.twin (fun a b => (h.age a).lt_iff (h.age b)) _ _

lemma rewrite {C' : Cache P}
    (hvalid : ∀ l, P.isValid (C'.get l) = P.isValid (C.get l))
    (htag : ∀ l, P.tag (C'.get l) = P.tag (C.get l))
    (hstamp : S.first.stamp C'.repl = S.first.stamp C.repl)
    (hclock : S.first.clock C'.repl = S.first.clock C.repl) : S.Lockstep C' D where
  valid l := (h.valid l).trans (hvalid l).symm
  tag l hv := by
    rw [htag]
    exact h.tag l (by rw [← hvalid, hv])
  age l := by
    rw [hstamp, hclock]
    exact h.age l
  unique := h.unique

lemma touch (now : Tick) (l : Loc P) : S.Lockstep (C.accessEntry now l) D :=
  h.rewrite (fun _ => rfl) (fun _ => rfl) (S.first.stamp_touch now l _)
    (S.first.clock_touch now l _)

end

lemma stamp_twin_update (m : Loc P) (l : Loc P) (σ : Loc P → Tick) (τ : Loc Q → Tick)
    (x y : Tick) {a b : Tick} (hold : l ≠ m → SameAge a b (σ l) (τ (S.twin l)))
    (hnew : SameAge a b x y) :
    SameAge a b (update σ m x l) (update τ (S.twin m) y (S.twin l)) := by
  by_cases hl : l = m
  · subst hl
    rw [update_self, update_self]
    exact hnew
  · rw [update_of_ne hl, update_of_ne (fun he => hl (S.twin_injective he))]
    exact hold hl

lemma invalidate (h : S.Lockstep C D) (m : Loc P) :
    S.Lockstep (C.invalidate m) (D.invalidate (S.twin m)) where
  valid l := by
    by_cases hl : l = m
    · subst hl
      rw [Cache.get_invalidate_self, Cache.get_invalidate_self, P.isValid_invalidate,
        Q.isValid_invalidate]
    · have hne : S.twin l ≠ S.twin m := fun he => hl (S.twin_injective he)
      rw [Cache.get_invalidate C, Cache.get_invalidate D, if_neg hl, if_neg hne, h.valid]
  tag l hv := by
    by_cases hl : l = m
    · rw [hl, Cache.get_invalidate_self, P.isValid_invalidate] at hv
      cases hv
    · have hne : S.twin l ≠ S.twin m := fun he => hl (S.twin_injective he)
      rw [Cache.get_invalidate C, if_neg hl] at hv ⊢
      rw [Cache.get_invalidate D, if_neg hne]
      exact h.tag l hv
  age l := by
    simp only [Cache.invalidate, S.first.stamp_invalidate, S.second.stamp_invalidate,
      S.first.clock_invalidate, S.second.clock_invalidate]
    exact stamp_twin_update m l _ _ 0 0 (fun _ => h.age l) (.inl ⟨rfl, rfl⟩)
  unique := h.unique.invalidate _

lemma drop (h : S.Lockstep C D) {k : K} (hl : C.findEntry k = some l) :
    ∃ m, D.findEntry k = some m ∧ S.Lockstep (C.invalidate l) (D.invalidate m) :=
  ⟨S.twin l, h.findEntry_twin hl, h.invalidate l⟩

lemma replace (h : S.Lockstep C D) {k : K} (absent : D.findEntry k = none) (now : Tick)
    {f : E → E} {g : F → F} (hfv : ∀ e, P.isValid (f e) = P.isValid e)
    (hft : ∀ e, P.tag (f e) = P.tag e) (hgv : ∀ e, Q.isValid (g e) = Q.isValid e)
    (hgt : ∀ e, Q.tag (g e) = Q.tag e) :
    S.Lockstep (C.replace now k f) (D.replace now k g) := by
  have htwin := h.findVictim_twin k true
  have hne : ∀ l, l ≠ (C.findVictim k true).1 → S.twin l ≠ (D.findVictim k true).1 := by
    intro l hl he
    rw [htwin] at he
    exact hl (S.twin_injective he)
  refine ⟨?_, ?_, ?_, ?_⟩
  · intro l
    by_cases hl : l = (C.findVictim k true).1
    · rw [Cache.get_replace C, Cache.get_replace D, if_pos hl, if_pos (by rw [hl, htwin]), hfv, hgv,
        P.isValid_insert, Q.isValid_insert]
    · rw [Cache.get_replace C, Cache.get_replace D, if_neg hl, if_neg (hne l hl), h.valid]
  · intro l hv
    by_cases hl : l = (C.findVictim k true).1
    · rw [Cache.get_replace C, Cache.get_replace D, if_pos hl, if_pos (by rw [hl, htwin]), hft, hgt,
        P.tag_insert, Q.tag_insert, S.tagOf]
    · rw [Cache.get_replace C, if_neg hl] at hv ⊢
      rw [Cache.get_replace D, if_neg (hne l hl)]
      exact h.tag l hv
  · intro l
    simp only [Cache.replace, Cache.modify, Cache.set, S.first.stamp_reset, S.second.stamp_reset,
      S.first.clock_reset, S.second.clock_reset]
    rw [htwin]
    -- the victim's old stamp is overwritten, so its invalidation leaves no trace
    have hstampC : ∀ m, m ≠ (C.findVictim k true).1 →
        S.first.stamp (C.findVictim k true).2.repl m = S.first.stamp C.repl m := by
      intro m hm
      simp only [Cache.findVictim, if_true, Cache.invalidate, S.first.stamp_invalidate,
        S.first.stamp_victim]
      exact update_of_ne hm _ _
    have hstampD : ∀ m, m ≠ (D.findVictim k true).1 →
        S.second.stamp (D.findVictim k true).2.repl m = S.second.stamp D.repl m := by
      intro m hm
      simp only [Cache.findVictim, if_true, Cache.invalidate, S.second.stamp_invalidate,
        S.second.stamp_victim]
      exact update_of_ne hm _ _
    have hclockC : S.first.clock (C.findVictim k true).2.repl = S.first.clock C.repl := by
      simp only [Cache.findVictim, if_true, Cache.invalidate, S.first.clock_invalidate,
        S.first.clock_victim]
    have hclockD : S.second.clock (D.findVictim k true).2.repl = S.second.clock D.repl := by
      simp only [Cache.findVictim, if_true, Cache.invalidate, S.second.clock_invalidate,
        S.second.clock_victim]
    rw [hclockC, hclockD]
    refine stamp_twin_update _ l _ _ _ _ ?_
      (.inr ⟨Nat.succ_pos _, Nat.succ_pos _, Nat.add_comm _ _⟩)
    intro hl
    rw [hstampC l hl, hstampD _ (hne l hl)]
    exact (h.age l).tick
  · refine h.unique.of_insert (Cache.findVictim_set D k true) absent ?_ ?_
    · rw [Cache.get_replace, if_pos rfl, hgt, Q.tag_insert]
    · intro m hm hv
      rw [Cache.get_replace, if_neg hm] at hv ⊢
      exact ⟨hv, rfl⟩

lemma stamp_clear {L : Type} [DecidableEq L] {π : Policy L} (view : FifoView π) (ls : List L)
    (d : π.Data) :
    view.clock (ls.foldl (fun d l => π.invalidate l d) d) = view.clock d ∧
      ∀ l, view.stamp (ls.foldl (fun d l => π.invalidate l d) d) l =
        if l ∈ ls then 0 else view.stamp d l := by
  induction ls generalizing d with
  | nil => simp
  | cons a _ ih =>
    obtain ⟨hclock, hstamp⟩ := ih (π.invalidate a d)
    rw [foldl_cons, hclock, view.clock_invalidate]
    refine ⟨rfl, ?_⟩
    intro l
    rw [hstamp l, view.stamp_invalidate]
    by_cases hl : l = a
    · simp [hl]
    · simp [hl]

lemma mem_allEntries (l : Loc P) : l ∈ Cache.allEntries P := by
  simp [Cache.allEntries]

lemma clear (_ : S.Lockstep C D) : S.Lockstep C.clear D.clear where
  valid l := by
    rw [Cache.get_clear, Cache.get_clear, P.isValid_invalidate, Q.isValid_invalidate]
  tag l hv := by
    rw [Cache.get_clear, P.isValid_invalidate] at hv
    cases hv
  age l := by
    refine .inl ⟨?_, ?_⟩
    · rw [Cache.clear, (stamp_clear S.first _ _).2, if_pos (mem_allEntries l)]
    · rw [Cache.clear, (stamp_clear S.second _ _).2, if_pos (mem_allEntries _)]
  unique := Cache.unique_clear D

end Lockstep

end Shadow

end FifoLockstep
