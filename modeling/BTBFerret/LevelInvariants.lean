import BTBFerret.EvictingLevels

/-!
# Invariants of a hierarchy of evicting maps

Freshness, that a search from the top finds the newest value of a key, survives every transition.
The absence of redundant copies and the inclusion of the second level in the third need a condition
on the keys entering or on the victims chosen.
-/

namespace EvictingLevels

open Function Option

variable {K V : Type*} {c : Config} {m m' : Levels K V} {k : K} {x : V} {w : Victims K}

/-- A third level that is not in use stays empty. -/
def Shallow (c : Config) (m : Levels K V) : Prop := c.deep = false → ∀ j, m.l3 j = none

/-- The topmost copy of a key is its newest value. -/
def Fresh (m : Levels K V) (newest : K → Option V) : Prop :=
  ∀ j y, m.top j = some y → newest j = some y

/-- No key is in two levels. -/
structure NonRedundant (m : Levels K V) : Prop where
  below_l1 : ∀ j, m.l1 j ≠ none → m.l2 j = none ∧ m.l3 j = none
  below_l2 : ∀ j, m.l2 j ≠ none → m.l3 j = none

/-- The third level has all keys of the second. -/
def Inclusive (m : Levels K V) : Prop := ∀ j, m.l2 j ≠ none → m.l3 j ≠ none

/-! ## Cascades -/

section

variable (h : Cascade c m m' k x w)

include h

lemma Cascade.shallow (hm : Shallow c m) : Shallow c m' := by
  intro hdeep j
  have hmir : c.mirrored = false := by rw [Config.mirrored, hdeep, Bool.and_false]
  rcases h.l3_other (fun ht => by rw [hmir] at ht; cases ht)
      (fun hd => by rw [hdeep] at hd; cases hd) with heq | ⟨hnone, _⟩
  · rw [heq]
    exact hm hdeep j
  · exact hnone

lemma Cascade.fresh (hm : Shallow c m) {newest : K → Option V}
    (hother : ∀ j, j ≠ k → ∀ y, m.top j = some y → newest j = some y)
    (hk : newest k = some x) : Fresh m' newest := by
  intro j y hy
  by_cases hj : j = k
  · subst hj
    rw [Levels.top_of_l1 h.first.here] at hy
    rw [hk, hy]
  · rcases h.top_other hm hj with heq | ⟨hnone, _⟩
    · rw [heq] at hy
      exact hother j hj y hy
    · rw [hnone] at hy
      cases hy

/-- A key that is nowhere enters without creating a second copy of any key. -/
lemma Cascade.nonRedundant (hmir : c.mirrored = false)
    (hm : NonRedundant m) (h2 : m.l2 k = none) (h3 : m.l3 k = none) : NonRedundant m' := by
  have unmirrored : ∀ j, c.mirrored = true → w.v1 ≠ some j := by
    intro j ht
    rw [hmir] at ht
    cases ht
  -- what the second and third level lack stays lacking, the first victim apart
  have stays2 : ∀ j, w.v1 ≠ some j → m.l2 j = none → m'.l2 j = none := by
    intro j hv1 hj
    rcases h.l2_other hv1 with heq | ⟨hnone, _⟩
    · rw [heq, hj]
    · exact hnone
  have stays3 : ∀ j, m.l3 j = none → w.v2 ≠ some j → m'.l3 j = none := by
    intro j hj hv2
    rcases h.l3_other (unmirrored j) (fun _ => hv2) with heq | ⟨hnone, _⟩
    · rw [heq, hj]
    · exact hnone
  have absent : ∀ j, m.l2 j = none → w.v2 ≠ some j := by
    intro j hj hv2
    obtain ⟨_, _, z, hz, _⟩ := h.l2_victim hv2
    rw [hj] at hz
    cases hz
  refine ⟨?_, ?_⟩
  · intro j hj
    by_cases hk : j = k
    · subst hk
      have hv1 : w.v1 ≠ some j := fun hv1 => h.first.victim_ne hv1 rfl
      exact ⟨stays2 j hv1 h2, stays3 j h3 (absent j h2)⟩
    · by_cases hv1 : w.v1 = some j
      · obtain ⟨_, _, hnone, _⟩ := h.l1_victim hv1
        exact absurd hnone hj
      · rw [h.l1_other hk hv1] at hj
        obtain ⟨hl2, hl3⟩ := hm.below_l1 j hj
        exact ⟨stays2 j hv1 hl2, stays3 j hl3 (absent j hl2)⟩
  · intro j hj
    by_cases hv1 : w.v1 = some j
    · obtain ⟨y, hy, _⟩ := h.l1_victim hv1
      have hl1 : m.l1 j ≠ none := by
        rw [hy]
        exact some_ne_none y
      obtain ⟨hl2, hl3⟩ := hm.below_l1 j hl1
      exact stays3 j hl3 (absent j hl2)
    · rcases h.l2_other hv1 with heq | ⟨hnone, _⟩
      · rw [heq] at hj
        refine stays3 j (hm.below_l2 j hj) ?_
        intro hv2
        exact hj (heq ▸ (h.l2_victim hv2).2.1)
      · exact absurd hnone hj

lemma Cascade.v3_of_inclusive (hm : Inclusive m) : w.v3 = none := by
  obtain ⟨mid, hmid, _⟩ := h.third
  cases hload : (if c.deep then carried m.l2 w.v2 else none) with
  | none =>
    rw [hload] at hmid
    exact hmid.1
  | some bz =>
    obtain ⟨b, z⟩ := bz
    rw [hload] at hmid
    split at hload
    · have hb : m.l2 b = some z := (carried_some hload).2
      exact Put.hit hmid (hm b (by rw [hb]; exact some_ne_none z))
    · cases hload

/-- With mirroring inclusion survives if the third level gives up a key that the
second one does not have, or does not have any more. -/
lemma Cascade.inclusive (hmir : c.mirrored = true)
    (hm : Inclusive m) (hv4 : ∀ d, w.v4 = some d → m.l2 d = none ∨ w.v2 = some d) :
    Inclusive m' := by
  intro j hj
  by_cases hv1 : w.v1 = some j
  · -- the victim of the first level is written to both levels
    have first := h.first
    obtain ⟨mid, _, hmirror⟩ := h.third
    rw [hv1] at first hmirror
    obtain ⟨y, _, hload⟩ := first.carried
    rw [if_pos hmir, hload] at hmirror
    have hhere : m'.l3 j = some y := hmirror.here
    rw [hhere]
    exact some_ne_none y
  · have hv2 : w.v2 ≠ some j := fun hv2 => hj (h.l2_victim hv2).2.1
    have hl2 : m.l2 j ≠ none := by
      rcases h.l2_other hv1 with heq | ⟨hnone, _⟩
      · rw [← heq]
        exact hj
      · exact absurd hnone hj
    rcases h.l3_other (fun _ => hv1) (fun _ => hv2) with heq | ⟨_, hv3 | hlost⟩
    · rw [heq]
      exact hm j hl2
    · rw [h.v3_of_inclusive hm] at hv3
      cases hv3
    · rcases hv4 j hlost with hnone | hdisplaced
      · exact absurd hnone hl2
      · exact absurd hdisplaced hv2

end

/-! ## Transitions -/

variable [DecidableEq K] {A : Event K V → Levels K V → Victims K → Prop} {e : Event K V}

def Event.newest (n : K → Option V) : Event K V → K → Option V
  | .update k x => Function.update n k (some x)
  | _ => n

lemma Levels.top_release2 (c : Config) (m : Levels K V) {k j : K} (h : j ≠ k) :
    (m.release2 c k).top j = m.top j := by
  obtain ⟨h1, h2, h3⟩ := m.release2_other c h
  simp only [top, h1, h2, h3]

lemma Levels.top_release3 (c : Config) (m : Levels K V) {k j : K} (h : j ≠ k) :
    (m.release3 c k).top j = m.top j := by
  obtain ⟨h1, h2, h3⟩ := m.release3_other c h
  simp only [top, h1, h2, h3]

lemma Shallow.release2 (hm : Shallow c m) (k : K) : Shallow c (m.release2 c k) := by
  intro hdeep j
  unfold Levels.release2
  split
  · exact hm hdeep j
  · exact hm hdeep j

lemma Shallow.release3 (hm : Shallow c m) (k : K) : Shallow c (m.release3 c k) := by
  intro hdeep j
  unfold Levels.release3
  split
  · exact hm hdeep j
  · by_cases hj : j = k
    · rw [hj]
      exact update_self _ _ _
    · exact (update_of_ne hj _ _).trans (hm hdeep j)

lemma Step.shallow (h : Step c A m e m') (hm : Shallow c m) : Shallow c m' := by
  cases h with
  | same | overwrite => exact hm
  | allocate _ _ cascade | promote _ _ cascade => exact cascade.shallow hm
  | migrate2 _ _ _ cascade => exact cascade.shallow (hm.release2 _)
  | migrate3 _ _ _ _ cascade => exact cascade.shallow (hm.release3 _)
  | clear => exact fun _ _ => rfl

/-- Freshness survives every transition, provided that a value promoted from the
buffer is the newest one. -/
lemma Step.fresh (h : Step c A m e m') (hm : Shallow c m) {newest : K → Option V}
    (hf : Fresh m newest) (hpromote : ∀ k x, e = .promote k x → newest k = some x) :
    Fresh m' (e.newest newest) := by
  cases h with
  | same => exact hf
  | @overwrite k x hit =>
    intro j y hy
    by_cases hj : j = k
    · subst hj
      have hnew : (update m.l1 j (some x)) j = some x := update_self _ _ _
      rw [Levels.top_of_l1 hnew] at hy
      rw [Event.newest, update_self, hy]
    · rw [Event.newest, update_of_ne hj]
      refine hf j y ?_
      rw [← hy]
      simp only [Levels.top, update_of_ne hj]
  | @allocate _ k x w _ _ cascade =>
    refine cascade.fresh hm ?_ (update_self _ _ _)
    intro j hj y hy
    rw [Event.newest, update_of_ne hj]
    exact hf j y hy
  | @promote _ k x _ _ _ cascade =>
    exact cascade.fresh hm (fun j _ y hy => hf j y hy) (hpromote k x rfl)
  | @migrate2 _ k x _ miss found _ cascade =>
    refine cascade.fresh (hm.release2 k) ?_ (hf k x ?_)
    · intro j hj y hy
      rw [Levels.top_release2 c m hj] at hy
      exact hf j y hy
    · rw [Levels.top_of_l2 miss, found, some_or]
  | @migrate3 _ k x _ miss miss2 found _ cascade =>
    refine cascade.fresh (hm.release3 k) ?_ (hf k x ?_)
    · intro j hj y hy
      rw [Levels.top_release3 c m hj] at hy
      exact hf j y hy
    · rw [Levels.top_of_l3 miss miss2, found]
  | clear =>
    intro j y hy
    cases hy

def Event.EntersAlone (m : Levels K V) : Event K V → Prop
  | .update k _ => m.l2 k = none ∧ m.l3 k = none
  | .promote k _ => m.l2 k = none ∧ m.l3 k = none
  | _ => True

lemma NonRedundant.overwrite (hm : NonRedundant m) {k : K} {x : V} (hit : m.l1 k ≠ none) :
    NonRedundant { m with l1 := update m.l1 k (some x) } := by
  refine ⟨?_, hm.below_l2⟩
  intro j hj
  by_cases hk : j = k
  · rw [hk]
    exact hm.below_l1 k hit
  · refine hm.below_l1 j ?_
    rw [← update_of_ne hk (some x) m.l1]
    exact hj

lemma NonRedundant.release2 (hm : NonRedundant m) (hkeeps : c.keeps = false) {k : K}
    (found : m.l2 k ≠ none) : NonRedundant (m.release2 c k) ∧
      (m.release2 c k).l2 k = none ∧ (m.release2 c k).l3 k = none := by
  unfold Levels.release2
  rw [hkeeps]
  refine ⟨⟨?_, ?_⟩, update_self _ _ _, hm.below_l2 k found⟩
  · intro j hj
    obtain ⟨h2, h3⟩ := hm.below_l1 j hj
    refine ⟨?_, h3⟩
    by_cases hk : j = k
    · rw [hk]
      exact update_self _ _ _
    · exact (update_of_ne hk _ _).trans h2
  · intro j hj
    by_cases hk : j = k
    · rw [hk] at hj
      exact absurd (update_self _ _ _) hj
    · refine hm.below_l2 j ?_
      rw [← update_of_ne hk none m.l2]
      exact hj

lemma NonRedundant.release3 (hm : NonRedundant m) (hkeeps : c.keeps = false) {k : K}
    (miss : m.l2 k = none) : NonRedundant (m.release3 c k) ∧
      (m.release3 c k).l2 k = none ∧ (m.release3 c k).l3 k = none := by
  unfold Levels.release3
  rw [hkeeps]
  have gone : ∀ j, m.l3 j = none → update m.l3 k none j = none := by
    intro j hj
    by_cases hk : j = k
    · rw [hk]
      exact update_self _ _ _
    · exact (update_of_ne hk _ _).trans hj
  refine ⟨⟨?_, ?_⟩, miss, update_self _ _ _⟩
  · intro j hj
    obtain ⟨h2, h3⟩ := hm.below_l1 j hj
    exact ⟨h2, gone j h3⟩
  · intro j hj
    exact gone j (hm.below_l2 j hj)

lemma Step.nonRedundant (h : Step c A m e m') (hkeeps : c.keeps = false)
    (hA : ∀ e m w, A e m w → e.EntersAlone m) (hm : NonRedundant m) : NonRedundant m' := by
  have hmir : c.mirrored = false := by rw [Config.mirrored, hkeeps, Bool.false_and]
  cases h with
  | same => exact hm
  | overwrite hit => exact hm.overwrite hit
  | allocate _ allowed cascade | promote _ allowed cascade =>
    obtain ⟨h2, h3⟩ := hA _ _ _ allowed
    exact cascade.nonRedundant hmir hm h2 h3
  | migrate2 _ found _ cascade =>
    obtain ⟨hr, h2, h3⟩ := hm.release2 hkeeps (by rw [found]; exact some_ne_none _)
    exact cascade.nonRedundant hmir hr h2 h3
  | migrate3 _ miss2 _ _ cascade =>
    obtain ⟨hr, h2, h3⟩ := hm.release3 hkeeps miss2
    exact cascade.nonRedundant hmir hr h2 h3
  | clear => exact ⟨fun _ _ => ⟨rfl, rfl⟩, fun _ _ => rfl⟩

/-- The third level gives up only keys that the second one lacks or displaces. -/
def SparesL2 (m : Levels K V) (w : Victims K) : Prop :=
  ∀ d, w.v4 = some d → m.l2 d = none ∨ w.v2 = some d

lemma Step.inclusive (h : Step c A m e m') (hmir : c.mirrored = true)
    (hA : ∀ e m w, A e m w → SparesL2 m w) (hm : Inclusive m) : Inclusive m' := by
  have hkeeps : c.keeps = true := by
    rw [Config.mirrored, Bool.and_eq_true] at hmir
    exact hmir.1
  cases h with
  | same | overwrite => exact hm
  | allocate _ allowed cascade | promote _ allowed cascade =>
    exact cascade.inclusive hmir hm (hA _ _ _ allowed)
  | migrate2 _ _ allowed cascade =>
    rw [Levels.release2, if_pos hkeeps] at allowed cascade
    exact cascade.inclusive hmir hm (hA _ _ _ allowed)
  | migrate3 _ _ _ allowed cascade =>
    rw [Levels.release3, if_pos hkeeps] at allowed cascade
    exact cascade.inclusive hmir hm (hA _ _ _ allowed)
  | clear =>
    intro j hj
    exact absurd rfl hj

/-! ## What a transition keeps -/

/-- The first level loses keys to the second only, the first two of a deep hierarchy without
mirroring lose none, and few keys are lost altogether. -/
structure Kept (c : Config) (m m' : Levels K V) : Prop where
  l1 : ∀ j, m.l1 j ≠ none → m'.l1 j ≠ none ∨ m'.l2 j ≠ none
  upper : c.deep = true → c.mirrored = false → ∀ j, m.l1 j ≠ none ∨ m.l2 j ≠ none →
    m'.l1 j ≠ none ∨ m'.l2 j ≠ none ∨ m'.l3 j ≠ none
  lost : ∃ lost : List K, lost.length ≤ (if c.mirrored then 2 else 1) ∧
    ∀ j, m.top j ≠ none → m'.top j ≠ none ∨ j ∈ lost

omit [DecidableEq K] in
/-- A cascade from a state that differs from `m` at the entering key only. -/
lemma Cascade.kept {m₀ : Levels K V} (h : Cascade c m₀ m' k x w) (hm : Shallow c m₀)
    (hsame : ∀ j, j ≠ k → m₀.l1 j = m.l1 j ∧ m₀.l2 j = m.l2 j ∧ m₀.l3 j = m.l3 j) :
    Kept c m m' := by
  have hhere : m'.l1 k ≠ none := by
    rw [h.first.here]
    exact some_ne_none x
  refine ⟨?_, ?_, w.lost c, h.lost_length, ?_⟩
  · intro j hj
    by_cases hk : j = k
    · exact .inl (hk ▸ hhere)
    · rw [← (hsame j hk).1] at hj
      exact h.l1_kept hj
  · intro hdeep hmir j hj
    by_cases hk : j = k
    · exact .inl (hk ▸ hhere)
    · rw [← (hsame j hk).1, ← (hsame j hk).2.1] at hj
      exact h.upper_kept hdeep hmir hj
  · intro j hj
    by_cases hk : j = k
    · exact .inl (Levels.top_ne_none.mpr (.inl (hk ▸ hhere)))
    · obtain ⟨h1, h2, h3⟩ := hsame j hk
      have htop : m₀.top j = m.top j := by simp only [Levels.top, h1, h2, h3]
      rcases h.top_other hm hk with heq | ⟨_, hmem⟩
      · rw [heq, htop]
        exact .inl hj
      · exact .inr hmem

omit [DecidableEq K] in
lemma Kept.refl (c : Config) (m : Levels K V) : Kept c m m :=
  ⟨fun _ h => .inl h, fun _ _ _ h => h.imp id .inl, [], Nat.zero_le _, fun _ h => .inl h⟩

lemma Kept.overwrite (c : Config) (m : Levels K V) (k : K) (x : V) :
    Kept c m { m with l1 := update m.l1 k (some x) } := by
  have hl1 : ∀ j, m.l1 j ≠ none → update m.l1 k (some x) j ≠ none := by
    intro j hj
    by_cases hk : j = k
    · rw [hk, update_self]
      exact some_ne_none x
    · rw [update_of_ne hk]
      exact hj
  refine ⟨fun j hj => .inl (hl1 j hj), ?_, [], Nat.zero_le _, ?_⟩
  · intro _ _ j hj
    exact hj.imp (hl1 j) .inl
  · intro j hj
    exact .inl (Levels.top_ne_none.mpr ((Levels.top_ne_none.mp hj).imp (hl1 j) id))

/-- Every transition but clearing keeps what it can, and the key it is about is
in the first level afterwards. -/
lemma Step.kept (h : Step c A m e m') (hm : Shallow c m) (hclear : e ≠ .clear) :
    Kept c m m' ∧ ∀ k x, e = .update k x ∨ e = .promote k x ∨ e = .migrate k x →
      m'.l1 k ≠ none := by
  have here : ∀ {m₀ : Levels K V} {k : K} {x : V} {w : Victims K}, Cascade c m₀ m' k x w →
      m'.l1 k ≠ none := by
    intro m₀ k x w hc
    rw [hc.first.here]
    exact some_ne_none x
  cases h with
  | same => exact ⟨Kept.refl c m, by rintro k x (h | h | h) <;> cases h⟩
  | @overwrite k x hit =>
    refine ⟨Kept.overwrite c m k x, ?_⟩
    rintro k' x' (h | h | h) <;> cases h
    simp
  | allocate _ _ cascade | promote _ _ cascade =>
    refine ⟨cascade.kept hm (fun _ _ => ⟨rfl, rfl, rfl⟩), ?_⟩
    rintro k' x' (h | h | h) <;> cases h
    exact here cascade
  | migrate2 _ _ _ cascade =>
    refine ⟨cascade.kept (hm.release2 _) (fun _ hj => m.release2_other c hj), ?_⟩
    rintro k' x' (h | h | h) <;> cases h
    exact here cascade
  | migrate3 _ _ _ _ cascade =>
    refine ⟨cascade.kept (hm.release3 _) (fun _ hj => m.release3_other c hj), ?_⟩
    rintro k' x' (h | h | h) <;> cases h
    exact here cascade
  | clear => exact absurd rfl hclear

end EvictingLevels
