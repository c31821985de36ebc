import Mathlib.Logic.Function.Basic
import Mathlib.Tactic.Tauto

/-!
# Three levels of evicting maps

A level is a partial map that may lose a key whenever another one is put into it. A key that enters
the first level pushes a victim to the second one, whose victim goes to the third. The module
describes this cascade by the victims chosen and derives what every such hierarchy guarantees.
-/

namespace EvictingLevels

open Function Option

variable {K V : Type*}

/-- The map `m'` is `m` with `x` put under `k`, at the cost of a victim. -/
structure Put (m : K → Option V) (k : K) (x : V) (victim : Option K) (m' : K → Option V) :
    Prop where
  here : m' k = some x
  kept : ∀ j, j ≠ k → victim ≠ some j → m' j = m j
  dropped : ∀ j, victim = some j → m' j = none
  held : ∀ j, victim = some j → m j ≠ none
  hit : m k ≠ none → victim = none

variable {m m' : K → Option V} {k j : K} {x : V} {victim : Option K}

lemma Put.victim_ne (h : Put m k x victim m') (hj : victim = some j) : j ≠ k := by
  rintro rfl
  have hnone := h.dropped j hj
  rw [h.here] at hnone
  cases hnone

lemma Put.other (h : Put m k x victim m') (hj : j ≠ k) :
    m' j = m j ∨ (m' j = none ∧ victim = some j) := by
  by_cases hv : victim = some j
  · exact .inr ⟨h.dropped j hv, hv⟩
  · exact .inl (h.kept j hj hv)

/-- Putting a key with its value, if there is one to put. -/
def Carry (m : K → Option V) (load : Option (K × V)) (victim : Option K) (m' : K → Option V) :
    Prop :=
  match load with
  | some (k, x) => Put m k x victim m'
  | none => victim = none ∧ m' = m

/-- A victim together with the value it had. -/
def carried (m : K → Option V) (victim : Option K) : Option (K × V) :=
  victim.bind (fun a => (m a).map (Prod.mk a))

lemma carried_some {a : K} {y : V} (h : carried m victim = some (a, y)) :
    victim = some a ∧ m a = some y := by
  cases victim with
  | none => cases h
  | some =>
    obtain ⟨z, hz, he⟩ := map_eq_some_iff.mp h
    cases he
    exact ⟨rfl, hz⟩

lemma Put.carried {a : K} (h : Put m k x (some a) m') :
    ∃ y, m a = some y ∧ carried m (some a) = some (a, y) := by
  obtain ⟨y, hy⟩ := ne_none_iff_exists'.mp (h.held a rfl)
  refine ⟨y, hy, ?_⟩
  simp only [EvictingLevels.carried, bind_some, hy, map_some]

lemma Carry.other {load : Option (K × V)} (h : Carry m load victim m')
    (hj : ∀ x, load ≠ some (j, x)) : m' j = m j ∨ (m' j = none ∧ victim = some j) := by
  cases load with
  | none =>
    obtain ⟨_, rfl⟩ := h
    exact .inl rfl
  | some kx =>
    obtain ⟨k, x⟩ := kx
    refine Put.other h ?_
    rintro rfl
    exact hj x rfl

/-! ## Cascades -/

structure Levels (K V : Type*) where
  l1 : K → Option V
  l2 : K → Option V
  l3 : K → Option V

/-- What a cascade throws out: of the first level, of the second, and of the
third for the second level's victim and for the mirrored one. -/
structure Victims (K : Type*) where
  v1 : Option K
  v2 : Option K
  v3 : Option K
  v4 : Option K

/-- `deep` says that victims of the second level go to the third, `keeps` that a
copy to the first level leaves the original in place. -/
structure Config where
  deep : Bool
  keeps : Bool

/-- A deep hierarchy that keeps originals writes victims of the first level to
both levels below. -/
def Config.mirrored (c : Config) : Bool := c.keeps && c.deep

/-- The value `x` enters the first level under `k`. -/
structure Cascade (c : Config) (m m' : Levels K V) (k : K) (x : V) (w : Victims K) : Prop where
  first : Put m.l1 k x w.v1 m'.l1
  second : Carry m.l2 (carried m.l1 w.v1) w.v2 m'.l2
  third : ∃ mid, Carry m.l3 (if c.deep then carried m.l2 w.v2 else none) w.v3 mid ∧
    Carry mid (if c.mirrored then carried m.l1 w.v1 else none) w.v4 m'.l3

namespace Levels

/-- The copy that a search from the top finds. -/
def top (m : Levels K V) (k : K) : Option V := (m.l1 k).or ((m.l2 k).or (m.l3 k))

variable {m : Levels K V}

lemma top_of_l1 (h : m.l1 k = some x) : m.top k = some x := by
  simp only [top, h, some_or]

lemma top_of_l2 (h : m.l1 k = none) : m.top k = (m.l2 k).or (m.l3 k) := by
  simp only [top, h, none_or]

lemma top_ne_none : m.top k ≠ none ↔ m.l1 k ≠ none ∨ m.l2 k ≠ none ∨ m.l3 k ≠ none := by
  simp only [top, ne_eq, or_eq_none_iff]
  tauto

lemma top_of_l3 (h1 : m.l1 k = none) (h2 : m.l2 k = none) : m.top k = m.l3 k := by
  simp only [top, h1, h2, none_or]

end Levels

/-- The keys that a cascade may remove from all levels. -/
def Victims.lost (w : Victims K) (c : Config) : List K :=
  (if c.deep then w.v3.toList else w.v2.toList) ++ w.v4.toList

namespace Cascade

variable {c : Config} {m m' : Levels K V} {k j : K} {x : V} {w : Victims K}

section

variable (h : Cascade c m m' k x w)

include h

lemma l1_victim (hj : w.v1 = some j) :
    ∃ y, m.l1 j = some y ∧ m'.l1 j = none ∧ m'.l2 j = some y := by
  have first := h.first
  have second := h.second
  rw [hj] at first second
  obtain ⟨y, hy, hload⟩ := first.carried
  rw [hload] at second
  exact ⟨y, hy, first.dropped j rfl, second.here⟩

lemma l1_other (hk : j ≠ k) (hj : w.v1 ≠ some j) : m'.l1 j = m.l1 j :=
  h.first.kept j hk hj

lemma l2_other (hj : w.v1 ≠ some j) : m'.l2 j = m.l2 j ∨ (m'.l2 j = none ∧ w.v2 = some j) :=
  h.second.other (fun _ hload => hj (carried_some hload).1)

lemma l2_victim (hj : w.v2 = some j) :
    w.v1 ≠ some j ∧ m'.l2 j = none ∧ ∃ z, m.l2 j = some z ∧ carried m.l2 w.v2 = some (j, z) := by
  have second := h.second
  cases hload : carried m.l1 w.v1 with
  | none =>
    rw [hload] at second
    have hnone := second.1
    rw [hj] at hnone
    cases hnone
  | some ay =>
    obtain ⟨a, y⟩ := ay
    rw [hload, hj] at second
    obtain ⟨z, hz, hcarried⟩ := Put.carried second
    refine ⟨?_, second.dropped j rfl, z, hz, ?_⟩
    · rw [(carried_some hload).1]
      intro he
      exact second.victim_ne rfl (some.inj he).symm
    · rw [hj]
      exact hcarried

end

/-- The mirrored write changes the third level at its own key and its victim. -/
lemma mirror_other {mid : K → Option V}
    (h : Carry mid (if c.mirrored then carried m.l1 w.v1 else none) w.v4 m'.l3)
    (hj : c.mirrored = true → w.v1 ≠ some j) :
    m'.l3 j = mid j ∨ (m'.l3 j = none ∧ w.v4 = some j) := by
  refine h.other ?_
  intro y hload
  split at hload
  · rename_i hmir
    exact hj hmir (carried_some hload).1
  · cases hload

section

variable (h : Cascade c m m' k x w)

include h

lemma l3_of_l2_victim (hdeep : c.deep = true)
    (hj : w.v2 = some j) : m'.l3 j = m.l2 j ∨ (m'.l3 j = none ∧ w.v4 = some j) := by
  obtain ⟨hne, _, z, hz, hload⟩ := h.l2_victim hj
  obtain ⟨mid, hmid, hmirror⟩ := h.third
  rw [if_pos hdeep, hload] at hmid
  have hhere : mid j = some z := hmid.here
  rcases mirror_other hmirror (fun _ => hne) with heq | hlost
  · left
    rw [heq, hhere, hz]
  · exact .inr hlost

lemma l3_other (hj : c.mirrored = true → w.v1 ≠ some j)
    (hj2 : c.deep = true → w.v2 ≠ some j) :
    m'.l3 j = m.l3 j ∨ (m'.l3 j = none ∧ (w.v3 = some j ∨ w.v4 = some j)) := by
  obtain ⟨mid, hmid, hmirror⟩ := h.third
  have hmid' : mid j = m.l3 j ∨ (mid j = none ∧ w.v3 = some j) := by
    refine hmid.other ?_
    intro z hload
    split at hload
    · rename_i hdeep
      exact hj2 hdeep (carried_some hload).1
    · cases hload
  rcases mirror_other hmirror hj with heq | ⟨hnone, hv4⟩
  · rcases hmid' with hm | ⟨hm, hv3⟩
    · exact .inl (heq.trans hm)
    · exact .inr ⟨heq.trans hm, .inl hv3⟩
  · exact .inr ⟨hnone, .inr hv4⟩

lemma v3_of_shallow (hdeep : c.deep = false) : w.v3 = none := by
  obtain ⟨mid, hmid, _⟩ := h.third
  rw [hdeep] at hmid
  exact hmid.1

lemma v4_of_unmirrored (hmir : c.mirrored = false) : w.v4 = none := by
  obtain ⟨mid, _, hmirror⟩ := h.third
  rw [hmir] at hmirror
  exact hmirror.1

end

/-! ### What survives a cascade -/

lemma mem_lost : j ∈ w.lost c ↔
    (c.deep = true ∧ w.v3 = some j) ∨ (c.deep = false ∧ w.v2 = some j) ∨ w.v4 = some j := by
  unfold Victims.lost
  cases c.deep with
  | true | false => simp [mem_toList]

section

variable (h : Cascade c m m' k x w)

include h

lemma lost_length : (w.lost c).length ≤ if c.mirrored then 2 else 1 := by
  have hone : ∀ o : Option K, o.toList.length ≤ 1 := by
    intro o
    cases o with
    | none => exact Nat.zero_le 1
    | some => exact Nat.le_refl 1
  have hfirst : (if c.deep then w.v3.toList else w.v2.toList).length ≤ 1 := by
    split
    · exact hone w.v3
    · exact hone w.v2
  unfold Victims.lost
  rw [List.length_append]
  cases hmir : c.mirrored with
  | false =>
    rw [h.v4_of_unmirrored hmir]
    simpa using hfirst
  | true =>
    have hfour := hone w.v4
    simp only [if_true]
    omega

/-- A key other than the one entering keeps the copy found from the top, or it
is lost altogether. A level that is never written must be empty. -/
lemma top_other (shallow : c.deep = false → ∀ i, m.l3 i = none)
    (hk : j ≠ k) : m'.top j = m.top j ∨ (m'.top j = none ∧ j ∈ w.lost c) := by
  by_cases hv1 : w.v1 = some j
  · obtain ⟨y, hy, h1, h2⟩ := h.l1_victim hv1
    left
    rw [Levels.top_of_l2 h1, h2, some_or, Levels.top_of_l1 hy]
  · have hl1 := h.l1_other hk hv1
    cases h1 : m.l1 j with
    | some =>
      left
      rw [h1] at hl1
      rw [Levels.top_of_l1 hl1, Levels.top_of_l1 h1]
    | none =>
      rw [h1] at hl1
      by_cases hv2 : w.v2 = some j
      · -- the second level lets the key go
        obtain ⟨_, hl2, z, hz, _⟩ := h.l2_victim hv2
        rw [Levels.top_of_l3 hl1 hl2, Levels.top_of_l2 h1, hz, some_or, ← hz]
        cases hdeep : c.deep with
        | true =>
          rcases h.l3_of_l2_victim hdeep hv2 with heq | ⟨hnone, hv4⟩
          · exact .inl heq
          · exact .inr ⟨hnone, mem_lost.mpr (.inr (.inr hv4))⟩
        | false =>
          right
          refine ⟨?_, mem_lost.mpr (.inr (.inl ⟨hdeep, hv2⟩))⟩
          rcases h.l3_other (fun _ => hv1)
            (fun hd => by rw [hdeep] at hd; cases hd) with heq | ⟨hnone, _⟩
          · rw [heq, shallow hdeep]
          · exact hnone
      · have hl2 : m'.l2 j = m.l2 j := by
          rcases h.l2_other hv1 with heq | ⟨_, hlost⟩
          · exact heq
          · exact absurd hlost hv2
        rw [Levels.top_of_l2 hl1, Levels.top_of_l2 h1, hl2]
        cases h2 : m.l2 j with
        | some =>
          left
          rw [some_or, some_or]
        | none =>
          rw [none_or, none_or]
          rcases h.l3_other (fun _ => hv1) (fun _ => hv2) with heq | ⟨hnone, hv3 | hv4⟩
          · exact .inl heq
          · refine .inr ⟨hnone, mem_lost.mpr (.inl ⟨?_, hv3⟩)⟩
            by_contra hshallow
            rw [h.v3_of_shallow (Bool.eq_false_iff.mpr hshallow)] at hv3
            cases hv3
          · exact .inr ⟨hnone, mem_lost.mpr (.inr (.inr hv4))⟩

lemma l1_kept (hj : m.l1 j ≠ none) : m'.l1 j ≠ none ∨ m'.l2 j ≠ none := by
  by_cases hk : j = k
  · left
    rw [hk, h.first.here]
    exact some_ne_none x
  · by_cases hv1 : w.v1 = some j
    · obtain ⟨y, _, _, h2⟩ := h.l1_victim hv1
      right
      rw [h2]
      exact some_ne_none y
    · left
      rw [h.l1_other hk hv1]
      exact hj

lemma upper_kept (hdeep : c.deep = true) (hmir : c.mirrored = false)
    (hj : m.l1 j ≠ none ∨ m.l2 j ≠ none) : m'.l1 j ≠ none ∨ m'.l2 j ≠ none ∨ m'.l3 j ≠ none := by
  by_cases h1 : m.l1 j = none
  · have h2 : m.l2 j ≠ none := hj.resolve_left (fun hne => hne h1)
    by_cases hk : j = k
    · left
      rw [hk, h.first.here]
      exact some_ne_none x
    · by_cases hv2 : w.v2 = some j
      · right; right
        rcases h.l3_of_l2_victim hdeep hv2 with heq | ⟨_, hv4⟩
        · rw [heq]
          exact h2
        · rw [h.v4_of_unmirrored hmir] at hv4
          cases hv4
      · right; left
        have hv1 : w.v1 ≠ some j := fun hv1 => h.first.held j hv1 h1
        rcases h.l2_other hv1 with heq | ⟨_, hlost⟩
        · rw [heq]
          exact h2
        · exact absurd hlost hv2
  · rcases h.l1_kept h1 with hl1 | hl2
    · exact .inl hl1
    · exact .inr (.inl hl2)

end

end Cascade

/-! ## Transitions -/

lemma Put.eq_update [DecidableEq K] (h : Put m k x victim m') (hnone : victim = none) :
    m' = update m k (some x) := by
  funext j
  by_cases hj : j = k
  · rw [hj, update_self, h.here]
  · rw [update_of_ne hj]
    exact h.kept j hj (by rw [hnone]; exact nofun)

inductive Event (K V : Type*) where
  | idle
  | update (k : K) (x : V)
  | promote (k : K) (x : V)
  | migrate (k : K) (x : V)
  | clear

variable [DecidableEq K]

/-- The second level before a copy of `k` goes up. -/
def Levels.release2 (c : Config) (m : Levels K V) (k : K) : Levels K V :=
  if c.keeps then m else { m with l2 := update m.l2 k none }

/-- The third level before a copy of `k` goes up. -/
def Levels.release3 (c : Config) (m : Levels K V) (k : K) : Levels K V :=
  if c.keeps then m else { m with l3 := update m.l3 k none }

/-- A value enters the first level from outside, from a buffer beside the levels or from a level
below. `A` restricts the cascades. -/
inductive Step (c : Config) (A : Event K V → Levels K V → Victims K → Prop) (m : Levels K V) :
    Event K V → Levels K V → Prop
  | same : Step c A m .idle m
  | overwrite {k : K} {x : V} (hit : m.l1 k ≠ none) :
      Step c A m (.update k x) { m with l1 := update m.l1 k (some x) }
  | allocate {m' : Levels K V} {k : K} {x : V} {w : Victims K} (miss : m.l1 k = none)
      (allowed : A (.update k x) m w) (cascade : Cascade c m m' k x w) :
      Step c A m (.update k x) m'
  | promote {m' : Levels K V} {k : K} {x : V} {w : Victims K} (miss : m.l1 k = none)
      (allowed : A (.promote k x) m w) (cascade : Cascade c m m' k x w) :
      Step c A m (.promote k x) m'
  | migrate2 {m' : Levels K V} {k : K} {x : V} {w : Victims K} (miss : m.l1 k = none)
      (found : m.l2 k = some x) (allowed : A (.migrate k x) (m.release2 c k) w)
      (cascade : Cascade c (m.release2 c k) m' k x w) : Step c A m (.migrate k x) m'
  | migrate3 {m' : Levels K V} {k : K} {x : V} {w : Victims K} (miss : m.l1 k = none)
      (miss2 : m.l2 k = none) (found : m.l3 k = some x)
      (allowed : A (.migrate k x) (m.release3 c k) w)
      (cascade : Cascade c (m.release3 c k) m' k x w) : Step c A m (.migrate k x) m'
  | clear : Step c A m .clear ⟨fun _ => none, fun _ => none, fun _ => none⟩

lemma Levels.release2_other (c : Config) (m : Levels K V) (h : j ≠ k) :
    (m.release2 c k).l1 j = m.l1 j ∧ (m.release2 c k).l2 j = m.l2 j ∧
      (m.release2 c k).l3 j = m.l3 j := by
  unfold release2
  split
  · exact ⟨rfl, rfl, rfl⟩
  · exact ⟨rfl, update_of_ne h _ _, rfl⟩

lemma Levels.release3_other (c : Config) (m : Levels K V) (h : j ≠ k) :
    (m.release3 c k).l1 j = m.l1 j ∧ (m.release3 c k).l2 j = m.l2 j ∧
      (m.release3 c k).l3 j = m.l3 j := by
  unfold release3
  split
  · exact ⟨rfl, rfl, rfl⟩
  · exact ⟨rfl, rfl, update_of_ne h _ _⟩

end EvictingLevels
