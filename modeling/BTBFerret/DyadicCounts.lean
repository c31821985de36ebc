import Mathlib.Algebra.Order.BigOperators.Group.Finset
import Mathlib.Data.Finset.Card
import Mathlib.Tactic

/-!
# Counting in blocks of a power of two

The numbers are cut into blocks of `2 ^ l`, at every `l`; a block is the disjoint union of two of
the layer below. The numbers above `i` within its block are counted by walking from `i` to the top
and adding the right neighbour wherever the walk comes from the left.
-/

namespace DyadicCounts

open Finset

/-- The number of members in the block `k` of layer `l`. -/
def count (live : Finset ℕ) (l k : ℕ) : ℕ := {i ∈ live | i / 2 ^ l = k}.card

/-- The members that share the block of `i` at layer `l` and are greater than `i`. -/
def above (live : Finset ℕ) (l i : ℕ) : Finset ℕ := {j ∈ live | j / 2 ^ l = i / 2 ^ l ∧ i < j}

variable {live other : Finset ℕ}

lemma div_two_pow_succ (i l : ℕ) : i / 2 ^ (l + 1) = i / 2 ^ l / 2 := by
  rw [pow_succ, Nat.div_div_eq_div_mul]

variable {i : ℕ}

lemma count_zero_of_mem (h : i ∈ live) : count live 0 i = 1 := by
  rw [count, card_eq_one]
  refine ⟨i, ?_⟩
  ext j
  simp only [pow_zero, Nat.div_one, mem_filter, mem_singleton]
  exact ⟨And.right, fun hj => ⟨hj ▸ h, hj⟩⟩

lemma count_zero_of_notMem (h : i ∉ live) : count live 0 i = 0 := by
  rw [count, card_eq_zero, filter_eq_empty_iff]
  intro j hj heq
  rw [pow_zero, Nat.div_one] at heq
  exact h (heq ▸ hj)

lemma count_succ (live : Finset ℕ) (l k : ℕ) :
    count live (l + 1) k = count live l (2 * k) + count live l (2 * k + 1) := by
  have hdisjoint : Disjoint {i ∈ live | i / 2 ^ l = 2 * k} {i ∈ live | i / 2 ^ l = 2 * k + 1} := by
    rw [disjoint_filter]
    intro i _ hleft hright
    omega
  rw [count, count, count, ← card_union_of_disjoint hdisjoint, ← filter_or]
  congr 1
  refine filter_congr ?_
  intro i _
  rw [div_two_pow_succ]
  omega

lemma count_le (live : Finset ℕ) (l k : ℕ) : count live l k ≤ 2 ^ l := by
  induction l generalizing k with
  | zero =>
    by_cases hk : k ∈ live
    · rw [count_zero_of_mem hk, pow_zero]
    · rw [count_zero_of_notMem hk, pow_zero]
      exact Nat.zero_le 1
  | succ _ ih =>
    rw [count_succ, pow_succ]
    have hleft := ih (2 * k)
    have hright := ih (2 * k + 1)
    omega

variable {l : ℕ}

lemma count_congr {k : ℕ} (h : ∀ i, i / 2 ^ l = k → (i ∈ live ↔ i ∈ other)) :
    count live l k = count other l k := by
  unfold count
  congr 1
  ext i
  simp only [mem_filter]
  constructor
  · rintro ⟨hi, hk⟩
    exact ⟨(h i hk).mp hi, hk⟩
  · rintro ⟨hi, hk⟩
    exact ⟨(h i hk).mpr hi, hk⟩

lemma count_mono (h : live ⊆ other) (l k : ℕ) : count live l k ≤ count other l k :=
  card_le_card (filter_subset_filter _ h)

lemma count_pos (h : i ∈ live) (l : ℕ) : 0 < count live l (i / 2 ^ l) :=
  card_pos.mpr ⟨i, mem_filter.mpr ⟨h, rfl⟩⟩

lemma count_eq_zero_of_lt {n k : ℕ} (hlive : ∀ i ∈ live, i < n) (hk : n ≤ k * 2 ^ l) :
    count live l k = 0 := by
  rw [count, card_eq_zero, filter_eq_empty_iff]
  rintro i hi rfl
  have hlt := hlive i hi
  have hle := Nat.div_mul_le_self i (2 ^ l)
  omega

lemma above_zero (live : Finset ℕ) (i : ℕ) : above live 0 i = ∅ := by
  rw [above, filter_eq_empty_iff]
  rintro j _ ⟨heq, hlt⟩
  rw [pow_zero, Nat.div_one, Nat.div_one] at heq
  omega

lemma card_above_succ_left (h : i / 2 ^ l % 2 = 0) :
    (above live (l + 1) i).card = (above live l i).card + count live l (i / 2 ^ l + 1) := by
  have hdisjoint : Disjoint (above live l i) {j ∈ live | j / 2 ^ l = i / 2 ^ l + 1} := by
    unfold above
    rw [disjoint_filter]
    rintro j _ ⟨hsame, _⟩ hnext
    omega
  rw [count, ← card_union_of_disjoint hdisjoint]
  congr 1
  unfold above
  rw [← filter_or]
  refine filter_congr ?_
  intro j _
  rw [div_two_pow_succ, div_two_pow_succ]
  have hmono : i < j ∨ j / 2 ^ l ≤ i / 2 ^ l := by
    rcases Nat.lt_or_ge i j with hlt | hge
    · exact .inl hlt
    · exact .inr (Nat.div_le_div_right hge)
  omega

lemma card_above_succ_right (h : i / 2 ^ l % 2 ≠ 0) :
    (above live (l + 1) i).card = (above live l i).card := by
  congr 1
  unfold above
  refine filter_congr ?_
  intro j _
  rw [div_two_pow_succ, div_two_pow_succ]
  have hmono : i < j → i / 2 ^ l ≤ j / 2 ^ l := fun hlt => Nat.div_le_div_right hlt.le
  omega

/-- At a layer with one block, all greater members are counted. -/
lemma above_top (hlive : ∀ j ∈ live, j < 2 ^ l) (hi : i < 2 ^ l) :
    above live l i = {j ∈ live | i < j} := by
  refine filter_congr ?_
  intro j hj
  rw [Nat.div_eq_of_lt (hlive j hj), Nat.div_eq_of_lt hi]
  exact ⟨And.right, fun hlt => ⟨rfl, hlt⟩⟩

end DyadicCounts
