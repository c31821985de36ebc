import Mathlib.Tactic

/-!
# Tree pseudo-LRU

`tree_plru_rp.cc`: the inner nodes of a tree lie in a vector as in a heap, and the leaves behind
them stand for the entries of a set. Updates walk up from a leaf, the search for a victim walks down
from the root.
-/

namespace BTBFerret

namespace TreePLRU

open Function

/-- The bits of the inner nodes. No loop leaves the vector: the node above a leaf is inner. -/
abbrev PLRUTree := Nat → Bool

def parentIndex (index : Nat) : Nat := (index - 1) / 2

def leftSubtreeIndex (index : Nat) : Nat := 2 * index + 1

def rightSubtreeIndex (index : Nat) : Nat := 2 * index + 2

def isRightSubtree (index : Nat) : Bool := index % 2 == 0

/-- The loop of `invalidate` and `touch`: each node on the way up gets the `bit` for the side that
the loop comes from. -/
def climb (bit : Bool → Bool) (tree : PLRUTree) (index : Nat) : PLRUTree :=
  let next := update tree (parentIndex index) (bit (isRightSubtree index))
  if parentIndex index ≠ 0 then climb bit next (parentIndex index) else next
termination_by index
decreasing_by
  unfold parentIndex at *
  omega

def invalidate (tree : PLRUTree) (index : Nat) : PLRUTree := climb id tree index

def touch (tree : PLRUTree) (index : Nat) : PLRUTree := climb not tree index

def reset (tree : PLRUTree) (index : Nat) : PLRUTree := touch tree index

/-- The loop of `getVictim`, in a tree of `size` inner nodes. -/
def descend (size : Nat) (tree : PLRUTree) (index : Nat) : Nat :=
  if index < size then
    descend size tree (if tree index then rightSubtreeIndex index else leftSubtreeIndex index)
  else index
termination_by size - index
decreasing_by
  unfold rightSubtreeIndex leftSubtreeIndex
  split <;> omega

/-- The candidates are the `numLeaves` entries of the tree. -/
def getVictim (numLeaves : Nat) (tree : PLRUTree) : Option Nat :=
  let way := descend (numLeaves - 1) tree 0 - (numLeaves - 1)
  if way < numLeaves then some way else none

/-- `instantiateEntry`, for the entries of one tree. -/
def leafIndex (numLeaves way : Nat) : Nat := way + numLeaves - 1

inductive PLRUOp where
  | touch (way : Nat)
  | reset (way : Nat)
  | invalidate (way : Nat)

def PLRUOp.way : PLRUOp → Nat
  | .touch way | .reset way | .invalidate way => way

def step (numLeaves : Nat) (tree : PLRUTree) : PLRUOp → PLRUTree
  | .touch way => touch tree (leafIndex numLeaves way)
  | .reset way => reset tree (leafIndex numLeaves way)
  | .invalidate way => invalidate tree (leafIndex numLeaves way)

def run (numLeaves : Nat) (ops : List PLRUOp) : PLRUTree :=
  ops.foldl (step numLeaves) fun _ => false

variable {size index : Nat} {tree : PLRUTree}

lemma descend_parentIndex (hpos : 0 < index) (hlt : parentIndex index < size)
    (hbit : tree (parentIndex index) = isRightSubtree index) :
    descend size tree (parentIndex index) = descend size tree index := by
  rw [descend, if_pos hlt, hbit]
  congr 1
  unfold isRightSubtree rightSubtreeIndex leftSubtreeIndex parentIndex
  grind

/-- The search never looks at a node before the one it starts from. -/
lemma descend_update (i : Nat) (b : Bool) (h : i < index) :
    descend size (update tree i b) index = descend size tree index := by
  fun_induction descend size tree index with
  | case1 index hlt ih =>
    rw [descend, if_pos hlt, update_of_ne h.ne']
    apply ih
    unfold rightSubtreeIndex leftSubtreeIndex
    split <;> omega
  | case2 index hlt => rw [descend, if_neg hlt]

lemma descend_range (size : Nat) (tree : PLRUTree) (index : Nat) (h : index ≤ 2 * size) :
    size ≤ descend size tree index ∧ descend size tree index ≤ 2 * size := by
  fun_induction descend size tree index with
  | case1 index hlt ih =>
    apply ih
    unfold rightSubtreeIndex leftSubtreeIndex
    split <;> omega
  | case2 index hlt => omega

/-- The last step of a search that ends elsewhere than it starts. -/
lemma bit_of_descend {start : Nat} (h : descend size tree start = index) (hne : start ≠ index) :
    tree (parentIndex index) = isRightSubtree index := by
  fun_induction descend size tree start with
  | case1 start hlt ih =>
    by_cases hlast : (if tree start then rightSubtreeIndex start
        else leftSubtreeIndex start) = index
    · rw [← hlast]
      unfold parentIndex isRightSubtree rightSubtreeIndex leftSubtreeIndex
      grind
    · exact ih h hlast
  | case2 start hlt => exact absurd h hne

/-- The loop changes only nodes before the one it starts from. If every node points to where the
loop came from, the search takes the same way back. -/
lemma climb_spec (size : Nat) (bit : Bool → Bool) (tree : PLRUTree) (index : Nat)
    (hpos : 0 < index) (hle : index ≤ 2 * size) :
    climb bit tree index (parentIndex index) = bit (isRightSubtree index) ∧
      (∀ i, index ≤ i → climb bit tree index i = tree i) ∧
      (bit = id → descend size (climb bit tree index) 0 = descend size tree index) := by
  have hup : parentIndex index < index ∧ parentIndex index < size := by
    unfold parentIndex
    omega
  rw [climb]
  generalize hnext : update tree (parentIndex index) (bit (isRightSubtree index)) = next
  have hset : next (parentIndex index) = bit (isRightSubtree index) := by
    rw [← hnext, update_self]
  have hkeep : ∀ i, index ≤ i → next i = tree i := fun i hi => by
    rw [← hnext, update_of_ne (by omega)]
  have hback : bit = id → descend size next (parentIndex index) = descend size tree index := by
    rintro rfl
    rw [descend_parentIndex hpos hup.2 hset, ← hnext, descend_update _ _ hup.1]
  by_cases hroot : parentIndex index = 0
  · rw [if_neg (not_not.mpr hroot)]
    exact ⟨hset, hkeep, hroot ▸ hback⟩
  · obtain ⟨-, hkeep', hdown⟩ := climb_spec size bit next _ (Nat.pos_of_ne_zero hroot)
      (hup.1.le.trans hle)
    rw [if_pos hroot]
    exact ⟨(hkeep' _ le_rfl).trans hset, fun i hi => (hkeep' i (by omega)).trans (hkeep i hi),
      fun h => (hdown h).trans (hback h)⟩
termination_by index

variable {numLeaves way : Nat}

lemma victim_touch (hleaves : 2 ≤ numLeaves) (tree : PLRUTree) :
    descend (numLeaves - 1) (touch tree (leafIndex numLeaves way)) 0 - (numLeaves - 1) ≠ way := by
  unfold touch leafIndex
  intro hvictim
  have hrange := descend_range (numLeaves - 1) (climb not tree (way + numLeaves - 1)) 0 (by omega)
  have hleaf : descend (numLeaves - 1) (climb not tree (way + numLeaves - 1)) 0 =
      way + numLeaves - 1 := by omega
  have hbit := bit_of_descend hleaf (by omega)
  obtain ⟨haway, -⟩ := climb_spec (numLeaves - 1) not tree (way + numLeaves - 1)
    (by omega) (by omega)
  rw [haway] at hbit
  simp at hbit

lemma victim_invalidate (hleaves : 2 ≤ numLeaves) (hway : way < numLeaves) (tree : PLRUTree) :
    descend (numLeaves - 1) (invalidate tree (leafIndex numLeaves way)) 0 - (numLeaves - 1) =
      way := by
  unfold invalidate leafIndex
  obtain ⟨-, -, hback⟩ := climb_spec (numLeaves - 1) id tree (way + numLeaves - 1)
    (by omega) (by omega)
  rw [hback rfl, descend, if_neg (by omega)]
  omega

/-- What an operation asks of a victim that is chosen right after it. -/
def PLRUOp.Obeyed (victim : Nat) : PLRUOp → Prop
  | .touch way | .reset way => victim ≠ way
  | .invalidate way => victim = way

/-- The victim is a leaf of the tree and obeys the last operation. -/
theorem tree_victim_correct {numLeaves : Nat} (hleaves : 2 ≤ numLeaves) (ops : List PLRUOp)
    (hops : ∀ op ∈ ops, op.way < numLeaves) :
    ∃ victim < numLeaves, getVictim numLeaves (run numLeaves ops) = some victim ∧
      ∀ op ∈ ops.getLast?, op.Obeyed victim := by
  have hrange := descend_range (numLeaves - 1) (run numLeaves ops) 0 (by omega)
  have hvictim : descend (numLeaves - 1) (run numLeaves ops) 0 - (numLeaves - 1) < numLeaves := by
    omega
  refine ⟨_, hvictim, if_pos hvictim, fun op hlast => ?_⟩
  obtain ⟨earlier, rfl⟩ := List.getLast?_eq_some_iff.mp hlast
  rw [run, List.foldl_append]
  cases op with
  | touch way => exact victim_touch hleaves _
  | reset way => exact victim_touch hleaves _
  | invalidate way => exact victim_invalidate hleaves (hops (.invalidate way) (by simp)) _

/-- Of three ways the one invalidated last is the victim. -/
theorem tree_victim_correct_three :
    ∃ victim, getVictim 3 (run 3 [.touch 2, .invalidate 1]) = some victim ∧ victim = 1 := by
  obtain ⟨victim, -, hvictim, hlast⟩ :=
    tree_victim_correct (by decide : 2 ≤ 3) [.touch 2, .invalidate 1] (by simp [PLRUOp.way])
  exact ⟨victim, hvictim, hlast _ rfl⟩

end TreePLRU

end BTBFerret
