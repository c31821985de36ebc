import BTBFerret.DyadicCounts
import BTBFerret.FallibleRuns
import BTBFerret.StackDistCalc

/-!
# The tree of partial sums

The node `k` of layer `l + 1` counts the live leaves of the blocks `2 * k` and `2 * k + 1` of
layer `l`. A walk from a leaf to the root therefore collects the live leaves to its right, and
a node may go once all slots of its block have been used and none of them is live.
-/

namespace BTBFerret.StackDistCalc

open DyadicCounts Bool Option

variable {c : StackDistCalc} {n last depth l k i : ℕ} {live live' : Finset ℕ} {node : Node}

/-- All slots of the block lie below `n`, and none of them is live. -/
def Spent (n : ℕ) (live : Finset ℕ) (l k : ℕ) : Prop := (k + 1) * 2 ^ l ≤ n ∧ count live l k = 0

lemma Spent.join (hleft : Spent n live l (2 * k)) (hright : Spent n live l (2 * k + 1)) :
    Spent n live (l + 1) k := by
  constructor
  · calc (k + 1) * 2 ^ (l + 1) = (2 * k + 1 + 1) * 2 ^ l := by ring
      _ ≤ n := hright.1
  · rw [count_succ, hleft.2, hright.2]

variable {m : ℕ}

lemma Spent.mono (h : Spent n live l k) (hle : n ≤ m) : Spent m live l k :=
  ⟨h.1.trans hle, h.2⟩

lemma Spent.congr (h : Spent n live l k) (heq : ∀ i, i / 2 ^ l = k → (i ∈ live ↔ i ∈ live')) :
    Spent n live' l k :=
  ⟨h.1, (count_congr heq).symm.trans h.2⟩

/-- The node `k` of layer `l + 1`, in a tree of the given depth. -/
structure Inner (n depth : ℕ) (live : Finset ℕ) (l k : ℕ) (node : Node) : Prop where
  nodeIndex : node.nodeIndex = k
  isLeftNode : node.isLeftNode = (k % 2 == 0)
  parent : node.parent = if l + 1 = depth then none else some ⟨l + 1 + 1, k / 2⟩
  sumLeft : node.sumLeft = count live l (2 * k)
  sumRight : node.sumRight = count live l (2 * k + 1)
  discardLeft : node.discardLeft = true → Spent n live l (2 * k)
  discardRight : node.discardRight = true → Spent n live l (2 * k + 1)

lemma Inner.mono (h : Inner n depth live l k node) (hle : n ≤ m) : Inner m depth live l k node :=
  { h with
    discardLeft := fun hd => (h.discardLeft hd).mono hle
    discardRight := fun hd => (h.discardRight hd).mono hle }

lemma Inner.congr (h : Inner n depth live l k node)
    (heq : ∀ i, i / 2 ^ (l + 1) = k → (i ∈ live ↔ i ∈ live')) :
    Inner n depth live' l k node := by
  have hleft : ∀ i, i / 2 ^ l = 2 * k → (i ∈ live ↔ i ∈ live') := by
    intro i hi
    refine heq i ?_
    rw [div_two_pow_succ]
    omega
  have hright : ∀ i, i / 2 ^ l = 2 * k + 1 → (i ∈ live ↔ i ∈ live') := by
    intro i hi
    refine heq i ?_
    rw [div_two_pow_succ]
    omega
  exact { h with
    sumLeft := h.sumLeft.trans (count_congr hleft)
    sumRight := h.sumRight.trans (count_congr hright)
    discardLeft := fun hd => (h.discardLeft hd).congr hleft
    discardRight := fun hd => (h.discardRight hd).congr hright }

/-- The inner nodes, where layer `l + 1` counts the leaves of `live l`. -/
def Inners (n : ℕ) (live : ℕ → Finset ℕ) (c : StackDistCalc) : Prop :=
  ∀ l k node, l < c.treeDepth → c.tree (l + 1) k = some node → Inner n c.treeDepth (live l) l k node

structure Leaf (i : ℕ) (node : Node) : Prop where
  isLeftNode : node.isLeftNode = (i % 2 == 0)
  parent : node.parent = some ⟨1, i / 2⟩

/-- A tree over `n` slots whose nodes have been created up to the slot `last`. -/
structure SumTree (c : StackDistCalc) (n last : ℕ) (live : Finset ℕ) : Prop where
  lt : ∀ i ∈ live, i < n
  leaf : ∀ i ∈ live, ∃ node, c.tree 0 i = some node ∧ Leaf i node
  inner : Inners n (fun _ => live) c
  present : ∀ l k, l < c.treeDepth → k * 2 ^ (l + 1) ≤ last →
    0 < count live (l + 1) k ∨ n < (k + 1) * 2 ^ (l + 1) → (c.tree (l + 1) k).isSome
  root : (c.tree c.treeDepth 0).isSome
  rootOnly : ∀ k, (c.tree c.treeDepth k).isSome → k = 0
  depth_pos : 0 < c.treeDepth
  shallow : c.treeDepth ≤ 31

/-- The nodes above a leaf exist. -/
def Path (c : StackDistCalc) (i l : ℕ) : Prop :=
  ∀ m, l ≤ m → m < c.treeDepth → (c.tree (m + 1) (i / 2 ^ (m + 1))).isSome

lemma SumTree.path (h : SumTree c n last live) (hi : i ∈ live) (hlast : i ≤ last) :
    Path c i 0 := by
  intro m _ hm
  exact h.present m _ hm ((Nat.div_mul_le_self i _).trans hlast) (.inl (count_pos hi (m + 1)))

/-! ## Walks to the root -/

variable {ptr : NodePtr}

lemma node_eq_ok (h : c.tree ptr.level ptr.nodeIndex = some node) : c.node ptr = .ok node := by
  rw [StackDistCalc.node, h]

lemma Inner.parent_below (h : Inner n depth live l k node) (hl : l + 1 < depth) :
    node.parent = some ⟨l + 1 + 1, k / 2⟩ := by
  rw [h.parent, if_neg hl.ne]

lemma Inner.parent_root (h : Inner n depth live l k node) (hl : l + 1 = depth) :
    node.parent = none := by
  rw [h.parent, if_pos hl]

/-- What the walk adds at layer `l + 1`. -/
lemma Inner.collect (h : Inner n depth live l (i / 2 ^ (l + 1)) node) (d : ℕ) :
    (if (i / 2 ^ l % 2 == 0) = true then d + (above live l i).card + node.sumRight
      else d + (above live l i).card) = d + (above live (l + 1) i).card := by
  have hk := div_two_pow_succ i l
  by_cases heven : i / 2 ^ l % 2 = 0
  · rw [if_pos (beq_iff_eq.mpr heven), card_above_succ_left heven, h.sumRight, add_assoc]
    congr 3
    omega
  · rw [if_neg (mt beq_iff_eq.mp heven), card_above_succ_right heven]

/-- The induction is on the number of layers left. -/
lemma getSum_eq (hinner : Inners n (fun _ => live) c) (d : ℕ) :
    ∀ fuel l, l < c.treeDepth → c.treeDepth ≤ l + fuel → Path c i l →
      getSum fuel c ⟨l + 1, i / 2 ^ (l + 1)⟩ (i / 2 ^ l % 2 == 0) (d + (above live l i).card) =
        .ok (d + (above live c.treeDepth i).card) := by
  intro fuel
  induction fuel with
  | zero =>
    intro l hl hfuel _
    omega
  | succ fuel ih =>
    intro l hl hfuel hpath
    obtain ⟨node, hnode⟩ := isSome_iff_exists.mp (hpath l le_rfl hl)
    have hn := hinner l _ node hl hnode
    rw [getSum, node_eq_ok hnode]
    dsimp only [bind, Except.bind]
    rw [hn.collect d]
    rcases (Nat.succ_le_of_lt hl).lt_or_eq with hbelow | htop
    · rw [hn.parent_below hbelow, hn.isLeftNode, ← div_two_pow_succ]
      exact ih (l + 1) hbelow (by omega) (fun m hm => hpath m (by omega))
    · rw [hn.parent_root htop]
      change Except.ok (d + (above live l.succ i).card) = _
      rw [htop]

lemma climb_eq (hinner : Inners n (fun _ => live) c) :
    ∀ steps l, l + steps < c.treeDepth → Path c i l →
      c.climb steps ⟨l + 1, i / 2 ^ (l + 1)⟩ = .ok ⟨l + steps + 1, i / 2 ^ (l + steps + 1)⟩ := by
  intro steps
  induction steps with
  | zero =>
    intro l _ _
    rfl
  | succ steps ih =>
    intro l hl hpath
    obtain ⟨node, hnode⟩ := isSome_iff_exists.mp (hpath l le_rfl (by omega))
    have hn := hinner l _ node (by omega) hnode
    rw [climb, node_eq_ok hnode]
    dsimp only [bind, Except.bind]
    rw [hn.parent_below (by omega), ← div_two_pow_succ]
    change c.climb steps ⟨l + 1 + 1, i / 2 ^ (l + 1 + 1)⟩ = _
    rw [ih (l + 1) (by omega) (fun m hm => hpath m (by omega)),
      show l + 1 + steps = l + (steps + 1) by omega]

lemma sanityCheckTree_eq (hinner : Inners n (fun _ => live) c) (hpath : Path c i 0)
    (hdepth : 0 < c.treeDepth) {leaf : Node} (hleaf : c.tree 0 i = some leaf) (h : Leaf i leaf) :
    c.sanityCheckTree ⟨0, i⟩ = .ok () := by
  obtain ⟨top, htop⟩ := Nat.exists_eq_add_of_lt hdepth
  rw [Nat.zero_add] at htop
  obtain ⟨root, hroot⟩ := isSome_iff_exists.mp (hpath top (Nat.zero_le _) (by omega))
  have hclimb : c.climb top ⟨1, i / 2⟩ = .ok ⟨top + 1, i / 2 ^ (top + 1)⟩ := by
    have hwalk := climb_eq hinner top 0 (by omega) hpath
    rwa [Nat.zero_add, Nat.zero_add, pow_one] at hwalk
  have hparent : parentOf leaf = .ok ⟨1, i / 2⟩ := by rw [parentOf, h.parent]
  rw [sanityCheckTree, node_eq_ok hleaf]
  change parentOf leaf >>= _ = _
  rw [hparent, htop, Nat.add_sub_cancel]
  change c.climb top ⟨1, i / 2⟩ >>= _ = _
  rw [hclimb]
  change c.node ⟨top + 1, i / 2 ^ (top + 1)⟩ >>= _ = _
  rw [node_eq_ok hroot]
  change panicIf root.parent.isSome = .ok ()
  rw [(hinner top _ root (by omega) hroot).parent_root htop.symm]
  rfl

/-! ## Updating the sums above a leaf -/

/-- The live leaves change at `i` only, and the blocks of `i` that were spent still are. -/
structure Moves (n : ℕ) (live live' : Finset ℕ) (i : ℕ) : Prop where
  other : ∀ j, j ≠ i → (j ∈ live ↔ j ∈ live')
  spent : ∀ l, Spent n live l (i / 2 ^ l) → Spent n live' l (i / 2 ^ l)

lemma moves_erase (n : ℕ) (live : Finset ℕ) (i : ℕ) : Moves n live (live.erase i) i where
  other := by
    intro j hj
    rw [Finset.mem_erase]
    exact ⟨fun h => ⟨hj, h⟩, And.right⟩
  spent := by
    rintro l ⟨hfull, hzero⟩
    have hle := count_mono (Finset.erase_subset i live) l (i / 2 ^ l)
    exact ⟨hfull, by omega⟩

/-- The block of a new leaf has not been used up. -/
lemma moves_insert (n : ℕ) (live : Finset ℕ) : Moves n live (insert n live) n where
  other := by
    intro j hj
    rw [Finset.mem_insert]
    exact ⟨.inr, fun h => h.resolve_left hj⟩
  spent := by
    rintro l ⟨hfull, _⟩
    have hlt := Nat.lt_mul_div_succ n (Nat.two_pow_pos l)
    rw [mul_comm] at hlt
    omega

lemma Moves.congr (h : Moves n live live' i) (hk : i / 2 ^ l ≠ k) :
    ∀ j, j / 2 ^ l = k → (j ∈ live ↔ j ∈ live') := by
  rintro j rfl
  refine h.other j ?_
  rintro rfl
  exact hk rfl

variable {discard : Bool}

lemma Inner.receive (h : Inner n depth live l (i / 2 ^ (l + 1)) node)
    (hmoves : Moves n live live' i) (hdiscard : discard = true → Spent n live' l (i / 2 ^ l)) :
    Inner n depth live' l (i / 2 ^ (l + 1))
      (node.receive (i / 2 ^ l % 2 == 0) (count live' l (i / 2 ^ l)) discard) := by
  have hk := div_two_pow_succ i l
  rcases Nat.mod_two_eq_zero_or_one (i / 2 ^ l) with heven | hodd
  · -- the change comes from the left
    have hleft : i / 2 ^ l = 2 * (i / 2 ^ (l + 1)) := by omega
    have hright : i / 2 ^ l ≠ 2 * (i / 2 ^ (l + 1)) + 1 := by omega
    have hflag : (i / 2 ^ l % 2 == 0) = true := beq_iff_eq.mpr heven
    rw [hflag]
    refine ⟨h.nodeIndex, h.isLeftNode, h.parent, ?_, ?_, ?_, ?_⟩
    · exact congrArg (count live' l) hleft
    · exact h.sumRight.trans (count_congr (hmoves.congr hright))
    · intro hd
      rw [← hleft]
      rcases or_eq_true_iff.mp hd with hold | hnew
      · have hspent := h.discardLeft hold
        rw [← hleft] at hspent
        exact hmoves.spent l hspent
      · rw [Bool.and_true] at hnew
        exact hdiscard (and_eq_true_iff.mp hnew).1
    · intro hd
      rcases or_eq_true_iff.mp hd with hold | hnew
      · exact (h.discardRight hold).congr (hmoves.congr hright)
      · rw [Bool.not_true, Bool.and_false] at hnew
        cases hnew
  · have hleft : i / 2 ^ l ≠ 2 * (i / 2 ^ (l + 1)) := by omega
    have hright : i / 2 ^ l = 2 * (i / 2 ^ (l + 1)) + 1 := by omega
    have hflag : (i / 2 ^ l % 2 == 0) = false := by rw [hodd]; rfl
    rw [hflag]
    refine ⟨h.nodeIndex, h.isLeftNode, h.parent, ?_, ?_, ?_, ?_⟩
    · exact h.sumLeft.trans (count_congr (hmoves.congr hleft))
    · exact congrArg (count live' l) hright
    · intro hd
      rcases or_eq_true_iff.mp hd with hold | hnew
      · exact (h.discardLeft hold).congr (hmoves.congr hleft)
      · rw [Bool.and_false] at hnew
        cases hnew
    · intro hd
      rw [← hright]
      rcases or_eq_true_iff.mp hd with hold | hnew
      · have hspent := h.discardRight hold
        rw [← hright] at hspent
        exact hmoves.spent l hspent
      · rw [Bool.not_false, Bool.and_true] at hnew
        exact hdiscard (and_eq_true_iff.mp hnew).1

lemma Inner.spent_of_notRequired (h : Inner n depth live l k node) {sum : ℕ}
    (hnot : node.notRequired sum discard = true) : Spent n live (l + 1) k ∧ l + 1 ≠ depth := by
  simp only [Node.notRequired, and_eq_true] at hnot
  obtain ⟨⟨⟨⟨hleft, hright⟩, _⟩, hparent⟩, _⟩ := hnot
  refine ⟨(h.discardLeft hleft).join (h.discardRight hright), ?_⟩
  intro htop
  rw [h.parent_root htop] at hparent
  cases hparent

lemma Inner.checkSums_eq (h : Inner n depth live l k node) (hl : l < 31) :
    c.checkSums node (l + 1) = .ok () := by
  unfold checkSums
  split
  · have hleft : decide (2 ^ l < node.sumLeft) = false := by
      rw [h.sumLeft]
      exact decide_eq_false (not_lt.mpr (count_le live l _))
    have hright : decide (2 ^ l < node.sumRight) = false := by
      rw [h.sumRight]
      exact decide_eq_false (not_lt.mpr (count_le live l _))
    rw [Nat.add_sub_cancel, shiftOne, if_pos hl]
    change (panicIf (decide (2 ^ l < node.sumLeft)) >>= fun _ =>
      panicIf (decide (2 ^ l < node.sumRight))) = .ok ()
    rw [hleft, hright]
    rfl
  · rfl

def settle (c : StackDistCalc) (ptr : NodePtr) (node : Node) (gone : Bool) : StackDistCalc :=
  { c with tree := place c.tree ptr (if gone then none else some node) }

lemma place_self (tree : ℕ → ℕ → Option Node) (ptr : NodePtr) (node : Option Node) :
    place tree ptr node ptr.level ptr.nodeIndex = node :=
  if_pos ⟨rfl, rfl⟩

lemma place_of_ne {tree : ℕ → ℕ → Option Node} {node : Option Node}
    (h : ¬ (l = ptr.level ∧ k = ptr.nodeIndex)) : place tree ptr node l k = tree l k :=
  if_neg h

lemma place_layer (tree : ℕ → ℕ → Option Node) (ptr : NodePtr) (node : Option Node)
    (hne : l ≠ ptr.level) : place tree ptr node l = tree l := by
  funext k
  exact place_of_ne (fun heq => hne heq.1)

lemma place_place (tree : ℕ → ℕ → Option Node) (ptr : NodePtr) (node other : Option Node) :
    place (place tree ptr node) ptr other = place tree ptr other := by
  funext l k
  unfold place
  split <;> rfl

variable {gone : Bool}

lemma settle_layer (hne : m ≠ l) : (c.settle ⟨l, k⟩ node gone).tree m = c.tree m :=
  place_layer c.tree _ _ hne

lemma updateSum_succ {fromLeft : Bool} {fuel sum level d : ℕ}
    (hnode : c.tree ptr.level ptr.nodeIndex = some node) (hptr : ptr = ⟨level + 1, node.nodeIndex⟩)
    (hcheck : c.checkSums node (level + 1) = .ok ()) :
    updateSum (fuel + 1) c ptr fromLeft sum level d discard =
      let node' := node.receive fromLeft sum discard
      let gone := node'.notRequired sum discard
      let d' := if fromLeft then d + node.sumRight else d
      match node.parent with
      | some parent => updateSum fuel (c.settle ptr node' gone) parent node.isLeftNode
          (node'.sumLeft + node'.sumRight) (level + 1) d' gone
      | none => .ok (d', c.settle ptr node' gone) := by
  have hsettle : ∀ gone : Bool,
    (if gone then ((c.write ptr (node.receive fromLeft sum discard)).erase
      ptr).erase ⟨level + 1, node.nodeIndex⟩ else c.write ptr (node.receive fromLeft sum discard)) =
      c.settle ptr (node.receive fromLeft sum discard) gone := by
    intro gone
    cases gone with
    | false => rfl
    | true =>
      rw [← hptr]
      change { c with tree := place (place (place c.tree ptr _) ptr none) ptr none } = _
      rw [place_place, place_place]
      rfl
  rw [updateSum, node_eq_ok hnode]
  change c.checkSums node (level + 1) >>= _ = _
  rw [hcheck]
  simp only [← hsettle]
  rfl

/-- The walk has reached layer `l`: the nodes below count the new leaves, those above the old. -/
def behind (live live' : Finset ℕ) (l : ℕ) : ℕ → Finset ℕ := fun m => if m < l then live' else live

/-- A node of the layer that the walk has just passed counts the new leaves. -/
lemma Inners.settle {old : Node} (h : Inners n (behind live live' l) c)
    (hmoves : Moves n live live' i) (hl : l < c.treeDepth)
    (hold : c.tree (l + 1) (i / 2 ^ (l + 1)) = some old)
    (hdiscard : discard = true → Spent n live' l (i / 2 ^ l)) : Inners n (behind live live' (l + 1))
      (c.settle ⟨l + 1, i / 2 ^ (l + 1)⟩
        (old.receive (i / 2 ^ l % 2 == 0) (count live' l (i / 2 ^ l)) discard) gone) := by
  intro m k node hm hnode
  by_cases hplace : m + 1 = l + 1 ∧ k = i / 2 ^ (l + 1)
  · obtain ⟨hml, rfl⟩ := hplace
    obtain rfl : m = l := Nat.succ.inj hml
    have hfound : (if gone then none else some (old.receive (i / 2 ^ m % 2 == 0)
        (count live' m (i / 2 ^ m)) discard)) = some node :=
      (place_self c.tree ⟨m + 1, i / 2 ^ (m + 1)⟩ _).symm.trans hnode
    cases gone with
    | true => cases hfound
    | false =>
      obtain rfl := some.inj hfound
      have hinner := h m _ old hm hold
      unfold behind at hinner ⊢
      rw [if_neg (lt_irrefl m)] at hinner
      rw [if_pos (Nat.lt_succ_self m)]
      exact hinner.receive hmoves hdiscard
  · have hsame : c.tree (m + 1) k = some node := (place_of_ne hplace).symm.trans hnode
    have hinner := h m k node hm hsame
    unfold behind at hinner ⊢
    by_cases hml : m < l
    · rw [if_pos hml] at hinner
      rw [if_pos (by omega)]
      exact hinner
    · rw [if_neg hml] at hinner
      split
      · -- the other nodes of the layer do not see the change
        obtain rfl : m = l := by omega
        refine hinner.congr (hmoves.congr ?_)
        rintro rfl
        exact hplace ⟨rfl, rfl⟩
      · exact hinner

/-- The tree after a walk from the bottom to the root. -/
structure Updated (n : ℕ) (live' : Finset ℕ) (c : StackDistCalc)
    (tree : ℕ → ℕ → Option Node) : Prop where
  leaves : tree 0 = c.tree 0
  inner : Inners n (fun _ => live') { c with tree := tree }
  kept : ∀ l k, l < c.treeDepth → (c.tree (l + 1) k).isSome →
    ¬ Spent n live' (l + 1) k ∨ l + 1 = c.treeDepth → (tree (l + 1) k).isSome
  old : ∀ l k, (tree (l + 1) k).isSome → (c.tree (l + 1) k).isSome

lemma settle_old {l' k' : ℕ} (hptr : (c.tree ptr.level ptr.nodeIndex).isSome)
    (h : ((c.settle ptr node gone).tree l' k').isSome) : (c.tree l' k').isSome := by
  by_cases hplace : l' = ptr.level ∧ k' = ptr.nodeIndex
  · obtain ⟨rfl, rfl⟩ := hplace
    exact hptr
  · have hother : (c.settle ptr node gone).tree l' k' = c.tree l' k' := place_of_ne hplace
    rwa [hother] at h

lemma settle_kept {l' k' : ℕ}
    (hgone : gone = true → Spent n live' (l + 1) k ∧ l + 1 ≠ c.treeDepth)
    (h : (c.tree (l' + 1) k').isSome) (hkeep : ¬ Spent n live' (l' + 1) k' ∨ l' + 1 = c.treeDepth) :
    ((c.settle ⟨l + 1, k⟩ node gone).tree (l' + 1) k').isSome := by
  by_cases hplace : l' + 1 = l + 1 ∧ k' = k
  · obtain ⟨hll, rfl⟩ := hplace
    rw [hll] at hkeep ⊢
    have hself : (c.settle ⟨l + 1, k'⟩ node gone).tree (l + 1) k' =
        if gone then none else some node :=
      place_self c.tree ⟨l + 1, k'⟩ _
    rw [hself]
    cases gone with
    | false => rfl
    | true =>
      obtain ⟨hspent, hbelow⟩ := hgone rfl
      exact (hkeep.elim (fun hnot => hnot hspent) hbelow).elim
  · have hother : (c.settle ⟨l + 1, k⟩ node gone).tree (l' + 1) k' = c.tree (l' + 1) k' :=
      place_of_ne hplace
    rw [hother]
    exact h

/-- The recursion returns the live leaves to the right of `i` and leaves a tree that counts the new
leaves, by induction on the layers left. -/
lemma updateSum_eq (hmoves : Moves n live live' i) (d : ℕ) :
    ∀ fuel l (c : StackDistCalc) (discard : Bool), l < c.treeDepth → c.treeDepth ≤ l + fuel →
      c.treeDepth ≤ 31 → Inners n (behind live live' l) c → Path c i l →
      (discard = true → Spent n live' l (i / 2 ^ l)) →
      ∃ tree, updateSum fuel c ⟨l + 1, i / 2 ^ (l + 1)⟩ (i / 2 ^ l % 2 == 0)
          (count live' l (i / 2 ^ l)) l (d + (above live l i).card) discard =
            .ok (d + (above live c.treeDepth i).card, { c with tree := tree }) ∧
        Updated n live' c tree := by
  intro fuel
  induction fuel with
  | zero =>
    intro l c discard hl hfuel
    omega
  | succ _ ih =>
    intro l c discard hl hfuel hdepth hinner hpath hdiscard
    obtain ⟨node, hnode⟩ := isSome_iff_exists.mp (hpath l le_rfl hl)
    have hold : Inner n c.treeDepth live l (i / 2 ^ (l + 1)) node := by
      have hn := hinner l _ node hl hnode
      rwa [behind, if_neg (lt_irrefl l)] at hn
    have hnew := hold.receive hmoves hdiscard
    have hptr : (⟨l + 1, i / 2 ^ (l + 1)⟩ : NodePtr) = ⟨l + 1, node.nodeIndex⟩ := by
      rw [hold.nodeIndex]
    rw [updateSum_succ hnode hptr (hold.checkSums_eq (by omega))]
    dsimp only
    rw [hold.collect d]
    generalize hnode' : node.receive (i / 2 ^ l % 2 == 0) (count live' l (i / 2 ^ l)) discard =
      node' at hnew ⊢
    generalize hgone : node'.notRequired (count live' l (i / 2 ^ l)) discard = gone
    have hspent : gone = true → Spent n live' (l + 1) (i / 2 ^ (l + 1)) ∧ l + 1 ≠ c.treeDepth := by
      rintro rfl
      exact hnew.spent_of_notRequired hgone
    have hsettled : Inners n (behind live live' (l + 1))
        (c.settle ⟨l + 1, i / 2 ^ (l + 1)⟩ node' gone) := by
      rw [← hnode']
      exact hinner.settle hmoves hl hnode hdiscard
    rcases (Nat.succ_le_of_lt hl).lt_or_eq with hbelow | htop
    · rw [hold.parent_below hbelow, hold.isLeftNode, hnew.sumLeft, hnew.sumRight, ← count_succ,
        ← div_two_pow_succ]
      have hpath' : Path (c.settle ⟨l + 1, i / 2 ^ (l + 1)⟩ node' gone) i (l + 1) := by
        intro m hm hlt
        rw [settle_layer (by omega)]
        exact hpath m (by omega) hlt
      obtain ⟨tree, heq, hupdated⟩ := ih (l + 1) (c.settle ⟨l + 1, i / 2 ^ (l + 1)⟩ node' gone) gone
        hbelow (show c.treeDepth ≤ _ by omega) hdepth hsettled hpath' (fun h => (hspent h).1)
      refine ⟨tree, heq, ?_, hupdated.inner, ?_, ?_⟩
      · rw [hupdated.leaves, settle_layer (by omega)]
      · intro l' k' hl' hsome hkeep
        exact hupdated.kept l' k' hl' (settle_kept hspent hsome hkeep) hkeep
      · intro l' k' hsome
        exact settle_old (isSome_of_eq_some hnode) (hupdated.old l' k' hsome)
    · rw [hold.parent_root htop]
      refine ⟨(c.settle ⟨l + 1, i / 2 ^ (l + 1)⟩ node' gone).tree, ?_, ?_, ?_, ?_, ?_⟩
      · change Except.ok (d + (above live l.succ i).card, c.settle _ node' gone) = _
        rw [htop]
        rfl
      · exact settle_layer (by omega)
      · intro m k node₁ hm hfound
        have hn := hsettled m k node₁ hm hfound
        rwa [behind, if_pos (hm.trans_eq htop.symm)] at hn
      · intro l' k' _ hsome hkeep
        exact settle_kept hspent hsome hkeep
      · intro l' k' hsome
        exact settle_old (isSome_of_eq_some hnode) hsome

end BTBFerret.StackDistCalc
