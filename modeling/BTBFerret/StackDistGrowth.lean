import BTBFerret.StackDistTree

/-!
# Growth of the tree

Before the leaf of slot `index` is added, every layer has a node for it: `updateTree` creates
the nodes whose block starts at `index`, and a new root when the tree is full. Between two
calls the nodes reach up to the slot `index - 1`.
-/

namespace BTBFerret.StackDistCalc

open FallibleRuns DyadicCounts Function Option StackDistCalc

variable {c c' : StackDistCalc} {n l k i : ℕ} {live : Finset ℕ}

/-- The tree between two calls. -/
structure Idle (c : StackDistCalc) (live : Finset ℕ) : Prop
    extends SumTree c c.index (c.index - 1) live where
  nextIndex : ∀ l < c.treeDepth, c.nextIndex (l + 1) = (c.index - 1) / 2 ^ (l + 1) + 1
  fits : c.index ≤ 2 ^ c.treeDepth
  tight : c.treeDepth = 1 ∨ 2 ^ (c.treeDepth - 1) < c.index

/-- The tree with room for a leaf in the slot `index`, but for the nodes of the layers up
to `i`. -/
structure Growing (c : StackDistCalc) (live : Finset ℕ) (i : ℕ) : Prop
    extends SumTree c c.index (c.index - 1) live where
  nextIndex : ∀ l < c.treeDepth, c.nextIndex (l + 1) =
    (if l < i then c.index - 1 else c.index) / 2 ^ (l + 1) + 1
  path : Path c c.index i
  fits : c.index < 2 ^ c.treeDepth
  tight : c.treeDepth = 1 ∨ 2 ^ (c.treeDepth - 1) ≤ c.index

structure Frame (c c' : StackDistCalc) : Prop where
  index : c'.index = c.index
  leaves : c'.tree 0 = c.tree 0
  aiMap : c'.aiMap = c.aiMap
  stack : c'.stack = c.stack
  verifyStack : c'.verifyStack = c.verifyStack

lemma Frame.refl (c : StackDistCalc) : Frame c c := ⟨rfl, rfl, rfl, rfl, rfl⟩

lemma Frame.trans {c'' : StackDistCalc} (h : Frame c c') (h' : Frame c' c'') : Frame c c'' :=
  ⟨h'.index.trans h.index, h'.leaves.trans h.leaves, h'.aiMap.trans h.aiMap,
    h'.stack.trans h.stack, h'.verifyStack.trans h.verifyStack⟩

lemma pred_div_of_dvd {w : ℕ} (hn : 0 < n) (h : w ∣ n) : (n - 1) / w + 1 = n / w := by
  obtain ⟨m, rfl⟩ := Nat.exists_eq_add_of_lt hn
  rw [Nat.zero_add, Nat.add_sub_cancel, Nat.succ_div, if_pos (by rwa [Nat.zero_add] at h)]

lemma pred_div_of_not_dvd {w : ℕ} (h : ¬ w ∣ n) : (n - 1) / w = n / w := by
  cases n with
  | zero => rfl
  | succ => rw [Nat.add_sub_cancel, Nat.succ_div, if_neg h, Nat.add_zero]

lemma lt_succ_mul_two_pow (n l : ℕ) : n < (n / 2 ^ l + 1) * 2 ^ l := by
  rw [mul_comm]
  exact Nat.lt_mul_div_succ n (Nat.two_pow_pos l)

/-! ## A new inner node -/

/-- Slots from `n` on have no live leaf. -/
lemma SumTree.newNode (h : SumTree c n (n - 1) live) (hdvd : 2 ^ (l + 1) ∣ n)
    (hbelow : l + 1 < c.treeDepth) {node : Node} (hindex : node.nodeIndex = n / 2 ^ (l + 1))
    (hleft : node.isLeftNode = (n / 2 ^ (l + 1) % 2 == 0))
    (hparent : node.parent = some ⟨l + 1 + 1, n / 2 ^ (l + 1) / 2⟩)
    (hzero : node.sumLeft = 0 ∧ node.sumRight = 0)
    (hflags : node.discardLeft = false ∧ node.discardRight = false) :
    Inner n c.treeDepth live l (n / 2 ^ (l + 1)) node := by
  have hstart : n / 2 ^ (l + 1) * 2 ^ (l + 1) = n := Nat.div_mul_cancel hdvd
  have hslots : 2 * (n / 2 ^ (l + 1)) * 2 ^ l = n := by
    rw [mul_comm 2, mul_assoc, ← pow_succ', hstart]
  refine ⟨hindex, hleft, ?_, ?_, ?_, ?_, ?_⟩
  · rw [hparent, if_neg hbelow.ne]
  · rw [hzero.1, count_eq_zero_of_lt h.lt hslots.ge]
  · rw [hzero.2, count_eq_zero_of_lt h.lt]
    rw [add_mul, hslots]
    exact Nat.le_add_right _ _
  · intro hd
    rw [hflags.1] at hd
    cases hd
  · intro hd
    rw [hflags.2] at hd
    cases hd

lemma SumTree.place (h : SumTree c n (n - 1) live) {node : Node}
    (hnode : Inner n c.treeDepth live l k node) (hbelow : l + 1 < c.treeDepth) (hl : l + 1 ≠ 0)
    (htree : c'.tree = place c.tree ⟨l + 1, k⟩ (some node))
    (hdepth : c'.treeDepth = c.treeDepth) : SumTree c' n (n - 1) live := by
  have hkeep : ∀ l' k', (c.tree l' k').isSome → (c'.tree l' k').isSome := by
    intro l' k' hsome
    rw [htree, StackDistCalc.place]
    split
    · rfl
    · exact hsome
  have hother : ∀ l', l' ≠ l + 1 → c'.tree l' = c.tree l' := by
    intro l' hne
    rw [htree, place_layer c.tree _ _ hne]
  refine ⟨h.lt, ?_, ?_, ?_, ?_, ?_, ?_, ?_⟩
  · intro i hi
    rw [hother 0 hl.symm]
    exact h.leaf i hi
  · intro m k' node' hm hfound
    rw [hdepth] at hm ⊢
    rw [htree] at hfound
    by_cases hplace : m + 1 = l + 1 ∧ k' = k
    · obtain ⟨hml, rfl⟩ := hplace
      obtain rfl : m = l := Nat.succ.inj hml
      obtain rfl : node = node' :=
        some.inj ((place_self c.tree ⟨m + 1, k'⟩ (some node)).symm.trans hfound)
      exact hnode
    · exact h.inner m k' node' hm ((place_of_ne hplace).symm.trans hfound)
  · intro m k' hm hlast hneeded
    rw [hdepth] at hm
    exact hkeep _ _ (h.present m k' hm hlast hneeded)
  · rw [hdepth]
    exact hkeep _ _ h.root
  · rw [hdepth, hother _ hbelow.ne']
    exact h.rootOnly
  · rw [hdepth]
    exact h.depth_pos
  · rw [hdepth]
    exact h.shallow

lemma Growing.index_pos (h : Growing c live i) (hdepth : 1 < c.treeDepth) : 0 < c.index := by
  rcases h.tight with hone | hlow
  · omega
  · exact (Nat.two_pow_pos _).trans_le hlow

/-- The step of both loops where the block of layer `i + 1` starts at `index`. -/
lemma Growing.addINode (h : Growing c live (i + 1)) (hi : i + 1 < c.treeDepth)
    (hdvd : 2 ^ (i + 1) ∣ c.index) : Growing (c.addINode (i + 1)) live i := by
  have hslot : c.nextIndex (i + 1) = c.index / 2 ^ (i + 1) := by
    rw [h.nextIndex i (by omega), if_pos (Nat.lt_succ_self i)]
    exact pred_div_of_dvd (h.index_pos (by omega)) hdvd
  have hparent : c.find (i + 1 + 1) (c.nextIndex (i + 1 + 1) - 1) =
      some ⟨i + 1 + 1, c.index / 2 ^ (i + 1) / 2⟩ := by
    rw [h.nextIndex (i + 1) hi, if_neg (lt_irrefl _), Nat.add_sub_cancel, ← div_two_pow_succ,
      find, if_pos (h.path (i + 1) le_rfl hi)]
  have hinner : Inner c.index c.treeDepth live i (c.index / 2 ^ (i + 1)) {
      isLeftNode := c.nextIndex (i + 1) % 2 == 0
      parent := c.find (i + 1 + 1) (c.nextIndex (i + 1 + 1) - 1)
      nodeIndex := c.nextIndex (i + 1) } :=
    h.newNode hdvd hi hslot (congrArg (· % 2 == 0) hslot) hparent ⟨rfl, rfl⟩ ⟨rfl, rfl⟩
  have htree : SumTree (c.addINode (i + 1)) c.index (c.index - 1) live := by
    refine h.toSumTree.place hinner hi (Nat.succ_ne_zero i) ?_ rfl
    rw [← hslot]
    rfl
  refine ⟨htree, ?_, ?_, h.fits, h.tight⟩
  · intro l hl
    change update c.nextIndex (i + 1) (c.nextIndex (i + 1) + 1) (l + 1) =
      (if l < i then c.index - 1 else c.index) / 2 ^ (l + 1) + 1
    by_cases hli : l = i
    · subst hli
      rw [update_self, if_neg (lt_irrefl l), hslot]
    · rw [update_of_ne (by omega), h.nextIndex l hl]
      congr 2
      exact if_congr (by omega) rfl rfl
  · intro m hm hlt
    change (place c.tree ⟨i + 1, c.nextIndex (i + 1)⟩ _ (m + 1)
      (c.index / 2 ^ (m + 1))).isSome
    rw [place]
    split
    · rfl
    · rename_i hne
      refine h.path m ?_ hlt
      rcases hm.lt_or_eq with hlt' | rfl
      · exact hlt'
      · exact (hne ⟨rfl, hslot.symm⟩).elim

/-- The step of the second loop where layer `i + 1` has a node for `index` already. -/
lemma Growing.skip (h : Growing c live (i + 1)) (hdvd : ¬ 2 ^ (i + 1) ∣ c.index) :
    Growing c live i := by
  refine ⟨h.toSumTree, ?_, ?_, h.fits, h.tight⟩
  · intro l hl
    rw [h.nextIndex l hl]
    by_cases hli : l = i
    · subst hli
      rw [if_pos (Nat.lt_succ_self l), if_neg (lt_irrefl l), pred_div_of_not_dvd hdvd]
    · congr 2
      exact if_congr (by omega) rfl rfl
  · intro m hm hlt
    rcases hm.lt_or_eq with hlt' | rfl
    · exact h.path m hlt' hlt
    · refine h.present i _ hlt ?_ (.inr (lt_succ_mul_two_pow c.index (i + 1)))
      rw [← pred_div_of_not_dvd hdvd]
      exact Nat.div_mul_le_self _ _

lemma addINode_frame (i : ℕ) (c : StackDistCalc) : Frame c (c.addINode (i + 1)) := by
  refine ⟨rfl, ?_, rfl, rfl, rfl⟩
  dsimp only [addINode, write]
  exact place_layer c.tree _ _ (Nat.succ_ne_zero i).symm

lemma addChain_frame (i : ℕ) (c : StackDistCalc) : Frame c (addChain i c) := by
  induction i generalizing c with
  | zero => exact Frame.refl c
  | succ i ih => exact (addINode_frame i c).trans (ih (c.addINode (i + 1)))

lemma Growing.addChain (h : Growing c live i) (hi : i < c.treeDepth)
    (hdvd : 2 ^ i ∣ c.index) : Growing (addChain i c) live 0 := by
  induction i generalizing c with
  | zero => exact h
  | succ i ih =>
    refine ih (h.addINode hi hdvd) (Nat.lt_of_succ_lt hi) ?_
    exact (pow_dvd_pow 2 (Nat.le_succ i)).trans hdvd

lemma Growing.addWhereNeeded (h : Growing c live i) (hi : i < c.treeDepth) :
    ∃ c', addWhereNeeded i c = .ok c' ∧ Growing c' live 0 ∧ Frame c c' := by
  induction i generalizing c with
  | zero => exact ⟨c, rfl, h, Frame.refl c⟩
  | succ i ih =>
    have hshift : shiftOne (i + 1) = .ok (2 ^ (i + 1)) := by
      have hshallow := h.shallow
      rw [shiftOne, if_pos (by omega)]
    rw [addWhereNeeded, hshift]
    change ∃ c', addWhereNeeded i
      (if c.index % 2 ^ (i + 1) = 0 then c.addINode (i + 1) else c) = .ok c' ∧ _
    by_cases hdvd : c.index % 2 ^ (i + 1) = 0
    · rw [if_pos hdvd]
      obtain ⟨c', hc', hgrown, hframe⟩ :=
        ih (h.addINode hi (Nat.dvd_of_mod_eq_zero hdvd)) (Nat.lt_of_succ_lt hi)
      exact ⟨c', hc', hgrown, (addINode_frame i c).trans hframe⟩
    · rw [if_neg hdvd]
      exact ih (h.skip (fun hd => hdvd (Nat.mod_eq_zero_of_dvd hd))) (Nat.lt_of_succ_lt hi)

/-! ## A new root -/

structure Rooted (c : StackDistCalc) (d : ℕ) (newRoot old : Node)
    (tree : ℕ → ℕ → Option Node) : Prop where
  root : tree (d + 1 + 1) 0 = some newRoot
  rootOnly : ∀ k, (tree (d + 1 + 1) k).isSome → k = 0
  old : tree (d + 1) 0 = some { old with parent := some ⟨d + 1 + 1, 0⟩ }
  rest : ∀ l k, l ≠ d + 1 + 1 → ¬ (l = d + 1 ∧ k = 0) → tree l k = c.tree l k

lemma addRoot_eq {d : ℕ} {old : Node} (hd : c.treeDepth = d + 1)
    (hold : c.tree (d + 1) 0 = some old) :
    ∃ tree, c.addRoot = .ok { c with
        tree := tree
        treeDepth := d + 1 + 1
        nextIndex := update c.nextIndex (d + 1 + 1) 1 } ∧
      Rooted c d {
        sumLeft := old.sumRight + old.sumLeft
        discardLeft := old.discardLeft && old.discardRight } old tree := by
  refine ⟨place (fun level k => if level = d + 1 + 1 then (if k = 0 then some {
      sumLeft := old.sumRight + old.sumLeft
      discardLeft := old.discardLeft && old.discardRight } else none) else c.tree level k)
    ⟨d + 1, 0⟩ (some { old with parent := some ⟨d + 1 + 1, 0⟩ }), ?_, ?_, ?_, ?_, ?_⟩
  · rw [addRoot, hd, node_eq_ok hold]
    rfl
  · rw [place_layer _ _ _ (Nat.succ_ne_self (d + 1)), if_pos rfl, if_pos rfl]
  · intro k hk
    rw [place_layer _ _ _ (Nat.succ_ne_self (d + 1)), if_pos rfl] at hk
    by_contra hne
    rw [if_neg hne] at hk
    cases hk
  · exact place_self _ ⟨d + 1, 0⟩ _
  · intro l k hl hplace
    rw [place_of_ne hplace, if_neg hl]

lemma Idle.addRoot (h : Idle c live) (hfull : c.index = 2 ^ c.treeDepth)
    (hindex : c.index < 2 ^ 31) :
    ∃ c', c.addRoot = .ok c' ∧ Growing c' live c.treeDepth ∧ c'.treeDepth = c.treeDepth + 1 ∧
      Frame c c' := by
  obtain ⟨d, hd⟩ := Nat.exists_eq_add_of_lt h.depth_pos
  rw [Nat.zero_add] at hd
  obtain ⟨old, hold⟩ := isSome_iff_exists.mp h.root
  have hshallow : d + 1 < 31 := by
    rw [hfull, hd] at hindex
    exact (Nat.pow_lt_pow_iff_right (by omega)).mp hindex
  have hpow : 2 ^ (d + 1) < 2 ^ (d + 1 + 1) :=
    Nat.pow_lt_pow_right Nat.one_lt_two (Nat.lt_succ_self (d + 1))
  have hinner := h.inner
  have hpresent := h.present
  have hnext := h.nextIndex
  have hrootOnly := h.rootOnly
  unfold Inners at hinner
  rw [hd] at hold hfull hinner hpresent hnext hrootOnly ⊢
  obtain ⟨tree, heq, hrooted⟩ := addRoot_eq hd hold
  have hroot : Inner c.index (d + 1) live d 0 old := hinner d 0 old (Nat.lt_succ_self d) hold
  have hsome : ∀ l k, l ≤ d + 1 → (c.tree l k).isSome → (tree l k).isSome := by
    intro l k hl hc
    by_cases hplace : l = d + 1 ∧ k = 0
    · obtain ⟨rfl, rfl⟩ := hplace
      rw [hrooted.old]
      rfl
    · rwa [hrooted.rest l k (by omega) hplace]
  refine ⟨_, heq, ⟨⟨h.lt, ?_, ?_, ?_, ?_, hrooted.rootOnly, Nat.succ_pos _, hshallow⟩, ?_, ?_, ?_,
    .inr ?_⟩, rfl, rfl, ?_, rfl, rfl, rfl⟩
  · intro i hi
    obtain ⟨leaf, hleaf, hl⟩ := h.leaf i hi
    exact ⟨leaf, (hrooted.rest 0 i (by omega) (by omega)).trans hleaf, hl⟩
  · intro l k node hl hnode
    rcases Nat.lt_succ_iff_lt_or_eq.mp hl with hlow | rfl
    · by_cases hplace : l + 1 = d + 1 ∧ k = 0
      · -- the old root
        obtain ⟨hld, rfl⟩ := hplace
        obtain rfl : l = d := Nat.succ.inj hld
        obtain rfl := some.inj (hrooted.old.symm.trans hnode)
        refine { hroot with parent := ?_ }
        rw [if_neg (Nat.succ_ne_self (l + 1)).symm]
      · have hnode' := (hrooted.rest (l + 1) k (by omega) hplace).symm.trans hnode
        have hbelow : l + 1 < d + 1 := by
          by_contra htop
          obtain rfl : l = d := by omega
          exact hplace ⟨rfl, hrootOnly k (isSome_of_eq_some hnode')⟩
        have hn := hinner l k node hlow hnode'
        have hne : l + 1 ≠ d + 1 + 1 := by omega
        exact { hn with parent := (hn.parent_below hbelow).trans (if_neg hne).symm }
    · -- the new root
      obtain rfl := hrooted.rootOnly k (isSome_of_eq_some hnode)
      obtain rfl := some.inj (hrooted.root.symm.trans hnode)
      refine ⟨rfl, rfl, (if_pos rfl).symm, ?_, ?_, ?_, by rintro ⟨⟩⟩
      · rw [count_succ, ← hroot.sumLeft, ← hroot.sumRight, add_comm]
      · rw [count_eq_zero_of_lt h.lt]
        rw [hfull, Nat.mul_zero, Nat.zero_add, Nat.one_mul]
      · intro hd
        obtain ⟨hleft, hright⟩ := Bool.and_eq_true_iff.mp hd
        exact (hroot.discardLeft hleft).join (hroot.discardRight hright)
  · intro l k hl hlast hneeded
    change (tree (l + 1) k).isSome
    rcases Nat.lt_succ_iff_lt_or_eq.mp hl with hlow | rfl
    · exact hsome (l + 1) k hlow (hpresent l k hlow hlast hneeded)
    · have hzero : k = 0 := by
        by_contra hne
        have hle := Nat.mul_le_mul_right (2 ^ (d + 1 + 1)) (Nat.one_le_iff_ne_zero.mpr hne)
        have hpos := Nat.two_pow_pos (d + 1)
        change k * 2 ^ (d + 1 + 1) ≤ c.index - 1 at hlast
        omega
      rw [hzero, hrooted.root]
      rfl
  · change (tree (d + 1 + 1) 0).isSome
    rw [hrooted.root]
    rfl
  · intro l hl
    change update c.nextIndex (d + 1 + 1) 1 (l + 1) =
      (if l < d + 1 then c.index - 1 else c.index) / 2 ^ (l + 1) + 1
    rcases Nat.lt_succ_iff_lt_or_eq.mp hl with hlow | rfl
    · rw [update_of_ne (by omega), if_pos hlow, hnext l hlow]
    · rw [update_self, if_neg (lt_irrefl _), hfull, Nat.div_eq_of_lt hpow]
  · intro m hm hlt
    obtain rfl : m = d + 1 := Nat.le_antisymm (Nat.lt_succ_iff.mp hlt) hm
    change (tree (d + 1 + 1) (c.index / 2 ^ (d + 1 + 1))).isSome
    rw [hfull, Nat.div_eq_of_lt hpow, hrooted.root]
    rfl
  · exact hfull.trans_lt hpow
  · exact hfull.ge
  · funext k
    exact hrooted.rest 0 k (by omega) (by omega)

/-! ## Before a new leaf -/

lemma isPowerOf2_two_pow (d : ℕ) : isPowerOf2 (2 ^ d) = true := by
  rw [isPowerOf2, Nat.and_two_pow_sub_one_eq_mod, Nat.mod_self, Bool.and_eq_true]
  exact ⟨bne_iff_ne.mpr (Nat.two_pow_pos d).ne', rfl⟩

/-- Between two powers of two the highest bits of a number and of its predecessor meet. -/
lemma isPowerOf2_between {d : ℕ} (hlow : 2 ^ d < n) (hhigh : n < 2 ^ (d + 1)) :
    isPowerOf2 n = false := by
  have hbit : (n &&& (n - 1)).testBit d = true := by
    rw [Nat.testBit_and, Nat.testBit_of_two_pow_le_and_two_pow_add_one_gt hlow.le hhigh,
      Nat.testBit_of_two_pow_le_and_two_pow_add_one_gt (by omega) (by omega)]
    rfl
  have hne : n &&& (n - 1) ≠ 0 := by
    intro hzero
    rw [hzero, Nat.zero_testBit] at hbit
    cases hbit
  rw [isPowerOf2, beq_eq_false_iff_ne.mpr hne, Bool.and_false]

lemma Idle.isPowerOf2_iff (h : Idle c live) (heven : c.index % 2 = 0) :
    isPowerOf2 c.index = true ↔ c.index = 2 ^ c.treeDepth := by
  constructor
  · intro hpow
    by_contra hne
    have hlt := lt_of_le_of_ne h.fits hne
    rcases h.tight with hone | hlow
    · rw [hone] at hlt
      have hzero : c.index = 0 := by omega
      rw [hzero] at hpow
      cases hpow
    · have hdepth := h.depth_pos
      rw [isPowerOf2_between hlow (by rwa [Nat.sub_add_cancel hdepth])] at hpow
      cases hpow
  · intro heq
    rw [heq]
    exact isPowerOf2_two_pow _

/-- A tree that is not full only lacks nodes below the root. -/
lemma Idle.growing (h : Idle c live) (hlt : c.index < 2 ^ c.treeDepth) :
    Growing c live (c.treeDepth - 1) := by
  have hdepth := h.depth_pos
  refine ⟨h.toSumTree, ?_, ?_, hlt, h.tight.imp id le_of_lt⟩
  · intro l hl
    rw [h.nextIndex l hl]
    split
    · rfl
    · have htop : l + 1 = c.treeDepth := by omega
      rw [htop, Nat.div_eq_of_lt hlt, Nat.div_eq_of_lt (by omega)]
  · intro m hm hlt'
    have htop : m + 1 = c.treeDepth := by omega
    rw [htop, Nat.div_eq_of_lt hlt]
    exact h.root

lemma Idle.updateTree (h : Idle c live) (heven : c.index % 2 = 0) (hindex : c.index < 2 ^ 31) :
    ∃ c', c.updateTree = .ok c' ∧ Growing c' live 0 ∧ Frame c c' := by
  unfold StackDistCalc.updateTree
  split
  · rename_i hpow
    have hfull := (h.isPowerOf2_iff heven).mp hpow
    obtain ⟨c', hc', hgrowing, hdepth, hframe⟩ := h.addRoot hfull hindex
    refine ⟨addChain (c'.treeDepth - 1) c', bind_eq_ok_iff.mpr ⟨c', hc', rfl⟩, ?_,
      hframe.trans (addChain_frame _ c')⟩
    rw [hdepth, Nat.add_sub_cancel]
    refine hgrowing.addChain (by omega) ?_
    rw [hframe.index, hfull]
  · rename_i hpow
    have hlt := lt_of_le_of_ne h.fits (mt (h.isPowerOf2_iff heven).mpr hpow)
    have hdepth := h.depth_pos
    exact (h.growing hlt).addWhereNeeded (by omega)

lemma Idle.growing_odd (h : Idle c live) (hodd : c.index % 2 ≠ 0) : Growing c live 0 := by
  have hlt : c.index < 2 ^ c.treeDepth := by
    refine lt_of_le_of_ne h.fits ?_
    intro heq
    have hdvd : 2 ∣ c.index := heq ▸ dvd_pow_self 2 h.depth_pos.ne'
    omega
  have hall : ∀ i, Growing c live i → Growing c live 0 := by
    intro i
    induction i with
    | zero => exact id
    | succ i ih =>
      intro hi
      refine ih (hi.skip ?_)
      intro hdvd
      have htwo := (dvd_pow_self 2 (Nat.succ_ne_zero i)).trans hdvd
      omega
  exact hall _ (h.growing hlt)

lemma Idle.makeRoom (h : Idle c live) (hindex : c.index < 2 ^ 31) :
    ∃ c', c.makeRoom = .ok c' ∧ Growing c' live 0 ∧ Frame c c' := by
  unfold StackDistCalc.makeRoom
  split
  · rename_i heven
    exact h.updateTree heven hindex
  · rename_i hodd
    exact ⟨c, rfl, h.growing_odd hodd, Frame.refl c⟩

end BTBFerret.StackDistCalc
