import BTBFerret.StackDistGrowth

/-!
# Adding and removing leaves

The leaves carry the accesses that are still in the stack, the most recent one in the highest
slot. Removing a leaf returns the number of the more recent ones.
-/

namespace BTBFerret.StackDistCalc

open FallibleRuns DyadicCounts List Nat

variable {c c' : StackDistCalc} {n last i : ℕ} {live live' : Finset ℕ} {leaf leaf' : Node}
  {tree : ℕ → ℕ → Option Node}

/-! ## The sums above a leaf -/

lemma Leaf.parentOf_eq (h : Leaf i leaf) : parentOf leaf = .ok ⟨1, i / 2⟩ := by
  rw [parentOf, h.parent]

lemma write_inner (l : ℕ) : (c.write ⟨0, i⟩ leaf).tree (l + 1) = c.tree (l + 1) :=
  place_layer c.tree ⟨0, i⟩ (some leaf) (succ_ne_zero l)

lemma walk_eq (hinner : Inners n (fun _ => live) c) (hpath : Path c i 0)
    (hdepth : 0 < c.treeDepth) (hshallow : c.treeDepth ≤ 31) (hmoves : Moves n live live' i)
    (discard : Bool) (hdiscard : discard = true → Spent n live' 0 i) (leaf : Node) :
    ∃ tree, updateSum c.treeDepth (c.write ⟨0, i⟩ leaf) ⟨1, i / 2⟩ (i % 2 == 0) (count live' 0 i)
        0 0 discard = .ok ((above live c.treeDepth i).card, { c with tree := tree }) ∧
      Updated n live' (c.write ⟨0, i⟩ leaf) tree := by
  have hstart : Inners n (behind live live' 0) (c.write ⟨0, i⟩ leaf) := by
    intro l k node hl hnode
    rw [write_inner] at hnode
    exact hinner l k node hl hnode
  have hup : Path (c.write ⟨0, i⟩ leaf) i 0 := by
    intro m hm hlt
    rw [write_inner]
    exact hpath m hm hlt
  have hroot : i / 2 ^ 0 = i := by rw [pow_zero, Nat.div_one]
  obtain ⟨tree, heq, hupdated⟩ := updateSum_eq hmoves 0 c.treeDepth 0 (c.write ⟨0, i⟩ leaf) discard
    hdepth (Nat.zero_add c.treeDepth).ge hshallow hstart hup (hroot.symm ▸ hdiscard)
  refine ⟨tree, ?_, hupdated⟩
  rw [hroot, above_zero, Finset.card_empty, Nat.zero_add, Nat.zero_add, pow_one, Nat.zero_add]
    at heq
  exact heq

lemma SumTree.removeLeaf (h : SumTree c n last live) (hi : i ∈ live) (hlast : i ≤ last)
    (hleaf : c.tree 0 i = some leaf) :
    ∃ tree, c.updateSumsLeavesToRoot ⟨0, i⟩ false =
        .ok ((above live c.treeDepth i).card, { c with tree := tree }) ∧
      Updated n (live.erase i) (c.write ⟨0, i⟩ { leaf with sumLeft := 0 }) tree := by
  obtain ⟨found, hfound, hl⟩ := h.leaf i hi
  obtain rfl := Option.some.inj (hfound.symm.trans hleaf)
  have hzero := count_zero_of_notMem (Finset.notMem_erase i live)
  have hspent : Spent n (live.erase i) 0 i := by
    have hlt := h.lt i hi
    exact ⟨by omega, hzero⟩
  obtain ⟨tree, heq, hupdated⟩ := walk_eq h.inner (h.path hi hlast) h.depth_pos h.shallow
    (moves_erase n live i) true (fun _ => hspent) { found with sumLeft := 0 }
  refine ⟨tree, ?_, hupdated⟩
  rw [hzero, ← hl.isLeftNode] at heq
  rw [updateSumsLeavesToRoot, node_eq_ok hleaf]
  change (parentOf found >>= _) = _
  rw [hl.parentOf_eq]
  exact heq

lemma SumTree.walked {n' : ℕ} (h : SumTree c n last live)
    (hupdated : Updated n live' (c.write ⟨0, i⟩ leaf) tree)
    (hlayer : ∀ l, c'.tree (l + 1) = tree (l + 1)) (hdepth : c'.treeDepth = c.treeDepth)
    (hn : n ≤ n') (hlt : ∀ j ∈ live', j < n')
    (hleaf : ∀ j ∈ live', ∃ node, c'.tree 0 j = some node ∧ Leaf j node)
    (hneeded : ∀ l k, 0 < count live' l k ∨ n' < (k + 1) * 2 ^ l →
      0 < count live l k ∨ n < (k + 1) * 2 ^ l) : SumTree c' n' last live' := by
  obtain ⟨d, hd⟩ := Nat.exists_eq_add_of_lt h.depth_pos
  rw [Nat.zero_add] at hd
  refine ⟨hlt, hleaf, ?_, ?_, ?_, ?_, hdepth ▸ h.depth_pos, hdepth ▸ h.shallow⟩
  · intro l k node hl hnode
    rw [hdepth] at hl ⊢
    rw [hlayer] at hnode
    exact (hupdated.inner l k node hl hnode).mono hn
  · intro l k hl hlast hlive
    rw [hdepth] at hl
    rw [hlayer]
    refine hupdated.kept l k hl ?_ (.inl ?_)
    · rw [write_inner]
      exact h.present l k hl hlast (hneeded (l + 1) k hlive)
    · rintro ⟨hfull, hzero⟩
      omega
  · rw [hdepth, hd, hlayer]
    refine hupdated.kept d 0 (show d < c.treeDepth by omega) ?_ (.inr hd.symm)
    rw [write_inner, ← hd]
    exact h.root
  · intro k hk
    rw [hdepth, hd, hlayer] at hk
    have hold := hupdated.old d k hk
    rw [write_inner, ← hd] at hold
    exact h.rootOnly k hold

lemma SumTree.erase_leaf (h : SumTree c n last live)
    (hupdated : Updated n (live.erase i) (c.write ⟨0, i⟩ leaf) tree)
    (htree : c'.tree = StackDistCalc.place tree ⟨0, i⟩ none)
    (hdepth : c'.treeDepth = c.treeDepth) : SumTree c' n last (live.erase i) := by
  refine h.walked hupdated (fun l => ?_) hdepth le_rfl
    (fun j hj => h.lt j (Finset.mem_of_mem_erase hj)) (fun j hj => ?_) fun l k => ?_
  · rw [htree, place_layer _ _ _ (succ_ne_zero l)]
  · obtain ⟨hne, hlive⟩ := Finset.mem_erase.mp hj
    obtain ⟨node, hnode, hl⟩ := h.leaf j hlive
    refine ⟨node, ?_, hl⟩
    rw [htree, place_of_ne (fun heq => hne heq.2), hupdated.leaves]
    exact (place_of_ne (fun heq => hne heq.2)).trans hnode
  · exact Or.imp_left (·.trans_le (count_mono (Finset.erase_subset i live) l k))

lemma SumTree.write_leaf (h : SumTree c n last live) {node : Option Node}
    (hnode : i ∈ live → ∃ leaf, node = some leaf ∧ Leaf i leaf)
    (htree : c'.tree = StackDistCalc.place c.tree ⟨0, i⟩ node)
    (hdepth : c'.treeDepth = c.treeDepth) : SumTree c' n last live := by
  have hlayer : ∀ l, l ≠ 0 → c'.tree l = c.tree l := by
    intro l hl
    rw [htree, place_layer _ _ _ hl]
  refine ⟨h.lt, ?_, ?_, ?_, ?_, ?_, ?_, ?_⟩
  · intro j hj
    rw [htree]
    by_cases hji : j = i
    · obtain ⟨leaf, hleaf, hl⟩ := hnode (hji ▸ hj)
      subst hji
      exact ⟨leaf, (place_self c.tree ⟨0, j⟩ node).trans hleaf, hl⟩
    · rw [place_of_ne (fun heq => hji heq.2)]
      exact h.leaf j hj
  · intro l k node hl hfound
    rw [hdepth] at hl ⊢
    rw [hlayer _ (succ_ne_zero l)] at hfound
    exact h.inner l k node hl hfound
  · intro l k hl hlast hneeded
    rw [hdepth] at hl
    rw [hlayer _ (succ_ne_zero l)]
    exact h.present l k hl hlast hneeded
  · rw [hdepth, hlayer _ h.depth_pos.ne']
    exact h.root
  · rw [hdepth, hlayer _ h.depth_pos.ne']
    exact h.rootOnly
  · rw [hdepth]
    exact h.depth_pos
  · rw [hdepth]
    exact h.shallow

/-- Without anything to create, the tree reaches up to the slot `index`. -/
lemma Growing.ready (h : Growing c live 0) : SumTree c c.index c.index live := by
  refine { h.toSumTree with present := ?_ }
  intro l k hl hlast hneeded
  rcases Nat.lt_or_ge (c.index - 1) (k * 2 ^ (l + 1)) with hgt | hle
  · have hslot : k * 2 ^ (l + 1) = c.index := by omega
    have hk : c.index / 2 ^ (l + 1) = k := by
      rw [← hslot, Nat.mul_div_cancel k (Nat.two_pow_pos (l + 1))]
    rw [← hk]
    exact h.path l (Nat.zero_le l) hl
  · exact h.present l k hl hle hneeded

lemma SumTree.insert_leaf (h : SumTree c n n live) (hleaf : Leaf n leaf)
    (hupdated : Updated n (insert n live) (c.write ⟨0, n⟩ leaf) tree) (htree : c'.tree = tree)
    (hdepth : c'.treeDepth = c.treeDepth) : SumTree c' (n + 1) n (insert n live) := by
  refine h.walked hupdated (fun l => by rw [htree]) hdepth (le_succ n) (fun j hj => ?_)
    (fun j hj => ?_) fun l k hneeded => ?_
  · rcases Finset.mem_insert.mp hj with rfl | hlive
    · exact lt_succ_self j
    · exact (h.lt j hlive).trans (lt_succ_self n)
  · rw [htree, hupdated.leaves]
    rcases Finset.mem_insert.mp hj with rfl | hlive
    · exact ⟨leaf, place_self c.tree ⟨0, j⟩ _, hleaf⟩
    · obtain ⟨node, hnode, hl⟩ := h.leaf j hlive
      exact ⟨node, (place_of_ne (fun heq => (h.lt j hlive).ne heq.2)).trans hnode, hl⟩
  · by_cases hk : n / 2 ^ l = k
    · right
      rw [← hk]
      exact lt_succ_mul_two_pow n l
    · rw [count_congr ((moves_insert n live).congr hk)]
      exact hneeded.imp id (fun hlt => (lt_succ_self n).trans hlt)

/-! ## The accesses in the stack -/

structure Access where
  rAddress : Addr
  slot : ℕ
  isMarked : Bool

def slots (accesses : List Access) : Finset ℕ := (accesses.map Access.slot).toFinset

/-- The leaves are those of the accesses, the most recent one first. -/
structure Holds (c : StackDistCalc) (accesses : List Access) : Prop where
  idle : Idle c (slots accesses)
  sorted : accesses.Pairwise fun e f => f.slot < e.slot
  mark : ∀ e ∈ accesses, ∃ leaf, c.tree 0 e.slot = some leaf ∧ leaf.isMarked = e.isMarked

variable {accesses recent older : List Access} {e : Access}

lemma mem_slots {j : ℕ} : j ∈ slots accesses ↔ ∃ e ∈ accesses, e.slot = j := by
  rw [slots, mem_toFinset, mem_map]

lemma slot_mem_slots (h : e ∈ accesses) : e.slot ∈ slots accesses := mem_slots.mpr ⟨e, h, rfl⟩

section

variable (h : (recent ++ e :: older).Pairwise fun e f => f.slot < e.slot)

include h

/-- Around an access there are the more recent ones and the older ones. -/
lemma sorted_split : (∀ f ∈ recent, e.slot < f.slot) ∧ ∀ f ∈ older, f.slot < e.slot := by
  obtain ⟨_, htail, hcross⟩ := pairwise_append.mp h
  exact ⟨fun f hf => hcross f hf e mem_cons_self, (pairwise_cons.mp htail).1⟩

lemma slots_remove : (slots (recent ++ e :: older)).erase e.slot = slots (recent ++ older) := by
  obtain ⟨hrecent, holder⟩ := sorted_split h
  ext j
  simp only [Finset.mem_erase, mem_slots, mem_append, mem_cons]
  constructor
  · rintro ⟨hne, f, hf | rfl | hf, rfl⟩
    · exact ⟨f, .inl hf, rfl⟩
    · exact (hne rfl).elim
    · exact ⟨f, .inr hf, rfl⟩
  · rintro ⟨f, hf | hf, rfl⟩
    · exact ⟨(hrecent f hf).ne', f, .inl hf, rfl⟩
    · exact ⟨(holder f hf).ne, f, .inr (.inr hf), rfl⟩

lemma card_recent : {j ∈ slots (recent ++ e :: older) | e.slot < j}.card = recent.length := by
  obtain ⟨hrecent, holder⟩ := sorted_split h
  have hset : {j ∈ slots (recent ++ e :: older) | e.slot < j} = slots recent := by
    ext j
    simp only [Finset.mem_filter, mem_slots, mem_append, mem_cons]
    constructor
    · rintro ⟨⟨f, hf | rfl | hf, rfl⟩, hlt⟩
      · exact ⟨f, hf, rfl⟩
      · exact (lt_irrefl _ hlt).elim
      · exact (lt_asymm hlt (holder f hf)).elim
    · rintro ⟨f, hf, rfl⟩
      exact ⟨⟨f, .inl hf, rfl⟩, hrecent f hf⟩
  have hnodup : (recent.map Access.slot).Nodup := by
    rw [List.Nodup, pairwise_map]
    exact (pairwise_append.mp h).1.imp (fun hlt => hlt.ne')
  rw [hset, slots, toFinset_card_of_nodup hnodup, length_map]

end

lemma Idle.lt_two_pow (h : Idle c live) (hi : i ∈ live) : i < 2 ^ c.treeDepth :=
  (h.lt i hi).trans_le h.fits

lemma Idle.le_pred (h : Idle c live) (hi : i ∈ live) : i ≤ c.index - 1 := by
  have hlt := h.lt i hi
  omega

lemma Holds.above_eq (h : Holds c (recent ++ e :: older)) :
    (above (slots (recent ++ e :: older)) c.treeDepth e.slot).card = recent.length := by
  have hmem : e.slot ∈ slots (recent ++ e :: older) :=
    slot_mem_slots (mem_append_right recent mem_cons_self)
  rw [above_top (fun j hj => h.idle.lt_two_pow hj) (h.idle.lt_two_pow hmem), card_recent h.sorted]

/-- What a call on the leaves leaves alone. -/
structure Rest (c c' : StackDistCalc) : Prop where
  index : c'.index = c.index
  aiMap : c'.aiMap = c.aiMap
  stack : c'.stack = c.stack
  verifyStack : c'.verifyStack = c.verifyStack

/-- Removing an access returns the number of more recent ones, and its mark is still to be
found. -/
lemma Holds.removeLeaf (h : Holds c (recent ++ e :: older)) :
    ∃ c' leaf, c.updateSumsLeavesToRoot ⟨0, e.slot⟩ false = .ok (recent.length, c') ∧
      c'.node ⟨0, e.slot⟩ = .ok leaf ∧ leaf.isMarked = e.isMarked ∧
      Holds (c'.erase ⟨0, e.slot⟩) (recent ++ older) ∧ Rest c (c'.erase ⟨0, e.slot⟩) := by
  have hin : e ∈ recent ++ e :: older := mem_append_right recent mem_cons_self
  have hmem : e.slot ∈ slots (recent ++ e :: older) := slot_mem_slots hin
  obtain ⟨leaf, hleaf, hmark⟩ := h.mark e hin
  obtain ⟨tree, heq, hupdated⟩ := h.idle.removeLeaf hmem (h.idle.le_pred hmem) hleaf
  rw [h.above_eq] at heq
  have hself : tree 0 e.slot = some { leaf with sumLeft := 0 } := by
    rw [hupdated.leaves]
    exact place_self c.tree ⟨0, e.slot⟩ _
  obtain ⟨hrecent, holder⟩ := sorted_split h.sorted
  refine ⟨{ c with tree := tree }, { leaf with sumLeft := 0 }, heq, node_eq_ok hself, hmark,
    ⟨⟨?_, h.idle.nextIndex, h.idle.fits, h.idle.tight⟩, ?_, ?_⟩, rfl, rfl, rfl, rfl⟩
  · rw [← slots_remove h.sorted]
    exact h.idle.toSumTree.erase_leaf hupdated rfl rfl
  · exact h.sorted.sublist (List.Sublist.append_left (sublist_cons_self e older) recent)
  · intro f hf
    have hne : f.slot ≠ e.slot := by
      rcases mem_append.mp hf with hf | hf
      · exact (hrecent f hf).ne'
      · exact (holder f hf).ne
    have hold : f ∈ recent ++ e :: older := by
      rcases mem_append.mp hf with hf | hf
      · exact mem_append_left _ hf
      · exact mem_append_right _ (mem_cons_of_mem e hf)
    obtain ⟨node, hnode, hm⟩ := h.mark f hold
    refine ⟨node, ?_, hm⟩
    change place tree ⟨0, e.slot⟩ none 0 f.slot = some node
    rw [place_of_ne (fun heq => hne heq.2), hupdated.leaves]
    exact (place_of_ne (fun heq => hne heq.2)).trans hnode

/-- The marks of the accesses are what the leaves hold, so a mark is set in both. -/
lemma Holds.setMark (h : Holds c (recent ++ e :: older)) {leaf : Node}
    (hleaf : c.tree 0 e.slot = some leaf) (mark : Bool) :
    Holds (c.write ⟨0, e.slot⟩ { leaf with isMarked := mark })
      (recent ++ { e with isMarked := mark } :: older) := by
  have hin : e ∈ recent ++ e :: older := mem_append_right recent mem_cons_self
  have hslots : slots (recent ++ { e with isMarked := mark } :: older) =
      slots (recent ++ e :: older) := by
    simp only [slots, map_append, map_cons]
  obtain ⟨found, hfound, hl⟩ := h.idle.leaf e.slot (slot_mem_slots hin)
  obtain rfl := Option.some.inj (hfound.symm.trans hleaf)
  obtain ⟨hrecent, holder⟩ := sorted_split h.sorted
  refine ⟨⟨?_, h.idle.nextIndex, h.idle.fits, h.idle.tight⟩, ?_, ?_⟩
  · rw [hslots]
    refine h.idle.toSumTree.write_leaf (fun _ => ?_) rfl rfl
    exact ⟨{ found with isMarked := mark }, rfl, hl.isLeftNode, hl.parent⟩
  · have hsorted : ((recent ++ e :: older).map Access.slot).Pairwise (fun i j => j < i) :=
      pairwise_map.mpr h.sorted
    have hsame : ((recent ++ { e with isMarked := mark } :: older).map Access.slot).Pairwise
        (fun i j => j < i) := by
      rw [map_append, map_cons] at hsorted ⊢
      exact hsorted
    exact pairwise_map.mp hsame
  · have hother : ∀ f : Access, f ∈ recent ++ e :: older → f.slot ≠ e.slot →
        ∃ leaf, (c.write ⟨0, e.slot⟩ { found with isMarked := mark }).tree 0 f.slot = some leaf ∧
          leaf.isMarked = f.isMarked := by
      intro f hf hne
      obtain ⟨node, hnode, hm⟩ := h.mark f hf
      exact ⟨node, (place_of_ne (fun heq => hne heq.2)).trans hnode, hm⟩
    intro f hf
    rcases mem_append.mp hf with hf | hf
    · exact hother f (mem_append_left _ hf) (hrecent f hf).ne'
    · rcases mem_cons.mp hf with rfl | hf
      · exact ⟨_, place_self c.tree ⟨0, e.slot⟩ _, rfl⟩
      · exact hother f (mem_append_right _ (mem_cons_of_mem e hf)) (holder f hf).ne

lemma Holds.getSumsLeavesToRoot (h : Holds c (recent ++ e :: older)) :
    c.getSumsLeavesToRoot ⟨0, e.slot⟩ = .ok recent.length := by
  have hin : e ∈ recent ++ e :: older := mem_append_right recent mem_cons_self
  have hmem : e.slot ∈ slots (recent ++ e :: older) := slot_mem_slots hin
  obtain ⟨leaf, hleaf, hl⟩ := h.idle.leaf e.slot hmem
  have hwalk := getSum_eq h.idle.inner 0 c.treeDepth 0 h.idle.depth_pos (Nat.zero_add _).ge
    (h.idle.path hmem (h.idle.le_pred hmem))
  rw [above_zero, Finset.card_empty, h.above_eq, Nat.zero_add, Nat.zero_add, Nat.zero_add, pow_one,
    pow_zero, Nat.div_one, ← hl.isLeftNode] at hwalk
  rw [StackDistCalc.getSumsLeavesToRoot, node_eq_ok hleaf]
  change (parentOf leaf >>= _) = _
  rw [hl.parentOf_eq]
  exact hwalk

/-! ## A new leaf -/

lemma Growing.newLeafNode (h : Growing c live 0) : Leaf c.index c.newLeafNode := by
  refine ⟨rfl, ?_⟩
  have hpath := h.path 0 le_rfl h.depth_pos
  rw [StackDistCalc.newLeafNode, h.nextIndex 0 h.depth_pos, if_neg (lt_irrefl 0),
    Nat.add_sub_cancel, find, if_pos hpath, Nat.zero_add, pow_one]

lemma Growing.linkLeaf (h : Growing c live 0) :
    ∃ c', c.linkLeaf.updateSumsLeavesToRoot ⟨0, c.index⟩ true = .ok (Infinity, c') ∧
      SumTree c' (c.index + 1) c.index (insert c.index live) ∧
      c' = { c.linkLeaf with tree := c'.tree } ∧
      c'.tree 0 = place c.tree ⟨0, c.index⟩ (some { c.newLeafNode with sumLeft := 1 }) 0 := by
  have hnew : c.index ∉ live := fun hi => lt_irrefl _ (h.lt _ hi)
  have hlinked : SumTree c.linkLeaf c.index c.index live :=
    h.ready.write_leaf (fun hi => (hnew hi).elim) rfl rfl
  have hpath : Path c.linkLeaf c.index 0 := by
    intro m _ hm
    exact hlinked.present m _ hm (div_mul_le_self _ _) (.inr (lt_succ_mul_two_pow _ _))
  have hleaf : c.linkLeaf.tree 0 c.index = some c.newLeafNode :=
    place_self c.tree ⟨0, c.index⟩ _
  obtain ⟨tree, heq, hupdated⟩ := walk_eq hlinked.inner hpath hlinked.depth_pos hlinked.shallow
    (moves_insert c.index live) false (by rintro ⟨⟩) { c.newLeafNode with sumLeft := 1 }
  have hcounted : Leaf c.index { c.newLeafNode with sumLeft := 1 } := ⟨rfl, h.newLeafNode.parent⟩
  rw [count_zero_of_mem (Finset.mem_insert_self _ _)] at heq
  refine ⟨{ c.linkLeaf with tree := tree }, ?_, ?_, rfl, ?_⟩
  · rw [updateSumsLeavesToRoot, node_eq_ok hleaf]
    change (parentOf c.newLeafNode >>= _) = _
    rw [h.newLeafNode.parentOf_eq]
    change (updateSum _ _ _ _ _ _ _ _ >>= _) = _
    exact bind_eq_ok_iff.mpr ⟨_, heq, rfl⟩
  · exact hlinked.insert_leaf hcounted hupdated rfl rfl
  · rw [show ({ c.linkLeaf with tree := tree } : StackDistCalc).tree 0 = tree 0 from rfl,
      hupdated.leaves]
    exact congrFun (place_place c.tree ⟨0, c.index⟩ _ _) 0

lemma SumTree.verifyUpdate (h : SumTree c (c.index + 1) c.index live) (hi : c.index ∈ live)
    {a : Addr} {dist : ℕ}
    (hdist : c.verifyStack = true → (verifyStackDist c.stack a true).1 = dist) :
    c.verifyUpdate a dist = .ok { c with
      stack := if c.verifyStack then (verifyStackDist c.stack a true).2 else c.stack } := by
  obtain ⟨leaf, hleaf, hl⟩ := h.leaf _ hi
  unfold StackDistCalc.verifyUpdate
  split
  · rename_i hverify
    rw [sanityCheckTree_eq h.inner (h.path hi le_rfl) h.depth_pos hleaf hl]
    change (panicIf ((verifyStackDist c.stack a true).1 != dist) >>= fun _ => _) = _
    rw [hdist hverify, bne_self_eq_false]
    rfl
  · rfl

lemma Holds.addLeaf (h : Holds c accesses) (hindex : c.index < 2 ^ 31) (a : Addr) {dist : ℕ}
    (hdist : c.verifyStack = true → (verifyStackDist c.stack a true).1 = dist) :
    ∃ c', c.addLeaf a dist = .ok c' ∧ Holds c' (⟨a, c.index, false⟩ :: accesses) ∧
      c'.index = c.index + 1 ∧ c'.aiMap = c.aiMap ∧ c'.verifyStack = c.verifyStack ∧
      c'.stack = if c.verifyStack then (verifyStackDist c.stack a true).2 else c.stack := by
  obtain ⟨c₁, hc₁, hgrowing, hframe⟩ := h.idle.makeRoom hindex
  obtain ⟨c₂, hc₂, htree, hfields, hleaves⟩ := hgrowing.linkLeaf
  have hindex₂ : c₂.index = c₁.index := by
    rw [hfields]
    rfl
  have hdepth₂ : c₂.treeDepth = c₁.treeDepth := by
    rw [hfields]
    rfl
  have hnext₂ : ∀ l, c₂.nextIndex (l + 1) = c₁.nextIndex (l + 1) := by
    intro l
    rw [hfields]
    exact Function.update_of_ne (succ_ne_zero l) (c₁.nextIndex 0 + 1) c₁.nextIndex
  have hverify₂ : c₂.verifyStack = c.verifyStack := by
    rw [hfields]
    exact hframe.verifyStack
  have hstack₂ : c₂.stack = c.stack := by
    rw [hfields]
    exact hframe.stack
  have hslots : slots (⟨a, c.index, false⟩ :: accesses) = insert c₁.index (slots accesses) := by
    rw [hframe.index, slots, map_cons, toFinset_cons]
    rfl
  rw [← hindex₂] at htree
  have hdist₂ : c₂.verifyStack = true → (verifyStackDist c₂.stack a true).1 = dist := by
    rw [hverify₂, hstack₂]
    exact hdist
  have hcheck := htree.verifyUpdate (Finset.mem_insert_self _ _) hdist₂
  have hgoal : c.addLeaf a dist = .ok { c₂ with
      stack := if c₂.verifyStack then (verifyStackDist c₂.stack a true).2 else c₂.stack
      index := c₂.index + 1 } := by
    rw [StackDistCalc.addLeaf, hc₁]
    change (c₁.linkLeaf.updateSumsLeavesToRoot ⟨0, c₁.index⟩ true >>= _) = _
    rw [hc₂]
    change (c₂.verifyUpdate a dist >>= _) = _
    rw [hcheck]
    rfl
  refine ⟨_, hgoal, ⟨⟨?_, ?_, ?_, ?_⟩, ?_, ?_⟩, ?_, ?_, hverify₂, ?_⟩
  · rw [hslots, ← hindex₂]
    exact ⟨htree.lt, htree.leaf, htree.inner, htree.present, htree.root, htree.rootOnly,
      htree.depth_pos, htree.shallow⟩
  · intro l hl
    change c₂.nextIndex (l + 1) = (c₂.index + 1 - 1) / 2 ^ (l + 1) + 1
    rw [hnext₂, Nat.add_sub_cancel, hgrowing.nextIndex l (hdepth₂ ▸ hl), if_neg (Nat.not_lt_zero l),
      hindex₂]
  · change c₂.index + 1 ≤ 2 ^ c₂.treeDepth
    rw [hindex₂, hdepth₂]
    exact hgrowing.fits
  · change c₂.treeDepth = 1 ∨ 2 ^ (c₂.treeDepth - 1) < c₂.index + 1
    rw [hindex₂, hdepth₂]
    exact hgrowing.tight.imp id lt_succ_of_le
  · refine pairwise_cons.mpr ⟨?_, h.sorted⟩
    intro f hf
    exact h.idle.lt f.slot (slot_mem_slots hf)
  · intro f hf
    change ∃ leaf, c₂.tree 0 f.slot = some leaf ∧ leaf.isMarked = f.isMarked
    rw [hleaves, hframe.index]
    rcases mem_cons.mp hf with rfl | hf
    · exact ⟨_, place_self c₁.tree ⟨0, c.index⟩ _, rfl⟩
    · obtain ⟨leaf, hleaf, hmark⟩ := h.mark f hf
      have hne := (h.idle.lt f.slot (slot_mem_slots hf)).ne
      refine ⟨leaf, ?_, hmark⟩
      rw [place_of_ne (fun heq => hne heq.2), hframe.leaves]
      exact hleaf
  · exact congrArg (· + 1) (hindex₂.trans hframe.index)
  · change c₂.aiMap = c.aiMap
    rw [hfields]
    exact hframe.aiMap
  · change (if c₂.verifyStack then (verifyStackDist c₂.stack a true).2 else c₂.stack) = _
    rw [hverify₂, hstack₂]

end BTBFerret.StackDistCalc
