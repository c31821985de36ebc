import BTBFerret.StackDistLeaves

/-!
# Stack distances

The calculator answers as a plain stack of addresses does: an access moves its address to the
top, a deletion takes it out, and the distance of an address is the number of addresses above
it. The debug stack of `verifyStack` is that plain stack as long as nothing is deleted from it.
-/

namespace BTBFerret

open FallibleRuns List Function

/-- The addresses in the stack with their marks, the last one inserted first. -/
abbrev LRUStack := List (Addr × Bool)

namespace LRUStack

/-- The number of addresses above `a`, and its mark. -/
def answer (s : LRUStack) (a : Addr) : Nat × Bool :=
  match s.find? (·.1 == a) with
  | some e => (s.findIdx (·.1 == a), e.2)
  | none => (StackDistCalc.Infinity, false)

def without (s : LRUStack) (a : Addr) : LRUStack := s.filter (·.1 != a)

def setMark (s : LRUStack) (a : Addr) (mark : Bool) : LRUStack :=
  s.map fun e => if e.1 == a then (a, mark) else e

def call (s : LRUStack) : StackDistCall → (Nat × Bool) × LRUStack
  | .calcStackDistAndUpdate a addNewNode =>
    (s.answer a, if addNewNode then (a, false) :: s.without a else s.without a)
  | .calcStackDist a mark => (s.answer a, s.setMark a mark)

end LRUStack

namespace StackDistCalc

variable {c : StackDistCalc} {accesses recent older : List Access} {e : Access} {a : Addr}

/-! ## The plain stack of the accesses -/

def toStack (accesses : List Access) : LRUStack := accesses.map fun e => (e.rAddress, e.isMarked)

lemma find_split {α : Type} {p : α → Bool} {before : List α} {x : α} (after : List α)
    (hbefore : ∀ y ∈ before, p y = false) (hx : p x = true) :
    (before ++ x :: after).find? p = some x ∧
      (before ++ x :: after).findIdx? p = some before.length ∧
      (before ++ x :: after).findIdx p = before.length := by
  induction before with
  | nil => simp [findIdx?_cons, findIdx_cons, hx]
  | cons y _ ih =>
    have hy := hbefore y mem_cons_self
    obtain ⟨hfind, hidx?, hidx⟩ := ih (fun z hz => hbefore z (mem_cons_of_mem y hz))
    simp [findIdx?_cons, findIdx_cons, hy, hfind, hidx?, hidx]

def Absent (a : Addr) (accesses : List Access) : Prop := ∀ f ∈ accesses, f.rAddress ≠ a

structure Split (a : Addr) (recent : List Access) (e : Access) (older : List Access) : Prop where
  here : e.rAddress = a
  recent : Absent a recent
  older : Absent a older

lemma Absent.ne (h : Absent a accesses) {y : Addr × Bool} (hy : y ∈ toStack accesses) :
    y.1 ≠ a := by
  obtain ⟨f, hf, rfl⟩ := mem_map.mp hy
  exact h f hf

lemma Absent.answer_eq (h : Absent a accesses) :
    (toStack accesses).answer a = (Infinity, false) := by
  have hnone : (toStack accesses).find? (·.1 == a) = none := by
    rw [find?_eq_none]
    intro y hy heq
    exact h.ne hy (beq_iff_eq.mp heq)
  rw [LRUStack.answer, hnone]

lemma Absent.without_eq (h : Absent a accesses) :
    (toStack accesses).without a = toStack accesses :=
  filter_eq_self.mpr (fun _ hy => bne_iff_ne.mpr (h.ne hy))

lemma Absent.setMark_eq (h : Absent a accesses) (mark : Bool) :
    (toStack accesses).setMark a mark = toStack accesses := by
  refine (map_congr_left ?_).trans (map_id _)
  intro y hy
  exact if_neg (mt beq_iff_eq.mp (h.ne hy))

lemma toStack_split (recent : List Access) (e : Access) (older : List Access) :
    toStack (recent ++ e :: older) = toStack recent ++ (e.rAddress, e.isMarked) :: toStack older :=
  map_append

lemma Split.answer_eq (h : Split a recent e older) :
    (toStack (recent ++ e :: older)).answer a = (recent.length, e.isMarked) := by
  have hhere : ((e.rAddress, e.isMarked).1 == a) = true := beq_iff_eq.mpr h.here
  obtain ⟨hfind, _, hidx⟩ := find_split (toStack older)
    (fun y hy => beq_eq_false_iff_ne.mpr (h.recent.ne hy)) hhere
  rw [toStack_split, LRUStack.answer, hfind, hidx, toStack, length_map]

lemma Split.without_eq (h : Split a recent e older) :
    (toStack (recent ++ e :: older)).without a = toStack (recent ++ older) := by
  have hhere : ¬ ((e.rAddress, e.isMarked).1 != a) = true := by
    rw [bne_iff_ne]
    exact not_not.mpr h.here
  rw [toStack_split, LRUStack.without, filter_append, filter_cons, if_neg hhere]
  change (toStack recent).without a ++ (toStack older).without a = _
  rw [h.recent.without_eq, h.older.without_eq]
  exact map_append.symm

lemma Split.setMark_eq (h : Split a recent e older) (mark : Bool) :
    (toStack (recent ++ e :: older)).setMark a mark =
      toStack (recent ++ { e with isMarked := mark } :: older) := by
  rw [toStack_split, toStack_split, LRUStack.setMark, map_append, map_cons]
  change (toStack recent).setMark a mark ++ _ :: (toStack older).setMark a mark = _
  rw [h.recent.setMark_eq, h.older.setMark_eq, if_pos (beq_iff_eq.mpr h.here), h.here]

/-! ## The debug stack -/

lemma Absent.verifyStackDist_eq (h : Absent a accesses) (update : Bool) :
    verifyStackDist (accesses.map Access.rAddress) a update =
      (Infinity, if update then a :: accesses.map Access.rAddress
        else accesses.map Access.rAddress) := by
  have hnone : (accesses.map Access.rAddress).findIdx? (· == a) = none := by
    rw [findIdx?_eq_none_iff]
    intro y hy
    obtain ⟨f, hf, rfl⟩ := mem_map.mp hy
    exact beq_eq_false_iff_ne.mpr (h f hf)
  rw [verifyStackDist, hnone]

lemma Split.verifyStackDist_eq (h : Split a recent e older) (update : Bool) :
    verifyStackDist ((recent ++ e :: older).map Access.rAddress) a update =
      (recent.length, if update then a :: (recent ++ older).map Access.rAddress
        else (recent ++ e :: older).map Access.rAddress) := by
  have hrecent : ∀ y ∈ recent.map Access.rAddress, (y == a) = false := by
    intro y hy
    obtain ⟨f, hf, rfl⟩ := mem_map.mp hy
    exact beq_eq_false_iff_ne.mpr (h.recent f hf)
  obtain ⟨_, hidx, _⟩ := find_split (older.map Access.rAddress) hrecent (beq_iff_eq.mpr h.here)
  have herase : (recent.map Access.rAddress ++ e.rAddress :: older.map Access.rAddress).eraseIdx
      (recent.map Access.rAddress).length = (recent ++ older).map Access.rAddress := by
    rw [eraseIdx_append_of_length_le le_rfl, Nat.sub_self, map_append]
    rfl
  rw [map_append, map_cons, verifyStackDist, hidx]
  dsimp only
  rw [herase, length_map]

/-! ## Slots of the addresses -/

def Tracks (aiMap : Addr → Option ℕ) (accesses : List Access) : Prop :=
  ∀ a i, aiMap a = some i ↔ ∃ e ∈ accesses, e.rAddress = a ∧ e.slot = i

variable {aiMap : Addr → Option ℕ} {others : List Access}

def Others (a : Addr) (accesses others : List Access) : Prop :=
  ∀ f, f ∈ others ↔ f ∈ accesses ∧ f.rAddress ≠ a

lemma others_of_absent (h : Absent a accesses) : Others a accesses accesses :=
  fun f => ⟨fun hf => ⟨hf, h f hf⟩, And.left⟩

lemma others_of_split (h : Split a recent e older) :
    Others a (recent ++ e :: older) (recent ++ older) := by
  intro f
  simp only [mem_append, mem_cons]
  constructor
  · rintro (hf | hf)
    · exact ⟨.inl hf, h.recent f hf⟩
    · exact ⟨.inr (.inr hf), h.older f hf⟩
  · rintro ⟨hf | rfl | hf, hne⟩
    · exact .inl hf
    · exact (hne h.here).elim
    · exact .inr hf

lemma Tracks.drop (h : Tracks aiMap accesses) (hothers : Others a accesses others) :
    Tracks (Function.update aiMap a none) others := by
  intro b i
  by_cases hb : b = a
  · subst hb
    rw [update_self]
    constructor
    · rintro ⟨⟩
    · rintro ⟨f, hf, hfb, _⟩
      exact (((hothers f).mp hf).2 hfb).elim
  · rw [update_of_ne hb, h b i]
    constructor
    · rintro ⟨f, hf, hfb, hfi⟩
      exact ⟨f, (hothers f).mpr ⟨hf, fun hfa => hb (hfb.symm.trans hfa)⟩, hfb, hfi⟩
    · rintro ⟨f, hf, hfb, hfi⟩
      exact ⟨f, ((hothers f).mp hf).1, hfb, hfi⟩

lemma Tracks.add (h : Tracks aiMap accesses) (hothers : Others a accesses others) (i : ℕ)
    (mark : Bool) : Tracks (Function.update aiMap a (some i)) (⟨a, i, mark⟩ :: others) := by
  intro b j
  by_cases hb : b = a
  · subst hb
    rw [update_self]
    constructor
    · intro hij
      exact ⟨_, mem_cons_self, rfl, Option.some.inj hij⟩
    · rintro ⟨f, hf, hfb, rfl⟩
      rcases mem_cons.mp hf with rfl | hf
      · rfl
      · exact (((hothers f).mp hf).2 hfb).elim
  · have hdrop := h.drop hothers b j
    rw [update_of_ne hb] at hdrop ⊢
    rw [hdrop]
    constructor
    · rintro ⟨f, hf, hfb, hfj⟩
      exact ⟨f, mem_cons_of_mem _ hf, hfb, hfj⟩
    · rintro ⟨f, hf, hfb, hfj⟩
      rcases mem_cons.mp hf with rfl | hf
      · exact (hb hfb.symm).elim
      · exact ⟨f, hf, hfb, hfj⟩

lemma Tracks.setMark (h : Tracks aiMap (recent ++ e :: older)) (mark : Bool) :
    Tracks aiMap (recent ++ { e with isMarked := mark } :: older) := by
  intro a i
  rw [h a i]
  simp only [mem_append, mem_cons]
  constructor
  · rintro ⟨f, hf | rfl | hf, hfa, hfi⟩
    · exact ⟨f, .inl hf, hfa, hfi⟩
    · exact ⟨_, .inr (.inl rfl), hfa, hfi⟩
    · exact ⟨f, .inr (.inr hf), hfa, hfi⟩
  · rintro ⟨f, hf | rfl | hf, hfa, hfi⟩
    · exact ⟨f, .inl hf, hfa, hfi⟩
    · exact ⟨e, .inr (.inl rfl), hfa, hfi⟩
    · exact ⟨f, .inr (.inr hf), hfa, hfi⟩

/-! ## One call -/

structure Represents (c : StackDistCalc) (accesses : List Access) : Prop where
  holds : Holds c accesses
  nodup : (accesses.map Access.rAddress).Nodup
  tracks : Tracks c.aiMap accesses

def Mirrors (c : StackDistCalc) (accesses : List Access) : Prop :=
  c.verifyStack = true → c.stack = accesses.map Access.rAddress

lemma Holds.setAiMap (h : Holds c accesses) (aiMap : Addr → Option ℕ) :
    Holds { c with aiMap := aiMap } accesses :=
  have tree := h.idle.toSumTree
  ⟨⟨⟨tree.lt, tree.leaf, tree.inner, tree.present, tree.root, tree.rootOnly, tree.depth_pos,
    tree.shallow⟩, h.idle.nextIndex, h.idle.fits, h.idle.tight⟩, h.sorted, h.mark⟩

lemma Represents.absent_or_split (h : Represents c accesses) (a : Addr) :
    c.aiMap a = none ∧ Absent a accesses ∨ ∃ recent e older, accesses = recent ++ e :: older ∧
      Split a recent e older ∧ c.aiMap a = some e.slot := by
  cases hm : c.aiMap a with
  | none =>
    left
    refine ⟨rfl, ?_⟩
    intro f hf hfa
    have hsome := (h.tracks a f.slot).mpr ⟨f, hf, hfa, rfl⟩
    rw [hm] at hsome
    cases hsome
  | some i =>
    right
    obtain ⟨e, he, rfl, rfl⟩ := (h.tracks a i).mp hm
    obtain ⟨recent, older, rfl⟩ := append_of_mem he
    refine ⟨recent, e, older, rfl, ⟨rfl, ?_, ?_⟩, rfl⟩
    · have hnodup := h.nodup
      rw [map_append, map_cons, nodup_append] at hnodup
      intro f hf
      exact hnodup.2.2 _ (mem_map_of_mem hf) _ mem_cons_self
    · have hnodup := h.nodup
      rw [map_append, map_cons, nodup_append, nodup_cons] at hnodup
      intro f hf heq
      exact hnodup.2.1.1 (heq ▸ mem_map_of_mem hf)

structure Removed (c : StackDistCalc) (accesses : List Access) (a : Addr)
    (aiMap : Addr → Option ℕ) (c₁ : StackDistCalc) (others : List Access) : Prop where
  holds : Holds c₁ others
  only : Others a accesses others
  same : c.aiMap a = none → others = accesses
  plain : toStack others = (toStack accesses).without a
  nodup : (others.map Access.rAddress).Nodup
  aiMap : c₁.aiMap = aiMap
  index : c₁.index = c.index
  stack : c₁.stack = c.stack
  verifyStack : c₁.verifyStack = c.verifyStack
  debug : verifyStackDist (accesses.map Access.rAddress) a true =
    (((toStack accesses).answer a).1, a :: others.map Access.rAddress)

lemma Represents.removeOld (h : Represents c accesses) (a : Addr) (add : Bool) :
    ∃ c₁ others, c.removeOld a add = .ok ((toStack accesses).answer a, c₁) ∧
      Removed c accesses a (Function.update c.aiMap a (if add then some c.index else none)) c₁
        others := by
  rcases h.absent_or_split a with ⟨hnone, habsent⟩ | ⟨recent, e, older, rfl, hsplit, hsome⟩
  · refine ⟨{ c with aiMap := if add then update c.aiMap a (some c.index) else c.aiMap },
      accesses, ?_, h.holds.setAiMap _, others_of_absent habsent, fun _ => rfl,
      habsent.without_eq.symm, h.nodup, ?_, rfl, rfl, rfl, ?_⟩
    · rw [StackDistCalc.removeOld, hnone, habsent.answer_eq]
    · cases add with
      | true => rfl
      | false =>
        change c.aiMap = update c.aiMap a none
        rw [← hnone, update_eq_self]
    · rw [habsent.verifyStackDist_eq, habsent.answer_eq]
      rfl
  · generalize hmap : update c.aiMap a (if add then some c.index else none) = aiMap
    obtain ⟨c', leaf, hremove, hleaf, hmark, hholds, hrest⟩ := (h.holds.setAiMap aiMap).removeLeaf
    refine ⟨c'.erase ⟨0, e.slot⟩, recent ++ older, ?_, hholds, others_of_split hsplit,
      (by rw [hsome]; rintro ⟨⟩), hsplit.without_eq.symm, ?_, hrest.aiMap, hrest.index, hrest.stack,
        hrest.verifyStack, ?_⟩
    · rw [StackDistCalc.removeOld, hsome, hsplit.answer_eq, ← hmark]
      dsimp only
      rw [hmap]
      refine bind_eq_ok_iff.mpr ⟨_, hremove, bind_eq_ok_iff.mpr ⟨leaf, hleaf, rfl⟩⟩
    · have hsub : (recent ++ older).Sublist (recent ++ e :: older) :=
        List.Sublist.append_left (sublist_cons_self e older) recent
      exact h.nodup.sublist (hsub.map Access.rAddress)
    · rw [hsplit.verifyStackDist_eq, hsplit.answer_eq]
      rfl

def DeletesNothing (c : StackDistCalc) : StackDistCall → Prop
  | .calcStackDistAndUpdate a addNewNode => addNewNode = true ∨ c.aiMap a = none
  | .calcStackDist _ _ => True

structure Called (c : StackDistCalc) (accesses : List Access) (call : StackDistCall)
    (c' : StackDistCalc) (accesses' : List Access) : Prop where
  represents : Represents c' accesses'
  plain : toStack accesses' = ((toStack accesses).call call).2
  index : c'.index ≤ c.index + 1
  verifyStack : c'.verifyStack = c.verifyStack
  mirrors : Mirrors c' accesses'

section

variable (h : Represents c accesses)

include h

lemma Represents.calcStackDistAndUpdate (hindex : c.index < 2 ^ 31)
    (hmirrors : Mirrors c accesses) (a : Addr) (add : Bool)
    (hdelete : c.verifyStack = true → add = true ∨ c.aiMap a = none) :
    ∃ c' accesses', c.calcStackDistAndUpdate a add = .ok ((toStack accesses).answer a, c') ∧
      Called c accesses (.calcStackDistAndUpdate a add) c' accesses' := by
  obtain ⟨c₁, others, hremove, hremoved⟩ := h.removeOld a add
  cases add with
  | true =>
    have hdist : c₁.verifyStack = true →
        (verifyStackDist c₁.stack a true).1 = ((toStack accesses).answer a).1 := by
      intro hverify
      rw [hremoved.stack, hmirrors (hremoved.verifyStack.symm.trans hverify), hremoved.debug]
    obtain ⟨c₂, hadd, hholds, hindex₂, haiMap, hverify, hstack⟩ :=
      hremoved.holds.addLeaf (hremoved.index.symm ▸ hindex) a hdist
    refine ⟨c₂, ⟨a, c₁.index, false⟩ :: others, ?_, ⟨hholds, ?_, ?_⟩, ?_, ?_, ?_, ?_⟩
    · refine bind_eq_ok_iff.mpr ⟨_, hremove, bind_eq_ok_iff.mpr ⟨c₂, hadd, rfl⟩⟩
    · refine nodup_cons.mpr ⟨?_, hremoved.nodup⟩
      intro hmem
      obtain ⟨f, hf, hfa⟩ := mem_map.mp hmem
      exact ((hremoved.only f).mp hf).2 hfa
    · rw [haiMap, hremoved.aiMap, hremoved.index]
      exact h.tracks.add hremoved.only c.index false
    · exact congrArg ((a, false) :: ·) hremoved.plain
    · rw [hindex₂, hremoved.index]
    · exact hverify.trans hremoved.verifyStack
    · intro hon
      rw [hverify] at hon
      rw [hstack, if_pos hon, hremoved.stack,
        hmirrors (hremoved.verifyStack.symm.trans hon), hremoved.debug]
      rfl
  | false =>
    refine ⟨c₁, others, bind_eq_ok_iff.mpr ⟨_, hremove, rfl⟩,
      ⟨hremoved.holds, hremoved.nodup, ?_⟩, hremoved.plain, ?_, hremoved.verifyStack, ?_⟩
    · rw [hremoved.aiMap]
      exact h.tracks.drop hremoved.only
    · rw [hremoved.index]
      exact Nat.le_succ _
    · intro hon
      rw [hremoved.verifyStack] at hon
      rcases hdelete hon with hadd | hnone
      · cases hadd
      · rw [hremoved.stack, hmirrors hon, hremoved.same hnone]

lemma Represents.inspect (a : Addr) (mark : Bool) :
    ∃ c' accesses', c.inspect a mark = .ok ((toStack accesses).answer a, c') ∧
      Represents c' accesses' ∧ toStack accesses' = (toStack accesses).setMark a mark ∧
      accesses'.map Access.rAddress = accesses.map Access.rAddress ∧ Rest c c' ∧
      (verifyStackDist (accesses.map Access.rAddress) a false).1 =
        ((toStack accesses).answer a).1 := by
  rcases h.absent_or_split a with ⟨hnone, habsent⟩ | ⟨recent, e, older, rfl, hsplit, hsome⟩
  · refine ⟨c, accesses, ?_, h, (habsent.setMark_eq mark).symm, rfl, ⟨rfl, rfl, rfl, rfl⟩, ?_⟩
    · rw [StackDistCalc.inspect, hnone, habsent.answer_eq]
    · rw [habsent.verifyStackDist_eq, habsent.answer_eq]
  · obtain ⟨leaf, hleaf, hmark⟩ := h.holds.mark e (mem_append_right recent mem_cons_self)
    have hholds := h.holds.setMark hleaf mark
    have hsame : (recent ++ { e with isMarked := mark } :: older).map Access.rAddress =
        (recent ++ e :: older).map Access.rAddress := by
      rw [map_append, map_append, map_cons, map_cons]
    refine ⟨c.write ⟨0, e.slot⟩ { leaf with isMarked := mark },
      recent ++ { e with isMarked := mark } :: older, ?_, ⟨hholds, ?_, h.tracks.setMark mark⟩,
      (hsplit.setMark_eq mark).symm, hsame, ⟨rfl, rfl, rfl, rfl⟩, ?_⟩
    · rw [StackDistCalc.inspect, hsome, hsplit.answer_eq, ← hmark]
      refine bind_eq_ok_iff.mpr ⟨leaf, node_eq_ok hleaf, ?_⟩
      exact bind_eq_ok_iff.mpr ⟨recent.length, hholds.getSumsLeavesToRoot, rfl⟩
    · rw [hsame]
      exact h.nodup
    · rw [hsplit.verifyStackDist_eq, hsplit.answer_eq]

lemma Represents.calcStackDist (hmirrors : Mirrors c accesses)
    (a : Addr) (mark : Bool) :
    ∃ c' accesses', c.calcStackDist a mark = .ok ((toStack accesses).answer a, c') ∧
      Called c accesses (.calcStackDist a mark) c' accesses' := by
  obtain ⟨c', accesses', hinspect, hrepresents, hplain, hsame, hrest, hdebug⟩ := h.inspect a mark
  have hkept : Mirrors c' accesses' := by
    intro hon
    rw [hrest.stack, hsame]
    exact hmirrors (hrest.verifyStack.symm.trans hon)
  refine ⟨c', accesses', ?_, hrepresents, hplain, ?_, hrest.verifyStack, hkept⟩
  · refine bind_eq_ok_iff.mpr ⟨_, hinspect, ?_⟩
    dsimp only
    split
    · rename_i hon
      rw [hkept hon, hsame, hdebug, bne_self_eq_false]
      rfl
    · rfl
  · rw [hrest.index]
    exact Nat.le_succ _

lemma Represents.call (hindex : c.index < 2 ^ 31)
    (hmirrors : Mirrors c accesses) (call : StackDistCall)
    (hdelete : c.verifyStack = true → DeletesNothing c call) :
    ∃ c' accesses', c.call call = .ok (((toStack accesses).call call).1, c') ∧
      Called c accesses call c' accesses' := by
  cases call with
  | calcStackDistAndUpdate a add => exact h.calcStackDistAndUpdate hindex hmirrors a add hdelete
  | calcStackDist a mark => exact h.calcStackDist hmirrors a mark

end

/-! ## Runs of calls -/

lemma init_root {verifyStack : Bool} {k : ℕ} {node : Node}
    (h : (init verifyStack).tree 1 k = some node) : k = 0 ∧ node = {} := by
  by_cases hk : k = 0
  · subst hk
    exact ⟨rfl, (Option.some.inj h).symm⟩
  · have hnone : (init verifyStack).tree 1 k = none := if_neg (fun heq => hk heq.2)
    rw [hnone] at h
    cases h

lemma idle_init (verifyStack : Bool) : Idle (init verifyStack) ∅ := by
  refine ⟨⟨?_, ?_, ?_, ?_, rfl, ?_, Nat.one_pos, Nat.one_le_ofNat⟩, ?_, Nat.zero_le _, .inl rfl⟩
  · intro i hi
    exact (Finset.notMem_empty i hi).elim
  · intro i hi
    exact (Finset.notMem_empty i hi).elim
  · intro l k node hl hnode
    obtain rfl : l = 0 := Nat.lt_one_iff.mp hl
    obtain ⟨rfl, rfl⟩ := init_root hnode
    exact ⟨rfl, rfl, rfl, rfl, rfl, (by rintro ⟨⟩), (by rintro ⟨⟩)⟩
  · intro l k hl hlast _
    obtain rfl : l = 0 := Nat.lt_one_iff.mp hl
    obtain rfl : k = 0 := by
      change k * 2 ^ (0 + 1) ≤ 0 at hlast
      omega
    rfl
  · intro k hk
    obtain ⟨node, hnode⟩ := Option.isSome_iff_exists.mp hk
    exact (init_root hnode).1
  · intro l hl
    obtain rfl : l = 0 := Nat.lt_one_iff.mp hl
    change 1 = (0 - 1) / 2 ^ 1 + 1
    norm_num

lemma represents_init (verifyStack : Bool) : Represents (init verifyStack) [] where
  holds := ⟨idle_init verifyStack, List.Pairwise.nil, by rintro e ⟨⟩⟩
  nodup := List.nodup_nil
  tracks := by
    intro a i
    constructor
    · rintro ⟨⟩
    · rintro ⟨e, ⟨⟩, _⟩

lemma mirrors_init (verifyStack : Bool) : Mirrors (init verifyStack) [] := fun _ => rfl

/-- Every sequence of calls is answered as by the plain stack of addresses. -/
theorem stack_distances_correct (calls : List StackDistCall) (hcalls : calls.length < 2 ^ 31) :
    answers StackDistCalc.call (init false) calls = .ok (expected LRUStack.call [] calls) := by
  -- the relation counts the calls, which bounds the index
  let R : ℕ → StackDistCalc → LRUStack → Prop := fun n c s =>
    ∃ accesses, Represents c accesses ∧ toStack accesses = s ∧ c.index ≤ n ∧
      Mirrors c accesses ∧ c.verifyStack = false
  have hkeep : ∀ n c s call, n < 2 ^ 31 → R n c s →
      ∃ c', StackDistCalc.call c call = .ok ((LRUStack.call s call).1, c') ∧
        R (n + 1) c' (LRUStack.call s call).2 := by
    rintro n c s call hn ⟨accesses, hrepresents, rfl, hindex, hmirrors, hoff⟩
    obtain ⟨c', accesses', hcall, hcalled⟩ := hrepresents.call (by omega) hmirrors call
      (fun hon => by rw [hoff] at hon; cases hon)
    exact ⟨c', hcall, accesses', hcalled.represents, hcalled.plain,
      hcalled.index.trans (Nat.succ_le_succ hindex), hcalled.mirrors,
        hcalled.verifyStack.trans hoff⟩
  have hstart : R 0 (init false) [] :=
    ⟨[], represents_init false, rfl, Nat.zero_le 0, mirrors_init false, rfl⟩
  exact answers_eq_expected R hkeep hstart (by omega)

def sampleCalls : List StackDistCall :=
  [.calcStackDistAndUpdate 8 true, .calcStackDistAndUpdate 16 true, .calcStackDist 8 true,
    .calcStackDistAndUpdate 8 true]

/-- The second access to 8 is at distance 1, and marked from then on. -/
theorem stack_distances_correct_sample :
    answers StackDistCalc.call (init false) sampleCalls =
      .ok [(Infinity, false), (Infinity, false), (1, false), (1, true)] :=
  stack_distances_correct sampleCalls (by decide)

/-! ## Verification of the stack -/

def step (c : StackDistCalc) (call : StackDistCall) : Except StackDistFault StackDistCalc :=
  Prod.snd <$> c.call call

instance (c : StackDistCalc) (call : StackDistCall) : Decidable (DeletesNothing c call) := by
  cases call with
  | calcStackDistAndUpdate => exact inferInstanceAs (Decidable (_ ∨ _))
  | calcStackDist => exact inferInstanceAs (Decidable True)

/-- As long as no address is deleted from the stack, the debug stack agrees with the tree. -/
theorem stack_verification_passes (calls : List StackDistCall) (hcalls : calls.length < 2 ^ 30)
    (hdelete : Along step DeletesNothing (init true) calls) :
    ∃ c, run step (init true) calls = .ok c := by
  let I : ℕ → StackDistCalc → Prop := fun n c =>
    ∃ accesses, Represents c accesses ∧ c.index ≤ n ∧ Mirrors c accesses
  have hkeep : ∀ n c call, n < 2 ^ 31 → I n c → DeletesNothing c call →
      ∃ c', step c call = .ok c' ∧ I (n + 1) c' := by
    rintro n c call hn ⟨accesses, hrepresents, hindex, hmirrors⟩ hcond
    obtain ⟨c', accesses', hcall, hcalled⟩ := hrepresents.call (by omega) hmirrors call
      (fun _ => hcond)
    exact ⟨c', map_eq_ok_iff.mpr ⟨_, hcall, rfl⟩, accesses', hcalled.represents,
      hcalled.index.trans (Nat.succ_le_succ hindex), hcalled.mirrors⟩
  have hstart : I 0 (init true) := ⟨[], represents_init true, Nat.zero_le 0, mirrors_init true⟩
  obtain ⟨c, hrun, _⟩ := run_returns I hkeep hstart hdelete (by omega)
  exact ⟨c, hrun⟩

/-- The verified run of the same calls does not panic. -/
theorem stack_verification_passes_sample : ∃ c, run step (init true) sampleCalls = .ok c :=
  stack_verification_passes sampleCalls (by decide)
    (along_of_test DeletesNothing (by decide +kernel))

/-- A deleted address stays in the debug stack. -/
theorem stack_verification_panics :
    run step (init true) [.calcStackDistAndUpdate 8 true, .calcStackDistAndUpdate 8 false,
      .calcStackDist 8 false] = .error .panic :=
  rfl

end StackDistCalc

end BTBFerret
