import BTBFerret.CommitSquash

/-!
# Whose violation a load was squashed for

A thread is settled, and each load that a squash has covered is marked as the last of these says, or
its list is being walked, and this holds above the iterator and for what the squash leaves alone.
This needs that the squash is carried out with its own cause, which the loop over the threads does
not ensure, and that nothing enters the list behind the iterator.
-/

namespace BTBFerret.CommitSquash

open FallibleRuns List DynInst Thread

def lastCause (squashes : List Squash) (seqNum : Nat) : Option Bool :=
  (squashes.find? fun squash => decide (squash.number < seqNum)).map Squash.memOrder

variable {seqNum : Nat}

lemma lastCause_cons_of_lt {squash : Squash} (h : squash.number < seqNum)
    (squashes : List Squash) :
    lastCause (squash :: squashes) seqNum = some squash.memOrder := by
  unfold lastCause
  rw [find?_cons_of_pos (by simpa using h)]
  rfl

lemma lastCause_cons_of_le {squash : Squash} (h : seqNum ≤ squash.number)
    (squashes : List Squash) :
    lastCause (squash :: squashes) seqNum = lastCause squashes seqNum := by
  unfold lastCause
  rw [find?_cons_of_neg (by simpa using h)]

def Right (squashes : List Squash) (inst : DynInst) : Prop :=
  inst.isLoad = true → inst.covered = true →
    (inst.squashedDueToMemOrder = true ↔ lastCause squashes inst.seqNum = some true)

structure Listed (last : Nat) (instList : List DynInst) : Prop where
  sorted : (instList.map DynInst.seqNum).Pairwise (· < ·)
  newer : ∀ inst ∈ instList, last < inst.seqNum
  covered : ∀ inst ∈ instList, inst.squashed = true → inst.covered = true

variable {last k : Nat}

lemma Listed.lt_of_lt {l : List DynInst} (h : Listed last l) {j : Nat} {a b : DynInst}
    (hjk : j < k) (ha : l[j]? = some a) (hb : l[k]? = some b) : a.seqNum < b.seqNum := by
  obtain ⟨hj, rfl⟩ := List.getElem?_eq_some_iff.mp ha
  obtain ⟨hk, rfl⟩ := List.getElem?_eq_some_iff.mp hb
  have hlt := List.pairwise_iff_getElem.mp h.sorted j k (by simpa using hj) (by simpa using hk) hjk
  simpa using hlt

/-- A walk that has come down to the entry `k`, for a squash with the number `n`. -/
structure Walking (squashes : List Squash) (n : Nat) (memOrder : Bool) (instList : List DynInst)
    (k : Nat) : Prop where
  inside : k < instList.length
  cause : ∃ before, squashes = ⟨n, memOrder⟩ :: before
  covered : ∀ inst ∈ instList, n < inst.seqNum → inst.covered = true
  right : ∀ j inst, instList[j]? = some inst → k < j ∨ inst.seqNum ≤ n → Right squashes inst

/-- The squash with the number `n` has come to an end or is under way. -/
def Progress (n : Nat) (memOrder : Bool) (th : Thread) : Prop :=
  th.doneSquashing = true ∧ (∀ inst ∈ th.instList, Right th.squashes inst) ∨
  th.doneSquashing = false ∧ th.squashedSeqNum = n ∧
    ∃ k, th.squashIt = some k ∧ Walking th.squashes n memOrder th.instList k

/-- The same instructions, and the rest of the thread as it was. -/
structure Frame (th th' : Thread) : Prop where
  seqNums : th'.instList.map DynInst.seqNum = th.instList.map DynInst.seqNum
  commitStatus : th'.commitStatus = th.commitStatus
  youngest : th'.youngestSeqNum = th.youngestSeqNum
  last : th'.lastCommitedSeqNum = th.lastCommitedSeqNum
  squashes : th'.squashes = th.squashes

/-! ## The walk -/

variable {inst : DynInst}

section

variable {squashes : List Squash} {n k : Nat} {memOrder : Bool} {l : List DynInst}

lemma Walking.lastCause (h : Walking squashes n memOrder l k) (hn : n < seqNum) :
    lastCause squashes seqNum = some memOrder := by
  obtain ⟨before, rfl⟩ := h.cause
  exact lastCause_cons_of_lt hn before

/-- Below an entry that the squash leaves alone, it leaves everything alone. -/
lemma Walking.right_of_le (h : Walking squashes n memOrder l k) (hlisted : Listed last l)
    (hk : l[k]? = some inst) (hle : inst.seqNum ≤ n) : ∀ i ∈ l, Right squashes i := by
  intro i hi
  obtain ⟨j, hj⟩ := mem_iff_getElem?.mp hi
  rcases Nat.lt_trichotomy j k with hlt | rfl | hlt
  · exact h.right j i hj (.inr ((hlisted.lt_of_lt hlt hj hk).le.trans hle))
  · rw [hk] at hj
    cases hj
    exact h.right _ _ hk (.inr hle)
  · exact h.right j i hj (.inl hlt)

lemma map_seqNum_set {inst' : DynInst} (hk : l[k]? = some inst)
    (hseq : inst'.seqNum = inst.seqNum) :
    (l.set k inst').map DynInst.seqNum = l.map DynInst.seqNum := by
  rw [map_set, hseq]
  refine ext_getElem? fun j => ?_
  rw [getElem?_set]
  by_cases hj : k = j
  · subst hj
    obtain ⟨hlt, rfl⟩ := List.getElem?_eq_some_iff.mp hk
    simp [hlt]
  · rw [if_neg hj]

lemma Walking.squashInst (h : Walking squashes n memOrder l k)
    (hcleared : memOrder = false → ∀ i ∈ l, n < i.seqNum → i.squashedDueToMemOrder = false)
    (hk : l[k]? = some inst) (hn : n < inst.seqNum) :
    ∀ j i, (l.set k (squashInst memOrder inst))[j]? = some i →
      k ≤ j ∨ i.seqNum ≤ n → Right squashes i := by
  intro j i hj hor
  rw [getElem?_set] at hj
  by_cases hjk : k = j
  · subst hjk
    rw [if_pos rfl, if_pos h.inside] at hj
    cases hj
    intro hload _
    change (if inst.isLoad && memOrder then true else inst.squashedDueToMemOrder) = true ↔
      CommitSquash.lastCause squashes inst.seqNum = some true
    have hload : inst.isLoad = true := hload
    rw [h.lastCause hn, hload]
    cases memOrder
    · simp [hcleared rfl inst (mem_of_getElem? hk) hn]
    · simp
  · rw [if_neg hjk] at hj
    exact h.right j i hj (hor.imp_left fun hle => lt_of_le_of_ne hle hjk)

lemma Listed.squashInst (h : Listed last l) (hk : l[k]? = some inst)
    (hcovered : inst.covered = true) : Listed last (l.set k (Thread.squashInst memOrder inst)) where
  sorted := by
    have hseqs : (l.set k (Thread.squashInst memOrder inst)).map DynInst.seqNum =
        l.map seqNum := map_seqNum_set hk rfl
    rw [hseqs]
    exact h.sorted
  newer i hi := by
    rcases mem_or_eq_of_mem_set hi with hi | rfl
    · exact h.newer i hi
    · exact h.newer inst (mem_of_getElem? hk)
  covered i hi hs := by
    rcases mem_or_eq_of_mem_set hi with hi | rfl
    · exact h.covered i hi hs
    · exact hcovered

lemma squashLoop_spec (rounds : Nat) : ∀ {l : List DynInst} {k : Nat},
    Listed last l → Walking squashes n memOrder l k →
    (memOrder = false → ∀ i ∈ l, n < i.seqNum → i.squashedDueToMemOrder = false) →
    (Thread.squashLoop n memOrder rounds l k).1.map DynInst.seqNum = l.map DynInst.seqNum ∧
      Listed last (Thread.squashLoop n memOrder rounds l k).1 ∧
      match (squashLoop n memOrder rounds l k).2 with
      | none => ∀ i ∈ (squashLoop n memOrder rounds l k).1, Right squashes i
      | some k' => Walking squashes n memOrder (squashLoop n memOrder rounds l k).1 k' := by
  induction rounds with
  | zero => exact fun hlisted h _ => ⟨rfl, hlisted, h⟩
  | succ _ ih =>
    intro l k hlisted h hcleared
    unfold squashLoop
    obtain ⟨inst, hk⟩ : ∃ inst, l[k]? = some inst := ⟨_, getElem?_eq_getElem h.inside⟩
    rw [hk]
    dsimp only
    by_cases hn : n < inst.seqNum
    · rw [if_pos hn]
      have hcovered := h.covered inst (mem_of_getElem? hk) hn
      have hlisted' : Listed last (l.set k (squashInst memOrder inst)) :=
        hlisted.squashInst hk hcovered
      have hseqs : (l.set k (squashInst memOrder inst)).map seqNum =
          l.map seqNum := map_seqNum_set hk rfl
      have hright := h.squashInst hcleared hk hn
      cases k with
      | zero =>
        refine ⟨hseqs, hlisted', fun i hi => ?_⟩
        obtain ⟨j, hj⟩ := mem_iff_getElem?.mp hi
        exact hright j i hj (.inl (Nat.zero_le j))
      | succ k =>
        have hwalking : Walking squashes n memOrder
            (l.set (k + 1) (squashInst memOrder inst)) k :=
          { inside := by
              rw [length_set]
              exact Nat.lt_of_succ_lt h.inside
            cause := h.cause
            covered := fun i hi hlt => by
              rcases mem_or_eq_of_mem_set hi with hi | rfl
              · exact h.covered i hi hlt
              · exact hcovered
            right := fun j i hj hor => hright j i hj hor }
        have hcleared' : memOrder = false →
            ∀ i ∈ l.set (k + 1) (squashInst memOrder inst), n < i.seqNum →
              i.squashedDueToMemOrder = false := by
          intro hmem i hi hlt
          rcases mem_or_eq_of_mem_set hi with hi | rfl
          · exact hcleared hmem i hi hlt
          · have hinst := hcleared hmem inst (mem_of_getElem? hk) hn
            simp [squashInst, hmem, hinst]
        obtain ⟨hseqs', hrest⟩ := ih hlisted' hwalking hcleared'
        exact ⟨hseqs'.trans hseqs, hrest⟩
    · rw [if_neg hn]
      exact ⟨rfl, hlisted, h⟩

end

variable {th : Thread}

namespace Thread

variable {th : Thread} {p : Params} {exiting memOrder : Bool} {n : Nat}

lemma map_seqNum_updateViolationMarker (n : Nat) (l : List DynInst) :
    (updateViolationMarker n l).map DynInst.seqNum = l.map DynInst.seqNum := by
  unfold updateViolationMarker
  rw [map_map]
  refine map_congr_left fun inst _ => ?_
  change (if n < inst.seqNum then { inst with squashedDueToMemOrder := false } else inst).seqNum = _
  split
  · rfl
  · rfl

/-- Taking marks away changes nothing else, and nothing that the squash leaves alone. -/
lemma updateViolationMarker_spec {squashes : List Squash} {l : List DynInst}
    (hlisted : Listed last l) (h : Walking squashes n false l k) :
    Listed last (updateViolationMarker n l) ∧
      Walking squashes n false (updateViolationMarker n l) k ∧
      ∀ i ∈ updateViolationMarker n l, n < i.seqNum → i.squashedDueToMemOrder = false := by
  have hseqs := map_seqNum_updateViolationMarker n l
  have hof : ∀ i ∈ updateViolationMarker n l, ∃ inst ∈ l,
      i = if n < inst.seqNum then { inst with squashedDueToMemOrder := false } else inst := by
    intro i hi
    obtain ⟨inst, hinst, rfl⟩ := mem_map.mp hi
    exact ⟨inst, hinst, rfl⟩
  refine ⟨⟨hseqs ▸ hlisted.sorted, fun i hi => ?_, fun i hi hs => ?_⟩,
    ⟨?_, h.cause, fun i hi hn => ?_, fun j i hj hor => ?_⟩, fun i hi hn => ?_⟩
  · obtain ⟨inst, hinst, rfl⟩ := hof i hi
    split
    · exact hlisted.newer inst hinst
    · exact hlisted.newer inst hinst
  · obtain ⟨inst, hinst, rfl⟩ := hof i hi
    split at hs <;> rename_i hlt
    · rw [if_pos hlt]
      exact hlisted.covered inst hinst hs
    · rw [if_neg hlt]
      exact hlisted.covered inst hinst hs
  · unfold updateViolationMarker
    rw [length_map]
    exact h.inside
  · obtain ⟨inst, hinst, rfl⟩ := hof i hi
    split at hn <;> rename_i hlt
    · rw [if_pos hlt]
      exact h.covered inst hinst hlt
    · exact absurd hn hlt
  · unfold updateViolationMarker at hj
    rw [getElem?_map] at hj
    obtain ⟨inst, hinst, rfl⟩ := Option.map_eq_some_iff.mp hj
    by_cases hlt : n < inst.seqNum
    · rw [if_pos hlt]
      intro _ _
      rw [h.lastCause hlt]
      simp
    · rw [if_neg hlt] at hor ⊢
      exact h.right j inst hinst hor
  · obtain ⟨inst, hinst, rfl⟩ := hof i hi
    split at hn <;> rename_i hlt
    · rw [if_pos hlt]
    · exact absurd hn hlt

lemma doSquash_spec (th : Thread) (hlisted : Listed th.lastCommitedSeqNum th.instList)
    (hit : th.squashIt = some k) (hdone : th.doneSquashing = false)
    (h : Walking th.squashes th.squashedSeqNum memOrder th.instList k) :
    Meets (th.doSquash p exiting memOrder)
      (fun th' => Frame th th' ∧ Listed th'.lastCommitedSeqNum th'.instList ∧
        Progress th.squashedSeqNum memOrder th') fun _ => False := by
  obtain ⟨inst, hk⟩ : ∃ inst, th.instList[k]? = some inst :=
    ⟨_, getElem?_eq_getElem h.inside⟩
  unfold doSquash
  rw [hit]
  dsimp only
  rw [hk]
  dsimp only
  by_cases hlt : inst.seqNum < th.squashedSeqNum
  · rw [if_pos hlt]
    exact ⟨⟨rfl, rfl, rfl, rfl, rfl⟩, hlisted, .inl ⟨rfl, h.right_of_le hlisted hk hlt.le⟩⟩
  · rw [if_neg hlt]
    obtain ⟨marked, hmarked, hseqs, hlisted', hwalking', hcleared⟩ : ∃ marked,
        (if memOrder then th.instList else updateViolationMarker th.squashedSeqNum th.instList) =
          marked ∧ marked.map DynInst.seqNum = th.instList.map DynInst.seqNum ∧
        Listed th.lastCommitedSeqNum marked ∧
        Walking th.squashes th.squashedSeqNum memOrder marked k ∧
        (memOrder = false → ∀ i ∈ marked, th.squashedSeqNum < i.seqNum →
          i.squashedDueToMemOrder = false) := by
      cases memOrder
      · obtain ⟨hl, hw, hc⟩ := updateViolationMarker_spec hlisted h
        exact ⟨_, rfl, map_seqNum_updateViolationMarker _ _, hl, hw, fun _ => hc⟩
      · exact ⟨_, rfl, rfl, hlisted, h, fun hx => absurd hx.symm Bool.false_ne_true⟩
    rw [hmarked]
    have hloop := squashLoop_spec (numInstsToSquash p exiting) hlisted' hwalking' hcleared
    revert hloop
    generalize squashLoop th.squashedSeqNum memOrder (numInstsToSquash p exiting) marked k = walked
    obtain ⟨l, it⟩ := walked
    rintro ⟨hseqs', hlisted'', hend⟩
    have hframe : l.map DynInst.seqNum = th.instList.map DynInst.seqNum := hseqs'.trans hseqs
    cases it with
    | none => exact ⟨⟨hframe, rfl, rfl, rfl, rfl⟩, hlisted'', .inl ⟨rfl, hend⟩⟩
    | some k' =>
      have hend : Walking th.squashes th.squashedSeqNum memOrder l k' := hend
      obtain ⟨inst', hk'⟩ : ∃ inst', l[k']? = some inst' :=
        ⟨_, getElem?_eq_getElem hend.inside⟩
      dsimp only
      rw [hk']
      rw [meets_ok]
      split
      · rename_i hle
        exact ⟨⟨hframe, rfl, rfl, rfl, rfl⟩, hlisted'',
          .inl ⟨rfl, hend.right_of_le hlisted'' hk' hle⟩⟩
      · exact ⟨⟨hframe, rfl, rfl, rfl, rfl⟩, hlisted'', .inr ⟨hdone, rfl, k', rfl, hend⟩⟩

lemma robSquash_spec (hlisted : Listed th.lastCommitedSeqNum th.instList)
    (hempty : th.instList = [] → th.doneSquashing = true)
    (hcause : ∃ before, th.squashes = ⟨n, memOrder⟩ :: before)
    (hcovered : ∀ inst ∈ th.instList, n < inst.seqNum → inst.covered = true)
    (hright : ∀ inst ∈ th.instList, inst.seqNum ≤ n → Right th.squashes inst) :
    Meets (th.robSquash p exiting n memOrder)
      (fun th' => Frame th th' ∧ Listed th'.lastCommitedSeqNum th'.instList ∧
        Progress n memOrder th') fun _ => False := by
  unfold robSquash
  by_cases hnil : th.instList = []
  · rw [hnil]
    refine ⟨⟨rfl, rfl, rfl, rfl, rfl⟩, hlisted, .inl ⟨hempty hnil, ?_⟩⟩
    rw [hnil]
    exact fun _ hi => absurd hi not_mem_nil
  · rw [if_neg (by simpa using hnil)]
    have hlength : 0 < th.instList.length := length_pos_iff.mpr hnil
    have hwalking : Walking th.squashes n memOrder th.instList (th.instList.length - 1) :=
      { inside := Nat.sub_lt hlength Nat.one_pos
        cause := hcause
        covered := hcovered
        right := fun j inst hj hor => by
          obtain ⟨hlt, -⟩ := List.getElem?_eq_some_iff.mp hj
          rcases hor with hor | hor
          · omega
          · exact hright inst (List.mem_of_getElem? hj) hor }
    refine (doSquash_spec { th with
        doneSquashing := false
        squashedSeqNum := n
        squashIt := some (th.instList.length - 1) } hlisted rfl rfl hwalking).mono ?_ fun _ => id
    exact fun th' h => ⟨⟨h.1.1, h.1.2, h.1.3, h.1.4, h.1.5⟩, h.2⟩

/-! ## What holds of a thread -/

def squashStatus (memOrder : Bool) : ThreadStatus :=
  if memOrder then .robSquashingDueToMemOrder else .robSquashing

structure Inv (th : Thread) : Prop where
  listed : Listed th.lastCommitedSeqNum th.instList
  settled : th.doneSquashing = true → ∀ inst ∈ th.instList, Right th.squashes inst
  walking : th.doneSquashing = false → ∃ k memOrder, th.squashIt = some k ∧
    Walking th.squashes th.squashedSeqNum memOrder th.instList k ∧
    th.youngestSeqNum ≤ th.squashedSeqNum ∧ th.commitStatus = squashStatus memOrder

lemma inv_empty : Inv empty where
  listed := ⟨.nil, fun _ h => absurd h List.not_mem_nil, fun _ h => absurd h List.not_mem_nil⟩
  settled _ _ h := absurd h not_mem_nil
  walking h := absurd h (by simp [empty])

lemma Inv.of_progress (hlisted : Listed th.lastCommitedSeqNum th.instList)
    (h : Progress n memOrder th) (hyoungest : th.youngestSeqNum ≤ n)
    (hstatus : th.commitStatus = squashStatus memOrder) : Inv th where
  listed := hlisted
  settled hdone := by
    rcases h with h | h
    · exact h.2
    · exact absurd (hdone.symm.trans h.1) (by simp)
  walking hdone := by
    rcases h with h | ⟨-, hn, k, hk, hw⟩
    · exact absurd (h.1.symm.trans hdone) (by simp)
    · rw [hn]
      exact ⟨k, memOrder, hk, hw, hyoungest, hstatus⟩

lemma Inv.done_of_nil (h : Inv th) (hnil : th.instList = []) : th.doneSquashing = true := by
  cases hdone : th.doneSquashing with
  | true => rfl
  | false =>
    obtain ⟨k, _, _, hw, _⟩ := h.walking hdone
    have hlt := hw.inside
    rw [hnil] at hlt
    exact absurd hlt (Nat.not_lt_zero k)

lemma Inv.done_of_status (h : Inv th) (hstatus : th.commitStatus.isSquashing = false) :
    th.doneSquashing = true := by
  cases hdone : th.doneSquashing with
  | true => rfl
  | false =>
    obtain ⟨_, memOrder, _, _, _, heq⟩ := h.walking hdone
    rw [heq] at hstatus
    cases memOrder <;> exact absurd hstatus (by decide)

lemma Inv.right_of_le (h : Inv th) (hn : n ≤ th.youngestSeqNum) :
    ∀ inst ∈ th.instList, inst.seqNum ≤ n → Right th.squashes inst := by
  intro inst hinst hle
  cases hdone : th.doneSquashing with
  | true => exact h.settled hdone inst hinst
  | false =>
    obtain ⟨k, _, _, hw, hyoungest, _⟩ := h.walking hdone
    obtain ⟨j, hj⟩ := mem_iff_getElem?.mp hinst
    exact hw.right j inst hj (.inr (hle.trans (hn.trans hyoungest)))

lemma mem_note (th : Thread) (n : Nat) (memOrder : Bool) {i : DynInst}
    (hi : i ∈ (th.note n memOrder).instList) : ∃ inst ∈ th.instList,
    i = { inst with covered := inst.covered || decide (n < inst.seqNum) } := by
  obtain ⟨inst, hinst, rfl⟩ := mem_map.mp hi
  exact ⟨inst, hinst, rfl⟩

lemma map_seqNum_note (th : Thread) (n : Nat) (memOrder : Bool) :
    (th.note n memOrder).instList.map DynInst.seqNum = th.instList.map DynInst.seqNum := by
  unfold note
  rw [map_map]
  rfl

/-- A squash with a number below which everything is right may start. -/
lemma Inv.robSquash (h : Inv th) (p : Params) (exiting memOrder : Bool)
    (hright : ∀ inst ∈ th.instList, inst.seqNum ≤ n → Right th.squashes inst)
    (status : ThreadStatus) (youngest : Nat) :
    Meets (robSquash p exiting n memOrder { th.note n memOrder with
        commitStatus := status, youngestSeqNum := youngest })
      (fun th' => th'.instList.map DynInst.seqNum = th.instList.map DynInst.seqNum ∧
        th'.commitStatus = status ∧ th'.youngestSeqNum = youngest ∧
        th'.lastCommitedSeqNum = th.lastCommitedSeqNum ∧
        Listed th'.lastCommitedSeqNum th'.instList ∧ Progress n memOrder th')
      fun _ => False := by
  refine (robSquash_spec ?_ ?_ ⟨th.squashes, rfl⟩ ?_ ?_).mono ?_ fun _ => id
  · refine ⟨?_, fun i hi => ?_, fun i hi hs => ?_⟩
    · rw [map_seqNum_note]
      exact h.listed.sorted
    · obtain ⟨inst, hinst, rfl⟩ := mem_note th n memOrder hi
      exact h.listed.newer inst hinst
    · obtain ⟨inst, hinst, rfl⟩ := mem_note th n memOrder hi
      rw [h.listed.covered inst hinst hs, Bool.true_or]
  · intro hnil
    exact h.done_of_nil (map_eq_nil_iff.mp hnil)
  · intro i hi hn
    obtain ⟨inst, hinst, rfl⟩ := mem_note th n memOrder hi
    rw [decide_eq_true hn, Bool.or_true]
  · intro i hi hle
    obtain ⟨inst, hinst, rfl⟩ := mem_note th n memOrder hi
    have hle : inst.seqNum ≤ n := hle
    intro hload hcovered
    change inst.squashedDueToMemOrder = true ↔
      CommitSquash.lastCause (⟨n, memOrder⟩ :: th.squashes) inst.seqNum = some true
    rw [lastCause_cons_of_le hle]
    have hcovered : (inst.covered || decide (n < inst.seqNum)) = true := hcovered
    rw [decide_eq_false (not_lt.mpr hle), Bool.or_false] at hcovered
    exact hright inst hinst hle hload hcovered
  · rintro th' ⟨hframe, hlisted, hprogress⟩
    exact ⟨hframe.seqNums.trans (map_seqNum_note th n memOrder), hframe.commitStatus,
      hframe.youngest, hframe.last, hlisted, hprogress⟩

def Kept (th th' : Thread) : Prop :=
  th'.instList.map DynInst.seqNum = th.instList.map DynInst.seqNum ∧
    th'.lastCommitedSeqNum = th.lastCommitedSeqNum

lemma Kept.refl (th : Thread) : Kept th th := ⟨rfl, rfl⟩

lemma Kept.trans {th' th'' : Thread} (h : Kept th th') (h' : Kept th' th'') : Kept th th'' :=
  ⟨h'.1.trans h.1, h'.2.trans h.2⟩

section

variable (h : Inv th)

include h

lemma Inv.beforeHead_lt : ∀ inst ∈ th.instList, th.beforeHead < inst.seqNum := by
  intro inst hinst
  unfold beforeHead
  split
  · rename_i hl
    rw [hl] at hinst
    exact absurd hinst not_mem_nil
  · rename_i head rest hl
    have hhead := h.listed.newer head (hl ▸ mem_cons_self)
    have hsorted := h.listed.sorted
    rw [hl, map_cons, pairwise_cons] at hsorted
    rw [hl] at hinst
    rcases mem_cons.mp hinst with rfl | hinst
    · omega
    · have hlt := hsorted.1 _ (mem_map_of_mem hinst)
      omega

lemma Inv.last_le_beforeHead : th.lastCommitedSeqNum ≤ th.beforeHead := by
  unfold beforeHead
  split
  · exact le_rfl
  · rename_i head rest hl
    exact Nat.le_sub_one_of_lt (h.listed.newer head (hl ▸ mem_cons_self))

/-- The squashes that commit raises itself differ in what they reset. -/
lemma Inv.squashAll_then (trap tc : Thread → Bool) :
    Meets (do
        let th ← th.squashAll p exiting
        return { th with
          trapSquash := trap th, tcSquash := tc th, commitStatus := .robSquashing })
      (fun th' => Inv th' ∧ Kept th th' ∧ th'.commitStatus = .robSquashing) fun _ => True := by
  have hright : ∀ inst ∈ th.instList, inst.seqNum ≤ th.beforeHead → Right th.squashes inst :=
    fun inst hinst hle => absurd (h.beforeHead_lt inst hinst) (not_lt.mpr hle)
  have hstart := h.robSquash p exiting false hright th.commitStatus th.lastCommitedSeqNum
  refine (hstart.mono (fun _ hx => hx) fun _ => False.elim).bind ?_
  rintro th' ⟨hseqs, -, hyoungest, hkept, hlisted, hprogress⟩
  refine ⟨Inv.of_progress hlisted hprogress ?_ rfl, ⟨hseqs, hkept⟩, rfl⟩
  exact hyoungest.trans_le h.last_le_beforeHead

lemma Inv.squashFromCommit : Meets (th.squashFromCommit p exiting)
    (fun th' => Inv th' ∧ Kept th th' ∧
      (th.commitStatus ≠ .robSquashingDueToMemOrder →
        th'.commitStatus ≠ .robSquashingDueToMemOrder)) fun _ => True := by
  have hstatus : ∀ th' : Thread, Inv th' ∧ Kept th th' ∧ th'.commitStatus = .robSquashing →
      Inv th' ∧ Kept th th' ∧ (th.commitStatus ≠ .robSquashingDueToMemOrder →
        th'.commitStatus ≠ .robSquashingDueToMemOrder) :=
    fun th' hx => ⟨hx.1, hx.2.1, fun _ => hx.2.2 ▸ by decide⟩
  unfold Thread.squashFromCommit
  split
  · split
    · trivial
    · exact (h.squashAll_then (fun _ => false) Thread.tcSquash).mono hstatus fun _ => id
  · split
    · split
      · trivial
      · exact (h.squashAll_then Thread.trapSquash fun _ => false).mono hstatus fun _ => id
    · split
      · exact (h.squashAll_then Thread.trapSquash Thread.tcSquash).mono hstatus fun _ => id
      · exact ⟨h, Kept.refl th, id⟩

/-- The squash is carried out with its own cause if the variable is not left over from a violation
of another thread. -/
lemma Inv.handleSquash {fromIEW : Option IEWSquash} {dueToMemOrder : Bool}
    (hown : dueToMemOrder = true → ∀ signal ∈ fromIEW, signal.mispredicted = false) :
    Meets (th.handleSquash p exiting fromIEW dueToMemOrder)
      (fun r => Inv r.2 ∧ Kept th r.2 ∧
        (r.1 = true → dueToMemOrder = true ∨ ∃ signal ∈ fromIEW, signal.mispredicted = false) ∧
        ((∀ signal ∈ fromIEW, signal.mispredicted = true) →
          th.commitStatus ≠ .robSquashingDueToMemOrder →
            r.2.commitStatus ≠ .robSquashingDueToMemOrder)) fun _ => True := by
  refine h.squashFromCommit.bind ?_
  rintro th₁ ⟨h₁, hkept, hstatus⟩
  cases fromIEW with
  | none => exact ⟨h₁, hkept, .inl, fun _ => hstatus⟩
  | some signal =>
    dsimp only
    split
    · rename_i haccepted
      have hcause : (dueToMemOrder || !signal.mispredicted) = !signal.mispredicted := by
        cases dueToMemOrder
        · rfl
        · rw [hown rfl signal rfl]
          rfl
      rw [hcause]
      have hn : (if signal.includeSquashInst then signal.squashedSeqNum - 1
          else signal.squashedSeqNum) ≤ th₁.youngestSeqNum := by
        split
        · exact (Nat.sub_le _ _).trans haccepted.2
        · exact haccepted.2
      have hstart := h₁.robSquash p exiting (!signal.mispredicted) (h₁.right_of_le hn)
        (squashStatus (!signal.mispredicted)) (if signal.includeSquashInst then
          signal.squashedSeqNum - 1 else signal.squashedSeqNum)
      refine (hstart.mono (fun _ hx => hx) fun _ => False.elim).bind ?_
      rintro th₂ ⟨hseqs, hstatus₂, hyoungest, hlast, hlisted, hprogress⟩
      refine ⟨Inv.of_progress hlisted hprogress hyoungest.le hstatus₂,
        hkept.trans ⟨hseqs, hlast⟩, fun hmem => .inr ⟨signal, rfl, ?_⟩, fun hmis _ => ?_⟩
      · simpa using hmem
      · rw [hstatus₂, hmis signal rfl]
        decide
    · exact ⟨h₁, hkept, .inl, fun _ => hstatus⟩

lemma Inv.tickSquash : Meets (th.tickSquash p exiting)
    (fun th' => Inv th' ∧ Kept th th' ∧
      (¬(th.commitStatus = .robSquashingDueToMemOrder ∧ th.doneSquashing = false) →
        th'.commitStatus ≠ .robSquashingDueToMemOrder)) fun _ => True := by
  unfold Thread.tickSquash
  split
  · split
    · rename_i hdone
      refine ⟨⟨h.listed, h.settled, fun hx => ?_⟩, Kept.refl _, fun _ => by simp⟩
      exact absurd (hdone.symm.trans hx) (by simp)
    · rename_i hnot
      have hdone : th.doneSquashing = false := Bool.not_eq_true _ |>.mp hnot
      obtain ⟨k, memOrder, hit, hw, hyoungest, hstatus⟩ := h.walking hdone
      have hcause : decide (th.commitStatus = .robSquashingDueToMemOrder) = memOrder := by
        rw [hstatus]
        cases memOrder <;> rfl
      rw [hcause]
      refine (doSquash_spec th h.listed hit hdone hw).mono ?_ fun _ => False.elim
      rintro th' ⟨hframe, hlisted, hprogress⟩
      refine ⟨Inv.of_progress hlisted hprogress ?_ (hframe.commitStatus.trans hstatus),
        ⟨hframe.seqNums, hframe.last⟩, fun hcalm hx => ?_⟩
      · rw [hframe.youngest]
        exact hyoungest
      · exact hcalm ⟨hframe.commitStatus.symm.trans hx, hdone⟩
  · rename_i hnot
    refine ⟨h, Kept.refl th, fun _ hx => hnot ?_⟩
    rw [hx]
    rfl

lemma Inv.getInst (hstatus : inst.squashed = false → th.commitStatus ≠ .robSquashingDueToMemOrder)
    (hnew : inst.squashed = false → th.lastCommitedSeqNum < inst.seqNum ∧
      ∀ i ∈ th.instList, i.seqNum < inst.seqNum) : Inv (th.getInst inst) := by
  unfold Thread.getInst
  split
  · rename_i hin
    simp only [Bool.and_eq_true, Bool.not_eq_true', decide_eq_true_eq] at hin
    obtain ⟨⟨hs, hrob⟩, -⟩ := hin
    obtain ⟨hlast, hbelow⟩ := hnew hs
    have hnot : th.commitStatus.isSquashing = false := by
      unfold ThreadStatus.isSquashing
      rw [decide_eq_false hrob, decide_eq_false (hstatus hs)]
      rfl
    have hdone := h.done_of_status hnot
    refine ⟨⟨?_, fun i hi => ?_, fun i hi hx => ?_⟩, fun _ i hi => ?_, fun hx => ?_⟩
    · rw [map_append]
      refine pairwise_append.mpr ⟨h.listed.sorted, pairwise_singleton _ _, fun a ha b hb => ?_⟩
      obtain ⟨i, hi, rfl⟩ := mem_map.mp ha
      rw [mem_singleton.mp hb]
      exact hbelow i hi
    · rcases mem_append.mp hi with hi | hi
      · exact h.listed.newer i hi
      · rw [mem_singleton.mp hi]
        exact hlast
    · rcases mem_append.mp hi with hi | hi
      · exact h.listed.covered i hi hx
      · rw [mem_singleton.mp hi] at hx
        exact absurd (hs.symm.trans hx) (by simp)
    · rcases mem_append.mp hi with hi | hi
      · exact h.settled hdone i hi
      · rw [mem_singleton.mp hi]
        intro _ hcovered
        exact absurd (hnot.symm.trans hcovered) (by simp)
    · exact absurd (hdone.symm.trans hx) (by simp)
  · exact h

lemma Inv.tail {head : DynInst} {rest : List DynInst}
    (hlist : th.instList = head :: rest) (hdone : th.doneSquashing = true)
    (hlast : last = th.lastCommitedSeqNum ∨ last = head.seqNum) (status : ThreadStatus) :
    Inv { th with instList := rest, lastCommitedSeqNum := last, commitStatus := status } := by
  have hmem : ∀ i ∈ rest, i ∈ th.instList := fun i hi => hlist ▸ mem_cons_of_mem _ hi
  have hsorted := h.listed.sorted
  rw [hlist, map_cons, pairwise_cons] at hsorted
  refine ⟨⟨hsorted.2, fun i hi => ?_, fun i hi => h.listed.covered i (hmem i hi)⟩,
    fun _ i hi => h.settled hdone i (hmem i hi), fun hx => ?_⟩
  · rcases hlast with rfl | rfl
    · exact h.listed.newer i (hmem i hi)
    · exact hsorted.1 _ (mem_map_of_mem hi)
  · exact absurd (hdone.symm.trans hx) (by simp)

end

lemma isSquashing_of_mayCommit (status : ThreadStatus) (h : status.mayCommit = true) :
    status.isSquashing = false := by
  cases status with
  | robSquashing | robSquashingDueToMemOrder => exact absurd h (by decide)
  | _ => rfl

lemma Inv.done_of_mayCommit (h : Inv th) (hmay : th.commitStatus.mayCommit = true) :
    th.doneSquashing = true :=
  h.done_of_status (isSquashing_of_mayCommit _ hmay)

lemma Inv.squashNumbered (h : Inv th)
    (hcovered : ∀ inst ∈ th.instList, inst.seqNum = seqNum → inst.covered = true) :
    Inv { th with instList := th.instList.map (DynInst.squashNumbered seqNum) } := by
  have hsame : ∀ inst : DynInst, (inst.squashNumbered seqNum).seqNum = inst.seqNum ∧
      (inst.squashNumbered seqNum).covered = inst.covered ∧
      ∀ squashes, Right squashes inst → Right squashes (inst.squashNumbered seqNum) := by
    intro inst
    unfold DynInst.squashNumbered
    split
    · exact ⟨rfl, rfl, fun _ => id⟩
    · exact ⟨rfl, rfl, fun _ => id⟩
  have hseqs : (th.instList.map (DynInst.squashNumbered seqNum)).map DynInst.seqNum =
      th.instList.map DynInst.seqNum := by
    rw [map_map]
    exact map_congr_left fun inst _ => (hsame inst).1
  refine ⟨⟨hseqs ▸ h.listed.sorted, fun i hi => ?_, fun i hi hs => ?_⟩, fun hdone i hi => ?_,
    fun hdone => ?_⟩
  · obtain ⟨inst, hinst, rfl⟩ := mem_map.mp hi
    rw [(hsame inst).1]
    exact h.listed.newer inst hinst
  · obtain ⟨inst, hinst, rfl⟩ := mem_map.mp hi
    rw [(hsame inst).2.1]
    unfold DynInst.squashNumbered at hs
    split at hs
    · rename_i heq
      exact hcovered inst hinst heq
    · exact h.listed.covered inst hinst hs
  · obtain ⟨inst, hinst, rfl⟩ := mem_map.mp hi
    exact (hsame inst).2.2 _ (h.settled hdone inst hinst)
  · obtain ⟨k, memOrder, hit, hw, hyoungest, hstatus⟩ := h.walking hdone
    refine ⟨k, memOrder, hit, ⟨?_, hw.cause, fun i hi hn => ?_, fun j i hj hor => ?_⟩, hyoungest,
      hstatus⟩
    · rw [length_map]
      exact hw.inside
    · obtain ⟨inst, hinst, rfl⟩ := mem_map.mp hi
      rw [(hsame inst).1] at hn
      rw [(hsame inst).2.1]
      exact hw.covered inst hinst hn
    · rw [getElem?_map] at hj
      obtain ⟨inst, hinst, rfl⟩ := Option.map_eq_some_iff.mp hj
      rw [(hsame inst).1] at hor
      exact (hsame inst).2.2 _ (hw.right j inst hinst hor)

end Thread

/-! ## All threads -/

def Retired.MarkedRight (r : Retired) : Prop :=
  r.inst.isLoad = true →
    (r.inst.squashedDueToMemOrder = true ↔ lastCause r.squashes r.inst.seqNum = some true)

def Cycle.signalsViolation (c : Cycle) (tid : ThreadID) : Bool :=
  (c.fromIEW tid).any fun signal => !signal.mispredicted

def Cycle.signalsMisprediction (c : Cycle) (tid : ThreadID) : Bool :=
  (c.fromIEW tid).any fun signal => signal.mispredicted

namespace Commit

variable {s : Commit} {p : Params} {c : Cycle}

structure Inv (s : Commit) : Prop where
  threads : ∀ tid, (s.threads tid).Inv
  retired : ∀ r ∈ s.retired, r.MarkedRight
  trained : ∀ r ∈ s.trained, lastCause r.squashes r.inst.seqNum = some true

lemma inv_empty : Inv empty where
  threads _ := Thread.inv_empty
  retired _ h := absurd h List.not_mem_nil
  trained _ h := absurd h List.not_mem_nil

lemma threads_setThread_self (s : Commit) (tid : ThreadID) (th : Thread) :
    (s.setThread tid th).threads tid = th :=
  Function.update_self _ _ _

variable {tid : ThreadID}

lemma threads_setThread_of_ne {tid' : ThreadID} (h : tid' ≠ tid) (s : Commit) (th : Thread) :
    (s.setThread tid th).threads tid' = s.threads tid' :=
  Function.update_of_ne h _ _

lemma Inv.setThread (h : Inv s) (hth : th.Inv) : Inv (s.setThread tid th) where
  threads tid' := by
    by_cases htid : tid' = tid
    · subst htid
      rw [threads_setThread_self]
      exact hth
    · rw [threads_setThread_of_ne htid]
      exact h.threads tid'
  retired := h.retired
  trained := h.trained

lemma kept_setThread (h : (s.threads tid).Kept th) (tid' : ThreadID) :
    (s.threads tid').Kept ((s.setThread tid th).threads tid') := by
  by_cases htid : tid' = tid
  · subst htid
    rw [threads_setThread_self]
    exact h
  · rw [threads_setThread_of_ne htid]
    exact Thread.Kept.refl _

def Violated (s : Commit) (tid : ThreadID) : Prop :=
  (s.threads tid).commitStatus = .robSquashingDueToMemOrder ∧ (s.threads tid).doneSquashing = false

lemma Inv.tickThread (h : Inv s) (t : ThreadID) :
    Meets (do return s.setThread t (← (s.threads t).tickSquash p (c.exiting t)))
      (fun s' => Inv s' ∧ (∀ tid, (s.threads tid).Kept (s'.threads tid)) ∧
        (∀ tid, tid ≠ t → s'.threads tid = s.threads tid) ∧
        (¬s.Violated t → (s'.threads t).commitStatus ≠ .robSquashingDueToMemOrder))
      fun _ => True := by
  refine (h.threads t).tickSquash.bind ?_
  rintro th ⟨hth, hkept, hcalm⟩
  refine ⟨h.setThread hth, kept_setThread hkept, fun tid ht => threads_setThread_of_ne ht .., ?_⟩
  rw [threads_setThread_self]
  exact hcalm

lemma Inv.tickThreads (l : List ThreadID) : ∀ {s : Commit}, Inv s →
    Meets (l.foldlM (fun s tid => do
        return s.setThread tid (← (s.threads tid).tickSquash p (c.exiting tid))) s)
      (fun s' => Inv s' ∧ (∀ tid, (s.threads tid).Kept (s'.threads tid)) ∧
        ∀ tid, ¬s.Violated tid →
          tid ∈ l ∨ (s.threads tid).commitStatus ≠ .robSquashingDueToMemOrder →
          (s'.threads tid).commitStatus ≠ .robSquashingDueToMemOrder) fun _ => True := by
  induction l with
  | nil =>
    exact fun h => ⟨h, fun _ => Thread.Kept.refl _, fun _ _ hor => hor.resolve_left not_mem_nil⟩
  | cons t _ ih =>
    intro s h
    rw [foldlM_cons]
    refine (h.tickThread t).bind ?_
    rintro s₁ ⟨h₁, hkept₁, hother, hcalm⟩
    refine (ih h₁).mono ?_ fun _ => id
    rintro s' ⟨h', hkept', hstatus⟩
    refine ⟨h', fun tid => (hkept₁ tid).trans (hkept' tid), fun tid hnot hor => ?_⟩
    by_cases htid : tid = t
    · subst htid
      have hne := hcalm hnot
      exact hstatus tid (fun hx => hne hx.1) (.inr hne)
    · refine hstatus tid ?_ ?_
      · unfold Violated
        rw [hother tid htid]
        exact hnot
      · rw [hother tid htid]
        exact hor.imp_left fun hin => (mem_cons.mp hin).resolve_left htid

lemma Inv.squashThreads (l : List ThreadID) : ∀ {s : Commit} {dueToMemOrder : Bool}, Inv s →
    (l.Pairwise fun t u => ¬(c.signalsViolation t = true ∧ c.signalsMisprediction u = true)) →
    (dueToMemOrder = true → ∀ t ∈ l, c.signalsMisprediction t = false) →
    Meets (squashThreads p c l dueToMemOrder s)
      (fun s' => Inv s' ∧ (∀ tid, (s.threads tid).Kept (s'.threads tid)) ∧
        ∀ tid, c.signalsViolation tid = false →
          (s.threads tid).commitStatus ≠ .robSquashingDueToMemOrder →
          (s'.threads tid).commitStatus ≠ .robSquashingDueToMemOrder) fun _ => True := by
  induction l with
  | nil => exact fun h _ _ => ⟨h, fun _ => Thread.Kept.refl _, fun _ _ => id⟩
  | cons t rest ih =>
    intro s dueToMemOrder h horder hleft
    obtain ⟨hfirst, horder⟩ := pairwise_cons.mp horder
    have hown : dueToMemOrder = true → ∀ signal ∈ c.fromIEW t, signal.mispredicted = false := by
      intro hdue signal hsignal
      have hnone := hleft hdue t mem_cons_self
      unfold Cycle.signalsMisprediction at hnone
      rw [hsignal] at hnone
      exact hnone
    refine ((h.threads t).handleSquash hown).bind ?_
    rintro ⟨due, th⟩ ⟨hth, hkept, hdue, hstatus⟩
    have hleft' : due = true → ∀ u ∈ rest, c.signalsMisprediction u = false := by
      intro hx u hu
      rcases hdue hx with hx | ⟨signal, hsignal, hmis⟩
      · exact hleft hx u (mem_cons_of_mem _ hu)
      · have hviolation : c.signalsViolation t = true := by
          unfold Cycle.signalsViolation
          rw [hsignal, Option.any_some, hmis]
          rfl
        exact Bool.not_eq_true _ |>.mp fun hmis => hfirst u hu ⟨hviolation, hmis⟩
    refine (ih (h.setThread hth) horder hleft').mono ?_ fun _ => id
    rintro s' ⟨h', hkept', hstatus'⟩
    refine ⟨h', fun tid => (kept_setThread hkept tid).trans (hkept' tid), fun tid hno hne => ?_⟩
    refine hstatus' tid hno ?_
    by_cases htid : tid = t
    · subst htid
      rw [threads_setThread_self]
      refine hstatus (fun signal hsignal => ?_) hne
      unfold Cycle.signalsViolation at hno
      rw [hsignal, Option.any_some] at hno
      simpa using hno
    · rw [threads_setThread_of_ne htid]
      exact hne

/-- An instruction from rename is younger than those in the list of its thread, which is not walked
for a violation. -/
def Fits (s : Commit) (inst : DynInst) : Prop :=
  (s.threads inst.threadNumber).commitStatus ≠ .robSquashingDueToMemOrder ∧
    (s.threads inst.threadNumber).lastCommitedSeqNum < inst.seqNum ∧
    ∀ i ∈ (s.threads inst.threadNumber).instList, i.seqNum < inst.seqNum

lemma Fits.getInst {inst' : DynInst} (h : s.Fits inst')
    (hlt : inst.threadNumber = inst'.threadNumber → inst.seqNum < inst'.seqNum) :
    (s.setThread inst.threadNumber ((s.threads inst.threadNumber).getInst inst)).Fits inst' := by
  unfold Fits at h ⊢
  by_cases htid : inst'.threadNumber = inst.threadNumber
  · rw [htid] at h ⊢
    rw [threads_setThread_self]
    unfold Thread.getInst
    split
    · refine ⟨h.1, h.2.1, fun i hi => ?_⟩
      rcases mem_append.mp hi with hi | hi
      · exact h.2.2 i hi
      · rw [mem_singleton.mp hi]
        exact hlt htid.symm
    · exact h
  · rw [threads_setThread_of_ne htid]
    exact h

lemma Inv.getInsts (insts : List DynInst) : ∀ {s : Commit}, Inv s →
    (∀ inst ∈ insts, inst.squashed = false → s.Fits inst) →
    (insts.Pairwise fun a b => a.threadNumber = b.threadNumber → a.seqNum < b.seqNum) →
    Inv (s.getInsts insts) := by
  induction insts with
  | nil => exact fun h _ _ => h
  | cons inst _ ih =>
    intro s h hfits hincreasing
    obtain ⟨hfirst, hincreasing⟩ := pairwise_cons.mp hincreasing
    have hinst := hfits inst mem_cons_self
    have hth : ((s.threads inst.threadNumber).getInst inst).Inv :=
      (h.threads _).getInst (fun hs => (hinst hs).1) fun hs => (hinst hs).2
    refine ih (h.setThread hth) (fun inst' hinst' hs => ?_) hincreasing
    exact (hfits inst' (mem_cons_of_mem _ hinst') hs).getInst (hfirst inst' hinst')

lemma Inv.commitInsts (choices : List (ThreadID × Outcome)) :
    ∀ {s : Commit} {updatedMemDep : Bool}, Inv s →
      Inv (Commit.commitInsts choices updatedMemDep s) := by
  induction choices with
  | nil => exact fun h => h
  | cons choice rest ih =>
    intro s updatedMemDep h
    obtain ⟨tid, outcome⟩ := choice
    have hth := h.threads tid
    unfold Commit.commitInsts
    dsimp only
    split
    · rename_i hmay
      have hdone := hth.done_of_mayCommit hmay
      split
      · exact h
      · rename_i head tail hlist
        split
        · rename_i hs
          have hhead : head ∈ (s.threads tid).instList := hlist ▸ mem_cons_self
          have hright : Retired.MarkedRight ⟨head, (s.threads tid).squashes⟩ := fun hload =>
            hth.settled hdone head hhead hload (hth.listed.covered head hhead hs)
          have hnext : Inv (s.setThread tid { s.threads tid with instList := tail }) :=
            h.setThread (hth.tail hlist hdone (.inl rfl) (s.threads tid).commitStatus)
          refine ih ⟨hnext.threads, fun r hr => ?_, fun r hr => ?_⟩
          · rcases mem_cons.mp hr with rfl | hr
            · exact hright
            · exact h.retired r hr
          · split at hr
            · rename_i htrain
              simp only [Bool.and_eq_true] at htrain
              rcases mem_cons.mp hr with rfl | hr
              · exact (hright htrain.1.2).mp htrain.1.1.1
              · exact h.trained r hr
            · exact h.trained r hr
        · split
          · exact ih (h.setThread (hth.tail hlist hdone (.inr rfl) _))
          · refine h.setThread ⟨hth.listed, hth.settled, fun hx => ?_⟩
            exact absurd (hdone.symm.trans hx) (by simp)
          · exact h
    · exact h

def Legal (p : Params) (s : Commit) : Op → Prop
  | .cycle c =>
    c.activeThreads.length ≤ p.numThreads ∧
      (∀ inst ∈ c.fromRename, inst.squashed = false →
        inst.threadNumber ∈ c.activeThreads ∧
          (s.threads inst.threadNumber).lastCommitedSeqNum < inst.seqNum ∧
          ∀ i ∈ (s.threads inst.threadNumber).instList, i.seqNum < inst.seqNum) ∧
      c.fromRename.Pairwise fun a b => a.threadNumber = b.threadNumber → a.seqNum < b.seqNum
  | .squashInQueues tid seqNum =>
    ∀ inst ∈ (s.threads tid).instList, inst.seqNum = seqNum → inst.covered = true
  | _ => True

/-- No thread with a mispredicted branch comes after one with a violation in a cycle, and nothing
enters the list of a thread squashed for a violation. -/
def Separate (p : Params) (s : Commit) : Op → Prop
  | .cycle c =>
    (c.activeThreads.Pairwise fun t u =>
      ¬(c.signalsViolation t = true ∧ c.signalsMisprediction u = true)) ∧
    (p.numThreads = 1 ∨ ∀ inst ∈ c.fromRename, inst.squashed = false →
      c.signalsViolation inst.threadNumber = false ∧ ¬s.Violated inst.threadNumber)
  | _ => True

instance (s : Commit) (tid : ThreadID) : Decidable (s.Violated tid) :=
  inferInstanceAs (Decidable (_ ∧ _))

instance (p : Params) (s : Commit) : DecidablePred (Legal p s)
  | .cycle _ => inferInstanceAs (Decidable (_ ∧ _ ∧ _))
  | .trapEvent _ => inferInstanceAs (Decidable True)
  | .tcEvent _ => inferInstanceAs (Decidable True)
  | .interrupt => inferInstanceAs (Decidable True)
  | .squashInQueues _ _ => inferInstanceAs (Decidable (∀ inst ∈ _, _ → _))

instance (p : Params) (s : Commit) : DecidablePred (Separate p s)
  | .cycle _ => inferInstanceAs (Decidable (_ ∧ _))
  | .trapEvent _ => inferInstanceAs (Decidable True)
  | .tcEvent _ => inferInstanceAs (Decidable True)
  | .interrupt => inferInstanceAs (Decidable True)
  | .squashInQueues _ _ => inferInstanceAs (Decidable True)

lemma fits_of_kept {s' : Commit}
    (hkept : (s.threads inst.threadNumber).Kept (s'.threads inst.threadNumber))
    (hstatus : (s'.threads inst.threadNumber).commitStatus ≠ .robSquashingDueToMemOrder)
    (hlast : (s.threads inst.threadNumber).lastCommitedSeqNum < inst.seqNum)
    (hbelow : ∀ i ∈ (s.threads inst.threadNumber).instList, i.seqNum < inst.seqNum) :
    s'.Fits inst := by
  refine ⟨hstatus, ?_, fun i hi => ?_⟩
  · rw [hkept.2]
    exact hlast
  · have hin : i.seqNum ∈ (s.threads inst.threadNumber).instList.map seqNum := by
      rw [← hkept.1]
      exact mem_map_of_mem hi
    obtain ⟨i', hi', heq⟩ := mem_map.mp hin
    exact heq ▸ hbelow i' hi'

lemma status_of_single (hlength : c.activeThreads.length ≤ 1) (hin : tid ∈ c.activeThreads)
    (hnot : s.numSquashing c ≠ 1) : (s.threads tid).commitStatus ≠ .robSquashingDueToMemOrder := by
  obtain ⟨t, ht⟩ : ∃ t, c.activeThreads = [t] := by
    refine length_eq_one_iff.mp (le_antisymm hlength ?_)
    exact length_pos_iff.mpr (ne_nil_of_mem hin)
  rw [ht] at hin
  cases mem_singleton.mp hin
  intro hstatus
  refine hnot ?_
  unfold numSquashing
  rw [ht, countP_singleton, hstatus]
  rfl

lemma Inv.cycle (h : Inv s) (hlegal : Legal p s (.cycle c))
    (hseparate : Separate p s (.cycle c)) : Meets (s.cycle p c) Inv fun _ => True := by
  obtain ⟨hlength, harrive, hincreasing⟩ := hlegal
  refine (h.tickThreads c.activeThreads).bind ?_
  rintro s₁ ⟨h₁, hkept₁, hstatus₁⟩
  refine (h₁.squashThreads c.activeThreads hseparate.1 fun hx => absurd hx (by simp)).bind ?_
  rintro s₂ ⟨h₂, hkept₂, hstatus₂⟩
  split
  · rename_i hnot
    refine (h₂.getInsts c.fromRename (fun inst hinst hs => ?_) hincreasing).commitInsts _
    obtain ⟨hactive, hlast, hbelow⟩ := harrive inst hinst hs
    refine fits_of_kept ((hkept₁ _).trans (hkept₂ _)) ?_ hlast hbelow
    rcases hseparate.2 with hsingle | hapart
    · rw [hsingle] at hlength hnot
      exact status_of_single hlength hactive hnot
    · obtain ⟨hno, hviolated⟩ := hapart inst hinst hs
      exact hstatus₂ _ hno (hstatus₁ _ hviolated (.inl hactive))
  · exact h₂

lemma Inv.step (h : Inv s) {op : Op} (hlegal : Legal p s op) (hseparate : Separate p s op) :
    Meets (s.step p op) Inv fun _ => True := by
  cases op with
  | cycle => exact h.cycle hlegal hseparate
  | trapEvent tid | tcEvent tid =>
    exact h.setThread ⟨(h.threads tid).listed, (h.threads tid).settled, (h.threads tid).walking⟩
  | interrupt =>
    change Inv (if (s.threads 0).instList.isEmpty then _ else s)
    split
    · rename_i hnil
      have hdone := (h.threads 0).done_of_nil (isEmpty_iff.mp hnil)
      refine h.setThread ⟨(h.threads 0).listed, (h.threads 0).settled, fun hx => ?_⟩
      exact absurd (hdone.symm.trans hx) (by simp)
    · exact h
  | squashInQueues tid => exact h.setThread ((h.threads tid).squashNumbered hlegal)

/-- In every run a load retires marked if and only if the last squash of its thread that fetched it
again was for a memory order violation, and only such instructions are trained. -/
theorem violation_marks_own_cause (p : Params) (ops : List Op) (s : Commit)
    (hops : Along (step p) (fun s op => Legal p s op ∧ Separate p s op) empty ops)
    (hrun : run (step p) empty ops = .ok s) :
    (∀ r ∈ s.retired, r.MarkedRight) ∧
      ∀ r ∈ s.trained, lastCause r.squashes r.inst.seqNum = some true := by
  have hinv : Meets (run (step p) empty ops) Inv fun _ => True :=
    meets_run Inv (fun s op h hop => h.step hop.1 hop.2) inv_empty hops
  exact ⟨(hinv.of_ok hrun).retired, (hinv.of_ok hrun).trained⟩

def loadInst (tid : ThreadID) (seqNum : Nat) : DynInst :=
  ⟨tid, seqNum, true, 1, false, false, false⟩

def plainInst (tid : ThreadID) (seqNum : Nat) : DynInst :=
  ⟨tid, seqNum, false, 0, false, false, false⟩

def twoThreads (fromIEW : ThreadID → Option IEWSquash) (fromRename : List DynInst)
    (choices : List (ThreadID × Outcome)) : Cycle :=
  ⟨[0, 1], fun _ => false, fromIEW, fromRename, choices⟩

def twoThreadParams : Params := ⟨2, 192, some 1⟩

def fillLists : Op :=
  .cycle (twoThreads (fun _ => none) [plainInst 0 1, loadInst 0 2, plainInst 1 3, loadInst 1 4] [])

def idleCycle : Op := .cycle (twoThreads (fun _ => none) [] [])

def separateRun : List Op :=
  [fillLists,
    .cycle (twoThreads (fun tid => if tid = 0 then some ⟨2, false, true⟩ else none) [] []),
    idleCycle, idleCycle,
    .cycle (twoThreads (fun tid => if tid = 1 then some ⟨3, true, false⟩ else none) [] []),
    idleCycle, idleCycle,
    .cycle (twoThreads (fun _ => none) []
      [(0, .commit false), (0, .wait), (1, .commit false), (1, .wait)])]

/-- Thread 0 has a violation and thread 1, cycles later, a misprediction. -/
theorem violation_marks_own_cause_separate_cycles :
    Along (step twoThreadParams)
        (fun s op => Legal twoThreadParams s op ∧ Separate twoThreadParams s op) empty
        separateRun ∧
      ∃ s, run (step twoThreadParams) empty separateRun = .ok s ∧
        (s.retired.map fun r => (r.inst.seqNum, r.inst.squashedDueToMemOrder)) =
          [(4, false), (2, true)] ∧
        (∀ r ∈ s.retired, r.MarkedRight) ∧
        ∀ r ∈ s.trained, lastCause r.squashes r.inst.seqNum = some true := by
  have hops : Along (step twoThreadParams)
      (fun s op => Legal twoThreadParams s op ∧ Separate twoThreadParams s op) empty
      separateRun := along_of_test _ (by decide +kernel)
  obtain ⟨s, hrun, hmarks⟩ := exists_of_holdsAt (run (step twoThreadParams) empty separateRun)
    (fun s => decide ((s.retired.map fun r => (r.inst.seqNum, r.inst.squashedDueToMemOrder)) =
      [(4, false), (2, true)])) (by decide +kernel)
  exact ⟨hops, s, hrun, of_decide_eq_true hmarks,
    violation_marks_own_cause twoThreadParams separateRun s hops hrun⟩

def sameCycleRun : List Op :=
  [fillLists, .cycle (twoThreads
      (fun tid => if tid = 0 then some ⟨2, false, true⟩ else some ⟨3, true, false⟩) [] []),
    idleCycle, idleCycle,
    .cycle (twoThreads (fun _ => none) []
      [(1, .commit false), (1, .wait), (0, .commit false), (0, .wait)])]

/-- The load that was squashed behind a branch is marked and trains the predictor. -/
theorem branch_squash_marked_as_violation :
    Along (step twoThreadParams) (Legal twoThreadParams) empty sameCycleRun ∧
      ∃ s, run (step twoThreadParams) empty sameCycleRun = .ok s ∧
        ∃ r ∈ s.trained, r.inst ∈ s.retired.map Retired.inst ∧ r.inst.isLoad = true ∧
          r.inst.squashedDueToMemOrder = true ∧
          lastCause r.squashes r.inst.seqNum = some false := by
  refine ⟨along_of_test _ (by decide +kernel), ?_⟩
  obtain ⟨s, hrun, hs⟩ := exists_of_holdsAt (run (step twoThreadParams) empty sameCycleRun)
    (fun s => decide (∃ r ∈ s.trained, r.inst ∈ s.retired.map Retired.inst ∧
      r.inst.isLoad = true ∧ r.inst.squashedDueToMemOrder = true ∧
      lastCause r.squashes r.inst.seqNum = some false)) (by decide +kernel)
  exact ⟨s, hrun, of_decide_eq_true hs⟩

/-- A load that comes from rename while its thread is squashed for a violation enters the list
behind the iterator and is never marked. -/
example : ∃ s, run (step twoThreadParams) empty
      [fillLists, .cycle (twoThreads
          (fun tid => if tid = 0 then some ⟨2, false, true⟩ else none) [loadInst 0 5] []),
        .squashInQueues 0 5, idleCycle, idleCycle,
        .cycle (twoThreads (fun _ => none) []
          [(0, .commit false), (0, .wait), (0, .wait)])] = .ok s ∧
      (s.retired.any fun r => r.inst.isLoad && !r.inst.squashedDueToMemOrder &&
        decide (lastCause r.squashes r.inst.seqNum = some true)) = true :=
  exists_of_holdsAt _ (fun s : Commit => s.retired.any fun r => r.inst.isLoad &&
    !r.inst.squashedDueToMemOrder &&
    decide (lastCause r.squashes r.inst.seqNum = some true)) (by decide +kernel)

end Commit

end BTBFerret.CommitSquash
