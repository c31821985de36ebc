import BTBFerret.QueueShape

/-!
# Histories leave in order

The histories of the branches in flight are attached to the targets of the queue or with the
instructions of the thread; predecoding moves them over. A squash undoes the queue from its tail and
then the thread from its young end; a commit takes from the old end. Every history is created once
and leaves once.
-/

namespace BTBFerret

open FallibleRuns List HistoryEvent

/-- What orders a history of the thread. -/
structure Ticket where
  id : Nat
  seqNum : InstSeqNum
  pc : Addr
  startAddress : Addr
  ftNum : FTSeqNum

def PredictorHistory.ticket (h : PredictorHistory) : Ticket :=
  ⟨h.id, h.seqNum, h.pc, h.startAddress, h.ftNum⟩

def ids (hists : List PredictorHistory) : Multiset Nat := ↑(hists.map PredictorHistory.id)

lemma ids_nil : ids [] = 0 := rfl

lemma ids_append (a b : List PredictorHistory) : ids (a ++ b) = ids a + ids b := by
  unfold ids
  rw [map_append, Multiset.coe_add]

lemma ids_reverse (a : List PredictorHistory) : ids a.reverse = ids a := by
  unfold ids
  rw [map_reverse, Multiset.coe_reverse]

lemma ids_cons (h : PredictorHistory) (a : List PredictorHistory) :
    ids (h :: a) = {h.id} + ids a := by
  unfold ids
  rw [map_cons, ← Multiset.cons_coe, Multiset.singleton_add]

/-- A list in which everything that satisfies the test stands first. -/
lemma takeWhile_eq_filter {α : Type} {p : α → Bool} {l : List α}
    (h : l.Pairwise (fun a b => p b = true → p a = true)) :
    l.takeWhile p = l.filter p ∧ l.dropWhile p = l.filter (fun a => !p a) := by
  induction l with
  | nil => exact ⟨rfl, rfl⟩
  | cons a rest ih =>
    rw [pairwise_cons] at h
    cases ha : p a with
    | true =>
      obtain ⟨htake, hdrop⟩ := ih h.2
      rw [takeWhile_cons_of_pos ha, dropWhile_cons_of_pos ha, filter_cons_of_pos ha,
        filter_cons_of_neg (by simp [ha]), htake, hdrop]
      exact ⟨rfl, rfl⟩
    | false =>
      have hnone : ∀ b ∈ rest, p b = false := by
        intro b hb
        cases hpb : p b with
        | false => rfl
        | true => exact (h.1 b hb hpb).symm.trans ha
      have hfalse : ¬ p a = true := by simp [ha]
      rw [takeWhile_cons_of_neg hfalse, dropWhile_cons_of_neg hfalse,
        filter_cons_of_neg hfalse, filter_cons_of_pos (by simp [ha])]
      constructor
      · symm
        rw [filter_eq_nil_iff]
        intro b hb
        simp [hnone b hb]
      · rw [filter_eq_self.mpr]
        intro b hb
        simp [hnone b hb]

namespace Core

def tickets (k : Core) : List Ticket := k.predHist.map PredictorHistory.ticket

def everywhere (k : Core) : Multiset Nat :=
  ids k.ftq.histories + ids k.predHist + ids (k.log.map hist)

end Core

/-! ## Moves that create nothing -/

/-- Histories may leave, but none enters the queue or the thread. -/
structure Thinned (k k' : Core) : Prop where
  tickets : k'.tickets.Sublist k.tickets
  targets : ∀ ft' ∈ k'.ftq.targets, ∃ ft ∈ k.ftq.targets, ft' = ft ∨ ft' = ft.withoutHistory
  seqNum : k.globalSeqNum ≤ k'.globalSeqNum
  ftSeqNum : k'.globalFTSeqNum = k.globalFTSeqNum

/-- Histories may leave, but only into the log. -/
structure Logged (k k' : Core) : Prop extends Thinned k k' where
  everywhere : k'.everywhere = k.everywhere
  nextHistory : k'.nextHistory = k.nextHistory

lemma Logged.refl (k : Core) : Logged k k :=
  ⟨⟨Sublist.refl _, fun ft hft => ⟨ft, hft, .inl rfl⟩, Nat.le_refl _, rfl⟩, rfl, rfl⟩

variable {k k' : Core}

lemma Thinned.trans {k'' : Core} (h : Thinned k k') (h' : Thinned k' k'') : Thinned k k'' := by
  constructor
  · exact h'.tickets.trans h.tickets
  · intro ft'' hft''
    obtain ⟨ft', hft', heq'⟩ := h'.targets ft'' hft''
    obtain ⟨ft, hft, heq⟩ := h.targets ft' hft'
    refine ⟨ft, hft, ?_⟩
    rcases heq' with rfl | rfl
    · exact heq
    · rcases heq with rfl | rfl
      · exact .inr rfl
      · exact .inr rfl
  · exact h.seqNum.trans h'.seqNum
  · exact h'.ftSeqNum.trans h.ftSeqNum

lemma Logged.trans {k'' : Core} (h : Logged k k') (h' : Logged k' k'') : Logged k k'' :=
  ⟨h.toThinned.trans h'.toThinned, h'.everywhere.trans h.everywhere,
    h'.nextHistory.trans h.nextHistory⟩

open FrontEnd

lemma map_squashed_hist (l : List PredictorHistory) :
    (l.map squashed).map hist = l := by
  rw [map_map]
  exact map_id l

lemma map_committed_hist (l : List PredictorHistory) :
    (l.map committed).map hist = l := by
  rw [map_map]
  exact map_id l

lemma logged_undoQueue (k : Core) : Logged k k.undoQueue := by
  refine ⟨⟨?_, ?_, ?_, ?_⟩, ?_, ?_⟩
  · exact Sublist.refl _
  · intro ft' hft'
    obtain ⟨ft, hft, rfl⟩ := mem_map.mp hft'
    exact ⟨ft, hft, .inr rfl⟩
  · exact Nat.le_refl _
  · rfl
  · have hnone := histories_undoQueue k
    unfold Core.everywhere
    rw [hnone]
    change ids [] + ids k.predHist +
      ids ((k.log ++ k.ftq.histories.reverse.map squashed).map hist) = _
    rw [map_append, map_squashed_hist, ids_append, ids_reverse, ids_nil]
    abel
  · rfl

lemma logged_restart (k : Core) (pc : PCState) : Logged k (k.undoQueue.restart pc) := by
  refine (logged_undoQueue k).trans ?_
  refine ⟨⟨?_, ?_, ?_, ?_⟩, ?_, ?_⟩
  · exact Sublist.refl _
  · intro ft hft
    cases hft
  · exact Nat.le_refl _
  · rfl
  · have hnone := histories_undoQueue k
    unfold Core.everywhere
    rw [hnone]
    rfl
  · rfl

lemma logged_undoYounger (k : Core) (sn : InstSeqNum) : Logged k (k.undoYounger sn) := by
  refine ⟨⟨?_, ?_, ?_, ?_⟩, ?_, ?_⟩
  · exact (dropWhile_sublist _).map _
  · exact fun ft hft => ⟨ft, hft, .inl rfl⟩
  · exact Nat.le_refl _
  · rfl
  · have hsplit : ids k.predHist = ids (k.predHist.takeWhile (fun h => sn < h.seqNum)) +
        ids (k.predHist.dropWhile (fun h => sn < h.seqNum)) := by
      rw [← ids_append, takeWhile_append_dropWhile]
    unfold Core.everywhere
    rw [hsplit]
    unfold Core.undoYounger
    rw [map_append, map_squashed_hist, ids_append]
    abel
  · rfl

lemma logged_commit (k : Core) (sn : InstSeqNum) : Logged k (k.commit sn) := by
  refine ⟨⟨?_, ?_, ?_, ?_⟩, ?_, ?_⟩
  · have hdrop := dropWhile_sublist (fun h => decide (h.seqNum ≤ sn)) (l := k.predHist.reverse)
    have hkept := hdrop.reverse
    rw [reverse_reverse] at hkept
    exact hkept.map _
  · exact fun ft hft => ⟨ft, hft, .inl rfl⟩
  · exact Nat.le_refl _
  · rfl
  · have hsplit : ids k.predHist = ids (k.predHist.reverse.takeWhile (fun h => h.seqNum ≤ sn)) +
        ids (k.predHist.reverse.dropWhile (fun h => h.seqNum ≤ sn)) := by
      rw [← ids_append, takeWhile_append_dropWhile, ids_reverse]
    unfold Core.everywhere
    rw [hsplit]
    unfold Core.commit
    rw [map_append, map_committed_hist, ids_append, ids_reverse]
    abel
  · rfl

lemma logged_commitDone (k : Core) (sn : InstSeqNum) : Logged k (k.commitDone sn) := by
  unfold Core.commitDone
  split
  · exact Logged.refl k
  · exact logged_commit k sn

lemma logged_correct (k : Core) {fix : PredictorHistory → PredictorHistory}
    (hfix : Corrects fix) :
    Logged k (k.correct fix) := by
  have hticket : ∀ h, (fix h).ticket = h.ticket := by
    intro h
    unfold PredictorHistory.ticket
    rw [hfix.id, hfix.seqNum, hfix.pc, hfix.startAddress, hfix.ftNum]
  have htickets : (k.correct fix).tickets = k.tickets := by
    unfold Core.tickets Core.correct
    cases k.predHist with
    | nil => rfl
    | cons =>
      rw [modifyHead_cons, map_cons, hticket, map_cons]
  have hids : ids (k.correct fix).predHist = ids k.predHist := by
    have hmap := congrArg (map Ticket.id) htickets
    unfold Core.tickets at hmap
    rw [map_map, map_map] at hmap
    exact congrArg Multiset.ofList hmap
  refine ⟨⟨?_, ?_, ?_, ?_⟩, ?_, ?_⟩
  · rw [htickets]
  · exact fun ft hft => ⟨ft, hft, .inl rfl⟩
  · exact Nat.le_refl _
  · rfl
  · unfold Core.everywhere
    rw [hids]
    rfl
  · rfl

variable {sig : Signals}

lemma Squashes.logged {squashing : Prop} (h : Squashes sig squashing k k') : Logged k k' := by
  have hsquash : ∀ (m : Core) pc sn fix, Corrects fix →
      Logged m (((m.undoQueue.restart pc).undoYounger sn).correct fix) := by
    intro m pc sn fix hfix
    exact ((logged_restart m pc).trans (logged_undoYounger _ sn)).trans (logged_correct _ hfix)
  cases h with
  | commit q _ fix hfix => exact hsquash k q.pc q.doneSeqNum fix hfix
  | decode _ q _ fix hfix =>
    exact (logged_commitDone k _).trans (hsquash _ q.nextPC q.doneSeqNum fix hfix)
  | fetch _ _ pc => exact (logged_commitDone k _).trans (logged_restart _ pc)

variable {c : FrontEndParams}

lemma Checked.logged {B : BranchTargetBuffer} {s t : FrontEnd B} (h : Checked c sig s t) :
    Logged s.core t.core := by
  cases h with
  | squashed move => exact Squashes.logged move
  | drained _ _ core =>
    rw [core]
    exact (logged_commitDone _ _).trans (logged_restart _ _)
  | settled _ _ core =>
    rw [core]
    exact logged_commitDone _ _

/-- Only the queue changes, and only targets without a history leave it. -/
lemma logged_of_ftq {q : FTQ} (hcore : k' = { k with ftq := q })
    (htargets : ∀ ft ∈ q.targets, ft ∈ k.ftq.targets) (hhist : q.histories = k.ftq.histories) :
    Logged k k' := by
  subst hcore
  refine ⟨⟨?_, ?_, ?_, ?_⟩, ?_, ?_⟩
  · exact Sublist.refl _
  · exact fun ft hft => ⟨ft, htargets ft hft, .inl rfl⟩
  · exact Nat.le_refl _
  · rfl
  · unfold Core.everywhere
    rw [hhist]
  · rfl

lemma Popped.logged {q : FTQ} (h : Popped k.ftq q) (hcore : k' = { k with ftq := q }) :
    Logged k k' := by
  have hrest : ∀ head rest, k.ftq.targets = head :: rest → head.bpuHistory = none →
      (∀ ft ∈ rest, ft ∈ k.ftq.targets) ∧
        rest.filterMap FetchTarget.bpuHistory = k.ftq.histories := by
    intro head rest htargets hhist
    unfold FTQ.histories
    rw [htargets, filterMap_cons_none hhist]
    exact ⟨fun ft hft => mem_cons_of_mem head hft, rfl⟩
  cases h with
  | kept => exact logged_of_ftq hcore (fun _ h => h) rfl
  | unlocked head rest htargets hhist | popped head rest htargets hhist =>
    obtain ⟨hmem, hsame⟩ := hrest head rest htargets hhist
    exact logged_of_ftq hcore hmem hsame

lemma logged_count (k : Core) : Logged k k.count :=
  ⟨⟨Sublist.refl _, fun ft hft => ⟨ft, hft, .inl rfl⟩, Nat.le_succ _, rfl⟩, rfl, rfl⟩

/-! ## The order of the branches in flight -/

structure Ordered (k : Core) : Prop where
  sorted : k.tickets.Pairwise (fun a b => b.seqNum < a.seqNum)
  numbered : ∀ a ∈ k.tickets, 0 < a.seqNum ∧ a.seqNum < k.globalSeqNum ∧ a.ftNum < k.globalFTSeqNum
  counting : 0 < k.globalSeqNum
  attached : ∀ ft ∈ k.ftq.targets, ∀ h, ft.bpuHistory = some h →
    ft.isBranch = true ∧ h.pc = ft.endAddress
  older : ∀ a ∈ k.tickets, ∀ ft ∈ k.ftq.targets, a.ftNum ≤ ft.ftNum
  inside : ∀ a ∈ k.tickets, ∀ ft ∈ k.ftq.targets, a.ftNum = ft.ftNum → ft.bpuHistory.isSome = true →
    a.pc < ft.endAddress

lemma Ordered.thinned (h : Ordered k) (hthin : Thinned k k') : Ordered k' := by
  constructor
  · exact h.sorted.sublist hthin.tickets
  · intro a ha
    obtain ⟨hpos, hseq, hft⟩ := h.numbered a (hthin.tickets.subset ha)
    rw [hthin.ftSeqNum]
    exact ⟨hpos, Nat.lt_of_lt_of_le hseq hthin.seqNum, hft⟩
  · exact Nat.lt_of_lt_of_le h.counting hthin.seqNum
  · intro ft' hft' g hg
    obtain ⟨ft, hft, rfl | rfl⟩ := hthin.targets ft' hft'
    · exact h.attached ft' hft g hg
    · cases hg
  · intro a ha ft' hft'
    obtain ⟨ft, hft, rfl | rfl⟩ := hthin.targets ft' hft'
    · exact h.older a (hthin.tickets.subset ha) ft' hft
    · exact h.older a (hthin.tickets.subset ha) ft hft
  · intro a ha ft' hft' hnum hsome
    obtain ⟨ft, hft, rfl | rfl⟩ := hthin.targets ft' hft'
    · exact h.inside a (hthin.tickets.subset ha) ft' hft hnum hsome
    · cases hsome

variable {ft : FetchTarget}

lemma Ordered.push {nextPC : PCState} (h : Ordered k) (hpush : Pushed c k k' ft nextPC) :
    Ordered k' := by
  rw [hpush.moved]
  constructor
  · exact h.sorted
  · intro a ha
    obtain ⟨hpos, hseq, hft⟩ := h.numbered a ha
    exact ⟨hpos, hseq, Nat.lt_succ_of_lt hft⟩
  · exact h.counting
  · intro ft' hft' g hg
    rcases mem_append.mp hft' with hold | hnew
    · exact h.attached ft' hold g hg
    · rw [mem_singleton.mp hnew] at hg ⊢
      obtain ⟨_, hpc, hbranch⟩ := hpush.history g hg
      exact ⟨hbranch, hpc⟩
  · intro a ha ft' hft'
    rcases mem_append.mp hft' with hold | hnew
    · exact h.older a ha ft' hold
    · rw [mem_singleton.mp hnew, hpush.ftNum]
      exact (h.numbered a ha).2.2.le
  · intro a ha ft' hft' hnum hsome
    rcases mem_append.mp hft' with hold | hnew
    · exact h.inside a ha ft' hold hnum hsome
    · rw [mem_singleton.mp hnew, hpush.ftNum] at hnum
      exact absurd hnum (h.numbered a ha).2.2.ne

lemma Ordered.pushes (h : Ordered k) (hpushes : Pushes c k k') : Ordered k' := by
  induction hpushes with
  | refl => exact h
  | tail _ hpush ih =>
    obtain ⟨_, _, hpush⟩ := hpush
    exact ih.push hpush

/-! ## A branch is predecoded -/

lemma Ordered.insert {g : PredictorHistory} (h : Ordered k)
    (hyoungest : ∀ a ∈ k.tickets, a.seqNum < g.seqNum) (hpos : 0 < g.seqNum)
    (hseq : g.seqNum < k.globalSeqNum) (hft : g.ftNum < k.globalFTSeqNum)
    (holder : ∀ ft ∈ k.ftq.targets, g.ftNum ≤ ft.ftNum)
    (hinside : ∀ ft ∈ k.ftq.targets, g.ftNum = ft.ftNum → ft.bpuHistory.isSome = true →
      g.pc < ft.endAddress) : Ordered (k.insert g) := by
  constructor
  · exact pairwise_cons.mpr ⟨hyoungest, h.sorted⟩
  · intro a ha
    rcases mem_cons.mp ha with rfl | hold
    · exact ⟨hpos, hseq, hft⟩
    · exact h.numbered a hold
  · exact h.counting
  · exact h.attached
  · intro a ha ft hft
    rcases mem_cons.mp ha with rfl | hold
    · exact holder ft hft
    · exact h.older a hold ft hft
  · intro a ha ft hft hnum hsome
    rcases mem_cons.mp ha with rfl | hold
    · exact hinside ft hft hnum hsome
    · exact h.inside a hold ft hft hnum hsome

variable {inst : StaticInst} {addr : Addr}

lemma Found.thinned {u : Core} {h : PredictorHistory} (hfound : Found k ft inst addr u h)
    (hhead : k.ftq.readHead = some ft) : Thinned k u := by
  obtain ⟨_, _, htargets⟩ := targets_of_readHead hhead
  cases hfound with
  | moved =>
    refine ⟨Sublist.refl _, ?_, Nat.le_refl _, rfl⟩
    intro ft' hft'
    rcases mem_cons.mp hft' with rfl | hrest
    · exact ⟨ft, by simp [htargets], .inr rfl⟩
    · exact ⟨ft', mem_of_mem_tail hrest, .inl rfl⟩
  | recovered =>
    have hundo := (logged_undoQueue k).toThinned
    exact ⟨hundo.tickets, hundo.targets, hundo.seqNum, hundo.ftSeqNum⟩
  | placeholder =>
    exact ⟨Sublist.refl _, fun ft hft => ⟨ft, hft, .inl rfl⟩, Nat.le_refl _, rfl⟩

lemma Found.inside {u : Core} {h : PredictorHistory} (hfound : Found k ft inst addr u h)
    (hordered : Ordered k) (hincreasing : k.ftq.targets.Pairwise (fun a b => a.ftNum < b.ftNum))
    (hhead : k.ftq.readHead = some ft) (hrange : ft.inRange addr = true) :
    ∀ ft' ∈ u.ftq.targets, ft.ftNum = ft'.ftNum → ft'.bpuHistory.isSome = true →
      h.pc < ft'.endAddress := by
  obtain ⟨_, _, htargets⟩ := targets_of_readHead hhead
  rw [htargets, pairwise_cons] at hincreasing
  intro ft' hft' hnum hsome
  cases hfound with
  | moved =>
    rcases mem_cons.mp hft' with rfl | hrest
    · cases hsome
    · rw [htargets] at hrest
      exact absurd hnum (hincreasing.1 ft' hrest).ne
  | recovered =>
    obtain ⟨_, _, rfl⟩ := mem_map.mp hft'
    cases hsome
  | placeholder _ hexit _ _ hpc =>
    have hmem : ft' ∈ k.ftq.targets := hft'
    rw [htargets] at hmem
    rcases mem_cons.mp hmem with rfl | hrest
    · obtain ⟨g, hg⟩ := Option.isSome_iff_exists.mp hsome
      have hbranch := (hordered.attached ft' hft' g hg).1
      -- the history was not taken, so the branch is not the one at the end
      have hne : addr ≠ ft'.endAddress := by
        rintro rfl
        unfold exitHistory FetchTarget.isExitBranch at hexit
        rw [hbranch, beq_self_eq_true, hg] at hexit
        cases hexit
      unfold FetchTarget.inRange at hrange
      simp only [Bool.and_eq_true, decide_eq_true_eq] at hrange
      rw [hpc]
      exact BitVec.lt_of_le_ne hrange.2 hne
    · exact absurd hnum (hincreasing.1 ft' hrest).ne

lemma Ordered.predecoded (h : Ordered k) (hlinked : Linked c k)
    (hpre : Predecoded k.count k' ft inst addr k.globalSeqNum) (hhead : k.ftq.readHead = some ft) :
    Ordered k' := by
  obtain ⟨_, _, _, hfound, henter, rfl⟩ := hpre.entered
  obtain ⟨_, _, htargets⟩ := targets_of_readHead hhead
  have hft : ft ∈ k.ftq.targets := by simp [htargets]
  have hthin := Found.thinned hfound hhead
  have hcount := h.thinned (logged_count k).toThinned
  have hordered := hcount.thinned hthin
  refine hordered.insert ?_ ?_ ?_ ?_ ?_ ?_
  · intro a ha
    rw [henter.seqNum]
    exact (h.numbered a (hthin.tickets.subset ha)).2.1
  · rw [henter.seqNum]
    exact h.counting
  · rw [henter.seqNum]
    exact Nat.lt_of_lt_of_le (Nat.lt_succ_self _) hthin.seqNum
  · rw [henter.ftNum, hthin.ftSeqNum]
    exact hlinked.below ft hft
  · intro ft' hft'
    have hincreasing := hlinked.increasing
    rw [htargets, pairwise_cons] at hincreasing
    have hle : ∀ ft₀ ∈ k.ftq.targets, ft.ftNum ≤ ft₀.ftNum := by
      intro ft₀ hft₀
      rw [htargets] at hft₀
      rcases mem_cons.mp hft₀ with rfl | hrest
      · exact Nat.le_refl _
      · exact (hincreasing.1 ft₀ hrest).le
    rw [henter.ftNum]
    obtain ⟨ft₀, hft₀, rfl | rfl⟩ := hthin.targets ft' hft'
    · exact hle ft' hft₀
    · exact hle ft₀ hft₀
  · intro ft' hft' hnum hsome
    rw [henter.pc]
    rw [henter.ftNum] at hnum
    exact Found.inside hfound hcount hlinked.increasing hhead hpre.inRange ft' hft' hnum hsome

/-! ## Every history is created once and leaves once -/

/-- The histories that were created are all somewhere, each in one place. -/
def Whole (k : Core) : Prop := k.everywhere = Multiset.range k.nextHistory

lemma Whole.logged (h : Whole k) (hlog : Logged k k') : Whole k' := by
  unfold Whole
  rw [hlog.everywhere, hlog.nextHistory]
  exact h

lemma Whole.push {nextPC : PCState} (h : Whole k) (hpush : Pushed c k k' ft nextPC) :
    Whole k' := by
  have hhist : (k.push ft nextPC).ftq.histories = k.ftq.histories ++ ft.bpuHistory.toList := by
    change (k.ftq.targets ++ [ft]).filterMap FetchTarget.bpuHistory = _
    rw [filterMap_append]
    cases hft : ft.bpuHistory with
    | none => rw [filterMap_cons_none hft]; rfl
    | some => rw [filterMap_cons_some hft]; rfl
  rw [hpush.moved]
  unfold Whole Core.everywhere at h ⊢
  rw [hhist, ids_append]
  change _ + ids k.predHist + ids (k.log.map hist) =
    Multiset.range (if ft.bpuHistory.isSome then k.nextHistory + 1 else k.nextHistory)
  cases hft : ft.bpuHistory with
  | none =>
    change ids k.ftq.histories + ids [] + _ + _ = Multiset.range k.nextHistory
    rw [ids_nil, add_zero]
    exact h
  | some g =>
    have hid := (hpush.history g hft).1
    change ids k.ftq.histories + ids [g] + _ + _ = Multiset.range (k.nextHistory + 1)
    rw [Multiset.range_succ, ← Multiset.singleton_add, ← h, ids_cons, ids_nil, hid]
    abel

lemma Whole.pushes (h : Whole k) (hpushes : Pushes c k k') : Whole k' := by
  induction hpushes with
  | refl => exact h
  | tail _ hpush ih =>
    obtain ⟨_, _, hpush⟩ := hpush
    exact ih.push hpush

lemma whole_create_insert {g : PredictorHistory} (h : Whole k) (hid : g.id = k.nextHistory) :
    Whole (k.create.insert g) := by
  unfold Whole Core.everywhere at h ⊢
  change ids k.ftq.histories + ids (g :: k.predHist) + ids (k.log.map hist) =
    Multiset.range (k.nextHistory + 1)
  rw [Multiset.range_succ, ← Multiset.singleton_add, ← h, ids_cons, hid]
  abel

lemma Whole.predecoded {seqNum : InstSeqNum} (h : Whole k)
    (hpre : Predecoded k k' ft inst addr seqNum) (hhead : k.ftq.readHead = some ft) : Whole k' := by
  obtain ⟨u, h', g, hfound, henter, rfl⟩ := hpre.entered
  obtain ⟨_, _, htargets⟩ := targets_of_readHead hhead
  cases hfound with
  | moved h' hexit =>
    have hhist : ft.bpuHistory = some h' := by
      unfold exitHistory at hexit
      split at hexit
      · exact hexit
      · cases hexit
    unfold Whole Core.everywhere FTQ.histories at h ⊢
    rw [htargets, filterMap_cons_some hhist] at h
    change ids ((ft.withoutHistory :: k.ftq.targets.tail).filterMap FetchTarget.bpuHistory) +
      ids (g :: k.predHist) + ids (k.log.map hist) = Multiset.range k.nextHistory
    rw [htargets, tail_cons, filterMap_cons_none rfl, ← h, ids_cons, ids_cons, henter.id]
    abel
  | recovered _ _ hid =>
    have hundone : Whole k.undoQueue := h.logged (logged_undoQueue k)
    exact whole_create_insert (k := k.undoQueue.lock) hundone (henter.id.trans hid)
  | placeholder _ _ _ hid => exact whole_create_insert h (henter.id.trans hid)

namespace FrontEnd

variable {B : BranchTargetBuffer} {c : FrontEndParams} {s : FrontEnd B}

lemma Moved.logged {t : FrontEnd B} {op : FrontEndOp B} (hmove : Moved c s t op)
    (htick : ∀ tid sig answers, op ≠ .tick tid sig answers)
    (hplain : ∀ tid inst pc ans, op = .updatePC tid inst pc ans → inst.isControl = false) :
    Logged s.core t.core := by
  have hsame : t.core = s.core → Logged s.core t.core := by
    intro hcore
    rw [hcore]
    exact Logged.refl s.core
  cases hmove with
  | tick tid sig answers => exact absurd rfl (htick tid sig answers)
  | branch tid inst pc ans _ control =>
    rw [hplain tid inst pc ans rfl] at control
    cases control
  | plain _ _ _ _ _ core =>
    rw [core]
    exact logged_count s.core
  | popHead _ pop core => exact Popped.logged (k := s.core) pop core
  | bacResteer core =>
    refine logged_of_ftq core ?_ ?_
    · intro ft hft
      unfold FTQ.invalidate at hft
      split at hft
      · exact hft
      · exact hft
    · unfold FTQ.invalidate
      split
      · rfl
      · rfl
  | drainStall core | drainResume core | btbEvent _ core => exact hsame core

lemma Moved.orders {t : FrontEnd B} {op : FrontEndOp B} (hmove : Moved c s t op)
    (hlinked : Linked c s.core) (hordered : Ordered s.core) (hwhole : Whole s.core) :
    Ordered t.core ∧ Whole t.core := by
  have hother : (∀ tid sig answers, op ≠ .tick tid sig answers) →
      (∀ tid inst pc ans, op = .updatePC tid inst pc ans → inst.isControl = false) →
      Ordered t.core ∧ Whole t.core := by
    intro htick hplain
    have hlog := hmove.logged htick hplain
    exact ⟨hordered.thinned hlog.toThinned, hwhole.logged hlog⟩
  cases hmove with
  | tick _ _ _ _ checked generated =>
    have hlog := Checked.logged checked
    have hu := hordered.thinned hlog.toThinned
    have hu' := hwhole.logged hlog
    cases generated with
    | targets _ pushes => exact ⟨hu.pushes pushes, hu'.pushes pushes⟩
    | nothing _ hcore =>
      rw [hcore]
      exact ⟨hu, hu'⟩
  | branch _ _ _ _ _ _ head core =>
    exact ⟨hordered.predecoded hlinked core head,
      (hwhole.logged (logged_count s.core)).predecoded core head⟩
  | plain _ _ _ _ control =>
    refine hother (fun _ _ _ h => by cases h) ?_
    rintro _ _ _ _ ⟨⟩
    exact control
  | popHead | bacResteer | drainStall | drainResume | btbEvent =>
    exact hother (fun _ _ _ h => by cases h) (fun _ _ _ _ h => by cases h)

lemma ordered_init (btb : B.State) (pc : PCState) : Ordered (init btb pc).core := by
  constructor
  · exact List.Pairwise.nil
  · rintro a ⟨⟩
  · exact Nat.one_pos
  · rintro ft ⟨⟩
  · rintro a ⟨⟩
  · rintro a ⟨⟩

lemma whole_init (btb : B.State) (pc : PCState) : Whole (init btb pc).core := by
  rfl

lemma reached_ordered (hdec : c.decoupledFrontEnd = true) {btb : B.State} {pc : PCState}
    {ops : List (FrontEndOp B)} (h : Reached c btb pc ops s) :
    Linked c s.core ∧ Ordered s.core ∧ Whole s.core := by
  refine run_invariant_always (fun s => Linked c s.core ∧ Ordered s.core ∧ Whole s.core) ?_
    ⟨linked_of_empty rfl, ordered_init btb pc, whole_init btb pc⟩ h
  rintro s op t ⟨hlinked, hordered, hwhole⟩ hstep
  have hmove := ((meets_step hdec s op).of_ok hstep).1
  exact ⟨hlinked.moved hmove.queueMove, hmove.orders hlinked hordered hwhole⟩

end FrontEnd

/-! ## What leaves, and in which order -/

def undone (q : FTQ) : List HistoryEvent := q.histories.reverse.map .squashed

/-- The histories after a sequence number are undone, from the youngest to the oldest. -/
def squashedAfter (sn : InstSeqNum) (hists : List PredictorHistory) : List HistoryEvent :=
  (hists.filter (fun h => sn < h.seqNum)).map .squashed

/-- The histories up to a sequence number are committed, from the oldest to the youngest. -/
def committedUpTo (sn : InstSeqNum) (hists : List PredictorHistory) : List HistoryEvent :=
  (hists.reverse.filter (fun h => h.seqNum ≤ sn)).map .committed

lemma Ordered.takeWhile (h : Ordered k) (sn : InstSeqNum) :
    k.predHist.takeWhile (fun h => sn < h.seqNum) = k.predHist.filter (fun h => sn < h.seqNum) := by
  refine (takeWhile_eq_filter ?_).1
  refine (pairwise_map.mp h.sorted).imp ?_
  intro a b hab hb
  rw [decide_eq_true_iff] at hb ⊢
  exact Nat.lt_trans hb hab

lemma Ordered.commit_log (h : Ordered k) (sn : InstSeqNum) :
    (k.commitDone sn).log = k.log ++ committedUpTo sn k.predHist ∧
    (k.commitDone sn).predHist = k.predHist.filter (fun h => sn < h.seqNum) := by
  have hsorted : k.predHist.reverse.Pairwise
      (fun a b => decide (b.seqNum ≤ sn) = true → decide (a.seqNum ≤ sn) = true) := by
    rw [pairwise_reverse]
    refine (pairwise_map.mp h.sorted).imp ?_
    intro a b hab hb
    rw [decide_eq_true_iff] at hb ⊢
    exact (Nat.le_of_lt hab).trans hb
  obtain ⟨htake, hdrop⟩ := takeWhile_eq_filter hsorted
  have hcommit : (k.commit sn).log = k.log ++ committedUpTo sn k.predHist ∧
      (k.commit sn).predHist = k.predHist.filter (fun h => sn < h.seqNum) := by
    unfold Core.commit committedUpTo
    rw [htake, hdrop]
    refine ⟨rfl, ?_⟩
    rw [filter_reverse, reverse_reverse]
    refine filter_congr ?_
    intro g _
    rw [← decide_not, decide_eq_decide]
    exact Nat.not_le
  unfold Core.commitDone
  split
  · rename_i hzero
    -- sequence numbers start at one, so that nothing is done up to zero
    have hpos : ∀ g ∈ k.predHist, 0 < g.seqNum :=
      fun g hg => (h.numbered g.ticket (mem_map_of_mem hg)).1
    rw [hzero]
    constructor
    · unfold committedUpTo
      rw [filter_eq_nil_iff.mpr, map_nil, append_nil]
      intro g hg
      rw [decide_eq_true_iff]
      exact Nat.not_le_of_lt (hpos g (mem_reverse.mp hg))
    · rw [filter_eq_self.mpr]
      intro g hg
      exact decide_eq_true (hpos g hg)
  · exact hcommit

namespace FrontEnd

variable {B : BranchTargetBuffer} {c : FrontEndParams}

/-- What leaves with one operation, in order. -/
def leaving (s : FrontEnd B) : FrontEndOp B → List HistoryEvent
  | .tick _ sig _ =>
    match sig.commitSquash with
    | some q => undone s.ftq ++ squashedAfter q.doneSeqNum (s.bpu.predHist 0)
    | none => committedUpTo sig.doneSeqNum (s.bpu.predHist 0) ++
      match sig.decodeSquash with
      | some q => undone s.ftq ++ squashedAfter q.doneSeqNum
          ((s.bpu.predHist 0).filter (fun h => sig.doneSeqNum < h.seqNum))
      | none =>
        if (sig.fetchSquash.isSome = true ∧ s.bacStatus ≠ .squashing) ∨ s.stalls.drain = true then
          undone s.ftq
        else []
  | .updatePC _ inst pc _ =>
    match s.ftq.readHead with
    | some ft => if inst.isControl && recovers ft inst pc.instAddr then undone s.ftq else []
    | none => []
  | _ => []

lemma Squashes.log {squashing : Prop} (h : Ordered k) (hsquash : Squashes sig squashing k k') :
    (∃ q, sig.commitSquash = some q ∧
      k'.log = k.log ++ (undone k.ftq ++ squashedAfter q.doneSeqNum k.predHist)) ∨
    (∃ q, sig.commitSquash = none ∧ sig.decodeSquash = some q ∧
      k'.log = k.log ++ (committedUpTo sig.doneSeqNum k.predHist ++ (undone k.ftq ++
        squashedAfter q.doneSeqNum (k.predHist.filter (fun h => sig.doneSeqNum < h.seqNum))))) ∨
    (sig.commitSquash = none ∧ sig.decodeSquash = none ∧ sig.fetchSquash.isSome = true ∧
      ¬ squashing ∧
      k'.log = k.log ++ (committedUpTo sig.doneSeqNum k.predHist ++ undone k.ftq)) := by
  have hrest := commitDone_rest k sig.doneSeqNum
  obtain ⟨hlog, hhist⟩ := h.commit_log sig.doneSeqNum
  have hdone := h.thinned (logged_commitDone k sig.doneSeqNum).toThinned
  cases hsquash with
  | commit q hq =>
    refine .inl ⟨q, hq, ?_⟩
    change k.log ++ undone k.ftq ++ (k.predHist.takeWhile _).map squashed = _
    rw [h.takeWhile, append_assoc]
    rfl
  | decode hnone q hq =>
    refine .inr (.inl ⟨q, hnone, hq, ?_⟩)
    change (k.commitDone sig.doneSeqNum).log ++ undone (k.commitDone sig.doneSeqNum).ftq ++
      ((k.commitDone sig.doneSeqNum).predHist.takeWhile _).map squashed = _
    rw [hdone.takeWhile, hlog, hhist, hrest.ftq, append_assoc, append_assoc]
    rfl
  | fetch hnone hdecode _ hpc hbusy =>
    refine .inr (.inr ⟨hnone, hdecode, by rw [hpc]; rfl, hbusy, ?_⟩)
    change (k.commitDone sig.doneSeqNum).log ++ undone (k.commitDone sig.doneSeqNum).ftq = _
    rw [hlog, hrest.ftq, append_assoc]

lemma Pushes.log (h : Pushes c k k') : k'.log = k.log := by
  induction h with
  | refl => rfl
  | tail _ hpush ih =>
    obtain ⟨_, _, hpush⟩ := hpush
    rw [hpush.moved]
    exact ih

lemma Generated.log {s t : FrontEnd B} (h : Generated c s t) : t.bpu.log = s.bpu.log := by
  cases h with
  | targets _ pushes => exact Pushes.log pushes
  | nothing _ core => exact congrArg Core.log core

lemma Checked.log {s t : FrontEnd B} (hchecked : Checked c sig s t) (h : Ordered s.core)
    (tid : ThreadID) (answers : Nat → Answers) :
    t.bpu.log = s.bpu.log ++ s.leaving (.tick tid sig answers) := by
  have hrest := commitDone_rest s.core sig.doneSeqNum
  have hlog := (h.commit_log sig.doneSeqNum).1
  unfold leaving
  cases hchecked with
  | squashed move =>
    rcases Squashes.log h move with ⟨q, hq, hl⟩ | ⟨q, hnone, hq, hl⟩ |
      ⟨hnone, hdecode, hfetch, hbusy, hl⟩
    · simp only [hq]
      exact hl
    · simp only [hnone, hq]
      exact hl
    · simp only [hnone, hdecode]
      rw [if_pos (.inl ⟨hfetch, hbusy⟩)]
      exact hl
  | drained quiet draining core =>
    have hl : t.bpu.log = (s.core.commitDone sig.doneSeqNum).log ++
        undone (s.core.commitDone sig.doneSeqNum).ftq := congrArg Core.log core
    rw [hlog, hrest.ftq, append_assoc] at hl
    simp only [quiet.commit, quiet.decode]
    rw [if_pos (.inr draining)]
    exact hl
  | settled quiet draining core =>
    have hl : t.bpu.log = _ := (congrArg Core.log core).trans hlog
    simp only [quiet.commit, quiet.decode]
    rw [if_neg, append_nil]
    · exact hl
    · rintro (⟨hfetch, hbusy⟩ | hdrain)
      · rcases quiet.fetch with hnone | hsquashing
        · rw [hnone] at hfetch
          cases hfetch
        · exact hbusy hsquashing
      · rw [draining] at hdrain
        cases hdrain

lemma Moved.log {s t : FrontEnd B} {op : FrontEndOp B} (hmove : Moved c s t op)
    (h : Ordered s.core) : t.bpu.log = s.bpu.log ++ s.leaving op := by
  cases hmove with
  | tick tid _ answers _ checked generated =>
    rw [generated.log]
    exact checked.log h tid answers
  | branch _ _ _ _ _ control head core =>
    obtain ⟨u, _, _, hfound, _, hcore⟩ := core.entered
    have hl : t.bpu.log = u.log := congrArg Core.log hcore
    rw [hl]
    unfold leaving
    simp only [head, control, Bool.true_and]
    cases hfound with
    | moved _ _ hrec => simp only [hrec]; exact (append_nil _).symm
    | recovered _ hrec => simp only [hrec]; rfl
    | placeholder _ _ hrec => simp only [hrec]; exact (append_nil _).symm
  | plain _ _ _ _ control core =>
    have hl : t.bpu.log = s.bpu.log := congrArg Core.log core
    rw [hl]
    unfold leaving
    simp only [control, Bool.false_and]
    split
    · exact (append_nil _).symm
    · exact (append_nil _).symm
  | popHead _ _ core | bacResteer core | drainStall core | drainResume core | btbEvent _ core =>
    exact (congrArg Core.log core).trans (append_nil _).symm

/-- In every reachable state of the decoupled front end the thread is sorted, the histories of the
queue are younger, and every history ever created is in the queue, with the thread or in the log,
once. Each operation appends to the log what leaves, in order. -/
theorem histories_leave_in_order (hdec : c.decoupledFrontEnd = true) {btb : B.State} {pc : PCState}
    {ops : List (FrontEndOp B)} {s : FrontEnd B} (h : Reached c btb pc ops s) :
    (s.bpu.predHist 0).Pairwise (fun a b => b.seqNum < a.seqNum) ∧
    s.ftq.targets.Pairwise (fun a b => a.ftNum < b.ftNum) ∧
    (∀ g ∈ s.bpu.predHist 0, ∀ ft ∈ s.ftq.targets, ∀ h, ft.bpuHistory = some h →
      g.ftNum < ft.ftNum ∨ (g.ftNum = ft.ftNum ∧ g.pc < h.pc)) ∧
    ((s.ftq.histories ++ s.bpu.predHist 0 ++ s.bpu.log.map HistoryEvent.hist).map
      PredictorHistory.id).Perm (List.range s.bpu.nextHistory) ∧
    ∀ op t, s.step c op = .ok t → t.bpu.log = s.bpu.log ++ s.leaving op := by
  obtain ⟨hlinked, hordered, hwhole⟩ := reached_ordered hdec h
  refine ⟨pairwise_map.mp hordered.sorted, hlinked.increasing, ?_, ?_, ?_⟩
  · intro g hg ft hft h' hh'
    have hticket : g.ticket ∈ s.core.tickets := mem_map_of_mem hg
    rcases Nat.lt_or_eq_of_le (hordered.older _ hticket ft hft) with hlt | heq
    · exact .inl hlt
    · refine .inr ⟨heq, ?_⟩
      rw [(hordered.attached ft hft h' hh').2]
      exact hordered.inside _ hticket ft hft heq (by rw [hh']; rfl)
  · rw [← Multiset.coe_eq_coe]
    change ids (s.ftq.histories ++ s.bpu.predHist 0 ++ s.bpu.log.map HistoryEvent.hist) = _
    rw [ids_append, ids_append]
    exact hwhole
  · intro op t hstep
    exact ((meets_step hdec s op).of_ok hstep).1.log hordered

/-- One history of two has left. -/
theorem histories_leave_in_order_small :
    ∃ s, ReachedSmall (.small 4) learnBranch s ∧ s.bpu.nextHistory = 2 ∧ s.bpu.log.length = 1 ∧
      ((s.ftq.histories ++ s.bpu.predHist 0 ++ s.bpu.log.map hist).map
        PredictorHistory.id).Perm (range s.bpu.nextHistory) := by
  obtain ⟨s, hs, htest⟩ := exists_reached (.small 4) learnBranch
    (fun s => s.bpu.nextHistory == 2 && s.bpu.log.length == 1) (by decide +kernel)
  simp only [Bool.and_eq_true, beq_iff_eq] at htest
  exact ⟨s, hs, htest.1, htest.2, (histories_leave_in_order rfl hs).2.2.2.1⟩

end FrontEnd

end BTBFerret
