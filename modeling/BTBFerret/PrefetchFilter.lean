import BTBFerret.FetchDirectedPrefetcher

/-!
# The duplicate filter of the fetch-directed prefetcher

The filter is exact for block addresses that an `int` can hold. As long as only such
blocks are announced, the two queues together never have a block twice.
-/

namespace BTBFerret

open FallibleRuns List

namespace Prefetcher

open PrefetchRequest

/-- Narrowing to an `int` and widening again keeps the address. -/
def IntSized (a : Addr) : Prop := (a.truncate 32).signExtend 64 = a

instance (a : Addr) : Decidable (IntSized a) := inferInstanceAs (Decidable (_ = _))

lemma found_iff {q : List PrefetchRequest} {a : Addr} (ha : IntSized a) :
    found q a = true ↔ a ∈ q.map addr := by
  unfold found eqInt
  rw [ha, any_eq_true, mem_map]
  constructor
  · rintro ⟨r, hr, heq⟩
    exact ⟨r, hr, eq_of_beq heq⟩
  · rintro ⟨r, hr, rfl⟩
    exact ⟨r, hr, beq_self_eq_true r.addr⟩

namespace FetchDirectedPrefetcher

variable {p : PrefetcherParams}

structure Filtered (s : FetchDirectedPrefetcher) : Prop where
  nodup : s.queued.Nodup
  skipped : ∀ b q, (b, q) ∈ s.skipped → b ∈ q

lemma Filtered.init : Filtered init := ⟨nodup_nil, by rintro b q ⟨⟩⟩

variable {s : FetchDirectedPrefetcher}

lemma Filtered.subperm {t : FetchDirectedPrefetcher} (h : Filtered s)
    (hqueued : t.queued.Subperm s.queued) (hskipped : t.skipped = s.skipped) : Filtered t := by
  constructor
  · obtain ⟨l, hperm, hsub⟩ := hqueued
    exact hperm.nodup_iff.mp (h.nodup.sublist hsub)
  · rw [hskipped]
    exact h.skipped

lemma Filtered.skip (h : Filtered s) {b : Addr} (hb : b ∈ s.queued) : Filtered (s.skip b) := by
  constructor
  · exact h.nodup
  · intro a q haq
    rcases mem_append.mp haq with hold | hnew
    · exact h.skipped a q hold
    · obtain ⟨rfl, rfl⟩ := Prod.mk.inj (mem_singleton.mp hnew)
      exact hb

/-- The request found first and the others are the whole queue. -/
lemma perm_cons_eraseP {q : List PrefetchRequest} {test : PrefetchRequest → Bool}
    {r : PrefetchRequest} (h : q.find? test = some r) : q.Perm (r :: q.eraseP test) := by
  induction q with
  | nil => cases h
  | cons a _ ih =>
    by_cases ha : test a = true
    · rw [find?_cons_of_pos ha] at h
      obtain rfl := Option.some.inj h
      rw [eraseP_cons_of_pos ha]
    · rw [find?_cons_of_neg ha] at h
      rw [eraseP_cons_of_neg ha]
      exact ((ih h).cons a).trans (Perm.swap r a _)

lemma Filtered.translationComplete (h : Filtered s) (id : Nat) (t : Translation) :
    Meets (s.translationComplete p id t) Filtered (fun _ => True) := by
  unfold FetchDirectedPrefetcher.translationComplete
  split
  · trivial
  · rename_i r hfind
    have hperm := perm_cons_eraseP hfind
    dsimp only
    -- the request leaves, and possibly comes back to the other queue
    have hmoved : (s.pfq ++ [r.createPkt (t.curTick + p.latency)] ++
        s.translationq.eraseP fun r => r.id == id).map addr |>.Perm s.queued := by
      unfold queued
      rw [append_assoc, map_append, map_append, map_append]
      exact Perm.append_left _ (hperm.symm.map addr)
    have hleft : (s.pfq ++ s.translationq.eraseP fun r => r.id == id).map addr
        |>.Sublist s.queued :=
      ((Sublist.refl s.pfq).append eraseP_sublist).map addr
    unfold enqueue
    split
    · exact h.subperm hleft.subperm rfl
    · split
      · exact h.subperm hmoved.subperm rfl
      · exact h.subperm hleft.subperm rfl

lemma Filtered.notifyBlock (h : Filtered s) (ft : FetchTarget) (now : Option Translation)
    {b : Addr} (hb : IntSized b) : Meets (s.notifyBlock p ft now b) Filtered (fun _ => True) := by
  unfold FetchDirectedPrefetcher.notifyBlock
  split
  · rename_i hfound
    refine h.skip ?_
    unfold queued
    rw [map_append]
    exact mem_append_left _ ((found_iff hb).mp hfound)
  · rename_i hpfq
    split
    · rename_i hfound
      refine h.skip ?_
      unfold queued
      rw [map_append]
      exact mem_append_right _ ((found_iff hb).mp hfound)
    · rename_i htq
      split
      · exact h.subperm (Subperm.refl _) rfl
      · have hfresh : b ∉ s.queued := by
          unfold queued
          rw [map_append, mem_append]
          rintro (hin | hin)
          · exact hpfq ((found_iff hb).mpr hin)
          · exact htq ((found_iff hb).mpr hin)
        have hadded : Filtered { s with
            translationq := s.translationq ++ [.create s.nextRequest b ft.ftNum]
            nextRequest := s.nextRequest + 1 } := by
          constructor
          · change ((s.pfq ++ (s.translationq ++ [_])).map addr).Nodup
            rw [← append_assoc, map_append, map_singleton, ← concat_eq_append]
            exact h.nodup.concat hfresh
          · exact h.skipped
        dsimp only
        split
        · exact hadded.translationComplete _ _
        · exact hadded

lemma Filtered.notifyBlocks (h : Filtered s) (ft : FetchTarget) (now : Addr → Option Translation)
    (e b : Addr) (hint : ∀ a, b ≤ a → a ≤ e → IntSized a) :
    Meets (s.notifyBlocks p ft now e b) Filtered (fun _ => True) := by
  induction s, b using FetchDirectedPrefetcher.notifyBlocks.induct p e with
  | case1 _ b hvisit ih =>
    rw [FetchDirectedPrefetcher.notifyBlocks, if_pos hvisit]
    refine (h.notifyBlock ft (now b) (hint b (BitVec.le_refl b) (le_of_visits hvisit))).bind ?_
    intro t ht
    by_cases hnext : visits p e (b + p.blkSize.setWidth 64) = true
    · refine ih t ht ?_
      intro a ha
      exact hint a (BitVec.le_trans (BitVec.le_of_lt (visits_next hvisit hnext)) ha)
    · rw [FetchDirectedPrefetcher.notifyBlocks, if_neg hnext]
      exact ht
  | case2 _ _ hvisit =>
    rw [FetchDirectedPrefetcher.notifyBlocks, if_neg hvisit]
    exact h

lemma Filtered.notifyFTQRemove (h : Filtered s) (ft : FetchTarget) :
    Filtered (s.notifyFTQRemove p ft) := by
  unfold FetchDirectedPrefetcher.notifyFTQRemove
  split
  · exact h
  · refine h.subperm (Sublist.subperm ?_) rfl
    unfold queued
    rw [map_append, map_append, map_map]
    have hsame : (addr ∘ fun r : PrefetchRequest =>
        if r.ftn = ft.ftNum then r.markCanceled else r) = addr := by
      funext r
      dsimp only [Function.comp_apply]
      split
      · rfl
      · rfl
    rw [hsame]
    exact (filter_sublist.map addr).append (Sublist.refl _)

lemma Filtered.getPacket (h : Filtered s) : Filtered s.getPacket.1 := by
  refine h.subperm (Sublist.subperm ?_) rfl
  exact ((tail_sublist s.pfq).append (Sublist.refl _)).map addr

def AnnouncesInts (p : PrefetcherParams) : Op → Prop
  | .notifyFTQInsert ft _ =>
    ∀ a, blockAddress p ft.startAddress ≤ a → a ≤ blockAddress p ft.endAddress → IntSized a
  | _ => True

lemma Filtered.step {t : FetchDirectedPrefetcher} {op : Op} (h : Filtered s)
    (hint : AnnouncesInts p op) (hstep : s.step p op = .ok t) : Filtered t := by
  cases op with
  | notifyFTQInsert ft now => exact (h.notifyBlocks ft now _ _ hint).of_ok hstep
  | notifyFTQRemove ft =>
    obtain rfl := Except.ok.inj hstep
    exact h.notifyFTQRemove ft
  | translationComplete id t => exact (h.translationComplete id t).of_ok hstep
  | getPacket =>
    obtain rfl := Except.ok.inj hstep
    exact h.getPacket

/-- If all announced blocks have addresses that an `int` can hold, no block is queued twice, and one
is skipped only if a request for it is queued. -/
theorem prefetch_filter_exact {ops : List Op} {s : FetchDirectedPrefetcher}
    (h : run (step p) init ops = .ok s) (hint : ∀ op ∈ ops, AnnouncesInts p op) :
    ((s.pfq ++ s.translationq).map addr).Nodup ∧
      ∀ blk queued, (blk, queued) ∈ s.skipped → blk ∈ queued := by
  have hs := run_invariant_state Filtered (fun _ _ _ hs hop hstep => Filtered.step hs hop hstep)
    Filtered.init (along_of_mem hint init) h
  exact ⟨hs.nodup, hs.skipped⟩

def blocks64 : PrefetcherParams := ⟨64, by decide, true, 1, 4, 4, true, false⟩

/-- A target within the block at the address. -/
def targetAt (a : Addr) : FetchTarget :=
  (FetchTarget.start (.ofAddr a) 1).finalize (.ofAddr a) false
  false (.ofAddr (a + 4))

/-- Translations finish later. -/
def announce (a : Addr) : Op := .notifyFTQInsert (targetAt a) fun _ => none

/-- The block at 2^31 is queued twice, and the block at 2^32 is skipped although only the block
at 0 is queued. -/
theorem prefetch_filter_inexact :
    (∃ s, run (step blocks64) init [announce 0x80000000, announce 0x80000000] = .ok s ∧
      (s.pfq ++ s.translationq).map addr = [0x80000000, 0x80000000]) ∧
    ∃ s, run (step blocks64) init [announce 0, announce 0x100000000] = .ok s ∧
      s.skipped = [(0x100000000, [0])] := by
  constructor
  · obtain ⟨s, hs, haddrs⟩ := exists_of_holdsAt
      (run (step blocks64) init [announce 0x80000000, announce 0x80000000])
      (fun s => (s.pfq ++ s.translationq).map addr == [0x80000000, 0x80000000])
      (by decide +kernel)
    exact ⟨s, hs, eq_of_beq haddrs⟩
  · obtain ⟨s, hs, hskipped⟩ := exists_of_holdsAt
      (run (step blocks64) init [announce 0, announce 0x100000000])
      (fun s => s.skipped == [(0x100000000, [0])]) (by decide +kernel)
    exact ⟨s, hs, eq_of_beq hskipped⟩

/-- The second announcement of a block of 64 bytes is skipped. -/
theorem prefetch_filter_exact_blocks64 :
    ∃ s, run (step blocks64) init [announce 0x40, announce 0x44] = .ok s ∧
      s.skipped = [(0x40, [0x40])] ∧ ((s.pfq ++ s.translationq).map addr).Nodup := by
  obtain ⟨s, hs, hskipped⟩ := exists_of_holdsAt
    (run (step blocks64) init [announce 0x40, announce 0x44])
    (fun s => s.skipped == [(0x40, [0x40])]) (by decide +kernel)
  refine ⟨s, hs, eq_of_beq hskipped, (prefetch_filter_exact hs ?_).1⟩
  -- both targets lie in the block at 64
  have hblock : ∀ a : Addr, (0x40 : Addr) ≤ a → a ≤ 0x40 → IntSized a := by
    intro a hle hge
    obtain rfl := BitVec.le_antisymm hle hge
    decide
  intro op hop
  simp only [mem_cons, not_mem_nil, or_false] at hop
  rcases hop with rfl | rfl
  · exact hblock
  · exact hblock

end FetchDirectedPrefetcher

end Prefetcher

end BTBFerret
