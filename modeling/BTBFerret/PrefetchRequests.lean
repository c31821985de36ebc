import BTBFerret.PrefetchFilter

/-!
# The life of a prefetch request

A request is created in the translation queue, where it stays until its callback; it then leaves
or moves to the prefetch queue. Removing a fetch target cancels its requests in the
first queue and deletes those in the second one. A canceled request still counts for the
duplicate filter.
-/

namespace BTBFerret

open FallibleRuns List

namespace Prefetcher

open FetchDirectedPrefetcher (notifyBlocks notifyFTQRemove)

/-! ## Blocks -/

variable {b : Addr}

section

variable {p : PrefetcherParams} {k : Nat}

lemma toNat_blockAddress (hsize : p.blkSize.toNat = 2 ^ k) (a : Addr) :
    (blockAddress p a).toNat = a.toNat / 2 ^ k * 2 ^ k := by
  have hk : k < 32 := by
    have hlt := p.blkSize.isLt
    rw [hsize] at hlt
    exact (Nat.pow_lt_pow_iff_right (by omega)).mp hlt
  have hmask : (p.blkSize.setWidth 64 - 1).toNat = 2 ^ k - 1 := by
    have hle : (1 : BitVec 64) ≤ p.blkSize.setWidth 64 := by
      rw [BitVec.le_def, BitVec.toNat_setWidth, hsize, Nat.mod_eq_of_lt]
      · exact Nat.one_le_two_pow
      · exact Nat.pow_lt_pow_right (by omega) (by omega)
    rw [BitVec.toNat_sub_of_le hle, BitVec.toNat_setWidth, hsize, Nat.mod_eq_of_lt]
    · rfl
    · exact Nat.pow_lt_pow_right (by omega) (by omega)
  unfold blockAddress
  rw [BitVec.toNat_and, BitVec.toNat_not, hmask]
  -- both sides have the bits of the address from `k` on
  refine Nat.eq_of_testBit_eq ?_
  intro i
  have hpow : 2 ^ k - 1 < 2 ^ 64 := by
    have := Nat.pow_lt_pow_right (a := 2) (by omega) (show k < 64 by omega)
    omega
  rw [Nat.testBit_and, Nat.sub_sub, Nat.add_comm 1, Nat.testBit_two_pow_sub_succ hpow,
    Nat.testBit_two_pow_sub_one, Nat.testBit_mul_two_pow, Nat.testBit_div_two_pow]
  by_cases hi : k ≤ i
  · by_cases htop : i < 64
    · simp [hi, htop]
    · have hbit : a.toNat.testBit i = false :=
        Nat.testBit_lt_two_pow (a.isLt.trans_le (Nat.pow_le_pow_right (by omega) (by omega)))
      simp [hi, hbit]
  · have hlow : i < k := by omega
    simp [hi, hlow]

def IsBlock (p : PrefetcherParams) (ft : FetchTarget) (b : Addr) : Prop :=
  ∃ a, ft.startAddress ≤ a ∧ a ≤ ft.endAddress ∧ b = blockAddress p a

structure Small (p : PrefetcherParams) (ft : FetchTarget) : Prop where
  span : (blockAddress p ft.endAddress).toNat ≤
    (blockAddress p ft.startAddress).toNat + 2 * p.blkSize.toNat
  low : (blockAddress p ft.endAddress).toNat < 2 ^ 31

lemma intSized_of_lt {a : Addr} (h : a.toNat < 2 ^ 31) : IntSized a := by
  unfold IntSized
  refine BitVec.eq_of_toNat_eq ?_
  have hlow : (a.truncate 32).toNat = a.toNat := by
    rw [BitVec.toNat_setWidth, Nat.mod_eq_of_lt (by omega)]
  have hsign : (a.truncate 32).msb = false := by
    rw [BitVec.msb_eq_false_iff_two_mul_lt, hlow]
    omega
  rw [BitVec.signExtend_eq_setWidth_of_msb_false hsign, BitVec.toNat_setWidth, hlow,
    Nat.mod_eq_of_lt a.isLt]

/-- The loop reaches every block up to the end of a small target. -/
lemma visits_of_le (hsize : p.blkSize.toNat = 2 ^ k) {e : Addr} {i j : Nat}
    (hb : b.toNat = i * 2 ^ k) (he : e.toNat = j * 2 ^ k) (hle : b.toNat ≤ e.toNat)
    (hspan : e.toNat ≤ b.toNat + 2 * 2 ^ k) (hlow : e.toNat < 2 ^ 31) : visits p e b = true := by
  unfold visits
  have hlt := p.blkSize.isLt
  rw [Bool.and_eq_true, decide_eq_true_iff, Bool.not_eq_true', decide_eq_false_iff_not,
    BitVec.lt_def, BitVec.toNat_sub_of_le (BitVec.le_def.mpr hle), BitVec.toNat_setWidth,
    BitVec.toNat_mul]
  refine ⟨BitVec.le_def.mpr hle, ?_⟩
  rw [hsize] at hlt ⊢
  change ¬ 2 * 2 ^ k % 2 ^ 32 % 2 ^ 64 < e.toNat - b.toNat
  by_cases hk : 2 ^ k < 2 ^ 31
  · rw [Nat.mod_eq_of_lt (a := 2 * 2 ^ k) (by omega), Nat.mod_eq_of_lt (by omega)]
    omega
  · -- a block of 2^31 bytes or more: both addresses are zero
    have hj : j = 0 := by
      by_contra hj
      have := Nat.le_mul_of_pos_left (2 ^ k) (Nat.pos_of_ne_zero hj)
      omega
    rw [hj, Nat.zero_mul] at he
    omega

end

namespace FetchDirectedPrefetcher

variable {p : PrefetcherParams}

/-! ## Insertion with later callbacks -/

def Held (s : FetchDirectedPrefetcher) (b : Addr) : Prop :=
  (∃ r ∈ s.pfq, r.addr = b) ∨ ∃ r ∈ s.translationq, r.addr = b ∧ r.canceled = false

/-- A request for the block was canceled and waits for its callback. -/
def Canceled (s : FetchDirectedPrefetcher) (b : Addr) : Prop :=
  ∃ r ∈ s.translationq, r.addr = b ∧ r.canceled = true

/-- What an insertion adds to the queues. -/
structure Inserted (s t : FetchDirectedPrefetcher) (new : List PrefetchRequest)
    (drops : List Addr) : Prop where
  pfq : t.pfq = s.pfq
  translationq : t.translationq = s.translationq ++ new
  tqDrops : t.tqDrops = s.tqDrops ++ drops
  live : ∀ r ∈ new, r.canceled = false
  unknown : ∀ b, b ∈ new.map PrefetchRequest.addr ++ drops →
    b ∉ s.translationq.map PrefetchRequest.addr

lemma Inserted.refl (s : FetchDirectedPrefetcher) : Inserted s s [] [] := by
  constructor
  · rfl
  · rw [append_nil]
  · rw [append_nil]
  · rintro r ⟨⟩
  · rintro b ⟨⟩

variable {s : FetchDirectedPrefetcher}

lemma Inserted.trans {t u : FetchDirectedPrefetcher} {new new' : List PrefetchRequest}
    {drops drops' : List Addr} (h : Inserted s t new drops) (h' : Inserted t u new' drops') :
    Inserted s u (new ++ new') (drops ++ drops') := by
  constructor
  · exact h'.pfq.trans h.pfq
  · rw [h'.translationq, h.translationq, append_assoc]
  · rw [h'.tqDrops, h.tqDrops, append_assoc]
  · intro r hr
    exact (mem_append.mp hr).elim (h.live r) (h'.live r)
  · intro b hb hold
    simp only [map_append, mem_append] at hb
    have hlater : b ∈ t.translationq.map PrefetchRequest.addr := by
      rw [h.translationq, map_append]
      exact mem_append_left _ hold
    rcases hb with (hb | hb) | (hb | hb)
    · exact h.unknown b (mem_append_left _ hb) hold
    · exact h'.unknown b (mem_append_left _ hb) hlater
    · exact h.unknown b (mem_append_right _ hb) hold
    · exact h'.unknown b (mem_append_right _ hb) hlater

def Treated (s : FetchDirectedPrefetcher) (new : List PrefetchRequest) (drops : List Addr)
    (b : Addr) : Prop :=
  Held s b ∨ Canceled s b ∨ b ∈ new.map PrefetchRequest.addr ∨ b ∈ drops

lemma Inserted.treated {t : FetchDirectedPrefetcher} {new new' : List PrefetchRequest}
    {drops drops' : List Addr} (h : Inserted s t new drops) (hb : Treated t new' drops' b) :
    Treated s (new ++ new') (drops ++ drops') b := by
  unfold Treated at hb ⊢
  rw [map_append, mem_append, mem_append]
  unfold Held Canceled at hb ⊢
  rw [h.pfq, h.translationq] at hb
  rcases hb with (hpfq | ⟨r, hr, haddr, hlive⟩) | ⟨r, hr, haddr, hcanceled⟩ | hnew | hdrop
  · exact .inl (.inl hpfq)
  · rcases mem_append.mp hr with hold | hnew
    · exact .inl (.inr ⟨r, hold, haddr, hlive⟩)
    · exact .inr (.inr (.inl (.inl (haddr ▸ mem_map_of_mem hnew))))
  · rcases mem_append.mp hr with hold | hnew
    · exact .inr (.inl ⟨r, hold, haddr, hcanceled⟩)
    · rw [h.live r hnew] at hcanceled
      cases hcanceled
  · exact .inr (.inr (.inl (.inr hnew)))
  · exact .inr (.inr (.inr (.inr hdrop)))

lemma inserted_skip (s : FetchDirectedPrefetcher) (b : Addr) : Inserted s (s.skip b) [] [] :=
  let h := Inserted.refl s
  ⟨h.pfq, h.translationq, h.tqDrops, h.live, h.unknown⟩

lemma notifyBlock_inserts (s : FetchDirectedPrefetcher) (ft : FetchTarget) (hb : IntSized b) :
    ∃ t new drops, s.notifyBlock p ft none b = .ok t ∧
      Inserted s t new drops ∧ Treated s new drops b := by
  unfold notifyBlock
  split
  · rename_i hfound
    obtain ⟨r, hr, haddr⟩ := mem_map.mp ((found_iff hb).mp hfound)
    exact ⟨_, [], [], rfl, inserted_skip s b, .inl (.inl ⟨r, hr, haddr⟩)⟩
  · split
    · rename_i hfound
      obtain ⟨r, hr, haddr⟩ := mem_map.mp ((found_iff hb).mp hfound)
      refine ⟨_, [], [], rfl, inserted_skip s b, ?_⟩
      cases hcanceled : r.canceled with
      | false => exact .inl (.inr ⟨r, hr, haddr, hcanceled⟩)
      | true => exact .inr (.inl ⟨r, hr, haddr, hcanceled⟩)
    · rename_i hunknown
      rw [found_iff hb] at hunknown
      split
      · refine ⟨_, [], [b], rfl, ⟨rfl, (append_nil _).symm, rfl, by simp, ?_⟩, ?_⟩
        · rintro a ha
          obtain rfl := mem_singleton.mp ha
          exact hunknown
        · exact .inr (.inr (.inr mem_cons_self))
      · refine ⟨_, [.create s.nextRequest b ft.ftNum], [], rfl,
          ⟨rfl, rfl, (append_nil _).symm, ?_, ?_⟩, ?_⟩
        · rintro r hr
          obtain rfl := mem_singleton.mp hr
          rfl
        · rintro a ha
          obtain rfl := mem_singleton.mp ha
          exact hunknown
        · exact .inr (.inr (.inl mem_cons_self))

lemma notifyBlocks_inserts {k : Nat} (hsize : p.blkSize.toNat = 2 ^ k) (ft : FetchTarget)
    {e : Addr} {j : Nat} (he : e.toNat = j * 2 ^ k) (hlow : e.toNat < 2 ^ 31)
    (s : FetchDirectedPrefetcher) (b : Addr) {i : Nat} (hb : b.toNat = i * 2 ^ k)
    (hspan : e.toNat ≤ b.toNat + 2 * 2 ^ k) :
    ∃ t new drops, s.notifyBlocks p ft (fun _ => none) e b = .ok t ∧ Inserted s t new drops ∧
      ∀ a m, a.toNat = m * 2 ^ k → b.toNat ≤ a.toNat → a.toNat ≤ e.toNat →
        Treated s new drops a := by
  induction s, b using notifyBlocks.induct p e generalizing i with
  | case1 s b hvisit ih =>
    have hle : b.toNat ≤ e.toNat := BitVec.le_def.mp (le_of_visits hvisit)
    obtain ⟨t, new, drops, hblock, hinserted, htreated⟩ :=
      s.notifyBlock_inserts (p := p) ft (intSized_of_lt (a := b) (by omega))
    have hnext : (b + p.blkSize.setWidth 64).toNat = b.toNat + 2 ^ k := by
      have hlt := p.blkSize.isLt
      rw [hsize] at hlt
      rw [BitVec.toNat_add, BitVec.toNat_setWidth, hsize, Nat.mod_eq_of_lt (a := 2 ^ k) (by omega),
        Nat.mod_eq_of_lt (by omega)]
    obtain ⟨u, new', drops', hrest, hinserted', htreated'⟩ :=
      ih t (i := i + 1) (by rw [hnext, hb, Nat.add_mul, Nat.one_mul]) (by omega)
    refine ⟨u, new ++ new', drops ++ drops', ?_, hinserted.trans hinserted', ?_⟩
    · rw [notifyBlocks, if_pos hvisit, hblock]
      exact hrest
    · intro a m ha hba hae
      by_cases hsame : a = b
      · subst hsame
        have hstill : Treated s new drops a := htreated
        unfold Treated at hstill ⊢
        rw [map_append, mem_append, mem_append]
        tauto
      · -- another multiple of the block size is at least one block away
        have hfar : b.toNat + 2 ^ k ≤ a.toNat := by
          have hlt : i * 2 ^ k < m * 2 ^ k := by
            rw [← hb, ← ha]
            exact Nat.lt_of_le_of_ne hba (fun h => hsame (BitVec.eq_of_toNat_eq h.symm))
          have him : i + 1 ≤ m := Nat.lt_of_mul_lt_mul_right hlt
          calc b.toNat + 2 ^ k = (i + 1) * 2 ^ k := by rw [hb, Nat.add_mul, Nat.one_mul]
            _ ≤ m * 2 ^ k := Nat.mul_le_mul_right _ him
            _ = a.toNat := ha.symm
        exact hinserted.treated (htreated' a m ha (by omega) hae)
  | case2 s _ hvisit =>
    refine ⟨s, [], [], ?_, Inserted.refl s, ?_⟩
    · rw [notifyBlocks, if_neg hvisit]
    · intro a m _ hba hae
      exact absurd (visits_of_le hsize hb he (hba.trans hae) hspan hlow) hvisit

/-- An insertion in any run, with a callback that comes later: every block of the target is queued
or dropped exactly if no canceled request stands for one. -/
theorem insertion_covers_target {k : Nat} (hsize : p.blkSize.toNat = 2 ^ k) {ops : List Op}
    {s : FetchDirectedPrefetcher} (h : run (step p) init ops = .ok s) {ft : FetchTarget}
    (hsmall : Small p ft) :
    ∃ t drops, run (step p) init (ops ++ [.notifyFTQInsert ft fun _ => none]) = .ok t ∧
      t.tqDrops = s.tqDrops ++ drops ∧
      ((∀ b, IsBlock p ft b → Held t b ∨ b ∈ drops) ↔
        ∀ b, IsBlock p ft b → Canceled s b → Held s b) := by
  obtain ⟨t, new, drops, hinsert, hinserted, htreated⟩ :=
    notifyBlocks_inserts hsize ft (toNat_blockAddress hsize ft.endAddress) hsmall.low s
      (blockAddress p ft.startAddress) (toNat_blockAddress hsize ft.startAddress)
      (by rw [← hsize]; exact hsmall.span)
  refine ⟨t, drops, ?_, hinserted.tqDrops, ?_, ?_⟩
  · have hstep : step p s (.notifyFTQInsert ft fun _ => none) = .ok t := hinsert
    rw [run_append _ h, run, hstep]
    rfl
  · rintro hcovered b hb ⟨r, hr, haddr, _⟩
    have hknown : b ∈ s.translationq.map PrefetchRequest.addr := haddr ▸ mem_map_of_mem hr
    rcases hcovered b hb with (hpfq | ⟨q, hq, hqaddr, hlive⟩) | hdrop
    · rw [hinserted.pfq] at hpfq
      exact .inl hpfq
    · rw [hinserted.translationq] at hq
      rcases mem_append.mp hq with hold | hnew
      · exact .inr ⟨q, hold, hqaddr, hlive⟩
      · have hmem : b ∈ new.map PrefetchRequest.addr := hqaddr ▸ mem_map_of_mem hnew
        exact absurd hknown (hinserted.unknown b (mem_append_left _ hmem))
    · exact absurd hknown (hinserted.unknown b (mem_append_right _ hdrop))
  · intro hcond b hb
    have hheld : Held s b → Held t b := by
      rintro (hpfq | ⟨r, hr, haddr, hlive⟩)
      · exact .inl (hinserted.pfq ▸ hpfq)
      · refine .inr ⟨r, ?_, haddr, hlive⟩
        rw [hinserted.translationq]
        exact mem_append_left _ hr
    have htreat : Treated s new drops b := by
      obtain ⟨a, hstart, hend, rfl⟩ := hb
      have hmono : ∀ x y : Addr, x ≤ y → (blockAddress p x).toNat ≤ (blockAddress p y).toNat := by
        intro x y hxy
        rw [toNat_blockAddress hsize, toNat_blockAddress hsize]
        exact Nat.mul_le_mul_right _ (Nat.div_le_div_right (BitVec.le_def.mp hxy))
      exact htreated _ _ (toNat_blockAddress hsize a) (hmono _ _ hstart) (hmono _ _ hend)
    rcases htreat with hold | hcanceled | hnew | hdrop
    · exact .inl (hheld hold)
    · exact .inl (hheld (hcond b hb hcanceled))
    · obtain ⟨r, hr, haddr⟩ := mem_map.mp hnew
      refine .inl (.inr ⟨r, ?_, haddr, hinserted.live r hr⟩)
      rw [hinserted.translationq]
      exact mem_append_right _ hr
    · exact .inr hdrop

def numbered (n : FTSeqNum) : FetchTarget :=
  (FetchTarget.start (.ofAddr 0x40) n).finalize (.ofAddr 0x40) false false (.ofAddr 0x44)

/-- The translation for the first target is canceled, and still stands for the block of the
second one. -/
theorem canceled_request_stands_in :
    ∃ s, run (step blocks64) init [.notifyFTQInsert (numbered 1) fun _ => none,
      .notifyFTQRemove (numbered 1), .notifyFTQInsert (numbered 2) fun _ => none] = .ok s ∧
      IsBlock blocks64 (numbered 2) 0x40 ∧ Small blocks64 (numbered 2) ∧
      s.tqDrops = [] ∧ ¬ Held s 0x40 := by
  obtain ⟨s, hs, hstate⟩ := exists_of_holdsAt
    (run (step blocks64) init [.notifyFTQInsert (numbered 1) fun _ => none,
      .notifyFTQRemove (numbered 1), .notifyFTQInsert (numbered 2) fun _ => none])
    (fun s => decide (s.tqDrops = [] ∧ s.pfq = [] ∧ ∀ r ∈ s.translationq, r.canceled = true))
    (by decide +kernel)
  obtain ⟨hdrops, hpfq, hcanceled⟩ := of_decide_eq_true hstate
  refine ⟨s, hs, ⟨0x40, by decide, by decide, by decide⟩, ⟨by decide, by decide⟩, hdrops, ?_⟩
  rintro (⟨r, hr, _⟩ | ⟨r, hr, _, hlive⟩)
  · rw [hpfq] at hr
    cases hr
  · rw [hcanceled r hr] at hlive
    cases hlive

/-- The second target finds the request of the first one alive. -/
theorem insertion_covers_target_blocks64 :
    ∃ t, ∃ drops : List Addr, run (step blocks64) init
      ([.notifyFTQInsert (numbered 1) fun _ => none] ++
        [.notifyFTQInsert (numbered 2) fun _ => none]) = .ok t ∧
      ∀ b, IsBlock blocks64 (numbered 2) b → Held t b ∨ b ∈ drops := by
  obtain ⟨s, hs, hlive⟩ := exists_of_holdsAt
    (run (step blocks64) init [.notifyFTQInsert (numbered 1) fun _ => none])
    (fun s => decide (∀ r ∈ s.translationq, r.canceled = false)) (by decide +kernel)
  have hsmall : Small blocks64 (numbered 2) := ⟨by decide, by decide⟩
  obtain ⟨t, drops, ht, _, hcovers⟩ :=
    insertion_covers_target (k := 6) (by decide) hs hsmall
  refine ⟨t, drops, ht, hcovers.mpr ?_⟩
  rintro b _ ⟨r, hr, _, hcanceled⟩
  rw [of_decide_eq_true hlive r hr] at hcanceled
  cases hcanceled

/-! ## The blocks of a target -/

/-- The block `b` and the `n` blocks after it. -/
def blocksFrom (p : PrefetcherParams) (b : Addr) : Nat → List Addr
  | 0 => [b]
  | n + 1 => b :: blocksFrom p (b + p.blkSize.setWidth 64) n

/-- The blocks from that of `start` to that of `last`, if there are at most three. -/
def spannedBlocks (p : PrefetcherParams) (start last : Addr) : List Addr :=
  let n := ((blockAddress p last).toNat - (blockAddress p start).toNat) / p.blkSize.toNat
  if blockAddress p last < blockAddress p start ∨ 2 < n then []
  else blocksFrom p (blockAddress p start) n

lemma visits_iff (hint : p.blkSize.toNat < 2 ^ 31) (e b : Addr) :
    visits p e b = true ↔ b.toNat ≤ e.toNat ∧ e.toNat ≤ b.toNat + 2 * p.blkSize.toNat := by
  unfold visits
  simp only [Bool.and_eq_true, decide_eq_true_eq, Bool.not_eq_true', decide_eq_false_iff_not,
    BitVec.le_def, BitVec.lt_def, BitVec.toNat_sub, BitVec.toNat_setWidth, BitVec.toNat_mul]
  change _ ∧ ¬ 2 * p.blkSize.toNat % 2 ^ 32 % 2 ^ 64 < _ ↔ _
  omega

lemma notifyBlocks_spanned (hint : p.blkSize.toNat < 2 ^ 31) (ft : FetchTarget)
    (now : Addr → Option Translation) {e b : Addr} {n : Nat} (hn : n ≤ 2)
    (he : b.toNat + n * p.blkSize.toNat = e.toNat) (s : FetchDirectedPrefetcher) :
    s.notifyBlocks p ft now e b =
      (blocksFrom p b n).foldlM (fun s a => s.notifyBlock p ft (now a) a) s := by
  have hpos := p.blkSize_pos
  have hnext : (b + p.blkSize.setWidth 64).toNat = (b.toNat + p.blkSize.toNat) % 2 ^ 64 := by
    rw [BitVec.toNat_add, BitVec.toNat_setWidth]
    omega
  have hspan := Nat.mul_le_mul_right p.blkSize.toNat hn
  rw [notifyBlocks, if_pos ((visits_iff hint e b).mpr (by omega))]
  cases n with
  | zero =>
    -- the block after the last one lies behind the end, or wraps around to far before it
    have hlast : ¬ visits p e (b + p.blkSize.setWidth 64) = true := by
      rw [visits_iff hint, hnext]
      omega
    refine bind_congr fun t => ?_
    rw [notifyBlocks, if_neg hlast]
    rfl
  | succ n =>
    rw [Nat.succ_mul] at he
    exact bind_congr fun t => notifyBlocks_spanned hint ft now (by omega) (by omega) t

/-- For blocks of less than `2 ^ 31` bytes the loop considers the blocks of the target in order if
they are at most three, and none otherwise. -/
theorem notifyFTQInsert_considers {k : Nat} (hsize : p.blkSize.toNat = 2 ^ k)
    (hint : p.blkSize.toNat < 2 ^ 31) (s : FetchDirectedPrefetcher) (ft : FetchTarget)
    (now : Addr → Option Translation) :
    s.notifyFTQInsert p ft now = (spannedBlocks p ft.startAddress ft.endAddress).foldlM
      (fun s a => s.notifyBlock p ft (now a) a) s := by
  have hfirst := toNat_blockAddress hsize ft.startAddress
  have hlast := toNat_blockAddress hsize ft.endAddress
  unfold notifyFTQInsert spannedBlocks
  simp only [BitVec.lt_def]
  generalize blockAddress p ft.startAddress = b at *
  generalize blockAddress p ft.endAddress = e at *
  by_cases hle : b.toNat ≤ e.toNat
  · have hspan : b.toNat + (e.toNat - b.toNat) / p.blkSize.toNat * p.blkSize.toNat = e.toNat := by
      rw [hsize, Nat.div_mul_cancel (Nat.dvd_sub (Dvd.intro_left _ hlast.symm)
        (Dvd.intro_left _ hfirst.symm))]
      omega
    generalize (e.toNat - b.toNat) / p.blkSize.toNat = n at hspan ⊢
    by_cases hn : n ≤ 2
    · rw [if_neg (by omega), notifyBlocks_spanned hint ft now hn hspan]
    · have hfar : 3 * p.blkSize.toNat ≤ n * p.blkSize.toNat := Nat.mul_le_mul_right _ (by omega)
      have hpos := p.blkSize_pos
      rw [if_pos (by omega), notifyBlocks, if_neg (by rw [visits_iff hint]; omega)]
      rfl
  · rw [if_pos (by omega), notifyBlocks, if_neg (by rw [visits_iff hint]; omega)]
    rfl

/-- The last three blocks of the address space; the address after them is zero. -/
theorem notifyFTQInsert_considers_top :
    let ft := (FetchTarget.start (.ofAddr (-0xbc)) 1).finalize
      (.ofAddr (-4)) false false (.ofAddr 0)
    init.notifyFTQInsert blocks64 ft (fun _ => none) =
      [-0xc0, -0x80, -0x40].foldlM (fun s a => s.notifyBlock blocks64 ft none a) init := by
  intro ft
  have hblocks : spannedBlocks blocks64 ft.startAddress ft.endAddress = [-0xc0, -0x80, -0x40] := by
    decide
  rw [notifyFTQInsert_considers (p := blocks64) (k := 6) rfl (by decide), hblocks]

/-- With blocks of `2 ^ 31` bytes the bound `2 * blkSize` is zero, and the two blocks of a target
are not considered. -/
theorem huge_blocks_not_considered :
    ∃ p ft, p.blkSize.toNat = 2 ^ 31 ∧
      spannedBlocks p ft.startAddress ft.endAddress = [0, 0x80000000] ∧
      init.notifyFTQInsert p ft (fun _ => none) = .ok init := by
  refine ⟨{ blocks64 with blkSize := 0x80000000, blkSize_pos := by decide },
    (FetchTarget.start (.ofAddr 0) 1).finalize (.ofAddr 0x80000000) false false (.ofAddr 0), rfl,
    by decide, ?_⟩
  unfold notifyFTQInsert
  rw [notifyBlocks, if_neg (by decide)]

/-! ## Requests and their callbacks -/

/-- The queues keep their bounds, and the translation queue has exactly the requests whose
translation has not finished. -/
structure Sound (p : PrefetcherParams) (s : FetchDirectedPrefetcher) : Prop where
  pfq : s.pfq.length ≤ p.pfqSize
  translationq : s.translationq.length ≤ p.tqSize
  nodup : (s.translationq.map PrefetchRequest.id).Nodup
  waiting : ∀ id, id ∈ s.translationq.map PrefetchRequest.id ↔ id < s.nextRequest ∧ id ∉ s.finished
  finished : ∀ id ∈ s.finished, id < s.nextRequest

lemma Sound.init : Sound p init := by
  constructor
  · exact Nat.zero_le _
  · exact Nat.zero_le _
  · exact nodup_nil
  · intro id
    constructor
    · rintro ⟨⟩
    · rintro ⟨hlt, _⟩
      exact absurd hlt (Nat.not_lt_zero id)
  · rintro id ⟨⟩

def Due (s : FetchDirectedPrefetcher) : Op → Prop
  | .translationComplete id _ => id < s.nextRequest ∧ id ∉ s.finished
  | _ => True

lemma enqueue_bounded (h : s.pfq.length ≤ p.pfqSize) (r : PrefetchRequest) (t : Translation) :
    (s.enqueue p r t).pfq.length ≤ p.pfqSize := by
  unfold enqueue
  split
  · exact h
  · split
    · rename_i hroom
      rw [length_append]
      exact hroom
    · exact h

lemma enqueue_eq (s : FetchDirectedPrefetcher) (r : PrefetchRequest) (t : Translation) :
    s.enqueue p r t = { s with pfq := (s.enqueue p r t).pfq } := by
  unfold enqueue
  split
  · rfl
  · split
    · rfl
    · rfl

lemma mem_ids_eraseP {q : List PrefetchRequest} (hnodup : (q.map PrefetchRequest.id).Nodup)
    (id k : Nat) : k ∈ (q.eraseP fun r => r.id == id).map PrefetchRequest.id ↔
      k ≠ id ∧ k ∈ q.map PrefetchRequest.id := by
  induction q with
  | nil => simp
  | cons r _ ih =>
    rw [map_cons, nodup_cons] at hnodup
    by_cases hr : r.id = id
    · rw [eraseP_cons_of_pos (by simp [hr]), map_cons, mem_cons]
      constructor
      · intro hk
        exact ⟨fun h => hnodup.1 (hr.trans h.symm ▸ hk), .inr hk⟩
      · rintro ⟨hne, hk | hk⟩
        · exact absurd (hk.trans hr) hne
        · exact hk
    · rw [eraseP_cons_of_neg (by simp [hr]), map_cons, mem_cons, ih hnodup.2, map_cons, mem_cons]
      constructor
      · rintro (rfl | ⟨hne, hk⟩)
        · exact ⟨hr, .inl rfl⟩
        · exact ⟨hne, .inr hk⟩
      · rintro ⟨hne, hk | hk⟩
        · exact .inl hk
        · exact .inr ⟨hne, hk⟩

/-- The callback of a request that waits finds it. -/
lemma Sound.translationComplete (h : Sound p s) {id : Nat}
    (hdue : id < s.nextRequest ∧ id ∉ s.finished) (t : Translation) :
    Meets (s.translationComplete p id t) (Sound p) (fun _ => False) := by
  unfold FetchDirectedPrefetcher.translationComplete
  split
  · rename_i hnone
    obtain ⟨r, hr, hid⟩ := mem_map.mp ((h.waiting id).mpr hdue)
    have hother := find?_eq_none.mp hnone r hr
    rw [hid] at hother
    exact hother (beq_self_eq_true id)
  · rename_i r hfind
    dsimp only
    rw [enqueue_eq]
    dsimp only
    constructor
    · exact enqueue_bounded h.pfq r t
    · exact (length_eraseP_le).trans h.translationq
    · exact h.nodup.sublist (eraseP_sublist.map PrefetchRequest.id)
    · intro k
      rw [mem_ids_eraseP h.nodup, h.waiting, mem_append, mem_singleton, not_or]
      constructor
      · rintro ⟨hne, hlt, hfin⟩
        exact ⟨hlt, hfin, hne⟩
      · rintro ⟨hlt, hfin, hne⟩
        exact ⟨hne, hlt, hfin⟩
    · intro k hk
      rcases mem_append.mp hk with hold | hnew
      · exact h.finished k hold
      · rw [mem_singleton.mp hnew]
        exact hdue.1

lemma Sound.created (h : Sound p s) (hroom : s.translationq.length < p.tqSize) (b : Addr)
    (n : FTSeqNum) : Sound p { s with
      translationq := s.translationq ++ [.create s.nextRequest b n]
      nextRequest := s.nextRequest + 1 } := by
  have hfresh : s.nextRequest ∉ s.translationq.map PrefetchRequest.id := by
    intro hmem
    exact Nat.lt_irrefl _ ((h.waiting _).mp hmem).1
  constructor
  · exact h.pfq
  · rw [length_append]
    exact hroom
  · rw [map_append, map_singleton, ← concat_eq_append]
    exact h.nodup.concat hfresh
  · intro id
    rw [map_append, mem_append, h.waiting, map_singleton, mem_singleton]
    change _ ∨ id = s.nextRequest ↔ id < s.nextRequest + 1 ∧ _
    constructor
    · rintro (⟨hlt, hfin⟩ | rfl)
      · exact ⟨by omega, hfin⟩
      · exact ⟨by omega, fun hfin => Nat.lt_irrefl _ (h.finished _ hfin)⟩
    · rintro ⟨hlt, hfin⟩
      by_cases hnew : id = s.nextRequest
      · exact .inr hnew
      · exact .inl ⟨by omega, hfin⟩
  · intro id hid
    have := h.finished id hid
    exact Nat.lt_succ_of_lt this

lemma Sound.notifyBlock (h : Sound p s) (ft : FetchTarget) (now : Option Translation) (b : Addr) :
    Meets (s.notifyBlock p ft now b) (Sound p) (fun _ => False) := by
  unfold FetchDirectedPrefetcher.notifyBlock
  split
  · exact ⟨h.pfq, h.translationq, h.nodup, h.waiting, h.finished⟩
  · split
    · exact ⟨h.pfq, h.translationq, h.nodup, h.waiting, h.finished⟩
    · split
      · exact ⟨h.pfq, h.translationq, h.nodup, h.waiting, h.finished⟩
      · rename_i hroom
        have hcreated := h.created (Nat.lt_of_not_le hroom) b ft.ftNum
        dsimp only
        split
        · -- the request that finishes at once is the one just created
          refine hcreated.translationComplete ⟨Nat.lt_succ_self _, ?_⟩ _
          intro hfin
          exact Nat.lt_irrefl _ (h.finished _ hfin)
        · exact hcreated

/-- What each block keeps, the loop keeps. -/
lemma meets_notifyBlocks {good : FetchDirectedPrefetcher → Prop} {bad : PrefetcherFault → Prop}
    (ft : FetchTarget) (now : Addr → Option Translation) (e : Addr)
    (hkeep : ∀ s b, good s → Meets (s.notifyBlock p ft (now b) b) good bad)
    (h : good s) (b : Addr) :
    Meets (s.notifyBlocks p ft now e b) good bad := by
  induction s, b using notifyBlocks.induct p e with
  | case1 s b hvisit ih =>
    rw [notifyBlocks, if_pos hvisit]
    exact (hkeep s b h).bind (fun t ht => ih t ht)
  | case2 _ _ hvisit =>
    rw [notifyBlocks, if_neg hvisit]
    exact h

lemma ids_markCanceled (q : List PrefetchRequest) (n : FTSeqNum) :
    (q.map fun r => if r.ftn = n then r.markCanceled else r).map PrefetchRequest.id =
      q.map PrefetchRequest.id := by
  rw [List.map_map]
  refine List.map_congr_left ?_
  intro r _
  dsimp only [Function.comp_apply]
  split
  · rfl
  · rfl

lemma Sound.notifyFTQRemove (h : Sound p s) (ft : FetchTarget) :
    Sound p (s.notifyFTQRemove p ft) := by
  unfold FetchDirectedPrefetcher.notifyFTQRemove
  split
  · exact h
  · constructor
    · exact (length_filter_le _ _).trans h.pfq
    · rw [length_map]
      exact h.translationq
    · rw [ids_markCanceled]
      exact h.nodup
    · rw [ids_markCanceled]
      exact h.waiting
    · exact h.finished

lemma Sound.getPacket (h : Sound p s) : Sound p s.getPacket.1 := by
  refine ⟨?_, h.translationq, h.nodup, h.waiting, h.finished⟩
  exact (tail_sublist s.pfq).length_le.trans h.pfq

lemma Sound.step (h : Sound p s) {op : Op} (hdue : Due s op) :
    Meets (s.step p op) (Sound p) (fun _ => False) := by
  cases op with
  | notifyFTQInsert ft now =>
    exact meets_notifyBlocks ft now _ (fun s b hs => hs.notifyBlock ft (now b) b) h _
  | notifyFTQRemove ft => exact h.notifyFTQRemove ft
  | translationComplete _ t => exact h.translationComplete hdue t
  | getPacket => exact h.getPacket

/-! ## Removed targets -/

/-- No request created before number `k` for the removed target can still become a packet. The
proposition tells whether it was announced again. -/
structure Gone (n : FTSeqNum) (k : Nat) (again : Prop) (s : FetchDirectedPrefetcher) : Prop where
  next : k ≤ s.nextRequest
  pfq : ∀ r ∈ s.pfq, r.ftn = n → k ≤ r.id ∧ again
  translationq : ∀ r ∈ s.translationq, r.ftn = n → r.canceled = true ∨ (k ≤ r.id ∧ again)

section

variable {n : FTSeqNum} {k : Nat} {again : Prop} {s : FetchDirectedPrefetcher}

lemma gone_of_removed (hsquash : p.squashPrefetches = true) (s : FetchDirectedPrefetcher)
    (ft : FetchTarget) : Gone ft.ftNum s.nextRequest False (s.notifyFTQRemove p ft) := by
  unfold notifyFTQRemove
  rw [hsquash, Bool.not_true, if_neg Bool.false_ne_true]
  constructor
  · exact Nat.le_refl _
  · intro r hr hn
    have hne := (mem_filter.mp hr).2
    rw [decide_eq_true_iff] at hne
    exact absurd hn hne
  · intro r hr hn
    obtain ⟨q, _, rfl⟩ := mem_map.mp hr
    refine .inl ?_
    by_cases hq : q.ftn = ft.ftNum
    · rw [if_pos hq]
      rfl
    · rw [if_neg hq] at hn
      exact absurd hn hq

lemma Gone.mono {again' : Prop} (h : Gone n k again s) (himp : again → again') :
    Gone n k again' s :=
  ⟨h.next, fun r hr hn => (h.pfq r hr hn).imp_right himp,
    fun r hr hn => (h.translationq r hr hn).imp_right (And.imp_right himp)⟩

lemma Gone.translationComplete (h : Gone n k again s) (id : Nat) (t : Translation) :
    Meets (s.translationComplete p id t) (Gone n k again) (fun _ => True) := by
  unfold FetchDirectedPrefetcher.translationComplete
  split
  · trivial
  · rename_i r hfind
    have hr : r ∈ s.translationq := mem_of_find?_eq_some hfind
    have hrest : ∀ q ∈ s.translationq.eraseP fun r => r.id == id, q.ftn = n →
        q.canceled = true ∨ (k ≤ q.id ∧ again) :=
      fun q hq => h.translationq q (mem_of_mem_eraseP hq)
    dsimp only
    unfold enqueue
    split
    · exact ⟨h.next, h.pfq, hrest⟩
    · rename_i hgo
      split
      · refine ⟨h.next, ?_, hrest⟩
        intro q hq hn
        rcases mem_append.mp hq with hold | hnew
        · exact h.pfq q hold hn
        · -- only a request that was not canceled moves
          obtain rfl := mem_singleton.mp hnew
          rcases h.translationq r hr hn with hcanceled | hkeep
          · exact absurd (by simp [hcanceled]) hgo
          · exact hkeep
      · exact ⟨h.next, h.pfq, hrest⟩

lemma Gone.notifyBlock (h : Gone n k again s) {ft : FetchTarget} (hft : ft.ftNum = n → again)
    (now : Option Translation) (b : Addr) :
    Meets (s.notifyBlock p ft now b) (Gone n k again) (fun _ => True) := by
  unfold FetchDirectedPrefetcher.notifyBlock
  split
  · exact ⟨h.next, h.pfq, h.translationq⟩
  · split
    · exact ⟨h.next, h.pfq, h.translationq⟩
    · split
      · exact ⟨h.next, h.pfq, h.translationq⟩
      · have hcreated : Gone n k again { s with
            translationq := s.translationq ++ [.create s.nextRequest b ft.ftNum]
            nextRequest := s.nextRequest + 1 } := by
          refine ⟨Nat.le_succ_of_le h.next, h.pfq, ?_⟩
          intro r hr hn
          rcases mem_append.mp hr with hold | hnew
          · exact h.translationq r hold hn
          · obtain rfl := mem_singleton.mp hnew
            exact .inr ⟨h.next, hft hn⟩
        dsimp only
        split
        · exact hcreated.translationComplete _ _
        · exact hcreated

lemma Gone.notifyFTQRemove (h : Gone n k again s) (ft : FetchTarget) :
    Gone n k again (s.notifyFTQRemove p ft) := by
  unfold FetchDirectedPrefetcher.notifyFTQRemove
  split
  · exact h
  · refine ⟨h.next, ?_, ?_⟩
    · intro r hr hn
      exact h.pfq r (mem_of_mem_filter hr) hn
    · intro r hr hn
      obtain ⟨q, hq, rfl⟩ := mem_map.mp hr
      by_cases hft : q.ftn = ft.ftNum
      · rw [if_pos hft]
        exact .inl rfl
      · rw [if_neg hft] at hn ⊢
        exact h.translationq q hq hn

/-- The operation announces a target with the number. -/
def Announces (n : FTSeqNum) (op : Op) : Prop :=
  ∃ ft now, op = .notifyFTQInsert ft now ∧ ft.ftNum = n

lemma Gone.step (h : Gone n k again s) (op : Op) :
    Meets (s.step p op) (Gone n k (again ∨ Announces n op)) (fun _ => True) := by
  cases op with
  | notifyFTQInsert ft now =>
    refine meets_notifyBlocks ft now _ ?_ (h.mono .inl) _
    intro s b hs
    exact hs.notifyBlock (fun hn => .inr ⟨ft, now, rfl, hn⟩) (now b) b
  | notifyFTQRemove ft => exact (h.notifyFTQRemove ft).mono .inl
  | translationComplete id t =>
    exact (h.translationComplete id t).mono (fun _ ht => ht.mono .inl) (fun _ _ => trivial)
  | getPacket =>
    exact ⟨h.next, fun r hr hn => (h.pfq r (mem_of_mem_tail hr) hn).imp_right .inl,
      fun r hr hn => (h.translationq r hr hn).imp_right (And.imp_right .inl)⟩

end

/-- If every translation finishes once, no run stops, and the queues keep their bounds. A packet of
a removed target stems from a request that was created after the removal. -/
theorem prefetch_queues_sound {ops : List Op} (hdue : Along (step p) Due init ops) :
    (∃ s, run (step p) init ops = .ok s ∧ s.pfq.length ≤ p.pfqSize ∧
      s.translationq.length ≤ p.tqSize) ∧
    (p.squashPrefetches = true → ∀ before ft after s t r,
      ops = before ++ .notifyFTQRemove ft :: after → run (step p) init before = .ok s →
      run (step p) init ops = .ok t → t.getPacket.2 = some r → r.ftn = ft.ftNum →
      s.nextRequest ≤ r.id ∧ ∃ op ∈ after, Announces ft.ftNum op) := by
  constructor
  · obtain ⟨s, hs, hsound⟩ := (meets_run (Sound p) (fun s op h hop => h.step hop) Sound.init
      hdue).returns
    exact ⟨s, hs, hsound.pfq, hsound.translationq⟩
  · rintro hsquash before ft after s t r rfl hs ht hpacket hn
    rw [run_append _ hs] at ht
    have hgone : Gone ft.ftNum s.nextRequest (∃ op ∈ after, Announces ft.ftNum op) t := by
      refine @run_invariant _ _ _ (step p) (fun _ _ => True) (fun past t =>
        Gone ft.ftNum s.nextRequest (∃ op ∈ past, Announces ft.ftNum op) t) ?_ [] _ t after ?_
        (along_of_forall (fun _ _ => trivial) _ after) ht
      · intro past u op u' hu _ hstep
        refine ((hu.step op).of_ok hstep).mono ?_
        rintro (⟨q, hq, hannounces⟩ | hannounces)
        · exact ⟨q, mem_append_left _ hq, hannounces⟩
        · exact ⟨op, mem_append_right _ mem_cons_self, hannounces⟩
      · exact (gone_of_removed hsquash s ft).mono False.elim
    exact hgone.pfq r (mem_of_head? hpacket) hn

instance (s : FetchDirectedPrefetcher) : (op : Op) → Decidable (Due s op)
  | .translationComplete _ _ => inferInstanceAs (Decidable (_ ∧ _))
  | .notifyFTQInsert _ _ => .isTrue trivial
  | .notifyFTQRemove _ => .isTrue trivial
  | .getPacket => .isTrue trivial

/-- A translation that finishes after its target is removed gives no packet. -/
theorem prefetch_queues_sound_blocks64 :
    ∃ s, run (step blocks64) init [.notifyFTQInsert (numbered 1) fun _ => none,
      .notifyFTQRemove (numbered 1), .translationComplete 0 ⟨false, false, false, 0⟩] = .ok s ∧
      s.pfq.length ≤ 4 ∧ s.translationq.length ≤ 4 := by
  have hdue : Along (step blocks64) Due init [.notifyFTQInsert (numbered 1) fun _ => none,
      .notifyFTQRemove (numbered 1), .translationComplete 0 ⟨false, false, false, 0⟩] :=
    along_of_test Due (by decide +kernel)
  exact (prefetch_queues_sound hdue).1

end FetchDirectedPrefetcher

end Prefetcher

end BTBFerret
