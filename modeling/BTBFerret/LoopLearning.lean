import Mathlib.Logic.Function.Iterate
import BTBFerret.LoopPredictor

/-!
# Learning a loop

Four fields of an entry decide what it predicts, and one execution of the branch maps them to new
values. A loop with a constant number of iterations repeats one block of outcomes, so the fields at
the end of each block are an iteration of one map. The first blocks may be miscounted; afterwards
every block raises the confidence.
-/

namespace BTBFerret

open Function
open LoopParams (ageReset calcConf hitUpdate)

/-- What an entry has learned. -/
structure LoopCount where
  numIter : Nat
  currentIter : Nat
  confidence : Nat
  dir : Bool
  deriving DecidableEq

def LoopEntry.count (e : LoopEntry) : LoopCount := ⟨e.numIter, e.currentIter, e.confidence, e.dir⟩

namespace LoopCount

variable (c : LoopParams) (k : LoopCount)

def predicts : Bool := if k.currentIter + 1 = k.numIter then !k.dir else k.dir

def iterate : LoopCount :=
  let i := (k.currentIter + 1) % 2 ^ c.loopTableIterBits
  if k.numIter < i then ⟨0, i, 0, k.dir⟩ else { k with currentIter := i }

def finish (taken : Bool) : LoopCount :=
  if k.currentIter = k.numIter then
    if k.numIter < 3 then ⟨0, 0, 0, taken⟩
    else ⟨k.numIter, 0, unsignedCtrUpdate k.confidence true c.loopTableConfidenceBits, k.dir⟩
  else ⟨if k.numIter = 0 then k.currentIter else 0, 0, 0, k.dir⟩

/-- One execution of the branch. -/
def advance (taken : Bool) : LoopCount :=
  if k.confidence = c.confidenceThreshold ∧ taken ≠ k.predicts then ⟨0, 0, 0, k.dir⟩
  else
    let k := k.iterate c
    if taken ≠ k.dir then k.finish c taken else k

/-- The entry continues in its direction to the end of a block and then leaves it. -/
def block (N : Nat) (d : Bool) : LoopCount := ((advance c · d)^[N - 1] k).advance c !d

end LoopCount

namespace LoopPredictor

open LoopCount

variable {c : LoopParams}

lemma count_countIteration (e : LoopEntry) : (c.countIteration e).count = e.count.iterate c := by
  unfold LoopParams.countIteration LoopCount.iterate LoopEntry.count ageReset
  dsimp only
  split_ifs <;> simp_all

lemma count_endLoop (taken : Bool) (e : LoopEntry) :
    (c.endLoop taken e).count = e.count.finish c taken := by
  unfold LoopParams.endLoop finish LoopEntry.count LoopParams.ageReset
  dsimp only
  split_ifs <;> simp_all

/-- What else is in the entry does not matter for what it learns. -/
lemma count_hitUpdate (hbase : c.scl = false) (hdir : c.useDirectionBit = true) (taken : Bool)
    (bi : LoopBranchInfo) (tagePred ageInc : Bool) (e : LoopEntry)
    (hvalid : bi.loopPredValid = c.calcConf e) (hpred : bi.loopPred = c.predicts e e.currentIter) :
    (c.hitUpdate taken bi tagePred ageInc e).count = e.count.advance c taken := by
  have hpredicts : c.predicts e e.currentIter = e.count.predicts := by
    unfold LoopParams.predicts LoopCount.predicts LoopEntry.count
    simp [hdir]
  have hconf : c.calcConf e = decide (e.count.confidence = c.confidenceThreshold) := by
    unfold calcConf LoopEntry.count
    rw [hbase, Bool.false_and, Bool.or_false, beq_eq_decide]
  rw [hpredicts] at hpred
  rw [hconf] at hvalid
  have hwrong : (bi.loopPredValid && taken != bi.loopPred) = true ↔
      e.count.confidence = c.confidenceThreshold ∧ taken ≠ e.count.predicts := by
    simp [hvalid, hpred]
  -- the age may have changed before the iteration is counted
  have haged : ∀ e' : LoopEntry, e'.count = e.count →
      (if taken != (if c.useDirectionBit then (c.countIteration e').dir else true) then
        c.endLoop taken (c.countIteration e') else c.countIteration e').count =
      if taken ≠ (e.count.iterate c).dir then (e.count.iterate c).finish c taken
      else e.count.iterate c := by
    intro e' he
    have hiter := (count_countIteration (c := c) e').trans (congrArg _ he)
    have hsame : (c.countIteration e').dir = (e.count.iterate c).dir :=
      congrArg LoopCount.dir hiter
    simp only [hdir, if_true, hsame, bne_iff_ne]
    split
    · rw [count_endLoop, hiter]
    · exact hiter
  unfold hitUpdate advance
  by_cases h : e.count.confidence = c.confidenceThreshold ∧ taken ≠ e.count.predicts
  · rw [if_pos h, if_pos (hwrong.mpr h)]
    rfl
  · rw [if_neg h, if_neg (fun h' => h (hwrong.mp h'))]
    refine haged _ ?_
    split
    · rfl
    · rfl

/-! ## One block -/

section

variable {N n i m r : Nat} {d : Bool}

/-- Below its number of iterations an entry goes on counting, confident or not. -/
lemma advance_within (hn : n < 2 ^ c.loopTableIterBits) (hlt : i + 1 < n) :
    advance c ⟨n, i, m, d⟩ d = ⟨n, i + 1, m, d⟩ := by
  have hmod : (i + 1) % 2 ^ c.loopTableIterBits = i + 1 := Nat.mod_eq_of_lt (by omega)
  simp [advance, predicts, LoopCount.iterate, hmod, hlt.ne, show ¬ n ≤ i by omega]

lemma iterate_within (hn : n < 2 ^ c.loopTableIterBits) (hlt : i + r < n) :
    (advance c · d)^[r] ⟨n, i, m, d⟩ = ⟨n, i + r, m, d⟩ := by
  induction r with
  | zero => rfl
  | succ _ ih =>
    rw [iterate_succ_apply', ih (by omega), advance_within hn (by omega)]
    rfl

variable (hconf : 0 < c.confidenceThreshold)
include hconf

lemma advance_unsure (taken : Bool) : advance c ⟨n, i, 0, d⟩ taken =
    let k := LoopCount.iterate c ⟨n, i, 0, d⟩
    if taken ≠ k.dir then k.finish c taken else k :=
  if_neg fun h => hconf.ne h.1

lemma iterate_unknown (hlt : i + r < 2 ^ c.loopTableIterBits) :
    (advance c · d)^[r] ⟨0, i, 0, d⟩ = ⟨0, i + r, 0, d⟩ := by
  induction r with
  | zero => rfl
  | succ r ih =>
    have hmod : (i + r + 1) % 2 ^ c.loopTableIterBits = i + r + 1 := Nat.mod_eq_of_lt (by omega)
    rw [iterate_succ_apply', ih (by omega), advance_unsure hconf]
    simp [LoopCount.iterate, hmod]
    omega

lemma advance_end (hpos : 0 < i) (hlt : i < 2 ^ c.loopTableIterBits) :
    advance c ⟨0, i - 1, 0, d⟩ (!d) = ⟨i, 0, 0, d⟩ := by
  have hmod : (i - 1 + 1) % 2 ^ c.loopTableIterBits = i := by
    rw [Nat.mod_eq_of_lt (by omega)]
    omega
  rw [advance_unsure hconf]
  simp [LoopCount.iterate, finish, hmod, hpos, hpos.ne']

lemma block_unknown (hlt : i + N < 2 ^ c.loopTableIterBits) (hpos : 0 < N) :
    block c ⟨0, i, 0, d⟩ N d = ⟨i + N, 0, 0, d⟩ := by
  rw [block, iterate_unknown hconf (by omega), show i + (N - 1) = i + N - 1 by omega]
  exact advance_end hconf (by omega) hlt

omit hconf in
lemma block_known (h3 : 3 ≤ N) (hN : N < 2 ^ c.loopTableIterBits) :
    block c ⟨N, 0, m, d⟩ N d = ⟨N, 0, unsignedCtrUpdate m true c.loopTableConfidenceBits, d⟩ := by
  have hpred : N - 1 + 1 = N := by omega
  rw [block, iterate_within hN (by omega), Nat.zero_add]
  simp [advance, predicts, LoopCount.iterate, finish, hpred, Nat.mod_eq_of_lt hN]
  omega

/-- One iteration too many was counted. -/
lemma block_over (h3 : 3 ≤ N) (hN : N + 1 < 2 ^ c.loopTableIterBits) :
    block c ⟨N + 1, 0, 0, d⟩ N d = ⟨0, 0, 0, d⟩ := by
  have hpred : N - 1 + 1 = N := by omega
  rw [block, iterate_within hN (by omega), Nat.zero_add, advance_unsure hconf]
  simp [LoopCount.iterate, finish, hpred, Nat.mod_eq_of_lt (Nat.lt_of_succ_lt hN)]

/-- The counter wraps around at the end of the block, and the entry turns its direction. -/
lemma block_wraps (h3 : 3 ≤ N) (hN : N + 1 = 2 ^ c.loopTableIterBits) :
    block c ⟨0, 1, 0, d⟩ N d = ⟨0, 0, 0, !d⟩ := by
  rw [block, iterate_unknown hconf (by omega), advance_unsure hconf]
  simp [LoopCount.iterate, finish, show 1 + (N - 1) + 1 = 2 ^ c.loopTableIterBits by omega]

/-- Two iterations turn it back. -/
lemma block_turned (h3 : 3 ≤ N) (hN : N < 2 ^ c.loopTableIterBits) :
    block c ⟨0, 0, 0, !d⟩ N d = ⟨N - 2, 0, 0, d⟩ := by
  have hone : 1 % 2 ^ c.loopTableIterBits = 1 := Nat.mod_eq_of_lt (by omega)
  have hturn : (advance c · d)^[2] ⟨0, 0, 0, !d⟩ = ⟨0, 0, 0, d⟩ := by
    rw [iterate_succ_apply', iterate_one, advance_unsure hconf]
    simp [LoopCount.iterate, finish, hone, advance_unsure hconf]
  rw [block, show N - 1 = (N - 3) + 2 by omega, iterate_add_apply, hturn,
    iterate_unknown hconf (by omega), Nat.zero_add, show N - 3 = N - 2 - 1 by omega]
  exact advance_end hconf (by omega) (by omega)

/-- Two iterations too few were counted. -/
lemma block_under (h3 : 3 ≤ N) (hN : N < 2 ^ c.loopTableIterBits) :
    block c ⟨N - 2, 0, 0, d⟩ N d = ⟨N, 0, 0, d⟩ := by
  have hfirst : N - 3 + 1 = N - 2 := by omega
  have hsecond : N - 2 + 1 = N - 1 := by omega
  have hpass : (advance c · d)^[2] ⟨N - 2, N - 3, 0, d⟩ = ⟨0, N - 1, 0, d⟩ := by
    rw [iterate_succ_apply', iterate_one, advance_unsure hconf]
    simp [LoopCount.iterate, hfirst, hsecond, advance_unsure hconf,
      Nat.mod_eq_of_lt (show N - 2 < 2 ^ c.loopTableIterBits by omega),
      Nat.mod_eq_of_lt (show N - 1 < 2 ^ c.loopTableIterBits by omega),
      show N - 2 < N - 1 by omega]
  rw [block, show N - 1 = 2 + (N - 3) by omega, iterate_add_apply,
    iterate_within (by omega) (by omega), Nat.zero_add, hpass]
  exact advance_end hconf (by omega) hN

end

/-! ## Repeated blocks -/

/-- The outcomes of a loop with `N` iterations. -/
def outcome (d : Bool) (N k : Nat) : Bool := if (k + 1) % N = 0 then !d else d

/-- The fields after `n` executions of the branch. -/
def learned (c : LoopParams) (d : Bool) (N : Nat) (k : LoopCount) (n : Nat) : LoopCount :=
  ((List.range n).map (outcome d N)).foldl (advance c) k

section

variable {N : Nat} {d : Bool} {k : LoopCount}

lemma learned_succ (n : Nat) :
    learned c d N k (n + 1) = (learned c d N k n).advance c (outcome d N n) := by
  simp [learned, List.range_succ]

lemma outcome_in_block (q : Nat) {r : Nat} (hr : r + 1 < N) : outcome d N (N * q + r) = d := by
  rw [outcome, Nat.add_assoc, Nat.mul_add_mod, Nat.mod_eq_of_lt hr]
  rfl

lemma outcome_at_end (q : Nat) {r : Nat} (hr : r + 1 = N) : outcome d N (N * q + r) = !d := by
  rw [outcome, Nat.add_assoc, Nat.mul_add_mod, hr, Nat.mod_self]
  rfl

lemma learned_in_block (q : Nat) {r : Nat} (hr : r < N) :
    learned c d N k (N * q + r) = (advance c · d)^[r] (learned c d N k (N * q)) := by
  induction r with
  | zero => rfl
  | succ _ ih =>
    rw [← Nat.add_assoc, learned_succ, ih (by omega), outcome_in_block q hr,
      iterate_succ_apply']

lemma learned_blocks (hpos : 0 < N) (q : Nat) :
    learned c d N k (N * q) = (block c · N d)^[q] k := by
  induction q with
  | zero => simp [learned]
  | succ q ih =>
    rw [iterate_succ_apply', ← ih, block, ← learned_in_block q (by omega),
      show N * (q + 1) = N * q + (N - 1) + 1 by rw [Nat.mul_succ]; omega, learned_succ,
      outcome_at_end q (by omega)]

variable (h3 : 3 ≤ N) (hN : N < 2 ^ c.loopTableIterBits)
include h3 hN

lemma blocks_known {m : Nat} (hm : m ≤ c.confidenceThreshold) (q : Nat) :
    (block c · N d)^[q] ⟨N, 0, m, d⟩ = ⟨N, 0, min (m + q) c.confidenceThreshold, d⟩ := by
  induction q with
  | zero => simp [hm]
  | succ q ih =>
    have hcount : unsignedCtrUpdate (min (m + q) c.confidenceThreshold) true
        c.loopTableConfidenceBits = min (m + (q + 1)) c.confidenceThreshold := by
      unfold unsignedCtrUpdate LoopParams.confidenceThreshold
      rw [if_pos rfl]
      split <;> omega
    rw [iterate_succ_apply', ih, block_known h3 hN, hcount]

/-- After three blocks at most the number of iterations is known. -/
lemma blocks_allocated (hconf : 0 < c.confidenceThreshold) {i : Nat} (hi : i ≤ 1) :
    ∃ p ≤ 3, (block c · N d)^[p] ⟨0, i, 0, d⟩ = ⟨N, 0, 0, d⟩ := by
  obtain rfl | rfl : i = 0 ∨ i = 1 := by omega
  · refine ⟨1, by omega, ?_⟩
    rw [iterate_one, block_unknown hconf (by omega) (by omega), Nat.zero_add]
  · refine ⟨3, Nat.le_refl 3, ?_⟩
    change block c (block c (block c ⟨0, 1, 0, d⟩ N d) N d) N d = _
    rcases Nat.lt_or_ge (N + 1) (2 ^ c.loopTableIterBits) with hlt | hge
    · rw [block_unknown hconf (by omega) (by omega), Nat.add_comm, block_over hconf h3 hlt,
        block_unknown hconf (by omega) (by omega), Nat.zero_add]
    · rw [block_wraps hconf h3 (by omega), block_turned hconf h3 hN, block_under hconf h3 hN]

lemma learned_confident (hconf : 0 < c.confidenceThreshold) {i n : Nat} (hi : i ≤ 1)
    (hn : N * (c.confidenceThreshold + 3) ≤ n) :
    learned c d N ⟨0, i, 0, d⟩ n = ⟨N, n % N, c.confidenceThreshold, d⟩ := by
  obtain ⟨p, hp, hknown⟩ := blocks_allocated h3 hN hconf (d := d) hi
  have hpos : 0 < N := by omega
  have hq : c.confidenceThreshold + 3 ≤ n / N := (Nat.le_div_iff_mul_le hpos).mpr (by
    rw [Nat.mul_comm]
    exact hn)
  have hr := Nat.mod_lt n hpos
  have hblocks : (block c · N d)^[n / N] ⟨0, i, 0, d⟩ = ⟨N, 0, c.confidenceThreshold, d⟩ := by
    rw [show n / N = (n / N - p) + p by omega, iterate_add_apply, hknown,
      blocks_known h3 hN (Nat.zero_le _), Nat.min_eq_right (by omega)]
  conv_lhs => rw [← Nat.div_add_mod n N]
  rw [learned_in_block _ hr, learned_blocks hpos, hblocks, iterate_within hN (by omega),
    Nat.zero_add]

end

/-! ## Executions of the branch -/

/-- A conditional branch is predicted and committed. -/
structure Execution where
  pc : Addr
  taken : Bool
  prevPredTaken : Bool
  predTaken : Bool
  tagePred : Bool
  draws : LoopDraws

def execute (s : LoopPredictor c) (x : Execution) : LoopPredictor c :=
  let (s, bi, _) := s.loopPredict x.pc true makeBranchInfo x.prevPredTaken
  s.condBranchUpdate x.pc x.taken x.tagePred { bi with predTaken := x.predTaken } x.draws

/-- The branch is executed, and in between anything may happen that does not replace its entry or
count in it. -/
inductive Runs (pc : Addr) (idx : Nat) (s : LoopPredictor c) : List Bool → LoopPredictor c → Prop
  | refl : Runs pc idx s [] s
  | own {outcomes : List Bool} {t : LoopPredictor c} (h : Runs pc idx s outcomes t) (x : Execution)
      (hx : x.pc = pc) : Runs pc idx s (outcomes ++ [x.taken]) (t.execute x)
  | other {outcomes : List Bool} {t u : LoopPredictor c} (h : Runs pc idx s outcomes t)
      (count : (u.ltable idx).count = (t.ltable idx).count)
      (found : u.hitIndex pc = t.hitIndex pc) : Runs pc idx s outcomes u

variable {s : LoopPredictor c} {pc : Addr} {idx : Nat}

lemma getLoop_hit (h : s.hitIndex pc = some idx) (speculative : Bool) :
    (s.getLoop pc makeBranchInfo speculative).1.index c = some idx ∧
      (s.getLoop pc makeBranchInfo speculative).1.loopPredValid = c.calcConf (s.ltable idx) ∧
      (s.getLoop pc makeBranchInfo speculative).2 = c.predicts (s.ltable idx)
        (if speculative then (s.ltable idx).currentIterSpec else (s.ltable idx).currentIter) := by
  refine ⟨(s.getLoop_record pc speculative).1.trans h, ?_⟩
  obtain ⟨_, hway, rfl⟩ := Option.map_eq_some_iff.mp h
  simp [getLoop, hway]

lemma tag_hitUpdate (taken : Bool) (bi : LoopBranchInfo) (tagePred ageInc : Bool)
    (e : LoopEntry) : (c.hitUpdate taken bi tagePred ageInc e).tag = e.tag := by
  have hcount : ∀ e, (c.countIteration e).tag = e.tag := by
    intro e
    unfold LoopParams.countIteration ageReset
    dsimp only
    split_ifs <;> rfl
  have hend : ∀ e, (c.endLoop taken e).tag = e.tag := by
    intro e
    unfold LoopParams.endLoop ageReset
    dsimp only
    split_ifs <;> rfl
  unfold hitUpdate
  dsimp only
  split_ifs <;> simp [hcount, hend]

lemma allocate_entry (bi : LoopBranchInfo) (taken : Bool) (nrand : Int) (k i : Nat)
    (table : Nat → LoopEntry) (idx : Nat) :
    (c.allocate bi taken nrand k i table idx).tag = (table idx).tag ∨
      (c.allocate bi taken nrand k i table idx).count =
        ⟨0, c.initialLoopIter % 2 ^ 16, 0, !taken⟩ := by
  induction k generalizing i table with
  | zero => exact .inl rfl
  | succ k ih =>
    unfold LoopParams.allocate
    dsimp only
    generalize c.finallindex _ _ _ = way
    -- an entry whose age is counted down keeps its tag
    have hage : ∀ e : LoopEntry, e.tag = (table way).tag →
        (update table way e idx).tag = (table idx).tag := by
      intro e he
      by_cases hidx : idx = way
      · rw [hidx, update_self, he]
      · rw [update_of_ne hidx]
    split_ifs
    · by_cases hidx : idx = way
      · rw [hidx, update_self]
        exact .inr rfl
      · rw [update_of_ne hidx]
        exact .inl rfl
    · exact .inl (hage _ rfl)
    · exact (ih _ _).imp_left fun h => h.trans (hage _ rfl)

/-- A branch without an entry goes on to the allocation in `loopUpdate`. -/
lemma execute_of_miss (hspec : c.useSpeculation = false) (x : Execution)
    (hmiss : s.hitIndex x.pc = none) :
    ∃ bi : LoopBranchInfo, bi.index c = none ∧
      s.execute x = s.loopUpdate x.taken bi x.tagePred x.draws := by
  have hnone := Option.map_eq_none_iff.mp hmiss
  obtain ⟨hhit, -⟩ := locate_fields (c := c) x.pc makeBranchInfo
  let bi : LoopBranchInfo := { c.locate x.pc makeBranchInfo with
    loopPred := false
    predTaken := x.predTaken }
  have hvalid : bi.loopPredValid = false := by
    simp only [bi, LoopParams.locate]
    split_ifs <;> rfl
  refine ⟨bi, by simp [LoopBranchInfo.index, bi, hhit], ?_⟩
  simp only [execute, loopPredict, hspec, if_true, Bool.false_eq_true, if_false, getLoop, hnone,
    condBranchUpdate]
  rw [if_neg]
  simpa using fun h => absurd (hvalid.symm.trans h) Bool.false_ne_true

/-- The entry that an execution allocates for a branch has counted nothing yet and predicts the
opposite of the outcome. -/
lemma execute_allocates (hspec : c.useSpeculation = false) (hinit : c.initialLoopIter ≤ 1)
    (x : Execution) (hmiss : s.hitIndex x.pc = none)
    (hfound : (s.execute x).hitIndex x.pc = some idx) :
    ((s.execute x).ltable idx).count = ⟨0, c.initialLoopIter, 0, !x.taken⟩ := by
  obtain ⟨bi, hindex, hexecute⟩ := execute_of_miss hspec x hmiss
  rw [hexecute] at hfound ⊢
  simp only [loopUpdate, hindex] at hfound ⊢
  generalize ((if c.useDirectionBit then _ else _ : Bool) && _) = allocates at hfound ⊢
  cases allocates with
  | false => cases hmiss.symm.trans hfound
  | true =>
    rcases allocate_entry (c := c) bi x.taken x.draws.nrand
      (2 ^ c.logLoopTableAssoc) 0 s.ltable idx with
      htag | hcount
    · -- the way that is found had another tag before
      obtain ⟨way, hway, rfl⟩ := Option.map_eq_some_iff.mp hfound
      have hmatch := List.find?_some hway
      have hother := List.find?_eq_none.mp (Option.map_eq_none_iff.mp hmiss) way
        (List.mem_of_find?_eq_some hway)
      simp only [matchesWay] at hmatch hother
      rw [← htag] at hother
      exact absurd hmatch hother
    · exact hcount.trans (by rw [Nat.mod_eq_of_lt (hinit.trans_lt (by decide))])

section

variable (hbase : c.scl = false) (hspec : c.useSpeculation = false)
  (hdir : c.useDirectionBit = true)
include hbase hspec hdir

lemma execute_own (x : Execution) (h : s.hitIndex x.pc = some idx) :
    ((s.execute x).ltable idx).count = (s.ltable idx).count.advance c x.taken ∧
      (s.execute x).hitIndex x.pc = some idx := by
  obtain ⟨hindex, hvalid, hpred⟩ := getLoop_hit h false
  -- the record that the prediction leaves to the commit
  let bi : LoopBranchInfo := { (s.getLoop x.pc makeBranchInfo false).1 with
    loopPred := (s.getLoop x.pc makeBranchInfo false).2
    predTaken := x.predTaken }
  have hbi : bi.index c = some idx := hindex
  obtain ⟨_, hexecute⟩ : ∃ counter, s.execute x = setEntry ⟨s.ltable, counter⟩ idx
      (c.hitUpdate x.taken bi x.tagePred x.draws.ageInc (s.ltable idx)) := by
    have hpredicted : s.execute x = s.condBranchUpdate x.pc x.taken x.tagePred bi x.draws := by
      simp only [execute, loopPredict, hspec, if_true, Bool.false_eq_true, if_false]
      rfl
    rw [hpredicted, condBranchUpdate, hspec]
    simp only [Bool.false_eq_true, if_false, loopUpdate, hbi]
    split
    · exact ⟨_, rfl⟩
    · exact ⟨_, rfl⟩
  rw [hexecute]
  constructor
  · rw [ltable_setEntry_self]
    exact count_hitUpdate hbase hdir _ _ _ _ _ hvalid hpred
  · refine (hitIndex_congr ?_ x.pc).trans h
    intro i
    by_cases hi : i = idx
    · rw [hi, ltable_setEntry_self, tag_hitUpdate]
    · rw [ltable_setEntry_of_ne _ hi]

lemma Runs.count {outcomes : List Bool} {t : LoopPredictor c} (h : Runs pc idx s outcomes t)
    (hfound : s.hitIndex pc = some idx) :
    (t.ltable idx).count = outcomes.foldl (advance c) (s.ltable idx).count ∧
      t.hitIndex pc = some idx := by
  induction h with
  | refl => exact ⟨rfl, hfound⟩
  | own _ x hx ih =>
    subst hx
    obtain ⟨hcount, hhit⟩ := execute_own hbase hspec hdir x ih.2
    exact ⟨by rw [hcount, ih.1, List.foldl_append]; rfl, hhit⟩
  | other _ count found ih => exact ⟨count.trans ih.1, found.trans ih.2⟩

/-- A loop of `N` iterations is learned after at most three blocks more than the confidence needs.
From then on every outcome is the predicted one. -/
theorem constant_trip_learned (hconf : 1 ≤ c.loopTableConfidenceBits) {N : Nat} (h3 : 3 ≤ N)
    (hN : N ≤ 2 ^ c.loopTableIterBits - 1) (hinit : c.initialLoopIter ≤ 1) {d : Bool}
    (hfound : s.hitIndex pc = some idx)
    (hallocated : (s.ltable idx).count = ⟨0, c.initialLoopIter, 0, d⟩) {n : Nat}
    {t : LoopPredictor c} (hruns : Runs pc idx s ((List.range n).map (outcome d N)) t)
    (hblocks : N * (c.confidenceThreshold + 3) ≤ n) :
    (t.getLoop pc makeBranchInfo false).1.loopPredValid = true ∧
      (t.getLoop pc makeBranchInfo false).2 = outcome d N n := by
  have hpos : 0 < c.confidenceThreshold := by
    have := Nat.pow_le_pow_right (show 0 < 2 by omega) hconf
    unfold LoopParams.confidenceThreshold
    omega
  have hlt : N < 2 ^ c.loopTableIterBits := by omega
  obtain ⟨hcount, hhit⟩ := hruns.count hbase hspec hdir hfound
  rw [hallocated] at hcount
  have hlearned := hcount.trans (learned_confident h3 hlt hpos hinit hblocks)
  obtain ⟨_, hvalid, hpred⟩ := getLoop_hit hhit false
  rw [hvalid, hpred]
  injection hlearned with hnum hiter hconfidence hd
  constructor
  · simp [calcConf, hconfidence]
  · have hmod := Nat.mod_lt n (show 0 < N by omega)
    have hend : (n + 1) % N = 0 ↔ n % N + 1 = N := by
      rw [Nat.add_mod_eq_ite, Nat.mod_eq_of_lt (show 1 < N by omega)]
      split <;> omega
    simp [LoopParams.predicts, outcome, hdir, hnum, hiter, hd, hend]

end

lemma runs_outcomes (s : LoopPredictor c) (pc : Addr) (idx : Nat) (outcomes : List Bool) :
    Runs pc idx s outcomes
      (outcomes.foldl (fun t taken => t.execute ⟨pc, taken, true, true, true, ⟨false, false, 0⟩⟩)
        s) := by
  induction outcomes using List.reverseRecOn with
  | nil => exact .refl
  | append_singleton _ taken ih =>
    rw [List.foldl_append]
    exact ih.own ⟨pc, taken, true, true, true, ⟨false, false, 0⟩⟩ rfl

/-- An empty table after the exit of a loop. -/
def allocated (c : LoopParams) : LoopPredictor c :=
  execute ⟨fun _ => ⟨0, 0, 0, 0, 0, 0, false⟩, -1⟩ ⟨10, false, true, true, true, ⟨false, false, 0⟩⟩

/-- The exit of the fifth block is predicted. -/
theorem constant_trip_learned_small :
    ∃ t, Runs 10 0 (allocated (.small false)) ((List.range 14).map (outcome true 3)) t ∧
      (t.getLoop 10 makeBranchInfo false).1.loopPredValid = true ∧
      (t.getLoop 10 makeBranchInfo false).2 = outcome true 3 14 := by
  have hruns := runs_outcomes (allocated (.small false)) 10 0 ((List.range 14).map (outcome true 3))
  have hallocated : ((allocated (.small false)).ltable 0).count = ⟨0, 0, 0, true⟩ :=
    execute_allocates rfl (by decide) _ (by decide) (by decide)
  exact ⟨_, hruns, constant_trip_learned rfl rfl rfl (by decide) (by decide) (by decide) (by decide)
    (by decide) hallocated hruns (by decide)⟩

/-- Without a confidence bit every entry is confident, and the first exit frees it. -/
def unsureParams : LoopParams :=
  { LoopParams.small false with
    loopTableConfidenceBits := 0
    confidenceBits_le := by decide }

/-- After four blocks the exit of the fifth one is predicted wrongly. -/
theorem exit_never_learned :
    ∃ t, Runs 10 0 (allocated unsureParams) ((List.range 14).map (outcome true 3)) t ∧
      (allocated unsureParams).hitIndex 10 = some 0 ∧
      ((allocated unsureParams).ltable 0).count = ⟨0, unsureParams.initialLoopIter, 0, true⟩ ∧
      3 * (unsureParams.confidenceThreshold + 3) ≤ 14 ∧
      (t.getLoop 10 makeBranchInfo false).2 ≠ outcome true 3 14 :=
  ⟨_, runs_outcomes _ _ _ _, by decide, by decide, by decide, by decide +kernel⟩

end LoopPredictor

end BTBFerret
