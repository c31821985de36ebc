import BTBFerret.AddrRange

/-!
# Excluding ranges from a range

`AddrRange::exclude` sorts the ranges to be left out and sweeps over them from the start of the
range on. `nextStart` is the first address that the sweep has not decided yet.
-/

namespace BTBFerret.Ranges

open List
open BitVec (le_def lt_def)

inductive ExcludeFault
  | range (f : RangeFault)
  | interleaved
  deriving DecidableEq

namespace AddrRange

/-- The constructor for ranges without interleaving. -/
def plain (start end_ : Addr) : AddrRange := ⟨start, end_, [], 0⟩

def excludeLoop (r : AddrRange) :
    List AddrRange → Addr → List AddrRange → Except ExcludeFault (List AddrRange)
  | [], nextStart, ranges =>
    .ok (if nextStart < r.end_ then ranges ++ [plain nextStart r.end_] else ranges)
  | e :: rest, nextStart, ranges =>
    if e.interleaved then .error .interleaved
    else do
      if !(← (r.intersects e).mapError .range) then r.excludeLoop rest nextStart ranges
      else if e.start ≤ nextStart then
        if e.end_ < r.end_ then
          r.excludeLoop rest (if nextStart < e.end_ then e.end_ else nextStart) ranges
        else .ok ranges
      else if e.end_ < r.end_ then
        r.excludeLoop rest e.end_ (ranges ++ [plain nextStart e.start])
      else .ok (ranges ++ [plain nextStart e.start])

def exclude (r : AddrRange) (excludeRanges : List AddrRange) :
    Except ExcludeFault (List AddrRange) :=
  if r.interleaved then .error .interleaved
  else r.excludeLoop (excludeRanges.mergeSort fun e e' => !e'.lt e) r.start []

variable {r e : AddrRange}

def Spans (r : AddrRange) (a : Addr) : Prop := r.start ≤ a ∧ a < r.end_

lemma holds_iff_spans (h : r.interleaved = false) (a : Addr) : r.Holds a ↔ r.Spans a := by
  simp [Holds, Spans, h]

lemma intersects_eq (hr : r.interleaved = false) (he : e.interleaved = false) :
    r.intersects e = .ok (decide (Overlaps r e)) := by
  unfold intersects
  by_cases hout : e.end_ ≤ r.start ∨ r.end_ ≤ e.start
  · have hnot : ¬ Overlaps r e := by
      simp only [Overlaps, le_def, lt_def] at hout ⊢
      omega
    rw [if_pos hout, decide_eq_false hnot]
  · have hover : Overlaps r e := by
      simp only [Overlaps, le_def, lt_def] at hout ⊢
      omega
    rw [if_neg hout, hr, he, decide_eq_true hover]
    rfl

/-- The ranges that a sweep from `nextStart` adds: in order, and exactly what is left. -/
structure Swept (r : AddrRange) (es : List AddrRange) (nextStart : Addr) (out : List AddrRange) :
    Prop where
  plain : ∀ x ∈ out, x.interleaved = false ∧ nextStart ≤ x.start ∧ x.start < x.end_
  ordered : out.Pairwise fun x y => x.end_ ≤ y.start
  exact : ∀ a, (∃ x ∈ out, x.Spans a) ↔ nextStart ≤ a ∧ a < r.end_ ∧ ∀ e ∈ es, ¬ e.Spans a

variable {es out : List AddrRange} {nextStart next : Addr}

/-- The sweep goes on from `next`, behind the addresses of the range. -/
lemma Swept.skip (h : Swept r es next out) (hnext : nextStart ≤ next)
    (hcovers : ∀ a, nextStart ≤ a → a < r.end_ → (next ≤ a ↔ ¬ e.Spans a)) :
    Swept r (e :: es) nextStart out := by
  refine ⟨fun x hx => ?_, h.ordered, fun a => ?_⟩
  · obtain ⟨hplain, hs, hlt⟩ := h.plain x hx
    exact ⟨hplain, BitVec.le_trans hnext hs, hlt⟩
  · rw [h.exact, forall_mem_cons]
    constructor
    · rintro ⟨ha, hend, hout⟩
      have hstart := BitVec.le_trans hnext ha
      exact ⟨hstart, hend, (hcovers a hstart hend).mp ha, hout⟩
    · rintro ⟨ha, hend, he, hout⟩
      exact ⟨(hcovers a ha hend).mpr he, hend, hout⟩

/-- The addresses in front of the ranges that are still to come are left. -/
lemma Swept.push (h : Swept r es next out) (hlt : nextStart < next) (hend : next ≤ r.end_)
    (hlater : ∀ x ∈ es, next ≤ x.start) :
    Swept r es nextStart (AddrRange.plain nextStart next :: out) := by
  refine ⟨forall_mem_cons.mpr ⟨⟨rfl, BitVec.le_refl _, hlt⟩, fun x hx => ?_⟩,
    pairwise_cons.mpr ⟨fun x hx => (h.plain x hx).2.1, h.ordered⟩, fun a => ?_⟩
  · obtain ⟨hplain, hs, hx⟩ := h.plain x hx
    exact ⟨hplain, BitVec.le_trans (BitVec.le_of_lt hlt) hs, hx⟩
  · have hbefore : ∀ x ∈ es, a < next → ¬ x.Spans a := by
      intro x hx
      have := hlater x hx
      simp only [Spans, le_def, lt_def] at this ⊢
      omega
    rw [exists_mem_cons_iff, h.exact]
    simp only [Spans, AddrRange.plain, le_def, lt_def] at *
    constructor
    · rintro (⟨ha, hn⟩ | ⟨ha, hrest⟩)
      · exact ⟨ha, by omega, fun x hx => hbefore x hx hn⟩
      · exact ⟨by omega, hrest⟩
    · rintro ⟨ha, hrest⟩
      by_cases hn : a.toNat < next.toNat
      · exact .inl ⟨ha, hn⟩
      · exact .inr ⟨by omega, hrest⟩

lemma swept_end (r : AddrRange) (es : List AddrRange) : Swept r es r.end_ [] := by
  refine ⟨forall_mem_nil _, .nil, fun a => ?_⟩
  simp only [not_mem_nil, false_and, exists_false, le_def, lt_def, false_iff]
  omega

/-- The run lemma of the sweep. The induction is on the ranges still to come, which are sorted. -/
lemma excludeLoop_spec (hr : r.interleaved = false) :
    ∀ (nextStart : Addr) (ranges : List AddrRange), es.Pairwise (·.start ≤ ·.start) →
    (∀ e ∈ es, e.interleaved = false ∧ e.start < e.end_) → r.start ≤ nextStart →
    nextStart < r.end_ →
    ∃ out, r.excludeLoop es nextStart ranges = .ok (ranges ++ out) ∧ Swept r es nextStart out := by
  induction es with
  | nil =>
    intro nextStart ranges _ _ _ hlt
    refine ⟨[plain nextStart r.end_], by rw [excludeLoop, if_pos hlt], ?_⟩
    exact (swept_end r []).push hlt (BitVec.le_refl _) (forall_mem_nil _)
  | cons e es ih =>
    intro nextStart ranges hsorted hplain hstart hlt
    obtain ⟨hlater, hsorted⟩ := pairwise_cons.mp hsorted
    obtain ⟨⟨he, hne⟩, hplain⟩ := forall_mem_cons.mp hplain
    unfold excludeLoop
    rw [he, if_neg Bool.false_ne_true, intersects_eq hr he]
    change ∃ out, (if !decide (Overlaps r e) then _ else _) = _ ∧ _
    by_cases hover : Overlaps r e
    · rw [decide_eq_true hover]
      change ∃ out, (if e.start ≤ nextStart then _ else _) = _ ∧ _
      obtain ⟨hfrom, hto⟩ := hover
      by_cases hs : e.start ≤ nextStart
      · rw [if_pos hs]
        by_cases hend : e.end_ < r.end_
        · rw [if_pos hend]
          generalize hnext : (if nextStart < e.end_ then e.end_ else nextStart) = next
          simp only [le_def, lt_def] at *
          have hbounds : next.toNat = max nextStart.toNat e.end_.toNat := by
            split at hnext <;> subst hnext <;> omega
          obtain ⟨out, hloop, hswept⟩ := ih next ranges hsorted hplain (by omega) (by omega)
          refine ⟨out, hloop, hswept.skip ?_ fun a ha hend => ?_⟩
          · rw [le_def]
            omega
          · simp only [Spans, le_def, lt_def] at *
            omega
        · rw [if_neg hend]
          refine ⟨[], by rw [append_nil], (swept_end r es).skip (BitVec.le_of_lt hlt) ?_⟩
          simp only [Spans, le_def, lt_def] at *
          omega
      · rw [if_neg hs]
        -- what is in front of the range is left, then the sweep goes on behind it
        have hall : ∀ x ∈ e :: es, e.start ≤ x.start :=
          forall_mem_cons.mpr ⟨BitVec.le_refl _, hlater⟩
        have hpush : ∀ {out}, Swept r (e :: es) e.start out →
            Swept r (e :: es) nextStart (plain nextStart e.start :: out) := fun h =>
          h.push (BitVec.not_le.mp hs) (BitVec.le_of_lt hto) hall
        by_cases hend : e.end_ < r.end_
        · rw [if_pos hend]
          obtain ⟨out, hloop, hswept⟩ :=
            ih e.end_ (ranges ++ [plain nextStart e.start]) hsorted hplain
            (BitVec.le_of_lt hfrom) hend
          refine ⟨_ :: out, by rw [hloop, append_assoc]; rfl, hpush ?_⟩
          refine hswept.skip (BitVec.le_of_lt hne) fun a ha _ => ?_
          simp only [Spans, le_def, lt_def] at *
          omega
        · rw [if_neg hend]
          refine ⟨[_], rfl, hpush ((swept_end r es).skip (BitVec.le_of_lt hto) fun a ha hlt => ?_)⟩
          simp only [Spans, le_def, lt_def] at *
          omega
    · rw [decide_eq_false hover]
      obtain ⟨out, hloop, hswept⟩ := ih nextStart ranges hsorted hplain hstart hlt
      refine ⟨out, hloop, hswept.skip (BitVec.le_refl _) fun a ha hend => ?_⟩
      simp only [Overlaps, Spans, le_def, lt_def] at *
      omega

/-- The exclusion returns disjoint ranges in increasing order, which have the addresses of the range
that no excluded range has. -/
theorem exclusion_exact (r : AddrRange) (hr : r.interleaved = false) (hlt : r.start < r.end_)
    (excludeRanges : List AddrRange)
    (hplain : ∀ e ∈ excludeRanges, e.interleaved = false ∧ e.start < e.end_) :
    ∃ ranges, r.exclude excludeRanges = .ok ranges ∧
      (∀ x ∈ ranges, x.interleaved = false ∧ x.start < x.end_) ∧
      ranges.Pairwise (fun x y => x.end_ ≤ y.start) ∧
      ∀ a, (∃ x ∈ ranges, x.Holds a) ↔ r.Holds a ∧ ∀ e ∈ excludeRanges, ¬ e.Holds a := by
  have hmem : ∀ e, e ∈ excludeRanges.mergeSort (fun e e' => !e'.lt e) ↔ e ∈ excludeRanges :=
    fun e => (mergeSort_perm _ _).mem_iff
  have hsorted : (excludeRanges.mergeSort fun e e' => !e'.lt e).Pairwise (·.start ≤ ·.start) := by
    refine (pairwise_mergeSort ?_ ?_ excludeRanges).imp fun {e e'} h => start_le_of_key_le ?_
    · intro e e' e'' h h'
      simp only [Bool.not_eq_true', Bool.eq_false_iff, ne_eq, lt_iff, not_lt] at *
      exact h.trans h'
    · intro e e'
      simp only [Bool.or_eq_true, Bool.not_eq_true', Bool.eq_false_iff, ne_eq, lt_iff, not_lt]
      exact le_total _ _
    · simpa only [Bool.not_eq_true', Bool.eq_false_iff, ne_eq, lt_iff, not_lt] using h
  obtain ⟨out, hloop, hswept⟩ := excludeLoop_spec hr r.start [] hsorted
    (fun e he => hplain e ((hmem e).mp he)) (BitVec.le_refl _) hlt
  refine ⟨out, by rw [exclude, hr]; exact hloop, fun x hx => ?_, hswept.ordered, fun a => ?_⟩
  · obtain ⟨hx, -, hne⟩ := hswept.plain x hx
    exact ⟨hx, hne⟩
  · have hout : (∃ x ∈ out, x.Holds a) ↔ ∃ x ∈ out, x.Spans a := exists_congr fun x =>
      and_congr_right fun hx => holds_iff_spans (hswept.plain x hx).1 a
    rw [hout, hswept.exact, holds_iff_spans hr, Spans, and_assoc]
    refine and_congr_right fun _ => and_congr_right fun _ => forall_congr' fun e => ?_
    rw [hmem]
    exact forall_congr' fun he => not_congr (holds_iff_spans (hplain e he).1 a).symm

/-- Address 31 is left between the two excluded ranges. -/
theorem exclusion_exact_small :
    ∃ ranges, (plain 16 64).exclude [plain 32 48, plain 0 20] = .ok ranges ∧
      ∃ x ∈ ranges, x.Holds 31 := by
  obtain ⟨ranges, heq, -, -, hexact⟩ := exclusion_exact (plain 16 64) rfl (by decide)
    [plain 32 48, plain 0 20] (by decide)
  exact ⟨ranges, heq, (hexact 31).mpr (by simp [Holds, plain, interleaved])⟩

end AddrRange

end BTBFerret.Ranges
