import Mathlib.Tactic

/-!
# Sorted lists of linked stacks

A bin is a stack of members that share a key, and the bins are strictly increasing in their keys.
Every member has two pointers: to the member below it, and to the top of the next bin. Only the
second pointer of a bin's top is ever followed, so nothing is asked of the others. `Sorted` and
`Linked` come with one rule for each change: a new bin, a push, the removal of a member, and a bin
that is pointed elsewhere.
-/

namespace LinkedBins

open List Function

universe u v

variable {α : Type u} {K : Type v}

def consBin (b : List α) (bins : List (List α)) : List (List α) :=
  if b.isEmpty then bins else b :: bins

lemma flatten_consBin (b : List α) (bins : List (List α)) :
    (consBin b bins).flatten = b ++ bins.flatten := by
  cases b with
  | nil | cons => rfl

/-! ## The order of the bins -/

section

variable [LinearOrder K] {key : α → K} {newer : α → α → Prop} {bins before after : List (List α)}
  {b : List α} {e : α}

structure Sorted (key : α → K) (newer : α → α → Prop) (bins : List (List α)) : Prop where
  nonempty : ∀ b ∈ bins, b ≠ []
  uniform : ∀ b ∈ bins, ∀ x ∈ b, ∀ y ∈ b, key x = key y
  stacked : ∀ b ∈ bins, b.Pairwise newer
  increasing : bins.Pairwise fun b b' => ∀ x ∈ b, ∀ y ∈ b', key x < key y

lemma sorted_nil (key : α → K) (newer : α → α → Prop) : Sorted key newer [] :=
  ⟨nofun, nofun, nofun, .nil⟩

lemma Sorted.congr {key' : α → K} {newer' : α → α → Prop} (h : Sorted key newer bins)
    (hkey : ∀ x ∈ bins.flatten, key' x = key x)
    (hnewer : ∀ x ∈ bins.flatten, ∀ y ∈ bins.flatten, newer x y → newer' x y) :
    Sorted key' newer' bins := by
  have hmem : ∀ {b : List α} {x : α}, b ∈ bins → x ∈ b → x ∈ bins.flatten :=
    fun hb hx => mem_flatten.mpr ⟨_, hb, hx⟩
  constructor
  · exact h.nonempty
  · intro b hb x hx y hy
    rw [hkey x (hmem hb hx), hkey y (hmem hb hy)]
    exact h.uniform b hb x hx y hy
  · intro b hb
    exact (h.stacked b hb).imp_of_mem fun hx hy => hnewer _ (hmem hb hx) _ (hmem hb hy)
  · refine h.increasing.imp_of_mem fun hb hb' hlt x hx y hy => ?_
    rw [hkey x (hmem hb hx), hkey y (hmem hb' hy)]
    exact hlt x hx y hy

/-- What of the order concerns two neighbouring runs of bins. -/
lemma sorted_append : Sorted key newer (before ++ after) ↔
    Sorted key newer before ∧ Sorted key newer after ∧
      ∀ x ∈ before.flatten, ∀ y ∈ after.flatten, key x < key y := by
  constructor
  · intro h
    obtain ⟨hb, ha, hcross⟩ := pairwise_append.mp h.increasing
    refine ⟨⟨fun b hm => h.nonempty b (mem_append_left _ hm),
        fun b hm => h.uniform b (mem_append_left _ hm),
        fun b hm => h.stacked b (mem_append_left _ hm), hb⟩,
      ⟨fun b hm => h.nonempty b (mem_append_right _ hm),
        fun b hm => h.uniform b (mem_append_right _ hm),
        fun b hm => h.stacked b (mem_append_right _ hm), ha⟩, ?_⟩
    intro x hx y hy
    obtain ⟨b, hb, hxb⟩ := mem_flatten.mp hx
    obtain ⟨b', hb', hyb'⟩ := mem_flatten.mp hy
    exact hcross b hb b' hb' x hxb y hyb'
  · rintro ⟨hb, ha, hcross⟩
    constructor
    · intro c hc
      exact (mem_append.mp hc).elim (hb.nonempty c) (ha.nonempty c)
    · intro c hc
      exact (mem_append.mp hc).elim (hb.uniform c) (ha.uniform c)
    · intro c hc
      exact (mem_append.mp hc).elim (hb.stacked c) (ha.stacked c)
    · refine pairwise_append.mpr ⟨hb.increasing, ha.increasing, ?_⟩
      intro b hb b' hb' x hx y hy
      exact hcross x (mem_flatten.mpr ⟨b, hb, hx⟩) y (mem_flatten.mpr ⟨b', hb', hy⟩)

lemma sorted_cons : Sorted key newer (b :: bins) ↔
    b ≠ [] ∧ (∀ x ∈ b, ∀ y ∈ b, key x = key y) ∧ b.Pairwise newer ∧
      (∀ x ∈ b, ∀ y ∈ bins.flatten, key x < key y) ∧ Sorted key newer bins := by
  constructor
  · intro h
    obtain ⟨hcross, hrest⟩ := pairwise_cons.mp h.increasing
    refine ⟨h.nonempty b mem_cons_self, h.uniform b mem_cons_self,
      h.stacked b mem_cons_self, ?_, fun c hc => h.nonempty c (mem_cons_of_mem _ hc),
      fun c hc => h.uniform c (mem_cons_of_mem _ hc),
      fun c hc => h.stacked c (mem_cons_of_mem _ hc), hrest⟩
    intro x hx y hy
    obtain ⟨c, hc, hyc⟩ := mem_flatten.mp hy
    exact hcross c hc x hx y hyc
  · rintro ⟨hne, huniform, hstacked, hcross, hrest⟩
    constructor
    · exact forall_mem_cons.mpr ⟨hne, hrest.nonempty⟩
    · exact forall_mem_cons.mpr ⟨huniform, hrest.uniform⟩
    · exact forall_mem_cons.mpr ⟨hstacked, hrest.stacked⟩
    · refine pairwise_cons.mpr ⟨fun c hc x hx y hy => ?_, hrest.increasing⟩
      exact hcross x hx y (mem_flatten.mpr ⟨c, hc, hy⟩)

/-- A bin of its own for a key between those of two neighbouring bins. -/
lemma Sorted.insertBin (h : Sorted key newer (before ++ after))
    (hbefore : ∀ x ∈ before.flatten, key x < key e)
    (hafter : ∀ y ∈ after.flatten, key e < key y) :
    Sorted key newer (before ++ [e] :: after) := by
  obtain ⟨hb, ha, hcross⟩ := sorted_append.mp h
  refine sorted_append.mpr ⟨hb, sorted_cons.mpr ⟨cons_ne_nil _ _, ?_,
    pairwise_singleton _ _, ?_, ha⟩, ?_⟩
  · intro x hx y hy
    rw [mem_singleton.mp hx, mem_singleton.mp hy]
  · intro x hx y hy
    rw [mem_singleton.mp hx]
    exact hafter y hy
  · intro x hx y hy
    rw [flatten_cons, singleton_append, mem_cons] at hy
    rcases hy with rfl | hy
    · exact hbefore x hx
    · exact hcross x hx y hy

lemma Sorted.push (h : Sorted key newer (before ++ b :: after))
    (hkey : ∀ x ∈ b, key e = key x) (hnewer : ∀ x ∈ b, newer e x) :
    Sorted key newer (before ++ (e :: b) :: after) := by
  obtain ⟨hb, ha, hcross⟩ := sorted_append.mp h
  obtain ⟨hne, _, hstacked, hahead, hrest⟩ := sorted_cons.mp ha
  obtain ⟨t, ht⟩ := exists_mem_of_ne_nil b hne
  -- every fact about the new member is the same fact about a member `t` of its bin
  refine sorted_append.mpr ⟨hb, sorted_cons.mpr ⟨cons_ne_nil _ _, ?_,
    pairwise_cons.mpr ⟨hnewer, hstacked⟩, ?_, hrest⟩, ?_⟩
  · have hall : ∀ x ∈ e :: b, key x = key e := by
      intro x hx
      rcases mem_cons.mp hx with rfl | hx
      · rfl
      · exact (hkey x hx).symm
    intro x hx y hy
    exact (hall x hx).trans (hall y hy).symm
  · intro x hx y hy
    rcases mem_cons.mp hx with rfl | hx
    · rw [hkey t ht]
      exact hahead t ht y hy
    · exact hahead x hx y hy
  · intro x hx y hy
    rw [flatten_cons, cons_append, mem_cons] at hy
    rcases hy with rfl | hy
    · rw [hkey t ht]
      exact hcross x hx t (by simp [ht])
    · exact hcross x hx y hy

/-- Members leave a bin, and the bin goes with its last member. -/
lemma Sorted.shrink {b' : List α} (h : Sorted key newer (before ++ b :: after))
    (hsub : b'.Sublist b) : Sorted key newer (before ++ consBin b' after) := by
  obtain ⟨hb, ha, hcross⟩ := sorted_append.mp h
  obtain ⟨-, huniform, hstacked, hahead, hrest⟩ := sorted_cons.mp ha
  have hmem : ∀ x ∈ (consBin b' after).flatten, x ∈ (b :: after).flatten := by
    intro x hx
    rw [flatten_consBin, mem_append] at hx
    rw [flatten_cons, mem_append]
    exact hx.imp_left fun hx => hsub.subset hx
  refine sorted_append.mpr ⟨hb, ?_, fun x hx y hy => hcross x hx y (hmem y hy)⟩
  cases b' with
  | nil => exact hrest
  | cons =>
    refine sorted_cons.mpr ⟨cons_ne_nil _ _, ?_, hstacked.sublist hsub, ?_, hrest⟩
    · exact fun x hx y hy => huniform x (hsub.subset hx) y (hsub.subset hy)
    · exact fun x hx y hy => hahead x (hsub.subset hx) y hy

/-- Read bin after bin, the members are ordered by their keys, then from new to old. -/
lemma Sorted.pairwise (h : Sorted key newer bins) :
    bins.flatten.Pairwise fun x y => key x < key y ∨ key x = key y ∧ newer x y := by
  refine pairwise_flatten.mpr ⟨fun b hb => ?_, ?_⟩
  · exact (h.stacked b hb).imp_of_mem fun hx hy hn => .inr ⟨h.uniform b hb _ hx _ hy, hn⟩
  · exact h.increasing.imp fun hlt x hx y hy => .inl (hlt x hx y hy)

lemma Sorted.nodup (h : Sorted key newer bins) (hirrefl : ∀ x, ¬ newer x x) :
    bins.flatten.Nodup := by
  refine h.pairwise.imp fun hxy heq => ?_
  subst heq
  rcases hxy with hlt | ⟨-, hn⟩
  · exact lt_irrefl _ hlt
  · exact hirrefl _ hn

lemma Sorted.length_le (h : Sorted key newer bins) : bins.length ≤ bins.flatten.length := by
  induction bins with
  | nil => exact le_rfl
  | cons b _ ih =>
    obtain ⟨hne, -, -, -, hrest⟩ := sorted_cons.mp h
    have hpos : 0 < b.length := length_pos_iff.mpr hne
    have := ih hrest
    simp only [length_cons, flatten_cons, length_append]
    omega

end

/-! ## The pointers that mean something -/

section

variable {next inBin : α → Option α} {bins before after : List (List α)} {b : List α}
  {last : Option α}

/-- Every member of the stack points at the one below it. -/
def Stacked (inBin : α → Option α) : List α → Prop
  | [] => True
  | a :: rest => inBin a = rest.head? ∧ Stacked inBin rest

/-- The top of the first bin, and `last` where there is none. -/
def first (bins : List (List α)) (last : Option α) : Option α :=
  match bins with
  | [] => last
  | b :: _ => b.head?

/-- The tops of the bins point at the next bin, the last one at `last`. -/
def Linked (next inBin : α → Option α) : List (List α) → Option α → Prop
  | [], _ => True
  | b :: bins, last =>
    (∀ a ∈ b.head?, next a = first bins last) ∧ Stacked inBin b ∧ Linked next inBin bins last

lemma first_append (before after : List (List α)) (last : Option α) :
    first (before ++ after) last = first before (first after last) := by
  cases before with
  | nil | cons => rfl

lemma linked_append : Linked next inBin (before ++ after) last ↔
    Linked next inBin before (first after last) ∧ Linked next inBin after last := by
  induction before with
  | nil => simp [Linked]
  | cons _ _ ih =>
    simp only [cons_append, Linked, first_append, ih, and_assoc]

lemma Stacked.congr {inBin' : α → Option α} {l : List α} (h : Stacked inBin l)
    (hin : ∀ a ∈ l, inBin' a = inBin a) : Stacked inBin' l := by
  induction l with
  | nil => trivial
  | cons a _ ih =>
    obtain ⟨ha, hrest⟩ := h
    refine ⟨(hin a mem_cons_self).trans ha, ih hrest fun c hc => ?_⟩
    exact hin c (mem_cons_of_mem _ hc)

/-- Only the pointers of the members count, and of the pointers to bins only those of the tops. -/
lemma Linked.congr {next' inBin' : α → Option α} (h : Linked next inBin bins last)
    (hnext : ∀ b ∈ bins, ∀ a ∈ b.head?, next' a = next a)
    (hin : ∀ a ∈ bins.flatten, inBin' a = inBin a) : Linked next' inBin' bins last := by
  induction bins with
  | nil => trivial
  | cons b _ ih =>
    obtain ⟨htop, hstack, hrest⟩ := h
    refine ⟨fun a ha => ?_, hstack.congr fun a ha => hin a ?_, ih hrest ?_ ?_⟩
    · rw [hnext b mem_cons_self a ha]
      exact htop a ha
    · exact mem_append_left _ ha
    · exact fun c hc => hnext c (mem_cons_of_mem _ hc)
    · exact fun a ha => hin a (mem_append_right _ ha)

lemma mem_flatten_of_head? {a : α} (hb : b ∈ bins) (ha : a ∈ b.head?) : a ∈ bins.flatten :=
  mem_flatten.mpr ⟨b, hb, mem_of_mem_head? ha⟩

variable [DecidableEq α] {e : α}

/-- The pointer to a bin may change at a node that is not the top of one of these bins. -/
lemma Linked.update_next (h : Linked next inBin bins last) (he : e ∉ bins.flatten)
    (v : Option α) : Linked (update next e v) inBin bins last := by
  refine h.congr (fun b hb a ha => ?_) fun _ _ => rfl
  exact update_of_ne (ne_of_mem_of_not_mem (mem_flatten_of_head? hb ha) he) _ _

/-- Pointers of a node outside the list may be set to anything. -/
lemma Linked.update_of_not_mem (h : Linked next inBin bins last) (he : e ∉ bins.flatten)
    (v w : Option α) : Linked (update next e v) (update inBin e w) bins last := by
  refine (h.update_next he v).congr (fun _ _ _ _ => rfl) fun a ha => ?_
  exact update_of_ne (ne_of_mem_of_not_mem ha he) _ _

lemma Linked.insertBin (h : Linked next inBin after last) (he : e ∉ after.flatten) :
    Linked (update next e (first after last)) (update inBin e none)
      ([e] :: after) last := by
  refine ⟨?_, ⟨update_self _ _ _, trivial⟩, h.update_of_not_mem he _ _⟩
  intro a ha
  cases ha
  exact update_self _ _ _

/-- The new top takes over the pointer to the next bin. -/
lemma Linked.push {c : α} (h : Linked next inBin (b :: after) last)
    (he : e ∉ (b :: after).flatten) (hc : b.head? = some c) :
    Linked (update next e (next c)) (update inBin e (some c))
      ((e :: b) :: after) last := by
  obtain ⟨_, hstack, hrest⟩ := h.update_of_not_mem he (next c) (some c)
  refine ⟨?_, ⟨(update_self _ _ _).trans hc.symm, hstack⟩, hrest⟩
  intro a ha
  cases ha
  rw [update_self]
  exact h.1 c hc

/-- The top leaves, and the one below it takes over the pointer to the next bin. -/
lemma Linked.pop {a c : α} {rest : List α}
    (h : Linked next inBin ((a :: c :: rest) :: after) last) (hc : c ∉ after.flatten) :
    Linked (update next c (next a)) inBin ((c :: rest) :: after) last := by
  obtain ⟨htop, ⟨-, hstack⟩, hrest⟩ := h
  refine ⟨?_, hstack, hrest.update_next hc _⟩
  intro x hx
  cases hx
  rw [update_self]
  exact htop a rfl

/-- A member below the top leaves: the one above it points past it. -/
lemma Stacked.unlink {c : α} {l r : List α} (h : Stacked inBin (l ++ c :: e :: r))
    (hnodup : (l ++ c :: e :: r).Nodup) :
    Stacked (update inBin c (inBin e)) (l ++ c :: r) := by
  induction l with
  | nil =>
    obtain ⟨-, he, hr⟩ := h
    refine ⟨(update_self _ _ _).trans he, hr.congr fun x hx => ?_⟩
    refine update_of_ne (fun heq => ?_) _ _
    subst heq
    exact (nodup_cons.mp hnodup).1 (mem_cons_of_mem _ hx)
  | cons a l ih =>
    obtain ⟨ha, hrest⟩ := h
    obtain ⟨hfresh, hrestNodup⟩ := nodup_cons.mp hnodup
    have hac : a ≠ c := fun heq => hfresh (heq ▸ by simp)
    refine ⟨?_, ih hrest hrestNodup⟩
    rw [update_of_ne hac, ha]
    cases l with
    | nil | cons => rfl

lemma Linked.unlink {c : α} {l r : List α}
    (h : Linked next inBin ((l ++ c :: e :: r) :: after) last)
    (hnodup : ((l ++ c :: e :: r) :: after).flatten.Nodup) :
    Linked next (update inBin c (inBin e)) ((l ++ c :: r) :: after) last := by
  obtain ⟨htop, hstack, hrest⟩ := h
  rw [flatten_cons, nodup_append] at hnodup
  obtain ⟨hbin, -, hdisjoint⟩ := hnodup
  refine ⟨fun a ha => htop a ?_, hstack.unlink hbin, hrest.congr (fun _ _ _ _ => rfl) ?_⟩
  · cases l with
    | nil | cons => exact ha
  · intro x hx
    refine update_of_ne (fun heq => ?_) _ _
    exact hdisjoint c (by simp) x hx heq.symm

/-- The last of some bins is pointed elsewhere. -/
lemma Linked.redirect {c : α} {rest : List α} (h : Linked next inBin (before ++ [c :: rest]) last)
    (hc : c ∉ before.flatten) (v : Option α) :
    Linked (update next c v) inBin (before ++ [c :: rest]) v := by
  obtain ⟨hbefore, _, hstack, -⟩ := linked_append.mp h
  refine linked_append.mpr ⟨hbefore.update_next hc v, ?_, hstack, trivial⟩
  intro x hx
  cases hx
  exact update_self _ _ _

end

end LinkedBins
