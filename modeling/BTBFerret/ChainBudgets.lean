import Mathlib.Data.Multiset.Filter
import Mathlib.Data.Multiset.MapFold
import Mathlib.Data.Multiset.Replicate
import Mathlib.Data.Multiset.UnionInter
import Mathlib.Data.Multiset.ZeroCons

/-!
# Chains of work with a budget

Each chain is granted a budget and asks for work by tickets; an opening ticket may claim the slot of
the chain, with its whole budget, and the other tickets work only while the chain holds its slot. A
claim takes the slot away from its holder. The work done for a chain stays within its budget if no
chain claims its slot twice after it has worked: with one opening ticket a chain, or if no two
chains have opening tickets for one slot at a time.
-/

namespace ChainBudgets

open Function Multiset Nat

structure Ticket where
  chain : Nat
  opening : Bool
  budget : Nat
  deriving DecidableEq

variable {ι : Type*}

/-- The slots, the pending tickets, and for each chain the work done for it and
the budget granted. -/
structure Ledger (ι : Type*) where
  owner : ι → Nat
  remaining : ι → Nat
  next : Nat
  pending : Multiset Ticket
  issued : Nat → Nat
  granted : Nat → Nat

namespace Ledger

/-- What a ticket finds in the slot: the rest of its chain's budget, or nothing
of its own, in which case a claim starts afresh. -/
def budgetFor (slot : Nat → ι) (m : Ledger ι) (t : Ticket) : Nat :=
  if m.owner (slot t.chain) = t.chain then m.remaining (slot t.chain) else t.budget

/-- A chain starts with `n` opening tickets. -/
def start (m : Ledger ι) (budget n : Nat) : Ledger ι :=
  { m with
    next := m.next + 1
    pending := replicate n ⟨m.next, true, budget⟩ + m.pending
    granted := fun c => m.granted c + if c = m.next then budget else 0 }

def drop (m : Ledger ι) (rest : Multiset Ticket) : Ledger ι := { m with pending := rest }

/-- A ticket takes the slot if it does not hold it, pays one unit of the budget
for `work`, and asks for more. -/
def spend [DecidableEq ι] (slot : Nat → ι) (m : Ledger ι) (t : Ticket) (rest more : Multiset Ticket)
    (work : Nat) :
    Ledger ι :=
  { m with
    owner := Function.update m.owner (slot t.chain) t.chain
    remaining := Function.update m.remaining (slot t.chain) (m.budgetFor slot t - 1)
    pending := more + rest
    issued := fun c => m.issued c + if c = t.chain then work else 0 }

/-- All slots are freed and all tickets are lost. -/
def reset (m : Ledger ι) : Ledger ι :=
  { m with owner := fun _ => 0, remaining := fun _ => 0, pending := 0 }

/-- What a chain may still do while it holds its slot. -/
def held (slot : Nat → ι) (m : Ledger ι) (c : Nat) : Nat :=
  if m.owner (slot c) = c then m.remaining (slot c) else 0

section

variable [DecidableEq ι] (slot : Nat → ι) (m : Ledger ι) (t : Ticket) (rest more : Multiset Ticket)
  (work : Nat)

lemma held_spend_self : (m.spend slot t rest more work).held slot t.chain =
    m.budgetFor slot t - 1 := by
  simp only [held, spend, update_self, if_true]

lemma held_spend_le {c : Nat} (hc : c ≠ t.chain) :
    (m.spend slot t rest more work).held slot c ≤ m.held slot c := by
  by_cases hslot : slot c = slot t.chain
  · have hlost : (m.spend slot t rest more work).held slot c = 0 := by
      simp only [held, spend, hslot, update_self]
      exact if_neg (fun heq => hc heq.symm)
    omega
  · simp only [held, spend, update_of_ne hslot]
    exact le_refl _

end

end Ledger

structure Sound (slot : Nat → ι) (m : Ledger ι) : Prop where
  next_pos : 0 < m.next
  chain_pos : ∀ t ∈ m.pending, 0 < t.chain
  chain_lt : ∀ t ∈ m.pending, t.chain < m.next
  budget : ∀ t ∈ m.pending, t.opening = true → t.budget = m.granted t.chain ∧ 0 < t.budget
  within : ∀ c, m.issued c + m.held slot c ≤ m.granted c
  claim : ∀ t ∈ m.pending, t.opening = true →
    m.owner (slot t.chain) = t.chain ∨ m.issued t.chain = 0
  owner_lt : ∀ i, m.owner i < m.next
  fresh : ∀ c, m.next ≤ c → m.issued c = 0 ∧ m.granted c = 0

section

variable {slot : Nat → ι} {m : Ledger ι}

lemma Sound.start (h : Sound slot m) {budget : Nat} (hb : 0 < budget) (n : Nat) :
    Sound slot (m.start budget n) := by
  have hnew : ∀ t ∈ (m.start budget n).pending, t = ⟨m.next, true, budget⟩ ∨ t ∈ m.pending := by
    intro t ht
    rcases mem_add.mp ht with ht | ht
    · exact .inl (eq_of_mem_replicate ht)
    · exact .inr ht
  obtain ⟨hissued, hgranted⟩ := h.fresh m.next (le_refl _)
  constructor
  · exact succ_pos _
  · intro t ht
    rcases hnew t ht with rfl | ht
    · exact h.next_pos
    · exact h.chain_pos t ht
  · intro t ht
    rcases hnew t ht with rfl | ht
    · exact lt_succ_self _
    · exact Nat.lt_succ_of_lt (h.chain_lt t ht)
  · intro t ht hopen
    rcases hnew t ht with rfl | ht
    · refine ⟨?_, hb⟩
      simp only [Ledger.start, if_pos, hgranted, Nat.zero_add]
    · obtain ⟨heq, hpos⟩ := h.budget t ht hopen
      have hne : t.chain ≠ m.next := Nat.ne_of_lt (h.chain_lt t ht)
      simp only [Ledger.start, if_neg hne, Nat.add_zero]
      exact ⟨heq, hpos⟩
  · intro c
    have hheld : (m.start budget n).held slot c = m.held slot c := rfl
    have hc := h.within c
    rw [hheld]
    exact Nat.le_trans hc (Nat.le_add_right _ _)
  · intro t ht hopen
    rcases hnew t ht with rfl | ht
    · exact .inr hissued
    · exact h.claim t ht hopen
  · intro i
    exact Nat.lt_succ_of_lt (h.owner_lt i)
  · intro c hc
    simp only [Ledger.start] at hc ⊢
    have hne : c ≠ m.next := by omega
    obtain ⟨hi, hg⟩ := h.fresh c (by omega)
    exact ⟨hi, by rw [hg, if_neg hne]⟩

variable {t : Ticket} {rest : Multiset Ticket}

lemma Sound.drop (h : Sound slot m) (hp : m.pending = t ::ₘ rest) : Sound slot (m.drop rest) := by
  have hrest : ∀ t' ∈ rest, t' ∈ m.pending := by
    intro t' ht'
    rw [hp]
    exact mem_cons_of_mem ht'
  constructor
  · exact h.next_pos
  · exact fun t' ht' => h.chain_pos t' (hrest t' ht')
  · exact fun t' ht' => h.chain_lt t' (hrest t' ht')
  · exact fun t' ht' => h.budget t' (hrest t' ht')
  · exact h.within
  · exact fun t' ht' => h.claim t' (hrest t' ht')
  · exact h.owner_lt
  · exact h.fresh

lemma Sound.reset (h : Sound slot m) : Sound slot m.reset := by
  constructor
  · exact h.next_pos
  · exact fun t ht => absurd ht (notMem_zero t)
  · exact fun t ht => absurd ht (notMem_zero t)
  · exact fun t ht => absurd ht (notMem_zero t)
  · intro c
    have hc := h.within c
    have hheld : m.reset.held slot c = 0 := by
      unfold Ledger.held Ledger.reset
      split <;> rfl
    rw [hheld]
    simp only [Ledger.reset]
    omega
  · exact fun t ht => absurd ht (notMem_zero t)
  · exact fun _ => h.next_pos
  · exact h.fresh

def Harmless (slot : Nat → ι) (m : Ledger ι) (t : Ticket) (rest : Multiset Ticket) : Prop :=
  t.opening = true → ∀ t' ∈ rest, t'.opening = true → slot t'.chain = slot t.chain →
    t'.chain ≠ t.chain → m.issued t'.chain = 0

lemma Sound.spend [DecidableEq ι] (h : Sound slot m) {more : Multiset Ticket} {work : Nat}
    (hp : m.pending = t ::ₘ rest) (hvalid : m.owner (slot t.chain) = t.chain ∨ t.opening = true)
    (hpos : 0 < m.budgetFor slot t) (hwork : work ≤ 1)
    (hmore : ∀ t' ∈ more, t'.chain = t.chain ∧ t'.opening = false)
    (hharm : Harmless slot m t rest) :
    Sound slot (m.spend slot t rest more work) := by
  have hmem : t ∈ m.pending := by
    rw [hp]
    exact mem_cons_self t rest
  have hrest : ∀ t' ∈ rest, t' ∈ m.pending := by
    intro t' ht'
    rw [hp]
    exact mem_cons_of_mem ht'
  have hpending : ∀ t' ∈ (m.spend slot t rest more work).pending,
      (t'.chain = t.chain ∧ t'.opening = false) ∨ t' ∈ rest := by
    intro t' ht'
    rcases mem_add.mp ht' with ht' | ht'
    · exact .inl (hmore t' ht')
    · exact .inr ht'
  constructor
  · exact h.next_pos
  · intro t' ht'
    rcases hpending t' ht' with ⟨hc, _⟩ | ht'
    · rw [hc]
      exact h.chain_pos t hmem
    · exact h.chain_pos t' (hrest t' ht')
  · intro t' ht'
    rcases hpending t' ht' with ⟨hc, _⟩ | ht'
    · rw [hc]
      exact h.chain_lt t hmem
    · exact h.chain_lt t' (hrest t' ht')
  · intro t' ht' hopen
    rcases hpending t' ht' with ⟨_, hclosed⟩ | ht'
    · rw [hclosed] at hopen
      cases hopen
    · exact h.budget t' (hrest t' ht') hopen
  · intro c
    have hc := h.within c
    by_cases hown : c = t.chain
    · -- the chain pays out of what it holds, or out of a budget not yet used
      subst hown
      rw [Ledger.held_spend_self]
      simp only [Ledger.spend, if_true]
      unfold Ledger.held at hc
      unfold Ledger.budgetFor at hpos ⊢
      split at hc
      · rename_i hheld
        rw [if_pos hheld] at hpos ⊢
        omega
      · rename_i hlost
        rw [if_neg hlost] at hpos ⊢
        have hopen := hvalid.resolve_left hlost
        have hunused := (h.claim t hmem hopen).resolve_left hlost
        have hbudget := (h.budget t hmem hopen).1
        omega
    · have hheld := m.held_spend_le slot t rest more work hown
      simp only [Ledger.spend, if_neg hown, Nat.add_zero] at hheld ⊢
      omega
  · intro t' ht' hopen
    rcases hpending t' ht' with ⟨_, hclosed⟩ | ht'
    · rw [hclosed] at hopen
      cases hopen
    · have hclaim := h.claim t' (hrest t' ht') hopen
      simp only [Ledger.spend]
      by_cases hown : t'.chain = t.chain
      · left
        rw [hown, update_self]
      · rw [if_neg hown, Nat.add_zero]
        by_cases hslot : slot t'.chain = slot t.chain
        · right
          rcases hclaim with hheld | hunused
          · rw [hslot] at hheld
            rcases hvalid with hv | hv
            · exact absurd (hheld.symm.trans hv) hown
            · exact hharm hv t' ht' hopen hslot hown
          · exact hunused
        · rw [update_of_ne hslot]
          exact hclaim
  · intro i
    by_cases hi : i = slot t.chain
    · subst hi
      simp only [Ledger.spend, update_self]
      exact h.chain_lt t hmem
    · simp only [Ledger.spend, update_of_ne hi]
      exact h.owner_lt i
  · intro c hc
    have hne : c ≠ t.chain := by
      have hlt := h.chain_lt t hmem
      simp only [Ledger.spend] at hc
      omega
    simp only [Ledger.spend, if_neg hne, Nat.add_zero]
    exact h.fresh c hc

/-! ## Two ways to stay harmless -/

structure Exclusive (slot : Nat → ι) (m : Ledger ι) : Prop where
  single : ((m.pending.filter (fun t => t.opening = true)).map Ticket.chain).Nodup
  unclaimed : ∀ t ∈ m.pending, t.opening = true → m.owner (slot t.chain) ≠ t.chain

lemma Exclusive.harmless (he : Exclusive slot m) (h : Sound slot m)
    (hp : m.pending = t ::ₘ rest) :
    Harmless slot m t rest := by
  intro _ t' ht' hopen _ _
  have hmem : t' ∈ m.pending := by
    rw [hp]
    exact mem_cons_of_mem ht'
  exact (h.claim t' hmem hopen).resolve_left (he.unclaimed t' hmem hopen)

lemma Exclusive.start (he : Exclusive slot m) (h : Sound slot m) (budget : Nat) {n : Nat}
    (hn : n ≤ 1) : Exclusive slot (m.start budget n) := by
  have hold : ∀ t ∈ m.pending, t.chain ≠ m.next := fun t ht => Nat.ne_of_lt (h.chain_lt t ht)
  constructor
  · rcases Nat.le_one_iff_eq_zero_or_eq_one.mp hn with rfl | rfl
    · simp only [Ledger.start, replicate_zero, Multiset.zero_add]
      exact he.single
    · simp only [Ledger.start, replicate_one, singleton_add,
        filter_cons_of_pos, map_cons, nodup_cons]
      refine ⟨?_, he.single⟩
      intro hmem
      obtain ⟨t, ht, heq⟩ := mem_map.mp hmem
      exact hold t (mem_of_mem_filter ht) heq
  · intro t ht hopen
    rcases mem_add.mp ht with ht | ht
    · rw [eq_of_mem_replicate ht]
      exact Nat.ne_of_lt (h.owner_lt _)
    · exact he.unclaimed t ht hopen

lemma Exclusive.drop (he : Exclusive slot m) (hp : m.pending = t ::ₘ rest) :
    Exclusive slot (m.drop rest) := by
  constructor
  · have hsub : rest ≤ m.pending := by
      rw [hp]
      exact le_cons_self rest t
    exact nodup_of_le (map_le_map (filter_le_filter _ hsub)) he.single
  · intro t' ht' hopen
    apply he.unclaimed t' _ hopen
    rw [hp]
    exact mem_cons_of_mem ht'

lemma Exclusive.reset : Exclusive slot m.reset :=
  ⟨nodup_zero, fun t ht => absurd ht (notMem_zero t)⟩

lemma Exclusive.chain_ne (he : Exclusive slot m) {t' : Ticket} (hp : m.pending = t ::ₘ rest)
    (hvalid : m.owner (slot t.chain) = t.chain ∨ t.opening = true) (ht' : t' ∈ rest)
    (hopen : t'.opening = true) : t'.chain ≠ t.chain := by
  intro heq
  have hmem : t' ∈ m.pending := by
    rw [hp]
    exact mem_cons_of_mem ht'
  rcases hvalid with hheld | hfirst
  · rw [← heq] at hheld
    exact he.unclaimed t' hmem hopen hheld
  · have hsingle := he.single
    have hfilter : (t ::ₘ rest).filter (fun t => t.opening = true) =
        t ::ₘ rest.filter (fun t => t.opening = true) := filter_cons_of_pos _ hfirst
    rw [hp, hfilter, map_cons, nodup_cons] at hsingle
    apply hsingle.1
    rw [← heq]
    exact mem_map_of_mem _ (mem_filter.mpr ⟨ht', hopen⟩)

lemma Exclusive.spend [DecidableEq ι] (he : Exclusive slot m) {more : Multiset Ticket}
    {work : Nat} (hp : m.pending = t ::ₘ rest)
    (hvalid : m.owner (slot t.chain) = t.chain ∨ t.opening = true)
    (hmore : ∀ t' ∈ more, t'.chain = t.chain ∧ t'.opening = false) :
    Exclusive slot (m.spend slot t rest more work) := by
  have hclosed : more.filter (fun t => t.opening = true) = 0 := by
    rw [filter_eq_nil]
    intro t' ht' hopen
    rw [(hmore t' ht').2] at hopen
    cases hopen
  constructor
  · simp only [Ledger.spend, filter_add, hclosed, Multiset.zero_add]
    exact (he.drop hp).single
  · intro t' ht' hopen
    rcases mem_add.mp ht' with ht' | ht'
    · rw [(hmore t' ht').2] at hopen
      cases hopen
    · have hne := he.chain_ne hp hvalid ht' hopen
      simp only [Ledger.spend]
      by_cases hslot : slot t'.chain = slot t.chain
      · rw [hslot, update_self]
        exact fun heq => hne heq.symm
      · rw [update_of_ne hslot]
        exact (he.drop hp).unclaimed t' ht' hopen

def Aligned (slot : Nat → ι) (pending : Multiset Ticket) : Prop :=
  ∀ t ∈ pending, ∀ t' ∈ pending, t.opening = true → t'.opening = true →
    slot t.chain = slot t'.chain → t.chain = t'.chain

lemma Aligned.harmless (ha : Aligned slot (t ::ₘ rest)) : Harmless slot m t rest := by
  intro hopen t' ht' hopen' hslot hne
  exact absurd (ha t' (mem_cons_of_mem ht') t (mem_cons_self t rest) hopen' hopen hslot) hne

lemma Aligned.of_mem {pending pending' : Multiset Ticket} (ha : Aligned slot pending)
    (hsub : ∀ t ∈ pending', t.opening = true → t ∈ pending) : Aligned slot pending' := by
  intro t ht t' ht' hopen hopen'
  exact ha t (hsub t ht hopen) t' (hsub t' ht' hopen') hopen hopen'

structure Guard [DecidableEq ι] (slot : Nat → ι) (X : Ledger ι → Prop) : Prop where
  harmless : ∀ {m : Ledger ι} {t : Ticket} {rest : Multiset Ticket}, Sound slot m → X m →
    m.pending = t ::ₘ rest → Harmless slot m t rest
  drop : ∀ {m : Ledger ι} {t : Ticket} {rest : Multiset Ticket}, X m →
    m.pending = t ::ₘ rest → X (m.drop rest)
  spend : ∀ {m : Ledger ι} {t : Ticket} {rest more : Multiset Ticket} (work : Nat), X m →
    m.pending = t ::ₘ rest → m.owner (slot t.chain) = t.chain ∨ t.opening = true →
    (∀ t' ∈ more, t'.chain = t.chain ∧ t'.opening = false) → X (m.spend slot t rest more work)

lemma guard_exclusive [DecidableEq ι] (slot : Nat → ι) : Guard slot (Exclusive slot) where
  harmless := fun h he hp => he.harmless h hp
  drop := fun he hp => he.drop hp
  spend := fun _ he hp hvalid hmore => he.spend hp hvalid hmore

lemma guard_aligned [DecidableEq ι] (slot : Nat → ι) :
    Guard slot (fun m => Aligned slot m.pending) where
  harmless := by
    intro m t rest _ ha hp
    rw [hp] at ha
    exact ha.harmless
  drop := by
    intro m t rest ha hp
    apply ha.of_mem
    intro t' ht' _
    rw [hp]
    exact mem_cons_of_mem ht'
  spend := by
    intro m t rest more work ha hp _ hmore
    apply ha.of_mem
    intro t' ht' hopen
    rcases mem_add.mp ht' with ht' | ht'
    · rw [(hmore t' ht').2] at hopen
      cases hopen
    · rw [hp]
      exact mem_cons_of_mem ht'

end

end ChainBudgets
