import BTBFerret.Operations

/-!
# What the operations do to the levels

Write-backs and the freeing of an L1 way never fault: a replaced way is invalid when the new key is
inserted. Each is equal to a pure transformation of the levels, and the later modules reason with
these equations.
-/

namespace BTBFerret

open ReplacementPolicy AssociativeCache Cache

/-- The part of an entry that decides what a lookup finds and returns. -/
structure Line where
  valid : Bool
  tag : KeyType
  branchAddr : Addr
  target : Option PCState
  inst : Option StaticInst

def BTBEntry.line (e : BTBEntry) : Line := ⟨e.valid, e.tag, e.branchAddr, e.target, e.inst⟩

def Stat.isAccount : Stat → Bool
  | .totalPrefetches | .prefetchHits _ | .uselessPrefetches _ => true
  | _ => false

def lines {v : BTBLevel} (C : BTBCache v) (l : Loc v.shape) : Line := (C.get l).line

namespace State

variable {p : Params}

/-! ## Write-backs -/

def written {v : BTBLevel} (C : BTBCache v) (tell : Bool) (now : Tick) (tid : ThreadID)
    (victim : BTBEntry) : BTBCache v :=
  C.store tell now ⟨victim.branchAddr, tid⟩ (fun e => e.updateFrom victim)

variable (s : State p) (tid : ThreadID)

def displaced (victim : BTBEntry) : Option BTBEntry :=
  if s.l2btb.findEntry ⟨victim.branchAddr, tid⟩ = none then
    let e := s.l2btb.get (s.l2btb.slotFor ⟨victim.branchAddr, tid⟩)
    if e.valid then some e else none
  else none

def l3AfterDisplacement (victim : BTBEntry) : BTBCache p.l3btb :=
  match s.displaced tid victim with
  | some e => if p.enableL3 then written s.l3btb true s.curTick tid e else s.l3btb
  | none => s.l3btb

def l3AfterWriteBack (victim : BTBEntry) : BTBCache p.l3btb :=
  if p.nonexclusive && p.enableL3 then
    written (s.l3AfterDisplacement tid victim) true s.curTick tid victim
  else s.l3AfterDisplacement tid victim

/-- The statistics `st` differ from those of `s` in nothing that accounts for prefetches. -/
def SameAccounts (st : List Stat) : Prop :=
  st.filter Stat.isAccount = s.stats.filter Stat.isAccount

section

variable (s : State p) (tid : ThreadID) (victim : BTBEntry)

lemma writeBackL3_eq :
    ∃ st, s.SameAccounts st ∧ s.writeBackL3 tid victim =
      .ok { s with l3btb := written s.l3btb true s.curTick tid victim, stats := st } := by
  cases h : s.l3btb.findEntry ⟨victim.branchAddr, tid⟩ with
  | some =>
    refine ⟨.updatesL3hits :: s.stats, rfl, ?_⟩
    simp only [writeBackL3, written, store, h, count]
  | none =>
    refine ⟨.updatesL3miss :: s.stats, rfl, ?_⟩
    have hinv : p.l3btb.shape.isValid ((s.l3btb.findVictim ⟨victim.branchAddr, tid⟩ true).2.get
        (s.l3btb.findVictim ⟨victim.branchAddr, tid⟩ true).1) = false := by
      rw [get_findVictim_drop, if_pos rfl]
      exact p.l3btb.shape.isValid_invalidate _
    simp only [writeBackL3, written, store, h, insertEntry_eq _ _ _ hinv]
    rfl

/-- The L2 entry about to be replaced goes to L3 if it is valid and L3 is there. -/
lemma displaceL2_eq (l2 : BTBCache p.l2btb)
    (h : s.l2btb.findEntry ⟨victim.branchAddr, tid⟩ = none) {e : BTBEntry}
    (he : s.l2btb.get (s.l2btb.slotFor ⟨victim.branchAddr, tid⟩) = e) :
    ∃ st, s.SameAccounts st ∧ { s with l2btb := l2 }.displaceL2 tid e =
      .ok { s with l2btb := l2, l3btb := s.l3AfterDisplacement tid victim, stats := st } := by
  cases hv : e.valid with
  | false => exact ⟨s.stats, rfl, by simp [displaceL2, l3AfterDisplacement, displaced, h, he, hv]⟩
  | true =>
    cases hL3 : p.enableL3 with
    | false =>
      exact ⟨s.stats, rfl, by simp [displaceL2, l3AfterDisplacement, displaced, h, he, hv, hL3]⟩
    | true =>
      obtain ⟨st, hacc, hst⟩ := writeBackL3_eq { s with l2btb := l2 } tid e
      exact ⟨st, hacc, by simp [displaceL2, hst, l3AfterDisplacement, displaced, h, he, hv, hL3]⟩

lemma writeBackL2_eq :
    ∃ st, s.SameAccounts st ∧ s.writeBackL2 tid victim =
      .ok { s with
        l2btb := written s.l2btb false s.curTick tid victim
        l3btb := s.l3AfterDisplacement tid victim
        stats := st } := by
  cases h : s.l2btb.findEntry ⟨victim.branchAddr, tid⟩ with
  | some =>
    refine ⟨.updatesL2hits :: s.stats, rfl, ?_⟩
    simp [writeBackL2, written, store, h, count, l3AfterDisplacement, displaced]
  | none =>
    have hslot := slotFor_of_none h false
    obtain ⟨st, hacc, hst⟩ := s.displaceL2_eq tid victim
      (s.l2btb.findVictim ⟨victim.branchAddr, tid⟩ false).2 h (congrArg s.l2btb.get hslot)
    refine ⟨.updatesL2miss :: st, hacc, ?_⟩
    simp only [writeBackL2, h, get_findVictim_keep, hst]
    have hinv : p.l2btb.shape.isValid
        (((s.l2btb.findVictim ⟨victim.branchAddr, tid⟩ false).2.modify
          (s.l2btb.findVictim ⟨victim.branchAddr, tid⟩ false).1 BTBEntry.invalidate).get
            (s.l2btb.findVictim ⟨victim.branchAddr, tid⟩ false).1) = false := by
      rw [get_modify_self]
      rfl
    simp only [bind, Except.bind, insertEntry_eq _ _ _ hinv, written, store, h]
    rfl

end

/-- L2 after the write-back of an L1 victim, which may have been invalid. -/
def l2After (victim : BTBEntry) : BTBCache p.l2btb :=
  if victim.valid then written s.l2btb false s.curTick tid victim else s.l2btb

def l3After (victim : BTBEntry) : BTBCache p.l3btb :=
  if victim.valid then s.l3AfterWriteBack tid victim else s.l3btb

lemma writeBackVictim_eq (victim : BTBEntry) :
    ∃ st, s.SameAccounts st ∧ s.writeBackVictim tid victim =
      .ok { s with l2btb := s.l2After tid victim, l3btb := s.l3After tid victim, stats := st } := by
  cases hv : victim.valid with
  | false => exact ⟨s.stats, rfl, by simp [writeBackVictim, l2After, l3After, hv]⟩
  | true =>
    obtain ⟨st, hacc, hst⟩ := s.writeBackL2_eq tid victim
    cases hm : p.nonexclusive && p.enableL3 with
    | false =>
      refine ⟨st, hacc, ?_⟩
      simp only [writeBackVictim, l2After, l3After, l3AfterWriteBack, hv, hm, hst]
      rfl
    | true =>
      obtain ⟨st', hacc', hst'⟩ := writeBackL3_eq
        { s with
          l2btb := written s.l2btb false s.curTick tid victim
          l3btb := s.l3AfterDisplacement tid victim
          stats := st } tid victim
      refine ⟨st', Eq.trans hacc' hacc, ?_⟩
      simp only [writeBackVictim, l2After, l3After, l3AfterWriteBack, hv, hm, hst, if_true]
      exact hst'

/-! ## Freeing an L1 way -/

/-- The entry that loses its L1 way when a key enters. -/
def l1Victim (instPC : Addr) : BTBEntry :=
  s.l1btb.get (s.l1btb.slotFor ⟨instPC, tid⟩)

def freedUp (instPC : Addr) (st : List Stat) : State p :=
  { s with
    l1btb := s.l1btb.store false s.curTick ⟨instPC, tid⟩ id
    l2btb := s.l2After tid (s.l1Victim tid instPC)
    l3btb := s.l3After tid (s.l1Victim tid instPC)
    stats := st }

lemma freeUpL1Entry_eq (instPC : Addr) (h : s.l1btb.findEntry ⟨instPC, tid⟩ = none) :
    ∃ st, s.SameAccounts st ∧ s.freeUpL1Entry tid instPC =
      .ok (s.l1btb.slotFor ⟨instPC, tid⟩, s.freedUp tid instPC st) := by
  have hslot := slotFor_of_none h false
  obtain ⟨st, hacc, hst⟩ := writeBackVictim_eq
    { s with l1btb := (s.l1btb.findVictim ⟨instPC, tid⟩ false).2 } tid
    (s.l1btb.get (s.l1btb.findVictim ⟨instPC, tid⟩ false).1)
  refine ⟨st, hacc, ?_⟩
  have hinv : p.l1btb.shape.isValid (((s.l1btb.findVictim ⟨instPC, tid⟩ false).2.modify
      (s.l1btb.findVictim ⟨instPC, tid⟩ false).1 BTBEntry.invalidate).get
        (s.l1btb.findVictim ⟨instPC, tid⟩ false).1) = false := by
    rw [get_modify_self]
    rfl
  simp only [freeUpL1Entry, h, Option.isSome_none, Bool.false_eq_true, if_false,
    get_findVictim_keep, hst, bind, Except.bind, insertEntry_eq _ _ _ hinv,
    freedUp, l1Victim, hslot, store]
  rw [modify_id]
  rfl

end State

end BTBFerret
