import BTBFerret.ChainBudgets
import BTBFerret.ChainSteps

/-!
# Prefetch chains stay within their depth

The tracker table and the deferred queue form a ledger of chains with a budget: a staged entry is a
ticket of its chain, and opens it if it may allocate the slot. What the queue event issues is the
work, and the depth of the trigger the budget.
-/

namespace BTBFerret

open FallibleRuns ChainBudgets Multiset Nat DeferredPrefetchEntry

def DeferredPrefetchEntry.ticket (e : DeferredPrefetchEntry) : Ticket :=
  ⟨e.chainId, e.allocateChain, e.depth⟩

def Params.slotOf (p : Params) (hn : 0 < p.maxChainTrackerEntries) (chainId : Nat) :
    Fin p.maxChainTrackerEntries :=
  ⟨chainId % p.maxChainTrackerEntries, Nat.mod_lt _ hn⟩

lemma Params.chainSlot_eq (p : Params) (hn : 0 < p.maxChainTrackerEntries) (chainId : Nat) :
    p.chainSlot chainId = some (p.slotOf hn chainId) := by
  unfold Params.chainSlot
  rw [dif_pos hn]
  rfl

namespace State

variable {p : Params}

def ledger (c : Chains p) (ready : List DeferredPrefetchEntry) (issued granted : Nat → Nat) :
    Ledger (Fin p.maxChainTrackerEntries) where
  owner := c.owner
  remaining := c.remaining
  next := c.nextChainId
  pending := ((ready ++ c.queue).map ticket : List Ticket)
  issued := issued
  granted := granted

variable (s : State p)

def entryIssues (e : DeferredPrefetchEntry) : Nat → Nat := fun c =>
  if c = e.chainId then
    match s.processDeferredEntry e with
    | .ok t => t.issuedPrefetches - s.issuedPrefetches
    | .error _ => 0
  else 0

def chainIssues : Op → Nat → Nat
  | .processDeferredPrefetchQueue =>
    tally processDeferredEntry entryIssues s.popReady s.readyEntries
  | _ => 0

def chainDepths (o : Op) : Nat → Nat := fun c =>
  match o, s.step o with
  | .lookup _ _ type _ _ _, .ok s' =>
    if c = s.nextChainId ∧ s'.nextChainId ≠ s.nextChainId then p.triggerDepth type else 0
  | _, _ => 0

section

variable (hn : 0 < p.maxChainTrackerEntries) {X : Ledger (Fin p.maxChainTrackerEntries) → Prop}
  (hX : Guard (p.slotOf hn) X)
include hX

variable {granted : Nat → Nat}

lemma entry_sound {s s' : State p} {e : DeferredPrefetchEntry} {rest : List DeferredPrefetchEntry}
    {issued : Nat → Nat} (h : s.processDeferredEntry e = .ok s')
    (hs : Sound (p.slotOf hn) (ledger s.chains (e :: rest) issued granted))
    (hx : X (ledger s.chains (e :: rest) issued granted)) :
    Sound (p.slotOf hn) (ledger s'.chains rest (issued + s.entryIssues e) granted) ∧
      X (ledger s'.chains rest (issued + s.entryIssues e) granted) := by
  have hissues : s.entryIssues e = fun c =>
      if c = e.chainId then s'.issuedPrefetches - s.issuedPrefetches else 0 := by
    unfold entryIssues
    rw [h]
  have hp : (ledger s.chains (e :: rest) issued granted).pending =
      e.ticket ::ₘ ((rest ++ s.chains.queue).map ticket : List Ticket) := rfl
  have hmem : e.ticket ∈ (ledger s.chains (e :: rest) issued granted).pending := by
    rw [hp]
    exact mem_cons_self _ _
  cases entryMove_processDeferredEntry h with
  | skip chains same =>
    have hnone : issued + s.entryIssues e = issued := by
      funext c
      rw [Pi.add_apply, hissues, same]
      simp
    rw [hnone, chains]
    exact ⟨hs.drop hp, hX.drop hx hp⟩
  | spend _ slot valid budget more staged chains =>
    rw [p.chainSlot_eq hn] at slot
    obtain rfl := Option.some.inj slot
    have hmore : ∀ t ∈ ((more.map ticket : List Ticket) : Multiset Ticket),
        t.chain = e.ticket.chain ∧ t.opening = false := by
      intro t ht
      obtain ⟨e', he', rfl⟩ := List.mem_map.mp ht
      exact ⟨(staged e' he').chainId, (staged e' he').allocateChain⟩
    have hspend : ledger s'.chains rest (issued + s.entryIssues e) granted =
        (ledger s.chains (e :: rest) issued granted).spend (p.slotOf hn) e.ticket
          ((rest ++ s.chains.queue).map ticket : List Ticket)
          (more.map ticket : List Ticket)
          (s'.issuedPrefetches - s.issuedPrefetches) := by
      rw [hissues, chains]
      unfold ledger Ledger.spend
      congr 1
      rw [coe_add, ← List.map_append, coe_eq_coe]
      apply List.Perm.map
      refine ((stage_perm _ more).append_left rest).trans ?_
      rw [← List.append_assoc, ← List.append_assoc]
      exact List.perm_append_comm.append_right _
    rw [hspend]
    have hpos : 0 < (ledger s.chains (e :: rest) issued granted).budgetFor (p.slotOf hn) e.ticket :=
      pos_of_ne_zero budget
    refine ⟨hs.spend hp valid hpos ?_ hmore (hX.harmless hs hx hp), hX.spend _ hx hp valid hmore⟩
    omega
  | unpaid want =>
    rcases want with hzero | hnone | ⟨halloc, hdepth⟩
    · exact absurd hzero (ne_of_gt (hs.chain_pos _ hmem))
    · rw [p.chainSlot_eq hn] at hnone
      cases hnone
    · exact absurd hdepth (ne_of_gt (hs.budget _ hmem halloc).2)

lemma entries_sound {u : State p} (entries : List DeferredPrefetchEntry) :
    ∀ {s : State p} {issued : Nat → Nat}, run processDeferredEntry s entries = .ok u →
      Sound (p.slotOf hn) (ledger s.chains entries issued granted) →
      X (ledger s.chains entries issued granted) →
      Sound (p.slotOf hn) (ledger u.chains []
        (issued + tally processDeferredEntry entryIssues s entries) granted) ∧
      X (ledger u.chains [] (issued + tally processDeferredEntry entryIssues s entries)
        granted) := by
  induction entries with
  | nil =>
    intro s issued hrun hs hx
    have he : s = u := Except.ok.inj hrun
    subst he
    rw [tally, add_zero]
    exact ⟨hs, hx⟩
  | cons _ _ ih =>
    intro s issued hrun hs hx
    obtain ⟨t, ht, htail⟩ := bind_eq_ok_iff.mp hrun
    obtain ⟨hs', hx'⟩ := entry_sound hn hX ht hs hx
    rw [tally, ht, ← add_assoc]
    exact ih htail hs' hx'

lemma event_sound {s u : State p} {issued : Nat → Nat}
    (hrun : run processDeferredEntry s.popReady s.readyEntries = .ok u)
    (hs : Sound (p.slotOf hn) (ledger s.chains [] issued granted))
    (hx : X (ledger s.chains [] issued granted)) :
    Sound (p.slotOf hn) (ledger u.chains []
      (issued + s.chainIssues .processDeferredPrefetchQueue) granted) ∧
    X (ledger u.chains [] (issued + s.chainIssues .processDeferredPrefetchQueue) granted) := by
  have hpop : ledger s.popReady.chains s.readyEntries issued granted =
      ledger s.chains [] issued granted := by
    rw [chains_popReady]
    unfold ledger
    rw [readyEntries_append_popReady]
    rfl
  rw [← hpop] at hs hx
  exact entries_sound hn hX s.readyEntries hrun hs hx

end

/-! ## All operations -/

variable {o : Op}

lemma chainIssues_of_ne {s : State p} (h : o ≠ .processDeferredPrefetchQueue) :
    s.chainIssues o = 0 := by
  cases o with
  | processDeferredPrefetchQueue => exact absurd rfl h
  | _ => rfl

lemma chainDepths_of_same {s s' : State p} (h : s.step o = .ok s')
    (hnext : s'.nextChainId = s.nextChainId) : s.chainDepths o = 0 := by
  funext c
  unfold chainDepths
  rw [h]
  cases o with
  | lookup =>
    dsimp only
    rw [if_neg (fun hc => hc.2 hnext)]
    rfl
  | _ => rfl

lemma chainDepths_of_started {s : State p} {c : Nat} (h : c < s.nextChainId) (o : Op) :
    s.chainDepths o c = 0 := by
  unfold chainDepths
  split
  · rw [if_neg]
    rintro ⟨rfl, _⟩
    exact lt_irrefl _ h
  · rfl

lemma nextChainId_le_step {s s' : State p} (h : s.step o = .ok s') :
    s.nextChainId ≤ s'.nextChainId := by
  cases step_chains h with
  | same chains => exact le_of_eq (congrArg Chains.nextChainId chains).symm
  | trigger move =>
    cases move with
    | none same => exact le_of_eq (congrArg Chains.nextChainId same).symm
    | start _ _ _ chains =>
      have hnext : s'.nextChainId = s.nextChainId + 1 := congrArg Chains.nextChainId chains
      omega
  | event u examined chains =>
    have hu : u.nextChainId = s.nextChainId := by
      have hpop : s.popReady.nextChainId = s.nextChainId :=
        congrArg Chains.nextChainId (chains_popReady s)
      refine run_invariant_always
        (fun t : State p => t.nextChainId = s.nextChainId) ?_ hpop examined
      intro t e t' ht hstep
      cases entryMove_processDeferredEntry hstep with
      | skip chains => exact (congrArg Chains.nextChainId chains).trans ht
      | spend _ _ _ _ _ _ chains =>
        exact (congrArg Chains.nextChainId chains).trans ht
      | unpaid _ _ nextChainId => exact nextChainId.trans ht
    exact le_of_eq ((congrArg Chains.nextChainId chains).trans hu).symm
  | clear => exact le_refl _
  | advance chains => exact le_of_eq (congrArg Chains.nextChainId chains).symm

/-- A chain is triggered once: no later operation assigns it a depth. -/
lemma tally_chainDepths_of_started {c : Nat} (ops : List Op) :
    ∀ {s : State p}, c < s.nextChainId → tally step chainDepths s ops c = 0 := by
  induction ops with
  | nil => exact fun _ => rfl
  | cons o _ ih =>
    intro s h
    rw [tally, Pi.add_apply, chainDepths_of_started h]
    cases hstep : s.step o with
    | error => rfl
    | ok => exact (zero_add _).trans (ih (lt_of_lt_of_le h (nextChainId_le_step hstep)))

/-- How an operation moves the ledger. -/
inductive LedgerMove (p : Params) (s : State p) (o : Op) (issued granted : Nat → Nat)
    (m' : Ledger (Fin p.maxChainTrackerEntries)) : Prop
  | stay (same : m' = ledger s.chains [] issued granted)
  | start (type : BranchType) (n : Nat) (one : p.newPBits = true → n ≤ 1)
      (started : m' = (ledger s.chains [] issued granted).start (p.triggerDepth type) n)
  | event (isEvent : o = .processDeferredPrefetchQueue) (u : State p)
      (examined : run processDeferredEntry s.popReady s.readyEntries = .ok u)
      (examinedLedger : m' = ledger u.chains []
        (issued + s.chainIssues .processDeferredPrefetchQueue) granted)
  | clear (cleared : m' = (ledger s.chains [] issued granted).reset)

lemma step_ledger {s s' : State p} (issued granted : Nat → Nat)
    (h : s.step o = .ok s') :
    LedgerMove p s o issued granted
      (ledger s'.chains [] (issued + s.chainIssues o) (granted + s.chainDepths o)) := by
  have stays : o ≠ .processDeferredPrefetchQueue → s'.chains = s.chains →
      LedgerMove p s o issued granted
        (ledger s'.chains [] (issued + s.chainIssues o) (granted + s.chainDepths o)) := by
    intro hne hsame
    have hnext : s'.nextChainId = s.nextChainId := congrArg Chains.nextChainId hsame
    rw [chainIssues_of_ne hne, chainDepths_of_same h hnext, add_zero, add_zero, hsame]
    exact .stay rfl
  cases step_chains h with
  | same chains other => exact stays other chains
  | @trigger tid instPC type taken blockStartAddr basePrediction _ move =>
    cases move with
    | none same => exact stays (fun he => by cases he) same
    | start es one staged chains =>
      have hnext : s'.nextChainId = s.nextChainId + 1 := congrArg Chains.nextChainId chains
      have hdepths : s.chainDepths (.lookup tid instPC type taken blockStartAddr basePrediction) =
          fun c => if c = s.nextChainId then p.triggerDepth type else 0 := by
        funext c
        unfold chainDepths
        rw [h]
        have hmoved : s'.nextChainId ≠ s.nextChainId := by omega
        simp only [hmoved, ne_eq, not_false_eq_true, and_true]
      have htickets : es.map ticket =
          List.replicate es.length ⟨s.nextChainId, true, p.triggerDepth type⟩ := by
        rw [List.eq_replicate_iff]
        refine ⟨List.length_map _, ?_⟩
        intro t ht
        obtain ⟨e, he, rfl⟩ := List.mem_map.mp ht
        obtain ⟨hchain, halloc, hdepth, _⟩ := staged e he
        unfold ticket
        rw [hchain, halloc, hdepth]
        rfl
      refine .start type es.length one ?_
      rw [chainIssues_of_ne (fun he => by cases he), add_zero, hdepths, chains]
      unfold ledger Ledger.start
      congr 1
      change (((s.chains.stage es).queue.map ticket : List Ticket) :
          Multiset Ticket) =
        replicate es.length ⟨s.nextChainId, true, p.triggerDepth type⟩ +
          ((s.chains.queue.map ticket : List Ticket) : Multiset Ticket)
      rw [← coe_replicate, ← htickets, coe_add, ← List.map_append, coe_eq_coe]
      exact (stage_perm s.chains es).map _
  | event u examined chains =>
    have hdepths : s.chainDepths .processDeferredPrefetchQueue = 0 := by
      funext c
      rfl
    rw [hdepths, add_zero, chains]
    exact .event rfl u examined rfl
  | clear =>
    have hchains : ledger s.memInvalidate.chains [] issued granted =
        (ledger s.chains [] issued granted).reset := by
      have howner : s.memInvalidate.chains.owner = fun _ => 0 :=
        funext fun i => congrArg ActiveChainEntry.chainId (chainTable_memInvalidate s i)
      have hremaining : s.memInvalidate.chains.remaining = fun _ => 0 :=
        funext fun i =>
          congrArg ActiveChainEntry.remainingPrefetches (chainTable_memInvalidate s i)
      unfold ledger Ledger.reset
      rw [howner, hremaining]
      rfl
    rw [chainIssues_of_ne (fun he => by cases he), chainDepths_of_same h rfl, add_zero, add_zero]
    exact .clear hchains
  | advance chains =>
    have hnext : s'.nextChainId = s.nextChainId := congrArg Chains.nextChainId chains
    rw [chainIssues_of_ne (fun he => by cases he), chainDepths_of_same h hnext, add_zero, add_zero,
      chains]
    exact .stay rfl

lemma sound_init (hn : 0 < p.maxChainTrackerEntries) (bw : PrevBrInfo) :
    Sound (p.slotOf hn) (ledger (State.init p bw).chains [] 0 0) := by
  have hpending : ∀ t, t ∉ (ledger (State.init p bw).chains [] 0 0).pending :=
    fun t => notMem_zero t
  have howner : ∀ i, (ledger (State.init p bw).chains [] 0 0).owner i = 0 := by
    intro i
    change (Vector.replicate p.maxChainTrackerEntries ActiveChainEntry.empty)[i].chainId = 0
    simp [ActiveChainEntry.empty]
  have hremaining : ∀ i, (ledger (State.init p bw).chains [] 0 0).remaining i = 0 := by
    intro i
    change (Vector.replicate p.maxChainTrackerEntries ActiveChainEntry.empty)[i].remainingPrefetches
      = 0
    simp [ActiveChainEntry.empty]
  constructor
  · exact one_pos
  · exact fun t ht => absurd ht (hpending t)
  · exact fun t ht => absurd ht (hpending t)
  · exact fun t ht => absurd ht (hpending t)
  · intro c
    have hheld : (ledger (State.init p bw).chains [] 0 0).held (p.slotOf hn) c = 0 := by
      unfold Ledger.held
      rw [hremaining]
      exact ite_self 0
    rw [hheld]
    exact le_refl 0
  · exact fun t ht => absurd ht (hpending t)
  · intro i
    rw [howner]
    exact one_pos
  · exact fun c _ => ⟨rfl, rfl⟩

/-! ## The bounds -/

lemma triggerDepth_pos (hdepth : 0 < p.prefetchDepth) (type : BranchType) :
    0 < p.triggerDepth type := by
  unfold Params.triggerDepth
  split
  · exact one_pos
  · exact hdepth

lemma triggerDepth_le (hdepth : 0 < p.prefetchDepth) (type : BranchType) :
    p.triggerDepth type ≤ p.prefetchDepth := by
  unfold Params.triggerDepth
  split
  · exact hdepth
  · exact le_refl _

def chainTotals (ops : List Op) : (Nat → Nat) × (Nat → Nat) :=
  tally step (fun s o => (s.chainIssues o, s.chainDepths o)) s ops

def LedgerSound (hn : 0 < p.maxChainTrackerEntries) (total : (Nat → Nat) × (Nat → Nat))
    (s : State p) : Prop :=
  Sound (p.slotOf hn) (ledger s.chains [] total.1 total.2)

variable {bw : PrevBrInfo}

lemma LedgerSound.issues_le {hn : 0 < p.maxChainTrackerEntries} {ops : List Op}
    {s : State p} (h : LedgerSound hn (chainTotals (State.init p bw) ops) s) (c : Nat) :
    tally step chainIssues (State.init p bw) ops c ≤
      tally step chainDepths (State.init p bw) ops c := by
  have hwithin := h.within c
  unfold chainTotals at hwithin
  rw [tally_prod] at hwithin
  exact le_trans (le_add_right _ _) hwithin

lemma ledgerSound_of_newPBits (hnew : p.newPBits = true) (hdepth : 0 < p.prefetchDepth)
    (hn : 0 < p.maxChainTrackerEntries) {ops : List Op} {s : State p}
    (h : Reached bw ops s) : LedgerSound hn (chainTotals (State.init p bw) ops) s := by
  have hs : LedgerSound hn (chainTotals (State.init p bw) ops) s ∧
      Exclusive (p.slotOf hn) (ledger s.chains [] (chainTotals (State.init p bw) ops).1
        (chainTotals (State.init p bw) ops).2) := by
    refine tally_invariant (fun total s => LedgerSound hn total s ∧
      Exclusive (p.slotOf hn) (ledger s.chains [] total.1 total.2)) ?_ ?_
      (along_of_forall (fun _ _ => trivial) _ _) h
    · rintro ⟨issued, granted⟩ t o t' ⟨hsound, hexcl⟩ _ hstep
      unfold LedgerSound
      dsimp only [Prod.fst_add, Prod.snd_add]
      cases step_ledger issued granted hstep with
      | stay same =>
        rw [same]
        exact ⟨hsound, hexcl⟩
      | start type n one started =>
        rw [started]
        exact ⟨hsound.start (triggerDepth_pos hdepth type) n, hexcl.start hsound _ (one hnew)⟩
      | event _ _ examined examinedLedger =>
        rw [examinedLedger]
        exact event_sound hn (guard_exclusive _) examined hsound hexcl
      | clear cleared =>
        rw [cleared]
        exact ⟨hsound.reset, Exclusive.reset⟩
    · exact ⟨sound_init hn bw, nodup_zero, fun t ht => absurd ht (notMem_zero t)⟩
  exact hs.1

lemma tally_chainDepths_eq_trigger {hn : 0 < p.maxChainTrackerEntries}
    {before after : List Op} {t s : State p} {c : Nat}
    (hsound : LedgerSound hn (chainTotals (State.init p bw) before) t)
    (hbefore : Reached bw before t)
    (h : Reached bw (before ++ o :: after) s) (htrigger : t.chainDepths o c ≠ 0) :
    tally step chainDepths (State.init p bw) (before ++ o :: after) c = t.chainDepths o c := by
  have hstarted : c = t.nextChainId ∧ ∃ t', t.step o = .ok t' ∧ t'.nextChainId ≠ t.nextChainId := by
    unfold chainDepths at htrigger
    split at htrigger
    · rename_i t' hstep
      split at htrigger
      · rename_i hc
        exact ⟨hc.1, t', hstep, hc.2⟩
      · exact absurd rfl htrigger
    · exact absurd rfl htrigger
  obtain ⟨hc, t', hstep, hmoved⟩ := hstarted
  have hfresh := (hsound.fresh c (le_of_eq hc.symm)).2
  unfold chainTotals at hfresh
  rw [tally_prod] at hfresh
  change tally step chainDepths (State.init p bw) before c = 0 at hfresh
  have hlater : c < t'.nextChainId := by
    have hle := nextChainId_le_step hstep
    omega
  rw [tally_append chainDepths _ hbefore, Pi.add_apply, hfresh, zero_add, tally, hstep,
    Pi.add_apply]
  dsimp only
  rw [tally_chainDepths_of_started after hlater, add_zero]

/-- With the policy for new bits a chain issues at most as many prefetches as the depth that its
trigger assigned, and none if it was not triggered. -/
theorem chain_issues_within_depth (hnew : p.newPBits = true) (hdepth : 0 < p.prefetchDepth)
    (hn : 0 < p.maxChainTrackerEntries) {bw : PrevBrInfo} {ops : List Op} {s : State p}
    (h : Reached bw ops s) (c : Nat) :
    (∀ before o after (t : State p), ops = before ++ o :: after → Reached bw before t →
      t.chainDepths o c ≠ 0 →
      tally step chainIssues (State.init p bw) ops c ≤ t.chainDepths o c) ∧
    tally step chainIssues (State.init p bw) ops c ≤
      tally step chainDepths (State.init p bw) ops c := by
  have hle := (ledgerSound_of_newPBits hnew hdepth hn h).issues_le c
  refine ⟨?_, hle⟩
  rintro before o after t rfl hbefore htrigger
  have hsound := ledgerSound_of_newPBits hnew hdepth hn hbefore
  rw [tally_chainDepths_eq_trigger hsound hbefore h htrigger] at hle
  exact hle

def oneTracker : Params :=
  { Params.small with
    trainBitsOnCommit := true
    maxChainTrackerEntries := 1
    l2btb := .small 8 (Nat.succ_pos 7) }

def conditional : StaticInst := ⟨0, true, false, false, true, false, true, false, false, true, 4⟩

/-- The blocks behind the two ways of the branches 20 and 40. -/
def fourBlocks : BBMap := fun a =>
  if a = 1000 then some 101 else if a = 24 then some 102
  else if a = 2000 then some 103 else if a = 44 then some 104 else none

def resolveCond (pc target : Addr) : Op :=
  .update 0 pc (PCState.ofAddr target) .directCond (some conditional)

def predictCond (pc : Addr) : Op := .lookup 0 pc .directCond true 0 true

/-- Six branches move to L2, two of them with both prefetch bits. -/
def learnt : List Op :=
  [.setBBMap fourBlocks, resolveCond 101 7, .wait, resolveCond 102 7, .wait, resolveCond 103 7,
    .wait, resolveCond 104 7, .wait, resolveCond 20 1000, .trainPrefetchBitsOnCommit 0 20 false,
    .wait, resolveCond 40 2000, .trainPrefetchBitsOnCommit 0 40 false, .wait,
    resolveCond 60 7, .wait]

def sixCycles : List Op :=
  (List.replicate 6 [Op.processDeferredPrefetchQueue, .advance 1 1]).flatten

def oneChain : List Op := learnt ++ predictCond 20 :: sixCycles

/-- The chains of branch 20 and of branch 40. -/
def twoChains : List Op := learnt ++ predictCond 20 :: predictCond 40 :: sixCycles

def oneTrackerNewBits : Params := { oneTracker with newPBits := true }

/-- The chain that branch 40 opens issues at most its one granted prefetch. -/
theorem chain_issues_within_depth_small :
    ∃ s : State oneTrackerNewBits, Reached ⟨false, false⟩ twoChains s ∧
      tally step chainDepths (State.init oneTrackerNewBits ⟨false, false⟩) twoChains 2 = 1 ∧
      tally step chainIssues (State.init oneTrackerNewBits ⟨false, false⟩) twoChains 2 ≤ 1 := by
  obtain ⟨s, hs, _⟩ := exists_run oneTrackerNewBits twoChains (fun _ => true) (by decide +kernel)
  have hdepth : tally step chainDepths (State.init oneTrackerNewBits ⟨false, false⟩)
      twoChains 2 = 1 := by
    decide +kernel
  have hle := (chain_issues_within_depth (p := oneTrackerNewBits) rfl (by decide)
    (by decide) hs 2).2
  rw [hdepth] at hle
  exact ⟨s, hs, hdepth, hle⟩

def OneChainPerSlot : Op → Prop
  | .processDeferredPrefetchQueue =>
    ∀ e ∈ s.deferredPrefetchQueue, ∀ e' ∈ s.deferredPrefetchQueue, e.allocateChain = true →
      e'.allocateChain = true → p.chainSlot e.chainId = p.chainSlot e'.chainId →
      e.chainId = e'.chainId
  | _ => True

instance (s : State p) (o : Op) : Decidable (OneChainPerSlot s o) := by
  apply @Op.casesOn _ o <;> intros <;> unfold OneChainPerSlot <;> infer_instance

lemma aligned_of_oneChainPerSlot (hn : 0 < p.maxChainTrackerEntries) {s : State p}
    (h : OneChainPerSlot s .processDeferredPrefetchQueue) (issued granted : Nat → Nat) :
    Aligned (p.slotOf hn) (ledger s.chains [] issued granted).pending := by
  intro t ht t' ht' hopen hopen' hslot
  obtain ⟨e, he, rfl⟩ := List.mem_map.mp ht
  obtain ⟨e', he', rfl⟩ := List.mem_map.mp ht'
  apply h e he e' he' hopen hopen'
  rw [p.chainSlot_eq hn, p.chainSlot_eq hn]
  exact congrArg some hslot

/-- A chain issues at most as many prefetches as the depth allows, if no two chains
wait for one tracker slot when the queue is processed. -/
theorem chain_issues_bounded (hdepth : 0 < p.prefetchDepth) (hn : 0 < p.maxChainTrackerEntries)
    {bw : PrevBrInfo} {ops : List Op} {s : State p}
    (hslots : Along step OneChainPerSlot (State.init p bw) ops) (h : Reached bw ops s) (c : Nat) :
    tally step chainIssues (State.init p bw) ops c ≤ p.prefetchDepth := by
  have hs : LedgerSound hn (chainTotals (State.init p bw) ops) s ∧
      ∀ c, (chainTotals (State.init p bw) ops).2 c ≤ p.prefetchDepth := by
    refine tally_invariant (fun total s => LedgerSound hn total s ∧
      ∀ c, total.2 c ≤ p.prefetchDepth) ?_ ?_ hslots h
    · rintro ⟨issued, granted⟩ t o t' ⟨hsound, hle⟩ hone hstep
      have hmove := step_ledger issued granted hstep
      generalize hm : ledger t'.chains [] (issued + t.chainIssues o)
        (granted + t.chainDepths o) = m'
        at hmove
      have hgoal : Sound (p.slotOf hn) m' ∧ ∀ c, m'.granted c ≤ p.prefetchDepth := by
        cases hmove with
        | stay same =>
          rw [same]
          exact ⟨hsound, hle⟩
        | start type n one started =>
          rw [started]
          refine ⟨hsound.start (triggerDepth_pos hdepth type) n, ?_⟩
          intro c
          have hfresh := (hsound.fresh t.nextChainId (le_refl _)).2
          have hold := hle c
          have hd := triggerDepth_le hdepth type
          change granted c + (if c = t.nextChainId then p.triggerDepth type else 0) ≤ _
          split
          · rename_i hc
            rw [hc]
            change granted t.nextChainId = 0 at hfresh
            omega
          · exact hold
        | event isEvent _ examined examinedLedger =>
          subst isEvent
          rw [examinedLedger]
          exact ⟨(event_sound hn (guard_aligned _) examined hsound
            (aligned_of_oneChainPerSlot hn hone issued granted)).1, hle⟩
        | clear cleared =>
          rw [cleared]
          exact ⟨hsound.reset, hle⟩
      rw [← hm] at hgoal
      exact hgoal
    · exact ⟨sound_init hn bw, fun c => zero_le _⟩
  have hle := hs.2 c
  unfold chainTotals at hle
  rw [tally_prod] at hle
  exact le_trans (hs.1.issues_le c) hle

/-- The chain that branch 20 opens issues at most one prefetch. -/
theorem chain_issues_bounded_small :
    ∃ s : State oneTracker, Reached ⟨false, false⟩ oneChain s ∧ s.nextChainId = 2 ∧
      tally step chainIssues (State.init oneTracker ⟨false, false⟩) oneChain 1 ≤ 1 := by
  obtain ⟨s, hs, hnext⟩ := exists_run oneTracker oneChain
    (fun s => s.nextChainId == 2) (by decide +kernel)
  exact ⟨s, hs, eq_of_beq hnext, chain_issues_bounded (p := oneTracker) (by decide) (by decide)
    (along_of_test OneChainPerSlot (by decide +kernel)) hs 1⟩

/-- Two chains wait for the slot. Each takes it twice, and the first one issues two
prefetches although its depth is one. -/
theorem chain_issues_exceed_depth :
    oneTracker.newPBits = false ∧ oneTracker.prefetchDepth = 1 ∧
    oneTracker.maxChainTrackerEntries = 1 ∧
    ∃ s : State oneTracker, Reached ⟨false, false⟩ twoChains s ∧
      tally step chainIssues (State.init oneTracker ⟨false, false⟩) twoChains 1 = 2 := by
  refine ⟨rfl, rfl, rfl, ?_⟩
  obtain ⟨s, hs, _⟩ := exists_run oneTracker twoChains (fun _ => true) (by decide +kernel)
  exact ⟨s, hs, by decide +kernel⟩

end State

end BTBFerret
