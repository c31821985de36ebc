import BTBFerret.FetchChain

/-!
# The instructions fetched are those of the targets

The record of fetch since the queue was last squashed: the targets consumed, each from its start
to its end, and the part of the head that fetch has walked through.
-/

namespace BTBFerret

open FallibleRuns FrontEnd List

namespace FetchStage

variable {B : BranchTargetBuffer} {c : FetchParams}

def Progress (size : Nat) (head : Option FetchTarget) (pc : Addr) (rest : List Addr) : Prop :=
  match head with
  | none => rest = []
  | some ft => (ft.inRange pc = true →
      rest = walk size ft.startAddress ((pc.toNat - ft.startAddress.toNat) / size)) ∧
    rest <+: ft.range size

def covered (size : Nat) (consumed : List Consumed) : List Addr :=
  consumed.flatMap fun e => e.target.range size

/-- What fetch has done since the last squash. With an empty queue both stages are at one PC, or
the branch address calculation drains. -/
structure Recorded (c : FetchParams) (s : FetchStage B) : Prop where
  trace : ∃ rest, s.fetched = covered c.frontEnd.minInstSize s.consumed ++ rest ∧
    (s.frontEnd.ftq.usable → Progress c.frontEnd.minInstSize s.frontEnd.ftq.targets.head?
      s.pc.instAddr rest)
  meet : s.frontEnd.ftq.usable → s.frontEnd.ftq.targets = [] →
    s.frontEnd.stalls.drain = true ∨ s.frontEnd.bacPC.instAddr = s.pc.instAddr

structure Traced (c : FetchParams) (s : FetchStage B) : Prop extends Recorded c s where
  signals : s.loop = none → ∀ p, s.toBAC.getLast? = some (some p) → p.instAddr = s.pc.instAddr
  delay : s.toBAC.length ≤ c.fetchToBacDelay
  room : s.loop.isSome = true → s.toBAC.length ≤ c.fetchToBacDelay - 1

lemma traced_init (btb : B.State) (pc : PCState) : Traced c (init c btb pc) := by
  constructor
  · constructor
    · exact ⟨[], rfl, fun _ => rfl⟩
    · intro _ _
      exact .inr rfl
  · intro _ p hp
    have hmem := mem_of_getLast? hp
    cases eq_of_mem_replicate hmem
  · exact Nat.le_of_eq length_replicate
  · rintro ⟨⟩

/-! ## Progress in the head -/

section

variable {size : Nat} {ft ft' next : FetchTarget} {pc : Addr} {rest : List Addr}

lemma progress_of_start {head : Option FetchTarget}
    (h : ∀ ft ∈ head, pc = ft.startAddress) : Progress size head pc [] := by
  cases head with
  | none => rfl
  | some ft =>
    refine ⟨?_, nil_prefix⟩
    intro _
    rw [h ft rfl, Nat.sub_self, Nat.zero_div]
    rfl

lemma progress_of_same (hsame : ft'.withoutHistory = ft.withoutHistory)
    (h : Progress size (some ft) pc rest) : Progress size (some ft') pc rest := by
  have hstart : ft'.withoutHistory.startAddress = ft.withoutHistory.startAddress := by rw [hsame]
  have hrange : ft'.withoutHistory.range size = ft.withoutHistory.range size := by rw [hsame]
  change ft'.startAddress = ft.startAddress at hstart
  change ft'.range size = ft.range size at hrange
  obtain ⟨hwalk, hpre⟩ := h
  refine ⟨?_, ?_⟩
  · rw [inRange_of_same hsame, hstart]
    exact hwalk
  · rw [hrange]
    exact hpre

variable (hin : ft.inRange pc = true) (hstart : Aligned size ft.startAddress)
  (hpc : Aligned size pc)
include hin hstart hpc

lemma Progress.moves (hend : Aligned size ft.endAddress) (hexit : ft.isExitInst pc = false)
    (h : Progress size (some ft) pc rest) :
    Progress size (some ft) (pc + BitVec.ofNat 64 size) (rest ++ [pc]) := by
  obtain ⟨hfrom, hto⟩ := inRange_iff.mp hin
  obtain ⟨hnext, hnat⟩ := inRange_next hin hexit hpc hend
  have hpos : 0 < size := by
    by_contra hzero
    obtain rfl : size = 0 := by omega
    have hpcZero := Nat.eq_zero_of_zero_dvd hpc
    have hendZero := Nat.eq_zero_of_zero_dvd hend
    have heq : pc = ft.endAddress := BitVec.eq_of_toNat_eq (hpcZero.trans hendZero.symm)
    rw [isExitInst_iff.mpr heq] at hexit
    cases hexit
  have hcount : ((pc + BitVec.ofNat 64 size).toNat - ft.startAddress.toNat) / size =
      (pc.toNat - ft.startAddress.toNat) / size + 1 := by
    rw [hnat, Nat.sub_add_comm hfrom, Nat.add_div_right _ hpos]
  have hmore : rest ++ [pc] =
      walk size ft.startAddress ((pc.toNat - ft.startAddress.toNat) / size + 1) := by
    rw [walk_succ hfrom hstart hpc, h.1 hin]
  refine ⟨?_, ?_⟩
  · intro _
    rw [hcount, hmore]
  · rw [hmore]
    refine walk_prefix_of_le (Nat.succ_le_succ (Nat.div_le_div_right ?_))
    exact Nat.sub_le_sub_right hto _

lemma Progress.ends (hexit : ft.isExitInst pc = true) (h : Progress size (some ft) pc rest) :
    rest ++ [pc] = ft.range size := by
  obtain ⟨hfrom, _⟩ := inRange_iff.mp hin
  rw [h.1 hin, ← walk_succ hfrom hstart hpc, isExitInst_iff.mp hexit]
  rfl

end

/-! ## The record -/

variable {s : FetchStage B}

lemma recorded_of_lost (hlost : ¬ s.frontEnd.ftq.usable)
    (hfetched : ∃ rest, s.fetched = covered c.frontEnd.minInstSize s.consumed ++ rest) :
    Recorded c s := by
  obtain ⟨rest, hrest⟩ := hfetched
  constructor
  · exact ⟨rest, hrest, fun h => absurd h hlost⟩
  · intro h
    exact absurd h hlost

section

variable {s t : FetchStage B} {i : FetchedInst} {ft : FetchTarget}

lemma covered_concat (size : Nat) (consumed : List Consumed) (e : Consumed) :
    covered size (consumed ++ [e]) = covered size consumed ++ e.target.range size := by
  unfold covered
  rw [flatMap_append, flatMap_singleton]

lemma Built.recorded (hat : AtHead c s i ft) (h : Chained c s) (hrec : Recorded c s)
    (hbacPC : t.frontEnd.bacPC = s.frontEnd.bacPC) (hbuilt : Built c.frontEnd s t ft) :
    Recorded c t := by
  obtain ⟨rest, hrest, hprogress⟩ := hrec.trace
  obtain ⟨_, after, htargets⟩ := targets_of_readHead hat.head
  obtain ⟨_, hpc, hsizes⟩ := hat.regular
  obtain ⟨hstart, hend, _⟩ := hsizes ft hat.mem
  rw [htargets] at hprogress
  cases hbuilt with
  | lost hlost hconsumed hfetched =>
    obtain ⟨more, hmore⟩ := hfetched
    refine recorded_of_lost hlost ⟨rest ++ more, ?_⟩
    rw [← hmore, hconsumed, hrest, append_assoc]
  | waits ft' hsame _ hftq hnext hconsumed hfetched =>
    have hhead : t.frontEnd.ftq.targets = ft' :: after := by
      rw [hftq, FTQ.setHead, htargets]
      rfl
    constructor
    · refine ⟨rest, ?_, ?_⟩
      · rw [hfetched, hconsumed, hrest]
      · intro husable
        rw [hhead, hnext]
        rw [hftq] at husable
        exact progress_of_same hsame (hprogress husable)
    · intro _ hempty
      rw [hhead] at hempty
      cases hempty
  | moves hftq hexit hnext hconsumed hfetched =>
    constructor
    · refine ⟨rest ++ [s.pc.instAddr], ?_, ?_⟩
      · rw [hfetched, hconsumed, hrest, append_assoc]
      · intro husable
        rw [hftq] at husable ⊢
        rw [htargets, hnext]
        exact (hprogress husable).moves hat.inRange hstart hpc hend hexit
    · intro _ hempty
      rw [hftq, htargets] at hempty
      cases hempty
  | rests hftq hexit hnext hconsumed hfetched =>
    constructor
    · refine ⟨rest ++ [s.pc.instAddr], ?_, ?_⟩
      · rw [hfetched, hconsumed, hrest, append_assoc]
      · intro husable
        rw [hftq] at husable ⊢
        rw [htargets, hnext]
        -- behind its end fetch is not in the target any more
        refine ⟨?_, ?_⟩
        · intro hin
          rw [(hat.stays.1 ft hat.mem).2] at hin
          cases hin
        · rw [(hprogress husable).ends hat.inRange hstart hpc hexit]
    · intro _ hempty
      rw [hftq, htargets] at hempty
      cases hempty
  | pops husable hftq hexit hnext hconsumed hfetched =>
    have htail : s.frontEnd.ftq.targets.tail = after := by
      rw [htargets]
      rfl
    rw [htail] at hftq hconsumed
    constructor
    · refine ⟨[], ?_, ?_⟩
      · rw [hfetched, hconsumed, hrest, covered_concat, append_nil, append_assoc,
          (hprogress husable).ends hat.inRange hstart hpc hexit]
      · intro _
        rw [hftq]
        refine progress_of_start ?_
        intro next hmem
        refine next_start hat.head h.linked.follows ?_ hnext
        rw [htail]
        exact hmem
    · intro _ hempty
      rw [hftq] at hempty
      have hlast : s.frontEnd.ftq.targets.getLast? = some ft := by
        rw [htargets, show after = [] from hempty]
        rfl
      refine .inr ?_
      rw [hbacPC]
      exact Option.some.inj ((h.linked.next ft hlast).symm.trans hnext)

end

/-! ## Cycles -/

variable {t : FetchStage B}

lemma Recorded.of_same (h : Recorded c s) (hftq : t.frontEnd.ftq = s.frontEnd.ftq)
    (hbacPC : t.frontEnd.bacPC = s.frontEnd.bacPC)
    (hdrain : s.frontEnd.stalls.drain = true → t.frontEnd.stalls.drain = true) (hpc : t.pc = s.pc)
    (hfetched : t.fetched = s.fetched) (hconsumed : t.consumed = s.consumed) : Recorded c t := by
  constructor
  · rw [hfetched, hconsumed, hftq, hpc]
    exact h.trace
  · intro husable hempty
    rw [hftq] at husable hempty
    rw [hbacPC, hpc]
    exact (h.meet husable hempty).imp_left hdrain

lemma Fetches.recorded (h : Recorded c s) (hfetches : Fetches c s t) : Recorded c t := by
  cases hfetches with
  | left | entered => exact h.of_same rfl rfl id rfl rfl rfl
  | resteered =>
    by_cases hempty : s.frontEnd.ftq.isEmpty = true
    · have hftq : s.frontEnd.ftq.invalidate = s.frontEnd.ftq := if_pos hempty
      exact h.of_same hftq rfl id rfl rfl rfl
    · have hftq : s.frontEnd.ftq.invalidate = ⟨s.frontEnd.ftq.targets, .invalid⟩ := if_neg hempty
      obtain ⟨rest, hrest, _⟩ := h.trace
      refine recorded_of_lost ?_ ⟨rest, hrest⟩
      change ¬ s.frontEnd.ftq.invalidate.usable
      rw [hftq]
      exact fun husable => husable.2 rfl

lemma getLast_leave {sent : List (Option PCState)} {signal : Option PCState} {delay : Nat}
    {p : PCState} (hroom : sent.length ≤ delay - 1)
    (hlast : ((sent ++ [signal]).take delay).getLast? = some (some p)) : signal = some p := by
  cases delay with
  | zero => cases hlast
  | succ d =>
    have hlen : (sent ++ [signal]).length ≤ d + 1 := by
      rw [length_append]
      exact Nat.succ_le_succ hroom
    rw [take_of_length_le hlen, getLast?_concat] at hlast
    exact Option.some.inj hlast

lemma Fetches.traced (h : Recorded c s) (hroom : s.toBAC.length ≤ c.fetchToBacDelay - 1)
    (hfetches : Fetches c s t) : Traced c t := by
  refine ⟨hfetches.recorded h, ?_, ?_, ?_⟩
  · intro hloop p hlast
    cases hfetches with
    | left => cases getLast_leave hroom hlast
    | resteered =>
      obtain rfl := Option.some.inj (getLast_leave hroom hlast)
      rfl
    | entered => cases hloop
  · cases hfetches with
    | left | resteered => exact length_take_le _ _
    | entered => exact hroom.trans (Nat.sub_le _ _)
  · intro hloop
    cases hfetches with
    | left | resteered => cases hloop
    | entered => exact hroom

lemma Traced.resteer (h : Traced c s) (hloop : s.loop = none) (hdelay : c.fetchToBacDelay ≤ 1)
    {p : PCState} (hp : s.toBAC.head?.join = some p) : p.instAddr = s.pc.instAddr := by
  have hlen := h.delay.trans hdelay
  have hsignals := h.signals hloop p
  revert hp hlen hsignals
  generalize s.toBAC = sent
  intro hp hlen hsignals
  cases sent with
  | nil => cases hp
  | cons first rest =>
    have hrest : rest = [] :=
      eq_nil_of_length_eq_zero (Nat.le_zero.mp (Nat.le_of_succ_le_succ hlen))
    subst hrest
    have hfirst : first = some p := hp
    rw [hfirst] at hsignals
    exact hsignals rfl

variable {sig : PipelineSignals}

/-- After a signal that restarts the branch address calculation both stages are at one PC. -/
lemma Traced.restarts (h : Traced c s) (hloop : s.loop = none) {answers : Nat → Answers}
    {line : Option FetchStatus} (hstep : InStep c s (.cycle sig answers line)) {pc : PCState}
    (hrestarts : Restarts s.frontEnd (sig.withResteer s.toBAC.head?.join) pc) :
    pc.instAddr = (s.signalledPC sig).instAddr := by
  obtain ⟨hdecodes, hresteers⟩ := hstep
  unfold signalledPC
  cases hrestarts with
  | commit q hq =>
    have hcommit : sig.commitSquash = some q := hq
    rw [hcommit]
  | decode hnone q hq =>
    have hcommit : sig.commitSquash = none := hnone
    have hdecode : sig.decodeSquash = some q := hq
    obtain ⟨htrap, hbusy⟩ := hdecodes hcommit (by rw [hdecode]; rfl)
    rw [hcommit, hdecode, htrap]
    simp only [Bool.false_eq_true, if_false, hbusy]
  | fetch hnone hnone' pc hpc hbusy =>
    have hcommit : sig.commitSquash = none := hnone
    have hdecode : sig.decodeSquash = none := hnone'
    have hp : s.toBAC.head?.join = some pc := hpc
    rw [hcommit, hdecode]
    simp only [ite_self]
    by_cases hdelay : 1 < c.fetchToBacDelay
    · exact hresteers hdelay hcommit hdecode hbusy pc hp
    · exact h.resteer hloop (Nat.le_of_not_lt hdelay) hp

lemma squashesQueue_of_restarts {s : FrontEnd B} {sig : Signals} {pc : PCState}
    (h : Restarts s sig pc) : s.squashesQueue sig = true := by
  unfold squashesQueue
  cases h with
  | commit _ hq | decode _ _ hq => simp [hq]
  | fetch _ _ _ hpc hbusy => simp [hpc, hbusy]

lemma squashesQueue_of_quiet {s : FrontEnd B} {sig : Signals}
    (h : NoSquash sig (s.bacStatus = .squashing)) (hdrain : s.stalls.drain = false) :
    s.squashesQueue sig = false := by
  unfold squashesQueue
  rw [h.commit, h.decode, hdrain]
  rcases h.fetch with hnone | hbusy
  · simp [hnone]
  · simp [hbusy]

lemma signalledPC_of_quiet (hcommit : sig.commitSquash = none)
    (hdecode : sig.decodeSquash = none) :
    s.signalledPC sig = s.pc := by
  unfold signalledPC
  rw [hcommit, hdecode]
  simp only [ite_self]

lemma recorded_of_empty (htargets : s.frontEnd.ftq.targets = []) (hfetched : s.fetched = [])
    (hconsumed : s.consumed = [])
    (hmeet : s.frontEnd.stalls.drain = true ∨ s.frontEnd.bacPC.instAddr = s.pc.instAddr) :
    Recorded c s := by
  constructor
  · refine ⟨[], ?_, ?_⟩
    · rw [hfetched, hconsumed]
      rfl
    · intro _
      rw [htargets]
      rfl
  · intro _ _
    exact hmeet

lemma Recorded.grown (h : Recorded c s) (hdrain : s.frontEnd.stalls.drain = false) {mid : Core}
    (hftq : mid.ftq = s.frontEnd.ftq) (hbacPC : mid.bacPC = s.frontEnd.bacPC)
    (hpushes : Pushes c.frontEnd mid t.frontEnd.core) (hpc : t.pc = s.pc)
    (hfetched : t.fetched = s.fetched) (hconsumed : t.consumed = s.consumed) : Recorded c t := by
  obtain ⟨rest, hrest, hprogress⟩ := h.trace
  have hstatus : t.frontEnd.ftq.status = s.frontEnd.ftq.status := by
    rw [← hftq]
    exact (Pushes.ftq hpushes).1
  have husable : t.frontEnd.ftq.usable → s.frontEnd.ftq.usable := by
    unfold FTQ.usable
    rw [hstatus]
    exact id
  have hhead := Pushes.head hpushes
  rw [hftq, hbacPC] at hhead
  constructor
  · refine ⟨rest, ?_, ?_⟩
    · rw [hfetched, hconsumed, hrest]
    · intro hnew
      have hold := hprogress (husable hnew)
      rw [hpc]
      rcases hhead with ⟨hempty, hwas, _⟩ | ⟨ft, hft, hkept | ⟨hwas, hstart⟩⟩
      · change t.frontEnd.ftq.targets = [] at hempty
        rw [hwas] at hold
        rw [hempty]
        exact hold
      · change t.frontEnd.ftq.targets.head? = some ft at hft
        rw [hkept] at hold
        rw [hft]
        exact hold
      · -- the first target starts at the PC of both stages
        change t.frontEnd.ftq.targets.head? = some ft at hft
        rw [hwas] at hold
        rw [hft, show rest = [] from hold]
        refine progress_of_start ?_
        rintro g ⟨⟩
        rcases h.meet (husable hnew) hwas with hdraining | hmeet
        · rw [hdrain] at hdraining
          cases hdraining
        · rw [← hmeet, ← hstart]
          rfl
  · intro hnew hempty
    rcases hhead with ⟨_, hwas, hsame⟩ | ⟨ft, hft, _⟩
    · rcases h.meet (husable hnew) hwas with hdraining | hmeet
      · rw [hdrain] at hdraining
        cases hdraining
      · refine .inr ?_
        change t.frontEnd.bacPC = s.frontEnd.bacPC at hsame
        rw [hsame, hpc]
        exact hmeet
    · change t.frontEnd.ftq.targets.head? = some ft at hft
      rw [hempty] at hft
      cases hft

lemma Cycled.traced (h : Traced c s) (hloop : s.loop = none) {answers : Nat → Answers}
    {line : Option FetchStatus} (hstep : InStep c s (.cycle sig answers line))
    {frontEnd : FrontEnd B} (hcycled : Cycled c s t sig frontEnd) : Traced c t := by
  obtain ⟨status, hfetches⟩ := hcycled.fetches
  have hroom : (s.synced sig frontEnd status).toBAC.length ≤ c.fetchToBacDelay - 1 := by
    change s.toBAC.tail.length ≤ _
    rw [length_tail]
    exact Nat.sub_le_sub_right h.delay 1
  have hrec : Recorded c (s.synced sig frontEnd status) := by
    cases hcycled.ticked with
    | restarted hrestarts hftq =>
      have hsquash := squashesQueue_of_restarts hrestarts
      refine recorded_of_empty (congrArg FTQ.targets hftq) (if_pos hsquash) (if_pos hsquash) ?_
      exact .inr (h.restarts hloop hstep hrestarts)
    | drained hdraining hftq =>
      have hsquash : s.frontEnd.squashesQueue (sig.withResteer s.toBAC.head?.join) = true := by
        unfold squashesQueue
        rw [hdraining, Bool.or_true]
      refine recorded_of_empty (congrArg FTQ.targets hftq) (if_pos hsquash) (if_pos hsquash) ?_
      exact .inl (hcycled.drain.trans hdraining)
    | grown hquiet hdraining _ hftq hbacPC hpushes =>
      have hsquash := squashesQueue_of_quiet hquiet hdraining
      refine h.toRecorded.grown hdraining hftq hbacPC hpushes ?_ ?_ ?_
      · exact signalledPC_of_quiet hquiet.commit hquiet.decode
      · exact if_neg (by rw [hsquash]; decide)
      · exact if_neg (by rw [hsquash]; decide)
  exact hfetches.traced hrec hroom

/-! ## Between cycles -/

structure Kept (s t : FetchStage B) : Prop where
  core : t.frontEnd.core = s.frontEnd.core
  pc : t.pc = s.pc
  toBAC : t.toBAC = s.toBAC
  loop : t.loop = s.loop
  fetched : t.fetched = s.fetched
  consumed : t.consumed = s.consumed

lemma Kept.chained (hkept : Kept s t) (hloop : s.loop = none) (h : Chained c s) :
    Chained c t := by
  have hftq : t.frontEnd.ftq = s.frontEnd.ftq := congrArg Core.ftq hkept.core
  refine h.outside (hkept.loop.trans hloop) ?_ ?_ (.inl hkept.consumed)
  · rw [hkept.core]
    exact h.linked
  · rw [hftq]
    exact h.aimed

lemma Kept.traced (hkept : Kept s t) (h : Traced c s)
    (hdrain : s.frontEnd.ftq.targets = [] → s.frontEnd.stalls.drain = true →
      t.frontEnd.stalls.drain = true ∨ s.frontEnd.bacPC.instAddr = s.pc.instAddr) : Traced c t := by
  have hftq : t.frontEnd.ftq = s.frontEnd.ftq := congrArg Core.ftq hkept.core
  have hbacPC : t.frontEnd.bacPC = s.frontEnd.bacPC := congrArg Core.bacPC hkept.core
  refine ⟨⟨?_, ?_⟩, ?_, ?_, ?_⟩
  · rw [hkept.fetched, hkept.consumed, hftq, hkept.pc]
    exact h.trace
  · rw [hftq, hbacPC, hkept.pc]
    intro husable hempty
    rcases h.meet husable hempty with hdraining | hmeet
    · exact hdrain hempty hdraining
    · exact .inr hmeet
  · rw [hkept.loop, hkept.toBAC, hkept.pc]
    exact h.signals
  · rw [hkept.toBAC]
    exact h.delay
  · rw [hkept.loop, hkept.toBAC]
    exact h.room

lemma Kept.meets (hkept : Kept s t) (hloop : s.loop = none) (h : Chained c s) {op : FetchOp B}
    (hdrain : InStep c s op → s.frontEnd.ftq.targets = [] →
      s.frontEnd.stalls.drain = true →
      t.frontEnd.stalls.drain = true ∨ s.frontEnd.bacPC.instAddr = s.pc.instAddr) :
    Meets (.ok t : Except (FetchFault B.Fault) (FetchStage B))
      (fun t => Chained c t ∧ (Traced c s → InStep c s op → Traced c t))
      (fun e => e ≠ .outOfRange) :=
  ⟨hkept.chained hloop h, fun htraced hstep => hkept.traced htraced (hdrain hstep)⟩

/-! ## Runs -/

lemma meets_step_chained (hdec : c.frontEnd.decoupledFrontEnd = true)
    (hfix : FixedSize c.frontEnd) (s : FetchStage B) (op : FetchOp B) (h : Chained c s)
    (hreg : Regular c s op) (hstays : StaysOnTarget c s op) :
    Meets (step c s op) (fun t => Chained c t ∧ (Traced c s → InStep c s op → Traced c t))
      (fun e => e ≠ .outOfRange) := by
  unfold step
  cases hloop : s.loop with
  | some l =>
    cases op with
    | inst =>
      refine meets_fetchInst h hloop hreg hstays ?_
      intro ft hat
      refine (meets_buildInst_chained hdec hfix h hat).mono ?_ (fun _ he => he)
      rintro t ⟨hchained, hbuilt, hin, htoBAC, hbacPC, hdrain⟩
      refine ⟨hchained, ?_⟩
      intro htraced _
      refine ⟨hbuilt.recorded hat h htraced.toRecorded hbacPC, ?_, ?_, ?_⟩
      · intro hnone
        rw [hnone] at hin
        cases hin
      · rw [htoBAC]
        exact htraced.delay
      · intro _
        rw [htoBAC]
        exact htraced.room (by rw [hloop]; rfl)
    | finish =>
      have hfetches := finish_cases (c := c) s l
      refine ⟨hfetches.chained h, ?_⟩
      intro htraced _
      exact hfetches.traced htraced.toRecorded (htraced.room (by rw [hloop]; rfl))
    | _ => rintro ⟨⟩
  | none =>
    cases op with
    | cycle sig answers line =>
      refine (meets_cycle hdec h sig answers line).mono ?_ (fun _ he => he)
      rintro t ⟨frontEnd, hcycled⟩
      exact ⟨hcycled.chained h hloop, fun htraced hstep => hcycled.traced htraced hloop hstep⟩
    | inst | finish => rintro ⟨⟩
    | memoryEvent | pipelineIcacheAccesses =>
      dsimp only [memoryEvent, pipelineIcacheAccesses]
      split
      · refine Kept.meets ?_ hloop h (fun _ _ hdraining => .inl hdraining)
        exact ⟨rfl, rfl, rfl, rfl, rfl, rfl⟩
      · refine Kept.meets ?_ hloop h (fun _ _ hdraining => .inl hdraining)
        exact ⟨rfl, rfl, rfl, rfl, rfl, rfl⟩
    | wakeFromQuiesce =>
      refine Kept.meets ?_ hloop h (fun _ _ hdraining => .inl hdraining)
      exact ⟨rfl, rfl, rfl, hloop.symm, rfl, rfl⟩
    | drainStall =>
      refine Kept.meets ?_ hloop h (fun _ _ _ => .inl rfl)
      exact ⟨rfl, rfl, rfl, hloop.symm, rfl, rfl⟩
    | drainResume =>
      refine Kept.meets ?_ hloop h (fun hstep hempty _ => .inr (hstep hempty))
      exact ⟨rfl, rfl, rfl, hloop.symm, rfl, rfl⟩
    | btbEvent e =>
      have hevent : Meets (s.frontEnd.step c.frontEnd (.btbEvent e)) (fun frontEnd =>
          frontEnd.core = s.frontEnd.core ∧ frontEnd.stalls = s.frontEnd.stalls)
          (fun _ => True) := by
        refine Meets.bind_any ?_
        intro btb
        exact ⟨rfl, rfl⟩
      refine (meets_ofFrontEnd hevent).bind ?_
      rintro frontEnd ⟨hcore, hstalls⟩
      refine Kept.meets ?_ hloop h ?_
      · exact ⟨hcore, rfl, rfl, hloop.symm, rfl, rfl⟩
      · intro _ _ hdraining
        dsimp only
        rw [hstalls]
        exact .inl hdraining

/-- The assertion of the loop never fails, and each target popped is left for the start of the next
one. If the stages restart in step, the instructions fetched since the queue was last squashed are
those of the targets consumed, in order, and the first ones of the head. -/
theorem fetch_follows_targets (hdec : c.frontEnd.decoupledFrontEnd = true)
    (hfix : FixedSize c.frontEnd) {btb : B.State} {pc : PCState} {ops : List (FetchOp B)}
    (hreg : Along (step c) (Regular c) (init c btb pc) ops)
    (hstays : Along (step c) (StaysOnTarget c) (init c btb pc) ops) :
    run (step c) (init c btb pc) ops ≠ .error .outOfRange ∧
    ∀ s, run (step c) (init c btb pc) ops = .ok s →
      (∀ e ∈ s.consumed, ∀ next, e.next = some next → e.pc.instAddr = next.startAddress) ∧
      (Along (step c) (InStep c) (init c btb pc) ops → ∃ rest,
        s.fetched = s.consumed.flatMap (fun e => e.target.range c.frontEnd.minInstSize) ++ rest ∧
        (s.frontEnd.ftq.status = .valid → match s.frontEnd.ftq.targets.head? with
          | none => rest = []
          | some ft => rest <+: ft.range c.frontEnd.minInstSize)) := by
  have hasked := hreg.and hstays
  have hkeep : ∀ (s : FetchStage B) (op : FetchOp B), Chained c s → Regular c s op ∧
    StaysOnTarget c s op →
      Meets (step c s op) (fun t => Chained c t ∧ (Traced c s → InStep c s op → Traced c t))
        (fun e => e ≠ .outOfRange) :=
    fun s op h hop => meets_step_chained hdec hfix s op h hop.1 hop.2
  have hrun : Meets (run (step c) (init c btb pc) ops) (Chained c) (fun e => e ≠ .outOfRange) :=
    meets_run (Chained c) (fun s op h hop => (hkeep s op h hop).mono (fun _ ht => ht.1)
      (fun _ he => he)) (chained_init btb pc) hasked
  refine ⟨fun hfault => hrun.of_error hfault rfl, ?_⟩
  intro s hs
  refine ⟨(hrun.of_ok hs).chain, ?_⟩
  intro hstep
  have htraced : Chained c s ∧ Traced c s := by
    refine run_invariant_state (fun s => Chained c s ∧ Traced c s) ?_
      ⟨chained_init btb pc, traced_init btb pc⟩ (hasked.and hstep) hs
    rintro s op t ⟨hchained, htraced⟩ ⟨hop, hin⟩ ht
    obtain ⟨hchained', htraced'⟩ := (hkeep s op hchained hop).of_ok ht
    exact ⟨hchained', htraced' htraced hin⟩
  obtain ⟨rest, hrest, hprogress⟩ := htraced.2.trace
  refine ⟨rest, hrest, ?_⟩
  intro hvalid
  have husable : s.frontEnd.ftq.usable := by
    unfold FTQ.usable
    rw [hvalid]
    decide
  have hhead := hprogress husable
  revert hhead
  cases s.frontEnd.ftq.targets.head? with
  | none => exact id
  | some => exact fun h => h.2

/-! ## A small fetch stage -/

def twoPerTarget : FetchParams where
  frontEnd := { FrontEndParams.small 4 with
    advancePC := fun inst pc =>
      if inst.notLast then pc else .ofAddr (pc.instAddr + BitVec.ofNat 64 inst.size) }
  fetchToBacDelay := 1

lemma fixedSize_twoPerTarget : FixedSize twoPerTarget.frontEnd := by
  constructor
  · intro inst pc hsize
    change (if inst.notLast then
      pc else .ofAddr (pc.instAddr + BitVec.ofNat 64 inst.size)).instAddr =
      _
    rw [hsize]
    split <;> rfl
  · decide

instance (s : FetchStage B) : (op : FetchOp B) → Decidable (Regular c s op)
  | .inst _ => inferInstanceAs (Decidable (_ ∧ _ ∧ _))
  | .cycle .. => .isTrue trivial
  | .finish => .isTrue trivial
  | .memoryEvent _ => .isTrue trivial
  | .pipelineIcacheAccesses _ => .isTrue trivial
  | .wakeFromQuiesce => .isTrue trivial
  | .drainStall => .isTrue trivial
  | .drainResume => .isTrue trivial
  | .btbEvent _ => .isTrue trivial

instance (s : FetchStage B) : (op : FetchOp B) → Decidable (StaysOnTarget c s op)
  | .inst _ => inferInstanceAs (Decidable (_ ∧ _ ∧ _))
  | .cycle .. => .isTrue trivial
  | .finish => .isTrue trivial
  | .memoryEvent _ => .isTrue trivial
  | .pipelineIcacheAccesses _ => .isTrue trivial
  | .wakeFromQuiesce => .isTrue trivial
  | .drainStall => .isTrue trivial
  | .drainResume => .isTrue trivial
  | .btbEvent _ => .isTrue trivial

def plainInst : FetchedInst :=
  ⟨⟨0, false, false, false, false, false, false, false, false, false, 4⟩, false, false, false,
    .notTaken⟩

/-- A cycle without signals that fetches some instructions, none of them a branch. -/
def plainCycle (count : Nat) : List (FetchOp B) :=
  .cycle ⟨none, 0, false, none⟩ (fun _ => .notTaken) none :: List.replicate count (.inst plainInst)

def smallStage (start : Addr) : FetchStage (multiLevelBTB .small) :=
  init twoPerTarget (State.init .small ⟨false, false⟩) (.ofAddr start)

/-- Three instructions, the last one in the second target. -/
theorem fetch_follows_targets_small :
    ∃ s, run (step twoPerTarget) (smallStage 0) (plainCycle 3) = .ok s ∧
      s.fetched = [0, 4, 8] ∧ s.consumed.map (fun e => e.target.range 4) = [[0, 4]] ∧
      ∀ e ∈ s.consumed, ∀ next, e.next = some next → e.pc.instAddr = next.startAddress := by
  obtain ⟨s, hs, hrecord⟩ := exists_of_holdsAt
    (run (step twoPerTarget) (smallStage 0) (plainCycle 3))
    (fun s => decide (s.fetched = [0, 4, 8] ∧
      s.consumed.map (fun e => e.target.range 4) = [[0, 4]])) (by decide +kernel)
  obtain ⟨hfetched, hconsumed⟩ := of_decide_eq_true hrecord
  have hreg : Along (step twoPerTarget) (Regular twoPerTarget) (smallStage 0) (plainCycle 3) :=
    along_of_test (Regular twoPerTarget) (by decide +kernel)
  have hstays : Along (step twoPerTarget) (StaysOnTarget twoPerTarget) (smallStage 0)
      (plainCycle 3) := along_of_test (StaysOnTarget twoPerTarget) (by decide +kernel)
  refine ⟨s, hs, hfetched, hconsumed, ?_⟩
  exact ((fetch_follows_targets rfl fixedSize_twoPerTarget hreg hstays).2 s hs).1

def stopsOutOfRange {φ α : Type} : Except (FetchFault φ) α → Bool
  | .error .outOfRange => true
  | _ => false

lemma eq_error_of_stopsOutOfRange {φ α : Type} {x : Except (FetchFault φ) α}
    (h : stopsOutOfRange x = true) : x = .error .outOfRange := by
  unfold stopsOutOfRange at h
  split at h
  · rfl
  · cases h

/-- The second target begins in the last word of the address space and ends in the first one, and
does not contain its own start: the assertion fails. -/
theorem wrapped_target_out_of_range :
    FixedSize twoPerTarget.frontEnd ∧
    Along (step twoPerTarget) (Regular twoPerTarget) (smallStage (-12)) (plainCycle 3) ∧
    run (step twoPerTarget) (smallStage (-12)) (plainCycle 3) = .error .outOfRange := by
  refine ⟨fixedSize_twoPerTarget, along_of_test (Regular twoPerTarget) (by decide +kernel), ?_⟩
  exact eq_error_of_stopsOutOfRange (by decide +kernel)

end FetchStage

end BTBFerret
