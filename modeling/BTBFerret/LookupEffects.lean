import BTBFerret.BufferMoves
import BTBFerret.DemandEffects

/-!
# What a lookup does to the levels

A lookup either hits L1, where it changes no line, or it copies the entry of the level that serves
it into a freed L1 way. Afterwards it may prefetch. `lookup_spec` names the entry served, what
becomes of the books and of the chains, and the faults; the panic is among them only if no level
searched has the branch.
-/

namespace BTBFerret

open ReplacementPolicy AssociativeCache FallibleRuns

namespace State

open Cache

variable {p : Params} {T : ThreadID → Prop} {F : KeyType → Prop} {A : Issue → Prop}

/-- The faults of a lookup that finds its branch. They come from the timing of a
buffer hit and from chasing Markov successors. -/
def LookupFault (p : Params) (fault : Fault) : Prop :=
  (p.probesPBuffer = true ∧ (fault = .cyclesUnderflow ∨ fault = .latePrefetchBucket)) ∨
    (p.limitedMarkov = true ∧ fault = .nullInst)

lemma not_lookupFault_off (hoff : p.probesPBuffer = false) (fault : Fault) :
    ¬ LookupFault p fault := by
  rintro (⟨hprobe, _⟩ | ⟨hmarkov, _⟩)
  · rw [hoff] at hprobe
    cases hprobe
  · simp [Params.probesPBuffer, hmarkov] at hoff

/-- The latency that a hit on a prefetched entry assumes. -/
def totalLatency (p : Params) (fromL3 : Bool) : Cycles :=
  if fromL3 then p.l3Latency else p.l2Latency

/-- Why a hit on a buffer entry on its way faults: the wait exceeds the latency assumed, or the
histogram has no bucket for the cycles covered. -/
inductive TimingFault (s : State p) (e : BTBEntry) : Fault → Prop
  | wait (inFlight : s.isInFlight e = true)
      (long : totalLatency p e.prefetchedFromL3 < e.timestamp - s.curCycle) :
      TimingFault s e .cyclesUnderflow
  | bucket (inFlight : s.isInFlight e = true)
      (large : 5 ≤ totalLatency p e.prefetchedFromL3 - (e.timestamp - s.curCycle)) :
      TimingFault s e .latePrefetchBucket

variable {s t : State p}

variable {fault : Fault}

lemma TimingFault.of_curCycle (h : t.curCycle = s.curCycle) {e : BTBEntry}
    (ht : TimingFault t e fault) : TimingFault s e fault := by
  have hflight : t.isInFlight e = s.isInFlight e := by
    unfold isInFlight
    rw [h]
  cases ht with
  | wait inFlight long => exact .wait (hflight ▸ inFlight) (h ▸ long)
  | bucket inFlight large => exact .bucket (hflight ▸ inFlight) (h ▸ large)

def MarkovFault (p : Params) (fault : Fault) : Prop :=
  p.limitedMarkov = true ∧ fault = .nullInst

def ServingFault (s : State p) (key : KeyType) (fault : Fault) : Prop :=
  (p.probesPBuffer = true ∧ ∃ l, s.pBuffer.findEntry key = some l ∧
    TimingFault s (s.pBuffer.get l) fault) ∨ MarkovFault p fault

variable {key : KeyType}

lemma ServingFault.lookupFault (h : ServingFault s key fault) : LookupFault p fault := by
  rcases h with ⟨hprobe, _, _, htiming⟩ | hmarkov
  · left
    cases htiming with
    | wait => exact ⟨hprobe, .inl rfl⟩
    | bucket => exact ⟨hprobe, .inr rfl⟩
  · exact .inr hmarkov

lemma still_recordBlock (s : State p) (tid : ThreadID) (instPC blockStartAddr targetAddr : Addr) :
    Still T s (s.recordBlock tid instPC blockStartAddr targetAddr) := by
  unfold recordBlock
  split
  · exact ⟨⟨⟨⟨fun _ => rfl, rfl, rfl, rfl, fun _ h => .inl h⟩, rfl, rfl, rfl, rfl⟩, rfl⟩, rfl⟩
  · exact ⟨Calm.refl s, rfl⟩

lemma triggerMarkov_spec (s : State p) (tid : ThreadID) (instPC : Addr)
    (triggeredByPBHit : Bool) (baseLatency : Cycles) (type : BranchType)
    (hs : p.limitedMarkov = true → SuccessorsFrom F tid s) (hA : s.MarkovHit instPC → ∀ i, A i) :
    Meets (s.triggerMarkov tid instPC triggeredByPBHit baseLatency type)
      (fun t => Prefetching A F T s t ∧ t.chains = s.chains) (MarkovFault p) := by
  unfold triggerMarkov
  split
  · rename_i hon
    by_cases hnone : s.markov.findEntry instPC = none
    · unfold prefetchMarkovSuccessor
      rw [hnone]
      exact ⟨(Calm.refl s).prefetching, rfl⟩
    · refine (prefetchMarkovSuccessor_spec
        (T := T) false 1 triggeredByPBHit tid _ s instPC baseLatency type
        (hs hon)).mono ?_ (fun _ h => ⟨hon, h⟩)
      exact fun t ht => ⟨ht.prefetching.mono (fun i _ => hA ⟨hon, hnone⟩ i), ht.chains⟩
  · exact ⟨(Calm.refl s).prefetching, rfl⟩

/-! ## The hit handlers -/

def SoftTrigger (T : ThreadID → Prop) (p : Params) (tid : ThreadID) (instPC : Addr)
    (type : BranchType) (e : BTBEntry) (triggerLoc : TriggerLocation) : Prop :=
  ∀ (u : State p) (taken : Bool) (baseLatency : Cycles) (triggeredByPBHit isL1Miss : Bool),
    Soft T u (u.tryInitialTrigger tid instPC type e.targetAddr e.prefetchTarget e.prefetchThrough
      taken triggerLoc baseLatency triggeredByPBHit isL1Miss)

def TriggeredBy (tid : ThreadID) (instPC : Addr) (type : BranchType) (s s' : State p) : Prop :=
  ∃ (u : State p) (targetAddr : Addr) (doPfTarget doPfThrough taken : Bool)
    (triggerLoc : TriggerLocation) (baseLatency : Cycles) (triggeredByPBHit isL1Miss : Bool),
    u.chains = s.chains ∧ s'.chains = (u.tryInitialTrigger tid instPC type targetAddr doPfTarget
      doPfThrough taken triggerLoc baseLatency triggeredByPBHit isL1Miss).chains

section

variable {tid : ThreadID} {instPC : Addr} {type : BranchType} {s' : State p}

lemma TriggeredBy.before (h : TriggeredBy tid instPC type t s') (ht : t.chains = s.chains) :
    TriggeredBy tid instPC type s s' := by
  obtain ⟨u, a, b, c, d, e, f, g, k, hu, hs'⟩ := h
  exact ⟨u, a, b, c, d, e, f, g, k, hu.trans ht, hs'⟩

lemma TriggeredBy.after (h : TriggeredBy tid instPC type s t) (ht : s'.chains = t.chains) :
    TriggeredBy tid instPC type s s' := by
  obtain ⟨u, a, b, c, d, e, f, g, k, hu, hs'⟩ := h
  exact ⟨u, a, b, c, d, e, f, g, k, hu, ht.trans hs'⟩

lemma SoftTrigger.attempt {e : BTBEntry} {triggerLoc : TriggerLocation}
    (h : SoftTrigger T p tid instPC type e triggerLoc) (u : State p) (taken : Bool)
    (baseLatency : Cycles) (triggeredByPBHit isL1Miss : Bool) :
    Calm T u (u.tryInitialTrigger tid instPC type e.targetAddr e.prefetchTarget e.prefetchThrough
      taken triggerLoc baseLatency triggeredByPBHit isL1Miss) ∧
    ∀ s : State p, u.chains = s.chains → TriggeredBy tid instPC type s (u.tryInitialTrigger tid
      instPC type e.targetAddr e.prefetchTarget e.prefetchThrough taken triggerLoc baseLatency
      triggeredByPBHit isL1Miss) := by
  refine ⟨⟨h u taken baseLatency triggeredByPBHit isL1Miss, ?_⟩, ?_⟩
  · exact (calm_tryInitialTrigger (T := fun _ => True) u trivial _ _ _ _ _ _ _ _ _ _).books
  · exact fun s hs => ⟨u, _, _, _, _, _, _, _, _, hs, rfl⟩

structure SoftTriggers (T : ThreadID → Prop) (s : State p) (tid : ThreadID) (instPC : Addr)
    (type : BranchType) : Prop where
  l1btb : ∀ l, SoftTrigger T p tid instPC type (s.l1btb.get l) .l1Hit
  pBuffer : p.probesPBuffer = true → ∀ l, SoftTrigger T p tid instPC type (s.pBuffer.get l) .pbHit
  l2btb : ∀ l, SoftTrigger T p tid instPC type (s.l2btb.get l) .l2Hit
  l3btb : ∀ l, SoftTrigger T p tid instPC type (s.l3btb.get l) .l3Hit

lemma softTriggers_of_thread (hT : T tid) (s : State p) (instPC : Addr) (type : BranchType) :
    SoftTriggers T s tid instPC type := by
  have htrig : ∀ e triggerLoc, SoftTrigger T p tid instPC type e triggerLoc :=
    fun _ _ u _ _ _ _ => (calm_tryInitialTrigger u hT _ _ _ _ _ _ _ _ _ _).toSoft
  exact ⟨fun _ => htrig _ _, fun _ _ => htrig _ _, fun _ => htrig _ _, fun _ => htrig _ _⟩

end

def reused (e : BTBEntry) : BTBEntry :=
  if e.prefetched then { e with prefetched := false } else { e with fromPBuffer := false }

lemma handleL1Hit_spec (s : State p) (tid : ThreadID) (instPC : Addr) (l : Loc p.l1btb.shape)
    (type : BranchType) (basePrediction : Bool)
    (htrig : SoftTrigger T p tid instPC type (s.l1btb.get l) .l1Hit) :
    Rewritten T s (s.handleL1Hit tid instPC l type basePrediction).1 l reused ∧
      (s.handleL1Hit tid instPC l type basePrediction).1.books =
        s.books.countL1Hit (s.l1btb.get l) ∧
      TriggeredBy tid instPC type s (s.handleL1Hit tid instPC l type basePrediction).1 := by
  unfold handleL1Hit
  dsimp only
  generalize ht : (if (s.l1btb.get l).prefetched then
    (s.count .l1Hits).count (.prefetchHits (s.l1btb.get l).prefetchTriggerType)
    else s.count .l1Hits) = t
  have hcount : Counted (if (s.l1btb.get l).prefetched then
      [.prefetchHits (s.l1btb.get l).prefetchTriggerType] else []) s t := by
    rw [← ht]
    split <;> exact ⟨⟨_, rfl⟩, rfl, rfl⟩
  have hsoft : Soft T s t := hcount.soft
  have hbooks : t.books = s.books.countL1Hit (s.l1btb.get l) := by
    rw [hcount.books, Books.countL1Hit]
    split <;> rfl
  obtain ⟨htry, htrigger⟩ :=
    htrig.attempt { t with l1btb := t.l1btb.set l (reused (s.l1btb.get l)) }
    basePrediction 0 true false
  refine ⟨⟨hsoft.toRest.trans ?_, ?_, htry.pBuffer.trans hsoft.pBuffer,
    htry.l2btb.trans hsoft.l2btb, htry.l3btb.trans hsoft.l3btb⟩, htry.books.trans hbooks,
    htrigger s hcount.chains⟩
  · exact ⟨htry.markov, htry.bbMap, htry.curTick, htry.curCycle, htry.queue⟩
  · intro l'
    have hl1 := congrArg (fun C => get C l') htry.l1btb
    refine hl1.trans ?_
    rw [get_set, hsoft.l1btb]

variable {tid : ThreadID}

lemma prefetchTiming_spec (s : State p) (e : BTBEntry) :
    Meets (s.prefetchTiming e)
      (fun r => s.isInFlight e = true →
        r.2 = totalLatency p e.prefetchedFromL3 - (e.timestamp - s.curCycle))
      (TimingFault s e) := by
  unfold prefetchTiming
  split
  · rename_i hflight
    dsimp only
    rw [← totalLatency]
    by_cases hlong : e.timestamp - s.curCycle ≤ totalLatency p e.prefetchedFromL3
    · rw [if_pos hlong]
      exact fun _ => rfl
    · rw [if_neg hlong]
      exact TimingFault.wait hflight (Nat.lt_of_not_le hlong)
  · rename_i hflight
    exact fun h => absurd h hflight

lemma countPrefetchHit_spec (s : State p) (e : BTBEntry) (coveredCycle : Cycles) :
    Meets (s.countPrefetchHit e coveredCycle) (Counted [.prefetchHits e.prefetchTriggerType] s)
      (fun fault => fault = .latePrefetchBucket ∧ s.isInFlight e = true ∧ 5 ≤ coveredCycle) := by
  unfold countPrefetchHit
  dsimp only
  generalize ht : (if p.usesPrefetchBitPolicy then
    if e.takenPrefetched then (s.count (.prefetchHits e.prefetchTriggerType)).count
      (.prefetchHitsFromTaken e.prefetchTriggerType)
    else (s.count (.prefetchHits e.prefetchTriggerType)).count
      (.prefetchHitsFromNotTaken e.prefetchTriggerType)
    else s.count (.prefetchHits e.prefetchTriggerType)) = t
  have hcount : Counted [.prefetchHits e.prefetchTriggerType] s t := by
    rw [← ht]
    split
    · split <;> exact ⟨⟨_, rfl⟩, rfl, rfl⟩
    · exact ⟨⟨_, rfl⟩, rfl, rfl⟩
  have hflight : t.isInFlight e = s.isInFlight e := by
    unfold isInFlight
    rw [(hcount.soft (T := fun _ => True)).curCycle]
  rw [hflight]
  by_cases hsmall : (if s.isInFlight e then coveredCycle else 4) < 5
  · rw [if_pos hsmall]
    refine hcount.trans (counted_count t _ ?_ ?_) <;> split <;> rfl
  · rw [if_neg hsmall]
    -- bucket 4 exists, so the entry is in flight
    cases hin : s.isInFlight e with
    | true =>
      rw [hin] at hsmall
      exact ⟨rfl, rfl, Nat.le_of_not_lt hsmall⟩
    | false =>
      rw [hin] at hsmall
      exact absurd (show (4 : Nat) < 5 by decide) hsmall

lemma consumePrefetch_spec (s : State p) (l : Loc p.pBuffer.shape) (coveredCycle : Cycles) :
    Meets (s.consumePrefetch l coveredCycle)
      (fun t => Soft T { s with pBuffer := t.pBuffer } t ∧ t.chains = s.chains ∧
        t.books = { s.books with
          pBuffer := s.pBuffer.modify l BTBEntry.used
          accounts := if (s.pBuffer.get l).prefetched then
            .prefetchHits (s.pBuffer.get l).prefetchTriggerType :: s.books.accounts
            else s.books.accounts })
      (fun fault => fault = .latePrefetchBucket ∧ s.isInFlight (s.pBuffer.get l) = true ∧
        5 ≤ coveredCycle) := by
  unfold consumePrefetch
  dsimp only
  cases hp : (s.pBuffer.get l).prefetched with
  | false =>
    have hsame : s.pBuffer.modify l BTBEntry.used = s.pBuffer := by
      have hused : (s.pBuffer.get l).used = s.pBuffer.get l := by
        rw [BTBEntry.used, hp]
        rfl
      unfold Cache.modify
      rw [hused]
      exact modify_id s.pBuffer l
    simp only [Bool.false_eq_true, if_false, hsame]
    exact ⟨Soft.refl s, rfl, rfl⟩
  | true =>
    simp only [if_true]
    refine (countPrefetchHit_spec s _ coveredCycle).bind ?_
    intro t hcount
    obtain ⟨stats, rfl⟩ := hcount.state
    refine ⟨soft_others _ _ _ _ _ _ _ _, rfl, ?_⟩
    have hused : (s.pBuffer.get l).used = { s.pBuffer.get l with
        prefetched := false, takenPrefetched := false, triggeredByPBHit := false } := by
      rw [BTBEntry.used, hp]
      rfl
    unfold Cache.modify
    rw [hused]
    exact congrArg (Books.mk _ _) hcount.accounts

/-- What a promotion makes of the freed L1 way. -/
def promoted (p : Params) (hit e : BTBEntry) : BTBEntry :=
  promoteBits p hit { e.updateFrom hit with predTaken := hit.predTaken, prefetched := false }

variable {u : State p} {instPC : Addr}

lemma Filled.installPromoted {hit : BTBEntry}
    (h : Filled T s u tid instPC (fun e => e.updateFrom hit)) :
    Filled T s (u.installPromoted (s.l1btb.slotFor ⟨instPC, tid⟩) hit) tid instPC
      (promoted p hit) :=
  h.modify (g := fun e =>
    promoteBits p hit { e with predTaken := hit.predTaken, prefetched := false })
    ⟨fun _ => rfl, rfl, rfl, rfl, fun _ h => .inl h⟩ (fun _ => rfl) rfl rfl

variable {s' : State p} {f : BTBEntry → BTBEntry}

lemma Filled.of_pBuffer {b : BTBCache p.pBuffer}
    (h : Filled T { s with pBuffer := b } s' tid instPC f) : Filled T s s' tid instPC f :=
  ⟨⟨h.markov, h.bbMap, h.curTick, h.curCycle, h.queue⟩, h.l1btb, h.l2btb, h.l3btb⟩

lemma Rest.successorsFrom (h : Rest T s t) (hs : SuccessorsFrom F tid s) :
    SuccessorsFrom F tid t := by
  intro l a ha
  rw [h.markov l] at ha
  exact hs l a ha

lemma dropFromPBuffer_spec (s : State p) (tid : ThreadID) (instPC : Addr)
    (l : Loc p.pBuffer.shape) {b : Books p} {now : Tick}
    (hb : s.books = { b with
      pBuffer := Cache.modify (b.pBuffer.accessEntry now l) l BTBEntry.used
      accounts := (b.take now ⟨instPC, tid⟩ l).accounts }) :
    ∃ s', s.dropFromPBuffer tid instPC l = .ok s' ∧
      Soft T { s with pBuffer := s.pBuffer.invalidate l } s' ∧ s'.chains = s.chains ∧
      s'.books = b.take now ⟨instPC, tid⟩ l := by
  refine ⟨_, pbCompressedTagSync_invalidate _ instPC tid, soft_others _ _ _ _ _ _ _ _, rfl, ?_⟩
  have hpb : s.pBuffer = _ := congrArg Books.pBuffer hb
  have htags : s.pbCompressedTags = b.pbCompressedTags := congrArg Books.pbCompressedTags hb
  have hacc : s.stats.filter Stat.isAccount = _ := congrArg Books.accounts hb
  unfold books
  dsimp only
  rw [hpb, htags, hacc]
  rfl

lemma Filled.target {x : Option PCState} (h : Filled T s u tid instPC f)
    (hf : ∀ e, (f e).target = x) (hs : s'.l1btb = u.l1btb) :
    (s'.l1btb.get (s.l1btb.slotFor ⟨instPC, tid⟩)).target = x := by
  rw [hs, h.l1btb, if_pos rfl, hf]

lemma promoted_line (hit e : BTBEntry) :
    (promoted p hit e).line = ⟨e.valid, e.tag, hit.branchAddr, hit.target, hit.inst⟩ := by
  unfold promoted promoteBits
  split <;> rfl

/-- The L1 way freed in `v` is rewritten by `f`, with the books `b`, and then only prefetches
happen. -/
def Brings (A : Issue → Prop) (F : KeyType → Prop) (T : ThreadID → Prop) (v : State p)
    (tid : ThreadID) (instPC : Addr) (f : BTBEntry → BTBEntry) (b : Books p) (s' : State p) :
    Prop :=
  ∃ u, Filled T v u tid instPC f ∧ u.books = b ∧ Prefetching A F T u s'

lemma Brings.of_soft {b : Books p} (hs : Soft T s t) (h : Brings A F T t tid instPC f b s') :
    Brings A F T s tid instPC f b s' := by
  obtain ⟨u, hfill, hrest⟩ := h
  exact ⟨u, Filled.of_soft hs hfill, hrest⟩

lemma handlePBufferHit_spec (s : State p) (tid : ThreadID) (instPC : Addr)
    (l : Loc p.pBuffer.shape) (type : BranchType) (basePrediction : Bool) (b : Books p) (now : Tick)
    (hb : s.books = { b with pBuffer := b.pBuffer.accessEntry now l })
    (hmiss : s.l1btb.findEntry ⟨instPC, tid⟩ = none)
    (hs : p.limitedMarkov = true → SuccessorsFrom F tid s) (hA : s.MarkovHit instPC → ∀ i, A i)
    (htrig : SoftTrigger T p tid instPC type (s.pBuffer.get l) .pbHit) :
    Meets (s.handlePBufferHit tid instPC l type basePrediction)
      (fun r => Brings A F T s tid instPC (promoted p (s.pBuffer.get l))
          (b.take now ⟨instPC, tid⟩ l) r.1 ∧ r.2.target = (s.pBuffer.get l).target ∧
        TriggeredBy tid instPC type s r.1)
      (fun fault => TimingFault s (s.pBuffer.get l) fault ∨ MarkovFault p fault) := by
  unfold handlePBufferHit
  dsimp only
  refine ((prefetchTiming_spec s (s.pBuffer.get l)).mono (fun _ h => h) (fun _ h => .inl h)).bind ?_
  rintro ⟨remainingTime, coveredCycle⟩ hcovered
  refine ((consumePrefetch_spec (T := T) s l coveredCycle).mono (fun _ h => h) ?_).bind ?_
  · rintro _ ⟨rfl, hflight, hlarge⟩
    have hcycles : coveredCycle = _ := hcovered hflight
    exact .inl (.bucket hflight (hcycles ▸ hlarge))
  rintro t ⟨hconsume, htchains, htbooks⟩
  obtain ⟨u, hu, hfill, hfilled⟩ := fillL1_spec (T := T) t tid instPC (s.pBuffer.get l)
    (by rw [hconsume.l1btb]; exact hmiss)
  refine Meets.bind_of_ok hu ?_
  dsimp only
  -- the copy is completed and counted, then the trigger is tried
  have hcopy := hfill.installPromoted
  have hcall := counted_countCallFallThrough
    (u.installPromoted (t.l1btb.slotFor ⟨instPC, tid⟩) (s.pBuffer.get l)) tid instPC type
  have hkept := hfilled.trans ((aside_installPromoted u _ (s.pBuffer.get l)).trans hcall.aside)
  generalize (u.installPromoted (t.l1btb.slotFor ⟨instPC, tid⟩)
    (s.pBuffer.get l)).countCallFallThrough tid instPC type = u1 at hcall hkept ⊢
  obtain ⟨htry, htrigger⟩ := htrig.attempt u1 basePrediction remainingTime
    (!u1.isInFlight (s.pBuffer.get l) || decide (0 < coveredCycle)) true
  generalize u1.tryInitialTrigger tid instPC type _ _ _ _ _ _ _ _ = u2 at htry htrigger ⊢
  have hsoft := hcall.soft.trans htry.toSoft
  have hused : u2.books = { b with
      pBuffer := Cache.modify (b.pBuffer.accessEntry now l) l BTBEntry.used
      accounts := (b.take now ⟨instPC, tid⟩ l).accounts } := by
    have hsb : s.pBuffer = b.pBuffer.accessEntry now l := congrArg Books.pBuffer hb
    rw [htry.books, hkept.books, htbooks, hb, hsb]
    rfl
  obtain ⟨w, hw, hdrop, hwchains, htaken⟩ := dropFromPBuffer_spec (T := T) u2 tid instPC l hused
  refine Meets.bind_of_ok hw ?_
  have hfilled : Filled T s w tid instPC (promoted p (s.pBuffer.get l)) := by
    refine Filled.of_pBuffer (b := t.pBuffer) (Filled.of_soft hconsume ?_)
    refine hcopy.tail (hsoft.toRest.trans ?_) (hdrop.l1btb.trans hsoft.l1btb)
      (hdrop.l2btb.trans hsoft.l2btb) (hdrop.l3btb.trans hsoft.l3btb)
    exact ⟨hdrop.markov, hdrop.bbMap, hdrop.curTick, hdrop.curCycle, hdrop.queue⟩
  refine ((triggerMarkov_spec (F := F) (T := T) w tid instPC true remainingTime type
    (fun hm => hfilled.successorsFrom (hs hm))
    (fun hhit => hA (hhit.of_get hfilled.markov))).mono (fun _ h => h) (fun _ h => .inr h)).bind ?_
  rintro s' ⟨hpre, hchains⟩
  have hslot : t.l1btb.slotFor ⟨instPC, tid⟩ = s.l1btb.slotFor ⟨instPC, tid⟩ := by
    rw [hconsume.l1btb]
  refine ⟨⟨w, hfilled, htaken, hpre⟩, ?_,
    (htrigger s (hkept.chains.trans htchains)).after (hchains.trans hwchains)⟩
  dsimp only
  rw [hslot]
  exact hfilled.target (fun e => congrArg Line.target (promoted_line _ e)) hpre.prefetched.levels.1

/-- What a migration from L2 makes of the freed L1 way. -/
def migrated (p : Params) (snapshot e : BTBEntry) : BTBEntry :=
  promoteBits p snapshot (e.updateFrom snapshot)

lemma migrated_line (snapshot e : BTBEntry) :
    (migrated p snapshot e).line =
      ⟨e.valid, e.tag, snapshot.branchAddr, snapshot.target, snapshot.inst⟩ := by
  unfold migrated promoteBits
  split <;> rfl

lemma Soft.releaseL2 (h : Soft T s t) (l : Loc p.l2btb.shape) :
    Soft T (s.releaseL2 l) (t.releaseL2 l) := by
  refine ⟨⟨h.markov, h.bbMap, h.curTick, h.curCycle, h.queue⟩, h.l1btb, h.pBuffer, ?_, h.l3btb⟩
  simp only [State.releaseL2, h.l2btb, h.curTick]

lemma Soft.releaseL3 (h : Soft T s t) (l : Loc p.l3btb.shape) :
    Soft T (s.releaseL3 l) (t.releaseL3 l) := by
  refine ⟨⟨h.markov, h.bbMap, h.curTick, h.curCycle, h.queue⟩, h.l1btb, h.pBuffer, h.l2btb, ?_⟩
  simp only [State.releaseL3, h.l3btb, h.curTick]

/-- The L2 entry is copied to L1 after it was touched or dropped. -/
lemma handleL2Hit_spec (s : State p) (tid : ThreadID) (instPC : Addr) (l : Loc p.l2btb.shape)
    (type : BranchType) (taken : Bool) (hmiss : s.l1btb.findEntry ⟨instPC, tid⟩ = none)
    (hs : p.limitedMarkov = true → SuccessorsFrom F tid s) (hA : s.MarkovHit instPC → ∀ i, A i)
    (htrig : SoftTrigger T p tid instPC type (s.l2btb.get l) .l2Hit) :
    Meets (s.handleL2Hit tid instPC l type taken)
      (fun r => Brings A F T (s.releaseL2 l) tid instPC (migrated p (s.l2btb.get l)) s.books r.1 ∧
        r.2.target = (s.l2btb.get l).target ∧ TriggeredBy tid instPC type s r.1)
      (MarkovFault p) := by
  unfold handleL2Hit
  dsimp only
  have hcount := (counted_count s .l1MissL2Hits rfl rfl).trans
    (counted_countCallFallThrough (s.count .l1MissL2Hits) tid instPC type)
  generalize (s.count .l1MissL2Hits).countCallFallThrough tid instPC type = t at hcount ⊢
  have hsoft : Soft T s t := hcount.soft
  rw [hsoft.l2btb]
  have hrelease := hsoft.releaseL2 l
  obtain ⟨u, hu, hfill, hmoved⟩ := fillL1_spec (T := T) (t.releaseL2 l) tid instPC (s.l2btb.get l)
    (by rw [hrelease.l1btb]; exact hmiss)
  refine Meets.bind_of_ok hu ?_
  dsimp only
  have hkept : Aside s u := hcount.aside.trans (hmoved.after rfl rfl)
  have hslot : (t.releaseL2 l).l1btb.slotFor ⟨instPC, tid⟩ =
      (s.releaseL2 l).l1btb.slotFor ⟨instPC, tid⟩ := by rw [hrelease.l1btb]
  have hfilled : Filled T (s.releaseL2 l)
      (u.setPromotedBits ((t.releaseL2 l).l1btb.slotFor ⟨instPC, tid⟩) (s.l2btb.get l)) tid instPC
      (migrated p (s.l2btb.get l)) :=
    Filled.of_soft hrelease (hfill.modify (g := promoteBits p (s.l2btb.get l))
      ⟨fun _ => rfl, rfl, rfl, rfl, fun _ h => .inl h⟩ (fun _ => rfl) rfl rfl)
  refine (triggerMarkov_spec (F := F) (T := T) _ tid instPC false p.l2Latency type
    (fun hm => hfilled.successorsFrom (hs hm))
    (fun hhit => hA (hhit.of_get hfilled.markov))).bind ?_
  rintro w ⟨hpre, hchains⟩
  obtain ⟨htry, htrigger⟩ := htrig.attempt w taken p.l2Latency false true
  refine ⟨⟨_, hfilled, hkept.books, hpre.tail (.inl htry)⟩, ?_,
    htrigger s (hchains.trans hkept.chains)⟩
  dsimp only
  rw [hslot]
  exact hfilled.target (fun e => congrArg Line.target (migrated_line _ e))
    (htry.l1btb.trans hpre.prefetched.levels.1)

/-- The L3 entry is copied to L1 after it was touched or dropped. -/
lemma handleL3Hit_spec (s : State p) (tid : ThreadID) (instPC : Addr) (l : Loc p.l3btb.shape)
    (type : BranchType) (taken : Bool) (hmiss : s.l1btb.findEntry ⟨instPC, tid⟩ = none)
    (htrig : SoftTrigger T p tid instPC type (s.l3btb.get l) .l3Hit) :
    Meets (s.handleL3Hit tid instPC l type taken)
      (fun r => Brings A F T (s.releaseL3 l) tid instPC (fun e => e.updateFrom (s.l3btb.get l))
          s.books r.1 ∧ r.2.target = (s.l3btb.get l).target ∧ TriggeredBy tid instPC type s r.1)
      (fun _ => False) := by
  unfold handleL3Hit
  dsimp only
  have hrelease := (soft_count (T := T) s .l3Hits).releaseL3 l
  obtain ⟨u, hu, hfill, hmoved⟩ := fillL1_spec (T := T) ((s.count .l3Hits).releaseL3 l) tid instPC
    (s.l3btb.get l) hmiss
  refine Meets.bind_of_ok hu ?_
  have hkept : Aside s u := (aside_count s .l3Hits rfl).trans (hmoved.after rfl rfl)
  have hfilled := Filled.of_soft hrelease hfill
  obtain ⟨htry, htrigger⟩ := htrig.attempt u taken p.l3Latency false true
  exact ⟨⟨u, hfilled, hkept.books, htry.prefetching⟩, hfilled.target (fun _ => rfl) htry.l1btb,
    htrigger s hkept.chains⟩

/-! ## The search -/

def BitsAdded (e e' : BTBEntry) : Prop :=
  ∃ target through : Bool, e' = { e with
    prefetchTarget := e.prefetchTarget || target
    prefetchThrough := e.prefetchThrough || through }

lemma BitsAdded.refl (e : BTBEntry) : BitsAdded e e :=
  ⟨false, false, by simp only [Bool.or_false]⟩

lemma beginLookup_bits (s : State p) (tid : ThreadID) (instPC : Addr) (type : BranchType)
    (blockStartAddr : Addr) (l : Loc p.l1btb.shape) :
    BitsAdded (s.l1btb.get l) ((s.beginLookup tid instPC type blockStartAddr).l1btb.get l) := by
  unfold beginLookup trainPrevBlock
  dsimp only
  split
  · split
    · rename_i m _
      have hget : ∀ f : BTBEntry → BTBEntry, (∀ e, BitsAdded e (f e)) →
          BitsAdded (s.l1btb.get l) ((s.l1btb.modify m f).get l) := by
        intro f hf
        rw [get_modify]
        split
        · rename_i he
          rw [he]
          exact hf _
        · exact BitsAdded.refl _
      exact hget _ (fun e => ⟨_, _, rfl⟩)
    · exact BitsAdded.refl _
  · exact BitsAdded.refl _

structure Searching (T : ThreadID → Prop) (s t : State p) : Prop extends Rest T s t where
  l1btb : Agree s.l1btb t.l1btb
  untrained : p.trainBitsOnLookup = false → t.l1btb = s.l1btb
  trained : ∀ l, BitsAdded (s.l1btb.get l) (t.l1btb.get l)
  pBuffer : t.pBuffer = s.pBuffer
  l2btb : t.l2btb = s.l2btb
  l3btb : t.l3btb = s.l3btb

lemma Searching.trans_soft (h : Searching T s t) (hs : Soft T t u) : Searching T s u :=
  ⟨h.toRest.trans hs.toRest, hs.l1btb ▸ h.l1btb, fun ht => hs.l1btb.trans (h.untrained ht),
    fun l => hs.l1btb ▸ h.trained l, hs.pBuffer.trans h.pBuffer, hs.l2btb.trans h.l2btb,
      hs.l3btb.trans h.l3btb⟩

lemma Searching.flag (h : Searching T s t) (l : Loc p.l1btb.shape) :
    (t.l1btb.get l).prefetched = (s.l1btb.get l).prefetched := by
  obtain ⟨_, _, hl⟩ := h.trained l
  rw [hl]

lemma searching_beginLookup (s : State p) (tid : ThreadID) (instPC : Addr) (type : BranchType)
    (blockStartAddr : Addr) :
    Searching T s (s.beginLookup tid instPC type blockStartAddr) := by
  have hbits := beginLookup_bits s tid instPC type blockStartAddr
  have hstart : Searching T s ((s.recordDemandLookup instPC).count (.lookups type)) :=
    ⟨⟨fun _ => rfl, rfl, rfl, rfl, fun _ h => .inl h⟩, Agree.refl _, fun _ => rfl,
      fun _ => BitsAdded.refl _, rfl, rfl, rfl⟩
  revert hbits
  unfold beginLookup trainPrevBlock
  dsimp only
  split
  · rename_i htrain
    split
    · rename_i l _
      intro hbits
      refine ⟨⟨fun _ => rfl, rfl, rfl, rfl, fun _ h => .inl h⟩,
        Agree.modify s.l1btb l (fun _ => rfl), ?_, hbits, rfl, rfl, rfl⟩
      intro hoff
      simp [hoff] at htrain
    · exact fun _ => hstart
  · exact fun _ => hstart

/-! ## Below L1 -/

/-- The entry below L1 that a lookup copies. -/
def source (s : State p) (key : KeyType) : Option BTBEntry :=
  match (if p.probesPBuffer then s.pBuffer.findEntry key else none) with
  | some l => some (s.pBuffer.get l)
  | none =>
    match s.l2btb.findEntry key with
    | some l => some (s.l2btb.get l)
    | none => if p.enableL3 then (s.l3btb.findEntry key).map s.l3btb.get else none

/-- The books after a lookup that missed L1, before it prefetches. -/
def booksAfter (s : State p) (key : KeyType) : Books p :=
  match (if p.probesPBuffer then s.pBuffer.findEntry key else none) with
  | some l => s.books.take s.curTick key l
  | none => s.books

/-- The entry that serves a lookup below L1, the state in which an L1 way is
freed for it, and what is made of the freed way. -/
inductive Served (t : State p) (key : KeyType) :
    State p → BTBEntry → (BTBEntry → BTBEntry) → Prop
  | buffer (l : Loc p.pBuffer.shape) (probes : p.probesPBuffer = true)
      (found : t.pBuffer.findEntry key = some l) :
      Served t key t (t.pBuffer.get l) (promoted p (t.pBuffer.get l))
  | l2 (l : Loc p.l2btb.shape)
      (skip : p.probesPBuffer = true → t.pBuffer.findEntry key = none)
      (found : t.l2btb.findEntry key = some l) :
      Served t key ({ t with l2btb := t.l2btb.accessEntry t.curTick l }.releaseL2 l)
        (t.l2btb.get l) (migrated p (t.l2btb.get l))
  | l3 (l : Loc p.l3btb.shape)
      (skip : p.probesPBuffer = true → t.pBuffer.findEntry key = none)
      (miss : t.l2btb.findEntry key = none) (deep : p.enableL3 = true)
      (found : t.l3btb.findEntry key = some l) :
      Served t key ({ t with l3btb := t.l3btb.accessEntry t.curTick l }.releaseL3 l)
        (t.l3btb.get l) (fun e => e.updateFrom (t.l3btb.get l))

lemma searched_of_skip (hskip : p.probesPBuffer = true → s.pBuffer.findEntry key = none) :
    (if p.probesPBuffer then s.pBuffer.findEntry key else none) = none := by
  split
  · rename_i hp
    exact hskip hp
  · rfl

lemma booksAfter_of_skip (hskip : p.probesPBuffer = true → s.pBuffer.findEntry key = none) :
    s.booksAfter key = s.books := by
  simp only [booksAfter, searched_of_skip hskip]

lemma Served.source {v : State p} {src : BTBEntry} (h : Served s key v src f) :
    s.source key = some src := by
  cases h with
  | buffer _ probes found => simp only [State.source, probes, if_true, found]
  | l2 _ skip found => simp only [State.source, searched_of_skip skip, found]
  | l3 _ skip miss deep found =>
    simp only [State.source, searched_of_skip skip, miss, deep, if_true, found, Option.map_some]

def BelowFault (s : State p) (key : KeyType) (fault : Fault) : Prop :=
  match s.source key with
  | none => fault = .lookupPanic
  | some _ => ServingFault s key fault

lemma Served.belowFault {v : State p} {src : BTBEntry} (h : Served s key v src f)
    (hf : ServingFault s key fault) : BelowFault s key fault := by
  rw [BelowFault, h.source]
  exact hf

def BelowL1 (A : Issue → Prop) (F : KeyType → Prop) (T : ThreadID → Prop) (s : State p)
    (tid : ThreadID) (instPC : Addr) (type : BranchType) (r : State p × BTBLookupResult) : Prop :=
  (∃ v src f, Served s ⟨instPC, tid⟩ v src f ∧
    Brings A F T v tid instPC f (s.booksAfter ⟨instPC, tid⟩) r.1 ∧ r.2.target = src.target) ∧
  TriggeredBy tid instPC type s r.1

section

variable (s : State p) (tid : ThreadID) (instPC : Addr) (type : BranchType) (taken : Bool)
  (blockStartAddr : Addr) (basePrediction : Bool)

lemma lookupBelowL1_pBuffer (hmiss : s.l1btb.findEntry ⟨instPC, tid⟩ = none)
    (hs : p.limitedMarkov = true → SuccessorsFrom F tid s) (hA : s.MarkovHit instPC → ∀ i, A i)
    (htrig : SoftTriggers T s tid instPC type) (hprobe : p.probesPBuffer = true)
    {l : Loc p.pBuffer.shape} (hhit : s.pBuffer.findEntry ⟨instPC, tid⟩ = some l) :
    Meets (s.lookupBelowL1 tid instPC type taken blockStartAddr basePrediction)
      (BelowL1 A F T s tid instPC type) (ServingFault s ⟨instPC, tid⟩) := by
  have haccess := s.pBuffer.accessKey_of_some s.curTick hhit
  have hafter : s.booksAfter ⟨instPC, tid⟩ = s.books.take s.curTick ⟨instPC, tid⟩ l := by
    simp only [booksAfter, hprobe, if_true, hhit]
  unfold lookupBelowL1
  simp only [hprobe, if_true, haccess]
  have hblock := still_recordBlock (T := T)
    { s with pBuffer := s.pBuffer.accessEntry s.curTick l } tid instPC blockStartAddr
    (get (s.pBuffer.accessEntry s.curTick l) l).targetAddr
  generalize State.recordBlock _ tid instPC blockStartAddr _ = t at hblock ⊢
  have hentry : t.pBuffer.get l = s.pBuffer.get l := by
    rw [hblock.pBuffer]
    rfl
  have hspec := handlePBufferHit_spec (A := A) (F := F) (T := T) t tid instPC l type basePrediction
    s.books s.curTick hblock.books (by rw [hblock.l1btb]; exact hmiss)
    (fun hm => hblock.successorsFrom (hs hm)) (fun hhit => hA (hhit.of_get hblock.markov))
    (by rw [hentry]; exact htrig.pBuffer hprobe l)
  rw [hentry] at hspec
  refine hspec.mono ?_ ?_
  · rintro r ⟨⟨u, hfill, hrest⟩, htarget, htrigger⟩
    refine ⟨⟨_, _, _, .buffer l hprobe hhit, ?_, htarget⟩, htrigger.before hblock.chains⟩
    rw [hafter]
    exact ⟨u, Filled.of_pBuffer (Filled.of_soft hblock.toSoft hfill), hrest⟩
  · rintro fault (htiming | hmarkov)
    · have hnow : t.curCycle = s.curCycle := hblock.curCycle
      exact .inl ⟨hprobe, l, hhit, htiming.of_curCycle hnow⟩
    · exact .inr hmarkov

lemma lookupBelowL1_skip
    (hskip : p.probesPBuffer = true → s.pBuffer.findEntry ⟨instPC, tid⟩ = none) :
    (if p.probesPBuffer then s.pBuffer.accessKey s.curTick ⟨instPC, tid⟩ else (none, s.pBuffer)) =
      (none, s.pBuffer) := by
  split
  · rename_i hp
    exact s.pBuffer.accessKey_of_none s.curTick (hskip hp)
  · rfl

lemma lookupBelowL1_l2 (hmiss : s.l1btb.findEntry ⟨instPC, tid⟩ = none)
    (hs : p.limitedMarkov = true → SuccessorsFrom F tid s) (hA : s.MarkovHit instPC → ∀ i, A i)
    (htrig : SoftTriggers T s tid instPC type)
    (hskip : p.probesPBuffer = true → s.pBuffer.findEntry ⟨instPC, tid⟩ = none)
    {l : Loc p.l2btb.shape} (hhit : s.l2btb.findEntry ⟨instPC, tid⟩ = some l) :
    Meets (s.lookupBelowL1 tid instPC type taken blockStartAddr basePrediction)
      (BelowL1 A F T s tid instPC type) (MarkovFault p) := by
  have haccess := s.l2btb.accessKey_of_some s.curTick hhit
  unfold lookupBelowL1
  simp only [lookupBelowL1_skip s tid instPC hskip, haccess]
  have hcount := counted_recordBTBAccess
    { s with l2btb := s.l2btb.accessEntry s.curTick l } .l2 .normalL2Hit
  have hblock := still_recordBlock (T := T) (State.recordBTBAccess
    { s with l2btb := s.l2btb.accessEntry s.curTick l } .l2 .normalL2Hit) tid instPC blockStartAddr
    (get (s.l2btb.accessEntry s.curTick l) l).targetAddr
  generalize State.recordBlock _ tid instPC blockStartAddr _ = t at hblock ⊢
  have hsoft := hcount.soft.trans hblock.toSoft
  have hkept := hcount.aside.trans hblock.aside
  have hentry : t.l2btb.get l = s.l2btb.get l := by
    rw [hsoft.l2btb]
    rfl
  refine (handleL2Hit_spec (A := A) (F := F) (T := T) t tid instPC l type taken
    (by rw [hsoft.l1btb]; exact hmiss) (fun hm => hsoft.successorsFrom (hs hm))
    (fun hhit => hA (hhit.of_get hsoft.markov))
    (by rw [hentry]; exact htrig.l2btb l)).mono ?_ (fun _ h => h)
  rintro r ⟨hbrings, htarget, htrigger⟩
  rw [hentry, hkept.books] at hbrings
  refine ⟨⟨_, _, _, .l2 l hskip hhit, ?_, hentry ▸ htarget⟩, htrigger.before hkept.chains⟩
  rw [booksAfter_of_skip hskip]
  exact hbrings.of_soft (hsoft.releaseL2 l)

lemma lookupBelowL1_l3 (hmiss : s.l1btb.findEntry ⟨instPC, tid⟩ = none)
    (htrig : SoftTriggers T s tid instPC type)
    (hskip : p.probesPBuffer = true → s.pBuffer.findEntry ⟨instPC, tid⟩ = none)
    (hmiss2 : s.l2btb.findEntry ⟨instPC, tid⟩ = none) (hL3 : p.enableL3 = true)
    {l : Loc p.l3btb.shape} (hhit : s.l3btb.findEntry ⟨instPC, tid⟩ = some l) :
    Meets (s.lookupBelowL1 tid instPC type taken blockStartAddr basePrediction)
      (BelowL1 A F T s tid instPC type) (fun _ => False) := by
  have haccess2 := s.l2btb.accessKey_of_none s.curTick hmiss2
  have haccess := s.l3btb.accessKey_of_some s.curTick hhit
  unfold lookupBelowL1
  simp only [lookupBelowL1_skip s tid instPC hskip, haccess2, hL3, if_true, haccess]
  have hblock := still_recordBlock (T := T)
    { s with l3btb := s.l3btb.accessEntry s.curTick l } tid instPC blockStartAddr
    (get (s.l3btb.accessEntry s.curTick l) l).targetAddr
  generalize State.recordBlock _ tid instPC blockStartAddr _ = t at hblock ⊢
  have hentry : t.l3btb.get l = s.l3btb.get l := by
    rw [hblock.l3btb]
    rfl
  refine (handleL3Hit_spec (A := A) (F := F) (T := T) t tid instPC l type taken
    (by rw [hblock.l1btb]; exact hmiss) (by rw [hentry]; exact htrig.l3btb l)).mono ?_
      (fun _ h => h)
  rintro r ⟨hbrings, htarget, htrigger⟩
  rw [hentry, hblock.books] at hbrings
  refine ⟨⟨_, _, _, .l3 l hskip hmiss2 hL3 hhit, ?_, hentry ▸ htarget⟩,
    htrigger.before hblock.chains⟩
  rw [booksAfter_of_skip hskip]
  exact hbrings.of_soft (hblock.releaseL3 l)

lemma lookupBelowL1_none
    (hskip : p.probesPBuffer = true → s.pBuffer.findEntry ⟨instPC, tid⟩ = none)
    (hmiss2 : s.l2btb.findEntry ⟨instPC, tid⟩ = none)
    (hmiss3 : p.enableL3 = true → s.l3btb.findEntry ⟨instPC, tid⟩ = none) :
    s.lookupBelowL1 tid instPC type taken blockStartAddr basePrediction = .error .lookupPanic := by
  have haccess2 := s.l2btb.accessKey_of_none s.curTick hmiss2
  have haccess3 : (if p.enableL3 then s.l3btb.accessKey s.curTick ⟨instPC, tid⟩
      else (none, s.l3btb)) = (none, s.l3btb) := by
    split
    · rename_i hL3
      exact s.l3btb.accessKey_of_none s.curTick (hmiss3 hL3)
    · rfl
  unfold lookupBelowL1
  simp only [lookupBelowL1_skip s tid instPC hskip, haccess2, haccess3]

lemma lookupBelowL1_spec (hmiss : s.l1btb.findEntry ⟨instPC, tid⟩ = none)
    (hs : p.limitedMarkov = true → SuccessorsFrom F tid s) (hA : s.MarkovHit instPC → ∀ i, A i)
    (htrig : SoftTriggers T s tid instPC type) :
    Meets (s.lookupBelowL1 tid instPC type taken blockStartAddr basePrediction)
      (BelowL1 A F T s tid instPC type) (BelowFault s ⟨instPC, tid⟩) := by
  by_cases hbuf : p.probesPBuffer = true ∧ ∃ l, s.pBuffer.findEntry ⟨instPC, tid⟩ = some l
  · obtain ⟨hprobe, l, hl⟩ := hbuf
    exact (lookupBelowL1_pBuffer _ _ _ _ _ _ _ hmiss hs hA htrig hprobe hl).mono (fun _ h => h)
      (fun _ h => (Served.buffer l hprobe hl).belowFault h)
  have hskip : p.probesPBuffer = true → s.pBuffer.findEntry ⟨instPC, tid⟩ = none := fun hp =>
    Option.eq_none_iff_forall_ne_some.mpr (fun l hl => hbuf ⟨hp, l, hl⟩)
  cases hl2 : s.l2btb.findEntry ⟨instPC, tid⟩ with
  | some l =>
    exact (lookupBelowL1_l2 _ _ _ _ _ _ _ hmiss hs hA htrig hskip hl2).mono (fun _ h => h)
      (fun _ h => (Served.l2 l hskip hl2).belowFault (.inr h))
  | none =>
    by_cases hdeep : p.enableL3 = true ∧ ∃ l, s.l3btb.findEntry ⟨instPC, tid⟩ = some l
    · obtain ⟨hL3, l, hl⟩ := hdeep
      exact (lookupBelowL1_l3 _ _ _ _ _ _ _ hmiss htrig hskip hl2 hL3 hl).mono (fun _ h => h)
        (fun _ h => h.elim)
    · have hmiss3 : p.enableL3 = true → s.l3btb.findEntry ⟨instPC, tid⟩ = none := fun hL3 =>
        Option.eq_none_iff_forall_ne_some.mpr (fun l hl => hdeep ⟨hL3, l, hl⟩)
      rw [lookupBelowL1_none _ _ _ _ _ _ _ hskip hl2 hmiss3]
      have hnone : s.source ⟨instPC, tid⟩ = none := by
        simp only [source, searched_of_skip hskip, hl2]
        split
        · rename_i hL3
          rw [hmiss3 hL3]
          rfl
        · rfl
      rw [meets_error, BelowFault, hnone]

end

/-! ## Whole lookups -/

abbrev AnyThread : ThreadID → Prop := fun _ => True

inductive Looked (A : Issue → Prop) (F : KeyType → Prop) (T : ThreadID → Prop) (s : State p)
    (tid : ThreadID) (instPC : Addr) (s' : State p) (target : Option PCState) : Prop
  | hit (t : State p) (search : Searching T s t) (l : Loc p.l1btb.shape)
      (found : s.l1btb.findEntry ⟨instPC, tid⟩ = some l) (rewritten : Rewritten T t s' l reused)
      (books : s'.books = s.books.countL1Hit (t.l1btb.get l))
      (returns : target = (s.l1btb.get l).target)
  | miss (t : State p) (search : Searching T s t) (same : t.books = s.books)
      (missed : s.l1btb.findEntry ⟨instPC, tid⟩ = none) (v : State p) (src : BTBEntry)
      (f : BTBEntry → BTBEntry) (served : Served t ⟨instPC, tid⟩ v src f)
      (brings : Brings A F T v tid instPC f (t.booksAfter ⟨instPC, tid⟩) s')
      (returns : target = src.target)

lemma Searching.source (h : Searching T s t) (key : KeyType) : t.source key = s.source key := by
  simp only [State.source, h.pBuffer, h.l2btb, h.l3btb]

lemma BelowFault.of_searching (h : Searching T s t) (ht : BelowFault t key fault) :
    BelowFault s key fault := by
  unfold BelowFault at ht ⊢
  rw [h.source] at ht
  split
  · rename_i hnone
    simpa only [hnone] using ht
  · rename_i hsome
    simp only [hsome, ServingFault, h.pBuffer] at ht
    refine ht.imp_left ?_
    rintro ⟨hprobe, l, hl, htiming⟩
    exact ⟨hprobe, l, hl, htiming.of_curCycle h.curCycle⟩

section

variable (s : State p) (tid : ThreadID) (instPC : Addr) (type : BranchType) (taken : Bool)
  (blockStartAddr : Addr) (basePrediction : Bool)

lemma lookup_of_hit {l : Loc p.l1btb.shape} (hhit : s.l1btb.findEntry ⟨instPC, tid⟩ = some l)
    (htrig : ∀ t : State p, Searching T s t → SoftTriggers T t tid instPC type) :
    ∃ r, s.lookupWithLatency tid instPC type taken blockStartAddr basePrediction = .ok r ∧
      Looked A F T s tid instPC r.1 r.2.target ∧ TriggeredBy tid instPC type s r.1 := by
  have hbegin := searching_beginLookup (T := T) s tid instPC type blockStartAddr
  have haside := aside_beginLookup s tid instPC type blockStartAddr
  unfold lookupWithLatency
  generalize s.beginLookup tid instPC type blockStartAddr = t at hbegin haside ⊢
  have hhit' : t.l1btb.findEntry ⟨instPC, tid⟩ = some l := by
    rw [findEntry_of_lines hbegin.l1btb.lines, hhit]
  have haccess := t.l1btb.accessKey_of_some t.curTick hhit'
  obtain ⟨u, hu, hsync⟩ := still_l1CompressedTagSync (T := T)
    { t with l1btb := t.l1btb.accessEntry t.curTick l } instPC tid .hit
  have hblock := still_recordBlock (T := T) u tid instPC blockStartAddr (u.l1btb.get l).targetAddr
  have hsame : ∀ l', (u.recordBlock tid instPC blockStartAddr
      (u.l1btb.get l).targetAddr).l1btb.get l' = t.l1btb.get l' := by
    intro l'
    rw [hblock.l1btb, hsync.l1btb, get_accessEntry]
  simp only [haccess, hu, bind, Except.bind]
  generalize u.recordBlock tid instPC blockStartAddr (u.l1btb.get l).targetAddr =
    w at hblock hsame ⊢
  have hkept : Aside s w := haside.trans (Aside.trans (hsync.aside.after rfl rfl) hblock.aside)
  obtain ⟨hrew, hbooks, htrigger⟩ := handleL1Hit_spec (T := T) w tid instPC l type basePrediction
    (by rw [hsame]; exact (htrig t hbegin).l1btb l)
  refine ⟨_, rfl, .hit t hbegin l hhit ⟨?_, ?_, ?_, ?_, ?_⟩ ?_ ?_, htrigger.before hkept.chains⟩
  · refine Rest.trans ?_ (hblock.toRest.trans hrew.toRest)
    exact ⟨hsync.markov, hsync.bbMap, hsync.curTick, hsync.curCycle, hsync.queue⟩
  · intro l'
    rw [hrew.l1btb, hsame, hsame]
  · exact hrew.pBuffer.trans (hblock.pBuffer.trans hsync.pBuffer)
  · exact hrew.l2btb.trans (hblock.l2btb.trans hsync.l2btb)
  · exact hrew.l3btb.trans (hblock.l3btb.trans hsync.l3btb)
  · rw [hbooks, hkept.books, hsame]
  · change (w.l1btb.get l).target = _
    rw [hsame]
    exact congrArg Line.target (congrFun hbegin.l1btb.lines l)

lemma lookup_of_miss (hmiss : s.l1btb.findEntry ⟨instPC, tid⟩ = none) :
    ∃ t, Searching T s t ∧ Aside s t ∧
      s.lookupWithLatency tid instPC type taken blockStartAddr basePrediction =
        t.lookupBelowL1 tid instPC type taken blockStartAddr basePrediction := by
  have hbegin := searching_beginLookup (T := T) s tid instPC type blockStartAddr
  have haside := aside_beginLookup s tid instPC type blockStartAddr
  unfold lookupWithLatency
  generalize s.beginLookup tid instPC type blockStartAddr = t at hbegin haside ⊢
  have hmiss' : t.l1btb.findEntry ⟨instPC, tid⟩ = none := by
    rw [findEntry_of_lines hbegin.l1btb.lines, hmiss]
  have haccess := t.l1btb.accessKey_of_none t.curTick hmiss'
  obtain ⟨u, hu, hsync⟩ := still_l1CompressedTagSync (T := T) { t with l1btb := t.l1btb } instPC tid
    .hit
  refine ⟨u, hbegin.trans_soft hsync.toSoft, haside.trans (hsync.aside.after rfl rfl), ?_⟩
  simp only [haccess, hu, bind, Except.bind]

lemma lookup_spec (hs : p.limitedMarkov = true → SuccessorsFrom F tid s)
    (hA : s.l1btb.findEntry ⟨instPC, tid⟩ = none → s.MarkovHit instPC → ∀ i, A i)
    (htrig : ∀ t : State p, Searching T s t → SoftTriggers T t tid instPC type) :
    Meets (s.lookupWithLatency tid instPC type taken blockStartAddr basePrediction)
      (fun r => Looked A F T s tid instPC r.1 r.2.target ∧ TriggeredBy tid instPC type s r.1)
      (fun fault => s.l1btb.findEntry ⟨instPC, tid⟩ = none ∧ BelowFault s ⟨instPC, tid⟩ fault) := by
  cases hfind : s.l1btb.findEntry ⟨instPC, tid⟩ with
  | some =>
    obtain ⟨r, hr, hlooked⟩ := lookup_of_hit (A := A) (F := F) s tid instPC type taken
      blockStartAddr basePrediction hfind htrig
    rw [hr]
    exact hlooked
  | none =>
    obtain ⟨t, hsearch, haside, hbelow⟩ := lookup_of_miss (T := T) s tid instPC type taken
      blockStartAddr basePrediction hfind
    rw [hbelow]
    refine (lookupBelowL1_spec t tid instPC type taken blockStartAddr basePrediction
      (by rw [findEntry_of_lines hsearch.l1btb.lines, hfind])
      (fun hm => hsearch.successorsFrom (hs hm)) (fun hhit => hA hfind (hhit.of_get hsearch.markov))
      (htrig t hsearch)).mono ?_ ?_
    · rintro r ⟨⟨v, src, f, hserved, hbrings, htarget⟩, htrigger⟩
      exact ⟨.miss t hsearch haside.books hfind v src f hserved hbrings htarget,
        htrigger.before haside.chains⟩
    · exact fun fault hfault => ⟨rfl, hfault.of_searching hsearch⟩

lemma lookup_any :
    Meets (s.lookupWithLatency tid instPC type taken blockStartAddr basePrediction)
      (fun r => Looked (fun _ => True) (fun _ => True) AnyThread s tid instPC r.1 r.2.target)
      (fun fault => s.l1btb.findEntry ⟨instPC, tid⟩ = none ∧ BelowFault s ⟨instPC, tid⟩ fault) :=
  (lookup_spec _ _ _ _ _ _ _ (fun _ _ _ _ => trivial) (fun _ _ _ => trivial)
    (fun t _ => softTriggers_of_thread trivial t instPC type)).mono (fun _ h => h.1) (fun _ h => h)

lemma lookup_of_no_source (hmiss : s.l1btb.findEntry key = none) (hsrc : s.source key = none) :
    s.lookupWithLatency key.tid key.address type taken blockStartAddr basePrediction =
      .error .lookupPanic := by
  have hspec := lookup_any s key.tid key.address type taken blockStartAddr basePrediction
  cases hr : s.lookupWithLatency key.tid key.address type taken blockStartAddr basePrediction with
  | error =>
    obtain ⟨_, hfault⟩ := hspec.of_error hr
    rw [BelowFault, hsrc] at hfault
    rw [hfault]
  | ok =>
    cases hspec.of_ok hr with
    | hit _ _ _ found => cases hmiss.symm.trans found
    | miss _ search _ _ _ _ _ served =>
      cases (hsrc.symm.trans (search.source _).symm).trans served.source

end

end State

end BTBFerret
