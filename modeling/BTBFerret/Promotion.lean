import BTBFerret.BitRetention

/-!
# What a lookup installs in L1

A lookup that misses L1 moves the entry of its branch there, through three handlers with three ways
to copy. Those for the buffer and for L2 write the prefetch bits after the copy; the one for L3 does
not, so it keeps the bits that promotions should clear. A buffer copy of an L2 entry is promoted to
the L1 entry that L2 would have given.
-/

namespace BTBFerret

open AssociativeCache FallibleRuns Option

structure Payload where
  branchAddr : Addr
  target : Option PCState
  inst : Option StaticInst
  dir : SatCounter
  prefetchTarget : Bool
  prefetchThrough : Bool

def BTBEntry.payload (e : BTBEntry) : Payload :=
  ⟨e.branchAddr, e.target, e.inst, e.dir, e.prefetchTarget, e.prefetchThrough⟩

def Payload.promoted (p : Params) (x : Payload) : Payload :=
  if p.cleanBitsOnL1Promotion then { x with prefetchTarget := false, prefetchThrough := false }
  else x

namespace State

variable {p : Params} {U : Set Addr} {tid : ThreadID} {s s' : State p}

lemma payload_promoted (hit e : BTBEntry) :
    (promoted p hit e).payload = hit.payload.promoted p := by
  unfold promoted promoteBits Payload.promoted
  split <;> rfl

lemma payload_migrated (snapshot e : BTBEntry) :
    (migrated p snapshot e).payload = snapshot.payload.promoted p := by
  unfold migrated promoteBits Payload.promoted
  split <;> rfl

/-- The freed way is what L1 then finds for a branch that it did not have. -/
lemma Filled.installed {T : ThreadID → Prop} {u : State p} {k : Addr} {f : BTBEntry → BTBEntry}
    (h : Filled T s u tid k f) (hmiss : s.l1btb.findEntry ⟨k, tid⟩ = none)
    (hf : ∀ e : BTBEntry, (f e).valid = e.valid ∧ (f e).tag = e.tag) :
    ∃ l, u.l1btb.findEntry ⟨k, tid⟩ = some l ∧ u.l1btb.get l = f (s.l1btb.openFor ⟨k, tid⟩) := by
  obtain ⟨l, hl⟩ := ne_none_iff_exists'.mp (h.finds hf)
  refine ⟨l, hl, ?_⟩
  obtain ⟨hset, hmatch⟩ := Cache.findEntry_some hl
  rw [h.l1btb] at hmatch ⊢
  split
  · rfl
  · rename_i hother
    -- no other way had an entry of the branch before
    rw [if_neg hother, Cache.findEntry_none_iff.mp hmiss l hset] at hmatch
    cases hmatch

section

variable {instPC : Addr} {type : BranchType} {taken : Bool} {blockStartAddr : Addr}
  {basePrediction : Bool} {r : BTBLookupResult}

lemma lookup_installs (hmiss : s.l1btb.findEntry ⟨instPC, tid⟩ = none)
    (h : s.lookupWithLatency tid instPC type taken blockStartAddr basePrediction = .ok (s', r)) :
    ∃ t, Searching AnyThread s t ∧ ∃ v src f, Served t ⟨instPC, tid⟩ v src f ∧
      ∃ l, s'.l1btb.findEntry ⟨instPC, tid⟩ = some l ∧
        ∃ e : BTBEntry, e.prefetchThrough = false ∧ s'.l1btb.get l = f e := by
  cases (lookup_any _ _ _ _ _ _ _).of_ok h with
  | hit _ _ _ found => cases hmiss.symm.trans found
  | miss t search _ _ v src f served brings =>
    obtain ⟨u, hfilled, _, hpre⟩ := brings
    have hvmiss : v.l1btb.findEntry ⟨instPC, tid⟩ = none := by
      rw [served.eq_freeing, l1btb_freeing, findEntry_of_lines search.l1btb.lines]
      exact hmiss
    obtain ⟨l, hl, hget⟩ := hfilled.installed hvmiss served.keeps_key
    have h1 : s'.l1btb = u.l1btb := hpre.prefetched.levels.1
    rw [h1]
    exact ⟨t, search, v, src, f, served, l, hl, _, openFor_through_of_miss hvmiss, hget⟩

/-! ## Clean bits -/

def CleanFromL3 (s : State p) (key : KeyType) : Prop :=
  (p.probesPBuffer = true → s.pBuffer.findEntry key = none) → s.l2btb.findEntry key = none →
    ∀ l, s.l3btb.findEntry key = some l →
      (s.l3btb.get l).prefetchTarget = false ∧ (s.l3btb.get l).prefetchThrough = false

lemma Served.bits_clear_iff {t v : State p} {key : KeyType} {src e : BTBEntry}
    {f : BTBEntry → BTBEntry} (h : Served t key v src f)
    (hclean : p.cleanBitsOnL1Promotion = true) (he : e.prefetchThrough = false) :
    (f e).prefetchTarget = false ∧ (f e).prefetchThrough = false ↔ CleanFromL3 t key := by
  cases h with
  | buffer _ probes found =>
    unfold promoted promoteBits
    rw [if_pos hclean]
    exact iff_of_true ⟨rfl, rfl⟩ fun skip => nomatch found.symm.trans (skip probes)
  | l2 _ _ found =>
    unfold migrated promoteBits
    rw [if_pos hclean]
    exact iff_of_true ⟨rfl, rfl⟩ fun _ miss => nomatch found.symm.trans miss
  | l3 l skip miss _ found =>
    -- the copy is all that happens: the bits are those of the L3 entry
    have hthrough : (e.updateFrom (t.l3btb.get l)).prefetchThrough =
        (t.l3btb.get l).prefetchThrough := by
      change (e.prefetchThrough || _) = _
      rw [he, Bool.false_or]
    rw [hthrough]
    constructor
    · intro hbits _ _ l' found'
      obtain rfl := some.inj (found.symm.trans found')
      exact hbits
    · exact fun hclear => hclear skip miss l found

/-- With `cleanBitsOnL1Promotion` a lookup that misses L1 installs an entry without prefetch
bits exactly if it is not served by an L3 copy that has one. -/
theorem promotion_clears_bits (hclean : p.cleanBitsOnL1Promotion = true)
    (hmiss : s.l1btb.findEntry ⟨instPC, tid⟩ = none)
    (h : s.lookupWithLatency tid instPC type taken blockStartAddr basePrediction = .ok (s', r)) :
    ∃ l, s'.l1btb.findEntry ⟨instPC, tid⟩ = some l ∧
      ((s'.l1btb.get l).prefetchTarget = false ∧ (s'.l1btb.get l).prefetchThrough = false ↔
        CleanFromL3 s ⟨instPC, tid⟩) := by
  obtain ⟨_, hsearch, _, _, _, hserved, l, hl, _, he, hget⟩ := lookup_installs hmiss h
  refine ⟨l, hl, ?_⟩
  rw [hget, hserved.bits_clear_iff hclean he]
  unfold CleanFromL3
  rw [hsearch.pBuffer, hsearch.l2btb, hsearch.l3btb]

def cleaning : Params := { commitTrained with enableL3 := true, cleanBitsOnL1Promotion := true }

/-- Branch 20 falls through, and the L2 copy that it leaves has the bit. -/
theorem promotion_clears_bits_small :
    ∃ s s' : State cleaning, Reached ⟨false, false⟩ fallThroughEvicted s ∧
      throughIn s.l2btb ⟨20, 0⟩ = true ∧ s.step (.predict 20) = .ok s' ∧
      ∃ l, s'.l1btb.findEntry ⟨20, 0⟩ = some l ∧
        (s'.l1btb.get l).prefetchTarget = false ∧ (s'.l1btb.get l).prefetchThrough = false := by
  obtain ⟨s, hs, htest⟩ := exists_of_holdsAt
    (run step (State.init cleaning ⟨false, false⟩) fallThroughEvicted)
    (fun s => throughIn s.l2btb ⟨20, 0⟩ && (s.l1btb.findEntry ⟨20, 0⟩).isNone &&
      holdsAt (s.lookupWithLatency 0 20 .directUncond true 0 true) (fun _ => true))
    (by decide +kernel)
  simp only [Bool.and_eq_true, isNone_iff_eq_none] at htest
  obtain ⟨⟨hbit, hmiss⟩, hreturns⟩ := htest
  obtain ⟨⟨s', r⟩, hr, _⟩ := exists_of_holdsAt _ _ hreturns
  have hl2 : s.l2btb.findEntry ⟨20, 0⟩ ≠ none := by
    intro hnone
    rw [throughIn, hnone] at hbit
    cases hbit
  obtain ⟨l, hl, hclear⟩ := promotion_clears_bits (p := cleaning) rfl hmiss hr
  exact ⟨s, s', hs, hbit, congrArg (Prod.fst <$> ·) hr, l, hl,
    hclear.mpr fun _ hnone => absurd hnone hl2⟩

/-- Branch 20 falls through and goes down to L3. -/
def fallThroughInL3 : List Op :=
  fallThroughEvicted ++ [.resolve 30 100, .wait, .resolve 40 100, .wait]

/-- A lookup that L3 serves brings the bit back to L1. -/
theorem l3_promotion_keeps_bit :
    cleaning.cleanBitsOnL1Promotion = true ∧
    ∃ s s' : State cleaning, Reached ⟨false, false⟩ fallThroughInL3 s ∧
      s.l1btb.findEntry ⟨20, 0⟩ = none ∧ s.step (.predict 20) = .ok s' ∧
      ∃ l, s'.l1btb.findEntry ⟨20, 0⟩ = some l ∧ (s'.l1btb.get l).prefetchThrough = true := by
  refine ⟨rfl, ?_⟩
  obtain ⟨s, hs, htest⟩ := exists_of_holdsAt
    (run step (State.init cleaning ⟨false, false⟩) fallThroughInL3)
    (fun s => (s.l1btb.findEntry ⟨20, 0⟩).isNone &&
      holdsAt (s.step (.predict 20)) (fun s' => throughIn s'.l1btb ⟨20, 0⟩)) (by decide +kernel)
  obtain ⟨hmiss, hlast⟩ := Bool.and_eq_true_iff.mp htest
  obtain ⟨s', hs', hbit⟩ := exists_of_holdsAt _ _ hlast
  obtain ⟨l, hl, hthrough⟩ := (any_eq_true _ _).mp hbit
  exact ⟨s, s', hs, isNone_iff_eq_none.mp hmiss, hs', l, hl, hthrough⟩

/-! ## The buffer copy of an L2 entry -/

def l2Entry (s : State p) (key : KeyType) : Option BTBEntry :=
  (s.l2btb.findEntry key).map s.l2btb.get

def LeavesL2Entry (key : KeyType) (s : State p) (o : Op) : Prop :=
  ∀ s', s.step o = .ok s' → s'.l2Entry key = s.l2Entry key

/-- Between two states a way of the buffer has become an entry of the key. -/
structure EntersBuffer (key : KeyType) (m : Loc p.pBuffer.shape) (s s' : State p) : Prop where
  matched : p.pBuffer.shape.match key (s'.pBuffer.get m) = true
  fresh : s'.pBuffer.get m ≠ s.pBuffer.get m

variable {pc : Addr} {e : BTBEntry} {m : Loc p.pBuffer.shape}

lemma BookStep.copies (hsep : NoCollision p U tid) (hs' : Settled U tid s') (hpc : pc ∈ U)
    (h : BookStep s s') (hset : m.1 = p.pBuffer.shape.extractSet ⟨pc, tid⟩)
    (hnew : EntersBuffer ⟨pc, tid⟩ m s s') (hl2 : s'.l2Entry ⟨pc, tid⟩ = some e) :
    (s'.pBuffer.get m).payload = e.payload := by
  obtain ⟨hv, htag⟩ := (p.pBuffer.shape.match_iff _ _).mp hnew.matched
  obtain ⟨i, _, hsrc, _, hcopy⟩ := (h.entries m hv).resolve_left hnew.fresh
  -- way and tag of the copy tell its branch
  obtain ⟨hmem, hset', htag'⟩ := hs'.keyed.pBuffer m hv
  have hown : (s'.pBuffer.get m).branchAddr = pc :=
    hsep _ (pBuffer_mem_levels p) _ hmem pc hpc (hset'.symm.trans hset) (htag'.symm.trans htag)
  have haddress : i.key.address = pc := by
    rw [hcopy] at hown
    exact hown
  have htid : i.key.tid = tid := by
    change (s'.pBuffer.get m).tag = _ at htag
    rw [hcopy] at htag
    exact congrArg KeyType.tid htag
  have hkey : i.key = ⟨pc, tid⟩ := by rw [← haddress, ← htid]
  obtain ⟨l, hl, hget⟩ := map_eq_some_iff.mp hl2
  rw [hkey] at hsrc
  rcases hsrc with ⟨l', hl', hsrc⟩ | ⟨hnone, _⟩
  · have hsame : i.src = e := by
      rw [hl] at hl'
      cases hl'
      exact hsrc.trans hget
    have hbranch : e.branchAddr = pc := by
      rw [← hget]
      exact (branchAddr_of_found (hsep _ (l2_mem_levels p)) hs'.keyed.l2btb hpc hl).2
    rw [hcopy]
    change Payload.mk i.key.address i.src.target i.src.inst i.src.dir i.src.prefetchTarget
      i.src.prefetchThrough = _
    rw [haddress, hsame, ← hbranch]
    rfl
  · rw [hl] at hnone
    cases hnone

/-- The way holds a copy of the L2 entry or nothing of the branch. -/
structure Copied (U : Set Addr) (tid : ThreadID) (pc : Addr) (m : Loc p.pBuffer.shape)
    (e : BTBEntry) (s : State p) : Prop extends Settled U tid s where
  l2btb : s.l2Entry ⟨pc, tid⟩ = some e
  pBuffer : p.pBuffer.shape.match ⟨pc, tid⟩ (s.pBuffer.get m) = true →
    (s.pBuffer.get m).payload = e.payload

lemma copied_step (hsep : NoCollision p U tid) (hpc : pc ∈ U)
    (hset : m.1 = p.pBuffer.shape.extractSet ⟨pc, tid⟩) (hs : Copied U tid pc m e s) {o : Op}
    (ho : o.Uses U tid) (hleaves : LeavesL2Entry ⟨pc, tid⟩ s o) (h : s.step o = .ok s') :
    Copied U tid pc m e s' := by
  have hs' := step_settled hsep hs.toSettled ho h
  have hl2 : s'.l2Entry ⟨pc, tid⟩ = some e := (hleaves s' h).trans hs.l2btb
  refine ⟨hs', hl2, ?_⟩
  intro hmatch
  by_cases hold : s'.pBuffer.get m = s.pBuffer.get m
  · rw [hold] at hmatch ⊢
    exact hs.pBuffer hmatch
  · exact BookStep.copies hsep hs' hpc (step_books h) hset ⟨hmatch, hold⟩ hl2

lemma lookup_promotes (hmiss : s.l1btb.findEntry ⟨pc, tid⟩ = none)
    (hprobe : p.probesPBuffer = true) (hhit : s.pBuffer.findEntry ⟨pc, tid⟩ = some m)
    (h : s.lookupWithLatency tid pc type taken blockStartAddr basePrediction = .ok (s', r)) :
    ∃ l, s'.l1btb.findEntry ⟨pc, tid⟩ = some l ∧
      (s'.l1btb.get l).payload = (s.pBuffer.get m).payload.promoted p := by
  obtain ⟨t, hsearch, _, _, _, hserved, l, hl, _, _, hget⟩ := lookup_installs hmiss h
  have htbuffer : t.pBuffer.findEntry ⟨pc, tid⟩ = some m := hsearch.pBuffer ▸ hhit
  refine ⟨l, hl, ?_⟩
  cases hserved with
  | buffer _ _ found =>
    rw [htbuffer] at found
    cases found
    rw [hget, payload_promoted, hsearch.pBuffer]
  | l2 _ skip => exact absurd (htbuffer.symm.trans (skip hprobe)) (some_ne_none m)
  | l3 _ skip =>
    exact absurd (htbuffer.symm.trans (skip hprobe)) (some_ne_none m)

lemma lookup_migrates (hmiss : s.l1btb.findEntry ⟨pc, tid⟩ = none)
    (hskip : s.pBuffer.findEntry ⟨pc, tid⟩ = none) (hl2 : s.l2Entry ⟨pc, tid⟩ = some e)
    (h : s.lookupWithLatency tid pc type taken blockStartAddr basePrediction = .ok (s', r)) :
    ∃ l, s'.l1btb.findEntry ⟨pc, tid⟩ = some l ∧
      (s'.l1btb.get l).payload = e.payload.promoted p := by
  obtain ⟨t, hsearch, _, _, _, hserved, l, hl, _, _, hget⟩ := lookup_installs hmiss h
  obtain ⟨k, hk, rfl⟩ := map_eq_some_iff.mp hl2
  have htl2 : t.l2btb.findEntry ⟨pc, tid⟩ = some k := hsearch.l2btb ▸ hk
  refine ⟨l, hl, ?_⟩
  cases hserved with
  | buffer _ _ found =>
    rw [hsearch.pBuffer, hskip] at found
    cases found
  | l2 _ _ found =>
    rw [htl2] at found
    cases found
    rw [hget, payload_migrated, hsearch.l2btb]
  | l3 _ _ miss =>
    rw [htl2] at miss
    cases miss

/-- A prefetch copies the L2 entry of a branch into the buffer. A lookup that hits the copy installs
in L1 what it would have installed without it. -/
theorem buffer_promotion_as_from_l2 (hsep : NoCollision p U tid) (hpc : pc ∈ U)
    {bw : PrevBrInfo} {past after : List Op} {o : Op}
    (huses : ∀ q ∈ past ++ o :: after, q.Uses U tid) {s₀ s₁ : State p}
    (hstart : Reached bw past s₀) (hcopy : s₀.step o = .ok s₁)
    (henters : EntersBuffer ⟨pc, tid⟩ m s₀ s₁) (hl2 : s₁.l2Entry ⟨pc, tid⟩ ≠ none)
    (hleaves : Along step (LeavesL2Entry ⟨pc, tid⟩) s₁ after) (hrun : run step s₁ after = .ok s)
    (hmiss : s.l1btb.findEntry ⟨pc, tid⟩ = none) (hprobe : p.probesPBuffer = true)
    (hhit : s.pBuffer.findEntry ⟨pc, tid⟩ = some m)
    (h : s.lookupWithLatency tid pc type taken blockStartAddr basePrediction = .ok (s', r))
    {pBuffer : BTBCache p.pBuffer} (hwithout : pBuffer.findEntry ⟨pc, tid⟩ = none)
    (pbCompressedTags : BTBCache p.pbCompressedTags) {s'' : State p} {r' : BTBLookupResult}
    (h' : { s with pBuffer, pbCompressedTags }.lookupWithLatency tid pc type taken blockStartAddr
      basePrediction = .ok (s'', r')) :
    ∃ l l', s'.l1btb.findEntry ⟨pc, tid⟩ = some l ∧ s''.l1btb.findEntry ⟨pc, tid⟩ = some l' ∧
      (s'.l1btb.get l).payload = (s''.l1btb.get l').payload := by
  obtain ⟨hset, hmatch⟩ := Cache.findEntry_some hhit
  obtain ⟨e, he⟩ := ne_none_iff_exists'.mp hl2
  have hbefore : Settled U tid s₀ := run_invariant_state (Settled U tid)
    (fun _ _ _ hs ho hstep => step_settled hsep hs ho hstep) (settled_init bw)
    (along_of_mem (fun q hq => huses q (List.mem_append_left _ hq)) _) hstart
  have hafter : ∀ q ∈ o :: after, q.Uses U tid := fun q hq => huses q (List.mem_append_right _ hq)
  have hcopied : Settled U tid s₁ := step_settled hsep hbefore (hafter o List.mem_cons_self) hcopy
  have hfirst : Copied U tid pc m e s₁ := ⟨hcopied, he, fun _ =>
    BookStep.copies hsep hcopied hpc (step_books hcopy) hset henters he⟩
  have hs : Copied U tid pc m e s := run_invariant_state (Copied U tid pc m e)
    (fun _ _ _ hs hc hstep => copied_step hsep hpc hset hs hc.1 hc.2 hstep) hfirst
    ((along_of_mem (fun q hq => hafter q (List.mem_cons_of_mem o hq)) _).and hleaves) hrun
  obtain ⟨l, hl, hpromoted⟩ := lookup_promotes hmiss hprobe hhit h
  obtain ⟨l', hl', hmigrated⟩ := lookup_migrates
    (s := { s with pBuffer, pbCompressedTags }) hmiss hwithout hs.l2btb h'
  refine ⟨l, l', hl, hl', ?_⟩
  rw [hpromoted, hmigrated, hs.pBuffer hmatch]

/-- Branch 20 is copied into the buffer as the successor of branch 10, and looked up after
it has arrived. -/
theorem buffer_promotion_as_from_l2_small :
    ∃ (s s' s'' : State markovOn) (r r' : BTBLookupResult),
      Reached ⟨false, false⟩ (bufferFilled.take 12 ++ [.predict 10, .wait]) s ∧
      s.lookupWithLatency 0 20 .directUncond true 0 true = .ok (s', r) ∧
      { s with pBuffer := s.pBuffer.clear }.lookupWithLatency 0 20 .directUncond true 0 true =
        .ok (s'', r') ∧
      ∃ l l', s'.l1btb.findEntry ⟨20, 0⟩ = some l ∧ s''.l1btb.findEntry ⟨20, 0⟩ = some l' ∧
        (s'.l1btb.get l).payload = (s''.l1btb.get l').payload := by
  obtain ⟨s₀, hs₀, htest⟩ := exists_of_holdsAt
    (run step (State.init markovOn ⟨false, false⟩) (bufferFilled.take 12))
    (fun s₀ => holdsAt (s₀.step (.predict 10)) (fun s₁ => (s₁.l2Entry ⟨20, 0⟩).isSome &&
      holdsAt (s₁.step .wait) (fun s => (s.l1btb.findEntry ⟨20, 0⟩).isNone &&
        (s.pBuffer.findEntry ⟨20, 0⟩).any (fun m =>
          markovOn.pBuffer.shape.match ⟨20, 0⟩ (s₁.pBuffer.get m) && !(s₀.pBuffer.get m).valid) &&
        (s.pBuffer.clear.findEntry ⟨20, 0⟩).isNone &&
        holdsAt (s.lookupWithLatency 0 20 .directUncond true 0 true) (fun _ => true) &&
        holdsAt ({ s with pBuffer := s.pBuffer.clear }.lookupWithLatency 0 20 .directUncond true 0
          true) (fun _ => true)))) (by decide +kernel)
  obtain ⟨s₁, hs₁, htest⟩ := exists_of_holdsAt _ _ htest
  obtain ⟨hl2, htest⟩ := Bool.and_eq_true_iff.mp htest
  obtain ⟨s, hs, htest⟩ := exists_of_holdsAt _ _ htest
  simp only [Bool.and_eq_true, isNone_iff_eq_none] at htest
  obtain ⟨⟨⟨⟨hmiss, hin⟩, hclear⟩, hreturns⟩, hreturns'⟩ := htest
  obtain ⟨m, hm, hway⟩ := (any_eq_true _ _).mp hin
  obtain ⟨hmatch, hinvalid⟩ := Bool.and_eq_true_iff.mp hway
  obtain ⟨⟨s', r⟩, hr, _⟩ := exists_of_holdsAt _ _ hreturns
  obtain ⟨⟨s'', r'⟩, hr', _⟩ := exists_of_holdsAt _ _ hreturns'
  have hvalid := ((markovOn.pBuffer.shape.match_iff _ _).mp hmatch).1
  have henters : EntersBuffer ⟨20, 0⟩ m s₀ s₁ := by
    refine ⟨hmatch, fun hsame => ?_⟩
    rw [hsame] at hvalid
    change (s₀.pBuffer.get m).valid = true at hvalid
    rw [hvalid] at hinvalid
    cases hinvalid
  have hleaves : Along step (LeavesL2Entry ⟨20, 0⟩) s₁ [.wait] := by
    refine ⟨fun t ht => ?_, fun _ _ => trivial⟩
    cases ht
    rfl
  have hrun : run step s₁ [.wait] = .ok s := by
    rw [run, hs]
    rfl
  have hreached : Reached ⟨false, false⟩ (bufferFilled.take 12 ++ [.predict 10, .wait]) s := by
    unfold Reached
    rw [run_append _ hs₀, run, hs₁]
    exact hrun
  refine ⟨s, s', s'', r, r', hreached, hr, hr', ?_⟩
  exact buffer_promotion_as_from_l2 (p := markovOn) (U := Set.univ) (o := .predict 10)
    (noCollision_small rfl _ 0) trivial (uses_univ rfl) hs₀ hs₁ henters
    (isSome_iff_ne_none.mp hl2) hleaves hrun hmiss rfl hm hr hclear
    s.pbCompressedTags hr'

end

end State

end BTBFerret
