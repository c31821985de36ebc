import BTBFerret.PrefetchOff

/-!
# A lookup is served by the entry that `getInst` reads

`valid` and `getInst` probe the prefetch buffer always, a lookup only if some prefetcher is
configured. The two searches agree in every reachable state, because without a prefetcher the buffer
stays empty.
-/

namespace BTBFerret

open AssociativeCache FallibleRuns

namespace State

variable {p : Params}

variable {s : State p}

lemma pBuffer_findEntry_of_invalid (h : ∀ l, (s.pBuffer.get l).valid = false) (key : KeyType) :
    s.pBuffer.findEntry key = none := by
  rw [Cache.findEntry_none_iff]
  intro l _
  rw [Bool.eq_false_iff]
  intro hm
  have hv : (s.pBuffer.get l).valid = true := ((p.pBuffer.shape.match_iff key _).mp hm).1
  rw [h l] at hv
  cases hv

variable {tid : ThreadID} {instPC : Addr}

lemma servingEntry_of_miss
    (hidle : p.probesPBuffer = false → s.pBuffer.findEntry ⟨instPC, tid⟩ = none)
    (hmiss : s.l1btb.findEntry ⟨instPC, tid⟩ = none) :
    s.servingEntry tid instPC = s.source ⟨instPC, tid⟩ := by
  have hbuf : (if p.probesPBuffer then s.pBuffer.findEntry ⟨instPC, tid⟩ else none) =
      s.pBuffer.findEntry ⟨instPC, tid⟩ := by
    split
    · rfl
    · rename_i hoff
      exact (hidle (Bool.eq_false_iff.mpr hoff)).symm
  unfold servingEntry
  split
  · rename_i l hl
    cases hmiss.symm.trans hl
  · rewrite [source, hbuf]
    cases s.pBuffer.findEntry ⟨instPC, tid⟩ with
    | some => rfl
    | none => cases s.l2btb.findEntry ⟨instPC, tid⟩ <;> rfl

lemma servingEntry_of_hit {l : Loc p.l1btb.shape}
    (hhit : s.l1btb.findEntry ⟨instPC, tid⟩ = some l) :
    s.servingEntry tid instPC = some (s.l1btb.get l) := by
  simp only [servingEntry, hhit]

lemma valid_iff_servingEntry (s : State p) (tid : ThreadID) (instPC : Addr) :
    s.valid tid instPC = (s.servingEntry tid instPC).isSome := by
  unfold valid servingEntry
  cases s.l1btb.findEntry ⟨instPC, tid⟩ with
  | some => simp
  | none =>
    cases s.pBuffer.findEntry ⟨instPC, tid⟩ with
    | some => simp
    | none =>
      cases s.l2btb.findEntry ⟨instPC, tid⟩ with
      | some => simp
      | none =>
        cases hL3 : p.enableL3 with
        | false | true => simp

lemma lookup_serves {e : BTBEntry}
    (hidle : p.probesPBuffer = false → s.pBuffer.findEntry ⟨instPC, tid⟩ = none)
    (he : s.servingEntry tid instPC = some e) (type : BranchType) (taken : Bool)
    (blockStartAddr : Addr) (basePrediction : Bool) :
    Meets (s.lookupWithLatency tid instPC type taken blockStartAddr basePrediction)
      (fun r => r.2.target = e.target) (LookupFault p) := by
  refine (lookup_any _ _ _ _ _ _ _).mono ?_ ?_
  · intro r hlooked
    cases hlooked with
    | hit _ _ _ found _ _ returns =>
      rw [servingEntry_of_hit found] at he
      cases he
      exact returns
    | miss _ search _ missed _ _ _ served _ returns =>
      rw [servingEntry_of_miss hidle missed, ← search.source, served.source] at he
      cases he
      exact returns
  · rintro fault ⟨hmiss, hfault⟩
    rw [servingEntry_of_miss hidle hmiss] at he
    rw [BelowFault, he] at hfault
    exact hfault.lookupFault

/-- In every reachable state a branch reported valid is served without the panic from the entry that
`getInst` reads. Without a prefetcher the lookup returns, and nothing is ever prefetched. -/
theorem valid_lookup_consistent {bw : PrevBrInfo} {ops : List Op} {s : State p}
    (h : Reached bw ops s) :
    (∀ tid instPC, s.valid tid instPC = true → ∃ e, s.servingEntry tid instPC = some e ∧
      s.getInst tid instPC = e.inst ∧ ∀ type taken blockStartAddr basePrediction,
        s.lookupWithLatency tid instPC type taken blockStartAddr basePrediction ≠
          .error .lookupPanic ∧
        Meets (s.lookupWithLatency tid instPC type taken blockStartAddr basePrediction)
          (fun r => r.2.target = e.target) (LookupFault p)) ∧
    (p.limitedMarkov = false → p.trainBitsOnLookup = false → p.trainBitsOnCommit = false →
      (∀ l, (s.pBuffer.get l).valid = false) ∧ s.deferredPrefetchQueue = [] ∧
      ∀ fault, ¬ LookupFault p fault) := by
  have hidle : p.probesPBuffer = false → Idle s := fun hoff => reached_idle hoff h
  refine ⟨?_, ?_⟩
  · intro tid instPC hvalid
    rw [valid_iff_servingEntry] at hvalid
    obtain ⟨e, he⟩ := Option.isSome_iff_exists.mp hvalid
    refine ⟨e, he, ?_, ?_⟩
    · simp only [getInst, he, Option.bind_some]
    · intro type taken blockStartAddr basePrediction
      have hserves := lookup_serves
        (fun hoff => pBuffer_findEntry_of_invalid (hidle hoff).pBuffer _) he type taken
        blockStartAddr basePrediction
      refine ⟨?_, hserves⟩
      intro hpanic
      rcases hserves.of_error hpanic with ⟨_, hf | hf⟩ | ⟨_, hf⟩ <;> cases hf
  · intro hm hl hc
    have hoff : p.probesPBuffer = false := by simp [Params.probesPBuffer, hm, hl, hc]
    exact ⟨(hidle hoff).pBuffer, (hidle hoff).queue, not_lookupFault_off hoff⟩

/-- Branch 20 is served from L2. -/
theorem valid_lookup_consistent_small :
    ∃ s : State Params.small, Reached ⟨false, false⟩ [.resolve 20 101, .wait, .resolve 10 100] s ∧
      s.valid 0 20 = true ∧ (∃ e, s.servingEntry 0 20 = some e ∧
        Meets (s.lookupWithLatency 0 20 .directUncond true 0 true)
          (fun r => r.2.target = e.target) (fun _ => False)) := by
  obtain ⟨s, hs, hvalid⟩ := exists_run Params.small [.resolve 20 101, .wait, .resolve 10 100]
    (fun s => s.valid 0 20) (by decide +kernel)
  obtain ⟨hserve, hoff⟩ := valid_lookup_consistent hs
  obtain ⟨e, he, _, hlookup⟩ := hserve 0 20 hvalid
  refine ⟨s, hs, hvalid, e, he, (hlookup .directUncond true 0 true).2.mono (fun _ h => h) ?_⟩
  exact (hoff rfl rfl rfl).2.2

end State

end BTBFerret
