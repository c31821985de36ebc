import BTBFerret.SimpleIndirect

/-!
# Corrected targets of indirect branches

A correction restores the histories from the record of the branch, drops the last entry of the path
and stores the target under the PC in the record. That PC is set by `lookup` alone, and the last
entry of the path is that of the branch only if it was updated at its prediction.
-/

namespace BTBFerret

open FallibleRuns

namespace SimpleIndirect

open SimpleIndirectPredictor
open List (mem_range range)

variable {p : SimpleIndirectParams}

/-! ## Sets and ways -/

variable {s : SimpleIndirectPredictor} {t : SimpleIndirectPredictor}

lemma getSetIndex_congr (h : SameHistories p s t) (pc : Addr) :
    s.getSetIndex p pc = t.getSetIndex p pc := by
  have hpath := h.2
  rw [List.rtake_eq_reverse_take_reverse, List.rtake_eq_reverse_take_reverse] at hpath
  unfold getSetIndex hashPath
  rw [h.1, List.reverse_injective hpath]

def recordedWay (p : SimpleIndirectParams) (s : SimpleIndirectPredictor) (setIndex tag : Addr)
    (rand : Nat) : Nat :=
  ((range p.numWays).find? fun w => (s.targetCache setIndex w).tag == tag).getD
    (rand % p.numWays)

lemma recordedWay_lt (hways : 0 < p.numWays) (s : SimpleIndirectPredictor) (setIndex tag : Addr)
    (rand : Nat) : recordedWay p s setIndex tag rand < p.numWays := by
  unfold recordedWay
  cases hfind : (range p.numWays).find? fun w => (s.targetCache setIndex w).tag == tag with
  | none => exact Nat.mod_lt _ hways
  | some => exact mem_range.mp (List.mem_of_find?_eq_some hfind)

lemma tag_ne_of_lt_recordedWay (s : SimpleIndirectPredictor) {setIndex tag : Addr} {rand w : Nat}
    (hw : w < recordedWay p s setIndex tag rand) (hlt : w < p.numWays) :
    ((s.targetCache setIndex w).tag == tag) = false := by
  unfold recordedWay at hw
  cases hfind : (range p.numWays).find? fun w => (s.targetCache setIndex w).tag == tag with
  | none => exact Bool.eq_false_iff.mpr (List.find?_eq_none.mp hfind w (mem_range.mpr hlt))
  | some =>
    rw [hfind, Option.getD_some] at hw
    have hnot := (List.find?_range_eq_some.mp hfind).2.2 w hw
    exact (Bool.not_eq_true' _).mp hnot

def recordedCache (p : SimpleIndirectParams) (s : SimpleIndirectPredictor) (target : PCState)
    (setIndex tag : Addr) (rand : Nat) : Addr → Nat → IPredEntry :=
  fun set w => if set = setIndex ∧ w = recordedWay p s setIndex tag rand then ⟨tag, some target⟩
    else s.targetCache set w

variable {target : PCState}

lemma lookup_recordedCache (hways : 0 < p.numWays) {v : SimpleIndirectPredictor}
    {setIndex pc : Addr} {rand : Nat}
    (hcache : v.targetCache = recordedCache p s target setIndex (getTag p pc) rand)
    (hset : v.getSetIndex p pc = setIndex) :
    (v.lookup p pc).2 = some target ∧ (v.lookup p pc).1.hit = true := by
  have hway : v.targetCache setIndex (recordedWay p s setIndex (getTag p pc) rand) =
      ⟨getTag p pc, some target⟩ := by
    rw [hcache]
    exact if_pos ⟨rfl, rfl⟩
  have hfind : ((range p.numWays).find? fun w =>
      (v.targetCache setIndex w).tag == getTag p pc && (v.targetCache setIndex w).target.isSome) =
      some (recordedWay p s setIndex (getTag p pc) rand) := by
    refine List.find?_range_eq_some.mpr ⟨?_, ?_, ?_⟩
    · rw [hway]
      simp
    · exact mem_range.mpr (recordedWay_lt hways s _ _ _)
    · intro w hw
      have hlt := hw.trans (recordedWay_lt hways s setIndex (getTag p pc) rand)
      have hother : v.targetCache setIndex w = s.targetCache setIndex w := by
        rw [hcache]
        exact if_neg fun heq => hw.ne heq.2
      rw [hother, tag_ne_of_lt_recordedWay s hw hlt]
      rfl
  have htarget : (v.lookup p pc).2 = some target := by
    unfold lookup
    dsimp only
    rw [hset, hfind, Option.bind_some, hway]
  refine ⟨htarget, ?_⟩
  change (v.lookup p pc).2.isSome = true
  rw [htarget]
  rfl

/-- No way of the set holds a target for the tag. -/
def Cold (p : SimpleIndirectParams) (set tag : Addr) (s : SimpleIndirectPredictor) : Prop :=
  ∀ w < p.numWays, (s.targetCache set w).tag = tag → (s.targetCache set w).target = none

lemma lookup_eq_none_iff (s : SimpleIndirectPredictor) (pc : Addr) :
    (s.lookup p pc).2 = none ↔ Cold p (s.getSetIndex p pc) (getTag p pc) s := by
  unfold lookup Cold
  dsimp only
  cases hfind : (range p.numWays).find? fun w =>
      (s.targetCache (s.getSetIndex p pc) w).tag == getTag p pc &&
        (s.targetCache (s.getSetIndex p pc) w).target.isSome with
  | none =>
    refine iff_of_true rfl fun w hw htag => ?_
    have hnot := List.find?_eq_none.mp hfind w (mem_range.mpr hw)
    simpa [htag] using hnot
  | some w =>
    have hmatch := List.find?_some hfind
    obtain ⟨htag, htarget⟩ := Bool.and_eq_true_iff.mp hmatch
    have hlt := mem_range.mp (List.mem_of_find?_eq_some hfind)
    have hsome := Option.isSome_iff_ne_none.mp htarget
    exact iff_of_false hsome fun hcold => hsome (hcold w hlt (eq_of_beq htag))

lemma cold_recordedCache {v : SimpleIndirectPredictor} {set tag setIndex tag' : Addr} {rand : Nat}
    (hs : Cold p set tag s) (hother : ¬ (setIndex = set ∧ tag' = tag))
    (hcache : v.targetCache = recordedCache p s target setIndex tag' rand) : Cold p set tag v := by
  intro w hw htag
  rw [hcache, recordedCache] at htag ⊢
  split at htag
  · rename_i hat
    exact absurd ⟨hat.1.symm, htag⟩ hother
  · rename_i hne
    rw [if_neg hne]
    exact hs w hw htag

/-! ## A correction -/

lemma recordTarget_eq (h : s.pathHist ≠ []) (target : PCState)
    (history : IndirectHistory) (rand : Nat) :
    s.recordTarget p target history rand = .ok { s with
      targetCache := recordedCache p s target history.setIndex history.tag rand } := by
  rw [recordTarget, if_neg (by rwa [List.isEmpty_iff])]
  rfl

/-- The histories that a correction of an indirect branch starts from. -/
def reverted (s : SimpleIndirectPredictor) (ghr : BitVec 32) : SimpleIndirectPredictor :=
  { s with ghr := ghr, pathHist := s.pathHist.dropLast }

/-- The record of a branch as an update finds it. -/
def recordOf (s : SimpleIndirectPredictor) (history : Option IndirectHistory) : IndirectHistory :=
  history.getD s.genIndirectInfo

variable {type : BranchType}

/-- A correction of an indirect branch replaces the last entry of the path, and stores a taken
target in the set of the restored histories. -/
lemma update_squash (s : SimpleIndirectPredictor) (sn : InstSeqNum) (taken : Bool)
    (target : PCState) (hindirect : isIndirectNoReturn type = true)
    (history : Option IndirectHistory) (rand : Nat) :
    ∃ t h, s.update p sn true taken target type history rand = .ok (t, h) ∧
      t.pathHist = s.pathHist.dropLast ++ [⟨(recordOf s history).pcAddr, target.instAddr, sn⟩] ∧
      (taken = true → t.targetCache = recordedCache p s target
        ((reverted s (recordOf s history).ghr).getSetIndex p (recordOf s history).pcAddr)
        (getTag p (recordOf s history).pcAddr) rand) := by
  unfold update
  rw [hindirect]
  change ∃ t h, ((reverted s (recordOf s history).ghr).record p sn true taken target _ rand >>=
    fun t => _) = _ ∧ _
  cases taken with
  | false => exact ⟨_, _, rfl, rfl, nofun⟩
  | true =>
    have hne : s.pathHist.dropLast ++
        [(⟨(recordOf s history).pcAddr, target.instAddr, sn⟩ : HistoryEntry)] ≠ [] := by simp
    exact ⟨_, _, bind_eq_ok_iff.mpr ⟨_, recordTarget_eq hne _ _ _, rfl⟩, rfl, fun _ => rfl⟩

lemma update_predict {sn : InstSeqNum} {taken : Bool}
    {history : Option IndirectHistory}
    {h : IndirectHistory} (hindirect : isIndirectNoReturn type = true)
    (hupdate : s.update p sn false taken target type history 0 = .ok (t, h)) :
    h.pcAddr = (recordOf s history).pcAddr ∧ h.ghr = (recordOf s history).ghr ∧
      t.pathHist.dropLast = s.pathHist := by
  unfold update at hupdate
  rw [hindirect] at hupdate
  obtain ⟨rfl, rfl⟩ := Prod.mk.inj (Except.ok.inj hupdate)
  exact ⟨rfl, rfl, List.dropLast_concat⟩

/-- The branch uses the set and the tag of the PC that a new record has. -/
def SharesNewRecord (p : SimpleIndirectParams) (s : SimpleIndirectPredictor) (pc : Addr) : Prop :=
  s.getSetIndex p maxAddr = s.getSetIndex p pc ∧ getTag p maxAddr = getTag p pc

/-- A correction of an indirect branch that was neither looked up nor updated before. The path is
extended by the branch and keeps the rest only if it was empty. -/
theorem placeholder_correction_iff (s : SimpleIndirectPredictor) (sn : InstSeqNum) (taken : Bool)
    (target : PCState) (type : BranchType) (hindirect : isIndirectNoReturn type = true)
    (rand : Nat) :
    ∃ t h, s.update p sn true taken target type none rand = .ok (t, h) ∧
      t.pathHist = s.pathHist.dropLast ++ [⟨maxAddr, target.instAddr, sn⟩] ∧
      (t.pathHist = s.pathHist ++ [⟨maxAddr, target.instAddr, sn⟩] ↔ s.pathHist = []) := by
  obtain ⟨t, h, ht, hpath, -⟩ := update_squash (p := p) s sn taken target hindirect none rand
  have hpath' : t.pathHist = s.pathHist.dropLast ++ [⟨maxAddr, target.instAddr, sn⟩] := hpath
  refine ⟨t, h, ht, hpath', ?_⟩
  rw [hpath', List.append_cancel_right_eq]
  constructor
  · intro heq
    have hlength := congrArg List.length heq
    rw [List.length_dropLast] at hlength
    exact List.eq_nil_of_length_eq_zero (by omega)
  · intro hnil
    rw [hnil]
    rfl

/-- The first indirect branch of a run is corrected. -/
theorem placeholder_correction_first :
    ∃ t h, init.update .small 1 true true (.ofAddr 64) .indirectUncond none 0 = .ok (t, h) ∧
      t.pathHist = [⟨maxAddr, 64, 1⟩] := by
  obtain ⟨t, h, ht, -, hiff⟩ := placeholder_correction_iff (p := .small) init 1 true (.ofAddr 64)
    .indirectUncond rfl 0
  exact ⟨t, h, ht, hiff.mpr rfl⟩

/-- The branch at 8 is predicted and stays in flight. The correction of a placeholder behind it
removes its entry from the path. -/
theorem placeholder_correction_drops_older :
    ∃ s h t h', init.update .small 1 false true (.ofAddr 64) .indirectUncond
        (some (init.lookup .small 8).1) 0 = .ok (s, h) ∧ s.pathHist = [⟨8, 64, 1⟩] ∧
      s.update .small 2 true true (.ofAddr 32) .indirectUncond none 0 = .ok (t, h') ∧
      t.pathHist = [⟨maxAddr, 32, 2⟩] := by
  exact ⟨_, _, _, _, rfl, by decide +kernel, rfl, by decide +kernel⟩

/-! ## Reset -/

/-- The histories and the tags are cleared; the targets stay. -/
def SimpleIndirectPredictor.reset (s : SimpleIndirectPredictor) : SimpleIndirectPredictor :=
  ⟨[], 0, fun set w => { s.targetCache set w with tag := 0 }⟩

/-- The calls that change the predictor. A lookup does not. -/
inductive Call where
  | update (sn : InstSeqNum) (squash taken : Bool) (target : PCState) (type : BranchType)
      (history : Option IndirectHistory) (rand : Nat)
  | squash (history : IndirectHistory)
  | commit

def call (p : SimpleIndirectParams) (s : SimpleIndirectPredictor) :
    Call → Except IndirectFault SimpleIndirectPredictor
  | .update sn squash taken target type history rand =>
    (s.update p sn squash taken target type history rand).map Prod.fst
  | .squash history => .ok (s.squash history)
  | .commit => .ok (s.commit p)

def recordsAt (p : SimpleIndirectParams) (s : SimpleIndirectPredictor) : Call → Option (Addr × Addr)
  | .update _ squash taken _ type history _ =>
    if squash && isIndirectNoReturn type && taken then
      some ((reverted s (recordOf s history).ghr).getSetIndex p (recordOf s history).pcAddr,
        getTag p (recordOf s history).pcAddr)
    else none
  | _ => none

lemma targetCache_appendPath (s : SimpleIndirectPredictor) (sn : InstSeqNum) (target : PCState)
    (history : IndirectHistory) : (s.appendPath sn target history).targetCache = s.targetCache := by
  unfold appendPath
  split <;> rfl

lemma update_keeps_cache {sn : InstSeqNum} {squash taken : Bool}
    {history : Option IndirectHistory} {rand : Nat}
    {h' : IndirectHistory} (hoff : (squash && isIndirectNoReturn type && taken) = false)
    (h : s.update p sn squash taken target type history rand = .ok (t, h')) :
    t.targetCache = s.targetCache := by
  have hrecord : ∀ (u : SimpleIndirectPredictor) (r : IndirectHistory),
      r.wasIndirect = isIndirectNoReturn type → u.targetCache = s.targetCache →
      ∃ v, u.record p sn squash taken target r rand = .ok v ∧ v.targetCache = s.targetCache := by
    intro u r hr hu
    refine ⟨_, if_neg (by rw [hr, hoff]; decide), ?_⟩
    exact (targetCache_appendPath u sn target r).trans hu
  unfold update at h
  dsimp only at h
  generalize hr : ({ history.getD s.genIndirectInfo with
    wasIndirect := isIndirectNoReturn type } : IndirectHistory) = r at h
  have hkeep : (if squash then s.revert p r else (s, r)).1.targetCache = s.targetCache ∧
      (if squash then s.revert p r else (s, r)).2.wasIndirect = isIndirectNoReturn type := by
    rw [← hr]
    unfold revert
    constructor <;> repeat' split
    all_goals rfl
  obtain ⟨v, hv, hcache⟩ := hrecord _ _ hkeep.2 hkeep.1
  rw [hv] at h
  cases h
  exact hcache

lemma cold_call {set tag : Addr} {c : Call} (hs : Cold p set tag s)
    (hother : recordsAt p s c ≠ some (set, tag)) (h : call p s c = .ok t) : Cold p set tag t := by
  cases c with
  | squash =>
    cases h
    unfold SimpleIndirectPredictor.squash
    split <;> exact hs
  | commit =>
    cases h
    exact hs
  | update sn squash taken target type history rand =>
    obtain ⟨⟨u, h'⟩, hu, rfl⟩ := map_eq_ok_iff.mp h
    cases hon : squash && isIndirectNoReturn type && taken with
    | false =>
      unfold Cold
      rw [update_keeps_cache hon hu]
      exact hs
    | true =>
      obtain ⟨hboth, rfl⟩ := Bool.and_eq_true_iff.mp hon
      obtain ⟨rfl, hindirect⟩ := Bool.and_eq_true_iff.mp hboth
      obtain ⟨t, h'', ht, -, hcache⟩ :=
        update_squash (p := p) s sn true target hindirect history rand
      cases ht.symm.trans hu
      rw [recordsAt, hon, if_pos rfl] at hother
      exact cold_recordedCache hs (fun h => hother (congrArg some (Prod.ext h.1 h.2))) (hcache rfl)

/-- The lookup right after a reset misses exactly if its tag is not that of a reset or its set had
no target. From then on it misses until an update records a target in its set and under its tag. -/
theorem lookup_misses_after_reset (s : SimpleIndirectPredictor) (pc : Addr) :
    ((s.reset.lookup p pc).2 = none ↔ getTag p pc ≠ 0 ∨
      ∀ w < p.numWays, (s.targetCache (s.reset.getSetIndex p pc) w).target = none) ∧
    ∀ calls t, run (call p) s.reset calls = .ok t →
      (getTag p pc ≠ 0 ∨ ∀ w < p.numWays, (s.targetCache (t.getSetIndex p pc) w).target = none) →
      Along (call p) (fun u c => recordsAt p u c ≠ some (t.getSetIndex p pc, getTag p pc))
        s.reset calls →
      (t.lookup p pc).2 = none := by
  have hcold : ∀ set, Cold p set (getTag p pc) s.reset ↔
      getTag p pc ≠ 0 ∨ ∀ w < p.numWays, (s.targetCache set w).target = none := by
    intro set
    by_cases hzero : getTag p pc = 0
    · rw [hzero]
      exact ⟨fun h => .inr fun w hw => h w hw rfl,
        fun h w hw _ => (h.resolve_left (not_not.mpr rfl)) w hw⟩
    · exact iff_of_true (fun w _ htag => absurd htag.symm hzero) (.inl hzero)
  refine ⟨(lookup_eq_none_iff _ pc).trans (hcold _), fun calls t hrun hstale hother => ?_⟩
  have hcold' := run_invariant_state (Cold p (t.getSetIndex p pc) (getTag p pc))
    (fun _ _ _ hu hc hstep => cold_call hu hc hstep) ((hcold _).mpr hstale) hother hrun
  exact (lookup_eq_none_iff _ pc).mpr hcold'

/-- A target is recorded for the branch at 8, whose tag is 2, and the predictor is reset. -/
theorem lookup_misses_after_reset_small :
    ∃ s, call .small .init (.update 1 true true (.ofAddr 32) .indirectUncond
        (some (init.lookup .small 8).1) 0) = .ok s ∧
      (s.targetCache 2 0).target = some (.ofAddr 32) ∧ (s.reset.lookup .small 8).2 = none :=
  ⟨_, rfl, by decide +kernel,
    (lookup_misses_after_reset _ 8).1.mpr (.inl (by decide +kernel))⟩

/-- The tag of the branch at 0 is 0. Its target survives the reset. -/
theorem reset_keeps_stale_target :
    ∃ s h t, init.update .small 1 false true (.ofAddr 64) .indirectUncond
        (some (init.lookup .small 0).1) 0 = .ok (s, h) ∧
      call .small s (.update 1 true true (.ofAddr 32) .indirectUncond (some h) 0) = .ok t ∧
      (t.reset.lookup .small 0).2 = some (.ofAddr 32) :=
  ⟨_, _, _, rfl, rfl, by decide +kernel⟩

end SimpleIndirect

end BTBFerret
