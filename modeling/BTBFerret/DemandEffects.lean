import BTBFerret.Bookkeeping

/-!
# What updates and lookups do to the levels

A branch enters L1 in one way only: a slot of its set takes the new line, and the line it held is
written back. `served` is the state in which that happens for a lookup. The specifications below
name every line that changes.
-/

namespace BTBFerret

open ReplacementPolicy AssociativeCache Function
open Cache (get_modify get_store)

def Line.rekey (v : BTBLevel) (tid : ThreadID) (x : Line) : Line :=
  ⟨true, ⟨v.extractTag x.branchAddr, tid⟩, x.branchAddr, x.target, x.inst⟩

variable {f : BTBEntry → BTBEntry}

section

variable {v : BTBLevel}

lemma match_eq_of_line {e e' : BTBEntry} (h : e'.line = e.line) (key : KeyType) :
    v.shape.match key e' = v.shape.match key e := by
  have hv : e'.valid = e.valid := congrArg Line.valid h
  have ht : e'.tag = e.tag := congrArg Line.tag h
  simp only [BTBLevel.shape, BTBEntry.match, hv, ht]

variable {C C' : BTBCache v}

lemma findEntry_of_lines (h : lines C' = lines C) (key : KeyType) :
    C'.findEntry key = C.findEntry key :=
  Cache.findEntry_congr (fun l _ => match_eq_of_line (congrFun h l) key)

lemma unique_of_lines (h : lines C' = lines C) (hu : C.Unique) :
    C'.Unique := by
  apply hu.of_subset
  intro l hl
  have hline : (C'.get l).line = (C.get l).line := congrFun h l
  have hv : (C'.get l).valid = (C.get l).valid := congrArg Line.valid hline
  exact ⟨hv.symm.trans hl, congrArg Line.tag hline⟩

/-- Two levels with the same lines and the same replacement data. -/
structure Agree (C C' : BTBCache v) : Prop where
  lines : lines C' = lines C
  repl : C'.repl = C.repl

lemma Agree.refl (C : BTBCache v) : Agree C C := ⟨rfl, rfl⟩

/-- Lines and replacement data together decide where a key is stored. -/
lemma Agree.slotFor (h : Agree C C') (key : KeyType) : C'.slotFor key = C.slotFor key := by
  unfold Cache.slotFor Cache.findVictim
  rw [findEntry_of_lines h.lines, h.repl]

section

variable (C : BTBCache v)

lemma line_openFor (key : KeyType) :
    (C.openFor key).valid = true ∧ (C.openFor key).tag = ⟨v.extractTag key.address, key.tid⟩ :=
  (v.shape.match_iff key _).mp (C.match_openFor key)

lemma lines_store (tell : Bool) (now : Tick) (key : KeyType)
    (f : BTBEntry → BTBEntry) :
    lines (C.store tell now key f) =
      update (lines C) (C.slotFor key) (f (C.openFor key)).line := by
  funext l
  by_cases hl : l = C.slotFor key
  · subst hl
    rw [update_self, lines, get_store, if_pos rfl]
  · rw [update_of_ne hl, lines, get_store, if_neg hl]
    rfl

lemma lines_modify (l : Loc v.shape) (f : BTBEntry → BTBEntry) :
    lines (C.modify l f) = update (lines C) l (f (C.get l)).line := by
  funext l'
  by_cases hl : l' = l
  · subst hl
    rw [update_self, lines, Cache.get_modify_self]
  · rw [update_of_ne hl, lines, get_modify, if_neg hl]
    rfl

lemma lines_modify_soft (l : Loc v.shape) (hf : ∀ e, (f e).line = e.line) :
    lines (C.modify l f) = lines C := by
  rw [lines_modify, hf]
  exact update_eq_self l (lines C)

lemma lines_written (tell : Bool) (now : Tick) (tid : ThreadID)
    (victim : BTBEntry) :
    lines (State.written C tell now tid victim) =
      update (lines C) (C.slotFor ⟨victim.branchAddr, tid⟩) (victim.line.rekey v tid) := by
  rw [State.written, lines_store]
  obtain ⟨hv, ht⟩ := line_openFor C ⟨victim.branchAddr, tid⟩
  simp only [BTBEntry.line, BTBEntry.updateFrom, Line.rekey, hv, ht]

lemma Agree.modify (l : Loc v.shape) (hf : ∀ e, (f e).line = e.line) : Agree C (C.modify l f) :=
  ⟨lines_modify_soft C l hf, rfl⟩

end

lemma Agree.written (h : Agree C C') (tell : Bool) (now : Tick)
    (tid : ThreadID) {victim victim' : BTBEntry} (hline : victim'.line = victim.line) :
    Agree (State.written C tell now tid victim) (State.written C' tell now tid victim') := by
  have hb : victim'.branchAddr = victim.branchAddr := congrArg Line.branchAddr hline
  refine ⟨by rw [lines_written, lines_written, hb, h.slotFor, h.lines, hline], ?_⟩
  have hfind := findEntry_of_lines h.lines ⟨victim.branchAddr, tid⟩
  unfold State.written Cache.store
  rw [hb, hfind]
  cases hk : C.findEntry ⟨victim.branchAddr, tid⟩ with
  | some => simp only [Cache.modify, Cache.set, Cache.accessEntry, h.repl]
  | none =>
    cases tell with
    | true => simp [Cache.modify, Cache.set, Cache.findVictim, Cache.invalidate, h.repl]
    | false => simp [Cache.modify, Cache.set, Cache.findVictim, h.repl]

end

namespace State

variable {p : Params}

structure AgreeLevels (s s' : State p) : Prop where
  l1btb : Agree s.l1btb s'.l1btb
  l2btb : Agree s.l2btb s'.l2btb
  l3btb : Agree s.l3btb s'.l3btb
  curTick : s'.curTick = s.curTick

variable {s s' : State p} {victim victim' : BTBEntry}

section

variable (h : AgreeLevels s s') (tid : ThreadID) (hline : victim'.line = victim.line)

include h hline

lemma AgreeLevels.l2After : Agree (s.l2After tid victim) (s'.l2After tid victim') := by
  have hv : victim'.valid = victim.valid := congrArg Line.valid hline
  unfold State.l2After
  rw [hv, h.curTick]
  split
  · exact h.l2btb.written false s.curTick tid hline
  · exact h.l2btb

lemma AgreeLevels.displaced :
    (s'.displaced tid victim').map BTBEntry.line = (s.displaced tid victim).map BTBEntry.line := by
  have hb : victim'.branchAddr = victim.branchAddr := congrArg Line.branchAddr hline
  have he := congrFun h.l2btb.lines (s.l2btb.slotFor ⟨victim.branchAddr, tid⟩)
  simp only [lines] at he
  have hv := congrArg Line.valid he
  simp only [BTBEntry.line] at hv
  unfold State.displaced
  rw [hb, findEntry_of_lines h.l2btb.lines, h.l2btb.slotFor]
  dsimp only
  rw [hv]
  split
  · split
    · simp only [Option.map_some, he]
    · rfl
  · rfl

lemma AgreeLevels.l3AfterDisplacement :
    Agree (s.l3AfterDisplacement tid victim) (s'.l3AfterDisplacement tid victim') := by
  have hd := h.displaced tid hline
  unfold State.l3AfterDisplacement
  rw [h.curTick]
  cases he : s.displaced tid victim with
  | none =>
    rw [he] at hd
    rw [Option.map_eq_none_iff.mp hd]
    exact h.l3btb
  | some =>
    rw [he] at hd
    obtain ⟨e', he', hl⟩ := Option.map_eq_some_iff.mp hd
    rw [he']
    dsimp only
    split
    · exact h.l3btb.written true s.curTick tid hl
    · exact h.l3btb

lemma AgreeLevels.l3After : Agree (s.l3After tid victim) (s'.l3After tid victim') := by
  have hv : victim'.valid = victim.valid := congrArg Line.valid hline
  have hd := h.l3AfterDisplacement tid hline
  unfold State.l3After State.l3AfterWriteBack
  rw [hv, h.curTick]
  split
  · split
    · exact hd.written true s.curTick tid hline
    · exact hd
  · exact h.l3btb

end

lemma AgreeLevels.l1Victim (h : AgreeLevels s s') (tid : ThreadID) (instPC : Addr) :
    (s'.l1Victim tid instPC).line = (s.l1Victim tid instPC).line := by
  unfold State.l1Victim
  rw [h.l1btb.slotFor]
  exact congrFun h.l1btb.lines _

/-! ## Entering L1 -/

structure Entered (s s' : State p) (tid : ThreadID) (instPC : Addr) (x : Line) : Prop where
  l1btb : lines s'.l1btb = Function.update (lines s.l1btb) (s.l1btb.slotFor ⟨instPC, tid⟩) x
  l2btb : lines s'.l2btb = lines (s.l2After tid (s.l1Victim tid instPC))
  l3btb : lines s'.l3btb = lines (s.l3After tid (s.l1Victim tid instPC))

variable {s t s' : State p} {tid : ThreadID} {instPC : Addr}

/-- Only lines and replacement data of the state before matter. -/
lemma Entered.of_agree (h : AgreeLevels s t) {x : Line} (he : Entered t s' tid instPC x) :
    Entered s s' tid instPC x := by
  have hvictim := h.l1Victim tid instPC
  refine ⟨?_, ?_, ?_⟩
  · rw [he.l1btb, h.l1btb.lines, h.l1btb.slotFor]
  · rw [he.l2btb, (h.l2After tid hvictim).lines]
  · rw [he.l3btb, (h.l3After tid hvictim).lines]

variable {T : ThreadID → Prop}

/-- The exact effect of freeing an L1 way and rewriting it by `f`. -/
structure Filled (T : ThreadID → Prop) (s s' : State p) (tid : ThreadID) (instPC : Addr)
    (f : BTBEntry → BTBEntry) : Prop extends Rest T s s' where
  l1btb : ∀ l, s'.l1btb.get l = if l = s.l1btb.slotFor ⟨instPC, tid⟩ then
    f (s.l1btb.openFor ⟨instPC, tid⟩) else s.l1btb.get l
  l2btb : s'.l2btb = s.l2After tid (s.l1Victim tid instPC)
  l3btb : s'.l3btb = s.l3After tid (s.l1Victim tid instPC)

lemma lines_of_get {v : BTBLevel} {C C' : BTBCache v} {slot : Loc v.shape} {e : BTBEntry}
    (h : ∀ l, C'.get l = if l = slot then e else C.get l) :
    lines C' = Function.update (lines C) slot e.line := by
  funext l
  rw [lines, h]
  by_cases hl : l = slot
  · rw [if_pos hl, hl, update_self]
  · rw [if_neg hl, update_of_ne hl]
    rfl

lemma Filled.entered (h : Filled T s s' tid instPC f) :
    Entered s s' tid instPC (f (s.l1btb.openFor ⟨instPC, tid⟩)).line :=
  ⟨lines_of_get h.l1btb, by rw [h.l2btb], by rw [h.l3btb]⟩

lemma Filled.modify {s'' : State p} {g : BTBEntry → BTBEntry} (h : Filled T s s' tid instPC f)
    (hrest : Rest T s' s'')
    (hl1 : ∀ l, s''.l1btb.get l = (s'.l1btb.modify (s.l1btb.slotFor ⟨instPC, tid⟩) g).get l)
    (hl2 : s''.l2btb = s'.l2btb) (hl3 : s''.l3btb = s'.l3btb) :
    Filled T s s'' tid instPC (fun e => g (f e)) := by
  refine ⟨h.toRest.trans hrest, ?_, hl2.trans h.l2btb, hl3.trans h.l3btb⟩
  intro l
  rw [hl1, get_modify]
  by_cases hl : l = s.l1btb.slotFor ⟨instPC, tid⟩
  · rw [if_pos hl, if_pos hl, h.l1btb, if_pos rfl]
  · rw [if_neg hl, if_neg hl, h.l1btb, if_neg hl]

lemma filled_freedUp (s : State p) (tid : ThreadID) (instPC : Addr) (st : List Stat) :
    Filled T s (s.freedUp tid instPC st) tid instPC id where
  toRest := ⟨fun _ => rfl, rfl, rfl, rfl, fun _ h => .inl h⟩
  l1btb := fun l => get_store _ _ _ _ _ l
  l2btb := rfl
  l3btb := rfl

/-- A soft step after the fill, or any step that keeps the three levels. -/
lemma Filled.tail {s'' : State p} (h : Filled T s s' tid instPC f) (hrest : Rest T s' s'')
    (hl1 : s''.l1btb = s'.l1btb) (hl2 : s''.l2btb = s'.l2btb) (hl3 : s''.l3btb = s'.l3btb) :
    Filled T s s'' tid instPC f :=
  ⟨h.toRest.trans hrest, fun l => by rw [hl1, h.l1btb], hl2.trans h.l2btb, hl3.trans h.l3btb⟩

lemma Filled.of_soft (hs : Soft T s t) (h : Filled T t s' tid instPC f) :
    Filled T s s' tid instPC f := by
  have hvictim : t.l1Victim tid instPC = s.l1Victim tid instPC := by
    unfold State.l1Victim
    rw [hs.l1btb]
  refine ⟨hs.toRest.trans h.toRest, fun l => by rw [h.l1btb, hs.l1btb], ?_, ?_⟩
  · rw [h.l2btb, hvictim]
    unfold State.l2After
    rw [hs.l2btb, hs.curTick]
  · rw [h.l3btb, hvictim]
    unfold State.l3After State.l3AfterWriteBack State.l3AfterDisplacement State.displaced
    rw [hs.l2btb, hs.l3btb, hs.curTick]

lemma fillL1_spec (s : State p) (tid : ThreadID) (instPC : Addr) (src : BTBEntry)
    (h : s.l1btb.findEntry ⟨instPC, tid⟩ = none) :
    ∃ s', s.fillL1 tid instPC src = .ok (s.l1btb.slotFor ⟨instPC, tid⟩, s') ∧
      Filled T s s' tid instPC (fun e => e.updateFrom src) ∧ Aside s s' := by
  obtain ⟨st, hacc, hst⟩ := s.freeUpL1Entry_eq tid instPC h
  obtain ⟨u, hu, hsync⟩ := still_l1CompressedTagSync (T := T)
    { s.freedUp tid instPC st with
      l1btb := Cache.modify (s.freedUp tid instPC st).l1btb (s.l1btb.slotFor ⟨instPC, tid⟩)
        (fun e => e.updateFrom src) } instPC tid .insert
  refine ⟨u, ?_, ?_, hsync.aside.after ?_ rfl⟩
  · simp only [fillL1, hst, bind, Except.bind, hu]
    rfl
  · refine (filled_freedUp s tid instPC st).modify (g := fun e => e.updateFrom src) ?_ ?_
      hsync.l2btb hsync.l3btb
    · exact ⟨hsync.markov, hsync.bbMap, hsync.curTick, hsync.curCycle, hsync.queue⟩
    · intro l
      rw [hsync.l1btb]
  · exact (aside_freedUp hacc tid instPC).books

/-! ## Update -/

structure Rewritten (T : ThreadID → Prop) (s s' : State p) (way : Loc p.l1btb.shape)
    (f : BTBEntry → BTBEntry) : Prop extends Rest T s s' where
  l1btb : ∀ l, s'.l1btb.get l = if l = way then f (s.l1btb.get way) else s.l1btb.get l
  pBuffer : s'.pBuffer = s.pBuffer
  l2btb : s'.l2btb = s.l2btb
  l3btb : s'.l3btb = s.l3btb

lemma rewritten_modify (s : State p) (way : Loc p.l1btb.shape) (f : BTBEntry → BTBEntry) :
    Rewritten T s { s with l1btb := s.l1btb.modify way f } way f :=
  ⟨⟨fun _ => rfl, rfl, rfl, rfl, fun _ h => .inl h⟩, fun l => get_modify s.l1btb way l f,
    rfl, rfl, rfl⟩

lemma update_eq {target : PCState} {type : BranchType} {inst : Option StaticInst}
    {way : Loc p.l1btb.shape}
    (h : (s.count (.updates type)).updatedEntry tid instPC target type = .ok (way, t)) :
    ∃ s', s.update tid instPC target type inst = .ok s' ∧
      Rewritten T t s' way (fun e => e.update target inst) := by
  obtain ⟨u, hu, hsync⟩ := still_l1CompressedTagSync (T := T) t instPC tid .insert
  refine ⟨{ u with
    l1btb := Cache.accessEntry (u.l1btb.modify way (fun e => e.update target inst)) u.curTick way },
    ?_, ?_⟩
  · simp only [update, h, bind, Except.bind, hu]
    rfl
  · refine ⟨⟨hsync.markov, hsync.bbMap, hsync.curTick, hsync.curCycle, hsync.queue⟩, ?_,
      hsync.pBuffer, hsync.l2btb, hsync.l3btb⟩
    intro l
    rw [Cache.get_accessEntry, get_modify, hsync.l1btb]

lemma update_hit {way : Loc p.l1btb.shape} (h : s.l1btb.findEntry ⟨instPC, tid⟩ = some way)
    (target : PCState) (type : BranchType) (inst : Option StaticInst) :
    ∃ s', s.update tid instPC target type inst = .ok s' ∧ Rewritten T s s' way
      (fun e => (markChangedTarget p type target e).update target inst) := by
  have he : (s.count (.updates type)).updatedEntry tid instPC target type = .ok (way,
      { s.count (.updates type) with
        l1btb := s.l1btb.modify way (markChangedTarget p type target) }) := by
    unfold updatedEntry
    rw [show (s.count (.updates type)).l1btb = s.l1btb from rfl, h]
  obtain ⟨s', hs', hr⟩ := update_eq (T := T) he
  refine ⟨s', hs', ⟨hr.markov, hr.bbMap, hr.curTick, hr.curCycle, hr.queue⟩, ?_, hr.pBuffer,
    hr.l2btb, hr.l3btb⟩
  intro l
  rw [hr.l1btb, Cache.get_modify_self, get_modify]
  by_cases hl : l = way
  · rw [if_pos hl, if_pos hl]
  · rw [if_neg hl, if_neg hl, if_neg hl]

lemma update_miss (h : s.l1btb.findEntry ⟨instPC, tid⟩ = none) (target : PCState)
    (type : BranchType) (inst : Option StaticInst) :
    ∃ s', s.update tid instPC target type inst = .ok s' ∧ Filled T s s' tid instPC
      (fun e => (allocateBits p e).update target inst) ∧ s'.pBuffer = s.pBuffer := by
  obtain ⟨st, _, hst⟩ := (s.count (.updates type)).freeUpL1Entry_eq tid instPC h
  have he : (s.count (.updates type)).updatedEntry tid instPC target type =
      .ok (s.l1btb.slotFor ⟨instPC, tid⟩, { s.freedUp tid instPC st with
        l1btb := Cache.modify (s.freedUp tid instPC st).l1btb (s.l1btb.slotFor ⟨instPC, tid⟩)
          (allocateBits p) }) := by
    unfold updatedEntry
    rw [show (s.count (.updates type)).l1btb = s.l1btb from rfl, h]
    dsimp only
    rw [hst]
    rfl
  obtain ⟨s', hs', hr⟩ := update_eq (T := T) he
  refine ⟨s', hs', (filled_freedUp s tid instPC st).modify
    (g := fun e => (allocateBits p e).update target inst) ?_ ?_ hr.l2btb hr.l3btb, hr.pBuffer⟩
  · exact ⟨hr.markov, hr.bbMap, hr.curTick, hr.curCycle, hr.queue⟩
  · intro l
    rw [hr.l1btb, Cache.get_modify_self, get_modify, get_modify]
    by_cases hl : l = s.l1btb.slotFor ⟨instPC, tid⟩
    · rw [if_pos hl, if_pos hl]
    · rw [if_neg hl, if_neg hl, if_neg hl]

end State

end BTBFerret
