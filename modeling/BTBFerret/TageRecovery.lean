import BTBFerret.TageHistory

/-!
# Recovery of the TAGE histories

The ideal history is an endless stream of bits with the folded histories over it, so pushing a bit
and popping it again is the identity. A thread shows it as long as its buffer still holds the
visible bits and those of the branches in flight. Recovery and correction are equalities of ideal
histories.
-/

namespace BTBFerret

open FallibleRuns Speculation List Function

namespace Tage

open Except ThreadHistory

/-! ## The ideal history -/

structure IdealHistory (maxHist : Nat) where
  path : BitVec 32
  stream : Nat → Bool
  folded : List (FoldedHistory maxHist)

namespace IdealHistory

variable {maxHist : Nat} (a : IdealHistory maxHist)

def pushStream (b : Bool) (stream : Nat → Bool) : Nat → Bool
  | 0 => b
  | j + 1 => stream j

def push (b : Bool) : IdealHistory maxHist :=
  { a with
    stream := pushStream b a.stream
    folded := a.folded.map fun f => f.update b (pushStream b a.stream f.origLength) }

/-- The bits of a vector, the lowest first. -/
def pushBits : Nat → BitVec 64 → IdealHistory maxHist → IdealHistory maxHist
  | 0, _, a => a
  | n + 1, bv, a => pushBits n (bv >>> 1) (a.push (bv.getLsbD 0))

end IdealHistory

open IdealHistory

variable {c : TageParams} {s t : ThreadHistory c} {a : IdealHistory c.maxHist} {k n : Nat}

/-- The buffer holds the visible bits and `k` more of the ideal history. -/
structure Shows (k : Nat) (s : ThreadHistory c) (a : IdealHistory c.maxHist) : Prop where
  path : s.pathHist = a.path
  folded : s.folded = a.folded
  stream : ∀ j < k + c.maxHist, s.globalHist (s.ptGhist + j) = a.stream j
  room : s.ptGhist + k + c.maxHist < c.histBufferSize

lemma Shows.mono (h : Shows k s a) {m : Nat} (hle : m ≤ k) : Shows m s a := by
  have hroom := h.room
  exact ⟨h.path, h.folded, fun j hj => h.stream j (by omega), by omega⟩

lemma Shows.setPath (h : Shows k s a) (path : BitVec 32) :
    Shows k { s with pathHist := path } { a with path := path } :=
  ⟨rfl, h.folded, h.stream, h.room⟩

lemma Shows.inBounds (h : Shows k s a) : s.inBounds = true := by
  have hroom := h.room
  refine all_eq_true.mpr ?_
  intro f _
  have hle := f.le
  exact decide_eq_true (by omega)

/-! ## Shifting bits in -/

lemma Shows.shiftIn (h : Shows k s a) (hpos : 0 < s.ptGhist) (b : Bool) :
    ∃ t, s.shiftIn b = .ok t ∧ Shows (k + 1) t (a.push b) ∧ t.ptGhist = s.ptGhist - 1 := by
  have hroom := h.room
  have hstream : ∀ j < k + 1 + c.maxHist,
      update s.globalHist (s.ptGhist - 1) b (s.ptGhist - 1 + j) = pushStream b a.stream j := by
    intro j hj
    cases j with
    | zero => exact update_self _ _ _
    | succ j =>
      rw [update_of_ne (by omega), show s.ptGhist - 1 + (j + 1) = s.ptGhist + j by omega]
      exact h.stream j (by omega)
  -- the folded histories read the first bit and one of the visible ones
  have hfolded : s.folded.map (fun f => f.update
      (update s.globalHist (s.ptGhist - 1) b (s.ptGhist - 1))
      (update s.globalHist (s.ptGhist - 1) b (s.ptGhist - 1 + f.origLength))) =
      (a.push b).folded := by
    rw [h.folded]
    refine map_congr_left ?_
    intro f _
    have hle := f.le
    rw [update_self, hstream f.origLength (by omega)]
  have hmoved : ThreadHistory.inBounds { s with
      globalHist := update s.globalHist (s.ptGhist - 1) b
      ptGhist := s.ptGhist - 1 } = true := by
    refine all_eq_true.mpr ?_
    intro f _
    have hle := f.le
    exact decide_eq_true (show s.ptGhist - 1 + f.origLength < c.histBufferSize by omega)
  refine ⟨{ s with
    globalHist := update s.globalHist (s.ptGhist - 1) b
    ptGhist := s.ptGhist - 1
    folded := _ }, ?_, ⟨h.path, hfolded, hstream, ?_⟩, rfl⟩
  · rw [ThreadHistory.shiftIn, if_neg (by omega), ThreadHistory.updateFolded, if_pos hmoved]
  · change s.ptGhist - 1 + (k + 1) + c.maxHist < c.histBufferSize
    omega

lemma Shows.shiftBits (h : Shows k s a) (hle : n ≤ s.ptGhist) (bv : BitVec 64) :
    ∃ t, shiftBits n bv s = .ok t ∧ Shows (k + n) t (pushBits n bv a) := by
  induction n generalizing k s a bv with
  | zero => exact ⟨s, rfl, h⟩
  | succ n ih =>
    obtain ⟨mid, hmid, hshows, hpt⟩ := h.shiftIn (Nat.zero_lt_of_lt hle) (bv.getLsbD 0)
    obtain ⟨t, ht, hend⟩ := ih hshows (by omega) (bv >>> 1)
    refine ⟨t, bind_eq_ok_iff.mpr ⟨mid, hmid, ht⟩, ?_⟩
    rw [show k + (n + 1) = k + 1 + n by omega]
    exact hend

/-! ## Rollovers -/

lemma copyBits_below {src dst : Nat} (m : Nat) (g : Nat → Bool) {x : Nat} (hx : x < dst) :
    copyBits src dst m g x = g x := by
  induction m with
  | zero => rfl
  | succ _ ih =>
    rw [copyBits, update_of_ne (by omega)]
    exact ih

/-- A bit that is read before the copy overwrites it arrives. -/
lemma copyBits_copied {src dst : Nat} {m j : Nat} (g : Nat → Bool) (hj : j < m)
    (hsrc : src + j < dst) : copyBits src dst m g (dst + j) = g (src + j) := by
  induction m with
  | zero => omega
  | succ m ih =>
    rw [copyBits]
    by_cases hm : j = m
    · subst hm
      rw [update_self, copyBits_below j g hsrc]
    · rw [update_of_ne (by omega)]
      exact ih (by omega)

/-- A rollover before an update of `n` bits keeps the visible bits and the `k` bits of the branches
in flight: the copy is long enough, and does not overwrite them before they are read. -/
def KeepsBits (c : TageParams) (ptGhist n k : Nat) : Prop :=
  ptGhist < n → k < rollbackBuffer ∧
    ptGhist + k + c.maxHist + (c.maxHist + rollbackBuffer) ≤ c.histBufferSize ∧
    n + (c.maxHist + rollbackBuffer) ≤ c.histBufferSize

instance (c : TageParams) (ptGhist n k : Nat) : Decidable (KeepsBits c ptGhist n k) :=
  inferInstanceAs (Decidable (_ → _))

lemma Shows.rollOver (h : Shows k s a) (hkeeps : KeepsBits c s.ptGhist n k)
    (hlt : s.ptGhist < n) :
    ∃ t, s.rollOver = .ok t ∧ Shows k t a ∧ n ≤ t.ptGhist := by
  obtain ⟨hk, hroom, hn⟩ := hkeeps hlt
  have hstart : copyStart c + (c.maxHist + rollbackBuffer) = c.histBufferSize := by
    rw [copyStart]
    omega
  refine ⟨{ s with
    globalHist := copyBits s.ptGhist (copyStart c) (c.maxHist + rollbackBuffer)
      s.globalHist
    ptGhist := copyStart c }, ?_, ⟨h.path, h.folded, ?_, ?_⟩, ?_⟩
  · rw [ThreadHistory.rollOver, if_neg (by omega)]
  · intro j hj
    rw [← h.stream j hj]
    exact copyBits_copied s.globalHist (by omega) (by omega)
  · change copyStart c + k + c.maxHist < c.histBufferSize
    omega
  · change n ≤ copyStart c
    omega

lemma Shows.updateGHist (h : Shows k s a) (hkeeps : KeepsBits c s.ptGhist n k)
    (bv : BitVec 64) :
    ∃ t, s.updateGHist bv n = .ok t ∧ Shows (k + n) t (pushBits n bv a) := by
  unfold ThreadHistory.updateGHist
  split
  · rename_i hzero
    subst hzero
    exact ⟨s, rfl, h⟩
  · split
    · rename_i hlt
      obtain ⟨mid, hmid, hshows, hle⟩ := h.rollOver hkeeps hlt
      obtain ⟨t, ht, hend⟩ := hshows.shiftBits hle bv
      exact ⟨t, bind_eq_ok_iff.mpr ⟨mid, hmid, ht⟩, hend⟩
    · rename_i hge
      exact h.shiftBits (not_lt.mp hge) bv

/-! ## Shifting bits out -/

lemma Shows.shiftOut {b : Bool} (h : Shows (k + 1) s (a.push b)) :
    ∃ t, s.shiftOut = .ok t ∧ Shows k t a ∧ t.ptGhist = s.ptGhist + 1 := by
  have hroom := h.room
  have hfirst : s.globalHist s.ptGhist = b := h.stream 0 (by omega)
  have hfolded : s.folded.map (fun f => f.restore (s.globalHist s.ptGhist)
      (s.globalHist (s.ptGhist + f.origLength))) = a.folded := by
    rw [h.folded, IdealHistory.push, map_map]
    refine (map_congr_left ?_).trans (map_id _)
    intro f _
    have hle := f.le
    change (f.update b _).restore (s.globalHist s.ptGhist) (s.globalHist (s.ptGhist + f.origLength))
      = f
    rw [hfirst, h.stream f.origLength (by omega)]
    exact f.restore_update b _
  refine ⟨{ s with ptGhist := s.ptGhist + 1, folded := _ }, ?_, ⟨h.path, hfolded, ?_, ?_⟩, rfl⟩
  · rw [ThreadHistory.shiftOut, ThreadHistory.restoreFolded, if_pos h.inBounds]
    exact if_pos (show s.ptGhist + 1 + c.maxHist < c.histBufferSize by omega)
  · intro j hj
    change s.globalHist (s.ptGhist + 1 + j) = a.stream j
    rw [show s.ptGhist + 1 + j = s.ptGhist + (j + 1) by omega]
    exact h.stream (j + 1) (by omega)
  · change s.ptGhist + 1 + k + c.maxHist < c.histBufferSize
    omega

lemma unshiftBits_succ (n : Nat) (s : ThreadHistory c) :
    unshiftBits (n + 1) s =
      unshiftBits n s >>= shiftOut := by
  induction n generalizing s with
  | zero =>
    change (s.shiftOut >>= fun t => .ok t) = s.shiftOut
    cases s.shiftOut with
    | error | ok => rfl
  | succ n ih =>
    change (s.shiftOut >>= fun t => unshiftBits (n + 1) t) =
      (s.shiftOut >>= fun t => unshiftBits n t) >>= shiftOut
    cases s.shiftOut with
    | error => rfl
    | ok t => exact ih t

lemma Shows.unshiftBits {bv : BitVec 64} (h : Shows (k + n) s (pushBits n bv a)) :
    ∃ t, unshiftBits n s = .ok t ∧ Shows k t a ∧ t.ptGhist = s.ptGhist + n := by
  induction n generalizing k a bv with
  | zero => exact ⟨s, rfl, h, rfl⟩
  | succ n ih =>
    rw [show k + (n + 1) = k + 1 + n by omega] at h
    obtain ⟨mid, hmid, hshows, hpt⟩ := ih h
    obtain ⟨t, ht, hend, hlast⟩ := hshows.shiftOut
    refine ⟨t, ?_, hend, by omega⟩
    rw [unshiftBits_succ]
    exact bind_eq_ok_iff.mpr ⟨mid, hmid, ht⟩

/-! ## The update of a branch -/

/-- The number of bits that a branch inserts. -/
def bitCount (c : TageParams) (inst : StaticInst) (pc : Addr) (o : Correction) : Nat :=
  (newGhist c pc o.taken (branchType c inst) o.target makeBranchInfo).nGhist

def IdealHistory.update (a : IdealHistory c.maxHist) (inst : StaticInst) (pc : Addr)
    (o : Correction) : IdealHistory c.maxHist :=
  pushBits (bitCount c inst pc o)
    (newGhist c pc o.taken (branchType c inst) o.target makeBranchInfo).ghist
    { a with path := calcNewPathHist c pc a.path o.taken (branchType c inst) o.target }

variable {inst : StaticInst} {pc : Addr} {o : Correction} {bi : BranchInfo}

section

variable (c : TageParams) (pc : Addr) (taken : Bool) (brtype : Nat) (target : Addr)

lemma pathHist_newGhist (bi : BranchInfo) :
    (newGhist c pc taken brtype target bi).pathHist = bi.pathHist := by
  unfold newGhist
  split
  · split <;> rfl
  · split <;> rfl

lemma newGhist_of_zero (hzero : bi.nGhist = 0) (a : IdealHistory c.maxHist) :
    (newGhist c pc taken brtype target bi).nGhist =
        (newGhist c pc taken brtype target makeBranchInfo).nGhist ∧
      pushBits (newGhist c pc taken brtype target bi).nGhist
          (newGhist c pc taken brtype target bi).ghist a =
        pushBits (newGhist c pc taken brtype target makeBranchInfo).nGhist
          (newGhist c pc taken brtype target makeBranchInfo).ghist a := by
  unfold newGhist
  split
  · split
    · exact ⟨rfl, rfl⟩
    · rw [hzero]
      exact ⟨rfl, rfl⟩
  · split <;> exact ⟨rfl, rfl⟩

end

lemma Shows.updatePathAndGlobalHistory (h : Shows k s a) (hzero : bi.nGhist = 0)
    (hkeeps : KeepsBits c s.ptGhist (bitCount c inst pc o) k) :
    ∃ t bi', s.updatePathAndGlobalHistory (branchType c inst) o.taken pc o.target bi =
        .ok (t, bi') ∧ bi'.nGhist = bitCount c inst pc o ∧ bi'.pathHist = bi.pathHist ∧
      Shows (k + bitCount c inst pc o) t (a.update inst pc o) := by
  have hshows := h.setPath (calcNewPathHist c pc s.pathHist o.taken (branchType c inst) o.target)
  obtain ⟨hcount, hbits⟩ := newGhist_of_zero c pc o.taken (branchType c inst) o.target hzero
    { a with path := calcNewPathHist c pc s.pathHist o.taken (branchType c inst) o.target }
  have hkeeps' : KeepsBits c s.ptGhist
      (newGhist c pc o.taken (branchType c inst) o.target bi).nGhist k := by
    rw [hcount]
    exact hkeeps
  obtain ⟨t, ht, hend⟩ := hshows.updateGHist hkeeps'
    (newGhist c pc o.taken (branchType c inst) o.target bi).ghist
  refine ⟨t, _, bind_eq_ok_iff.mpr ⟨t, ht, rfl⟩, hcount, pathHist_newGhist _ _ _ _ _ _, ?_⟩
  rw [hbits, hcount, h.path] at hend
  exact hend

/-- `updateHistories` once the branch has no bits in the history. -/
lemma updateHistories_of_prepare (hspec : c.speculativeHistUpdate = true) {bi₁ bi₂ : BranchInfo}
    {s₁ : ThreadHistory c} (hprepare : s.prepare bi = .ok (s₁, bi₁)) (hzero : bi₁.nGhist = 0)
    (hupdate : s₁.updatePathAndGlobalHistory (branchType c inst) o.taken pc o.target bi₁ =
      .ok (t, bi₂)) :
    s.updateHistories pc true o.taken o.target inst bi =
      .ok (t, { bi₂ with modified := true }) := by
  rw [updateHistories, hspec, if_neg (not_not.mpr rfl), hprepare]
  refine (if_neg (not_not.mpr hzero)).trans ?_
  exact bind_eq_ok_iff.mpr ⟨(t, bi₂), hupdate, rfl⟩

/-! ## The branches in flight -/

inductive Chain : IdealHistory c.maxHist → List (InFlight (ThreadHistory c) BranchRecord) → Prop
  | nil (a : IdealHistory c.maxHist) : Chain a []
  | untouched {a : IdealHistory c.maxHist} {f : InFlight (ThreadHistory c) BranchRecord}
      {older : List (InFlight (ThreadHistory c) BranchRecord)}
      (hmodified : f.record.info.modified = false) (hzero : f.record.info.nGhist = 0)
      (hbefore : Shows 0 f.before a) (holder : Chain a older) : Chain a (f :: older)
  | updated {a : IdealHistory c.maxHist} {f : InFlight (ThreadHistory c) BranchRecord}
      {older : List (InFlight (ThreadHistory c) BranchRecord)} {n : Nat} (bv : BitVec 64)
      (path : BitVec 32) (hmodified : f.record.info.modified = true)
      (hcount : f.record.info.nGhist = n) (hpath : f.record.info.pathHist = a.path)
      (hbefore : Shows 0 f.before a) (holder : Chain a older) :
      Chain (pushBits n bv { a with path := path }) (f :: older)

def outstanding (inFlight : List (InFlight (ThreadHistory c) BranchRecord)) : Nat :=
  (inFlight.map fun f => f.record.info.nGhist).sum

lemma outstanding_cons (f : InFlight (ThreadHistory c) BranchRecord)
    (older : List (InFlight (ThreadHistory c) BranchRecord)) :
    outstanding (f :: older) = outstanding older + f.record.info.nGhist := by
  rw [outstanding, map_cons, sum_cons, Nat.add_comm]
  rfl

def Recoverable (s : Speculation.State (ThreadHistory c) BranchRecord) : Prop :=
  ∃ a, Shows (outstanding s.inFlight) s.history a ∧ Chain a s.inFlight

variable {f : InFlight (ThreadHistory c) BranchRecord}
  {older younger : List (InFlight (ThreadHistory c) BranchRecord)}

lemma setPath_pushBits (n : Nat) (bv : BitVec 64) (a : IdealHistory c.maxHist)
    (path : BitVec 32) :
    { pushBits n bv a with path := path } = pushBits n bv { a with path := path } := by
  induction n generalizing bv a with
  | zero => rfl
  | succ _ ih => exact ih (bv >>> 1) (a.push (bv.getLsbD 0))

lemma restore_youngest (hspec : c.speculativeHistUpdate = true)
    (h : Recoverable ⟨s, f :: older⟩) :
    ∃ s₁ bi₁ a, s.restoreHistState f.record.info = .ok (s₁, bi₁) ∧ bi₁.nGhist = 0 ∧
      (f.record.info.modified = true → bi₁.pathHist = a.path) ∧
      s₁.ptGhist = s.ptGhist + f.record.info.nGhist ∧ Shows (outstanding older) s₁ a ∧
      Shows 0 f.before a ∧ Chain a older := by
  obtain ⟨a, hshows, hchain⟩ := h
  dsimp only at hshows hchain
  rw [outstanding_cons] at hshows
  have hon : ¬ c.speculativeHistUpdate = false := by
    rw [hspec]
    exact Bool.noConfusion
  cases hchain with
  | untouched hmodified hzero hbefore holder =>
    rw [hzero] at hshows
    refine ⟨s, f.record.info, a, ?_, hzero, ?_, by rw [hzero]; rfl, hshows, hbefore, holder⟩
    · rw [restoreHistState, if_neg hon, if_pos hmodified]
    · rw [hmodified]
      rintro ⟨⟩
  | @updated a _ _ n bv path hmodified hcount hpath hbefore holder =>
    have hback := hshows.setPath f.record.info.pathHist
    rw [setPath_pushBits, hcount] at hback
    have hsame : ({ a with path := f.record.info.pathHist } : IdealHistory c.maxHist) = a := by
      rw [hpath]
    have hmod : ¬ f.record.info.modified = false := by
      rw [hmodified]
      exact Bool.noConfusion
    dsimp only at hback
    rw [hsame] at hback
    by_cases hn : n = 0
    · subst hn
      refine ⟨_, f.record.info, a, ?_, hcount, fun _ => hpath, ?_, hback, hbefore, holder⟩
      · rw [restoreHistState, if_neg hon, if_neg hmod, if_pos hcount]
      · rw [hcount]
        rfl
    · obtain ⟨t, ht, hend, hpt⟩ := hback.unshiftBits
      refine ⟨t, { f.record.info with nGhist := 0, modified := false }, a, ?_, rfl,
        fun _ => hpath, ?_,
        hend, hbefore, holder⟩
      · rw [restoreHistState, if_neg hon, if_neg hmod]
        refine (if_neg (hcount ▸ hn)).trans ?_
        rw [hcount]
        exact bind_eq_ok_iff.mpr ⟨t, ht, rfl⟩
      · rw [hcount]
        exact hpt

lemma prepare_youngest (hspec : c.speculativeHistUpdate = true)
    (h : Recoverable ⟨s, f :: older⟩) :
    ∃ s₁ bi₁ a, s.prepare f.record.info = .ok (s₁, bi₁) ∧ bi₁.nGhist = 0 ∧ bi₁.pathHist = a.path ∧
      s₁.ptGhist = s.ptGhist + f.record.info.nGhist ∧ Shows (outstanding older) s₁ a ∧
      Shows 0 f.before a ∧ Chain a older := by
  obtain ⟨s₁, bi₁, a, hrestore, hzero, hpath, hpt, hshows, hbefore, holder⟩ :=
    restore_youngest hspec h
  cases hmodified : f.record.info.modified with
  | true =>
    refine ⟨s₁, bi₁, a, ?_, hzero, hpath hmodified, hpt, hshows, hbefore, holder⟩
    rw [prepare, if_pos hmodified, hrestore]
  | false =>
    have hsame : s.restoreHistState f.record.info = .ok (s, f.record.info) := by
      rw [restoreHistState, hspec]
      exact if_pos hmodified
    obtain ⟨rfl, rfl⟩ := Prod.mk.inj (ok.inj (hrestore.symm.trans hsame))
    refine ⟨s₁, s₁.recordHistState f.record.info, a, ?_, hzero, hshows.path, hpt, hshows, hbefore,
      holder⟩
    rw [prepare, hmodified, hspec]
    rfl

/-! ## The four operations -/

/-- What the branches see of the histories. -/
structure Same (s t : ThreadHistory c) : Prop where
  pathHist : s.pathHist = t.pathHist
  globalHist : ∀ j < c.maxHist, s.globalHist (s.ptGhist + j) = t.globalHist (t.ptGhist + j)
  folded : s.folded = t.folded

lemma Shows.same {m : Nat} (hs : Shows k s a) (ht : Shows m t a) : Same s t where
  pathHist := hs.path.trans ht.path.symm
  globalHist := fun j hj => (hs.stream j (by omega)).trans (ht.stream j (by omega)).symm
  folded := hs.folded.trans ht.folded.symm

/-- No rollover of the run loses bits that are still needed. A correction first takes the bits
of the branch back. -/
def Room (s : Speculation.State (ThreadHistory c) BranchRecord) :
    Speculation.Op BranchInput Correction → Prop
  | .predict (.predicted inst pc taken target) =>
    KeepsBits c s.history.ptGhist (bitCount c inst pc ⟨taken, target⟩) (outstanding s.inFlight)
  | .correct o => ∀ f ∈ s.inFlight.head?,
    KeepsBits c (s.history.ptGhist + f.record.info.nGhist)
      (bitCount c f.record.inst f.record.pc o) (outstanding s.inFlight.tail)
  | _ => True

lemma predict_eq (hspec : c.speculativeHistUpdate = true) (h : Shows k s a)
    (hkeeps : KeepsBits c s.ptGhist (bitCount c inst pc o) k) :
    ∃ t bi, predict s (.predicted inst pc o.taken o.target) =
        .ok (t, ⟨inst, pc, o.taken, o.target, bi⟩) ∧ bi.modified = true ∧
      bi.nGhist = bitCount c inst pc o ∧ bi.pathHist = a.path ∧
      Shows (k + bitCount c inst pc o) t (a.update inst pc o) := by
  have hprepare : s.prepare makeBranchInfo = .ok (s, s.recordHistState makeBranchInfo) := by
    rw [prepare, hspec]
    rfl
  have hzero : (s.recordHistState makeBranchInfo).nGhist = 0 := rfl
  obtain ⟨t, bi, hupdate, hcount, hpath, hend⟩ := h.updatePathAndGlobalHistory hzero hkeeps
  refine ⟨t, { bi with modified := true }, ?_, rfl, hcount, hpath.trans h.path, hend⟩
  exact bind_eq_ok_iff.mpr ⟨_, updateHistories_of_prepare hspec hprepare hzero hupdate, rfl⟩

lemma correct_eq (hspec : c.speculativeHistUpdate = true) (h : Recoverable ⟨s, f :: older⟩)
    (hroom : Room ⟨s, f :: older⟩ (.correct o)) :
    ∃ t bi a, correct s f.record o =
        .ok (t, { f.record with taken := o.taken, target := o.target, info := bi }) ∧
      bi.modified = true ∧ bi.nGhist = bitCount c f.record.inst f.record.pc o ∧
      bi.pathHist = a.path ∧
      Shows (outstanding older + bitCount c f.record.inst f.record.pc o) t
        (a.update f.record.inst f.record.pc o) ∧ Shows 0 f.before a ∧ Chain a older := by
  obtain ⟨s₁, _, a, hprepare, hzero, hpath₁, hpt, hshows, hbefore, holder⟩ :=
    prepare_youngest hspec h
  have hkeeps : KeepsBits c s₁.ptGhist (bitCount c f.record.inst f.record.pc o)
      (outstanding older) := by
    rw [hpt]
    exact hroom f rfl
  obtain ⟨t, bi, hupdate, hcount, hpath, hend⟩ := hshows.updatePathAndGlobalHistory hzero hkeeps
  refine ⟨t, { bi with modified := true }, a, ?_, rfl, hcount, hpath.trans hpath₁, hend, hbefore,
    holder⟩
  exact bind_eq_ok_iff.mpr ⟨_, updateHistories_of_prepare hspec hprepare hzero hupdate, rfl⟩

lemma Chain.dropLast {a : IdealHistory c.maxHist} (h : Chain a (younger ++ [f])) :
    Chain a younger := by
  induction younger generalizing a with
  | nil => exact .nil a
  | cons _ _ ih =>
    cases h with
    | untouched hmodified hzero hbefore holder =>
      exact .untouched hmodified hzero hbefore (ih holder)
    | updated bv path hmodified hcount hpath hbefore holder =>
      exact .updated bv path hmodified hcount hpath hbefore (ih holder)

lemma recovers (hspec : c.speculativeHistUpdate = true) :
    Recovers (tagePredictor c) Room Same Recoverable where
  predict := by
    rintro ⟨s, inFlight⟩ input t r ⟨a, hshows, hchain⟩ hroom hpredict
    cases input with
    | predicted inst pc taken target =>
      obtain ⟨_, _, heq, hmodified, hcount, hpath, hend⟩ := predict_eq hspec hshows hroom
      obtain ⟨rfl, rfl⟩ := Prod.mk.inj (ok.inj (heq.symm.trans hpredict))
      refine ⟨a.update inst pc ⟨taken, target⟩, ?_,
        .updated _ _ hmodified hcount hpath (hshows.mono (Nat.zero_le _)) hchain⟩
      dsimp only
      rw [outstanding_cons, hcount]
      exact hend
    | placeholder =>
      obtain ⟨rfl, rfl⟩ := Prod.mk.inj (ok.inj hpredict)
      refine ⟨a, ?_, .untouched rfl rfl (hshows.mono (Nat.zero_le _)) hchain⟩
      dsimp only
      rw [outstanding_cons]
      exact hshows
  correct := by
    intro s f older o t r h hroom hcorrect
    obtain ⟨_, _, a, heq, hmodified, hcount, hpath, hend, hbefore, holder⟩ :=
      correct_eq hspec h hroom
    obtain ⟨rfl, rfl⟩ := Prod.mk.inj (ok.inj (heq.symm.trans hcorrect))
    refine ⟨a.update f.record.inst f.record.pc o, ?_,
      .updated _ _ hmodified hcount hpath hbefore holder⟩
    dsimp only
    rw [outstanding_cons, hcount]
    exact hend
  squash := by
    intro s f older h
    obtain ⟨t, bi, a, hrestore, _, _, _, hshows, hbefore, holder⟩ := restore_youngest hspec h
    exact ⟨t, map_eq_ok_iff.mpr ⟨(t, bi), hrestore, rfl⟩, hshows.same hbefore, a, hshows, holder⟩
  commit := by
    rintro s younger f t ⟨a, hshows, hchain⟩ _ hcommit
    obtain ⟨⟨t', bi⟩, hupdate, rfl⟩ := map_eq_ok_iff.mp hcommit
    rw [updateHistories, hspec, if_pos Bool.noConfusion] at hupdate
    obtain ⟨rfl, rfl⟩ := Prod.mk.inj (ok.inj hupdate)
    have hle : outstanding younger ≤ outstanding (younger ++ [f]) := by
      rw [outstanding, outstanding, map_append, sum_append]
      exact Nat.le_add_right _ _
    have hless := hshows.mono hle
    exact ⟨a, ⟨hless.path, hless.folded, hless.stream, hless.room⟩, hchain.dropLast⟩

/-! ## Runs -/

/-- Without branches in flight the buffer only has to hold the visible bits. -/
lemma shows_self (h : s.ptGhist + c.maxHist < c.histBufferSize) :
    Shows 0 s ⟨s.pathHist, fun j => s.globalHist (s.ptGhist + j), s.folded⟩ :=
  ⟨rfl, rfl, fun _ _ => rfl, h⟩

lemma recoverable_start (h : s.ptGhist + c.maxHist < c.histBufferSize) : Recoverable ⟨s, []⟩ :=
  ⟨_, shows_self h, .nil _⟩

lemma corrections_return (hspec : c.speculativeHistUpdate = true) (os : List Correction)
    (h : Recoverable ⟨s, f :: older⟩)
    (hroom : Along (step (tagePredictor c)) Room ⟨s, f :: older⟩ (os.map .correct)) :
    ∃ t r, run (step (tagePredictor c)) ⟨s, f :: older⟩ (os.map .correct) =
        .ok ⟨t, { f with record := r } :: older⟩ ∧ r.inst = f.record.inst ∧ r.pc = f.record.pc ∧
      Recoverable ⟨t, { f with record := r } :: older⟩ := by
  induction os generalizing s f with
  | nil => exact ⟨s, f.record, rfl, rfl, rfl, h⟩
  | cons o _ ih =>
    obtain ⟨mid, bi, _, hcorrect, _⟩ := correct_eq hspec h hroom.1
    have hstep : step (tagePredictor c) ⟨s, f :: older⟩ (.correct o) = .ok ⟨mid, { f with
        record := { f.record with taken := o.taken, target := o.target, info := bi } } :: older⟩ :=
      bind_eq_ok_iff.mpr ⟨_, hcorrect, rfl⟩
    obtain ⟨t, r, hrun, hinst, hpc, hend⟩ := ih ((recovers hspec).step h hroom.1 hstep)
      (hroom.2 _ hstep)
    exact ⟨t, r, bind_eq_ok_iff.mpr ⟨_, hstep, hrun⟩, hinst, hpc, hend⟩

/-- If no rollover loses outstanding bits, squashing the branches down to `f` brings back the
histories from before `f`, and squashing the younger ones and correcting `f`, once or several times,
leaves those that a prediction of the last outcome would have left. -/
theorem tage_histories_recovered (hspec : c.speculativeHistUpdate = true) {s₀ h : ThreadHistory c}
    (hs₀ : s₀.ptGhist + c.maxHist < c.histBufferSize)
    {ops : List (Speculation.Op BranchInput Correction)}
    (hrun : run (step (tagePredictor c)) ⟨s₀, []⟩ ops = .ok ⟨h, younger ++ f :: older⟩)
    (hroom : Along (step (tagePredictor c)) Room ⟨s₀, []⟩ ops) :
    (∃ t, run (step (tagePredictor c)) ⟨h, younger ++ f :: older⟩
        (List.replicate (younger.length + 1) .squash) = .ok ⟨t, older⟩ ∧ Same t f.before) ∧
    ∀ (earlier : List Correction) (o : Correction),
      Along (step (tagePredictor c)) Room ⟨h, younger ++ f :: older⟩
        (List.replicate younger.length .squash ++ (earlier ++ [o]).map .correct) →
      KeepsBits c f.before.ptGhist (bitCount c f.record.inst f.record.pc o) 0 →
      ∃ t r t' r', run (step (tagePredictor c)) ⟨h, younger ++ f :: older⟩
          (List.replicate younger.length .squash ++ (earlier ++ [o]).map .correct) =
            .ok ⟨t, { f with record := r } :: older⟩ ∧
        predict f.before (.predicted f.record.inst f.record.pc o.taken o.target) = .ok (t', r') ∧
        Same t t' := by
  have hreached := (recovers hspec).run (recoverable_start hs₀) hroom hrun
  constructor
  · obtain ⟨t, ht, hsame, _⟩ := (recovers hspec).unwind hreached
    exact ⟨t, ht, hsame⟩
  · intro earlier o halong hkeeps
    obtain ⟨_, hs₁, hreached₁⟩ := (recovers hspec).squashes hreached
    have halong₁ := along_append hs₁ halong
    rw [map_append] at halong₁ ⊢
    rw [run_append _ hs₁]
    -- the first corrections leave a state of the same kind
    obtain ⟨_, r₂, hs₂, hinst, hpc, hreached₂⟩ :=
      corrections_return hspec earlier hreached₁ (along_before halong₁)
    have hlast := (along_append hs₂ halong₁).1
    obtain ⟨t, bi, a, hcorrect, _, _, _, hshows, hbefore, _⟩ := correct_eq hspec hreached₂ hlast
    dsimp only at hcorrect hshows hbefore
    rw [hinst, hpc] at hshows
    obtain ⟨t', _, hpredict, _, _, _, hshows'⟩ := predict_eq hspec hbefore hkeeps
    refine ⟨t, { r₂ with taken := o.taken, target := o.target, info := bi }, t', _, ?_, hpredict,
      hshows.same hshows'⟩
    rw [run_append _ hs₂]
    exact bind_eq_ok_iff.mpr ⟨_, bind_eq_ok_iff.mpr ⟨_, hcorrect, rfl⟩, rfl⟩

/-! ## A buffer with room -/

/-- Four visible bits in a buffer that has room for a rollover. -/
def TageParams.wide : TageParams := ⟨.base, 4010, 4, 8, 0, false, false, true⟩

/-- The whole history is folded to three bits. -/
def ThreadHistory.wide : ThreadHistory .wide :=
  ⟨0, 0, fun _ => false, 8,
    [⟨0, 3, 4, by decide, by decide, by decide, fun _ _ => BitVec.getLsbD_zero⟩]⟩

instance (s : Speculation.State (ThreadHistory c) BranchRecord)
    (op : Speculation.Op BranchInput Correction) : Decidable (Room s op) := by
  cases op with
  | predict input =>
    cases input with
    | predicted => exact inferInstanceAs (Decidable (KeepsBits _ _ _ _))
    | placeholder => exact inferInstanceAs (Decidable True)
  | correct => exact inferInstanceAs (Decidable (∀ f ∈ s.inFlight.head?, KeepsBits _ _ _ _))
  | squash | commit => exact inferInstanceAs (Decidable True)

def condBranch : StaticInst := ⟨0, true, false, false, true, false, true, false, false, false, 4⟩

/-- The branch is predicted not taken and corrected twice. -/
theorem tage_histories_recovered_small :
    ∃ s t t' r', run (step (tagePredictor .wide)) ⟨.wide, []⟩
          [.predict (.predicted condBranch 8 false 12)] = .ok s ∧
        run (step (tagePredictor .wide)) s [.correct ⟨true, 64⟩, .correct ⟨true, 32⟩] = .ok t ∧
        predict wide (.predicted condBranch 8 true 32) = .ok (t', r') ∧
        Same t.history t' := by
  have hroom : Along (step (tagePredictor .wide)) Room ⟨.wide, []⟩
      ([.predict (.predicted condBranch 8 false 12)] ++
        [.correct ⟨true, 64⟩, .correct ⟨true, 32⟩]) :=
    along_of_test Room (by decide +kernel)
  have hkeeps : KeepsBits .wide 8 (bitCount .wide condBranch 8 ⟨false, 12⟩) 0 := by decide
  have hother : KeepsBits .wide 8 (bitCount .wide condBranch 8 ⟨true, 32⟩) 0 := by decide
  obtain ⟨h, bi, hpredict, _⟩ := predict_eq (s := wide) rfl
    (shows_self (by decide)) hkeeps
  have hrun : run (step (tagePredictor .wide)) ⟨.wide, []⟩
      [.predict (.predicted condBranch 8 false 12)] =
      .ok ⟨h, [] ++ ⟨⟨condBranch, 8, false, 12, bi⟩, .wide⟩ :: []⟩ :=
    bind_eq_ok_iff.mpr ⟨_, bind_eq_ok_iff.mpr ⟨_, hpredict, rfl⟩, rfl⟩
  obtain ⟨t, r, t', r', ht, ht', hsame⟩ := (tage_histories_recovered rfl (by decide) hrun
    (along_before hroom)).2 [⟨true, 64⟩] ⟨true, 32⟩ (along_append hrun hroom) hother
  exact ⟨_, _, t', r', hrun, ht, ht', hsame⟩

end Tage

end BTBFerret
