import BTBFerret.TageRecovery

/-!
# Folded histories and the buffer below them

A folded history is computed one bit at a time, with a rotation and two exclusive ors. It is the
exclusive or of the bits of the history, each shifted to its position modulo the compressed length.
A thread that inserts bits, takes the youngest ones back and retires the oldest is compared with a
logical history that has no buffer.
-/

namespace BTBFerret

open FallibleRuns

namespace Tage

open IdealHistory Nat

/-! ## What a folded history is -/

/-- The exclusive or of the first bits of a history, bit `j` at position `j % compLength`. -/
def foldBits (g : Nat → Bool) (compLength : Nat) : Nat → BitVec 32
  | 0 => 0
  | j + 1 => foldBits g compLength j ^^^ (bit (g j) <<< (j % compLength))

lemma getLsbD_bit_shift {k : Nat} (hk : k < 32) (b : Bool) (i : Nat) :
    (bit b <<< k).getLsbD i = (decide (i = k) && b) := by
  simp only [BitVec.getLsbD_shiftLeft, getLsbD_bit]
  grind

variable {compLength : Nat}

lemma fits_foldBits (hpos : 0 < compLength) (hlt : compLength < 32) (g : Nat → Bool) (n : Nat) :
    Fits compLength (foldBits g compLength n) := by
  intro i hi
  induction n with
  | zero => simp [foldBits]
  | succ n ih =>
    have hmod := mod_lt n hpos
    rw [foldBits, BitVec.getLsbD_xor, ih, getLsbD_bit_shift (by omega)]
    simp [show i ≠ n % compLength by omega]

lemma mod_succ_eq_iff (hpos : 0 < compLength) {i : Nat} (hi : i < compLength) (n : Nat) :
    i = (n + 1) % compLength ↔ (if i = 0 then compLength - 1 else i - 1) = n % compLength := by
  have hlt := mod_lt n hpos
  have hsucc : (n + 1) % compLength = if n % compLength + 1 = compLength then 0
      else n % compLength + 1 := by
    rw [add_mod_eq_ite]
    have hone := mod_lt 1 hpos
    rcases Nat.lt_or_ge 1 compLength with h | h
    · rw [mod_eq_of_lt h]
      grind
    · obtain rfl : compLength = 1 := by omega
      simp [mod_one]
  rw [hsucc]
  grind

/-- A new bit in front moves every other bit one position on. -/
lemma getLsbD_foldBits_push (hpos : 0 < compLength) (hlt : compLength < 32) (b : Bool)
    (g : Nat → Bool) (n : Nat) {i : Nat} (hi : i < compLength) :
    (foldBits (pushStream b g) compLength (n + 1)).getLsbD i =
      ((decide (i = 0) && b) ^^
        (foldBits g compLength n).getLsbD (if i = 0 then compLength - 1 else i - 1)) := by
  induction n with
  | zero => simp [foldBits, pushStream, getLsbD_bit]
  | succ n ih =>
    have hmod := Nat.mod_lt n hpos
    have hmod' := Nat.mod_lt (n + 1) hpos
    rw [foldBits, BitVec.getLsbD_xor, ih, getLsbD_bit_shift (by omega), foldBits,
      BitVec.getLsbD_xor, getLsbD_bit_shift (by omega), Bool.xor_assoc,
      decide_eq_decide.mpr (mod_succ_eq_iff hpos hi n)]
    rfl

def FoldedHistory.Folds {m : Nat} (f : FoldedHistory m) (g : Nat → Bool) : Prop :=
  f.comp = foldBits g f.compLength f.origLength

lemma FoldedHistory.Folds.update {m : Nat} {f : FoldedHistory m} {g : Nat → Bool}
    (h : f.Folds g) (b : Bool) :
    (f.update b (pushStream b g f.origLength)).Folds (pushStream b g) := by
  have hout : f.outpoint < f.compLength := Nat.mod_lt _ f.pos
  refine BitVec.eq_of_getLsbD_eq fun i _ => ?_
  change (foldIn f.compLength f.outpoint f.comp b _).getLsbD i =
    (foldBits (pushStream b g) f.compLength f.origLength).getLsbD i
  rcases Nat.lt_or_ge i f.compLength with hi | hi
  · have hprev : (if i = 0 then b ^^ f.comp.getLsbD (f.compLength - 1)
        else f.comp.getLsbD (i - 1)) =
        ((decide (i = 0) && b) ^^ f.comp.getLsbD (if i = 0 then f.compLength - 1 else i - 1)) := by
      by_cases h0 : i = 0
      · simp [h0]
      · simp [h0]
    rw [getLsbD_foldIn f.lt f.fits hout _ _ hi, hprev, h, outpoint]
    cases hlen : f.origLength with
    | zero => simp only [foldBits, pushStream, Nat.zero_mod]; grind
    | succ n =>
      have hmod := Nat.mod_lt n f.pos
      have hlt := f.lt
      -- the oldest bit leaves at the position it would be moved to
      have hleave := mod_succ_eq_iff f.pos hi n
      rw [getLsbD_foldBits_push f.pos f.lt b g n hi, foldBits, BitVec.getLsbD_xor,
        getLsbD_bit_shift (by omega), pushStream]
      grind
  · rw [fits_foldIn _ _ _ _ _ i hi, fits_foldBits f.pos f.lt _ _ i hi]

def IdealHistory.Folds {m : Nat} (a : IdealHistory m) : Prop := ∀ f ∈ a.folded, f.Folds a.stream

lemma IdealHistory.Folds.push {m : Nat} {a : IdealHistory m} (h : a.Folds) (b : Bool) :
    (a.push b).Folds := by
  intro f hf
  obtain ⟨f, hmem, rfl⟩ := List.mem_map.mp hf
  exact (h f hmem).update b

lemma IdealHistory.Folds.pushBits {m n : Nat} {a : IdealHistory m} (h : a.Folds)
    (bv : BitVec 64) : (pushBits n bv a).Folds := by
  induction n generalizing a bv with
  | zero => exact h
  | succ _ ih => exact ih (h.push _) _

/-! ## A thread and its logical history -/

/-- The bits of a vector enter the logical history, the lowest first. -/
def pushStreamBits : Nat → BitVec 64 → (Nat → Bool) → Nat → Bool
  | 0, _, g => g
  | n + 1, bv, g => pushStreamBits n (bv >>> 1) (pushStream (bv.getLsbD 0) g)

lemma stream_pushBits {m : Nat} (n : Nat) (bv : BitVec 64) (a : IdealHistory m) :
    (pushBits n bv a).stream = pushStreamBits n bv a.stream := by
  induction n generalizing bv a with
  | zero => rfl
  | succ _ ih => exact ih _ _

lemma pushStreamBits_behind (n : Nat) (bv : BitVec 64) (g : Nat → Bool) (j : Nat) :
    pushStreamBits n bv g (n + j) = g j := by
  induction n generalizing bv g j with
  | zero => simp [pushStreamBits]
  | succ n ih =>
    rw [pushStreamBits, show n + 1 + j = n + (j + 1) by omega, ih]
    rfl

inductive HistOp where
  | update (bv : BitVec 64) (n : Nat)
  | restore
  | retire

/-- The numbers of bits that can still be taken back, the youngest first. -/
structure Machine (c : TageParams) where
  thread : ThreadHistory c
  outstanding : List Nat

variable {c : TageParams}

def Machine.init (folded : List (FoldedHistory c.maxHist)) : Machine c where
  thread := ⟨0, 0, fun _ => false, 0, folded⟩
  outstanding := []

def Machine.step (m : Machine c) : HistOp → Except TageFault (Machine c)
  | .update bv n => do
    let t ← m.thread.updateGHist bv n
    return ⟨t, n :: m.outstanding⟩
  | .restore =>
    match m.outstanding with
    | [] => .ok m
    | n :: rest => do
      let t ← ThreadHistory.unshiftBits n m.thread
      return ⟨t, rest⟩
  | .retire => .ok { m with outstanding := m.outstanding.dropLast }

/-- The logical history and the ones to which it can be taken back. -/
structure Logical where
  stream : Nat → Bool
  saved : List (Nat → Bool)

def Logical.step (l : Logical) : HistOp → Logical
  | .update bv n => ⟨pushStreamBits n bv l.stream, l.stream :: l.saved⟩
  | .restore =>
    match l.saved with
    | [] => l
    | g :: rest => ⟨g, rest⟩
  | .retire => { l with saved := l.saved.dropLast }

/-- The history after the operations, from an empty one. -/
def logical (ops : List HistOp) : Nat → Bool :=
  (ops.foldl Logical.step ⟨fun _ => false, []⟩).stream

/-- The buffer has room for an update, and a rollover keeps what can be taken back. -/
def Machine.Keeps (m : Machine c) : HistOp → Prop
  | .update _ n => KeepsBits c m.thread.ptGhist n m.outstanding.sum
  | _ => True

/-- The ideal history was reached by the updates that can be taken back. -/
inductive Tracks : IdealHistory c.maxHist → List Nat → List (Nat → Bool) → Prop
  | nil {a : IdealHistory c.maxHist} (h : a.Folds) : Tracks a [] []
  | cons {a : IdealHistory c.maxHist} {ns : List Nat} {gs : List (Nat → Bool)} (n : Nat)
      (bv : BitVec 64) (h : Tracks a ns gs) : Tracks (pushBits n bv a) (n :: ns) (a.stream :: gs)

variable {a : IdealHistory c.maxHist} {ns : List Nat} {gs : List (Nat → Bool)} {m : Machine c}
  {l : Logical}

lemma Tracks.folds (h : Tracks a ns gs) : a.Folds := by
  induction h with
  | nil h => exact h
  | cons _ bv _ ih => exact ih.pushBits bv

lemma Tracks.dropLast (h : Tracks a ns gs) : Tracks a ns.dropLast gs.dropLast := by
  induction h with
  | nil h => exact .nil h
  | cons n bv h ih =>
    cases h with
    | nil h => exact .nil (h.pushBits bv)
    | cons => exact .cons n bv ih

structure Inv (m : Machine c) (l : Logical) (a : IdealHistory c.maxHist) : Prop where
  shows : Shows m.outstanding.sum m.thread a
  stream : a.stream = l.stream
  tracks : Tracks a m.outstanding l.saved

/-- Every operation returns and follows the logical history. -/
lemma Inv.step (h : Inv m l a) {op : HistOp} (hop : m.Keeps op) :
    ∃ m' a', m.step op = .ok m' ∧ Inv m' (l.step op) a' := by
  obtain ⟨_⟩ := m
  obtain ⟨_⟩ := l
  obtain ⟨hshows, rfl, htracks⟩ := h
  cases op with
  | update bv n =>
    obtain ⟨t, ht, hend⟩ := hshows.updateGHist hop bv
    refine ⟨_, pushBits n bv a, bind_eq_ok_iff.mpr ⟨t, ht, rfl⟩, ?_, stream_pushBits n bv a,
      .cons n bv htracks⟩
    rw [List.sum_cons, Nat.add_comm]
    exact hend
  | restore =>
    cases htracks with
    | nil h => exact ⟨_, a, rfl, hshows, rfl, .nil h⟩
    | cons _ _ h =>
      rw [List.sum_cons, Nat.add_comm] at hshows
      obtain ⟨t, ht, hend, _⟩ := hshows.unshiftBits
      exact ⟨_, _, bind_eq_ok_iff.mpr ⟨t, ht, rfl⟩, hend, rfl, h⟩
  | retire =>
    exact ⟨_, a, rfl, hshows.mono ((List.dropLast_sublist _).sum_le_sum fun _ _ =>
      Nat.zero_le _), rfl, htracks.dropLast⟩

lemma Inv.run (h : Inv m l a) {ops : List HistOp}
    (along : Along Machine.step Machine.Keeps m ops) :
    ∃ m' a', run Machine.step m ops = .ok m' ∧ Inv m' (ops.foldl Logical.step l) a' := by
  induction ops generalizing m l a with
  | nil => exact ⟨m, a, rfl, h⟩
  | cons _ _ ih =>
    obtain ⟨mid, _, hmid, hinv⟩ := h.step along.1
    obtain ⟨m', a', hrun, hend⟩ := ih hinv (along.2 mid hmid)
    exact ⟨m', a', bind_eq_ok_iff.mpr ⟨mid, hmid, hrun⟩, hend⟩

lemma Inv.init (hroom : c.maxHist < c.histBufferSize) {folded : List (FoldedHistory c.maxHist)}
    (hzero : ∀ f ∈ folded, f.comp = 0) :
    Inv (Machine.init folded) ⟨fun _ => false, []⟩ ⟨0, fun _ => false, folded⟩ where
  shows := ⟨rfl, rfl, fun _ _ => rfl, by simpa [Machine.init] using hroom⟩
  stream := rfl
  tracks := by
    refine .nil fun f hf => (hzero f hf).trans ?_
    induction f.origLength with
    | zero => rfl
    | succ _ ih => simp [foldBits, bit, ← ih]

/-- Whatever a thread inserts, takes back and retires, its folded histories and its buffer are those
of the logical history. An update can be taken back, and a rollover loses nothing. -/
theorem folded_history_exact (hroom : c.maxHist < c.histBufferSize)
    (folded : List (FoldedHistory c.maxHist)) (hzero : ∀ f ∈ folded, f.comp = 0)
    (ops : List HistOp) (along : Along Machine.step Machine.Keeps (Machine.init folded) ops) :
    ∃ m, run Machine.step (Machine.init folded) ops = .ok m ∧
      (∀ f ∈ m.thread.folded, f.comp = foldBits (logical ops) f.compLength f.origLength) ∧
      (∀ j < c.maxHist, m.thread.globalHist (m.thread.ptGhist + j) = logical ops j) ∧
      ∀ n, KeepsBits c m.thread.ptGhist n m.outstanding.sum →
        (∀ bv, ∃ t u, m.thread.updateGHist bv n = .ok t ∧ t.unshiftBits n = .ok u ∧
          u.folded = m.thread.folded ∧
          ∀ j < c.maxHist, u.globalHist (u.ptGhist + j) = logical ops j) ∧
        (m.thread.ptGhist < n → ∃ u, m.thread.rollOver = .ok u ∧
          u.folded = m.thread.folded ∧
          ∀ j < c.maxHist, u.globalHist (u.ptGhist + j) = logical ops j) := by
  obtain ⟨m, a, hrun, hinv⟩ := (Inv.init hroom hzero).run along
  have hshows := hinv.shows
  have hfolds := hinv.tracks.folds
  have hvisible : ∀ {k : Nat} {u : ThreadHistory c}, Shows k u a →
      u.folded = m.thread.folded ∧
        ∀ j < c.maxHist, u.globalHist (u.ptGhist + j) = logical ops j := by
    intro k u hu
    refine ⟨hu.folded.trans hshows.folded.symm, fun j hj => ?_⟩
    rw [hu.stream j (by omega), hinv.stream]
    rfl
  refine ⟨m, hrun, fun f hf => ?_, (hvisible hshows).2, fun n hkeeps => ⟨fun bv => ?_, ?_⟩⟩
  · rw [hshows.folded] at hf
    have hf := hfolds f hf
    rw [hinv.stream] at hf
    exact hf
  · obtain ⟨t, ht, hend⟩ := hshows.updateGHist hkeeps bv
    obtain ⟨u, hu, hback, _⟩ := hend.unshiftBits
    exact ⟨t, u, ht, hu, hvisible hback⟩
  · intro hlt
    obtain ⟨u, hu, hback, _⟩ := hshows.rollOver hkeeps hlt
    exact ⟨u, hu, hvisible hback⟩

/-- Three of four visible bits folded to two. -/
def FoldedHistory.pair : FoldedHistory TageParams.wide.maxHist :=
  ⟨0, 2, 3, Nat.two_pos, by decide, by decide, fun _ _ => BitVec.getLsbD_zero⟩

/-- The bits of 6 are folded to 3. -/
theorem folded_history_exact_pair :
    ∃ m, run Machine.step (Machine.init [.pair]) [.update 6 3] = .ok m ∧
      (∀ f ∈ m.thread.folded, f.comp = foldBits (logical [.update 6 3]) f.compLength f.origLength) ∧
      foldBits (logical [.update 6 3]) 2 3 = 3 := by
  obtain ⟨m, hrun, hfolded, _⟩ := folded_history_exact (by decide) [.pair]
    (by simp [FoldedHistory.pair]) [.update 6 3]
    ⟨show KeepsBits _ _ _ _ by decide, fun _ _ => trivial⟩
  exact ⟨m, hrun, hfolded, by decide⟩

/-- The update of `comp`, whatever the shift by the compressed length gives. -/
def foldInWith (shr : BitVec 32 → BitVec 32) (compLength outpoint : Nat) (comp : BitVec 32)
    (h0 hOrig : Bool) : BitVec 32 :=
  let comp := ((comp <<< 1) ||| bit h0) ^^^ (bit hOrig <<< outpoint)
  (comp ^^^ shr comp) &&& mask compLength

example : foldIn compLength = foldInWith (· >>> compLength) compLength := rfl

/-- The bits of a list, the youngest first, folded to the whole word. -/
def foldList (shr : BitVec 32 → BitVec 32) (origLength : Nat) : List Bool → BitVec 32
  | [] => 0
  | b :: rest => foldInWith shr 32 (origLength % 32) (foldList shr origLength rest) b
      ((b :: rest).getD origLength false)

/-- A shift by the whole word is undefined, and in any case the top bit is lost. A rollover in a
buffer that is too short repeats bits. -/
theorem fold_fails_outside :
    (¬ ∃ shr, ∀ bits : List Bool,
      foldList shr 33 bits = foldBits (fun j => bits.getD j false) 32 33) ∧
    ∃ m, run Machine.step (Machine.init (c := ⟨.base, 2710, 700, 8, 0, false, false, true⟩) [])
        (.update 1 1 :: List.replicate 10 (.update 0 1)) = .ok m ∧
      (m.thread.globalHist (m.thread.ptGhist + 20) !=
        logical (.update 1 1 :: List.replicate 10 (.update 0 1)) 20) = true := by
  constructor
  · rintro ⟨shr, h⟩
    have htop := h (List.replicate 31 false ++ [true])
    have hnone := h (List.replicate 32 false)
    have hlost := h (false :: (List.replicate 31 false ++ [true]))
    have hzero := h (false :: List.replicate 32 false)
    rw [foldList, htop, show foldBits _ 32 33 = 0x80000000#32 by decide +kernel] at hlost
    rw [foldList, hnone, show foldBits _ 32 33 = 0#32 by decide +kernel] at hzero
    -- both histories are the same word once the top bit is gone
    have hsame : foldInWith shr 32 (33 % 32) 0x80000000#32 false false =
        foldInWith shr 32 (33 % 32) 0#32 false false := rfl
    exact absurd (hlost.symm.trans (hsame.trans hzero)) (by decide +kernel)
  · exact exists_of_holdsAt _ _ (by decide +kernel)

/-! ## The size of the buffer -/

/-- The check of `init` leaves out the bits that a rollover copies besides the visible ones. This is
the length needed for updates of `n` bits. -/
def Machine.Spacious (_ : Machine c) : HistOp → Prop
  | .update _ n => n - 1 + 2 * (c.maxHist + rollbackBuffer) ≤ c.histBufferSize
  | _ => True

def Visible (s : ThreadHistory c) : Prop := s.ptGhist + c.maxHist < c.histBufferSize

def ThreadHistory.ideal (s : ThreadHistory c) : IdealHistory c.maxHist :=
  ⟨s.pathHist, fun j => s.globalHist (s.ptGhist + j), s.folded⟩

variable {s : ThreadHistory c}

lemma Visible.updateGHist (h : Visible s) {n : Nat}
    (hn : n - 1 + 2 * (c.maxHist + rollbackBuffer) ≤ c.histBufferSize) (bv : BitVec 64) :
    ∃ t, s.updateGHist bv n = .ok t ∧ Shows n t (pushBits n bv s.ideal) := by
  have hshows : Shows 0 s s.ideal := ⟨rfl, rfl, fun _ _ => rfl, h⟩
  have hkeeps : KeepsBits c s.ptGhist n 0 := by
    unfold KeepsBits rollbackBuffer at *
    omega
  obtain ⟨t, ht, hend⟩ := hshows.updateGHist hkeeps bv
  exact ⟨t, ht, by simpa using hend⟩

lemma Visible.shiftOut (h : Visible s) : Meets s.shiftOut Visible (· ≠ .outOfBounds) := by
  have hshows : Shows 0 s s.ideal := ⟨rfl, rfl, fun _ _ => rfl, h⟩
  rw [ThreadHistory.shiftOut, ThreadHistory.restoreFolded, if_pos hshows.inBounds]
  change Meets (if s.ptGhist + 1 + c.maxHist < c.histBufferSize then _ else _) _ _
  split
  · next hlt => exact meets_ok.mpr hlt
  · exact meets_error.mpr (by decide)

lemma Visible.unshiftBits (h : Visible s) (n : Nat) :
    Meets (s.unshiftBits n) Visible (· ≠ .outOfBounds) := by
  induction n generalizing s with
  | zero => exact h
  | succ _ ih => exact h.shiftOut.bind fun t ht => ih ht

lemma Visible.step (h : Visible m.thread) {op : HistOp} (hop : m.Spacious op) :
    Meets (m.step op) (fun m => Visible m.thread) (· ≠ .outOfBounds) := by
  cases op with
  | update bv n =>
    obtain ⟨t, ht, hend⟩ := h.updateGHist hop bv
    refine .bind_of_ok ht ?_
    exact (hend.mono (Nat.zero_le n)).room
  | restore =>
    obtain ⟨_, outstanding⟩ := m
    cases outstanding with
    | nil => exact h
    | cons n => exact (h.unshiftBits n).bind fun t ht => ht
  | retire => exact h

/-- In a buffer that is long enough no operation leaves the buffer. The next update moves the
visible bits on by as many positions as it inserts, and a rollover copies every bit it reads. -/
theorem history_stays_in_buffer (hinit : 3 * c.maxHist < c.histBufferSize)
    (folded : List (FoldedHistory c.maxHist)) (ops : List HistOp)
    (along : Along Machine.step Machine.Spacious (Machine.init folded) ops) :
    run Machine.step (Machine.init folded) ops ≠ .error .outOfBounds ∧
      ∀ m, run Machine.step (Machine.init folded) ops = .ok m →
        ∀ n, n - 1 + 2 * (c.maxHist + rollbackBuffer) ≤ c.histBufferSize →
          (∀ bv, ∃ t, m.thread.updateGHist bv n = .ok t ∧ ∀ j < c.maxHist,
            t.globalHist (t.ptGhist + (n + j)) = m.thread.globalHist (m.thread.ptGhist + j)) ∧
          (m.thread.ptGhist < n → ∃ u, m.thread.rollOver = .ok u ∧ n ≤ u.ptGhist ∧
            ∀ j < c.maxHist + rollbackBuffer,
              u.globalHist (u.ptGhist + j) = m.thread.globalHist (m.thread.ptGhist + j)) := by
  have hstart : Visible (Machine.init folded).thread := by
    change 0 + c.maxHist < c.histBufferSize
    omega
  have hmeets := meets_run (fun m => Visible m.thread) (fun m op h hop => h.step hop) hstart along
  refine ⟨fun herror => hmeets.of_error herror rfl, fun m hrun n hn =>
    ⟨fun bv => ?_, fun hlt => ?_⟩⟩
  · obtain ⟨t, ht, hend⟩ := (hmeets.of_ok hrun).updateGHist hn bv
    refine ⟨t, ht, fun j hj => ?_⟩
    rw [hend.stream (n + j) (by omega), stream_pushBits, pushStreamBits_behind]
    rfl
  · have hpt : m.thread.ptGhist + (c.maxHist + rollbackBuffer) ≤ ThreadHistory.copyStart c := by
      rw [ThreadHistory.copyStart]
      omega
    refine ⟨_, if_neg ?_, ?_, fun j hj => copyBits_copied _ hj (by omega)⟩
    · unfold ThreadHistory.copyStart at hpt
      omega
    · change n ≤ ThreadHistory.copyStart c
      unfold ThreadHistory.copyStart rollbackBuffer at *
      omega

/-- The first update of a thread in a buffer that just has room. -/
theorem history_stays_in_buffer_wide :
    ∃ t, (Machine.init [.pair]).thread.updateGHist 6 3 = .ok t ∧
      ∀ j < TageParams.wide.maxHist, t.globalHist (t.ptGhist + (3 + j)) = false :=
  (((history_stays_in_buffer (by decide) [.pair] [] trivial).2 _ rfl 3 (by decide)).1 6)

def TageParams.small : TageParams := ⟨.base, 16, 4, 8, 0, false, false, true⟩

/-- Sixteen bits are more than three times four, and the copy starts before the buffer. -/
theorem history_leaves_buffer :
    3 * TageParams.small.maxHist < TageParams.small.histBufferSize ∧
      run Machine.step (Machine.init (c := .small) []) [.update 1 1] = .error .outOfBounds :=
  ⟨by decide, rfl⟩

end Tage

end BTBFerret
