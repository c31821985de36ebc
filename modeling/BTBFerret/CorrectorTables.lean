import BTBFerret.StatisticalCorrector

/-!
# The tables of the 64KB statistical corrector

`gPredictions` and `gUpdates` of `tage_sc_l_64KB.cc`: seven groups of GEHL tables, each with
weights. A prediction sums one counter from each table, and the update trains one. Both pass a key
made from the PC, which `gIndex` and `getIndUpds` shift once more.
-/

namespace BTBFerret

open List Function

namespace StatisticalCorrector

/-- The groups `bwgehl`, `pgehl`, `lgehl`, `sgehl`, `tgehl`, `imgehl` and `igehl`. -/
inductive Gehl where
  | bw
  | p
  | l
  | s
  | t
  | im
  | i
  deriving DecidableEq

/-- `lengthMask` is the value of `(1 << length[i]) - 1`, which is left open from 31 bits on, and
`shiftRight` that of `x >> n` for a count outside 0 to 63. -/
structure TableParams where
  instShiftAmt : Nat
  logSizeUp : Nat
  nb : Gehl → Nat
  logs : Gehl → Nat
  lengthMask : Gehl → Nat → BitVec 64
  shiftRight : BitVec 64 → Int → BitVec 64
  scCountersWidth : Nat
  extraWeightsWidth : Nat

structure Tables where
  gehl : Gehl → Nat → Addr → Int
  w : Gehl → Addr → Int
  wb : Addr → Int
  updateThreshold : Int
  pUpdateThreshold : Addr → Int

structure PredictedInfo extends BranchInfo where
  predBeforeSC : Bool
  lsum : Int

inductive Access where
  | counter (g : Gehl) (table : Nat) (index : Addr)
  | weight (g : Gehl) (index : Addr)
  deriving DecidableEq

def ctrUpdate (ctr : Int) (taken : Bool) (nbits : Nat) : Int :=
  if 0 < nbits then
    if taken then if ctr < 2 ^ (nbits - 1) - 1 then ctr + 1 else ctr
    else if -2 ^ (nbits - 1) < ctr then ctr - 1 else ctr
  else ctr

/-- `x >> n` on `int64_t`; `undef` is its value where the language leaves it open. -/
def sar (undef : BitVec 64 → Int → BitVec 64) (x : BitVec 64) (n : Int) : BitVec 64 :=
  if 0 ≤ n ∧ n ≤ 63 then x.sshiftRight n.toNat else undef x n

section

variable (c : TableParams)

def getIndUpd (branchPC : Addr) : Addr :=
  let shiftedPC := branchPC >>> c.instShiftAmt
  (shiftedPC ^^^ (shiftedPC >>> 2)) &&& BitVec.ofNat 64 (2 ^ c.logSizeUp - 1)

/-- The tables of weights have the square root of the size. -/
def getIndUpds (branchPC : Addr) : Addr :=
  let shiftedPC := branchPC >>> c.instShiftAmt
  (shiftedPC ^^^ (shiftedPC >>> 2)) &&& BitVec.ofNat 64 (2 ^ (c.logSizeUp / 2) - 1)

def gIndexLogsSubstr (nbr i : Nat) : Nat := if nbr ≤ i + 2 then 1 else 0

def gIndex (branchPC : Addr) (bhist : BitVec 64) (g : Gehl) (i : Nat) : Addr :=
  let shift := sar c.shiftRight bhist
  (branchPC.sshiftRight c.instShiftAmt ^^^ bhist ^^^ shift (8 - i) ^^^ shift (16 - 2 * i) ^^^
    shift (24 - 3 * i) ^^^ shift (32 - 3 * i) ^^^ shift (40 - 4 * i)) &&&
    BitVec.ofNat 64 (2 ^ (c.logs g - gIndexLogsSubstr (c.nb g) i) - 1)

def tableIndex (branchPC : Addr) (hist : BitVec 64) (g : Gehl) (i : Nat) : Addr :=
  gIndex c branchPC (hist &&& c.lengthMask g i) g i

/-- The loop body of `gPredict`: the sum so far and the entries read. -/
def predictTable (t : Tables) (branchPC : Addr) (hist : BitVec 64) (g : Gehl)
    (acc : Int × List Access) (i : Nat) : Int × List Access :=
  let index := tableIndex c branchPC hist g i
  (acc.1 + (2 * t.gehl g i index + 1), acc.2 ++ [.counter g i index])

/-- The sum of a group, with the entries it reads. -/
def gPredict (t : Tables) (branchPC : Addr) (hist : BitVec 64) (g : Gehl) : Int × List Access :=
  let loop := (List.range (c.nb g)).foldl (predictTable c t branchPC hist g) (0, [])
  let ind := getIndUpds c branchPC
  ((1 + if 0 ≤ t.w g ind then 1 else 0) * loop.1, loop.2 ++ [.weight g ind])

def Tables.setCounter (t : Tables) (g : Gehl) (i : Nat) (index : Addr) (ctr : Int) : Tables :=
  { t with gehl := update t.gehl g (update (t.gehl g) i
      (update (t.gehl g i) index ctr)) }

def Tables.setWeight (t : Tables) (g : Gehl) (index : Addr) (ctr : Int) : Tables :=
  { t with w := update t.w g (update (t.w g) index ctr) }

/-- The loop body of `gUpdate`: the sum so far, the tables and the entries trained. -/
def updateTable (branchPC : Addr) (taken : Bool) (hist : BitVec 64) (g : Gehl)
    (acc : Int × Tables × List Access) (i : Nat) : Int × Tables × List Access :=
  let (percsum, t, writes) := acc
  let index := tableIndex c branchPC hist g i
  let ctr := t.gehl g i index
  (percsum + (2 * ctr + 1), t.setCounter g i index (ctrUpdate ctr taken c.scCountersWidth),
    writes ++ [.counter g i index])

/-- Training of a group, with the entries it may change. -/
def gUpdate (t : Tables) (branchPC : Addr) (taken : Bool) (hist : BitVec 64) (g : Gehl)
    (bi : PredictedInfo) : Tables × List Access :=
  let (percsum, t, writes) :=
    (List.range (c.nb g)).foldl (updateTable c branchPC taken hist g) (0, t, [])
  let ind := getIndUpds c branchPC
  let xsum := bi.lsum - (if 0 ≤ t.w g ind then 1 else 0) * percsum
  let t := if decide (0 ≤ xsum + percsum) != decide (0 ≤ xsum) then
      t.setWeight g ind (ctrUpdate (t.w g ind) (decide (0 ≤ percsum) == taken) c.extraWeightsWidth)
    else t
  (t, writes ++ [.weight g ind])

namespace SC64KB

def predictKey (branchPC : Addr) (bi : PredictedInfo) : Addr :=
  ((branchPC >>> c.instShiftAmt) <<< 1) + BitVec.ofNat 64 bi.predBeforeSC.toNat

/-- The key of the group of backward branches when it is trained. -/
def updateKey (pc : Addr) (bi : PredictedInfo) : Addr :=
  (pc <<< 1) + BitVec.ofNat 64 bi.predBeforeSC.toNat

def pcGroups (bi : PredictedInfo) : List (Gehl × BitVec 64) :=
  [(.p, bi.pHist), (.l, bi.localHistories 0), (.s, bi.localHistories 1),
    (.t, bi.localHistories 2), (.im, bi.imHist), (.i, BitVec.ofNat 64 bi.imliCount)]

def thresholdGroups : List Gehl := [.p, .s, .t, .l, .bw, .i]

structure Prediction where
  lsum : Int
  thres : Int
  reads : List Access
  thresReads : List Access

def gPredictions (t : Tables) (branchPC : Addr) (bi : PredictedInfo) (lsum : Int) : Prediction :=
  let calls := (.bw, predictKey c branchPC bi, bi.bwHist) ::
    (pcGroups bi).map fun (g, hist) => (g, branchPC, hist)
  let (lsum, reads) := calls.foldl (fun (lsum, reads) (g, key, hist) =>
    let (sum, r) := gPredict c t key hist g
    (lsum + sum, reads ++ r)) (lsum, [])
  let ind := getIndUpds c branchPC
  let heavy := (if 0 ≤ t.wb ind then 1 else 0) +
    (thresholdGroups.map fun g => if 0 ≤ t.w g ind then 1 else 0).sum
  ⟨lsum, t.updateThreshold / 8 + t.pUpdateThreshold (getIndUpd c branchPC) + 12 * heavy, reads,
    thresholdGroups.map fun g => .weight g ind⟩

def gUpdates (t : Tables) (pc : Addr) (taken : Bool) (bi : PredictedInfo) : Tables × List Access :=
  let calls := (.bw, updateKey pc bi, bi.bwHist) :: (pcGroups bi).map fun (g, hist) => (g, pc, hist)
  calls.foldl (fun (t, writes) (g, key, hist) =>
    let (t, r) := gUpdate c t key taken hist g bi
    (t, writes ++ r)) (t, [])

end SC64KB

end

/-! ## The entries of a group -/

/-- A loop that appends one item a round ends with the items of all rounds. -/
lemma foldl_emits {σ α ι : Type*} {f : σ → ι → σ} {g : ι → α} (out : σ → List α)
    (hf : ∀ s i, out (f s i) = out s ++ [g i]) (l : List ι) (s : σ) :
    out (l.foldl f s) = out s ++ l.map g := by
  induction l generalizing s with
  | nil => simp
  | cons _ _ ih => rw [foldl_cons, ih, hf, map_cons, append_assoc,
      singleton_append]

variable {i : Nat} {a : Access}

section

variable (c : TableParams)

def accesses (g : Gehl) (key : Addr) (hist : BitVec 64) : List Access :=
  (List.range (c.nb g)).map (fun i => .counter g i (tableIndex c key hist g i)) ++
    [.weight g (getIndUpds c key)]

variable {c} {g g' : Gehl} {key : Addr} {hist : BitVec 64}

variable {index : Addr}

@[simp] lemma counter_mem_accesses : .counter g' i index ∈ accesses c g key hist ↔
      g' = g ∧ i < c.nb g ∧ index = tableIndex c key hist g i := by
  simp only [accesses, mem_append, mem_map, mem_range, mem_singleton,
    Access.counter.injEq, reduceCtorEq, or_false]
  constructor
  · rintro ⟨j, hj, rfl, rfl, rfl⟩
    exact ⟨rfl, hj, rfl⟩
  · rintro ⟨rfl, hi, rfl⟩
    exact ⟨i, hi, rfl, rfl, rfl⟩

@[simp] lemma weight_mem_accesses :
    .weight g' index ∈ accesses c g key hist ↔ g' = g ∧ index = getIndUpds c key := by
  simp [accesses]

lemma reads_gPredict (t : Tables) (key : Addr) (hist : BitVec 64) (g : Gehl) :
    (gPredict c t key hist g).2 = accesses c g key hist := by
  have hloop := foldl_emits (f := predictTable c t key hist g) Prod.snd (fun _ _ => rfl)
    (range (c.nb g)) (0, [])
  exact congrArg (· ++ [Access.weight g (getIndUpds c key)]) hloop

lemma writes_gUpdate (t : Tables) (key : Addr) (taken : Bool) (hist : BitVec 64) (g : Gehl)
    (bi : PredictedInfo) : (gUpdate c t key taken hist g bi).2 = accesses c g key hist := by
  have hloop := foldl_emits (f := updateTable c key taken hist g) (fun acc => acc.2.2)
    (fun _ _ => rfl) (range (c.nb g)) (0, t, [])
  exact congrArg (· ++ [Access.weight g (getIndUpds c key)]) hloop

/-! ## The entries are all that matters -/

/-- What is stored in an entry. -/
def Tables.value (t : Tables) : Access → Int
  | .counter g i index => t.gehl g i index
  | .weight g index => t.w g index

lemma value_setCounter (t : Tables) (ctr : Int) (ha : a ≠ .counter g i index) :
    (t.setCounter g i index ctr).value a = t.value a := by
  cases a with
  | weight => rfl
  | counter g' i' j =>
    change update t.gehl g _ g' i' j = t.gehl g' i' j
    by_cases hg : g' = g
    · subst hg
      rw [update_self]
      by_cases hi : i' = i
      · subst hi
        rw [update_self, update_of_ne]
        rintro rfl
        exact ha rfl
      · rw [update_of_ne hi]
    · rw [update_of_ne hg]

lemma value_setWeight (t : Tables) (ctr : Int) (ha : a ≠ .weight g index) :
    (t.setWeight g index ctr).value a = t.value a := by
  cases a with
  | counter => rfl
  | weight g' j =>
    change update t.w g _ g' j = t.w g' j
    by_cases hg : g' = g
    · subst hg
      rw [update_self, update_of_ne]
      rintro rfl
      exact ha rfl
    · rw [update_of_ne hg]

lemma gPredict_congr {t t' : Tables}
    (h : ∀ a ∈ accesses c g key hist, t.value a = t'.value a) :
    gPredict c t key hist g = gPredict c t' key hist g := by
  have hweight : t.w g (getIndUpds c key) = t'.w g (getIndUpds c key) :=
    h (.weight g _) (by simp)
  have hloop : (range (c.nb g)).foldl (predictTable c t key hist g) (0, []) =
      (range (c.nb g)).foldl (predictTable c t' key hist g) (0, []) := by
    refine foldl_ext _ _ _ ?_
    intro acc i hi
    have hctr : t.gehl g i (tableIndex c key hist g i) = t'.gehl g i (tableIndex c key hist g i) :=
      h (.counter g i _) (by simpa using hi)
    simp [predictTable, hctr]
  simp only [gPredict, hloop, hweight]

lemma value_gUpdate (t : Tables) (taken : Bool) (bi : PredictedInfo)
    (ha : a ∉ accesses c g key hist) : (gUpdate c t key taken hist g bi).1.value a = t.value a := by
  have hloop : ∀ (l : List Nat) (acc : Int × Tables × List Access), (∀ i ∈ l, i < c.nb g) →
      (l.foldl (updateTable c key taken hist g) acc).2.1.value a = acc.2.1.value a := by
    intro l
    induction l with
    | nil => exact fun _ _ => rfl
    | cons i _ ih =>
      intro acc hl
      rw [foldl_cons, ih _ (fun j hj => hl j (mem_cons_of_mem i hj))]
      refine value_setCounter _ _ ?_
      rintro rfl
      exact ha (by simp [hl i mem_cons_self])
  have hweight : a ≠ .weight g (getIndUpds c key) := by
    rintro rfl
    exact ha (by simp)
  have hend : ∀ (adjusts : Bool) (u : Tables) (w : Int),
      (if adjusts then u.setWeight g (getIndUpds c key) w else u).value a = u.value a := by
    intro adjusts u w
    cases adjusts with
    | true => exact value_setWeight u w hweight
    | false => rfl
  exact (hend _ _ _).trans (hloop _ _ (fun i hi => mem_range.mp hi))

end

/-! ## Reading and training -/

namespace SC64KB

variable {c : TableParams}

structure KeysAgree (c : TableParams) (pc : Addr) (bi : PredictedInfo) : Prop where
  index : ∀ i < c.nb .bw, ∀ j < c.logs .bw - gIndexLogsSubstr (c.nb .bw) i,
    ((predictKey c pc bi).sshiftRight c.instShiftAmt).getLsbD j =
      ((updateKey pc bi).sshiftRight c.instShiftAmt).getLsbD j
  weight : getIndUpds c (predictKey c pc bi) = getIndUpds c (updateKey pc bi)

lemma masked_xor_eq_iff (x y h : BitVec 64) (width : Nat) :
    (x ^^^ h) &&& BitVec.ofNat 64 (2 ^ width - 1) = (y ^^^ h) &&& BitVec.ofNat 64 (2 ^ width - 1) ↔
      ∀ j < width, x.getLsbD j = y.getLsbD j := by
  have hmask : ∀ j, (BitVec.ofNat 64 (2 ^ width - 1)).getLsbD j =
      (decide (j < 64) && decide (j < width)) := by
    intro j
    rw [BitVec.getLsbD_ofNat, Nat.testBit_two_pow_sub_one]
  constructor
  · intro heq j hj
    by_cases htop : j < 64
    · have hbit := congrArg (fun z : BitVec 64 => z.getLsbD j) heq
      simp only [BitVec.getLsbD_and, BitVec.getLsbD_xor, hmask, htop, hj, decide_true,
        Bool.and_self, Bool.and_true] at hbit
      simpa only [Bool.xor_left_inj] using hbit
    · rw [BitVec.getLsbD_of_ge _ _ (by omega), BitVec.getLsbD_of_ge _ _ (by omega)]
  · intro heq
    refine BitVec.eq_of_getLsbD_eq ?_
    intro j _
    rw [BitVec.getLsbD_and, BitVec.getLsbD_and, BitVec.getLsbD_xor, BitVec.getLsbD_xor, hmask]
    by_cases hj : j < width
    · rw [heq j hj]
    · simp [hj]

lemma gIndex_eq_iff {key key' : Addr} {bhist : BitVec 64} {g : Gehl} :
    gIndex c key bhist g i = gIndex c key' bhist g i ↔
      ∀ j < c.logs g - gIndexLogsSubstr (c.nb g) i,
        (key.sshiftRight c.instShiftAmt).getLsbD j =
          (key'.sshiftRight c.instShiftAmt).getLsbD j := by
  unfold gIndex
  simp only [BitVec.xor_assoc]
  exact masked_xor_eq_iff _ _ _ _

def pcAccesses (c : TableParams) (pc : Addr) (bi : PredictedInfo) : List Access :=
  (pcGroups bi).flatMap fun (g, hist) => accesses c g pc hist

lemma reads_gPredictions (t : Tables) (pc : Addr) (bi : PredictedInfo) (lsum : Int) :
    (gPredictions c t pc bi lsum).reads =
      accesses c .bw (predictKey c pc bi) bi.bwHist ++ pcAccesses c pc bi := by
  simp [gPredictions, pcAccesses, pcGroups, reads_gPredict]

lemma writes_gUpdates (t : Tables) (pc : Addr) (taken : Bool) (bi : PredictedInfo) :
    (gUpdates c t pc taken bi).2 =
      accesses c .bw (updateKey pc bi) bi.bwHist ++ pcAccesses c pc bi := by
  simp [gUpdates, pcAccesses, pcGroups, writes_gUpdate]

/-- The update of a branch leaves all other entries as they are. -/
lemma value_gUpdates (t : Tables) (pc : Addr) (taken : Bool) (bi : PredictedInfo)
    (ha : a ∉ (gUpdates c t pc taken bi).2) : (gUpdates c t pc taken bi).1.value a = t.value a := by
  have hloop : ∀ (calls : List (Gehl × Addr × BitVec 64)) (acc : Tables × List Access),
      (∀ call ∈ calls, a ∉ accesses c call.1 call.2.1 call.2.2) →
      (calls.foldl (fun (t, writes) (g, key, hist) =>
        let (t, r) := gUpdate c t key taken hist g bi
        (t, writes ++ r)) acc).1.value a = acc.1.value a := by
    intro calls
    induction calls with
    | nil => exact fun _ _ => rfl
    | cons call _ ih =>
      intro acc hcalls
      rw [foldl_cons, ih _ (fun other hother => hcalls other (mem_cons_of_mem call hother))]
      exact value_gUpdate _ taken bi (hcalls call mem_cons_self)
  rw [writes_gUpdates, mem_append, not_or] at ha
  refine hloop _ (t, []) ?_
  intro call hcall
  rcases mem_cons.mp hcall with rfl | hother
  · exact ha.1
  · obtain ⟨⟨g, hist⟩, hgroup, rfl⟩ := mem_map.mp hother
    exact fun hmem => ha.2 (mem_flatMap.mpr ⟨(g, hist), hgroup, hmem⟩)

/-- The sum of a prediction depends on the entries read only. -/
lemma lsum_gPredictions {t t' : Tables} {pc : Addr} {bi : PredictedInfo} {lsum : Int}
    (h : ∀ a ∈ (gPredictions c t pc bi lsum).reads, t.value a = t'.value a) :
    (gPredictions c t pc bi lsum).lsum = (gPredictions c t' pc bi lsum).lsum := by
  rw [reads_gPredictions] at h
  have hbw := gPredict_congr fun a ha => h a (mem_append_left _ ha)
  have hother : ∀ g hist, (g, hist) ∈ pcGroups bi →
      gPredict c t pc hist g = gPredict c t' pc hist g := by
    intro g hist hgroup
    refine gPredict_congr fun a ha => h a (mem_append_right _ ?_)
    exact mem_flatMap.mpr ⟨(g, hist), hgroup, ha⟩
  unfold gPredictions
  dsimp only
  rw [foldl_cons, foldl_cons, hbw, foldl_map, foldl_map]
  congr 1
  refine foldl_ext _ _ _ ?_
  rintro acc ⟨g, hist⟩ hgroup
  rw [hother g hist hgroup]

/-- Training other branches, however often, leaves the sum of a prediction as it is, unless one of
them trains an entry that the prediction reads. -/
theorem training_spares_other_sums (t : Tables) (pc : Addr) (bi : PredictedInfo) (lsum : Int)
    (others : List (Addr × Bool × PredictedInfo))
    (h : ∀ o ∈ others, ∀ a ∈ (gPredictions c t pc bi lsum).reads,
      a ∉ (gUpdates c t o.1 o.2.1 o.2.2).2) :
    (gPredictions c (others.foldl
      (fun t o => (gUpdates c t o.1 o.2.1 o.2.2).1) t) pc bi lsum).lsum =
      (gPredictions c t pc bi lsum).lsum := by
  simp only [reads_gPredictions, writes_gUpdates] at h
  induction others generalizing t with
  | nil => rfl
  | cons o others ih =>
    obtain ⟨hfirst, hrest⟩ := forall_mem_cons.mp h
    rw [foldl_cons, ih _ hrest]
    refine (lsum_gPredictions fun a ha => ?_).symm
    rw [reads_gPredictions] at ha
    refine (value_gUpdates t o.1 o.2.1 o.2.2 ?_).symm
    rw [writes_gUpdates]
    exact hfirst a ha

lemma not_mem_pcAccesses {key : Addr} {hist : BitVec 64} (ha : a ∈ accesses c .bw key hist)
    (pc : Addr) (bi : PredictedInfo) : a ∉ pcAccesses c pc bi := by
  cases a with
  | counter =>
    obtain ⟨rfl, _⟩ := counter_mem_accesses.mp ha
    simp [pcAccesses, pcGroups]
  | weight =>
    obtain ⟨rfl, _⟩ := weight_mem_accesses.mp ha
    simp [pcAccesses, pcGroups]

lemma mem_thresReads_iff (t : Tables) (pc : Addr) (bi : PredictedInfo) (lsum : Int) (a : Access) :
    a ∈ pcAccesses c pc bi ∨ a ∈ (gPredictions c t pc bi lsum).thresReads ↔
      a ∈ pcAccesses c pc bi ∨ a = .weight .bw (getIndUpds c pc) := by
  cases a with
  | counter => simp [gPredictions, thresholdGroups]
  | weight =>
    simp only [pcAccesses, pcGroups, gPredictions, thresholdGroups, flatMap_cons,
      flatMap_nil, mem_append, weight_mem_accesses, map_cons, map_nil,
      mem_cons, Access.weight.injEq, not_mem_nil, or_false]
    grind

lemma accesses_eq_iff {pc : Addr} {bi : PredictedInfo} :
    (∀ a, a ∈ accesses c .bw (updateKey pc bi) bi.bwHist ↔
      a ∈ accesses c .bw (predictKey c pc bi) bi.bwHist) ↔ KeysAgree c pc bi := by
  constructor
  · intro h
    constructor
    · intro i hi
      have hmem := (h (.counter .bw i (tableIndex c (updateKey pc bi) bi.bwHist .bw i))).mp
        (by simp [hi])
      rw [counter_mem_accesses] at hmem
      exact gIndex_eq_iff.mp hmem.2.2.symm
    · have hmem := (h (.weight .bw (getIndUpds c (updateKey pc bi)))).mp (by simp)
      rw [weight_mem_accesses] at hmem
      exact hmem.2.symm
  · intro h a
    have hindex : ∀ i < c.nb .bw, tableIndex c (predictKey c pc bi) bi.bwHist .bw i =
        tableIndex c (updateKey pc bi) bi.bwHist .bw i :=
      fun i hi => gIndex_eq_iff.mpr (h.index i hi)
    cases a with
    | weight => simp [h.weight]
    | counter _ i =>
      rw [counter_mem_accesses, counter_mem_accesses]
      constructor
      · rintro ⟨rfl, hi, rfl⟩
        exact ⟨rfl, hi, (hindex i hi).symm⟩
      · rintro ⟨rfl, hi, rfl⟩
        exact ⟨rfl, hi, hindex i hi⟩

/-- The update of a branch trains the entries that its prediction summed exactly if the two keys of
the group of backward branches agree. The weights for the threshold are read at the PC itself; with
them the key of the update must have the weight of the PC as well. -/
theorem corrector_trains_what_it_read (c : TableParams) (t : Tables) (pc : Addr) (taken : Bool)
    (bi : PredictedInfo) (lsum : Int) :
    ((∀ a, a ∈ (gUpdates c t pc taken bi).2 ↔ a ∈ (gPredictions c t pc bi lsum).reads) ↔
      KeysAgree c pc bi) ∧
    ((∀ a, a ∈ (gUpdates c t pc taken bi).2 ↔ a ∈ (gPredictions c t pc bi lsum).reads ∨
        a ∈ (gPredictions c t pc bi lsum).thresReads) ↔
      KeysAgree c pc bi ∧ getIndUpds c (updateKey pc bi) = getIndUpds c pc) := by
  have hupdate : ∀ a ∈ accesses c .bw (updateKey pc bi) bi.bwHist, a ∉ pcAccesses c pc bi :=
    fun a ha => not_mem_pcAccesses ha pc bi
  have hpredict : ∀ a ∈ accesses c .bw (predictKey c pc bi) bi.bwHist, a ∉ pcAccesses c pc bi :=
    fun a ha => not_mem_pcAccesses ha pc bi
  rw [writes_gUpdates, reads_gPredictions, ← accesses_eq_iff]
  constructor
  · constructor
    · intro h a
      have ha := h a
      rw [mem_append, mem_append] at ha
      have := hupdate a
      have := hpredict a
      grind
    · intro h a
      rw [mem_append, mem_append, h a]
  · have hthres : ∀ a, a ∈ accesses c .bw (predictKey c pc bi) bi.bwHist ++ pcAccesses c pc bi ∨
        a ∈ (gPredictions c t pc bi lsum).thresReads ↔
        a ∈ accesses c .bw (predictKey c pc bi) bi.bwHist ∨ a ∈ pcAccesses c pc bi ∨
          a = .weight .bw (getIndUpds c pc) := by
      intro a
      rw [mem_append, or_assoc, mem_thresReads_iff]
    constructor
    · intro h
      -- the key of the update has one weight, which is then that of the PC
      have hweight : getIndUpds c (updateKey pc bi) = getIndUpds c pc := by
        have hmem := (h (.weight .bw (getIndUpds c pc))).mpr ((hthres _).mpr (.inr (.inr rfl)))
        rcases mem_append.mp hmem with hbw | hother
        · exact (weight_mem_accesses.mp hbw).2.symm
        · exact absurd hother (by simp [pcAccesses, pcGroups])
      have hsame : getIndUpds c (predictKey c pc bi) = getIndUpds c (updateKey pc bi) := by
        have hmem := (h (.weight .bw (getIndUpds c (predictKey c pc bi)))).mpr
          ((hthres _).mpr (.inl (weight_mem_accesses.mpr ⟨rfl, rfl⟩)))
        rcases mem_append.mp hmem with hbw | hother
        · exact (weight_mem_accesses.mp hbw).2
        · exact absurd hother (by simp [pcAccesses, pcGroups])
      have hread : .weight .bw (getIndUpds c pc) ∈ accesses c .bw (predictKey c pc bi) bi.bwHist :=
        weight_mem_accesses.mpr ⟨rfl, by rw [hsame, hweight]⟩
      refine ⟨?_, hweight⟩
      intro a
      have ha := h a
      rw [hthres, mem_append] at ha
      have hu := hupdate a
      have hp := hpredict a
      by_cases haw : a = .weight .bw (getIndUpds c pc)
      · subst haw
        exact iff_of_true (weight_mem_accesses.mpr ⟨rfl, hweight.symm⟩) hread
      · tauto
    · rintro ⟨h, hweight⟩ a
      rw [hthres, mem_append, h a]
      constructor
      · tauto
      · rintro (hp | hother | rfl)
        · exact .inl hp
        · exact .inr hother
        · refine .inl ((h _).mp ?_)
          rw [weight_mem_accesses]
          exact ⟨rfl, hweight.symm⟩

/-- The defaults of `bwm`, `pm`, `lm`, `sm`, `tm`, `imm` and `im`. -/
def lengths64KB : Gehl → List Nat
  | .bw => [40, 24, 10]
  | .p => [25, 16, 9]
  | .l => [11, 6, 3]
  | .s => [16, 11, 6]
  | .t => [9, 4]
  | .im => [10, 4]
  | .i => [8]

/-- The default sizes, for instructions of four bytes, on a processor that takes the count of a
shift modulo the width. -/
def default64KB : TableParams where
  instShiftAmt := 2
  logSizeUp := 6
  nb
    | .bw => 3
    | .p => 3
    | .l => 3
    | .s => 3
    | .t => 2
    | .im => 2
    | .i => 1
  logs
    | .bw => 10
    | .p => 9
    | .l => 10
    | .s => 9
    | .t => 10
    | .im => 9
    | .i => 8
  lengthMask g i := BitVec.ofNat 64 (2 ^ ((lengths64KB g).getD i 0 % 32) - 1)
  shiftRight x n := x.sshiftRight (n % 64).toNat
  scCountersWidth := 6
  extraWeightsWidth := 6

/-- The tables of the constructor: of the counters those with even indices start at -1. -/
def freshTables : Tables where
  gehl _ _ index := if index.getLsbD 0 then 0 else -1
  w g _ := if g = .im then 0 else 7
  wb _ := 4
  updateThreshold := 280
  pUpdateThreshold _ := 0

/-- Training the branch at 8 leaves the sum of the branch at 4. -/
theorem training_spares_other_sums_64KB :
    (gPredictions default64KB (gUpdates default64KB freshTables 8 true
      ⟨makeBranchInfo, false, 0⟩).1 4 ⟨makeBranchInfo, false, 0⟩ 0).lsum =
    (gPredictions default64KB freshTables 4 ⟨makeBranchInfo, false, 0⟩ 0).lsum :=
  training_spares_other_sums freshTables 4 ⟨makeBranchInfo, false, 0⟩ 0
    [(8, true, ⟨makeBranchInfo, false, 0⟩)] (by decide +kernel)

/-- For the branch at 4 the prediction reads counter 0 of the first table of backward branches, and
the update trains counter 2. -/
theorem corrector_trains_another_counter :
    Access.counter .bw 0 2 ∈ (gUpdates default64KB freshTables 4 true
      ⟨makeBranchInfo, false, 0⟩).2 ∧
    Access.counter .bw 0 2 ∉ (gPredictions default64KB freshTables 4
      ⟨makeBranchInfo, false, 0⟩ 0).reads ∧
    Access.counter .bw 0 0 ∈ (gPredictions default64KB freshTables 4
      ⟨makeBranchInfo, false, 0⟩ 0).reads := by
  decide +kernel

end SC64KB

end StatisticalCorrector

end BTBFerret
