import Mathlib.Data.BitVec
import Mathlib.Data.List.Perm.Basic
import Mathlib.Logic.Function.Basic
import Mathlib.Tactic.Linarith
import Mathlib.Tactic.Ring

/-!
# The Huffman encoder of the cache compressors

The queue of trees may give any of its least frequent nodes. Both maps are filled leaf by leaf, the
right subtree first, and a later assignment overwrites an earlier one.
-/

namespace BTBFerret.Huffman

open List Function

@[ext] structure Code where
  code : BitVec 64
  length : Nat
  deriving DecidableEq

namespace Code

def left (c : Code) : Code := ⟨c.code <<< 1, c.length + 1⟩

def right (c : Code) : Code := ⟨(c.code <<< 1) + 1, c.length + 1⟩

end Code

inductive Node
  | leaf (value frequency : BitVec 64)
  | internal (left right : Node)
  deriving DecidableEq

namespace Node

def getFrequency : Node → BitVec 64
  | leaf _ frequency => frequency
  | internal left right => left.getFrequency + right.getFrequency

/-- The leaves with their paths (`true` is right), in the order in which codes are generated. -/
def paths : Node → List (List Bool × BitVec 64)
  | leaf value _ => [([], value)]
  | internal left right =>
    right.paths.map (Prod.map (true :: ·) id) ++ left.paths.map (Prod.map (false :: ·) id)

def values (node : Node) : List (BitVec 64) := node.paths.map Prod.snd

/-- The leaves that get a code. -/
def kept (maxCodeLength : Nat) (node : Node) : List (List Bool × BitVec 64) :=
  node.paths.filter (·.1.length ≤ maxCodeLength)

end Node

/-- `top` and `pop` of the queue. -/
def Pops (trees : List Node) (top : Node) (rest : List Node) : Prop :=
  trees ~ top :: rest ∧ ∀ node ∈ rest, top.getFrequency ≤ node.getFrequency

inductive BuildTree : List Node → Node → Prop
  | last (root : Node) : BuildTree [root] root
  | merge {trees rest rest' : List Node} {left right root : Node} (hleft : Pops trees left rest)
      (hright : Pops rest right rest') (hroot : BuildTree (.internal left right :: rest') root) :
      BuildTree trees root

structure CodeMaps where
  valueToCode : BitVec 64 → Option Code
  codeToValue : BitVec 64 → Option (BitVec 64)

namespace CodeMaps

def empty : CodeMaps := ⟨fun _ => none, fun _ => none⟩

def assign (maps : CodeMaps) (value : BitVec 64) (code : Code) : CodeMaps where
  valueToCode := update maps.valueToCode value (some code)
  codeToValue := update maps.codeToValue code.code (some value)

def generateCodes (maxCodeLength : Nat) : Node → Code → CodeMaps → CodeMaps
  | .leaf value _, current, maps =>
    if maxCodeLength < current.length then maps else maps.assign value current
  | .internal left right, current, maps =>
    if maxCodeLength < current.length then maps
    else
      generateCodes maxCodeLength left current.left
        (generateCodes maxCodeLength right current.right maps)

def generateCodeMaps (maxCodeLength : Nat) (root : Node) : CodeMaps :=
  generateCodes maxCodeLength root ⟨0, 0⟩ empty

def encode (maps : CodeMaps) (val : BitVec 64) : Code := (maps.valueToCode val).getD ⟨0, 65⟩

def decode (maps : CodeMaps) (code : BitVec 64) : Option (BitVec 64) := maps.codeToValue code

end CodeMaps

def sample (trees : List Node) (value frequency : BitVec 64) : List Node :=
  if frequency ≠ 0 then trees ++ [.leaf value frequency] else trees

/-- The queue of trees after the samples. -/
def sampled (samples : List (BitVec 64 × BitVec 64)) : List Node :=
  samples.foldl (fun trees s => sample trees s.1 s.2) []

/-! ## Paths as numbers -/

def number : List Bool → Nat
  | [] => 0
  | bit :: path => bit.toNat * 2 ^ path.length + number path

/-- The code of the node at a path. -/
def codeAt (path : List Bool) : Code := ⟨.ofNat 64 (number path), path.length⟩

variable {m : Nat} {p q : List Bool} {v w : BitVec 64}

lemma number_append (p q : List Bool) : number (p ++ q) = number p * 2 ^ q.length + number q := by
  induction p with
  | nil => simp [number]
  | cons bit p ih =>
    rw [cons_append, number, number, ih, length_append, Nat.pow_add]
    ring

lemma number_zeros (k : Nat) (p : List Bool) : number (replicate k false ++ p) = number p := by
  induction k with
  | zero => rfl
  | succ k ih => simpa [replicate_succ, number] using ih

lemma number_lt (p : List Bool) : number p < 2 ^ p.length := by
  induction p with
  | nil => exact Nat.one_pos
  | cons bit p ih =>
    have hbit := Nat.mul_le_mul_right (2 ^ p.length) (Nat.lt_succ_iff.mp bit.toNat_lt)
    rw [number, length_cons, Nat.pow_succ]
    omega

lemma number_inj (hlength : p.length = q.length) (h : number p = number q) : p = q := by
  induction p generalizing q with
  | nil => exact (length_eq_zero_iff.mp hlength.symm).symm
  | cons bit p ih =>
    obtain _ | ⟨bit', q⟩ := q
    · cases hlength
    replace hlength : p.length = q.length := Nat.succ.inj hlength
    have hp := hlength ▸ number_lt p
    have hq := number_lt q
    rw [number, number, hlength] at h
    -- the leading bit is above what the others can make
    cases bit <;> cases bit' <;> simp only [Bool.toNat_true, Bool.toNat_false] at h
    · rw [ih hlength (by omega)]
    · omega
    · omega
    · rw [ih hlength (by omega)]

/-- A path with the number of a shorter one only has more leading zeros. -/
lemma eq_zeros_append (hlength : p.length < q.length) (h : number q = number p) :
    ∃ k, q = replicate (k + 1) false ++ p := by
  refine ⟨q.length - p.length - 1, number_inj ?_ (h.trans (number_zeros _ _).symm)⟩
  rw [length_append, length_replicate]
  omega

lemma codeAt_left (path : List Bool) : (codeAt path).left = codeAt (path ++ [false]) := by
  ext1
  · apply BitVec.eq_of_toNat_eq
    simp [codeAt, Code.left, number_append, number, Nat.shiftLeft_eq]
  · simp [codeAt, Code.left]

lemma codeAt_right (path : List Bool) : (codeAt path).right = codeAt (path ++ [true]) := by
  ext1
  · apply BitVec.eq_of_toNat_eq
    simp [codeAt, Code.right, number_append, number, Nat.shiftLeft_eq]
  · simp [codeAt, Code.right]

lemma codeAt_code_inj (hp : p.length ≤ 64) (hq : q.length ≤ 64)
    (h : (codeAt p).code = (codeAt q).code) : number p = number q := by
  have hfits : ∀ {p : List Bool}, p.length ≤ 64 → number p < 2 ^ 64 := fun hp =>
    (number_lt _).trans_le (Nat.pow_le_pow_right Nat.two_pos hp)
  have h := congrArg BitVec.toNat h
  simp only [codeAt, BitVec.toNat_ofNat] at h
  rwa [Nat.mod_eq_of_lt (hfits hp), Nat.mod_eq_of_lt (hfits hq)] at h

/-! ## The order of the assignments -/

/-- Codes are given in the order of falling binary fractions. -/
def Precedes (a b : List Bool × BitVec 64) : Prop :=
  number b.1 * 2 ^ a.1.length < number a.1 * 2 ^ b.1.length

lemma paths_pairwise (node : Node) : node.paths.Pairwise Precedes := by
  induction node with
  | leaf => exact pairwise_singleton _ _
  | internal left right ihl ihr =>
    refine pairwise_append.mpr ⟨pairwise_map.mpr (ihr.imp ?_), pairwise_map.mpr (ihl.imp ?_), ?_⟩
    · intro a b hab
      unfold Precedes at *
      simp only [Prod.map_fst, number, Bool.toNat_true, length_cons, Nat.pow_succ]
      linarith
    · intro a b hab
      unfold Precedes at *
      simp only [Prod.map_fst, number, Bool.toNat_false, length_cons, Nat.pow_succ]
      linarith
    · intro a ha b hb
      obtain ⟨a, -, rfl⟩ := mem_map.mp ha
      obtain ⟨b, -, rfl⟩ := mem_map.mp hb
      have hlt := Nat.mul_lt_mul_of_pos_left (number_lt b.1) (Nat.two_pow_pos a.1.length)
      simp only [Precedes, Prod.map_fst, number, Bool.toNat_true, Bool.toNat_false, length_cons,
        Nat.pow_succ]
      nlinarith [Nat.zero_le (number a.1 * 2 ^ b.1.length)]

lemma generateCodes_eq (node : Node) (path : List Bool) (maps : CodeMaps) :
    CodeMaps.generateCodes m node (codeAt path) maps =
      (node.paths.filter (path.length + ·.1.length ≤ m)).foldl
        (fun maps a => maps.assign a.2 (codeAt (path ++ a.1))) maps := by
  induction node generalizing path maps with
  | leaf value =>
    rw [CodeMaps.generateCodes, Node.paths]
    by_cases hlong : m < path.length
    · simp [codeAt, hlong]
    · simp [codeAt, hlong, not_lt.mp hlong]
  | internal left right ihl ihr =>
    rw [CodeMaps.generateCodes, Node.paths, codeAt_left, codeAt_right, ihl, ihr]
    by_cases hlong : m < path.length
    · have hnone : ∀ a : List Bool × BitVec 64, ¬ path.length + a.1.length ≤ m := by
        intro a
        omega
      simp [codeAt, hlong, hnone]
    · have hlength : ∀ n, path.length + 1 + n = path.length + (n + 1) := by
        intro n
        omega
      simp [codeAt, hlong, filter_map, foldl_map, Function.comp_def, hlength]

/-! ## The maps -/

section

variable {α β ι : Type*} [DecidableEq α] (key : ι → α) (val : ι → β)

lemma foldl_update_of_ne {l : List ι} {x : α} (f : α → Option β) (hout : ∀ i ∈ l, key i ≠ x) :
    l.foldl (fun f i => update f (key i) (some (val i))) f x = f x := by
  induction l generalizing f with
  | nil => rfl
  | cons i l ih =>
    rw [foldl_cons, ih _ fun j hj => hout j (mem_cons_of_mem i hj),
      update_of_ne (hout i mem_cons_self).symm]

/-- An entry has what the last assignment to its key gives it. -/
lemma foldl_update_eq_some (l : List ι) (x : α) (b : β) :
    l.foldl (fun f i => update f (key i) (some (val i))) (fun _ => none) x = some b ↔
      ∃ l₁ i l₂, l = l₁ ++ i :: l₂ ∧ key i = x ∧ val i = b ∧ ∀ j ∈ l₂, key j ≠ x := by
  constructor
  · intro h
    induction l using reverseRecOn with
    | nil => cases h
    | append_singleton l i ih =>
      rw [foldl_append, foldl_cons, foldl_nil] at h
      by_cases hi : key i = x
      · rw [hi, update_self] at h
        exact ⟨l, i, [], rfl, hi, Option.some.inj h, by simp⟩
      · rw [update_of_ne (Ne.symm hi)] at h
        obtain ⟨l₁, j, l₂, rfl, hj, hb, hl₂⟩ := ih h
        refine ⟨l₁, j, l₂ ++ [i], by simp, hj, hb, fun j hj => ?_⟩
        exact (mem_append.mp hj).elim (hl₂ j) fun hj => mem_singleton.mp hj ▸ hi
  · rintro ⟨l₁, i, l₂, rfl, rfl, rfl, hl₂⟩
    rw [foldl_append, foldl_cons, foldl_update_of_ne key val _ hl₂, update_self]

end

lemma BuildTree.values_perm {trees : List Node} {root : Node} (h : BuildTree trees root) :
    root.values ~ trees.flatMap Node.values := by
  induction h with
  | last root => simp
  | @merge trees rest rest' left right root hleft hright _ ih =>
    have htrees : trees ~ left :: right :: rest' := hleft.1.trans (hright.1.cons left)
    have hparent : (Node.internal left right).values = right.values ++ left.values := by
      simp [Node.values, Node.paths, comp_def]
    calc root.values
      _ ~ (right.values ++ left.values) ++ rest'.flatMap Node.values := hparent ▸ ih
      _ ~ (left.values ++ right.values) ++ rest'.flatMap Node.values :=
        perm_append_comm.append_right _
      _ = (left :: right :: rest').flatMap Node.values := by simp
      _ ~ trees.flatMap Node.values := (htrees.flatMap_right _).symm

lemma values_sampled {samples : List (BitVec 64 × BitVec 64)} (hfreq : ∀ s ∈ samples, s.2 ≠ 0) :
    (sampled samples).flatMap Node.values = samples.map Prod.fst := by
  induction samples using reverseRecOn with
  | nil => rfl
  | append_singleton samples s ih =>
    rw [sampled, foldl_append, foldl_cons, foldl_nil, sample, if_pos (hfreq s (by simp))]
    rw [flatMap_append, map_append, ← sampled, ih fun s hs => hfreq s (mem_append_left _ hs)]
    rfl

lemma generateCodeMaps_eq (root : Node) :
    CodeMaps.generateCodeMaps m root =
      ⟨(root.kept m).foldl (fun f a => update f a.2 (some (codeAt a.1))) fun _ => none,
        (root.kept m).foldl (fun f a => update f (codeAt a.1).code (some a.2)) fun _ => none⟩ := by
  have hfold : ∀ (l : List (List Bool × BitVec 64)) (maps : CodeMaps),
      l.foldl (fun maps a => maps.assign a.2 (codeAt a.1)) maps =
        ⟨l.foldl (fun f a => update f a.2 (some (codeAt a.1))) maps.valueToCode,
          l.foldl (fun f a => update f (codeAt a.1).code (some a.2)) maps.codeToValue⟩ := by
    intro l
    induction l with
    | nil => exact fun _ => rfl
    | cons a l ih => exact fun _ => ih _
  have h := generateCodes_eq (m := m) root [] .empty
  simp only [length_nil, Nat.zero_add, nil_append] at h
  exact h.trans (hfold _ _)

/-- A kept leaf is decoded from its code when no other kept leaf has its path after zeros. -/
lemma decode_codeAt {root : Node} (hmax : m ≤ 64) (hnodup : root.values.Nodup)
    (hp : (p, v) ∈ root.kept m) :
    (CodeMaps.generateCodeMaps m root).decode (codeAt p).code = some v ↔
      ∀ k w, (replicate (k + 1) false ++ p, w) ∉ root.kept m := by
  have hsub : root.kept m <+ root.paths := filter_sublist
  have horder : (root.kept m).Pairwise Precedes := (paths_pairwise root).sublist hsub
  have hshort : ∀ {a}, a ∈ root.kept m → a.1.length ≤ 64 := fun ha =>
    (of_decide_eq_true (mem_filter.mp ha).2).trans hmax
  have hdecode := foldl_update_eq_some (fun a => (codeAt a.1).code) Prod.snd (root.kept m)
  rw [generateCodeMaps_eq, CodeMaps.decode, hdecode]
  constructor
  · rintro ⟨l₁, ⟨q, w⟩, l₂, hl, -, rfl, hlast⟩ k u hlong
    -- the assignment that stays is that of `p`, and a longer path comes after it
    have hq : (q, w) ∈ root.kept m := hl ▸ by simp
    obtain ⟨⟩ := inj_on_of_nodup_map hnodup (hsub.subset hq) (hsub.subset hp) rfl
    have hcode : (codeAt (replicate (k + 1) false ++ p)).code = (codeAt p).code :=
      congrArg (BitVec.ofNat 64) (number_zeros _ _)
    rw [hl] at hlong horder
    rcases mem_append.mp hlong with hbefore | hafter
    · have hlt := (pairwise_append.mp horder).2.2 _ hbefore _ mem_cons_self
      rw [Precedes, number_zeros, length_append, length_replicate] at hlt
      have hpow := Nat.pow_le_pow_right Nat.two_pos (Nat.le_add_left p.length (k + 1))
      exact absurd (Nat.mul_le_mul_left (number p) hpow) (not_le.mpr hlt)
    · rcases mem_cons.mp hafter with hsame | hafter
      · have := congrArg (fun a : List Bool × BitVec 64 => a.1.length) hsame
        simp at this
      · exact hlast _ hafter hcode
  · intro halone
    obtain ⟨l₁, l₂, hl⟩ := append_of_mem hp
    refine ⟨l₁, (p, v), l₂, hl, rfl, rfl, fun a ha hcode => ?_⟩
    have hmem : a ∈ root.kept m := hl ▸ by simp [ha]
    have hnumber := codeAt_code_inj (hshort hmem) (hshort hp) hcode
    rw [hl] at horder
    have hlt := rel_of_pairwise_cons (pairwise_append.mp horder).2.1 ha
    rw [Precedes, hnumber] at hlt
    have hlength : p.length < a.1.length :=
      (Nat.pow_lt_pow_iff_right Nat.one_lt_two).mp (Nat.lt_of_mul_lt_mul_left hlt)
    obtain ⟨k, hk⟩ := eq_zeros_append hlength hnumber
    exact halone k a.2 (hk ▸ hmem)

/-- A sampled value with a code is decoded from it exactly when no other leaf with a code has the
path of the value after one or more zeros. -/
theorem decode_encode {samples : List (BitVec 64 × BitVec 64)} {root : Node} (hmax : m ≤ 64)
    (hdistinct : (samples.map Prod.fst).Nodup) (hfreq : ∀ s ∈ samples, s.2 ≠ 0)
    (hroot : BuildTree (sampled samples) root)
    (hv : ((CodeMaps.generateCodeMaps m root).encode v).length ≤ 64) :
    (CodeMaps.generateCodeMaps m root).decode
        ((CodeMaps.generateCodeMaps m root).encode v).code = some v ↔
      ∃ path, (path, v) ∈ root.kept m ∧
        ∀ k w, (replicate (k + 1) false ++ path, w) ∉ root.kept m := by
  have hvalues : root.values ~ samples.map Prod.fst := values_sampled hfreq ▸ hroot.values_perm
  have hnodup : root.values.Nodup := hvalues.nodup_iff.mpr hdistinct
  obtain ⟨c, hc⟩ : ∃ c, (CodeMaps.generateCodeMaps m root).valueToCode v = some c := by
    refine Option.ne_none_iff_exists'.mp fun hnone => ?_
    rw [CodeMaps.encode, hnone] at hv
    exact absurd hv (by decide)
  have hencode : (CodeMaps.generateCodeMaps m root).encode v = c := by
    rw [CodeMaps.encode, hc, Option.getD_some]
  rw [generateCodeMaps_eq] at hc
  obtain ⟨l₁, ⟨p, w⟩, l₂, hl, hw, rfl, -⟩ := (foldl_update_eq_some Prod.snd _ _ _ _).mp hc
  obtain rfl : w = v := hw
  have hp : (p, w) ∈ root.kept m := hl ▸ by simp
  rw [hencode, decode_codeAt hmax hnodup hp]
  refine ⟨fun halone => ⟨p, hp, halone⟩, ?_⟩
  rintro ⟨q, hq, halone⟩
  have hsub : root.kept m <+ root.paths := filter_sublist
  obtain ⟨⟩ := inj_on_of_nodup_map hnodup (hsub.subset hq) (hsub.subset hp) rfl
  exact halone

/-- With frequencies 1, 2 and 4 the tree is ((5, 6), 7); 6 has the path 01 and no leaf has a path
that ends in it after zeros. -/
theorem decode_encode_six :
    ∃ root, BuildTree (sampled [(5, 1), (6, 2), (7, 4)]) root ∧
      (CodeMaps.generateCodeMaps 64 root).decode
        ((CodeMaps.generateCodeMaps 64 root).encode 6).code = some 6 :=
  have hroot : BuildTree (sampled [(5, 1), (6, 2), (7, 4)])
      (.internal (.internal (.leaf 5 1) (.leaf 6 2)) (.leaf 7 4)) :=
    .merge ⟨.refl _, by decide⟩ ⟨.refl _, by decide⟩
      (.merge ⟨.refl _, by decide⟩ ⟨.refl _, by decide⟩ (.last _))
  ⟨_, hroot, (decode_encode (by decide) (by decide) (by simp) hroot (by decide)).mpr
    ⟨[false, true], by decide, fun k _ =>
      by cases k <;> simp [Node.kept, Node.paths, replicate_succ]⟩⟩

/-- In that tree the codes "1" of 7 and "01" of 6 are the same number, which is decoded to the value
of the longer one. -/
theorem decode_takes_longer_code :
    ∃ root, BuildTree (sampled [(5, 1), (6, 2), (7, 4)]) root ∧
      (CodeMaps.generateCodeMaps 64 root).encode 7 = ⟨1, 1⟩ ∧
      (CodeMaps.generateCodeMaps 64 root).encode 6 = ⟨1, 2⟩ ∧
      (CodeMaps.generateCodeMaps 64 root).decode
        ((CodeMaps.generateCodeMaps 64 root).encode 7).code = some 6 :=
  ⟨.internal (.internal (.leaf 5 1) (.leaf 6 2)) (.leaf 7 4),
    .merge ⟨.refl _, by decide⟩ ⟨.refl _, by decide⟩
      (.merge ⟨.refl _, by decide⟩ ⟨.refl _, by decide⟩ (.last _)), rfl, rfl, rfl⟩

end BTBFerret.Huffman
