import BTBFerret.AddrRange
import Mathlib.Data.List.TakeWhile

/-!
# The address range map

The map keeps its ranges in an ordered tree, and in front of it a short list of iterators, the most
recently used first. A lookup tries the listed entries, then the first entry above the address, then
the entries below it as long as they merge, that is over the stripes of one interval. Entries are
numbers that stand for the nodes of the tree; following an iterator to an erased one is the fault
`danglingIterator`.
-/

namespace BTBFerret.Ranges

open FallibleRuns List AddrRange

inductive Fault
  | range (f : RangeFault)
  | danglingIterator
  | badIterator
  deriving DecidableEq

structure Entry (V : Type) where
  id : Nat
  range : AddrRange
  value : V

/-- The conditions of the two kinds of lookup. -/
def AddrRange.subsetTest (r r' : AddrRange) : Except Fault Bool :=
  (r.isSubset r').mapError .range

def AddrRange.intersectionTest (r r' : AddrRange) : Except Fault Bool :=
  (r.intersects r').mapError .range

structure AddrRangeMap (V : Type) where
  tree : List (Entry V)
  cache : List Nat
  nextId : Nat

namespace AddrRangeMap

variable {V : Type}

/-! ## The map -/

def empty : AddrRangeMap V := ⟨[], [], 0⟩

def deref (m : AddrRangeMap V) (i : Nat) : Except Fault (Entry V) :=
  match m.tree.find? fun e => e.id == i with
  | some e => .ok e
  | none => .error .danglingIterator

/-- What `upper_bound` points behind. -/
def below (m : AddrRangeMap V) (r : AddrRange) : List (Entry V) :=
  m.tree.takeWhile fun e => !r.lt e.range

/-- What `upper_bound` points at, and on. -/
def above (m : AddrRangeMap V) (r : AddrRange) : List (Entry V) :=
  m.tree.dropWhile fun e => !r.lt e.range

def addNewEntryToCache (maxCacheSize : Nat) (m : AddrRangeMap V) (i : Nat) : AddrRangeMap V :=
  if maxCacheSize ≠ 0 then
    -- the last element of a full cache becomes the new one and moves to the front
    if maxCacheSize ≤ m.cache.length then { m with cache := i :: m.cache.dropLast }
    else { m with cache := i :: m.cache }
  else m

def findCached (m : AddrRangeMap V) (cond : AddrRange → Except Fault Bool) :
    List Nat → Except Fault (Option (Entry V))
  | [] => .ok none
  | i :: rest => do
    let e ← m.deref i
    if ← cond e.range then return some e else m.findCached cond rest

/-- The loop over the entries below, from the nearest on. -/
def walkBack (cond : AddrRange → Except Fault Bool) :
    List (Entry V) → Except Fault (Option (Entry V))
  | [] => .ok none
  | e :: rest => do
    if ← cond e.range then return some e
    else match rest with
      | [] => return none
      | next :: rest =>
        if next.range.mergesWith e.range then walkBack cond (next :: rest) else return none

def findInTree (m : AddrRangeMap V) (r : AddrRange) (cond : AddrRange → Except Fault Bool) :
    Except Fault (Option (Entry V)) :=
  match m.above r with
  | [] => walkBack cond (m.below r).reverse
  | next :: _ => do
    if ← cond next.range then return some next else walkBack cond (m.below r).reverse

def find (maxCacheSize : Nat) (m : AddrRangeMap V) (r : AddrRange)
    (cond : AddrRange → Except Fault Bool) : Except Fault (Option (Entry V) × AddrRangeMap V) := do
  match ← m.findCached cond m.cache with
  | some e => return (some e, { m with cache := e.id :: m.cache.erase e.id })
  | none =>
    match ← m.findInTree r cond with
    | some e => return (some e, m.addNewEntryToCache maxCacheSize e.id)
    | none => return (none, m)

def containsRange (maxCacheSize : Nat) (m : AddrRangeMap V) (r : AddrRange) :
    Except Fault (Option (Entry V) × AddrRangeMap V) :=
  m.find maxCacheSize r r.subsetTest

def contains (maxCacheSize : Nat) (m : AddrRangeMap V) (a : Addr) :
    Except Fault (Option (Entry V) × AddrRangeMap V) :=
  m.containsRange maxCacheSize (rangeSize a 1)

def intersects (maxCacheSize : Nat) (m : AddrRangeMap V) (r : AddrRange) :
    Except Fault (Option (Entry V) × AddrRangeMap V) :=
  m.find maxCacheSize r r.intersectionTest

/-- `insert` of the tree: nothing is inserted next to an entry that is neither less nor greater. -/
def treeInsert (m : AddrRangeMap V) (r : AddrRange) (d : V) : Option (Entry V) × AddrRangeMap V :=
  match m.tree.find? fun e => !r.lt e.range && !e.range.lt r with
  | some e => (some e, m)
  | none =>
    (some ⟨m.nextId, r, d⟩,
      { m with tree := m.below r ++ ⟨m.nextId, r, d⟩ :: m.above r, nextId := m.nextId + 1 })

def insert (maxCacheSize : Nat) (m : AddrRangeMap V) (r : AddrRange) (d : V) :
    Except Fault (Option (Entry V) × AddrRangeMap V) := do
  match ← m.intersects maxCacheSize r with
  | (some _, m) => return (none, m)
  | (none, m) => return m.treeInsert r d

def erase (m : AddrRangeMap V) (p : Nat) : Except Fault (AddrRangeMap V) :=
  if m.tree.any fun e => e.id == p then
    .ok { m with
      cache := m.cache.filter fun i => i != p
      tree := m.tree.filter fun e => e.id != p }
  else .error .badIterator

/-- The entries from `p` to before `q`, where `none` is the end. -/
def segment (m : AddrRangeMap V) (p q : Option Nat) : Except Fault (List (Entry V)) :=
  let first := m.tree.dropWhile fun e => some e.id != p
  if p.isSome && first.isEmpty then .error .badIterator
  else if q.isNone then .ok first
  else if first.any fun e => some e.id == q then .ok (first.takeWhile fun e => some e.id != q)
  else .error .badIterator

/-- The loop removes `p` from the cache once for every entry that is erased. -/
def eraseRange (m : AddrRangeMap V) (p q : Option Nat) : Except Fault (AddrRangeMap V) := do
  let gone ← m.segment p q
  return { m with
    cache := gone.foldl (fun cache _ => cache.filter fun i => some i != p) m.cache
    tree := m.tree.filter fun e => !gone.any fun g => g.id == e.id }

def clear (m : AddrRangeMap V) : AddrRangeMap V :=
  { m with cache := [], tree := [] }

inductive Op (V : Type)
  | insert (r : AddrRange) (d : V)
  | erase (p : Nat)
  | eraseRange (p q : Option Nat)
  | clear
  | contains (a : Addr)
  | containsRange (r : AddrRange)
  | intersects (r : AddrRange)

def step (maxCacheSize : Nat) (m : AddrRangeMap V) : Op V → Except Fault (AddrRangeMap V)
  | .insert r d => Prod.snd <$> m.insert maxCacheSize r d
  | .erase p => m.erase p
  | .eraseRange p q => m.eraseRange p q
  | .clear => .ok m.clear
  | .contains a => Prod.snd <$> m.contains maxCacheSize a
  | .containsRange r => Prod.snd <$> m.containsRange maxCacheSize r
  | .intersects r => Prod.snd <$> m.intersects maxCacheSize r

/-! ## What is kept -/

/-- Two entries do not meet, or they are stripes of one interval. -/
def Apart (r r' : AddrRange) : Prop :=
  r.Overlaps r' → r.interleaved = true ∧ r.mergesWith r' = true

variable {r' : AddrRange}

lemma apart_comm {r : AddrRange} (h : Apart r r') : Apart r' r := by
  intro hover
  obtain ⟨hinter, hmerge⟩ := h (overlaps_comm.mp hover)
  exact ⟨(interleaved_of_mergesWith hmerge).trans hinter,
    mergesWith_comm.trans hmerge⟩

structure Decodes (m : AddrRangeMap V) : Prop where
  sorted : m.tree.Pairwise fun e f => e.range.key < f.range.key
  apart : m.tree.Pairwise fun e f => Apart e.range f.range
  proper : ∀ e ∈ m.tree, e.range.start < e.range.end_ ∧ e.range.Readable
  numbered : m.tree.Pairwise fun e f => e.id ≠ f.id
  fresh : ∀ e ∈ m.tree, e.id < m.nextId
  cached : ∀ i ∈ m.cache, ∃ e ∈ m.tree, e.id = i

variable {m m' : AddrRangeMap V} {r : AddrRange} {cond : AddrRange → Except Fault Bool}

lemma below_append_above (m : AddrRangeMap V) (r : AddrRange) : m.below r ++ m.above r = m.tree :=
  takeWhile_append_dropWhile

variable {e : Entry V}

lemma key_le_of_mem_below (h : e ∈ m.below r) : e.range.key ≤ r.key := by
  have hnot := mem_takeWhile_imp h
  refine not_lt.mp fun hlt => ?_
  rw [lt_iff.mpr hlt] at hnot
  cases hnot

lemma Decodes.key_lt_of_mem_above (h : Decodes m) (he : e ∈ m.above r) : r.key < e.range.key := by
  have hsorted : (m.above r).Pairwise fun e f => e.range.key < f.range.key :=
    h.sorted.sublist (dropWhile_sublist _)
  cases habove : m.above r with
  | nil =>
    rw [habove] at he
    exact absurd he not_mem_nil
  | cons n =>
    have hn : r.key < n.range.key := by
      have := head?_dropWhile_not (fun e : Entry V => !r.lt e.range) m.tree
      rw [show m.tree.dropWhile _ = m.above r from rfl, habove] at this
      exact lt_iff.mp (by simpa using this)
    rw [habove] at he hsorted
    rcases mem_cons.mp he with rfl | he
    · exact hn
    · exact hn.trans ((pairwise_cons.mp hsorted).1 e he)

variable {f : Entry V}

lemma Decodes.mergesWith (h : Decodes m) (he : e ∈ m.tree) (hf : f ∈ m.tree)
    (hover : e.range.Overlaps f.range) : e.range.mergesWith f.range = true := by
  have hsymm : Std.Symm fun e f : Entry V => Apart e.range f.range := ⟨fun _ _ => apart_comm⟩
  by_cases heq : e = f
  · rw [heq]
    exact mergesWith_iff.mpr ⟨rfl, rfl, rfl⟩
  · exact (h.apart.forall he hf heq hover).2

lemma Decodes.key_ne (h : Decodes m) (he : e ∈ m.tree) (hf : f ∈ m.tree) (hne : e ≠ f) :
    e.range.key ≠ f.range.key := by
  have hsymm : Std.Symm fun e f : Entry V => e.range.key ≠ f.range.key :=
    ⟨fun _ _ => Ne.symm⟩
  exact (h.sorted.imp fun hlt => hlt.ne).forall he hf hne

variable {a : Addr}

lemma Decodes.holds_unique (h : Decodes m) (he : e ∈ m.tree) (hf : f ∈ m.tree)
    (hea : e.range.Holds a) (hfa : f.range.Holds a) : e = f := by
  have hsymm : Std.Symm fun e f : Entry V => Apart e.range f.range := ⟨fun _ _ => apart_comm⟩
  by_contra hne
  have hover : e.range.Overlaps f.range := by
    obtain ⟨hes, hee, -⟩ := hea
    obtain ⟨hfs, hfe, -⟩ := hfa
    constructor <;> bv_omega
  obtain ⟨hinter, hmerge⟩ := h.apart.forall he hf hne hover
  have hinter' := (interleaved_of_mergesWith hmerge).trans hinter
  obtain ⟨hstart, -, hmasks⟩ := mergesWith_iff.mp hmerge
  -- the same bits are selected by both, so the match values and with them the keys agree
  have hmatch : f.range.intlvMatch.toNat = e.range.intlvMatch.toNat := by
    rw [← hfa.2.2 hinter', hmasks, hea.2.2 hinter]
  refine h.key_ne he hf hne ?_
  rw [key, key, hinter, hinter', if_pos rfl, if_pos rfl, hstart, hmatch]

/-! ## What a lookup finds -/

lemma deref_eq {i : Nat} (h : ∃ e ∈ m.tree, e.id = i) : ∃ e ∈ m.tree, m.deref i = .ok e := by
  unfold deref
  cases hfind : m.tree.find? fun e => e.id == i with
  | some e => exact ⟨e, mem_of_find?_eq_some hfind, rfl⟩
  | none =>
    obtain ⟨e, he, hid⟩ := h
    exact absurd (by simpa using hid) (find?_eq_none.mp hfind e he)

/-- A search returns none but entries of `l` that meet its condition, and only fails where the
condition does. -/
def Searches (cond : AddrRange → Except Fault Bool) (l : List (Entry V))
    (x : Except Fault (Option (Entry V))) : Prop :=
  Meets x (fun found => ∀ e, found = some e → e ∈ l ∧ cond e.range = .ok true)
    fun f => ∃ e ∈ l, cond e.range = .error f

lemma searches_findCached (cond : AddrRange → Except Fault Bool) {l : List Nat}
    (h : ∀ i ∈ l, ∃ e ∈ m.tree, e.id = i) :
    Searches cond m.tree (m.findCached cond l) := by
  induction l with
  | nil => exact nofun
  | cons i _ ih =>
    obtain ⟨e, he, hderef⟩ := deref_eq (h i mem_cons_self)
    unfold findCached
    rw [hderef]
    change Searches cond m.tree (cond e.range >>= _)
    cases hcond : cond e.range with
    | error => exact ⟨e, he, hcond⟩
    | ok b =>
      cases b with
      | true =>
        intro e' heq
        cases heq
        exact ⟨he, hcond⟩
      | false => exact ih fun j hj => h j (mem_cons_of_mem _ hj)

lemma searches_walkBack (cond : AddrRange → Except Fault Bool) (l : List (Entry V)) :
    Searches cond l (walkBack cond l) := by
  induction l with
  | nil => exact nofun
  | cons e l ih =>
    have hwider : ∀ x, Searches cond l x → Searches cond (e :: l) x := by
      intro x hx
      refine hx.mono (fun found hfound e' he' => ?_) fun f hf => ?_
      · exact (hfound e' he').imp_left (mem_cons_of_mem e)
      · obtain ⟨e', he', hf⟩ := hf
        exact ⟨e', mem_cons_of_mem e he', hf⟩
    unfold walkBack
    cases hcond : cond e.range with
    | error => exact ⟨e, mem_cons_self, hcond⟩
    | ok b =>
      cases b with
      | true =>
        intro e' heq
        cases heq
        exact ⟨mem_cons_self, hcond⟩
      | false =>
        cases l with
        | nil => exact nofun
        | cons next =>
          change Searches cond _ (if next.range.mergesWith e.range = true then _ else _)
          by_cases hmerge : next.range.mergesWith e.range = true
          · rw [if_pos hmerge]
            exact hwider _ ih
          · rw [if_neg hmerge]
            exact nofun

lemma searches_findInTree (m : AddrRangeMap V) (r : AddrRange)
    (cond : AddrRange → Except Fault Bool) :
    Searches cond m.tree (m.findInTree r cond) := by
  have hbelow : Searches cond m.tree (walkBack cond (m.below r).reverse) := by
    have hsub : ∀ e ∈ (m.below r).reverse, e ∈ m.tree := fun e he =>
      (takeWhile_sublist _).subset (mem_reverse.mp he)
    refine (searches_walkBack cond (m.below r).reverse).mono (fun found hfound e he => ?_)
      fun f hf => ?_
    · exact (hfound e he).imp_left (hsub e)
    · obtain ⟨e, he, hf⟩ := hf
      exact ⟨e, hsub e he, hf⟩
  unfold findInTree
  cases habove : m.above r with
  | nil => exact hbelow
  | cons next =>
    have hnext : next ∈ m.tree := by
      rw [← m.below_append_above r, habove]
      exact mem_append_right _ mem_cons_self
    dsimp only
    cases hcond : cond next.range with
    | error => exact ⟨next, hnext, hcond⟩
    | ok b =>
      cases b with
      | true =>
        intro e heq
        cases heq
        exact ⟨hnext, hcond⟩
      | false => exact hbelow

lemma Decodes.withCache (h : Decodes m) {cache : List Nat}
    (hcache : ∀ i ∈ cache, ∃ e ∈ m.tree, e.id = i) : Decodes { m with cache := cache } :=
  ⟨h.sorted, h.apart, h.proper, h.numbered, h.fresh, hcache⟩

lemma Decodes.addNewEntryToCache (h : Decodes m) (he : e ∈ m.tree) (maxCacheSize : Nat) :
    Decodes (m.addNewEntryToCache maxCacheSize e.id) ∧
      (m.addNewEntryToCache maxCacheSize e.id).tree = m.tree := by
  unfold AddrRangeMap.addNewEntryToCache
  split
  · split
    · refine ⟨h.withCache fun i hi => ?_, rfl⟩
      rcases mem_cons.mp hi with rfl | hi
      · exact ⟨e, he, rfl⟩
      · exact h.cached i (mem_of_mem_dropLast hi)
    · refine ⟨h.withCache fun i hi => ?_, rfl⟩
      rcases mem_cons.mp hi with rfl | hi
      · exact ⟨e, he, rfl⟩
      · exact h.cached i hi
  · exact ⟨h, rfl⟩

/-- A lookup leaves the tree alone, keeps to entries that meet its condition, and comes back empty
only if the search of the tree does. -/
lemma Decodes.find (h : Decodes m) (maxCacheSize : Nat) (r : AddrRange)
    (cond : AddrRange → Except Fault Bool) :
    Meets (m.find maxCacheSize r cond)
      (fun found => Decodes found.2 ∧ found.2.tree = m.tree ∧
        (∀ e, found.1 = some e → e ∈ m.tree ∧ cond e.range = .ok true) ∧
        (found.1 = none → m.findInTree r cond = .ok none))
      fun f => ∃ e ∈ m.tree, cond e.range = .error f := by
  unfold AddrRangeMap.find
  have hcached := searches_findCached cond h.cached
  have htree := searches_findInTree m r cond
  cases hc : m.findCached cond m.cache with
  | error => exact hcached.of_error hc
  | ok found =>
    cases found with
    | some e =>
      obtain ⟨he, hcond⟩ := hcached.of_ok hc e rfl
      refine ⟨h.withCache fun i hi => ?_, rfl, fun e' heq => ?_, nofun⟩
      · rcases mem_cons.mp hi with rfl | hi
        · exact ⟨e, he, rfl⟩
        · exact h.cached i (mem_of_mem_erase hi)
      · cases heq
        exact ⟨he, hcond⟩
    | none =>
      cases ht : m.findInTree r cond with
      | error => exact htree.of_error ht
      | ok found =>
        cases found with
        | none => exact ⟨h, rfl, nofun, fun _ => rfl⟩
        | some e =>
          obtain ⟨he, hcond⟩ := htree.of_ok ht e rfl
          obtain ⟨hdecodes, hsame⟩ := h.addNewEntryToCache he maxCacheSize
          refine ⟨hdecodes, hsame, fun e' heq => ?_, nofun⟩
          cases heq
          exact ⟨he, hcond⟩

/-! ## The search for an address -/

lemma subsetTest_rangeSize (ha : a.toNat + 1 < 2 ^ 64) (hr : r.start < r.end_) (h : r.Readable) :
    ∃ b, (rangeSize a 1).subsetTest r = .ok b ∧ (b = true ↔ r.Holds a) := by
  obtain ⟨b, hsubset, hb⟩ := isSubset_rangeSize ha hr h
  refine ⟨b, ?_, hb⟩
  rw [subsetTest, hsubset]
  rfl

/-- The walk passes over the stripes of an interval that do not meet the condition. -/
lemma walkBack_found (he : cond e.range = .ok true) (pre post : List (Entry V))
    (hpre : ∀ x ∈ pre, cond x.range = .ok false ∧ x.range.mergesWith e.range = true) :
    walkBack cond (pre ++ e :: post) = .ok (some e) := by
  induction pre with
  | nil =>
    change walkBack cond (e :: post) = _
    unfold walkBack
    rw [he]
    rfl
  | cons x pre ih =>
    have hrest := ih fun y hy => hpre y (mem_cons_of_mem x hy)
    obtain ⟨hx, hmerge⟩ := hpre x mem_cons_self
    rw [cons_append]
    unfold walkBack
    rw [hx]
    -- the next entry is `e` or a further stripe of its interval
    cases pre with
    | nil => exact (if_pos (mergesWith_comm.trans hmerge)).trans hrest
    | cons y =>
      have hy := (hpre y (by simp)).2
      exact (if_pos (mergesWith_trans hy (mergesWith_comm.trans hmerge))).trans
        hrest

lemma key_le_of_start_le (hr : r.interleaved = false) (hstart : r'.start ≤ r.start) :
    r'.key ≤ r.key := by
  unfold key
  rw [hr, if_neg Bool.false_ne_true, Prod.Lex.toLex_le_toLex, Prod.Lex.toLex_le_toLex]
  rcases Nat.lt_or_eq_of_le (BitVec.le_def.mp hstart) with hlt | heq
  · exact .inl hlt
  · refine .inr ⟨heq, ?_⟩
    cases r'.interleaved with
    | true => exact .inl Nat.zero_lt_one
    | false => exact .inr ⟨rfl, le_rfl⟩

lemma Decodes.findInTree (h : Decodes m) (ha : a.toNat + 1 < 2 ^ 64) (he : e ∈ m.tree)
    (hholds : e.range.Holds a) :
    m.findInTree (rangeSize a 1) (rangeSize a 1).subsetTest = .ok (some e) := by
  have hcond : ∀ x ∈ m.tree, ¬ x.range.Holds a →
      (rangeSize a 1).subsetTest x.range = .ok false := by
    intro x hx hnot
    obtain ⟨hproper, hreadable⟩ := h.proper x hx
    obtain ⟨b, hsubset, hb⟩ := subsetTest_rangeSize ha hproper hreadable
    rw [hsubset, Bool.eq_false_of_not_eq_true fun htrue => hnot (hb.mp htrue)]
  have htrue : (rangeSize a 1).subsetTest e.range = .ok true := by
    obtain ⟨hproper, hreadable⟩ := h.proper e he
    obtain ⟨b, hsubset, hb⟩ := subsetTest_rangeSize ha hproper hreadable
    rw [hsubset, hb.mpr hholds]
  have hbelow : e ∈ m.below (rangeSize a 1) := by
    rw [← m.below_append_above (rangeSize a 1), mem_append] at he
    exact he.resolve_right fun habove =>
      absurd (key_le_of_start_le rfl hholds.1) (not_le.mpr (h.key_lt_of_mem_above habove))
  have hwalk : walkBack (rangeSize a 1).subsetTest (m.below (rangeSize a 1)).reverse =
      .ok (some e) := by
    obtain ⟨pre, post, hsplit⟩ := append_of_mem hbelow
    rw [hsplit, reverse_append, reverse_cons, append_assoc, singleton_append]
    refine walkBack_found htrue _ _ fun x hx => ?_
    have hpost := mem_reverse.mp hx
    have hxbelow : x ∈ m.below (rangeSize a 1) := by
      rw [hsplit]
      exact mem_append_right _ (mem_cons_of_mem _ hpost)
    have hxtree : x ∈ m.tree := (takeWhile_sublist _).subset hxbelow
    have hlt : e.range.key < x.range.key := by
      have hsorted : (m.below (rangeSize a 1)).Pairwise fun e f => e.range.key < f.range.key :=
        h.sorted.sublist (takeWhile_sublist _)
      rw [hsplit] at hsorted
      exact (pairwise_cons.mp (pairwise_append.mp hsorted).2.1).1 x hpost
    have hne : x ≠ e := fun heq => hlt.ne (congrArg (fun y => y.range.key) heq.symm)
    have hover : x.range.Overlaps e.range := by
      have hfrom := start_le_of_key_le hlt.le
      have hto : x.range.start ≤ a := start_le_of_key_le (key_le_of_mem_below hxbelow)
      have hproper := (h.proper x hxtree).1
      have hend := hholds.2.1
      constructor <;> bv_omega
    exact ⟨hcond x hxtree fun hxa => hne (h.holds_unique hxtree he hxa hholds),
      h.mergesWith hxtree he hover⟩
  unfold AddrRangeMap.findInTree
  cases habove : m.above (rangeSize a 1) with
  | nil => exact hwalk
  | cons n =>
    have hn : n ∈ m.above (rangeSize a 1) := by
      rw [habove]
      exact mem_cons_self
    have hnot : ¬ n.range.Holds a := fun hna =>
      absurd (key_le_of_start_le rfl hna.1) (not_le.mpr (h.key_lt_of_mem_above hn))
    have hntree : n ∈ m.tree := (dropWhile_sublist _).subset hn
    dsimp only
    rw [hcond n hntree hnot]
    exact hwalk

lemma Decodes.contains (h : Decodes m) (maxCacheSize : Nat) (ha : a.toNat + 1 < 2 ^ 64) :
    ∃ found, m.contains maxCacheSize a = .ok found ∧
      ∀ e, found.1 = some e ↔ e ∈ m.tree ∧ e.range.Holds a := by
  have hspec : ∀ x ∈ m.tree, ∃ b, (rangeSize a 1).subsetTest x.range = .ok b ∧
      (b = true ↔ x.range.Holds a) := fun x hx =>
    subsetTest_rangeSize ha (h.proper x hx).1 (h.proper x hx).2
  have hmeets := h.find maxCacheSize (rangeSize a 1) (rangeSize a 1).subsetTest
  change ∃ found, m.find maxCacheSize (rangeSize a 1) _ = .ok found ∧ _
  cases hfind : m.find maxCacheSize (rangeSize a 1) (rangeSize a 1).subsetTest with
  | error =>
    obtain ⟨x, hx, herror⟩ := hmeets.of_error hfind
    obtain ⟨b, hsubset, -⟩ := hspec x hx
    rw [hsubset] at herror
    cases herror
  | ok found =>
    obtain ⟨-, -, hfound, hnone⟩ := hmeets.of_ok hfind
    have hheld : ∀ e, found.1 = some e → e ∈ m.tree ∧ e.range.Holds a := by
      intro e heq
      obtain ⟨he, hcond⟩ := hfound e heq
      obtain ⟨b, hsubset, hb⟩ := hspec e he
      rw [hsubset] at hcond
      exact ⟨he, hb.mp (Except.ok.inj hcond)⟩
    refine ⟨found, rfl, fun e => ⟨hheld e, ?_⟩⟩
    rintro ⟨he, hea⟩
    cases hans : found.1 with
    | none =>
      have := (hnone hans).symm.trans (h.findInTree ha he hea)
      cases this
    | some e' =>
      obtain ⟨he', hea'⟩ := hheld e' hans
      rw [h.holds_unique he' he hea' hea]

/-! ## Insertion -/

/-- The new range meets an entry only if neither is interleaved, if they are stripes of one
interval, or if the entry has more than one address. -/
def Separable (r r' : AddrRange) : Prop :=
  r.Overlaps r' → (r.interleaved = false ∧ r'.interleaved = false) ∨ r.mergesWith r' = true ∨
    r'.size ≠ .ok 1

instance (r r' : AddrRange) : Decidable (Separable r r') :=
  inferInstanceAs (Decidable (_ → _))

/-- What an empty search has looked at: the first entry above and the nearest below. -/
lemma findInTree_none (h : m.findInTree r cond = .ok none) :
    (∀ n rest, m.above r = n :: rest → cond n.range = .ok false) ∧
      ∀ i rest, (m.below r).reverse = i :: rest → cond i.range = .ok false := by
  have hwalk : ∀ l : List (Entry V), walkBack cond l = .ok none →
      ∀ i rest, l = i :: rest → cond i.range = .ok false := by
    rintro l hl i rest rfl
    unfold walkBack at hl
    cases hcond : cond i.range with
    | error =>
      rw [hcond] at hl
      cases hl
    | ok b =>
      cases b with
      | false => rfl
      | true =>
        rw [hcond] at hl
        cases hl
  unfold findInTree at h
  cases habove : m.above r with
  | nil =>
    rw [habove] at h
    exact ⟨nofun, hwalk _ h⟩
  | cons n =>
    rw [habove] at h
    dsimp only at h
    cases hcond : cond n.range with
    | error =>
      rw [hcond] at h
      cases h
    | ok b =>
      cases b with
      | true =>
        rw [hcond] at h
        cases h
      | false =>
        rw [hcond] at h
        refine ⟨fun n' rest' heq => ?_, hwalk _ h⟩
        cases heq
        exact hcond

lemma intersectionTest_ne_false (hover : r.Overlaps r') (hsep : Separable r r')
    (happart : ¬ (r.interleaved = true ∧ r.mergesWith r' = true)) :
    r.intersectionTest r' ≠ .ok false := by
  have hmeet : ¬ (r'.end_ ≤ r.start ∨ r.end_ ≤ r'.start) := by
    obtain ⟨hs, he⟩ := hover
    rintro (h | h) <;> bv_omega
  have hmerge : (r.interleaved = false ∧ r'.interleaved = false) ∨ r.mergesWith r' = false := by
    cases hm : r.mergesWith r' with
    | false => exact .inr rfl
    | true =>
      have hr : r.interleaved = false := Bool.eq_false_of_not_eq_true fun h => happart ⟨h, hm⟩
      exact .inl ⟨hr, (interleaved_of_mergesWith hm).trans hr⟩
  unfold AddrRange.intersectionTest AddrRange.intersects
  rw [if_neg hmeet]
  rcases hmerge with ⟨hr, hr'⟩ | hmerge
  · rw [hr, hr']
    exact nofun
  · by_cases hplain : r.interleaved = false ∧ r'.interleaved = false
    · rw [hplain.1, hplain.2]
      exact nofun
    · have hsize : r'.size ≠ .ok 1 := ((hsep hover).resolve_left hplain).resolve_left
        (by rw [hmerge]; exact Bool.false_ne_true)
      have htest : (!r.interleaved && !r'.interleaved) = false := by
        cases hr : r.interleaved <;> cases hr' : r'.interleaved <;> simp_all
      rw [htest, if_neg Bool.false_ne_true]
      cases hs : r'.size with
      | error => exact nofun
      | ok n =>
        have hn : n ≠ 1 := fun heq => hsize (by rw [hs, heq])
        change Except.mapError _ (if n = 1 then _ else _) ≠ _
        rw [if_neg hn, hmerge]
        exact nofun

lemma Decodes.apart_of_none (h : Decodes m) (hsep : ∀ e ∈ m.tree, Separable r e.range)
    (hnone : m.findInTree r r.intersectionTest = .ok none) (he : e ∈ m.tree) : Apart r e.range := by
  intro hover
  by_contra hnot
  obtain ⟨hfirst, hnearest⟩ := findInTree_none hnone
  -- an entry that meets `r` as `e` does cannot be one of the two that were tested
  have hall : ∀ x ∈ m.tree, r.Overlaps x.range → r.intersectionTest x.range ≠ .ok false := by
    intro x hx hxover
    refine intersectionTest_ne_false hxover (hsep x hx) fun hmerges => hnot ⟨hmerges.1, ?_⟩
    have hxe : x.range.Overlaps e.range := (overlaps_congr hmerges.2).mpr hover
    exact mergesWith_trans hmerges.2 (h.mergesWith hx he hxe)
  have hproper := (h.proper e he).1
  rw [← m.below_append_above r, mem_append] at he
  rcases he with hbelow | habove
  · obtain ⟨i, rest, hrev⟩ := exists_cons_of_ne_nil (ne_nil_of_mem (mem_reverse.mpr hbelow))
    have hi : i ∈ m.below r := mem_reverse.mp (hrev ▸ mem_cons_self)
    have hitree := (takeWhile_sublist _).subset hi
    have hetree := (takeWhile_sublist _).subset hbelow
    refine hall i hitree ?_ (hnearest i rest hrev)
    -- the nearest entry starts between `e` and `r`, so it meets `e` and has its interval
    have hei : e.range.start ≤ i.range.start := by
      have hsorted : (m.below r).reverse.Pairwise fun e f => f.range.key < e.range.key :=
        pairwise_reverse.mpr (h.sorted.sublist (takeWhile_sublist _))
      have hmem := mem_reverse.mpr hbelow
      rw [hrev] at hsorted hmem
      rcases mem_cons.mp hmem with rfl | hmem
      · exact BitVec.le_refl _
      · exact start_le_of_key_le ((pairwise_cons.mp hsorted).1 e hmem).le
    have hir := start_le_of_key_le (key_le_of_mem_below hi)
    have hmeet : e.range.Overlaps i.range := by
      have hproper' := (h.proper i hitree).1
      obtain ⟨hs, hend⟩ := hover
      constructor <;> bv_omega
    have hmerge := h.mergesWith hetree hitree hmeet
    exact overlaps_comm.mp ((overlaps_congr hmerge).mpr
      (overlaps_comm.mp hover))
  · obtain ⟨n, rest, hsplit⟩ := exists_cons_of_ne_nil (ne_nil_of_mem habove)
    have hn : n ∈ m.above r := by
      rw [hsplit]
      exact mem_cons_self
    have hntree := (dropWhile_sublist _).subset hn
    refine hall n hntree ?_ (hfirst n rest hsplit)
    have hne : n.range.start ≤ e.range.start := by
      have hsorted : (m.above r).Pairwise fun e f => e.range.key < f.range.key :=
        h.sorted.sublist (dropWhile_sublist _)
      rw [hsplit] at hsorted habove
      rcases mem_cons.mp habove with rfl | hmem
      · exact BitVec.le_refl _
      · exact start_le_of_key_le ((pairwise_cons.mp hsorted).1 e hmem).le
    have hrn := start_le_of_key_le (h.key_lt_of_mem_above hn).le
    have hproper' := (h.proper n hntree).1
    obtain ⟨hs, hend⟩ := hover
    constructor <;> bv_omega

lemma Decodes.treeInsert (h : Decodes m) (hr : r.start < r.end_) (hreadable : r.Readable)
    (hapart : ∀ e ∈ m.tree, Apart r e.range) (d : V) : Decodes (m.treeInsert r d).2 := by
  unfold AddrRangeMap.treeInsert
  cases hfind : m.tree.find? fun e => !r.lt e.range && !e.range.lt r with
  | some => exact h
  | none =>
    have hbelow : ∀ e ∈ m.below r, e.range.key < r.key := by
      intro e he
      have hle := key_le_of_mem_below he
      have hnot := find?_eq_none.mp hfind e ((takeWhile_sublist _).subset he)
      refine lt_of_le_of_ne hle fun heq => hnot ?_
      have hlt : ∀ {r r' : AddrRange}, r.key = r'.key → r.lt r' = false := fun heq =>
        Bool.eq_false_of_not_eq_true fun hlt => (lt_iff.mp hlt).ne heq
      rw [hlt heq, hlt heq.symm]
      rfl
    have htree := m.below_append_above r
    have hin : ∀ e, e ∈ m.below r ∨ e ∈ m.above r ↔ e ∈ m.tree := fun e => by
      rw [← mem_append, htree]
    have hmem : ∀ e ∈ m.below r ++ ⟨m.nextId, r, d⟩ :: m.above r,
        e = ⟨m.nextId, r, d⟩ ∨ e ∈ m.tree := by
      intro e he
      rw [mem_append, mem_cons] at he
      have := hin e
      tauto
    -- the parts keep their order, and the new entry is compared with each of them
    have hpairs : ∀ R : Entry V → Entry V → Prop, m.tree.Pairwise R →
        (∀ e ∈ m.below r, R e ⟨m.nextId, r, d⟩) → (∀ e ∈ m.above r, R ⟨m.nextId, r, d⟩ e) →
        (m.below r ++ ⟨m.nextId, r, d⟩ :: m.above r).Pairwise R := by
      intro R hR hbefore hbehind
      rw [← htree] at hR
      obtain ⟨hb, ha, hcross⟩ := pairwise_append.mp hR
      refine pairwise_append.mpr ⟨hb, pairwise_cons.mpr ⟨hbehind, ha⟩, ?_⟩
      intro e he f hf
      rcases mem_cons.mp hf with rfl | hf
      · exact hbefore e he
      · exact hcross e he f hf
    constructor
    · exact hpairs _ h.sorted hbelow fun e he => h.key_lt_of_mem_above he
    · exact hpairs _ h.apart (fun e he => apart_comm (hapart e ((hin e).mp (.inl he))))
        fun e he => hapart e ((hin e).mp (.inr he))
    · intro e he
      rcases hmem e he with rfl | he
      · exact ⟨hr, hreadable⟩
      · exact h.proper e he
    · exact hpairs _ h.numbered (fun e he => (h.fresh e ((hin e).mp (.inl he))).ne)
        fun e he => (h.fresh e ((hin e).mp (.inr he))).ne'
    · intro e he
      rcases hmem e he with rfl | he
      · exact Nat.lt_succ_self _
      · exact (h.fresh e he).trans (Nat.lt_succ_self _)
    · intro i hi
      obtain ⟨e, he, hid⟩ := h.cached i hi
      refine ⟨e, ?_, hid⟩
      rw [← hin e] at he
      exact mem_append.mpr (he.imp_right (mem_cons_of_mem _))

lemma Decodes.filter (h : Decodes m) (stay : Entry V → Bool) {cache : List Nat}
    (hcache : ∀ i ∈ cache, i ∈ m.cache ∧ ∀ e ∈ m.tree, e.id = i → stay e = true) :
    Decodes { m with cache := cache, tree := m.tree.filter stay } where
  sorted := h.sorted.sublist filter_sublist
  apart := h.apart.sublist filter_sublist
  proper e he := h.proper e (mem_of_mem_filter he)
  numbered := h.numbered.sublist filter_sublist
  fresh e he := h.fresh e (mem_of_mem_filter he)
  cached i hi := by
    obtain ⟨hold, hstay⟩ := hcache i hi
    obtain ⟨e, he, hid⟩ := h.cached i hold
    exact ⟨e, mem_filter.mpr ⟨he, hstay e he hid⟩, hid⟩

/-! ## Runs -/

/-- What keeps the decoding exact. An inserted range is not empty, its tests are defined, and it is
separable from the entries; `erase` of several takes only its first entry from the cache. -/
def Safe (m : AddrRangeMap V) : Op V → Prop
  | .insert r _ => r.start < r.end_ ∧ r.Readable ∧ ∀ e ∈ m.tree, Separable r e.range
  | .eraseRange p q =>
    ∀ gone, m.segment p q = .ok gone → ∀ e ∈ gone, some e.id ≠ p → e.id ∉ m.cache
  | _ => True

instance (m : AddrRangeMap V) (op : Op V) : Decidable (Safe m op) :=
  match op with
  | .insert _ _ => inferInstanceAs (Decidable (_ ∧ _ ∧ _))
  | .eraseRange p q =>
    match h : m.segment p q with
    | .ok gone =>
      decidable_of_iff (∀ e ∈ gone, some e.id ≠ p → e.id ∉ m.cache)
        ⟨fun hgone _ hsegment => Except.ok.inj (h.symm.trans hsegment) ▸ hgone,
          fun hsafe => hsafe gone h⟩
    | .error _ => .isTrue fun _ hsegment => nomatch h.symm.trans hsegment
  | .erase _ | .clear | .contains _ | .containsRange _ | .intersects _ => .isTrue trivial

lemma ne_dangling_of_mapError {x : Except RangeFault Bool} {f : Fault}
    (h : x.mapError Fault.range = .error f) : f ≠ .danglingIterator := by
  cases x with
  | ok => cases h
  | error =>
    cases h
    exact nofun

lemma Decodes.lookup (h : Decodes m) (maxCacheSize : Nat) (r : AddrRange)
    (test : AddrRange → Except RangeFault Bool) :
    Meets (m.find maxCacheSize r fun r' => (test r').mapError .range)
      (fun found => Decodes found.2) (· ≠ .danglingIterator) := by
  refine (h.find maxCacheSize r _).mono (fun found hfound => hfound.1) fun f hf => ?_
  obtain ⟨e, -, herror⟩ := hf
  exact ne_dangling_of_mapError herror

lemma Decodes.insert (h : Decodes m) (maxCacheSize : Nat) (hr : r.start < r.end_)
    (hreadable : r.Readable) (hsep : ∀ e ∈ m.tree, Separable r e.range) (d : V) :
    Meets (m.insert maxCacheSize r d) (fun found => Decodes found.2) (· ≠ .danglingIterator) := by
  have hmeets := h.find maxCacheSize r r.intersectionTest
  unfold AddrRangeMap.insert AddrRangeMap.intersects
  cases hfind : m.find maxCacheSize r r.intersectionTest with
  | error =>
    obtain ⟨e, -, herror⟩ := hmeets.of_error hfind
    exact ne_dangling_of_mapError herror
  | ok found =>
    obtain ⟨hdecodes, htree, -, hnone⟩ := hmeets.of_ok hfind
    obtain ⟨ans, m'⟩ := found
    cases ans with
    | some => exact hdecodes
    | none =>
      refine hdecodes.treeInsert hr hreadable (fun e he => ?_) d
      rw [htree] at he
      exact h.apart_of_none hsep (hnone rfl) he

lemma Decodes.eraseRange (h : Decodes m) {p q : Option Nat}
    (hsafe : ∀ gone, m.segment p q = .ok gone → ∀ e ∈ gone, some e.id ≠ p → e.id ∉ m.cache) :
    Meets (m.eraseRange p q) Decodes (· ≠ .danglingIterator) := by
  unfold AddrRangeMap.eraseRange
  cases hsegment : m.segment p q with
  | error =>
    -- only misplaced iterators make the segment fail
    unfold segment at hsegment
    dsimp only at hsegment
    split at hsegment
    · cases hsegment
      exact nofun
    · split at hsegment
      · cases hsegment
      · split at hsegment
        · cases hsegment
        · cases hsegment
          exact nofun
  | ok gone =>
    have hloop : ∀ (l : List (Entry V)) (cache : List Nat) (i : Nat),
        i ∈ l.foldl (fun cache _ => cache.filter fun i => some i != p) cache →
          i ∈ cache ∧ (l ≠ [] → some i ≠ p) := by
      intro l
      induction l with
      | nil => exact fun cache i hi => ⟨hi, fun hne => absurd rfl hne⟩
      | cons _ _ ih =>
        intro cache i hi
        obtain ⟨hfiltered, -⟩ := ih _ i hi
        obtain ⟨hin, hne⟩ := mem_filter.mp hfiltered
        exact ⟨hin, fun _ => by simpa using hne⟩
    refine h.filter _ fun i hi => ?_
    obtain ⟨hin, hne⟩ := hloop gone m.cache i hi
    refine ⟨hin, fun e he hid => ?_⟩
    cases hany : gone.any fun g => g.id == e.id with
    | false => rfl
    | true =>
      obtain ⟨g, hg, hgid⟩ := any_eq_true.mp hany
      have hgi : g.id = i := (by simpa using hgid : g.id = e.id).trans hid
      refine absurd hin (hgi ▸ hsafe gone hsegment g hg ?_)
      rw [hgi]
      exact hne (ne_nil_of_mem hg)

lemma Decodes.step (h : Decodes m) (maxCacheSize : Nat) {op : Op V} (hsafe : Safe m op) :
    Meets (m.step maxCacheSize op) Decodes (· ≠ .danglingIterator) := by
  cases op with
  | insert _ d =>
    obtain ⟨hr, hreadable, hsep⟩ := hsafe
    exact meets_map.mpr (h.insert maxCacheSize hr hreadable hsep d)
  | erase p =>
    change Meets (m.erase p) _ _
    unfold AddrRangeMap.erase
    split
    · refine h.filter _ fun i hi => ?_
      obtain ⟨hin, hne⟩ := mem_filter.mp hi
      exact ⟨hin, fun e _ hid => hid ▸ hne⟩
    · exact nofun
  | eraseRange => exact h.eraseRange hsafe
  | clear => exact ⟨.nil, .nil, nofun, .nil, nofun, nofun⟩
  | contains | containsRange | intersects => exact meets_map.mpr (h.lookup maxCacheSize _ _)

/-- After every run of safe operations a lookup returns the entry whose range holds the address, if
there is one. No operation of such a run reads an erased entry. -/
theorem address_decoding_exact (maxCacheSize : Nat) {ops : List (Op V)}
    (h : Along (step maxCacheSize) Safe empty ops) :
    Meets (run (step maxCacheSize) empty ops)
      (fun m => ∀ a : Addr, a.toNat < 2 ^ 64 - 1 → ∃ found, m.contains maxCacheSize a = .ok found ∧
        ∀ e, found.1 = some e ↔ e ∈ m.tree ∧ e.range.Holds a)
      (· ≠ .danglingIterator) := by
  have hempty : Decodes (empty : AddrRangeMap V) := ⟨.nil, .nil, nofun, .nil, nofun, nofun⟩
  refine (meets_run Decodes (fun m op hm hop => hm.step maxCacheSize hop) hempty h).mono
    (fun m hm a ha => ?_) fun _ hf => hf
  exact hm.contains maxCacheSize (by omega)

def stripe (number : BitVec 8) : AddrRange := ⟨0, 256, [16], number⟩

def twoStripes : List (Op Nat) :=
  [.insert (stripe 1) 1, .insert (stripe 0) 0, .insert ⟨256, 512, [], 0⟩ 2,
    .insert ⟨512, 513, [], 0⟩ 3, .contains 512, .contains 300, .erase 3,
    .eraseRange (some 2) none]

/-- The stripe with address 48 is found after two other entries came and went. -/
theorem address_decoding_exact_two_stripes :
    Along (step 2) Safe empty twoStripes ∧ ∃ m, run (step 2) empty twoStripes = .ok m ∧
      ∃ found, m.contains 2 48 = .ok found ∧
        ∀ e, found.1 = some e ↔ e ∈ m.tree ∧ e.range.Holds 48 := by
  have halong : Along (step 2) Safe empty twoStripes := along_of_test Safe (by decide +kernel)
  obtain ⟨m, hm, -⟩ := exists_of_holdsAt (run (step 2) empty twoStripes) (fun _ => true)
    (by decide +kernel)
  have hexact := @address_decoding_exact Nat 2 twoStripes halong
  exact ⟨halong, m, hm, hexact.of_ok hm 48 (by decide)⟩

/-- The second of two erased entries stays in the cache, and the next lookup follows it. -/
theorem cache_keeps_erased_entry : ∃ m : AddrRangeMap Nat,
    run (step 1) empty [.insert ⟨0, 16, [], 0⟩ 0, .insert ⟨16, 32, [], 0⟩ 1, .contains 20,
      .eraseRange (some 0) none] = .ok m ∧
    m.tree = [] ∧ m.cache = [1] ∧ m.contains 1 20 = .error .danglingIterator := by
  refine ⟨⟨[], [1], 2⟩, ?_, rfl, rfl, ?_⟩
  · rfl
  · rfl

-- a stripe whose masks have no bit below bit 32 shifts by 64 in `granularity`
example : (rangeSize (1 <<< 33) 1).isSubset ⟨0, 1 <<< 34, [1 <<< 33], 1⟩ =
    .error .undefinedShift := by decide +kernel

-- an entry of one address between the start of a stripe and the address hides the stripe
example : holdsAt (run (step 0) empty [.insert ⟨5, 6, [], 0⟩ 0, .insert (stripe 1) 1] >>=
    fun m => m.contains 0 20) (fun found : Option (Entry Nat) × AddrRangeMap Nat =>
      found.1.isNone && found.2.tree.any fun e => decide (e.range = stripe 1)) = true := by
  decide +kernel

end AddrRangeMap

end BTBFerret.Ranges
