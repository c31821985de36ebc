import BTBFerret.FallibleRuns
import BTBFerret.LinkedBins

/-!
# The event queue of the simulator

An event queue is a list of bins linked by `nextBin`, and a bin a stack of events of one time and
priority linked by `nextInBin`. The `nextBin` of an event below the top may be stale; whoever pops
a bin repairs that of the event that comes up. Read through `LinkedBins` the queue is a sorted
sequence.

Servicing an event is one operation up to the call of `process`; what `process` does to the queue
are the operations that follow. A loop along the pointers that runs longer than there are events
is the fault `endless`, which no run reaches.
-/

namespace Simulation

open FallibleRuns LinkedBins List Function

abbrev Tick := Nat

/-! ## Events and the queue -/

structure Event where
  nextBin : Option Nat
  nextInBin : Option Nat
  when : Tick
  priority : Int
  scheduled : Bool
  squashed : Bool

namespace Event

def new (priority : Int) : Event where
  nextBin := none
  nextInBin := none
  when := 0
  priority := priority
  scheduled := false
  squashed := false

def lt (l r : Event) : Bool :=
  decide (l.when < r.when) || (decide (l.when = r.when) && decide (l.priority < r.priority))

def le (l r : Event) : Bool :=
  decide (l.when < r.when) || (decide (l.when = r.when) && decide (l.priority ≤ r.priority))

def eq (l r : Event) : Bool :=
  decide (l.when = r.when) && decide (l.priority = r.priority)

def ne (l r : Event) : Bool :=
  decide (l.when ≠ r.when) || decide (l.priority ≠ r.priority)

def key (e : Event) : Tick ×ₗ Int :=
  toLex (e.when, e.priority)

variable {l r : Event}

lemma lt_iff : l.lt r = true ↔ l.key < r.key := by
  simp [lt, key, Prod.Lex.toLex_lt_toLex]

lemma le_iff : l.le r = true ↔ l.key ≤ r.key := by
  simp [le, key, Prod.Lex.toLex_le_toLex]

lemma eq_iff : l.eq r = true ↔ l.key = r.key := by
  simp [eq, key]

lemma ne_iff : l.ne r = true ↔ l.key ≠ r.key := by
  simp only [ne, key, ne_eq, Bool.or_eq_true, decide_eq_true_eq, EmbeddingLike.apply_eq_iff_eq,
    Prod.mk.injEq]
  tauto

end Event

/-- The asserts of the interface, the panic of `remove`, a null `head` and a loop without end. -/
inductive Fault
  | pastTick
  | alreadyScheduled
  | notScheduled
  | uninitialized
  | emptyQueue
  | eventNotFound
  | endless
  deriving DecidableEq

/-- A queue and the events constructed for it, in order. When an event was inserted last is recorded
for statements only. -/
structure EventQueue where
  events : Nat → Event
  numEvents : Nat
  head : Option Nat
  curTick : Tick
  insertedAt : Nat → Nat
  insertions : Nat

namespace EventQueue

def new : EventQueue where
  events := fun _ => Event.new 0
  numEvents := 0
  head := none
  curTick := 0
  insertedAt := fun _ => 0
  insertions := 0

def modify (q : EventQueue) (e : Nat) (f : Event → Event) : EventQueue :=
  { q with events := update q.events e (f (q.events e)) }

def setNextBin (q : EventQueue) (e : Nat) (v : Option Nat) : EventQueue :=
  q.modify e fun ev => { ev with nextBin := v }

def setNextInBin (q : EventQueue) (e : Nat) (v : Option Nat) : EventQueue :=
  q.modify e fun ev => { ev with nextInBin := v }

def setWhen (q : EventQueue) (e : Nat) (when : Tick) : EventQueue :=
  q.modify e fun ev => { ev with when := when }

def setScheduled (q : EventQueue) (e : Nat) (flag : Bool) : EventQueue :=
  q.modify e fun ev => { ev with scheduled := flag }

def setSquashed (q : EventQueue) (e : Nat) (flag : Bool) : EventQueue :=
  q.modify e fun ev => { ev with squashed := flag }

/-- The event is the top of its bin afterwards; `curr` is the top of the bin it is put in front of
or on. -/
def insertBefore (q : EventQueue) (event : Nat) (curr : Option Nat) : EventQueue :=
  match curr with
  | none => (q.setNextBin event none).setNextInBin event none
  | some c =>
    if (q.events event).lt (q.events c) then
      (q.setNextBin event (some c)).setNextInBin event none
    else
      -- the `nextBin` of `c` can now become stale
      (q.setNextBin event (q.events c).nextBin).setNextInBin event (some c)

def findBin (q : EventQueue) (event : Nat) :
    Nat → Nat → Option Nat → Except Fault (Nat × Option Nat)
  | _, prev, none => .ok (prev, none)
  | 0, _, some _ => .error .endless
  | fuel + 1, prev, some curr =>
    if (q.events curr).lt (q.events event) then
      q.findBin event fuel curr (q.events curr).nextBin
    else .ok (prev, some curr)

def recordInsertion (q : EventQueue) (event : Nat) : EventQueue :=
  { q with
    insertedAt := update q.insertedAt event q.insertions
    insertions := q.insertions + 1 }

def insert (q : EventQueue) (event : Nat) : Except Fault EventQueue :=
  let q := q.recordInsertion event
  match q.head with
  | none => .ok { q.insertBefore event none with head := some event }
  | some head =>
    if (q.events event).le (q.events head) then
      .ok { q.insertBefore event (some head) with head := some event }
    else do
      let (prev, curr) ← q.findBin event q.numEvents head (q.events head).nextBin
      return (q.insertBefore event curr).setNextBin prev (some event)

/-- The loop of `removeItem`: the event above the one looked for. -/
def findInBin (q : EventQueue) (event : Nat) : Nat → Nat → Option Nat → Except Fault Nat
  | _, _, none => .error .eventNotFound
  | 0, curr, some next => if event = next then .ok curr else .error .endless
  | fuel + 1, curr, some next =>
    if event = next then .ok curr else q.findInBin event fuel next (q.events next).nextInBin

def removeItem (q : EventQueue) (event top : Nat) : Except Fault (EventQueue × Option Nat) :=
  let next := (q.events top).nextInBin
  if event = top then
    match next with
    | none => .ok (q, (q.events top).nextBin)
    | some next => .ok (q.setNextBin next (q.events top).nextBin, some next)
  else do
    let curr ← q.findInBin event q.numEvents top next
    return (q.setNextInBin curr (q.events event).nextInBin, some top)

def remove (q : EventQueue) (event : Nat) : Except Fault EventQueue :=
  match q.head with
  | none => .error .eventNotFound
  | some head =>
    if (q.events head).eq (q.events event) then do
      let (q, top) ← q.removeItem event head
      return { q with head := top }
    else do
      let (prev, curr) ← q.findBin event q.numEvents head (q.events head).nextBin
      match curr with
      | none => .error .eventNotFound
      | some curr =>
        if (q.events curr).ne (q.events event) then .error .eventNotFound
        else do
          let (q, top) ← q.removeItem event curr
          return q.setNextBin prev top

/-- Takes the first event. Its `process` is called with the tick set to its time, unless the event
was squashed. -/
def serviceOne (q : EventQueue) : Except Fault (EventQueue × Nat) :=
  match q.head with
  | none => .error .emptyQueue
  | some event =>
    let next := (q.events event).nextInBin
    let q := q.setScheduled event false
    let q := match next with
      -- the pointer to the next bin could be stale
      | some next => { q.setNextBin next (q.events event).nextBin with head := some next }
      | none => { q with head := (q.events event).nextBin }
    if !(q.events event).squashed then
      .ok ({ q with curTick := (q.events event).when }, event)
    else
      .ok (q.setSquashed event false, event)

def schedule (q : EventQueue) (event : Nat) (when : Tick) : Except Fault EventQueue :=
  if ¬ q.curTick ≤ when then .error .pastTick
  else if (q.events event).scheduled then .error .alreadyScheduled
  else if ¬ event < q.numEvents then .error .uninitialized
  else do
    let q ← (q.setWhen event when).insert event
    return q.setScheduled event true

def deschedule (q : EventQueue) (event : Nat) : Except Fault EventQueue :=
  if !(q.events event).scheduled then .error .notScheduled
  else if ¬ event < q.numEvents then .error .uninitialized
  else do
    let q ← q.remove event
    return (q.setSquashed event false).setScheduled event false

/-- An event that is scheduled leaves the queue, before `reschedule` inserts it again. -/
def removeScheduled (q : EventQueue) (event : Nat) : Except Fault EventQueue :=
  if (q.events event).scheduled then q.remove event else .ok q

def reschedule (q : EventQueue) (event : Nat) (when : Tick) (always : Bool) :
    Except Fault EventQueue :=
  if ¬ q.curTick ≤ when then .error .pastTick
  else if !(always || (q.events event).scheduled) then .error .notScheduled
  else if ¬ event < q.numEvents then .error .uninitialized
  else do
    let q ← q.removeScheduled event
    let q ← (q.setWhen event when).insert event
    return (q.setSquashed event false).setScheduled event true

def construct (q : EventQueue) (priority : Int) : EventQueue :=
  { q with
    events := Function.update q.events q.numEvents (Event.new priority)
    numEvents := q.numEvents + 1 }

/-- What may be done to a queue, from the outside or inside the `process` of an event. -/
inductive Op
  | construct (priority : Int)
  | squash (event : Nat)
  | schedule (event : Nat) (when : Tick)
  | deschedule (event : Nat)
  | reschedule (event : Nat) (when : Tick) (always : Bool)
  | serviceOne

def step (q : EventQueue) : Op → Except Fault EventQueue
  | .construct priority => .ok (q.construct priority)
  | .squash event => .ok (q.setSquashed event true)
  | .schedule event when => q.schedule event when
  | .deschedule event => q.deschedule event
  | .reschedule event when always => q.reschedule event when always
  | .serviceOne => Prod.fst <$> q.serviceOne

/-! ## Which part of a queue an operation touches -/

variable {q q' q'' : EventQueue} {event : Nat}

def nextBin (q : EventQueue) (e : Nat) : Option Nat := (q.events e).nextBin

def nextInBin (q : EventQueue) (e : Nat) : Option Nat := (q.events e).nextInBin

def key (q : EventQueue) (e : Nat) : Tick ×ₗ Int := (q.events e).key

def newer (q : EventQueue) (x y : Nat) : Prop := q.insertedAt y < q.insertedAt x

lemma modify_events_self (q : EventQueue) (e : Nat) (f : Event → Event) :
    (q.modify e f).events e = f (q.events e) :=
  update_self _ _ _

lemma modify_events_of_ne {e x : Nat} (hne : x ≠ e) (q : EventQueue) (f : Event → Event) :
    (q.modify e f).events x = q.events x :=
  update_of_ne hne _ _

lemma modify_proj {β : Type} (p : Event → β) (q : EventQueue) (e x : Nat) (f : Event → Event)
    (hp : ∀ ev, p (f ev) = p ev) : p ((q.modify e f).events x) = p (q.events x) := by
  by_cases hx : x = e
  · rw [hx, modify_events_self, hp]
  · rw [modify_events_of_ne hx]

section

variable (q : EventQueue) (e : Nat) (v : Option Nat)

@[simp] lemma nextBin_setNextBin :
    (q.setNextBin e v).nextBin = Function.update q.nextBin e v := by
  funext x
  by_cases hx : x = e
  · rw [hx, update_self, nextBin, setNextBin, modify_events_self]
  · rw [update_of_ne hx, nextBin, setNextBin, modify_events_of_ne hx, nextBin]

@[simp] lemma nextInBin_setNextBin : (q.setNextBin e v).nextInBin = q.nextInBin :=
  funext fun x => modify_proj Event.nextInBin q e x _ fun _ => rfl

@[simp] lemma nextInBin_setNextInBin :
    (q.setNextInBin e v).nextInBin = Function.update q.nextInBin e v := by
  funext x
  by_cases hx : x = e
  · rw [hx, update_self, nextInBin, setNextInBin, modify_events_self]
  · rw [update_of_ne hx, nextInBin, setNextInBin, modify_events_of_ne hx, nextInBin]

@[simp] lemma nextBin_setNextInBin : (q.setNextInBin e v).nextBin = q.nextBin :=
  funext fun x => modify_proj Event.nextBin q e x _ fun _ => rfl

end

@[simp] lemma when_setScheduled (q : EventQueue) (e x : Nat) (flag : Bool) :
    ((q.setScheduled e flag).events x).when = (q.events x).when :=
  modify_proj Event.when q e x _ fun _ => rfl

@[simp] lemma when_setSquashed (q : EventQueue) (e x : Nat) (flag : Bool) :
    ((q.setSquashed e flag).events x).when = (q.events x).when :=
  modify_proj Event.when q e x _ fun _ => rfl

@[simp] lemma scheduled_setSquashed (q : EventQueue) (e x : Nat) (flag : Bool) :
    ((q.setSquashed e flag).events x).scheduled = (q.events x).scheduled :=
  modify_proj Event.scheduled q e x _ fun _ => rfl

@[simp] lemma scheduled_setWhen (q : EventQueue) (e x : Nat) (when : Tick) :
    ((q.setWhen e when).events x).scheduled = (q.events x).scheduled :=
  modify_proj Event.scheduled q e x _ fun _ => rfl

/-- Two queues differ at most in the pointers of their events and in their head. -/
structure Relinked (q q' : EventQueue) : Prop where
  when : ∀ e, (q'.events e).when = (q.events e).when
  priority : ∀ e, (q'.events e).priority = (q.events e).priority
  scheduled : ∀ e, (q'.events e).scheduled = (q.events e).scheduled
  squashed : ∀ e, (q'.events e).squashed = (q.events e).squashed
  numEvents : q'.numEvents = q.numEvents
  curTick : q'.curTick = q.curTick
  insertedAt : q'.insertedAt = q.insertedAt
  insertions : q'.insertions = q.insertions

lemma Relinked.trans (h : Relinked q q') (h' : Relinked q' q'') : Relinked q q'' where
  when e := (h'.when e).trans (h.when e)
  priority e := (h'.priority e).trans (h.priority e)
  scheduled e := (h'.scheduled e).trans (h.scheduled e)
  squashed e := (h'.squashed e).trans (h.squashed e)
  numEvents := h'.numEvents.trans h.numEvents
  curTick := h'.curTick.trans h.curTick
  insertedAt := h'.insertedAt.trans h.insertedAt
  insertions := h'.insertions.trans h.insertions

lemma relinked_refl (q : EventQueue) : Relinked q q :=
  ⟨fun _ => rfl, fun _ => rfl, fun _ => rfl, fun _ => rfl, rfl, rfl, rfl, rfl⟩

lemma relinked_setNextBin (q : EventQueue) (e : Nat) (v : Option Nat) :
    Relinked q (q.setNextBin e v) where
  when x := modify_proj Event.when q e x _ fun _ => rfl
  priority x := modify_proj Event.priority q e x _ fun _ => rfl
  scheduled x := modify_proj Event.scheduled q e x _ fun _ => rfl
  squashed x := modify_proj Event.squashed q e x _ fun _ => rfl
  numEvents := rfl
  curTick := rfl
  insertedAt := rfl
  insertions := rfl

lemma relinked_setNextInBin (q : EventQueue) (e : Nat) (v : Option Nat) :
    Relinked q (q.setNextInBin e v) where
  when x := modify_proj Event.when q e x _ fun _ => rfl
  priority x := modify_proj Event.priority q e x _ fun _ => rfl
  scheduled x := modify_proj Event.scheduled q e x _ fun _ => rfl
  squashed x := modify_proj Event.squashed q e x _ fun _ => rfl
  numEvents := rfl
  curTick := rfl
  insertedAt := rfl
  insertions := rfl

lemma Relinked.withHead (h : Relinked q q') (head : Option Nat) :
    Relinked q { q' with head := head } :=
  ⟨h.when, h.priority, h.scheduled, h.squashed, h.numEvents, h.curTick, h.insertedAt, h.insertions⟩

lemma Relinked.key_eq (h : Relinked q q') : q'.key = q.key := by
  funext e
  rw [key, Event.key, h.when, h.priority]
  rfl

lemma Relinked.newer_eq (h : Relinked q q') : q'.newer = q.newer := by
  funext x y
  rw [newer, h.insertedAt]
  rfl

lemma insertBefore_eq (q : EventQueue) (event : Nat) (curr : Option Nat) :
    ∃ v w, q.insertBefore event curr = (q.setNextBin event v).setNextInBin event w := by
  cases curr with
  | none => exact ⟨_, _, rfl⟩
  | some c =>
    by_cases hlt : (q.events event).lt (q.events c) = true
    · exact ⟨some c, none, if_pos hlt⟩
    · exact ⟨(q.events c).nextBin, some c, if_neg hlt⟩

lemma relinked_insertBefore (q : EventQueue) (event : Nat) (curr : Option Nat) :
    Relinked q (q.insertBefore event curr) := by
  obtain ⟨v, w, heq⟩ := q.insertBefore_eq event curr
  rw [heq]
  exact (relinked_setNextBin q event v).trans (relinked_setNextInBin _ event w)

/-! ## The bins of a queue -/

structure Shape (q : EventQueue) (bins : List (List Nat)) : Prop where
  sorted : Sorted q.key q.newer bins
  head : q.head = first bins none
  linked : Linked q.nextBin q.nextInBin bins none
  known : ∀ e ∈ bins.flatten, e < q.numEvents
  recorded : ∀ e ∈ bins.flatten, q.insertedAt e < q.insertions

variable {bins before after : List (List Nat)}

lemma Shape.nodup (h : Shape q bins) : bins.flatten.Nodup :=
  h.sorted.nodup fun x => lt_irrefl (q.insertedAt x)

/-- There are never more bins, nor more events in a bin, than the loops have rounds. -/
lemma Shape.length_le (h : Shape q bins) : bins.flatten.length ≤ q.numEvents := by
  have hsub : bins.flatten ⊆ range q.numEvents :=
    fun e he => mem_range.mpr (h.known e he)
  have := (h.nodup.subperm hsub).length_le
  rwa [length_range] at this

/-- What the loop over the bins finds: the last bin of smaller key, and the bins behind it. -/
lemma findBin_spec {bs : List (List Nat)} : ∀ {b : List Nat} {prev fuel : Nat},
    Linked q.nextBin q.nextInBin (b :: bs) none → Sorted q.key q.newer (b :: bs) →
    b.head? = some prev → bs.length ≤ fuel → (∀ x ∈ b, q.key x < q.key event) →
    ∃ before c rest after, b :: bs = before ++ (c :: rest) :: after ∧
      q.findBin event fuel prev (first bs none) = .ok (c, first after none) ∧
      (∀ x ∈ (before ++ [c :: rest]).flatten, q.key x < q.key event) ∧
      ∀ y ∈ after.flatten, q.key event ≤ q.key y := by
  induction bs with
  | nil =>
    intro b prev fuel _ _ hprev _ hsmall
    obtain ⟨rest, rfl⟩ := head?_eq_some_iff.mp hprev
    refine ⟨[], prev, rest, [], rfl, ?_, ?_, nofun⟩
    · cases fuel with
      | zero | succ => rfl
    · simpa using hsmall
  | cons _ bs ih =>
    intro b prev fuel hlinked hsorted hprev hfuel hsmall
    obtain ⟨rest, rfl⟩ := head?_eq_some_iff.mp hprev
    obtain ⟨-, -, -, hcross, hsorted'⟩ := sorted_cons.mp hsorted
    obtain ⟨hne, huniform, -, hahead, -⟩ := sorted_cons.mp hsorted'
    obtain ⟨c, rest', rfl⟩ := exists_cons_of_ne_nil hne
    obtain ⟨_, rfl⟩ : ∃ n, fuel = n + 1 := ⟨fuel - 1, by simp at hfuel; omega⟩
    by_cases hlt : (q.events c).lt (q.events event) = true
    · -- one round further, to the bin of `c`
      have hsmall' : ∀ x ∈ c :: rest', q.key x < q.key event := by
        intro x hx
        rw [huniform x hx c mem_cons_self]
        exact Event.lt_iff.mp hlt
      obtain ⟨before, d, restd, after, hsplit, hfind, hbefore, hafter⟩ :=
        ih hlinked.2.2 hsorted' rfl (by simpa using hfuel) hsmall'
      refine ⟨(prev :: rest) :: before, d, restd, after, ?_, ?_, ?_, hafter⟩
      · rw [hsplit, cons_append]
      · have hnext : (q.events c).nextBin = first bs none := hlinked.2.2.1 c rfl
        change (if (q.events c).lt (q.events event) = true then _ else _) = _
        rw [if_pos hlt, hnext]
        exact hfind
      · intro x hx
        rw [cons_append, flatten_cons, mem_append] at hx
        exact hx.elim (hsmall x) (hbefore x)
    · have hle : q.key event ≤ q.key c := not_lt.mp fun h => hlt (Event.lt_iff.mpr h)
      refine ⟨[], prev, rest, (c :: rest') :: bs, rfl, ?_, ?_, ?_⟩
      · change (if (q.events c).lt (q.events event) = true then _ else _) = _
        rw [if_neg hlt]
        rfl
      · simpa using hsmall
      · intro y hy
        rw [flatten_cons, mem_append] at hy
        rcases hy with hy | hy
        · rw [huniform y hy c mem_cons_self]
          exact hle
        · exact hle.trans (hahead c mem_cons_self y hy).le

/-- The bins behind the place of an insertion, with the event in front of them. -/
lemma insertBefore_spec (hsorted : Sorted q.key q.newer (before ++ after))
    (hlinked : Linked q.nextBin q.nextInBin after none) (hfresh : event ∉ after.flatten)
    (hbefore : ∀ x ∈ before.flatten, q.key x < q.key event)
    (hafter : ∀ y ∈ after.flatten, q.key event ≤ q.key y)
    (hnewest : ∀ y ∈ after.flatten, q.newer event y) :
    let q' := q.insertBefore event (first after none)
    ∃ after', Linked q'.nextBin q'.nextInBin after' none ∧ first after' none = some event ∧
      Sorted q.key q.newer (before ++ after') ∧ after'.flatten = event :: after.flatten := by
  cases after with
  | nil =>
    refine ⟨[[event]], ?_, rfl, hsorted.insertBin hbefore nofun, rfl⟩
    simpa [insertBefore, first] using hlinked.insertBin hfresh
  | cons _ after =>
    obtain ⟨-, hbin, -⟩ := sorted_append.mp hsorted
    obtain ⟨hne, huniform, -, hahead, -⟩ := sorted_cons.mp hbin
    obtain ⟨c, rest, rfl⟩ := exists_cons_of_ne_nil hne
    by_cases hlt : (q.events event).lt (q.events c) = true
    · have hkey : q.key event < q.key c := Event.lt_iff.mp hlt
      refine ⟨[event] :: (c :: rest) :: after, ?_, rfl, hsorted.insertBin hbefore ?_, rfl⟩
      · simpa [insertBefore, first, hlt] using hlinked.insertBin hfresh
      · intro y hy
        rw [flatten_cons, mem_append] at hy
        rcases hy with hy | hy
        · rw [huniform y hy c mem_cons_self]
          exact hkey
        · exact hkey.trans (hahead c mem_cons_self y hy)
    · -- neither smaller nor larger than the top `c`: the event goes on its bin
      have hkey : q.key event = q.key c :=
        le_antisymm (hafter c (by simp)) (not_lt.mp fun h => hlt (Event.lt_iff.mpr h))
      refine ⟨(event :: c :: rest) :: after, ?_, rfl, hsorted.push ?_ ?_, rfl⟩
      · simpa [insertBefore, first, hlt, nextBin] using hlinked.push hfresh rfl
      · intro x hx
        rw [huniform x hx c mem_cons_self]
        exact hkey
      · exact fun x hx => hnewest x (mem_append_left _ hx)

lemma Shape.replaceHead {after' : List (List Nat)} (hre : Relinked q q')
    (hlinked : Linked q'.nextBin q'.nextInBin after' none) (hsorted : Sorted q.key q.newer after')
    (hknown : ∀ e ∈ after'.flatten, e < q.numEvents ∧ q.insertedAt e < q.insertions) :
    Shape { q' with head := first after' none } after' where
  sorted := by
    rw [(hre.withHead _).key_eq, (hre.withHead _).newer_eq]
    exact hsorted
  head := rfl
  linked := hlinked
  known e he := hre.numEvents ▸ (hknown e he).1
  recorded e he := by
    rw [hre.insertedAt, hre.insertions]
    exact (hknown e he).2

variable {c : Nat} {rest : List Nat}

/-- Other bins behind the bin of `c`: this bin is pointed at the first of them. -/
lemma Shape.replaceBehind {after' : List (List Nat)}
    (h : Shape q (before ++ [c :: rest] ++ after)) (hre : Relinked q q') (hhead : q'.head = q.head)
    (hfront : Linked q'.nextBin q'.nextInBin (before ++ [c :: rest]) (first after none))
    (hlinked : Linked q'.nextBin q'.nextInBin after' none)
    (hsorted : Sorted q.key q.newer (before ++ [c :: rest] ++ after'))
    (hknown : ∀ e ∈ after'.flatten, e < q.numEvents ∧ q.insertedAt e < q.insertions) :
    Shape (q'.setNextBin c (first after' none)) (before ++ [c :: rest] ++ after') := by
  have hre' := hre.trans (relinked_setNextBin q' c (first after' none))
  have hdisjoint := hsorted.nodup fun x => lt_irrefl (q.insertedAt x)
  simp only [flatten_append, flatten_cons, flatten_nil, append_nil,
    nodup_append, mem_append] at hdisjoint
  obtain ⟨⟨-, -, hbefore⟩, -, hbehind⟩ := hdisjoint
  have hcBefore : c ∉ before.flatten := fun hc => hbefore c hc c mem_cons_self rfl
  have hcBehind : c ∉ after'.flatten := fun hc =>
    hbehind c (.inr mem_cons_self) c hc rfl
  constructor
  · rw [hre'.key_eq, hre'.newer_eq]
    exact hsorted
  · change q'.head = _
    rw [hhead, h.head]
    cases before with
    | nil | cons => rfl
  · rw [nextBin_setNextBin, nextInBin_setNextBin]
    exact linked_append.mpr ⟨hfront.redirect hcBefore _, hlinked.update_next hcBehind _⟩
  · intro e he
    rw [hre'.numEvents]
    rw [flatten_append, mem_append] at he
    rcases he with he | he
    · exact h.known e (by rw [flatten_append]; exact mem_append_left _ he)
    · exact (hknown e he).1
  · intro e he
    rw [hre'.insertedAt, hre'.insertions]
    rw [flatten_append, mem_append] at he
    rcases he with he | he
    · exact h.recorded e (by rw [flatten_append]; exact mem_append_left _ he)
    · exact (hknown e he).2

lemma Shape.recordInsertion (h : Shape q bins) (hfresh : event ∉ bins.flatten) :
    Shape (q.recordInsertion event) bins ∧
      ∀ e ∈ bins.flatten, (q.recordInsertion event).newer event e := by
  have hold : ∀ e ∈ bins.flatten, (q.recordInsertion event).insertedAt e = q.insertedAt e :=
    fun e he => update_of_ne (ne_of_mem_of_not_mem he hfresh) _ _
  have hnew : (q.recordInsertion event).insertedAt event = q.insertions :=
    update_self _ _ _
  refine ⟨⟨h.sorted.congr (fun _ _ => rfl) fun x hx y hy hxy => ?_, h.head, h.linked, h.known,
    fun e he => ?_⟩, fun e he => ?_⟩
  · rw [newer, hold x hx, hold y hy]
    exact hxy
  · rw [hold e he]
    exact (h.recorded e he).trans (Nat.lt_succ_self _)
  · rw [newer, hnew, hold e he]
    exact h.recorded e he

/-- The bins behind the place of a recorded insertion, once the event is in front of them. -/
lemma Shape.place (h : Shape q (before ++ after)) (hfresh : event ∉ (before ++ after).flatten)
    (hnewest : ∀ e ∈ (before ++ after).flatten, q.newer event e)
    (hevent : event < q.numEvents ∧ q.insertedAt event < q.insertions)
    (hbefore : ∀ x ∈ before.flatten, q.key x < q.key event)
    (hafter : ∀ y ∈ after.flatten, q.key event ≤ q.key y) :
    let q' := q.insertBefore event (first after none)
    ∃ after', Linked q'.nextBin q'.nextInBin after' none ∧ first after' none = some event ∧
      Sorted q.key q.newer (before ++ after') ∧
      (∀ e ∈ after'.flatten, e < q.numEvents ∧ q.insertedAt e < q.insertions) ∧
      ∀ e, e ∈ (before ++ after').flatten ↔ e = event ∨ e ∈ (before ++ after).flatten := by
  have hin : ∀ e ∈ after.flatten, e ∈ (before ++ after).flatten := fun e he => by
    rw [flatten_append]
    exact mem_append_right _ he
  obtain ⟨after', hlinked, hfirst, hsorted, hflat⟩ := insertBefore_spec h.sorted
    (linked_append.mp h.linked).2 (fun he => hfresh (hin event he)) hbefore hafter
    fun e he => hnewest e (hin e he)
  refine ⟨after', hlinked, hfirst, hsorted, fun e he => ?_, fun e => ?_⟩
  · rw [hflat, mem_cons] at he
    rcases he with rfl | he
    · exact hevent
    · exact ⟨h.known e (hin e he), h.recorded e (hin e he)⟩
  · simp only [flatten_append, mem_append, hflat, mem_cons]
    tauto

lemma Shape.findBin (h : Shape q ((c :: rest) :: bins)) (hlt : q.key c < q.key event) :
    ∃ before d restd after, (c :: rest) :: bins = before ++ [d :: restd] ++ after ∧
      q.findBin event q.numEvents c (q.events c).nextBin = .ok (d, first after none) ∧
      (∀ x ∈ (before ++ [d :: restd]).flatten, q.key x < q.key event) ∧
      ∀ y ∈ after.flatten, q.key event ≤ q.key y := by
  obtain ⟨-, huniform, -⟩ := sorted_cons.mp h.sorted
  have hfuel : bins.length ≤ q.numEvents := by
    have hbins := h.sorted.length_le
    have hevents := h.length_le
    rw [length_cons] at hbins
    omega
  obtain ⟨before, d, restd, after, hsplit, hfind, hends⟩ :=
    findBin_spec h.linked h.sorted rfl hfuel fun x hx => by
      rw [huniform x hx c mem_cons_self]
      exact hlt
  rw [show (q.events c).nextBin = first bins none from h.linked.1 c rfl]
  exact ⟨before, d, restd, after, by rw [hsplit, append_assoc]; rfl, hfind, hends⟩

lemma Shape.insert (h : Shape q bins) (hfresh : event ∉ bins.flatten)
    (hevent : event < q.numEvents) : ∃ q' bins', q.insert event = .ok q' ∧ Shape q' bins' ∧
      Relinked (q.recordInsertion event) q' ∧
      ∀ e, e ∈ bins'.flatten ↔ e = event ∨ e ∈ bins.flatten := by
  obtain ⟨h₀, hnewest⟩ := h.recordInsertion hfresh
  have hevent₀ : event < (q.recordInsertion event).numEvents ∧
      (q.recordInsertion event).insertedAt event < (q.recordInsertion event).insertions :=
    ⟨hevent, by simp [EventQueue.recordInsertion]⟩
  unfold EventQueue.insert
  generalize q.recordInsertion event = q₀ at *
  dsimp only
  cases bins with
  | nil =>
    have h₀' : Shape q₀ ([] ++ []) := h₀
    obtain ⟨after', hlinked, hfirst, hsorted, hknown, hmem⟩ :=
      h₀'.place hfresh hnewest hevent₀ nofun nofun
    have hshape := Shape.replaceHead (relinked_insertBefore q₀ event none) hlinked hsorted hknown
    rw [hfirst] at hshape
    rw [show q₀.head = none from h₀.head]
    exact ⟨_, after', rfl, hshape, (relinked_insertBefore q₀ event none).withHead _, hmem⟩
  | cons _ bins =>
    obtain ⟨hne, huniform, -, hahead, -⟩ := sorted_cons.mp h₀.sorted
    obtain ⟨c, rest, rfl⟩ := exists_cons_of_ne_nil hne
    rw [show q₀.head = some c from h₀.head]
    dsimp only
    by_cases hle : (q₀.events event).le (q₀.events c) = true
    · have hkey : q₀.key event ≤ q₀.key c := Event.le_iff.mp hle
      have hfirst : ∀ y ∈ ((c :: rest) :: bins).flatten, q₀.key event ≤ q₀.key y := by
        intro y hy
        rw [flatten_cons, mem_append] at hy
        rcases hy with hy | hy
        · rw [huniform y hy c mem_cons_self]
          exact hkey
        · exact hkey.trans (hahead c mem_cons_self y hy).le
      have h₀' : Shape q₀ ([] ++ (c :: rest) :: bins) := h₀
      obtain ⟨after', hlinked, hfirst, hsorted, hknown, hmem⟩ :=
        h₀'.place hfresh hnewest hevent₀ nofun hfirst
      have hre := relinked_insertBefore q₀ event (some c)
      have hshape := Shape.replaceHead hre hlinked hsorted hknown
      rw [hfirst] at hshape
      rw [if_pos hle]
      exact ⟨_, after', rfl, hshape, hre.withHead _, hmem⟩
    · have hlt : q₀.key c < q₀.key event := not_le.mp fun h => hle (Event.le_iff.mpr h)
      obtain ⟨before, d, restd, after, hsplit, hfind, hbefore, hafter⟩ := h₀.findBin hlt
      rw [if_neg hle, hfind]
      rw [hsplit] at h₀ hfresh hnewest ⊢
      obtain ⟨_, hlinked, hfirst, hsorted, hknown, hmem⟩ :=
        h₀.place hfresh hnewest hevent₀ hbefore hafter
      have hre := relinked_insertBefore q₀ event (first after none)
      have hfront : Linked (q₀.insertBefore event (first after none)).nextBin
          (q₀.insertBefore event (first after none)).nextInBin (before ++ [d :: restd])
          (first after none) := by
        obtain ⟨v, w, heq⟩ := q₀.insertBefore_eq event (first after none)
        rw [heq, nextBin_setNextInBin, nextBin_setNextBin, nextInBin_setNextInBin,
          nextInBin_setNextBin]
        refine (linked_append.mp h₀.linked).1.update_of_not_mem (fun he => hfresh ?_) v w
        rw [flatten_append]
        exact mem_append_left _ he
      have hshape := h₀.replaceBehind hre ?_ hfront hlinked hsorted hknown
      · rw [hfirst] at hshape
        exact ⟨_, _, rfl, hshape, hre.trans (relinked_setNextBin _ _ _), hmem⟩
      · obtain ⟨v, w, heq⟩ := q₀.insertBefore_eq event (first after none)
        rw [heq]
        rfl

/-- The loop of `removeItem` finds the member above the event. -/
lemma findInBin_spec : ∀ {top fuel : Nat}, Stacked q.nextInBin (top :: rest) →
    rest.length ≤ fuel → event ∈ rest → ∃ l c r, top :: rest = l ++ c :: event :: r ∧
      q.findInBin event fuel top (q.nextInBin top) = .ok c := by
  induction rest with
  | nil => exact fun _ _ h => absurd h not_mem_nil
  | cons x rest ih =>
    intro top fuel hstack hfuel hmem
    obtain ⟨_, rfl⟩ : ∃ n, fuel = n + 1 := ⟨fuel - 1, by simp at hfuel; omega⟩
    rw [show q.nextInBin top = some x from hstack.1]
    by_cases hx : event = x
    · exact ⟨[], top, rest, by rw [hx]; rfl, if_pos hx⟩
    · have hrest : event ∈ rest := (mem_cons.mp hmem).resolve_left hx
      obtain ⟨l, c, r, hsplit, hfind⟩ := ih hstack.2 (by simpa using hfuel) hrest
      exact ⟨top :: l, c, r, by rw [hsplit, cons_append], (if_neg hx).trans hfind⟩

lemma erase_below {l r : List Nat} (h : (l ++ c :: event :: r).Nodup) :
    (l ++ c :: event :: r).erase event = l ++ c :: r := by
  simp only [nodup_append, nodup_cons, mem_cons, not_or] at h
  obtain ⟨-, ⟨⟨hc, -⟩, -⟩, hdisjoint⟩ := h
  have hl : event ∉ l := fun he => hdisjoint event he event (.inr (.inl rfl)) rfl
  rw [erase_append_right _ hl, erase_cons_tail (by simpa using hc), erase_cons_head]

/-- What `removeItem` leaves of the bins from the event's bin on. Those before are untouched. -/
lemma Shape.removeItem {top : Nat} (h : Shape q (before ++ (top :: rest) :: after))
    (hmem : event ∈ top :: rest) :
    let left := consBin ((top :: rest).erase event) after
    ∃ q', q.removeItem event top = .ok (q', first left none) ∧ Relinked q q' ∧ q'.head = q.head ∧
      Linked q'.nextBin q'.nextInBin left none ∧
      Linked q'.nextBin q'.nextInBin before (some top) := by
  obtain ⟨hbefore, hbin⟩ := linked_append.mp h.linked
  have hnodup := h.nodup
  rw [flatten_append, nodup_append] at hnodup
  obtain ⟨-, hnodup, hdisjoint⟩ := hnodup
  have hout : ∀ x ∈ top :: rest, x ∉ before.flatten := fun x hx hb =>
    hdisjoint x hb x (mem_append_left _ hx) rfl
  unfold EventQueue.removeItem
  by_cases htop : event = top
  · subst htop
    rw [if_pos rfl, erase_cons_head]
    cases rest with
    | nil =>
      rw [show (q.events event).nextInBin = none from hbin.2.1.1]
      refine ⟨q, ?_, relinked_refl q, rfl, hbin.2.2, hbefore⟩
      rw [show (q.events event).nextBin = first after none from hbin.1 event rfl]
      rfl
    | cons n =>
      rw [show (q.events event).nextInBin = some n from hbin.2.1.1]
      refine ⟨_, rfl, relinked_setNextBin q n _, rfl, ?_, ?_⟩
      · rw [nextBin_setNextBin, nextInBin_setNextBin]
        refine hbin.pop fun hn => ?_
        have := (nodup_append.mp hnodup).2.2
        exact this n (by simp) n hn rfl
      · rw [nextBin_setNextBin, nextInBin_setNextBin]
        exact hbefore.update_next (hout n (by simp)) _
  · have hrest : event ∈ rest := (mem_cons.mp hmem).resolve_left htop
    have hfuel : rest.length ≤ q.numEvents := by
      have := h.length_le
      simp only [flatten_append, flatten_cons, length_append, length_cons] at this
      omega
    obtain ⟨l, c, r, hsplit, hfind⟩ := findInBin_spec hbin.2.1 hfuel hrest
    have hhead : (l ++ c :: r).head? = some top := by
      cases l with
      | nil | cons => exact congrArg head? hsplit.symm |>.trans rfl
    rw [hsplit] at hbin hnodup hout
    rw [if_neg htop, hsplit, erase_below (nodup_append.mp hnodup).1,
      show (q.events top).nextInBin = q.nextInBin top from rfl, hfind]
    have hleft : consBin (l ++ c :: r) after = (l ++ c :: r) :: after := by
      cases l with
      | nil | cons => rfl
    rw [hleft]
    refine ⟨q.setNextInBin c (q.nextInBin event), ?_, relinked_setNextInBin q c _, rfl, ?_, ?_⟩
    · rw [show first ((l ++ c :: r) :: after) none = some top from hhead]
      rfl
    · rw [nextBin_setNextInBin, nextInBin_setNextInBin]
      exact hbin.unlink hnodup
    · rw [nextBin_setNextInBin, nextInBin_setNextInBin]
      refine hbefore.congr (fun _ _ _ _ => rfl) fun a ha => ?_
      exact update_of_ne (ne_of_mem_of_not_mem ha (hout c (by simp))) _ _

lemma mem_erased {b : List Nat} (hnodup : (before ++ b :: after).flatten.Nodup)
    (hmem : event ∈ b) (e : Nat) : e ∈ (before ++ consBin (b.erase event) after).flatten ↔
      e ∈ (before ++ b :: after).flatten ∧ e ≠ event := by
  simp only [flatten_append, flatten_cons, nodup_append] at hnodup
  obtain ⟨-, ⟨hbin, -, hafter⟩, hbefore⟩ := hnodup
  have hout : ∀ x, x ∈ before.flatten ∨ x ∈ after.flatten → x ≠ event := by
    rintro x (hx | hx) rfl
    · exact hbefore x hx x (mem_append_left _ hmem) rfl
    · exact hafter x hmem x hx rfl
  simp only [flatten_append, flatten_consBin, flatten_cons, mem_append, hbin.mem_erase_iff]
  have := hout e
  tauto

/-- The bins behind a place with one event fewer keep the order and what is known of them. -/
lemma Shape.shrink {b : List Nat} (h : Shape q (before ++ b :: after)) (event : Nat) :
    Sorted q.key q.newer (before ++ consBin (b.erase event) after) ∧
      ∀ e ∈ (consBin (b.erase event) after).flatten,
        e < q.numEvents ∧ q.insertedAt e < q.insertions := by
  refine ⟨h.sorted.shrink erase_sublist, fun e he => ?_⟩
  have hin : e ∈ (before ++ b :: after).flatten := by
    rw [flatten_consBin, mem_append] at he
    simp only [flatten_append, flatten_cons, mem_append]
    exact .inr (he.imp_left mem_of_mem_erase)
  exact ⟨h.known e hin, h.recorded e hin⟩

lemma Shape.remove (h : Shape q bins) (hmem : event ∈ bins.flatten) :
    ∃ q' bins', q.remove event = .ok q' ∧ Shape q' bins' ∧ Relinked q q' ∧
      ∀ e, e ∈ bins'.flatten ↔ e ∈ bins.flatten ∧ e ≠ event := by
  cases bins with
  | nil => exact absurd hmem not_mem_nil
  | cons _ bins =>
    obtain ⟨hne, huniform, -, hahead, -⟩ := sorted_cons.mp h.sorted
    obtain ⟨c, rest, rfl⟩ := exists_cons_of_ne_nil hne
    unfold EventQueue.remove
    rw [show q.head = some c from h.head]
    dsimp only
    rw [flatten_cons, mem_append] at hmem
    by_cases heq : (q.events c).eq (q.events event) = true
    · -- an event of the key of the head cannot be in a later bin
      have hkey : q.key c = q.key event := Event.eq_iff.mp heq
      have hbin : event ∈ c :: rest := hmem.resolve_right fun hlater =>
        (hahead c mem_cons_self event hlater).ne hkey
      have hnil : Shape q ([] ++ (c :: rest) :: bins) := h
      obtain ⟨_, hremove, hre, -, hlinked, -⟩ := hnil.removeItem hbin
      obtain ⟨hsorted, hknown⟩ := hnil.shrink event
      rw [if_pos heq, hremove]
      exact ⟨_, _, rfl, Shape.replaceHead hre hlinked hsorted hknown, hre.withHead _,
        mem_erased hnil.nodup hbin⟩
    · have hkey : q.key c ≠ q.key event := fun h => heq (Event.eq_iff.mpr h)
      have hlater : event ∈ bins.flatten := hmem.resolve_left fun hbin =>
        hkey (huniform c mem_cons_self event hbin)
      obtain ⟨before, d, restd, after, hsplit, hfind, hbefore, hafter⟩ :=
        h.findBin (hahead c mem_cons_self event hlater)
      rw [hsplit] at h ⊢
      have hevent : event ∈ after.flatten := by
        have hall : event ∈ ((c :: rest) :: bins).flatten := mem_append_right _ hlater
        rw [hsplit, flatten_append, mem_append] at hall
        exact hall.resolve_left fun hb => lt_irrefl _ (hbefore event hb)
      rw [if_neg heq, hfind]
      cases after with
      | nil => exact absurd hevent not_mem_nil
      | cons _ after =>
        obtain ⟨-, hsorted', -⟩ := sorted_append.mp h.sorted
        obtain ⟨hne', huniform', -, hahead', -⟩ := sorted_cons.mp hsorted'
        obtain ⟨t, restt, rfl⟩ := exists_cons_of_ne_nil hne'
        rw [flatten_cons, mem_append] at hevent
        -- the bin the loop stopped at is the event's own, since no smaller key is behind it
        have hle : q.key event ≤ q.key t := hafter t (by simp)
        have hbin : event ∈ t :: restt := hevent.resolve_right fun hl =>
          absurd (hahead' t mem_cons_self event hl) (not_lt.mpr hle)
        have hsame : ¬ (q.events t).ne (q.events event) = true := fun hn =>
          Event.ne_iff.mp hn (huniform' t mem_cons_self event hbin)
        obtain ⟨q', hremove, hre, hhead, hlinked, hfront⟩ := h.removeItem hbin
        obtain ⟨hsorted, hknown⟩ := h.shrink event
        refine ⟨q'.setNextBin d (first (consBin ((t :: restt).erase event) after) none), _, ?_,
          h.replaceBehind hre hhead hfront hlinked hsorted hknown,
          hre.trans (relinked_setNextBin _ _ _), mem_erased h.nodup hbin⟩
        change (if (q.events t).ne (q.events event) = true then _ else _) = _
        rw [if_neg hsame, hremove]
        rfl

/-! ## What every operation keeps -/

/-- The parts of a queue that its bins depend on. -/
lemma Shape.congr (h : Shape q bins) (hkey : ∀ e ∈ bins.flatten, q'.key e = q.key e)
    (hnext : ∀ e ∈ bins.flatten, q'.nextBin e = q.nextBin e)
    (hin : ∀ e ∈ bins.flatten, q'.nextInBin e = q.nextInBin e) (hhead : q'.head = q.head)
    (hnum : q.numEvents ≤ q'.numEvents) (hat : q'.insertedAt = q.insertedAt)
    (hcount : q'.insertions = q.insertions) : Shape q' bins where
  sorted := by
    refine h.sorted.congr hkey fun x _ y _ hxy => ?_
    rw [newer, hat]
    exact hxy
  head := hhead.trans h.head
  linked := h.linked.congr (fun b hb a ha => hnext a (mem_flatten_of_head? hb ha)) hin
  known e he := (h.known e he).trans_le hnum
  recorded e he := by
    rw [hat, hcount]
    exact h.recorded e he

lemma Shape.setScheduled (h : Shape q bins) (e : Nat) (flag : Bool) :
    Shape (q.setScheduled e flag) bins :=
  h.congr (fun x _ => modify_proj Event.key q e x _ fun _ => rfl)
    (fun x _ => modify_proj Event.nextBin q e x _ fun _ => rfl)
    (fun x _ => modify_proj Event.nextInBin q e x _ fun _ => rfl) rfl le_rfl rfl rfl

lemma Shape.setSquashed (h : Shape q bins) (e : Nat) (flag : Bool) :
    Shape (q.setSquashed e flag) bins :=
  h.congr (fun x _ => modify_proj Event.key q e x _ fun _ => rfl)
    (fun x _ => modify_proj Event.nextBin q e x _ fun _ => rfl)
    (fun x _ => modify_proj Event.nextInBin q e x _ fun _ => rfl) rfl le_rfl rfl rfl

lemma Shape.setWhen (h : Shape q bins) (hfresh : event ∉ bins.flatten) (when : Tick) :
    Shape (q.setWhen event when) bins :=
  h.congr
    (fun _ hx => congrArg Event.key (modify_events_of_ne (ne_of_mem_of_not_mem hx hfresh) q _))
    (fun x _ => modify_proj Event.nextBin q event x _ fun _ => rfl)
    (fun x _ => modify_proj Event.nextInBin q event x _ fun _ => rfl) rfl le_rfl rfl rfl

structure Consistent (q : EventQueue) (bins : List (List Nat)) : Prop where
  shape : Shape q bins
  scheduled : ∀ e, (q.events e).scheduled = true ↔ e ∈ bins.flatten
  due : ∀ e ∈ bins.flatten, q.curTick ≤ (q.events e).when

lemma consistent_new : Consistent new [] where
  shape := ⟨sorted_nil _ _, rfl, trivial, nofun, nofun⟩
  scheduled e := by simp [new, Event.new]
  due := nofun

/-- As `Consistent`, with the flag of one event still to be set. -/
structure Nearly (q : EventQueue) (event : Nat) (bins : List (List Nat)) : Prop where
  shape : Shape q bins
  scheduled : ∀ e, e ≠ event → ((q.events e).scheduled = true ↔ e ∈ bins.flatten)
  due : ∀ e ∈ bins.flatten, q.curTick ≤ (q.events e).when

lemma Consistent.nearly (h : Consistent q bins) (event : Nat) : Nearly q event bins :=
  ⟨h.shape, fun e _ => h.scheduled e, h.due⟩

lemma Nearly.setScheduled (h : Nearly q event bins) {flag : Bool}
    (hflag : flag = true ↔ event ∈ bins.flatten) :
    Consistent (q.setScheduled event flag) bins where
  shape := h.shape.setScheduled event flag
  scheduled e := by
    by_cases he : e = event
    · rw [he, EventQueue.setScheduled, modify_events_self]
      exact hflag
    · rw [EventQueue.setScheduled, modify_events_of_ne he]
      exact h.scheduled e he
  due e he := by
    rw [when_setScheduled]
    exact h.due e he

lemma Nearly.setSquashed (h : Nearly q event bins) (e : Nat) (flag : Bool) :
    Nearly (q.setSquashed e flag) event bins where
  shape := h.shape.setSquashed e flag
  scheduled x hx := by
    rw [scheduled_setSquashed]
    exact h.scheduled x hx
  due x hx := by
    rw [when_setSquashed]
    exact h.due x hx

lemma Consistent.setSquashed (h : Consistent q bins) (e : Nat) (flag : Bool) :
    Consistent (q.setSquashed e flag) bins where
  shape := h.shape.setSquashed e flag
  scheduled x := by
    rw [scheduled_setSquashed]
    exact h.scheduled x
  due := ((h.nearly e).setSquashed e flag).due

lemma Nearly.remove (h : Nearly q event bins) (hmem : event ∈ bins.flatten) :
    ∃ q' bins', q.remove event = .ok q' ∧ Nearly q' event bins' ∧ event ∉ bins'.flatten ∧
      Relinked q q' := by
  obtain ⟨q', bins', hremove, hshape, hre, hleft⟩ := h.shape.remove hmem
  refine ⟨q', bins', hremove, ⟨hshape, fun e he => ?_, fun e he => ?_⟩,
    fun hin => ((hleft event).mp hin).2 rfl, hre⟩
  · rw [hre.scheduled, h.scheduled e he, hleft e]
    exact (and_iff_left he).symm
  · rw [hre.curTick, hre.when]
    exact h.due e ((hleft e).mp he).1

lemma Nearly.insert (h : Nearly q event bins) (hfresh : event ∉ bins.flatten)
    (hevent : event < q.numEvents) {when : Tick} (hwhen : q.curTick ≤ when) :
    ∃ q' bins', (q.setWhen event when).insert event = .ok q' ∧ Nearly q' event bins' ∧
      event ∈ bins'.flatten ∧ q'.curTick = q.curTick := by
  obtain ⟨q', bins', hinsert, hshape, hre, hmem⟩ :=
    (h.shape.setWhen hfresh when).insert hfresh hevent
  refine ⟨q', bins', hinsert, ⟨hshape, fun e he => ?_, fun e he => ?_⟩,
    (hmem event).mpr (.inl rfl), hre.curTick⟩
  · have hflag : (q'.events e).scheduled = (q.events e).scheduled :=
      (hre.scheduled e).trans (scheduled_setWhen q event e when)
    rw [hflag, h.scheduled e he, hmem e]
    exact (or_iff_right he).symm
  · rw [hre.curTick, hre.when]
    change q.curTick ≤ ((q.setWhen event when).events e).when
    by_cases hx : e = event
    · rw [hx, EventQueue.setWhen, modify_events_self]
      exact hwhen
    · rw [EventQueue.setWhen, modify_events_of_ne hx]
      exact h.due e (((hmem e).mp he).resolve_left hx)

lemma Consistent.construct (h : Consistent q bins) (priority : Int) :
    Consistent (q.construct priority) bins := by
  have hother : ∀ e, e ≠ q.numEvents → (q.construct priority).events e = q.events e :=
    fun e he => update_of_ne he _ _
  have hold : ∀ e ∈ bins.flatten, (q.construct priority).events e = q.events e :=
    fun e he => hother e (h.shape.known e he).ne
  constructor
  · exact h.shape.congr (fun e he => congrArg Event.key (hold e he))
      (fun e he => congrArg Event.nextBin (hold e he))
      (fun e he => congrArg Event.nextInBin (hold e he)) rfl (Nat.le_succ _) rfl rfl
  · intro e
    by_cases he : e = q.numEvents
    · have hnew : (q.construct priority).events e = Event.new priority := by
        rw [he]
        exact update_self _ _ _
      rw [hnew]
      constructor
      · exact nofun
      · exact fun hin => absurd he (h.shape.known e hin).ne
    · rw [hother e he]
      exact h.scheduled e
  · intro e he
    rw [hold e he]
    exact h.due e he

/-- Servicing takes the top of the first bin out of the bins, as its removal would. -/
lemma serviceOne_eq {top : Option Nat} (hhead : q.head = some event)
    (hremove : (q.setScheduled event false).removeItem event event = .ok (q', top)) :
    q.serviceOne = .ok (if !(q'.events event).squashed then
        { q' with head := top, curTick := (q'.events event).when }
      else ({ q' with head := top } : EventQueue).setSquashed event false, event) := by
  have hin : ((q.setScheduled event false).events event).nextInBin = (q.events event).nextInBin :=
    modify_proj Event.nextInBin q event event _ fun _ => rfl
  unfold EventQueue.removeItem at hremove
  rw [if_pos rfl, hin] at hremove
  unfold serviceOne
  rw [hhead]
  dsimp only
  cases hnext : (q.events event).nextInBin with
  | none | some =>
    rw [hnext] at hremove
    cases hremove
    dsimp only
    split <;> rfl

lemma when_le_of_key_le {x y : Nat} (h : q.key x ≤ q.key y) :
    (q.events x).when ≤ (q.events y).when := by
  rcases Prod.Lex.toLex_le_toLex.mp h with hlt | ⟨heq, -⟩
  · exact hlt.le
  · exact heq.le

/-- `e` is scheduled, none comes before it, and it is the newest of its time and priority. -/
def Foremost (q : EventQueue) (e : Nat) : Prop :=
  (q.events e).scheduled = true ∧ ∀ f, (q.events f).scheduled = true →
    q.key e < q.key f ∨ q.key e = q.key f ∧ (f = e ∨ q.newer e f)

lemma Consistent.serviceOne (h : Consistent q ((c :: rest) :: after)) : Foremost q c ∧ ∃ q' bins',
      q.serviceOne = .ok (q', c) ∧ Consistent q' bins' ∧ q.curTick ≤ q'.curTick := by
  have hc : c ∈ ((c :: rest) :: after).flatten := by simp
  have hforemost : Foremost q c := by
    refine ⟨(h.scheduled c).mpr hc, fun f hf => ?_⟩
    have hmem := (h.scheduled f).mp hf
    have hpairs := h.shape.sorted.pairwise
    rw [flatten_cons, cons_append] at hmem hpairs
    rcases mem_cons.mp hmem with rfl | hlater
    · exact .inr ⟨rfl, .inl rfl⟩
    · exact ((pairwise_cons.mp hpairs).1 f hlater).imp_right fun hx => ⟨hx.1, .inr hx.2⟩
  refine ⟨hforemost, ?_⟩
  have hshape : Shape (q.setScheduled c false) ([] ++ (c :: rest) :: after) :=
    h.shape.setScheduled c false
  obtain ⟨q', hremove, hre, -, hlinked, -⟩ :=
    hshape.removeItem (mem_cons_self (a := c) (l := rest))
  obtain ⟨hsorted, hknown⟩ := hshape.shrink c
  have hshape' := Shape.replaceHead hre hlinked hsorted hknown
  have hmem := mem_erased hshape.nodup (mem_cons_self (a := c) (l := rest))
  generalize consBin ((c :: rest).erase c) after = left at *
  rw [nil_append, nil_append] at hmem
  have hwhen : ∀ e, (q'.events e).when = (q.events e).when := fun e =>
    (hre.when e).trans (when_setScheduled q c e false)
  have hflag : ∀ e, (q'.events e).scheduled = true ↔ e ∈ left.flatten := by
    intro e
    rw [hre.scheduled, hmem e]
    by_cases he : e = c
    · rw [he, EventQueue.setScheduled, modify_events_self]
      simp
    · rw [EventQueue.setScheduled, modify_events_of_ne he, h.scheduled e]
      exact (and_iff_left he).symm
  rw [serviceOne_eq h.shape.head hremove]
  by_cases hsquashed : (q'.events c).squashed = true
  · have hconsistent : Consistent { q' with head := first left none } left := by
      refine ⟨hshape', hflag, fun e he => ?_⟩
      rw [hre.curTick, hwhen]
      exact h.due e ((hmem e).mp he).1
    rw [hsquashed]
    exact ⟨_, left, rfl, hconsistent.setSquashed c false, hre.curTick.ge⟩
  · rw [Bool.eq_false_of_not_eq_true hsquashed]
    refine ⟨_, left, rfl, ⟨?_, hflag, fun e he => ?_⟩, ?_⟩
    · exact hshape'.congr (fun _ _ => rfl) (fun _ _ => rfl) (fun _ _ => rfl) rfl le_rfl rfl rfl
    · -- the new tick is the time of an event that was before all those left
      change (q'.events c).when ≤ (q'.events e).when
      rw [hwhen, hwhen]
      have hold : (q.events e).scheduled = true := (h.scheduled e).mpr ((hmem e).mp he).1
      exact when_le_of_key_le ((hforemost.2 e hold).elim le_of_lt fun hx => hx.1.le)
    · rw [hwhen]
      exact h.due c hc

/-! ## Runs -/

def Legal (q : EventQueue) : Op → Prop
  | .construct _ => True
  | .squash _ => True
  | .schedule event when =>
    q.curTick ≤ when ∧ (q.events event).scheduled = false ∧ event < q.numEvents
  | .deschedule event => (q.events event).scheduled = true
  | .reschedule event when always =>
    q.curTick ≤ when ∧ (always || (q.events event).scheduled) = true ∧ event < q.numEvents
  | .serviceOne => ∃ event < q.numEvents, (q.events event).scheduled = true

instance (q : EventQueue) (op : Op) : Decidable (Legal q op) := by
  cases op <;> unfold Legal <;> infer_instance

/-- A legal operation returns, keeps the queue consistent and does not turn back the tick. -/
lemma Consistent.step (h : Consistent q bins) {op : Op} (hlegal : Legal q op) :
    ∃ q' bins', q.step op = .ok q' ∧ Consistent q' bins' ∧ q.curTick ≤ q'.curTick := by
  cases op with
  | construct priority => exact ⟨_, bins, rfl, h.construct priority, le_rfl⟩
  | squash event => exact ⟨_, bins, rfl, h.setSquashed event true, le_rfl⟩
  | schedule event when =>
    obtain ⟨hwhen, hflag, hevent⟩ := hlegal
    have hfresh : event ∉ bins.flatten := fun he => by
      rw [(h.scheduled event).mpr he] at hflag
      exact Bool.noConfusion hflag
    obtain ⟨q', bins', hinsert, hnearly, hin, htick⟩ :=
      (h.nearly event).insert hfresh hevent hwhen
    refine ⟨q'.setScheduled event true, bins', ?_, hnearly.setScheduled (iff_of_true rfl hin),
      htick.ge⟩
    change q.schedule event when = _
    unfold schedule
    rw [if_neg (not_not.mpr hwhen), hflag, if_neg Bool.false_ne_true, if_neg (not_not.mpr hevent),
      hinsert]
    rfl
  | deschedule event =>
    have hin := (h.scheduled event).mp hlegal
    obtain ⟨q', bins', hremove, hnearly, hout, hre⟩ := (h.nearly event).remove hin
    refine ⟨(q'.setSquashed event false).setScheduled event false, bins', ?_,
      (hnearly.setSquashed event false).setScheduled (iff_of_false Bool.false_ne_true hout),
      hre.curTick.ge⟩
    change q.deschedule event = _
    unfold deschedule
    rw [show (q.events event).scheduled = true from hlegal, Bool.not_true,
      if_neg Bool.false_ne_true, if_neg (not_not.mpr (h.shape.known event hin)), hremove]
    rfl
  | reschedule event when always =>
    obtain ⟨hwhen, hflag, hevent⟩ := hlegal
    -- the event is out of the bins before it goes in again, whether it was in them or not
    have hout : ∃ q' bins', q.removeScheduled event = .ok q' ∧ Nearly q' event bins' ∧
        event ∉ bins'.flatten ∧ Relinked q q' := by
      unfold removeScheduled
      by_cases hscheduled : (q.events event).scheduled = true
      · rw [if_pos hscheduled]
        exact (h.nearly event).remove ((h.scheduled event).mp hscheduled)
      · rw [if_neg hscheduled]
        exact ⟨q, bins, rfl, h.nearly event, fun he => hscheduled ((h.scheduled event).mpr he),
          relinked_refl q⟩
    obtain ⟨q₁, _, hremove, hnearly₁, hout, hre⟩ := hout
    obtain ⟨q', bins', hinsert, hnearly, hin, htick⟩ := hnearly₁.insert hout
      (hre.numEvents.symm ▸ hevent) (hre.curTick.symm ▸ hwhen)
    refine ⟨(q'.setSquashed event false).setScheduled event true, bins', ?_,
      (hnearly.setSquashed event false).setScheduled (iff_of_true rfl hin),
      (htick.trans hre.curTick).ge⟩
    change q.reschedule event when always = _
    unfold reschedule
    rw [if_neg (not_not.mpr hwhen), hflag, Bool.not_true, if_neg Bool.false_ne_true,
      if_neg (not_not.mpr hevent), hremove]
    change ((q₁.setWhen event when).insert event >>= _) = _
    rw [hinsert]
    rfl
  | serviceOne =>
    obtain ⟨event, -, hscheduled⟩ := hlegal
    have hin := (h.scheduled event).mp hscheduled
    cases bins with
    | nil => exact absurd hin not_mem_nil
    | cons b =>
      obtain ⟨_, _, rfl⟩ :=
        exists_cons_of_ne_nil (h.shape.sorted.nonempty b mem_cons_self)
      obtain ⟨-, q', bins', hservice, hconsistent, htick⟩ := h.serviceOne
      refine ⟨q', bins', ?_, hconsistent, htick⟩
      change Prod.fst <$> q.serviceOne = _
      rw [hservice]
      rfl

lemma Consistent.foremost (h : Consistent q bins) {e : Nat}
    (hservice : q.serviceOne = .ok (q', e)) : Foremost q e := by
  cases bins with
  | nil =>
    unfold EventQueue.serviceOne at hservice
    rw [show q.head = none from h.shape.head] at hservice
    cases hservice
  | cons b =>
    obtain ⟨_, _, rfl⟩ :=
      exists_cons_of_ne_nil (h.shape.sorted.nonempty b mem_cons_self)
    obtain ⟨hforemost, _, _, hservice', -⟩ := h.serviceOne
    rw [hservice] at hservice'
    cases hservice'
    exact hforemost

/-- Four events, two of which share a bin that an event on top of them has left again. -/
def fourEvents : List Op :=
  [.construct 0, .construct 0, .construct 0, .construct (-5), .schedule 0 7, .schedule 1 7,
    .schedule 2 7, .schedule 3 9, .deschedule 1, .serviceOne, .reschedule 0 12 false]

end EventQueue

end Simulation
