import Mathlib.Tactic

/-!
# Replacement policies over replaceable locations

A policy keeps its own data for all locations of a container, with the interface of the simulator's
base class. Only membership of the victim among the candidates is required, so every result that
does not name a policy holds for all of them. Least-recently-used and first-in-first-out both stamp
locations and evict the first candidate with the least stamp; they differ in what refreshes the
stamp and in where it is taken from.
-/

namespace ReplacementPolicy

open Function List

abbrev Tick := Nat

structure Policy (L : Type) where
  Data : Type
  instantiateEntry : Data
  touch : Tick → L → Data → Data
  reset : Tick → L → Data → Data
  invalidate : L → Data → Data
  getVictim : Data → (candidates : List L) → candidates ≠ [] → L × Data
  getVictim_mem : ∀ d cs h, (getVictim d cs h).1 ∈ cs

variable {L : Type}

def firstLeast (stamp : L → Tick) : L → List L → L
  | victim, [] => victim
  | victim, c :: rest => firstLeast stamp (if stamp c < stamp victim then c else victim) rest

lemma firstLeast_mem_cons (stamp : L → Tick) (victim : L) (cs : List L) :
    firstLeast stamp victim cs ∈ victim :: cs := by
  induction cs generalizing victim with
  | nil => simp [firstLeast]
  | cons c _ ih =>
    by_cases hc : stamp c < stamp victim
    · have h := ih c
      simp only [firstLeast, if_pos hc]
      exact mem_cons_of_mem victim h
    · have h := ih victim
      simp only [firstLeast, if_neg hc]
      rcases mem_cons.mp h with he | hm
      · rw [he]
        exact mem_cons_self
      · exact mem_cons_of_mem victim (mem_cons_of_mem c hm)

lemma firstLeast_mem (stamp : L → Tick) (cs : List L) (h : cs ≠ []) :
    firstLeast stamp (cs.head h) cs ∈ cs := by
  have hm := firstLeast_mem_cons stamp (cs.head h) cs
  rcases mem_cons.mp hm with he | hm
  · rw [he]
    exact head_mem h
  · exact hm

variable [DecidableEq L]

/-- `LRU`: stamps are the simulation time of the last touch or insertion, and
an invalidated location goes back to time zero. -/
def lru : Policy L where
  Data := L → Tick
  instantiateEntry := fun _ => 0
  touch now l d := update d l now
  reset now l d := update d l now
  invalidate l d := update d l 0
  getVictim d cs h := (firstLeast d (cs.head h) cs, d)
  getVictim_mem d cs h := firstLeast_mem d cs h

structure FifoData (L : Type) where
  tickInserted : L → Tick
  timeTicks : Tick

/-- `FIFO`: stamps come from a counter of the policy itself, on insertion only. The constructor does
not set its first value. -/
def fifo (start : Tick) : Policy L where
  Data := FifoData L
  instantiateEntry := ⟨fun _ => 0, start⟩
  touch _ _ d := d
  reset _ l d := ⟨update d.tickInserted l (d.timeTicks + 1), d.timeTicks + 1⟩
  invalidate l d := { d with tickInserted := update d.tickInserted l 0 }
  getVictim d cs h := (firstLeast d.tickInserted (cs.head h) cs, d)
  getVictim_mem d cs h := firstLeast_mem d.tickInserted cs h

end ReplacementPolicy
