import BTBFerret.ReturnAddrStack

/-!
# Squashing takes the stack back

A squash of a push only moves the top down, so an overwritten slot stays overwritten; a squash of a
pop writes the popped entry back. The slots at and below the top are restored, and only those above
it that were in use on the wrong path may differ.
-/

namespace BTBFerret

namespace ReturnAddr

open AddrStack List

variable {n : Nat} [NeZero n]

inductive StackOp where
  | push (returnAddr : PCState)
  | pop

namespace StackOp

/-- How far the operation moves the top. -/
def shift : StackOp → Int
  | .push _ => 1
  | .pop => -1

/-- The first operation of a branch, which has no history yet. -/
def perform (s : AddrStack n) : StackOp → AddrStack n × RASHistory n
  | .push returnAddr => ReturnAddr.push s returnAddr none
  | .pop => ReturnAddr.pop s none

end StackOp

/-- The depth reached by the operations, above the stack they start from. -/
def netDepth (ops : List StackOp) : Int := (ops.map StackOp.shift).sum

/-- One branch after the other, with the history of the youngest branch first. -/
def speculate (s : AddrStack n) : List StackOp → AddrStack n × List (RASHistory n)
  | [] => (s, [])
  | op :: rest =>
    let (s, history) := op.perform s
    let (s, histories) := speculate s rest
    (s, histories ++ [history])

def squashAll (s : AddrStack n) (histories : List (RASHistory n)) : AddrStack n :=
  histories.foldl (fun s history => squash s (some history)) s

lemma squashAll_concat (s : AddrStack n) (histories : List (RASHistory n))
    (history : RASHistory n) :
    squashAll s (histories ++ [history]) = squash (squashAll s histories) (some history) :=
  foldl_concat _ s history histories

/-! ## Positions in the ring -/

lemma incrTos_val (tos : Fin n) : (incrTos tos).val = (tos.val + 1) % n := by
  have hlt := tos.isLt
  unfold incrTos
  split
  · rename_i hwrap
    rw [hwrap, Nat.mod_self]
  · exact (Nat.mod_eq_of_lt (by omega)).symm

lemma decrTos_incrTos (tos : Fin n) : decrTos (incrTos tos) = tos := by
  refine tos_eq ?_
  rw [decrTos_cast, incrTos_cast, add_sub_cancel_right]

lemma incrTos_decrTos (tos : Fin n) : incrTos (decrTos tos) = tos := by
  refine tos_eq ?_
  rw [incrTos_cast, decrTos_cast, sub_add_cancel]

/-- The slot is none of the `h` slots above the top. -/
def Below (tos : Fin n) (h : Nat) (slot : Fin n) : Prop :=
  ∀ k, 1 ≤ k → k ≤ h → slot.val ≠ (tos.val + k) % n

lemma Below.push {tos slot : Fin n} {h : Nat} (hbelow : Below tos (h + 1) slot) :
    Below (incrTos tos) h slot ∧ slot ≠ incrTos tos := by
  constructor
  · intro k hpos hle
    rw [incrTos_val, Nat.mod_add_mod, Nat.add_assoc]
    exact hbelow (1 + k) (by omega) (by omega)
  · rintro rfl
    exact hbelow 1 le_rfl (by omega) (incrTos_val tos)

lemma Below.pop {tos slot : Fin n} {h : Nat} (hbelow : Below tos h slot) (hne : slot ≠ tos) :
    Below (decrTos tos) (h + 1) slot := by
  have htop : (decrTos tos).val + 1 ≡ tos.val [MOD n] := by
    have hval := incrTos_val (decrTos tos)
    rw [incrTos_decrTos] at hval
    exact hval.symm.trans (Nat.mod_eq_of_lt tos.isLt).symm
  intro k hpos hle
  obtain ⟨j, rfl⟩ := Nat.exists_eq_add_of_le hpos
  have hmod : ((decrTos tos).val + (1 + j)) % n = (tos.val + j) % n := by
    rw [← Nat.add_assoc]
    exact htop.add_right j
  rw [hmod]
  cases j with
  | zero =>
    rw [Nat.add_zero, Nat.mod_eq_of_lt tos.isLt]
    exact fun heq => hne (Fin.ext heq)
  | succ j => exact hbelow (j + 1) (by omega) (by omega)

/-! ## The undo -/

lemma netDepth_take_cons (op : StackOp) (rest : List StackOp) (k : Nat) :
    netDepth ((op :: rest).take (k + 1)) = op.shift + netDepth (rest.take k) := by
  rw [take_succ_cons, netDepth, map_cons, sum_cons, netDepth]

/-- The branches were never more than `h` entries above the stack `s`. Squashing them restores the
top, and all slots but the `h` above it. -/
theorem squash_restores_stack (s : AddrStack n) (ops : List StackOp) {h : Nat}
    (hmax : ∀ k, netDepth (ops.take k) ≤ h) :
    (squashAll (speculate s ops).1 (speculate s ops).2).tos = s.tos ∧
      ∀ slot, (∀ k, 1 ≤ k → k ≤ h → slot.val ≠ (s.tos.val + k) % n) →
        (squashAll (speculate s ops).1 (speculate s ops).2).addrStack slot = s.addrStack slot := by
  induction ops generalizing s h with
  | nil => exact ⟨rfl, fun _ _ => rfl⟩
  | cons op rest ih =>
    cases op with
    | push returnAddr =>
      -- the push itself reaches depth one
      have hone : (1 : Int) ≤ h := hmax 1
      obtain ⟨h, rfl⟩ : ∃ h', h = h' + 1 := ⟨h - 1, by omega⟩
      have hrest : ∀ k, netDepth (rest.take k) ≤ h := by
        intro k
        have hk := hmax (k + 1)
        rw [netDepth_take_cons] at hk
        simp only [StackOp.shift] at hk
        omega
      obtain ⟨htos, hslots⟩ := ih (s.push returnAddr) hrest
      have hundo : squashAll (speculate s (.push returnAddr :: rest)).1
          (speculate s (.push returnAddr :: rest)).2 =
          (squashAll (speculate (s.push returnAddr) rest).1
            (speculate (s.push returnAddr) rest).2).pop := squashAll_concat _ _ _
      rw [hundo]
      constructor
      · change decrTos _ = s.tos
        rw [htos]
        exact decrTos_incrTos s.tos
      · intro slot hbelow
        obtain ⟨hbelow', hne⟩ := Below.push hbelow
        exact (hslots slot hbelow').trans (Function.update_of_ne hne _ _)
    | pop =>
      have hrest : ∀ k, netDepth (rest.take k) ≤ (h + 1 : Nat) := by
        intro k
        have hk := hmax (k + 1)
        rw [netDepth_take_cons] at hk
        simp only [StackOp.shift] at hk
        omega
      obtain ⟨-, hslots⟩ := ih s.pop hrest
      have hundo : squashAll (speculate s (.pop :: rest)).1 (speculate s (.pop :: rest)).2 =
          (squashAll (speculate s.pop rest).1 (speculate s.pop rest).2).restore s.tos s.top :=
        squashAll_concat _ _ _
      rw [hundo]
      refine ⟨rfl, fun slot hbelow => ?_⟩
      by_cases hslot : slot = s.tos
      · rw [hslot]
        exact Function.update_self _ _ _
      · exact (Function.update_of_ne hslot _ _).trans (hslots slot (Below.pop hbelow hslot))

/-- Two pops and three pushes on a ring of three slots, whose top is the first slot. -/
def wrongPath : List StackOp :=
  [.pop, .pop, .push (.ofAddr 4), .push (.ofAddr 8), .push (.ofAddr 12)]

/-- One slot above the top is overwritten. The other two come back, though both were overwritten
and the top went around the ring. -/
theorem squash_restores_stack_small :
    let s : AddrStack 3 := ⟨fun slot => some (.ofAddr (BitVec.ofNat 64 slot.val)), 3, 0⟩
    let t := squashAll (speculate s wrongPath).1 (speculate s wrongPath).2
    (speculate s wrongPath).1.addrStack 0 ≠ s.addrStack 0 ∧
      (speculate s wrongPath).1.addrStack 2 ≠ s.addrStack 2 ∧
      t.tos = 0 ∧ t.addrStack 0 = s.addrStack 0 ∧ t.addrStack 2 = s.addrStack 2 ∧
      t.addrStack 1 ≠ s.addrStack 1 := by
  intro s t
  have hmax : ∀ k, netDepth (wrongPath.take k) ≤ (1 : Nat) := by
    intro k
    by_cases hk : k < 5
    · interval_cases k <;> decide
    · rw [take_of_length_le (by simp only [wrongPath, length_cons, length_nil]; omega)]
      decide
  obtain ⟨htos, hslots⟩ := squash_restores_stack s wrongPath hmax
  refine ⟨by decide, by decide, htos, hslots 0 ?_, hslots 2 ?_, by decide⟩
  · intro k hpos hle
    obtain rfl : k = 1 := by omega
    decide
  · intro k hpos hle
    obtain rfl : k = 1 := by omega
    decide

end ReturnAddr

end BTBFerret
