import BTBFerret.BTBEntry

/-!
# The stack distance calculator

`mem/stack_dist_calc.cc`: a binary tree of partial sums over the accesses so far. Every access of
an address adds a leaf under the running `index`; its old leaf is removed and the sums to the right
are collected on the way to the root. A node is created with its first leaf and deleted once both
of its halves have been discarded. With `verifyStack` a plain stack is kept next to the tree.

A `Node*` is modelled by the layer and the index of the node, and following a pointer to a deleted
node is a fault. The counters are naturals; they stay far below `2 ^ 64`.
-/

namespace BTBFerret

open Function

inductive StackDistFault where
  /-- a null or dangling `Node*` is followed -/
  | badNode
  /-- `1 << i` does not fit into an `int` -/
  | badShift
  /-- `panic_if` of a verification -/
  | panic
  /-- more parents than layers -/
  | endlessParents
  deriving DecidableEq, Repr

/-- A `Node*`: the layer and the index under which the tree holds the node. -/
structure NodePtr where
  level : Nat
  nodeIndex : Nat
  deriving DecidableEq, Repr

structure Node where
  sumLeft : Nat := 0
  sumRight : Nat := 0
  discardLeft : Bool := false
  discardRight : Bool := false
  nodeIndex : Nat := 0
  parent : Option NodePtr := none
  isLeftNode : Bool := true
  isMarked : Bool := false
  deriving DecidableEq, Repr

/-- The new sums and discard flags of a node whose child on one side has changed. -/
def Node.receive (node : Node) (fromLeft : Bool) (sumFromBelow : Nat) (discardNode : Bool) : Node :=
  { node with
    sumLeft := if fromLeft then sumFromBelow else node.sumLeft
    sumRight := if fromLeft then node.sumRight else sumFromBelow
    discardLeft := node.discardLeft || (discardNode && sumFromBelow == 0 && fromLeft)
    discardRight := node.discardRight || (discardNode && sumFromBelow == 0 && !fromLeft) }

/-- A node whose halves have both been discarded is not required anymore. The root stays. -/
def Node.notRequired (node : Node) (sumFromBelow : Nat) (discardNode : Bool) : Bool :=
  node.discardLeft && node.discardRight && discardNode && node.parent.isSome && sumFromBelow == 0

/-- `tree level k` is `tree[level][k]`, and `treeDepth + 1` is the number of layers. The top of
the debug stack is its first element. -/
structure StackDistCalc where
  index : Nat
  tree : Nat → Nat → Option Node
  treeDepth : Nat
  aiMap : Addr → Option Nat
  nextIndex : Nat → Nat
  stack : List Addr
  verifyStack : Bool

namespace StackDistCalc

/-- `std::numeric_limits<uint64_t>::max()` -/
def Infinity : Nat := 2 ^ 64 - 1

/-- The shift `1 << i` of an `int`. -/
def shiftOne (i : Nat) : Except StackDistFault Nat :=
  if i < 31 then .ok (2 ^ i) else .error .badShift

def isPowerOf2 (n : Nat) : Bool := n != 0 && n &&& (n - 1) == 0

def panicIf (b : Bool) : Except StackDistFault Unit := if b then .error .panic else .ok ()

/-- A leaf layer, and above it a layer with the root. -/
def init (verifyStack : Bool) : StackDistCalc where
  index := 0
  tree := fun level k => if level = 1 ∧ k = 0 then some {} else none
  treeDepth := 1
  aiMap := fun _ => none
  nextIndex := fun level => if level = 1 then 1 else 0
  stack := []
  verifyStack := verifyStack

def node (c : StackDistCalc) (ptr : NodePtr) : Except StackDistFault Node :=
  match c.tree ptr.level ptr.nodeIndex with
  | some node => .ok node
  | none => .error .badNode

variable (c : StackDistCalc)

/-- `tree[level][k]` as a pointer. -/
def find (level k : Nat) : Option NodePtr :=
  if (c.tree level k).isSome then some ⟨level, k⟩ else none

def parentOf (node : Node) : Except StackDistFault NodePtr :=
  match node.parent with
  | some ptr => .ok ptr
  | none => .error .badNode

def place (tree : Nat → Nat → Option Node) (ptr : NodePtr) (node : Option Node) :
    Nat → Nat → Option Node :=
  fun level k => if level = ptr.level ∧ k = ptr.nodeIndex then node else tree level k

def write (ptr : NodePtr) (node : Node) : StackDistCalc :=
  { c with tree := place c.tree ptr (some node) }

def erase (ptr : NodePtr) : StackDistCalc :=
  { c with tree := place c.tree ptr none }

/-- The sums of a node at a layer cannot exceed the leaves below it. -/
def checkSums (node : Node) (level : Nat) : Except StackDistFault Unit :=
  if c.verifyStack then do
    let most ← shiftOne (level - 1)
    panicIf (most < node.sumLeft)
    panicIf (most < node.sumRight)
  else .ok ()

def updateSum : Nat → StackDistCalc → NodePtr → Bool → Nat → Nat → Nat → Bool →
    Except StackDistFault (Nat × StackDistCalc)
  | 0, _, _, _, _, _, _, _ => .error .endlessParents
  | fuel + 1, c, ptr, fromLeft, sumFromBelow, level, stackDist, discardNode => do
    let level := level + 1
    let node ← c.node ptr
    c.checkSums node level
    let stackDist := if fromLeft then stackDist + node.sumRight else stackDist
    let node := node.receive fromLeft sumFromBelow discardNode
    let c := c.write ptr node
    let discardNode := node.notRequired sumFromBelow discardNode
    -- `delete node` and `tree[level].erase(node_n_index)`
    let c := if discardNode then (c.erase ptr).erase ⟨level, node.nodeIndex⟩ else c
    match node.parent with
    | some parent =>
      updateSum fuel c parent node.isLeftNode (node.sumLeft + node.sumRight) level stackDist
        discardNode
    | none => .ok (stackDist, c)

def updateSumsLeavesToRoot (ptr : NodePtr) (isNewLeaf : Bool) :
    Except StackDistFault (Nat × StackDistCalc) := do
  let node ← c.node ptr
  let parent ← parentOf node
  if isNewLeaf then
    let c := c.write ptr { node with sumLeft := 1 }
    let (_, c) ← updateSum c.treeDepth c parent node.isLeftNode 1 0 0 false
    return (Infinity, c)
  else
    let c := c.write ptr { node with sumLeft := 0 }
    updateSum c.treeDepth c parent node.isLeftNode 0 0 0 true

def getSum : Nat → StackDistCalc → NodePtr → Bool → Nat → Except StackDistFault Nat
  | 0, _, _, _, _ => .error .endlessParents
  | fuel + 1, c, ptr, fromLeft, stackDist => do
    let node ← c.node ptr
    let stackDist := if fromLeft then stackDist + node.sumRight else stackDist
    match node.parent with
    | some parent => getSum fuel c parent node.isLeftNode stackDist
    | none => .ok stackDist

def getSumsLeavesToRoot (ptr : NodePtr) : Except StackDistFault Nat := do
  let node ← c.node ptr
  let parent ← parentOf node
  getSum c.treeDepth c parent node.isLeftNode 0

/-- A new inner node of layer `i`, under the last node of the layer above. -/
def addINode (i : Nat) : StackDistCalc :=
  let newINode : Node := {
    isLeftNode := c.nextIndex i % 2 == 0
    parent := c.find (i + 1) (c.nextIndex (i + 1) - 1)
    nodeIndex := c.nextIndex i }
  { c.write ⟨i, c.nextIndex i⟩ newINode with
    nextIndex := update c.nextIndex i (c.nextIndex i + 1) }

def addRoot : Except StackDistFault StackDistCalc := do
  let old ← c.node ⟨c.treeDepth, 0⟩
  let newRoot : Node := {
    sumLeft := old.sumRight + old.sumLeft
    discardLeft := old.discardLeft && old.discardRight }
  let depth := c.treeDepth + 1
  let grown := { c with
    tree := fun level k =>
      if level = depth then (if k = 0 then some newRoot else none) else c.tree level k
    treeDepth := depth
    nextIndex := update c.nextIndex depth 1 }
  return grown.write ⟨c.treeDepth, 0⟩ { old with parent := some ⟨depth, 0⟩ }

/-- The loop of a root update, from the layer below the root down to layer 1. -/
def addChain : Nat → StackDistCalc → StackDistCalc
  | 0, c => c
  | i + 1, c => addChain i (c.addINode (i + 1))

/-- The loop of an intermediate update: layer `i` gets a node at the multiples of `2 ^ i`. -/
def addWhereNeeded : Nat → StackDistCalc → Except StackDistFault StackDistCalc
  | 0, c => .ok c
  | i + 1, c => do
    let width ← shiftOne (i + 1)
    addWhereNeeded i (if c.index % width = 0 then c.addINode (i + 1) else c)

def updateTree : Except StackDistFault StackDistCalc :=
  if isPowerOf2 c.index then do
    let c ← c.addRoot
    return addChain (c.treeDepth - 1) c
  else addWhereNeeded (c.treeDepth - 1) c

/-- The loop of `sanityCheckTree`. -/
def climb (c : StackDistCalc) : Nat → NodePtr → Except StackDistFault NodePtr
  | 0, nextUp => .ok nextUp
  | steps + 1, nextUp => do
    let node ← c.node nextUp
    match node.parent with
    | some parent => climb c steps parent
    | none => .error .panic

def sanityCheckTree (ptr : NodePtr) : Except StackDistFault Unit := do
  let node ← c.node ptr
  let nextUp ← parentOf node
  let top ← c.climb (c.treeDepth - 1) nextUp
  let root ← c.node top
  panicIf root.parent.isSome

def verifyStackDist (stack : List Addr) (rAddress : Addr) (updateStack : Bool) : Nat × List Addr :=
  match stack.findIdx? (· == rAddress) with
  | some stackDist =>
    (stackDist, if updateStack then rAddress :: stack.eraseIdx stackDist else stack)
  | none => (Infinity, if updateStack then rAddress :: stack else stack)

def removeOld (rAddress : Addr) (addNewNode : Bool) :
    Except StackDistFault ((Nat × Bool) × StackDistCalc) :=
  match c.aiMap rAddress with
  | some rIndex => do
    let c := { c with
      aiMap := update c.aiMap rAddress (if addNewNode then some c.index else none) }
    let (stackDist, c) ← c.updateSumsLeavesToRoot ⟨0, rIndex⟩ false
    let leaf ← c.node ⟨0, rIndex⟩
    return ((stackDist, leaf.isMarked), c.erase ⟨0, rIndex⟩)
  | none =>
    .ok ((Infinity, false), { c with
      aiMap := if addNewNode then update c.aiMap rAddress (some c.index) else c.aiMap })

def verifyUpdate (rAddress : Addr) (stackDist : Nat) : Except StackDistFault StackDistCalc :=
  if c.verifyStack then do
    c.sanityCheckTree ⟨0, c.index⟩
    let (verifyDist, stack) := verifyStackDist c.stack rAddress true
    panicIf (verifyDist != stackDist)
    return { c with stack := stack }
  else .ok c

/-- At odd values of the index the nodes above the leaf are there already. -/
def makeRoom : Except StackDistFault StackDistCalc :=
  if c.index % 2 = 0 then c.updateTree else .ok c

def newLeafNode : Node where
  nodeIndex := c.index
  isLeftNode := c.index % 2 == 0
  parent := c.find 1 (c.nextIndex 1 - 1)

def linkLeaf : StackDistCalc :=
  { c.write ⟨0, c.index⟩ c.newLeafNode with
    nextIndex := update c.nextIndex 0 (c.nextIndex 0 + 1) }

def addLeaf (rAddress : Addr) (stackDist : Nat) : Except StackDistFault StackDistCalc := do
  let c ← c.makeRoom
  let (_, c) ← c.linkLeaf.updateSumsLeavesToRoot ⟨0, c.index⟩ true
  let c ← c.verifyUpdate rAddress stackDist
  return { c with index := c.index + 1 }

def calcStackDistAndUpdate (rAddress : Addr) (addNewNode : Bool) :
    Except StackDistFault ((Nat × Bool) × StackDistCalc) := do
  let (answer, c) ← c.removeOld rAddress addNewNode
  if addNewNode then
    let c ← c.addLeaf rAddress answer.1
    return (answer, c)
  else return (answer, c)

def inspect (rAddress : Addr) (mark : Bool) :
    Except StackDistFault ((Nat × Bool) × StackDistCalc) :=
  match c.aiMap rAddress with
  | some rIndex => do
    let leaf ← c.node ⟨0, rIndex⟩
    let c := c.write ⟨0, rIndex⟩ { leaf with isMarked := mark }
    let stackDist ← c.getSumsLeavesToRoot ⟨0, rIndex⟩
    return ((stackDist, leaf.isMarked), c)
  | none => .ok ((Infinity, false), c)

def calcStackDist (rAddress : Addr) (mark : Bool) :
    Except StackDistFault ((Nat × Bool) × StackDistCalc) := do
  let (answer, c) ← c.inspect rAddress mark
  if c.verifyStack then
    panicIf ((verifyStackDist c.stack rAddress false).1 != answer.1)
  return (answer, c)

end StackDistCalc

/-- The calls of a client. -/
inductive StackDistCall where
  | calcStackDistAndUpdate (rAddress : Addr) (addNewNode : Bool)
  | calcStackDist (rAddress : Addr) (mark : Bool)
  deriving DecidableEq, Repr

def StackDistCalc.call (c : StackDistCalc) :
    StackDistCall → Except StackDistFault ((Nat × Bool) × StackDistCalc)
  | .calcStackDistAndUpdate rAddress addNewNode => c.calcStackDistAndUpdate rAddress addNewNode
  | .calcStackDist rAddress mark => c.calcStackDist rAddress mark

end BTBFerret
