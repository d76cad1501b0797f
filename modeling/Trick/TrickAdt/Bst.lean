/-
  `bst.c`: binary search trees with parent pointers.

  1. **Data.**  `BstNode` and `Bst` are the structures of the source; a pointer is an `Option Ptr`, NULL is
     `none`, and the nodes that are allocated are the `heap`.

  2. **Program.**  `bstFind`, `bstInsert`, `bstDelete` and the walk of `bstPrintAscending` and
     `bstTraverseTree`.  A load or a store through a pointer to nothing gives `none`; so does a loop that has
     not ended after `fuel` turns.

  The two kinds of deletion of a node with two children, RIGHTLEAF and LEFTLEAF, are each the other one's
  mirror image, and so are the two branches of the insertion: both are written once, for a `Side`.
-/
import Trick.Lib.TreeContext

namespace Trick.TrickAdt

open Trick.Lib

/-! ## Data -/

/-- An address. -/
abbrev Ptr := Nat

/-- `bstNode` -/
structure BstNode (ι : Type) where
  left : Option Ptr
  right : Option Ptr
  parent : Option Ptr
  info : ι

namespace BstNode

variable {ι : Type}

def child (n : BstNode ι) : Side → Option Ptr
  | .left => n.left
  | .right => n.right

def setChild (n : BstNode ι) (side : Side) (p : Option Ptr) : BstNode ι :=
  match side with
  | .left => { n with left := p }
  | .right => { n with right := p }

def setParent (n : BstNode ι) (p : Option Ptr) : BstNode ι := { n with parent := p }

end BstNode

/-- `BST`, with the nodes that are allocated. -/
structure Bst (ι : Type) where
  heap : Ptr → Option (BstNode ι)
  root : Option Ptr
  nodes : Int
  deltype : Int
  init : Bool

/-- What `bstDelete` returns. -/
inductive Deleted (ι : Type) where
  | null
  | node (p : Ptr)
  | info (x : ι)

namespace Bst

variable {ι : Type}

/-! ## Memory -/

/-- The node behind a pointer. -/
def load (s : Bst ι) (p : Option Ptr) : Option (BstNode ι) := p.bind s.heap

def setNode (s : Bst ι) (p : Ptr) (n : Option (BstNode ι)) : Bst ι :=
  { s with heap := Function.update s.heap p n }

/-- An assignment to fields of the node behind a pointer. -/
def store (s : Bst ι) (p : Option Ptr) (f : BstNode ι → BstNode ι) : Option (Bst ι) :=
  match p with
  | none => none
  | some a => (s.heap a).map fun n => s.setNode a (some (f n))

/-- `parentspointer` -/
inductive Link where
  | root
  | child (p : Ptr) (side : Side)

/-- `*parentspointer = p` -/
def setLink (s : Bst ι) (link : Link) (p : Option Ptr) : Option (Bst ι) :=
  match link with
  | .root => some { s with root := p }
  | .child a side => s.store (some a) (·.setChild side p)

/-! ## Program -/

/-- `bstInit` -/
def bstInit (s : Bst ι) : Bst ι := { s with root := none, nodes := 0, deltype := 0, init := true }

section
variable (compare : ι → ι → Int)

/-- The loop of `bstFind`. -/
def findLoop (s : Bst ι) (info : ι) : Nat → Option Ptr → Option (Option Ptr)
  | 0, _ => none
  | _ + 1, none => some none
  | fuel + 1, some current => do
    let n ← s.heap current
    let compval := compare n.info info
    if compval ≤ -1 then findLoop s info fuel n.right
    else if 1 ≤ compval then findLoop s info fuel n.left
    else some (some current)

/-- **`bstFind`** -/
def bstFind (fuel : Nat) (info : Option ι) (s : Bst ι) : Option (Bst ι × Option Ptr) :=
  match info with
  | none => some (s, none)
  | some info =>
    if s.init = false then some (s.bstInit, none)
    else (findLoop compare s info fuel s.root).map fun p => (s, p)

/-- The loop of `bstInsert`. -/
def insertLoop (s : Bst ι) (info : ι) (newNode : Ptr) : Nat → Option Ptr → Option (Bst ι)
  | 0, _ => none
  | fuel + 1, current => do
    let n ← s.load current
    -- "new node is greater than the current node"
    let side := if 0 ≤ compare info n.info then Side.right else Side.left
    if n.child side = none then do
      let s ← s.store current (·.setChild side (some newNode))
      s.store (some newNode) (·.setParent current)
    else insertLoop s info newNode fuel (n.child side)

/-- **`bstInsert`**, with what `malloc` returns. -/
def bstInsert (fuel : Nat) (info : Option ι) (malloc : Option Ptr) (s : Bst ι) : Option (Bst ι × Option Ptr) :=
  match info with
  | none => some (s, none)
  | some info =>
    let s : Bst ι := if s.init = false then s.bstInit else s
    match malloc with
    -- the malloc fail handler
    | none => some (s, none)
    | some newNode =>
      let fresh : BstNode ι := { left := none, right := none, parent := none, info := info }
      let s : Bst ι := { s.setNode newNode (some fresh) with nodes := s.nodes + 1 }
      if s.root = none then some ({ s with root := some newNode }, some newNode)
      else (insertLoop compare s info newNode fuel s.root).map fun s => (s, some newNode)

end

/-- "go as far left as possible", or as far right. -/
def farthest (s : Bst ι) (side : Side) : Nat → Option Ptr → Option (Option Ptr)
  | 0, _ => none
  | fuel + 1, current => do
    let n ← s.load current
    if n.child side = none then some current else farthest s side fuel (n.child side)

/-- `p->parent = parent`, if there is a `p`. -/
def adopt (s : Bst ι) (p parent : Option Ptr) : Option (Bst ι) :=
  if p = none then some s else s.store p (·.setParent parent)

/-- The node has two children: "get inner child" from one side. -/
def replaceByInner (side : Side) (fuel : Nat) (node : BstNode ι) (link : Link) (s : Bst ι) : Option (Bst ι) := do
  let child := node.child side
  let n ← s.load child
  if n.child side.other = none then do
    -- "inner child is found"
    let s ← s.setLink link child
    let s ← s.store child (·.setParent node.parent)
    let s ← s.store child (·.setChild side.other (node.child side.other))
    s.store (node.child side.other) (·.setParent child)
  else do
    let current ← s.farthest side.other fuel child
    let n ← s.load current
    let s ← s.store n.parent (·.setChild side.other (n.child side))
    let s ← s.adopt (n.child side) n.parent
    -- "replace the deleted node with inner child"
    let s ← s.setLink link current
    let s ← s.store current (·.setParent node.parent)
    let s ← s.store current (·.setChild side.other (node.child side.other))
    let s ← s.store current (·.setChild side (node.child side))
    let s ← s.store (node.child side.other) (·.setParent current)
    s.store (node.child side) (·.setParent current)

/-- The address of the pointer to a node. -/
def parentspointer (s : Bst ι) (p : Ptr) (node : BstNode ι) : Option Link :=
  match node.parent with
  | none => some .root
  | some q => (s.heap q).map fun n => .child q (if n.left = some p then .left else .right)

/-- The node is taken out of the tree. -/
def unlink (fuel : Nat) (p : Ptr) (node : BstNode ι) (s : Bst ι) : Option (Bst ι) := do
  let link ← s.parentspointer p node
  if node.left = none then do
    let s ← s.setLink link node.right
    s.adopt node.right node.parent
  else if node.right = none then do
    let s ← s.setLink link node.left
    s.adopt node.left node.parent
  else
    -- "toggle deltype between 1 and 0"
    let side := if s.deltype = 1 then Side.right else Side.left
    replaceByInner side fuel node link { s with deltype := 1 - s.deltype }

/-- **`bstDelete`** -/
def bstDelete (fuel : Nat) (node : Option Ptr) (s : Bst ι) : Option (Bst ι × Deleted ι) :=
  match node with
  | none => some (s, .null)
  | some p =>
    if s.init = false then some (s.bstInit, .node p)
    else do
      let n ← s.heap p
      let s ← unlink fuel p n { s with nodes := s.nodes - 1 }
      some (s.setNode p none, .info n.info)

/-- **`bstGetCount`** -/
def bstGetCount (s : Bst ι) : Bst ι × Int := if s.init = false then (s.bstInit, 0) else (s, s.nodes)

/-! ## The walk -/

/-- `st` -/
inductive WalkState where
  | climb
  | descend
  | up
  | visit

/-- The local variables of the walk, and what has been visited. -/
structure Walk (ι : Type) where
  current : Ptr
  st : WalkState
  done : Bool
  visited : List ι

/-- `case 1`: "go up to the parent of current node" -/
def walkClimb (s : Bst ι) (w : Walk ι) : Option (Walk ι) := do
  let n ← s.heap w.current
  let p ← n.parent
  let m ← s.heap p
  match m.parent with
  | none => some { w with current := p, done := true }
  | some q => do
    let k ← s.heap q
    some { w with current := p, st := if k.left = some p then .up else .climb }

/-- One turn of the loop of `case 2`: "traverse left until null is found" -/
def walkDescend (s : Bst ι) (w : Walk ι) : Option (Walk ι) := do
  let n ← s.heap w.current
  match n.left with
  | some q => some { w with current := q }
  | none => some { w with st := .visit }

/-- `case 3` -/
def walkUp (s : Bst ι) (w : Walk ι) : Option (Walk ι) := do
  let n ← s.heap w.current
  let p ← n.parent
  some { w with current := p, st := .visit }

/-- `case 4`: "print the current node, then figure out where to go" -/
def walkVisit (s : Bst ι) (w : Walk ι) : Option (Walk ι) := do
  let n ← s.heap w.current
  let w := { w with visited := w.visited ++ [n.info] }
  match n.right with
  | some q => some { w with current := q, st := .descend }
  | none =>
    match n.parent with
    | none => some { w with done := true }
    | some q => do
      let k ← s.heap q
      some { w with st := if k.left = some w.current then .up else .climb }

/-- **One turn.** -/
def walkStep (s : Bst ι) (w : Walk ι) : Option (Walk ι) :=
  match w.st with
  | .climb => walkClimb s w
  | .descend => walkDescend s w
  | .up => walkUp s w
  | .visit => walkVisit s w

/-- `while (!done)` -/
def walkLoop (s : Bst ι) : Nat → Walk ι → Option (List ι)
  | 0, _ => none
  | fuel + 1, w => if w.done then some w.visited else (walkStep s w).bind (walkLoop s fuel)

/-- The nodes that are visited, one after the other. -/
def walk (fuel : Nat) (s : Bst ι) : Option (Bst ι × List ι) :=
  if s.init = false then some (s.bstInit, [])
  else
    match s.root with
    | none => some (s, [])
    | some p => (walkLoop s fuel { current := p, st := .descend, done := false, visited := [] }).map fun l => (s, l)

/-- **`bstPrintAscending`**: what is given to `print_node`. -/
def bstPrintAscending (fuel : Nat) (s : Bst ι) : Option (Bst ι × List ι) := s.walk fuel

/-- **`bstTraverseTree`**: what is given to `traverse_node`. -/
def bstTraverseTree (fuel : Nat) (s : Bst ι) : Option (Bst ι × List ι) := s.walk fuel

end Bst

end Trick.TrickAdt
