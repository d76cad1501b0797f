/-
  Binary trees with a hole.

  A `Frame` is a node one of whose subtrees is missing, and a context is the list of the frames from the
  hole up to the root.  `plug` puts a tree into the hole.  In the order of the nodes from left to right a
  context is what stands `before` the hole and what stands `after` it.

  `join side x inner outer` is the node of `x` with `inner` on the one side and `outer` on the other, so that
  what is true of both sides is said once.

  Nothing here names a program.
-/
import Mathlib

namespace Trick.Lib

variable {α β : Type*}

inductive Side where
  | left
  | right
deriving DecidableEq

def Side.other : Side → Side
  | .left => .right
  | .right => .left

@[simp] theorem Side.other_other (side : Side) : side.other.other = side := by
  cases side <;> rfl

/-! ## Trees -/

/-- **The labels from left to right.** -/
def inorder : BinaryTree α → List α
  | .nil => []
  | .node x l r => inorder l ++ x :: inorder r

/-- The node of `x` with `inner` on one side. -/
def join (side : Side) (x : α) (inner outer : BinaryTree α) : BinaryTree α :=
  match side with
  | .left => .node x inner outer
  | .right => .node x outer inner

/-- What a node and its other subtree add on either side of one subtree. -/
def joinBefore (side : Side) (x : α) (outer : BinaryTree α) : List α :=
  match side with
  | .left => []
  | .right => inorder outer ++ [x]

def joinAfter (side : Side) (x : α) (outer : BinaryTree α) : List α :=
  match side with
  | .left => x :: inorder outer
  | .right => []

theorem inorder_join (side : Side) (x : α) (inner outer : BinaryTree α) :
    inorder (join side x inner outer) = joinBefore side x outer ++ inorder inner ++ joinAfter side x outer := by
  cases side with
  | left => rfl
  | right =>
    show inorder outer ++ x :: inorder inner = inorder outer ++ [x] ++ inorder inner ++ []
    rw [List.append_nil, List.append_assoc, List.singleton_append]

theorem node_eq_join (side : Side) (x : α) (l r : BinaryTree α) :
    ∃ inner outer, BinaryTree.node x l r = join side x inner outer := by
  cases side with
  | left => exact ⟨l, r, rfl⟩
  | right => exact ⟨r, l, rfl⟩

theorem length_inorder (t : BinaryTree α) : (inorder t).length = t.numNodes := by
  induction t with
  | nil => rfl
  | node x l r ihl ihr =>
    show (inorder l ++ x :: inorder r).length = l.numNodes + r.numNodes + 1
    rw [List.length_append, List.length_cons, ihl, ihr]
    omega

/-! ## Contexts -/

/-- **A node without one of its subtrees.** -/
structure Frame (α : Type*) where
  side : Side
  label : α
  sibling : BinaryTree α

/-- **The tree with `t` in the hole.** -/
def plug : List (Frame α) → BinaryTree α → BinaryTree α
  | [], t => t
  | f :: c, t => plug c (join f.side f.label t f.sibling)

def before : List (Frame α) → List α
  | [] => []
  | f :: c => before c ++ joinBefore f.side f.label f.sibling

def after : List (Frame α) → List α
  | [] => []
  | f :: c => joinAfter f.side f.label f.sibling ++ after c

/-- **The order of a tree with a hole.** -/
theorem inorder_plug (c : List (Frame α)) (t : BinaryTree α) :
    inorder (plug c t) = before c ++ inorder t ++ after c := by
  induction c generalizing t with
  | nil => exact (List.append_nil _).symm
  | cons f c ih =>
    show inorder (plug c _) = before c ++ joinBefore _ _ _ ++ inorder t ++ (joinAfter _ _ _ ++ after c)
    rw [ih, inorder_join]
    simp only [List.append_assoc]

theorem plug_append (c d : List (Frame α)) (t : BinaryTree α) : plug (c ++ d) t = plug d (plug c t) := by
  induction c generalizing t with
  | nil => rfl
  | cons f c ih => exact ih _

theorem before_append (c d : List (Frame α)) : before (c ++ d) = before d ++ before c := by
  induction c with
  | nil => exact (List.append_nil _).symm
  | cons f c ih =>
    show before (c ++ d) ++ _ = before d ++ (before c ++ _)
    rw [ih, List.append_assoc]

theorem after_append (c d : List (Frame α)) : after (c ++ d) = after c ++ after d := by
  induction c with
  | nil => rfl
  | cons f c ih =>
    show _ ++ after (c ++ d) = _ ++ after c ++ after d
    rw [ih, List.append_assoc]

/-- **Every node is somewhere.** -/
theorem exists_plug {t : BinaryTree α} {x : α} (h : x ∈ inorder t) :
    ∃ c l r, t = plug c (.node x l r) := by
  induction t with
  | nil => exact absurd h List.not_mem_nil
  | node y l r ihl ihr =>
    rcases List.mem_append.mp h with hl | hr
    · obtain ⟨c, l', r', rfl⟩ := ihl hl
      refine ⟨c ++ [⟨.left, y, r⟩], l', r', ?_⟩
      rw [plug_append]
      rfl
    · rcases List.mem_cons.mp hr with rfl | hr
      · exact ⟨[], l, r, rfl⟩
      · obtain ⟨c, l', r', rfl⟩ := ihr hr
        refine ⟨c ++ [⟨.right, y, l⟩], l', r', ?_⟩
        rw [plug_append]
        rfl

end Trick.Lib
