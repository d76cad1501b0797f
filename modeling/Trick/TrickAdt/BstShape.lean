/-
  The tree that is in memory.

  1. **Specification.**  `Holds` says that a tree of pointers and items lies in the heap, with the parent
     pointers that belong to it; `HoldsContext` says the same of a tree with a hole, and `holds_plug` puts the
     two together.  `Rep` is the whole structure: the root pointer, the count, and nothing else allocated.

  2. **Steps.**  What each assignment of the program does to a tree or a context (`adopt_holds`,
     `setLink_holds`), and what it leaves as it is (`Same`).

  3. **Main results**: `bstInsert` fills the slot it has found (`rep_insert`), and `bstDelete` leaves a tree of
     the same order without the node (`rep_delete`).  Both end if they have as much fuel as there are nodes.
-/
import Trick.TrickAdt.Bst

namespace Trick.TrickAdt

open Trick.Lib

variable {ι : Type}

/-- **A tree of pointers and items.** -/
abbrev Shape (ι : Type) := BinaryTree (Ptr × ι)

abbrev Context (ι : Type) := List (Frame (Ptr × ι))

/-- The pointer to a tree. -/
def top : Shape ι → Option Ptr
  | .nil => none
  | .node x _ _ => some x.1

@[simp] theorem top_nil : top (.nil : Shape ι) = none := rfl

def ptrs (t : Shape ι) : List Ptr := (inorder t).map Prod.fst

def contextPtrs (c : Context ι) : List Ptr := (before c ++ after c).map Prod.fst

/-- A node with one subtree on a side, and the other one on the other. -/
def nodeAt (side : Side) (inner outer parent : Option Ptr) (info : ι) : BstNode ι :=
  match side with
  | .left => { left := inner, right := outer, parent := parent, info := info }
  | .right => { left := outer, right := inner, parent := parent, info := info }

section
variable (side : Side) (inner outer parent : Option Ptr) (info : ι)

@[simp] theorem nodeAt_parent : (nodeAt side inner outer parent info).parent = parent := by
  cases side <;> rfl

@[simp] theorem nodeAt_info : (nodeAt side inner outer parent info).info = info := by
  cases side <;> rfl

@[simp] theorem nodeAt_child : (nodeAt side inner outer parent info).child side = inner := by
  cases side <;> rfl

@[simp] theorem nodeAt_child_other : (nodeAt side inner outer parent info).child side.other = outer := by
  cases side <;> rfl

@[simp] theorem nodeAt_setChild (p : Option Ptr) :
    (nodeAt side inner outer parent info).setChild side p = nodeAt side p outer parent info := by
  cases side <;> rfl

@[simp] theorem nodeAt_setChild_other (p : Option Ptr) :
    (nodeAt side inner outer parent info).setChild side.other p = nodeAt side inner p parent info := by
  cases side <;> rfl

@[simp] theorem nodeAt_setParent (p : Option Ptr) :
    (nodeAt side inner outer parent info).setParent p = nodeAt side inner outer p info := by
  cases side <;> rfl

theorem nodeAt_other : nodeAt side.other inner outer parent info = nodeAt side outer inner parent info := by
  cases side <;> rfl

end

/-- **The tree lies in the heap.** -/
def Holds (h : Ptr → Option (BstNode ι)) : Option Ptr → Shape ι → Prop
  | _, .nil => True
  | parent, .node x l r =>
    h x.1 = some (nodeAt .left (top l) (top r) parent x.2) ∧ Holds h (some x.1) l ∧ Holds h (some x.1) r

/-- The node above the hole. -/
def above (bottom : Option Ptr) : Context ι → Option Ptr
  | [] => bottom
  | f :: _ => some f.label.1

/-- **The context lies in the heap**, with `hole` for the pointer to what is in the hole, under a node
    `bottom`. -/
def HoldsContext (h : Ptr → Option (BstNode ι)) (bottom : Option Ptr) : Option Ptr → Context ι → Prop
  | _, [] => True
  | hole, f :: c =>
    h f.label.1 = some (nodeAt f.side hole (top f.sibling) (above bottom c) f.label.2) ∧
      Holds h (some f.label.1) f.sibling ∧ HoldsContext h bottom (some f.label.1) c

/-- **The tree that a `BST` is.** -/
structure Rep (s : Bst ι) (t : Shape ι) : Prop where
  init : s.init = true
  root : s.root = top t
  holds : Holds s.heap none t
  nodup : (ptrs t).Nodup
  only : ∀ p, s.heap p ≠ none → p ∈ ptrs t
  nodes : s.nodes = (inorder t).length

/-! ## Trees and contexts in the heap -/

section
variable {h h' : Ptr → Option (BstNode ι)} {parent bottom hole : Option Ptr} {t : Shape ι} {c : Context ι}

theorem holds_join {side : Side} {x : Ptr × ι} {inner outer : Shape ι} :
    Holds h parent (join side x inner outer) ↔
      h x.1 = some (nodeAt side (top inner) (top outer) parent x.2) ∧ Holds h (some x.1) inner ∧
        Holds h (some x.1) outer := by
  cases side with
  | left => exact Iff.rfl
  | right =>
    show _ ∧ _ ∧ _ ↔ _
    rw [and_comm (a := Holds h (some x.1) outer)]
    exact Iff.rfl

theorem top_join (side : Side) (x : Ptr × ι) (inner outer : Shape ι) : top (join side x inner outer) = some x.1 := by
  cases side <;> rfl

/-- **A tree with something in its hole.** -/
theorem holds_plug : Holds h bottom (plug c t) ↔ HoldsContext h bottom (top t) c ∧ Holds h (above bottom c) t := by
  induction c generalizing t with
  | nil => exact ⟨fun ht => ⟨trivial, ht⟩, And.right⟩
  | cons f c ih =>
    show Holds h bottom (plug c _) ↔ (_ ∧ _ ∧ _) ∧ _
    rw [ih, holds_join, top_join]
    constructor
    · rintro ⟨hc, hf, ht, hs⟩
      exact ⟨⟨hf, hs, hc⟩, ht⟩
    · rintro ⟨⟨hf, hs, hc⟩, ht⟩
      exact ⟨hc, hf, ht, hs⟩

theorem ptrs_node (x : Ptr × ι) (l r : Shape ι) : ptrs (.node x l r) = ptrs l ++ x.1 :: ptrs r := by
  show (inorder l ++ x :: inorder r).map Prod.fst = _
  rw [List.map_append, List.map_cons]
  rfl

theorem mem_ptrs_join {side : Side} {x : Ptr × ι} {inner outer : Shape ι} {p : Ptr} :
    p ∈ ptrs (join side x inner outer) ↔ p = x.1 ∨ p ∈ ptrs inner ∨ p ∈ ptrs outer := by
  cases side with
  | left =>
    show p ∈ ptrs (.node x inner outer) ↔ _
    rw [ptrs_node, List.mem_append, List.mem_cons, or_left_comm]
  | right =>
    show p ∈ ptrs (.node x outer inner) ↔ _
    rw [ptrs_node, List.mem_append, List.mem_cons, or_left_comm, or_comm (a := p ∈ ptrs outer)]

theorem contextPtrs_cons (f : Frame (Ptr × ι)) (c : Context ι) :
    (contextPtrs (f :: c)).Perm (f.label.1 :: (ptrs f.sibling ++ contextPtrs c)) := by
  have hperm : (before (f :: c) ++ after (f :: c)).Perm (f.label :: (inorder f.sibling ++ (before c ++ after c))) := by
    show (before c ++ joinBefore f.side f.label f.sibling ++ (joinAfter f.side f.label f.sibling ++ after c)).Perm _
    cases f.side with
    | left =>
      show (before c ++ [] ++ f.label :: (inorder f.sibling ++ after c)).Perm _
      rw [List.append_nil]
      exact List.perm_middle.trans ((List.perm_append_comm_assoc _ _ _).cons _)
    | right =>
      show (before c ++ (inorder f.sibling ++ [f.label]) ++ ([] ++ after c)).Perm _
      rw [List.nil_append, ← List.append_assoc, List.append_assoc _ [f.label]]
      refine List.perm_middle.trans (List.Perm.cons _ ?_)
      rw [List.append_assoc]
      exact List.perm_append_comm_assoc _ _ _
  unfold contextPtrs ptrs
  rw [← List.map_append]
  exact hperm.map Prod.fst

theorem mem_contextPtrs_cons {f : Frame (Ptr × ι)} {p : Ptr} :
    p ∈ contextPtrs (f :: c) ↔ p = f.label.1 ∨ p ∈ ptrs f.sibling ∨ p ∈ contextPtrs c := by
  rw [(contextPtrs_cons f c).mem_iff, List.mem_cons, List.mem_append]

/-- Nothing but its own nodes matters. -/
theorem Holds.congr (ht : Holds h parent t) (hsame : ∀ p ∈ ptrs t, h' p = h p) : Holds h' parent t := by
  induction t generalizing parent with
  | nil => trivial
  | node x l r ihl ihr =>
    obtain ⟨hx, hl, hr⟩ := ht
    rw [ptrs_node] at hsame
    refine ⟨?_, ihl hl ?_, ihr hr ?_⟩
    · rw [hsame x.1 (List.mem_append_right _ List.mem_cons_self)]
      exact hx
    · exact fun p hp => hsame p (List.mem_append_left _ hp)
    · exact fun p hp => hsame p (List.mem_append_right _ (List.mem_cons_of_mem _ hp))

theorem HoldsContext.congr (hc : HoldsContext h bottom hole c) (hsame : ∀ p ∈ contextPtrs c, h' p = h p) :
    HoldsContext h' bottom hole c := by
  induction c generalizing hole with
  | nil => trivial
  | cons f c ih =>
    obtain ⟨hf, hs, hc⟩ := hc
    refine ⟨?_, hs.congr ?_, ih hc ?_⟩
    · rw [hsame f.label.1 (mem_contextPtrs_cons.mpr (Or.inl rfl))]
      exact hf
    · exact fun p hp => hsame p (mem_contextPtrs_cons.mpr (Or.inr (Or.inl hp)))
    · exact fun p hp => hsame p (mem_contextPtrs_cons.mpr (Or.inr (Or.inr hp)))

end

/-! ## Different nodes -/

section
variable {t : Shape ι} {c : Context ι}

theorem ptrs_plug (c : Context ι) (t : Shape ι) : (ptrs (plug c t)).Perm (contextPtrs c ++ ptrs t) := by
  have hperm : (inorder (plug c t)).Perm ((before c ++ after c) ++ inorder t) := by
    rw [inorder_plug, List.append_assoc, List.append_assoc]
    exact List.perm_append_comm.append_left _
  unfold contextPtrs ptrs
  rw [← List.map_append]
  exact hperm.map Prod.fst

theorem mem_ptrs_plug {p : Ptr} : p ∈ ptrs (plug c t) ↔ p ∈ contextPtrs c ∨ p ∈ ptrs t := by
  rw [(ptrs_plug c t).mem_iff, List.mem_append]

theorem nodup_plug : (ptrs (plug c t)).Nodup ↔
    (contextPtrs c).Nodup ∧ (ptrs t).Nodup ∧ ∀ p ∈ contextPtrs c, p ∉ ptrs t := by
  rw [(ptrs_plug c t).nodup_iff, List.nodup_append]
  exact and_congr_right fun _ => and_congr_right fun _ =>
    ⟨fun h p hp hp' => h p hp p hp' rfl, fun h p hp q hq hpq => h p hp (hpq ▸ hq)⟩

theorem nodup_join {side : Side} {x : Ptr × ι} {inner outer : Shape ι} :
    (ptrs (join side x inner outer)).Nodup ↔
      x.1 ∉ ptrs inner ∧ x.1 ∉ ptrs outer ∧ (ptrs inner).Nodup ∧ (ptrs outer).Nodup ∧
        ∀ p ∈ ptrs inner, p ∉ ptrs outer := by
  have hperm : (ptrs (join side x inner outer)).Perm (x.1 :: (ptrs inner ++ ptrs outer)) := by
    cases side with
    | left =>
      show (ptrs (.node x inner outer)).Perm _
      rw [ptrs_node]
      exact List.perm_middle
    | right =>
      show (ptrs (.node x outer inner)).Perm _
      rw [ptrs_node]
      exact List.perm_middle.trans (List.perm_append_comm.cons _)
  rw [hperm.nodup_iff, List.nodup_cons, List.mem_append, List.nodup_append, not_or]
  constructor
  · rintro ⟨⟨hi, ho⟩, hinner, houter, hne⟩
    exact ⟨hi, ho, hinner, houter, fun p hp hp' => hne p hp p hp' rfl⟩
  · rintro ⟨hi, ho, hinner, houter, hne⟩
    exact ⟨⟨hi, ho⟩, hinner, houter, fun p hp q hq hpq => hne p hp (hpq ▸ hq)⟩

theorem nodup_context_cons {f : Frame (Ptr × ι)} : (contextPtrs (f :: c)).Nodup ↔
    f.label.1 ∉ ptrs f.sibling ∧ f.label.1 ∉ contextPtrs c ∧ (ptrs f.sibling).Nodup ∧ (contextPtrs c).Nodup ∧
      ∀ p ∈ ptrs f.sibling, p ∉ contextPtrs c := by
  rw [(contextPtrs_cons f c).nodup_iff, List.nodup_cons, List.mem_append, List.nodup_append, not_or]
  constructor
  · rintro ⟨⟨hi, ho⟩, hinner, houter, hne⟩
    exact ⟨hi, ho, hinner, houter, fun p hp hp' => hne p hp p hp' rfl⟩
  · rintro ⟨hi, ho, hinner, houter, hne⟩
    exact ⟨⟨hi, ho⟩, hinner, houter, fun p hp q hq hpq => hne p hp (hpq ▸ hq)⟩

theorem mem_ptrs_of_top {p : Ptr} (h : top t = some p) : p ∈ ptrs t := by
  cases t with
  | nil => exact absurd h (Option.some_ne_none p).symm
  | node x l r =>
    obtain rfl : x.1 = p := Option.some.inj h
    rw [ptrs_node]
    exact List.mem_append_right _ List.mem_cons_self

theorem top_eq_none : top t = none ↔ t = .nil := by
  cases t with
  | nil => exact ⟨fun _ => rfl, fun _ => rfl⟩
  | node x l r => exact ⟨fun h => absurd h (Option.some_ne_none _), fun h => nomatch h⟩

/-- The root of a tree does not depend on what is in a hole below it. -/
theorem top_plug (hc : c ≠ []) (t t' : Shape ι) : top (plug c t) = top (plug c t') := by
  induction c generalizing t t' with
  | nil => exact absurd rfl hc
  | cons f c ih =>
    show top (plug c (join _ _ t _)) = top (plug c (join _ _ t' _))
    cases c with
    | nil =>
      show top (join _ _ t _) = top (join _ _ t' _)
      rw [top_join, top_join]
    | cons g c => exact ih (List.cons_ne_nil g c) _ _

end

/-! ## Assignments -/

/-- **What is left as it is**: everything but some nodes and the root pointer. -/
structure Same (s s' : Bst ι) (written : List Ptr) : Prop where
  heap : ∀ p ∉ written, s'.heap p = s.heap p
  domain : ∀ p, s'.heap p ≠ none → s.heap p ≠ none
  nodes : s'.nodes = s.nodes
  deltype : s'.deltype = s.deltype
  init : s'.init = s.init

theorem Same.refl (s : Bst ι) (written : List Ptr) : Same s s written :=
  ⟨fun _ _ => rfl, fun _ h => h, rfl, rfl, rfl⟩

theorem Same.trans {s s' s'' : Bst ι} {w w' : List Ptr} (h : Same s s' w) (h' : Same s' s'' w') :
    Same s s'' (w ++ w') where
  heap := by
    intro p hp
    rw [List.mem_append, not_or] at hp
    rw [h'.heap p hp.2, h.heap p hp.1]
  domain := fun p hp => h.domain p (h'.domain p hp)
  nodes := h'.nodes.trans h.nodes
  deltype := h'.deltype.trans h.deltype
  init := h'.init.trans h.init

section
variable {s s' : Bst ι} {written : List Ptr} {parent bottom hole : Option Ptr} {t : Shape ι} {c : Context ι}

theorem Same.holds (h : Same s s' written) (ht : Holds s.heap parent t) (hne : ∀ p ∈ written, p ∉ ptrs t) :
    Holds s'.heap parent t :=
  ht.congr fun p hp => h.heap p fun hw => hne p hw hp

theorem Same.holdsContext (h : Same s s' written) (hc : HoldsContext s.heap bottom hole c)
    (hne : ∀ p ∈ written, p ∉ contextPtrs c) : HoldsContext s'.heap bottom hole c :=
  hc.congr fun p hp => h.heap p fun hw => hne p hw hp

/-- **An assignment to a field of a node.** -/
theorem store_node {p : Ptr} {n : BstNode ι} (h : s.heap p = some n) (f : BstNode ι → BstNode ι) :
    ∃ s', s.store (some p) f = some s' ∧ s'.heap p = some (f n) ∧ Same s s' [p] ∧ s'.root = s.root := by
  refine ⟨s.setNode p (some (f n)), ?_, Function.update_self .., ⟨?_, ?_, rfl, rfl, rfl⟩, rfl⟩
  · show (s.heap p).map _ = _
    rw [h]
    rfl
  · intro q hq
    exact Function.update_of_ne (fun hqp => hq (List.mem_singleton.mpr hqp)) _ _
  · intro q hq
    by_cases hqp : q = p
    · rw [hqp, h]
      exact Option.some_ne_none n
    · rw [← Function.update_of_ne hqp (some (f n)) s.heap]
      exact hq

/-- **A tree gets another parent.** -/
theorem store_parent {x : Ptr × ι} {l r : Shape ι} (h : Holds s.heap parent (.node x l r))
    (hnodup : (ptrs (.node x l r)).Nodup) (q : Option Ptr) :
    ∃ s', s.store (some x.1) (·.setParent q) = some s' ∧ Holds s'.heap q (.node x l r) ∧
      Same s s' [x.1] ∧ s'.root = s.root := by
  obtain ⟨hx, hl, hr⟩ := h
  obtain ⟨hxl, hxr, -, -, -⟩ := nodup_join.mp (show (ptrs (join .left x l r)).Nodup from hnodup)
  obtain ⟨s', hstore, hnode, hsame, hroot⟩ := store_node hx (·.setParent q)
  refine ⟨s', hstore, ⟨?_, hsame.holds hl ?_, hsame.holds hr ?_⟩, hsame, hroot⟩
  · rw [hnode, nodeAt_setParent]
  · intro p hp
    rw [List.mem_singleton.mp hp]
    exact hxl
  · intro p hp
    rw [List.mem_singleton.mp hp]
    exact hxr

theorem adopt_holds (h : Holds s.heap parent t) (hnodup : (ptrs t).Nodup) (q : Option Ptr) :
    ∃ s', s.adopt (top t) q = some s' ∧ Holds s'.heap q t ∧ Same s s' (ptrs t) ∧ s'.root = s.root := by
  cases t with
  | nil => exact ⟨s, rfl, trivial, Same.refl s _, rfl⟩
  | node x l r =>
    obtain ⟨s', hstore, hholds, hsame, hroot⟩ := store_parent h hnodup q
    refine ⟨s', ?_, hholds, ?_, hroot⟩
    · unfold Bst.adopt
      rw [if_neg (show ¬ top (.node x l r) = none from Option.some_ne_none _)]
      exact hstore
    · refine ⟨?_, hsame.domain, hsame.nodes, hsame.deltype, hsame.init⟩
      intro p hp
      rw [ptrs_node] at hp
      apply hsame.heap
      intro hmem
      rw [List.mem_singleton.mp hmem] at hp
      exact hp (List.mem_append_right _ List.mem_cons_self)

/-- The pointer to what is in the hole. -/
def linkOf : Context ι → Bst.Link
  | [] => .root
  | f :: _ => .child f.label.1 f.side

/-- An assignment to the pointer in the frame of the hole. -/
theorem store_child {f : Frame (Ptr × ι)} (h : HoldsContext s.heap bottom hole (f :: c))
    (hnodup : (contextPtrs (f :: c)).Nodup) (p : Option Ptr) :
    ∃ s', s.store (some f.label.1) (·.setChild f.side p) = some s' ∧
      HoldsContext s'.heap bottom p (f :: c) ∧ Same s s' (contextPtrs (f :: c)) ∧ s'.root = s.root := by
  obtain ⟨hf, hs, hc⟩ := h
  obtain ⟨hfs, hfc, -, -, -⟩ := nodup_context_cons.mp hnodup
  obtain ⟨s', hstore, hnode, hsame, hroot⟩ := store_node hf (·.setChild f.side p)
  refine ⟨s', hstore, ⟨?_, hsame.holds hs ?_, hsame.holdsContext hc ?_⟩, ?_, hroot⟩
  · rw [hnode, nodeAt_setChild]
  · intro q hq
    rw [List.mem_singleton.mp hq]
    exact hfs
  · intro q hq
    rw [List.mem_singleton.mp hq]
    exact hfc
  · refine ⟨?_, hsame.domain, hsame.nodes, hsame.deltype, hsame.init⟩
    intro q hq
    apply hsame.heap
    intro hmem
    rw [List.mem_singleton.mp hmem] at hq
    exact hq (mem_contextPtrs_cons.mpr (Or.inl rfl))

/-- **Something else is put into the hole.** -/
theorem setLink_holds {t : Shape ι} (t' : Shape ι) (h : HoldsContext s.heap none hole c) (hnodup : (contextPtrs c).Nodup)
    (hroot : s.root = top (plug c t)) :
    ∃ s', s.setLink (linkOf c) (top t') = some s' ∧ HoldsContext s'.heap none (top t') c ∧
      Same s s' (contextPtrs c) ∧ s'.root = top (plug c t') := by
  cases c with
  | nil => exact ⟨{ s with root := top t' }, rfl, trivial, ⟨fun _ _ => rfl, fun _ h => h, rfl, rfl, rfl⟩, rfl⟩
  | cons f c =>
    obtain ⟨s', hstore, hholds, hsame, hroot'⟩ := store_child h hnodup (top t')
    refine ⟨s', hstore, hholds, hsame, ?_⟩
    rw [hroot', hroot]
    exact top_plug (List.cons_ne_nil f c) t t'

end

/-! ## Insertion -/

/-- **The place that is found** by going to the side that `choose` says. -/
def slot (choose : Ptr × ι → Side) : Shape ι → Context ι
  | .nil => []
  | .node x l r =>
    if choose x = .left then slot choose l ++ [⟨.left, x, r⟩] else slot choose r ++ [⟨.right, x, l⟩]

theorem plug_slot (choose : Ptr × ι → Side) (t : Shape ι) : plug (slot choose t) .nil = t := by
  induction t with
  | nil => rfl
  | node x l r ihl ihr =>
    unfold slot
    split
    · rw [plug_append, ihl]
      rfl
    · rw [plug_append, ihr]
      rfl

/-- Where `bstInsert` goes at a node. -/
def insertSide (compare : ι → ι → Int) (info : ι) (x : Ptr × ι) : Side :=
  if 0 ≤ compare info x.2 then .right else .left

/-- **The loop finds the slot.** -/
theorem insertLoop_eq (compare : ι → ι → Int) (info : ι) (newNode : Ptr) {s : Bst ι} {parent : Option Ptr}
    {x : Ptr × ι} {l r : Shape ι} (h : Holds s.heap parent (.node x l r)) {fuel : Nat}
    (hfuel : (BinaryTree.node x l r).numNodes ≤ fuel) :
    ∃ f c, slot (insertSide compare info) (.node x l r) = f :: c ∧
      s.insertLoop compare info newNode fuel (some x.1) =
        (s.store (some f.label.1) (·.setChild f.side (some newNode))).bind
          fun s' => s'.store (some newNode) (·.setParent (some f.label.1)) := by
  induction hn : (BinaryTree.node x l r).numNodes using Nat.strong_induction_on generalizing parent x l r fuel with
  | _ n ih =>
    subst hn
    obtain ⟨hx, hl, hr⟩ := h
    have hnum : (BinaryTree.node x l r).numNodes = l.numNodes + r.numNodes + 1 := rfl
    obtain ⟨fuel, rfl⟩ : ∃ k, fuel = k + 1 := ⟨fuel - 1, by omega⟩
    have hturn : s.insertLoop compare info newNode (fuel + 1) (some x.1) =
        if (nodeAt .left (top l) (top r) parent x.2).child (insertSide compare info x) = none then
          (s.store (some x.1) (·.setChild (insertSide compare info x) (some newNode))).bind
            fun s' => s'.store (some newNode) (·.setParent (some x.1))
        else s.insertLoop compare info newNode fuel
          ((nodeAt .left (top l) (top r) parent x.2).child (insertSide compare info x)) := by
      show (s.heap x.1).bind _ = _
      rw [hx]
      rfl
    rw [hturn]
    unfold slot
    cases hside : insertSide compare info x with
    | left =>
      rw [if_pos rfl]
      show ∃ f c, _ ∧ (if top l = none then _ else s.insertLoop compare info newNode fuel (top l)) = _
      cases l with
      | nil => exact ⟨⟨.left, x, r⟩, [], rfl, if_pos rfl⟩
      | node y l' r' =>
        obtain ⟨f, c, hslot, hloop⟩ := ih _ (by omega) hl (show _ ≤ fuel by omega) rfl
        refine ⟨f, c ++ [⟨.left, x, r⟩], ?_, ?_⟩
        · rw [hslot]
          rfl
        · rw [if_neg (show ¬ top (.node y l' r') = none from Option.some_ne_none _)]
          exact hloop
    | right =>
      rw [if_neg (show ¬ Side.right = Side.left from Side.noConfusion)]
      show ∃ f c, _ ∧ (if top r = none then _ else s.insertLoop compare info newNode fuel (top r)) = _
      cases r with
      | nil => exact ⟨⟨.right, x, l⟩, [], rfl, if_pos rfl⟩
      | node y l' r' =>
        obtain ⟨f, c, hslot, hloop⟩ := ih _ (by omega) hr (show _ ≤ fuel by omega) rfl
        refine ⟨f, c ++ [⟨.right, x, l⟩], ?_, ?_⟩
        · rw [hslot]
          rfl
        · rw [if_neg (show ¬ top (.node y l' r') = none from Option.some_ne_none _)]
          exact hloop

/-- What lies in the heap is allocated. -/
theorem Holds.ne_none {h : Ptr → Option (BstNode ι)} {parent : Option Ptr} {t : Shape ι} (ht : Holds h parent t)
    {p : Ptr} (hp : p ∈ ptrs t) : h p ≠ none := by
  induction t generalizing parent with
  | nil => exact absurd hp List.not_mem_nil
  | node x l r ihl ihr =>
    obtain ⟨hx, hl, hr⟩ := ht
    rw [ptrs_node, List.mem_append, List.mem_cons] at hp
    rcases hp with hp | rfl | hp
    · exact ihl hl hp
    · rw [hx]
      exact Option.some_ne_none _
    · exact ihr hr hp

/-- **An insertion puts the new node into the slot.** -/
theorem rep_insert (compare : ι → ι → Int) {s : Bst ι} {t : Shape ι} (h : Rep s t) (info : ι) {newNode : Ptr}
    (hfresh : s.heap newNode = none) {fuel : Nat} (hfuel : t.numNodes ≤ fuel) :
    ∃ s', s.bstInsert compare fuel (some info) (some newNode) = some (s', some newNode) ∧
      Rep s' (plug (slot (insertSide compare info) t) (.node (newNode, info) .nil .nil)) := by
  have hnew : newNode ∉ ptrs t := fun hmem => h.holds.ne_none hmem hfresh
  -- the new node
  let fresh : BstNode ι := { left := none, right := none, parent := none, info := info }
  let s₁ : Bst ι := { s.setNode newNode (some fresh) with nodes := s.nodes + 1 }
  have hold : ∀ p, p ≠ newNode → s₁.heap p = s.heap p := fun p hp => Function.update_of_ne hp _ _
  have hat : s₁.heap newNode = some fresh := Function.update_self ..
  have hcall : s.bstInsert compare fuel (some info) (some newNode) =
      if s.root = none then some ({ s₁ with root := some newNode }, some newNode)
      else (s₁.insertLoop compare info newNode fuel s.root).map fun s' => (s', some newNode) := by
    unfold Bst.bstInsert
    simp only [h.init, Bool.true_eq_false, if_false]
    rfl
  have honly : ∀ p, s₁.heap p ≠ none → p = newNode ∨ p ∈ ptrs t := by
    intro p hp
    by_cases hpn : p = newNode
    · exact Or.inl hpn
    · rw [hold p hpn] at hp
      exact Or.inr (h.only p hp)
  cases t with
  | nil =>
    have hroot : s.root = none := h.root
    rw [hcall, if_pos hroot]
    refine ⟨_, rfl, h.init, rfl, ⟨hat, trivial, trivial⟩, List.nodup_singleton _, ?_, ?_⟩
    · intro p hp
      rcases honly p hp with rfl | hmem
      · exact List.mem_singleton_self _
      · exact absurd hmem List.not_mem_nil
    · show s.nodes + 1 = _
      rw [h.nodes]
      rfl
  | node x l r =>
    have hroot : s.root = some x.1 := h.root
    have htree : Holds s₁.heap none (.node x l r) := h.holds.congr fun p hp => hold p fun hpn => hnew (hpn ▸ hp)
    obtain ⟨f, c, hslot, hloop⟩ := insertLoop_eq compare info newNode htree hfuel
    have hplug : plug (f :: c) .nil = .node x l r := by rw [← hslot, plug_slot]
    have hnodup := h.nodup
    rw [← hplug, nodup_plug] at hnodup
    rw [← hplug, mem_ptrs_plug, not_or] at hnew
    rw [← hplug, holds_plug] at htree
    -- the pointer of the frame, and the parent of the new node
    obtain ⟨s₂, hs₂, hctx₂, hsame₂, hroot₂⟩ := store_child htree.1 hnodup.1 (some newNode)
    have hat₂ : s₂.heap newNode = some fresh := (hsame₂.heap newNode hnew.1).trans hat
    obtain ⟨s₃, hs₃, hat₃, hsame₃, hroot₃⟩ := store_node hat₂ (·.setParent (some f.label.1))
    have hctx₃ := hsame₃.holdsContext hctx₂ fun p hp => by
      rw [List.mem_singleton.mp hp]
      exact hnew.1
    rw [hcall, if_neg (by rw [hroot]; exact Option.some_ne_none _), hroot, hloop, hs₂, Option.bind_some, hs₃, hslot]
    refine ⟨s₃, rfl, ?_, ?_, ?_, ?_, ?_, ?_⟩
    · rw [hsame₃.init, hsame₂.init]
      exact h.init
    · rw [hroot₃, hroot₂]
      show s.root = _
      rw [h.root, ← hplug]
      exact top_plug (List.cons_ne_nil f c) _ _
    · exact holds_plug.mpr ⟨hctx₃, hat₃, trivial, trivial⟩
    · refine nodup_plug.mpr ⟨hnodup.1, List.nodup_singleton _, ?_⟩
      intro p hp hpn
      obtain rfl : p = newNode := List.mem_singleton.mp hpn
      exact hnew.1 hp
    · intro p hp
      rw [mem_ptrs_plug]
      rcases honly p (hsame₂.domain p (hsame₃.domain p hp)) with rfl | hmem
      · exact Or.inr (List.mem_singleton_self _)
      · rw [← hplug, mem_ptrs_plug] at hmem
        exact Or.inl (hmem.resolve_right List.not_mem_nil)
    · rw [hsame₃.nodes, hsame₂.nodes]
      show s.nodes + 1 = _
      rw [h.nodes, ← hplug, inorder_plug, inorder_plug]
      simp only [List.length_append, inorder, List.length_cons, List.length_nil]
      omega

/-! ## Deletion -/

theorem load_some (s : Bst ι) (p : Ptr) : s.load (some p) = s.heap p := rfl

/-- **The farthest node on one side** has nothing there. -/
theorem farthest_eq (side : Side) {s : Bst ι} {parent : Option Ptr} {x : Ptr × ι} {inner outer : Shape ι}
    (h : Holds s.heap parent (join side x inner outer)) {fuel : Nat} (hfuel : inner.numNodes < fuel) :
    ∃ d y rest, join side x inner outer = plug d (join side y .nil rest) ∧ (∀ f ∈ d, f.side = side) ∧
      s.farthest side fuel (some x.1) = some (some y.1) := by
  induction hn : inner.numNodes using Nat.strong_induction_on generalizing parent x inner outer fuel with
  | _ n ih =>
    subst hn
    obtain ⟨hx, hi, -⟩ := holds_join.mp h
    obtain ⟨fuel, rfl⟩ : ∃ k, fuel = k + 1 := ⟨fuel - 1, by omega⟩
    have hturn : s.farthest side (fuel + 1) (some x.1) =
        if top inner = none then some (some x.1) else s.farthest side fuel (top inner) := by
      show (s.heap x.1).bind _ = _
      rw [hx, Option.bind_some, nodeAt_child]
    rw [hturn]
    cases inner with
    | nil => exact ⟨[], x, outer, rfl, fun f hf => absurd hf List.not_mem_nil, if_pos rfl⟩
    | node z l r =>
      obtain ⟨i, o, hz⟩ := node_eq_join side z l r
      have hlt : i.numNodes < (BinaryTree.node z l r).numNodes := by
        have hnum : (BinaryTree.node z l r).numNodes = l.numNodes + r.numNodes + 1 := rfl
        cases side with
        | left =>
          injection hz with _ hl _
          subst hl
          omega
        | right =>
          injection hz with _ _ hr
          subst hr
          omega
      rw [hz] at hi
      obtain ⟨d, y, rest, hd, hsides, hfar⟩ := ih i.numNodes hlt hi (show i.numNodes < fuel by omega) rfl
      refine ⟨d ++ [⟨side, x, outer⟩], y, rest, ?_, ?_, ?_⟩
      · rw [plug_append, ← hd, ← hz]
        rfl
      · intro f hf
        rcases List.mem_append.mp hf with hf | hf
        · exact hsides f hf
        · rw [List.mem_singleton.mp hf]
      · rw [if_neg (show ¬ top (.node z l r) = none from Option.some_ne_none _)]
        exact hfar

/-- A tree that is there gets another parent. -/
theorem store_top_parent {s : Bst ι} {parent : Option Ptr} {t : Shape ι} (h : Holds s.heap parent t) (hne : t ≠ .nil)
    (hnodup : (ptrs t).Nodup) (q : Option Ptr) :
    ∃ s', s.store (top t) (·.setParent q) = some s' ∧ Holds s'.heap q t ∧ Same s s' (ptrs t) ∧ s'.root = s.root := by
  obtain ⟨s', hadopt, hrest⟩ := adopt_holds h hnodup q
  refine ⟨s', ?_, hrest⟩
  unfold Bst.adopt at hadopt
  rw [if_neg (mt top_eq_none.mp hne)] at hadopt
  exact hadopt

/-- A node below the child takes the place of the node. -/
theorem replaceByInner_deep (side : Side) {s : Bst ι} {p : Ptr} {info : ι} {y z : Ptr × ι} {c d : Context ι}
    {f : Frame (Ptr × ι)} {t₀ i o oth outer : Shape ι} {fuel : Nat} (hctx : HoldsContext s.heap none (some p) c)
    (hsub : Holds s.heap (some p) (join side.other z i o)) (hoth : Holds s.heap (some p) oth) (hinner : i ≠ .nil)
    (hne' : oth ≠ .nil) (hnc : (contextPtrs c).Nodup) (hns : (ptrs (join side.other z i o)).Nodup)
    (hno : (ptrs oth).Nodup) (hcs : ∀ q ∈ contextPtrs c, q ∉ ptrs (join side.other z i o))
    (hco : ∀ q ∈ contextPtrs c, q ∉ ptrs oth) (hso : ∀ q ∈ ptrs (join side.other z i o), q ∉ ptrs oth)
    (hroot : s.root = top (plug c t₀))
    (hd : join side.other z i o = plug (f :: d) (join side.other y .nil outer)) (hside : f.side = side.other)
    (hfar : s.farthest side.other fuel (some z.1) = some (some y.1)) :
    ∃ s' w, Bst.replaceByInner side fuel (nodeAt side (some z.1) (top oth) (above none c) info) (linkOf c) s = some s' ∧
      HoldsContext s'.heap none (some y.1) c ∧
      Holds s'.heap (above none c) (join side y (plug (f :: d) outer) oth) ∧
      s'.root = top (plug c (join side y (plug (f :: d) outer) oth)) ∧ Same s s' w := by
  have hnodeZ := (holds_join.mp hsub).1
  rw [nodeAt_other] at hnodeZ
  have hrestTop : top (plug (f :: d) outer) = some z.1 := by
    rw [top_plug (List.cons_ne_nil f d) outer (join side.other y .nil outer), ← hd, top_join]
  -- where everything is, and that it is apart
  rw [hd, holds_plug, holds_join, top_join] at hsub
  obtain ⟨hD, hnodeY, -, hO⟩ := hsub
  rw [nodeAt_other, show above (some p) (f :: d) = some f.label.1 from rfl] at hnodeY
  rw [hd] at hns hcs hso
  obtain ⟨hnD, hnY, hDY⟩ := nodup_plug.mp hns
  obtain ⟨-, hyO, -, hnO, -⟩ := nodup_join.mp hnY
  have hDO : ∀ q ∈ contextPtrs (f :: d), q ∉ ptrs outer := fun q hq hmem =>
    hDY q hq (mem_ptrs_join.mpr (Or.inr (Or.inr hmem)))
  have hyD : y.1 ∉ contextPtrs (f :: d) := fun hq => hDY y.1 hq (mem_ptrs_join.mpr (Or.inl rfl))
  have hyS : y.1 ∈ ptrs (plug (f :: d) (join side.other y .nil outer)) :=
    mem_ptrs_plug.mpr (Or.inr (mem_ptrs_join.mpr (Or.inl rfl)))
  have hyC : y.1 ∉ contextPtrs c := fun hq => hcs y.1 hq hyS
  have hyT : y.1 ∉ ptrs oth := hso y.1 hyS
  have hyR : y.1 ∉ ptrs (plug (f :: d) outer) := fun hq => (mem_ptrs_plug.mp hq).elim hyD hyO
  have hRS : ∀ q ∈ ptrs (plug (f :: d) outer), q ∈ ptrs (plug (f :: d) (join side.other y .nil outer)) := by
    intro q hq
    rcases mem_ptrs_plug.mp hq with hq | hq
    · exact mem_ptrs_plug.mpr (Or.inl hq)
    · exact mem_ptrs_plug.mpr (Or.inr (mem_ptrs_join.mpr (Or.inr (Or.inr hq))))
  have hRC : ∀ q ∈ contextPtrs c, q ∉ ptrs (plug (f :: d) outer) := fun q hq hmem => hcs q hq (hRS q hmem)
  have hRT : ∀ q ∈ ptrs (plug (f :: d) outer), q ∉ ptrs oth := fun q hq => hso q (hRS q hq)
  have hDO' : ∀ q ∈ contextPtrs (f :: d) ++ ptrs outer, q ∈ ptrs (plug (f :: d) outer) := fun q hq =>
    mem_ptrs_plug.mpr (List.mem_append.mp hq)
  -- the inner child is taken out of its place
  obtain ⟨s₁, hs₁, hD₁, hsame₁, hroot₁⟩ := store_child hD hnD (top outer)
  rw [hside] at hs₁
  have hO₁ := hsame₁.holds hO hDO
  obtain ⟨s₂, hs₂, hO₂, hsame₂, hroot₂⟩ := adopt_holds hO₁ hnO (some f.label.1)
  have hD₂ := hsame₂.holdsContext hD₁ fun q hq hmem => hDO q hmem hq
  have hR₂ : Holds s₂.heap (some p) (plug (f :: d) outer) := holds_plug.mpr ⟨hD₂, hO₂⟩
  have hnR : (ptrs (plug (f :: d) outer)).Nodup := nodup_plug.mpr ⟨hnD, hnO, hDO⟩
  have hsame₁₂ := hsame₁.trans hsame₂
  have hC₂ := hsame₁₂.holdsContext hctx fun q hq hmem => hRC q hmem (hDO' q hq)
  have hT₂ := hsame₁₂.holds hoth fun q hq => hRT q (hDO' q hq)
  -- the pointer to the node becomes a pointer to it
  obtain ⟨s₃, hs₃, hC₃, hsame₃, hroot₃⟩ :=
    setLink_holds (join side y (plug (f :: d) outer) oth) hC₂ hnc ((hroot₂.trans hroot₁).trans hroot)
  rw [top_join] at hs₃ hC₃
  have hnodeY₃ : s₃.heap y.1 = _ :=
    ((hsame₃.heap y.1 hyC).trans (hsame₁₂.heap y.1 fun hq => hyR (hDO' y.1 hq))).trans hnodeY
  -- it gets the pointers of the node
  obtain ⟨s₄, hs₄, hnodeY₄, hsame₄, hroot₄⟩ := store_node hnodeY₃ (·.setParent (above none c))
  obtain ⟨s₅, hs₅, hnodeY₅, hsame₅, hroot₅⟩ := store_node hnodeY₄ (·.setChild side.other (top oth))
  obtain ⟨s₆, hs₆, hnodeY₆, hsame₆, hroot₆⟩ := store_node hnodeY₅ (·.setChild side (some z.1))
  have hsame₃₆ := (hsame₄.trans hsame₅).trans hsame₆
  have hY : ∀ q ∈ [y.1] ++ [y.1] ++ [y.1], q = y.1 := by
    intro q hq
    simp only [List.mem_append, List.mem_singleton, or_self] at hq
    exact hq
  have hC₆ := hsame₃₆.holdsContext hC₃ fun q hq hmem => hyC (hY q hq ▸ hmem)
  have hR₆ := hsame₃₆.holds (hsame₃.holds hR₂ hRC) fun q hq hmem => hyR (hY q hq ▸ hmem)
  have hT₆ := hsame₃₆.holds (hsame₃.holds hT₂ hco) fun q hq hmem => hyT (hY q hq ▸ hmem)
  -- and the subtrees of the node get it as their parent
  obtain ⟨s₇, hs₇, hT₇, hsame₇, hroot₇⟩ := store_top_parent hT₆ hne' hno (some y.1)
  have hR₇ := hsame₇.holds hR₆ fun q hq hmem => hRT q hmem hq
  have hneR : plug (f :: d) outer ≠ .nil := fun hnil => by
    rw [hnil] at hrestTop
    exact absurd hrestTop (Option.some_ne_none _).symm
  obtain ⟨s₈, hs₈, hR₈, hsame₈, hroot₈⟩ := store_top_parent hR₇ hneR hnR (some y.1)
  rw [hrestTop] at hs₈
  refine ⟨s₈, _, ?_, ?_, ?_, ?_, (((hsame₁₂.trans hsame₃).trans hsame₃₆).trans hsame₇).trans hsame₈⟩
  · unfold Bst.replaceByInner
    simp only [nodeAt_child, nodeAt_child_other, nodeAt_parent, load_some, hnodeZ, mt top_eq_none.mp hinner, if_false,
      Option.bind_eq_bind, Option.bind_some, hfar, hnodeY, hs₁, hs₂, hs₃, hs₄, hs₅, hs₆, hs₇, hs₈]
  · exact hsame₈.holdsContext (hsame₇.holdsContext hC₆ fun q hq hmem => hco q hmem hq) fun q hq hmem => hRC q hmem hq
  · refine holds_join.mpr ⟨?_, hR₈, hsame₈.holds hT₇ hRT⟩
    rw [hsame₈.heap y.1 hyR, hsame₇.heap y.1 hyT, hnodeY₆, hrestTop]
    simp only [nodeAt_setParent, nodeAt_setChild, nodeAt_setChild_other]
  · rw [hroot₈, hroot₇, hroot₆, hroot₅, hroot₄, hroot₃]

/-- **The inner child of a side takes the place of the node.** -/
theorem replaceByInner_holds (side : Side) (info : ι) {s : Bst ι} {p : Ptr} {c : Context ι} {t₀ sub oth : Shape ι}
    {fuel : Nat} (hctx : HoldsContext s.heap none (some p) c) (hsub : Holds s.heap (some p) sub)
    (hoth : Holds s.heap (some p) oth) (hne : sub ≠ .nil) (hne' : oth ≠ .nil) (hnc : (contextPtrs c).Nodup)
    (hns : (ptrs sub).Nodup) (hno : (ptrs oth).Nodup) (hcs : ∀ q ∈ contextPtrs c, q ∉ ptrs sub)
    (hco : ∀ q ∈ contextPtrs c, q ∉ ptrs oth) (hso : ∀ q ∈ ptrs sub, q ∉ ptrs oth)
    (hroot : s.root = top (plug c t₀)) (hfuel : sub.numNodes ≤ fuel) :
    ∃ s' d y outer w, sub = plug d (join side.other y .nil outer) ∧ (∀ f ∈ d, f.side = side.other) ∧
      Bst.replaceByInner side fuel (nodeAt side (top sub) (top oth) (above none c) info) (linkOf c) s = some s' ∧
      HoldsContext s'.heap none (some y.1) c ∧
      Holds s'.heap (above none c) (join side y (plug d outer) oth) ∧
      s'.root = top (plug c (join side y (plug d outer) oth)) ∧ Same s s' w := by
  cases sub with
  | nil => exact absurd rfl hne
  | node z l r =>
    obtain ⟨i, o, hz⟩ := node_eq_join side.other z l r
    have htop : top (.node z l r) = some z.1 := rfl
    rw [hz] at hsub hns hcs hso
    obtain ⟨hzi, hzo, hni, hnouter, hio⟩ := nodup_join.mp hns
    have hzc : z.1 ∉ contextPtrs c := fun hq => hcs z.1 hq (mem_ptrs_join.mpr (Or.inl rfl))
    have hzt : z.1 ∉ ptrs oth := hso z.1 (mem_ptrs_join.mpr (Or.inl rfl))
    obtain ⟨hnode, hi, ho⟩ := holds_join.mp hsub
    by_cases hinner : i = .nil
    · -- "inner child is found": it is the child itself
      subst hinner
      rw [nodeAt_other] at hnode
      obtain ⟨s₁, hs₁, hctx₁, hsame₁, hroot₁⟩ :=
        setLink_holds (join side z o oth) hctx hnc hroot
      rw [top_join] at hs₁ hctx₁
      have hnode₁ : s₁.heap z.1 = _ := (hsame₁.heap z.1 hzc).trans hnode
      obtain ⟨s₂, hs₂, hnode₂, hsame₂, hroot₂⟩ := store_node hnode₁ (·.setParent (above none c))
      obtain ⟨s₃, hs₃, hnode₃, hsame₃, hroot₃⟩ := store_node hnode₂ (·.setChild side.other (top oth))
      have hsame₁₃ := (hsame₁.trans hsame₂).trans hsame₃
      have hout : ∀ q, q ∉ contextPtrs c → q ≠ z.1 → q ∉ contextPtrs c ++ [z.1] ++ [z.1] := by
        intro q hqc hqz hq
        simp only [List.mem_append, List.mem_singleton] at hq
        rcases hq with (hq | hq) | hq
        · exact hqc hq
        · exact hqz hq
        · exact hqz hq
      have hoth₃ := hsame₁₃.holds hoth fun q hq hmem =>
        hout q (fun hqc => hco q hqc hmem) (fun hqz => hzt (hqz ▸ hmem)) hq
      obtain ⟨s₄, hs₄, hoth₄, hsame₄, hroot₄⟩ := store_top_parent hoth₃ hne' hno (some z.1)
      have hsame₁₄ := hsame₁₃.trans hsame₄
      refine ⟨s₄, [], z, o, _, hz, fun f hf => absurd hf List.not_mem_nil, ?_, ?_, ?_, ?_, hsame₁₄⟩
      · unfold Bst.replaceByInner
        simp only [nodeAt_child, nodeAt_child_other, nodeAt_parent, htop, load_some, hnode, top_nil, if_true,
          Option.bind_eq_bind, Option.bind_some, hs₁, hs₂, hs₃]
        exact hs₄
      · refine hsame₄.holdsContext ?_ fun q hq hmem => hco q hmem hq
        refine hsame₃.holdsContext (hsame₂.holdsContext hctx₁ ?_) ?_
        · exact fun q hq hmem => hzc (List.mem_singleton.mp hq ▸ hmem)
        · exact fun q hq hmem => hzc (List.mem_singleton.mp hq ▸ hmem)
      · refine holds_join.mpr ⟨?_, ?_, hoth₄⟩
        · rw [hsame₄.heap z.1 hzt, hnode₃]
          simp only [nodeAt_setParent, nodeAt_setChild_other]
          rfl
        · refine hsame₁₄.holds ho fun q hq hmem => ?_
          rcases List.mem_append.mp hq with hq | hq
          · exact hout q (fun hqc => hcs q hqc (mem_ptrs_join.mpr (Or.inr (Or.inr hmem)))) (fun hqz => hzo (hqz ▸ hmem)) hq
          · exact hso q (mem_ptrs_join.mpr (Or.inr (Or.inr hmem))) hq
      · rw [hroot₄, hroot₃, hroot₂, hroot₁]
        rfl
    · -- it is further down
      have hnum : i.numNodes < fuel := by
        have hlen := length_inorder (.node z l r)
        rw [hz, inorder_join, List.length_append, List.length_append, length_inorder] at hlen
        have hpos : 0 < (joinBefore side.other z o).length + (joinAfter side.other z o).length := by
          cases side.other with
          | left => exact Nat.lt_add_left _ (Nat.succ_pos _)
          | right =>
            show 0 < (inorder o ++ [z]).length + 0
            rw [List.length_append, List.length_singleton]
            omega
        rw [hz] at hfuel
        omega
      obtain ⟨d, y, outer, hd, hsides, hfar⟩ := farthest_eq side.other hsub hnum
      cases d with
      | nil =>
        refine absurd ?_ hinner
        cases side with
        | left =>
          injection hd
        | right =>
          injection hd
      | cons f d =>
        obtain ⟨s', w, hrest⟩ := replaceByInner_deep side hctx hsub hoth hinner hne' hnc hns hno hcs hco hso hroot hd
          (hsides f List.mem_cons_self) hfar
        exact ⟨s', f :: d, y, outer, w, hz.trans hd, hsides, hrest⟩

/-- **The pointer to the node** is the one in the frame above it. -/
theorem parentspointer_eq {s : Bst ι} {p : Ptr} {n : BstNode ι} {c : Context ι} (h : HoldsContext s.heap none (some p) c)
    (hn : n.parent = above none c) (hne : p ∉ contextPtrs c) : s.parentspointer p n = some (linkOf c) := by
  unfold Bst.parentspointer
  cases c with
  | nil =>
    rw [show n.parent = none from hn]
    rfl
  | cons f c =>
    rw [show n.parent = some f.label.1 from hn]
    show (s.heap f.label.1).map _ = _
    rw [h.1, Option.map_some]
    show some (Bst.Link.child f.label.1 _) = some (Bst.Link.child f.label.1 f.side)
    cases hside : f.side with
    | left =>
      rw [if_pos (show (nodeAt .left (some p) (top f.sibling) (above none c) f.label.2).left = some p from rfl)]
    | right =>
      have hleft : ¬ (nodeAt .right (some p) (top f.sibling) (above none c) f.label.2).left = some p := fun hleft =>
        hne (mem_contextPtrs_cons.mpr (Or.inr (Or.inl (mem_ptrs_of_top hleft))))
      rw [if_neg hleft]

/-- A tree whose first node is put on top. -/
theorem inorder_leftmost {d : Context ι} (hd : ∀ f ∈ d, f.side = .left) (y : Ptr × ι) (outer : Shape ι) :
    inorder (plug d (join .left y .nil outer)) = y :: inorder (plug d outer) := by
  have hempty : before d = [] := by
    induction d with
    | nil => rfl
    | cons f d ih =>
      obtain ⟨hf, hrest⟩ := List.forall_mem_cons.mp hd
      show before d ++ joinBefore f.side f.label f.sibling = []
      rw [ih hrest, hf]
      rfl
  rw [inorder_plug, inorder_plug, inorder_join, hempty]
  rfl

/-- A tree whose last node is put on top. -/
theorem inorder_rightmost {d : Context ι} (hd : ∀ f ∈ d, f.side = .right) (y : Ptr × ι) (outer : Shape ι) :
    inorder (plug d (join .right y .nil outer)) = inorder (plug d outer) ++ [y] := by
  have hempty : after d = [] := by
    induction d with
    | nil => rfl
    | cons f d ih =>
      obtain ⟨hf, hrest⟩ := List.forall_mem_cons.mp hd
      show joinAfter f.side f.label f.sibling ++ after d = []
      rw [ih hrest, hf]
      rfl
  rw [inorder_plug, inorder_plug, inorder_join, hempty]
  simp only [joinBefore, joinAfter, inorder, List.append_nil, List.append_assoc]

/-- **A node is taken out**, and the others stay in their order. -/
theorem unlink_holds {s : Bst ι} {x : Ptr × ι} {l r : Shape ι} {c : Context ι} {fuel : Nat}
    (hctx : HoldsContext s.heap none (some x.1) c) (hnode : Holds s.heap (above none c) (.node x l r))
    (hnodup : (ptrs (plug c (.node x l r))).Nodup) (hroot : s.root = top (plug c (.node x l r)))
    (hfuel : l.numNodes + r.numNodes ≤ fuel) :
    ∃ s' t', Bst.unlink fuel x.1 (nodeAt .left (top l) (top r) (above none c) x.2) s = some s' ∧
      inorder t' = inorder l ++ inorder r ∧ HoldsContext s'.heap none (top t') c ∧
      Holds s'.heap (above none c) t' ∧ s'.root = top (plug c t') ∧
      (∀ p, s'.heap p ≠ none → s.heap p ≠ none) ∧ s'.nodes = s.nodes ∧ s'.init = s.init := by
  obtain ⟨-, hl, hr⟩ := hnode
  obtain ⟨hnc, hnx, hcx⟩ := nodup_plug.mp hnodup
  obtain ⟨-, -, hnl, hnr, hlr⟩ := nodup_join.mp (show (ptrs (join .left x l r)).Nodup from hnx)
  have hmem : ∀ q, q ∈ ptrs (.node x l r) ↔ q = x.1 ∨ q ∈ ptrs l ∨ q ∈ ptrs r := fun q =>
    show q ∈ ptrs (join .left x l r) ↔ _ from mem_ptrs_join
  have hxc : x.1 ∉ contextPtrs c := fun hq => hcx x.1 hq ((hmem x.1).mpr (Or.inl rfl))
  have hcl : ∀ q ∈ contextPtrs c, q ∉ ptrs l := fun q hq hql => hcx q hq ((hmem q).mpr (Or.inr (Or.inl hql)))
  have hcr : ∀ q ∈ contextPtrs c, q ∉ ptrs r := fun q hq hqr => hcx q hq ((hmem q).mpr (Or.inr (Or.inr hqr)))
  have hlink : s.parentspointer x.1 (nodeAt .left (top l) (top r) (above none c) x.2) = some (linkOf c) :=
    parentspointer_eq hctx rfl hxc
  unfold Bst.unlink
  rw [hlink]
  show ∃ s' t', (if top l = none then _ else if top r = none then _ else _) = some s' ∧ _
  by_cases hleft : top l = none
  · -- "there is no left subtree of node"
    obtain ⟨s₁, hs₁, hctx₁, hsame₁, hroot₁⟩ := setLink_holds r hctx hnc hroot
    obtain ⟨s₂, hs₂, hr₂, hsame₂, hroot₂⟩ := adopt_holds (hsame₁.holds hr hcr) hnr (above none c)
    obtain rfl := top_eq_none.mp hleft
    refine ⟨s₂, r, ?_, rfl, hsame₂.holdsContext hctx₁ fun q hq hqc => hcr q hqc hq, hr₂, hroot₂.trans hroot₁,
      (hsame₁.trans hsame₂).domain, (hsame₁.trans hsame₂).nodes, (hsame₁.trans hsame₂).init⟩
    rw [if_pos hleft]
    show (s.setLink (linkOf c) (top r)).bind _ = _
    rw [hs₁]
    exact hs₂
  · rw [if_neg hleft]
    by_cases hright : top r = none
    · -- "link up with left subtree"
      obtain ⟨s₁, hs₁, hctx₁, hsame₁, hroot₁⟩ := setLink_holds l hctx hnc hroot
      obtain ⟨s₂, hs₂, hl₂, hsame₂, hroot₂⟩ := adopt_holds (hsame₁.holds hl hcl) hnl (above none c)
      obtain rfl := top_eq_none.mp hright
      refine ⟨s₂, l, ?_, (List.append_nil _).symm, hsame₂.holdsContext hctx₁ fun q hq hqc => hcl q hqc hq, hl₂,
        hroot₂.trans hroot₁, (hsame₁.trans hsame₂).domain, (hsame₁.trans hsame₂).nodes, (hsame₁.trans hsame₂).init⟩
      rw [if_pos hright]
      show (s.setLink (linkOf c) (top l)).bind _ = _
      rw [hs₁]
      exact hs₂
    · rw [if_neg hright]
      have hlne := mt top_eq_none.mpr hleft
      have hrne := mt top_eq_none.mpr hright
      by_cases htype : s.deltype = 1
      · -- RIGHTLEAF
        obtain ⟨s', d, y, outer, w, hsub, hsides, hrun, hctx', hholds, hroot', hsame⟩ :=
          replaceByInner_holds (s := { s with deltype := 1 - s.deltype }) .right x.2 hctx hr hl hrne hlne hnc
            hnr hnl hcr hcl (fun q hq hql => hlr q hql hq) hroot (Nat.le_trans (Nat.le_add_left _ _) hfuel)
        refine ⟨s', join .right y (plug d outer) l, ?_, ?_, ?_, hholds, hroot', hsame.domain, hsame.nodes, hsame.init⟩
        · rw [if_pos htype]
          exact hrun
        · rw [hsub]
          show inorder l ++ y :: inorder (plug d outer) = _
          rw [← inorder_leftmost hsides y outer]
          rfl
        · rw [top_join]
          exact hctx'
      · -- LEFTLEAF
        obtain ⟨s', d, y, outer, w, hsub, hsides, hrun, hctx', hholds, hroot', hsame⟩ :=
          replaceByInner_holds (s := { s with deltype := 1 - s.deltype }) .left x.2 hctx hl hr hlne hrne hnc
            hnl hnr hcl hcr hlr hroot (Nat.le_trans (Nat.le_add_right _ _) hfuel)
        refine ⟨s', join .left y (plug d outer) r, ?_, ?_, ?_, hholds, hroot', hsame.domain, hsame.nodes, hsame.init⟩
        · rw [if_neg htype]
          exact hrun
        · rw [hsub]
          show inorder (plug d outer) ++ y :: inorder r = inorder (plug d (join .right y .nil outer)) ++ inorder r
          rw [inorder_rightmost hsides y outer, List.append_assoc]
          rfl
        · rw [top_join]
          exact hctx'

/-- **A deletion leaves the other nodes in their order.** -/
theorem rep_delete {s : Bst ι} {c : Context ι} {x : Ptr × ι} {l r : Shape ι} (h : Rep s (plug c (.node x l r)))
    {fuel : Nat} (hfuel : l.numNodes + r.numNodes ≤ fuel) :
    ∃ s' t', s.bstDelete fuel (some x.1) = some (s', .info x.2) ∧ inorder t' = inorder l ++ inorder r ∧
      Rep s' (plug c t') := by
  obtain ⟨hctx, hnode⟩ := holds_plug.mp h.holds
  have hx := hnode.1
  obtain ⟨s₂, t', hunlink, horder, hctx₂, hholds₂, hroot₂, hdomain, hnodes, hinit⟩ :=
    unlink_holds (s := { s with nodes := s.nodes - 1 }) hctx hnode h.nodup h.root hfuel
  -- the order of the whole tree
  have hbefore : inorder (plug c (.node x l r)) = before c ++ (inorder l ++ x :: inorder r) ++ after c := inorder_plug c _
  have hafter : inorder (plug c t') = before c ++ (inorder l ++ inorder r) ++ after c := by
    rw [inorder_plug, horder]
  have hperm : (ptrs (plug c (.node x l r))).Perm (x.1 :: ptrs (plug c t')) := by
    have hsplit : (inorder (plug c (.node x l r))).Perm (x :: inorder (plug c t')) := by
      have hbefore' : inorder (plug c (.node x l r)) = (before c ++ inorder l) ++ x :: (inorder r ++ after c) := by
        rw [hbefore]
        simp only [List.append_assoc, List.cons_append]
      have hafter' : inorder (plug c t') = (before c ++ inorder l) ++ (inorder r ++ after c) := by
        rw [hafter]
        simp only [List.append_assoc]
      rw [hbefore', hafter']
      exact List.perm_middle
    exact hsplit.map Prod.fst
  obtain ⟨hxnot, hnodup⟩ := List.nodup_cons.mp (hperm.nodup_iff.mp h.nodup)
  have hfree : ∀ p ∈ ptrs (plug c t'), (s₂.setNode x.1 none).heap p = s₂.heap p := fun p hp =>
    Function.update_of_ne (by rintro rfl; exact hxnot hp) _ _
  refine ⟨s₂.setNode x.1 none, t', ?_, horder, ?_, hroot₂, ?_, hnodup, ?_, ?_⟩
  · have hinit : ¬ s.init = false := by
      rw [h.init]
      exact Bool.false_ne_true.symm
    show (if s.init = false then _ else _) = _
    rw [if_neg hinit]
    show (s.heap x.1).bind _ = _
    rw [hx, Option.bind_some]
    show (Bst.unlink fuel x.1 _ _).bind _ = _
    rw [hunlink]
    rfl
  · exact hinit.trans h.init
  · exact (holds_plug.mpr ⟨hctx₂, hholds₂⟩).congr hfree
  · intro p hp
    have hpx : p ≠ x.1 := by
      rintro rfl
      exact hp (Function.update_self ..)
    have hs₂ : s₂.heap p ≠ none := by
      rw [← Function.update_of_ne hpx none s₂.heap]
      exact hp
    have hmem := hperm.mem_iff.mp (h.only p (hdomain p hs₂))
    exact (List.mem_cons.mp hmem).resolve_left hpx
  · show s₂.nodes = _
    rw [hnodes]
    show s.nodes - 1 = _
    have hlen := hperm.length_eq
    unfold ptrs at hlen
    rw [List.length_map, List.length_cons, List.length_map] at hlen
    rw [h.nodes, hlen]
    omega

end Trick.TrickAdt
