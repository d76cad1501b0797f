/-
  Binary search trees in order.

  1. **Specification.**  `TotalOrder` is what is asked of the compare function; different items may compare
     equal.  `live` are the nodes that have been inserted and not yet deleted, `Permitted` says that `malloc`
     returns memory that is not in use and that what is deleted is in the tree.

  2. **The walk** comes back from a subtree with its items in order (`walk_subtree`), in the state in which the
     node above expects it; the number of turns is at most four for each node.

  3. **Insertion** keeps the order since the slot stands between the items that are not greater and those
     that are (`slot_order`).

  4. **Main result** (`tree_correct`): after any run the walk gives the live items in order, the count is their
     number, parents and children belong together, and `bstFind` finds an equal item if there is one.
-/
import Trick.TrickAdt.BstShape

namespace Trick.TrickAdt

open Trick.Lib

variable {ι : Type}

/-! ## Specification -/

/-- **A compare function.** -/
structure TotalOrder (compare : ι → ι → Int) : Prop where
  swap : ∀ a b, compare a b < 0 ↔ 0 < compare b a
  trans : ∀ a b c, compare a b ≤ 0 → compare b c ≤ 0 → compare a c ≤ 0

inductive Op (ι : Type) where
  /-- `bstInsert`, and what `malloc` returns. -/
  | insert (info : Option ι) (malloc : Option Ptr)
  /-- `bstDelete` -/
  | delete (node : Ptr)

/-- One call. -/
def Bst.step (compare : ι → ι → Int) (fuel : Nat) (s : Bst ι) : Op ι → Option (Bst ι)
  | .insert info malloc => (s.bstInsert compare fuel info malloc).map Prod.fst
  | .delete node => (s.bstDelete fuel (some node)).map Prod.fst

/-- **A run.** -/
def Bst.run (compare : ι → ι → Int) (fuel : Nat) : Bst ι → List (Op ι) → Option (Bst ι)
  | s, [] => some s
  | s, op :: ops => (s.step compare fuel op).bind fun s => Bst.run compare fuel s ops

/-- The nodes after a call. -/
def Op.live (l : List (Ptr × ι)) : Op ι → List (Ptr × ι)
  | .insert info malloc =>
    match info, malloc with
    | some x, some p => (p, x) :: l
    | _, _ => l
  | .delete node => l.filter (·.1 ≠ node)

/-- **The nodes that have been inserted and not yet deleted.** -/
def live (ops : List (Op ι)) : List (Ptr × ι) := ops.foldl Op.live []

/-- Memory that is not in use, and nodes of the tree. -/
def Op.Ok (l : List (Ptr × ι)) : Op ι → Prop
  | .insert _ malloc => ∀ p, malloc = some p → p ∉ l.map Prod.fst
  | .delete node => node ∈ l.map Prod.fst

def Permitted : List (Ptr × ι) → List (Op ι) → Prop
  | _, [] => True
  | l, op :: ops => op.Ok l ∧ Permitted (op.live l) ops

/-- A tree before the first call: `bstInit` has been called, or will be. -/
structure Bst.Empty (s : Bst ι) : Prop where
  heap : ∀ p, s.heap p = none
  init : s.init = true → s.root = none ∧ s.nodes = 0

/-- **Parents and children belong together.** -/
structure Bst.Linked (s : Bst ι) : Prop where
  parent : ∀ p n, s.heap p = some n → ∀ q, n.parent = some q ↔
    ∃ m, s.heap q = some m ∧ (m.left = some p ∨ m.right = some p)
  root : ∀ p n, s.heap p = some n → (n.parent = none ↔ s.root = some p)

/-- **What a tree with these nodes does.** -/
structure Bst.Correct (compare : ι → ι → Int) (fuel : Nat) (s : Bst ι) (nodes : List (Ptr × ι)) : Prop where
  walk : ∃ s' visited, s.bstTraverseTree fuel = some (s', visited) ∧ s.bstPrintAscending fuel = some (s', visited) ∧
    visited.Perm (nodes.map Prod.snd) ∧ visited.Pairwise fun a b => compare a b ≤ 0
  count : s.bstGetCount.2 = nodes.length
  allocated : ∀ p, s.heap p ≠ none ↔ p ∈ nodes.map Prod.fst
  linked : s.Linked
  find : ∀ info, ∃ s' r, s.bstFind compare fuel (some info) = some (s', r) ∧
    (∀ p, r = some p → ∃ x, (p, x) ∈ nodes ∧ compare x info = 0) ∧ (r = none → ∀ y ∈ nodes, compare y.2 info ≠ 0)

/-! ## The walk -/

section
variable {s : Bst ι} {c : Context ι} {t : Shape ι}

/-- **The walk has come to the end of a subtree**: what it does next depends on the side the subtree is on. -/
structure Finished (c : Context ι) (p : Ptr) (visited : List ι) (w : Bst.Walk ι) : Prop where
  visited : w.visited = visited
  last : c = [] → w.done = true
  next : ∀ f c', c = f :: c' → w.done = false ∧ w.current = p ∧ w.st = if f.side = .left then Bst.WalkState.up else .climb

/-- Under a node there is only one such state. -/
theorem Finished.eq {f : Frame (Ptr × ι)} {p : Ptr} {visited : List ι} {w : Bst.Walk ι}
    (h : Finished (f :: c) p visited w) :
    w = ⟨p, if f.side = .left then .up else .climb, false, visited⟩ := by
  obtain ⟨hdone, hcurrent, hst⟩ := h.next f c rfl
  obtain ⟨current, st, done, visited'⟩ := w
  obtain rfl : visited' = visited := h.visited
  obtain rfl : done = false := hdone
  obtain rfl : current = p := hcurrent
  exact congrArg (fun st => (⟨current, st, false, visited'⟩ : Bst.Walk ι)) hst

/-- One turn. -/
theorem walkLoop_step {w w' : Bst.Walk ι} (hdone : w.done = false) (hstep : Bst.walkStep s w = some w') (fuel : Nat) :
    Bst.walkLoop s (fuel + 1) w = Bst.walkLoop s fuel w' := by
  have hnot : ¬ w.done = true := by
    rw [hdone]
    exact Bool.false_ne_true
  show (if w.done = true then _ else _) = _
  rw [if_neg hnot, hstep]
  rfl

/-- The test of the side. -/
theorem left_test {f : Frame (Ptr × ι)} {p : Ptr} (h : HoldsContext s.heap none (some p) (f :: c))
    (hne : p ∉ contextPtrs (f :: c)) : ∃ k, s.heap f.label.1 = some k ∧
      (if k.left = some p then Bst.WalkState.up else .climb) = if f.side = .left then .up else .climb := by
  refine ⟨_, h.1, ?_⟩
  cases hside : f.side with
  | left =>
    rw [if_pos rfl]
    exact if_pos rfl
  | right =>
    rw [if_neg (show ¬ Side.right = Side.left from Side.noConfusion)]
    exact if_neg fun hleft => hne (mem_contextPtrs_cons.mpr (Or.inr (Or.inl (mem_ptrs_of_top hleft))))

/-- **A subtree is left**: in case 4 at a node without a right subtree, and in case 1 at a node whose right
    subtree is finished. -/
theorem finished_of_parent {p : Ptr} (h : HoldsContext s.heap none (some p) c) (hne : p ∉ contextPtrs c)
    {w : Bst.Walk ι} (hdone : w.done = false) (hcurrent : w.current = p) :
    ∃ w', (above none c).elim (some { w with done := true }) (fun q => (s.heap q).bind fun k =>
        some { w with st := if k.left = some p then .up else .climb }) = some w' ∧ Finished c p w.visited w' := by
  cases c with
  | nil => exact ⟨{ w with done := true }, rfl, rfl, fun _ => rfl, fun f c' hc => (nomatch hc)⟩
  | cons f c =>
    obtain ⟨k, hk, hst⟩ := left_test h hne
    refine ⟨{ w with st := if k.left = some p then .up else .climb }, ?_, rfl, fun hc => (nomatch hc), ?_⟩
    · show (s.heap f.label.1).bind _ = _
      rw [hk]
      rfl
    · intro g c' hc
      obtain ⟨rfl, rfl⟩ := List.cons.inj hc
      exact ⟨hdone, hcurrent, hst⟩

/-- Case 4 where there is no right subtree. -/
theorem visit_last {x : Ptr × ι} {l : Shape ι} (hx : s.heap x.1 = some (nodeAt .left (top l) none (above none c) x.2))
    (h : HoldsContext s.heap none (some x.1) c) (hne : x.1 ∉ contextPtrs c) (visited : List ι) :
    ∃ w', Bst.walkStep s ⟨x.1, .visit, false, visited⟩ = some w' ∧ Finished c x.1 (visited ++ [x.2]) w' := by
  obtain ⟨w', hnext, hfinished⟩ := finished_of_parent h hne
    (w := { current := x.1, st := .visit, done := false, visited := visited ++ [x.2] }) rfl rfl
  refine ⟨w', ?_, hfinished⟩
  rw [← hnext]
  show (s.heap x.1).bind _ = _
  rw [hx, Option.bind_some]
  cases c with
  | nil => rfl
  | cons f c => rfl

/-- Case 1 at the right subtree of a node. -/
theorem climb_to {x : Ptr × ι} {l : Shape ι} {r : Option Ptr} {z : Ptr} {n : BstNode ι}
    (hx : s.heap x.1 = some (nodeAt .left (top l) r (above none c) x.2)) (hz : s.heap z = some n)
    (hparent : n.parent = some x.1) (h : HoldsContext s.heap none (some x.1) c) (hne : x.1 ∉ contextPtrs c)
    (visited : List ι) :
    ∃ w', Bst.walkStep s ⟨z, .climb, false, visited⟩ = some w' ∧ Finished c x.1 visited w' := by
  obtain ⟨w', hnext, hfinished⟩ := finished_of_parent h hne
    (w := { current := x.1, st := .climb, done := false, visited := visited }) rfl rfl
  refine ⟨w', ?_, hfinished⟩
  rw [← hnext]
  show (s.heap z).bind _ = _
  rw [hz, Option.bind_some]
  show n.parent.bind _ = _
  rw [hparent, Option.bind_some]
  show (s.heap x.1).bind _ = _
  rw [hx, Option.bind_some]
  cases c with
  | nil => rfl
  | cons f c => rfl

/-- **The walk comes back from a subtree with its items in order.** -/
theorem walk_subtree {x : Ptr × ι} {l r : Shape ι} (h : Holds s.heap (above none c) (.node x l r))
    (hc : HoldsContext s.heap none (some x.1) c) (hnodup : (ptrs (plug c (.node x l r))).Nodup) (visited : List ι) :
    ∃ n w, n ≤ 4 * (BinaryTree.node x l r).numNodes ∧
      Finished c x.1 (visited ++ (inorder (.node x l r)).map Prod.snd) w ∧
      ∀ fuel, Bst.walkLoop s (n + fuel) ⟨x.1, .descend, false, visited⟩ = Bst.walkLoop s fuel w := by
  induction hn : (BinaryTree.node x l r).numNodes using Nat.strong_induction_on generalizing c x l r visited with
  | _ n ih =>
    subst hn
    obtain ⟨hx, hl, hr⟩ := h
    have hnum : (BinaryTree.node x l r).numNodes = l.numNodes + r.numNodes + 1 := rfl
    have hne : x.1 ∉ contextPtrs c := fun hmem =>
      (nodup_plug.mp hnodup).2.2 x.1 hmem (mem_ptrs_of_top rfl)
    -- the left subtree, and back
    have hleft : ∃ n, n ≤ 4 * l.numNodes + 2 ∧ ∀ fuel,
        Bst.walkLoop s (n + fuel) ⟨x.1, .descend, false, visited⟩ =
          Bst.walkLoop s fuel ⟨x.1, .visit, false, visited ++ (inorder l).map Prod.snd⟩ := by
      cases l with
      | nil =>
        refine ⟨1, by omega, fun fuel => ?_⟩
        rw [Nat.add_comm 1 fuel]
        apply walkLoop_step rfl
        show (s.heap x.1).bind _ = _
        rw [hx, Option.bind_some]
        exact congrArg (fun v => some (⟨x.1, .visit, false, v⟩ : Bst.Walk ι)) (List.append_nil visited).symm
      | node y ll lr =>
        obtain ⟨n, w, hle, hfinished, hrun⟩ :=
          ih (BinaryTree.node y ll lr).numNodes (by omega) (c := ⟨.left, x, r⟩ :: c) hl ⟨hx, hr, hc⟩ hnodup visited rfl
        obtain rfl := hfinished.eq
        refine ⟨n + 2, by omega, fun fuel => ?_⟩
        have hdown : Bst.walkStep s ⟨x.1, .descend, false, visited⟩ = some ⟨y.1, .descend, false, visited⟩ := by
          show (s.heap x.1).bind _ = _
          rw [hx]
          rfl
        have hup : Bst.walkStep s ⟨y.1, .up, false, visited ++ (inorder (.node y ll lr)).map Prod.snd⟩ =
            some ⟨x.1, .visit, false, visited ++ (inorder (.node y ll lr)).map Prod.snd⟩ := by
          show (s.heap y.1).bind _ = _
          rw [hl.1]
          rfl
        calc Bst.walkLoop s (n + 2 + fuel) ⟨x.1, .descend, false, visited⟩
            = Bst.walkLoop s (n + (fuel + 1) + 1) ⟨x.1, .descend, false, visited⟩ := by
              congr 1
              omega
          _ = Bst.walkLoop s (n + (fuel + 1)) ⟨y.1, .descend, false, visited⟩ := walkLoop_step rfl hdown _
          _ = Bst.walkLoop s (fuel + 1) ⟨y.1, .up, false, visited ++ (inorder (.node y ll lr)).map Prod.snd⟩ :=
              hrun (fuel + 1)
          _ = _ := walkLoop_step rfl hup fuel
    obtain ⟨n₁, hle₁, hrun₁⟩ := hleft
    have hitems : visited ++ (inorder (.node x l r)).map Prod.snd =
        (visited ++ (inorder l).map Prod.snd ++ [x.2]) ++ (inorder r).map Prod.snd := by
      show visited ++ (inorder l ++ x :: inorder r).map Prod.snd = _
      rw [List.map_append, List.map_cons, List.append_assoc, List.append_assoc, List.singleton_append]
    rw [hitems]
    cases r with
    | nil =>
      obtain ⟨w, hvisit, hfinished⟩ := visit_last hx hc hne (visited ++ (inorder l).map Prod.snd)
      refine ⟨n₁ + 1, w, by omega, ?_, fun fuel => ?_⟩
      · show Finished c x.1 (_ ++ []) w
        rw [List.append_nil]
        exact hfinished
      · rw [show n₁ + 1 + fuel = n₁ + (fuel + 1) by omega, hrun₁]
        exact walkLoop_step rfl hvisit fuel
    | node z rl rr =>
      -- the right subtree, and up from it
      obtain ⟨n₂, w₂, hle₂, hfinished₂, hrun₂⟩ :=
        ih (BinaryTree.node z rl rr).numNodes (by omega) (c := ⟨.right, x, l⟩ :: c) hr ⟨hx, hl, hc⟩ hnodup
          (visited ++ (inorder l).map Prod.snd ++ [x.2]) rfl
      obtain rfl := hfinished₂.eq
      obtain ⟨w, hclimb, hfinished⟩ := climb_to hx hr.1 rfl hc hne
        (visited ++ (inorder l).map Prod.snd ++ [x.2] ++ (inorder (.node z rl rr)).map Prod.snd)
      refine ⟨n₁ + n₂ + 2, w, by omega, hfinished, fun fuel => ?_⟩
      have hvisit : Bst.walkStep s ⟨x.1, .visit, false, visited ++ (inorder l).map Prod.snd⟩ =
          some ⟨z.1, .descend, false, visited ++ (inorder l).map Prod.snd ++ [x.2]⟩ := by
        show (s.heap x.1).bind _ = _
        rw [hx]
        rfl
      calc Bst.walkLoop s (n₁ + n₂ + 2 + fuel) ⟨x.1, .descend, false, visited⟩
          = Bst.walkLoop s (n₁ + (n₂ + (fuel + 1) + 1)) ⟨x.1, .descend, false, visited⟩ := by
            congr 1
            omega
        _ = Bst.walkLoop s (n₂ + (fuel + 1) + 1) _ := hrun₁ _
        _ = Bst.walkLoop s (n₂ + (fuel + 1)) _ := walkLoop_step rfl hvisit _
        _ = Bst.walkLoop s (fuel + 1) _ := hrun₂ (fuel + 1)
        _ = Bst.walkLoop s fuel w := walkLoop_step rfl hclimb fuel

end

/-- **The walk over the whole tree.** -/
theorem walk_rep {s : Bst ι} {t : Shape ι} (h : Rep s t) {fuel : Nat} (hfuel : 4 * t.numNodes < fuel) :
    s.walk fuel = some (s, (inorder t).map Prod.snd) := by
  have hinit : ¬ s.init = false := by
    rw [h.init]
    exact Bool.false_ne_true.symm
  have hroot := h.root
  unfold Bst.walk
  rw [if_neg hinit]
  cases t with
  | nil =>
    rw [show s.root = none from hroot]
    rfl
  | node x l r =>
    rw [show s.root = some x.1 from hroot]
    obtain ⟨n, w, hle, hfinished, hrun⟩ := walk_subtree (c := []) h.holds trivial h.nodup []
    obtain ⟨k, rfl⟩ : ∃ k, fuel = n + (k + 1) := ⟨fuel - n - 1, by omega⟩
    show (Bst.walkLoop s (n + (k + 1)) ⟨x.1, .descend, false, []⟩).map _ = _
    rw [hrun]
    show Option.map _ (if w.done = true then some w.visited else _) = _
    rw [if_pos (hfinished.last rfl), hfinished.visited]
    rfl

/-! ## Order -/

section
variable {compare : ι → ι → Int}

theorem TotalOrder.le_of_not_lt (h : TotalOrder compare) {a b : ι} (hab : ¬ compare a b < 0) : compare b a ≤ 0 :=
  Int.not_lt.mp fun hlt => hab ((h.swap a b).mpr hlt)

theorem TotalOrder.lt_of_le_of_lt (h : TotalOrder compare) {a b c : ι} (hab : compare a b ≤ 0) (hbc : compare b c < 0) :
    compare a c < 0 := by
  by_contra hac
  have hcb := h.trans c a b (h.le_of_not_lt hac) hab
  have hpos := (h.swap b c).mp hbc
  omega

theorem TotalOrder.lt_of_lt_of_le (h : TotalOrder compare) {a b c : ι} (hab : compare a b < 0) (hbc : compare b c ≤ 0) :
    compare a c < 0 := by
  by_contra hac
  have hba := h.trans b c a hbc (h.le_of_not_lt hac)
  have hpos := (h.swap a b).mp hab
  omega

/-- **The items are in order.** -/
def Sorted (compare : ι → ι → Int) (t : Shape ι) : Prop :=
  (inorder t).Pairwise fun a b => compare a.2 b.2 ≤ 0

theorem sorted_node {x : Ptr × ι} {l r : Shape ι} (h : Sorted compare (.node x l r)) :
    Sorted compare l ∧ Sorted compare r ∧ (∀ a ∈ inorder l, compare a.2 x.2 ≤ 0) ∧
      ∀ b ∈ inorder r, compare x.2 b.2 ≤ 0 := by
  obtain ⟨hl, hxr, hbetween⟩ := List.pairwise_append.mp h
  obtain ⟨hx, hr⟩ := List.pairwise_cons.mp hxr
  exact ⟨hl, hr, fun a ha => hbetween a ha x List.mem_cons_self, hx⟩

/-- **The search finds an equal item if there is one.** -/
theorem findLoop_spec (hcmp : TotalOrder compare) {s : Bst ι} (info : ι) {parent : Option Ptr} {t : Shape ι}
    (h : Holds s.heap parent t) (hsorted : Sorted compare t) {fuel : Nat} (hfuel : t.numNodes < fuel) :
    ∃ r, Bst.findLoop compare s info fuel (top t) = some r ∧
      (∀ p, r = some p → ∃ x, (p, x) ∈ inorder t ∧ compare x info = 0) ∧
      (r = none → ∀ y ∈ inorder t, compare y.2 info ≠ 0) := by
  induction t generalizing parent fuel with
  | nil =>
    obtain ⟨fuel, rfl⟩ : ∃ k, fuel = k + 1 := ⟨fuel - 1, by omega⟩
    exact ⟨none, rfl, fun p hp => (nomatch hp), fun _ y hy => absurd hy List.not_mem_nil⟩
  | node x l r ihl ihr =>
    obtain ⟨hx, hl, hr⟩ := h
    obtain ⟨hsl, hsr, hlx, hxr⟩ := sorted_node hsorted
    have hnum : (BinaryTree.node x l r).numNodes = l.numNodes + r.numNodes + 1 := rfl
    obtain ⟨fuel, rfl⟩ : ∃ k, fuel = k + 1 := ⟨fuel - 1, by omega⟩
    have hturn : Bst.findLoop compare s info (fuel + 1) (top (.node x l r)) =
        if compare x.2 info ≤ -1 then Bst.findLoop compare s info fuel (top r)
        else if 1 ≤ compare x.2 info then Bst.findLoop compare s info fuel (top l)
        else some (some x.1) := by
      show (s.heap x.1).bind _ = _
      rw [hx]
      rfl
    have hmem : ∀ y, y ∈ inorder (.node x l r) ↔ y ∈ inorder l ∨ y = x ∨ y ∈ inorder r := by
      intro y
      show y ∈ inorder l ++ x :: inorder r ↔ _
      rw [List.mem_append, List.mem_cons]
    rw [hturn]
    split_ifs with hless hgreater
    · -- "search in the right subtree": what is left of it is less
      obtain ⟨res, hrun, hsome, hnone⟩ := ihr hr hsr (show r.numNodes < fuel by omega)
      refine ⟨res, hrun, ?_, ?_⟩
      · intro p hp
        obtain ⟨y, hy, heq⟩ := hsome p hp
        exact ⟨y, (hmem _).mpr (Or.inr (Or.inr hy)), heq⟩
      · intro hres y hy
        rcases (hmem y).mp hy with hy | rfl | hy
        · have hlt := hcmp.lt_of_le_of_lt (hlx y hy) (show compare x.2 info < 0 by omega)
          omega
        · omega
        · exact hnone hres y hy
    · -- "search in the left subtree"
      obtain ⟨res, hrun, hsome, hnone⟩ := ihl hl hsl (show l.numNodes < fuel by omega)
      refine ⟨res, hrun, ?_, ?_⟩
      · intro p hp
        obtain ⟨y, hy, heq⟩ := hsome p hp
        exact ⟨y, (hmem _).mpr (Or.inl hy), heq⟩
      · intro hres y hy
        rcases (hmem y).mp hy with hy | rfl | hy
        · exact hnone hres y hy
        · omega
        · have hlt := hcmp.lt_of_lt_of_le ((hcmp.swap info x.2).mpr (by omega)) (hxr y hy)
          have hpos := (hcmp.swap info y.2).mp hlt
          omega
    · -- "the data equals info"
      refine ⟨some x.1, rfl, ?_, fun hres => (nomatch hres)⟩
      intro p hp
      obtain rfl := Option.some.inj hp
      exact ⟨x.2, (hmem _).mpr (Or.inr (Or.inl rfl)), by omega⟩

/-- **The slot stands between what is not greater and what is.** -/
theorem slot_order (hcmp : TotalOrder compare) (info : ι) {t : Shape ι} (h : Sorted compare t) :
    (∀ a ∈ before (slot (insertSide compare info) t), compare a.2 info ≤ 0) ∧
      ∀ b ∈ after (slot (insertSide compare info) t), compare info b.2 ≤ 0 := by
  induction t with
  | nil => exact ⟨fun a ha => absurd ha List.not_mem_nil, fun b hb => absurd hb List.not_mem_nil⟩
  | node x l r ihl ihr =>
    obtain ⟨hsl, hsr, hlx, hxr⟩ := sorted_node h
    unfold slot
    by_cases hge : 0 ≤ compare info x.2
    · -- to the right
      have hside : insertSide compare info x = .right := if_pos hge
      have hxi : compare x.2 info ≤ 0 := hcmp.le_of_not_lt (by omega)
      obtain ⟨hbefore, hafter⟩ := ihr hsr
      rw [if_neg (by rw [hside]; exact Side.noConfusion), before_append, after_append]
      refine ⟨?_, ?_⟩
      · intro a ha
        rcases List.mem_append.mp ha with ha | ha
        · rcases List.mem_append.mp (show a ∈ inorder l ++ [x] from ha) with ha | ha
          · exact hcmp.trans _ _ _ (hlx a ha) hxi
          · rw [List.mem_singleton.mp ha]
            exact hxi
        · exact hbefore a ha
      · intro b hb
        rcases List.mem_append.mp hb with hb | hb
        · exact hafter b hb
        · exact absurd hb List.not_mem_nil
    · -- to the left
      have hside : insertSide compare info x = .left := if_neg hge
      obtain ⟨hbefore, hafter⟩ := ihl hsl
      rw [if_pos hside, before_append, after_append]
      refine ⟨?_, ?_⟩
      · intro a ha
        rcases List.mem_append.mp ha with ha | ha
        · exact absurd ha List.not_mem_nil
        · exact hbefore a ha
      · intro b hb
        rcases List.mem_append.mp hb with hb | hb
        · exact hafter b hb
        · rcases List.mem_append.mp (show b ∈ x :: inorder r ++ [] from hb) with hb | hb
          · rcases List.mem_cons.mp hb with rfl | hb
            · omega
            · exact hcmp.trans _ _ _ (by omega) (hxr b hb)
          · exact absurd hb List.not_mem_nil

theorem sorted_insert (hcmp : TotalOrder compare) (newNode : Ptr) (info : ι) {t : Shape ι} (h : Sorted compare t) :
    Sorted compare (plug (slot (insertSide compare info) t) (.node (newNode, info) .nil .nil)) := by
  obtain ⟨hbefore, hafter⟩ := slot_order hcmp info h
  have hold : (before (slot (insertSide compare info) t) ++ after (slot (insertSide compare info) t)).Pairwise
      fun a b => compare a.2 b.2 ≤ 0 := by
    have horder := inorder_plug (slot (insertSide compare info) t) .nil
    rw [plug_slot] at horder
    have hs : (inorder t).Pairwise fun a b => compare a.2 b.2 ≤ 0 := h
    rw [horder] at hs
    simpa only [inorder, List.append_nil] using hs
  obtain ⟨hb, ha, hba⟩ := List.pairwise_append.mp hold
  unfold Sorted
  rw [inorder_plug, List.append_assoc]
  refine List.pairwise_append.mpr ⟨hb, List.pairwise_cons.mpr ⟨hafter, ha⟩, ?_⟩
  intro a haa b hbb
  rcases List.mem_cons.mp hbb with rfl | hbb
  · exact hbefore a haa
  · exact hba a haa b hbb

end

/-! ## Parents and children -/

theorem linked_of_rep {s : Bst ι} {t : Shape ι} (h : Rep s t) : s.Linked := by
  -- a node of the tree, and where it is
  have hplace : ∀ p n, s.heap p = some n → ∃ c x l r, t = plug c (.node (p, x) l r) ∧
      HoldsContext s.heap none (some p) c ∧ Holds s.heap (above none c) (.node (p, x) l r) ∧
      n = nodeAt .left (top l) (top r) (above none c) x := by
    intro p n hn
    obtain ⟨⟨q, x⟩, hx, rfl⟩ := List.mem_map.mp (h.only p (by rw [hn]; exact Option.some_ne_none n))
    obtain ⟨c, l, r, rfl⟩ := exists_plug hx
    obtain ⟨hctx, hnode⟩ := holds_plug.mp h.holds
    exact ⟨c, x, l, r, rfl, hctx, hnode, Option.some.inj (hn.symm.trans hnode.1)⟩
  -- the parent of a tree that is there
  have hparent : ∀ {parent : Option Ptr} {t' : Shape ι} {p : Ptr} {n : BstNode ι}, Holds s.heap parent t' →
      top t' = some p → s.heap p = some n → n.parent = parent := by
    intro parent t' p n ht htop hn
    cases t' with
    | nil => exact absurd htop (Option.some_ne_none p).symm
    | node y l r =>
      obtain rfl : y.1 = p := Option.some.inj htop
      obtain rfl := Option.some.inj (hn.symm.trans ht.1)
      rfl
  refine ⟨?_, ?_⟩
  · intro p n hn q
    constructor
    · intro hq
      obtain ⟨c, x, l, r, rfl, hctx, -, rfl⟩ := hplace p n hn
      cases c with
      | nil => exact absurd hq (Option.some_ne_none q).symm
      | cons f c =>
        obtain rfl : f.label.1 = q := Option.some.inj hq
        refine ⟨_, hctx.1, ?_⟩
        cases f.side with
        | left => exact Or.inl rfl
        | right => exact Or.inr rfl
    · rintro ⟨m, hm, hchild⟩
      obtain ⟨c, x, l, r, rfl, -, ⟨-, hl, hr⟩, rfl⟩ := hplace q m hm
      rcases hchild with hleft | hright
      · exact hparent hl hleft hn
      · exact hparent hr hright hn
  · intro p n hn
    constructor
    · intro hnone
      obtain ⟨c, x, l, r, rfl, -, -, rfl⟩ := hplace p n hn
      cases c with
      | nil => exact h.root
      | cons f c => exact absurd hnone (Option.some_ne_none f.label.1)
    · intro hroot
      exact hparent h.holds (h.root.symm.trans hroot) hn

/-! ## Runs -/

section
variable {compare : ι → ι → Int} {s : Bst ι} {l : List (Ptr × ι)} {fuel : Nat}

/-- **A tree with these nodes**, or one that has not been initialized. -/
def Represents (compare : ι → ι → Int) (s : Bst ι) (l : List (Ptr × ι)) : Prop :=
  (s.init = false ∧ (∀ p, s.heap p = none) ∧ l = []) ∨
    ∃ t, Rep s t ∧ (inorder t).Perm l ∧ Sorted compare t

theorem rep_bstInit (h : ∀ p, s.heap p = none) : Rep s.bstInit .nil :=
  ⟨rfl, rfl, trivial, List.nodup_nil, fun p hp => absurd (h p) hp, rfl⟩

theorem insert_represents (hcmp : TotalOrder compare) {t : Shape ι} (hrep : Rep s t) (hperm : (inorder t).Perm l)
    (hsorted : Sorted compare t) (x : ι) {malloc : Option Ptr} (hok : (Op.insert (some x) malloc).Ok l)
    (hfuel : l.length ≤ fuel) :
    ∃ s', s.step compare fuel (.insert (some x) malloc) = some s' ∧
      Represents compare s' ((Op.insert (some x) malloc).live l) := by
  have hinit : ¬ s.init = false := by
    rw [hrep.init]
    exact Bool.false_ne_true.symm
  cases malloc with
  | none =>
    refine ⟨s, ?_, Or.inr ⟨t, hrep, hperm, hsorted⟩⟩
    show some (if s.init = false then s.bstInit else s) = some s
    rw [if_neg hinit]
  | some p =>
    have hnew : s.heap p = none := by
      by_contra hp
      exact hok p rfl ((hperm.map Prod.fst).mem_iff.mp (hrep.only p hp))
    have hnum : t.numNodes ≤ fuel := by
      rw [← length_inorder, hperm.length_eq]
      exact hfuel
    obtain ⟨s', hrun, hrep'⟩ := rep_insert compare hrep x hnew hnum
    refine ⟨s', ?_, Or.inr ⟨_, hrep', ?_, sorted_insert hcmp p x hsorted⟩⟩
    · show (s.bstInsert compare fuel (some x) (some p)).map Prod.fst = some s'
      rw [hrun]
      rfl
    · have hperm' : (inorder (plug (slot (insertSide compare x) t) (.node (p, x) .nil .nil))).Perm
          ((p, x) :: inorder t) := by
        have horder := inorder_plug (slot (insertSide compare x) t) .nil
        rw [plug_slot] at horder
        rw [show inorder (.nil : Shape ι) = [] from rfl, List.append_nil] at horder
        rw [inorder_plug, horder, List.append_assoc]
        exact List.perm_middle
      exact hperm'.trans (hperm.cons _)

theorem delete_represents {t : Shape ι} (hrep : Rep s t) (hperm : (inorder t).Perm l) (hsorted : Sorted compare t)
    {node : Ptr} (hok : (Op.delete node : Op ι).Ok l) (hfuel : l.length ≤ fuel) :
    ∃ s', s.step compare fuel (.delete node) = some s' ∧ Represents compare s' ((Op.delete node).live l) := by
  obtain ⟨x, hx, rfl⟩ := List.mem_map.mp ((hperm.map Prod.fst).mem_iff.mpr hok)
  obtain ⟨c, left, right, rfl⟩ := exists_plug hx
  have hnum : left.numNodes + right.numNodes ≤ fuel := by
    have hlen := hperm.length_eq
    rw [inorder_plug, List.length_append, List.length_append] at hlen
    have hnode : (inorder (.node x left right)).length = left.numNodes + right.numNodes + 1 := length_inorder _
    omega
  obtain ⟨s', t', hrun, horder, hrep'⟩ := rep_delete hrep hnum
  -- what is left, and that it is the others
  have hbefore : inorder (plug c (.node x left right)) = (before c ++ inorder left) ++ x :: (inorder right ++ after c) := by
    rw [inorder_plug]
    show before c ++ (inorder left ++ x :: inorder right) ++ after c = _
    simp only [List.append_assoc, List.cons_append]
  have hafter : inorder (plug c t') = (before c ++ inorder left) ++ (inorder right ++ after c) := by
    rw [inorder_plug, horder]
    simp only [List.append_assoc]
  have hnodup : (ptrs (plug c (.node x left right))).Nodup := hrep.nodup
  unfold ptrs at hnodup
  rw [hbefore, List.map_append, List.map_cons, List.nodup_middle, List.nodup_cons, ← List.map_append] at hnodup
  have hothers : ∀ y ∈ (before c ++ inorder left) ++ (inorder right ++ after c), y.1 ≠ x.1 := by
    intro y hy hyx
    exact hnodup.1 (hyx ▸ List.mem_map_of_mem hy)
  have hfilter : (inorder (plug c (.node x left right))).filter (·.1 ≠ x.1) = inorder (plug c t') := by
    rw [hbefore, hafter, List.filter_append, List.filter_cons_of_neg (by simp), ← List.filter_append]
    exact List.filter_eq_self.mpr fun y hy => decide_eq_true (hothers y hy)
  refine ⟨s', ?_, Or.inr ⟨_, hrep', ?_, ?_⟩⟩
  · show (s.bstDelete fuel (some x.1)).map Prod.fst = some s'
    rw [hrun]
    rfl
  · rw [← hfilter]
    exact hperm.filter _
  · have hs : (inorder (plug c (.node x left right))).Pairwise fun a b => compare a.2 b.2 ≤ 0 := hsorted
    have hfiltered := hs.filter (·.1 ≠ x.1)
    rw [hfilter] at hfiltered
    exact hfiltered

/-- **One call.** -/
theorem step_represents (hcmp : TotalOrder compare) (h : Represents compare s l) {op : Op ι} (hok : op.Ok l)
    (hfuel : l.length ≤ fuel) :
    ∃ s', s.step compare fuel op = some s' ∧ Represents compare s' (op.live l) := by
  cases op with
  | insert info malloc =>
    cases info with
    | none => exact ⟨s, rfl, h⟩
    | some x =>
      rcases h with ⟨hinit, hheap, rfl⟩ | ⟨t, hrep, hperm, hsorted⟩
      · -- the tree is initialized first
        have hsame : s.step compare fuel (.insert (some x) malloc) = s.bstInit.step compare fuel (.insert (some x) malloc) := by
          show (Bst.bstInsert compare fuel (some x) malloc s).map Prod.fst = _
          unfold Bst.bstInsert
          dsimp only
          rw [if_pos hinit]
          rfl
        rw [hsame]
        exact insert_represents hcmp (rep_bstInit hheap) (List.Perm.refl _) List.Pairwise.nil x hok hfuel
      · exact insert_represents hcmp hrep hperm hsorted x hok hfuel
  | delete node =>
    rcases h with ⟨-, -, rfl⟩ | ⟨t, hrep, hperm, hsorted⟩
    · exact absurd hok List.not_mem_nil
    · exact delete_represents hrep hperm hsorted hok hfuel

theorem length_live (l : List (Ptr × ι)) (op : Op ι) : (op.live l).length ≤ l.length + 1 := by
  cases op with
  | insert info malloc =>
    cases info with
    | none => exact Nat.le_succ _
    | some x =>
      cases malloc with
      | none => exact Nat.le_succ _
      | some p => exact Nat.le_refl _
  | delete node => exact Nat.le_succ_of_le (List.length_filter_le _ _)

/-- **A run.** -/
theorem run_represents (hcmp : TotalOrder compare) {ops : List (Op ι)} (h : Represents compare s l)
    (hops : Permitted l ops) (hfuel : l.length + ops.length ≤ fuel) :
    ∃ s', Bst.run compare fuel s ops = some s' ∧ Represents compare s' (ops.foldl Op.live l) ∧
      (ops.foldl Op.live l).length ≤ l.length + ops.length := by
  induction ops generalizing s l with
  | nil => exact ⟨s, rfl, h, Nat.le_refl _⟩
  | cons op ops ih =>
    rw [List.length_cons] at hfuel
    have hlen := length_live l op
    obtain ⟨s₁, hstep, hrep₁⟩ := step_represents hcmp h hops.1 (show l.length ≤ fuel by omega)
    obtain ⟨s', hrun, hrep', hlen'⟩ := ih hrep₁ hops.2 (by omega)
    refine ⟨s', ?_, hrep', ?_⟩
    · show (s.step compare fuel op).bind _ = some s'
      rw [hstep]
      exact hrun
    · rw [List.length_cons]
      show (ops.foldl Op.live (op.live l)).length ≤ _
      omega

/-- **What the functions do with a tree of these nodes.** -/
theorem correct_of_represents (hcmp : TotalOrder compare) (h : Represents compare s l) (hfuel : 4 * l.length < fuel) :
    s.Correct compare fuel l := by
  rcases h with ⟨hinit, hheap, rfl⟩ | ⟨t, hrep, hperm, hsorted⟩
  · have hwalk : s.walk fuel = some (s.bstInit, []) := if_pos hinit
    refine ⟨⟨s.bstInit, [], hwalk, hwalk, List.Perm.refl _, List.Pairwise.nil⟩, ?_, ?_, ?_, ?_⟩
    · show (if s.init = false then (s.bstInit, (0 : Int)) else (s, s.nodes)).2 = 0
      rw [if_pos hinit]
    · exact fun p => ⟨fun hp => absurd (hheap p) hp, fun hp => absurd hp List.not_mem_nil⟩
    · refine ⟨fun p n hn => ?_, fun p n hn => ?_⟩
      · exact absurd (hn.symm.trans (hheap p)) (Option.some_ne_none n)
      · exact absurd (hn.symm.trans (hheap p)) (Option.some_ne_none n)
    · intro info
      exact ⟨s.bstInit, none, if_pos hinit, fun p hp => (nomatch hp), fun _ y hy => absurd hy List.not_mem_nil⟩
  · have hnot : ¬ s.init = false := by
      rw [hrep.init]
      exact Bool.false_ne_true.symm
    have hnum : t.numNodes = l.length := by rw [← length_inorder, hperm.length_eq]
    have hwalk := walk_rep hrep (show 4 * t.numNodes < fuel by omega)
    refine ⟨⟨s, _, hwalk, hwalk, hperm.map Prod.snd, List.pairwise_map.mpr hsorted⟩, ?_, ?_, linked_of_rep hrep, ?_⟩
    · show (if s.init = false then (s.bstInit, (0 : Int)) else (s, s.nodes)).2 = _
      rw [if_neg hnot]
      exact hrep.nodes.trans (congrArg Int.ofNat hperm.length_eq)
    · intro p
      rw [← (hperm.map Prod.fst).mem_iff]
      exact ⟨hrep.only p, hrep.holds.ne_none⟩
    · intro info
      obtain ⟨r, hrun, hsome, hnone⟩ := findLoop_spec hcmp info hrep.holds hsorted (show t.numNodes < fuel by omega)
      refine ⟨s, r, ?_, ?_, ?_⟩
      · show (if s.init = false then _ else (Bst.findLoop compare s info fuel s.root).map _) = _
        rw [if_neg hnot, hrep.root, hrun]
        rfl
      · intro p hp
        obtain ⟨x, hx, heq⟩ := hsome p hp
        exact ⟨x, hperm.mem_iff.mp hx, heq⟩
      · exact fun hr y hy => hnone hr y (hperm.mem_iff.mpr hy)

end

/-- **Every run of insertions and deletions** goes through, and leaves a tree that does what a search tree with
    the nodes that are left does. -/
theorem tree_correct {compare : ι → ι → Int} (hcmp : TotalOrder compare) {s : Bst ι} (hs : s.Empty)
    {ops : List (Op ι)} (hops : Permitted [] ops) {fuel : Nat} (hfuel : 4 * ops.length < fuel) :
    ∃ s', Bst.run compare fuel s ops = some s' ∧ s'.Correct compare fuel (live ops) := by
  have hstart : Represents compare s [] := by
    cases hinit : s.init with
    | false => exact Or.inl ⟨hinit, hs.heap, rfl⟩
    | true =>
      obtain ⟨hroot, hnodes⟩ := hs.init hinit
      exact Or.inr ⟨.nil, ⟨hinit, hroot, trivial, List.nodup_nil, fun p hp => absurd (hs.heap p) hp, hnodes⟩,
        List.Perm.refl _, List.Pairwise.nil⟩
  have hsize : ([] : List (Ptr × ι)).length + ops.length ≤ fuel := by
    rw [List.length_nil]
    omega
  obtain ⟨s', hrun, hrep, hlen⟩ := run_represents hcmp hstart hops hsize
  rw [List.length_nil, Nat.zero_add] at hlen
  have hlen' : (live ops).length ≤ ops.length := hlen
  exact ⟨s', hrun, correct_of_represents hcmp hrep (by omega)⟩

/-- Two equal items and a smaller one, of which the first is deleted again. -/
theorem tree_correct_duplicates :
    ∃ s', Bst.run (fun a b : Int => a - b) 20 ⟨fun _ => none, none, 0, 0, false⟩
        [.insert (some 5) (some 0), .insert (some 5) (some 1), .insert (some 3) (some 2), .delete 0] = some s' ∧
      s'.Correct (fun a b : Int => a - b) 20
        (live [.insert (some 5) (some 0), .insert (some 5) (some 1), .insert (some 3) (some 2), .delete 0]) := by
  refine tree_correct ⟨fun a b => by omega, fun a b c => by omega⟩ ⟨fun _ => rfl, fun h => absurd h Bool.false_ne_true⟩ ?_ (by decide)
  refine ⟨?_, ?_, ?_, ?_, trivial⟩
  · exact fun p _ => List.not_mem_nil
  · rintro p ⟨⟩
    decide
  · rintro p ⟨⟩
    decide
  · show (0 : Nat) ∈ [2, 1, 0]
    decide

end Trick.TrickAdt
