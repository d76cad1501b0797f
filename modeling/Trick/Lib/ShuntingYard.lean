/-
  From infix to postfix with a stack of operators.

  An expression is a tree of operands, binary operators and brackets.  Written in infix it `Fits` if an operator that is
  not in brackets stands below one that does not bind tighter, and operators of one level group from the left.
  The stack machine reads the tokens from left to right; what it writes is the postfix of the tree (`convert_inOrder`).

  Nothing here names a program.
-/
import Mathlib

namespace Trick.Lib.ShuntingYard

/-- Operands `α`, operators `β`, and kinds of brackets `κ`. -/
inductive ExprTree (α β κ : Type*) where
  | leaf (a : α)
  | node (b : β) (left right : ExprTree α β κ)
  | bracket (k : κ) (inner : ExprTree α β κ)

inductive Token (α β κ : Type*) where
  | operand (a : α)
  | operator (b : β)
  | opens (k : κ)
  | closes (k : κ)

/-- What is written. -/
inductive Item (α β : Type*) where
  | operand (a : α)
  | operator (b : β)

variable {α β κ : Type*}

def ExprTree.inOrder : ExprTree α β κ → List (Token α β κ)
  | leaf a => [.operand a]
  | node b left right => left.inOrder ++ .operator b :: right.inOrder
  | bracket k inner => .opens k :: (inner.inOrder ++ [.closes k])

def ExprTree.postOrder : ExprTree α β κ → List (Item α β)
  | leaf a => [.operand a]
  | node b left right => left.postOrder ++ right.postOrder ++ [.operator b]
  | bracket _ inner => inner.postOrder

/-- **The brackets that are needed**, if operators bind as tight as they say. -/
def ExprTree.Fits (level : β → Nat) (least : Nat) : ExprTree α β κ → Prop
  | leaf _ => True
  | node b left right => least ≤ level b ∧ left.Fits level (level b) ∧ right.Fits level (level b + 1)
  | bracket _ inner => inner.Fits level 0

/-! ## The machine -/

/-- The operators that wait, `none` for an opening bracket, and what has been written. -/
structure State (α β : Type*) where
  stack : List (Option β) := []
  written : List (Item α β) := []

/-- The operators on the stack that go before the next one. -/
def popped (level : β → Nat) (b : β) : List (Option β) → List β
  | some t :: stack => if level b ≤ level t then t :: popped level b stack else []
  | _ => []

/-- The operators on the stack that wait. -/
def kept (level : β → Nat) (b : β) : List (Option β) → List (Option β)
  | some t :: stack => if level b ≤ level t then kept level b stack else some t :: stack
  | stack => stack

/-- The operators of a bracket, and the stack below it. -/
def untilOpen : List (Option β) → Option (List β × List (Option β))
  | [] => none
  | none :: stack => some ([], stack)
  | some t :: stack => (untilOpen stack).map fun found => (t :: found.1, found.2)

/-- **One token.** -/
def step (level : β → Nat) (s : State α β) : Token α β κ → Option (State α β)
  | .operand a => some { s with written := s.written ++ [.operand a] }
  | .operator b => some {
      stack := some b :: kept level b s.stack
      written := s.written ++ (popped level b s.stack).map .operator }
  | .opens _ => some { s with stack := none :: s.stack }
  | .closes _ => (untilOpen s.stack).map fun found => {
      stack := found.2
      written := s.written ++ found.1.map .operator }

def steps (level : β → Nat) (s : State α β) : List (Token α β κ) → Option (State α β)
  | [] => some s
  | token :: tokens => (step level s token).bind fun s' => steps level s' tokens

theorem steps_append (level : β → Nat) : ∀ (tokens more : List (Token α β κ)) (s : State α β),
    steps level s (tokens ++ more) = (steps level s tokens).bind fun s' => steps level s' more
  | [], _, _ => rfl
  | token :: tokens, more, s => by
    show (step level s token).bind _ = ((step level s token).bind _).bind _
    rw [Option.bind_assoc]
    congr 1
    funext s'
    exact steps_append level tokens more s'

/-! ## What waits -/

variable {level : β → Nat} {least : Nat} {b : β} {stack : List (Option β)}

/-- **The stack holds back**: its top is an opening bracket, or an operator that does not bind that tight. -/
def Holds (level : β → Nat) (least : Nat) : List (Option β) → Prop
  | some t :: _ => level t < least
  | _ => True

theorem Holds.popped_eq (h : Holds level least stack) (hb : least ≤ level b) : popped level b stack = [] := by
  match stack, h with
  | [], _ => rfl
  | none :: _, _ => rfl
  | some t :: _, h =>
    have ht : level t < least := h
    exact if_neg (by omega)

theorem Holds.kept_eq (h : Holds level least stack) (hb : least ≤ level b) : kept level b stack = stack := by
  match stack, h with
  | [], _ => rfl
  | none :: _, _ => rfl
  | some t :: _, h =>
    have ht : level t < least := h
    exact if_neg (by omega)

/-- Operators that bind as tight go first. -/
theorem popped_append (h : Holds level least stack) (hb : least ≤ level b) :
    ∀ waiting : List β, (∀ t ∈ waiting, level b ≤ level t) → popped level b (waiting.map some ++ stack) = waiting
  | [], _ => h.popped_eq hb
  | t :: waiting, hall => by
    have ht := hall t List.mem_cons_self
    have ih := popped_append h hb waiting fun u hu => hall u (List.mem_cons_of_mem t hu)
    show (if level b ≤ level t then t :: popped level b (waiting.map some ++ stack) else []) = t :: waiting
    rw [if_pos ht, ih]

theorem kept_append (h : Holds level least stack) (hb : least ≤ level b) :
    ∀ waiting : List β, (∀ t ∈ waiting, level b ≤ level t) → kept level b (waiting.map some ++ stack) = stack
  | [], _ => h.kept_eq hb
  | t :: waiting, hall => by
    have ht := hall t List.mem_cons_self
    have ih := kept_append h hb waiting fun u hu => hall u (List.mem_cons_of_mem t hu)
    show (if level b ≤ level t then kept level b (waiting.map some ++ stack) else _) = stack
    rw [if_pos ht, ih]

theorem untilOpen_append : ∀ waiting : List β,
    untilOpen (waiting.map some ++ none :: stack) = some (waiting, stack)
  | [] => rfl
  | t :: waiting => by
    show (untilOpen (waiting.map some ++ none :: stack)).map _ = _
    rw [untilOpen_append waiting]
    rfl

/-- **An expression is read**: it is written but for some operators, which bind tight enough and wait on the stack in
    the order in which they will be written. -/
theorem steps_inOrder : ∀ (t : ExprTree α β κ) (least : Nat) (stack : List (Option β)) (written : List (Item α β)),
    t.Fits level least → Holds level least stack →
    ∃ (more : List (Item α β)) (waiting : List β),
      steps level ⟨stack, written⟩ t.inOrder = some ⟨waiting.map some ++ stack, written ++ more⟩ ∧
        more ++ waiting.map .operator = t.postOrder ∧ ∀ u ∈ waiting, least ≤ level u
  | .leaf a, _, _, written, _, _ => ⟨[.operand a], [], rfl, rfl, fun _ h => absurd h List.not_mem_nil⟩
  | .bracket k inner, least, stack, written, hfits, _ => by
    obtain ⟨more, waiting, hsteps, hpost, -⟩ :=
      steps_inOrder inner 0 (none :: stack) written hfits trivial
    refine ⟨more ++ waiting.map .operator, [], ?_, ?_, fun _ h => absurd h List.not_mem_nil⟩
    · show (some (⟨none :: stack, written⟩ : State α β)).bind
        (fun s => steps level s (inner.inOrder ++ [.closes k])) = _
      rw [Option.bind_some, steps_append, hsteps]
      show (untilOpen (waiting.map some ++ none :: stack)).map _ >>= _ = _
      rw [untilOpen_append]
      show some (⟨stack, written ++ more ++ waiting.map .operator⟩ : State α β) = _
      rw [List.append_assoc]
      rfl
    · rw [hpost]
      exact List.append_nil _
  | .node b left right, least, stack, written, hfits, hholds => by
    obtain ⟨hlevel, hleft, hright⟩ := hfits
    have hholds' : Holds level (level b) stack := by
      match stack, hholds with
      | [], _ => exact trivial
      | none :: _, _ => exact trivial
      | some u :: _, hu =>
        have hu' : level u < least := hu
        exact Nat.lt_of_lt_of_le hu' hlevel
    obtain ⟨moreL, waitingL, hstepsL, hpostL, htightL⟩ := steps_inOrder left _ _ written hleft hholds'
    -- the operators of the left side go first, and no other
    have hpopped := popped_append hholds' (Nat.le_refl _) waitingL htightL
    have hkept := kept_append hholds' (Nat.le_refl _) waitingL htightL
    have hnext : Holds level (level b + 1) (some b :: stack) := Nat.lt_succ_self _
    obtain ⟨moreR, waitingR, hstepsR, hpostR, htightR⟩ :=
      steps_inOrder right _ _ (written ++ moreL ++ waitingL.map .operator) hright hnext
    refine ⟨moreL ++ waitingL.map .operator ++ moreR, waitingR ++ [b], ?_, ?_, ?_⟩
    · show steps level ⟨stack, written⟩ (left.inOrder ++ .operator b :: right.inOrder) = _
      rw [steps_append, hstepsL]
      show steps level ⟨some b :: kept level b (waitingL.map some ++ stack),
        written ++ moreL ++ (popped level b (waitingL.map some ++ stack)).map .operator⟩ right.inOrder = _
      rw [hkept, hpopped, hstepsR, List.map_append, List.append_assoc]
      simp only [List.append_assoc, List.map_cons, List.map_nil, List.cons_append, List.nil_append]
    · show _ = left.postOrder ++ right.postOrder ++ [.operator b]
      rw [← hpostL, ← hpostR]
      simp only [List.append_assoc, List.map_append, List.map_cons, List.map_nil]
    · intro u hu
      rcases List.mem_append.mp hu with hu | hu
      · exact Nat.le_of_lt (Nat.lt_of_le_of_lt hlevel (htightR u hu))
      · rw [List.mem_singleton.mp hu]
        exact hlevel

/-- **Infix becomes postfix**, with the operators that are left on the stack, none of which is a bracket. -/
theorem convert_inOrder (t : ExprTree α β κ) (hfits : t.Fits level 0) :
    ∃ (written : List (Item α β)) (waiting : List β),
      steps level ⟨[], []⟩ t.inOrder = some ⟨waiting.map some, written⟩ ∧
        written ++ waiting.map .operator = t.postOrder := by
  obtain ⟨more, waiting, hsteps, hpost, -⟩ := steps_inOrder t 0 [] [] hfits trivial
  rw [List.append_nil, List.nil_append] at hsteps
  exact ⟨more, waiting, hsteps, hpost⟩

end Trick.Lib.ShuntingYard
