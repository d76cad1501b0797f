/-
  The expressions that the equation parser is for.

  Data:           numbers, variables of one letter, constants, negations behind a round bracket, three kinds of brackets,
                  operators, and functions of one and of two arguments.
  Specification:  what an expression is worth (`Expr.value`), and how it is written (`Expr.text`), with as many brackets
                  as the levels of the operators ask for (`Expr.Ok`).
  Program:        `EquationParse`; each pass over the text of an expression makes what it should of it.
-/
import Mathlib
import Trick.DataProducts.EquationParse

namespace Trick.EqParse

/-! ## Expressions -/

inductive Op where
  | add
  | dif
  | mul
  | divide
  | mod
  | pow
  deriving DecidableEq, Repr

def Op.char : Op → Char
  | add => '+'
  | dif => '-'
  | mul => '*'
  | divide => '/'
  | mod => '%'
  | pow => '^'

/-- **How tight an operator binds**; those of one level group from the left, powers as well. -/
def Op.level : Op → Nat
  | add | dif => 1
  | mul | divide | mod => 2
  | pow => 3

inductive Bracket where
  | round
  | square
  | curly
  deriving DecidableEq, Repr

def Bracket.opens : Bracket → Char
  | round => '('
  | square => '['
  | curly => '\x7b'

def Bracket.closes : Bracket → Char
  | round => ')'
  | square => ']'
  | curly => '\x7d'

/-- **A function of one argument**; `rand` is none, for it does not depend on its argument alone. -/
structure Function where
  name : List Char
  symbol : Char
  listed : (name, symbol) ∈ functionTable
  unary : symbol ∈ unarySymbols
  pure : symbol ≠ '\xC2'

/-- The functions of two arguments. -/
inductive Function2 where
  | atan2
  | div
  deriving DecidableEq, Repr

def Function2.name : Function2 → List Char
  | atan2 => ['a', 't', 'a', 'n', '2']
  | div => ['d', 'i', 'v']

def Function2.symbol : Function2 → Char
  | atan2 => '\xAA'
  | div => '\xCB'

inductive Expr where
  | number (digits : List Char)
  | letter (name : Char)
  | pi
  | mPi
  | mE
  | negated (r : Expr)
  | bracket (k : Bracket) (e : Expr)
  | binary (op : Op) (l r : Expr)
  | call (f : Function) (a : Expr)
  | call2 (f : Function2) (a b : Expr)

variable {α : Type}

/-! ## What an expression is worth -/

/-- The first error counts. -/
def Computed.bind {β : Type} (c : Computed α) (f : α → Computed β) : Computed β :=
  match c with
  | .value a => f a
  | .error eqp_errno => .error eqp_errno
  | .trap => .trap

def Op.apply (arith : Arith α) (op : Op) (x y : α) : Computed α :=
  match op with
  | add => .value (arith.add x y)
  | dif => .value (arith.dif x y)
  | mul => .value (arith.mul x y)
  | divide => if arith.eq y arith.zero then .error 6 else .value (arith.divide x y)
  | mod => .value (arith.mod x y)
  | pow => .value (arith.pow x y)

def Function.apply (arith : Arith α) (f : Function) (y : α) : Computed α :=
  match domainError arith f.symbol y with
  | some eqp_errno => .error eqp_errno
  | none => .value (arith.function f.symbol y)

def Function2.apply (arith : Arith α) (f : Function2) (x y : α) : Computed α :=
  match f with
  | atan2 => .value (arith.atan2 x y)
  | div =>
    if arith.toInt y = 0 then .trap else .value (arith.ofInt ((arith.toInt x).tdiv (arith.toInt y)))

/-- **The value of an expression**, where every variable has the same. -/
def Expr.value (arith : Arith α) (x : α) : Expr → Computed α
  | number digits => .value (arith.atof digits)
  | letter _ => .value x
  | pi | mPi => .value arith.pi
  | mE => .value arith.e
  | negated r => (r.value arith x).bind fun y => .value (arith.dif (arith.atof ['0']) y)
  | bracket _ e => e.value arith x
  | binary op l r => (l.value arith x).bind fun a => (r.value arith x).bind fun b => op.apply arith a b
  | call f a => (a.value arith x).bind fun y => f.apply arith y
  | call2 f a b => (a.value arith x).bind fun v => (b.value arith x).bind fun w => f.apply arith v w

/-! ## How an expression is written -/

/-- **The text**: with a zero or nothing before the minus of a negation, and with the names of the functions, or as
    `funcsub` writes them. -/
def Expr.text (zero : List Char) (substituted : Bool) : Expr → List Char
  | number digits => digits
  | letter name => [name]
  | pi => if substituted then [piSymbol] else ['P', 'I']
  | mPi => if substituted then [piSymbol] else ['M', '_', 'P', 'I']
  | mE => if substituted then [eSymbol] else ['M', '_', 'E']
  | negated r => zero ++ '-' :: r.text zero substituted
  | bracket k e => k.opens :: (e.text zero substituted ++ [k.closes])
  | binary op l r => l.text zero substituted ++ op.char :: r.text zero substituted
  | call f a =>
    if substituted then '(' :: '(' :: (a.text zero substituted ++ [')', f.symbol, noOperand, ')'])
    else f.name ++ '(' :: (a.text zero substituted ++ [')'])
  | call2 f a b =>
    if substituted then
      '(' :: '(' :: (a.text zero substituted ++ ')' :: f.symbol :: '(' :: (b.text zero substituted ++ [')', ')']))
    else f.name ++ '(' :: (a.text zero substituted ++ ',' :: (b.text zero substituted ++ [')']))

/-- Digits and points, with a digit behind each point. -/
def IsNumber : List Char → Prop
  | [] => True
  | ch :: rest => (isdigit ch = true ∨ (ch = '.' ∧ rest.head?.any isdigit = true)) ∧ IsNumber rest

/-- There is no function of two arguments in it. -/
def Expr.NoComma : Expr → Prop
  | number _ | letter _ | pi | mPi | mE => True
  | negated r => r.NoComma
  | bracket _ e => e.NoComma
  | binary _ l r => l.NoComma ∧ r.NoComma
  | call _ a => a.NoComma
  | call2 _ _ _ => False

/-- **An expression with its brackets**, where operators of `least` at least may stand, and a negation only if a round
    bracket has just been `opened`.  The first of two arguments ends with the first comma. -/
def Expr.Ok (opened : Bool) (least : Nat) : Expr → Prop
  | number digits => digits ≠ [] ∧ IsNumber digits ∧ digits.length ≤ maxNumber
  | letter name => isalpha name = true
  | pi | mPi | mE => True
  | negated r => opened = true ∧ least ≤ 1 ∧ r.Ok false 2
  | bracket k e => e.Ok (k = .round) 0
  | binary op l r => least ≤ op.level ∧ l.Ok opened op.level ∧ r.Ok false (op.level + 1)
  | call _ a => a.Ok true 0
  | call2 _ a b => a.NoComma ∧ a.Ok true 0 ∧ b.Ok false 0

/-! ## Brackets match -/

/-- **Round brackets match.** -/
inductive Balanced : List Char → Prop
  | nil : Balanced []
  | plain (ch : Char) {s : List Char} (hopens : ch ≠ '(') (hcloses : ch ≠ ')') (h : Balanced s) : Balanced (ch :: s)
  | round {s t : List Char} (hs : Balanced s) (ht : Balanced t) : Balanced ('(' :: (s ++ ')' :: t))

theorem Balanced.append {s t : List Char} (hs : Balanced s) (ht : Balanced t) : Balanced (s ++ t) := by
  induction hs with
  | nil => exact ht
  | plain ch hopens hcloses _ ih => exact .plain ch hopens hcloses ih
  | @round s u hs _ _ ih =>
    have happend : '(' :: (s ++ ')' :: u) ++ t = '(' :: (s ++ ')' :: (u ++ t)) := by simp
    rw [happend]
    exact .round hs ih

theorem balanced_of_all {s : List Char} (h : ∀ ch ∈ s, ch ≠ '(' ∧ ch ≠ ')') : Balanced s := by
  induction s with
  | nil => exact .nil
  | cons ch s ih =>
    have hch := h ch List.mem_cons_self
    exact .plain ch hch.1 hch.2 (ih fun c hc => h c (List.mem_cons_of_mem ch hc))

/-- In round brackets. -/
theorem Balanced.inside {s : List Char} (hs : Balanced s) : Balanced ('(' :: (s ++ [')'])) := .round hs .nil

/-- Nothing in a number, in a name, or in a symbol is a round bracket. -/
theorem isNumber_ne {digits : List Char} (h : IsNumber digits) : ∀ ch ∈ digits, ch ≠ '(' ∧ ch ≠ ')' := by
  induction digits with
  | nil => exact fun _ h => absurd h List.not_mem_nil
  | cons d digits ih =>
    intro ch hch
    rcases List.mem_cons.mp hch with rfl | hch
    · constructor <;> rintro rfl <;> rcases h.1 with hd | ⟨hd, -⟩ <;> revert hd <;> decide
    · exact ih h.2 ch hch

theorem functionTable_ne : ∀ entry ∈ functionTable,
    (∀ ch ∈ entry.1, ch ≠ '(' ∧ ch ≠ ')') ∧ entry.2 ≠ '(' ∧ entry.2 ≠ ')' := by
  have hall : (functionTable.all fun entry =>
      entry.1.all (fun ch => ch ≠ '(' && ch ≠ ')') && (entry.2 ≠ '(' && entry.2 ≠ ')')) = true := by
    decide +kernel
  intro entry hentry
  have hone := List.all_eq_true.mp hall entry hentry
  simpa [List.all_eq_true] using hone

theorem Function2.listed (f : Function2) : (f.name, f.symbol) ∈ functionTable := by
  cases f <;> decide

theorem Op.char_ne (op : Op) : op.char ≠ '(' ∧ op.char ≠ ')' := by
  cases op <;> decide

/-- **The brackets of an expression match.** -/
theorem balanced_text {zero : List Char} (hzero : ∀ ch ∈ zero, ch ≠ '(' ∧ ch ≠ ')') (substituted : Bool) :
    ∀ (e : Expr) {opened : Bool} {least : Nat}, e.Ok opened least → Balanced (e.text zero substituted)
  | .number digits, _, _, hok => balanced_of_all (isNumber_ne hok.2.1)
  | .letter name, _, _, hok => by
    have hname : isalpha name = true := hok
    refine balanced_of_all ?_
    intro ch hch
    rw [List.mem_singleton.mp hch]
    constructor <;> rintro rfl <;> revert hname <;> decide
  | .pi, _, _, _ => by
    cases substituted with
    | false => exact balanced_of_all (s := ['P', 'I']) (by simp)
    | true => exact balanced_of_all (s := [piSymbol]) (by simp [piSymbol])
  | .mPi, _, _, _ => by
    cases substituted with
    | false => exact balanced_of_all (s := ['M', '_', 'P', 'I']) (by simp)
    | true => exact balanced_of_all (s := [piSymbol]) (by simp [piSymbol])
  | .mE, _, _, _ => by
    cases substituted with
    | false => exact balanced_of_all (s := ['M', '_', 'E']) (by simp)
    | true => exact balanced_of_all (s := [eSymbol]) (by simp [eSymbol])
  | .negated r, _, _, hok =>
    (balanced_of_all hzero).append (.plain _ (by decide) (by decide) (balanced_text hzero substituted r hok.2.2))
  | .bracket k e, _, _, hok => by
    have ih := balanced_text hzero substituted e hok
    cases k with
    | round => exact ih.inside
    | square => exact .plain _ (by decide) (by decide) (ih.append (.plain _ (by decide) (by decide) .nil))
    | curly => exact .plain _ (by decide) (by decide) (ih.append (.plain _ (by decide) (by decide) .nil))
  | .binary op l r, _, _, hok =>
    (balanced_text hzero substituted l hok.2.1).append
      (.plain _ op.char_ne.1 op.char_ne.2 (balanced_text hzero substituted r hok.2.2))
  | .call f a, _, _, hok => by
    have ih := balanced_text hzero substituted a hok
    have hname := functionTable_ne _ f.listed
    cases substituted with
    | false => exact (balanced_of_all hname.1).append ih.inside
    | true =>
      have hinner := ih.inside.append
        (.plain f.symbol hname.2.1 hname.2.2 (.plain noOperand (by decide) (by decide) .nil))
      have houter := hinner.inside
      simpa [Expr.text] using houter
  | .call2 f a b, _, _, hok => by
    have iha := balanced_text hzero substituted a hok.2.1
    have ihb := balanced_text hzero substituted b hok.2.2
    have hname := functionTable_ne _ f.listed
    cases substituted with
    | false =>
      have hinner := (iha.append (.plain ',' (by decide) (by decide) ihb)).inside
      have houter := (balanced_of_all hname.1).append hinner
      simpa [Expr.text] using houter
    | true =>
      have hinner := iha.inside.append (.plain f.symbol hname.2.1 hname.2.2 ihb.inside)
      have houter := hinner.inside
      simpa [Expr.text] using houter

end Trick.EqParse
