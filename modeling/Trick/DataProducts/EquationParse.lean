/-
  The equation parser of the data products (`equationparse`).

  Data:           a string of characters; functions and constants are single characters from `0xA2` on.  The numbers are
                  of any kind, with the operations and functions of `Arith`.
  Program:        `operatorcheck`, `negcheck`, `funcsub` and `takeinput` make the string a stack of characters, `fillno`
                  takes the numbers out of it, `chkvalid` looks at the brackets and counts, `postfix` sorts the operators
                  (`toPostfix`), and `eval` computes.
  What holds of it is in `EquationValue`.
-/
import Mathlib.Data.Char

namespace Trick.EqParse

/-! ## Characters -/

def isdigit (ch : Char) : Bool := decide (48 ≤ ch.toNat ∧ ch.toNat ≤ 57)

def isalpha (ch : Char) : Bool := decide ((65 ≤ ch.toNat ∧ ch.toNat ≤ 90) ∨ (97 ≤ ch.toNat ∧ ch.toNat ≤ 122))

/-- `ch >= (char)0xA2 && ch <= (char)0xCB` -/
def isFunction (ch : Char) : Bool := decide (0xA2 ≤ ch.toNat ∧ ch.toNat ≤ 0xCB)

/-- What stands for the second operand of a function of one argument. -/
def noOperand : Char := '\xD8'

def piSymbol : Char := '\xCF'

def eSymbol : Char := '\xD6'

/-! ## `operatorcheck` -/

/-- The characters of an equation. -/
def isLegal (ch : Char) : Bool :=
  ch = '%' || decide (40 ≤ ch.toNat ∧ ch.toNat ≤ 57) || decide (65 ≤ ch.toNat ∧ ch.toNat ≤ 90) || ch = '[' || ch = ']' ||
    ch = '^' || ch = '_' || decide (97 ≤ ch.toNat ∧ ch.toNat ≤ 122) || ch = '\x7b' || ch = '\x7d' || isFunction ch ||
    ch = noOperand || ch = piSymbol || ch = eSymbol || ch = ' '

/-- **The opening bracket before a comma**: `equation[j]` and what is before it; the result is what is before the
    bracket. -/
def openBefore : Nat → List Char → Option (List Char)
  | _, [] => none
  | counter, ch :: before =>
    let counter := if ch = ')' then counter + 1 else if ch = '(' then counter - 1 else counter
    if counter = 0 then some before
    else if before.length < 3 then none
    else openBefore counter before

/-- A comma, with what is before it, backwards: there is an argument, and the name of a function of two. -/
def commaOk (len : Nat) (before : List Char) : Bool :=
  if len < 8 ∨ before.length < 5 ∨ len - 3 < before.length then false
  else
    match openBefore 1 (',' :: before) with
    | none => false
    | some name =>
      if before.length - name.length ≤ 1 then false
      else
        match name with
        | 'v' :: name => name.head? = some 'i' && name.tail.head? = some 'd'
        | 'a' :: _ => true
        | '2' :: name =>
          decide (¬(len < 10 ∨ before.length < 7 ∨ len - 3 < before.length)) && name.take 4 = ['n', 'a', 't', 'a']
        | _ => false

/-- A character, with what is before it, backwards, and what is after it. -/
def characterOk (len : Nat) (before : List Char) (ch : Char) (after : List Char) : Bool :=
  isLegal ch &&
    if ch = '.' then after.head?.any isdigit
    else if ch = '_' then before.head? = some 'M' && (after.head? = some 'E' || after.take 2 = ['P', 'I'])
    else if ch = ',' then commaOk len before
    else true

def charactersOk (len : Nat) : List Char → List Char → Bool
  | _, [] => true
  | before, ch :: after => characterOk len before ch after && charactersOk len (ch :: before) after

/-- **`operatorcheck`**, without an error. -/
def operatorcheck (equation : List Char) : Bool := charactersOk equation.length [] equation

/-! ## `negcheck` -/

def negcheckAfter : Char → List Char → List Char
  | _, [] => []
  | last, ch :: after =>
    if ch = '-' ∧ last = '(' then '0' :: '-' :: negcheckAfter ch after else ch :: negcheckAfter ch after

/-- **`negcheck`**: a zero before the minus after a bracket. -/
def negcheck : List Char → List Char
  | [] => []
  | ch :: after => ch :: negcheckAfter ch after

/-! ## `funcsub` -/

/-- `function_names` with `function_symbols` -/
def functionTable : List (List Char × Char) := [
  (['a', 'b', 's'], '\xA2'), (['a', 'c', 'o', 's', 'h'], '\xA4'), (['a', 'c', 'o', 's'], '\xA3'),
  (['a', 's', 'i', 'n', 'h'], '\xA7'), (['a', 's', 'i', 'n'], '\xA6'), (['a', 't', 'a', 'n', 'h'], '\xA9'),
  (['a', 't', 'a', 'n', '2'], '\xAA'), (['a', 't', 'a', 'n'], '\xA8'), (['b', 'e', 's', 'j', '0'], '\xAB'),
  (['b', 'e', 's', 'j', '1'], '\xAC'), (['b', 'e', 's', 'y', '0'], '\xAD'), (['b', 'e', 's', 'y', '1'], '\xAE'),
  (['c', 'e', 'i', 'l'], '\xAF'), (['c', 'o', 's', 'h'], '\xB2'), (['c', 'o', 's'], '\xB1'),
  (['d', 'i', 'v'], '\xCB'), (['e', 'r', 'f', 'c'], '\xB4'), (['e', 'r', 'f'], '\xB3'), (['e', 'x', 'p'], '\xB5'),
  (['f', 'l', 'o', 'o', 'r'], '\xB6'), (['g', 'a', 'm', 'm', 'a'], '\xB7'), (['i', 'n', 't'], '\xBB'),
  (['i', 'n', 'v', 'e', 'r', 'f'], '\xBC'), (['i', 'n', 'v', 'n', 'o', 'r', 'm'], '\xBD'),
  (['l', 'g', 'a', 'm', 'm', 'a'], '\xBE'), (['l', 'o', 'g', '1', '0'], '\xC0'), (['l', 'o', 'g'], '\xBF'),
  (['n', 'o', 'r', 'm'], '\xC1'), (['r', 'a', 'n', 'd'], '\xC2'), (['s', 'g', 'n'], '\xC4'),
  (['s', 'i', 'n', 'h'], '\xC6'), (['s', 'i', 'n'], '\xC5'), (['s', 'q', 'r', 't'], '\xC7'),
  (['t', 'a', 'n', 'h'], '\xC9'), (['t', 'a', 'n'], '\xC8'), (['P', 'I'], piSymbol), (['M', '_', 'P', 'I'], piSymbol),
  (['M', '_', 'E'], eSymbol)]

/-- **Where a name begins**: a letter with a letter or an underscore behind it. -/
def findName : List Char → Option (List Char × List Char)
  | ch :: next :: after =>
    if isalpha ch && (isalpha next || next = '_') then some ([], ch :: next :: after)
    else (findName (next :: after)).map fun found => (ch :: found.1, found.2)
  | _ => none

/-- What is copied up to the bracket that closes, with `counter` open before it. -/
def untilClosed : Int → List Char → Option (List Char × List Char)
  | _, [] => none
  | counter, ch :: after =>
    let counter := if ch = '(' then counter + 1 else if ch = ')' then counter - 1 else counter
    if counter = 0 then some ([ch], after)
    else (untilClosed counter after).map fun found => (ch :: found.1, found.2)

/-- What is copied up to the comma. -/
def untilComma : List Char → Option (List Char × List Char)
  | [] => none
  | ch :: after =>
    if ch = ',' then some ([], after) else (untilComma after).map fun found => (ch :: found.1, found.2)

/-- The first argument: its first character is not looked at. -/
def firstArgument : List Char → Option (List Char × List Char)
  | [] => none
  | ch :: after => (untilComma after).map fun found => (ch :: found.1, found.2)

/-- What comes of a name. -/
inductive Substituted where
  | error (eqp_errno : Nat)
  /-- One letter is a variable, and stays. -/
  | unchanged
  | changed (equation : List Char)

/-- **One substitution**: `start` is where the name begins, and `temp` is what is before it. -/
def substitute (temp start : List Char) : Substituted :=
  match functionTable.find? fun entry => entry.1.isPrefixOf start with
  | none => if start.tail.head?.any isalpha then .error 14 else .unchanged
  | some (name, func) =>
    let after := start.drop name.length
    if func = '\xAA' ∨ func = '\xCB' ∨ func = '\xB9' then
      match firstArgument after with
      | none => .error 17
      | some (first, after) =>
        match untilClosed 1 after with
        | none => .error 1
        | some (second, after) =>
          .changed (temp ++ '(' :: first ++ ')' :: func :: '(' :: second ++ ')' :: after)
    else if func = piSymbol then .changed (temp ++ func :: start.drop (if start.head? = some 'P' then 2 else 4))
    else if func = eSymbol then .changed (temp ++ func :: start.drop 3)
    else
      match untilClosed 0 after with
      | none => .error 1
      | some (argument, after) => .changed (temp ++ '(' :: argument ++ func :: noOperand :: ')' :: after)

/-- The loop of `funcsub`, which does not end if a name stays. -/
def funcsubLoop : Nat → List Char → Option (Except Nat (List Char))
  | fuel, equation =>
    match findName equation with
    | none => some (.ok equation)
    | some (temp, start) =>
      match fuel with
      | 0 => none
      | fuel + 1 =>
        match substitute temp start with
        | .error eqp_errno => some (.error eqp_errno)
        | .unchanged => none
        | .changed equation => funcsubLoop fuel equation

/-- **`funcsub`**: each substitution takes letters away. -/
def funcsub (equation : List Char) : Option (Except Nat (List Char)) :=
  funcsubLoop (equation.countP isalpha) equation

/-! ## `takeinput` and `fillno` -/

/-- The characters that are taken. -/
def isTaken (ch : Char) : Bool :=
  isalpha ch || isdigit ch || decide (40 ≤ ch.toNat ∧ ch.toNat ≤ 43) || ch = '%' || ch = '-' || ch = '/' || ch = '[' ||
    ch = ']' || ch = '^' || ch = '\x7b' || ch = '\x7d' || ch = '.' || isFunction ch || ch = noOperand || ch = piSymbol ||
    ch = eSymbol

/-- **The numbers and what is done with them.** -/
structure Arith (α : Type) where
  /-- `atof` -/
  atof : List Char → α
  /-- `ch - 48` -/
  digit : Nat → α
  atof_digit : ∀ ch, isdigit ch = true → atof [ch] = digit (ch.toNat - 48)
  pi : α
  e : α
  zero : α
  one : α
  lt : α → α → Bool
  eq : α → α → Bool
  neg : α → α
  add : α → α → α
  dif : α → α → α
  mul : α → α → α
  divide : α → α → α
  mod : α → α → α
  pow : α → α → α
  atan2 : α → α → α
  /-- `(int) x` -/
  toInt : α → Int
  ofInt : Int → α
  /-- What is computed for the symbol of a function of one argument. -/
  function : Char → α → α

variable {α : Type}

/-- `sizeof(numstr) - 1` -/
def maxNumber : Nat := 63

/-- What `fillno` makes of the digits that it has read and the character behind them. -/
def fillToken (arith : Arith α) (value : α) (tmpNo : List Char) (ch : Char) : List α × List Char :=
  if tmpNo ≠ [] then
    if !isdigit ch && !isalpha ch && ch ≠ '.' then ([arith.atof (tmpNo.take maxNumber)], ['N', ch])
    else ([arith.atof ((tmpNo ++ [ch]).take maxNumber)], ['N'])
  else if isdigit ch then ([arith.digit (ch.toNat - 48)], ['N'])
  else if isalpha ch then ([value], ['N'])
  else if ch = piSymbol then ([arith.pi], ['N'])
  else if ch = eSymbol then ([arith.e], ['N'])
  else ([], [ch])

/-- **`fillno`**: the numbers, and the stack with an `N` for each of them. -/
def fillno (arith : Arith α) (value : α) : List Char → List Char → List α × List Char
  | _, [] => ([], [])
  | tmpNo, ch :: stk =>
    if stk ≠ [] ∧ (isdigit ch = true ∨ ch = '.') then fillno arith value (tmpNo ++ [ch]) stk
    else
      let token := fillToken arith value tmpNo ch
      let rest := fillno arith value [] stk
      (token.1 ++ rest.1, token.2 ++ rest.2)

/-! ## `chkvalid` -/

/-- The operators of `chkvalid` and `postfix`. -/
def isOperator (ch : Char) : Bool :=
  ch = '*' || ch = '+' || ch = '-' || ch = '/' || ch = '%' || ch = '^' || isFunction ch

/-- The error of a bracket that closes, with what is on the stack of brackets. -/
def braceError (ch : Char) (brace : List Char) : Nat :=
  match brace.head? with
  | some '(' => 1
  | some '[' => 2
  | some '\x7b' => 3
  | _ => if ch = ')' then 23 else if ch = ']' then 24 else 25

/-- The bracket that opens for one that closes. -/
def opening (ch : Char) : Char := if ch = ')' then '(' else if ch = ']' then '[' else '\x7b'

def chkvalidLoop : Int → List Char → List Char → Option Nat
  | counter, brace, [] =>
    match brace with
    | '(' :: _ => some 1
    | '\x7b' :: _ => some 3
    | _ :: _ => some 2
    | [] => if 1 < counter then some 4 else if counter < 1 then some 5 else none
  | counter, brace, ch :: temp =>
    if ch = 'N' ∨ ch = noOperand then chkvalidLoop (counter + 1) brace temp
    else if isOperator ch then chkvalidLoop (counter - 1) brace temp
    else if ch = ')' ∨ ch = ']' ∨ ch = '\x7d' then
      if brace.head? = some (opening ch) then chkvalidLoop counter brace.tail temp else some (braceError ch brace)
    else chkvalidLoop counter (ch :: brace) temp

/-- **`chkvalid`**: the error, if there is one. -/
def chkvalid (stk : List Char) : Option Nat := chkvalidLoop 0 [] stk

/-! ## `postfix` -/

/-- **The precedence**, of `ch1` over `ch2`. -/
def great (ch1 ch2 : Char) : Bool :=
  if ch1 = '(' ∧ ch2 ≠ '(' then false
  else if ch1 = '^' then true
  else if isFunction ch1 then true
  else if (ch1 = '*' ∨ ch1 = '/' ∨ ch1 = '%') ∧ ch2 ≠ '^' ∧ isFunction ch2 = false then true
  else if (ch1 = '+' ∨ ch1 = '-') ∧ (ch2 = '-' ∨ ch2 = '+') then true
  else if (ch1 = '*' ∨ ch1 = '/' ∨ ch1 = '%') ∧ (ch2 = '/' ∨ ch2 = '*' ∨ ch2 = '%') then true
  else false

/-- The operators that go before the next, and those that stay. -/
def popGreat (ch : Char) : List Char → List Char × List Char
  | [] => ([], [])
  | ch2 :: oprnd => if great ch2 ch then (ch2 :: (popGreat ch oprnd).1, (popGreat ch oprnd).2) else ([], ch2 :: oprnd)

/-- The operators up to an opening bracket; without one the loop does not end. -/
def popBracket : List Char → Option (List Char × List Char)
  | [] => none
  | ch2 :: oprnd =>
    if ch2 = '(' then some ([], oprnd) else (popBracket oprnd).map fun found => (ch2 :: found.1, found.2)

/-- `oprnd`, and `temp` as it is at the end. -/
def toPostfixLoop : List Char → List Char → List Char → Option (List Char)
  | oprnd, temp, [] => some (temp ++ oprnd)
  | oprnd, temp, ch :: stk =>
    if ch = 'N' ∨ ch = noOperand then toPostfixLoop oprnd (temp ++ [ch]) stk
    else if isOperator ch then toPostfixLoop (ch :: (popGreat ch oprnd).2) (temp ++ (popGreat ch oprnd).1) stk
    else if ch = ')' ∨ ch = ']' ∨ ch = '\x7d' then
      (popBracket oprnd).bind fun found => toPostfixLoop found.2 (temp ++ found.1) stk
    else toPostfixLoop ('(' :: oprnd) temp stk

/-- **`postfix`** -/
def toPostfix (stk : List Char) : Option (List Char) := toPostfixLoop [] [] stk

/-! ## `eval` -/

/-- **The variables of `eval`.** -/
structure Registers (α : Type) where
  no : List α
  nos : List α
  x : α
  y : α
  z : α
  eqp_errno : Nat

/-- What happens at an operator. -/
inductive Computed (α : Type) where
  | value (z : α)
  /-- It returns, with an error. -/
  | error (eqp_errno : Nat)
  /-- `ldiv` by zero -/
  | trap
  deriving DecidableEq

/-- The operators with two operands, `x` and `y`. -/
def isBinary (ch : Char) : Bool :=
  !(decide (0xA2 ≤ ch.toNat ∧ ch.toNat ≤ 0xCA) && ch ≠ '\xAA' && ch ≠ '\xCB' && ch ≠ '\xB9')

/-- The domain of a function of one argument, by its symbol. -/
def domainError (arith : Arith α) (ch : Char) (y : α) : Option Nat :=
  let le (a b : α) : Bool := arith.lt a b || arith.eq a b
  if ch = '\xA9' then if arith.lt arith.one y || arith.lt y (arith.neg arith.one) then some 11 else none
  else if ch = '\xAD' then if le y arith.zero then some 8 else none
  else if ch = '\xAE' then if le y arith.zero then some 18 else none
  else if ch = '\xBC' then if le y (arith.neg arith.one) || le arith.one y then some 19 else none
  else if ch = '\xBD' then if le y arith.zero || le arith.one y then some 16 else none
  else if ch = '\xBF' then if le y arith.zero then some 21 else none
  else if ch = '\xC0' then if le y arith.zero then some 20 else none
  else none

/-- The symbols of the functions of one argument that `eval` knows. -/
def unarySymbols : List Char := [
  '\xA2', '\xA3', '\xA4', '\xA6', '\xA7', '\xA8', '\xA9', '\xAB', '\xAC', '\xAD', '\xAE', '\xAF', '\xB1', '\xB2',
  '\xB3', '\xB4', '\xB5', '\xB6', '\xB7', '\xBB', '\xBC', '\xBD', '\xBE', '\xBF', '\xC0', '\xC1', '\xC2', '\xC4',
  '\xC5', '\xC6', '\xC7', '\xC8', '\xC9']

/-- **The `switch` of `eval`**; a symbol that it does not know leaves `z`. -/
def compute (arith : Arith α) (ch : Char) (x y z : α) : Computed α :=
  if ch = '+' then .value (arith.add x y)
  else if ch = '-' then .value (arith.dif x y)
  else if ch = '*' then .value (arith.mul x y)
  else if ch = '/' then if arith.eq y arith.zero then .error 6 else .value (arith.divide x y)
  else if ch = '^' then .value (arith.pow x y)
  else if ch = '%' then .value (arith.mod x y)
  else if ch = '\xAA' then .value (arith.atan2 x y)
  else if ch = '\xCB' then
    if arith.toInt y = 0 then .trap else .value (arith.ofInt ((arith.toInt x).tdiv (arith.toInt y)))
  else if ch ∈ unarySymbols then
    match domainError arith ch y with
    | some eqp_errno => .error eqp_errno
    | none => .value (arith.function ch y)
  else .value z

/-- `pop1`: a stack that is empty is an error, and leaves the variable. -/
def pop1 (stk : List α) (v : α) (eqp_errno : Nat) : List α × α × Nat :=
  match stk with
  | [] => ([], v, 13)
  | a :: stk => (stk, a, eqp_errno)

/-- How `eval` ends. -/
inductive Evaluated (α : Type) where
  | trap
  | returns (eqp_errno : Nat) (z : α)
  deriving DecidableEq

/-- **`eval`** -/
def eval (arith : Arith α) : List Char → Registers α → Evaluated α
  | [], r =>
    let popped := pop1 r.nos r.z r.eqp_errno
    .returns popped.2.2 popped.2.1
  | ch :: stk, r =>
    if ch = 'N' then
      let popped := pop1 r.no r.x r.eqp_errno
      eval arith stk { r with no := popped.1, nos := popped.2.1 :: r.nos, x := popped.2.1, eqp_errno := popped.2.2 }
    else if ch = noOperand then eval arith stk r
    else
      let y := pop1 r.nos r.y r.eqp_errno
      let x := if isBinary ch then pop1 y.1 r.x y.2.2 else (y.1, arith.zero, y.2.2)
      match compute arith ch x.2.1 y.2.1 r.z with
      | .trap => .trap
      | .error eqp_errno => .returns eqp_errno arith.zero
      | .value z => eval arith stk { r with nos := z :: x.1, x := x.2.1, y := y.2.1, z := z, eqp_errno := x.2.2 }

/-! ## `equationparse` -/

/-- How `equationparse` ends: it does not, or with `eqp_errno` and what it has written to `value_out`. -/
inductive Ended (α : Type) where
  | hangs
  | trap
  | returns (eqp_errno : Nat) (valueOut : Option α)
  deriving DecidableEq

/-- What is computed from a stack of characters in postfix. -/
def evaluate (arith : Arith α) (value : α) (no : List α) (input : List Char) : Ended α :=
  match eval arith input ⟨no, [], arith.zero, arith.zero, arith.zero, 0⟩ with
  | .trap => .trap
  | .returns eqp_errno z => .returns eqp_errno (some (if eqp_errno = 0 then z else value))

/-- **`equationparse`** -/
def equationparse (arith : Arith α) (str : List Char) (value : α) : Ended α :=
  if str = [] then .returns 22 none
  else if !operatorcheck str then .returns 15 none
  else
    match funcsub (negcheck str) with
    | none => .hangs
    | some (.error eqp_errno) => .returns eqp_errno none
    | some (.ok equation) =>
      let input := equation.filter isTaken
      if input = [] then evaluate arith value [] []
      else
        let filled := fillno arith value [] input
        match chkvalid filled.2 with
        | some eqp_errno => .returns eqp_errno none
        | none =>
          match toPostfix filled.2 with
          | none => .hangs
          | some input => evaluate arith value filled.1 input

end Trick.EqParse
