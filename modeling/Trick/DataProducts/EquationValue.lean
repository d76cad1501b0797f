/-
  The equation parser computes what an expression is worth.

  Program:        `fillno`, `chkvalid`, `postfix` and `eval` of `EquationParse`.
  Specification:  `Expr.value`.
  Result:         `equationparse_text`: the text of every expression is accepted, and the result is its value, or the
                  first error on the way to it.
  The operators are sorted as in `Lib.ShuntingYard`.
-/
import Trick.Lib.ShuntingYard
import Trick.DataProducts.EquationText

namespace Trick.EqParse

open Trick.Lib.ShuntingYard

variable {α : Type}

/-! ## The tokens of an expression -/

/-- An operand: a number, or nothing, beside a function of one argument. -/
inductive Operand where
  | number
  | nothing

def Operand.char : Operand → Char
  | number => 'N'
  | nothing => noOperand

/-- The characters that `postfix` sorts. -/
abbrev Operator := { ch : Char // isOperator ch = true }

def Op.operator (op : Op) : Operator := ⟨op.char, by cases op <;> decide⟩

theorem isOperator_symbols : ∀ ch ∈ '\xAA' :: '\xCB' :: unarySymbols, isOperator ch = true := by
  have hall : (('\xAA' :: '\xCB' :: unarySymbols).all isOperator) = true := by
    decide +kernel
  exact fun ch hch => List.all_eq_true.mp hall ch hch

def Function.operator (f : Function) : Operator :=
  ⟨f.symbol, isOperator_symbols f.symbol (List.mem_cons_of_mem _ (List.mem_cons_of_mem _ f.unary))⟩

def Function2.operator (f : Function2) : Operator := ⟨f.symbol, by cases f <;> decide⟩

/-- **The tree of an expression**, as `postfix` sees it: a function is an operator in brackets. -/
def Expr.tree : Expr → ExprTree Operand Operator Bracket
  | number _ | letter _ | pi | mPi | mE => .leaf .number
  | negated r => .node Op.dif.operator (.leaf .number) r.tree
  | bracket k e => .bracket k e.tree
  | binary op l r => .node op.operator l.tree r.tree
  | call f a => .bracket .round (.node f.operator (.bracket .round a.tree) (.leaf .nothing))
  | call2 f a b => .bracket .round (.node f.operator (.bracket .round a.tree) (.bracket .round b.tree))

def tokenChar : Token Operand Operator Bracket → Char
  | .operand a => a.char
  | .operator b => b.val
  | .opens k => k.opens
  | .closes k => k.closes

def itemChar : Item Operand Operator → Char
  | .operand a => a.char
  | .operator b => b.val

/-- What `fillno` leaves. -/
def Expr.tokens (e : Expr) : List Char := e.tree.inOrder.map tokenChar

/-- The numbers of an expression. -/
def Expr.numbers (arith : Arith α) (x : α) : Expr → List α
  | number digits => [arith.atof digits]
  | letter _ => [x]
  | pi | mPi => [arith.pi]
  | mE => [arith.e]
  | negated r => arith.atof ['0'] :: r.numbers arith x
  | bracket _ e => e.numbers arith x
  | binary _ l r => l.numbers arith x ++ r.numbers arith x
  | call _ a => a.numbers arith x
  | call2 _ a b => a.numbers arith x ++ b.numbers arith x

/-! ## `takeinput` and `fillno` -/

theorem isTaken_of_isWord {ch : Char} (h : isWord ch = true) : isTaken ch = true := by
  simp only [isWord, Bool.or_eq_true] at h
  rcases h with h | h <;> simp [isTaken, h]

theorem isTaken_number {digits : List Char} (h : IsNumber digits) : ∀ ch ∈ digits, isTaken ch = true := by
  induction digits with
  | nil => exact fun _ h => absurd h List.not_mem_nil
  | cons d digits ih =>
    intro ch hch
    rcases List.mem_cons.mp hch with rfl | hch
    · rcases h.1 with hd | ⟨rfl, -⟩
      · exact isTaken_of_isWord (by simp [isWord, hd])
      · decide
    · exact ih h.2 ch hch

theorem isTaken_symbols : ∀ ch ∈ '\xAA' :: '\xCB' :: unarySymbols, isTaken ch = true := by
  have hall : (('\xAA' :: '\xCB' :: unarySymbols).all isTaken) = true := by
    decide +kernel
  exact fun ch hch => List.all_eq_true.mp hall ch hch

/-- **Everything is taken.** -/
theorem isTaken_text : ∀ (e : Expr) {opened : Bool} {least : Nat}, e.Ok opened least →
    ∀ ch ∈ e.text ['0'] true, isTaken ch = true
  | .number digits, _, _, hok => isTaken_number hok.2.1
  | .letter name, _, _, hok => by
    have hname : isalpha name = true := hok
    intro ch hch
    rw [List.mem_singleton.mp hch]
    exact isTaken_of_isWord (by simp [isWord, hname])
  | .pi, _, _, _ => by simp [Expr.text, isTaken]
  | .mPi, _, _, _ => by simp [Expr.text, isTaken]
  | .mE, _, _, _ => by simp [Expr.text, isTaken]
  | .negated r, _, _, hok => by
    have ih := isTaken_text r hok.2.2
    have h0 : isTaken '0' = true := by decide
    have h1 : isTaken '-' = true := by decide
    simpa [Expr.text, h0, h1] using ih
  | .bracket k e, _, _, hok => by
    have ih := isTaken_text e hok
    have hk : isTaken k.opens = true ∧ isTaken k.closes = true := by cases k <;> decide
    intro ch hch
    simp only [Expr.text, List.mem_cons, List.mem_append, List.not_mem_nil, or_false] at hch
    rcases hch with rfl | hch | rfl
    · exact hk.1
    · exact ih ch hch
    · exact hk.2
  | .binary op l r, _, _, hok => by
    have ihl := isTaken_text l hok.2.1
    have ihr := isTaken_text r hok.2.2
    have hop : isTaken op.char = true := by cases op <;> decide
    intro ch hch
    simp only [Expr.text, List.mem_cons, List.mem_append] at hch
    rcases hch with hch | rfl | hch
    · exact ihl ch hch
    · exact hop
    · exact ihr ch hch
  | .call f a, _, _, hok => by
    have ih := isTaken_text a hok
    have hf := isTaken_symbols f.symbol (List.mem_cons_of_mem _ (List.mem_cons_of_mem _ f.unary))
    intro ch hch
    simp only [Expr.text, if_true, List.mem_cons, List.mem_append, List.not_mem_nil, or_false] at hch
    rcases hch with rfl | rfl | hch | rfl | rfl | rfl | rfl
    · decide
    · decide
    · exact ih ch hch
    · decide
    · exact hf
    · decide
    · decide
  | .call2 f a b, _, _, hok => by
    have iha := isTaken_text a hok.2.1
    have ihb := isTaken_text b hok.2.2
    have hf : isTaken f.symbol = true := by cases f <;> decide
    intro ch hch
    simp only [Expr.text, if_true, List.mem_cons, List.mem_append, List.not_mem_nil, or_false] at hch
    rcases hch with rfl | rfl | hch | rfl | rfl | rfl | hch | rfl | rfl
    · decide
    · decide
    · exact iha ch hch
    · decide
    · exact hf
    · decide
    · exact ihb ch hch
    · decide
    · decide

/-- A character that is no part of a number. -/
def IsPlain (ch : Char) : Prop :=
  isdigit ch = false ∧ isalpha ch = false ∧ ch ≠ '.' ∧ ch ≠ piSymbol ∧ ch ≠ eSymbol

theorem fillno_plain (arith : Arith α) (x : α) {ch : Char} (h : IsPlain ch) (stk : List Char) :
    fillno arith x [] (ch :: stk) = ((fillno arith x [] stk).1, ch :: (fillno arith x [] stk).2) := by
  obtain ⟨hdigit, halpha, hpoint, hpi, he⟩ := h
  rw [fillno, if_neg (by simp [hdigit, hpoint])]
  simp [fillToken, hdigit, halpha, hpi, he]

/-- **A number**, with what has been read of it. -/
theorem fillno_number (arith : Arith α) (x : α) : ∀ (digits tmpNo after : List Char), digits ≠ [] →
    IsNumber digits → (tmpNo ++ digits).length ≤ maxNumber → (∀ ch ∈ after.head?, IsPlain ch) →
    fillno arith x tmpNo (digits ++ after) =
      (arith.atof (tmpNo ++ digits) :: (fillno arith x [] after).1, 'N' :: (fillno arith x [] after).2)
  | [], _, _, hne, _, _, _ => absurd rfl hne
  | [d], tmpNo, [], _, hnumber, hlength, _ => by
    have hd : isdigit d = true := hnumber.1.resolve_right fun h => by
      have hnext := h.2
      cases hnext
    have hlast : fillno arith x tmpNo [d] =
        ((fillToken arith x tmpNo d).1 ++ [], (fillToken arith x tmpNo d).2 ++ []) := if_neg (by simp)
    show fillno arith x tmpNo [d] = _
    rw [hlast]
    by_cases htmp : tmpNo = []
    · subst htmp
      simp [fillToken, hd, fillno, arith.atof_digit d hd]
    · simp [fillToken, htmp, hd, fillno, List.take_of_length_le hlength]
  | [d], tmpNo, ch :: after, _, hnumber, hlength, hafter => by
    have hd : isdigit d = true := hnumber.1.resolve_right fun h => by
      have hnext := h.2
      cases hnext
    have hplain := hafter ch rfl
    obtain ⟨hdigit, halpha, hpoint, -, -⟩ := id hplain
    show fillno arith x tmpNo (d :: ch :: after) = _
    rw [fillno, if_pos ⟨List.cons_ne_nil _ _, Or.inl hd⟩, fillno_plain arith x hplain, fillno,
      if_neg (by simp [hdigit, hpoint])]
    simp [fillToken, hdigit, halpha, hpoint, List.take_of_length_le hlength]
  | d :: d2 :: digits, tmpNo, after, _, hnumber, hlength, hafter => by
    have hd : isdigit d = true ∨ d = '.' := hnumber.1.imp_right And.left
    have ih := fillno_number arith x (d2 :: digits) (tmpNo ++ [d]) after (List.cons_ne_nil _ _)
      hnumber.2 (by simpa using hlength) hafter
    show fillno arith x tmpNo (d :: (d2 :: digits ++ after)) = _
    rw [fillno, if_pos ⟨List.cons_ne_nil _ _, hd⟩, ih, List.append_assoc]
    rfl

/-- A single character that is a number. -/
theorem fillno_single (arith : Arith α) (x : α) {ch : Char} (hdigit : isdigit ch = false) (hpoint : ch ≠ '.')
    (stk : List Char) : fillno arith x [] (ch :: stk) =
      ((fillToken arith x [] ch).1 ++ (fillno arith x [] stk).1, (fillToken arith x [] ch).2 ++ (fillno arith x [] stk).2) := by
  rw [fillno, if_neg (by simp [hdigit, hpoint])]

theorem isPlain_char (op : Op) : IsPlain op.char := by
  cases op <;> exact ⟨by decide, by decide, by decide, by decide, by decide⟩

theorem isPlain_bracket (k : Bracket) : IsPlain k.opens ∧ IsPlain k.closes := by
  cases k <;> exact ⟨⟨by decide, by decide, by decide, by decide, by decide⟩,
    ⟨by decide, by decide, by decide, by decide, by decide⟩⟩

theorem isPlain_symbols : ∀ ch ∈ noOperand :: '\xAA' :: '\xCB' :: unarySymbols, IsPlain ch := by
  have hall : ((noOperand :: '\xAA' :: '\xCB' :: unarySymbols).all fun ch =>
      !isdigit ch && !isalpha ch && ch ≠ '.' && ch ≠ piSymbol && ch ≠ eSymbol) = true := by
    decide +kernel
  intro ch hch
  have hone := List.all_eq_true.mp hall ch hch
  simp only [Bool.and_eq_true, Bool.not_eq_true', decide_eq_true_eq] at hone
  exact ⟨hone.1.1.1.1, hone.1.1.1.2, hone.1.1.2, hone.1.2, hone.2⟩

/-! ### The tokens, constructor by constructor -/

theorem tokens_negated (r : Expr) : (Expr.negated r).tokens = 'N' :: '-' :: r.tokens := rfl

theorem tokens_bracket (k : Bracket) (e : Expr) : (Expr.bracket k e).tokens = k.opens :: (e.tokens ++ [k.closes]) := by
  simp [Expr.tokens, Expr.tree, ExprTree.inOrder, tokenChar]

theorem tokens_binary (op : Op) (l r : Expr) : (Expr.binary op l r).tokens = l.tokens ++ op.char :: r.tokens := by
  simp [Expr.tokens, Expr.tree, ExprTree.inOrder, tokenChar, Op.operator]

theorem tokens_call (f : Function) (a : Expr) :
    (Expr.call f a).tokens = '(' :: '(' :: (a.tokens ++ [')', f.symbol, noOperand, ')']) := by
  simp [Expr.tokens, Expr.tree, ExprTree.inOrder, tokenChar, Function.operator, Bracket.opens, Bracket.closes, Operand.char]

theorem tokens_call2 (f : Function2) (a b : Expr) : (Expr.call2 f a b).tokens =
    '(' :: '(' :: (a.tokens ++ ')' :: f.symbol :: '(' :: (b.tokens ++ [')', ')'])) := by
  simp [Expr.tokens, Expr.tree, ExprTree.inOrder, tokenChar, Function2.operator, Bracket.opens, Bracket.closes]

/-- **`fillno` finds the numbers and the tokens of an expression.** -/
theorem fillno_text (arith : Arith α) (x : α) : ∀ (e : Expr) {opened : Bool} {least : Nat} (after : List Char),
    e.Ok opened least → (∀ ch ∈ after.head?, IsPlain ch) →
    fillno arith x [] (e.text ['0'] true ++ after) =
      (e.numbers arith x ++ (fillno arith x [] after).1, e.tokens ++ (fillno arith x [] after).2)
  | .number digits, _, _, after, hok, hafter => fillno_number arith x digits [] after hok.1 hok.2.1 hok.2.2 hafter
  | .letter name, _, _, after, hok, _ => by
    have hname : isalpha name = true := hok
    have hdigit : isdigit name = false := by
      simp only [isalpha, decide_eq_true_eq] at hname
      simp only [isdigit, decide_eq_false_iff_not]
      omega
    have hpoint : name ≠ '.' := by
      rintro rfl
      revert hname
      decide
    show fillno arith x [] (name :: after) = _
    rw [fillno_single arith x hdigit hpoint]
    simp [fillToken, hdigit, hname]
    exact ⟨rfl, rfl⟩
  | .pi, _, _, after, _, _ => fillno_single arith x (by decide) (by decide) after
  | .mPi, _, _, after, _, _ => fillno_single arith x (by decide) (by decide) after
  | .mE, _, _, after, _, _ => fillno_single arith x (by decide) (by decide) after
  | .negated r, _, _, after, hok, hafter => by
    have hminus : IsPlain '-' := isPlain_char .dif
    have ih := fillno_text arith x r after hok.2.2 hafter
    have hzero := fillno_number arith x ['0'] [] ('-' :: (r.text ['0'] true ++ after)) (List.cons_ne_nil _ _)
      (by simp [IsNumber, isdigit]) (by decide) (by simpa using hminus)
    show fillno arith x [] (['0'] ++ '-' :: (r.text ['0'] true ++ after)) = _
    rw [hzero, fillno_plain arith x hminus, ih, tokens_negated]
    rfl
  | .bracket k e, _, _, after, hok, hafter => by
    obtain ⟨hopens, hcloses⟩ := isPlain_bracket k
    have ih := fillno_text arith x e (k.closes :: after) hok (by simpa using hcloses)
    have happend : (Expr.bracket k e).text ['0'] true ++ after =
        k.opens :: (e.text ['0'] true ++ k.closes :: after) := by
      simp [Expr.text]
    rw [happend, fillno_plain arith x hopens, ih, fillno_plain arith x hcloses, tokens_bracket]
    simp [Expr.numbers]
  | .binary op l r, _, _, after, hok, hafter => by
    have hop := isPlain_char op
    have ihl := fillno_text arith x l (op.char :: (r.text ['0'] true ++ after)) hok.2.1 (by simpa using hop)
    have ihr := fillno_text arith x r after hok.2.2 hafter
    have happend : (Expr.binary op l r).text ['0'] true ++ after =
        l.text ['0'] true ++ op.char :: (r.text ['0'] true ++ after) := by
      simp [Expr.text]
    rw [happend, ihl, fillno_plain arith x hop, ihr, tokens_binary]
    simp [Expr.numbers]
  | .call f a, _, _, after, hok, hafter => by
    have hopens : IsPlain '(' := (isPlain_bracket .round).1
    have hcloses : IsPlain ')' := (isPlain_bracket .round).2
    have hf := isPlain_symbols f.symbol
      (List.mem_cons_of_mem _ (List.mem_cons_of_mem _ (List.mem_cons_of_mem _ f.unary)))
    have hnone := isPlain_symbols noOperand List.mem_cons_self
    have ih := fillno_text arith x a (')' :: f.symbol :: noOperand :: ')' :: after) hok (by simpa using hcloses)
    have happend : (Expr.call f a).text ['0'] true ++ after =
        '(' :: '(' :: (a.text ['0'] true ++ ')' :: f.symbol :: noOperand :: ')' :: after) := by
      simp [Expr.text]
    rw [happend, fillno_plain arith x hopens, fillno_plain arith x hopens, ih, fillno_plain arith x hcloses,
      fillno_plain arith x hf, fillno_plain arith x hnone, fillno_plain arith x hcloses, tokens_call]
    simp [Expr.numbers]
  | .call2 f a b, _, _, after, hok, hafter => by
    have hopens : IsPlain '(' := (isPlain_bracket .round).1
    have hcloses : IsPlain ')' := (isPlain_bracket .round).2
    have hf : IsPlain f.symbol := isPlain_symbols f.symbol (by cases f <;> simp [Function2.symbol])
    have iha := fillno_text arith x a (')' :: f.symbol :: '(' :: (b.text ['0'] true ++ ')' :: ')' :: after)) hok.2.1
      (by simpa using hcloses)
    have ihb := fillno_text arith x b (')' :: ')' :: after) hok.2.2 (by simpa using hcloses)
    have happend : (Expr.call2 f a b).text ['0'] true ++ after = '(' :: '(' ::
        (a.text ['0'] true ++ ')' :: f.symbol :: '(' :: (b.text ['0'] true ++ ')' :: ')' :: after)) := by
      simp [Expr.text]
    rw [happend, fillno_plain arith x hopens, fillno_plain arith x hopens, iha, fillno_plain arith x hcloses,
      fillno_plain arith x hf, fillno_plain arith x hopens, ihb, fillno_plain arith x hcloses,
      fillno_plain arith x hcloses, tokens_call2]
    simp [Expr.numbers]

/-! ## `chkvalid` -/

theorem chkvalidLoop_operand (counter : Int) (brace temp : List Char) (a : Operand) :
    chkvalidLoop counter brace (a.char :: temp) = chkvalidLoop (counter + 1) brace temp := by
  have ha : a.char = 'N' ∨ a.char = noOperand := by cases a <;> simp [Operand.char]
  rw [chkvalidLoop, if_pos ha]

theorem isOperator_ne {ch : Char} (h : isOperator ch = true) : ¬(ch = 'N' ∨ ch = noOperand) ∧
    ¬(ch = ')' ∨ ch = ']' ∨ ch = '\x7d') ∧ ch ≠ '(' := by
  refine ⟨?_, ?_, ?_⟩
  · rintro (rfl | rfl) <;> revert h <;> decide
  · rintro (rfl | rfl | rfl) <;> revert h <;> decide
  · rintro rfl
    revert h
    decide

theorem chkvalidLoop_operator (counter : Int) (brace temp : List Char) {ch : Char} (h : isOperator ch = true) :
    chkvalidLoop counter brace (ch :: temp) = chkvalidLoop (counter - 1) brace temp := by
  rw [chkvalidLoop, if_neg (isOperator_ne h).1, if_pos h]

theorem chkvalidLoop_opens (counter : Int) (brace temp : List Char) (k : Bracket) :
    chkvalidLoop counter brace (k.opens :: temp) = chkvalidLoop counter (k.opens :: brace) temp := by
  cases k <;> rfl

theorem chkvalidLoop_closes (counter : Int) (brace temp : List Char) (k : Bracket) :
    chkvalidLoop counter (k.opens :: brace) (k.closes :: temp) = chkvalidLoop counter brace temp := by
  cases k <;> rfl

/-- **An expression counts as one operand**, and leaves the brackets as they were. -/
theorem chkvalidLoop_tree : ∀ (t : ExprTree Operand Operator Bracket) (counter : Int) (brace temp : List Char),
    chkvalidLoop counter brace (t.inOrder.map tokenChar ++ temp) = chkvalidLoop (counter + 1) brace temp
  | .leaf a, counter, brace, temp => chkvalidLoop_operand counter brace temp a
  | .node b l r, counter, brace, temp => by
    have happend : (ExprTree.node b l r).inOrder.map tokenChar ++ temp =
        l.inOrder.map tokenChar ++ b.val :: (r.inOrder.map tokenChar ++ temp) := by
      simp [ExprTree.inOrder, tokenChar]
    rw [happend, chkvalidLoop_tree l, chkvalidLoop_operator _ _ _ b.property, chkvalidLoop_tree r]
    congr 1
    omega
  | .bracket k t, counter, brace, temp => by
    have happend : (ExprTree.bracket k t).inOrder.map tokenChar ++ temp =
        k.opens :: (t.inOrder.map tokenChar ++ k.closes :: temp) := by
      simp [ExprTree.inOrder, tokenChar]
    rw [happend, chkvalidLoop_opens, chkvalidLoop_tree t, chkvalidLoop_closes]

theorem chkvalid_tokens (e : Expr) : chkvalid e.tokens = none := by
  have h := chkvalidLoop_tree e.tree 0 [] []
  rw [List.append_nil] at h
  exact h

/-! ## `postfix` -/

/-- **How tight a character binds.** -/
def charLevel (ch : Char) : Nat :=
  if ch = '+' ∨ ch = '-' then 1 else if ch = '*' ∨ ch = '/' ∨ ch = '%' then 2 else 3

def level (b : Operator) : Nat := charLevel b.val

theorem isOperator_cases {ch : Char} (h : isOperator ch = true) : (ch = '+' ∨ ch = '-') ∨
    (ch = '*' ∨ ch = '/' ∨ ch = '%') ∨ ch = '^' ∨ isFunction ch = true := by
  simp only [isOperator, Bool.or_eq_true, decide_eq_true_eq] at h
  tauto

theorem charLevel_le (ch : Char) : charLevel ch ≤ 3 := by
  unfold charLevel
  split_ifs <;> omega

theorem isFunction_ne {ch : Char} (h : isFunction ch = true) : ch ≠ '(' ∧ ¬(ch = '+' ∨ ch = '-') ∧
    ¬(ch = '*' ∨ ch = '/' ∨ ch = '%') := by
  refine ⟨?_, ?_, ?_⟩
  · rintro rfl
    revert h
    decide
  · rintro (rfl | rfl) <;> revert h <;> decide
  · rintro (rfl | rfl | rfl) <;> revert h <;> decide

/-- Nothing binds tighter than a function. -/
theorem charLevel_function {ch : Char} (h : isFunction ch = true) : charLevel ch = 3 := by
  have hne := isFunction_ne h
  unfold charLevel
  rw [if_neg hne.2.1, if_neg hne.2.2]

theorem great_function {ch1 ch2 : Char} (h : isFunction ch1 = true) : great ch1 ch2 = true := by
  unfold great
  rw [if_neg fun hboth => (isFunction_ne h).1 hboth.1, if_pos h, ite_self]

/-- A function binds tighter than an operator. -/
theorem great_before_function {ch1 ch2 : Char} (h1 : (ch1 = '+' ∨ ch1 = '-') ∨ (ch1 = '*' ∨ ch1 = '/' ∨ ch1 = '%'))
    (h2 : isFunction ch2 = true) : great ch1 ch2 = false := by
  have hne := isFunction_ne h2
  have hplus : ¬(ch2 = '-' ∨ ch2 = '+') := fun h => hne.2.1 h.symm
  have htimes : ¬(ch2 = '/' ∨ ch2 = '*' ∨ ch2 = '%') := fun h => hne.2.2 (by tauto)
  have hplain : isFunction '+' = false ∧ isFunction '-' = false ∧ isFunction '*' = false ∧ isFunction '/' = false ∧
      isFunction '%' = false := by
    decide
  rcases h1 with (rfl | rfl) | (rfl | rfl | rfl) <;> simp [great, h2, hplus, htimes, hplain]

/-- **`great` compares levels.** -/
theorem great_eq (t b : Operator) : great t.val b.val = decide (level b ≤ level t) := by
  obtain ⟨t, ht⟩ := t
  obtain ⟨b, hb⟩ := b
  show great t b = decide (charLevel b ≤ charLevel t)
  rcases isOperator_cases ht with ht | ht | rfl | ht
  · rcases isOperator_cases hb with hb | hb | rfl | hb
    · rcases ht with rfl | rfl <;> rcases hb with rfl | rfl <;> decide
    · rcases ht with rfl | rfl <;> rcases hb with rfl | rfl | rfl <;> decide
    · rcases ht with rfl | rfl <;> decide
    · rw [great_before_function (Or.inl ht) hb, charLevel_function hb]
      rcases ht with rfl | rfl <;> decide
  · rcases isOperator_cases hb with hb | hb | rfl | hb
    · rcases ht with rfl | rfl | rfl <;> rcases hb with rfl | rfl <;> decide
    · rcases ht with rfl | rfl | rfl <;> rcases hb with rfl | rfl | rfl <;> decide
    · rcases ht with rfl | rfl | rfl <;> decide
    · rw [great_before_function (Or.inr ht) hb, charLevel_function hb]
      rcases ht with rfl | rfl | rfl <;> decide
  · have hlevel : charLevel '^' = 3 := rfl
    rw [hlevel, decide_eq_true (charLevel_le b)]
    exact if_neg (fun h => absurd h.1 (by decide))
  · rw [great_function ht, charLevel_function ht, decide_eq_true (charLevel_le b)]

/-- The stack of operators, with a bracket for each that is open. -/
def stackChars (stack : List (Option Operator)) : List Char :=
  stack.map fun
    | none => '('
    | some b => b.val

theorem popGreat_eq (b : Operator) : ∀ stack : List (Option Operator), popGreat b.val (stackChars stack) =
    ((popped level b stack).map Subtype.val, stackChars (kept level b stack))
  | [] => rfl
  | none :: stack => by
    have hgreat : great '(' b.val = false := if_pos ⟨rfl, (isOperator_ne b.property).2.2⟩
    show (if great '(' b.val then _ else _) = _
    rw [hgreat]
    rfl
  | some t :: stack => by
    have ih := popGreat_eq b stack
    show (if great t.val b.val then (t.val :: (popGreat b.val (stackChars stack)).1, (popGreat b.val (stackChars stack)).2)
      else ([], t.val :: stackChars stack)) = _
    rw [ih, great_eq]
    by_cases hlevel : level b ≤ level t
    · have hpopped : popped level b (some t :: stack) = t :: popped level b stack := if_pos hlevel
      have hkept : kept level b (some t :: stack) = kept level b stack := if_pos hlevel
      rw [hpopped, hkept, decide_eq_true hlevel]
      rfl
    · have hpopped : popped level b (some t :: stack) = [] := if_neg hlevel
      have hkept : kept level b (some t :: stack) = some t :: stack := if_neg hlevel
      rw [hpopped, hkept, decide_eq_false hlevel]
      rfl

theorem popBracket_eq : ∀ stack : List (Option Operator), popBracket (stackChars stack) =
    (untilOpen stack).map fun found => (found.1.map Subtype.val, stackChars found.2)
  | [] => rfl
  | none :: _ => rfl
  | some t :: stack => by
    have ih := popBracket_eq stack
    show (if t.val = '(' then _ else (popBracket (stackChars stack)).map _) = _
    rw [if_neg (isOperator_ne t.property).2.2, ih]
    show _ = ((untilOpen stack).map _).map _
    rw [Option.map_map, Option.map_map]
    rfl

/-- **The loop does what the stack machine does.** -/
theorem toPostfixLoop_eq : ∀ (tokens : List (Token Operand Operator Bracket)) {s s' : State Operand Operator},
    steps level s tokens = some s' →
    toPostfixLoop (stackChars s.stack) (s.written.map itemChar) (tokens.map tokenChar) =
      some (s'.written.map itemChar ++ stackChars s'.stack)
  | [], _, _, h => by
    cases h
    rfl
  | token :: tokens, s, s', h => by
    have hbind : (step level s token).bind (fun s => steps level s tokens) = some s' := h
    obtain ⟨s1, hstep, hsteps⟩ := Option.bind_eq_some_iff.mp hbind
    have ih := toPostfixLoop_eq tokens hsteps
    rw [← ih]
    cases token with
    | operand a =>
      cases hstep
      have ha : a.char = 'N' ∨ a.char = noOperand := by cases a <;> simp [Operand.char]
      show toPostfixLoop _ _ (a.char :: _) = _
      rw [toPostfixLoop, if_pos ha, List.map_append]
      rfl
    | operator b =>
      cases hstep
      show toPostfixLoop _ _ (b.val :: _) = _
      rw [toPostfixLoop, if_neg (isOperator_ne b.property).1, if_pos b.property, popGreat_eq, List.map_append,
        List.map_map]
      rfl
    | opens k =>
      cases hstep
      cases k <;> rfl
    | closes k =>
      obtain ⟨found, hfound, rfl⟩ := Option.map_eq_some_iff.mp hstep
      have hk : ¬(k.closes = 'N' ∨ k.closes = noOperand) ∧ ¬isOperator k.closes = true ∧
          (k.closes = ')' ∨ k.closes = ']' ∨ k.closes = '\x7d') := by
        cases k <;> decide
      show toPostfixLoop _ _ (k.closes :: _) = _
      rw [toPostfixLoop, if_neg hk.1, if_neg hk.2.1, if_pos hk.2.2, popBracket_eq, hfound, List.map_append, List.map_map]
      rfl

/-- The levels of the operators. -/
theorem level_op (op : Op) : level op.operator = op.level := by
  cases op <;> rfl

/-- **The tree of an expression fits**, with the brackets that it has. -/
theorem fits_tree : ∀ (e : Expr) {opened : Bool} {least : Nat}, e.Ok opened least → e.tree.Fits level least
  | .number _, _, _, _ => trivial
  | .letter _, _, _, _ => trivial
  | .pi, _, _, _ => trivial
  | .mPi, _, _, _ => trivial
  | .mE, _, _, _ => trivial
  | .negated r, _, _, hok => ⟨hok.2.1, trivial, fits_tree r hok.2.2⟩
  | .bracket _ e, _, _, hok => fits_tree e hok
  | .binary op l r, _, _, hok => by
    show _ ≤ level op.operator ∧ l.tree.Fits level (level op.operator) ∧ r.tree.Fits level (level op.operator + 1)
    rw [level_op]
    exact ⟨hok.1, fits_tree l hok.2.1, fits_tree r hok.2.2⟩
  | .call _ a, _, _, hok => ⟨Nat.zero_le _, fits_tree a hok, trivial⟩
  | .call2 _ a b, _, _, hok => ⟨Nat.zero_le _, fits_tree a hok.2.1, fits_tree b hok.2.2⟩

/-- What `postfix` leaves. -/
def Expr.sorted (e : Expr) : List Char := e.tree.postOrder.map itemChar

/-- **`postfix` sorts the tokens of an expression.** -/
theorem toPostfix_tokens {e : Expr} (hok : e.Ok false 0) : toPostfix e.tokens = some e.sorted := by
  obtain ⟨written, waiting, hsteps, hpost⟩ := convert_inOrder e.tree (fits_tree e hok)
  have h := toPostfixLoop_eq e.tree.inOrder hsteps
  have hstack : stackChars (waiting.map some) = waiting.map Subtype.val := by
    unfold stackChars
    rw [List.map_map]
    rfl
  have hsorted : e.sorted = written.map itemChar ++ waiting.map Subtype.val := by
    unfold Expr.sorted
    rw [← hpost, List.map_append, List.map_map]
    rfl
  rw [hsorted, ← hstack]
  exact h

/-! ## `eval` -/

/-- **What `eval` comes to** with something computed: it goes on with the value on its stack, or it ends. -/
def Computed.Leaves (arith : Arith α) (stk : List Char) (no nos : List α) (evaluated : Evaluated α) :
    Computed α → Prop
  | .value a => ∃ x y z, evaluated = eval arith stk ⟨no, a :: nos, x, y, z, 0⟩
  | .error eqp_errno => evaluated = .returns eqp_errno arith.zero
  | .trap => evaluated = .trap

variable {arith : Arith α} {v : α}

theorem leaves_bind {stk stk' : List Char} {no no' nos nos' : List α} {evaluated : Evaluated α} {c : Computed α}
    {f : α → Computed α} (h : c.Leaves arith stk no nos evaluated)
    (hf : ∀ a x y z, (f a).Leaves arith stk' no' nos' (eval arith stk ⟨no, a :: nos, x, y, z, 0⟩)) :
    (c.bind f).Leaves arith stk' no' nos' evaluated := by
  cases c with
  | value a =>
    obtain ⟨x, y, z, rfl⟩ := h
    exact hf a x y z
  | error eqp_errno => exact h
  | trap => exact h

theorem eval_number {number : α} {no nos : List α} {x y z : α} (stk : List Char) :
    eval arith ('N' :: stk) ⟨number :: no, nos, x, y, z, 0⟩ = eval arith stk ⟨no, number :: nos, number, y, z, 0⟩ := by
  rw [eval]
  rfl

theorem eval_nothing {r : Registers α} (stk : List Char) : eval arith (noOperand :: stk) r = eval arith stk r := by
  rw [eval]
  rfl

/-- **An operator with two operands.** -/
theorem eval_binary {ch : Char} (hoperator : isOperator ch = true) (hbinary : isBinary ch = true) (stk : List Char)
    (no nos : List α) (a b x y z : α) :
    (compute arith ch a b z).Leaves arith stk no nos (eval arith (ch :: stk) ⟨no, b :: a :: nos, x, y, z, 0⟩) := by
  have hne := (isOperator_ne hoperator).1
  rw [eval, if_neg (fun h => hne (Or.inl h)), if_neg (fun h => hne (Or.inr h))]
  simp only [hbinary, if_true, pop1]
  cases compute arith ch a b z with
  | value w => exact ⟨a, b, w, rfl⟩
  | error eqp_errno => rfl
  | trap => rfl

/-- **A function of one argument.** -/
theorem eval_unary {ch : Char} (hoperator : isOperator ch = true) (hbinary : isBinary ch = false) (stk : List Char)
    (no nos : List α) (b x y z : α) :
    (compute arith ch arith.zero b z).Leaves arith stk no nos (eval arith (ch :: stk) ⟨no, b :: nos, x, y, z, 0⟩) := by
  have hne := (isOperator_ne hoperator).1
  rw [eval, if_neg (fun h => hne (Or.inl h)), if_neg (fun h => hne (Or.inr h))]
  simp only [hbinary, Bool.false_eq_true, if_false, pop1]
  cases compute arith ch arith.zero b z with
  | value w => exact ⟨arith.zero, b, w, rfl⟩
  | error eqp_errno => rfl
  | trap => rfl

theorem compute_op (op : Op) (a b z : α) : compute arith op.char a b z = op.apply arith a b := by
  cases op <;> rfl

theorem isBinary_op (op : Op) : isBinary op.char = true := by
  cases op <;> decide

theorem compute_function2 (f : Function2) (a b z : α) : compute arith f.symbol a b z = f.apply arith a b := by
  cases f <;> rfl

theorem isBinary_function2 (f : Function2) : isBinary f.symbol = true := by
  cases f <;> decide

theorem isBinary_function (f : Function) : isBinary f.symbol = false := by
  have hall : (unarySymbols.all fun ch => !isBinary ch) = true := by
    decide +kernel
  have hone := List.all_eq_true.mp hall f.symbol f.unary
  simpa using hone

theorem compute_function (f : Function) (b z : α) : compute arith f.symbol arith.zero b z = f.apply arith b := by
  have hall : (unarySymbols.all fun ch => ch ≠ '+' && ch ≠ '-' && ch ≠ '*' && ch ≠ '/' && ch ≠ '^' && ch ≠ '%' &&
      ch ≠ '\xAA' && ch ≠ '\xCB') = true := by
    decide +kernel
  have hone := List.all_eq_true.mp hall f.symbol f.unary
  simp only [Bool.and_eq_true, decide_eq_true_eq] at hone
  obtain ⟨⟨⟨⟨⟨⟨⟨h1, h2⟩, h3⟩, h4⟩, h5⟩, h6⟩, h7⟩, h8⟩ := hone
  unfold compute
  rw [if_neg h1, if_neg h2, if_neg h3, if_neg h4, if_neg h5, if_neg h6, if_neg h7, if_neg h8, if_pos f.unary]
  rfl

/-- **`eval` computes the value of an expression**, and puts it on its stack. -/
theorem eval_sorted : ∀ (e : Expr) (stk : List Char) (no nos : List α) (x y z : α),
    (e.value arith v).Leaves arith stk no nos
      (eval arith (e.sorted ++ stk) ⟨e.numbers arith v ++ no, nos, x, y, z, 0⟩)
  | .number _, stk, _, _, _, _, _ => ⟨_, _, _, eval_number stk⟩
  | .letter _, stk, _, _, _, _, _ => ⟨_, _, _, eval_number stk⟩
  | .pi, stk, _, _, _, _, _ => ⟨_, _, _, eval_number stk⟩
  | .mPi, stk, _, _, _, _, _ => ⟨_, _, _, eval_number stk⟩
  | .mE, stk, _, _, _, _, _ => ⟨_, _, _, eval_number stk⟩
  | .negated r, stk, no, nos, x, y, z => by
    have happend : (Expr.negated r).sorted ++ stk = 'N' :: (r.sorted ++ '-' :: stk) := by
      simp [Expr.sorted, Expr.tree, ExprTree.postOrder, itemChar, Op.operator, Op.char, Operand.char]
    have hr := eval_sorted r ('-' :: stk) no (arith.atof ['0'] :: nos) (arith.atof ['0']) y z
    rw [happend]
    show Computed.Leaves arith stk no nos (eval arith ('N' :: (r.sorted ++ '-' :: stk))
      ⟨arith.atof ['0'] :: (r.numbers arith v ++ no), nos, x, y, z, 0⟩) ((r.value arith v).bind _)
    rw [eval_number]
    have hoperator : isOperator '-' = true := by decide
    have hbinary : isBinary '-' = true := by decide
    refine leaves_bind hr fun w x y z => ?_
    exact eval_binary hoperator hbinary stk no nos _ w x y z
  | .bracket _ e, stk, no, nos, x, y, z => eval_sorted e stk no nos x y z
  | .binary op l r, stk, no, nos, x, y, z => by
    have happend : (Expr.binary op l r).sorted ++ stk = l.sorted ++ (r.sorted ++ op.char :: stk) := by
      simp [Expr.sorted, Expr.tree, ExprTree.postOrder, itemChar, Op.operator]
    have hl := eval_sorted l (r.sorted ++ op.char :: stk) (r.numbers arith v ++ no) nos x y z
    rw [happend]
    show Computed.Leaves arith stk no nos (eval arith _ ⟨l.numbers arith v ++ r.numbers arith v ++ no, _, _, _, _, _⟩)
      ((l.value arith v).bind fun a => (r.value arith v).bind fun b => op.apply arith a b)
    rw [List.append_assoc]
    refine leaves_bind hl fun a x y z => ?_
    have hr := eval_sorted r (op.char :: stk) no (a :: nos) x y z
    refine leaves_bind hr fun b x y z => ?_
    rw [← compute_op op a b z]
    exact eval_binary op.operator.property (isBinary_op op) stk no nos a b x y z
  | .call f a, stk, no, nos, x, y, z => by
    have happend : (Expr.call f a).sorted ++ stk = a.sorted ++ noOperand :: f.symbol :: stk := by
      simp [Expr.sorted, Expr.tree, ExprTree.postOrder, itemChar, Function.operator, Operand.char]
    have ha := eval_sorted a (noOperand :: f.symbol :: stk) no nos x y z
    rw [happend]
    refine leaves_bind ha fun b x y z => ?_
    rw [eval_nothing, ← compute_function f b z]
    exact eval_unary f.operator.property (isBinary_function f) stk no nos b x y z
  | .call2 f a b, stk, no, nos, x, y, z => by
    have happend : (Expr.call2 f a b).sorted ++ stk = a.sorted ++ (b.sorted ++ f.symbol :: stk) := by
      simp [Expr.sorted, Expr.tree, ExprTree.postOrder, itemChar, Function2.operator]
    have ha := eval_sorted a (b.sorted ++ f.symbol :: stk) (b.numbers arith v ++ no) nos x y z
    rw [happend]
    show Computed.Leaves arith stk no nos (eval arith _ ⟨a.numbers arith v ++ b.numbers arith v ++ no, _, _, _, _, _⟩)
      ((a.value arith v).bind fun p => (b.value arith v).bind fun q => f.apply arith p q)
    rw [List.append_assoc]
    refine leaves_bind ha fun p x y z => ?_
    have hb := eval_sorted b (f.symbol :: stk) no (p :: nos) x y z
    refine leaves_bind hb fun q x y z => ?_
    rw [← compute_function2 f p q z]
    exact eval_binary f.operator.property (isBinary_function2 f) stk no nos p q x y z

/-! ## `equationparse` -/

/-- **What `equationparse` should return**: the value, or the error and the value that it has been given. -/
def Computed.ended (c : Computed α) (value : α) : Ended α :=
  match c with
  | .value a => .returns 0 (some a)
  | .error eqp_errno => .returns eqp_errno (some value)
  | .trap => .trap

theorem domainError_ne_zero {ch : Char} {y : α} {eqp_errno : Nat} (h : domainError arith ch y = some eqp_errno) :
    eqp_errno ≠ 0 := by
  rintro rfl
  unfold domainError at h
  dsimp only at h
  split_ifs at h <;> cases h

theorem bind_error {c : Computed α} {f : α → Computed α} {eqp_errno : Nat} (h : c.bind f = .error eqp_errno) :
    c = .error eqp_errno ∨ ∃ a, f a = .error eqp_errno := by
  cases c with
  | value a => exact Or.inr ⟨a, h⟩
  | error n => exact Or.inl h
  | trap => cases h

/-- **An error is not zero.** -/
theorem value_error_ne_zero : ∀ (e : Expr) {eqp_errno : Nat}, e.value arith v = .error eqp_errno → eqp_errno ≠ 0
  | .number _, _, h => by cases h
  | .letter _, _, h => by cases h
  | .pi, _, h => by cases h
  | .mPi, _, h => by cases h
  | .mE, _, h => by cases h
  | .negated r, _, h => by
    rcases bind_error h with h | ⟨w, h⟩
    · exact value_error_ne_zero r h
    · cases h
  | .bracket _ e, _, h => value_error_ne_zero e h
  | .binary op l r, _, h => by
    rcases bind_error h with h | ⟨a, h⟩
    · exact value_error_ne_zero l h
    rcases bind_error h with h | ⟨b, h⟩
    · exact value_error_ne_zero r h
    cases op with
    | divide =>
      unfold Op.apply at h
      dsimp only at h
      split_ifs at h
      cases h
      decide
    | _ => cases h
  | .call f a, _, h => by
    rcases bind_error h with h | ⟨y, h⟩
    · exact value_error_ne_zero a h
    unfold Function.apply at h
    cases hdomain : domainError arith f.symbol y with
    | none =>
      rw [hdomain] at h
      cases h
    | some n =>
      rw [hdomain] at h
      cases h
      exact domainError_ne_zero hdomain
  | .call2 f a b, _, h => by
    rcases bind_error h with h | ⟨p, h⟩
    · exact value_error_ne_zero a h
    rcases bind_error h with h | ⟨q, h⟩
    · exact value_error_ne_zero b h
    cases f with
    | atan2 => cases h
    | div =>
      unfold Function2.apply at h
      dsimp only at h
      split_ifs at h

/-- **`equationparse` computes the value of every expression**, from its text. -/
theorem equationparse_text (arith : Arith α) (e : Expr) (hok : e.Ok false 0) (value : α) :
    equationparse arith (e.text [] false) value = (e.value arith value).ended value := by
  have hfilter : (e.text ['0'] true).filter isTaken = e.text ['0'] true :=
    List.filter_eq_self.mpr (isTaken_text e hok)
  have hfill := fillno_text arith value e [] hok (fun _ h => by cases h)
  rw [List.append_nil] at hfill
  have hfilled : fillno arith value [] (e.text ['0'] true) = (e.numbers arith value, e.tokens) := by
    rw [hfill]
    simp [fillno]
  unfold equationparse
  rw [if_neg (text_ne_nil hok), operatorcheck_text hok, negcheck_text hok, funcsub_text hok]
  rw [if_neg (by decide)]
  dsimp only
  rw [hfilter, if_neg (text_ne_nil hok), hfilled]
  dsimp only
  rw [chkvalid_tokens, toPostfix_tokens hok]
  dsimp only [evaluate]
  have heval : (e.value arith value).Leaves arith [] [] [] (eval arith (e.sorted ++ [])
      ⟨e.numbers arith value ++ [], [], arith.zero, arith.zero, arith.zero, 0⟩) := eval_sorted e [] [] [] _ _ _
  rw [List.append_nil, List.append_nil] at heval
  cases hvalue : e.value arith value with
  | value a =>
    rw [hvalue] at heval
    obtain ⟨x, y, z, heval⟩ := heval
    rw [heval]
    rfl
  | error eqp_errno =>
    rw [hvalue] at heval
    have hne := value_error_ne_zero e hvalue
    rw [show eval arith e.sorted _ = _ from heval]
    simp [Computed.ended, hne]
  | trap =>
    rw [hvalue] at heval
    rw [show eval arith e.sorted _ = _ from heval]
    rfl

/-- The whole numbers, with the sign as their function. -/
def integers : Arith Int where
  atof digits := digits.foldl (fun n ch => 10 * n + (ch.toNat - 48 : Nat)) 0
  digit n := n
  atof_digit ch _ := by simp
  pi := 3
  e := 3
  zero := 0
  one := 1
  lt x y := decide (x < y)
  eq x y := decide (x = y)
  neg x := -x
  add x y := x + y
  dif x y := x - y
  mul x y := x * y
  divide x y := x.tdiv y
  mod x y := x.tmod y
  pow x y := x ^ y.toNat
  atan2 x _ := x
  toInt x := x
  ofInt x := x
  function _ y := y.sign

/-- `sgn` -/
def sgn : Function := ⟨['s', 'g', 'n'], '\xC4', by decide +kernel, by decide, by decide⟩

/-- `(-x*2+1)^2-sgn(div(x,3))` at 5: the powers bind tightest, and `div` is of whole numbers. -/
theorem equationparse_text_five :
    equationparse integers ['(', '-', 'x', '*', '2', '+', '1', ')', '^', '2', '-', 's', 'g', 'n', '(', 'd', 'i', 'v',
      '(', 'x', ',', '3', ')', ')'] 5 = .returns 0 (some 80) :=
  equationparse_text integers
    (.binary .dif
      (.binary .pow
        (.bracket .round (.binary .add (.negated (.binary .mul (.letter 'x') (.number ['2']))) (.number ['1'])))
        (.number ['2']))
      (.call sgn (.call2 .div (.letter 'x') (.number ['3']))))
    (by simp [Expr.Ok, Op.level, IsNumber, maxNumber, Expr.NoComma, isdigit, isalpha]) 5

end Trick.EqParse
