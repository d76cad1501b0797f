/-
  The passes of the equation parser over the text of an expression.

  Program:        `operatorcheck`, `negcheck` and `funcsub` of `EquationParse`.
  Specification:  the text of an expression is legal, and becomes its text with the zeros and then with the functions
                  substituted.
  Result:         `operatorcheck_text`, `negcheck_text` and `funcsub_text`.
-/
import Trick.DataProducts.Expression

namespace Trick.EqParse

/-! ## Texts -/

theorem text_ne_nil {zero : List Char} {substituted : Bool} :
    ∀ {e : Expr} {opened : Bool} {least : Nat}, e.Ok opened least → e.text zero substituted ≠ []
  | .number _, _, _, hok => hok.1
  | .letter _, _, _, _ => List.cons_ne_nil _ _
  | .pi, _, _, _ => by cases substituted <;> exact List.cons_ne_nil _ _
  | .mPi, _, _, _ => by cases substituted <;> exact List.cons_ne_nil _ _
  | .mE, _, _, _ => by cases substituted <;> exact List.cons_ne_nil _ _
  | .negated _, _, _, _ => List.append_ne_nil_of_right_ne_nil _ (List.cons_ne_nil _ _)
  | .bracket _ _, _, _, _ => List.cons_ne_nil _ _
  | .binary _ _ _, _, _, _ => List.append_ne_nil_of_right_ne_nil _ (List.cons_ne_nil _ _)
  | .call _ _, _, _, _ => by
    cases substituted with
    | false => exact List.append_ne_nil_of_right_ne_nil _ (List.cons_ne_nil _ _)
    | true => exact List.cons_ne_nil _ _
  | .call2 _ _ _, _, _, _ => by
    cases substituted with
    | false => exact List.append_ne_nil_of_right_ne_nil _ (List.cons_ne_nil _ _)
    | true => exact List.cons_ne_nil _ _

/-- Letters and digits. -/
def isWord (ch : Char) : Bool := isalpha ch || isdigit ch

theorem functionTable_words {entry : List Char × Char} (hentry : entry ∈ functionTable)
    (hpi : entry.2 ≠ piSymbol) (he : entry.2 ≠ eSymbol) :
    (∀ ch ∈ entry.1, isWord ch = true) ∧ entry.1.length ≤ 7 ∧
      ∃ c d rest, entry.1 = c :: d :: rest ∧ isalpha c = true ∧ isalpha d = true := by
  have hall : (functionTable.all fun entry => entry.2 = piSymbol || entry.2 = eSymbol ||
      (entry.1.all isWord && entry.1.length ≤ 7 && entry.1.head?.any isalpha && entry.1.tail.head?.any isalpha)) =
        true := by
    decide +kernel
  have hone := List.all_eq_true.mp hall entry hentry
  simp only [Bool.or_eq_true, Bool.and_eq_true, decide_eq_true_eq, hpi, he, false_or, List.all_eq_true] at hone
  obtain ⟨⟨⟨hwords, hlength⟩, hfirst⟩, hsecond⟩ := hone
  refine ⟨hwords, hlength, ?_⟩
  match hname : entry.1, hfirst, hsecond with
  | c :: d :: rest, hfirst, hsecond => exact ⟨c, d, rest, rfl, hfirst, hsecond⟩

theorem Function.symbol_ne (f : Function) : f.symbol ≠ piSymbol ∧ f.symbol ≠ eSymbol ∧ f.symbol ≠ '\xAA' ∧
    f.symbol ≠ '\xCB' ∧ f.symbol ≠ '\xB9' := by
  have hall : (unarySymbols.all fun ch =>
      ch ≠ piSymbol && ch ≠ eSymbol && ch ≠ '\xAA' && ch ≠ '\xCB' && ch ≠ '\xB9') = true := by
    decide +kernel
  have hone := List.all_eq_true.mp hall f.symbol f.unary
  simpa [and_assoc] using hone

theorem Function.words (f : Function) : (∀ ch ∈ f.name, isWord ch = true) ∧
    ∃ c d rest, f.name = c :: d :: rest ∧ isalpha c = true ∧ isalpha d = true := by
  have h := functionTable_words f.listed f.symbol_ne.1 f.symbol_ne.2.1
  exact ⟨h.1, h.2.2⟩

theorem Function2.words (f : Function2) : (∀ ch ∈ f.name, isWord ch = true) ∧
    ∃ c d rest, f.name = c :: d :: rest ∧ isalpha c = true ∧ isalpha d = true := by
  have hsymbol : f.symbol ≠ piSymbol ∧ f.symbol ≠ eSymbol := by cases f <;> decide
  have h := functionTable_words f.listed hsymbol.1 hsymbol.2
  exact ⟨h.1, h.2.2⟩

/-! ## `operatorcheck` -/

theorem isLegal_of_isWord {ch : Char} (h : isWord ch = true) : isLegal ch = true := by
  simp only [isWord, isalpha, isdigit, Bool.or_eq_true, decide_eq_true_eq] at h
  simp only [isLegal, Bool.or_eq_true, decide_eq_true_eq]
  rcases h with (h | h) | h
  · simp [h]
  · simp [h]
  · have h' : 40 ≤ ch.toNat ∧ ch.toNat ≤ 57 := ⟨by omega, h.2⟩
    simp [h']

/-- A character that is only looked at itself. -/
theorem characterOk_of_ne {len : Nat} {before after : List Char} {ch : Char} (hlegal : isLegal ch = true)
    (hpoint : ch ≠ '.') (hunder : ch ≠ '_') (hcomma : ch ≠ ',') : characterOk len before ch after = true := by
  simp only [characterOk, hlegal, Bool.true_and, if_neg hpoint, if_neg hunder, if_neg hcomma]

theorem charactersOk_cons {len : Nat} {before after : List Char} {ch : Char}
    (h : characterOk len before ch after = true) :
    charactersOk len before (ch :: after) = charactersOk len (ch :: before) after := by
  simp only [charactersOk, h, Bool.true_and]

theorem isWord_ne {ch : Char} (h : isWord ch = true) : ch ≠ '.' ∧ ch ≠ '_' ∧ ch ≠ ',' := by
  refine ⟨?_, ?_, ?_⟩ <;> rintro rfl <;> revert h <;> decide

/-- Words are legal. -/
theorem charactersOk_words {len : Nat} : ∀ (s : List Char) {before after : List Char}, (∀ ch ∈ s, isWord ch = true) →
    charactersOk len before (s ++ after) = charactersOk len (s.reverse ++ before) after
  | [], _, _, _ => rfl
  | ch :: s, before, after, h => by
    have hch := h ch List.mem_cons_self
    have hne := isWord_ne hch
    rw [List.cons_append, charactersOk_cons (characterOk_of_ne (isLegal_of_isWord hch) hne.1 hne.2.1 hne.2.2),
      charactersOk_words s fun c hc => h c (List.mem_cons_of_mem ch hc), List.reverse_cons, List.append_assoc]
    rfl

/-- Numbers are legal. -/
theorem charactersOk_number {len : Nat} : ∀ (s : List Char) {before after : List Char}, IsNumber s →
    charactersOk len before (s ++ after) = charactersOk len (s.reverse ++ before) after
  | [], _, _, _ => rfl
  | ch :: s, before, after, h => by
    have hone : characterOk len before ch (s ++ after) = true := by
      rcases h.1 with hdigit | ⟨rfl, hnext⟩
      · have hword : isWord ch = true := by simp [isWord, hdigit]
        have hne := isWord_ne hword
        exact characterOk_of_ne (isLegal_of_isWord hword) hne.1 hne.2.1 hne.2.2
      · match s, hnext with
        | d :: s, hnext =>
          have hdigit : isdigit d = true := hnext
          simp [characterOk, isLegal, hdigit]
    rw [List.cons_append, charactersOk_cons hone, charactersOk_number s h.2, List.reverse_cons, List.append_assoc]
    rfl

/-- **The bracket before the comma** is that of the call, if the argument is balanced. -/
theorem openBefore_reverse {s : List Char} (hs : Balanced s) : ∀ {counter : Nat} {rest : List Char}, 1 ≤ counter →
    3 ≤ rest.length → openBefore counter (s.reverse ++ rest) = openBefore counter rest := by
  induction hs with
  | nil => exact fun _ _ => rfl
  | @plain ch s hopens hcloses _ ih =>
    intro counter rest hcounter hlength
    rw [List.reverse_cons, List.append_assoc, ih hcounter (by simp; omega)]
    show openBefore counter (ch :: rest) = _
    rw [openBefore]
    simp only [if_neg hopens, if_neg hcloses]
    rw [if_neg (by omega), if_neg (by omega)]
  | @round s t _ _ ihs iht =>
    intro counter rest hcounter hlength
    have hsplit : ('(' :: (s ++ ')' :: t)).reverse ++ rest = t.reverse ++ (')' :: (s.reverse ++ '(' :: rest)) := by
      simp
    rw [hsplit, iht hcounter (by simp; omega), openBefore]
    simp only [if_true]
    rw [if_neg (by omega), if_neg (by simp; omega), ihs (by omega) (by simp; omega), openBefore]
    simp only [if_true, Char.reduceEq, if_false, Nat.add_sub_cancel]
    rw [if_neg (by omega), if_neg (by omega)]

/-- **The comma of a call is legal.** -/
theorem commaOk_call {len : Nat} (f : Function2) (before : List Char) {a : List Char} (ha : Balanced a) (hne : a ≠ [])
    (hlen : (a.reverse ++ '(' :: (f.name.reverse ++ before)).length + 3 ≤ len) :
    commaOk len (a.reverse ++ '(' :: (f.name.reverse ++ before)) = true := by
  have hpos : 1 ≤ a.length := List.length_pos_iff.mpr hne
  have hname : 3 ≤ f.name.length := by cases f <;> decide
  have hopen : openBefore 1 (',' :: (a.reverse ++ '(' :: (f.name.reverse ++ before))) =
      some (f.name.reverse ++ before) := by
    have hrest : 3 ≤ ('(' :: (f.name.reverse ++ before)).length := by simp; omega
    rw [openBefore]
    simp only [Char.reduceEq, if_false]
    rw [if_neg (by omega), if_neg (by simp; omega), openBefore_reverse ha (Nat.le_refl 1) hrest, openBefore]
    simp only [Char.reduceEq, if_false, if_true, Nat.sub_self]
  simp only [List.length_append, List.length_reverse, List.length_cons] at hlen
  unfold commaOk
  rw [if_neg (by simp; omega), hopen]
  dsimp only
  rw [if_neg (by simp; omega)]
  cases f with
  | div => rfl
  | atan2 =>
    have hfive : Function2.atan2.name.length = 5 := rfl
    have hsize : ¬(len < 10 ∨ (a.reverse ++ '(' :: (Function2.atan2.name.reverse ++ before)).length < 7 ∨
        len - 3 < (a.reverse ++ '(' :: (Function2.atan2.name.reverse ++ before)).length) := by
      simp
      omega
    show (decide (¬_) && _) = true
    rw [decide_eq_true hsize]
    rfl

theorem characterOk_plain {len : Nat} {before after : List Char} {ch : Char} (h : ch ∈ ['+', '-', '*', '/', '%', '^',
    '(', ')', '[', ']', '\x7b', '\x7d']) : characterOk len before ch after = true := by
  have hall : (['+', '-', '*', '/', '%', '^', '(', ')', '[', ']', '\x7b', '\x7d'].all fun ch =>
      isLegal ch && ch ≠ '.' && ch ≠ '_' && ch ≠ ',') = true := by
    decide +kernel
  have hone := List.all_eq_true.mp hall ch h
  simp only [Bool.and_eq_true, decide_eq_true_eq] at hone
  exact characterOk_of_ne hone.1.1.1 hone.1.1.2 hone.1.2 hone.2

theorem Op.char_mem (op : Op) : op.char ∈ ['+', '-', '*', '/', '%', '^', '(', ')', '[', ']', '\x7b', '\x7d'] := by
  cases op <;> simp [Op.char]

theorem Bracket.opens_mem (k : Bracket) :
    k.opens ∈ ['+', '-', '*', '/', '%', '^', '(', ')', '[', ']', '\x7b', '\x7d'] := by
  cases k <;> simp [Bracket.opens]

theorem Bracket.closes_mem (k : Bracket) :
    k.closes ∈ ['+', '-', '*', '/', '%', '^', '(', ')', '[', ']', '\x7b', '\x7d'] := by
  cases k <;> simp [Bracket.closes]

/-- **The text of an expression is legal.** -/
theorem charactersOk_text (len : Nat) : ∀ (e : Expr) {opened : Bool} {least : Nat} (before after : List Char),
    e.Ok opened least → before.length + (e.text [] false).length + after.length ≤ len →
    charactersOk len before (e.text [] false ++ after) = charactersOk len ((e.text [] false).reverse ++ before) after
  | .number digits, _, _, _, _, hok, _ => charactersOk_number digits hok.2.1
  | .letter name, _, _, _, _, hok, _ => by
    have hname : isalpha name = true := hok
    refine charactersOk_words [name] ?_
    intro ch hch
    rw [List.mem_singleton.mp hch]
    simp [isWord, hname]
  | .pi, _, _, _, _, _, _ => charactersOk_words ['P', 'I'] (by simp [isWord, isalpha])
  | .mPi, _, _, before, after, _, _ => by
    show charactersOk len before ('M' :: '_' :: 'P' :: 'I' :: after) = _
    rw [charactersOk_cons (by simp [characterOk, isLegal]), charactersOk_cons (by simp [characterOk, isLegal]),
      charactersOk_cons (by simp [characterOk, isLegal]), charactersOk_cons (by simp [characterOk, isLegal])]
    rfl
  | .mE, _, _, before, after, _, _ => by
    show charactersOk len before ('M' :: '_' :: 'E' :: after) = _
    rw [charactersOk_cons (by simp [characterOk, isLegal]), charactersOk_cons (by simp [characterOk, isLegal]),
      charactersOk_cons (by simp [characterOk, isLegal])]
    rfl
  | .negated r, _, _, before, after, hok, hlen => by
    have ih := charactersOk_text len r ('-' :: before) after hok.2.2
      (by simp [Expr.text] at hlen ⊢; omega)
    show charactersOk len before ('-' :: (r.text [] false ++ after)) = _
    rw [charactersOk_cons (characterOk_plain (by simp)), ih]
    simp [Expr.text]
  | .bracket k e, _, _, before, after, hok, hlen => by
    have ih := charactersOk_text len e (k.opens :: before) (k.closes :: after) hok
      (by simp [Expr.text] at hlen ⊢; omega)
    have happend : (Expr.bracket k e).text [] false ++ after = k.opens :: (e.text [] false ++ k.closes :: after) := by
      simp [Expr.text]
    rw [happend, charactersOk_cons (characterOk_plain k.opens_mem), ih,
      charactersOk_cons (characterOk_plain k.closes_mem)]
    simp [Expr.text]
  | .binary op l r, _, _, before, after, hok, hlen => by
    have ihl := charactersOk_text len l before
      (op.char :: (r.text [] false ++ after)) hok.2.1 (by simp [Expr.text] at hlen ⊢; omega)
    have ihr := charactersOk_text len r (op.char :: ((l.text [] false).reverse ++ before))
      after hok.2.2 (by simp [Expr.text] at hlen ⊢; omega)
    have happend : (Expr.binary op l r).text [] false ++ after =
        l.text [] false ++ op.char :: (r.text [] false ++ after) := by
      simp [Expr.text]
    rw [happend, ihl, charactersOk_cons (characterOk_plain op.char_mem), ihr]
    simp [Expr.text]
  | .call f a, _, _, before, after, hok, hlen => by
    have ih := charactersOk_text len a ('(' :: (f.name.reverse ++ before)) (')' :: after) hok
      (by simp [Expr.text] at hlen ⊢; omega)
    have happend : (Expr.call f a).text [] false ++ after =
        f.name ++ '(' :: (a.text [] false ++ ')' :: after) := by
      simp [Expr.text]
    rw [happend, charactersOk_words f.name f.words.1, charactersOk_cons (characterOk_plain (by simp)), ih,
      charactersOk_cons (characterOk_plain (by simp))]
    simp [Expr.text]
  | .call2 f a b, _, _, before, after, hok, hlen => by
    have hb : 1 ≤ (b.text [] false).length := List.length_pos_iff.mpr (text_ne_nil hok.2.2)
    have iha := charactersOk_text len a ('(' :: (f.name.reverse ++ before))
      (',' :: (b.text [] false ++ ')' :: after)) hok.2.1 (by simp [Expr.text] at hlen ⊢; omega)
    have ihb := charactersOk_text len b
      (',' :: ((a.text [] false).reverse ++ '(' :: (f.name.reverse ++ before))) (')' :: after)
      hok.2.2 (by simp [Expr.text] at hlen ⊢; omega)
    have happend : (Expr.call2 f a b).text [] false ++ after =
        f.name ++ '(' :: (a.text [] false ++ ',' :: (b.text [] false ++ ')' :: after)) := by
      simp [Expr.text]
    have hbalanced : Balanced (a.text [] false) :=
      balanced_text (fun _ h => absurd h List.not_mem_nil) false a hok.2.1
    have hcomma := commaOk_call f before hbalanced (text_ne_nil hok.2.1)
      (show _ ≤ len by simp [Expr.text] at hlen ⊢; omega)
    rw [happend, charactersOk_words f.name f.words.1, charactersOk_cons (characterOk_plain (by simp)), iha,
      charactersOk_cons (by simp [characterOk, isLegal, hcomma]), ihb, charactersOk_cons (characterOk_plain (by simp))]
    simp [Expr.text]

/-- **`operatorcheck` has nothing against an expression.** -/
theorem operatorcheck_text {e : Expr} (hok : e.Ok false 0) : operatorcheck (e.text [] false) = true := by
  have h := charactersOk_text (e.text [] false).length e [] [] hok (by simp)
  rw [List.append_nil] at h
  exact h

/-! ## `negcheck` -/

theorem negcheckAfter_cons {last ch : Char} (h : ch ≠ '-' ∨ last ≠ '(') (after : List Char) :
    negcheckAfter last (ch :: after) = ch :: negcheckAfter ch after :=
  if_neg fun hboth => h.elim (fun hch => hch hboth.1) (fun hlast => hlast hboth.2)

theorem negcheckAfter_plain : ∀ (s : List Char) (last : Char), s ≠ [] → (∀ ch ∈ s, ch ≠ '-' ∧ ch ≠ '(') →
    ∃ last', last' ≠ '(' ∧ ∀ after, negcheckAfter last (s ++ after) = s ++ negcheckAfter last' after
  | [], _, hne, _ => absurd rfl hne
  | [ch], last, _, h => by
    have hch := h ch List.mem_cons_self
    exact ⟨ch, hch.2, fun after => negcheckAfter_cons (Or.inl hch.1) after⟩
  | ch :: d :: s, last, _, h => by
    have hch := h ch List.mem_cons_self
    obtain ⟨last', hlast', hs⟩ := negcheckAfter_plain (d :: s) ch (List.cons_ne_nil d s)
      fun c hc => h c (List.mem_cons_of_mem ch hc)
    refine ⟨last', hlast', fun after => ?_⟩
    rw [List.cons_append, negcheckAfter_cons (Or.inl hch.1), hs]
    rfl

theorem isWord_ne_minus {ch : Char} (h : isWord ch = true) : ch ≠ '-' ∧ ch ≠ '(' := by
  constructor <;> rintro rfl <;> revert h <;> decide

theorem isNumber_ne_minus {digits : List Char} (h : IsNumber digits) : ∀ ch ∈ digits, ch ≠ '-' ∧ ch ≠ '(' := by
  induction digits with
  | nil => exact fun _ h => absurd h List.not_mem_nil
  | cons d digits ih =>
    intro ch hch
    rcases List.mem_cons.mp hch with rfl | hch
    · rcases h.1 with hd | ⟨rfl, -⟩
      · exact isWord_ne_minus (by simp [isWord, hd])
      · exact ⟨by decide, by decide⟩
    · exact ih h.2 ch hch

theorem Bracket.char_ne (k : Bracket) : k.opens ≠ '-' ∧ k.closes ≠ '-' ∧ k.closes ≠ '(' ∧
    (k = .round → k.opens = '(') := by
  cases k <;> decide

/-- **A text gets its zeros**, wherever it stands, and does not end with a bracket that opens. -/
theorem negcheckAfter_text : ∀ (e : Expr) {opened : Bool} {least : Nat} (last : Char), e.Ok opened least →
    (opened = true → last = '(') → ∃ last', last' ≠ '(' ∧
      ∀ after, negcheckAfter last (e.text [] false ++ after) = e.text ['0'] false ++ negcheckAfter last' after
  | .number digits, _, _, last, hok, _ => negcheckAfter_plain digits last hok.1 (isNumber_ne_minus hok.2.1)
  | .letter name, _, _, last, hok, _ => by
    have hname : isalpha name = true := hok
    refine negcheckAfter_plain [name] last (List.cons_ne_nil _ _) ?_
    intro ch hch
    rw [List.mem_singleton.mp hch]
    exact isWord_ne_minus (by simp [isWord, hname])
  | .pi, _, _, last, _, _ => negcheckAfter_plain ['P', 'I'] last (List.cons_ne_nil _ _) (by simp)
  | .mPi, _, _, last, _, _ => negcheckAfter_plain ['M', '_', 'P', 'I'] last (List.cons_ne_nil _ _) (by simp)
  | .mE, _, _, last, _, _ => negcheckAfter_plain ['M', '_', 'E'] last (List.cons_ne_nil _ _) (by simp)
  | .negated r, _, _, last, hok, hlast => by
    obtain ⟨last', hlast', hr⟩ := negcheckAfter_text r '-' hok.2.2 (fun h => by cases h)
    refine ⟨last', hlast', fun after => ?_⟩
    show negcheckAfter last ('-' :: (r.text [] false ++ after)) = _
    rw [negcheckAfter, if_pos ⟨rfl, hlast hok.1⟩, hr]
    rfl
  | .bracket k e, _, _, last, hok, _ => by
    obtain ⟨last', -, he⟩ := negcheckAfter_text e k.opens hok fun h => k.char_ne.2.2.2 (of_decide_eq_true h)
    refine ⟨k.closes, k.char_ne.2.2.1, fun after => ?_⟩
    have happend : (Expr.bracket k e).text [] false ++ after = k.opens :: (e.text [] false ++ k.closes :: after) := by
      simp [Expr.text]
    rw [happend, negcheckAfter_cons (Or.inl k.char_ne.1), he, negcheckAfter_cons (Or.inl k.char_ne.2.1)]
    simp [Expr.text]
  | .binary op l r, _, _, last, hok, hlast => by
    obtain ⟨last1, hlast1, hl⟩ := negcheckAfter_text l last hok.2.1 hlast
    obtain ⟨last2, hlast2, hr⟩ := negcheckAfter_text r op.char hok.2.2 (fun h => by cases h)
    refine ⟨last2, hlast2, fun after => ?_⟩
    have happend : (Expr.binary op l r).text [] false ++ after =
        l.text [] false ++ op.char :: (r.text [] false ++ after) := by
      simp [Expr.text]
    rw [happend, hl, negcheckAfter_cons (Or.inr hlast1), hr]
    simp [Expr.text]
  | .call f a, _, _, last, hok, _ => by
    obtain ⟨c, d, rest, hname, -, -⟩ := f.words.2
    obtain ⟨last1, -, hf⟩ := negcheckAfter_plain f.name last (by rw [hname]; exact List.cons_ne_nil _ _)
      fun ch hch => isWord_ne_minus (f.words.1 ch hch)
    obtain ⟨last2, -, ha⟩ := negcheckAfter_text a '(' hok fun _ => rfl
    refine ⟨')', by decide, fun after => ?_⟩
    have happend : (Expr.call f a).text [] false ++ after = f.name ++ '(' :: (a.text [] false ++ ')' :: after) := by
      simp [Expr.text]
    rw [happend, hf, negcheckAfter_cons (Or.inl (by decide)), ha, negcheckAfter_cons (Or.inl (by decide))]
    simp [Expr.text]
  | .call2 f a b, _, _, last, hok, _ => by
    obtain ⟨c, d, rest, hname, -, -⟩ := f.words.2
    obtain ⟨last1, -, hf⟩ := negcheckAfter_plain f.name last (by rw [hname]; exact List.cons_ne_nil _ _)
      fun ch hch => isWord_ne_minus (f.words.1 ch hch)
    obtain ⟨last2, -, ha⟩ := negcheckAfter_text a '(' hok.2.1 fun _ => rfl
    obtain ⟨last3, -, hb⟩ := negcheckAfter_text b ',' hok.2.2 (fun h => by cases h)
    refine ⟨')', by decide, fun after => ?_⟩
    have happend : (Expr.call2 f a b).text [] false ++ after =
        f.name ++ '(' :: (a.text [] false ++ ',' :: (b.text [] false ++ ')' :: after)) := by
      simp [Expr.text]
    rw [happend, hf, negcheckAfter_cons (Or.inl (by decide)), ha, negcheckAfter_cons (Or.inl (by decide)), hb,
      negcheckAfter_cons (Or.inl (by decide))]
    simp [Expr.text]

/-- **`negcheck` of an expression.** -/
theorem negcheck_text {e : Expr} (hok : e.Ok false 0) : negcheck (e.text [] false) = e.text ['0'] false := by
  obtain ⟨last', -, htext⟩ := negcheckAfter_text e ')' hok (fun h => by cases h)
  have hall := htext []
  rw [List.append_nil] at hall
  cases hs : e.text [] false with
  | nil => exact absurd hs (text_ne_nil hok)
  | cons ch s =>
    rw [hs, negcheckAfter_cons (Or.inr (by decide))] at hall
    rw [negcheck, hall]
    exact List.append_nil _

/-! ## `funcsub` -/

/-- No name begins in it, whatever comes behind it. -/
def Quiet (p : List Char) : Prop :=
  ∀ q, findName (p ++ q) = (findName q).map fun found => (p ++ found.1, found.2)

theorem quiet_nil : Quiet [] := by
  intro q
  cases h : findName q <;> simp [h]

theorem Quiet.append {p q : List Char} (hp : Quiet p) (hq : Quiet q) : Quiet (p ++ q) := by
  intro r
  rw [List.append_assoc, hp, hq, Option.map_map]
  congr 1
  funext found
  simp

/-- A character that is no letter. -/
theorem quiet_cons {ch : Char} {p : List Char} (hch : isalpha ch = false) (hp : Quiet p) : Quiet (ch :: p) := by
  have hone : Quiet [ch] := by
    intro q
    cases q with
    | nil => rfl
    | cons next q =>
      show findName (ch :: next :: q) = _
      rw [findName]
      simp [hch]
  exact hone.append hp

/-- A letter, with something behind it that is none. -/
theorem quiet_letter {ch next : Char} (hnext : isalpha next = false) (hunder : next ≠ '_') : Quiet [ch, next] := by
  intro q
  show findName (ch :: next :: q) = _
  rw [findName]
  have hnot : (isalpha ch && (isalpha next || next = '_')) = false := by simp [hnext, hunder]
  have hsingle : findName (next :: q) = (findName q).map fun found => (next :: found.1, found.2) :=
    quiet_cons hnext quiet_nil q
  simp only [hnot, Bool.false_eq_true, if_false, hsingle, Option.map_map]
  rfl

/-- What may stand behind an expression. -/
def Ends (ch : Char) : Prop := isalpha ch = false ∧ ch ≠ '_'

theorem quiet_number {digits : List Char} (h : IsNumber digits) : Quiet digits := by
  induction digits with
  | nil => exact quiet_nil
  | cons d digits ih =>
    refine quiet_cons ?_ (ih h.2)
    rcases h.1 with hd | ⟨rfl, -⟩
    · simp only [isdigit, decide_eq_true_eq] at hd
      simp only [isalpha, decide_eq_false_iff_not]
      omega
    · decide

theorem Op.ends (op : Op) : Ends op.char := by
  cases op <;> exact ⟨by decide, by decide⟩

theorem Bracket.ends (k : Bracket) : Ends k.opens ∧ Ends k.closes := by
  cases k <;> exact ⟨⟨by decide, by decide⟩, ⟨by decide, by decide⟩⟩

theorem symbols_not_alpha : ∀ ch ∈ piSymbol :: eSymbol :: noOperand :: '\xAA' :: '\xCB' :: unarySymbols,
    isalpha ch = false := by
  have hall : ((piSymbol :: eSymbol :: noOperand :: '\xAA' :: '\xCB' :: unarySymbols).all fun ch => !isalpha ch) =
      true := by
    decide +kernel
  intro ch hch
  simpa using List.all_eq_true.mp hall ch hch

theorem Function.not_alpha (f : Function) : isalpha f.symbol = false :=
  symbols_not_alpha f.symbol (by simp [f.unary])

theorem Function2.not_alpha (f : Function2) : isalpha f.symbol = false := by
  cases f <;> decide

/-- **There is no name in an expression with its functions substituted.** -/
theorem quiet_text : ∀ (e : Expr) {opened : Bool} {least : Nat} {ch : Char}, e.Ok opened least → Ends ch →
    Quiet (e.text ['0'] true ++ [ch])
  | .number digits, _, _, ch, hok, hch => (quiet_number hok.2.1).append (quiet_cons hch.1 quiet_nil)
  | .letter name, _, _, ch, _, hch => quiet_letter hch.1 hch.2
  | .pi, _, _, ch, _, hch => quiet_cons (by decide) (quiet_cons hch.1 quiet_nil)
  | .mPi, _, _, ch, _, hch => quiet_cons (by decide) (quiet_cons hch.1 quiet_nil)
  | .mE, _, _, ch, _, hch => quiet_cons (by decide) (quiet_cons hch.1 quiet_nil)
  | .negated r, _, _, ch, hok, hch =>
    quiet_cons (by decide) (quiet_cons (by decide) (quiet_text r hok.2.2 hch))
  | .bracket k e, _, _, ch, hok, hch => by
    have h := quiet_cons k.ends.1.1 ((quiet_text e hok k.ends.2).append (quiet_cons hch.1 quiet_nil))
    simpa [Expr.text] using h
  | .binary op l r, _, _, ch, hok, hch => by
    have h := (quiet_text l hok.2.1 op.ends).append (quiet_text r hok.2.2 hch)
    simpa [Expr.text] using h
  | .call f a, _, _, ch, hok, hch => by
    have hround : Ends ')' := ⟨by decide, by decide⟩
    have hbehind : Quiet [f.symbol, noOperand, ')', ch] :=
      quiet_cons f.not_alpha (quiet_cons (by decide) (quiet_cons hround.1 (quiet_cons hch.1 quiet_nil)))
    have h := quiet_cons (show isalpha '(' = false by decide) (quiet_cons (show isalpha '(' = false by decide)
      ((quiet_text a hok hround).append hbehind))
    simpa [Expr.text] using h
  | .call2 f a b, _, _, ch, hok, hch => by
    have hround : Ends ')' := ⟨by decide, by decide⟩
    have hbehind : Quiet [')', ch] := quiet_cons hround.1 (quiet_cons hch.1 quiet_nil)
    have hinner : Quiet (f.symbol :: '(' :: (b.text ['0'] true ++ [')'] ++ [')', ch])) :=
      quiet_cons f.not_alpha (quiet_cons (by decide) ((quiet_text b hok.2.2 hround).append hbehind))
    have h := quiet_cons (show isalpha '(' = false by decide) (quiet_cons (show isalpha '(' = false by decide)
      ((quiet_text a hok.2.1 hround).append hinner))
    simpa [Expr.text] using h

/-! ## One substitution -/

/-- **What is copied to the bracket that closes.** -/
theorem untilClosed_append {s : List Char} (hs : Balanced s) : ∀ {counter : Int} (t : List Char), 1 ≤ counter →
    untilClosed counter (s ++ t) = (untilClosed counter t).map fun found => (s ++ found.1, found.2) := by
  induction hs with
  | nil =>
    intro counter t _
    cases h : untilClosed counter t <;> simp [h]
  | @plain ch s hopens hcloses _ ih =>
    intro counter t hcounter
    show untilClosed counter (ch :: (s ++ t)) = _
    rw [untilClosed]
    simp only [if_neg hopens, if_neg hcloses]
    rw [if_neg (by omega), ih t hcounter, Option.map_map]
    rfl
  | @round s u _ _ ihs ihu =>
    intro counter t hcounter
    have hsplit : '(' :: (s ++ ')' :: u) ++ t = '(' :: (s ++ ')' :: (u ++ t)) := by simp
    rw [hsplit, untilClosed]
    simp only [if_true]
    rw [if_neg (by omega), ihs _ (by omega), untilClosed]
    simp only [Char.reduceEq, if_false, if_true]
    rw [if_neg (by omega), show counter + 1 - 1 = counter by omega, ihu t hcounter]
    simp only [Option.map_map]
    congr 1
    funext found
    simp

theorem untilClosed_close {s : List Char} (hs : Balanced s) (t : List Char) :
    untilClosed 1 (s ++ ')' :: t) = some (s ++ [')'], t) := by
  rw [untilClosed_append hs _ (by omega)]
  rfl

theorem untilClosed_call {s : List Char} (hs : Balanced s) (t : List Char) :
    untilClosed 0 ('(' :: (s ++ ')' :: t)) = some ('(' :: (s ++ [')']), t) := by
  rw [untilClosed]
  simp only [if_true]
  rw [if_neg (by omega), show (0 : Int) + 1 = 1 by omega, untilClosed_close hs]
  rfl

theorem untilComma_append : ∀ {s : List Char} (t : List Char), ',' ∉ s → untilComma (s ++ ',' :: t) = some (s, t)
  | [], _, _ => rfl
  | ch :: s, t, h => by
    have hch : ch ≠ ',' := fun heq => h (by rw [heq]; exact List.mem_cons_self)
    show (if ch = ',' then some ([], s ++ ',' :: t) else (untilComma (s ++ ',' :: t)).map _) = _
    rw [if_neg hch, untilComma_append t fun hin => h (List.mem_cons_of_mem ch hin)]
    rfl

/-- There is a comma for two arguments only. -/
theorem comma_not_mem : ∀ (e : Expr) {opened : Bool} {least : Nat}, e.Ok opened least → e.NoComma →
    ',' ∉ e.text ['0'] false
  | .number digits, _, _, hok, _ => fun h => by
    have hnumber : ∀ {digits : List Char}, IsNumber digits → ',' ∉ digits := by
      intro digits
      induction digits with
      | nil => exact fun _ => List.not_mem_nil
      | cons d digits ih =>
        intro hd hin
        rcases List.mem_cons.mp hin with rfl | hin
        · rcases hd.1 with hd | ⟨hd, -⟩ <;> revert hd <;> decide
        · exact ih hd.2 hin
    exact hnumber hok.2.1 h
  | .letter name, _, _, hok, _ => fun h => by
    have hname : isalpha name = true := hok
    rw [← List.mem_singleton.mp h] at hname
    revert hname
    decide
  | .pi, _, _, _, _ => by simp [Expr.text]
  | .mPi, _, _, _, _ => by simp [Expr.text]
  | .mE, _, _, _, _ => by simp [Expr.text]
  | .negated r, _, _, hok, hcomma => by
    have ih := comma_not_mem r hok.2.2 hcomma
    simp [Expr.text, ih]
  | .bracket k e, _, _, hok, hcomma => by
    have ih := comma_not_mem e hok hcomma
    cases k <;> simp [Expr.text, Bracket.opens, Bracket.closes, ih]
  | .binary op l r, _, _, hok, hcomma => by
    have ihl := comma_not_mem l hok.2.1 hcomma.1
    have ihr := comma_not_mem r hok.2.2 hcomma.2
    cases op <;> simp [Expr.text, Op.char, ihl, ihr]
  | .call f a, _, _, hok, hcomma => by
    have ih := comma_not_mem a hok hcomma
    have hname : ',' ∉ f.name := fun hin => (isWord_ne (f.words.1 _ hin)).2.2 rfl
    simp [Expr.text, ih, hname]
  | .call2 _ _ _, _, _, _, hcomma => hcomma.elim

theorem isPrefixOf_append_bracket : ∀ {name : List Char} (s t : List Char), '(' ∉ name →
    name.isPrefixOf (s ++ '(' :: t) = name.isPrefixOf s
  | [], s, t, _ => by
    rw [List.isPrefixOf_nil_left, List.isPrefixOf_nil_left]
  | c :: name, [], t, h => by
    have hc : (c == '(') = false := by
      rw [beq_eq_false_iff_ne]
      exact fun heq => h (by rw [heq]; exact List.mem_cons_self)
    show (c == '(' && name.isPrefixOf t) = false
    rw [hc, Bool.false_and]
  | c :: name, d :: s, t, h => by
    have ih := isPrefixOf_append_bracket s t fun hin => h (List.mem_cons_of_mem c hin)
    show (c == d && name.isPrefixOf (s ++ '(' :: t)) = (c == d && name.isPrefixOf s)
    rw [ih]

/-- **A name with a bracket behind it is found**, and no shorter one before it. -/
theorem find_name {entry : List Char × Char} (hentry : entry ∈ functionTable) (hpi : entry.2 ≠ piSymbol)
    (he : entry.2 ≠ eSymbol) (t : List Char) :
    functionTable.find? (fun other => other.1.isPrefixOf (entry.1 ++ '(' :: t)) = some entry := by
  have hall : (functionTable.all fun entry => entry.2 = piSymbol || entry.2 = eSymbol ||
      functionTable.find? (fun other => other.1.isPrefixOf entry.1) = some entry) = true := by
    decide +kernel
  have hone := List.all_eq_true.mp hall entry hentry
  simp only [Bool.or_eq_true, decide_eq_true_eq, hpi, he, false_or] at hone
  rw [← hone]
  refine List.find?_congr ?_
  intro other hother
  exact isPrefixOf_append_bracket _ t fun hin => ((functionTable_ne other hother).1 _ hin).1 rfl

/-! ## All substitutions -/

/-- A name after something quiet. -/
theorem findName_append {p : List Char} (hp : Quiet p) {c d : Char} (rest : List Char) (hc : isalpha c = true)
    (hd : isalpha d = true ∨ d = '_') : findName (p ++ c :: d :: rest) = some (p, c :: d :: rest) := by
  have hname : findName (c :: d :: rest) = some ([], c :: d :: rest) := by
    rw [findName]
    exact if_pos (by simp [hc, hd])
  rw [hp, hname]
  simp

theorem funcsubLoop_changed {equation temp start equation' : List Char} (hfind : findName equation = some (temp, start))
    (hsubstitute : substitute temp start = .changed equation') (fuel : Nat) :
    funcsubLoop (fuel + 1) equation = funcsubLoop fuel equation' := by
  rw [funcsubLoop.eq_def]
  simp only [hfind, hsubstitute]

theorem funcsubLoop_none {equation : List Char} (hfind : findName equation = none) (fuel : Nat) :
    funcsubLoop fuel equation = some (.ok equation) := by
  rw [funcsubLoop.eq_def]
  simp only [hfind]

theorem countP_word {name : List Char} (h : ∃ c d rest, name = c :: d :: rest ∧ isalpha c = true ∧ isalpha d = true) :
    1 ≤ name.countP isalpha := by
  obtain ⟨c, d, rest, rfl, hc, -⟩ := h
  rw [List.countP_cons_of_pos hc]
  exact Nat.le_add_left 1 _

/-- **The functions of an expression are substituted**, from the outside to the inside, with fewer steps than it has
    letters. -/
theorem funcsubLoop_text : ∀ (e : Expr) {opened : Bool} {least : Nat} {p : List Char} (after : List Char),
    e.Ok opened least → Quiet p → ∃ n ≤ (e.text ['0'] false).countP isalpha, ∀ fuel,
      funcsubLoop (fuel + n) (p ++ (e.text ['0'] false ++ after)) = funcsubLoop fuel (p ++ (e.text ['0'] true ++ after))
  | .number _, _, _, _, _, _, _ => ⟨0, Nat.zero_le _, fun _ => rfl⟩
  | .letter _, _, _, _, _, _, _ => ⟨0, Nat.zero_le _, fun _ => rfl⟩
  | .pi, _, _, p, after, _, hp => by
    refine ⟨1, (by decide : 1 ≤ ['P', 'I'].countP isalpha), fun fuel => ?_⟩
    exact funcsubLoop_changed (findName_append hp after (by decide) (Or.inl (by decide))) rfl fuel
  | .mPi, _, _, p, after, _, hp => by
    refine ⟨1, (by decide : 1 ≤ ['M', '_', 'P', 'I'].countP isalpha), fun fuel => ?_⟩
    exact funcsubLoop_changed (findName_append hp ('P' :: 'I' :: after) (by decide) (Or.inr rfl)) rfl fuel
  | .mE, _, _, p, after, _, hp => by
    refine ⟨1, (by decide : 1 ≤ ['M', '_', 'E'].countP isalpha), fun fuel => ?_⟩
    exact funcsubLoop_changed (findName_append hp ('E' :: after) (by decide) (Or.inr rfl)) rfl fuel
  | .negated r, _, _, p, after, hok, hp => by
    obtain ⟨n, hn, hr⟩ := funcsubLoop_text r after hok.2.2
      (hp.append (quiet_cons (show isalpha '0' = false by decide) (quiet_cons (show isalpha '-' = false by decide)
        quiet_nil)))
    refine ⟨n, ?_, fun fuel => ?_⟩
    · refine Nat.le_trans hn ?_
      show _ ≤ ('0' :: '-' :: r.text ['0'] false).countP isalpha
      rw [List.countP_cons_of_neg (by decide), List.countP_cons_of_neg (by decide)]
    · have h := hr fuel
      simpa [Expr.text] using h
  | .bracket k e, _, _, p, after, hok, hp => by
    obtain ⟨n, hn, he⟩ := funcsubLoop_text e (k.closes :: after) hok (hp.append (quiet_cons k.ends.1.1 quiet_nil))
    refine ⟨n, ?_, fun fuel => ?_⟩
    · refine Nat.le_trans hn ?_
      simp [Expr.text, List.countP_cons, List.countP_append]
      omega
    · have h := he fuel
      simpa [Expr.text] using h
  | .binary op l r, _, _, p, after, hok, hp => by
    obtain ⟨n, hn, hl⟩ := funcsubLoop_text l (op.char :: (r.text ['0'] false ++ after)) hok.2.1 hp
    obtain ⟨m, hm, hr⟩ := funcsubLoop_text r after hok.2.2 (hp.append (quiet_text l hok.2.1 op.ends))
    refine ⟨m + n, ?_, fun fuel => ?_⟩
    · simp only [Expr.text, List.countP_append, List.countP_cons]
      omega
    · have h1 := hl (fuel + m)
      have h2 := hr fuel
      simp only [Expr.text, List.append_assoc, List.cons_append, List.nil_append] at h1 h2 ⊢
      rw [← Nat.add_assoc, h1, h2]
  | .call f a, _, _, p, after, hok, hp => by
    obtain ⟨c, d, rest, hname, hc, hd⟩ := f.words.2
    have hopen : isalpha '(' = false := by decide
    obtain ⟨n, hn, ha⟩ := funcsubLoop_text a (')' :: f.symbol :: noOperand :: ')' :: after) hok
      (hp.append (quiet_cons hopen (quiet_cons hopen quiet_nil)))
    have hfind := findName_append hp (rest ++ '(' :: (a.text ['0'] false ++ ')' :: after)) hc (Or.inl hd)
    have hlook := find_name f.listed f.symbol_ne.1 f.symbol_ne.2.1 (a.text ['0'] false ++ ')' :: after)
    have hbalanced : Balanced (a.text ['0'] false) := balanced_text (by simp) false a hok
    have hsubstitute : substitute p (f.name ++ '(' :: (a.text ['0'] false ++ ')' :: after)) =
        .changed (p ++ '(' :: '(' :: (a.text ['0'] false ++ ')' :: f.symbol :: noOperand :: ')' :: after)) := by
      have hne := f.symbol_ne
      unfold substitute
      simp only [hlook, List.drop_left]
      rw [if_neg (by simp [hne]), if_neg hne.1, if_neg hne.2.1, untilClosed_call hbalanced]
      simp
    refine ⟨n + 1, ?_, fun fuel => ?_⟩
    · have hword := countP_word f.words.2
      simp only [Expr.text, Bool.false_eq_true, if_false, List.countP_append, List.countP_cons]
      omega
    · have hstep : funcsubLoop (fuel + n + 1) (p ++ (f.name ++ '(' :: (a.text ['0'] false ++ ')' :: after))) = _ :=
        funcsubLoop_changed (by rw [hname]; exact hfind) hsubstitute (fuel + n)
      have h := ha fuel
      simp only [Expr.text, Bool.false_eq_true, if_false, if_true, List.append_assoc, List.cons_append,
        List.nil_append] at h hstep ⊢
      rw [← Nat.add_assoc, hstep, h]
  | .call2 f a b, _, _, p, after, hok, hp => by
    obtain ⟨c, d, rest, hname, hc, hd⟩ := f.words.2
    have hopen : isalpha '(' = false := by decide
    have hround : Ends ')' := ⟨by decide, by decide⟩
    have hsymbol : f.symbol ≠ piSymbol ∧ f.symbol ≠ eSymbol ∧ (f.symbol = '\xAA' ∨ f.symbol = '\xCB') := by
      cases f <;> decide
    have hp2 : Quiet (p ++ ['(', '(']) := hp.append (quiet_cons hopen (quiet_cons hopen quiet_nil))
    obtain ⟨n, hn, ha⟩ := funcsubLoop_text a
      (')' :: f.symbol :: '(' :: (b.text ['0'] false ++ ')' :: ')' :: after)) hok.2.1 hp2
    obtain ⟨m, hm, hb⟩ := funcsubLoop_text b (')' :: ')' :: after) hok.2.2
      ((hp2.append (quiet_text a hok.2.1 hround)).append (quiet_cons f.not_alpha (quiet_cons hopen quiet_nil)))
    have hfind := findName_append hp
      (rest ++ '(' :: (a.text ['0'] false ++ ',' :: (b.text ['0'] false ++ ')' :: after))) hc (Or.inl hd)
    have hlook := find_name f.listed hsymbol.1 hsymbol.2.1
      (a.text ['0'] false ++ ',' :: (b.text ['0'] false ++ ')' :: after))
    have hbalanced : Balanced (b.text ['0'] false) := balanced_text (by simp) false b hok.2.2
    have hcomma := comma_not_mem a hok.2.1 hok.1
    have hfirst : firstArgument ('(' :: (a.text ['0'] false ++ ',' :: (b.text ['0'] false ++ ')' :: after))) =
        some ('(' :: a.text ['0'] false, b.text ['0'] false ++ ')' :: after) := by
      show (untilComma _).map _ = _
      rw [untilComma_append _ hcomma]
      rfl
    have hsubstitute : substitute p
        (f.name ++ '(' :: (a.text ['0'] false ++ ',' :: (b.text ['0'] false ++ ')' :: after))) =
        .changed (p ++ '(' :: '(' :: (a.text ['0'] false ++ ')' :: f.symbol :: '(' ::
          (b.text ['0'] false ++ ')' :: ')' :: after))) := by
      unfold substitute
      simp only [hlook, List.drop_left, hfirst, untilClosed_close hbalanced]
      rw [if_pos (by rcases hsymbol.2.2 with h | h <;> simp [h])]
      simp
    refine ⟨m + n + 1, ?_, fun fuel => ?_⟩
    · have hword := countP_word f.words.2
      simp only [Expr.text, Bool.false_eq_true, if_false, List.countP_append, List.countP_cons]
      omega
    · have hstep : funcsubLoop (fuel + m + n + 1)
          (p ++ (f.name ++ '(' :: (a.text ['0'] false ++ ',' :: (b.text ['0'] false ++ ')' :: after)))) = _ :=
        funcsubLoop_changed (by rw [hname]; exact hfind) hsubstitute (fuel + m + n)
      have h1 := ha (fuel + m)
      have h2 := hb fuel
      simp only [Expr.text, Bool.false_eq_true, if_false, if_true, List.append_assoc, List.cons_append,
        List.nil_append] at h1 h2 hstep ⊢
      rw [← Nat.add_assoc, ← Nat.add_assoc, hstep, h1, h2]

theorem findName_none_of_append : ∀ {s t : List Char}, findName (s ++ t) = none → findName s = none
  | [], _, _ => rfl
  | [_], _, _ => rfl
  | ch :: next :: s, t, h => by
    have h' : (if isalpha ch && (isalpha next || next = '_') then some ([], ch :: next :: (s ++ t))
        else (findName (next :: (s ++ t))).map fun found => (ch :: found.1, found.2)) = none := by
      rw [← findName]
      exact h
    rw [findName]
    by_cases hname : (isalpha ch && (isalpha next || next = '_')) = true
    · rw [if_pos hname] at h'
      cases h'
    · rw [if_neg hname] at h' ⊢
      have ih : findName (next :: s) = none := findName_none_of_append (t := t) (Option.map_eq_none_iff.mp h')
      rw [ih]
      rfl

/-- **`funcsub` of an expression.** -/
theorem funcsub_text {e : Expr} (hok : e.Ok false 0) :
    funcsub (e.text ['0'] false) = some (.ok (e.text ['0'] true)) := by
  obtain ⟨n, hn, htext⟩ := funcsubLoop_text e [] hok quiet_nil
  have hend : findName (e.text ['0'] true) = none := by
    refine findName_none_of_append (t := [')']) ?_
    have hquiet := quiet_text e hok (show Ends ')' from ⟨by decide, by decide⟩) []
    rw [List.append_nil] at hquiet
    exact hquiet
  have hfuel := htext ((e.text ['0'] false).countP isalpha - n)
  rw [Nat.sub_add_cancel hn, List.append_nil, List.append_nil, List.nil_append, List.nil_append] at hfuel
  unfold funcsub
  rw [hfuel, funcsubLoop_none hend]

end Trick.EqParse
