/-
  `utf8_to_wchar` and `wchar_to_utf8`: UTF-8 and wide strings.

  1. **Data.**  A `wchar_t` has two bytes and no sign, or four bytes and a sign; `Wchar` is its value.

  2. **Program.**  Both functions are the same loop (`Coder.call`) over a switch.  `utf8ToWchar` collects
     the bytes of a character as `escape_to_ascii` does, and puts out its UTF-32 or UTF-16 elements;
     `wcharToUtf8` keeps a high surrogate until the next element.

  3. **Specification.**  `wideEncoding` is UTF-32 or UTF-16.  A `Sequence` is what the switch takes for one
     character, whether it is one or not.

  4. **The loop** leaves in an array with enough room what the switch puts out (`call_sufficient`), and a
     string that is not read to its end returns zero (`call_zero`).

  5. **Main result** (`converted_iff`): the two functions are inverse exactly on the strings whose wide
     form needs no surrogates, and a string that is not valid UTF-8 is refused exactly if it does not
     consist of `Sequence`s.  The high surrogate lacks the subtraction of 0x10000 that the other function
     undoes, and the switch knows neither overlong forms nor, for UTF-32, the end of the code space.
-/
import Trick.Unicode.RoundTrip

namespace Trick.Unicode

open Trick.Lib

/-! ## The loop -/

/-- **The switch of one function**, and the states in which the input may end. -/
structure Coder (σ α β : Type) where
  initial : σ
  failed : σ
  step : σ → α → σ × List β
  done : σ → Bool
  /-- The NUL of the input and of the output. -/
  nul : α
  stop : β
  /-- The output array is cleared at the beginning. -/
  clears : Bool

/-- The local variables of the loop. -/
structure Coding (σ β : Type) where
  state : σ
  outLen : Nat
  out : Option (List β)

/-- `memcpy(&out[i], elements, …)` -/
def overwrite {β : Type} (cells : List β) (i : Nat) (elements : List β) : List β :=
  cells.take i ++ elements ++ cells.drop (i + elements.length)

namespace Coder

variable {σ α β : Type} [DecidableEq σ] [DecidableEq α]

/-- **One round of the loop.** -/
def advance (c : Coder σ α β) (outSize : Nat) (s : Coding σ β) (x : α) : Coding σ β :=
  if s.state = c.failed then s
  else
    let next := c.step s.state x
    let outLen := s.outLen + next.2.length
    match s.out with
    | none => { s with state := next.1, outLen := outLen }
    | some cells =>
      if next.2 = [] then { s with state := next.1 }
      else if outLen < outSize then
        { state := next.1, outLen := outLen, out := some (overwrite cells s.outLen next.2) }
      -- "Insufficient room in array (out)."
      else { s with state := c.failed, outLen := outLen }

/-- What stands before the NUL. -/
def text (c : Coder σ α β) (input : List α) : List α := input.takeWhile (· ≠ c.nul)

/-- **A whole call**: the output array as it is left, and the length that is returned. -/
def call (c : Coder σ α β) (input : Option (List α)) (out : Option (List β)) (outSize : Nat) :
    Option (List β) × Nat :=
  match input with
  | none => (out, 0)
  | some input =>
    let cleared := if c.clears then out.map (overwrite · 0 [c.stop]) else out
    let start : Coding σ β := { state := c.initial, outLen := 0, out := cleared }
    let s := (c.text input).foldl (c.advance outSize) start
    -- "If we didn't finish in state 0, it's an error."
    let outLen := if c.done s.state then s.outLen else 0
    (s.out.map (overwrite · outLen [c.stop]), outLen)

end Coder

/-! ## UTF-8 to wide strings -/

/-- `sizeof(wchar_t)` -/
inductive WcharSize where
  | two
  | four
deriving DecidableEq

/-- The value of a `wchar_t`. -/
abbrev Wchar := Int

/-- `ucodepoint_to_utf32` -/
def ucodepointToUtf32 (codePoint : Nat) : Option (List Wchar) :=
  -- "Not Surrogate"
  if codePoint < 0xd800 ∨ 0xe000 ≤ codePoint then some [Int.bmod codePoint (2 ^ 32)] else none

/-- The sixteen bits of an element, as a `wchar_t` without a sign. -/
def wchar16 (element : Nat) : Wchar := (element % 2 ^ 16 : Nat)

/-- `ucodepoint_to_utf16` -/
def ucodepointToUtf16 (codePoint : Nat) : Option (List Wchar) :=
  if codePoint > 0x10ffff then none
  else if codePoint > 0xffff then
    some [wchar16 (0xd800 + (codePoint >>> 10)), wchar16 (0xdc00 + (codePoint &&& 0x03ff))]
  else if codePoint < 0xd800 ∨ 0xe000 ≤ codePoint then some [wchar16 codePoint]
  else none

/-- The elements of a code point that has been read. -/
def wideElements : WcharSize → Nat → Option (List Wchar)
  | .four, codePoint => ucodepointToUtf32 codePoint
  | .two, codePoint => ucodepointToUtf16 codePoint

/-- The end of `case 1`. -/
def putWide (size : WcharSize) (codePoint : Nat) : EscapeState × List Wchar :=
  match wideElements size codePoint with
  | some elements => (.normal, elements)
  | none => (.error, [])

/-- `case 0` -/
def wideNormal (ch : UInt8) : EscapeState × List Wchar :=
  if 0xf0 ≤ ch then (.expecting 2 (ch &&& 0x07).toNat, [])
  else if 0xe0 ≤ ch then (.expecting 1 (ch &&& 0x0f).toNat, [])
  else if 0xc0 ≤ ch then (.expecting 0 (ch &&& 0x1f).toNat, [])
  -- "We should never find a UTF-8 continuation byte in isolation."
  else if 0x80 ≤ ch then (.error, [])
  else (.normal, [(ch.toNat : Wchar)])

/-- `case 1`, `case 2` and `case 3` -/
def wideExpecting (size : WcharSize) (after codePoint : Nat) (ch : UInt8) : EscapeState × List Wchar :=
  if ch &&& 0xc0 = 0x80 then
    let codePoint := codePoint <<< 6 ||| (ch &&& 0x3f).toNat
    match after with
    | 0 => putWide size codePoint
    | after + 1 => (.expecting after codePoint, [])
  else (.error, [])

/-- **The switch.** -/
def wideStep (size : WcharSize) : EscapeState → UInt8 → EscapeState × List Wchar
  | .normal, ch => wideNormal ch
  | .expecting after codePoint, ch => wideExpecting size after codePoint ch
  | .error, _ => (.error, [])

def utf8Coder (size : WcharSize) : Coder EscapeState UInt8 Wchar where
  initial := .normal
  failed := .error
  step := wideStep size
  done := fun s => decide (s = .normal)
  nul := 0
  stop := 0
  clears := true

/-- **`utf8_to_wchar`** -/
def utf8ToWchar (size : WcharSize) : Option (List UInt8) → Option (List Wchar) → Nat → Option (List Wchar) × Nat :=
  (utf8Coder size).call

/-! ## Wide strings to UTF-8 -/

/-- `state`, and the `codePoint` that has been begun. -/
inductive NarrowState where
  | normal (codePoint : Nat)
  | error
deriving DecidableEq

/-- The body of the loop. -/
def narrowNormal (codePoint : Nat) (x : Wchar) : NarrowState × List UInt8 :=
  -- "If High-surrogate."
  if 0xd800 ≤ x ∧ x ≤ 0xdbff then (.normal (((x - 0xd800).toNat <<< 10) + 0x10000), [])
  -- "If Low-surrogate."
  else if 0xdc00 ≤ x ∧ x ≤ 0xdfff then (.normal 0, ucodepointToUtf8 (codePoint ||| (x - 0xdc00).toNat))
  -- "Max Unicode Value"
  else if x ≤ 0x10ffff then (.normal 0, ucodepointToUtf8 (x % 2 ^ 32).toNat)
  else (.error, [])

def narrowStep : NarrowState → Wchar → NarrowState × List UInt8
  | .normal codePoint, x => narrowNormal codePoint x
  | .error, _ => (.error, [])

def wcharCoder : Coder NarrowState Wchar UInt8 where
  initial := .normal 0
  failed := .error
  step := narrowStep
  done := fun s => decide (s ≠ .error)
  nul := 0
  stop := 0
  clears := false

/-- **`wchar_to_utf8`** -/
def wcharToUtf8 : Option (List Wchar) → Option (List UInt8) → Nat → Option (List UInt8) × Nat := wcharCoder.call

/-! ## Specification -/

/-- **UTF-32 and UTF-16.** -/
def wideEncoding : WcharSize → Char → List Wchar
  | .four, c => [(c.toNat : Wchar)]
  | .two, c =>
    if c.toNat ≤ 0xffff then [(c.toNat : Wchar)]
    else [((0xd800 + (c.toNat - 0x10000) / 0x400 : Nat) : Wchar), ((0xdc00 + (c.toNat - 0x10000) % 0x400 : Nat) : Wchar)]

/-- **A text that is converted right**: in arrays of enough room its wide form is the standard one, and comes
    back as it was. -/
def Faithful (size : WcharSize) (text : List Char) : Prop :=
  ∀ (wide : List Wchar) (back : List UInt8) (wideSize backSize : Nat),
    wideSize ≤ wide.length → backSize ≤ back.length →
    (text.flatMap (wideEncoding size)).length < wideSize →
    (text.flatMap String.utf8EncodeChar).length < backSize →
      ∃ wide' back',
        utf8ToWchar size (some (text.flatMap String.utf8EncodeChar)) (some wide) wideSize =
          (some wide', (text.flatMap (wideEncoding size)).length) ∧
        wide'.take ((text.flatMap (wideEncoding size)).length + 1) = text.flatMap (wideEncoding size) ++ [0] ∧
        wcharToUtf8 (some wide') (some back) backSize =
          (some back', (text.flatMap String.utf8EncodeChar).length) ∧
        back'.take ((text.flatMap String.utf8EncodeChar).length + 1) = text.flatMap String.utf8EncodeChar ++ [0]

/-- **What is asked for of a string**: a valid one is converted right, and any other one refused. -/
def Converted (size : WcharSize) (s : List UInt8) : Prop :=
  (∀ text : List Char, s = text.flatMap String.utf8EncodeChar → Faithful size text) ∧
  (¬ ValidUtf8 s → ∀ (out : Option (List Wchar)) (outSize : Nat), (utf8ToWchar size (some s) out outSize).2 = 0)

/-- The bits that a continuation byte carries. -/
def lowBits (a : UInt8) : Nat := (a &&& 0x3f).toNat

def IsContinuation (a : UInt8) : Prop := a &&& 0xc0 = 0x80

/-- **What the switch takes for one character**, and the code point it finds there. -/
inductive Sequence : List UInt8 → Nat → Prop where
  | one {ch : UInt8} (h : ch < 0x80) : Sequence [ch] ch.toNat
  | two {ch a : UInt8} (hlow : 0xc0 ≤ ch) (hhigh : ch < 0xe0) (ha : IsContinuation a) :
    Sequence [ch, a] ((ch &&& 0x1f).toNat * 64 + lowBits a)
  | three {ch a b : UInt8} (hlow : 0xe0 ≤ ch) (hhigh : ch < 0xf0) (ha : IsContinuation a) (hb : IsContinuation b) :
    Sequence [ch, a, b] (((ch &&& 0x0f).toNat * 64 + lowBits a) * 64 + lowBits b)
  | four {ch a b d : UInt8} (hlow : 0xf0 ≤ ch) (ha : IsContinuation a) (hb : IsContinuation b) (hd : IsContinuation d) :
    Sequence [ch, a, b, d] ((((ch &&& 0x07).toNat * 64 + lowBits a) * 64 + lowBits b) * 64 + lowBits d)

/-- A code point that is not refused: it is not a surrogate, and in UTF-16 not too big. -/
def Allowed (size : WcharSize) (codePoint : Nat) : Prop :=
  (codePoint < 0xd800 ∨ 0xe000 ≤ codePoint) ∧ (size = .two → codePoint ≤ 0x10ffff)

/-- **Strings that are read to their end.** -/
def WellShaped (size : WcharSize) (s : List UInt8) : Prop :=
  ∃ pieces : List (List UInt8), s = pieces.flatten ∧
    ∀ p ∈ pieces, ∃ codePoint, Sequence p codePoint ∧ Allowed size codePoint

/-! ## The loop and what the switch puts out -/

section
variable {β : Type} {cells elements : List β} {i : Nat}

theorem length_overwrite (h : i + elements.length ≤ cells.length) :
    (overwrite cells i elements).length = cells.length := by
  unfold overwrite
  rw [List.length_append, List.length_append, List.length_take, List.length_drop]
  omega

/-- The elements stand where they have been written, behind what was there. -/
theorem take_overwrite (h : i + elements.length ≤ cells.length) :
    (overwrite cells i elements).take (i + elements.length) = cells.take i ++ elements := by
  have hlen : (cells.take i ++ elements).length = i + elements.length := by
    rw [List.length_append, List.length_take]
    omega
  unfold overwrite
  rw [← hlen, List.take_left]

end

namespace Coder

variable {σ α β : Type} [DecidableEq σ] [DecidableEq α]

/-- One element, with nothing in the way. -/
def feed (c : Coder σ α β) (p : σ × List β) (x : α) : σ × List β :=
  if p.1 = c.failed then p else ((c.step p.1 x).1, p.2 ++ (c.step p.1 x).2)

/-- The state the input leads to, and what is put out on the way. -/
def output (c : Coder σ α β) (input : List α) : σ × List β := (c.text input).foldl c.feed (c.initial, [])

omit [DecidableEq α] in
theorem length_le_run (c : Coder σ α β) (input : List α) (p : σ × List β) :
    p.2.length ≤ (input.foldl c.feed p).2.length := by
  induction input generalizing p with
  | nil => exact Nat.le_refl _
  | cons x input ih =>
    refine Nat.le_trans ?_ (ih (c.feed p x))
    unfold feed
    split
    · exact Nat.le_refl _
    · rw [List.length_append]
      omega

omit [DecidableEq α] in
/-- A state that has failed stays. -/
theorem run_failed (c : Coder σ α β) (input : List α) (acc : List β) :
    input.foldl c.feed (c.failed, acc) = (c.failed, acc) := by
  induction input with
  | nil => rfl
  | cons x input ih =>
    have hstop : c.feed (c.failed, acc) x = (c.failed, acc) := if_pos rfl
    rw [List.foldl_cons, hstop]
    exact ih

omit [DecidableEq α] in
/-- **The loop fails, or is in the state the input leads to.** -/
theorem advance_state (c : Coder σ α β) (outSize : Nat) {s : Coding σ β} {p : σ × List β}
    (h : s.state = c.failed ∨ s.state = p.1) (x : α) :
    (c.advance outSize s x).state = c.failed ∨ (c.advance outSize s x).state = (c.feed p x).1 := by
  unfold advance
  by_cases hf : s.state = c.failed
  · rw [if_pos hf]
    exact Or.inl hf
  · have hp : s.state = p.1 := h.resolve_left hf
    have hfeed : (c.feed p x).1 = (c.step s.state x).1 := by
      unfold feed
      rw [← hp, if_neg hf]
    rw [if_neg hf, hfeed]
    dsimp only
    split
    · exact Or.inr rfl
    · split_ifs
      · exact Or.inr rfl
      · exact Or.inr rfl
      · exact Or.inl rfl

omit [DecidableEq α] in
theorem run_state (c : Coder σ α β) (outSize : Nat) (input : List α) {s : Coding σ β} {p : σ × List β}
    (h : s.state = c.failed ∨ s.state = p.1) :
    (input.foldl (c.advance outSize) s).state = c.failed ∨
      (input.foldl (c.advance outSize) s).state = (input.foldl c.feed p).1 := by
  induction input generalizing s p with
  | nil => exact h
  | cons x input ih => exact ih (c.advance_state outSize h x)

/-- **A string that is not read to its end returns zero**, whatever array there is. -/
theorem call_zero (c : Coder σ α β) (hfailed : c.done c.failed = false) {input : List α}
    (h : c.done (c.output input).1 = false) (out : Option (List β)) (outSize : Nat) :
    (c.call (some input) out outSize).2 = 0 := by
  show (if c.done _ = true then _ else 0) = 0
  rw [if_neg]
  rcases c.run_state outSize (c.text input) (p := (c.initial, []))
    (s := ⟨c.initial, 0, if c.clears then out.map (overwrite · 0 [c.stop]) else out⟩) (Or.inr rfl) with hrun | hrun
  · rw [hrun, hfailed]
    exact Bool.false_ne_true
  · rw [hrun]
    intro hdone
    exact Bool.false_ne_true (h.symm.trans hdone)

omit [DecidableEq α] in
/-- Without an array there is nothing in the way. -/
theorem run_none (c : Coder σ α β) (outSize : Nat) (input : List α) (p : σ × List β) :
    input.foldl (c.advance outSize) ⟨p.1, p.2.length, none⟩ =
      ⟨(input.foldl c.feed p).1, (input.foldl c.feed p).2.length, none⟩ := by
  induction input generalizing p with
  | nil => rfl
  | cons x input ih =>
    have hone : c.advance outSize ⟨p.1, p.2.length, none⟩ x = ⟨(c.feed p x).1, (c.feed p x).2.length, none⟩ := by
      unfold advance feed
      by_cases hf : p.1 = c.failed
      · rw [if_pos hf, if_pos hf]
      · rw [if_neg hf, if_neg hf, List.length_append]
    rw [List.foldl_cons, List.foldl_cons, hone]
    exact ih (c.feed p x)

/-- **Without an array the length is returned.** -/
theorem call_none (c : Coder σ α β) {input : List α} (h : c.done (c.output input).1 = true) (outSize : Nat) :
    (c.call (some input) none outSize).2 = (c.output input).2.length := by
  have hrun := c.run_none outSize (c.text input) (c.initial, [])
  rw [List.length_nil] at hrun
  have hclear : (if c.clears then (none : Option (List β)).map (overwrite · 0 [c.stop]) else none) = none := by
    rw [Option.map_none, ite_self]
  show (if c.done _ = true then _ else 0) = _
  rw [hclear, hrun]
  exact if_pos h

/-- **The array keeps up with what is put out.** -/
structure Follows (outSize : Nat) (p : σ × List β) (s : Coding σ β) : Prop where
  state : s.state = p.1
  outLen : s.outLen = p.2.length
  out : ∃ cells, s.out = some cells ∧ outSize ≤ cells.length ∧ cells.take p.2.length = p.2

omit [DecidableEq α] in
theorem Follows.advance {c : Coder σ α β} {outSize : Nat} {p : σ × List β} {s : Coding σ β} (h : Follows outSize p s)
    {x : α} (hroom : (c.feed p x).2.length < outSize) : Follows outSize (c.feed p x) (c.advance outSize s x) := by
  obtain ⟨cells, hout, hsize, htake⟩ := h.out
  unfold Coder.advance
  unfold feed at hroom ⊢
  rw [h.state, h.outLen, hout]
  by_cases hf : p.1 = c.failed
  · rw [if_pos hf, if_pos hf]
    exact h
  · rw [if_neg hf] at hroom
    rw [if_neg hf, if_neg hf]
    rw [List.length_append] at hroom
    dsimp only
    by_cases he : (c.step p.1 x).2 = []
    · -- nothing is put out
      rw [if_pos he, he, List.append_nil]
      exact ⟨rfl, rfl, cells, rfl, hsize, htake⟩
    · rw [if_neg he, if_pos hroom]
      refine ⟨rfl, (List.length_append ..).symm, _, rfl, ?_, ?_⟩
      · rw [length_overwrite (by omega)]
        exact hsize
      · rw [List.length_append, take_overwrite (by omega), htake]

omit [DecidableEq α] in
theorem Follows.run {c : Coder σ α β} {outSize : Nat} (input : List α) {p : σ × List β} {s : Coding σ β}
    (h : Follows outSize p s) (hroom : (input.foldl c.feed p).2.length < outSize) :
    Follows outSize (input.foldl c.feed p) (input.foldl (c.advance outSize) s) := by
  induction input generalizing p s with
  | nil => exact h
  | cons x input ih =>
    have hnow := Nat.lt_of_le_of_lt (c.length_le_run input (c.feed p x)) hroom
    exact ih (h.advance hnow) hroom

/-- **An array with enough room gets what is put out**, with a NUL behind it. -/
theorem call_sufficient (c : Coder σ α β) {input : List α} (hdone : c.done (c.output input).1 = true)
    {cells : List β} {outSize : Nat} (hsize : outSize ≤ cells.length) (hroom : (c.output input).2.length < outSize) :
    ∃ cells', c.call (some input) (some cells) outSize = (some cells', (c.output input).2.length) ∧
      cells'.take ((c.output input).2.length + 1) = (c.output input).2 ++ [c.stop] := by
  have hstart : Follows outSize (c.initial, []) (⟨c.initial, 0,
      if c.clears then (some cells).map (overwrite · 0 [c.stop]) else some cells⟩ : Coding σ β) := by
    refine ⟨rfl, rfl, ?_⟩
    split
    · refine ⟨_, rfl, ?_, List.take_zero⟩
      rw [length_overwrite (by rw [List.length_singleton]; omega)]
      exact hsize
    · exact ⟨cells, rfl, hsize, List.take_zero⟩
  obtain ⟨hstate, hlen, cells', hout, hsize', htake⟩ := hstart.run (c.text input) hroom
  refine ⟨overwrite cells' (c.output input).2.length [c.stop], ?_, ?_⟩
  · show (Option.map _ _, if c.done _ = true then _ else 0) = _
    rw [hout, hlen, hstate]
    rw [show c.done ((c.text input).foldl c.feed (c.initial, [])).1 = true from hdone, if_pos rfl]
    rfl
  · have htake' : cells'.take (c.output input).2.length = (c.output input).2 := htake
    have hend : (overwrite cells' (c.output input).2.length [c.stop]).take
        ((c.output input).2.length + [c.stop].length) = _ := take_overwrite (by rw [List.length_singleton]; omega)
    rw [List.length_singleton, htake'] at hend
    exact hend

end Coder

/-! ## One character -/

theorem lowBits_lt (a : UInt8) : lowBits a < 64 := by
  have hall : ∀ n < 256, lowBits (UInt8.ofNat n) < 64 := by decide +kernel
  exact forall_byte (P := fun a => lowBits a < 64) hall a

/-- The bits of a first byte. -/
theorem leadBits_lt (ch : UInt8) : (ch &&& 0x1f).toNat < 32 ∧ (ch &&& 0x0f).toNat < 16 ∧ (ch &&& 0x07).toNat < 8 := by
  have hall : ∀ n < 256, (UInt8.ofNat n &&& 0x1f).toNat < 32 ∧ (UInt8.ofNat n &&& 0x0f).toNat < 16 ∧
      (UInt8.ofNat n &&& 0x07).toNat < 8 := by
    decide +kernel
  exact forall_byte (P := fun ch => (ch &&& 0x1f).toNat < 32 ∧ (ch &&& 0x0f).toNat < 16 ∧ (ch &&& 0x07).toNat < 8) hall ch

theorem Sequence.lt {p : List UInt8} {v : Nat} (h : Sequence p v) : v < 2 ^ 21 := by
  cases h with
  | @one ch h =>
    have hch := UInt8.toNat_lt ch
    omega
  | @two ch a hlow hhigh ha =>
    have := (leadBits_lt ch).1
    have := lowBits_lt a
    omega
  | @three ch a b hlow hhigh ha hb =>
    have := (leadBits_lt ch).2.1
    have := lowBits_lt a
    have := lowBits_lt b
    omega
  | @four ch a b d hlow ha hb hd =>
    have := (leadBits_lt ch).2.2
    have := lowBits_lt a
    have := lowBits_lt b
    have := lowBits_lt d
    omega

theorem wchar16_eq {element : Nat} (h : element < 2 ^ 16) : wchar16 element = element := by
  unfold wchar16
  rw [Nat.mod_eq_of_lt h]

theorem ucodepointToUtf32_eq {v : Nat} (h : v < 0xd800 ∨ 0xe000 ≤ v) (hsmall : v < 2 ^ 21) :
    ucodepointToUtf32 v = some [(v : Wchar)] := by
  have hmod : Int.bmod (v : Int) (2 ^ 32) = v := Int.bmod_eq_of_le (by omega) (by omega)
  unfold ucodepointToUtf32
  rw [if_pos h, hmod]

theorem ucodepointToUtf16_small {v : Nat} (h : v < 0xd800 ∨ 0xe000 ≤ v) (hsmall : v ≤ 0xffff) :
    ucodepointToUtf16 v = some [(v : Wchar)] := by
  unfold ucodepointToUtf16
  rw [if_neg (by omega), if_neg (by omega), if_pos h, wchar16_eq (by omega)]

/-- The surrogates, as the function has them. -/
theorem ucodepointToUtf16_big {v : Nat} (h : 0xffff < v) (hmax : v ≤ 0x10ffff) :
    ucodepointToUtf16 v = some [((0xd800 + v / 0x400 : Nat) : Wchar), ((0xdc00 + v % 0x400 : Nat) : Wchar)] := by
  have hshift : v >>> 10 = v / 0x400 := Nat.shiftRight_eq_div_pow v 10
  have hmask : v &&& 0x3ff = v % 0x400 := Nat.and_two_pow_sub_one_eq_mod v 10
  unfold ucodepointToUtf16
  rw [if_neg (by omega), if_pos h, hshift, hmask, wchar16_eq (by omega), wchar16_eq (by omega)]

/-- Something is put out for every code point that is allowed. -/
theorem putWide_allowed {size : WcharSize} {v : Nat} (h : Allowed size v) (hsmall : v < 2 ^ 21) :
    (putWide size v).1 = .normal ∧ (putWide size v).2 ≠ [] := by
  obtain ⟨hnot, hmax⟩ := h
  unfold putWide wideElements
  cases size with
  | four =>
    dsimp only
    rw [ucodepointToUtf32_eq hnot hsmall]
    exact ⟨rfl, List.cons_ne_nil _ _⟩
  | two =>
    dsimp only
    by_cases hbig : 0xffff < v
    · rw [ucodepointToUtf16_big hbig (hmax rfl)]
      exact ⟨rfl, List.cons_ne_nil _ _⟩
    · rw [ucodepointToUtf16_small hnot (by omega)]
      exact ⟨rfl, List.cons_ne_nil _ _⟩

/-- The other ones end the loop. -/
theorem putWide_refused {size : WcharSize} {v : Nat} (h : ¬ Allowed size v) : (putWide size v).1 = .error := by
  unfold Allowed at h
  unfold putWide wideElements
  cases size with
  | four =>
    have hnone : ucodepointToUtf32 v = none := by
      unfold ucodepointToUtf32
      exact if_neg fun hnot => h ⟨hnot, fun hsize => nomatch hsize⟩
    dsimp only
    rw [hnone]
  | two =>
    have hnone : ucodepointToUtf16 v = none := by
      unfold ucodepointToUtf16
      by_cases hmax : v > 0x10ffff
      · exact if_pos hmax
      · have hnot : ¬ (v < 0xd800 ∨ 0xe000 ≤ v) := fun hnot => h ⟨hnot, fun _ => by omega⟩
        rw [if_neg hmax, if_neg (by omega), if_neg hnot]
    dsimp only
    rw [hnone]

/-! ## The bytes of a character -/

section
variable (size : WcharSize) (acc : List Wchar)

theorem feed_wideNormal (ch : UInt8) :
    (utf8Coder size).feed (.normal, acc) ch = ((wideNormal ch).1, acc ++ (wideNormal ch).2) :=
  if_neg (show ¬ EscapeState.normal = EscapeState.error from EscapeState.noConfusion)

theorem feed_wideExpecting (after codePoint : Nat) (ch : UInt8) :
    (utf8Coder size).feed (.expecting after codePoint, acc) ch =
      ((wideExpecting size after codePoint ch).1, acc ++ (wideExpecting size after codePoint ch).2) :=
  if_neg (show ¬ EscapeState.expecting after codePoint = EscapeState.error from EscapeState.noConfusion)

theorem feed_wideMore (after codePoint : Nat) {a : UInt8} (ha : IsContinuation a) :
    (utf8Coder size).feed (.expecting (after + 1) codePoint, acc) a =
      (.expecting after (codePoint * 64 + lowBits a), acc) := by
  have hmark : a &&& 0xc0 = 0x80 := ha
  rw [feed_wideExpecting, ← shift_or codePoint (lowBits_lt a)]
  unfold wideExpecting
  rw [if_pos hmark]
  exact Prod.ext rfl (List.append_nil acc)

theorem feed_wideLast (codePoint : Nat) {a : UInt8} (ha : IsContinuation a) :
    (utf8Coder size).feed (.expecting 0 codePoint, acc) a =
      ((putWide size (codePoint * 64 + lowBits a)).1, acc ++ (putWide size (codePoint * 64 + lowBits a)).2) := by
  have hmark : a &&& 0xc0 = 0x80 := ha
  rw [feed_wideExpecting, ← shift_or codePoint (lowBits_lt a)]
  unfold wideExpecting
  rw [if_pos hmark]
  rfl

/-- Another byte ends the loop. -/
theorem feed_wideBroken (after codePoint : Nat) {a : UInt8} (ha : ¬ IsContinuation a) :
    (utf8Coder size).feed (.expecting after codePoint, acc) a = (.error, acc) := by
  have hmark : ¬ a &&& 0xc0 = 0x80 := ha
  rw [feed_wideExpecting]
  unfold wideExpecting
  rw [if_neg hmark]
  exact Prod.ext rfl (List.append_nil acc)

/-- **The bytes that are taken for one character put it out.** -/
theorem run_sequence {p : List UInt8} {v : Nat} (h : Sequence p v) :
    p.foldl (utf8Coder size).feed (.normal, acc) = ((putWide size v).1, acc ++ (putWide size v).2) := by
  cases h with
  | @one ch h =>
    have hlt : ch.toNat < 0x80 := UInt8.lt_iff_toNat_lt.mp h
    have hnot : ∀ {k : UInt8}, 0x80 ≤ k.toNat → ¬ k ≤ ch := fun hk hle => by
      have := UInt8.le_iff_toNat_le.mp hle
      omega
    have hput : putWide size ch.toNat = (.normal, [(ch.toNat : Wchar)]) := by
      unfold putWide wideElements
      cases size with
      | four =>
        dsimp only
        rw [ucodepointToUtf32_eq (Or.inl (by omega)) (by omega)]
      | two =>
        dsimp only
        rw [ucodepointToUtf16_small (Or.inl (by omega)) (by omega)]
    rw [List.foldl_cons, List.foldl_nil, feed_wideNormal, hput]
    unfold wideNormal
    rw [if_neg (hnot (by decide)), if_neg (hnot (by decide)), if_neg (hnot (by decide)), if_neg (hnot (by decide))]
  | @two ch a hlow hhigh ha =>
    have hlead : wideNormal ch = (.expecting 0 (ch &&& 0x1f).toNat, []) := by
      have hle : ¬ 0xe0 ≤ ch := fun hle => absurd hhigh (UInt8.not_lt.mpr hle)
      have hle' : ¬ 0xf0 ≤ ch := fun hle' => hle (UInt8.le_trans (by decide) hle')
      unfold wideNormal
      rw [if_neg hle', if_neg hle, if_pos hlow]
    rw [List.foldl_cons, feed_wideNormal, hlead, List.append_nil, List.foldl_cons, feed_wideLast size acc _ ha,
      List.foldl_nil]
  | @three ch a b hlow hhigh ha hb =>
    have hlead : wideNormal ch = (.expecting 1 (ch &&& 0x0f).toNat, []) := by
      have hle : ¬ 0xf0 ≤ ch := fun hle => absurd hhigh (UInt8.not_lt.mpr hle)
      unfold wideNormal
      rw [if_neg hle, if_pos hlow]
    rw [List.foldl_cons, feed_wideNormal, hlead, List.append_nil, List.foldl_cons, feed_wideMore size acc _ _ ha,
      List.foldl_cons, feed_wideLast size acc _ hb, List.foldl_nil]
  | @four ch a b d hlow ha hb hd =>
    have hlead : wideNormal ch = (.expecting 2 (ch &&& 0x07).toNat, []) := if_pos hlow
    rw [List.foldl_cons, feed_wideNormal, hlead, List.append_nil, List.foldl_cons, feed_wideMore size acc _ _ ha,
      List.foldl_cons, feed_wideMore size acc _ _ hb, List.foldl_cons, feed_wideLast size acc _ hd, List.foldl_nil]

end

/-! ## Strings that are read to their end -/

theorem WellShaped.nil (size : WcharSize) : WellShaped size [] :=
  ⟨[], rfl, fun _ hp => absurd hp List.not_mem_nil⟩

theorem WellShaped.append {size : WcharSize} {p s : List UInt8} {v : Nat} (hp : Sequence p v) (hv : Allowed size v)
    (hs : WellShaped size s) : WellShaped size (p ++ s) := by
  obtain ⟨pieces, rfl, hpieces⟩ := hs
  refine ⟨p :: pieces, rfl, ?_⟩
  intro q hq
  rcases List.mem_cons.mp hq with rfl | hq
  · exact ⟨v, hp, hv⟩
  · exact hpieces q hq

/-- **A string of sequences is read to its end**, and each of them puts something out. -/
theorem run_wellShaped {size : WcharSize} {s : List UInt8} (h : WellShaped size s) (acc : List Wchar) :
    (s.foldl (utf8Coder size).feed (.normal, acc)).1 = .normal ∧
      (s ≠ [] → acc.length < (s.foldl (utf8Coder size).feed (.normal, acc)).2.length) := by
  obtain ⟨pieces, rfl, hpieces⟩ := h
  induction pieces generalizing acc with
  | nil => exact ⟨rfl, fun hne => absurd rfl hne⟩
  | cons p pieces ih =>
    obtain ⟨⟨v, hp, hv⟩, hrest⟩ := List.forall_mem_cons.mp hpieces
    obtain ⟨hstate, hput⟩ := putWide_allowed hv hp.lt
    have hpos := List.length_pos_iff.mpr hput
    rw [List.flatten_cons, List.foldl_append, run_sequence size acc hp, hstate]
    obtain ⟨hend, -⟩ := ih (acc ++ (putWide size v).2) hrest
    have hmore := (utf8Coder size).length_le_run pieces.flatten (.normal, acc ++ (putWide size v).2)
    rw [List.length_append] at hmore
    exact ⟨hend, fun _ => by omega⟩

section
variable {size : WcharSize} {rest : List UInt8} {codePoint : Nat} {acc : List Wchar}

/-- What has failed does not end in `state` zero. -/
theorem not_normal_of_error (h : (rest.foldl (utf8Coder size).feed (.error, acc)).1 = .normal) : False := by
  have hfailed : rest.foldl (utf8Coder size).feed (.error, acc) = (.error, acc) :=
    (utf8Coder size).run_failed rest acc
  rw [hfailed] at h
  exact EscapeState.noConfusion h

/-- Where a continuation byte is expected, there is one. -/
theorem continuation_of_normal {after : Nat}
    (h : (rest.foldl (utf8Coder size).feed (.expecting after codePoint, acc)).1 = .normal) :
    ∃ a rest', rest = a :: rest' ∧ IsContinuation a := by
  cases rest with
  | nil => exact EscapeState.noConfusion h
  | cons a rest =>
    by_cases ha : IsContinuation a
    · exact ⟨a, rest, rfl, ha⟩
    · rw [List.foldl_cons, feed_wideBroken size acc after codePoint ha] at h
      exact (not_normal_of_error h).elim

theorem more_of_normal {after : Nat}
    (h : (rest.foldl (utf8Coder size).feed (.expecting (after + 1) codePoint, acc)).1 = .normal) :
    ∃ a rest', rest = a :: rest' ∧ IsContinuation a ∧
      (rest'.foldl (utf8Coder size).feed (.expecting after (codePoint * 64 + lowBits a), acc)).1 = .normal := by
  obtain ⟨a, rest', rfl, ha⟩ := continuation_of_normal h
  rw [List.foldl_cons, feed_wideMore size acc after codePoint ha] at h
  exact ⟨a, rest', rfl, ha, h⟩

theorem last_of_normal (h : (rest.foldl (utf8Coder size).feed (.expecting 0 codePoint, acc)).1 = .normal) :
    ∃ a rest', rest = a :: rest' ∧ IsContinuation a ∧ Allowed size (codePoint * 64 + lowBits a) ∧
      ∃ acc', (rest'.foldl (utf8Coder size).feed (.normal, acc')).1 = .normal := by
  obtain ⟨a, rest', rfl, ha⟩ := continuation_of_normal h
  rw [List.foldl_cons, feed_wideLast size acc codePoint ha] at h
  by_cases hv : Allowed size (codePoint * 64 + lowBits a)
  · -- the state is known only after the test of the code point
    refine ⟨a, rest', rfl, ha, hv, acc ++ (putWide size (codePoint * 64 + lowBits a)).2, ?_⟩
    unfold putWide at h ⊢
    cases hw : wideElements size (codePoint * 64 + lowBits a) with
    | some elements =>
      rw [hw] at h
      exact h
    | none =>
      rw [hw] at h
      exact (not_normal_of_error h).elim
  · rw [putWide_refused hv] at h
    exact (not_normal_of_error h).elim

end

/-- **What is read to its end is a string of sequences.** -/
theorem wellShaped_of_normal (size : WcharSize) (s : List UInt8) (acc : List Wchar)
    (h : (s.foldl (utf8Coder size).feed (.normal, acc)).1 = .normal) : WellShaped size s := by
  induction hn : s.length using Nat.strong_induction_on generalizing s acc with
  | _ n ih =>
    subst hn
    cases s with
    | nil => exact WellShaped.nil size
    | cons ch rest =>
      rw [List.foldl_cons, feed_wideNormal] at h
      unfold wideNormal at h
      split at h
      · -- four bytes
        rename_i hlow
        obtain ⟨a, rest, rfl, ha, h⟩ := more_of_normal h
        obtain ⟨b, rest, rfl, hb, h⟩ := more_of_normal h
        obtain ⟨d, rest, rfl, hd, hv, acc', h⟩ := last_of_normal h
        have hrest := ih rest.length (by simp only [List.length_cons]; omega) rest acc' h rfl
        exact WellShaped.append (Sequence.four hlow ha hb hd) hv hrest
      · rename_i hnot4
        split at h
        · -- three bytes
          rename_i hlow
          obtain ⟨a, rest, rfl, ha, h⟩ := more_of_normal h
          obtain ⟨b, rest, rfl, hb, hv, acc', h⟩ := last_of_normal h
          have hrest := ih rest.length (by simp only [List.length_cons]; omega) rest acc' h rfl
          exact WellShaped.append (Sequence.three hlow (UInt8.not_le.mp hnot4) ha hb) hv hrest
        · rename_i hnot3
          split at h
          · -- two bytes
            rename_i hlow
            obtain ⟨a, rest, rfl, ha, hv, acc', h⟩ := last_of_normal h
            have hrest := ih rest.length (by simp only [List.length_cons]; omega) rest acc' h rfl
            exact WellShaped.append (Sequence.two hlow (UInt8.not_le.mp hnot3) ha) hv hrest
          · split at h
            · exact (not_normal_of_error h).elim
            · -- ASCII
              rename_i hnot1
              have hch : ch < 0x80 := UInt8.not_le.mp hnot1
              have hlt : ch.toNat < 0x80 := UInt8.lt_iff_toNat_lt.mp hch
              have hrest := ih rest.length (by simp only [List.length_cons]; omega) rest _ h rfl
              exact WellShaped.append (Sequence.one hch) ⟨Or.inl (by omega), fun _ => by omega⟩ hrest

/-! ## Valid strings -/

/-- The first bytes of the encodings. -/
theorem leadByte :
    (∀ d < 32, 0xc0 ≤ UInt8.ofNat (d + 0xc0) ∧ UInt8.ofNat (d + 0xc0) < 0xe0 ∧
      (UInt8.ofNat (d + 0xc0) &&& 0x1f).toNat = d) ∧
    (∀ d < 16, 0xe0 ≤ UInt8.ofNat (d + 0xe0) ∧ UInt8.ofNat (d + 0xe0) < 0xf0 ∧
      (UInt8.ofNat (d + 0xe0) &&& 0x0f).toNat = d) ∧
    (∀ d < 8, 0xf0 ≤ UInt8.ofNat (d + 0xf0) ∧ (UInt8.ofNat (d + 0xf0) &&& 0x07).toNat = d) := by
  refine ⟨?_, ?_, ?_⟩
  all_goals decide +kernel

theorem continuationByte {d : Nat} (h : d < 64) :
    IsContinuation (UInt8.ofNat (d + 0x80)) ∧ lowBits (UInt8.ofNat (d + 0x80)) = d := continuation_byte h

/-- **The encoding of a character is a sequence.** -/
theorem sequence_char (c : Char) : Sequence (String.utf8EncodeChar c) c.toNat := by
  obtain ⟨hlead2, hlead3, hlead4⟩ := leadByte
  have hmax := toNat_lt_max c
  have hval : c.val.toNat = c.toNat := rfl
  obtain ⟨hc0, hb0⟩ := continuationByte (d := c.toNat % 64) (Nat.mod_lt _ (by omega))
  obtain ⟨hc1, hb1⟩ := continuationByte (d := c.toNat / 64 % 64) (Nat.mod_lt _ (by omega))
  obtain ⟨hc2, hb2⟩ := continuationByte (d := c.toNat / 4096 % 64) (Nat.mod_lt _ (by omega))
  unfold String.utf8EncodeChar
  simp only [hval]
  by_cases h1 : c.toNat ≤ 0x7f
  · have hch : (UInt8.ofNat c.toNat).toNat = c.toNat := by
      rw [UInt8.toNat_ofNat']
      omega
    have hlow : UInt8.ofNat c.toNat < 0x80 := by
      rw [UInt8.lt_iff_toNat_lt, hch]
      exact Nat.lt_succ_of_le h1
    have hone := Sequence.one hlow
    rw [hch] at hone
    rw [if_pos h1]
    exact hone
  · rw [if_neg h1]
    by_cases h2 : c.toNat ≤ 0x7ff
    · obtain ⟨hlow, hhigh, hbits⟩ := hlead2 (c.toNat / 64 % 32) (Nat.mod_lt _ (by omega))
      have htwo := Sequence.two hlow hhigh hc0
      have hsum : c.toNat / 64 % 32 * 64 + c.toNat % 64 = c.toNat := by omega
      rw [hbits, hb0, hsum] at htwo
      rw [if_pos h2]
      exact htwo
    · rw [if_neg h2]
      by_cases h3 : c.toNat ≤ 0xffff
      · obtain ⟨hlow, hhigh, hbits⟩ := hlead3 (c.toNat / 4096 % 16) (Nat.mod_lt _ (by omega))
        have hthree := Sequence.three hlow hhigh hc1 hc0
        have hsum : (c.toNat / 4096 % 16 * 64 + c.toNat / 64 % 64) * 64 + c.toNat % 64 = c.toNat := by omega
        rw [hbits, hb0, hb1, hsum] at hthree
        rw [if_pos h3]
        exact hthree
      · obtain ⟨hlow, hbits⟩ := hlead4 (c.toNat / 262144 % 8) (Nat.mod_lt _ (by omega))
        have hfour := Sequence.four hlow hc2 hc1 hc0
        have hsum : ((c.toNat / 262144 % 8 * 64 + c.toNat / 4096 % 64) * 64 + c.toNat / 64 % 64) * 64 +
            c.toNat % 64 = c.toNat := by omega
        rw [hbits, hb0, hb1, hb2, hsum] at hfour
        rw [if_neg h3]
        exact hfour

theorem allowed_char (size : WcharSize) (c : Char) : Allowed size c.toNat := by
  have hmax := toNat_lt_max c
  refine ⟨?_, fun _ => by omega⟩
  rcases c.valid with hlow | ⟨hlow, -⟩
  · exact Or.inl hlow
  · exact Or.inr (by exact hlow)

/-- What is put out for a character. -/
def codedAs (size : WcharSize) (c : Char) : List Wchar := (putWide size c.toNat).2

/-- The wide form of a text, as the function has it. -/
theorem run_chars (size : WcharSize) (text : List Char) (acc : List Wchar) :
    (text.flatMap String.utf8EncodeChar).foldl (utf8Coder size).feed (.normal, acc) =
      (.normal, acc ++ text.flatMap (codedAs size)) := by
  induction text generalizing acc with
  | nil => exact Prod.ext rfl (List.append_nil acc).symm
  | cons c text ih =>
    obtain ⟨hstate, -⟩ := putWide_allowed (allowed_char size c) (sequence_char c).lt
    rw [List.flatMap_cons, List.foldl_append, run_sequence size acc (sequence_char c), hstate, ih,
      List.append_assoc, List.flatMap_cons]
    rfl

/-- Characters that need no surrogates. -/
def Simple (size : WcharSize) (c : Char) : Prop := size = .two → c.toNat ≤ 0xffff

theorem codedAs_simple {size : WcharSize} {c : Char} (h : Simple size c) :
    codedAs size c = [(c.toNat : Wchar)] ∧ wideEncoding size c = [(c.toNat : Wchar)] := by
  have hnot := (allowed_char size c).1
  have hsmall := (sequence_char c).lt
  unfold codedAs putWide wideElements wideEncoding
  cases size with
  | four =>
    dsimp only
    rw [ucodepointToUtf32_eq hnot hsmall]
    exact ⟨rfl, rfl⟩
  | two =>
    dsimp only
    rw [ucodepointToUtf16_small hnot (h rfl), if_pos (h rfl)]
    exact ⟨rfl, rfl⟩

/-- **The high surrogate is not the right one.** -/
theorem codedAs_big {c : Char} (h : ¬ Simple .two c) :
    (codedAs .two c).length = (wideEncoding .two c).length ∧ codedAs .two c ≠ wideEncoding .two c := by
  have hbig : ¬ c.toNat ≤ 0xffff := fun hle => h fun _ => hle
  have hmax := toNat_lt_max c
  unfold codedAs putWide wideElements wideEncoding
  dsimp only
  rw [ucodepointToUtf16_big (by omega) (by omega), if_neg hbig]
  refine ⟨by simp only [List.length_cons, List.length_nil], ?_⟩
  intro heq
  have hhigh : 0xd800 + c.toNat / 0x400 = 0xd800 + (c.toNat - 0x10000) / 0x400 :=
    Int.ofNat_inj.mp (List.cons.inj heq).1
  omega

theorem length_codedAs (size : WcharSize) (c : Char) :
    (codedAs size c).length = (wideEncoding size c).length := by
  by_cases h : Simple size c
  · rw [(codedAs_simple h).1, (codedAs_simple h).2]
  · cases size with
    | four => exact absurd (fun hsize => nomatch hsize) h
    | two => exact (codedAs_big h).1

/-- Texts of elements of the same lengths are the same only if all of the elements are. -/
theorem flatMap_eq {α β : Type} {f g : α → List β} (l : List α) (hlen : ∀ x ∈ l, (f x).length = (g x).length)
    (h : l.flatMap f = l.flatMap g) : ∀ x ∈ l, f x = g x := by
  induction l with
  | nil => exact fun x hx => absurd hx List.not_mem_nil
  | cons y l ih =>
    obtain ⟨hy, hl⟩ := List.forall_mem_cons.mp hlen
    rw [List.flatMap_cons, List.flatMap_cons] at h
    obtain ⟨hhead, htail⟩ := List.append_inj h hy
    exact List.forall_mem_cons.mpr ⟨hhead, ih hl htail⟩

/-! ## And back -/

theorem feed_narrow (codePoint : Nat) (acc : List UInt8) (x : Wchar) :
    wcharCoder.feed (.normal codePoint, acc) x = ((narrowNormal codePoint x).1, acc ++ (narrowNormal codePoint x).2) :=
  if_neg (show ¬ NarrowState.normal codePoint = NarrowState.error from NarrowState.noConfusion)

/-- A character of one element. -/
theorem narrowNormal_char (codePoint : Nat) (c : Char) :
    narrowNormal codePoint (c.toNat : Wchar) = (.normal 0, String.utf8EncodeChar c) := by
  have hnot := (allowed_char .four c).1
  have hmax := toNat_lt_max c
  have hmod : ((c.toNat : Int) % 2 ^ 32).toNat = c.toNat := by omega
  have hhigh : ¬ (0xd800 ≤ (c.toNat : Int) ∧ (c.toNat : Int) ≤ 0xdbff) := by omega
  have hlow : ¬ (0xdc00 ≤ (c.toNat : Int) ∧ (c.toNat : Int) ≤ 0xdfff) := by omega
  have hle : (c.toNat : Int) ≤ 0x10ffff := by omega
  unfold narrowNormal
  rw [if_neg hhigh, if_neg hlow, if_pos hle, hmod, ucodepointToUtf8_char]

theorem run_wide {size : WcharSize} {text : List Char} (h : ∀ c ∈ text, Simple size c) (acc : List UInt8) :
    (text.flatMap (wideEncoding size)).foldl wcharCoder.feed (.normal 0, acc) =
      (.normal 0, acc ++ text.flatMap String.utf8EncodeChar) := by
  induction text generalizing acc with
  | nil => exact Prod.ext rfl (List.append_nil acc).symm
  | cons c text ih =>
    obtain ⟨hc, hrest⟩ := List.forall_mem_cons.mp h
    rw [List.flatMap_cons, List.foldl_append, (codedAs_simple hc).2, List.foldl_cons, List.foldl_nil, feed_narrow,
      narrowNormal_char, ih hrest, List.append_assoc, List.flatMap_cons]

/-- The input of a call is what stands before the NUL. -/
theorem text_of_take {σ α β : Type} [DecidableEq α] {c : Coder σ α β} {input front : List α}
    (h : input.take (front.length + 1) = front ++ [c.nul]) (hno : c.nul ∉ front) : c.text input = front := by
  have hsplit : input = front ++ c.nul :: input.drop (front.length + 1) := by
    conv_lhs => rw [← List.take_append_drop (front.length + 1) input, h, List.append_assoc]
    rfl
  have hall : ∀ x ∈ front, decide (x ≠ c.nul) = true := fun x hx => decide_eq_true fun hz => hno (hz ▸ hx)
  unfold Coder.text
  rw [hsplit, List.takeWhile_append_of_pos hall, List.takeWhile_cons_of_neg, List.append_nil]
  rw [decide_eq_true_eq, not_not]

theorem text_of_not_mem {size : WcharSize} {s : List UInt8} (h : 0 ∉ s) : (utf8Coder size).text s = s :=
  cString_eq_self h

/-! ## Whole strings -/

section
variable {size : WcharSize} {text : List Char}

theorem output_chars (hnul : 0 ∉ text.flatMap String.utf8EncodeChar) :
    (utf8Coder size).output (text.flatMap String.utf8EncodeChar) = (.normal, text.flatMap (codedAs size)) := by
  unfold Coder.output
  rw [text_of_not_mem hnul]
  exact run_chars size text []

/-- **A text without surrogates is converted right.** -/
theorem faithful_of_simple (hnul : 0 ∉ text.flatMap String.utf8EncodeChar) (h : ∀ c ∈ text, Simple size c) :
    Faithful size text := by
  intro wide back wideSize backSize hwide hback hwideRoom hbackRoom
  have hsame : text.flatMap (codedAs size) = text.flatMap (wideEncoding size) := by
    rw [List.flatMap_def, List.flatMap_def]
    congr 1
    exact List.map_congr_left fun c hc => ((codedAs_simple (h c hc)).1).trans (codedAs_simple (h c hc)).2.symm
  have hout : (utf8Coder size).output (text.flatMap String.utf8EncodeChar) = _ := output_chars hnul
  rw [hsame] at hout
  -- the first call
  have hdone : (utf8Coder size).done ((utf8Coder size).output (text.flatMap String.utf8EncodeChar)).1 = true := by
    rw [hout]
    rfl
  obtain ⟨wide', hcall, htake⟩ := (utf8Coder size).call_sufficient hdone hwide (by rw [hout]; exact hwideRoom)
  rw [hout] at hcall htake
  -- there is no NUL in the wide form
  have hno : (0 : Wchar) ∉ text.flatMap (wideEncoding size) := by
    intro hmem
    obtain ⟨c, hc, hzero⟩ := List.mem_flatMap.mp hmem
    rw [(codedAs_simple (h c hc)).2, List.mem_singleton] at hzero
    exact ne_of_not_mem (n := 0) (Nat.zero_le _) hnul c hc (Int.ofNat_inj.mp hzero.symm)
  have htext : wcharCoder.text wide' = text.flatMap (wideEncoding size) := text_of_take (c := wcharCoder) htake hno
  have hout' : wcharCoder.output wide' = (.normal 0, text.flatMap String.utf8EncodeChar) := by
    unfold Coder.output
    rw [htext]
    exact run_wide h []
  -- the second call
  have hdone' : wcharCoder.done (wcharCoder.output wide').1 = true := by
    rw [hout']
    rfl
  obtain ⟨back', hcall', htake'⟩ := wcharCoder.call_sufficient hdone' hback (by rw [hout']; exact hbackRoom)
  rw [hout'] at hcall' htake'
  exact ⟨wide', back', hcall, htake, hcall', htake'⟩

/-- **A text with surrogates is not.** -/
theorem simple_of_faithful (hnul : 0 ∉ text.flatMap String.utf8EncodeChar) (h : Faithful size text) :
    ∀ c ∈ text, Simple size c := by
  have hout : (utf8Coder size).output (text.flatMap String.utf8EncodeChar) = _ := output_chars hnul
  have hlen : (text.flatMap (codedAs size)).length = (text.flatMap (wideEncoding size)).length := by
    rw [List.length_flatMap, List.length_flatMap]
    congr 1
    exact List.map_congr_left fun c _ => length_codedAs size c
  -- arrays of just enough room
  have hwide : (text.flatMap (wideEncoding size)).length + 1 ≤
      (List.replicate ((text.flatMap (wideEncoding size)).length + 1) (0 : Wchar)).length := by
    rw [List.length_replicate]
  have hback : (text.flatMap String.utf8EncodeChar).length + 1 ≤
      (List.replicate ((text.flatMap String.utf8EncodeChar).length + 1) (0 : UInt8)).length := by
    rw [List.length_replicate]
  obtain ⟨wide', back', hcall, htake, -, -⟩ := h _ _ _ _ hwide hback (Nat.lt_succ_self _) (Nat.lt_succ_self _)
  have hdone : (utf8Coder size).done ((utf8Coder size).output (text.flatMap String.utf8EncodeChar)).1 = true := by
    rw [hout]
    rfl
  obtain ⟨wide'', hcall'', htake''⟩ := (utf8Coder size).call_sufficient hdone hwide
    (by rw [hout]; exact hlen ▸ Nat.lt_succ_self _)
  rw [hout] at hcall'' htake''
  dsimp only at hcall'' htake''
  obtain rfl : wide' = wide'' := Option.some.inj (congrArg Prod.fst (hcall.symm.trans hcall''))
  rw [hlen] at htake''
  have hsame : text.flatMap (codedAs size) = text.flatMap (wideEncoding size) :=
    (List.append_cancel_right (htake.symm.trans htake'')).symm
  intro c hc
  have hone := flatMap_eq text (fun c _ => length_codedAs size c) hsame c hc
  by_contra hnot
  cases size with
  | four => exact hnot fun hsize => nomatch hsize
  | two => exact (codedAs_big hnot).2 hone

end

/-- **A string that is not valid is refused exactly if it is not a string of sequences.** -/
theorem refused_iff {size : WcharSize} {s : List UInt8} (hnul : 0 ∉ s) (hne : s ≠ []) :
    (∀ (out : Option (List Wchar)) (outSize : Nat), (utf8ToWchar size (some s) out outSize).2 = 0) ↔
      ¬ WellShaped size s := by
  have hout : (utf8Coder size).output s = s.foldl (utf8Coder size).feed (.normal, []) := by
    unfold Coder.output
    rw [text_of_not_mem hnul]
    rfl
  constructor
  · intro h hshape
    obtain ⟨hstate, hlen⟩ := run_wellShaped hshape []
    have hdone : (utf8Coder size).done ((utf8Coder size).output s).1 = true := by
      rw [hout]
      exact decide_eq_true hstate
    have hcall := (utf8Coder size).call_none hdone 0
    have hzero : (utf8ToWchar size (some s) none 0).2 = 0 := h none 0
    have hpos := hlen hne
    rw [← hout, ← hcall] at hpos
    exact Nat.lt_irrefl 0 (Nat.lt_of_lt_of_eq hpos hzero)
  · intro h out outSize
    have hnot : ¬ ((utf8Coder size).output s).1 = .normal := by
      rw [hout]
      exact fun hstate => h (wellShaped_of_normal size s [] hstate)
    exact (utf8Coder size).call_zero rfl (decide_eq_false hnot) out outSize

/-- **When the two functions do what they are for.** -/
theorem converted_iff (size : WcharSize) {s : List UInt8} (hnul : 0 ∉ s) :
    Converted size s ↔
      (∀ text : List Char, s = text.flatMap String.utf8EncodeChar → ∀ c ∈ text, size = .two → c.toNat ≤ 0xffff) ∧
      (¬ ValidUtf8 s → ¬ WellShaped size s) := by
  have hne : ¬ ValidUtf8 s → s ≠ [] := by
    rintro hvalid rfl
    exact hvalid ⟨[], rfl⟩
  constructor
  · rintro ⟨hvalid, hinvalid⟩
    refine ⟨?_, fun hnot => (refused_iff hnul (hne hnot)).mp (hinvalid hnot)⟩
    rintro text rfl
    exact simple_of_faithful hnul (hvalid text rfl)
  · rintro ⟨hvalid, hinvalid⟩
    refine ⟨?_, fun hnot => (refused_iff hnul (hne hnot)).mpr (hinvalid hnot)⟩
    rintro text rfl
    exact faithful_of_simple hnul (hvalid text rfl)

/-- A letter of two bytes. -/
theorem converted_iff_phi : Converted .two [0xcf, 0x95] ↔
    (∀ text : List Char, [0xcf, 0x95] = text.flatMap String.utf8EncodeChar →
      ∀ c ∈ text, WcharSize.two = .two → c.toNat ≤ 0xffff) ∧
    (¬ ValidUtf8 [0xcf, 0x95] → ¬ WellShaped .two [0xcf, 0x95]) :=
  converted_iff .two (by decide)

/-- A value above U+10FFFF is not the encoding of a character. -/
theorem not_validUtf8_tooBig : ¬ ValidUtf8 [0xf4, 0x90, 0x80, 0x80] := by
  rintro ⟨text, htext⟩
  cases text with
  | nil => exact List.cons_ne_nil _ _ htext
  | cons c text =>
    have hmax := toNat_lt_max c
    have hval : c.val.toNat = c.toNat := rfl
    rw [List.flatMap_cons] at htext
    unfold String.utf8EncodeChar at htext
    simp only [hval] at htext
    split_ifs at htext with h1 h2 h3
    all_goals
      have hfirst := congrArg (fun l => (l.map UInt8.toNat)[0]?) htext
      have hsecond := congrArg (fun l => (l.map UInt8.toNat)[1]?) htext
      simp at hfirst hsecond
      omega

/-- **The Aegean number ten, U+10110**, has another high surrogate, 0xd840, than UTF-16 gives it, 0xd800; and
    the bytes of U+110000, which there is not, are taken for an element of UTF-32. -/
theorem not_converted :
    ¬ Converted .two [0xf0, 0x90, 0x84, 0x90] ∧ ¬ Converted .four [0xf4, 0x90, 0x80, 0x80] := by
  refine ⟨?_, ?_⟩
  · rintro ⟨hvalid, -⟩
    obtain ⟨wide', back', hcall, htake, -, -⟩ := hvalid [Char.ofNat 0x10110] (by decide +kernel)
      [0, 0, 0] [0, 0, 0, 0, 0] 3 5 (by decide) (by decide) (by decide +kernel) (by decide +kernel)
    have hrun : (utf8ToWchar .two (some ([Char.ofNat 0x10110].flatMap String.utf8EncodeChar)) (some [0, 0, 0]) 3).1 =
        some [0xd840, 0xdd10, 0] := by
      decide +kernel
    rw [hcall] at hrun
    obtain rfl := Option.some.inj hrun
    revert htake
    decide +kernel
  · rintro ⟨-, hinvalid⟩
    have hzero := hinvalid not_validUtf8_tooBig none 0
    revert hzero
    decide +kernel

end Trick.Unicode
