/-
  What `escape_to_ascii` and `unescape_to_utf8` have in common.

  Both go through the input byte by byte with a state, and put bytes out on the way: if there is no output
  array they only count them, and otherwise they write them, after a test that there is room, or without
  it.  A byte that does not fit the state, or a failed test, ends the loop in `ERROR_STATE`.  The length
  that is returned is zero unless the loop ended in the state it began in.

  1. **Data.**  A `Buffer` is the memory from `out` on, with a log of the places that have been written.

  2. **Program.**  A `Converter` is the switch of one of the functions, and `convert` is the rest of it.

  3. **Specification.**  `output` is what a converter puts out when nothing gets in its way, and `room` how
     much that is.

  4. **Main results**: without an array the length is that of the result (`convert_null`); an array with
     more elements than `room` gets the result (`convert_sufficient`); and a converter that always tests
     never writes outside an array (`convert_checked`).
-/
import Trick.Lib.Bytes

namespace Trick.Unicode

open Trick.Lib

/-! ## Buffers -/

/-- **The memory from `out` on**, and the places that have been written. -/
structure Buffer where
  cells : List UInt8
  written : List Nat := []
deriving DecidableEq

namespace Buffer

/-- `out[i] = c` -/
def write (b : Buffer) (i : Nat) (c : UInt8) : Buffer where
  cells := b.cells.set i c
  written := i :: b.written

/-- `memcpy(&out[i], bytes, …)` -/
def copy (b : Buffer) (i : Nat) : List UInt8 → Buffer
  | [] => b
  | c :: bytes => (b.write i c).copy (i + 1) bytes

/-- `strcat(out, bytes)` -/
def strcat (b : Buffer) (bytes : List UInt8) : Buffer := b.copy (cString b.cells).length (bytes ++ [0])

@[simp] theorem length_write (b : Buffer) (i : Nat) (c : UInt8) : (b.write i c).cells.length = b.cells.length :=
  List.length_set

theorem length_copy (b : Buffer) (i : Nat) (bytes : List UInt8) :
    (b.copy i bytes).cells.length = b.cells.length := by
  induction bytes generalizing b i with
  | nil => rfl
  | cons c bytes ih =>
    show ((b.write i c).copy (i + 1) bytes).cells.length = _
    rw [ih, length_write]

theorem take_write {b : Buffer} {i : Nat} (h : i < b.cells.length) (c : UInt8) :
    (b.write i c).cells.take (i + 1) = b.cells.take i ++ [c] := by
  have hlen : (b.cells.take i).length = i := by
    rw [List.length_take]
    omega
  show (b.cells.set i c).take (i + 1) = _
  rw [List.take_set, List.take_succ_eq_append_getElem h, List.set_append_right _ _ (Nat.le_of_eq hlen), hlen,
    Nat.sub_self]
  rfl

/-- The bytes stand where they have been written, behind what was there. -/
theorem take_copy {b : Buffer} {i : Nat} {bytes : List UInt8} (h : i + bytes.length ≤ b.cells.length) :
    (b.copy i bytes).cells.take (i + bytes.length) = b.cells.take i ++ bytes := by
  induction bytes generalizing b i with
  | nil =>
    rw [List.append_nil]
    rfl
  | cons c bytes ih =>
    rw [List.length_cons] at h
    have hlen : i + (c :: bytes).length = i + 1 + bytes.length := by
      rw [List.length_cons]
      omega
    show ((b.write i c).copy (i + 1) bytes).cells.take _ = _
    rw [hlen, ih (by rw [length_write]; omega), take_write (by omega), List.append_assoc]
    rfl

theorem mem_written_copy {b : Buffer} {i j : Nat} {bytes : List UInt8} (h : j ∈ (b.copy i bytes).written) :
    j ∈ b.written ∨ i ≤ j ∧ j < i + bytes.length := by
  induction bytes generalizing b i with
  | nil => exact Or.inl h
  | cons c bytes ih =>
    rw [List.length_cons]
    rcases ih h with hw | hrange
    · rcases List.mem_cons.mp hw with rfl | hw
      · exact Or.inr ⟨Nat.le_refl j, by omega⟩
      · exact Or.inl hw
    · exact Or.inr ⟨by omega, by omega⟩

/-- Nothing outside the first `n` elements has been written, and they are there. -/
structure Within (b : Buffer) (n : Nat) : Prop where
  length : n ≤ b.cells.length
  written : ∀ i ∈ b.written, i < n

/-- An array of `n` elements that nothing has been written to. -/
structure Fresh (b : Buffer) (n : Nat) : Prop where
  length : n ≤ b.cells.length
  written : b.written = []

theorem Within.write {b : Buffer} {n i : Nat} (h : b.Within n) (hi : i < n) (c : UInt8) : (b.write i c).Within n where
  length := by
    rw [length_write]
    exact h.length
  written := by
    intro j hj
    rcases List.mem_cons.mp hj with rfl | hj
    · exact hi
    · exact h.written j hj

theorem Fresh.within {b : Buffer} {n : Nat} (h : b.Fresh n) : b.Within n where
  length := h.length
  written := by
    intro i hi
    rw [h.written] at hi
    exact absurd hi List.not_mem_nil

theorem Within.copy {b : Buffer} {n i : Nat} (h : b.Within n) {bytes : List UInt8} (hi : i + bytes.length ≤ n) :
    (b.copy i bytes).Within n where
  length := by
    rw [length_copy]
    exact h.length
  written := by
    intro j hj
    rcases mem_written_copy hj with hj | ⟨-, hlt⟩
    · exact h.written j hj
    · omega

/-- **A string is being built**: its bytes stand at the beginning; where `strcat` will append, the NUL stands
    behind them. -/
structure Holds (b : Buffer) (nul : Bool) (bytes : List UInt8) : Prop where
  front : b.cells.take bytes.length = bytes
  stop : nul = true → b.cells[bytes.length]? = some 0 ∧ 0 ∉ bytes

/-- The string up to the NUL. -/
theorem cString_of_stop {cells bytes : List UInt8} (hfront : cells.take bytes.length = bytes)
    (hstop : cells[bytes.length]? = some 0) (hno : 0 ∉ bytes) : cString cells = bytes := by
  have hall : ∀ x ∈ bytes, decide (x ≠ 0) = true := fun x hx => decide_eq_true fun hz => hno (hz ▸ hx)
  obtain ⟨hlt, hget⟩ := List.getElem?_eq_some_iff.mp hstop
  unfold cString
  rw [← List.take_append_drop bytes.length cells, hfront, List.drop_eq_getElem_cons hlt, hget,
    List.takeWhile_append_of_pos hall, List.takeWhile_cons_of_neg (by decide), List.append_nil]

theorem Holds.copy {b : Buffer} {old bytes : List UInt8} (h : b.Holds false old)
    (hlen : old.length + bytes.length ≤ b.cells.length) : (b.copy old.length bytes).Holds false (old ++ bytes) where
  front := by
    rw [List.length_append, take_copy hlen, h.front]
  stop := fun hf => nomatch hf

theorem Holds.strcat {b : Buffer} {old bytes : List UInt8} (h : b.Holds true old)
    (hlen : old.length + bytes.length < b.cells.length) (hno : 0 ∉ bytes) :
    b.strcat bytes = b.copy old.length (bytes ++ [0]) ∧ (b.strcat bytes).Holds true (old ++ bytes) := by
  obtain ⟨hstop, hnul⟩ := h.stop rfl
  have hcat : b.strcat bytes = b.copy old.length (bytes ++ [0]) := by
    unfold Buffer.strcat
    rw [cString_of_stop h.front hstop hnul]
  have hall : (b.copy old.length (bytes ++ [0])).cells.take (old.length + (bytes ++ [0]).length) =
      old ++ bytes ++ [0] := by
    rw [take_copy (by rw [List.length_append, List.length_singleton]; omega), h.front, List.append_assoc]
  rw [List.length_append, List.length_singleton, ← Nat.add_assoc] at hall
  refine ⟨hcat, ?_, fun _ => ⟨?_, ?_⟩⟩
  · have hcut := congrArg (List.take (old ++ bytes).length) hall
    have hmin : min (old ++ bytes).length (old.length + bytes.length + 1) = (old ++ bytes).length := by
      rw [List.length_append]
      exact Nat.min_eq_left (by omega)
    rw [List.take_take, List.take_left, hmin] at hcut
    rw [hcat]
    exact hcut
  · have hget : ((b.copy old.length (bytes ++ [0])).cells.take (old.length + bytes.length + 1))[(old ++ bytes).length]?
        = (old ++ bytes ++ [0])[(old ++ bytes).length]? := congrArg (fun l => l[(old ++ bytes).length]?) hall
    rw [List.getElem?_take_of_lt (by rw [List.length_append]; omega),
      List.getElem?_append_right (Nat.le_refl _), Nat.sub_self] at hget
    rw [hcat, hget]
    rfl
  · rw [List.mem_append, not_or]
    exact ⟨hnul, hno⟩

/-- The NUL that ends the string. -/
theorem Holds.finish {b : Buffer} {nul : Bool} {bytes : List UInt8} (h : b.Holds nul bytes)
    (hlen : bytes.length < b.cells.length) : (b.write bytes.length 0).cells.take (bytes.length + 1) = bytes ++ [0] := by
  rw [take_write hlen, h.front]

end Buffer

/-! ## Converters -/

/-- **The switch of one function**: what each state does with a byte, which bytes it puts out for it, and
    whether it makes sure first that there is room. -/
structure Converter (σ : Type) where
  initial : σ
  failed : σ
  step : σ → UInt8 → σ × List UInt8
  checked : σ → UInt8 → Bool
  /-- The bytes are put out with `strcat`. -/
  append : Bool

/-- The local variables of the loop. -/
structure Conversion (σ : Type) where
  state : σ
  outLen : Nat
  out : Option Buffer

namespace Converter

variable {σ : Type} [DecidableEq σ]

/-- One write to `out`. -/
def put (c : Converter σ) (b : Buffer) (outLen : Nat) (elements : List UInt8) : Buffer :=
  if c.append then b.strcat elements else b.copy outLen elements

/-- **One round of the loop.** -/
def advance (c : Converter σ) (outSize : Nat) (s : Conversion σ) (ch : UInt8) : Conversion σ :=
  if s.state = c.failed then s
  else
    let next := c.step s.state ch
    if next.2 = [] then { s with state := next.1 }
    else
      let outLen := s.outLen + next.2.length
      match s.out with
      | none => { s with state := next.1, outLen := outLen }
      | some b =>
        -- "Insufficient room in (out) array."
        if c.checked s.state ch = true ∧ ¬ outLen < outSize then { s with state := c.failed, outLen := outLen }
        else { state := next.1, outLen := outLen, out := some (c.put b s.outLen next.2) }

/-- **A whole call**: the output array as it is left, and the length that is returned. -/
def convert (c : Converter σ) (input : Option (List UInt8)) (out : Option Buffer) (outSize : Nat) :
    Option Buffer × Nat :=
  match input with
  | none => (out, 0)
  | some text =>
    let start : Conversion σ := { state := c.initial, outLen := 0, out := out.map (·.write 0 0) }
    let s := (cString text).foldl (c.advance outSize) start
    -- "If we didn't finish in state 0, then we had an error."
    let outLen := if s.state = c.initial then s.outLen else 0
    (s.out.map (·.write outLen 0), outLen)

/-! ## What is put out -/

/-- One byte, with nothing in the way. -/
def feed (c : Converter σ) (p : σ × List UInt8) (ch : UInt8) : σ × List UInt8 :=
  if p.1 = c.failed then p else ((c.step p.1 ch).1, p.2 ++ (c.step p.1 ch).2)

/-- The state the input leads to, and the bytes that are put out on the way. -/
def output (c : Converter σ) (text : List UInt8) : σ × List UInt8 := (cString text).foldl c.feed (c.initial, [])

/-- How many bytes are put out, also before an error is found. -/
def room (c : Converter σ) (text : List UInt8) : Nat := (c.output text).2.length

/-- **The string that is left in the end.** -/
def result (c : Converter σ) (text : List UInt8) : List UInt8 :=
  if (c.output text).1 = c.initial then (c.output text).2 else []

theorem length_le_feed (c : Converter σ) (text : List UInt8) (p : σ × List UInt8) :
    p.2.length ≤ (text.foldl c.feed p).2.length := by
  induction text generalizing p with
  | nil => exact Nat.le_refl _
  | cons ch text ih =>
    refine Nat.le_trans ?_ (ih (c.feed p ch))
    unfold feed
    split
    · exact Nat.le_refl _
    · rw [List.length_append]
      omega

/-- What has been put out before stays in front. -/
theorem run_append (c : Converter σ) (text : List UInt8) (state : σ) (acc : List UInt8) :
    text.foldl c.feed (state, acc) =
      ((text.foldl c.feed (state, [])).1, acc ++ (text.foldl c.feed (state, [])).2) := by
  induction text generalizing state acc with
  | nil => simp only [List.foldl_nil, List.append_nil]
  | cons ch text ih =>
    by_cases hf : state = c.failed
    · have hstop : ∀ acc, c.feed (state, acc) ch = (state, acc) := fun acc => if_pos hf
      rw [List.foldl_cons, List.foldl_cons, hstop, hstop]
      exact ih state acc
    · have hgo : ∀ acc, c.feed (state, acc) ch = ((c.step state ch).1, acc ++ (c.step state ch).2) :=
        fun acc => if_neg hf
      rw [List.foldl_cons, List.foldl_cons, hgo, hgo, List.nil_append, ih, ih _ (c.step state ch).2,
        List.append_assoc]

/-! ## Without an output array -/

/-- Without an array there is nothing in the way. -/
theorem advance_none (c : Converter σ) (outSize : Nat) (p : σ × List UInt8) (ch : UInt8) :
    c.advance outSize { state := p.1, outLen := p.2.length, out := none } ch =
      { state := (c.feed p ch).1, outLen := (c.feed p ch).2.length, out := none } := by
  unfold advance feed
  by_cases hf : p.1 = c.failed
  · rw [if_pos hf, if_pos hf]
  · rw [if_neg hf, if_neg hf]
    by_cases he : (c.step p.1 ch).2 = []
    · simp only [he, if_true, List.append_nil]
    · simp only [he, if_false, List.length_append]

theorem run_none (c : Converter σ) (outSize : Nat) (text : List UInt8) (p : σ × List UInt8) :
    text.foldl (c.advance outSize) { state := p.1, outLen := p.2.length, out := none } =
      { state := (text.foldl c.feed p).1, outLen := (text.foldl c.feed p).2.length, out := none } := by
  induction text generalizing p with
  | nil => rfl
  | cons ch text ih =>
    rw [List.foldl_cons, List.foldl_cons, advance_none]
    exact ih (c.feed p ch)

/-- **Without an array the length of the result is returned.** -/
theorem convert_null (c : Converter σ) (text : List UInt8) (outSize : Nat) :
    c.convert (some text) none outSize = (none, (c.result text).length) := by
  have hrun := run_none c outSize (cString text) (c.initial, [])
  unfold convert result output
  simp only [Option.map_none]
  rw [List.length_nil] at hrun
  rw [hrun]
  refine Prod.ext rfl ?_
  show (if _ then _ else 0) = _
  split <;> rfl

/-! ## With an output array -/

/-- The bytes of a converter that appends contain no NUL. -/
def NoNul (c : Converter σ) : Prop := c.append = true → ∀ s ch, ch ≠ 0 → 0 ∉ (c.step s ch).2

omit [DecidableEq σ] in
/-- **A write where there is room** for the bytes and the NUL. -/
theorem put_holds {c : Converter σ} {b : Buffer} {outSize : Nat} {old elements : List UInt8}
    (hb : b.Within outSize) (hold : b.Holds c.append old) (hroom : old.length + elements.length < outSize)
    (hno : c.append = true → 0 ∉ elements) :
    (c.put b old.length elements).Within outSize ∧ (c.put b old.length elements).Holds c.append (old ++ elements) := by
  have hlen := hb.length
  unfold put
  cases happ : c.append with
  | false =>
    rw [happ] at hold
    exact ⟨hb.copy (by omega), hold.copy (by omega)⟩
  | true =>
    rw [happ] at hold
    obtain ⟨hcat, hholds⟩ := hold.strcat (by omega) (hno happ)
    refine ⟨?_, hholds⟩
    show (b.strcat elements).Within outSize
    rw [hcat]
    exact hb.copy (by rw [List.length_append, List.length_singleton]; omega)

/-- **The array keeps up with what is put out**, and nothing outside it has been written. -/
structure Follows (c : Converter σ) (outSize : Nat) (p : σ × List UInt8) (s : Conversion σ) : Prop where
  state : s.state = p.1
  outLen : s.outLen = p.2.length
  room : p.2.length < outSize
  out : ∃ b, s.out = some b ∧ b.Within outSize ∧ b.Holds c.append p.2

omit [DecidableEq σ] in
/-- The first write of `out`. -/
theorem follows_start (c : Converter σ) {b : Buffer} {outSize : Nat} (hb : b.Fresh outSize) (hpos : 0 < outSize) :
    Follows c outSize (c.initial, []) { state := c.initial, outLen := 0, out := some (b.write 0 0) } where
  state := rfl
  outLen := rfl
  room := hpos
  out := by
    refine ⟨_, rfl, hb.within.write hpos 0, rfl, fun _ => ⟨?_, List.not_mem_nil⟩⟩
    exact List.getElem?_set_self (Nat.lt_of_lt_of_le hpos hb.length)

/-- A step that finds enough room. -/
theorem Follows.advance {c : Converter σ} {outSize : Nat} {p : σ × List UInt8} {s : Conversion σ}
    (h : Follows c outSize p s) (hno : NoNul c) {ch : UInt8} (hch : ch ≠ 0) (hroom : (c.feed p ch).2.length < outSize) :
    Follows c outSize (c.feed p ch) (c.advance outSize s ch) := by
  obtain ⟨state, outLen, out⟩ := s
  obtain ⟨b, hout, hb, hold⟩ := h.out
  obtain rfl : state = p.1 := h.state
  obtain rfl : outLen = p.2.length := h.outLen
  obtain rfl : out = some b := hout
  unfold feed at hroom ⊢
  unfold Converter.advance
  by_cases hf : p.1 = c.failed
  · rw [if_pos hf, if_pos hf]
    exact h
  · rw [if_neg hf] at hroom
    rw [if_neg hf, if_neg hf]
    by_cases he : (c.step p.1 ch).2 = []
    · simp only [he, if_true, List.append_nil]
      exact ⟨rfl, rfl, h.room, b, rfl, hb, hold⟩
    · rw [List.length_append] at hroom
      obtain ⟨hb', hold'⟩ := put_holds hb hold hroom fun happ => hno happ p.1 ch hch
      have hfits : ¬ (c.checked p.1 ch = true ∧ ¬ p.2.length + (c.step p.1 ch).2.length < outSize) :=
        fun hand => hand.2 hroom
      simp only [he, if_false, hfits]
      exact ⟨rfl, (List.length_append).symm, by rw [List.length_append]; exact hroom, _, rfl, hb', hold'⟩

theorem Follows.run {c : Converter σ} {outSize : Nat} (hno : NoNul c) {text : List UInt8} (htext : 0 ∉ text)
    {p : σ × List UInt8} {s : Conversion σ} (h : Follows c outSize p s)
    (hroom : (text.foldl c.feed p).2.length < outSize) :
    Follows c outSize (text.foldl c.feed p) (text.foldl (c.advance outSize) s) := by
  induction text generalizing p s with
  | nil => exact h
  | cons ch text ih =>
    obtain ⟨hch, hrest⟩ := not_or.mp (List.mem_cons.not.mp htext)
    have hnext : (c.feed p ch).2.length < outSize := Nat.lt_of_le_of_lt (length_le_feed c text _) hroom
    exact ih hrest (h.advance hno (Ne.symm hch) hnext) hroom

/-- **A sufficient array gets the result**, with the length that is returned without an array. -/
theorem convert_sufficient {c : Converter σ} (hno : NoNul c) {text : List UInt8} {b : Buffer} {outSize : Nat}
    (hb : b.Fresh outSize) (hroom : c.room text < outSize) :
    ∃ b', c.convert (some text) (some b) outSize = (some b', (c.result text).length) ∧
      b'.cells.take ((c.result text).length + 1) = c.result text ++ [0] ∧ b'.Within outSize := by
  have hpos : 0 < outSize := Nat.lt_of_le_of_lt (Nat.zero_le _) hroom
  have hstart := follows_start c hb hpos
  have hend := hstart.run hno (zero_not_mem_cString text) hroom
  obtain ⟨b', hout, hb', hold⟩ := hend.out
  have hout' : (c.output text).2.length < outSize := hroom
  have hin : outSize ≤ b'.cells.length := hb'.length
  by_cases hinit : (c.output text).1 = c.initial
  · have hres : c.result text = (c.output text).2 := if_pos hinit
    refine ⟨b'.write (c.output text).2.length 0, ?_, ?_, hb'.write hout' 0⟩
    · unfold convert
      simp only [Option.map_some, hout, hend.state, hend.outLen]
      rw [hres]
      unfold output at hinit ⊢
      rw [if_pos hinit]
    · rw [hres]
      exact hold.finish (Nat.lt_of_lt_of_le hout' hin)
  · have hres : c.result text = [] := if_neg hinit
    refine ⟨b'.write 0 0, ?_, ?_, hb'.write hpos 0⟩
    · unfold convert
      simp only [Option.map_some, hout, hend.state]
      rw [hres]
      unfold output at hinit
      rw [if_neg hinit]
      rfl
    · rw [hres]
      exact Buffer.take_write (Nat.lt_of_lt_of_le hpos hin) 0

/-! ## With an output array that may be too small -/

/-- **The loop is inside the array**: it has failed, or it follows what is put out. -/
structure Safe (c : Converter σ) (outSize : Nat) (p : σ × List UInt8) (s : Conversion σ) : Prop where
  within : ∃ b, s.out = some b ∧ b.Within outSize
  follows : s.state = c.failed ∨ Follows c outSize p s

/-- A converter that always tests stops before it leaves the array. -/
theorem Safe.advance {c : Converter σ} {outSize : Nat} {p : σ × List UInt8} {s : Conversion σ} (h : Safe c outSize p s)
    (hno : NoNul c) (hchecked : ∀ s ch, c.checked s ch = true) {ch : UInt8} (hch : ch ≠ 0) :
    Safe c outSize (c.feed p ch) (c.advance outSize s ch) := by
  by_cases hf : s.state = c.failed
  · have hsame : c.advance outSize s ch = s := if_pos hf
    rw [hsame]
    exact ⟨h.within, Or.inl hf⟩
  · rcases h.follows with hfailed | hfollows
    · exact absurd hfailed hf
    · by_cases hroom : (c.feed p ch).2.length < outSize
      · -- the write fits
        have hnext := hfollows.advance hno hch hroom
        obtain ⟨b, hout, hb, -⟩ := hnext.out
        exact ⟨⟨b, hout, hb⟩, Or.inr hnext⟩
      · -- the test fails
        obtain ⟨b, hout, hb, -⟩ := hfollows.out
        have hlen : s.outLen = p.2.length := hfollows.outLen
        have hold : p.2.length < outSize := hfollows.room
        have hfeed : c.feed p ch = ((c.step s.state ch).1, p.2 ++ (c.step s.state ch).2) := by
          rw [hfollows.state] at hf ⊢
          exact if_neg hf
        rw [hfeed, List.length_append] at hroom
        have hne : (c.step s.state ch).2 ≠ [] := by
          intro he
          rw [he, List.length_nil] at hroom
          omega
        have hfull : c.checked s.state ch = true ∧ ¬ s.outLen + (c.step s.state ch).2.length < outSize :=
          ⟨hchecked s.state ch, by omega⟩
        have hnext : c.advance outSize s ch =
            { s with state := c.failed, outLen := s.outLen + (c.step s.state ch).2.length } := by
          unfold Converter.advance
          simp only [hf, hne, if_false, hout]
          rw [if_pos hfull]
        rw [hnext]
        exact ⟨⟨b, hout, hb⟩, Or.inl rfl⟩

theorem Safe.run {c : Converter σ} {outSize : Nat} (hno : NoNul c) (hchecked : ∀ s ch, c.checked s ch = true)
    {text : List UInt8} (htext : 0 ∉ text) {p : σ × List UInt8} {s : Conversion σ} (h : Safe c outSize p s) :
    Safe c outSize (text.foldl c.feed p) (text.foldl (c.advance outSize) s) := by
  induction text generalizing p s with
  | nil => exact h
  | cons ch text ih =>
    obtain ⟨hch, hrest⟩ := not_or.mp (List.mem_cons.not.mp htext)
    exact ih hrest (h.advance hno hchecked (Ne.symm hch))

/-- **A converter that always tests writes nothing outside the array**, however small, and leaves the result
    there or nothing. -/
theorem convert_checked {c : Converter σ} (hno : NoNul c) (hchecked : ∀ s ch, c.checked s ch = true)
    (hne : c.failed ≠ c.initial) (text : List UInt8) {b : Buffer} {outSize : Nat} (hb : b.Fresh outSize)
    (hpos : 0 < outSize) :
    ∃ b' bytes, c.convert (some text) (some b) outSize = (some b', bytes.length) ∧ b'.Within outSize ∧
      b'.cells.take (bytes.length + 1) = bytes ++ [0] ∧ (bytes = c.result text ∨ bytes = []) := by
  have hstart := follows_start c hb hpos
  obtain ⟨b₀, hout₀, hb₀, -⟩ := hstart.out
  have hend : Safe c outSize (c.output text) _ :=
    Safe.run hno hchecked (zero_not_mem_cString text) ⟨⟨b₀, hout₀, hb₀⟩, Or.inr hstart⟩
  obtain ⟨b', hout, hb'⟩ := hend.within
  have hin := hb'.length
  unfold convert
  simp only [Option.map_some, hout]
  split
  · rename_i hinit
    rcases hend.follows with hfailed | hfollows
    · exact absurd (hfailed.symm.trans hinit) hne
    · obtain ⟨b₁, hout₁, -, hold⟩ := hfollows.out
      obtain rfl : b' = b₁ := Option.some.inj (hout.symm.trans hout₁)
      have hres : c.result text = (c.output text).2 := if_pos (hfollows.state.symm.trans hinit)
      have hroom := hfollows.room
      rw [hfollows.outLen, hres]
      exact ⟨_, (c.output text).2, rfl, hb'.write hroom 0, hold.finish (Nat.lt_of_lt_of_le hroom hin), Or.inl rfl⟩
  · exact ⟨_, [], rfl, hb'.write hpos 0, Buffer.take_write (Nat.lt_of_lt_of_le hpos hin) 0, Or.inr rfl⟩

end Converter

end Trick.Unicode
