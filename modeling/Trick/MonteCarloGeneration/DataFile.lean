/-
  The lines of a Monte Carlo data file, and the words of a line.

  A line is good if it is not empty, does not begin with a comment character, and is not white space
  only.  The file is read in a circle: at its end the bits are cleared, and the next line is the first.

  1. **Data.**  `IfStream` is the stream of the older file variables; `IStringStream` is what is read
     from a line.

  2. **Program.**  `nextGoodLine` is the loop that reads lines until one is good, `selectLine` the loop
     that skips good lines, `extract` is `word >> scratch_assignment`.

  3. **Specification.**  `dataLines` are the good lines of a file in their order, `wordsOf` the words of
     a line.

  4. **Result.**  `selectLine_is`: with `c` good lines behind it, skipping `n` more comes to the line
     `(c + n) % dataLines.length`, and comes to an end whenever the file has a good line at all.
-/
import Trick.MonteCarlo.MonteVarFile

namespace Trick.MonteGen

open Trick.Lib Trick.Monte Trick.Monte.MonteVarFile

/-! ## Program -/

/-- `isspace` -/
def isspace (c : Char) : Bool := c.toNat = 32 || (9 ≤ c.toNat && c.toNat ≤ 13)

/-- A line that is passed over: empty, a comment, or white space only. -/
def passedOver (line : List Char) : Bool :=
  line.isEmpty || line.head? = some '#' || line.head? = some '/' || line.all isspace

/-- `file.clear()` -/
def clear (s : IfStream) : IfStream := { s with eofbit := false, failbit := false }

/-- `file.seekg(0, file.beg)` behind `file.clear()`, if the file has come to its end. -/
def rewindAtEnd (s : IfStream) : IfStream := if s.eofbit then (clear s).seekg 0 else s

/-- Lines are read until one is good; `none` if that does not come to an end. -/
def nextGoodLine : Nat → IfStream → List Char → Option (IfStream × List Char)
  | 0, _, _ => none
  | fuel + 1, s, line =>
    let (s, line) := s.getline line
    let s := rewindAtEnd s
    if passedOver line then nextGoodLine fuel s line else some (s, line)

/-- Enough for what is left of the file and the whole of it once more. -/
def lineFuel (s : IfStream) : Nat := 2 * (s.content.length + 1)

/-- `for (ii = 0; ii <= skip_count; ++ii)` -/
def selectLine : Nat → IfStream → List Char → Option (IfStream × List Char)
  | 0, s, line => nextGoodLine (lineFuel s) s line
  | skip + 1, s, line => do
    let (s, line) ← nextGoodLine (lineFuel s) s line
    selectLine skip s line

/-- `std::istringstream` -/
structure IStringStream where
  rest : List Char
  eofbit : Bool := false
  failbit : Bool := false
deriving DecidableEq

/-- `word >> scratch_assignment`: nothing is stored if there is no word. -/
def extract (s : IStringStream) (scratch : List Char) : IStringStream × List Char :=
  if s.eofbit || s.failbit then ({ s with failbit := true }, scratch)
  else
    let rest := s.rest.dropWhile isspace
    if rest.isEmpty then ({ rest := [], eofbit := true, failbit := true }, scratch)
    else
      let behind := rest.dropWhile fun c => !isspace c
      ({ rest := behind, eofbit := behind.isEmpty }, rest.takeWhile fun c => !isspace c)

/-! ## Specification -/

/-- **The data lines of a file.** -/
def dataLines (content : List Char) : List (List Char) :=
  (content.splitOn '\n').filter fun line => !passedOver line

/-- **The words of a line.** -/
def wordsOf (line : List Char) : List (List Char) := fields isspace line

/-! ## The lines -/

/-- A last line without a newline. -/
theorem dataLines_of_not_mem {w : List Char} (h : '\n' ∉ w) :
    dataLines w = if passedOver w then [] else [w] := by
  unfold dataLines
  rw [List.splitOn_eq_singleton h]
  cases hw : passedOver w with
  | true => exact List.filter_cons_of_neg (by rw [hw]; decide)
  | false => exact List.filter_cons_of_pos (by rw [hw]; rfl)

/-- A line with its newline, and the lines behind it. -/
theorem dataLines_append {w : List Char} (h : '\n' ∉ w) (rest : List Char) :
    dataLines (w ++ '\n' :: rest) = if passedOver w then dataLines rest else w :: dataLines rest := by
  unfold dataLines
  rw [List.splitOn_append_cons_self_of_not_mem h]
  cases hw : passedOver w with
  | true => exact List.filter_cons_of_neg (by rw [hw]; decide)
  | false => exact List.filter_cons_of_pos (by rw [hw]; rfl)

theorem getline_content (s : IfStream) (line : List Char) : (s.getline line).1.content = s.content := by
  unfold IfStream.getline
  by_cases hgood : s.good = true
  · rw [if_pos hgood]
    simp only
    split <;> rfl
  · rw [if_neg hgood]
    unfold IfStream.sentry
    rw [if_neg hgood]

/-- **The end of the file**: the next line is the first one. -/
theorem rewindAtEnd_eof {s : IfStream} (h : s.eofbit = true) :
    Reading (rewindAtEnd s) s.content ∧ (rewindAtEnd s).pos = 0 := by
  have hrewind : rewindAtEnd s = { clear s with
      pos := 0
      eofbit := false } := by
    unfold rewindAtEnd
    rw [if_pos h]
    exact seekg_eq rfl 0
  rw [hrewind]
  exact ⟨⟨rfl, rfl, Nat.zero_le _⟩, rfl⟩

theorem nextGoodLine_succ (fuel : Nat) {s t : IfStream} {line text : List Char}
    (h : s.getline line = (t, text)) :
    nextGoodLine (fuel + 1) s line =
      if passedOver text then nextGoodLine fuel (rewindAtEnd t) text else some (rewindAtEnd t, text) := by
  conv_lhs => unfold nextGoodLine
  rw [h]

/-- The line `w` has been read, the file is good, and these data lines are left in it; if none is, it may
    have been rewound. -/
def Comes (content w : List Char) (left : List (List Char)) (r : Option (IfStream × List Char)) : Prop :=
  ∃ t, r = some (t, w) ∧ Reading t content ∧
    (dataLines (content.drop t.pos) = left ∨ left = [] ∧ t.pos = 0)

/-- **A data line is left**: the loop comes to it. -/
theorem nextGoodLine_left {fuel : Nat} {s : IfStream} {content w : List Char} {left : List (List Char)}
    (h : Reading s content) (hleft : dataLines (content.drop s.pos) = w :: left)
    (hfuel : content.length - s.pos < fuel) (line : List Char) :
    Comes content w left (nextGoodLine fuel s line) := by
  induction fuel generalizing s line with
  | zero => omega
  | succ fuel ih =>
    by_cases hmem : '\n' ∈ content.drop s.pos
    · obtain ⟨v, rest, hrest, hv⟩ := List.eq_append_cons_of_mem hmem
      obtain ⟨t, hget, hreading, hdrop, hlt⟩ := getline_newline h hrest hv line
      have hpos := hreading.pos
      have hsame : rewindAtEnd t = t := if_neg (by rw [(good_bits hreading.good).1]; decide)
      rw [hrest, dataLines_append hv] at hleft
      rw [nextGoodLine_succ fuel hget, hsame]
      cases hover : passedOver v with
      | true =>
        rw [hover, if_pos rfl] at hleft
        exact ih hreading (by rw [hdrop]; exact hleft) (by omega) v
      | false =>
        rw [hover, if_neg Bool.false_ne_true] at hleft
        obtain ⟨rfl, rfl⟩ := List.cons.inj hleft
        exact ⟨t, rfl, hreading, Or.inl (by rw [hdrop])⟩
    · obtain ⟨t, hget, heof, -⟩ := getline_last h hmem line
      have hcontent := getline_content s line
      rw [hget, h.file] at hcontent
      obtain ⟨hreading, hpos⟩ := rewindAtEnd_eof heof
      rw [hcontent] at hreading
      rw [dataLines_of_not_mem hmem] at hleft
      rw [nextGoodLine_succ fuel hget]
      cases hover : passedOver (content.drop s.pos) with
      | true =>
        rw [hover, if_pos rfl] at hleft
        cases hleft
      | false =>
        rw [hover, if_neg Bool.false_ne_true] at hleft
        obtain ⟨rfl, rfl⟩ := List.cons.inj hleft
        exact ⟨_, rfl, hreading, Or.inr ⟨rfl, hpos⟩⟩

/-- **No data line is left**: the loop goes around the end. -/
theorem nextGoodLine_around {fuel : Nat} {s : IfStream} {content w : List Char} {left : List (List Char)}
    (h : Reading s content) (hnone : dataLines (content.drop s.pos) = []) (hall : dataLines content = w :: left)
    (hfuel : content.length - s.pos + content.length + 1 < fuel) (line : List Char) :
    Comes content w left (nextGoodLine fuel s line) := by
  induction fuel generalizing s line with
  | zero => omega
  | succ fuel ih =>
    by_cases hmem : '\n' ∈ content.drop s.pos
    · obtain ⟨v, rest, hrest, hv⟩ := List.eq_append_cons_of_mem hmem
      obtain ⟨t, hget, hreading, hdrop, hlt⟩ := getline_newline h hrest hv line
      have hpos := hreading.pos
      have hsame : rewindAtEnd t = t := if_neg (by rw [(good_bits hreading.good).1]; decide)
      rw [hrest, dataLines_append hv] at hnone
      rw [nextGoodLine_succ fuel hget, hsame]
      cases hover : passedOver v with
      | true =>
        rw [hover, if_pos rfl] at hnone
        exact ih hreading (by rw [hdrop]; exact hnone) (by omega) v
      | false =>
        rw [hover, if_neg Bool.false_ne_true] at hnone
        cases hnone
    · obtain ⟨t, hget, heof, -⟩ := getline_last h hmem line
      have hcontent := getline_content s line
      rw [hget, h.file] at hcontent
      obtain ⟨hreading, hpos⟩ := rewindAtEnd_eof heof
      rw [hcontent] at hreading
      rw [dataLines_of_not_mem hmem] at hnone
      rw [nextGoodLine_succ fuel hget]
      cases hover : passedOver (content.drop s.pos) with
      | true => exact nextGoodLine_left hreading (by rw [hpos]; exact hall) (by omega) _
      | false =>
        rw [hover, if_neg Bool.false_ne_true] at hnone
        cases hnone

/-! ## Going around in the file -/

/-- **The invariant**: the file is good, and `c` data lines have been read in all, counted around its end. -/
structure Around (s : IfStream) (content : List Char) (c : Nat) : Prop where
  reading : Reading s content
  left : ∃ j ≤ (dataLines content).length, j % (dataLines content).length = c % (dataLines content).length ∧
    dataLines (content.drop s.pos) = (dataLines content).drop j

theorem Around.start {s : IfStream} {content : List Char} (h : Reading s content) (hpos : s.pos = 0) :
    Around s content 0 :=
  ⟨h, 0, Nat.zero_le _, rfl, by rw [hpos]; rfl⟩

/-- **One line**: it is the next one in the circle. -/
theorem Around.next {s : IfStream} {content : List Char} {c : Nat} (h : Around s content c)
    (hne : dataLines content ≠ []) (line : List Char) :
    ∃ t w, nextGoodLine (lineFuel s) s line = some (t, w) ∧ Around t content (c + 1) ∧
      (dataLines content)[c % (dataLines content).length]? = some w := by
  obtain ⟨j, hj, hmod, hleft⟩ := h.left
  have hlen : 0 < (dataLines content).length := List.length_pos_iff.mpr hne
  have hfuel : lineFuel s = 2 * (content.length + 1) := by rw [lineFuel, h.reading.file]
  -- the index of the line, and what is left behind it
  have hstep : ∀ i < (dataLines content).length, i % (dataLines content).length = c % (dataLines content).length →
      ∀ w left, (dataLines content).drop i = w :: left →
        Comes content w left (nextGoodLine (lineFuel s) s line) →
        ∃ t w, nextGoodLine (lineFuel s) s line = some (t, w) ∧ Around t content (c + 1) ∧
          (dataLines content)[c % (dataLines content).length]? = some w := by
    intro i hi himod w left hdrop ⟨t, ht, hreading, hpos⟩
    have hbehind : left = (dataLines content).drop (i + 1) := by
      rw [← List.drop_drop, hdrop]
      rfl
    have hnext : (i + 1) % (dataLines content).length = (c + 1) % (dataLines content).length := by
      rw [Nat.add_mod, himod, ← Nat.add_mod]
    refine ⟨t, w, ht, ⟨hreading, ?_⟩, ?_⟩
    · rcases hpos with hpos | ⟨hnil, hzero⟩
      · exact ⟨i + 1, hi, hnext, by rw [hpos, hbehind]⟩
      · rw [hnil] at hbehind
        have hend := List.drop_eq_nil_iff.mp hbehind.symm
        refine ⟨0, Nat.zero_le _, ?_, by rw [hzero]; rfl⟩
        rw [← hnext, show i + 1 = (dataLines content).length by omega, Nat.mod_self, Nat.zero_mod]
    · rw [← himod, Nat.mod_eq_of_lt hi, ← List.head?_drop, hdrop]
      rfl
  by_cases hend : j = (dataLines content).length
  · -- all of them have been read
    obtain ⟨w, left, hall⟩ := List.exists_cons_of_ne_nil hne
    refine hstep 0 hlen ?_ w left hall (nextGoodLine_around h.reading ?_ hall (by omega) line)
    · rw [← hmod, hend, Nat.mod_self, Nat.zero_mod]
    · rw [hleft, hend, List.drop_length]
  · have hlt : j < (dataLines content).length := by omega
    have hdrop := List.drop_eq_getElem_cons hlt
    exact hstep j hlt hmod _ _ hdrop
      (nextGoodLine_left h.reading (by rw [hleft, hdrop]) (by omega) line)

/-- **The line that is selected.** -/
theorem selectLine_is {s : IfStream} {content : List Char} {c : Nat} (h : Around s content c)
    (hne : dataLines content ≠ []) (skip : Nat) (line : List Char) :
    ∃ t w, selectLine skip s line = some (t, w) ∧ Around t content (c + (skip + 1)) ∧
      (dataLines content)[(c + skip) % (dataLines content).length]? = some w := by
  induction skip generalizing s c line with
  | zero => exact h.next hne line
  | succ skip ih =>
    obtain ⟨t, w, hnext, ht, -⟩ := h.next hne line
    obtain ⟨t', w', hselect, ht', hget⟩ := ih ht w
    refine ⟨t', w', ?_, ?_, ?_⟩
    · unfold selectLine
      rw [hnext]
      exact hselect
    · rwa [Nat.add_assoc, Nat.add_comm 1] at ht'
    · rwa [Nat.add_assoc, Nat.add_comm 1] at hget

/-! ## The words -/

/-- The words that are left in a stream. -/
def IStringStream.words (s : IStringStream) : List (List Char) :=
  if s.eofbit || s.failbit then [] else wordsOf s.rest

/-- **No word is left**: the stream fails, and what was read before stays. -/
theorem extract_none {s : IStringStream} (h : s.words = []) (scratch : List Char) :
    (extract s scratch).2 = scratch ∧ (extract s scratch).1.failbit = true := by
  unfold extract
  by_cases hbad : (s.eofbit || s.failbit) = true
  · rw [if_pos hbad]
    exact ⟨rfl, rfl⟩
  · rw [if_neg hbad]
    have hwords : wordsOf s.rest = [] := by rwa [IStringStream.words, if_neg hbad] at h
    cases hrest : s.rest.dropWhile isspace with
    | nil => exact ⟨rfl, rfl⟩
    | cons c cs =>
      exfalso
      have hc : isspace c = false := by
        have hhead := List.head?_dropWhile_not isspace s.rest
        rw [hrest] at hhead
        exact hhead
      rw [wordsOf, ← fields_dropWhile, hrest, fields_cons hc] at hwords
      cases hwords

/-- **A word is left**: it is read. -/
theorem extract_some {s : IStringStream} {w : List Char} {left : List (List Char)} (h : s.words = w :: left)
    (scratch : List Char) :
    (extract s scratch).2 = w ∧ (extract s scratch).1.words = left ∧ (extract s scratch).1.failbit = false := by
  have hbad : ¬ (s.eofbit || s.failbit) = true := by
    intro hbad
    rw [IStringStream.words, if_pos hbad] at h
    cases h
  rw [IStringStream.words, if_neg hbad, wordsOf, ← fields_dropWhile] at h
  unfold extract
  rw [if_neg hbad]
  cases hrest : s.rest.dropWhile isspace with
  | nil =>
    rw [hrest] at h
    cases h
  | cons c cs =>
    have hc : isspace c = false := by
      have hhead := List.head?_dropWhile_not isspace s.rest
      rw [hrest] at hhead
      exact hhead
    rw [hrest, fields_cons hc] at h
    obtain ⟨rfl, rfl⟩ := List.cons.inj h
    refine ⟨rfl, ?_, rfl⟩
    show IStringStream.words {
        rest := (c :: cs).dropWhile fun c => !isspace c
        eofbit := ((c :: cs).dropWhile fun c => !isspace c).isEmpty } = _
    cases hbehind : (c :: cs).dropWhile fun c => !isspace c with
    | nil => rfl
    | cons d ds =>
      have hd : isspace d = true := by
        have hhead := List.head?_dropWhile_not (fun c => !isspace c) (c :: cs)
        rw [hbehind] at hhead
        simpa using hhead
      exact fields_cons_sep hd ds

end Trick.MonteGen
