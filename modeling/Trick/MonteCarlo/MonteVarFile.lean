/-
  `MonteVarFile`: the values of a variable, one line of a file after the other.

  Every call of `get_next_value` opens the file, goes back to where the last call stopped, and reads lines
  until one is neither empty nor a comment; then it stores where the stream is and closes the file.  A last
  line without a newline ends in the state `eofbit`, in which `tellg` would fail, so the loop moves to the
  end of the file first, which clears it.

  1. **Data.**  `IfStream` is the part of `std::ifstream` that is used, with its two bits.

  2. **Program.**  `getNextValue`, with the loop over the lines (`nextLine`) and the two loops over the
     tokens of a line.

  3. **Specification.**  `dataLines` are the lines of the file that are neither empty nor comments, and
     `expected v content k` is the requested column of line `k`, an error if there is none, and `EOF` behind
     the last line.

  4. **The crux** (`nextLine_is`): the loop takes off the first of the data lines that are left, or comes to
     the end if none is, whatever the end of the file looks like.
-/
import Trick.Lib.Fields
import Trick.MonteCarlo.Master

namespace Trick.Monte

open Trick.Lib

/-! ## Streams -/

/-- `std::ifstream` -/
structure IfStream where
  content : List Char := []
  pos : Nat := 0
  isOpen : Bool := false
  eofbit : Bool := false
  failbit : Bool := false
deriving DecidableEq

namespace IfStream

def good (s : IfStream) : Bool := !s.eofbit && !s.failbit

/-- `open`: a file that is opened clears the bits. -/
def openFile (s : IfStream) : Option (List Char) → IfStream
  | some content => if s.isOpen then { s with failbit := true } else { content := content, isOpen := true }
  | none => { s with failbit := true }

def close (s : IfStream) : IfStream := { s with isOpen := false }

/-- The object that every input function constructs first. -/
def sentry (s : IfStream) : IfStream := if s.good then s else { s with failbit := true }

/-- `seekg(pos)` -/
def seekg (s : IfStream) (pos : Int) : IfStream :=
  let s := { s with eofbit := false }.sentry
  if s.failbit then s
  else if 0 ≤ pos then { s with pos := pos.toNat } else { s with failbit := true }

/-- `seekg(0, end)` -/
def seekgEnd (s : IfStream) : IfStream :=
  let s := { s with eofbit := false }.sentry
  if s.failbit then s else { s with pos := s.content.length }

def tellg (s : IfStream) : IfStream × Int :=
  let s := s.sentry
  (s, if s.failbit then -1 else s.pos)

/-- `std::getline`; a stream that is not good leaves the string alone. -/
def getline (s : IfStream) (line : List Char) : IfStream × List Char :=
  if s.good then
    let rest := s.content.drop s.pos
    let text := rest.takeWhile (· ≠ '\n')
    if text.length < rest.length then ({ s with pos := s.pos + text.length + 1 }, text)
    else
      ({ s with
          pos := s.pos + text.length
          eofbit := true
          failbit := rest.isEmpty }, text)
  else (s.sentry, line)

end IfStream

/-! ## Tokens -/

/-- The characters up to the NUL. -/
def cString (line : List Char) : List Char := line.takeWhile (· ≠ '\x00')

/-- `" \t"` -/
def isDelimiter (c : Char) : Bool := c = ' ' || c = '\t'

/-- `strtok`: the token, and where the next call goes on. -/
def strtok (s : List Char) : Option (List Char × List Char) :=
  match s.dropWhile isDelimiter with
  | [] => none
  | c :: cs =>
    some ((c :: cs).takeWhile fun x => !isDelimiter x, ((c :: cs).dropWhile fun x => !isDelimiter x).drop 1)

/-- The loop that counts the tokens. -/
def countTokens : Nat → Option (List Char × List Char) → Nat
  | 0, _ => 0
  | _, none => 0
  | fuel + 1, some (_, rest) => countTokens fuel (strtok rest) + 1

/-- The loop that goes on to the token of a column. -/
def advance : Nat → Option (List Char × List Char) → Option (List Char × List Char)
  | 0, token => token
  | _ + 1, none => none
  | n + 1, some (_, rest) => advance n (strtok rest)

/-! ## The variable -/

/-- `MonteVarFile` -/
structure MonteVarFile where
  name : String
  unit : String
  fileName : String := ""
  column : Nat
  value : String := ""
  stream : IfStream := {}
  streamPosition : Int := 0
deriving DecidableEq

/-- What becomes of a call. -/
inductive Result where
  | returns (text : String)
  | terminates (message : String)
  /-- A null pointer is taken for a string. -/
  | undefined
  /-- The loop over the lines does not come to an end. -/
  | hangs
deriving DecidableEq, Repr

/-- `snprintf` into a buffer of 100 characters. -/
def snprintf100 (text : String) : String := String.ofList (text.toList.take 99)

namespace MonteVarFile

def invalidColumn (column ntokens : Nat) : String :=
  snprintf100 ("Trick:MonteVarFile An invalid column number " ++ toString column ++
    ", valid column numbers are 1 - " ++ toString ntokens)

def notOpen (fileName : String) : String :=
  snprintf100 ("Trick:MonteVarFile the input file \"" ++ fileName ++ "\" is not open for reading")

/-- The assignment that a token becomes. -/
def assignment (v : MonteVarFile) (token : String) : String :=
  if v.unit = "" then v.name ++ " = " ++ token
  else v.name ++ " = " ++ "trick.attach_units(\"" ++ v.unit ++ "\", " ++ token ++ ")"

/-- `set_file_name`; the message has the error text of the system. -/
def setFileName (v : MonteVarFile) (strerror fileName : String) (file : Option (List Char)) :
    Except String MonteVarFile :=
  let s := ({} : IfStream).openFile file
  if s.failbit then
    .error ("Error: " ++ strerror ++ "\n       Trick:MonteVarFile input file \"" ++ fileName ++ "\" failed to open")
  else .ok { v with stream := s.close, fileName := fileName }

/-- The constructor. -/
def create (strerror name fileName : String) (column : Nat) (unit : String) (file : Option (List Char)) :
    Except String MonteVarFile :=
  setFileName { name := name, unit := unit, column := column } strerror fileName file

/-- What the loop over the lines comes to. -/
inductive NextLine where
  | line (s : IfStream) (line : List Char)
  | eof (s : IfStream)
  | hangs
deriving DecidableEq

/-- `line[0] == '#' || line[0] == '\0'`; behind the end of the string is a NUL. -/
def skipped (line : List Char) : Bool := line.headD '\x00' = '#' || line.headD '\x00' = '\x00'

/-- The loop over the lines. -/
def nextLine : Nat → IfStream → List Char → NextLine
  | 0, _, _ => .hangs
  | fuel + 1, s, line =>
    let (s, line) := s.getline line
    if s.eofbit && line.isEmpty then .eof s
    else
      let s := if s.eofbit then s.seekgEnd else s
      if skipped line then nextLine fuel s line else .line s line

/-- `get_next_value` with the line that has been read. -/
def valueOf (v : MonteVarFile) (line : List Char) : MonteVarFile × Result :=
  let text := cString line
  let ntokens := countTokens (text.length + 1) (strtok text)
  if v.column = 0 ∨ v.column > ntokens then (v, .terminates (invalidColumn v.column ntokens))
  else
    match advance (v.column - 1) (strtok text) with
    | none => (v, .undefined)
    | some (token, _) =>
      ({ v with value := String.ofList token }, .returns (v.assignment (String.ofList token)))

/-- `get_next_value` behind the loop over the lines. -/
def afterLines (v : MonteVarFile) : NextLine → MonteVarFile × Result
  | .hangs => (v, .hangs)
  | .eof s => ({ v with stream := s.close }, .returns eof)
  | .line s line =>
    let (s, streamPosition) := s.tellg
    { v with
      streamPosition := streamPosition
      stream := s.close }.valueOf line

/-- `get_next_value` -/
def getNextValue (v : MonteVarFile) (file : Option (List Char)) : MonteVarFile × Result :=
  let s := (v.stream.openFile file).seekg v.streamPosition
  if s.good then v.afterLines (nextLine (s.content.length + 1) s [])
  else ({ v with stream := s }, .terminates (notOpen v.fileName))

/-- Calls of `get_next_value`. -/
def calls (file : Option (List Char)) : Nat → MonteVarFile → List Result
  | 0, _ => []
  | n + 1, v => (v.getNextValue file).2 :: calls file n (v.getNextValue file).1

/-! ## Specification -/

/-- The line is neither empty nor a comment. -/
def IsData (line : List Char) : Prop := line ≠ [] ∧ line.head? ≠ some '#'

instance (line : List Char) : Decidable (IsData line) := inferInstanceAs (Decidable (_ ∧ _))

/-- **The data lines of a file**; a line ends at a NUL if there is one in it. -/
def dataLines (content : List Char) : List (List Char) :=
  ((content.splitOn '\n').map cString).filter fun line => decide (IsData line)

/-- What a line with these columns comes to. -/
def columnOf (v : MonteVarFile) (columns : List (List Char)) : Result :=
  match v.column with
  | 0 => .terminates (invalidColumn 0 columns.length)
  | column + 1 =>
    match columns[column]? with
    | none => .terminates (invalidColumn (column + 1) columns.length)
    | some token => .returns (v.assignment (String.ofList token))

/-- What the `k`-th call should come to. -/
def expected (v : MonteVarFile) (content : List Char) (k : Nat) : Result :=
  match (dataLines content)[k]? with
  | none => .returns eof
  | some line => v.columnOf (fields isDelimiter line)

/-! ## The tokens are the fields -/

theorem strtok_none {s : List Char} (h : strtok s = none) : fields isDelimiter s = [] := by
  rw [← fields_dropWhile]
  unfold strtok at h
  cases hs : s.dropWhile isDelimiter with
  | nil => rfl
  | cons c cs =>
    rw [hs] at h
    cases h

theorem strtok_some {s token rest : List Char} (h : strtok s = some (token, rest)) :
    fields isDelimiter s = token :: fields isDelimiter rest ∧ rest.length < s.length := by
  have hle := (List.dropWhile_suffix isDelimiter (l := s)).length_le
  rw [← fields_dropWhile isDelimiter s]
  unfold strtok at h
  cases hs : s.dropWhile isDelimiter with
  | nil =>
    rw [hs] at h
    cases h
  | cons c cs =>
    have hc : isDelimiter c = false := by
      have hhead := List.head?_dropWhile_not isDelimiter s
      rw [hs] at hhead
      exact hhead
    rw [hs] at h hle
    cases h
    refine ⟨fields_cons hc cs, ?_⟩
    have hword := (List.dropWhile_suffix (fun x => !isDelimiter x) (l := cs)).length_le
    rw [List.dropWhile_cons_of_pos (by rw [hc]; rfl), List.length_drop]
    rw [List.length_cons] at hle
    omega

theorem countTokens_eq {fuel : Nat} {s : List Char} (h : s.length < fuel) :
    countTokens fuel (strtok s) = (fields isDelimiter s).length := by
  induction fuel generalizing s with
  | zero => omega
  | succ fuel ih =>
    cases hs : strtok s with
    | none =>
      rw [strtok_none hs]
      rfl
    | some p =>
      obtain ⟨token, rest⟩ := p
      obtain ⟨hfields, hlt⟩ := strtok_some hs
      rw [hfields, List.length_cons, ← ih (by omega)]
      rfl

theorem advance_none (n : Nat) : advance n none = none := by
  cases n <;> rfl

theorem advance_eq (n : Nat) (s : List Char) :
    (advance n (strtok s)).map Prod.fst = (fields isDelimiter s)[n]? := by
  induction n generalizing s with
  | zero =>
    show (strtok s).map Prod.fst = _
    cases hs : strtok s with
    | none =>
      rw [strtok_none hs]
      rfl
    | some p =>
      obtain ⟨token, rest⟩ := p
      rw [(strtok_some hs).1]
      rfl
  | succ n ih =>
    cases hs : strtok s with
    | none =>
      rw [strtok_none hs, advance_none]
      rfl
    | some p =>
      obtain ⟨token, rest⟩ := p
      rw [(strtok_some hs).1, List.getElem?_cons_succ]
      exact ih rest

/-- **The requested column of a line**, or the error. -/
theorem valueOf_eq (v : MonteVarFile) (line : List Char) :
    (v.valueOf line).2 = v.columnOf (fields isDelimiter (cString line)) := by
  have hcount : countTokens ((cString line).length + 1) (strtok (cString line)) =
      (fields isDelimiter (cString line)).length := countTokens_eq (Nat.lt_succ_self _)
  unfold valueOf columnOf
  simp only [hcount]
  generalize hcolumns : fields isDelimiter (cString line) = columns
  cases hcol : v.column with
  | zero => rfl
  | succ column =>
    have hadvance := advance_eq column (cString line)
    rw [hcolumns] at hadvance
    by_cases hlen : column < columns.length
    · have hvalid : ¬ (column + 1 = 0 ∨ column + 1 > columns.length) := by omega
      obtain ⟨token, htoken⟩ : ∃ token, columns[column]? = some token := ⟨_, List.getElem?_eq_getElem hlen⟩
      rw [htoken] at hadvance
      obtain ⟨⟨_, rest⟩, hp, rfl⟩ := Option.map_eq_some_iff.mp hadvance
      rw [if_neg hvalid, Nat.add_sub_cancel, hp]
      simp only [htoken]
    · have hinvalid : column + 1 = 0 ∨ column + 1 > columns.length := by omega
      have hnone : columns[column]? = none := List.getElem?_eq_none (by omega)
      rw [if_pos hinvalid]
      simp only [hnone]

/-! ## The lines of a file -/

theorem skipped_iff (line : List Char) : skipped line = false ↔ IsData (cString line) := by
  unfold skipped IsData cString
  cases line with
  | nil => decide
  | cons c cs =>
    by_cases hc : c = '\x00'
    · subst hc
      simp
    · simp [hc]

/-- A last line without a newline. -/
theorem dataLines_of_not_mem {w : List Char} (h : '\n' ∉ w) :
    dataLines w = if skipped w then [] else [cString w] := by
  unfold dataLines
  rw [List.splitOn_eq_singleton h, List.map_singleton]
  cases hw : skipped w with
  | true =>
    have hdata : ¬ IsData (cString w) := fun hd => by
      rw [(skipped_iff w).mpr hd] at hw
      cases hw
    exact List.filter_cons_of_neg (by rw [decide_eq_true_eq]; exact hdata)
  | false => exact List.filter_cons_of_pos (decide_eq_true ((skipped_iff w).mp hw))

/-- A line with its newline, and the lines behind it. -/
theorem dataLines_append {w : List Char} (h : '\n' ∉ w) (rest : List Char) :
    dataLines (w ++ '\n' :: rest) = if skipped w then dataLines rest else cString w :: dataLines rest := by
  unfold dataLines
  rw [List.splitOn_append_cons_self_of_not_mem h, List.map_cons]
  cases hw : skipped w with
  | true =>
    have hdata : ¬ IsData (cString w) := fun hd => by
      rw [(skipped_iff w).mpr hd] at hw
      cases hw
    exact List.filter_cons_of_neg (by rw [decide_eq_true_eq]; exact hdata)
  | false => exact List.filter_cons_of_pos (decide_eq_true ((skipped_iff w).mp hw))

/-! ## The loop over the lines -/

/-- The file is open, nothing is wrong, and the position is in the file or at its end. -/
structure Reading (s : IfStream) (content : List Char) : Prop where
  good : s.good = true
  file : s.content = content
  pos : s.pos ≤ content.length

theorem good_bits {s : IfStream} (h : s.good = true) : s.eofbit = false ∧ s.failbit = false := by
  unfold IfStream.good at h
  rwa [Bool.and_eq_true, Bool.not_eq_true', Bool.not_eq_true'] at h

/-- **A line with a newline.** -/
theorem getline_newline {s : IfStream} {content w rest : List Char} (h : Reading s content)
    (hrest : content.drop s.pos = w ++ '\n' :: rest) (hw : '\n' ∉ w) (line : List Char) :
    ∃ t, s.getline line = (t, w) ∧ Reading t content ∧ content.drop t.pos = rest ∧ s.pos < t.pos := by
  have hall : ∀ c ∈ w, decide (c ≠ '\n') = true := by
    intro c hc
    refine decide_eq_true ?_
    rintro rfl
    exact hw hc
  have htake : (w ++ '\n' :: rest).takeWhile (· ≠ '\n') = w := by
    rw [List.takeWhile_append_of_pos hall, List.takeWhile_cons_of_neg (by decide), List.append_nil]
  have hlen : (w ++ '\n' :: rest).length = content.length - s.pos := by rw [← hrest, List.length_drop]
  rw [List.length_append, List.length_cons] at hlen
  have hpos := h.pos
  refine ⟨{ s with pos := s.pos + w.length + 1 }, ?_, ⟨h.good, h.file, ?_⟩, ?_, ?_⟩
  · unfold IfStream.getline
    rw [if_pos h.good, h.file, hrest]
    simp only [htake]
    rw [if_pos (by rw [List.length_append, List.length_cons]; omega)]
  · show s.pos + w.length + 1 ≤ content.length
    omega
  · show content.drop (s.pos + w.length + 1) = rest
    rw [Nat.add_assoc, ← List.drop_drop, hrest, List.drop_append]
    simp
  · show s.pos < s.pos + w.length + 1
    omega

/-- Moving clears the bit for the end of the file. -/
theorem good_of_failbit {s : IfStream} (h : s.failbit = false) : ({ s with eofbit := false } : IfStream).good = true := by
  show (!false && !s.failbit) = true
  rw [h]
  rfl

theorem seekg_eq {s : IfStream} (h : s.failbit = false) (pos : Nat) :
    s.seekg pos = { s with
      pos := pos
      eofbit := false } := by
  unfold IfStream.seekg IfStream.sentry
  rw [if_pos (good_of_failbit h)]
  simp only [h, Bool.false_eq_true, if_false, Int.natCast_nonneg, if_true, Int.toNat_natCast]

theorem seekgEnd_eq {s : IfStream} (h : s.failbit = false) :
    s.seekgEnd = { s with
      pos := s.content.length
      eofbit := false } := by
  unfold IfStream.seekgEnd IfStream.sentry
  rw [if_pos (good_of_failbit h)]
  exact if_neg (by rw [h]; decide)

/-- **The last line**, without a newline: the loop moves to the end of the file. -/
theorem getline_last {s : IfStream} {content : List Char} (h : Reading s content)
    (hrest : '\n' ∉ content.drop s.pos) (line : List Char) :
    ∃ t, s.getline line = (t, content.drop s.pos) ∧ t.eofbit = true ∧
      (content.drop s.pos ≠ [] → Reading t.seekgEnd content ∧ t.seekgEnd.pos = content.length) := by
  have htake : (content.drop s.pos).takeWhile (· ≠ '\n') = content.drop s.pos := by
    rw [List.takeWhile_eq_self_iff]
    intro c hc
    refine decide_eq_true ?_
    rintro rfl
    exact hrest hc
  refine ⟨{ s with
    pos := s.pos + (content.drop s.pos).length
    eofbit := true
    failbit := (content.drop s.pos).isEmpty }, ?_, rfl, ?_⟩
  · unfold IfStream.getline
    rw [if_pos h.good, h.file]
    simp only [htake]
    rw [if_neg (Nat.lt_irrefl _)]
  · intro hne
    have hfail : (content.drop s.pos).isEmpty = false := List.isEmpty_eq_false_iff.mpr hne
    rw [seekgEnd_eq hfail]
    refine ⟨⟨?_, h.file, ?_⟩, ?_⟩
    · show (!false && !(content.drop s.pos).isEmpty) = true
      rw [hfail]
      rfl
    · show s.content.length ≤ content.length
      rw [h.file]
    · show s.content.length = content.length
      rw [h.file]

/-- What the loop over the lines is to come to, with these data lines left. -/
def TakesOff (content : List Char) (left : List (List Char)) : NextLine → Prop
  | .line s line => left = cString line :: dataLines (content.drop s.pos) ∧ Reading s content
  | .eof _ => left = []
  | .hangs => False

theorem nextLine_succ (fuel : Nat) {s t : IfStream} {line text : List Char} (h : s.getline line = (t, text)) :
    nextLine (fuel + 1) s line =
      if t.eofbit && text.isEmpty then .eof t
      else if skipped text then nextLine fuel (if t.eofbit then t.seekgEnd else t) text
      else .line (if t.eofbit then t.seekgEnd else t) text := by
  conv_lhs => unfold nextLine
  rw [h]

/-- **The crux**: the loop takes off the first data line that is left. -/
theorem nextLine_is {fuel : Nat} {s : IfStream} {content : List Char} (h : Reading s content)
    (hfuel : content.length - s.pos < fuel) (line : List Char) :
    TakesOff content (dataLines (content.drop s.pos)) (nextLine fuel s line) := by
  induction fuel generalizing s line with
  | zero => omega
  | succ fuel ih =>
    by_cases hmem : '\n' ∈ content.drop s.pos
    · obtain ⟨w, rest, hrest, hw⟩ := List.eq_append_cons_of_mem hmem
      obtain ⟨t, hget, hreading, hdrop, hlt⟩ := getline_newline h hrest hw line
      have hpos := hreading.pos
      rw [nextLine_succ fuel hget, (good_bits hreading.good).1, Bool.false_and, if_neg Bool.false_ne_true,
        if_neg Bool.false_ne_true, hrest, dataLines_append hw]
      cases hskip : skipped w with
      | true =>
        -- a comment or an empty line: the next one
        have hnext := ih hreading (by omega) w
        rw [hdrop] at hnext
        exact hnext
      | false => exact ⟨by rw [hdrop]; rfl, hreading⟩
    · obtain ⟨t, hget, heof, hseek⟩ := getline_last h hmem line
      rw [nextLine_succ fuel hget, heof, Bool.true_and, if_pos rfl, dataLines_of_not_mem hmem]
      by_cases hrest : content.drop s.pos = []
      · rw [hrest]
        rfl
      · -- there is a last line, and nothing behind it
        obtain ⟨hreading, hend⟩ := hseek hrest
        have hlen := List.length_pos_iff.mpr hrest
        rw [List.length_drop] at hlen
        have hdrop : content.drop t.seekgEnd.pos = [] := by rw [hend, List.drop_length]
        rw [List.isEmpty_eq_false_iff.mpr hrest, if_neg Bool.false_ne_true]
        cases hskip : skipped (content.drop s.pos) with
        | true =>
          have hnext := ih hreading (by omega) (content.drop s.pos)
          rw [hdrop] at hnext
          exact hnext
        | false => exact ⟨by rw [hdrop]; rfl, hreading⟩

/-! ## Successive calls -/

/-- **The invariant**: the first `k` data lines are behind the stored position. -/
structure Passed (v : MonteVarFile) (content : List Char) (k : Nat) : Prop where
  closed : v.stream.isOpen = false
  position : ∃ pos : Nat, v.streamPosition = pos ∧ pos ≤ content.length ∧
    dataLines (content.drop pos) = (dataLines content).drop k

/-- What a call leaves alone. -/
structure SameVariable (v w : MonteVarFile) : Prop where
  name : v.name = w.name
  unit : v.unit = w.unit
  column : v.column = w.column

theorem SameVariable.columnOf {v w : MonteVarFile} (h : SameVariable v w) (columns : List (List Char)) :
    v.columnOf columns = w.columnOf columns := by
  unfold MonteVarFile.columnOf assignment
  rw [h.name, h.unit, h.column]

/-- A stream that is opened and moved to a place in the file. -/
theorem reading_seekg {s : IfStream} (h : s.isOpen = false) {content : List Char} {pos : Nat}
    (hpos : pos ≤ content.length) :
    Reading ((s.openFile (some content)).seekg pos) content ∧ ((s.openFile (some content)).seekg pos).pos = pos := by
  have hopen : s.openFile (some content) = { content := content, isOpen := true } := by
    exact if_neg (by rw [h]; decide)
  rw [hopen, seekg_eq rfl]
  exact ⟨⟨rfl, rfl, hpos⟩, rfl⟩

theorem valueOf_same (v : MonteVarFile) (line : List Char) :
    SameVariable (v.valueOf line).1 v ∧ (v.valueOf line).1.stream = v.stream ∧
      (v.valueOf line).1.streamPosition = v.streamPosition := by
  unfold valueOf
  simp only
  split
  · exact ⟨⟨rfl, rfl, rfl⟩, rfl, rfl⟩
  · split
    · exact ⟨⟨rfl, rfl, rfl⟩, rfl, rfl⟩
    · exact ⟨⟨rfl, rfl, rfl⟩, rfl, rfl⟩

/-- **One call** comes to the next data line, and passes it. -/
theorem getNextValue_is {v : MonteVarFile} {content : List Char} {k : Nat} (h : v.Passed content k) :
    (v.getNextValue (some content)).2 = v.expected content k ∧
      (v.getNextValue (some content)).1.Passed content (k + 1) ∧
      SameVariable (v.getNextValue (some content)).1 v := by
  obtain ⟨pos, hposition, hle, hleft⟩ := h.position
  obtain ⟨hreading, hpos⟩ := reading_seekg h.closed hle
  rw [← hposition] at hreading hpos
  have hline := nextLine_is hreading (show content.length - _ < content.length + 1 by omega) []
  rw [hpos, hleft] at hline
  have hcall : v.getNextValue (some content) = v.afterLines
      (nextLine (content.length + 1) ((v.stream.openFile (some content)).seekg v.streamPosition) []) := by
    unfold getNextValue
    simp only [hreading.good, hreading.file, if_true]
  rw [hcall]
  unfold expected
  cases hnext : nextLine (content.length + 1) ((v.stream.openFile (some content)).seekg v.streamPosition) [] with
  | hangs =>
    rw [hnext] at hline
    exact hline.elim
  | eof s =>
    rw [hnext] at hline
    have hnil : (dataLines content).drop k = [] := hline
    have hlen := List.drop_eq_nil_iff.mp hnil
    refine ⟨?_, ⟨rfl, pos, hposition, hle, ?_⟩, ⟨rfl, rfl, rfl⟩⟩
    · rw [List.getElem?_eq_none hlen]
      rfl
    · rw [hleft, hnil, List.drop_eq_nil_iff.mpr (by omega)]
  | line s line =>
    rw [hnext] at hline
    obtain ⟨hcons, hs⟩ := hline
    have hget : (dataLines content)[k]? = some (cString line) := by
      rw [← List.head?_drop, hcons]
      rfl
    have htell : s.tellg = (s, (s.pos : Int)) := by
      unfold IfStream.tellg IfStream.sentry
      rw [if_pos hs.good]
      simp only [(good_bits hs.good).2, Bool.false_eq_true, if_false]
    have hafter : v.afterLines (.line s line) = { v with
        streamPosition := (s.pos : Int)
        stream := s.close }.valueOf line := by
      unfold afterLines
      simp only [htell]
    rw [hafter]
    obtain ⟨hsame, hstream, hstored⟩ := valueOf_same
      { v with
        streamPosition := (s.pos : Int)
        stream := s.close } line
    refine ⟨?_, ⟨?_, s.pos, hstored, hs.pos, ?_⟩, ⟨hsame.name, hsame.unit, hsame.column⟩⟩
    · rw [valueOf_eq, hget]
      rfl
    · rw [hstream]
      rfl
    · rw [← List.drop_drop, hcons]
      rfl

theorem calls_is {content : List Char} (v : MonteVarFile) (n : Nat) {w : MonteVarFile} {k : Nat}
    (hsame : SameVariable w v) (h : w.Passed content k) :
    calls (some content) n w = (List.range' k n).map (v.expected content) := by
  induction n generalizing w k with
  | zero => rfl
  | succ n ih =>
    obtain ⟨hresult, hpassed, hsame'⟩ := getNextValue_is h
    have hexpected : w.expected content k = v.expected content k := by
      unfold expected
      cases (dataLines content)[k]? with
      | none => rfl
      | some line => exact hsame.columnOf _
    rw [List.range'_succ, List.map_cons, ← hexpected, ← hresult]
    have hsame'' : SameVariable (w.getNextValue (some content)).1 v :=
      ⟨hsame'.name.trans hsame.name, hsame'.unit.trans hsame.unit, hsame'.column.trans hsame.column⟩
    rw [← ih hsame'' hpassed]
    rfl

/-- **The values of a file variable**, one for each data line, and then `EOF`. -/
theorem enumerates (strerror name fileName unit : String) (column : Nat) (content : List Char) :
    ∃ v, create strerror name fileName column unit (some content) = .ok v ∧
      v.name = name ∧ v.unit = unit ∧ v.column = column ∧
      ∀ n, calls (some content) n v = (List.range n).map (v.expected content) := by
  refine ⟨_, rfl, rfl, rfl, rfl, ?_⟩
  intro n
  rw [List.range_eq_range']
  refine calls_is _ n ⟨rfl, rfl, rfl⟩ ⟨rfl, 0, rfl, Nat.zero_le _, ?_⟩
  rw [List.drop_zero, List.drop_zero]

end MonteVarFile

end Trick.Monte
