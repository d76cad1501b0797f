/-
  `MonteCarloVariableFile`: variables that take their values from the columns of a data file.

  One variable reads the file for all that depend on it, itself included.  The dependents are sorted by
  their columns, and the words of the line are read one after the other as they are needed.

  1. **Data.**  `VariableFile` is the object, `Heap` all of them by their addresses.

  2. **Program.**  `initializeFile`, and `processLine` with the loop over the dependents (`assignWords`)
     and the loop over the columns (`advance`).  The number of lines that are skipped is drawn at random
     and is an argument here.

  3. **Specification.**  `Right`: the call returns with the word of its column in every dependent, or
     terminates because a dependent needs a column that the line does not have.

  4. **The crux** (`assignWords_at`): the counter of the columns is also advanced when no word is left, so
     the column right behind the last one passes for the last one.

  5. **Result.**  `process_line_right`: a call is right if and only if the line is not exactly one column
     short of what is needed (`OneShort`).
-/
import Trick.MonteCarloGeneration.DataFile

namespace Trick.MonteGen

open Trick.Lib Trick.Monte Trick.Monte.MonteVarFile

/-! ## Program -/

/-- The address of a variable. -/
abbrev VarId := Nat

/-- `MonteCarloVariableFile` -/
structure VariableFile where
  variableName : String
  filename : String
  columnNumber : Nat
  firstColumnNumber : Nat := 1
  maxSkip : Nat := 0
  isDependent : Bool := false
  dependents : List VarId
  file : IfStream := {}
  assignment : String := ""
deriving DecidableEq

/-- The variables by their addresses. -/
abbrev Heap := VarId → VariableFile

/-- What becomes of a call. -/
inductive Outcome (α : Type) where
  | returns (result : α)
  /-- `exec_terminate_with_return` -/
  | terminates (message : String)
  | hangs

/-- `c_str()` in a message: the characters up to the NUL. -/
def cStr (s : String) : String := String.ofList (cString s.toList)

/-- How every message begins. -/
def place (line : Nat) : String := "File: mc_variable_file.cc, Line: " ++ toString line

def configurationError (name : String) (column first : Nat) : String :=
  place 60 ++ ",  Configuration Error\nIn configuring the file for variable " ++ cStr name ++
    ", it was identified that\nit was specified to draw data from column " ++ toString column ++
    ", but that the first\ncolumn was identified as having index " ++ toString first ++ ".\n"

def unableToOpen (filename name : String) : String :=
  "File: mc_variable_file.cc,  Line: 76, I/O error\nUnable to open file " ++ cStr filename ++
    " for reading.\nRequired for variable " ++ cStr name ++ ".\n"

def invalidDataFile (filename name : String) : String :=
  place 89 ++ " Invalid data file\nData file " ++ cStr filename ++
    " contains no recognized lines of data\nRequired for variable " ++ cStr name ++ ".\n"

def malformedDataFile (name : String) (line : List Char) (values column : Nat) : String :=
  place 250 ++ ", Malformed data file\nData file for variable " ++ cStr name ++ " includes this line:\n" ++
    String.ofList (cString line) ++ "\nWhich has only " ++ toString values ++ " values.\nVariable " ++ cStr name ++
    "  uses the value from position " ++ toString column ++ ", which does not exist in this line\n"

/-- `dependents.sort(sort_by_col_num)` -/
def sortByColNum (vars : Heap) (ids : List VarId) : List VarId :=
  ids.insertionSort fun left right => (vars left).columnNumber ≤ (vars right).columnNumber

/-- What the search for a line of data comes to. -/
inductive SanityCheck where
  | found (file : IfStream)
  | endOfFile
  | hangs

/-- The loop of `initialize_file` over the lines. -/
def findData : Nat → IfStream → List Char → SanityCheck
  | 0, _, _ => .hangs
  | fuel + 1, s, line =>
    if s.eofbit then .endOfFile
    else
      let (s, line) := s.getline line
      if passedOver line then findData fuel s line else .found s

/-- `initialize_file`, with the files by their names. -/
def initializeFile (disk : String → Option (List Char)) (vars : Heap) (this : VarId) : Outcome Heap :=
  let v := vars this
  let dependents := if v.dependents.length > 1 then sortByColNum vars v.dependents else v.dependents
  -- a variable is always among its own dependents, so that there is a first one
  let first := vars (dependents.headD this)
  if v.firstColumnNumber > first.columnNumber then
    .terminates (configurationError first.variableName first.columnNumber v.firstColumnNumber)
  else
    let file := v.file.openFile (disk v.filename)
    if file.failbit then .terminates (unableToOpen v.filename v.variableName)
    else
      match findData (file.content.length + 2) file [] with
      | .hangs => .hangs
      | .endOfFile => .terminates (invalidDataFile v.filename v.variableName)
      | .found file =>
        let v := { v with
          dependents := dependents
          file := file.seekg 0 }
        .returns (Function.update vars this v)

/-- The stream of words, the last word read, and the column it is taken for. -/
structure Scan where
  word : IStringStream
  scratchAssignment : List Char
  currentColumnNumber : Nat

/-- `while (next_column_needed > current_column_number && word)`, with so many columns to go. -/
def advance : Nat → Scan → Scan
  | 0, s => s
  | n + 1, s =>
    if s.word.failbit then s
    else
      let (word, scratch) := extract s.word s.scratchAssignment
      advance n
        { word := word
          scratchAssignment := scratch
          currentColumnNumber := s.currentColumnNumber + 1 }

/-- `(*it)->assignment = scratch_assignment` -/
def assign (vars : Heap) (it : VarId) (word : List Char) : Heap :=
  let v := { vars it with assignment := String.ofList word }
  Function.update vars it v

/-- The file of a variable is read from, or moved. -/
def setFile (vars : Heap) (this : VarId) (file : IfStream) : Heap :=
  let v := { vars this with file := file }
  Function.update vars this v

/-- The loop over the dependents. -/
def assignWords (v : VariableFile) (line : List Char) : List VarId → Scan → Heap → Outcome Heap
  | [], _, vars => .returns vars
  | it :: rest, s, vars =>
    let nextColumnNeeded := (vars it).columnNumber
    let s := advance (nextColumnNeeded - s.currentColumnNumber) s
    if s.currentColumnNumber < nextColumnNeeded then
      .terminates (malformedDataFile v.variableName line (s.currentColumnNumber - 1) v.columnNumber)
    else assignWords v line rest s (assign vars it s.scratchAssignment)

/-- The first word has been read. -/
def VariableFile.firstWord (v : VariableFile) (line : List Char) : Scan :=
  let (word, scratch) := extract { rest := line } []
  { word := word
    scratchAssignment := scratch
    currentColumnNumber := v.firstColumnNumber }

/-- How many good lines are skipped, with the number that is drawn. -/
def VariableFile.skipCount (v : VariableFile) (draw : Nat) : Nat := if v.maxSkip > 0 then draw else 0

/-- `process_line` -/
def processLine (vars : Heap) (this : VarId) (draw : Nat) : Outcome Heap :=
  let v := vars this
  match selectLine (v.skipCount draw) v.file [] with
  | none => .hangs
  | some (file, line) => assignWords v line v.dependents (v.firstWord line) (setFile vars this file)

/-- Calls of `process_line`, up to one that does not return. -/
def processLines (this : VarId) : List Nat → Heap → Outcome Heap
  | [], vars => .returns vars
  | draw :: draws, vars =>
    match processLine vars this draw with
    | .returns vars' => processLines this draws vars'
    | .terminates message => .terminates message
    | .hangs => .hangs

/-! ## Specification -/

/-- The word of a column in a line. -/
def VariableFile.wordAt (v : VariableFile) (line : List Char) (column : Nat) : Option (List Char) :=
  (wordsOf line)[column - v.firstColumnNumber]?

/-- **What a call should come to** with this line: every dependent has the word of its column, or there is
    an error because the line has too few columns for one of them. -/
def Right (vars : Heap) (this : VarId) (line : List Char) : Outcome Heap → Prop
  | .returns vars' =>
    ∀ d ∈ (vars this).dependents,
      ((vars this).wordAt line (vars d).columnNumber).map String.ofList = some (vars' d).assignment
  | .terminates _ => ∃ d ∈ (vars this).dependents, (vars this).wordAt line (vars d).columnNumber = none
  | .hangs => False

/-- **The greatest column that is needed** is the one right behind the last column of the line. -/
def OneShort (vars : Heap) (this : VarId) (line : List Char) : Prop :=
  ∃ d ∈ (vars this).dependents,
    (vars d).columnNumber = (vars this).firstColumnNumber + (wordsOf line).length ∧
      ∀ e ∈ (vars this).dependents, (vars e).columnNumber ≤ (vars d).columnNumber

/-- How many data lines are behind the file after calls with these numbers. -/
def VariableFile.linesRead (v : VariableFile) (draws : List Nat) : Nat :=
  (draws.map fun draw => v.skipCount draw + 1).sum

/-! ## The scan of a line -/

/-- **The scan is at the column with this index**: its word is the last one read, or there is none, and
    the stream has failed with the last word of the line still there. -/
structure Scan.At (words : List (List Char)) (first j : Nat) (s : Scan) : Prop where
  column : s.currentColumnNumber = first + j
  word : j < words.length ∧ words[j]? = some s.scratchAssignment ∧ s.word.words = words.drop (j + 1) ∧
      s.word.failbit = false ∨
    j = words.length ∧ s.word.failbit = true

theorem firstWord_at (v : VariableFile) {line : List Char} (h : wordsOf line ≠ []) :
    (v.firstWord line).At (wordsOf line) v.firstColumnNumber 0 := by
  obtain ⟨w, left, hwords⟩ := List.exists_cons_of_ne_nil h
  have hstart : IStringStream.words { rest := line } = w :: left := hwords
  obtain ⟨hw, hleft, hfail⟩ := extract_some hstart []
  refine ⟨rfl, Or.inl ⟨List.length_pos_iff.mpr h, ?_, ?_, hfail⟩⟩
  · show (wordsOf line)[0]? = some (extract { rest := line } []).2
    rw [hwords, hw]
    rfl
  · show (extract { rest := line } []).1.words = (wordsOf line).drop 1
    rw [hleft, hwords]
    rfl

/-- One more column. -/
theorem Scan.At.extract {words : List (List Char)} {first j : Nat} {s : Scan} (h : s.At words first j)
    (hok : s.word.failbit = false) :
    Scan.At words first (j + 1)
      { word := (MonteGen.extract s.word s.scratchAssignment).1
        scratchAssignment := (MonteGen.extract s.word s.scratchAssignment).2
        currentColumnNumber := s.currentColumnNumber + 1 } := by
  rcases h.word with ⟨hj, hword, hleft, -⟩ | ⟨-, hfail⟩
  · have hcolumn : s.currentColumnNumber + 1 = first + (j + 1) := by
      have hcolumn := h.column
      omega
    refine ⟨hcolumn, ?_⟩
    by_cases hlast : j + 1 < words.length
    · have hdrop := List.drop_eq_getElem_cons hlast
      obtain ⟨hw, hbehind, hfail⟩ := extract_some (hleft.trans hdrop) s.scratchAssignment
      exact Or.inl ⟨hlast, by rw [List.getElem?_eq_getElem hlast, hw], hbehind, hfail⟩
    · have hnone : s.word.words = [] := by
        rw [hleft]
        exact List.drop_eq_nil_iff.mpr (by omega)
      exact Or.inr ⟨by omega, (extract_none hnone _).2⟩
  · rw [hok] at hfail
    cases hfail

/-- **The loop over the columns** goes on as far as there are words, and one column more. -/
theorem Scan.At.advance {words : List (List Char)} {first j : Nat} {s : Scan} (h : s.At words first j) (n : Nat) :
    (MonteGen.advance n s).At words first (min (j + n) words.length) := by
  induction n generalizing j s with
  | zero =>
    have hj : min (j + 0) words.length = j := by
      rcases h.word with ⟨hj, -⟩ | ⟨hj, -⟩ <;> omega
    rw [hj]
    exact h
  | succ n ih =>
    unfold MonteGen.advance
    cases hfail : s.word.failbit with
    | true =>
      rw [if_pos rfl]
      rcases h.word with ⟨-, -, -, hok⟩ | ⟨hj, -⟩
      · rw [hok] at hfail
        cases hfail
      · rw [show min (j + (n + 1)) words.length = j by omega]
        exact h
    | false =>
      rw [if_neg Bool.false_ne_true]
      have hnext := ih (h.extract hfail)
      rwa [Nat.add_assoc, Nat.add_comm 1] at hnext

/-! ## The loop over the dependents -/

@[simp] theorem assign_columnNumber (vars : Heap) (it : VarId) (word : List Char) (d : VarId) :
    (assign vars it word d).columnNumber = (vars d).columnNumber := by
  unfold assign
  by_cases h : d = it
  · rw [h, Function.update_self]
  · rw [Function.update_of_ne h]

theorem assign_self (vars : Heap) (it : VarId) (word : List Char) :
    (assign vars it word it).assignment = String.ofList word := by
  rw [assign, Function.update_self]

theorem assign_of_ne (vars : Heap) {it d : VarId} (h : d ≠ it) (word : List Char) : assign vars it word d = vars d :=
  Function.update_of_ne h _ _

@[simp] theorem setFile_columnNumber (vars : Heap) (this : VarId) (file : IfStream) (d : VarId) :
    (setFile vars this file d).columnNumber = (vars d).columnNumber := by
  unfold setFile
  by_cases h : d = this
  · rw [h, Function.update_self]
  · rw [Function.update_of_ne h]

theorem setFile_self (vars : Heap) (this : VarId) (file : IfStream) :
    setFile vars this file this = { vars this with file := file } := Function.update_self ..

theorem setFile_of_ne (vars : Heap) {this d : VarId} (h : d ≠ this) (file : IfStream) : setFile vars this file d = vars d :=
  Function.update_of_ne h _ _

/-- Only the assignments of these variables are different. -/
def OnlyAssigned (ids : List VarId) (vars vars' : Heap) : Prop :=
  (∀ d ∉ ids, vars' d = vars d) ∧ ∀ d, vars' d = { vars d with assignment := (vars' d).assignment }

theorem OnlyAssigned.refl (vars : Heap) : OnlyAssigned [] vars vars := ⟨fun _ _ => rfl, fun _ => rfl⟩

theorem OnlyAssigned.cons {it : VarId} {ids : List VarId} {vars vars' : Heap} {word : List Char}
    (h : OnlyAssigned ids (assign vars it word) vars') : OnlyAssigned (it :: ids) vars vars' := by
  refine ⟨?_, ?_⟩
  · intro d hd
    rw [List.mem_cons, not_or] at hd
    rw [h.1 d hd.2, assign_of_ne vars hd.1]
  · intro d
    have hd := h.2 d
    by_cases hself : d = it
    · subst hself
      rw [assign, Function.update_self] at hd
      exact hd
    · rwa [assign_of_ne vars hself] at hd

/-- **The loop over the dependents**, from the scan at a column that is no further than the first of them:
    there is an error only if one of them needs more than one column too many. -/
theorem assignWords_at (v : VariableFile) (line : List Char) {words : List (List Char)} {first j : Nat} {s : Scan}
    (h : s.At words first j) {ids : List VarId} {vars : Heap}
    (hsorted : ids.Pairwise fun d e => (vars d).columnNumber < (vars e).columnNumber)
    (hge : ∀ d ∈ ids, first + j ≤ (vars d).columnNumber) :
    ((∃ d ∈ ids, first + words.length < (vars d).columnNumber) ∧
      ∃ message, assignWords v line ids s vars = .terminates message) ∨
    (∀ d ∈ ids, (vars d).columnNumber ≤ first + words.length) ∧
      ∃ vars', assignWords v line ids s vars = .returns vars' ∧ OnlyAssigned ids vars vars' ∧
        ∀ d ∈ ids, (vars d).columnNumber < first + words.length →
          (words[(vars d).columnNumber - first]?).map String.ofList = some (vars' d).assignment := by
  induction ids generalizing j s vars with
  | nil =>
    refine Or.inr ⟨fun d hd => (nomatch hd), vars, rfl, OnlyAssigned.refl vars, fun d hd => (nomatch hd)⟩
  | cons it rest ih =>
    obtain ⟨hlt, hrest⟩ := List.pairwise_cons.mp hsorted
    have hit := hge it List.mem_cons_self
    have hcolumn := h.column
    have hadvance := h.advance ((vars it).columnNumber - s.currentColumnNumber)
    rw [hcolumn] at hadvance
    have hreached := hadvance.column
    unfold assignWords
    simp only [hcolumn]
    by_cases hshort : first + words.length < (vars it).columnNumber
    · -- more than one column too many: the counter stops before it
      refine Or.inl ⟨⟨it, List.mem_cons_self, hshort⟩, _, if_pos ?_⟩
      omega
    · -- the counter comes to the column, whether there is a word or not
      have hindex : min (j + ((vars it).columnNumber - (first + j))) words.length = (vars it).columnNumber - first := by
        rcases h.word with ⟨hj, -⟩ | ⟨hj, -⟩ <;> omega
      rw [hindex] at hadvance hreached
      rw [if_neg (by omega)]
      generalize hscan : advance ((vars it).columnNumber - (first + j)) s = scan at hadvance hreached ⊢
      have hsorted' : rest.Pairwise fun d e => (assign vars it scan.scratchAssignment d).columnNumber <
          (assign vars it scan.scratchAssignment e).columnNumber := by
        simpa only [assign_columnNumber] using hrest
      have hge' : ∀ d ∈ rest, first + ((vars it).columnNumber - first) ≤
          (assign vars it scan.scratchAssignment d).columnNumber := by
        intro d hd
        have hnext := hlt d hd
        rw [assign_columnNumber]
        omega
      rcases ih hadvance hsorted' hge' with ⟨⟨d, hd, hfar⟩, hmessage⟩ | ⟨hall, vars', hreturns, honly, hassigned⟩
      · rw [assign_columnNumber] at hfar
        exact Or.inl ⟨⟨d, List.mem_cons_of_mem _ hd, hfar⟩, hmessage⟩
      · simp only [assign_columnNumber] at hall hassigned
        refine Or.inr ⟨?_, vars', hreturns, honly.cons, ?_⟩
        · intro d hd
          rcases List.mem_cons.mp hd with rfl | hd
          · omega
          · exact hall d hd
        · intro d hd hword
          rcases List.mem_cons.mp hd with rfl | hd
          · -- it is not assigned again, since the columns behind it are greater
            have hnot : d ∉ rest := fun hmem => Nat.lt_irrefl _ (hlt d hmem)
            rw [honly.1 d hnot, assign_self]
            rcases hadvance.word with ⟨-, hget, -⟩ | ⟨hend, -⟩
            · rw [hget]
              rfl
            · omega
          · exact hassigned d hd hword

/-- The words that have been read and those that are left are words of the line. -/
def Scan.In (words : List (List Char)) (s : Scan) : Prop :=
  s.scratchAssignment ∈ words ∧ ∀ w ∈ s.word.words, w ∈ words

theorem Scan.At.in {words : List (List Char)} {first j : Nat} {s : Scan} (h : s.At words first j) (hj : j < words.length) :
    s.In words := by
  rcases h.word with ⟨-, hword, hleft, -⟩ | ⟨hend, -⟩
  · refine ⟨List.mem_of_getElem? hword, fun w hw => ?_⟩
    rw [hleft] at hw
    exact List.mem_of_mem_drop hw
  · omega

theorem Scan.In.extract {words : List (List Char)} {s : Scan} (h : s.In words) :
    (MonteGen.extract s.word s.scratchAssignment).2 ∈ words ∧
      ∀ w ∈ (MonteGen.extract s.word s.scratchAssignment).1.words, w ∈ words := by
  cases hwords : s.word.words with
  | nil =>
    obtain ⟨hsame, hfail⟩ := extract_none hwords s.scratchAssignment
    have hempty : (MonteGen.extract s.word s.scratchAssignment).1.words = [] := by
      rw [IStringStream.words, hfail, Bool.or_true, if_pos rfl]
    rw [hsame, hempty]
    exact ⟨h.1, fun w hw => absurd hw List.not_mem_nil⟩
  | cons v left =>
    obtain ⟨hword, hleft, -⟩ := extract_some hwords s.scratchAssignment
    have hall := h.2
    rw [hwords] at hall
    rw [hword, hleft]
    exact ⟨hall v List.mem_cons_self, fun w hw => hall w (List.mem_cons_of_mem _ hw)⟩

theorem Scan.In.advance {words : List (List Char)} {s : Scan} (h : s.In words) (n : Nat) :
    (MonteGen.advance n s).In words := by
  induction n generalizing s with
  | zero => exact h
  | succ n ih =>
    unfold MonteGen.advance
    cases hfail : s.word.failbit with
    | true => exact h
    | false =>
      rw [if_neg Bool.false_ne_true]
      exact ih h.extract

/-- **Whatever the columns are**, what is assigned is a word of the line. -/
theorem assignWords_words (v : VariableFile) (line : List Char) {words : List (List Char)} {s : Scan} (h : s.In words)
    {ids : List VarId} {vars vars' : Heap} (hreturns : assignWords v line ids s vars = .returns vars') :
    OnlyAssigned ids vars vars' ∧ ∀ d ∈ ids, ∃ w ∈ words, (vars' d).assignment = String.ofList w := by
  induction ids generalizing s vars with
  | nil =>
    obtain rfl : vars = vars' := Outcome.returns.inj hreturns
    exact ⟨OnlyAssigned.refl vars, fun d hd => (nomatch hd)⟩
  | cons it rest ih =>
    unfold assignWords at hreturns
    simp only at hreturns
    have hin := h.advance ((vars it).columnNumber - s.currentColumnNumber)
    generalize advance ((vars it).columnNumber - s.currentColumnNumber) s = scan at hin hreturns
    by_cases hshort : scan.currentColumnNumber < (vars it).columnNumber
    · rw [if_pos hshort] at hreturns
      cases hreturns
    · rw [if_neg hshort] at hreturns
      obtain ⟨honly, hwords⟩ := ih hin hreturns
      refine ⟨honly.cons, fun d hd => ?_⟩
      by_cases hmem : d ∈ rest
      · exact hwords d hmem
      · obtain rfl : d = it := (List.mem_cons.mp hd).resolve_right hmem
        exact ⟨scan.scratchAssignment, hin.1, by rw [honly.1 d hmem, assign_self]⟩

/-- A good line has a word. -/
theorem wordsOf_ne_nil {line : List Char} (h : passedOver line = false) : wordsOf line ≠ [] := by
  have hspace : ¬ ∀ c ∈ line, isspace c = true := by
    unfold passedOver at h
    intro hall
    rw [List.all_eq_true.mpr hall, Bool.or_true] at h
    cases h
  rw [wordsOf, ← fields_dropWhile]
  cases hrest : line.dropWhile isspace with
  | nil => exact absurd (List.dropWhile_eq_nil_iff.mp hrest) hspace
  | cons c cs =>
    have hc : isspace c = false := by
      have hhead := List.head?_dropWhile_not isspace line
      rw [hrest] at hhead
      exact hhead
    rw [fields_cons hc]
    exact List.cons_ne_nil _ _

/-- What a call leaves alone: everything but the file of the reader and the assignments of its dependents. -/
structure Frame (vars vars' : Heap) (this : VarId) : Prop where
  same : ∀ d, vars' d = { vars d with
    assignment := (vars' d).assignment
    file := (vars' d).file }
  file : ∀ d, d ≠ this → (vars' d).file = (vars d).file
  others : ∀ d ∉ (vars this).dependents, d ≠ this → vars' d = vars d

theorem OnlyAssigned.frame {vars vars' : Heap} {this : VarId} {file : IfStream}
    (h : OnlyAssigned (vars this).dependents (setFile vars this file) vars') : Frame vars vars' this := by
  refine ⟨?_, ?_, ?_⟩
  · intro d
    have hd := h.2 d
    by_cases hself : d = this
    · rw [hself, setFile_self] at hd
      rw [hself, hd]
    · rw [setFile_of_ne vars hself] at hd
      rw [hd]
  · intro d hd
    rw [h.2 d, setFile_of_ne vars hd]
  · intro d hd hne
    rw [h.1 d hd, setFile_of_ne vars hne]

/-- **A call that returns.** -/
theorem processLine_frame {vars vars' : Heap} {this : VarId} {draw : Nat}
    (h : processLine vars this draw = .returns vars') : Frame vars vars' this := by
  unfold processLine at h
  simp only at h
  cases hselect : selectLine ((vars this).skipCount draw) (vars this).file [] with
  | none =>
    rw [hselect] at h
    cases h
  | some selected =>
    obtain ⟨file, line⟩ := selected
    rw [hselect] at h
    have hin : ((vars this).firstWord line).In
        (((vars this).firstWord line).scratchAssignment :: ((vars this).firstWord line).word.words) :=
      ⟨List.mem_cons_self, fun w hw => List.mem_cons_of_mem _ hw⟩
    exact (assignWords_words (vars this) line hin h).1.frame

/-- **The words of a call that returns** are those of the line that is reached. -/
theorem processLine_words {vars vars' : Heap} {this : VarId} {content : List Char} {c draw : Nat}
    (h : Around (vars this).file content c) (hne : dataLines content ≠ [])
    (hreturns : processLine vars this draw = .returns vars') :
    Around (vars' this).file content (c + ((vars this).skipCount draw + 1)) ∧
      ∃ line, (dataLines content)[(c + (vars this).skipCount draw) % (dataLines content).length]? = some line ∧
        ∀ d ∈ (vars this).dependents, ∃ w ∈ wordsOf line, (vars' d).assignment = String.ofList w := by
  obtain ⟨file, line, hselect, haround, hline⟩ := selectLine_is h hne ((vars this).skipCount draw) []
  have hgood : passedOver line = false := by
    have hmem := List.mem_of_getElem? hline
    simpa using (List.mem_filter.mp hmem).2
  have hwords := wordsOf_ne_nil hgood
  have hin := (firstWord_at (vars this) hwords).in (List.length_pos_iff.mpr hwords)
  unfold processLine at hreturns
  simp only [hselect] at hreturns
  obtain ⟨honly, hassigned⟩ := assignWords_words (vars this) line hin hreturns
  refine ⟨?_, line, hline, hassigned⟩
  rw [honly.2 this, setFile_self]
  exact haround

/-! ## One call -/

/-- **The invariant of the calls**: the columns are those of `vars₀`, the dependents of `this` are sorted by
    their columns, none of which is before the first one, and `c` data lines of the file have been read. -/
structure Ready (vars₀ : Heap) (this : VarId) (content : List Char) (c : Nat) (vars : Heap) : Prop where
  columns : ∀ d, (vars d).columnNumber = (vars₀ d).columnNumber
  first : (vars this).firstColumnNumber = (vars₀ this).firstColumnNumber
  maxSkip : (vars this).maxSkip = (vars₀ this).maxSkip
  dependents : (vars this).dependents.Perm (vars₀ this).dependents
  sorted : (vars this).dependents.Pairwise fun d e => (vars d).columnNumber < (vars e).columnNumber
  least : ∀ d ∈ (vars this).dependents, (vars this).firstColumnNumber ≤ (vars d).columnNumber
  around : Around (vars this).file content c
  data : dataLines content ≠ []

/-- **What a call does**: it is the loop over the dependents, on the line that is reached. -/
theorem Ready.processLine {vars₀ vars : Heap} {this : VarId} {content : List Char} {c : Nat}
    (h : Ready vars₀ this content c vars) (draw : Nat) :
    ∃ file line, (dataLines content)[(c + (vars₀ this).skipCount draw) % (dataLines content).length]? = some line ∧
      Around file content (c + ((vars₀ this).skipCount draw + 1)) ∧
      MonteGen.processLine vars this draw =
        assignWords (vars this) line (vars this).dependents ((vars this).firstWord line) (setFile vars this file) := by
  have hskip : (vars this).skipCount draw = (vars₀ this).skipCount draw := by
    unfold VariableFile.skipCount
    rw [h.maxSkip]
  obtain ⟨file, line, hselect, haround, hline⟩ := selectLine_is h.around h.data ((vars₀ this).skipCount draw) []
  refine ⟨file, line, hline, haround, ?_⟩
  unfold MonteGen.processLine
  simp only [hskip, hselect]

/-- **The two ways of a call**: an error, with a column that is more than one too many, or values. -/
theorem Ready.cases {vars₀ vars : Heap} {this : VarId} {content : List Char} {c : Nat}
    (h : Ready vars₀ this content c vars) (draw : Nat) :
    ∃ line, (dataLines content)[(c + (vars₀ this).skipCount draw) % (dataLines content).length]? = some line ∧
      (((∃ d ∈ (vars₀ this).dependents,
          (vars₀ this).firstColumnNumber + (wordsOf line).length < (vars₀ d).columnNumber) ∧
        ∃ message, MonteGen.processLine vars this draw = .terminates message) ∨
      (∀ d ∈ (vars₀ this).dependents,
          (vars₀ d).columnNumber ≤ (vars₀ this).firstColumnNumber + (wordsOf line).length) ∧
        ∃ vars', MonteGen.processLine vars this draw = .returns vars' ∧
          Ready vars₀ this content (c + ((vars₀ this).skipCount draw + 1)) vars' ∧
          ∀ d ∈ (vars₀ this).dependents,
            (vars₀ d).columnNumber < (vars₀ this).firstColumnNumber + (wordsOf line).length →
              ((vars₀ this).wordAt line (vars₀ d).columnNumber).map String.ofList = some (vars' d).assignment) := by
  obtain ⟨file, line, hline, haround, hprocess⟩ := h.processLine draw
  refine ⟨line, hline, ?_⟩
  rw [hprocess]
  have hgood : passedOver line = false := by
    have hmem := List.mem_of_getElem? hline
    simpa using (List.mem_filter.mp hmem).2
  have hat := firstWord_at (vars this) (wordsOf_ne_nil hgood)
  have hmem : ∀ d, d ∈ (vars this).dependents ↔ d ∈ (vars₀ this).dependents := fun d => h.dependents.mem_iff
  have hcolumns : ∀ d, (setFile vars this file d).columnNumber = (vars d).columnNumber :=
    setFile_columnNumber vars this file
  have hthis := setFile_self vars this file
  generalize setFile vars this file = filed at hcolumns hthis
  have hsorted : (vars this).dependents.Pairwise fun d e => (filed d).columnNumber < (filed e).columnNumber := by
    simpa only [hcolumns] using h.sorted
  have hleast : ∀ d ∈ (vars this).dependents, (vars this).firstColumnNumber + 0 ≤ (filed d).columnNumber := by
    intro d hd
    rw [hcolumns]
    exact h.least d hd
  have hcases := assignWords_at (vars this) line hat hsorted hleast
  simp only [hcolumns, h.columns, hmem] at hcases
  rw [h.first] at hcases
  rcases hcases with herror | ⟨hall, vars', hreturns, honly, hassigned⟩
  · exact Or.inl herror
  · refine Or.inr ⟨hall, vars', hreturns, ?_, hassigned⟩
    have hthis' := honly.2 this
    rw [hthis] at hthis'
    have hcolumns' : ∀ d, (vars' d).columnNumber = (vars d).columnNumber := by
      intro d
      rw [honly.2 d]
      exact hcolumns d
    have hdependents : (vars' this).dependents = (vars this).dependents := by rw [hthis']
    have hfirst : (vars' this).firstColumnNumber = (vars this).firstColumnNumber := by rw [hthis']
    refine ⟨fun d => (hcolumns' d).trans (h.columns d), hfirst.trans h.first, ?_, ?_, ?_, ?_, ?_, h.data⟩
    · rw [hthis']
      exact h.maxSkip
    · rw [hdependents]
      exact h.dependents
    · rw [hdependents]
      simpa only [hcolumns'] using h.sorted
    · rw [hdependents, hfirst]
      simpa only [hcolumns'] using h.least
    · rw [hthis']
      exact haround

/-- A column of the line, and one that is not. -/
theorem wordAt_eq_none_iff (v : VariableFile) (line : List Char) {column : Nat} (h : v.firstColumnNumber ≤ column) :
    v.wordAt line column = none ↔ v.firstColumnNumber + (wordsOf line).length ≤ column := by
  rw [VariableFile.wordAt, List.getElem?_eq_none_iff]
  omega

/-- **One call** is right if and only if the line is not one column short. -/
theorem Ready.lineRight_iff {vars₀ vars : Heap} {this : VarId} {content : List Char} {c : Nat}
    (h : Ready vars₀ this content c vars) (draw : Nat) :
    ∃ line, (dataLines content)[(c + (vars₀ this).skipCount draw) % (dataLines content).length]? = some line ∧
      (Right vars₀ this line (MonteGen.processLine vars this draw) ↔ ¬ OneShort vars₀ this line) := by
  have hleast : ∀ d ∈ (vars₀ this).dependents, (vars₀ this).firstColumnNumber ≤ (vars₀ d).columnNumber := by
    intro d hd
    rw [← h.first, ← h.columns]
    exact h.least d (h.dependents.mem_iff.mpr hd)
  obtain ⟨line, hline, hcases⟩ := h.cases draw
  refine ⟨line, hline, ?_⟩
  rcases hcases with ⟨⟨d, hd, hfar⟩, message, hprocess⟩ | ⟨hall, vars', hprocess, -, hassigned⟩
  · rw [hprocess]
    constructor
    · intro _ ⟨e, _, hshort, hgreatest⟩
      have hle := hgreatest d hd
      omega
    · intro _
      exact ⟨d, hd, (wordAt_eq_none_iff _ line (hleast d hd)).mpr (by omega)⟩
  · rw [hprocess]
    constructor
    · intro hright ⟨d, hd, hshort, _⟩
      have hnone := (wordAt_eq_none_iff (vars₀ this) line (hleast d hd)).mpr (by omega)
      have hvalue := hright d hd
      rw [hnone] at hvalue
      cases hvalue
    · intro hnot d hd
      refine hassigned d hd ?_
      have hle := hall d hd
      by_contra hge
      exact hnot ⟨d, hd, by omega, fun e he => by have hle' := hall e he; omega⟩

/-- Calls that return. -/
theorem Ready.processLines {vars₀ vars vars' : Heap} {this : VarId} {content : List Char} {c : Nat}
    (h : Ready vars₀ this content c vars) {draws : List Nat} (hreturns : processLines this draws vars = .returns vars') :
    Ready vars₀ this content (c + (vars₀ this).linesRead draws) vars' := by
  induction draws generalizing vars c with
  | nil =>
    obtain rfl : vars = vars' := Outcome.returns.inj hreturns
    exact h
  | cons draw draws ih =>
    unfold MonteGen.processLines at hreturns
    obtain ⟨line, -, ⟨-, message, hprocess⟩ | ⟨-, vars₁, hprocess, hnext, -⟩⟩ := h.cases draw
    · rw [hprocess] at hreturns
      cases hreturns
    · rw [hprocess] at hreturns
      have hrest := ih hnext hreturns
      rwa [Nat.add_assoc] at hrest

/-! ## The start -/

theorem failbit_of_seekgEnd {s : IfStream} (h : s.seekgEnd.good = true) : s.failbit = false := by
  cases hfail : s.failbit with
  | false => rfl
  | true =>
    unfold IfStream.seekgEnd IfStream.sentry IfStream.good at h
    simp only [hfail, Bool.not_true, Bool.and_false, Bool.false_eq_true, if_false, if_true] at h

/-- What is found is the whole file, with a line of data in it. -/
theorem findData_found {fuel : Nat} {s t : IfStream} {content line : List Char} (h : Reading s content)
    (hfound : findData fuel s line = .found t) :
    t.content = content ∧ t.failbit = false ∧ dataLines (content.drop s.pos) ≠ [] := by
  induction fuel generalizing s line with
  | zero => cases hfound
  | succ fuel ih =>
    unfold findData at hfound
    rw [(good_bits h.good).1, if_neg Bool.false_ne_true] at hfound
    by_cases hmem : '\n' ∈ content.drop s.pos
    · obtain ⟨v, rest, hrest, hv⟩ := List.eq_append_cons_of_mem hmem
      obtain ⟨t', hget, hreading, hdrop, -⟩ := getline_newline h hrest hv line
      rw [hget] at hfound
      rw [hrest, dataLines_append hv]
      cases hover : passedOver v with
      | true =>
        simp only [hover, if_true] at hfound
        obtain ⟨hcontent, hfail, hne⟩ := ih hreading hfound
        rw [hdrop] at hne
        exact ⟨hcontent, hfail, hne⟩
      | false =>
        simp only [hover, Bool.false_eq_true, if_false] at hfound
        obtain rfl := SanityCheck.found.inj hfound
        exact ⟨hreading.file, (good_bits hreading.good).2, List.cons_ne_nil _ _⟩
    · obtain ⟨t', hget, heof, hseek⟩ := getline_last h hmem line
      rw [hget] at hfound
      rw [dataLines_of_not_mem hmem]
      cases hover : passedOver (content.drop s.pos) with
      | true =>
        -- the next turn sees the end of the file
        simp only [hover, if_true] at hfound
        exfalso
        cases fuel with
        | zero => cases hfound
        | succ fuel =>
          unfold findData at hfound
          rw [heof, if_pos rfl] at hfound
          cases hfound
      | false =>
        simp only [hover, Bool.false_eq_true, if_false] at hfound
        obtain rfl := SanityCheck.found.inj hfound
        have hne : content.drop s.pos ≠ [] := by
          intro hnil
          rw [hnil] at hover
          cases hover
        have hcontent := getline_content s line
        rw [hget, h.file] at hcontent
        exact ⟨hcontent, failbit_of_seekgEnd (hseek hne).1.good, List.cons_ne_nil _ _⟩

theorem sortByColNum_sorted (vars : Heap) (ids : List VarId) :
    (sortByColNum vars ids).Pairwise fun d e => (vars d).columnNumber ≤ (vars e).columnNumber := by
  have htotal : Std.Total fun d e => (vars d).columnNumber ≤ (vars e).columnNumber := ⟨fun _ _ => Nat.le_total _ _⟩
  have htrans : IsTrans VarId fun d e => (vars d).columnNumber ≤ (vars e).columnNumber :=
    ⟨fun _ _ _ => Nat.le_trans⟩
  exact List.pairwise_insertionSort _ ids

/-- The dependents are sorted if there is more than one. -/
theorem sorted_dependents (vars : Heap) (ids : List VarId) :
    (if ids.length > 1 then sortByColNum vars ids else ids).Perm ids ∧
      (if ids.length > 1 then sortByColNum vars ids else ids).Pairwise
        fun d e => (vars d).columnNumber ≤ (vars e).columnNumber := by
  by_cases hlen : ids.length > 1
  · rw [if_pos hlen]
    exact ⟨List.perm_insertionSort _ ids, sortByColNum_sorted vars ids⟩
  · rw [if_neg hlen]
    refine ⟨List.Perm.refl _, ?_⟩
    rcases ids with - | ⟨d, - | ⟨e, rest⟩⟩
    · exact List.Pairwise.nil
    · exact List.pairwise_singleton _ _
    · exact absurd (Nat.le_add_left _ _) hlen

/-- A variable with its dependents sorted, and with its file at the beginning. -/
structure Opened (vars vars' : Heap) (this : VarId) (content : List Char) : Prop where
  others : ∀ d, d ≠ this → vars' d = vars d
  reader : ∃ file, vars' this = { vars this with
      dependents := (vars' this).dependents
      file := file } ∧ Reading file content ∧ file.pos = 0
  dependents : (vars' this).dependents.Perm (vars this).dependents
  sorted : (vars' this).dependents.Pairwise fun d e => (vars d).columnNumber ≤ (vars e).columnNumber
  least : ∀ d ∈ (vars this).dependents, (vars this).firstColumnNumber ≤ (vars d).columnNumber
  data : dataLines content ≠ []

/-- A stream that opens was closed, and the file exists. -/
theorem openFile_ok {s : IfStream} {file : Option (List Char)} (h : ¬ (s.openFile file).failbit = true) :
    ∃ content, file = some content ∧ s.openFile file = { content := content, isOpen := true } := by
  cases file with
  | none => exact absurd rfl h
  | some content =>
    refine ⟨content, rfl, ?_⟩
    by_cases hisOpen : s.isOpen = true
    · have hopen : s.openFile (some content) = { s with failbit := true } := if_pos hisOpen
      rw [hopen] at h
      exact absurd rfl h
    · exact if_neg hisOpen

/-- **A file that is accepted**: it is at its beginning, and has a line of data. -/
theorem initializeFile_returns {disk : String → Option (List Char)} {vars vars' : Heap} {this : VarId}
    (h : initializeFile disk vars this = .returns vars') :
    ∃ content, disk (vars this).filename = some content ∧ Opened vars vars' this content := by
  obtain ⟨hperm, hsorted⟩ := sorted_dependents vars (vars this).dependents
  unfold initializeFile at h
  simp only at h
  generalize (if (vars this).dependents.length > 1 then sortByColNum vars (vars this).dependents
    else (vars this).dependents) = dependents at h hperm hsorted
  by_cases hfirst : (vars this).firstColumnNumber > (vars (dependents.headD this)).columnNumber
  · rw [if_pos hfirst] at h
    cases h
  · rw [if_neg hfirst] at h
    by_cases hfail : ((vars this).file.openFile (disk (vars this).filename)).failbit = true
    · rw [if_pos hfail] at h
      cases h
    · rw [if_neg hfail] at h
      -- the file exists, and was not open
      obtain ⟨content, hdisk, hopen⟩ := openFile_ok hfail
      rw [hopen] at h
      have hreading : Reading { content := content, isOpen := true } content := ⟨rfl, rfl, Nat.zero_le _⟩
      cases hfind : findData (content.length + 2) { content := content, isOpen := true } [] with
      | hangs =>
        simp only [hfind] at h
        cases h
      | endOfFile =>
        simp only [hfind] at h
        cases h
      | found file =>
        simp only [hfind] at h
        obtain rfl := Outcome.returns.inj h
        obtain ⟨hcontent, hok, hdata⟩ := findData_found hreading hfind
        refine ⟨content, hdisk, fun d hd => Function.update_of_ne hd _ _, ?_, ?_, ?_, ?_, hdata⟩
        · rw [Function.update_self]
          refine ⟨file.seekg 0, rfl, ?_⟩
          have hseek : file.seekg 0 = { file with
              pos := 0
              eofbit := false } := seekg_eq hok 0
          rw [hseek]
          exact ⟨⟨good_of_failbit hok, hcontent, Nat.zero_le _⟩, rfl⟩
        · rw [Function.update_self]
          exact hperm
        · rw [Function.update_self]
          exact hsorted
        · intro d hd
          have hmem := hperm.mem_iff.mpr hd
          cases dependents with
          | nil => exact (nomatch hmem)
          | cons e rest =>
            rw [List.headD_cons] at hfirst
            rcases List.mem_cons.mp hmem with rfl | hmem
            · omega
            · have hle := (List.pairwise_cons.mp hsorted).1 d hmem
              omega

/-- **The start of the calls**, if the columns are distinct. -/
theorem Opened.ready {vars vars' : Heap} {this : VarId} {content : List Char} (h : Opened vars vars' this content)
    (hdistinct : ((vars this).dependents.map fun d => (vars d).columnNumber).Nodup) :
    Ready vars this content 0 vars' := by
  obtain ⟨file, hthis, hreading, hpos⟩ := h.reader
  have hcolumns : ∀ d, (vars' d).columnNumber = (vars d).columnNumber := by
    intro d
    by_cases hd : d = this
    · rw [hd, hthis]
    · rw [h.others d hd]
  have hdistinct' : ((vars' this).dependents.map fun d => (vars d).columnNumber).Nodup :=
    (h.dependents.map _).nodup_iff.mpr hdistinct
  refine ⟨hcolumns, by rw [hthis], by rw [hthis], h.dependents, ?_, ?_, ?_, h.data⟩
  · have hne := List.pairwise_map.mp hdistinct'
    refine List.Pairwise.imp ?_ (h.sorted.and hne)
    intro d e hde
    rw [hcolumns, hcolumns]
    omega
  · intro d hd
    rw [hcolumns, show (vars' this).firstColumnNumber = (vars this).firstColumnNumber by rw [hthis]]
    exact h.least d (h.dependents.mem_iff.mp hd)
  · rw [hthis]
    exact Around.start hreading hpos

/-! ## Result -/

/-- **The calls of `process_line`** behind a file that is accepted: the call with `draw` behind the calls with
    `draws` is right for the line that is reached, if and only if that line is not exactly one column short. -/
theorem process_line_right {disk : String → Option (List Char)} {vars vars₁ vars₂ : Heap} {this : VarId}
    (haccept : initializeFile disk vars this = .returns vars₁)
    (hdistinct : ((vars this).dependents.map fun d => (vars d).columnNumber).Nodup)
    (draws : List Nat) (hcalls : processLines this draws vars₁ = .returns vars₂) (draw : Nat) :
    ∃ content line, disk (vars this).filename = some content ∧
      (dataLines content)[((vars this).linesRead draws + (vars this).skipCount draw) % (dataLines content).length]? =
        some line ∧
      (Right vars this line (processLine vars₂ this draw) ↔ ¬ OneShort vars this line) := by
  obtain ⟨content, hdisk, hopened⟩ := initializeFile_returns haccept
  obtain ⟨line, hline, hright⟩ := ((hopened.ready hdistinct).processLines hcalls).lineRight_iff draw
  rw [Nat.zero_add] at hline
  exact ⟨content, line, hdisk, hline, hright⟩

/-- Two variables, the second of which takes its value from the column `column` of the same file. -/
def readsColumn (column : Nat) : Heap := fun d =>
  if d = 0 then { variableName := "x", filename := "values", columnNumber := 1, dependents := [0, 1] }
  else { variableName := "y", filename := "values", columnNumber := column, dependents := [1], isDependent := true }

/-- A file with one comment and two lines of data. -/
def twoLines : String → Option (List Char) := fun _ => some "# x y\n1 2\n3 4".toList

theorem process_line_right_twoLines :
    ∃ vars₁ vars₂, initializeFile twoLines (readsColumn 2) 0 = .returns vars₁ ∧
      processLines 0 [0, 0] vars₁ = .returns vars₂ ∧
      ∃ content line, twoLines "values" = some content ∧ (dataLines content)[2 % (dataLines content).length]? = some line ∧
        (Right (readsColumn 2) 0 line (processLine vars₂ 0 0) ↔ ¬ OneShort (readsColumn 2) 0 line) :=
  ⟨_, _, rfl, rfl, @process_line_right twoLines (readsColumn 2) _ _ 0 rfl (by decide) [0, 0] rfl 0⟩

/-- **Not always**: with two words in a line, the third column is the second word. -/
theorem not_process_line_right :
    ¬ ∀ (disk : String → Option (List Char)) (vars vars₁ : Heap) (this : VarId) (content line : List Char),
      initializeFile disk vars this = .returns vars₁ → disk (vars this).filename = some content →
      ((vars this).dependents.map fun d => (vars d).columnNumber).Nodup →
      (dataLines content)[0]? = some line → Right vars this line (processLine vars₁ this 0) := by
  intro h
  have hright := h twoLines (readsColumn 3) _ 0 _ "1 2".toList rfl rfl (by decide) (by decide +kernel)
  have hnone := hright 1 (by decide)
  have hword : (readsColumn 3 0).wordAt "1 2".toList (readsColumn 3 1).columnNumber = none := by decide +kernel
  rw [hword] at hnone
  cases hnone

end Trick.MonteGen
