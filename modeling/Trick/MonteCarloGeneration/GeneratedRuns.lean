/-
  `execute`: the runs that are generated from the variables in the list.

  The files are opened, and for each run every variable in the list generates its assignment; a file
  variable that does not depend on another reads a line, for itself and for its dependents.

  1. **Data.**  `Run`: which variables have read a line, and what was assigned to each.

  2. **Program.**  `generateRuns` and `execute`.  What a variable draws at random for a run is an
     argument, and variables of another class do nothing to the files.

  3. **Specification.**  `Together`: in a run, the variables of one file have words of one line, which was
     read once, and which depends on the variable that reads only.

  4. **The crux** (`generateRun_reader`): in front of the reader no variable of its file is in the list,
     and behind it they are all dependents.

  5. **Result.**  `runs_together`: the runs are as they should be if and only if every file still has its
     reader in the list.
-/
import Trick.MonteCarloGeneration.MonteCarloMaster

namespace Trick.MonteGen

open Trick.Lib

/-! ## Program -/

/-- `f` behind a call that returns. -/
def Outcome.bind {α β : Type} (o : Outcome α) (f : α → Outcome β) : Outcome β :=
  match o with
  | .returns a => f a
  | .terminates message => .terminates message
  | .hangs => .hangs

theorem Outcome.bind_returns {α β : Type} {o : Outcome α} {f : α → Outcome β} {b : β} (h : o.bind f = .returns b) :
    ∃ a, o = .returns a ∧ f a = .returns b := by
  cases o with
  | returns a => exact ⟨a, rfl, h⟩
  | terminates message => cases h
  | hangs => cases h

/-- A run that is being generated. -/
structure Run where
  /-- The variables that have read a line of their files. -/
  reads : List VarId := []
  /-- What has been assigned to the file variables. -/
  values : VarId → Option String := fun _ => none

/-- The assignment of a variable is written. -/
def Run.record (run : Run) (vars : Heap) (id : VarId) : Run :=
  { run with values := Function.update run.values id (some (vars id).assignment) }

/-- `generate_assignment` -/
def generateAssignment (draw : VarId → Nat) (g : Heap × Run) : Variable → Outcome (Heap × Run)
  | .other _ => .returns g
  | .file id =>
    if (g.1 id).isDependent then .returns (g.1, g.2.record g.1 id)
    else
      (processLine g.1 id (draw id)).bind fun vars =>
        .returns (vars, { g.2 with reads := g.2.reads ++ [id] }.record vars id)

/-- The loop over the variables. -/
def generateRun (draw : VarId → Nat) : List Variable → Heap × Run → Outcome (Heap × Run)
  | [], g => .returns g
  | v :: rest, g => (generateAssignment draw g v).bind (generateRun draw rest)

/-- The loop over the runs: so many from `run_num` on. -/
def generateRuns (draws : VarId → Nat → Nat) (variableList : List Variable) : Nat → Nat → Heap → Outcome (List Run)
  | 0, _, _ => .returns []
  | n + 1, runNum, vars =>
    (generateRun (fun d => draws d runNum) variableList (vars, {})).bind fun g =>
      (generateRuns draws variableList n (runNum + 1) g.1).bind fun runs => .returns (g.2 :: runs)

/-- The loop over the files. -/
def initializeFiles (disk : String → Option (List Char)) : List (String × VarId) → Heap → Outcome Heap
  | [], vars => .returns vars
  | (_, id) :: rest, vars => (initializeFile disk vars id).bind (initializeFiles disk rest)

/-- `execute`, with the runs it generates. -/
def execute (disk : String → Option (List Char)) (draws : VarId → Nat → Nat) (m : MonteCarloMaster) :
    Outcome (List Run) :=
  if !m.active || !m.generateDispersions then .returns []
  else
    (initializeFiles disk m.fileList m.vars).bind fun vars =>
      if m.inputFilesPrepared then .returns [] else generateRuns draws m.variableList m.numRuns 0 vars

/-! ## Specification -/

/-- How many runs `execute` is to generate. -/
def MonteCarloMaster.runCount (m : MonteCarloMaster) : Nat :=
  if !m.active || !m.generateDispersions then 0 else m.numRuns

/-- **What is to hold in run `k`**: for every file of a variable in the list, exactly one variable reads a line
    of it, and every variable in the list that has this file is assigned a word of this line.  Which line it
    is depends on the file, the reader, and what it has drawn. -/
def Together (m : MonteCarloMaster) (disk : String → Option (List Char)) (draws : VarId → Nat → Nat) (k : Nat)
    (run : Run) : Prop :=
  ∀ d, Variable.file d ∈ m.variableList → ∃ reader content line,
    (run.reads.filter fun r => (m.vars r).filename = (m.vars d).filename) = [reader] ∧
    disk (m.vars d).filename = some content ∧
    (dataLines content)[((m.vars reader).linesRead ((List.range k).map (draws reader)) +
      (m.vars reader).skipCount (draws reader k)) % (dataLines content).length]? = some line ∧
    ∀ e, Variable.file e ∈ m.variableList → (m.vars e).filename = (m.vars d).filename →
      ∃ w ∈ wordsOf line, run.values e = some (String.ofList w)

/-! ## What stays the same -/

/-- The variables are set up in the same way. -/
structure Same (vars vars' : Heap) : Prop where
  filename : ∀ d, (vars' d).filename = (vars d).filename
  isDependent : ∀ d, (vars' d).isDependent = (vars d).isDependent
  maxSkip : ∀ d, (vars' d).maxSkip = (vars d).maxSkip
  dependents : ∀ d e, e ∈ (vars' d).dependents ↔ e ∈ (vars d).dependents

theorem Same.refl (vars : Heap) : Same vars vars :=
  ⟨fun _ => rfl, fun _ => rfl, fun _ => rfl, fun _ _ => Iff.rfl⟩

theorem Same.trans {vars vars' vars'' : Heap} (h : Same vars vars') (h' : Same vars' vars'') : Same vars vars'' :=
  ⟨fun d => (h'.filename d).trans (h.filename d), fun d => (h'.isDependent d).trans (h.isDependent d),
    fun d => (h'.maxSkip d).trans (h.maxSkip d), fun d e => (h'.dependents d e).trans (h.dependents d e)⟩

theorem Frame.toSame {vars vars' : Heap} {this : VarId} (h : Frame vars vars' this) : Same vars vars' := by
  refine ⟨fun d => ?_, fun d => ?_, fun d => ?_, fun d e => ?_⟩
  all_goals rw [h.same d]

theorem Opened.toSame {vars vars' : Heap} {this : VarId} {content : List Char} (h : Opened vars vars' this content) :
    Same vars vars' := by
  obtain ⟨file, hthis, -⟩ := h.reader
  refine ⟨fun d => ?_, fun d => ?_, fun d => ?_, fun d e => ?_⟩
  all_goals
    by_cases hd : d = this
    · subst hd
      first
        | exact h.dependents.mem_iff
        | rw [hthis]
    · rw [h.others d hd]

theorem Same.skipCount {vars vars' : Heap} (h : Same vars vars') (d : VarId) (draw : Nat) :
    (vars' d).skipCount draw = (vars d).skipCount draw := by
  rw [VariableFile.skipCount, VariableFile.skipCount, h.maxSkip]

/-- A file that is at its beginning, with a line of data. -/
def AtStart (disk : String → Option (List Char)) (vars : Heap) (r : VarId) : Prop :=
  ∃ content, disk (vars r).filename = some content ∧ dataLines content ≠ [] ∧ Around (vars r).file content 0

/-- **The files are opened**, each at its beginning. -/
theorem initializeFiles_returns {disk : String → Option (List Char)} {files : List (String × VarId)}
    {vars vars' : Heap} (h : initializeFiles disk files vars = .returns vars') :
    Same vars vars' ∧ ∀ r, (r ∈ files.map Prod.snd ∨ AtStart disk vars r) → AtStart disk vars' r := by
  induction files generalizing vars with
  | nil =>
    obtain rfl : vars = vars' := Outcome.returns.inj h
    exact ⟨Same.refl vars, fun r hr => hr.resolve_left (by simp)⟩
  | cons entry rest ih =>
    obtain ⟨f, id⟩ := entry
    obtain ⟨vars₁, hfirst, hrest⟩ := Outcome.bind_returns h
    obtain ⟨content, hdisk, hopened⟩ := initializeFile_returns hfirst
    obtain ⟨hsame, hstart⟩ := ih hrest
    refine ⟨hopened.toSame.trans hsame, fun r hr => ?_⟩
    by_cases hid : r = id
    · subst hid
      obtain ⟨file, hthis, hreading, hpos⟩ := hopened.reader
      refine hstart r (Or.inr ⟨content, ?_, hopened.data, ?_⟩)
      · rw [hopened.toSame.filename]
        exact hdisk
      · rw [hthis]
        exact Around.start hreading hpos
    · rcases hr with hr | hr
      · rw [List.map_cons, List.mem_cons] at hr
        exact hstart r (Or.inl (hr.resolve_left hid))
      · refine hstart r (Or.inr ?_)
        unfold AtStart
        rw [hopened.others r hid]
        exact hr

/-! ## One run -/

/-- The variables `l` do not read the file `f`: everything of it stays as it is, and the variables of it among
    them write what they have. -/
structure Leaves (m : MonteCarloMaster) (f : String) (l : List Variable) (g g' : Heap × Run) : Prop where
  same : Same g.1 g'.1
  objects : ∀ d, (m.vars d).filename = f → g'.1 d = g.1 d
  reads : (g'.2.reads.filter fun r => (m.vars r).filename = f) = g.2.reads.filter fun r => (m.vars r).filename = f
  written : ∀ d, (m.vars d).filename = f → Variable.file d ∈ l → g'.2.values d = some (g.1 d).assignment
  kept : ∀ d, Variable.file d ∉ l → g'.2.values d = g.2.values d

/-- One variable that does not read the file. -/
theorem leaves_one {m : MonteCarloMaster} (h : m.Registered) {f : String} {draw : VarId → Nat} {v : Variable}
    {g g' : Heap × Run} (hsame : Same m.vars g.1)
    (hdep : ∀ d, Variable.file d = v → (m.vars d).filename = f → (m.vars d).isDependent = true)
    (hone : generateAssignment draw g v = .returns g') : Leaves m f [v] g g' := by
  cases v with
  | other name =>
    obtain rfl : g = g' := Outcome.returns.inj hone
    refine ⟨Same.refl _, fun _ _ => rfl, rfl, fun d _ hd => ?_, fun _ _ => rfl⟩
    rw [List.mem_singleton] at hd
    cases hd
  | file id =>
    have hne : ∀ {d}, Variable.file d ∉ [Variable.file id] → d ≠ id := by
      rintro d hd rfl
      exact hd (List.mem_singleton_self _)
    unfold generateAssignment at hone
    simp only at hone
    by_cases hid : (g.1 id).isDependent = true
    · rw [if_pos hid] at hone
      obtain rfl := Outcome.returns.inj hone
      refine ⟨Same.refl _, fun _ _ => rfl, rfl, ?_, fun d hd => Function.update_of_ne (hne hd) _ _⟩
      intro d _ hd
      rw [List.mem_singleton] at hd
      cases hd
      exact Function.update_self ..
    · rw [if_neg hid] at hone
      obtain ⟨vars, hprocess, hresult⟩ := Outcome.bind_returns hone
      obtain rfl := Outcome.returns.inj hresult
      have hframe := processLine_frame hprocess
      -- it reads another file, and so do its dependents
      have hother : (m.vars id).filename ≠ f := by
        intro heq
        rw [hsame.isDependent] at hid
        exact hid (hdep id rfl heq)
      refine ⟨hframe.toSame, ?_, ?_, ?_, fun d hd => Function.update_of_ne (hne hd) _ _⟩
      · intro d hd
        refine hframe.others d ?_ ?_
        · intro hmem
          rw [hsame.dependents] at hmem
          exact hother ((h.shared id d hmem).symm.trans hd)
        · rintro rfl
          exact hother hd
      · show (g.2.reads ++ [id]).filter _ = _
        rw [List.filter_append, List.filter_singleton, decide_eq_false hother]
        exact List.append_nil _
      · intro d hd hmem
        rw [List.mem_singleton] at hmem
        cases hmem
        exact absurd hd hother

/-- **Variables that do not read the file.** -/
theorem generateRun_others {m : MonteCarloMaster} (h : m.Registered) {f : String} {draw : VarId → Nat}
    {l : List Variable} {g g' : Heap × Run} (hsame : Same m.vars g.1)
    (hdep : ∀ d, Variable.file d ∈ l → (m.vars d).filename = f → (m.vars d).isDependent = true)
    (hrun : generateRun draw l g = .returns g') : Leaves m f l g g' := by
  induction l generalizing g with
  | nil =>
    obtain rfl : g = g' := Outcome.returns.inj hrun
    exact ⟨Same.refl _, fun _ _ => rfl, rfl, fun d _ hd => (nomatch hd), fun _ _ => rfl⟩
  | cons v rest ih =>
    obtain ⟨g₁, hfirst, hrest⟩ := Outcome.bind_returns hrun
    have hone := leaves_one h hsame (fun d hd => hdep d (by rw [hd]; exact List.mem_cons_self)) hfirst
    have hothers := ih (hsame.trans hone.same) (fun d hd => hdep d (List.mem_cons_of_mem _ hd)) hrest
    refine ⟨hone.same.trans hothers.same, ?_, hothers.reads.trans hone.reads, ?_, ?_⟩
    · intro d hd
      rw [hothers.objects d hd, hone.objects d hd]
    · intro d hd hmem
      by_cases hlater : Variable.file d ∈ rest
      · rw [hothers.written d hd hlater, hone.objects d hd]
      · rw [hothers.kept d hlater]
        refine hone.written d hd ?_
        rw [(List.mem_cons.mp hmem).resolve_right hlater]
        exact List.mem_singleton_self _
    · intro d hd
      rw [List.mem_cons, not_or] at hd
      rw [hothers.kept d hd.2]
      exact hone.kept d (by simpa using hd.1)

/-- Loops one after the other. -/
theorem generateRun_append {draw : VarId → Nat} {l l' : List Variable} {g g' : Heap × Run}
    (h : generateRun draw (l ++ l') g = .returns g') :
    ∃ g₁, generateRun draw l g = .returns g₁ ∧ generateRun draw l' g₁ = .returns g' := by
  induction l generalizing g with
  | nil => exact ⟨g, rfl, h⟩
  | cons v rest ih =>
    obtain ⟨g₁, hfirst, hrest⟩ := Outcome.bind_returns h
    obtain ⟨g₂, hmiddle, hlast⟩ := ih hrest
    refine ⟨g₂, ?_, hlast⟩
    show (generateAssignment draw g v).bind (generateRun draw rest) = _
    rw [hfirst]
    exact hmiddle

/-- The list is split at a variable that reads its file: the file is not read by any other. -/
theorem MonteCarloMaster.Registered.split {m : MonteCarloMaster} (h : m.Registered) {r : VarId}
    (hreader : m.readerOf (m.vars r).filename = some r) (hactive : m.Active r) :
    ∃ front behind, m.variableList = front ++ .file r :: behind ∧
      (∀ d, Variable.file d ∈ front → (m.vars d).filename ≠ (m.vars r).filename) ∧
      (∀ d, Variable.file d ∈ behind → (m.vars d).filename = (m.vars r).filename → (m.vars d).isDependent = true) ∧
      Variable.file r ∉ behind := by
  obtain ⟨front, behind, hsplit⟩ := List.append_of_mem hactive.1
  have hdistinct := h.distinct
  have hbefore := h.before
  rw [hsplit, List.pairwise_append] at hdistinct hbefore
  have hnotBehind : Variable.file r ∉ behind := fun hmem =>
    (List.pairwise_cons.mp hdistinct.2.1).1 _ hmem rfl
  refine ⟨front, behind, hsplit, ?_, ?_, hnotBehind⟩
  · intro d hd hfile
    have hne : d ≠ r := by
      rintro rfl
      exact hdistinct.2.2 _ hd _ List.mem_cons_self rfl
    exact hbefore.2.2 _ hd _ List.mem_cons_self ⟨d, r, rfl, rfl, hne, by rw [hfile]; exact hreader, hactive.2⟩
  · intro d hd hfile
    have hmem : Variable.file d ∈ m.variableList := by
      rw [hsplit]
      exact List.mem_append_right _ (List.mem_cons_of_mem _ hd)
    obtain ⟨r', hr', -, hcases⟩ := h.listed d hmem
    rw [hfile, hreader] at hr'
    cases hr'
    refine hcases.resolve_left ?_
    rintro rfl
    exact hnotBehind hd

/-- **The crux**: a run with an active reader. -/
theorem generateRun_reader {m : MonteCarloMaster} (h : m.Registered) {r : VarId}
    (hreader : m.readerOf (m.vars r).filename = some r) (hactive : m.Active r) {draw : VarId → Nat} {vars : Heap}
    {g : Heap × Run} (hsame : Same m.vars vars) {content : List Char} {c : Nat}
    (haround : Around (vars r).file content c) (hdata : dataLines content ≠ [])
    (hrun : generateRun draw m.variableList (vars, {}) = .returns g) :
    Same m.vars g.1 ∧ Around (g.1 r).file content (c + ((m.vars r).skipCount (draw r) + 1)) ∧
      (g.2.reads.filter fun x => (m.vars x).filename = (m.vars r).filename) = [r] ∧
      ∃ line, (dataLines content)[(c + (m.vars r).skipCount (draw r)) % (dataLines content).length]? = some line ∧
        ∀ e, Variable.file e ∈ m.variableList → (m.vars e).filename = (m.vars r).filename →
          ∃ w ∈ wordsOf line, g.2.values e = some (String.ofList w) := by
  obtain ⟨front, behind, hsplit, hfront, hbehind, hnot⟩ := h.split hreader hactive
  rw [hsplit] at hrun
  obtain ⟨g₁, hrun₁, hrest⟩ := generateRun_append hrun
  obtain ⟨g₂, hreads, hrun₂⟩ := Outcome.bind_returns hrest
  have hleaves₁ := generateRun_others h hsame (fun d hd hfile => absurd hfile (hfront d hd)) hrun₁
  have hsame₁ := hsame.trans hleaves₁.same
  -- the reader
  have hindependent : ¬ (g₁.1 r).isDependent = true := by
    rw [hsame₁.isDependent, hactive.2]
    decide
  unfold generateAssignment at hreads
  simp only at hreads
  rw [if_neg hindependent] at hreads
  obtain ⟨vars₂, hprocess, hresult⟩ := Outcome.bind_returns hreads
  obtain rfl := Outcome.returns.inj hresult
  have hobject : g₁.1 r = vars r := hleaves₁.objects r rfl
  rw [← hobject] at haround
  obtain ⟨haround₂, line, hline, hwords⟩ := processLine_words haround hdata hprocess
  rw [hsame₁.skipCount] at haround₂ hline
  have hsame₂ := hsame₁.trans (processLine_frame hprocess).toSame
  have hleaves₃ := generateRun_others h hsame₂ hbehind hrun₂
  refine ⟨hsame₂.trans hleaves₃.same, ?_, ?_, line, hline, ?_⟩
  · rw [hleaves₃.objects r rfl]
    exact haround₂
  · rw [hleaves₃.reads]
    show (g₁.2.reads ++ [r]).filter _ = _
    rw [List.filter_append, hleaves₁.reads, List.filter_singleton, decide_eq_true rfl]
    rfl
  · intro e he hfile
    obtain ⟨r', hr', hmem, -⟩ := h.listed e he
    rw [hfile, hreader] at hr'
    cases hr'
    rw [← hsame₁.dependents] at hmem
    obtain ⟨w, hw, hassigned⟩ := hwords e hmem
    refine ⟨w, hw, ?_⟩
    rw [hsplit, List.mem_append, List.mem_cons] at he
    rcases he with he | he | he
    · exact absurd hfile (hfront e he)
    · cases he
      rw [hleaves₃.kept _ hnot, ← hassigned]
      exact Function.update_self ..
    · rw [hleaves₃.written e hfile he, ← hassigned]

/-! ## All runs -/

/-- **Every run with an active reader**, from any one on. -/
theorem generateRuns_reader {m : MonteCarloMaster} (h : m.Registered) {r : VarId}
    (hreader : m.readerOf (m.vars r).filename = some r) (hactive : m.Active r) {draws : VarId → Nat → Nat}
    {content : List Char} (hdata : dataLines content ≠ []) {n k : Nat} {vars : Heap} {runs : List Run}
    (hsame : Same m.vars vars)
    (haround : Around (vars r).file content ((m.vars r).linesRead ((List.range k).map (draws r))))
    (hruns : generateRuns draws m.variableList n k vars = .returns runs) :
    ∀ i run, runs[i]? = some run →
      (run.reads.filter fun x => (m.vars x).filename = (m.vars r).filename) = [r] ∧
      ∃ line, (dataLines content)[((m.vars r).linesRead ((List.range (k + i)).map (draws r)) +
          (m.vars r).skipCount (draws r (k + i))) % (dataLines content).length]? = some line ∧
        ∀ e, Variable.file e ∈ m.variableList → (m.vars e).filename = (m.vars r).filename →
          ∃ w ∈ wordsOf line, run.values e = some (String.ofList w) := by
  induction n generalizing k vars runs with
  | zero =>
    obtain rfl := Outcome.returns.inj hruns
    intro i run hi
    cases hi
  | succ n ih =>
    obtain ⟨g, hrun, hrest⟩ := Outcome.bind_returns hruns
    obtain ⟨later, hlater, hresult⟩ := Outcome.bind_returns hrest
    obtain rfl := Outcome.returns.inj hresult
    obtain ⟨hsame', haround', hreads, hwords⟩ := generateRun_reader h hreader hactive hsame haround hdata hrun
    intro i run hi
    cases i with
    | zero =>
      obtain rfl : g.2 = run := Option.some.inj hi
      exact ⟨hreads, hwords⟩
    | succ i =>
      have hnext : (m.vars r).linesRead ((List.range (k + 1)).map (draws r)) =
          (m.vars r).linesRead ((List.range k).map (draws r)) + ((m.vars r).skipCount (draws r k) + 1) := by
        unfold VariableFile.linesRead
        simp [List.range_succ]
      rw [← hnext] at haround'
      have hlast := ih hsame' haround' hlater i run hi
      rwa [Nat.add_assoc, Nat.add_comm 1] at hlast

/-! ## Who reads -/

theorem generateAssignment_reads {draw : VarId → Nat} {v : Variable} {g g' : Heap × Run}
    (h : generateAssignment draw g v = .returns g') :
    Same g.1 g'.1 ∧ ∀ x ∈ g'.2.reads, x ∈ g.2.reads ∨ v = .file x ∧ (g.1 x).isDependent = false := by
  cases v with
  | other name =>
    obtain rfl : g = g' := Outcome.returns.inj h
    exact ⟨Same.refl _, fun x hx => Or.inl hx⟩
  | file id =>
    unfold generateAssignment at h
    simp only at h
    cases hid : (g.1 id).isDependent with
    | true =>
      rw [hid, if_pos rfl] at h
      obtain rfl := Outcome.returns.inj h
      exact ⟨Same.refl _, fun x hx => Or.inl hx⟩
    | false =>
      rw [hid, if_neg Bool.false_ne_true] at h
      obtain ⟨vars, hprocess, hresult⟩ := Outcome.bind_returns h
      obtain rfl := Outcome.returns.inj hresult
      refine ⟨(processLine_frame hprocess).toSame, fun x hx => ?_⟩
      have hx : x ∈ g.2.reads ++ [id] := hx
      rw [List.mem_append, List.mem_singleton] at hx
      rcases hx with hx | rfl
      · exact Or.inl hx
      · exact Or.inr ⟨rfl, hid⟩

theorem generateRun_reads {draw : VarId → Nat} {l : List Variable} {g g' : Heap × Run}
    (h : generateRun draw l g = .returns g') :
    Same g.1 g'.1 ∧ ∀ x ∈ g'.2.reads, x ∈ g.2.reads ∨ Variable.file x ∈ l ∧ (g.1 x).isDependent = false := by
  induction l generalizing g with
  | nil =>
    obtain rfl : g = g' := Outcome.returns.inj h
    exact ⟨Same.refl _, fun x hx => Or.inl hx⟩
  | cons v rest ih =>
    obtain ⟨g₁, hfirst, hrest⟩ := Outcome.bind_returns h
    obtain ⟨hsame₁, hreads₁⟩ := generateAssignment_reads hfirst
    obtain ⟨hsame₂, hreads₂⟩ := ih hrest
    refine ⟨hsame₁.trans hsame₂, fun x hx => ?_⟩
    rcases hreads₂ x hx with hx | ⟨hmem, hdep⟩
    · rcases hreads₁ x hx with hx | ⟨rfl, hdep⟩
      · exact Or.inl hx
      · exact Or.inr ⟨List.mem_cons_self, hdep⟩
    · rw [hsame₁.isDependent] at hdep
      exact Or.inr ⟨List.mem_cons_of_mem _ hmem, hdep⟩

/-- **Only active variables read**, in as many runs as are asked for. -/
theorem generateRuns_reads {m : MonteCarloMaster} {draws : VarId → Nat → Nat} {n k : Nat} {vars : Heap}
    {runs : List Run} (hsame : Same m.vars vars)
    (h : generateRuns draws m.variableList n k vars = .returns runs) :
    runs.length = n ∧ ∀ run ∈ runs, ∀ x ∈ run.reads, m.Active x := by
  induction n generalizing k vars runs with
  | zero =>
    obtain rfl := Outcome.returns.inj h
    exact ⟨rfl, fun run hrun => (nomatch hrun)⟩
  | succ n ih =>
    obtain ⟨g, hrun, hrest⟩ := Outcome.bind_returns h
    obtain ⟨later, hlater, hresult⟩ := Outcome.bind_returns hrest
    obtain rfl := Outcome.returns.inj hresult
    obtain ⟨hsame', hreads⟩ := generateRun_reads hrun
    obtain ⟨hlen, hall⟩ := ih (hsame.trans hsame') hlater
    refine ⟨congrArg (· + 1) hlen, fun run hmem x hx => ?_⟩
    rcases List.mem_cons.mp hmem with rfl | hmem
    · obtain ⟨hmem, hdep⟩ := (hreads x hx).resolve_left (fun hnil => (nomatch hnil))
      rw [hsame.isDependent] at hdep
      exact ⟨hmem, hdep⟩
    · exact hall run hmem x hx

/-! ## Result -/

/-- Who reads a file in the right way is the reader that was entered for it. -/
theorem readersActive_of_together {m : MonteCarloMaster} (h : m.Registered)
    {disk : String → Option (List Char)} {draws : VarId → Nat → Nat} {k : Nat} {run : Run}
    (htogether : Together m disk draws k run) (hreads : ∀ x ∈ run.reads, m.Active x) : m.ReadersActive := by
  intro d r hd hr
  obtain ⟨reader, content, line, hfilter, -⟩ := htogether d hd
  have hmem : reader ∈ run.reads.filter fun x => (m.vars x).filename = (m.vars d).filename := by
    rw [hfilter]
    exact List.mem_singleton_self _
  rw [List.mem_filter, decide_eq_true_eq] at hmem
  obtain ⟨hread, hfile⟩ := hmem
  have hactive := hreads reader hread
  obtain ⟨r', hr', -, hcases⟩ := h.listed reader hactive.1
  rw [hfile, hr] at hr'
  cases hr'
  rcases hcases with rfl | hdep
  · exact hactive
  · rw [hactive.2] at hdep
    cases hdep

/-- **The runs after any sequence of calls**: in each of them the variables of a file have words of one line, if
    and only if no run is generated or every file has its reader. -/
theorem runs_together {m₀ m : MonteCarloMaster} (hstart : m₀.Constructed) {cs : List MonteCarloMaster.Call}
    (hcalls : MonteCarloMaster.calls cs m₀ = .returns m) {disk : String → Option (List Char)}
    {draws : VarId → Nat → Nat} {runs : List Run} (hexecute : execute disk draws m = .returns runs) :
    runs.length = m.runCount ∧
      ((∀ k run, runs[k]? = some run → Together m disk draws k run) ↔ m.runCount = 0 ∨ m.ReadersActive) := by
  have hreg := hstart.registered.calls hcalls
  unfold execute at hexecute
  unfold MonteCarloMaster.runCount
  by_cases hoff : (!m.active || !m.generateDispersions) = true
  · rw [if_pos hoff] at hexecute
    rw [if_pos hoff]
    obtain rfl := Outcome.returns.inj hexecute
    exact ⟨rfl, ⟨fun _ => Or.inl rfl, fun _ k run hk => (nomatch hk)⟩⟩
  · rw [if_neg hoff] at hexecute
    rw [if_neg hoff]
    obtain ⟨vars, hfiles, hruns⟩ := Outcome.bind_returns hexecute
    rw [hreg.prepared, if_neg Bool.false_ne_true] at hruns
    obtain ⟨hsame, hopened⟩ := initializeFiles_returns hfiles
    obtain ⟨hlen, hreads⟩ := generateRuns_reads hsame hruns
    refine ⟨hlen, ?_, ?_⟩
    · intro hall
      cases runs with
      | nil => exact Or.inl hlen.symm
      | cons run later =>
        exact Or.inr (readersActive_of_together hreg (hall 0 run rfl) (hreads run List.mem_cons_self))
    · intro hcases k run hk d hd
      rcases hcases with hzero | hactive
      · rw [hzero, List.length_eq_zero_iff] at hlen
        rw [hlen] at hk
        cases hk
      · obtain ⟨r, hr, -⟩ := hreg.listed d hd
        have hown := hreg.own _ _ hr
        -- its file has been opened
        have hentry : r ∈ m.fileList.map Prod.snd := by
          unfold MonteCarloMaster.readerOf at hr
          obtain ⟨entry, hentry, rfl⟩ := Option.map_eq_some_iff.mp hr
          exact List.mem_map_of_mem (List.mem_of_find?_eq_some hentry)
        obtain ⟨content, hdisk, hdata, haround⟩ := hopened r (Or.inl hentry)
        rw [hsame.filename] at hdisk
        rw [← hown] at hr
        obtain ⟨hfilter, line, hline, hwords⟩ := generateRuns_reader hreg hr (hactive d r hd (hown ▸ hr)) hdata hsame
          (k := 0) haround hruns k run hk
        rw [Nat.zero_add] at hline
        refine ⟨r, content, line, ?_, ?_, hline, ?_⟩
        · rw [← hown]
          exact hfilter
        · rw [← hown]
          exact hdisk
        · rw [← hown]
          exact hwords

/-- Two variables of one file, in its first and its second column, as they are constructed. -/
def twoVariables : MonteCarloMaster :=
  { active := true
    vars := fun d =>
      if d = 0 then { variableName := "x", filename := "values", columnNumber := 1, dependents := [d] }
      else { variableName := "y", filename := "values", columnNumber := 2, dependents := [d] } }

theorem twoVariables_constructed : twoVariables.Constructed := by
  refine ⟨rfl, rfl, rfl, fun d => ?_, fun d => ?_⟩
  all_goals
    unfold twoVariables
    by_cases hd : d = 0
    · simp [hd]
    · simp [hd]

theorem runs_together_threeRuns :
    ∃ m runs, MonteCarloMaster.calls [.addVariable (.file 0), .addVariable (.other "z"), .addVariable (.file 1),
        .removeVariable "z", .setNumRuns 3] twoVariables = .returns m ∧
      execute twoLines (fun _ _ => 0) m = .returns runs ∧ runs.length = m.runCount ∧
      ((∀ k run, runs[k]? = some run → Together m twoLines (fun _ _ => 0) k run) ↔ m.runCount = 0 ∨ m.ReadersActive) :=
  ⟨_, _, rfl, rfl, @runs_together _ _ twoVariables_constructed [.addVariable (.file 0), .addVariable (.other "z"),
    .addVariable (.file 1), .removeVariable "z", .setNumRuns 3] rfl _ _ _ rfl⟩

/-- **Not always**: with its reader removed, nobody reads the file. -/
theorem not_runs_together :
    ¬ ∀ (m₀ m : MonteCarloMaster) (cs : List MonteCarloMaster.Call) (disk : String → Option (List Char))
      (draws : VarId → Nat → Nat) (runs : List Run), m₀.Constructed → MonteCarloMaster.calls cs m₀ = .returns m →
      execute disk draws m = .returns runs → ∀ k run, runs[k]? = some run → Together m disk draws k run := by
  intro h
  have hrun := h twoVariables _ [.addVariable (.file 0), .addVariable (.file 1), .removeVariable "x", .setNumRuns 1]
    twoLines (fun _ _ => 0) _ twoVariables_constructed rfl rfl 0 _ rfl
  obtain ⟨reader, content, line, hfilter, -⟩ := hrun 1 (List.mem_singleton_self _)
  cases hfilter

end Trick.MonteGen
