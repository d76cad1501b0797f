/-
  `MonteCarloMaster`: the list of the variables, and which of them reads a data file.

  The first variable that is added for a file is entered in a second list, and every later one for the
  same file is registered with it as a dependent.  Removing a variable takes it out of the first list
  only.

  1. **Data.**  `Variable` is a file variable or any other, `MonteCarloMaster` the two lists.

  2. **Program.**  `addVariable`, `removeVariable`, `setNumRuns`, and sequences of these calls.

  3. **Specification.**  `Registered` is what any sequence of calls keeps of the two lists, and
     `ReadersActive` says that every file of a variable in the list is still read by one in the list.

  4. **Result.**  `registered_calls`: any sequence of calls keeps `Registered`; `readersActive_calls`: as
     long as no reader is removed, every file keeps its reader.
-/
import Trick.MonteCarloGeneration.VariableFile

namespace Trick.MonteGen

open Trick.Lib

/-! ## Program -/

/-- `MonteCarloVariable *`: a file variable by its address, or a variable of another class by its name. -/
inductive Variable where
  | file (id : VarId)
  | other (name : String)
deriving DecidableEq

/-- `get_variable_name` -/
def Variable.name (vars : Heap) : Variable → String
  | .file id => (vars id).variableName
  | .other name => name

/-- `MonteCarloMaster` -/
structure MonteCarloMaster where
  active : Bool := false
  generateDispersions : Bool := true
  runName : String := ""
  inputFilesPrepared : Bool := false
  variableList : List Variable := []
  fileList : List (String × VarId) := []
  numRuns : Nat := 0
  /-- The file variables, whether they have been added or not. -/
  vars : Heap
  /-- What has been published. -/
  messages : List String := []

/-- How every message begins. -/
def masterPlace (line : Nat) : String := "File: mc_master.cc, Line: " ++ toString line

def addedTooLate (name runName : String) : String :=
  masterPlace 247 ++ ", Invalid sequence\nAttempted to add a new variable " ++ cStr name ++ " to run " ++ cStr runName ++
    ", but the input files have already been generated.\nCannot modify input files to accommodate this new " ++
    "variable.\nAddition of variable rejected.\n"

def duplicatedVariable (name : String) : String :=
  "File: mc_master.cc, Line:  261,  Duplicated variable.\nAttempted to add two settings for variable " ++ cStr name ++
    ".\nTerminating to allow resolution of which setting to use.\n"

def hasDependencies (new this : String) : String :=
  place 147 ++ ", Invalid configuration\nError in attempting to make " ++ cStr new ++ " be dependent on " ++ cStr this ++
    ".\n" ++ cStr new ++ " cannot be marked as dependent when it has dependencies of its own.\nThe dependency " ++
    "hierarchy can only be one level deep."

def differentSkip (new this : String) (maxSkip : Nat) : String :=
  place 159 ++ ", Invalid configuration\nIt is not permissible for two variables looking at the same file to\noperate " ++
    "under different line-selection criteria.\n" ++ cStr new ++ "\nwill be switched to the behavior of\n" ++ cStr this ++
    ",\nwhich as a setting for the maximum number of lines to skip of " ++ toString maxSkip ++ "\n"

def removedUnknown (name : String) : String :=
  masterPlace 345 ++ ", Invalid name\nAttempt to remove MonteCarlo variable with name " ++ cStr name ++
    " FAILED.\nDid not find a variable with that name.\n"

def runsTooLate (numRuns : Nat) : String :=
  masterPlace 363 ++ ", Invalid sequence\nAttempted to set the number of runs to " ++ toString numRuns ++
    ", but the input files have\nalready been generated."

/-- `dependents.push_back(new_var)` and `new_var->is_dependent = true` -/
def pushDependent (vars : Heap) (this new : VarId) : Heap :=
  let reader := { vars this with dependents := (vars this).dependents ++ [new] }
  let vars := Function.update vars this reader
  let dependent := { vars new with isDependent := true }
  Function.update vars new dependent

/-- `register_dependent`, with what it publishes. -/
def registerDependent (vars : Heap) (this new : VarId) : Outcome (Heap × List String) :=
  if (vars new).dependents.length > 1 then
    .terminates (hasDependencies (vars new).variableName (vars this).variableName)
  else
    let published := if (vars new).maxSkip ≠ (vars this).maxSkip then
        [differentSkip (vars new).variableName (vars this).variableName (vars this).maxSkip]
      else []
    .returns (pushDependent vars this new, published)

namespace MonteCarloMaster

/-- The entry of a file in `file_list`. -/
def readerOf (m : MonteCarloMaster) (filename : String) : Option VarId :=
  (m.fileList.find? fun entry => filename = entry.1).map Prod.snd

/-- `add_variable` -/
def addVariable (m : MonteCarloMaster) (variable_ : Variable) : Outcome MonteCarloMaster :=
  let name := variable_.name m.vars
  if m.inputFilesPrepared then .returns { m with messages := m.messages ++ [addedTooLate name m.runName] }
  else if m.variableList.any fun var => var.name m.vars = name then .terminates (duplicatedVariable name)
  else
    match variable_ with
    | .other _ => .returns { m with variableList := m.variableList ++ [variable_] }
    | .file id =>
      let filename := (m.vars id).filename
      match m.readerOf filename with
      | some reader =>
        match registerDependent m.vars reader id with
        | .returns (vars, published) =>
          .returns { m with
            variableList := m.variableList ++ [variable_]
            vars := vars
            messages := m.messages ++ published }
        | .terminates message => .terminates message
        | .hangs => .hangs
      | none =>
        .returns { m with
          variableList := m.variableList ++ [variable_]
          fileList := m.fileList ++ [(filename, id)] }

/-- `remove_variable` -/
def removeVariable (m : MonteCarloMaster) (name : String) : MonteCarloMaster :=
  if m.variableList.any fun var => var.name m.vars = name then
    { m with variableList := m.variableList.eraseP fun var => var.name m.vars = name }
  else { m with messages := m.messages ++ [removedUnknown name] }

/-- `set_num_runs` -/
def setNumRuns (m : MonteCarloMaster) (numRuns : Nat) : MonteCarloMaster :=
  if m.inputFilesPrepared then { m with messages := m.messages ++ [runsTooLate numRuns] }
  else { m with numRuns := numRuns }

/-- A call before `execute`. -/
inductive Call where
  | addVariable (variable_ : Variable)
  | removeVariable (name : String)
  | setNumRuns (numRuns : Nat)
deriving DecidableEq

def call (m : MonteCarloMaster) : Call → Outcome MonteCarloMaster
  | .addVariable variable_ => m.addVariable variable_
  | .removeVariable name => .returns (m.removeVariable name)
  | .setNumRuns numRuns => .returns (m.setNumRuns numRuns)

/-- Calls one after the other, up to one that does not return. -/
def calls : List Call → MonteCarloMaster → Outcome MonteCarloMaster
  | [], m => .returns m
  | c :: rest, m =>
    match m.call c with
    | .returns m' => calls rest m'
    | .terminates message => .terminates message
    | .hangs => .hangs

/-! ## Specification -/

/-- The master and the variables as they are constructed: nothing has been added, and every file variable is
    its own and only dependent. -/
structure Constructed (m : MonteCarloMaster) : Prop where
  variableList : m.variableList = []
  fileList : m.fileList = []
  prepared : m.inputFilesPrepared = false
  dependents : ∀ d, (m.vars d).dependents = [d]
  independent : ∀ d, (m.vars d).isDependent = false

/-- A variable in the list that reads its file. -/
def Active (m : MonteCarloMaster) (r : VarId) : Prop := Variable.file r ∈ m.variableList ∧ (m.vars r).isDependent = false

/-- **Every file of a variable in the list** is read by the variable it was first added for, which is still in
    the list and has not become a dependent. -/
def ReadersActive (m : MonteCarloMaster) : Prop :=
  ∀ d r, Variable.file d ∈ m.variableList → m.readerOf (m.vars d).filename = some r → m.Active r

/-- `b` is the reader of the file of `a`, which is another variable. -/
def ReadsFor (m : MonteCarloMaster) (a b : Variable) : Prop :=
  ∃ d r, a = .file d ∧ b = .file r ∧ d ≠ r ∧ m.readerOf (m.vars d).filename = some r ∧ (m.vars r).isDependent = false

/-- A call that does not remove the reader of a file. -/
def KeepsReaders (m : MonteCarloMaster) : Call → Prop
  | .removeVariable name =>
    ∀ f r, m.readerOf f = some r → Variable.file r ∈ m.variableList → (m.vars r).variableName ≠ name
  | _ => True

/-- Calls that do not remove the reader of a file. -/
def ReadersKept : List Call → MonteCarloMaster → Prop
  | [], _ => True
  | c :: rest, m => m.KeepsReaders c ∧ ∀ m', m.call c = .returns m' → ReadersKept rest m'

/-- **The two lists**, whatever has been added and removed. -/
structure Registered (m : MonteCarloMaster) : Prop where
  prepared : m.inputFilesPrepared = false
  /-- No two variables in the list have one name. -/
  distinct : m.variableList.Pairwise fun a b => a.name m.vars ≠ b.name m.vars
  /-- A reader reads its own file. -/
  own : ∀ f r, m.readerOf f = some r → (m.vars r).filename = f
  /-- A file variable in the list is its reader, or a dependent of it. -/
  listed : ∀ d, Variable.file d ∈ m.variableList → ∃ r, m.readerOf (m.vars d).filename = some r ∧
    d ∈ (m.vars r).dependents ∧ (d = r ∨ (m.vars d).isDependent = true)
  /-- Dependents share the file of their reader. -/
  shared : ∀ r, ∀ e ∈ (m.vars r).dependents, (m.vars e).filename = (m.vars r).filename
  /-- Only a variable whose file has a reader becomes a dependent. -/
  entered : ∀ d, (m.vars d).isDependent = true → ∃ r, m.readerOf (m.vars d).filename = some r
  /-- A variable is its own dependent. -/
  self : ∀ d, d ∈ (m.vars d).dependents
  /-- A reader is before its dependents. -/
  before : m.variableList.Pairwise fun a b => ¬ m.ReadsFor a b

end MonteCarloMaster

/-! ## A new dependent -/

theorem pushDependent_eq (vars : Heap) (this new d : VarId) :
    pushDependent vars this new d = { vars d with
      dependents := if d = this then (vars d).dependents ++ [new] else (vars d).dependents
      isDependent := if d = new then true else (vars d).isDependent } := by
  unfold pushDependent
  by_cases hnew : d = new
  · subst hnew
    by_cases hthis : d = this
    · subst hthis
      simp
    · simp [hthis]
  · by_cases hthis : d = this
    · subst hthis
      simp [hnew]
    · simp [hnew, hthis]

@[simp] theorem pushDependent_filename (vars : Heap) (this new d : VarId) :
    (pushDependent vars this new d).filename = (vars d).filename := by rw [pushDependent_eq]

theorem pushDependent_name (vars : Heap) (this new : VarId) (v : Variable) :
    v.name (pushDependent vars this new) = v.name vars := by
  cases v with
  | file id =>
    show (pushDependent vars this new id).variableName = _
    rw [pushDependent_eq]
    rfl
  | other name => rfl

theorem mem_pushDependent {vars : Heap} {this new d e : VarId} :
    e ∈ (pushDependent vars this new d).dependents ↔ e ∈ (vars d).dependents ∨ d = this ∧ e = new := by
  rw [pushDependent_eq]
  by_cases h : d = this
  · simp [h]
  · simp [h]

theorem pushDependent_isDependent {vars : Heap} {this new d : VarId} :
    (pushDependent vars this new d).isDependent = true ↔ d = new ∨ (vars d).isDependent = true := by
  rw [pushDependent_eq]
  by_cases h : d = new
  · simp [h]
  · simp [h]

namespace MonteCarloMaster

/-! ## What a call keeps -/

/-- **Removing** takes away from the list only. -/
theorem Registered.sublist {m : MonteCarloMaster} (h : m.Registered) {left : List Variable}
    (hsub : left.Sublist m.variableList) : Registered { m with variableList := left } :=
  ⟨h.prepared, h.distinct.sublist hsub, h.own, fun d hd => h.listed d (hsub.subset hd), h.shared, h.entered, h.self,
    h.before.sublist hsub⟩

/-- A variable at the end of the list. -/
theorem pairwise_push {R : Variable → Variable → Prop} {l : List Variable} {x : Variable} (h : l.Pairwise R)
    (hx : ∀ a ∈ l, R a x) : (l ++ [x]).Pairwise R := by
  refine List.pairwise_append.mpr ⟨h, List.pairwise_singleton _ _, ?_⟩
  intro a ha b hb
  rw [List.mem_singleton.mp hb]
  exact hx a ha

/-- A variable of another class. -/
theorem Registered.pushOther {m : MonteCarloMaster} (h : m.Registered) {name : String}
    (hnew : ∀ a ∈ m.variableList, a.name m.vars ≠ name) :
    Registered { m with variableList := m.variableList ++ [.other name] } := by
  refine ⟨h.prepared, pairwise_push h.distinct hnew, h.own, ?_, h.shared, h.entered, h.self, pairwise_push h.before ?_⟩
  · intro d hd
    have hd : Variable.file d ∈ m.variableList ++ [.other name] := hd
    rw [List.mem_append, List.mem_singleton] at hd
    exact h.listed d (hd.resolve_right fun heq => by cases heq)
  · rintro a - ⟨d, r, -, hb, -⟩
    cases hb

/-- A further variable of a file. -/
theorem Registered.pushDependent {m : MonteCarloMaster} (h : m.Registered) {id r : VarId}
    (hnew : ∀ a ∈ m.variableList, a.name m.vars ≠ (m.vars id).variableName)
    (hreader : m.readerOf (m.vars id).filename = some r) (messages : List String) :
    Registered { m with
      variableList := m.variableList ++ [.file id]
      vars := MonteGen.pushDependent m.vars r id
      messages := messages } := by
  refine ⟨h.prepared, pairwise_push ?_ ?_, ?_, ?_, ?_, ?_, ?_, pairwise_push ?_ ?_⟩
  · simpa only [pushDependent_name] using h.distinct
  · intro a ha
    simp only [pushDependent_name]
    exact hnew a ha
  · intro f r' hr'
    simp only [pushDependent_filename]
    exact h.own f r' hr'
  · intro d hd
    simp only [pushDependent_filename, mem_pushDependent, pushDependent_isDependent]
    have hd : Variable.file d ∈ m.variableList ++ [.file id] := hd
    rw [List.mem_append, List.mem_singleton] at hd
    rcases hd with hd | hd
    · obtain ⟨r', hr', hmem, hdep⟩ := h.listed d hd
      exact ⟨r', hr', Or.inl hmem, hdep.imp_right Or.inr⟩
    · cases hd
      exact ⟨r, hreader, Or.inr ⟨rfl, rfl⟩, Or.inr (Or.inl rfl)⟩
  · intro r' e he
    simp only [pushDependent_filename]
    rcases mem_pushDependent.mp he with he | ⟨rfl, rfl⟩
    · exact h.shared r' e he
    · exact (h.own _ _ hreader).symm
  · intro d hd
    simp only [pushDependent_filename]
    rcases pushDependent_isDependent.mp hd with rfl | hd
    · exact ⟨r, hreader⟩
    · exact h.entered d hd
  · intro d
    exact mem_pushDependent.mpr (Or.inl (h.self d))
  · refine List.Pairwise.imp ?_ h.before
    rintro a b hnot ⟨d, r', ha, hb, hne, hr', hdep⟩
    refine hnot ⟨d, r', ha, hb, hne, ?_, ?_⟩
    · have hr' : m.readerOf (MonteGen.pushDependent m.vars r id d).filename = some r' := hr'
      rwa [pushDependent_filename] at hr'
    · refine Bool.eq_false_iff.mpr fun htrue => ?_
      rw [pushDependent_isDependent.mpr (Or.inr htrue)] at hdep
      cases hdep
  · rintro a - ⟨d, r', -, hb, -, -, hdep⟩
    cases hb
    rw [pushDependent_isDependent.mpr (Or.inl rfl)] at hdep
    cases hdep

theorem readerOf_append (m : MonteCarloMaster) (filename f : String) (id : VarId) (variableList : List Variable) :
    readerOf { m with
        variableList := variableList
        fileList := m.fileList ++ [(filename, id)] } f =
      (m.readerOf f).or (if f = filename then some id else none) := by
  unfold readerOf
  rw [List.find?_append, Option.map_or, List.find?_singleton]
  by_cases h : f = filename
  · simp [h]
  · simp [h]

/-- The first variable of a file. -/
theorem Registered.pushReader {m : MonteCarloMaster} (h : m.Registered) {id : VarId}
    (hnew : ∀ a ∈ m.variableList, a.name m.vars ≠ (m.vars id).variableName)
    (hnone : m.readerOf (m.vars id).filename = none) :
    Registered { m with
      variableList := m.variableList ++ [.file id]
      fileList := m.fileList ++ [((m.vars id).filename, id)] } := by
  -- who had a reader keeps it
  have hkept : ∀ {f r}, m.readerOf f = some r →
      (m.readerOf f).or (if f = (m.vars id).filename then some id else none) = some r := by
    intro f r hr
    rw [hr]
    rfl
  refine ⟨h.prepared, pairwise_push h.distinct hnew, ?_, ?_, h.shared, ?_, h.self, pairwise_push ?_ ?_⟩
  · intro f r hr
    rw [readerOf_append] at hr
    cases hold : m.readerOf f with
    | some r' =>
      rw [hkept hold] at hr
      cases hr
      exact h.own f _ hold
    | none =>
      rw [hold, Option.none_or] at hr
      by_cases hf : f = (m.vars id).filename
      · rw [if_pos hf] at hr
        cases hr
        exact hf.symm
      · rw [if_neg hf] at hr
        cases hr
  · intro d hd
    have hd : Variable.file d ∈ m.variableList ++ [.file id] := hd
    rw [List.mem_append, List.mem_singleton] at hd
    rcases hd with hd | hd
    · obtain ⟨r, hr, hmem, hdep⟩ := h.listed d hd
      exact ⟨r, by rw [readerOf_append]; exact hkept hr, hmem, hdep⟩
    · cases hd
      exact ⟨id, by rw [readerOf_append, hnone, if_pos rfl]; rfl, h.self id, Or.inl rfl⟩
  · intro d hd
    obtain ⟨r, hr⟩ := h.entered d hd
    exact ⟨r, by rw [readerOf_append]; exact hkept hr⟩
  · refine List.Pairwise.imp_of_mem ?_ h.before
    rintro a b ha - hnot ⟨d, r, rfl, hb, hne, hr, hdep⟩
    obtain ⟨r', hr', -⟩ := h.listed d ha
    rw [readerOf_append, hkept hr'] at hr
    cases hr
    exact hnot ⟨d, _, rfl, hb, hne, hr', hdep⟩
  · rintro a ha ⟨d, r, rfl, hb, hne, hr, hdep⟩
    cases hb
    obtain ⟨r', hr', -⟩ := h.listed d ha
    rw [readerOf_append, hkept hr'] at hr
    cases hr
    -- then the file of the new variable had a reader already
    rw [h.own _ _ hr', hr'] at hnone
    cases hnone

/-- **What adding does**, before the input files are prepared. -/
theorem addVariable_returns {m m' : MonteCarloMaster} {v : Variable} (hprepared : m.inputFilesPrepared = false)
    (h : m.addVariable v = .returns m') :
    (∀ a ∈ m.variableList, a.name m.vars ≠ v.name m.vars) ∧
      ((∃ name, v = .other name ∧ m' = { m with variableList := m.variableList ++ [v] }) ∨
      (∃ id r messages, v = .file id ∧ m.readerOf (m.vars id).filename = some r ∧
        (m.vars id).dependents.length ≤ 1 ∧ m' = { m with
          variableList := m.variableList ++ [v]
          vars := MonteGen.pushDependent m.vars r id
          messages := messages }) ∨
      ∃ id, v = .file id ∧ m.readerOf (m.vars id).filename = none ∧ m' = { m with
        variableList := m.variableList ++ [v]
        fileList := m.fileList ++ [((m.vars id).filename, id)] }) := by
  have hnot : ¬ m.inputFilesPrepared = true := by
    rw [hprepared]
    decide
  unfold addVariable at h
  simp only at h
  rw [if_neg hnot] at h
  by_cases hdup : (m.variableList.any fun var => decide (var.name m.vars = v.name m.vars)) = true
  · rw [if_pos hdup] at h
    cases h
  · rw [if_neg hdup] at h
    refine ⟨?_, ?_⟩
    · intro a ha heq
      exact hdup (List.any_eq_true.mpr ⟨a, ha, decide_eq_true heq⟩)
    · cases v with
      | other name => exact Or.inl ⟨name, rfl, (Outcome.returns.inj h).symm⟩
      | file id =>
        cases hreader : m.readerOf (m.vars id).filename with
        | none =>
          simp only [hreader] at h
          exact Or.inr (Or.inr ⟨id, rfl, hreader, (Outcome.returns.inj h).symm⟩)
        | some r =>
          simp only [hreader] at h
          unfold registerDependent at h
          by_cases hlen : (m.vars id).dependents.length > 1
          · rw [if_pos hlen] at h
            cases h
          · rw [if_neg hlen] at h
            exact Or.inr (Or.inl ⟨id, r, _, rfl, hreader, by omega, (Outcome.returns.inj h).symm⟩)

/-- **One call** keeps the two lists. -/
theorem Registered.call {m m' : MonteCarloMaster} (h : m.Registered) {c : Call} (hcall : m.call c = .returns m') :
    m'.Registered := by
  cases c with
  | addVariable v =>
    obtain ⟨hnew, hcases⟩ := addVariable_returns h.prepared hcall
    rcases hcases with ⟨name, rfl, rfl⟩ | ⟨id, r, messages, rfl, hreader, -, rfl⟩ | ⟨id, rfl, hnone, rfl⟩
    · exact h.pushOther hnew
    · exact h.pushDependent hnew hreader messages
    · exact h.pushReader hnew hnone
  | removeVariable name =>
    obtain rfl := Outcome.returns.inj hcall
    unfold removeVariable
    by_cases hfound : (m.variableList.any fun var => decide (var.name m.vars = name)) = true
    · rw [if_pos hfound]
      exact h.sublist (List.eraseP_sublist ..)
    · rw [if_neg hfound]
      exact ⟨h.prepared, h.distinct, h.own, h.listed, h.shared, h.entered, h.self, h.before⟩
  | setNumRuns numRuns =>
    obtain rfl := Outcome.returns.inj hcall
    unfold setNumRuns
    rw [if_neg (by rw [h.prepared]; decide)]
    exact ⟨h.prepared, h.distinct, h.own, h.listed, h.shared, h.entered, h.self, h.before⟩

theorem Constructed.registered {m : MonteCarloMaster} (h : m.Constructed) : m.Registered := by
  have hnone : ∀ f, m.readerOf f = none := fun f => by
    rw [readerOf, h.fileList]
    rfl
  refine ⟨h.prepared, ?_, ?_, ?_, ?_, ?_, ?_, ?_⟩
  · rw [h.variableList]
    exact List.Pairwise.nil
  · intro f r hr
    rw [hnone] at hr
    cases hr
  · intro d hd
    rw [h.variableList] at hd
    exact (nomatch hd)
  · intro r e he
    rw [h.dependents, List.mem_singleton] at he
    rw [he]
  · intro d hd
    rw [h.independent] at hd
    cases hd
  · intro d
    rw [h.dependents]
    exact List.mem_singleton_self d
  · rw [h.variableList]
    exact List.Pairwise.nil

/-- **Any sequence of calls** keeps the two lists. -/
theorem Registered.calls {m m' : MonteCarloMaster} (h : m.Registered) {cs : List Call}
    (hcalls : calls cs m = .returns m') : m'.Registered := by
  induction cs generalizing m with
  | nil =>
    obtain rfl : m = m' := Outcome.returns.inj hcalls
    exact h
  | cons c rest ih =>
    unfold MonteCarloMaster.calls at hcalls
    cases hcall : m.call c with
    | returns m₁ =>
      rw [hcall] at hcalls
      exact ih (h.call hcall) hcalls
    | terminates message =>
      rw [hcall] at hcalls
      cases hcalls
    | hangs =>
      rw [hcall] at hcalls
      cases hcalls

/-! ## As long as no reader is removed -/

/-- Every file that has been entered is read by a variable in the list. -/
def AllActive (m : MonteCarloMaster) : Prop := ∀ f r, m.readerOf f = some r → m.Active r

theorem AllActive.add {m m' : MonteCarloMaster} (h : m.Registered) (hall : m.AllActive) {v : Variable}
    (hadd : m.addVariable v = .returns m') : m'.AllActive := by
  obtain ⟨hnew, hcases⟩ := addVariable_returns h.prepared hadd
  have hlisted : ∀ {r}, Variable.file r ∈ m.variableList → Variable.file r ∈ m.variableList ++ [v] :=
    fun hr => List.mem_append_left _ hr
  rcases hcases with ⟨name, rfl, rfl⟩ | ⟨id, reader, messages, rfl, hreader, -, rfl⟩ | ⟨id, rfl, hnone, rfl⟩
  · intro f r hr
    obtain ⟨hmem, hdep⟩ := hall f r hr
    exact ⟨hlisted hmem, hdep⟩
  · intro f r hr
    obtain ⟨hmem, hdep⟩ := hall f r hr
    refine ⟨hlisted hmem, Bool.eq_false_iff.mpr fun htrue => ?_⟩
    rcases pushDependent_isDependent.mp htrue with rfl | htrue
    · -- the new variable is not in the list yet
      exact hnew _ hmem rfl
    · rw [htrue] at hdep
      cases hdep
  · intro f r hr
    rw [readerOf_append] at hr
    cases hold : m.readerOf f with
    | some r' =>
      rw [hold] at hr
      cases hr
      obtain ⟨hmem, hdep⟩ := hall f _ hold
      exact ⟨hlisted hmem, hdep⟩
    | none =>
      rw [hold, Option.none_or] at hr
      by_cases hf : f = (m.vars id).filename
      · rw [if_pos hf] at hr
        cases hr
        refine ⟨List.mem_append_right _ (List.mem_singleton_self _), Bool.eq_false_iff.mpr fun htrue => ?_⟩
        obtain ⟨r', hr'⟩ := h.entered _ htrue
        rw [hnone] at hr'
        cases hr'
      · rw [if_neg hf] at hr
        cases hr

theorem AllActive.call {m m' : MonteCarloMaster} (h : m.Registered) (hall : m.AllActive) {c : Call}
    (hkeeps : m.KeepsReaders c) (hcall : m.call c = .returns m') : m'.AllActive := by
  cases c with
  | addVariable v => exact hall.add h hcall
  | removeVariable name =>
    obtain rfl := Outcome.returns.inj hcall
    unfold removeVariable
    by_cases hfound : (m.variableList.any fun var => decide (var.name m.vars = name)) = true
    · rw [if_pos hfound]
      intro f r hr
      obtain ⟨hmem, hdep⟩ := hall f r hr
      have hname : ¬ decide ((Variable.file r).name m.vars = name) = true := fun heq =>
        hkeeps f r hr hmem (of_decide_eq_true heq)
      have hleft : Variable.file r ∈ m.variableList.eraseP fun var => decide (var.name m.vars = name) :=
        (List.mem_eraseP_of_neg (p := fun var : Variable => decide (var.name m.vars = name)) hname).mpr hmem
      exact ⟨hleft, hdep⟩
    · rw [if_neg hfound]
      exact hall
  | setNumRuns numRuns =>
    obtain rfl := Outcome.returns.inj hcall
    unfold setNumRuns
    rw [if_neg (by rw [h.prepared]; decide)]
    exact hall

/-- **As long as no reader is removed**, every file of a variable in the list has its reader. -/
theorem readersActive_calls {m m' : MonteCarloMaster} (h : m.Constructed) {cs : List Call}
    (hkept : ReadersKept cs m) (hcalls : calls cs m = .returns m') : m'.ReadersActive := by
  have hstart : m.AllActive := by
    intro f r hr
    rw [readerOf, h.fileList] at hr
    cases hr
  have hrun : ∀ {m : MonteCarloMaster}, m.Registered → m.AllActive → ReadersKept cs m → calls cs m = .returns m' →
      m'.AllActive := by
    clear hkept hcalls hstart h
    induction cs with
    | nil =>
      intro m _ hall _ hcalls
      obtain rfl : m = m' := Outcome.returns.inj hcalls
      exact hall
    | cons c rest ih =>
      intro m hreg hall hkept hcalls
      unfold MonteCarloMaster.calls at hcalls
      cases hcall : m.call c with
      | returns m₁ =>
        rw [hcall] at hcalls
        exact ih (hreg.call hcall) (hall.call hreg hkept.1 hcall) (hkept.2 m₁ hcall) hcalls
      | terminates message =>
        rw [hcall] at hcalls
        cases hcalls
      | hangs =>
        rw [hcall] at hcalls
        cases hcalls
  intro d r _ hr
  exact hrun h.registered hstart hkept hcalls _ r hr

end MonteCarloMaster

end Trick.MonteGen
