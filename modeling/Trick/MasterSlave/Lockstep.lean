/-
  A slave has the modes of the master, frame for frame.

  Program:        `Exchange`.
  Specification:  after as many frames, a slave is in the mode of the master.
  Result:         `modes_in_lockstep`, where checkpoints are exchanged in freeze, and a slave that does not dump or load
                  by itself is not told to run by such an exchange.  The invariant is that the modes of the slave, with
                  the one that it is about to come to, are those of the master, with the one that its exchange will
                  end in (`InStep`).
-/
import Trick.MasterSlave.Words

namespace Trick.MasterSlave

open Trick.Lib

/-! ## The modes that are to come -/

/-- The mode after the last frame. -/
def lastMode (modes : List Mode) : Mode := modes.getLast?.getD .run

/-- **The mode that an exchange ends in.** -/
def System.outcome (s : System) : Kind → Mode
  | .status => (settle s.mode s.execCommand).1
  | .dump _ | .load _ => s.mode

def Op.outcome (s : System) : Op → Option Mode
  | .done kind => some (s.outcome kind)
  | _ => none

/-- **What the master comes to**, once it has read the slave. -/
def System.modesAhead (s : System) (i : Nat) : List Mode :=
  if .readStatus i ∈ s.todo then [] else s.todo.filterMap (Op.outcome s)

/-- The mode in which a slave ends a frame in which it reads a command. -/
def Slave.next (x : Slave) (command : MsSimCommand) : Mode :=
  if command.checkpoints then (settle x.mode x.execCommand).1 else (settle x.mode command).1

/-- **What a slave comes to**, by the words that come. -/
def Slave.modesAhead (x : Slave) (ahead : List Word) : List Mode :=
  match x.place with
  | .working => []
  | .readTime | .readCommand => (commands ahead).map x.next
  | .readName command => [x.next command]

/-- **A slave in step with the master.** -/
structure InStep (config : Config) (i : Nat) (s : System) : Prop where
  modes : ∀ pending, s.words i = (s.slave i).words ++ pending →
    (s.slave i).modes ++ (s.slave i).modesAhead (pending ++ rest s.execCommand s.timeTics i s.todo) =
      s.modes ++ s.modesAhead i
  slaveMode : (s.slave i).mode = lastMode (s.slave i).modes
  masterMode : s.mode = lastMode s.modes
  /-- In freeze the command of a slave is cleared. -/
  cleared : (s.slave i).mode = .freeze → (s.slave i).place ≠ .working → (s.slave i).execCommand = .noCmd
  /-- A checkpoint is exchanged in freeze. -/
  checkpoint : ∀ kind, .done kind ∈ s.todo → kind = .status ∨
    (s.mode = .freeze ∧ (config.auto kind i = true ∨ s.execCommand ≠ .runCmd))
  /-- The slave has read a command of a checkpoint. -/
  readName : ∀ command, (s.slave i).place = .readName command → command.checkpoints = true

variable {config : Config} {s : System} {kind : Kind} {reads : List Nat} {writes : List Op} {i j tics : Nat}
  {command : MsSimCommand} {x : Slave} {m : MSSharedMem} {sent pending ahead later : List Word}
  {asked : List MsSimCommand}

@[simp] theorem lastMode_append (modes : List Mode) (mode : Mode) : lastMode (modes ++ [mode]) = mode := by
  unfold lastMode
  rw [List.getLast?_append_of_ne_nil _ (List.cons_ne_nil mode [])]
  rfl

theorem instep_start (config : Config) (i : Nat) : InStep config i {} where
  modes := fun _ _ => rfl
  slaveMode := rfl
  masterMode := rfl
  cleared := fun h => by cases h
  checkpoint := fun _ h => absurd h List.not_mem_nil
  readName := fun _ h => by cases h

/-- Between two exchanges the master comes to nothing. -/
theorem modesAhead_of_todo_nil (htodo : s.todo = []) : s.modesAhead i = [] := by
  unfold System.modesAhead
  rw [htodo, if_neg List.not_mem_nil]
  rfl

/-- **What the master comes to**, in an exchange. -/
theorem Config.Remains.modesAhead_eq (h : config.Remains s.todo kind reads writes) :
    s.modesAhead i = if i ∈ reads then [] else [s.outcome kind] := by
  have hmem : Op.readStatus i ∈ s.todo ↔ i ∈ reads := h.readStatus_mem_iff
  unfold System.modesAhead
  by_cases hi : i ∈ reads
  · rw [if_pos hi, if_pos (hmem.mpr hi)]
  · rw [if_neg hi, if_neg (fun hin => hi (hmem.mp hin)), h.eq, List.filterMap_append, List.filterMap_append]
    have hreads : (reads.map Op.readStatus).filterMap (Op.outcome s) = [] := by
      rw [List.filterMap_eq_nil_iff]
      intro op hop
      obtain ⟨k, -, rfl⟩ := List.mem_map.mp hop
      rfl
    have hwrites : writes.filterMap (Op.outcome s) = [] := by
      rw [List.filterMap_eq_nil_iff]
      intro op hop
      have hwrite := h.areWrites op hop
      cases op with
      | done k => cases hwrite
      | _ => rfl
    rw [hreads, hwrites]
    rfl

theorem commands_message (tics : Nat) (command : MsSimCommand) (name : Option Name) :
    commands (message tics command name) = [command] := by
  unfold message
  split <;> rfl

theorem commands_tail_message (tics : Nat) (command : MsSimCommand) (name : Option Name) :
    commands (message tics command name).tail = [command] := by
  unfold message
  split <;> rfl

/-- **The slave comes to what the master comes to.** -/
theorem next_eq (hexec : s.execCommand.checkpoints = false) (hmode : x.mode = s.mode)
    (hcheckpoint : kind = .status ∨ (s.mode = .freeze ∧ (config.auto kind i = true ∨ s.execCommand ≠ .runCmd)))
    (hcleared : x.mode = .freeze → x.execCommand = .noCmd) {word : MsSimCommand}
    (hword : (config.auto kind i = false ∧ word = s.execCommand) ∨
      (config.auto kind i = true ∧ word.checkpoints = true)) :
    x.next word = s.outcome kind := by
  have hplain : x.next s.execCommand = (settle s.mode s.execCommand).1 := by
    unfold Slave.next
    rw [if_neg (by rw [hexec]; exact Bool.false_ne_true), hmode]
  rcases hcheckpoint with rfl | ⟨hfreeze, hcalm⟩
  · -- the command of the master
    rcases hword with ⟨-, rfl⟩ | ⟨hauto, -⟩
    · exact hplain
    · cases hauto
  · have houtcome : s.outcome kind = (settle s.mode s.execCommand).1 ∨ s.outcome kind = .freeze := by
      cases kind with
      | status => exact Or.inl rfl
      | dump name => exact Or.inr hfreeze
      | load name => exact Or.inr hfreeze
    rcases hword with ⟨hauto, rfl⟩ | ⟨hauto, hcheckpoints⟩
    · rcases houtcome with houtcome | houtcome
      · rw [hplain, houtcome]
      · have hrun : s.execCommand ≠ .runCmd := by
          rcases hcalm with hauto' | hrun
          · rw [hauto] at hauto'
            cases hauto'
          · exact hrun
        rw [hplain, houtcome, hfreeze]
        cases hcommand : s.execCommand with
        | runCmd => exact absurd hcommand hrun
        | _ => rfl
    · have houtcome' : s.outcome kind = .freeze := by
        cases kind with
        | status => cases hauto
        | dump name => exact hfreeze
        | load name => exact hfreeze
      unfold Slave.next
      rw [if_pos hcheckpoints, hmode, hfreeze, hcleared (hmode.trans hfreeze), houtcome']
      rfl

theorem modesAhead_working (hplace : x.place = .working) : x.modesAhead ahead = [] := by
  unfold Slave.modesAhead
  rw [hplace]

theorem modesAhead_readTime (hplace : x.place = .readTime) : x.modesAhead ahead = (commands ahead).map x.next := by
  unfold Slave.modesAhead
  rw [hplace]

theorem modesAhead_readCommand (hplace : x.place = .readCommand) :
    x.modesAhead ahead = (commands ahead).map x.next := by
  unfold Slave.modesAhead
  rw [hplace]

theorem modesAhead_readName (hplace : x.place = .readName command) : x.modesAhead ahead = [x.next command] := by
  unfold Slave.modesAhead
  rw [hplace]

/-- A message brings one mode. -/
theorem modesAhead_message (hplace : x.place = .readTime) (tics : Nat) (command : MsSimCommand)
    (name : Option Name) : x.modesAhead (message tics command name) = [x.next command] := by
  rw [modesAhead_readTime hplace, commands_message]
  rfl

/-! ## The steps of the master -/

/-- What reading the command of a slave does. -/
theorem masterStep_readStatus {todo : List Op} (htodo : s.todo = .readStatus j :: todo)
    (hempty : (s.memory j).slaveCommand.isEmpty ≠ true) :
    s.masterStep.slave = s.slave ∧ s.masterStep.words = s.words ∧ s.masterStep.todo = todo ∧
      s.masterStep.mode = s.mode ∧ s.masterStep.modes = s.modes ∧ s.masterStep.timeTics = s.timeTics ∧
      s.masterStep.execCommand = readStatus (s.memory j).slaveCommand.head s.execCommand := by
  simp only [System.masterStep, htodo, if_neg hempty]
  exact ⟨trivial, trivial, trivial, trivial, trivial, trivial, trivial⟩

/-- Reading does not make the master run. -/
theorem readStatus_ne_runCmd {slaveCommand : MsSimCommand} (h : command ≠ .runCmd) :
    readStatus slaveCommand command ≠ .runCmd := by
  cases slaveCommand with
  | freezeCmd => exact fun h => by cases h
  | _ => exact h

/-- **A slave to which nothing is written yet** has come to what the master has come to. -/
theorem InStep.before (h : InStep config i s) (hinv : Inv config s)
    (hremains : config.Remains s.todo kind (j :: reads) writes) (hi : i < config.numSlaves) (hin : i ∉ reads)
    (hempty : (s.memory j).slaveCommand.isEmpty ≠ true) :
    (s.slave i).words = s.words i ∧ (s.slave i).place = .readTime ∧ (s.slave i).modes = s.modes := by
  obtain ⟨pending, asked, hlink⟩ := hinv.links i
  have hmodes := h.modes pending hlink.sent
  have hsent := hlink.sent
  by_cases hij : i = j
  · subst hij
    obtain ⟨hplace, -, hpending, hlater⟩ := hlink.asked_of_not_isEmpty (Bool.not_eq_true _ ▸ hempty)
    rw [hremains.modesAhead_eq, if_pos List.mem_cons_self, hpending, hlater, modesAhead_readTime hplace] at hmodes
    rw [hpending, List.append_nil] at hsent
    exact ⟨hsent.symm, hplace, List.append_cancel_right hmodes⟩
  · have hnot : i ∉ j :: reads := by
      rintro (_ | ⟨_, hmem⟩)
      · exact hij rfl
      · exact hin hmem
    obtain ⟨word, name, hmessage, -⟩ :=
      filterMap_writes config kind i hinv.execCommand s.timeTics
    rw [hremains.rest_eq, if_neg hnot, hremains.filterMap_whole (List.cons_ne_nil j reads), if_pos hi,
      hmessage] at hlink hmodes
    obtain ⟨-, hplace, hpending⟩ := hlink.waits
    rw [hremains.modesAhead_eq, if_neg hnot, hpending, List.nil_append, modesAhead_message hplace] at hmodes
    rw [hpending, List.append_nil] at hsent
    exact ⟨hsent.symm, hplace, (List.append_inj' hmodes rfl).1⟩

/-- **The master reads the command of a slave.** -/
theorem InStep.readStatus (h : InStep config i s) (hinv : Inv config s)
    (hremains : config.Remains s.todo kind (j :: reads) writes) {todo : List Op}
    (htodo : s.todo = .readStatus j :: todo) (hi : i < config.numSlaves) : InStep config i s.masterStep := by
  by_cases hempty : (s.memory j).slaveCommand.isEmpty = true
  · simp only [System.masterStep, htodo, if_pos hempty]
    exact h
  · obtain ⟨hslave, hwords, htodo', hmode, hmodes, htics, hexec⟩ := masterStep_readStatus htodo hempty
    have hremains' : config.Remains s.masterStep.todo kind reads writes := by
      rw [htodo']
      exact hremains.tail_read htodo
    have hcheckpoints : s.masterStep.execCommand.checkpoints = false := by
      rw [hexec]
      exact checkpoints_readStatus _ hinv.execCommand
    have hcheckpoint : ∀ k, .done k ∈ s.todo → k = .status ∨
        (s.masterStep.mode = .freeze ∧ (config.auto k i = true ∨ s.masterStep.execCommand ≠ .runCmd)) := by
      intro k hk
      rw [hmode, hexec]
      rcases h.checkpoint k hk with rfl | ⟨hfreeze, hauto | hrun⟩
      · exact Or.inl rfl
      · exact Or.inr ⟨hfreeze, Or.inl hauto⟩
      · exact Or.inr ⟨hfreeze, Or.inr (readStatus_ne_runCmd hrun)⟩
    refine ⟨?_, ?_, ?_, ?_, ?_, ?_⟩
    · rw [hslave, hwords, hmodes, htics, hremains'.rest_eq, hremains'.modesAhead_eq]
      intro pending hsent
      by_cases hin : i ∈ reads
      · have hold := h.modes pending hsent
        rw [hremains.rest_eq, hremains.modesAhead_eq, if_pos (List.mem_cons_of_mem j hin),
          if_pos (List.mem_cons_of_mem j hin)] at hold
        rw [if_pos hin, if_pos hin]
        exact hold
      · obtain ⟨hread, hplace, hsame⟩ := h.before hinv hremains hi hin hempty
        have hpending : pending = [] := by
          rw [hread] at hsent
          exact List.append_right_eq_self.mp hsent.symm
        have hequal : (s.slave i).mode = s.masterStep.mode := by
          rw [hmode, h.slaveMode, h.masterMode, hsame]
        have hcleared : (s.slave i).mode = .freeze → (s.slave i).execCommand = .noCmd := by
          intro hfreeze
          exact h.cleared hfreeze (by rw [hplace]; exact fun h => by cases h)
        have hkind : .done kind ∈ s.todo := by
          rw [hremains.eq]
          exact List.mem_append_right _ List.mem_cons_self
        obtain ⟨word, name, hmessage, hword⟩ :=
          filterMap_writes config kind i hcheckpoints s.timeTics
        have hnext := next_eq hcheckpoints hequal (hcheckpoint kind hkind) hcleared hword
        rw [if_neg hin, if_neg hin, hremains.filterMap_whole (List.cons_ne_nil j reads), if_pos hi, hmessage, hpending,
          List.nil_append, modesAhead_message hplace, hsame, hnext]
    · rw [hslave]
      exact h.slaveMode
    · rw [hmode, hmodes]
      exact h.masterMode
    · rw [hslave]
      exact h.cleared
    · intro k hk
      rw [htodo'] at hk
      exact hcheckpoint k (by rw [htodo]; exact List.mem_cons_of_mem _ hk)
    · rw [hslave]
      exact h.readName

/-- **The master writes.** -/
theorem InStep.write (h : InStep config i s) (hinv : Inv config s) {op : Op}
    (hremains : config.Remains s.todo kind [] (op :: writes)) {todo : List Op} (htodo : s.todo = op :: todo) :
    InStep config i s.masterStep := by
  have hremains' := hremains.tail_write htodo
  have hop := hremains.areWrites op List.mem_cons_self
  obtain ⟨⟨word, hword⟩, hothers⟩ := word_target s.execCommand s.timeTics hop
  have hstep := masterStep_write htodo hop hword
  obtain ⟨pending, asked, hlink⟩ := hinv.links i
  have hold := h.modes pending hlink.sent
  rw [hremains.rest_eq, hremains.modesAhead_eq, if_neg List.not_mem_nil, if_neg List.not_mem_nil] at hold
  have hnew : config.Remains s.masterStep.todo kind [] writes := by
    rw [hstep]
    exact hremains'
  have hmodes : ∀ pending', s.masterStep.words i = (s.slave i).words ++ pending' →
      (s.slave i).modes ++ (s.slave i).modesAhead (pending' ++ writes.filterMap (Op.word s.execCommand s.timeTics i)) =
        s.modes ++ [s.outcome kind] := by
    intro pending' hsent
    rw [hstep] at hsent
    have hwords : Function.update s.words op.target (s.words op.target ++ [word]) i = (s.slave i).words ++ pending' :=
      hsent
    by_cases hi : i = op.target
    · subst hi
      rw [Function.update_self, hlink.sent, List.append_assoc] at hwords
      rw [← List.append_cancel_left hwords, List.append_assoc]
      rw [List.filterMap_cons_some hword] at hold
      exact hold
    · rw [Function.update_of_ne hi, hlink.sent] at hwords
      rw [← List.append_cancel_left hwords]
      rw [List.filterMap_cons_none (hothers i hi)] at hold
      exact hold
  refine ⟨?_, ?_, ?_, ?_, ?_, ?_⟩
  · rw [hnew.rest_eq, hnew.modesAhead_eq, if_neg List.not_mem_nil, if_neg List.not_mem_nil]
    rw [hstep] at hmodes ⊢
    exact hmodes
  all_goals rw [hstep]
  · exact h.slaveMode
  · exact h.masterMode
  · exact h.cleared
  · intro k hk
    exact h.checkpoint k (by rw [htodo]; exact List.mem_cons_of_mem _ hk)
  · exact h.readName

/-- **The exchange ends.** -/
theorem InStep.done (h : InStep config i s) (htodo : s.todo = [.done kind]) : InStep config i s.masterStep := by
  have hahead : s.modesAhead i = [s.outcome kind] := by
    unfold System.modesAhead
    rw [htodo, if_neg (by simp)]
    rfl
  have hrest : rest s.execCommand s.timeTics i s.todo = [] := by
    unfold rest
    rw [htodo, if_neg (by simp)]
    rfl
  have hmodes := h.modes
  rw [hahead, hrest] at hmodes
  have hstep : s.masterStep = { s.finish kind with todo := [] } := by simp only [System.masterStep, htodo]
  have hsame : (s.finish kind).slave = s.slave ∧ (s.finish kind).words = s.words ∧
      (s.finish kind).modes = s.modes ++ [s.outcome kind] ∧ (s.finish kind).mode = s.outcome kind := by
    cases kind <;> exact ⟨rfl, rfl, rfl, rfl⟩
  obtain ⟨hslave, hwords, hfinish, hmode⟩ := hsame
  have hnil : System.modesAhead { s.finish kind with todo := [] } i = [] := modesAhead_of_todo_nil rfl
  rw [hstep]
  refine ⟨?_, ?_, ?_, ?_, ?_, ?_⟩
  · rw [hnil, rest_nil]
    show ∀ pending, (s.finish kind).words i = ((s.finish kind).slave i).words ++ pending →
      ((s.finish kind).slave i).modes ++ ((s.finish kind).slave i).modesAhead (pending ++ []) =
        (s.finish kind).modes ++ []
    rw [hslave, hwords, hfinish, List.append_nil]
    exact hmodes
  · show ((s.finish kind).slave i).mode = lastMode ((s.finish kind).slave i).modes
    rw [hslave]
    exact h.slaveMode
  · show (s.finish kind).mode = lastMode (s.finish kind).modes
    rw [hfinish, hmode, lastMode_append]
  · show ((s.finish kind).slave i).mode = .freeze → ((s.finish kind).slave i).place ≠ .working →
      ((s.finish kind).slave i).execCommand = .noCmd
    rw [hslave]
    exact h.cleared
  · exact fun k hk => absurd hk List.not_mem_nil
  · show ∀ command, ((s.finish kind).slave i).place = .readName command → command.checkpoints = true
    rw [hslave]
    exact h.readName

/-- **A step of the master.** -/
theorem InStep.masterStep (h : InStep config i s) (hinv : Inv config s) (hi : i < config.numSlaves) :
    InStep config i s.masterStep := by
  rcases hinv.todo with htodo | ⟨kind, reads, writes, hremains⟩
  · simp only [System.masterStep, htodo]
    exact h
  · have heq := hremains.eq
    cases reads with
    | cons j reads => exact h.readStatus hinv hremains heq hi
    | nil =>
      cases writes with
      | cons op writes => exact h.write hinv hremains heq
      | nil => exact h.done heq

/-! ## The steps of the slaves -/

/-- **Another slave changes.** -/
theorem InStep.setSlave_other (h : InStep config i s) (hj : i ≠ j) : InStep config i (s.setSlave j x m) := by
  have hslave : (s.setSlave j x m).slave i = s.slave i := by
    show Function.update s.slave j x i = s.slave i
    rw [Function.update_of_ne hj]
  refine ⟨?_, ?_, h.masterMode, ?_, h.checkpoint, ?_⟩
  all_goals rw [hslave]
  · exact h.modes
  · exact h.slaveMode
  · exact h.cleared
  · exact h.readName

/-- **The slave changes.** -/
theorem InStep.setSlave (h : InStep config i s)
    (hmodes : ∀ pending, s.words i = x.words ++ pending →
      x.modes ++ x.modesAhead (pending ++ rest s.execCommand s.timeTics i s.todo) = s.modes ++ s.modesAhead i)
    (hmode : x.mode = lastMode x.modes)
    (hcleared : x.mode = .freeze → x.place ≠ .working → x.execCommand = .noCmd)
    (hreadName : ∀ command, x.place = .readName command → command.checkpoints = true) :
    InStep config i (s.setSlave i x m) := by
  have hslave : (s.setSlave i x m).slave i = x := by
    show Function.update s.slave i x i = x
    rw [Function.update_self]
  refine ⟨?_, ?_, h.masterMode, ?_, h.checkpoint, ?_⟩
  all_goals rw [hslave]
  · exact hmodes
  · exact hmode
  · exact hcleared
  · exact hreadName

/-- The end of a frame. -/
theorem finish_modes (x : Slave) (hplace : x.finish.place = .working := rfl) :
    x.finish.mode = lastMode x.finish.modes ∧ (∀ ahead, x.finish.modesAhead ahead = []) := by
  refine ⟨?_, fun ahead => modesAhead_working hplace⟩
  show _ = lastMode (x.modes ++ [_])
  rw [lastMode_append]
  rfl

/-- **A step of a slave.** -/
theorem InStep.slaveStep (h : InStep config i s) (hinv : Inv config s) (j : Nat) :
    InStep config i (s.slaveStep j) := by
  by_cases hij : i = j
  · subst hij
    obtain ⟨pending, asked, hlink⟩ := hinv.links i
    have hold := h.modes pending hlink.sent
    cases hplace : (s.slave i).place with
    | working =>
      simp only [System.slaveStep, hplace]
      have hexpects := hlink.expects
      rw [hplace] at hexpects
      rw [modesAhead_working hplace] at hold
      refine h.setSlave ?_ h.slaveMode ?_ (fun command hname => by cases hname)
      · intro pending' hsent
        rw [modesAhead_readTime rfl, ← List.append_cancel_left (hlink.sent.symm.trans hsent), hexpects.2]
        exact hold
      · intro hfreeze _
        exact if_pos hfreeze
    | readTime =>
      simp only [System.slaveStep, hplace]
      by_cases hempty : (s.memory i).masterTime.isEmpty = true
      · rw [if_pos hempty]
        exact h
      · rw [if_neg hempty]
        obtain ⟨pending', hpending, hlink'⟩ := hlink.readsTime hplace (Bool.not_eq_true _ ▸ hempty)
        rw [hpending, modesAhead_readTime hplace] at hold
        refine h.setSlave ?_ h.slaveMode ?_ (fun command hname => by cases hname)
        · intro pending'' hsent
          rw [modesAhead_readCommand rfl, ← List.append_cancel_left (hlink'.sent.symm.trans hsent)]
          exact hold
        · intro hfreeze _
          exact h.cleared hfreeze (by rw [hplace]; exact fun h => by cases h)
    | readCommand =>
      simp only [System.slaveStep, hplace]
      have hcleared : (s.slave i).mode = .freeze → (s.slave i).execCommand = .noCmd :=
        fun hfreeze => h.cleared hfreeze (by rw [hplace]; exact fun h => by cases h)
      by_cases hempty : (s.memory i).masterCommand.isEmpty = true
      · rw [if_pos hempty]
        exact h
      · rw [if_neg hempty]
        generalize hcommand : (s.memory i).masterCommand.head = command
        have hone : ∀ pending', pending = .command command :: pending' →
            (s.slave i).modesAhead (pending ++ rest s.execCommand s.timeTics i s.todo) =
              [(s.slave i).next command] := by
          intro pending' hpending
          have hexpects := hlink.expects
          rw [hplace] at hexpects
          obtain ⟨-, word, name, hahead⟩ := hexpects
          rw [modesAhead_readCommand hplace, hahead, commands_tail_message]
          have hfirst : (message 0 word name).tail.head? = some (.command word) := by
            unfold message
            split <;> rfl
          rw [← hahead, hpending] at hfirst
          cases hfirst
          rfl
        by_cases hcheckpoints : command.checkpoints = true
        · rw [if_pos hcheckpoints]
          obtain ⟨pending', hpending, hlink'⟩ := hlink.readsCommand hplace (Bool.not_eq_true _ ▸ hempty)
            { s.slave i with
              place := .readName (s.memory i).masterCommand.head,
              words := (s.slave i).words ++ [.command (s.memory i).masterCommand.head] }
            rfl (by rw [hcommand, if_pos hcheckpoints])
          rw [hcommand] at hpending
          rw [hone pending' hpending] at hold
          refine h.setSlave ?_ h.slaveMode (fun hfreeze _ => hcleared hfreeze) ?_
          · intro pending'' _
            rw [modesAhead_readName rfl]
            exact hold
          · intro command' hname
            cases hname
            exact hcheckpoints
        · rw [if_neg hcheckpoints]
          obtain ⟨pending', hpending, -⟩ := hlink.readsCommand hplace (Bool.not_eq_true _ ▸ hempty)
            (({ s.slave i with
              words := (s.slave i).words ++ [.command (s.memory i).masterCommand.head],
              execCommand := (s.memory i).masterCommand.head } : Slave).finish)
            rfl (by rw [hcommand, if_neg hcheckpoints]; rfl)
          rw [hcommand] at hpending
          rw [hone pending' hpending] at hold
          have hnext : (s.slave i).next command = (settle (s.slave i).mode command).1 := if_neg hcheckpoints
          rw [hnext] at hold
          refine h.setSlave ?_ (finish_modes _).1 (fun _ hne => absurd rfl hne) (fun command' hname => by cases hname)
          intro pending'' _
          rw [(finish_modes _).2, List.append_nil]
          exact hold
    | readName command =>
      simp only [System.slaveStep, hplace]
      cases hname : (s.memory i).chkpntName with
      | none => exact h
      | some name =>
        rw [modesAhead_readName hplace] at hold
        have hnext : (s.slave i).next command = (settle (s.slave i).mode (s.slave i).execCommand).1 :=
          if_pos (h.readName command hplace)
        rw [hnext] at hold
        refine h.setSlave ?_ (finish_modes _).1 (fun _ hne => absurd rfl hne) (fun command' hname => by cases hname)
        intro pending'' _
        rw [(finish_modes _).2, List.append_nil]
        exact hold
  · rcases slaveStep_cases s j with hother | ⟨x, m, hother⟩
    · rw [hother]
      exact h
    · rw [hother]
      exact h.setSlave_other hij

/-! ## Runs -/

/-- **A checkpoint is exchanged in freeze**, and a slave that does not take part in it is not told to run meanwhile. -/
def Config.Calm (config : Config) (i : Nat) (s : System) : Action → Prop
  | .begins kind _ => kind = .status ∨ (s.mode = .freeze ∧ (config.auto kind i = true ∨ s.execCommand ≠ .runCmd))
  | _ => True

/-- **Every step.** -/
theorem InStep.step (h : InStep config i s) (hinv : Inv config s) (hi : i < config.numSlaves) {action : Action}
    (hcalm : config.Calm i s action) : InStep config i (s.step config action) := by
  cases action with
  | request request =>
    simp only [System.step]
    by_cases htodo : s.todo = []
    · rw [if_pos htodo]
      refine ⟨?_, h.slaveMode, h.masterMode, h.cleared, ?_, h.readName⟩
      · have hmodes := h.modes
        rw [modesAhead_of_todo_nil htodo, htodo, rest_nil] at hmodes
        show ∀ pending, s.words i = (s.slave i).words ++ pending →
          (s.slave i).modes ++ (s.slave i).modesAhead (pending ++ rest request.command s.timeTics i s.todo) =
            s.modes ++ System.modesAhead { s with execCommand := request.command } i
        rw [modesAhead_of_todo_nil (s := { s with execCommand := request.command }) htodo, htodo, rest_nil]
        exact hmodes
      · intro k hk
        have hk' : .done k ∈ s.todo := hk
        rw [htodo] at hk'
        exact absurd hk' List.not_mem_nil
    · rw [if_neg htodo]
      exact h
  | slaveRequest j request =>
    simp only [System.step]
    by_cases hplace : (s.slave j).place = .working
    · rw [if_pos hplace]
      by_cases hij : i = j
      · subst hij
        have hmodes := h.modes
        refine h.setSlave ?_ h.slaveMode (fun _ hne => absurd hplace hne) h.readName
        intro pending hsent
        have hold := hmodes pending hsent
        rw [modesAhead_working hplace] at hold
        rw [modesAhead_working (x := { s.slave i with execCommand := request.command }) hplace]
        exact hold
      · exact h.setSlave_other hij
    · rw [if_neg hplace]
      exact h
  | begins kind timeTics =>
    simp only [System.step]
    by_cases htodo : s.todo = []
    · rw [if_pos htodo]
      have hremains := config.remains_exchange kind
      refine ⟨?_, h.slaveMode, h.masterMode, h.cleared, ?_, h.readName⟩
      · have hmodes := h.modes
        rw [modesAhead_of_todo_nil htodo, htodo, rest_nil] at hmodes
        show ∀ pending, s.words i = (s.slave i).words ++ pending →
          (s.slave i).modes ++ (s.slave i).modesAhead
              (pending ++ rest s.execCommand timeTics i (config.exchange kind)) =
            s.modes ++ System.modesAhead { s with timeTics := timeTics, todo := config.exchange kind } i
        rw [Config.Remains.modesAhead_eq (s := { s with timeTics := timeTics, todo := config.exchange kind }) hremains,
          if_pos (List.mem_range.mpr hi), config.rest_exchange]
        exact hmodes
      · intro k hk
        have hk' : Op.done k ∈ config.exchange kind := hk
        rw [hremains.done_mem hk']
        exact hcalm
    · rw [if_neg htodo]
      exact h
  | master => exact h.masterStep hinv hi
  | slave j =>
    simp only [System.step]
    by_cases hj : j < config.numSlaves
    · rw [if_pos hj]
      exact h.slaveStep hinv j
    · rw [if_neg hj]
      exact h

/-- **Every run.** -/
theorem InStep.run (hi : i < config.numSlaves) : ∀ (actions : List Action) {s : System}, InStep config i s →
    Inv config s → Guarded (config.Calm i) (System.step config) s actions →
    InStep config i (Lib.run (System.step config) s actions)
  | [], _, h, _, _ => h
  | action :: actions, _, h, hinv, hcalm =>
    InStep.run hi actions (h.step hinv hi hcalm.1) (hinv.step action) hcalm.2

/-- A slave comes to one mode at most. -/
theorem LinkOk.length_modesAhead (h : LinkOk x m sent pending asked later) :
    (x.modesAhead (pending ++ later)).length ≤ 1 := by
  have hexpects := h.expects
  cases hplace : x.place with
  | working =>
    rw [modesAhead_working hplace]
    exact Nat.zero_le 1
  | readTime =>
    rw [hplace] at hexpects
    rw [modesAhead_readTime hplace]
    rcases hexpects with ⟨-, hahead⟩ | ⟨-, tics, command, name, hahead⟩
    · rw [hahead]
      exact Nat.zero_le 1
    · rw [hahead, commands_message]
      exact Nat.le_refl 1
  | readCommand =>
    rw [hplace] at hexpects
    obtain ⟨-, command, name, hahead⟩ := hexpects
    rw [modesAhead_readCommand hplace, hahead, commands_tail_message]
    exact Nat.le_refl 1
  | readName command =>
    rw [modesAhead_readName hplace]
    exact Nat.le_refl 1

/-- The master comes to one mode at most. -/
theorem Inv.length_modesAhead (h : Inv config s) (i : Nat) : (s.modesAhead i).length ≤ 1 := by
  rcases h.todo with htodo | ⟨kind, reads, writes, hremains⟩
  · rw [modesAhead_of_todo_nil htodo]
    exact Nat.zero_le 1
  · rw [hremains.modesAhead_eq]
    split
    · exact Nat.zero_le 1
    · exact Nat.le_refl 1

/-- **The simulations go through the same modes**, whatever is asked of them and in whatever order they take their
    steps, as long as checkpoints are exchanged in freeze: neither gets more than a frame ahead of the other, they agree
    on the frames that both have ended, and between two exchanges they are in the same mode. -/
theorem modes_in_lockstep (config : Config) (i : Nat) (hi : i < config.numSlaves) (actions : List Action)
    (hcalm : Guarded (config.Calm i) (System.step config) {} actions) :
    let s := Lib.run (System.step config) {} actions
    ((s.slave i).modes <+: s.modes ∨ s.modes <+: (s.slave i).modes) ∧
      (s.slave i).modes.length ≤ s.modes.length + 1 ∧ s.modes.length ≤ (s.slave i).modes.length + 1 ∧
      (s.todo = [] → (s.slave i).place = .working → (s.slave i).modes = s.modes ∧ (s.slave i).mode = s.mode) := by
  intro s
  have hinv : Inv config s := Inv.run actions (inv_start config)
  have hstep : InStep config i s := InStep.run hi actions (instep_start config i) (inv_start config) hcalm
  obtain ⟨pending, asked, hlink⟩ := hinv.links i
  have hmodes := hstep.modes pending hlink.sent
  have hslave := hlink.length_modesAhead
  have hmaster := hinv.length_modesAhead i
  have hlength := congrArg List.length hmodes
  rw [List.length_append, List.length_append] at hlength
  refine ⟨?_, by omega, by omega, ?_⟩
  · have hleft : (s.slave i).modes <+: s.modes ++ s.modesAhead i := by
      rw [← hmodes]
      exact List.prefix_append _ _
    exact List.prefix_or_prefix_of_prefix hleft (List.prefix_append _ _)
  · intro htodo hplace
    rw [modesAhead_working hplace, modesAhead_of_todo_nil htodo, List.append_nil, List.append_nil] at hmodes
    refine ⟨hmodes, ?_⟩
    rw [hstep.slaveMode, hstep.masterMode, hmodes]

instance (config : Config) (i : Nat) (s : System) : ∀ action, Decidable (config.Calm i s action)
  | .begins kind _ =>
    inferInstanceAs (Decidable (kind = .status ∨
      (s.mode = .freeze ∧ (config.auto kind i = true ∨ s.execCommand ≠ .runCmd))))
  | .request _ => isTrue trivial
  | .slaveRequest _ _ => isTrue trivial
  | .master => isTrue trivial
  | .slave _ => isTrue trivial

/-- A frame, in which the slaves begin before the master has read them, and end after the master. -/
def frameOf (kind : Kind) (timeTics : Nat) : List Action :=
  [.begins kind timeTics, .slave 0, .slave 1] ++ List.replicate 10 .master ++
    [.slave 0, .slave 0, .slave 0, .slave 1, .slave 1]

/-- A slave is asked to freeze; then a checkpoint is dumped by one slave; then the master is asked to run. -/
def freezeAndDump : List Action :=
  .slaveRequest 0 .freeze :: frameOf .status 10 ++ frameOf (.dump ['/', 'c']) 10 ++ .request .run :: frameOf .status 20

theorem modes_in_lockstep_freezeAndDump :
    let config : Config := ⟨2, fun i => decide (i = 0), fun _ => false⟩
    let s := Lib.run (System.step config) {} freezeAndDump
    ((s.slave 0).modes <+: s.modes ∨ s.modes <+: (s.slave 0).modes) ∧
      (s.slave 0).modes.length ≤ s.modes.length + 1 ∧ s.modes.length ≤ (s.slave 0).modes.length + 1 ∧
      (s.todo = [] → (s.slave 0).place = .working → (s.slave 0).modes = s.modes ∧ (s.slave 0).mode = s.mode) :=
  modes_in_lockstep ⟨2, fun i => decide (i = 0), fun _ => false⟩ 0 (by decide) freezeAndDump (by decide +kernel)

end Trick.MasterSlave
