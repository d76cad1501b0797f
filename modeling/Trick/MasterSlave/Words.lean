/-
  What the master writes is what a slave reads.

  Program:        `Exchange`.
  Specification:  a slave reads the words that the master has written, each as what it is, in their order.
  Result:         `words_in_order`, for every order of the steps and all requests and checkpoints; at each moment the
                  words on their way are those that the slave can count on (`Place.Expects`, `LinkOk`).
-/
import Trick.MasterSlave.Exchange

namespace Trick.MasterSlave

open Trick.Lib

/-! ## The words on their way -/

/-- A status, with the name of a checkpoint. -/
def message (tics : Nat) (command : MsSimCommand) (name : Option Name) : List Word :=
  if command.checkpoints then [.time tics, .command command, .name name] else [.time tics, .command command]

def times (words : List Word) : List Nat :=
  words.filterMap fun
    | .time tics => some tics
    | _ => none

def commands (words : List Word) : List MsSimCommand :=
  words.filterMap fun
    | .command command => some command
    | _ => none

def names (words : List Word) : List (Option Name) :=
  words.filterMap fun
    | .name name => some name
    | _ => none

/-- The word that the master writes to a slave. -/
def Op.word (execCommand : MsSimCommand) (tics i : Nat) : Op → Option Word
  | .writeTime j => if j = i then some (.time tics) else none
  | .writeCommand j command => if j = i then some (.command (command.getD execCommand)) else none
  | .writeName j name => if j = i then some (.name (chkpntName name)) else none
  | .readStatus _ | .done _ => none

/-- **What the master still writes to a slave** that it has read. -/
def rest (execCommand : MsSimCommand) (tics i : Nat) (todo : List Op) : List Word :=
  if .readStatus i ∈ todo then [] else todo.filterMap (Op.word execCommand tics i)

/-- **What a slave can count on**, by the command that it has written and the words that will come. -/
def Place.Expects (place : Place) (asked : List MsSimCommand) (ahead : List Word) : Prop :=
  match place with
  | .working => asked = [] ∧ ahead = []
  | .readTime =>
    ((∃ command, asked = [command]) ∧ ahead = []) ∨
      (asked = [] ∧ ∃ tics command name, ahead = message tics command name)
  | .readCommand => asked = [] ∧ ∃ command name, ahead = (message 0 command name).tail
  | .readName _ => asked = [] ∧ ∃ name, ahead = [.name name]

/-- **A slave and its memory**: the queues hold what has been written and not been read. -/
structure LinkOk (x : Slave) (m : MSSharedMem) (sent pending : List Word) (asked : List MsSimCommand)
    (rest : List Word) : Prop where
  masterTime : m.masterTime.Represents msqMaxsize (times pending)
  masterCommand : m.masterCommand.Represents msqMaxsize (commands pending)
  chkpntName : m.chkpntName = (names pending).head?.join
  slaveCommand : m.slaveCommand.Represents msqMaxsize asked
  sent : sent = x.words ++ pending
  expects : x.place.Expects asked (pending ++ rest)

variable {x : Slave} {m : MSSharedMem} {sent pending ahead : List Word} {asked : List MsSimCommand} {word : Word}
  {later : List Word}

theorem length_message (tics : Nat) (command : MsSimCommand) (name : Option Name) :
    (message tics command name).length ≤ 3 := by
  unfold message
  split <;> simp

/-- There are not many words on their way. -/
theorem Place.Expects.length_le {place : Place} (h : place.Expects asked ahead) : ahead.length ≤ 3 := by
  cases place with
  | working =>
    rw [h.2]
    exact Nat.zero_le 3
  | readTime =>
    rcases h with ⟨-, hahead⟩ | ⟨-, tics, command, name, hahead⟩
    · rw [hahead]
      exact Nat.zero_le 3
    · rw [hahead]
      exact length_message tics command name
  | readCommand =>
    obtain ⟨-, command, name, hahead⟩ := h
    have hlength := length_message 0 command name
    rw [hahead, List.length_tail]
    omega
  | readName command =>
    obtain ⟨-, name, hahead⟩ := h
    rw [hahead]
    exact Nat.le_add_left 1 2

@[simp] theorem times_append (l k : List Word) : times (l ++ k) = times l ++ times k := List.filterMap_append

@[simp] theorem commands_append (l k : List Word) : commands (l ++ k) = commands l ++ commands k :=
  List.filterMap_append

@[simp] theorem names_append (l k : List Word) : names (l ++ k) = names l ++ names k := List.filterMap_append

theorem length_times_le (l : List Word) : (times l).length ≤ l.length := List.length_filterMap_le _ _

theorem length_commands_le (l : List Word) : (commands l).length ≤ l.length := List.length_filterMap_le _ _

/-- There is one name at most. -/
theorem Place.Expects.names_le {place : Place} (h : place.Expects asked ahead) : (names ahead).length ≤ 1 := by
  have hmessage : ∀ tics command name, (names (message tics command name)).length ≤ 1 ∧
      (names (message tics command name).tail).length ≤ 1 := by
    intro tics command name
    unfold message
    split
    · exact ⟨Nat.le_refl 1, Nat.le_refl 1⟩
    · exact ⟨Nat.zero_le 1, Nat.zero_le 1⟩
  cases place with
  | working =>
    rw [h.2]
    exact Nat.zero_le 1
  | readTime =>
    rcases h with ⟨-, hahead⟩ | ⟨-, tics, command, name, hahead⟩
    · rw [hahead]
      exact Nat.zero_le 1
    · rw [hahead]
      exact (hmessage tics command name).1
  | readCommand =>
    obtain ⟨-, command, name, hahead⟩ := h
    rw [hahead]
    exact (hmessage 0 command name).2
  | readName command =>
    obtain ⟨-, name, hahead⟩ := h
    rw [hahead]
    exact Nat.le_refl 1

/-! ## The master and one slave -/

/-- What `write_time`, `write_command` and `write_name` make of the memory. -/
def MSSharedMem.write (m : MSSharedMem) : Word → MSSharedMem
  | .time tics => { m with masterTime := m.masterTime.push msqMaxsize tics }
  | .command command => { m with masterCommand := m.masterCommand.push msqMaxsize command }
  | .name name => { m with chkpntName := name }

/-- **The master writes a word.** -/
theorem LinkOk.write (h : LinkOk x m sent pending asked (word :: later)) :
    LinkOk x (m.write word) (sent ++ [word]) (pending ++ [word]) asked later := by
  have hexpects := h.expects
  have hlength := hexpects.length_le
  rw [List.length_append, List.length_cons] at hlength
  have hsent : sent ++ [word] = x.words ++ (pending ++ [word]) := by rw [h.sent, List.append_assoc]
  have hexpects' : x.place.Expects asked ((pending ++ [word]) ++ later) := by
    rw [List.append_assoc]
    exact hexpects
  cases word with
  | time tics =>
    have hroom : (times pending).length + 1 < msqMaxsize := by
      have hle := length_times_le pending
      unfold msqMaxsize
      omega
    exact {
      masterTime := by
        rw [times_append]
        exact h.masterTime.push hroom tics
      masterCommand := by
        rw [commands_append]
        show m.masterCommand.Represents msqMaxsize (commands pending ++ [])
        rw [List.append_nil]
        exact h.masterCommand
      chkpntName := by
        rw [names_append]
        show m.chkpntName = (names pending ++ []).head?.join
        rw [List.append_nil]
        exact h.chkpntName
      slaveCommand := h.slaveCommand
      sent := hsent
      expects := hexpects' }
  | command command =>
    have hroom : (commands pending).length + 1 < msqMaxsize := by
      have hle := length_commands_le pending
      unfold msqMaxsize
      omega
    exact {
      masterTime := by
        rw [times_append]
        show m.masterTime.Represents msqMaxsize (times pending ++ [])
        rw [List.append_nil]
        exact h.masterTime
      masterCommand := by
        rw [commands_append]
        exact h.masterCommand.push hroom command
      chkpntName := by
        rw [names_append]
        show m.chkpntName = (names pending ++ []).head?.join
        rw [List.append_nil]
        exact h.chkpntName
      slaveCommand := h.slaveCommand
      sent := hsent
      expects := hexpects' }
  | name name =>
    have hnone : names pending = [] := by
      have hle := hexpects.names_le
      rw [names_append] at hle
      have hcons : names (.name name :: later) = name :: names later := rfl
      rw [hcons, List.length_append, List.length_cons] at hle
      exact List.length_eq_zero_iff.mp (by omega)
    exact {
      masterTime := by
        rw [times_append]
        show m.masterTime.Represents msqMaxsize (times pending ++ [])
        rw [List.append_nil]
        exact h.masterTime
      masterCommand := by
        rw [commands_append]
        show m.masterCommand.Represents msqMaxsize (commands pending ++ [])
        rw [List.append_nil]
        exact h.masterCommand
      chkpntName := by
        rw [names_append, hnone]
        rfl
      slaveCommand := h.slaveCommand
      sent := hsent
      expects := hexpects' }

/-- A slave whose command can be read has written it, and waits for the time. -/
theorem LinkOk.asked_of_not_isEmpty (h : LinkOk x m sent pending asked later)
    (hnonempty : m.slaveCommand.isEmpty = false) :
    x.place = .readTime ∧ (∃ command, asked = [command]) ∧ pending = [] ∧ later = [] := by
  have hasked : asked ≠ [] := by
    intro hnil
    rw [h.slaveCommand.isEmpty_iff.mpr hnil] at hnonempty
    cases hnonempty
  have hexpects := h.expects
  cases hplace : x.place with
  | working =>
    rw [hplace] at hexpects
    exact absurd hexpects.1 hasked
  | readCommand =>
    rw [hplace] at hexpects
    exact absurd hexpects.1 hasked
  | readName command =>
    rw [hplace] at hexpects
    exact absurd hexpects.1 hasked
  | readTime =>
    rw [hplace] at hexpects
    rcases hexpects with ⟨hcommand, hahead⟩ | ⟨hnil, -⟩
    · obtain ⟨hpending, hlater⟩ := List.append_eq_nil_iff.mp hahead
      exact ⟨rfl, hcommand, hpending, hlater⟩
    · exact absurd hnil hasked

/-- **The master reads the command of the slave**, and will write to it. -/
theorem LinkOk.readStatus (h : LinkOk x m sent pending asked later) (hnonempty : m.slaveCommand.isEmpty = false)
    (tics : Nat) (command : MsSimCommand) (name : Option Name) :
    LinkOk x { m with slaveCommand := m.slaveCommand.pop msqMaxsize } sent pending [] (message tics command name) := by
  obtain ⟨hplace, ⟨c, hasked⟩, hpending, -⟩ := h.asked_of_not_isEmpty hnonempty
  have hslave := h.slaveCommand
  rw [hasked] at hslave
  exact {
    masterTime := h.masterTime
    masterCommand := h.masterCommand
    chkpntName := h.chkpntName
    slaveCommand := hslave.pop
    sent := h.sent
    expects := by
      rw [hplace, hpending]
      exact Or.inr ⟨rfl, tics, command, name, rfl⟩ }

/-- **The slave writes its command.** -/
theorem LinkOk.begins (h : LinkOk x m sent pending asked later) (hplace : x.place = .working)
    (command : MsSimCommand) :
    LinkOk { x with execCommand := command, place := .readTime }
      { m with slaveCommand := m.slaveCommand.push msqMaxsize command } sent pending [command] later := by
  have hexpects := h.expects
  rw [hplace] at hexpects
  obtain ⟨hasked, hahead⟩ := hexpects
  have hslave := h.slaveCommand
  rw [hasked] at hslave
  exact {
    masterTime := h.masterTime
    masterCommand := h.masterCommand
    chkpntName := h.chkpntName
    slaveCommand := hslave.push (by decide) command
    sent := h.sent
    expects := Or.inl ⟨⟨command, rfl⟩, hahead⟩ }

/-- **The slave reads the time.** -/
theorem LinkOk.readsTime (h : LinkOk x m sent pending asked later) (hplace : x.place = .readTime)
    (hnonempty : m.masterTime.isEmpty = false) :
    ∃ pending', pending = .time m.masterTime.head :: pending' ∧
      LinkOk { x with place := .readCommand, words := x.words ++ [.time m.masterTime.head] }
        { m with masterTime := m.masterTime.pop msqMaxsize } sent pending' asked later := by
  have htimes : times pending ≠ [] := by
    intro hnil
    rw [h.masterTime.isEmpty_iff.mpr hnil] at hnonempty
    cases hnonempty
  have hexpects := h.expects
  rw [hplace] at hexpects
  cases hpending : pending with
  | nil =>
    rw [hpending] at htimes
    exact absurd rfl htimes
  | cons w pending' =>
    rw [hpending] at hexpects
    rcases hexpects with ⟨-, hahead⟩ | ⟨hasked, tics, command, name, hahead⟩
    · cases hahead
    · have hcons : message tics command name = .time tics :: (message 0 command name).tail := by
        unfold message
        split <;> rfl
      rw [hcons, List.cons_append] at hahead
      obtain ⟨rfl, htail⟩ := List.cons.inj hahead
      have hrep := h.masterTime
      rw [hpending] at hrep
      have hrep' : m.masterTime.Represents msqMaxsize (tics :: times pending') := hrep
      have hhead := hrep'.head
      have hsent := h.sent
      rw [hpending] at hsent
      refine ⟨pending', by rw [hhead], ?_⟩
      exact {
        masterTime := hrep'.pop
        masterCommand := by
          have hcommand := h.masterCommand
          rw [hpending] at hcommand
          exact hcommand
        chkpntName := by
          have hname := h.chkpntName
          rw [hpending] at hname
          exact hname
        slaveCommand := h.slaveCommand
        sent := by
          rw [hsent, hhead, List.append_assoc]
          rfl
        expects := ⟨hasked, command, name, htail⟩ }

/-- **The slave reads the command.** -/
theorem LinkOk.readsCommand (h : LinkOk x m sent pending asked later) (hplace : x.place = .readCommand)
    (hnonempty : m.masterCommand.isEmpty = false) (x' : Slave)
    (hx' : x'.words = x.words ++ [.command m.masterCommand.head])
    (hplace' : x'.place = if m.masterCommand.head.checkpoints then .readName m.masterCommand.head else .working) :
    ∃ pending', pending = .command m.masterCommand.head :: pending' ∧
      LinkOk x' { m with masterCommand := m.masterCommand.pop msqMaxsize } sent pending' asked later := by
  have hcommands : commands pending ≠ [] := by
    intro hnil
    rw [h.masterCommand.isEmpty_iff.mpr hnil] at hnonempty
    cases hnonempty
  have hexpects := h.expects
  rw [hplace] at hexpects
  obtain ⟨hasked, command, name, hahead⟩ := hexpects
  cases hpending : pending with
  | nil =>
    rw [hpending] at hcommands
    exact absurd rfl hcommands
  | cons w pending' =>
    rw [hpending, List.cons_append] at hahead
    have hcons : (message 0 command name).tail =
        .command command :: if command.checkpoints then [.name name] else [] := by
      unfold message
      split <;> rfl
    rw [hcons] at hahead
    obtain ⟨rfl, htail⟩ := List.cons.inj hahead
    have hrep := h.masterCommand
    rw [hpending] at hrep
    have hrep' : m.masterCommand.Represents msqMaxsize (command :: commands pending') := hrep
    have hhead := hrep'.head
    have hsent := h.sent
    rw [hpending] at hsent
    refine ⟨pending', by rw [hhead], ?_⟩
    exact {
      masterTime := by
        have htime := h.masterTime
        rw [hpending] at htime
        exact htime
      masterCommand := hrep'.pop
      chkpntName := by
        have hname := h.chkpntName
        rw [hpending] at hname
        exact hname
      slaveCommand := h.slaveCommand
      sent := by
        rw [hsent, hx', hhead, List.append_assoc]
        rfl
      expects := by
        rw [hplace', hhead]
        by_cases hcheckpoints : command.checkpoints = true
        · rw [if_pos hcheckpoints] at htail ⊢
          exact ⟨hasked, name, htail⟩
        · rw [if_neg hcheckpoints] at htail ⊢
          exact ⟨hasked, htail⟩ }

/-- **The slave reads the name.** -/
theorem LinkOk.readsName (h : LinkOk x m sent pending asked later) {command : MsSimCommand}
    (hplace : x.place = .readName command) {name : Name} (hname : m.chkpntName = some name) (x' : Slave)
    (hx' : x'.words = x.words ++ [.name (some name)]) (hplace' : x'.place = .working) :
    ∃ pending', pending = .name (some name) :: pending' ∧
      LinkOk x' { m with chkpntName := none } sent pending' asked later := by
  have hexpects := h.expects
  rw [hplace] at hexpects
  obtain ⟨hasked, nm, hahead⟩ := hexpects
  have hslot := h.chkpntName
  rw [hname] at hslot
  cases hpending : pending with
  | nil =>
    rw [hpending] at hslot
    cases hslot
  | cons w pending' =>
    rw [hpending, List.cons_append] at hahead
    obtain ⟨rfl, htail⟩ := List.cons.inj hahead
    obtain ⟨hpending', -⟩ := List.append_eq_nil_iff.mp htail
    have hsent := h.sent
    have htime := h.masterTime
    have hcommand := h.masterCommand
    rw [hpending] at hsent htime hcommand hslot
    have hnm : nm = some name := hslot.symm
    subst hnm
    refine ⟨pending', rfl, ?_⟩
    exact {
      masterTime := htime
      masterCommand := hcommand
      chkpntName := by
        rw [hpending']
        rfl
      slaveCommand := h.slaveCommand
      sent := by
        rw [hsent, hx', List.append_assoc]
        rfl
      expects := by
        rw [hplace']
        exact ⟨hasked, htail⟩ }

/-- **A slave to which nothing has been written waits for the time.** -/
theorem LinkOk.waits {tics : Nat} {command : MsSimCommand} {name : Option Name}
    (h : LinkOk x m sent pending asked (message tics command name)) :
    asked = [] ∧ x.place = .readTime ∧ pending = [] := by
  have htime : ∀ tics command name, ∃ l, message tics command name = Word.time tics :: l := by
    intro tics command name
    unfold message
    split <;> exact ⟨_, rfl⟩
  have hnot : ∀ command name, ∀ w ∈ (message 0 command name).tail, ∀ tics, w ≠ Word.time tics := by
    intro command name
    unfold message
    split <;> simp
  obtain ⟨l, hl⟩ := htime tics command name
  have hexpects := h.expects
  rw [hl] at hexpects
  have hinside : Word.time tics ∈ pending ++ Word.time tics :: l :=
    List.mem_append_right _ List.mem_cons_self
  cases hplace : x.place with
  | working =>
    rw [hplace] at hexpects
    rw [hexpects.2] at hinside
    exact absurd hinside List.not_mem_nil
  | readCommand =>
    rw [hplace] at hexpects
    obtain ⟨-, c, nm, hahead⟩ := hexpects
    rw [hahead] at hinside
    exact absurd rfl (hnot c nm _ hinside tics)
  | readName c =>
    rw [hplace] at hexpects
    obtain ⟨-, nm, hahead⟩ := hexpects
    rw [hahead] at hinside
    cases List.mem_singleton.mp hinside
  | readTime =>
    rw [hplace] at hexpects
    rcases hexpects with ⟨-, hahead⟩ | ⟨hasked, t, c, nm, hahead⟩
    · rw [hahead] at hinside
      exact absurd hinside List.not_mem_nil
    · refine ⟨hasked, rfl, ?_⟩
      cases hpending : pending with
      | nil => rfl
      | cons w pending' =>
        -- the time would be behind something else
        rw [hpending, List.cons_append] at hahead
        have htail : (message 0 c nm).tail = pending' ++ Word.time tics :: l := by
          have hsame : (message t c nm).tail = (message 0 c nm).tail := by
            unfold message
            split <;> rfl
          rw [← hsame, ← hahead]
          rfl
        have hmem : Word.time tics ∈ (message 0 c nm).tail := by
          rw [htail]
          exact List.mem_append_right _ List.mem_cons_self
        exact absurd rfl (hnot c nm _ hmem tics)

/-- What the master is about to write may change before it writes. -/
theorem LinkOk.change {tics : Nat} {command : MsSimCommand} {name : Option Name}
    (h : LinkOk x m sent pending asked (message tics command name)) (tics' : Nat) (command' : MsSimCommand)
    (name' : Option Name) : LinkOk x m sent pending asked (message tics' command' name') := by
  obtain ⟨hasked, hplace, hpending⟩ := h.waits
  exact {
    masterTime := h.masterTime
    masterCommand := h.masterCommand
    chkpntName := h.chkpntName
    slaveCommand := h.slaveCommand
    sent := h.sent
    expects := by
      rw [hplace, hpending]
      exact Or.inr ⟨hasked, tics', command', name', rfl⟩ }

/-! ## What the master has to do -/

/-- Something is written. -/
def Op.isWrite : Op → Bool
  | .writeTime _ | .writeCommand _ _ | .writeName _ _ => true
  | .readStatus _ | .done _ => false

/-- **The rest of an exchange**: the slaves that are still to be read, what is written, and the end. -/
structure Config.Remains (config : Config) (todo : List Op) (kind : Kind) (reads : List Nat) (writes : List Op) :
    Prop where
  eq : todo = reads.map .readStatus ++ writes ++ [.done kind]
  distinct : reads.Nodup
  inRange : ∀ i ∈ reads, i < config.numSlaves
  areWrites : ∀ op ∈ writes, op.isWrite = true
  whole : reads ≠ [] → writes = (List.range config.numSlaves).flatMap (config.writes kind)

variable {config : Config} {todo : List Op} {kind : Kind} {reads : List Nat} {writes : List Op} {i j tics : Nat}
  {command : MsSimCommand}

theorem isWrite_writes : ∀ op ∈ config.writes kind i, op.isWrite = true := by
  cases kind with
  | status => simp [Config.writes, Op.isWrite]
  | dump name =>
    unfold Config.writes
    dsimp only
    split <;> simp [Op.isWrite]
  | load name =>
    unfold Config.writes
    dsimp only
    split <;> simp [Op.isWrite]

theorem Config.remains_exchange (config : Config) (kind : Kind) :
    config.Remains (config.exchange kind) kind (List.range config.numSlaves)
      ((List.range config.numSlaves).flatMap (config.writes kind)) where
  eq := rfl
  distinct := List.nodup_range
  inRange := fun _ hi => List.mem_range.mp hi
  areWrites := by
    intro op hop
    obtain ⟨i, -, hi⟩ := List.mem_flatMap.mp hop
    exact isWrite_writes op hi
  whole := fun _ => rfl

theorem Config.Remains.readStatus_mem_iff (h : config.Remains todo kind reads writes) :
    Op.readStatus i ∈ todo ↔ i ∈ reads := by
  rw [h.eq]
  simp only [List.mem_append, List.mem_map, List.mem_singleton]
  constructor
  · rintro ((⟨j, hj, heq⟩ | hop) | hdone)
    · cases heq
      exact hj
    · exact absurd (h.areWrites _ hop) Bool.false_ne_true
    · cases hdone
  · exact fun hi => Or.inl (Or.inl ⟨i, hi, rfl⟩)

/-- The kind of an exchange. -/
theorem Config.Remains.done_mem (h : config.Remains todo kind reads writes) {kind' : Kind} (hdone : .done kind' ∈ todo) :
    kind' = kind := by
  rw [h.eq] at hdone
  simp only [List.mem_append, List.mem_map, List.mem_singleton] at hdone
  rcases hdone with (⟨j, -, heq⟩ | hop) | hdone
  · cases heq
  · exact absurd (h.areWrites _ hop) Bool.false_ne_true
  · cases hdone
    rfl

/-- **What is still written to a slave** is nothing before it is read. -/
theorem Config.Remains.rest_eq (h : config.Remains todo kind reads writes) :
    rest command tics i todo = if i ∈ reads then [] else writes.filterMap (Op.word command tics i) := by
  have hmem : Op.readStatus i ∈ todo ↔ i ∈ reads := h.readStatus_mem_iff
  unfold rest
  by_cases hi : i ∈ reads
  · rw [if_pos hi, if_pos (hmem.mpr hi)]
  · rw [if_neg hi, if_neg (fun hin => hi (hmem.mp hin)), h.eq, List.filterMap_append, List.filterMap_append]
    have hreads : (reads.map Op.readStatus).filterMap (Op.word command tics i) = [] := by
      rw [List.filterMap_eq_nil_iff]
      intro op hop
      obtain ⟨j, -, rfl⟩ := List.mem_map.mp hop
      rfl
    rw [hreads]
    exact List.append_nil _

/-- What is written to one slave, of what is written to all. -/
theorem filterMap_flatMap_writes (l : List Nat) (hl : l.Nodup) :
    (l.flatMap (config.writes kind)).filterMap (Op.word command tics i) =
      if i ∈ l then (config.writes kind i).filterMap (Op.word command tics i) else [] := by
  have hother : ∀ j ≠ i, (config.writes kind j).filterMap (Op.word command tics i) = [] := by
    intro j hj
    cases kind with
    | status => simp [Config.writes, Op.word, hj]
    | dump name =>
      unfold Config.writes
      dsimp only
      split <;> simp [Op.word, hj]
    | load name =>
      unfold Config.writes
      dsimp only
      split <;> simp [Op.word, hj]
  induction l with
  | nil => rfl
  | cons j l ih =>
    obtain ⟨hj, hl⟩ := List.nodup_cons.mp hl
    rw [List.flatMap_cons, List.filterMap_append, ih hl]
    by_cases hji : j = i
    · subst hji
      rw [if_neg hj, if_pos List.mem_cons_self, List.append_nil]
    · rw [hother j hji, List.nil_append]
      by_cases hi : i ∈ l
      · rw [if_pos hi, if_pos (List.mem_cons_of_mem j hi)]
      · rw [if_neg hi, if_neg]
        rintro (_ | ⟨_, hin⟩)
        · exact hji rfl
        · exact hi hin

/-- `chkpnt_dump_auto` or `chkpnt_load_auto` -/
def Config.auto (config : Config) (kind : Kind) (i : Nat) : Bool :=
  match kind with
  | .status => false
  | .dump _ => config.chkpntDumpAuto i
  | .load _ => config.chkpntLoadAuto i

/-- **One slave is written a message**, with the command of the master or with that of a checkpoint. -/
theorem filterMap_writes (config : Config) (kind : Kind) (i : Nat) (hcommand : command.checkpoints = false)
    (tics : Nat) :
    ∃ word name, (config.writes kind i).filterMap (Op.word command tics i) = message tics word name ∧
      ((config.auto kind i = false ∧ word = command) ∨ (config.auto kind i = true ∧ word.checkpoints = true)) := by
  have hplain : message tics command none = [.time tics, .command command] := by
    unfold message
    rw [if_neg (Bool.not_eq_true _ ▸ hcommand)]
  cases kind with
  | status =>
    refine ⟨command, none, ?_, Or.inl ⟨rfl, rfl⟩⟩
    rw [hplain]
    simp [Config.writes, Op.word]
  | dump name =>
    by_cases hauto : config.chkpntDumpAuto i = true
    · refine ⟨.chkpntDumpAsciiCmd, chkpntName name, ?_, Or.inr ⟨hauto, rfl⟩⟩
      simp [Config.writes, hauto, Op.word, message, MsSimCommand.checkpoints]
    · refine ⟨command, none, ?_, Or.inl ⟨Bool.not_eq_true _ ▸ hauto, rfl⟩⟩
      rw [hplain]
      simp [Config.writes, hauto, Op.word]
  | load name =>
    by_cases hauto : config.chkpntLoadAuto i = true
    · refine ⟨.chkpntLoadAsciiCmd, chkpntName name, ?_, Or.inr ⟨hauto, rfl⟩⟩
      simp [Config.writes, hauto, Op.word, message, MsSimCommand.checkpoints]
    · refine ⟨command, none, ?_, Or.inl ⟨Bool.not_eq_true _ ▸ hauto, rfl⟩⟩
      rw [hplain]
      simp [Config.writes, hauto, Op.word]

/-- While slaves are read, nothing has been written. -/
theorem Config.Remains.filterMap_whole (h : config.Remains todo kind reads writes) (hreads : reads ≠ []) :
    writes.filterMap (Op.word command tics i) =
      if i < config.numSlaves then (config.writes kind i).filterMap (Op.word command tics i) else [] := by
  rw [h.whole hreads, filterMap_flatMap_writes _ List.nodup_range]
  simp only [List.mem_range]

/-! ## Every step -/

/-- **The invariant**: the master is within an exchange or between two, and each slave can count on what comes. -/
structure Inv (config : Config) (s : System) : Prop where
  todo : s.todo = [] ∨ ∃ kind reads writes, config.Remains s.todo kind reads writes
  execCommand : s.execCommand.checkpoints = false
  links : ∀ i, ∃ pending asked,
    LinkOk (s.slave i) (s.memory i) (s.words i) pending asked (rest s.execCommand s.timeTics i s.todo)

variable {s : System}

theorem rest_nil : rest command tics i [] = [] := by
  unfold rest
  rw [if_neg List.not_mem_nil]
  rfl

theorem inv_start (config : Config) : Inv config {} where
  todo := Or.inl rfl
  execCommand := rfl
  links := fun i => ⟨[], [], {
    masterTime := RingQueue.represents_nil (by decide) _
    masterCommand := RingQueue.represents_nil (by decide) _
    chkpntName := rfl
    slaveCommand := RingQueue.represents_nil (by decide) _
    sent := rfl
    expects := by
      rw [rest_nil]
      exact ⟨rfl, rfl⟩ }⟩

/-- The slave to which something is written. -/
def Op.target : Op → Nat
  | .readStatus i | .writeTime i | .writeCommand i _ | .writeName i _ => i
  | .done _ => 0

/-- What is written is written to one slave. -/
theorem word_target (command : MsSimCommand) (tics : Nat) {op : Op} (hop : op.isWrite = true) :
    (∃ word, op.word command tics op.target = some word) ∧ ∀ j ≠ op.target, op.word command tics j = none := by
  cases op with
  | readStatus i => cases hop
  | done kind => cases hop
  | writeTime i => exact ⟨⟨_, if_pos rfl⟩, fun j hj => if_neg (Ne.symm hj)⟩
  | writeCommand i c => exact ⟨⟨_, if_pos rfl⟩, fun j hj => if_neg (Ne.symm hj)⟩
  | writeName i name => exact ⟨⟨_, if_pos rfl⟩, fun j hj => if_neg (Ne.symm hj)⟩

/-- The master writes a word. -/
theorem masterStep_write {op : Op} {todo : List Op} {word : Word} (htodo : s.todo = op :: todo)
    (hop : op.isWrite = true) (hword : op.word s.execCommand s.timeTics op.target = some word) :
    s.masterStep = { s.write op.target word ((s.memory op.target).write word) with todo := todo } := by
  cases op with
  | readStatus i => cases hop
  | done kind => cases hop
  | writeTime i =>
    simp only [Op.word, Op.target, if_true, Option.some.injEq] at hword
    subst hword
    simp only [System.masterStep, htodo, Op.target, MSSharedMem.write]
  | writeCommand i c =>
    simp only [Op.word, Op.target, if_true, Option.some.injEq] at hword
    subst hword
    simp only [System.masterStep, htodo, Op.target, MSSharedMem.write]
  | writeName i name =>
    simp only [Op.word, Op.target, if_true, Option.some.injEq] at hword
    subst hword
    simp only [System.masterStep, htodo, Op.target, MSSharedMem.write]

theorem checkpoints_readStatus (c : MsSimCommand) (hcommand : command.checkpoints = false) :
    (MasterSlave.readStatus c command).checkpoints = false := by
  cases c <;> first | rfl | exact hcommand

theorem checkpoints_settle (mode : Mode) (hcommand : command.checkpoints = false) :
    (settle mode command).2.checkpoints = false := by
  cases mode <;> cases command <;> first | rfl | exact hcommand

/-- One less to read. -/
theorem Config.Remains.tail_read (h : config.Remains todo kind (i :: reads) writes) {todo' : List Op}
    (htodo : todo = .readStatus i :: todo') : config.Remains todo' kind reads writes := by
  obtain ⟨heq, hdistinct, hinRange, hwrites, hwhole⟩ := h
  refine ⟨?_, (List.nodup_cons.mp hdistinct).2, fun j hj => hinRange j (List.mem_cons_of_mem i hj), hwrites,
    fun _ => hwhole (List.cons_ne_nil i reads)⟩
  rw [heq] at htodo
  exact (List.cons.inj htodo).2.symm

/-- One less to write. -/
theorem Config.Remains.tail_write {op : Op} (h : config.Remains todo kind [] (op :: writes)) {todo' : List Op}
    (htodo : todo = op :: todo') : config.Remains todo' kind [] writes := by
  obtain ⟨heq, hdistinct, hinRange, hwrites, -⟩ := h
  refine ⟨?_, hdistinct, hinRange, fun o ho => hwrites o (List.mem_cons_of_mem op ho), fun hne => absurd rfl hne⟩
  rw [heq] at htodo
  exact (List.cons.inj htodo).2.symm

/-- **The master reads the command of a slave.** -/
theorem Inv.readStatus (h : Inv config s) (hremains : config.Remains s.todo kind (i :: reads) writes)
    {todo' : List Op} (htodo : s.todo = .readStatus i :: todo') : Inv config s.masterStep := by
  have hremains' := hremains.tail_read htodo
  by_cases hempty : (s.memory i).slaveCommand.isEmpty = true
  · simp only [System.masterStep, htodo, if_pos hempty]
    exact h
  · simp only [System.masterStep, htodo, if_neg hempty]
    have hcommand := checkpoints_readStatus (s.memory i).slaveCommand.head h.execCommand
    have hnew : ∀ {c : MsSimCommand} {j : Nat}, rest c s.timeTics j todo' = if j ∈ reads then [] else
        if j < config.numSlaves then (config.writes kind j).filterMap (Op.word c s.timeTics j) else [] := by
      intro c j
      rw [hremains'.rest_eq, hremains.filterMap_whole (List.cons_ne_nil i reads)]
    refine ⟨Or.inr ⟨kind, reads, writes, hremains'⟩, hcommand, ?_⟩
    intro j
    obtain ⟨pending, asked, hlink⟩ := h.links j
    show ∃ pending asked, LinkOk (s.slave j) (Function.update s.memory i _ j) (s.words j) pending asked
      (rest _ s.timeTics j todo')
    by_cases hj : j = i
    · subst hj
      obtain ⟨word, name, hmessage, -⟩ := filterMap_writes config kind j hcommand s.timeTics
      have hnot : j ∉ reads := (List.nodup_cons.mp hremains.distinct).1
      rw [hnew, if_neg hnot, if_pos (hremains.inRange j List.mem_cons_self), hmessage, Function.update_self]
      exact ⟨pending, [], hlink.readStatus (Bool.not_eq_true _ ▸ hempty) s.timeTics word name⟩
    · rw [Function.update_of_ne hj, hnew]
      rw [hremains.rest_eq, hremains.filterMap_whole (List.cons_ne_nil i reads)] at hlink
      by_cases hin : j ∈ reads
      · rw [if_pos (List.mem_cons_of_mem i hin)] at hlink
        rw [if_pos hin]
        exact ⟨pending, asked, hlink⟩
      · have hin' : j ∉ i :: reads := by
          rintro (_ | ⟨_, hmem⟩)
          · exact hj rfl
          · exact hin hmem
        rw [if_neg hin'] at hlink
        rw [if_neg hin]
        by_cases hrange : j < config.numSlaves
        · rw [if_pos hrange] at hlink ⊢
          obtain ⟨word, name, hmessage, -⟩ :=
            filterMap_writes config kind j h.execCommand s.timeTics
          obtain ⟨word', name', hmessage', -⟩ :=
            filterMap_writes config kind j hcommand s.timeTics
          rw [hmessage] at hlink
          rw [hmessage']
          exact ⟨pending, asked, hlink.change s.timeTics word' name'⟩
        · rw [if_neg hrange] at hlink ⊢
          exact ⟨pending, asked, hlink⟩

/-- **The master writes.** -/
theorem Inv.write (h : Inv config s) {op : Op} (hremains : config.Remains s.todo kind [] (op :: writes))
    {todo' : List Op} (htodo : s.todo = op :: todo') : Inv config s.masterStep := by
  have hremains' := hremains.tail_write htodo
  have hop := hremains.areWrites op List.mem_cons_self
  obtain ⟨⟨word, hword⟩, hothers⟩ := word_target s.execCommand s.timeTics hop
  rw [masterStep_write htodo hop hword]
  refine ⟨Or.inr ⟨kind, [], writes, hremains'⟩, h.execCommand, ?_⟩
  intro j
  obtain ⟨pending, asked, hlink⟩ := h.links j
  rw [hremains.rest_eq, if_neg List.not_mem_nil] at hlink
  show ∃ pending asked, LinkOk (s.slave j) (Function.update s.memory op.target _ j)
    (Function.update s.words op.target _ j) pending asked (rest s.execCommand s.timeTics j todo')
  rw [hremains'.rest_eq, if_neg List.not_mem_nil]
  by_cases hj : j = op.target
  · subst hj
    rw [List.filterMap_cons_some hword] at hlink
    rw [Function.update_self, Function.update_self]
    exact ⟨pending ++ [word], asked, hlink.write⟩
  · rw [List.filterMap_cons_none (hothers j hj)] at hlink
    rw [Function.update_of_ne hj, Function.update_of_ne hj]
    exact ⟨pending, asked, hlink⟩

/-- **A step of the master.** -/
theorem Inv.masterStep (h : Inv config s) : Inv config s.masterStep := by
  rcases h.todo with htodo | ⟨kind, reads, writes, hremains⟩
  · simp only [System.masterStep, htodo]
    exact h
  · have heq := hremains.eq
    cases reads with
    | cons i reads => exact h.readStatus hremains heq
    | nil =>
      cases writes with
      | cons op writes => exact h.write hremains heq
      | nil =>
        have hdone : s.todo = [.done kind] := heq
        have hlinks : ∀ j, ∃ pending asked, LinkOk (s.slave j) (s.memory j) (s.words j) pending asked [] := by
          intro j
          obtain ⟨pending, asked, hlink⟩ := h.links j
          rw [hremains.rest_eq, if_neg List.not_mem_nil] at hlink
          exact ⟨pending, asked, hlink⟩
        have hsettle := checkpoints_settle s.mode h.execCommand
        simp only [System.masterStep, hdone]
        cases kind with
        | status => exact ⟨Or.inl rfl, hsettle, fun j => by rw [rest_nil]; exact hlinks j⟩
        | dump name => exact ⟨Or.inl rfl, h.execCommand, fun j => by rw [rest_nil]; exact hlinks j⟩
        | load name => exact ⟨Or.inl rfl, h.execCommand, fun j => by rw [rest_nil]; exact hlinks j⟩

/-! ## The other steps -/

/-- Before an exchange, and for a slave that is to be read, nothing is on its way from the master. -/
theorem Config.rest_exchange (config : Config) (kind : Kind) : rest command tics i (config.exchange kind) = [] := by
  rw [(config.remains_exchange kind).rest_eq]
  by_cases hi : i ∈ List.range config.numSlaves
  · exact if_pos hi
  · rw [if_neg hi, filterMap_flatMap_writes _ List.nodup_range, if_neg hi]

/-- **The master begins an exchange.** -/
theorem Inv.begins (h : Inv config s) (htodo : s.todo = []) (kind : Kind) (timeTics : Nat) :
    Inv config { s with timeTics := timeTics, todo := config.exchange kind } where
  todo := Or.inr ⟨kind, _, _, config.remains_exchange kind⟩
  execCommand := h.execCommand
  links := by
    intro i
    obtain ⟨pending, asked, hlink⟩ := h.links i
    rw [htodo, rest_nil] at hlink
    exact ⟨pending, asked, by rw [config.rest_exchange]; exact hlink⟩

/-- A slave's command does not matter to its link. -/
theorem LinkOk.setCommand (h : LinkOk x m sent pending asked later) (command : MsSimCommand) :
    LinkOk { x with execCommand := command } m sent pending asked later :=
  ⟨h.masterTime, h.masterCommand, h.chkpntName, h.slaveCommand, h.sent, h.expects⟩

/-- **One slave changes**, and its memory. -/
theorem Inv.setSlave (h : Inv config s) {i : Nat} {x : Slave} {m : MSSharedMem}
    (hlink : ∃ pending asked, LinkOk x m (s.words i) pending asked (rest s.execCommand s.timeTics i s.todo)) :
    Inv config (s.setSlave i x m) where
  todo := h.todo
  execCommand := h.execCommand
  links := by
    intro j
    show ∃ pending asked, LinkOk (Function.update s.slave i x j) (Function.update s.memory i m j) (s.words j) pending
      asked (rest s.execCommand s.timeTics j s.todo)
    by_cases hj : j = i
    · subst hj
      rw [Function.update_self, Function.update_self]
      exact hlink
    · rw [Function.update_of_ne hj, Function.update_of_ne hj]
      exact h.links j

/-- **The step of a slave**: nothing, or a change of the slave and its memory. -/
theorem slaveStep_cases (s : System) (j : Nat) :
    s.slaveStep j = s ∨ ∃ x m, s.slaveStep j = s.setSlave j x m := by
  unfold System.slaveStep
  dsimp only
  split
  · exact Or.inr ⟨_, _, rfl⟩
  · split
    · exact Or.inl rfl
    · exact Or.inr ⟨_, _, rfl⟩
  · split
    · exact Or.inl rfl
    · exact Or.inr ⟨_, _, rfl⟩
  · split
    · exact Or.inl rfl
    · exact Or.inr ⟨_, _, rfl⟩

/-- **A step of a slave.** -/
theorem Inv.slaveStep (h : Inv config s) (i : Nat) : Inv config (s.slaveStep i) := by
  obtain ⟨pending, asked, hlink⟩ := h.links i
  cases hplace : (s.slave i).place with
  | working =>
    simp only [System.slaveStep, hplace]
    exact h.setSlave ⟨pending, _, hlink.begins hplace _⟩
  | readTime =>
    simp only [System.slaveStep, hplace]
    by_cases hempty : (s.memory i).masterTime.isEmpty = true
    · rw [if_pos hempty]
      exact h
    · rw [if_neg hempty]
      obtain ⟨pending', -, hlink'⟩ := hlink.readsTime hplace (Bool.not_eq_true _ ▸ hempty)
      exact h.setSlave ⟨pending', asked, hlink'⟩
  | readCommand =>
    simp only [System.slaveStep, hplace]
    by_cases hempty : (s.memory i).masterCommand.isEmpty = true
    · rw [if_pos hempty]
      exact h
    · rw [if_neg hempty]
      refine h.setSlave ?_
      by_cases hcheckpoints : (s.memory i).masterCommand.head.checkpoints = true
      · rw [if_pos hcheckpoints]
        obtain ⟨pending', -, hlink'⟩ := hlink.readsCommand hplace (Bool.not_eq_true _ ▸ hempty)
          { s.slave i with
            place := .readName (s.memory i).masterCommand.head,
            words := (s.slave i).words ++ [.command (s.memory i).masterCommand.head] }
          rfl (if_pos hcheckpoints).symm
        exact ⟨pending', asked, hlink'⟩
      · rw [if_neg hcheckpoints]
        obtain ⟨pending', -, hlink'⟩ := hlink.readsCommand hplace (Bool.not_eq_true _ ▸ hempty)
          ({ s.slave i with
            words := (s.slave i).words ++ [.command (s.memory i).masterCommand.head],
            execCommand := (s.memory i).masterCommand.head } : Slave).finish
          rfl (if_neg hcheckpoints).symm
        exact ⟨pending', asked, hlink'⟩
  | readName command =>
    simp only [System.slaveStep, hplace]
    cases hname : (s.memory i).chkpntName with
    | none => exact h
    | some name =>
      obtain ⟨pending', -, hlink'⟩ := hlink.readsName hplace hname
        ({ s.slave i with words := (s.slave i).words ++ [.name (some name)] } : Slave).finish rfl rfl
      exact h.setSlave ⟨pending', asked, hlink'⟩

/-- **Every step.** -/
theorem Inv.step (h : Inv config s) (action : Action) : Inv config (s.step config action) := by
  cases action with
  | request request =>
    simp only [System.step]
    by_cases htodo : s.todo = []
    · rw [if_pos htodo]
      refine ⟨h.todo, by cases request <;> rfl, ?_⟩
      intro i
      have hlink := h.links i
      rw [htodo, rest_nil] at hlink
      show ∃ pending asked, LinkOk (s.slave i) (s.memory i) (s.words i) pending asked
        (rest request.command s.timeTics i s.todo)
      rw [htodo, rest_nil]
      exact hlink
    · rw [if_neg htodo]
      exact h
  | slaveRequest i request =>
    simp only [System.step]
    by_cases hplace : (s.slave i).place = .working
    · rw [if_pos hplace]
      obtain ⟨pending, asked, hlink⟩ := h.links i
      exact h.setSlave ⟨pending, asked, hlink.setCommand _⟩
    · rw [if_neg hplace]
      exact h
  | begins kind timeTics =>
    simp only [System.step]
    by_cases htodo : s.todo = []
    · rw [if_pos htodo]
      exact h.begins htodo kind timeTics
    · rw [if_neg htodo]
      exact h
  | master => exact h.masterStep
  | slave i =>
    simp only [System.step]
    by_cases hi : i < config.numSlaves
    · rw [if_pos hi]
      exact h.slaveStep i
    · rw [if_neg hi]
      exact h

/-- **Every run.** -/
theorem Inv.run : ∀ (actions : List Action) {s : System}, Inv config s →
    Inv config (Lib.run (System.step config) s actions)
  | [], _, h => h
  | action :: actions, _, h => Inv.run actions (h.step action)

/-- **The words come as they are sent**: whatever is asked for and in whatever order the simulations take their steps,
    a slave has read what the master has written, word for word, but for three words at most, which are in their
    queues; none is lost, and none is read twice or as something else. -/
theorem words_in_order (config : Config) (actions : List Action) (i : Nat) :
    let s := Lib.run (System.step config) {} actions
    ∃ pending, s.words i = (s.slave i).words ++ pending ∧ pending.length ≤ 3 ∧
      (s.memory i).masterTime.Represents msqMaxsize (times pending) ∧
      (s.memory i).masterCommand.Represents msqMaxsize (commands pending) ∧
      (s.memory i).chkpntName = (names pending).head?.join := by
  obtain ⟨pending, asked, hlink⟩ := (Inv.run actions (inv_start config)).links i
  have hlength := hlink.expects.length_le
  rw [List.length_append] at hlength
  exact ⟨pending, hlink.sent, by omega, hlink.masterTime, hlink.masterCommand, hlink.chkpntName⟩

end Trick.MasterSlave
