/-
  `write_data` and `copy_sim_data` of a session, in two threads.

  The session's thread checks that all variables are staged and swaps their buffers under the copy mutex,
  and then writes messages without it: in text form one variable after another, each of which is written
  only if it is ready; in binary form the sizes of all variables first, then the messages.  The
  simulation's thread stages all variables under the copy mutex.  Both give up if they do not get it.

  `messages` is what a writer sends that nobody disturbs.  `step` is one step of one of the threads; a
  `SessionState` also keeps what each copy has staged and what each write has sent.

  A message is a text whose characters are bytes, or a `Packet`, which keeps the number of bytes of each
  value beside those bytes that are known.
-/
import Trick.VariableServer.VariableReference
import Trick.Lib.NextFit

namespace Trick.VarServer

open Trick.Lib

/-! ## Messages -/

/-- `MAX_MSG_LEN` -/
def maxMsgLen : Nat := 8192

/-- What `write_data` goes by. -/
structure WriteSettings where
  binaryData : Bool
  byteswap : Bool
  binaryDataNonames : Bool
  /-- The parameter `message_type`. -/
  messageType : Nat
  fmt : VariableReference.Format

/-- One variable of a binary message. -/
structure Part where
  /-- What stands in front of the value. -/
  head : List UInt8
  value : List UInt8
  /-- How many bytes are written for the value. -/
  valueSize : Nat
deriving DecidableEq

/-- A binary message. -/
structure Packet where
  head : List UInt8
  /-- `curr_message_size`, the number of bytes that are sent. -/
  size : Nat
  parts : List Part
deriving DecidableEq

/-- How many bytes are in the stream. -/
def Packet.streamSize (p : Packet) : Nat :=
  p.head.length + (p.parts.map fun q => q.head.length + q.valueSize).sum

/-- A message. -/
inductive Message where
  | ascii (text : String)
  | binary (packet : Packet)
deriving DecidableEq

namespace WriteSettings

/-! ## The binary form -/

/-- `header_size` -/
def headerSize : Nat := 12

/-- `total_var_size` -/
def varSize (c : WriteSettings) (v : VariableReference) : Nat :=
  (if c.binaryDataNonames then 0 else 4 + v.name.length) + 4 + 4 + v.size

/-- The header of a message: indicator, size and number of variables. -/
def packetHead (c : WriteSettings) (size vars : Nat) : List UInt8 :=
  VariableReference.intBytes c.messageType c.byteswap ++
    VariableReference.intBytes (size - 4) c.byteswap ++ VariableReference.intBytes vars c.byteswap

/-- The name, the type and the size. -/
def partHead (c : WriteSettings) (v : VariableReference) : List UInt8 :=
  (if c.binaryDataNonames then [] else v.writeNameLengthBinary c.byteswap ++ v.writeNameBinary) ++
    v.writeTypeBinary c.byteswap ++ v.writeSizeBinary c.byteswap

/-- The value behind the rest. -/
def part (c : WriteSettings) (head : List UInt8) (v : VariableReference) : Part where
  head := head
  value := v.writeValueBinary c.byteswap
  valueSize := v.size

/-- The beginning of a message. -/
def newPacket (c : WriteSettings) (size : Nat) (vars : List Nat) : Packet where
  head := c.packetHead size vars.length
  size := size
  parts := []

/-- The message with some variables, by their places. -/
def packet (c : WriteSettings) (vs : List VariableReference) (b : Nat × List Nat) : Message :=
  .binary { c.newPacket b.1 b.2 with
    parts := b.2.filterMap fun i => vs[i]?.map fun v => c.part (c.partHead v) v }

/-- The size of the variable at a place. -/
def sizeAt (c : WriteSettings) (vs : List VariableReference) (i : Nat) : Nat :=
  (vs[i]?.map c.varSize).getD 0

/-- **`write_binary_data`** -/
def binaryMessages (c : WriteSettings) (vs : List VariableReference) : List Message :=
  ((Packing.empty headerSize).addAll maxMsgLen headerSize (c.sizeAt vs)
    (List.range vs.length)).finish.map (c.packet vs)

/-! ## The text form -/

/-- `message_stream` and `message_size` -/
structure AsciiStream where
  text : String
  size : Nat

/-- The stream of a new message. -/
def newStream (c : WriteSettings) : AsciiStream where
  text := toString c.messageType
  size := (toString c.messageType).length

/-- One variable is appended; a message is sent before that if there is not enough room. -/
def AsciiStream.append (a : AsciiStream) (var : String) : Option Message × AsciiStream :=
  let var := if var.length + 2 > maxMsgLen then String.ofList (var.toList.take (maxMsgLen - 2)) else var
  if a.size + var.length + 2 > maxMsgLen then
    (some (.ascii (a.text ++ "\t")), {
      text := var
      size := var.length + 1 })
  else
    (none, {
      text := a.text ++ "\t" ++ var
      size := a.size + var.length + 1 })

/-- The messages from some texts on. -/
def asciiMessages : AsciiStream → List String → List Message
  | a, [] => [.ascii (a.text ++ "\n")]
  | a, var :: vars => (a.append var).1.toList ++ asciiMessages (a.append var).2 vars

/-- What `writeValueAscii` writes when the reference is ready. -/
def text (c : WriteSettings) (v : VariableReference) : String :=
  v.asciiLoop c.fmt v.size 0 v.writeBuffer ++ v.unitsText

/-- **What is sent of some variables**, which are ready. -/
def messages (c : WriteSettings) (vs : List VariableReference) : List Message :=
  if c.binaryData then c.binaryMessages vs else asciiMessages c.newStream (vs.map c.text)

end WriteSettings

theorem writeValueAscii_eq (c : WriteSettings) (v : VariableReference) :
    v.writeValueAscii c.fmt = if v.writeReady then some (c.text v) else none := rfl

/-! ## The threads -/

/-- Where the thread of the simulation is in `copy_sim_data`: at the variable `i`, or between the first
    assignment of its `stageValue` and the rest. -/
inductive CopyPc where
  | idle
  | begin (sim : Sim) (i : Nat)
  | rest (sim : Sim) (i : Nat)

/-- Where the thread of the session is in `write_data`. -/
inductive WritePc where
  | idle
  /-- `isStaged` of the variable `i`, under the mutex. -/
  | checking (i : Nat)
  /-- `prepareForWrite` of the variable `i`, under the mutex. -/
  | swapping (i : Nat)
  /-- The size of the variable `i`. -/
  | sizing (i : Nat) (p : Packing Nat)
  /-- A packet, and the variables that are missing in it. -/
  | writing (p : Packet) (vars : List Nat) (more : List (Nat × List Nat))
  /-- In front of the value of the variable `i`. -/
  | value (p : Packet) (head : List UInt8) (i : Nat) (vars : List Nat) (more : List (Nat × List Nat))
  /-- `isWriteReady` of the variable `i`. -/
  | testing (i : Nat) (a : WriteSettings.AsciiStream)
  /-- The variable `i` is ready. -/
  | rendering (i : Nat) (a : WriteSettings.AsciiStream)

/-- One call of `write_data`. -/
structure Write where
  /-- The number of the copy that was the last one when the buffers were swapped. -/
  pass : Nat
  messages : List Message := []
  complete : Bool := false

/-- A session: its variables, the two threads and what they have done; the last write is the first. -/
structure SessionState where
  sessionVariables : List VariableReference
  copyMutex : Bool := false
  copier : CopyPc := .idle
  writer : WritePc := .idle
  /-- What each copy has staged. -/
  passes : List (List VariableReference) := []
  writes : List Write := []

/-- A thread takes its next step. -/
inductive SessionEvent where
  | copySimData (sim : Sim)
  | copyStep
  | writeData
  /-- `ok`: the connection takes a text. -/
  | writeStep (ok : Bool)

namespace SessionState

/-- A message is sent. -/
def send (s : SessionState) (m : Message) : SessionState :=
  { s with writes := s.writes.modifyHead fun w => { w with messages := w.messages ++ [m] } }

/-- `write_data` returns after the last message. -/
def finish (s : SessionState) : SessionState :=
  { s with
    writer := .idle
    writes := s.writes.modifyHead fun w => { w with complete := true } }

/-- `copy_sim_data` is called. -/
def copySimData (s : SessionState) (sim : Sim) : SessionState :=
  match s.copier with
  | .idle =>
    if s.sessionVariables = [] ∨ s.copyMutex = true then s
    else
      { s with
        copyMutex := true
        copier := .begin sim 0
        passes := s.passes ++ [s.sessionVariables.map (·.stageValue sim false)] }
  | _ => s

/-- The rest of `stageValue`. -/
def stageRest (sim : Sim) (v : VariableReference) : VariableReference :=
  ((v.reconnect sim).follow sim false).copy sim

/-- **One step of `copy_sim_data`.** -/
def copyStep (s : SessionState) : SessionState :=
  match s.copier with
  | .idle => s
  | .begin sim i =>
    if i < s.sessionVariables.length then
      { s with
        sessionVariables := s.sessionVariables.modify i ({ · with writeReady := false })
        copier := .rest sim i }
    else
      { s with
        copyMutex := false
        copier := .idle }
  | .rest sim i =>
    { s with
      sessionVariables := s.sessionVariables.modify i (stageRest sim)
      copier := .begin sim (i + 1) }

/-- `write_data` is called. -/
def writeData (s : SessionState) : SessionState :=
  match s.writer with
  | .idle =>
    if s.sessionVariables = [] ∨ s.copyMutex = true then s
    else
      { s with
        copyMutex := true
        writer := .checking 0 }
  | _ => s

/-- The text of the variable `i` is put into the stream. -/
def append (s : SessionState) (ok : Bool) (i : Nat) (a : WriteSettings.AsciiStream) (var : String) :
    SessionState :=
  match a.append var with
  | (none, a) => { s with writer := .testing (i + 1) a }
  | (some m, a) =>
    if ok then { s.send m with writer := .testing (i + 1) a } else { s with writer := .idle }

/-- The next packet. -/
def nextPacket (c : WriteSettings) (s : SessionState) : List (Nat × List Nat) → SessionState
  | [] => s.finish
  | b :: more => { s with writer := .writing (c.newPacket b.1 b.2) b.2 more }

/-- **One step of `write_data`.** -/
def writeStep (c : WriteSettings) (s : SessionState) (ok : Bool) : SessionState :=
  match s.writer with
  | .idle => s
  | .checking i =>
    match s.sessionVariables[i]? with
    | none => { s with writer := .swapping 0 }
    | some v =>
      if v.staged then { s with writer := .checking (i + 1) }
      else
        { s with
          copyMutex := false
          writer := .idle }
  | .swapping i =>
    if i < s.sessionVariables.length then
      { s with
        sessionVariables := s.sessionVariables.modify i (·.prepareForWrite)
        writer := .swapping (i + 1) }
    else
      { s with
        copyMutex := false
        writer := if c.binaryData then .sizing 0 (Packing.empty WriteSettings.headerSize)
          else .testing 0 c.newStream
        writes := { pass := s.passes.length - 1 } :: s.writes }
  | .sizing i p =>
    match s.sessionVariables[i]? with
    | none => s.nextPacket c p.finish
    | some v =>
      { s with writer := .sizing (i + 1) (p.add maxMsgLen WriteSettings.headerSize i (c.varSize v)) }
  | .writing p [] more => (s.send (.binary p)).nextPacket c more
  | .writing p (i :: vars) more =>
    match s.sessionVariables[i]? with
    | none => { s with writer := .writing p vars more }
    | some v => { s with writer := .value p (c.partHead v) i vars more }
  | .value p head i vars more =>
    match s.sessionVariables[i]? with
    | none => { s with writer := .writing p vars more }
    | some v => { s with writer := .writing { p with parts := p.parts ++ [c.part head v] } vars more }
  | .testing i a =>
    match s.sessionVariables[i]? with
    | none => if ok then (s.send (.ascii (a.text ++ "\n"))).finish else { s with writer := .idle }
    | some v => if v.writeReady then { s with writer := .rendering i a } else s.append ok i a ""
  | .rendering i a =>
    match s.sessionVariables[i]? with
    | none => { s with writer := .idle }
    | some v => s.append ok i a (c.text v)

/-- **One step.** -/
def step (c : WriteSettings) (s : SessionState) : SessionEvent → SessionState
  | .copySimData sim => s.copySimData sim
  | .copyStep => s.copyStep
  | .writeData => s.writeData
  | .writeStep ok => s.writeStep c ok

/-- A session whose variables have just been added. -/
def start (sim : Sim) (time : Address) (names : List Name) : SessionState where
  sessionVariables := names.map (VariableReference.varAdd sim time)

/-! ## The condition on the steps -/

/-- The variable `j` will be read by the write. -/
def Reads : WritePc → Nat → Prop
  | .sizing i p, j => i ≤ j ∨ j ∈ p.items
  | .writing _ vars more, j => j ∈ vars ∨ j ∈ more.flatMap Prod.snd
  | .value _ _ i vars more, j => j = i ∨ j ∈ vars ∨ j ∈ more.flatMap Prod.snd
  | .testing i _, j => i ≤ j
  | .rendering i _, j => i ≤ j
  | _, _ => False

/-- The variable `j` has to be ready. -/
def Tests : WritePc → Nat → Prop
  | .testing i _, j => i ≤ j
  | .rendering i _, j => i < j
  | _, _ => False

/-- The variable has the attributes and the size that it had at the last copy. -/
def Keeps (sim : Sim) (v : VariableReference) : Prop :=
  ((v.reconnect sim).follow sim false).varInfo.attr = v.varInfo.attr ∧
    ((v.reconnect sim).follow sim false).varInfo.numIndex = v.varInfo.numIndex ∧
      ((v.reconnect sim).follow sim false).sourceSize sim
        (((v.reconnect sim).follow sim false).source sim) = v.size

/-- **The condition on a step**: while a write is going on, no variable is staged that has to be tested,
    and none that will be read is given another size. -/
def EventOk (s : SessionState) : SessionEvent → Prop
  | .copyStep =>
    match s.copier with
    | .idle => True
    | .begin _ j => j < s.sessionVariables.length → ¬ Tests s.writer j
    | .rest sim j => Reads s.writer j → ∀ v ∈ s.sessionVariables[j]?, Keeps sim v
  | _ => True

instance (w : WritePc) (j : Nat) : Decidable (Reads w j) :=
  match w with
  | .sizing i p => inferInstanceAs (Decidable (i ≤ j ∨ j ∈ p.items))
  | .writing _ vars more => inferInstanceAs (Decidable (j ∈ vars ∨ j ∈ more.flatMap Prod.snd))
  | .value _ _ i vars more =>
    inferInstanceAs (Decidable (j = i ∨ j ∈ vars ∨ j ∈ more.flatMap Prod.snd))
  | .testing i _ => inferInstanceAs (Decidable (i ≤ j))
  | .rendering i _ => inferInstanceAs (Decidable (i ≤ j))
  | .idle | .checking _ | .swapping _ => inferInstanceAs (Decidable False)

instance (w : WritePc) (j : Nat) : Decidable (Tests w j) :=
  match w with
  | .testing i _ => inferInstanceAs (Decidable (i ≤ j))
  | .rendering i _ => inferInstanceAs (Decidable (i < j))
  | .idle | .checking _ | .swapping _ | .sizing _ _ | .writing _ _ _ | .value _ _ _ _ _ =>
    inferInstanceAs (Decidable False)

instance (sim : Sim) (v : VariableReference) : Decidable (Keeps sim v) :=
  inferInstanceAs (Decidable (_ ∧ _ ∧ _))

instance (s : SessionState) (e : SessionEvent) : Decidable (EventOk s e) :=
  match e with
  | .copySimData _ | .writeData | .writeStep _ => inferInstanceAs (Decidable True)
  | .copyStep =>
    match hc : s.copier with
    | .idle => decidable_of_iff True (by unfold EventOk; rw [hc])
    | .begin _ j => decidable_of_iff (j < s.sessionVariables.length → ¬ Tests s.writer j)
        (by unfold EventOk; rw [hc])
    | .rest sim j => decidable_of_iff (Reads s.writer j → ∀ v ∈ s.sessionVariables[j]?, Keeps sim v)
        (by unfold EventOk; rw [hc])

/-! ## The claim -/

/-- **A header is right**: it gives the size of the message, and as many bytes are in the stream as are
    sent. -/
def HeaderOk (c : WriteSettings) : Message → Prop
  | .ascii _ => True
  | .binary p => p.streamSize = p.size ∧ p.head = c.packetHead p.streamSize p.parts.length

instance (c : WriteSettings) (m : Message) : Decidable (HeaderOk c m) :=
  match m with
  | .ascii _ => inferInstanceAs (Decidable True)
  | .binary p => inferInstanceAs (Decidable
      (p.streamSize = p.size ∧ p.head = c.packetHead p.streamSize p.parts.length))

/-- What the copy of a write has staged, after the buffers have been swapped. -/
def snapshot (passes : List (List VariableReference)) (w : Write) : List VariableReference :=
  (passes.getD w.pass []).map (·.prepareForWrite)

/-- **A write is that of a copy**: its messages are those of what the copy has staged, all of them if the
    write is complete; no variable is empty; and the headers are right. -/
structure OfPass (c : WriteSettings) (passes : List (List VariableReference)) (w : Write) : Prop where
  pass : w.pass < passes.length
  messages : w.messages <+: c.messages (snapshot passes w)
  complete : w.complete = true → w.messages = c.messages (snapshot passes w)
  ready : ∀ v ∈ snapshot passes w, v.writeValueAscii c.fmt ≠ none
  headers : ∀ m ∈ w.messages, HeaderOk c m

end SessionState

end Trick.VarServer
