/-
  `TCPConnection::read`: commands out of a stream of bytes.

  The network delivers what the client has sent in pieces of any size, also between the two receives of
  one read.  A read peeks at the first `MAX_CMD_LEN` bytes that are there, and takes them up to the last
  newline among them.

  1. **The invariant** (`Framed`): the messages so far are groups of whole commands, and what is on the
     socket and in the network is the text of the others.

  2. **The crux** (`stream_prefix`): a beginning of the stream that ends with a newline is a number of
     whole commands.

  3. **Main result** (`framing`): no message has a part of a command in it, and when all that was delivered
     has been read, every command that was delivered whole has been returned once and in order.
-/
import Trick.Lib.Run
import Trick.Connections.ClientConnection

namespace Trick.Connections

open Trick.Lib

/-! ## The connection -/

/-- A connected socket, and what its reads have returned. -/
structure TCPConnection where
  /-- What the client has sent and the network has not delivered. -/
  inFlight : List UInt8
  /-- What is on the socket. -/
  socketData : List UInt8 := []
  /-- The non-empty messages that were returned. -/
  messages : List (List UInt8) := []

/-- What happens to a connection. -/
inductive TCPEvent where
  /-- So many bytes arrive. -/
  | deliver (n : Nat)
  /-- A read, with the bytes that arrive between its two receives. -/
  | read (between : Nat)

namespace TCPConnection

/-- So many bytes arrive. -/
def deliver (s : TCPConnection) (n : Nat) : TCPConnection :=
  { s with
    inFlight := s.inFlight.drop n
    socketData := s.socketData ++ s.inFlight.take n }

/-- `recv` without `MSG_PEEK`. -/
def recv (s : TCPConnection) (size : Nat) : List UInt8 × TCPConnection :=
  (s.socketData.take size, { s with socketData := s.socketData.drop size })

/-- **`read`**: the message, and the socket behind it.  Nothing on the socket, or the end of the stream, is
    an empty message. -/
def read (s : TCPConnection) (maxLen between : Nat) : List UInt8 × TCPConnection :=
  let incoming := s.socketData.take (min maxLen maxCmdLen)
  match sizeToNewline (cString incoming) with
  | some size =>
    let r := (s.deliver between).recv size
    (message r.1, r.2)
  | none => ([], s.deliver between)

/-- One event. -/
def step (s : TCPConnection) : TCPEvent → TCPConnection
  | .deliver n => s.deliver n
  | .read between =>
    let r := s.read maxCmdLen between
    if r.1 = [] then r.2 else { r.2 with messages := r.2.messages ++ [r.1] }

end TCPConnection

/-! ## Commands -/

/-- **A command**: a line and its newline, which a read can see as a whole. -/
structure Command where
  line : List UInt8
  noNewline : newline ∉ line
  noNul : 0 ∉ line
  short : line.length + 1 ≤ maxCmdLen

/-- The bytes of a command. -/
def Command.bytes (c : Command) : List UInt8 := c.line ++ [newline]

/-- The bytes of some commands. -/
def stream (cs : List Command) : List UInt8 := cs.flatMap Command.bytes

/-- The commands that are whole in the first `n` bytes. -/
def complete : List Command → Nat → List Command
  | [], _ => []
  | c :: cs, n => if c.bytes.length ≤ n then c :: complete cs (n - c.bytes.length) else []

theorem stream_cons (c : Command) (cs : List Command) : stream (c :: cs) = c.bytes ++ stream cs :=
  List.flatMap_cons

theorem stream_append (cs ds : List Command) : stream (cs ++ ds) = stream cs ++ stream ds :=
  List.flatMap_append

theorem Command.length_bytes (c : Command) : c.bytes.length = c.line.length + 1 := by
  unfold Command.bytes
  rw [List.length_append, List.length_singleton]

theorem noNul_stream (cs : List Command) : 0 ∉ stream cs := by
  intro h
  obtain ⟨c, -, hc⟩ := List.mem_flatMap.mp h
  rcases List.mem_append.mp hc with hc | hc
  · exact c.noNul hc
  · exact absurd (List.mem_singleton.mp hc) (by decide)

/-- **A beginning of the stream that ends with a newline** is a number of whole commands. -/
theorem stream_prefix {cs : List Command} {w rest : List UInt8} (h : stream cs = w ++ newline :: rest) :
    ∃ g ds, cs = g ++ ds ∧ g ≠ [] ∧ stream g = w ++ [newline] ∧ stream ds = rest := by
  induction cs generalizing w with
  | nil => exact absurd h.symm (List.append_ne_nil_of_right_ne_nil _ (List.cons_ne_nil _ _))
  | cons c cs ih =>
    rw [stream_cons, Command.bytes, List.append_assoc] at h
    rcases List.append_eq_append_iff.mp h with ⟨v, hw, hrest⟩ | ⟨v, hline, hrest⟩
    · -- the line of the first command is in front of the newline
      cases v with
      | nil =>
        rw [List.append_nil] at hw
        have htail : stream cs = rest := (List.cons.inj hrest).2
        refine ⟨[c], cs, rfl, List.cons_ne_nil _ _, ?_, htail⟩
        rw [stream_cons, hw]
        exact List.append_nil _
      | cons b v =>
        obtain ⟨hb, htail⟩ := List.cons.inj hrest
        have htail : stream cs = v ++ newline :: rest := htail
        obtain ⟨g, ds, rfl, -, hg, hds⟩ := ih htail
        refine ⟨c :: g, ds, rfl, List.cons_ne_nil _ _, ?_, hds⟩
        rw [stream_cons, hg, hw, ← hb, Command.bytes, List.append_assoc, List.append_assoc]
        rfl
    · -- the newline would be in the line
      cases v with
      | nil =>
        rw [List.append_nil] at hline
        rw [List.nil_append] at hrest
        have htail : rest = stream cs := (List.cons.inj hrest).2
        refine ⟨[c], cs, rfl, List.cons_ne_nil _ _, ?_, htail.symm⟩
        rw [stream_cons, ← hline]
        exact List.append_nil _
      | cons b v =>
        have hb : newline = b := (List.cons.inj hrest).1
        exact absurd (hline ▸ hb ▸ List.mem_append_right w List.mem_cons_self) c.noNewline

/-- The whole commands behind some others. -/
theorem complete_append (g ds : List Command) {n : Nat} (h : (stream g).length ≤ n) :
    complete (g ++ ds) n = g ++ complete ds (n - (stream g).length) := by
  induction g generalizing n with
  | nil => rfl
  | cons c g ih =>
    rw [stream_cons, List.length_append] at h ⊢
    show (if c.bytes.length ≤ n then c :: complete (g ++ ds) (n - c.bytes.length) else []) = _
    rw [if_pos (by omega), ih (by omega), Nat.sub_sub]
    rfl

/-! ## The invariant -/

namespace TCPConnection

/-- A client that is going to send some commands. -/
def start (cs : List Command) : TCPConnection := { inFlight := stream cs }

/-- **The messages so far** are the groups `gs` of whole commands; the commands `ds` are on the socket and
    in the network. -/
structure Framed (gs : List (List Command)) (ds : List Command) (s : TCPConnection) : Prop where
  messages : s.messages = gs.map fun g => message (stream g)
  whole : ∀ g ∈ gs, g ≠ []
  rest : stream ds = s.socketData ++ s.inFlight

variable {gs : List (List Command)} {ds : List Command} {s : TCPConnection}

theorem Framed.deliver (h : Framed gs ds s) (n : Nat) : Framed gs ds (s.deliver n) := by
  refine ⟨h.messages, h.whole, ?_⟩
  show stream ds = s.socketData ++ s.inFlight.take n ++ s.inFlight.drop n
  rw [List.append_assoc, List.take_append_drop, h.rest]

/-- **A read** takes a group of whole commands off the socket, or there is no newline in its sight. -/
theorem Framed.read (h : Framed gs ds s) (between : Nat) :
    (∃ g ds', ds = g ++ ds' ∧ g ≠ [] ∧ (stream g).length ≤ s.socketData.length ∧
      Framed (gs ++ [g]) ds' (s.step (.read between)) ∧
      (s.step (.read between)).inFlight = s.inFlight.drop between) ∨
    (newline ∉ s.socketData.take maxCmdLen ∧ s.step (.read between) = s.deliver between) := by
  have hnul : 0 ∉ s.socketData.take maxCmdLen := by
    intro hz
    apply noNul_stream ds
    rw [h.rest]
    exact List.mem_append_left _ (List.mem_of_mem_take hz)
  have hwindow : cString (s.socketData.take (min maxCmdLen maxCmdLen)) = s.socketData.take maxCmdLen := by
    rw [Nat.min_self, cString_of_noNul hnul]
  cases hsize : sizeToNewline (s.socketData.take maxCmdLen) with
  | none =>
    right
    refine ⟨sizeToNewline_eq_none.mp hsize, ?_⟩
    show (if (s.read maxCmdLen between).1 = [] then _ else _) = _
    have hread : s.read maxCmdLen between = ([], s.deliver between) := by
      unfold TCPConnection.read
      simp only [hwindow, hsize]
    rw [hread, if_pos rfl]
  | some size =>
    left
    obtain ⟨w, rest, hw, rfl, -⟩ := sizeToNewline_eq_some hsize
    have hdata : s.socketData = w ++ newline :: (rest ++ s.socketData.drop maxCmdLen) := by
      conv_lhs => rw [← List.take_append_drop maxCmdLen s.socketData, hw]
      rw [List.append_assoc]
      rfl
    have hds : stream ds = w ++ newline :: (rest ++ s.socketData.drop maxCmdLen ++ s.inFlight) := by
      rw [h.rest]
      conv_lhs => rw [hdata]
      rw [List.append_assoc]
      rfl
    obtain ⟨g, ds', rfl, hg, hstream, hrest⟩ := stream_prefix hds
    have hlen : (stream g).length = w.length + 1 := by rw [hstream, List.length_append, List.length_singleton]
    have hsplit : s.socketData = stream g ++ (rest ++ s.socketData.drop maxCmdLen) := by
      rw [hstream, List.append_assoc]
      exact hdata
    have hmsg : message (stream g) ≠ [] := by
      apply message_ne_nil
      rw [hstream]
      exact List.append_ne_nil_of_right_ne_nil _ (List.cons_ne_nil _ _)
    have hread : s.read maxCmdLen between = (message (stream g), { s.deliver between with
        socketData := rest ++ s.socketData.drop maxCmdLen ++ s.inFlight.take between }) := by
      have htake : (s.deliver between).socketData =
          stream g ++ (rest ++ s.socketData.drop maxCmdLen ++ s.inFlight.take between) := by
        show s.socketData ++ s.inFlight.take between = _
        conv_lhs => rw [hsplit]
        rw [List.append_assoc]
      unfold TCPConnection.read recv
      simp only [hwindow, hsize]
      rw [htake, ← hlen, List.take_left, List.drop_left]
    have hstep : s.step (.read between) = { s.deliver between with
        socketData := rest ++ s.socketData.drop maxCmdLen ++ s.inFlight.take between
        messages := s.messages ++ [message (stream g)] } := by
      show (if (s.read maxCmdLen between).1 = [] then _ else _) = _
      rw [hread, if_neg hmsg]
      rfl
    refine ⟨g, ds', rfl, hg, ?_, ?_, ?_⟩
    · rw [hsplit, List.length_append]
      omega
    · rw [hstep]
      refine ⟨?_, ?_, ?_⟩
      · show s.messages ++ _ = _
        rw [h.messages, List.map_append]
        rfl
      · intro g' hg'
        rcases List.mem_append.mp hg' with hg' | hg'
        · exact h.whole g' hg'
        · rw [List.mem_singleton.mp hg']
          exact hg
      · show stream ds' = rest ++ s.socketData.drop maxCmdLen ++ s.inFlight.take between ++ s.inFlight.drop between
        rw [hrest, List.append_assoc _ (s.inFlight.take between), List.take_append_drop]
    · rw [hstep]
      rfl

/-! ## Runs -/

/-- How many bytes of the commands the network has delivered. -/
def delivered (cs : List Command) (s : TCPConnection) : Nat := (stream cs).length - s.inFlight.length

/-- **The commands are framed**: some groups of them are the messages, in order. -/
def FramedAs (cs : List Command) (gs : List (List Command)) (s : TCPConnection) : Prop :=
  ∃ ds, cs = gs.flatten ++ ds ∧ Framed gs ds s

variable {cs : List Command}

theorem framedAs_start (cs : List Command) : FramedAs cs [] (start cs) :=
  ⟨cs, rfl, rfl, fun _ h => (nomatch h), rfl⟩

theorem FramedAs.afterStep (h : FramedAs cs gs s) (e : TCPEvent) :
    ∃ gs', FramedAs cs (gs ++ gs') (s.step e) := by
  obtain ⟨ds, hcs, hframed⟩ := h
  cases e with
  | deliver n => exact ⟨[], ds, by rw [List.append_nil]; exact hcs, by rw [List.append_nil]; exact hframed.deliver n⟩
  | read between =>
    rcases hframed.read between with ⟨g, ds', rfl, -, -, hread, -⟩ | ⟨-, hread⟩
    · refine ⟨[g], ds', ?_, hread⟩
      rw [hcs, List.flatten_append, List.flatten_singleton, List.append_assoc]
    · rw [hread]
      exact ⟨[], ds, by rw [List.append_nil]; exact hcs, by rw [List.append_nil]; exact hframed.deliver between⟩

theorem FramedAs.afterRun (h : FramedAs cs gs s) (es : List TCPEvent) :
    ∃ gs', FramedAs cs (gs ++ gs') (run TCPConnection.step s es) := by
  induction es generalizing gs s with
  | nil => exact ⟨[], by rw [List.append_nil]; exact h⟩
  | cons e es ih =>
    obtain ⟨g, hstep⟩ := h.afterStep e
    obtain ⟨gs', hrun⟩ := ih hstep
    exact ⟨g ++ gs', by rw [← List.append_assoc]; exact hrun⟩

/-- What has been returned and what is on the socket has been delivered. -/
theorem FramedAs.delivered_eq (h : FramedAs cs gs s) :
    delivered cs s = (stream gs.flatten).length + s.socketData.length := by
  obtain ⟨ds, hcs, hframed⟩ := h
  unfold delivered
  rw [hcs, stream_append, hframed.rest, List.length_append, List.length_append]
  omega

/-- The whole commands are the returned ones and those on the socket. -/
theorem complete_delivered (h : FramedAs cs gs s) {ds : List Command} (hcs : cs = gs.flatten ++ ds) :
    complete cs (delivered cs s) = gs.flatten ++ complete ds s.socketData.length := by
  have hle : (stream gs.flatten).length ≤ delivered cs s := by
    rw [h.delivered_eq]
    exact Nat.le_add_right _ _
  have hrest : delivered cs s - (stream gs.flatten).length = s.socketData.length := by
    rw [h.delivered_eq, Nat.add_sub_cancel_left]
  generalize delivered cs s = n at hle hrest ⊢
  rw [hcs, complete_append gs.flatten ds hle, hrest]

/-- **A read makes progress** while a whole command is on the socket. -/
theorem Framed.sees (h : Framed gs ds s) (hne : complete ds s.socketData.length ≠ []) :
    newline ∈ s.socketData.take maxCmdLen := by
  cases ds with
  | nil => exact absurd rfl hne
  | cons c ds =>
    have hfits : c.bytes.length ≤ s.socketData.length := by
      by_contra hno
      apply hne
      exact if_neg hno
    have hprefix : c.bytes <+: s.socketData := by
      have hstream : c.bytes <+: s.socketData ++ s.inFlight := by
        rw [← h.rest, stream_cons]
        exact List.prefix_append _ _
      exact List.prefix_of_prefix_length_le hstream (List.prefix_append _ _) hfits
    obtain ⟨t, ht⟩ := hprefix
    have hshort : c.bytes.length ≤ maxCmdLen := by
      rw [c.length_bytes]
      exact c.short
    rw [← ht, List.take_append, List.take_of_length_le hshort]
    exact List.mem_append_left _ (List.mem_append_right _ (List.mem_singleton.mpr rfl))

/-- **Reading on** while nothing more arrives: a read for each whole command is enough. -/
theorem FramedAs.readAll (h : FramedAs cs gs s) {n : Nat}
    (hn : (complete cs (delivered cs s)).length ≤ gs.flatten.length + n) :
    ∃ gs', FramedAs cs gs' (run TCPConnection.step s (List.replicate n (.read 0))) ∧
      gs'.flatten = complete cs (delivered cs s) := by
  induction n generalizing gs s with
  | zero =>
    obtain ⟨ds, hcs, -⟩ := id h
    have hall := complete_delivered h hcs
    rw [hall, List.length_append] at hn
    have hnone : complete ds s.socketData.length = [] := List.eq_nil_of_length_eq_zero (by omega)
    rw [hnone, List.append_nil] at hall
    exact ⟨gs, h, hall.symm⟩
  | succ n ih =>
    obtain ⟨ds, hcs, hframed⟩ := id h
    have hall := complete_delivered h hcs
    rw [List.replicate_succ, run_cons]
    rcases hframed.read 0 with ⟨g, ds', rfl, hg, -, hread, hflight⟩ | ⟨hno, hread⟩
    · have hnext : FramedAs cs (gs ++ [g]) (s.step (.read 0)) := by
        refine ⟨ds', ?_, hread⟩
        rw [hcs, List.flatten_append, List.flatten_singleton, List.append_assoc]
      have hsame : delivered cs (s.step (.read 0)) = delivered cs s := by
        unfold delivered
        rw [hflight, List.drop_zero]
      have hlen : (gs ++ [g]).flatten.length = gs.flatten.length + g.length := by
        rw [List.flatten_append, List.flatten_singleton, List.length_append]
      have hpos : 0 < g.length := List.length_pos_iff.mpr hg
      have hrest := ih hnext (by rw [hsame, hlen]; omega)
      rw [hsame] at hrest
      exact hrest
    · -- there is no whole command left
      have hnone : complete ds s.socketData.length = [] := by
        by_contra hne
        exact hno (hframed.sees hne)
      rw [hnone, List.append_nil] at hall
      have hsame : delivered cs (s.step (.read 0)) = delivered cs s := by
        rw [hread]
        rfl
      have hnext : FramedAs cs gs (s.step (.read 0)) := by
        rw [hread]
        exact ⟨ds, hcs, hframed.deliver 0⟩
      have hrest := ih hnext (by rw [hsame, hall]; omega)
      rw [hsame] at hrest
      exact hrest

/-- **Framing.**  In every run each message is a group of whole commands, and the groups together are the
    first of those that have been delivered whole, in order and each once; when as many reads follow as
    there are such commands, they are all of them. -/
theorem framing (cs : List Command) (es : List TCPEvent) :
    (∃ gs : List (List Command),
      (run step (start cs) es).messages = gs.map (fun g => message (stream g)) ∧
      (∀ g ∈ gs, g ≠ []) ∧ gs.flatten <+: complete cs (delivered cs (run step (start cs) es))) ∧
    ∀ n, (complete cs (delivered cs (run step (start cs) es))).length ≤ n →
      ∃ gs : List (List Command),
        (run step (start cs) (es ++ List.replicate n (.read 0))).messages =
          gs.map (fun g => message (stream g)) ∧
        (∀ g ∈ gs, g ≠ []) ∧ gs.flatten = complete cs (delivered cs (run step (start cs) es)) := by
  obtain ⟨gs, h⟩ := (framedAs_start cs).afterRun es
  rw [List.nil_append] at h
  refine ⟨?_, ?_⟩
  · obtain ⟨ds, hcs, hframed⟩ := id h
    refine ⟨gs, hframed.messages, hframed.whole, ?_⟩
    rw [complete_delivered h hcs]
    exact List.prefix_append _ _
  · intro n hn
    obtain ⟨gs', h', hall⟩ := h.readAll (n := n) (by omega)
    rw [← run_append] at h'
    obtain ⟨ds, -, hframed⟩ := h'
    exact ⟨gs', hframed.messages, hframed.whole, hall⟩

/-- The command `a`. -/
def commandA : Command where
  line := [97]
  noNewline := by decide
  noNul := by decide
  short := by decide

/-- The message of a command is the command and a NUL, which is in no command. -/
theorem message_hasNul :
    (run step (start [commandA]) [.deliver 2, .read 0]).messages = [[97, 10, 0]] ∧
      ¬ ∃ g : List Command, [97, 10, 0] = (stream g).filter (· ≠ carriageReturn) := by
  refine ⟨by decide +kernel, ?_⟩
  rintro ⟨g, hg⟩
  have hzero : (0 : UInt8) ∈ (stream g).filter (· ≠ carriageReturn) := by
    rw [← hg]
    decide
  exact noNul_stream g (List.mem_filter.mp hzero).1

end TCPConnection

end Trick.Connections
