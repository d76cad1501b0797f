/-
  `UDPConnection::read`: commands out of a queue of datagrams.

  A read peeks at the first datagram and looks for the last newline in it.  If there is one, a second
  receive takes the bytes up to it, and the system drops what is behind it with the datagram.  If there is
  none, or if the datagram is empty, nothing is received: the datagram stays at the head of the queue, and
  every later read sees it again.

  `removed` of the state is not the source's: it keeps the datagrams that a read has taken off the queue,
  each with the message that was returned for it.

  1. **The first datagram decides** (`read_removable`, `read_stuck`).

  2. **Main result** (`delivered_iff`): every datagram that ends in a newline is returned, whole and in
     order, exactly when each of them comes behind datagrams with a line only, and has no NUL.
-/
import Trick.Lib.Run
import Trick.Connections.ClientConnection

namespace Trick.Connections

open Trick.Lib

/-! ## The connection -/

/-- **A datagram**, as long as a read can see. -/
structure Datagram where
  bytes : List UInt8
  short : bytes.length ≤ maxCmdLen

/-- A socket, and what the reads have taken off it. -/
structure UDPConnection where
  started : Bool := true
  queue : List Datagram := []
  removed : List (Datagram × List UInt8) := []

/-- What happens to a connection. -/
inductive UDPEvent where
  | receive (d : Datagram)
  | read

/-- Where the line of a datagram ends that a read returns. -/
def Datagram.lineSize (d : Datagram) : Option Nat := sizeToNewline (cString (d.bytes.take maxCmdLen))

namespace UDPConnection

/-- **`read`**: the message, and the socket behind it. -/
def read (s : UDPConnection) : List UInt8 × UDPConnection :=
  match s.queue with
  | [] => ([], s)
  | d :: queue =>
    match d.lineSize with
    | some size =>
      let m := message (d.bytes.take size)
      (m, { s with queue := queue, removed := s.removed ++ [(d, m)] })
    | none => ([], s)

/-- One event. -/
def step (s : UDPConnection) : UDPEvent → UDPConnection
  | .receive d => { s with queue := s.queue ++ [d] }
  | .read => if s.started = true then s.read.2 else s

/-- The datagrams that have arrived, in order. -/
def received : List UDPEvent → List Datagram
  | [] => []
  | .receive d :: es => d :: received es
  | .read :: es => received es

end UDPConnection

/-! ## Datagrams -/

/-- The datagram ends in a newline. -/
def Datagram.EndsInNewline (d : Datagram) : Prop := d.bytes.getLast? = some newline

instance (d : Datagram) : Decidable d.EndsInNewline :=
  inferInstanceAs (Decidable (d.bytes.getLast? = some newline))

/-- The datagram has a newline in front of the first NUL. -/
def Datagram.HasLine (d : Datagram) : Prop := newline ∈ cString d.bytes

instance (d : Datagram) : Decidable d.HasLine := inferInstanceAs (Decidable (newline ∈ cString d.bytes))

theorem Datagram.lineSize_eq (d : Datagram) : d.lineSize = sizeToNewline (cString d.bytes) := by
  unfold lineSize
  rw [List.take_of_length_le d.short]

/-- The message for a datagram that is taken off the queue. -/
def Datagram.returned (d : Datagram) : List UInt8 := message (d.bytes.take (d.lineSize.getD 0))

/-- Without a NUL, a datagram that ends in a newline is returned whole. -/
theorem Datagram.returned_whole {d : Datagram} (h : d.EndsInNewline) (hnul : 0 ∉ d.bytes) :
    d.returned = message d.bytes := by
  unfold returned
  rw [d.lineSize_eq, cString_of_noNul hnul]
  obtain ⟨w, hw⟩ := List.getLast?_eq_some_iff.mp h
  cases hsize : sizeToNewline d.bytes with
  | none =>
    have hno := sizeToNewline_eq_none.mp hsize
    exact absurd (hw ▸ List.mem_append_right w (List.mem_singleton.mpr rfl)) hno
  | some n =>
    obtain ⟨v, rest, hv, rfl, hno⟩ := sizeToNewline_eq_some hsize
    have hnil : rest = [] := by
      cases hrest : rest.getLast? with
      | none => exact List.getLast?_eq_none_iff.mp hrest
      | some b =>
        -- the last byte would be a newline behind the last newline
        have hlast : d.bytes.getLast? = some b := by
          rw [hv, List.getLast?_append, List.getLast?_cons, hrest]
          rfl
        have hb : b = newline := Option.some.inj (hlast.symm.trans h)
        exact absurd (hb ▸ List.mem_of_getLast? hrest) hno
    show message (d.bytes.take (v.length + 1)) = message d.bytes
    rw [List.take_of_length_le]
    rw [hv, hnil, List.length_append, List.length_singleton]

theorem zero_notMem_cString (l : List UInt8) : 0 ∉ cString l := by
  intro h
  have hne := List.mem_takeWhile_imp (p := fun b : UInt8 => decide (b ≠ 0)) h
  exact absurd hne (by decide)

/-- A datagram with a line is returned up to its last newline, and that is in front of any NUL. -/
theorem Datagram.lineSize_some {d : Datagram} (h : d.HasLine) :
    ∃ n, d.lineSize = some n ∧ 0 ∉ d.bytes.take n ∧ d.bytes.take n ≠ [] := by
  rw [d.lineSize_eq]
  cases hsize : sizeToNewline (cString d.bytes) with
  | none => exact absurd h (sizeToNewline_eq_none.mp hsize)
  | some n =>
    obtain ⟨w, rest, hw, rfl, -⟩ := sizeToNewline_eq_some hsize
    have hprefix : w ++ [newline] <+: d.bytes := by
      have hline : w ++ [newline] <+: cString d.bytes := ⟨rest, by rw [hw, List.append_assoc]; rfl⟩
      exact hline.trans (List.takeWhile_prefix _)
    have htake : d.bytes.take (w.length + 1) = w ++ [newline] := by
      have hlen : (w ++ [newline]).length = w.length + 1 := by rw [List.length_append, List.length_singleton]
      rw [← hlen]
      exact (List.prefix_iff_eq_take.mp hprefix).symm
    refine ⟨w.length + 1, rfl, ?_, ?_⟩
    · rw [htake]
      intro hz
      apply zero_notMem_cString d.bytes
      rw [hw]
      rcases List.mem_append.mp hz with hz | hz
      · exact List.mem_append_left _ hz
      · exact absurd (List.mem_singleton.mp hz) (by decide)
    · rw [htake]
      exact List.append_ne_nil_of_right_ne_nil _ (List.cons_ne_nil _ _)

/-- The NULs of a message: those of the bytes, and the one behind them. -/
theorem count_zero_message {l : List UInt8} (h : l ≠ []) : (message l).count 0 = l.count 0 + 1 := by
  unfold message
  rw [if_neg h, List.count_filter (by decide), List.count_append]
  rfl

/-- **With a NUL in it, a datagram is not returned whole.** -/
theorem Datagram.returned_cut {d : Datagram} (h : d.HasLine) (hnul : 0 ∈ d.bytes) :
    d.returned ≠ message d.bytes := by
  obtain ⟨n, hn, hfree, hne⟩ := d.lineSize_some h
  intro heq
  have hcount := congrArg (List.count 0) heq
  unfold returned at hcount
  rw [hn] at hcount
  rw [Option.getD_some, count_zero_message hne, count_zero_message (List.ne_nil_of_mem hnul),
    List.count_eq_zero.mpr hfree] at hcount
  have hpos : 0 < d.bytes.count 0 := List.count_pos_iff.mpr hnul
  omega

/-! ## Reads -/

namespace UDPConnection

variable {s : UDPConnection} {ds gone : List Datagram}

/-- **The datagrams `gone` have been taken off the queue** of those that arrived. -/
structure Queued (ds gone : List Datagram) (s : UDPConnection) : Prop where
  started : s.started = true
  arrived : ds = gone ++ s.queue
  removed : s.removed = gone.map fun d => (d, d.returned)
  lines : ∀ d ∈ gone, d.HasLine

/-- A datagram with a line is taken off the queue. -/
theorem read_removable {d : Datagram} {queue : List Datagram} (hq : s.queue = d :: queue) (h : d.HasLine) :
    s.read.2 = { s with queue := queue, removed := s.removed ++ [(d, d.returned)] } := by
  obtain ⟨n, hn, -, -⟩ := d.lineSize_some h
  unfold read Datagram.returned
  rw [hq]
  simp only [hn, Option.getD_some]

/-- Any other datagram stays, and everything behind it. -/
theorem read_stuck {d : Datagram} {queue : List Datagram} (hq : s.queue = d :: queue) (h : ¬ d.HasLine) :
    s.read.2 = s := by
  have hnone : d.lineSize = none := by
    rw [d.lineSize_eq]
    exact sizeToNewline_eq_none.mpr h
  unfold read
  rw [hq]
  simp only [hnone]

theorem step_nil (hq : s.queue = []) : s.step .read = s := by
  have hread : s.read.2 = s := by
    unfold read
    rw [hq]
  show (if s.started = true then s.read.2 else s) = s
  rw [hread, ite_self]

theorem step_stuck {d : Datagram} {queue : List Datagram} (hq : s.queue = d :: queue) (h : ¬ d.HasLine) :
    s.step .read = s := by
  show (if s.started = true then s.read.2 else s) = s
  rw [read_stuck hq h, ite_self]

/-- **Blocked for good**: no number of reads gets past a datagram without a line. -/
theorem run_stuck {d : Datagram} {queue : List Datagram} (hq : s.queue = d :: queue) (h : ¬ d.HasLine)
    (n : Nat) : run step s (List.replicate n .read) = s := by
  induction n with
  | zero => rfl
  | succ n ih => rw [List.replicate_succ, run_cons, step_stuck hq h, ih]

theorem Queued.removeHead (h : Queued ds gone s) {d : Datagram} {queue : List Datagram}
    (hq : s.queue = d :: queue) (hline : d.HasLine) :
    Queued ds (gone ++ [d]) (s.step .read) ∧ (s.step .read).queue = queue := by
  have hstep : s.step .read = { s with queue := queue, removed := s.removed ++ [(d, d.returned)] } := by
    show (if s.started = true then s.read.2 else s) = _
    rw [if_pos h.started, read_removable hq hline]
  rw [hstep]
  refine ⟨⟨h.started, ?_, ?_, ?_⟩, rfl⟩
  · rw [h.arrived, hq, List.append_assoc]
    rfl
  · show s.removed ++ _ = _
    rw [h.removed, List.map_append]
    rfl
  · intro e he
    rcases List.mem_append.mp he with he | he
    · exact h.lines e he
    · rw [List.mem_singleton.mp he]
      exact hline

theorem Queued.read (h : Queued ds gone s) : ∃ gone', Queued ds gone' (s.step .read) := by
  cases hq : s.queue with
  | nil => exact ⟨gone, by rw [step_nil hq]; exact h⟩
  | cons d queue =>
    by_cases hline : d.HasLine
    · exact ⟨gone ++ [d], (h.removeHead hq hline).1⟩
    · exact ⟨gone, by rw [step_stuck hq hline]; exact h⟩

theorem Queued.receive (h : Queued ds gone s) (d : Datagram) :
    Queued (ds ++ [d]) gone (s.step (.receive d)) :=
  ⟨h.started, by rw [h.arrived, List.append_assoc]; rfl, h.removed, h.lines⟩

theorem Queued.run (h : Queued ds gone s) (es : List UDPEvent) :
    ∃ gone', Queued (ds ++ received es) gone' (Lib.run step s es) := by
  induction es generalizing ds gone s with
  | nil => exact ⟨gone, by rw [received, List.append_nil]; exact h⟩
  | cons e es ih =>
    cases e with
    | receive d =>
      obtain ⟨gone', h'⟩ := ih (h.receive d)
      exact ⟨gone', by rw [List.append_assoc] at h'; exact h'⟩
    | read =>
      obtain ⟨gone₁, h₁⟩ := h.read
      exact ih h₁

/-- **Reading on**: what is taken off are the datagrams up to the first one without a line. -/
theorem Queued.readAll (h : Queued ds gone s) {n : Nat} (hn : s.queue.length ≤ n) :
    Queued ds (ds.takeWhile fun d => decide d.HasLine) (Lib.run step s (List.replicate n .read)) := by
  induction n generalizing gone s with
  | zero =>
    have hnil : s.queue = [] := List.eq_nil_of_length_eq_zero (by omega)
    have hds : ds = gone := by rw [h.arrived, hnil, List.append_nil]
    rw [hds, List.takeWhile_eq_self_iff.mpr fun d hd => decide_eq_true (h.lines d hd)]
    rw [hds] at h
    exact h
  | succ n ih =>
    cases hq : s.queue with
    | nil =>
      rw [List.replicate_succ, run_cons, step_nil hq]
      exact ih h (by rw [hq]; exact Nat.zero_le n)
    | cons d queue =>
      by_cases hline : d.HasLine
      · obtain ⟨hnext, hqueue⟩ := h.removeHead hq hline
        rw [List.replicate_succ, run_cons]
        apply ih hnext
        rw [hqueue]
        rw [hq, List.length_cons] at hn
        omega
      · rw [run_stuck hq hline]
        have htake : (ds.takeWhile fun d => decide d.HasLine) = gone := by
          rw [h.arrived, hq, List.takeWhile_append_of_pos fun e he => decide_eq_true (h.lines e he),
            List.takeWhile_cons_of_neg (by rw [decide_eq_true_eq]; exact hline), List.append_nil]
        rw [htake]
        exact h

/-! ## Which datagrams are delivered -/

/-- **After enough reads** every datagram that ends in a newline has been returned, whole and in order. -/
def Delivers (es : List UDPEvent) : Prop :=
  ∃ enough, ∀ n, enough ≤ n →
    (run step {} (es ++ List.replicate n .read)).removed.filter (fun p => decide p.1.EndsInNewline) =
      ((received es).filter fun d => decide d.EndsInNewline).map fun d => (d, message d.bytes)

/-- **Nothing blocks the datagrams that end in a newline**: those in front of them have a line, and they
    have no NUL. -/
def Unblocked (ds : List Datagram) : Prop :=
  ∀ front d back, ds = front ++ d :: back → d.EndsInNewline → (∀ e ∈ front, e.HasLine) ∧ 0 ∉ d.bytes

theorem removed_eventually (es : List UDPEvent) : ∃ enough, ∀ n, enough ≤ n →
    (run step {} (es ++ List.replicate n .read)).removed =
      ((received es).takeWhile fun d => decide d.HasLine).map fun d => (d, d.returned) := by
  have hstart : Queued [] [] ({} : UDPConnection) := ⟨rfl, rfl, rfl, fun _ h => (nomatch h)⟩
  obtain ⟨gone, h⟩ := hstart.run es
  refine ⟨(run step {} es).queue.length, ?_⟩
  intro n hn
  rw [run_append]
  exact (h.readAll hn).removed

/-- The first datagram without a line, if there is one. -/
theorem blocked_cases (ds : List Datagram) :
    (∀ d ∈ ds, d.HasLine) ∨
      ∃ front e back, ds = front ++ e :: back ∧ (∀ d ∈ front, d.HasLine) ∧ ¬ e.HasLine := by
  induction ds with
  | nil => exact Or.inl fun _ h => (nomatch h)
  | cons d ds ih =>
    by_cases hd : d.HasLine
    · rcases ih with hall | ⟨front, e, back, rfl, hfront, he⟩
      · left
        intro x hx
        rcases List.mem_cons.mp hx with rfl | hx
        · exact hd
        · exact hall x hx
      · right
        refine ⟨d :: front, e, back, rfl, ?_, he⟩
        intro x hx
        rcases List.mem_cons.mp hx with rfl | hx
        · exact hd
        · exact hfront x hx
    · exact Or.inr ⟨[], d, ds, rfl, fun _ h => (nomatch h), hd⟩

theorem hasLine_of_endsInNewline {d : Datagram} (h : d.EndsInNewline) (hnul : 0 ∉ d.bytes) : d.HasLine := by
  unfold Datagram.HasLine
  rw [cString_of_noNul hnul]
  exact List.mem_of_getLast? h

/-- A datagram with a line is returned whole if and only if it has no NUL. -/
theorem returned_eq_iff {d : Datagram} (h : d.EndsInNewline) (hline : d.HasLine) :
    d.returned = message d.bytes ↔ 0 ∉ d.bytes :=
  ⟨fun heq hnul => Datagram.returned_cut hline hnul heq, Datagram.returned_whole h⟩

/-- **What is returned in the end** is what ends in a newline, whole, if and only if nothing blocks it. -/
theorem returned_iff (ds : List Datagram) :
    (((ds.takeWhile fun d => decide d.HasLine).filter fun d => decide d.EndsInNewline).map
        fun d => (d, d.returned)) =
      ((ds.filter fun d => decide d.EndsInNewline).map fun d => (d, message d.bytes)) ↔ Unblocked ds := by
  rcases blocked_cases ds with hall | ⟨front, e, back, rfl, hfront, he⟩
  · -- every datagram is taken off
    rw [List.takeWhile_eq_self_iff.mpr fun d hd => decide_eq_true (hall d hd), List.map_inj_left]
    constructor
    · intro heq before d behind hds hends
      have hd : d ∈ ds := hds ▸ List.mem_append_right before List.mem_cons_self
      refine ⟨fun x hx => hall x (hds ▸ List.mem_append_left _ hx), ?_⟩
      have hpair := heq d (List.mem_filter.mpr ⟨hd, decide_eq_true hends⟩)
      exact (returned_eq_iff hends (hall d hd)).mp (congrArg Prod.snd hpair)
    · intro h d hd
      obtain ⟨hd, hends⟩ := List.mem_filter.mp hd
      have hends : d.EndsInNewline := of_decide_eq_true hends
      obtain ⟨before, behind, hds⟩ := List.append_of_mem hd
      rw [(returned_eq_iff hends (hall d hd)).mpr (h before d behind hds hends).2]
  · have htake : ((front ++ e :: back).takeWhile fun d => decide d.HasLine) = front := by
      rw [List.takeWhile_append_of_pos fun d hd => decide_eq_true (hfront d hd),
        List.takeWhile_cons_of_neg (by rw [decide_eq_true_eq]; exact he), List.append_nil]
    rw [htake, List.filter_append, List.map_append]
    constructor
    · intro heq
      -- there is nothing on the left for a datagram that stays
      have hlen := congrArg List.length heq
      simp only [List.length_append, List.length_map] at hlen
      have hnone : ((e :: back).filter fun d => decide d.EndsInNewline) = [] :=
        List.eq_nil_of_length_eq_zero (by omega)
      rw [hnone, List.map_nil, List.append_nil, List.map_inj_left] at heq
      have hstays : ∀ d ∈ e :: back, ¬ d.EndsInNewline := by
        intro d hd hends
        exact List.filter_eq_nil_iff.mp hnone d hd (decide_eq_true hends)
      intro before d behind hds hends
      rcases List.append_eq_append_iff.mp hds with ⟨v, -, hv⟩ | ⟨v, hbefore, hv⟩
      · exact absurd hends (hstays d (hv ▸ List.mem_append_right v List.mem_cons_self))
      · cases v with
        | nil =>
          rw [List.nil_append] at hv
          exact absurd hends (hstays d (hv ▸ List.mem_cons_self))
        | cons x v =>
          have hx : d = x := (List.cons.inj hv).1
          have hd : d ∈ front := by
            rw [hbefore, hx]
            exact List.mem_append_right _ List.mem_cons_self
          refine ⟨fun y hy => hfront y (hbefore ▸ List.mem_append_left _ hy), ?_⟩
          have hpair := heq d (List.mem_filter.mpr ⟨hd, decide_eq_true hends⟩)
          exact (returned_eq_iff hends (hfront d hd)).mp (congrArg Prod.snd hpair)
    · intro h
      have hstays : ∀ d ∈ e :: back, ¬ d.EndsInNewline := by
        intro d hd hends
        rcases List.mem_cons.mp hd with rfl | hd
        · exact he (hasLine_of_endsInNewline hends (h front d back rfl hends).2)
        · obtain ⟨u, v, rfl⟩ := List.append_of_mem hd
          have hds : front ++ e :: (u ++ d :: v) = (front ++ e :: u) ++ d :: v := by
            rw [List.append_assoc]
            rfl
          exact he ((h (front ++ e :: u) d v hds hends).1 e (List.mem_append_right _ List.mem_cons_self))
      have hnone : ((e :: back).filter fun d => decide d.EndsInNewline) = [] := by
        rw [List.filter_eq_nil_iff]
        intro d hd hends
        exact hstays d hd (of_decide_eq_true hends)
      rw [hnone, List.map_nil, List.append_nil, List.map_inj_left]
      intro d hd
      obtain ⟨hd, hends⟩ := List.mem_filter.mp hd
      have hends : d.EndsInNewline := of_decide_eq_true hends
      obtain ⟨u, v, rfl⟩ := List.append_of_mem hd
      have hds : u ++ d :: v ++ e :: back = u ++ d :: (v ++ e :: back) := by
        rw [List.append_assoc]
        rfl
      rw [(returned_eq_iff hends (hfront d hd)).mpr (h u d _ hds hends).2]

/-- **Delivered means unblocked.** -/
theorem delivered_iff (es : List UDPEvent) : Delivers es ↔ Unblocked (received es) := by
  obtain ⟨enough, hremoved⟩ := removed_eventually es
  have hfilter : ∀ n, enough ≤ n →
      (run step {} (es ++ List.replicate n .read)).removed.filter (fun p => decide p.1.EndsInNewline) =
        (((received es).takeWhile fun d => decide d.HasLine).filter fun d => decide d.EndsInNewline).map
          fun d => (d, d.returned) := by
    intro n hn
    rw [hremoved n hn, List.filter_map]
    rfl
  rw [← returned_iff]
  constructor
  · rintro ⟨enough', h⟩
    rw [← hfilter (max enough enough') (Nat.le_max_left _ _), h _ (Nat.le_max_right _ _)]
  · intro h
    exact ⟨enough, fun n hn => (hfilter n hn).trans h⟩

/-- A datagram without a newline, or an empty one, in front of a command. -/
def noLine : Datagram := ⟨[97], by decide⟩
def emptyDatagram : Datagram := ⟨[], by decide⟩
def commandDatagram : Datagram := ⟨[98, 10], by decide⟩

theorem not_delivered : ¬ Delivers [.receive noLine, .receive commandDatagram] ∧
    ¬ Delivers [.receive emptyDatagram, .receive commandDatagram] := by
  have hstuck : ∀ d : Datagram, ¬ d.HasLine → ¬ Delivers [.receive d, .receive commandDatagram] := by
    rintro d hd ⟨enough, h⟩
    have hrun := h enough (Nat.le_refl _)
    rw [run_append, run_stuck (show _ = d :: [commandDatagram] from rfl) hd] at hrun
    have hlen := congrArg List.length hrun
    rw [List.length_map] at hlen
    have hcommand : commandDatagram ∈ (received [.receive d, .receive commandDatagram]).filter
        fun d => decide d.EndsInNewline :=
      List.mem_filter.mpr ⟨List.mem_cons_of_mem _ List.mem_cons_self, by decide⟩
    have hpos := List.length_pos_of_mem hcommand
    have hzero : ([] : List (Datagram × List UInt8)).length = 0 := rfl
    have hnil : (run step {} [UDPEvent.receive d, .receive commandDatagram]).removed = [] := rfl
    rw [hnil, List.filter_nil] at hlen
    omega
  exact ⟨hstuck noLine (by decide), hstuck emptyDatagram (by decide)⟩

end UDPConnection

end Trick.Connections
