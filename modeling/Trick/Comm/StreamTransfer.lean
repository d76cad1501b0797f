/-
  `tc_read` and `tc_write`: a transfer of a number of bytes over a stream socket.

  1. **Data** — the socket answers each call with a number of bytes or an error; the clock says at the
     end of each turn whether the time limit is exceeded.  A finite list of answers is a beginning of
     a run: when it is used up, the call has not returned.

  2. **Program** — `transferLoop`, the loop of both functions: only the direction of the bytes, a socket call
     that moves nothing and the test for the time limit are different.

  3. **Specification** — `Complete`: the bytes are moved in order from the beginning of the buffer, the
     socket is never asked for more than the rest, and the value says how many were moved.

  4. **Result** — `transfers_complete`.
-/
import Mathlib

namespace Trick.Comm

/-! ## The socket and the device -/

/-- `tc_errno` after a socket call that failed. -/
inductive Errno where
  | eintr
  | ewouldblock
  | eagain
  | other
deriving DecidableEq

/-- What the socket does when it is called. -/
inductive SocketResult where
  /-- It moves `n` bytes, or as many as it is asked for. -/
  | moved (n : Nat)
  | failed (errno : Errno)
deriving DecidableEq

/-- `TCCommBlocking` -/
inductive BlockioType where
  | blockio
  | noblockio
  | timedBlockio
  | allOrNothing
deriving DecidableEq

/-- `TCDevice`, as far as a transfer looks at it: a stream socket. -/
structure TCDevice where
  disabled : Bool := false
  invalidSocket : Bool := false
  blockioType : BlockioType

/-- One call of the socket and the clock after it: `late` if `blockio_limit` is exceeded. -/
structure Turn where
  result : SocketResult
  late : Bool := false

/-! ## The loop -/

/-- The variables of a transfer; `σ` is where the bytes go. -/
structure Transfer (σ : Type) where
  nbytes : Nat := 0
  /-- `data - buffer` -/
  data : Nat := 0
  tmpSize : Nat
  moved : σ
  /-- `tc_disconnect` was called. -/
  disconnected : Bool := false
  /-- For each call of the socket what it was asked for, and how much had been moved before. -/
  calls : List (Nat × Nat) := []

/-- The end of a turn: the value, if the loop is left.  `blocked` if the socket call failed with
    `EWOULDBLOCK` or `EAGAIN`. -/
def afterTurn (mode : BlockioType) (timedOut blocked : Bool) (nbytes : Nat) : Option Int :=
  match mode with
  | .blockio => none
  | .noblockio => if blocked then some (if nbytes = 0 then -1 else nbytes) else none
  | .timedBlockio => if timedOut then some nbytes else none
  | .allOrNothing => if nbytes = 0 ∧ blocked then some (-1) else none

/-- Which way the bytes go. -/
inductive Direction where
  | read
  | write
deriving DecidableEq

/-- The test for the time limit; `tc_read` makes it only while something is missing. -/
def timedOut (direction : Direction) (late : Bool) (size nbytes : Nat) : Bool :=
  match direction with
  | .read => late && nbytes != size
  | .write => late

variable {σ : Type}

/-- **The loop**: the variables at its end and the value, or `none` as long as it has not returned.
    `move d k` moves `k` bytes between the socket and the buffer from index `d` on. -/
def transferLoop (direction : Direction) (mode : BlockioType) (size : Nat)
    (move : Nat → Nat → σ → σ) : List Turn → Transfer σ → Transfer σ × Option Int
  | [], t => (t, if t.nbytes = size then some t.nbytes else none)
  | turn :: turns, t =>
    if t.nbytes = size then (t, some t.nbytes)
    else
      let t := { t with calls := t.calls ++ [(t.tmpSize, t.nbytes)] }
      match turn.result with
      | .failed .eintr => transferLoop direction mode size move turns t
      | .failed .other => ({ t with disconnected := true }, some t.nbytes)
      | .failed _ =>
        match afterTurn mode (timedOut direction turn.late size t.nbytes) true t.nbytes with
        | some value => (t, some value)
        | none => transferLoop direction mode size move turns t
      | .moved n =>
        let k := min n t.tmpSize
        -- a receive of nothing is the end of the stream
        if k = 0 ∧ direction = .read then ({ t with disconnected := true }, some t.nbytes)
        else
          let nbytes := t.nbytes + k
          let moved := move t.data k t.moved
          let t :=
            if k ≠ t.tmpSize then
              { t with nbytes := nbytes, moved := moved, data := t.data + k, tmpSize := t.tmpSize - k }
            else { t with nbytes := nbytes, moved := moved }
          match afterTurn mode (timedOut direction turn.late size t.nbytes) false t.nbytes with
          | some value => (t, some value)
          | none => transferLoop direction mode size move turns t

/-- The tests of the device in front of the loop. -/
def transfer (device : Option TCDevice) (direction : Direction) (size : Nat)
    (move : Nat → Nat → σ → σ) (turns : List Turn) (start : σ) : Transfer σ × Option Int :=
  let t : Transfer σ := { tmpSize := size, moved := start }
  match device with
  | none => (t, some (-1))
  | some device =>
    if device.disabled then (t, some (-1))
    else if device.invalidSocket then (t, some (-1))
    else transferLoop direction device.blockioType size move turns t

/-! ## The two functions -/

/-- What a read works on: the buffer, and how far the stream has been consumed. -/
structure Received where
  buffer : Nat → UInt8
  consumed : Nat := 0

/-- The next `k` bytes of the stream go to the buffer, from index `d` on. -/
def Received.move (stream : Nat → UInt8) (d k : Nat) (r : Received) : Received where
  buffer i := if d ≤ i ∧ i < d + k then stream (r.consumed + (i - d)) else r.buffer i
  consumed := r.consumed + k

/-- **`tc_read`**: the bytes on the stream, from its position on, and the buffer. -/
def tcRead (device : Option TCDevice) (stream buffer : Nat → UInt8) (size : Nat)
    (turns : List Turn) : Transfer Received × Option Int :=
  transfer device .read size (Received.move stream) turns { buffer := buffer }

/-- **`tc_write`**: the buffer; what is moved are the bytes that the socket was handed. -/
def tcWrite (device : Option TCDevice) (buffer : Nat → UInt8) (size : Nat) (turns : List Turn) :
    Transfer (List UInt8) × Option Int :=
  transfer device .write size (fun d k sent => sent ++ (List.range k).map fun i => buffer (d + i))
    turns []

/-! ## What a transfer should do -/

/-- The blocking mode; without a device nothing is moved, whatever it is. -/
def modeOf (device : Option TCDevice) : BlockioType := device.elim .blockio TCDevice.blockioType

/-- **A complete transfer**, apart from where the bytes are. -/
structure Complete (mode : BlockioType) (size : Nat) (r : Transfer σ × Option Int) : Prop where
  /-- The socket is never asked for more than the rest. -/
  asked : ∀ call ∈ r.1.calls, call.1 + call.2 ≤ size
  atMost : r.1.nbytes ≤ size
  value : ∀ v, r.2 = some v → v = r.1.nbytes ∨ v = -1 ∧ r.1.nbytes = 0
  allOrNothing : mode = .allOrNothing → r.1.disconnected = false →
    ∀ v, r.2 = some v → v = -1 ∧ r.1.nbytes = 0 ∨ v = size

/-- What `tc_read` leaves: the first `nbytes` bytes of the buffer are the next ones of the stream, in
    order, and the rest of it is as it was. -/
def Read (stream buffer : Nat → UInt8) (t : Transfer Received) : Prop :=
  t.moved.consumed = t.nbytes ∧
    ∀ i, t.moved.buffer i = if i < t.nbytes then stream i else buffer i

/-- What `tc_write` has handed to the socket: the first `nbytes` bytes of the buffer, in order. -/
def Written (buffer : Nat → UInt8) (t : Transfer (List UInt8)) : Prop :=
  t.moved = (List.range t.nbytes).map buffer

/-! ## The invariant of the loop -/

/-- Either the pointer and the rest are where the bytes moved have taken them, or nothing is missing. -/
structure Inv (size : Nat) (move : Nat → Nat → σ → σ) (start : σ) (t : Transfer σ) : Prop where
  place : t.nbytes = size ∨ t.data = t.nbytes ∧ t.nbytes + t.tmpSize = size
  moved : t.moved = move 0 t.nbytes start
  asked : ∀ call ∈ t.calls, call.1 + call.2 ≤ size
  connected : t.disconnected = false

/-- Two moves that follow one another are one. -/
structure Composes (move : Nat → Nat → σ → σ) : Prop where
  zero : ∀ s, move 0 0 s = s
  add : ∀ m k s, move m k (move 0 m s) = move 0 (m + k) s

variable {direction : Direction} {mode : BlockioType} {size : Nat} {move : Nat → Nat → σ → σ} {start : σ}
  {t : Transfer σ}

theorem Inv.atMost (h : Inv size move start t) : t.nbytes ≤ size := by
  rcases h.place with hn | ⟨-, hn⟩ <;> omega

/-- A call of the socket, while something is missing. -/
theorem Inv.call (h : Inv size move start t) (hne : t.nbytes ≠ size) :
    Inv size move start { t with calls := t.calls ++ [(t.tmpSize, t.nbytes)] } := by
  obtain ⟨hdata, hrest⟩ := h.place.resolve_left hne
  refine ⟨h.place, h.moved, fun call hcall => ?_, h.connected⟩
  rcases List.mem_append.mp hcall with hcall | hcall
  · exact h.asked call hcall
  · rw [List.mem_singleton.mp hcall]
    show t.tmpSize + t.nbytes ≤ size
    omega

/-- The bytes that the socket moves are the next ones. -/
theorem Inv.moves (hmove : Composes move) (h : Inv size move start t) (hne : t.nbytes ≠ size) {k : Nat}
    (hk : k ≤ t.tmpSize) :
    Inv size move start
      (if k ≠ t.tmpSize then
        { t with
          nbytes := t.nbytes + k
          moved := move t.data k t.moved
          data := t.data + k
          tmpSize := t.tmpSize - k }
      else { t with nbytes := t.nbytes + k, moved := move t.data k t.moved }) := by
  obtain ⟨hdata, hrest⟩ := h.place.resolve_left hne
  have hmoved : move t.data k t.moved = move 0 (t.nbytes + k) start := by
    rw [hdata, h.moved]
    exact hmove.add t.nbytes k start
  split
  · refine ⟨.inr ⟨?_, ?_⟩, hmoved, h.asked, h.connected⟩
    · show t.data + k = t.nbytes + k
      omega
    · show t.nbytes + k + (t.tmpSize - k) = size
      omega
  · next hlast =>
    refine ⟨.inl ?_, hmoved, h.asked, h.connected⟩
    show t.nbytes + k = size
    omega

/-- What the loop returns: the first `nbytes` bytes from the beginning of the buffer were moved. -/
structure Returned (mode : BlockioType) (size : Nat) (move : Nat → Nat → σ → σ) (start : σ)
    (r : Transfer σ × Option Int) : Prop where
  moved : r.1.moved = move 0 r.1.nbytes start
  complete : Complete mode size r

theorem Inv.returned (h : Inv size move start t) {value : Option Int}
    (hvalue : ∀ v, value = some v → v = t.nbytes ∨ v = -1 ∧ t.nbytes = 0)
    (hall : mode = .allOrNothing → ∀ v, value = some v → v = -1 ∧ t.nbytes = 0 ∨ v = size) :
    Returned mode size move start (t, value) :=
  ⟨h.moved, h.asked, h.atMost, hvalue, fun hm _ => hall hm⟩

/-- The other side has disconnected, or the socket has failed. -/
theorem Inv.ended (h : Inv size move start t) :
    Returned mode size move start ({ t with disconnected := true }, some (t.nbytes : Int)) :=
  ⟨h.moved, h.asked, h.atMost, fun _ hv => .inl (Option.some.inj hv).symm,
    fun _ hd => absurd hd Bool.noConfusion⟩

/-- Where the loop is left at the end of a turn. -/
theorem afterTurn_spec {timedOut blocked : Bool} {n : Nat} {v : Int}
    (h : afterTurn mode timedOut blocked n = some v) :
    (v = n ∨ v = -1 ∧ n = 0) ∧ (mode = .allOrNothing → v = -1 ∧ n = 0) := by
  cases mode with
  | blockio => exact absurd h.symm (Option.some_ne_none v)
  | noblockio =>
    simp only [afterTurn] at h
    split at h
    · split at h
      · next hn => exact ⟨.inr ⟨(Option.some.inj h).symm, hn⟩, fun hm => (nomatch hm)⟩
      · exact ⟨.inl (Option.some.inj h).symm, fun hm => (nomatch hm)⟩
    · exact absurd h.symm (Option.some_ne_none v)
  | timedBlockio =>
    simp only [afterTurn] at h
    split at h
    · exact ⟨.inl (Option.some.inj h).symm, fun hm => (nomatch hm)⟩
    · exact absurd h.symm (Option.some_ne_none v)
  | allOrNothing =>
    simp only [afterTurn] at h
    split at h
    · next hn =>
      have hv : v = -1 ∧ n = 0 := ⟨(Option.some.inj h).symm, hn.1⟩
      exact ⟨.inr hv, fun _ => hv⟩
    · exact absurd h.symm (Option.some_ne_none v)

/-- The loop is left at the end of a turn. -/
theorem Inv.left (h : Inv size move start t) {timedOut blocked : Bool} {value : Int}
    (hvalue : afterTurn mode timedOut blocked t.nbytes = some value) :
    Returned mode size move start (t, some value) := by
  obtain ⟨hv, hall⟩ := afterTurn_spec hvalue
  refine h.returned (fun v he => ?_) fun hm v he => ?_
  · exact Option.some.inj he ▸ hv
  · exact Option.some.inj he ▸ .inl (hall hm)

/-- **The loop**, by induction on what the socket does. -/
theorem transferLoop_returned (hmove : Composes move) (turns : List Turn) :
    ∀ t : Transfer σ, Inv size move start t →
      Returned mode size move start (transferLoop direction mode size move turns t) := by
  have hfull : ∀ t : Transfer σ, Inv size move start t → t.nbytes = size →
      Returned mode size move start (t, some (t.nbytes : Int)) := by
    intro t h hn
    refine h.returned (fun v hv => .inl (Option.some.inj hv).symm) fun _ v hv => .inr ?_
    rw [← Option.some.inj hv, hn]
  induction turns with
  | nil =>
    intro t h
    unfold transferLoop
    split
    · next hn => exact hfull t h hn
    · exact h.returned (fun v hv => absurd hv.symm (Option.some_ne_none v))
        fun _ v hv => absurd hv.symm (Option.some_ne_none v)
  | cons turn turns ih =>
    intro t h
    unfold transferLoop
    split
    · next hn => exact hfull t h hn
    next hne =>
    have hcall := h.call hne
    simp only
    split
    · exact ih _ hcall
    · exact hcall.ended
    · -- nothing is there, or there is no room
      split
      · next value hvalue => exact hcall.left hvalue
      · exact ih _ hcall
    · next n _ =>
      split
      · exact hcall.ended
      · have hmoves := hcall.moves hmove hne (Nat.min_le_right n t.tmpSize)
        split
        · next value hvalue => exact hmoves.left hvalue
        · exact ih _ hmoves

/-! ## The two functions -/

theorem transfer_returned (hmove : Composes move) (device : Option TCDevice) (turns : List Turn) :
    Returned (modeOf device) size move start (transfer device direction size move turns start) := by
  have hinv : Inv size move start { tmpSize := size, moved := start } :=
    ⟨.inr ⟨rfl, Nat.zero_add size⟩, (hmove.zero start).symm, fun _ hcall => (nomatch hcall), rfl⟩
  have hrefused : Returned (modeOf device) size move start ({ tmpSize := size, moved := start }, some (-1)) := by
    have hv : ∀ v : Int, some (-1) = some v → v = -1 ∧ (0 : Nat) = 0 :=
      fun v he => ⟨(Option.some.inj he).symm, rfl⟩
    exact hinv.returned (fun v he => .inr (hv v he)) fun _ v he => .inl (hv v he)
  unfold transfer
  simp only
  cases device with
  | none => exact hrefused
  | some device =>
    simp only
    split
    · exact hrefused
    · split
      · exact hrefused
      · exact transferLoop_returned hmove turns _ hinv

theorem composes_read (stream : Nat → UInt8) : Composes (Received.move stream) where
  zero r := by
    unfold Received.move
    congr 1
  add m k r := by
    unfold Received.move
    simp only [Received.mk.injEq]
    refine ⟨?_, by omega⟩
    funext i
    -- in front of the second move, in it, and behind it
    by_cases hm : i < m
    · rw [if_neg (by omega), if_pos (by omega), if_pos (by omega)]
    · by_cases hk : i < m + k
      · rw [if_pos (by omega), if_pos (by omega)]
        exact congrArg stream (by omega)
      · rw [if_neg (by omega), if_neg (by omega), if_neg (by omega)]

theorem composes_write (buffer : Nat → UInt8) :
    Composes fun d k (sent : List UInt8) => sent ++ (List.range k).map fun i => buffer (d + i) where
  zero sent := List.append_nil sent
  add m k sent := by
    rw [List.append_assoc, List.range_add, List.map_append, List.map_map]
    simp only [Nat.zero_add]
    rfl

/-- **Transfers are complete**, for every size, every device and everything that the socket and the clock
    do. -/
theorem transfers_complete (device : Option TCDevice) (size : Nat) (turns : List Turn)
    (stream buffer : Nat → UInt8) :
    (Read stream buffer (tcRead device stream buffer size turns).1 ∧
      Complete (modeOf device) size (tcRead device stream buffer size turns)) ∧
    Written buffer (tcWrite device buffer size turns).1 ∧
      Complete (modeOf device) size (tcWrite device buffer size turns) := by
  refine ⟨?_, ?_⟩
  · obtain ⟨hmoved, hcomplete⟩ : Returned (modeOf device) size (Received.move stream)
        { buffer := buffer } (tcRead device stream buffer size turns) :=
      transfer_returned (composes_read stream) device turns
    refine ⟨⟨?_, fun i => ?_⟩, hcomplete⟩
    · rw [hmoved]
      exact Nat.zero_add _
    · rw [hmoved]
      simp [Received.move]
  · obtain ⟨hmoved, hcomplete⟩ : Returned (modeOf device) size _ []
        (tcWrite device buffer size turns) :=
      transfer_returned (composes_write buffer) device turns
    refine ⟨?_, hcomplete⟩
    unfold Written
    rw [hmoved]
    simp

/-- A read of ten bytes, all or nothing: after four of them an interrupt, then nothing is there, then
    more is there than is missing. -/
example :
    let r := tcRead (some { blockioType := .allOrNothing }) UInt8.ofNat (fun _ => 255) 10
      [⟨.moved 4, false⟩, ⟨.failed .eintr, false⟩, ⟨.failed .ewouldblock, false⟩, ⟨.moved 99, false⟩]
    r.2 = some 10 ∧ r.1.calls = [(10, 0), (6, 4), (6, 4), (6, 4)] ∧
      (List.range 12).map r.1.moved.buffer = [0, 1, 2, 3, 4, 5, 6, 7, 8, 9, 255, 255] := by
  decide +kernel

end Trick.Comm
