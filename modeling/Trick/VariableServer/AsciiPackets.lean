/-
  `write_ascii_data`: one record of text, cut into packets.

  The packet in hand is a stream, and `message_size` counts beside it.  The tab in front of a variable goes
  into the stream before it is known whether the variable does: a packet that is full ends with that tab,
  and the next one begins with the variable.  After that the counter is ahead of the stream by the tab
  that went out with the last packet, so it never falls short (`Fits`).

  1. **The sizes are `int`s**, those of a text too: one of 2^31 characters or more may count as short.

  2. **The connection** is the list of the values its writes return; a negative one ends the call.

  3. **Main result** (`joined_iff`): the packets are the record, none of them empty or too long, exactly
     when no text is too long and counts as short.
-/
import Trick.VariableServer.WriteData

namespace Trick.VarServer

/-- `VS_MESSAGE_TYPE` -/
inductive MessageType where
  | ipError | varList | varExists | sieResource | listSize | stdio | sendOnce | getStlSize
deriving DecidableEq

/-- The number of a message type. -/
def MessageType.code : MessageType → Int
  | .ipError => -1
  | .varList => 0
  | .varExists => 1
  | .sieResource => 2
  | .listSize => 3
  | .stdio => 4
  | .sendOnce => 5
  | .getStlSize => 6

namespace AsciiPackets

/-! ## The writer -/

/-- `int n = s.size()` -/
@[irreducible] def intSize (s : List Char) : Int := (s.length : Int).bmod (2 ^ 32)

/-- `message_stream` and `message_size` -/
structure PacketStream where
  text : List Char
  size : Int

/-- The stream with the message type. -/
def newStream (messageType : MessageType) : PacketStream where
  text := (toString messageType.code).toList
  size := intSize (toString messageType.code).toList

/-- The text of a variable, cut off if it is too long for a packet. -/
def cutText (var : List Char) : List Char :=
  if intSize var + 2 > maxMsgLen then var.take (maxMsgLen - 2) else var

/-- One turn of the loop: the packet that goes out, if the variable needs more room than there is. -/
def PacketStream.append (a : PacketStream) (var : List Char) : Option (List Char) × PacketStream :=
  if a.size + intSize (cutText var) + 2 > maxMsgLen then
    (some (a.text ++ ['\t']), {
      text := cutText var
      size := intSize (cutText var) + 1 })
  else
    (none, {
      text := a.text ++ '\t' :: cutText var
      size := a.size + (intSize (cutText var) + 1) })

/-- The packets given to the connection, and what the last write returned. -/
structure Sent where
  packets : List (List Char)
  result : Int

/-- The loop from some packets on. -/
def writeLoop (write : Nat → Int) (sent : List (List Char)) (a : PacketStream) : List (List Char) → Sent
  | [] => ⟨sent ++ [a.text ++ ['\n']], write sent.length⟩
  | var :: vars =>
    match a.append var with
    | (none, a') => writeLoop write sent a' vars
    | (some packet, a') =>
      if write sent.length < 0 then ⟨sent ++ [packet], write sent.length⟩
      else writeLoop write (sent ++ [packet]) a' vars

/-- **`write_ascii_data`** -/
def writeAsciiData (write : Nat → Int) (messageType : MessageType) (vars : List (List Char)) : Sent :=
  writeLoop write [] (newStream messageType) vars

/-! ## The record -/

/-- The variables of a record, and its end. -/
def recordRest (vars : List (List Char)) : List Char :=
  (vars.flatMap fun var => '\t' :: var.take (maxMsgLen - 2)) ++ ['\n']

/-- **The record**: the message type, the variables behind a tab each, a newline. -/
def record (messageType : MessageType) (vars : List (List Char)) : List Char :=
  (toString messageType.code).toList ++ recordRest vars

/-- A packet is neither empty nor too long. -/
def PacketOk (packet : List Char) : Prop := packet ≠ [] ∧ packet.length ≤ maxMsgLen

/-- What goes out is the record, as far as the connection takes it. -/
def Sent.Is (r : Sent) (before : List (List Char)) (text : List Char) : Prop :=
  ∃ more, r.packets = before ++ more ∧
    (more.flatten = text ∨ r.result < 0 ∧ more.flatten <+: text) ∧ ∀ packet ∈ more, PacketOk packet

/-- **The packets join to the record**, whatever the connection returns. -/
def Joined (messageType : MessageType) (vars : List (List Char)) : Prop :=
  ∀ write : Nat → Int, (writeAsciiData write messageType vars).Is [] (record messageType vars)

/-- The size of a text is not mistaken: it fits, or it counts as too long. -/
def SizeSeen (var : List Char) : Prop :=
  var.length ≤ maxMsgLen - 2 ∨ (maxMsgLen : Int) - 2 < intSize var

/-! ## Texts of which the size is seen -/

theorem intSize_of_lt {s : List Char} (h : s.length < 2 ^ 31) : intSize s = s.length := by
  unfold intSize
  rw [Int.bmod_def]
  have hmod : (s.length : Int) % ((2 ^ 32 : Nat) : Int) = s.length := Int.emod_eq_of_lt (by omega) (by omega)
  rw [hmod, if_pos (by omega)]

/-- The text that is appended. -/
theorem cutText_seen {var : List Char} (h : SizeSeen var) :
    cutText var = var.take (maxMsgLen - 2) ∧ (cutText var).length ≤ maxMsgLen - 2 ∧
      intSize (cutText var) = (cutText var).length := by
  have heq : cutText var = var.take (maxMsgLen - 2) := by
    unfold cutText
    split
    · rfl
    · rcases h with h | h
      · exact (List.take_of_length_le h).symm
      · rename_i hnot
        exact absurd (by omega) hnot
  have hlen : (cutText var).length ≤ maxMsgLen - 2 := by
    rw [heq, List.length_take]
    exact Nat.min_le_left _ _
  refine ⟨heq, hlen, intSize_of_lt ?_⟩
  unfold maxMsgLen at hlen
  omega

/-- The counter is not behind the stream, and there is room for one more character. -/
def Fits (a : PacketStream) : Prop := (a.text.length : Int) ≤ a.size ∧ a.size + 1 ≤ maxMsgLen

theorem fits_newStream (messageType : MessageType) : Fits (newStream messageType) := by
  have hlen : (newStream messageType).text.length ≤ 2 := by
    cases messageType <;> decide +kernel
  have hsize : (newStream messageType).size = (newStream messageType).text.length := by
    show intSize (newStream messageType).text = _
    rw [intSize_of_lt (by omega)]
  have hmax : maxMsgLen = 8192 := rfl
  unfold Fits
  rw [hsize]
  omega

/-- **One turn** keeps the counter right, and a packet that goes out has the right size. -/
theorem append_fits {a : PacketStream} (ha : Fits a) {var : List Char} (h : SizeSeen var) :
    (∃ packet, (a.append var).1 = some packet ∧ packet = a.text ++ ['\t'] ∧ PacketOk packet ∧
      Fits (a.append var).2 ∧ (a.append var).2.text = var.take (maxMsgLen - 2)) ∨
    ((a.append var).1 = none ∧ Fits (a.append var).2 ∧
      (a.append var).2.text = a.text ++ '\t' :: var.take (maxMsgLen - 2)) := by
  obtain ⟨heq, hlen, hsize⟩ := cutText_seen h
  obtain ⟨hle, hroom⟩ := ha
  have hmax : maxMsgLen = 8192 := rfl
  unfold PacketStream.append
  rw [hsize]
  split
  · left
    refine ⟨a.text ++ ['\t'], rfl, rfl, ⟨?_, ?_⟩, ⟨?_, ?_⟩, ?_⟩
    · exact List.append_ne_nil_of_right_ne_nil _ (List.cons_ne_nil _ _)
    · rw [List.length_append, List.length_singleton]
      omega
    · show ((cutText var).length : Int) ≤ (cutText var).length + 1
      omega
    · show ((cutText var).length : Int) + 1 + 1 ≤ maxMsgLen
      omega
    · show cutText var = _
      rw [heq]
  · rename_i hfits
    right
    refine ⟨rfl, ⟨?_, ?_⟩, by rw [← heq]⟩
    · show ((a.text ++ '\t' :: cutText var).length : Int) ≤ a.size + ((cutText var).length + 1)
      rw [List.length_append, List.length_cons]
      push_cast
      omega
    · show a.size + ((cutText var).length + 1) + 1 ≤ (maxMsgLen : Int)
      omega

/-- **The loop sends the rest of the record.** -/
theorem writeLoop_is (write : Nat → Int) {vars : List (List Char)} (h : ∀ var ∈ vars, SizeSeen var)
    (sent : List (List Char)) {a : PacketStream} (ha : Fits a) :
    (writeLoop write sent a vars).Is sent (a.text ++ recordRest vars) := by
  induction vars generalizing sent a with
  | nil =>
    refine ⟨[a.text ++ ['\n']], rfl, Or.inl ?_, ?_⟩
    · show a.text ++ ['\n'] ++ [] = a.text ++ ([] ++ ['\n'])
      rw [List.append_nil, List.nil_append]
    · intro packet hp
      rw [List.mem_singleton.mp hp]
      refine ⟨List.append_ne_nil_of_right_ne_nil _ (List.cons_ne_nil _ _), ?_⟩
      obtain ⟨hle, hroom⟩ := ha
      rw [List.length_append, List.length_singleton]
      omega
  | cons var vars ih =>
    have hvars : ∀ v ∈ vars, SizeSeen v := fun v hv => h v (List.mem_cons_of_mem var hv)
    have hrest : recordRest (var :: vars) = '\t' :: (var.take (maxMsgLen - 2) ++ recordRest vars) := by
      unfold recordRest
      rw [List.flatMap_cons, List.cons_append, List.cons_append, List.append_assoc]
    unfold writeLoop
    rcases append_fits ha (h var List.mem_cons_self) with
      ⟨packet, hout, hpacket, hok, hfits, htext⟩ | ⟨hout, hfits, htext⟩
    · have hsplit : a.append var = (some packet, (a.append var).2) := by rw [← hout]
      have hjoin : packet ++ ((a.append var).2.text ++ recordRest vars) = a.text ++ recordRest (var :: vars) := by
        rw [hpacket, htext, hrest, List.append_assoc]
        rfl
      rw [hsplit]
      show Sent.Is (if write sent.length < 0 then _ else _) _ _
      split
      · -- the connection has gone
        rename_i hfail
        refine ⟨[packet], rfl, Or.inr ⟨hfail, ?_⟩, ?_⟩
        · rw [List.flatten_singleton, ← hjoin]
          exact List.prefix_append _ _
        · intro p hp
          rw [List.mem_singleton.mp hp]
          exact hok
      · obtain ⟨more, hpackets, htexts, hall⟩ := ih hvars (sent ++ [packet]) hfits
        refine ⟨packet :: more, ?_, ?_, ?_⟩
        · rw [hpackets, List.append_assoc]
          rfl
        · rw [List.flatten_cons, ← hjoin]
          rcases htexts with heq | ⟨hneg, hprefix⟩
          · exact Or.inl (congrArg (packet ++ ·) heq)
          · exact Or.inr ⟨hneg, (List.prefix_append_right_inj packet).mpr hprefix⟩
        · intro p hp
          rcases List.mem_cons.mp hp with rfl | hp
          · exact hok
          · exact hall p hp
    · have hsplit : a.append var = (none, (a.append var).2) := by rw [← hout]
      have hjoin : (a.append var).2.text ++ recordRest vars = a.text ++ recordRest (var :: vars) := by
        rw [htext, hrest, List.append_assoc]
        rfl
      rw [hsplit, ← hjoin]
      exact ih hvars sent hfits

/-! ## Texts that count as short -/

/-- Such a text is appended whole, and no packet has room for it. -/
theorem cutText_unseen {var : List Char} (h : ¬ SizeSeen var) :
    cutText var = var ∧ maxMsgLen < var.length := by
  unfold SizeSeen at h
  push Not at h
  obtain ⟨hlong, hshort⟩ := h
  have hmax : maxMsgLen = 8192 := rfl
  refine ⟨?_, ?_⟩
  · unfold cutText
    rw [if_neg (by omega)]
  · by_contra hle
    have hsize := intSize_of_lt (s := var) (by omega)
    omega

/-- What is in the stream goes out. -/
theorem writeLoop_long (sent : List (List Char)) {a : PacketStream} (ha : maxMsgLen < a.text.length)
    (vars : List (List Char)) :
    ∃ packet ∈ (writeLoop (fun _ => 0) sent a vars).packets, maxMsgLen < packet.length := by
  have hkept : ∀ (vars : List (List Char)) (sent : List (List Char)) (a : PacketStream) (p : List Char),
      p ∈ sent → p ∈ (writeLoop (fun _ => 0) sent a vars).packets := by
    intro vars
    induction vars with
    | nil => exact fun sent a p hp => List.mem_append_left _ hp
    | cons var vars ih =>
      intro sent a p hp
      unfold writeLoop
      split
      · exact ih sent _ p hp
      · exact ih _ _ p (List.mem_append_left _ hp)
  induction vars generalizing sent a with
  | nil =>
    refine ⟨a.text ++ ['\n'], List.mem_append_right _ (List.mem_singleton.mpr rfl), ?_⟩
    rw [List.length_append]
    omega
  | cons var vars ih =>
    by_cases hfull : a.size + intSize (cutText var) + 2 > maxMsgLen
    · have happend : a.append var = (some (a.text ++ ['\t']), ⟨cutText var, intSize (cutText var) + 1⟩) :=
        if_pos hfull
      refine ⟨a.text ++ ['\t'], ?_, ?_⟩
      · unfold writeLoop
        rw [happend]
        exact hkept _ _ _ _ (List.mem_append_right _ (List.mem_singleton.mpr rfl))
      · rw [List.length_append]
        omega
    · have happend : a.append var =
          (none, ⟨a.text ++ '\t' :: cutText var, a.size + (intSize (cutText var) + 1)⟩) := if_neg hfull
      unfold writeLoop
      rw [happend]
      apply ih
      show maxMsgLen < (a.text ++ '\t' :: cutText var).length
      rw [List.length_append]
      omega

/-- **A text that counts as short is in a packet that is too long.** -/
theorem writeLoop_unseen {vars : List (List Char)} {var : List Char} (hmem : var ∈ vars)
    (h : ¬ SizeSeen var) (sent : List (List Char)) (a : PacketStream) :
    ∃ packet ∈ (writeLoop (fun _ => 0) sent a vars).packets, maxMsgLen < packet.length := by
  induction vars generalizing sent a with
  | nil => cases hmem
  | cons v vars ih =>
    unfold writeLoop
    rcases List.mem_cons.mp hmem with rfl | hmem
    · obtain ⟨hwhole, hlong⟩ := cutText_unseen h
      have htext : maxMsgLen < (a.append var).2.text.length := by
        unfold PacketStream.append
        rw [hwhole]
        split
        · exact hlong
        · show maxMsgLen < (a.text ++ '\t' :: var).length
          rw [List.length_append, List.length_cons]
          omega
      split
      · rename_i a' hout
        rw [hout] at htext
        exact writeLoop_long sent htext vars
      · rename_i packet a' hout
        rw [hout] at htext
        exact writeLoop_long _ htext vars
    · split
      · exact ih hmem _ _
      · exact ih hmem _ _

/-! ## Which texts join to the record -/

theorem not_joined {messageType : MessageType} {vars : List (List Char)} {var : List Char}
    (hmem : var ∈ vars) (h : ¬ SizeSeen var) : ¬ Joined messageType vars := by
  intro hjoined
  obtain ⟨more, hpackets, -, hok⟩ := hjoined fun _ => 0
  obtain ⟨packet, hp, hlong⟩ := writeLoop_unseen hmem h [] (newStream messageType)
  unfold writeAsciiData at hpackets
  rw [hpackets, List.nil_append] at hp
  exact absurd (hok packet hp).2 (Nat.not_le.mpr hlong)

/-- **The packets join to the record** exactly when every text is short or counts as too long. -/
theorem joined_iff (messageType : MessageType) (vars : List (List Char)) :
    Joined messageType vars ↔ ∀ var ∈ vars, SizeSeen var := by
  constructor
  · intro hjoined var hmem
    by_contra h
    exact not_joined hmem h hjoined
  · intro h write
    exact writeLoop_is write h [] (fits_newStream messageType)

/-- A text of 2^32 characters counts as empty. -/
theorem not_joined_long : ¬ Joined .varList [List.replicate (2 ^ 32) 'a'] := by
  refine not_joined (List.mem_singleton.mpr rfl) ?_
  unfold SizeSeen intSize maxMsgLen
  rw [List.length_replicate]
  decide

end AsciiPackets

end Trick.VarServer
