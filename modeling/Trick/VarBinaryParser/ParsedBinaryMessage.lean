/-
  `ParsedBinaryMessage::parse`: the reader of the binary messages of the variable server.

  A message is a header of three words (the type, the number of bytes behind the type, the number of
  variables) and the variables one behind the other, each with its name, its type, its size and its
  value.  The reader takes slices of the message at an index that is an `unsigned int`, and so is the end
  of a slice: it is reduced before it is compared with the size of the message.

  1. **The reader** is translated with its arithmetic: `bytesToInt` shifts `int`s and keeps the result
     in 64 bits, a slice whose end comes before its beginning is `ParseError.invalidRange`.

  2. **The layout** (`Walk`) says where the fields of a message end when nothing wraps.  The reader
     follows it as long as the ends are representable (`Follows`), and `parse_exact` is the comparison
     of the two for every sequence of bytes.

  3. **What is written is read** (`parse_encode`): the layout of the bytes of a message ends where they
     do.
-/
import Trick.Lib.Bytes

namespace Trick.BinaryParser

open Trick.Lib

/-! ## Numbers -/

/-- `_index`, `length` and `slice_end` are of 32 bits. -/
def uintSize : Nat := 2 ^ 32

/-- `bytes[i] << i*8`, an `int`, as the other operand of `|=` sees it. -/
def shifted (b : UInt8) (i : Nat) : BitVec 64 := (b.toBitVec.setWidth 32 <<< (i * 8)).signExtend 64

/-- The loops of `bytesToInt`. -/
def orBytes : BitVec 64 → Nat → List UInt8 → BitVec 64
  | result, _, [] => result
  | result, i, b :: bs => orBytes (result ||| shifted b i) (i + 1) bs

/-- `bytesToInt` -/
def bytesToInt (bytes : List UInt8) (byteswap : Bool) : BitVec 64 :=
  orBytes 0 0 (if byteswap then bytes.reverse else bytes)

/-- The conversion to a 32 bit type, `int` or `unsigned int`. -/
def toWord (v : BitVec 64) : BitVec 32 := v.setWidth 32

/-! ## Messages -/

/-- `Var` -/
structure Var where
  hasName : Bool := false
  nameLength : BitVec 32 := 0
  name : List UInt8 := []
  /-- The `TRICK_TYPE`, an `int`. -/
  trickType : BitVec 32 := 0
  varSize : BitVec 32 := 0
  valueBytes : List UInt8 := []
  byteswap : Bool := false
deriving DecidableEq

/-- `Var::setName` -/
def Var.setName (v : Var) (nameSize : BitVec 64) (nameData : List UInt8) : Var :=
  { v with hasName := true, nameLength := toWord nameSize, name := nameData }

/-- `Var::setValue` -/
def Var.setValue (v : Var) (bytes : List UInt8) (size : BitVec 64) (type : BitVec 32) (byteswap : Bool) : Var :=
  { v with trickType := type, varSize := toWord size, byteswap := byteswap, valueBytes := bytes }

/-- `ParsedBinaryMessage`, as its constructor leaves it. -/
structure ParsedBinaryMessage where
  messageType : BitVec 32 := 0
  messageSize : BitVec 32 := 0
  numVars : BitVec 32 := 0
  byteswap : Bool
  nonames : Bool
  variableList : List Var := []
deriving DecidableEq

/-- How `parse` can fail. -/
inductive ParseError where
  /-- `MalformedMessageException` -/
  | malformed (message : String)
  /-- A vector is made of the range between two iterators of which the second comes first: undefined. -/
  | invalidRange (first last : Nat)
deriving DecidableEq

/-! ## The reader -/

/-- `MessageIterator::slice` at `_index`. -/
def slice (bytes : List UInt8) (index length : Nat) : Except ParseError (List UInt8) :=
  let sliceEnd := (index + length) % uintSize
  if index > bytes.length ∨ sliceEnd > bytes.length then .error (.malformed "Message ends unexpectedly")
  else if sliceEnd < index then .error (.invalidRange index sliceEnd)
  else .ok ((bytes.take sliceEnd).drop index)

/-- A slice, and `+=` by its length. -/
def takeSlice (bytes : List UInt8) (index length : Nat) : Except ParseError (List UInt8 × Nat) :=
  match slice bytes index length with
  | .error e => .error e
  | .ok l => .ok (l, (index + length) % uintSize)

namespace ParsedBinaryMessage

/-- `header_size` -/
def headerSize : Nat := 12

/-- A word of the message. -/
def readWord (m : ParsedBinaryMessage) (bytes : List UInt8) (index : Nat) : Except ParseError (BitVec 64 × Nat) := do
  let (l, index) ← takeSlice bytes index 4
  return (bytesToInt l m.byteswap, index)

/-- The name of a variable, unless the messages have no names. -/
def readName (m : ParsedBinaryMessage) (bytes : List UInt8) (index : Nat) : Except ParseError (Var × Nat) :=
  if m.nonames then return ({}, index)
  else do
    let (nameLength, index) ← m.readWord bytes index
    let (name, index) ← takeSlice bytes index (toWord nameLength).toNat
    return (({} : Var).setName nameLength name, index)

/-- The body of the loop of `parse`. -/
def readVar (m : ParsedBinaryMessage) (bytes : List UInt8) (index : Nat) : Except ParseError (Var × Nat) := do
  let (var, index) ← m.readName bytes index
  let (varType, index) ← m.readWord bytes index
  let (varSize, index) ← m.readWord bytes index
  let (value, index) ← takeSlice bytes index (toWord varSize).toNat
  return (var.setValue value varSize (toWord varType) m.byteswap, index)

/-- The loop of `parse`, for so many variables. -/
def readVars (m : ParsedBinaryMessage) (bytes : List UInt8) : Nat → Nat → Except ParseError (List Var × Nat)
  | 0, index => return ([], index)
  | n + 1, index => do
    let (var, index) ← m.readVar bytes index
    let (vars, index) ← m.readVars bytes n index
    return (var :: vars, index)

/-- `validateMessageType`: from `VS_MIN_CODE` to `VS_MAX_CODE`. -/
def validateMessageType (messageType : BitVec 32) : Bool :=
  -1 ≤ messageType.toInt && messageType.toInt ≤ 6

/-- The texts of the three exceptions that `parse` throws itself. -/
def notEnoughBytes (size : Nat) : String :=
  "Not enough bytes in message to contain header: expected at least 12, got " ++ toString size

def unknownMessageType (messageType : BitVec 32) : String :=
  "Received unknown message type: " ++ toString messageType.toInt

def sizeMismatch (messageSize received : Nat) : String :=
  "Message size in header (" ++ toString messageSize ++ ") does not match size of message received (" ++
    toString received ++ ")"

/-- **`parse`** -/
def parse (m : ParsedBinaryMessage) (bytes : List UInt8) : Except ParseError ParsedBinaryMessage :=
  if bytes.length < headerSize then
    throw (.malformed (notEnoughBytes bytes.length))
  else do
    let (messageType, index) ← m.readWord bytes 0
    if validateMessageType (toWord messageType) = false then
      throw (.malformed (unknownMessageType (toWord messageType)))
    else
      let (messageSize, index) ← m.readWord bytes index
      if bytes.length - 4 ≠ (toWord messageSize).toNat then
        throw (.malformed (sizeMismatch (toWord messageSize).toNat (bytes.length - 4)))
      else
        let (numVars, index) ← m.readWord bytes index
        let (vars, _) ← m.readVars bytes (toWord numVars).toNat index
        return { m with
          messageType := toWord messageType
          messageSize := toWord messageSize
          numVars := toWord numVars
          variableList := m.variableList ++ vars }

end ParsedBinaryMessage

/-! ## A word is the number of its bytes -/

theorem toWord_or (x y : BitVec 64) : toWord (x ||| y) = toWord x ||| toWord y := BitVec.setWidth_or

/-- A byte in its place: the sign of the shifted `int` is not in the word. -/
theorem toWord_shifted (b : UInt8) (i : Nat) : toWord (shifted b i) = b.toBitVec.setWidth 32 <<< (i * 8) := by
  unfold toWord shifted
  ext k hk
  rw [BitVec.getElem_setWidth, BitVec.getLsbD_signExtend, if_pos hk]
  rw [← BitVec.getLsbD_eq_getElem]
  have h64 : k < 64 := by omega
  simp only [h64, decide_true, Bool.true_and]

/-- **The bytes that are still to be read**, on top of those that were. -/
theorem toNat_orBytes (l : List UInt8) (x : BitVec 64) (i : Nat) (hl : i + l.length ≤ 4)
    (hx : (toWord x).toNat < 256 ^ i) :
    (toWord (orBytes x i l)).toNat = (toWord x).toNat + 256 ^ i * ofLeBytes l := by
  induction l generalizing x i with
  | nil => rfl
  | cons b l ih =>
    rw [List.length_cons] at hl
    have hb : b.toNat < 256 := UInt8.toNat_lt b
    have hpow : (256 : Nat) ^ i = 2 ^ (i * 8) := by
      rw [Nat.mul_comm, pow_mul]
      rfl
    have hsucc : (256 : Nat) ^ (i + 1) = 256 * 256 ^ i := pow_succ' 256 i
    have hbound : (256 : Nat) ^ (i + 1) ≤ 2 ^ 32 := by
      calc (256 : Nat) ^ (i + 1) ≤ 256 ^ 4 := Nat.pow_le_pow_right (by decide) (by omega)
        _ = 2 ^ 32 := by decide
    have hmul : b.toNat * 256 ^ i ≤ 255 * 256 ^ i := Nat.mul_le_mul_right _ (by omega)
    have hshift : (b.toBitVec.setWidth 32 <<< (i * 8) : BitVec 32).toNat = 256 ^ i * b.toNat := by
      rw [BitVec.toNat_shiftLeft, BitVec.toNat_setWidth, Nat.shiftLeft_eq, ← hpow]
      show b.toNat % 2 ^ 32 * 256 ^ i % 2 ^ 32 = 256 ^ i * b.toNat
      rw [Nat.mod_eq_of_lt (Nat.lt_trans hb (by decide)), Nat.mod_eq_of_lt (by omega)]
      exact Nat.mul_comm _ _
    have hor : (toWord (x ||| shifted b i)).toNat = (toWord x).toNat + 256 ^ i * b.toNat := by
      rw [toWord_or, toWord_shifted, BitVec.toNat_or, hshift, hpow]
      rw [hpow] at hx
      rw [Nat.or_comm, ← Nat.two_pow_add_eq_or_of_lt hx, Nat.add_comm]
    have hsum : b.toNat * 256 ^ i = 256 ^ i * b.toNat := Nat.mul_comm _ _
    have hlt : (toWord (x ||| shifted b i)).toNat < 256 ^ (i + 1) := by omega
    show (toWord (orBytes (x ||| shifted b i) (i + 1) l)).toNat = _
    rw [ih _ _ (by omega) hlt, hor]
    show (toWord x).toNat + 256 ^ i * b.toNat + 256 ^ (i + 1) * ofLeBytes l =
      (toWord x).toNat + 256 ^ i * (b.toNat + 256 * ofLeBytes l)
    rw [hsucc]
    ring

/-- The number of some bytes in the order of the message. -/
def wordOf (byteswap : Bool) (bytes : List UInt8) : Nat :=
  ofLeBytes (if byteswap then bytes.reverse else bytes)

/-- The bytes of a word in the order of the message. -/
def wordBytes (byteswap : Bool) (w : BitVec 32) : List UInt8 :=
  if byteswap then (leBytes 4 w.toNat).reverse else leBytes 4 w.toNat

theorem toNat_bytesToInt (byteswap : Bool) {l : List UInt8} (hl : l.length = 4) :
    (toWord (bytesToInt l byteswap)).toNat = wordOf byteswap l := by
  unfold bytesToInt wordOf
  have hlen : (if byteswap = true then l.reverse else l).length = 4 := by
    split
    · rw [List.length_reverse, hl]
    · exact hl
  rw [toNat_orBytes _ _ _ (by omega) (by decide)]
  show 0 + 1 * _ = _
  omega

/-- **Four bytes are those of their word.** -/
theorem wordBytes_bytesToInt (byteswap : Bool) {l : List UInt8} (hl : l.length = 4) :
    wordBytes byteswap (toWord (bytesToInt l byteswap)) = l := by
  unfold wordBytes
  rw [toNat_bytesToInt byteswap hl]
  unfold wordOf
  cases byteswap with
  | false =>
    show leBytes 4 (ofLeBytes l) = l
    rw [← hl, leBytes_ofLeBytes]
  | true =>
    show (leBytes 4 (ofLeBytes l.reverse)).reverse = l
    have hlen : l.reverse.length = 4 := by rw [List.length_reverse, hl]
    rw [← hlen, leBytes_ofLeBytes, List.reverse_reverse]

theorem length_wordBytes (byteswap : Bool) (w : BitVec 32) : (wordBytes byteswap w).length = 4 := by
  unfold wordBytes
  split
  · rw [List.length_reverse, length_leBytes]
  · exact length_leBytes 4 _

/-- **A word is that of its bytes.** -/
theorem bytesToInt_wordBytes (byteswap : Bool) (w : BitVec 32) :
    toWord (bytesToInt (wordBytes byteswap w) byteswap) = w := by
  apply BitVec.eq_of_toNat_eq
  rw [toNat_bytesToInt byteswap (length_wordBytes byteswap w)]
  unfold wordOf wordBytes
  have hw : w.toNat < 256 ^ 4 := w.isLt
  cases byteswap with
  | false => exact ofLeBytes_leBytes hw
  | true =>
    show ofLeBytes (leBytes 4 w.toNat).reverse.reverse = w.toNat
    rw [List.reverse_reverse, ofLeBytes_leBytes hw]

/-! ## What a message is written as -/

/-- The bytes of a variable. -/
def Var.encode (byteswap nonames : Bool) (v : Var) : List UInt8 :=
  (if nonames then [] else wordBytes byteswap v.nameLength ++ v.name) ++
    (wordBytes byteswap v.trickType ++ (wordBytes byteswap v.varSize ++ v.valueBytes))

/-- The bytes of a message. -/
def ParsedBinaryMessage.encode (m : ParsedBinaryMessage) : List UInt8 :=
  wordBytes m.byteswap m.messageType ++ (wordBytes m.byteswap m.messageSize ++
    (wordBytes m.byteswap m.numVars ++ m.variableList.flatMap (Var.encode m.byteswap m.nonames)))

/-! ## The layout of a message -/

/-- Where some fields end, or where the first one ends that goes beyond the message. -/
inductive Walk where
  | fits (last : Nat)
  | breaks (last : Nat)

/-- The end. -/
def Walk.last : Walk → Nat
  | .fits e => e
  | .breaks e => e

/-- More fields behind the first ones. -/
def Walk.andThen (w : Walk) (f : Nat → Walk) : Walk :=
  match w with
  | .fits e => f e
  | .breaks e => .breaks e

/-- One field. -/
def fieldAt (bytes : List UInt8) (index length : Nat) : Walk :=
  if index + length ≤ bytes.length then .fits (index + length) else .breaks (index + length)

/-- The word at an index. -/
def wordAt (byteswap : Bool) (bytes : List UInt8) (index : Nat) : Nat :=
  wordOf byteswap ((bytes.take (index + 4)).drop index)

/-- A field behind a word that is its length. -/
def sizedAt (byteswap : Bool) (bytes : List UInt8) (index : Nat) : Walk :=
  (fieldAt bytes index 4).andThen fun e => fieldAt bytes e (wordAt byteswap bytes index)

/-- One variable. -/
def varAt (byteswap nonames : Bool) (bytes : List UInt8) (index : Nat) : Walk :=
  (if nonames then Walk.fits index else sizedAt byteswap bytes index).andThen fun e =>
    (fieldAt bytes e 4).andThen (sizedAt byteswap bytes)

/-- **The layout of so many variables**, in numbers without a bound. -/
def varsAt (byteswap nonames : Bool) (bytes : List UInt8) : Nat → Nat → Walk
  | 0, index => .fits index
  | n + 1, index => (varAt byteswap nonames bytes index).andThen (varsAt byteswap nonames bytes n)

/-! ## The reader follows the layout -/

/-- No end is in front of the index. -/
def Grows (f : Nat → Walk) : Prop := ∀ e, e ≤ (f e).last

theorem grows_fieldAt (bytes : List UInt8) (length : Nat → Nat) :
    Grows fun e => fieldAt bytes e (length e) := by
  intro e
  show e ≤ (fieldAt bytes e (length e)).last
  unfold fieldAt
  split <;> exact Nat.le_add_right e _

theorem Grows.andThen {f g : Nat → Walk} (hf : Grows f) (hg : Grows g) :
    Grows fun e => (f e).andThen g := by
  intro e
  have h := hf e
  show e ≤ ((f e).andThen g).last
  cases hw : f e with
  | fits e' =>
    rw [hw] at h
    exact Nat.le_trans h (hg e')
  | breaks e' =>
    rw [hw] at h
    exact h

theorem grows_sizedAt (byteswap : Bool) (bytes : List UInt8) : Grows (sizedAt byteswap bytes) := by
  intro e
  have h4 : e ≤ (fieldAt bytes e 4).last := grows_fieldAt bytes (fun _ => 4) e
  show e ≤ ((fieldAt bytes e 4).andThen _).last
  cases hw : fieldAt bytes e 4 with
  | fits e' =>
    rw [hw] at h4
    exact Nat.le_trans h4 (grows_fieldAt bytes (fun _ => wordAt byteswap bytes e) e')
  | breaks e' =>
    rw [hw] at h4
    exact h4

theorem grows_varAt (byteswap nonames : Bool) (bytes : List UInt8) : Grows (varAt byteswap nonames bytes) := by
  have hrest : Grows fun e => (fieldAt bytes e 4).andThen (sizedAt byteswap bytes) :=
    Grows.andThen (grows_fieldAt bytes fun _ => 4) (grows_sizedAt byteswap bytes)
  refine Grows.andThen ?_ hrest
  intro e
  show e ≤ (if nonames = true then Walk.fits e else sizedAt byteswap bytes e).last
  split
  · exact Nat.le_refl e
  · exact grows_sizedAt byteswap bytes e

theorem grows_varsAt (byteswap nonames : Bool) (bytes : List UInt8) (n : Nat) :
    Grows (varsAt byteswap nonames bytes n) := by
  induction n with
  | zero => exact fun e => Nat.le_refl e
  | succ n ih => exact Grows.andThen (grows_varAt byteswap nonames bytes) ih

/-- **The reader follows a walk**: as long as the ends are representable it reads what is there, and finds
    the end of the message; a field that ends later is no range of the message.  `P` says how what was
    read and its bytes belong together. -/
structure Follows {α : Type} (bytes : List UInt8) (index : Nat) (w : Walk) (P : α → List UInt8 → Prop)
    (r : Except ParseError (α × Nat)) : Prop where
  wraps : uintSize ≤ w.last → ∃ first last, r = .error (.invalidRange first last)
  reads : ∀ e, w = .fits e → e < uintSize →
    ∃ a l, r = .ok (a, e) ∧ P a l ∧ e ≤ bytes.length ∧ bytes.drop index = l ++ bytes.drop e
  ends : ∀ e, w = .breaks e → e < uintSize → r = .error (.malformed "Message ends unexpectedly")

/-- Nothing is read. -/
theorem follows_pure {α : Type} {bytes : List UInt8} {index : Nat} {P : α → List UInt8 → Prop} {a : α}
    (hi : index < uintSize) (hlen : index ≤ bytes.length) (ha : P a []) :
    Follows bytes index (.fits index) P (pure (a, index)) := by
  refine ⟨fun h => absurd h (Nat.not_le.mpr hi), ?_, fun _ h => nomatch h⟩
  intro e he _
  cases he
  exact ⟨a, [], rfl, ha, hlen, rfl⟩

/-- **One walk behind another.** -/
theorem Follows.bind {α β : Type} {bytes : List UInt8} {index : Nat} {w : Walk} {P : α → List UInt8 → Prop}
    {r : Except ParseError (α × Nat)} {k : Nat → Walk} {Q : β → List UInt8 → Prop}
    {f : α × Nat → Except ParseError (β × Nat)} (h : Follows bytes index w P r) (hk : Grows k)
    (hf : ∀ a e l, P a l → e < uintSize → e ≤ bytes.length →
      Follows bytes e (k e) (fun b l' => Q b (l ++ l')) (f (a, e))) :
    Follows bytes index (w.andThen k) Q (r >>= f) := by
  cases w with
  | breaks e =>
    refine ⟨?_, fun _ h' => (nomatch h'), ?_⟩
    · intro hlast
      obtain ⟨first, last, hr⟩ := h.wraps hlast
      exact ⟨first, last, by rw [hr]; rfl⟩
    · intro e' he' hlast
      cases he'
      rw [h.ends e rfl hlast]
      rfl
  | fits e =>
    by_cases hlt : e < uintSize
    · obtain ⟨a, l, hr, ha, hlen, hdrop⟩ := h.reads e rfl hlt
      have hrest := hf a e l ha hlt hlen
      have hbind : (r >>= f) = f (a, e) := by
        rw [hr]
        rfl
      rw [hbind]
      refine ⟨hrest.wraps, ?_, hrest.ends⟩
      intro e' he' hlast
      obtain ⟨b, l', hr', hb, hlen', hdrop'⟩ := hrest.reads e' he' hlast
      refine ⟨b, l ++ l', hr', hb, hlen', ?_⟩
      rw [hdrop, hdrop', List.append_assoc]
    · -- the index has wrapped in the first part already
      obtain ⟨first, last, hr⟩ := h.wraps (Nat.not_lt.mp hlt)
      have hbind : (r >>= f) = .error (.invalidRange first last) := by
        rw [hr]
        rfl
      have hgrows : e ≤ (k e).last := hk e
      refine ⟨fun _ => ⟨first, last, hbind⟩, ?_, ?_⟩
      · intro e' he' hlast
        have he' : k e = .fits e' := he'
        rw [he'] at hgrows
        exact absurd (Nat.lt_of_le_of_lt hgrows hlast) hlt
      · intro e' he' hlast
        have he' : k e = .breaks e' := he'
        rw [he'] at hgrows
        exact absurd (Nat.lt_of_le_of_lt hgrows hlast) hlt

/-- What was read is taken for something else. -/
theorem Follows.imp {α : Type} {bytes : List UInt8} {index : Nat} {w : Walk} {P Q : α → List UInt8 → Prop}
    {r : Except ParseError (α × Nat)} (h : Follows bytes index w P r) (hPQ : ∀ a l, P a l → Q a l) :
    Follows bytes index w Q r := by
  refine ⟨h.wraps, ?_, h.ends⟩
  intro e he hlast
  obtain ⟨a, l, hr, ha, hrest⟩ := h.reads e he hlast
  exact ⟨a, l, hr, hPQ a l ha, hrest⟩

variable {bytes : List UInt8} {index : Nat}

/-- **One slice.** -/
theorem takeSlice_follows (hi : index < uintSize) (hlen : index ≤ bytes.length) (length : Nat)
    (hl : length < uintSize) :
    Follows bytes index (fieldAt bytes index length) (fun a l => a = l ∧ l.length = length)
      (takeSlice bytes index length) := by
  have hmod : index + length < uintSize → (index + length) % uintSize = index + length := Nat.mod_eq_of_lt
  have hlast : (fieldAt bytes index length).last = index + length := by
    unfold fieldAt
    split <;> rfl
  unfold takeSlice slice
  simp only
  refine ⟨?_, ?_, ?_⟩
  · -- the end of the slice wraps, and lands in front of its beginning
    intro hwrap
    rw [hlast] at hwrap
    have hend : (index + length) % uintSize = index + length - uintSize := by
      rw [Nat.mod_eq_sub_mod hwrap, Nat.mod_eq_of_lt (by omega)]
    rw [hend, if_neg (by omega), if_pos (by omega)]
    exact ⟨_, _, rfl⟩
  · intro e he hlt
    unfold fieldAt at he
    split at he
    · rename_i hfits
      cases he
      rw [hmod hlt, if_neg (by omega), if_neg (by omega)]
      refine ⟨_, (bytes.take (index + length)).drop index, rfl, ⟨rfl, ?_⟩, hfits, ?_⟩
      · rw [List.length_drop, List.length_take]
        omega
      · have hsplit : bytes = bytes.take (index + length) ++ bytes.drop (index + length) :=
          (List.take_append_drop _ _).symm
        conv_lhs => rw [hsplit]
        rw [List.drop_append_of_le_length]
        rw [List.length_take]
        omega
    · cases he
  · intro e he hlt
    unfold fieldAt at he
    split at he
    · cases he
    · cases he
      rw [hmod hlt, if_pos (Or.inr (by omega))]

/-- What a word and its bytes have to do with each other. -/
def IsWord (byteswap : Bool) (bytes : List UInt8) (index : Nat) (v : BitVec 64) (l : List UInt8) : Prop :=
  l = wordBytes byteswap (toWord v) ∧ (toWord v).toNat = wordAt byteswap bytes index

theorem readWord_follows (m : ParsedBinaryMessage) (hi : index < uintSize) (hlen : index ≤ bytes.length) :
    Follows bytes index (fieldAt bytes index 4) (IsWord m.byteswap bytes index) (m.readWord bytes index) := by
  have hslice := takeSlice_follows hi hlen 4 (by decide)
  refine ⟨?_, ?_, ?_⟩
  · intro hwrap
    obtain ⟨first, last, hr⟩ := hslice.wraps hwrap
    exact ⟨first, last, by unfold ParsedBinaryMessage.readWord; rw [hr]; rfl⟩
  · intro e he hlt
    obtain ⟨a, l, hr, ⟨rfl, hl⟩, hle, hdrop⟩ := hslice.reads e he hlt
    refine ⟨bytesToInt a m.byteswap, a, ?_, ⟨?_, ?_⟩, hle, hdrop⟩
    · unfold ParsedBinaryMessage.readWord
      rw [hr]
      rfl
    · exact (wordBytes_bytesToInt m.byteswap hl).symm
    · rw [toNat_bytesToInt m.byteswap hl]
      unfold wordAt
      have hword : (bytes.take (index + 4)).drop index = a := by
        rw [List.drop_take, hdrop]
        have h4 : index + 4 - index = a.length := by omega
        rw [h4, List.take_left]
      rw [hword]
  · intro e he hlt
    unfold ParsedBinaryMessage.readWord
    rw [hslice.ends e he hlt]
    rfl

/-- The value that is returned, made of what was read. -/
theorem Follows.map {α β : Type} {w : Walk} {P : α → List UInt8 → Prop} {Q : β → List UInt8 → Prop}
    {r : Except ParseError (α × Nat)} {g : α → β} (h : Follows bytes index w P r)
    (hPQ : ∀ a l, P a l → Q (g a) l) :
    Follows bytes index w Q (r >>= fun p => pure (g p.1, p.2)) := by
  have hw : w.andThen Walk.fits = w := by cases w <;> rfl
  rw [← hw]
  refine h.bind (fun e => Nat.le_refl e) ?_
  intro a e l ha hlt hlen
  refine follows_pure hlt hlen ?_
  rw [List.append_nil]
  exact hPQ a l ha

/-- A slice behind the word that is its length. -/
theorem slice_follows (m : ParsedBinaryMessage) {e : Nat} (hlt : e < uintSize) (hlen : e ≤ bytes.length)
    {v : BitVec 64} {l : List UInt8} (hv : IsWord m.byteswap bytes index v l) :
    Follows bytes e (fieldAt bytes e (wordAt m.byteswap bytes index)) (fun a l => a = l)
      (takeSlice bytes e (toWord v).toNat) := by
  have hbound : (toWord v).toNat < uintSize := (toWord v).isLt
  rw [← hv.2]
  exact (takeSlice_follows hlt hlen _ hbound).imp fun a l h => h.1

/-- The bytes of a name. -/
def Var.nameBytes (byteswap nonames : Bool) (v : Var) : List UInt8 :=
  if nonames then [] else wordBytes byteswap v.nameLength ++ v.name

theorem readName_follows (m : ParsedBinaryMessage) (hi : index < uintSize) (hlen : index ≤ bytes.length) :
    Follows bytes index (if m.nonames then Walk.fits index else sizedAt m.byteswap bytes index)
      (fun v l => l = v.nameBytes m.byteswap m.nonames) (m.readName bytes index) := by
  unfold ParsedBinaryMessage.readName Var.nameBytes
  split
  · exact follows_pure hi hlen rfl
  · refine (readWord_follows m hi hlen).bind (grows_fieldAt bytes fun _ => _) ?_
    intro nameLength e l hv hlt hle
    refine (slice_follows m hlt hle hv).map ?_
    intro name l' hname
    rw [hv.1, ← hname]
    rfl

/-- **One variable.** -/
theorem readVar_follows (m : ParsedBinaryMessage) (hi : index < uintSize) (hlen : index ≤ bytes.length) :
    Follows bytes index (varAt m.byteswap m.nonames bytes index)
      (fun v l => l = v.encode m.byteswap m.nonames) (m.readVar bytes index) := by
  unfold ParsedBinaryMessage.readVar varAt
  refine (readName_follows m hi hlen).bind
    (Grows.andThen (grows_fieldAt bytes fun _ => 4) (grows_sizedAt m.byteswap bytes)) ?_
  intro var e₁ l₁ hname hlt₁ hle₁
  refine (readWord_follows m hlt₁ hle₁).bind (grows_sizedAt m.byteswap bytes) ?_
  intro varType e₂ l₂ htype hlt₂ hle₂
  refine (readWord_follows m hlt₂ hle₂).bind (grows_fieldAt bytes fun _ => _) ?_
  intro varSize e₃ l₃ hsize hlt₃ hle₃
  refine (slice_follows m hlt₃ hle₃ hsize).map
    (g := fun value => var.setValue value varSize (toWord varType) m.byteswap) ?_
  intro value l₄ hvalue
  rw [hname, htype.1, hsize.1, ← hvalue]
  rfl

/-- **The variables**: as many as were asked for, one behind the other. -/
theorem readVars_follows (m : ParsedBinaryMessage) (n : Nat) (hi : index < uintSize)
    (hlen : index ≤ bytes.length) :
    Follows bytes index (varsAt m.byteswap m.nonames bytes n index)
      (fun vs l => vs.length = n ∧ l = vs.flatMap (Var.encode m.byteswap m.nonames))
      (m.readVars bytes n index) := by
  induction n generalizing index with
  | zero => exact follows_pure hi hlen ⟨rfl, rfl⟩
  | succ n ih =>
    refine (readVar_follows m hi hlen).bind (grows_varsAt m.byteswap m.nonames bytes n) ?_
    intro var e l hvar hlt hle
    refine (ih hlt hle).map ?_
    intro vars l' hvars
    refine ⟨congrArg (· + 1) hvars.1, ?_⟩
    rw [hvar, hvars.2]
    rfl

/-! ## Which bytes are read exactly -/

/-- The header of the message is accepted. -/
def HeaderOk (byteswap : Bool) (bytes : List UInt8) : Prop :=
  12 ≤ bytes.length ∧
    ParsedBinaryMessage.validateMessageType (BitVec.ofNat 32 (wordAt byteswap bytes 0)) = true ∧
    bytes.length - 4 = wordAt byteswap bytes 4

/-- **The announced variables end in sight**: no field of them that the reader comes to ends at or beyond
    2^32, and if all of them are in the message they fill it. -/
def Sound (byteswap nonames : Bool) (bytes : List UInt8) : Prop :=
  HeaderOk byteswap bytes →
    (varsAt byteswap nonames bytes (wordAt byteswap bytes 8) 12).last < uintSize ∧
    ∀ e, varsAt byteswap nonames bytes (wordAt byteswap bytes 8) 12 = .fits e → e = bytes.length

/-- **The message is rejected, or it is read exactly**: the announced number of variables, and what is read
    is written as the same bytes. -/
def Exact (byteswap nonames : Bool) (bytes : List UInt8) : Prop :=
  match ({ byteswap := byteswap, nonames := nonames } : ParsedBinaryMessage).parse bytes with
  | .ok m => m.variableList.length = m.numVars.toNat ∧ m.encode = bytes
  | .error (.malformed _) => True
  | .error (.invalidRange _ _) => False

/-- A word of the header. -/
theorem readWord_header (m : ParsedBinaryMessage) (hi : index + 4 ≤ 12) (hlen : 12 ≤ bytes.length) :
    ∃ v, m.readWord bytes index = .ok (v, index + 4) ∧ (toWord v).toNat = wordAt m.byteswap bytes index ∧
      bytes.drop index = wordBytes m.byteswap (toWord v) ++ bytes.drop (index + 4) := by
  have hlt : index + 4 < uintSize := by
    unfold uintSize
    omega
  have hfits : fieldAt bytes index 4 = .fits (index + 4) := if_pos (by omega)
  obtain ⟨v, l, hr, hv, -, hdrop⟩ :=
    (readWord_follows m (by omega) (by omega)).reads _ hfits hlt
  exact ⟨v, hr, hv.2, hv.1 ▸ hdrop⟩

/-- What `parse` comes to, by the header. -/
theorem parse_header (m : ParsedBinaryMessage) (bytes : List UInt8) :
    (¬ HeaderOk m.byteswap bytes ∧ ∃ t, m.parse bytes = .error (.malformed t)) ∨
    (HeaderOk m.byteswap bytes ∧ ∃ messageType messageSize numVars : BitVec 32,
      bytes = wordBytes m.byteswap messageType ++ (wordBytes m.byteswap messageSize ++
        (wordBytes m.byteswap numVars ++ bytes.drop 12)) ∧
      numVars.toNat = wordAt m.byteswap bytes 8 ∧
      m.parse bytes = m.readVars bytes numVars.toNat 12 >>= fun p => return { m with
        messageType := messageType
        messageSize := messageSize
        numVars := numVars
        variableList := m.variableList ++ p.1 }) := by
  by_cases hlen : 12 ≤ bytes.length
  · obtain ⟨v₀, hr₀, hw₀, hd₀⟩ := readWord_header m (show 0 + 4 ≤ 12 by omega) hlen
    obtain ⟨v₄, hr₄, hw₄, hd₄⟩ := readWord_header m (show 4 + 4 ≤ 12 by omega) hlen
    obtain ⟨v₈, hr₈, hw₈, hd₈⟩ := readWord_header m (show 8 + 4 ≤ 12 by omega) hlen
    have htype : BitVec.ofNat 32 (wordAt m.byteswap bytes 0) = toWord v₀ := by
      rw [← hw₀, BitVec.ofNat_toNat, BitVec.setWidth_eq]
    have hparse : m.parse bytes =
        if ParsedBinaryMessage.validateMessageType (toWord v₀) = false then
          .error (.malformed (ParsedBinaryMessage.unknownMessageType (toWord v₀)))
        else if bytes.length - 4 ≠ (toWord v₄).toNat then
          .error (.malformed (ParsedBinaryMessage.sizeMismatch (toWord v₄).toNat (bytes.length - 4)))
        else m.readVars bytes (toWord v₈).toNat 12 >>= fun p => return { m with
          messageType := toWord v₀
          messageSize := toWord v₄
          numVars := toWord v₈
          variableList := m.variableList ++ p.1 } := by
      unfold ParsedBinaryMessage.parse
      have hnot : ¬ bytes.length < ParsedBinaryMessage.headerSize := Nat.not_lt.mpr hlen
      rw [if_neg hnot, hr₀]
      show (if _ then _ else (m.readWord bytes 4 >>= _)) = _
      rw [hr₄]
      show (if _ then _ else if _ then _ else (m.readWord bytes 8 >>= _)) = _
      rw [hr₈]
      rfl
    have hheader : HeaderOk m.byteswap bytes ↔
        ParsedBinaryMessage.validateMessageType (toWord v₀) = true ∧
          bytes.length - 4 = (toWord v₄).toNat := by
      unfold HeaderOk
      rw [htype, hw₄]
      exact and_iff_right hlen
    rw [hheader, hparse]
    by_cases hok : ParsedBinaryMessage.validateMessageType (toWord v₀) = true
    · by_cases hsize : bytes.length - 4 = (toWord v₄).toNat
      · right
        refine ⟨⟨hok, hsize⟩, toWord v₀, toWord v₄, toWord v₈, ?_, hw₈, ?_⟩
        · rw [← hd₈, ← hd₄, ← hd₀]
          rfl
        · rw [if_neg (by rw [hok]; decide), if_neg (not_not.mpr hsize)]
      · left
        refine ⟨fun h => hsize h.2, ParsedBinaryMessage.sizeMismatch (toWord v₄).toNat (bytes.length - 4), ?_⟩
        rw [if_neg (by rw [hok]; decide), if_pos hsize]
    · left
      refine ⟨fun h => hok h.1, ParsedBinaryMessage.unknownMessageType (toWord v₀), ?_⟩
      rw [if_pos (Bool.eq_false_iff.mpr hok)]
  · have hshort : bytes.length < ParsedBinaryMessage.headerSize := Nat.not_le.mp hlen
    left
    refine ⟨fun h => hlen h.1, ParsedBinaryMessage.notEnoughBytes bytes.length, ?_⟩
    unfold ParsedBinaryMessage.parse
    rw [if_pos hshort]
    rfl

/-- **The reader is exact where the announced variables end in sight**, and only there. -/
theorem parse_exact (byteswap nonames : Bool) (bytes : List UInt8) :
    Exact byteswap nonames bytes ↔ Sound byteswap nonames bytes := by
  unfold Exact Sound
  rcases parse_header { byteswap := byteswap, nonames := nonames } bytes with
    ⟨hno, t, hparse⟩ | ⟨hok, messageType, messageSize, numVars, hbytes, hnum, hparse⟩
  · rw [hparse]
    exact ⟨fun _ h => absurd h hno, fun _ => trivial⟩
  · have hlen : 12 ≤ bytes.length := hok.1
    have hvars := readVars_follows { byteswap := byteswap, nonames := nonames } numVars.toNat
      (show 12 < uintSize by decide) hlen
    rw [hnum] at hvars hparse
    rw [hparse]
    simp only at hvars hbytes ⊢
    generalize varsAt byteswap nonames bytes (wordAt byteswap bytes 8) 12 = w at hvars ⊢
    by_cases hlast : w.last < uintSize
    · cases w with
      | breaks e =>
        rw [hvars.ends e rfl hlast]
        exact ⟨fun _ _ => ⟨hlast, fun _ h => nomatch h⟩, fun _ => trivial⟩
      | fits e =>
        obtain ⟨vs, l, hr, ⟨hcount, hl⟩, hle, hdrop⟩ := hvars.reads e rfl hlast
        have hfull : e = bytes.length ↔ bytes.drop 12 = l := by
          rw [hdrop]
          constructor
          · intro he
            rw [he, List.drop_length, List.append_nil]
          · intro heq
            have hnil : bytes.drop e = [] := List.append_right_eq_self.mp heq
            exact Nat.le_antisymm hle (List.drop_eq_nil_iff.mp hnil)
        have hwritten : ∀ d : List UInt8, wordBytes byteswap messageType ++ (wordBytes byteswap messageSize ++
            (wordBytes byteswap numVars ++ d)) = bytes ↔ bytes.drop 12 = d := by
          intro d
          conv_lhs => rw [hbytes]
          rw [List.append_cancel_left_eq, List.append_cancel_left_eq, List.append_cancel_left_eq]
          exact eq_comm
        rw [hr]
        show (([] : List Var) ++ vs).length = numVars.toNat ∧
          wordBytes byteswap messageType ++ (wordBytes byteswap messageSize ++ (wordBytes byteswap numVars ++
            (([] : List Var) ++ vs).flatMap (Var.encode byteswap nonames))) = bytes ↔ _
        rw [List.nil_append, hwritten, ← hl, ← hfull, hcount, hnum]
        constructor
        · intro h _
          refine ⟨hlast, ?_⟩
          intro e' he'
          cases he'
          exact h.2
        · intro h
          exact ⟨rfl, (h hok).2 e rfl⟩
    · obtain ⟨first, last, hr⟩ := hvars.wraps (Nat.not_lt.mp hlast)
      rw [hr]
      exact ⟨fun h => h.elim, fun h => hlast (h hok).1⟩

/-- A name of 2^32 - 1 bytes is announced: its end comes out in front of its beginning. -/
def wrappingName : List UInt8 := [0, 0, 0, 0, 12, 0, 0, 0, 1, 0, 0, 0, 255, 255, 255, 255]

/-- One byte more than the header and the variables it announces. -/
def trailingByte : List UInt8 := [0, 0, 0, 0, 9, 0, 0, 0, 0, 0, 0, 0, 7]

theorem parse_notExact : ¬ Exact false false wrappingName ∧ ¬ Exact false false trailingByte := by
  have hwrap : ({ byteswap := false, nonames := false } : ParsedBinaryMessage).parse wrappingName =
      .error (.invalidRange 16 15) := by decide +kernel
  have htrail : ({ byteswap := false, nonames := false } : ParsedBinaryMessage).parse trailingByte =
      .ok { messageSize := 9, byteswap := false, nonames := false } := by decide +kernel
  refine ⟨?_, ?_⟩
  · unfold Exact
    rw [hwrap]
    exact id
  · unfold Exact
    rw [htrail]
    intro h
    exact absurd h.2 (by decide)

/-! ## What is written is read -/

/-- A variable as `parse` makes it: with a name or without, and with the lengths of its bytes. -/
structure Var.WellFormed (byteswap nonames : Bool) (v : Var) : Prop where
  named : if nonames then v.hasName = false ∧ v.nameLength = 0 ∧ v.name = [] else v.hasName = true
  nameLength : v.name.length = v.nameLength.toNat
  varSize : v.valueBytes.length = v.varSize.toNat
  byteswap : v.byteswap = byteswap

/-- A message whose header says what follows it. -/
structure ParsedBinaryMessage.WellFormed (m : ParsedBinaryMessage) : Prop where
  messageType : validateMessageType m.messageType = true
  messageSize : m.encode.length - 4 = m.messageSize.toNat
  numVars : m.variableList.length = m.numVars.toNat
  vars : ∀ v ∈ m.variableList, v.WellFormed m.byteswap m.nonames
  short : m.encode.length < uintSize

theorem takeSlice_append (front l rest : List UInt8) (h : (front ++ (l ++ rest)).length < uintSize) :
    takeSlice (front ++ (l ++ rest)) front.length l.length = .ok (l, (front ++ l).length) := by
  rw [List.length_append, List.length_append] at h
  have hmod : (front.length + l.length) % uintSize = front.length + l.length := Nat.mod_eq_of_lt (by omega)
  unfold takeSlice slice
  simp only [hmod, List.length_append]
  rw [if_neg (by omega), if_neg (by omega), List.drop_take, List.drop_left]
  have hlen : front.length + l.length - front.length = l.length := by omega
  rw [hlen, List.take_left]

variable {m : ParsedBinaryMessage}

theorem readWord_append (front rest : List UInt8) (w : BitVec 32)
    (h : (front ++ (wordBytes m.byteswap w ++ rest)).length < uintSize) :
    ∃ v, m.readWord (front ++ (wordBytes m.byteswap w ++ rest)) front.length =
      .ok (v, (front ++ wordBytes m.byteswap w).length) ∧ toWord v = w := by
  have hslice := takeSlice_append front (wordBytes m.byteswap w) rest h
  rw [length_wordBytes] at hslice
  refine ⟨bytesToInt (wordBytes m.byteswap w) m.byteswap, ?_, bytesToInt_wordBytes m.byteswap w⟩
  unfold ParsedBinaryMessage.readWord
  rw [hslice]
  rfl

theorem readName_append (front rest : List UInt8) {v : Var} (hv : v.WellFormed m.byteswap m.nonames)
    (h : (front ++ (v.nameBytes m.byteswap m.nonames ++ rest)).length < uintSize) :
    m.readName (front ++ (v.nameBytes m.byteswap m.nonames ++ rest)) front.length =
      .ok (⟨v.hasName, v.nameLength, v.name, 0, 0, [], false⟩,
        (front ++ v.nameBytes m.byteswap m.nonames).length) := by
  have hnamed := hv.named
  unfold ParsedBinaryMessage.readName Var.nameBytes at *
  split
  · rename_i hno
    rw [if_pos hno] at hnamed
    rw [hnamed.1, hnamed.2.1, hnamed.2.2, List.append_nil]
    rfl
  · rename_i hno
    rw [if_neg hno] at hnamed h
    rw [List.append_assoc] at h ⊢
    obtain ⟨n, hn, hword⟩ := readWord_append (m := m) front (v.name ++ rest) v.nameLength h
    rw [hn]
    show (takeSlice _ _ _ >>= _) = _
    have hslice := takeSlice_append (front ++ wordBytes m.byteswap v.nameLength) v.name rest
      (by rw [List.append_assoc]; exact h)
    rw [List.append_assoc] at hslice
    rw [hword, ← hv.nameLength, hslice, hnamed]
    show Except.ok (Var.setName _ n v.name, _) = _
    unfold Var.setName
    rw [hword, List.append_assoc]

theorem readVar_append (front rest : List UInt8) {v : Var} (hv : v.WellFormed m.byteswap m.nonames)
    (h : (front ++ (v.encode m.byteswap m.nonames ++ rest)).length < uintSize) :
    m.readVar (front ++ (v.encode m.byteswap m.nonames ++ rest)) front.length =
      .ok (v, (front ++ v.encode m.byteswap m.nonames).length) := by
  have hbytes : v.encode m.byteswap m.nonames = v.nameBytes m.byteswap m.nonames ++
      (wordBytes m.byteswap v.trickType ++ (wordBytes m.byteswap v.varSize ++ v.valueBytes)) := rfl
  rw [hbytes] at h ⊢
  simp only [List.append_assoc] at h ⊢
  unfold ParsedBinaryMessage.readVar
  rw [readName_append front _ hv h]
  show (m.readWord _ _ >>= _) = _
  have htype := readWord_append (m := m) (front ++ v.nameBytes m.byteswap m.nonames)
    (wordBytes m.byteswap v.varSize ++ (v.valueBytes ++ rest)) v.trickType
    (by simp only [List.append_assoc]; exact h)
  simp only [List.append_assoc] at htype
  obtain ⟨t, ht, htw⟩ := htype
  rw [ht]
  show (m.readWord _ _ >>= _) = _
  have hsize := readWord_append (m := m)
    (front ++ (v.nameBytes m.byteswap m.nonames ++ wordBytes m.byteswap v.trickType))
    (v.valueBytes ++ rest) v.varSize (by simp only [List.append_assoc]; exact h)
  simp only [List.append_assoc] at hsize
  obtain ⟨s, hs, hsw⟩ := hsize
  rw [hs]
  show (takeSlice _ _ _ >>= _) = _
  have hvalue := takeSlice_append
    (front ++ (v.nameBytes m.byteswap m.nonames ++ (wordBytes m.byteswap v.trickType ++
      wordBytes m.byteswap v.varSize))) v.valueBytes rest (by simp only [List.append_assoc]; exact h)
  simp only [List.append_assoc] at hvalue
  rw [hsw, ← hv.varSize, hvalue]
  show Except.ok (Var.setValue _ v.valueBytes s (toWord t) m.byteswap, _) = _
  unfold Var.setValue
  rw [hsw, htw, ← hv.byteswap]

theorem readVars_append (front : List UInt8) {vs : List Var}
    (hvs : ∀ v ∈ vs, v.WellFormed m.byteswap m.nonames)
    (h : (front ++ vs.flatMap (Var.encode m.byteswap m.nonames)).length < uintSize) :
    m.readVars (front ++ vs.flatMap (Var.encode m.byteswap m.nonames)) vs.length front.length =
      .ok (vs, (front ++ vs.flatMap (Var.encode m.byteswap m.nonames)).length) := by
  induction vs generalizing front with
  | nil =>
    rw [List.flatMap_nil, List.append_nil]
    rfl
  | cons v vs ih =>
    rw [List.flatMap_cons] at h ⊢
    have hvar := readVar_append front (vs.flatMap (Var.encode m.byteswap m.nonames))
      (hvs v List.mem_cons_self) h
    show (m.readVar _ _ >>= _) = _
    rw [hvar]
    show (m.readVars _ _ _ >>= _) = _
    have hrest := ih (front ++ v.encode m.byteswap m.nonames)
      (fun w hw => hvs w (List.mem_cons_of_mem v hw)) (by rw [List.append_assoc]; exact h)
    rw [List.append_assoc] at hrest
    rw [hrest]
    rfl

/-- **What is written is read**, if the lengths in it are those of what follows. -/
theorem parse_encode (hm : m.WellFormed) :
    ({ byteswap := m.byteswap, nonames := m.nonames } : ParsedBinaryMessage).parse m.encode = .ok m := by
  have hshort := hm.short
  generalize hfresh : ({ byteswap := m.byteswap, nonames := m.nonames } : ParsedBinaryMessage) = p
  have hswap : p.byteswap = m.byteswap := by rw [← hfresh]
  have hnonames : p.nonames = m.nonames := by rw [← hfresh]
  have hencode : m.encode = wordBytes p.byteswap m.messageType ++ (wordBytes p.byteswap m.messageSize ++
      (wordBytes p.byteswap m.numVars ++ m.variableList.flatMap (Var.encode p.byteswap p.nonames))) := by
    rw [hswap, hnonames]
    rfl
  rw [hencode] at hshort
  obtain ⟨t, ht, htw⟩ := readWord_append (m := p) [] _ m.messageType hshort
  obtain ⟨s, hs, hsw⟩ := readWord_append (m := p) (wordBytes p.byteswap m.messageType) _ m.messageSize hshort
  obtain ⟨n, hn, hnw⟩ := readWord_append (m := p)
    (wordBytes p.byteswap m.messageType ++ wordBytes p.byteswap m.messageSize) _ m.numVars
    (by rw [List.append_assoc]; exact hshort)
  have hvars := readVars_append (m := p)
    (wordBytes p.byteswap m.messageType ++ wordBytes p.byteswap m.messageSize ++ wordBytes p.byteswap m.numVars)
    (by rw [hswap, hnonames]; exact hm.vars) (by simp only [List.append_assoc]; exact hshort)
  rw [List.append_assoc] at hn
  rw [List.append_assoc (wordBytes p.byteswap m.messageType ++ _), List.append_assoc] at hvars
  rw [List.nil_append, ← hencode] at ht
  rw [← hencode] at hs hn hvars
  have hlen : ¬ m.encode.length < ParsedBinaryMessage.headerSize := by
    unfold ParsedBinaryMessage.encode ParsedBinaryMessage.headerSize
    simp only [List.length_append, length_wordBytes]
    omega
  unfold ParsedBinaryMessage.parse
  rw [if_neg hlen]
  show (p.readWord _ 0 >>= _) = _
  rw [show (0 : Nat) = ([] : List UInt8).length from rfl, ht]
  show (if _ then _ else (p.readWord _ (wordBytes p.byteswap m.messageType).length >>= _)) = _
  rw [htw, if_neg (by rw [hm.messageType]; decide), hs]
  show (if _ then _ else (p.readWord _ _ >>= _)) = _
  rw [hsw, if_neg (not_not.mpr hm.messageSize), hn]
  show (p.readVars _ _ _ >>= _) = _
  rw [hnw, ← hm.numVars, hvars, ← hfresh]
  rfl

end Trick.BinaryParser
