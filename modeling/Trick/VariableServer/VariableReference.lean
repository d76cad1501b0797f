/-
  `VariableReference`: one variable of a session.

  A reference is made from a name: the memory manager resolves the name, and the constructor derives the
  type, the size and the two buffers from what it finds.  `stageValue` copies the variable into the stage
  buffer, `prepareForWrite` swaps the buffers, and the functions `write…` write out of the write buffer.

  What a reference sees of the simulation is a `Sim`: the variables, the memory and the pointers, all of
  which are other ones at the next call.  The machine's own byte order is the little one.  What `<<`
  makes of a number is a parameter (`Format`).  A name is a list of bytes.  No conversion of units is
  modelled.
-/
import Trick.Lib.Bytes

namespace Trick.VarServer

open Trick.Lib

/-! ## Types and references -/

/-- `TRICK_TYPE` -/
inductive TrickType where
  | void | character | unsignedCharacter | string | short | unsignedShort | integer | unsignedInteger
  | long | unsignedLong | float | double | bitfield | unsignedBitfield | longLong | unsignedLongLong
  | filePtr | boolean | wchar | wstring | voidPtr | enumerated | structured | opaqueType | stl
  | numberOfTypes
deriving DecidableEq, Repr

/-- The value of the enumerator. -/
def TrickType.code : TrickType → Nat
  | .void => 0
  | .character => 1
  | .unsignedCharacter => 2
  | .string => 3
  | .short => 4
  | .unsignedShort => 5
  | .integer => 6
  | .unsignedInteger => 7
  | .long => 8
  | .unsignedLong => 9
  | .float => 10
  | .double => 11
  | .bitfield => 12
  | .unsignedBitfield => 13
  | .longLong => 14
  | .unsignedLongLong => 15
  | .filePtr => 16
  | .boolean => 17
  | .wchar => 18
  | .wstring => 19
  | .voidPtr => 20
  | .enumerated => 21
  | .structured => 22
  | .opaqueType => 23
  | .stl => 24
  | .numberOfTypes => 25

abbrev Name := List UInt8

/-- A pointer. -/
inductive Address where
  | null
  /-- The static `_bad_ref_int`. -/
  | badRefInt
  /-- The static `_do_not_resolve_bad_ref_int`. -/
  | doNotResolveBadRefInt
  | at (a : Int)
deriving DecidableEq

/-- `INDEX` -/
structure Index where
  size : Nat := 0
  start : Nat := 0
deriving DecidableEq

/-- `ATTRIBUTES` -/
structure Attributes where
  type : TrickType
  size : Nat
  numIndex : Nat := 0
  index : List Index := []
  stlElemType : TrickType := .void
  /-- `mods & TRICK_MODS_UNITSDASHDASH` -/
  unitsDashDash : Bool := false
deriving DecidableEq

/-- `index[i]` -/
def Attributes.indexAt (a : Attributes) (i : Nat) : Index := a.index.getD i {}

/-- `ADDRESS_NODE` -/
inductive AddressNode where
  | address (a : Address)
  | offset (o : Int)
  | dereference
deriving DecidableEq

/-- `REF2` -/
structure Ref2 where
  reference : Name
  address : Address
  attr : Attributes
  numIndex : Nat := 0
  pointerPresent : Bool := false
  stlPresent : Bool := false
  addressPath : List AddressNode := []
deriving DecidableEq

/-- The simulation, as a reference sees it.  A string ends with a character 0; a record keeps its name,
    and nothing in the simulation points to `_bad_ref_int`. -/
structure Sim where
  /-- `ref_attributes` -/
  refAttributes : Name → Option Ref2
  byte : Address → Nat → UInt8
  /-- What a pointer at an address points to. -/
  pointerAt : Address → Address
  /-- `c_str` of the string at an address. -/
  cStr : Address → Address
  strlen : Address → Nat
  wcslen : Address → Nat
  /-- `get_size` of the memory manager. -/
  getSize : Address → Nat
  /-- `get_alloc_info_of` finds an allocation. -/
  allocated : Address → Bool
  strlen_spec : ∀ a, byte a (strlen a) = 0
  wcslen_spec : ∀ a k, k < 4 → byte a (4 * wcslen a + k) = 0
  reference_spec : ∀ name r, refAttributes name = some r → r.reference = name
  address_spec : ∀ name r, refAttributes name = some r → r.address ≠ .badRefInt ∧
    .address .badRefInt ∉ r.addressPath
  pointerAt_spec : ∀ a, pointerAt a ≠ .badRefInt

namespace Sim

/-- The bytes from an address on. -/
def bytes (sim : Sim) (a : Address) (n : Nat) : List UInt8 := (List.range n).map (sim.byte a)

/-- One node of `follow_address_path`. -/
def followNode (sim : Sim) (a : Address) : AddressNode → Address
  | .address a' => a'
  | .dereference => sim.pointerAt a
  | .offset o =>
    match a with
    | .at b => .at (b + o)
    | a => a

/-- The loop of `follow_address_path`: it ends at a null pointer. -/
def followLoop (sim : Sim) : List AddressNode → Address → Address
  | [], a => a
  | n :: ns, a => if sim.followNode a n = .null then .null else sim.followLoop ns (sim.followNode a n)

/-- `follow_address_path` -/
def followAddressPath (sim : Sim) (r : Ref2) : Address := sim.followLoop r.addressPath .null

end Sim

/-! ## `ReferenceUtils` -/

/-- The reference ends in a bracket. -/
def Ref2.indexed (r : Ref2) : Bool := r.reference.getLast? = some 93

/-- `stl_elem_type_size` -/
def stlElemTypeSize : TrickType → Nat
  | .character | .unsignedCharacter | .boolean => 1
  | .short | .unsignedShort => 2
  | .integer | .unsignedInteger | .enumerated | .float => 4
  | .long | .unsignedLong | .longLong | .unsignedLongLong | .double => 8
  | .string | .wstring | .structured => 8
  | _ => 0

/-- `is_stl_ref` -/
def Ref2.isStlRef (r : Ref2) : Bool := r.stlPresent || (r.attr.type = .stl && r.indexed)

/-- `effective_trick_type` -/
def Ref2.effectiveTrickType (r : Ref2) : TrickType :=
  if r.attr.type = .stl ∧ r.indexed = true then r.attr.stlElemType else r.attr.type

/-- `effective_trick_size` -/
def Ref2.effectiveTrickSize (r : Ref2) : Nat :=
  if r.attr.type = .stl ∧ r.indexed = true then stlElemTypeSize r.attr.stlElemType else r.attr.size

/-! ## The reference -/

/-- `MAX_ARRAY_LENGTH` -/
def maxArrayLength : Nat := 4096

/-- The name of the built-in variable. -/
def timeName : Name := [116, 105, 109, 101]

/-- A variable of a session. -/
structure VariableReference where
  varInfo : Ref2
  address : Address
  size : Nat
  deref : Bool := false
  trickType : TrickType
  usedStlIndexing : Bool := false
  staged : Bool := false
  writeReady : Bool := false
  stageBuffer : List UInt8
  writeBuffer : List UInt8
  requestedUnits : String := ""
  name : Name

/-- The attributes of the two kinds of references that are errors. -/
def errorAttributes : Attributes := {
  type := .numberOfTypes
  size := 4 }

/-- `make_error_ref` -/
def makeErrorRef (name : Name) : Ref2 := {
  reference := name
  address := .badRefInt
  attr := errorAttributes }

/-- `make_do_not_resolve_ref` -/
def makeDoNotResolveRef (name : Name) : Ref2 := {
  reference := name
  address := .doNotResolveBadRefInt
  attr := errorAttributes }

/-- `make_time_ref` -/
def makeTimeRef (time : Address) : Ref2 := {
  reference := timeName
  address := time
  attr := {
    type := .double
    size := 8 } }

/-- What the constructor derives from a record. -/
structure Derived where
  trickType : TrickType
  size : Nat
  deref : Bool
  usedStlIndexing : Bool
deriving DecidableEq

/-- The product over the dimensions that a reference leaves open. -/
def Ref2.openSize (r : Ref2) : Nat :=
  ((List.range' r.numIndex (r.attr.numIndex - r.numIndex)).map fun i => (r.attr.indexAt i).size).prod

/-- The type, the size and the dereference flag before strings are given their own size. -/
def Ref2.deriveShape (sim : Sim) (r : Ref2) : Derived :=
  if r.isStlRef then
    ⟨r.effectiveTrickType, r.effectiveTrickSize, false, true⟩
  else if r.numIndex = r.attr.numIndex then
    ⟨r.effectiveTrickType, r.attr.size, false, false⟩
  else if (r.attr.indexAt (r.attr.numIndex - 1)).size ≠ 0 then
    ⟨r.effectiveTrickType, r.attr.size * r.openSize, false, false⟩
  else if r.attr.type = .character then ⟨.string, r.attr.size, true, false⟩
  else if r.attr.type = .wchar then ⟨.wstring, r.attr.size, true, false⟩
  else ⟨r.effectiveTrickType, r.attr.size * sim.getSize r.address, true, false⟩

/-- The value is a string. -/
def TrickType.IsString (t : TrickType) : Prop := t = .string ∨ t = .wstring

instance (t : TrickType) : Decidable t.IsString := inferInstanceAs (Decidable (_ ∨ _))

/-- **What the constructor derives.** -/
def Ref2.derive (sim : Sim) (r : Ref2) : Derived :=
  let d := r.deriveShape sim
  { d with size := if d.trickType.IsString then maxArrayLength else d.size }

namespace VariableReference

/-- The record of a new reference. -/
def resolve (sim : Sim) (name : Name) : Ref2 :=
  match sim.refAttributes name with
  | none => makeErrorRef name
  | some r => if r.attr.type = .structured then makeDoNotResolveRef name else r

/-- The constructor, from the record on. -/
def ofRef (sim : Sim) (r : Ref2) : VariableReference :=
  let d := r.derive sim
  { varInfo := r
    address := r.address
    size := d.size
    deref := d.deref
    trickType := d.trickType
    usedStlIndexing := d.usedStlIndexing
    stageBuffer := List.replicate d.size 0
    writeBuffer := List.replicate d.size 0
    name := r.reference }

/-- The constructor. -/
def create (sim : Sim) (name : Name) : VariableReference := ofRef sim (resolve sim name)

/-- The constructor for `time`. -/
def createTime (time : Address) : VariableReference where
  varInfo := makeTimeRef time
  address := time
  size := 8
  trickType := .double
  stageBuffer := List.replicate 8 0
  writeBuffer := List.replicate 8 0
  requestedUnits := "s"
  name := timeName

/-- The reference that `var_add` makes. -/
def varAdd (sim : Sim) (time : Address) (name : Name) : VariableReference :=
  if name = timeName then createTime time else create sim name

/-! ## Staging -/

/-- `tagAsInvalid` -/
def tagAsInvalid (v : VariableReference) : VariableReference :=
  { v with
    varInfo := makeErrorRef v.name
    address := .badRefInt }

/-- `validate` -/
def validate (sim : Sim) (v : VariableReference) : VariableReference :=
  if v.trickType ≠ .string ∧ v.trickType ≠ .wstring ∧ v.varInfo.address ≠ .badRefInt ∧
      sim.allocated v.address = false then
    v.tagAsInvalid
  else v

/-- The first step of `stageValue`: a broken connection is made again. -/
def reconnect (sim : Sim) (v : VariableReference) : VariableReference :=
  if v.varInfo.address = .badRefInt then
    match sim.refAttributes v.varInfo.reference with
    | some r =>
      { v with
        varInfo := r
        address := r.address }
    | none => v
  else v

/-- The second step: a pointer in the path of the address is followed. -/
def follow (sim : Sim) (validateAddress : Bool) (v : VariableReference) : VariableReference :=
  if v.varInfo.pointerPresent = true ∧ v.usedStlIndexing = false then
    let a := sim.followAddressPath v.varInfo
    let v := { v with address := a }
    if a = .null then v.tagAsInvalid
    else if validateAddress then v.validate sim
    else { v with varInfo := { v.varInfo with address := a } }
  else v

/-- The third step: the address of the characters of a string, or of what a pointer points to. -/
def source (sim : Sim) (v : VariableReference) : Address :=
  if v.deref then sim.pointerAt v.varInfo.address
  else if v.trickType.IsString then sim.cStr v.varInfo.address
  else v.address

/-- The size of what is copied. -/
def sourceSize (sim : Sim) (v : VariableReference) (a : Address) : Nat :=
  if v.trickType = .string then if a = .null then 0 else sim.strlen a + 1
  else if v.trickType = .wstring then if a = .null then 0 else (sim.wcslen a + 1) * 4
  else v.size

/-- The rest of `stageValue`: the copy. -/
def copy (sim : Sim) (v : VariableReference) : VariableReference :=
  let a := v.source sim
  let n := v.sourceSize sim a
  { v with
    address := a
    size := n
    stageBuffer := if a = .null then v.stageBuffer else blit (sim.bytes a n) v.stageBuffer
    staged := true }

/-- **`stageValue`** -/
def stageValue (sim : Sim) (v : VariableReference) (validateAddress : Bool) : VariableReference :=
  (({ v with writeReady := false }.reconnect sim).follow sim validateAddress).copy sim

/-- `prepareForWrite` -/
def prepareForWrite (v : VariableReference) : VariableReference :=
  if v.staged then
    { v with
      stageBuffer := v.writeBuffer
      writeBuffer := v.stageBuffer
      staged := false
      writeReady := true }
  else v

/-! ## Bit-fields -/

/-- The bits of a bit-field, moved to the least significant end. -/
def fieldBits (value : BitVec 32) (size start bits : Nat) (arithmetic : Bool) : BitVec 32 :=
  let value := if size = 2 then value <<< 16 else if size = 1 then value <<< 24 else value
  let bf :=
    if start + bits < 32 then
      if arithmetic then value.sshiftRight (32 - start - bits) else value >>> (32 - start - bits)
    else value
  bf &&& (0xFFFFFFFF#32 >>> (32 - bits))

/-- `extract_bitfield_any` -/
def extractBitfieldAny (value : BitVec 32) (size start bits : Nat) : BitVec 32 :=
  let bf := fieldBits value size start bits true
  if bf.getLsbD (bits - 1) then bf ||| (0xFFFFFFFF#32 <<< bits) else bf

/-- `extract_unsigned_bitfield_any` -/
def extractUnsignedBitfieldAny (value : BitVec 32) (size start bits : Nat) : BitVec 32 :=
  fieldBits value size start bits false

/-- The integer of the declared size at the beginning of a buffer; a signed one is extended. -/
def fieldValue (buf : List UInt8) (size : Nat) (signed : Bool) : BitVec 32 :=
  let n := if size = 4 then 4 else if size = 2 then 2 else 1
  let x := BitVec.ofNat (8 * n) (ofLeBytes (buf.take n))
  if signed then x.signExtend 32 else x.setWidth 32

/-- `GET_BITFIELD` -/
def getBitfield (buf : List UInt8) (a : Attributes) : BitVec 32 :=
  extractBitfieldAny (fieldValue buf a.size true) a.size (a.indexAt 0).start (a.indexAt 0).size

/-- `GET_UNSIGNED_BITFIELD` -/
def getUnsignedBitfield (buf : List UInt8) (a : Attributes) : BitVec 32 :=
  extractUnsignedBitfieldAny (fieldValue buf a.size false) a.size (a.indexAt 0).start
    (a.indexAt 0).size

/-! ## The binary form -/

/-- `out.write` of an `int`, swapped or not. -/
def intBytes (n : Nat) (byteswap : Bool) : List UInt8 :=
  if byteswap then (leBytes 4 n).reverse else leBytes 4 n

def writeTypeBinary (v : VariableReference) (byteswap : Bool) : List UInt8 :=
  intBytes v.trickType.code byteswap

def writeSizeBinary (v : VariableReference) (byteswap : Bool) : List UInt8 := intBytes v.size byteswap

def writeNameLengthBinary (v : VariableReference) (byteswap : Bool) : List UInt8 :=
  intBytes v.name.length byteswap

def writeNameBinary (v : VariableReference) : List UInt8 := v.name

/-- The type that the functions `writeValue…` go by. -/
def valueType (v : VariableReference) : TrickType :=
  if v.trickType = .stl then v.varInfo.attr.stlElemType else v.trickType

/-- `byteswap_var`, into a buffer of zeros: as many elements as the attributes say. -/
def byteswapVar (v : VariableReference) (buf : List UInt8) : List UInt8 :=
  let a := v.varInfo.attr
  let count := ((List.range a.numIndex).map fun j => (a.indexAt j).size).prod
  if a.size = 1 ∨ a.size = 2 ∨ a.size = 4 ∨ a.size = 8 then
    blit (swapEach a.size count buf) (List.replicate v.size 0)
  else List.replicate v.size 0

/-- `writeValueBinary`; only the first four bytes of an `int` are known. -/
def writeValueBinary (v : VariableReference) (byteswap : Bool) : List UInt8 :=
  if v.valueType = .bitfield then
    (leBytes 4 (getBitfield v.writeBuffer v.varInfo.attr).toNat).take v.size
  else if v.valueType = .unsignedBitfield then
    (leBytes 4 (getUnsignedBitfield v.writeBuffer v.varInfo.attr).toNat).take v.size
  else if v.valueType = .numberOfTypes then (leBytes 4 0).take v.size
  else if byteswap then (v.byteswapVar v.writeBuffer).take v.size
  else v.writeBuffer.take v.size

/-! ## The text form -/

/-- What `<<` and `wcs_to_ncs` make of a value. -/
structure Format where
  number : TrickType → List UInt8 → String
  integer : Int → String
  wide : List (List UInt8) → String

/-- One character of `write_escaped_string`. -/
def escapedChar (b : UInt8) : String :=
  if b = 10 then "\\n"
  else if b = 9 then "\\t"
  else if b = 8 then "\\b"
  else if b = 7 then "\\a"
  else if b = 12 then "\\f"
  else if b = 13 then "\\n"
  else if b = 11 then "\\v"
  else if 32 ≤ b ∧ b ≤ 126 then String.singleton (Char.ofNat b.toNat)
  else if 128 ≤ b then "\\xfff"
  else "\\x" ++ String.singleton (Nat.digitChar (b.toNat / 16)) ++
    String.singleton (Nat.digitChar (b.toNat % 16))

/-- `write_escaped_string` -/
def escapedString (buf : List UInt8) : String :=
  String.join ((buf.takeWhile (· ≠ 0)).map escapedChar)

/-- The characters of a wide string. -/
def wideString : List UInt8 → List (List UInt8)
  | b₀ :: b₁ :: b₂ :: b₃ :: rest =>
    if b₀ = 0 ∧ b₁ = 0 ∧ b₂ = 0 ∧ b₃ = 0 then [] else [b₀, b₁, b₂, b₃] :: wideString rest
  | _ => []

/-- What one turn of the loop of `writeValueAscii` prints, and whether it is the last. -/
def valueText (fmt : Format) (v : VariableReference) (buf : List UInt8) : String × Bool :=
  let single := v.varInfo.attr.numIndex = v.varInfo.numIndex
  match v.valueType with
  | .character => if single then (fmt.number .character buf, false) else (escapedString buf, true)
  | .unsignedCharacter =>
    if single then (fmt.number .unsignedCharacter buf, false) else (escapedString buf, true)
  | .wchar => if single then (fmt.number .wchar buf, false) else (fmt.wide (wideString buf), true)
  | .string => (escapedString buf, true)
  | .wstring => (fmt.wide (wideString buf), true)
  | .bitfield => (fmt.integer (getBitfield buf v.varInfo.attr).toInt, false)
  | .unsignedBitfield => (fmt.integer (getUnsignedBitfield buf v.varInfo.attr).toNat, false)
  | .numberOfTypes => ("BAD_REF", false)
  | .void | .filePtr | .voidPtr | .structured | .opaqueType | .stl => ("", false)
  | t => (fmt.number t buf, false)

/-- The loop of `writeValueAscii`. -/
def asciiLoop (fmt : Format) (v : VariableReference) : Nat → Nat → List UInt8 → String
  | 0, _, _ => ""
  | fuel + 1, bytesWritten, buf =>
    if bytesWritten < v.size then
      let (text, last) := valueText fmt v buf
      let bytesWritten := if last then v.size else bytesWritten + v.varInfo.attr.size
      if bytesWritten < v.size then
        text ++ "," ++ asciiLoop fmt v fuel bytesWritten (buf.drop v.varInfo.attr.size)
      else text
    else ""

/-- The units behind the value. -/
def unitsText (v : VariableReference) : String :=
  if v.requestedUnits = "" then ""
  else if v.varInfo.attr.unitsDashDash then " \x7b--\x7d"
  else " \x7b" ++ v.requestedUnits ++ "\x7d"

/-- **`writeValueAscii`**: nothing is written when the write buffer is not ready.  Every turn of the
    loop writes a byte at least; the loop does not come to an end for an attribute of size 0. -/
def writeValueAscii (fmt : Format) (v : VariableReference) : Option String :=
  if v.writeReady then some (asciiLoop fmt v v.size 0 v.writeBuffer ++ v.unitsText) else none

/-! ## What the two forms depend on -/

variable {fmt : Format} {v w : VariableReference}

theorem asciiLoop_congr (hattr : v.varInfo.attr = w.varInfo.attr)
    (hindex : v.varInfo.numIndex = w.varInfo.numIndex) (htype : v.trickType = w.trickType)
    (hsize : v.size = w.size) (fuel written : Nat) (buf : List UInt8) :
    asciiLoop fmt v fuel written buf = asciiLoop fmt w fuel written buf := by
  have htext : ∀ buf, valueText fmt v buf = valueText fmt w buf := by
    intro buf
    unfold valueText valueType
    rw [hattr, hindex, htype]
  induction fuel generalizing written buf with
  | zero => rfl
  | succ fuel ih =>
    unfold asciiLoop
    rw [htext buf, hattr, hsize]
    simp only [ih]

/-- What is written is determined by the attributes, the type, the size and the buffer. -/
theorem writeValueBinary_congr (hattr : v.varInfo.attr = w.varInfo.attr)
    (htype : v.trickType = w.trickType) (hsize : v.size = w.size)
    (hbuffer : v.writeBuffer = w.writeBuffer) (byteswap : Bool) :
    v.writeValueBinary byteswap = w.writeValueBinary byteswap := by
  unfold writeValueBinary byteswapVar valueType
  rw [hattr, htype, hsize, hbuffer]

end VariableReference

end Trick.VarServer
