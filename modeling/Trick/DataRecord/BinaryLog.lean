/-
  Binary logs: `DRBinary` writes them, `TrickBinary` reads one variable back.

  A log is a header and records.  The header has the name, the units, the type and the size of every
  variable; a record has the bytes of each of them, in the byte order of the machine that wrote them.  The
  reader adds the sizes up to find its variable, and swaps the bytes if its own machine has the other order.

  1. **Data.**  `Recording` is what a data record group of integers, booleans and enumerations has: the
     variables behind the time, what is known of each of them, and the rows.

  2. **Program, the writer** (`formatSpecificInit`, `formatSpecificWriteData`).

  3. **Program, the reader** (`TrickBinary.open`, `TrickBinary.get`, `TrickBinary.atEnd`).
-/
import Trick.Lib.Words

namespace Trick.DataRecord

open Trick.Lib

/-! ## Data -/

/-- The bytes of a text of the source. -/
def text (s : String) : List UInt8 := s.toList.map fun c => UInt8.ofNat c.toNat

/-- **A string**, the length of which is an `int`. -/
structure CString where
  bytes : List UInt8
  noNul : 0 ∉ bytes
  short : 2 * bytes.length < 256 ^ 4

/-- `TRICK_TYPE` -/
inductive TrickType where
  | void | character | unsignedCharacter | string | short | unsignedShort | integer | unsignedInteger | long
  | unsignedLong | float | double | bitfield | unsignedBitfield | longLong | unsignedLongLong | filePtr | boolean
  | wchar | wstring | voidPtr | enumerated | structured | opaqueType | stl | numberOfTypes
deriving DecidableEq

namespace TrickType

/-- The enumerators in the order of their numbers. -/
def all : List TrickType :=
  [void, character, unsignedCharacter, string, short, unsignedShort, integer, unsignedInteger, long, unsignedLong, float,
    double, bitfield, unsignedBitfield, longLong, unsignedLongLong, filePtr, boolean, wchar, wstring, voidPtr, enumerated,
    structured, opaqueType, stl, numberOfTypes]

def code (t : TrickType) : Nat := all.idxOf t

/-- The enumerator of a number. -/
def ofCode (n : Int) : Option TrickType := if 0 ≤ n then all[n.toNat]? else none

theorem ofCode_code (t : TrickType) : ofCode t.code = some t := by
  cases t <;> rfl

theorem code_lt (t : TrickType) : t.code < 26 := by
  cases t <;> decide

end TrickType

/-- What the reference of a variable says about it: for an element of a container, about the element. -/
structure Attr where
  type : TrickType
  size : Nat
  units : CString
  /-- `TRICK_MODS_UNITSDASHDASH` -/
  unitsDashDash : Bool

/-- The integer types, booleans and enumerations, with the sizes they can have. -/
def Attr.Recordable (a : Attr) : Prop :=
  match a.type with
  | .character | .unsignedCharacter | .boolean => a.size = 1
  | .short | .unsignedShort => a.size = 2
  | .integer | .unsignedInteger => a.size = 4
  | .long | .unsignedLong => a.size = 4 ∨ a.size = 8
  | .longLong | .unsignedLongLong => a.size = 8
  | .enumerated => a.size = 1 ∨ a.size = 2 ∨ a.size = 4 ∨ a.size = 8
  | _ => False

/-- The values of a type.  The values of an enumeration may be signed or unsigned. -/
def Attr.InRange (a : Attr) (x : Int) : Prop :=
  match a.type with
  | .boolean => 0 ≤ x ∧ x ≤ 1
  | .unsignedCharacter | .unsignedShort | .unsignedInteger | .unsignedLong | .unsignedLongLong => 0 ≤ x ∧ x < 256 ^ a.size
  | .enumerated => -(256 ^ a.size : Int) ≤ 2 * x ∧ x < 256 ^ a.size
  | _ => -(256 ^ a.size : Int) ≤ 2 * x ∧ 2 * x < 256 ^ a.size

/-- "sys.exec.out.time" -/
def timeName : List UInt8 := text "sys.exec.out.time"

/-- One row: the bits of the time, and the value of each variable. -/
structure Row where
  time : Nat
  value : List UInt8 → Int

/-- **What is recorded**: the variables, by the names they have in the file, and the rows. -/
structure Recording where
  names : List CString
  attr : List UInt8 → Attr
  rows : List Row
  recordable : ∀ name ∈ names, (attr name.bytes).Recordable
  inRange : ∀ row ∈ rows, ∀ name ∈ names, (attr name.bytes).InRange (row.value name.bytes)
  /-- The time is a double, also where it is asked for once more. -/
  notTime : ∀ name ∈ names, name.bytes ≠ timeName
  timeBits : ∀ row ∈ rows, row.time < 256 ^ 8
  /-- The number and the sizes add up to an `int`. -/
  few : 2 * (8 * (names.length + 1)) < 256 ^ 4

/-! ## The writer -/

/-- `write(fd, &write_value, sizeof(int))` -/
def writeInt (big : Bool) (x : Int) : List UInt8 := storeBytes big 4 (toBits 4 x)

/-- The units of a variable in the file. -/
def Attr.fileUnits (a : Attr) : List UInt8 := if a.unitsDashDash then text "--" else a.units.bytes

/-- What the header says about one variable. -/
def writeParam (big : Bool) (name units : List UInt8) (type : TrickType) (size : Nat) : List UInt8 :=
  writeInt big name.length ++ name ++ (writeInt big units.length ++ units) ++ writeInt big type.code ++ writeInt big size

/-- The last byte of a `long` that is one tells the byte order. -/
def magic (big : Bool) : List UInt8 :=
  if (storeBytes big 8 1).getLast? ≠ some 1 then text "Trick-10-L" else text "Trick-10-B"

namespace Recording

variable (r : Recording)

/-- **`format_specific_init`**: the header. -/
def formatSpecificInit (big : Bool) : List UInt8 :=
  magic big ++ writeInt big (r.names.length + 1) ++ writeParam big timeName (text "s") .double 8 ++
    r.names.flatMap fun name =>
      writeParam big name.bytes (r.attr name.bytes).fileUnits (r.attr name.bytes).type (r.attr name.bytes).size

/-- The bytes of a variable in a row. -/
def item (big : Bool) (row : Row) (name : CString) : List UInt8 :=
  storeBytes big (r.attr name.bytes).size (toBits (r.attr name.bytes).size (row.value name.bytes))

/-- **`format_specific_write_data`**: a record. -/
def formatSpecificWriteData (big : Bool) (row : Row) : List UInt8 :=
  storeBytes big 8 row.time ++ r.names.flatMap (r.item big row)

/-- The whole file. -/
def file (big : Bool) : List UInt8 := r.formatSpecificInit big ++ r.rows.flatMap (r.formatSpecificWriteData big)

end Recording

/-! ## Units -/

/-- `old_to_ud` -/
def oldToUd : List (List UInt8 × List UInt8) :=
  [("r", "rad"), ("d", "degree"), ("as", "arcsecond"), ("am", "arcminute"), ("rev", "revolution"), ("M", "m"),
    ("n.m.", "nmile"), ("sl", "slug"), ("mt", "t"), ("lbm", "lb"), ("oz", "ozf"), ("v", "V"), ("F", "degF"),
    ("C", "degC"), ("R", "degR"), ("TNT", "ton_TNT"), ("Wh", "(W*h)"), ("kWh", "(kW*h)"), ("gal", "gallon"),
    ("dB", "1"), ("one", "1"), ("cnt", "count"), ("--", "1")].map fun (old, ud) => (text old, text ud)

/-- The delimiters of `tokenize_units`. -/
def isDelimiter (c : UInt8) : Bool := (text "*/^()").contains c

/-- One token: the power of two or three at its end is put back after the unit has been looked up. -/
def mapToken (token : List UInt8) : List UInt8 :=
  let look := fun unit => (oldToUd.lookup unit).getD unit
  match token.getLast? with
  | some last => if last = 50 ∨ last = 51 then look token.dropLast ++ [last] else look token
  | none => token

/-- **`map_trick_units_to_udunits`**: the tokens are runs of delimiters and of other characters.  The units may
    not be empty, since the last character of the token is read. -/
def mapTrickUnitsToUdunits (units : List UInt8) : Option (List UInt8) :=
  if units = [] then none
  else some ((units.splitBy fun a b => isDelimiter a == isDelimiter b).flatMap mapToken)

/-! ## The reader -/

/-- `fread` of `n` bytes. -/
def fread (n : Nat) (rest : List UInt8) : Option (List UInt8 × List UInt8) :=
  if n ≤ rest.length then some (rest.take n, rest.drop n) else none

/-- A word of the machine, swapped if necessary. -/
def word (host swap : Bool) (l : List UInt8) : Nat :=
  if swap then byteswap l.length (loadBytes host l) else loadBytes host l

/-- `fread` of an `int`. -/
def readInt (host swap : Bool) (rest : List UInt8) : Option (Int × List UInt8) :=
  (fread 4 rest).map fun (l, rest) => (signed 4 (word host swap l), rest)

/-- `fread` of a length and as many characters. -/
def readString (host swap : Bool) (rest : List UInt8) : Option (List UInt8 × List UInt8) := do
  let (len, rest) ← readInt host swap rest
  if 0 ≤ len then
    let (chars, rest) ← fread len.toNat rest
    return (cString chars, rest)
  else none

/-- The version of a file. -/
inductive FileType where
  | trick05 | trick07 | trick10
deriving DecidableEq

/-- The first ten bytes: the version, and whether the bytes are swapped. -/
def readFileType (host : Bool) (fileType : List UInt8) : Option (FileType × Bool) := do
  let version ← [(text "Trick-05", FileType.trick05), (text "Trick-07", .trick07), (text "Trick-10", .trick10)].lookup
    (fileType.take 8)
  let big ← [(text "L", false), (text "B", true)].lookup (fileType.drop 9)
  return (version, big != host)

/-- `seven_to_ten_params` -/
def sevenToTenParams (type : Int) : TrickType :=
  ([(0, .character), (1, .unsignedCharacter), (2, .string), (3, .short), (4, .unsignedShort), (5, .integer),
    (6, .unsignedInteger), (7, .long), (8, .unsignedLong), (9, .float), (10, .double), (11, .bitfield),
    (12, .unsignedBitfield), (13, .longLong), (14, .unsignedLongLong), (15, .filePtr), (16, .void), (17, .boolean),
    (21, .wchar), (22, .wstring), (99, .voidPtr), (102, .enumerated), (103, .structured)].lookup type).getD .void

/-- The type that goes with the size of a `long`. -/
def correctLong (size : Int) (type : Option TrickType) : Option TrickType :=
  if size = 4 then some .integer else if size = 8 then some .longLong else type

/-- The type that goes with the size of an `unsigned long`. -/
def correctUnsignedLong (size : Int) (type : Option TrickType) : Option TrickType :=
  if size = 4 then some .unsignedInteger else if size = 8 then some .unsignedLongLong else type

/-- "Correct the type according to the size recorded." -/
def correctType (size : Int) (type : Option TrickType) : Option TrickType :=
  -- there is no `break` behind the first case
  if type = some .long then correctUnsignedLong size (correctLong size type)
  else if type = some .unsignedLong then correctUnsignedLong size type
  else type

/-- The variable that was asked for. -/
structure Param where
  unitStr : Option (List UInt8)
  recordOffset : Int
  type : Option TrickType
  size : Int
deriving DecidableEq

/-- The members that are set while the header is read. -/
structure Header where
  recordSize : Int := 0
  timeSize : Option Int := none
  unitTimeStr : Option (List UInt8) := none
  param : Option Param := none
deriving DecidableEq

/-- What `TrickBinary` needs from elsewhere: the byte order of its machine, and the conversion of the units of the
    oldest files. -/
structure Host where
  big : Bool
  convertUnitsSpec : List UInt8 → List UInt8

/-- What is done about a variable once its entry has been read. -/
def Header.add (paramName : List UInt8) (h : Header) (name units : List UInt8) (type : Option TrickType)
    (size : Int) : Header :=
  let type := correctType size type
  let isTime := name = timeName
  let isParam := name = paramName
  let found : Param :=
    { unitStr := if units = text "--" then some units else mapTrickUnitsToUdunits units
      recordOffset := h.recordSize
      type
      size }
  { recordSize := h.recordSize + size
    timeSize := if isTime then some size else h.timeSize
    unitTimeStr := if isTime then some units else h.unitTimeStr
    param := if isParam then some found else h.param }

/-- One round of the loop over the variables. -/
def readParam (host : Host) (version : FileType) (swap : Bool) (paramName : List UInt8) (h : Header)
    (rest : List UInt8) : Option (Header × List UInt8) := do
  let (name, rest) ← readString host.big swap rest
  let (units, rest) ← readString host.big swap rest
  let units := if version = .trick05 then host.convertUnitsSpec units else units
  let (type, rest) ← readInt host.big swap rest
  let type := if version = .trick10 then TrickType.ofCode type else some (sevenToTenParams type)
  let (size, rest) ← readInt host.big swap rest
  return (h.add paramName name units type size, rest)

/-- The loop. -/
def readParams (host : Host) (version : FileType) (swap : Bool) (paramName : List UInt8) :
    Nat → Header → List UInt8 → Option (Header × List UInt8)
  | 0, h, rest => some (h, rest)
  | n + 1, h, rest => do
    let (h, rest) ← readParam host version swap paramName h rest
    readParams host version swap paramName n h rest

/-- **The open file**: `rest` is what is left of it behind the file position. -/
structure TrickBinary where
  big : Bool
  swap : Bool
  header : Header
  rest : List UInt8

/-- What `get` yields. -/
inductive Number where
  /-- An integer, converted. -/
  | int (x : Int)
  /-- The bits of a `float`, converted; then swapped as a double, or not. -/
  | float (bits : Nat) (swapped : Bool)
  /-- The bits of a double. -/
  | double (bits : Nat)
deriving DecidableEq

/-- **The constructor.** -/
def TrickBinary.open (host : Host) (paramName file : List UInt8) : Option TrickBinary := do
  let (fileType, rest) ← fread 10 file
  let (version, swap) ← readFileType host.big fileType
  let (numParams, rest) ← readInt host.big swap rest
  let (header, rest) ← readParams host version swap paramName numParams.toNat {} rest
  return { big := host.big, swap, header, rest }

namespace TrickBinary

variable (t : TrickBinary)

/-- The `n` bytes of the record from `offset` on. -/
def field (record : List UInt8) (offset n : Nat) : Option (List UInt8) :=
  if offset + n ≤ record.length then some ((record.drop offset).take n) else none

/-- `(double)(swap_ ? trick_byteswap_...(*p) : *p)` of a signed type. -/
def signedField (record : List UInt8) (offset n : Nat) : Option Number :=
  (field record offset n).map fun l => .int (roundToDouble (signed n (word t.big t.swap l)))

/-- The same of an unsigned type. -/
def unsignedField (record : List UInt8) (offset n : Nat) : Option Number :=
  (field record offset n).map fun l => .int (roundToDouble (word t.big t.swap l))

/-- An `unsigned short`, which is not converted back after `trick_byteswap_short`. -/
def unsignedShortField (record : List UInt8) (offset : Nat) : Option Number :=
  if t.swap then t.signedField record offset 2 else t.unsignedField record offset 2

/-- The switch of `get`: nothing where `*value` is left as it is, and where the bytes are not in the record. -/
def value (record : List UInt8) (p : Param) : Option Number :=
  let offset := p.recordOffset.toNat
  match p.type with
  | some .character => t.signedField record offset 1
  | some .unsignedCharacter => t.unsignedField record offset 1
  | some .short => t.signedField record offset 2
  | some .unsignedShort => t.unsignedShortField record offset
  | some .enumerated | some .integer => t.signedField record offset 4
  | some .unsignedInteger => t.unsignedField record offset 4
  | some .long => t.signedField record offset 8
  | some .unsignedLong => t.unsignedField record offset 8
  | some .float => (field record offset 4).map fun l => .float (word t.big t.swap l) false
  | some .double => (field record offset 8).map fun l => .double (word t.big t.swap l)
  | some .bitfield =>
    if p.size = 1 ∨ p.size = 2 ∨ p.size = 4 then t.signedField record offset p.size.toNat else none
  | some .unsignedBitfield =>
    if p.size = 1 ∨ p.size = 2 ∨ p.size = 4 then t.unsignedField record offset p.size.toNat else none
  | some .longLong => t.signedField record offset 8
  | some .unsignedLongLong => t.unsignedField record offset 8
  | some .boolean =>
    if p.size = 1 then t.unsignedField record offset 1
    else if p.size = 4 then t.signedField record offset 4
    else none
  | _ => none

/-- The time stamp at the beginning of the record. -/
def time (record : List UInt8) : Option Number :=
  if t.header.timeSize = some 8 then (field record 0 8).map fun l => .double (word t.big t.swap l)
  else (field record 0 4).map fun l => .float (loadBytes t.big l) t.swap

/-- **`get`**: nothing where it returns zero, else the time and the value. -/
def get : Option (Option Number × Option Number) × TrickBinary :=
  let n := t.header.recordSize.toNat
  if n = 0 then (none, t)
  else if n ≤ t.rest.length then
    let record := t.rest.take n
    (some (t.time record, t.header.param.bind (t.value record)), { t with rest := t.rest.drop n })
  else (none, { t with rest := [] })

/-- `end` -/
def atEnd : Bool := t.rest.isEmpty

/-- The file after `k` calls of `get`. -/
def after : Nat → TrickBinary
  | 0 => t
  | k + 1 => (after k).get.2

end TrickBinary

end Trick.DataRecord
