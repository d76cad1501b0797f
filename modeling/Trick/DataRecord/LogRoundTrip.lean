/-
  What `TrickBinary` reads of a log that `DRBinary` has written.

  1. **The header** (`open_file`): the reader gets through it, whatever the two byte orders are, and knows the
     place of its variable.

  2. **The records** (`after_eq`): every call of `get` takes one, and there is no other after the last.

  3. **The value** (`value_eq`): the bytes at the place of the variable, read by the rules of its type
     (`seen`).

  4. **Main result** (`recovered_iff`): the variable comes back exactly when its unit is left as it is by the
     conversion, a `long` is not negative, an `unsigned short` from another machine is below 2^15, and the
     four bytes at the place of an enumeration are its value.
-/
import Trick.DataRecord.BinaryLog

namespace Trick.DataRecord

open Trick.Lib

/-! ## Words -/

theorem fread_append (l rest : List UInt8) : fread l.length (l ++ rest) = some (l, rest) := by
  unfold fread
  rw [if_pos (by rw [List.length_append]; omega), List.take_left, List.drop_left]

/-- **The reader swaps what has to be swapped.** -/
theorem word_eq (big host : Bool) (l : List UInt8) : word host (big != host) l = loadBytes big l := by
  unfold word
  by_cases heq : big = host
  · subst heq
    rw [if_neg (by cases big <;> decide)]
  · have hnot : big = !host := by
      cases big <;> cases host <;> first | rfl | exact absurd rfl heq
    rw [if_pos (by cases host <;> rw [hnot] <;> rfl), byteswap_loadBytes, ← hnot]

theorem word_storeBytes (big host : Bool) {n v : Nat} (h : v < 256 ^ n) :
    word host (big != host) (storeBytes big n v) = v := by
  rw [word_eq, loadBytes_storeBytes big h]

theorem readInt_writeInt (big host : Bool) {x : Int} (hle : -(256 ^ 4 : Int) ≤ 2 * x) (hlt : 2 * x < 256 ^ 4)
    (rest : List UInt8) : readInt host (big != host) (writeInt big x ++ rest) = some (x, rest) := by
  have hread : fread 4 (writeInt big x ++ rest) = some (writeInt big x, rest) := by
    have happend := fread_append (writeInt big x) rest
    rwa [show (writeInt big x).length = 4 from length_storeBytes big 4 _] at happend
  unfold readInt
  rw [hread]
  show some (signed 4 (word host (big != host) (storeBytes big 4 (toBits 4 x))), rest) = _
  rw [word_storeBytes big host (toBits_lt 4 x), signed_toBits hle hlt]

theorem readString_write (big host : Bool) (s : CString) (rest : List UInt8) :
    readString host (big != host) (writeInt big s.bytes.length ++ s.bytes ++ rest) = some (s.bytes, rest) := by
  have hshort := s.short
  unfold readString
  rw [List.append_assoc, readInt_writeInt big host (by omega) (by omega)]
  simp only [Option.bind_eq_bind, Option.bind_some, Int.natCast_nonneg, if_true, Int.toNat_natCast, fread_append,
    cString_eq_self s.noNul]
  rfl

/-! ## The header -/

/-- An entry of the header. -/
structure Entry where
  name : CString
  units : CString
  type : TrickType
  size : Nat

/-- The entry as it is written. -/
def Entry.write (e : Entry) (big : Bool) : List UInt8 := writeParam big e.name.bytes e.units.bytes e.type e.size

/-- The entry as it is added. -/
def Entry.addTo (paramName : List UInt8) (h : Header) (e : Entry) : Header :=
  h.add paramName e.name.bytes e.units.bytes (some e.type) e.size

theorem readParam_write (host : Host) (big : Bool) (paramName : List UInt8) (h : Header) {e : Entry}
    (hsmall : 2 * e.size < 256 ^ 4) (rest : List UInt8) :
    readParam host .trick10 (big != host.big) paramName h (e.write big ++ rest) =
      some (e.addTo paramName h, rest) := by
  have hcode := e.type.code_lt
  unfold readParam Entry.write writeParam
  rw [List.append_assoc, List.append_assoc, List.append_assoc, readString_write]
  simp only [Option.bind_eq_bind, Option.bind_some]
  rw [readString_write]
  simp only [Option.bind_some]
  rw [readInt_writeInt big host.big (by omega) (by omega)]
  simp only [Option.bind_some]
  rw [readInt_writeInt big host.big (by omega) (by omega)]
  simp only [Option.bind_some, TrickType.ofCode_code, if_true, reduceCtorEq, if_false]
  rfl

/-- The loop over the entries. -/
theorem readParams_write (host : Host) (big : Bool) (paramName : List UInt8) {entries : List Entry}
    (hsmall : ∀ e ∈ entries, 2 * e.size < 256 ^ 4) (h : Header) (rest : List UInt8) :
    readParams host .trick10 (big != host.big) paramName entries.length h (entries.flatMap (·.write big) ++ rest) =
      some (entries.foldl (Entry.addTo paramName) h, rest) := by
  induction entries generalizing h with
  | nil => rfl
  | cons e entries ih =>
    obtain ⟨he, hrest⟩ := List.forall_mem_cons.mp hsmall
    rw [List.flatMap_cons, List.append_assoc, List.length_cons]
    unfold readParams
    rw [readParam_write host big paramName h he]
    exact ih hrest (e.addTo paramName h)

theorem readFileType_magic (big host : Bool) : readFileType host (magic big) = some (.trick10, big != host) := by
  cases big <;> cases host <;> decide +kernel

theorem length_magic (big : Bool) : (magic big).length = 10 := by
  cases big <;> decide +kernel

/-- "--" -/
def dashDash : CString where
  bytes := text "--"
  noNul := by decide +kernel
  short := by decide +kernel

/-- The units in the file, as a string. -/
def Attr.units' (a : Attr) : CString := if a.unitsDashDash then dashDash else a.units

theorem Attr.units'_bytes (a : Attr) : a.units'.bytes = a.fileUnits := by
  unfold Attr.units' Attr.fileUnits
  split <;> rfl

theorem Attr.Recordable.size {a : Attr} (h : a.Recordable) : 0 < a.size ∧ a.size ≤ 8 := by
  unfold Attr.Recordable at h
  split at h <;> first | omega | exact h.elim

/-- The entry of the time. -/
def timeEntry : Entry where
  name := { bytes := timeName, noNul := by decide +kernel, short := by decide +kernel }
  units := { bytes := text "s", noNul := by decide +kernel, short := by decide +kernel }
  type := .double
  size := 8

namespace Recording

variable (r : Recording)

/-- The entry of a variable. -/
def entry (name : CString) : Entry where
  name := name
  units := (r.attr name.bytes).units'
  type := (r.attr name.bytes).type
  size := (r.attr name.bytes).size

/-- All entries. -/
def entries : List Entry := timeEntry :: r.names.map r.entry

theorem length_entries : r.entries.length = r.names.length + 1 := by
  unfold entries
  rw [List.length_cons, List.length_map]

theorem formatSpecificInit_eq (big : Bool) :
    r.formatSpecificInit big = magic big ++ (writeInt big r.entries.length ++ r.entries.flatMap (·.write big)) := by
  have hentries : (r.names.map r.entry).flatMap (·.write big) = r.names.flatMap fun name =>
      writeParam big name.bytes (r.attr name.bytes).fileUnits (r.attr name.bytes).type (r.attr name.bytes).size := by
    rw [List.flatMap_map]
    apply List.flatMap_congr
    intro name _
    show writeParam big name.bytes (r.attr name.bytes).units'.bytes _ _ = _
    rw [Attr.units'_bytes]
    rfl
  unfold formatSpecificInit
  rw [length_entries]
  unfold entries
  rw [List.flatMap_cons, hentries, List.append_assoc, List.append_assoc]
  rfl

theorem small_entries : ∀ e ∈ r.entries, 2 * e.size < 256 ^ 4 := by
  intro e he
  rcases List.mem_cons.mp he with rfl | he
  · decide
  · obtain ⟨name, hname, rfl⟩ := List.mem_map.mp he
    have hsize := (r.recordable name hname).size
    show 2 * (r.attr name.bytes).size < _
    omega

/-- **The reader gets through the header.** -/
theorem open_file (big : Bool) (host : Host) (paramName : List UInt8) :
    TrickBinary.open host paramName (r.file big) = some
      { big := host.big
        swap := big != host.big
        header := r.entries.foldl (Entry.addTo paramName) {}
        rest := r.rows.flatMap (r.formatSpecificWriteData big) } := by
  have hfew := r.few
  have hmagic : ∀ rest, fread 10 (magic big ++ rest) = some (magic big, rest) := by
    intro rest
    have happend := fread_append (magic big) rest
    rwa [length_magic] at happend
  have hlen := r.length_entries
  unfold TrickBinary.open file
  rw [formatSpecificInit_eq, List.append_assoc, List.append_assoc, hmagic]
  simp only [Option.bind_eq_bind, Option.bind_some, readFileType_magic]
  rw [readInt_writeInt big host.big (by omega) (by omega)]
  simp only [Option.bind_some, Int.toNat_natCast]
  rw [readParams_write host big paramName r.small_entries]
  rfl

/-! ## The records -/

/-- The size of some entries. -/
def sizeOf (names : List CString) : Nat := (names.map fun name => (r.attr name.bytes).size).sum

/-- The bytes of some variables. -/
theorem length_items (big : Bool) (row : Row) (names : List CString) :
    (names.flatMap (r.item big row)).length = r.sizeOf names := by
  induction names with
  | nil => rfl
  | cons name names ih =>
    have hitem : (r.item big row name).length = (r.attr name.bytes).size := length_storeBytes big _ _
    rw [List.flatMap_cons, List.length_append, ih, hitem]
    unfold sizeOf
    rw [List.map_cons, List.sum_cons]

theorem length_record (big : Bool) (row : Row) :
    (r.formatSpecificWriteData big row).length = 8 + r.sizeOf r.names := by
  unfold formatSpecificWriteData
  rw [List.length_append, length_storeBytes, length_items]

/-! ## The place of a variable -/

theorem foldl_recordSize (paramName : List UInt8) (names : List CString) (h : Header) :
    ((names.map r.entry).foldl (Entry.addTo paramName) h).recordSize = h.recordSize + r.sizeOf names := by
  induction names generalizing h with
  | nil => exact (Int.add_zero _).symm
  | cons name names ih =>
    have hadd : ((r.entry name).addTo paramName h).recordSize = h.recordSize + ((r.attr name.bytes).size : Int) := rfl
    rw [List.map_cons, List.foldl_cons, ih, hadd]
    unfold sizeOf
    rw [List.map_cons, List.sum_cons]
    omega

/-- No other entry is taken for the time. -/
theorem foldl_time (paramName : List UInt8) {names : List CString} (hno : ∀ name ∈ names, name.bytes ≠ timeName)
    (h : Header) :
    ((names.map r.entry).foldl (Entry.addTo paramName) h).timeSize = h.timeSize ∧
      ((names.map r.entry).foldl (Entry.addTo paramName) h).unitTimeStr = h.unitTimeStr := by
  induction names generalizing h with
  | nil => exact ⟨rfl, rfl⟩
  | cons name names ih =>
    obtain ⟨hname, hrest⟩ := List.forall_mem_cons.mp hno
    obtain ⟨htime, hunit⟩ := ih hrest ((r.entry name).addTo paramName h)
    rw [List.map_cons, List.foldl_cons, htime, hunit]
    exact ⟨if_neg hname, if_neg hname⟩

/-- An entry of another name leaves what has been found. -/
theorem foldl_param {paramName : List UInt8} {names : List CString} (hno : ∀ name ∈ names, name.bytes ≠ paramName)
    (h : Header) : ((names.map r.entry).foldl (Entry.addTo paramName) h).param = h.param := by
  induction names generalizing h with
  | nil => rfl
  | cons name names ih =>
    obtain ⟨hname, hrest⟩ := List.forall_mem_cons.mp hno
    rw [List.map_cons, List.foldl_cons, ih hrest]
    exact if_neg hname

/-- What is found of a variable that stands behind some others. -/
def found (before : List CString) (name : List UInt8) : Param where
  unitStr := if (r.attr name).fileUnits = text "--" then some (r.attr name).fileUnits
    else mapTrickUnitsToUdunits (r.attr name).fileUnits
  recordOffset := 8 + r.sizeOf before
  type := correctType (r.attr name).size (some (r.attr name).type)
  size := (r.attr name).size

/-- The last entry of a name. -/
theorem last_of_name {name : CString} (h : name ∈ r.names) :
    ∃ before last after, r.names = before ++ last :: after ∧ last.bytes = name.bytes ∧
      ∀ other ∈ after, other.bytes ≠ name.bytes := by
  have hsome : (r.names.reverse.find? fun other => other.bytes = name.bytes).isSome = true := by
    rw [List.find?_isSome]
    exact ⟨name, List.mem_reverse.mpr h, decide_eq_true rfl⟩
  obtain ⟨last, hfind⟩ := Option.isSome_iff_exists.mp hsome
  obtain ⟨hlast, behind, front, hsplit, hno⟩ := List.find?_eq_some_iff_append.mp hfind
  refine ⟨front.reverse, last, behind.reverse, ?_, of_decide_eq_true hlast, ?_⟩
  · have hrev := congrArg List.reverse hsplit
    rw [List.reverse_reverse, List.reverse_append, List.reverse_cons, List.append_assoc] at hrev
    exact hrev
  · intro other hother heq
    have hnot := hno other (List.mem_reverse.mp hother)
    rw [decide_eq_true heq] at hnot
    exact absurd hnot (by decide)

/-- The header, once it has been read. -/
def header (before : List CString) (paramName : List UInt8) : Header where
  recordSize := 8 + r.sizeOf r.names
  timeSize := some 8
  unitTimeStr := some (text "s")
  param := some (r.found before paramName)

theorem header_eq {paramName : List UInt8} {before after : List CString} {last : CString}
    (hnames : r.names = before ++ last :: after) (hlast : last.bytes = paramName)
    (hafter : ∀ other ∈ after, other.bytes ≠ paramName) :
    r.entries.foldl (Entry.addTo paramName) {} = r.header before paramName := by
  have htime := r.foldl_time paramName r.notTime (timeEntry.addTo paramName {})
  have hsize := r.foldl_recordSize paramName r.names (timeEntry.addTo paramName {})
  have hparam : ((r.names.map r.entry).foldl (Entry.addTo paramName) (timeEntry.addTo paramName {})).param =
      some (r.found before paramName) := by
    have hoffset := r.foldl_recordSize paramName before (timeEntry.addTo paramName {})
    rw [hnames, List.map_append, List.foldl_append, List.map_cons, List.foldl_cons, r.foldl_param hafter]
    generalize (before.map r.entry).foldl (Entry.addTo paramName) (timeEntry.addTo paramName {}) = h at hoffset ⊢
    subst hlast
    show (if last.bytes = last.bytes then some (Param.mk _ h.recordSize _ _) else _) = _
    rw [if_pos rfl, hoffset]
    unfold found
    rw [← Attr.units'_bytes]
    rfl
  show (r.names.map r.entry).foldl (Entry.addTo paramName) (timeEntry.addTo paramName {}) = _
  generalize (r.names.map r.entry).foldl (Entry.addTo paramName) (timeEntry.addTo paramName {}) = h at *
  obtain ⟨recordSize, timeSize, unitTimeStr, param⟩ := h
  obtain rfl : recordSize = _ := hsize
  obtain rfl : timeSize = _ := htime.1
  obtain rfl : unitTimeStr = _ := htime.2
  obtain rfl : param = _ := hparam
  have hstart : (timeEntry.addTo paramName {}).recordSize = 8 := rfl
  have htimeSize : (timeEntry.addTo paramName {}).timeSize = some 8 := by
    show (if timeName = timeName then some (8 : Int) else none) = some 8
    exact if_pos rfl
  have hunit : (timeEntry.addTo paramName {}).unitTimeStr = some (text "s") := by
    show (if timeName = timeName then some (text "s") else none) = some (text "s")
    exact if_pos rfl
  rw [hstart, htimeSize, hunit]
  rfl

/-! ## One record after the other -/

/-- What is left of the records. -/
def left (big : Bool) (rows : List Row) : List UInt8 := rows.flatMap (r.formatSpecificWriteData big)

/-- One call of `get`. -/
theorem get_left (big : Bool) {t : TrickBinary} (hsize : t.header.recordSize = 8 + r.sizeOf r.names) (row : Row)
    (rows : List Row) (hrest : t.rest = r.left big (row :: rows)) :
    t.get = (some (t.time (r.formatSpecificWriteData big row),
      t.header.param.bind (t.value (r.formatSpecificWriteData big row))), { t with rest := r.left big rows }) := by
  have hlen := r.length_record big row
  have hnat : t.header.recordSize.toNat = (r.formatSpecificWriteData big row).length := by
    rw [hsize, hlen]
    omega
  unfold TrickBinary.get
  rw [hnat, hrest]
  unfold left
  dsimp only
  rw [List.flatMap_cons, List.take_left, List.drop_left, if_neg (by omega), List.length_append, if_pos (by omega)]

/-- No call after the last record. -/
theorem get_nil {t : TrickBinary} (hsize : t.header.recordSize = 8 + r.sizeOf r.names) (hrest : t.rest = []) :
    t.get = (none, { t with rest := [] }) := by
  unfold TrickBinary.get
  dsimp only
  rw [if_neg (by omega), hrest, if_neg (by rw [List.length_nil]; omega)]

/-- **The file after some calls of `get`.** -/
theorem after_eq (big : Bool) {t : TrickBinary} (hsize : t.header.recordSize = 8 + r.sizeOf r.names) {rows : List Row}
    (hrest : t.rest = r.left big rows) (k : Nat) : t.after k = { t with rest := r.left big (rows.drop k) } := by
  induction k with
  | zero =>
    show t = _
    rw [List.drop_zero, ← hrest]
  | succ k ih =>
    show (t.after k).get.2 = _
    rw [ih]
    cases hdrop : rows.drop k with
    | nil =>
      have hnext : rows.drop (k + 1) = [] := by
        rw [← List.drop_drop, hdrop, List.drop_nil]
      have hget := r.get_nil (t := { t with rest := r.left big [] }) hsize rfl
      rw [hget, hnext]
      rfl
    | cons row rest =>
      have hnext : rows.drop (k + 1) = rest := by
        rw [← List.drop_drop, hdrop]
        rfl
      have hget := r.get_left big (t := { t with rest := r.left big (row :: rest) }) hsize row rest rfl
      rw [hget, hnext]

/-! ## The value -/

/-- The variables behind the last one of a name. -/
def behind (name : List UInt8) : List CString := (r.names.reverse.takeWhile fun other => other.bytes ≠ name).reverse

theorem behind_eq {name : List UInt8} {before after : List CString} {last : CString}
    (hnames : r.names = before ++ last :: after) (hlast : last.bytes = name)
    (hafter : ∀ other ∈ after, other.bytes ≠ name) : r.behind name = after := by
  have hall : ∀ other ∈ after.reverse, decide (other.bytes ≠ name) = true :=
    fun other hother => decide_eq_true (hafter other (List.mem_reverse.mp hother))
  unfold behind
  rw [hnames, List.reverse_append, List.reverse_cons, List.append_assoc, List.takeWhile_append_of_pos hall,
    List.singleton_append, List.takeWhile_cons_of_neg (by simp only [hlast, ne_eq, not_true, decide_false]; decide),
    List.append_nil, List.reverse_reverse]

/-- The bytes of a row from the place of a variable on. -/
def onward (big : Bool) (row : Row) (name : CString) : List UInt8 :=
  r.item big row name ++ (r.behind name.bytes).flatMap (r.item big row)

/-- **What is seen of a value**, before the conversion: the bytes at its place by the rules of the type. -/
def seen (big host : Bool) (row : Row) (name : CString) : Option Int :=
  let a := r.attr name.bytes
  let x := row.value name.bytes
  match a.type with
  -- the case of a `long` runs into that of an `unsigned long`
  | .long => some (toBits a.size x)
  | .unsignedShort => some (if big = host then x else signed 2 (toBits 2 x))
  | .enumerated =>
    if 4 ≤ (r.onward big row name).length then some (signed 4 (loadBytes big ((r.onward big row name).take 4))) else none
  | _ => some x

/-- The open file. -/
def opened (big host : Bool) (header : Header) (rest : List UInt8) : TrickBinary where
  big := host
  swap := big != host
  header := header
  rest := rest

theorem field_append {front back : List UInt8} {offset : Nat} (h : front.length = offset) (n : Nat) :
    TrickBinary.field (front ++ back) offset n = if n ≤ back.length then some (back.take n) else none := by
  subst h
  unfold TrickBinary.field
  rw [List.length_append, List.drop_left]
  exact if_congr (by omega) rfl rfl

/-- The record in front of a variable, and from it on. -/
theorem record_eq (big : Bool) (row : Row) {before after : List CString} {last : CString} {name : CString}
    (hnames : r.names = before ++ last :: after) (hlast : last.bytes = name.bytes)
    (hafter : ∀ other ∈ after, other.bytes ≠ name.bytes) :
    r.formatSpecificWriteData big row =
      (storeBytes big 8 row.time ++ before.flatMap (r.item big row)) ++ r.onward big row name := by
  have hitem : r.item big row last = r.item big row name := by
    unfold item
    rw [hlast]
  unfold formatSpecificWriteData onward
  rw [r.behind_eq hnames hlast hafter, hnames, List.flatMap_append, List.flatMap_cons, hitem, List.append_assoc]

section Value

variable {big host : Bool} {header : Header} {rest : List UInt8} {row : Row} {name : CString} {front : List UInt8}
  {offset : Nat}

theorem take_onward (big : Bool) (row : Row) (name : CString) {n : Nat} (h : n = (r.attr name.bytes).size) :
    n ≤ (r.onward big row name).length ∧
      (r.onward big row name).take n = storeBytes big n (toBits n (row.value name.bytes)) := by
  have hlen : (r.item big row name).length = n := by
    rw [h]
    exact length_storeBytes big _ _
  unfold onward
  refine ⟨by rw [List.length_append]; omega, ?_⟩
  rw [List.take_append_of_le_length (Nat.le_of_eq hlen.symm), List.take_of_length_le (Nat.le_of_eq hlen), h]
  rfl

/-- The bits of any type, read with a sign. -/
theorem signedField_bits (hfront : front.length = offset) {n : Nat} (hn : n = (r.attr name.bytes).size) :
    (opened big host header rest).signedField (front ++ r.onward big row name) offset n =
      some (.int (roundToDouble (signed n (toBits n (row.value name.bytes))))) := by
  obtain ⟨hin, htake⟩ := r.take_onward big row name hn
  unfold TrickBinary.signedField
  rw [field_append hfront, if_pos hin, htake]
  show some (Number.int (roundToDouble (signed n (word host (big != host) _)))) = _
  rw [word_storeBytes big host (toBits_lt n _)]

/-- The value of a signed type. -/
theorem signedField_eq (hfront : front.length = offset) {n : Nat} (hn : n = (r.attr name.bytes).size)
    (hle : -(256 ^ n : Int) ≤ 2 * row.value name.bytes) (hlt : 2 * row.value name.bytes < 256 ^ n) :
    (opened big host header rest).signedField (front ++ r.onward big row name) offset n =
      some (.int (roundToDouble (row.value name.bytes))) := by
  rw [r.signedField_bits hfront hn, signed_toBits hle hlt]

/-- The bits of any type, read without a sign. -/
theorem unsignedField_eq (hfront : front.length = offset) {n : Nat} (hn : n = (r.attr name.bytes).size) :
    (opened big host header rest).unsignedField (front ++ r.onward big row name) offset n =
      some (.int (roundToDouble (toBits n (row.value name.bytes)))) := by
  obtain ⟨hin, htake⟩ := r.take_onward big row name hn
  unfold TrickBinary.unsignedField
  rw [field_append hfront, if_pos hin, htake]
  show some (Number.int (roundToDouble (word host (big != host) _))) = _
  rw [word_storeBytes big host (toBits_lt n _)]

/-- The value of an enumeration. -/
theorem enumeratedField_eq (hfront : front.length = offset) :
    (opened big host header rest).signedField (front ++ r.onward big row name) offset 4 =
      if 4 ≤ (r.onward big row name).length then
        some (.int (roundToDouble (signed 4 (loadBytes big ((r.onward big row name).take 4))))) else none := by
  unfold TrickBinary.signedField
  rw [field_append hfront]
  split
  · show some (Number.int (roundToDouble (signed 4 (word host (big != host) _)))) = _
    rw [word_eq]
  · rfl

/-- **The value at the place of a variable.** -/
theorem value_eq {before : List CString} (hname : name ∈ r.names) (hrow : row ∈ r.rows)
    (hfront : front.length = 8 + r.sizeOf before) :
    (opened big host header rest).value (front ++ r.onward big row name) (r.found before name.bytes) =
      (r.seen big host row name).map fun y => .int (roundToDouble y) := by
  have hrec := r.recordable name hname
  have hrange := r.inRange row hrow name hname
  have hoffset : (r.found before name.bytes).recordOffset.toNat = 8 + r.sizeOf before := by
    show (8 + (r.sizeOf before : Int)).toNat = _
    omega
  have hsized : (r.found before name.bytes).size = (r.attr name.bytes).size := rfl
  have htype : (r.found before name.bytes).type =
      correctType (r.attr name.bytes).size (some (r.attr name.bytes).type) := rfl
  unfold Attr.Recordable at hrec
  unfold Attr.InRange at hrange
  unfold TrickBinary.value seen
  dsimp only
  rw [hoffset, hsized, htype]
  cases hty : (r.attr name.bytes).type with
  | character =>
    simp only [hty] at hrec hrange
    rw [hrec] at hrange ⊢
    exact r.signedField_eq hfront hrec.symm hrange.1 hrange.2
  | short =>
    simp only [hty] at hrec hrange
    rw [hrec] at hrange ⊢
    exact r.signedField_eq hfront hrec.symm hrange.1 hrange.2
  | integer =>
    simp only [hty] at hrec hrange
    rw [hrec] at hrange ⊢
    exact r.signedField_eq hfront hrec.symm hrange.1 hrange.2
  | longLong =>
    simp only [hty] at hrec hrange
    rw [hrec] at hrange ⊢
    exact r.signedField_eq hfront hrec.symm hrange.1 hrange.2
  | unsignedCharacter =>
    simp only [hty] at hrec hrange
    rw [hrec] at hrange ⊢
    have hbits := toBits_of_nonneg hrange.1 hrange.2
    refine (r.unsignedField_eq hfront hrec.symm).trans ?_
    rw [hbits]
    rfl
  | unsignedInteger =>
    simp only [hty] at hrec hrange
    rw [hrec] at hrange ⊢
    have hbits := toBits_of_nonneg hrange.1 hrange.2
    refine (r.unsignedField_eq hfront hrec.symm).trans ?_
    rw [hbits]
    rfl
  | unsignedLongLong =>
    simp only [hty] at hrec hrange
    rw [hrec] at hrange ⊢
    have hbits := toBits_of_nonneg hrange.1 hrange.2
    refine (r.unsignedField_eq hfront hrec.symm).trans ?_
    rw [hbits]
    rfl
  | boolean =>
    simp only [hty] at hrec hrange
    rw [hrec]
    have hbits : (toBits 1 (row.value name.bytes) : Int) = row.value name.bytes :=
      toBits_of_nonneg hrange.1 (by omega)
    refine (r.unsignedField_eq hfront hrec.symm).trans ?_
    rw [hbits]
    rfl
  | unsignedLong =>
    simp only [hty] at hrec hrange
    have hbits := toBits_of_nonneg hrange.1 hrange.2
    rcases hrec with hrec | hrec
    all_goals
      rw [hrec] at hbits ⊢
      refine (r.unsignedField_eq hfront hrec.symm).trans ?_
      rw [hbits]
      rfl
  | long =>
    simp only [hty] at hrec hrange
    -- either size is that of an unsigned type in the end
    rcases hrec with hrec | hrec
    all_goals
      rw [hrec]
      exact r.unsignedField_eq hfront hrec.symm
  | unsignedShort =>
    simp only [hty] at hrec hrange
    rw [hrec] at hrange ⊢
    have hbits := toBits_of_nonneg hrange.1 hrange.2
    show (if (big != host) = true then _ else _) = _
    by_cases heq : big = host
    · -- the same byte order
      rw [if_pos heq, if_neg (by rw [heq, bne_self_eq_false]; decide), r.unsignedField_eq hfront hrec.symm, hbits]
      rfl
    · rw [if_neg heq, if_pos (bne_iff_ne.mpr heq), r.signedField_bits hfront hrec.symm]
      rfl
  | enumerated =>
    simp only [hty] at hrec hrange
    refine (r.enumeratedField_eq hfront).trans ?_
    split <;> rfl
  | _ =>
    simp only [hty] at hrec

end Value

/-! ## The round trip -/

/-- **A variable comes back**: its unit and that of the time, and row by row the time and the value, where it is
    exactly a double; and then the end of the file. -/
def Recovered (big : Bool) (host : Host) (name : CString) : Prop :=
  ∃ t, TrickBinary.open host name.bytes (r.file big) = some t ∧
    t.header.unitTimeStr = some (text "s") ∧
    (t.header.param.bind (·.unitStr)) = some (r.attr name.bytes).fileUnits ∧
    (∀ k row, r.rows[k]? = some row → (t.after k).atEnd = false ∧
      ∃ value, (t.after k).get.1 = some (some (.double row.time), value) ∧
        (IsDouble (row.value name.bytes) → value = some (.int (row.value name.bytes)))) ∧
    ∀ k, r.rows.length ≤ k → (t.after k).atEnd = true ∧ (t.after k).get.1 = none

/-- **The unit is left as it is.** -/
def KeepsUnit (name : CString) : Prop :=
  (r.attr name.bytes).fileUnits = text "--" ∨
    mapTrickUnitsToUdunits (r.attr name.bytes).fileUnits = some (r.attr name.bytes).fileUnits

/-- **The reader's rule for the type fits the value**: a `long` is not negative; an `unsigned short` comes from a
    machine of the same byte order or is below 2^15; the four bytes at the place of an enumeration are its value. -/
def Fits (big host : Bool) (row : Row) (name : CString) : Prop :=
  match (r.attr name.bytes).type with
  | .long => 0 ≤ row.value name.bytes
  | .unsignedShort => big = host ∨ row.value name.bytes < 2 ^ 15
  | .enumerated => 4 ≤ (r.onward big row name).length ∧
      signed 4 (loadBytes big ((r.onward big row name).take 4)) = row.value name.bytes
  | _ => True

/-- The integer that is seen is converted to the value exactly when the rule fits. -/
theorem seen_iff (big host : Bool) {row : Row} {name : CString} (hname : name ∈ r.names) (hrow : row ∈ r.rows)
    (hdouble : IsDouble (row.value name.bytes)) :
    (r.seen big host row name).map (fun y => Number.int (roundToDouble y)) = some (.int (row.value name.bytes)) ↔
      r.Fits big host row name := by
  have hrec := r.recordable name hname
  have hrange := r.inRange row hrow name hname
  have hself : some (Number.int (roundToDouble (row.value name.bytes))) = some (.int (row.value name.bytes)) := by
    rw [hdouble]
  unfold Attr.Recordable at hrec
  unfold Attr.InRange at hrange
  unfold seen Fits
  dsimp only
  cases hty : (r.attr name.bytes).type with
  | long =>
    simp only [hty] at hrange
    constructor
    · intro h
      have heq : roundToDouble (toBits (r.attr name.bytes).size (row.value name.bytes)) = row.value name.bytes :=
        Number.int.inj (Option.some.inj h)
      rw [← heq]
      exact roundToDouble_nonneg (Int.natCast_nonneg _)
    · intro hnn
      have hbits := toBits_of_nonneg hnn (show row.value name.bytes < 256 ^ (r.attr name.bytes).size by omega)
      show some (Number.int (roundToDouble (toBits (r.attr name.bytes).size (row.value name.bytes)))) = _
      rw [hbits]
      exact hself
  | unsignedShort =>
    simp only [hty] at hrec hrange
    rw [hrec] at hrange
    by_cases heq : big = host
    · simp only [heq, if_true, true_or, iff_true]
      exact hself
    · simp only [heq, if_false, false_or]
      constructor
      · intro h
        have hread : roundToDouble (signed 2 (toBits 2 (row.value name.bytes))) = row.value name.bytes :=
          Number.int.inj (Option.some.inj h)
        by_contra hlarge
        -- the sign is wrong
        have hbits := toBits_of_nonneg hrange.1 hrange.2
        have hneg := signed_neg (toBits_lt 2 (row.value name.bytes)) (by omega)
        have hround := roundToDouble_neg hneg
        omega
      · intro hsmall
        show some (Number.int (roundToDouble (signed 2 (toBits 2 (row.value name.bytes))))) = _
        rw [signed_toBits (by omega) (by omega)]
        exact hself
  | enumerated =>
    simp only
    by_cases hin : 4 ≤ (r.onward big row name).length
    · have hlen : ((r.onward big row name).take 4).length = 4 := by
        rw [List.length_take]
        omega
      have hlt := loadBytes_lt big ((r.onward big row name).take 4)
      rw [hlen] at hlt
      have hrange := signed_range hlt
      have hsmall : IsDouble (signed 4 (loadBytes big ((r.onward big row name).take 4))) :=
        isDouble_of_small (by omega)
      rw [if_pos hin]
      show some (Number.int (roundToDouble _)) = _ ↔ _
      rw [hsmall]
      constructor
      · exact fun h => ⟨hin, Number.int.inj (Option.some.inj h)⟩
      · exact fun h => congrArg (fun y => some (Number.int y)) h.2
    · rw [if_neg hin]
      constructor
      · exact fun h => nomatch h
      · exact fun h => absurd h.1 hin
  | _ => exact ⟨fun _ => trivial, fun _ => hself⟩

/-- The time stamp of a record. -/
theorem time_eq (big : Bool) (host : Host) {row : Row} (hrow : row ∈ r.rows) {header : Header}
    (htime : header.timeSize = some 8) (rest : List UInt8) :
    (opened big host.big header rest).time (r.formatSpecificWriteData big row) = some (.double row.time) := by
  have hlen : (storeBytes big 8 row.time).length = 8 := length_storeBytes big 8 row.time
  have hfield : TrickBinary.field (r.formatSpecificWriteData big row) 0 8 = some (storeBytes big 8 row.time) := by
    unfold formatSpecificWriteData
    have happend := @field_append [] (storeBytes big 8 row.time ++ r.names.flatMap (r.item big row)) 0 rfl 8
    rw [List.nil_append, if_pos (by rw [List.length_append]; omega),
      List.take_append_of_le_length (Nat.le_of_eq hlen.symm), List.take_of_length_le (Nat.le_of_eq hlen)] at happend
    exact happend
  unfold TrickBinary.time
  rw [if_pos (show (opened big host.big header rest).header.timeSize = some 8 from htime), hfield]
  show some (Number.double (word host.big (big != host.big) (storeBytes big 8 row.time))) = _
  rw [word_storeBytes big host.big (r.timeBits row hrow)]

/-- The file behind the header. -/
def start (big : Bool) (host : Host) (before : List CString) (name : CString) (rows : List Row) : TrickBinary :=
  opened big host.big (r.header before name.bytes) (r.left big rows)

/-- A row that is left. -/
theorem start_cons (big : Bool) (host : Host) {before after : List CString} {last name : CString}
    (hname : name ∈ r.names) (hnames : r.names = before ++ last :: after) (hlast : last.bytes = name.bytes)
    (hafter : ∀ other ∈ after, other.bytes ≠ name.bytes) {row : Row} (hrow : row ∈ r.rows) (rows : List Row) :
    (r.start big host before name (row :: rows)).atEnd = false ∧
      (r.start big host before name (row :: rows)).get.1 = some (some (.double row.time),
        (r.seen big host.big row name).map fun y => .int (roundToDouble y)) := by
  have hlen := r.length_record big row
  constructor
  · show (r.left big (row :: rows)).isEmpty = false
    unfold left
    rw [List.flatMap_cons, List.isEmpty_eq_false_iff, ← List.length_pos_iff, List.length_append]
    omega
  · have hfront : (storeBytes big 8 row.time ++ before.flatMap (r.item big row)).length = 8 + r.sizeOf before := by
      rw [List.length_append, length_storeBytes, length_items]
    have hget := r.get_left big (t := r.start big host before name (row :: rows)) rfl row rows rfl
    have htime := r.time_eq big host hrow (show (r.header before name.bytes).timeSize = some 8 from rfl)
      (r.left big (row :: rows))
    have hvalue : (opened big host.big (r.header before name.bytes) (r.left big (row :: rows))).value
        (storeBytes big 8 row.time ++ before.flatMap (r.item big row) ++ r.onward big row name)
        (r.found before name.bytes) = (r.seen big host.big row name).map fun y => .int (roundToDouble y) :=
      r.value_eq hname hrow hfront
    rw [← r.record_eq big row hnames hlast hafter] at hvalue
    rw [hget]
    show some (TrickBinary.time (opened _ _ _ _) _, TrickBinary.value (opened _ _ _ _) _ _) = _
    rw [htime, hvalue]

/-- No row is left. -/
theorem start_nil (big : Bool) (host : Host) (before : List CString) (name : CString) :
    (r.start big host before name []).atEnd = true ∧ (r.start big host before name []).get.1 = none := by
  have hget := r.get_nil (t := r.start big host before name []) rfl rfl
  rw [hget]
  exact ⟨rfl, rfl⟩

/-- **What is read of a variable**: the header, and row by row the time and what is seen of the value. -/
theorem open_reads (big : Bool) (host : Host) {name : CString} (hname : name ∈ r.names) :
    ∃ t, TrickBinary.open host name.bytes (r.file big) = some t ∧
      t.header.unitTimeStr = some (text "s") ∧
      (t.header.param.bind (·.unitStr)) = (if (r.attr name.bytes).fileUnits = text "--" then
        some (r.attr name.bytes).fileUnits else mapTrickUnitsToUdunits (r.attr name.bytes).fileUnits) ∧
      (∀ k row, r.rows[k]? = some row → (t.after k).atEnd = false ∧
        (t.after k).get.1 = some (some (.double row.time),
          (r.seen big host.big row name).map fun y => .int (roundToDouble y))) ∧
      ∀ k, r.rows.length ≤ k → (t.after k).atEnd = true ∧ (t.after k).get.1 = none := by
  obtain ⟨before, last, after, hnames, hlast, hafter⟩ := r.last_of_name hname
  have hopen := r.open_file big host name.bytes
  rw [r.header_eq hnames hlast hafter] at hopen
  have hrun : ∀ k, (r.start big host before name r.rows).after k = r.start big host before name (r.rows.drop k) :=
    r.after_eq big (t := r.start big host before name r.rows) rfl rfl
  refine ⟨r.start big host before name r.rows, hopen, rfl, rfl, ?_, ?_⟩
  · intro k row hk
    have hrow : row ∈ r.rows := List.mem_of_getElem? hk
    obtain ⟨hlt, hget⟩ := List.getElem?_eq_some_iff.mp hk
    rw [hrun, List.drop_eq_getElem_cons hlt, hget]
    exact r.start_cons big host hname hnames hlast hafter hrow _
  · intro k hk
    rw [hrun, List.drop_eq_nil_of_le hk]
    exact r.start_nil big host before name

/-- A variable comes back when its unit is kept and the rule of its type fits every value. -/
theorem recovered_of_fits (big : Bool) (host : Host) {name : CString} (hname : name ∈ r.names)
    (hunit : r.KeepsUnit name)
    (hfits : ∀ row ∈ r.rows, IsDouble (row.value name.bytes) → r.Fits big host.big row name) :
    r.Recovered big host name := by
  obtain ⟨t, hopen, htime, hunitStr, hrows, hend⟩ := r.open_reads big host hname
  refine ⟨t, hopen, htime, ?_, ?_, hend⟩
  · rw [hunitStr]
    split
    · rfl
    · rename_i hno
      exact hunit.resolve_left hno
  · intro k row hk
    have hrow : row ∈ r.rows := List.mem_of_getElem? hk
    obtain ⟨hnot, hget⟩ := hrows k row hk
    exact ⟨hnot, _, hget, fun hdouble => (r.seen_iff big host.big hname hrow hdouble).mpr (hfits row hrow hdouble)⟩

/-- The unit of a variable that comes back is kept. -/
theorem Recovered.keepsUnit {big : Bool} {host : Host} {name : CString} (h : r.Recovered big host name)
    (hname : name ∈ r.names) : r.KeepsUnit name := by
  obtain ⟨t, hopen, -, hunit, -⟩ := h
  obtain ⟨t', hopen', -, hunitStr, -⟩ := r.open_reads big host hname
  obtain rfl : t = t' := Option.some.inj (hopen.symm.trans hopen')
  rw [hunitStr] at hunit
  by_cases hdash : (r.attr name.bytes).fileUnits = text "--"
  · exact Or.inl hdash
  · rw [if_neg hdash] at hunit
    exact Or.inr hunit

/-- The rule fits every value of a variable that comes back. -/
theorem Recovered.fits {big : Bool} {host : Host} {name : CString} (h : r.Recovered big host name)
    (hname : name ∈ r.names) : ∀ row ∈ r.rows, IsDouble (row.value name.bytes) → r.Fits big host.big row name := by
  intro row hrow hdouble
  obtain ⟨t, hopen, -, -, hrows, -⟩ := h
  obtain ⟨t', hopen', -, -, hrows', -⟩ := r.open_reads big host hname
  obtain rfl : t = t' := Option.some.inj (hopen.symm.trans hopen')
  obtain ⟨k, hk⟩ := List.getElem?_of_mem hrow
  obtain ⟨-, value, hget, hvalue⟩ := hrows k row hk
  obtain ⟨-, hget'⟩ := hrows' k row hk
  rw [hget] at hget'
  have hseen : value = (r.seen big host.big row name).map fun y => .int (roundToDouble y) :=
    (Prod.ext_iff.mp (Option.some.inj hget')).2
  rw [hvalue hdouble] at hseen
  exact (r.seen_iff big host.big hname hrow hdouble).mp hseen.symm

/-- **Main result**: when a variable comes back. -/
theorem recovered_iff (big : Bool) (host : Host) {name : CString} (hname : name ∈ r.names) :
    r.Recovered big host name ↔
      r.KeepsUnit name ∧ ∀ row ∈ r.rows, IsDouble (row.value name.bytes) → r.Fits big host.big row name :=
  ⟨fun h => ⟨h.keepsUnit r hname, h.fits r hname⟩, fun h => r.recovered_of_fits big host hname h.1 h.2⟩

end Recording

/-! ## A negative `long` -/

/-- "x" -/
def nameX : CString where
  bytes := text "x"
  noNul := by decide +kernel
  short := by decide +kernel

/-- A `long` of one unit. -/
def longAttr : Attr where
  type := .long
  size := 8
  units := { bytes := text "m", noNul := by decide +kernel, short := by decide +kernel }
  unitsDashDash := false

/-- One row of one `long`. -/
def oneLong (x : Int) (h : -(256 ^ 8 : Int) ≤ 2 * x ∧ 2 * x < 256 ^ 8) : Recording where
  names := [nameX]
  attr := fun _ => longAttr
  rows := [{ time := 0, value := fun _ => x }]
  recordable := by
    intro _ _
    exact Or.inr rfl
  inRange := by
    intro row hrow _ _
    obtain rfl := List.mem_singleton.mp hrow
    exact h
  notTime := by
    intro name hname
    obtain rfl := List.mem_singleton.mp hname
    decide +kernel
  timeBits := by
    intro row hrow
    obtain rfl := List.mem_singleton.mp hrow
    show 0 < 256 ^ 8
    decide
  few := by
    show 2 * (8 * (1 + 1)) < 256 ^ 4
    decide

/-- The machine of the example, on which both programs run. -/
def littleHost : Host where
  big := false
  convertUnitsSpec := id

theorem recovered_iff_oneLong :
    nameX ∈ (oneLong 5 (by decide)).names ∧
      ((oneLong 5 (by decide)).Recovered false littleHost nameX ↔
        (oneLong 5 (by decide)).KeepsUnit nameX ∧ ∀ row ∈ (oneLong 5 (by decide)).rows,
          IsDouble (row.value nameX.bytes) → (oneLong 5 (by decide)).Fits false littleHost.big row nameX) :=
  ⟨List.mem_singleton_self _, Recording.recovered_iff _ false littleHost (List.mem_singleton_self _)⟩

/-- A negative `long` does not come back: it is read as an `unsigned long long`. -/
theorem not_recovered :
    nameX ∈ (oneLong (-1) (by decide)).names ∧ ¬ (oneLong (-1) (by decide)).Recovered false littleHost nameX := by
  refine ⟨List.mem_singleton_self _, ?_⟩
  intro h
  have hfits := h.fits (oneLong (-1) (by decide)) (List.mem_singleton_self _) _ (List.mem_singleton_self _)
    (isDouble_of_small (show (-1 : Int).natAbs < 2 ^ 53 by decide))
  have hnn : (0 : Int) ≤ -1 := hfits
  exact absurd hnn (by decide)

end Trick.DataRecord
