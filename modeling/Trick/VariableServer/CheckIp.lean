/-
  `VariableServer::check_ip`: which clients the allow-list lets in.

  The allow-list is a set of strings and nothing checks a string that is added.  The check goes through them
  in order: an entry without a slash is compared with the text of the address, any other one is cut at its
  first slash, the text behind is given to `std::stoi` and the text in front to `inet_pton`.

  1. **Data.**  `Cidr` is a block of addresses, `Denotes` says which entries spell one, `AllowList` is a
     `std::set`, so its entries are in order and each is there once.

  2. **Program.**  `checkIp`, where `std::stoi` throws on a text that begins with no number, and where the
     shift by `32 - prefix` is undefined unless the prefix is within 0 and 32.  Nothing catches the throw.

  3. **Main result** (`correct_iff`): the check is right exactly when each entry that stops it stands behind
     one that is taken to contain the address, and no malformed entry is taken to contain an address that no
     well-formed one contains.  `not_correct` has an entry of each kind.
-/
import Trick.Lib.BitPrefix
import Trick.Connections.ClientConnection

namespace Trick.VarServer.CheckIp

open Connections (cString)

/-! ## Addresses -/

/-- The bytes of a `std::string`. -/
abbrev Text := List UInt8

def dot : UInt8 := 46
def slash : UInt8 := 47

/-- `isdigit` -/
def isDigit (b : UInt8) : Bool := decide (48 ≤ b ∧ b ≤ 57)

/-- The number that some digits spell. -/
def decimal (digits : Text) : Nat := digits.foldl (fun n d => 10 * n + (d.toNat - 48)) 0

/-- One part of an address: a number up to 255 without leading zeros. -/
def octet (field : Text) : Option Nat :=
  if field ≠ [] ∧ field.all isDigit ∧ (field.head? = some 48 → field = [48]) ∧ decimal field ≤ 255 then
    some (decimal field)
  else none

/-- `inet_pton(AF_INET, text.c_str(), …)`, in host order. -/
def inetPton (text : Text) : Option (BitVec 32) :=
  match (cString text).splitOn dot with
  | [f, g, h, i] => do
    let f ← octet f
    let g ← octet g
    let h ← octet h
    let i ← octet i
    pure (BitVec.ofNat 32 (((f * 256 + g) * 256 + h) * 256 + i))
  | _ => none

/-- The digits of one part of an address. -/
def octetText (n : Nat) : Text :=
  if n < 10 then [UInt8.ofNat (48 + n)]
  else if n < 100 then [UInt8.ofNat (48 + n / 10), UInt8.ofNat (48 + n % 10)]
  else [UInt8.ofNat (48 + n / 100), UInt8.ofNat (48 + n / 10 % 10), UInt8.ofNat (48 + n % 10)]

/-- The parts of an address. -/
def octets (addr : BitVec 32) : List Nat :=
  [addr.toNat / 16777216, addr.toNat / 65536 % 256, addr.toNat / 256 % 256, addr.toNat % 256]

/-- `inet_ntoa` -/
def inetNtoa (addr : BitVec 32) : Text := [dot].intercalate ((octets addr).map octetText)

theorem octet_octetText : ∀ n < 256, octet (octetText n) = some n := by decide +kernel

/-- Digits only. -/
theorem isDigit_octetText {n : Nat} (h : n < 256) : ∀ b ∈ octetText n, isDigit b := by
  have hall : ∀ n < 256, (octetText n).all isDigit = true := by decide +kernel
  exact List.all_eq_true.mp (hall n h)

theorem octets_lt (addr : BitVec 32) : ∀ n ∈ octets addr, n < 256 := by
  have hlt := addr.isLt
  intro n hn
  unfold octets at hn
  simp only [List.mem_cons, List.not_mem_nil, or_false] at hn
  omega

/-- Digits and dots. -/
theorem mem_inetNtoa {addr : BitVec 32} {b : UInt8} (h : b ∈ inetNtoa addr) : isDigit b ∨ b = dot := by
  unfold inetNtoa at h
  have hparts : ∀ l ∈ (octets addr).map octetText, ∀ c ∈ l, isDigit c := by
    intro l hl
    obtain ⟨n, hn, rfl⟩ := List.mem_map.mp hl
    exact isDigit_octetText (octets_lt addr n hn)
  generalize (octets addr).map octetText = parts at h hparts
  induction parts with
  | nil => cases h
  | cons l parts ih =>
    have ih := fun hb => ih hb fun x hx => hparts x (List.mem_cons_of_mem l hx)
    cases parts with
    | nil =>
      rw [List.intercalate_singleton] at h
      exact Or.inl (hparts l List.mem_cons_self b h)
    | cons k parts =>
      rw [List.intercalate_cons_cons, List.mem_append, List.mem_append] at h
      rcases h with (h | h) | h
      · exact Or.inl (hparts l List.mem_cons_self b h)
      · exact Or.inr (List.mem_singleton.mp h)
      · exact ih h

theorem not_mem_inetNtoa {addr : BitVec 32} {b : UInt8} (hdigit : ¬ isDigit b) (hdot : b ≠ dot) :
    b ∉ inetNtoa addr :=
  fun h => (mem_inetNtoa h).elim hdigit hdot

/-- **The text of an address is read as that address.** -/
theorem inetPton_inetNtoa (addr : BitVec 32) : inetPton (inetNtoa addr) = some addr := by
  have hlt := octets_lt addr
  have hsplit : (inetNtoa addr).splitOn dot = (octets addr).map octetText := by
    apply List.splitOn_intercalate
    · intro l hl hdot
      obtain ⟨n, hn, rfl⟩ := List.mem_map.mp hl
      exact absurd (isDigit_octetText (hlt n hn) dot hdot) (by decide)
    · exact List.cons_ne_nil _ _
  unfold inetPton
  rw [Connections.cString_of_noNul (not_mem_inetNtoa (by decide) (by decide)), hsplit]
  unfold octets at hlt ⊢
  simp only [List.mem_cons, List.not_mem_nil, or_false, forall_eq_or_imp, forall_eq] at hlt
  obtain ⟨h0, h1, h2, h3⟩ := hlt
  simp only [List.map_cons, List.map_nil, octet_octetText _ h0, octet_octetText _ h1, octet_octetText _ h2,
    octet_octetText _ h3, Option.bind_eq_bind, Option.bind_some, Option.pure_def, Option.some.injEq]
  apply BitVec.eq_of_toNat_eq
  rw [BitVec.toNat_ofNat]
  have haddr := addr.isLt
  omega

/-! ## Blocks of addresses -/

/-- **A block of addresses**: those that begin like the network. -/
structure Cidr where
  network : BitVec 32
  length : Nat
  length_le : length ≤ 32

def Cidr.Contains (c : Cidr) (addr : BitVec 32) : Prop := Lib.SamePrefix c.length addr c.network

instance (c : Cidr) (addr : BitVec 32) : Decidable (c.Contains addr) :=
  inferInstanceAs (Decidable (Lib.SamePrefix c.length addr c.network))

/-- `entry.find('/')` with the two `substr`. -/
def splitSlash (entry : Text) : Option (Text × Text) :=
  match entry.dropWhile (· ≠ slash) with
  | [] => none
  | _ :: rest => some (entry.takeWhile (· ≠ slash), rest)

/-- **Well formed**: an address, a slash and a number up to 32 in digits. -/
structure Denotes (entry : Text) (c : Cidr) (network digits : Text) : Prop where
  split : splitSlash entry = some (network, digits)
  noNul : 0 ∉ network
  address : inetPton network = some c.network
  nonempty : digits ≠ []
  allDigits : ∀ d ∈ digits, isDigit d
  length : decimal digits = c.length

/-- **What the entry is there for.** -/
def Admits (addr : BitVec 32) (entry : Text) : Prop :=
  entry = inetNtoa addr ∨ ∃ c network digits, Denotes entry c network digits ∧ c.Contains addr

/-- A `std::set` of strings. -/
structure AllowList where
  entries : List Text
  sorted : entries.Pairwise (· < ·)

/-! ## The check -/

/-- Why the check does not come back. -/
inductive Abort
  | invalidArgument
  | outOfRange
  | badShift
  deriving DecidableEq, Repr

/-- `isspace` -/
def isSpace (b : UInt8) : Bool := decide (b = 32 ∨ (9 ≤ b ∧ b ≤ 13))

/-- The sign, and what comes behind it. -/
def sign : Text → Bool × Text
  | b :: rest => if b = 45 then (true, rest) else if b = 43 then (false, rest) else (false, b :: rest)
  | [] => (false, [])

/-- `std::stoi`: the number that the text begins with. -/
def stoi (text : Text) : Except Abort Int :=
  let (negative, rest) := sign (text.dropWhile isSpace)
  let digits := rest.takeWhile isDigit
  if digits = [] then throw .invalidArgument
  else
    let value : Int := if negative then -(decimal digits : Int) else decimal digits
    if -2147483648 ≤ value ∧ value ≤ 2147483647 then pure value else throw .outOfRange

/-- `(prefix == 0) ? 0 : (~0u << (32 - prefix))` -/
def mask (prefixLen : Int) : Except Abort (BitVec 32) :=
  if prefixLen = 0 then pure 0
  else if 0 ≤ 32 - prefixLen ∧ 32 - prefixLen < 32 then
    pure (BitVec.allOnes 32 <<< (32 - prefixLen).toNat)
  else throw .badShift

/-- One turn of the loop. -/
def entryValid (ip : Text) (ipVal : BitVec 32) (entry : Text) : Except Abort Bool :=
  match splitSlash entry with
  | some (network, rest) => do
    let prefixLen ← stoi rest
    match inetPton network with
    | none => pure false
    | some netVal => do
      let m ← mask prefixLen
      pure (decide (ipVal &&& m = netVal &&& m))
  | none => pure (decide (ip = entry))

/-- The loop over the entries. -/
def checkLoop (ip : Text) : List Text → Except Abort Bool
  | [] => pure false
  | entry :: entries =>
    match inetPton ip with
    | none => pure false
    | some ipVal => do
      let valid ← entryValid ip ipVal entry
      if valid then pure true else checkLoop ip entries

/-- `check_ip` -/
def checkIp (allowlist : AllowList) (ip : Text) : Except Abort Bool := checkLoop ip allowlist.entries

/-- **The check is right**: it comes back, with true exactly when an entry admits the address. -/
def Correct (allowlist : AllowList) (addr : BitVec 32) : Prop :=
  ∃ valid, checkIp allowlist (inetNtoa addr) = .ok valid ∧
    (valid = true ↔ ∃ entry ∈ allowlist.entries, Admits addr entry)

/-! ## What the code makes of an entry -/

/-- **The block that an entry is taken for**, if it is taken for one. -/
def reading (entry : Text) : Except Abort (Option Cidr) :=
  match splitSlash entry with
  | none => .ok none
  | some (network, rest) =>
    match stoi rest with
    | .error e => .error e
    | .ok p =>
      match inetPton network with
      | none => .ok none
      | some n => if h : 0 ≤ p ∧ p ≤ 32 then .ok (some ⟨n, p.toNat, by omega⟩) else .error .badShift

/-- **The check stops at the entry**: the text behind the slash begins with no number, or with one that is
    no `int`, or, where an address stands in front, with one that is not within 0 and 32. -/
def Aborts (entry : Text) : Prop := ∃ e, reading entry = .error e

/-- The entry is taken to contain the address. -/
def Accepts (addr : BitVec 32) (entry : Text) : Prop :=
  entry = inetNtoa addr ∨ ∃ c, reading entry = .ok (some c) ∧ c.Contains addr

/-- **Taken for more than it says**: the entry is malformed, and it is taken to contain the address. -/
def Lax (addr : BitVec 32) (entry : Text) : Prop := Accepts addr entry ∧ ¬ Admits addr entry

/-- The text of an address has no slash. -/
theorem splitSlash_inetNtoa (addr : BitVec 32) : splitSlash (inetNtoa addr) = none := by
  have hdrop : (inetNtoa addr).dropWhile (· ≠ slash) = [] := by
    rw [List.dropWhile_eq_nil_iff]
    intro b hb
    refine decide_eq_true ?_
    rintro rfl
    exact not_mem_inetNtoa (by decide) (by decide) hb
  unfold splitSlash
  rw [hdrop]

theorem reading_inetNtoa (addr : BitVec 32) : reading (inetNtoa addr) = .ok none := by
  unfold reading
  rw [splitSlash_inetNtoa]

theorem mask_eq {p : Int} (h : 0 ≤ p ∧ p ≤ 32) : mask p = .ok (Lib.prefixMask 32 p.toNat) := by
  obtain ⟨hnn, hle⟩ := h
  unfold mask
  split
  · rename_i hz
    rw [hz]
    rfl
  · rw [if_pos ⟨by omega, by omega⟩]
    have hshift : (32 - p).toNat = 32 - p.toNat := by omega
    rw [hshift]
    rfl

theorem mask_badShift {p : Int} (h : ¬ (0 ≤ p ∧ p ≤ 32)) : mask p = .error .badShift := by
  unfold mask
  rw [if_neg (by omega), if_neg (by omega)]
  rfl

/-- **One turn, by what the entry is taken for.** -/
theorem entryValid_eq (addr : BitVec 32) (entry : Text) :
    entryValid (inetNtoa addr) addr entry =
      match reading entry with
      | .error e => .error e
      | .ok (some c) => .ok (decide (c.Contains addr))
      | .ok none => .ok (decide (inetNtoa addr = entry)) := by
  unfold reading entryValid
  cases hsplit : splitSlash entry with
  | none => rfl
  | some parts =>
    obtain ⟨network, rest⟩ := parts
    cases hstoi : stoi rest with
    | error e =>
      simp only [hstoi]
      rfl
    | ok p =>
      cases hnet : inetPton network with
      | none =>
        have hne : inetNtoa addr ≠ entry := by
          rintro rfl
          rw [splitSlash_inetNtoa] at hsplit
          cases hsplit
        simp only [hstoi, hnet, decide_eq_false hne]
        rfl
      | some n =>
        by_cases hp : 0 ≤ p ∧ p ≤ 32
        · have hmasked : decide (addr &&& Lib.prefixMask 32 p.toNat = n &&& Lib.prefixMask 32 p.toNat) =
              decide (Lib.SamePrefix p.toNat addr n) :=
            decide_eq_decide.mpr (Lib.masked_eq_iff (by omega) addr n)
          simp only [hstoi, hnet, dif_pos hp]
          show (mask p >>= fun m => pure (decide (addr &&& m = n &&& m))) = _
          rw [mask_eq hp]
          exact congrArg Except.ok hmasked
        · simp only [hstoi, hnet, dif_neg hp]
          show (mask p >>= fun m => pure (decide (addr &&& m = n &&& m))) = _
          rw [mask_badShift hp]
          rfl

theorem entryValid_aborts (addr : BitVec 32) {entry : Text} (h : Aborts entry) :
    ∃ e, entryValid (inetNtoa addr) addr entry = .error e := by
  obtain ⟨e, he⟩ := h
  refine ⟨e, ?_⟩
  rw [entryValid_eq, he]

/-- An entry that is taken for something does not stop the check. -/
theorem entryValid_returns (addr : BitVec 32) {entry : Text} (h : ¬ Aborts entry) :
    ∃ valid, entryValid (inetNtoa addr) addr entry = .ok valid ∧ (valid = true ↔ Accepts addr entry) := by
  rw [entryValid_eq]
  unfold Accepts
  cases hreading : reading entry with
  | error e => exact absurd ⟨e, hreading⟩ h
  | ok taken =>
    cases taken with
    | none =>
      refine ⟨_, rfl, ?_⟩
      rw [decide_eq_true_eq]
      constructor
      · exact fun heq => Or.inl heq.symm
      · rintro (heq | ⟨c, hc, -⟩)
        · exact heq.symm
        · cases hc
    | some c =>
      refine ⟨_, rfl, ?_⟩
      rw [decide_eq_true_eq]
      constructor
      · exact fun hc => Or.inr ⟨c, rfl, hc⟩
      · rintro (heq | ⟨c', hc, hcontains⟩)
        · rw [heq, reading_inetNtoa] at hreading
          cases hreading
        · cases hc
          exact hcontains

theorem not_aborts_of_accepts {addr : BitVec 32} {entry : Text} (h : Accepts addr entry) : ¬ Aborts entry := by
  rintro ⟨e, he⟩
  rcases h with rfl | ⟨c, hc, -⟩
  · rw [reading_inetNtoa] at he
    cases he
  · rw [he] at hc
    cases hc

/-! ## Well-formed entries are taken for what they say -/

theorem isDigit_range {d : UInt8} (h : isDigit d) : 48 ≤ d ∧ d ≤ 57 := of_decide_eq_true h

theorem isSpace_digit {d : UInt8} (h : isDigit d) : isSpace d = false := by
  refine decide_eq_false ?_
  rintro (rfl | ⟨-, hle⟩)
  · exact absurd h (by decide)
  · exact absurd (UInt8.le_trans (isDigit_range h).1 hle) (by decide)

/-- **Digits are read as their number.** -/
theorem stoi_digits {digits : Text} (hne : digits ≠ []) (hall : ∀ d ∈ digits, isDigit d)
    (hle : decimal digits ≤ 32) : stoi digits = .ok (decimal digits : Int) := by
  have hspace : digits.dropWhile isSpace = digits := by
    cases digits with
    | nil => exact absurd rfl hne
    | cons d ds => rw [List.dropWhile_cons_of_neg (by rw [isSpace_digit (hall d List.mem_cons_self)]; decide)]
  have hsign : sign digits = (false, digits) := by
    cases digits with
    | nil => exact absurd rfl hne
    | cons d ds =>
      have hd := hall d List.mem_cons_self
      have hminus : d ≠ 45 := fun h => absurd (h ▸ hd) (by decide)
      have hplus : d ≠ 43 := fun h => absurd (h ▸ hd) (by decide)
      show (if d = 45 then (true, ds) else if d = 43 then (false, ds) else (false, d :: ds)) = _
      rw [if_neg hminus, if_neg hplus]
  have htake : digits.takeWhile isDigit = digits := List.takeWhile_eq_self_iff.mpr hall
  unfold stoi
  rw [hspace, hsign]
  simp only [htake]
  rw [if_neg hne]
  exact if_pos ⟨by omega, by omega⟩

theorem reading_denotes {entry network digits : Text} {c : Cidr} (h : Denotes entry c network digits) :
    reading entry = .ok (some c) := by
  have hlen : decimal digits ≤ 32 := h.length ▸ c.length_le
  unfold reading
  rw [h.split]
  simp only [stoi_digits h.nonempty h.allDigits hlen, h.address]
  rw [dif_pos ⟨by omega, by omega⟩]
  obtain ⟨n, len, hle⟩ := c
  have hto : (decimal digits : Int).toNat = len := by
    rw [Int.toNat_natCast]
    exact h.length
  simp only [hto]

theorem accepts_of_admits {addr : BitVec 32} {entry : Text} (h : Admits addr entry) : Accepts addr entry := by
  rcases h with rfl | ⟨c, network, digits, hc, hcontains⟩
  · exact Or.inl rfl
  · exact Or.inr ⟨c, reading_denotes hc, hcontains⟩

/-- **An address alone is the block of that address.** -/
theorem admits_inetNtoa (network addr : BitVec 32) :
    Admits addr (inetNtoa network) ↔ Cidr.Contains ⟨network, 32, Nat.le_refl 32⟩ addr := by
  refine Iff.trans ?_ Lib.samePrefix_width.symm
  constructor
  · rintro (h | ⟨c, net, digits, hc, -⟩)
    · have hread := congrArg inetPton h
      rw [inetPton_inetNtoa, inetPton_inetNtoa] at hread
      exact (Option.some.inj hread).symm
    · have hsplit := hc.split
      rw [splitSlash_inetNtoa] at hsplit
      cases hsplit
  · rintro rfl
    exact Or.inl rfl

/-! ## The whole list -/

/-- **When the check is right.** -/
structure Unspoiled (addr : BitVec 32) (entries : List Text) : Prop where
  aborts : ∀ front entry back, entries = front ++ entry :: back → Aborts entry → ∃ e ∈ front, Accepts addr e
  lax : (∃ e ∈ entries, Lax addr e) → ∃ e ∈ entries, Admits addr e

theorem unspoiled_nil (addr : BitVec 32) : Unspoiled addr [] := by
  constructor
  · intro front entry back h
    exact absurd h (List.append_ne_nil_of_right_ne_nil front (List.cons_ne_nil _ _)).symm
  · rintro ⟨e, he, -⟩
    cases he

/-- The loop on the text of an address. -/
theorem checkLoop_cons (addr : BitVec 32) (entry : Text) (entries : List Text) :
    checkLoop (inetNtoa addr) (entry :: entries) = (do
      let valid ← entryValid (inetNtoa addr) addr entry
      if valid then pure true else checkLoop (inetNtoa addr) entries) := by
  conv_lhs => unfold checkLoop
  rw [inetPton_inetNtoa]

/-- An entry that the check passes over changes nothing. -/
theorem unspoiled_cons {addr : BitVec 32} {entry : Text} {entries : List Text} (haborts : ¬ Aborts entry)
    (haccepts : ¬ Accepts addr entry) : Unspoiled addr (entry :: entries) ↔ Unspoiled addr entries := by
  have hlax : ¬ Lax addr entry := fun h => haccepts h.1
  have hadmits : ¬ Admits addr entry := fun h => haccepts (accepts_of_admits h)
  constructor
  · intro h
    constructor
    · intro front e back heq he
      obtain ⟨x, hx, hacc⟩ := h.aborts (entry :: front) e back (by rw [heq]; rfl) he
      rcases List.mem_cons.mp hx with rfl | hx
      · exact absurd hacc haccepts
      · exact ⟨x, hx, hacc⟩
    · rintro ⟨e, he, hlaxe⟩
      obtain ⟨x, hx, hadm⟩ := h.lax ⟨e, List.mem_cons_of_mem entry he, hlaxe⟩
      rcases List.mem_cons.mp hx with rfl | hx
      · exact absurd hadm hadmits
      · exact ⟨x, hx, hadm⟩
  · intro h
    constructor
    · intro front e back heq he
      cases front with
      | nil =>
        rw [List.nil_append] at heq
        exact absurd ((List.cons.inj heq).1 ▸ he) haborts
      | cons y front =>
        obtain ⟨x, hx, hacc⟩ := h.aborts front e back (List.cons.inj heq).2 he
        exact ⟨x, List.mem_cons_of_mem y hx, hacc⟩
    · rintro ⟨e, he, hlaxe⟩
      rcases List.mem_cons.mp he with rfl | he
      · exact absurd hlaxe hlax
      · obtain ⟨x, hx, hadm⟩ := h.lax ⟨e, he, hlaxe⟩
        exact ⟨x, List.mem_cons_of_mem entry hx, hadm⟩

/-- **The loop is right exactly on a list that nothing spoils.** -/
theorem checkLoop_correct_iff (addr : BitVec 32) (entries : List Text) :
    (∃ valid, checkLoop (inetNtoa addr) entries = .ok valid ∧
      (valid = true ↔ ∃ entry ∈ entries, Admits addr entry)) ↔ Unspoiled addr entries := by
  induction entries with
  | nil =>
    refine ⟨fun _ => unspoiled_nil addr, fun _ => ⟨false, rfl, ?_⟩⟩
    constructor
    · intro h
      cases h
    · rintro ⟨e, he, -⟩
      cases he
  | cons entry entries ih =>
    rw [checkLoop_cons]
    by_cases haborts : Aborts entry
    · -- nothing stands in front of it
      obtain ⟨e, he⟩ := entryValid_aborts addr haborts
      rw [he]
      constructor
      · rintro ⟨valid, hvalid, -⟩
        cases hvalid
      · intro h
        obtain ⟨x, hx, -⟩ := h.aborts [] entry entries rfl haborts
        cases hx
    · obtain ⟨valid, hvalid, htrue⟩ := entryValid_returns addr haborts
      rw [hvalid]
      cases valid with
      | true =>
        have haccepts := htrue.mp rfl
        constructor
        · rintro ⟨result, hresult, hiff⟩
          cases hresult
          constructor
          · intro front e back heq he
            cases front with
            | nil =>
              rw [List.nil_append] at heq
              exact absurd ((List.cons.inj heq).1 ▸ he) haborts
            | cons y front => exact ⟨y, List.mem_cons_self, (List.cons.inj heq).1 ▸ haccepts⟩
          · exact fun _ => hiff.mp rfl
        · intro h
          refine ⟨true, rfl, fun _ => ?_, fun _ => rfl⟩
          by_cases hadmits : Admits addr entry
          · exact ⟨entry, List.mem_cons_self, hadmits⟩
          · exact h.lax ⟨entry, List.mem_cons_self, haccepts, hadmits⟩
      | false =>
        have haccepts : ¬ Accepts addr entry := fun h => Bool.noConfusion (htrue.mpr h)
        have hmem : (∃ e ∈ entry :: entries, Admits addr e) ↔ ∃ e ∈ entries, Admits addr e := by
          constructor
          · rintro ⟨e, he, hadmits⟩
            rcases List.mem_cons.mp he with rfl | he
            · exact absurd (accepts_of_admits hadmits) haccepts
            · exact ⟨e, he, hadmits⟩
          · rintro ⟨e, he, hadmits⟩
            exact ⟨e, List.mem_cons_of_mem entry he, hadmits⟩
        rw [unspoiled_cons haborts haccepts, ← ih, hmem]
        rfl

theorem correct_iff (allowlist : AllowList) (addr : BitVec 32) :
    Correct allowlist addr ↔ Unspoiled addr allowlist.entries :=
  checkLoop_correct_iff addr allowlist.entries

/-! ## Lists of well-formed entries -/

/-- An address or a block of addresses. -/
def WellFormed (entry : Text) : Prop :=
  (∃ addr, entry = inetNtoa addr) ∨ ∃ c network digits, Denotes entry c network digits

theorem not_aborts_of_wellFormed {entry : Text} (h : WellFormed entry) : ¬ Aborts entry := by
  rintro ⟨e, he⟩
  rcases h with ⟨addr, rfl⟩ | ⟨c, network, digits, hc⟩
  · rw [reading_inetNtoa] at he
    cases he
  · rw [reading_denotes hc] at he
    cases he

theorem not_lax_of_wellFormed {addr : BitVec 32} {entry : Text} (h : WellFormed entry) : ¬ Lax addr entry := by
  rintro ⟨haccepts, hadmits⟩
  rcases haccepts with heq | ⟨c, hc, hcontains⟩
  · exact hadmits (Or.inl heq)
  · rcases h with ⟨addr', rfl⟩ | ⟨c', network, digits, hc'⟩
    · rw [reading_inetNtoa] at hc
      cases hc
    · rw [reading_denotes hc'] at hc
      cases hc
      exact hadmits (Or.inr ⟨c, network, digits, hc', hcontains⟩)

/-- **A list without malformed entries is checked right**, for every client. -/
theorem correct_of_wellFormed {allowlist : AllowList} (h : ∀ e ∈ allowlist.entries, WellFormed e)
    (addr : BitVec 32) : Correct allowlist addr := by
  refine (checkLoop_correct_iff addr allowlist.entries).mpr ⟨?_, ?_⟩
  · intro front entry back heq haborts
    have hmem : entry ∈ allowlist.entries := heq ▸ List.mem_append_right front List.mem_cons_self
    exact absurd haborts (not_aborts_of_wellFormed (h entry hmem))
  · rintro ⟨e, he, hlax⟩
    exact absurd hlax (not_lax_of_wellFormed (h e he))

/-! ## Adding to the list -/

/-- The place of a new string in a set. -/
def insertEntry (ip : Text) : List Text → List Text
  | [] => [ip]
  | entry :: entries =>
    if ip < entry then ip :: entry :: entries
    else if ip = entry then entry :: entries
    else entry :: insertEntry ip entries

theorem mem_insertEntry {ip e : Text} {entries : List Text} :
    e ∈ insertEntry ip entries ↔ e = ip ∨ e ∈ entries := by
  induction entries with
  | nil => exact List.mem_cons
  | cons entry entries ih =>
    unfold insertEntry
    split
    · exact List.mem_cons
    · split
      · rename_i heq
        constructor
        · exact Or.inr
        · rintro (rfl | he)
          · exact heq ▸ List.mem_cons_self
          · exact he
      · rw [List.mem_cons, ih, List.mem_cons]
        exact or_left_comm

theorem sorted_insertEntry {ip : Text} {entries : List Text} (h : entries.Pairwise (· < ·)) :
    (insertEntry ip entries).Pairwise (· < ·) := by
  induction entries with
  | nil => exact List.pairwise_singleton _ _
  | cons entry entries ih =>
    obtain ⟨hentry, hrest⟩ := List.pairwise_cons.mp h
    unfold insertEntry
    split
    · rename_i hlt
      refine List.pairwise_cons.mpr ⟨?_, h⟩
      intro x hx
      rcases List.mem_cons.mp hx with rfl | hx
      · exact hlt
      · exact List.lt_trans hlt (hentry x hx)
    · split
      · exact h
      · rename_i hnlt hne
        refine List.pairwise_cons.mpr ⟨?_, ih hrest⟩
        intro x hx
        rcases mem_insertEntry.mp hx with rfl | hx
        · exact (List.le_iff_lt_or_eq.mp (List.not_lt.mp hnlt)).resolve_right fun heq => hne heq.symm
        · exact hentry x hx

/-- `add_ip` -/
def addIp (allowlist : AllowList) (ip : Text) : AllowList where
  entries := insertEntry ip allowlist.entries
  sorted := sorted_insertEntry allowlist.sorted

/-- `remove_ip` -/
def removeIp (allowlist : AllowList) (ip : Text) : AllowList where
  entries := allowlist.entries.filter (· ≠ ip)
  sorted := allowlist.sorted.filter _

/-- An address with nothing behind the slash, in front of another address. -/
def stopped : AllowList :=
  addIp (addIp ⟨[], List.Pairwise.nil⟩ (inetNtoa 0x7f000001)) (inetNtoa 0x0a000000 ++ [slash])

/-- A number with a letter behind it. -/
def loose : AllowList :=
  addIp ⟨[], List.Pairwise.nil⟩ (inetNtoa 0x0a000000 ++ [slash, 56, 120])

/-- **Malformed entries**: `10.0.0.0/` keeps `127.0.0.1` from being found, `10.0.0.0/8x` lets `10.1.2.3` in. -/
theorem not_correct : ¬ Correct stopped 0x7f000001 ∧ ¬ Correct loose 0x0a010203 := by
  constructor
  · rintro ⟨valid, hvalid, -⟩
    have hthrows : checkIp stopped (inetNtoa 0x7f000001) = .error .invalidArgument := by decide +kernel
    rw [hthrows] at hvalid
    cases hvalid
  · rintro ⟨valid, hvalid, hiff⟩
    have hreturns : checkIp loose (inetNtoa 0x0a010203) = .ok true := by decide +kernel
    rw [hreturns] at hvalid
    cases hvalid
    obtain ⟨entry, hentry, hadmits⟩ := hiff.mp rfl
    have hentry : entry = inetNtoa 0x0a000000 ++ [slash, 56, 120] := List.mem_singleton.mp hentry
    rcases hadmits with h | ⟨c, network, digits, hc, -⟩
    · exact absurd (hentry.symm.trans h) (by decide +kernel)
    · have hsplit := hc.split
      rw [hentry] at hsplit
      have hdigits : splitSlash (inetNtoa 0x0a000000 ++ [slash, 56, 120]) =
        some (inetNtoa 0x0a000000, [56, 120]) := by decide +kernel
      rw [hdigits] at hsplit
      cases hsplit
      exact absurd (hc.allDigits 120 (by decide)) (by decide)

end Trick.VarServer.CheckIp
