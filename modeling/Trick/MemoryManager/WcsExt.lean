/-
  `wcs_to_ncs` and `ncs_to_wcs`: wide strings as printable narrow strings, and back.

  Data:           the wide characters as the numbers of a `wint_t`, and what the C library says of the locale.
  Program:        `workString` is the text of one character; the decoder reads an escape in three states, but the
                  number of digits to come is declared inside of its loop, so that it is zero in each round.
  Specification:  `RoundTrip`: with storage enough, both functions leave strings of the lengths that were
                  predicted, and the second is the string that there was.
  Result:         `roundTrip_iff`: so it is exactly for the strings whose characters are printable or have an
                  escape of their own other than that of a carriage return, and whose text can be counted.
-/
import Trick.Lib.Splits
import Trick.Unicode.EscapeToAscii

namespace Trick.WcsExt

open Trick.Unicode (ascii hexDigits)
open Trick.Lib (exists_first_split)

/-! ## The locale -/

/-- **The C library** in a locale; no result where its function fails. -/
structure Locale where
  iswprint : Nat → Bool
  wcrtomb : Nat → Option (List UInt8)
  /-- The next wide character and the number of its bytes. -/
  mbrtowc : List UInt8 → Option (Nat × Nat)

/-- **`wcrtomb` and `mbrtowc` are inverse** on printable characters, and ASCII characters have one byte. -/
structure Locale.Lawful (locale : Locale) : Prop where
  ascii : ∀ (b : UInt8) (rest : List UInt8), b ≠ 0 → b.toNat < 128 →
    locale.mbrtowc (b :: rest) = some (b.toNat, 1)
  printable : ∀ c, locale.iswprint c = true → ∃ bytes, locale.wcrtomb c = some bytes ∧ bytes ≠ [] ∧
    bytes.length ≤ 10 ∧ ∀ rest, locale.mbrtowc (bytes ++ rest) = some (c, bytes.length)

/-! ## `wcs_to_ncs` -/

/-- A digit of `%X`. -/
def upperHexDigit (d : Nat) : UInt8 := UInt8.ofNat (if d < 10 then 48 + d else 55 + d)

/-- `%04X` and `%08X`, of a number that has no more digits than that. -/
def upperHexDigits : Nat → Nat → List UInt8
  | 0, _ => []
  | n + 1, v => upperHexDigit (v / 16 ^ n % 16) :: upperHexDigits n v

/-- "Create a printable, external representation of this non-printable character." -/
def nonPrintable (wcint : Nat) : List UInt8 :=
  if wcint ≤ 0xFF then
    if wcint = 7 then ascii ['\\', 'a']
    else if wcint = 8 then ascii ['\\', 'b']
    else if wcint = 12 then ascii ['\\', 'f']
    else if wcint = 10 then ascii ['\\', 'n']
    -- the text of a carriage return is that of a newline
    else if wcint = 13 then ascii ['\\', 'n']
    else if wcint = 9 then ascii ['\\', 't']
    else if wcint = 11 then ascii ['\\', 'v']
    else ascii ['\\', 'x'] ++ hexDigits 2 wcint
  else if wcint ≤ 0xFFFF then ascii ['\\', 'u'] ++ upperHexDigits 4 wcint
  else ascii ['\\', 'U'] ++ upperHexDigits 8 wcint

/-- The printable characters that are escaped: `'`, `"`, `?` and `\`. -/
def quoted (wcint : Nat) : Prop := wcint = 39 ∨ wcint = 34 ∨ wcint = 63 ∨ wcint = 92

instance (wcint : Nat) : Decidable (quoted wcint) := inferInstanceAs (Decidable (_ ∨ _))

/-- `work_s`, which has room for ten characters. -/
def workString (locale : Locale) (wcint : Nat) : Option (List UInt8) :=
  if locale.iswprint wcint = true then
    if quoted wcint then some (ascii ['\\'] ++ [UInt8.ofNat wcint])
    else (locale.wcrtomb wcint).filter fun bytes => decide (bytes.length ≤ 10)
  else some (nonPrintable wcint)

/-- The loop of `wcs_to_ncs`; `nlen` is an `unsigned int`. -/
def wcsToNcsLoop (locale : Locale) (ncsMaxLen : Option Nat) :
    List Nat → Nat → List UInt8 → Option (Nat × List UInt8)
  | [], nlen, ncs => some (nlen, ncs)
  | wcint :: rest, nlen, ncs =>
    match workString locale wcint with
    | none => none
    | some work =>
      let nlen := (nlen + work.length) % 2 ^ 32
      match ncsMaxLen with
      | none => wcsToNcsLoop locale ncsMaxLen rest nlen ncs
      | some maxLen =>
        if nlen < maxLen then wcsToNcsLoop locale ncsMaxLen rest nlen (ncs ++ work)
        -- "Insufficient storage for the (narrow) output character string."
        else some (0, ncs)

/-- **`wcs_to_ncs`**: the length that is returned, and the string that is left. -/
def wcsToNcs (locale : Locale) (wcs : Option (List Nat)) (ncsMaxLen : Option Nat) : Option (Nat × List UInt8) :=
  match wcs with
  | none => some (0, [])
  | some wcs => wcsToNcsLoop locale ncsMaxLen (wcs.take (wcs.length % 2 ^ 32)) 0 []

/-- `wcs_to_ncs_len` -/
def wcsToNcsLen (locale : Locale) (wcs : List Nat) : Option Nat := (wcsToNcs locale (some wcs) none).map Prod.fst

/-! ## `ncs_to_wcs` -/

/-- `pstate` -/
inductive PState where
  | text
  | escape
  | digits
deriving DecidableEq

/-- The local variables of the loop, and the string that has been stored. -/
structure Decoding where
  pstate : PState := .text
  wcOut : Nat := 0
  code : Nat := 0
  wlen : Nat := 0
  wcs : List Nat := []

/-- `case 1`; the digits that are to come are not kept for the next round. -/
def readEscape (s : Decoding) (wcint : Nat) : Option Decoding :=
  if quoted wcint then some { s with wcOut := wcint, pstate := .text }
  else if wcint = 'a'.toNat then some { s with wcOut := 7, pstate := .text }
  else if wcint = 'b'.toNat then some { s with wcOut := 8, pstate := .text }
  else if wcint = 'f'.toNat then some { s with wcOut := 12, pstate := .text }
  else if wcint = 'n'.toNat then some { s with wcOut := 10, pstate := .text }
  else if wcint = 'r'.toNat then some { s with wcOut := 13, pstate := .text }
  else if wcint = 't'.toNat then some { s with wcOut := 9, pstate := .text }
  else if wcint = 'v'.toNat then some { s with wcOut := 11, pstate := .text }
  else if wcint = 'x'.toNat ∨ wcint = 'u'.toNat ∨ wcint = 'U'.toNat then some { s with code := 0, pstate := .digits }
  -- "Unknown escape sequence. No conversion performed."
  else none

/-- The value of a hexadecimal digit. -/
def digitValue (wcint : Nat) : Nat :=
  if 48 ≤ wcint ∧ wcint ≤ 57 then wcint - 48
  else if 65 ≤ wcint ∧ wcint ≤ 70 then wcint - 65 + 10
  else if 97 ≤ wcint ∧ wcint ≤ 102 then wcint - 97 + 10
  else 0

/-- `case 2` -/
def readDigit (s : Decoding) (digitsRemaining wcint : Nat) : Decoding :=
  if digitsRemaining > 0 then
    let code := s.code * 16 + digitValue wcint
    if digitsRemaining - 1 = 0 then { s with code := code, wcOut := code, pstate := .text } else { s with code := code }
  else s

/-- What is done in state zero at the end of a round. -/
def store (wMaxSize : Option Nat) (s : Decoding) : Decoding :=
  match wMaxSize with
  | none => { s with wlen := s.wlen + 1 }
  | some maxSize =>
    { s with wcs := if s.wlen < maxSize then s.wcs ++ [s.wcOut] else s.wcs, wlen := s.wlen + 1 }

/-- **One round** for a wide character. -/
def round (wMaxSize : Option Nat) (s : Decoding) (wcint : Nat) : Option Decoding :=
  -- "We should only find ASCII characters in the escaped state."
  if s.pstate ≠ .text ∧ wcint > 0x7F then none
  else do
    let s ← (match s.pstate with
      | .text => if wcint = 92 then some { s with pstate := .escape } else some { s with wcOut := wcint }
      | .escape => readEscape s wcint
      -- `digits_remaining` is declared in the round
      | .digits => some (readDigit s 0 wcint))
    some (if s.pstate = .text then store wMaxSize s else s)

/-- The end of `ncs_to_wcs`. -/
def finish (wMaxSize : Option Nat) (s : Decoding) : Nat × List Nat :=
  match wMaxSize with
  | none => (s.wlen, s.wcs)
  | some maxSize => if s.wlen < maxSize then (s.wlen, s.wcs) else (0, s.wcs)

/-- The loop of `ncs_to_wcs`. -/
def ncsToWcsLoop (locale : Locale) (wMaxSize : Option Nat) (ncs : List UInt8) (s : Decoding) :
    Option (Nat × List Nat) :=
  if _hempty : ncs = [] then some (finish wMaxSize s)
  else
    match locale.mbrtowc ncs with
    | none => none
    | some (wcint, nbytes) =>
      if _hzero : nbytes = 0 then some (finish wMaxSize s)
      else
        match round wMaxSize s wcint with
        | none => some (0, s.wcs)
        | some s => ncsToWcsLoop locale wMaxSize (ncs.drop nbytes) s
termination_by ncs.length
decreasing_by
  rw [List.length_drop]
  have := List.length_pos_iff.mpr _hempty
  omega

/-- **`ncs_to_wcs`**: the length that is returned, and the string that is left. -/
def ncsToWcs (locale : Locale) (ncs : Option (List UInt8)) (wMaxSize : Option Nat) : Option (Nat × List Nat) :=
  match ncs with
  | none => some (0, [])
  | some ncs => ncsToWcsLoop locale wMaxSize ncs {}

/-- `ncs_to_wcs_len` -/
def ncsToWcsLen (locale : Locale) (ncs : List UInt8) : Option Nat := (ncsToWcs locale (some ncs) none).map Prod.fst

/-! ## What is wanted -/

/-- **The string comes back**, and the lengths are those that were predicted. -/
def RoundTrip (locale : Locale) (w : List Nat) : Prop :=
  ∃ ncs, (∀ n, ncs.length < n → wcsToNcs locale (some w) (some n) = some (ncs.length, ncs)) ∧
    wcsToNcsLen locale w = some ncs.length ∧
    (∀ n, w.length < n → ncsToWcs locale (some ncs) (some n) = some (w.length, w)) ∧
    ncsToWcsLen locale ncs = some w.length

/-- A character that is printable, or has an escape of its own. -/
def Kept (locale : Locale) (c : Nat) : Prop := locale.iswprint c = true ∨ c ∈ [7, 8, 9, 10, 11, 12]

/-- The text of a character. -/
def external (locale : Locale) (c : Nat) : List UInt8 := (workString locale c).getD []

/-- The length of the text of a string. -/
def externalLength (locale : Locale) (w : List Nat) : Nat := (w.map fun c => (external locale c).length).sum

/-! ## The text of a string -/

section External

variable {locale : Locale} (hlocale : locale.Lawful)
include hlocale

theorem workString_eq (c : Nat) : workString locale c = some (external locale c) := by
  have hsome : ∃ work, workString locale c = some work := by
    unfold workString
    split
    · rename_i hprint
      split
      · exact ⟨_, rfl⟩
      · obtain ⟨bytes, hbytes, -, hlength, -⟩ := hlocale.printable c hprint
        rw [hbytes, Option.filter_some, decide_eq_true hlength]
        exact ⟨bytes, rfl⟩
    · exact ⟨_, rfl⟩
  obtain ⟨work, hwork⟩ := hsome
  unfold external
  rw [hwork]
  rfl

/-- The text that a length is predicted of. -/
theorem wcsToNcsLoop_none (w : List Nat) (nlen : Nat) : wcsToNcsLoop locale none w (nlen % 2 ^ 32) [] =
    some ((nlen + externalLength locale w) % 2 ^ 32, []) := by
  induction w generalizing nlen with
  | nil => rfl
  | cons c w ih =>
    rw [wcsToNcsLoop, workString_eq hlocale]
    show wcsToNcsLoop locale none w ((nlen % 2 ^ 32 + (external locale c).length) % 2 ^ 32) [] = _
    rw [Nat.mod_add_mod, ih]
    unfold externalLength
    rw [List.map_cons, List.sum_cons, Nat.add_assoc]

/-- The text that is left in storage enough. -/
theorem wcsToNcsLoop_some (w : List Nat) {n : Nat} (ncs : List UInt8)
    (hroom : ncs.length + externalLength locale w < n) : wcsToNcsLoop locale (some n) w (ncs.length % 2 ^ 32) ncs =
      some ((ncs.length + externalLength locale w) % 2 ^ 32, ncs ++ w.flatMap (external locale)) := by
  induction w generalizing ncs with
  | nil =>
    rw [List.flatMap_nil, List.append_nil]
    rfl
  | cons c w ih =>
    have hcons : externalLength locale (c :: w) = (external locale c).length + externalLength locale w := rfl
    rw [hcons] at hroom ⊢
    rw [wcsToNcsLoop, workString_eq hlocale]
    show (if (ncs.length % 2 ^ 32 + (external locale c).length) % 2 ^ 32 < n then
      wcsToNcsLoop locale (some n) w ((ncs.length % 2 ^ 32 + (external locale c).length) % 2 ^ 32)
        (ncs ++ external locale c) else _) = _
    have hle := Nat.mod_le (ncs.length + (external locale c).length) (2 ^ 32)
    rw [Nat.mod_add_mod, if_pos (by omega), ← List.length_append,
      ih _ (by rw [List.length_append]; omega), List.length_append, Nat.add_assoc, List.append_assoc, List.flatMap_cons]

theorem external_ne_nil (c : Nat) : external locale c ≠ [] := by
  unfold external workString
  split
  · rename_i hprint
    split
    · exact List.cons_ne_nil _ _
    · obtain ⟨bytes, hbytes, hne, hlength, -⟩ := hlocale.printable c hprint
      rw [hbytes, Option.filter_some, decide_eq_true hlength]
      exact hne
  · show nonPrintable c ≠ []
    unfold nonPrintable
    split_ifs <;> exact List.cons_ne_nil _ _

theorem length_le_externalLength (w : List Nat) : w.length ≤ externalLength locale w := by
  have hle := List.length_le_sum_of_one_le (w.map fun c => (external locale c).length) ?_
  · rw [List.length_map] at hle
    exact hle
  · intro n hn
    obtain ⟨c, -, rfl⟩ := List.mem_map.mp hn
    exact List.length_pos_iff.mpr (external_ne_nil hlocale c)

end External

theorem length_flatMap_external (locale : Locale) (w : List Nat) :
    (w.flatMap (external locale)).length = externalLength locale w := List.length_flatMap ..

/-! ## Reading -/

section Reading

variable {locale : Locale} {room : Option Nat} {s : Decoding}

theorem ncsToWcsLoop_nil : ncsToWcsLoop locale room [] s = some (finish room s) := by
  rw [ncsToWcsLoop, dif_pos rfl]

/-- **A round of the loop.** -/
theorem ncsToWcsLoop_cons {bytes rest : List UInt8} {c : Nat} (hne : bytes ≠ [])
    (hread : locale.mbrtowc (bytes ++ rest) = some (c, bytes.length)) {s' : Decoding}
    (hround : round room s c = some s') :
    ncsToWcsLoop locale room (bytes ++ rest) s = ncsToWcsLoop locale room rest s' := by
  rw [ncsToWcsLoop, dif_neg (List.append_ne_nil_of_left_ne_nil hne rest), hread]
  dsimp only
  rw [dif_neg (mt List.length_eq_zero_iff.mp hne), hround, List.drop_left]

/-- An ASCII character is read. -/
theorem ncsToWcsLoop_ascii (hlocale : locale.Lawful) {b : UInt8} {rest : List UInt8} (hpos : b ≠ 0)
    (hascii : b.toNat < 128) {s' : Decoding} (hround : round room s b.toNat = some s') :
    ncsToWcsLoop locale room (b :: rest) s = ncsToWcsLoop locale room rest s' :=
  ncsToWcsLoop_cons (List.cons_ne_nil b []) (hlocale.ascii b rest hpos hascii) hround

/-- The state after a character of the string. -/
def putOut (room : Option Nat) (s : Decoding) (c : Nat) : Decoding := store room { s with wcOut := c }

theorem putOut_pstate (room : Option Nat) (s : Decoding) (c : Nat) : (putOut room s c).pstate = s.pstate := by
  unfold putOut store
  split <;> rfl

/-- A backslash. -/
theorem round_backslash (h : s.pstate = .text) : round room s 92 = some { s with pstate := .escape } := by
  unfold round
  rw [if_neg fun hno => hno.1 h, h]
  rfl

/-- Any other character. -/
theorem round_text (h : s.pstate = .text) {c : Nat} (hc : c ≠ 92) : round room s c = some (putOut room s c) := by
  have hsame : ({ s with wcOut := c, pstate := .text } : Decoding) = { s with wcOut := c } := by
    rw [← h]
  unfold round
  rw [if_neg fun hno => hno.1 h, h]
  dsimp only
  rw [if_neg hc]
  show some (if PState.text = .text then _ else _) = _
  rw [if_pos rfl, hsame]
  rfl

/-- The character after a backslash that ends an escape. -/
theorem round_escape (h : s.pstate = .text) {letter c : Nat} (hascii : letter ≤ 0x7F)
    (hread : readEscape { s with pstate := .escape } letter = some { s with wcOut := c, pstate := .text }) :
    round room { s with pstate := .escape } letter = some (putOut room s c) := by
  have hsame : ({ s with wcOut := c, pstate := .text } : Decoding) = { s with wcOut := c } := by
    rw [← h]
  unfold round
  rw [if_neg fun hno => absurd hno.2 (not_lt.mpr hascii)]
  dsimp only
  rw [hread]
  show some (if PState.text = .text then _ else _) = _
  rw [if_pos rfl, hsame]
  rfl

/-- An escape of two characters. -/
theorem ncsToWcsLoop_escape (hlocale : locale.Lawful) (h : s.pstate = .text) {letter : UInt8} {c : Nat}
    (hpos : letter ≠ 0) (hascii : letter.toNat < 128)
    (hread : readEscape { s with pstate := .escape } letter.toNat = some { s with wcOut := c, pstate := .text })
    (rest : List UInt8) : ncsToWcsLoop locale room (92 :: letter :: rest) s =
      ncsToWcsLoop locale room rest (putOut room s c) := by
  rw [ncsToWcsLoop_ascii hlocale (by decide) (by decide) (round_backslash h),
    ncsToWcsLoop_ascii hlocale hpos hascii (round_escape h (Nat.le_of_lt_succ hascii) hread)]

/-- The texts of the characters that are kept. -/
theorem ncsToWcsLoop_kept (hlocale : locale.Lawful) (h : s.pstate = .text) {c : Nat} (hkept : Kept locale c)
    (rest : List UInt8) : ncsToWcsLoop locale room (external locale c ++ rest) s =
      ncsToWcsLoop locale room rest (putOut room s c) := by
  by_cases hprint : locale.iswprint c = true
  · by_cases hquoted : quoted c
    · -- a backslash and the character
      have htext : external locale c = [92, UInt8.ofNat c] := by
        unfold external workString
        rw [if_pos hprint, if_pos hquoted]
        rfl
      have hsmall : c < 128 ∧ c ≠ 0 := by
        rcases hquoted with rfl | rfl | rfl | rfl <;> decide
      have hc : (UInt8.ofNat c).toNat = c := by
        rw [UInt8.toNat_ofNat', Nat.mod_eq_of_lt (by omega)]
      have hne : UInt8.ofNat c ≠ 0 := fun hzero => hsmall.2 (by rw [← hc, hzero]; rfl)
      rw [htext]
      refine ncsToWcsLoop_escape hlocale h hne (by omega) ?_ rest
      rw [hc]
      exact if_pos hquoted
    · obtain ⟨bytes, hbytes, hne, hlength, hread⟩ := hlocale.printable c hprint
      have htext : external locale c = bytes := by
        unfold external workString
        rw [if_pos hprint, if_neg hquoted, hbytes, Option.filter_some, decide_eq_true hlength]
        rfl
      rw [htext]
      exact ncsToWcsLoop_cons hne (hread rest) (round_text h fun h92 => hquoted (.inr (.inr (.inr h92))))
  · have htext : external locale c = nonPrintable c := by
      unfold external workString
      rw [if_neg hprint]
      rfl
    rw [htext]
    have hescape := hkept.resolve_left hprint
    simp only [List.mem_cons, List.not_mem_nil, or_false] at hescape
    rcases hescape with rfl | rfl | rfl | rfl | rfl | rfl <;>
      exact ncsToWcsLoop_escape hlocale h (by decide) (by decide) rfl rest

/-- The state after some characters. -/
theorem ncsToWcsLoop_text (hlocale : locale.Lawful) (h : s.pstate = .text) {w : List Nat}
    (hkept : ∀ c ∈ w, Kept locale c) (rest : List UInt8) :
    ncsToWcsLoop locale room (w.flatMap (external locale) ++ rest) s =
      ncsToWcsLoop locale room rest (w.foldl (putOut room) s) := by
  induction w generalizing s with
  | nil => rfl
  | cons c w ih =>
    obtain ⟨hc, hw⟩ := List.forall_mem_cons.mp hkept
    rw [List.flatMap_cons, List.append_assoc, ncsToWcsLoop_kept hlocale h hc,
      ih ((putOut_pstate room s c).trans h) hw]
    rfl

theorem foldl_putOut_none (w : List Nat) (s : Decoding) :
    (w.foldl (putOut none) s).wlen = s.wlen + w.length ∧ (w.foldl (putOut none) s).wcs = s.wcs ∧
      (w.foldl (putOut none) s).pstate = s.pstate := by
  induction w generalizing s with
  | nil => exact ⟨rfl, rfl, rfl⟩
  | cons c w ih =>
    obtain ⟨hlen, hwcs, hstate⟩ := ih (putOut none s c)
    refine ⟨?_, hwcs, hstate⟩
    show (w.foldl (putOut none) (putOut none s c)).wlen = s.wlen + (w.length + 1)
    rw [hlen]
    show s.wlen + 1 + w.length = _
    omega

theorem foldl_putOut_some {n : Nat} (w : List Nat) (s : Decoding) (hroom : s.wlen + w.length < n) :
    (w.foldl (putOut (some n)) s).wlen = s.wlen + w.length ∧ (w.foldl (putOut (some n)) s).wcs = s.wcs ++ w ∧
      (w.foldl (putOut (some n)) s).pstate = s.pstate := by
  induction w generalizing s with
  | nil => exact ⟨rfl, (List.append_nil _).symm, rfl⟩
  | cons c w ih =>
    rw [List.length_cons] at hroom
    have hwcs : (putOut (some n) s c).wcs = s.wcs ++ [c] := if_pos (by show s.wlen < n; omega)
    obtain ⟨hlen, hnext, hstate⟩ := ih (putOut (some n) s c) (by show s.wlen + 1 + w.length < n; omega)
    refine ⟨?_, ?_, hstate⟩
    · show (w.foldl (putOut (some n)) (putOut (some n) s c)).wlen = s.wlen + (w.length + 1)
      rw [hlen]
      show s.wlen + 1 + w.length = _
      omega
    · show (w.foldl (putOut (some n)) (putOut (some n) s c)).wcs = s.wcs ++ c :: w
      rw [hnext, hwcs, List.append_assoc]
      rfl

theorem finish_wcs (room : Option Nat) (s : Decoding) : (finish room s).2 = s.wcs := by
  unfold finish
  split
  · rfl
  · split <;> rfl

theorem wcs_store (room : Option Nat) (s : Decoding) : s.wcs <+: (store room s).wcs := by
  unfold store
  split
  · exact List.prefix_refl _
  · dsimp only
    split
    · exact List.prefix_append _ _
    · exact List.prefix_refl _

/-- An escape stores nothing by itself. -/
theorem wcs_readEscape {wcint : Nat} {s' : Decoding} (h : readEscape s wcint = some s') : s'.wcs = s.wcs := by
  unfold readEscape at h
  split_ifs at h <;> cases h <;> rfl

theorem wcs_round {wcint : Nat} {s' : Decoding} (h : round room s wcint = some s') : s.wcs <+: s'.wcs := by
  unfold round at h
  split at h
  · cases h
  · obtain ⟨next, hnext, hs'⟩ := Option.bind_eq_some_iff.mp h
    have hwcs : next.wcs = s.wcs := by
      split at hnext
      · split at hnext <;> cases hnext <;> rfl
      · exact wcs_readEscape hnext
      · cases hnext
        rfl
    rw [← hwcs, ← Option.some.inj hs']
    split
    · exact wcs_store room next
    · exact List.prefix_refl _

/-- Nothing that has been stored is taken back. -/
theorem prefix_of_ncsToWcsLoop (ncs : List UInt8) (s : Decoding) {r : Nat × List Nat}
    (h : ncsToWcsLoop locale room ncs s = some r) : s.wcs <+: r.2 := by
  fun_induction ncsToWcsLoop locale room ncs s with
  | case1 s =>
    rw [← Option.some.inj h, finish_wcs]
  | case2 => cases h
  | case3 =>
    rw [← Option.some.inj h, finish_wcs]
  | case4 =>
    rw [← Option.some.inj h]
  | case5 ncs s _ _ _ _ _ s' hround ih => exact (wcs_round hround).trans (ih h)

theorem round_digits (hs : s.pstate = .digits) {wcint : Nat} {s' : Decoding} (h : round room s wcint = some s') :
    s' = s := by
  unfold round at h
  split at h
  · cases h
  · obtain ⟨next, hnext, hs'⟩ := Option.bind_eq_some_iff.mp h
    rw [hs] at hnext
    obtain rfl : s = next := Option.some.inj hnext
    rw [if_neg (by rw [hs]; exact PState.noConfusion)] at hs'
    exact (Option.some.inj hs').symm

/-- **In the digits of an escape** the loop stays to the end, and stores nothing. -/
theorem wcs_of_digits (ncs : List UInt8) (s : Decoding) (hs : s.pstate = .digits) {r : Nat × List Nat}
    (h : ncsToWcsLoop locale room ncs s = some r) : r.2 = s.wcs := by
  fun_induction ncsToWcsLoop locale room ncs s with
  | case1 s =>
    rw [← Option.some.inj h, finish_wcs]
  | case2 => cases h
  | case3 =>
    rw [← Option.some.inj h, finish_wcs]
  | case4 =>
    rw [← Option.some.inj h]
  | case5 ncs s _ _ _ _ _ s' hround ih =>
    obtain rfl := round_digits hs hround
    exact ih hs h

/-- The text of any other character: that of a newline, or digits. -/
theorem external_of_not_kept {c : Nat} (h : ¬ Kept locale c) :
    c = 13 ∧ external locale c = [92, 110] ∨
      ∃ letter digits, external locale c = 92 :: letter :: digits ∧ (letter = 120 ∨ letter = 117 ∨ letter = 85) := by
  obtain ⟨hprint, hescape⟩ := not_or.mp h
  have htext : external locale c = nonPrintable c := by
    unfold external workString
    rw [if_neg hprint]
    rfl
  simp only [List.mem_cons, List.not_mem_nil, or_false, not_or] at hescape
  obtain ⟨h7, h8, h9, h10, h11, h12⟩ := hescape
  rw [htext]
  unfold nonPrintable
  by_cases hbyte : c ≤ 0xFF
  · rw [if_pos hbyte, if_neg h7, if_neg h8, if_neg h12, if_neg h10, if_neg h9, if_neg h11]
    by_cases h13 : c = 13
    · rw [if_pos h13]
      exact .inl ⟨h13, rfl⟩
    · rw [if_neg h13]
      exact .inr ⟨120, hexDigits 2 c, rfl, .inl rfl⟩
  · rw [if_neg hbyte]
    split
    · exact .inr ⟨117, upperHexDigits 4 c, rfl, .inr (.inl rfl)⟩
    · exact .inr ⟨85, upperHexDigits 8 c, rfl, .inr (.inr rfl)⟩

/-- **Any other character is lost**: what has been stored before it is not followed by it. -/
theorem not_prefix_of_not_kept (hlocale : locale.Lawful) {n c : Nat} (hs : s.pstate = .text) (h : ¬ Kept locale c)
    (hroom : s.wlen < n) {rest : List UInt8} {r : Nat × List Nat}
    (hloop : ncsToWcsLoop locale (some n) (external locale c ++ rest) s = some r) : ¬ s.wcs ++ [c] <+: r.2 := by
  intro hprefix
  rcases external_of_not_kept h with ⟨rfl, htext⟩ | ⟨letter, digits, htext, hletter⟩
  · rw [htext, List.cons_append, List.cons_append, List.nil_append,
      @ncsToWcsLoop_escape _ _ s hlocale hs 110 10 (by decide) (by decide) rfl] at hloop
    have hstored : (putOut (some n) s 10).wcs = s.wcs ++ [10] := if_pos hroom
    have hother := prefix_of_ncsToWcsLoop rest _ hloop
    rw [hstored] at hother
    -- the newline stands in the place of the carriage return
    have hsame := List.prefix_of_prefix_length_le hprefix hother (by simp)
    have hlast := (List.append_cancel_left (hsame.eq_of_length (by simp)))
    exact absurd (List.cons.inj hlast).1 (by decide)
  · have hround : round (some n) { s with pstate := .escape } letter.toNat =
        some { s with code := 0, pstate := .digits } := by
      rcases hletter with rfl | rfl | rfl <;> rfl
    have hsmall : letter ≠ 0 ∧ letter.toNat < 128 := by
      rcases hletter with rfl | rfl | rfl <;> decide
    rw [htext, List.cons_append, List.cons_append,
      ncsToWcsLoop_ascii hlocale (by decide) (by decide) (round_backslash hs),
      ncsToWcsLoop_ascii hlocale hsmall.1 hsmall.2 hround] at hloop
    have hwcs := wcs_of_digits _ _ rfl hloop
    have hlength := hprefix.length_le
    rw [hwcs, List.length_append] at hlength
    exact absurd hlength (by simp)

end Reading

/-! ## Result -/

section Main

variable {locale : Locale} {w : List Nat}

/-- What comes back is kept. -/
theorem kept_of_read (hlocale : locale.Lawful) {v rest : List Nat} (hread : ∀ n, (v ++ rest).length < n →
    ncsToWcs locale (some (v.flatMap (external locale))) (some n) = some ((v ++ rest).length, v ++ rest)) :
    ∀ c ∈ v, Kept locale c := by
  by_contra hall
  have hbad : ∃ c ∈ v, ¬ Kept locale c := by
    by_contra hnone
    exact hall fun c hc => by_contra fun hnot => hnone ⟨c, hc, hnot⟩
  obtain ⟨pre, c, post, rfl, hpre, hc⟩ := exists_first_split hbad
  have hkept : ∀ d ∈ pre, Kept locale d := fun d hd => not_not.mp (hpre d hd)
  have hn := hread ((pre ++ c :: post ++ rest).length + 1) (Nat.lt_succ_self _)
  have hroom : pre.length < (pre ++ c :: post ++ rest).length := by
    simp only [List.length_append, List.length_cons]
    omega
  obtain ⟨hlen, hwcs, hstate⟩ := foldl_putOut_some pre ({} : Decoding)
    (show 0 + pre.length < (pre ++ c :: post ++ rest).length + 1 by omega)
  unfold ncsToWcs at hn
  dsimp only at hn
  rw [List.flatMap_append, List.flatMap_cons, ncsToWcsLoop_text hlocale rfl hkept] at hn
  refine not_prefix_of_not_kept hlocale hstate hc ?_ hn ?_
  · rw [hlen]
    show 0 + pre.length < _
    omega
  · rw [hwcs]
    refine ⟨post ++ rest, ?_⟩
    simp only [List.nil_append, List.append_assoc, List.cons_append]

/-- What is read of a text of characters that are kept. -/
theorem ncsToWcs_kept (hlocale : locale.Lawful) (hkept : ∀ c ∈ w, Kept locale c) :
    (∀ n, w.length < n → ncsToWcs locale (some (w.flatMap (external locale))) (some n) = some (w.length, w)) ∧
      ncsToWcsLen locale (w.flatMap (external locale)) = some w.length := by
  have hloop : ∀ room, ncsToWcs locale (some (w.flatMap (external locale))) room =
      some (finish room (w.foldl (putOut room) {})) := by
    intro room
    have htext := @ncsToWcsLoop_text locale room {} hlocale rfl w hkept []
    rw [List.append_nil, ncsToWcsLoop_nil] at htext
    exact htext
  refine ⟨?_, ?_⟩
  · intro n hn
    obtain ⟨hlen, hwcs, -⟩ := foldl_putOut_some w ({} : Decoding) (show 0 + w.length < n by omega)
    have hlength : (w.foldl (putOut (some n)) ({} : Decoding)).wlen = w.length := hlen.trans (Nat.zero_add _)
    rw [hloop]
    show some (if _ < n then _ else _) = _
    rw [hlength, if_pos hn, hwcs]
    rfl
  · obtain ⟨hlen, -, -⟩ := foldl_putOut_none w ({} : Decoding)
    unfold ncsToWcsLen
    rw [hloop]
    show some _ = _
    rw [show (finish none (w.foldl (putOut none) {})).1 = _ from hlen]
    exact congrArg some (Nat.zero_add _)

/-- Only characters that are kept come back, and not too many of them. -/
theorem kept_of_roundTrip (hlocale : locale.Lawful) (h : RoundTrip locale w) :
    (∀ c ∈ w, Kept locale c) ∧ externalLength locale w < 2 ^ 32 := by
  obtain ⟨ncs, hwrite, -, hread, -⟩ := h
  have hsplit := List.take_append_drop (w.length % 2 ^ 32) w
  -- what is written of the characters that are counted
  have hncs : ncs.length = externalLength locale (w.take (w.length % 2 ^ 32)) % 2 ^ 32 ∧
      ncs = (w.take (w.length % 2 ^ 32)).flatMap (external locale) := by
    have hn := hwrite (ncs.length + externalLength locale (w.take (w.length % 2 ^ 32)) + 1) (by omega)
    have hloop := wcsToNcsLoop_some hlocale (w.take (w.length % 2 ^ 32))
      (n := ncs.length + externalLength locale (w.take (w.length % 2 ^ 32)) + 1) []
      (by rw [List.length_nil]; omega)
    rw [List.length_nil, Nat.zero_add, List.nil_append] at hloop
    unfold wcsToNcs at hn
    dsimp only at hn
    obtain ⟨hlen, htext⟩ := Prod.mk.inj (Option.some.inj (hloop.symm.trans hn))
    exact ⟨hlen.symm, htext.symm⟩
  obtain ⟨hlen, rfl⟩ := hncs
  have hkept : ∀ c ∈ w.take (w.length % 2 ^ 32), Kept locale c := by
    refine @kept_of_read _ hlocale _ (w.drop (w.length % 2 ^ 32)) ?_
    rw [hsplit]
    exact hread
  -- all characters are counted
  have hall : w.take (w.length % 2 ^ 32) = w := by
    have htake := (ncsToWcs_kept hlocale hkept).1 (w.length + 1) (by
      rw [List.length_take]
      omega)
    rw [hread (w.length + 1) (Nat.lt_succ_self _)] at htake
    exact (Prod.mk.inj (Option.some.inj htake)).2.symm
  rw [hall] at hkept hlen
  refine ⟨hkept, ?_⟩
  rw [length_flatMap_external] at hlen
  rw [hlen]
  exact Nat.mod_lt _ (by decide)

/-- **A wide string comes back if and only if** each of its characters is printable or one of `\a`, `\b`, `\f`,
    `\n`, `\t`, `\v`, and the length of its text fits in an `unsigned int`. -/
theorem roundTrip_iff (hlocale : locale.Lawful) (w : List Nat) :
    RoundTrip locale w ↔ (∀ c ∈ w, Kept locale c) ∧ externalLength locale w < 2 ^ 32 := by
  constructor
  · exact kept_of_roundTrip hlocale
  · rintro ⟨hkept, hlength⟩
    obtain ⟨hread, hreadLen⟩ := ncsToWcs_kept hlocale hkept
    -- no character has an empty text
    have hshort : w.length % 2 ^ 32 = w.length :=
      Nat.mod_eq_of_lt (lt_of_le_of_lt (length_le_externalLength hlocale w) hlength)
    have hwhole : w.take (w.length % 2 ^ 32) = w := by
      rw [hshort, List.take_length]
    refine ⟨w.flatMap (external locale), ?_, ?_, hread, hreadLen⟩
    · intro n hn
      rw [length_flatMap_external] at hn ⊢
      have hloop := wcsToNcsLoop_some hlocale w (n := n) [] (by rw [List.length_nil, Nat.zero_add]; exact hn)
      rw [List.length_nil, Nat.zero_add, Nat.mod_eq_of_lt hlength, List.nil_append] at hloop
      unfold wcsToNcs
      dsimp only
      rw [hwhole]
      exact hloop
    · unfold wcsToNcsLen wcsToNcs
      dsimp only
      have hloop := wcsToNcsLoop_none hlocale w 0
      rw [Nat.zero_add, Nat.mod_eq_of_lt hlength] at hloop
      rw [hwhole, show (0 : Nat) = 0 % 2 ^ 32 from rfl, hloop, length_flatMap_external]
      rfl

/-- The C locale. -/
def posix : Locale where
  iswprint c := decide (32 ≤ c ∧ c ≤ 126)
  wcrtomb c := if c < 128 then some [UInt8.ofNat c] else none
  mbrtowc
    | [] => none
    | b :: _ => if b.toNat < 128 then some (b.toNat, if b = 0 then 0 else 1) else none

theorem posix_lawful : posix.Lawful := by
  have hread : ∀ (b : UInt8) (rest : List UInt8), b ≠ 0 → b.toNat < 128 →
      posix.mbrtowc (b :: rest) = some (b.toNat, 1) := by
    intro b rest hpos hascii
    show (if b.toNat < 128 then some (b.toNat, if b = 0 then 0 else 1) else none) = _
    rw [if_pos hascii, if_neg hpos]
  refine ⟨hread, ?_⟩
  intro c hprint
  have hc := of_decide_eq_true hprint
  have hnat : (UInt8.ofNat c).toNat = c := by
    rw [UInt8.toNat_ofNat', Nat.mod_eq_of_lt (by omega)]
  refine ⟨[UInt8.ofNat c], if_pos (by omega), List.cons_ne_nil _ _, ?_, ?_⟩
  · rw [List.length_singleton]
    decide
  intro rest
  rw [List.singleton_append, hread _ _ ?_ (by omega), hnat]
  · rfl
  · intro hzero
    rw [hzero] at hnat
    exact absurd hc.1 (by rw [← hnat]; decide)

/-- The string `a\<newline>`, of three characters, comes back. -/
theorem roundTrip_iff_posix : RoundTrip posix [97, 92, 10] := by
  refine (roundTrip_iff posix_lawful [97, 92, 10]).mpr ⟨?_, by decide⟩
  intro c hc
  simp only [List.mem_cons, List.not_mem_nil, or_false] at hc
  rcases hc with rfl | rfl | rfl
  · exact .inl rfl
  · exact .inl rfl
  · exact .inr (by decide)

/-- A control character without an escape of its own, and a carriage return, do not. -/
theorem not_roundTrip : ¬ RoundTrip posix [97, 1, 98] ∧ ¬ RoundTrip posix [13] := by
  have hlost : ∀ c, c = 1 ∨ c = 13 → ¬ Kept posix c := by
    rintro c (rfl | rfl) (hprint | hescape)
    · exact absurd hprint (by decide)
    · exact absurd hescape (by decide)
    · exact absurd hprint (by decide)
    · exact absurd hescape (by decide)
  refine ⟨fun h => ?_, fun h => ?_⟩
  · exact hlost 1 (.inl rfl) ((kept_of_roundTrip posix_lawful h).1 1 (by decide))
  · exact hlost 13 (.inr rfl) ((kept_of_roundTrip posix_lawful h).1 13 (by decide))

end Main

end Trick.WcsExt
