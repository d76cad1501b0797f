/-
  What the connections to clients have in common: how a read finds the end of the last command in what it
  has peeked at, and what it makes of the bytes it then takes.
-/
import Mathlib.Data.List.TakeWhile

namespace Trick.Connections

/-- `MAX_CMD_LEN` -/
def maxCmdLen : Nat := 200000

/-- The newline. -/
def newline : UInt8 := 10

/-- The carriage return. -/
def carriageReturn : UInt8 := 13

/-- What `rindex` sees of a buffer. -/
def cString (buf : List UInt8) : List UInt8 := buf.takeWhile (· ≠ 0)

/-- The number of bytes up to the last newline and with it, if there is one. -/
def sizeToNewline : List UInt8 → Option Nat
  | [] => none
  | b :: bs =>
    match sizeToNewline bs with
    | some n => some (n + 1)
    | none => if b = newline then some 1 else none

/-- The string that `read` returns for some bytes: without carriage returns, and with the NUL behind the
    bytes, which the loop copies too. -/
def message (bytes : List UInt8) : List UInt8 :=
  if bytes = [] then [] else (bytes ++ [0]).filter (· ≠ carriageReturn)

theorem message_ne_nil {bytes : List UInt8} (h : bytes ≠ []) : message bytes ≠ [] := by
  unfold message
  rw [if_neg h]
  intro hnil
  have hzero : (0 : UInt8) ∈ (bytes ++ [0]).filter (· ≠ carriageReturn) := by
    rw [List.mem_filter]
    exact ⟨List.mem_append_right _ (List.mem_singleton.mpr rfl), by decide⟩
  rw [hnil] at hzero
  cases hzero

theorem cString_of_noNul {l : List UInt8} (h : 0 ∉ l) : cString l = l := by
  unfold cString
  rw [List.takeWhile_eq_self_iff]
  intro b hb
  exact decide_eq_true fun hz => h (hz ▸ hb)

/-! ## The last newline -/

theorem sizeToNewline_eq_none {l : List UInt8} : sizeToNewline l = none ↔ newline ∉ l := by
  induction l with
  | nil => exact ⟨fun _ => List.not_mem_nil, fun _ => rfl⟩
  | cons b l ih =>
    unfold sizeToNewline
    cases hl : sizeToNewline l with
    | some n =>
      have hmem : newline ∈ l := by
        by_contra hno
        rw [ih.mpr hno] at hl
        cases hl
      exact ⟨fun h => (nomatch h), fun h => absurd (List.mem_cons_of_mem b hmem) h⟩
    | none =>
      have hno : newline ∉ l := ih.mp hl
      show (if b = newline then some 1 else none) = none ↔ _
      split
      · rename_i hb
        exact ⟨fun h => (nomatch h), fun h => absurd (hb ▸ List.mem_cons_self) h⟩
      · rename_i hb
        refine ⟨fun _ => ?_, fun _ => rfl⟩
        rw [List.mem_cons, not_or]
        exact ⟨fun h => hb h.symm, hno⟩

/-- **Up to the last newline**: the bytes end with it, and there is none behind. -/
theorem sizeToNewline_eq_some {l : List UInt8} {n : Nat} (h : sizeToNewline l = some n) :
    ∃ w rest, l = w ++ newline :: rest ∧ n = w.length + 1 ∧ newline ∉ rest := by
  induction l generalizing n with
  | nil => cases h
  | cons b l ih =>
    unfold sizeToNewline at h
    cases hl : sizeToNewline l with
    | some k =>
      rw [hl] at h
      cases h
      obtain ⟨w, rest, rfl, rfl, hno⟩ := ih hl
      exact ⟨b :: w, rest, rfl, rfl, hno⟩
    | none =>
      rw [hl] at h
      have h : (if b = newline then some 1 else none) = some n := h
      split at h
      · rename_i hb
        cases h
        exact ⟨[], l, by rw [hb]; rfl, rfl, sizeToNewline_eq_none.mp hl⟩
      · cases h

end Trick.Connections
