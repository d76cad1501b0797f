/-
  The strings of a checkpoint: how the checkpoint agent writes one and how the lexer reads it.

  A character stands for a byte of the program; nothing here depends on there being 256 of them.

  1. **The writer** (`writeQuotedStr`) puts a backslash before four characters only: the newline, the
     tab, the backspace and the quote.  The backslash itself goes out as it is.

  2. **The reader** (`qstr`) is the state of the lexer that a quote begins.  It has three rules: a run
     of plain characters goes into the buffer, a backslash takes the next character off the stream,
     and a quote ends the string, except after a backslash in the buffer.

  3. **Main result** (`quotedStr_roundTrip`): a string comes back exactly when it has no backslash and
     fits into the buffer.

  4. **The crux** (`qstr_weight`): each character that needs an escape costs a backslash of the text,
     and a backslash costs two of them, but the writer has written one only.
-/
import Mathlib

namespace Trick.CheckPoint

/-! ## Strings -/

/-- **A character string**: what comes before the NUL. -/
structure CString where
  chars : List Char
  noNul : '\x00' ∉ chars

/-- `strlen`, as the `int` it is assigned to. -/
def strlenInt (s : CString) : Int := (s.chars.length : Int).bmod (2 ^ 32)

/-! ## The writer -/

/-- The switch of `write_quoted_str`. -/
def quotedChar (c : Char) : List Char :=
  match c with
  | '\n' => ['\\', 'n']
  | '\t' => ['\\', 't']
  | '\x08' => ['\\', 'b']
  | '"' => ['\\', '"']
  | c => [c]

/-- **`write_quoted_str`.** -/
def writeQuotedStr (s : CString) : List Char :=
  ['"'] ++ (s.chars.take (strlenInt s).toNat).flatMap quotedChar ++ ['"']

/-! ## The reader -/

/-- The size of `ChkPtParseContext::buf`. -/
def bufSize : Nat := 0xffff

/-- What the functions of the C library see of some characters: those before the NUL. -/
def cstr (t : List Char) : List Char := t.takeWhile (· ≠ '\x00')

/-- **`strcat` on `buf`**, which must have a place for the NUL at the end too. -/
def strcatBuf (buf t : List Char) : Option (List Char) :=
  if (buf ++ cstr t).length < bufSize then some (buf ++ cstr t) else none

/-- What the rule of the backslash adds for the character behind it. -/
def escapedChar (ch : Char) : List Char :=
  match ch with
  | 'b' => ['\x08']
  | 't' => ['\t']
  | 'n' => ['\n']
  | 'v' => ['\x0b']
  | 'f' => ['\x0c']
  | 'r' => ['\r']
  | '\\' => ['\\']
  | '\'' => ['\'']
  | '"' => ['"']
  | _ => []

/-- The characters of the rule for everything else. -/
def isPlain (c : Char) : Bool := c ≠ '"' && c ≠ '\\'

/-- What becomes of a quoted string. -/
inductive QuotedToken where
  /-- `S_CON` with its value, and the text behind it. -/
  | sCon (sval rest : List Char)
  /-- `MM_UNTERMINATED_STRING`. -/
  | unterminated (errorStr : List Char)
  /-- A write behind the end of the buffer, or a character that was never read. -/
  | undefined
  deriving DecidableEq

theorem drop_run_lt (c : Char) (text : List Char) (h : isPlain c = true) :
    ((c :: text).dropWhile isPlain).length < (c :: text).length := by
  rw [List.dropWhile_cons_of_pos h]
  have hle := List.Sublist.length_le (List.dropWhile_sublist isPlain (l := text))
  rw [List.length_cons]
  omega

/-- **The state `QSTR`**, with what the buffer holds and the text that follows. -/
def qstr (buf : List Char) (text : List Char) : QuotedToken :=
  match text with
  | [] => .unterminated buf
  | c :: text =>
    if _hplain : isPlain c = true then
      match strcatBuf buf ((c :: text).takeWhile isPlain) with
      | some buf' => qstr buf' ((c :: text).dropWhile isPlain)
      | none => .undefined
    else if c = '"' then
      if buf.getLast? = some '\\' then
        -- the previous character is a backslash: an escaped quote
        qstr (buf.dropLast ++ ['"']) text
      else .sCon buf text
    else
      -- the character behind the backslash comes from the stream, past the buffer of the scanner
      match text with
      | [] => .undefined
      | ch :: text =>
        match strcatBuf buf (escapedChar ch) with
        | some buf' => qstr buf' text
        | none => .undefined
termination_by text.length
decreasing_by
  · exact drop_run_lt c _ _hplain
  · exact Nat.lt_succ_self _
  · show _ < _ + 2
    omega

/-- **The scanner before a quote**: the rule that begins the state. -/
def lexQuoted (text : List Char) : Option QuotedToken :=
  match text with
  | '"' :: text => some (qstr [] text)
  | _ => none

/-! ## What each rule does -/

@[simp] theorem isPlain_quote : isPlain '"' = false := by decide

@[simp] theorem isPlain_backslash : isPlain '\\' = false := by decide

theorem isPlain_of_ne {c : Char} (hq : c ≠ '"') (hb : c ≠ '\\') : isPlain c = true := by
  unfold isPlain
  simp [hq, hb]

theorem cstr_cons {c : Char} (t : List Char) (hnul : c ≠ '\x00') : cstr (c :: t) = c :: cstr t :=
  List.takeWhile_cons_of_pos (by simpa using hnul)

theorem cstr_nul (t : List Char) : cstr ('\x00' :: t) = [] := rfl

theorem cstr_eq_self {t : List Char} (hnul : '\x00' ∉ t) : cstr t = t := by
  induction t with
  | nil => rfl
  | cons c t ih =>
    have hc : c ≠ '\x00' := fun h => hnul (h ▸ List.mem_cons_self)
    rw [cstr_cons t hc, ih fun h => hnul (List.mem_cons_of_mem c h)]

theorem strcatBuf_of_fits {buf t : List Char} (hnul : '\x00' ∉ t)
    (hfits : (buf ++ t).length < bufSize) : strcatBuf buf t = some (buf ++ t) := by
  unfold strcatBuf
  rw [cstr_eq_self hnul]
  exact if_pos hfits

/-- Behind a plain character that is not the NUL, the first character of the run may go ahead. -/
theorem strcatBuf_cons {buf : List Char} {c : Char} (t : List Char) (hnul : c ≠ '\x00') :
    strcatBuf buf (c :: t) = strcatBuf (buf ++ [c]) t := by
  have happend : buf ++ c :: cstr t = (buf ++ [c]) ++ cstr t := by
    rw [List.append_assoc]
    rfl
  unfold strcatBuf
  rw [cstr_cons t hnul, happend]

/-- The closing quote. -/
theorem qstr_quote {buf : List Char} (text : List Char) (h : buf.getLast? ≠ some '\\') :
    qstr buf ('"' :: text) = .sCon buf text := by
  rw [qstr.eq_def]
  simp [h]

/-- A backslash and the character behind it. -/
theorem qstr_backslash {buf buf' : List Char} {ch : Char} (text : List Char)
    (h : strcatBuf buf (escapedChar ch) = some buf') :
    qstr buf ('\\' :: ch :: text) = qstr buf' text := by
  rw [qstr.eq_def]
  simp [h]

/-- **A plain character**, as if the run ended behind it. -/
theorem qstr_plain {buf : List Char} {c : Char} (text : List Char) (hplain : isPlain c = true)
    (hnul : c ≠ '\x00') (hfits : buf.length + 1 < bufSize) :
    qstr buf (c :: text) = qstr (buf ++ [c]) text := by
  have hlength : (buf ++ [c]).length < bufSize := by
    rw [List.length_append]
    exact hfits
  rw [qstr.eq_def]
  simp only
  rw [dif_pos hplain, List.takeWhile_cons_of_pos hplain, List.dropWhile_cons_of_pos hplain,
    strcatBuf_cons _ hnul]
  cases text with
  | nil =>
    show (match strcatBuf (buf ++ [c]) [] with
      | some buf' => qstr buf' []
      | none => QuotedToken.undefined) = _
    rw [strcatBuf_of_fits List.not_mem_nil (by rwa [List.append_nil]), List.append_nil]
  | cons d text =>
    by_cases hd : isPlain d = true
    · -- the run goes on
      rw [qstr.eq_def (buf ++ [c]) (d :: text)]
      simp only [hd, dif_pos]
    · -- the run ends here
      rw [List.takeWhile_cons_of_neg hd, List.dropWhile_cons_of_neg hd,
        strcatBuf_of_fits List.not_mem_nil (by rwa [List.append_nil]), List.append_nil]

/-! ## A string without a backslash comes back -/

/-- **One character**, as it was written. -/
theorem qstr_quotedChar {buf : List Char} {c : Char} (text : List Char) (hnul : c ≠ '\x00')
    (hb : c ≠ '\\') (hfits : buf.length + 1 < bufSize) :
    qstr buf (quotedChar c ++ text) = qstr (buf ++ [c]) text := by
  have hone : ∀ d : Char, d ≠ '\x00' → strcatBuf buf [d] = some (buf ++ [d]) := by
    intro d hd
    apply strcatBuf_of_fits
    · exact fun h => hd (List.mem_singleton.mp h).symm
    · rw [List.length_append]
      exact hfits
  unfold quotedChar
  split
  · exact qstr_backslash text (hone '\n' (by decide))
  · exact qstr_backslash text (hone '\t' (by decide))
  · exact qstr_backslash text (hone '\x08' (by decide))
  · exact qstr_backslash text (hone '"' (by decide))
  · rename_i hn ht hbs hq
    exact qstr_plain text (isPlain_of_ne hq hb) hnul hfits

/-- **The characters of a string**, one after the other. -/
theorem qstr_written {cs buf : List Char} (text : List Char) (hnul : '\x00' ∉ cs) (hb : '\\' ∉ cs)
    (hfits : (buf ++ cs).length < bufSize) :
    qstr buf (cs.flatMap quotedChar ++ text) = qstr (buf ++ cs) text := by
  induction cs generalizing buf with
  | nil => rw [List.append_nil]; rfl
  | cons c cs ih =>
    have hnul' := not_or.mp (List.mem_cons.not.mp hnul)
    have hb' := not_or.mp (List.mem_cons.not.mp hb)
    rw [List.length_append, List.length_cons] at hfits
    have hcons : buf ++ c :: cs = (buf ++ [c]) ++ cs := by rw [List.append_assoc]; rfl
    rw [List.flatMap_cons, List.append_assoc,
      qstr_quotedChar _ (Ne.symm hnul'.1) (Ne.symm hb'.1) (by omega), hcons]
    apply ih hnul'.2 hb'.2
    rw [List.length_append, List.length_append, List.length_singleton]
    omega

/-! ## What the buffer and the backslashes allow -/

theorem strcatBuf_eq_some {buf t buf' : List Char} (h : strcatBuf buf t = some buf') :
    buf' = buf ++ cstr t ∧ buf'.length < bufSize := by
  unfold strcatBuf at h
  split at h
  · cases h
    exact ⟨rfl, by assumption⟩
  · cases h

/-- **The value fits into the buffer.** -/
theorem qstr_length {buf text sval rest : List Char} (hbuf : buf.length < bufSize)
    (h : qstr buf text = .sCon sval rest) : sval.length < bufSize := by
  fun_induction qstr buf text with
  | case1 => cases h
  | case2 buf c text hplain buf' hstr ih => exact ih (strcatBuf_eq_some hstr).2 h
  | case3 => cases h
  | case4 buf text hlast hplain ih =>
    apply ih _ h
    have hne : buf ≠ [] := by
      intro hnil
      rw [hnil] at hlast
      cases hlast
    have hpos := List.length_pos_iff.mpr hne
    rw [List.length_append, List.length_dropLast, List.length_singleton]
    omega
  | case5 =>
    cases h
    exact hbuf
  | case6 => cases h
  | case7 buf c hplain hq ch text buf' hstr ih => exact ih (strcatBuf_eq_some hstr).2 h
  | case8 => cases h

/-- The backslashes of a text, and the characters that the writer does not leave as they are. -/
def textCost (c : Char) : Nat :=
  if c = '\\' ∨ c = '\n' ∨ c = '\t' ∨ c = '\x08' then 1 else 0

/-- What a character of the value has cost. -/
def valueCost (c : Char) : Nat :=
  if c = '\\' then 2 else if c = '\n' ∨ c = '\t' ∨ c = '\x08' ∨ c = '"' then 1 else 0

theorem cstr_escapedChar (ch : Char) : cstr (escapedChar ch) = escapedChar ch := by
  apply cstr_eq_self
  unfold escapedChar
  split <;> decide

theorem valueCost_escapedChar (ch : Char) :
    ((escapedChar ch).map valueCost).sum ≤ 1 + textCost ch := by
  unfold escapedChar
  split <;> first | decide | exact Nat.zero_le _

theorem valueCost_plain {c : Char} (h : isPlain c = true) : valueCost c = textCost c := by
  have hne : c ≠ '"' ∧ c ≠ '\\' := by
    unfold isPlain at h
    simpa using h
  unfold valueCost textCost
  simp [hne.1, hne.2]

theorem valueCost_run (t : List Char) :
    ((cstr (t.takeWhile isPlain)).map valueCost).sum ≤
      ((t.takeWhile isPlain).map textCost).sum := by
  induction t with
  | nil => exact Nat.le_refl _
  | cons c t ih =>
    by_cases hplain : isPlain c = true
    · rw [List.takeWhile_cons_of_pos hplain]
      by_cases hnul : c = '\x00'
      · rw [hnul, cstr_nul]
        exact Nat.zero_le _
      · rw [cstr_cons _ hnul, List.map_cons, List.map_cons, List.sum_cons, List.sum_cons, valueCost_plain hplain]
        omega
    · rw [List.takeWhile_cons_of_neg hplain]
      exact Nat.le_refl _

/-- **The crux**: what the value has cost was in the text. -/
theorem qstr_weight {buf text sval rest : List Char} (h : qstr buf text = .sCon sval rest) :
    (sval.map valueCost).sum + (rest.map textCost).sum ≤
      (buf.map valueCost).sum + (text.map textCost).sum := by
  fun_induction qstr buf text with
  | case1 => cases h
  | case2 buf c text hplain buf' hstr ih =>
    have hle := ih h
    have hrun := valueCost_run (c :: text)
    have hsplit : ((c :: text).map textCost).sum = (((c :: text).takeWhile isPlain).map textCost).sum +
        (((c :: text).dropWhile isPlain).map textCost).sum := by
      rw [← List.sum_append, ← List.map_append, List.takeWhile_append_dropWhile]
    rw [(strcatBuf_eq_some hstr).1, List.map_append, List.sum_append] at hle
    omega
  | case3 => cases h
  | case4 buf text hlast hplain ih =>
    -- the quote takes the place of a backslash, which has cost more
    have hle := ih h
    obtain ⟨init, rfl⟩ := List.getLast?_eq_some_iff.mp hlast
    rw [List.dropLast_concat] at hle
    rw [List.map_append, List.sum_append] at hle ⊢
    have hb : (['\\'].map valueCost).sum = 2 := by decide
    have hq : (['"'].map valueCost).sum = 1 := by decide
    have hcost : (('"' :: text).map textCost).sum = (text.map textCost).sum := by
      rw [List.map_cons, List.sum_cons, show textCost '"' = 0 by decide, Nat.zero_add]
    omega
  | case5 =>
    cases h
    rw [List.map_cons, List.sum_cons]
    omega
  | case6 => cases h
  | case7 buf c hplain hq ch text buf' hstr ih =>
    have hle := ih h
    have hesc := valueCost_escapedChar ch
    have hc : c = '\\' := by
      by_contra hne
      exact hplain (isPlain_of_ne hq hne)
    rw [(strcatBuf_eq_some hstr).1, cstr_escapedChar, List.map_append, List.sum_append] at hle
    rw [List.map_cons, List.map_cons, List.sum_cons, List.sum_cons, hc, show textCost '\\' = 1 by decide]
    omega
  | case8 => cases h

/-- **What the writer pays**: one for each backslash of the text, so one too little for each backslash
    of the string. -/
theorem textCost_quotedChar (c : Char) :
    ((quotedChar c).map textCost).sum + (if c = '\\' then 1 else 0) = valueCost c := by
  unfold quotedChar
  split
  · decide
  · decide
  · decide
  · decide
  · rename_i hn ht hbs hq
    by_cases hb : c = '\\'
    · rw [hb]
      decide
    · have hzero : ¬ (c = '\\' ∨ c = '\n' ∨ c = '\t' ∨ c = '\x08') := by
        rintro (h | h | h | h)
        · exact hb h
        · exact hn h
        · exact ht h
        · exact hbs h
      have hzero' : ¬ (c = '\n' ∨ c = '\t' ∨ c = '\x08' ∨ c = '"') := by
        rintro (h | h | h | h)
        · exact hn h
        · exact ht h
        · exact hbs h
        · exact hq h
      unfold valueCost
      rw [if_neg hb, if_neg hb, if_neg hzero']
      show textCost c + 0 + 0 = 0
      unfold textCost
      rw [if_neg hzero]

theorem textCost_written (cs : List Char) :
    ((cs.flatMap quotedChar).map textCost).sum + cs.count '\\' = (cs.map valueCost).sum := by
  induction cs with
  | nil => rfl
  | cons c cs ih =>
    have hc := textCost_quotedChar c
    rw [List.flatMap_cons, List.map_append, List.sum_append, List.count_cons, List.map_cons, List.sum_cons]
    by_cases hb : c = '\\'
    · rw [hb] at hc ⊢
      rw [if_pos rfl] at hc
      simp only [beq_self_eq_true, if_true]
      omega
    · rw [if_neg hb] at hc
      simp only [beq_iff_eq, if_neg hb]
      omega

/-! ## The round trip -/

theorem strlenInt_of_lt {s : CString} (h : s.chars.length < bufSize) :
    (strlenInt s).toNat = s.chars.length := by
  unfold strlenInt
  rw [Int.bmod_eq_of_le (by omega) (by unfold bufSize at h; omega)]
  exact Int.toNat_natCast _

/-- **A string comes back** as one token, whatever follows it, exactly when it has no backslash and the
    buffer holds it. -/
theorem quotedStr_roundTrip (s : CString) (rest : List Char) :
    lexQuoted (writeQuotedStr s ++ rest) = some (.sCon s.chars rest) ↔
      '\\' ∉ s.chars ∧ s.chars.length < bufSize := by
  have hlex : lexQuoted (writeQuotedStr s ++ rest) =
      some (qstr [] ((s.chars.take (strlenInt s).toNat).flatMap quotedChar ++ '"' :: rest)) := by
    have htext : writeQuotedStr s ++ rest =
        '"' :: ((s.chars.take (strlenInt s).toNat).flatMap quotedChar ++ '"' :: rest) := by
      unfold writeQuotedStr
      rw [List.append_assoc, List.append_assoc, List.singleton_append, List.singleton_append]
    rw [htext, lexQuoted]
  rw [hlex]
  constructor
  · intro h
    have h := Option.some.inj h
    have hlength : s.chars.length < bufSize := qstr_length (by decide) h
    refine ⟨?_, hlength⟩
    rw [strlenInt_of_lt hlength, List.take_length] at h
    have hweight := qstr_weight h
    have hwritten := textCost_written s.chars
    have hquote : (('"' :: rest).map textCost).sum = (rest.map textCost).sum := by
      rw [List.map_cons, List.sum_cons, show textCost '"' = 0 by decide, Nat.zero_add]
    rw [List.map_append, List.sum_append, hquote, List.map_nil, List.sum_nil] at hweight
    apply List.count_eq_zero.mp
    omega
  · rintro ⟨hb, hlength⟩
    have hread := qstr_written ('"' :: rest) s.noNul hb (by rwa [List.nil_append])
    rw [strlenInt_of_lt hlength, List.take_length, hread, List.nil_append, qstr_quote]
    intro hlast
    exact hb (List.mem_of_getLast? hlast)

/-- The string of one backslash takes the closing quote with it, and the text behind it too. -/
theorem quotedStr_backslash :
    lexQuoted (writeQuotedStr ⟨['\\'], by decide⟩ ++ [';', '\n']) = some (.unterminated ['"', ';', '\n']) ∧
      lexQuoted (writeQuotedStr ⟨['\\'], by decide⟩ ++ [';', '\n']) ≠ some (.sCon ['\\'] [';', '\n']) := by
  have h : lexQuoted (writeQuotedStr ⟨['\\'], by decide⟩ ++ [';', '\n']) =
      some (.unterminated ['"', ';', '\n']) := by
    decide +kernel
  rw [h]
  exact ⟨rfl, nofun⟩

end Trick.CheckPoint
