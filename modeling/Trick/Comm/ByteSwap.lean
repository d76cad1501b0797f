/-
  `trick_bswap_buffer`: a structure in the byte order of another machine.

  Data:           the attributes of the structure, and the memory that is read and the one that is written, each from
                  where the structure begins.
  Program:        `bswapBuffer`, which goes through the attributes: the bytes of a member the other way round, the bits
                  of a bit-field where the other order has them, in a word that is swapped when its last field is in it.
  Specification:  `Converted`: each member is as the other order has it.  `Same`: each member has the same value.
  Result:         `bswapBuffer_converts`, for one direction, and `reversible_iff`: there and back is what it should be
                  exactly if no bit-field is as wide as its word, for then the mask is not defined.
-/
import Trick.MemoryManager.Bitfields

namespace Trick.ByteSwap

open Trick.Lib Trick.Bitfields

/-! ## The program -/

/-- A bit-field, by its `index[0]`. -/
structure Field where
  start : Nat
  size : Nat
deriving DecidableEq

/-- **The attributes of a structure**, up to the one without a name.  The bit-fields that stand one behind the other
    with one offset are together. -/
inductive Attributes where
  | nil
  | structured (offset size : Nat) (dims : List Nat) (attr rest : Attributes)
  | bitfields (offset : Nat) (field : Field) (fields : List Field) (rest : Attributes)
  | member (offset size : Nat) (dims : List Nat) (rest : Attributes)

/-- The offset of the first of them. -/
def Attributes.firstOffset : Attributes → Option Nat
  | nil => none
  | structured offset _ _ _ _ | bitfields offset _ _ _ | member offset _ _ _ => some offset

/-- `ti << shift` or `ti >> -shift` -/
def shiftBits (ti : BitVec 32) (shift : Int) : Option (BitVec 32) := if 0 < shift then shl ti shift else shr ti (-shift)

/-- The bits of a field, at their new place. -/
def moveBits (up : Bool) (f : Field) (ti : BitVec 32) : Option (BitVec 32) :=
  if up then
    (shl 0xFFFFFFFF#32 f.size).bind fun ones =>
      (shl (~~~ones) (32 - f.start - f.size)).bind fun mask => shiftBits (ti &&& mask) (2 * f.start + f.size - 32)
  else
    (shr 0xFFFFFFFF#32 f.size).bind fun ones =>
      (shr (~~~ones) (32 - f.start - f.size)).bind fun mask => shiftBits (ti &&& mask) (32 - 2 * f.start - f.size)

/-- One bit-field of the word at an address. -/
def swapField (localOrder : ByteOrder) (tofrom : Bool) (inp : Mem) (address : Nat) (out : Mem) (f : Field) :
    Option Mem :=
  let word := load localOrder inp address
  let ti := if tofrom then word else swap32 word
  (moveBits (decide (localOrder = .little) == tofrom) f ti).map fun ti =>
    store localOrder out address (load localOrder out address ||| ti)

/-- **`trick_bswap_buffer`**; `num` is the product of the dimensions. -/
def bswapBuffer (localOrder : ByteOrder) (tofrom : Bool) (inp : Mem) : Attributes → Nat → Mem → Option Mem
  | .nil, _, out => some out
  | .structured offset size dims attr rest, a, out =>
    ((List.range dims.prod).foldlM
      (fun out j => bswapBuffer localOrder tofrom inp attr (a + offset + j * size) out) out).bind
      fun out => bswapBuffer localOrder tofrom inp rest a out
  | .bitfields offset field fields rest, a, out =>
    ((field :: fields).foldlM (swapField localOrder tofrom inp (a + offset)) out).bind fun out =>
      let swapped := store localOrder out (a + offset) (swap32 (load localOrder out (a + offset)))
      bswapBuffer localOrder tofrom inp rest a (if rest.firstOffset ≠ some offset ∧ tofrom = true then swapped else out)
  | .member offset size dims rest, a, out =>
    if size = 1 ∨ size = 2 ∨ size = 4 ∨ size = 8 then
      ((List.range dims.prod).foldlM (fun out j => some (copyReversed size (a + offset + j * size) inp out)) out).bind
        fun out => bswapBuffer localOrder tofrom inp rest a out
    else bswapBuffer localOrder tofrom inp rest a out

/-! ## What it is for -/

/-- The bytes that it writes. -/
def Attributes.Covers : Attributes → Nat → Nat → Prop
  | nil, _, _ => False
  | structured offset size dims attr rest, a, x =>
    (∃ j < dims.prod, attr.Covers (a + offset + j * size) x) ∨ rest.Covers a x
  | bitfields offset _ _ rest, a, x => InWord (a + offset) x ∨ rest.Covers a x
  | member offset size dims rest, a, x =>
    (∃ j < dims.prod, a + offset + j * size ≤ x ∧ x < a + offset + j * size + size) ∨ rest.Covers a x

/-- The fields do not overlap. -/
def Field.Apart (f g : Field) : Prop := f.start + f.size ≤ g.start ∨ g.start + g.size ≤ f.start

/-- **Nothing overlaps**, and every member is of a size that is swapped. -/
def Attributes.Sound : Attributes → Nat → Prop
  | nil, _ => True
  | structured offset size dims attr rest, a =>
    (∀ j < dims.prod, attr.Sound (a + offset + j * size) ∧
      ∀ x, attr.Covers (a + offset + j * size) x → a + offset + j * size ≤ x ∧ x < a + offset + j * size + size) ∧
    (∀ j < dims.prod, ∀ x, attr.Covers (a + offset + j * size) x → ¬ rest.Covers a x) ∧ rest.Sound a
  | bitfields offset field fields rest, a =>
    (∀ f ∈ field :: fields, Fits 4 f.start f.size ∧ ∀ g ∈ field :: fields, f ≠ g → f.Apart g) ∧
    rest.firstOffset ≠ some offset ∧ (∀ x, InWord (a + offset) x → ¬ rest.Covers a x) ∧ rest.Sound a
  | member offset size dims rest, a =>
    (size = 1 ∨ size = 2 ∨ size = 4 ∨ size = 8) ∧
    (∀ j < dims.prod, ∀ x, a + offset + j * size ≤ x → x < a + offset + j * size + size → ¬ rest.Covers a x) ∧
    rest.Sound a

/-- **No bit-field is a whole word**, among those that are come to. -/
def Attributes.Narrow : Attributes → Prop
  | nil => True
  | structured _ _ dims attr rest => (0 < dims.prod → attr.Narrow) ∧ rest.Narrow
  | bitfields _ field fields rest => (∀ f ∈ field :: fields, f.size < 32) ∧ rest.Narrow
  | member _ _ _ rest => rest.Narrow

/-- **Every member is as the other byte order has it**: in `out`, if `inp` has the order `o`. -/
def Attributes.Converted (o : ByteOrder) (inp out : Mem) : Attributes → Nat → Prop
  | nil, _ => True
  | structured offset size dims attr rest, a =>
    (∀ j < dims.prod, attr.Converted o inp out (a + offset + j * size)) ∧ rest.Converted o inp out a
  | bitfields offset field fields rest, a =>
    (∀ f ∈ field :: fields, ∀ i < f.size,
      (load o.other out (a + offset)).getLsbD (fieldPos o.other 4 f.start f.size + i) =
        (load o inp (a + offset)).getLsbD (fieldPos o 4 f.start f.size + i)) ∧ rest.Converted o inp out a
  | member offset size dims rest, a =>
    (∀ j < dims.prod, ∀ k < size,
      out (a + offset + j * size + k) = inp (a + offset + j * size + (size - 1 - k))) ∧ rest.Converted o inp out a

/-- **Every member has the same value.** -/
def Attributes.Same (o : ByteOrder) (inp out : Mem) : Attributes → Nat → Prop
  | nil, _ => True
  | structured offset size dims attr rest, a =>
    (∀ j < dims.prod, attr.Same o inp out (a + offset + j * size)) ∧ rest.Same o inp out a
  | bitfields offset field fields rest, a =>
    (∀ f ∈ field :: fields, ∀ i < f.size,
      (load o out (a + offset)).getLsbD (fieldPos o 4 f.start f.size + i) =
        (load o inp (a + offset)).getLsbD (fieldPos o 4 f.start f.size + i)) ∧ rest.Same o inp out a
  | member offset size dims rest, a =>
    (∀ j < dims.prod, ∀ k < size, out (a + offset + j * size + k) = inp (a + offset + j * size + k)) ∧
      rest.Same o inp out a

/-- **A structure can be swapped for the other machine and back**: in between it is as the other byte order has it, and
    in the end every member has its value. -/
def Attributes.Reversible (o : ByteOrder) (inp : Mem) (attrs : Attributes) (a : Nat) : Prop :=
  ∃ mid out, bswapBuffer o true inp attrs a (fun _ => 0) = some mid ∧ attrs.Converted o inp mid a ∧
    bswapBuffer o false mid attrs a (fun _ => 0) = some out ∧ attrs.Same o inp out a

/-! ## A bit-field -/

section Bits

variable {s z p q m i : Nat} {w : BitVec 32}

/-- The mask of `z` bits from `m` on, from below. -/
theorem getLsbD_lowMask (h : m + z ≤ 32) :
    (~~~(0xFFFFFFFF#32 <<< z) <<< m).getLsbD i = decide (m ≤ i ∧ i < m + z) := by
  rw [BitVec.getLsbD_shiftLeft, BitVec.getLsbD_not, getLsbD_ones_shl, Bool.eq_iff_iff]
  simp only [Bool.and_eq_true, Bool.not_eq_true', decide_eq_true_eq, decide_eq_false_iff_not]
  omega

/-- The mask of `z` bits from `s` on, from above. -/
theorem getLsbD_highMask (h : s + z ≤ 32) :
    (~~~(0xFFFFFFFF#32 >>> z) >>> (32 - s - z)).getLsbD i = decide (s ≤ i ∧ i < s + z) := by
  rw [BitVec.getLsbD_ushiftRight, BitVec.getLsbD_not, getLsbD_ones_shr, Bool.eq_iff_iff]
  simp only [Bool.and_eq_true, Bool.not_eq_true', decide_eq_true_eq, decide_eq_false_iff_not]
  omega

/-- What was at `p` comes to `q`. -/
theorem shiftBits_spec {shift : Int} (hshift : shift = (q : Int) - p) (hp : p < 32) (hq : q < 32) :
    ∃ moved, shiftBits w shift = some moved ∧
      ∀ i, moved.getLsbD i = (decide (i < 32 ∧ q ≤ i + p) && w.getLsbD (i + p - q)) := by
  unfold shiftBits
  by_cases hpos : 0 < shift
  · refine ⟨w <<< (q - p), ?_, fun i => ?_⟩
    · rw [if_pos hpos]
      exact shl_eq (by omega) (by omega)
    · have hindex : i + p - q = i - (q - p) := by omega
      have hle : ¬ i < q - p ↔ q ≤ i + p := by omega
      rw [BitVec.getLsbD_shiftLeft, hindex, Bool.eq_iff_iff]
      simp only [Bool.and_eq_true, Bool.not_eq_true', decide_eq_true_eq, decide_eq_false_iff_not, hle]
  · refine ⟨w >>> (p - q), ?_, fun i => ?_⟩
    · rw [if_neg hpos]
      exact shr_eq (by omega) (by omega)
    · have hindex : i + p - q = p - q + i := by omega
      rw [BitVec.getLsbD_ushiftRight, hindex]
      by_cases hi : i < 32
      · rw [decide_eq_true (⟨hi, by omega⟩ : i < 32 ∧ q ≤ i + p), Bool.true_and]
      · rw [decide_eq_false fun h => hi h.1, Bool.false_and]
        exact BitVec.getLsbD_of_ge w _ (by omega)

/-- **The bits under a mask are moved.** -/
theorem shiftBits_mask {mask : BitVec 32} {shift : Int} (hshift : shift = (q : Int) - p) (hz : 0 < z) (hp : p + z ≤ 32)
    (hq : q + z ≤ 32) (hmask : ∀ i, mask.getLsbD i = decide (p ≤ i ∧ i < p + z)) :
    ∃ moved, shiftBits (w &&& mask) shift = some moved ∧
      ∀ i, moved.getLsbD i = true ↔ ∃ k < z, i = q + k ∧ w.getLsbD (p + k) = true := by
  obtain ⟨moved, hmoved, hbits⟩ := shiftBits_spec (w := w &&& mask) hshift (by omega) (by omega)
  refine ⟨moved, hmoved, fun i => ?_⟩
  rw [hbits, BitVec.getLsbD_and, hmask]
  simp only [Bool.and_eq_true, decide_eq_true_eq]
  constructor
  · rintro ⟨⟨hi, hle⟩, hw, hlow, hhigh⟩
    refine ⟨i - q, by omega, by omega, ?_⟩
    rwa [show p + (i - q) = i + p - q by omega]
  · rintro ⟨k, hk, rfl, hw⟩
    have hindex : q + k + p - q = p + k := by omega
    rw [hindex]
    exact ⟨⟨by omega, by omega⟩, hw, by omega, by omega⟩

end Bits

/-- The order that the words have which are read, after they are swapped. -/
def source (localOrder : ByteOrder) (tofrom : Bool) : ByteOrder := if tofrom then localOrder else localOrder.other

/-- **The bits of a field come to the place that the other order has for them.** -/
theorem moveBits_spec (o : ByteOrder) {f : Field} (hf : Fits 4 f.start f.size) (hlt : f.size < 32)
    (ti : BitVec 32) :
    ∃ moved, moveBits (decide (o = .little)) f ti = some moved ∧
      ∀ i, moved.getLsbD i = true ↔ ∃ k < f.size, i = fieldPos o.other 4 f.start f.size + k ∧
        ti.getLsbD (fieldPos o 4 f.start f.size + k) = true := by
  have hpos := hf.pos
  have hfits := hf.fits
  cases o with
  | little =>
    have hones : shl 0xFFFFFFFF#32 f.size = some (0xFFFFFFFF#32 <<< f.size) := shl_eq rfl hlt
    have hmask : shl (~~~(0xFFFFFFFF#32 <<< f.size)) (32 - f.start - f.size) =
        some (~~~(0xFFFFFFFF#32 <<< f.size) <<< (32 - f.start - f.size)) := shl_eq (by omega) (by omega)
    show ∃ moved, moveBits true f ti = some moved ∧ ∀ i, moved.getLsbD i = true ↔ ∃ k < f.size, i = f.start + k ∧
      ti.getLsbD (32 - f.start - f.size + k) = true
    unfold moveBits
    rw [if_pos rfl, hones, Option.bind_some, hmask, Option.bind_some]
    exact shiftBits_mask (by omega) hpos (by omega) hfits fun i => getLsbD_lowMask (by omega)
  | big =>
    have hones : shr 0xFFFFFFFF#32 f.size = some (0xFFFFFFFF#32 >>> f.size) := shr_eq rfl hlt
    have hmask : shr (~~~(0xFFFFFFFF#32 >>> f.size)) (32 - f.start - f.size) =
        some (~~~(0xFFFFFFFF#32 >>> f.size) >>> (32 - f.start - f.size)) := shr_eq (by omega) (by omega)
    show ∃ moved, moveBits false f ti = some moved ∧ ∀ i, moved.getLsbD i = true ↔ ∃ k < f.size,
      i = 32 - f.start - f.size + k ∧ ti.getLsbD (f.start + k) = true
    unfold moveBits
    rw [if_neg Bool.false_ne_true, hones, Option.bind_some, hmask, Option.bind_some]
    exact shiftBits_mask (by omega) hpos hfits (by omega) fun i => getLsbD_highMask hfits

/-- A shift by a whole word is not defined. -/
theorem moveBits_lt {up : Bool} {f : Field} {ti moved : BitVec 32} (h : moveBits up f ti = some moved) :
    f.size < 32 := by
  unfold moveBits at h
  cases up with
  | true =>
    obtain ⟨ones, hones, -⟩ := Option.bind_eq_some_iff.mp h
    by_contra hge
    rw [shl, if_neg fun hshift : ShiftAmount f.size => hge (by exact_mod_cast hshift.2)] at hones
    cases hones
  | false =>
    obtain ⟨ones, hones, -⟩ := Option.bind_eq_some_iff.mp h
    by_contra hge
    rw [shr, if_neg fun hshift : ShiftAmount f.size => hge (by exact_mod_cast hshift.2)] at hones
    cases hones

/-! ## The fields of a word -/

section Words

variable {o : ByteOrder} {m out : Mem} {a x : Nat} {w : BitVec 32}

/-- The word is read in the order that it comes in. -/
theorem source_word (o : ByteOrder) (tofrom : Bool) (inp : Mem) :
    (if tofrom = true then load o inp a else swap32 (load o inp a)) = load (source o tofrom) inp a := by
  cases tofrom with
  | true => rfl
  | false => exact swap32_load

/-- **One field is put into the word.** -/
theorem swapField_spec (o : ByteOrder) (tofrom : Bool) (inp out : Mem) (a : Nat) {f : Field}
    (hf : Fits 4 f.start f.size) (hlt : f.size < 32) :
    ∃ put, swapField o tofrom inp a out f = some put ∧ (∀ x, ¬ InWord a x → put x = out x) ∧
      ∀ i, (load o put a).getLsbD i = true ↔ (load o out a).getLsbD i = true ∨
        ∃ k < f.size, i = fieldPos (source o tofrom).other 4 f.start f.size + k ∧
          (load (source o tofrom) inp a).getLsbD (fieldPos (source o tofrom) 4 f.start f.size + k) = true := by
  have hup : (decide (o = .little) == tofrom) = decide (source o tofrom = .little) := by
    cases o <;> cases tofrom <;> rfl
  obtain ⟨moved, hmoved, hbits⟩ := moveBits_spec (source o tofrom) hf hlt (load (source o tofrom) inp a)
  refine ⟨store o out a (load o out a ||| moved), ?_, fun x hx => store_of_not_mem hx, fun i => ?_⟩
  · unfold swapField
    dsimp only
    rw [source_word, hup, hmoved]
    rfl
  · rw [load_store, BitVec.getLsbD_or, Bool.or_eq_true, hbits]

/-- **All fields are put into the word**, one after the other. -/
theorem swapFields_spec (o : ByteOrder) (tofrom : Bool) (inp : Mem) (a : Nat) (fields : List Field)
    (hfits : ∀ f ∈ fields, Fits 4 f.start f.size) (hlt : ∀ f ∈ fields, f.size < 32) (out : Mem) :
    ∃ put, fields.foldlM (swapField o tofrom inp a) out = some put ∧ (∀ x, ¬ InWord a x → put x = out x) ∧
      ∀ i, (load o put a).getLsbD i = true ↔ (load o out a).getLsbD i = true ∨
        ∃ f ∈ fields, ∃ k < f.size, i = fieldPos (source o tofrom).other 4 f.start f.size + k ∧
          (load (source o tofrom) inp a).getLsbD (fieldPos (source o tofrom) 4 f.start f.size + k) = true := by
  induction fields generalizing out with
  | nil => exact ⟨out, rfl, fun _ _ => rfl, fun i => by simp⟩
  | cons f fields ih =>
    obtain ⟨put, hput, hframe, hbits⟩ := swapField_spec o tofrom inp out a (hfits f List.mem_cons_self)
      (hlt f List.mem_cons_self)
    obtain ⟨all, hall, hframes, hallBits⟩ := ih (fun g hg => hfits g (List.mem_cons_of_mem f hg))
      (fun g hg => hlt g (List.mem_cons_of_mem f hg)) put
    refine ⟨all, ?_, fun x hx => (hframes x hx).trans (hframe x hx), fun i => ?_⟩
    · rw [List.foldlM_cons, hput]
      exact hall
    · rw [hallBits, hbits, or_assoc]
      simp only [List.mem_cons, exists_eq_or_imp]

/-- **Each field has the bits of its own**, for they do not overlap. -/
theorem swapFields_field {o : ByteOrder} {tofrom : Bool} {inp out put : Mem} {fields : List Field}
    (hok : ∀ f ∈ fields, Fits 4 f.start f.size ∧ ∀ g ∈ fields, f ≠ g → f.Apart g) (hzero : load o out a = 0)
    (hbits : ∀ i, (load o put a).getLsbD i = true ↔ (load o out a).getLsbD i = true ∨
        ∃ f ∈ fields, ∃ k < f.size, i = fieldPos (source o tofrom).other 4 f.start f.size + k ∧
          (load (source o tofrom) inp a).getLsbD (fieldPos (source o tofrom) 4 f.start f.size + k) = true)
    {f : Field} (hf : f ∈ fields) {i : Nat} (hi : i < f.size) :
    (load o put a).getLsbD (fieldPos (source o tofrom).other 4 f.start f.size + i) =
      (load (source o tofrom) inp a).getLsbD (fieldPos (source o tofrom) 4 f.start f.size + i) := by
  rw [Bool.eq_iff_iff, hbits, hzero]
  constructor
  · rintro (h | ⟨g, hg, k, hk, heq, h⟩)
    · simp at h
    · have hsame : f = g := by
        by_contra hne
        have hapart := (hok f hf).2 g hg hne
        have hffits := (hok f hf).1.fits
        have hgfits := (hok g hg).1.fits
        unfold Field.Apart at hapart
        revert heq
        cases (source o tofrom).other with
        | little =>
          show 8 * 4 - f.start - f.size + i = 8 * 4 - g.start - g.size + k → False
          omega
        | big =>
          show f.start + i = g.start + k → False
          omega
      subst hsame
      rwa [show i = k by omega]
  · exact fun h => Or.inr ⟨f, hf, i, hi, rfl, h⟩

/-- **The word is swapped when its last field is in it**, so that it has the order that is written. -/
theorem finished_spec (o : ByteOrder) (tofrom : Bool) {rest : Attributes} {offset : Nat}
    (hoffset : rest.firstOffset ≠ some offset) (put : Mem) :
    ∃ done, (if rest.firstOffset ≠ some offset ∧ tofrom = true then store o put a (swap32 (load o put a)) else put) =
        done ∧
      (∀ x, ¬ InWord a x → done x = put x) ∧ load (source o tofrom).other done a = load o put a := by
  cases tofrom with
  | true =>
    refine ⟨store o put a (swap32 (load o put a)), if_pos ⟨hoffset, rfl⟩, fun x hx => store_of_not_mem hx, ?_⟩
    show load o.other (store o put a (swap32 (load o put a))) a = load o put a
    rw [← swap32_load, load_store, swap32_swap32]
  | false =>
    refine ⟨put, if_neg fun h => Bool.false_ne_true h.2, fun _ _ => rfl, ?_⟩
    show load o.other.other put a = load o put a
    rw [o.other_other]

end Words

/-! ## A structure -/

/-- **The elements of an array, one after the other**, where each step writes one of them only. -/
theorem elements_spec {b size n : Nat} {step : Mem → Nat → Option Mem} {Cover : Nat → Nat → Prop}
    {Done : Nat → Mem → Prop}
    (hcover : ∀ j < n, ∀ x, Cover j x → b + j * size ≤ x ∧ x < b + j * size + size)
    (hstep : ∀ j < n, ∀ out, (∀ x, Cover j x → out x = 0) →
      ∃ put, step out j = some put ∧ (∀ x, ¬ Cover j x → put x = out x) ∧ Done j put)
    (hframe : ∀ j < n, ∀ m m', (∀ x, Cover j x → m' x = m x) → Done j m → Done j m') {out : Mem}
    (hzero : ∀ j < n, ∀ x, Cover j x → out x = 0) :
    ∃ put, (List.range n).foldlM step out = some put ∧ (∀ x, ¬ (∃ j < n, Cover j x) → put x = out x) ∧
      ∀ j < n, Done j put := by
  have hapart : ∀ j k, j < k → k < n → ∀ x, Cover j x → ¬ Cover k x := by
    intro j k hjk hk x hj hcontra
    have hlow := hcover j (hjk.trans hk) x hj
    have hhigh := hcover k hk x hcontra
    have hle := Nat.mul_le_mul_right size (Nat.succ_le_of_lt hjk)
    rw [Nat.succ_mul] at hle
    omega
  have hloop : ∀ k ≤ n, ∃ put, (List.range k).foldlM step out = some put ∧
      (∀ x, ¬ (∃ j < k, Cover j x) → put x = out x) ∧ ∀ j < k, Done j put := by
    intro k
    induction k with
    | zero => exact fun _ => ⟨out, rfl, fun _ _ => rfl, fun j hj => absurd hj (Nat.not_lt_zero j)⟩
    | succ k ih =>
      intro hk
      obtain ⟨put, hput, hkept, hdone⟩ := ih (by omega)
      have hblank : ∀ x, Cover k x → put x = 0 := by
        intro x hx
        rw [hkept x fun ⟨j, hj, hcontra⟩ => hapart j k hj hk x hcontra hx]
        exact hzero k hk x hx
      obtain ⟨next, hnext, hothers, hthis⟩ := hstep k hk put hblank
      refine ⟨next, ?_, ?_, ?_⟩
      · rw [List.range_succ, List.foldlM_append, hput]
        show (step put k >>= pure) = some next
        rw [bind_pure, hnext]
      · intro x hx
        rw [hothers x fun hcontra => hx ⟨k, Nat.lt_succ_self k, hcontra⟩]
        exact hkept x fun ⟨j, hj, hcontra⟩ => hx ⟨j, Nat.lt_succ_of_lt hj, hcontra⟩
      · intro j hj
        rcases Nat.lt_succ_iff_lt_or_eq.mp hj with hlt | rfl
        · exact hframe j (hlt.trans hk) put next (fun x hx => hothers x (hapart j k hlt hk x hx)) (hdone j hlt)
        · exact hthis
  exact hloop n (Nat.le_refl n)

/-- What is not written by it does not matter. -/
theorem Attributes.Converted.frame {o : ByteOrder} {inp : Mem} : ∀ (attrs : Attributes) {a : Nat} {m m' : Mem},
    (∀ x, attrs.Covers a x → m' x = m x) → attrs.Converted o inp m a → attrs.Converted o inp m' a
  | .nil, _, _, _, _, _ => trivial
  | .structured offset size dims attr rest, a, m, m', hsame, h => by
    constructor
    · intro j hj
      exact frame attr (fun x hx => hsame x (Or.inl ⟨j, hj, hx⟩)) (h.1 j hj)
    · exact frame rest (fun x hx => hsame x (Or.inr hx)) h.2
  | .bitfields offset field fields rest, a, m, m', hsame, h => by
    constructor
    · intro f hf i hi
      rw [load_congr fun x hx => hsame x (Or.inl hx)]
      exact h.1 f hf i hi
    · exact frame rest (fun x hx => hsame x (Or.inr hx)) h.2
  | .member offset size dims rest, a, m, m', hsame, h => by
    constructor
    · intro j hj k hk
      rw [hsame _ (Or.inl ⟨j, hj, by omega, by omega⟩)]
      exact h.1 j hj k hk
    · exact frame rest (fun x hx => hsame x (Or.inr hx)) h.2

/-- **The members behind one are converted as well**: they are still blank when it is done, and leave it as it is. -/
theorem rest_spec {o : ByteOrder} {tofrom : Bool} {inp out put : Mem} {rest : Attributes} {a : Nat} {Head : Nat → Prop}
    (hkept : ∀ x, ¬ Head x → put x = out x) (hapart : ∀ x, Head x → ¬ rest.Covers a x)
    (hzero : ∀ x, Head x ∨ rest.Covers a x → out x = 0)
    (hconverts : (∀ x, rest.Covers a x → put x = 0) →
      ∃ all, bswapBuffer o tofrom inp rest a put = some all ∧ (∀ x, ¬ rest.Covers a x → all x = put x) ∧
        rest.Converted (source o tofrom) inp all a) :
    ∃ all, bswapBuffer o tofrom inp rest a put = some all ∧ (∀ x, ¬ (Head x ∨ rest.Covers a x) → all x = out x) ∧
      (∀ x, Head x → all x = put x) ∧ rest.Converted (source o tofrom) inp all a := by
  have hblank : ∀ x, rest.Covers a x → put x = 0 := by
    intro x hx
    rw [hkept x fun hcontra => hapart x hcontra hx]
    exact hzero x (Or.inr hx)
  obtain ⟨all, hall, hothers, hconverted⟩ := hconverts hblank
  refine ⟨all, hall, ?_, fun x hx => hothers x (hapart x hx), hconverted⟩
  intro x hx
  rw [hothers x fun hcontra => hx (Or.inr hcontra)]
  exact hkept x fun hcontra => hx (Or.inl hcontra)

/-- **`trick_bswap_buffer` gives every member what the other byte order has**, and leaves everything else. -/
theorem bswapBuffer_converts (o : ByteOrder) (tofrom : Bool) (inp : Mem) : ∀ (attrs : Attributes) (a : Nat) (out : Mem),
    attrs.Sound a → attrs.Narrow → (∀ x, attrs.Covers a x → out x = 0) →
    ∃ put, bswapBuffer o tofrom inp attrs a out = some put ∧ (∀ x, ¬ attrs.Covers a x → put x = out x) ∧
      attrs.Converted (source o tofrom) inp put a
  | .nil, _, out, _, _, _ => ⟨out, rfl, fun _ _ => rfl, trivial⟩
  | .structured offset size dims attr rest, a, out, hsound, hnarrow, hzero => by
    obtain ⟨helements, hapart, hrest⟩ := hsound
    have hstep : ∀ j < dims.prod, ∀ out, (∀ x, attr.Covers (a + offset + j * size) x → out x = 0) →
        ∃ put, bswapBuffer o tofrom inp attr (a + offset + j * size) out = some put ∧
          (∀ x, ¬ attr.Covers (a + offset + j * size) x → put x = out x) ∧
          attr.Converted (source o tofrom) inp put (a + offset + j * size) :=
      fun j hj out hblank =>
        bswapBuffer_converts o tofrom inp attr _ out (helements j hj).1 (hnarrow.1 (Nat.zero_lt_of_lt hj)) hblank
    obtain ⟨put, hput, hkept, hdone⟩ := elements_spec (fun j hj => (helements j hj).2) hstep
      (fun j _ m m' hsame => Attributes.Converted.frame attr hsame) (fun j hj x hx => hzero x (Or.inl ⟨j, hj, hx⟩))
    obtain ⟨all, hall, hframe, hsame, hconverted⟩ := rest_spec hkept (fun x ⟨j, hj, hx⟩ => hapart j hj x hx) hzero
      (bswapBuffer_converts o tofrom inp rest a put hrest hnarrow.2)
    refine ⟨all, ?_, hframe, fun j hj => ?_, hconverted⟩
    · unfold bswapBuffer
      rw [hput]
      exact hall
    · exact Attributes.Converted.frame attr (fun x hx => hsame x ⟨j, hj, hx⟩) (hdone j hj)
  | .bitfields offset field fields rest, a, out, hsound, hnarrow, hzero => by
    obtain ⟨hok, hoffset, hapart, hrest⟩ := hsound
    obtain ⟨put, hput, hkept, hbits⟩ :=
      swapFields_spec o tofrom inp (a + offset) (field :: fields) (fun f hf => (hok f hf).1) hnarrow.1 out
    have hword : load o out (a + offset) = 0 := load_zero fun x hx => hzero x (Or.inl hx)
    obtain ⟨done, hdone, hfinished, hloaded⟩ := finished_spec o tofrom hoffset put
    have hkeeps : ∀ x, ¬ InWord (a + offset) x → done x = out x := fun x hx => (hfinished x hx).trans (hkept x hx)
    obtain ⟨all, hall, hframe, hsame, hconverted⟩ := rest_spec hkeeps hapart hzero
      (bswapBuffer_converts o tofrom inp rest a done hrest hnarrow.2)
    refine ⟨all, ?_, hframe, fun f hf i hi => ?_, hconverted⟩
    · unfold bswapBuffer
      rw [hput, Option.bind_some]
      dsimp only
      rw [hdone]
      exact hall
    · rw [load_congr hsame, hloaded]
      exact swapFields_field hok hword hbits hf hi
  | .member offset size dims rest, a, out, hsound, hnarrow, hzero => by
    obtain ⟨hsize, hapart, hrest⟩ := hsound
    have hstep : ∀ j < dims.prod, ∀ out : Mem,
        (∀ x, a + offset + j * size ≤ x ∧ x < a + offset + j * size + size → out x = 0) →
        ∃ put, some (copyReversed size (a + offset + j * size) inp out) = some put ∧
          (∀ x, ¬ (a + offset + j * size ≤ x ∧ x < a + offset + j * size + size) → put x = out x) ∧
          ∀ k < size, put (a + offset + j * size + k) = inp (a + offset + j * size + (size - 1 - k)) := by
      intro j hj out hblank
      refine ⟨_, rfl, fun x hx => if_neg hx, fun k hk => ?_⟩
      unfold copyReversed
      rw [if_pos ⟨by omega, by omega⟩, Nat.add_sub_cancel_left]
    obtain ⟨put, hput, hkept, hdone⟩ := elements_spec (fun j hj x hx => hx) hstep
      (fun j _ m m' hsame h k hk => (hsame _ ⟨by omega, by omega⟩).trans (h k hk))
      (fun j hj x hx => hzero x (Or.inl ⟨j, hj, hx⟩))
    obtain ⟨all, hall, hframe, hsame, hconverted⟩ := rest_spec hkept
      (fun x ⟨j, hj, hlow, hhigh⟩ => hapart j hj x hlow hhigh) hzero
      (bswapBuffer_converts o tofrom inp rest a put hrest hnarrow)
    refine ⟨all, ?_, hframe, fun j hj k hk => ?_, hconverted⟩
    · unfold bswapBuffer
      rw [if_pos hsize, hput]
      exact hall
    · rw [hsame _ ⟨j, hj, by omega, by omega⟩]
      exact hdone j hj k hk

/-- **There and back.** -/
theorem same_of_converted {o : ByteOrder} {inp mid out : Mem} : ∀ (attrs : Attributes) {a : Nat},
    attrs.Converted o inp mid a → attrs.Converted o.other mid out a → attrs.Same o inp out a
  | .nil, _, _, _ => trivial
  | .structured _ _ _ attr rest, _, hmid, hout =>
    ⟨fun j hj => same_of_converted attr (hmid.1 j hj) (hout.1 j hj), same_of_converted rest hmid.2 hout.2⟩
  | .bitfields _ _ _ rest, _, hmid, hout => by
    refine ⟨fun f hf i hi => ?_, same_of_converted rest hmid.2 hout.2⟩
    have hback := hout.1 f hf i hi
    rw [o.other_other] at hback
    exact hback.trans (hmid.1 f hf i hi)
  | .member _ _ _ rest, _, hmid, hout => by
    refine ⟨fun j hj k hk => ?_, same_of_converted rest hmid.2 hout.2⟩
    rw [hout.1 j hj k hk, hmid.1 j hj _ (by omega)]
    congr 2
    omega

/-- A loop that ends has taken every step. -/
theorem step_of_foldlM {α β : Type} {step : α → β → Option α} {l : List β} {s t : α} (h : l.foldlM step s = some t) :
    ∀ b ∈ l, ∃ s t, step s b = some t := by
  induction l generalizing s with
  | nil => exact fun _ hb => absurd hb List.not_mem_nil
  | cons b l ih =>
    rw [List.foldlM_cons] at h
    obtain ⟨next, hnext, hrest⟩ := Option.bind_eq_some_iff.mp h
    intro c hc
    rcases List.mem_cons.mp hc with rfl | hc
    · exact ⟨s, next, hnext⟩
    · exact ih hrest c hc

/-- **It is defined only if no bit-field is a whole word.** -/
theorem narrow_of_some {o : ByteOrder} {tofrom : Bool} {inp : Mem} : ∀ (attrs : Attributes) {a : Nat} {out put : Mem},
    bswapBuffer o tofrom inp attrs a out = some put → attrs.Narrow
  | .nil, _, _, _, _ => trivial
  | .structured offset size dims attr rest, a, out, put, h => by
    unfold bswapBuffer at h
    obtain ⟨mid, hmid, hrest⟩ := Option.bind_eq_some_iff.mp h
    refine ⟨fun hpos => ?_, narrow_of_some rest hrest⟩
    obtain ⟨s, t, hstep⟩ := step_of_foldlM hmid 0 (List.mem_range.mpr hpos)
    exact narrow_of_some attr hstep
  | .bitfields offset field fields rest, a, out, put, h => by
    unfold bswapBuffer at h
    obtain ⟨mid, hmid, hrest⟩ := Option.bind_eq_some_iff.mp h
    refine ⟨fun f hf => ?_, narrow_of_some rest hrest⟩
    obtain ⟨s, t, hstep⟩ := step_of_foldlM hmid f hf
    obtain ⟨moved, hmoved, -⟩ := Option.map_eq_some_iff.mp hstep
    exact moveBits_lt hmoved
  | .member offset size dims rest, a, out, put, h => by
    unfold bswapBuffer at h
    split at h
    · obtain ⟨mid, -, hrest⟩ := Option.bind_eq_some_iff.mp h
      exact narrow_of_some rest hrest
    · exact narrow_of_some rest h

/-- **A structure can be swapped and swapped back exactly if no bit-field is a whole word**, in either byte order. -/
theorem reversible_iff (o : ByteOrder) (attrs : Attributes) (a : Nat) (hsound : attrs.Sound a) (inp : Mem) :
    attrs.Reversible o inp a ↔ attrs.Narrow := by
  constructor
  · rintro ⟨mid, _, hmid, -⟩
    exact narrow_of_some attrs hmid
  · intro hnarrow
    obtain ⟨mid, hmid, -, hconverted⟩ :=
      bswapBuffer_converts o true inp attrs a (fun _ => 0) hsound hnarrow (fun _ _ => rfl)
    obtain ⟨out, hout, -, hback⟩ :=
      bswapBuffer_converts o false mid attrs a (fun _ => 0) hsound hnarrow (fun _ _ => rfl)
    exact ⟨mid, out, hmid, hconverted, hout, same_of_converted attrs hconverted hback⟩

/-- Three short members, two bit-fields in one word, and two structures of a word and four bytes. -/
def threeKinds : Attributes :=
  .member 0 2 [3] (.bitfields 8 ⟨0, 5⟩ [⟨5, 27⟩]
    (.structured 12 8 [2] (.member 0 4 [] (.member 4 1 [4] .nil)) .nil))

theorem sound_threeKinds : threeKinds.Sound 0 := by
  have hfirst : Fits 4 0 5 := ⟨by omega, by omega, by omega⟩
  have hsecond : Fits 4 5 27 := ⟨by omega, by omega, by omega⟩
  simp [threeKinds, Attributes.Sound, Attributes.Covers, Attributes.firstOffset, InWord, Field.Apart, hfirst, hsecond]
  refine ⟨fun j hj x hlow hhigh => ⟨by omega, fun k hk => ⟨by omega, fun l hl => by omega⟩⟩,
    fun x hlow hhigh k hk => ⟨by omega, fun l hl => by omega⟩, fun j hj => ⟨fun x hlow hhigh l hl => by omega, ?_⟩⟩
  rintro x (h | ⟨l, hl, h⟩)
  · omega
  · omega

/-- `threeKinds` can be swapped and swapped back. -/
theorem reversible_iff_threeKinds : threeKinds.Reversible .little (fun x => BitVec.ofNat 8 x) 0 :=
  (reversible_iff .little threeKinds 0 sound_threeKinds fun x => BitVec.ofNat 8 x).mpr
    ⟨by decide, fun _ => trivial, trivial⟩

end Trick.ByteSwap
