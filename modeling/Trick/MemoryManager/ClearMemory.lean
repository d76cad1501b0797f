/-
  `clear_var`: an allocation is set to zero.

  Data:           the memory, the composite types, and the record of an allocation.
  Program:        `clearRvalue` is the recursion over the dimensions of a member that is not composite, `clearClass`
                  goes over the members of a type, and `clearArrayedClass` over the elements of an array of objects.
  Specification:  `Reaches`: the members that are cleared, and where they are; `Leaf`: an element of one of them.
  Result:         `clearVar_clears`: every element that is handled becomes zero, null or empty, and nothing outside of
                  the allocation and of the static members changes.
-/
import Trick.Lib.RowMajor
import Trick.MemoryManager.ObjectMemory

namespace Trick.Memory

open Trick.Lib (storeBytes loadBytes_storeBytes length_storeBytes walk walk_fixed walk_pointer)
open Trick.Bitfields (insertBitfieldAny insertBitfieldAny_eq Fits fieldPos)

/-! ## Writing -/

namespace ObjectMemory

/-- A number is stored. -/
def store (m : ObjectMemory) (a n v : Nat) : ObjectMemory :=
  { m with byte x := if a ≤ x ∧ x < a + n then (storeBytes m.big n v).getD (x - a) 0 else m.byte x }

/-- The string at an address is made empty. -/
def clearString (m : ObjectMemory) (a : Nat) : ObjectMemory :=
  { m with
    string x := if x = a then (m.string x).map fun _ => [] else m.string x
    apart := by
      have hsome : ∀ x, (if x = a then (m.string x).map fun _ => [] else m.string x).isSome → (m.string x).isSome := by
        intro x hx
        split at hx
        · rw [Option.isSome_map] at hx
          exact hx
        · exact hx
      exact fun x y hx hy => m.apart x y (hsome x hx) (hsome y hy) }

/-- The container at an address is made empty. -/
def clearStl (m : ObjectMemory) (a : Nat) : ObjectMemory :=
  { m with stl x := if x = a then 0 else m.stl x }

end ObjectMemory

/-! ## The program -/

/-- A bit-field is cleared in its storage unit. -/
def clearBitfield (m : ObjectMemory) (a : Attributes) (address : Nat) : ObjectMemory :=
  match insertBitfieldAny m.order (BitVec.ofNat 32 (m.value address a.size)) 0 a.size a.bits.start a.bits.size with
  | some word => m.store address a.size (word.toNat % 256 ^ a.size)
  | none => m

/-- **A singleton is cleared**, the element number `offset` from the address. -/
def clearObject (a : Attributes) (base offset : Nat) (m : ObjectMemory) : ObjectMemory :=
  match a.type with
  | .character | .unsignedCharacter => m.store (base + offset * 1) 1 0
  | .boolean => m.store (base + offset * 1) 1 0
  | .wchar => m.store (base + offset * 4) 4 0
  | .short | .unsignedShort => m.store (base + offset * 2) 2 0
  | .integer | .unsignedInteger => m.store (base + offset * 4) 4 0
  | .enumerated =>
    if a.size = 4 then m.store (base + offset * 4) 4 0
    else if a.size = 2 then m.store (base + offset * 2) 2 0
    else if a.size = 1 then m.store (base + offset * 1) 1 0
    -- "INTERNAL-ERROR - Unexpected size of ENUMERATION type."
    else m
  | .long | .unsignedLong => m.store (base + offset * 8) 8 0
  | .float => m.store (base + offset * 4) 4 0
  | .double => m.store (base + offset * 8) 8 0
  | .longLong | .unsignedLongLong => m.store (base + offset * 8) 8 0
  | .bitfield | .unsignedBitfield =>
    if a.size = 4 ∨ a.size = 2 ∨ a.size = 1 then clearBitfield m a (base + offset * a.size)
    -- "INTERNAL - Unhandled bitfield struct size"
    else m
  | .filePtr => m.store (base + offset * sizeofPointer) sizeofPointer 0
  | .string => m.clearString (base + offset * sizeofString)
  | .stl => if a.clearStl = true then m.clearStl (base + offset * a.size) else m
  -- "Unhandled Type"
  | .void | .wstring | .voidPtr | .structured | .opaqueType => m

/-- **`clear_rvalue`**, with the dimensions that remain. -/
def clearRvalue (a : Attributes) (base : Nat) : List Nat → Nat → ObjectMemory → ObjectMemory
  | [], offset, m => clearObject a base offset m
  | extent :: dims, offset, m =>
    -- the address of a pointer does not depend on the offset
    if extent = 0 then m.store base sizeofPointer 0
    else (List.range extent).foldl (fun m ii => clearRvalue a base dims (offset * extent + ii) m) m

/-- **`clear_arrayed_class`**, with the dimensions that remain; `clear` is `clear_class` for the type of the elements. -/
def clearArrayedClass (clear : Nat → ObjectMemory → ObjectMemory) (a : Attributes) (address : Nat) :
    List Nat → Nat → ObjectMemory → ObjectMemory
  | [], _, m => m
  | extent :: dims, offset, m =>
    if extent = 0 then clearRvalue a address (extent :: dims) offset m
    else
      (List.range extent).foldl (fun m ii =>
        if dims ≠ [] then clearArrayedClass clear a address dims (offset * extent + ii) m
        else clear (address + (offset * extent + ii) * a.size) m) m

/-- What is done at a member, or at an allocation; `clear` is `clear_class`. -/
def clearMember (clear : Nat → Nat → ObjectMemory → ObjectMemory) (a : Attributes) (address : Nat) (m : ObjectMemory) :
    ObjectMemory :=
  if a.type = .structured then
    match a.attr with
    | none => if a.dims = [] then m else clearArrayedClass (fun _ m => m) a address a.dims 0 m
    | some t => if a.dims = [] then clear t address m else clearArrayedClass (clear t) a address a.dims 0 m
  else clearRvalue a address a.dims 0 m

/-- **`clear_class`**; the number bounds the depth of the types. -/
def clearClass (types : Types) : Nat → Nat → Nat → ObjectMemory → ObjectMemory
  | 0, _, _, m => m
  | depth + 1, t, address, m =>
    (types.members t).foldl (fun m a =>
      if inputPermCheck a then clearMember (clearClass types depth) a (elementAddress a address) m else m) m

/-- **`clear_var`**, for an allocation that the memory manager knows. -/
def clearVar (types : Types) (info : AllocInfo) (m : ObjectMemory) : ObjectMemory :=
  clearMember (clearClass types (info.attr.elim 0 fun t => types.depth t + 1)) (makeReferenceAttr info) info.start m

/-! ## What is wanted -/

/-- **An element** of a member that is at an address. -/
structure Leaf where
  attr : Attributes
  base : Nat
  k : Nat

namespace Leaf

/-- It is zero, null or empty. -/
def Nil (m : ObjectMemory) (l : Leaf) : Prop := NilElement m l.attr l.attr.OfPointers l.base l.k

/-- An element of a string member is a string. -/
def There (m : ObjectMemory) (l : Leaf) : Prop :=
  l.attr.type = .string → ¬ l.attr.OfPointers → (m.string (l.base + l.k * sizeofString)).isSome

/-- **The elements that are handled**: of an array of pointers the first one, and objects of the types for which there
    is a branch. -/
def Handled (l : Leaf) : Prop :=
  (l.attr.OfPointers → l.k = 0) ∧ (¬ l.attr.OfPointers →
    match l.attr.type with
    | .enumerated => l.attr.size = 4 ∨ l.attr.size = 2 ∨ l.attr.size = 1
    | .wstring | .void | .voidPtr | .structured | .opaqueType => False
    | .stl => l.attr.clearStl = true
    | _ => True)

end Leaf

/-- **The members that are reached** from one at an address, and where they are: all that can be checkpointed of the
    objects in it. -/
inductive Reaches (types : Types) (a₀ : Attributes) (base₀ : Nat) : Attributes → Nat → Prop
  | here : Reaches types a₀ base₀ a₀ base₀
  | inside {a base k t b} : Reaches types a₀ base₀ a base → a.type = .structured → ¬ a.OfPointers → k < a.count →
      a.attr = some t → b ∈ types.members t → inputPermCheck b →
      Reaches types a₀ base₀ b (elementAddress b (base + k * a.size))

/-- The elements of the members that are reached. -/
def IsLeaf (types : Types) (a₀ : Attributes) (base₀ : Nat) (l : Leaf) : Prop :=
  Reaches types a₀ base₀ l.attr l.base ∧ (l.attr.type = .structured → l.attr.OfPointers) ∧ l.k < l.attr.count

/-- The bytes of a member. -/
def Attributes.storage (a : Attributes) : Nat := a.count * (if a.OfPointers then sizeofPointer else a.stride)

/-- An address in a member. -/
def InMember (a : Attributes) (base x : Nat) : Prop := base ≤ x ∧ x < base + a.storage

instance (a : Attributes) (base x : Nat) : Decidable (InMember a base x) := inferInstanceAs (Decidable (_ ∧ _))

/-- **The same** at an address. -/
def SameAt (m m' : ObjectMemory) (x : Nat) : Prop :=
  m'.byte x = m.byte x ∧ m'.string x = m.string x ∧ m'.wstring x = m.wstring x ∧ m'.stl x = m.stl x

/-- **What is cleared**, without any exception. -/
def ClearsAll (types : Types) (info : AllocInfo) (m : ObjectMemory) : Prop :=
  (∀ l, IsLeaf types (makeReferenceAttr info) info.start l → l.There m → l.Nil (clearVar types info m)) ∧
    ∀ x, ¬ InMember (makeReferenceAttr info) info.start x → SameAt m (clearVar types info m) x

/-- **What is cleared by design**: the elements that are handled, and nothing but the allocation and the static
    members of its types. -/
def Clears (types : Types) (info : AllocInfo) (m : ObjectMemory) : Prop :=
  (∀ l, IsLeaf types (makeReferenceAttr info) info.start l → l.Handled → l.There m → l.Nil (clearVar types info m)) ∧
    ∀ x, ¬ InMember (makeReferenceAttr info) info.start x →
      (∀ a base, Reaches types (makeReferenceAttr info) info.start a base → a.isStatic → ¬ InMember a base x) →
      SameAt m (clearVar types info m) x

/-- **The records are those of types**: an object has room for its members, which are no references, and a bit-field
    lies in its storage unit; and clearing an object comes to an end. -/
structure Laid (types : Types) (sizeOf : Nat → Nat) (a : Attributes) (depth : Nat) : Prop where
  stride : 0 < a.stride
  nested : a.type = .structured → ¬ a.OfPointers → ∃ t, a.attr = some t ∧ types.depth t < depth ∧ a.size = sizeOf t
  bitfield : a.type = .bitfield ∨ a.type = .unsignedBitfield → Fits a.size a.bits.start a.bits.size

/-- All types are described so. -/
structure LaidOut (types : Types) (sizeOf : Nat → Nat) : Prop where
  member : ∀ t, ∀ a ∈ types.members t, inputPermCheck a → Laid types sizeOf a (types.depth t)
  reference : ∀ t, ∀ a ∈ types.members t, inputPermCheck a → ¬ a.isReference
  room : ∀ t, ∀ a ∈ types.members t, inputPermCheck a → ¬ a.isStatic → a.offset + a.storage ≤ sizeOf t

/-! ## A write of zeros -/

section Bits

/-- The bits of a number are among those of another. -/
def SubBits (v v' : Nat) : Prop := ∀ j, v.testBit j = true → v'.testBit j = true

theorem eq_zero_of_subBits {v v' : Nat} (h : SubBits v v') (hzero : v' = 0) : v = 0 := by
  refine Nat.zero_of_testBit_eq_false fun j => ?_
  by_contra hbit
  have hset := h j (Bool.not_eq_false _ ▸ hbit)
  rw [hzero, Nat.zero_testBit] at hset
  exact Bool.noConfusion hset

theorem SubBits.mod {v v' : Nat} (h : SubBits v v') (k : Nat) : SubBits (v % 2 ^ k) (v' % 2 ^ k) := by
  intro j hj
  rw [Nat.testBit_mod_two_pow, Bool.and_eq_true] at hj ⊢
  exact ⟨hj.1, h j hj.2⟩

theorem SubBits.div {v v' : Nat} (h : SubBits v v') (k : Nat) : SubBits (v / 2 ^ k) (v' / 2 ^ k) := by
  intro j hj
  rw [Nat.testBit_div_two_pow] at hj ⊢
  exact h _ hj

end Bits

/-- **Bits are only cleared**, strings and containers only made empty. -/
structure Shrinks (m m' : ObjectMemory) : Prop where
  big : m'.big = m.big
  bit : ∀ x, SubBits (m'.byte x).toNat (m.byte x).toNat
  string : ∀ x, (m'.string x).isSome = (m.string x).isSome
  empty : ∀ x, m.string x = some [] → m'.string x = some []
  wstring : m'.wstring = m.wstring
  stl : ∀ x, m.stl x = 0 → m'.stl x = 0

namespace Shrinks

variable {m m' m'' : ObjectMemory}

theorem refl (m : ObjectMemory) : Shrinks m m := ⟨rfl, fun _ _ h => h, fun _ => rfl, fun _ h => h, rfl, fun _ h => h⟩

theorem trans (h : Shrinks m m') (h' : Shrinks m' m'') : Shrinks m m'' :=
  ⟨h'.big.trans h.big, fun x j hj => h.bit x j (h'.bit x j hj), fun x => (h'.string x).trans (h.string x),
    fun x hx => h'.empty x (h.empty x hx), h'.wstring.trans h.wstring, fun x hx => h'.stl x (h.stl x hx)⟩

theorem order (h : Shrinks m m') : m'.order = m.order := by
  unfold ObjectMemory.order
  rw [h.big]

theorem value (h : Shrinks m m') (a n : Nat) : SubBits (m'.value a n) (m.value a n) := by
  intro j hj
  rw [ObjectMemory.testBit_value, Bool.and_eq_true] at hj ⊢
  rw [h.order] at hj
  exact ⟨hj.1, h.bit _ _ hj.2⟩

/-- **What is nil stays nil.** -/
theorem nilObject (h : Shrinks m m') {a : Attributes} {x : Nat} (hnil : NilObject m a x) : NilObject m' a x := by
  unfold NilObject at hnil ⊢
  cases htype : a.type <;> rw [htype] at hnil <;> dsimp only at hnil ⊢
  case float => exact eq_zero_of_subBits ((h.value x 4).mod _) hnil
  case double => exact eq_zero_of_subBits ((h.value x 8).mod _) hnil
  case bitfield =>
    unfold fieldValue at hnil ⊢
    rw [h.order]
    exact eq_zero_of_subBits (((h.value x a.size).div _).mod _) hnil
  case unsignedBitfield =>
    unfold fieldValue at hnil ⊢
    rw [h.order]
    exact eq_zero_of_subBits (((h.value x a.size).div _).mod _) hnil
  case string => exact h.empty x hnil
  case wstring =>
    rw [h.wstring]
    exact hnil
  case stl => exact h.stl x hnil
  all_goals exact eq_zero_of_subBits (h.value x _) hnil

theorem leafNil (h : Shrinks m m') {l : Leaf} (hnil : l.Nil m) : l.Nil m' := by
  unfold Leaf.Nil NilElement at hnil ⊢
  by_cases hpointer : l.attr.OfPointers
  · rw [if_pos hpointer] at hnil ⊢
    exact eq_zero_of_subBits (h.value _ _) hnil
  · rw [if_neg hpointer] at hnil ⊢
    exact h.nilObject hnil

theorem there (h : Shrinks m m') {l : Leaf} (hthere : l.There m) : l.There m' := by
  intro htype hpointer
  rw [h.string]
  exact hthere htype hpointer

end Shrinks

/-! ## One write -/

section Store

variable {m : ObjectMemory} {a n v : Nat}

theorem store_byte {i : Nat} (hi : i < n) :
    (m.store a n v).byte (a + i) = (storeBytes m.big n v).getD i 0 := by
  show (if a ≤ a + i ∧ a + i < a + n then _ else _) = _
  rw [if_pos ⟨Nat.le_add_right a i, Nat.add_lt_add_left hi a⟩, Nat.add_sub_cancel_left]

/-- **What is stored is read.** -/
theorem value_store (hv : v < 256 ^ n) : (m.store a n v).value a n = v := by
  have hbytes : (m.store a n v).bytes a n = storeBytes m.big n v := by
    unfold ObjectMemory.bytes
    refine List.ext_getElem ?_ ?_
    · rw [List.length_map, List.length_range, length_storeBytes]
    · intro i hi hi'
      rw [length_storeBytes] at hi'
      rw [List.getElem_map, List.getElem_range, store_byte hi',
        List.getD_eq_getElem _ _ (by rw [length_storeBytes]; exact hi')]
  unfold ObjectMemory.value
  rw [hbytes]
  exact loadBytes_storeBytes m.big hv

theorem sameAt_store {x : Nat} (h : ¬ (a ≤ x ∧ x < a + n)) : SameAt m (m.store a n v) x :=
  ⟨if_neg h, rfl, rfl, rfl⟩

/-- **A number that has no other bits** is stored. -/
theorem shrinks_store (hv : v < 256 ^ n) (hbits : SubBits v (m.value a n)) : Shrinks m (m.store a n v) := by
  refine ⟨rfl, ?_, fun _ => rfl, fun _ h => h, rfl, fun _ h => h⟩
  intro x b hb
  by_cases hx : a ≤ x ∧ x < a + n
  · obtain ⟨i, rfl⟩ := Nat.exists_eq_add_of_le hx.1
    have hi : i < n := by omega
    have hb8 : b < 8 := by
      by_contra hge
      rw [Nat.testBit_lt_two_pow (lt_of_lt_of_le (UInt8.toNat_lt _) (Nat.pow_le_pow_right (by decide) (by omega)))] at hb
      exact Bool.noConfusion hb
    have hplace := m.order.place_lt hi
    -- the bit of the byte is one of the number
    have hbit : ∀ m' : ObjectMemory, m'.order = m.order →
        (m'.value a n).testBit (8 * m.order.place n i + b) = (m'.byte (a + i)).toNat.testBit b := by
      intro m' horder
      rw [ObjectMemory.testBit_value, horder, decide_eq_true (by omega), Bool.true_and,
        Nat.mul_add_div (by decide), Nat.div_eq_of_lt hb8, Nat.add_zero, m.order.place_place hi, Nat.mul_add_mod,
        Nat.mod_eq_of_lt hb8]
    rw [← hbit (m.store a n v) rfl, value_store hv] at hb
    rw [← hbit m rfl]
    exact hbits _ hb
  · rw [(sameAt_store hx).1] at hb
    exact hb

theorem subBits_zero (v : Nat) : SubBits 0 v := by
  intro j hj
  rw [Nat.zero_testBit] at hj
  exact Bool.noConfusion hj

/-- **A bit-field is cleared**: its bits become zero, and the others of its storage unit stay. -/
theorem clearBitfield_spec {r : Attributes} (hfits : Fits r.size r.bits.start r.bits.size) :
    ∃ w, clearBitfield m r a = m.store a r.size w ∧ w < 256 ^ r.size ∧ SubBits w (m.value a r.size) ∧
      w / 2 ^ fieldPos m.order r.size r.bits.start r.bits.size % 2 ^ r.bits.size = 0 := by
  obtain ⟨word, hword, hbits⟩ :=
    insertBitfieldAny_eq m.order hfits (BitVec.ofNat 32 (m.value a r.size)) 0
  have hpow : (256 : Nat) ^ r.size = 2 ^ (8 * r.size) := (Nat.pow_mul 2 8 r.size).symm
  have hsize := hfits.size_le
  -- the bits of the new word: none in the field, and the old ones elsewhere
  have hbit : ∀ j, (word.toNat % 256 ^ r.size).testBit j = true →
      ¬ (fieldPos m.order r.size r.bits.start r.bits.size ≤ j ∧
        j < fieldPos m.order r.size r.bits.start r.bits.size + r.bits.size) ∧ (m.value a r.size).testBit j = true := by
    intro j hj
    rw [hpow, Nat.testBit_mod_two_pow, Bool.and_eq_true, decide_eq_true_eq, BitVec.testBit_toNat] at hj
    have hlt : j < 32 := by omega
    rw [hbits j hlt] at hj
    split at hj
    · exact absurd (hj.2.symm.trans BitVec.getLsbD_zero) Bool.noConfusion
    · rename_i hout
      rw [BitVec.getLsbD_ofNat, Bool.and_eq_true] at hj
      exact ⟨hout, hj.2.2⟩
  refine ⟨word.toNat % 256 ^ r.size, ?_, Nat.mod_lt _ (Nat.pow_pos (by decide)), fun j hj => (hbit j hj).2, ?_⟩
  · unfold clearBitfield
    rw [hword]
  · refine Nat.zero_of_testBit_eq_false fun j => ?_
    by_contra hset
    have hset' := Bool.not_eq_false _ ▸ hset
    rw [Nat.testBit_mod_two_pow, Bool.and_eq_true, decide_eq_true_eq, Nat.testBit_div_two_pow] at hset'
    exact (hbit _ hset'.2).1 ⟨Nat.le_add_left _ _, by omega⟩

end Store

/-! ## Effects -/

/-- **What a part of the program does**: it clears some elements, in some part of the memory. -/
structure Effect (T : Nat → Prop) (L : Leaf → Prop) (f : ObjectMemory → ObjectMemory) : Prop where
  shrinks : ∀ m, Shrinks m (f m)
  frame : ∀ m x, ¬ T x → SameAt m (f m) x
  nil : ∀ m l, L l → l.Handled → l.There m → l.Nil (f m)

namespace Effect

variable {T T' : Nat → Prop} {L L' : Leaf → Prop} {f : ObjectMemory → ObjectMemory}

theorem mono (h : Effect T L f) (hT : ∀ x, T x → T' x) (hL : ∀ l, L' l → L l) : Effect T' L' f :=
  ⟨h.shrinks, fun m x hx => h.frame m x (mt (hT x) hx), fun m l hl => h.nil m l (hL l hl)⟩

/-- Nothing is done. -/
theorem none : Effect (fun _ => False) (fun _ => False) id :=
  ⟨Shrinks.refl, fun _ _ _ => ⟨rfl, rfl, rfl, rfl⟩, fun _ _ h => absurd h id⟩

/-- **A loop** does what its rounds do. -/
theorem foldl {ι : Type*} {l : List ι} {T : ι → Nat → Prop} {L : ι → Leaf → Prop}
    {f : ι → ObjectMemory → ObjectMemory} (h : ∀ i ∈ l, Effect (T i) (L i) (f i)) :
    Effect (fun x => ∃ i ∈ l, T i x) (fun leaf => ∃ i ∈ l, L i leaf) (fun m => l.foldl (fun m i => f i m) m) := by
  induction l with
  | nil =>
    refine Effect.none.mono (fun _ hx => absurd hx id) ?_
    rintro leaf ⟨i, hi, -⟩
    exact absurd hi List.not_mem_nil
  | cons i l ih =>
    obtain ⟨hi, hl⟩ := List.forall_mem_cons.mp h
    have hrest := ih hl
    refine ⟨fun m => (hi.shrinks m).trans (hrest.shrinks _), ?_, ?_⟩
    · intro m x hx
      have hfirst := hi.frame m x fun hT => hx ⟨i, List.mem_cons_self, hT⟩
      have hlater := hrest.frame (f i m) x fun ⟨j, hj, hT⟩ => hx ⟨j, List.mem_cons_of_mem _ hj, hT⟩
      exact ⟨hlater.1.trans hfirst.1, hlater.2.1.trans hfirst.2.1, hlater.2.2.1.trans hfirst.2.2.1,
        hlater.2.2.2.trans hfirst.2.2.2⟩
    · rintro m leaf ⟨j, hj, hL⟩ hhandled hthere
      rcases List.mem_cons.mp hj with rfl | hj
      · exact (hrest.shrinks _).leafNil (hi.nil m leaf hL hhandled hthere)
      · exact hrest.nil (f i m) leaf ⟨j, hj, hL⟩ hhandled ((hi.shrinks m).there hthere)

end Effect

section Parts

variable {a : Attributes} {base k : Nat} {types : Types} {sizeOf : Nat → Nat}

/-- Zero is stored in `n` bytes. -/
theorem effect_store (x n : Nat) {L : Leaf → Prop}
    (hnil : ∀ m l, L l → l.Handled → (ObjectMemory.store m x n 0).value x n = 0 → l.Nil (m.store x n 0)) :
    Effect (fun y => x ≤ y ∧ y < x + n) L (fun m => m.store x n 0) := by
  have hzero : 0 < 256 ^ n := Nat.pow_pos (by decide)
  exact ⟨fun m => shrinks_store hzero (subBits_zero _), fun m y hy => sameAt_store hy,
    fun m l hl hhandled _ => hnil m l hl hhandled (value_store hzero)⟩

/-- An object of the member. -/
def InObject (a : Attributes) (base k x : Nat) : Prop := base + k * a.stride ≤ x ∧ x < base + k * a.stride + a.stride

theorem leafNil_object (hpointer : ¬ a.OfPointers) {m : ObjectMemory}
    (hnil : NilObject m a (base + k * a.stride)) : (Leaf.mk a base k).Nil m := by
  unfold Leaf.Nil NilElement
  rw [if_neg hpointer]
  exact hnil

/-- A number or a pointer. -/
theorem effect_number (hpointer : ¬ a.OfPointers)
    (hclear : clearObject a base k = fun m => m.store (base + k * a.stride) a.stride 0)
    (hnil : ∀ (m : ObjectMemory) x, m.value x a.stride = 0 → NilObject m a x) :
    Effect (InObject a base k) (fun l => l = ⟨a, base, k⟩) (clearObject a base k) := by
  rw [hclear]
  refine effect_store _ _ ?_
  rintro m l rfl - hvalue
  exact leafNil_object hpointer (hnil _ _ hvalue)

/-- Nothing is done for what is not handled. -/
theorem effect_unhandled (hclear : clearObject a base k = id) (hnot : ¬ (Leaf.mk a base k).Handled) :
    Effect (InObject a base k) (fun l => l = ⟨a, base, k⟩) (clearObject a base k) := by
  rw [hclear]
  refine ⟨Shrinks.refl, fun _ _ _ => ⟨rfl, rfl, rfl, rfl⟩, ?_⟩
  rintro m l rfl hhandled
  exact absurd hhandled hnot

/-- A bit-field. -/
theorem effect_bitfield (hpointer : ¬ a.OfPointers) (htype : a.type = .bitfield ∨ a.type = .unsignedBitfield)
    (hfits : Fits a.size a.bits.start a.bits.size) :
    Effect (InObject a base k) (fun l => l = ⟨a, base, k⟩) (clearObject a base k) := by
  have hstride : a.stride = a.size := by
    unfold Attributes.stride
    rcases htype with htype | htype <;> rw [htype]
  have hclear : ∀ m, clearObject a base k m = clearBitfield m a (base + k * a.size) := by
    intro m
    have hsize : a.size = 4 ∨ a.size = 2 ∨ a.size = 1 := by
      have := hfits.size
      omega
    unfold clearObject
    rcases htype with htype | htype <;> rw [htype] <;> exact if_pos hsize
  have hobject : ∀ (m : ObjectMemory) x, NilObject m a x ↔ fieldValue m a x = 0 := by
    intro m x
    unfold NilObject
    rcases htype with htype | htype <;> rw [htype]
  refine ⟨?_, ?_, ?_⟩
  · intro m
    obtain ⟨w, hw, hlt, hbits, -⟩ := @clearBitfield_spec m (base + k * a.size) a hfits
    rw [hclear, hw]
    exact shrinks_store hlt hbits
  · intro m x hx
    obtain ⟨w, hw, -⟩ := @clearBitfield_spec m (base + k * a.size) a hfits
    rw [hclear, hw]
    unfold InObject at hx
    rw [hstride] at hx
    exact sameAt_store hx
  · rintro m l rfl - -
    obtain ⟨w, hw, hlt, -, hzero⟩ := @clearBitfield_spec m (base + k * a.size) a hfits
    refine leafNil_object hpointer ?_
    rw [hobject, hstride, hclear, hw]
    unfold fieldValue
    rw [value_store hlt]
    exact hzero

/-- A string. -/
theorem effect_string (hpointer : ¬ a.OfPointers) (htype : a.type = .string) :
    Effect (InObject a base k) (fun l => l = ⟨a, base, k⟩) (clearObject a base k) := by
  have hstride : a.stride = sizeofString := by
    unfold Attributes.stride
    rw [htype]
  have hclear : clearObject a base k = fun m => m.clearString (base + k * sizeofString) := by
    funext m
    unfold clearObject
    rw [htype]
  have hother : ∀ (m : ObjectMemory) y x, x ≠ y → (m.clearString y).string x = m.string x := fun _ _ _ h => if_neg h
  have hself : ∀ (m : ObjectMemory) y, (m.clearString y).string y = (m.string y).map fun _ => [] := fun _ _ => if_pos rfl
  rw [hclear]
  refine ⟨?_, ?_, ?_⟩
  · intro m
    refine ⟨rfl, fun _ _ h => h, ?_, ?_, rfl, fun _ h => h⟩
    · intro x
      by_cases hx : x = base + k * sizeofString
      · rw [hx, hself, Option.isSome_map]
      · rw [hother m _ x hx]
    · intro x hempty
      by_cases hx : x = base + k * sizeofString
      · rw [hx] at hempty ⊢
        rw [hself, hempty]
        rfl
      · rw [hother m _ x hx]
        exact hempty
  · intro m x hx
    refine ⟨rfl, hother m _ x ?_, rfl, rfl⟩
    rintro rfl
    unfold InObject at hx
    rw [hstride] at hx
    exact hx ⟨Nat.le_refl _, Nat.lt_add_of_pos_right (by decide)⟩
  · rintro m l rfl - hthere
    obtain ⟨s, hs⟩ := Option.isSome_iff_exists.mp (hthere htype hpointer)
    refine leafNil_object hpointer ?_
    unfold NilObject
    rw [htype, hstride]
    dsimp only at hs ⊢
    rw [hself, hs]
    rfl

/-- A container. -/
theorem effect_stl (hpointer : ¬ a.OfPointers) (htype : a.type = .stl) (hpos : 0 < a.stride) :
    Effect (InObject a base k) (fun l => l = ⟨a, base, k⟩) (clearObject a base k) := by
  have hstride : a.stride = a.size := by
    unfold Attributes.stride
    rw [htype]
  by_cases hstl : a.clearStl = true
  · have hclear : clearObject a base k = fun m => m.clearStl (base + k * a.stride) := by
      funext m
      unfold clearObject
      rw [htype, hstride]
      exact if_pos hstl
    have hother : ∀ (m : ObjectMemory) y x, x ≠ y → (m.clearStl y).stl x = m.stl x := fun _ _ _ h => if_neg h
    have hself : ∀ (m : ObjectMemory) y, (m.clearStl y).stl y = 0 := fun _ _ => if_pos rfl
    rw [hclear]
    refine ⟨?_, ?_, ?_⟩
    · intro m
      refine ⟨rfl, fun _ _ h => h, fun _ => rfl, fun _ h => h, rfl, ?_⟩
      intro x hzero
      by_cases hx : x = base + k * a.stride
      · rw [hx, hself]
      · rw [hother m _ x hx]
        exact hzero
    · intro m x hx
      refine ⟨rfl, rfl, rfl, hother m _ x ?_⟩
      rintro rfl
      exact hx ⟨Nat.le_refl _, Nat.lt_add_of_pos_right hpos⟩
    · rintro m l rfl - -
      refine leafNil_object hpointer ?_
      unfold NilObject
      rw [htype]
      exact hself m _
  · refine effect_unhandled ?_ ?_
    · funext m
      unfold clearObject
      rw [htype]
      exact if_neg hstl
    · intro hhandled
      have hbranch := hhandled.2 hpointer
      rw [htype] at hbranch
      exact hstl hbranch

/-- **An object is cleared.** -/
theorem effect_clearObject (hpointer : ¬ a.OfPointers) (hpos : 0 < a.stride)
    (hfits : a.type = .bitfield ∨ a.type = .unsignedBitfield → Fits a.size a.bits.start a.bits.size) :
    Effect (InObject a base k) (fun l => l = ⟨a, base, k⟩) (clearObject a base k) := by
  -- a type without a branch
  have hunhandled : (a.type = .wstring ∨ a.type = .void ∨ a.type = .voidPtr ∨ a.type = .structured ∨
      a.type = .opaqueType) → Effect (InObject a base k) (fun l => l = ⟨a, base, k⟩) (clearObject a base k) := by
    intro hno
    refine effect_unhandled ?_ ?_
    · funext m
      unfold clearObject
      rcases hno with h | h | h | h | h <;> rw [h] <;> rfl
    · intro hhandled
      have hbranch := hhandled.2 hpointer
      rcases hno with h | h | h | h | h <;> rw [h] at hbranch <;> exact hbranch
  cases htype : a.type
  case bitfield => exact effect_bitfield hpointer (.inl htype) (hfits (.inl htype))
  case unsignedBitfield => exact effect_bitfield hpointer (.inr htype) (hfits (.inr htype))
  case string => exact effect_string hpointer htype
  case stl => exact effect_stl hpointer htype hpos
  case wstring => exact hunhandled (.inl htype)
  case void => exact hunhandled (.inr (.inl htype))
  case voidPtr => exact hunhandled (.inr (.inr (.inl htype)))
  case structured => exact hunhandled (.inr (.inr (.inr (.inl htype))))
  case opaqueType => exact hunhandled (.inr (.inr (.inr (.inr htype))))
  case enumerated =>
    have hstride : a.stride = a.size := by
      unfold Attributes.stride
      rw [htype]
    by_cases hsize : a.size = 4 ∨ a.size = 2 ∨ a.size = 1
    · refine effect_number hpointer ?_ ?_
      · funext m
        unfold clearObject
        rw [htype, hstride]
        rcases hsize with h | h | h <;> rw [h] <;> rfl
      · intro m x hzero
        unfold NilObject
        rw [htype]
        exact hzero
    · refine effect_unhandled ?_ ?_
      · obtain ⟨h4, h2, h1⟩ : a.size ≠ 4 ∧ a.size ≠ 2 ∧ a.size ≠ 1 := by omega
        funext m
        unfold clearObject
        rw [htype]
        dsimp only
        rw [if_neg h4, if_neg h2, if_neg h1]
        rfl
      · intro hhandled
        have hbranch := hhandled.2 hpointer
        rw [htype] at hbranch
        exact hsize hbranch
  case float =>
    have hstride : a.stride = 4 := by
      unfold Attributes.stride
      rw [htype]
    refine effect_number hpointer ?_ ?_
    · funext m
      unfold clearObject
      rw [htype, hstride]
    · intro m x hzero
      rw [hstride] at hzero
      unfold NilObject ObjectMemory.FloatZero
      rw [htype]
      dsimp only
      rw [hzero, Nat.zero_mod]
  case double =>
    have hstride : a.stride = 8 := by
      unfold Attributes.stride
      rw [htype]
    refine effect_number hpointer ?_ ?_
    · funext m
      unfold clearObject
      rw [htype, hstride]
    · intro m x hzero
      rw [hstride] at hzero
      unfold NilObject ObjectMemory.FloatZero
      rw [htype]
      dsimp only
      rw [hzero, Nat.zero_mod]
  all_goals
    refine effect_number hpointer ?_ ?_
    · funext m
      unfold clearObject Attributes.stride
      rw [htype]
    · intro m x hzero
      unfold NilObject
      rw [htype]
      exact hzero

/-! ## The walks -/

theorem clearRvalue_eq_walk (dims : List Nat) (offset : Nat) (m : ObjectMemory) :
    clearRvalue a base dims offset m = walk (clearObject a base) (fun m => m.store base sizeofPointer 0) dims offset m := by
  induction dims generalizing offset m with
  | nil => rfl
  | cons extent dims ih =>
    rw [clearRvalue, walk]
    simp only [ih]

theorem clearArrayedClass_eq_walk {clear : Nat → ObjectMemory → ObjectMemory} {dims : List Nat} (h : dims ≠ [])
    (offset : Nat) (m : ObjectMemory) : clearArrayedClass clear a base dims offset m =
      walk (fun k => clear (base + k * a.size)) (fun m => m.store base sizeofPointer 0) dims offset m := by
  induction dims generalizing offset m with
  | nil => exact absurd rfl h
  | cons extent dims ih =>
    rw [clearArrayedClass, walk]
    by_cases hextent : extent = 0
    · rw [if_pos hextent, if_pos hextent, clearRvalue, if_pos hextent]
    · rw [if_neg hextent, if_neg hextent]
      by_cases hdims : dims = []
      · rw [hdims]
        rfl
      · simp only [if_pos hdims, ih hdims]

/-- **A pointer, or an array of pointers**: the first one is cleared, again and again. -/
theorem clearMember_pointer {clear : Nat → Nat → ObjectMemory → ObjectMemory} (h : a.OfPointers) (m : ObjectMemory) :
    clearMember clear a base m = (List.range a.count).foldl (fun m _ => m.store base sizeofPointer 0) m := by
  have hdims : a.dims ≠ [] := by
    obtain ⟨d, hd, -⟩ := h
    exact List.ne_nil_of_mem hd
  unfold clearMember
  by_cases htype : a.type = .structured
  · rw [if_pos htype]
    cases a.attr with
    | none =>
      dsimp only
      rw [if_neg hdims, clearArrayedClass_eq_walk hdims, walk_pointer _ _ h]
      rfl
    | some t =>
      dsimp only
      rw [if_neg hdims, clearArrayedClass_eq_walk hdims, walk_pointer _ _ h]
      rfl
  · rw [if_neg htype, clearRvalue_eq_walk, walk_pointer _ _ h]
    rfl

theorem count_eq (h : ¬ a.OfPointers) : (∀ d ∈ a.dims, d ≠ 0) ∧ a.count = a.dims.prod := by
  have hdims : ∀ d ∈ a.dims, d ≠ 0 := fun d hd hzero => h ⟨d, hd, hzero⟩
  refine ⟨hdims, ?_⟩
  unfold Attributes.count
  rw [List.takeWhile_eq_self_iff.mpr fun d hd => decide_eq_true (hdims d hd)]

/-- Objects that are not composite: each of them is cleared. -/
theorem clearMember_objects {clear : Nat → Nat → ObjectMemory → ObjectMemory} (h : ¬ a.OfPointers)
    (htype : a.type ≠ .structured) (m : ObjectMemory) :
    clearMember clear a base m = (List.range a.count).foldl (fun m k => clearObject a base k m) m := by
  obtain ⟨hdims, hcount⟩ := count_eq h
  unfold clearMember
  rw [if_neg htype, clearRvalue_eq_walk, walk_fixed _ _ hdims, Nat.zero_mul, hcount, List.range_eq_range']

/-- Composite objects: the members of each of them are cleared. -/
theorem clearMember_composite {clear : Nat → Nat → ObjectMemory → ObjectMemory} (h : ¬ a.OfPointers)
    (htype : a.type = .structured) {t : Nat} (hattr : a.attr = some t) (m : ObjectMemory) :
    clearMember clear a base m = (List.range a.count).foldl (fun m k => clear t (base + k * a.size) m) m := by
  obtain ⟨hdims, hcount⟩ := count_eq h
  unfold clearMember
  rw [if_pos htype, hattr]
  dsimp only
  by_cases hnil : a.dims = []
  · rw [if_pos hnil, hcount, hnil]
    show clear t base m = clear t (base + 0 * a.size) m
    rw [Nat.zero_mul]
    rfl
  · rw [if_neg hnil, clearArrayedClass_eq_walk hnil, walk_fixed _ _ hdims, Nat.zero_mul, hcount, List.range_eq_range']

theorem count_pos (a : Attributes) : 0 < a.count := by
  refine Nat.pos_of_ne_zero (List.prod_ne_zero fun h => ?_)
  have hzero := List.mem_takeWhile_imp h
  exact absurd hzero (by decide)

/-! ## The members that are reached -/

/-- From the front: the member itself, or one of a member of its objects. -/
theorem reaches_iff {b : Attributes} {x : Nat} : Reaches types a base b x ↔
    (b = a ∧ x = base) ∨ ∃ k t c, a.type = .structured ∧ ¬ a.OfPointers ∧ k < a.count ∧ a.attr = some t ∧
      c ∈ types.members t ∧ inputPermCheck c ∧ Reaches types c (elementAddress c (base + k * a.size)) b x := by
  constructor
  · intro h
    induction h with
    | here => exact .inl ⟨rfl, rfl⟩
    | @inside b x k t c _ htype hpointer hk hattr hmem hperm ih =>
      rcases ih with ⟨rfl, rfl⟩ | ⟨k', t', c', htype', hpointer', hk', hattr', hmem', hperm', hreaches⟩
      · exact .inr ⟨k, t, c, htype, hpointer, hk, hattr, hmem, hperm, .here⟩
      · exact .inr ⟨k', t', c', htype', hpointer', hk', hattr', hmem', hperm',
          .inside hreaches htype hpointer hk hattr hmem hperm⟩
  · rintro (⟨rfl, rfl⟩ | ⟨k, t, c, htype, hpointer, hk, hattr, hmem, hperm, hreaches⟩)
    · exact .here
    · induction hreaches with
      | here => exact .inside .here htype hpointer hk hattr hmem hperm
      | inside _ htype' hpointer' hk' hattr' hmem' hperm' ih =>
        exact .inside ih htype' hpointer' hk' hattr' hmem' hperm'

/-- The addresses in the members that are reached. -/
def InReached (types : Types) (a : Attributes) (base x : Nat) : Prop :=
  ∃ b y, Reaches types a base b y ∧ InMember b y x

/-- The bytes of the objects are those of the member. -/
theorem inMember_of_inObject (hpointer : ¬ a.OfPointers) (hk : k < a.count) {x : Nat} (hx : InObject a base k x) :
    InMember a base x := by
  unfold InObject at hx
  unfold InMember Attributes.storage
  rw [if_neg hpointer]
  have hle : (k + 1) * a.stride ≤ a.count * a.stride := Nat.mul_le_mul_right _ hk
  rw [Nat.succ_mul] at hle
  omega

/-- **A member is cleared**, if that is so of the types of less depth. -/
theorem effect_clearMember {depth : Nat} (hlaid : Laid types sizeOf a depth)
    (hclass : ∀ t y, types.depth t < depth → Effect
      (fun x => ∃ b ∈ types.members t, inputPermCheck b ∧ InReached types b (elementAddress b y) x)
      (fun l => ∃ b ∈ types.members t, inputPermCheck b ∧ IsLeaf types b (elementAddress b y) l)
      (clearClass types depth t y)) :
    Effect (InReached types a base) (IsLeaf types a base) (clearMember (clearClass types depth) a base) := by
  by_cases hpointer : a.OfPointers
  · -- the elements are pointers
    have hround : ∀ i ∈ List.range a.count, Effect (fun y => base ≤ y ∧ y < base + sizeofPointer)
        (fun l => l.attr = a ∧ l.base = base) (fun m => m.store base sizeofPointer 0) := by
      intro _ _
      refine effect_store _ _ ?_
      rintro m ⟨_, _, k⟩ ⟨rfl, rfl⟩ hhandled hvalue
      obtain rfl : k = 0 := hhandled.1 hpointer
      unfold Leaf.Nil NilElement
      rw [if_pos hpointer, Nat.zero_mul]
      exact hvalue
    have heq : clearMember (clearClass types depth) a base =
        fun m => (List.range a.count).foldl (fun m _ => m.store base sizeofPointer 0) m :=
      funext fun m => clearMember_pointer hpointer m
    rw [heq]
    refine (Effect.foldl hround).mono ?_ ?_
    · rintro x ⟨-, -, hle, hlt⟩
      refine ⟨a, base, .here, hle, lt_of_lt_of_le hlt ?_⟩
      unfold Attributes.storage
      rw [if_pos hpointer]
      exact Nat.add_le_add_left (Nat.le_mul_of_pos_left _ (count_pos a)) _
    · rintro l ⟨hreaches, -, -⟩
      rcases reaches_iff.mp hreaches with ⟨hattr, hbase⟩ | ⟨_, _, _, -, hno, -⟩
      · exact ⟨0, List.mem_range.mpr (count_pos a), hattr, hbase⟩
      · exact absurd hpointer hno
  · by_cases htype : a.type = .structured
    · -- objects with members
      obtain ⟨t, hattr, hdepth, -⟩ := hlaid.nested htype hpointer
      have heq : clearMember (clearClass types depth) a base =
          fun m => (List.range a.count).foldl (fun m k => clearClass types depth t (base + k * a.size) m) m :=
        funext fun m => clearMember_composite hpointer htype hattr m
      rw [heq]
      refine (Effect.foldl fun k _ => hclass t (base + k * a.size) hdepth).mono ?_ ?_
      · rintro x ⟨k, hk, b, hb, hperm, c, y, hreaches, hin⟩
        exact ⟨c, y, reaches_iff.mpr (.inr ⟨k, t, b, htype, hpointer, List.mem_range.mp hk, hattr, hb, hperm, hreaches⟩),
          hin⟩
      · rintro l ⟨hreaches, hstructured, hcount⟩
        rcases reaches_iff.mp hreaches with ⟨hroot, -⟩ | ⟨k, t', b, -, -, hk, hattr', hb, hperm, hrest⟩
        · rw [hroot] at hstructured
          exact absurd (hstructured htype) hpointer
        · obtain rfl : t = t' := Option.some.inj (hattr.symm.trans hattr')
          exact ⟨k, List.mem_range.mpr hk, b, hb, hperm, hrest, hstructured, hcount⟩
    · -- objects without
      have heq : clearMember (clearClass types depth) a base =
          fun m => (List.range a.count).foldl (fun m k => clearObject a base k m) m :=
        funext fun m => clearMember_objects hpointer htype m
      rw [heq]
      refine (Effect.foldl fun k _ => effect_clearObject hpointer hlaid.stride hlaid.bitfield).mono ?_ ?_
      · rintro x ⟨k, hk, hx⟩
        exact ⟨a, base, .here, inMember_of_inObject hpointer (List.mem_range.mp hk) hx⟩
      · rintro ⟨b, y, k⟩ ⟨hreaches, -, hk⟩
        rcases reaches_iff.mp hreaches with ⟨rfl, rfl⟩ | ⟨_, _, _, hno, -⟩
        · exact ⟨k, List.mem_range.mpr hk, rfl⟩
        · exact absurd hno htype

/-- **An object is cleared**: the members that can be checkpointed. -/
theorem effect_clearClass (hlaid : LaidOut types sizeOf) (depth t y : Nat) (hdepth : types.depth t < depth) : Effect
    (fun x => ∃ b ∈ types.members t, inputPermCheck b ∧ InReached types b (elementAddress b y) x)
    (fun l => ∃ b ∈ types.members t, inputPermCheck b ∧ IsLeaf types b (elementAddress b y) l)
    (clearClass types depth t y) := by
  induction depth generalizing t y with
  | zero => exact absurd hdepth (Nat.not_lt_zero _)
  | succ depth ih =>
    have hround : ∀ b ∈ types.members t, Effect
        (fun x => inputPermCheck b ∧ InReached types b (elementAddress b y) x)
        (fun l => inputPermCheck b ∧ IsLeaf types b (elementAddress b y) l)
        (fun m => if inputPermCheck b then clearMember (clearClass types depth) b (elementAddress b y) m else m) := by
      intro b hb
      by_cases hperm : inputPermCheck b
      · have hmember := hlaid.member t b hb hperm
        -- the types of the members are of less depth
        have hlaid' : Laid types sizeOf b depth := by
          refine ⟨hmember.stride, ?_, hmember.bitfield⟩
          intro htype hpointer
          obtain ⟨t', hattr, hless, hsize⟩ := hmember.nested htype hpointer
          exact ⟨t', hattr, by omega, hsize⟩
        simp only [if_pos hperm]
        exact (effect_clearMember hlaid' ih).mono (fun x hx => ⟨hperm, hx⟩) fun l hl => hl.2
      · simp only [if_neg hperm]
        exact Effect.none.mono (fun _ h => absurd h id) fun _ h => absurd h.1 hperm
    exact (Effect.foldl hround).mono (fun x h => h) fun l h => h

/-! ## Where the members are -/

/-- **What is reached is in the allocation**, or in a static member. -/
theorem inMember_of_inReached (hlaid : LaidOut types sizeOf) {depth : Nat} (hroot : Laid types sizeOf a depth) {x : Nat}
    (hx : InReached types a base x) : InMember a base x ∨
      ∃ b y, Reaches types a base b y ∧ b.isStatic ∧ InMember b y x := by
  obtain ⟨b, y, hreaches, hin⟩ := hx
  have hcomposite : ∀ c z, Reaches types a base c z → ∃ depth, Laid types sizeOf c depth := by
    intro c z hc
    cases hc with
    | here => exact ⟨depth, hroot⟩
    | inside _ _ _ _ _ hmem hperm => exact ⟨_, hlaid.member _ _ hmem hperm⟩
  induction hreaches with
  | here => exact .inl hin
  | @inside c z k t b hc htype hpointer hk hattr hmem hperm ih =>
    by_cases hstatic : b.isStatic
    · exact .inr ⟨b, _, .inside hc htype hpointer hk hattr hmem hperm, hstatic, hin⟩
    · refine ih ?_
      -- the member is in an object of the one before
      obtain ⟨_, hlaidC⟩ := hcomposite c z hc
      obtain ⟨t', hattr', -, hsize⟩ := hlaidC.nested htype hpointer
      obtain rfl : t = t' := Option.some.inj (hattr.symm.trans hattr')
      have hroom := hlaid.room t b hmem hperm hstatic
      have hstride : c.stride = c.size := by
        unfold Attributes.stride
        rw [htype]
      refine inMember_of_inObject hpointer hk ?_
      unfold InMember elementAddress at hin
      rw [if_neg hstatic] at hin
      unfold InObject
      rw [hstride]
      omega

end Parts

/-! ## Result -/

/-- **An allocation is cleared**: every element that is handled becomes zero, null or empty, and nothing changes
    outside of the allocation and of the static members of its types. -/
theorem clearVar_clears {types : Types} {sizeOf : Nat → Nat} (hlaid : LaidOut types sizeOf) {info : AllocInfo}
    (hinfo : Laid types sizeOf (makeReferenceAttr info) (info.attr.elim 0 fun t => types.depth t + 1))
    (m : ObjectMemory) : Clears types info m := by
  have heffect := @effect_clearMember (makeReferenceAttr info) info.start types sizeOf _ hinfo
    fun t y hdepth => effect_clearClass hlaid _ t y hdepth
  refine ⟨fun l hl hhandled hthere => heffect.nil m l hl hhandled hthere, ?_⟩
  intro x hout hstatic
  refine heffect.frame m x ?_
  intro hx
  rcases inMember_of_inReached hlaid hinfo hx with hin | ⟨b, y, hreaches, hb, hin⟩
  · exact hout hin
  · exact hstatic b y hreaches hb hin

/-- `struct Outer { int a; Inner items[2]; }` and `struct Inner { double x[2]; }`. -/
def nestedArrays : Types where
  members
    | 0 => [{ name := "a", type := .integer, size := 4 },
      { name := "items", type := .structured, size := 16, offset := 8, attr := some 1, dims := [2] }]
    | 1 => [{ name := "x", type := .double, size := 8, dims := [2] }]
    | _ => []
  depth t := if t = 0 then 1 else 0
  embedded := by
    intro t a ha hembedded
    split at ha
    · rcases List.mem_pair.mp ha with rfl | rfl
      · exact absurd hembedded.1 (by decide)
      · exact ⟨1, rfl, by decide⟩
    · rw [List.mem_singleton.mp ha] at hembedded
      exact absurd hembedded.1 (by decide)
    · exact absurd ha List.not_mem_nil

/-- The members of the two types. -/
theorem members_nestedArrays {P : Nat → Attributes → Prop}
    (ha : P 0 { name := "a", type := .integer, size := 4 })
    (hitems : P 0 { name := "items", type := .structured, size := 16, offset := 8, attr := some 1, dims := [2] })
    (hx : P 1 { name := "x", type := .double, size := 8, dims := [2] }) :
    ∀ t, ∀ a ∈ nestedArrays.members t, P t a := by
  rintro (_ | _ | t) a hmem
  · rcases List.mem_pair.mp hmem with rfl | rfl
    · exact ha
    · exact hitems
  · rw [List.mem_singleton.mp hmem]
    exact hx
  · exact absurd hmem List.not_mem_nil

theorem laidOut_nestedArrays : LaidOut nestedArrays fun t => if t = 0 then 40 else 16 where
  member := by
    refine members_nestedArrays ?_ ?_ ?_
    · exact fun _ => ⟨by decide, fun h => absurd h (by decide), fun h => absurd h (by decide)⟩
    · exact fun _ => ⟨by decide, fun _ _ => ⟨1, rfl, by decide, rfl⟩, fun h => absurd h (by decide)⟩
    · exact fun _ => ⟨by decide, fun h => absurd h (by decide), fun h => absurd h (by decide)⟩
  reference := members_nestedArrays (by decide) (by decide) (by decide)
  room := members_nestedArrays (by decide) (by decide) (by decide)

/-- An array of three such objects is cleared. -/
theorem clears_nestedArrays : Clears nestedArrays
    { start := 64, lastByte := 183, size := 40, type := .structured, attr := some 0, num := 3, index := [3] }
    { byte := fun a => UInt8.ofNat a, apart := apart_of_no_strings } :=
  clearVar_clears laidOut_nestedArrays ⟨by decide, fun _ _ => ⟨0, rfl, by decide, rfl⟩, fun h => absurd h (by decide)⟩ _

/-- `struct Counted { static int count; }`, with the counter at the address 100, and `struct Pair { double *p[2]; }`. -/
def countedAndPair : Types where
  members
    | 0 => [{ name := "count", type := .integer, size := 4, mods := 2, offset := 100 }]
    | 1 => [{ name := "p", type := .double, size := 8, dims := [2, 0] }]
    | _ => []
  depth _ := 0
  embedded := by
    intro t a ha hembedded
    split at ha
    · rw [List.mem_singleton.mp ha] at hembedded
      exact absurd hembedded.1 (by decide)
    · rw [List.mem_singleton.mp ha] at hembedded
      exact absurd hembedded.1 (by decide)
    · exact absurd ha List.not_mem_nil

/-- The counter is 5, and the second pointer of the pair at the address 32 is not null. -/
def countedMemory : ObjectMemory where
  byte a := if a = 100 then 5 else if a = 40 then 7 else 0
  apart := apart_of_no_strings

/-- The static member is cleared with an object at another address, and the second pointer of the array is not
    cleared. -/
theorem not_clearsAll :
    ¬ ClearsAll countedAndPair { start := 16, lastByte := 16, size := 1, type := .structured, attr := some 0, num := 1 }
        countedMemory ∧
      ¬ ClearsAll countedAndPair
        { start := 32, lastByte := 47, size := 16, type := .structured, attr := some 1, num := 1 } countedMemory := by
  refine ⟨?_, ?_⟩
  · rintro ⟨-, hframe⟩
    have hsame := (hframe 100 (by decide)).1
    exact absurd hsame (by decide)
  · rintro ⟨hnil, -⟩
    have hleaf := hnil ⟨{ name := "p", type := .double, size := 8, dims := [2, 0] }, 32, 1⟩
      ⟨.inside (k := 0) .here rfl (by decide) (by decide) rfl List.mem_cons_self (by decide), fun h => absurd h (by decide),
        by decide⟩ (fun h => absurd h (by decide))
    unfold Leaf.Nil NilElement at hleaf
    rw [if_pos (by decide)] at hleaf
    exact absurd hleaf (by decide)

end Trick.Memory
