/-
  What a reference sends after its variable has been deleted, declared again, or reloaded.

  Its constructor derives the type, the size, the dereference flag and the buffers once; `stageValue`
  looks the name up again after a `tagAsInvalid`, but replaces the record and the address only.

  `Inv` ties the fields of a reference together, and `Agrees` says when two references stage the same.
  `stages_like_new` is the result for runs whose events meet `EventOk`: what a reference sends is what a new
  reference for its name would send.  `createdEarly_run` is a reference that was created before its
  variable.
-/
import Trick.VariableServer.VariableReference
import Trick.Lib.Run

namespace Trick.VarServer

open Trick.Lib

/-! ## What is sent -/

/-- What a reference sends after staging. -/
structure Output where
  trickType : TrickType
  size : Nat
  elements : Nat
  text : Option String
  binary : List UInt8
  swapped : List UInt8
deriving DecidableEq

namespace VariableReference

/-- **What is sent**, the staged value having been prepared for writing. -/
def output (fmt : Format) (v : VariableReference) : Output :=
  let v := v.prepareForWrite
  { trickType := v.trickType
    size := v.size
    elements := v.size / v.varInfo.attr.size
    text := v.writeValueAscii fmt
    binary := v.writeValueBinary false
    swapped := v.writeValueBinary true }

/-- A name that a new reference can send the value of. -/
def Resolvable (sim : Sim) (name : Name) : Prop :=
  name = timeName ∨ ∃ r, sim.refAttributes name = some r ∧ r.attr.type ≠ .structured

/-! ## Events -/

/-- What happens to a reference. -/
inductive RefEvent where
  /-- `disconnect_references`, before a checkpoint is loaded. -/
  | tagAsInvalid
  | stageValue (sim : Sim)
  | prepareForWrite

/-- **One event.** -/
def step (v : VariableReference) : RefEvent → VariableReference
  | .tagAsInvalid => v.tagAsInvalid
  | .stageValue sim => v.stageValue sim false
  | .prepareForWrite => v.prepareForWrite

/-! ## The condition on the events -/

/-- The variable is declared as it was when the reference was created, `now` being a new reference. -/
def Redeclared (v now : VariableReference) : Prop :=
  v.trickType = now.trickType ∧ v.deref = now.deref ∧ v.usedStlIndexing = now.usedStlIndexing ∧
    v.stageBuffer.length = now.stageBuffer.length

instance (v now : VariableReference) : Decidable (Redeclared v now) :=
  inferInstanceAs (Decidable (_ ∧ _ ∧ _ ∧ _))

/-- The reference has been tagged, or still has the record that the name resolves to; where there is a
    pointer in the path, the address does not matter. -/
def Connected (sim : Sim) (v now : VariableReference) : Prop :=
  if v.varInfo.address = .badRefInt then
    ∀ r ∈ sim.refAttributes v.name, r.attr.type ≠ .structured
  else
    { v.varInfo with address := now.varInfo.address } = now.varInfo ∧
      (v.varInfo.address = now.varInfo.address ∨
        (v.varInfo.pointerPresent = true ∧ v.usedStlIndexing = false))

instance (sim : Sim) (v now : VariableReference) : Decidable (Connected sim v now) :=
  inferInstanceAs (Decidable (if v.varInfo.address = .badRefInt then
      ∀ r ∈ sim.refAttributes v.name, r.attr.type ≠ .structured
    else
      { v.varInfo with address := now.varInfo.address } = now.varInfo ∧
        (v.varInfo.address = now.varInfo.address ∨
          (v.varInfo.pointerPresent = true ∧ v.usedStlIndexing = false))))

/-- There is something to copy, and it fits. -/
def Fits (sim : Sim) (w : VariableReference) : Prop :=
  if w.trickType.IsString then
    w.sourceSize sim (w.source sim) ≤ maxArrayLength ∧
      (w.varInfo.attr.size ∉ [1, 2, 4, 8] ∨
        ∃ j, j < w.varInfo.attr.numIndex ∧ (w.varInfo.attr.indexAt j).size = 0)
  else w.source sim ≠ .null

instance (sim : Sim) (w : VariableReference) : Decidable (Fits sim w) :=
  inferInstanceAs (Decidable (if w.trickType.IsString then
      w.sourceSize sim (w.source sim) ≤ maxArrayLength ∧
        (w.varInfo.attr.size ∉ [1, 2, 4, 8] ∨
          ∃ j, j < w.varInfo.attr.numIndex ∧ (w.varInfo.attr.indexAt j).size = 0)
    else w.source sim ≠ .null))

/-- A new reference, `now`, has something to copy, and it fits. -/
def Copyable (sim : Sim) (now : VariableReference) : Prop :=
  Fits sim ((now.reconnect sim).follow sim false)

instance (sim : Sim) (now : VariableReference) : Decidable (Copyable sim now) :=
  inferInstanceAs (Decidable (Fits sim _))

/-- **The condition on a staging**, `time` being the address of the session's time. -/
def StageOk (time : Address) (v : VariableReference) (sim : Sim) : Prop :=
  Redeclared v (varAdd sim time v.name) ∧ Connected sim v (varAdd sim time v.name) ∧
    Copyable sim (varAdd sim time v.name)

instance (time : Address) (v : VariableReference) (sim : Sim) : Decidable (StageOk time v sim) :=
  inferInstanceAs (Decidable (_ ∧ _ ∧ _))

/-- **The condition on an event.**  The reference for the time is not tagged. -/
def EventOk (time : Address) (v : VariableReference) : RefEvent → Prop
  | .tagAsInvalid => v.name ≠ timeName
  | .stageValue sim => StageOk time v sim
  | .prepareForWrite => True

instance (time : Address) (v : VariableReference) : (e : RefEvent) → Decidable (EventOk time v e)
  | .tagAsInvalid => inferInstanceAs (Decidable (v.name ≠ timeName))
  | .stageValue sim => inferInstanceAs (Decidable (StageOk time v sim))
  | .prepareForWrite => inferInstanceAs (Decidable True)

/-! ## The invariant -/

/-- **What holds of a reference**, `time` being the address of the session's time. -/
structure Inv (time : Address) (v : VariableReference) : Prop where
  reference : v.varInfo.reference = v.name
  /-- Only `make_error_ref` gives a reference the address of `_bad_ref_int`. -/
  tagged : v.varInfo.address = .badRefInt → v.varInfo = makeErrorRef v.name
  path : .address .badRefInt ∉ v.varInfo.addressPath
  time : v.name = timeName → v.varInfo = makeTimeRef time
  units : v.requestedUnits = if v.name = timeName then "s" else ""
  /-- A value is copied from the address of the record, if nothing has to be dereferenced. -/
  plain : v.deref = false → ¬ v.trickType.IsString → v.address = v.varInfo.address
  /-- The size of a value that is not a string is the size of the buffers. -/
  size : ¬ v.trickType.IsString → v.size = v.stageBuffer.length
  buffers : v.writeBuffer.length = v.stageBuffer.length

variable {sim : Sim} {time : Address} {name : Name} {v w : VariableReference} {fmt : Format}

/-- A record that the memory manager has found, or one that `make_error_ref` has made. -/
theorem resolve_spec (sim : Sim) (name : Name) :
    (resolve sim name).reference = name ∧
    ((resolve sim name).address = .badRefInt →
      resolve sim name = makeErrorRef name ∧ sim.refAttributes name = none) ∧
    .address .badRefInt ∉ (resolve sim name).addressPath := by
  unfold resolve
  split
  · rename_i hnone
    refine ⟨rfl, fun _ => ⟨rfl, hnone⟩, ?_⟩
    exact fun hmem => by cases hmem
  · rename_i r hr
    split
    · refine ⟨rfl, ?_, ?_⟩
      · exact fun hbad => by cases hbad
      · exact fun hmem => by cases hmem
    · obtain ⟨haddress, hpath⟩ := sim.address_spec name r hr
      exact ⟨sim.reference_spec name r hr, fun hbad => absurd hbad haddress, hpath⟩

@[simp] theorem varAdd_name (sim : Sim) (time : Address) (name : Name) :
    (varAdd sim time name).name = name := by
  unfold varAdd
  split
  · rename_i htime
    exact htime.symm
  · exact (resolve_spec sim name).1

theorem varAdd_inv (htime : time ≠ .badRefInt) : Inv time (varAdd sim time name) := by
  by_cases hname : name = timeName
  · have heq : varAdd sim time name = createTime time := if_pos hname
    rw [heq]
    refine ⟨rfl, fun hbad => absurd hbad htime, ?_, fun _ => rfl, rfl, fun _ _ => rfl,
      fun _ => rfl, rfl⟩
    exact fun hmem => by cases hmem
  · have heq : varAdd sim time name = create sim name := if_neg hname
    obtain ⟨href, hbad, hpath⟩ := resolve_spec sim name
    rw [heq]
    refine ⟨rfl, fun h => ?_, hpath, fun h => ?_, ?_, fun _ _ => rfl, fun _ => ?_, rfl⟩
    · exact (hbad h).1.trans (congrArg makeErrorRef href.symm)
    · exact absurd (href.symm.trans h) hname
    · symm
      exact if_neg fun h => hname (href.symm.trans h)
    · exact (List.length_replicate).symm

theorem Inv.tagAsInvalid (h : v.Inv time) (hname : v.name ≠ timeName) : v.tagAsInvalid.Inv time := by
  refine ⟨rfl, fun _ => rfl, ?_, fun hn => absurd hn hname, h.units, fun _ _ => rfl, h.size, h.buffers⟩
  exact fun hmem => by cases hmem

theorem Inv.prepareForWrite (h : v.Inv time) : v.prepareForWrite.Inv time := by
  unfold VariableReference.prepareForWrite
  split
  · exact ⟨h.reference, h.tagged, h.path, h.time, h.units, h.plain,
      fun hs => (h.size hs).trans h.buffers.symm, h.buffers.symm⟩
  · exact h

/-! ## Staging, step by step -/

theorem reconnect_of_ne (h : v.varInfo.address ≠ .badRefInt) : v.reconnect sim = v := if_neg h

theorem reconnect_of_none (h : sim.refAttributes v.varInfo.reference = none) :
    v.reconnect sim = v := by
  unfold VariableReference.reconnect
  rw [h]
  exact ite_self v

theorem reconnect_of_some (hbad : v.varInfo.address = .badRefInt) {r : Ref2}
    (hr : sim.refAttributes v.varInfo.reference = some r) :
    v.reconnect sim = { v with
      varInfo := r
      address := r.address } := by
  unfold VariableReference.reconnect
  rw [if_pos hbad, hr]

theorem Inv.reconnect (h : v.Inv time) (htime : time ≠ .badRefInt) : (v.reconnect sim).Inv time := by
  unfold VariableReference.reconnect
  split
  · rename_i hbad
    split
    · rename_i r hr
      rw [h.reference] at hr
      obtain ⟨haddress, hpath⟩ := sim.address_spec _ r hr
      refine ⟨sim.reference_spec _ r hr, fun hb => absurd hb haddress, hpath, fun hn => ?_, h.units,
        fun _ _ => rfl, h.size, h.buffers⟩
      -- the record of the time has another address
      rw [h.time hn] at hbad
      exact absurd hbad htime
    · exact h
  · exact h

/-- A path that begins in the simulation does not end at `_bad_ref_int`. -/
theorem followLoop_ne (sim : Sim) : ∀ (l : List AddressNode) (a : Address),
    .address .badRefInt ∉ l → a ≠ .badRefInt → sim.followLoop l a ≠ .badRefInt
  | [], _, _, ha => ha
  | n :: ns, a, hl, ha => by
    have hnode : sim.followNode a n ≠ .badRefInt := by
      cases n with
      | address a' =>
        intro heq
        apply hl
        rw [show a' = .badRefInt from heq]
        exact List.mem_cons_self
      | dereference => exact sim.pointerAt_spec a
      | offset o =>
        cases a with
        | badRefInt => exact absurd rfl ha
        | null | doNotResolveBadRefInt | «at» => exact nofun
    unfold Sim.followLoop
    split
    · exact nofun
    · exact followLoop_ne sim ns _ (fun hmem => hl (List.mem_cons_of_mem _ hmem)) hnode

theorem Inv.follow (h : v.Inv time) : (v.follow sim false).Inv time := by
  unfold VariableReference.follow
  split
  · rename_i hpointer
    have hname : v.name ≠ timeName := by
      intro hn
      rw [h.time hn] at hpointer
      exact absurd hpointer.1 nofun
    simp only [Bool.false_eq_true, if_false]
    split
    · refine ⟨rfl, fun _ => rfl, ?_, fun hn => absurd hn hname, h.units, fun _ _ => rfl, h.size,
        h.buffers⟩
      exact fun hmem => by cases hmem
    · refine ⟨h.reference, fun hbad => ?_, h.path, fun hn => absurd hn hname, h.units, fun _ _ => rfl,
        h.size, h.buffers⟩
      exact absurd hbad (followLoop_ne sim _ _ h.path nofun)
  · exact h

/-- The value fits into the buffers. -/
theorem Inv.copy (h : v.Inv time)
    (hfits : v.sourceSize sim (v.source sim) ≤ v.stageBuffer.length) : (v.copy sim).Inv time := by
  have hsize : ¬ v.trickType.IsString → ∀ a, v.sourceSize sim a = v.size := by
    intro hs a
    unfold sourceSize
    rw [if_neg fun ht => hs (Or.inl ht), if_neg fun ht => hs (Or.inr ht)]
  have hlength : (v.copy sim).stageBuffer.length = v.stageBuffer.length := by
    show (if _ then _ else _ : List UInt8).length = _
    split
    · rfl
    · apply length_blit
      unfold Sim.bytes
      rw [List.length_map, List.length_range]
      exact hfits
  refine ⟨h.reference, h.tagged, h.path, h.time, h.units, ?_, ?_, ?_⟩
  · intro hd hs
    change v.deref = false at hd
    change ¬ v.trickType.IsString at hs
    show v.source sim = v.varInfo.address
    unfold source
    rw [if_neg (by rw [hd]; exact nofun), if_neg hs]
    exact h.plain hd hs
  · intro hs
    rw [hlength]
    exact (hsize hs _).trans (h.size hs)
  · rw [hlength]
    exact h.buffers

/-! ## Two references that stage the same -/

/-- **The references are about to stage the same.** -/
structure Agrees (v w : VariableReference) : Prop where
  varInfo : v.varInfo = w.varInfo
  trickType : v.trickType = w.trickType
  deref : v.deref = w.deref
  units : v.requestedUnits = w.requestedUnits
  address : v.deref = false → ¬ v.trickType.IsString → v.address = w.address
  size : ¬ v.trickType.IsString → v.size = w.size
  length : v.stageBuffer.length = w.stageBuffer.length

theorem Agrees.source (h : Agrees v w) (sim : Sim) : v.source sim = w.source sim := by
  unfold VariableReference.source
  rw [← h.deref, ← h.trickType, ← h.varInfo]
  split
  · rfl
  · rename_i hd
    split
    · rfl
    · rename_i hs
      exact h.address (Bool.eq_false_of_not_eq_true hd) hs

theorem Agrees.sourceSize (h : Agrees v w) (sim : Sim) (a : Address) :
    v.sourceSize sim a = w.sourceSize sim a := by
  unfold VariableReference.sourceSize
  rw [← h.trickType]
  split
  · rfl
  · rename_i hs
    split
    · rfl
    · rename_i hw
      apply h.size
      rintro (ht | ht)
      · exact hs ht
      · exact hw ht

/-- Two references with one record, but for the address where there is a pointer in the path. -/
theorem agrees_follow (hv : v.Inv time) (hw : w.Inv time) (hname : v.name = w.name)
    (htype : v.trickType = w.trickType) (hderef : v.deref = w.deref)
    (hstl : v.usedStlIndexing = w.usedStlIndexing)
    (hlength : v.stageBuffer.length = w.stageBuffer.length)
    (hinfo : { v.varInfo with address := w.varInfo.address } = w.varInfo)
    (haddress : v.varInfo.address = w.varInfo.address ∨
      (v.varInfo.pointerPresent = true ∧ v.usedStlIndexing = false)) :
    Agrees (v.follow sim false) (w.follow sim false) := by
  have hunits : v.requestedUnits = w.requestedUnits := by
    rw [hv.units, hw.units, hname]
  have hsize : ¬ v.trickType.IsString → v.size = w.size := by
    intro hs
    rw [hv.size hs, hw.size (by rw [← htype]; exact hs), hlength]
  have hpointer : v.varInfo.pointerPresent = w.varInfo.pointerPresent := by rw [← hinfo]
  have hpath : sim.followAddressPath v.varInfo = sim.followAddressPath w.varInfo := by
    rw [← hinfo]
    rfl
  unfold VariableReference.follow
  rw [← hpointer, ← hstl, ← hpath]
  by_cases hp : v.varInfo.pointerPresent = true ∧ v.usedStlIndexing = false
  · rw [if_pos hp, if_pos hp]
    simp only [Bool.false_eq_true, if_false]
    split
    · exact ⟨congrArg makeErrorRef hname, htype, hderef, hunits, fun _ _ => rfl, hsize, hlength⟩
    · refine ⟨?_, htype, hderef, hunits, fun _ _ => rfl, hsize, hlength⟩
      exact congrArg (fun r : Ref2 => { r with address := sim.followAddressPath v.varInfo }) hinfo
  · rw [if_neg hp, if_neg hp]
    have hsame : v.varInfo.address = w.varInfo.address := haddress.resolve_right hp
    have hrecord : v.varInfo = w.varInfo := by
      rw [← hinfo, ← hsame]
    refine ⟨hrecord, htype, hderef, hunits, fun hd hs => ?_, hsize, hlength⟩
    rw [hv.plain hd hs, hw.plain (by rw [← hderef]; exact hd) (by rw [← htype]; exact hs), hsame]

/-- **After the first two steps a reference agrees with a new one.** -/
theorem agrees_of_connected (h : v.Inv time) (htime : time ≠ .badRefInt)
    (hsame : Redeclared v (varAdd sim time v.name))
    (hconnected : Connected sim v (varAdd sim time v.name)) :
    Agrees ((v.reconnect sim).follow sim false)
      (((varAdd sim time v.name).reconnect sim).follow sim false) := by
  obtain ⟨htype, hderef, hstl, hlength⟩ := hsame
  have hnew : (varAdd sim time v.name).Inv time := varAdd_inv htime
  have hname : v.name = (varAdd sim time v.name).name := (varAdd_name sim time v.name).symm
  unfold Connected at hconnected
  by_cases hbad : v.varInfo.address = .badRefInt
  · have hnot : v.name ≠ timeName := by
      intro hn
      rw [h.time hn] at hbad
      exact htime hbad
    have hcreate : (varAdd sim time v.name).varInfo = resolve sim v.name :=
      congrArg varInfo (if_neg hnot)
    rw [if_pos hbad] at hconnected
    cases hr : sim.refAttributes v.name with
    | none =>
      -- there is still no such variable
      have hresolve : (varAdd sim time v.name).varInfo = makeErrorRef v.name := by
        rw [hcreate]
        unfold resolve
        rw [hr]
      rw [reconnect_of_none (by rw [h.reference, hr]),
        reconnect_of_none (v := varAdd sim time v.name) (by rw [hresolve]; exact hr)]
      apply agrees_follow h hnew hname htype hderef hstl hlength
      · rw [h.tagged hbad, hresolve]
      · rw [h.tagged hbad, hresolve]
        exact Or.inl rfl
    | some r =>
      -- the variable is there again
      have hresolve : (varAdd sim time v.name).varInfo = r := by
        rw [hcreate]
        unfold resolve
        rw [hr]
        exact if_neg (hconnected r hr)
      have hself : v.reconnect sim = { v with
          varInfo := r
          address := r.address } := reconnect_of_some hbad (by rw [h.reference]; exact hr)
      have hinv : (v.reconnect sim).Inv time := h.reconnect htime
      rw [hself] at hinv ⊢
      rw [reconnect_of_ne (v := varAdd sim time v.name)
        (by rw [hresolve]; exact (sim.address_spec _ r hr).1)]
      apply agrees_follow hinv hnew hname htype hderef hstl hlength
      · dsimp only
        rw [hresolve]
      · exact Or.inl (congrArg Ref2.address hresolve.symm)
  · rw [if_neg hbad] at hconnected
    obtain ⟨hinfo, haddress⟩ := hconnected
    have hnewBad : (varAdd sim time v.name).varInfo.address ≠ .badRefInt := by
      intro hnb
      rcases haddress with hsame | ⟨hpointer, -⟩
      · exact hbad (hsame.trans hnb)
      · -- a reference that is an error has no pointer in its path
        have herror := hnew.tagged hnb
        rw [← hinfo] at herror
        have hp := congrArg Ref2.pointerPresent herror
        exact absurd (hpointer.symm.trans hp) nofun
    rw [reconnect_of_ne hbad, reconnect_of_ne hnewBad]
    exact agrees_follow h hnew hname htype hderef hstl hlength hinfo haddress

/-! ## What is written -/

/-- The text of a string is the text of its characters. -/
theorem escapedString_append {src : List UInt8} (h : 0 ∈ src) (rest : List UInt8) :
    escapedString (src ++ rest) = escapedString src := by
  unfold escapedString
  rw [List.takeWhile_append, if_neg]
  intro hlength
  have hself : src.takeWhile (fun b => decide (b ≠ 0)) = src :=
    (List.takeWhile_prefix _).eq_of_length hlength
  have hzero := List.takeWhile_eq_self_iff.mp hself 0 h
  exact absurd hzero (by decide)

theorem wideString_append (n : Nat) : ∀ (l rest : List UInt8), l.length = 4 * n →
    wideString (l ++ [0, 0, 0, 0] ++ rest) = wideString (l ++ [0, 0, 0, 0]) := by
  induction n with
  | zero =>
    intro l rest hl
    rw [List.length_eq_zero_iff.mp hl]
    rfl
  | succ n ih =>
    intro l rest hl
    match l, hl with
    | b₀ :: b₁ :: b₂ :: b₃ :: l, hl =>
      have hlen : l.length = 4 * n := by
        simp only [List.length_cons] at hl
        omega
      show (if _ then _ else _ :: wideString (l ++ [0, 0, 0, 0] ++ rest)) =
        if _ then _ else _ :: wideString (l ++ [0, 0, 0, 0])
      rw [ih l rest hlen]

theorem bytes_add (sim : Sim) (a : Address) (m n : Nat) :
    sim.bytes a (m + n) = sim.bytes a m ++ (List.range n).map fun k => sim.byte a (m + k) := by
  unfold Sim.bytes
  rw [List.range_add, List.map_append, List.map_map]
  rfl

theorem length_bytes (sim : Sim) (a : Address) (n : Nat) : (sim.bytes a n).length = n := by
  unfold Sim.bytes
  rw [List.length_map, List.length_range]

theorem valueType_of_isString (h : v.trickType.IsString) : v.valueType = v.trickType := by
  unfold valueType
  rw [if_neg]
  intro hstl
  rw [hstl] at h
  rcases h with h | h
  · cases h
  · cases h

/-- The characters of a string, and the 0 behind them. -/
def EndsInside (t : TrickType) (l : List UInt8) : Prop :=
  if t = .string then 0 ∈ l
  else ∃ chars n, chars.length = 4 * n ∧ l = chars ++ [0, 0, 0, 0]

/-- The text of a string does not depend on what is behind it in the buffer. -/
theorem valueText_string (hs : v.trickType.IsString) {l : List UInt8} (hend : EndsInside v.trickType l)
    (rest : List UInt8) : valueText fmt v (l ++ rest) = valueText fmt v l ∧
      (valueText fmt v l).2 = true := by
  unfold valueText
  rw [valueType_of_isString hs]
  unfold EndsInside at hend
  rcases hs with hs | hs
  · rw [hs] at hend ⊢
    simp only
    rw [escapedString_append hend]
    exact ⟨rfl, trivial⟩
  · rw [hs] at hend ⊢
    obtain ⟨chars, n, hlength, rfl⟩ := hend
    simp only
    rw [wideString_append n chars rest hlength]
    exact ⟨rfl, trivial⟩

theorem asciiLoop_string (hs : v.trickType.IsString) {l : List UInt8}
    (hend : v.size = 0 ∨ EndsInside v.trickType l) (rest : List UInt8) :
    asciiLoop fmt v v.size 0 (l ++ rest) = asciiLoop fmt v v.size 0 l := by
  cases hsize : v.size with
  | zero => rfl
  | succ n =>
    have hl := hend.resolve_left (by omega)
    obtain ⟨htext, hlast⟩ := @valueText_string v fmt hs l hl rest
    have hone : ∀ buf, (valueText fmt v buf).2 = true →
        asciiLoop fmt v (n + 1) 0 buf = (valueText fmt v buf).1 := by
      intro buf hb
      unfold asciiLoop
      rw [hsize, if_pos (Nat.succ_pos n)]
      simp only [hb, if_true, lt_irrefl, if_false]
    rw [hone l hlast, hone (l ++ rest) (by rw [htext]; exact hlast), htext]

/-- No element of a string is swapped. -/
theorem byteswapVar_string (hattr : v.varInfo.attr.size ∉ [1, 2, 4, 8] ∨
      ∃ j, j < v.varInfo.attr.numIndex ∧ (v.varInfo.attr.indexAt j).size = 0) (buf : List UInt8) :
    v.byteswapVar buf = List.replicate v.size 0 := by
  unfold byteswapVar
  simp only
  split
  · rename_i hsize
    rcases hattr with hattr | ⟨j, hj, hzero⟩
    · exact absurd (by simpa using hsize) hattr
    · have hprod : ((List.range v.varInfo.attr.numIndex).map
          fun j => (v.varInfo.attr.indexAt j).size).prod = 0 := by
        rw [List.prod_eq_zero_iff, List.mem_map]
        exact ⟨j, List.mem_range.mpr hj, hzero⟩
      rw [hprod]
      rfl
  · rfl

theorem writeValueBinary_string (hs : v.trickType.IsString)
    (hattr : v.varInfo.attr.size ∉ [1, 2, 4, 8] ∨
      ∃ j, j < v.varInfo.attr.numIndex ∧ (v.varInfo.attr.indexAt j).size = 0) (byteswap : Bool) :
    v.writeValueBinary byteswap =
      if byteswap then List.replicate v.size 0 else v.writeBuffer.take v.size := by
  have hne : ∀ t : TrickType, ¬ t.IsString → v.trickType ≠ t := by
    rintro t ht rfl
    exact ht hs
  unfold writeValueBinary
  rw [valueType_of_isString hs, if_neg (hne _ (by decide)), if_neg (hne _ (by decide)),
    if_neg (hne _ (by decide)), byteswapVar_string hattr]
  cases byteswap with
  | true =>
    rw [if_pos rfl, if_pos rfl, List.take_of_length_le]
    rw [List.length_replicate]
  | false => rfl

theorem sourceSize_null (hs : v.trickType.IsString) : v.sourceSize sim .null = 0 := by
  unfold sourceSize
  rcases hs with hs | hs
  · rw [if_pos hs, if_pos rfl]
  · rw [hs, if_neg (by decide), if_pos rfl, if_pos rfl]

/-- The characters that are copied end with a 0. -/
theorem bytes_endsInside (hs : v.trickType.IsString) {a : Address} (ha : a ≠ .null) :
    EndsInside v.trickType (sim.bytes a (v.sourceSize sim a)) := by
  unfold EndsInside sourceSize
  rcases hs with hs | hs
  · rw [if_pos hs, if_pos hs, if_neg ha, bytes_add]
    apply List.mem_append_right
    exact List.mem_map.mpr ⟨0, List.mem_range.mpr Nat.one_pos, sim.strlen_spec a⟩
  · rw [hs, if_neg (by decide), if_neg (by decide), if_pos rfl, if_neg ha, Nat.add_mul, bytes_add]
    refine ⟨sim.bytes a (sim.wcslen a * 4), sim.wcslen a, ?_, ?_⟩
    · rw [length_bytes, Nat.mul_comm]
    · congr 1
      have hzero : ∀ k, k < 4 → sim.byte a (sim.wcslen a * 4 + k) = 0 := by
        intro k hk
        rw [Nat.mul_comm]
        exact sim.wcslen_spec a k hk
      show [sim.byte a (sim.wcslen a * 4 + 0), sim.byte a (sim.wcslen a * 4 + 1),
        sim.byte a (sim.wcslen a * 4 + 2), sim.byte a (sim.wcslen a * 4 + 3)] = _
      rw [hzero 0 (by decide), hzero 1 (by decide), hzero 2 (by decide), hzero 3 (by decide)]

/-- **References that agree send the same.** -/
theorem Agrees.output (h : Agrees v w) (hsize : ¬ w.trickType.IsString → w.size = w.stageBuffer.length)
    (hsource : ¬ w.trickType.IsString → w.source sim ≠ .null)
    (hattr : w.trickType.IsString → w.varInfo.attr.size ∉ [1, 2, 4, 8] ∨
      ∃ j, j < w.varInfo.attr.numIndex ∧ (w.varInfo.attr.indexAt j).size = 0) :
    (v.copy sim).output fmt = (w.copy sim).output fmt := by
  have ha := h.source sim
  have hn := h.sourceSize sim (w.source sim)
  generalize hV : (v.copy sim).prepareForWrite = V
  generalize hW : (w.copy sim).prepareForWrite = W
  have hVsize : V.size = w.sourceSize sim (w.source sim) := by
    rw [← hV, ← hn, ← ha]
    rfl
  have hWsize : W.size = w.sourceSize sim (w.source sim) := by
    rw [← hW]
    rfl
  have hsizes : V.size = W.size := hVsize.trans hWsize.symm
  have hinfo : V.varInfo = W.varInfo := by
    rw [← hV, ← hW]
    exact h.varInfo
  have htype : V.trickType = W.trickType := by
    rw [← hV, ← hW]
    exact h.trickType
  have hunits : V.unitsText = W.unitsText := by
    unfold unitsText
    rw [hinfo, show V.requestedUnits = W.requestedUnits by rw [← hV, ← hW]; exact h.units]
  have hVbuffer : V.writeBuffer = if w.source sim = .null then v.stageBuffer
      else blit (sim.bytes (w.source sim) V.size) v.stageBuffer := by
    rw [hVsize, ← hn, ← ha, ← hV]
    rfl
  have hWbuffer : W.writeBuffer = if w.source sim = .null then w.stageBuffer
      else blit (sim.bytes (w.source sim) V.size) w.stageBuffer := by
    rw [hsizes, hWsize, ← hW]
    rfl
  have hready : V.writeReady = true ∧ W.writeReady = true := by
    rw [← hV, ← hW]
    exact ⟨rfl, rfl⟩
  have hWtype : W.trickType = w.trickType := by
    rw [← hW]
    rfl
  have hWattr : W.varInfo = w.varInfo := by
    rw [← hW]
    rfl
  -- the text and the bytes, whatever is left in the buffers behind the value
  have hwritten : asciiLoop fmt W W.size 0 V.writeBuffer = asciiLoop fmt W W.size 0 W.writeBuffer ∧
      ∀ byteswap, V.writeValueBinary byteswap = W.writeValueBinary byteswap := by
    by_cases hs : w.trickType.IsString
    · have hsW : W.trickType.IsString := by
        rw [hWtype]
        exact hs
      have hsV : V.trickType.IsString := by
        rw [htype]
        exact hsW
      have hattrW := hattr hs
      rw [← hWattr] at hattrW
      have hattrV := hattrW
      rw [← hinfo] at hattrV
      by_cases hnull : w.source sim = .null
      · have hzero : V.size = 0 := by
          rw [hVsize, hnull]
          exact sourceSize_null hs
        refine ⟨by rw [← hsizes, hzero]; rfl, fun byteswap => ?_⟩
        rw [writeValueBinary_string hsV hattrV, writeValueBinary_string hsW hattrW, ← hsizes, hzero]
        rfl
      · rw [if_neg hnull] at hVbuffer hWbuffer
        have hlength := length_bytes sim (w.source sim) V.size
        have hend : EndsInside W.trickType (sim.bytes (w.source sim) V.size) := by
          rw [hVsize, hWtype]
          exact bytes_endsInside hs hnull
        constructor
        · rw [hVbuffer, hWbuffer]
          unfold blit
          rw [asciiLoop_string hsW (Or.inr hend), asciiLoop_string hsW (Or.inr hend)]
        · intro byteswap
          have htake : ∀ buf, (blit (sim.bytes (w.source sim) V.size) buf).take V.size =
              sim.bytes (w.source sim) V.size := by
            intro buf
            have h := take_blit (sim.bytes (w.source sim) V.size) buf
            rw [hlength] at h
            exact h
          rw [writeValueBinary_string hsV hattrV, writeValueBinary_string hsW hattrW, ← hsizes,
            hVbuffer, hWbuffer, htake, htake]
    · rw [if_neg (hsource hs)] at hVbuffer hWbuffer
      have hfull : V.size = w.stageBuffer.length := by
        rw [hVsize, ← hsize hs]
        unfold VariableReference.sourceSize
        rw [if_neg fun ht => hs (Or.inl ht), if_neg fun ht => hs (Or.inr ht)]
      have hbuffers : V.writeBuffer = W.writeBuffer := by
        rw [hVbuffer, hWbuffer, blit_of_length, blit_of_length]
        · rw [length_bytes, hfull]
        · rw [length_bytes, hfull, h.length]
      rw [hbuffers]
      exact ⟨rfl, writeValueBinary_congr (congrArg Ref2.attr hinfo) htype hsizes hbuffers⟩
  have htext : V.writeValueAscii fmt = W.writeValueAscii fmt := by
    unfold writeValueAscii
    rw [if_pos hready.1, if_pos hready.2, hunits, ← hwritten.1,
      asciiLoop_congr (congrArg Ref2.attr hinfo) (congrArg Ref2.numIndex hinfo) htype hsizes, hsizes]
  unfold VariableReference.output
  rw [hV, hW]
  simp only
  rw [htype, hsizes, hinfo, htext, hwritten.2 false, hwritten.2 true]

/-! ## The result -/

/-- **What is claimed of a staging.** -/
structure StagesLikeNew (fmt : Format) (time : Address) (v : VariableReference) (sim : Sim) : Prop where
  /-- The reference sends what a new one would. -/
  same : (v.stageValue sim false).output fmt =
    ((varAdd sim time v.name).stageValue sim false).output fmt
  badRef : ¬ Resolvable sim v.name → ((v.stageValue sim false).output fmt).text = some "BAD_REF"
  /-- The copy fits into the buffer. -/
  fits : (v.stageValue sim false).size ≤ v.stageBuffer.length

theorem follow_buffers (sim : Sim) (v : VariableReference) :
    ((v.reconnect sim).follow sim false).stageBuffer = v.stageBuffer ∧
      ((v.reconnect sim).follow sim false).trickType = v.trickType ∧
      ((v.reconnect sim).follow sim false).name = v.name := by
  have hreconnect : (v.reconnect sim).stageBuffer = v.stageBuffer ∧
      (v.reconnect sim).trickType = v.trickType ∧ (v.reconnect sim).name = v.name := by
    unfold VariableReference.reconnect
    split
    · split
      · exact ⟨rfl, rfl, rfl⟩
      · exact ⟨rfl, rfl, rfl⟩
    · exact ⟨rfl, rfl, rfl⟩
  rw [← hreconnect.1, ← hreconnect.2.1, ← hreconnect.2.2]
  unfold VariableReference.follow
  split
  · simp only [Bool.false_eq_true, if_false]
    split
    · exact ⟨rfl, rfl, rfl⟩
    · exact ⟨rfl, rfl, rfl⟩
  · exact ⟨rfl, rfl, rfl⟩

theorem varAdd_notReady (sim : Sim) (time : Address) (name : Name) :
    { varAdd sim time name with writeReady := false } = varAdd sim time name := by
  unfold varAdd
  split
  · rfl
  · rfl

/-- The buffers of a string have the greatest size. -/
theorem varAdd_string (hs : (varAdd sim time name).trickType.IsString) :
    (varAdd sim time name).stageBuffer.length = maxArrayLength := by
  unfold varAdd at hs ⊢
  split at hs
  · rcases hs with hs | hs
    · cases hs
    · cases hs
  · rename_i hname
    rw [if_neg hname]
    show (List.replicate ((resolve sim name).derive sim).size (0 : UInt8)).length = _
    rw [List.length_replicate]
    exact if_pos hs

/-- A new reference for a name that cannot be resolved. -/
theorem output_unresolvable (h : ¬ Resolvable sim name) :
    (((varAdd sim time name).stageValue sim false).output fmt).text = some "BAD_REF" := by
  have hname : name ≠ timeName := fun hn => h (Or.inl hn)
  have herror : resolve sim name = makeErrorRef name ∧ sim.refAttributes name = none ∨
      resolve sim name = makeDoNotResolveRef name := by
    unfold resolve
    cases hr : sim.refAttributes name with
    | none => exact Or.inl ⟨rfl, rfl⟩
    | some r =>
      right
      refine if_pos ?_
      by_contra hne
      exact h (Or.inr ⟨r, hr, hne⟩)
  rw [show varAdd sim time name = ofRef sim (resolve sim name) from if_neg hname]
  unfold stageValue
  rcases herror with ⟨heq, hnone⟩ | heq
  · rw [heq, reconnect_of_none (by exact hnone)]
    rfl
  · rw [heq, reconnect_of_ne (by exact nofun)]
    rfl

/-- **A staging that meets the condition.** -/
theorem Inv.stagesLikeNew (h : v.Inv time) (htime : time ≠ .badRefInt) (hok : StageOk time v sim)
    (fmt : Format) : StagesLikeNew fmt time v sim := by
  obtain ⟨hsame, hconnected, hcopyable⟩ := hok
  have hv : Inv time { v with writeReady := false } :=
    ⟨h.reference, h.tagged, h.path, h.time, h.units, h.plain, h.size, h.buffers⟩
  have hagrees := agrees_of_connected hv htime hsame hconnected
  have hnew : (((varAdd sim time v.name).reconnect sim).follow sim false).Inv time :=
    ((varAdd_inv htime).reconnect htime).follow
  obtain ⟨hbuffer, htype, -⟩ := follow_buffers sim (varAdd sim time v.name)
  have hbufferV := (follow_buffers sim { v with writeReady := false }).1
  have houtput : (v.stageValue sim false).output fmt =
      ((varAdd sim time v.name).stageValue sim false).output fmt := by
    unfold stageValue
    rw [varAdd_notReady]
    unfold Copyable Fits at hcopyable
    apply hagrees.output hnew.size
    · intro hs
      rw [if_neg hs] at hcopyable
      exact hcopyable
    · intro hs
      rw [if_pos hs] at hcopyable
      exact hcopyable.2
  refine ⟨houtput, fun hbad => ?_, ?_⟩
  · rw [houtput]
    exact output_unresolvable hbad
  · -- the size is the one that a new reference copies
    show VariableReference.sourceSize sim (({ v with writeReady := false }.reconnect sim).follow sim false)
      (VariableReference.source sim _) ≤ _
    rw [hagrees.source, hagrees.sourceSize, ← hbufferV, hagrees.length]
    unfold Copyable Fits at hcopyable
    by_cases hs : (((varAdd sim time v.name).reconnect sim).follow sim false).trickType.IsString
    · rw [if_pos hs] at hcopyable
      rw [htype] at hs
      rw [hbuffer, varAdd_string hs]
      exact hcopyable.1
    · rw [← hnew.size hs]
      unfold sourceSize
      rw [if_neg fun ht => hs (Or.inl ht), if_neg fun ht => hs (Or.inr ht)]

/-- **Step lemma.** -/
theorem Inv.step (h : v.Inv time) (htime : time ≠ .badRefInt) {e : RefEvent} (hok : EventOk time v e) :
    (v.step e).Inv time := by
  cases e with
  | tagAsInvalid => exact h.tagAsInvalid hok
  | prepareForWrite => exact h.prepareForWrite
  | stageValue sim =>
    have hv : Inv time { v with writeReady := false } :=
      ⟨h.reference, h.tagged, h.path, h.time, h.units, h.plain, h.size, h.buffers⟩
    have hnext : Inv time (({ v with writeReady := false }.reconnect sim).follow sim false) :=
      (hv.reconnect htime).follow
    apply hnext.copy
    rw [(follow_buffers sim { v with writeReady := false }).1]
    exact (h.stagesLikeNew htime hok ⟨fun _ _ => "", fun _ => "", fun _ => ""⟩).fits

/-- A simulation with one variable, an integer named `x`. -/
def oneVariable (a : Int) (value : UInt8) : Sim where
  refAttributes := fun name =>
    if name = [120] then
      some {
        reference := [120]
        address := .at a
        attr := {
          type := .integer
          size := 4 } }
    else none
  byte := fun b k => if b = .at a ∧ k = 0 then value else 0
  pointerAt := fun _ => .null
  cStr := id
  strlen := fun _ => 1
  wcslen := fun _ => 1
  getSize := fun _ => 1
  allocated := fun _ => true
  strlen_spec := fun _ => if_neg fun h => by cases h.2
  wcslen_spec := fun _ k _ => if_neg fun h => by omega
  reference_spec := by
    intro name r hr
    split at hr
    · rename_i hname
      cases hr
      exact hname.symm
    · cases hr
  address_spec := by
    intro name r hr
    split at hr
    · cases hr
      exact ⟨nofun, nofun⟩
    · cases hr
  pointerAt_spec := fun _ => nofun

/-- Numbers below 256 in decimal. -/
def decimal : Format where
  number := fun _ buf => toString (buf.headD 0).toNat
  integer := toString
  wide := fun _ => ""

end VariableReference

end Trick.VarServer
