/-
  Every message is that of one copy.

  `remaining` is what a writer still has to send, as a function of where it is; the messages that it has
  sent and those that remain are the messages of the copy that was the last one when it swapped the
  buffers (`Active`).  The copies of the simulation meanwhile leave the variables that will be read as
  they were (`WritesLike`), if every step meets `EventOk`.  `Store` says what the variables are when
  nobody is writing: what the last copy has staged, or not staged.

  `messages_of_one_copy` is the result, and `copyWhileWriting_run` is a copy between the swap and the
  writing.
-/
import Trick.VariableServer.WriteData
import Trick.VariableServer.RecoverReference
import Trick.Lib.Modify
import Trick.Lib.Run

namespace Trick.VarServer

open Trick.Lib

/-! ## Variables that write the same -/

/-- **Two references whose values are written in the same way**, if they are ready. -/
structure WritesLike (v w : VariableReference) : Prop where
  name : v.name = w.name
  trickType : v.trickType = w.trickType
  units : v.requestedUnits = w.requestedUnits
  attr : v.varInfo.attr = w.varInfo.attr
  index : v.varInfo.numIndex = w.varInfo.numIndex
  size : v.size = w.size
  buffer : v.writeBuffer = w.writeBuffer

namespace WritesLike

variable {c : WriteSettings} {sim : Sim} {v w : VariableReference}

theorem refl (v : VariableReference) : WritesLike v v := ⟨rfl, rfl, rfl, rfl, rfl, rfl, rfl⟩

theorem varSize (h : WritesLike v w) : c.varSize v = c.varSize w := by
  unfold WriteSettings.varSize
  rw [h.name, h.size]

theorem partHead (h : WritesLike v w) : c.partHead v = c.partHead w := by
  unfold WriteSettings.partHead VariableReference.writeNameLengthBinary
    VariableReference.writeNameBinary VariableReference.writeTypeBinary
    VariableReference.writeSizeBinary
  rw [h.name, h.trickType, h.size]

theorem part (h : WritesLike v w) (head : List UInt8) : c.part head v = c.part head w := by
  unfold WriteSettings.part
  rw [VariableReference.writeValueBinary_congr h.attr h.trickType h.size h.buffer, h.size]

theorem text (h : WritesLike v w) : c.text v = c.text w := by
  unfold WriteSettings.text VariableReference.unitsText
  rw [VariableReference.asciiLoop_congr h.attr h.index h.trickType h.size, h.size, h.buffer, h.units,
    h.attr]

end WritesLike

/-- Looking a name up again changes neither the name nor the type, the units and the write buffer. -/
theorem follow_frame (sim : Sim) (v : VariableReference) :
    ((v.reconnect sim).follow sim false).name = v.name ∧
      ((v.reconnect sim).follow sim false).trickType = v.trickType ∧
      ((v.reconnect sim).follow sim false).requestedUnits = v.requestedUnits ∧
      ((v.reconnect sim).follow sim false).writeBuffer = v.writeBuffer ∧
      ((v.reconnect sim).follow sim false).writeReady = v.writeReady := by
  have hreconnect : (v.reconnect sim).name = v.name ∧ (v.reconnect sim).trickType = v.trickType ∧
      (v.reconnect sim).requestedUnits = v.requestedUnits ∧
      (v.reconnect sim).writeBuffer = v.writeBuffer ∧
      (v.reconnect sim).writeReady = v.writeReady := by
    unfold VariableReference.reconnect
    split
    · split
      · exact ⟨rfl, rfl, rfl, rfl, rfl⟩
      · exact ⟨rfl, rfl, rfl, rfl, rfl⟩
    · exact ⟨rfl, rfl, rfl, rfl, rfl⟩
  rw [← hreconnect.1, ← hreconnect.2.1, ← hreconnect.2.2.1, ← hreconnect.2.2.2.1,
    ← hreconnect.2.2.2.2]
  unfold VariableReference.follow
  split
  · simp only [Bool.false_eq_true, if_false]
    split
    · exact ⟨rfl, rfl, rfl, rfl, rfl⟩
    · exact ⟨rfl, rfl, rfl, rfl, rfl⟩
  · exact ⟨rfl, rfl, rfl, rfl, rfl⟩

namespace SessionState

variable {c : WriteSettings} {sim : Sim} {s : SessionState} {v w : VariableReference}

theorem stageRest_ready : (stageRest sim v).writeReady = v.writeReady := (follow_frame sim v).2.2.2.2

/-- A copy that keeps the attributes and the size. -/
theorem stageRest_like (h : Keeps sim v) (hv : WritesLike v w) : WritesLike (stageRest sim v) w := by
  obtain ⟨hname, htype, hunits, hbuffer, -⟩ := follow_frame sim v
  obtain ⟨hattr, hindex, hsize⟩ := h
  exact ⟨hname.trans hv.name, htype.trans hv.trickType, hunits.trans hv.units, hattr.trans hv.attr,
    hindex.trans hv.index, hsize.trans hv.size, hbuffer.trans hv.buffer⟩

/-! ## What remains to be sent -/

/-- The parts of a packet. -/
def partsOf (c : WriteSettings) (ps : List VariableReference) (vars : List Nat) : List Part :=
  vars.filterMap fun i => ps[i]?.map fun v => c.part (c.partHead v) v

theorem partsOf_cons (c : WriteSettings) (ps : List VariableReference) (i : Nat) (vars : List Nat) :
    partsOf c ps (i :: vars) =
      (ps[i]?.map fun v => c.part (c.partHead v) v).toList ++ partsOf c ps vars := by
  unfold partsOf
  rw [List.filterMap_cons]
  cases ps[i]? with
  | none => rfl
  | some v => rfl

/-- **What remains to be sent** of the variables `ps`. -/
def remaining (c : WriteSettings) (ps : List VariableReference) : WritePc → List Message
  | .sizing i p =>
    (p.addAll maxMsgLen WriteSettings.headerSize (c.sizeAt ps)
      (List.range' i (ps.length - i))).finish.map (c.packet ps)
  | .writing p vars more =>
    .binary { p with parts := p.parts ++ partsOf c ps vars } :: more.map (c.packet ps)
  | .value p head i vars more =>
    .binary { p with parts := p.parts ++ ((ps[i]?.map (c.part head)).toList ++ partsOf c ps vars) } ::
      more.map (c.packet ps)
  | .testing i a => WriteSettings.asciiMessages a ((ps.drop i).map c.text)
  | .rendering i a => WriteSettings.asciiMessages a ((ps.drop i).map c.text)
  | _ => []

/-- The session's thread has swapped the buffers. -/
def Outside : WritePc → Prop
  | .sizing _ _ | .writing _ _ _ | .value _ _ _ _ _ | .testing _ _ | .rendering _ _ => True
  | _ => False

/-- The session's thread has the mutex. -/
def Locked : WritePc → Prop
  | .checking _ | .swapping _ => True
  | _ => False

/-- Where the session's thread is after the swap. -/
def swapped (c : WriteSettings) : WritePc :=
  if c.binaryData then .sizing 0 (Packing.empty WriteSettings.headerSize) else .testing 0 c.newStream

theorem remaining_swapped (ps : List VariableReference) :
    remaining c ps (swapped c) = c.messages ps := by
  unfold swapped WriteSettings.messages
  cases c.binaryData with
  | true =>
    show (Packing.addAll _ _ _ _ (List.range' 0 (ps.length - 0))).finish.map _ = _
    rw [Nat.sub_zero, ← List.range_eq_range']
    rfl
  | false => rfl

theorem swapped_outside : Outside (swapped c) := by
  unfold swapped
  split
  · trivial
  · trivial

theorem swapped_unlocked : ¬ Locked (swapped c) := by
  unfold swapped
  split
  · exact id
  · exact id

/-! ## Headers -/

theorem length_intBytes (n : Nat) (byteswap : Bool) :
    (VariableReference.intBytes n byteswap).length = 4 := by
  unfold VariableReference.intBytes
  split
  · rw [List.length_reverse, length_leBytes]
  · rw [length_leBytes]

theorem length_packetHead (size vars : Nat) : (c.packetHead size vars).length = 12 := by
  unfold WriteSettings.packetHead
  rw [List.length_append, List.length_append, length_intBytes, length_intBytes, length_intBytes]

theorem length_partHead (v : VariableReference) :
    (c.partHead v).length + v.size = c.varSize v := by
  unfold WriteSettings.partHead WriteSettings.varSize
  cases c.binaryDataNonames with
  | true =>
    rw [List.length_append, List.length_append]
    show 0 + (VariableReference.intBytes _ _).length + (VariableReference.intBytes _ _).length + _ = _
    rw [length_intBytes, length_intBytes]
    rfl
  | false =>
    rw [List.length_append, List.length_append]
    show ((VariableReference.intBytes _ _) ++ v.name).length +
      (VariableReference.intBytes _ _).length + (VariableReference.intBytes _ _).length + _ = _
    rw [List.length_append, length_intBytes, length_intBytes, length_intBytes]
    rfl

/-- The parts of variables that exist. -/
theorem parts_spec {ps : List VariableReference} {vars : List Nat} (h : ∀ i ∈ vars, i < ps.length) :
    (partsOf c ps vars).length = vars.length ∧
      ((partsOf c ps vars).map fun q => q.head.length + q.valueSize).sum =
        (vars.map (c.sizeAt ps)).sum := by
  induction vars with
  | nil => exact ⟨rfl, rfl⟩
  | cons i vars ih =>
    obtain ⟨hlength, hsum⟩ := ih fun j hj => h j (List.mem_cons_of_mem i hj)
    obtain ⟨v, hi⟩ : ∃ v, ps[i]? = some v :=
      ⟨_, List.getElem?_eq_getElem (h i List.mem_cons_self)⟩
    have hcons : partsOf c ps (i :: vars) = c.part (c.partHead v) v :: partsOf c ps vars := by
      rw [partsOf_cons, hi]
      rfl
    have hsize : c.sizeAt ps i = c.varSize v := by
      unfold WriteSettings.sizeAt
      rw [hi]
      rfl
    rw [hcons]
    constructor
    · rw [List.length_cons, List.length_cons, hlength]
    · rw [List.map_cons, List.sum_cons, List.map_cons, List.sum_cons, hsum, hsize, ← length_partHead]
      rfl

theorem headerOk_packet {ps : List VariableReference} {b : Nat × List Nat}
    (hbin : Packing.BinOk maxMsgLen WriteSettings.headerSize (c.sizeAt ps) b)
    (h : ∀ i ∈ b.2, i < ps.length) : HeaderOk c (c.packet ps b) := by
  obtain ⟨hlength, hsum⟩ := parts_spec (c := c) h
  have hstream : Packet.streamSize { c.newPacket b.1 b.2 with parts := partsOf c ps b.2 } = b.1 := by
    unfold Packet.streamSize
    show (c.packetHead b.1 b.2.length).length + _ = _
    rw [length_packetHead, hsum]
    exact hbin.1.symm
  refine ⟨hstream, ?_⟩
  show c.packetHead b.1 b.2.length = c.packetHead _ (partsOf c ps b.2).length
  rw [hlength]
  exact congrArg (c.packetHead · b.2.length) hstream.symm

theorem headerOk_append {a : WriteSettings.AsciiStream} {var : String} :
    ∀ m ∈ (a.append var).1, HeaderOk c m := by
  intro m hm
  unfold WriteSettings.AsciiStream.append at hm
  dsimp only at hm
  split at hm
  all_goals
    split at hm
    · rw [← Option.some.inj hm]
      trivial
    · cases hm

theorem headerOk_ascii {vars : List String} :
    ∀ {a : WriteSettings.AsciiStream}, ∀ m ∈ WriteSettings.asciiMessages a vars, HeaderOk c m := by
  induction vars with
  | nil =>
    intro a m hm
    have heq : m = .ascii (a.text ++ "\n") := List.mem_singleton.mp hm
    rw [heq]
    trivial
  | cons var vars ih =>
    intro a m hm
    rw [WriteSettings.asciiMessages] at hm
    rcases List.mem_append.mp hm with hm | hm
    · exact headerOk_append m (Option.mem_toList.mp hm)
    · exact ih m hm

/-- **The headers of what an undisturbed writer sends.** -/
theorem headerOk_messages (ps : List VariableReference) : ∀ m ∈ c.messages ps, HeaderOk c m := by
  unfold WriteSettings.messages
  split
  · intro m hm
    obtain ⟨b, hb, rfl⟩ := List.mem_map.mp hm
    apply headerOk_packet
    · exact (Packing.Sized.empty (by decide)).addAll _ b hb
    · intro i hi
      have hitem := List.mem_flatMap.mpr ⟨b, hb, hi⟩
      rw [Packing.items_finish, Packing.items_addAll] at hitem
      rcases List.mem_append.mp hitem with hitem | hitem
      · cases hitem
      · exact List.mem_range.mp (List.mem_filter.mp hitem).1
  · exact headerOk_ascii

/-! ## The invariant -/

/-- No write is that of the last copy. -/
def Fresh (s : SessionState) : Prop := ∀ w ∈ s.writes, w.pass + 1 < s.passes.length

/-- The variables are what the last copy has staged, or are not staged. -/
def Settled (s : SessionState) : Prop :=
  (s.passes.getLast? = some s.sessionVariables ∧ Fresh s) ∨ ∀ v ∈ s.sessionVariables, v.staged = false

/-- Whether a write is that of the last copy does not depend on what it has sent. -/
theorem fresh_cons {w : Write} {ws : List Write} (hws : s.writes = w :: ws) (h : Fresh s) {pc : WritePc}
    {messages : List Message} {complete : Bool} :
    Fresh { s with
      writer := pc
      writes := { w with
        messages := messages
        complete := complete } :: ws } := by
  intro u hu
  rcases List.mem_cons.mp hu with rfl | hu
  · exact h w (hws ▸ List.mem_cons_self)
  · exact h u (hws ▸ List.mem_cons_of_mem w hu)

/-- The variables in front of `i` have been staged by the last copy, and those from `k` on have not. -/
def StagedTo (sim : Sim) (i k : Nat) (s : SessionState) (snap : List VariableReference) : Prop :=
  s.passes.getLast? = some snap ∧ Fresh s ∧
    (∀ j < i, s.sessionVariables[j]? = snap[j]?) ∧
    ∀ j, k ≤ j → s.sessionVariables[j]?.map (·.stageValue sim false) = snap[j]?

/-- The variables in front of `i` have been swapped. -/
def SwappedTo (i : Nat) (s : SessionState) (snap : List VariableReference) : Prop :=
  s.passes.getLast? = some snap ∧ Fresh s ∧
    (∀ j < i, s.sessionVariables[j]? = snap[j]?.map (·.prepareForWrite)) ∧
    ∀ j, i ≤ j → s.sessionVariables[j]? = snap[j]?

/-- **What the variables are**, by where the threads are. -/
structure Store (s : SessionState) : Prop where
  mutex : s.copyMutex = false → s.copier = .idle ∧ ¬ Locked s.writer
  exclusive : s.copier = .idle ∨ ¬ Locked s.writer
  begin : ∀ sim i, s.copier = .begin sim i → ∃ snap, StagedTo sim i i s snap
  rest : ∀ sim i, s.copier = .rest sim i → ∃ snap, StagedTo sim i (i + 1) s snap ∧
    s.sessionVariables[i]?.map (stageRest sim) = snap[i]?
  settled : s.copier = .idle → (∀ i, s.writer ≠ .swapping i) → Settled s
  checking : ∀ i, s.writer = .checking i → ∀ j < i, ∀ v ∈ s.sessionVariables[j]?, v.staged = true
  swapping : ∀ i, s.writer = .swapping i → ∃ snap, SwappedTo i s snap

/-- **A write that is going on**: what has been sent and what remains are the messages of its copy, and
    the variables that will be read write what the copy has staged. -/
structure Active (c : WriteSettings) (s : SessionState) (w : Write) : Prop where
  complete : w.complete = false
  messages : w.messages ++ remaining c (snapshot s.passes w) s.writer = c.messages (snapshot s.passes w)
  reads : ∀ j, Reads s.writer j → ∀ v ∈ s.sessionVariables[j]?, ∀ p ∈ (snapshot s.passes w)[j]?,
    WritesLike v p
  tests : ∀ j, Tests s.writer j → ∀ v ∈ s.sessionVariables[j]?, v.writeReady = true

/-- **What holds in every state.** -/
structure Inv (c : WriteSettings) (s : SessionState) : Prop where
  nonempty : Locked s.writer → s.sessionVariables ≠ []
  length : ∀ snap ∈ s.passes, snap.length = s.sessionVariables.length
  staged : ∀ snap ∈ s.passes, ∀ v ∈ snap, v.staged = true
  store : Store s
  ofPass : ∀ w ∈ s.writes, OfPass c s.passes w
  order : s.writes.Pairwise fun w w' => w'.pass < w.pass
  active : Outside s.writer → ∃ w ws, s.writes = w :: ws ∧ Active c s w

/-! ## Copies -/

theorem snapshot_append {passes : List (List VariableReference)} {w : Write} (h : w.pass < passes.length)
    (snap : List VariableReference) : snapshot (passes ++ [snap]) w = snapshot passes w := by
  unfold snapshot
  rw [List.getD_append _ _ _ _ h]

/-- A write is that of a copy after another copy, too. -/
theorem OfPass.append {passes : List (List VariableReference)} {w : Write} (h : OfPass c passes w)
    (snap : List VariableReference) : OfPass c (passes ++ [snap]) w := by
  have heq := snapshot_append h.pass snap
  refine ⟨?_, ?_, ?_, ?_, h.headers⟩
  · rw [List.length_append]
    exact Nat.lt_add_right _ h.pass
  · rw [heq]
    exact h.messages
  · rw [heq]
    exact h.complete
  · rw [heq]
    exact h.ready

theorem Inv.copySimData (h : Inv c s) (sim : Sim) : Inv c (s.copySimData sim) := by
  unfold SessionState.copySimData
  split
  · rename_i hidle
    split
    · exact h
    · rename_i hfree
      have hmutex : s.copyMutex = false := by
        cases hm : s.copyMutex with
        | true => exact absurd (Or.inr hm) hfree
        | false => rfl
      have hunlocked := (h.store.mutex hmutex).2
      have hlength : (s.passes ++ [s.sessionVariables.map (·.stageValue sim false)]).length =
          s.passes.length + 1 := List.length_append
      refine ⟨fun hlocked => absurd hlocked hunlocked, ?_, ?_, ?_, ?_, h.order, ?_⟩
      · intro snap hmem
        rcases List.mem_append.mp hmem with hmem | hmem
        · exact h.length snap hmem
        · rw [List.mem_singleton.mp hmem, List.length_map]
      · intro snap hmem v hv
        rcases List.mem_append.mp hmem with hmem | hmem
        · exact h.staged snap hmem v hv
        · rw [List.mem_singleton.mp hmem] at hv
          obtain ⟨u, -, rfl⟩ := List.mem_map.mp hv
          rfl
      · refine ⟨fun hbusy => (by cases hbusy), Or.inr hunlocked, ?_, ?_, ?_, ?_, ?_⟩
        · rintro sim' i hbegin
          cases hbegin
          refine ⟨s.sessionVariables.map (·.stageValue sim false), ?_, ?_, ?_, ?_⟩
          · exact List.getLast?_concat
          · intro w hw
            show w.pass + 1 < _
            rw [hlength]
            exact Nat.succ_lt_succ (h.ofPass w hw).pass
          · intro j hj
            cases hj
          · intro j _
            exact (List.getElem?_map ..).symm
        · exact fun sim' i hrest => by cases hrest
        · exact fun hbusy => by cases hbusy
        · exact h.store.checking
        · intro i hswap
          exact absurd (by rw [show s.writer = _ from hswap]; trivial) hunlocked
      · exact fun w hw => (h.ofPass w hw).append _
      · intro hout
        obtain ⟨w, ws, hws, hactive⟩ := h.active hout
        have heq := snapshot_append (h.ofPass w (hws ▸ List.mem_cons_self)).pass
          (s.sessionVariables.map (·.stageValue sim false))
        refine ⟨w, ws, hws, hactive.complete, ?_, ?_, hactive.tests⟩
        · exact (congrArg (fun ps => w.messages ++ remaining c ps s.writer = c.messages ps) heq).mpr
            hactive.messages
        · intro j hj v hv p hp
          exact hactive.reads j hj v hv p (heq ▸ hp)
  · exact h

/-- The copier changes one variable. -/
theorem Inv.modify (h : Inv c s) {i : Nat} {f : VariableReference → VariableReference} {pc : CopyPc}
    (hstore : Store { s with sessionVariables := s.sessionVariables.modify i f, copier := pc })
    (hreads : Reads s.writer i → ∀ v ∈ s.sessionVariables[i]?, ∀ p, WritesLike v p → WritesLike (f v) p)
    (htests : Tests s.writer i → ∀ v ∈ s.sessionVariables[i]?, v.writeReady = true →
      (f v).writeReady = true) :
    Inv c { s with sessionVariables := s.sessionVariables.modify i f, copier := pc } := by
  have hentry : ∀ j, ∀ v ∈ (s.sessionVariables.modify i f)[j]?,
      v ∈ s.sessionVariables[j]? ∨ j = i ∧ ∃ u ∈ s.sessionVariables[i]?, v = f u := by
    intro j v hv
    by_cases hij : i = j
    · subst hij
      rw [getElem?_modify_self, Option.mem_def, Option.map_eq_some_iff] at hv
      obtain ⟨u, hu, rfl⟩ := hv
      exact Or.inr ⟨rfl, u, hu, rfl⟩
    · rw [getElem?_modify_of_ne hij] at hv
      exact Or.inl hv
  have hlength : (s.sessionVariables.modify i f).length = s.sessionVariables.length :=
    List.length_modify ..
  refine ⟨?_, ?_, h.staged, hstore, ?_, h.order, ?_⟩
  · intro hlocked hnil
    apply h.nonempty hlocked
    apply List.eq_nil_of_length_eq_zero
    rw [← hlength]
    exact congrArg List.length hnil
  · intro snap hmem
    exact (h.length snap hmem).trans hlength.symm
  · exact h.ofPass
  · intro hout
    obtain ⟨w, ws, hws, hactive⟩ := h.active hout
    refine ⟨w, ws, hws, hactive.complete, hactive.messages, ?_, ?_⟩
    · intro j hj v hv p hp
      rcases hentry j v hv with hv | ⟨rfl, u, hu, rfl⟩
      · exact hactive.reads j hj v hv p hp
      · exact hreads hj u hu p (hactive.reads j hj u hu p hp)
    · intro j hj v hv
      rcases hentry j v hv with hv | ⟨rfl, u, hu, rfl⟩
      · exact hactive.tests j hj v hv
      · exact htests hj u hu (hactive.tests j hj u hu)

theorem Inv.copyStep (h : Inv c s) (hok : EventOk s .copyStep) : Inv c s.copyStep := by
  unfold EventOk at hok
  unfold SessionState.copyStep
  rcases hcopier : s.copier with _ | ⟨sim, i⟩ | ⟨sim, i⟩
  · exact h
  · rw [hcopier] at hok
    obtain ⟨snap, hlast, hfresh, hbefore, hafter⟩ := h.store.begin sim i hcopier
    have hunlocked : ¬ Locked s.writer := by
      rcases h.store.exclusive with hidle | hunlocked
      · rw [hidle] at hcopier
        cases hcopier
      · exact hunlocked
    dsimp only
    split
    · rename_i hi
      apply h.modify
      · refine ⟨?_, Or.inr hunlocked, ?_, ?_, ?_, ?_, ?_⟩
        · intro hmutex
          have hidle := (h.store.mutex hmutex).1
          rw [hidle] at hcopier
          cases hcopier
        · exact fun sim' i' hbegin => by cases hbegin
        · rintro sim' i' hrest
          cases hrest
          refine ⟨snap, ⟨hlast, hfresh, ?_, ?_⟩, ?_⟩
          · intro j hj
            show (s.sessionVariables.modify i _)[j]? = _
            rw [getElem?_modify_of_ne (by omega)]
            exact hbefore j hj
          · intro j hj
            show ((s.sessionVariables.modify i _)[j]?).map _ = _
            rw [getElem?_modify_of_ne (by omega)]
            exact hafter j (by omega)
          · -- the first assignment and the rest are `stageValue`
            show ((s.sessionVariables.modify i _)[i]?).map _ = _
            rw [getElem?_modify_self, Option.map_map]
            exact hafter i (Nat.le_refl i)
        · exact fun hbusy => by cases hbusy
        · intro k hchecking
          exact absurd (by rw [show s.writer = _ from hchecking]; trivial) hunlocked
        · intro k hswapping
          exact absurd (by rw [show s.writer = _ from hswapping]; trivial) hunlocked
      · intro _ v _ p hlike
        exact ⟨hlike.name, hlike.trickType, hlike.units, hlike.attr, hlike.index, hlike.size,
          hlike.buffer⟩
      · exact fun htests => absurd htests (hok hi)
    · -- all variables have been staged
      rename_i hi
      have hall : s.sessionVariables = snap := by
        apply List.ext_getElem?
        intro j
        by_cases hj : j < i
        · exact hbefore j hj
        · have hnone : s.sessionVariables[j]? = none := List.getElem?_eq_none (by omega)
          rw [← hafter j (by omega), hnone]
          rfl
      refine ⟨h.nonempty, h.length, h.staged, ?_,
        h.ofPass, h.order, ?_⟩
      · refine ⟨fun _ => ⟨rfl, hunlocked⟩, Or.inl rfl, ?_, ?_, ?_, h.store.checking,
          h.store.swapping⟩
        · exact fun sim' i' hbegin => by cases hbegin
        · exact fun sim' i' hrest => by cases hrest
        · exact fun _ _ => Or.inl ⟨hall ▸ hlast, hfresh⟩
      · intro hout
        obtain ⟨w, ws, hws, hactive⟩ := h.active hout
        exact ⟨w, ws, hws, hactive.complete, hactive.messages, hactive.reads, hactive.tests⟩
  · rw [hcopier] at hok
    obtain ⟨snap, ⟨hlast, hfresh, hbefore, hafter⟩, hat⟩ := h.store.rest sim i hcopier
    have hunlocked : ¬ Locked s.writer := by
      rcases h.store.exclusive with hidle | hunlocked
      · rw [hidle] at hcopier
        cases hcopier
      · exact hunlocked
    apply h.modify
    · refine ⟨?_, Or.inr hunlocked, ?_, ?_, ?_, ?_, ?_⟩
      · intro hmutex
        have hidle := (h.store.mutex hmutex).1
        rw [hidle] at hcopier
        cases hcopier
      · rintro sim' i' hbegin
        cases hbegin
        refine ⟨snap, hlast, hfresh, ?_, ?_⟩
        · intro j hj
          show (s.sessionVariables.modify i _)[j]? = _
          by_cases hij : i = j
          · subst hij
            rw [getElem?_modify_self]
            exact hat
          · rw [getElem?_modify_of_ne hij]
            exact hbefore j (by omega)
        · intro j hj
          show ((s.sessionVariables.modify i _)[j]?).map _ = _
          rw [getElem?_modify_of_ne (by omega)]
          exact hafter j hj
      · exact fun sim' i' hrest => by cases hrest
      · exact fun hbusy => by cases hbusy
      · intro k hchecking
        exact absurd (by rw [show s.writer = _ from hchecking]; trivial) hunlocked
      · intro k hswapping
        exact absurd (by rw [show s.writer = _ from hswapping]; trivial) hunlocked
    · intro hreads v hv p hlike
      exact stageRest_like (hok hreads v hv) hlike
    · intro _ v _ hready
      exact stageRest_ready.trans hready

/-! ## Check and swap -/

theorem Inv.writeData (h : Inv c s) : Inv c s.writeData := by
  unfold SessionState.writeData
  rcases hwriter : s.writer with _ | _ | _ | _ | _ | _ | _ | _
  case idle =>
    dsimp only
    split
    · exact h
    · rename_i hcall
      have hnonempty : s.sessionVariables ≠ [] := fun hnil => hcall (Or.inl hnil)
      have hmutex : s.copyMutex = false := by
        cases hm : s.copyMutex with
        | true => exact absurd (Or.inr hm) hcall
        | false => rfl
      have hidle := (h.store.mutex hmutex).1
      refine ⟨fun _ => hnonempty, h.length, h.staged, ?_, ?_, h.order, fun hout => hout.elim⟩
      · refine ⟨fun hbusy => (by cases hbusy), Or.inl hidle, h.store.begin, h.store.rest, ?_, ?_, ?_⟩
        · intro _ _
          exact h.store.settled hidle fun i hswap => by rw [hwriter] at hswap; cases hswap
        · rintro i hi j hj
          cases hi
          cases hj
        · exact fun i hswap => by cases hswap
      · exact h.ofPass
  all_goals exact h

/-- One variable has been checked, or one is missing. -/
theorem Inv.check (h : Inv c s) {i : Nat} (hwriter : s.writer = .checking i) (ok : Bool) :
    Inv c (s.writeStep c ok) := by
  have hlocked : Locked s.writer := by
    rw [hwriter]
    trivial
  have hidle : s.copier = .idle := h.store.exclusive.resolve_right fun hn => hn hlocked
  have hsettled : Settled s :=
    h.store.settled hidle fun k hk => by rw [hwriter] at hk; cases hk
  unfold writeStep
  rw [hwriter]
  dsimp only
  rcases hv : s.sessionVariables[i]? with _ | v
  · refine ⟨fun _ => h.nonempty hlocked, h.length, h.staged, ?_,
      h.ofPass, h.order, fun hout => hout.elim⟩
    refine ⟨?_, Or.inl hidle, h.store.begin, h.store.rest, ?_, ?_, ?_⟩
    · exact fun hfree => absurd hlocked (h.store.mutex hfree).2
    · exact fun _ hnot => absurd rfl (hnot 0)
    · exact fun k hk => by cases hk
    · intro k hk
      cases hk
      rcases hsettled with ⟨hlast, hfresh⟩ | hunstaged
      · refine ⟨s.sessionVariables, hlast, hfresh, ?_, fun _ _ => rfl⟩
        exact fun j hj => by cases hj
      · -- all of them are staged, and there is one
        obtain ⟨u, us, hus⟩ := List.exists_cons_of_ne_nil (h.nonempty hlocked)
        have hlength := List.getElem?_eq_none_iff.mp hv
        have hzero : s.sessionVariables[0]? = some u := by
          rw [hus]
          rfl
        have hpos : 0 < i := by
          rw [hus] at hlength
          exact Nat.lt_of_lt_of_le (Nat.succ_pos _) hlength
        have htrue := h.store.checking i hwriter 0 hpos u hzero
        rw [hunstaged u (List.mem_of_getElem? hzero)] at htrue
        cases htrue
  · dsimp only
    split
    · rename_i hstaged
      refine ⟨fun _ => h.nonempty hlocked, h.length, h.staged, ?_,
        h.ofPass, h.order, fun hout => hout.elim⟩
      refine ⟨?_, Or.inl hidle, h.store.begin, h.store.rest, fun _ _ => hsettled, ?_, ?_⟩
      · exact fun hfree => absurd hlocked (h.store.mutex hfree).2
      · rintro k hk j hj u hu
        cases hk
        by_cases hji : j = i
        · subst hji
          rw [hv] at hu
          cases hu
          exact hstaged
        · exact h.store.checking i hwriter j (by omega) u hu
      · exact fun k hk => by cases hk
    · refine ⟨fun hl => hl.elim, h.length, h.staged, ?_,
        h.ofPass, h.order, fun hout => hout.elim⟩
      refine ⟨fun _ => ⟨hidle, id⟩, Or.inl hidle, h.store.begin, h.store.rest, fun _ _ => hsettled,
        ?_, ?_⟩
      · exact fun k hk => by cases hk
      · exact fun k hk => by cases hk

theorem prepareForWrite_staged (h : v.staged = true) :
    v.prepareForWrite.staged = false ∧ v.prepareForWrite.writeReady = true := by
  unfold VariableReference.prepareForWrite
  rw [if_pos h]
  exact ⟨rfl, rfl⟩

/-- One variable has been swapped, or the last one. -/
theorem Inv.swap (h : Inv c s) {i : Nat} (hwriter : s.writer = .swapping i) (ok : Bool) :
    Inv c (s.writeStep c ok) := by
  have hlocked : Locked s.writer := by
    rw [hwriter]
    trivial
  have hidle : s.copier = .idle := h.store.exclusive.resolve_right fun hn => hn hlocked
  obtain ⟨snap, hlast, hfresh, hbefore, hafter⟩ := h.store.swapping i hwriter
  have hmem : snap ∈ s.passes := List.mem_of_getLast? hlast
  unfold writeStep
  rw [hwriter]
  dsimp only
  split
  · rename_i hi
    have hlength : (s.sessionVariables.modify i (·.prepareForWrite)).length =
        s.sessionVariables.length := List.length_modify ..
    refine ⟨fun _ hnil => ?_, ?_, h.staged, ?_,
      h.ofPass, h.order, fun hout => hout.elim⟩
    · apply h.nonempty hlocked
      apply List.eq_nil_of_length_eq_zero
      rw [← hlength]
      exact congrArg List.length hnil
    · exact fun snap hsnap => (h.length snap hsnap).trans hlength.symm
    · refine ⟨?_, Or.inl hidle, ?_, ?_, ?_, ?_, ?_⟩
      · exact fun hfree => absurd hlocked (h.store.mutex hfree).2
      · exact fun sim k hk => by rw [show s.copier = _ from hk] at hidle; cases hidle
      · exact fun sim k hk => by rw [show s.copier = _ from hk] at hidle; cases hidle
      · exact fun _ hnot => absurd rfl (hnot (i + 1))
      · exact fun k hk => by cases hk
      · intro k hk
        cases hk
        refine ⟨snap, hlast, hfresh, ?_, ?_⟩
        · intro j hj
          show (s.sessionVariables.modify i _)[j]? = _
          by_cases hij : i = j
          · subst hij
            rw [getElem?_modify_self, hafter i (Nat.le_refl i)]
          · rw [getElem?_modify_of_ne hij]
            exact hbefore j (by omega)
        · intro j hj
          show (s.sessionVariables.modify i _)[j]? = _
          rw [getElem?_modify_of_ne (by omega)]
          exact hafter j (by omega)
  · rename_i hi
    have hlength := h.length snap hmem
    have hall : s.sessionVariables = snap.map (·.prepareForWrite) := by
      apply List.ext_getElem?
      intro j
      rw [List.getElem?_map]
      by_cases hj : j < i
      · exact hbefore j hj
      · have hnone : snap[j]? = none := List.getElem?_eq_none (by omega)
        rw [hafter j (by omega), hnone]
        rfl
    have hpass : s.passes.getD (s.passes.length - 1) [] = snap := by
      rw [List.getLast?_eq_getElem?] at hlast
      rw [List.getD_eq_getElem?_getD, hlast]
      rfl
    have hpos : 0 < s.passes.length := List.length_pos_of_mem hmem
    have hprepared : ∀ v ∈ s.sessionVariables, v.staged = false ∧ v.writeReady = true := by
      intro v hv
      rw [hall] at hv
      obtain ⟨u, hu, rfl⟩ := List.mem_map.mp hv
      exact prepareForWrite_staged (h.staged snap hmem u hu)
    have hsnap : snapshot s.passes { pass := s.passes.length - 1 } = s.sessionVariables := by
      unfold snapshot
      rw [hpass, hall]
    refine ⟨fun hl => ?_, h.length, h.staged, ?_, ?_, ?_, ?_⟩
    · -- the mutex has been given back
      exact absurd hl swapped_unlocked
    · have hout : Outside (swapped c) := swapped_outside
      refine ⟨fun _ => ⟨hidle, ?_⟩, Or.inl hidle, ?_, ?_, ?_, ?_, ?_⟩
      · intro hl
        exact swapped_unlocked hl
      · exact fun sim k hk => by rw [show s.copier = _ from hk] at hidle; cases hidle
      · exact fun sim k hk => by rw [show s.copier = _ from hk] at hidle; cases hidle
      · exact fun _ _ => Or.inr fun v hv => (hprepared v hv).1
      · intro k hk
        change swapped c = _ at hk
        rw [hk] at hout
        exact hout.elim
      · intro k hk
        change swapped c = _ at hk
        rw [hk] at hout
        exact hout.elim
    · intro w hw
      rcases List.mem_cons.mp hw with rfl | hw
      · refine ⟨?_, List.nil_prefix, fun hcomplete => (by cases hcomplete), ?_, ?_⟩
        · show s.passes.length - 1 < s.passes.length
          omega
        · rw [hsnap]
          intro v hv
          rw [writeValueAscii_eq, if_pos (hprepared v hv).2]
          exact fun hnone => by cases hnone
        · exact fun m hm => by cases hm
      · exact h.ofPass w hw
    · refine List.Pairwise.cons ?_ h.order
      intro w hw
      have hw := hfresh w hw
      show w.pass < s.passes.length - 1
      omega
    · intro _
      refine ⟨{ pass := s.passes.length - 1 }, s.writes, rfl, rfl, ?_, ?_, ?_⟩
      · rw [hsnap]
        exact remaining_swapped _
      · intro j _ v hv p hp
        rw [hsnap] at hp
        have heq : v = p := Option.some.inj (hv.symm.trans hp)
        rw [heq]
        exact WritesLike.refl p
      · exact fun j _ v hv => (hprepared v (List.mem_of_getElem? hv)).2

/-! ## Writing -/

/-- The write goes on: it sends some of what remained, and the rest remains, or it ends. -/
theorem Inv.advance (h : Inv c s) (hout : Outside s.writer) {w : Write} {ws : List Write}
    (hws : s.writes = w :: ws) (hactive : Active c s w) (pc : WritePc) (hpc : Outside pc ∨ pc = .idle)
    (sent rest : List Message) (complete : Bool)
    (hremaining : remaining c (snapshot s.passes w) s.writer = sent ++ rest)
    (hcomplete : complete = true → rest = [])
    (hnext : Outside pc → complete = false ∧ remaining c (snapshot s.passes w) pc = rest ∧
      ∀ j, (Reads pc j → Reads s.writer j) ∧ (Tests pc j → Tests s.writer j)) :
    Inv c { s with
      writer := pc
      writes := { w with
        messages := w.messages ++ sent
        complete := complete } :: ws } := by
  have hall : (w.messages ++ sent) ++ rest = c.messages (snapshot s.passes w) := by
    rw [List.append_assoc, ← hremaining]
    exact hactive.messages
  have hsent : w.messages ++ sent <+: c.messages (snapshot s.passes w) :=
    hall ▸ List.prefix_append _ _
  have hunlocked : ¬ Locked pc := by
    intro hlocked
    rcases hpc with hpc | rfl
    · cases pc with
      | checking i => exact hpc
      | swapping i => exact hpc
      | _ => exact hlocked
    · exact hlocked
  have hw := h.ofPass w (hws ▸ List.mem_cons_self)
  refine ⟨fun hlocked => absurd hlocked hunlocked, h.length, h.staged, ?_, ?_, ?_, ?_⟩
  · refine ⟨fun hfree => ⟨(h.store.mutex hfree).1, hunlocked⟩, Or.inr hunlocked, ?_, ?_, ?_, ?_, ?_⟩
    · intro sim i hbegin
      obtain ⟨snap, hlast, hfresh, hstaged⟩ := h.store.begin sim i hbegin
      exact ⟨snap, hlast, fresh_cons hws hfresh, hstaged⟩
    · intro sim i hrest
      obtain ⟨snap, ⟨hlast, hfresh, hstaged⟩, hat⟩ := h.store.rest sim i hrest
      exact ⟨snap, ⟨hlast, fresh_cons hws hfresh, hstaged⟩, hat⟩
    · intro hidle _
      have hnot : ∀ i, s.writer ≠ .swapping i := by
        intro i hi
        rw [hi] at hout
        exact hout
      rcases h.store.settled hidle hnot with ⟨hlast, hfresh⟩ | hunstaged
      · exact Or.inl ⟨hlast, fresh_cons hws hfresh⟩
      · exact Or.inr hunstaged
    · intro i hi
      exact absurd (by rw [show pc = _ from hi]; trivial) hunlocked
    · intro i hi
      exact absurd (by rw [show pc = _ from hi]; trivial) hunlocked
  · intro u hu
    rcases List.mem_cons.mp hu with rfl | hu
    · refine ⟨hw.pass, hsent, ?_, hw.ready, ?_⟩
      · intro hdone
        rw [hcomplete hdone, List.append_nil] at hall
        exact hall
      · exact fun m hm => headerOk_messages _ m (hsent.subset hm)
    · exact h.ofPass u (hws ▸ List.mem_cons_of_mem w hu)
  · have horder := h.order
    rw [hws] at horder
    obtain ⟨hfirst, hrest⟩ := List.pairwise_cons.mp horder
    exact List.Pairwise.cons hfirst hrest
  · intro hgoes
    obtain ⟨hincomplete, hrest, hmono⟩ := hnext hgoes
    refine ⟨_, ws, rfl, hincomplete, ?_, ?_, ?_⟩
    · exact (congrArg ((w.messages ++ sent) ++ ·) hrest).trans hall
    · exact fun j hj => hactive.reads j ((hmono j).1 hj)
    · exact fun j hj => hactive.tests j ((hmono j).2 hj)

/-- The write goes on without sending anything. -/
theorem Inv.goOn (h : Inv c s) (hout : Outside s.writer) {w : Write} {ws : List Write}
    (hws : s.writes = w :: ws) (hactive : Active c s w) (pc : WritePc) (hpc : Outside pc ∨ pc = .idle)
    (hremaining : Outside pc →
      remaining c (snapshot s.passes w) pc = remaining c (snapshot s.passes w) s.writer)
    (hmono : ∀ j, (Reads pc j → Reads s.writer j) ∧ (Tests pc j → Tests s.writer j)) :
    Inv c { s with writer := pc } := by
  have hsame : { w with messages := w.messages ++ [], complete := false } = w := by
    rw [List.append_nil, ← hactive.complete]
  have hgo := h.advance hout hws hactive pc hpc [] (remaining c (snapshot s.passes w) s.writer) false
    rfl nofun fun hgoes => ⟨rfl, hremaining hgoes, hmono⟩
  rw [hsame, ← hws] at hgo
  exact hgo

/-- The copy of a write has staged as many variables as there are. -/
theorem Inv.length_snapshot (h : Inv c s) {w : Write} (hw : w ∈ s.writes) :
    (snapshot s.passes w).length = s.sessionVariables.length := by
  have hpass := (h.ofPass w hw).pass
  unfold snapshot
  rw [List.length_map, List.getD_eq_getElem _ _ hpass]
  exact h.length _ (List.getElem_mem hpass)

/-- The variable that the copy of a write has staged. -/
theorem Inv.partner (h : Inv c s) {w : Write} {ws : List Write} (hws : s.writes = w :: ws)
    (hactive : Active c s w) {i : Nat} {v : VariableReference} (hv : s.sessionVariables[i]? = some v)
    (hreads : Reads s.writer i) : ∃ q, (snapshot s.passes w)[i]? = some q ∧ WritesLike v q := by
  have hlength := h.length_snapshot (hws ▸ List.mem_cons_self)
  have hi := (List.getElem?_eq_some_iff.mp hv).1
  obtain ⟨q, hq⟩ : ∃ q, (snapshot s.passes w)[i]? = some q :=
    ⟨_, List.getElem?_eq_getElem (by omega)⟩
  exact ⟨q, hq, hactive.reads i hreads v hv q hq⟩

theorem Inv.no_partner (h : Inv c s) {w : Write} {ws : List Write} (hws : s.writes = w :: ws) {i : Nat}
    (hv : s.sessionVariables[i]? = none) : (snapshot s.passes w)[i]? = none := by
  have hlength := h.length_snapshot (hws ▸ List.mem_cons_self)
  rw [List.getElem?_eq_none_iff] at hv ⊢
  omega

/-- One size has been computed, or all. -/
theorem Inv.size (h : Inv c s) {i : Nat} {p : Packing Nat} (hwriter : s.writer = .sizing i p) (ok : Bool) :
    Inv c (s.writeStep c ok) := by
  have hout : Outside s.writer := by
    rw [hwriter]
    trivial
  obtain ⟨w, ws, hws, hactive⟩ := h.active hout
  have hlength := h.length_snapshot (hws ▸ List.mem_cons_self)
  unfold writeStep
  rw [hwriter]
  dsimp only
  rcases hv : s.sessionVariables[i]? with _ | v
  · have hend := List.getElem?_eq_none_iff.mp hv
    have hnone : (snapshot s.passes w).length - i = 0 := by omega
    obtain ⟨b, more, hfinish⟩ : ∃ b more, p.finish = b :: more := by
      apply List.exists_cons_of_ne_nil
      exact List.append_ne_nil_of_right_ne_nil _ (List.cons_ne_nil _ _)
    show Inv c (s.nextPacket c p.finish)
    rw [hfinish]
    apply h.goOn hout hws hactive (.writing (c.newPacket b.1 b.2) b.2 more) (Or.inl trivial)
    · intro _
      rw [hwriter]
      show _ = (p.addAll _ _ _ (List.range' i ((snapshot s.passes w).length - i))).finish.map _
      rw [hnone]
      show _ = p.finish.map _
      rw [hfinish]
      rfl
    · intro j
      rw [hwriter]
      refine ⟨fun hj => Or.inr ?_, fun hj => hj.elim⟩
      rw [← Packing.items_finish, hfinish, List.flatMap_cons]
      exact List.mem_append.mpr hj
  · have hi : i < s.sessionVariables.length := (List.getElem?_eq_some_iff.mp hv).1
    obtain ⟨q, hq, hlike⟩ := h.partner hws hactive hv (hwriter ▸ Or.inl (Nat.le_refl i))
    apply h.goOn hout hws hactive (.sizing (i + 1) _) (Or.inl trivial)
    · intro _
      rw [hwriter]
      show (Packing.addAll _ _ _ _ (List.range' (i + 1) ((snapshot s.passes w).length - (i + 1)))).finish.map
        _ = (p.addAll _ _ _ (List.range' i ((snapshot s.passes w).length - i))).finish.map _
      have hsize : c.sizeAt (snapshot s.passes w) i = c.varSize v := by
        unfold WriteSettings.sizeAt
        rw [hq, hlike.varSize]
        rfl
      have hcount : (snapshot s.passes w).length - i = (snapshot s.passes w).length - (i + 1) + 1 := by
        omega
      rw [hcount, List.range'_succ, ← hsize]
      rfl
    · intro j
      rw [hwriter]
      refine ⟨?_, fun hj => hj.elim⟩
      rintro (hj | hj)
      · exact Or.inl (Nat.le_of_succ_le hj)
      · rw [Packing.items_add] at hj
        split at hj
        · exact Or.inr hj
        · rcases List.mem_append.mp hj with hj | hj
          · exact Or.inr hj
          · rw [List.mem_singleton.mp hj]
            exact Or.inl (Nat.le_refl i)

/-- The next packet after one has been sent. -/
theorem Inv.nextPacket (h : Inv c s) {p : Packet} {more : List (Nat × List Nat)}
    (hwriter : s.writer = .writing p [] more) : Inv c ((s.send (.binary p)).nextPacket c more) := by
  have hout : Outside s.writer := by
    rw [hwriter]
    trivial
  obtain ⟨w, ws, hws, hactive⟩ := h.active hout
  have hremaining : remaining c (snapshot s.passes w) s.writer =
      .binary p :: more.map (c.packet (snapshot s.passes w)) := by
    rw [hwriter]
    show Message.binary { p with parts := p.parts ++ [] } :: _ = _
    rw [List.append_nil]
  unfold send
  rw [hws]
  cases more with
  | nil =>
    exact h.advance hout hws hactive .idle (Or.inr rfl) [.binary p] [] true hremaining (fun _ => rfl)
      fun hgoes => hgoes.elim
  | cons b more =>
    apply h.advance hout hws hactive (.writing (c.newPacket b.1 b.2) b.2 more) (Or.inl trivial)
      [.binary p] _ w.complete hremaining
    · rw [hactive.complete]
      exact nofun
    · refine fun _ => ⟨hactive.complete, rfl, fun j => ⟨fun hj => ?_, fun hj => hj.elim⟩⟩
      rw [hwriter]
      refine Or.inr ?_
      rw [List.flatMap_cons]
      exact List.mem_append.mpr hj

/-- One part has been begun, or a packet is sent. -/
theorem Inv.write (h : Inv c s) {p : Packet} {vars : List Nat} {more : List (Nat × List Nat)}
    (hwriter : s.writer = .writing p vars more) (ok : Bool) : Inv c (s.writeStep c ok) := by
  have hout : Outside s.writer := by
    rw [hwriter]
    trivial
  obtain ⟨w, ws, hws, hactive⟩ := h.active hout
  unfold writeStep
  rw [hwriter]
  cases vars with
  | nil => exact h.nextPacket hwriter
  | cons i vars =>
    dsimp only
    rcases hv : s.sessionVariables[i]? with _ | v
    · have hnone := h.no_partner hws hv
      apply h.goOn hout hws hactive (.writing p vars more) (Or.inl trivial)
      · intro _
        rw [hwriter]
        show _ = Message.binary { p with parts := p.parts ++ partsOf c _ (i :: vars) } :: _
        rw [partsOf_cons, hnone]
        rfl
      · intro j
        rw [hwriter]
        refine ⟨?_, id⟩
        rintro (hj | hj)
        · exact Or.inl (List.mem_cons_of_mem i hj)
        · exact Or.inr hj
    · obtain ⟨q, hq, hlike⟩ := h.partner hws hactive hv (hwriter ▸ Or.inl List.mem_cons_self)
      apply h.goOn hout hws hactive (.value p (c.partHead v) i vars more) (Or.inl trivial)
      · intro _
        rw [hwriter, hlike.partHead]
        show Message.binary { p with
            parts := p.parts ++ (((snapshot s.passes w)[i]?.map _).toList ++ partsOf c _ vars) } :: _ =
          Message.binary { p with parts := p.parts ++ partsOf c _ (i :: vars) } :: _
        rw [partsOf_cons, hq]
        rfl
      · intro j
        rw [hwriter]
        refine ⟨?_, id⟩
        rintro (hj | hj | hj)
        · rw [hj]
          exact Or.inl List.mem_cons_self
        · exact Or.inl (List.mem_cons_of_mem i hj)
        · exact Or.inr hj

/-- One value has been written. -/
theorem Inv.value (h : Inv c s) {p : Packet} {head : List UInt8} {i : Nat} {vars : List Nat}
    {more : List (Nat × List Nat)} (hwriter : s.writer = .value p head i vars more) (ok : Bool) :
    Inv c (s.writeStep c ok) := by
  have hout : Outside s.writer := by
    rw [hwriter]
    trivial
  obtain ⟨w, ws, hws, hactive⟩ := h.active hout
  unfold writeStep
  rw [hwriter]
  dsimp only
  rcases hv : s.sessionVariables[i]? with _ | v
  · have hnone := h.no_partner hws hv
    apply h.goOn hout hws hactive (.writing p vars more) (Or.inl trivial)
    · intro _
      rw [hwriter]
      show _ = Message.binary { p with
        parts := p.parts ++ (((snapshot s.passes w)[i]?.map _).toList ++ partsOf c _ vars) } :: _
      rw [hnone]
      rfl
    · intro j
      rw [hwriter]
      exact ⟨Or.inr, id⟩
  · obtain ⟨q, hq, hlike⟩ := h.partner hws hactive hv (hwriter ▸ Or.inl rfl)
    apply h.goOn hout hws hactive (.writing _ vars more) (Or.inl trivial)
    · intro _
      rw [hwriter, hlike.part]
      show Message.binary { p with parts := (p.parts ++ [c.part head q]) ++ partsOf c _ vars } :: _ =
        Message.binary { p with
          parts := p.parts ++ (((snapshot s.passes w)[i]?.map _).toList ++ partsOf c _ vars) } :: _
      rw [hq, List.append_assoc]
      rfl
    · intro j
      rw [hwriter]
      exact ⟨Or.inr, id⟩

/-- The text of one variable is appended. -/
theorem Inv.append (h : Inv c s) {i : Nat} {a : WriteSettings.AsciiStream}
    (hwriter : s.writer = .rendering i a) {v : VariableReference}
    (hv : s.sessionVariables[i]? = some v) (ok : Bool) : Inv c (s.append ok i a (c.text v)) := by
  have hout : Outside s.writer := by
    rw [hwriter]
    trivial
  obtain ⟨w, ws, hws, hactive⟩ := h.active hout
  obtain ⟨q, hq, hlike⟩ := h.partner hws hactive hv (hwriter ▸ Nat.le_refl i)
  have hremaining : remaining c (snapshot s.passes w) s.writer = (a.append (c.text v)).1.toList ++
      remaining c (snapshot s.passes w) (.testing (i + 1) (a.append (c.text v)).2) := by
    obtain ⟨hi, hget⟩ := List.getElem?_eq_some_iff.mp hq
    rw [hwriter]
    show WriteSettings.asciiMessages a (((snapshot s.passes w).drop i).map c.text) = _
    rw [List.drop_eq_getElem_cons hi, List.map_cons, WriteSettings.asciiMessages, hget, ← hlike.text]
    rfl
  have hmono : ∀ b j, (Reads (.testing (i + 1) b) j → Reads s.writer j) ∧
      (Tests (.testing (i + 1) b) j → Tests s.writer j) := by
    intro b j
    rw [hwriter]
    exact ⟨fun hj => Nat.le_of_succ_le hj, fun hj => hj⟩
  unfold SessionState.append
  rcases happend : a.append (c.text v) with ⟨_ | m, b⟩
  · rw [happend] at hremaining
    exact h.goOn hout hws hactive _ (Or.inl trivial) (fun _ => hremaining.symm) (hmono b)
  · rw [happend] at hremaining
    dsimp only
    split
    · unfold send
      rw [hws]
      apply h.advance hout hws hactive (.testing (i + 1) b) (Or.inl trivial) [m] _ w.complete hremaining
      · rw [hactive.complete]
        exact nofun
      · exact fun _ => ⟨hactive.complete, rfl, hmono b⟩
    · exact h.goOn hout hws hactive .idle (Or.inr rfl) (fun hgoes => hgoes.elim)
        fun j => ⟨fun hj => hj.elim, fun hj => hj.elim⟩

/-- One variable has been tested, or the last text is sent. -/
theorem Inv.test (h : Inv c s) {i : Nat} {a : WriteSettings.AsciiStream}
    (hwriter : s.writer = .testing i a) (ok : Bool) : Inv c (s.writeStep c ok) := by
  have hout : Outside s.writer := by
    rw [hwriter]
    trivial
  obtain ⟨w, ws, hws, hactive⟩ := h.active hout
  unfold writeStep
  rw [hwriter]
  dsimp only
  rcases hv : s.sessionVariables[i]? with _ | v
  · dsimp only
    split
    · have hend := List.getElem?_eq_none_iff.mp (h.no_partner hws hv)
      unfold send finish
      rw [hws]
      apply h.advance hout hws hactive .idle (Or.inr rfl) [.ascii (a.text ++ "\n")] [] true
      · rw [hwriter]
        show WriteSettings.asciiMessages a (((snapshot s.passes w).drop i).map c.text) = _
        rw [List.drop_eq_nil_of_le hend]
        rfl
      · exact fun _ => rfl
      · exact fun hgoes => hgoes.elim
    · exact h.goOn hout hws hactive .idle (Or.inr rfl) (fun hgoes => hgoes.elim)
        fun j => ⟨fun hj => hj.elim, fun hj => hj.elim⟩
  · have hready := hactive.tests i (hwriter ▸ Nat.le_refl i) v hv
    dsimp only
    rw [if_pos hready]
    apply h.goOn hout hws hactive (.rendering i a) (Or.inl trivial)
    · intro _
      rw [hwriter]
      rfl
    · intro j
      rw [hwriter]
      exact ⟨id, fun hj => Nat.le_of_lt hj⟩

/-- **A step of the writer.** -/
theorem Inv.writeStep (h : Inv c s) (ok : Bool) : Inv c (s.writeStep c ok) := by
  rcases hwriter : s.writer with _ | i | i | ⟨i, p⟩ | ⟨p, vars, more⟩ | ⟨p, head, i, vars, more⟩ |
    ⟨i, a⟩ | ⟨i, a⟩
  · unfold SessionState.writeStep
    rw [hwriter]
    exact h
  · exact h.check hwriter ok
  · exact h.swap hwriter ok
  · exact h.size hwriter ok
  · exact h.write hwriter ok
  · exact h.value hwriter ok
  · exact h.test hwriter ok
  · have hout : Outside s.writer := by
      rw [hwriter]
      trivial
    obtain ⟨w, ws, hws, hactive⟩ := h.active hout
    unfold SessionState.writeStep
    rw [hwriter]
    dsimp only
    rcases hv : s.sessionVariables[i]? with _ | v
    · exact h.goOn hout hws hactive .idle (Or.inr rfl) (fun hgoes => hgoes.elim)
        fun j => ⟨fun hj => hj.elim, fun hj => hj.elim⟩
    · exact h.append hwriter hv ok

/-- **Step lemma.** -/
theorem Inv.step (h : Inv c s) {e : SessionEvent} (hok : EventOk s e) : Inv c (s.step c e) := by
  cases e with
  | copySimData sim => exact h.copySimData sim
  | copyStep => exact h.copyStep hok
  | writeData => exact h.writeData
  | writeStep ok => exact h.writeStep ok

/-- A session that sends texts, or packets. -/
def settings (binaryData : Bool) : WriteSettings where
  binaryData := binaryData
  byteswap := false
  binaryDataNonames := false
  messageType := 0
  fmt := VariableReference.decimal

end SessionState

end Trick.VarServer
