/-
  The names of the allocations that stand for STL containers in a checkpoint.

  Data:           the STL members of the objects that are written, each with its object's path, and the variables of
                  the user; a container has items, or containers of its own.
  Program:        the two encodings of a name, `checkpointStl` with the allocations it declares, and the name that
                  the restoring function looks up.
  Specification:  `NamesNeverClash`: no two containers have the same name, and the name under which a container that
                  was written empty is looked up is that of no variable.
  Result:         `namesNeverClash_iff`: so it is exactly if no two containers, and no container that is looked up
                  and no variable, are spelled with the same letters and digits and with the same weight of marks
                  between them; an underscore weighs two, and one in the legacy names and in those of the user.
                  `nodup_names_of_plain`: no two containers have the same name if no identifier but the first begins
                  with an underscore.
-/
import Trick.Lib.Spacing

namespace Trick.CheckpointStl

open Trick.Lib

/-! ## The names -/

/-- A name, or a part of one. -/
abbrev Name := List Char

/-- **`std::ispunct`** -/
def ispunct (c : Char) : Bool := decide (33 ≤ c.toNat) && decide (c.toNat ≤ 126) && !c.isAlphanum

/-- **`checkpoint_stl_name_encode`** -/
def checkpointStlNameEncode (name : Name) : Name :=
  name.flatMap fun character =>
    if character = '_' then ['_', '_'] else if ispunct character then ['_'] else [character]

/-- **`checkpoint_stl_name_encode_legacy`** -/
def checkpointStlNameEncodeLegacy (name : Name) : Name :=
  name.map fun character => if ispunct character then '_' else character

/-- `object_name + "_" + var_name` -/
def baseName (objectName varName : Name) : Name := objectName ++ '_' :: varName

/-- **`checkpoint_stl_allocation_exists`**, with the names of the variables that `TMM_var_exists` knows. -/
def checkpointStlAllocationExists (vars : List Name) (objectName varName : Name) : Prop :=
  baseName objectName varName ∈ vars ∨ baseName objectName varName ++ "_keys".toList ∈ vars ∨
    baseName objectName varName ++ "_first".toList ∈ vars

instance (vars : List Name) (objectName varName : Name) :
    Decidable (checkpointStlAllocationExists vars objectName varName) :=
  inferInstanceAs (Decidable (_ ∨ _ ∨ _))

/-! ## The containers -/

/-- **A sequence**, of items or of sequences. -/
inductive Stl where
  | items (size : Nat)
  | nested (subs : List Stl)

/-- `cont_size = in_stl.size()`, an `unsigned int` -/
def Stl.contSize : Stl → Nat
  | .items size => size % 2 ^ 32
  | .nested subs => subs.length % 2 ^ 32

/-- What becomes of a container; `declared` is whether `TMM_declare_var_s` has been called and has a result. -/
structure Allocation where
  name : Name
  contSize : Nat
  declared : Bool
  deriving DecidableEq

/-- "if ( cont_size > 0 )" and `TMM_declare_var_s`, which fails where there is a variable of the name. -/
def declareVar (vars : List Name) (name : Name) (contSize : Nat) : Allocation :=
  ⟨name, contSize, decide (0 < contSize ∧ name ∉ vars)⟩

/-- The variables that have been declared. -/
def declaredNames (allocations : List Allocation) : List Name :=
  (allocations.filter Allocation.declared).map Allocation.name

/-- `%d` -/
def decimal (n : Nat) : Name := Nat.toDigits 10 n

/-- `index_string << ii`, of an `unsigned int` -/
def indexString (ii : Nat) : Name := decimal (ii % 2 ^ 32)

mutual

/-- **`checkpoint_stl`**, which is `checkpoint_sequence_i` or `checkpoint_sequence_s`: the allocations, one for each
    call, where there are the given variables already. -/
def checkpointStl : Stl → Name → Name → List Name → List Allocation
  | .items size, objectName, varName, vars =>
    [declareVar vars (baseName objectName varName) (size % 2 ^ 32)]
  | .nested subs, objectName, varName, vars =>
    let items := declareVar vars (baseName objectName varName) (subs.length % 2 ^ 32)
    -- "if ( items )"
    items :: if items.declared then checkpointSubs subs 0 items.name (vars ++ [items.name]) else []

/-- The loop of `checkpoint_sequence_s`, from the element number `ii` on. -/
def checkpointSubs : List Stl → Nat → Name → List Name → List Allocation
  | [], _, _, _ => []
  | stl :: rest, ii, objectName, vars =>
    let allocations := checkpointStl stl objectName (indexString ii) vars
    allocations ++ checkpointSubs rest (ii + 1) objectName (vars ++ declaredNames allocations)

end

/-! ## The members -/

/-- A letter or an underscore. -/
def identifierStart (c : Char) : Bool := c.isAlpha || c = '_' || decide (128 ≤ c.toNat)

/-- A letter, a digit or an underscore. -/
def identifierChar (c : Char) : Bool := identifierStart c || c.isDigit

/-- **An identifier** of C++. -/
structure Identifier where
  chars : List Char
  nonempty : chars ≠ []
  start : chars.head?.all identifierStart = true
  rest : chars.all identifierChar = true
  deriving DecidableEq

/-- What is appended to a path. -/
inductive PathStep where
  | field (name : Identifier)
  | index (ii : Nat)
  deriving DecidableEq

/-- **An object path**. -/
structure ObjectPath where
  base : Identifier
  steps : List PathStep
  deriving DecidableEq

/-- `name + "." + attr[ii].name`, `name + index` -/
def PathStep.text : PathStep → Name
  | .field name => '.' :: name.chars
  | .index ii => '[' :: decimal ii ++ [']']

def ObjectPath.text (path : ObjectPath) : Name := path.base.chars ++ path.steps.flatMap PathStep.text

/-- **An STL member** of an object. -/
structure StlMember where
  objName : ObjectPath
  varName : Identifier
  stl : Stl

/-- **A checkpoint**: the STL members that are written, and the variables that the user has declared. -/
structure Checkpoint where
  members : List StlMember
  userVariables : List Identifier
  distinct : (members.map fun m => (m.objName, m.varName)).Nodup

/-- The function that is generated for a member: `checkpoint_stl(*stl, checkpoint_stl_name_encode(obj_name), …)`. -/
def StlMember.checkpointStl (m : StlMember) (vars : List Name) : List Allocation :=
  CheckpointStl.checkpointStl m.stl (checkpointStlNameEncode m.objName.text)
    (checkpointStlNameEncode m.varName.chars) vars

/-- The members one by one. -/
def checkpointMembers : List StlMember → List Name → List Allocation
  | [], _ => []
  | m :: members, vars =>
    let allocations := m.checkpointStl vars
    allocations ++ checkpointMembers members (vars ++ declaredNames allocations)

def Checkpoint.userNames (c : Checkpoint) : List Name := c.userVariables.map Identifier.chars

/-- **The allocations** of a checkpoint. -/
def Checkpoint.allocations (c : Checkpoint) : List Allocation := checkpointMembers c.members c.userNames

/-- **The variables** that are written. -/
def Checkpoint.variableNames (c : Checkpoint) : List Name := c.userNames ++ declaredNames c.allocations

/-- There is an allocation for a member. -/
def StlMember.Exists (vars : List Name) (m : StlMember) : Prop :=
  checkpointStlAllocationExists vars (checkpointStlNameEncode m.objName.text)
    (checkpointStlNameEncode m.varName.chars)

instance (vars : List Name) (m : StlMember) : Decidable (m.Exists vars) :=
  inferInstanceAs (Decidable (checkpointStlAllocationExists _ _ _))

/-- **The name that is looked up** by the function that is generated to restore a member. -/
def StlMember.restoreStl (vars : List Name) (m : StlMember) : Name :=
  if m.Exists vars then
    baseName (checkpointStlNameEncode m.objName.text) (checkpointStlNameEncode m.varName.chars)
  else
    baseName (checkpointStlNameEncodeLegacy m.objName.text) (checkpointStlNameEncodeLegacy m.varName.chars)

/-! ## What is wanted -/

/-- **Names never clash**: containers have names of their own, and where the reader falls back to the legacy name of
    a container that was written empty, that is the name of no variable. -/
structure NamesNeverClash (c : Checkpoint) : Prop where
  distinct : (c.allocations.map Allocation.name).Nodup
  legacy : ∀ m ∈ c.members, m.stl.contSize = 0 → ¬ m.Exists c.variableNames → m.restoreStl c.variableNames ∉ c.variableNames

/-! ## The containers by their places -/

/-- **A container** of a member, by its indices. -/
structure Reference where
  objName : ObjectPath
  varName : Identifier
  indices : List Nat
  deriving DecidableEq

/-- How a container is spelled, with a dot for each level. -/
def Reference.text (r : Reference) : Name :=
  r.objName.text ++ '.' :: r.varName.chars ++ r.indices.flatMap fun ii => '.' :: indexString ii

/-- `encode(path) + '_' + encode(member) + indices` -/
def Reference.name (r : Reference) : Name :=
  baseName (checkpointStlNameEncode r.objName.text) (checkpointStlNameEncode r.varName.chars) ++
    r.indices.flatMap fun ii => '_' :: indexString ii

mutual

/-- **The containers of a sequence** with their sizes: those in a sequence that has no allocation are not come to. -/
def Stl.places : Stl → (List Nat → Bool) → List (List Nat × Nat)
  | .items size, _ => [([], size % 2 ^ 32)]
  | .nested subs, taken =>
    ([], subs.length % 2 ^ 32) :: if 0 < subs.length % 2 ^ 32 ∧ taken [] = false then subPlaces subs 0 taken else []

/-- The containers of the elements from the number `ii` on. -/
def subPlaces : List Stl → Nat → (List Nat → Bool) → List (List Nat × Nat)
  | [], _, _ => []
  | stl :: rest, ii, taken =>
    ((stl.places fun indices => taken (ii :: indices)).map fun p => (ii :: p.1, p.2)) ++ subPlaces rest (ii + 1) taken

end

/-- An underscore weighs two. -/
def weight (c : Char) : Nat := if c = '_' then 2 else 1

/-- **The spelling** of a text: its letters and digits, with the weight of the marks between them. -/
def spelling (text : Name) : Nat × List (Char × Nat) := spacing ispunct weight text

/-- The spelling where every mark weighs one. -/
def legacySpelling (text : Name) : Nat × List (Char × Nat) := spacing ispunct (fun _ => 1) text

/-- The variable that the user has declared is spelled like a container. -/
def Checkpoint.taken (c : Checkpoint) (r : Reference) : Bool :=
  c.userVariables.any fun u => legacySpelling u.chars = spelling r.text

/-- The containers of a member, with their sizes. -/
def Checkpoint.memberPlaces (c : Checkpoint) (m : StlMember) : List (Reference × Nat) :=
  (m.stl.places fun indices => c.taken ⟨m.objName, m.varName, indices⟩).map fun p => (⟨m.objName, m.varName, p.1⟩, p.2)

/-- **The containers of a checkpoint**. -/
def Checkpoint.places (c : Checkpoint) : List (Reference × Nat) := c.members.flatMap c.memberPlaces

/-- The spellings of the variables that are written. -/
def Checkpoint.spellings (c : Checkpoint) : List (Nat × List (Char × Nat)) :=
  c.userVariables.map (fun u => legacySpelling u.chars) ++
    (c.places.filter fun p => 0 < p.2 ∧ c.taken p.1 = false).map fun p => spelling p.1.text

def StlMember.text (m : StlMember) : Name := m.objName.text ++ '.' :: m.varName.chars

/-- **The names are well spelled**: containers are spelled differently, and where an empty container is not spelled
    like a variable, its legacy spelling is not that of a variable. -/
structure Checkpoint.WellSpelled (c : Checkpoint) : Prop where
  containers : ∀ p ∈ c.places, ∀ q ∈ c.places, p.1 ≠ q.1 → spelling p.1.text ≠ spelling q.1.text
  fallback : ∀ m ∈ c.members, m.stl.contSize = 0 → spelling m.text ∉ c.spellings →
    spelling (m.text ++ ".keys".toList) ∉ c.spellings → spelling (m.text ++ ".first".toList) ∉ c.spellings →
    legacySpelling m.text ∉ c.spellings

/-! ## Names are blurred texts -/

theorem checkpointStlNameEncode_eq (name : Name) : checkpointStlNameEncode name = blur ispunct '_' weight name := by
  unfold checkpointStlNameEncode blur
  congr 1
  funext character
  by_cases hunderscore : character = '_'
  · subst hunderscore
    rfl
  · simp only [weight, hunderscore, if_false, List.replicate_one]

theorem checkpointStlNameEncodeLegacy_eq (name : Name) :
    checkpointStlNameEncodeLegacy name = blur ispunct '_' (fun _ => 1) name := by
  induction name with
  | nil => rfl
  | cons character name ih =>
    have hcons : checkpointStlNameEncodeLegacy (character :: name) =
        (if ispunct character then '_' else character) :: checkpointStlNameEncodeLegacy name := rfl
    rw [hcons, ih, blur_cons]
    by_cases hmark : ispunct character = true
    · rw [if_pos hmark, if_pos hmark]
      rfl
    · rw [if_neg hmark, if_neg hmark]
      rfl

theorem isDigit_of_mem_decimal {n : Nat} {c : Char} (h : c ∈ decimal n) : c.isDigit = true :=
  Nat.isDigit_of_mem_toDigits (by decide) (by decide) h

/-- There are no marks in a number. -/
theorem ispunct_of_mem_decimal {n : Nat} {c : Char} (h : c ∈ decimal n) : ispunct c = false := by
  have hdigit := isDigit_of_mem_decimal h
  simp only [ispunct, Char.isAlphanum, hdigit, Bool.or_true, Bool.not_true, Bool.and_false]

theorem blur_indexString (w : Char → Nat) (ii : Nat) : blur ispunct '_' w (indexString ii) = indexString ii :=
  blur_of_no_mark w fun _ hc => ispunct_of_mem_decimal hc

/-- **The name of a container** is its text blurred. -/
theorem Reference.name_eq (r : Reference) : r.name = blur ispunct '_' weight r.text := by
  have hindices : (blur ispunct '_' weight (r.indices.flatMap fun ii => '.' :: indexString ii)) =
      r.indices.flatMap fun ii => '_' :: indexString ii := by
    rw [blur_flatMap]
    congr 1
    funext ii
    rw [blur_cons, blur_indexString]
    rfl
  rw [Reference.name, Reference.text, baseName, checkpointStlNameEncode_eq, checkpointStlNameEncode_eq, blur_append,
    blur_append, blur_cons, hindices]
  rfl

/-- The only mark in an identifier is the underscore. -/
theorem eq_underscore_of_identifierChar {c : Char} (h : identifierChar c = true) (hmark : ispunct c = true) :
    c = '_' := by
  simp only [ispunct, Char.isAlphanum, Bool.and_eq_true, decide_eq_true_eq, Bool.not_eq_true',
    Bool.or_eq_false_iff] at hmark
  obtain ⟨⟨-, hlt⟩, halpha, hdigit⟩ := hmark
  simp only [identifierChar, identifierStart, halpha, hdigit, Bool.false_or, Bool.or_false, Bool.or_eq_true,
    decide_eq_true_eq] at h
  rcases h with h | h
  · exact h
  · omega

theorem Identifier.identifierChar_of_mem (x : Identifier) : ∀ c ∈ x.chars, identifierChar c = true :=
  List.all_eq_true.mp x.rest

/-- A user's variable is its own text. -/
theorem Identifier.chars_eq (u : Identifier) : u.chars = blur ispunct '_' (fun _ => 1) u.chars :=
  (blur_one_of_only fun c hc hmark => eq_underscore_of_identifierChar (u.identifierChar_of_mem c hc) hmark).symm

/-- The name of a member, with what is appended to it. -/
theorem baseName_encode (m : StlMember) (suffix : Name) :
    baseName (checkpointStlNameEncode m.objName.text) (checkpointStlNameEncode m.varName.chars) ++
      blur ispunct '_' weight suffix = blur ispunct '_' weight (m.text ++ suffix) := by
  rw [StlMember.text, baseName, checkpointStlNameEncode_eq, checkpointStlNameEncode_eq, blur_append, blur_append,
    blur_cons]
  rfl

theorem baseName_legacy (m : StlMember) :
    baseName (checkpointStlNameEncodeLegacy m.objName.text) (checkpointStlNameEncodeLegacy m.varName.chars) =
      blur ispunct '_' (fun _ => 1) m.text := by
  rw [StlMember.text, baseName, checkpointStlNameEncodeLegacy_eq, checkpointStlNameEncodeLegacy_eq, blur_append,
    blur_cons]
  rfl

/-! ## The allocations by their places -/

/-- The names of allocations are new: they are different, and there are none of the given names. -/
def Fresh (old new : List Name) : Prop := new.Nodup ∧ ∀ x ∈ new, x ∉ old

theorem fresh_append (old new more : List Name) :
    Fresh old (new ++ more) ↔ Fresh old new ∧ Fresh (old ++ new) more := by
  simp only [Fresh, List.nodup_append, List.mem_append, not_or]
  constructor
  · rintro ⟨⟨hnew, hmore, hdisjoint⟩, hold⟩
    refine ⟨⟨hnew, fun x hx => hold x (Or.inl hx)⟩, hmore, fun x hx => ⟨hold x (Or.inr hx), ?_⟩⟩
    intro hxnew
    exact hdisjoint x hxnew x hx rfl
  · rintro ⟨⟨hnew, hold⟩, hmore, hboth⟩
    refine ⟨⟨hnew, hmore, ?_⟩, ?_⟩
    · rintro x hx y hy rfl
      exact (hboth x hy).2 hx
    · rintro x (hx | hx)
      · exact hold x hx
      · exact (hboth x hx).1

/-- The part of a name that the indices are. -/
def indexText (indices : List Nat) : Name := indices.flatMap fun ii => '_' :: indexString ii

/-- The allocation of a container, if only the names for which `taken` is set are those of variables. -/
def placeAllocation (base : Name) (taken : List Nat → Bool) (p : List Nat × Nat) : Allocation :=
  ⟨base ++ indexText p.1, p.2, decide (0 < p.2 ∧ taken p.1 = false)⟩

/-- The names of allocations. -/
def allocationNames (allocations : List Allocation) : List Name := allocations.map Allocation.name

@[simp] theorem allocationNames_cons (a : Allocation) (allocations : List Allocation) :
    allocationNames (a :: allocations) = [a.name] ++ allocationNames allocations := rfl

@[simp] theorem allocationNames_append (allocations more : List Allocation) :
    allocationNames (allocations ++ more) = allocationNames allocations ++ allocationNames more :=
  List.map_append

/-- **What is known** while containers are declared: the variables of the user, and at most the containers that there
    have been. -/
structure Known (user old vars : List Name) : Prop where
  kept : ∀ x ∈ user, x ∈ vars
  only : ∀ x ∈ vars, x ∈ user ∨ x ∈ old

theorem Known.declare {user old vars new names : List Name} (h : Known user old vars) (hnew : ∀ x ∈ new, x ∈ names) :
    Known user (old ++ names) (vars ++ new) := by
  refine ⟨fun x hx => List.mem_append_left _ (h.kept x hx), ?_⟩
  intro x hx
  rcases List.mem_append.mp hx with hx | hx
  · rcases h.only x hx with hx | hx
    · exact Or.inl hx
    · exact Or.inr (List.mem_append_left _ hx)
  · exact Or.inr (List.mem_append_right _ (hnew x hx))

theorem mem_allocationNames_of_declared {allocations : List Allocation} {x : Name}
    (hx : x ∈ declaredNames allocations) : x ∈ allocationNames allocations := by
  obtain ⟨a, ha, rfl⟩ := List.mem_map.mp hx
  exact List.mem_map_of_mem (List.mem_of_mem_filter ha)

/-- A new name is a variable only if it is one of the user. -/
theorem declareVar_eq {user old vars : List Name} (hknown : Known user old vars) {name : Name} {taken : Bool}
    (htaken : taken = true ↔ name ∈ user) (hnew : name ∉ old) (contSize : Nat) :
    declareVar vars name contSize = ⟨name, contSize, decide (0 < contSize ∧ taken = false)⟩ := by
  have hiff : name ∉ vars ↔ taken = false := by
    rw [← Bool.not_eq_true, htaken]
    refine not_congr ⟨fun h => ?_, hknown.kept name⟩
    rcases hknown.only name h with h | h
    · exact h
    · exact absurd h hnew
  rw [declareVar, decide_eq_decide.mpr (and_congr Iff.rfl hiff)]

theorem baseName_indexText (base : Name) (ii : Nat) (indices : List Nat) :
    baseName base (indexString ii) ++ indexText indices = base ++ indexText (ii :: indices) := by
  simp only [baseName, indexText, List.flatMap_cons, List.append_assoc, List.cons_append]

mutual

/-- **The allocations of a sequence** are those of its places, as long as there is no name that there has been. -/
theorem checkpointStl_eq : ∀ (stl : Stl) {user old vars : List Name} {taken : List Nat → Bool}
    {objectName varName : Name}, Known user old vars →
    (∀ indices, taken indices = true ↔ baseName objectName varName ++ indexText indices ∈ user) →
    (Fresh old (allocationNames (checkpointStl stl objectName varName vars)) ∨
      Fresh old (allocationNames ((stl.places taken).map (placeAllocation (baseName objectName varName) taken)))) →
    checkpointStl stl objectName varName vars =
      (stl.places taken).map (placeAllocation (baseName objectName varName) taken)
  | .items size, user, old, vars, taken, objectName, varName => by
    intro hknown htaken hfresh
    have hbase : taken [] = true ↔ baseName objectName varName ∈ user := by
      simpa only [indexText, List.flatMap_nil, List.append_nil] using htaken []
    have hnew : baseName objectName varName ∉ old := by
      rcases hfresh with hfresh | hfresh
      · exact hfresh.2 _ List.mem_cons_self
      · exact hfresh.2 _ (by simp [Stl.places, placeAllocation, indexText])
    simp only [checkpointStl, Stl.places, declareVar_eq hknown hbase hnew, List.map_cons, List.map_nil,
      placeAllocation, indexText, List.flatMap_nil, List.append_nil]
  | .nested subs, user, old, vars, taken, objectName, varName => by
    intro hknown htaken hfresh
    have hbase : taken [] = true ↔ baseName objectName varName ∈ user := by
      simpa only [indexText, List.flatMap_nil, List.append_nil] using htaken []
    have hnew : baseName objectName varName ∉ old := by
      rcases hfresh with hfresh | hfresh
      · exact hfresh.2 _ List.mem_cons_self
      · exact hfresh.2 _ (by simp [Stl.places, placeAllocation, indexText])
    simp only [checkpointStl, Stl.places, declareVar_eq hknown hbase hnew, List.map_cons, placeAllocation, indexText,
      List.flatMap_nil, List.append_nil, decide_eq_true_eq] at hfresh ⊢
    by_cases hdeclared : 0 < subs.length % 2 ^ 32 ∧ taken [] = false
    · simp only [if_pos hdeclared, allocationNames_cons, fresh_append] at hfresh ⊢
      have hknown' : Known user (old ++ [baseName objectName varName]) (vars ++ [baseName objectName varName]) :=
        hknown.declare fun _ hx => hx
      rw [checkpointSubs_eq subs hknown' htaken (hfresh.imp And.right And.right)]
    · rw [if_neg hdeclared, if_neg hdeclared, List.map_nil]

/-- The same from the element number `ii` on. -/
theorem checkpointSubs_eq : ∀ (subs : List Stl) {ii : Nat} {user old vars : List Name} {taken : List Nat → Bool}
    {base : Name}, Known user old vars → (∀ indices, taken indices = true ↔ base ++ indexText indices ∈ user) →
    (Fresh old (allocationNames (checkpointSubs subs ii base vars)) ∨
      Fresh old (allocationNames ((subPlaces subs ii taken).map (placeAllocation base taken)))) →
    checkpointSubs subs ii base vars = (subPlaces subs ii taken).map (placeAllocation base taken)
  | [], _, _, _, _, _, _ => by
    intro _ _ _
    rfl
  | stl :: rest, ii, user, old, vars, taken, base => by
    intro hknown htaken hfresh
    have hplaces : ((stl.places fun indices => taken (ii :: indices)).map fun p => (ii :: p.1, p.2)).map
          (placeAllocation base taken) =
        (stl.places fun indices => taken (ii :: indices)).map
          (placeAllocation (baseName base (indexString ii)) fun indices => taken (ii :: indices)) := by
      rw [List.map_map]
      refine List.map_congr_left fun p _ => ?_
      simp only [Function.comp, placeAllocation, baseName_indexText]
    simp only [checkpointSubs, subPlaces, List.map_append, hplaces, allocationNames_append, fresh_append] at hfresh ⊢
    have htaken' : ∀ indices, (fun indices => taken (ii :: indices)) indices = true ↔
        baseName base (indexString ii) ++ indexText indices ∈ user := by
      intro indices
      rw [baseName_indexText, htaken]
    have hhead := checkpointStl_eq stl hknown htaken' (hfresh.imp And.left And.left)
    rw [hhead] at hfresh ⊢
    rw [checkpointSubs_eq rest (hknown.declare fun _ => mem_allocationNames_of_declared) htaken
      (hfresh.imp And.right And.right)]

end

/-! ## The allocations of a checkpoint -/

/-- A variable of the user has the name of a container exactly if it is spelled like it. -/
theorem taken_iff (c : Checkpoint) (r : Reference) : c.taken r = true ↔ r.name ∈ c.userNames := by
  simp only [Checkpoint.taken, Checkpoint.userNames, List.any_eq_true, List.mem_map, decide_eq_true_eq]
  refine exists_congr fun u => and_congr_right fun _ => ?_
  rw [r.name_eq, u.chars_eq, blur_eq_blur_iff rfl, legacySpelling, spelling, ← u.chars_eq]

/-- The allocation of a container, if only the variables of the user have names that there are. -/
def Checkpoint.allocationOf (c : Checkpoint) (p : Reference × Nat) : Allocation :=
  ⟨p.1.name, p.2, decide (0 < p.2 ∧ c.taken p.1 = false)⟩

theorem Checkpoint.memberPlaces_allocations (c : Checkpoint) (m : StlMember) :
    (c.memberPlaces m).map c.allocationOf =
      (m.stl.places fun indices => c.taken ⟨m.objName, m.varName, indices⟩).map
        (placeAllocation (baseName (checkpointStlNameEncode m.objName.text) (checkpointStlNameEncode m.varName.chars))
          fun indices => c.taken ⟨m.objName, m.varName, indices⟩) := by
  rw [Checkpoint.memberPlaces, List.map_map]
  rfl

theorem checkpointMembers_eq (c : Checkpoint) (members : List StlMember) {old vars : List Name}
    (hknown : Known c.userNames old vars)
    (hfresh : Fresh old (allocationNames (checkpointMembers members vars)) ∨
      Fresh old (allocationNames ((members.flatMap c.memberPlaces).map c.allocationOf))) :
    checkpointMembers members vars = (members.flatMap c.memberPlaces).map c.allocationOf := by
  induction members generalizing old vars with
  | nil => rfl
  | cons m members ih =>
    simp only [checkpointMembers, List.flatMap_cons, List.map_append, allocationNames_append, fresh_append] at hfresh ⊢
    have htaken : ∀ indices, c.taken ⟨m.objName, m.varName, indices⟩ = true ↔
        baseName (checkpointStlNameEncode m.objName.text) (checkpointStlNameEncode m.varName.chars) ++
          indexText indices ∈ c.userNames := fun indices => taken_iff c ⟨m.objName, m.varName, indices⟩
    rw [c.memberPlaces_allocations m] at hfresh ⊢
    have hhead := checkpointStl_eq m.stl hknown htaken (hfresh.imp And.left And.left)
    rw [StlMember.checkpointStl, hhead] at hfresh ⊢
    rw [ih (hknown.declare fun _ => mem_allocationNames_of_declared) (hfresh.imp And.right And.right)]

/-- **The allocations of a checkpoint** are those of its containers, as long as all names are different. -/
theorem Checkpoint.allocations_eq (c : Checkpoint)
    (hnodup : (allocationNames c.allocations).Nodup ∨ (c.places.map fun p => p.1.name).Nodup) :
    c.allocations = c.places.map c.allocationOf := by
  have hknown : Known c.userNames [] c.userNames := ⟨fun _ hx => hx, fun _ hx => Or.inl hx⟩
  refine checkpointMembers_eq c c.members hknown ?_
  rcases hnodup with hnodup | hnodup
  · exact Or.inl ⟨hnodup, fun _ _ => List.not_mem_nil⟩
  · refine Or.inr ⟨?_, fun _ _ => List.not_mem_nil⟩
    rw [allocationNames, List.map_map]
    exact hnodup

/-! ## The places are different -/

mutual

/-- Each container has a place of its own. -/
theorem nodup_places : ∀ (stl : Stl) (taken : List Nat → Bool), ((stl.places taken).map Prod.fst).Nodup
  | .items _, _ => List.nodup_singleton _
  | .nested subs, taken => by
    simp only [Stl.places, List.map_cons, List.nodup_cons]
    by_cases hdeclared : 0 < subs.length % 2 ^ 32 ∧ taken [] = false
    · simp only [if_pos hdeclared]
      obtain ⟨hnodup, hfirst⟩ := nodup_subPlaces subs 0 taken
      refine ⟨?_, hnodup⟩
      intro hmem
      obtain ⟨p, hp, hnil⟩ := List.mem_map.mp hmem
      obtain ⟨jj, indices, hcons, -⟩ := hfirst p hp
      rw [hnil] at hcons
      exact absurd hcons (List.cons_ne_nil _ _).symm
    · simp only [if_neg hdeclared]
      exact ⟨List.not_mem_nil, List.nodup_nil⟩

/-- So it is from the element number `ii` on, and the places begin with at least that number. -/
theorem nodup_subPlaces : ∀ (subs : List Stl) (ii : Nat) (taken : List Nat → Bool),
    ((subPlaces subs ii taken).map Prod.fst).Nodup ∧
      ∀ p ∈ subPlaces subs ii taken, ∃ jj indices, p.1 = jj :: indices ∧ ii ≤ jj
  | [], _, _ => ⟨List.nodup_nil, fun _ hp => absurd hp List.not_mem_nil⟩
  | stl :: rest, ii, taken => by
    obtain ⟨hrest, hlater⟩ := nodup_subPlaces rest (ii + 1) taken
    have hhead := nodup_places stl fun indices => taken (ii :: indices)
    simp only [subPlaces, List.map_append, List.map_map, List.nodup_append, List.mem_append]
    refine ⟨⟨?_, hrest, ?_⟩, ?_⟩
    · have hmap : ((stl.places fun indices => taken (ii :: indices)).map (Prod.fst ∘ fun p => (ii :: p.1, p.2))) =
          ((stl.places fun indices => taken (ii :: indices)).map Prod.fst).map (ii :: ·) := by
        rw [List.map_map]
        rfl
      rw [hmap]
      exact hhead.map fun _ _ h => (List.cons.inj h).2
    · rintro x hx y hy rfl
      obtain ⟨p, -, rfl⟩ := List.mem_map.mp hx
      obtain ⟨q, hq, heq⟩ := List.mem_map.mp hy
      obtain ⟨jj, indices, hcons, hlt⟩ := hlater q hq
      rw [hcons] at heq
      have hjj : jj = ii := (List.cons.inj heq).1
      omega
    · rintro p (hp | hp)
      · obtain ⟨q, -, rfl⟩ := List.mem_map.mp hp
        exact ⟨ii, q.1, rfl, Nat.le_refl ii⟩
      · obtain ⟨jj, indices, hcons, hlt⟩ := hlater p hp
        exact ⟨jj, indices, hcons, by omega⟩

end

/-- Each container of a checkpoint has a place of its own, as the members are different. -/
theorem Checkpoint.nodup_places (c : Checkpoint) : (c.places.map Prod.fst).Nodup := by
  have hplaces : c.places.map Prod.fst = c.members.flatMap fun m => (c.memberPlaces m).map Prod.fst :=
    List.map_flatMap
  rw [hplaces, List.nodup_flatMap]
  constructor
  · intro m _
    have hmember : (c.memberPlaces m).map Prod.fst =
        ((m.stl.places fun indices => c.taken ⟨m.objName, m.varName, indices⟩).map Prod.fst).map
          (Reference.mk m.objName m.varName) := by
      rw [Checkpoint.memberPlaces, List.map_map, List.map_map]
      rfl
    rw [hmember]
    refine (CheckpointStl.nodup_places _ _).map fun _ _ h => ?_
    exact (Reference.mk.inj h).2.2
  · have hdistinct := List.pairwise_map.mp c.distinct
    refine hdistinct.imp ?_
    intro m m' hne r hr hr'
    obtain ⟨p, hp, rfl⟩ := List.mem_map.mp hr
    obtain ⟨q, hq, heq⟩ := List.mem_map.mp hr'
    obtain ⟨indices, -, rfl⟩ := List.mem_map.mp hp
    obtain ⟨indices', -, rfl⟩ := List.mem_map.mp hq
    obtain ⟨hobj, hvar, -⟩ := Reference.mk.inj heq
    exact hne (by rw [hobj, hvar])

/-- **Names are different** exactly if the spellings are. -/
theorem Checkpoint.nodup_names_iff (c : Checkpoint) :
    (c.places.map fun p => p.1.name).Nodup ↔
      ∀ p ∈ c.places, ∀ q ∈ c.places, p.1 ≠ q.1 → spelling p.1.text ≠ spelling q.1.text := by
  have hmap : (c.places.map fun p => p.1.name) = (c.places.map Prod.fst).map Reference.name := by
    rw [List.map_map]
    rfl
  have hname : ∀ r r' : Reference, r.name = r'.name ↔ spelling r.text = spelling r'.text := by
    intro r r'
    rw [r.name_eq, r'.name_eq, blur_eq_blur_iff rfl]
    rfl
  rw [hmap, List.nodup_map_iff_inj_on c.nodup_places]
  constructor
  · intro hinj p hp q hq hne hspelling
    exact hne (hinj _ (List.mem_map_of_mem hp) _ (List.mem_map_of_mem hq) ((hname _ _).mpr hspelling))
  · intro hspelling r hr r' hr' heq
    obtain ⟨p, hp, rfl⟩ := List.mem_map.mp hr
    obtain ⟨q, hq, rfl⟩ := List.mem_map.mp hr'
    by_contra hne
    exact hspelling p hp q hq hne ((hname _ _).mp heq)

/-- **A variable is known by its spelling.** -/
theorem Checkpoint.mem_variableNames_iff {c : Checkpoint} (heq : c.allocations = c.places.map c.allocationOf)
    (w : Char → Nat) (text : Name) :
    blur ispunct '_' w text ∈ c.variableNames ↔ spacing ispunct w text ∈ c.spellings := by
  have hdeclared : declaredNames c.allocations =
      (c.places.filter fun p => 0 < p.2 ∧ c.taken p.1 = false).map fun p => p.1.name := by
    rw [heq, declaredNames, List.filter_map, List.map_map]
    rfl
  rw [Checkpoint.variableNames, Checkpoint.spellings, hdeclared, List.mem_append, List.mem_append]
  refine or_congr ?_ ?_
  · simp only [Checkpoint.userNames, List.mem_map]
    refine exists_congr fun u => and_congr_right fun _ => ?_
    rw [u.chars_eq, blur_eq_blur_iff rfl, ← u.chars_eq]
    rfl
  · simp only [List.mem_map]
    refine exists_congr fun p => and_congr_right fun _ => ?_
    rw [p.1.name_eq, blur_eq_blur_iff rfl]
    rfl

/-- There is an allocation for a member exactly if it is spelled like a variable. -/
theorem StlMember.exists_iff {c : Checkpoint} (heq : c.allocations = c.places.map c.allocationOf) (m : StlMember) :
    m.Exists c.variableNames ↔ spelling m.text ∈ c.spellings ∨ spelling (m.text ++ ".keys".toList) ∈ c.spellings ∨
      spelling (m.text ++ ".first".toList) ∈ c.spellings := by
  have hbase := baseName_encode m []
  have hkeys := baseName_encode m ".keys".toList
  have hfirst := baseName_encode m ".first".toList
  rw [List.append_nil, show blur ispunct '_' weight [] = [] from rfl, List.append_nil] at hbase
  rw [show blur ispunct '_' weight ".keys".toList = "_keys".toList by decide] at hkeys
  rw [show blur ispunct '_' weight ".first".toList = "_first".toList by decide] at hfirst
  rw [StlMember.Exists, checkpointStlAllocationExists, hkeys, hfirst, hbase, Checkpoint.mem_variableNames_iff heq,
    Checkpoint.mem_variableNames_iff heq, Checkpoint.mem_variableNames_iff heq]
  rfl

/-- **The fallback** is to the legacy name. -/
theorem StlMember.restoreStl_of_not_exists {m : StlMember} {vars : List Name} (h : ¬ m.Exists vars) :
    m.restoreStl vars = blur ispunct '_' (fun _ => 1) m.text := by
  rw [StlMember.restoreStl, if_neg h, baseName_legacy]

/-- **The result**: names never clash exactly if they are well spelled. -/
theorem namesNeverClash_iff (c : Checkpoint) : NamesNeverClash c ↔ c.WellSpelled := by
  have hfallback : c.allocations = c.places.map c.allocationOf → ∀ m : StlMember,
      ((¬ m.Exists c.variableNames → m.restoreStl c.variableNames ∉ c.variableNames) ↔
        (spelling m.text ∉ c.spellings → spelling (m.text ++ ".keys".toList) ∉ c.spellings →
          spelling (m.text ++ ".first".toList) ∉ c.spellings → legacySpelling m.text ∉ c.spellings)) := by
    intro heq m
    have hnot := not_congr (m.exists_iff heq)
    rw [not_or, not_or] at hnot
    constructor
    · intro h hbase hkeys hfirst hlegacy
      have hexists := hnot.mpr ⟨hbase, hkeys, hfirst⟩
      refine h hexists ?_
      rw [StlMember.restoreStl_of_not_exists hexists]
      exact (Checkpoint.mem_variableNames_iff heq _ _).mpr hlegacy
    · intro h hexists hmem
      obtain ⟨hbase, hkeys, hfirst⟩ := hnot.mp hexists
      rw [StlMember.restoreStl_of_not_exists hexists] at hmem
      exact h hbase hkeys hfirst ((Checkpoint.mem_variableNames_iff heq _ _).mp hmem)
  constructor
  · rintro ⟨hdistinct, hlegacy⟩
    have heq := c.allocations_eq (Or.inl hdistinct)
    refine ⟨?_, fun m hm hempty => (hfallback heq m).mp (hlegacy m hm hempty)⟩
    rw [heq, List.map_map] at hdistinct
    exact c.nodup_names_iff.mp hdistinct
  · rintro ⟨hcontainers, hlegacy⟩
    have hnames := c.nodup_names_iff.mpr hcontainers
    have heq := c.allocations_eq (Or.inr hnames)
    refine ⟨?_, fun m hm hempty => (hfallback heq m).mpr (hlegacy m hm hempty)⟩
    rw [heq, List.map_map]
    exact hnames

/-! ## Where names clash -/

/-- `m` of `a_`, and `_m` of `a`. -/
def sharedUnderscores : Checkpoint where
  members :=
    [⟨⟨⟨['a', '_'], by decide, by decide, by decide⟩, []⟩, ⟨['m'], by decide, by decide, by decide⟩, .items 1⟩,
     ⟨⟨⟨['a'], by decide, by decide, by decide⟩, []⟩, ⟨['_', 'm'], by decide, by decide, by decide⟩, .items 1⟩]
  userVariables := []
  distinct := by decide

/-- The empty `b_c` of `a`, and the variable `a_b_c`. -/
def emptyContainer : Checkpoint where
  members :=
    [⟨⟨⟨['a'], by decide, by decide, by decide⟩, []⟩, ⟨['b', '_', 'c'], by decide, by decide, by decide⟩, .items 0⟩]
  userVariables := [⟨['a', '_', 'b', '_', 'c'], by decide, by decide, by decide⟩]
  distinct := by decide

/-- Both containers are `a___m`, and the empty one is restored from `a_b_c`. -/
theorem not_namesNeverClash : ¬ NamesNeverClash sharedUnderscores ∧ ¬ NamesNeverClash emptyContainer := by
  constructor
  · intro h
    exact absurd h.distinct (by decide)
  · intro h
    exact h.legacy _ List.mem_cons_self rfl (by decide) (by decide)

/-! ## Names without an underscore after a separator -/

/-- An identifier that does not begin with an underscore. -/
def Identifier.Plain (x : Identifier) : Prop := x.chars.head? ≠ some '_'

instance (x : Identifier) : Decidable x.Plain := inferInstanceAs (Decidable (_ ≠ _))

/-- **A plain reference**: no identifier but the first begins with an underscore, and the indices have not wrapped. -/
structure Reference.Plain (r : Reference) : Prop where
  steps : ∀ x, PathStep.field x ∈ r.objName.steps → x.Plain
  varName : r.varName.Plain
  indices : ∀ ii ∈ r.indices, ii < 2 ^ 32

/-- What may come behind an identifier: nothing, or a separator. -/
def Separated (rest : Name) : Prop := rest = [] ∨ ∃ c more, rest = '_' :: c :: more ∧ c ≠ '_'

theorem encode_append (s t : Name) :
    checkpointStlNameEncode (s ++ t) = checkpointStlNameEncode s ++ checkpointStlNameEncode t :=
  List.flatMap_append

theorem encode_cons_underscore (s : Name) :
    checkpointStlNameEncode ('_' :: s) = '_' :: '_' :: checkpointStlNameEncode s := rfl

theorem encode_cons_of_ne {c : Char} (h : identifierChar c = true) (hne : c ≠ '_') (s : Name) :
    checkpointStlNameEncode (c :: s) = c :: checkpointStlNameEncode s := by
  have hmark : ispunct c = false := by
    rw [← Bool.not_eq_true]
    intro hmark
    exact hne (eq_underscore_of_identifierChar h hmark)
  simp only [checkpointStlNameEncode, List.flatMap_cons, hne, if_false, hmark, Bool.false_eq_true,
    List.singleton_append]

theorem separated_cons_of_ne {c : Char} (hne : c ≠ '_') (s : Name) : ¬ Separated (c :: s) := by
  rintro (h | ⟨d, more, h, -⟩)
  · exact absurd h (List.cons_ne_nil _ _)
  · exact hne (List.cons.inj h).1

theorem separated_cons_cons (s : Name) : ¬ Separated ('_' :: '_' :: s) := by
  rintro (h | ⟨d, more, h, hd⟩)
  · exact absurd h (List.cons_ne_nil _ _)
  · exact hd (List.cons.inj (List.cons.inj h).2).1.symm

/-- What is encoded is no separator. -/
theorem not_separated_encode {s : Name} (hs : ∀ c ∈ s, identifierChar c = true) (hne : s ≠ []) (rest : Name) :
    ¬ Separated (checkpointStlNameEncode s ++ rest) := by
  cases s with
  | nil => exact absurd rfl hne
  | cons c s =>
    by_cases hc : c = '_'
    · subst hc
      exact separated_cons_cons _
    · rw [encode_cons_of_ne (hs c List.mem_cons_self) hc]
      exact separated_cons_of_ne hc _

/-- **An identifier ends at a separator.** -/
theorem encode_append_inj {s t : Name} (hs : ∀ c ∈ s, identifierChar c = true)
    (ht : ∀ c ∈ t, identifierChar c = true) {rest rest' : Name} (hrest : Separated rest) (hrest' : Separated rest')
    (heq : checkpointStlNameEncode s ++ rest = checkpointStlNameEncode t ++ rest') : s = t ∧ rest = rest' := by
  induction s generalizing t with
  | nil =>
    cases t with
    | nil => exact ⟨rfl, heq⟩
    | cons d t =>
      have hrest'' : Separated (checkpointStlNameEncode (d :: t) ++ rest') := heq ▸ hrest
      exact absurd hrest'' (not_separated_encode ht (List.cons_ne_nil _ _) _)
  | cons c s ih =>
    cases t with
    | nil =>
      have hrest'' : Separated (checkpointStlNameEncode (c :: s) ++ rest) := heq ▸ hrest'
      exact absurd hrest'' (not_separated_encode hs (List.cons_ne_nil _ _) _)
    | cons d t =>
      have hs' := List.forall_mem_cons.mp hs
      have ht' := List.forall_mem_cons.mp ht
      by_cases hc : c = '_'
      · by_cases hd : d = '_'
        · subst hc hd
          rw [encode_cons_underscore, encode_cons_underscore] at heq
          obtain ⟨hst, hrests⟩ := ih hs'.2 ht'.2 (List.cons.inj (List.cons.inj heq).2).2
          exact ⟨by rw [hst], hrests⟩
        · rw [hc, encode_cons_underscore, encode_cons_of_ne ht'.1 hd] at heq
          exact absurd (List.cons.inj heq).1.symm hd
      · by_cases hd : d = '_'
        · rw [hd, encode_cons_underscore, encode_cons_of_ne hs'.1 hc] at heq
          exact absurd (List.cons.inj heq).1 hc
        · rw [encode_cons_of_ne hs'.1 hc, encode_cons_of_ne ht'.1 hd] at heq
          obtain ⟨hcd, htail⟩ := List.cons.inj heq
          obtain ⟨hst, hrests⟩ := ih hs'.2 ht'.2 htail
          exact ⟨by rw [hcd, hst], hrests⟩

/-- **A number ends where there is no digit.** -/
theorem decimal_append_inj {m n : Nat} {rest rest' : Name} (hrest : ∀ c ∈ rest.head?, c.isDigit = false)
    (hrest' : ∀ c ∈ rest'.head?, c.isDigit = false) (heq : decimal m ++ rest = decimal n ++ rest') :
    m = n ∧ rest = rest' := by
  have htake : ∀ (k : Nat) (tail : Name), (∀ c ∈ tail.head?, c.isDigit = false) →
      (decimal k ++ tail).takeWhile Char.isDigit = decimal k := by
    intro k tail htail
    rw [List.takeWhile_append_of_pos fun _ hc => isDigit_of_mem_decimal hc]
    cases tail with
    | nil => simp
    | cons c tail =>
      have hc : c.isDigit = false := htail c rfl
      simp [hc]
  have hdigits : decimal m = decimal n := by
    rw [← htake m rest hrest, heq, htake n rest' hrest']
  refine ⟨?_, ?_⟩
  · have hvalue := congrArg (Nat.ofDigitChars 10 · 0) hdigits
    simpa only [decimal, Nat.ofDigitChars_ten_toDigits] using hvalue
  · rw [hdigits] at heq
    exact List.append_cancel_left heq

/-- A number begins with a digit. -/
theorem decimal_eq_cons (n : Nat) : ∃ c more, decimal n = c :: more ∧ c.isDigit = true := by
  cases hn : decimal n with
  | nil => exact absurd hn Nat.toDigits_ne_nil
  | cons c more => exact ⟨c, more, rfl, isDigit_of_mem_decimal (hn ▸ List.mem_cons_self)⟩

/-- A plain identifier begins with a letter. -/
theorem Identifier.Plain.encode_eq_cons {x : Identifier} (h : x.Plain) :
    ∃ c more, checkpointStlNameEncode x.chars = c :: more ∧ c ≠ '_' ∧ c.isDigit = false := by
  obtain ⟨chars, hnonempty, hstart, hrest⟩ := x
  cases chars with
  | nil => exact absurd rfl hnonempty
  | cons c more =>
    have hne : c ≠ '_' := fun hc => h (congrArg some hc)
    have hc : identifierStart c = true := hstart
    have hchar := List.all_eq_true.mp hrest c List.mem_cons_self
    refine ⟨c, checkpointStlNameEncode more, encode_cons_of_ne hchar hne more, hne, ?_⟩
    rw [← Bool.not_eq_true]
    intro hdigit
    simp only [identifierStart, Bool.or_eq_true, decide_eq_true_eq, hne, or_false, Char.isAlpha, Char.isUpper,
      Char.isLower, Bool.and_eq_true, ge_iff_le, UInt32.le_iff_toNat_le] at hc
    simp only [Char.isDigit, Bool.and_eq_true, decide_eq_true_eq, ge_iff_le, UInt32.le_iff_toNat_le] at hdigit
    have hval : c.toNat = c.val.toNat := rfl
    have h57 : '9'.val.toNat = 57 := rfl
    have h65 : 'A'.val.toNat = 65 := rfl
    have h97 : 'a'.val.toNat = 97 := rfl
    omega

/-- What comes behind the base of a path: the rest of the path and the member with its indices. -/
def tailText (steps : List PathStep) (varName : Identifier) (indices : List Nat) : Name :=
  checkpointStlNameEncode (steps.flatMap PathStep.text) ++
    '_' :: (checkpointStlNameEncode varName.chars ++ indexText indices)

theorem tailText_nil (varName : Identifier) (indices : List Nat) :
    tailText [] varName indices = '_' :: (checkpointStlNameEncode varName.chars ++ indexText indices) := rfl

theorem tailText_field (x : Identifier) (steps : List PathStep) (varName : Identifier) (indices : List Nat) :
    tailText (.field x :: steps) varName indices =
      '_' :: (checkpointStlNameEncode x.chars ++ tailText steps varName indices) := by
  simp only [tailText, List.flatMap_cons, encode_append, PathStep.text, List.append_assoc]
  rfl

theorem encode_decimal (n : Nat) : checkpointStlNameEncode (decimal n) = decimal n := by
  rw [checkpointStlNameEncode_eq]
  exact blur_of_no_mark weight fun _ hc => ispunct_of_mem_decimal hc

theorem tailText_index (n : Nat) (steps : List PathStep) (varName : Identifier) (indices : List Nat) :
    tailText (.index n :: steps) varName indices = '_' :: (decimal n ++ '_' :: tailText steps varName indices) := by
  have hopen : checkpointStlNameEncode ('[' :: decimal n ++ [']']) = '_' :: (decimal n ++ ['_']) := by
    have hcons : '[' :: decimal n ++ [']'] = ['['] ++ (decimal n ++ [']']) := rfl
    rw [hcons, encode_append, encode_append, encode_decimal]
    rfl
  rw [tailText, List.flatMap_cons, encode_append, PathStep.text, hopen, tailText]
  simp only [List.append_assoc, List.cons_append, List.nil_append]

/-- What comes behind an identifier begins with one underscore. -/
theorem separated_tailText {steps : List PathStep} (hsteps : ∀ x, PathStep.field x ∈ steps → x.Plain)
    {varName : Identifier} (hvar : varName.Plain) (indices : List Nat) : Separated (tailText steps varName indices) := by
  right
  match steps with
  | [] =>
    obtain ⟨c, more, hc, hne, -⟩ := hvar.encode_eq_cons
    exact ⟨c, more ++ indexText indices, by rw [tailText_nil, hc, List.cons_append], hne⟩
  | .field x :: steps =>
    obtain ⟨c, more, hc, hne, -⟩ := (hsteps x List.mem_cons_self).encode_eq_cons
    exact ⟨c, more ++ tailText steps varName indices, by rw [tailText_field, hc, List.cons_append], hne⟩
  | .index n :: steps =>
    obtain ⟨c, more, hc, hdigit⟩ := decimal_eq_cons n
    refine ⟨c, more ++ '_' :: tailText steps varName indices, by rw [tailText_index, hc, List.cons_append], ?_⟩
    rintro rfl
    exact absurd hdigit (by decide)

theorem indexText_cons (ii : Nat) (indices : List Nat) :
    indexText (ii :: indices) = '_' :: (indexString ii ++ indexText indices) := rfl

theorem separated_indexText (indices : List Nat) : Separated (indexText indices) := by
  cases indices with
  | nil => exact Or.inl rfl
  | cons ii indices =>
    obtain ⟨c, more, hc, hdigit⟩ := decimal_eq_cons (ii % 2 ^ 32)
    refine Or.inr ⟨c, more ++ indexText indices, by rw [indexText_cons, indexString, hc, List.cons_append], ?_⟩
    rintro rfl
    exact absurd hdigit (by decide)

theorem head_underscore (more : Name) : ∀ c ∈ ('_' :: more).head?, c.isDigit = false := by
  intro c hc
  obtain rfl : '_' = c := Option.some.inj hc
  rfl

/-- No digit comes behind an index. -/
theorem head_indexText (indices : List Nat) : ∀ c ∈ (indexText indices).head?, c.isDigit = false := by
  cases indices with
  | nil => exact fun c hc => absurd hc (Option.not_mem_none c)
  | cons ii indices => exact head_underscore _

/-- **The indices are read back.** -/
theorem indexText_inj {indices indices' : List Nat} (h : ∀ ii ∈ indices, ii < 2 ^ 32)
    (h' : ∀ ii ∈ indices', ii < 2 ^ 32) (heq : indexText indices = indexText indices') : indices = indices' := by
  induction indices generalizing indices' with
  | nil =>
    cases indices' with
    | nil => rfl
    | cons jj indices' => exact absurd heq (List.cons_ne_nil _ _).symm
  | cons ii indices ih =>
    cases indices' with
    | nil => exact absurd heq (List.cons_ne_nil _ _)
    | cons jj indices' =>
      rw [indexText_cons, indexText_cons] at heq
      obtain ⟨hij, hrest⟩ :=
        decimal_append_inj (head_indexText indices) (head_indexText indices') (List.cons.inj heq).2
      have hii := h ii List.mem_cons_self
      have hjj := h' jj List.mem_cons_self
      rw [Nat.mod_eq_of_lt hii, Nat.mod_eq_of_lt hjj] at hij
      rw [hij, ih (fun k hk => h k (List.mem_cons_of_mem _ hk)) (fun k hk => h' k (List.mem_cons_of_mem _ hk)) hrest]

/-- Indices are not the rest of a path with a member. -/
theorem indexText_ne_tailText {steps : List PathStep} (hsteps : ∀ x, PathStep.field x ∈ steps → x.Plain)
    {varName : Identifier} (hvar : varName.Plain) (indices indices' : List Nat) :
    indexText indices ≠ tailText steps varName indices' := by
  intro heq
  -- a text that begins with a letter behind the underscore is none of indices
  have hletter : ∀ (x : Identifier), x.Plain → ∀ (is : List Nat) (rest : Name),
      indexText is ≠ '_' :: (checkpointStlNameEncode x.chars ++ rest) := by
    intro x hx is rest h
    obtain ⟨c, more, hc, -, hdigit⟩ := hx.encode_eq_cons
    rw [hc] at h
    cases is with
    | nil => exact absurd h (List.cons_ne_nil _ _).symm
    | cons ii is =>
      obtain ⟨d, digits, hd, hdigit'⟩ := decimal_eq_cons (ii % 2 ^ 32)
      rw [indexText_cons, indexString, hd] at h
      have hdc : d = c := (List.cons.inj (List.cons.inj h).2).1
      rw [hdc, hdigit] at hdigit'
      exact absurd hdigit' (by decide)
  match steps with
  | [] => exact hletter varName hvar indices _ heq
  | .field x :: steps =>
    rw [tailText_field] at heq
    exact hletter x (hsteps x List.mem_cons_self) indices _ heq
  | .index n :: steps =>
    rw [tailText_index] at heq
    cases indices with
    | nil => exact absurd heq (List.cons_ne_nil _ _).symm
    | cons ii indices =>
      rw [indexText_cons, indexString] at heq
      obtain ⟨-, hrest⟩ := decimal_append_inj (head_indexText indices) (head_underscore _) (List.cons.inj heq).2
      -- two underscores come behind an index of a path, one behind that of a container
      have hsep : Separated (tailText steps varName indices') :=
        separated_tailText (fun x hx => hsteps x (List.mem_cons_of_mem _ hx)) hvar indices'
      have hsep' := separated_indexText indices
      rw [hrest] at hsep'
      rcases hsep with hnil | ⟨c, more, hcons, -⟩
      · rcases hsep' with h | ⟨d, more', h, -⟩
        · exact absurd h (List.cons_ne_nil _ _)
        · rw [hnil] at h
          exact absurd (List.cons.inj h).2 (List.cons_ne_nil _ _).symm
      · rw [hcons] at hsep'
        exact separated_cons_cons _ hsep'

/-- A field does not begin like an index. -/
theorem encode_append_ne_decimal_append {x : Identifier} (hx : x.Plain) (n : Nat) (rest rest' : Name) :
    checkpointStlNameEncode x.chars ++ rest ≠ decimal n ++ rest' := by
  intro heq
  obtain ⟨c, more, hc, -, hdigit⟩ := hx.encode_eq_cons
  obtain ⟨d, digits, hd, hdigit'⟩ := decimal_eq_cons n
  rw [hc, hd] at heq
  rw [← (List.cons.inj heq).1, hdigit] at hdigit'
  exact absurd hdigit' (by decide)

/-- **The path, the member and the indices are read back.** -/
theorem tailText_inj {steps steps' : List PathStep} (hsteps : ∀ x, PathStep.field x ∈ steps → x.Plain)
    (hsteps' : ∀ x, PathStep.field x ∈ steps' → x.Plain) {varName varName' : Identifier} (hvar : varName.Plain)
    (hvar' : varName'.Plain) {indices indices' : List Nat} (hindices : ∀ ii ∈ indices, ii < 2 ^ 32)
    (hindices' : ∀ ii ∈ indices', ii < 2 ^ 32)
    (heq : tailText steps varName indices = tailText steps' varName' indices') :
    steps = steps' ∧ varName = varName' ∧ indices = indices' := by
  -- two texts that begin with a field, or with the member
  have hfield : ∀ (x y : Identifier) {rest rest' : Name}, Separated rest → Separated rest' →
      '_' :: (checkpointStlNameEncode x.chars ++ rest) = '_' :: (checkpointStlNameEncode y.chars ++ rest') →
      x = y ∧ rest = rest' := by
    intro x y rest rest' hrest hrest' h
    obtain ⟨hchars, hrests⟩ :=
      encode_append_inj x.identifierChar_of_mem y.identifierChar_of_mem hrest hrest' (List.cons.inj h).2
    refine ⟨?_, hrests⟩
    obtain ⟨chars, _, _, _⟩ := x
    obtain ⟨chars', _, _, _⟩ := y
    obtain rfl : chars = chars' := hchars
    rfl
  induction steps generalizing steps' with
  | nil =>
    match steps' with
    | [] =>
      rw [tailText_nil, tailText_nil] at heq
      obtain ⟨hname, hrest⟩ := hfield _ _ (separated_indexText _) (separated_indexText _) heq
      exact ⟨rfl, hname, indexText_inj hindices hindices' hrest⟩
    | .field y :: steps' =>
      have hlater : ∀ x, PathStep.field x ∈ steps' → x.Plain := fun x hx => hsteps' x (List.mem_cons_of_mem _ hx)
      rw [tailText_nil, tailText_field] at heq
      obtain ⟨-, hrest⟩ := hfield _ _ (separated_indexText _) (separated_tailText hlater hvar' _) heq
      exact absurd hrest (indexText_ne_tailText hlater hvar' _ _)
    | .index n :: steps' =>
      rw [tailText_nil, tailText_index] at heq
      exact absurd (List.cons.inj heq).2 (encode_append_ne_decimal_append hvar n _ _)
  | cons step steps ih =>
    have hearlier : ∀ x, PathStep.field x ∈ steps → x.Plain := fun x hx => hsteps x (List.mem_cons_of_mem _ hx)
    match step, steps' with
    | .field x, [] =>
      rw [tailText_nil, tailText_field] at heq
      obtain ⟨-, hrest⟩ := hfield _ _ (separated_tailText hearlier hvar _) (separated_indexText _) heq
      exact absurd hrest.symm (indexText_ne_tailText hearlier hvar _ _)
    | .index n, [] =>
      rw [tailText_nil, tailText_index] at heq
      exact absurd (List.cons.inj heq).2.symm (encode_append_ne_decimal_append hvar' n _ _)
    | .field x, .field y :: steps' =>
      have hlater : ∀ x, PathStep.field x ∈ steps' → x.Plain := fun x hx => hsteps' x (List.mem_cons_of_mem _ hx)
      rw [tailText_field, tailText_field] at heq
      obtain ⟨hxy, hrest⟩ := hfield _ _ (separated_tailText hearlier hvar _) (separated_tailText hlater hvar' _) heq
      obtain ⟨hsame, hname, hind⟩ := ih hearlier hlater hrest
      exact ⟨by rw [hxy, hsame], hname, hind⟩
    | .field x, .index n :: steps' =>
      rw [tailText_field, tailText_index] at heq
      exact absurd (List.cons.inj heq).2
        (encode_append_ne_decimal_append (hsteps x List.mem_cons_self) n _ _)
    | .index n, .field y :: steps' =>
      rw [tailText_field, tailText_index] at heq
      exact absurd (List.cons.inj heq).2.symm
        (encode_append_ne_decimal_append (hsteps' y List.mem_cons_self) n _ _)
    | .index m, .index n :: steps' =>
      have hlater : ∀ x, PathStep.field x ∈ steps' → x.Plain := fun x hx => hsteps' x (List.mem_cons_of_mem _ hx)
      rw [tailText_index, tailText_index] at heq
      obtain ⟨hmn, hrest⟩ := decimal_append_inj (head_underscore _) (head_underscore _) (List.cons.inj heq).2
      obtain ⟨hsame, hname, hind⟩ := ih hearlier hlater (List.cons.inj hrest).2
      exact ⟨by rw [hmn, hsame], hname, hind⟩

theorem Reference.name_eq_tailText (r : Reference) :
    r.name = checkpointStlNameEncode r.objName.base.chars ++ tailText r.objName.steps r.varName r.indices := by
  rw [Reference.name, ObjectPath.text, encode_append, baseName, tailText, indexText]
  simp only [List.append_assoc, List.cons_append]

/-- **Plain references have names of their own.** -/
theorem Reference.name_injective {r r' : Reference} (h : r.Plain) (h' : r'.Plain) (heq : r.name = r'.name) : r = r' := by
  rw [r.name_eq_tailText, r'.name_eq_tailText] at heq
  obtain ⟨hbase, htail⟩ := encode_append_inj r.objName.base.identifierChar_of_mem
    r'.objName.base.identifierChar_of_mem (separated_tailText h.steps h.varName _)
    (separated_tailText h'.steps h'.varName _) heq
  obtain ⟨hsteps, hname, hindices⟩ := tailText_inj h.steps h'.steps h.varName h'.varName h.indices h'.indices htail
  obtain ⟨⟨⟨chars, _, _, _⟩, steps⟩, varName, indices⟩ := r
  obtain ⟨⟨⟨chars', _, _, _⟩, steps'⟩, varName', indices'⟩ := r'
  obtain rfl : chars = chars' := hbase
  obtain rfl : steps = steps' := hsteps
  obtain rfl : varName = varName' := hname
  obtain rfl : indices = indices' := hindices
  rfl

/-- **Containers have names of their own** where no identifier but the first of a path begins with an underscore. -/
theorem nodup_names_of_plain (c : Checkpoint) (hplain : ∀ p ∈ c.places, p.1.Plain) :
    (c.allocations.map Allocation.name).Nodup := by
  have hmap : (c.places.map fun p => p.1.name) = (c.places.map Prod.fst).map Reference.name := by
    rw [List.map_map]
    rfl
  have hnames : (c.places.map fun p => p.1.name).Nodup := by
    rw [hmap, List.nodup_map_iff_inj_on c.nodup_places]
    intro r hr r' hr' heq
    obtain ⟨p, hp, rfl⟩ := List.mem_map.mp hr
    obtain ⟨q, hq, rfl⟩ := List.mem_map.mp hr'
    exact Reference.name_injective (hplain p hp) (hplain q hq) heq
  rw [c.allocations_eq (Or.inr hnames), List.map_map]
  exact hnames

/-- Sequences of sequences in `a_` and in `a_.m`, and a member that ends where the other begins. -/
def nestedSequences : Checkpoint where
  members :=
    [⟨⟨⟨['a', '_'], by decide, by decide, by decide⟩, []⟩, ⟨['m', '_'], by decide, by decide, by decide⟩,
        .nested [.items 1, .nested [.items 2]]⟩,
     ⟨⟨⟨['a', '_'], by decide, by decide, by decide⟩,
        [.index 1, .field ⟨['m'], by decide, by decide, by decide⟩]⟩, ⟨['n'], by decide, by decide, by decide⟩,
        .nested [.items 3]⟩]
  userVariables := []
  distinct := by decide

/-- They have six allocations. -/
theorem nodup_names_of_plain_nested : (nestedSequences.allocations.map Allocation.name).Nodup := by
  refine nodup_names_of_plain nestedSequences ?_
  intro p hp
  have hplaces : nestedSequences.places.all fun p => p.1.objName.steps.all (fun
      | .field x => decide x.Plain
      | .index _ => true) && decide p.1.varName.Plain && p.1.indices.all (· < 2 ^ 32) = true := by decide
  have hthis := List.all_eq_true.mp hplaces p hp
  simp only [Bool.and_eq_true, decide_eq_true_eq, List.all_eq_true] at hthis
  obtain ⟨⟨hsteps, hname⟩, hindices⟩ := hthis
  exact ⟨fun x hx => of_decide_eq_true (hsteps _ hx), hname, hindices⟩

end Trick.CheckpointStl
