/-
  `MapStrToPtr.c`: a hash table from strings to pointers, and its iterator.

  1. **Data.**  A key is the list of its bytes before the NUL.  A table entry belongs to one node of one list, so
     it stands in the node.  A function that returns NULL because there is nothing returns `none`; the iterator
     leaves `*key` as it is then.

  2. **Program.**  `smMap`, `smLookup` and `smRemoveKey` look the key up in the list of its hash value; the
     iterator is the index of a list and a position in it.

  3. **Specification.**  `Holds` says which entries are in which list.

  4. **Main results** of this file: what the three functions do to the entries (`map_holds`, `lookup_eq`,
     `remove_holds`).
-/
import Trick.TrickAdt.Dllist

namespace Trick.TrickAdt

/-! ## Data -/

/-- The bytes before the NUL. -/
abbrev Key := List UInt8

/-- `TBLENTRY` -/
structure TblEntry (δ : Type) where
  key : Key
  data : δ

/-- **`MapStrToPtr`**, with the nodes of its lists. -/
structure MapStrToPtr (δ : Type) where
  heap : DllHeap (TblEntry δ)
  ppList : List Dllist
  size : Nat
  count : Int

/-- `StrMapIterator` -/
structure StrMapIterator where
  index : Nat
  listPos : Option Ptr

/-- The value of a `char`, which has a sign. -/
def signedChar (ch : UInt8) : Int := if ch.toNat < 128 then ch.toNat else (ch.toNat : Int) - 256

/-- One turn of the loop of `SM_Hash`, in 32 bits. -/
def hashStep (hashval : Nat) (ch : UInt8) : Nat :=
  let up3 : Nat := hashval >>> 29
  let shifted : Nat := (hashval <<< 3) % 2 ^ 32
  (((shifted : Int) + ((up3 : Int) + signedChar ch)) % 2 ^ 32).toNat

/-- **`SM_Hash`** -/
def smHash (key : Key) (size : Nat) : Nat := key.foldl hashStep 0 % size

/-- **`SM_Create`** -/
def smCreate {δ : Type} (nSize : Nat) : MapStrToPtr δ where
  heap := fun _ => none
  ppList := List.replicate nSize dllCreate
  size := nSize
  count := 0

namespace MapStrToPtr

variable {δ : Type}

/-! ## The table -/

/-- The loop of `SM_LookupEntry`: the entry, and the position it is at. -/
def lookupLoop (h : DllHeap (TblEntry δ)) (fuel : Nat) (list : Dllist) (key : Key) :
    Nat → Option Ptr → Option (Option (Ptr × TblEntry δ))
  | 0, _ => none
  | _ + 1, none => some none
  | turns + 1, some pos => do
    let (data, next) ← list.getNext h fuel (some pos)
    let pEntry ← data
    if pEntry.key = key then some (some (pos, pEntry)) else lookupLoop h fuel list key turns next

/-- `SM_LookupEntry` -/
def smLookupEntry (fuel : Nat) (key : Key) (m : MapStrToPtr δ) : Option (Option (Ptr × TblEntry δ)) := do
  let list ← m.ppList[smHash key m.size]?
  lookupLoop m.heap fuel list key fuel list.head

/-- **`SM_Lookup`** -/
def smLookup (fuel : Nat) (key : Key) (m : MapStrToPtr δ) : Option (Option δ) := do
  let pEntry ← m.smLookupEntry fuel key
  some (pEntry.map fun p => p.2.data)

/-- `pEntry->data = data` -/
def setData (m : MapStrToPtr δ) (pos : Ptr) (data : δ) : MapStrToPtr δ :=
  let node := (m.heap pos).map fun n => { n with info := { n.info with data := data } }
  { m with heap := Function.update m.heap pos node }

/-- **`SM_Map`**, with the node that `malloc` returns. -/
def smMap (fuel : Nat) (key : Key) (data : δ) (newNode : Ptr) (m : MapStrToPtr δ) :
    Option (MapStrToPtr δ × Option δ) := do
  let idx := smHash key m.size
  let pEntry ← m.smLookupEntry fuel key
  match pEntry with
  -- "add the entry the list"
  | none => do
    let list ← m.ppList[idx]?
    let (h, list) ← list.addHead m.heap newNode { key := key, data := data }
    some ({ heap := h, ppList := m.ppList.set idx list, size := m.size, count := m.count + 1 }, none)
  -- "replace the current key's data with new data"
  | some (pos, entry) => some (m.setData pos data, some entry.data)

/-- **`SM_RemoveKey`** -/
def smRemoveKey (fuel : Nat) (key : Key) (m : MapStrToPtr δ) : Option (MapStrToPtr δ × Option δ) := do
  let idx := smHash key m.size
  let list ← m.ppList[idx]?
  let found ← lookupLoop m.heap fuel list key fuel list.head
  match found with
  | none => some (m, none)
  | some (prevpos, entry) => do
    let (h, list, _) ← list.removeAt m.heap fuel (some prevpos)
    some ({ heap := h, ppList := m.ppList.set idx list, size := m.size, count := m.count - 1 }, some entry.data)

/-! ## The iterator -/

/-- What an iterator function returns: the key and the data. -/
abbrev Visited (δ : Type) := Option (Key × δ)

/-- "find the next list that is not empty": among `n` lists from `i` on. -/
def headFrom (m : MapStrToPtr δ) (fuel : Nat) : Nat → Nat → Option (StrMapIterator × Visited δ)
  | 0, _ => some ({ index := 0, listPos := none }, none)
  | n + 1, i => do
    let list ← m.ppList[i]?
    if list.head = none then headFrom m fuel n (i + 1)
    else do
      let data ← list.getAt m.heap fuel list.head
      let pEntry ← data
      some ({ index := i, listPos := list.head }, some (pEntry.key, pEntry.data))

/-- **`SMI_GetFirst`** -/
def smiGetFirst (fuel : Nat) (m : MapStrToPtr δ) : Option (StrMapIterator × Visited δ) :=
  if m.count = 0 then some ({ index := 0, listPos := none }, none) else m.headFrom fuel m.size 0

/-- **`SMI_GetNext`** -/
def smiGetNext (fuel : Nat) (it : StrMapIterator) (m : MapStrToPtr δ) : Option (StrMapIterator × Visited δ) :=
  -- "make sure there is a previous element"
  if it.listPos = none then some (it, none)
  else do
    let list ← m.ppList[it.index]?
    let (_, next) ← list.getNext m.heap fuel it.listPos
    if next = none then m.headFrom fuel (m.size - (it.index + 1)) (it.index + 1)
    else do
      let data ← list.getAt m.heap fuel next
      let pEntry ← data
      some ({ it with listPos := next }, some (pEntry.key, pEntry.data))

/-- "check the previous lists" -/
def tailBelow (m : MapStrToPtr δ) (fuel : Nat) : Nat → Option (StrMapIterator × Visited δ)
  | 0 => some ({ index := 0, listPos := none }, none)
  | i + 1 => do
    let list ← m.ppList[i]?
    if list.tail = none then tailBelow m fuel i
    else do
      let data ← list.getAt m.heap fuel list.tail
      let pEntry ← data
      some ({ index := i, listPos := list.tail }, some (pEntry.key, pEntry.data))

/-- **`SMI_GetPrev`** -/
def smiGetPrev (fuel : Nat) (it : StrMapIterator) (m : MapStrToPtr δ) : Option (StrMapIterator × Visited δ) :=
  -- "make sure there was a previously accessed element"
  if it.listPos = none then some (it, none)
  else do
    let list ← m.ppList[it.index]?
    let (_, prev) ← list.getPrev m.heap fuel it.listPos
    if prev = none then m.tailBelow fuel it.index
    -- the previous element of the same list is not returned
    else some ({ it with listPos := prev }, none)

end MapStrToPtr

/-! ## Entries -/

/-- A list and its items. -/
abbrev Bucket (δ : Type) := Dllist × List (Ptr × TblEntry δ)

variable {δ : Type}

/-- **The entries of a table**, list by list. -/
def entries (Ts : List (Bucket δ)) : List (Ptr × TblEntry δ) := Ts.flatMap Prod.snd

/-- **The table has these entries.** -/
structure MapStrToPtr.Holds (m : MapStrToPtr δ) (Ts : List (Bucket δ)) : Prop where
  lists : m.ppList = Ts.map Prod.fst
  size : m.size = Ts.length
  pos : 0 < m.size
  represents : ∀ T ∈ Ts, T.1.Represents m.heap T.2
  nodup : ((entries Ts).map Prod.fst).Nodup
  only : ∀ p, m.heap p ≠ none → p ∈ (entries Ts).map Prod.fst
  count : m.count = (entries Ts).length
  /-- An entry is in the list of its hash value. -/
  place : ∀ (i : Nat) (T : Bucket δ), Ts[i]? = some T → ∀ x ∈ T.2, smHash x.2.key m.size = i
  keys : ((entries Ts).map fun x => x.2.key).Nodup

theorem entries_append (T₁ T₂ : List (Bucket δ)) : entries (T₁ ++ T₂) = entries T₁ ++ entries T₂ := List.flatMap_append

theorem entries_cons (T : Bucket δ) (Ts : List (Bucket δ)) : entries (T :: Ts) = T.2 ++ entries Ts := List.flatMap_cons

theorem entries_split (T₁ : List (Bucket δ)) (T : Bucket δ) (T₂ : List (Bucket δ)) :
    entries (T₁ ++ T :: T₂) = entries T₁ ++ (T.2 ++ entries T₂) := by
  rw [entries_append, entries_cons]

theorem getElem?_bucket (T₁ : List (Bucket δ)) (T : Bucket δ) (T₂ : List (Bucket δ)) :
    (T₁ ++ T :: T₂)[T₁.length]? = some T := by
  rw [List.getElem?_append_right (Nat.le_refl _), Nat.sub_self]
  rfl

theorem map_replace {α β : Type} {f : α → β} {x y : α} (h : f x = f y) (A B : List α) :
    (A ++ x :: B).map f = (A ++ y :: B).map f := by
  rw [List.map_append, List.map_append, List.map_cons, List.map_cons, h]

theorem mem_entries {Ts : List (Bucket δ)} {T : Bucket δ} (hT : T ∈ Ts) {x : Ptr × TblEntry δ} (hx : x ∈ T.2) :
    x ∈ entries Ts := List.mem_flatMap.mpr ⟨T, hT, hx⟩

/-- A list of the array. -/
theorem exists_bucket {Ts : List (Bucket δ)} {i : Nat} (h : i < Ts.length) :
    ∃ T₁ T T₂, Ts = T₁ ++ T :: T₂ ∧ T₁.length = i := by
  refine ⟨Ts.take i, Ts[i], Ts.drop (i + 1), ?_, ?_⟩
  · rw [← List.drop_eq_getElem_cons h, List.take_append_drop]
  · rw [List.length_take]
    omega

namespace MapStrToPtr

section
variable {m : MapStrToPtr δ} {T₁ T₂ : List (Bucket δ)} {T : Bucket δ} {fuel : Nat}

theorem Holds.getElem (h : m.Holds (T₁ ++ T :: T₂)) : m.ppList[T₁.length]? = some T.1 := by
  rw [h.lists, List.map_append, List.map_cons, List.getElem?_append_right (by rw [List.length_map]), List.length_map,
    Nat.sub_self]
  rfl

theorem Holds.set (h : m.Holds (T₁ ++ T :: T₂)) (T' : Bucket δ) :
    m.ppList.set T₁.length T'.1 = (T₁ ++ T' :: T₂).map Prod.fst := by
  rw [h.lists, List.map_append, List.map_cons, List.set_append_right _ _ (by rw [List.length_map]), List.length_map,
    Nat.sub_self, List.map_append, List.map_cons]
  rfl

theorem Holds.bucket (h : m.Holds (T₁ ++ T :: T₂)) : T.1.Represents m.heap T.2 :=
  h.represents T (List.mem_append_right T₁ List.mem_cons_self)

theorem Holds.hash_lt {Ts : List (Bucket δ)} (h : m.Holds Ts) (key : Key) : smHash key m.size < Ts.length := by
  rw [← h.size]
  exact Nat.mod_lt _ h.pos

/-- **A key is looked for in the list of its hash value alone.** -/
theorem Holds.find (h : m.Holds (T₁ ++ T :: T₂)) {key : Key} (hkey : T₁.length = smHash key m.size) :
    (entries (T₁ ++ T :: T₂)).find? (fun x => x.2.key = key) = T.2.find? fun x => x.2.key = key := by
  -- the other lists have no entry with this key
  have hother : ∀ U₁ U U₂, T₁ ++ T :: T₂ = U₁ ++ U :: U₂ → U₁.length ≠ T₁.length →
      ∀ x ∈ U.2, ¬ x.2.key = key := by
    rintro U₁ U U₂ hsplit hne x hx rfl
    have hat : (T₁ ++ T :: T₂)[U₁.length]? = some U := by rw [hsplit, getElem?_bucket]
    exact hne ((h.place _ U hat x hx).symm.trans hkey.symm)
  have hfirst : (entries T₁).find? (fun x => x.2.key = key) = none := by
    rw [List.find?_eq_none]
    intro x hx
    obtain ⟨U, hU, hxU⟩ := List.mem_flatMap.mp hx
    obtain ⟨U₁, U₂, rfl⟩ := List.append_of_mem hU
    rw [decide_eq_true_eq]
    refine hother U₁ U (U₂ ++ T :: T₂) (by rw [List.append_assoc, List.cons_append]) ?_ x hxU
    rw [List.length_append, List.length_cons]
    omega
  have hlast : (entries T₂).find? (fun x => x.2.key = key) = none := by
    rw [List.find?_eq_none]
    intro x hx
    obtain ⟨U, hU, hxU⟩ := List.mem_flatMap.mp hx
    obtain ⟨U₁, U₂, rfl⟩ := List.append_of_mem hU
    rw [decide_eq_true_eq]
    refine hother (T₁ ++ T :: U₁) U U₂ (by rw [List.append_assoc, List.cons_append]) ?_ x hxU
    rw [List.length_append, List.length_cons]
    omega
  rw [entries_split, List.find?_append, hfirst, Option.none_or, List.find?_append, hlast, Option.or_none]

/-- **The loop finds the first entry with the key.** -/
theorem lookupLoop_eq {h : DllHeap (TblEntry δ)} {list : Dllist} (key : Key) {A B : List (Ptr × TblEntry δ)}
    (hrep : list.Represents h (A ++ B)) (hfuel : A.length + B.length < fuel) {turns : Nat} (hturns : B.length < turns) :
    lookupLoop h fuel list key turns (firstOr none B) = some (B.find? fun x => x.2.key = key) := by
  induction B generalizing A turns with
  | nil =>
    obtain ⟨turns, rfl⟩ : ∃ k, turns = k + 1 := ⟨turns - 1, by rw [List.length_nil] at hturns; omega⟩
    rfl
  | cons x B ih =>
    rw [List.length_cons] at hfuel hturns
    obtain ⟨turns, rfl⟩ : ∃ k, turns = k + 1 := ⟨turns - 1, by omega⟩
    have hnext := hrep.getNext_eq (show A.length < fuel by omega)
    have hrep' : list.Represents h ((A ++ [x]) ++ B) := by
      rw [List.append_assoc]
      exact hrep
    have hrest := ih hrep' (by rw [List.length_append, List.length_singleton]; omega) (show B.length < turns by omega)
    show (list.getNext h fuel (some x.1)).bind _ = _
    rw [hnext]
    show (if x.2.key = key then _ else lookupLoop h fuel list key turns (firstOr none B)) = _
    by_cases hx : x.2.key = key
    · have hfind : (x :: B).find? (fun y => decide (y.2.key = key)) = some x :=
        List.find?_cons_of_pos (decide_eq_true hx)
      rw [if_pos hx, hfind]
    · have hfind : (x :: B).find? (fun y => decide (y.2.key = key)) = B.find? fun y => decide (y.2.key = key) :=
        List.find?_cons_of_neg (by rw [decide_eq_true_eq]; exact hx)
      rw [if_neg hx, hrest, hfind]

theorem length_bucket (hfuel : (entries (T₁ ++ T :: T₂)).length < fuel) :
    T.2.length < fuel := by
  rw [entries_split, List.length_append, List.length_append] at hfuel
  omega

/-- **A lookup finds the entry with the key.** -/
theorem Holds.lookupEntry_eq {Ts : List (Bucket δ)} (h : m.Holds Ts) (key : Key) (hfuel : (entries Ts).length < fuel) :
    m.smLookupEntry fuel key = some ((entries Ts).find? fun x => x.2.key = key) := by
  obtain ⟨T₁, T, T₂, rfl, hidx⟩ := exists_bucket (h.hash_lt key)
  have hlen := length_bucket hfuel
  have hloop : lookupLoop m.heap fuel T.1 key fuel (firstOr none T.2) = _ :=
    lookupLoop_eq key (A := []) h.bucket (by rw [List.length_nil, Nat.zero_add]; exact hlen) hlen
  unfold smLookupEntry
  rw [← hidx, h.getElem]
  show lookupLoop m.heap fuel T.1 key fuel T.1.head = _
  rw [h.bucket.head, hloop, h.find hidx]

/-- **One list is changed.** -/
theorem Holds.replace (h : m.Holds (T₁ ++ T :: T₂)) (T' : Bucket δ) (count' : Int) {heap' : DllHeap (TblEntry δ)}
    (hrep : T'.1.Represents heap' T'.2) (hsame : ∀ p ∈ (entries (T₁ ++ T₂)).map Prod.fst, heap' p = m.heap p)
    (hnodup : ((entries (T₁ ++ T' :: T₂)).map Prod.fst).Nodup)
    (honly : ∀ p, heap' p ≠ none → p ∈ (entries (T₁ ++ T' :: T₂)).map Prod.fst)
    (hcount : count' = (entries (T₁ ++ T' :: T₂)).length) (hplace : ∀ x ∈ T'.2, smHash x.2.key m.size = T₁.length)
    (hkeys : ((entries (T₁ ++ T' :: T₂)).map fun x => x.2.key).Nodup) :
    Holds ⟨heap', m.ppList.set T₁.length T'.1, m.size, count'⟩ (T₁ ++ T' :: T₂) where
  lists := h.set T'
  size := by
    rw [List.length_append, List.length_cons]
    have hsize := h.size
    rw [List.length_append, List.length_cons] at hsize
    exact hsize
  pos := h.pos
  represents := by
    have hother : ∀ U ∈ T₁ ++ T₂, U.1.Represents heap' U.2 := by
      intro U hU
      have hmem : U ∈ T₁ ++ T :: T₂ := by
        rw [List.mem_append] at hU ⊢
        exact hU.imp_right (List.mem_cons_of_mem T)
      refine (h.represents U hmem).congr fun p hp => hsame p ?_
      obtain ⟨x, hx, rfl⟩ := List.mem_map.mp hp
      exact List.mem_map_of_mem (mem_entries hU hx)
    intro U hU
    rw [List.mem_append, List.mem_cons] at hU
    rcases hU with hU | rfl | hU
    · exact hother U (List.mem_append_left T₂ hU)
    · exact hrep
    · exact hother U (List.mem_append_right T₁ hU)
  nodup := hnodup
  only := honly
  count := hcount
  place := by
    intro i U hat x hx
    by_cases hi : i = T₁.length
    · subst hi
      rw [getElem?_bucket] at hat
      obtain rfl := Option.some.inj hat
      exact hplace x hx
    · refine h.place i U ?_ x hx
      rw [← hat]
      by_cases hlt : i < T₁.length
      · rw [List.getElem?_append_left hlt, List.getElem?_append_left hlt]
      · obtain ⟨k, hk⟩ : ∃ k, i - T₁.length = k + 1 := ⟨i - T₁.length - 1, by omega⟩
        rw [List.getElem?_append_right (by omega), List.getElem?_append_right (by omega), hk, List.getElem?_cons_succ,
          List.getElem?_cons_succ]
  keys := hkeys

/-! ## What the functions do -/

/-- **The map that the entries are.** -/
def content (Ts : List (Bucket δ)) (key : Key) : Option δ :=
  ((entries Ts).find? fun x => x.2.key = key).map fun x => x.2.data

/-- An entry with another key does not matter. -/
theorem find_skip {key : Key} {x : Ptr × TblEntry δ} (hx : x.2.key ≠ key) (A B : List (Ptr × TblEntry δ)) :
    (A ++ x :: B).find? (fun y => y.2.key = key) = (A ++ B).find? fun y => y.2.key = key := by
  have hcons : (x :: B).find? (fun y => decide (y.2.key = key)) = B.find? fun y => decide (y.2.key = key) :=
    List.find?_cons_of_neg (by rw [decide_eq_true_eq]; exact hx)
  rw [List.find?_append, List.find?_append, hcons]

/-- No entry has the key. -/
theorem find_none {key : Key} {A : List (Ptr × TblEntry δ)} (hA : ∀ y ∈ A, y.2.key ≠ key) :
    A.find? (fun y => y.2.key = key) = none := by
  rw [List.find?_eq_none]
  intro y hy
  rw [decide_eq_true_eq]
  exact hA y hy

/-- The only entry with a key. -/
theorem find_only {key : Key} {x : Ptr × TblEntry δ} (hx : x.2.key = key) {A : List (Ptr × TblEntry δ)}
    (hA : ∀ y ∈ A, y.2.key ≠ key) (B : List (Ptr × TblEntry δ)) :
    (A ++ x :: B).find? (fun y => y.2.key = key) = some x := by
  have hcons : (x :: B).find? (fun y => decide (y.2.key = key)) = some x :=
    List.find?_cons_of_pos (decide_eq_true hx)
  rw [List.find?_append, find_none hA, hcons]
  rfl

/-- The entries with one of them singled out. -/
theorem Holds.keys_ne {Ts : List (Bucket δ)} (h : m.Holds Ts) {A B : List (Ptr × TblEntry δ)} {x : Ptr × TblEntry δ}
    (hsplit : entries Ts = A ++ x :: B) : (∀ y ∈ A, y.2.key ≠ x.2.key) ∧ ∀ y ∈ A ++ B, y.2.key ≠ x.2.key := by
  have hkeys := h.keys
  rw [hsplit] at hkeys
  have hperm : ((A ++ x :: B).map fun y => y.2.key).Perm (x.2.key :: (A ++ B).map fun y => y.2.key) :=
    List.perm_middle.map _
  have hnot := (List.nodup_cons.mp (hperm.nodup_iff.mp hkeys)).1
  have hall : ∀ y ∈ A ++ B, y.2.key ≠ x.2.key := fun y hy heq => hnot (heq ▸ List.mem_map_of_mem hy)
  exact ⟨fun y hy => hall y (List.mem_append_left B hy), hall⟩

/-- The nodes of the other lists. -/
theorem Holds.apart (h : m.Holds (T₁ ++ T :: T₂)) : ∀ p ∈ (entries (T₁ ++ T₂)).map Prod.fst,
    p ∈ (entries (T₁ ++ T :: T₂)).map Prod.fst ∧ p ∉ T.2.map Prod.fst := by
  intro p hp
  rw [entries_append, List.map_append, List.mem_append] at hp
  have hnodup := h.nodup
  rw [entries_split, List.map_append, List.map_append, List.nodup_append, List.nodup_append] at hnodup
  obtain ⟨-, ⟨-, -, hT₂⟩, hT₁⟩ := hnodup
  rw [entries_split, List.map_append, List.map_append, List.mem_append, List.mem_append]
  rcases hp with hp | hp
  · exact ⟨Or.inl hp, fun hmem => hT₁ p hp p (List.mem_append_left _ hmem) rfl⟩
  · exact ⟨Or.inr (Or.inr hp), fun hmem => hT₂ p hmem p hp rfl⟩

/-- Where the entry with a key is. -/
theorem Holds.found (h : m.Holds (T₁ ++ T :: T₂)) {key : Key} (hkey : T₁.length = smHash key m.size)
    {x : Ptr × TblEntry δ} (hfind : (entries (T₁ ++ T :: T₂)).find? (fun x => x.2.key = key) = some x) :
    ∃ A B, T.2 = A ++ x :: B ∧ x.2.key = key ∧
      entries (T₁ ++ T :: T₂) = (entries T₁ ++ A) ++ x :: (B ++ entries T₂) := by
  rw [h.find hkey] at hfind
  have hx := List.find?_some hfind
  rw [decide_eq_true_eq] at hx
  obtain ⟨A, B, hAB⟩ := List.append_of_mem (List.mem_of_find?_eq_some hfind)
  refine ⟨A, B, hAB, hx, ?_⟩
  rw [entries_split, hAB, List.append_assoc, List.append_assoc, List.cons_append]

/-- **`SM_Map`** changes the map at the key, and returns what was there. -/
theorem map_holds {Ts : List (Bucket δ)} (h : m.Holds Ts) (key : Key) (data : δ) {newNode : Ptr}
    (hfresh : m.heap newNode = none) (hfuel : (entries Ts).length < fuel) :
    ∃ m' Ts', m.smMap fuel key data newNode = some (m', content Ts key) ∧ m'.Holds Ts' ∧
      content Ts' = Function.update (content Ts) key (some data) ∧
      (entries Ts').length ≤ (entries Ts).length + 1 ∧ m'.size = m.size := by
  have hlookup := h.lookupEntry_eq key hfuel
  obtain ⟨T₁, T, T₂, rfl, hidx⟩ := exists_bucket (h.hash_lt key)
  cases hfind : (entries (T₁ ++ T :: T₂)).find? (fun x => x.2.key = key) with
  | none =>
    -- "add the entry the list"
    have hnokey : ∀ y ∈ entries (T₁ ++ T :: T₂), y.2.key ≠ key := fun y hy => by
      have hy' := List.find?_eq_none.mp hfind y hy
      rwa [decide_eq_true_eq] at hy'
    have hnew : newNode ∉ (entries (T₁ ++ T :: T₂)).map Prod.fst := by
      intro hmem
      obtain ⟨x, hx, rfl⟩ := List.mem_map.mp hmem
      obtain ⟨U, hU, hxU⟩ := List.mem_flatMap.mp hx
      exact (h.represents U hU).chain.ne_none (List.mem_map_of_mem hxU) hfresh
    have hnewT : newNode ∉ T.2.map Prod.fst := by
      intro hmem
      obtain ⟨x, hx, heq⟩ := List.mem_map.mp hmem
      exact hnew (heq ▸ List.mem_map_of_mem (mem_entries (List.mem_append_right T₁ List.mem_cons_self) hx))
    obtain ⟨heap', list', hadd, hrep', hsame⟩ := addHead_represents h.bucket hnewT { key := key, data := data }
    have hentries : entries (T₁ ++ (list', (newNode, (⟨key, data⟩ : TblEntry δ)) :: T.2) :: T₂) =
        entries T₁ ++ (newNode, ⟨key, data⟩) :: (T.2 ++ entries T₂) := entries_split _ _ _
    have hold : entries (T₁ ++ T :: T₂) = entries T₁ ++ (T.2 ++ entries T₂) := entries_split _ _ _
    have hperm : (entries (T₁ ++ (list', (newNode, (⟨key, data⟩ : TblEntry δ)) :: T.2) :: T₂)).Perm
        ((newNode, ⟨key, data⟩) :: entries (T₁ ++ T :: T₂)) := by
      rw [hentries, hold]
      exact List.perm_middle
    refine ⟨_, _, ?_, h.replace (list', (newNode, ⟨key, data⟩) :: T.2) (m.count + 1) hrep' ?_ ?_ ?_ ?_ ?_ ?_, ?_, ?_, rfl⟩
    · unfold smMap
      simp only [hlookup, hfind, Option.bind_eq_bind, Option.bind_some, ← hidx, h.getElem, hadd]
      unfold content
      rw [hfind]
      rfl
    · intro p hp
      obtain ⟨hmem, hnot⟩ := h.apart p hp
      exact hsame p (fun heq => hnew (heq ▸ hmem)) hnot
    · rw [(hperm.map Prod.fst).nodup_iff]
      exact List.nodup_cons.mpr ⟨hnew, h.nodup⟩
    · intro p hp
      rw [(hperm.map Prod.fst).mem_iff, List.map_cons, List.mem_cons]
      by_cases hpn : p = newNode
      · exact Or.inl hpn
      · by_cases hpT : p ∈ T.2.map Prod.fst
        · obtain ⟨x, hx, rfl⟩ := List.mem_map.mp hpT
          exact Or.inr (List.mem_map_of_mem (mem_entries (List.mem_append_right T₁ List.mem_cons_self) hx))
        · rw [hsame p hpn hpT] at hp
          exact Or.inr (h.only p hp)
    · rw [hperm.length_eq, List.length_cons, h.count]
      exact (Int.natCast_succ _).symm
    · intro x hx
      rcases List.mem_cons.mp hx with rfl | hx
      · exact hidx.symm
      · exact h.place _ T (getElem?_bucket T₁ T T₂) x hx
    · rw [(hperm.map fun x => x.2.key).nodup_iff]
      refine List.nodup_cons.mpr ⟨?_, h.keys⟩
      intro hmem
      obtain ⟨x, hx, heq⟩ := List.mem_map.mp hmem
      exact hnokey x hx heq
    · funext k
      unfold content
      rw [hentries]
      by_cases hk : k = key
      · subst hk
        have honly := find_only (x := (newNode, (⟨k, data⟩ : TblEntry δ))) rfl
          (fun y hy => hnokey y (by rw [hold]; exact List.mem_append_left _ hy)) (T.2 ++ entries T₂)
        rw [Function.update_self, honly]
        rfl
      · rw [Function.update_of_ne hk, find_skip (fun heq => hk heq.symm), ← hold]
    · rw [hperm.length_eq, List.length_cons]
  | some x =>
    -- "replace the current key's data with new data"
    obtain ⟨A, B, hT, rfl, hold⟩ := h.found hidx hfind
    obtain ⟨hA, hAB⟩ := h.keys_ne hold
    let entry : TblEntry δ := { x.2 with data := data }
    have hbucket := h.bucket
    rw [hT] at hbucket
    have hrep' := setInfo_represents hbucket entry
    have hentries : entries (T₁ ++ (T.1, A ++ (x.1, entry) :: B) :: T₂) =
        (entries T₁ ++ A) ++ (x.1, entry) :: (B ++ entries T₂) := by
      rw [entries_split, List.append_assoc, List.append_assoc, List.cons_append]
    have hptrs : (entries (T₁ ++ (T.1, A ++ (x.1, entry) :: B) :: T₂)).map Prod.fst =
        (entries (T₁ ++ T :: T₂)).map Prod.fst := by
      rw [hentries, hold]
      apply map_replace
      rfl
    have hkeys : ((entries (T₁ ++ (T.1, A ++ (x.1, entry) :: B) :: T₂)).map fun y => y.2.key) =
        (entries (T₁ ++ T :: T₂)).map fun y => y.2.key := by
      rw [hentries, hold]
      apply map_replace
      rfl
    have hlen : (entries (T₁ ++ (T.1, A ++ (x.1, entry) :: B) :: T₂)).length = (entries (T₁ ++ T :: T₂)).length := by
      have hlength := congrArg List.length hptrs
      rwa [List.length_map, List.length_map] at hlength
    have hxmem : x.1 ∈ (entries (T₁ ++ T :: T₂)).map Prod.fst := by
      rw [hold]
      exact List.mem_map_of_mem (List.mem_append_right _ List.mem_cons_self)
    have hset : m.ppList.set T₁.length T.1 = m.ppList := (h.set T).trans h.lists.symm
    let node : DllNode (TblEntry δ) := { info := entry, prev := lastOr none A, next := firstOr none B }
    have hdata : m.setData x.1 data =
        ⟨Function.update m.heap x.1 (some node), m.ppList.set T₁.length T.1, m.size, m.count⟩ := by
      unfold setData
      rw [hbucket.node, hset]
      rfl
    refine ⟨_, _, ?_, h.replace (T.1, A ++ (x.1, entry) :: B) m.count hrep' ?_ ?_ ?_ ?_ ?_ ?_, ?_, ?_, rfl⟩
    · unfold smMap
      simp only [hlookup, hfind, Option.bind_eq_bind, Option.bind_some]
      unfold content
      rw [hfind, hdata]
      rfl
    · intro p hp
      obtain ⟨-, hnot⟩ := h.apart p hp
      apply update_other
      rintro rfl
      rw [hT] at hnot
      exact hnot (List.mem_map_of_mem (List.mem_append_right A List.mem_cons_self))
    · rw [hptrs]
      exact h.nodup
    · intro p hp
      rw [hptrs]
      by_cases hpx : p = x.1
      · rw [hpx]
        exact hxmem
      · rw [update_other hpx] at hp
        exact h.only p hp
    · rw [hlen]
      exact h.count
    · have hplace := h.place _ T (getElem?_bucket T₁ T T₂)
      rw [hT] at hplace
      intro y hy
      rcases List.mem_append.mp hy with hy | hy
      · exact hplace y (List.mem_append_left _ hy)
      · rcases List.mem_cons.mp hy with rfl | hy
        · exact hidx.symm
        · exact hplace y (List.mem_append_right A (List.mem_cons_of_mem x hy))
    · rw [hkeys]
      exact h.keys
    · funext k
      unfold content
      rw [hentries, hold]
      by_cases hk : k = x.2.key
      · subst hk
        have honly := find_only (x := (x.1, entry)) rfl hA (B ++ entries T₂)
        rw [Function.update_self, honly]
        rfl
      · rw [Function.update_of_ne hk, find_skip (x := (x.1, entry)) (fun heq => hk heq.symm),
          find_skip (fun heq => hk heq.symm)]
    · rw [hlen]
      exact Nat.le_succ _

/-- **`SM_RemoveKey`** takes the key out of the map, and returns what was there. -/
theorem remove_holds {Ts : List (Bucket δ)} (h : m.Holds Ts) (key : Key) (hfuel : (entries Ts).length < fuel) :
    ∃ m' Ts', m.smRemoveKey fuel key = some (m', content Ts key) ∧ m'.Holds Ts' ∧
      content Ts' = Function.update (content Ts) key none ∧ (entries Ts').length ≤ (entries Ts).length ∧
      m'.size = m.size := by
  have hlookup := h.lookupEntry_eq key hfuel
  obtain ⟨T₁, T, T₂, rfl, hidx⟩ := exists_bucket (h.hash_lt key)
  have hloop : lookupLoop m.heap fuel T.1 key fuel T.1.head =
      some ((entries (T₁ ++ T :: T₂)).find? fun x => x.2.key = key) := by
    unfold smLookupEntry at hlookup
    rw [← hidx, h.getElem] at hlookup
    exact hlookup
  cases hfind : (entries (T₁ ++ T :: T₂)).find? (fun x => x.2.key = key) with
  | none =>
    refine ⟨m, _, ?_, h, ?_, Nat.le_refl _, rfl⟩
    · unfold smRemoveKey
      simp only [← hidx, h.getElem, hloop, hfind, Option.bind_eq_bind, Option.bind_some]
      unfold content
      rw [hfind]
      rfl
    · funext k
      by_cases hk : k = key
      · subst hk
        rw [Function.update_self]
        unfold content
        rw [hfind]
        rfl
      · rw [Function.update_of_ne hk]
  | some x =>
    obtain ⟨A, B, hT, rfl, hold⟩ := h.found hidx hfind
    obtain ⟨hA, hAB⟩ := h.keys_ne hold
    have hbucket := h.bucket
    rw [hT] at hbucket
    have hlenT := length_bucket hfuel
    rw [hT, List.length_append] at hlenT
    obtain ⟨heap', list', hremove, hrep', hnone, hsame⟩ := removeAt_represents hbucket (show A.length < fuel by omega)
    have hentries : entries (T₁ ++ (list', A ++ B) :: T₂) = (entries T₁ ++ A) ++ (B ++ entries T₂) := by
      rw [entries_split, List.append_assoc, List.append_assoc]
    have hperm : (entries (T₁ ++ T :: T₂)).Perm (x :: entries (T₁ ++ (list', A ++ B) :: T₂)) := by
      rw [hold, hentries]
      exact List.perm_middle
    refine ⟨_, _, ?_, h.replace (list', A ++ B) (m.count - 1) hrep' ?_ ?_ ?_ ?_ ?_ ?_, ?_, ?_, rfl⟩
    · unfold smRemoveKey
      simp only [← hidx, h.getElem, hloop, hfind, Option.bind_eq_bind, Option.bind_some, hremove]
      unfold content
      rw [hfind]
      rfl
    · intro p hp
      obtain ⟨-, hnot⟩ := h.apart p hp
      rw [hT] at hnot
      exact hsame p hnot
    · exact (List.nodup_cons.mp ((hperm.map Prod.fst).nodup_iff.mp h.nodup)).2
    · intro p hp
      have hpx : p ≠ x.1 := by
        rintro rfl
        exact hp hnone
      have hmem : p ∈ (entries (T₁ ++ T :: T₂)).map Prod.fst := by
        by_cases hpT : p ∈ (A ++ x :: B).map Prod.fst
        · rw [← hT] at hpT
          obtain ⟨y, hy, rfl⟩ := List.mem_map.mp hpT
          exact List.mem_map_of_mem (mem_entries (List.mem_append_right T₁ List.mem_cons_self) hy)
        · rw [hsame p hpT] at hp
          exact h.only p hp
      rw [(hperm.map Prod.fst).mem_iff, List.map_cons, List.mem_cons] at hmem
      exact hmem.resolve_left hpx
    · have hlen := hperm.length_eq
      rw [List.length_cons] at hlen
      rw [h.count, hlen]
      omega
    · have hplace := h.place _ T (getElem?_bucket T₁ T T₂)
      rw [hT] at hplace
      intro y hy
      rcases List.mem_append.mp hy with hy | hy
      · exact hplace y (List.mem_append_left _ hy)
      · exact hplace y (List.mem_append_right A (List.mem_cons_of_mem x hy))
    · exact (List.nodup_cons.mp ((hperm.map fun y => y.2.key).nodup_iff.mp h.keys)).2
    · funext k
      by_cases hk : k = x.2.key
      · subst hk
        rw [Function.update_self]
        unfold content
        rw [hentries, find_none fun y hy => hAB y ?_]
        · rfl
        · rw [← List.append_assoc] at hy
          simpa only [List.append_assoc] using hy
      · rw [Function.update_of_ne hk]
        unfold content
        rw [hentries, hold, find_skip fun heq => hk heq.symm]
    · rw [hperm.length_eq, List.length_cons]
      exact Nat.le_succ _

end

end MapStrToPtr

end Trick.TrickAdt
