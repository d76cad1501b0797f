/-
  `dllist.c`: doubly linked lists, as `MapStrToPtr.c` uses them.

  1. **Data and program.**  A `DllNode` is a node of the heap, `Dllist` the structure with the count and the two
     ends.  The functions look a position up in the list before they use it (`DLL_ListContainsPos`); a loop
     that has not ended after `fuel` turns, and a load through a pointer to nothing, give `none`.

  2. **Specification.**  `Chain` says that the nodes of a list of items lie in the heap one after the other,
     between a node before them and a node behind them; `Represents` is a whole list.

  3. **Main results**: one lemma for each function, with the position given by the items in front of it and
     behind it (`getNext_eq`, `getPrev_eq`, `addHead_represents`, `removeAt_represents`).
-/
import Trick.TrickAdt.Bst

namespace Trick.TrickAdt

/-! ## Data and program -/

/-- `DLLNODE` -/
structure DllNode (α : Type) where
  info : α
  prev : Option Ptr
  next : Option Ptr

/-- The nodes that are allocated. -/
abbrev DllHeap (α : Type) := Ptr → Option (DllNode α)

/-- `DLLIST` -/
structure Dllist where
  count : Int
  head : Option Ptr
  tail : Option Ptr

/-- `DLL_Create` -/
def dllCreate : Dllist where
  count := 0
  head := none
  tail := none

namespace Dllist

variable {α : Type}

/-- The loop of `DLL_ListContainsPos`. -/
def containsLoop (h : DllHeap α) (pos : Ptr) : Nat → Option Ptr → Option Bool
  | 0, _ => none
  | _ + 1, none => some false
  | fuel + 1, some lpos =>
    if lpos = pos then some true else (h lpos).bind fun n => containsLoop h pos fuel n.next

/-- `DLL_ListContainsPos` -/
def listContainsPos (h : DllHeap α) (fuel : Nat) (pos : Option Ptr) (list : Dllist) : Option Bool :=
  match pos with
  | none => some false
  | some p => containsLoop h p fuel list.head

/-- `DLL_GetAt` -/
def getAt (h : DllHeap α) (fuel : Nat) (pos : Option Ptr) (list : Dllist) : Option (Option α) := do
  let found ← list.listContainsPos h fuel pos
  if found = false then some none
  else do
    let n ← pos.bind h
    some (some n.info)

/-- `DLL_GetNext`: the data, and the next position. -/
def getNext (h : DllHeap α) (fuel : Nat) (pos : Option Ptr) (list : Dllist) : Option (Option α × Option Ptr) := do
  let found ← list.listContainsPos h fuel pos
  if found = false then some (none, pos)
  else do
    let n ← pos.bind h
    some (some n.info, n.next)

/-- `DLL_GetPrev` -/
def getPrev (h : DllHeap α) (fuel : Nat) (pos : Option Ptr) (list : Dllist) : Option (Option α × Option Ptr) := do
  let found ← list.listContainsPos h fuel pos
  if found = false then some (none, pos)
  else do
    let n ← pos.bind h
    some (some n.info, n.prev)

def setNext (h : DllHeap α) (p : Ptr) (next : Option Ptr) : Option (DllHeap α) :=
  (h p).map fun n => Function.update h p (some { n with next := next })

def setPrev (h : DllHeap α) (p : Ptr) (prev : Option Ptr) : Option (DllHeap α) :=
  (h p).map fun n => Function.update h p (some { n with prev := prev })

/-- `DLL_AddHead`, with the node that `malloc` returns. -/
def addHead (h : DllHeap α) (newpos : Ptr) (data : α) (list : Dllist) : Option (DllHeap α × Dllist) :=
  match list.head with
  | none =>
    let node : DllNode α := { info := data, prev := none, next := none }
    some (Function.update h newpos (some node), { count := list.count + 1, head := some newpos, tail := some newpos })
  | some q => do
    let node : DllNode α := { info := data, prev := none, next := some q }
    let h ← setPrev (Function.update h newpos (some node)) q (some newpos)
    some (h, { list with count := list.count + 1, head := some newpos })

/-- The node is taken out of the chain. -/
def unlinkAt (h : DllHeap α) (n : DllNode α) (list : Dllist) : Option (DllHeap α × Dllist) :=
  match n.prev, n.next with
  -- "pos is not the head"
  | some q, some r => do
    let h ← setNext h q (some r)
    let h ← setPrev h r (some q)
    some (h, list)
  | some q, none => do
    let h ← setNext h q none
    some (h, { list with tail := some q })
  -- "pos is the head"
  | none, some r => do
    let h ← setPrev h r none
    some (h, { list with head := some r })
  | none, none => some (h, { list with head := none, tail := none })

/-- `DLL_RemoveAt` -/
def removeAt (h : DllHeap α) (fuel : Nat) (pos : Option Ptr) (list : Dllist) :
    Option (DllHeap α × Dllist × Option α) :=
  match pos with
  | none => some (h, list, none)
  | some p => do
    let found ← list.listContainsPos h fuel (some p)
    if found = false then some (h, list, none)
    else do
      let n ← h p
      let (h, list) ← unlinkAt h n list
      some (Function.update h p none, { list with count := list.count - 1 }, some n.info)

end Dllist

/-! ## Specification -/

section
variable {α : Type}

/-- The first node of some items, or what is behind them. -/
def firstOr (next : Option Ptr) : List (Ptr × α) → Option Ptr
  | [] => next
  | x :: _ => some x.1

/-- The last node of some items, or what is in front of them. -/
def lastOr (prev : Option Ptr) : List (Ptr × α) → Option Ptr
  | [] => prev
  | x :: L => lastOr (some x.1) L

/-- **The items lie in the heap one after the other.** -/
def Chain (h : DllHeap α) (next : Option Ptr) : Option Ptr → List (Ptr × α) → Prop
  | _, [] => True
  | prev, x :: L =>
    h x.1 = some { info := x.2, prev := prev, next := firstOr next L } ∧ Chain h next (some x.1) L

/-- **The items of a list.** -/
structure Dllist.Represents (list : Dllist) (h : DllHeap α) (L : List (Ptr × α)) : Prop where
  head : list.head = firstOr none L
  tail : list.tail = lastOr none L
  count : list.count = L.length
  chain : Chain h none none L
  nodup : (L.map Prod.fst).Nodup

/-! ## Chains -/

variable {h h' : DllHeap α} {prev next : Option Ptr} {A B L : List (Ptr × α)}

theorem firstOr_append (next : Option Ptr) (A B : List (Ptr × α)) :
    firstOr next (A ++ B) = firstOr (firstOr next B) A := by
  cases A with
  | nil => rfl
  | cons x A => rfl

theorem lastOr_append (prev : Option Ptr) (A B : List (Ptr × α)) :
    lastOr prev (A ++ B) = lastOr (lastOr prev A) B := by
  induction A generalizing prev with
  | nil => rfl
  | cons x A ih => exact ih (some x.1)

/-- **A chain in two parts.** -/
theorem chain_append : Chain h next prev (A ++ B) ↔ Chain h (firstOr next B) prev A ∧ Chain h next (lastOr prev A) B := by
  induction A generalizing prev with
  | nil => exact ⟨fun hB => ⟨trivial, hB⟩, And.right⟩
  | cons x A ih =>
    show h x.1 = some { info := x.2, prev := prev, next := firstOr next (A ++ B) } ∧
      Chain h next (some x.1) (A ++ B) ↔ (_ ∧ Chain h (firstOr next B) (some x.1) A) ∧ _
    rw [ih, firstOr_append, and_assoc]
    exact Iff.rfl

/-- Nothing but its own nodes matters. -/
theorem Chain.congr (hL : Chain h next prev L) (hsame : ∀ p ∈ L.map Prod.fst, h' p = h p) : Chain h' next prev L := by
  induction L generalizing prev with
  | nil => trivial
  | cons x L ih =>
    rw [List.map_cons, List.forall_mem_cons] at hsame
    exact ⟨hsame.1.trans hL.1, ih hL.2 hsame.2⟩

theorem Chain.ne_none (hL : Chain h next prev L) {p : Ptr} (hp : p ∈ L.map Prod.fst) : h p ≠ none := by
  induction L generalizing prev with
  | nil => exact absurd hp List.not_mem_nil
  | cons x L ih =>
    rw [List.map_cons, List.mem_cons] at hp
    rcases hp with rfl | hp
    · rw [hL.1]
      exact Option.some_ne_none _
    · exact ih hL.2 hp

theorem update_other {p q : Ptr} {v : Option (DllNode α)} (hne : q ≠ p) : Function.update h p v q = h q :=
  Function.update_of_ne hne v h

theorem Chain.update (hL : Chain h next prev L) {p : Ptr} (hp : p ∉ L.map Prod.fst) (v : Option (DllNode α)) :
    Chain (Function.update h p v) next prev L :=
  hL.congr fun _ hq => update_other fun hqp => hp (hqp ▸ hq)

/-- The last node gets another successor. -/
theorem setNext_chain {x : Ptr × α} (hL : Chain h next prev (A ++ [x])) (hnodup : ((A ++ [x]).map Prod.fst).Nodup)
    (next' : Option Ptr) : ∃ h', Dllist.setNext h x.1 next' = some h' ∧ Chain h' next' prev (A ++ [x]) ∧
      ∀ q, q ≠ x.1 → h' q = h q := by
  rw [chain_append] at hL
  obtain ⟨hA, hx, -⟩ := hL
  have hxA : x.1 ∉ A.map Prod.fst := by
    rw [List.map_append, List.nodup_append] at hnodup
    exact fun hmem => hnodup.2.2 x.1 hmem x.1 (List.mem_singleton_self _) rfl
  refine ⟨_, ?_, chain_append.mpr ⟨hA.update hxA _, Function.update_self .., trivial⟩, fun q hq => update_other hq⟩
  unfold Dllist.setNext
  rw [hx]
  rfl

/-- The first node gets another predecessor. -/
theorem setPrev_chain {x : Ptr × α} (hL : Chain h next prev (x :: B)) (hnodup : ((x :: B).map Prod.fst).Nodup)
    (prev' : Option Ptr) : ∃ h', Dllist.setPrev h x.1 prev' = some h' ∧ Chain h' next prev' (x :: B) ∧
      ∀ q, q ≠ x.1 → h' q = h q := by
  obtain ⟨hx, hB⟩ := hL
  have hxB : x.1 ∉ B.map Prod.fst := (List.nodup_cons.mp hnodup).1
  refine ⟨_, ?_, ⟨Function.update_self .., hB.update hxB _⟩, fun q hq => update_other hq⟩
  unfold Dllist.setPrev
  rw [hx]
  rfl

/-! ## Positions -/

/-- **A position of the list is found.** -/
theorem containsLoop_chain {x : Ptr × α} (hL : Chain h next prev (A ++ x :: B))
    (hnodup : ((A ++ x :: B).map Prod.fst).Nodup) {fuel : Nat} (hfuel : A.length < fuel) :
    Dllist.containsLoop h x.1 fuel (firstOr next (A ++ x :: B)) = some true := by
  induction A generalizing prev fuel with
  | nil =>
    obtain ⟨fuel, rfl⟩ : ∃ k, fuel = k + 1 := ⟨fuel - 1, by rw [List.length_nil] at hfuel; omega⟩
    exact if_pos rfl
  | cons y A ih =>
    obtain ⟨fuel, rfl⟩ : ∃ k, fuel = k + 1 := ⟨fuel - 1, by omega⟩
    obtain ⟨hy, hrest⟩ := hL
    obtain ⟨hnot, hnodup'⟩ := List.nodup_cons.mp (show (y.1 :: (A ++ x :: B).map Prod.fst).Nodup from hnodup)
    have hne : ¬ y.1 = x.1 := fun heq => hnot (heq ▸ List.mem_map_of_mem (List.mem_append_right A List.mem_cons_self))
    show (if y.1 = x.1 then _ else (h y.1).bind _) = _
    rw [if_neg hne, hy]
    exact ih hrest hnodup' (Nat.lt_of_succ_lt_succ hfuel)

namespace Dllist.Represents

variable {list : Dllist}

theorem congr (hrep : list.Represents h L) (hsame : ∀ p ∈ L.map Prod.fst, h' p = h p) : list.Represents h' L :=
  ⟨hrep.head, hrep.tail, hrep.count, hrep.chain.congr hsame, hrep.nodup⟩

theorem contains {x : Ptr × α} (hrep : list.Represents h (A ++ x :: B)) {fuel : Nat} (hfuel : A.length < fuel) :
    list.listContainsPos h fuel (some x.1) = some true := by
  show containsLoop h x.1 fuel list.head = _
  rw [hrep.head]
  exact containsLoop_chain hrep.chain hrep.nodup hfuel

theorem node {x : Ptr × α} (hrep : list.Represents h (A ++ x :: B)) :
    h x.1 = some { info := x.2, prev := lastOr none A, next := firstOr none B } :=
  (chain_append.mp hrep.chain).2.1

variable {x : Ptr × α} (hrep : list.Represents h (A ++ x :: B)) {fuel : Nat} (hfuel : A.length < fuel)
include hrep hfuel

theorem getAt_eq : list.getAt h fuel (some x.1) = some (some x.2) := by
  unfold Dllist.getAt
  simp only [hrep.contains hfuel, Option.bind_eq_bind, Option.bind_some, Bool.true_eq_false, if_false, hrep.node]

theorem getNext_eq : list.getNext h fuel (some x.1) = some (some x.2, firstOr none B) := by
  unfold Dllist.getNext
  simp only [hrep.contains hfuel, Option.bind_eq_bind, Option.bind_some, Bool.true_eq_false, if_false, hrep.node]

theorem getPrev_eq : list.getPrev h fuel (some x.1) = some (some x.2, lastOr none A) := by
  unfold Dllist.getPrev
  simp only [hrep.contains hfuel, Option.bind_eq_bind, Option.bind_some, Bool.true_eq_false, if_false, hrep.node]

end Dllist.Represents

/-! ## Changes -/

variable {list : Dllist}

/-- **A new node at the head.** -/
theorem addHead_represents (hrep : list.Represents h L) {newpos : Ptr} (hnew : newpos ∉ L.map Prod.fst) (data : α) :
    ∃ h' list', list.addHead h newpos data = some (h', list') ∧ list'.Represents h' ((newpos, data) :: L) ∧
      ∀ q, q ≠ newpos → q ∉ L.map Prod.fst → h' q = h q := by
  have hnodup : (((newpos, data) :: L).map Prod.fst).Nodup := List.nodup_cons.mpr ⟨hnew, hrep.nodup⟩
  unfold Dllist.addHead
  cases L with
  | nil =>
    rw [show list.head = none from hrep.head]
    refine ⟨_, _, rfl, ⟨rfl, rfl, ?_, ⟨Function.update_self .., trivial⟩, hnodup⟩, fun q hq _ => update_other hq⟩
    show list.count + 1 = _
    rw [hrep.count]
    rfl
  | cons x L =>
    rw [show list.head = some x.1 from hrep.head]
    have hchain := hrep.chain.update hnew (some { info := data, prev := none, next := some x.1 })
    obtain ⟨h', hset, hchain', hsame⟩ := setPrev_chain hchain hrep.nodup (some newpos)
    have hne : newpos ≠ x.1 := fun heq => hnew (heq ▸ List.mem_cons_self)
    refine ⟨h', { list with count := list.count + 1, head := some newpos }, ?_, ⟨rfl, hrep.tail, ?_, ⟨?_, hchain'⟩, hnodup⟩, ?_⟩
    · show (Dllist.setPrev _ x.1 (some newpos)).bind _ = _
      rw [hset]
      rfl
    · show list.count + 1 = _
      rw [hrep.count]
      exact (Int.natCast_succ _).symm
    · rw [hsame newpos hne]
      exact Function.update_self ..
    · intro q hq hqL
      rw [hsame q fun heq => hqL (heq ▸ List.mem_cons_self)]
      exact update_other hq

/-- **A node gets other data.** -/
theorem setInfo_represents {x : Ptr × α} (hrep : list.Represents h (A ++ x :: B)) (v : α) :
    list.Represents (Function.update h x.1 (some { info := v, prev := lastOr none A, next := firstOr none B }))
      (A ++ (x.1, v) :: B) := by
  obtain ⟨hA, -, hB⟩ := chain_append.mp hrep.chain
  have hperm : ((A ++ x :: B).map Prod.fst).Perm (x.1 :: (A ++ B).map Prod.fst) := List.perm_middle.map Prod.fst
  have hx := (List.nodup_cons.mp (hperm.nodup_iff.mp hrep.nodup)).1
  rw [List.map_append, List.mem_append, not_or] at hx
  refine ⟨?_, ?_, ?_, chain_append.mpr ⟨hA.update hx.1 _, Function.update_self .., hB.update hx.2 _⟩, ?_⟩
  · rw [hrep.head, firstOr_append, firstOr_append]
    rfl
  · rw [hrep.tail, lastOr_append, lastOr_append]
    rfl
  · rw [hrep.count, List.length_append, List.length_append, List.length_cons, List.length_cons]
  · have hnodup := hrep.nodup
    rw [List.map_append, List.map_cons] at hnodup ⊢
    exact hnodup

/-- The node is taken out of the chain. -/
theorem unlinkAt_chain {x : Ptr × α} (hrep : list.Represents h (A ++ x :: B)) :
    ∃ h' list', list.unlinkAt h { info := x.2, prev := lastOr none A, next := firstOr none B } = some (h', list') ∧
      list'.head = firstOr none (A ++ B) ∧ list'.tail = lastOr none (A ++ B) ∧ list'.count = list.count ∧
      Chain h' none none (A ++ B) ∧ ∀ q, q ∉ (A ++ B).map Prod.fst → h' q = h q := by
  obtain ⟨hA, -, hB⟩ := chain_append.mp hrep.chain
  have hnodup := hrep.nodup
  rw [List.map_append, List.map_cons, List.nodup_append, List.nodup_cons] at hnodup
  obtain ⟨hnA, ⟨-, hnB⟩, hAB⟩ := hnodup
  have hdisjoint : ∀ q ∈ A.map Prod.fst, q ∉ B.map Prod.fst := fun q hq hqB =>
    hAB q hq q (List.mem_cons_of_mem _ hqB) rfl
  have htail : list.tail = lastOr (some x.1) B := by
    rw [hrep.tail, lastOr_append]
    rfl
  rcases List.eq_nil_or_concat A with rfl | ⟨A', y, rfl⟩
  · -- "pos is the head"
    cases B with
    | nil => exact ⟨h, { list with head := none, tail := none }, rfl, rfl, rfl, rfl, trivial, fun _ _ => rfl⟩
    | cons z B =>
      obtain ⟨h', hset, hchain, hsame⟩ := setPrev_chain hB hnB none
      refine ⟨h', { list with head := some z.1 }, ?_, rfl, htail, rfl, hchain, ?_⟩
      · show (Dllist.setPrev h z.1 none).bind _ = _
        rw [hset]
        rfl
      · exact fun q hq => hsame q fun heq => hq (heq ▸ List.mem_cons_self)
  · -- "pos is not the head"
    rw [List.concat_eq_append] at hA hnA hdisjoint hrep ⊢
    have hlast : lastOr none (A' ++ [y]) = some y.1 := by
      rw [lastOr_append]
      rfl
    have hyA : y.1 ∈ (A' ++ [y]).map Prod.fst := List.mem_map_of_mem (List.mem_append_right A' (List.mem_singleton_self y))
    rw [hlast]
    cases B with
    | nil =>
      obtain ⟨h', hset, hchain, hsame⟩ := setNext_chain hA hnA none
      rw [List.append_nil]
      refine ⟨h', { list with tail := some y.1 }, ?_, ?_, hlast.symm, rfl, hchain, ?_⟩
      · show (Dllist.setNext h y.1 none).bind _ = _
        rw [hset]
        rfl
      · show list.head = _
        rw [hrep.head, firstOr_append, firstOr_append, firstOr_append]
        rfl
      · exact fun q hq => hsame q fun heq => hq (heq ▸ hyA)
    | cons z B =>
      obtain ⟨h₁, hset₁, hchain₁, hsame₁⟩ := setNext_chain hA hnA (some z.1)
      have hB₁ := hB.congr fun q hq => hsame₁ q fun heq => hdisjoint y.1 hyA (heq ▸ hq)
      obtain ⟨h₂, hset₂, hchain₂, hsame₂⟩ := setPrev_chain hB₁ hnB (some y.1)
      have hzB : z.1 ∈ (z :: B).map Prod.fst := List.mem_cons_self
      have hA₂ := hchain₁.congr fun q hq => hsame₂ q fun heq => hdisjoint q hq (heq ▸ hzB)
      refine ⟨h₂, list, ?_, ?_, ?_, rfl, chain_append.mpr ⟨hA₂, ?_⟩, ?_⟩
      · show (Dllist.setNext h y.1 (some z.1)).bind _ = _
        rw [hset₁]
        show (Dllist.setPrev h₁ z.1 (some y.1)).bind _ = _
        rw [hset₂]
        rfl
      · rw [hrep.head, firstOr_append, firstOr_append, firstOr_append, firstOr_append]
        rfl
      · rw [htail, lastOr_append]
        rfl
      · rw [hlast]
        exact hchain₂
      · intro q hq
        rw [List.map_append, List.mem_append, not_or] at hq
        rw [hsame₂ q fun heq => hq.2 (heq ▸ hzB), hsame₁ q fun heq => hq.1 (heq ▸ hyA)]

/-- **A node is taken out.** -/
theorem removeAt_represents {x : Ptr × α} (hrep : list.Represents h (A ++ x :: B)) {fuel : Nat}
    (hfuel : A.length < fuel) :
    ∃ h' list', list.removeAt h fuel (some x.1) = some (h', list', some x.2) ∧ list'.Represents h' (A ++ B) ∧
      h' x.1 = none ∧ ∀ q, q ∉ (A ++ x :: B).map Prod.fst → h' q = h q := by
  obtain ⟨h₁, list₁, hunlink, hhead, htail, hcount, hchain, hsame⟩ := unlinkAt_chain hrep
  have hperm : ((A ++ x :: B).map Prod.fst).Perm (x.1 :: (A ++ B).map Prod.fst) := List.perm_middle.map Prod.fst
  obtain ⟨hx, hnodup⟩ := List.nodup_cons.mp (hperm.nodup_iff.mp hrep.nodup)
  refine ⟨Function.update h₁ x.1 none, { list₁ with count := list₁.count - 1 }, ?_,
    ⟨hhead, htail, ?_, hchain.update hx none, hnodup⟩, Function.update_self .., ?_⟩
  · unfold Dllist.removeAt
    simp only [hrep.contains hfuel, Option.bind_eq_bind, Option.bind_some, Bool.true_eq_false, if_false, hrep.node,
      hunlink]
  · show list₁.count - 1 = _
    rw [hcount, hrep.count, List.length_append, List.length_append, List.length_cons]
    omega
  · intro q hq
    rw [hperm.mem_iff, List.mem_cons, not_or] at hq
    rw [update_other hq.1, hsame q hq.2]

end

end Trick.TrickAdt
