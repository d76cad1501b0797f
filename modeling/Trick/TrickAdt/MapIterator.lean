/-
  The iterator of a string map, and runs of the table.

  1. **Specification.**  `At` is an element of the table in the order in which the iterator goes through it.
     `listing` are the calls of a whole iteration, `retrace` some calls of `SMI_GetPrev`.

  2. **Steps**: `SMI_GetNext` goes to the next element and returns it (`getNext_at`); `SMI_GetPrev` goes to the
     previous one, but returns it only if it is in another list (`getPrev_at`).

  3. **Main result** (`map_iff`): after any run, lookups and forward iteration are those of the map that has
     been built, and walking back gives the elements in reverse exactly if no two keys share a list.
-/
import Trick.TrickAdt.MapStrToPtr

namespace Trick.TrickAdt

variable {δ : Type}

namespace MapStrToPtr

/-! ## Specification -/

/-- The calls of `SMI_GetNext` after a call that has returned `r`, and what they return before NULL. -/
def listFrom (fuel : Nat) (m : MapStrToPtr δ) : Nat → StrMapIterator × Visited δ → Option (List (Key × δ))
  | 0, _ => none
  | n + 1, (it, visited) =>
    match visited with
    | none => some []
    | some x => (m.smiGetNext fuel it).bind fun r => (listFrom fuel m n r).map (x :: ·)

/-- **A whole iteration.** -/
def listing (fuel : Nat) (m : MapStrToPtr δ) : Option (List (Key × δ)) :=
  (m.smiGetFirst fuel).bind (listFrom fuel m fuel)

/-- `SMI_GetFirst`, and `n` calls of `SMI_GetNext`. -/
def advance (fuel : Nat) (m : MapStrToPtr δ) : Nat → Option (StrMapIterator × Visited δ)
  | 0 => m.smiGetFirst fuel
  | n + 1 => (advance fuel m n).bind fun r => m.smiGetNext fuel r.1

/-- What `n` calls of `SMI_GetPrev` return. -/
def retrace (fuel : Nat) (m : MapStrToPtr δ) : Nat → StrMapIterator → Option (List (Visited δ))
  | 0, _ => some []
  | n + 1, it => (m.smiGetPrev fuel it).bind fun r => (retrace fuel m n r.1).map (r.2 :: ·)

/-- **The table is the map `f`**: lookups, count, and the iteration forwards. -/
structure Forward (fuel : Nat) (m : MapStrToPtr δ) (f : Key → Option δ) (elements : List (Key × δ)) : Prop where
  lookup : ∀ key, m.smLookup fuel key = some (f key)
  count : m.count = elements.length
  listing : m.listing fuel = some elements
  once : (elements.map Prod.fst).Nodup
  all : ∀ key data, (key, data) ∈ elements ↔ f key = some data

/-- **The iteration backwards**: from the element with the number `n` the elements before it, in reverse, and
    then NULL. -/
def Backward (fuel : Nat) (m : MapStrToPtr δ) (elements : List (Key × δ)) : Prop :=
  ∀ n < elements.length, ((m.advance fuel n).bind fun r => m.retrace fuel (n + 1) r.1) =
    some ((elements.take n).reverse.map some ++ [none])

/-! ## The elements in order -/

/-- What the iterator returns for an entry. -/
def element (x : Ptr × TblEntry δ) : Key × δ := (x.2.key, x.2.data)

/-- **The iterator is at an entry.** -/
def At (Ts : List (Bucket δ)) (it : StrMapIterator) (front : List (Ptr × TblEntry δ)) (x : Ptr × TblEntry δ)
    (back : List (Ptr × TblEntry δ)) : Prop :=
  ∃ T₁ T T₂ A B, Ts = T₁ ++ T :: T₂ ∧ T.2 = A ++ x :: B ∧ it = { index := T₁.length, listPos := some x.1 } ∧
    front = entries T₁ ++ A ∧ back = B ++ entries T₂

section
variable {m : MapStrToPtr δ} {fuel : Nat}

theorem At.entries_eq {Ts : List (Bucket δ)} {it : StrMapIterator} {front back : List (Ptr × TblEntry δ)}
    {x : Ptr × TblEntry δ} (h : At Ts it front x back) : entries Ts = front ++ x :: back := by
  obtain ⟨T₁, T, T₂, A, B, rfl, hT, -, rfl, rfl⟩ := h
  rw [entries_split, hT, List.append_assoc, List.append_assoc, List.cons_append]

/-- **The next list that is not empty.** -/
theorem headFrom_at {T₁ : List (Bucket δ)} (T₂ : List (Bucket δ)) (h : m.Holds (T₁ ++ T₂)) (hfuel : 0 < fuel) :
    (entries T₂ = [] → m.headFrom fuel T₂.length T₁.length = some ({ index := 0, listPos := none }, none)) ∧
    ∀ x back, entries T₂ = x :: back →
      ∃ it, m.headFrom fuel T₂.length T₁.length = some (it, some (element x)) ∧
        At (T₁ ++ T₂) it (entries T₁) x back := by
  induction T₂ generalizing T₁ with
  | nil => exact ⟨fun _ => rfl, fun x back hx => absurd hx (List.cons_ne_nil x back).symm⟩
  | cons T T₂ ih =>
    have hturn : m.headFrom fuel (T :: T₂).length T₁.length =
        if T.1.head = none then m.headFrom fuel T₂.length (T₁.length + 1)
        else (T.1.getAt m.heap fuel T.1.head).bind fun data => data.bind fun pEntry =>
          some ({ index := T₁.length, listPos := T.1.head }, some (pEntry.key, pEntry.data)) := by
      show (m.ppList[T₁.length]?).bind _ = _
      rw [h.getElem]
      rfl
    have hbucket := h.bucket
    rw [hturn, hbucket.head]
    cases hT : T.2 with
    | nil =>
      have hsplit : T₁ ++ T :: T₂ = (T₁ ++ [T]) ++ T₂ := by rw [List.append_assoc, List.singleton_append]
      have hentries : entries (T :: T₂) = entries T₂ := by
        rw [entries_cons, hT, List.nil_append]
      have hfront : entries (T₁ ++ [T]) = entries T₁ := by
        rw [entries_append, entries_cons, hT]
        exact List.append_nil _
      have hlen : (T₁ ++ [T]).length = T₁.length + 1 := by rw [List.length_append, List.length_singleton]
      rw [hsplit] at h
      have ih := ih h
      rw [hlen, hfront] at ih
      rw [hentries, hsplit]
      exact ih
    | cons y B =>
      rw [hT] at hbucket
      have hget := Dllist.Represents.getAt_eq (A := []) hbucket hfuel
      have hentries : entries (T :: T₂) = y :: (B ++ entries T₂) := by
        rw [entries_cons, hT, List.cons_append]
      rw [hentries]
      refine ⟨fun hnil => absurd hnil (List.cons_ne_nil _ _), ?_⟩
      intro x back hx
      obtain ⟨rfl, rfl⟩ := List.cons.inj hx
      refine ⟨{ index := T₁.length, listPos := some y.1 }, ?_, T₁, T, T₂, [], B, rfl, hT, rfl, ?_, rfl⟩
      · rw [if_neg (show ¬ firstOr none (y :: B) = none from Option.some_ne_none _)]
        show (T.1.getAt m.heap fuel (some y.1)).bind _ = _
        rw [hget]
        rfl
      · exact (List.append_nil _).symm

/-- **`SMI_GetNext`** goes on to the next entry. -/
theorem getNext_at {Ts : List (Bucket δ)} (h : m.Holds Ts) (hfuel : (entries Ts).length < fuel) {it : StrMapIterator}
    {front back : List (Ptr × TblEntry δ)} {x : Ptr × TblEntry δ} (hat : At Ts it front x back) :
    (back = [] → m.smiGetNext fuel it = some ({ index := 0, listPos := none }, none)) ∧
    ∀ y back', back = y :: back' → ∃ it', m.smiGetNext fuel it = some (it', some (element y)) ∧
      At Ts it' (front ++ [x]) y back' := by
  obtain ⟨T₁, T, T₂, A, B, rfl, hT, rfl, rfl, rfl⟩ := hat
  have hbucket := h.bucket
  have hlen := length_bucket hfuel
  rw [hT] at hbucket hlen
  rw [List.length_append, List.length_cons] at hlen
  have hnext := hbucket.getNext_eq (show A.length < fuel by omega)
  have hturn : m.smiGetNext fuel { index := T₁.length, listPos := some x.1 } =
      if firstOr none B = none then m.headFrom fuel (m.size - (T₁.length + 1)) (T₁.length + 1)
      else (T.1.getAt m.heap fuel (firstOr none B)).bind fun data => data.bind fun pEntry =>
        some ({ index := T₁.length, listPos := firstOr none B }, some (pEntry.key, pEntry.data)) := by
    unfold smiGetNext
    rw [if_neg (Option.some_ne_none _)]
    show (m.ppList[T₁.length]?).bind _ = _
    rw [h.getElem]
    show (T.1.getNext m.heap fuel (some x.1)).bind _ = _
    rw [hnext]
    rfl
  rw [hturn]
  cases B with
  | nil =>
    -- "find the next list that is not empty"
    have hsize : m.size - (T₁.length + 1) = T₂.length := by
      rw [h.size, List.length_append, List.length_cons]
      omega
    have hsplit : T₁ ++ T :: T₂ = (T₁ ++ [T]) ++ T₂ := by rw [List.append_assoc, List.singleton_append]
    have hindex : (T₁ ++ [T]).length = T₁.length + 1 := by rw [List.length_append, List.length_singleton]
    have hfront : entries (T₁ ++ [T]) = entries T₁ ++ A ++ [x] := by
      rw [entries_append, entries_cons, hT]
      show entries T₁ ++ (A ++ [x] ++ []) = _
      rw [List.append_nil, List.append_assoc]
    rw [hsplit] at h
    have hhead := headFrom_at T₂ h (show 0 < fuel by omega)
    rw [hindex, hfront, ← hsplit] at hhead
    rw [if_pos (show firstOr none ([] : List (Ptr × TblEntry δ)) = none from rfl), hsize]
    exact hhead
  | cons z B =>
    -- "found the next entry in the current list"
    have hbucket' : T.1.Represents m.heap ((A ++ [x]) ++ z :: B) := by
      rw [List.append_assoc]
      exact hbucket
    rw [List.length_cons] at hlen
    have hget := hbucket'.getAt_eq (show (A ++ [x]).length < fuel by rw [List.length_append, List.length_singleton]; omega)
    refine ⟨fun hnil => absurd hnil (List.cons_ne_nil _ _), ?_⟩
    intro y back' hy
    obtain ⟨rfl, rfl⟩ := List.cons.inj hy
    refine ⟨{ index := T₁.length, listPos := some z.1 }, ?_, T₁, T, T₂, A ++ [x], B, rfl, ?_, rfl, ?_, rfl⟩
    · rw [if_neg (show ¬ firstOr none (z :: B) = none from Option.some_ne_none _)]
      show (T.1.getAt m.heap fuel (some z.1)).bind _ = _
      rw [hget]
      rfl
    · rw [hT, List.append_assoc]
      rfl
    · rw [List.append_assoc]

/-- **The last entry of the previous lists.** -/
theorem tailBelow_at (T₁ U : List (Bucket δ)) (h : m.Holds (T₁ ++ U)) (hfuel : (entries (T₁ ++ U)).length < fuel) :
    (entries T₁ = [] → m.tailBelow fuel T₁.length = some ({ index := 0, listPos := none }, none)) ∧
    ∀ front w, entries T₁ = front ++ [w] → ∃ it, m.tailBelow fuel T₁.length = some (it, some (element w)) ∧
      At (T₁ ++ U) it front w (entries U) := by
  induction T₁ using List.reverseRecOn generalizing U with
  | nil =>
    refine ⟨fun _ => rfl, fun front w hw => absurd hw (List.append_ne_nil_of_right_ne_nil _ (List.cons_ne_nil w [])).symm⟩
  | append_singleton T₁ T ih =>
    have hsplit : T₁ ++ [T] ++ U = T₁ ++ T :: U := by rw [List.append_assoc, List.singleton_append]
    have hlen : (T₁ ++ [T]).length = T₁.length + 1 := by rw [List.length_append, List.length_singleton]
    have hentries : entries (T₁ ++ [T]) = entries T₁ ++ T.2 := by
      rw [entries_append, entries_cons]
      exact congrArg (entries T₁ ++ ·) (List.append_nil T.2)
    rw [hsplit] at h hfuel ⊢
    rw [hlen, hentries]
    have hbucket := h.bucket
    have hturn : m.tailBelow fuel (T₁.length + 1) =
        if T.1.tail = none then m.tailBelow fuel T₁.length
        else (T.1.getAt m.heap fuel T.1.tail).bind fun data => data.bind fun pEntry =>
          some ({ index := T₁.length, listPos := T.1.tail }, some (pEntry.key, pEntry.data)) := by
      show (m.ppList[T₁.length]?).bind _ = _
      rw [h.getElem]
      rfl
    rw [hturn, hbucket.tail]
    rcases List.eq_nil_or_concat T.2 with hT | ⟨A, y, hT⟩
    · rw [hT, if_pos (show lastOr none ([] : List (Ptr × TblEntry δ)) = none from rfl), List.append_nil]
      have ih := ih (T :: U) h hfuel
      have hrest : entries (T :: U) = entries U := by rw [entries_cons, hT, List.nil_append]
      rw [hrest] at ih
      exact ih
    · rw [List.concat_eq_append] at hT
      have hlast : lastOr none (A ++ [y]) = some y.1 := by
        rw [lastOr_append]
        rfl
      have hlenT := length_bucket hfuel
      rw [hT] at hbucket hlenT
      rw [List.length_append, List.length_singleton] at hlenT
      have hget := hbucket.getAt_eq (show A.length < fuel by omega)
      rw [hT, hlast, ← List.append_assoc]
      refine ⟨fun hnil => absurd hnil (List.append_ne_nil_of_right_ne_nil _ (List.cons_ne_nil y [])), ?_⟩
      intro front w hw
      obtain ⟨rfl, hyw⟩ := List.append_inj' hw rfl
      obtain rfl : y = w := (List.cons.inj hyw).1
      refine ⟨{ index := T₁.length, listPos := some y.1 }, ?_, T₁, T, U, A, [], rfl, hT, rfl, rfl, rfl⟩
      rw [if_neg (Option.some_ne_none _), hget]
      rfl

/-- **`SMI_GetPrev`** goes back to the previous entry, and returns it if it is in another list. -/
theorem getPrev_at {Ts : List (Bucket δ)} (h : m.Holds Ts) (hfuel : (entries Ts).length < fuel) {it : StrMapIterator}
    {front back : List (Ptr × TblEntry δ)} {x : Ptr × TblEntry δ} (hat : At Ts it front x back) :
    (front = [] → m.smiGetPrev fuel it = some ({ index := 0, listPos := none }, none)) ∧
    ∀ front' w, front = front' ++ [w] → ∃ it', m.smiGetPrev fuel it =
        some (it', if smHash w.2.key m.size = smHash x.2.key m.size then none else some (element w)) ∧
      At Ts it' front' w (x :: back) := by
  obtain ⟨T₁, T, T₂, A, B, rfl, hT, rfl, rfl, rfl⟩ := hat
  have hbucket := h.bucket
  have hplace := h.place _ T (getElem?_bucket T₁ T T₂)
  have hlen := length_bucket hfuel
  rw [hT] at hbucket hlen hplace
  rw [List.length_append, List.length_cons] at hlen
  have hx := hplace x (List.mem_append_right A List.mem_cons_self)
  have hprev := hbucket.getPrev_eq (show A.length < fuel by omega)
  have hturn : m.smiGetPrev fuel { index := T₁.length, listPos := some x.1 } =
      if lastOr none A = none then m.tailBelow fuel T₁.length
      else some ({ index := T₁.length, listPos := lastOr none A }, none) := by
    unfold smiGetPrev
    rw [if_neg (Option.some_ne_none _)]
    show (m.ppList[T₁.length]?).bind _ = _
    rw [h.getElem]
    show (T.1.getPrev m.heap fuel (some x.1)).bind _ = _
    rw [hprev]
    rfl
  rw [hturn]
  rcases List.eq_nil_or_concat A with rfl | ⟨A', w', hA⟩
  · -- the previous lists
    obtain ⟨hnone, hsome⟩ := tailBelow_at T₁ (T :: T₂) h hfuel
    have hback : entries (T :: T₂) = x :: (B ++ entries T₂) := by
      rw [entries_cons, hT]
      rfl
    rw [if_pos (show lastOr none ([] : List (Ptr × TblEntry δ)) = none from rfl), List.append_nil]
    refine ⟨hnone, ?_⟩
    intro front' w hw
    obtain ⟨it', hrun, hat'⟩ := hsome front' w hw
    rw [hback] at hat'
    refine ⟨it', ?_, hat'⟩
    -- it is in another list
    have hmem : w ∈ entries T₁ := by
      rw [hw]
      exact List.mem_append_right _ (List.mem_singleton_self w)
    obtain ⟨V, hV, hwV⟩ := List.mem_flatMap.mp hmem
    obtain ⟨V₁, V₂, rfl⟩ := List.append_of_mem hV
    have hVat : (V₁ ++ V :: V₂ ++ T :: T₂)[V₁.length]? = some V := by
      rw [List.append_assoc, List.cons_append, getElem?_bucket]
    have hwplace := h.place _ V hVat w hwV
    rw [List.length_append, List.length_cons] at hx
    rw [hrun, if_neg (by omega)]
  · -- the previous node of the same list
    rw [List.concat_eq_append] at hA
    subst hA
    have hlast : lastOr none (A' ++ [w']) = some w'.1 := by
      rw [lastOr_append]
      rfl
    rw [hlast, if_neg (Option.some_ne_none _), ← List.append_assoc]
    refine ⟨fun hnil => absurd hnil (List.append_ne_nil_of_right_ne_nil _ (List.cons_ne_nil w' [])), ?_⟩
    intro front' w hw
    obtain ⟨rfl, hww⟩ := List.append_inj' hw rfl
    obtain rfl : w' = w := (List.cons.inj hww).1
    have hwplace := hplace w' (List.mem_append_left _ (List.mem_append_right A' (List.mem_singleton_self w')))
    refine ⟨_, ?_, T₁, T, T₂, A', x :: B, rfl, ?_, rfl, rfl, rfl⟩
    · rw [if_pos (hwplace.trans hx.symm)]
    · rw [hT, List.append_assoc]
      rfl

/-! ## Whole iterations -/

theorem getFirst_at {Ts : List (Bucket δ)} (h : m.Holds Ts) (hfuel : 0 < fuel) :
    (entries Ts = [] → m.smiGetFirst fuel = some ({ index := 0, listPos := none }, none)) ∧
    ∀ x back, entries Ts = x :: back →
      ∃ it, m.smiGetFirst fuel = some (it, some (element x)) ∧ At Ts it [] x back := by
  have hhead := headFrom_at Ts (show m.Holds ([] ++ Ts) from h) hfuel
  rw [← h.size] at hhead
  refine ⟨?_, ?_⟩
  · intro hnil
    have hcount : m.count = 0 := by
      rw [h.count, hnil]
      rfl
    exact if_pos hcount
  · intro x back hx
    have hcount : ¬ m.count = 0 := by
      rw [h.count, hx, List.length_cons]
      omega
    obtain ⟨it, hrun, hat⟩ := hhead.2 x back hx
    refine ⟨it, ?_, hat⟩
    unfold smiGetFirst
    rw [if_neg hcount]
    exact hrun

/-- The rest of an iteration. -/
theorem listFrom_at {Ts : List (Bucket δ)} (h : m.Holds Ts) (hfuel : (entries Ts).length < fuel)
    {front back : List (Ptr × TblEntry δ)} {x : Ptr × TblEntry δ} {it : StrMapIterator} (hat : At Ts it front x back)
    {n : Nat} (hn : back.length + 1 < n) :
    listFrom fuel m n (it, some (element x)) = some ((x :: back).map element) := by
  induction back generalizing front x it n with
  | nil =>
    obtain ⟨n, rfl⟩ : ∃ k, n = k + 2 := ⟨n - 2, by rw [List.length_nil] at hn; omega⟩
    show (m.smiGetNext fuel it).bind _ = _
    rw [(getNext_at h hfuel hat).1 rfl]
    rfl
  | cons y back ih =>
    rw [List.length_cons] at hn
    obtain ⟨n, rfl⟩ : ∃ k, n = k + 1 := ⟨n - 1, by omega⟩
    obtain ⟨it', hrun, hat'⟩ := (getNext_at h hfuel hat).2 y back rfl
    show (m.smiGetNext fuel it).bind _ = _
    rw [hrun]
    show (listFrom fuel m n (it', some (element y))).map _ = _
    rw [ih hat' (by omega)]
    rfl

/-- The iterator after some calls. -/
theorem advance_at {Ts : List (Bucket δ)} (h : m.Holds Ts) (hfuel : (entries Ts).length < fuel)
    {front back : List (Ptr × TblEntry δ)} {x : Ptr × TblEntry δ} (hsplit : entries Ts = front ++ x :: back) :
    ∃ it, m.advance fuel front.length = some (it, some (element x)) ∧ At Ts it front x back := by
  induction front using List.reverseRecOn generalizing x back with
  | nil => exact (getFirst_at h (show 0 < fuel by omega)).2 x back hsplit
  | append_singleton front w ih =>
    have hfront : entries Ts = front ++ w :: x :: back := by
      rw [hsplit, List.append_assoc, List.singleton_append]
    obtain ⟨it, hrun, hat⟩ := ih hfront
    obtain ⟨it', hnext, hat'⟩ := (getNext_at h hfuel hat).2 x back rfl
    refine ⟨it', ?_, hat'⟩
    rw [List.length_append, List.length_singleton]
    show (m.advance fuel front.length).bind _ = _
    rw [hrun]
    exact hnext

/-- **The way back**, where no two entries share a list. -/
theorem retrace_at {Ts : List (Bucket δ)} (h : m.Holds Ts) (hfuel : (entries Ts).length < fuel)
    (hapart : (entries Ts).Pairwise fun x y => smHash x.2.key m.size ≠ smHash y.2.key m.size)
    {front back : List (Ptr × TblEntry δ)} {x : Ptr × TblEntry δ} {it : StrMapIterator} (hat : At Ts it front x back) :
    m.retrace fuel (front.length + 1) it = some ((front.map element).reverse.map some ++ [none]) := by
  induction front using List.reverseRecOn generalizing x back it with
  | nil =>
    show (m.smiGetPrev fuel it).bind _ = _
    rw [(getPrev_at h hfuel hat).1 rfl]
    rfl
  | append_singleton front w ih =>
    obtain ⟨it', hrun, hat'⟩ := (getPrev_at h hfuel hat).2 front w rfl
    have hne : ¬ smHash w.2.key m.size = smHash x.2.key m.size := by
      have hpair := hat.entries_eq ▸ hapart
      exact (List.pairwise_append.mp hpair).2.2 w (List.mem_append_right _ (List.mem_singleton_self w)) x
        List.mem_cons_self
    rw [if_neg hne] at hrun
    rw [List.length_append, List.length_singleton]
    show (m.smiGetPrev fuel it).bind _ = _
    rw [hrun]
    show (m.retrace fuel (front.length + 1) it').map _ = _
    rw [ih hat', List.map_append, List.reverse_append]
    rfl

/-- **The iterations of a table**, forwards. -/
theorem forward_of_holds {Ts : List (Bucket δ)} (h : m.Holds Ts) (hfuel : (entries Ts).length + 1 < fuel) :
    m.Forward fuel (content Ts) ((entries Ts).map element) := by
  have hlt : (entries Ts).length < fuel := by omega
  refine ⟨?_, ?_, ?_, ?_, ?_⟩
  · intro key
    unfold smLookup
    rw [h.lookupEntry_eq key hlt]
    rfl
  · rw [h.count, List.length_map]
  · obtain ⟨hnil, hcons⟩ := getFirst_at h (show 0 < fuel by omega)
    unfold listing
    cases hentries : entries Ts with
    | nil =>
      obtain ⟨n, rfl⟩ : ∃ k, fuel = k + 1 := ⟨fuel - 1, by omega⟩
      rw [hnil hentries]
      rfl
    | cons x back =>
      obtain ⟨it, hrun, hat⟩ := hcons x back hentries
      rw [hentries, List.length_cons] at hfuel
      rw [hrun]
      exact listFrom_at h hlt hat (show back.length + 1 < fuel by omega)
  · rw [List.map_map]
    exact h.keys
  · intro key data
    constructor
    · intro hmem
      obtain ⟨x, hx, heq⟩ := List.mem_map.mp hmem
      obtain ⟨rfl, rfl⟩ := Prod.mk.inj (show (x.2.key, x.2.data) = (key, data) from heq)
      obtain ⟨A, B, hsplit⟩ := List.append_of_mem hx
      unfold content
      rw [hsplit, find_only rfl (h.keys_ne hsplit).1]
      rfl
    · intro hdata
      obtain ⟨x, hfind, rfl⟩ := Option.map_eq_some_iff.mp hdata
      have hkey := List.find?_some hfind
      rw [decide_eq_true_eq] at hkey
      obtain rfl := hkey
      exact List.mem_map_of_mem (List.mem_of_find?_eq_some hfind)

/-- The way back is right where no two entries share a list. -/
theorem backward_of_apart {Ts : List (Bucket δ)} (h : m.Holds Ts) (hfuel : (entries Ts).length < fuel)
    (hapart : (entries Ts).Pairwise fun x y => smHash x.2.key m.size ≠ smHash y.2.key m.size) :
    m.Backward fuel ((entries Ts).map element) := by
  intro n hn
  rw [List.length_map] at hn
  have hsplit : entries Ts = (entries Ts).take n ++ (entries Ts)[n] :: (entries Ts).drop (n + 1) := by
    rw [← List.drop_eq_getElem_cons hn, List.take_append_drop]
  have hlen : ((entries Ts).take n).length = n := by
    rw [List.length_take]
    omega
  obtain ⟨it, hrun, hat⟩ := advance_at h hfuel hsplit
  have hback := retrace_at h hfuel hapart hat
  rw [hlen] at hrun hback
  rw [hrun, List.map_take.symm]
  exact hback

/-- **The way back loses the second entry of a list.** -/
theorem not_backward {Ts : List (Bucket δ)} (h : m.Holds Ts) (hfuel : (entries Ts).length < fuel)
    {front back : List (Ptr × TblEntry δ)} {w x : Ptr × TblEntry δ} (hsplit : entries Ts = (front ++ [w]) ++ x :: back)
    (hhash : smHash w.2.key m.size = smHash x.2.key m.size) : ¬ m.Backward fuel ((entries Ts).map element) := by
  intro hback
  obtain ⟨it, hrun, hat⟩ := advance_at h hfuel hsplit
  obtain ⟨it', hprev, -⟩ := (getPrev_at h hfuel hat).2 front w rfl
  rw [if_pos hhash] at hprev
  have hlen : (front ++ [w]).length = front.length + 1 := by rw [List.length_append, List.length_singleton]
  have hn : front.length + 1 < ((entries Ts).map element).length := by
    rw [hsplit, List.length_map, List.length_append, hlen, List.length_cons]
    omega
  have htake : ((entries Ts).map element).take (front.length + 1) = front.map element ++ [element w] := by
    rw [hsplit, List.map_append, List.take_append_of_le_length (by rw [List.length_map, hlen]),
      List.take_of_length_le (by rw [List.length_map, hlen]), List.map_append]
    rfl
  have hfirst := hback (front.length + 1) hn
  rw [hlen] at hrun
  rw [hrun, htake, List.reverse_append] at hfirst
  -- the first call returns nothing
  have hnone : (m.smiGetPrev fuel it).bind (fun r => (m.retrace fuel (front.length + 1) r.1).map (r.2 :: ·)) =
      some (some (element w) :: ((front.map element).reverse.map some ++ [none])) := hfirst
  rw [hprev] at hnone
  obtain ⟨rest, -, heq⟩ := Option.map_eq_some_iff.mp
    (show (m.retrace fuel (front.length + 1) it').map (none :: ·) = _ from hnone)
  exact Option.some_ne_none _ (List.cons.inj heq).1.symm

/-- An entry is in the list of its hash value. -/
theorem Holds.mem_bucket {T₁ T₂ : List (Bucket δ)} {T : Bucket δ} (h : m.Holds (T₁ ++ T :: T₂)) {x : Ptr × TblEntry δ}
    (hx : x ∈ entries (T₁ ++ T :: T₂)) (hhash : T₁.length = smHash x.2.key m.size) : x ∈ T.2 := by
  obtain ⟨U, hU, hxU⟩ := List.mem_flatMap.mp hx
  obtain ⟨j, hj⟩ := List.mem_iff_getElem?.mp hU
  have hplace := h.place j U hj x hxU
  rw [← hhash] at hplace
  rw [← hplace, getElem?_bucket] at hj
  rw [Option.some.inj hj]
  exact hxU

/-- **When the way back is right.** -/
theorem backward_iff {Ts : List (Bucket δ)} (h : m.Holds Ts) (hfuel : (entries Ts).length < fuel) :
    m.Backward fuel ((entries Ts).map element) ↔ ∀ k₁ k₂, content Ts k₁ ≠ none → content Ts k₂ ≠ none → k₁ ≠ k₂ →
      smHash k₁ m.size ≠ smHash k₂ m.size := by
  have hkey : ∀ key, content Ts key ≠ none ↔ ∃ x ∈ entries Ts, x.2.key = key := by
    intro key
    unfold content
    rw [← Option.isSome_iff_ne_none, Option.isSome_map, List.find?_isSome]
    simp only [decide_eq_true_eq]
  constructor
  · intro hback k₁ k₂ hk₁ hk₂ hne heq
    obtain ⟨x, hx, rfl⟩ := (hkey k₁).mp hk₁
    obtain ⟨y, hy, rfl⟩ := (hkey k₂).mp hk₂
    -- they are in one list, which has then two entries next to each other
    obtain ⟨T₁, T, T₂, rfl, hidx⟩ := exists_bucket (h.hash_lt x.2.key)
    have hxT := h.mem_bucket hx hidx
    have hyT := h.mem_bucket hy (hidx.trans heq)
    have hplace := h.place _ T (getElem?_bucket T₁ T T₂)
    cases hT : T.2 with
    | nil => exact absurd (hT ▸ hxT) List.not_mem_nil
    | cons a B =>
      cases B with
      | nil =>
        rw [hT, List.mem_singleton] at hxT hyT
        exact hne (by rw [hxT, hyT])
      | cons b B =>
        rw [hT] at hplace
        have ha := hplace a List.mem_cons_self
        have hb := hplace b (List.mem_cons_of_mem a List.mem_cons_self)
        have hsplit : entries (T₁ ++ T :: T₂) = (entries T₁ ++ [a]) ++ b :: (B ++ entries T₂) := by
          rw [entries_split, hT, List.append_assoc]
          rfl
        exact not_backward h hfuel hsplit (ha.trans hb.symm) hback
  · intro hapart
    refine backward_of_apart h hfuel ?_
    have hkeys : (entries Ts).Pairwise fun x y => x.2.key ≠ y.2.key := List.pairwise_map.mp h.keys
    refine hkeys.imp_of_mem fun hx hy hne => ?_
    exact hapart _ _ ((hkey _).mpr ⟨_, hx, rfl⟩) ((hkey _).mpr ⟨_, hy, rfl⟩) hne

end

/-! ## Runs -/

/-- **A change of the table**, with the node that `malloc` returns if one is needed. -/
inductive MapOp (δ : Type) where
  | map (key : Key) (data : δ) (newNode : Ptr)
  | removeKey (key : Key)

namespace MapOp

/-- The call. -/
def step (fuel : Nat) (m : MapStrToPtr δ) : MapOp δ → Option (MapStrToPtr δ)
  | map key data newNode => (m.smMap fuel key data newNode).map Prod.fst
  | removeKey key => (m.smRemoveKey fuel key).map Prod.fst

/-- What `malloc` promises: a node that is not in use. -/
def Ok (m : MapStrToPtr δ) : MapOp δ → Prop
  | map _ _ newNode => m.heap newNode = none
  | removeKey _ => True

/-- **The meaning of a call**: "maps data to key", "remove a key". -/
def meaning (f : Key → Option δ) : MapOp δ → Key → Option δ
  | map key data _ => Function.update f key (some data)
  | removeKey key => Function.update f key none

end MapOp

/-- **A run.** -/
def run (fuel : Nat) : MapStrToPtr δ → List (MapOp δ) → Option (MapStrToPtr δ)
  | m, [] => some m
  | m, op :: ops => (op.step fuel m).bind fun m' => run fuel m' ops

/-- The calls of a run get nodes that are not in use. -/
def Permitted (fuel : Nat) : MapStrToPtr δ → List (MapOp δ) → Prop
  | _, [] => True
  | m, op :: ops => op.Ok m ∧ ∀ m', op.step fuel m = some m' → Permitted fuel m' ops

/-- **The map that a run has built.** -/
def meaning (ops : List (MapOp δ)) : Key → Option δ := ops.foldl MapOp.meaning fun _ => none

/-- **A map with an iteration in both directions.** -/
def IsMap (fuel : Nat) (m : MapStrToPtr δ) (f : Key → Option δ) : Prop :=
  ∃ elements, m.Forward fuel f elements ∧ m.Backward fuel elements

theorem holds_create {nSize : Nat} (h : 0 < nSize) :
    (smCreate nSize : MapStrToPtr δ).Holds (List.replicate nSize (dllCreate, [])) := by
  have hentries : entries (List.replicate nSize ((dllCreate, []) : Bucket δ)) = [] := by
    unfold entries
    rw [List.flatMap_eq_nil_iff]
    intro T hT
    rw [(List.mem_replicate.mp hT).2]
  refine ⟨?_, ?_, h, ?_, ?_, ?_, ?_, ?_, ?_⟩
  · rw [List.map_replicate]
    rfl
  · rw [List.length_replicate]
    rfl
  · intro T hT
    rw [(List.mem_replicate.mp hT).2]
    exact ⟨rfl, rfl, rfl, trivial, List.nodup_nil⟩
  · rw [hentries]
    exact List.nodup_nil
  · exact fun p hp => absurd rfl hp
  · rw [hentries]
    rfl
  · intro i T hT x hx
    rw [(List.mem_replicate.mp (List.mem_of_getElem? hT)).2] at hx
    exact absurd hx List.not_mem_nil
  · rw [hentries]
    exact List.nodup_nil

/-- **One call.** -/
theorem step_holds {m : MapStrToPtr δ} {fuel : Nat} {Ts : List (Bucket δ)} (h : m.Holds Ts) {op : MapOp δ}
    (hok : op.Ok m) (hfuel : (entries Ts).length < fuel) :
    ∃ m' Ts', op.step fuel m = some m' ∧ m'.Holds Ts' ∧ content Ts' = op.meaning (content Ts) ∧
      (entries Ts').length ≤ (entries Ts).length + 1 ∧ m'.size = m.size := by
  cases op with
  | map key data newNode =>
    obtain ⟨m', Ts', hrun, hholds, hcontent, hlen, hsize⟩ := map_holds h key data hok hfuel
    refine ⟨m', Ts', ?_, hholds, hcontent, hlen, hsize⟩
    show (m.smMap fuel key data newNode).map Prod.fst = some m'
    rw [hrun]
    rfl
  | removeKey key =>
    obtain ⟨m', Ts', hrun, hholds, hcontent, hlen, hsize⟩ := remove_holds h key hfuel
    refine ⟨m', Ts', ?_, hholds, hcontent, by omega, hsize⟩
    show (m.smRemoveKey fuel key).map Prod.fst = some m'
    rw [hrun]
    rfl

/-- **A run.** -/
theorem run_holds {m : MapStrToPtr δ} {fuel : Nat} {Ts : List (Bucket δ)} (h : m.Holds Ts) {ops : List (MapOp δ)}
    (hops : Permitted fuel m ops) (hfuel : (entries Ts).length + ops.length ≤ fuel) :
    ∃ m' Ts', run fuel m ops = some m' ∧ m'.Holds Ts' ∧ content Ts' = ops.foldl MapOp.meaning (content Ts) ∧
      (entries Ts').length ≤ (entries Ts).length + ops.length ∧ m'.size = m.size := by
  induction ops generalizing m Ts with
  | nil => exact ⟨m, Ts, rfl, h, rfl, Nat.le_refl _, rfl⟩
  | cons op ops ih =>
    rw [List.length_cons] at hfuel ⊢
    obtain ⟨m₁, Ts₁, hstep, hholds₁, hcontent₁, hlen₁, hsize₁⟩ := step_holds h hops.1 (show (entries Ts).length < fuel by omega)
    obtain ⟨m', Ts', hrun, hholds, hcontent, hlen, hsize⟩ := ih hholds₁ (hops.2 m₁ hstep) (by omega)
    refine ⟨m', Ts', ?_, hholds, ?_, by omega, hsize.trans hsize₁⟩
    · show (op.step fuel m).bind _ = some m'
      rw [hstep]
      exact hrun
    · rw [hcontent, hcontent₁]
      rfl

/-- **The table after any run**: lookups, count and iteration forwards are those of the map that has been built;
    the way back is right exactly if no two of its keys share a list. -/
theorem map_iff {nSize : Nat} (hsize : 0 < nSize) {ops : List (MapOp δ)} {fuel : Nat}
    (hops : Permitted fuel (smCreate nSize) ops) (hfuel : ops.length + 1 < fuel) :
    ∃ m, run fuel (smCreate nSize) ops = some m ∧ (∃ elements, m.Forward fuel (meaning ops) elements) ∧
      (m.IsMap fuel (meaning ops) ↔ ∀ k₁ k₂, meaning ops k₁ ≠ none → meaning ops k₂ ≠ none → k₁ ≠ k₂ →
        smHash k₁ nSize ≠ smHash k₂ nSize) := by
  have hcreate : (smCreate nSize : MapStrToPtr δ).Holds _ := holds_create hsize
  have hempty : entries (List.replicate nSize ((dllCreate, []) : Bucket δ)) = [] :=
    List.length_eq_zero_iff.mp (Int.ofNat.inj hcreate.count).symm
  have hstart : content (List.replicate nSize ((dllCreate, []) : Bucket δ)) = fun _ => none := by
    funext key
    unfold content
    rw [hempty]
    rfl
  obtain ⟨m, Ts, hrun, hholds, hcontent, hlen, hsame⟩ := run_holds hcreate hops (by rw [hempty, List.length_nil]; omega)
  rw [hempty, List.length_nil, Nat.zero_add] at hlen
  have hmeaning : content Ts = meaning ops := by
    rw [hcontent, hstart]
    rfl
  have hforward := forward_of_holds hholds (show (entries Ts).length + 1 < fuel by omega)
  have hback := backward_iff hholds (show (entries Ts).length < fuel by omega)
  rw [hsame] at hback
  rw [hmeaning] at hforward hback
  refine ⟨m, hrun, ⟨_, hforward⟩, ?_⟩
  constructor
  · rintro ⟨elements, hforward', hbackward⟩
    obtain rfl := Option.some.inj (hforward'.listing.symm.trans hforward.listing)
    exact hback.mp hbackward
  · exact fun hapart => ⟨_, hforward, hback.mpr hapart⟩

/-- Two keys in a table of two lists, of which one is removed again. -/
theorem map_iff_two :
    ∃ m, run 8 (smCreate 2) [MapOp.map [97] 1 0, .map [98] 2 1, .map [97] 3 2, .removeKey [98]] = some m ∧
      (∃ elements, m.Forward 8 (meaning [MapOp.map [97] 1 0, .map [98] 2 1, .map [97] 3 2, .removeKey [98]]) elements) ∧
      (m.IsMap 8 (meaning [MapOp.map [97] 1 0, .map [98] 2 1, .map [97] 3 2, .removeKey [98]]) ↔ ∀ k₁ k₂,
        meaning [MapOp.map [97] 1 0, .map [98] 2 1, .map [97] 3 2, .removeKey [98]] k₁ ≠ none →
        meaning [MapOp.map [97] 1 0, .map [98] 2 1, .map [97] 3 2, .removeKey [98]] k₂ ≠ none → k₁ ≠ k₂ →
        smHash k₁ 2 ≠ smHash k₂ 2) := by
  refine map_iff (by decide) ?_ (by decide)
  refine ⟨rfl, ?_⟩
  rintro _ ⟨⟩
  refine ⟨rfl, ?_⟩
  rintro _ ⟨⟩
  refine ⟨rfl, ?_⟩
  rintro _ ⟨⟩
  exact ⟨trivial, fun _ _ => trivial⟩

/-- **Two keys in one list**: from the second element `SMI_GetPrev` returns nothing. -/
theorem not_map_two : ∃ m, run 8 (smCreate 1) [MapOp.map [97] 1 0, .map [98] 2 1] = some m ∧
    m.listing 8 = some [([98], 2), ([97], 1)] ∧
    ((m.advance 8 1).bind fun r => m.retrace 8 2 r.1) = some [none, none] ∧
    ¬ m.IsMap 8 (meaning [MapOp.map [97] 1 0, .map [98] 2 1]) := by
  refine ⟨_, rfl, rfl, rfl, ?_⟩
  rintro ⟨elements, hforward, hbackward⟩
  have helements : elements = [([98], 2), ([97], 1)] := (Option.some.inj hforward.listing).symm
  subst helements
  have hback := hbackward 1 (by decide)
  exact Option.some_ne_none _ (List.cons.inj (Option.some.inj hback)).1.symm

end MapStrToPtr

end Trick.TrickAdt
