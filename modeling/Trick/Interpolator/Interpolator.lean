/-
  `Interpolator::eval`: interpolation in a table of any number of dimensions.

  Data:           a table, and one list of breakpoints for each parameter.  Numbers are exact rationals; the
                  index into the table is an unsigned integer of 32 bits.
  Program:        `eval` looks for the cell of its first parameter (`cell`) and calls itself for both ends of it.
  Specification:  `Interpolates`: an exception for exactly the parameters outside of their breakpoints, and
                  otherwise the multilinear interpolation of the corners of a cell.
  Result:         `table_correct_iff`: so it is, for every table and every parameter vector, if and only if the table
                  has no more entries than the index can count.
-/
import Trick.Lib.Grid

namespace Trick.Interpolator

open Trick.Lib

/-! ## The function -/

/-- A value or an exception; nothing, if memory outside of an array is read. -/
abbrev Result := ExceptT String Option ℚ

/-- The text of the exception. -/
def outsideMessage (paramIndex : Nat) : String :=
  "Interpolation parameter[" ++ toString paramIndex ++ "] is outside of its specified breakpoint range."

/-- The loop over the breakpoints: `ii+2 < breakPointArraySize && x > breakPoint[ii+1]`. -/
def cell : List ℚ → ℚ → Nat
  | _ :: b :: c :: rest, x => if x > b then cell (b :: c :: rest) x + 1 else 0
  | _, _ => 0

/-- The value of an `unsigned int`. -/
def unsigned (n : Nat) : Nat := n % 2 ^ 32

/-- **`eval`** for the parameters from `paramIndex` on; without any left, the entry of the table. -/
def eval (table : List ℚ) : List (List ℚ) → List ℚ → Nat → Nat → Result
  | [], _, _, offset => ExceptT.lift table[offset]?
  | breakPoint :: rest, x :: params, paramIndex, offset => do
    let ii := cell breakPoint x
    let xLower ← ExceptT.lift breakPoint[ii]?
    let xUpper ← ExceptT.lift breakPoint[ii + 1]?
    if x < xLower ∨ x > xUpper then throw (outsideMessage paramIndex)
    else
      let fLower ← eval table rest params (paramIndex + 1) (unsigned (offset * breakPoint.length + ii))
      let fUpper ← eval table rest params (paramIndex + 1) (unsigned (offset * breakPoint.length + ii + 1))
      pure ((xUpper - x) / (xUpper - xLower) * fLower + (x - xLower) / (xUpper - xLower) * fUpper)
  | _ :: _, [], _, _ => ExceptT.lift none

/-- `eval (double params[])` -/
def evalVector (table : List ℚ) (breakPoints : List (List ℚ)) (params : List ℚ) : Result :=
  eval table breakPoints params 0 0

/-- `eval (double param1, ...)`, which copies its arguments to `params[256]`. -/
def evalArguments (table : List ℚ) (breakPoints : List (List ℚ)) (params : List ℚ) : Result :=
  if breakPoints.length ≤ 256 then evalVector table breakPoints params else ExceptT.lift none

/-! ## What is wanted -/

/-- The breakpoint counts. -/
def sizes (axes : List (List ℚ)) : List Nat := axes.map List.length

/-- The table entry at a point of the grid. -/
def entry (axes : List (List ℚ)) (table : List ℚ) (g : List Nat) : ℚ := table.getD (rowMajor 0 (sizes axes) g) 0

/-- A parameter outside of the range of its breakpoints. -/
def Outside (a : List ℚ) (x : ℚ) : Prop := x < a.getD 0 0 ∨ a.getD (a.length - 1) 0 < x

/-- **A result of the interpolation.** -/
structure Interpolates (axes : List (List ℚ)) (table params : List ℚ) (result : Result) : Prop where
  throws : (∃ e, result = throw e) ↔ ∃ p ∈ axes.zip params, Outside p.1 p.2
  inside : (∀ p ∈ axes.zip params, ¬ Outside p.1 p.2) → ∃ v cells, result = pure v ∧ Contains axes cells params ∧
    v = interpolation axes cells params (entry axes table) ∧
    (∀ g, OnGrid axes g params → v = entry axes table g) ∧
    (∀ cells', Contains axes cells' params → v = interpolation axes cells' params (entry axes table)) ∧
    (∀ m, (∀ g ∈ cellCorners cells, m ≤ entry axes table g) → m ≤ v) ∧
    ∀ m, (∀ g ∈ cellCorners cells, entry axes table g ≤ m) → v ≤ m

/-- **The function interpolates** with these breakpoints. -/
def Correct (axes : List (List ℚ)) : Prop :=
  ∀ table : List ℚ, table.length = (sizes axes).prod → ∀ params : List ℚ, params.length = axes.length →
    Interpolates axes table params (evalVector table axes params) ∧
      Interpolates axes table params (evalArguments table axes params)

/-! ## The cell of a parameter -/

section Cell

variable {a : List ℚ} {x : ℚ}

theorem cell_lt (h : 2 ≤ a.length) (x : ℚ) : cell a x + 1 < a.length := by
  fun_induction cell a x with
  | case1 _ b c rest _ _ ih =>
    have hlt := ih (by simp)
    simp only [List.length_cons] at hlt ⊢
    omega
  | case2 => simp
  | case3 => omega

/-- The parameter is not below the cell. -/
theorem cell_lower (h : a.getD 0 0 ≤ x) : a.getD (cell a x) 0 ≤ x := by
  fun_induction cell a x with
  | case1 _ b c rest _ hgt ih => exact ih (le_of_lt hgt)
  | case2 => exact h
  | case3 => exact h

/-- Nor above. -/
theorem cell_upper (htwo : 2 ≤ a.length) (h : x ≤ a.getD (a.length - 1) 0) : x ≤ a.getD (cell a x + 1) 0 := by
  fun_induction cell a x with
  | case1 _ b c rest _ _ ih => exact ih (by simp) h
  | case2 _ b _ _ _ hle => exact not_lt.mp hle
  | case3 a _ hshort =>
    match a, htwo with
    | [_, _], _ => exact h
    | a₀ :: a₁ :: a₂ :: rest, _ => exact absurd rfl (hshort a₀ a₁ a₂ rest)

/-- **A parameter inside of its range is in the cell.** -/
theorem inCell_cell (ha : Axis a) (h : ¬ Outside a x) : InCell a (cell a x) x := by
  obtain ⟨hlow, hhigh⟩ := not_or.mp h
  exact ⟨cell_lt ha.two x, cell_lower (not_lt.mp hlow), cell_upper ha.two (not_lt.mp hhigh)⟩

/-- A parameter that lies in a cell is inside of its range. -/
theorem not_outside_of_inCell {c : Nat} (ha : Axis a) (h : InCell a c x) : ¬ Outside a x := by
  have hlt := h.lt
  rintro (hlow | hhigh)
  · exact absurd ((ha.le (Nat.zero_le c) (by omega)).trans h.lower) (not_le.mpr hlow)
  · exact absurd (h.upper.trans (ha.le (by omega) (by omega))) (not_le.mpr hhigh)

/-- The two ends of the cell. -/
theorem getElem?_cell (h : 2 ≤ a.length) (x : ℚ) :
    a[cell a x]? = some (a.getD (cell a x) 0) ∧ a[cell a x + 1]? = some (a.getD (cell a x + 1) 0) := by
  have hlt := cell_lt h x
  refine ⟨?_, ?_⟩
  · rw [List.getD_eq_getElem a 0 (by omega), List.getElem?_eq_getElem]
  · rw [List.getD_eq_getElem a 0 hlt, List.getElem?_eq_getElem]

/-- The test of `eval`. -/
theorem outside_iff (ha : Axis a) :
    (x < a.getD (cell a x) 0 ∨ x > a.getD (cell a x + 1) 0) ↔ Outside a x := by
  constructor
  · intro h
    by_contra hin
    have hcell := inCell_cell ha hin
    exact h.elim (not_lt.mpr hcell.lower) (not_lt.mpr hcell.upper)
  · intro h
    by_contra hin
    obtain ⟨hlow, hhigh⟩ := not_or.mp hin
    exact not_outside_of_inCell ha ⟨cell_lt ha.two x, not_lt.mp hlow, not_lt.mp hhigh⟩ h

end Cell

/-! ## The index into the table -/

section Index

variable {axes : List (List ℚ)} {table params : List ℚ} {cells : List Nat}

/-- The index that `eval` computes for a corner. -/
def tableIndex : Nat → List Nat → List Nat → Nat
  | offset, size :: sizes, i :: g => tableIndex (unsigned (offset * size + i)) sizes g
  | offset, _, _ => offset

theorem unsigned_lt (n : Nat) : unsigned n < 2 ^ 32 := Nat.mod_lt n (by decide)

theorem unsigned_of_lt {n : Nat} (h : n < 2 ^ 32) : unsigned n = n := Nat.mod_eq_of_lt h

/-- **The index is that of the grid point, as an unsigned integer.** -/
theorem tableIndex_eq {sizes g : List Nat} (h : Indices sizes g) {offset : Nat} (hlt : offset < 2 ^ 32) :
    tableIndex offset sizes g = unsigned (rowMajor offset sizes g) := by
  induction h generalizing offset with
  | nil => exact (unsigned_of_lt hlt).symm
  | @cons size i sizes g _ hg ih =>
    show tableIndex (unsigned (offset * size + i)) sizes g = unsigned (rowMajor (offset * size + i) sizes g)
    rw [ih (unsigned_lt _), rowMajor_add hg, rowMajor_add hg (offset * size + i)]
    exact ((Nat.mod_modEq (offset * size + i) (2 ^ 32)).mul_right sizes.prod).add_right _

/-- The corners of a cell are points of the grid. -/
theorem indices_of_corner (h : Contains axes cells params) : ∀ g ∈ cellCorners cells, Indices (sizes axes) g := by
  induction h with
  | nil =>
    intro g hg
    rw [List.mem_singleton.mp hg]
    exact .nil
  | @cons a axes c cells x xs hcell _ ih =>
    have hlt := hcell.lt
    intro g hg
    rcases List.mem_append.mp hg with hg | hg
    · obtain ⟨g, hcorner, rfl⟩ := List.mem_map.mp hg
      exact .cons (by omega) (ih g hcorner)
    · obtain ⟨g, hcorner, rfl⟩ := List.mem_map.mp hg
      exact .cons hlt (ih g hcorner)

end Index

/-! ## What `eval` returns -/

section Eval

variable {axes : List (List ℚ)} {table params : List ℚ}

/-- The cells that `eval` finds. -/
def cellsOf (axes : List (List ℚ)) (params : List ℚ) : List Nat := List.zipWith cell axes params

theorem contains_cellsOf (haxes : ∀ a ∈ axes, Axis a) (hlen : params.length = axes.length)
    (hin : ∀ p ∈ axes.zip params, ¬ Outside p.1 p.2) : Contains axes (cellsOf axes params) params := by
  induction axes generalizing params with
  | nil =>
    rw [List.length_eq_zero_iff.mp hlen]
    exact .nil
  | cons a axes ih =>
    obtain ⟨x, params, rfl⟩ := List.exists_cons_of_length_eq_add_one hlen
    obtain ⟨ha, hrest⟩ := List.forall_mem_cons.mp haxes
    obtain ⟨hx, hxs⟩ := List.forall_mem_cons.mp hin
    exact .cons (inCell_cell ha hx) (ih hrest (Nat.succ.inj hlen) hxs)

/-- One round of `eval`. -/
theorem eval_cons {a : List ℚ} (ha : Axis a) (x : ℚ) (paramIndex offset : Nat) :
    eval table (a :: axes) (x :: params) paramIndex offset =
      if x < a.getD (cell a x) 0 ∨ x > a.getD (cell a x + 1) 0 then throw (outsideMessage paramIndex)
      else (do
        let fLower ← eval table axes params (paramIndex + 1) (unsigned (offset * a.length + cell a x))
        let fUpper ← eval table axes params (paramIndex + 1) (unsigned (offset * a.length + cell a x + 1))
        pure (share a (cell a x) x (cell a x) * fLower + share a (cell a x) x (cell a x + 1) * fUpper)) := by
  obtain ⟨hlow, hhigh⟩ := getElem?_cell ha.two x
  rw [eval, hlow, hhigh, share_lower, share_upper]
  rfl

/-- **Inside of all ranges** `eval` interpolates the entries that it reads. -/
theorem eval_inside (haxes : ∀ a ∈ axes, Axis a) (hlen : params.length = axes.length)
    (hin : ∀ p ∈ axes.zip params, ¬ Outside p.1 p.2) (paramIndex offset : Nat)
    (htable : ∀ g ∈ cellCorners (cellsOf axes params), tableIndex offset (sizes axes) g < table.length) :
    eval table axes params paramIndex offset = pure (interpolation axes (cellsOf axes params) params
      fun g => table.getD (tableIndex offset (sizes axes) g) 0) := by
  induction axes generalizing params paramIndex offset with
  | nil =>
    obtain rfl := List.length_eq_zero_iff.mp hlen
    have hlt : offset < table.length := htable [] List.mem_cons_self
    show ExceptT.lift table[offset]? = pure (interpolation [] [] [] _)
    rw [interpolation_nil, List.getElem?_eq_getElem hlt]
    show _ = pure (table.getD offset 0)
    rw [List.getD_eq_getElem table 0 hlt]
    rfl
  | cons a axes ih =>
    obtain ⟨x, params, rfl⟩ := List.exists_cons_of_length_eq_add_one hlen
    obtain ⟨ha, hrest⟩ := List.forall_mem_cons.mp haxes
    obtain ⟨hx, hxs⟩ := List.forall_mem_cons.mp hin
    obtain ⟨hlower, hupper⟩ := forall_cellCorners htable
    rw [eval_cons ha, if_neg (mt (outside_iff ha).mp hx), ih hrest (Nat.succ.inj hlen) hxs _ _ hlower,
      ih hrest (Nat.succ.inj hlen) hxs _ (unsigned (offset * a.length + cell a x + 1)) hupper]
    show _ = pure (interpolation (a :: axes) (cell a x :: cellsOf axes params) (x :: params) _)
    rw [interpolation_cons]
    rfl

/-- **Outside of a range** there is an exception. -/
theorem eval_outside (table : List ℚ) (haxes : ∀ a ∈ axes, Axis a) (hlen : params.length = axes.length)
    (hout : ∃ p ∈ axes.zip params, Outside p.1 p.2) (paramIndex offset : Nat) :
    ∃ i, eval table axes params paramIndex offset = throw (outsideMessage i) := by
  induction axes generalizing params paramIndex offset with
  | nil =>
    obtain ⟨p, hp, -⟩ := hout
    exact absurd hp List.not_mem_nil
  | cons a axes ih =>
    obtain ⟨x, params, rfl⟩ := List.exists_cons_of_length_eq_add_one hlen
    obtain ⟨ha, hrest⟩ := List.forall_mem_cons.mp haxes
    rw [eval_cons ha]
    by_cases hx : Outside a x
    · exact ⟨paramIndex, if_pos ((outside_iff ha).mpr hx)⟩
    · have hxs : ∃ p ∈ axes.zip params, Outside p.1 p.2 := by
        obtain ⟨p, hp, hpout⟩ := hout
        rcases List.mem_cons.mp hp with rfl | hp
        · exact absurd hpout hx
        · exact ⟨p, hp, hpout⟩
      obtain ⟨i, hi⟩ := ih hrest (Nat.succ.inj hlen) hxs (paramIndex + 1) (unsigned (offset * a.length + cell a x))
      rw [if_neg (mt (outside_iff ha).mp hx), hi]
      exact ⟨i, rfl⟩

theorem pure_ne_throw (v : ℚ) (e : String) : (pure v : Result) ≠ throw e := by
  intro h
  cases Option.some.inj h

theorem pure_injective {v w : ℚ} (h : (pure v : Result) = pure w) : v = w := Except.ok.inj (Option.some.inj h)

/-- The index is inside of the table. -/
theorem tableIndex_lt {cells : List Nat} (h : Contains axes cells params) (htable : table.length = (sizes axes).prod) :
    ∀ g ∈ cellCorners cells, tableIndex 0 (sizes axes) g < table.length := by
  intro g hg
  have hindices := indices_of_corner h g hg
  have hlt := rowMajor_lt hindices Nat.one_pos
  rw [tableIndex_eq hindices (by decide), htable]
  rw [Nat.one_mul] at hlt
  exact lt_of_le_of_lt (Nat.mod_le _ _) hlt

end Eval

/-! ## Result -/

section Main

variable {axes : List (List ℚ)}

/-- The point of the grid with some indices. -/
def gridPoint (axes : List (List ℚ)) (g : List Nat) : List ℚ := List.zipWith (fun a i => a.getD i 0) axes g

theorem onGrid_gridPoint {g : List Nat} (h : Indices (sizes axes) g) : OnGrid axes g (gridPoint axes g) := by
  induction axes generalizing g with
  | nil =>
    cases h
    exact .nil
  | cons a axes ih =>
    cases h with
    | cons hi hg => exact .cons hi (ih hg)

theorem length_of_onGrid {g : List Nat} {params : List ℚ} (h : OnGrid axes g params) :
    params.length = axes.length := by
  induction h with
  | nil => rfl
  | cons _ _ ih => rw [List.length_cons, List.length_cons, ih]

/-- A point of the grid is inside of all ranges. -/
theorem not_outside_of_onGrid {g : List Nat} {params : List ℚ} (h : OnGrid axes g params) (haxes : ∀ a ∈ axes, Axis a) :
    ∀ p ∈ axes.zip params, ¬ Outside p.1 p.2 := by
  induction h with
  | nil =>
    intro p hp
    exact absurd hp List.not_mem_nil
  | @cons a axes i g xs hi _ ih =>
    obtain ⟨ha, hrest⟩ := List.forall_mem_cons.mp haxes
    refine List.forall_mem_cons.mpr ⟨?_, ih hrest⟩
    rintro (hlow | hhigh)
    · exact absurd (ha.le (Nat.zero_le i) hi) (not_le.mpr hlow)
    · exact absurd (ha.le (by omega : i ≤ a.length - 1) (by omega)) (not_le.mpr hhigh)

/-- **A table whose entries can all be counted.** -/
theorem interpolates_evalVector (haxes : ∀ a ∈ axes, Axis a) (hsize : (sizes axes).prod ≤ 2 ^ 32) {table : List ℚ}
    (htable : table.length = (sizes axes).prod) {params : List ℚ} (hlen : params.length = axes.length) :
    Interpolates axes table params (evalVector table axes params) := by
  have hinside : (∀ p ∈ axes.zip params, ¬ Outside p.1 p.2) → evalVector table axes params =
      pure (interpolation axes (cellsOf axes params) params (entry axes table)) := by
    intro hin
    have hcontains := contains_cellsOf haxes hlen hin
    unfold evalVector
    rw [eval_inside haxes hlen hin 0 0 (tableIndex_lt hcontains htable)]
    congr 1
    unfold interpolation
    congr 1
    refine List.map_congr_left ?_
    intro g hg
    have hindices := indices_of_corner hcontains g hg
    have hlt := rowMajor_lt hindices Nat.one_pos
    rw [Nat.one_mul] at hlt
    show _ * table.getD (tableIndex 0 (sizes axes) g) 0 = _
    rw [tableIndex_eq hindices (by decide), unsigned_of_lt (lt_of_lt_of_le hlt hsize)]
    rfl
  refine ⟨⟨?_, ?_⟩, ?_⟩
  · rintro ⟨e, he⟩
    by_contra hin
    have hall : ∀ p ∈ axes.zip params, ¬ Outside p.1 p.2 := fun p hp hout => hin ⟨p, hp, hout⟩
    rw [hinside hall] at he
    exact pure_ne_throw _ _ he
  · intro hout
    obtain ⟨i, hi⟩ := eval_outside table haxes hlen hout 0 0
    exact ⟨outsideMessage i, hi⟩
  · intro hin
    have hcontains := contains_cellsOf haxes hlen hin
    refine ⟨_, cellsOf axes params, hinside hin, hcontains, rfl, ?_, ?_, ?_, ?_⟩
    · intro g hg
      exact interpolation_grid hcontains haxes hg _
    · intro cells' hcells'
      exact interpolation_cell hcontains hcells' haxes _
    · intro m hm
      exact le_interpolation hcontains haxes hm
    · intro m hm
      exact interpolation_le hcontains haxes hm

/-- **A table with more entries than the index can count**: an entry is taken for the first one. -/
theorem not_correct_of_lt (haxes : ∀ a ∈ axes, Axis a) (hsize : 2 ^ 32 < (sizes axes).prod) : ¬ Correct axes := by
  intro hcorrect
  obtain ⟨g, hg, hindex⟩ := exists_rowMajor (sizes axes) hsize
  have hgrid := onGrid_gridPoint hg
  have hin := not_outside_of_onGrid hgrid haxes
  have hcontains := contains_cellsOf haxes (length_of_onGrid hgrid) hin
  -- a table with a single entry that is not zero
  have hlength : ((List.range (sizes axes).prod).map fun k => if k = 2 ^ 32 then (1 : ℚ) else 0).length =
      (sizes axes).prod := by
    rw [List.length_map, List.length_range]
  obtain ⟨⟨-, hinside⟩, -⟩ := hcorrect _ hlength (gridPoint axes g) (length_of_onGrid hgrid)
  obtain ⟨v, cells, hv, -, -, hentry, -⟩ := hinside hin
  have hone : v = 1 := by
    rw [hentry g hgrid]
    unfold entry
    rw [hindex, List.getD_eq_getElem _ _ (by rw [hlength]; exact hsize), List.getElem_map, List.getElem_range, if_pos rfl]
  have hzero : v = 0 := by
    unfold evalVector at hv
    rw [eval_inside haxes (length_of_onGrid hgrid) hin 0 0 (tableIndex_lt hcontains hlength),
      interpolation_grid hcontains haxes hgrid] at hv
    rw [← pure_injective hv, tableIndex_eq hg (by decide), hindex]
    show List.getD _ 0 0 = 0
    rw [List.getD_eq_getElem _ _ (by rw [hlength]; exact lt_trans (by decide) hsize), List.getElem_map,
      List.getElem_range]
    rfl
  exact zero_ne_one (hzero.symm.trans hone)

/-- **`eval` interpolates if and only if** the table has no more entries than an `unsigned int` can count. -/
theorem table_correct_iff (axes : List (List ℚ)) (haxes : ∀ a ∈ axes, Axis a) :
    Correct axes ↔ (sizes axes).prod ≤ 2 ^ 32 := by
  constructor
  · intro hcorrect
    by_contra hsize
    exact not_correct_of_lt haxes (not_le.mp hsize) hcorrect
  · intro hsize table htable params hlen
    have hvector := interpolates_evalVector haxes hsize htable hlen
    refine ⟨hvector, ?_⟩
    -- every count is at least two
    have hpow : 2 ^ axes.length ≤ (sizes axes).prod := by
      have hcount := List.pow_card_le_prod (sizes axes) 2 ?_
      · unfold sizes at hcount
        rw [List.length_map] at hcount
        exact hcount
      · intro n hn
        obtain ⟨a, ha, rfl⟩ := List.mem_map.mp hn
        exact (haxes a ha).two
    have hfew : axes.length ≤ 32 := (Nat.pow_le_pow_iff_right (by decide)).mp (hpow.trans hsize)
    unfold evalArguments
    rw [if_pos (by omega)]
    exact hvector

/-- The breakpoints 0, 1, …, `n - 1`. -/
def naturals (n : Nat) : List ℚ := (List.range n).map fun i : Nat => (i : ℚ)

theorem axis_naturals {n : Nat} (h : 2 ≤ n) : Axis (naturals n) := by
  refine ⟨?_, ?_⟩
  · unfold naturals
    rw [List.length_map, List.length_range]
    exact h
  · refine List.pairwise_map.mpr (List.pairwise_lt_range.imp ?_)
    intro i j hij
    exact_mod_cast hij

/-- Tables of two rows and three columns. -/
theorem table_correct_iff_small : Correct [naturals 2, naturals 3] := by
  refine (table_correct_iff [naturals 2, naturals 3] ?_).mpr (by decide)
  intro a ha
  rcases List.mem_pair.mp ha with rfl | rfl
  · exact axis_naturals (by decide)
  · exact axis_naturals (by decide)

/-- Tables of 65537 rows and 65536 columns. -/
theorem not_correct_large : ¬ Correct [naturals 65537, naturals 65536] := by
  refine not_correct_of_lt ?_ ?_
  · intro a ha
    rcases List.mem_pair.mp ha with h | h
    · rw [h]
      exact axis_naturals (by norm_num)
    · rw [h]
      exact axis_naturals (by norm_num)
  · unfold sizes naturals
    simp only [List.map_cons, List.map_nil, List.length_map, List.length_range, List.prod_cons, List.prod_nil]
    norm_num

end Main

end Trick.Interpolator
