/-
  Grids: the multilinear interpolation of a function on the points of a grid.

  An `Axis` is a strictly increasing list of at least two numbers.  `interpolation` is the weighted sum over the corners of a cell.  It is the function itself on the
  grid (`interpolation_grid`), it does not depend on the cell that contains a point (`interpolation_cell`), and
  it is between any bounds of the corners (`le_interpolation`, `interpolation_le`).

  Nothing here names a program.
-/
import Trick.Lib.RowMajor

namespace Trick.Lib

/-! ## Cells and interpolation -/

section Cells

variable {K : Type*} [Field K] [LinearOrder K]

/-- A strictly increasing list of at least two numbers. -/
structure Axis (a : List K) : Prop where
  two : 2 ≤ a.length
  increasing : a.Pairwise (· < ·)

/-- The number lies in the cell between the entries `c` and `c + 1`. -/
structure InCell (a : List K) (c : Nat) (x : K) : Prop where
  lt : c + 1 < a.length
  lower : a.getD c 0 ≤ x
  upper : x ≤ a.getD (c + 1) 0

/-- **A point in a cell of the grid.** -/
inductive Contains : List (List K) → List Nat → List K → Prop where
  | nil : Contains [] [] []
  | cons {a axes c cells x xs} : InCell a c x → Contains axes cells xs → Contains (a :: axes) (c :: cells) (x :: xs)

/-- **A point of the grid**, and its indices. -/
inductive OnGrid : List (List K) → List Nat → List K → Prop where
  | nil : OnGrid [] [] []
  | cons {a axes i g xs} : i < a.length → OnGrid axes g xs → OnGrid (a :: axes) (i :: g) (a.getD i 0 :: xs)

/-- The corners of a cell. -/
def cellCorners : List Nat → List (List Nat)
  | [] => [[]]
  | c :: cells => (cellCorners cells).map (c :: ·) ++ (cellCorners cells).map ((c + 1) :: ·)

/-- The share of the corner `g` on one axis. -/
def share (a : List K) (c : Nat) (x : K) (g : Nat) : K :=
  if g = c then (a.getD (c + 1) 0 - x) / (a.getD (c + 1) 0 - a.getD c 0)
  else (x - a.getD c 0) / (a.getD (c + 1) 0 - a.getD c 0)

/-- The weight of a corner. -/
def weight : List (List K) → List Nat → List K → List Nat → K
  | a :: axes, c :: cells, x :: xs, i :: g => share a c x i * weight axes cells xs g
  | _, _, _, _ => 1

/-- **Multilinear interpolation** of the corners of a cell. -/
def interpolation (axes : List (List K)) (cells : List Nat) (xs : List K) (F : List Nat → K) : K :=
  ((cellCorners cells).map fun g => weight axes cells xs g * F g).sum

end Cells

section Field

variable {K : Type*} [Field K]

theorem interpolation_nil (F : List Nat → K) : interpolation [] [] [] F = F [] := by
  show (1 * F [] + 0 : K) = F []
  rw [one_mul, add_zero]

theorem interpolation_cons (a : List K) (axes : List (List K)) (c : Nat) (cells : List Nat) (x : K) (xs : List K)
    (F : List Nat → K) : interpolation (a :: axes) (c :: cells) (x :: xs) F =
      share a c x c * interpolation axes cells xs (fun g => F (c :: g)) +
        share a c x (c + 1) * interpolation axes cells xs (fun g => F ((c + 1) :: g)) := by
  unfold interpolation
  rw [cellCorners, List.map_append, List.sum_append, List.map_map, List.map_map, ← List.sum_map_mul_left,
    ← List.sum_map_mul_left]
  congr 2
  · refine List.map_congr_left ?_
    intro g _
    show share a c x c * weight axes cells xs g * F (c :: g) = _
    ring
  · refine List.map_congr_left ?_
    intro g _
    show share a c x (c + 1) * weight axes cells xs g * F ((c + 1) :: g) = _
    ring

theorem share_lower (a : List K) (c : Nat) (x : K) :
    share a c x c = (a.getD (c + 1) 0 - x) / (a.getD (c + 1) 0 - a.getD c 0) := if_pos rfl

theorem share_upper (a : List K) (c : Nat) (x : K) :
    share a c x (c + 1) = (x - a.getD c 0) / (a.getD (c + 1) 0 - a.getD c 0) := if_neg (by omega)

end Field

section Order

variable {K : Type*} [Field K] [LinearOrder K]

theorem Axis.lt {a : List K} (h : Axis a) {i j : Nat} (hij : i < j) (hj : j < a.length) : a.getD i 0 < a.getD j 0 := by
  rw [List.getD_eq_getElem a 0 (hij.trans hj), List.getD_eq_getElem a 0 hj]
  exact List.pairwise_iff_getElem.mp h.increasing i j (hij.trans hj) hj hij

theorem Axis.le {a : List K} (h : Axis a) {i j : Nat} (hij : i ≤ j) (hj : j < a.length) : a.getD i 0 ≤ a.getD j 0 := by
  rcases Nat.lt_or_eq_of_le hij with hlt | rfl
  · exact le_of_lt (h.lt hlt hj)
  · exact le_refl _

section Ends

variable {a : List K} {c i : Nat} {x : K}

/-- An entry of the axis that lies in a cell is an end of it. -/
theorem InCell.eq_or_eq (h : InCell a c (a.getD i 0)) (ha : Axis a) (hi : i < a.length) : i = c ∨ i = c + 1 := by
  rcases Nat.lt_trichotomy i c with hlt | heq | hgt
  · exact absurd h.lower (not_le.mpr (ha.lt hlt (Nat.lt_of_succ_lt h.lt)))
  · exact .inl heq
  · rcases Nat.lt_or_eq_of_le (Nat.succ_le_of_lt hgt) with hlt | heq
    · exact absurd h.upper (not_le.mpr (ha.lt hlt hi))
    · exact .inr heq.symm

/-- Cells that share a point. -/
theorem InCell.adjacent {c' : Nat} (h : InCell a c x) (h' : InCell a c' x) (ha : Axis a) (hlt : c < c') :
    c' = c + 1 ∧ x = a.getD c' 0 := by
  have hle : a.getD (c + 1) 0 ≤ a.getD c' 0 := ha.le hlt (Nat.lt_of_succ_lt h'.lt)
  have hx : x = a.getD c' 0 := le_antisymm (h.upper.trans hle) h'.lower
  refine ⟨?_, hx⟩
  rw [hx] at h
  exact (h.eq_or_eq ha (Nat.lt_of_succ_lt h'.lt)).resolve_left (Nat.ne_of_gt hlt)

end Ends

variable [IsStrictOrderedRing K]

section Cell

variable {a : List K} {axes : List (List K)} {c i : Nat} {cells : List Nat} {x : K} {xs : List K}

theorem InCell.width_pos (h : InCell a c x) (ha : Axis a) : 0 < a.getD (c + 1) 0 - a.getD c 0 :=
  sub_pos.mpr (ha.lt (Nat.lt_succ_self c) h.lt)

theorem InCell.share_nonneg (h : InCell a c x) (ha : Axis a) : 0 ≤ share a c x c ∧ 0 ≤ share a c x (c + 1) := by
  have hpos := h.width_pos ha
  rw [share_lower, share_upper]
  exact ⟨div_nonneg (sub_nonneg.mpr h.upper) hpos.le, div_nonneg (sub_nonneg.mpr h.lower) hpos.le⟩

theorem InCell.share_add (h : InCell a c x) (ha : Axis a) : share a c x c + share a c x (c + 1) = 1 := by
  have hne := ne_of_gt (h.width_pos ha)
  rw [share_lower, share_upper, ← add_div, sub_add_sub_cancel]
  exact div_self hne

/-- **On a face of the cell** only the corners of that face count. -/
theorem interpolation_face (h : InCell a c (a.getD i 0)) (ha : Axis a) (hi : i = c ∨ i = c + 1) (F : List Nat → K) :
    interpolation (a :: axes) (c :: cells) (a.getD i 0 :: xs) F = interpolation axes cells xs fun g => F (i :: g) := by
  have hne := ne_of_gt (h.width_pos ha)
  rw [interpolation_cons, share_lower, share_upper]
  rcases hi with rfl | rfl
  · rw [div_self hne, sub_self, zero_div, one_mul, zero_mul, add_zero]
  · rw [div_self hne, sub_self, zero_div, one_mul, zero_mul, zero_add]

end Cell

variable {axes : List (List K)} {cells : List Nat} {xs : List K}

/-- **On the grid** the interpolation is the function. -/
theorem interpolation_grid {g : List Nat} (h : Contains axes cells xs) (haxes : ∀ a ∈ axes, Axis a)
    (hg : OnGrid axes g xs) (F : List Nat → K) : interpolation axes cells xs F = F g := by
  induction h generalizing g F with
  | nil =>
    cases hg
    exact interpolation_nil F
  | cons hcell _ ih =>
    cases hg with
    | cons hi hg =>
      obtain ⟨ha, hrest⟩ := List.forall_mem_cons.mp haxes
      rw [interpolation_face hcell ha (hcell.eq_or_eq ha hi)]
      exact ih hrest hg _

/-- **The cell does not matter.** -/
theorem interpolation_cell {cells' : List Nat} (h : Contains axes cells xs) (h' : Contains axes cells' xs)
    (haxes : ∀ a ∈ axes, Axis a) (F : List Nat → K) :
    interpolation axes cells xs F = interpolation axes cells' xs F := by
  induction h generalizing cells' F with
  | nil =>
    cases h'
    rfl
  | @cons a _ c _ x _ hcell _ ih =>
    cases h' with
    | @cons _ _ c' _ _ _ hcell' h' =>
      obtain ⟨ha, hrest⟩ := List.forall_mem_cons.mp haxes
      rcases Nat.lt_trichotomy c c' with hlt | rfl | hgt
      · obtain ⟨hc, rfl⟩ := hcell.adjacent hcell' ha hlt
        rw [interpolation_face hcell ha (.inr hc), interpolation_face hcell' ha (.inl rfl)]
        exact ih h' hrest _
      · rw [interpolation_cons, interpolation_cons, ih h' hrest, ih h' hrest]
      · obtain ⟨hc, rfl⟩ := hcell'.adjacent hcell ha hgt
        rw [interpolation_face hcell ha (.inl rfl), interpolation_face hcell' ha (.inr hc)]
        exact ih h' hrest _

/-- The corners of a cell with one more axis. -/
theorem forall_cellCorners {p : List Nat → Prop} {c : Nat} (h : ∀ g ∈ cellCorners (c :: cells), p g) :
    (∀ g ∈ cellCorners cells, p (c :: g)) ∧ ∀ g ∈ cellCorners cells, p ((c + 1) :: g) := by
  refine ⟨?_, ?_⟩
  · intro g hg
    exact h _ (List.mem_append_left _ (List.mem_map_of_mem hg))
  · intro g hg
    exact h _ (List.mem_append_right _ (List.mem_map_of_mem hg))

/-- **A lower bound of the corners.** -/
theorem le_interpolation {m : K} {F : List Nat → K} (h : Contains axes cells xs) (haxes : ∀ a ∈ axes, Axis a)
    (hm : ∀ g ∈ cellCorners cells, m ≤ F g) : m ≤ interpolation axes cells xs F := by
  induction h generalizing F with
  | nil =>
    rw [interpolation_nil]
    exact hm [] List.mem_cons_self
  | @cons a _ c _ x _ hcell _ ih =>
    obtain ⟨ha, hrest⟩ := List.forall_mem_cons.mp haxes
    obtain ⟨hlow, hhigh⟩ := hcell.share_nonneg ha
    obtain ⟨hfirst, hsecond⟩ := forall_cellCorners hm
    rw [interpolation_cons]
    calc m = share a c x c * m + share a c x (c + 1) * m := by rw [← add_mul, hcell.share_add ha, one_mul]
      _ ≤ _ := add_le_add (mul_le_mul_of_nonneg_left (ih hrest hfirst) hlow)
        (mul_le_mul_of_nonneg_left (ih hrest hsecond) hhigh)

/-- **An upper bound of the corners.** -/
theorem interpolation_le {m : K} {F : List Nat → K} (h : Contains axes cells xs) (haxes : ∀ a ∈ axes, Axis a)
    (hm : ∀ g ∈ cellCorners cells, F g ≤ m) : interpolation axes cells xs F ≤ m := by
  induction h generalizing F with
  | nil =>
    rw [interpolation_nil]
    exact hm [] List.mem_cons_self
  | @cons a _ c _ x _ hcell _ ih =>
    obtain ⟨ha, hrest⟩ := List.forall_mem_cons.mp haxes
    obtain ⟨hlow, hhigh⟩ := hcell.share_nonneg ha
    obtain ⟨hfirst, hsecond⟩ := forall_cellCorners hm
    rw [interpolation_cons]
    calc
      _ ≤ share a c x c * m + share a c x (c + 1) * m :=
        add_le_add (mul_le_mul_of_nonneg_left (ih hrest hfirst) hlow)
          (mul_le_mul_of_nonneg_left (ih hrest hsecond) hhigh)
      _ = m := by rw [← add_mul, hcell.share_add ha, one_mul]

end Order

end Trick.Lib
