/-
  A search that goes depth first through a graph, with a list of what has been seen.

  `visit` is the recursion of a program that asks first whether it has been at an element, and enters it before it goes
  on to the next ones; there is no result where the fuel does not suffice.  What is left is the list of all that is
  reachable, without repetition (`visit_nil`); and the number of the elements is fuel enough (`exists_visit`).

  Nothing here names a program.
-/
import Mathlib

namespace Trick.Lib

variable {α : Type*} (next : α → List α)

/-- **Reachable** from an element. -/
def Reachable : α → α → Prop := Relation.ReflTransGen fun a b => b ∈ next a

/-- **What a visit of some elements has done**: what is new is reachable from them, and so is what is next to it; and
    they have been seen. -/
structure Visited (roots seen seen' : List α) : Prop where
  kept : ∀ x ∈ seen, x ∈ seen'
  nodup : seen.Nodup → seen'.Nodup
  reached : ∀ x ∈ seen', x ∉ seen → ∃ r ∈ roots, Reachable next r x
  closed : ∀ x ∈ seen', x ∉ seen → ∀ y ∈ next x, y ∈ seen'
  roots : ∀ r ∈ roots, r ∈ seen'

variable {next}

theorem Visited.nil (seen : List α) : Visited next [] seen seen :=
  ⟨fun _ hx => hx, fun h => h, fun _ hx hnew => absurd hx hnew, fun _ hx hnew => absurd hx hnew,
    fun _ hr => absurd hr List.not_mem_nil⟩

theorem Visited.cons {r : α} {roots seen seen' seen'' : List α} (h : Visited next [r] seen seen')
    (h' : Visited next roots seen' seen'') : Visited next (r :: roots) seen seen'' := by
  refine ⟨fun x hx => h'.kept x (h.kept x hx), fun hnodup => h'.nodup (h.nodup hnodup), ?_, ?_, ?_⟩
  · intro x hx hnew
    by_cases hx' : x ∈ seen'
    · obtain ⟨r', hr', hreach⟩ := h.reached x hx' hnew
      rw [List.mem_singleton] at hr'
      exact ⟨r, List.mem_cons_self, hr' ▸ hreach⟩
    · obtain ⟨r', hr', hreach⟩ := h'.reached x hx hx'
      exact ⟨r', List.mem_cons_of_mem _ hr', hreach⟩
  · intro x hx hnew y hy
    by_cases hx' : x ∈ seen'
    · exact h'.kept y (h.closed x hx' hnew y hy)
    · exact h'.closed x hx hx' y hy
  · refine List.forall_mem_cons.mpr ⟨?_, h'.roots⟩
    exact h'.kept r (h.roots r List.mem_cons_self)

/-- Visits one after the other. -/
theorem Visited.foldlM {f : List α → α → Option (List α)}
    (hf : ∀ seen b seen', f seen b = some seen' → Visited next [b] seen seen') (roots : List α) {seen seen' : List α}
    (h : roots.foldlM f seen = some seen') : Visited next roots seen seen' := by
  induction roots generalizing seen with
  | nil =>
    obtain rfl : seen = seen' := Option.some.inj h
    exact Visited.nil seen
  | cons r roots ih =>
    rw [List.foldlM_cons] at h
    obtain ⟨mid, hmid, hrest⟩ := Option.bind_eq_some_iff.mp h
    exact (hf seen r mid hmid).cons (ih hrest)

theorem nodup_snoc {a : α} {seen : List α} (h : seen.Nodup) (hnew : a ∉ seen) : (seen ++ [a]).Nodup := by
  refine List.nodup_append.mpr ⟨h, List.nodup_singleton a, ?_⟩
  rintro x hx y hy rfl
  exact hnew (List.mem_singleton.mp hy ▸ hx)

/-- An element that is entered, and then what is next to it. -/
theorem Visited.enter {a : α} {seen seen' : List α} (hnew : a ∉ seen)
    (h : Visited next (next a) (seen ++ [a]) seen') : Visited next [a] seen seen' := by
  have hself : a ∈ seen' := h.kept a (List.mem_append_right _ (List.mem_singleton_self a))
  have hcases : ∀ x ∈ seen', x ∉ seen → x = a ∨ x ∉ seen ++ [a] := by
    intro x _ hx
    by_cases hxa : x = a
    · exact Or.inl hxa
    · right
      rw [List.mem_append, List.mem_singleton]
      rintro (hmem | hmem)
      · exact hx hmem
      · exact hxa hmem
  refine ⟨fun x hx => h.kept x (List.mem_append_left _ hx), ?_, ?_, ?_, ?_⟩
  · exact fun hnodup => h.nodup (nodup_snoc hnodup hnew)
  · intro x hx hxnew
    refine ⟨a, List.mem_singleton_self a, ?_⟩
    rcases hcases x hx hxnew with rfl | hx'
    · exact Relation.ReflTransGen.refl
    · obtain ⟨r, hr, hreach⟩ := h.reached x hx hx'
      exact Relation.ReflTransGen.head hr hreach
  · intro x hx hxnew y hy
    rcases hcases x hx hxnew with rfl | hx'
    · exact h.roots y hy
    · exact h.closed x hx hx' y hy
  · intro r hr
    rw [List.mem_singleton] at hr
    exact hr ▸ hself

/-- What has been seen stays among the elements. -/
theorem Visited.subset {all : List α} (hall : ∀ a ∈ all, ∀ b ∈ next a, b ∈ all) {roots seen seen' : List α}
    (h : Visited next roots seen seen') (hroots : ∀ r ∈ roots, r ∈ all) (hseen : ∀ x ∈ seen, x ∈ all) :
    ∀ x ∈ seen', x ∈ all := by
  intro x hx
  by_cases hxs : x ∈ seen
  · exact hseen x hxs
  · obtain ⟨r, hr, hreach⟩ := h.reached x hx hxs
    clear hx hxs
    induction hreach with
    | refl => exact hroots r hr
    | tail _ hstep ih => exact hall _ ih _ hstep

/-! ## Folds that can fail -/

theorem foldlM_flatMap {β σ : Type*} (f : σ → β → Option σ) (g : α → List β) (l : List α) (init : σ) :
    (l.flatMap g).foldlM f init = l.foldlM (fun st a => (g a).foldlM f st) init := by
  induction l generalizing init with
  | nil => rfl
  | cons a l ih =>
    rw [List.flatMap_cons, List.foldlM_append, List.foldlM_cons]
    exact congrArg _ (funext ih)

theorem foldlM_congr {σ : Type*} {f g : σ → α → Option σ} {l : List α} (h : ∀ st, ∀ a ∈ l, f st a = g st a)
    (init : σ) : l.foldlM f init = l.foldlM g init := by
  induction l generalizing init with
  | nil => rfl
  | cons a l ih =>
    obtain ⟨ha, hl⟩ := forall_and.mp fun st => List.forall_mem_cons.mp (h st)
    rw [List.foldlM_cons, List.foldlM_cons, ha]
    exact congrArg _ (funext fun st => ih hl st)

/-! ## The program -/

variable [DecidableEq α]

variable (next) in
/-- **A visit**, depth first. -/
def visit : Nat → α → List α → Option (List α)
  | 0, _, _ => none
  | fuel + 1, a, seen =>
    if a ∈ seen then some seen else (next a).foldlM (fun seen b => visit fuel b seen) (seen ++ [a])

/-- **A visit that has a result.** -/
theorem visited_of_visit {fuel : Nat} {a : α} {seen seen' : List α} (h : visit next fuel a seen = some seen') :
    Visited next [a] seen seen' := by
  induction fuel generalizing a seen seen' with
  | zero => cases h
  | succ fuel ih =>
    rw [visit] at h
    by_cases hmem : a ∈ seen
    · rw [if_pos hmem] at h
      obtain rfl : seen = seen' := Option.some.inj h
      refine ⟨fun _ hx => hx, fun hnodup => hnodup, fun _ hx hnew => absurd hx hnew,
        fun _ hx hnew => absurd hx hnew, ?_⟩
      intro r hr
      exact List.mem_singleton.mp hr ▸ hmem
    · rw [if_neg hmem] at h
      exact Visited.enter hmem (Visited.foldlM (fun _ _ _ hvisit => ih hvisit) (next a) h)

/-- **A visit with nothing seen before** finds what is reachable, and nothing else. -/
theorem visit_nil {fuel : Nat} {a : α} {seen : List α} (h : visit next fuel a [] = some seen) :
    seen.Nodup ∧ ∀ x, x ∈ seen ↔ Reachable next a x := by
  have hvisited := visited_of_visit h
  refine ⟨hvisited.nodup List.nodup_nil, fun x => ⟨?_, ?_⟩⟩
  · intro hx
    obtain ⟨r, hr, hreach⟩ := hvisited.reached x hx List.not_mem_nil
    rw [List.mem_singleton] at hr
    exact hr ▸ hreach
  · intro hreach
    induction hreach with
    | refl => exact hvisited.roots a (List.mem_singleton_self a)
    | tail _ hstep ih => exact hvisited.closed _ ih List.not_mem_nil _ hstep

/-! ## Fuel -/

omit [DecidableEq α] in
/-- Visits of some elements have results, if each of them has one. -/
theorem exists_foldlM {f : List α → α → Option (List α)} {good : List α → Prop} {roots : List α}
    (hf : ∀ r ∈ roots, ∀ seen, good seen → ∃ seen', f seen r = some seen' ∧ good seen') {seen : List α}
    (h : good seen) : ∃ seen', roots.foldlM f seen = some seen' := by
  induction roots generalizing seen with
  | nil => exact ⟨seen, rfl⟩
  | cons r roots ih =>
    obtain ⟨hr, hroots⟩ := List.forall_mem_cons.mp hf
    obtain ⟨mid, hmid, hgood⟩ := hr seen h
    obtain ⟨seen', hseen'⟩ := ih hroots hgood
    refine ⟨seen', ?_⟩
    rw [List.foldlM_cons, hmid]
    exact hseen'

/-- **The number of the elements is fuel enough**, less that of those that have been seen. -/
theorem exists_visit {all : List α} (hall : ∀ a ∈ all, ∀ b ∈ next a, b ∈ all) {fuel : Nat} {a : α} {seen : List α}
    (ha : a ∈ all) (hnodup : seen.Nodup) (hseen : ∀ x ∈ seen, x ∈ all) (hfuel : all.length < fuel + seen.length) :
    ∃ seen', visit next fuel a seen = some seen' := by
  induction fuel generalizing a seen with
  | zero =>
    have hle : seen.length ≤ all.length := (List.subperm_of_subset hnodup hseen).length_le
    omega
  | succ fuel ih =>
    rw [visit]
    by_cases hmem : a ∈ seen
    · rw [if_pos hmem]
      exact ⟨seen, rfl⟩
    · rw [if_neg hmem]
      -- the list stays one of elements, and there is fuel for the rest
      refine @exists_foldlM α (fun s b => visit next fuel b s)
        (fun s => s.Nodup ∧ (∀ x ∈ s, x ∈ all) ∧ all.length < fuel + s.length) (next a) ?_ (seen ++ [a])
        ⟨nodup_snoc hnodup hmem, ?_, ?_⟩
      · rintro b hb s ⟨hs, hsall, hsfuel⟩
        have hball : b ∈ all := hall a ha b hb
        obtain ⟨s', hs'⟩ := ih hball hs hsall hsfuel
        have hvisited := visited_of_visit hs'
        have hlen : s.length ≤ s'.length := (List.subperm_of_subset hs hvisited.kept).length_le
        refine ⟨s', hs', hvisited.nodup hs, ?_, by omega⟩
        refine hvisited.subset hall ?_ hsall
        intro r hr
        exact List.mem_singleton.mp hr ▸ hball
      · intro x hx
        rcases List.mem_append.mp hx with hx | hx
        · exact hseen x hx
        · exact List.mem_singleton.mp hx ▸ ha
      · rw [List.length_append, List.length_singleton]
        omega

/-- More fuel does not change a result. -/
theorem visit_mono {fuel : Nat} {a : α} {seen seen' : List α} (h : visit next fuel a seen = some seen') {more : Nat}
    (hle : fuel ≤ more) : visit next more a seen = some seen' := by
  induction fuel generalizing a seen seen' more with
  | zero => cases h
  | succ fuel ih =>
    obtain ⟨more, rfl⟩ : ∃ n, more = n + 1 := ⟨more - 1, by omega⟩
    rw [visit] at h ⊢
    by_cases hmem : a ∈ seen
    · rw [if_pos hmem] at h ⊢
      exact h
    · rw [if_neg hmem] at h ⊢
      generalize next a = roots at h
      generalize seen ++ [a] = s at h
      induction roots generalizing s with
      | nil => exact h
      | cons r roots ihr =>
        rw [List.foldlM_cons] at h ⊢
        obtain ⟨mid, hmid, hrest⟩ := Option.bind_eq_some_iff.mp h
        rw [ih hmid (Nat.le_of_succ_le_succ hle)]
        exact ihr mid hrest

end Trick.Lib
