/-
  Every fired list is executed once, in order and in its frame.

  1. **Specification.**  `Right` says of a state what holds of the lists so far, of the settings, and of the
     frames to come: `Progress` is about any continuation in which an executor is called in as many frames one
     after the other as its frame multiple says.

  2. **Invariant** (`Good`): the settings, the history and the mutex.  One lemma for each step, `good_step` for all.

  3. **Main result** (`injections_right_iff`): every state of a run is right exactly if every `SetFrameMultiple` of the run
     gets a value above the executor's frame offset.
-/
import Trick.RealtimeInjector.RtiStager
import Trick.Lib.Modify

namespace Trick.Rti

open Trick.Lib

variable {ε μ : Type} {assign : ε → μ → μ} {memory₀ : μ} {s : State ε μ}

/-! ## Specification -/

/-- **What `SetFrameMultiple` does not check.** -/
def Ok (s : State ε μ) : Action ε → Prop
  | .setFrameMultiple i mult => ∀ e, s.executors[i]? = some e → e.frameOffset < mult
  | _ => True

/-- The settings of an executor are left alone. -/
def Action.keeps (i : Nat) : Action ε → Prop
  | .setFrameMultiple j _ => j ≠ i
  | .setFrameOffset j _ => j ≠ i
  | _ => True

/-- `Exec` of an executor. -/
def Action.isExec (i : Nat) : Action ε → Bool
  | .exec j => j = i
  | _ => false

/-- The states in which an executor is called. -/
def callsOf (assign : ε → μ → μ) (i : Nat) : State ε μ → List (Action ε) → List (State ε μ)
  | _, [] => []
  | s, a :: as => if a.isExec i = true then s :: callsOf assign i (s.step assign a) as
    else callsOf assign i (s.step assign a) as

/-- **Within a frame multiple of further calls one is in the right frame**, and if the mutex is free then, it
    executes everything that has been fired. -/
def Progress (assign : ε → μ → μ) (s : State ε μ) : Prop :=
  ∀ i e as, s.executors[i]? = some e → Guarded Ok (State.step assign) s as → (∀ a ∈ as, a.keeps i) →
    (callsOf assign i s as).length = e.frameMultiple →
    (callsOf assign i s as).IsChain (fun s s' => s'.frameCount = s.frameCount + 1) →
    ∃ s' ∈ callsOf assign i s as, ∃ e', s'.executors[i]? = some e' ∧ s'.frameCount % e'.frameMultiple = e'.frameOffset ∧
      (e'.listMutex = none → ((s'.step assign (.exec i)).executors[i]?).map RtiExec.fireList = some [] ∧
        (s'.step assign (.exec i)).executedBy i = e'.fired)

/-- **The lists so far.** -/
structure Right (assign : ε → μ → μ) (memory₀ : μ) (s : State ε μ) : Prop where
  /-- No modulus by zero was taken. -/
  alive : s.trapped = false
  /-- Executed once, in firing order, or still to be executed. -/
  inOrder : ∀ (i : Nat) (e : RtiExec ε), s.executors[i]? = some e → s.executedBy i ++ e.fireList = e.fired
  inFrame : ∀ x ∈ s.executions, x.frame % x.multiple = x.offset
  /-- All assignments of the executed lists were made, and no others. -/
  memory : s.memory = State.execute assign (s.executions.map Execution.list) memory₀
  settings : ∀ (i : Nat) (e : RtiExec ε), s.executors[i]? = some e → e.frameOffset < e.frameMultiple
  progress : Progress assign s

/-! ## Invariant -/

/-- **The invariant.** -/
structure Good (assign : ε → μ → μ) (memory₀ : μ) (s : State ε μ) : Prop where
  alive : s.trapped = false
  inOrder : ∀ (i : Nat) (e : RtiExec ε), s.executors[i]? = some e → s.executedBy i ++ e.fireList = e.fired
  settings : ∀ (i : Nat) (e : RtiExec ε), s.executors[i]? = some e → e.frameOffset < e.frameMultiple
  inFrame : ∀ x ∈ s.executions, x.executor < s.executors.length ∧ x.frame % x.multiple = x.offset
  memory : s.memory = State.execute assign (s.executions.map Execution.list) memory₀
  /-- A thread that waits for a mutex has a list to push. -/
  waiting : ∀ pid i, s.calls pid = some (.waits i) → i < s.executors.length ∧ s.listMap pid ≠ none
  /-- The mutex is held by the thread whose call of `Fire` has got it. -/
  holding : ∀ pid i, s.calls pid = some (.holds i) ↔ ∃ e, s.executors[i]? = some e ∧ e.listMutex = some pid

theorem execute_append (lists lists' : List (List ε)) (memory : μ) :
    State.execute assign (lists ++ lists') memory = State.execute assign lists' (State.execute assign lists memory) := by
  unfold State.execute
  rw [List.flatten_append, List.foldl_append]

theorem getElem?_modify_cases {l : List (RtiExec ε)} {f : RtiExec ε → RtiExec ε} {i j : Nat} {e' : RtiExec ε}
    (h : (l.modify i f)[j]? = some e') : ∃ e, l[j]? = some e ∧ (i = j ∧ e' = f e ∨ i ≠ j ∧ e' = e) := by
  by_cases hij : i = j
  · subst hij
    rw [getElem?_modify_self, Option.map_eq_some_iff] at h
    obtain ⟨e, he, rfl⟩ := h
    exact ⟨e, he, Or.inl ⟨rfl, rfl⟩⟩
  · rw [getElem?_modify_of_ne hij] at h
    exact ⟨e', h, Or.inr ⟨hij, rfl⟩⟩

theorem good_start : Good assign memory₀ (State.start memory₀ : State ε μ) where
  alive := rfl
  inOrder := fun _ _ he => (nomatch he)
  settings := fun _ _ he => (nomatch he)
  inFrame := fun _ hx => absurd hx List.not_mem_nil
  memory := rfl
  waiting := fun _ _ h => (nomatch h)
  holding := fun _ _ => ⟨fun h => (nomatch h), fun ⟨_, he, _⟩ => (nomatch he)⟩

/-- **A new executor.** -/
theorem good_addInjectorExecutor (h : Good assign memory₀ s) :
    Good assign memory₀ { s with executors := s.executors ++ [RtiExec.new] } := by
  have hcases : ∀ i e, (s.executors ++ [RtiExec.new])[i]? = some e →
      s.executors[i]? = some e ∨ i = s.executors.length ∧ e = RtiExec.new := by
    intro i e he
    rcases Nat.lt_or_ge i s.executors.length with hlt | hge
    · rw [List.getElem?_append_left hlt] at he
      exact Or.inl he
    · rw [List.getElem?_append_right hge] at he
      cases hk : i - s.executors.length with
      | zero =>
        rw [hk] at he
        exact Or.inr ⟨by omega, (Option.some.inj he).symm⟩
      | succ k =>
        rw [hk] at he
        exact (nomatch he)
  have hlen : (s.executors ++ [RtiExec.new]).length = s.executors.length + 1 := by
    rw [List.length_append, List.length_singleton]
  refine ⟨h.alive, ?_, ?_, ?_, h.memory, ?_, ?_⟩
  · intro i e he
    rcases hcases i e he with hold | ⟨rfl, rfl⟩
    · exact h.inOrder i e hold
    · -- nothing has been executed by it
      have hnone : s.executedBy s.executors.length = [] := by
        unfold State.executedBy
        rw [List.map_eq_nil_iff, List.filter_eq_nil_iff]
        intro x hx
        have hlt := (h.inFrame x hx).1
        rw [decide_eq_true_eq]
        omega
      show s.executedBy s.executors.length ++ [] = []
      rw [hnone]
      rfl
  · intro i e he
    rcases hcases i e he with hold | ⟨-, rfl⟩
    · exact h.settings i e hold
    · exact Nat.zero_lt_one
  · intro x hx
    obtain ⟨hlt, hframe⟩ := h.inFrame x hx
    exact ⟨show x.executor < (s.executors ++ [RtiExec.new]).length by omega, hframe⟩
  · intro pid i hcall
    obtain ⟨hlt, hlist⟩ := h.waiting pid i hcall
    exact ⟨show i < (s.executors ++ [RtiExec.new]).length by omega, hlist⟩
  · intro pid i
    refine (h.holding pid i).trans ⟨?_, ?_⟩
    · rintro ⟨e, he, hmutex⟩
      refine ⟨e, ?_, hmutex⟩
      show (s.executors ++ [RtiExec.new])[i]? = some e
      rw [List.getElem?_append_left (List.getElem?_eq_some_iff.mp he).1]
      exact he
    · rintro ⟨e, he, hmutex⟩
      rcases hcases i e he with hold | ⟨-, rfl⟩
      · exact ⟨e, hold, hmutex⟩
      · exact (nomatch hmutex)

/-- **Settings change.** -/
theorem good_modify (h : Good assign memory₀ s) (i : Nat) {f : RtiExec ε → RtiExec ε}
    (hlist : ∀ e, (f e).fireList = e.fireList ∧ (f e).fired = e.fired ∧ (f e).listMutex = e.listMutex)
    (hsettings : ∀ e, s.executors[i]? = some e → (f e).frameOffset < (f e).frameMultiple) :
    Good assign memory₀ { s with executors := s.executors.modify i f } := by
  refine ⟨h.alive, ?_, ?_, ?_, h.memory, ?_, ?_⟩
  · intro j e' he'
    obtain ⟨e, he, ⟨-, rfl⟩ | ⟨-, rfl⟩⟩ := getElem?_modify_cases he'
    · rw [(hlist e).1, (hlist e).2.1]
      exact h.inOrder j e he
    · exact h.inOrder j e' he
  · intro j e' he'
    obtain ⟨e, he, ⟨rfl, rfl⟩ | ⟨-, rfl⟩⟩ := getElem?_modify_cases he'
    · exact hsettings e he
    · exact h.settings j e' he
  · intro x hx
    show x.executor < (s.executors.modify i f).length ∧ _
    rw [List.length_modify]
    exact h.inFrame x hx
  · intro pid j hcall
    show j < (s.executors.modify i f).length ∧ _
    rw [List.length_modify]
    exact h.waiting pid j hcall
  · intro pid j
    refine (h.holding pid j).trans ⟨?_, ?_⟩
    · rintro ⟨e, he, hmutex⟩
      by_cases hij : i = j
      · subst hij
        exact ⟨f e, by rw [getElem?_modify_self, he]; rfl, (hlist e).2.2.trans hmutex⟩
      · exact ⟨e, by rw [getElem?_modify_of_ne hij]; exact he, hmutex⟩
    · rintro ⟨e', he', hmutex⟩
      obtain ⟨e, he, ⟨-, rfl⟩ | ⟨-, rfl⟩⟩ := getElem?_modify_cases he'
      · exact ⟨e, he, (hlist e).2.2.symm.trans hmutex⟩
      · exact ⟨e', he, hmutex⟩

/-- **An event is staged.** -/
theorem good_addtoList (h : Good assign memory₀ s) {pid : Nat} (hidle : s.calls pid = none) (rei : Option ε) :
    Good assign memory₀ (s.addtoList pid rei) := by
  cases rei with
  | none => exact h
  | some rei =>
    refine ⟨h.alive, h.inOrder, h.settings, h.inFrame, h.memory, ?_, h.holding⟩
    intro pid' i hcall
    obtain ⟨hlt, hlist⟩ := h.waiting pid' i hcall
    refine ⟨hlt, ?_⟩
    have hne : pid' ≠ pid := by
      rintro rfl
      exact absurd (hidle.symm.trans hcall).symm (Option.some_ne_none _)
    show Function.update s.listMap pid _ pid' ≠ none
    rw [Function.update_of_ne hne]
    exact hlist

/-- **A call of `Fire`** gets as far as the mutex. -/
theorem good_fire (h : Good assign memory₀ s) {pid : Nat} (hidle : s.calls pid = none) (threadId : Nat) :
    Good assign memory₀ (s.fire pid threadId) := by
  unfold State.fire
  split
  · exact h
  · next hok =>
    rw [not_or, Nat.not_le] at hok
    refine ⟨h.alive, h.inOrder, h.settings, h.inFrame, h.memory, ?_, ?_⟩
    · intro pid' i hcall
      change Function.update s.calls pid (some (.waits threadId)) pid' = _ at hcall
      by_cases hpid : pid' = pid
      · subst hpid
        rw [Function.update_self] at hcall
        obtain rfl := FireCall.waits.inj (Option.some.inj hcall)
        exact hok
      · rw [Function.update_of_ne hpid] at hcall
        exact h.waiting pid' i hcall
    · intro pid' i
      show Function.update s.calls pid (some (.waits threadId)) pid' = _ ↔ _
      by_cases hpid : pid' = pid
      · subst hpid
        rw [Function.update_self]
        refine ⟨fun hc => (nomatch hc), fun hmutex => ?_⟩
        exact absurd (hidle.symm.trans ((h.holding pid' i).mpr hmutex)).symm (Option.some_ne_none _)
      · rw [Function.update_of_ne hpid]
        exact h.holding pid' i

/-- A thread that is in `Fire` does not hold another mutex. -/
theorem not_holding (h : Good assign memory₀ s) {pid i : Nat} (hcall : s.calls pid = some (.waits i)) {j : Nat}
    {e : RtiExec ε} (he : s.executors[j]? = some e) : e.listMutex ≠ some pid := by
  intro hmutex
  have hholds := (h.holding pid j).mpr ⟨e, he, hmutex⟩
  exact (nomatch Option.some.inj (hcall.symm.trans hholds))

/-- **A list is pushed.** -/
theorem good_lock (h : Good assign memory₀ s) (pid : Nat) : Good assign memory₀ (s.lock pid) := by
  unfold State.lock
  split
  · next i list hcall hlist =>
    split
    · next hfree =>
      refine ⟨h.alive, ?_, ?_, ?_, h.memory, ?_, ?_⟩
      · intro j e' he'
        obtain ⟨e, he, ⟨-, rfl⟩ | ⟨-, rfl⟩⟩ := getElem?_modify_cases he'
        · show s.executedBy j ++ (e.fireList ++ [list]) = e.fired ++ [list]
          rw [← List.append_assoc, h.inOrder j e he]
        · exact h.inOrder j e' he
      · intro j e' he'
        obtain ⟨e, he, ⟨-, rfl⟩ | ⟨-, rfl⟩⟩ := getElem?_modify_cases he'
        · exact h.settings j e he
        · exact h.settings j e' he
      · intro x hx
        show x.executor < (s.executors.modify i _).length ∧ _
        rw [List.length_modify]
        exact h.inFrame x hx
      · intro pid' j hcall'
        show j < (s.executors.modify i _).length ∧ _
        rw [List.length_modify]
        change Function.update s.calls pid (some (.holds i)) pid' = _ at hcall'
        by_cases hpid : pid' = pid
        · subst hpid
          rw [Function.update_self] at hcall'
          exact (nomatch hcall')
        · rw [Function.update_of_ne hpid] at hcall'
          exact h.waiting pid' j hcall'
      · intro pid' j
        show Function.update s.calls pid (some (.holds i)) pid' = _ ↔
          ∃ e, (s.executors.modify i (RtiExec.addToFireList pid list))[j]? = some e ∧ e.listMutex = some pid'
        have hlt := (h.waiting pid i hcall).1
        by_cases hpid : pid' = pid
        · subst hpid
          rw [Function.update_self]
          constructor
          · intro hc
            obtain rfl := FireCall.holds.inj (Option.some.inj hc)
            refine ⟨RtiExec.addToFireList pid' list s.executors[i], ?_, rfl⟩
            rw [getElem?_modify_self, List.getElem?_eq_getElem hlt]
            rfl
          · rintro ⟨e', he', hmutex⟩
            obtain ⟨e, he, ⟨rfl, -⟩ | ⟨-, rfl⟩⟩ := getElem?_modify_cases he'
            · rfl
            · exact absurd hmutex (not_holding h hcall he)
        · rw [Function.update_of_ne hpid]
          refine (h.holding pid' j).trans ⟨?_, ?_⟩
          · rintro ⟨e, he, hmutex⟩
            have hij : i ≠ j := by
              rintro rfl
              rw [he] at hfree
              exact absurd (hfree.symm.trans hmutex).symm (Option.some_ne_none _)
            exact ⟨e, by rw [getElem?_modify_of_ne hij]; exact he, hmutex⟩
          · rintro ⟨e', he', hmutex⟩
            obtain ⟨e, he, ⟨-, rfl⟩ | ⟨-, rfl⟩⟩ := getElem?_modify_cases he'
            · exact absurd (Option.some.inj hmutex).symm hpid
            · exact ⟨e', he, hmutex⟩
    · exact h
  · exact h

/-- **A call of `Fire` ends.** -/
theorem good_unlock (h : Good assign memory₀ s) (pid : Nat) : Good assign memory₀ (s.unlock pid) := by
  unfold State.unlock
  split
  · next i hcall =>
    refine ⟨h.alive, ?_, ?_, ?_, h.memory, ?_, ?_⟩
    · intro j e' he'
      obtain ⟨e, he, ⟨-, rfl⟩ | ⟨-, rfl⟩⟩ := getElem?_modify_cases he'
      · exact h.inOrder j e he
      · exact h.inOrder j e' he
    · intro j e' he'
      obtain ⟨e, he, ⟨-, rfl⟩ | ⟨-, rfl⟩⟩ := getElem?_modify_cases he'
      · exact h.settings j e he
      · exact h.settings j e' he
    · intro x hx
      show x.executor < (s.executors.modify i _).length ∧ _
      rw [List.length_modify]
      exact h.inFrame x hx
    · intro pid' j hcall'
      show j < (s.executors.modify i _).length ∧ Function.update s.listMap pid none pid' ≠ none
      rw [List.length_modify]
      change Function.update s.calls pid none pid' = _ at hcall'
      by_cases hpid : pid' = pid
      · subst hpid
        rw [Function.update_self] at hcall'
        exact (nomatch hcall')
      · rw [Function.update_of_ne hpid] at hcall' ⊢
        exact h.waiting pid' j hcall'
    · intro pid' j
      show Function.update s.calls pid none pid' = _ ↔
        ∃ e, (s.executors.modify i fun e => { e with listMutex := none })[j]? = some e ∧ e.listMutex = some pid'
      obtain ⟨eᵢ, heᵢ, hmutexᵢ⟩ := (h.holding pid i).mp hcall
      by_cases hpid : pid' = pid
      · subst hpid
        rw [Function.update_self]
        refine ⟨fun hc => (nomatch hc), ?_⟩
        rintro ⟨e', he', hmutex⟩
        obtain ⟨e, he, ⟨-, rfl⟩ | ⟨hij, rfl⟩⟩ := getElem?_modify_cases he'
        · exact (nomatch hmutex)
        · -- it would hold two mutexes
          have hother := (h.holding pid' j).mpr ⟨e', he, hmutex⟩
          exact absurd (FireCall.holds.inj (Option.some.inj (hcall.symm.trans hother))) hij
      · rw [Function.update_of_ne hpid]
        refine (h.holding pid' j).trans ⟨?_, ?_⟩
        · rintro ⟨e, he, hmutex⟩
          have hij : i ≠ j := by
            rintro rfl
            obtain rfl := Option.some.inj (heᵢ.symm.trans he)
            exact hpid (Option.some.inj (hmutex.symm.trans hmutexᵢ))
          exact ⟨e, by rw [getElem?_modify_of_ne hij]; exact he, hmutex⟩
        · rintro ⟨e', he', hmutex⟩
          obtain ⟨e, he, ⟨-, rfl⟩ | ⟨-, rfl⟩⟩ := getElem?_modify_cases he'
          · exact (nomatch hmutex)
          · exact ⟨e', he, hmutex⟩
  · exact h

/-! ## `Exec` -/

/-- **A call of `Exec`** executes nothing, or all lists in the right frame with the mutex free. -/
theorem exec_cases (frame : Nat) {e : RtiExec ε} (h : e.frameOffset < e.frameMultiple) :
    e.exec frame = some (e, []) ∧ (frame % e.frameMultiple = e.frameOffset → e.listMutex = none → e.fireList = []) ∨
      e.exec frame = some ({ e with fireList := [] }, e.fireList) ∧ frame % e.frameMultiple = e.frameOffset := by
  unfold RtiExec.exec
  rw [if_neg (show ¬ e.frameMultiple = 0 by omega)]
  by_cases hframe : frame % e.frameMultiple = e.frameOffset
  · rw [if_pos hframe]
    by_cases hempty : e.fireList = []
    · rw [if_pos hempty]
      exact Or.inl ⟨rfl, fun _ _ => hempty⟩
    · rw [if_neg hempty]
      by_cases hfree : e.listMutex = none
      · rw [if_pos hfree]
        exact Or.inr ⟨rfl, hframe⟩
      · rw [if_neg hfree]
        exact Or.inl ⟨rfl, fun _ hf => absurd hf hfree⟩
  · rw [if_neg hframe]
    exact Or.inl ⟨rfl, fun hf => absurd hf hframe⟩

theorem executedBy_append (i : Nat) (done : List (Execution ε)) :
    ({ s with executions := s.executions ++ done } : State ε μ).executedBy i =
      s.executedBy i ++ (done.filter fun x => x.executor = i).map Execution.list := by
  unfold State.executedBy
  rw [List.filter_append, List.map_append]

/-- The executions of one call. -/
theorem filter_done (i j frame multiple offset : Nat) (lists : List (List ε)) :
    ((lists.map (Execution.mk i frame multiple offset)).filter fun x => x.executor = j).map Execution.list =
      if i = j then lists else [] := by
  split
  · next hij =>
    rw [List.filter_eq_self.mpr ?_, List.map_map]
    · exact List.map_id lists
    · intro x hx
      obtain ⟨list, -, rfl⟩ := List.mem_map.mp hx
      exact decide_eq_true hij
  · next hij =>
    rw [List.filter_eq_nil_iff.mpr ?_]
    · rfl
    · intro x hx
      obtain ⟨list, -, rfl⟩ := List.mem_map.mp hx
      rw [decide_eq_true_eq]
      exact hij

/-- The state after a call of `Exec`. -/
theorem exec_eq {i : Nat} {e e' : RtiExec ε} {lists : List (List ε)} (he : s.executors[i]? = some e)
    (hexec : e.exec s.frameCount = some (e', lists)) :
    s.exec assign i = { s with executors := s.executors.set i e', memory := State.execute assign lists s.memory, executions := s.executions ++ lists.map (Execution.mk i s.frameCount e.frameMultiple e.frameOffset) } := by
  unfold State.exec
  rw [he]
  dsimp only
  rw [hexec]

theorem set_same {l : List (RtiExec ε)} {i : Nat} {e : RtiExec ε} (he : l[i]? = some e) : l.set i e = l := by
  obtain ⟨hlt, rfl⟩ := List.getElem?_eq_some_iff.mp he
  exact List.set_getElem_self hlt

theorem good_exec (h : Good assign memory₀ s) (i : Nat) : Good assign memory₀ (s.exec assign i) := by
  cases he : s.executors[i]? with
  | none =>
    unfold State.exec
    rw [he]
    exact h
  | some e =>
    have hlt := (List.getElem?_eq_some_iff.mp he).1
    rcases exec_cases s.frameCount (h.settings i e he) with ⟨hexec, -⟩ | ⟨hexec, hframe⟩
    · rw [exec_eq he hexec, set_same he, List.map_nil, List.append_nil]
      exact h
    · rw [exec_eq he hexec]
      have hcases : ∀ j e', (s.executors.set i { e with fireList := [] })[j]? = some e' →
          i = j ∧ e' = { e with fireList := [] } ∨ i ≠ j ∧ s.executors[j]? = some e' := by
        intro j e' he'
        by_cases hij : i = j
        · subst hij
          rw [List.getElem?_set_self hlt] at he'
          exact Or.inl ⟨rfl, (Option.some.inj he').symm⟩
        · rw [List.getElem?_set_ne hij] at he'
          exact Or.inr ⟨hij, he'⟩
      refine ⟨h.alive, ?_, ?_, ?_, ?_, ?_, ?_⟩
      · intro j e' he'
        show (s.executions ++ _ |>.filter _ |>.map _) ++ _ = _
        have happend := executedBy_append (s := s) j
          (e.fireList.map (Execution.mk i s.frameCount e.frameMultiple e.frameOffset))
        rw [filter_done] at happend
        change (List.map Execution.list (List.filter _ (s.executions ++ _))) = _ at happend
        rw [happend]
        rcases hcases j e' he' with ⟨rfl, rfl⟩ | ⟨hij, hold⟩
        · rw [if_pos rfl]
          show s.executedBy i ++ e.fireList ++ [] = e.fired
          rw [List.append_nil]
          exact h.inOrder i e he
        · rw [if_neg hij, List.append_nil]
          exact h.inOrder j e' hold
      · intro j e' he'
        rcases hcases j e' he' with ⟨rfl, rfl⟩ | ⟨-, hold⟩
        · exact h.settings i e he
        · exact h.settings j e' hold
      · intro x hx
        show x.executor < (s.executors.set i _).length ∧ _
        rw [List.length_set]
        rcases List.mem_append.mp hx with hx | hx
        · exact h.inFrame x hx
        · obtain ⟨list, -, rfl⟩ := List.mem_map.mp hx
          exact ⟨hlt, hframe⟩
      · show State.execute assign e.fireList s.memory = State.execute assign (List.map _ (s.executions ++ _)) memory₀
        rw [List.map_append, execute_append, ← h.memory, List.map_map]
        exact congrArg (State.execute assign · s.memory) (List.map_id e.fireList).symm
      · intro pid j hcall
        show j < (s.executors.set i _).length ∧ _
        rw [List.length_set]
        exact h.waiting pid j hcall
      · intro pid j
        refine (h.holding pid j).trans ⟨?_, ?_⟩
        · rintro ⟨e₁, he₁, hmutex⟩
          by_cases hij : i = j
          · subst hij
            obtain rfl := Option.some.inj (he.symm.trans he₁)
            exact ⟨{ e with fireList := [] }, List.getElem?_set_self hlt, hmutex⟩
          · exact ⟨e₁, (List.getElem?_set_ne hij).trans he₁, hmutex⟩
        · rintro ⟨e₁, he₁, hmutex⟩
          rcases hcases j e₁ he₁ with ⟨rfl, rfl⟩ | ⟨-, hold⟩
          · exact ⟨e, he, hmutex⟩
          · exact ⟨e₁, hold, hmutex⟩

/-- **One step.** -/
theorem good_step (h : Good assign memory₀ s) {a : Action ε} (hok : Ok s a) : Good assign memory₀ (s.step assign a) := by
  unfold State.step
  rw [if_neg (by rw [h.alive]; exact Bool.false_ne_true)]
  cases a with
  | addInjectorExecutor => exact good_addInjectorExecutor h
  | addtoList pid rei =>
    show Good assign memory₀ (if s.calls pid = none then _ else s)
    split
    · next hidle => exact good_addtoList h hidle rei
    · exact h
  | fire pid threadId =>
    show Good assign memory₀ (if s.calls pid = none then _ else s)
    split
    · next hidle => exact good_fire h hidle threadId
    · exact h
  | lock pid => exact good_lock h pid
  | unlock pid => exact good_unlock h pid
  | setFrameMultiple i mult => exact good_modify h i (fun e => ⟨rfl, rfl, rfl⟩) hok
  | setFrameOffset i offset =>
    refine good_modify h i (fun e => ?_) fun e he => ?_
    · unfold RtiExec.setFrameOffset
      split
      · exact ⟨rfl, rfl, rfl⟩
      · exact ⟨rfl, rfl, rfl⟩
    · unfold RtiExec.setFrameOffset
      split
      · exact h.settings i e he
      · next hlt => exact Nat.lt_of_not_le hlt
  | exec i => exact good_exec h i
  | nextFrame => exact ⟨h.alive, h.inOrder, h.settings, h.inFrame, h.memory, h.waiting, h.holding⟩

/-! ## Frames to come -/

/-- The settings of an executor. -/
def settingsOf (s : State ε μ) (i : Nat) : Option (Nat × Nat) :=
  s.executors[i]?.map fun e => (e.frameMultiple, e.frameOffset)

theorem settingsOf_modify (i j : Nat) {f : RtiExec ε → RtiExec ε}
    (hf : i = j → ∀ e, (f e).frameMultiple = e.frameMultiple ∧ (f e).frameOffset = e.frameOffset) :
    ((s.executors.modify i f)[j]?).map (fun e => (e.frameMultiple, e.frameOffset)) = settingsOf s j := by
  unfold settingsOf
  by_cases hij : i = j
  · subst hij
    rw [getElem?_modify_self, Option.map_map]
    refine congrFun (congrArg Option.map (funext fun e => ?_)) _
    exact Prod.ext (hf rfl e).1 (hf rfl e).2
  · rw [getElem?_modify_of_ne hij]

/-- **Nobody else changes the settings of an executor.** -/
theorem settingsOf_step (h : Good assign memory₀ s) {a : Action ε} {i : Nat} (hkeeps : a.keeps i)
    (hi : i < s.executors.length) : settingsOf (s.step assign a) i = settingsOf s i := by
  unfold State.step
  rw [if_neg (by rw [h.alive]; exact Bool.false_ne_true)]
  cases a with
  | addInjectorExecutor =>
    show ((s.executors ++ [RtiExec.new])[i]?).map _ = _
    rw [List.getElem?_append_left hi]
    rfl
  | addtoList pid rei =>
    show settingsOf (if s.calls pid = none then s.addtoList pid rei else s) i = _
    split
    · cases rei with
      | none => rfl
      | some rei => rfl
    · rfl
  | fire pid threadId =>
    show settingsOf (if s.calls pid = none then s.fire pid threadId else s) i = _
    split
    · unfold State.fire
      split
      · rfl
      · rfl
    · rfl
  | lock pid =>
    show settingsOf (s.lock pid) i = _
    unfold State.lock
    split
    · split
      · exact settingsOf_modify _ i fun _ e => ⟨rfl, rfl⟩
      · rfl
    · rfl
  | unlock pid =>
    show settingsOf (s.unlock pid) i = _
    unfold State.unlock
    split
    · exact settingsOf_modify _ i fun _ e => ⟨rfl, rfl⟩
    · rfl
  | setFrameMultiple j mult => exact settingsOf_modify j i fun hij => absurd hij hkeeps
  | setFrameOffset j offset => exact settingsOf_modify j i fun hij => absurd hij hkeeps
  | exec j =>
    show settingsOf (s.exec assign j) i = _
    cases he : s.executors[j]? with
    | none =>
      unfold State.exec
      rw [he]
    | some e =>
      rcases exec_cases s.frameCount (h.settings j e he) with ⟨hexec, -⟩ | ⟨hexec, -⟩
      · rw [exec_eq he hexec, set_same he]
        rfl
      · rw [exec_eq he hexec]
        unfold settingsOf
        by_cases hij : j = i
        · subst hij
          show ((s.executors.set j _)[j]?).map _ = _
          rw [List.getElem?_set_self hi, he]
          rfl
        · show ((s.executors.set j _)[i]?).map _ = _
          rw [List.getElem?_set_ne hij]
  | nextFrame => rfl

/-- The states in which an executor is called are good, and have its settings. -/
theorem callsOf_good {i : Nat} {as : List (Action ε)} (h : Good assign memory₀ s)
    (hguard : Guarded Ok (State.step assign) s as) (hkeeps : ∀ a ∈ as, a.keeps i) (hi : i < s.executors.length) :
    ∀ s' ∈ callsOf assign i s as, Good assign memory₀ s' ∧ settingsOf s' i = settingsOf s i := by
  induction as generalizing s with
  | nil => exact fun s' hs' => absurd hs' List.not_mem_nil
  | cons a as ih =>
    rw [List.forall_mem_cons] at hkeeps
    have hgood := good_step h hguard.1
    have hsame := settingsOf_step h hkeeps.1 hi
    have hi' : i < (s.step assign a).executors.length := by
      obtain ⟨e, he, -⟩ := Option.map_eq_some_iff.mp (hsame.trans (congrArg _ (List.getElem?_eq_getElem hi)))
      exact (List.getElem?_eq_some_iff.mp he).1
    have hrest := ih hgood hguard.2 hkeeps.2 hi'
    rw [hsame] at hrest
    intro s' hs'
    unfold callsOf at hs'
    split at hs'
    · rcases List.mem_cons.mp hs' with rfl | hs'
      · exact ⟨h, rfl⟩
      · exact hrest s' hs'
    · exact hrest s' hs'

/-- Frames one after the other. -/
theorem exists_frame {s₀ : State ε μ} {L : List (State ε μ)}
    (h : (s₀ :: L).IsChain fun s s' => s'.frameCount = s.frameCount + 1) {j : Nat} (hj : j < (s₀ :: L).length) :
    ∃ s' ∈ s₀ :: L, s'.frameCount = s₀.frameCount + j := by
  induction L generalizing s₀ j with
  | nil =>
    obtain rfl : j = 0 := Nat.lt_one_iff.mp hj
    exact ⟨s₀, List.mem_cons_self, rfl⟩
  | cons s₁ L ih =>
    cases j with
    | zero => exact ⟨s₀, List.mem_cons_self, rfl⟩
    | succ j =>
      obtain ⟨hnext, hrest⟩ := List.isChain_cons_cons.mp h
      obtain ⟨s', hs', hframe⟩ := ih hrest (Nat.lt_of_succ_lt_succ hj)
      exact ⟨s', List.mem_cons_of_mem s₀ hs', by omega⟩

/-- Among `k` frames one after the other every remainder occurs. -/
theorem exists_remainder {k o : Nat} (ho : o < k) (f : Nat) : ∃ j < k, (f + j) % k = o := by
  have hlt : f % k < k := Nat.mod_lt f (by omega)
  refine ⟨(o + (k - f % k)) % k, Nat.mod_lt _ (by omega), ?_⟩
  have hsum : f % k + (o + (k - f % k)) = o + k := by omega
  rw [Nat.add_mod, Nat.mod_mod, Nat.add_mod_mod, hsum, Nat.add_mod_right, Nat.mod_eq_of_lt ho]

/-- **From a good state on there is progress.** -/
theorem progress_of_good (h : Good assign memory₀ s) : Progress assign s := by
  intro i e as he hguard hkeeps hlen hchain
  have hi := (List.getElem?_eq_some_iff.mp he).1
  have hlt := h.settings i e he
  have hgood := callsOf_good h hguard hkeeps hi
  -- the call in the right frame
  obtain ⟨s', hs', hframe⟩ : ∃ s' ∈ callsOf assign i s as, s'.frameCount % e.frameMultiple = e.frameOffset := by
    cases hcalls : callsOf assign i s as with
    | nil =>
      rw [hcalls] at hlen
      exact absurd hlt (by rw [← hlen]; exact Nat.not_lt_zero _)
    | cons s₀ L =>
      rw [hcalls] at hlen hchain
      obtain ⟨j, hj, hrem⟩ := exists_remainder hlt s₀.frameCount
      obtain ⟨s', hs', hframe⟩ := exists_frame hchain (show j < (s₀ :: L).length by omega)
      exact ⟨s', hs', by rw [hframe]; exact hrem⟩
  obtain ⟨hgood', hsame⟩ := hgood s' hs'
  obtain ⟨e', he', hsettings⟩ := Option.map_eq_some_iff.mp (hsame.trans (congrArg _ he))
  obtain ⟨hmult, hoff⟩ := Prod.mk.inj hsettings
  refine ⟨s', hs', e', he', by rw [hmult, hoff]; exact hframe, fun hfree => ?_⟩
  -- it executes what is pending
  have hstep : s'.step assign (.exec i) = s'.exec assign i := by
    unfold State.step
    rw [if_neg (by rw [hgood'.alive]; exact Bool.false_ne_true)]
  have hempty : ((s'.exec assign i).executors[i]?).map RtiExec.fireList = some [] ∧
      ∃ e'', (s'.exec assign i).executors[i]? = some e'' ∧ e''.fired = e'.fired ∧ e''.fireList = [] := by
    rcases exec_cases s'.frameCount (hgood'.settings i e' he') with ⟨hexec, hnone⟩ | ⟨hexec, -⟩
    · have hnil := hnone (by rw [hmult, hoff]; exact hframe) hfree
      rw [exec_eq he' hexec, set_same he']
      refine ⟨?_, e', he', rfl, hnil⟩
      show (s'.executors[i]?).map _ = _
      rw [he', Option.map_some, hnil]
    · have hlt' := (List.getElem?_eq_some_iff.mp he').1
      rw [exec_eq he' hexec]
      refine ⟨?_, { e' with fireList := [] }, List.getElem?_set_self hlt', rfl, rfl⟩
      show ((s'.executors.set i _)[i]?).map _ = _
      rw [List.getElem?_set_self hlt']
      rfl
  rw [hstep]
  refine ⟨hempty.1, ?_⟩
  obtain ⟨e'', he'', hfired, hnil⟩ := hempty.2
  have horder := (good_exec hgood' i).inOrder i e'' he''
  rw [hnil, List.append_nil, hfired] at horder
  exact horder

/-! ## Runs -/

theorem right_of_good (h : Good assign memory₀ s) : Right assign memory₀ s where
  alive := h.alive
  inOrder := h.inOrder
  inFrame := fun x hx => (h.inFrame x hx).2
  memory := h.memory
  settings := h.settings
  progress := progress_of_good h

theorem setFrameMultiple_executors (h : s.trapped = false) (i mult : Nat) :
    (s.step assign (.setFrameMultiple i mult)).executors = s.executors.modify i (RtiExec.setFrameMultiple mult) := by
  unfold State.step
  rw [if_neg (by rw [h]; exact Bool.false_ne_true)]

/-- **Every state of a run is right exactly if every frame multiple that is set is above the frame offset.** -/
theorem injections_right_iff (assign : ε → μ → μ) (memory₀ : μ) (as : List (Action ε)) :
    (∀ bs, bs <+: as → Right assign memory₀ (Lib.run (State.step assign) (State.start memory₀) bs)) ↔
      Guarded Ok (State.step assign) (State.start memory₀) as := by
  constructor
  · intro h
    induction as using List.reverseRecOn with
    | nil => trivial
    | append_singleton as a ih =>
      have hbefore := ih fun bs hbs => h bs (hbs.trans (List.prefix_append as [a]))
      rw [guarded_append]
      refine ⟨hbefore, ?_, trivial⟩
      cases a with
      | setFrameMultiple i mult =>
        intro e he
        have halive := (h as (List.prefix_append as _)).alive
        have hafter := (h (as ++ [.setFrameMultiple i mult]) (List.prefix_refl _)).settings i (e.setFrameMultiple mult)
        rw [Lib.run_append, Lib.run_cons, Lib.run_nil] at hafter
        refine hafter ?_
        rw [setFrameMultiple_executors halive, getElem?_modify_self, he]
        rfl
      | addInjectorExecutor => trivial
      | addtoList pid rei => trivial
      | fire pid threadId => trivial
      | lock pid => trivial
      | unlock pid => trivial
      | setFrameOffset i offset => trivial
      | exec i => trivial
      | nextFrame => trivial
  · rintro hguard bs ⟨cs, rfl⟩
    have hbefore := (guarded_append bs (State.start memory₀) cs).mp hguard
    have hstep : ∀ (s : State ε μ) (a : Action ε), Good assign memory₀ s → Ok s a → Good assign memory₀ (s.step assign a) :=
      fun _ _ hgood hok => good_step hgood hok
    exact right_of_good (Guarded.invariant hstep bs _ good_start hbefore.1)

/-- **A frame multiple of 0, and one below the offset**: the program is trapped; and a list that was fired is not
    executed in any of four frames. -/
theorem injections_not_right :
    ¬ Right (fun (v _ : Nat) => v) 0 (Lib.run (State.step fun v _ => v) (State.start 0)
        [.addInjectorExecutor, .setFrameMultiple 0 0, .exec 0]) ∧
      ((Lib.run (State.step fun v _ => v) (State.start 0) [.addInjectorExecutor, .setFrameMultiple 0 4, .setFrameOffset 0 3,
        .setFrameMultiple 0 2, .addtoList 1 (some 7), .fire 1 0, .lock 1, .unlock 1, .exec 0, .nextFrame, .exec 0,
        .nextFrame, .exec 0, .nextFrame, .exec 0]).executors.map RtiExec.fireList = [[[7]]]) := by
  refine ⟨fun h => ?_, rfl⟩
  exact absurd h.alive (by decide)

end Trick.Rti
