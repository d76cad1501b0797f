/-
  An exchange of the master ends.

  Program:        `Exchange`.
  Specification:  the master and the slaves do not wait for each other for ever: whatever the order of their steps, and
                  whatever else is asked for, an exchange ends when each of them has taken so many steps.
  Result:         `exchange_ends`, if the names of the checkpoints fit into the shared memory.  A slave that waits for a
                  name that does not fit would wait for ever, since what is sent instead looks like no name.
-/
import Trick.Lib.Rounds
import Trick.MasterSlave.Lockstep

namespace Trick.MasterSlave

open Trick.Lib

/-! ## Names that fit -/

/-- The name fits into `chkpnt_name`. -/
def Kind.Fits : Kind → Prop
  | .status => True
  | .dump name | .load name => name.length ≤ maxName

def Action.Fits : Action → Prop
  | .begins kind _ => kind.Fits
  | _ => True

/-- **Every name that is sent is a name.** -/
structure Named (config : Config) (s : System) : Prop where
  sent : ∀ i, .name none ∉ s.words i
  todo : ∀ i name, .writeName i name ∈ s.todo → chkpntName name ≠ none
  /-- An exchange is not longer than this. -/
  length : s.todo.length ≤ 4 * config.numSlaves + 1

variable {config : Config} {s : System} {kind : Kind} {reads : List Nat} {writes : List Op} {i j tics : Nat}
  {command : MsSimCommand} {x : Slave} {m : MSSharedMem} {sent pending later : List Word}
  {asked : List MsSimCommand} {action : Action}

theorem named_start (config : Config) : Named config {} where
  sent := fun _ => List.not_mem_nil
  todo := fun _ _ h => absurd h List.not_mem_nil
  length := Nat.zero_le _

theorem chkpntName_ne_none {name : Name} (h : name.length ≤ maxName) : chkpntName name ≠ none := by
  unfold chkpntName
  rw [if_neg (by omega)]
  exact fun h => by cases h

theorem Config.length_writes (config : Config) (kind : Kind) (i : Nat) : (config.writes kind i).length ≤ 3 := by
  cases kind with
  | status => exact Nat.le_succ 2
  | dump name =>
    unfold Config.writes
    dsimp only
    split <;> simp
  | load name =>
    unfold Config.writes
    dsimp only
    split <;> simp

theorem Config.length_exchange (config : Config) (kind : Kind) :
    (config.exchange kind).length ≤ 4 * config.numSlaves + 1 := by
  have hwrites : ∀ l : List Nat, (l.flatMap (config.writes kind)).length ≤ 3 * l.length := by
    intro l
    induction l with
    | nil => exact Nat.zero_le _
    | cons i l ih =>
      have hone := config.length_writes kind i
      rw [List.flatMap_cons, List.length_append, List.length_cons]
      omega
  have hall := hwrites (List.range config.numSlaves)
  unfold Config.exchange
  simp only [List.length_append, List.length_map, List.length_range, List.length_singleton] at hall ⊢
  omega

/-- The names that an exchange writes. -/
theorem Config.writeName_mem (hfits : kind.Fits) {name : Name} (h : .writeName i name ∈ config.exchange kind) :
    chkpntName name ≠ none := by
  have hremains := config.remains_exchange kind
  rw [hremains.eq] at h
  simp only [List.mem_append, List.mem_map, List.mem_singleton] at h
  rcases h with (⟨j, -, heq⟩ | hop) | hdone
  · cases heq
  · obtain ⟨j, -, hj⟩ := List.mem_flatMap.mp hop
    cases kind with
    | status => simp [Config.writes] at hj
    | dump fullPathName =>
      unfold Config.writes at hj
      dsimp only at hj
      split at hj
      · simp only [List.mem_cons, Op.writeName.injEq, List.not_mem_nil, or_false, reduceCtorEq, false_or] at hj
        rw [hj.2]
        exact chkpntName_ne_none hfits
      · simp at hj
    | load fullPathName =>
      unfold Config.writes at hj
      dsimp only at hj
      split at hj
      · simp only [List.mem_cons, Op.writeName.injEq, List.not_mem_nil, or_false, reduceCtorEq, false_or] at hj
        rw [hj.2]
        exact chkpntName_ne_none hfits
      · simp at hj
  · cases hdone

/-- **The master's step**: nothing, or one less to do. -/
theorem masterStep_todo (s : System) : s.masterStep = s ∨ ∃ op, s.todo = op :: s.masterStep.todo := by
  cases htodo : s.todo with
  | nil =>
    left
    simp only [System.masterStep, htodo]
  | cons op todo =>
    cases op with
    | readStatus i =>
      simp only [System.masterStep, htodo]
      by_cases hempty : (s.memory i).slaveCommand.isEmpty = true
      · rw [if_pos hempty]
        exact Or.inl rfl
      · rw [if_neg hempty]
        exact Or.inr ⟨_, rfl⟩
    | writeTime i =>
      simp only [System.masterStep, htodo]
      exact Or.inr ⟨_, rfl⟩
    | writeCommand i c =>
      simp only [System.masterStep, htodo]
      exact Or.inr ⟨_, rfl⟩
    | writeName i name =>
      simp only [System.masterStep, htodo]
      exact Or.inr ⟨_, rfl⟩
    | done kind =>
      simp only [System.masterStep, htodo]
      exact Or.inr ⟨_, rfl⟩

theorem Named.masterStep (h : Named config s) : Named config s.masterStep := by
  have htodo : ∀ op ∈ s.masterStep.todo, op ∈ s.todo := by
    intro op hop
    rcases masterStep_todo s with hsame | ⟨op', hcons⟩
    · rw [hsame] at hop
      exact hop
    · rw [hcons]
      exact List.mem_cons_of_mem _ hop
  refine ⟨?_, fun i name hname => h.todo i name (htodo _ hname), ?_⟩
  · intro i
    -- the only words that are names come from the names that are to be written
    have hupdate : ∀ (j : Nat) (word : Word), word ≠ .name none →
        .name none ∉ Function.update s.words j (s.words j ++ [word]) i := by
      intro j word hword
      by_cases hi : i = j
      · subst hi
        rw [Function.update_self, List.mem_append, List.mem_singleton]
        rintro (hin | heq)
        · exact h.sent i hin
        · exact hword heq.symm
      · rw [Function.update_of_ne hi]
        exact h.sent i
    cases hops : s.todo with
    | nil =>
      simp only [System.masterStep, hops]
      exact h.sent i
    | cons op todo =>
      cases op with
      | readStatus j =>
        simp only [System.masterStep, hops]
        split <;> exact h.sent i
      | writeTime j =>
        simp only [System.masterStep, hops]
        exact hupdate j _ (fun h => by cases h)
      | writeCommand j c =>
        simp only [System.masterStep, hops]
        exact hupdate j _ (fun h => by cases h)
      | writeName j name =>
        simp only [System.masterStep, hops]
        refine hupdate j _ ?_
        intro heq
        exact h.todo j name (by rw [hops]; exact List.mem_cons_self) (Word.name.inj heq)
      | done kind =>
        simp only [System.masterStep, hops]
        cases kind <;> exact h.sent i
  · have hlength := h.length
    rcases masterStep_todo s with hsame | ⟨op', hcons⟩
    · rw [hsame]
      exact hlength
    · rw [hcons, List.length_cons] at hlength
      omega

/-- Another slave, and another memory. -/
theorem Named.setSlave (h : Named config s) : Named config (s.setSlave i x m) :=
  ⟨h.sent, h.todo, h.length⟩

/-- **Every step**, in which an exchange of names that fit may begin. -/
theorem Named.step (h : Named config s) (hfits : s.todo = [] → action.Fits) : Named config (s.step config action) := by
  cases action with
  | request request =>
    simp only [System.step]
    split <;> exact ⟨h.sent, h.todo, h.length⟩
  | slaveRequest j request =>
    simp only [System.step]
    split
    · exact h.setSlave
    · exact h
  | begins kind timeTics =>
    simp only [System.step]
    by_cases htodo : s.todo = []
    · rw [if_pos htodo]
      exact ⟨h.sent, fun i name hname => config.writeName_mem (hfits htodo) hname, config.length_exchange kind⟩
    · rw [if_neg htodo]
      exact h
  | master => exact h.masterStep
  | slave j =>
    simp only [System.step]
    split
    · rcases slaveStep_cases s j with hsame | ⟨x, m, hset⟩
      · rw [hsame]
        exact h
      · rw [hset]
        exact h.setSlave
    · exact h

/-! ## What can move -/

/-- **Who can take a step** in an exchange. -/
def System.Moves (config : Config) (s : System) : Action → Prop
  | .master =>
    match s.todo with
    | [] => False
    | .readStatus i :: _ => (s.memory i).slaveCommand.isEmpty = false
    | _ :: _ => True
  | .slave i => i < config.numSlaves ∧
    match (s.slave i).place with
    | .working => True
    | .readTime => (s.memory i).masterTime.isEmpty = false
    | .readCommand => (s.memory i).masterCommand.isEmpty = false
    | .readName _ => (s.memory i).chkpntName ≠ none
  | _ => False

/-- The master and the slaves. -/
def Config.Party (config : Config) : Action → Prop
  | .master => True
  | .slave i => i < config.numSlaves
  | _ => False

/-- What can still happen to a slave in an exchange. -/
def System.cost (s : System) (i : Nat) : Nat :=
  2 * ((s.words i).length - (s.slave i).words.length + (rest s.execCommand s.timeTics i s.todo).length +
    (if .readStatus i ∈ s.todo then 3 else 0)) + (if (s.slave i).place = .working then 1 else 0)

/-- **What can still happen in an exchange.** -/
def System.rank (config : Config) (s : System) : Nat :=
  s.todo.length + ∑ i ∈ Finset.range config.numSlaves, s.cost i

theorem Inv.cost_le (h : Inv config s) (i : Nat) : s.cost i ≤ 13 := by
  obtain ⟨pending, asked, hlink⟩ := h.links i
  have hlength := hlink.expects.length_le
  rw [List.length_append] at hlength
  unfold System.cost
  rw [hlink.sent, List.length_append]
  split <;> split <;> omega

theorem rank_le (h : Inv config s) (hnamed : Named config s) : s.rank config ≤ 17 * config.numSlaves + 1 := by
  have hsum : ∑ i ∈ Finset.range config.numSlaves, s.cost i ≤ ∑ _i ∈ Finset.range config.numSlaves, 13 :=
    Finset.sum_le_sum fun i _ => h.cost_le i
  rw [Finset.sum_const, Finset.card_range, smul_eq_mul] at hsum
  have hlength := hnamed.length
  unfold System.rank
  omega

/-- Nothing more happens to a slave, and the master has less to do. -/
theorem rank_lt_of_todo {s' : System} (htodo : s'.todo.length < s.todo.length)
    (hcost : ∀ i < config.numSlaves, s'.cost i ≤ s.cost i) : s'.rank config < s.rank config := by
  have hsum : ∑ i ∈ Finset.range config.numSlaves, s'.cost i ≤ ∑ i ∈ Finset.range config.numSlaves, s.cost i :=
    Finset.sum_le_sum fun i hi => hcost i (Finset.mem_range.mp hi)
  unfold System.rank
  omega

/-- How much is written to a slave does not depend on the command. -/
theorem length_filterMap_word (command command' : MsSimCommand) (tics tics' : Nat) (l : List Op) :
    (l.filterMap (Op.word command tics i)).length = (l.filterMap (Op.word command' tics' i)).length := by
  induction l with
  | nil => rfl
  | cons op l ih =>
    rw [List.filterMap_cons, List.filterMap_cons]
    cases op with
    | readStatus j => exact ih
    | done kind => exact ih
    | writeTime j =>
      by_cases hj : j = i
      · simpa [Op.word, hj] using ih
      · simpa [Op.word, hj] using ih
    | writeCommand j c =>
      by_cases hj : j = i
      · simpa [Op.word, hj] using ih
      · simpa [Op.word, hj] using ih
    | writeName j name =>
      by_cases hj : j = i
      · simpa [Op.word, hj] using ih
      · simpa [Op.word, hj] using ih

/-- The end of an exchange changes no slave. -/
theorem cost_finish (hops : s.todo = [.done kind]) (i : Nat) : s.masterStep.cost i = s.cost i := by
  have hrest : rest s.execCommand s.timeTics i s.todo = [] := by
    unfold rest
    rw [hops, if_neg (by simp)]
    rfl
  have hnot : Op.readStatus i ∉ s.todo := by
    rw [hops]
    simp
  have hsame : s.masterStep.words = s.words ∧ s.masterStep.slave = s.slave ∧ s.masterStep.todo = [] := by
    simp only [System.masterStep, hops]
    cases kind <;> exact ⟨rfl, rfl, trivial⟩
  obtain ⟨hwords, hslave, htodo⟩ := hsame
  unfold System.cost
  rw [hwords, hslave, htodo, hrest, rest_nil, if_neg hnot, if_neg List.not_mem_nil]

/-- **A step of the master lowers the rank.** -/
theorem Inv.rank_masterStep (h : Inv config s) (hmoves : s.Moves config .master) :
    s.masterStep.rank config < s.rank config := by
  rcases h.todo with htodo | ⟨kind, reads, writes, hremains⟩
  · simp only [System.Moves, htodo] at hmoves
  · have heq := hremains.eq
    cases reads with
    | cons j reads =>
      have htodo : s.todo = .readStatus j :: (reads.map .readStatus ++ writes ++ [.done kind]) := heq
      have hempty : (s.memory j).slaveCommand.isEmpty ≠ true := by
        simp only [System.Moves, htodo] at hmoves
        rw [hmoves]
        exact Bool.false_ne_true
      obtain ⟨hslave, hwords, htodo', -, -, htics, -⟩ := masterStep_readStatus htodo hempty
      have hremains' : config.Remains s.masterStep.todo kind reads writes := by
        rw [htodo']
        exact hremains.tail_read htodo
      refine rank_lt_of_todo (by rw [htodo, htodo', List.length_cons]; omega) ?_
      intro i hi
      have hmem := hremains.readStatus_mem_iff (i := i)
      have hmem' := hremains'.readStatus_mem_iff (i := i)
      unfold System.cost
      rw [hslave, hwords, htics, hremains.rest_eq, hremains'.rest_eq]
      by_cases hin : i ∈ reads
      · rw [if_pos hin, if_pos (List.mem_cons_of_mem j hin), if_pos (hmem'.mpr hin),
          if_pos (hmem.mpr (List.mem_cons_of_mem j hin))]
      · rw [if_neg hin, if_neg (fun hn => hin (hmem'.mp hn))]
        by_cases hij : i = j
        · subst hij
          obtain ⟨word, name, hmessage, -⟩ :=
            filterMap_writes config kind i h.execCommand s.timeTics
          have hlength : (writes.filterMap (Op.word s.masterStep.execCommand s.timeTics i)).length ≤ 3 := by
            rw [length_filterMap_word _ s.execCommand _ s.timeTics,
              hremains.filterMap_whole (List.cons_ne_nil i reads), if_pos hi, hmessage]
            exact length_message s.timeTics word name
          rw [if_pos List.mem_cons_self, if_pos (hmem.mpr List.mem_cons_self), List.length_nil]
          omega
        · have hnot : i ∉ j :: reads := by
            rintro (_ | ⟨_, hn⟩)
            · exact hij rfl
            · exact hin hn
          rw [if_neg hnot, if_neg (fun hn => hnot (hmem.mp hn)),
            length_filterMap_word _ s.execCommand _ s.timeTics]
    | nil =>
      cases writes with
      | cons op writes =>
        have htodo : s.todo = op :: (writes ++ [.done kind]) := heq
        have hremains' := hremains.tail_write htodo
        have hop := hremains.areWrites op List.mem_cons_self
        obtain ⟨⟨word, hword⟩, hothers⟩ := word_target s.execCommand s.timeTics hop
        have hstep := masterStep_write htodo hop hword
        have hnew : config.Remains s.masterStep.todo kind [] writes := by
          rw [hstep]
          exact hremains'
        refine rank_lt_of_todo (by rw [hstep, htodo, List.length_cons]; exact Nat.lt_succ_self _) ?_
        intro i _
        obtain ⟨pending, asked, hlink⟩ := h.links i
        have hmem := hremains.readStatus_mem_iff (i := i)
        have hmem' := hnew.readStatus_mem_iff (i := i)
        have hnot : Op.readStatus i ∉ s.todo := fun hn => List.not_mem_nil (hmem.mp hn)
        have hnot' : Op.readStatus i ∉ s.masterStep.todo := fun hn => List.not_mem_nil (hmem'.mp hn)
        have hlength := congrArg List.length hlink.sent
        rw [List.length_append] at hlength
        have hsame : s.masterStep.slave = s.slave ∧ s.masterStep.execCommand = s.execCommand ∧
            s.masterStep.timeTics = s.timeTics ∧
            s.masterStep.words = Function.update s.words op.target (s.words op.target ++ [word]) := by
          rw [hstep]
          exact ⟨rfl, rfl, rfl, rfl⟩
        obtain ⟨hslave, hexec, htics, hwords⟩ := hsame
        unfold System.cost
        rw [if_neg hnot, if_neg hnot', hremains.rest_eq, hnew.rest_eq, if_neg List.not_mem_nil,
          if_neg List.not_mem_nil, hslave, hexec, htics, hwords]
        by_cases hi : i = op.target
        · subst hi
          rw [Function.update_self, List.filterMap_cons_some hword, List.length_append, List.length_cons,
            List.length_cons, List.length_nil]
          omega
        · rw [Function.update_of_ne hi, List.filterMap_cons_none (hothers i hi)]
      | nil =>
        have htodo : s.todo = [.done kind] := heq
        have hnil : s.masterStep.todo = [] := by
          simp only [System.masterStep, htodo]
        refine rank_lt_of_todo (by rw [htodo, hnil]; exact Nat.zero_lt_one) ?_
        intro i _
        exact Nat.le_of_eq (cost_finish htodo i)

/-- A slave changes. -/
theorem rank_setSlave_lt (hj : j < config.numSlaves)
    (hlt : 2 * ((s.words j).length - x.words.length) + (if x.place = .working then 1 else 0) <
      2 * ((s.words j).length - (s.slave j).words.length) + (if (s.slave j).place = .working then 1 else 0)) :
    (s.setSlave j x m).rank config < s.rank config := by
  have hself : (s.setSlave j x m).slave j = x := by
    show Function.update s.slave j x j = x
    rw [Function.update_self]
  have hcost : (s.setSlave j x m).cost j < s.cost j := by
    show 2 * ((s.words j).length - ((s.setSlave j x m).slave j).words.length + _ + _) +
      (if ((s.setSlave j x m).slave j).place = .working then 1 else 0) < s.cost j
    rw [hself]
    show 2 * ((s.words j).length - x.words.length + (rest s.execCommand s.timeTics j s.todo).length +
      (if .readStatus j ∈ s.todo then 3 else 0)) + (if x.place = .working then 1 else 0) < s.cost j
    unfold System.cost
    omega
  have hothers : ∀ i, i ≠ j → (s.setSlave j x m).cost i = s.cost i := by
    intro i hi
    have hslave : (s.setSlave j x m).slave i = s.slave i := by
      show Function.update s.slave j x i = s.slave i
      rw [Function.update_of_ne hi]
    show 2 * ((s.words i).length - ((s.setSlave j x m).slave i).words.length + _ + _) +
      (if ((s.setSlave j x m).slave i).place = .working then 1 else 0) = s.cost i
    rw [hslave]
    rfl
  have hsum : ∑ i ∈ Finset.range config.numSlaves, (s.setSlave j x m).cost i <
      ∑ i ∈ Finset.range config.numSlaves, s.cost i := by
    refine Finset.sum_lt_sum ?_ ⟨j, Finset.mem_range.mpr hj, hcost⟩
    intro i _
    by_cases hi : i = j
    · subst hi
      exact Nat.le_of_lt hcost
    · exact Nat.le_of_eq (hothers i hi)
  unfold System.rank
  exact Nat.add_lt_add_left hsum _

/-- **A step of a slave lowers the rank.** -/
theorem Inv.rank_slaveStep (h : Inv config s) (hmoves : s.Moves config (.slave j)) :
    (s.slaveStep j).rank config < s.rank config := by
  obtain ⟨hj, hready⟩ := hmoves
  obtain ⟨pending, asked, hlink⟩ := h.links j
  have hlength := congrArg List.length hlink.sent
  rw [List.length_append] at hlength
  cases hplace : (s.slave j).place with
  | working =>
    simp only [System.slaveStep, hplace]
    refine rank_setSlave_lt hj ?_
    rw [if_pos hplace]
    exact Nat.lt_succ_self _
  | readTime =>
    rw [hplace] at hready
    simp only [System.slaveStep, hplace]
    rw [if_neg (by rw [hready]; exact Bool.false_ne_true)]
    obtain ⟨pending', hpending, -⟩ := hlink.readsTime hplace hready
    rw [hpending, List.length_cons] at hlength
    refine rank_setSlave_lt hj ?_
    rw [if_neg (fun h => by cases h), List.length_append, List.length_singleton]
    omega
  | readCommand =>
    rw [hplace] at hready
    simp only [System.slaveStep, hplace]
    rw [if_neg (by rw [hready]; exact Bool.false_ne_true)]
    have hpending : 1 ≤ pending.length := by
      obtain ⟨pending', hpending, -⟩ := hlink.readsCommand hplace hready
        { s.slave j with
          place := if (s.memory j).masterCommand.head.checkpoints then .readName (s.memory j).masterCommand.head
            else .working,
          words := (s.slave j).words ++ [.command (s.memory j).masterCommand.head] } rfl rfl
      rw [hpending, List.length_cons]
      exact Nat.le_add_left 1 _
    refine rank_setSlave_lt hj ?_
    split
    · rw [if_neg (fun h => by cases h), List.length_append, List.length_singleton]
      omega
    · show 2 * ((s.words j).length - ((s.slave j).words ++ [_]).length) + (if Place.working = .working then 1 else 0) < _
      rw [if_pos rfl, List.length_append, List.length_singleton]
      omega
  | readName command =>
    rw [hplace] at hready
    simp only [System.slaveStep, hplace]
    cases hname : (s.memory j).chkpntName with
    | none => exact absurd hname hready
    | some name =>
      have hpending : 1 ≤ pending.length := by
        obtain ⟨pending', hpending, -⟩ := hlink.readsName hplace hname
          ({ s.slave j with words := (s.slave j).words ++ [.name (some name)] } : Slave).finish rfl rfl
        rw [hpending, List.length_cons]
        exact Nat.le_add_left 1 _
      refine rank_setSlave_lt hj ?_
      show 2 * ((s.words j).length - ((s.slave j).words ++ [_]).length) + (if Place.working = .working then 1 else 0) < _
      rw [if_pos rfl, List.length_append, List.length_singleton]
      omega

/-! ## Turns -/

/-- **Who waits changes nothing.** -/
theorem step_of_not_moves (hdone : s.todo ≠ []) (hmoves : ¬s.Moves config action) :
    s.step config action = s ∨ ∃ j request, action = .slaveRequest j request := by
  cases action with
  | request request => exact Or.inl (if_neg hdone)
  | slaveRequest j request => exact Or.inr ⟨j, request, rfl⟩
  | begins kind timeTics => exact Or.inl (if_neg hdone)
  | master =>
    left
    cases hops : s.todo with
    | nil => exact absurd hops hdone
    | cons op todo =>
      cases op with
      | readStatus i =>
        simp only [System.Moves, hops] at hmoves
        simp only [System.step, System.masterStep, hops]
        rw [if_pos (Bool.not_eq_false _ ▸ hmoves)]
      | _ => simp only [System.Moves, hops, not_true] at hmoves
  | slave j =>
    left
    simp only [System.step]
    by_cases hj : j < config.numSlaves
    · rw [if_pos hj]
      have hready := fun h => hmoves ⟨hj, h⟩
      cases hplace : (s.slave j).place with
      | working =>
        rw [hplace] at hready
        exact absurd trivial hready
      | readTime =>
        rw [hplace] at hready
        simp only [System.slaveStep, hplace]
        rw [if_pos (Bool.not_eq_false _ ▸ hready)]
      | readCommand =>
        rw [hplace] at hready
        simp only [System.slaveStep, hplace]
        rw [if_pos (Bool.not_eq_false _ ▸ hready)]
      | readName command =>
        rw [hplace] at hready
        have hnone : (s.memory j).chkpntName = none := not_not.mp hready
        simp only [System.slaveStep, hplace, hnone]
    · rw [if_neg hj]

/-- **A request to a slave** neither wakes nor stops anybody. -/
theorem slaveRequest_same (j : Nat) (request : Request) :
    (s.step config (.slaveRequest j request)).rank config = s.rank config ∧
      ∀ b, s.Moves config b → (s.step config (.slaveRequest j request)).Moves config b := by
  simp only [System.step]
  by_cases hplace : (s.slave j).place = .working
  · rw [if_pos hplace]
    generalize hs' : s.setSlave j { s.slave j with execCommand := request.command } (s.memory j) = s'
    have hmemory : s'.memory = s.memory := by
      rw [← hs']
      exact Function.update_eq_self j s.memory
    have hslave : ∀ i, (s'.slave i).place = (s.slave i).place ∧ (s'.slave i).words = (s.slave i).words := by
      intro i
      rw [← hs']
      show (Function.update s.slave j _ i).place = _ ∧ (Function.update s.slave j _ i).words = _
      by_cases hi : i = j
      · subst hi
        rw [Function.update_self]
        exact ⟨rfl, rfl⟩
      · rw [Function.update_of_ne hi]
        exact ⟨rfl, rfl⟩
    have hrest : s'.todo = s.todo ∧ s'.words = s.words ∧ s'.execCommand = s.execCommand ∧ s'.timeTics = s.timeTics := by
      rw [← hs']
      exact ⟨rfl, rfl, rfl, rfl⟩
    obtain ⟨htodo, hwords, hexec, htics⟩ := hrest
    constructor
    · unfold System.rank System.cost
      simp only [htodo, hwords, hexec, htics, (hslave _).1, (hslave _).2]
    · intro b hb
      cases b with
      | master =>
        simp only [System.Moves, htodo, hmemory]
        exact hb
      | slave i =>
        simp only [System.Moves, hmemory, (hslave _).1]
        exact hb
      | _ => exact hb
  · rw [if_neg hplace]
    exact ⟨rfl, fun _ hb => hb⟩

/-- **In an exchange somebody can take a step**: the master, or the slave that it waits for. -/
theorem Inv.exists_moves (h : Inv config s) (hnamed : Named config s) (hdone : s.todo ≠ []) :
    ∃ a, config.Party a ∧ s.Moves config a := by
  rcases h.todo with htodo | ⟨kind, reads, writes, hremains⟩
  · exact absurd htodo hdone
  · have heq := hremains.eq
    cases reads with
    | nil =>
      refine ⟨.master, trivial, ?_⟩
      cases writes with
      | nil =>
        have hops : s.todo = [.done kind] := heq
        simp only [System.Moves, hops]
      | cons op writes =>
        have hops : s.todo = op :: (writes ++ [.done kind]) := heq
        have hop := hremains.areWrites op List.mem_cons_self
        cases op with
        | readStatus i => cases hop
        | _ => simp only [System.Moves, hops]
    | cons i reads =>
      have hops : s.todo = .readStatus i :: (reads.map .readStatus ++ writes ++ [.done kind]) := heq
      by_cases hempty : (s.memory i).slaveCommand.isEmpty = true
      · refine ⟨.slave i, hremains.inRange i List.mem_cons_self, hremains.inRange i List.mem_cons_self, ?_⟩
        obtain ⟨pending, asked, hlink⟩ := h.links i
        -- the command of the slave is not there, and nothing is written to it before it is
        have hasked : asked = [] := hlink.slaveCommand.isEmpty_iff.mp hempty
        have hexpects := hlink.expects
        rw [hremains.rest_eq, if_pos List.mem_cons_self, List.append_nil] at hexpects
        cases hplace : (s.slave i).place with
        | working => exact trivial
        | readTime =>
          rw [hplace] at hexpects
          rcases hexpects with ⟨⟨command, hcommand⟩, -⟩ | ⟨-, tics, command, name, hahead⟩
          · rw [hasked] at hcommand
            cases hcommand
          · refine Bool.eq_false_iff.mpr ?_
            intro hnone
            have htimes := hlink.masterTime.isEmpty_iff.mp hnone
            have hsome : (times (message tics command name)).length = 1 := by
              unfold message
              split <;> rfl
            rw [hahead] at htimes
            rw [htimes] at hsome
            cases hsome
        | readCommand =>
          rw [hplace] at hexpects
          obtain ⟨-, command, name, hahead⟩ := hexpects
          refine Bool.eq_false_iff.mpr ?_
          intro hnone
          have hcommands := hlink.masterCommand.isEmpty_iff.mp hnone
          rw [hahead, commands_tail_message] at hcommands
          cases hcommands
        | readName command =>
          rw [hplace] at hexpects
          obtain ⟨-, name, hahead⟩ := hexpects
          show (s.memory i).chkpntName ≠ none
          have hslot : (s.memory i).chkpntName = name := by
            rw [hlink.chkpntName, hahead]
            rfl
          rw [hslot]
          intro hnone
          -- a name that has been sent is a name
          refine hnamed.sent i ?_
          rw [hlink.sent, hahead, hnone]
          exact List.mem_append_right _ List.mem_cons_self
      · refine ⟨.master, trivial, ?_⟩
        simp only [System.Moves, hops]
        exact Bool.not_eq_true _ ▸ hempty

/-- **The exchange makes progress.** -/
theorem exchange_progress (config : Config) :
    Progress (System.step config) (fun s => Inv config s ∧ Named config s) (fun s => s.todo = []) config.Party
      (System.Moves config) (System.rank config) := by
  have hlower : ∀ (s : System) (a : Action), Inv config s ∧ Named config s → s.Moves config a →
      (s.step config a).rank config < s.rank config := by
    intro s a hinv hmoves
    cases a with
    | master => exact hinv.1.rank_masterStep hmoves
    | slave j =>
      have hstep : s.step config (.slave j) = s.slaveStep j := if_pos hmoves.1
      rw [hstep]
      exact hinv.1.rank_slaveStep hmoves
    | _ => exact hmoves.elim
  refine ⟨?_, ?_, fun s a hinv _ => hlower s a hinv, ?_, fun s hinv hdone => hinv.1.exists_moves hinv.2 hdone⟩
  · intro s a hinv hdone
    exact ⟨hinv.1.step a, hinv.2.step (fun htodo => absurd htodo hdone)⟩
  · intro s a hinv hdone
    by_cases hmoves : s.Moves config a
    · exact Nat.le_of_lt (hlower s a hinv hmoves)
    · rcases step_of_not_moves hdone hmoves with hsame | ⟨j, request, rfl⟩
      · rw [hsame]
      · rw [(slaveRequest_same j request).1]
  · intro s a b hinv hdone hb
    by_cases hmoves : s.Moves config a
    · exact Or.inl (hlower s a hinv hmoves)
    · rcases step_of_not_moves hdone hmoves with hsame | ⟨j, request, rfl⟩
      · rw [hsame]
        exact Or.inr hb
      · exact Or.inr ((slaveRequest_same j request).2 b hb)

theorem Named.run : ∀ (actions : List Action) {s : System}, Named config s → (∀ action ∈ actions, action.Fits) →
    Named config (Lib.run (System.step config) s actions)
  | [], _, h, _ => h
  | action :: actions, _, h, hfits =>
    Named.run actions (h.step fun _ => hfits action List.mem_cons_self)
      (fun a ha => hfits a (List.mem_cons_of_mem action ha))

/-- **An exchange ends.**  Whatever has happened, and whatever else is asked for meanwhile: when each of the simulations
    has taken its turn in `17 n + 1` rounds, in any order, the master has come to the end of its exchange, if the names
    of the checkpoints were not too long. -/
theorem exchange_ends (config : Config) (before : List Action) (hfits : ∀ action ∈ before, action.Fits)
    (rounds : List (List Action))
    (hrounds : ∀ round ∈ rounds, .master ∈ round ∧ ∀ i < config.numSlaves, .slave i ∈ round)
    (hmany : 17 * config.numSlaves + 1 ≤ rounds.length) :
    ∃ done, done <+: rounds.flatten ∧ (Lib.run (System.step config) {} (before ++ done)).todo = [] := by
  have hinv : Inv config (Lib.run (System.step config) {} before) := Inv.run before (inv_start config)
  have hnamed : Named config (Lib.run (System.step config) {} before) :=
    Named.run before (named_start config) hfits
  have hparty : ∀ round ∈ rounds, ∀ a, config.Party a → a ∈ round := by
    intro round hround a ha
    cases a with
    | master => exact (hrounds round hround).1
    | slave i => exact (hrounds round hround).2 i ha
    | _ => exact ha.elim
  have hrank := rank_le hinv hnamed
  obtain ⟨done, hprefix, hdone⟩ :=
    (exchange_progress config).exists_prefix_done rounds _ ⟨hinv, hnamed⟩ hparty (by omega)
  refine ⟨done, hprefix, ?_⟩
  rw [run_append]
  exact hdone

theorem exchange_ends_dump :
    ∃ done, done <+: (List.replicate 18 [Action.slave 0, .master]).flatten ∧
      (Lib.run (System.step ⟨1, fun _ => true, fun _ => true⟩) {}
        ([.slave 0, .begins (.dump ['/', 'c']) 20] ++ done)).todo = [] :=
  exchange_ends ⟨1, fun _ => true, fun _ => true⟩ [.slave 0, .begins (.dump ['/', 'c']) 20]
    (by
      intro action haction
      simp only [List.mem_cons, List.not_mem_nil, or_false] at haction
      rcases haction with rfl | rfl
      · exact trivial
      · exact (by decide : 2 ≤ 255))
    (List.replicate 18 [.slave 0, .master])
    (by
      intro round hround
      rw [List.eq_of_mem_replicate hround]
      refine ⟨by decide, ?_⟩
      intro i hi
      obtain rfl : i = 0 := Nat.lt_one_iff.mp hi
      exact List.mem_cons_self)
    (by decide)

end Trick.MasterSlave
