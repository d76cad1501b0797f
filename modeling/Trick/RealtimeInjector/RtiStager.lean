/-
  `RtiStager.cpp` and `RtiExec.cpp`: lists of assignments that command threads fire and the executive's threads
  execute.

  1. **Data.**  A command thread (named by its `pthread_self`) stages events in its entry of `list_map`; an
     executor has a fire list under a mutex.  `do_assignment` of an event is the parameter `assign`.

  2. **Steps.**  Every call is a step, but `Fire` of a list is three: the checks, the push under the mutex, and
     the end of the call, so that other calls see the mutex held.  `Exec` is called at the current frame count.
     A modulus by zero ends the program (`trapped`).

  3. **History.**  The state also records what was fired, and every execution with the settings it saw; no step
     reads this.
-/
import Trick.Lib.Run

namespace Trick.Rti

/-! ## Data -/

/-- **`RtiExec`**, with the lists that were fired to it. -/
structure RtiExec (ε : Type) where
  frameMultiple : Nat
  frameOffset : Nat
  fireList : List (List ε)
  /-- The command thread that holds `list_mutex`. -/
  listMutex : Option Nat
  fired : List (List ε)

/-- What a command thread is doing in `Fire`. -/
inductive FireCall where
  | waits (threadId : Nat)
  | holds (threadId : Nat)
  deriving DecidableEq

/-- **An execution of a list**: by which executor, at which frame count, and its settings then. -/
structure Execution (ε : Type) where
  executor : Nat
  frame : Nat
  multiple : Nat
  offset : Nat
  list : List ε

/-- **The state**: `list_map` and `executors` of `RtiStager`, the calls of `Fire`, the frame count and the
    simulation's variables. -/
structure State (ε μ : Type) where
  listMap : Nat → Option (List ε)
  executors : List (RtiExec ε)
  calls : Nat → Option FireCall
  frameCount : Nat
  memory : μ
  trapped : Bool
  executions : List (Execution ε)

/-- A call, or a part of a call of `Fire`. -/
inductive Action (ε : Type) where
  | addInjectorExecutor
  | addtoList (pid : Nat) (rei : Option ε)
  | fire (pid : Nat) (threadId : Nat)
  | lock (pid : Nat)
  | unlock (pid : Nat)
  | setFrameMultiple (threadId mult : Nat)
  | setFrameOffset (threadId offset : Nat)
  | exec (threadId : Nat)
  | nextFrame

variable {ε μ : Type}

/-! ## Executors -/

namespace RtiExec

/-- The constructor. -/
def new : RtiExec ε := { frameMultiple := 1, frameOffset := 0, fireList := [], listMutex := none, fired := [] }

/-- `AddToFireList` after it has got the mutex. -/
def addToFireList (pid : Nat) (list : List ε) (e : RtiExec ε) : RtiExec ε :=
  { e with listMutex := some pid, fireList := e.fireList ++ [list], fired := e.fired ++ [list] }

/-- `SetFrameMultiple` -/
def setFrameMultiple (mult : Nat) (e : RtiExec ε) : RtiExec ε := { e with frameMultiple := mult }

/-- `SetFrameOffset` -/
def setFrameOffset (offset : Nat) (e : RtiExec ε) : RtiExec ε :=
  -- "RTI frame offset must be less than frame_multiple"
  if e.frameMultiple ≤ offset then e else { e with frameOffset := offset }

/-- **`Exec`**: the lists that are executed; nothing at all is a modulus by zero. -/
def exec (frame : Nat) (e : RtiExec ε) : Option (RtiExec ε × List (List ε)) :=
  if e.frameMultiple = 0 then none
  else if frame % e.frameMultiple = e.frameOffset then
    if e.fireList = [] then some (e, [])
    -- "use trylock so we don't block if the mutex is in use."
    else if e.listMutex = none then some ({ e with fireList := [] }, e.fireList)
    else some (e, [])
  else some (e, [])

end RtiExec

/-! ## Steps -/

namespace State

/-- Before any executor is added. -/
def start (memory : μ) : State ε μ where
  listMap := fun _ => none
  executors := []
  calls := fun _ => none
  frameCount := 0
  memory := memory
  trapped := false
  executions := []

/-- `RtiList::execute` of the lists one after the other. -/
def execute (assign : ε → μ → μ) (lists : List (List ε)) (memory : μ) : μ :=
  lists.flatten.foldl (fun m rei => assign rei m) memory

/-- `AddtoList` -/
def addtoList (pid : Nat) (rei : Option ε) (s : State ε μ) : State ε μ :=
  match rei with
  | none => s
  | some rei => { s with listMap := Function.update s.listMap pid (some ((s.listMap pid).getD [] ++ [rei])) }

/-- **`Fire`** up to the call of `AddToFireList`. -/
def fire (pid threadId : Nat) (s : State ε μ) : State ε μ :=
  -- "RTI Fire failed, thread %d out of range", and "no list to fire"
  if s.executors.length ≤ threadId ∨ s.listMap pid = none then s
  else { s with calls := Function.update s.calls pid (some (.waits threadId)) }

/-- The mutex is free, and the thread gets it. -/
def lock (pid : Nat) (s : State ε μ) : State ε μ :=
  match s.calls pid, s.listMap pid with
  | some (.waits i), some list =>
    if (s.executors[i]?.bind RtiExec.listMutex) = none then
      let executors := s.executors.modify i (RtiExec.addToFireList pid list)
      { s with executors := executors, calls := Function.update s.calls pid (some (.holds i)) }
    else s
  | _, _ => s

/-- The mutex is given back, and the entry of `list_map` erased. -/
def unlock (pid : Nat) (s : State ε μ) : State ε μ :=
  match s.calls pid with
  | some (.holds i) =>
    let executors := s.executors.modify i fun e => { e with listMutex := none }
    { s with executors := executors, calls := Function.update s.calls pid none,
             listMap := Function.update s.listMap pid none }
  | _ => s

/-- **`Exec`** of one executor. -/
def exec (assign : ε → μ → μ) (i : Nat) (s : State ε μ) : State ε μ :=
  match s.executors[i]? with
  | none => s
  | some e =>
    match e.exec s.frameCount with
    | none => { s with trapped := true }
    | some (e', lists) =>
      let done := lists.map (Execution.mk i s.frameCount e.frameMultiple e.frameOffset)
      { s with executors := s.executors.set i e', memory := execute assign lists s.memory,
               executions := s.executions ++ done }

/-- **A step.**  A thread that is in `Fire` makes no other call. -/
def step (assign : ε → μ → μ) (s : State ε μ) (a : Action ε) : State ε μ :=
  if s.trapped = true then s
  else match a with
    | .addInjectorExecutor => { s with executors := s.executors ++ [RtiExec.new] }
    | .addtoList pid rei => if s.calls pid = none then s.addtoList pid rei else s
    | .fire pid threadId => if s.calls pid = none then s.fire pid threadId else s
    | .lock pid => s.lock pid
    | .unlock pid => s.unlock pid
    | .setFrameMultiple i mult => { s with executors := s.executors.modify i (RtiExec.setFrameMultiple mult) }
    | .setFrameOffset i offset => { s with executors := s.executors.modify i (RtiExec.setFrameOffset offset) }
    | .exec i => s.exec assign i
    | .nextFrame => { s with frameCount := s.frameCount + 1 }

/-- What an executor has executed. -/
def executedBy (s : State ε μ) (i : Nat) : List (List ε) :=
  (s.executions.filter fun x => x.executor = i).map Execution.list

end State

end Trick.Rti
