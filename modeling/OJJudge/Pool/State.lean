import OJJudge.Concurrency.Totals

/-! The thread pool that runs the judge's jobs.  Each section under `mutexPool` or `mutexBusyNum` and
each access without a lock is one step; `pthread_cond_signal` wakes one blocked worker if there is
one, and a blocked worker can also wake up by itself. -/

namespace OJJudge.Pool

open Concurrency

variable {Task : Type}

/-- The members of a `ThreadPool` that its functions use. -/
structure ThreadPool (Task : Type) where
  task_queue : List Task
  /-- The id in each slot; 0 is a free slot. -/
  threadID : Nat → Nat
  minNum : Nat
  maxNum : Nat
  busyNum : Int
  liveNum : Int
  exitNum : Int
  waitTime : Int
  shutdown : Bool

/-- Where a worker is. -/
inductive Worker (Task : Type)
  /-- The thread does not exist, or has ended. -/
  | gone
  /-- About to lock `mutexPool`. -/
  | top
  /-- Blocked in `pthread_cond_wait`. -/
  | waiting
  /-- About to lock `mutexPool` again at the end of `pthread_cond_wait`. -/
  | woken
  /-- About to signal, and then to increment `busyNum`, to call the task and to return from it. -/
  | popped (task : Task)
  | signalled (task : Task)
  | counted (task : Task)
  | calling (task : Task)
  /-- About to decrement `busyNum`. -/
  | returned
  /-- In `exitThread`, about to read slot `i`. -/
  | scan (i : Nat)
  /-- In `exitThread`, about to clear slot `i`. -/
  | clear (i : Nat)
  deriving DecidableEq

/-- The thread exists. -/
def Worker.exists? : Worker Task → Bool
  | gone => false
  | _ => true

def Worker.isWaiting : Worker Task → Bool
  | waiting => true
  | _ => false

/-- The pool and the threads that use it, but for its manager and its destructor. -/
structure Core (Task : Type) where
  pool : ThreadPool Task
  worker : Nat → Worker Task
  /-- The ids of the workers created so far. -/
  threads : Finset Nat
  /-- The number of `push` calls that have yet to signal. -/
  signals : Nat

inductive Event (Task : Type)
  | pushed (task : Task)
  | popped (t : Nat) (task : Task)
  | called (t : Nat) (task : Task)
  | returned (t : Nat) (task : Task)
  /-- `front` and `pop` of an empty queue. -/
  | emptyFront (t : Nat)

namespace Core

def setWorker (c : Core Task) (t : Nat) (worker : Worker Task) : Core Task :=
  { c with worker := Function.update c.worker t worker }

section SetWorker

variable (c : Core Task) (t : Nat) (worker : Worker Task)

@[simp] theorem pool_setWorker : (c.setWorker t worker).pool = c.pool := rfl

@[simp] theorem threads_setWorker : (c.setWorker t worker).threads = c.threads := rfl

@[simp] theorem signals_setWorker : (c.setWorker t worker).signals = c.signals := rfl

@[simp] theorem worker_setWorker_same : (c.setWorker t worker).worker t = worker := by
  simp [setWorker]

theorem worker_setWorker_ne {u : Nat} (h : u ≠ t) :
    (c.setWorker t worker).worker u = c.worker u := by
  simp [setWorker, h]

end SetWorker

/-- `pthread_cond_signal`, which wakes the given worker, or none when none is blocked. -/
def signal (c : Core Task) : Option Nat → Option (Core Task)
  | none => if ∃ t ∈ c.threads, (c.worker t).isWaiting then none else some c
  | some t => if (c.worker t).isWaiting then some (c.setWorker t .woken) else none

/-- `exitNum++`. -/
def requestExit (c : Core Task) : Core Task :=
  { c with pool := { c.pool with exitNum := c.pool.exitNum + 1 } }

/-- The section of `push`. -/
def push (c : Core Task) (task : Task) : Core Task :=
  { c with
    pool := { c.pool with task_queue := c.pool.task_queue ++ [task] }
    signals := c.signals + 1 }

/-! ### The worker -/

/-- The section of `worker`, from the test of its inner loop on. -/
def takeTask (c : Core Task) (t : Nat) : Core Task × Option (Event Task) :=
  if !c.pool.shutdown && c.pool.task_queue.isEmpty then (c.setWorker t .waiting, none)
  else if c.pool.shutdown then (c.setWorker t .gone, none)
  else
    match c.pool.task_queue with
    | [] => (c.setWorker t .gone, some (.emptyFront t))
    | task :: rest =>
      ({ c with pool := { c.pool with task_queue := rest } }.setWorker t (.popped task),
        some (.popped t task))

/-- The branch that retires a worker. -/
def retire (c : Core Task) (t : Nat) : Core Task :=
  { c with
    pool := { c.pool with exitNum := c.pool.exitNum - 1, liveNum := c.pool.liveNum - 1 } }.setWorker
      t (.scan 0)

def addBusy (c : Core Task) (n : Int) : Core Task :=
  { c with pool := { c.pool with busyNum := c.pool.busyNum + n } }

def setSlot (c : Core Task) (i id : Nat) : Core Task :=
  { c with pool := { c.pool with threadID := Function.update c.pool.threadID i id } }

/-- The next step of a worker; `wake` is the worker that its signal wakes. -/
def workerStep (c : Core Task) (t : Nat) (wake : Option Nat) :
    Option (Core Task × Option (Event Task)) :=
  match c.worker t with
  | .gone => none
  | .waiting => none
  | .top => some (c.takeTask t)
  | .woken => some (if c.pool.exitNum > 0 then (c.retire t, none) else c.takeTask t)
  | .popped task => (c.signal wake).map fun c => (c.setWorker t (.signalled task), none)
  | .signalled task => some ((c.addBusy 1).setWorker t (.counted task), none)
  | .counted task => some (c.setWorker t (.calling task), some (.called t task))
  | .calling task => some (c.setWorker t .returned, some (.returned t task))
  | .returned => some ((c.addBusy (-1)).setWorker t .top, none)
  | .scan i =>
    if i < c.pool.maxNum then
      some (c.setWorker t (if c.pool.threadID i = t then .clear i else .scan (i + 1)), none)
    else some (c.setWorker t .gone, none)
  | .clear i => some ((c.setSlot i 0).setWorker t .gone, none)

/-! ### The creation of workers -/

/-- The outcome of a `pthread_create`: the id of the new thread, or what a failed call leaves in the
slot. -/
inductive Created
  | ok (id : Nat)
  | failed (left : Nat)

/-- A new worker in slot `i`. -/
def addWorker (c : Core Task) (i id : Nat) : Core Task :=
  { c with
    pool := { c.pool with
      threadID := Function.update c.pool.threadID i id
      liveNum := c.pool.liveNum + 1 }
    worker := Function.update c.worker id .top
    threads := insert id c.threads }

/-- The loop that fills the free slots from `i` on, of which `n` are left.  The id of a new thread is
not zero and not that of a thread that exists. -/
def createFrom (created : Nat → Created) : (n i : Nat) → Core Task → Option (Core Task)
  | 0, _, c => some c
  | n + 1, i, c =>
    if c.pool.threadID i = 0 then
      match created i with
      | .ok id =>
        if id = 0 ∨ (c.worker id).exists? then none
        else createFrom created n (i + 1) (c.addWorker i id)
      | .failed left => some (c.setSlot i left)
    else createFrom created n (i + 1) c

def createAll (c : Core Task) (created : Nat → Created) : Option (Core Task) :=
  createFrom created c.pool.maxNum 0 c

end Core

/-! ### The manager and the destructor -/

/-- Where the manager is.  `again` tells the second reading of the condition to shrink, that of the
loop, from the first one. -/
inductive Manager
  /-- About to read `shutdown`. -/
  | top
  /-- About to read `busyNum` and the size of the queue, in either order. -/
  | grow
  | growSize (busyNum : Int)
  | growBusyNum (size : Nat)
  | growLiveNum
  | create
  /-- About to read `busyNum` and `liveNum`, in either order. -/
  | shrink (again : Bool)
  | shrinkLiveNum (again : Bool) (busyNum : Int)
  | shrinkBusyNum (again : Bool) (liveNum : Int)
  | shrinkMin (again : Bool)
  | shrinkExit
  | shrinkSignal
  /-- About to read `busyNum` after the sleep, and then `waitTime`. -/
  | tick
  | check
  | kill
  | killExit
  | killSignal
  | ended
  deriving DecidableEq

/-- The final loop of the manager, or its end. -/
def Manager.kills : Manager → Bool
  | kill | killExit | killSignal | ended => true
  | _ => false

/-- Where `~ThreadPool` is. -/
inductive Destructor
  | notCalled
  | loop
  | exit
  | signal
  | done
  deriving DecidableEq

structure State (Task : Type) where
  core : Core Task
  manager : Manager
  /-- The variable `time` of the manager. -/
  time : Nat
  destructor : Destructor

namespace State

def INT_MAX : Nat := 2147483647

/-- `busyNum < task_queue.size()`, which compares without signs. -/
def lessTasks (busyNum : Int) (size : Nat) : Bool := busyNum % 2 ^ 64 < size

def setManager (s : State Task) (manager : Manager) : State Task := { s with manager := manager }

/-- The condition to shrink has been read up to `busyNum * 2 < liveNum`. -/
def shrinkBranch (s : State Task) (again : Bool) (busyNum liveNum : Int) : State Task :=
  s.setManager (if busyNum * 2 < liveNum then .shrinkMin again else .tick)

/-- The next step of the manager.  `first` tells which of two operands is read first. -/
def managerStep (s : State Task) (first : Bool) (created : Nat → Core.Created)
    (wake : Option Nat) : Option (State Task) :=
  match s.manager with
  | .top => some (s.setManager (if s.core.pool.shutdown then .ended else .grow))
  | .grow => some (s.setManager (if first then .growSize s.core.pool.busyNum
      else .growBusyNum s.core.pool.task_queue.length))
  | .growSize busyNum => some (s.setManager
      (if lessTasks busyNum s.core.pool.task_queue.length then .growLiveNum else .shrink false))
  | .growBusyNum size => some (s.setManager
      (if lessTasks s.core.pool.busyNum size then .growLiveNum else .shrink false))
  | .growLiveNum => some (s.setManager
      (if s.core.pool.liveNum < s.core.pool.maxNum then .create else .shrink false))
  | .create => (s.core.createAll created).map fun core =>
      { s with core := core, manager := .shrink false }
  | .shrink again => some (s.setManager (if first then .shrinkLiveNum again s.core.pool.busyNum
      else .shrinkBusyNum again s.core.pool.liveNum))
  | .shrinkLiveNum again busyNum => some (s.shrinkBranch again busyNum s.core.pool.liveNum)
  | .shrinkBusyNum again liveNum => some (s.shrinkBranch again s.core.pool.busyNum liveNum)
  | .shrinkMin again => some (s.setManager (if s.core.pool.liveNum > s.core.pool.minNum then
      if again then .shrinkExit else .shrink true else .tick))
  | .shrinkExit => some { s with core := s.core.requestExit, manager := .shrinkSignal }
  | .shrinkSignal => (s.core.signal wake).map fun core =>
      { s with core := core, manager := .shrink true }
  | .tick => some { s with
      manager := .check
      time := if s.core.pool.busyNum = 0 then (s.time + 1) % (INT_MAX - 1) else 0 }
  | .check => some (s.setManager (if (s.time : Int) ≥ s.core.pool.waitTime then .kill else .top))
  | .kill => some (s.setManager (if s.core.pool.liveNum ≠ 0 then .killExit else .ended))
  | .killExit => some { s with core := s.core.requestExit, manager := .killSignal }
  | .killSignal => (s.core.signal wake).map fun core => { s with core := core, manager := .kill }
  | .ended => none

/-- The next step of `~ThreadPool`. -/
def destructorStep (s : State Task) (wake : Option Nat) : Option (State Task) :=
  match s.destructor with
  | .notCalled => some { s with
      core := { s.core with pool := { s.core.pool with shutdown := true } }
      destructor := .loop }
  | .loop => some { s with destructor := if s.core.pool.liveNum ≠ 0 then .exit else .done }
  | .exit => some { s with core := s.core.requestExit, destructor := .signal }
  | .signal => (s.core.signal wake).map fun core => { s with core := core, destructor := .loop }
  | .done => none

end State

/-! ### Runs -/

inductive Action (Task : Type)
  | push (task : Task)
  /-- A `push` call signals. -/
  | pushSignal (wake : Option Nat)
  | worker (t : Nat) (wake : Option Nat)
  /-- A blocked worker wakes up by itself. -/
  | spurious (t : Nat)
  | manager (first : Bool) (created : Nat → Core.Created) (wake : Option Nat)
  /-- `wait` sets `waitTime`. -/
  | wait (w : Int)
  | destructor (wake : Option Nat)

def State.step (s : State Task) : Action Task → Option (State Task × Option (Event Task))
  | .push task => some ({ s with core := s.core.push task }, some (.pushed task))
  | .pushSignal wake =>
    if 0 < s.core.signals then
      (s.core.signal wake).map fun core =>
        ({ s with core := { core with signals := core.signals - 1 } }, none)
    else none
  | .worker t wake => (s.core.workerStep t wake).map fun e => ({ s with core := e.1 }, e.2)
  | .spurious t =>
    if (s.core.worker t).isWaiting then
      some ({ s with core := s.core.setWorker t .woken }, none)
    else none
  | .manager first created wake => (s.managerStep first created wake).map fun s => (s, none)
  | .wait w => some ({ s with
      core := { s.core with pool := { s.core.pool with waitTime := w } } }, none)
  | .destructor wake => (s.destructorStep wake).map fun s => (s, none)

/-- A pool after its constructor. -/
def State.init (Task : Type) (minNum maxNum : Nat) : State Task where
  core :=
    { pool :=
        { task_queue := []
          threadID := fun _ => 0
          minNum := minNum
          maxNum := maxNum
          busyNum := 0
          liveNum := 0
          exitNum := 0
          waitTime := INT_MAX
          shutdown := false }
      worker := fun _ => .gone
      threads := ∅
      signals := 0 }
  manager := .top
  time := 0
  destructor := .notCalled

/-- The states that a pool reaches by steps that satisfy `ok`, with the events on the way. -/
inductive Run (ok : State Task → Action Task → Prop) (minNum maxNum : Nat) :
    State Task → List (Event Task) → Prop
  | start : Run ok minNum maxNum (.init Task minNum maxNum) []
  | step {s s' : State Task} {trace : List (Event Task)} {action : Action Task}
      {e : Option (Event Task)} (h : Run ok minNum maxNum s trace) (hok : ok s action)
      (hstep : s.step action = some (s', e)) : Run ok minNum maxNum s' (trace ++ e.toList)

/-- Takes the listed steps in order, as long as `ok` lets them. -/
def State.run (ok : State Task → Action Task → Prop) [∀ s action, Decidable (ok s action)] :
    List (Action Task) → State Task → List (Event Task) → Option (State Task × List (Event Task))
  | [], s, trace => some (s, trace)
  | action :: rest, s, trace =>
    if ok s action then
      (s.step action).bind fun e => run ok rest e.1 (trace ++ e.2.toList)
    else none

theorem Run.of_run {ok : State Task → Action Task → Prop} [∀ s action, Decidable (ok s action)]
    {minNum maxNum : Nat} {actions : List (Action Task)} {s s' : State Task}
    {trace trace' : List (Event Task)} (h : Run ok minNum maxNum s trace)
    (hrun : s.run ok actions trace = some (s', trace')) : Run ok minNum maxNum s' trace' := by
  induction actions generalizing s trace with
  | nil =>
    cases hrun
    exact h
  | cons action rest ih =>
    simp only [State.run] at hrun
    split at hrun
    · next hok =>
      obtain ⟨⟨s₁, e⟩, hstep, hrest⟩ := Option.bind_eq_some_iff.mp hrun
      exact ih (h.step hok hstep) hrest
    · cases hrun

/-- A list of steps shows that a state with the observed value `v` is reached. -/
theorem exists_run {β : Type} (ok : State Task → Action Task → Prop)
    [∀ s action, Decidable (ok s action)] (minNum maxNum : Nat) (actions : List (Action Task))
    (f : State Task → List (Event Task) → β) (v : β)
    (h : ((State.init Task minNum maxNum).run ok actions []).map (fun e => f e.1 e.2) = some v) :
    ∃ s trace, Run ok minNum maxNum s trace ∧ f s trace = v := by
  obtain ⟨⟨s, trace⟩, hrun, hv⟩ := Option.map_eq_some_iff.mp h
  exact ⟨s, trace, Run.start.of_run hrun, hv⟩

/-- The same for a condition on the steps themselves, which need not be decidable. -/
theorem exists_run_of_actions {β : Type} (ok : Action Task → Prop) (minNum maxNum : Nat)
    (actions : List (Action Task)) (hok : ∀ action ∈ actions, ok action)
    (f : State Task → List (Event Task) → β) (v : β)
    (h : ((State.init Task minNum maxNum).run (fun _ _ => True) actions []).map
      (fun e => f e.1 e.2) = some v) :
    ∃ s trace, Run (fun _ action => ok action) minNum maxNum s trace ∧ f s trace = v := by
  obtain ⟨⟨s, trace⟩, hrun, hv⟩ := Option.map_eq_some_iff.mp h
  refine ⟨s, trace, ?_, hv⟩
  have hstart : Run (fun _ action => ok action) minNum maxNum (.init Task minNum maxNum) [] := .start
  clear h hv
  generalize State.init Task minNum maxNum = s₀ at hstart hrun
  generalize ([] : List (Event Task)) = trace₀ at hstart hrun
  induction actions generalizing s₀ trace₀ with
  | nil =>
    cases hrun
    exact hstart
  | cons action rest ih =>
    simp only [State.run, if_true] at hrun
    obtain ⟨⟨s₁, e⟩, hstep, hrest⟩ := Option.bind_eq_some_iff.mp hrun
    exact ih (fun a ha => hok a (List.mem_cons_of_mem _ ha)) s₁ _
      (hstart.step (hok action List.mem_cons_self) hstep) hrest

end OJJudge.Pool
