import OJJudge.Pool.State
import OJJudge.Storage.Machine

/-! The judge with its thread pool.  A handler that accepts a submission queues the job and answers;
a worker of the pool runs the job later, next to other handlers, other jobs and the pool's own
threads. -/

namespace OJJudge.Service

open Concurrency Storage

/-! ### The handlers -/

/-- The task that an operation queues. -/
def queued? : Op → Option Runner_task
  | .push task => some task
  | _ => none

theorem queued?_eq_some {o : Op} {task : Runner_task} : queued? o = some task ↔ o = .push task := by
  cases o with
  | push task' => simp [queued?]
  | _ => simp [queued?]

theorem length_test_vec (mysql_kv : List (List String)) :
    mysql_kv.length =
      (mysql_kv.map fun cow => (cow.getD 0 "", cow.getD 1 "")).length :=
  (List.length_map _).symm

/-- The callback that gets the rows of `test_cases`, up to its return. -/
def TaskPush (conf : IsolateConf) (file_name porblem_id : String) (mysql_kv : List (List String)) :
    Code Unit :=
  if mysql_kv.length = 0 then
    effect (.set_status_code "409")
  else do
    let task : Runner_task :=
      { path := conf.waiting_judge
        file_name := file_name
        porblem_id := porblem_id
        test_num := mysql_kv.length
        test_vec := mysql_kv.map fun cow => (cow.getD 0 "", cow.getD 1 "")
        test_num_eq := length_test_vec mysql_kv }
    effect (.push task)
    effect (.set_status_code "200")

/-- A submission, from the look-up of the problem to the end of its series. -/
def runCpp (conf : IsolateConf) (user_name porblem_title : String) (body : Bytes) :
    Code Unit := do
  let sql_kv ← effect (.query (.selectProblemId porblem_title))
  if sql_kv.length > 0 then do
    let fd ← effect (.openFile (uploadPath conf user_name porblem_title))
    effect (.write fd body)
    effect (.close fd)
    effect (.set_status_code "200")
    -- The tasks of the series.
    effect (.set (judgeKey (fileName user_name porblem_title)) "0")
    let _ ← effect (.expire (judgeKey (fileName user_name porblem_title)) 40)
    effect (.set (sumKey (fileName user_name porblem_title)) "0")
    let _ ← effect (.expire (sumKey (fileName user_name porblem_title)) 40)
    let mysql_kv ← effect (.query (.selectTestCases porblem_title))
    TaskPush conf (fileName user_name porblem_title) porblem_title mysql_kv
  else
    effect (.set_status_code "409")

/-- What a handler runs for a request. -/
def handle (lib : Library) (request : Request) : Code Unit :=
  match request.handler with
  | .runCpp =>
    withParams request.req fun KVpairs =>
      session request.req fun user_name =>
        runCpp OJ_Judge user_name (KVpairs "porblem_title") request.req.body
  | _ => request.prog lib

/-! ### States -/

/-- A job of the pool, and the request that has queued it. -/
structure Job where
  request : Nat
  task : Runner_task
  deriving DecidableEq

structure State where
  /-- What is left of the handler of each request. -/
  handler : Nat → Code Unit
  /-- What is left of the job that each request has queued. -/
  job : Nat → Code Unit
  pool : Pool.State Job
  mem : Memory
  trace : List (Nat × Event effects)
  poolTrace : List (Pool.Event Job)

inductive Action
  | handler (t : Nat) (x : Choice)
  /-- Worker `w` goes on with the job that it has called. -/
  | job (w : Nat) (x : Choice)
  | pool (action : Pool.Action Job)

namespace State

variable (lib : Library) (mayFail : Op → Bool) (s : State)

/-- What `isolate_pool->push` does under `mutexPool`. -/
def queue (t : Nat) (o : Op) : State :=
  match queued? o with
  | some task =>
    { s with
      job := Function.update s.job t (cpp_runner OJ_Judge task)
      pool := { s.pool with core := s.pool.core.push ⟨t, task⟩ }
      poolTrace := s.poolTrace ++ [.pushed ⟨t, task⟩] }
  | none => s

/-- The state after a handler ran the operation `o`, with response `r` and memory `m`. -/
def afterHandler (t : Nat) (o : Op) (r : o.Res) (k : o.Res → Code Unit) (m : Memory) : State :=
  { s.queue t o with
    handler := Function.update s.handler t (k r)
    mem := m
    trace := (t, ⟨o, r⟩) :: s.trace }

/-- The state after the job of request `t` ran the operation `o`. -/
def afterJob (t : Nat) (o : Op) (r : o.Res) (k : o.Res → Code Unit) (m : Memory) : State :=
  { s with
    job := Function.update s.job t (k r)
    mem := m
    trace := (t, ⟨o, r⟩) :: s.trace }

/-- The state after an action of the pool. -/
def afterPool (pool : Pool.State Job) (e : Option (Pool.Event Job)) : State :=
  { s with pool := pool, poolTrace := s.poolTrace ++ e.toList }

/-- The pool's threads act by themselves, but for a worker whose job has not returned; the handlers
push. -/
def poolActs : Pool.Action Job → Bool
  | .push _ => false
  | .worker w _ =>
    match s.pool.core.worker w with
    | .calling job => (s.job job.request).returned
    | _ => true
  | _ => true

def step : Action → Option State
  | .handler t x =>
    match s.handler t with
    | .ret _ => none
    | .op o k => (Storage.exec lib mayFail t o x s.mem).map fun e => s.afterHandler t o e.1 k e.2
  | .job w x =>
    match s.pool.core.worker w with
    | .calling job =>
      match s.job job.request with
      | .ret _ => none
      | .op o k => (Storage.exec lib mayFail job.request o x s.mem).map fun e =>
          s.afterJob job.request o e.1 k e.2
    | _ => none
  | .pool action =>
    if s.poolActs action then (s.pool.step action).map fun e => s.afterPool e.1 e.2 else none

/-- What a step can do. -/
inductive Steps : Action → State → Prop
  | handler {t : Nat} {x : Choice} {o : Op} {k : o.Res → Code Unit} {r : o.Res} {m : Memory}
      (hp : s.handler t = .op o k) (hexec : Storage.exec lib mayFail t o x s.mem = some (r, m)) :
      Steps (.handler t x) (s.afterHandler t o r k m)
  | job {w : Nat} {x : Choice} {job : Job} {o : Op} {k : o.Res → Code Unit} {r : o.Res} {m : Memory}
      (hworker : s.pool.core.worker w = .calling job) (hp : s.job job.request = .op o k)
      (hexec : Storage.exec lib mayFail job.request o x s.mem = some (r, m)) :
      Steps (.job w x) (s.afterJob job.request o r k m)
  | pool {action : Pool.Action Job} {pool : Pool.State Job} {e : Option (Pool.Event Job)}
      (hacts : s.poolActs action = true) (hstep : s.pool.step action = some (pool, e)) :
      Steps (.pool action) (s.afterPool pool e)

variable {lib mayFail s} in
theorem step_steps {s' : State} {action : Action} (h : s.step lib mayFail action = some s') :
    s.Steps lib mayFail action s' := by
  cases action with
  | handler t x =>
    simp only [step] at h
    split at h
    · cases h
    · next o k hp =>
      obtain ⟨⟨r, m⟩, hexec, rfl⟩ := Option.map_eq_some_iff.mp h
      exact .handler hp hexec
  | job w x =>
    simp only [step] at h
    split at h
    · next job hworker =>
      split at h
      · cases h
      · next o k hp =>
        obtain ⟨⟨r, m⟩, hexec, rfl⟩ := Option.map_eq_some_iff.mp h
        exact .job hworker hp hexec
    · cases h
  | pool action =>
    simp only [step] at h
    split at h
    · next hacts =>
      obtain ⟨⟨pool, e⟩, hstep, rfl⟩ := Option.map_eq_some_iff.mp h
      exact .pool hacts hstep
    · cases h

end State

/-- Every request is about to begin, and the pool has just been made. -/
def start (lib : Library) (requests : Nat → Request) (m : Memory) (minNum maxNum : Nat) : State where
  handler t := handle lib (requests t)
  job _ := .ret ()
  pool := .init Job minNum maxNum
  mem := m
  trace := []
  poolTrace := []

/-- The states that the service reaches by steps that satisfy `ok`. -/
inductive Run (ok : State → Action → Prop) (lib : Library) (mayFail : Op → Bool) (init : State) :
    State → Prop
  | start : Run ok lib mayFail init init
  | step {s s' : State} {action : Action} (h : Run ok lib mayFail init s) (hok : ok s action)
      (hstep : s.step lib mayFail action = some s') : Run ok lib mayFail init s'

/-- Takes the listed steps in order. -/
def State.run (lib : Library) (mayFail : Op → Bool) : List Action → State → Option State
  | [], s => some s
  | action :: rest, s => (s.step lib mayFail action).bind (State.run lib mayFail rest)

theorem Run.of_run {ok : State → Action → Prop} {lib : Library} {mayFail : Op → Bool}
    {init s s' : State} {actions : List Action} (h : Run ok lib mayFail init s)
    (hok : ∀ s, ∀ action ∈ actions, ok s action) (hrun : s.run lib mayFail actions = some s') :
    Run ok lib mayFail init s' := by
  induction actions generalizing s with
  | nil =>
    cases hrun
    exact h
  | cons action rest ih =>
    obtain ⟨s₁, hstep, hrest⟩ := Option.bind_eq_some_iff.mp hrun
    exact ih (h.step (hok s action List.mem_cons_self) hstep)
      (fun s a ha => hok s a (List.mem_cons_of_mem _ ha)) hrest

/-- A list of steps shows that a state with the observed value `v` is reached. -/
theorem exists_run {β : Type} (ok : State → Action → Prop) (lib : Library) (mayFail : Op → Bool)
    (init : State) (actions : List Action) (hok : ∀ s, ∀ action ∈ actions, ok s action)
    (f : State → β) (v : β) (h : (init.run lib mayFail actions).map f = some v) :
    ∃ s, Run ok lib mayFail init s ∧ f s = v := by
  obtain ⟨s, hrun, hv⟩ := Option.map_eq_some_iff.mp h
  exact ⟨s, Run.start.of_run hok hrun, hv⟩

end OJJudge.Service
