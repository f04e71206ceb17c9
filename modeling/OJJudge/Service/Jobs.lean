import OJJudge.Pool.Slots
import OJJudge.Pool.Tasks
import OJJudge.Service.Refinement

/-! The jobs of the service.  Every submission queues at most one job, and the job is in the queue, in
the hands of one worker, or done: it runs once, from its beginning to its end. -/

namespace OJJudge.Service

open Concurrency Storage

/-! ### The pool of the service -/

section Pool

variable {lib : Library} {mayFail : Op → Bool} {requests : Nat → Request} {m : Memory}
  {minNum maxNum : Nat} {ok : State → Action → Prop} {s : State}

/-- The pool of a run of the service runs as a pool does. -/
theorem Run.pool (h : Run ok lib mayFail (Service.start lib requests m minNum maxNum) s)
    (okPool : Pool.State Job → Pool.Action Job → Prop)
    (hpush : ∀ pool job, okPool pool (.push job))
    (hok : ∀ s action, ok s (.pool action) → okPool s.pool action) :
    Pool.Run okPool minNum maxNum s.pool s.poolTrace := by
  induction h with
  | start => exact .start
  | @step s s' action _ hact hstep ih =>
    cases State.step_steps hstep with
    | @handler t x o k r m hp hexec =>
      show Pool.Run okPool minNum maxNum (s.queue t o).pool (s.queue t o).poolTrace
      unfold State.queue
      split
      · next task _ => exact ih.step (hpush _ ⟨t, task⟩) rfl
      · exact ih
    | job hworker hp hexec => exact ih
    | pool hacts hpool => exact ih.step (hok _ _ hact) hpool

theorem Run.custody (h : Run ok lib mayFail (Service.start lib requests m minNum maxNum) s) :
    Pool.Custody s.pool.core s.poolTrace :=
  Pool.Run.custody (h.pool (fun _ _ => True) (fun _ _ => trivial) fun _ _ _ => trivial)

end Pool

/-! ### Where a job is -/

section Places

variable {c : Pool.Core Job} {poolTrace : List (Pool.Event Job)} {job job' : Job} {w w' : Nat}

/-- Every request has queued at most one job. -/
def OneJobEach (poolTrace : List (Pool.Event Job)) : Prop :=
  ((Pool.pushes poolTrace).map (·.request)).Nodup

theorem OneJobEach.inj (h : OneJobEach poolTrace) (hjob : job ∈ Pool.pushes poolTrace)
    (hjob' : job' ∈ Pool.pushes poolTrace) (hrequest : job.request = job'.request) : job = job' :=
  List.inj_on_of_nodup_map h hjob hjob' hrequest

variable (hcustody : Pool.Custody c poolTrace)
include hcustody

theorem pushes_eq : (Pool.pushes poolTrace : Multiset Job) =
    c.held + Pool.returns poolTrace + c.pool.task_queue := by
  rw [hcustody.order, ← Multiset.coe_add, hcustody.popped]

theorem calls_le_pushes : (Pool.calls poolTrace : Multiset Job) ≤ Pool.pushes poolTrace := by
  rw [pushes_eq hcustody, hcustody.called]
  exact (add_le_add_left c.running_le_held _).trans (Multiset.le_add_right _ _)

theorem mem_pushes_of_returns (hjob : job ∈ Pool.returns poolTrace) :
    job ∈ Pool.pushes poolTrace := by
  rw [← Multiset.mem_coe, pushes_eq hcustody]
  simp [hjob]

theorem held_le (w : Nat) : (c.worker w).held ≤ c.held := by
  by_cases hw : w ∈ c.threads
  · exact le_total hw
  · cases hexists : (c.worker w).exists? with
    | true => exact absurd (hcustody.threads w hexists) hw
    | false =>
      rw [Pool.eq_gone hexists]
      exact Multiset.zero_le _

theorem calling_mem (hworker : c.worker w = .calling job) : job ∈ c.running := by
  have hw := hcustody.threads w (by rw [hworker]; rfl)
  refine Multiset.mem_of_le (le_total hw) ?_
  rw [hworker]
  exact Multiset.mem_singleton_self job

/-- A job that a worker runs has been called and has not returned. -/
theorem calling_places (hone : OneJobEach poolTrace) (hworker : c.worker w = .calling job) :
    job ∈ Pool.pushes poolTrace ∧ job ∈ Pool.calls poolTrace ∧ job ∉ Pool.returns poolTrace := by
  have hrunning := calling_mem hcustody hworker
  have hcalls : job ∈ Pool.calls poolTrace := by
    rw [← Multiset.mem_coe, hcustody.called]
    exact Multiset.mem_add.mpr (.inl hrunning)
  have hle := calls_le_pushes hcustody
  refine ⟨Multiset.mem_of_le hle hcalls, hcalls, fun hreturned => ?_⟩
  -- Called twice and pushed once.
  have hcount := Multiset.count_le_of_le job hle
  rw [hcustody.called, Multiset.count_add] at hcount
  have honce : Multiset.count job (Pool.pushes poolTrace : Multiset Job) ≤ 1 :=
    Multiset.nodup_iff_count_le_one.mp (Multiset.coe_nodup.mpr (List.Nodup.of_map _ hone)) job
  have hpos := Multiset.count_pos.mpr hrunning
  have hpos' := Multiset.count_pos.mpr (Multiset.mem_coe.mpr hreturned)
  omega

/-- Only a created thread holds a job. -/
theorem mem_threads_of_held (hmem : job ∈ (c.worker w).held) : w ∈ c.threads := by
  refine hcustody.threads w ?_
  cases hworker : c.worker w with
  | gone =>
    rw [hworker] at hmem
    exact absurd hmem (Multiset.notMem_zero job)
  | _ => rfl

/-- What is held once is held by one worker. -/
theorem holder_unique (hcount : Multiset.count job c.held ≤ 1) (hw : job ∈ (c.worker w).held)
    (hw' : job ∈ (c.worker w').held) : w = w' := by
  by_contra hne
  have hboth : (c.worker w).held + (c.worker w').held ≤ c.held :=
    add_le_total hne (mem_threads_of_held hcustody hw) (mem_threads_of_held hcustody hw')
  have hle := Multiset.count_le_of_le job hboth
  rw [Multiset.count_add] at hle
  have hpos := Multiset.count_pos.mpr hw
  have hpos' := Multiset.count_pos.mpr hw'
  omega

/-- A job is in one place: in the queue, with one worker, or done. -/
theorem places (hone : OneJobEach poolTrace) (hjob : job ∈ Pool.pushes poolTrace) :
    (job ∈ c.pool.task_queue ∧ (∀ w, job ∉ (c.worker w).held) ∧ job ∉ Pool.returns poolTrace) ∨
    (job ∉ c.pool.task_queue ∧ (∃! w, job ∈ (c.worker w).held) ∧ job ∉ Pool.returns poolTrace) ∨
    (job ∉ c.pool.task_queue ∧ (∀ w, job ∉ (c.worker w).held) ∧ job ∈ Pool.returns poolTrace) := by
  have honce : Multiset.count job (Pool.pushes poolTrace : Multiset Job) = 1 :=
    Multiset.count_eq_one_of_mem (Multiset.coe_nodup.mpr (List.Nodup.of_map _ hone)) hjob
  rw [pushes_eq hcustody, Multiset.count_add, Multiset.count_add] at honce
  have hzero : ∀ {l : List Job}, Multiset.count job (l : Multiset Job) = 0 → job ∉ l := by
    intro l hl
    rwa [Multiset.count_eq_zero, Multiset.mem_coe] at hl
  have hone : ∀ {l : List Job}, Multiset.count job (l : Multiset Job) = 1 → job ∈ l := by
    intro l hl
    rw [← Multiset.mem_coe, ← Multiset.count_pos, hl]
    exact Nat.one_pos
  have hnone : Multiset.count job c.held = 0 → ∀ w, job ∉ (c.worker w).held := fun hheld w hmem =>
    Multiset.count_eq_zero.mp hheld (Multiset.mem_of_le (held_le hcustody w) hmem)
  have hcases : (Multiset.count job (c.pool.task_queue : Multiset Job) = 1 ∧
        Multiset.count job c.held = 0 ∧
        Multiset.count job (Pool.returns poolTrace : Multiset Job) = 0) ∨
      (Multiset.count job (c.pool.task_queue : Multiset Job) = 0 ∧ Multiset.count job c.held = 1 ∧
        Multiset.count job (Pool.returns poolTrace : Multiset Job) = 0) ∨
      (Multiset.count job (c.pool.task_queue : Multiset Job) = 0 ∧ Multiset.count job c.held = 0 ∧
        Multiset.count job (Pool.returns poolTrace : Multiset Job) = 1) := by
    omega
  obtain ⟨hqueue, hheld, hreturns⟩ | ⟨hqueue, hheld, hreturns⟩ | ⟨hqueue, hheld, hreturns⟩ := hcases
  · exact .inl ⟨hone hqueue, hnone hheld, hzero hreturns⟩
  · refine .inr (.inl ⟨hzero hqueue, ?_, hzero hreturns⟩)
    have hmem : job ∈ c.held := by
      rw [← Multiset.count_pos, hheld]
      exact Nat.one_pos
    obtain ⟨w, -, hw⟩ := Multiset.mem_sum.mp hmem
    exact ⟨w, hw, fun w' hw' => holder_unique hcustody hheld.le hw' hw⟩
  · exact .inr (.inr ⟨hzero hqueue, hnone hheld, hone hreturns⟩)

end Places

/-! ### The code of a job -/

/-- The code of a job is whole until it is called, and finished when it has returned. -/
structure Books (s : State) : Prop where
  accepted : ∀ t task, (t, ⟨.push task, ()⟩) ∈ s.trace ↔ ⟨t, task⟩ ∈ Pool.pushes s.poolTrace
  one : OneJobEach s.poolTrace
  whole : ∀ job ∈ Pool.pushes s.poolTrace, job ∉ Pool.calls s.poolTrace →
    s.job job.request = cpp_runner OJ_Judge job.task
  finished : ∀ job ∈ Pool.returns s.poolTrace, (s.job job.request).returned = true
  quiet : ∀ t, (s.job t).Only fun o => queued? o = none

section Steps

variable {lib : Library} {mayFail : Op → Bool} {s : State} {t w : Nat} {x : Choice} {o : Op}
  {k : o.Res → Code Unit} {r : o.Res} {m : Memory} {job : Job}

theorem Books.request_ne (h : Books s) (hbefore : hasQueued s.trace t = false)
    (hjob : job ∈ Pool.pushes s.poolTrace) : job.request ≠ t := by
  rintro rfl
  have hpush := mem_own.mpr ((h.accepted job.request job.task).mpr hjob)
  rw [hasQueued, List.any_eq_false] at hbefore
  exact hbefore _ hpush rfl

theorem mem_trace_cons_plain {u : Nat} {task : Runner_task} (ho : queued? o = none) :
    (u, (⟨.push task, ()⟩ : Event effects)) ∈ (t, ⟨o, r⟩) :: s.trace ↔
      (u, (⟨.push task, ()⟩ : Event effects)) ∈ s.trace := by
  rw [List.mem_cons, or_iff_right]
  intro heq
  cases heq
  cases ho

/-- A step of a handler that queues nothing. -/
theorem Books.handler_plain (h : Books s) (ho : queued? o = none) :
    Books (s.afterHandler t o r k m) := by
  have hsame : s.queue t o = s := by rw [State.queue, ho]
  unfold State.afterHandler
  rw [hsame]
  exact ⟨fun u task => (mem_trace_cons_plain ho).trans (h.accepted u task), h.one, h.whole,
    h.finished, h.quiet⟩

/-- A handler queues its job. -/
theorem Books.handler_push {task : Runner_task} (h : Books s)
    (hcustody : Pool.Custody s.pool.core s.poolTrace) (hbefore : hasQueued s.trace t = false)
    (ho : queued? o = some task) : Books (s.afterHandler t o r k m) := by
  have hother : ∀ job ∈ Pool.pushes s.poolTrace, job.request ≠ t := fun _ => h.request_ne hbefore
  have hqueue : s.queue t o = { s with
      job := Function.update s.job t (cpp_runner OJ_Judge task)
      pool := { s.pool with core := s.pool.core.push ⟨t, task⟩ }
      poolTrace := s.poolTrace ++ [.pushed ⟨t, task⟩] } := by
    rw [State.queue, ho]
  obtain rfl := queued?_eq_some.mp ho
  have hpushes : Pool.pushes (s.poolTrace ++ [.pushed ⟨t, task⟩]) =
      Pool.pushes s.poolTrace ++ [⟨t, task⟩] := by
    simp [Pool.pushes]
  have hcalls : Pool.calls (s.poolTrace ++ [.pushed ⟨t, task⟩]) = Pool.calls s.poolTrace := by
    simp [Pool.calls]
  have hreturns : Pool.returns (s.poolTrace ++ [.pushed ⟨t, task⟩]) = Pool.returns s.poolTrace := by
    simp [Pool.returns]
  unfold State.afterHandler
  rw [hqueue]
  refine ⟨fun u task' => ?_, ?_, fun job hjob hcalled => ?_, fun job hjob => ?_, fun u => ?_⟩
  · dsimp only
    rw [hpushes, List.mem_cons, List.mem_append, List.mem_singleton, ← h.accepted u task', or_comm]
    simp
  · rw [OneJobEach, hpushes, List.map_append, List.nodup_append]
    refine ⟨h.one, List.nodup_singleton t, ?_⟩
    rintro _ hold _ hnew
    obtain ⟨job, hjob, rfl⟩ := List.mem_map.mp hold
    rw [List.mem_singleton.mp hnew]
    exact hother job hjob
  · dsimp only at hjob hcalled ⊢
    rw [hpushes] at hjob
    rw [hcalls] at hcalled
    obtain hjob | hjob := List.mem_append.mp hjob
    · rw [Function.update_of_ne (hother job hjob)]
      exact h.whole job hjob hcalled
    · rw [List.mem_singleton.mp hjob]
      exact Function.update_self ..
  · dsimp only at hjob ⊢
    rw [hreturns] at hjob
    rw [Function.update_of_ne (hother job (mem_pushes_of_returns hcustody hjob))]
    exact h.finished job hjob
  · dsimp only
    by_cases hu : u = t
    · subst hu
      rw [Function.update_self]
      refine (cpp_runner_only OJ_Judge task).mono fun o ho => ?_
      cases ho <;> rfl
    · rw [Function.update_of_ne hu]
      exact h.quiet u

/-- A step of a job that a worker has called. -/
theorem Books.job_step (h : Books s) (hcustody : Pool.Custody s.pool.core s.poolTrace)
    (hworker : s.pool.core.worker w = .calling job) (hp : s.job job.request = .op o k) :
    Books (s.afterJob job.request o r k m) := by
  obtain ⟨hpushed, hcalled, hreturned⟩ := calling_places hcustody h.one hworker
  have honly := h.quiet job.request
  rw [hp] at honly
  refine ⟨fun u task => (mem_trace_cons_plain honly.1).trans (h.accepted u task), h.one,
    fun job' hjob' hcalled' => ?_, fun job' hjob' => ?_, fun u => ?_⟩
  · have hne : job'.request ≠ job.request := fun heq =>
      hcalled' (h.one.inj hjob' hpushed heq ▸ hcalled)
    exact (Function.update_of_ne hne _ _).trans (h.whole job' hjob' hcalled')
  · have hne : job'.request ≠ job.request := fun heq =>
      hreturned (h.one.inj (mem_pushes_of_returns hcustody hjob') hpushed heq ▸ hjob')
    show (Function.update s.job job.request (k r) job'.request).returned = true
    rw [Function.update_of_ne hne]
    exact h.finished job' hjob'
  · show (Function.update s.job job.request (k r) u).Only _
    by_cases hu : u = job.request
    · subst hu
      rw [Function.update_self]
      exact honly.2 r
    · rw [Function.update_of_ne hu]
      exact h.quiet u

/-- The events of the pool's own actions. -/
theorem poolActs_event {action : Pool.Action Job} {pool : Pool.State Job}
    {e : Option (Pool.Event Job)} (hacts : s.poolActs action = true)
    (hstep : s.pool.step action = some (pool, e)) :
    Pool.pushes e.toList = [] ∧
      ∀ job ∈ Pool.returns e.toList, (s.job job.request).returned = true := by
  cases Pool.State.step_steps hstep with
  | push task => cases hacts
  | @worker w wake core e h =>
    cases Pool.Core.workerStep_step h with
    | @finish job hworker =>
      refine ⟨rfl, fun job' hjob' => ?_⟩
      rw [State.poolActs, hworker] at hacts
      obtain rfl : job' = job := by simpa [Pool.returns] using hjob'
      exact hacts
    | _ => exact ⟨rfl, fun _ hjob => absurd hjob List.not_mem_nil⟩
  | _ => exact ⟨rfl, fun _ hjob => absurd hjob List.not_mem_nil⟩

/-- An action of the pool. -/
theorem Books.pool_step {action : Pool.Action Job} {pool : Pool.State Job}
    {e : Option (Pool.Event Job)} (h : Books s) (hacts : s.poolActs action = true)
    (hstep : s.pool.step action = some (pool, e)) : Books (s.afterPool pool e) := by
  obtain ⟨hpush, hreturn⟩ := poolActs_event hacts hstep
  have hpushes : Pool.pushes (s.poolTrace ++ e.toList) = Pool.pushes s.poolTrace := by
    rw [Pool.pushes, List.filterMap_append]
    exact (congrArg (Pool.pushes s.poolTrace ++ ·) hpush).trans (List.append_nil _)
  refine ⟨fun u task => ?_, ?_, fun job hjob hcalled => ?_, fun job hjob => ?_, h.quiet⟩
  · rw [State.afterPool, hpushes]
    exact h.accepted u task
  · rw [OneJobEach, State.afterPool, hpushes]
    exact h.one
  · refine h.whole job (hpushes ▸ hjob) fun hold => hcalled ?_
    simp only [State.afterPool, Pool.calls, List.filterMap_append, List.mem_append]
    exact .inl hold
  · simp only [State.afterPool, Pool.returns, List.filterMap_append, List.mem_append] at hjob
    obtain hold | hnew := hjob
    · exact h.finished job hold
    · exact hreturn job hnew

/-- The step lemma. -/
theorem Books.step {s' : State} {action : Action} {d : Config (Storage.machine lib mayFail)}
    (h : Books s) (hcustody : Pool.Custody s.pool.core s.poolTrace) (hrefines : Refines s d)
    (hstep : s.step lib mayFail action = some s') : Books s' := by
  cases State.step_steps hstep with
  | @handler t x o k r m hp hexec =>
    cases ho : queued? o with
    | none => exact h.handler_plain ho
    | some task =>
      refine h.handler_push hcustody ?_ ho
      obtain rfl := queued?_eq_some.mp ho
      by_contra hqueued
      obtain ⟨-, honly⟩ := (hrefines.mirrors t).behind (by simpa using hqueued)
      rw [hp] at honly
      exact honly.1
  | job hworker hp hexec => exact h.job_step hcustody hworker hp
  | pool hacts hpool => exact h.pool_step hacts hpool

end Steps

section Runs

variable {lib : Library} {mayFail : Op → Bool} {requests : Nat → Request} {m : Memory}
  {minNum maxNum : Nat} {ok : State → Action → Prop} {s : State}

/-- The run lemma. -/
theorem Run.books (h : Run ok lib mayFail (Service.start lib requests m minNum maxNum) s) :
    Books s := by
  induction h with
  | start => exact ⟨by simp [Service.start, Pool.pushes], List.nodup_nil, by simp [Service.start,
      Pool.pushes], by simp [Service.start, Pool.returns], fun _ => trivial⟩
  | step hr _ hstep ih =>
    obtain ⟨d, -, hrefines⟩ := hr.refines
    exact ih.step hr.custody hrefines hstep

/-- Every accepted submission is judged once: a request queues at most one job, and the job is in the
queue and whole, with exactly one worker, or done with its code finished. -/
theorem each_job_runs_once (h : Run ok lib mayFail (start lib requests m minNum maxNum) s) :
    ((Pool.pushes s.poolTrace).map (·.request)).Nodup ∧
      ∀ t task, (t, ⟨.push task, ()⟩) ∈ s.trace →
        (⟨t, task⟩ ∈ s.pool.core.pool.task_queue ∧ (∀ w, ⟨t, task⟩ ∉ (s.pool.core.worker w).held) ∧
          s.job t = cpp_runner OJ_Judge task) ∨
        (⟨t, task⟩ ∉ s.pool.core.pool.task_queue ∧
          (∃! w, ⟨t, task⟩ ∈ (s.pool.core.worker w).held) ∧
          (⟨t, task⟩ ∉ Pool.calls s.poolTrace → s.job t = cpp_runner OJ_Judge task)) ∨
        (⟨t, task⟩ ∉ s.pool.core.pool.task_queue ∧ (∀ w, ⟨t, task⟩ ∉ (s.pool.core.worker w).held) ∧
          (s.job t).returned = true) := by
  have hbooks := h.books
  refine ⟨hbooks.one, fun t task hpush => ?_⟩
  have hjob := (hbooks.accepted t task).mp hpush
  obtain ⟨hqueue, hheld, hreturns⟩ | ⟨hqueue, hheld, -⟩ | ⟨hqueue, hheld, hreturns⟩ :=
    places h.custody hbooks.one hjob
  · refine .inl ⟨hqueue, hheld, hbooks.whole _ hjob fun hcalled => ?_⟩
    -- A called job is in a worker's hands or has returned.
    rw [← Multiset.mem_coe, h.custody.called, Multiset.mem_add, Multiset.mem_coe] at hcalled
    obtain hrunning | hreturned := hcalled
    · obtain ⟨w, -, hw⟩ := Multiset.mem_sum.mp
        (Multiset.mem_of_le s.pool.core.running_le_held hrunning)
      exact hheld w hw
    · exact hreturns hreturned
  · exact .inr (.inl ⟨hqueue, hheld, hbooks.whole _ hjob⟩)
  · exact .inr (.inr ⟨hqueue, hheld, hbooks.finished _ hreturns⟩)

end Runs

theorem each_job_runs_once_jobBeforeAnswer :
    ∃ s, Run (fun _ _ => True) .sample anyFault
        (start .sample Server.submissions Server.Memory.oneProblem 2 5) s ∧
      (Pool.pushes s.poolTrace).map (·.request) = [0] ∧
      ((Pool.pushes s.poolTrace).map (·.request)).Nodup := by
  obtain ⟨s, hs, hv⟩ := exists_run (fun _ _ => True) .sample anyFault
    (start .sample Server.submissions Server.Memory.oneProblem 2 5) jobBeforeAnswer
    (fun _ _ _ => trivial) (fun s => (Pool.pushes s.poolTrace).map (·.request)) [0]
    (by decide +kernel)
  exact ⟨s, hs, hv, (each_job_runs_once hs).1⟩

end OJJudge.Service
