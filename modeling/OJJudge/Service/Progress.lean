import OJJudge.Pool.Supply
import OJJudge.Service.Jobs

/-! No submission is stranded: as long as the process lives and its pool is in service, all handlers
can answer and all jobs can be run to their ends, whatever storage operations have failed before.  A job
that waits for the sandbox waits for one that a worker has called, and every queued job can come to a
worker, as the pool can create its threads. -/

namespace OJJudge.Service

open Concurrency Storage Sandbox Server

/-- The actions of a service whose pool stays in service. -/
def Serves : Action → Prop
  | .pool action => Pool.Serves action
  | _ => True

/-- The runs of a service whose process lives, where every `pthread_create` succeeds and nobody waits
for the pool or destroys it. -/
abbrev Served (lib : Library) (fatal : Nat → Event effects → Prop) : State → State → Prop :=
  Run (fun s action => Lives fatal s.trace ∧ Serves action) lib anyFault

section Continue

variable {ok ok' : State → Action → Prop} {lib : Library} {mayFail : Op → Bool} {init s s' : State}

theorem Run.weaken (h : Run ok lib mayFail init s)
    (hok : ∀ s action, Run ok lib mayFail init s → ok s action → ok' s action) :
    Run ok' lib mayFail init s := by
  induction h with
  | start => exact .start
  | step hr hact hstep ih => exact ih.step (hok _ _ hr hact) hstep

theorem Run.trans (h : Run ok lib mayFail init s) (h' : Run ok lib mayFail s s') :
    Run ok lib mayFail init s' := by
  induction h' with
  | start => exact h
  | step _ hok hstep ih => exact ih.step hok hstep

/-- The first step of a run. -/
theorem Run.head {s₁ : State} {action : Action} (hok : ok s action)
    (hstep : s.step lib mayFail action = some s₁) (h : Run ok lib mayFail s₁ s') :
    Run ok lib mayFail s s' := by
  have hfirst : Run ok lib mayFail s s₁ := Run.start.step hok hstep
  exact hfirst.trans h

end Continue

/-- The service can be led to a state with `P` while the handlers outside `ts` stand still, or a
request of `ts` or one with a job ends the process on the way. -/
def CanReach (lib : Library) (fatal : Nat → Event effects → Prop) (ts : List Nat) (s : State)
    (P : State → Prop) : Prop :=
  ∃ s', Served lib fatal s s' ∧ (∀ u, u ∉ ts → s'.handler u = s.handler u) ∧
    ((∃ t, (t ∈ ts ∨ hasQueued s'.trace t = true) ∧ EndsWith fatal t s'.trace) ∨
      (Lives fatal s'.trace ∧ P s'))

namespace CanReach

variable {lib : Library} {fatal : Nat → Event effects → Prop} {ts ts' : List Nat} {s : State}
  {P Q : State → Prop}

theorem here (hlives : Lives fatal s.trace) (h : P s) : CanReach lib fatal ts s P :=
  ⟨s, .start, fun _ _ => rfl, .inr ⟨hlives, h⟩⟩

/-- What comes first leaves the handlers outside `ts` alone. -/
theorem after {s₁ : State} (hrun : Served lib fatal s s₁)
    (hhandler : ∀ u, u ∉ ts → s₁.handler u = s.handler u) (h : CanReach lib fatal ts s₁ P) :
    CanReach lib fatal ts s P := by
  obtain ⟨s', hrun', hother, hdone⟩ := h
  exact ⟨s', hrun.trans hrun', fun u hu => (hother u hu).trans (hhandler u hu), hdone⟩

theorem mono (h : CanReach lib fatal ts s P) (hts : ts ⊆ ts') (hP : ∀ s', P s' → Q s') :
    CanReach lib fatal ts' s Q := by
  obtain ⟨s', hrun, hother, ⟨t, ht, hend⟩ | ⟨hlives, hs'⟩⟩ := h
  · exact ⟨s', hrun, fun u hu => hother u (mt (@hts u) hu), .inl ⟨t, ht.imp_left (@hts t), hend⟩⟩
  · exact ⟨s', hrun, fun u hu => hother u (mt (@hts u) hu), .inr ⟨hlives, hP s' hs'⟩⟩

/-- The run has been one of the service, and the other handlers have stood still. -/
theorem frame (h : CanReach lib fatal ts s P) :
    CanReach lib fatal ts s fun s' =>
      P s' ∧ Served lib fatal s s' ∧ ∀ u, u ∉ ts → s'.handler u = s.handler u := by
  obtain ⟨s', hrun, hother, hend | ⟨hlives, hs'⟩⟩ := h
  · exact ⟨s', hrun, hother, .inl hend⟩
  · exact ⟨s', hrun, hother, .inr ⟨hlives, hs', hrun, hother⟩⟩

/-- The rule for sequencing. -/
theorem bind (h : CanReach lib fatal ts s P)
    (hQ : ∀ s', Served lib fatal s s' → Lives fatal s'.trace → P s' → CanReach lib fatal ts s' Q) :
    CanReach lib fatal ts s Q := by
  obtain ⟨s₁, hrun₁, hother₁, hend | ⟨hlives, hs₁⟩⟩ := h
  · exact ⟨s₁, hrun₁, hother₁, .inl hend⟩
  · exact (hQ s₁ hrun₁ hlives hs₁).after hrun₁ hother₁

end CanReach

/-! ### What holds of every run -/

section Invariants

variable {lib : Library} {fatal : Nat → Event effects → Prop} {requests : Nat → Request} {m : Memory}
  {minNum maxNum : Nat} {s : State} {ok : State → Action → Prop} {t : Nat}

theorem handle_plain (lib : Library) (request : Request) :
    (handle lib request).Only fun o => kind o = .plain := by
  unfold handle
  split
  · refine withParams_only fun _ _ => session_only (fun _ => rfl) rfl fun user_name => ?_
    simp only [runCpp, TaskPush, effect_eq, Prog.op_bind, Prog.ret_bind]
    refine ⟨rfl, fun sql_kv => ?_⟩
    dsimp only
    split
    · iterate 9 refine ⟨rfl, fun _ => ?_⟩
      dsimp only
      split
      · exact ⟨rfl, fun _ => trivial⟩
      · exact ⟨rfl, fun _ => ⟨rfl, fun _ => trivial⟩⟩
    · exact ⟨rfl, fun _ => trivial⟩
  · next h => exact (Server.request_foreground lib h).mono fun _ => Server.Foreground.plain

/-- The handlers leave the sandbox mutex alone. -/
theorem Run.handler_plain
    (h : Run ok lib anyFault (Service.start lib requests m minNum maxNum) s) (t : Nat) :
    (s.handler t).Only fun o => kind o = .plain := by
  induction h with
  | start => exact handle_plain lib (requests t)
  | step _ _ hstep ih =>
    cases State.step_steps hstep with
    | @handler u x o k r m hp hexec =>
      by_cases hu : t = u
      · subst hu
        rw [hp] at ih
        simpa [State.afterHandler] using ih.2 r
      · simpa [State.afterHandler, hu] using ih
    | job hworker hp hexec => exact ih
    | pool hacts hpool => exact ih

theorem Run.serving (h : Served lib fatal (Service.start lib requests m minNum maxNum) s)
    (hmax : 1 ≤ maxNum) : Pool.Serving s.pool :=
  have hpool := h.pool (fun _ action => Pool.Serves action) (fun _ _ => trivial)
    fun _ _ hserves => hserves.2
  hpool.serving hmax

/-- A job that has been queued goes on as its part in the mutex asks it to. -/
theorem Run.job_pairs (hlock : m.lock = none)
    (h : Run ok lib anyFault (Service.start lib requests m minNum maxNum) s)
    (hqueued : hasQueued s.trace t = true) :
    (s.job t).Pairs kind (decide (s.mem.lock = some t)) := by
  obtain ⟨d, hd, hrefines⟩ := h.refines
  have hpairs := Server.disciplined Server.locks_anyFault hlock hd t
  rwa [((hrefines.mirrors t).behind hqueued).1, hrefines.mem] at hpairs

theorem Run.queued_of_calling {w : Nat} {job : Job}
    (h : Run ok lib anyFault (Service.start lib requests m minNum maxNum) s)
    (hworker : s.pool.core.worker w = .calling job) : hasQueued s.trace job.request = true := by
  have hbooks := h.books
  have hpushed := (calling_places h.custody hbooks.one hworker).1
  have hpush := mem_own.mpr ((hbooks.accepted job.request job.task).mpr hpushed)
  exact List.any_eq_true.mpr ⟨_, hpush, rfl⟩

/-- A job that has returned does not hold the mutex. -/
theorem Run.not_holds (hlock : m.lock = none)
    (h : Run ok lib anyFault (Service.start lib requests m minNum maxNum) s)
    (hqueued : hasQueued s.trace t = true) (hreturned : (s.job t).returned = true) :
    s.mem.lock ≠ some t := by
  have hpairs := h.job_pairs hlock hqueued
  cases hjob : s.job t with
  | ret a =>
    rw [hjob] at hpairs
    exact of_decide_eq_false hpairs
  | op o k =>
    rw [hjob] at hreturned
    cases hreturned

/-- The job that holds the sandbox mutex is one that a worker has called. -/
theorem Run.holder (hlock : m.lock = none)
    (h : Run ok lib anyFault (Service.start lib requests m minNum maxNum) s)
    (hheld : s.mem.lock = some t) : ∃ w task, s.pool.core.worker w = .calling ⟨t, task⟩ := by
  induction h with
  | start =>
    rw [show (Service.start lib requests m minNum maxNum).mem.lock = none from hlock] at hheld
    cases hheld
  | @step s s' action hrun _ hstep ih =>
    cases State.step_steps hstep with
    | @handler u x o k r m' hp hexec =>
      have hplain := hrun.handler_plain u
      rw [hp] at hplain
      have hsame : m'.lock = s.mem.lock := Server.lock_of_exec hplain.1 hexec
      obtain ⟨w, task, hworker⟩ := ih (hsame ▸ hheld)
      refine ⟨w, task, ?_⟩
      show (s.queue u o).pool.core.worker w = .calling ⟨t, task⟩
      unfold State.queue
      split
      · exact hworker
      · exact hworker
    | @job w x job o k r m' hworker hp hexec =>
      cases ho : kind o with
      | acquire =>
        have hholder : m'.lock = some job.request :=
          ((Server.mutex lib Server.locks_anyFault).acquire ho hexec).2
        obtain rfl : job.request = t := Option.some_inj.mp (hholder.symm.trans hheld)
        exact ⟨w, job.task, hworker⟩
      | release =>
        have hfree : m'.lock = none := (Server.mutex lib Server.locks_anyFault).release ho hexec
        rw [show m'.lock = some t from hheld] at hfree
        cases hfree
      | plain => exact ih ((Server.lock_of_exec ho hexec).symm.trans hheld)
    | @pool action pool e hacts hpool =>
      obtain ⟨w, task, hworker⟩ := ih hheld
      refine ⟨w, task, (Pool.State.step_core hpool).calling hworker ?_⟩
      -- The worker cannot leave the call before the job has returned.
      rintro wake rfl
      rw [State.poolActs, hworker] at hacts
      exact hrun.not_holds hlock (hrun.queued_of_calling hworker) hacts hheld

end Invariants

/-! ### Handlers -/

section Handlers

variable {lib : Library} {fatal : Nat → Event effects → Prop} {s : State} {t : Nat}

/-- A handler can answer while everything else stands still. -/
theorem can_answer (lib : Library) (hlives : Lives fatal s.trace)
    (hplain : (s.handler t).Only fun o => kind o = .plain) :
    CanReach lib fatal [t] s fun s' => (s'.handler t).returned = true := by
  generalize hp : s.handler t = p at hplain
  induction p generalizing s with
  | ret a => exact .here hlives (by rw [hp, Prog.returned_ret])
  | op o k ih =>
    obtain ⟨ho, hnext⟩ := hplain
    obtain ⟨r, m, hexec⟩ : ∃ r m, Storage.exec lib anyFault t o .quiet s.mem = some (r, m) :=
      Server.exec_ready fun hacquire => by
        rw [ho] at hacquire
        cases hacquire
    have hstep : s.step lib anyFault (.handler t .quiet) = some (s.afterHandler t o r k m) := by
      simp only [State.step, hp, hexec, Option.map_some]
    have hserves : Serves (.handler t .quiet) := trivial
    have hrun : Served lib fatal s (s.afterHandler t o r k m) :=
      Run.start.step ⟨hlives, hserves⟩ hstep
    have hothers : ∀ u, u ∉ [t] → (s.afterHandler t o r k m).handler u = s.handler u := by
      intro u hu
      simp only [List.mem_singleton] at hu
      simp [State.afterHandler, hu]
    by_cases hfatal : fatal t ⟨o, r⟩
    · exact ⟨_, hrun, hothers, .inl ⟨t, .inl List.mem_cons_self, ⟨o, r⟩, s.trace, rfl, hfatal⟩⟩
    · have hrest := ih r (s := s.afterHandler t o r k m) (hlives.cons hfatal)
        (by simp [State.afterHandler]) (hnext r)
      exact hrest.after hrun hothers

variable {requests : Nat → Request} {m : Memory} {minNum maxNum : Nat}

theorem Run.can_answer_all (h : Served lib fatal (Service.start lib requests m minNum maxNum) s)
    (hlives : Lives fatal s.trace) (ts : List Nat) :
    CanReach lib fatal ts s fun s' => ∀ t ∈ ts, (s'.handler t).returned = true := by
  induction ts with
  | nil => exact .here hlives (by simp)
  | cons t ts ih =>
    refine (ih.mono (List.subset_cons_self t ts) fun _ => id).bind fun s₁ hrun₁ hlives₁ hreturned₁ => ?_
    have hanswer := (can_answer lib hlives₁ ((h.trans hrun₁).handler_plain t)).frame
    refine hanswer.mono (List.cons_subset_cons t (List.nil_subset ts)) ?_
    rintro s' ⟨hreturned', -, hother⟩ u hu
    by_cases hut : u = t
    · rw [hut]
      exact hreturned'
    · rw [hother u (by simpa using hut)]
      exact hreturned₁ u ((List.mem_cons.mp hu).resolve_left hut)

end Handlers

/-! ### Jobs -/

section Jobs

variable {lib : Library} {fatal : Nat → Event effects → Prop} {requests : Nat → Request} {m : Memory}
  {minNum maxNum : Nat} {s : State} {w : Nat} {job : Job}

/-- What the pool's threads can do by themselves, they can do in the service. -/
theorem run_of_leads (lib : Library) (hlives : Lives fatal s.trace) {pool : Pool.State Job}
    {events : List (Pool.Event Job)} (h : Pool.Leads s.pool pool events) : Served lib fatal s
      { s with pool := pool, poolTrace := s.poolTrace ++ events } := by
  generalize hpool : s.pool = before at h
  induction h generalizing s with
  | refl =>
    subst hpool
    rw [List.append_nil]
    exact .start
  | @step _ s₁ _ action e events hown hstep _ ih =>
    subst hpool
    have hacts : s.poolActs action = true := by
      cases action with
      | push task => exact hown.elim
      | worker w wake =>
        simp only [State.poolActs]
        cases hworker : s.pool.core.worker w with
        | calling job => exact absurd hworker (hown job)
        | _ => rfl
      | _ => rfl
    have hfirst : s.step lib anyFault (.pool action) = some (s.afterPool s₁ e) := by
      rw [State.step, if_pos hacts, hstep, Option.map_some]
    have hrest := ih (s := s.afterPool s₁ e) hlives rfl
    rw [State.afterPool, List.append_assoc] at hrest
    have hserves : Serves (.pool action) := hown.serves
    exact Run.head ⟨hlives, hserves⟩ hfirst hrest

/-- A called job that does not have to wait for the sandbox can run to its end. -/
theorem Run.can_run (hlock : m.lock = none)
    (h : Served lib fatal (Service.start lib requests m minNum maxNum) s)
    (hlives : Lives fatal s.trace) (hworker : s.pool.core.worker w = .calling job)
    (hfree : s.mem.lock = none ∨ s.mem.lock = some job.request) :
    CanReach lib fatal [] s fun s' =>
      (s'.job job.request).returned = true ∧ s'.pool = s.pool ∧ s'.poolTrace = s.poolTrace := by
  generalize hp : s.job job.request = p
  induction p generalizing s with
  | ret a => exact .here hlives ⟨by rw [hp, Prog.returned_ret], rfl, rfl⟩
  | op o k ih =>
    have hqueued := h.queued_of_calling hworker
    have hpairs := h.job_pairs hlock hqueued
    rw [hp] at hpairs
    obtain ⟨r, m', hexec⟩ :
        ∃ r m', Storage.exec lib anyFault job.request o .quiet s.mem = some (r, m') := by
      refine Server.exec_ready fun hacquire => hfree.resolve_right ?_
      rw [Prog.pairs_acquire hacquire] at hpairs
      exact of_decide_eq_false hpairs.1
    have hstep : s.step lib anyFault (.job w .quiet) = some (s.afterJob job.request o r k m') := by
      simp only [State.step, hworker, hp, hexec, Option.map_some]
    have hserves : Serves (.job w .quiet) := trivial
    have hrun : Served lib fatal s (s.afterJob job.request o r k m') :=
      Run.start.step ⟨hlives, hserves⟩ hstep
    by_cases hfatal : fatal job.request ⟨o, r⟩
    · have hqueued' : hasQueued ((job.request, ⟨o, r⟩) :: s.trace) job.request = true := by
        rw [hasQueued_cons_same, hqueued, Bool.or_true]
      exact ⟨_, hrun, fun _ _ => rfl,
        .inl ⟨job.request, .inr hqueued', ⟨o, r⟩, s.trace, rfl, hfatal⟩⟩
    · have hfree' : m'.lock = none ∨ m'.lock = some job.request := by
        cases ho : kind o with
        | acquire => exact .inr ((Server.mutex lib Server.locks_anyFault).acquire ho hexec).2
        | release => exact .inl ((Server.mutex lib Server.locks_anyFault).release ho hexec)
        | plain => rwa [Server.lock_of_exec ho hexec]
      have hrest := ih r (s := s.afterJob job.request o r k m') (h.trans hrun) (hlives.cons hfatal)
        hworker hfree' (by simp [State.afterJob])
      exact hrest.after hrun fun _ _ => rfl

/-- The jobs that are queued or running. -/
def pending (s : State) : Nat :=
  (Pool.pushes s.poolTrace).length - (Pool.returns s.poolTrace).length

theorem pushes_length (h : Pool.Custody s.pool.core s.poolTrace) :
    (Pool.pushes s.poolTrace).length =
      s.pool.core.held.card + (Pool.returns s.poolTrace).length +
        s.pool.core.pool.task_queue.length := by
  have hcard := congrArg Multiset.card (pushes_eq h)
  simpa using hcard

/-- The call of a job whose code has finished can return. -/
theorem can_return (lib : Library) (hlives : Lives fatal s.trace)
    (hcustody : Pool.Custody s.pool.core s.poolTrace)
    (hworker : s.pool.core.worker w = .calling job)
    (hreturned : (s.job job.request).returned = true) :
    CanReach lib fatal [] s fun s' => pending s' < pending s := by
  have hpool : s.pool.step (.worker w none) =
      some ({ s.pool with core := s.pool.core.setWorker w .returned }, some (.returned w job)) := by
    simp only [Pool.State.step, Pool.Core.workerStep, hworker, Option.map_some]
  have hacts : s.poolActs (.worker w none) = true := by
    rw [State.poolActs, hworker]
    exact hreturned
  have hstep : s.step lib anyFault (.pool (.worker w none)) = some (s.afterPool
      { s.pool with core := s.pool.core.setWorker w .returned } (some (.returned w job))) := by
    rw [State.step, if_pos hacts, hpool, Option.map_some]
  have hserves : Serves (.pool (.worker w none)) := trivial
  refine .after (Run.start.step ⟨hlives, hserves⟩ hstep) (fun _ _ => rfl) (.here hlives ?_)
  have hheld : 0 < s.pool.core.held.card := Multiset.card_pos_iff_exists_mem.mpr
    ⟨job, Multiset.mem_of_le s.pool.core.running_le_held (calling_mem hcustody hworker)⟩
  have hlength := pushes_length hcustody
  simp only [pending, State.afterPool, Pool.pushes, Pool.returns, List.filterMap_append,
    List.length_append] at hlength ⊢
  simp only [Option.toList_some, List.filterMap_cons, List.filterMap_nil, List.length_nil,
    List.length_cons]
  omega

/-- Some worker can come to call a job that does not have to wait for the sandbox. -/
theorem Run.can_call_one (hlock : m.lock = none) (hmax : 1 ≤ maxNum)
    (h : Served lib fatal (Service.start lib requests m minNum maxNum) s) (hpending : 0 < pending s) :
    ∃ pool events w job, Pool.Leads s.pool pool events ∧ pool.core.worker w = .calling job ∧
      (s.mem.lock = none ∨ s.mem.lock = some job.request) := by
  cases hheld : s.mem.lock with
  | some t =>
    obtain ⟨w, task, hworker⟩ := h.holder hlock hheld
    exact ⟨s.pool, [], w, ⟨t, task⟩, .refl _, hworker, .inr rfl⟩
  | none =>
    have hcall : ∃ w job, Pool.CanLead s.pool fun pool => pool.core.worker w = .calling job := by
      by_cases hsome : ∃ w job, job ∈ (s.pool.core.worker w).held
      · obtain ⟨w, job, hjob⟩ := hsome
        exact ⟨w, job, Pool.can_call hjob⟩
      · have hnone : s.pool.core.Free := fun w =>
          Multiset.eq_zero_of_forall_notMem fun job hjob => hsome ⟨w, job, hjob⟩
        have hqueue : s.pool.core.pool.task_queue ≠ [] := by
          intro hempty
          have hzero : s.pool.core.held = 0 := Finset.sum_eq_zero fun w _ => hnone w
          have hlength := pushes_length h.custody
          rw [hempty, hzero] at hlength
          simp only [Multiset.card_zero, List.length_nil] at hlength
          rw [pending] at hpending
          omega
        obtain ⟨pool, events, hleads, w, job, hpopped⟩ :=
          (h.serving hmax).can_hand_out hnone hqueue
        have hholds : job ∈ (pool.core.worker w).held := by
          rw [hpopped]
          exact Multiset.mem_singleton_self job
        obtain ⟨pool', events', hleads', hcalling⟩ := Pool.can_call hholds
        exact ⟨w, job, pool', _, hleads.trans hleads', hcalling⟩
    obtain ⟨w, job, pool, events, hleads, hcalling⟩ := hcall
    exact ⟨pool, events, w, job, hleads, hcalling, .inl rfl⟩

/-- What the pool's threads do by themselves leaves as many jobs to be done. -/
theorem pending_of_leads {pool : Pool.State Job} {events : List (Pool.Event Job)}
    (h : Pool.Leads s.pool pool events) {s' : State} (htrace : s'.poolTrace = s.poolTrace ++ events) :
    pending s' = pending s := by
  obtain ⟨hpushes, hreturns⟩ := h.quiet
  simp only [pending, htrace, Pool.pushes, Pool.returns, List.filterMap_append, List.length_append]
  rw [Pool.pushes] at hpushes
  rw [Pool.returns] at hreturns
  rw [hpushes, hreturns]
  rfl

/-- One job more can be done. -/
theorem Run.can_finish_one (hlock : m.lock = none) (hmax : 1 ≤ maxNum)
    (h : Served lib fatal (Service.start lib requests m minNum maxNum) s)
    (hlives : Lives fatal s.trace) (hpending : 0 < pending s) :
    CanReach lib fatal [] s fun s' => pending s' < pending s := by
  obtain ⟨pool, events, w, job, hleads, hcalling, hfree⟩ := h.can_call_one hlock hmax hpending
  have hrun₁ := run_of_leads lib hlives hleads
  have h₁ := h.trans hrun₁
  refine .after hrun₁ (fun _ _ => rfl) ?_
  refine (h₁.can_run hlock hlives hcalling hfree).bind fun s₂ hrun₂ hlives₂ hs₂ => ?_
  obtain ⟨hreturned, hpool, htrace⟩ := hs₂
  have hreturn := can_return lib hlives₂ (h₁.trans hrun₂).custody (by rw [hpool]; exact hcalling)
    hreturned
  exact hreturn.mono (List.Subset.refl _) fun s' hless =>
    hless.trans_eq (pending_of_leads hleads htrace)

/-- All jobs can be done. -/
theorem Run.can_finish (hlock : m.lock = none) (hmax : 1 ≤ maxNum)
    (h : Served lib fatal (Service.start lib requests m minNum maxNum) s)
    (hlives : Lives fatal s.trace) : CanReach lib fatal [] s fun s' => pending s' = 0 := by
  generalize hn : pending s = n
  induction n using Nat.strong_induction_on generalizing s with
  | _ n ih =>
    by_cases hzero : n = 0
    · exact .here hlives (hn.trans hzero)
    · refine (h.can_finish_one hlock hmax hlives (by omega)).bind fun s₁ hrun₁ hlives₁ hless => ?_
      exact ih _ (hn ▸ hless) (h.trans hrun₁) hlives₁ rfl

/-- What it means for all jobs to be done. -/
theorem Run.all_done (hlock : m.lock = none)
    (h : Served lib fatal (Service.start lib requests m minNum maxNum) s)
    (hdone : pending s = 0) :
    s.pool.core.pool.task_queue = [] ∧ (∀ w, (s.pool.core.worker w).held = 0) ∧
      (∀ t task, (t, ⟨.push task, ()⟩) ∈ s.trace → (s.job t).returned = true) ∧
      s.mem.lock = none := by
  have hbooks := h.books
  have hlength := pushes_length h.custody
  rw [pending] at hdone
  have hqueue : s.pool.core.pool.task_queue = [] := List.length_eq_zero_iff.mp (by omega)
  have hheld : s.pool.core.held = 0 := Multiset.card_eq_zero.mp (by omega)
  have hidle : ∀ w, (s.pool.core.worker w).held = 0 := fun w =>
    Multiset.le_zero.mp (hheld ▸ held_le h.custody w)
  refine ⟨hqueue, hidle, fun t task hpush => ?_, ?_⟩
  · have hjob := (hbooks.accepted t task).mp hpush
    obtain ⟨hmem, -, -⟩ | ⟨-, ⟨w, hw, -⟩, -⟩ | ⟨-, -, hreturned⟩ := places h.custody hbooks.one hjob
    · rw [hqueue] at hmem
      cases hmem
    · have hnone := hidle w ▸ hw
      exact absurd hnone (Multiset.notMem_zero _)
    · exact hbooks.finished _ hreturned
  · rw [Option.eq_none_iff_forall_ne_some]
    intro t hholds
    obtain ⟨w, task, hworker⟩ := h.holder hlock hholds
    have hnone := hidle w
    rw [hworker] at hnone
    exact Multiset.singleton_ne_zero _ hnone

end Jobs

/-- No submission is stranded: from every state of a service whose process lives, whatever storage
operations have failed so far and wherever the threads of its pool are, the given handlers can answer
and then every accepted submission can be judged to the end, unless one of these ends the process on
the way.  The other handlers need not move for it.  Every `pthread_create` succeeds. -/
theorem service_can_finish (lib : Library) (requests : Nat → Request) (m : Memory)
    (minNum maxNum : Nat) (crash : Nat → Event effects → Prop) (hlock : m.lock = none)
    (hmax : 1 ≤ maxNum) {s : State}
    (h : Served lib (Fatal lib requests crash) (start lib requests m minNum maxNum) s)
    (hlives : Lives (Fatal lib requests crash) s.trace) (ts : List Nat)
    (hthrows : ∀ t ∈ ts, throws lib (requests t) = false) :
    CanReach lib (Fatal lib requests crash) ts s fun s' =>
      (∀ t ∈ ts, Ended lib (requests t) (s'.handler t)) ∧
      s'.pool.core.pool.task_queue = [] ∧ (∀ w, (s'.pool.core.worker w).held = 0) ∧
      (∀ t task, (t, ⟨.push task, ()⟩) ∈ s'.trace → (s'.job t).returned = true) ∧
      s'.mem.lock = none := by
  refine (h.can_answer_all hlives ts).bind fun s₁ hrun₁ hlives₁ hreturned => ?_
  have h₁ := h.trans hrun₁
  refine (h₁.can_finish hlock hmax hlives₁).frame.mono (List.nil_subset ts) ?_
  rintro s' ⟨hdone, hrun', hother⟩
  refine ⟨fun t ht => ⟨hthrows t ht, ?_⟩, (h₁.trans hrun').all_done hlock hdone⟩
  rw [hother t List.not_mem_nil]
  exact hreturned t ht

theorem endsNothing_of_status {o : Op} (h : IsStatus o) : EndsNothing o := by
  cases o with
  | set_status_code code => exact fun _ => rfl
  | _ => exact h.elim

/-- Submissions that do not throw keep the process alive. -/
theorem Run.lives_of_submissions {lib : Library} {mayFail : Op → Bool} {requests : Nat → Request}
    {m : Memory} {minNum maxNum : Nat} {ok : State → Action → Prop} {s : State}
    (h : Run ok lib mayFail (Service.start lib requests m minNum maxNum) s)
    (hrunCpp : ∀ t, (requests t).handler = .runCpp)
    (hthrows : ∀ t, throws lib (requests t) = false) :
    Lives (Fatal lib requests noCrash) s.trace := by
  obtain ⟨d, hd, hrefines⟩ := h.refines
  have hlives := Server.lives_of_submissions hd hrunCpp hthrows
  intro e he
  by_cases hstatus : IsStatus e.2.op
  · exact not_fatal (hthrows e.1) (endsNothing_of_status hstatus e.2.res)
  · have hvisible : e ∈ visible d.trace := by
      rw [hrefines.trace]
      exact mem_visible he hstatus
    exact hlives e (List.mem_of_mem_filter hvisible)

/-- The first handler has yet to answer while its job is in the sandbox. -/
theorem service_can_finish_jobBeforeAnswer :
    ∃ s, Served .sample (Fatal .sample submissions noCrash)
        (start .sample submissions Server.Memory.oneProblem 2 5) s ∧
      (s.handler 0).returned = false ∧ s.mem.lock = some 0 ∧
      ∃ s', Served .sample (Fatal .sample submissions noCrash) s s' ∧
        (∀ t ∈ [0, 1], (s'.handler t).returned = true) ∧
        s'.pool.core.pool.task_queue = [] ∧
        ∀ t task, (t, ⟨.push task, ()⟩) ∈ s'.trace → (s'.job t).returned = true := by
  have hserves : ∀ (s : State), ∀ action ∈ jobBeforeAnswer, Serves action := by
    intro _ action haction
    simp only [jobBeforeAnswer, List.mem_append, List.mem_replicate] at haction
    obtain (((⟨-, rfl⟩ | ⟨-, rfl⟩) | ⟨-, rfl⟩) | ⟨-, rfl⟩) := haction
    · trivial
    · exact fun i => ⟨i + 1, rfl⟩
    · trivial
    · trivial
  obtain ⟨s, hs, hv⟩ := exists_run (fun _ action => Serves action) .sample anyFault
    (start .sample submissions Server.Memory.oneProblem 2 5) jobBeforeAnswer hserves
    (fun s => ((s.handler 0).returned, s.mem.lock)) (false, some 0) (by decide +kernel)
  obtain ⟨hanswer, hheld⟩ := Prod.mk.injEq .. ▸ hv
  have hserved : Served .sample (Fatal .sample submissions noCrash)
      (start .sample submissions Server.Memory.oneProblem 2 5) s := hs.weaken fun s _ hs hok =>
    ⟨hs.lives_of_submissions (fun _ => rfl) throws_submissions, hok⟩
  obtain ⟨s', hs', -, hdone⟩ := service_can_finish .sample submissions Server.Memory.oneProblem 2 5
    noCrash rfl (by decide) hserved (hs.lives_of_submissions (fun _ => rfl) throws_submissions)
    [0, 1] fun t _ => throws_submissions t
  have hlives := (hserved.trans hs').lives_of_submissions (fun _ => rfl) throws_submissions
  obtain ⟨t, -, hend⟩ | ⟨-, hended, hqueue, -, hjobs, -⟩ := hdone
  · exact absurd hend (not_endsWith fun e he => hlives (t, e) he)
  · exact ⟨s, hserved, hanswer, hheld, s', hs', fun t ht => (hended t ht).2, hqueue, hjobs⟩

end OJJudge.Service
