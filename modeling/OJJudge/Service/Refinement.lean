import OJJudge.Server.Locking
import OJJudge.Service.State

/-! The service refines the machine of the storage.  There the job of a submission follows its handler
in one thread; here the job is queued, and its handler answers before, while or after a worker runs
it.  As the answer changes no memory, every run of the service is a run of the machine with the
status codes in other places. -/

namespace OJJudge.Service

open Concurrency Storage

/-! ### Handlers and their jobs in one program -/

def IsStatus : Op → Prop
  | .set_status_code _ => True
  | _ => False

/-- The handler queues at most one task, and sets only status codes after it. -/
def QueuesLast : Code Unit → Prop
  | .ret _ => True
  | .op o k => ∀ r, if (queued? o).isSome then (k r).Only IsStatus else QueuesLast (k r)

/-- The handler followed by the job that it queues. -/
def inlined : Code Unit → Code Unit
  | .ret a => .ret a
  | .op o k => .op o fun r =>
    match queued? o with
    | some task => k r >>= fun _ => cpp_runner OJ_Judge task
    | none => inlined (k r)

section Programs

variable {o : Op} {k : o.Res → Code Unit} {p : Code Unit}

theorem inlined_push {task : Runner_task} (ho : queued? o = some task) :
    inlined (.op o k) = .op o fun r => k r >>= fun _ => cpp_runner OJ_Judge task := by
  rw [inlined, ho]

theorem inlined_plain (ho : queued? o = none) : inlined (.op o k) = .op o fun r => inlined (k r) := by
  rw [inlined, ho]

theorem QueuesLast.after_push {task : Runner_task} (h : QueuesLast (.op o k))
    (ho : queued? o = some task) (r : o.Res) : (k r).Only IsStatus := by
  have hr := h r
  rwa [ho, if_pos (by rfl)] at hr

theorem queuesLast_plain (ho : queued? o = none) :
    QueuesLast (.op o k) ↔ ∀ r, QueuesLast (k r) := by
  rw [QueuesLast, ho]
  exact Iff.rfl

/-- A handler that queues nothing. -/
theorem queuesLast_of_only : {p : Code Unit} → p.Only (fun o => queued? o = none) → QueuesLast p
  | .ret _, _ => trivial
  | .op _ _, h => (queuesLast_plain h.1).mpr fun r => queuesLast_of_only (h.2 r)

theorem inlined_of_only : {p : Code Unit} → p.Only (fun o => queued? o = none) → inlined p = p
  | .ret _, _ => rfl
  | .op o k, h => by
    rw [inlined_plain h.1]
    congr 1
    funext r
    exact inlined_of_only (h.2 r)

end Programs

section Handlers

variable {req : HttpReq} (conf : IsolateConf) (user_name porblem_title : String) (body : Bytes)

theorem TaskPush_queuesLast (file_name porblem_id : String) (mysql_kv : List (List String)) :
    QueuesLast (TaskPush conf file_name porblem_id mysql_kv) := by
  unfold TaskPush
  split
  · exact fun _ => trivial
  · exact fun _ => ⟨trivial, fun _ => trivial⟩

theorem inlined_TaskPush (file_name porblem_id : String) (mysql_kv : List (List String)) :
    inlined (TaskPush OJ_Judge file_name porblem_id mysql_kv) =
      OJJudge.TaskPush OJ_Judge file_name porblem_id mysql_kv := by
  unfold TaskPush OJJudge.TaskPush
  split
  · rfl
  · rfl

theorem runCpp_queuesLast : QueuesLast (runCpp conf user_name porblem_title body) := by
  simp only [runCpp, effect_eq, Prog.op_bind, Prog.ret_bind]
  refine (queuesLast_plain rfl).mpr fun sql_kv => ?_
  split
  · iterate 9 refine (queuesLast_plain rfl).mpr fun _ => ?_
    exact TaskPush_queuesLast conf _ _ _
  · exact fun _ => trivial

theorem inlined_runCpp : inlined (runCpp OJ_Judge user_name porblem_title body) =
    OJJudge.runCpp OJ_Judge user_name porblem_title body := by
  simp only [runCpp, OJJudge.runCpp, effect_eq, Prog.op_bind, Prog.ret_bind]
  rw [inlined_plain rfl]
  congr 1
  funext sql_kv
  split
  · simp only [inlined, queued?, inlined_TaskPush]
  · rfl

end Handlers

section Requests

variable (lib : Library) (request : Request)

theorem request_queues_nothing (h : request.handler ≠ .runCpp) :
    (request.prog lib).Only (fun o => queued? o = none) := by
  refine (Server.request_foreground lib h).mono fun o ho => ?_
  cases o with
  | push => cases ho
  | _ => rfl

theorem handle_queuesLast : QueuesLast (handle lib request) := by
  unfold handle
  split
  · unfold withParams
    split
    · trivial
    · unfold session
      split
      · trivial
      · refine (queuesLast_plain rfl).mpr fun v => ?_
        simp only [Prog.bind_eq, Prog.ret_bind, Prog.pure_eq]
        split
        · exact fun _ => trivial
        · exact runCpp_queuesLast OJ_Judge _ _ _
  · next h => exact queuesLast_of_only (request_queues_nothing lib request h)

/-- The program of a request is its handler followed by the job. -/
theorem inlined_handle : inlined (handle lib request) = request.prog lib := by
  unfold handle
  split
  · next h =>
    rw [Request.prog, h]
    unfold Judge.runCpp withParams
    split
    · rfl
    · unfold session
      split
      · rfl
      · simp only [my_sync_check_token, effect_eq, Prog.op_bind, Prog.ret_bind, Prog.pure_eq]
        rw [inlined_plain rfl]
        congr 1
        funext v
        split
        · rfl
        · exact inlined_runCpp _ _ _
  · next h => exact inlined_of_only (request_queues_nothing lib request h)

end Requests

/-! ### The refinement -/

/-- The trace without the status codes of the responses. -/
def visible (trace : List (Nat × Event effects)) : List (Nat × Event effects) :=
  trace.filter fun e => match e.2.op with
    | .set_status_code _ => false
    | _ => true

theorem mem_visible {e : Nat × Event effects} {trace : List (Nat × Event effects)} (he : e ∈ trace)
    (hop : ¬IsStatus e.2.op) : e ∈ visible trace := by
  obtain ⟨t, o, r⟩ := e
  refine List.mem_filter.mpr ⟨he, ?_⟩
  cases o with
  | set_status_code code => exact absurd trivial hop
  | _ => rfl

theorem visible_cons_status {t : Nat} {o : Op} {r : o.Res} {trace : List (Nat × Event effects)}
    (ho : IsStatus o) : visible ((t, ⟨o, r⟩) :: trace) = visible trace := by
  cases o with
  | set_status_code code => rfl
  | _ => exact ho.elim

theorem visible_cons_congr {e : Nat × Event effects} {trace trace' : List (Nat × Event effects)}
    (h : visible trace = visible trace') : visible (e :: trace) = visible (e :: trace') := by
  simp only [visible, List.filter_cons] at h ⊢
  rw [h]

/-- The request has queued its job. -/
def hasQueued (trace : List (Nat × Event effects)) (t : Nat) : Bool :=
  (own t trace).any fun e => (queued? e.op).isSome

section HasQueued

variable {t u : Nat} {o : Op} {r : o.Res} {trace : List (Nat × Event effects)}

theorem hasQueued_cons_ne (h : u ≠ t) : hasQueued ((u, ⟨o, r⟩) :: trace) t = hasQueued trace t := by
  rw [hasQueued, own_cons_ne h, hasQueued]

theorem hasQueued_cons_same : hasQueued ((t, ⟨o, r⟩) :: trace) t =
    ((queued? o).isSome || hasQueued trace t) := by
  rw [hasQueued, own_cons_same, List.any_cons, hasQueued]

end HasQueued

variable {lib : Library} {mayFail : Op → Bool}

/-- The thread of request `t` in the machine of the storage. -/
structure Mirrors (s : State) (d : Config (Storage.machine lib mayFail)) (t : Nat) : Prop where
  before : hasQueued s.trace t = false →
    d.prog t = inlined (s.handler t) ∧ QueuesLast (s.handler t) ∧ s.job t = .ret ()
  behind : hasQueued s.trace t = true → d.prog t = s.job t ∧ (s.handler t).Only IsStatus

/-- The machine of the storage has come to the memory and the events of the service. -/
structure Refines (s : State) (d : Config (Storage.machine lib mayFail)) : Prop where
  mem : d.mem = s.mem
  trace : visible d.trace = visible s.trace
  mirrors : ∀ t, Mirrors s d t

theorem exec_status {t : Nat} {o : Op} {x : Choice} {m m' : Memory} {r : o.Res} (ho : IsStatus o)
    (h : Storage.exec lib mayFail t o x m = some (r, m')) : m' = m := by
  obtain hm | hm := mem_of_exec h
  · exact hm
  · cases o with
    | set_status_code code => exact hm
    | _ => exact ho.elim

/-- Status codes in front of a program can be set at once. -/
theorem run_status {d : Config (Storage.machine lib mayFail)} {t : Nat} {p q : Code Unit}
    (hp : d.prog t = p >>= fun _ => q) (hstatus : p.Only IsStatus) :
    ∃ d', Reach anyOrder d d' ∧ d'.prog t = q ∧ (∀ u, u ≠ t → d'.prog u = d.prog u) ∧
      d'.mem = d.mem ∧ visible d'.trace = visible d.trace := by
  induction p generalizing d with
  | ret a => exact ⟨d, .refl, hp, fun _ _ => rfl, rfl, rfl⟩
  | op o k ih =>
    obtain ⟨ho, hnext⟩ := hstatus
    obtain ⟨r, m, hexec⟩ : ∃ r m, Storage.exec lib mayFail t o .quiet d.mem = some (r, m) := by
      cases o with
      | set_status_code code =>
        unfold Storage.exec
        split
        · next h => cases h.1
        · split
          · exact ⟨_, _, rfl⟩
          · exact ⟨_, _, rfl⟩
      | _ => exact ho.elim
    obtain ⟨d', hd', hprog, hother, hmem, htrace⟩ :=
      ih r (d := d.after t o r (fun r => k r >>= fun _ => q) m) Config.prog_after_same (hnext r)
    have hstart : Reach anyOrder d d := .refl
    refine ⟨d', (hstart.next trivial hp hexec).trans hd', hprog,
      fun u hu => (hother u hu).trans (Config.prog_after_ne hu), ?_, ?_⟩
    · rw [hmem, Config.mem_after, exec_status ho hexec]
    · rw [htrace, Config.trace_after, visible_cons_status ho]

/-! ### Steps -/

section Steps

variable {s : State} {d : Config (Storage.machine lib mayFail)} {t u : Nat} {x : Choice} {o : Op}
  {k : o.Res → Code Unit} {r : o.Res} {m : Memory}

@[simp] theorem handler_queue : (s.queue t o).handler = s.handler := by
  unfold State.queue
  split <;> rfl

theorem job_queue_ne (h : u ≠ t) : (s.queue t o).job u = s.job u := by
  unfold State.queue
  split
  · exact Function.update_of_ne h _ _
  · rfl

/-- What a request mirrors is its own. -/
theorem Mirrors.congr {s' : State} {d' : Config (Storage.machine lib mayFail)} (h : Mirrors s d u)
    (hhandler : s'.handler u = s.handler u) (hjob : s'.job u = s.job u)
    (hqueued : hasQueued s'.trace u = hasQueued s.trace u) (hprog : d'.prog u = d.prog u) :
    Mirrors s' d' u := by
  obtain ⟨hbefore, hbehind⟩ := h
  rw [← hhandler, ← hjob, ← hqueued, ← hprog] at hbefore
  rw [← hhandler, ← hjob, ← hqueued, ← hprog] at hbehind
  exact ⟨hbefore, hbehind⟩

theorem Mirrors.afterHandler_ne {d' : Config (Storage.machine lib mayFail)} (h : Mirrors s d u)
    (hu : u ≠ t) (hprog : d'.prog u = d.prog u) : Mirrors (s.afterHandler t o r k m) d' u :=
  h.congr (Function.update_of_ne hu _ _) (job_queue_ne hu) (hasQueued_cons_ne (Ne.symm hu)) hprog

theorem Mirrors.afterJob_ne {d' : Config (Storage.machine lib mayFail)} (h : Mirrors s d u)
    (hu : u ≠ t) (hprog : d'.prog u = d.prog u) : Mirrors (s.afterJob t o r k m) d' u :=
  h.congr rfl (Function.update_of_ne hu _ _) (hasQueued_cons_ne (Ne.symm hu)) hprog

/-- A step of a handler before it has queued its job. -/
theorem Refines.handler_before (h : Refines s d) (hbefore : hasQueued s.trace t = false)
    (ho : queued? o = none) (hp : s.handler t = .op o k)
    (hexec : Storage.exec lib mayFail t o x s.mem = some (r, m)) :
    ∃ d', Reach anyOrder d d' ∧ Refines (s.afterHandler t o r k m) d' := by
  obtain ⟨hprog, hlast, hjob⟩ := (h.mirrors t).before hbefore
  rw [hp] at hprog hlast
  rw [inlined_plain ho] at hprog
  rw [← h.mem] at hexec
  have hstart : Reach anyOrder d d := .refl
  refine ⟨_, hstart.next trivial hprog hexec, rfl, visible_cons_congr h.trace, fun u => ?_⟩
  by_cases hu : u = t
  · subst hu
    have hsame : s.queue u o = s := by rw [State.queue, ho]
    constructor
    · intro _
      refine ⟨?_, ?_, ?_⟩
      · simp [State.afterHandler]
      · simpa [State.afterHandler] using (queuesLast_plain ho).mp hlast r
      · simpa [State.afterHandler, hsame] using hjob
    · intro hqueued
      rw [State.afterHandler, hasQueued_cons_same, ho, hbefore] at hqueued
      cases hqueued
  · exact (h.mirrors u).afterHandler_ne hu (Config.prog_after_ne hu)

/-- A handler queues its job: the thread of the machine sets the status codes that are left. -/
theorem Refines.handler_push {task : Runner_task} (h : Refines s d)
    (hbefore : hasQueued s.trace t = false) (ho : queued? o = some task) (hp : s.handler t = .op o k)
    (hexec : Storage.exec lib mayFail t o x s.mem = some (r, m)) :
    ∃ d', Reach anyOrder d d' ∧ Refines (s.afterHandler t o r k m) d' := by
  obtain ⟨hprog, hlast, -⟩ := (h.mirrors t).before hbefore
  rw [hp] at hprog hlast
  rw [inlined_push ho] at hprog
  rw [← h.mem] at hexec
  have hstatus := hlast.after_push ho r
  obtain ⟨d', hd', hprog', hother, hmem, htrace⟩ :=
    run_status (d := d.after t o r (fun r => k r >>= fun _ => cpp_runner OJ_Judge task) m)
      Config.prog_after_same hstatus
  have hstart : Reach anyOrder d d := .refl
  refine ⟨d', (hstart.next trivial hprog hexec).trans hd', hmem,
    htrace.trans (visible_cons_congr h.trace), fun u => ?_⟩
  by_cases hu : u = t
  · subst hu
    constructor
    · intro hqueued
      rw [State.afterHandler, hasQueued_cons_same, ho] at hqueued
      cases hqueued
    · intro _
      refine ⟨?_, by simpa [State.afterHandler] using hstatus⟩
      rw [hprog', State.afterHandler, State.queue, ho]
      exact (Function.update_self u (cpp_runner OJ_Judge task) s.job).symm
  · exact (h.mirrors u).afterHandler_ne hu ((hother u hu).trans (Config.prog_after_ne hu))

/-- A handler that has queued its job only sets status codes. -/
theorem Refines.handler_behind (h : Refines s d) (hbehind : hasQueued s.trace t = true)
    (hp : s.handler t = .op o k) (hexec : Storage.exec lib mayFail t o x s.mem = some (r, m)) :
    Refines (s.afterHandler t o r k m) d := by
  obtain ⟨hprog, honly⟩ := (h.mirrors t).behind hbehind
  rw [hp] at honly
  obtain ⟨ho, hnext⟩ := honly
  have hqueue : queued? o = none := by
    cases o with
    | push task => exact ho.elim
    | _ => rfl
  refine ⟨h.mem.trans (exec_status ho hexec).symm, h.trace.trans (visible_cons_status ho).symm,
    fun u => ?_⟩
  by_cases hu : u = t
  · subst hu
    have hsame : s.queue u o = s := by rw [State.queue, hqueue]
    constructor
    · intro hqueued
      rw [State.afterHandler, hasQueued_cons_same, hbehind, Bool.or_true] at hqueued
      cases hqueued
    · intro _
      refine ⟨?_, by simpa [State.afterHandler] using hnext r⟩
      rw [hprog, State.afterHandler, hsame]
  · exact (h.mirrors u).afterHandler_ne hu rfl

/-- A step of a job. -/
theorem Refines.job_step (h : Refines s d) (hp : s.job t = .op o k)
    (hexec : Storage.exec lib mayFail t o x s.mem = some (r, m)) :
    ∃ d', Reach anyOrder d d' ∧ Refines (s.afterJob t o r k m) d' := by
  have hbehind : hasQueued s.trace t = true := by
    by_contra hnot
    obtain ⟨-, -, hjob⟩ := (h.mirrors t).before (by simpa using hnot)
    rw [hp] at hjob
    cases hjob
  obtain ⟨hprog, honly⟩ := (h.mirrors t).behind hbehind
  rw [hp] at hprog
  rw [← h.mem] at hexec
  have hstart : Reach anyOrder d d := .refl
  refine ⟨_, hstart.next trivial hprog hexec, rfl, visible_cons_congr h.trace, fun u => ?_⟩
  by_cases hu : u = t
  · subst hu
    constructor
    · intro hqueued
      rw [State.afterJob, hasQueued_cons_same, hbehind, Bool.or_true] at hqueued
      cases hqueued
    · intro _
      refine ⟨?_, honly⟩
      rw [Config.prog_after_same]
      exact (Function.update_self u (k r) s.job).symm
  · exact (h.mirrors u).afterJob_ne hu (Config.prog_after_ne hu)

/-- The step lemma. -/
theorem Refines.step {s' : State} {action : Action} (h : Refines s d)
    (hstep : s.step lib mayFail action = some s') :
    ∃ d', Reach anyOrder d d' ∧ Refines s' d' := by
  cases State.step_steps hstep with
  | @handler t x o k r m hp hexec =>
    cases hqueued : hasQueued s.trace t with
    | true => exact ⟨d, .refl, h.handler_behind hqueued hp hexec⟩
    | false =>
      cases ho : queued? o with
      | none => exact h.handler_before hqueued ho hp hexec
      | some task => exact h.handler_push hqueued ho hp hexec
  | job hworker hp hexec => exact h.job_step hp hexec
  | pool hacts hpool =>
    exact ⟨d, .refl, h.mem, h.trace, fun u => (h.mirrors u).congr rfl rfl rfl rfl⟩

end Steps

/-! ### Runs -/

section Runs

variable {requests : Nat → Request} {m : Memory} {minNum maxNum : Nat}
  {ok : State → Action → Prop} {s : State}

theorem refines_start : Refines (start lib requests m minNum maxNum)
    (Storage.start lib mayFail requests m) where
  mem := rfl
  trace := rfl
  mirrors t := by
    refine ⟨fun _ => ⟨(inlined_handle lib _).symm, handle_queuesLast lib _, rfl⟩, fun hqueued => ?_⟩
    cases hqueued

/-- The run lemma. -/
theorem Run.refines (h : Run ok lib mayFail (Service.start lib requests m minNum maxNum) s) :
    ∃ d, Reach anyOrder (Storage.start lib mayFail requests m) d ∧ Refines s d := by
  induction h with
  | start => exact ⟨_, .refl, refines_start⟩
  | step _ _ hstep ih =>
    obtain ⟨d, hd, hrefines⟩ := ih
    obtain ⟨d', hd', hrefines'⟩ := hrefines.step hstep
    exact ⟨d', hd.trans hd', hrefines'⟩

/-- The service refines the machine of the storage: whatever its pool does, some run in which every
job follows its handler in one thread has the same memory and the same events, but for the places of
the status codes, and there the requests whose handler and job have finished have returned. -/
theorem service_refines_storage
    (h : Run ok lib mayFail (start lib requests m minNum maxNum) s) :
    ∃ d : Config (Storage.machine lib mayFail), Reach anyOrder (Storage.start lib mayFail requests m) d ∧
      d.mem = s.mem ∧ visible d.trace = visible s.trace ∧
      ∀ t, (s.handler t).returned = true → (s.job t).returned = true →
        (d.prog t).returned = true := by
  obtain ⟨d, hd, hmem, htrace, hmirrors⟩ := h.refines
  refine ⟨d, hd, hmem, htrace, fun t hhandler hjob => ?_⟩
  cases hqueued : hasQueued s.trace t with
  | true =>
    rw [((hmirrors t).behind hqueued).1]
    exact hjob
  | false =>
    rw [((hmirrors t).before hqueued).1]
    cases hprog : s.handler t with
    | ret a => rfl
    | op o k =>
      rw [hprog] at hhandler
      cases hhandler

end Runs

/-- The first handler queues its job, and worker 1 has begun with it before the handler answers. -/
def jobBeforeAnswer : List Action :=
  List.replicate 12 (.handler 0 .quiet) ++
    List.replicate 5 (.pool (.manager true (fun i => .ok (i + 1)) none)) ++
    List.replicate 4 (.pool (.worker 1 none)) ++ List.replicate 2 (.job 1 .quiet)

theorem service_refines_storage_jobBeforeAnswer :
    ∃ s, Run (fun _ _ => True) .sample anyFault
        (start .sample Server.submissions Server.Memory.oneProblem 2 5) s ∧
      (s.handler 0).next? = some (.set_status_code "200") ∧
      ∃ d : Config (Storage.machine .sample anyFault),
        Reach anyOrder (Storage.start .sample anyFault Server.submissions Server.Memory.oneProblem) d ∧
        d.mem = s.mem ∧ d.mem.lock = some 0 := by
  obtain ⟨s, hs, hv⟩ := exists_run (fun _ _ => True) .sample anyFault
    (start .sample Server.submissions Server.Memory.oneProblem 2 5) jobBeforeAnswer
    (fun _ _ _ => trivial)
    (fun s => ((s.handler 0).next?, s.mem.lock)) (some (.set_status_code "200"), some 0)
    (by decide +kernel)
  obtain ⟨hnext, hlock⟩ := Prod.mk.injEq .. ▸ hv
  obtain ⟨d, hd, hmem, -, -⟩ := service_refines_storage hs
  exact ⟨s, hs, hnext, d, hd, hmem, hmem ▸ hlock⟩

end OJJudge.Service
