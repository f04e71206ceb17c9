import OJJudge.Pool.Slots

/-! The retirement of workers.  An exit request waits in `exitNum` for whichever worker wakes up
next, and the conditions under which it was made need not hold any more then: other requests are on
their way, or a task has been queued, and the last worker may go before that task is run. -/

namespace OJJudge.Pool

open Concurrency

variable {Task : Type} {minNum maxNum : Nat} {s s' : State Task} {trace : List (Event Task)}

/-- The next step of worker `t` is the branch that retires it. -/
def Core.Retires (c : Core Task) (t : Nat) : Prop := c.worker t = .woken ∧ 0 < c.pool.exitNum

theorem Core.Retires.step {t : Nat} {wake : Option Nat} {e : Option (Event Task)}
    (h : s.core.Retires t) (hstep : s.step (.worker t wake) = some (s', e)) :
    s'.core = s.core.retire t := by
  simp only [State.step, Core.workerStep, h.1, if_pos h.2, Option.map_some, Option.some.injEq,
    Prod.mk.injEq] at hstep
  rw [← hstep.1]

/-! ### The lower bound on workers -/

/-- An exit is requested only if enough workers stay when all requests so far are met. -/
def Spares (s : State Task) (action : Action Task) : Prop :=
  s.requests action = true →
    (s.core.pool.minNum : Int) < s.core.pool.liveNum - s.core.pool.exitNum

instance (s : State Task) (action : Action Task) : Decidable (Spares s action) :=
  inferInstanceAs (Decidable (_ → _))

/-- While exits are requested, enough workers stay when all of them are met. -/
def Spared (pool : ThreadPool Task) : Prop :=
  0 < pool.exitNum → (pool.minNum : Int) ≤ pool.liveNum - pool.exitNum

theorem Spared.step {action : Action Task} {after : ThreadPool Task} (h : Spared s.core.pool)
    (hok : Spares s action) (hstep : s.PoolStep action after)
    (hmin : after.minNum = s.core.pool.minNum) : Spared after := by
  intro hexitNum
  rw [hmin]
  cases hstep with
  | same hlive hexit hqueue =>
    have hspared := h (by omega)
    omega
  | request hrequests hlive hexit hqueue =>
    have hspares := hok hrequests
    omega
  | retire haction hworker hpos hlive hexit hqueue =>
    have hspared := h hpos
    omega
  | create hmanager hlive hexit hqueue =>
    have hspared := h (by omega)
    omega
  | push haction hlive hexit hqueue =>
    have hspared := h (by omega)
    omega

theorem Run.spared (h : Run Spares minNum maxNum s trace) : Spared s.core.pool := by
  refine h.core (I := fun c _ => Spared c.pool) (fun h => absurd h (lt_irrefl 0)) ?_
  intro s action c' e trace hc hok hstep
  exact hc.step hok hstep.pool hstep.bounds.1

/-- No retirement takes `liveNum` below `minNum`. -/
theorem retire_keeps_minNum {t : Nat} {wake : Option Nat} {e : Option (Event Task)}
    (h : Run Spares minNum maxNum s trace) (hretires : s.core.Retires t)
    (hstep : s.step (.worker t wake) = some (s', e))
    (hlive : (minNum : Int) ≤ s.core.pool.liveNum) : (minNum : Int) ≤ s'.core.pool.liveNum := by
  have hexit := hretires.2
  have hspared := h.spared hexit
  rw [h.minNum_eq] at hspared
  rw [hretires.step hstep]
  show (minNum : Int) ≤ s.core.pool.liveNum - 1
  omega

/-- Two workers have run one task and wait, and one exit has been requested. -/
def oneRequest : List (Action Nat) :=
  oneTask ++ [.worker 1 none, .worker 2 none] ++ List.replicate 7 (.manager true numbered none) ++
    [.manager true numbered (some 1)]

theorem retire_keeps_minNum_one : ∃ s s' : State Nat, s.core.pool.liveNum = 2 ∧
    (∃ e, s.step (.worker 1 none) = some (s', e)) ∧ ((1 : Nat) : Int) ≤ s'.core.pool.liveNum := by
  obtain ⟨s, trace, hrun, hv⟩ := exists_run (fun (s : State Nat) action => Spares s action) 1 2
    oneRequest (fun s _ => (s.core.worker 1, s.core.pool.exitNum, s.core.pool.liveNum,
      (s.step (.worker 1 none)).isSome)) (.woken, 1, 2, true) (by decide)
  simp only [Prod.mk.injEq] at hv
  obtain ⟨hworker, hexit, hlive, hstep⟩ := hv
  obtain ⟨⟨s', e⟩, hstep⟩ := Option.isSome_iff_exists.mp hstep
  exact ⟨s, s', hlive, ⟨e, hstep⟩,
    retire_keeps_minNum hrun ⟨hworker, by omega⟩ hstep (by omega)⟩

/-- The loop that shrinks the pool requests a second exit before the first one is met. -/
theorem shrinks_below_minNum : ∃ (s s' : State Nat) (trace : List (Event Nat)),
    Run (fun _ _ => True) 1 2 s trace ∧ s.destructor = .notCalled ∧ s.manager.kills = false ∧
      s.core.Retires 2 ∧ (∃ e, s.step (.worker 2 none) = some (s', e)) ∧
      s.core.pool.liveNum = 1 ∧ s'.core.pool.liveNum = 0 := by
  obtain ⟨s, trace, hrun, hv⟩ := exists_run (fun (_ : State Nat) _ => True) 1 2
    (oneRequest ++ List.replicate 4 (.manager true numbered none) ++
      [.manager true numbered (some 2), .worker 1 none])
    (fun s _ => (s.destructor, s.manager.kills, s.core.worker 2, s.core.pool.exitNum,
      s.core.pool.liveNum, (s.step (.worker 2 none)).isSome))
    (.notCalled, false, .woken, 1, 1, true) (by decide)
  simp only [Prod.mk.injEq] at hv
  obtain ⟨hdestructor, hkills, hworker, hexit, hlive, hstep⟩ := hv
  obtain ⟨⟨s', e⟩, hstep⟩ := Option.isSome_iff_exists.mp hstep
  have hretires : s.core.Retires 2 := ⟨hworker, by omega⟩
  refine ⟨s, s', trace, hrun, hdestructor, hkills, hretires, ⟨e, hstep⟩, hlive, ?_⟩
  rw [hretires.step hstep]
  show s.core.pool.liveNum - 1 = 0
  omega

/-! ### Idle workers -/

def Worker.isWoken : Worker Task → Bool
  | woken => true
  | _ => false

theorem eq_woken {worker : Worker Task} (h : worker.isWoken = true) : worker = .woken := by
  cases worker with
  | woken => rfl
  | _ => cases h

/-- A worker has been woken and is yet to run. -/
def Core.anyWoken (c : Core Task) : Bool := decide (∃ t ∈ c.threads, (c.worker t).isWoken = true)

/-- The step wakes a blocked worker. -/
def State.wakes (s : State Task) (action : Action Task) : Bool :=
  (s.step action).any fun e => decide (∃ t ∈ s.core.threads,
    (s.core.worker t).isWaiting = true ∧ (e.1.core.worker t).isWaiting = false)

/-- No task is pushed and no exit is requested next to the other one while a worker has been woken,
and no worker is woken next to both. -/
def Separates (s : State Task) : Action Task → Prop
  | .push _ => s.core.anyWoken = true → s.core.pool.exitNum ≤ 0
  | action =>
    (s.core.anyWoken = true → s.requests action = true → s.core.pool.task_queue = []) ∧
      (s.wakes action = true → 0 < s.core.pool.exitNum → s.core.pool.task_queue = [])

instance [DecidableEq Task] (s : State Task) :
    (action : Action Task) → Decidable (Separates s action)
  | .push _ => inferInstanceAs (Decidable (_ → _))
  | .pushSignal _ | .worker _ _ | .spurious _ | .manager _ _ _ | .wait _ | .destructor _ =>
    inferInstanceAs (Decidable ((_ → _ → _) ∧ (_ → _ → _)))

/-- A worker that has been woken finds no exit requested, or no task queued. -/
def Separate (c : Core Task) : Prop :=
  ∀ t, c.worker t = .woken → 0 < c.pool.exitNum → c.pool.task_queue = []

theorem Separate.step {action : Action Task} {e : Option (Event Task)} (h : Separate s.core)
    (hthreads : ∀ t, (s.core.worker t).exists? = true → t ∈ s.core.threads)
    (hok : Separates s action) (hstep : s.step action = some (s', e)) : Separate s'.core := by
  intro t hwoken hexitNum
  have hcore := State.step_core hstep
  have hany : s.core.worker t = .woken → s.core.anyWoken = true := fun hworker =>
    decide_eq_true ⟨t, hthreads t (by rw [hworker]; rfl), by rw [hworker]; rfl⟩
  cases hcore.moves (t := t) with
  | same hworker =>
    rw [hworker] at hwoken
    cases hcore.pool with
    | same hlive hexit hqueue =>
      rw [h t hwoken (by omega)] at hqueue
      exact List.suffix_nil.mp hqueue
    | request hrequests hlive hexit hqueue =>
      rw [hqueue]
      cases action with
      | push task => cases hrequests
      | _ => exact hok.1 (hany hwoken) hrequests
    | retire haction hworker hpos hlive hexit hqueue => rw [hqueue, h t hwoken hpos]
    | create hmanager hlive hexit hqueue => rw [hqueue, h t hwoken (by omega)]
    | push haction hlive hexit hqueue =>
      subst haction
      have hnone : s.core.pool.exitNum ≤ 0 := hok (hany hwoken)
      omega
  | wake hold hnew hpool =>
    have hwakes : s.wakes action = true := by
      rw [State.wakes, hstep]
      exact decide_eq_true ⟨t, hthreads t (by rw [hold]; rfl), by rw [hold]; rfl,
        by rw [hnew]; rfl⟩
    rw [hpool] at hexitNum ⊢
    cases action with
    | push task =>
      cases hstep
      exact absurd (hold.symm.trans hnew) (by simp)
    | _ => exact hok.2 hwakes hexitNum
  | other hold hnew => exact absurd hwoken hnew

theorem Run.separate (h : Run Separates minNum maxNum s trace) : Separate s.core := by
  induction h with
  | start =>
    intro t hwoken
    cases hwoken
  | step h hok hstep ih => exact ih.step h.custody.threads hok hstep

/-- A worker that retires leaves no task behind. -/
theorem only_idle_workers_retire {t : Nat} (h : Run Separates minNum maxNum s trace)
    (hretires : s.core.Retires t) : s.core.pool.task_queue = [] :=
  h.separate t hretires.1 hretires.2

theorem only_idle_workers_retire_one : ∃ s : State Nat, s.core.Retires 1 ∧
    s.core.pool.task_queue = [] := by
  obtain ⟨s, trace, hrun, hv⟩ := exists_run (fun (s : State Nat) action => Separates s action) 1 2
    oneRequest (fun s _ => (s.core.worker 1, s.core.pool.exitNum)) (.woken, 1) (by decide)
  simp only [Prod.mk.injEq] at hv
  have hretires : s.core.Retires 1 := ⟨hv.1, by omega⟩
  exact ⟨s, hretires, only_idle_workers_retire hrun hretires⟩

theorem Run.exitNum_nonneg {ok : State Task → Action Task → Prop}
    (h : Run ok minNum maxNum s trace) : 0 ≤ s.core.pool.exitNum := by
  refine h.core (I := fun c _ => 0 ≤ c.pool.exitNum) le_rfl ?_
  intro s action c' e trace hc _ hstep
  cases hstep.pool with
  | same hlive hexit hqueue => omega
  | request hrequests hlive hexit hqueue => omega
  | retire haction hworker hpos hlive hexit hqueue => omega
  | create hmanager hlive hexit hqueue => omega
  | push haction hlive hexit hqueue => omega

theorem State.core_of_requests {action : Action Task} {e : Option (Event Task)}
    (hrequests : s.requests action = true) (hstep : s.step action = some (s', e)) :
    s'.core = s.core.requestExit := by
  cases step_steps hstep with
  | manager h =>
    simp only [requests, Bool.or_eq_true, decide_eq_true_eq] at hrequests
    obtain hmanager | hmanager := hrequests
    · simp only [managerStep, hmanager] at h
      cases h
      rfl
    · simp only [managerStep, hmanager] at h
      cases h
      rfl
  | destructor h =>
    have hdestructor : s.destructor = .exit := of_decide_eq_true hrequests
    simp only [destructorStep, hdestructor] at h
    cases h
    rfl
  | _ => cases hrequests

theorem Core.exists_woken {c : Core Task} (h : c.anyWoken = true) : ∃ t, c.worker t = .woken := by
  obtain ⟨t, -, ht⟩ := of_decide_eq_true h
  exact ⟨t, eq_woken ht⟩

/-- A step that breaks the condition lets a worker retire and leave a task behind. -/
theorem retires_of_not_separates {ok : State Task → Action Task → Prop} {action : Action Task}
    {e : Option (Event Task)} (h : Run ok minNum maxNum s trace)
    (hstep : s.step action = some (s', e)) (hbreaks : ¬Separates s action) :
    ∃ t, s'.core.Retires t ∧ s'.core.pool.task_queue ≠ [] := by
  by_cases hpush : ∃ task, action = .push task
  · obtain ⟨task, rfl⟩ := hpush
    obtain ⟨hany, hexit⟩ := Classical.not_imp.mp hbreaks
    obtain ⟨t, hwoken⟩ := Core.exists_woken hany
    cases hstep
    exact ⟨t, ⟨hwoken, not_le.mp hexit⟩, by simp [Core.push]⟩
  · have hparts : ¬((s.core.anyWoken = true → s.requests action = true →
        s.core.pool.task_queue = []) ∧
      (s.wakes action = true → 0 < s.core.pool.exitNum → s.core.pool.task_queue = [])) := by
      cases action with
      | push task => exact absurd ⟨task, rfl⟩ hpush
      | _ => exact hbreaks
    obtain hrequest | hwake := not_and_or.mp hparts
    · obtain ⟨hany, hrequest⟩ := Classical.not_imp.mp hrequest
      obtain ⟨hrequests, hqueue⟩ := Classical.not_imp.mp hrequest
      obtain ⟨t, hwoken⟩ := Core.exists_woken hany
      have hexit := h.exitNum_nonneg
      rw [State.core_of_requests hrequests hstep]
      exact ⟨t, ⟨hwoken, show 0 < s.core.pool.exitNum + 1 by omega⟩, hqueue⟩
    · obtain ⟨hwakes, hwake⟩ := Classical.not_imp.mp hwake
      obtain ⟨hexit, hqueue⟩ := Classical.not_imp.mp hwake
      rw [State.wakes, hstep] at hwakes
      obtain ⟨t, -, hold, hnew⟩ := of_decide_eq_true hwakes
      cases (State.step_core hstep).moves (t := t) with
      | same hsame =>
        rw [hsame, hold] at hnew
        cases hnew
      | wake hold' hwoken hpool =>
        refine ⟨t, ⟨hwoken, ?_⟩, ?_⟩
        · rw [hpool]
          exact hexit
        · rw [hpool]
          exact hqueue
      | other hold' hnew' => exact absurd (eq_waiting hold) hold'

/-- The signal of a `push` wakes a worker while an exit is requested, and the worker retires. -/
theorem wakeup_spent_on_exit : ∃ (s : State Nat) (trace : List (Event Nat)),
    Run (fun _ _ => True) 0 1 s trace ∧ s.core.pool.shutdown = false ∧ s.core.Retires 1 ∧
      s.core.pool.task_queue = [8] := by
  obtain ⟨s, trace, hrun, hv⟩ := exists_run (fun (_ : State Nat) _ => True) 0 1
    (oneTask ++ [.worker 1 none] ++ List.replicate 7 (.manager true numbered none) ++
      [.push 8, .pushSignal (some 1)])
    (fun s _ => (s.core.pool.shutdown, s.core.worker 1, s.core.pool.exitNum,
      s.core.pool.task_queue)) (false, .woken, 1, [8]) (by decide)
  simp only [Prod.mk.injEq] at hv
  obtain ⟨hshutdown, hworker, hexit, hqueue⟩ := hv
  exact ⟨s, trace, hrun, hshutdown, ⟨hworker, by omega⟩, hqueue⟩

/-! ### The end of the manager -/

/-- The manager is in its final loop. -/
def Manager.killing : Manager → Bool
  | kill | killExit | killSignal => true
  | _ => false

theorem Manager.kills_of_killing {manager : Manager} (h : manager.killing = true) :
    manager.kills = true := by
  cases manager with
  | kill | killExit | killSignal => rfl
  | _ => cases h

/-- What a step of the manager has to do with its final loop. -/
inductive State.FinalStep (s s' : State Task) : Prop
  | before (hnext : s'.manager.kills = false)
  | enter (hmanager : s.manager = .check) (htime : s.core.pool.waitTime ≤ s.time)
      (hnext : s'.manager = .kill) (hcore : s'.core = s.core)
  | stay (hkilling : s.manager.killing = true) (hnext : s'.manager.killing = true)
  | finish (hmanager : s.manager = .kill) (hlive : s.core.pool.liveNum = 0)
      (hnext : s'.manager = .ended) (hcore : s'.core = s.core)
  | shutdown (hshutdown : s.core.pool.shutdown = true) (hnext : s'.manager = .ended)
      (hcore : s'.core = s.core)

theorem State.managerStep_final {first : Bool} {created : Nat → Core.Created} {wake : Option Nat}
    (h : s.managerStep first created wake = some s') : s.FinalStep s' := by
  unfold managerStep at h
  split at h
  case h_1 =>
    cases h
    by_cases hshutdown : s.core.pool.shutdown = true
    · exact .shutdown hshutdown (by simp [setManager, hshutdown]) rfl
    · exact .before (by simp [setManager, hshutdown, Manager.kills])
  case h_6 | h_12 =>
    obtain ⟨core, -, rfl⟩ := Option.map_eq_some_iff.mp h
    exact .before rfl
  case h_14 hmanager =>
    cases h
    by_cases htime : (s.time : Int) ≥ s.core.pool.waitTime
    · exact .enter hmanager htime (by simp [setManager, htime]) rfl
    · exact .before (by simp [setManager, htime, Manager.kills])
  case h_15 hmanager =>
    cases h
    by_cases hlive : s.core.pool.liveNum = 0
    · exact .finish hmanager hlive (by simp [setManager, hlive]) rfl
    · exact .stay (by rw [hmanager]; rfl) (by simp [setManager, hlive, Manager.killing])
  case h_16 hmanager =>
    cases h
    exact .stay (by rw [hmanager]; rfl) rfl
  case h_17 hmanager =>
    obtain ⟨core, -, rfl⟩ := Option.map_eq_some_iff.mp h
    exact .stay (by rw [hmanager]; rfl) rfl
  case h_18 => cases h
  all_goals
    cases h
    apply FinalStep.before
    simp only [setManager, shrinkBranch]
    repeat' split
    all_goals rfl

/-- The final loop begins after a look at `waitTime`. -/
theorem State.managerStep_killing {first : Bool} {created : Nat → Core.Created} {wake : Option Nat}
    (h : s.managerStep first created wake = some s') (hkilling : s'.manager.killing = true) :
    s.manager.killing = true ∨
      s.manager = .check ∧ s.core.pool.waitTime ≤ s.time ∧ s'.core = s.core := by
  cases managerStep_final h with
  | before hnext =>
    rw [Manager.kills_of_killing hkilling] at hnext
    cases hnext
  | enter hmanager htime hnext hcore => exact .inr ⟨hmanager, htime, hcore⟩
  | stay hkilling hnext => exact .inl hkilling
  | finish hmanager hlive hnext hcore | shutdown hshutdown hnext hcore =>
    rw [hnext] at hkilling
    cases hkilling

/-- The manager ends when it finds no worker in its final loop, or on `shutdown`. -/
theorem State.managerStep_ended {first : Bool} {created : Nat → Core.Created} {wake : Option Nat}
    (h : s.managerStep first created wake = some s') (hended : s'.manager = .ended) :
    s'.core = s.core ∧ (s.core.pool.shutdown = true ∨
      s.manager = .kill ∧ s.core.pool.liveNum = 0) := by
  cases managerStep_final h with
  | before hnext | enter hmanager htime hnext hcore | stay hkilling hnext =>
    rw [hended] at hnext
    cases hnext
  | finish hmanager hlive hnext hcore => exact ⟨hcore, .inr ⟨hmanager, hlive⟩⟩
  | shutdown hshutdown hnext hcore => exact ⟨hcore, .inl hshutdown⟩

/-- The step leaves no task behind in the final loop: the loop does not begin without a worker while
a task is queued, the last worker does not retire then, and no task is pushed after that. -/
def Drains (s : State Task) : Action Task → Prop
  | .push _ => s.manager.killing = true → s.core.pool.liveNum ≠ 0
  | .worker t _ => s.manager.killing = true → s.core.worker t = .woken →
    0 < s.core.pool.exitNum → s.core.pool.liveNum = 1 → s.core.pool.task_queue = []
  | .manager _ _ _ => s.manager = .check → s.core.pool.waitTime ≤ s.time →
    s.core.pool.liveNum = 0 → s.core.pool.task_queue = []
  | _ => True

instance [DecidableEq Task] (s : State Task) : (action : Action Task) → Decidable (Drains s action)
  | .push _ => inferInstanceAs (Decidable (_ → _))
  | .worker _ _ => inferInstanceAs (Decidable (_ → _ → _ → _ → _))
  | .manager _ _ _ => inferInstanceAs (Decidable (_ → _ → _ → _))
  | .pushSignal _ | .spurious _ | .wait _ | .destructor _ => inferInstanceAs (Decidable True)

/-- In the final loop, no task waits without a worker. -/
def Drained (s : State Task) : Prop :=
  s.manager.killing = true → s.core.pool.liveNum = 0 → s.core.pool.task_queue = []

theorem State.destructorStep_others {wake : Option Nat} (h : s.destructorStep wake = some s') :
    s' = { s with core := s'.core, destructor := s'.destructor } := by
  unfold destructorStep at h
  split at h
  case h_4 =>
    obtain ⟨core, -, rfl⟩ := Option.map_eq_some_iff.mp h
    rfl
  case h_5 => cases h
  all_goals
    cases h
    rfl

/-- The other threads change neither the place of the manager nor its `time`. -/
theorem State.step_others {action : Action Task} {e : Option (Event Task)}
    (h : s.step action = some (s', e)) :
    s' = { s with core := s'.core, destructor := s'.destructor } ∨
      ∃ first created wake, action = .manager first created wake ∧
        s.managerStep first created wake = some s' := by
  cases step_steps h with
  | @manager first created wake s' hmanager =>
    exact .inr ⟨first, created, wake, rfl, hmanager⟩
  | destructor hdestructor => exact .inl (destructorStep_others hdestructor)
  | _ => exact .inl rfl

theorem Drained.step {action : Action Task} {e : Option (Event Task)} (h : Drained s)
    (hok : Drains s action) (hstep : s.step action = some (s', e)) : Drained s' := by
  intro hkilling hlive'
  have hbefore : s.manager.killing = true ∨ ∃ first created wake,
      action = .manager first created wake ∧ s.manager = .check ∧
        s.core.pool.waitTime ≤ s.time ∧ s'.core = s.core := by
    obtain hsame | ⟨first, created, wake, haction, hmanager⟩ := State.step_others hstep
    · rw [hsame] at hkilling
      exact .inl hkilling
    · obtain hkilling | hcheck := State.managerStep_killing hmanager hkilling
      · exact .inl hkilling
      · exact .inr ⟨first, created, wake, haction, hcheck⟩
  obtain hkilling | ⟨first, created, wake, rfl, hcheck, htime, hcore⟩ := hbefore
  · cases (State.step_core hstep).pool with
    | same hlive hexit hqueue =>
      rw [h hkilling (hlive ▸ hlive')] at hqueue
      exact List.suffix_nil.mp hqueue
    | request hrequests hlive hexit hqueue => rw [hqueue, h hkilling (hlive ▸ hlive')]
    | retire haction hworker hpos hlive hexit hqueue =>
      subst haction
      rw [hqueue]
      exact hok hkilling hworker hpos (by omega)
    | create hmanager hlive hexit hqueue =>
      rw [hmanager] at hkilling
      cases hkilling
    | push haction hlive hexit hqueue =>
      subst haction
      exact absurd (hlive ▸ hlive') (hok hkilling)
  · rw [hcore] at hlive' ⊢
    exact hok hcheck htime hlive'

theorem Run.drained (h : Run Drains minNum maxNum s trace) : Drained s := by
  induction h with
  | start => exact fun h => nomatch h
  | step h hok hstep ih => exact ih.step hok hstep

/-- A pool without a worker in its loop holds no task. -/
theorem held_eq_zero {c : Core Task} (h : c.inLoop = ∅) : c.held = 0 := by
  apply Finset.sum_eq_zero
  intro t ht
  have hleft : (c.worker t).inLoop ≠ true := Finset.filter_eq_empty_iff.mp h ht
  cases hworker : c.worker t <;> simp_all [Worker.inLoop, Worker.held]

/-- When the manager ends, all tasks pushed so far have been run. -/
theorem wait_strands_nothing {first : Bool} {created : Nat → Core.Created} {wake : Option Nat}
    {e : Option (Event Task)} (h : Run Drains minNum maxNum s trace)
    (hshutdown : s.core.pool.shutdown = false)
    (hstep : s.step (.manager first created wake) = some (s', e)) (hended : s'.manager = .ended) :
    (pushes trace : Multiset Task) = returns trace ∧ s'.core.pool.task_queue = [] := by
  obtain ⟨s₁, hmanager, heq⟩ := Option.map_eq_some_iff.mp hstep
  cases heq
  obtain ⟨hcore, htrue | ⟨hkill, hlive⟩⟩ := State.managerStep_ended hmanager hended
  · rw [hshutdown] at htrue
    cases htrue
  · have hqueue := h.drained (by rw [hkill]; rfl) hlive
    have hcard := ((h.running hshutdown).accounts fun s action hok =>
      noneLeaves_of_running action hok.2).live_eq
    have hempty : s.core.inLoop = ∅ := Finset.card_eq_zero.mp (by omega)
    refine ⟨?_, by rw [hcore, hqueue]⟩
    rw [(every_task_in_place h).1, hqueue, held_eq_zero hempty]
    simp

theorem wait_strands_nothing_one : ∃ (s' : State Nat) (trace : List (Event Nat)),
    pushes trace = [7] ∧ s'.manager = .ended ∧
      (pushes trace : Multiset Nat) = returns trace ∧ s'.core.pool.task_queue = [] := by
  obtain ⟨s, trace, hrun, hv⟩ := exists_run (fun (s : State Nat) action => Drains s action) 1 1
    (.wait 1 :: oneTask ++ [.worker 1 none] ++ List.replicate 7 (.manager true numbered none) ++
      [.manager true numbered (some 1), .worker 1 none])
    (fun s trace => (pushes trace, s.core.pool.shutdown,
      (s.step (.manager true numbered none)).map fun e => e.1.manager))
    ([7], false, some .ended) (by decide)
  simp only [Prod.mk.injEq] at hv
  obtain ⟨hpushes, hshutdown, hstep⟩ := hv
  obtain ⟨⟨s', e⟩, hstep, hended⟩ := Option.map_eq_some_iff.mp hstep
  exact ⟨s', trace, hpushes, hended, wait_strands_nothing hrun hshutdown hstep hended⟩

/-- A task is pushed after the manager's look at the queue and before its look at `busyNum`. -/
theorem wait_strands_task : ∃ (s : State Nat) (trace : List (Event Nat)),
    Run (fun _ _ => True) 2 5 s trace ∧ s.core.pool.shutdown = false ∧ s.manager = .ended ∧
      s.core.pool.waitTime = 1 ∧ s.core.pool.task_queue = [7] ∧ returns trace = [] := by
  obtain ⟨s, trace, hrun, hv⟩ := exists_run (fun (_ : State Nat) _ => True) 2 5
    (.wait 1 :: List.replicate 5 (.manager true numbered none) ++ [.push 7, .pushSignal none] ++
      List.replicate 3 (.manager true numbered none))
    (fun s trace => (s.core.pool.shutdown, s.manager, s.core.pool.waitTime,
      s.core.pool.task_queue, returns trace)) (false, .ended, 1, [7], []) (by decide)
  simp only [Prod.mk.injEq] at hv
  exact ⟨s, trace, hrun, hv⟩

end OJJudge.Pool
