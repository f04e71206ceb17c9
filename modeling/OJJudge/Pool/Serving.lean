import OJJudge.Pool.Timer

/-! A pool in service: it is not shut down, nobody waits for its end, and its threads can be
created.  Here is what its threads can do by themselves, whatever has happened so far. -/

namespace OJJudge.Pool

open Concurrency

variable {Task : Type}

/-- The steps of a pool in service. -/
def Serves : Action Task → Prop
  | .wait _ | .destructor _ => False
  | action => CreatesAll action

theorem Serves.creates {action : Action Task} (h : Serves action) : CreatesAll action := by
  cases action with
  | wait w => exact h.elim
  | destructor wake => exact h.elim
  | _ => exact h

theorem Serves.not_wait {action : Action Task} (h : Serves action) (w : Int) : action ≠ .wait w := by
  rintro rfl
  exact h

structure Serving (s : State Task) : Prop where
  slots : Slots s.core
  accounts : Accounts s.core
  maxNum : 0 < s.core.pool.maxNum
  shutdown : s.core.pool.shutdown = false
  waitTime : s.core.pool.waitTime = State.INT_MAX
  time : s.time < State.INT_MAX - 1
  manager : s.manager.kills = false

section Step

variable {s s' : State Task} {action : Action Task} {e : Option (Event Task)}

theorem State.managerStep_shutdown {first : Bool} {created : Nat → Core.Created}
    {wake : Option Nat} (h : s.managerStep first created wake = some s') :
    s'.core.pool.shutdown = s.core.pool.shutdown := by
  unfold managerStep at h
  split at h
  case h_6 =>
    obtain ⟨core, hcreate, rfl⟩ := Option.map_eq_some_iff.mp h
    exact Core.createAll_induct (I := fun c => c.pool.shutdown = s.core.pool.shutdown)
      (fun c i id hc _ _ _ _ => hc) (fun c i left hc _ _ _ => hc) rfl hcreate
  case h_12 | h_17 =>
    obtain ⟨core, hsignal, rfl⟩ := Option.map_eq_some_iff.mp h
    show core.pool.shutdown = s.core.pool.shutdown
    rw [Core.signal_pool hsignal]
  case h_18 => cases h
  all_goals
    cases h
    rfl

theorem Serves.step_shutdown (h : Serves action) (hstep : s.step action = some (s', e)) :
    s'.core.pool.shutdown = s.core.pool.shutdown := by
  cases State.step_steps hstep with
  | push task => rfl
  | @pushSignal wake core hsignals hsignal =>
    show core.pool.shutdown = s.core.pool.shutdown
    rw [Core.signal_pool hsignal]
  | worker hworker => exact (Core.workerStep_step hworker).sameBounds.shutdown
  | spurious hwaiting => rfl
  | manager hmanager => exact State.managerStep_shutdown hmanager
  | wait w => rfl
  | destructor hdestructor => exact h.elim

/-- The manager of a pool in service never begins its final loop. -/
theorem Serving.managerStep {first : Bool} {created : Nat → Core.Created} {wake : Option Nat}
    (h : Serving s) (hstep : s.managerStep first created wake = some s') :
    s'.time < State.INT_MAX - 1 ∧ s'.manager.kills = false := by
  constructor
  · cases State.managerStep_timer hstep with
    | tick hmanager hreading hnext htime =>
      rw [htime]
      split
      · exact Nat.mod_lt _ (by decide)
      · decide
    | check hmanager hreading hnext htime => exact htime ▸ h.time
    | other hcheck hreading hkills htime => exact htime ▸ h.time
  · have hkilling : s.manager.killing = false := by
      by_contra hkilling
      have hkills := Manager.kills_of_killing (by simpa using hkilling)
      rw [h.manager] at hkills
      cases hkills
    cases State.managerStep_final hstep with
    | before hnext => exact hnext
    | enter hmanager htime hnext hcore =>
      have hlt := h.time
      rw [h.waitTime] at htime
      omega
    | stay hbefore hnext =>
      rw [hkilling] at hbefore
      cases hbefore
    | finish hmanager hlive hnext hcore =>
      rw [hmanager] at hkilling
      cases hkilling
    | shutdown hshutdown hnext hcore =>
      rw [h.shutdown] at hshutdown
      cases hshutdown

theorem Serving.step (h : Serving s) (hserves : Serves action)
    (hstep : s.step action = some (s', e)) : Serving s' := by
  have hcore := State.step_core hstep
  have hstay := noneLeaves_of_running action h.shutdown
  have htimer : s'.time < State.INT_MAX - 1 ∧ s'.manager.kills = false := by
    cases State.step_steps hstep with
    | manager hmanager => exact h.managerStep hmanager
    | destructor hdestructor => exact hserves.elim
    | _ => exact ⟨h.time, h.manager⟩
  exact {
    slots := h.slots.step hcore hstay hserves.creates
    accounts := h.accounts.step hcore hstay
    maxNum := hcore.bounds.2.1 ▸ h.maxNum
    shutdown := (hserves.step_shutdown hstep).trans h.shutdown
    waitTime := (State.step_waitTime hstep hserves.not_wait).trans h.waitTime
    time := htimer.1
    manager := htimer.2 }

theorem Serving.worker {t : Nat} {wake : Option Nat} {core : Core Task} (h : Serving s)
    (hstep : s.core.workerStep t wake = some (core, e)) : Serving { s with core := core } :=
  h.step (show Serves (.worker t wake) from trivial) (by rw [State.step, hstep, Option.map_some])

end Step

/-- The run lemma. -/
theorem Run.serving {minNum maxNum : Nat} {s : State Task} {trace : List (Event Task)}
    (h : Run (fun _ action => Serves action) minNum maxNum s trace) (hmax : 1 ≤ maxNum) :
    Serving s := by
  induction h with
  | start =>
    have hstart : Run (fun _ _ => False) minNum maxNum (State.init Task minNum maxNum) [] := .start
    exact {
      slots := hstart.slots fun _ _ h => h.elim
      accounts := hstart.accounts fun _ _ h => h.elim
      maxNum := hmax
      shutdown := rfl
      waitTime := rfl
      time := show 0 < State.INT_MAX - 1 by decide
      manager := rfl }
  | step _ hserves hstep ih => exact ih.step hserves hstep

/-! ### Calls -/

section Calls

variable {s : State Task} {action : Action Task} {c c' : Core Task} {e : Option (Event Task)}
  {t u : Nat} {task : Task}

theorem Core.signal_calling {wake : Option Nat} (h : c.signal wake = some c')
    (hcalling : c.worker t = .calling task) : c'.worker t = .calling task := by
  obtain ⟨u, hwaiting, rfl⟩ | ⟨-, rfl⟩ := signal_cases h
  · have hne : t ≠ u := by
      rintro rfl
      rw [hcalling] at hwaiting
      cases hwaiting
    rw [worker_setWorker_ne _ _ _ hne, hcalling]
  · exact hcalling

theorem Core.WorkerStep.calling (h : c.WorkerStep u c' e) (hcalling : c.worker t = .calling task)
    (hu : t ≠ u) : c'.worker t = .calling task := by
  cases h with
  | signal hworker hsignal =>
    exact (worker_setWorker_ne _ _ _ hu).trans (signal_calling hsignal hcalling)
  | _ => exact (worker_setWorker_ne _ _ _ hu).trans hcalling

/-- Only its own steps end the call of a worker. -/
theorem State.CoreStep.calling (h : s.CoreStep action c' e)
    (hcalling : s.core.worker t = .calling task) (hother : ∀ wake, action ≠ .worker t wake) :
    c'.worker t = .calling task := by
  cases h with
  | signal hsignal => exact Core.signal_calling hsignal hcalling
  | pushSignal hsignals hsignal =>
    have hsame := Core.signal_calling hsignal hcalling
    exact hsame
  | create haction hmanager hcreate =>
    refine Core.createAll_induct (I := fun c => c.worker t = .calling task) ?_
      (fun c i left hc _ _ _ => hc) hcalling hcreate
    intro c i id hc _ _ _ hgone
    have hne : t ≠ id := by
      rintro rfl
      rw [hc] at hgone
      cases hgone
    exact (Function.update_of_ne hne _ _).trans hc
  | @worker u wake c' e haction hworker =>
    refine hworker.calling hcalling ?_
    rintro rfl
    exact hother wake haction
  | @spurious u hwaiting =>
    have hne : t ≠ u := by
      rintro rfl
      rw [hcalling] at hwaiting
      cases hwaiting
    exact (Core.worker_setWorker_ne _ _ _ hne).trans hcalling
  | _ => exact hcalling

end Calls

/-! ### What the pool's threads can do by themselves -/

/-- A step of the pool's own threads in which no call of a task returns. -/
def Own (s : State Task) : Action Task → Prop
  | .push _ => False
  | .worker t _ => ∀ task, s.core.worker t ≠ .calling task
  | action => Serves action

/-- The pool's threads lead from one state to another, with these events. -/
inductive Leads : State Task → State Task → List (Event Task) → Prop
  | refl (s : State Task) : Leads s s []
  | step {s s₁ s' : State Task} {action : Action Task} {e : Option (Event Task)}
      {events : List (Event Task)} (hown : Own s action) (hstep : s.step action = some (s₁, e))
      (h : Leads s₁ s' events) : Leads s s' (e.toList ++ events)

section Leads

variable {s s' : State Task} {action : Action Task} {e : Option (Event Task)}
  {events events' : List (Event Task)}

theorem Own.serves (h : Own s action) : Serves action := by
  cases action with
  | push task => exact h.elim
  | worker t wake => trivial
  | _ => exact h

theorem Own.quiet (h : Own s action) (hstep : s.step action = some (s', e)) :
    pushes e.toList = [] ∧ returns e.toList = [] := by
  cases State.step_steps hstep with
  | push task => exact h.elim
  | worker hworker =>
    cases Core.workerStep_step hworker with
    | finish hcalling => exact absurd hcalling (h _)
    | _ => exact ⟨rfl, rfl⟩
  | _ => exact ⟨rfl, rfl⟩

theorem Leads.trans {s₁ : State Task} (h : Leads s s₁ events) (h' : Leads s₁ s' events') :
    Leads s s' (events ++ events') := by
  induction h with
  | refl => exact h'
  | step hown hstep _ ih =>
    rw [List.append_assoc]
    exact .step hown hstep (ih h')

theorem Leads.serving (h : Leads s s' events) (hs : Serving s) : Serving s' := by
  induction h with
  | refl => exact hs
  | step hown hstep _ ih => exact ih (hs.step hown.serves hstep)

theorem Leads.quiet (h : Leads s s' events) : pushes events = [] ∧ returns events = [] := by
  induction h with
  | refl => exact ⟨rfl, rfl⟩
  | step hown hstep _ ih =>
    obtain ⟨hpushes, hreturns⟩ := hown.quiet hstep
    rw [pushes] at hpushes ih
    rw [returns] at hreturns ih
    rw [pushes, returns, List.filterMap_append, List.filterMap_append, hpushes, hreturns, ih.1, ih.2]
    exact ⟨rfl, rfl⟩

/-- The pool's threads lead to a state with the property. -/
def CanLead (s : State Task) (P : State Task → Prop) : Prop := ∃ s' events, Leads s s' events ∧ P s'

variable {P Q : State Task → Prop}

theorem CanLead.now (h : P s) : CanLead s P := ⟨s, [], .refl s, h⟩

theorem CanLead.step (hown : Own s action) (hstep : s.step action = some (s', e))
    (h : CanLead s' P) : CanLead s P := by
  obtain ⟨s'', events, hleads, hP⟩ := h
  exact ⟨s'', _, .step hown hstep hleads, hP⟩

theorem CanLead.bind (h : CanLead s P) (hnext : ∀ s', P s' → CanLead s' Q) : CanLead s Q := by
  obtain ⟨s₁, events, hleads, hP⟩ := h
  obtain ⟨s', events', hleads', hQ⟩ := hnext s₁ hP
  exact ⟨s', _, hleads.trans hleads', hQ⟩

end Leads

/-! ### Workers -/

section Workers

variable {s s' : State Task} {t : Nat} {task : Task} {P : State Task → Prop}

/-- A step of a worker outside of its call. -/
theorem CanLead.worker (t : Nat) (wake : Option Nat) {core : Core Task} {e : Option (Event Task)}
    (houtside : ∀ task, s.core.worker t ≠ .calling task)
    (hstep : s.core.workerStep t wake = some (core, e)) (h : CanLead { s with core := core } P) :
    CanLead s P :=
  CanLead.step (show Own s (.worker t wake) from houtside)
    (by rw [State.step, hstep, Option.map_some]) h

section WorkerStep

variable {c : Core Task} {wake : Option Nat}

theorem Core.workerStep_top (h : c.worker t = .top) :
    c.workerStep t wake = some (c.takeTask t) := by
  simp only [workerStep, h]

theorem Core.workerStep_woken (h : c.worker t = .woken) : c.workerStep t wake =
    some (if c.pool.exitNum > 0 then (c.retire t, none) else c.takeTask t) := by
  simp only [workerStep, h]

theorem Core.workerStep_popped (h : c.worker t = .popped task) : c.workerStep t wake =
    (c.signal wake).map fun c => (c.setWorker t (.signalled task), none) := by
  simp only [workerStep, h]

theorem Core.workerStep_signalled (h : c.worker t = .signalled task) :
    c.workerStep t wake = some ((c.addBusy 1).setWorker t (.counted task), none) := by
  simp only [workerStep, h]

theorem Core.workerStep_counted (h : c.worker t = .counted task) :
    c.workerStep t wake = some (c.setWorker t (.calling task), some (.called t task)) := by
  simp only [workerStep, h]

theorem Core.workerStep_returned (h : c.worker t = .returned) :
    c.workerStep t wake = some ((c.addBusy (-1)).setWorker t .top, none) := by
  simp only [workerStep, h]

theorem Core.workerStep_scan {i : Nat} (h : c.worker t = .scan i) : c.workerStep t wake =
    if i < c.pool.maxNum then
      some (c.setWorker t (if c.pool.threadID i = t then .clear i else .scan (i + 1)), none)
    else some (c.setWorker t .gone, none) := by
  simp only [workerStep, h]

theorem Core.workerStep_clear {i : Nat} (h : c.worker t = .clear i) :
    c.workerStep t wake = some ((c.setSlot i 0).setWorker t .gone, none) := by
  simp only [workerStep, h]

end WorkerStep

theorem Core.exists_signal (c : Core Task) : ∃ wake c', c.signal wake = some c' := by
  by_cases hwaiting : ∃ t ∈ c.threads, (c.worker t).isWaiting
  · obtain ⟨t, -, ht⟩ := hwaiting
    exact ⟨some t, c.setWorker t .woken, by rw [signal, if_pos ht]⟩
  · exact ⟨none, c, by rw [signal, if_neg hwaiting]⟩

theorem can_call_counted (h : s.core.worker t = .counted task) :
    CanLead s fun s' => s'.core.worker t = .calling task :=
  CanLead.worker t none (by simp [h]) (Core.workerStep_counted h)
    (.now (Core.worker_setWorker_same ..))

theorem can_call_signalled (h : s.core.worker t = .signalled task) :
    CanLead s fun s' => s'.core.worker t = .calling task :=
  CanLead.worker t none (by simp [h]) (Core.workerStep_signalled h)
    (can_call_counted (Core.worker_setWorker_same ..))

/-- A worker that holds a task comes to its call. -/
theorem can_call (h : task ∈ (s.core.worker t).held) :
    CanLead s fun s' => s'.core.worker t = .calling task := by
  cases hworker : s.core.worker t with
  | popped task' =>
    obtain rfl : task = task' := by simpa [hworker, Worker.held] using h
    obtain ⟨wake, core, hsignal⟩ := s.core.exists_signal
    have hstep : s.core.workerStep t wake = some (core.setWorker t (.signalled task), none) := by
      rw [Core.workerStep_popped hworker, hsignal, Option.map_some]
    exact CanLead.worker t wake (by simp [hworker]) hstep
      (can_call_signalled (Core.worker_setWorker_same ..))
  | signalled task' =>
    obtain rfl : task = task' := by simpa [hworker, Worker.held] using h
    exact can_call_signalled hworker
  | counted task' =>
    obtain rfl : task = task' := by simpa [hworker, Worker.held] using h
    exact can_call_counted hworker
  | calling task' =>
    obtain rfl : task = task' := by simpa [hworker, Worker.held] using h
    exact .now hworker
  | _ => simp [hworker, Worker.held] at h

/-- Some worker has just taken a task. -/
def HandsOut (s : State Task) : Prop := ∃ t task, s.core.worker t = .popped task

/-- A worker that is about to take a task finds one. -/
theorem Serving.can_pop (h : Serving s) (hready : s.core.Ready t)
    (hqueue : s.core.pool.task_queue ≠ []) : CanLead s HandsOut := by
  obtain ⟨task, rest, hqueue⟩ := List.exists_cons_of_ne_nil hqueue
  have htake : s.core.takeTask t =
      ({ s.core with pool := { s.core.pool with task_queue := rest } }.setWorker t (.popped task),
        some (.popped t task)) := by
    simp [Core.takeTask, h.shutdown, hqueue]
  have hstep : s.core.workerStep t none = some (s.core.takeTask t) := by
    obtain htop | ⟨hwoken, hexit⟩ := hready
    · exact Core.workerStep_top htop
    · rw [Core.workerStep_woken hwoken, if_neg (by omega)]
  refine CanLead.worker t none ?_ (hstep.trans (congrArg some htake))
    (.now ⟨t, task, Core.worker_setWorker_same ..⟩)
  obtain htop | ⟨hwoken, -⟩ := hready
  · simp [htop]
  · simp [hwoken]

/-- No worker holds a task. -/
def Core.Free (c : Core Task) : Prop := ∀ t, (c.worker t).held = 0

theorem Core.Free.setWorker {c : Core Task} {new : Worker Task} (h : c.Free) (hnew : new.held = 0) :
    (c.setWorker t new).Free := by
  intro u
  by_cases hu : u = t
  · rw [hu, Core.worker_setWorker_same, hnew]
  · rw [Core.worker_setWorker_ne c t new hu, h u]

/-! ### The end of a worker -/

/-- Worker `t` has ended, and nothing else has happened to the workers and the queue. -/
structure Ended (s : State Task) (t : Nat) (s' : State Task) : Prop where
  worker : s'.core.worker = Function.update s.core.worker t .gone
  threads : s'.core.threads = s.core.threads
  queue : s'.core.pool.task_queue = s.core.pool.task_queue

theorem Ended.of_setWorker {new : Worker Task} {c : Core Task}
    (hc : c = s.core.setWorker t new) (h : Ended { s with core := c } t s') : Ended s t s' := by
  subst hc
  exact ⟨h.worker.trans (Function.update_idem ..), h.threads, h.queue⟩

theorem can_end_clear {i : Nat} (h : s.core.worker t = .clear i) : CanLead s (Ended s t) :=
  CanLead.worker t none (by simp [h]) (Core.workerStep_clear h) (.now ⟨rfl, rfl, rfl⟩)

/-- A worker in `exitThread` ends. -/
theorem can_end_scan {i : Nat} (h : s.core.worker t = .scan i) : CanLead s (Ended s t) := by
  generalize hn : s.core.pool.maxNum - i = n
  induction n generalizing s i with
  | zero =>
    have hstep : s.core.workerStep t none = some (s.core.setWorker t .gone, none) := by
      rw [Core.workerStep_scan h, if_neg (by omega)]
    exact CanLead.worker t none (by simp [h]) hstep (.now ⟨rfl, rfl, rfl⟩)
  | succ n ih =>
    by_cases hslot : s.core.pool.threadID i = t
    · refine CanLead.worker t none (by simp [h])
        (by rw [Core.workerStep_scan h, if_pos (by omega), if_pos hslot]) ?_
      exact (can_end_clear (Core.worker_setWorker_same ..)).bind fun s' hs' =>
        .now (hs'.of_setWorker rfl)
    · refine CanLead.worker t none (by simp [h])
        (by rw [Core.workerStep_scan h, if_pos (by omega), if_neg hslot]) ?_
      refine (ih (i := i + 1) (Core.worker_setWorker_same ..) ?_).bind fun s' hs' =>
        .now (hs'.of_setWorker rfl)
      rw [Core.pool_setWorker]
      omega

/-- The pool has no thread. -/
def Core.Vacant (c : Core Task) : Prop := ∀ t, c.worker t = .gone

/-- When all workers have left their loops, all of them end. -/
theorem Serving.can_vacate (h : Serving s) (hleft : ∀ t, (s.core.worker t).inLoop = false) :
    CanLead s fun s' => s'.core.Vacant ∧ s'.core.pool.task_queue = s.core.pool.task_queue := by
  generalize hn : (s.core.threads.filter fun t => (s.core.worker t).exists?).card = n
  induction n generalizing s with
  | zero =>
    refine .now ⟨fun t => eq_gone ?_, rfl⟩
    by_contra hexists
    rw [Bool.not_eq_false] at hexists
    exact Finset.notMem_empty t (Finset.card_eq_zero.mp hn ▸
      Finset.mem_filter.mpr ⟨h.accounts.threads t hexists, hexists⟩)
  | succ n ih =>
    obtain ⟨t, ht⟩ := Finset.card_pos.mp (by rw [hn]; exact n.succ_pos)
    obtain ⟨hthread, hexists⟩ := Finset.mem_filter.mp ht
    have hend : CanLead s (Ended s t) := by
      have hout := hleft t
      cases hworker : s.core.worker t with
      | gone =>
        rw [hworker] at hexists
        cases hexists
      | scan i => exact can_end_scan hworker
      | clear i => exact can_end_clear hworker
      | _ =>
        rw [hworker] at hout
        cases hout
    obtain ⟨s₁, events, hleads, hended⟩ := hend
    have hleft₁ : ∀ u, (s₁.core.worker u).inLoop = false := by
      intro u
      rw [hended.worker, Function.update_apply]
      split
      · rfl
      · exact hleft u
    have hcard : (s₁.core.threads.filter fun u => (s₁.core.worker u).exists?).card = n := by
      have herase : (s₁.core.threads.filter fun u => (s₁.core.worker u).exists?) =
          (s.core.threads.filter fun u => (s.core.worker u).exists?).erase t := by
        ext u
        rw [Finset.mem_erase, Finset.mem_filter, Finset.mem_filter, hended.threads, hended.worker,
          Function.update_apply]
        by_cases hu : u = t
        · simp [hu, Worker.exists?]
        · simp [hu]
      rw [herase, Finset.card_erase_of_mem ht, hn, Nat.add_sub_cancel]
    obtain ⟨s', events', hleads', hvacant, hqueue⟩ := ih (hleads.serving h) hleft₁ hcard
    exact ⟨s', _, hleads.trans hleads', hvacant, hqueue.trans hended.queue⟩

end Workers

end OJJudge.Pool
