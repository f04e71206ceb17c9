import OJJudge.Pool.Serving

/-! The supply of workers: when no thread of the pool is left, its manager comes to create new ones.
So a queued task can always be handed to a worker. -/

namespace OJJudge.Pool

open Concurrency

variable {Task : Type}

/-! ### The way of the manager to a creation -/

/-- How far the manager is from the creation of workers, when the pool has no thread and `length`
tasks are queued. -/
def Manager.rank (length : Nat) : Manager → Nat
  | create => 0
  | growLiveNum => 1
  | grow => 3
  | top => 4
  | check => 5
  | tick => 6
  | shrinkMin _ => 7
  | shrinkLiveNum _ _ | shrinkBusyNum _ _ => 8
  | shrink _ => 9
  | shrinkSignal => 10
  | shrinkExit => 11
  -- These compare what has been read before.
  | growSize busyNum => if State.lessTasks busyNum length then 2 else 12
  | growBusyNum size => if State.lessTasks 0 size then 2 else 12
  | kill | killExit | killSignal | ended => 0

/-- The pool has no thread, and tasks are queued. -/
structure Waits (s : State Task) : Prop where
  serving : Serving s
  vacant : s.core.Vacant
  queue : s.core.pool.task_queue ≠ []

section Waits

variable {s s' : State Task}

namespace Waits

theorem liveNum (h : Waits s) : s.core.pool.liveNum = 0 := by
  rw [h.serving.accounts.live_eq, Core.inLoop, Finset.filter_false_of_mem]
  · rfl
  · intro t _
    simp [h.vacant t, Worker.inLoop]

theorem busyNum (h : Waits s) : s.core.pool.busyNum = 0 := by
  rw [h.serving.accounts.busy_eq, Core.isBusy, Finset.filter_false_of_mem]
  · rfl
  · intro t _
    simp [h.vacant t, Worker.isBusy]

theorem signal (h : Waits s) : s.core.signal none = some s.core := by
  rw [Core.signal, if_neg]
  rintro ⟨t, -, ht⟩
  rw [h.vacant t] at ht
  cases ht

theorem lessTasks (h : Waits s) : State.lessTasks 0 s.core.pool.task_queue.length = true := by
  have hlength := List.length_pos_iff.mpr h.queue
  simpa [State.lessTasks] using hlength

/-- After a step of the manager that creates nothing. -/
theorem manager (h : Waits s) {action : Action Task} {e : Option (Event Task)}
    (hserves : Serves action) (hstep : s.step action = some (s', e))
    (hworker : s'.core.worker = s.core.worker)
    (hqueue : s'.core.pool.task_queue = s.core.pool.task_queue) : Waits s' :=
  ⟨h.serving.step hserves hstep, fun t => by rw [hworker, h.vacant t], hqueue ▸ h.queue⟩

/-- The manager comes nearer to a creation. -/
theorem nearer (h : Waits s) (hcreate : s.manager ≠ .create) :
    ∃ s', s.managerStep true numbered none = some s' ∧ s'.core.worker = s.core.worker ∧
      s'.core.pool.task_queue = s.core.pool.task_queue ∧
      s'.manager.rank s.core.pool.task_queue.length <
        s.manager.rank s.core.pool.task_queue.length := by
  have hlive := h.liveNum
  have hbusy := h.busyNum
  have hless := h.lessTasks
  have hshutdown := h.serving.shutdown
  have hkills := h.serving.manager
  have hpos := h.serving.maxNum
  cases hmanager : s.manager with
  | create => exact absurd hmanager hcreate
  | top => simp [State.managerStep, hmanager, State.setManager, hshutdown, Manager.rank]
  | grow => simp [State.managerStep, hmanager, State.setManager, hbusy, hless, Manager.rank]
  | growSize busyNum =>
    by_cases hcond : State.lessTasks busyNum s.core.pool.task_queue.length = true
    · simp [State.managerStep, hmanager, State.setManager, hcond, Manager.rank]
    · simp [State.managerStep, hmanager, State.setManager, hcond, Manager.rank]
  | growBusyNum size =>
    by_cases hcond : State.lessTasks 0 size = true
    · simp [State.managerStep, hmanager, State.setManager, hbusy, hcond, Manager.rank]
    · simp [State.managerStep, hmanager, State.setManager, hbusy, hcond, Manager.rank]
  | growLiveNum => simp [State.managerStep, hmanager, State.setManager, hlive, hpos, Manager.rank]
  | shrink again => simp [State.managerStep, hmanager, State.setManager, Manager.rank]
  | shrinkLiveNum again busyNum =>
    simp only [State.managerStep, hmanager, State.shrinkBranch, Option.some.injEq, exists_eq_left']
    refine ⟨rfl, rfl, ?_⟩
    simp only [State.setManager]
    split <;> simp [Manager.rank]
  | shrinkBusyNum again liveNum =>
    simp only [State.managerStep, hmanager, State.shrinkBranch, Option.some.injEq, exists_eq_left']
    refine ⟨rfl, rfl, ?_⟩
    simp only [State.setManager]
    split <;> simp [Manager.rank]
  | shrinkMin again =>
    have hmin : ¬s.core.pool.liveNum > s.core.pool.minNum := by omega
    simp [State.managerStep, hmanager, State.setManager, hmin, Manager.rank]
  | shrinkExit => simp [State.managerStep, hmanager, Core.requestExit, Manager.rank]
  | shrinkSignal => simp [State.managerStep, hmanager, h.signal, Manager.rank]
  | tick => simp [State.managerStep, hmanager, Manager.rank]
  | check =>
    have htime : ¬s.core.pool.waitTime ≤ (s.time : Int) := by
      have hlt := h.serving.time
      rw [h.serving.waitTime]
      omega
    simp [State.managerStep, hmanager, State.setManager, htime, Manager.rank]
  | _ =>
    rw [hmanager] at hkills
    cases hkills

/-- The manager comes to create workers. -/
theorem can_create (h : Waits s) : CanLead s fun s' => Waits s' ∧ s'.manager = .create := by
  generalize hn : s.manager.rank s.core.pool.task_queue.length = n
  induction n using Nat.strong_induction_on generalizing s with
  | _ n ih =>
    by_cases hcreate : s.manager = .create
    · exact .now ⟨h, hcreate⟩
    · obtain ⟨s', hmanager, hworker, hqueue, hrank⟩ := h.nearer hcreate
      have hserves : Serves (.manager true numbered none : Action Task) :=
        fun i => ⟨i + 1, rfl⟩
      have hstep : s.step (.manager true numbered none) = some (s', none) := by
        rw [State.step, hmanager, Option.map_some]
      exact CanLead.step (show Own s (.manager true numbered none) from hserves) hstep
        (ih _ (by rw [hqueue, ← hn]; exact hrank) (h.manager hserves hstep hworker hqueue) rfl)

end Waits

/-- The loop that creates workers in free slots, with new ids. -/
theorem Core.createFrom_numbered (n i : Nat) (c : Core Task)
    (hslots : ∀ j, i ≤ j → j < i + n → c.pool.threadID j = 0)
    (hgone : ∀ id, i < id → c.worker id = .gone) :
    ∃ c', createFrom numbered n i c = some c' ∧ c'.pool.task_queue = c.pool.task_queue ∧
      (∀ id, id ≤ i → c'.worker id = c.worker id) ∧ (0 < n → c'.worker (i + 1) = .top) := by
  induction n generalizing i c with
  | zero => exact ⟨c, rfl, rfl, fun _ _ => rfl, fun h => absurd h (Nat.lt_irrefl 0)⟩
  | succ n ih =>
    have hslot : c.pool.threadID i = 0 := hslots i le_rfl (by omega)
    have hnew : ¬(i + 1 = 0 ∨ (c.worker (i + 1)).exists? = true) := by
      rw [hgone (i + 1) (Nat.lt_succ_self i)]
      simp [Worker.exists?]
    obtain ⟨c', hcreate, hqueue, hsame, -⟩ := ih (i + 1) (c.addWorker i (i + 1))
      (fun j hj hjn => by
        show Function.update c.pool.threadID i (i + 1) j = 0
        rw [Function.update_of_ne (by omega)]
        exact hslots j (by omega) (by omega))
      (fun id hid => by
        show Function.update c.worker (i + 1) .top id = .gone
        rw [Function.update_of_ne (by omega)]
        exact hgone id (by omega))
    refine ⟨c', ?_, hqueue, fun id hid => ?_, fun _ => ?_⟩
    · rw [createFrom, if_pos hslot, numbered]
      exact (if_neg hnew).trans hcreate
    · rw [hsame id (by omega)]
      exact Function.update_of_ne (by omega) _ _
    · rw [hsame (i + 1) le_rfl]
      exact Function.update_self ..

/-- A pool without threads creates workers, and one of them takes a task. -/
theorem Waits.can_hand_out (h : Waits s) : CanLead s HandsOut := by
  refine h.can_create.bind fun s ⟨h, hmanager⟩ => ?_
  have hslots : ∀ j, 0 ≤ j → j < 0 + s.core.pool.maxNum → s.core.pool.threadID j = 0 := by
    intro j _ hj
    by_contra hne
    have howner := h.serving.slots.owner j (by omega) hne
    rw [h.vacant] at howner
    cases howner
  obtain ⟨core, hcreate, hqueue, -, htop⟩ :=
    s.core.createFrom_numbered s.core.pool.maxNum 0 hslots fun id _ => h.vacant id
  have hserves : Serves (.manager true numbered none : Action Task) := fun i => ⟨i + 1, rfl⟩
  have hstep : s.step (.manager true numbered none) =
      some ({ s with core := core, manager := .shrink false }, none) := by
    simp only [State.step, State.managerStep, hmanager, Core.createAll, hcreate, Option.map_some]
  refine CanLead.step (show Own s (.manager true numbered none) from hserves) hstep ?_
  exact (h.serving.step hserves hstep).can_pop (.inl (htop h.serving.maxNum)) (hqueue ▸ h.queue)

end Waits

/-! ### Queued tasks -/

section HandOut

variable {s : State Task}

/-- When no worker holds a task, the pool's threads can hand out a queued one. -/
theorem Serving.can_hand_out (h : Serving s) (hfree : s.core.Free)
    (hqueue : s.core.pool.task_queue ≠ []) : CanLead s HandsOut := by
  -- The induction is on `liveNum`, which a worker that retires decrements.
  generalize hn : s.core.pool.liveNum = n
  have hnat : ∃ k : Nat, (k : Int) = n := ⟨s.core.inLoop.card, by rw [← hn, h.accounts.live_eq]⟩
  obtain ⟨k, rfl⟩ := hnat
  induction k generalizing s with
  | zero =>
    have hleft : ∀ t, (s.core.worker t).inLoop = false := by
      intro t
      by_contra hin
      rw [Bool.not_eq_false] at hin
      have hmem : t ∈ s.core.inLoop := Finset.mem_filter.mpr
        ⟨h.accounts.threads t (Worker.exists_of_inLoop hin), hin⟩
      have hpos := Finset.card_pos.mpr ⟨t, hmem⟩
      rw [h.accounts.live_eq] at hn
      omega
    obtain ⟨s', events, hleads, hvacant, hsame⟩ := h.can_vacate hleft
    have hwaits : Waits s' := ⟨hleads.serving h, hvacant, hsame ▸ hqueue⟩
    obtain ⟨s'', events', hleads', hout⟩ := hwaits.can_hand_out
    exact ⟨s'', _, hleads.trans hleads', hout⟩
  | succ k ih =>
    obtain ⟨t, ht⟩ : s.core.inLoop.Nonempty := by
      rw [← Finset.card_pos]
      rw [h.accounts.live_eq] at hn
      omega
    have hin := (Finset.mem_filter.mp ht).2
    have hwoken : ∀ {s : State Task}, Serving s → s.core.Free → s.core.pool.task_queue ≠ [] →
        s.core.pool.liveNum = (k + 1 : Nat) → s.core.worker t = .woken → CanLead s HandsOut := by
      intro s h hfree hqueue hn hworker
      by_cases hexit : 0 < s.core.pool.exitNum
      · have hstep : s.core.workerStep t none = some (s.core.retire t, none) := by
          rw [Core.workerStep_woken hworker, if_pos hexit]
        have hserving := h.worker hstep
        refine CanLead.worker t none (by simp [hworker]) hstep
          (ih hserving (hfree.setWorker rfl) hqueue ?_)
        show s.core.pool.liveNum - 1 = k
        omega
      · exact h.can_pop (.inr ⟨hworker, by omega⟩) hqueue
    have hheld := hfree t
    cases hworker : s.core.worker t with
    | top => exact h.can_pop (.inl hworker) hqueue
    | woken => exact hwoken h hfree hqueue hn hworker
    | waiting =>
      have hstep : s.step (.spurious t) =
          some ({ s with core := s.core.setWorker t .woken }, none) := by
        rw [State.step, hworker]
        rfl
      exact CanLead.step (show Own s (.spurious t) from trivial) hstep
        (hwoken (h.step (show Serves (.spurious t) from trivial) hstep) (hfree.setWorker rfl) hqueue
          hn (Core.worker_setWorker_same ..))
    | returned =>
      have hstep : s.core.workerStep t none = some ((s.core.addBusy (-1)).setWorker t .top, none) :=
        Core.workerStep_returned hworker
      exact CanLead.worker t none (by simp [hworker]) hstep
        ((h.worker hstep).can_pop (.inl (Core.worker_setWorker_same ..)) hqueue)
    | popped task | signalled task | counted task | calling task =>
      rw [hworker] at hheld
      exact absurd hheld (Multiset.singleton_ne_zero task)
    | gone | scan i | clear i =>
      rw [hworker] at hin
      cases hin

end HandOut

end OJJudge.Pool
