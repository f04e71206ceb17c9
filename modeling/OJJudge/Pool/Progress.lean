import OJJudge.Pool.Slots

/-! A pool with queued tasks does not get stuck.  A wake-up can be spent on a worker that retires,
but then a slot is free, so that the manager can create a worker. -/

namespace OJJudge.Pool

open Concurrency

variable {Task : Type}

/-- The worker is in its loop, and not blocked. -/
def Worker.awake : Worker Task → Bool
  | waiting => false
  | worker => worker.inLoop

/-- Some worker is awake, some push has yet to signal, or the pool can grow. -/
def Lively (c : Core Task) : Prop :=
  (∃ t, (c.worker t).awake = true) ∨ 0 < c.signals ∨ c.pool.liveNum < c.pool.maxNum

/-- Queued tasks are noticed. -/
def NotStuck (c : Core Task) : Prop := c.pool.task_queue ≠ [] → Lively c

namespace NotStuck

variable {c c' : Core Task} {t : Nat}

theorem of_awake {new : Worker Task} (hnew : new.awake = true) : NotStuck (c.setWorker t new) :=
  fun _ => .inl ⟨t, by rw [Core.worker_setWorker_same, hnew]⟩

/-- A step of a thread that has left its loop. -/
theorem of_left (h : NotStuck c) {pool : ThreadPool Task} {new : Worker Task}
    (hleft : (c.worker t).inLoop = false) (hqueue : pool.task_queue = c.pool.task_queue)
    (hliveNum : pool.liveNum = c.pool.liveNum) (hmaxNum : pool.maxNum = c.pool.maxNum) :
    NotStuck ({ c with pool := pool }.setWorker t new) := by
  intro hne
  obtain ⟨u, hu⟩ | hsignals | hlive := h (hqueue ▸ hne)
  · refine .inl ⟨u, ?_⟩
    have hut : u ≠ t := by
      rintro rfl
      cases hworker : c.worker u <;> simp_all [Worker.inLoop, Worker.awake]
    rw [Core.worker_setWorker_ne _ t new hut]
    exact hu
  · exact .inr (.inl hsignals)
  · refine .inr (.inr ?_)
    show pool.liveNum < pool.maxNum
    rw [hliveNum, hmaxNum]
    exact hlive

/-- After a signal that found no blocked worker, either some worker is awake or there is none. -/
theorem pushSignal (haccounts : Accounts c) (hmax : 0 < c.pool.maxNum) {wake : Option Nat}
    (hsignal : c.signal wake = some c') (signals : Nat) :
    NotStuck { c' with signals := signals } := by
  obtain ⟨t, -, rfl⟩ | ⟨hnone, rfl⟩ := Core.signal_cases hsignal
  · exact fun _ => .inl ⟨t, by rw [show _ = _ from Core.worker_setWorker_same ..]; rfl⟩
  · intro _
    by_cases hex : ∃ t, (c'.worker t).inLoop = true
    · obtain ⟨t, ht⟩ := hex
      refine .inl ⟨t, ?_⟩
      have hwaiting := hnone t (haccounts.threads t (Worker.exists_of_inLoop ht))
      show (c'.worker t).awake = true
      cases hworker : c'.worker t <;> simp_all [Worker.inLoop, Worker.awake, Worker.isWaiting]
    · have hempty : c'.inLoop = ∅ :=
        Finset.filter_false_of_mem fun t _ ht => hex ⟨t, ht⟩
      have hlive := haccounts.live_eq
      rw [hempty, Finset.card_empty] at hlive
      exact .inr (.inr (show c'.pool.liveNum < c'.pool.maxNum by omega))

theorem workerStep (h : NotStuck c) (haccounts : Accounts c) (hslots : Slots c)
    {e : Option (Event Task)} (hstep : c.WorkerStep t c' e) (hstay : ¬c.Leaves t) :
    NotStuck c' := by
  cases hstep with
  | wait hready hqueue => exact fun hne => absurd hqueue hne
  | leave hready hshutdown => exact absurd ⟨hready, hshutdown⟩ hstay
  | pop hready hshutdown hqueue => exact of_awake rfl
  | retire hworker hexit =>
    intro _
    have hlive := haccounts.live_eq
    have hslotsLive := hslots.inLoop_card_le
    exact .inr (.inr (show c.pool.liveNum - 1 < c.pool.maxNum by omega))
  | signal hworker hsignal => exact of_awake rfl
  | count hworker => exact of_awake rfl
  | call hworker => exact of_awake rfl
  | finish hworker => exact of_awake rfl
  | uncount hworker => exact of_awake rfl
  | find hworker hi hslot => exact h.of_left (by rw [hworker]; rfl) rfl rfl rfl
  | look hworker hi hslot => exact h.of_left (by rw [hworker]; rfl) rfl rfl rfl
  | miss hworker hi => exact h.of_left (by rw [hworker]; rfl) rfl rfl rfl
  | clear hworker => exact h.of_left (by rw [hworker]; rfl) rfl rfl rfl

theorem step {s : State Task} (h : NotStuck s.core) (haccounts : Accounts s.core)
    (hslots : Slots s.core) (hmax : 0 < s.core.pool.maxNum) {action : Action Task}
    {e : Option (Event Task)} (hstep : s.CoreStep action c' e) (hok : NoneLeaves s action) :
    NotStuck c' := by
  cases hstep with
  | stay => exact h
  | requestExit hrequests => exact h
  | setWaitTime w => exact h
  | shutdown => exact h
  | signal hsignal =>
    obtain ⟨t, -, rfl⟩ | ⟨-, rfl⟩ := Core.signal_cases hsignal
    · exact of_awake rfl
    · exact h
  | create haction hmanager hcreate =>
    apply Core.createAll_induct ?_ ?_ h hcreate
    · intro c i id _ _ _ _ _ _
      exact .inl ⟨id, by simp [Core.addWorker]; rfl⟩
    · intro c i left hc _ _ _
      exact hc
  | push haction => exact fun _ => .inr (.inl (Nat.succ_pos _))
  | pushSignal hsignals hsignal => exact pushSignal haccounts hmax hsignal _
  | worker haction hworker =>
    subst haction
    exact h.workerStep haccounts hslots hworker hok
  | spurious hworker => exact of_awake rfl

end NotStuck

section Run

variable {minNum maxNum : Nat} {s : State Task} {trace : List (Event Task)}

theorem Run.notStuck (h : Run (fun s action => CreatesAll action ∧ s.core.pool.shutdown = false)
    minNum maxNum s trace) (hmax : 1 ≤ maxNum) : NotStuck s.core := by
  induction h with
  | start => exact fun hne => absurd rfl hne
  | @step s s' trace action e h hok hstep ih =>
    have hstay : ∀ (s : State Task) (action : Action Task),
        CreatesAll action ∧ s.core.pool.shutdown = false → NoneLeaves s action :=
      fun s action hok => noneLeaves_of_running action hok.2
    have hslots := h.slots fun s action hok => ⟨hstay s action hok, hok.1⟩
    have hpos : 0 < s.core.pool.maxNum := by
      rw [h.maxNum_eq]
      exact hmax
    exact ih.step (h.accounts hstay) hslots hpos (State.step_core hstep) (hstay s action hok)

/-- While tasks are queued, a worker is awake, or a push has yet to signal, or the manager's
condition to grow holds. -/
theorem queued_work_is_noticed
    (h : Run (fun _ action => CreatesAll action) minNum maxNum s trace) (hmax : 1 ≤ maxNum)
    (hshutdown : s.core.pool.shutdown = false) (hqueue : s.core.pool.task_queue ≠ []) :
    (∃ t, (s.core.worker t).inLoop = true ∧ s.core.worker t ≠ .waiting) ∨ 0 < s.core.signals ∨
      (State.lessTasks s.core.pool.busyNum s.core.pool.task_queue.length = true ∧
        s.core.pool.liveNum < s.core.pool.maxNum) := by
  have hrun := h.running hshutdown
  have haccounts := hrun.accounts fun s action hok => noneLeaves_of_running action hok.2
  by_cases hawake : ∃ t, (s.core.worker t).awake = true
  · obtain ⟨t, ht⟩ := hawake
    refine .inl ⟨t, ?_⟩
    cases hworker : s.core.worker t <;> simp_all [Worker.awake, Worker.inLoop]
  · obtain hex | hsignals | hlive := hrun.notStuck hmax hqueue
    · exact absurd hex hawake
    · exact .inr (.inl hsignals)
    · refine .inr (.inr ⟨?_, hlive⟩)
      have hidle : s.core.isBusy = ∅ := by
        apply Finset.filter_false_of_mem
        intro t _ hbusy
        refine hawake ⟨t, ?_⟩
        cases hworker : s.core.worker t <;> simp_all [Worker.awake, Worker.inLoop, Worker.isBusy]
      have hbusyNum := haccounts.busy_eq
      rw [hidle, Finset.card_empty] at hbusyNum
      have hlength := List.length_pos_iff.mpr hqueue
      rw [hbusyNum, State.lessTasks]
      simpa using hlength

end Run

theorem queued_work_is_noticed_no_worker : ∃ s : State Nat, s.core.threads = ∅ ∧
    s.core.signals = 0 ∧
      ((∃ t, (s.core.worker t).inLoop = true ∧ s.core.worker t ≠ .waiting) ∨ 0 < s.core.signals ∨
        (State.lessTasks s.core.pool.busyNum s.core.pool.task_queue.length = true ∧
          s.core.pool.liveNum < s.core.pool.maxNum)) := by
  obtain ⟨s, trace, hrun, hv⟩ := exists_run_of_actions CreatesAll 2 5
    [.push 7, .pushSignal none] (by simp [CreatesAll])
    (fun s _ => (s.core.threads, s.core.signals, s.core.pool.shutdown, s.core.pool.task_queue))
    (∅, 0, false, [7]) (by decide)
  simp only [Prod.mk.injEq] at hv
  obtain ⟨hthreads, hsignals, hshutdown, hqueue⟩ := hv
  exact ⟨s, hthreads, hsignals, queued_work_is_noticed hrun (by decide) hshutdown (by simp [hqueue])⟩

end OJJudge.Pool
