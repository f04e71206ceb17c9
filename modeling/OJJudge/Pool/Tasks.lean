import Mathlib.Algebra.Order.BigOperators.Group.Multiset
import Mathlib.Algebra.Order.BigOperators.Group.Finset
import OJJudge.Pool.Steps

/-! Where the tasks of a pool are: in the queue, with one worker each, or done. -/

namespace OJJudge.Pool

open Concurrency

variable {Task : Type}

/-! ### The events of a run -/

/-- The tasks pushed, in order. -/
def pushes (trace : List (Event Task)) : List Task :=
  trace.filterMap fun | .pushed task => some task | _ => none

/-- The tasks popped, in order. -/
def pops (trace : List (Event Task)) : List Task :=
  trace.filterMap fun | .popped _ task => some task | _ => none

/-- The tasks whose functions have been called. -/
def calls (trace : List (Event Task)) : List Task :=
  trace.filterMap fun | .called _ task => some task | _ => none

/-- The tasks whose functions have returned. -/
def returns (trace : List (Event Task)) : List Task :=
  trace.filterMap fun | .returned _ task => some task | _ => none

/-- The task that a worker holds, from the section that pops it until its function has returned. -/
def Worker.held : Worker Task → Multiset Task
  | popped task | signalled task | counted task | calling task => {task}
  | _ => 0

/-- The task whose function a worker is running. -/
def Worker.running : Worker Task → Multiset Task
  | calling task => {task}
  | _ => 0

theorem Core.Ready.idle {c : Core Task} {t : Nat} (h : c.Ready t) :
    (c.worker t).exists? = true ∧ (c.worker t).held = 0 ∧ (c.worker t).running = 0 := by
  obtain h | ⟨h, -⟩ := h
  · rw [h]
    exact ⟨rfl, rfl, rfl⟩
  · rw [h]
    exact ⟨rfl, rfl, rfl⟩

/-- The tasks that the workers hold, each of them at most one. -/
def Core.held (c : Core Task) : Multiset Task := total Worker.held c.threads c.worker

/-- The tasks whose functions the workers are running. -/
def Core.running (c : Core Task) : Multiset Task := total Worker.running c.threads c.worker

theorem Core.running_le_held (c : Core Task) : c.running ≤ c.held := by
  apply Finset.sum_le_sum
  intro t _
  cases c.worker t with
  | calling task => exact le_rfl
  | _ => exact Multiset.zero_le _

/-! ### The invariant -/

/-- The place of every task. -/
structure Custody (c : Core Task) (trace : List (Event Task)) : Prop where
  /-- A thread that exists has been created. -/
  threads : ∀ t, (c.worker t).exists? = true → t ∈ c.threads
  order : pushes trace = pops trace ++ c.pool.task_queue
  popped : (pops trace : Multiset Task) = c.held + returns trace
  called : (calls trace : Multiset Task) = c.running + returns trace
  nonempty : ∀ t, Event.emptyFront t ∉ trace

namespace Custody

variable {c c' : Core Task} {trace events : List (Event Task)} {t : Nat} {worker : Worker Task}

/-- The rule for a step: what comes into the queue, into the hands of the workers and into their
calls is what is added there or goes on. -/
theorem next (h : Custody c trace)
    (hthreads : ∀ t, (c'.worker t).exists? = true → t ∈ c'.threads)
    (hqueue : c.pool.task_queue ++ pushes events = pops events ++ c'.pool.task_queue)
    (hheld : c.held + pops events = c'.held + returns events)
    (hrunning : c.running + calls events = c'.running + returns events)
    (hnonempty : ∀ t, Event.emptyFront t ∉ events) : Custody c' (trace ++ events) where
  threads := hthreads
  order := by
    have horder := h.order
    simp only [pushes, pops, List.filterMap_append] at horder hqueue ⊢
    rw [horder, List.append_assoc, List.append_assoc, hqueue]
  popped := by
    have hpopped := h.popped
    simp only [pops, returns, List.filterMap_append, ← Multiset.coe_add] at hpopped hheld ⊢
    rw [hpopped, add_right_comm, hheld, add_right_comm, add_assoc]
  called := by
    have hcalled := h.called
    simp only [calls, returns, List.filterMap_append, ← Multiset.coe_add] at hcalled hrunning ⊢
    rw [hcalled, add_right_comm, hrunning, add_right_comm, add_assoc]
  nonempty t := by
    rw [List.mem_append, not_or]
    exact ⟨h.nonempty t, hnonempty t⟩

/-- A thread that takes a step exists before it, so that it has been created. -/
theorem threads_setWorker (h : Custody c trace) (hexists : (c.worker t).exists? = true) (u : Nat)
    (hu : ((c.setWorker t worker).worker u).exists? = true) : u ∈ c.threads := by
  by_cases hut : u = t
  · exact hut ▸ h.threads t hexists
  · rw [Core.worker_setWorker_ne c t worker hut] at hu
    exact h.threads u hu

/-- A step of one thread. -/
theorem setWorker (h : Custody c trace) (pool : ThreadPool Task) (new : Worker Task)
    {old : Worker Task} (hworker : c.worker t = old) (hexists : old.exists? = true)
    (hqueue : c.pool.task_queue ++ pushes events = pops events ++ pool.task_queue)
    (hheld : old.held + pops events = new.held + returns events)
    (hrunning : old.running + calls events = new.running + returns events)
    (hnonempty : ∀ t, Event.emptyFront t ∉ events) :
    Custody ({ c with pool := pool }.setWorker t new) (trace ++ events) := by
  subst hworker
  have ht := h.threads t hexists
  exact h.next (h.threads_setWorker hexists) hqueue (total_step ht hheld) (total_step ht hrunning)
    hnonempty

/-- A step of one thread without an event. -/
theorem move (h : Custody c trace) (pool : ThreadPool Task) (new : Worker Task)
    {old : Worker Task} (hworker : c.worker t = old) (hexists : old.exists? = true)
    (hqueue : c.pool.task_queue = pool.task_queue) (hheld : old.held = new.held)
    (hrunning : old.running = new.running) :
    Custody ({ c with pool := pool }.setWorker t new) (trace ++ []) := by
  apply h.setWorker pool new hworker hexists
  · simpa [pushes, pops] using hqueue
  · simpa [pops, returns] using hheld
  · simpa [calls, returns] using hrunning
  · simp

theorem signal (h : Custody c trace) {wake : Option Nat} (hsignal : c.signal wake = some c') :
    Custody c' trace := by
  obtain ⟨t, hwaiting, rfl⟩ | ⟨-, rfl⟩ := Core.signal_cases hsignal
  · rw [← List.append_nil trace]
    exact h.move c.pool .woken hwaiting rfl rfl rfl rfl
  · exact h

theorem workerStep (h : Custody c trace) {e : Option (Event Task)} (hstep : c.WorkerStep t c' e) :
    Custody c' (trace ++ e.toList) := by
  cases hstep with
  | wait hready hqueue =>
    obtain ⟨hexists, hheld, hrunning⟩ := hready.idle
    exact h.move c.pool .waiting rfl hexists rfl hheld hrunning
  | leave hready hshutdown =>
    obtain ⟨hexists, hheld, hrunning⟩ := hready.idle
    exact h.move c.pool .gone rfl hexists rfl hheld hrunning
  | @pop task rest hready hshutdown hqueue =>
    obtain ⟨hexists, hheld, hrunning⟩ := hready.idle
    apply h.setWorker { c.pool with task_queue := rest } (.popped task) rfl hexists
    · simp [pushes, pops, hqueue]
    · rw [hheld]
      rfl
    · rw [hrunning]
      rfl
    · simp
  | retire hworker hexit => exact h.move _ (.scan 0) hworker rfl rfl rfl rfl
  | @signal task wake c₁ hworker hsignal =>
    exact (h.signal hsignal).move c₁.pool (.signalled task) (Core.signal_popped hsignal hworker)
      rfl rfl rfl rfl
  | @count task hworker => exact h.move _ (.counted task) hworker rfl rfl rfl rfl
  | @call task hworker =>
    apply h.setWorker c.pool (.calling task) hworker rfl
    · simp [pushes, pops]
    · rfl
    · rfl
    · simp
  | finish hworker =>
    apply h.setWorker c.pool .returned hworker rfl
    · simp [pushes, pops]
    · rfl
    · rfl
    · simp
  | uncount hworker => exact h.move _ .top hworker rfl rfl rfl rfl
  | @find i hworker hi hslot => exact h.move c.pool (.clear i) hworker rfl rfl rfl rfl
  | @look i hworker hi hslot => exact h.move c.pool (.scan (i + 1)) hworker rfl rfl rfl rfl
  | miss hworker hi => exact h.move c.pool .gone hworker rfl rfl rfl rfl
  | clear hworker => exact h.move _ .gone hworker rfl rfl rfl rfl

/-- A step of the pool's numbers. -/
theorem setPool (h : Custody c trace) {pool : ThreadPool Task} (signals : Nat)
    (hqueue : c.pool.task_queue = pool.task_queue) :
    Custody { c with pool := pool, signals := signals } trace :=
  ⟨h.threads, hqueue ▸ h.order, h.popped, h.called, h.nonempty⟩

/-- New workers hold no task. -/
theorem addWorker (h : Custody c trace) {i id : Nat} (hid : (c.worker id).exists? = false) :
    Custody (c.addWorker i id) trace := by
  have hgone := eq_gone hid
  have hheld : (c.addWorker i id).held = c.held :=
    (total_insert (f := Worker.held) (p := .top) (by rw [hgone]; rfl)).trans (add_zero _)
  have hrunning : (c.addWorker i id).running = c.running :=
    (total_insert (f := Worker.running) (p := .top) (by rw [hgone]; rfl)).trans (add_zero _)
  refine ⟨?_, h.order, hheld ▸ h.popped, hrunning ▸ h.called, h.nonempty⟩
  intro u hu
  by_cases hut : u = id
  · exact hut ▸ Finset.mem_insert_self id c.threads
  · exact Finset.mem_insert_of_mem (h.threads u (by simpa [Core.addWorker, hut] using hu))

theorem step {s : State Task} (h : Custody s.core trace) {action : Action Task}
    {e : Option (Event Task)} (hstep : s.CoreStep action c' e) :
    Custody c' (trace ++ e.toList) := by
  cases hstep with
  | stay => simpa using h
  | requestExit hrequests =>
    rw [Option.toList_none, List.append_nil]
    exact h.setPool s.core.signals rfl
  | setWaitTime w =>
    rw [Option.toList_none, List.append_nil]
    exact h.setPool s.core.signals rfl
  | shutdown =>
    rw [Option.toList_none, List.append_nil]
    exact h.setPool s.core.signals rfl
  | signal hsignal => simpa using h.signal hsignal
  | create haction hmanager hcreate =>
    rw [Option.toList_none, List.append_nil]
    apply Core.createAll_induct (I := fun c => Custody c trace) ?_ ?_ h hcreate
    · intro c i id hc _ _ _ hid
      exact hc.addWorker hid
    · intro c i left hc _ _ _
      exact hc.setPool c.signals rfl
  | push haction => exact h.next h.threads (by simp [pushes, pops, Core.push]) rfl rfl (by simp)
  | pushSignal hsignals hsignal => simpa using (h.signal hsignal).setPool _ rfl
  | worker haction hworker => exact h.workerStep hworker
  | spurious hworker => exact h.move s.core.pool .woken hworker rfl rfl rfl rfl

end Custody

section Run

variable {ok : State Task → Action Task → Prop} {minNum maxNum : Nat} {s : State Task}
  {trace : List (Event Task)}

theorem Run.custody (h : Run ok minNum maxNum s trace) : Custody s.core trace := by
  refine h.core (I := Custody) ⟨?_, rfl, rfl, rfl, fun t => List.not_mem_nil⟩ ?_
  · intro t ht
    cases ht
  · intro s action c' e trace hc _ hstep
    exact hc.step hstep

/-- No task is lost, duplicated or reordered. -/
theorem every_task_in_place (h : Run ok minNum maxNum s trace) :
    (pushes trace : Multiset Task) = s.core.pool.task_queue + s.core.held + returns trace ∧
      pops trace <+: pushes trace ∧
      (returns trace : Multiset Task) ≤ calls trace ∧
      (calls trace : Multiset Task) ≤ pushes trace ∧
      ((pushes trace).Nodup → (calls trace).Nodup) ∧
      ∀ t, Event.emptyFront t ∉ trace := by
  have hc := h.custody
  have hpushed : (pushes trace : Multiset Task) = pops trace + s.core.pool.task_queue := by
    rw [hc.order, Multiset.coe_add]
  have hcalls : (calls trace : Multiset Task) ≤ pushes trace := by
    calc (calls trace : Multiset Task)
        = s.core.running + returns trace := hc.called
      _ ≤ s.core.held + returns trace := by gcongr; exact s.core.running_le_held
      _ = pops trace := hc.popped.symm
      _ ≤ pushes trace := hpushed ▸ Multiset.le_add_right _ _
  have hreturns : (returns trace : Multiset Task) ≤ calls trace :=
    hc.called ▸ Multiset.le_add_left _ _
  refine ⟨?_, ⟨s.core.pool.task_queue, hc.order.symm⟩, hreturns, hcalls, ?_, hc.nonempty⟩
  · rw [hpushed, hc.popped, add_right_comm, add_comm s.core.held]
  · intro hnodup
    exact Multiset.coe_nodup.mp (Multiset.nodup_of_le hcalls (Multiset.coe_nodup.mpr hnodup))

end Run

/-- New threads with the ids 1, 2, ... in the slots 0, 1, ... -/
def numbered (i : Nat) : Core.Created := .ok (i + 1)

/-- The manager reads the conditions to grow, and creates workers. -/
def growing : List (Action Task) :=
  List.replicate 5 (.manager true numbered none)

theorem every_task_in_place_one : ∃ (s : State Nat) (trace : List (Event Nat)),
    s.core.pool.task_queue = [8] ∧ returns trace = [7] ∧
      (pushes trace : Multiset Nat) = s.core.pool.task_queue + s.core.held + returns trace ∧
      pops trace <+: pushes trace ∧ (returns trace : Multiset Nat) ≤ calls trace ∧
      (calls trace : Multiset Nat) ≤ pushes trace ∧
      ((pushes trace).Nodup → (calls trace).Nodup) ∧ ∀ t, Event.emptyFront t ∉ trace := by
  obtain ⟨s, trace, hrun, hv⟩ := exists_run (fun (_ : State Nat) _ => True) 0 1
    ([.push 7, .pushSignal none] ++ growing ++ List.replicate 5 (.worker 1 none) ++ [.push 8])
    (fun s trace => (s.core.pool.task_queue, returns trace)) ([8], [7]) (by decide)
  exact ⟨s, trace, congrArg Prod.fst hv, congrArg Prod.snd hv, every_task_in_place hrun⟩

end OJJudge.Pool
