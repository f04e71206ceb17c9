import Mathlib.Algebra.BigOperators.Ring.Finset
import OJJudge.Pool.Tasks

/-! The numbers of a pool: `liveNum` and `busyNum` count workers, unless a worker leaves its loop
through the branch for `shutdown`, which does not decrement `liveNum`. -/

namespace OJJudge.Pool

open Concurrency

variable {Task : Type}

/-- The worker has not left its loop. -/
def Worker.inLoop : Worker Task → Bool
  | gone | scan _ | clear _ => false
  | _ => true

/-- The worker is between the two sections under `mutexBusyNum`. -/
def Worker.isBusy : Worker Task → Bool
  | counted _ | calling _ | returned => true
  | _ => false

theorem Worker.exists_of_inLoop {worker : Worker Task} (h : worker.inLoop = true) :
    worker.exists? = true := by
  cases worker with
  | gone => cases h
  | _ => rfl

theorem Worker.inLoop_of_isBusy {worker : Worker Task} (h : worker.isBusy = true) :
    worker.inLoop = true := by
  cases worker with
  | counted task => rfl
  | calling task => rfl
  | returned => rfl
  | _ => cases h

def Worker.live (worker : Worker Task) : Int := if worker.inLoop then 1 else 0

def Worker.busy (worker : Worker Task) : Int := if worker.isBusy then 1 else 0

/-- The workers that have not left their loop. -/
def Core.inLoop (c : Core Task) : Finset Nat := c.threads.filter fun t => (c.worker t).inLoop

/-- The workers between the two sections under `mutexBusyNum`. -/
def Core.isBusy (c : Core Task) : Finset Nat := c.threads.filter fun t => (c.worker t).isBusy

structure Accounts (c : Core Task) : Prop where
  threads : ∀ t, (c.worker t).exists? = true → t ∈ c.threads
  liveNum : c.pool.liveNum = total Worker.live c.threads c.worker
  busyNum : c.pool.busyNum = total Worker.busy c.threads c.worker
  exitNum : 0 ≤ c.pool.exitNum

/-- The next step of the worker is the branch for `shutdown`. -/
def Core.Leaves (c : Core Task) (t : Nat) : Prop := c.Ready t ∧ c.pool.shutdown = true

instance [DecidableEq Task] (c : Core Task) (t : Nat) : Decidable (c.Leaves t) :=
  inferInstanceAs (Decidable (_ ∧ _))

/-- No worker takes the branch for `shutdown`. -/
def NoneLeaves (s : State Task) : Action Task → Prop
  | .worker t _ => ¬s.core.Leaves t
  | _ => True

instance [DecidableEq Task] (s : State Task) :
    (action : Action Task) → Decidable (NoneLeaves s action)
  | .worker t _ => inferInstanceAs (Decidable (¬s.core.Leaves t))
  | .push _ | .pushSignal _ | .spurious _ | .manager _ _ _ | .wait _ | .destructor _ =>
    inferInstanceAs (Decidable True)

theorem Core.Ready.share {c : Core Task} {t : Nat} (h : c.Ready t) :
    (c.worker t).exists? = true ∧ (c.worker t).live = 1 ∧ (c.worker t).busy = 0 := by
  obtain h | ⟨h, -⟩ := h
  · rw [h]
    exact ⟨rfl, rfl, rfl⟩
  · rw [h]
    exact ⟨rfl, rfl, rfl⟩

namespace Accounts

variable {c c' : Core Task} {t : Nat}

theorem live_eq (h : Accounts c) : c.pool.liveNum = c.inLoop.card := by
  rw [h.liveNum, Core.inLoop]
  exact Finset.sum_boole _ _

theorem busy_eq (h : Accounts c) : c.pool.busyNum = c.isBusy.card := by
  rw [h.busyNum, Core.isBusy]
  exact Finset.sum_boole _ _

/-- A step of one thread, which moves the numbers as it moves the thread. -/
theorem setWorker (h : Accounts c) (pool : ThreadPool Task) (new : Worker Task) {old : Worker Task}
    (hworker : c.worker t = old) (hexists : old.exists? = true)
    (hlive : pool.liveNum + old.live = c.pool.liveNum + new.live)
    (hbusy : pool.busyNum + old.busy = c.pool.busyNum + new.busy) (hexit : 0 ≤ pool.exitNum) :
    Accounts ({ c with pool := pool }.setWorker t new) := by
  subst hworker
  have ht := h.threads t hexists
  have hlive' : total Worker.live c.threads (Function.update c.worker t new) + (c.worker t).live =
      total Worker.live c.threads c.worker + new.live := total_update ht
  have hbusy' : total Worker.busy c.threads (Function.update c.worker t new) + (c.worker t).busy =
      total Worker.busy c.threads c.worker + new.busy := total_update ht
  have hliveNum := h.liveNum
  have hbusyNum := h.busyNum
  refine ⟨?_, ?_, ?_, hexit⟩
  · intro u hu
    by_cases hut : u = t
    · exact hut ▸ ht
    · rw [Core.worker_setWorker_ne _ t new hut] at hu
      exact h.threads u hu
  · show pool.liveNum = total Worker.live c.threads (Function.update c.worker t new)
    omega
  · show pool.busyNum = total Worker.busy c.threads (Function.update c.worker t new)
    omega

/-- A step of one thread that no number counts. -/
theorem move (h : Accounts c) (pool : ThreadPool Task) (new : Worker Task) {old : Worker Task}
    (hworker : c.worker t = old) (hexists : old.exists? = true) (hlive : old.live = new.live)
    (hbusy : old.busy = new.busy) (hliveNum : pool.liveNum = c.pool.liveNum)
    (hbusyNum : pool.busyNum = c.pool.busyNum) (hexitNum : pool.exitNum = c.pool.exitNum) :
    Accounts ({ c with pool := pool }.setWorker t new) :=
  h.setWorker pool new hworker hexists (by rw [hlive, hliveNum]) (by rw [hbusy, hbusyNum])
    (hexitNum ▸ h.exitNum)

theorem signal (h : Accounts c) {wake : Option Nat} (hsignal : c.signal wake = some c') :
    Accounts c' := by
  obtain ⟨t, hwaiting, rfl⟩ | ⟨-, rfl⟩ := Core.signal_cases hsignal
  · exact h.move c.pool .woken hwaiting rfl rfl rfl rfl rfl rfl
  · exact h

theorem workerStep (h : Accounts c) {e : Option (Event Task)} (hstep : c.WorkerStep t c' e)
    (hstay : ¬c.Leaves t) : Accounts c' := by
  cases hstep with
  | wait hready hqueue =>
    obtain ⟨hexists, hlive, hbusy⟩ := hready.share
    exact h.move c.pool .waiting rfl hexists hlive hbusy rfl rfl rfl
  | leave hready hshutdown => exact absurd ⟨hready, hshutdown⟩ hstay
  | @pop task rest hready hshutdown hqueue =>
    obtain ⟨hexists, hlive, hbusy⟩ := hready.share
    exact h.move { c.pool with task_queue := rest } (.popped task) rfl hexists hlive hbusy rfl rfl rfl
  | retire hworker hexit =>
    apply h.setWorker _ (.scan 0) hworker rfl
    · show c.pool.liveNum - 1 + 1 = c.pool.liveNum + 0
      omega
    · rfl
    · show 0 ≤ c.pool.exitNum - 1
      omega
  | @signal task wake c₁ hworker hsignal =>
    exact (h.signal hsignal).move c₁.pool (.signalled task) (Core.signal_popped hsignal hworker)
      rfl rfl rfl rfl rfl rfl
  | @count task hworker =>
    apply h.setWorker (c.addBusy 1).pool (.counted task) hworker rfl rfl ?_ h.exitNum
    show c.pool.busyNum + 1 + 0 = c.pool.busyNum + 1
    omega
  | @call task hworker => exact h.move c.pool (.calling task) hworker rfl rfl rfl rfl rfl rfl
  | finish hworker => exact h.move c.pool .returned hworker rfl rfl rfl rfl rfl rfl
  | uncount hworker =>
    apply h.setWorker (c.addBusy (-1)).pool .top hworker rfl rfl ?_ h.exitNum
    show c.pool.busyNum + -1 + 1 = c.pool.busyNum + 0
    omega
  | @find i hworker hi hslot => exact h.move c.pool (.clear i) hworker rfl rfl rfl rfl rfl rfl
  | @look i hworker hi hslot => exact h.move c.pool (.scan (i + 1)) hworker rfl rfl rfl rfl rfl rfl
  | miss hworker hi => exact h.move c.pool .gone hworker rfl rfl rfl rfl rfl rfl
  | @clear i hworker => exact h.move _ .gone hworker rfl rfl rfl rfl rfl rfl

theorem addWorker (h : Accounts c) {i id : Nat} (hid : (c.worker id).exists? = false) :
    Accounts (c.addWorker i id) := by
  have hgone := eq_gone hid
  have hlive : total Worker.live (insert id c.threads) (Function.update c.worker id .top) =
      total Worker.live c.threads c.worker + 1 := total_insert (by rw [hgone]; rfl)
  have hbusy : total Worker.busy (insert id c.threads) (Function.update c.worker id .top) =
      total Worker.busy c.threads c.worker + 0 := total_insert (by rw [hgone]; rfl)
  refine ⟨?_, ?_, ?_, h.exitNum⟩
  · intro u hu
    by_cases hut : u = id
    · exact hut ▸ Finset.mem_insert_self id c.threads
    · exact Finset.mem_insert_of_mem (h.threads u (by simpa [Core.addWorker, hut] using hu))
  · show c.pool.liveNum + 1 = _
    rw [h.liveNum]
    exact hlive.symm
  · show c.pool.busyNum = _
    rw [h.busyNum]
    exact (hbusy.trans (add_zero _)).symm

theorem step {s : State Task} (h : Accounts s.core) {action : Action Task}
    {e : Option (Event Task)} (hstep : s.CoreStep action c' e) (hok : NoneLeaves s action) :
    Accounts c' := by
  cases hstep with
  | stay => exact h
  | requestExit hrequests =>
    have hexit := h.exitNum
    exact ⟨h.threads, h.liveNum, h.busyNum, show 0 ≤ s.core.pool.exitNum + 1 by omega⟩
  | setWaitTime w => exact ⟨h.threads, h.liveNum, h.busyNum, h.exitNum⟩
  | shutdown => exact ⟨h.threads, h.liveNum, h.busyNum, h.exitNum⟩
  | signal hsignal => exact h.signal hsignal
  | create haction hmanager hcreate =>
    apply Core.createAll_induct ?_ ?_ h hcreate
    · intro c i id hc _ _ _ hid
      exact hc.addWorker hid
    · intro c i left hc _ _ _
      exact ⟨hc.threads, hc.liveNum, hc.busyNum, hc.exitNum⟩
  | push haction => exact ⟨h.threads, h.liveNum, h.busyNum, h.exitNum⟩
  | pushSignal hsignals hsignal =>
    have hc := h.signal hsignal
    exact ⟨hc.threads, hc.liveNum, hc.busyNum, hc.exitNum⟩
  | worker haction hworker =>
    subst haction
    exact h.workerStep hworker hok
  | spurious hworker => exact h.move s.core.pool .woken hworker rfl rfl rfl rfl rfl rfl

end Accounts

section Run

variable {minNum maxNum : Nat} {s : State Task} {trace : List (Event Task)}

theorem Run.accounts {ok : State Task → Action Task → Prop} (h : Run ok minNum maxNum s trace)
    (hok : ∀ s action, ok s action → NoneLeaves s action) : Accounts s.core := by
  refine h.core (I := fun c _ => Accounts c) ⟨?_, rfl, rfl, le_rfl⟩ ?_
  · intro t ht
    cases ht
  · intro s action c' e trace hc hsok hstep
    exact hc.step hstep (hok s action hsok)

/-- `liveNum` counts the workers in their loop, and is 0 once all have left. -/
theorem liveNum_counts_workers (h : Run NoneLeaves minNum maxNum s trace) :
    s.core.pool.liveNum = s.core.inLoop.card ∧
      ((∀ t ∈ s.core.threads, (s.core.worker t).inLoop = false) → s.core.pool.liveNum = 0) := by
  have hlive := (h.accounts fun _ _ hok => hok).live_eq
  refine ⟨hlive, fun hleft => ?_⟩
  rw [hlive, Core.inLoop, Finset.filter_false_of_mem fun t ht => by simp [hleft t ht]]
  rfl

end Run

/-- A worker is created and runs one task. -/
def oneTask : List (Action Nat) :=
  [.push 7, .pushSignal none] ++ growing ++ List.replicate 6 (.worker 1 none)

theorem liveNum_counts_workers_one : ∃ s : State Nat,
    s.destructor = .done ∧ s.core.pool.liveNum = s.core.inLoop.card ∧
      ((∀ t ∈ s.core.threads, (s.core.worker t).inLoop = false) → s.core.pool.liveNum = 0) := by
  obtain ⟨s, trace, hrun, hv⟩ := exists_run (fun (s : State Nat) action => NoneLeaves s action) 0 1
    (oneTask ++ [.worker 1 none, .destructor none, .destructor none, .destructor none,
      .destructor (some 1), .worker 1 none, .destructor none])
    (fun s _ => s.destructor) .done (by decide)
  exact ⟨s, hv, liveNum_counts_workers hrun⟩

/-- A worker that sees `shutdown` after its task leaves without a decrement of `liveNum`, so that the
destructor still waits for it. -/
theorem shutdown_leaves_liveNum : ∃ (s : State Nat) (trace : List (Event Nat)),
    Run (fun _ _ => True) 0 1 s trace ∧ s.core.pool.liveNum = 1 ∧ s.core.threads = {1} ∧
      s.core.worker 1 = .gone := by
  obtain ⟨s, trace, hrun, hv⟩ := exists_run (fun (_ : State Nat) _ => True) 0 1
    (oneTask ++ [.destructor none, .worker 1 none])
    (fun s _ => (s.core.pool.liveNum, s.core.threads, s.core.worker 1)) (1, {1}, .gone) (by decide)
  simp only [Prod.mk.injEq] at hv
  exact ⟨s, trace, hrun, hv⟩

end OJJudge.Pool
