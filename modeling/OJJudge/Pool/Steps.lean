import OJJudge.Pool.State

/-! What the steps of a pool do to its core: the manager and the destructor only request exits,
signal and create workers. -/

namespace OJJudge.Pool

open Concurrency

variable {Task : Type}

theorem eq_waiting {worker : Worker Task} (h : worker.isWaiting = true) : worker = .waiting := by
  cases worker with
  | waiting => rfl
  | _ => cases h

theorem eq_gone {worker : Worker Task} (h : worker.exists? = false) : worker = .gone := by
  cases worker with
  | gone => rfl
  | _ => cases h

namespace Core

/-- Worker `t` is about to run the section that takes a task. -/
def Ready (c : Core Task) (t : Nat) : Prop :=
  c.worker t = .top ∨ c.worker t = .woken ∧ c.pool.exitNum ≤ 0

instance [DecidableEq Task] (c : Core Task) (t : Nat) : Decidable (c.Ready t) :=
  inferInstanceAs (Decidable (_ ∨ _ ∧ _))

/-- The steps of worker `t`, with the event of each. -/
inductive WorkerStep (c : Core Task) (t : Nat) : Core Task → Option (Event Task) → Prop
  | wait (hready : c.Ready t) (hqueue : c.pool.task_queue = []) :
      WorkerStep c t (c.setWorker t .waiting) none
  | leave (hready : c.Ready t) (hshutdown : c.pool.shutdown = true) :
      WorkerStep c t (c.setWorker t .gone) none
  | pop {task : Task} {rest : List Task} (hready : c.Ready t)
      (hshutdown : c.pool.shutdown = false) (hqueue : c.pool.task_queue = task :: rest) :
      WorkerStep c t
        ({ c with pool := { c.pool with task_queue := rest } }.setWorker t (.popped task))
        (some (.popped t task))
  | retire (hworker : c.worker t = .woken) (hexit : 0 < c.pool.exitNum) :
      WorkerStep c t (c.retire t) none
  | signal {task : Task} {wake : Option Nat} {c' : Core Task} (hworker : c.worker t = .popped task)
      (h : c.signal wake = some c') : WorkerStep c t (c'.setWorker t (.signalled task)) none
  | count {task : Task} (hworker : c.worker t = .signalled task) :
      WorkerStep c t ((c.addBusy 1).setWorker t (.counted task)) none
  | call {task : Task} (hworker : c.worker t = .counted task) :
      WorkerStep c t (c.setWorker t (.calling task)) (some (.called t task))
  | finish {task : Task} (hworker : c.worker t = .calling task) :
      WorkerStep c t (c.setWorker t .returned) (some (.returned t task))
  | uncount (hworker : c.worker t = .returned) :
      WorkerStep c t ((c.addBusy (-1)).setWorker t .top) none
  | find {i : Nat} (hworker : c.worker t = .scan i) (hi : i < c.pool.maxNum)
      (hslot : c.pool.threadID i = t) : WorkerStep c t (c.setWorker t (.clear i)) none
  | look {i : Nat} (hworker : c.worker t = .scan i) (hi : i < c.pool.maxNum)
      (hslot : c.pool.threadID i ≠ t) : WorkerStep c t (c.setWorker t (.scan (i + 1))) none
  | miss {i : Nat} (hworker : c.worker t = .scan i) (hi : c.pool.maxNum ≤ i) :
      WorkerStep c t (c.setWorker t .gone) none
  | clear {i : Nat} (hworker : c.worker t = .clear i) :
      WorkerStep c t ((c.setSlot i 0).setWorker t .gone) none

variable {c c' : Core Task} {t : Nat} {e : Option (Event Task)}

/-- The test of the inner loop keeps `front` and `pop` from an empty queue. -/
theorem takeTask_step (hready : c.Ready t) (h : c.takeTask t = (c', e)) :
    c.WorkerStep t c' e := by
  unfold takeTask at h
  split at h
  · next hwait =>
    cases h
    rw [Bool.and_eq_true, List.isEmpty_iff] at hwait
    exact .wait hready hwait.2
  · next htake =>
    split at h
    · next hshutdown =>
      cases h
      exact .leave hready hshutdown
    · next hshutdown =>
      rw [Bool.not_eq_true] at hshutdown
      split at h
      · next hqueue => simp [hshutdown, hqueue] at htake
      · next task rest hqueue =>
        cases h
        exact .pop hready hshutdown hqueue

theorem workerStep_step {wake : Option Nat} (h : c.workerStep t wake = some (c', e)) :
    c.WorkerStep t c' e := by
  unfold workerStep at h
  cases hworker : c.worker t with
  | gone => simp [hworker] at h
  | waiting => simp [hworker] at h
  | top =>
    simp only [hworker, Option.some.injEq] at h
    exact takeTask_step (.inl hworker) h
  | woken =>
    simp only [hworker, Option.some.injEq] at h
    split at h
    · next hexit =>
      cases h
      exact .retire hworker hexit
    · next hexit => exact takeTask_step (.inr ⟨hworker, by omega⟩) h
  | popped task =>
    simp only [hworker, Option.map_eq_some_iff, Prod.mk.injEq] at h
    obtain ⟨c₁, hsignal, rfl, rfl⟩ := h
    exact .signal hworker hsignal
  | signalled task =>
    simp only [hworker, Option.some.injEq, Prod.mk.injEq] at h
    obtain ⟨rfl, rfl⟩ := h
    exact .count hworker
  | counted task =>
    simp only [hworker, Option.some.injEq, Prod.mk.injEq] at h
    obtain ⟨rfl, rfl⟩ := h
    exact .call hworker
  | calling task =>
    simp only [hworker, Option.some.injEq, Prod.mk.injEq] at h
    obtain ⟨rfl, rfl⟩ := h
    exact .finish hworker
  | returned =>
    simp only [hworker, Option.some.injEq, Prod.mk.injEq] at h
    obtain ⟨rfl, rfl⟩ := h
    exact .uncount hworker
  | scan i =>
    simp only [hworker] at h
    split at h
    · next hi =>
      simp only [Option.some.injEq, Prod.mk.injEq] at h
      obtain ⟨rfl, rfl⟩ := h
      split
      · next hslot => exact .find hworker hi hslot
      · next hslot => exact .look hworker hi hslot
    · next hi =>
      simp only [Option.some.injEq, Prod.mk.injEq] at h
      obtain ⟨rfl, rfl⟩ := h
      exact .miss hworker (Nat.le_of_not_lt hi)
  | clear i =>
    simp only [hworker, Option.some.injEq, Prod.mk.injEq] at h
    obtain ⟨rfl, rfl⟩ := h
    exact .clear hworker

end Core

/-- The step is an `exitNum++`. -/
def State.requests (s : State Task) : Action Task → Bool
  | .manager _ _ _ => s.manager = .shrinkExit || s.manager = .killExit
  | .destructor _ => s.destructor = .exit
  | _ => false

/-- What a step does to the core, with its event. -/
inductive State.CoreStep (s : State Task) (action : Action Task) :
    Core Task → Option (Event Task) → Prop
  | stay : CoreStep s action s.core none
  | requestExit (hrequests : s.requests action = true) : CoreStep s action s.core.requestExit none
  | setWaitTime (w : Int) :
      CoreStep s action { s.core with pool := { s.core.pool with waitTime := w } } none
  | shutdown : CoreStep s action { s.core with pool := { s.core.pool with shutdown := true } } none
  | signal {wake : Option Nat} {c' : Core Task} (h : s.core.signal wake = some c') :
      CoreStep s action c' none
  | create {first : Bool} {created : Nat → Core.Created} {wake : Option Nat} {c' : Core Task}
      (haction : action = .manager first created wake) (hmanager : s.manager = .create)
      (h : s.core.createAll created = some c') : CoreStep s action c' none
  | push {task : Task} (haction : action = .push task) :
      CoreStep s action (s.core.push task) (some (.pushed task))
  | pushSignal {wake : Option Nat} {c' : Core Task} (hsignals : 0 < s.core.signals)
      (h : s.core.signal wake = some c') :
      CoreStep s action { c' with signals := c'.signals - 1 } none
  | worker {t : Nat} {wake : Option Nat} {c' : Core Task} {e : Option (Event Task)}
      (haction : action = .worker t wake) (h : s.core.WorkerStep t c' e) : CoreStep s action c' e
  | spurious {t : Nat} (h : s.core.worker t = .waiting) :
      CoreStep s action (s.core.setWorker t .woken) none

theorem State.managerStep_core {s s' : State Task} {first : Bool} {created : Nat → Core.Created}
    {wake : Option Nat} (h : s.managerStep first created wake = some s') :
    s.CoreStep (.manager first created wake) s'.core none := by
  unfold managerStep at h
  split at h
  case h_6 hmanager =>
    obtain ⟨core, hcreate, rfl⟩ := Option.map_eq_some_iff.mp h
    exact .create rfl hmanager hcreate
  case h_11 hmanager =>
    cases h
    exact .requestExit (by simp [requests, hmanager])
  case h_12 =>
    obtain ⟨core, hsignal, rfl⟩ := Option.map_eq_some_iff.mp h
    exact .signal hsignal
  case h_16 hmanager =>
    cases h
    exact .requestExit (by simp [requests, hmanager])
  case h_17 =>
    obtain ⟨core, hsignal, rfl⟩ := Option.map_eq_some_iff.mp h
    exact .signal hsignal
  case h_18 => cases h
  all_goals
    cases h
    exact .stay

theorem State.destructorStep_core {s s' : State Task} {wake : Option Nat}
    (h : s.destructorStep wake = some s') : s.CoreStep (.destructor wake) s'.core none := by
  unfold destructorStep at h
  split at h
  · cases h
    exact .shutdown
  · cases h
    exact .stay
  · next hdestructor =>
    cases h
    exact .requestExit (by simp [requests, hdestructor])
  · obtain ⟨core, hsignal, rfl⟩ := Option.map_eq_some_iff.mp h
    exact .signal hsignal
  · cases h

/-- The steps of a pool, with what makes each of them possible. -/
inductive State.Steps (s : State Task) : Action Task → State Task → Option (Event Task) → Prop
  | push (task : Task) :
      Steps s (.push task) { s with core := s.core.push task } (some (.pushed task))
  | pushSignal {wake : Option Nat} {core : Core Task} (hsignals : 0 < s.core.signals)
      (h : s.core.signal wake = some core) : Steps s (.pushSignal wake)
        { s with core := { core with signals := core.signals - 1 } } none
  | worker {t : Nat} {wake : Option Nat} {core : Core Task} {e : Option (Event Task)}
      (h : s.core.workerStep t wake = some (core, e)) :
      Steps s (.worker t wake) { s with core := core } e
  | spurious {t : Nat} (h : s.core.worker t = .waiting) :
      Steps s (.spurious t) { s with core := s.core.setWorker t .woken } none
  | manager {first : Bool} {created : Nat → Core.Created} {wake : Option Nat} {s' : State Task}
      (h : s.managerStep first created wake = some s') :
      Steps s (.manager first created wake) s' none
  | wait (w : Int) : Steps s (.wait w)
      { s with core := { s.core with pool := { s.core.pool with waitTime := w } } } none
  | destructor {wake : Option Nat} {s' : State Task} (h : s.destructorStep wake = some s') :
      Steps s (.destructor wake) s' none

theorem State.step_steps {s s' : State Task} {action : Action Task} {e : Option (Event Task)}
    (h : s.step action = some (s', e)) : s.Steps action s' e := by
  cases action with
  | push task =>
    cases h
    exact .push task
  | pushSignal wake =>
    simp only [State.step] at h
    split at h
    · next hsignals =>
      obtain ⟨core, hsignal, heq⟩ := Option.map_eq_some_iff.mp h
      cases heq
      exact .pushSignal hsignals hsignal
    · cases h
  | worker t wake =>
    obtain ⟨⟨core, e'⟩, hworker, heq⟩ := Option.map_eq_some_iff.mp h
    cases heq
    exact .worker hworker
  | spurious t =>
    simp only [State.step] at h
    split at h
    · next hwaiting =>
      cases h
      exact .spurious (eq_waiting hwaiting)
    · cases h
  | manager first created wake =>
    obtain ⟨s₁, hmanager, heq⟩ := Option.map_eq_some_iff.mp h
    cases heq
    exact .manager hmanager
  | wait w =>
    cases h
    exact .wait w
  | destructor wake =>
    obtain ⟨s₁, hdestructor, heq⟩ := Option.map_eq_some_iff.mp h
    cases heq
    exact .destructor hdestructor

theorem State.step_core {s s' : State Task} {action : Action Task} {e : Option (Event Task)}
    (h : s.step action = some (s', e)) : s.CoreStep action s'.core e := by
  cases step_steps h with
  | push task => exact .push rfl
  | pushSignal hsignals hsignal => exact .pushSignal hsignals hsignal
  | worker hworker => exact .worker rfl (Core.workerStep_step hworker)
  | spurious hwaiting => exact .spurious hwaiting
  | manager hmanager => exact managerStep_core hmanager
  | wait w => exact .setWaitTime w
  | destructor hdestructor => exact destructorStep_core hdestructor

section Run

variable {ok : State Task → Action Task → Prop} {minNum maxNum : Nat} {s : State Task}
  {trace : List (Event Task)}

/-- Induction over a run, on the core and the events. -/
theorem Run.core {I : Core Task → List (Event Task) → Prop} (h : Run ok minNum maxNum s trace)
    (start : I (State.init Task minNum maxNum).core [])
    (step : ∀ (s : State Task) (action : Action Task) (c' : Core Task) (e : Option (Event Task))
      (trace : List (Event Task)), I s.core trace → ok s action → s.CoreStep action c' e →
      I c' (trace ++ e.toList)) : I s.core trace := by
  induction h with
  | start => exact start
  | step h hok hstep ih => exact step _ _ _ _ _ ih hok (State.step_core hstep)

end Run

/-! ### Signals and creations -/

namespace Core

variable {c c' : Core Task}

/-- A signal wakes one worker that is blocked, or finds none. -/
theorem signal_cases {wake : Option Nat} (h : c.signal wake = some c') :
    (∃ t, c.worker t = .waiting ∧ c' = c.setWorker t .woken) ∨
      ((∀ t ∈ c.threads, (c.worker t).isWaiting = false) ∧ c' = c) := by
  unfold signal at h
  split at h
  · split at h
    · cases h
    · next hnone =>
      cases h
      exact .inr ⟨fun t ht => by simpa using fun hwaiting => hnone ⟨t, ht, hwaiting⟩, rfl⟩
  · next t =>
    split at h
    · next hwaiting =>
      cases h
      exact .inl ⟨t, eq_waiting hwaiting, rfl⟩
    · cases h

theorem signal_pool {wake : Option Nat} (h : c.signal wake = some c') : c'.pool = c.pool := by
  obtain ⟨t, -, rfl⟩ | ⟨-, rfl⟩ := signal_cases h
  · rfl
  · rfl

/-- A worker that signals is none of those that the signal can wake. -/
theorem signal_popped {wake : Option Nat} {t : Nat} {task : Task} (h : c.signal wake = some c')
    (ht : c.worker t = .popped task) : c'.worker t = .popped task := by
  obtain ⟨u, hwaiting, rfl⟩ | ⟨-, rfl⟩ := signal_cases h
  · rw [worker_setWorker_ne _ _ _ (by rintro rfl; simp [ht] at hwaiting), ht]
  · exact ht

/-- A property that new workers and failed creations in free slots keep holds after the loop that
creates workers. -/
theorem createFrom_induct {I : Core Task → Prop} {created : Nat → Created}
    (add : ∀ (c : Core Task) (i id : Nat), I c → i < c.pool.maxNum → c.pool.threadID i = 0 →
      id ≠ 0 → (c.worker id).exists? = false → I (c.addWorker i id))
    (fail : ∀ (c : Core Task) (i left : Nat), I c → created i = .failed left →
      i < c.pool.maxNum → c.pool.threadID i = 0 → I (c.setSlot i left)) :
    {n i : Nat} → {c : Core Task} → i + n = c.pool.maxNum → I c →
      createFrom created n i c = some c' → I c'
  | 0, _, _, _, hc, h => by
    cases h
    exact hc
  | n + 1, i, c, hn, hc, h => by
    have hi : i < c.pool.maxNum := by omega
    simp only [createFrom] at h
    split at h
    · next hslot =>
      split at h
      · next id _ =>
        split at h
        · cases h
        · next hid =>
          rw [not_or, Bool.not_eq_true] at hid
          exact createFrom_induct add fail (c := c.addWorker i id)
            (show i + 1 + n = c.pool.maxNum by omega) (add c i id hc hi hslot hid.1 hid.2) h
      · next left hcreated =>
        cases h
        exact fail c i left hc hcreated hi hslot
    · exact createFrom_induct add fail (by omega) hc h

theorem createAll_induct {I : Core Task → Prop} {created : Nat → Created}
    (add : ∀ (c : Core Task) (i id : Nat), I c → i < c.pool.maxNum → c.pool.threadID i = 0 →
      id ≠ 0 → (c.worker id).exists? = false → I (c.addWorker i id))
    (fail : ∀ (c : Core Task) (i left : Nat), I c → created i = .failed left →
      i < c.pool.maxNum → c.pool.threadID i = 0 → I (c.setSlot i left))
    (hc : I c) (h : c.createAll created = some c') : I c' :=
  createFrom_induct add fail (Nat.zero_add _) hc h

end Core

/-! ### What a step does to `liveNum`, `exitNum` and the queue -/

inductive State.PoolStep (s : State Task) (action : Action Task) (after : ThreadPool Task) : Prop
  | same (hlive : after.liveNum = s.core.pool.liveNum) (hexit : after.exitNum = s.core.pool.exitNum)
      (hqueue : after.task_queue <:+ s.core.pool.task_queue) : PoolStep s action after
  | request (hrequests : s.requests action = true) (hlive : after.liveNum = s.core.pool.liveNum)
      (hexit : after.exitNum = s.core.pool.exitNum + 1)
      (hqueue : after.task_queue = s.core.pool.task_queue) : PoolStep s action after
  | retire {t : Nat} {wake : Option Nat} (haction : action = .worker t wake)
      (hworker : s.core.worker t = .woken) (hpos : 0 < s.core.pool.exitNum)
      (hlive : after.liveNum = s.core.pool.liveNum - 1)
      (hexit : after.exitNum = s.core.pool.exitNum - 1)
      (hqueue : after.task_queue = s.core.pool.task_queue) : PoolStep s action after
  | create (hmanager : s.manager = .create) (hlive : s.core.pool.liveNum ≤ after.liveNum)
      (hexit : after.exitNum = s.core.pool.exitNum)
      (hqueue : after.task_queue = s.core.pool.task_queue) : PoolStep s action after
  | push {task : Task} (haction : action = .push task)
      (hlive : after.liveNum = s.core.pool.liveNum) (hexit : after.exitNum = s.core.pool.exitNum)
      (hqueue : after.task_queue = s.core.pool.task_queue ++ [task]) : PoolStep s action after

theorem State.CoreStep.pool {s : State Task} {action : Action Task} {c' : Core Task}
    {e : Option (Event Task)} (h : s.CoreStep action c' e) : s.PoolStep action c'.pool := by
  have hsame {pool : ThreadPool Task} (hpool : pool = s.core.pool) : s.PoolStep action pool :=
    .same (by rw [hpool]) (by rw [hpool]) (by rw [hpool])
  cases h with
  | stay => exact hsame rfl
  | requestExit hrequests => exact .request hrequests rfl rfl rfl
  | setWaitTime w => exact .same rfl rfl (List.suffix_refl _)
  | shutdown => exact .same rfl rfl (List.suffix_refl _)
  | signal hsignal => exact hsame (Core.signal_pool hsignal)
  | create haction hmanager hcreate =>
    have hgrow : s.core.pool.liveNum ≤ c'.pool.liveNum ∧
        c'.pool.exitNum = s.core.pool.exitNum ∧ c'.pool.task_queue = s.core.pool.task_queue := by
      apply Core.createAll_induct (I := fun c => s.core.pool.liveNum ≤ c.pool.liveNum ∧
        c.pool.exitNum = s.core.pool.exitNum ∧ c.pool.task_queue = s.core.pool.task_queue) ?_ ?_
        ⟨le_rfl, rfl, rfl⟩ hcreate
      · intro c i id hc _ _ _ _
        exact ⟨show _ ≤ c.pool.liveNum + 1 by omega, hc.2⟩
      · intro c i left hc _ _ _
        exact hc
    exact .create hmanager hgrow.1 hgrow.2.1 hgrow.2.2
  | push haction => exact .push haction rfl rfl rfl
  | pushSignal hsignals hsignal =>
    have hpool := Core.signal_pool hsignal
    exact hsame hpool
  | worker haction hworker =>
    cases hworker with
    | retire hwoken hexit => exact .retire haction hwoken hexit rfl rfl rfl
    | pop hready hshutdown hqueue => exact .same rfl rfl (hqueue ▸ List.suffix_cons _ _)
    | signal hpopped hsignal =>
      have hpool := Core.signal_pool hsignal
      exact hsame hpool
    | _ => exact .same rfl rfl (List.suffix_refl _)
  | spurious hworker => exact .same rfl rfl (List.suffix_refl _)

/-! ### What a step does to blocked workers -/

namespace Core

/-- A step leaves a worker where it is, wakes it, or moves it between other places. -/
inductive Moves (c c' : Core Task) (t : Nat) : Prop
  | same (h : c'.worker t = c.worker t)
  | wake (hold : c.worker t = .waiting) (hnew : c'.worker t = .woken) (hpool : c'.pool = c.pool)
  | other (hold : c.worker t ≠ .waiting) (hnew : c'.worker t ≠ .woken)

variable {c c' : Core Task} {t u : Nat}

theorem Moves.update {old new : Worker Task} (h : c'.worker = Function.update c.worker u new)
    (hworker : c.worker u = old) (hold : old ≠ .waiting) (hnew : new ≠ .woken) : c.Moves c' t := by
  by_cases ht : t = u
  · subst ht
    exact .other (hworker ▸ hold) (by rw [h, Function.update_self]; exact hnew)
  · exact .same (by rw [h, Function.update_of_ne ht])

theorem Moves.woken (h : c.worker u = .waiting) : c.Moves (c.setWorker u .woken) t := by
  by_cases ht : t = u
  · subst ht
    exact .wake h (worker_setWorker_same ..) rfl
  · exact .same (worker_setWorker_ne _ _ _ ht)

theorem Moves.signal {wake : Option Nat} (h : c.signal wake = some c') : c.Moves c' t := by
  obtain ⟨u, hwaiting, rfl⟩ | ⟨-, rfl⟩ := signal_cases h
  · exact .woken hwaiting
  · exact .same rfl

theorem WorkerStep.moves {e : Option (Event Task)} (h : c.WorkerStep u c' e) : c.Moves c' t := by
  have hready {new : Worker Task} {pool : ThreadPool Task} (hready : c.Ready u)
      (hnew : new ≠ .woken) : c.Moves ({ c with pool := pool }.setWorker u new) t := by
    obtain hworker | ⟨hworker, -⟩ := hready
    · exact .update rfl hworker (by simp) hnew
    · exact .update rfl hworker (by simp) hnew
  cases h with
  | wait hc hqueue => exact hready hc (by simp)
  | leave hc hshutdown => exact hready hc (by simp)
  | pop hc hshutdown hqueue => exact hready hc (by simp)
  | @signal task wake c₁ hworker hsignal =>
    have hpopped := signal_popped hsignal hworker
    by_cases ht : t = u
    · subst ht
      exact .other (by simp [hworker]) (by simp)
    · have hmoves : c.Moves c₁ t := .signal hsignal
      have hsame : (c₁.setWorker u (.signalled task)).worker t = c₁.worker t :=
        worker_setWorker_ne _ _ _ ht
      cases hmoves with
      | same h => exact .same (hsame.trans h)
      | wake hold hnew hpool => exact .wake hold (hsame.trans hnew) hpool
      | other hold hnew => exact .other hold (hsame ▸ hnew)
  | retire hworker _ | count hworker | call hworker | finish hworker | uncount hworker
  | find hworker _ _ | look hworker _ _ | miss hworker _ | clear hworker =>
    exact .update rfl hworker (by simp) (by simp)

end Core

theorem State.CoreStep.moves {s : State Task} {action : Action Task} {c' : Core Task}
    {e : Option (Event Task)} {t : Nat} (h : s.CoreStep action c' e) : s.core.Moves c' t := by
  cases h with
  | signal hsignal => exact .signal hsignal
  | pushSignal hsignals hsignal =>
    have hmoves : s.core.Moves _ t := .signal hsignal
    cases hmoves with
    | same h => exact .same h
    | wake hold hnew hpool => exact .wake hold hnew hpool
    | other hold hnew => exact .other hold hnew
  | create haction hmanager hcreate =>
    have hnew : c'.worker t = s.core.worker t ∨
        s.core.worker t ≠ .waiting ∧ c'.worker t = .top := by
      refine Core.createAll_induct (I := fun c => c.worker t = s.core.worker t ∨
        s.core.worker t ≠ .waiting ∧ c.worker t = .top) ?_ (fun c i left hc _ _ _ => hc) (.inl rfl)
        hcreate
      intro c i id hc _ _ _ hgone
      by_cases ht : t = id
      · subst ht
        refine .inr ⟨?_, Function.update_self ..⟩
        obtain hsame | ⟨-, htop⟩ := hc
        · rw [← hsame, eq_gone hgone]
          simp
        · rw [htop] at hgone
          cases hgone
      · have hworker : (c.addWorker i id).worker t = c.worker t := Function.update_of_ne ht _ _
        rwa [hworker]
    obtain hsame | ⟨hold, htop⟩ := hnew
    · exact .same hsame
    · exact .other hold (by simp [htop])
  | worker haction hworker => exact hworker.moves
  | spurious hworker => exact .woken hworker
  | _ => exact .same rfl

/-! ### What no worker changes -/

/-- The two pools have the same bounds, and both are shut down or neither. -/
structure SameBounds (before after : ThreadPool Task) : Prop where
  minNum : after.minNum = before.minNum
  maxNum : after.maxNum = before.maxNum
  shutdown : after.shutdown = before.shutdown

theorem SameBounds.refl (pool : ThreadPool Task) : SameBounds pool pool := ⟨rfl, rfl, rfl⟩

theorem Core.WorkerStep.sameBounds {c c' : Core Task} {t : Nat} {e : Option (Event Task)}
    (h : c.WorkerStep t c' e) : SameBounds c.pool c'.pool := by
  cases h with
  | signal hworker hsignal => exact Core.signal_pool hsignal ▸ .refl _
  | _ => exact ⟨rfl, rfl, rfl⟩

/-- The bounds of a pool stay, and `shutdown` is never reset. -/
theorem State.CoreStep.bounds {s : State Task} {action : Action Task} {c' : Core Task}
    {e : Option (Event Task)} (h : s.CoreStep action c' e) :
    c'.pool.minNum = s.core.pool.minNum ∧ c'.pool.maxNum = s.core.pool.maxNum ∧
      (c'.pool.shutdown = false → s.core.pool.shutdown = false) := by
  have hsame : SameBounds s.core.pool c'.pool →
      c'.pool.minNum = s.core.pool.minNum ∧ c'.pool.maxNum = s.core.pool.maxNum ∧
        (c'.pool.shutdown = false → s.core.pool.shutdown = false) :=
    fun h => ⟨h.minNum, h.maxNum, fun hfalse => h.shutdown ▸ hfalse⟩
  cases h with
  | shutdown => exact ⟨rfl, rfl, fun h => nomatch h⟩
  | signal hsignal => exact hsame (Core.signal_pool hsignal ▸ .refl _)
  | create haction hmanager hcreate =>
    refine hsame (Core.createAll_induct (I := fun c => SameBounds s.core.pool c.pool) ?_ ?_
      (.refl _) hcreate)
    · intro c i id hc _ _ _ _
      exact ⟨hc.minNum, hc.maxNum, hc.shutdown⟩
    · intro c i left hc _ _ _
      exact ⟨hc.minNum, hc.maxNum, hc.shutdown⟩
  | pushSignal hsignals hsignal => exact hsame (Core.signal_pool hsignal ▸ .refl _)
  | worker haction hworker => exact hsame hworker.sameBounds
  | _ => exact hsame ⟨rfl, rfl, rfl⟩

section Run

variable {ok : State Task → Action Task → Prop} {minNum maxNum : Nat} {s : State Task}
  {trace : List (Event Task)}

theorem Run.minNum_eq (h : Run ok minNum maxNum s trace) : s.core.pool.minNum = minNum :=
  h.core (I := fun c _ => c.pool.minNum = minNum) rfl
    fun _ _ _ _ _ hc _ hstep => hstep.bounds.1.trans hc

theorem Run.maxNum_eq (h : Run ok minNum maxNum s trace) : s.core.pool.maxNum = maxNum :=
  h.core (I := fun c _ => c.pool.maxNum = maxNum) rfl
    fun _ _ _ _ _ hc _ hstep => hstep.bounds.2.1.trans hc

/-- A pool that is not shut down has never been. -/
theorem Run.running (h : Run ok minNum maxNum s trace) (hshutdown : s.core.pool.shutdown = false) :
    Run (fun s action => ok s action ∧ s.core.pool.shutdown = false) minNum maxNum s trace := by
  induction h with
  | start => exact .start
  | step h hok hstep ih =>
    have hbefore := (State.step_core hstep).bounds.2.2 hshutdown
    exact (ih hbefore).step ⟨hok, hbefore⟩ hstep

end Run

end OJJudge.Pool
