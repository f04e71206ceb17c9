import OJJudge.Pool.Retiring
import OJJudge.Streak

/-! The idle timer of the manager, which ends the pool after `waitTime` ticks without a busy worker.
The manager runs here against threads that do anything to the pool between two of its steps, so that
its ticks read any sequence of values of `busyNum`. -/

namespace OJJudge.Pool

open Streak

variable {Task : Type} {w : Int} {s s' : State Task} {readings : List Int}

namespace State

/-- What the manager reads next at its tick. -/
def reading? (s : State Task) : Option Int :=
  if s.manager = .tick then some s.core.pool.busyNum else none

/-- A step of the manager while `waitTime` is `w`. -/
def ManagerStep (w : Int) (s s' : State Task) : Prop :=
  s.core.pool.waitTime = w ∧ ∃ first created wake, s.managerStep first created wake = some s'

/-- The step begins the final loop. -/
def StartsKilling (s s' : State Task) : Prop :=
  s.manager.killing = false ∧ s'.manager.killing = true

end State

/-- The states that the manager reaches, whatever the other threads do between its steps, with the
values of `busyNum` at its ticks so far. -/
inductive ManagerRun (w : Int) : State Task → List Int → Prop
  | start (core : Core Task) (destructor : Destructor) :
      ManagerRun w ⟨core, .top, 0, destructor⟩ []
  | others {s : State Task} {readings : List Int} (h : ManagerRun w s readings) (core : Core Task)
      (destructor : Destructor) :
      ManagerRun w { s with core := core, destructor := destructor } readings
  | step {s s' : State Task} {readings : List Int} (h : ManagerRun w s readings)
      (hstep : s.ManagerStep w s') : ManagerRun w s' (readings ++ s.reading?.toList)

/-- The last `w` readings are 0. -/
def Idle (w : Int) (readings : List Int) : Prop := List.replicate w.toNat 0 <:+ readings

/-! ### The variable `time` -/

theorem State.reading?_tick (h : s.manager = .tick) :
    s.reading?.toList = [s.core.pool.busyNum] := by
  rw [reading?, if_pos h, Option.toList_some]

theorem State.reading?_other (h : s.manager ≠ .tick) : s.reading?.toList = [] := by
  rw [reading?, if_neg h, Option.toList_none]

/-- What a step of the manager reads at its tick, and what it does to `time`. -/
inductive State.TimerStep (s s' : State Task) : Prop
  | tick (hmanager : s.manager = .tick) (hreading : s.reading?.toList = [s.core.pool.busyNum])
      (hnext : s'.manager = .check)
      (htime : s'.time = if s.core.pool.busyNum = 0 then (s.time + 1) % (INT_MAX - 1) else 0)
  | check (hmanager : s.manager = .check) (hreading : s.reading?.toList = [])
      (hnext : s'.manager = if s.core.pool.waitTime ≤ s.time then .kill else .top)
      (htime : s'.time = s.time)
  | other (hcheck : s.manager ≠ .check) (hreading : s.reading?.toList = [])
      (hkills : s.manager.kills = true → s'.manager.kills = true) (htime : s'.time = s.time)

theorem State.managerStep_timer {first : Bool} {created : Nat → Core.Created} {wake : Option Nat}
    (h : s.managerStep first created wake = some s') : s.TimerStep s' := by
  unfold managerStep at h
  split at h
  case h_6 hmanager | h_12 hmanager | h_17 hmanager =>
    obtain ⟨core, -, rfl⟩ := Option.map_eq_some_iff.mp h
    exact .other (by simp [hmanager]) (reading?_other (by simp [hmanager]))
      (by simp [hmanager, Manager.kills]) rfl
  case h_13 hmanager =>
    cases h
    exact .tick hmanager (reading?_tick hmanager) rfl rfl
  case h_14 hmanager =>
    cases h
    exact .check hmanager (reading?_other (by simp [hmanager])) rfl rfl
  case h_15 hmanager =>
    cases h
    refine .other (by simp [hmanager]) (reading?_other (by simp [hmanager])) ?_ rfl
    simp only [setManager]
    split <;> simp [Manager.kills]
  case h_18 => cases h
  all_goals
    cases h
    exact .other (by simp [*]) (reading?_other (by simp [*])) (by simp [*, Manager.kills]) rfl

/-- The value of `time` after the readings. -/
def timeOf (readings : List Int) : Nat :=
  counter (State.INT_MAX - 1) (fun busyNum => busyNum = 0) readings

theorem timeOf_concat (busyNum : Int) : timeOf (readings ++ [busyNum]) =
    if busyNum = 0 then (timeOf readings + 1) % (State.INT_MAX - 1) else 0 := by
  simp [timeOf, counter_concat]

theorem timeOf_lt : timeOf readings < State.INT_MAX - 1 := counter_lt (by decide)

/-- `time` shows the readings so far. -/
theorem ManagerRun.time_eq (h : ManagerRun w s readings) : s.time = timeOf readings := by
  induction h with
  | start core destructor => rfl
  | others h core destructor ih => exact ih
  | step h hstep ih =>
    obtain ⟨-, first, created, wake, hstep⟩ := hstep
    cases State.managerStep_timer hstep with
    | tick hmanager hreading hnext htime => rw [htime, hreading, timeOf_concat, ih]
    | check hmanager hreading hnext htime => rw [htime, ih, hreading, List.append_nil]
    | other hcheck hreading hkills htime => rw [htime, ih, hreading, List.append_nil]

/-- The increment of `time` fits `int`. -/
theorem ManagerRun.time_succ_le (h : ManagerRun w s readings) : s.time + 1 ≤ State.INT_MAX := by
  have hlt : timeOf readings < State.INT_MAX - 1 := timeOf_lt
  rw [h.time_eq]
  omega

/-! ### The readings -/

/-- The manager at the given place, in a pool in which it goes straight to its tick and reads
`busyNum` there. -/
def State.ofBusyNum (s : State Task) (w busyNum : Int) (manager : Manager) : State Task where
  core :=
    { pool :=
        { task_queue := []
          threadID := fun _ => 0
          minNum := 0
          maxNum := 0
          busyNum := busyNum
          liveNum := busyNum * 2
          exitNum := 0
          waitTime := w
          shutdown := false }
      worker := fun _ => .gone
      threads := ∅
      signals := 0 }
  manager := manager
  time := s.time
  destructor := s.destructor

section OfBusyNum

variable {busyNum : Int} {manager : Manager}

theorem ManagerRun.ofBusyNum (h : ManagerRun w s readings) (busyNum : Int)
    (hmanager : s.manager = manager) : ManagerRun w (s.ofBusyNum w busyNum manager) readings := by
  subst hmanager
  exact h.others (s.ofBusyNum w busyNum s.manager).core s.destructor

theorem State.managerStep_ofBusyNum
    (h : (s.ofBusyNum w busyNum manager).managerStep true (fun _ => .failed 0) none = some s') :
    (s.ofBusyNum w busyNum manager).ManagerStep w s' :=
  ⟨rfl, true, fun _ => .failed 0, none, h⟩

theorem ManagerRun.next (h : ManagerRun w (s.ofBusyNum w busyNum manager) readings)
    (manager' : Manager) (hmanager : manager ≠ .tick)
    (hstep : (s.ofBusyNum w busyNum manager).managerStep true (fun _ => .failed 0) none =
      some (s.ofBusyNum w busyNum manager')) :
    ManagerRun w (s.ofBusyNum w busyNum manager') readings := by
  have hrun := h.step (State.managerStep_ofBusyNum hstep)
  rwa [State.reading?_other hmanager, List.append_nil] at hrun

/-- The manager reads any value at its next tick. -/
theorem ManagerRun.read (h : ManagerRun w s readings) (htop : s.manager = .top) (busyNum : Int) :
    ∃ s' : State Task, ManagerRun w s' (readings ++ [busyNum]) ∧ s'.manager = .check := by
  have hless : State.lessTasks busyNum 0 = false := by
    simpa [State.lessTasks] using Int.emod_nonneg busyNum (by decide)
  have hgrow := (h.ofBusyNum busyNum htop).next .grow (by simp) rfl
  have hsize := hgrow.next (.growSize busyNum) (by simp) rfl
  have hshrink := hsize.next (.shrink false) (by simp)
    (by simp [State.managerStep, State.ofBusyNum, State.setManager, hless])
  have hlive := hshrink.next (.shrinkLiveNum false busyNum) (by simp) rfl
  have htick := hlive.next .tick (by simp)
    (by simp [State.managerStep, State.shrinkBranch, State.ofBusyNum, State.setManager])
  exact ⟨_, htick.step (State.managerStep_ofBusyNum rfl), rfl⟩

end OfBusyNum

/-- Every sequence of readings is read in some run, as long as `time` stays below `w`. -/
theorem exists_managerRun
    (h : ∀ earlier, earlier <+: readings → earlier ≠ readings → (timeOf earlier : Int) < w) :
    ∃ s : State Task, ManagerRun w s readings ∧
      s.manager = if readings = [] then .top else .check := by
  induction readings using List.reverseRecOn with
  | nil => exact ⟨_, .start (State.init Task 0 0).core .notCalled, rfl⟩
  | append_singleton readings busyNum ih =>
    have hprefix : readings <+: readings ++ [busyNum] := List.prefix_append readings [busyNum]
    have hne : readings ≠ readings ++ [busyNum] := by simp
    obtain ⟨s, hrun, hmanager⟩ := ih fun earlier hearlier _ =>
      h earlier (hearlier.trans hprefix) (ne_of_beginning hearlier hprefix hne)
    rw [if_neg (by simp)]
    split at hmanager
    · exact hrun.read hmanager busyNum
    · have htime := h readings hprefix hne
      rw [← hrun.time_eq] at htime
      have htop := (hrun.ofBusyNum 0 hmanager).next .top (by simp)
        (by simp [State.managerStep, State.ofBusyNum, State.setManager, htime])
      exact htop.read rfl busyNum

/-! ### The beginning of the final loop -/

/-- Until the final loop begins, no reading has brought `time` up to `n`; the last reading may have
done so while the manager has yet to look at `waitTime`. -/
structure Timed (n : Nat) (s : State Task) (readings : List Int) : Prop where
  before : ∀ earlier, earlier <+: readings → earlier ≠ readings → timeOf earlier < n
  latest : s.manager.kills = false → s.manager ≠ .check → timeOf readings < n

theorem Timed.all_lt {n : Nat} (h : Timed n s readings) (hkills : s.manager.kills = false)
    (hcheck : s.manager ≠ .check) {earlier : List Int} (hearlier : earlier <+: readings) :
    timeOf earlier < n := by
  by_cases hall : earlier = readings
  · rw [hall]
    exact h.latest hkills hcheck
  · exact h.before earlier hearlier hall

theorem ManagerRun.timed {n : Nat} (h : ManagerRun n s readings) (hn : 1 ≤ n) :
    Timed n s readings := by
  induction h with
  | start core destructor =>
    refine ⟨fun earlier hearlier hne => ?_, fun _ _ => hn⟩
    exact absurd (List.prefix_nil.mp hearlier) hne
  | others h core destructor ih => exact ⟨ih.before, ih.latest⟩
  | @step s s' readings h hstep ih =>
    obtain ⟨hwait, first, created, wake, hstep⟩ := hstep
    cases State.managerStep_timer hstep with
    | tick hmanager hreading hnext htime =>
      rw [hreading]
      refine ⟨fun earlier hearlier hne => ?_, fun _ hcheck => absurd hnext hcheck⟩
      rcases List.prefix_concat_iff.mp hearlier with heq | hprefix
      · exact absurd heq hne
      · exact ih.all_lt (by rw [hmanager]; rfl) (by simp [hmanager]) hprefix
    | check hmanager hreading hnext htime =>
      rw [hreading, List.append_nil]
      refine ⟨ih.before, fun hkills _ => ?_⟩
      rw [← h.time_eq]
      split at hnext
      · rw [hnext] at hkills
        cases hkills
      · omega
    | other hcheck hreading hkills htime =>
      rw [hreading, List.append_nil]
      refine ⟨ih.before, fun hnot _ => ih.latest ?_ hcheck⟩
      by_contra hkilling
      rw [hkills (Bool.not_eq_false _ ▸ hkilling)] at hnot
      cases hnot

theorem idle_iff {n : Nat} :
    Idle n readings ↔ n ≤ streak (fun busyNum => decide (busyNum = 0)) readings := by
  rw [Idle, Int.toNat_natCast, replicate_suffix_iff]

/-- The last `n` readings are 0 for the first time when `time` comes to `n`. -/
theorem Timed.first_idle_iff {n : Nat} (h : Timed n s readings) (hn : n < State.INT_MAX - 1) :
    First (Idle n) readings ↔ n ≤ timeOf readings := by
  have hidle : Idle n = fun readings => n ≤ streak (fun busyNum => decide (busyNum = 0)) readings :=
    funext fun readings => propext idle_iff
  rw [hidle]
  exact first_streak_iff hn h.before

/-- The readings have not ended with `n` zeros while the manager goes on. -/
theorem Timed.not_idle {n : Nat} (h : Timed n s readings) (hn : n < State.INT_MAX - 1)
    (hkills : s.manager.kills = false) (hcheck : s.manager ≠ .check) {earlier : List Int}
    (hearlier : earlier <+: readings) : ¬Idle n earlier := by
  rw [idle_iff, not_le]
  exact streak_lt_of_lt hn fun start hstart => h.all_lt hkills hcheck (hstart.trans hearlier)

/-- The final loop begins when the manager finds `time` at `waitTime`. -/
theorem State.startsKilling_iff (h : s.ManagerStep w s') :
    s.StartsKilling s' ↔ s.manager = .check ∧ w ≤ s.time := by
  obtain ⟨rfl, first, created, wake, hstep⟩ := h
  constructor
  · rintro ⟨hbefore, hafter⟩
    rcases managerStep_killing hstep hafter with hkilling | ⟨hcheck, htime, -⟩
    · rw [hbefore] at hkilling
      cases hkilling
    · exact ⟨hcheck, htime⟩
  · rintro ⟨hcheck, htime⟩
    cases managerStep_timer hstep with
    | tick hmanager => simp [hcheck] at hmanager
    | check hmanager hreading hnext =>
      rw [if_pos htime] at hnext
      exact ⟨by rw [hcheck]; rfl, by rw [hnext]; rfl⟩
    | other hne => exact absurd hcheck hne

/-- With a bound that `time` does not reach, the final loop never begins. -/
theorem ManagerRun.never_kills (h : ManagerRun w s readings) (hw : State.INT_MAX - 1 ≤ w) :
    s.manager.killing = false := by
  induction h with
  | start core destructor => rfl
  | others h core destructor ih => exact ih
  | @step s s' readings h hstep ih =>
    by_contra hkilling
    obtain ⟨-, htime⟩ := (State.startsKilling_iff hstep).mp ⟨ih, Bool.not_eq_false _ ▸ hkilling⟩
    have hlt : timeOf readings < State.INT_MAX - 1 := timeOf_lt
    rw [h.time_eq] at htime
    omega

/-- The increment of `time` never overflows.  The final loop begins at the first tick that ends
`waitTime` readings of 0 in a row, when `waitTime` is below `INT_MAX - 1`, and never otherwise. -/
theorem idle_timer_exact (h : ManagerRun w s readings) :
    s.time + 1 ≤ State.INT_MAX ∧
    (1 ≤ w → w ≤ State.INT_MAX - 2 →
      (∀ s', s.ManagerStep w s' →
        (s.StartsKilling s' ↔ s.manager = .check ∧ First (Idle w) readings)) ∧
      (s.manager.kills = false → s.manager ≠ .check →
        ∀ earlier, earlier <+: readings → ¬Idle w earlier)) ∧
    (w = State.INT_MAX - 1 ∨ w = State.INT_MAX → s.manager.killing = false) := by
  refine ⟨h.time_succ_le, fun hpos hle => ?_, fun hw => h.never_kills (by omega)⟩
  obtain ⟨n, rfl⟩ := Int.eq_ofNat_of_zero_le (show 0 ≤ w by omega)
  have hn : n < State.INT_MAX - 1 := by omega
  have htimed := h.timed (by omega)
  refine ⟨fun s' hstep => ?_, fun hkills hcheck _ => htimed.not_idle hn hkills hcheck⟩
  rw [State.startsKilling_iff hstep, htimed.first_idle_iff hn, h.time_eq, Int.ofNat_le]

/-- A busy worker at the first tick and none at the next two. -/
theorem idle_timer_exact_two : ∃ s s' : State Nat, ManagerRun 2 s [1, 0, 0] ∧ s.StartsKilling s' ∧
    s.manager = .check ∧ First (Idle 2) [1, 0, 0] := by
  have hbelow : ∀ earlier ∈ List.inits [1, 0, 0], earlier ≠ [1, 0, 0] → timeOf earlier < 2 := by
    decide
  have hexists : ∃ s : State Nat, ManagerRun 2 s [1, 0, 0] ∧
      s.manager = if [(1 : Int), 0, 0] = [] then .top else .check := by
    apply exists_managerRun
    intro earlier hearlier hne
    exact_mod_cast hbelow earlier ((List.mem_inits _ _).mpr hearlier) hne
  obtain ⟨s, hrun, hcheck⟩ := hexists
  have hnow := hrun.ofBusyNum 0 (hcheck.trans (if_neg (by simp)))
  obtain ⟨s', hstep⟩ : ∃ s', (s.ofBusyNum 2 0 .check).ManagerStep 2 s' :=
    ⟨_, State.managerStep_ofBusyNum rfl⟩
  have hstarts : (s.ofBusyNum 2 0 .check).StartsKilling s' := by
    refine (State.startsKilling_iff hstep).mpr ⟨rfl, ?_⟩
    rw [hnow.time_eq]
    decide
  have hexact := ((idle_timer_exact hnow).2.1 (by decide) (by decide)).1 s' hstep
  exact ⟨_, s', hnow, hstarts, hexact.mp hstarts⟩

/-! ### The manager of a pool -/

section Pool

variable {minNum maxNum : Nat} {trace : List (Event Task)} {action : Action Task}
  {e : Option (Event Task)}

/-- The manager finds `waitTime` at `w` in its steps. -/
def ReadsWait (w : Int) (s : State Task) : Action Task → Prop
  | .manager _ _ _ => s.core.pool.waitTime = w
  | _ => True

/-- What the manager of a pool does, it does against some other threads. -/
theorem Run.managerRun (h : Run (ReadsWait w) minNum maxNum s trace) :
    ∃ readings, ManagerRun w s readings := by
  induction h with
  | start => exact ⟨[], .start _ .notCalled⟩
  | @step s s' trace action e h hok hstep ih =>
    obtain ⟨readings, hrun⟩ := ih
    rcases State.step_others hstep with hsame | ⟨first, created, wake, rfl, hmanager⟩
    · rw [hsame]
      exact ⟨readings, hrun.others s'.core s'.destructor⟩
    · exact ⟨_, hrun.step ⟨hok, first, created, wake, hmanager⟩⟩

theorem Core.signal_waitTime {c c' : Core Task} {wake : Option Nat} (h : c.signal wake = some c') :
    c'.pool.waitTime = c.pool.waitTime := by
  rw [signal_pool h]

theorem Core.WorkerStep.waitTime {c c' : Core Task} {t : Nat} (h : c.WorkerStep t c' e) :
    c'.pool.waitTime = c.pool.waitTime := by
  cases h with
  | signal hworker hsignal =>
    have hwait := Core.signal_waitTime hsignal
    exact hwait
  | _ => rfl

theorem State.managerStep_waitTime {first : Bool} {created : Nat → Core.Created}
    {wake : Option Nat} (h : s.managerStep first created wake = some s') :
    s'.core.pool.waitTime = s.core.pool.waitTime := by
  unfold managerStep at h
  split at h
  case h_6 =>
    obtain ⟨core, hcreate, rfl⟩ := Option.map_eq_some_iff.mp h
    exact Core.createAll_induct (I := fun c => c.pool.waitTime = s.core.pool.waitTime)
      (fun c i id hc _ _ _ _ => hc) (fun c i left hc _ _ _ => hc) rfl hcreate
  case h_12 | h_17 =>
    obtain ⟨core, hsignal, rfl⟩ := Option.map_eq_some_iff.mp h
    exact Core.signal_waitTime hsignal
  case h_18 => cases h
  all_goals
    cases h
    rfl

theorem State.destructorStep_waitTime {wake : Option Nat} (h : s.destructorStep wake = some s') :
    s'.core.pool.waitTime = s.core.pool.waitTime := by
  unfold destructorStep at h
  split at h
  case h_4 =>
    obtain ⟨core, hsignal, rfl⟩ := Option.map_eq_some_iff.mp h
    exact Core.signal_waitTime hsignal
  case h_5 => cases h
  all_goals
    cases h
    rfl

/-- Only `wait` sets `waitTime`. -/
theorem State.step_waitTime (h : s.step action = some (s', e)) (hwait : ∀ w, action ≠ .wait w) :
    s'.core.pool.waitTime = s.core.pool.waitTime := by
  cases step_steps h with
  | push task => rfl
  | pushSignal hsignals hsignal =>
    have hsame := Core.signal_waitTime hsignal
    exact hsame
  | worker hworker => exact (Core.workerStep_step hworker).waitTime
  | spurious hwaiting => rfl
  | manager hmanager => exact managerStep_waitTime hmanager
  | wait w => exact absurd rfl (hwait w)
  | destructor hdestructor => exact destructorStep_waitTime hdestructor

/-- Without a call of `wait`, `waitTime` is the value that the constructor sets, and the manager
never begins its final loop. -/
theorem never_kills_without_wait
    (h : Run (fun _ action => ∀ w, action ≠ .wait w) minNum maxNum s trace) :
    s.core.pool.waitTime = State.INT_MAX ∧ s.manager.killing = false := by
  have hrun : Run (ReadsWait State.INT_MAX) minNum maxNum s trace ∧
      s.core.pool.waitTime = State.INT_MAX := by
    induction h with
    | start => exact ⟨.start, rfl⟩
    | @step s s' trace action e h hok hstep ih =>
      obtain ⟨hrun, hwait⟩ := ih
      refine ⟨hrun.step ?_ hstep, (State.step_waitTime hstep hok).trans hwait⟩
      cases action with
      | manager first created wake => exact hwait
      | _ => trivial
  obtain ⟨readings, hmanager⟩ := hrun.1.managerRun
  exact ⟨hrun.2, hmanager.never_kills (by decide)⟩

end Pool

end OJJudge.Pool
