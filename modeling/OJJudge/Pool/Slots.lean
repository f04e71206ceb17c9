import OJJudge.Pool.Accounting

/-! The slots of `threadID`.  A worker lowers `liveNum` before it clears its slot, so the bound on
`liveNum` rests on the slots: every thread that exists has one of its own. -/

namespace OJJudge.Pool

open Concurrency

variable {Task : Type}

/-- Each thread that exists owns one slot, and every other slot is free. -/
structure Slots (c : Core Task) : Prop where
  nonzero : ∀ t, (c.worker t).exists? = true → t ≠ 0
  owns : ∀ t, (c.worker t).exists? = true → ∃ i < c.pool.maxNum, c.pool.threadID i = t
  unique : ∀ i < c.pool.maxNum, ∀ j < c.pool.maxNum, c.pool.threadID i ≠ 0 →
    c.pool.threadID i = c.pool.threadID j → i = j
  owner : ∀ i < c.pool.maxNum, c.pool.threadID i ≠ 0 →
    (c.worker (c.pool.threadID i)).exists? = true
  /-- The scan of `exitThread` has not passed the thread's slot. -/
  scan : ∀ t i, c.worker t = .scan i → ∀ j < i, c.pool.threadID j ≠ t
  clear : ∀ t i, c.worker t = .clear i → i < c.pool.maxNum ∧ c.pool.threadID i = t

/-- All calls of `pthread_create` succeed. -/
def CreatesAll : Action Task → Prop
  | .manager _ created _ => ∀ i, ∃ id, created i = .ok id
  | _ => True

namespace Slots

variable {c c' : Core Task} {t : Nat}

/-- A step of one thread that exists before and after it. -/
theorem setWorker (h : Slots c) (pool : ThreadPool Task) (new : Worker Task)
    (hexists : (c.worker t).exists? = true) (hnew : new.exists? = true)
    (hthreadID : pool.threadID = c.pool.threadID) (hmaxNum : pool.maxNum = c.pool.maxNum)
    (hscan : ∀ i, new = .scan i → ∀ j < i, c.pool.threadID j ≠ t)
    (hclear : ∀ i, new = .clear i → i < c.pool.maxNum ∧ c.pool.threadID i = t) :
    Slots ({ c with pool := pool }.setWorker t new) := by
  have hsame (u : Nat) : (({ c with pool := pool }.setWorker t new).worker u).exists? =
      (c.worker u).exists? := by
    by_cases hut : u = t
    · subst hut
      rw [Core.worker_setWorker_same, hnew, hexists]
    · rw [Core.worker_setWorker_ne _ t new hut]
  constructor
  · intro u hu
    exact h.nonzero u (hsame u ▸ hu)
  · intro u hu
    rw [hsame] at hu
    simpa [hthreadID, hmaxNum] using h.owns u hu
  · simpa [hthreadID, hmaxNum] using h.unique
  · intro i hi hne
    rw [hsame]
    simp only [Core.pool_setWorker, hthreadID, hmaxNum] at hi hne ⊢
    exact h.owner i hi hne
  · intro u i hu
    simp only [Core.pool_setWorker, hthreadID]
    by_cases hut : u = t
    · subst hut
      rw [Core.worker_setWorker_same] at hu
      exact hscan i hu
    · rw [Core.worker_setWorker_ne _ t new hut] at hu
      exact h.scan u i hu
  · intro u i hu
    simp only [Core.pool_setWorker, hthreadID, hmaxNum]
    by_cases hut : u = t
    · subst hut
      rw [Core.worker_setWorker_same] at hu
      exact hclear i hu
    · rw [Core.worker_setWorker_ne _ t new hut] at hu
      exact h.clear u i hu

/-- A step of one thread that stays in its loop. -/
theorem move (h : Slots c) (pool : ThreadPool Task) (new : Worker Task) {old : Worker Task}
    (hworker : c.worker t = old) (hexists : old.exists? = true) (hnew : new.inLoop = true)
    (hthreadID : pool.threadID = c.pool.threadID) (hmaxNum : pool.maxNum = c.pool.maxNum) :
    Slots ({ c with pool := pool }.setWorker t new) := by
  subst hworker
  refine h.setWorker pool new hexists ?_ hthreadID hmaxNum ?_ ?_
  · cases new <;> simp_all [Worker.inLoop, Worker.exists?]
  · rintro i rfl
    cases hnew
  · rintro i rfl
    cases hnew

theorem signal (h : Slots c) {wake : Option Nat} (hsignal : c.signal wake = some c') :
    Slots c' := by
  obtain ⟨t, hwaiting, rfl⟩ | ⟨-, rfl⟩ := Core.signal_cases hsignal
  · exact h.move c.pool .woken hwaiting rfl rfl rfl rfl
  · exact h

/-- A thread that exists finds its slot. -/
theorem not_missed (h : Slots c) {i : Nat} (hworker : c.worker t = .scan i) :
    i < c.pool.maxNum := by
  obtain ⟨j, hj, hslot⟩ := h.owns t (by rw [hworker]; rfl)
  by_contra hi
  exact h.scan t i hworker j (by omega) hslot

/-- The thread that clears its slot ends. -/
theorem clearSlot (h : Slots c) {i : Nat} (hworker : c.worker t = .clear i) :
    Slots ((c.setSlot i 0).setWorker t .gone) := by
  obtain ⟨hi, hslot⟩ := h.clear t i hworker
  have hother (u : Nat) (hu : u ≠ t) :
      ((c.setSlot i 0).setWorker t .gone).worker u = c.worker u :=
    Core.worker_setWorker_ne _ t .gone hu
  have hslots (j : Nat) : ((c.setSlot i 0).setWorker t .gone).pool.threadID j =
      if j = i then 0 else c.pool.threadID j := Function.update_apply ..
  have hne (u : Nat) (hu : (((c.setSlot i 0).setWorker t .gone).worker u).exists? = true) :
      u ≠ t := by
    rintro rfl
    rw [Core.worker_setWorker_same] at hu
    cases hu
  constructor
  · intro u hu
    rw [hother u (hne u hu)] at hu
    exact h.nonzero u hu
  · intro u hu
    have hut := hne u hu
    rw [hother u hut] at hu
    obtain ⟨j, hj, hown⟩ := h.owns u hu
    refine ⟨j, hj, ?_⟩
    rw [hslots, if_neg, hown]
    rintro rfl
    exact hut (hown.symm.trans hslot)
  · intro a ha b hb
    rw [hslots, hslots]
    intro hnonzero heq
    split at hnonzero
    · exact absurd rfl hnonzero
    · next hai =>
      rw [if_neg hai] at heq
      split at heq
      · exact absurd heq hnonzero
      · exact h.unique a ha b hb hnonzero heq
  · intro a ha
    rw [hslots]
    intro hnonzero
    split at hnonzero
    · exact absurd rfl hnonzero
    · next hai =>
      rw [if_neg hai, hother]
      · exact h.owner a ha hnonzero
      · intro heq
        exact hai (h.unique a ha i hi hnonzero (heq.trans hslot.symm))
  · intro u k hu j hj
    have hut := hne u (by rw [hu]; rfl)
    rw [hother u hut] at hu
    rw [hslots]
    split
    · exact (h.nonzero u (by rw [hu]; rfl)).symm
    · exact h.scan u k hu j hj
  · intro u k hu
    have hut := hne u (by rw [hu]; rfl)
    rw [hother u hut] at hu
    obtain ⟨hk, hown⟩ := h.clear u k hu
    refine ⟨hk, ?_⟩
    rw [hslots, if_neg, hown]
    rintro rfl
    exact hut (hown.symm.trans hslot)

theorem addWorker (h : Slots c) {i id : Nat} (hi : i < c.pool.maxNum)
    (hslot : c.pool.threadID i = 0) (hid : id ≠ 0) (hgone : (c.worker id).exists? = false) :
    Slots (c.addWorker i id) := by
  have hworkers (u : Nat) : (c.addWorker i id).worker u = if u = id then .top else c.worker u :=
    Function.update_apply ..
  have hslots (j : Nat) : (c.addWorker i id).pool.threadID j =
      if j = i then id else c.pool.threadID j := Function.update_apply ..
  -- No slot holds an id that is not in use.
  have hfree : ∀ j < c.pool.maxNum, c.pool.threadID j ≠ id := by
    rintro j hj rfl
    have howner := h.owner j hj hid
    rw [hgone] at howner
    cases howner
  constructor
  · intro u hu
    by_cases hu' : u = id
    · exact hu' ▸ hid
    · rw [hworkers, if_neg hu'] at hu
      exact h.nonzero u hu
  · intro u hu
    by_cases hu' : u = id
    · exact ⟨i, hi, by rw [hslots, if_pos rfl, hu']⟩
    · rw [hworkers, if_neg hu'] at hu
      obtain ⟨j, hj, hown⟩ := h.owns u hu
      refine ⟨j, hj, ?_⟩
      rw [hslots, if_neg, hown]
      rintro rfl
      exact h.nonzero u hu (hown.symm.trans hslot)
  · intro a ha b hb
    rw [hslots, hslots]
    intro hnonzero heq
    by_cases hai : a = i
    · by_cases hbi : b = i
      · rw [hai, hbi]
      · rw [if_pos hai, if_neg hbi] at heq
        exact absurd heq.symm (hfree b hb)
    · rw [if_neg hai] at hnonzero heq
      by_cases hbi : b = i
      · rw [if_pos hbi] at heq
        exact absurd heq (hfree a ha)
      · rw [if_neg hbi] at heq
        exact h.unique a ha b hb hnonzero heq
  · intro a ha
    rw [hslots]
    intro hnonzero
    by_cases hai : a = i
    · rw [if_pos hai, hworkers, if_pos rfl]
      rfl
    · rw [if_neg hai] at hnonzero ⊢
      rw [hworkers, if_neg (hfree a ha)]
      exact h.owner a ha hnonzero
  · intro u k hu j hj
    have hu' : u ≠ id := by
      rintro rfl
      simp [hworkers] at hu
    rw [hworkers, if_neg hu'] at hu
    rw [hslots]
    split
    · exact hu'.symm
    · exact h.scan u k hu j hj
  · intro u k hu
    have hu' : u ≠ id := by
      rintro rfl
      simp [hworkers] at hu
    rw [hworkers, if_neg hu'] at hu
    obtain ⟨hk, hown⟩ := h.clear u k hu
    refine ⟨hk, ?_⟩
    rw [hslots, if_neg, hown]
    rintro rfl
    exact h.nonzero u (by rw [hu]; rfl) (hown.symm.trans hslot)

theorem workerStep (h : Slots c) {e : Option (Event Task)} (hstep : c.WorkerStep t c' e)
    (hstay : ¬c.Leaves t) : Slots c' := by
  cases hstep with
  | wait hready hqueue => exact h.move c.pool .waiting rfl hready.idle.1 rfl rfl rfl
  | leave hready hshutdown => exact absurd ⟨hready, hshutdown⟩ hstay
  | @pop task rest hready hshutdown hqueue =>
    exact h.move { c.pool with task_queue := rest } (.popped task) rfl hready.idle.1 rfl rfl rfl
  | retire hworker hexit =>
    refine h.setWorker _ (.scan 0) (by rw [hworker]; rfl) rfl rfl rfl ?_ (by simp)
    intro i hi j hj
    cases hi
    omega
  | @signal task wake c₁ hworker hsignal =>
    exact (h.signal hsignal).move c₁.pool (.signalled task) (Core.signal_popped hsignal hworker)
      rfl rfl rfl rfl
  | @count task hworker => exact h.move (c.addBusy 1).pool (.counted task) hworker rfl rfl rfl rfl
  | @call task hworker => exact h.move c.pool (.calling task) hworker rfl rfl rfl rfl
  | finish hworker => exact h.move c.pool .returned hworker rfl rfl rfl rfl
  | uncount hworker => exact h.move (c.addBusy (-1)).pool .top hworker rfl rfl rfl rfl
  | @find i hworker hi hslot =>
    refine h.setWorker c.pool (.clear i) (by rw [hworker]; rfl) rfl rfl rfl (by simp) ?_
    intro j hj
    cases hj
    exact ⟨hi, hslot⟩
  | @look i hworker hi hslot =>
    refine h.setWorker c.pool (.scan (i + 1)) (by rw [hworker]; rfl) rfl rfl rfl ?_ (by simp)
    intro k hk j hj
    cases hk
    obtain hlt | rfl := Nat.lt_succ_iff_lt_or_eq.mp hj
    · exact h.scan t i hworker j hlt
    · exact hslot
  | miss hworker hi => exact absurd (h.not_missed hworker) (by omega)
  | clear hworker => exact h.clearSlot hworker

theorem step {s : State Task} (h : Slots s.core) {action : Action Task} {e : Option (Event Task)}
    (hstep : s.CoreStep action c' e) (hok : NoneLeaves s action) (hcreates : CreatesAll action) :
    Slots c' := by
  cases hstep with
  | stay => exact h
  | requestExit hrequests => exact ⟨h.nonzero, h.owns, h.unique, h.owner, h.scan, h.clear⟩
  | setWaitTime w => exact ⟨h.nonzero, h.owns, h.unique, h.owner, h.scan, h.clear⟩
  | shutdown => exact ⟨h.nonzero, h.owns, h.unique, h.owner, h.scan, h.clear⟩
  | signal hsignal => exact h.signal hsignal
  | create haction hmanager hcreate =>
    subst haction
    apply Core.createAll_induct ?_ ?_ h hcreate
    · intro c i id hc hi hslot hid hgone
      exact hc.addWorker hi hslot hid hgone
    · intro c i left hc hcreated _ _
      obtain ⟨id, hid⟩ := hcreates i
      rw [hid] at hcreated
      cases hcreated
  | push haction => exact ⟨h.nonzero, h.owns, h.unique, h.owner, h.scan, h.clear⟩
  | pushSignal hsignals hsignal =>
    have hc := h.signal hsignal
    exact ⟨hc.nonzero, hc.owns, hc.unique, hc.owner, hc.scan, hc.clear⟩
  | worker haction hworker =>
    subst haction
    exact h.workerStep hworker hok
  | spurious hworker => exact h.move s.core.pool .woken hworker rfl rfl rfl rfl

/-- No more workers are in their loop than there are slots. -/
theorem inLoop_card_le (h : Slots c) : c.inLoop.card ≤ c.pool.maxNum := by
  have hsub : c.inLoop ⊆ (Finset.range c.pool.maxNum).image c.pool.threadID := by
    intro t ht
    obtain ⟨i, hi, hown⟩ := h.owns t (Worker.exists_of_inLoop (Finset.mem_filter.mp ht).2)
    exact Finset.mem_image.mpr ⟨i, Finset.mem_range.mpr hi, hown⟩
  calc c.inLoop.card
      ≤ ((Finset.range c.pool.maxNum).image c.pool.threadID).card := Finset.card_le_card hsub
    _ ≤ (Finset.range c.pool.maxNum).card := Finset.card_image_le
    _ = c.pool.maxNum := Finset.card_range _

end Slots

section Run

variable {minNum maxNum : Nat} {s : State Task} {trace : List (Event Task)}

theorem Run.slots {ok : State Task → Action Task → Prop} (h : Run ok minNum maxNum s trace)
    (hok : ∀ s action, ok s action → NoneLeaves s action ∧ CreatesAll action) : Slots s.core := by
  refine h.core (I := fun c _ => Slots c) ?_ ?_
  · exact ⟨fun _ h => absurd h Bool.false_ne_true, fun _ h => absurd h Bool.false_ne_true,
      fun _ _ _ _ h => absurd rfl h, fun _ _ h => absurd rfl h, fun _ _ h => (nomatch h),
      fun _ _ h => (nomatch h)⟩
  · intro s action c' e trace hc hsok hstep
    exact hc.step hstep (hok s action hsok).1 (hok s action hsok).2

/-- No worker leaves through the branch for `shutdown` while the pool runs. -/
theorem noneLeaves_of_running (action : Action Task) (h : s.core.pool.shutdown = false) :
    NoneLeaves s action := by
  cases action with
  | worker t wake =>
    rintro ⟨-, hshutdown⟩
    rw [h] at hshutdown
    cases hshutdown
  | _ => trivial

/-- The accounts of a pool that is not shut down. -/
theorem thread_accounting (h : Run (fun _ action => CreatesAll action) minNum maxNum s trace)
    (hshutdown : s.core.pool.shutdown = false) :
    (∀ t, (s.core.worker t).exists? = true →
        ∃! i, i < maxNum ∧ s.core.pool.threadID i = t) ∧
      (∀ i < maxNum, s.core.pool.threadID i ≠ 0 →
        (s.core.worker (s.core.pool.threadID i)).exists? = true) ∧
      s.core.pool.liveNum = s.core.inLoop.card ∧
      0 ≤ s.core.pool.busyNum ∧ s.core.pool.busyNum ≤ s.core.pool.liveNum ∧
      s.core.pool.liveNum ≤ maxNum ∧ 0 ≤ s.core.pool.exitNum := by
  have hrun := h.running hshutdown
  have hslots := hrun.slots fun s action hok => ⟨noneLeaves_of_running action hok.2, hok.1⟩
  have haccounts := hrun.accounts fun s action hok => noneLeaves_of_running action hok.2
  have hmaxNum := h.maxNum_eq
  have hbusy : s.core.isBusy.card ≤ s.core.inLoop.card := by
    apply Finset.card_le_card
    intro t ht
    rw [Core.isBusy, Finset.mem_filter] at ht
    exact Finset.mem_filter.mpr ⟨ht.1, Worker.inLoop_of_isBusy ht.2⟩
  have hlive := hslots.inLoop_card_le
  have hliveNum := haccounts.live_eq
  have hbusyNum := haccounts.busy_eq
  rw [hmaxNum] at hlive
  refine ⟨?_, ?_, hliveNum, by omega, by omega, by omega, haccounts.exitNum⟩
  · intro t ht
    obtain ⟨i, hi, hown⟩ := hslots.owns t ht
    refine ⟨i, ⟨hmaxNum ▸ hi, hown⟩, ?_⟩
    rintro j ⟨hj, hown'⟩
    have hne : s.core.pool.threadID j ≠ 0 := hown'.symm ▸ hslots.nonzero t ht
    exact hslots.unique j (hmaxNum.symm ▸ hj) i hi hne (hown'.trans hown.symm)
  · intro i hi hne
    exact hslots.owner i (hmaxNum.symm ▸ hi) hne

end Run

theorem thread_accounting_one : ∃ s : State Nat, s.core.worker 1 = .clear 0 ∧
    (∀ t, (s.core.worker t).exists? = true → ∃! i, i < 1 ∧ s.core.pool.threadID i = t) ∧
      (∀ i < 1, s.core.pool.threadID i ≠ 0 →
        (s.core.worker (s.core.pool.threadID i)).exists? = true) ∧
      s.core.pool.liveNum = s.core.inLoop.card ∧
      0 ≤ s.core.pool.busyNum ∧ s.core.pool.busyNum ≤ s.core.pool.liveNum ∧
      s.core.pool.liveNum ≤ (1 : Nat) ∧ 0 ≤ s.core.pool.exitNum := by
  have hactions : ∀ action ∈ oneTask ++ [.worker 1 none] ++
      List.replicate 7 (.manager true numbered none) ++
      [.manager true numbered (some 1), .worker 1 none, .worker 1 none], CreatesAll action := by
    simp [oneTask, growing, CreatesAll, numbered]
  obtain ⟨s, trace, hrun, hv⟩ := exists_run_of_actions CreatesAll 0 1 _ hactions
    (fun s _ => (s.core.worker 1, s.core.pool.shutdown)) (.clear 0, false) (by decide)
  simp only [Prod.mk.injEq] at hv
  exact ⟨s, hv.1, thread_accounting hrun hv.2⟩

end OJJudge.Pool
