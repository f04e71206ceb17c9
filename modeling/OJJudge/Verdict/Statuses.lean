import OJJudge.Verdict.Outcome

/-! The sum of the statuses of a job.  `cpp_runner` adds up in 32 bits what `system_spawn_cmd`
returns, and takes a sum of zero for success of every command. -/

namespace OJJudge.Verdict

open Concurrency

/-! ### What `system_spawn_cmd` returns -/

/-- How a process ends.  Seven bits of a wait status are the signal, and 127 is no signal there. -/
inductive Ending
  | exited (code : UInt8)
  | signalled (signal : Nat) (core : Bool) (h : 0 < signal ∧ signal < 127)

/-- The wait status. -/
def Ending.status : Ending → Nat
  | exited code => 256 * code.toNat
  | signalled signal core _ => signal + if core then 128 else 0

/-- How `system_spawn_cmd` goes: up to the first call that fails, or to the end of the process. -/
inductive Spawned
  | wordexpFailed
  | noWords
  | spawnFailed
  | waitFailed
  | ended (ending : Ending)

/-- The value that `system_spawn_cmd` returns. -/
def Spawned.value : Spawned → Int32
  | wordexpFailed => -1
  | noWords => -1
  | spawnFailed => -1
  | waitFailed => -1
  | ended ending => Int32.ofNat ending.status

/-- The value is `-1` or in the range of the wait statuses. -/
def Returned (status : Int32) : Prop :=
  status = -1 ∨ 0 ≤ status.toInt ∧ status.toInt ≤ 65535

instance (status : Int32) : Decidable (Returned status) :=
  inferInstanceAs (Decidable (_ ∨ _ ∧ _))

theorem Ending.status_le (ending : Ending) : ending.status ≤ 65535 := by
  cases ending with
  | exited code =>
    have hcode := code.toNat_lt
    simp only [status]
    omega
  | signalled signal core h =>
    simp only [status]
    split <;> omega

theorem Spawned.returned_value (r : Spawned) : Returned r.value := by
  cases r with
  | ended ending =>
    have hle := ending.status_le
    have htoInt : (Int32.ofNat ending.status).toInt = ending.status :=
      Int32.toInt_ofNat_of_lt (by omega)
    right
    rw [value, htoInt]
    omega
  | _ => exact .inl rfl

/-! ### Sums in 32 bits -/

section Sums

variable {statuses : List Int32}

theorem foldl_add_eq_ofInt (statuses : List Int32) (status : Int32) :
    statuses.foldl (· + ·) status = status + Int32.ofInt (statuses.map Int32.toInt).sum := by
  induction statuses generalizing status with
  | nil => simp
  | cons s statuses ih =>
    rw [List.foldl_cons, ih, List.map_cons, List.sum_cons, Int32.ofInt_add, Int32.ofInt_toInt,
      Int32.add_assoc]

/-- A sum is zero in 32 bits when it is a multiple of `2 ^ 32`. -/
theorem foldl_add_eq_zero_iff :
    statuses.foldl (· + ·) 0 = 0 ↔ (2 ^ 32 : Int) ∣ (statuses.map Int32.toInt).sum := by
  rw [foldl_add_eq_ofInt, Int32.zero_add, ← Int32.toInt_inj, Int32.toInt_ofInt, Int32.toInt_zero]
  exact Int.dvd_iff_bmod_eq_zero.symm

/-- The number of values that are `-1`. -/
def failures (statuses : List Int32) : Nat := statuses.count (-1)

/-- The sum of the other values. -/
def waitStatuses (statuses : List Int32) : Nat :=
  (statuses.map fun status => status.toInt.toNat).sum

theorem sum_toInt (h : ∀ status ∈ statuses, Returned status) :
    (statuses.map Int32.toInt).sum = (waitStatuses statuses : Int) - failures statuses := by
  induction statuses with
  | nil => rfl
  | cons s statuses ih =>
    have hs := h s List.mem_cons_self
    have hsum := ih fun status hstatus => h status (List.mem_cons_of_mem _ hstatus)
    simp only [waitStatuses, failures] at hsum
    simp only [waitStatuses, failures, List.map_cons, List.sum_cons]
    rcases hs with rfl | ⟨hnonneg, hle⟩
    · rw [List.count_cons_self, hsum]
      have hvalue : (-1 : Int32).toInt = -1 := rfl
      rw [hvalue]
      omega
    · have hne : s ≠ -1 := by
        rintro rfl
        exact absurd hnonneg (by decide)
      rw [List.count_cons_of_ne hne, hsum]
      omega

theorem foldl_add_eq_zero_iff_modEq (h : ∀ status ∈ statuses, Returned status) :
    statuses.foldl (· + ·) 0 = 0 ↔ failures statuses ≡ waitStatuses statuses [MOD 2 ^ 32] := by
  rw [foldl_add_eq_zero_iff, sum_toInt h, Nat.modEq_iff_dvd]
  rfl

/-- All values are 0 when there is no `-1` and the other ones add up to 0. -/
theorem all_zero_iff (h : ∀ status ∈ statuses, Returned status) :
    (∀ status ∈ statuses, status = 0) ↔ failures statuses = 0 ∧ waitStatuses statuses = 0 := by
  rw [failures, List.count_eq_zero, waitStatuses, List.sum_eq_zero_iff, List.forall_mem_map]
  constructor
  · intro hzero
    refine ⟨fun hmem => absurd (hzero _ hmem) (by decide), fun status hstatus => ?_⟩
    rw [hzero status hstatus]
    rfl
  · rintro ⟨hnone, hzero⟩ status hstatus
    rcases h status hstatus with rfl | ⟨hnonneg, -⟩
    · exact absurd hstatus hnone
    · have htoNat := hzero status hstatus
      apply Int32.toInt.inj
      rw [Int32.toInt_zero]
      omega

/-- The sum is zero only for successes, unless the values `-1` offset the other ones in 32 bits. -/
theorem foldl_add_hides_iff (h : ∀ status ∈ statuses, Returned status) :
    (statuses.foldl (· + ·) 0 = 0 ↔ ∀ status ∈ statuses, status = 0) ↔
      (failures statuses ≡ waitStatuses statuses [MOD 2 ^ 32] →
        failures statuses = 0 ∧ waitStatuses statuses = 0) := by
  rw [foldl_add_eq_zero_iff_modEq h, all_zero_iff h]
  constructor
  · exact Iff.mp
  · intro honly
    refine ⟨honly, fun hzero => ?_⟩
    rw [hzero.1, hzero.2]

theorem bounds_of_returned (h : ∀ status ∈ statuses, Returned status) :
    failures statuses ≤ statuses.length ∧ waitStatuses statuses ≤ 65535 * statuses.length := by
  refine ⟨List.count_le_length, ?_⟩
  have hle := List.sum_le_card_nsmul (statuses.map fun status => status.toInt.toNat) 65535
    (List.forall_mem_map.mpr fun status hstatus => ?_)
  · rw [List.length_map, smul_eq_mul, Nat.mul_comm] at hle
    exact hle
  · rcases h status hstatus with rfl | ⟨-, hle⟩
    · decide
    · omega

/-- As long as the sum cannot wrap, only as many values `-1` as the other ones add up to offset
them. -/
theorem offset_iff_of_length (h : ∀ status ∈ statuses, Returned status)
    (hlength : 65535 * statuses.length < 2 ^ 32) :
    failures statuses ≡ waitStatuses statuses [MOD 2 ^ 32] ↔
      failures statuses = waitStatuses statuses := by
  obtain ⟨hfailures, hwait⟩ := bounds_of_returned h
  constructor
  · intro hmod
    exact hmod.eq_of_lt_of_lt (by omega) (by omega)
  · intro heq
    rw [heq]

end Sums

/-! ### The sum of the loop -/

theorem foldl_addStatus_eq (tests : List TestStatus) (status : Int32) :
    tests.foldl addStatus status = (tests.flatMap TestStatus.toList).foldl (· + ·) status := by
  induction tests generalizing status with
  | nil => rfl
  | cons test tests ih =>
    rw [List.foldl_cons, ih, List.flatMap_cons, List.foldl_append]
    simp [addStatus, TestStatus.toList]

theorem all_succeeded_iff {tests : List TestStatus} :
    (∀ status ∈ tests.flatMap TestStatus.toList, status = 0) ↔ ∀ test ∈ tests, test.Succeeded := by
  rw [List.forall_mem_flatMap]
  rfl

/-- The statuses add up to zero when all commands have succeeded, and only then. -/
theorem foldl_addStatus_eq_zero_iff {tests : List TestStatus}
    (hnonneg : ∀ s ∈ tests.flatMap TestStatus.toList, 0 ≤ s)
    (hsum : ((tests.flatMap TestStatus.toList).map Int32.toInt).sum < 2 ^ 31) :
    tests.foldl addStatus 0 = 0 ↔ ∀ test ∈ tests, test.Succeeded := by
  constructor
  · intro hzero
    have hnonneg' : ∀ x ∈ (tests.flatMap TestStatus.toList).map Int32.toInt, 0 ≤ x :=
      List.forall_mem_map.mpr fun s hs => Int32.le_iff_toInt_le.mp (hnonneg s hs)
    have htotal := List.sum_nonneg hnonneg'
    rw [foldl_addStatus_eq, foldl_add_eq_zero_iff] at hzero
    obtain ⟨k, hk⟩ := hzero
    rw [← all_succeeded_iff]
    intro s hs
    apply Int32.toInt.inj
    exact List.all_zero_of_le_zero_le_of_sum_eq_zero hnonneg' (by omega) (List.mem_map_of_mem hs)
  · exact foldl_addStatus

/-- The loop of a job returns a sum that is zero for successes only, unless the values `-1` offset
the other ones in 32 bits. -/
theorem sum_hides_iff (task : Runner_task) (t : Thread) {tests : List TestStatus} {s : Env}
    (hlen : task.test_vec.length = tests.length) (hlock : s.mem.lock = none)
    (hstatuses : s.statuses = tests.flatMap TestStatus.toList)
    (hreturned : ∀ status ∈ s.statuses, Returned status) :
    ∃ status s', (runTests OJ_Judge task 0 task.test_vec 0).runs (Env.exec t) s =
        some (status, s') ∧
      ((status = 0 ↔ ∀ test ∈ tests, test.Succeeded) ↔
        (failures s.statuses ≡ waitStatuses s.statuses [MOD 2 ^ 32] →
          failures s.statuses = 0 ∧ waitStatuses s.statuses = 0)) := by
  have hruns : (runTests OJ_Judge task 0 task.test_vec 0).runs (Env.exec t) s =
      some (tests.foldl addStatus 0, { s with statuses := [] }) :=
    runTests_runs task.test_vec tests 0 0 [] hlen hlock (by rw [hstatuses, List.append_nil])
  refine ⟨_, _, hruns, ?_⟩
  rw [foldl_addStatus_eq, ← hstatuses, ← foldl_add_hides_iff hreturned, hstatuses,
    all_succeeded_iff]

/-- With at most 10922 tests, only as many values `-1` as the other ones add up to hide failures. -/
theorem foldl_addStatus_hides_iff_of_few {tests : List TestStatus} {statuses : List Int32}
    (hfew : tests.length ≤ 10922) (hstatuses : statuses = tests.flatMap TestStatus.toList)
    (hreturned : ∀ status ∈ statuses, Returned status) :
    (tests.foldl addStatus 0 = 0 ↔ ∀ test ∈ tests, test.Succeeded) ↔
      (failures statuses = waitStatuses statuses → failures statuses = 0) := by
  have hlength : statuses.length = 6 * tests.length := by
    simp [hstatuses, List.length_flatMap, TestStatus.toList, Nat.mul_comm]
  rw [foldl_addStatus_eq, ← all_succeeded_iff, ← hstatuses, foldl_add_hides_iff hreturned,
    offset_iff_of_length hreturned (by omega)]
  constructor
  · intro honly heq
    exact (honly heq).1
  · intro honly heq
    have hnone := honly heq
    exact ⟨hnone, heq ▸ hnone⟩

/-- Two tests, in the first of which the sandbox cannot be started and two copies fail. -/
def someFail : List TestStatus :=
  [⟨Spawned.spawnFailed.value, (Spawned.ended (.exited 1)).value, 0, 0,
      (Spawned.ended (.exited 1)).value, 0⟩,
    ⟨0, 0, 0, 0, 0, 0⟩]

theorem sum_hides_iff_some_fail : ∃ status s',
    (runTests OJ_Judge ⟨OJ_Judge.waiting_judge, "u__p", "p", 2, [("1.in", "1.out"),
      ("2.in", "2.out")], rfl⟩ 0 [("1.in", "1.out"), ("2.in", "2.out")] 0).runs
        (Env.exec (.submission 0)) ⟨.ofProblem "p" [], someFail.flatMap TestStatus.toList, [], []⟩ =
          some (status, s') ∧
      (status = 0 ↔ ∀ test ∈ someFail, test.Succeeded) := by
  have hzero : Returned 0 := by decide
  obtain ⟨status, s', hruns, hiff⟩ := sum_hides_iff
    ⟨OJ_Judge.waiting_judge, "u__p", "p", 2, [("1.in", "1.out"), ("2.in", "2.out")], rfl⟩
    (.submission 0) (s := ⟨.ofProblem "p" [], someFail.flatMap TestStatus.toList, [], []⟩)
    (show 2 = someFail.length from rfl) rfl rfl
    (by simp [someFail, TestStatus.toList, Spawned.returned_value, hzero])
  exact ⟨status, s', hruns, hiff.mpr (by decide +kernel)⟩

/-- The sandbox cannot be initialised, and the copy of the executable is killed by signal 1. -/
def offsetting : TestStatus where
  init := Spawned.spawnFailed.value
  cpRunner := (Spawned.ended (.signalled 1 false (by decide))).value
  cpInput := 0
  run := 0
  cpOutput := 0
  cleanup := 0

/-- The sum is zero after two failures, and the job takes the test for passed. -/
theorem failures_offset :
    ∃ s', (runTests OJ_Judge ⟨OJ_Judge.waiting_judge, "u__p", "p", 1, [("1.in", "1.out")], rfl⟩ 0
        [("1.in", "1.out")] 0).runs (Env.exec (.submission 0))
          ⟨.ofProblem "p" [], offsetting.toList, [], []⟩ = some (0, s') ∧
      ¬offsetting.Succeeded ∧
      ∃ s'', (cpp_runner OJ_Judge ⟨OJ_Judge.waiting_judge, "u__p", "p", 1, [("1.in", "1.out")],
          rfl⟩).runs (Env.exec (.submission 0))
            ((Outcome.mk 0 [(offsetting, 1)]).env (.ofProblem "p" [])) = some ((), s'') ∧
        s''.mem.redis (testKey "u__p" 0) = some "1" := by
  refine ⟨⟨.ofProblem "p" [], [], [], []⟩, ?_, ?_, ?_⟩
  · exact runTests_runs [("1.in", "1.out")] [offsetting] 0 0 [] rfl rfl rfl
  · intro h
    exact absurd (h (-1) List.mem_cons_self) (by decide)
  · obtain ⟨s'', hruns, hmem, -⟩ := cpp_runner_runs (t := .submission 0)
      ⟨OJ_Judge.waiting_judge, "u__p", "p", 1, [("1.in", "1.out")], rfl⟩
      (o := ⟨0, [(offsetting, 1)]⟩) (m := .ofProblem "p" []) rfl rfl
    refine ⟨s'', hruns, ?_⟩
    rw [hmem, keys_of_total rfl rfl]
    simp [compareKeys, compareKey, Memory.setRedis, Function.update_of_ne]

end OJJudge.Verdict
