import OJJudge.Sandbox.Machine
import OJJudge.Server.Process

/-! The sandbox mutex over all requests of the server and their jobs: a job releases it after every
test, so that no request is ever stuck while the process lives. -/

namespace OJJudge.Server

open Concurrency Storage Sandbox

/-! ### The mutex of the server -/

section Laws

variable {lib : Library} {mayFail : Op → Bool} {t : Nat} {o : Op} {x : Choice} {m m' : Storage.Memory}
  {r : o.Res}

theorem exec_lock {r : Unit} (h : Storage.exec lib mayFail t .lock x m = some (r, m'))
    (hsafe : mayFail .lock = false) : m.lock = none ∧ m' = { m with lock := some t } := by
  unfold Storage.exec at h
  split at h
  · cases h
  · next hfree =>
    rw [hsafe] at h
    cases h
    exact ⟨by simpa using hfree, rfl⟩

theorem exec_unlock {r : Int32} (h : Storage.exec lib mayFail t .unlock x m = some (r, m'))
    (hsafe : mayFail .unlock = false) : m' = { m with lock := none } := by
  unfold Storage.exec at h
  rw [hsafe] at h
  cases h
  rfl

/-- An operation other than the two on the mutex leaves it alone. -/
theorem lock_of_exec (hk : kind o = .plain) (h : Storage.exec lib mayFail t o x m = some (r, m')) :
    m'.lock = m.lock := by
  obtain hm | hm := mem_of_exec h
  · rw [hm]
  · subst hm
    cases o with
    | query stmt => cases stmt <;> rfl
    | lock | unlock => cases hk
    | _ => rfl

theorem exec_ready (hfree : kind o = .acquire → m.lock = none) :
    ∃ r m', Storage.exec lib mayFail t o x m = some (r, m') := by
  have hwaits : ¬(o = .lock ∧ m.lock.isSome = true) := by
    rintro ⟨rfl, hheld⟩
    rw [hfree rfl] at hheld
    cases hheld
  unfold Storage.exec
  rw [if_neg hwaits]
  split
  · exact ⟨_, _, rfl⟩
  · exact ⟨_, _, rfl⟩

end Laws

/-- The two operations on the mutex do not fail. -/
structure Locks (mayFail : Op → Bool) : Prop where
  lock : mayFail .lock = false
  unlock : mayFail .unlock = false

theorem locks_anyFault : Locks anyFault := ⟨rfl, rfl⟩

@[reducible] def mutex (lib : Library) {mayFail : Op → Bool} (hlocks : Locks mayFail) :
    Mutex (Storage.machine lib mayFail) where
  holder m := m.lock
  kind := kind
  acquire := by
    intro t o x m m' r hk h
    cases o with
    | lock =>
      obtain ⟨hfree, rfl⟩ := exec_lock h hlocks.lock
      exact ⟨hfree, rfl⟩
    | _ => cases hk
  release := by
    intro t o x m m' r hk h
    cases o with
    | unlock =>
      rw [exec_unlock h hlocks.unlock]
    | _ => cases hk
  plain hk h := lock_of_exec hk h
  ready _ _ _ hfree := ⟨.quiet, exec_ready hfree⟩

/-! ### The programs -/

/-- The program takes the mutex and releases it in turn. -/
abbrev Turns (p : Code Unit) : Prop := p.Pairs kind false

section Job

variable (conf : IsolateConf) (task : Runner_task)

theorem runTest_pairs (i : Nat) (input : String) (status : Int32) :
    (runTest conf task i input status).Pairs kind false := by
  simp only [runTest, system_spawn_cmd, effect_eq, Prog.op_bind, Prog.ret_bind]
  exact ⟨rfl, fun _ _ _ _ _ _ _ => ⟨rfl, fun _ => rfl⟩⟩

theorem runTests_pairs (tests : List (String × String)) (i : Nat) (status : Int32) :
    (runTests conf task i tests status).Pairs kind false := by
  induction tests generalizing i status with
  | nil => rfl
  | cons test rest ih =>
    exact Prog.Pairs.bind (fun status => ih (i + 1) status) (runTest_pairs conf task i test.1 status)

theorem compareTests_pairs (tests : List (String × String)) (i : Nat) :
    (compareTests conf task i tests).Pairs kind false := by
  induction tests generalizing i with
  | nil => rfl
  | cons test rest ih =>
    refine Prog.Pairs.bind (fun _ => ih (i + 1)) ?_
    simp only [compareTest, file_cmp, redis_set_field, redis_incr, redis_expire, effect_eq,
      Prog.op_bind, Prog.ret_bind]
    intro cmp_code
    dsimp only
    split
    · exact fun _ _ _ => rfl
    · exact fun _ _ => rfl

theorem removeFiles_pairs : Turns (removeFiles conf task) := fun _ _ => rfl

theorem reportError_pairs (file_name code : String) : Turns (reportError file_name code) :=
  fun _ _ => rfl

theorem cpp_runner_pairs : Turns (cpp_runner conf task) := by
  simp only [cpp_runner, system_spawn_cmd, effect_eq, Prog.op_bind, Prog.ret_bind]
  intro status
  dsimp only
  split
  · refine Prog.Pairs.bind (fun status => ?_) (runTests_pairs conf task _ 0 0)
    split
    · exact Prog.Pairs.bind (fun _ => removeFiles_pairs conf task) (compareTests_pairs conf task _ 0)
    · exact Prog.Pairs.bind (fun _ => removeFiles_pairs conf task) (reportError_pairs _ _)
  · exact Prog.Pairs.bind (fun _ => reportError_pairs _ _) (removeFiles_pairs conf task)

end Job

theorem runCpp_pairs (conf : IsolateConf) (user_name porblem_title : String) (body : Bytes) :
    Turns (runCpp conf user_name porblem_title body) := by
  simp only [runCpp, TaskPush, effect_eq, Prog.op_bind, Prog.ret_bind]
  intro sql_kv
  dsimp only
  split
  · intro _ _ _ _ _ _ _ _ mysql_kv
    dsimp only
    split
    · exact fun _ => rfl
    · exact fun _ _ => cpp_runner_pairs conf _
  · exact fun _ => rfl

theorem session_pairs {req : HttpReq} {next : String → Code Unit}
    (hnext : ∀ user_name, Turns (next user_name)) : Turns (session req next) := by
  unfold session
  split
  · rfl
  · intro v
    simp only [Prog.bind_eq, Prog.ret_bind, Prog.pure_eq]
    split
    · exact fun _ => rfl
    · exact hnext _

theorem withParams_pairs {req : HttpReq} {next : (String → String) → Code Unit}
    (hnext : ∀ KVpairs, Turns (next KVpairs)) : Turns (withParams req next) := by
  unfold withParams
  split
  · rfl
  · exact hnext _

/-- The operation leaves the mutex alone and queues nothing. -/
def Foreground : Op → Bool
  | .lock | .unlock | .push _ => false
  | _ => true

theorem Foreground.plain {o : Op} (h : Foreground o = true) : kind o = .plain := by
  cases o with
  | lock | unlock => cases h
  | _ => rfl

theorem request_foreground (lib : Library) {request : Request} (h : request.handler ≠ .runCpp) :
    (request.prog lib).Only fun o => Foreground o = true := by
  obtain ⟨handler, req⟩ := request
  unfold Request.prog
  cases handler with
  | runCpp => exact absurd rfl h
  | userRegist =>
    refine (UserInfo.userRegist_only lib req).mono fun o ho => ?_
    cases ho <;> rfl
  | userLogin =>
    refine (UserInfo.userLogin_only lib req).mono fun o ho => ?_
    cases ho <;> rfl
  | runState =>
    refine withParams_only fun _ _ => session_only (fun _ => rfl) rfl fun _ => ?_
    refine (runState_only ..).mono fun o ho => ?_
    cases ho <;> rfl
  | add_problem =>
    refine withParams_only fun _ _ => session_only (fun _ => rfl) rfl fun _ => ?_
    refine (add_problem_only ..).mono fun o ho => ?_
    cases ho <;> rfl
  | add_test_in =>
    refine withParams_only fun _ _ => session_only (fun _ => rfl) rfl fun _ => ?_
    refine (add_test_in_only ..).mono fun o ho => ?_
    cases ho <;> rfl
  | add_test_out =>
    refine withParams_only fun _ _ => session_only (fun _ => rfl) rfl fun _ => ?_
    refine (add_test_out_only ..).mono fun o ho => ?_
    cases ho <;> rfl
  | get_problem_list =>
    refine withParams_only fun _ _ => session_only (fun _ => rfl) rfl fun _ => ?_
    refine (get_problem_list_only _).mono fun o ho => ?_
    cases ho <;> rfl

theorem request_pairs (lib : Library) (request : Request) : Turns (request.prog lib) := by
  by_cases h : request.handler = .runCpp
  · obtain ⟨handler, req⟩ := request
    obtain rfl : handler = .runCpp := h
    unfold Request.prog Judge.runCpp
    exact withParams_pairs fun _ => session_pairs fun _ => runCpp_pairs _ _ _ _
  · exact ((request_foreground lib h).mono fun _ => Foreground.plain).pairs

section Runs

variable {lib : Library} {mayFail : Op → Bool} {ok : Config (Storage.machine lib mayFail) → Nat → Prop}
  {requests : Nat → Request} {m : Storage.Memory} {c : Config (Storage.machine lib mayFail)}

theorem disciplined (hlocks : Locks mayFail) (hlock : m.lock = none)
    (h : Reach ok (Storage.start lib mayFail requests m) c) :
    (mutex lib hlocks).Disciplined c :=
  Mutex.disciplined h hlock fun t => request_pairs lib (requests t)

/-- Submissions that do not throw keep the process alive. -/
theorem lives_of_submissions (h : Reach ok (Storage.start lib mayFail requests m) c)
    (hrunCpp : ∀ t, (requests t).handler = .runCpp)
    (hthrows : ∀ t, throws lib (requests t) = false) :
    Lives (Fatal lib requests noCrash) c.trace := by
  have honly := h.trace_only (K := fun _ => EndsNothing) rfl fun t =>
    submission_endsNothing (hrunCpp t)
  exact fun e he => not_fatal (hthrows e.1) (honly e he e.2.res)

end Runs

/-- No request of the server is ever stuck while the process lives: from every configuration, whatever
storage operations have failed so far, any requests that can be read can run to their ends, and then the
sandbox mutex is free, unless one of them ends the process on the way.  Meanwhile no other request has
to move but the one whose job holds the mutex. -/
theorem requests_can_finish (lib : Library) (requests : Nat → Request) (m : Storage.Memory)
    (crash : Nat → Event effects → Prop) (hlock : m.lock = none)
    {ok : Config (Storage.machine lib anyFault) → Nat → Prop}
    {c : Config (Storage.machine lib anyFault)}
    (h : Reach ok (Storage.start lib anyFault requests m) c)
    (hlives : Lives (Fatal lib requests crash) c.trace) (ts : List Nat)
    (hthrows : ∀ t ∈ ts, throws lib (requests t) = false) :
    (∀ t, c.mem.lock = some t → (c.prog t).returned = false) ∧
      CanReach (Fatal lib requests crash) (fun t => t ∈ ts ∨ c.mem.lock = some t) c fun c' =>
        c'.mem.lock = none ∧ ∀ t ∈ ts, Ended lib (requests t) (c'.prog t) := by
  have hdisciplined := disciplined locks_anyFault hlock h
  refine ⟨fun t hheld => ?_, ?_⟩
  · rw [← Bool.not_eq_true]
    exact fun hreturned => hdisciplined.not_holds hreturned hheld
  · refine (hdisciplined.drain hlives ts).mono (fun _ => id) fun c' ⟨hfree, hreturned⟩ => ?_
    exact ⟨hfree, fun t ht => ⟨hthrows t ht, hreturned t ht⟩⟩

/-- Alice has a session, and there is a problem with one test. -/
def Memory.oneProblem : Storage.Memory :=
  { Memory.account "alice" "student" with
    redis := fun key => if key = "OJ:t" then some "alice" else none
    problems_cpp := [⟨1, "p", "easy", "1000", "64", "bob", "1", "1"⟩]
    test_cases := [⟨"p", "p_input_0.txt", "p_output_0.txt"⟩] }

/-- Alice submits again and again. -/
def submissions (_ : Nat) : Request :=
  ⟨.runCpp, .sample "/solve?porblem_title=p&code_type=cpp" "token=t" "int main(){}"⟩

theorem throws_submissions (t : Nat) : throws .sample (submissions t) = false := by
  have hsame : submissions t = submissions 0 := rfl
  rw [hsame]
  decide +kernel

/-- The first job holds the mutex, and the second one waits for it. -/
theorem requests_can_finish_two :
    ∃ c, Reach anyOrder (Storage.start .sample anyFault submissions Memory.oneProblem) c ∧
      c.mem.lock = some 0 ∧ (c.prog 1).next? = some .lock ∧
      ∃ c', Reach anyOrder c c' ∧ c'.mem.lock = none ∧
        ∀ t ∈ [0, 1], (c'.prog t).returned = true := by
  obtain ⟨c, hc, hv⟩ := Config.exists_reach anyOrder
    (Storage.start .sample anyFault submissions Memory.oneProblem)
    (List.replicate 15 (0, .quiet) ++ List.replicate 14 (1, .quiet))
    (fun c => (c.mem.lock, (c.prog 1).next?)) (some 0, some .lock) (by decide +kernel)
  obtain ⟨hlock, hnext⟩ := Prod.mk.injEq .. ▸ hv
  obtain ⟨c', hc', -, hdone⟩ := (requests_can_finish .sample submissions Memory.oneProblem noCrash
    rfl hc (lives_of_submissions hc (fun _ => rfl) throws_submissions) [0, 1]
    fun t _ => throws_submissions t).2
  have hrun : Reach anyOrder c c' := hc'.weaken fun _ _ _ _ => trivial
  have hlives := lives_of_submissions (hc.trans hrun) (fun _ => rfl) throws_submissions
  obtain ⟨t, -, hend⟩ | ⟨-, hfree, hended⟩ := hdone
  · exact absurd hend (not_endsWith fun e he => hlives (t, e) he)
  · exact ⟨c, hc, hlock, hnext, c', hrun, hfree, fun t ht => (hended t ht).2⟩

end OJJudge.Server
