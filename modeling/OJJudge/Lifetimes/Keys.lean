import OJJudge.Concurrency.Debts
import OJJudge.Lifetimes.Machine
import OJJudge.Storage.Sessions

/-! Which keys can stay for ever.  Every handler and every job sets the deadline of the keys that it
binds by `SET`; an `INCR` of a missing key leaves it without one, as it does to the counters of the
uploads and to the sum of a job that outlasts the deadline of its submission. -/

namespace OJJudge.Lifetimes

open Concurrency Storage

/-! ### What a step does to a key -/

/-- How a key that is there after a step has come there. -/
inductive KeyStep (o : Op) (m m' : Memory) (key : String) : Prop
  | kept (hthere : (m.store.redis key).isSome = true) (hdeadline : m'.deadline key = m.deadline key)
      (hcounted : m'.counted key = m.counted key) (ho : ∀ seconds, o ≠ .expire key seconds)
      (hdue : ∀ d, m'.deadline key = some d → m'.now ≤ d)
  | set (v : String) (ho : o = .set key v) (hdeadline : m'.deadline key = none)
      (hcounted : m'.counted key = false)
  | count (ho : o = .incr key) (hdeadline : m'.deadline key = none)
      (hcounted : m'.counted key = true)
  | expire (seconds : Nat) (ho : o = .expire key seconds)
      (hdeadline : m'.deadline key = some (m'.now + seconds))

section Steps

variable {lib : Library} {mayFail : Op → Bool} {t : Nat} {o : Op} {x : Choice} {m m' : Memory}
  {r : o.Res} {key : String}

/-- The key is there because it has been there before. -/
theorem KeyStep.of_kept (hthere : ((m.wait x.elapsed).store.redis key).isSome = true)
    (hnow : m'.now = m.now + x.elapsed) (hdeadline : m'.deadline key = m.deadline key)
    (hcounted : m'.counted key = m.counted key) (ho : ∀ seconds, o ≠ .expire key seconds) :
    KeyStep o m m' key := by
  obtain ⟨hbefore, hdue⟩ := m.of_redis_wait hthere
  exact .kept hbefore hdeadline hcounted ho fun d hd => hnow ▸ hdue d (hdeadline ▸ hd)

theorem now_of_exec (h : exec lib mayFail t o x m = some (r, m')) : m'.now = m.now + x.elapsed := by
  obtain ⟨-, -, rfl⟩ | ⟨-, rfl⟩ := exec_cases h
  · rfl
  · show ((m.wait x.elapsed).stamp o).now = m.now + x.elapsed
    rw [Memory.now_stamp, Memory.now_wait]

theorem exec_key (h : exec lib mayFail t o x m = some (r, m'))
    (hexpire : ∀ key seconds, mayFail (.expire key seconds) = false)
    (hthere : (m'.store.redis key).isSome = true) : KeyStep o m m' key := by
  have hnow := now_of_exec h
  obtain ⟨hfail, -, rfl⟩ | ⟨-, rfl⟩ := exec_cases h
  · refine .of_kept hthere hnow rfl rfl ?_
    rintro seconds rfl
    rw [hexpire] at hfail
    cases hfail
  · cases o with
    | set key' v =>
      by_cases hkey : key = key'
      · subst hkey
        exact .set v rfl (Function.update_self ..) (Function.update_self ..)
      · have hsame : (Function.update (m.wait x.elapsed).store.redis key' (some v) key).isSome = true :=
          hthere
        rw [Function.update_of_ne hkey] at hsame
        exact .of_kept hsame hnow (Function.update_of_ne hkey _ _) (Function.update_of_ne hkey _ _)
          (by simp)
    | incr key' =>
      have hstore : (Function.update (m.wait x.elapsed).store.redis key'
          (incrValue ((m.wait x.elapsed).store.redis key')) key).isSome = true := hthere
      by_cases hold : ((m.wait x.elapsed).store.redis key').isSome = true
      · have hstamp : (m.wait x.elapsed).stamp (.incr key') = m.wait x.elapsed := if_pos hold
        rw [hstamp] at hnow ⊢
        refine .of_kept ?_ hnow rfl rfl (by simp)
        by_cases hkey : key = key'
        · exact hkey ▸ hold
        · rwa [Function.update_of_ne hkey] at hstore
      · have hstamp : (m.wait x.elapsed).stamp (.incr key') =
            { m.wait x.elapsed with
              deadline := Function.update m.deadline key' none
              counted := Function.update m.counted key' true } := if_neg hold
        rw [hstamp] at hnow ⊢
        by_cases hkey : key = key'
        · subst hkey
          exact .count rfl (Function.update_self ..) (Function.update_self ..)
        · rw [Function.update_of_ne hkey] at hstore
          exact .of_kept hstore hnow (Function.update_of_ne hkey _ _) (Function.update_of_ne hkey _ _)
            (by simp)
    | expire key' seconds =>
      have hstore : ((m.wait x.elapsed).store.redis key).isSome = true := hthere
      by_cases hold : ((m.wait x.elapsed).store.redis key').isSome = true
      · have hstamp : (m.wait x.elapsed).stamp (.expire key' seconds) =
            { m.wait x.elapsed with
              deadline := Function.update m.deadline key' (some (m.now + x.elapsed + seconds)) } :=
          if_pos hold
        rw [hstamp] at hnow ⊢
        by_cases hkey : key = key'
        · subst hkey
          exact .expire seconds rfl (Function.update_self ..)
        · refine .of_kept hstore hnow (Function.update_of_ne hkey _ _) rfl fun seconds' heq => ?_
          cases heq
          exact hkey rfl
      · have hstamp : (m.wait x.elapsed).stamp (.expire key' seconds) = m.wait x.elapsed := if_neg hold
        rw [hstamp] at hnow ⊢
        refine .of_kept hstore hnow rfl rfl fun seconds' heq => ?_
        cases heq
        exact hold hstore
    | del key' =>
      have hstore : (Function.update (m.wait x.elapsed).store.redis key' none key).isSome = true :=
        hthere
      refine .of_kept ?_ hnow rfl rfl (by simp)
      by_cases hkey : key = key'
      · rw [hkey, Function.update_self] at hstore
        cases hstore
      · rwa [Function.update_of_ne hkey] at hstore
    | query stmt =>
      have hstore : ((m.wait x.elapsed).store.redis key).isSome = true := by
        cases stmt <;> exact hthere
      exact .of_kept hstore hnow rfl rfl (by simp)
    | _ => exact .of_kept hthere hnow rfl rfl (by simp)

end Steps

/-! ### Deadlines to come -/

/-- The handlers give a deadline to the keys that they bind by `SET`. -/
def bracket : Op → Bracket String
  | .set key _ => .opens key
  | .expire key _ => .closes key
  | _ => .plain

/-- The key is there without a deadline, and no `INCR` has made it. -/
def Memory.Bare (m : Memory) (key : String) : Prop :=
  (m.store.redis key).isSome = true ∧ m.deadline key = none ∧ m.counted key = false

theorem KeyStep.bare {o : Op} {m m' : Memory} {key : String} (h : KeyStep o m m' key)
    (hbare : m'.Bare key) :
    (∃ v, o = .set key v) ∨ m.Bare key ∧ ∀ seconds, o ≠ .expire key seconds := by
  obtain ⟨-, hdeadline, hcounted⟩ := hbare
  cases h with
  | kept hthere hsame hsame' ho hdue =>
    exact .inr ⟨⟨hthere, hsame ▸ hdeadline, hsame' ▸ hcounted⟩, ho⟩
  | set v ho _ _ => exact .inl ⟨v, ho⟩
  | count ho _ hcount =>
    rw [hcounted] at hcount
    cases hcount
  | expire seconds ho hset =>
    rw [hdeadline] at hset
    cases hset

/-- The commands that set a deadline do not fail. -/
def Expires (mayFail : Op → Bool) : Prop := ∀ key seconds, mayFail (.expire key seconds) = false

/-- A `SET` opens its key, and an `EXPIRE` closes it. -/
@[reducible] def ledger (lib : Library) {mayFail : Op → Bool} (hexpires : Expires mayFail) :
    Ledger (machine lib mayFail) String where
  isOpen := Memory.Bare
  bracket := bracket
  opens := by
    intro t o x m m' r key place ho h hopen
    obtain ⟨v, rfl⟩ | ⟨hbefore, -⟩ := (exec_key h hexpires hopen.1).bare hopen
    · cases ho
      exact .inl rfl
    · exact .inr hbefore
  closes := by
    intro t o x m m' r key place ho h hopen
    obtain ⟨v, rfl⟩ | ⟨hbefore, hother⟩ := (exec_key h hexpires hopen.1).bare hopen
    · cases ho
    · refine ⟨?_, hbefore⟩
      rintro rfl
      cases o with
      | expire key seconds =>
        cases ho
        exact hother seconds rfl
      | _ => cases ho
  plain := by
    intro t o x m m' r place ho h hopen
    obtain ⟨v, rfl⟩ | ⟨hbefore, -⟩ := (exec_key h hexpires hopen.1).bare hopen
    · cases ho
    · exact hbefore

/-! ### The programs -/

/-- The program sets the deadline of every key that it binds by `SET`. -/
abbrev Settled (p : Code Unit) : Prop := p.Settles bracket none

section Job

variable (conf : IsolateConf) (task : Runner_task)

theorem runTests_settles (tests : List (String × String)) (i : Nat) (status : Int32) :
    (runTests conf task i tests status).Settles bracket none := by
  induction tests generalizing i status with
  | nil => rfl
  | cons test rest ih =>
    refine Prog.Settles.bind (fun status => ih (i + 1) status) ?_
    simp only [runTest, system_spawn_cmd, effect_eq, Prog.op_bind, Prog.ret_bind]
    exact fun _ _ _ _ _ _ _ _ => rfl

theorem compareTests_settles (tests : List (String × String)) (i : Nat) :
    Settled (compareTests conf task i tests) := by
  induction tests generalizing i with
  | nil => rfl
  | cons test rest ih =>
    refine Prog.Settles.bind (fun _ => ih (i + 1)) ?_
    simp only [compareTest, file_cmp, redis_set_field, redis_incr, redis_expire, effect_eq,
      Prog.op_bind, Prog.ret_bind]
    intro cmp_code
    dsimp only
    split
    · exact ⟨rfl, fun _ _ => ⟨rfl, fun _ => rfl⟩⟩
    · exact ⟨rfl, fun _ => ⟨rfl, fun _ => rfl⟩⟩

theorem reportError_settles (file_name code : String) : Settled (reportError file_name code) :=
  ⟨rfl, fun _ => ⟨rfl, fun _ => rfl⟩⟩

theorem removeFiles_settles : Settled (removeFiles conf task) := fun _ _ => rfl

theorem cpp_runner_settles : Settled (cpp_runner conf task) := by
  simp only [cpp_runner, system_spawn_cmd, effect_eq, Prog.op_bind, Prog.ret_bind]
  intro status
  dsimp only
  split
  · refine Prog.Settles.bind (fun status => ?_) (runTests_settles conf task _ 0 0)
    split
    · exact (compareTests_settles conf task _ 0).bind fun _ => removeFiles_settles conf task
    · exact (reportError_settles _ _).bind fun _ => removeFiles_settles conf task
  · exact (removeFiles_settles conf task).bind fun _ => reportError_settles _ _

end Job

theorem runCpp_settles (conf : IsolateConf) (user_name porblem_title : String) (body : Bytes) :
    Settled (runCpp conf user_name porblem_title body) := by
  simp only [runCpp, TaskPush, effect_eq, Prog.op_bind, Prog.ret_bind]
  intro sql_kv
  dsimp only
  split
  · intro _ _ _ _
    refine ⟨rfl, fun _ => ⟨rfl, fun _ => ⟨rfl, fun _ => ⟨rfl, fun _ mysql_kv => ?_⟩⟩⟩⟩
    dsimp only
    split
    · exact fun _ => rfl
    · exact fun _ _ => cpp_runner_settles conf _
  · exact fun _ => rfl

theorem session_settles {req : HttpReq} {next : String → Code Unit}
    (hnext : ∀ user_name, Settled (next user_name)) : Settled (session req next) := by
  unfold session
  split
  · rfl
  · intro v
    simp only [Prog.bind_eq, Prog.ret_bind, Prog.pure_eq]
    split
    · exact fun _ => rfl
    · exact hnext _

theorem withParams_settles {req : HttpReq} {next : (String → String) → Code Unit}
    (hnext : ∀ KVpairs, Settled (next KVpairs)) : Settled (withParams req next) := by
  unfold withParams
  split
  · rfl
  · exact hnext _

theorem add_test_in_settles (conf : IsolateConf) (Creater_user_id problem_id case_id : String)
    (body : Bytes) : Settled (add_test_in conf Creater_user_id problem_id case_id body) := by
  intro sql_kv
  simp only [Prog.bind_eq, Prog.ret_bind]
  split
  · split
    · exact fun _ => rfl
    · exact fun _ _ _ => ⟨rfl, fun _ => ⟨rfl, fun _ => rfl⟩⟩
  · exact fun _ => rfl

theorem userLogin_settles (lib : Library) (req : HttpReq) : Settled (UserInfo.userLogin lib req) := by
  intro _ _ _
  simp only [Prog.bind_eq, Prog.ret_bind, Prog.pure_eq]
  split
  · intro _ password form
    simp only [Prog.bind_eq, Prog.ret_bind]
    unfold login_mysqlCallBack
    split
    · exact fun _ _ => rfl
    · exact fun _ _ => rfl
    · exact fun _ => rfl
    · exact fun _ _ _ => ⟨rfl, fun _ => ⟨rfl, fun _ => rfl⟩⟩
  · rfl

theorem request_settles (lib : Library) (request : Request) : Settled (request.prog lib) := by
  obtain ⟨handler, req⟩ := request
  unfold Request.prog
  cases handler with
  | userRegist =>
    refine ((UserInfo.userRegist_only lib req).mono fun o ho => ?_).settles
    cases ho <;> rfl
  | userLogin => exact userLogin_settles lib req
  | runCpp => exact withParams_settles fun _ => session_settles fun _ => runCpp_settles _ _ _ _
  | runState =>
    refine withParams_settles fun _ => session_settles fun _ => ((runState_only _ _).mono ?_).settles
    intro o ho
    cases ho <;> rfl
  | add_problem =>
    refine withParams_settles fun _ => session_settles fun _ =>
      ((add_problem_only _ _ _).mono ?_).settles
    intro o ho
    cases ho <;> rfl
  | add_test_in =>
    exact withParams_settles fun _ => session_settles fun _ => add_test_in_settles _ _ _ _ _
  | add_test_out =>
    refine withParams_settles fun _ => session_settles fun _ =>
      ((add_test_out_only _ _ _ _ _).mono ?_).settles
    intro o ho
    cases ho <;> rfl
  | get_problem_list =>
    refine withParams_settles fun _ => session_settles fun _ =>
      ((get_problem_list_only _).mono ?_).settles
    intro o ho
    cases ho <;> rfl

/-- A key that is counted up: the sum of a submission, or the counter of the uploads. -/
def IsCount (key : String) : Prop := (∃ f, key = sumKey f) ∨ ∃ problem_id, key = counterKey problem_id

/-- The longest time limit, that of a session. -/
def longest : Nat := 259200

/-- What an operation says about deadlines. -/
def Limits : Op → Prop
  | .expire _ seconds => seconds ≤ longest
  | .incr key => IsCount key
  | _ => True

theorem runner_limits {conf : IsolateConf} {task : Runner_task} {o : Op}
    (ho : RunnerOp conf task o) : Limits o := by
  cases ho with
  | count => exact .inl ⟨_, rfl⟩
  | expireTest i => exact show 40 ≤ longest by decide
  | expireSum => exact show 40 ≤ longest by decide
  | _ => trivial

theorem request_limits (lib : Library) (request : Request) : (request.prog lib).Only Limits := by
  obtain ⟨handler, req⟩ := request
  unfold Request.prog
  cases handler with
  | userRegist =>
    refine (UserInfo.userRegist_only lib req).mono fun o ho => ?_
    cases ho <;> trivial
  | userLogin =>
    refine (UserInfo.userLogin_only lib req).mono fun o ho => ?_
    cases ho with
    | expireSession token => exact Nat.le_refl longest
    | _ => trivial
  | runCpp =>
    refine withParams_only fun _ _ => session_only (fun _ => trivial) trivial fun _ => ?_
    refine (runCpp_only ..).mono fun o ho => ?_
    cases ho with
    | job task _ _ ho => exact runner_limits ho
    | expireJudge => exact show 40 ≤ longest by decide
    | expireSum => exact show 40 ≤ longest by decide
    | _ => trivial
  | runState =>
    refine withParams_only fun _ _ => session_only (fun _ => trivial) trivial fun _ => ?_
    refine (runState_only ..).mono fun o ho => ?_
    cases ho <;> trivial
  | add_problem =>
    refine withParams_only fun _ _ => session_only (fun _ => trivial) trivial fun _ => ?_
    refine (add_problem_only ..).mono fun o ho => ?_
    cases ho <;> trivial
  | add_test_in =>
    refine withParams_only fun _ _ => session_only (fun _ => trivial) trivial fun _ => ?_
    refine (add_test_in_only ..).mono fun o ho => ?_
    cases ho with
    | expireMarker => exact show 1000 ≤ longest by decide
    | _ => trivial
  | add_test_out =>
    refine withParams_only fun _ _ => session_only (fun _ => trivial) trivial fun _ => ?_
    refine (add_test_out_only ..).mono fun o ho => ?_
    cases ho with
    | count => exact .inr ⟨_, rfl⟩
    | _ => trivial
  | get_problem_list =>
    refine withParams_only fun _ _ => session_only (fun _ => trivial) trivial fun _ => ?_
    refine (get_problem_list_only _).mono fun o ho => ?_
    cases ho <;> trivial

end OJJudge.Lifetimes
