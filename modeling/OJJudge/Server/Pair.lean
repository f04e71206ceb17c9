import OJJudge.NameSpaces
import OJJudge.Server.Locking
import OJJudge.Verdict.Pass

/-! The server as one user and one problem see it.  `pairView` keeps of a configuration of the whole
server what the submissions and the polls of the pair read and write, and every run of the server in
which the other requests keep to their own keys and rows is a run of the pair's machine. -/

namespace OJJudge.Server

open Concurrency

/-! ### The requests of the pair -/

/-- The thread of a request to the problem in the machine of the pair. -/
def pairThread (title : String) (request : Storage.Request) (t : Nat) : Option Verdict.Thread :=
  if request.req.KVpairs.map (fun KVpairs => text (KVpairs.get "porblem_title")) = some title then
    match request.handler with
    | .runCpp => some (.submission t)
    | .runState => some (.poll t)
    | _ => none
  else none

/-- A session check that finds the user. -/
def grants (user : String) : Event effects → Bool
  | ⟨.get _, v⟩ => v = some user
  | _ => false

/-- The first operation of a request, its session check, has found the user. -/
def entered (user : String) (t : Nat) (trace : List (Nat × Event effects)) : Bool :=
  (own t trace).getLast?.any (grants user)

section Entered

variable {user : String} {t u : Nat} {e : Event effects} {trace : List (Nat × Event effects)}

theorem entered_cons_ne (h : u ≠ t) : entered user t ((u, e) :: trace) = entered user t trace := by
  rw [entered, own_cons_ne h, entered]

theorem entered_first (h : own t trace = []) :
    entered user t ((t, e) :: trace) = grants user e := by
  rw [entered, own_cons_same, h]
  rfl

theorem entered_later (h : own t trace ≠ []) :
    entered user t ((t, e) :: trace) = entered user t trace := by
  rw [entered, own_cons_same, List.getLast?_cons_of_ne_nil h, entered]

theorem own_ne_nil_of_entered (h : entered user t trace = true) : own t trace ≠ [] := by
  intro hnil
  rw [entered, hnil] at h
  cases h

/-- A request stays the one of its user. -/
theorem entered_mono (h : entered user t trace = true) : entered user t ((u, e) :: trace) = true := by
  by_cases hu : u = t
  · subst hu
    rw [entered_later (own_ne_nil_of_entered h), h]
  · rw [entered_cons_ne hu, h]

end Entered

/-! ### The view of the pair -/

section View

variable (user title : String) (requests : Nat → Storage.Request)

/-- The thread that the request runs for the pair. -/
def member (trace : List (Nat × Event effects)) (t : Nat) : Option Verdict.Thread :=
  if entered user t trace then pairThread title (requests t) t else none

/-- The events of the pair. -/
def pairTrace : List (Nat × Event effects) → List (Verdict.Thread × Event effects)
  | [] => []
  | e :: earlier =>
    match member user title requests earlier e.1 with
    | some thread => (thread, e.2) :: pairTrace earlier
    | none => pairTrace earlier

open Classical in
/-- The keys and the rows of the pair. -/
noncomputable def pairMemory (m : Storage.Memory) (lock : Option Verdict.Thread) :
    Verdict.Memory where
  redis key := if key ∈ keysOf (fileName user title) then m.redis key else none
  lock := lock
  problems_cpp := (m.problems_cpp.filter (·.title = title)).map fun row =>
    ⟨toString row.problem_id, row.title, row.test_num⟩
  test_cases := (m.test_cases.filter (·.problem_id = title)).map fun row =>
    ⟨row.problem_id, row.input_file_path, row.output_file_path⟩
  submissions := (m.submissions.filter fun row => row.user_id = user ∧ row.problem_id = title).map
    fun row => ⟨row.user_id, row.problem_id, row.result⟩

/-- The request of a thread. -/
def number : Verdict.Thread → Nat
  | .submission k | .poll k => k

/-- The program of a thread of the pair from where its request has passed the session check. -/
def pairProgram : Verdict.Thread → Code Unit
  | .submission k => runCpp OJ_Judge user title (requests k).req.body
  | .poll _ => runState user title

/-- The configuration of the server as the pair sees it. -/
noncomputable def pairView {lib : Library} {mayFail : Op → Bool}
    (c : Config (Storage.machine lib mayFail)) : Config Verdict.machine where
  prog thread :=
    if member user title requests c.trace (number thread) = some thread then c.prog (number thread)
    else pairProgram user title requests thread
  mem := pairMemory user title c.mem (c.mem.lock.bind (member user title requests c.trace))
  trace := pairTrace user title requests c.trace

end View

/-! ### Operations -/

section Operations

variable (user title : String)

/-- The operations of the pair on its keys, its rows and the mutex. -/
def Stored : Op → Prop
  | .get key | .set key _ | .incr key | .expire key _ | .del key => key ∈ keysOf (fileName user title)
  | .query (.selectProblemId problem) | .query (.selectTestCases problem)
  | .query (.selectTestNum problem) => problem = title
  | .query (.insertSubmission user_id problem_id _) => user_id = user ∧ problem_id = title
  | .lock | .unlock => True
  | _ => False

/-- The operations of the pair on files, commands and responses. -/
def Outside : Op → Prop
  | .openFile _ | .write _ _ | .close _ | .push _ | .spawn _ | .file_cmp _ _ | .set_status_code _
  | .append_output_body _ => True
  | _ => False

/-- The operations of the submissions and the polls of the pair. -/
def PairOp (o : Op) : Prop := Stored user title o ∨ Outside o

/-- The operation keeps the keys and the rows of the pair. -/
def Apart : Op → Prop
  | .set key _ | .incr key | .del key => key ∉ keysOf (fileName user title)
  | .query (.insertSubmission user_id problem_id _) => ¬(user_id = user ∧ problem_id = title)
  | .query (.deleteTestCases problem_id) => problem_id ≠ title
  | .query (.insertProblem problem_id _ _ _ _ _ _) => problem_id ≠ title
  | .query (.insertTestCase problem_id _ _) => problem_id ≠ title
  | _ => True

variable {user title}

theorem Outside.apart {o : Op} (ho : Outside o) : Apart user title o := by
  cases o with
  | set _ _ | incr _ | del _ | query _ => exact ho.elim
  | _ => trivial

theorem judgeKey_mem_keysOf (f : String) : judgeKey f ∈ keysOf f := by simp [keysOf]

theorem sumKey_mem_keysOf (f : String) : sumKey f ∈ keysOf f := by simp [keysOf]

theorem testKey_mem_keysOf (f : String) (i : Nat) : testKey f i ∈ keysOf f := by simp [keysOf]

theorem submissionOp_pairOp {conf : IsolateConf} {body : Bytes} {o : Op}
    (ho : SubmissionOp conf user title body o) : PairOp user title o := by
  cases ho with
  | selectProblem | selectTests => exact .inl rfl
  | setJudge | expireJudge => exact .inl (judgeKey_mem_keysOf _)
  | reset | expireSum => exact .inl (sumKey_mem_keysOf _)
  | openFile | write _ | close _ | status _ | push _ => exact .inr trivial
  | job task hpath hname ho =>
    cases ho with
    | lock | unlock => exact .inl trivial
    | setTest i _ | expireTest i => exact .inl (hname ▸ testKey_mem_keysOf task.file_name i)
    | count | setError _ | expireSum => exact .inl (hname ▸ sumKey_mem_keysOf task.file_name)
    | _ => exact .inr trivial

theorem stateOp_pairOp {o : Op} (ho : StateOp user title o) : PairOp user title o := by
  cases ho with
  | selectTestNum => exact .inl rfl
  | getSum => exact .inl (sumKey_mem_keysOf _)
  | getTest i | delTest i => exact .inl (testKey_mem_keysOf _ i)
  | insertSubmission result => exact .inl ⟨rfl, rfl⟩
  | status _ | body _ => exact .inr trivial

end Operations

section Memory

variable {user title : String} {lib : Library} {mayFail : Op → Bool} {t : Nat}
  {thread : Verdict.Thread} {o : Op} {x : Storage.Choice} {m m' : Storage.Memory} {r : o.Res}
  {lock lock' : Option Verdict.Thread}

theorem pairMemory_redis {key : String} (hkey : key ∈ keysOf (fileName user title)) :
    (pairMemory user title m lock).redis key = m.redis key := if_pos hkey

theorem pairMemory_setRedis_ne {key : String} (hkey : key ∉ keysOf (fileName user title))
    (value : Option String) :
    pairMemory user title (m.setRedis key value) lock = pairMemory user title m lock := by
  unfold pairMemory
  congr 1
  funext key'
  split
  · next hmem =>
    have hne : key' ≠ key := by
      rintro rfl
      exact hkey hmem
    exact Function.update_of_ne hne _ _
  · rfl

theorem pairMemory_setRedis {key : String} (hkey : key ∈ keysOf (fileName user title))
    (value : Option String) : pairMemory user title (m.setRedis key value) lock =
      (pairMemory user title m lock).setRedis key value := by
  unfold pairMemory Verdict.Memory.setRedis
  congr 1
  funext key'
  by_cases hsame : key' = key
  · subst hsame
    simp [Storage.Memory.setRedis, hkey]
  · simp [Storage.Memory.setRedis, hsame]

/-- An operation apart from the pair does not change what the pair sees. -/
theorem Apart.pairMemory_after (ho : Apart user title o) (files : String → Option Bytes) :
    pairMemory user title (m.after lib t files o) lock = pairMemory user title m lock := by
  cases o with
  | set key value => exact pairMemory_setRedis_ne ho _
  | incr key => exact pairMemory_setRedis_ne ho _
  | del key => exact pairMemory_setRedis_ne ho _
  | query stmt =>
    cases stmt with
    | insertSubmission user_id problem_id result =>
      unfold pairMemory
      congr 1
      simp only [Storage.Memory.after, Storage.Memory.apply, List.filter_append, List.map_append]
      rw [List.filter_cons_of_neg (by simpa [Apart] using ho), List.filter_nil, List.map_nil,
        List.append_nil]
    | deleteTestCases problem_id =>
      unfold pairMemory
      congr 2
      simp only [Storage.Memory.after, Storage.Memory.apply, List.filter_filter]
      refine List.filter_congr fun row _ => ?_
      by_cases hrow : row.problem_id = title
      · simp [hrow, Ne.symm ho]
      · simp [hrow]
    | insertProblem problem_id difficulty time_limit memory_limit author_id is_public test_num =>
      unfold pairMemory
      congr 1
      have hrow : decide (problem_id = title) = false := decide_eq_false ho
      simp [Storage.Memory.after, Storage.Memory.apply, List.filter_append, hrow]
    | insertTestCase problem_id input_file_path output_file_path =>
      unfold pairMemory
      congr 1
      have hrow : decide (problem_id = title) = false := decide_eq_false ho
      simp [Storage.Memory.after, Storage.Memory.apply, List.filter_append, hrow]
    | _ => rfl
  | _ => rfl

theorem Apart.pairMemory_exec (ho : Apart user title o)
    (h : Storage.exec lib mayFail t o x m = some (r, m')) :
    pairMemory user title m' lock = pairMemory user title m lock := by
  obtain hm | hm := Storage.mem_of_exec h
  · rw [hm]
  · rw [hm]
    exact ho.pairMemory_after x.files

/-- How the holder of the mutex changes in an operation of a thread. -/
def LockStep (thread : Verdict.Thread) (o : Op) (lock lock' : Option Verdict.Thread) : Prop :=
  match Sandbox.kind o with
  | .acquire => lock = none ∧ lock' = some thread
  | .release => lock' = none
  | .plain => lock' = lock

/-- The rows that the pair looks up are the ones that it sees. -/
theorem pairMemory_rows {stmt : Stmt} (ho : Stored user title (.query stmt))
    (page : List (List String)) :
    (pairMemory user title m lock).rows stmt = m.rows stmt page := by
  cases stmt with
  | selectProblemId problem | selectTestCases problem | selectTestNum problem =>
    obtain rfl : problem = title := ho
    simp [pairMemory, Verdict.Memory.rows, Storage.Memory.rows, List.filter_map, List.filter_filter,
      Function.comp_def]
  | insertSubmission user_id problem_id result => rfl
  | _ => exact ho.elim

theorem Stored.exec (ho : Stored user title o)
    (hunlock : ∀ code, (⟨o, m.response x.answer o⟩ : Event effects) = ⟨.unlock, code⟩ → code = 0)
    (hlock : LockStep thread o lock lock') :
    ∃ y, Verdict.exec thread o y (pairMemory user title m lock) =
      some (m.response x.answer o, pairMemory user title (m.after lib t x.files o) lock') := by
  refine ⟨0, ?_⟩
  cases o with
  | get key =>
    obtain rfl : lock' = lock := hlock
    simp [Verdict.exec, pairMemory_redis ho]
  | set key value =>
    obtain rfl : lock' = lock := hlock
    simp [Verdict.exec, Storage.Memory.response, Storage.Memory.after, pairMemory_setRedis ho]
  | incr key =>
    obtain rfl : lock' = lock := hlock
    simp [Verdict.exec, Storage.Memory.response, Storage.Memory.after, pairMemory_setRedis ho,
      pairMemory_redis ho]
  | expire key seconds =>
    obtain rfl : lock' = lock := hlock
    simp [Verdict.exec, Storage.Memory.response, Storage.Memory.after, pairMemory_redis ho]
  | del key =>
    obtain rfl : lock' = lock := hlock
    simp [Verdict.exec, Storage.Memory.response, Storage.Memory.after, pairMemory_setRedis ho]
  | query stmt =>
    obtain rfl : lock' = lock := hlock
    have hrows : (pairMemory user title m lock').rows stmt = m.rows stmt (x.answer (.query stmt)) :=
      pairMemory_rows ho _
    rw [Storage.Memory.response_query, ← hrows, Storage.Memory.after_query]
    cases stmt with
    | insertSubmission user_id problem_id result =>
      obtain ⟨rfl, rfl⟩ := ho
      simp [Verdict.exec, Verdict.Memory.rows, Storage.Memory.apply, pairMemory,
        List.filter_append]
    | selectProblemId problem | selectTestCases problem | selectTestNum problem => rfl
    | _ => exact ho.elim
  | lock =>
    obtain ⟨rfl, rfl⟩ := hlock
    rfl
  | unlock =>
    obtain rfl : lock' = none := hlock
    have hcode := hunlock _ rfl
    rw [hcode]
    rfl
  | _ => exact ho.elim

theorem Outside.exec (ho : Outside o) (hlock : LockStep thread o lock lock')
    (h : Storage.exec lib mayFail t o x m = some (r, m')) :
    ∃ y, Verdict.exec thread o y (pairMemory user title m lock) =
      some (r, pairMemory user title m' lock') := by
  rw [ho.apart.pairMemory_exec h]
  cases o with
  | openFile path =>
    obtain rfl : lock' = lock := hlock
    exact ⟨(r : Nat), by simp [Verdict.exec]⟩
  | spawn cmd =>
    obtain rfl : lock' = lock := hlock
    exact ⟨Int32.toInt r, by simp [Verdict.exec]⟩
  | file_cmp path1 path2 =>
    obtain rfl : lock' = lock := hlock
    exact ⟨r, rfl⟩
  | write _ _ | close _ | push _ | set_status_code _ | append_output_body _ =>
    obtain rfl : lock' = lock := hlock
    exact ⟨0, rfl⟩
  | _ => exact ho.elim

/-- An operation of the pair answers in the server as it does in the machine of the pair. -/
theorem PairOp.exec (ho : PairOp user title o)
    (hsafe : ∀ o, Stored user title o → mayFail o = false)
    (hunlock : ∀ code, (⟨o, r⟩ : Event effects) = ⟨.unlock, code⟩ → code = 0)
    (hlock : LockStep thread o lock lock')
    (h : Storage.exec lib mayFail t o x m = some (r, m')) :
    ∃ y, Verdict.exec thread o y (pairMemory user title m lock) =
      some (r, pairMemory user title m' lock') := by
  obtain ho | ho := ho
  · obtain ⟨hfail, -⟩ | ⟨rfl, rfl⟩ := Storage.exec_cases h
    · rw [hsafe o ho] at hfail
      cases hfail
    · exact ho.exec hunlock hlock
  · exact ho.exec hlock h

end Memory

/-! ### Runs -/

section Runs

variable {user title : String} {lib : Library} {mayFail : Op → Bool} {requests : Nat → Storage.Request}
  {t : Nat} {thread : Verdict.Thread} {trace : List (Nat × Event effects)}

/-- The requests outside the pair keep its keys and rows. -/
def keepsApart (user title : String) (requests : Nat → Storage.Request)
    (c : Config (Storage.machine lib mayFail)) (t : Nat) : Prop :=
  member user title requests c.trace t = none →
    ∀ o, (c.prog t).next? = some o → Apart user title o

theorem pairThread_cases (h : pairThread title (requests t) t = some thread) :
    (thread = .submission t ∧ (requests t).handler = .runCpp ∨
      thread = .poll t ∧ (requests t).handler = .runState) ∧
    (requests t).req.KVpairs.map (fun KVpairs => text (KVpairs.get "porblem_title")) = some title := by
  unfold pairThread at h
  split at h
  · next htitle =>
    refine ⟨?_, htitle⟩
    split at h
    · next hhandler =>
      cases h
      exact .inl ⟨rfl, hhandler⟩
    · next hhandler =>
      cases h
      exact .inr ⟨rfl, hhandler⟩
    · cases h
  · cases h

theorem pairThread_of_member (h : member user title requests trace t = some thread) :
    pairThread title (requests t) t = some thread := by
  unfold member at h
  split at h
  · exact h
  · cases h

theorem number_of_member (h : member user title requests trace t = some thread) :
    number thread = t := by
  obtain ⟨⟨rfl, -⟩ | ⟨rfl, -⟩, -⟩ := pairThread_cases (pairThread_of_member h) <;> rfl

theorem member_mono {u : Nat} {e : Event effects}
    (h : member user title requests trace t = some thread) :
    member user title requests ((u, e) :: trace) t = some thread := by
  have hentered : entered user t trace = true := by
    by_contra hnot
    rw [member, if_neg hnot] at h
    cases h
  rw [member, if_pos (entered_mono hentered), pairThread_of_member h]

/-- A request that has begun joins the pair no more. -/
theorem member_cons_later {e : Event effects} (h : own t trace ≠ []) :
    member user title requests ((t, e) :: trace) t = member user title requests trace t := by
  rw [member, entered_later h, member]

theorem member_first {e : Event effects} (h : own t trace = [])
    (hmember : member user title requests ((t, e) :: trace) t = some thread) :
    grants user e = true ∧ pairThread title (requests t) t = some thread := by
  refine ⟨?_, pairThread_of_member hmember⟩
  by_contra hnot
  rw [member, entered_first h, if_neg hnot] at hmember
  cases hmember

theorem member_cons_ne {u : Nat} {e : Event effects} (h : u ≠ t) :
    member user title requests ((u, e) :: trace) t = member user title requests trace t := by
  rw [member, entered_cons_ne h, member]

section Steps

variable {c : Config (Storage.machine lib mayFail)} {o : Op} {r : o.Res} {k : o.Res → Code Unit}
  {m' : Storage.Memory}

/-- A step of a request of the pair. -/
theorem pairView_after_member (h : member user title requests c.trace t = some thread) :
    pairView user title requests (c.after t o r k m') =
      (pairView user title requests c).after thread o r k
        (pairMemory user title m'
          (m'.lock.bind (member user title requests (c.after t o r k m').trace))) := by
  have hnumber := number_of_member h
  unfold pairView Config.after
  congr 1
  · funext thread'
    dsimp only
    by_cases hthread : thread' = thread
    · subst hthread
      rw [hnumber, if_pos (member_mono h), Function.update_self, Function.update_self]
    · rw [Function.update_of_ne hthread]
      by_cases ht : t = number thread'
      · -- The other kind of thread with the same number.
        rw [← ht, member_mono h, h, if_neg, if_neg]
        · exact fun heq => hthread (Option.some_inj.mp heq).symm
        · exact fun heq => hthread (Option.some_inj.mp heq).symm
      · rw [member_cons_ne ht, Function.update_of_ne (Ne.symm ht)]
  · dsimp only
    rw [pairTrace, h]

/-- A step of another request, which may be its session check. -/
theorem pairView_after_other (h : member user title requests c.trace t = none)
    (hprog : ∀ thread, member user title requests (c.after t o r k m').trace t = some thread →
      k r = pairProgram user title requests thread)
    (hmem : pairMemory user title m'
        (m'.lock.bind (member user title requests (c.after t o r k m').trace)) =
      pairMemory user title c.mem (c.mem.lock.bind (member user title requests c.trace))) :
    pairView user title requests (c.after t o r k m') = pairView user title requests c := by
  unfold pairView
  congr 1
  · funext thread'
    by_cases ht : t = number thread'
    · rw [← ht, h, Config.prog_after_same]
      split
      · next hmember => exact hprog thread' hmember
      · rfl
    · rw [Config.prog_after_ne (Ne.symm ht), Config.trace_after, member_cons_ne ht]
  · rw [Config.trace_after, pairTrace, h]

end Steps

/-! ### The first step of a request -/

theorem session_continues {req : HttpReq} {next : String → Code Unit} {o : Op} {r : o.Res}
    {k : o.Res → Code Unit} (huser : user ≠ "") (hp : session req next = .op o k)
    (hgrants : grants user ⟨o, r⟩ = true) : k r = next user := by
  unfold session at hp
  split at hp
  · cases hp
  · simp only [my_sync_check_token, effect_eq, Prog.op_bind, Prog.ret_bind,
      Prog.pure_eq] at hp
    cases hp
    obtain rfl : r = some user := of_decide_eq_true hgrants
    simp [huser]

/-- After its session check, a request of the pair goes on as its thread. -/
theorem program_after_check {o : Op} {r : o.Res} {k : o.Res → Code Unit} (huser : user ≠ "")
    (hp : (requests t).prog lib = .op o k) (hgrants : grants user ⟨o, r⟩ = true)
    (hthread : pairThread title (requests t) t = some thread) :
    k r = pairProgram user title requests thread := by
  obtain ⟨hhandler, htitle⟩ := pairThread_cases hthread
  obtain ⟨KVpairs, hKVpairs, rfl⟩ := Option.map_eq_some_iff.mp htitle
  obtain ⟨rfl, hhandler⟩ | ⟨rfl, hhandler⟩ := hhandler
  · rw [Storage.Request.prog, hhandler] at hp
    simp only [Judge.runCpp, withParams, hKVpairs] at hp
    exact session_continues huser hp hgrants
  · rw [Storage.Request.prog, hhandler] at hp
    simp only [Judge.runState, withParams, hKVpairs] at hp
    exact session_continues huser hp hgrants

section Reached

variable {ok : Config (Storage.machine lib mayFail) → Nat → Prop}
  {ok' : Config Verdict.machine → Verdict.Thread → Prop} {m m' : Storage.Memory}
  {c : Config (Storage.machine lib mayFail)} {o : Op} {r : o.Res} {k : o.Res → Code Unit}
  {x : Storage.Choice}

/-- The pair before any request has begun. -/
noncomputable def pairStart (user title : String) (requests : Nat → Storage.Request)
    (m : Storage.Memory) : Config Verdict.machine :=
  Verdict.start user title (fun t => (requests t).req.body) (pairMemory user title m none)

theorem pairView_start (hlock : m.lock = none) :
    pairView user title requests (Storage.start lib mayFail requests m) =
      pairStart user title requests m := by
  unfold pairView pairStart Verdict.start
  congr 1
  show pairMemory user title m (m.lock.bind _) = pairMemory user title m none
  rw [hlock]
  rfl

/-- What is left of a request of the pair. -/
theorem pairView_prog (h : member user title requests c.trace t = some thread) :
    (pairView user title requests c).prog thread = c.prog t := by
  have hnumber := number_of_member h
  subst hnumber
  exact if_pos h

theorem pairOp_of_view (hview : Reach ok' (pairStart user title requests m)
      (pairView user title requests c)) (h : member user title requests c.trace t = some thread)
    (hp : c.prog t = .op o k) : PairOp user title o := by
  have honly : ((pairView user title requests c).prog thread).Only (PairOp user title) := by
    refine hview.only (K := fun _ => PairOp user title) (fun thread => ?_) thread
    cases thread with
    | submission k => exact (runCpp_only _ _ _ _).mono fun o ho => submissionOp_pairOp ho
    | poll k => exact (runState_only _ _).mono fun o ho => stateOp_pairOp ho
  rw [pairView_prog h, hp] at honly
  exact honly.1

/-- The holder of the mutex, as the pair sees it, after a step of the pair. -/
theorem lockStep_of_member (hlocks : Locks mayFail)
    (h : member user title requests c.trace t = some thread)
    (hexec : Storage.exec lib mayFail t o x c.mem = some (r, m')) :
    LockStep thread o (c.mem.lock.bind (member user title requests c.trace))
      (m'.lock.bind (member user title requests (c.after t o r k m').trace)) := by
  unfold LockStep
  split
  · next hk =>
    obtain ⟨hfree, hholder⟩ : c.mem.lock = none ∧ m'.lock = some t :=
      (mutex lib hlocks).acquire hk hexec
    rw [hfree, hholder]
    exact ⟨rfl, member_mono h⟩
  · next hk =>
    have hholder : m'.lock = none := (mutex lib hlocks).release hk hexec
    rw [hholder]
    rfl
  · next hk =>
    rw [lock_of_exec hk hexec]
    cases c.mem.lock with
    | none => rfl
    | some u =>
      by_cases hu : t = u
      · subst hu
        rw [Option.bind_some, Option.bind_some, h]
        exact member_mono h
      · exact member_cons_ne hu

/-- The pair does not see a step of another request at the mutex. -/
theorem lock_of_other (hlocks : Locks mayFail) (hlock : m.lock = none)
    (h : Reach ok (Storage.start lib mayFail requests m) c)
    (hmember : member user title requests c.trace t = none) (hp : c.prog t = .op o k)
    (hexec : Storage.exec lib mayFail t o x c.mem = some (r, m')) :
    m'.lock.bind (member user title requests (c.after t o r k m').trace) =
      c.mem.lock.bind (member user title requests c.trace) := by
  have hdisciplined := disciplined hlocks hlock h
  cases hk : Sandbox.kind o with
  | acquire =>
    obtain ⟨hfree, hholder⟩ : c.mem.lock = none ∧ m'.lock = some t :=
      (mutex lib hlocks).acquire hk hexec
    rw [hfree, hholder, Option.bind_some, Option.bind_none]
    -- The request does not begin with the mutex, so that it is past its session check.
    by_contra hne
    obtain ⟨thread, hthread⟩ := Option.ne_none_iff_exists'.mp hne
    by_cases hnil : own t c.trace = []
    · have hgrants := (member_first hnil hthread).1
      cases o with
      | lock => cases hgrants
      | _ => cases hk
    · rw [Config.trace_after, member_cons_later hnil, hmember] at hthread
      cases hthread
  | release =>
    have hheld : c.mem.lock = some t := hdisciplined.holds hp hk
    have hholder : m'.lock = none := (mutex lib hlocks).release hk hexec
    rw [hheld, hholder]
    exact hmember.symm
  | plain =>
    rw [lock_of_exec hk hexec]
    cases hheld : c.mem.lock with
    | none => rfl
    | some u =>
      by_cases hu : t = u
      · subst hu
        exact member_cons_later (Mutex.own_ne_nil (L := mutex lib hlocks) h hlock hheld)
      · exact member_cons_ne hu

theorem locks_of_stored (hsafe : ∀ o, Stored user title o → mayFail o = false) : Locks mayFail :=
  ⟨hsafe .lock trivial, hsafe .unlock trivial⟩

/-- The step lemma. -/
theorem pairView_step (huser : user ≠ "") (hsafe : ∀ o, Stored user title o → mayFail o = false)
    (hlock : m.lock = none) (h : Reach ok (Storage.start lib mayFail requests m) c)
    (hview : Reach ok' (pairStart user title requests m) (pairView user title requests c))
    (hapart : keepsApart user title requests c t)
    (hok : ∀ thread, member user title requests c.trace t = some thread →
      ok' (pairView user title requests c) thread)
    (hp : c.prog t = .op o k) (hexec : Storage.exec lib mayFail t o x c.mem = some (r, m'))
    (hunlock : ∀ code, (⟨o, r⟩ : Event effects) = ⟨.unlock, code⟩ → code = 0) :
    Reach ok' (pairStart user title requests m)
      (pairView user title requests (c.after t o r k m')) := by
  have hlocks := locks_of_stored hsafe
  cases hmember : member user title requests c.trace t with
  | some thread =>
    rw [pairView_after_member hmember]
    obtain ⟨y, hy⟩ := (pairOp_of_view hview hmember hp).exec hsafe hunlock
      (lockStep_of_member hlocks hmember hexec) hexec
    exact hview.next (hok thread hmember) ((pairView_prog hmember).trans hp) hy
  | none =>
    rw [pairView_after_other hmember]
    · exact hview
    · intro thread hthread
      have hnil : own t c.trace = [] := by
        by_contra hne
        rw [Config.trace_after, member_cons_later hne, hmember] at hthread
        cases hthread
      obtain ⟨hgrants, hthread⟩ := member_first hnil hthread
      exact program_after_check huser ((h.prog_of_own_nil hnil).symm.trans hp) hgrants hthread
    · rw [lock_of_other hlocks hlock h hmember hp hexec]
      exact (hapart hmember o (by rw [hp, Prog.next?_op])).pairMemory_exec hexec

/-- The run lemma: a run of the server whose requests outside the pair keep apart from it is a run of
the pair. -/
theorem reach_pairView (huser : user ≠ "") (hsafe : ∀ o, Stored user title o → mayFail o = false)
    (hlock : m.lock = none) (h : Reach ok (Storage.start lib mayFail requests m) c)
    (hapart : ∀ c t, Reach ok (Storage.start lib mayFail requests m) c → ok c t →
      keepsApart user title requests c t)
    (hok : ∀ c t thread, Reach ok (Storage.start lib mayFail requests m) c → ok c t →
      member user title requests c.trace t = some thread →
        ok' (pairView user title requests c) thread)
    (hunlock : ∀ t code, (t, ⟨.unlock, code⟩) ∈ c.trace → code = 0) :
    Reach ok' (pairStart user title requests m) (pairView user title requests c) := by
  refine h.induct (I := fun c => (∀ t code, (t, ⟨.unlock, code⟩) ∈ c.trace → code = 0) →
    Reach ok' (pairStart user title requests m) (pairView user title requests c)) ?_ ?_ hunlock
  · intro _
    rw [pairView_start hlock]
    exact .refl
  · intro c t x o k r m' hr ih hstep hp hexec hunlock
    refine pairView_step huser hsafe hlock hr
      (ih fun t code hmem => hunlock t code (List.mem_cons_of_mem _ hmem)) (hapart c t hr hstep)
      (fun thread => hok c t thread hr hstep) hp hexec fun code hcode => hunlock t code ?_
    rw [Config.trace_after, hcode]
    exact List.mem_cons_self ..

end Reached

end Runs

end OJJudge.Server
