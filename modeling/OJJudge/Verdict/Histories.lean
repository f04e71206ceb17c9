import OJJudge.Verdict.Machine

/-! The histories of single programs.  `Judged` lists what a submission can have done to the verdict
keys of its pair, and `Polled` what a poll can have done; the operations that concern neither are
left out of the first and none are left out of the second. -/

namespace OJJudge.Verdict

open Concurrency

/-- What an event does that counts for the verdict. -/
inductive Mark
  | compared (code : Int)
  | wrote (key value : String)
  | counted (key : String)
  | deleted (key : String)
  deriving DecidableEq

/-- The mark of an event, if it has one. -/
def mark (f : String) : Event effects → Option Mark
  | ⟨.file_cmp _ _, code⟩ => some (.compared code)
  | ⟨.set key value, _⟩ => if key = judgeKey f then none else some (.wrote key value)
  | ⟨.incr key, _⟩ => some (.counted key)
  | ⟨.del key, _⟩ => some (.deleted key)
  | _ => none

theorem op_of_counted {f key : String} {o : Op} {r : o.Res}
    (h : mark f ⟨o, r⟩ = some (.counted key)) : o = .incr key := by
  cases o with
  | incr k => cases h; rfl
  | set k value =>
    simp only [mark] at h
    split at h <;> cases h
  | _ => cases h

theorem op_of_wrote {f key value : String} {o : Op} {r : o.Res}
    (h : mark f ⟨o, r⟩ = some (.wrote key value)) : o = .set key value := by
  cases o with
  | set k v =>
    simp only [mark] at h
    split at h <;> cases h
    rfl
  | _ => cases h

def marks (f : String) (h : List (Event effects)) : List Mark := h.filterMap (mark f)

/-- The marks of a job that has compared tests with the codes `cs`, newest first. -/
def judged (f : String) : List Int → List Mark
  | [] => [.wrote (sumKey f) "0"]
  | code :: cs =>
    if code = 1 then
      .counted (sumKey f) :: .wrote (testKey f cs.length) "1" :: .compared code :: judged f cs
    else
      .wrote (testKey f cs.length) "-1" :: .compared code :: judged f cs

theorem judged_ne_nil (f : String) (cs : List Int) : judged f cs ≠ [] := by
  cases cs with
  | nil => simp [judged]
  | cons code cs =>
    rw [judged]
    split <;> simp

/-- The marks that a submission of a problem with `n` tests can have made, newest first. -/
inductive Judged (f : String) (n : Nat) : List Mark → Prop
  | fresh : Judged f n []
  | judging (cs : List Int) (h : cs.length ≤ n) : Judged f n (judged f cs)
  | compared (cs : List Int) (code : Int) (h : cs.length < n) :
      Judged f n (.compared code :: judged f cs)
  | matched (cs : List Int) (h : cs.length < n) :
      Judged f n (.wrote (testKey f cs.length) "1" :: .compared 1 :: judged f cs)
  | failed (code : String) (h : code = "-2" ∨ code = "-3") :
      Judged f n [.wrote (sumKey f) code, .wrote (sumKey f) "0"]

theorem Judged.of_eq {f : String} {n : Nat} {ms : List Mark} (h : Judged f n ms)
    {hist : List (Event effects)} (hh : marks f hist = ms) : Judged f n (marks f hist) :=
  hh ▸ h

@[simp] theorem marks_file_cmp (f path1 path2 : String) (code : Int) (h : List (Event effects)) :
    marks f (⟨.file_cmp path1 path2, code⟩ :: h) = .compared code :: marks f h := rfl

@[simp] theorem marks_incr (f key : String) (r : Int) (h : List (Event effects)) :
    marks f (⟨.incr key, r⟩ :: h) = .counted key :: marks f h := rfl

@[simp] theorem marks_del (f key : String) (r : Unit) (h : List (Event effects)) :
    marks f (⟨.del key, r⟩ :: h) = .deleted key :: marks f h := rfl

theorem marks_set {f key : String} (hk : key ≠ judgeKey f) (value : String) (r : Unit)
    (h : List (Event effects)) :
    marks f (⟨.set key value, r⟩ :: h) = .wrote key value :: marks f h := by
  simp [marks, mark, hk]

@[simp] theorem marks_set_sumKey (f value : String) (r : Unit) (h : List (Event effects)) :
    marks f (⟨.set (sumKey f) value, r⟩ :: h) = .wrote (sumKey f) value :: marks f h :=
  marks_set (judgeKey_ne_sumKey f).symm value r h

@[simp] theorem marks_set_testKey (f value : String) (i : Nat) (r : Unit)
    (h : List (Event effects)) :
    marks f (⟨.set (testKey f i) value, r⟩ :: h) = .wrote (testKey f i) value :: marks f h :=
  marks_set (judgeKey_ne_testKey f i).symm value r h

@[simp] theorem marks_expire (f key : String) (seconds : Nat) (r : Bool)
    (h : List (Event effects)) : marks f (⟨.expire key seconds, r⟩ :: h) = marks f h := rfl

section Submission

variable {conf : IsolateConf} {f : String} {n : Nat} {A : (o : Op) → o.Res → Prop}
  {task : Runner_task} {α : Type} {h : List (Event effects)}

theorem runTests_unmarked (tests : List (String × String)) (i : Nat) (status : Int32) :
    (runTests conf task i tests status).Only fun o => ∀ r, mark f ⟨o, r⟩ = none := by
  induction tests generalizing i status with
  | nil => trivial
  | cons test rest ih =>
    refine Prog.Only.bind ?_ fun status => ih (i + 1) status
    simp [runTest, system_spawn_cmd, mark]

theorem removeFiles_unmarked :
    (removeFiles conf task).Only fun o => ∀ r, mark f ⟨o, r⟩ = none := by
  simp [removeFiles, system_spawn_cmd, mark]

theorem compareTest_wp (answer : String) (cs : List Int) (hn : cs.length < n)
    (hh : marks task.file_name h = judged task.file_name cs) :
    (compareTest conf task cs.length answer).Wp (Records A)
      (fun h _ => Judged task.file_name n (marks task.file_name h))
      (fun _ h => ∃ code, marks task.file_name h = judged task.file_name (code :: cs)) h := by
  simp only [compareTest, file_cmp, redis_set_field, redis_incr, redis_expire, effect_eq,
    Prog.op_bind, Prog.ret_bind, Prog.pure_eq]
  refine ⟨by simpa [hh] using Judged.judging cs hn.le, ?_⟩
  rintro code s ⟨-, rfl⟩
  by_cases hcode : code = 1
  · subst hcode
    simp only [if_true]
    refine ⟨by simpa [hh] using Judged.compared cs 1 hn, ?_⟩
    rintro - s ⟨-, rfl⟩
    refine ⟨by simpa [hh] using Judged.matched cs hn, ?_⟩
    rintro r s ⟨-, rfl⟩
    refine ⟨by simpa [hh, judged] using Judged.judging (f := task.file_name) (1 :: cs) hn, ?_⟩
    rintro r' s ⟨-, rfl⟩
    exact ⟨1, by simp [hh, judged]⟩
  · simp only [hcode, if_false]
    refine ⟨by simpa [hh] using Judged.compared cs code hn, ?_⟩
    rintro - s ⟨-, rfl⟩
    refine ⟨by simpa [hh, judged, hcode] using
      Judged.judging (f := task.file_name) (code :: cs) hn, ?_⟩
    rintro r' s ⟨-, rfl⟩
    exact ⟨code, by simp [hh, judged, hcode]⟩

/-- The second loop compares the tests that are left, in order. -/
theorem compareTests_wp (rest : List (String × String)) (cs : List Int)
    (hn : cs.length + rest.length = n)
    (hh : marks task.file_name h = judged task.file_name cs) :
    (compareTests conf task cs.length rest).Wp (Records A)
      (fun h _ => Judged task.file_name n (marks task.file_name h))
      (fun _ h => ∃ cs, cs.length = n ∧ marks task.file_name h = judged task.file_name cs) h := by
  induction rest generalizing cs h with
  | nil => exact ⟨cs, by simpa using hn, hh⟩
  | cons test rest ih =>
    refine (compareTest_wp test.2 cs (by simp at hn; omega) hh).bind ?_
    rintro - s ⟨code, hs⟩
    exact ih (code :: cs) (by simp at hn ⊢; omega) hs

theorem reportError_wp (code : String) (hcode : code = "-2" ∨ code = "-3")
    (hh : marks f h = [.wrote (sumKey f) "0"]) :
    (reportError f code).Wp (Records A) (fun h _ => Judged f n (marks f h))
      (fun _ h => marks f h = [.wrote (sumKey f) code, .wrote (sumKey f) "0"]) h := by
  simp only [reportError, redis_set_field, redis_expire, effect_eq, Prog.op_bind, Prog.ret_bind,
    Prog.pure_eq]
  refine ⟨by simpa [hh, judged] using Judged.judging (f := f) [] (Nat.zero_le n), ?_⟩
  rintro - s ⟨-, rfl⟩
  refine ⟨by simpa [hh] using Judged.failed code hcode, ?_⟩
  rintro r s ⟨-, rfl⟩
  simp [hh]

/-- A job marks nothing but its comparisons in order, or one error code. -/
theorem cpp_runner_wp (hf : task.file_name = f) (hn : task.test_num = n)
    (hh : marks f h = [.wrote (sumKey f) "0"]) :
    (cpp_runner conf task).Wp (Records A) (fun h _ => Judged f n (marks f h))
      (fun _ h => Judged f n (marks f h)) h := by
  subst hf
  have hreset : Judged task.file_name n [.wrote (sumKey task.file_name) "0"] :=
    .judging [] (Nat.zero_le n)
  unfold cpp_runner
  refine (Prog.wp_unmarked (by simp [system_spawn_cmd, mark]) hreset hh).bind fun status s hs => ?_
  split
  · refine (Prog.wp_unmarked (runTests_unmarked _ _ _) hreset hs).bind fun status s hs => ?_
    have hremove : ∀ s, Judged task.file_name n (marks task.file_name s) →
        (removeFiles conf task).Wp (Records A)
          (fun h _ => Judged task.file_name n (marks task.file_name h))
          (fun _ h => Judged task.file_name n (marks task.file_name h)) s :=
      fun s hs => (Prog.wp_unmarked removeFiles_unmarked hs rfl).mono (fun _ _ h => h)
        fun _ _ h => hs.of_eq h
    split
    · have hlen : task.test_vec.length = n := task.test_num_eq ▸ hn
      refine (compareTests_wp (n := n) task.test_vec [] (by simpa using hlen) hs).bind ?_
      rintro - s ⟨cs, hcs, hs⟩
      exact hremove s (hs ▸ .judging cs hcs.le)
    · refine (reportError_wp "-3" (.inr rfl) hs).bind fun _ s hs => ?_
      exact hremove s (hs ▸ .failed "-3" (.inr rfl))
  · refine (Prog.wp_unmarked removeFiles_unmarked hreset hs).bind fun _ s hs => ?_
    exact (reportError_wp "-2" (.inl rfl) hs).mono (fun _ _ h => h)
      fun _ _ h => h ▸ .failed "-2" (.inl rfl)

theorem TaskPush_wp (porblem_id : String) (mysql_kv : List (List String))
    (hn : mysql_kv.length = n) (hh : marks f h = [.wrote (sumKey f) "0"]) :
    (TaskPush conf f porblem_id mysql_kv).Wp (Records A) (fun h _ => Judged f n (marks f h))
      (fun _ h => Judged f n (marks f h)) h := by
  have hreset : Judged f n [.wrote (sumKey f) "0"] := .judging [] (Nat.zero_le n)
  unfold TaskPush
  split
  · exact Prog.wp_unmarked_op (fun _ => rfl) hreset hh fun _ _ _ hs => hreset.of_eq hs
  · refine Prog.wp_unmarked_op (fun _ => rfl) hreset hh fun _ s _ hs => ?_
    refine Prog.wp_unmarked_op (fun _ => rfl) hreset hs fun _ s _ hs => ?_
    exact cpp_runner_wp rfl hn hs

end Submission

/-- The responses of the database about a problem with `n` tests. -/
def Answers (porblem_title : String) (n : Nat) : (o : Op) → o.Res → Prop
  | .query (.selectTestNum title), r => title = porblem_title → r.head? = some [toString n]
  | .query (.selectTestCases title), r => title = porblem_title → r.length = n
  | _, _ => True

/-- All that a submission does to the verdict keys. -/
theorem runCpp_wp (conf : IsolateConf) (user_name porblem_title : String) (body : Bytes) (n : Nat) :
    (runCpp conf user_name porblem_title body).Wp (Records (Answers porblem_title n))
      (fun h _ => Judged (fileName user_name porblem_title) n
        (marks (fileName user_name porblem_title) h))
      (fun _ h => Judged (fileName user_name porblem_title) n
        (marks (fileName user_name porblem_title) h)) [] := by
  unfold runCpp
  generalize fileName user_name porblem_title = f
  have hreset : Judged f n [.wrote (sumKey f) "0"] := .judging [] (Nat.zero_le n)
  have hdone : ∀ s, marks f s = [] → Judged f n (marks f s) := fun s hs => hs ▸ .fresh
  simp only [effect_eq, Prog.op_bind, Prog.ret_bind]
  refine Prog.wp_unmarked_op (fun _ => rfl) .fresh rfl fun sql_kv s _ hs => ?_
  dsimp only
  split
  · refine Prog.wp_unmarked_op (fun _ => rfl) .fresh hs fun fd s _ hs => ?_
    refine Prog.wp_unmarked_op (fun _ => rfl) .fresh hs fun _ s _ hs => ?_
    refine Prog.wp_unmarked_op (fun _ => rfl) .fresh hs fun _ s _ hs => ?_
    refine Prog.wp_unmarked_op (fun _ => rfl) .fresh hs fun _ s _ hs => ?_
    refine Prog.wp_unmarked_op (fun _ => if_pos rfl) .fresh hs fun _ s _ hs => ?_
    refine Prog.wp_unmarked_op (fun _ => rfl) .fresh hs fun _ s _ hs => ?_
    refine ⟨hdone s hs, ?_⟩
    rintro - s' ⟨-, rfl⟩
    refine Prog.wp_unmarked_op (fun _ => rfl) hreset
      ((marks_set_sumKey f "0" () s).trans (congrArg _ hs)) fun _ s _ hs => ?_
    refine Prog.wp_unmarked_op (fun _ => rfl) hreset hs fun mysql_kv s hlen hs => ?_
    exact TaskPush_wp porblem_title mysql_kv (hlen rfl) hs
  · exact Prog.wp_unmarked_op (fun _ => rfl) .fresh hs fun _ s _ hs => hdone s hs

/-! ### Polls -/

/-- The per-test code that a poll reports for the value of a key. -/
def reported (value : Option String) : String :=
  if value.getD "" = "" then "0" else value.getD ""

/-- The reads of the per-test keys, with the values `vs`, newest first. -/
def testReads (f : String) : List (Option String) → List (Event effects)
  | [] => []
  | v :: vs => ⟨.get (testKey f vs.length), v⟩ :: testReads f vs

/-- The reads of a poll, newest first: the counter with value `w`, then the per-test keys with the
values `vs`. -/
def reads (user_name porblem_title : String) (rows : List (List String)) (w : Option String)
    (vs : List (Option String)) : List (Event effects) :=
  testReads (fileName user_name porblem_title) vs ++
    [⟨.get (sumKey (fileName user_name porblem_title)), w⟩,
      ⟨.query (.selectTestNum porblem_title), rows⟩]

/-- The deletion of the first `i` per-test keys, newest first. -/
def dels (f : String) : Nat → List (Event effects)
  | 0 => []
  | i + 1 => ⟨.del (testKey f i), ()⟩ :: dels f i

/-- The result that a poll of a problem with `n` tests records when the counter has value `w`. -/
def result (n : Nat) (w : Option String) : String :=
  if toString n = w.getD "" then "Pass" else "Unpass"

/-- The body of the answer of a poll. -/
def answer (n : Nat) (w : Option String) (vs : List (Option String)) : StateBody :=
  ⟨toString n, w.getD "", (vs.map reported).reverse⟩

/-- The histories of a poll of a problem with `n` tests. -/
inductive Polled (user_name porblem_title : String) (n : Nat) : List (Event effects) → Prop
  | start : Polled user_name porblem_title n []
  | asked (rows : List (List String)) :
      Polled user_name porblem_title n [⟨.query (.selectTestNum porblem_title), rows⟩]
  | reading (rows : List (List String)) (w : Option String) (vs : List (Option String))
      (h : vs.length ≤ n) :
      Polled user_name porblem_title n (reads user_name porblem_title rows w vs)
  | answered (rows : List (List String)) (w : Option String) (vs : List (Option String))
      (h : vs.length = n) :
      Polled user_name porblem_title n
        (⟨.append_output_body (answer n w vs), ()⟩ :: reads user_name porblem_title rows w vs)
  | closing (rows : List (List String)) (w : Option String) (vs : List (Option String))
      (h : vs.length = n) :
      Polled user_name porblem_title n
        (⟨.set_status_code "200", ()⟩ :: ⟨.append_output_body (answer n w vs), ()⟩ ::
          reads user_name porblem_title rows w vs)
  | recording (rows : List (List String)) (w : Option String) (vs : List (Option String))
      (h : vs.length = n) (decided : ∀ v ∈ vs, reported v ≠ "0") (ack : List (List String))
      (i : Nat) (hi : i ≤ n) :
      Polled user_name porblem_title n
        (dels (fileName user_name porblem_title) i ++
          ⟨.query (.insertSubmission user_name porblem_title (result n w)), ack⟩ ::
          ⟨.set_status_code "200", ()⟩ :: ⟨.append_output_body (answer n w vs), ()⟩ ::
          reads user_name porblem_title rows w vs)

section Poll

variable {user_name porblem_title : String} {n : Nat} {A : (o : Op) → o.Res → Prop}
  {rows : List (List String)} {w : Option String}

theorem readCodes_wp (m : Nat) (vs : List (Option String)) (hn : vs.length + m = n) :
    (readCodes (fileName user_name porblem_title) m (vs.map reported).reverse).Wp (Records A)
      (fun h _ => Polled user_name porblem_title n h)
      (fun codes h => ∃ vs, vs.length = n ∧ codes = (vs.map reported).reverse ∧
        h = reads user_name porblem_title rows w vs)
      (reads user_name porblem_title rows w vs) := by
  induction m generalizing vs with
  | zero => exact ⟨vs, by simpa using hn, rfl, rfl⟩
  | succ m ih =>
    have hlen : (vs.map reported).reverse.length = vs.length := by simp
    simp only [readCodes, my_sync_check_token, effect_eq, Prog.op_bind, Prog.ret_bind, Prog.pure_eq]
    rw [hlen]
    refine ⟨.reading rows w vs (by omega), ?_⟩
    rintro v s ⟨-, rfl⟩
    have hvs := ih (v :: vs) (by simp; omega)
    rw [List.map_cons, List.reverse_cons] at hvs
    exact hvs

theorem deleteKeys_wp (m i : Nat) (hn : i + m = n) {vs : List (Option String)} (hvs : vs.length = n)
    (decided : ∀ v ∈ vs, reported v ≠ "0") (ack : List (List String)) :
    (deleteKeys (fileName user_name porblem_title) i m).Wp (Records A)
      (fun h _ => Polled user_name porblem_title n h)
      (fun _ h => Polled user_name porblem_title n h)
      (dels (fileName user_name porblem_title) i ++
          ⟨.query (.insertSubmission user_name porblem_title (result n w)), ack⟩ ::
          ⟨.set_status_code "200", ()⟩ :: ⟨.append_output_body (answer n w vs), ()⟩ ::
          reads user_name porblem_title rows w vs) := by
  induction m generalizing i with
  | zero => exact .recording rows w vs hvs decided ack i (by omega)
  | succ m ih =>
    refine ⟨.recording rows w vs hvs decided ack i (by omega), ?_⟩
    rintro - s ⟨-, rfl⟩
    exact ih (i + 1) (by omega)

/-- All that a poll does. -/
theorem runState_wp (user_name porblem_title : String) (n : Nat) :
    (runState user_name porblem_title).Wp (Records (Answers porblem_title n))
      (fun h _ => Polled user_name porblem_title n h)
      (fun _ h => Polled user_name porblem_title n h) [] := by
  refine ⟨.start, ?_⟩
  rintro rows s ⟨hrows, rfl⟩
  have hhead : rows.head? = some [toString n] := hrows rfl
  obtain ⟨rest, rfl⟩ : ∃ rest, rows = [toString n] :: rest := by
    cases rows with
    | nil => cases hhead
    | cons row rest => exact ⟨rest, by simpa using hhead⟩
  refine ⟨.asked _, ?_⟩
  rintro w s ⟨-, rfl⟩
  simp only [Prog.bind_eq, Prog.ret_bind, Prog.pure_eq, effect_eq, Prog.op_bind]
  by_cases hn : n ≤ 2147483647
  · simp only [stoi_toString, if_pos hn, Int.toNat_natCast, List.getD_cons_zero]
    refine Prog.Wp.bind (readCodes_wp (n := n) (w := w) n [] (by simp)) ?_
    rintro codes s ⟨vs, hvs, rfl, rfl⟩
    refine ⟨.reading _ w vs hvs.le, ?_⟩
    rintro - s ⟨-, rfl⟩
    refine ⟨.answered _ w vs hvs, ?_⟩
    rintro - s ⟨-, rfl⟩
    dsimp only
    split
    · next hcount =>
      have decided : ∀ v ∈ vs, reported v ≠ "0" := by
        intro v hv hzero
        refine List.count_eq_zero.mp hcount ?_
        simpa using ⟨v, hv, hzero⟩
      refine ⟨.closing _ w vs hvs, ?_⟩
      rintro ack s ⟨-, rfl⟩
      exact deleteKeys_wp n 0 (by simp) hvs decided ack
    · exact .closing _ w vs hvs
  · simp only [stoi_toString, if_neg hn, List.getD_cons_zero]
    exact .reading _ w [] (Nat.zero_le n)

end Poll

end OJJudge.Verdict
