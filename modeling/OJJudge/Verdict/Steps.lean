import OJJudge.Verdict.Keys

/-! What one step of a run can do to the verdict keys: nothing, the next mark of a submission's job,
or the deletion of a per-test key by a poll. -/

namespace OJJudge.Verdict

open Concurrency

/-- The operations of submissions: they read no key, delete none and record no row. -/
def JobOp : Op → Prop
  | .get _ | .del _ | .query (.insertSubmission _ _ _) | .append_output_body _ => False
  | _ => True

/-- The operations of polls: they write no key and delete per-test keys only. -/
def PollOp (f : String) : Op → Prop
  | .get _ | .query _ | .append_output_body _ | .set_status_code _ => True
  | .del key => ∃ i, key = testKey f i
  | _ => False

def ThreadOp (f : String) : Thread → Op → Prop
  | .submission _ => JobOp
  | .poll _ => PollOp f

section Programs

theorem runCpp_jobOp (conf : IsolateConf) (user_name porblem_title : String) (body : Bytes) :
    (runCpp conf user_name porblem_title body).Only JobOp := by
  refine (runCpp_only conf user_name porblem_title body).mono fun o ho => ?_
  cases ho with
  | job task hpath hname ho => cases ho <;> trivial
  | _ => trivial

theorem runState_pollOp (user_name porblem_title : String) :
    (runState user_name porblem_title).Only (PollOp (fileName user_name porblem_title)) := by
  refine (runState_only user_name porblem_title).mono fun o ho => ?_
  cases ho with
  | delTest i => exact ⟨i, rfl⟩
  | _ => trivial

end Programs

/-! ### The steps of a job -/

/-- The mark `mk` that a job of a problem with `n` tests can add to its marks. -/
inductive JobStep (f : String) (n : Nat) : List Mark → Mark → Prop
  | reset : JobStep f n [] (.wrote (sumKey f) "0")
  | compare (cs : List Int) (code : Int) (h : cs.length < n) :
      JobStep f n (judged f cs) (.compared code)
  | pass (cs : List Int) (h : cs.length < n) :
      JobStep f n (.compared 1 :: judged f cs) (.wrote (testKey f cs.length) "1")
  | fail (cs : List Int) (code : Int) (h : cs.length < n) (hcode : code ≠ 1) :
      JobStep f n (.compared code :: judged f cs) (.wrote (testKey f cs.length) "-1")
  | count (cs : List Int) (h : cs.length < n) :
      JobStep f n (.wrote (testKey f cs.length) "1" :: .compared 1 :: judged f cs)
        (.counted (sumKey f))
  | error (code : String) (h : code = "-2" ∨ code = "-3") :
      JobStep f n [.wrote (sumKey f) "0"] (.wrote (sumKey f) code)

variable {f : String} {n : Nat}

theorem Judged.jobStep {mk : Mark} {ms : List Mark} (h : Judged f n (mk :: ms)) :
    JobStep f n ms mk := by
  generalize hms : mk :: ms = l at h
  cases h with
  | fresh => cases hms
  | judging cs h =>
    cases cs with
    | nil =>
      cases hms
      exact .reset
    | cons code cs =>
      rw [judged] at hms
      split at hms
      · next hcode =>
        cases hms
        subst hcode
        exact .count cs h
      · next hcode =>
        cases hms
        exact .fail cs code h hcode
  | compared cs code h =>
    cases hms
    exact .compare cs code h
  | matched cs h =>
    cases hms
    exact .pass cs h
  | failed code h =>
    cases hms
    exact .error code h

theorem lt_of_wrote_mem_judged {i : Nat} {value : String} {cs : List Int}
    (h : .wrote (testKey f i) value ∈ judged f cs) : i < cs.length := by
  induction cs with
  | nil => simp [judged] at h
  | cons code cs ih =>
    rw [judged] at h
    have hcases : .wrote (testKey f i) value ∈ judged f cs ∨ i = cs.length := by
      split at h
      · simp only [List.mem_cons, Mark.wrote.injEq, testKey_inj, reduceCtorEq, false_or] at h
        tauto
      · simp only [List.mem_cons, Mark.wrote.injEq, testKey_inj, reduceCtorEq, false_or] at h
        tauto
    rw [List.length_cons]
    rcases hcases with hmem | rfl
    · exact Nat.lt_succ_of_lt (ih hmem)
    · exact Nat.lt_succ_self _

/-- A job sets each per-test key once. -/
theorem JobStep.not_wrote {ms : List Mark} {i : Nat} {value : String}
    (h : JobStep f n ms (.wrote (testKey f i) value)) (value' : String) :
    .wrote (testKey f i) value' ∉ ms := by
  intro hmem
  generalize hmk : Mark.wrote (testKey f i) value = mk at h
  cases h with
  | pass cs h =>
    simp only [Mark.wrote.injEq, testKey_inj, true_and] at hmk
    simp only [List.mem_cons, reduceCtorEq, false_or] at hmem
    exact absurd (lt_of_wrote_mem_judged hmem) (by omega)
  | fail cs code h =>
    simp only [Mark.wrote.injEq, testKey_inj, true_and] at hmk
    simp only [List.mem_cons, reduceCtorEq, false_or] at hmem
    exact absurd (lt_of_wrote_mem_judged hmem) (by omega)
  | _ => simp at hmk

/-- A job changes a per-test key by setting it. -/
theorem JobStep.after_testKey {mk : Mark} {ms : List Mark} (h : JobStep f n ms mk) (i : Nat) :
    (∃ value, mk = .wrote (testKey f i) value) ∨ ∀ v, mk.after (testKey f i) v = v := by
  cases h with
  | pass cs h =>
    by_cases hi : cs.length = i
    · exact .inl ⟨_, by rw [hi]⟩
    · exact .inr fun v => by simp [Mark.after, hi]
  | fail cs code h =>
    by_cases hi : cs.length = i
    · exact .inl ⟨_, by rw [hi]⟩
    · exact .inr fun v => by simp [Mark.after, hi]
  | _ => exact .inr fun v => by simp [Mark.after]

/-! ### The steps of a run -/

section Run

variable {ok : Config machine → Thread → Prop} {user_name porblem_title : String}
  {body : Nat → Bytes} {m : Memory} {c : Config machine}

/-- Every event of a run is an operation of its thread's kind. -/
theorem thread_op (h : Reach ok (start user_name porblem_title body m) c) {t : Thread}
    {e : Event effects} (he : (t, e) ∈ c.trace) :
    ThreadOp (fileName user_name porblem_title) t e.op := by
  refine h.trace_only (K := ThreadOp (fileName user_name porblem_title)) rfl ?_ (t, e) he
  intro t
  cases t with
  | submission k => exact runCpp_jobOp OJ_Judge user_name porblem_title (body k)
  | poll k => exact runState_pollOp user_name porblem_title

/-- Polls leave the counter alone. -/
theorem poll_keeps_sum {o : Op} (ho : PollOp f o) (r : o.Res) (v : Option String) :
    value (sumKey f) v (marks f [⟨o, r⟩]) = v := by
  cases o with
  | del key =>
    obtain ⟨i, rfl⟩ := ho
    simp [marks, mark, Mark.after]
  | set _ _ | incr _ => exact ho.elim
  | _ => rfl

/-- What a step does to the verdict keys. -/
theorem step_mark (tests : m.HasTests porblem_title n)
    (h : Reach ok (start user_name porblem_title body m) c) {t : Thread} {o : Op} {x : Int}
    {k : o.Res → Code Unit} {r : o.Res} {m' : Memory} (hok : ok c t) (hp : c.prog t = .op o k)
    (he : machine.exec t o x c.mem = some (r, m')) :
    mark (fileName user_name porblem_title) ⟨o, r⟩ = none ∨
    (∃ j mk, t = .submission j ∧ mark (fileName user_name porblem_title) ⟨o, r⟩ = some mk ∧
      JobStep (fileName user_name porblem_title) n
        (marks (fileName user_name porblem_title) (own (.submission j) c.trace)) mk) ∨
    (∃ j i, t = .poll j ∧ mark (fileName user_name porblem_title) ⟨o, r⟩ =
      some (.deleted (testKey (fileName user_name porblem_title) i))) := by
  have hnext := h.next hok hp he
  cases t with
  | submission j =>
    cases hmark : mark (fileName user_name porblem_title) ⟨o, r⟩ with
    | none => exact .inl rfl
    | some mk =>
      refine .inr (.inl ⟨j, mk, rfl, rfl, Judged.jobStep ?_⟩)
      have hjudged := submission_history tests hnext j
      rw [Config.trace_after, own_cons_same, marks_cons] at hjudged
      simpa [marks, hmark] using hjudged
  | poll j =>
    have hop := thread_op hnext (t := .poll j) (e := ⟨o, r⟩) (by simp)
    cases o with
    | del key =>
      obtain ⟨i, rfl⟩ := hop
      exact .inr (.inr ⟨j, i, rfl, rfl⟩)
    | set _ _ | incr _ => exact hop.elim
    | file_cmp _ _ => exact hop.elim
    | _ => exact .inl rfl

/-- A per-test key that is set was set at the start or by a submission. -/
theorem wrote_of_redis (tests : m.HasTests porblem_title n)
    (h : Reach ok (start user_name porblem_title body m) c) {i : Nat}
    (hne : c.mem.redis (testKey (fileName user_name porblem_title) i) ≠ none) :
    m.redis (testKey (fileName user_name porblem_title) i) ≠ none ∨
    ∃ j value, .wrote (testKey (fileName user_name porblem_title) i) value ∈
      marks (fileName user_name porblem_title) (own (.submission j) c.trace) := by
  have hkey := (judgeKey_ne_testKey (fileName user_name porblem_title) i).symm
  refine h.induct (I := fun c : Config machine =>
    c.mem.redis (testKey (fileName user_name porblem_title) i) ≠ none →
    m.redis (testKey (fileName user_name porblem_title) i) ≠ none ∨
    ∃ j value, .wrote (testKey (fileName user_name porblem_title) i) value ∈
      marks (fileName user_name porblem_title) (own (.submission j) c.trace)) .inl ?_ hne
  intro c t x o k r m' hr ih hok hp he hne
  have hkeep : c.mem.redis (testKey (fileName user_name porblem_title) i) ≠ none →
      m.redis (testKey (fileName user_name porblem_title) i) ≠ none ∨
      ∃ j value, .wrote (testKey (fileName user_name porblem_title) i) value ∈
        marks (fileName user_name porblem_title)
          (own (.submission j) (c.after t o r k m').trace) := by
    intro hold
    obtain hm | ⟨j, value, hmem⟩ := ih hold
    · exact .inl hm
    · exact .inr ⟨j, value, marks_own_mono _ hmem⟩
  obtain hmk | ⟨j, mk, rfl, hmk, hstep⟩ | ⟨j, i', rfl, hmk⟩ := step_mark tests hr hok hp he
  · exact hkeep (exec_redis_quiet hkey hmk he ▸ hne)
  · rw [Config.mem_after, exec_redis_mark hkey hmk he] at hne
    obtain ⟨value, rfl⟩ | hkeeps := hstep.after_testKey i
    · refine .inr ⟨j, value, ?_⟩
      rw [Config.trace_after, marks_own_cons, if_pos rfl, hmk]
      simp
    · rw [hkeeps] at hne
      exact hkeep hne
  · rw [Config.mem_after, exec_redis_mark hkey hmk he] at hne
    refine hkeep fun hnone => hne ?_
    simp [Mark.after, hnone]

end Run

end OJJudge.Verdict
