import OJJudge.Source.Machine

/-! What a submission does to its source file and its executable, from its own history: it opens and
writes the source once, compiles it at most once, copies the executable once for each test, and
removes both at last. -/

namespace OJJudge.Source

open Concurrency

/-- What a submission does to its source file and its executable. -/
inductive Mark
  | opened (fd : Nat)
  | wrote (fd : Nat) (body : Bytes)
  | queued (test_num : Nat)
  | compiled (status : Int32)
  | copied
  | removed
  deriving DecidableEq

def mark : Event effects → Option Mark
  | ⟨.openFile _, fd⟩ => some (.opened fd)
  | ⟨.write fd body, _⟩ => some (.wrote fd body)
  | ⟨.push task, _⟩ => some (.queued task.test_num)
  | ⟨.spawn (.gpp _ _), status⟩ => some (.compiled status)
  | ⟨.spawn (.cp _ target), _⟩ => if target = boxPath "runner" then some .copied else none
  | ⟨.spawn (.rm _), _⟩ => some .removed
  | _ => none

def marks (h : List (Event effects)) : List Mark := h.filterMap mark

/-- The marks of a submission whose job has compiled and made `c` copies, newest first. -/
def compiledMarks (body : Bytes) (fd n : Nat) (status : Int32) (c : Nat) : List Mark :=
  .replicate c .copied ++ [.compiled status, .queued n, .wrote fd body, .opened fd]

/-- The marks that a submission can have made, newest first. -/
inductive Filed (body : Bytes) : List Mark → Prop
  | fresh : Filed body []
  | opened (fd : Nat) : Filed body [.opened fd]
  | wrote (fd : Nat) : Filed body [.wrote fd body, .opened fd]
  | queued (fd n : Nat) : Filed body [.queued n, .wrote fd body, .opened fd]
  | compiled (fd n : Nat) (status : Int32) (c : Nat) (hc : c ≤ n) (hs : status = 0 ∨ c = 0) :
      Filed body (compiledMarks body fd n status c)
  | removed (fd n : Nat) (status : Int32) (c r : Nat) (hc : c ≤ n) (hs : status = 0 ∨ c = 0) :
      Filed body (.replicate (r + 1) .removed ++ compiledMarks body fd n status c)

theorem Filed.of_eq {body : Bytes} {ms : List Mark} (h : Filed body ms)
    {hist : List (Event effects)} (hh : marks hist = ms) : Filed body (marks hist) :=
  hh ▸ h

/-- The mark `mk` that a submission can add to its marks. -/
inductive FileStep (body : Bytes) : List Mark → Mark → Prop
  | open (fd : Nat) : FileStep body [] (.opened fd)
  | write (fd : Nat) : FileStep body [.opened fd] (.wrote fd body)
  | queue (fd n : Nat) : FileStep body [.wrote fd body, .opened fd] (.queued n)
  | compile (fd n : Nat) (status : Int32) :
      FileStep body [.queued n, .wrote fd body, .opened fd] (.compiled status)
  | copy (fd n c : Nat) (h : c < n) : FileStep body (compiledMarks body fd n 0 c) .copied
  | remove (fd n : Nat) (status : Int32) (c r : Nat) :
      FileStep body (.replicate r .removed ++ compiledMarks body fd n status c) .removed

theorem Filed.fileStep {body : Bytes} {mk : Mark} {ms : List Mark} (h : Filed body (mk :: ms)) :
    FileStep body ms mk := by
  generalize hl : mk :: ms = l at h
  cases h with
  | fresh => cases hl
  | opened fd =>
    cases hl
    exact .open fd
  | wrote fd =>
    cases hl
    exact .write fd
  | queued fd n =>
    cases hl
    exact .queue fd n
  | compiled fd n status c hc hs =>
    cases c with
    | zero =>
      cases hl
      exact .compile fd n status
    | succ c =>
      simp only [compiledMarks, List.replicate_succ, List.cons_append, List.cons.injEq] at hl
      obtain ⟨rfl, rfl⟩ := hl
      obtain rfl := hs.resolve_right (by omega)
      exact .copy fd n c (by omega)
  | removed fd n status c r hc hs =>
    simp only [List.replicate_succ, List.cons_append, List.cons.injEq] at hl
    obtain ⟨rfl, rfl⟩ := hl
    exact .remove fd n status c r

theorem mark_cp (source target : String) (r : Int32) :
    mark ⟨.spawn (.cp source target), r⟩ =
      if target = boxPath "runner" then some .copied else none := rfl

section Submission

variable {task : Runner_task} {A : (o : Op) → o.Res → Prop} {body : Bytes} {fd n c : Nat}
  {status : Int32} {h : List (Event effects)}

/-- One test copies the executable once. -/
theorem runTest_filed (hpath : task.path = OJ_Judge.waiting_judge) (i : Nat) (input : String)
    (sum : Int32) (hc : c < n) (hh : marks h = compiledMarks body fd n 0 c) :
    (runTest OJ_Judge task i input sum).Wp (Records A) (fun h _ => Filed body (marks h))
      (fun _ h => marks h = compiledMarks body fd n 0 (c + 1)) h := by
  have hbefore : Filed body (compiledMarks body fd n 0 c) := .compiled fd n 0 c hc.le (.inl rfl)
  have hafter : Filed body (compiledMarks body fd n 0 (c + 1)) :=
    .compiled fd n 0 (c + 1) hc (.inl rfl)
  have hinput : boxPath "input.txt" ≠ boxPath "runner" := by simp
  have houtput : outputPath task.path task.file_name i ≠ boxPath "runner" :=
    hpath ▸ (boxPath_ne_outputPath _ _ _).symm
  simp only [runTest, system_spawn_cmd, effect_eq, Prog.op_bind, Prog.ret_bind, Prog.pure_eq]
  refine Prog.wp_unmarked_op (fun _ => rfl) hbefore hh fun _ s _ hs => ?_
  refine Prog.wp_unmarked_op (fun _ => rfl) hbefore hs fun _ s _ hs => ?_
  refine Prog.wp_marked_op (f := fun _ => .copied) (fun r => by rw [mark_cp, if_pos rfl]) hbefore hs
    fun _ s _ hs => ?_
  refine Prog.wp_unmarked_op (fun r => by rw [mark_cp, if_neg hinput]) hafter hs fun _ s _ hs => ?_
  refine Prog.wp_unmarked_op (fun _ => rfl) hafter hs fun _ s _ hs => ?_
  refine Prog.wp_unmarked_op (fun r => by rw [mark_cp, if_neg houtput]) hafter hs fun _ s _ hs => ?_
  refine Prog.wp_unmarked_op (fun _ => rfl) hafter hs fun _ s _ hs => ?_
  exact Prog.wp_unmarked_op (fun _ => rfl) hafter hs fun _ s _ hs => hs

/-- The first loop copies the executable once for each test. -/
theorem runTests_filed (hpath : task.path = OJ_Judge.waiting_judge)
    (tests : List (String × String)) (c : Nat) (sum : Int32) (hn : c + tests.length = n)
    (hh : marks h = compiledMarks body fd n 0 c) :
    (runTests OJ_Judge task c tests sum).Wp (Records A) (fun h _ => Filed body (marks h))
      (fun _ h => marks h = compiledMarks body fd n 0 n) h := by
  induction tests generalizing c sum h with
  | nil =>
    obtain rfl : c = n := by simpa using hn
    exact hh
  | cons test rest ih =>
    rw [List.length_cons] at hn
    refine (runTest_filed hpath c test.1 sum (by omega) hh).bind fun sum s hs => ?_
    exact ih (c + 1) sum (by omega) hs

theorem compareTests_unmarked (conf : IsolateConf) (tests : List (String × String)) (i : Nat) :
    (compareTests conf task i tests).Only fun o => ∀ r, mark ⟨o, r⟩ = none := by
  induction tests generalizing i with
  | nil => trivial
  | cons test rest ih =>
    refine Prog.Only.bind ?_ fun _ => ih (i + 1)
    simp only [compareTest, file_cmp, redis_set_field, redis_incr, redis_expire, effect_eq,
      Prog.op_bind, Prog.ret_bind]
    refine ⟨fun _ => rfl, fun cmp_code => ?_⟩
    dsimp only
    split <;> simp [mark]

theorem reportError_unmarked (file_name code : String) :
    (reportError file_name code).Only fun o => ∀ r, mark ⟨o, r⟩ = none := by
  simp [reportError, redis_set_field, redis_expire, mark]

theorem removeFiles_filed (conf : IsolateConf) (hc : c ≤ n) (hs : status = 0 ∨ c = 0)
    (hh : marks h = compiledMarks body fd n status c) :
    (removeFiles conf task).Wp (Records A) (fun h _ => Filed body (marks h))
      (fun _ h => marks h = .replicate 2 .removed ++ compiledMarks body fd n status c) h := by
  simp only [removeFiles, system_spawn_cmd, effect_eq, Prog.op_bind, Prog.ret_bind, Prog.pure_eq]
  refine Prog.wp_marked_op (f := fun _ => .removed) (fun _ => rfl)
    (.compiled fd n status c hc hs) hh fun _ s _ h₁ => ?_
  exact Prog.wp_marked_op (f := fun _ => .removed) (fun _ => rfl)
    (.removed fd n status c 0 hc hs) h₁ fun _ s _ h₂ => h₂

theorem cpp_runner_filed (hpath : task.path = OJ_Judge.waiting_judge) (hn : task.test_num = n)
    (hh : marks h = [.queued n, .wrote fd body, .opened fd]) :
    (cpp_runner OJ_Judge task).Wp (Records A) (fun h _ => Filed body (marks h))
      (fun _ h => Filed body (marks h)) h := by
  unfold cpp_runner
  simp only [system_spawn_cmd, effect_eq, Prog.op_bind, Prog.ret_bind]
  refine Prog.wp_marked_op (f := .compiled) (fun _ => rfl) (.queued fd n) hh fun status s _ hs => ?_
  split
  · next h0 =>
    subst h0
    refine (runTests_filed hpath task.test_vec 0 0 ?_ hs).bind fun sum s hs => ?_
    · rw [← hn, task.test_num_eq, Nat.zero_add]
    have hran : Filed body (compiledMarks body fd n 0 n) := .compiled fd n 0 n le_rfl (.inl rfl)
    have hremove : ∀ s, marks s = compiledMarks body fd n 0 n →
        (removeFiles OJ_Judge task).Wp (Records A) (fun h _ => Filed body (marks h))
          (fun _ h => Filed body (marks h)) s :=
      fun s hs => (removeFiles_filed OJ_Judge le_rfl (.inl rfl) hs).mono (fun _ _ h => h)
        fun _ _ h => h ▸ .removed fd n 0 n 1 le_rfl (.inl rfl)
    split
    · exact (Prog.wp_unmarked (compareTests_unmarked _ _ _) hran hs).bind fun _ s hs => hremove s hs
    · exact (Prog.wp_unmarked (reportError_unmarked _ _) hran hs).bind fun _ s hs => hremove s hs
  · have hremoved : Filed body (.replicate 2 .removed ++ compiledMarks body fd n status 0) :=
      .removed fd n status 0 1 n.zero_le (.inr rfl)
    refine (removeFiles_filed OJ_Judge n.zero_le (.inr rfl) hs).bind fun _ s hs => ?_
    exact (Prog.wp_unmarked (reportError_unmarked _ _) hremoved hs).mono (fun _ _ h => h)
      fun _ _ hs => hremoved.of_eq hs

theorem TaskPush_filed (file_name porblem_id : String) (mysql_kv : List (List String))
    (hh : marks h = [.wrote fd body, .opened fd]) :
    (TaskPush OJ_Judge file_name porblem_id mysql_kv).Wp (Records A)
      (fun h _ => Filed body (marks h)) (fun _ h => Filed body (marks h)) h := by
  unfold TaskPush
  simp only [effect_eq, Prog.op_bind, Prog.ret_bind]
  split
  · exact Prog.wp_unmarked_op (fun _ => rfl) (.wrote fd) hh fun _ _ _ hs => (Filed.wrote fd).of_eq hs
  · refine Prog.wp_marked_op (f := fun _ => .queued mysql_kv.length) (fun _ => rfl) (.wrote fd) hh
      fun _ s _ hs => ?_
    refine Prog.wp_unmarked_op (fun _ => rfl) (.queued fd _) hs fun _ s _ hs => ?_
    exact cpp_runner_filed rfl rfl hs

/-- All that a submission does to its source file and its executable. -/
theorem runCpp_filed (user_name porblem_title : String) :
    (runCpp OJ_Judge user_name porblem_title body).Wp (Records A)
      (fun h _ => Filed body (marks h)) (fun _ h => Filed body (marks h)) [] := by
  unfold runCpp
  simp only [effect_eq, Prog.op_bind, Prog.ret_bind]
  refine Prog.wp_unmarked_op (fun _ => rfl) .fresh rfl fun sql_kv s _ hs => ?_
  dsimp only
  split
  · refine Prog.wp_marked_op (f := .opened) (fun _ => rfl) .fresh hs fun fd s _ hs => ?_
    refine Prog.wp_marked_op (f := fun _ => .wrote fd body) (fun _ => rfl) (.opened fd) hs
      fun _ s _ hs => ?_
    refine Prog.wp_unmarked_op (fun _ => rfl) (.wrote fd) hs fun _ s _ hs => ?_
    refine Prog.wp_unmarked_op (fun _ => rfl) (.wrote fd) hs fun _ s _ hs => ?_
    refine Prog.wp_unmarked_op (fun _ => rfl) (.wrote fd) hs fun _ s _ hs => ?_
    refine Prog.wp_unmarked_op (fun _ => rfl) (.wrote fd) hs fun _ s _ hs => ?_
    refine Prog.wp_unmarked_op (fun _ => rfl) (.wrote fd) hs fun _ s _ hs => ?_
    refine Prog.wp_unmarked_op (fun _ => rfl) (.wrote fd) hs fun _ s _ hs => ?_
    refine Prog.wp_unmarked_op (fun _ => rfl) (.wrote fd) hs fun mysql_kv s _ hs => ?_
    exact TaskPush_filed _ _ mysql_kv hs
  · exact Prog.wp_unmarked_op (fun _ => rfl) .fresh hs fun _ _ _ hs => Filed.fresh.of_eq hs

end Submission

end OJJudge.Source
