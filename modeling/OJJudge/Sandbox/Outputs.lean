import OJJudge.Sandbox.Jobs

/-! Jobs with different file names, in any order of their operations: each one compares the outputs of
its own executable and leaves the keys that it leaves alone. -/

namespace OJJudge.Sandbox

open Concurrency

variable {J : Type} (tools : Toolchain)

/-- The output of a job's executable on an input file. -/
def ownOutput (m : Memory J) (f input : String) : Option Bytes :=
  (m.files (cppPath OJ_Judge.waiting_judge f)).bind fun source =>
    (m.files (OJ_Judge.inPath ++ "/" ++ input)).map (tools.stdout (tools.compile source))

/-- The files after a test of a job. -/
def afterTest (f : String) (i : Nat) (input : String) (files : String → Option Bytes) :
    String → Option Bytes :=
  [.isolateInit, .cp (runPath OJ_Judge f) (boxPath "runner"),
    .cp (OJ_Judge.inPath ++ "/" ++ input) (boxPath "input.txt"), .isolateRun,
    .cp (boxPath "output.txt") (outputPath OJ_Judge.waiting_judge f i),
    .isolateCleanup].foldl tools.spawn files

/-- Commands keep a file that none of them writes. -/
theorem foldl_spawn_of_not_mem {cmds : List Cmd} {files : String → Option Bytes} {path : String}
    (h : ∀ cmd ∈ cmds, .file path ∉ cmdWrites cmd) :
    cmds.foldl tools.spawn files path = files path := by
  induction cmds generalizing files with
  | nil => rfl
  | cons cmd cmds ih =>
    rw [List.foldl_cons, ih fun c hc => h c (List.mem_cons_of_mem _ hc),
      spawn_of_not_mem tools (h cmd (List.mem_cons_self ..))]

section Test

variable {f input : String} {i : Nat} {files : String → Option Bytes}

theorem afterTest_of_ne {path : String} (hbox : ¬inBox path = true)
    (hne : path ≠ outputPath OJ_Judge.waiting_judge f i) :
    afterTest tools f i input files path = files path := by
  have hfile : ∀ name, path ≠ boxPath name := by
    rintro name rfl
    exact hbox (inBox_iff.mpr ⟨name, rfl⟩)
  refine foldl_spawn_of_not_mem tools ?_
  have hnot : .file path ∉ box := by
    rintro ⟨_, heq, h⟩
    cases heq
    exact hbox h
  simp [cmdWrites, hne, hfile, hnot]

/-- The output of a test is the one of the executable, whatever the box has been used for before. -/
theorem afterTest_output : afterTest tools f i input files (outputPath OJ_Judge.waiting_judge f i) =
    (files (runPath OJ_Judge f)).bind fun runner =>
      (files (OJ_Judge.inPath ++ "/" ++ input)).map (tools.stdout runner) := by
  have houtput := not_inBox_of_mem (f := f) (.inr ⟨i, rfl⟩ :
    outputPath OJ_Judge.waiting_judge f i ∈ filesOf f)
  have hrun := not_inBox_of_mem (f := f) (.inl (.inr rfl) : runPath OJ_Judge f ∈ filesOf f)
  have hinput := isTestFile.not_inBox (.inl ⟨input, rfl⟩ :
    isTestFile (OJ_Judge.inPath ++ "/" ++ input))
  have hne : OJ_Judge.inPath ++ "/" ++ input ≠ boxPath "runner" := by
    intro heq
    exact hinput (inBox_iff.mpr ⟨_, heq⟩)
  simp [afterTest, Toolchain.spawn, boxOutput, houtput, hrun, hinput, hne]

end Test

/-! ### One job alone -/

/-- A comparison is between the answer file of a test and the output of the job's own executable on
the input of this test. -/
def ComparesOwn (task : Runner_task) (m₀ m : Memory J) : Op → Prop
  | .file_cmp path1 path2 => ∃ i input answer, task.test_vec[i]? = some (input, answer) ∧
      path1 = OJ_Judge.ansPath ++ "/" ++ answer ∧
      path2 = outputPath OJ_Judge.waiting_judge task.file_name i ∧
      m.files path1 = m₀.files path1 ∧ m.files path2 = ownOutput tools m₀ task.file_name input
  | _ => True

/-- The files of a job that has compiled its source and run its first `n` tests. -/
structure Ready (task : Runner_task) (m₀ : Memory J) (n : Nat) (m : Memory J) : Prop where
  tests : ∀ path, isTestFile path → m.files path = m₀.files path
  executable : m.files (runPath OJ_Judge task.file_name) =
    (m₀.files (cppPath OJ_Judge.waiting_judge task.file_name)).map tools.compile
  outputs : ∀ i < n, ∀ input answer, task.test_vec[i]? = some (input, answer) →
    m.files (outputPath OJ_Judge.waiting_judge task.file_name i) =
      ownOutput tools m₀ task.file_name input

section Alone

variable {tools} {t : J} {task : Runner_task} {m₀ m m' : Memory J} {n : Nat}

theorem Ready.of_files (h : Ready tools task m₀ n m) (hfiles : m'.files = m.files) :
    Ready tools task m₀ n m' := by
  obtain ⟨htests, hexecutable, houtputs⟩ := h
  rw [← hfiles] at htests hexecutable houtputs
  exact ⟨htests, hexecutable, houtputs⟩

theorem Ready.compiled (hfiles : m.files = tools.spawn m₀.files
    (.gpp (cppPath OJ_Judge.waiting_judge task.file_name) (runPath OJ_Judge task.file_name))) :
    Ready tools task m₀ 0 m where
  tests path htest := by
    rw [hfiles]
    refine spawn_of_not_mem tools fun hmem => htest.not_mem (f := task.file_name) ?_
    cases hmem
    exact .inl (.inr rfl)
  executable := by simp [hfiles, Toolchain.spawn]
  outputs i hi := absurd hi (Nat.not_lt_zero i)

/-- The step lemma of the first loop. -/
theorem Ready.next {input answer : String} (h : Ready tools task m₀ n m)
    (htest : task.test_vec[n]? = some (input, answer))
    (hfiles : m'.files = afterTest tools task.file_name n input m.files) :
    Ready tools task m₀ (n + 1) m' where
  tests path hpath := by
    rw [hfiles, afterTest_of_ne tools hpath.not_inBox, h.tests path hpath]
    rintro rfl
    exact hpath.not_mem (.inr ⟨n, rfl⟩)
  executable := by
    rw [hfiles, afterTest_of_ne tools (not_inBox_of_mem (.inl (.inr rfl)))
      (outputPath_ne_runPath _ _ n).symm, h.executable]
  outputs i hi input' answer' htest' := by
    rw [hfiles]
    obtain hi | rfl := Nat.lt_succ_iff_lt_or_eq.mp hi
    · rw [afterTest_of_ne tools (not_inBox_of_mem (.inr ⟨i, rfl⟩)) fun heq =>
        hi.ne (outputPath_inj.mp heq).2]
      exact h.outputs i hi input' answer' htest'
    · cases htest.symm.trans htest'
      rw [afterTest_output, h.executable, h.tests _ (.inl ⟨input, rfl⟩), ownOutput,
        Option.bind_map]
      rfl

theorem getElem?_of_drop {α : Type} {l rest : List α} {a : α} (h : l.drop n = a :: rest) :
    l[n]? = some a ∧ l.drop (n + 1) = rest := by
  constructor
  · rw [← List.head?_drop, h, List.head?_cons]
  · rw [← List.tail_drop, h, List.tail_cons]

/-- What job `t` runs alone. -/
abbrev Solo (tools : Toolchain) (t : J) (m : Memory J) (o : Op) (r : o.Res) (m' : Memory J) : Prop :=
  exec tools t o m = some (r, m')

theorem Solo.spawn_files {cmd : Cmd} {r : Int32} (h : Solo tools t m (.spawn cmd) r m') :
    m'.files = tools.spawn m.files cmd := by
  cases h
  rfl

/-- Only commands change the files. -/
theorem Solo.files_eq {o : Op} {r : o.Res} (h : Solo tools t m o r m')
    (hspawn : ∀ cmd, o ≠ .spawn cmd) : m'.files = m.files := by
  cases o with
  | set | incr | expire | unlock | file_cmp =>
    cases h
    rfl
  | spawn cmd => exact absurd rfl (hspawn cmd)
  | lock =>
    cases hlock : m.lock with
    | none =>
      simp only [Solo, exec, hlock] at h
      cases h
      rfl
    | some u =>
      simp only [Solo, exec, hlock] at h
      cases h
  | _ => cases h

variable (hpath : task.path = OJ_Judge.waiting_judge)

include hpath

theorem runTest_wp {input answer : String} (status : Int32) (h : Ready tools task m₀ n m)
    (htest : task.test_vec[n]? = some (input, answer)) :
    (runTest OJ_Judge task n input status).Wp (Solo tools t) (ComparesOwn tools task m₀)
      (fun _ m => Ready tools task m₀ (n + 1) m) m := by
  simp only [runTest, system_spawn_cmd, effect_eq, Prog.op_bind, Prog.ret_bind]
  refine ⟨trivial, fun _ _ hlock => ⟨trivial, fun _ _ hinit => ⟨trivial, fun _ _ hrunner =>
    ⟨trivial, fun _ _ hinput => ⟨trivial, fun _ _ hrun => ⟨trivial, fun _ _ houtput =>
    ⟨trivial, fun _ _ hcleanup => ⟨trivial, fun _ _ hunlock => ?_⟩⟩⟩⟩⟩⟩⟩⟩
  refine h.next htest ?_
  rw [Solo.files_eq hunlock (by simp), hcleanup.spawn_files, houtput.spawn_files, hrun.spawn_files,
    hinput.spawn_files, hrunner.spawn_files, hinit.spawn_files, Solo.files_eq hlock (by simp), hpath]
  rfl

theorem runTests_wp {tests : List (String × String)} (status : Int32)
    (h : Ready tools task m₀ n m) (htests : task.test_vec.drop n = tests) :
    (runTests OJ_Judge task n tests status).Wp (Solo tools t) (ComparesOwn tools task m₀)
      (fun _ m => Ready tools task m₀ task.test_vec.length m) m := by
  induction tests generalizing n status m with
  | nil =>
    have hlen : task.test_vec.length ≤ n := List.drop_eq_nil_iff.mp htests
    exact ⟨h.tests, h.executable, fun i hi => h.outputs i (by omega)⟩
  | cons test rest ih =>
    obtain ⟨htest, hrest⟩ := getElem?_of_drop htests
    exact (runTest_wp hpath status h htest).bind fun status m hready => ih status hready hrest

theorem compareTest_wp {input answer : String}
    (h : Ready tools task m₀ task.test_vec.length m)
    (htest : task.test_vec[n]? = some (input, answer)) :
    (compareTest OJ_Judge task n answer).Wp (Solo tools t) (ComparesOwn tools task m₀)
      (fun _ m => Ready tools task m₀ task.test_vec.length m) m := by
  have hlen : n < task.test_vec.length := (List.getElem?_eq_some_iff.mp htest).1
  have hexpire : ∀ m, Ready tools task m₀ task.test_vec.length m →
      (Prog.op (S := effects) (.expire (testKey task.file_name n) 40) fun _ => .ret ()).Wp
        (Solo tools t) (ComparesOwn tools task m₀)
        (fun _ m => Ready tools task m₀ task.test_vec.length m) m := by
    intro m hready
    exact ⟨trivial, fun _ _ hexec => hready.of_files (Solo.files_eq hexec (by simp))⟩
  simp only [compareTest, file_cmp, redis_set_field, redis_incr, redis_expire, effect_eq,
    Prog.op_bind, Prog.ret_bind]
  have houtput := h.outputs n hlen input answer htest
  rw [← hpath] at houtput
  refine ⟨⟨n, input, answer, htest, rfl, by rw [hpath], h.tests _ (.inr ⟨answer, rfl⟩), houtput⟩,
    fun cmp_code m₁ hcmp => ?_⟩
  have h₁ := h.of_files (Solo.files_eq hcmp (by simp))
  dsimp only
  split
  · refine ⟨trivial, fun _ m₂ hset => ⟨trivial, fun _ m₃ hincr => ?_⟩⟩
    have h₂ := h₁.of_files (Solo.files_eq hset (by simp))
    exact hexpire m₃ (h₂.of_files (Solo.files_eq hincr (by simp)))
  · exact ⟨trivial, fun _ m₂ hset => hexpire m₂ (h₁.of_files (Solo.files_eq hset (by simp)))⟩

theorem compareTests_wp {tests : List (String × String)}
    (h : Ready tools task m₀ task.test_vec.length m) (htests : task.test_vec.drop n = tests) :
    (compareTests OJ_Judge task n tests).Wp (Solo tools t) (ComparesOwn tools task m₀)
      (fun _ _ => True) m := by
  induction tests generalizing n m with
  | nil => trivial
  | cons test rest ih =>
    obtain ⟨htest, hrest⟩ := getElem?_of_drop htests
    exact (compareTest_wp hpath h htest).bind fun _ m hready => ih hready hrest

omit hpath in
/-- Parts of the job without comparisons. -/
theorem wp_of_only {α : Type} {p : Code α} (hp : p.Only fun o : Op => ∀ p q, o ≠ .file_cmp p q) :
    p.Wp (Solo tools t) (ComparesOwn tools task m₀) (fun _ _ => True) m := by
  refine hp.wp (I := fun _ => True) ?_ (fun _ _ _ _ _ _ _ => trivial) trivial
  intro m o ho _
  cases o with
  | file_cmp p q => exact absurd rfl (ho p q)
  | _ => trivial

theorem cpp_runner_wp : (cpp_runner OJ_Judge task).Wp (Solo tools t) (ComparesOwn tools task m₀)
    (fun _ _ => True) m₀ := by
  have hremove : ∀ m : Memory J, (removeFiles OJ_Judge task).Wp (Solo tools t)
      (ComparesOwn tools task m₀) (fun _ _ => True) m := fun m =>
    wp_of_only (by simp [removeFiles, system_spawn_cmd])
  have hreport : ∀ code (m : Memory J), (reportError task.file_name code).Wp (Solo tools t)
      (ComparesOwn tools task m₀) (fun _ _ => True) m := fun code m =>
    wp_of_only (by simp [reportError, redis_set_field, redis_expire])
  simp only [cpp_runner, system_spawn_cmd, effect_eq, Prog.op_bind, Prog.ret_bind]
  refine ⟨trivial, fun status m hcompile => ?_⟩
  rw [hpath] at hcompile
  have hready := Ready.compiled hcompile.spawn_files
  dsimp only
  split
  · refine (runTests_wp hpath 0 hready rfl).bind fun status m hready => ?_
    split
    · exact (compareTests_wp hpath hready rfl).bind fun _ m _ => hremove m
    · exact (hreport "-3" m).bind fun _ m _ => hremove m
  · exact (hremove m).bind fun _ m _ => hreport "-2" m

end Alone

/-! ### Jobs next to each other -/

section Jobs

variable {tools} {jobs : J → Runner_task} {m : Memory J}

theorem isolates (hname : Function.Injective fun t => (jobs t).file_name)
    (hpath : ∀ t, (jobs t).path = OJ_Judge.waiting_judge) (hlock : m.lock = none) :
    (footprint J tools).Isolates (fun t => jobLocs (jobs t).file_name) testLocs box
      (start tools jobs m) where
  mine_mine _ _ hne := disjoint_jobLocs (hname.ne hne)
  mine_shared t := disjoint_jobLocs_testLocs (jobs t).file_name
  mine_guarded t := disjoint_jobLocs_box (jobs t).file_name
  shared_guarded := disjoint_testLocs_box
  keeps t := cpp_runner_keepsTo tools (hpath t)
  free := hlock

/-- A comparison depends only on the locations of the job and the test files. -/
theorem ComparesOwn.congr {task : Runner_task} {m₀ m m' : Memory J} {o : Op}
    (h : ComparesOwn tools task m₀ m o)
    (hview : ∀ l ∈ jobLocs task.file_name ∪ testLocs, m.view l = m'.view l) :
    ComparesOwn tools task m₀ m' o := by
  cases o with
  | file_cmp path1 path2 =>
    obtain ⟨i, input, answer, htest, rfl, rfl, hanswer, houtput⟩ := h
    refine ⟨i, input, answer, htest, rfl, rfl, ?_, ?_⟩
    · rw [← hanswer]
      exact (hview _ (.inr (mem_testLocs_ans answer))).symm
    · rw [← houtput]
      exact (hview _ (.inl (mem_jobLocs_outputPath task.file_name i))).symm
  | _ => trivial

/-- Jobs with different file names do not interfere.  Under any rule `ok` for the order of their
operations, such as that of a pool with some number of workers, a job compares the answer file of each
test and the output of its own executable on the input, and its keys end as they do when it runs
alone. -/
theorem jobs_do_not_interfere [DecidableEq J] (tools : Toolchain) (jobs : J → Runner_task)
    (hname : Function.Injective fun t => (jobs t).file_name)
    (hpath : ∀ t, (jobs t).path = OJ_Judge.waiting_judge) (m : Memory J) (hlock : m.lock = none)
    {ok : Config (machine J tools) → J → Prop} {c : Config (machine J tools)}
    (h : Reach ok (start tools jobs m) c) (t : J) :
    (∀ o, (c.prog t).next? = some o → ComparesOwn tools (jobs t) m c.mem o) ∧
    ((c.prog t).returned = true →
      ∃ s, (cpp_runner OJ_Judge (jobs t)).runs (exec tools t) m = some ((), s) ∧
        c.mem.redis (sumKey (jobs t).file_name) = s.redis (sumKey (jobs t).file_name) ∧
        ∀ i, c.mem.redis (testKey (jobs t).file_name i) =
          s.redis (testKey (jobs t).file_name i)) := by
  have hany : Reach anyOrder (start tools jobs m) c := h.weaken fun _ _ _ _ => trivial
  obtain ⟨s, halone, hview⟩ := (isolates hname hpath hlock).alone hany t
  constructor
  · intro o ho
    obtain ⟨k, hprog⟩ := Prog.next?_eq_some.mp ho
    have hwp := halone.wp (cpp_runner_wp (hpath t)) fun _ _ _ _ _ hexec => hexec
    rw [hprog] at hwp
    exact hwp.1.congr hview
  · intro hreturned
    have hruns : (cpp_runner OJ_Judge (jobs t)).runs (exec tools t) m =
        (c.prog t).runs (exec tools t) s := halone.runs fun _ _ _ _ _ hexec => hexec
    cases hprog : c.prog t with
    | ret a =>
      rw [hprog] at hruns
      refine ⟨s, hruns, ?_, fun i => ?_⟩
      · exact (hview _ (.inl (mem_jobLocs_sumKey _))).symm
      · exact (hview _ (.inl (mem_jobLocs_testKey _ i))).symm
    | op o k =>
      rw [hprog] at hreturned
      cases hreturned

/-- An executable here prints its source and then its input. -/
def printing : Toolchain := ⟨id, fun runner input => runner ++ input, fun _ _ => []⟩

/-- Two users submit to one problem. -/
def twoJobs (t : Bool) : Runner_task :=
  ⟨OJ_Judge.waiting_judge, if t then "a__p" else "b__p", "p", 1, [("1.in", "1.out")], rfl⟩

def twoSources : Memory Bool where
  redis _ := none
  files path :=
    if path = cppPath OJ_Judge.waiting_judge "a__p" then some [1]
    else if path = cppPath OJ_Judge.waiting_judge "b__p" then some [2]
    else if path = OJ_Judge.inPath ++ "/1.in" then some [3]
    else if path = OJ_Judge.ansPath ++ "/1.out" then some [1, 3]
    else none
  lock := none

/-- Both jobs compile, then run their tests, then compare. -/
theorem jobs_do_not_interfere_two : ∃ c s, Reach anyOrder (start printing twoJobs twoSources) c ∧
    (c.prog true).returned = true ∧
    (cpp_runner OJ_Judge (twoJobs true)).runs (exec printing true) twoSources = some ((), s) ∧
    c.mem.redis (sumKey "a__p") = s.redis (sumKey "a__p") := by
  obtain ⟨c, hreach, hdone⟩ := Config.exists_reach anyOrder (start printing twoJobs twoSources)
    ([true, false].map (·, ()) ++ List.replicate 8 (true, ()) ++ List.replicate 8 (false, ()) ++
      (List.replicate 5 [true, false]).flatten.map (·, ()) ++ [(true, ())])
    (fun c => (c.prog true).returned) true (by decide +kernel)
  obtain ⟨s, hruns, hsum, -⟩ := (jobs_do_not_interfere printing twoJobs (by decide)
    (by decide) twoSources rfl hreach true).2 hdone
  exact ⟨c, s, hreach, hdone, hruns, hsum⟩

end Jobs

end OJJudge.Sandbox
