import OJJudge.Handlers
import OJJudge.Shell.Literal

/-! The argument vectors of the commands of `cpp_runner`.  A file name reaches `open` as it is, and
the spawned commands through `wordexp`, so a command names the file that `runCpp` wrote only when no
expansion changes the name. -/

namespace OJJudge

open Concurrency Shell
open scoped List

/-- The job that `runCpp` queues for a submission. -/
def job (user_name porblem_title : String) (test_vec : List (String × String)) : Runner_task where
  path := OJ_Judge.waiting_judge
  file_name := fileName user_name porblem_title
  porblem_id := porblem_title
  test_num := test_vec.length
  test_vec := test_vec
  test_num_eq := rfl

namespace Spawn

/-- What `system_spawn_cmd` passes to `posix_spawn`, and the commands that ran for it: the words of
the C string, unless there is none. -/
def system_spawn_cmd (env : Env) (cmd : String) : Option Expansion :=
  (wordexp env (cmd.toList.takeWhile (· ≠ '\x00'))).bind fun p =>
    if p.words.length = 0 then none else some p

/-- The commands of a job, each with the argument vector that it is meant to have. -/
inductive Intended (user_name porblem_title : String) (test_vec : List (String × String)) :
    Cmd → List String → Prop
  | compile : Intended user_name porblem_title test_vec
      (.gpp (cppPath OJ_Judge.waiting_judge (fileName user_name porblem_title))
        (runPath OJ_Judge (fileName user_name porblem_title)))
      ["/usr/bin/g++", uploadPath OJ_Judge user_name porblem_title, "-o",
        runPath OJ_Judge (fileName user_name porblem_title)]
  | init : Intended user_name porblem_title test_vec .isolateInit
      ["/usr/local/bin/isolate", "--init", "--box-id=1"]
  | copyRunner : Intended user_name porblem_title test_vec
      (.cp (runPath OJ_Judge (fileName user_name porblem_title)) (boxPath "runner"))
      ["/usr/bin/cp", runPath OJ_Judge (fileName user_name porblem_title), boxPath "runner"]
  | copyInput {test : String × String} (htest : test ∈ test_vec) :
      Intended user_name porblem_title test_vec
      (.cp (OJ_Judge.inPath ++ "/" ++ test.1) (boxPath "input.txt"))
      ["/usr/bin/cp", OJ_Judge.inPath ++ "/" ++ test.1, boxPath "input.txt"]
  | run : Intended user_name porblem_title test_vec .isolateRun
      ["/usr/local/bin/isolate", "--box-id=1", "--processes=1", "--mem=65536", "--wall-time=2",
        "--stdin=input.txt", "--stdout=output.txt", "--stderr=error.txt", "--run", "/box/runner"]
  | copyOutput {i : Nat} (hi : i < test_vec.length) : Intended user_name porblem_title test_vec
      (.cp (boxPath "output.txt")
        (outputPath OJ_Judge.waiting_judge (fileName user_name porblem_title) i))
      ["/usr/bin/cp", boxPath "output.txt",
        outputPath OJ_Judge.waiting_judge (fileName user_name porblem_title) i]
  | cleanup : Intended user_name porblem_title test_vec .isolateCleanup
      ["/usr/local/bin/isolate", "--cleanup", "--box-id=1"]
  | removeSource : Intended user_name porblem_title test_vec
      (.rm (cppPath OJ_Judge.waiting_judge (fileName user_name porblem_title)))
      ["/usr/bin/rm", uploadPath OJ_Judge user_name porblem_title]
  | removeRun : Intended user_name porblem_title test_vec
      (.rm (runPath OJ_Judge (fileName user_name porblem_title)))
      ["/usr/bin/rm", runPath OJ_Judge (fileName user_name porblem_title)]

/-- Every command of the job has the argument vector that it is meant to have, and no other command
runs for it, in every environment. -/
def NamesSurvive (user_name porblem_title : String) (test_vec : List (String × String)) : Prop :=
  ∀ env cmd argv, Intended user_name porblem_title test_vec cmd argv →
    system_spawn_cmd env cmd.text = some ⟨argv.map String.toList, []⟩

/-! ### The commands of a job -/

section Commands

variable (user_name porblem_title : String) (test_vec : List (String × String))

/-- A spawned command is one of the job. -/
def OfJob (o : Op) : Prop :=
  ∀ cmd, o = .spawn cmd → ∃ argv, Intended user_name porblem_title test_vec cmd argv

variable {user_name porblem_title test_vec}

theorem ofJob_spawn {cmd : Cmd} {argv : List String}
    (h : Intended user_name porblem_title test_vec cmd argv) :
    OfJob user_name porblem_title test_vec (.spawn cmd) := by
  rintro cmd' heq
  cases heq
  exact ⟨argv, h⟩

theorem ofJob_other {o : Op} (h : ∀ cmd, o ≠ .spawn cmd) :
    OfJob user_name porblem_title test_vec o := fun cmd heq => absurd heq (h cmd)

theorem runTests_commands (before : List (String × String)) {rest : List (String × String)} {i : Nat}
    (hrest : before ++ rest = test_vec) (hi : before.length = i) (status : Int32) :
    (runTests OJ_Judge (job user_name porblem_title test_vec) i rest status).Only
      (OfJob user_name porblem_title test_vec) := by
  induction rest generalizing before i status with
  | nil => trivial
  | cons test rest ih =>
    have hlt : i < test_vec.length := by
      rw [← hrest, List.length_append, List.length_cons]
      omega
    have hmem : test ∈ test_vec := by simp [← hrest]
    refine Prog.Only.bind ?_ fun status => ih (before ++ [test]) (by simp [← hrest]) (by simp [hi])
      status
    simp only [runTest, OJJudge.system_spawn_cmd, effect_eq, Prog.op_bind, Prog.ret_bind]
    exact ⟨ofJob_other (by simp), fun _ => ⟨ofJob_spawn .init, fun _ => ⟨ofJob_spawn .copyRunner,
      fun _ => ⟨ofJob_spawn (.copyInput hmem), fun _ => ⟨ofJob_spawn .run, fun _ =>
      ⟨ofJob_spawn (.copyOutput hlt), fun _ => ⟨ofJob_spawn .cleanup, fun _ =>
      ⟨ofJob_other (by simp), fun _ => trivial⟩⟩⟩⟩⟩⟩⟩⟩

theorem compareTests_commands (rest : List (String × String)) (i : Nat) :
    (compareTests OJ_Judge (job user_name porblem_title test_vec) i rest).Only
      (OfJob user_name porblem_title test_vec) := by
  induction rest generalizing i with
  | nil => trivial
  | cons test rest ih =>
    refine Prog.Only.bind ?_ fun _ => ih (i + 1)
    simp only [compareTest, file_cmp, redis_set_field, redis_incr, redis_expire, effect_eq,
      Prog.op_bind, Prog.ret_bind]
    refine ⟨ofJob_other (by simp), fun cmp_code => ?_⟩
    dsimp only
    split <;> simp [OfJob]

theorem removeFiles_commands :
    (removeFiles OJ_Judge (job user_name porblem_title test_vec)).Only
      (OfJob user_name porblem_title test_vec) := by
  simp only [removeFiles, OJJudge.system_spawn_cmd, effect_eq, Prog.op_bind, Prog.ret_bind]
  exact ⟨ofJob_spawn .removeSource, fun _ => ⟨ofJob_spawn .removeRun, fun _ => trivial⟩⟩

theorem reportError_commands (f code : String) :
    (reportError f code).Only (OfJob user_name porblem_title test_vec) := by
  simp [reportError, redis_set_field, redis_expire, OfJob]

/-- A job spawns no other commands. -/
theorem cpp_runner_commands :
    (cpp_runner OJ_Judge (job user_name porblem_title test_vec)).Only
      (OfJob user_name porblem_title test_vec) := by
  simp only [cpp_runner, OJJudge.system_spawn_cmd, effect_eq, Prog.op_bind, Prog.ret_bind]
  refine ⟨ofJob_spawn .compile, fun status => ?_⟩
  dsimp only
  split
  · refine (runTests_commands [] rfl rfl _).bind fun status => ?_
    split
    · exact (compareTests_commands _ _).bind fun _ => removeFiles_commands
    · exact (reportError_commands _ _).bind fun _ => removeFiles_commands
  · exact removeFiles_commands.bind fun _ => reportError_commands _ _

/-- A submission spawns the commands of its job. -/
theorem runCpp_commands (user_name porblem_title : String) (body : Bytes) :
    (runCpp OJ_Judge user_name porblem_title body).Only fun o : Op =>
      ∃ test_vec, OfJob user_name porblem_title test_vec o := by
  have hother : ∀ {o : Op}, (∀ cmd, o ≠ .spawn cmd) →
      ∃ test_vec, OfJob user_name porblem_title test_vec o := fun h => ⟨[], ofJob_other h⟩
  simp only [runCpp, TaskPush, effect_eq, Prog.op_bind, Prog.ret_bind]
  refine ⟨hother (by simp), fun sql_kv => ?_⟩
  dsimp only
  split
  · refine ⟨hother (by simp), fun fd => ⟨hother (by simp), fun _ => ⟨hother (by simp), fun _ =>
      ⟨hother (by simp), fun _ => ⟨hother (by simp), fun _ => ⟨hother (by simp), fun _ =>
      ⟨hother (by simp), fun _ => ⟨hother (by simp), fun _ => ⟨hother (by simp), fun mysql_kv =>
      ?_⟩⟩⟩⟩⟩⟩⟩⟩⟩
    dsimp only
    split
    · exact ⟨hother (by simp), fun _ => trivial⟩
    · refine ⟨hother (by simp), fun _ => ⟨hother (by simp), fun _ => ?_⟩⟩
      refine Prog.Only.mono (fun o ho => ⟨mysql_kv.map fun cow => (cow.getD 0 "", cow.getD 1 ""), ho⟩) ?_
      convert cpp_runner_commands using 2
      simp [job]
  · exact ⟨hother (by simp), fun _ => trivial⟩

end Commands

/-! ### Names that survive -/

/-- The characters of a name stand for themselves in a command. -/
structure PlainName (name : String) : Prop where
  calm : Calm name.toList
  chars : ∀ c ∈ name.toList, isBlank c = false ∧ c ≠ '\x00'

/-- The names of a submission, where `_` follows the name of its executable, and its paths. -/
structure PlainNames (user_name porblem_title : String) (test_vec : List (String × String)) :
    Prop where
  name : PlainName (fileName user_name porblem_title ++ "_")
  inputs : ∀ test ∈ test_vec, PlainName test.1
  source : Lone (uploadPath OJ_Judge user_name porblem_title).toList
  executable : Lone (runPath OJ_Judge (fileName user_name porblem_title)).toList
  outputPaths : ∀ i < test_vec.length,
    Lone (outputPath OJ_Judge.waiting_judge (fileName user_name porblem_title) i).toList
  inputPaths : ∀ test ∈ test_vec, Lone (OJ_Judge.inPath ++ "/" ++ test.1).toList

/-- The path reaches a command as it is. -/
def Survives (path : String) : Prop := Literal path.toList ∧ '\x00' ∉ path.toList

/-- Every character is ordinary, and none is a zero byte. -/
def allOrdinary (s : String) : Bool := s.toList.all fun c => isOrdinary c && c != '\x00'

theorem allOrdinary_iff {s : String} :
    allOrdinary s = true ↔ ∀ c ∈ s.toList, isOrdinary c = true ∧ c ≠ '\x00' := by
  simp [allOrdinary]

theorem allOrdinary_append (s t : String) :
    allOrdinary (s ++ t) = (allOrdinary s && allOrdinary t) := by
  simp [allOrdinary]

/-- The characters of a literal need no decoding. -/
theorem allOrdinary_ofList (cs : List Char) :
    allOrdinary (String.ofList cs) = cs.all fun c => isOrdinary c && c != '\x00' := by
  rw [allOrdinary, String.toList_ofList]

theorem allOrdinary_toString (i : Nat) : allOrdinary (toString i) = true := by
  rw [allOrdinary_iff]
  intro c hc
  have hdigit : c.isDigit = true :=
    Nat.isDigit_of_mem_toDigits (b := 10) (by decide) (by decide) (by simpa using hc)
  refine ⟨isOrdinary_digit hdigit, ?_⟩
  rintro rfl
  exact absurd hdigit (by decide)

theorem survives_of_ordinary {path : String} (hne : path.toList ≠ [])
    (h : allOrdinary path = true) : Survives path := by
  rw [allOrdinary_iff] at h
  exact ⟨literal_of_ordinary hne fun c hc => (h c hc).1, fun hnul => (h _ hnul).2 rfl⟩

theorem survives_literal (cs : List Char) (hne : cs ≠ [])
    (h : (cs.all fun c => isOrdinary c && c != '\x00') = true) : Survives (String.ofList cs) :=
  survives_of_ordinary (by simpa using hne) ((allOrdinary_ofList cs).trans h)

theorem survives_boxPath {name : String} (h : allOrdinary name = true) : Survives (boxPath name) := by
  unfold boxPath
  refine survives_of_ordinary (by simp) ?_
  rw [allOrdinary_append, h, allOrdinary_ofList]
  decide

section Argv

variable {cmd : String} {argv : List String}

theorem cString_of_no_nul (hnul : '\x00' ∉ cmd.toList) :
    cmd.toList.takeWhile (· ≠ '\x00') = cmd.toList := by
  rw [List.takeWhile_eq_self_iff]
  intro c hc
  rw [decide_eq_true_eq]
  rintro rfl
  exact hnul hc

theorem system_spawn_cmd_of_words {env : Env} (hne : argv ≠ []) (hnul : '\x00' ∉ cmd.toList)
    (h : wordexp env cmd.toList = some ⟨argv.map String.toList, []⟩) :
    system_spawn_cmd env cmd = some ⟨argv.map String.toList, []⟩ := by
  rw [system_spawn_cmd, cString_of_no_nul hnul, h, Option.bind_some, if_neg (by simpa using hne)]

theorem words_of_system_spawn_cmd {env : Env} {p : Expansion}
    (h : system_spawn_cmd env cmd = some p) :
    wordexp env (cmd.toList.takeWhile (· ≠ '\x00')) = some p := by
  obtain ⟨p', hp', hsome⟩ := Option.bind_eq_some_iff.mp h
  split at hsome
  · cases hsome
  · cases hsome
    exact hp'

/-- A command of words joined by blanks has these as its argument vector in every environment
exactly when each of them survives. -/
theorem system_spawn_cmd_iff (hne : argv ≠ [])
    (hcmd : cmd.toList = joinWords (argv.map String.toList))
    (htilde : ∀ w ∈ argv, w.toList.head? ≠ some '~') :
    (∀ env, system_spawn_cmd env cmd = some ⟨argv.map String.toList, []⟩) ↔
      ∀ w ∈ argv, Survives w := by
  have htilde' : ∀ w ∈ argv.map String.toList, w.head? ≠ some '~' := by simpa using htilde
  constructor
  · intro h
    have hcut := fun env => words_of_system_spawn_cmd (h env)
    have hnul : '\x00' ∉ cmd.toList := by
      intro hmem
      rw [hcmd] at hmem
      have hword := mem_flatten_of_joinWords hmem (by decide)
      have hkept := mem_text_of_words (hcut _) hword
      exact absurd (List.mem_takeWhile_imp hkept) (by decide)
    have hexpand : ∀ env, wordexp env (joinWords (argv.map String.toList)) =
        some ⟨argv.map String.toList, []⟩ := by
      intro env
      rw [← hcmd, ← cString_of_no_nul hnul]
      exact hcut env
    have hliteral := (wordexp_joinWords_iff htilde').mp hexpand
    intro w hw
    have hmem := List.mem_map_of_mem (f := String.toList) hw
    refine ⟨hliteral _ hmem, fun hw0 => hnul ?_⟩
    rw [hcmd]
    exact (infix_joinWords hmem).subset hw0
  · intro h env
    refine system_spawn_cmd_of_words hne ?_ ?_
    · intro hmem
      rw [hcmd] at hmem
      obtain ⟨w, hw, hchar⟩ := List.mem_flatten.mp (mem_flatten_of_joinWords hmem (by decide))
      obtain ⟨s, hs, rfl⟩ := List.mem_map.mp hw
      exact (h s hs).2 hchar
    · rw [hcmd]
      refine (wordexp_joinWords_iff htilde').mpr ?_ env
      intro w hw
      obtain ⟨s, hs, rfl⟩ := List.mem_map.mp hw
      exact (h s hs).1

end Argv

section Paths

variable {name dir suffix : String}

/-- A plain name keeps its meaning between a directory and a suffix. -/
theorem survives_path (hdir : allOrdinary dir = true) (hsuffix : allOrdinary suffix = true)
    (hne : dir.toList ≠ []) (hname : PlainName name)
    (hend : name.toList.getLast? = some '$' → ∀ d, suffix.toList.head? = some d →
      keepsDollar d = true)
    (hlone : Lone (dir ++ name ++ suffix).toList) : Survives (dir ++ name ++ suffix) := by
  rw [allOrdinary_iff] at hdir hsuffix
  have hcalmDir := calm_of_ordinary fun c hc => (hdir c hc).1
  have hcalmSuffix := calm_of_ordinary fun c hc => (hsuffix c hc).1
  have hchars : ∀ c ∈ (dir ++ name ++ suffix).toList, isBlank c = false ∧ c ≠ '\x00' := by
    intro c hc
    rw [String.toList_append, String.toList_append, List.mem_append, List.mem_append] at hc
    rcases hc with (hc | hc) | hc
    · exact ⟨(isOrdinary_iff.mp (hdir c hc).1).1, (hdir c hc).2⟩
    · exact hname.chars c hc
    · exact ⟨(isOrdinary_iff.mp (hsuffix c hc).1).1, (hsuffix c hc).2⟩
  refine ⟨⟨by simp [hne], fun c hc => (hchars c hc).1, ?_, hlone⟩, fun hnul => ?_⟩
  · rw [String.toList_append, String.toList_append, List.append_assoc]
    refine calm_append hcalmDir (calm_append hname.calm hcalmSuffix hend) fun hlast => ?_
    have hdollar := isOrdinary_iff.mp (hdir '$' (List.mem_of_getLast? hlast)).1
    exact absurd rfl hdollar.2.2.2.1
  · exact (hchars '\x00' hnul).2 rfl

theorem plainName_of_survives {path : String} (h : Survives path)
    (hname : name.toList <:+: path.toList) : PlainName name where
  calm := h.1.calm.of_infix hname
  chars c hc := by
    refine ⟨h.1.noBlank c (hname.subset hc), ?_⟩
    rintro rfl
    exact h.2 (hname.subset hc)

theorem infix_toList (s t u : String) : t.toList <:+: (s ++ t ++ u).toList := by
  rw [String.toList_append, String.toList_append]
  exact List.infix_append _ _ _

theorem PlainName.of_append (h : PlainName (name ++ suffix)) : PlainName name where
  calm := h.calm.of_infix (by simpa using (List.prefix_append _ _).isInfix)
  chars c hc := h.chars c (by simp [hc])

/-- No dollar sign ends a name that `_` follows. -/
theorem PlainName.getLast?_ne (h : PlainName (name ++ "_")) : name.toList.getLast? ≠ some '$' := by
  intro hlast
  obtain ⟨front, hfront⟩ := List.getLast?_eq_some_iff.mp hlast
  have hinfix : ['$', '_'] <:+: (name ++ "_").toList := ⟨front, [], by simp [hfront]⟩
  exact absurd (h.calm.dollars '_' hinfix) (by decide)

end Paths

section Survival

variable {user_name porblem_title : String} {test_vec : List (String × String)}

theorem allOrdinary_source : allOrdinary (OJ_Judge.waiting_judge ++ "/") = true := by
  rw [allOrdinary_append, OJ_Judge, allOrdinary_ofList, allOrdinary_ofList]
  decide +kernel

theorem allOrdinary_executable : allOrdinary (OJ_Judge.workpath ++ "/isolate_1/") = true := by
  rw [allOrdinary_append, OJ_Judge, allOrdinary_ofList, allOrdinary_ofList]
  decide +kernel

theorem allOrdinary_input : allOrdinary (OJ_Judge.inPath ++ "/") = true := by
  rw [allOrdinary_append, OJ_Judge, allOrdinary_ofList, allOrdinary_ofList]
  decide +kernel

theorem allOrdinary_output (i : Nat) :
    allOrdinary ("_output_" ++ toString i ++ ".txt") = true := by
  rw [allOrdinary_append, allOrdinary_append, allOrdinary_toString, allOrdinary_ofList,
    allOrdinary_ofList]
  decide

theorem PlainNames.survives_source (h : PlainNames user_name porblem_title test_vec) :
    Survives (uploadPath OJ_Judge user_name porblem_title) := by
  have hpath : uploadPath OJ_Judge user_name porblem_title =
      (OJ_Judge.waiting_judge ++ "/") ++ fileName user_name porblem_title ++ ".cpp" :=
    uploadPath_eq user_name porblem_title
  have hlone := h.source
  rw [hpath] at hlone ⊢
  exact survives_path allOrdinary_source (allOrdinary_ofList _) (by simp) h.name.of_append
    (fun hlast => absurd hlast h.name.getLast?_ne) hlone

theorem PlainNames.survives_executable (h : PlainNames user_name porblem_title test_vec) :
    Survives (runPath OJ_Judge (fileName user_name porblem_title)) :=
  survives_path allOrdinary_executable (allOrdinary_ofList _) (by simp) h.name.of_append
    (fun hlast => absurd hlast h.name.getLast?_ne) h.executable

theorem outputPath_eq (file_name : String) (i : Nat) :
    outputPath OJ_Judge.waiting_judge file_name i =
      (OJ_Judge.waiting_judge ++ "/") ++ file_name ++ ("_output_" ++ toString i ++ ".txt") := by
  simp [outputPath, String.append_assoc]

theorem PlainNames.survives_output (h : PlainNames user_name porblem_title test_vec) {i : Nat}
    (hi : i < test_vec.length) :
    Survives (outputPath OJ_Judge.waiting_judge (fileName user_name porblem_title) i) := by
  have hlone := h.outputPaths i hi
  rw [outputPath_eq] at hlone ⊢
  exact survives_path allOrdinary_source (allOrdinary_output i) (by simp) h.name.of_append
    (fun hlast => absurd hlast h.name.getLast?_ne) hlone

theorem PlainNames.survives_input (h : PlainNames user_name porblem_title test_vec)
    {test : String × String} (htest : test ∈ test_vec) :
    Survives (OJ_Judge.inPath ++ "/" ++ test.1) := by
  have hlone := h.inputPaths test htest
  have hpath : OJ_Judge.inPath ++ "/" ++ test.1 = (OJ_Judge.inPath ++ "/") ++ test.1 ++ "" := by
    simp
  rw [hpath] at hlone ⊢
  exact survives_path allOrdinary_input rfl (by simp) (h.inputs test htest)
    (fun _ d hd => by cases hd) hlone

theorem PlainNames.of_survives
    (hsource : Survives (uploadPath OJ_Judge user_name porblem_title))
    (hexecutable : Survives (runPath OJ_Judge (fileName user_name porblem_title)))
    (houtputs : ∀ i < test_vec.length,
      Survives (outputPath OJ_Judge.waiting_judge (fileName user_name porblem_title) i))
    (hinputs : ∀ test ∈ test_vec, Survives (OJ_Judge.inPath ++ "/" ++ test.1)) :
    PlainNames user_name porblem_title test_vec where
  name := by
    refine plainName_of_survives hexecutable ?_
    have hsuffix : "__run" = "_" ++ "_run" := by decide
    rw [runPath, hsuffix, ← String.append_assoc, @String.append_assoc _ _ "_"]
    exact infix_toList _ _ _
  inputs test htest := plainName_of_survives (hinputs test htest) (by
    rw [String.toList_append]
    exact (List.suffix_append _ _).isInfix)
  source := hsource.1.lone
  executable := hexecutable.1.lone
  outputPaths i hi := (houtputs i hi).1.lone
  inputPaths test htest := (hinputs test htest).1.lone

theorem toList_gpp (source out : String) : (Cmd.gpp source out).text.toList =
    joinWords (["/usr/bin/g++", source, "-o", out].map String.toList) := by
  have hgpp : "/usr/bin/g++ ".toList = "/usr/bin/g++".toList ++ [' '] := by decide
  have hout : " -o ".toList = ' ' :: ("-o".toList ++ [' ']) := by decide
  show ("/usr/bin/g++ " ++ source ++ " -o " ++ out).toList = _
  simp only [String.toList_append, hgpp, hout, List.map_cons, List.map_nil,
    joinWords_cons_cons, joinWords_singleton, List.append_assoc, List.cons_append, List.nil_append]

theorem toList_cp (source target : String) : (Cmd.cp source target).text.toList =
    joinWords (["/usr/bin/cp", source, target].map String.toList) := by
  have hcp : "/usr/bin/cp ".toList = "/usr/bin/cp".toList ++ [' '] := by decide
  have hblank : " ".toList = [' '] := by decide
  show ("/usr/bin/cp " ++ source ++ " " ++ target).toList = _
  simp only [String.toList_append, hcp, hblank, List.map_cons, List.map_nil,
    joinWords_cons_cons, joinWords_singleton, List.append_assoc, List.cons_append, List.nil_append]

theorem toList_rm (path : String) : (Cmd.rm path).text.toList =
    joinWords (["/usr/bin/rm", path].map String.toList) := by
  have hrm : "/usr/bin/rm ".toList = "/usr/bin/rm".toList ++ [' '] := by decide
  show ("/usr/bin/rm " ++ path).toList = _
  simp only [String.toList_append, hrm, List.map_cons, List.map_nil,
    joinWords_cons_cons, joinWords_singleton, List.append_assoc, List.cons_append, List.nil_append]

/-- The commands other than the run of the sandbox hold their words between single blanks. -/
theorem Intended.text_eq {cmd : Cmd} {argv : List String}
    (h : Intended user_name porblem_title test_vec cmd argv) (hrun : cmd ≠ .isolateRun) :
    cmd.text.toList = joinWords (argv.map String.toList) := by
  cases h with
  | run => exact absurd rfl hrun
  | compile =>
    rw [uploadPath_eq]
    exact toList_gpp _ _
  | removeSource =>
    rw [uploadPath_eq]
    exact toList_rm _
  | removeRun => exact toList_rm _
  | copyRunner | copyInput | copyOutput => exact toList_cp _ _
  | init | cleanup =>
    refine (@String.toList_ofList _).trans ?_
    simp only [List.map_cons, List.map_nil, joinWords_cons_cons, joinWords_singleton]
    iterate 3 rw [String.toList_ofList]
    rfl

theorem Intended.argv_ne_nil {cmd : Cmd} {argv : List String}
    (h : Intended user_name porblem_title test_vec cmd argv) : argv ≠ [] := by
  cases h <;> simp

theorem head?_append_ne (cs : List Char) (t : String) (hne : cs ≠ []) (h : cs.head? ≠ some '~') :
    (String.ofList cs ++ t).toList.head? ≠ some '~' := by
  obtain ⟨c, cs', rfl⟩ := List.exists_cons_of_ne_nil hne
  rw [String.toList_append, String.toList_ofList]
  exact h

theorem Intended.head?_ne {cmd : Cmd} {argv : List String}
    (h : Intended user_name porblem_title test_vec cmd argv) :
    ∀ w ∈ argv, w.toList.head? ≠ some '~' := by
  have hword : ∀ cs : List Char, cs.head? ≠ some '~' →
      (String.ofList cs).toList.head? ≠ some '~' := by
    intro cs hcs
    rwa [String.toList_ofList]
  have hbox : ∀ name, (boxPath name).toList.head? ≠ some '~' := by
    intro name
    exact head?_append_ne _ name (by decide) (by decide)
  have hsource : (uploadPath OJ_Judge user_name porblem_title).toList.head? ≠ some '~' := by
    unfold uploadPath OJ_Judge
    simp only [String.append_assoc]
    exact head?_append_ne _ _ (by decide) (by decide)
  have hexecutable : (runPath OJ_Judge (fileName user_name porblem_title)).toList.head? ≠
      some '~' := by
    unfold runPath OJ_Judge
    simp only [String.append_assoc]
    exact head?_append_ne _ _ (by decide) (by decide)
  cases h with
  | compile =>
    simp only [List.forall_mem_cons]
    exact ⟨hword _ (by decide), hsource, hword _ (by decide), hexecutable, by simp⟩
  | copyRunner =>
    simp only [List.forall_mem_cons]
    exact ⟨hword _ (by decide), hexecutable, hbox _, by simp⟩
  | copyInput =>
    simp only [List.forall_mem_cons]
    refine ⟨hword _ (by decide), ?_, hbox _, by simp⟩
    unfold OJ_Judge
    rw [String.append_assoc]
    exact head?_append_ne _ _ (by decide) (by decide)
  | copyOutput =>
    simp only [List.forall_mem_cons]
    refine ⟨hword _ (by decide), hbox _, ?_, by simp⟩
    unfold outputPath OJ_Judge
    simp only [String.append_assoc]
    exact head?_append_ne _ _ (by decide) (by decide)
  | removeSource =>
    simp only [List.forall_mem_cons]
    exact ⟨hword _ (by decide), hsource, by simp⟩
  | removeRun =>
    simp only [List.forall_mem_cons]
    exact ⟨hword _ (by decide), hexecutable, by simp⟩
  | init | cleanup =>
    simp only [List.forall_mem_cons]
    exact ⟨hword _ (by decide), hword _ (by decide), hword _ (by decide), by simp⟩
  | run =>
    simp only [List.forall_mem_cons]
    refine ⟨?_, ?_, ?_, ?_, ?_, ?_, ?_, ?_, ?_, ?_, by simp⟩
    all_goals exact hword _ (by decide)

/-- The words of the run of the sandbox. -/
def runWords : List String :=
  ["/usr/local/bin/isolate", "--box-id=1", "--processes=1", "--mem=65536", "--wall-time=2",
    "--stdin=input.txt", "--stdout=output.txt", "--stderr=error.txt", "--run", "/box/runner"]

theorem survives_run : ∀ w ∈ runWords, Survives w := by
  simp only [runWords, List.forall_mem_cons]
  refine ⟨?_, ?_, ?_, ?_, ?_, ?_, ?_, ?_, ?_, ?_, by simp⟩
  all_goals exact survives_literal _ (by decide) (by decide)

/-- The words of a command survive when the paths of the submission do. -/
theorem Intended.survives {cmd : Cmd} {argv : List String}
    (h : Intended user_name porblem_title test_vec cmd argv)
    (hplain : PlainNames user_name porblem_title test_vec) : ∀ w ∈ argv, Survives w := by
  have hword : ∀ cs : List Char,
      cs ≠ [] ∧ (cs.all fun c => isOrdinary c && c != '\x00') = true → Survives (String.ofList cs) :=
    fun cs hcs => survives_literal cs hcs.1 hcs.2
  cases h with
  | compile =>
    simp only [List.forall_mem_cons]
    exact ⟨hword _ (by decide), hplain.survives_source, hword _ (by decide),
      hplain.survives_executable, by simp⟩
  | copyRunner =>
    simp only [List.forall_mem_cons]
    exact ⟨hword _ (by decide), hplain.survives_executable, survives_boxPath (by decide), by simp⟩
  | copyInput htest =>
    simp only [List.forall_mem_cons]
    exact ⟨hword _ (by decide), hplain.survives_input htest, survives_boxPath (by decide), by simp⟩
  | copyOutput hi =>
    simp only [List.forall_mem_cons]
    exact ⟨hword _ (by decide), survives_boxPath (by decide), hplain.survives_output hi, by simp⟩
  | removeSource =>
    simp only [List.forall_mem_cons]
    exact ⟨hword _ (by decide), hplain.survives_source, by simp⟩
  | removeRun =>
    simp only [List.forall_mem_cons]
    exact ⟨hword _ (by decide), hplain.survives_executable, by simp⟩
  | init | cleanup =>
    simp only [List.forall_mem_cons]
    exact ⟨hword _ (by decide), hword _ (by decide), hword _ (by decide), by simp⟩
  | run => exact survives_run

theorem toList_run : ∃ cs, Cmd.isolateRun.text.toList = cs ∧
    (cs.all fun c => !isQuoting c && !isSyntax c && c != '$' && c != '\x00') = true ∧
    segments isBlank cs = runWords.map String.toList := by
  have happend : ∀ a b c : List Char,
      (String.ofList a ++ String.ofList b ++ String.ofList c).toList = a ++ b ++ c := by simp
  refine ⟨_, happend _ _ _, by decide +kernel, ?_⟩
  simp only [runWords, List.map_cons, List.map_nil]
  iterate 10 rw [String.toList_ofList]
  decide +kernel

/-- The run of the sandbox has several blanks between its words. -/
theorem system_spawn_cmd_run (env : Env) {argv : List String}
    (h : Intended user_name porblem_title test_vec .isolateRun argv) :
    system_spawn_cmd env Cmd.isolateRun.text = some ⟨argv.map String.toList, []⟩ := by
  have hhead := h.head?_ne
  cases h with
  | run =>
    obtain ⟨cs, hcs, hchars, hwords⟩ := toList_run
    refine system_spawn_cmd_of_words (by simp) ?_ ?_
    · intro hnul
      rw [hcs] at hnul
      exact absurd (List.all_eq_true.mp hchars _ hnul) (by decide)
    · rw [hcs]
      refine wordexp_literal env (calm_of_plain fun c hc => ?_) hwords ?_ ?_
      · have hplain := List.all_eq_true.mp hchars c hc
        simp only [Bool.and_eq_true, Bool.not_eq_true', bne_iff_ne, and_assoc] at hplain
        exact ⟨hplain.1, hplain.2.1, hplain.2.2.1⟩
      · intro w hw
        obtain ⟨s, hs, rfl⟩ := List.mem_map.mp hw
        exact hhead s hs
      · intro w hw
        obtain ⟨s, hs, rfl⟩ := List.mem_map.mp hw
        exact (survives_run s hs).1.lone

/-- Ordinary names are plain. -/
theorem PlainNames.of_ordinary (hname : allOrdinary (fileName user_name porblem_title) = true)
    (hinputs : ∀ test ∈ test_vec, allOrdinary test.1 = true) :
    PlainNames user_name porblem_title test_vec := by
  have hsurvives : ∀ s t u : String, allOrdinary s = true → allOrdinary t = true →
      allOrdinary u = true → s.toList ≠ [] → Survives (s ++ t ++ u) := by
    intro s t u hs ht hu hne
    refine survives_of_ordinary (by simp [hne]) ?_
    rw [allOrdinary_append, allOrdinary_append, hs, ht, hu]
    rfl
  refine .of_survives ?_ ?_ ?_ ?_
  · rw [uploadPath_eq]
    exact hsurvives _ _ _ allOrdinary_source hname (allOrdinary_ofList _) (by simp)
  · exact hsurvives _ _ _ allOrdinary_executable hname (allOrdinary_ofList _) (by simp)
  · intro i _
    rw [outputPath_eq]
    exact hsurvives _ _ _ allOrdinary_source hname (allOrdinary_output i) (by simp)
  · intro test htest
    have hinput := hsurvives (OJ_Judge.inPath ++ "/") test.1 "" allOrdinary_input
      (hinputs test htest) rfl (by simp)
    rwa [String.append_empty] at hinput

example : PlainNames "alice" "two_sum" [("two_sum_1.in", "two_sum_1.out")] :=
  .of_ordinary (by decide) (by decide)

end Survival

end Spawn

end OJJudge
