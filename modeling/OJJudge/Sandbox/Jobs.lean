import OJJudge.NameSpaces
import OJJudge.Sandbox.Machine

/-! What a job uses.  All jobs use one sandbox box, but each job fills the box anew under the mutex
before it runs its executable there.  The other files and keys that a job writes have its file name in
theirs, and no job writes the files of the tests. -/

namespace OJJudge.Sandbox

open Concurrency

/-! ### Locations -/

/-- The input files and the answer files, which no job writes. -/
def isTestFile (path : String) : Prop :=
  (∃ name, path = OJ_Judge.inPath ++ "/" ++ name) ∨ ∃ name, path = OJ_Judge.ansPath ++ "/" ++ name

def testLocs : Set Loc := {l | ∃ path, l = .file path ∧ isTestFile path}

/-- What a job writes outside the box. -/
def jobLocs (f : String) : Set Loc := {l |
  match l with
  | .key key => key = sumKey f ∨ ∃ i, key = testKey f i
  | .file path => path ∈ filesOf f}

theorem inBox_iff {path : String} : inBox path = true ↔ ∃ name, path = boxPath name := by
  have hbox : ∀ name, boxPath name = boxPath "" ++ name := by
    intro name
    unfold boxPath
    rw [String.append_empty]
  unfold inBox
  rw [List.isPrefixOf_iff_prefix]
  constructor
  · rintro ⟨rest, h⟩
    refine ⟨String.ofList rest, String.toList_inj.mp ?_⟩
    rw [hbox, String.toList_append, String.toList_ofList, h]
  · rintro ⟨name, rfl⟩
    rw [hbox name, String.toList_append]
    exact List.prefix_append _ _

theorem not_inBox_of_mem {f path : String} (h : path ∈ filesOf f) : ¬inBox path = true := by
  rw [inBox_iff]
  rintro ⟨name, rfl⟩
  simp only [filesOf, Set.mem_union, Set.mem_insert_iff, Set.mem_singleton_iff,
    Set.mem_range] at h
  obtain (h | h) | ⟨i, h⟩ := h
  · exact boxPath_ne_cppPath name f h
  · exact boxPath_ne_runPath name f h
  · exact boxPath_ne_outputPath name f i h.symm

theorem isTestFile.not_inBox {path : String} (h : isTestFile path) : ¬inBox path = true := by
  rw [inBox_iff]
  rintro ⟨name, rfl⟩
  obtain ⟨name', h⟩ | ⟨name', h⟩ := h
  · rw [String.append_assoc] at h
    exact append_ne_append 2 (by decide) (by decide) (by decide) _ _ h
  · rw [String.append_assoc] at h
    exact append_ne_append 2 (by decide) (by decide) (by decide) _ _ h

/-- The directories of a job's files begin with other letters than those of the test files. -/
theorem append_ne_of_mem {p : String} (name : String) {f path : String} (h : path ∈ filesOf f)
    (hlen : 38 ≤ p.toList.length)
    (hwaiting : p.toList.take 38 ≠ (OJ_Judge.waiting_judge ++ "/").toList.take 38)
    (hisolate : p.toList.take 38 ≠ (OJ_Judge.workpath ++ "/isolate_1/").toList.take 38) :
    p ++ name ≠ path := by
  simp only [filesOf, Set.mem_union, Set.mem_insert_iff, Set.mem_singleton_iff,
    Set.mem_range] at h
  obtain (rfl | rfl) | ⟨i, rfl⟩ := h
  · rw [cppPath, @String.append_assoc (OJ_Judge.waiting_judge ++ "/")]
    exact append_ne_append 38 hlen (by decide) hwaiting _ _
  · rw [runPath, @String.append_assoc (OJ_Judge.workpath ++ "/isolate_1/")]
    exact append_ne_append 38 hlen (by decide) hisolate _ _
  · rw [outputPath, String.append_assoc, String.append_assoc,
      @String.append_assoc (OJ_Judge.waiting_judge ++ "/")]
    exact append_ne_append 38 hlen (by decide) hwaiting _ _

theorem isTestFile.not_mem {f path : String} (h : isTestFile path) : path ∉ filesOf f := by
  intro hmem
  obtain ⟨name, h⟩ | ⟨name, h⟩ := h
  · exact append_ne_of_mem name hmem (by decide) (by decide) (by decide) h.symm
  · exact append_ne_of_mem name hmem (by decide) (by decide) (by decide) h.symm

theorem disjoint_jobLocs {f g : String} (h : f ≠ g) : Disjoint (jobLocs f) (jobLocs g) := by
  rw [Set.disjoint_left]
  rintro (key | path) hf hg
  · obtain rfl | ⟨i, rfl⟩ := hf
    · obtain hg | ⟨j, hg⟩ := hg
      · exact h (sumKey_inj.mp hg)
      · exact sumKey_ne_testKey f g j hg
    · obtain hg | ⟨j, hg⟩ := hg
      · exact testKey_ne_sumKey f g i hg
      · exact h (testKey_inj.mp hg).1
  · exact Set.disjoint_left.mp (disjoint_filesOf.mpr h) hf hg

theorem disjoint_jobLocs_testLocs (f : String) : Disjoint (jobLocs f) testLocs := by
  rw [Set.disjoint_right]
  rintro _ ⟨path, rfl, htest⟩
  exact htest.not_mem

theorem disjoint_jobLocs_box (f : String) : Disjoint (jobLocs f) box := by
  rw [Set.disjoint_right]
  rintro _ ⟨path, rfl, hbox⟩ hpath
  exact not_inBox_of_mem hpath hbox

theorem disjoint_testLocs_box : Disjoint testLocs box := by
  rw [Set.disjoint_left]
  rintro _ ⟨path, rfl, htest⟩ ⟨path', heq, hbox⟩
  cases heq
  exact htest.not_inBox hbox

@[simp] theorem mem_box (name : String) : .file (boxPath name) ∈ box :=
  ⟨_, rfl, inBox_iff.mpr ⟨name, rfl⟩⟩

@[simp] theorem mem_testLocs_in (name : String) :
    .file (OJ_Judge.inPath ++ "/" ++ name) ∈ testLocs :=
  ⟨_, rfl, .inl ⟨name, rfl⟩⟩

@[simp] theorem mem_testLocs_ans (name : String) :
    .file (OJ_Judge.ansPath ++ "/" ++ name) ∈ testLocs :=
  ⟨_, rfl, .inr ⟨name, rfl⟩⟩

@[simp] theorem mem_jobLocs_sumKey (f : String) : .key (sumKey f) ∈ jobLocs f := .inl rfl

@[simp] theorem mem_jobLocs_testKey (f : String) (i : Nat) : .key (testKey f i) ∈ jobLocs f :=
  .inr ⟨i, rfl⟩

@[simp] theorem mem_jobLocs_cppPath (f : String) :
    .file (cppPath OJ_Judge.waiting_judge f) ∈ jobLocs f :=
  .inl (.inl rfl)

@[simp] theorem mem_jobLocs_runPath (f : String) : .file (runPath OJ_Judge f) ∈ jobLocs f :=
  .inl (.inr rfl)

@[simp] theorem mem_jobLocs_outputPath (f : String) (i : Nat) :
    .file (outputPath OJ_Judge.waiting_judge f i) ∈ jobLocs f :=
  .inr ⟨i, rfl⟩

/-! ### What a job uses -/

section Keeps

variable {J : Type} {α : Type} (tools : Toolchain) (task : Runner_task)

/-- The program uses the locations of a job, the test files and, under the mutex, the box. -/
abbrev KeepsTo (f : String) (known : Option (Set Loc)) (p : Code α) : Prop :=
  (footprint J tools).Keeps (jobLocs f) testLocs box known p

/-- A plain operation outside the mutex. -/
theorem keepsTo_plain {f : String} {o : Op} {k : o.Res → Code α} (hk : kind o = .plain)
    (hreads : reads o ⊆ jobLocs f ∪ testLocs) (hwrites : writes o ⊆ jobLocs f)
    (hnext : ∀ r, KeepsTo (J := J) tools f none (k r)) :
    KeepsTo (J := J) tools f none (.op (S := effects) o k) :=
  .inr ⟨hk, hreads, hwrites, hnext⟩

/-- A command under the mutex, once the box is filled anew. -/
theorem keepsTo_in_box {f : String} {known : Set Loc} {cmd : Cmd} {k : Int32 → Code α}
    (hknown : box ⊆ known) (hreads : cmdReads cmd ⊆ jobLocs f ∪ testLocs ∪ box)
    (hwrites : cmdWrites cmd ⊆ jobLocs f ∪ box)
    (hnext : ∀ r known', box ⊆ known' → KeepsTo (J := J) tools f (some known') (k r)) :
    KeepsTo (J := J) tools f (some known) (.op (.spawn cmd) k) :=
  .inr ⟨rfl, hreads.trans (Set.union_subset_union_right _ hknown), hwrites,
    fun r => hnext r _ (hknown.trans Set.subset_union_left)⟩

theorem reportError_keepsTo (f code : String) :
    KeepsTo (J := J) tools f none (reportError f code) := by
  simp only [reportError, redis_set_field, redis_expire, effect_eq, Prog.op_bind, Prog.ret_bind]
  refine keepsTo_plain tools rfl (Set.empty_subset _) (by simp [writes]) fun _ => ?_
  exact keepsTo_plain tools rfl (by simp [reads]) (by simp [writes]) fun _ => rfl

variable {task} (hpath : task.path = OJ_Judge.waiting_judge)

include hpath

theorem runTest_keepsTo (i : Nat) (input : String) (status : Int32) :
    KeepsTo (J := J) tools task.file_name none (runTest OJ_Judge task i input status) := by
  simp only [runTest, system_spawn_cmd, effect_eq, Prog.op_bind, Prog.ret_bind]
  refine .inl ⟨rfl, fun _ => .inr ⟨rfl, Set.empty_subset _, Set.subset_union_right, fun _ => ?_⟩⟩
  refine keepsTo_in_box tools Set.subset_union_right ?_ ?_ fun _ known hknown => ?_
  · simp [cmdReads]
  · simp [cmdWrites]
  refine keepsTo_in_box tools hknown ?_ ?_ fun _ known hknown => ?_
  · simp [cmdReads]
  · simp [cmdWrites]
  refine keepsTo_in_box tools hknown ?_ ?_ fun _ known hknown => ?_
  · simp [cmdReads, Set.insert_subset_iff]
  · simp [cmdWrites, Set.insert_subset_iff]
  refine keepsTo_in_box tools hknown ?_ ?_ fun _ known hknown => ?_
  · simp [cmdReads]
  · simp [cmdWrites, hpath]
  refine keepsTo_in_box tools hknown ?_ ?_ fun _ known hknown => ?_
  · simp [cmdReads]
  · exact Set.subset_union_right
  exact .inl ⟨rfl, fun _ => rfl⟩

theorem runTests_keepsTo (tests : List (String × String)) (i : Nat) (status : Int32) :
    KeepsTo (J := J) tools task.file_name none (runTests OJ_Judge task i tests status) := by
  induction tests generalizing i status with
  | nil => rfl
  | cons test rest ih =>
    exact Footprint.Keeps.bind (fun status => ih (i + 1) status)
      (runTest_keepsTo tools hpath i test.1 status)

theorem compareTest_keepsTo (i : Nat) (answer : String) :
    KeepsTo (J := J) tools task.file_name none (compareTest OJ_Judge task i answer) := by
  have hexpire : KeepsTo (J := J) tools task.file_name none
      (.op (S := effects) (.expire (testKey task.file_name i) 40) fun _ => .ret ()) :=
    keepsTo_plain tools rfl (by simp [reads]) (by simp [writes]) fun _ => rfl
  simp only [compareTest, file_cmp, redis_set_field, redis_incr, redis_expire, effect_eq,
    Prog.op_bind, Prog.ret_bind]
  refine keepsTo_plain tools rfl (by simp [reads, hpath, Set.insert_subset_iff]) (by simp [writes])
    fun cmp_code => ?_
  split
  · refine keepsTo_plain tools rfl (by simp [reads]) (by simp [writes]) fun _ => ?_
    exact keepsTo_plain tools rfl (by simp [reads]) (by simp [writes]) fun _ => hexpire
  · exact keepsTo_plain tools rfl (by simp [reads]) (by simp [writes]) fun _ => hexpire

theorem compareTests_keepsTo (tests : List (String × String)) (i : Nat) :
    KeepsTo (J := J) tools task.file_name none (compareTests OJ_Judge task i tests) := by
  induction tests generalizing i with
  | nil => rfl
  | cons test rest ih =>
    exact Footprint.Keeps.bind (fun _ => ih (i + 1)) (compareTest_keepsTo tools hpath i test.2)

theorem removeFiles_keepsTo :
    KeepsTo (J := J) tools task.file_name none (removeFiles OJ_Judge task) := by
  simp only [removeFiles, system_spawn_cmd, effect_eq, Prog.op_bind, Prog.ret_bind]
  refine keepsTo_plain tools rfl (Set.empty_subset _) (by simp [writes, cmdWrites, hpath]) fun _ => ?_
  exact keepsTo_plain tools rfl (Set.empty_subset _) (by simp [writes, cmdWrites]) fun _ => rfl

theorem cpp_runner_keepsTo :
    KeepsTo (J := J) tools task.file_name none (cpp_runner OJ_Judge task) := by
  simp only [cpp_runner, system_spawn_cmd, effect_eq, Prog.op_bind, Prog.ret_bind]
  refine keepsTo_plain tools rfl (by simp [reads, cmdReads, hpath]) (by simp [writes, cmdWrites])
    fun status => ?_
  split
  · refine Footprint.Keeps.bind (fun status => ?_) (runTests_keepsTo tools hpath _ 0 0)
    split
    · exact Footprint.Keeps.bind (fun _ => removeFiles_keepsTo tools hpath)
        (compareTests_keepsTo tools hpath _ 0)
    · exact Footprint.Keeps.bind (fun _ => removeFiles_keepsTo tools hpath)
        (reportError_keepsTo tools _ _)
  · exact Footprint.Keeps.bind (fun _ => reportError_keepsTo tools _ _)
      (removeFiles_keepsTo tools hpath)

end Keeps

end OJJudge.Sandbox
