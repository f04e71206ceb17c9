import OJJudge.Storage.Counting

/-! The files that staff upload.  A file is opened without being cut, so the bytes of an earlier and
longer upload stay behind those of the last one. -/

namespace OJJudge.Storage

/-! ### Files that are written again and again -/

theorem length_overwrite (old : Option Bytes) (body : Bytes) :
    (overwrite old body).length = max (old.getD []).length body.length := by
  rw [overwrite, List.length_append, List.length_drop]
  omega

theorem overwrite_eq_iff (old : Option Bytes) (body : Bytes) :
    overwrite old body = body ↔ (old.getD []).length ≤ body.length := by
  rw [overwrite, List.append_right_eq_self, List.drop_eq_nil_iff]

/-- A file after a list of writes, oldest first. -/
def writes (old : Option Bytes) (bodies : List Bytes) : Option Bytes :=
  bodies.foldl (fun old body => some (overwrite old body)) old

theorem writes_append (old : Option Bytes) (bodies : List Bytes) (body : Bytes) :
    writes old (bodies ++ [body]) = some (overwrite (writes old bodies) body) := by
  simp [writes]

/-- A file is as long as the longest write. -/
theorem length_writes_le_iff (bodies : List Bytes) (n : Nat) :
    ((writes none bodies).getD []).length ≤ n ↔ ∀ body ∈ bodies, body.length ≤ n := by
  induction bodies using List.reverseRecOn with
  | nil => simp [writes]
  | append_singleton bodies last ih =>
    rw [writes_append, Option.getD_some, length_overwrite, max_le_iff, ih]
    simp [or_imp, forall_and]

/-- No body is longer than the last one. -/
def LastIsLongest (bodies : List Bytes) : Prop :=
  ∀ body ∈ bodies, ∀ last ∈ bodies.getLast?, body.length ≤ last.length

instance (bodies : List Bytes) : Decidable (LastIsLongest bodies) :=
  inferInstanceAs (Decidable (∀ body ∈ bodies, ∀ last ∈ bodies.getLast?, _))

theorem writes_eq_last_iff (bodies : List Bytes) :
    writes none bodies = bodies.getLast? ↔ LastIsLongest bodies := by
  obtain rfl | ⟨bodies, last, rfl⟩ := List.eq_nil_or_concat bodies
  · simp [writes, LastIsLongest]
  · rw [List.concat_eq_append, writes_append, List.getLast?_concat, Option.some.injEq, overwrite_eq_iff,
      length_writes_le_iff]
    simp [LastIsLongest, or_imp, forall_and]

/-! ### Histories of uploads -/

/-- The memories that complete uploads reach, each with the accepted files so far. -/
inductive Uploaded (lib : Library) (m₀ : Memory) : Memory → List (String × Bytes) → Prop
  | start : Uploaded lib m₀ m₀ []
  | serve {m m' : Memory} {stored : List (String × Bytes)} (upload : Upload)
      (h : Uploaded lib m₀ m stored) (hruns : upload.prog.runs (alone lib) m = some ((), m')) :
      Uploaded lib m₀ m' (stored ++ (upload.stores m.tables).toList)
  | lapse {m : Memory} {stored : List (String × Bytes)} (problem_id case_id : String)
      (h : Uploaded lib m₀ m stored) :
      Uploaded lib m₀ (m.setRedis (inCaseName problem_id case_id) none) stored

/-- The bodies that were accepted for a file, oldest first. -/
def bodiesFor (path : String) (stored : List (String × Bytes)) : List Bytes :=
  (stored.filter (·.1 = path)).map (·.2)

def inputPath (problem_id case_id : String) : String :=
  OJ_Judge.inPath ++ "/" ++ inCaseName problem_id case_id

def answerPath (problem_id case_id : String) : String :=
  OJ_Judge.ansPath ++ "/" ++ outputCaseName problem_id case_id

section Histories

variable {lib : Library} {m₀ m : Memory} {stored : List (String × Bytes)}

theorem putFile_apply (files : String → Option Bytes) (file : Option (String × Bytes))
    (path : String) : putFile files file path = writes (files path) (bodiesFor path file.toList) := by
  cases file with
  | none => rfl
  | some file =>
    unfold putFile
    by_cases hpath : path = file.1
    · subst hpath
      simp [bodiesFor, writes]
    · simp [bodiesFor, writes, hpath, Ne.symm hpath]

/-- Each file holds what its accepted uploads wrote. -/
theorem Uploaded.files (h : Uploaded lib m₀ m stored) (path : String) :
    m.files path = writes (m₀.files path) (bodiesFor path stored) := by
  induction h with
  | start => rfl
  | @serve m m' stored upload h hruns ih =>
    obtain ⟨m₁, hruns₁, -, hfiles⟩ := upload.runs_next lib m
    cases hruns.symm.trans hruns₁
    rw [hfiles, putFile_apply, ih]
    simp only [writes, bodiesFor, List.filter_append, List.map_append, List.foldl_append]
  | lapse problem_id case_id h ih => exact ih

/-- The files of a test hold their last uploads when these are not shorter than earlier ones, and
only then. -/
theorem last_upload_stored_iff (h : Uploaded lib m₀ m stored) (hfiles : ∀ path, m₀.files path = none)
    (problem_id case_id : String) :
    (m.files (inputPath problem_id case_id) =
        (bodiesFor (inputPath problem_id case_id) stored).getLast? ↔
      LastIsLongest (bodiesFor (inputPath problem_id case_id) stored)) ∧
    (m.files (answerPath problem_id case_id) =
        (bodiesFor (answerPath problem_id case_id) stored).getLast? ↔
      LastIsLongest (bodiesFor (answerPath problem_id case_id) stored)) := by
  rw [h.files, h.files, hfiles, hfiles]
  exact ⟨writes_eq_last_iff _, writes_eq_last_iff _⟩

/-- Serves the listed uploads in order, with the accepted files. -/
def uploadAll (lib : Library) : List Upload → Memory → Option (Memory × List (String × Bytes))
  | [], m => some (m, [])
  | upload :: rest, m =>
    (upload.prog.runs (alone lib) m).bind fun e =>
      (uploadAll lib rest e.2).map fun result =>
        (result.1, (upload.stores m.tables).toList ++ result.2)

theorem Uploaded.of_uploadAll {uploads : List Upload} {m' : Memory} {more : List (String × Bytes)}
    (h : Uploaded lib m₀ m stored) (huploads : uploadAll lib uploads m = some (m', more)) :
    Uploaded lib m₀ m' (stored ++ more) := by
  induction uploads generalizing m stored more with
  | nil =>
    cases huploads
    rwa [List.append_nil]
  | cons upload rest ih =>
    obtain ⟨⟨⟨⟩, m₁⟩, hruns, hrest⟩ := Option.bind_eq_some_iff.mp huploads
    obtain ⟨⟨m₂, files⟩, hall, heq⟩ := Option.map_eq_some_iff.mp hrest
    cases heq
    rw [← List.append_assoc]
    exact ih (.serve upload h hruns) hall

end Histories

/-- The input file of a test, and then a shorter one. -/
def twoInputs : List Upload := [.testIn "T" "p1" "1" [65, 66, 67], .testIn "T" "p1" "1" [68]]

theorem last_upload_stored_longer : ∃ m stored,
    Uploaded .sample (.account "T" "teacher") m stored ∧
      m.files (inputPath "p1" "1") = (bodiesFor (inputPath "p1" "1") stored).getLast? ∧
      (bodiesFor (inputPath "p1" "1") stored).getLast? = some [65, 66, 67] := by
  have hsome : ((uploadAll .sample twoInputs.reverse (.account "T" "teacher")).map fun result =>
      bodiesFor (inputPath "p1" "1") result.2) = some [[68], [65, 66, 67]] := by decide +kernel
  obtain ⟨⟨m, stored⟩, huploads, hbodies⟩ := Option.map_eq_some_iff.mp hsome
  have h : Uploaded .sample (.account "T" "teacher") m stored := by
    simpa using Uploaded.start.of_uploadAll huploads
  have hiff := (last_upload_stored_iff h (fun _ => rfl) "p1" "1").1
  have hlast : LastIsLongest (bodiesFor (inputPath "p1" "1") stored) := by
    rw [hbodies]
    decide
  exact ⟨m, stored, h, hiff.mpr hlast, by rw [hbodies]; rfl⟩

/-- The end of the first input stays behind the second one. -/
theorem longer_upload_stays : ∃ m stored, Uploaded .sample (.account "T" "teacher") m stored ∧
    (bodiesFor (inputPath "p1" "1") stored).getLast? = some [68] ∧
    m.files (inputPath "p1" "1") = some [68, 66, 67] := by
  have hsome : ((uploadAll .sample twoInputs (.account "T" "teacher")).map fun result =>
      ((bodiesFor (inputPath "p1" "1") result.2).getLast?, result.1.files (inputPath "p1" "1"))) =
        some (some [68], some [68, 66, 67]) := by decide +kernel
  obtain ⟨⟨m, stored⟩, huploads, hvalue⟩ := Option.map_eq_some_iff.mp hsome
  have h : Uploaded .sample (.account "T" "teacher") m stored := by
    simpa using Uploaded.start.of_uploadAll huploads
  exact ⟨m, stored, h, congrArg Prod.fst hvalue, congrArg Prod.snd hvalue⟩

end OJJudge.Storage
