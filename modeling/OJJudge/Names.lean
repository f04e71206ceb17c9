import Mathlib

/-! The names that the judge builds by concatenation: the Redis keys and the file paths of a
submission.  Names of one kind for different submissions or tests differ, and so do names of
different kinds. -/

namespace OJJudge

/-- The `isolate` section of the configuration. -/
structure IsolateConf where
  workpath : String
  ansPath : String
  inPath : String
  waiting_judge : String

/-- The `isolate` section of `conf/OJ_Judge.json`. -/
def OJ_Judge : IsolateConf where
  workpath := "/home/shared/OJ_sys/OJ_Judge/isolate"
  ansPath := "/home/shared/OJ_sys/OJ_Judge/isolate/problem_ans"
  inPath := "/home/shared/OJ_sys/OJ_Judge/isolate/problems_in"
  waiting_judge := "/home/shared/OJ_sys/OJ_Judge/isolate/waiting_Judge"

/-- The `file_name` of the submissions of a user to a problem. -/
def fileName (user_name porblem_title : String) : String := user_name ++ "__" ++ porblem_title

/-- The key that `runCpp` sets and nothing reads. -/
def judgeKey (file_name : String) : String := "Judge:" ++ file_name

/-- The key that counts the tests passed, or holds an error code. -/
def sumKey (file_name : String) : String := "Judge:" ++ file_name ++ "__sum"

/-- The key of test `i`. -/
def testKey (file_name : String) (i : Nat) : String :=
  "Judge:" ++ file_name ++ "_" ++ toString i

/-- The source file of a job. -/
def cppPath (path file_name : String) : String := path ++ "/" ++ file_name ++ ".cpp"

/-- The source file that `runCpp` opens. -/
def uploadPath (conf : IsolateConf) (user_name porblem_title : String) : String :=
  conf.workpath ++ "/waiting_Judge/" ++ user_name ++ "__" ++ porblem_title ++ ".cpp"

/-- The executable of a job. -/
def runPath (conf : IsolateConf) (file_name : String) : String :=
  conf.workpath ++ "/isolate_1/" ++ file_name ++ "__run"

/-- The copy of the output of test `i`. -/
def outputPath (path file_name : String) (i : Nat) : String :=
  path ++ "/" ++ file_name ++ "_output_" ++ toString i ++ ".txt"

/-- `runCpp` and `cpp_runner` build the same path under the deployed configuration. -/
theorem uploadPath_eq (user_name porblem_title : String) :
    uploadPath OJ_Judge user_name porblem_title =
      cppPath OJ_Judge.waiting_judge (fileName user_name porblem_title) := by
  simp [uploadPath, cppPath, fileName, OJ_Judge, String.append_assoc]

/-- Names with different beginnings differ. -/
theorem append_ne_append {p q : String} (k : Nat) (hp : k ≤ p.toList.length)
    (hq : k ≤ q.toList.length) (h : p.toList.take k ≠ q.toList.take k) (s t : String) :
    p ++ s ≠ q ++ t := by
  intro heq
  refine h ?_
  have hlist := congrArg (fun s => s.toList.take k) heq
  simpa [List.take_append_of_le_length, hp, hq] using hlist

/-- Names with different last characters differ. -/
theorem ne_of_getLast {p q : String} (hp : p.toList ≠ []) (hq : q.toList ≠ [])
    (h : p.toList.getLast? ≠ q.toList.getLast?) (s t : String) : s ++ p ≠ t ++ q := by
  intro heq
  refine h ?_
  have hlist := congrArg (fun s => s.toList.getLast?) heq
  simpa [List.getLast?_append, List.getLast?_eq_some_getLast hp,
    List.getLast?_eq_some_getLast hq] using hlist

theorem cppPath_ne_runPath (f g : String) :
    cppPath OJ_Judge.waiting_judge f ≠ runPath OJ_Judge g :=
  ne_of_getLast (by decide) (by decide) (by decide) _ _

theorem outputPath_ne_cppPath (f g : String) (i : Nat) :
    outputPath OJ_Judge.waiting_judge f i ≠ cppPath OJ_Judge.waiting_judge g :=
  ne_of_getLast (by decide) (by decide) (by decide) _ _

theorem outputPath_ne_runPath (f g : String) (i : Nat) :
    outputPath OJ_Judge.waiting_judge f i ≠ runPath OJ_Judge g :=
  ne_of_getLast (by decide) (by decide) (by decide) _ _

/-! ### Decimal suffixes -/

/-- Text after the last occurrence of a character is determined by the whole. -/
theorem append_cons_inj {a b ds es : List Char} {c : Char} (hd : c ∉ ds) (he : c ∉ es)
    (h : a ++ c :: ds = b ++ c :: es) : a = b ∧ ds = es := by
  rcases List.append_eq_append_iff.mp h with ⟨a', ha, hc⟩ | ⟨a', ha, hc⟩
  all_goals
    cases a' with
    | nil => simp_all
    | cons x xs =>
      simp only [List.cons_append, List.cons.injEq] at hc
      simp_all

/-- A name that ends with a number ends with a digit. -/
theorem getLast?_toString (s : String) (n : Nat) :
    ∃ c, (s ++ toString n).toList.getLast? = some c ∧ c.isDigit := by
  obtain ⟨c, hc⟩ : ∃ c, (Nat.toDigits 10 n).getLast? = some c := by
    rw [← Option.isSome_iff_exists]
    simp [Nat.toDigits_ne_nil]
  exact ⟨c, by simp [List.getLast?_append, hc],
    Nat.isDigit_of_mem_toDigits (by decide) (by decide) (List.mem_of_getLast? hc)⟩

/-! ### Keys -/

@[simp] theorem testKey_inj {f g : String} {i j : Nat} :
    testKey f i = testKey g j ↔ f = g ∧ i = j := by
  constructor
  · intro h
    have hlist : f.toList ++ '_' :: Nat.toDigits 10 i = g.toList ++ '_' :: Nat.toDigits 10 j := by
      simpa [testKey] using congrArg String.toList h
    obtain ⟨hf, hi⟩ := append_cons_inj Nat.underscore_not_in_toDigits
      Nat.underscore_not_in_toDigits hlist
    have hval := congrArg (Nat.ofDigitChars 10 · 0) hi
    simp only [Nat.ofDigitChars_ten_toDigits] at hval
    exact ⟨String.toList_inj.mp hf, hval⟩
  · rintro ⟨rfl, rfl⟩
    rfl

@[simp] theorem sumKey_inj {f g : String} : sumKey f = sumKey g ↔ f = g := by
  simp [sumKey]

@[simp] theorem testKey_ne_sumKey (f g : String) (i : Nat) : testKey f i ≠ sumKey g := by
  intro h
  obtain ⟨c, hc, hdigit⟩ := getLast?_toString ("Judge:" ++ f ++ "_") i
  have hm : (sumKey g).toList.getLast? = some 'm' := by
    rw [sumKey, String.toList_append, List.getLast?_append]
    simp
  rw [← h, testKey, hc, Option.some_inj] at hm
  subst hm
  exact absurd hdigit (by decide)

@[simp] theorem sumKey_ne_testKey (f g : String) (i : Nat) : sumKey f ≠ testKey g i :=
  (testKey_ne_sumKey g f i).symm

@[simp] theorem judgeKey_ne_sumKey (f : String) : judgeKey f ≠ sumKey f := by
  simp [judgeKey, sumKey, ← String.toList_inj]

@[simp] theorem judgeKey_ne_testKey (f : String) (i : Nat) : judgeKey f ≠ testKey f i := by
  simp [judgeKey, testKey, ← String.toList_inj, List.append_assoc]

end OJJudge
