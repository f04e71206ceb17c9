import OJJudge.Pages.Client

/-! The dialog of `staff-dashboard.html` that uploads a problem: first the input file and the answer
file of each test in turn, and then the problem with the number of its tests. -/

namespace OJJudge.Pages

open Concurrency Storage

/-! ### The dialog -/

/-- The length of a JavaScript string, from its UTF-8 bytes. -/
def jsLength (s : Bytes) : Nat :=
  (s.map fun b => if 128 ≤ b && b < 192 then 0 else if 240 ≤ b then 2 else 1).sum

/-- A chosen file, with the text that `readAsText` gives. -/
structure ChosenFile where
  size : Nat
  text : Bytes

/-- What has been entered and chosen in the dialog; texts are their UTF-8 bytes. -/
structure QuestionsForm where
  /-- The texts of the chosen files. -/
  inputFiles : List Bytes
  outputFiles : List Bytes
  /-- The trimmed value. -/
  problem_id : Bytes
  problem_kind : Bytes
  problem_diffculty : Bytes
  /-- What `parseInt` gives for the value; `none` is `NaN`. -/
  time_limit : Option Int
  mem_limit : Option Int
  authre_id : Bytes
  is_public : Bytes
  questionsFile : Option ChosenFile

/-- The text of a number, as JavaScript writes it when its size is below 10^21. -/
def numberText : Option Int → Bytes
  | none => bytes "NaN"
  | some x => bytes (toString x)

/-- A comparison with `NaN` is false. -/
def exceeds (x : Option Int) (bound : Int) : Bool := x.any (bound < ·)

/-- The URL for a file of test `i`. -/
def caseUrl (path : String) (problemId : Bytes) (i : Nat) : Bytes :=
  bytes path ++ bytes "?problem_id=" ++ encodeURIComponent problemId ++ bytes "&case_id=" ++
    bytes (toString i)

/-- The loop over the tests from `i` on; the answer says whether it has come to its end.  A fetch
without an answer throws out of it. -/
def uploadCases (problemId : Bytes) : Nat → List (Bytes × Bytes) → Page Bool
  | _, [] => return true
  | i, (inputContent, outputContent) :: rest => do
    let inputResp ← fetch (caseUrl "/api/problem/upload_testcase_in" problemId i) inputContent
    match inputResp with
    | none => return false
    | some inputStatus =>
      if inputStatus ≠ "200" then do
        setText ("第" ++ toString i ++ "组输入用例上传失败")
        return false
      else do
        let outputResp ←
          fetch (caseUrl "/api/problem/upload_testcase_out" problemId i) outputContent
        match outputResp with
        | none => return false
        | some outputStatus =>
          if outputStatus ≠ "200" then do
            setText ("第" ++ toString i ++ "组输出用例上传失败")
            return false
          else
            uploadCases problemId (i + 1) rest

/-- The parameters of the problem. -/
def QuestionsForm.params (form : QuestionsForm) : KVMap :=
  [(bytes "problem_id", form.problem_id),
    (bytes "problem_kind", form.problem_kind),
    (bytes "problem_diffculty", form.problem_diffculty),
    (bytes "time_limit", numberText form.time_limit),
    (bytes "mem_limit", numberText form.mem_limit),
    (bytes "authre_id", form.authre_id),
    (bytes "is_public", form.is_public),
    (bytes "test_num", bytes (toString form.inputFiles.length))]

/-- What the page shows for the answer to the problem. -/
def problemText : Option String → String
  | none => "网络错误，上传失败"
  | some status =>
    if status = "200" then "上传成功"
    else if status = "409" then "部分题目已存在"
    else if status = "412" then "测试用例数量与test_num不匹配"
    else "上传失败"

/-- The upload of the problem, behind that of its tests. -/
def uploadProblem (form : QuestionsForm) : Page Unit := do
  setText "测试用例上传成功，正在上传题目..."
  match form.questionsFile with
  | none => setText "请先选择题目txt文件"
  | some file =>
    if file.size > 5 * 1024 * 1024 then
      setText "文件大小不能超过5MB"
    else do
      let resp ← fetch (requestUri (bytes "/api/add/problem") form.params) file.text
      setText (problemText resp)

/-- `uploadQuestionsSubmitBtn.onclick`. -/
def uploadQuestions (form : QuestionsForm) : Page Unit := do
  setText "正在上传测试用例..."
  if form.inputFiles.length = 0 ∨ form.outputFiles.length = 0 then
    setText "请至少选择一对输入输出测试用例文件"
  else if form.inputFiles.length ≠ form.outputFiles.length then
    setText "输入输出测试用例数量不一致"
  else if form.problem_id = [] then
    setText "题目ID不能为空"
  else if jsLength form.problem_id > 32 then
    setText "题目ID不能超过32个字符"
  else if exceeds form.time_limit 10000 then
    setText "时间限制不能超过10000ms"
  else if exceeds form.mem_limit 2048 then
    setText "内存限制不能超过2048MB"
  else do
    let uploaded ← uploadCases form.problem_id 0 (form.inputFiles.zip form.outputFiles)
    if uploaded then uploadProblem form

end OJJudge.Pages
