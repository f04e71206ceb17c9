import OJJudge.Pages.Desk
import OJJudge.Pages.Questions

/-! What the three handlers answer to the dialog, and what they leave on the desk. -/

namespace OJJudge.Pages

open Concurrency Storage

/-! ### Handlers -/

/-- From the desk `s`, the program returns values and desks that satisfy `R`. -/
abbrev Errand.Ensures {α : Type} (errand : Errand) (p : Code α) (R : α → Desk → Prop) (s : Desk) :
    Prop :=
  p.Wp errand.Serves (fun _ _ => True) R s

section Handlers

variable {errand : Errand} {s : Desk} {R : Option String → Desk → Prop} {status : Option String}

theorem answer_op (status : Option String) (o : Op) (k : o.Res → Code Unit) :
    answer status (.op o k) = .op o fun r => answer (statusAfter status o) (k r) := rfl

theorem answer_session {req : HttpReq} {next : String → Code Unit}
    (hkey : req.sessionKey? = some errand.sessionKey) (hsession : s.session = some errand.user)
    (huser : errand.user ≠ "") (h : errand.Ensures (answer status (next errand.user)) R s) :
    errand.Ensures (answer status (session req next)) R s := by
  simp only [session, hkey, my_sync_check_token, effect_eq, Prog.op_bind, Prog.ret_bind,
    Prog.pure_eq, answer_op]
  refine ⟨trivial, ?_⟩
  rintro r _ ⟨rfl, hr, -⟩
  rw [hr rfl, hsession]
  simp only [Option.getD_some, if_neg huser]
  exact h

theorem answer_checkRole {next : Code Unit} (h : errand.Ensures (answer status next) R s) :
    errand.Ensures (answer status (checkRole errand.user next)) R s := by
  simp only [checkRole, effect_eq, Prog.op_bind, Prog.ret_bind, answer_op]
  refine ⟨trivial, ?_⟩
  rintro r _ ⟨rfl, hr⟩
  obtain ⟨role, rest, rfl, hrole⟩ := hr rfl
  simp only [if_neg hrole]
  exact h

/-- The file operations leave the desk alone. -/
theorem answer_storeFile {path : String} {body : Bytes} {next : Code Unit}
    (h : errand.Ensures (answer status next) R s) :
    errand.Ensures (answer status (storeFile path body >>= fun _ => next)) R s := by
  simp only [storeFile, effect_eq, Prog.op_bind, Prog.ret_bind, answer_op]
  refine ⟨trivial, ?_⟩
  rintro fd _ rfl
  refine ⟨trivial, ?_⟩
  rintro _ _ rfl
  refine ⟨trivial, ?_⟩
  rintro _ _ rfl
  exact h

theorem answer_dropCases (h : R status { s with cases := [], counter := none }) :
    errand.Ensures (answer status (dropCases errand.problem_id)) R s := by
  simp only [dropCases, effect_eq, Prog.op_bind, Prog.ret_bind, answer_op]
  refine ⟨trivial, fun _ _ hrows => ?_⟩
  obtain rfl := hrows rfl
  refine ⟨trivial, fun _ _ hcounter => ?_⟩
  obtain rfl := hcounter.1 rfl
  exact h

/-- `add_test_in` sets the marker. -/
theorem answer_add_test_in {case_id : String} {body : Bytes}
    (h : R status { s with marker := Function.update s.marker case_id (some "1") }) :
    errand.Ensures
      (answer status (add_test_in OJ_Judge errand.user errand.problem_id case_id body)) R s := by
  refine answer_checkRole (answer_storeFile ?_)
  simp only [effect_eq, Prog.op_bind, Prog.ret_bind, answer_op]
  refine ⟨trivial, fun _ _ hset => ?_⟩
  obtain rfl := hset case_id rfl
  refine ⟨trivial, ?_⟩
  rintro _ _ rfl
  exact h

/-- `add_test_out` finds the marker, counts the test and inserts its row. -/
theorem answer_add_test_out {case_id : String} {body : Bytes} (hmarker : s.marker case_id = some "1")
    (h : R (some "200")
      { s with
        counter := incrValue s.counter
        cases := s.cases ++ [⟨errand.problem_id, inCaseName errand.problem_id case_id,
          outputCaseName errand.problem_id case_id⟩]
        marker := Function.update s.marker case_id none }) :
    errand.Ensures
      (answer status (add_test_out OJ_Judge errand.user errand.problem_id case_id body)) R s := by
  refine answer_checkRole ?_
  simp only [my_sync_check_token, effect_eq, Prog.op_bind, Prog.ret_bind, Prog.pure_eq, answer_op]
  refine ⟨trivial, ?_⟩
  rintro r _ ⟨rfl, -, -, hr⟩
  rw [hr case_id rfl, hmarker]
  simp only [Option.getD_some, if_true]
  refine answer_storeFile ?_
  simp only [answer_op]
  refine ⟨trivial, ?_⟩
  rintro _ _ rfl
  refine ⟨trivial, fun _ _ hcount => ?_⟩
  obtain rfl := hcount rfl
  refine ⟨trivial, fun _ _ hinsert => ?_⟩
  obtain rfl := hinsert rfl
  refine ⟨trivial, fun _ _ hdel => ?_⟩
  obtain rfl := hdel.2 case_id rfl
  exact h

/-- What `add_problem` answers, and the desk that it leaves. -/
def Desk.register (s : Desk) (user : String) (params : ProblemParams) : String × Desk :=
  if s.problems ≠ [] then ("409", { s with cases := [], counter := none })
  else if s.counter.getD "" ≠ params.test_num then ("412", { s with cases := [], counter := none })
  else ("200", { s with problems := s.problems ++ [(user, params)], counter := none })

theorem register_registered {user : String} {params : ProblemParams} (h : s.problems ≠ []) :
    s.register user params = ("409", { s with cases := [], counter := none }) :=
  if_pos h

theorem register_lacking {user : String} {params : ProblemParams} (h : s.problems = [])
    (hcount : s.counter.getD "" ≠ params.test_num) :
    s.register user params = ("412", { s with cases := [], counter := none }) := by
  rw [Desk.register, if_neg (not_not.mpr h), if_pos hcount]

theorem register_accepted {user : String} {params : ProblemParams} (h : s.problems = [])
    (hcount : s.counter.getD "" = params.test_num) :
    s.register user params =
      ("200", { s with problems := s.problems ++ [(user, params)], counter := none }) := by
  rw [Desk.register, if_neg (not_not.mpr h), if_neg (not_not.mpr hcount)]

theorem answer_add_problem {params : ProblemParams} {body : Bytes}
    (hid : params.problem_id = errand.problem_id)
    (h : R (some (s.register errand.user params).1) (s.register errand.user params).2) :
    errand.Ensures (answer status (add_problem errand.user params body)) R s := by
  refine answer_checkRole ?_
  simp only [my_sync_check_token, effect_eq, Prog.op_bind, Prog.ret_bind, Prog.pure_eq, answer_op]
  refine ⟨trivial, ?_⟩
  intro rows s' hs
  obtain ⟨hs, hrows⟩ := hs
  subst s'
  have hrows := hrows hid
  dsimp only
  by_cases hregistered : s.problems = []
  swap
  · rw [register_registered hregistered] at h
    rw [if_pos (hrows.mpr hregistered)]
    refine ⟨trivial, ?_⟩
    rintro _ _ rfl
    rw [hid]
    exact answer_dropCases h
  · rw [if_neg fun hlength => hrows.mp hlength hregistered]
    refine ⟨trivial, ?_⟩
    intro r s' hs
    obtain ⟨hs, -, hr, -⟩ := hs
    subst s'
    rw [hr (congrArg counterKey hid)]
    dsimp only
    by_cases hcount : s.counter.getD "" = params.test_num
    · rw [register_accepted hregistered hcount] at h
      rw [if_neg (not_not.mpr hcount)]
      refine answer_storeFile ?_
      simp only [answer_op]
      refine ⟨trivial, ?_⟩
      rintro _ _ rfl
      refine ⟨trivial, fun _ _ hinsert => ?_⟩
      obtain rfl := hinsert hid
      refine ⟨trivial, fun _ _ hdel => ?_⟩
      obtain rfl := hdel.1 (congrArg counterKey hid)
      exact h
    · rw [register_lacking hregistered hcount] at h
      rw [if_pos hcount]
      refine ⟨trivial, ?_⟩
      rintro _ _ rfl
      refine ⟨trivial, ?_⟩
      rintro _ _ rfl
      rw [hid]
      exact answer_dropCases h

end Handlers

/-! ### Fetches -/

theorem digit_of_mem_toString {n : Nat} {c : Char} (hc : c ∈ (toString n).toList) :
    ∃ d : Fin 10, c = Char.ofNat (48 + d) := by
  rw [Nat.toString_eq_repr, Nat.toList_repr] at hc
  have hdigit := Nat.isDigit_of_mem_toDigits (by decide) (by decide) hc
  simp only [Char.isDigit, Bool.and_eq_true, decide_eq_true_eq] at hdigit
  have hlow : 48 ≤ c.toNat := UInt32.le_iff_toNat_le.mp hdigit.1
  have hhigh : c.toNat ≤ 57 := UInt32.le_iff_toNat_le.mp hdigit.2
  refine ⟨⟨c.toNat - 48, by omega⟩, ?_⟩
  rw [show 48 + (c.toNat - 48) = c.toNat by omega, Char.ofNat_toNat]

/-- A digit is one byte, which a URL holds as it is. -/
theorem digit_survives (d : Fin 10) :
    Char.ofNat (Char.ofNat (48 + d)).toUInt8.toNat = Char.ofNat (48 + d) ∧
      encodeByte (Char.ofNat (48 + d)).toUInt8 = [(Char.ofNat (48 + d)).toUInt8] ∧
      (Char.ofNat (48 + d)).toUInt8 ≠ '&'.toUInt8 := by
  revert d
  decide

theorem text_bytes_toString (n : Nat) : text (bytes (toString n)) = toString n := by
  have hall : ∀ c ∈ (toString n).toList, Char.ofNat c.toUInt8.toNat = c := by
    intro c hc
    obtain ⟨d, rfl⟩ := digit_of_mem_toString hc
    exact (digit_survives d).1
  have hmap : (toString n).toList.map (fun c => Char.ofNat c.toUInt8.toNat) =
      (toString n).toList := by
    conv_rhs => rw [← List.map_id (toString n).toList]
    exact List.map_congr_left hall
  rw [text, bytes, List.map_map]
  exact (congrArg String.ofList hmap).trans String.ofList_toList

/-- A number goes into a URL as it is. -/
theorem encodeURIComponent_toString (n : Nat) :
    encodeURIComponent (bytes (toString n)) = bytes (toString n) := by
  have hall : ∀ b ∈ bytes (toString n), encodeByte b = [b] := by
    intro b hb
    obtain ⟨c, hc, rfl⟩ := List.mem_map.mp hb
    obtain ⟨d, rfl⟩ := digit_of_mem_toString hc
    exact (digit_survives d).2.1
  rw [encodeURIComponent, List.flatMap_congr hall, List.flatMap_singleton']

theorem not_mem_toString (n : Nat) : '&'.toUInt8 ∉ bytes (toString n) := by
  intro hb
  obtain ⟨c, hc, hb⟩ := List.mem_map.mp hb
  obtain ⟨d, rfl⟩ := digit_of_mem_toString hc
  exact (digit_survives d).2.2 hb

/-- The parameters for a file of test `i`. -/
def caseParams (problemId : Bytes) (i : Nat) : KVMap :=
  [(bytes "problem_id", problemId), (bytes "case_id", bytes (toString i))]

theorem caseUrl_eq {path : String} {rest : Bytes}
    (hpath : bytes path = bytes "/api" ++ '/'.toUInt8 :: rest) (problemId : Bytes) (i : Nat) :
    caseUrl path problemId i =
      requestUri (bytes "/api" ++ '/'.toUInt8 :: rest) (caseParams problemId i) := by
  have hid : bytes "?problem_id=" = '?'.toUInt8 :: (bytes "problem_id" ++ ['='.toUInt8]) := by
    decide +kernel
  have hcase : bytes "&case_id=" = '&'.toUInt8 :: (bytes "case_id" ++ ['='.toUInt8]) := by
    decide +kernel
  simp [caseUrl, requestUri, joinParams, caseParams, hpath, hid, hcase, List.intercalate]
  exact (encodeURIComponent_toString i).symm

/-- The user of the errand works with the browser on the problem of the dialog. -/
structure Errand.Runs (errand : Errand) (wire : Wire) (problemId : Bytes) : Prop where
  problem_id : errand.problem_id = text problemId
  sessionKey : wire.sessionKey? = some errand.sessionKey
  user : errand.user ≠ ""

section Fetches

variable {errand : Errand} {wire : Wire} {problemId : Bytes} (lib : Library) {s : Desk} {i : Nat}
  (body : Bytes)

theorem plainName_caseParams : ∀ kv ∈ caseParams problemId i, PlainName kv.1 := by
  have hid : PlainName (bytes "problem_id") := by
    rw [bytes_ofList]
    exact List.all_iff_forall_prop.mp (by decide)
  have hcase : PlainName (bytes "case_id") := by
    rw [bytes_ofList]
    exact List.all_iff_forall_prop.mp (by decide)
  rw [caseParams, List.forall_mem_cons, List.forall_mem_singleton]
  exact ⟨hid, hcase⟩

/-- A fetch for a file of a test runs its handler, which finds the test. -/
theorem serve_case {path : String} {rest : Bytes} {handler : Handler}
    (hpath : bytes path = bytes "/api" ++ '/'.toUInt8 :: rest)
    (hrest : ∀ b ∈ rest, b ≠ '?'.toUInt8 ∧ b ≠ '%'.toUInt8 ∧ b ≠ '+'.toUInt8)
    (hroute : (routes.find? fun entry => bytes entry.1 = '/'.toUInt8 :: rest).map (·.2) =
      some handler)
    (hruns : errand.Runs wire problemId) (hid : '&'.toUInt8 ∉ problemId)
    (hshort : (caseUrl path problemId i).length < 2147483648) :
    ∃ req KVpairs, req.sessionKey? = some errand.sessionKey ∧ req.KVpairs = some KVpairs ∧
      text (KVpairs.get "problem_id") = errand.problem_id ∧
      text (KVpairs.get "case_id") = toString i ∧
      wire.serve lib ⟨caseUrl path problemId i, body⟩ =
        answer (some wire.unset) (Request.prog lib ⟨handler, req⟩) := by
  rw [caseUrl_eq hpath] at hshort ⊢
  have hvalues : ∀ kv ∈ caseParams problemId i, '&'.toUInt8 ∉ kv.2 := by
    intro kv hkv
    simp only [caseParams, List.mem_cons, List.not_mem_nil, or_false] at hkv
    obtain rfl | rfl := hkv
    · exact hid
    · exact not_mem_toString i
  obtain ⟨req, KVpairs, hkey, -, hKVpairs, hlookup, hserve⟩ :=
    Wire.serve_eq lib body hrest hroute plainName_caseParams (List.cons_ne_nil _ _) hvalues
      (by simp only [requestUri, List.length_append] at hshort ⊢; omega) hruns.sessionKey
  have hne : bytes "case_id" ≠ bytes "problem_id" := by decide +kernel
  refine ⟨req, KVpairs, hkey, hKVpairs, ?_, ?_, hserve⟩
  · rw [KVMap.get, hlookup, caseParams, List.lookup_cons_self, hruns.problem_id]
    rfl
  · rw [KVMap.get, hlookup, caseParams, List.lookup_cons, beq_false_of_ne hne,
      List.lookup_cons_self]
    exact text_bytes_toString i

theorem serve_testIn (hruns : errand.Runs wire problemId) (hid : '&'.toUInt8 ∉ problemId)
    (hshort : (caseUrl "/api/problem/upload_testcase_in" problemId i).length < 2147483648) :
    ∃ req KVpairs, req.sessionKey? = some errand.sessionKey ∧ req.KVpairs = some KVpairs ∧
      text (KVpairs.get "problem_id") = errand.problem_id ∧
      text (KVpairs.get "case_id") = toString i ∧
      wire.serve lib ⟨caseUrl "/api/problem/upload_testcase_in" problemId i, body⟩ =
        answer (some wire.unset) (Request.prog lib ⟨.add_test_in, req⟩) := by
  have hpath : bytes "/api/problem/upload_testcase_in" =
      bytes "/api" ++ '/'.toUInt8 :: bytes "problem/upload_testcase_in" := by decide +kernel
  have hrest : ∀ b ∈ bytes "problem/upload_testcase_in",
      b ≠ '?'.toUInt8 ∧ b ≠ '%'.toUInt8 ∧ b ≠ '+'.toUInt8 := by
    rw [bytes_ofList]
    exact List.all_iff_forall_prop.mp (by decide)
  have hroute : (routes.find? fun entry => bytes entry.1 =
      '/'.toUInt8 :: bytes "problem/upload_testcase_in").map (·.2) = some .add_test_in := by
    decide +kernel
  exact serve_case lib body hpath hrest hroute hruns hid hshort

theorem serve_testOut (hruns : errand.Runs wire problemId) (hid : '&'.toUInt8 ∉ problemId)
    (hshort : (caseUrl "/api/problem/upload_testcase_out" problemId i).length < 2147483648) :
    ∃ req KVpairs, req.sessionKey? = some errand.sessionKey ∧ req.KVpairs = some KVpairs ∧
      text (KVpairs.get "problem_id") = errand.problem_id ∧
      text (KVpairs.get "case_id") = toString i ∧
      wire.serve lib ⟨caseUrl "/api/problem/upload_testcase_out" problemId i, body⟩ =
        answer (some wire.unset) (Request.prog lib ⟨.add_test_out, req⟩) := by
  have hpath : bytes "/api/problem/upload_testcase_out" =
      bytes "/api" ++ '/'.toUInt8 :: bytes "problem/upload_testcase_out" := by decide +kernel
  have hrest : ∀ b ∈ bytes "problem/upload_testcase_out",
      b ≠ '?'.toUInt8 ∧ b ≠ '%'.toUInt8 ∧ b ≠ '+'.toUInt8 := by
    rw [bytes_ofList]
    exact List.all_iff_forall_prop.mp (by decide)
  have hroute : (routes.find? fun entry => bytes entry.1 =
      '/'.toUInt8 :: bytes "problem/upload_testcase_out").map (·.2) = some .add_test_out := by
    decide +kernel
  exact serve_case lib body hpath hrest hroute hruns hid hshort

theorem ensures_testIn (hruns : errand.Runs wire problemId) (hid : '&'.toUInt8 ∉ problemId)
    (hshort : (caseUrl "/api/problem/upload_testcase_in" problemId i).length < 2147483648)
    (hsession : s.session = some errand.user) :
    errand.Ensures
      (wire.serve lib ⟨caseUrl "/api/problem/upload_testcase_in" problemId i, body⟩)
      (fun r s' => r = some wire.unset ∧
        s' = { s with marker := Function.update s.marker (toString i) (some "1") }) s := by
  obtain ⟨req, KVpairs, hkey, hKVpairs, hproblem, hcase, hserve⟩ :=
    serve_testIn lib body hruns hid hshort
  rw [hserve]
  simp only [Request.prog, Judge.add_test_in, withParams, hKVpairs]
  refine answer_session hkey hsession hruns.user ?_
  rw [hproblem, hcase]
  exact answer_add_test_in ⟨rfl, rfl⟩

theorem ensures_testOut (hruns : errand.Runs wire problemId) (hid : '&'.toUInt8 ∉ problemId)
    (hshort : (caseUrl "/api/problem/upload_testcase_out" problemId i).length < 2147483648)
    (hsession : s.session = some errand.user) (hmarker : s.marker (toString i) = some "1") :
    errand.Ensures
      (wire.serve lib ⟨caseUrl "/api/problem/upload_testcase_out" problemId i, body⟩)
      (fun r s' => r = some "200" ∧ s' = { s with
        counter := incrValue s.counter
        cases := s.cases ++ [⟨errand.problem_id, inCaseName errand.problem_id (toString i),
          outputCaseName errand.problem_id (toString i)⟩]
        marker := Function.update s.marker (toString i) none }) s := by
  obtain ⟨req, KVpairs, hkey, hKVpairs, hproblem, hcase, hserve⟩ :=
    serve_testOut lib body hruns hid hshort
  rw [hserve]
  simp only [Request.prog, Judge.add_test_out, withParams, hKVpairs]
  refine answer_session hkey hsession hruns.user ?_
  rw [hproblem, hcase]
  exact answer_add_test_out hmarker ⟨rfl, rfl⟩

/-- The parameters that `add_problem` finds. -/
def QuestionsForm.problemParams (form : QuestionsForm) : ProblemParams where
  problem_id := text form.problem_id
  problem_diffculty := text form.problem_diffculty
  time_limit := text (numberText form.time_limit)
  mem_limit := text (numberText form.mem_limit)
  is_public := text form.is_public
  test_num := toString form.inputFiles.length

theorem plainName_params (form : QuestionsForm) : ∀ kv ∈ form.params, PlainName kv.1 := by
  have hnames : (form.params.map Prod.fst) =
      ["problem_id", "problem_kind", "problem_diffculty", "time_limit", "mem_limit", "authre_id",
        "is_public", "test_num"].map bytes := rfl
  intro kv hkv
  have hname := List.mem_map_of_mem (f := Prod.fst) hkv
  rw [hnames] at hname
  simp only [List.map_cons, List.map_nil, List.mem_cons, List.not_mem_nil, or_false] at hname
  rcases hname with h | h | h | h | h | h | h | h <;> rw [h] <;>
    exact List.all_iff_forall_prop.mp (by decide)

theorem distinct_params (form : QuestionsForm) : (form.params.map Prod.fst).Nodup := by
  show (["problem_id", "problem_kind", "problem_diffculty", "time_limit", "mem_limit", "authre_id",
    "is_public", "test_num"].map bytes).Nodup
  decide +kernel

theorem serve_problem {form : QuestionsForm} (hruns : errand.Runs wire form.problem_id)
    (hvalues : ∀ kv ∈ form.params, '&'.toUInt8 ∉ kv.2)
    (hshort : (requestUri (bytes "/api/add/problem") form.params).length < 2147483648) :
    ∃ req KVpairs, req.sessionKey? = some errand.sessionKey ∧ req.KVpairs = some KVpairs ∧
      (∀ name value, (bytes name, value) ∈ form.params → KVpairs.get name = value) ∧
      wire.serve lib ⟨requestUri (bytes "/api/add/problem") form.params, body⟩ =
        answer (some wire.unset) (Request.prog lib ⟨.add_problem, req⟩) := by
  have hpath : bytes "/api/add/problem" =
      bytes "/api" ++ '/'.toUInt8 :: bytes "add/problem" := by decide +kernel
  have hrest : ∀ b ∈ bytes "add/problem", b ≠ '?'.toUInt8 ∧ b ≠ '%'.toUInt8 ∧ b ≠ '+'.toUInt8 := by
    rw [bytes_ofList]
    exact List.all_iff_forall_prop.mp (by decide)
  have hroute : (routes.find? fun entry => bytes entry.1 =
      '/'.toUInt8 :: bytes "add/problem").map (·.2) = some .add_problem := by
    decide +kernel
  rw [hpath] at hshort ⊢
  obtain ⟨req, KVpairs, hkey, -, hKVpairs, hlookup, hserve⟩ :=
    Wire.serve_eq lib body hrest hroute (plainName_params form) (List.cons_ne_nil _ _) hvalues
      (by simp only [requestUri, List.length_append] at hshort ⊢; omega) hruns.sessionKey
  refine ⟨req, KVpairs, hkey, hKVpairs, fun name value hmem => ?_, hserve⟩
  rw [KVMap.get, hlookup, lookup_of_mem (distinct_params form) hmem, Option.getD_some]

theorem ensures_problem {form : QuestionsForm} (hruns : errand.Runs wire form.problem_id)
    (hvalues : ∀ kv ∈ form.params, '&'.toUInt8 ∉ kv.2)
    (hshort : (requestUri (bytes "/api/add/problem") form.params).length < 2147483648)
    (hsession : s.session = some errand.user) :
    errand.Ensures
      (wire.serve lib ⟨requestUri (bytes "/api/add/problem") form.params, body⟩)
      (fun r s' => r = some (s.register errand.user form.problemParams).1 ∧
        s' = (s.register errand.user form.problemParams).2) s := by
  obtain ⟨req, KVpairs, hkey, hKVpairs, hget, hserve⟩ := serve_problem lib body hruns hvalues hshort
  rw [hserve]
  simp only [Request.prog, Judge.add_problem, withParams, hKVpairs]
  refine answer_session hkey hsession hruns.user ?_
  rw [hget "problem_id" form.problem_id (by simp [QuestionsForm.params]),
    hget "problem_diffculty" form.problem_diffculty (by simp [QuestionsForm.params]),
    hget "time_limit" (numberText form.time_limit) (by simp [QuestionsForm.params]),
    hget "mem_limit" (numberText form.mem_limit) (by simp [QuestionsForm.params]),
    hget "is_public" form.is_public (by simp [QuestionsForm.params]),
    hget "test_num" (bytes (toString form.inputFiles.length)) (by simp [QuestionsForm.params]),
    text_bytes_toString]
  have hproblem : form.problemParams.problem_id = errand.problem_id := hruns.problem_id.symm
  exact answer_add_problem hproblem ⟨rfl, rfl⟩

end Fetches

end OJJudge.Pages
