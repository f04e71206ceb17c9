import OJJudge.Paging
import OJJudge.Storage.Machine
import OJJudge.Uri.Query

/-! The list of problems, page by page.  The client counts ten ids for a page, and the server counts
ten public problems from the first of these ids on. -/

namespace OJJudge.Storage

open Concurrency

/-- The problems that students see. -/
def Memory.publicProblems (m : Memory) : List Problem :=
  m.problems_cpp.filter (·.is_public = "1")

/-- The rows of `WHERE problem_id >= beginID AND is_public = 1 LIMIT 10`. -/
def Memory.page (m : Memory) (beginID : Int) : List Problem :=
  (m.problems_cpp.filter fun row => beginID ≤ row.problem_id ∧ row.is_public = "1").take 10

/-- The columns of a page. -/
def Problem.columns (row : Problem) : List String := [row.title, row.difficulty, row.author_id]

/-- The answer of the database to the query of a page that begins at a number. -/
def Memory.answers (m : Memory) : (o : Op) → o.Res
  | .query (.selectProblems beginID) =>
    match readInt beginID with
    | some beginID => (m.page beginID).map Problem.columns
    | none => []
  | o => Source.answers o

/-- One effect of a request for a page, with storage that works. -/
def listing (lib : Library) (o : Op) (m : Memory) : Option (o.Res × Memory) :=
  exec lib (fun _ => false) 0 o ⟨false, m.answers, fun _ => none⟩ m

/-- The list in the answer to a request. -/
def listed (lib : Library) (req : HttpReq) (m : Memory) : List (List String) :=
  ((Judge.get_problem_list req).events (listing lib) m).flatMap fun e =>
    match e.op with
    | .append_output_rows rows => rows
    | _ => []

/-- The session of the request names a user, and the request asks for the problems from `beginID`
on. -/
structure Memory.Asks (m : Memory) (req : HttpReq) (beginID : Nat) : Prop where
  session : ∃ key user_name, req.sessionKey? = some key ∧ m.redis key = some user_name ∧
    user_name ≠ ""
  beginID : ∃ KVpairs, req.KVpairs = some KVpairs ∧ text (KVpairs.get "beginID") = toString beginID

section Listing

variable {lib : Library}

theorem events_listing {o : Op} (ho : o ≠ .lock) (k : o.Res → Code Unit) (m : Memory) :
    (Prog.op (S := effects) o k).events (listing lib) m =
      ⟨o, m.response m.answers o⟩ ::
        (k (m.response m.answers o)).events (listing lib) (m.after lib 0 (fun _ => none) o) := by
  apply Prog.events_op
  simp [listing, exec, ho]

theorem Memory.answers_selectProblems (m : Memory) (beginID : Nat) :
    m.answers (.query (.selectProblems (toString beginID))) =
      (m.page beginID).map Problem.columns := by
  have hread : readInt (toString beginID) = some (beginID : Int) := by
    have h := readInt_repr beginID
    rwa [repr_natCast] at h
  simp only [Memory.answers, hread]

/-- The answer to a request holds the page that it asks for. -/
theorem listed_eq {m : Memory} {req : HttpReq} {beginID : Nat} (h : m.Asks req beginID) :
    listed lib req m = (m.page beginID).map Problem.columns := by
  obtain ⟨⟨key, user_name, hkey, hredis, hne⟩, KVpairs, hKVpairs, hbegin⟩ := h
  have huser : (m.redis key).getD "" ≠ "" := by rwa [hredis]
  unfold listed Judge.get_problem_list withParams session
  simp only [hKVpairs, hkey, my_sync_check_token, OJJudge.get_problem_list, effect_eq,
    Prog.op_bind, Prog.ret_bind, Prog.pure_eq]
  rw [events_listing (by simp), Memory.response_get, Memory.after_get, if_neg huser]
  generalize text (KVpairs.get "beginID") = parameter at hbegin
  subst hbegin
  rw [events_listing (by simp), events_listing (by simp), events_listing (by simp)]
  simp [Memory.rows, Memory.answers_selectProblems, Prog.events]

end Listing

/-! ### The client -/

/-- `PAGE_SIZE` of the page of the students. -/
def PAGE_SIZE : Nat := 10

def beginID (page : Nat) : Nat := (page - 1) * PAGE_SIZE

/-- The request that `loadProblems(page)` fetches, with the cookie of the browser. -/
def loadProblems (cookie : Bytes) (page : Nat) : HttpReq where
  request_uri := bytes "/api/problem/get_problem_list" ++ '?'.toUInt8 :: (bytes "beginID" ++
    '='.toUInt8 :: bytes (toString (beginID page)))
  headers := [("Cookie", cookie)]
  body := []
  ii := 0

theorem bytes_toString (n : Nat) : PlainName (bytes (toString n)) ∧
    text (bytes (toString n)) = toString n := by
  have hlist : (toString n).toList = Nat.toDigits 10 n := by simp
  have hdigit : ∀ c ∈ (toString n).toList, 48 ≤ c.toNat ∧ c.toNat ≤ 57 := by
    intro c hc
    rw [hlist] at hc
    have h := Nat.isDigit_of_mem_toDigits (b := 10) (by decide) (by decide) hc
    simp only [Char.isDigit, Bool.and_eq_true, decide_eq_true_eq] at h
    exact ⟨UInt32.le_iff_toNat_le.mp h.1, UInt32.le_iff_toNat_le.mp h.2⟩
  have hbyte : ∀ c ∈ (toString n).toList, c.toUInt8.toNat = c.toNat := by
    intro c hc
    have h := hdigit c hc
    show c.toNat % 256 = c.toNat
    omega
  constructor
  · intro b hb
    obtain ⟨c, hc, rfl⟩ := List.mem_map.mp hb
    have h := hdigit c hc
    have hc := hbyte c hc
    exact .inl ⟨UInt8.le_iff_toNat_le.mpr (by rw [hc]; exact h.1),
      UInt8.le_iff_toNat_le.mpr (by rw [hc]; exact h.2)⟩
  · have hmap : (bytes (toString n)).map (fun b => Char.ofNat b.toNat) = (toString n).toList := by
      rw [bytes, List.map_map]
      refine (List.map_congr_left fun c hc => ?_).trans (List.map_id _)
      show Char.ofNat c.toUInt8.toNat = c
      rw [hbyte c hc, Char.ofNat_toNat]
    rw [text, hmap, String.ofList_toList]

/-- A page asks for the problems from the first of its ids on. -/
theorem KVpairs_loadProblems (cookie : Bytes) (page : Nat)
    (h : (loadProblems cookie page).request_uri.length < 2147483648) :
    ∃ KVpairs, (loadProblems cookie page).KVpairs = some KVpairs ∧
      text (KVpairs.get "beginID") = toString (beginID page) := by
  obtain ⟨hplain, htext⟩ := bytes_toString (beginID page)
  have hname : PlainName (bytes "beginID") := by
    rw [bytes_ofList]
    exact List.all_iff_forall_prop.mp (by decide)
  have hpath : Literal (bytes "/api/problem/get_problem_list") ∧
      '?'.toUInt8 ∉ bytes "/api/problem/get_problem_list" := by
    rw [bytes_ofList]
    exact ⟨List.all_iff_forall_prop.mp (by decide), by decide⟩
  have hliteral : Literal (loadProblems cookie page).request_uri := by
    intro b hb
    simp only [loadProblems, List.mem_append, List.mem_cons] at hb
    obtain hb | rfl | hb | rfl | hb := hb
    · exact hpath.1 b hb
    · decide
    · exact hname.literal b hb
    · decide
    · exact hplain.literal b hb
  have hdecode : url_decode 0 (loadProblems cookie page).request_uri =
      some (loadProblems cookie page).request_uri := by
    obtain ⟨ii, hii⟩ := Decodes.literal hliteral 0 0 [] (by simpa using Nat.le_of_lt_succ h)
    simpa [url_decode, decodeFrom] using hii
  have hamp : '&'.toUInt8 ∉ bytes "beginID" ++ '='.toUInt8 :: bytes (toString (beginID page)) := by
    rw [List.mem_append, List.mem_cons]
    rintro (hmem | hmem | hmem)
    · exact hname.not_mem.2 hmem
    · exact absurd hmem (by decide)
    · exact hplain.not_mem.2 hmem
  have hget : uriKV_get (loadProblems cookie page).request_uri = _ := uriKV_get_eq hpath.2 h
  rw [List.splitOn_eq_singleton hamp, List.map_singleton, pairOf_append hname.not_mem.1] at hget
  refine ⟨[(bytes "beginID", bytes (toString (beginID page)))], ?_, ?_⟩
  · show (url_decode 0 (loadProblems cookie page).request_uri).bind uriKV_get = _
    rw [hdecode, Option.bind_some]
    exact hget
  · rw [KVMap.get, List.lookup_cons_self, Option.getD_some]
    exact htext

/-! ### All pages -/

/-- The largest `problem_id`. -/
def Memory.largestId (m : Memory) : Nat := (m.problems_cpp.map (·.problem_id)).foldr max 0

/-- The pages up to the last one that begins at the largest id or before it. -/
def Memory.pageNumbers (m : Memory) : List Nat :=
  (List.range (m.largestId / PAGE_SIZE + 1)).map (· + 1)

theorem Memory.le_largestId {m : Memory} {row : Problem} (h : row ∈ m.problems_cpp) :
    row.problem_id ≤ m.largestId :=
  List.le_max_of_le (List.mem_map_of_mem h) le_rfl

/-- A page of the table is a page of its public problems. -/
theorem Memory.page_eq (m : Memory) (k : Nat) :
    m.page (beginID (k + 1)) = Paging.pageOf Problem.problem_id PAGE_SIZE m.publicProblems k := by
  unfold Memory.page Paging.pageOf publicProblems
  rw [List.filter_filter]
  congr 2
  funext row
  have hbegin : beginID (k + 1) = PAGE_SIZE * k := by rw [beginID, Nat.add_sub_cancel, mul_comm]
  simp only [hbegin, Nat.cast_le, Bool.decide_and]

/-- The pages together list each public problem once when no public problem has an id that does not
fit the first page, and only then. -/
theorem listed_once_iff (lib : Library) {m : Memory} {requests : Nat → HttpReq}
    (hids : (m.problems_cpp.map (·.problem_id)).Nodup)
    (hpos : ∀ row ∈ m.problems_cpp, 0 < row.problem_id)
    (hasks : ∀ page ∈ m.pageNumbers, m.Asks (requests page) (beginID page)) :
    (m.pageNumbers.flatMap fun page => listed lib (requests page) m).Perm
        (m.publicProblems.map Problem.columns) ↔
      ∀ row ∈ m.publicProblems, row.problem_id < PAGE_SIZE := by
  have hsub : m.publicProblems.Sublist m.problems_cpp := List.filter_sublist
  have hnodup : (m.publicProblems.map (·.problem_id)).Nodup := hids.sublist (hsub.map _)
  have hpublic : ∀ row ∈ m.publicProblems, 0 < row.problem_id := fun row h => hpos row (hsub.mem h)
  have hpages : (m.pageNumbers.flatMap fun page => listed lib (requests page) m) =
      ((List.range (m.largestId / PAGE_SIZE + 1)).flatMap
        (Paging.pageOf Problem.problem_id PAGE_SIZE m.publicProblems)).map Problem.columns := by
    rw [List.map_flatMap, Memory.pageNumbers, List.flatMap_map]
    refine List.flatMap_congr fun k hk => ?_
    rw [listed_eq (hasks (k + 1) (List.mem_map_of_mem hk)), m.page_eq]
  rw [hpages]
  constructor
  · intro hperm row hrow
    by_contra hlarge
    have hlast : ∀ row ∈ m.publicProblems, row.problem_id / PAGE_SIZE < m.largestId / PAGE_SIZE + 1 :=
      fun row h => Nat.lt_succ_of_le (Nat.div_le_div_right (Memory.le_largestId (hsub.mem h)))
    have hlength := hperm.length_eq
    rw [List.length_map, List.length_map] at hlength
    exact absurd hlength.symm (Paging.length_flatMap_pageOf (by decide) hnodup hpublic hrow
      (Nat.le_of_not_lt hlarge) hlast).ne
  · intro hsmall
    rw [Paging.flatMap_pageOf (by decide) hnodup hpublic hsmall]

/-- Problems with the given ids, for whom the session `OJ:s` can ask. -/
def Memory.problems (ids : List Nat) : Memory :=
  { Memory.empty with
    redis := Function.update Memory.empty.redis "OJ:s" (some "S")
    problems_cpp := ids.map fun problem_id => ⟨problem_id, toString problem_id, "easy", "1", "64",
      "T", "1", "1"⟩ }

theorem asks_loadProblems {m : Memory} (hsession : m.redis "OJ:s" = some "S") (page : Nat)
    (h : (loadProblems (bytes "session=s") page).request_uri.length < 2147483648) :
    m.Asks (loadProblems (bytes "session=s") page) (beginID page) where
  session := ⟨"OJ:s", "S", by
    show (extractToken (bytes "session=s")).map sessionKey = some "OJ:s"
    decide +kernel, hsession, by decide⟩
  beginID := KVpairs_loadProblems _ page h

/-- Two problems, and one with a larger id that is not public. -/
def Memory.draft : Memory :=
  { Memory.problems [3, 7] with
    problems_cpp := (Memory.problems [3, 7]).problems_cpp ++
      [⟨12, "12", "easy", "1", "64", "T", "0", "1"⟩] }

/-- The second page lists nothing more. -/
theorem listed_once_two : Memory.draft.pageNumbers = [1, 2] ∧
    (Memory.draft.pageNumbers.flatMap fun page =>
      listed .sample (loadProblems (bytes "session=s") page) .draft).Perm
      [["3", "easy", "T"], ["7", "easy", "T"]] := by
  have hasks : ∀ page ∈ Memory.draft.pageNumbers,
      Memory.draft.Asks (loadProblems (bytes "session=s") page) (beginID page) := by
    intro page hpage
    have hpages : page ∈ [1, 2] := hpage
    rw [List.mem_cons, List.mem_singleton] at hpages
    obtain rfl | rfl := hpages
    · exact asks_loadProblems rfl 1 (by decide +kernel)
    · exact asks_loadProblems rfl 2 (by decide +kernel)
  exact ⟨rfl, (listed_once_iff .sample (m := .draft) (by decide) (by decide) hasks).mpr (by decide)⟩

/-- A problem with the id 10 is on the first page and on the second one. -/
theorem problem_listed_twice : ((Memory.problems [10]).problems_cpp.map (·.problem_id)).Nodup ∧
    (∀ row ∈ (Memory.problems [10]).problems_cpp, 0 < row.problem_id) ∧
    (∀ page ∈ (Memory.problems [10]).pageNumbers,
      (Memory.problems [10]).Asks (loadProblems (bytes "session=s") page) (beginID page)) ∧
    ((Memory.problems [10]).pageNumbers.flatMap fun page =>
      listed .sample (loadProblems (bytes "session=s") page) (.problems [10])) =
        [["10", "easy", "T"], ["10", "easy", "T"]] := by
  refine ⟨by decide, by decide, fun page hpage => ?_, by decide +kernel⟩
  have hpages : page ∈ [1, 2] := hpage
  rw [List.mem_cons, List.mem_singleton] at hpages
  obtain rfl | rfl := hpages
  · exact asks_loadProblems rfl 1 (by decide +kernel)
  · exact asks_loadProblems rfl 2 (by decide +kernel)

end OJJudge.Storage
