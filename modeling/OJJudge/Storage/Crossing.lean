import OJJudge.Storage.Counting

/-! Uploads whose storage operations run in any order.  A handler writes the counter and the rows of
a problem one after the other, `add_test_out` the counter first and `add_problem` the rows first, so
an upload of a test and a clean-up that cross leave a counter that does not count the rows. -/

namespace OJJudge.Storage

open Concurrency

/-- A read of a key finds nothing once the time limit of the key has passed. -/
def lapses : Op → Bool
  | .get _ => true
  | _ => false

/-- Every upload is about to begin. -/
def startUploads (lib : Library) (uploads : Nat → Upload) (m : Memory) :
    Config (machine lib lapses) where
  prog t := (uploads t).prog
  mem := m
  trace := []

/-! ### The operations on the counter and the rows of a problem -/

section Operations

variable (p : String)

@[simp] def countsCase : Op → Bool
  | .incr key => key = counterKey p
  | _ => false

@[simp] def insertsCase : Op → Bool
  | .query (.insertTestCase problem_id _ _) => problem_id = p
  | _ => false

@[simp] def deletesCases : Op → Bool
  | .query (.deleteTestCases problem_id) => problem_id = p
  | _ => false

@[simp] def deletesCounter : Op → Bool
  | .del key => key = counterKey p
  | _ => false

@[simp] def insertsProblem : Op → Bool
  | .query (.insertProblem title _ _ _ _ _ _) => title = p
  | _ => false

/-- A row is inserted right after it is counted, and the counter is deleted right after the rows are
deleted or the problem is registered. -/
def InOrder (o : Op) (next : Option Op) : Prop :=
  next.any (insertsCase p) = countsCase p o ∧
    next.any (deletesCounter p) = (deletesCases p o || insertsProblem p o) ∧
    ∀ value, o ≠ .set (counterKey p) value

end Operations

theorem checkRole_inOrder {p user : String} {next : Code Unit}
    (hinsert : next.next?.any (insertsCase p) = false)
    (hdelete : next.next?.any (deletesCounter p) = false) (h : next.Follows (InOrder p)) :
    (checkRole user next).Follows (InOrder p) := by
  unfold checkRole
  simp only [effect_eq, Prog.op_bind, Prog.ret_bind, Prog.follows_op]
  intro sql_kv
  split
  · split
    · simp [InOrder]
    · exact ⟨⟨hinsert, hdelete, by simp⟩, h⟩
  · simp [InOrder]

theorem Upload.inOrder (p : String) (upload : Upload) : upload.prog.Follows (InOrder p) := by
  cases upload with
  | testIn user problem_id case_id body =>
    apply checkRole_inOrder
    · rfl
    · rfl
    · simp [storeFile, InOrder, (counterKey_ne_inCaseName p problem_id case_id).symm]
  | testOut user problem_id case_id body =>
    apply checkRole_inOrder
    · rfl
    · rfl
    · simp only [my_sync_check_token, effect_eq, Prog.op_bind, Prog.ret_bind, Prog.pure_eq,
        Prog.follows_op]
      intro value
      split
      · simp [storeFile, InOrder, (counterKey_ne_inCaseName p problem_id case_id).symm]
      · simp [InOrder]
  | problem user params body =>
    apply checkRole_inOrder
    · rfl
    · rfl
    · simp only [my_sync_check_token, effect_eq, Prog.op_bind, Prog.ret_bind, Prog.pure_eq,
        Prog.follows_op]
      intro sql_kv
      split
      · simp [dropCases, InOrder]
      · simp only [Prog.follows_op]
        refine ⟨by simp [InOrder], ?_⟩
        intro value
        split
        · simp [dropCases, InOrder]
        · simp [storeFile, InOrder]

/-! ### What an operation does to the counter and the rows -/

section Effects

variable {lib : Library} {t : Nat} {o : Op} {x : Choice} {m m' : Memory} {r : o.Res} {p : String}

/-- No operation that changes the memory fails. -/
theorem after_of_exec (h : exec lib lapses t o x m = some (r, m')) :
    m' = m.after lib t x.files o := by
  obtain ⟨hfail, -, rfl⟩ | ⟨-, rfl⟩ := exec_cases h
  · unfold lapses at hfail
    split at hfail
    · rfl
    · cases hfail
  · rfl

theorem counter_after (files : String → Option Bytes) (hset : ∀ value, o ≠ .set (counterKey p) value) :
    (m.after lib t files o).redis (counterKey p) =
      if countsCase p o then incrValue (m.redis (counterKey p))
      else if deletesCounter p o then none else m.redis (counterKey p) := by
  cases o
  case set key value =>
    have hkey : counterKey p ≠ key := by
      rintro rfl
      exact hset value rfl
    simp [Memory.after, Memory.setRedis, hkey]
  case incr key =>
    by_cases hkey : key = counterKey p
    · simp [Memory.after, Memory.setRedis, hkey]
    · simp [Memory.after, Memory.setRedis, hkey, Ne.symm hkey]
  case del key =>
    by_cases hkey : key = counterKey p
    · simp [Memory.after, Memory.setRedis, hkey]
    · simp [Memory.after, Memory.setRedis, hkey, Ne.symm hkey]
  case query stmt => cases stmt <;> rfl
  all_goals rfl

theorem length_cases_after (files : String → Option Bytes) :
    ((m.after lib t files o).tables.cases p).length =
      if deletesCases p o then 0
      else if insertsCase p o then (m.tables.cases p).length + 1
      else (m.tables.cases p).length := by
  cases o
  case query stmt =>
    cases stmt
    case deleteTestCases q =>
      show ((m.tables.drop q).cases p).length = _
      rw [Tables.cases_drop]
      by_cases hq : q = p
      · simp [hq]
      · simp [hq, Ne.symm hq]
    case insertTestCase q input output =>
      by_cases hq : q = p
      · simp [Memory.after, Memory.apply, Memory.tables, Tables.cases, List.filter_append, hq]
      · simp [Memory.after, Memory.apply, Memory.tables, Tables.cases, List.filter_append, hq]
    all_goals rfl
  all_goals rfl

theorem registered_after (files : String → Option Bytes) :
    (m.after lib t files o).tables.Registered p ↔
      m.tables.Registered p ∨ insertsProblem p o = true := by
  cases o
  case query stmt =>
    cases stmt
    case insertProblem title difficulty time_limit memory_limit author_id is_public test_num =>
      simp [Memory.after, Memory.apply, Memory.tables, Tables.Registered]
    all_goals simp [Memory.after, Memory.apply, Memory.tables, Tables.Registered]
  all_goals simp [Memory.after, Memory.setRedis, Memory.openFile, Memory.write, Memory.tables,
    Tables.Registered]

end Effects

/-! ### The books of a problem -/

/-- `pending` are the requests that have counted a test and not inserted it, `cleaning` those that
have deleted the rows and not the counter.  While there is no clean-up, the counter counts the rows
and the pending tests. -/
structure Books (counter : Option String) (rows : Nat) (pending cleaning : Finset Nat) : Prop where
  counter : cleaning = ∅ → counter = countValue (rows + pending.card)
  rows : cleaning ≠ ∅ → rows = 0 ∧ pending = ∅

/-- The threads of a kind after a step of thread `t`, which then is of the kind or not. -/
def track (s : Finset Nat) (t : Nat) (now : Bool) : Finset Nat :=
  if now then insert t s else s.erase t

namespace Books

variable {counter : Option String} {rows t : Nat} {pending cleaning : Finset Nat}

theorem incr (h : Books counter rows pending cleaning) (ht : t ∉ pending) (hclean : cleaning = ∅) :
    Books (incrValue counter) rows (track pending t true) (track cleaning t false) := by
  subst hclean
  constructor
  · intro _
    rw [h.counter rfl, incrValue_countValue, track, if_pos rfl, Finset.card_insert_of_notMem ht,
      Nat.add_assoc]
  · simp [track]

theorem insertRow (h : Books counter rows pending cleaning) (ht : t ∈ pending) :
    Books counter (rows + 1) (track pending t false) (track cleaning t false) := by
  have hclean : cleaning = ∅ := by
    by_contra hne
    simp [(h.rows hne).2] at ht
  subst hclean
  constructor
  · intro _
    have hcard := Finset.card_erase_add_one ht
    rw [h.counter rfl, track, if_neg Bool.false_ne_true]
    congr 1
    omega
  · simp [track]

theorem deleteRows (h : pending = ∅) : Books counter 0 (track pending t false)
    (track cleaning t true) := by
  subst h
  exact ⟨fun hempty => absurd hempty (by simp [track]), fun _ => ⟨rfl, by simp [track]⟩⟩

theorem delCounter (h : Books counter rows pending cleaning) (ht : t ∈ cleaning) :
    Books none rows (track pending t false) (track cleaning t false) := by
  obtain ⟨rfl, rfl⟩ := h.rows (Finset.ne_empty_of_mem ht)
  exact ⟨fun _ => by simp [track], fun _ => ⟨rfl, by simp [track]⟩⟩

theorem skip (h : Books counter rows pending cleaning) (hpending : t ∉ pending)
    (hcleaning : t ∉ cleaning) :
    Books counter rows (track pending t false) (track cleaning t false) := by
  simpa [track, Finset.erase_eq_of_notMem, hpending, hcleaning] using h

end Books

/-! ### Uploads and clean-ups that do not cross -/

section Runs

variable {lib : Library} {p : String} {c : Config (machine lib lapses)} {t : Nat}

/-- The next operation of the thread is one of those that `f` describes. -/
def nextIs (c : Config (machine lib lapses)) (f : Op → Bool) (t : Nat) : Bool :=
  (c.prog t).next?.any f

/-- No test of the problem is counted while another request is about to delete the counter, and no
rows of it are deleted while another request is about to insert one. -/
def apart (p : String) (c : Config (machine lib lapses)) (t : Nat) : Prop :=
  (nextIs c (countsCase p) t = true → ∀ u, nextIs c (deletesCounter p) u = false) ∧
    (nextIs c (deletesCases p) t = true → ∀ u, nextIs c (insertsCase p) u = false)

/-- The books of a configuration. -/
structure Balanced (p : String) (c : Config (machine lib lapses)) (pending cleaning : Finset Nat) :
    Prop where
  mem_pending : ∀ t, t ∈ pending ↔ nextIs c (insertsCase p) t = true
  mem_cleaning : ∀ t, t ∈ cleaning ↔ nextIs c (deletesCounter p) t = true
  books : Books (c.mem.redis (counterKey p)) (c.mem.tables.cases p).length pending cleaning

/-- The kinds of operations. -/
theorem op_cases (p : String) (o : Op) :
    o = .incr (counterKey p) ∨ (∃ input output, o = .query (.insertTestCase p input output)) ∨
      o = .query (.deleteTestCases p) ∨ o = .del (counterKey p) ∨
      (countsCase p o = false ∧ insertsCase p o = false ∧ deletesCases p o = false ∧
        deletesCounter p o = false) := by
  cases o
  case query stmt => cases stmt <;> simp [Classical.em]
  all_goals simp [Classical.em]

section Step

variable {o : Op} {k : o.Res → Code Unit} {r : o.Res} {m : Memory}

theorem nextIs_of_prog {f : Op → Bool} (hp : c.prog t = .op o k) : nextIs c f t = f o := by
  rw [nextIs, hp]
  rfl

theorem mem_track {f : Op → Bool} {s : Finset Nat} (h : ∀ u, u ∈ s ↔ nextIs c f u = true) (u : Nat) :
    u ∈ track s t ((k r).next?.any f) ↔ nextIs (c.after t o r k m) f u = true := by
  by_cases hu : u = t
  · subst hu
    rw [nextIs, Config.prog_after_same, track]
    split
    · next hf => simp [hf]
    · next hf => simp [hf]
  · have hs : u ∈ track s t ((k r).next?.any f) ↔ u ∈ s := by
      unfold track
      split
      · simp [hu]
      · simp [hu]
    rw [nextIs, Config.prog_after_ne hu]
    exact hs.trans (h u)

theorem empty_of_nextIs {f : Op → Bool} {s : Finset Nat} (h : ∀ u, u ∈ s ↔ nextIs c f u = true)
    (hnone : ∀ u, nextIs c f u = false) : s = ∅ := by
  apply Finset.eq_empty_of_forall_notMem
  intro u hu
  rw [h u, hnone u] at hu
  cases hu

/-- The step lemma: a step that crosses no other request keeps the books. -/
theorem Balanced.step {pending cleaning : Finset Nat} (h : Balanced p c pending cleaning)
    (hok : apart p c t) (hp : c.prog t = .op o k) (horder : InOrder p o (k r).next?)
    (hproblem : insertsProblem p o = false) (files : String → Option Bytes) :
    Balanced p (c.after t o r k (c.mem.after lib t files o)) (track pending t (countsCase p o))
      (track cleaning t (deletesCases p o)) := by
  obtain ⟨hcounts, hdeletes, hset⟩ := horder
  rw [hproblem, Bool.or_false] at hdeletes
  have htp := h.mem_pending t
  have htc := h.mem_cleaning t
  rw [nextIs_of_prog hp] at htp htc
  refine ⟨hcounts ▸ mem_track h.mem_pending, hdeletes ▸ mem_track h.mem_cleaning, ?_⟩
  rw [Config.mem_after, counter_after files hset, length_cases_after]
  obtain rfl | ⟨input, output, rfl⟩ | rfl | rfl | ⟨hcount, hinsert, hdelete, hclear⟩ := op_cases p o
  · have hclean := empty_of_nextIs h.mem_cleaning (hok.1 (by simp [nextIs_of_prog hp]))
    simpa using h.books.incr (t := t) (by simp [htp]) hclean
  · simpa using h.books.insertRow (t := t) (by simp [htp])
  · simpa using Books.deleteRows (empty_of_nextIs h.mem_pending (hok.2 (by simp [nextIs_of_prog hp])))
  · simpa using h.books.delCounter (t := t) (by simp [htc])
  · rw [hinsert] at htp
    rw [hclear] at htc
    rw [hcount, hinsert, hdelete, hclear]
    exact h.books.skip (by simp [htp]) (by simp [htc])

end Step

theorem Upload.next?_prog (upload : Upload) : ∃ user, upload.prog.next? = some (.query (.selectRole user)) := by
  cases upload with
  | testIn user problem_id case_id body => exact ⟨user, rfl⟩
  | testOut user problem_id case_id body => exact ⟨user, rfl⟩
  | problem user params body => exact ⟨user, rfl⟩

/-- A request that has not begun, or has come to its end, is in the middle of no change. -/
theorem nextIs_of_quiet (upload : Upload) (h : c.prog t = upload.prog ∨ (c.prog t).returned = true) :
    nextIs c (insertsCase p) t = false ∧ nextIs c (deletesCounter p) t = false := by
  unfold nextIs
  obtain h | h := h
  · obtain ⟨user, hnext⟩ := upload.next?_prog
    rw [h, hnext]
    exact ⟨rfl, rfl⟩
  · cases hprog : c.prog t with
    | ret a => exact ⟨rfl, rfl⟩
    | op o k => simp [hprog] at h

variable {uploads : Nat → Upload} {m₀ : Memory}

theorem exists_balanced (hcounter : m₀.redis (counterKey p) = none)
    (hcases : m₀.tables.cases p = []) (h : Reach (apart p) (startUploads lib uploads m₀) c)
    (hp : ¬c.mem.tables.Registered p) : ∃ pending cleaning, Balanced p c pending cleaning := by
  refine h.induct (I := fun c : Config (machine lib lapses) => ¬Tables.Registered c.mem.tables p →
    ∃ pending cleaning, Balanced p c pending cleaning) ?_ ?_ hp
  · intro _
    have hquiet (t : Nat) := nextIs_of_quiet (p := p) (c := startUploads lib uploads m₀) (t := t)
      (uploads t) (.inl rfl)
    refine ⟨∅, ∅, fun t => by simp [(hquiet t).1], fun t => by simp [(hquiet t).2], ?_⟩
    change Books (m₀.redis (counterKey p)) (m₀.tables.cases p).length ∅ ∅
    rw [hcounter, hcases]
    exact ⟨fun _ => rfl, fun _ => ⟨rfl, rfl⟩⟩
  · intro c t x o k r m hr ih hok hprog hexec hp
    have hm : m = c.mem.after lib t x.files o := after_of_exec hexec
    subst hm
    rw [Config.mem_after, registered_after, not_or, Bool.not_eq_true] at hp
    obtain ⟨pending, cleaning, hbalanced⟩ := ih hp.1
    have horder := hr.follows (F := InOrder p) (fun t => (uploads t).inOrder p) t
    rw [hprog] at horder
    exact ⟨_, _, hbalanced.step hok hprog (horder r).1 hp.2 x.files⟩

/-- Once none of the uploads is under way, the counter of a problem that is not registered counts its
rows. -/
theorem counter_counts_rows (hcounter : m₀.redis (counterKey p) = none)
    (hcases : m₀.test_cases.filter (·.problem_id = p) = [])
    (h : Reach (apart p) (startUploads lib uploads m₀) c)
    (hp : ∀ problem ∈ c.mem.problems_cpp, problem.title ≠ p)
    (hquiet : ∀ t, c.prog t = (uploads t).prog ∨ (c.prog t).returned = true) :
    (c.mem.redis (counterKey p)).getD "0" =
      toString (c.mem.test_cases.filter (·.problem_id = p)).length := by
  have hregistered : ¬c.mem.tables.Registered p := by
    rintro ⟨problem, hmem, htitle⟩
    exact hp problem hmem htitle
  obtain ⟨pending, cleaning, hbalanced⟩ := exists_balanced hcounter hcases h hregistered
  have hpending := empty_of_nextIs hbalanced.mem_pending fun t => (nextIs_of_quiet _ (hquiet t)).1
  have hcleaning := empty_of_nextIs hbalanced.mem_cleaning fun t => (nextIs_of_quiet _ (hquiet t)).2
  rw [hbalanced.books.counter hcleaning, hpending, countValue_getD]
  rfl

end Runs

/-! ### One upload and one clean-up -/

/-- The upload of a test next to a request that is refused, since the problem is to have two. -/
def crossingUploads : Nat → Upload
  | 0 => .testOut "T" "p1" "1" []
  | _ => .problem "T" (sampleParams "2") []

/-- A test of the problem has been announced. -/
def announced : Memory := (Memory.account "T" "teacher").setRedis (inCaseName "p1" "1") (some "1")

/-- Only two threads run, and no test is counted while a clean-up of the two is at work. -/
def twoApart (p : String) (c : Config (machine .sample lapses)) (t : Nat) : Prop :=
  t < 2 ∧ (nextIs c (countsCase p) t = true → ∀ u < 2, nextIs c (deletesCounter p) u = false) ∧
    (nextIs c (deletesCases p) t = true → ∀ u < 2, nextIs c (insertsCase p) u = false)

instance (p : String) (c : Config (machine .sample lapses)) (t : Nat) :
    Decidable (twoApart p c t) :=
  inferInstanceAs (Decidable (_ ∧ _ ∧ _))

/-- Threads that do not run are in the middle of no change. -/
theorem apart_of_twoApart {p : String} {uploads : Nat → Upload} {m : Memory}
    {c : Config (machine .sample lapses)}
    (h : Reach (twoApart p) (startUploads .sample uploads m) c) :
    Reach (apart p) (startUploads .sample uploads m) c := by
  refine h.weaken fun c t hr hok => ?_
  have hidle (u : Nat) (hu : ¬u < 2) := nextIs_of_quiet (p := p) (c := c) (t := u)
    (uploads u) (.inl (hr.prog_eq fun _ hok => hu hok.1))
  constructor
  · intro ht u
    by_cases hu : u < 2
    · exact hok.2.1 ht u hu
    · exact (hidle u hu).2
  · intro ht u
    by_cases hu : u < 2
    · exact hok.2.2 ht u hu
    · exact (hidle u hu).1

/-- What an observer sees of the two requests and of the problem. -/
def books (p : String) (c : Config (machine .sample lapses)) :
    Bool × Bool × List String × Option String × Nat :=
  ((c.prog 0).returned, (c.prog 1).returned, c.mem.problems_cpp.map (·.title),
    c.mem.redis (counterKey p), (c.mem.test_cases.filter (·.problem_id = p)).length)

/-- Both requests have come to their end, and the others have not begun. -/
theorem quiet_of_returned {ok : Config (machine .sample lapses) → Nat → Prop}
    {uploads : Nat → Upload} {m : Memory} {c : Config (machine .sample lapses)}
    (h : Reach ok (startUploads .sample uploads m) c) (hok : ∀ c t, ok c t → t < 2)
    (h0 : (c.prog 0).returned = true) (h1 : (c.prog 1).returned = true) (t : Nat) :
    c.prog t = (uploads t).prog ∨ (c.prog t).returned = true := by
  by_cases ht : t < 2
  · interval_cases t
    · exact .inr h0
    · exact .inr h1
  · exact .inl (h.prog_eq fun c hc => ht (hok c t hc))

theorem counter_counts_rows_p1 : ∃ c : Config (machine .sample lapses),
    c.mem.redis (counterKey "p1") = some "1" ∧
      (c.mem.redis (counterKey "p1")).getD "0" =
        toString (c.mem.test_cases.filter (·.problem_id = "p1")).length := by
  obtain ⟨c, hc, hv⟩ := Config.exists_reach (twoApart "p1")
    (startUploads .sample crossingUploads announced)
    (List.replicate 7 (1, .quiet) ++ List.replicate 9 (0, .quiet)) (books "p1")
    (true, true, [], some "1", 1) (by decide +kernel)
  simp only [books, Prod.mk.injEq, List.map_eq_nil_iff] at hv
  obtain ⟨h0, h1, hproblems, hcounter, -⟩ := hv
  refine ⟨c, hcounter, counter_counts_rows ?_ rfl
    (apart_of_twoApart hc) ?_ (quiet_of_returned hc (fun _ _ hok => hok.1) h0 h1)⟩
  · decide
  · rw [hproblems]
    exact fun problem hmem => absurd hmem List.not_mem_nil

/-- A clean-up that crosses an upload: the row is inserted after the rows are deleted, and the counter
that counts it is deleted. -/
theorem crossing_loses_count : ∃ c : Config (machine .sample lapses),
    Reach anyOrder (startUploads .sample crossingUploads announced) c ∧
      announced.redis (counterKey "p1") = none ∧ announced.test_cases = [] ∧
      (∀ t, c.prog t = (crossingUploads t).prog ∨ (c.prog t).returned = true) ∧
      c.mem.problems_cpp = [] ∧ c.mem.redis (counterKey "p1") = none ∧
      (c.mem.test_cases.filter (·.problem_id = "p1")).length = 1 := by
  obtain ⟨c, hc, hv⟩ := Config.exists_reach (fun _ t => t < 2)
    (startUploads .sample crossingUploads announced)
    (List.replicate 7 (0, .quiet) ++ List.replicate 6 (1, .quiet) ++ List.replicate 2 (0, .quiet) ++
      [(1, .quiet)]) (books "p1")
    (true, true, [], none, 1) (by decide +kernel)
  simp only [books, Prod.mk.injEq, List.map_eq_nil_iff] at hv
  obtain ⟨h0, h1, hproblems, hcounter, hrows⟩ := hv
  exact ⟨c, hc.weaken fun _ _ _ _ => trivial, by decide, rfl,
    quiet_of_returned hc (fun _ _ hok => hok) h0 h1, hproblems, hcounter, hrows⟩

end OJJudge.Storage
