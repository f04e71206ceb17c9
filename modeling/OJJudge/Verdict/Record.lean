import OJJudge.Verdict.Recording

/-! The number of rows recorded for one judged submission.  A poll records before it deletes the
per-test keys, so polls that read the last key before its deletion all record.  When no poll reads
it then, one row is recorded at most. -/

namespace OJJudge.Verdict

open Concurrency

/-- The history has found all `n` tests decided. -/
def foundAll (f : String) (n : Nat) (h : List (Event effects)) : Bool :=
  foundDecided f h && h.any (·.op = .get (testKey f (n - 1)))

/-- The submission runs only from an absent last key, whose value at the start is `v`.  A poll that
has found the earlier tests decided finds the last one decided only when every poll that has found
all tests decided has deleted that key. -/
def recordsAlone (f : String) (n : Nat) (v : Option String) : Config machine → Thread → Prop
  | _, .submission k => k = 0 ∧ v = none
  | c, .poll p =>
    (c.prog (.poll p)).next? = some (.get (testKey f (n - 1))) →
    reported (c.mem.redis (testKey f (n - 1))) ≠ "0" →
    foundDecided f (own (.poll p) c.trace) →
    ∀ e ∈ c.trace, foundAll f n (own e.1 c.trace) →
      (own e.1 c.trace).any (·.op = .del (testKey f (n - 1)))

instance (f : String) (n : Nat) (v : Option String) : ∀ c t, Decidable (recordsAlone f n v c t)
  | _, .submission k => inferInstanceAs (Decidable (k = 0 ∧ v = none))
  | c, .poll p => by unfold recordsAlone; infer_instance

/-- At most one poll finds all tests decided and records a row, and the last key is gone when that
poll has deleted it. -/
structure Single (f : String) (n : Nat) (v : Option String) (c : Config machine) : Prop where
  alone : ∀ j k, foundAll f n (own (.poll j) c.trace) → foundAll f n (own (.poll k) c.trace) → j = k
  judged : ∀ k, foundAll f n (own (.poll k) c.trace) → v ≠ none ∨
    ∃ j value, .wrote (testKey f (n - 1)) value ∈ marks f (own (.submission j) c.trace)
  deleted : ∀ k, foundAll f n (own (.poll k) c.trace) →
    (own (.poll k) c.trace).any (·.op = .del (testKey f (n - 1))) →
    c.mem.redis (testKey f (n - 1)) = none
  rows : recorded c.trace = [] ∨ (recorded c.trace).length = 1 ∧
    ∃ k, ∃ e ∈ own (.poll k) c.trace, (inserted e).isSome

variable {user_name porblem_title : String} {body : Nat → Bytes} {m : Memory} {c : Config machine}
  {n : Nat}

theorem foundAll_reads (later : List (Event effects)) {rows : List (List String)}
    {w : Option String} {vs : List (Option String)} (hn : 0 < n) (hlen : vs.length = n)
    (decided : ∀ v ∈ vs, reported v ≠ "0") (hlater : ∀ e ∈ later, ∀ key, e.op ≠ .get key) :
    foundAll (fileName user_name porblem_title) n
      (later ++ reads user_name porblem_title rows w vs) = true := by
  have hquiet : foundDecided (fileName user_name porblem_title) later = true := by
    refine List.all_eq_true.mpr fun e he => ?_
    split
    · next key v => exact absurd rfl (hlater _ he key)
    · rfl
  have hread : foundDecided (fileName user_name porblem_title)
      (reads user_name porblem_title rows w vs) = true := foundDecided_reads decided
  obtain ⟨v, vs, rfl⟩ := List.exists_cons_of_length_pos (show 0 < vs.length by omega)
  have hlast : vs.length = n - 1 := by simp at hlen; omega
  simp only [foundDecided] at hquiet hread
  simp only [foundAll, foundDecided, List.all_append, hquiet, hread, Bool.true_and]
  simp [reads, testReads, hlast]

/-- A step of the submission keeps the last key once a poll has found it decided. -/
theorem Single.submission_step {j : Nat} {x : Int} {o : effects.Op}
    {k : effects.Res o → Prog effects Unit} {r : effects.Res o} {m' : Memory}
    (tests : m.HasTests porblem_title n)
    (h : Reach (recordsAlone (fileName user_name porblem_title) n
        (m.redis (testKey (fileName user_name porblem_title) (n - 1))))
      (start user_name porblem_title body m) c)
    (hs : Single (fileName user_name porblem_title) n
      (m.redis (testKey (fileName user_name porblem_title) (n - 1))) c)
    (hok : recordsAlone (fileName user_name porblem_title) n
      (m.redis (testKey (fileName user_name porblem_title) (n - 1))) c (.submission j))
    (hp : c.prog (.submission j) = .op o k)
    (he : machine.exec (.submission j) o x c.mem = some (r, m')) :
    Single (fileName user_name porblem_title) n
      (m.redis (testKey (fileName user_name porblem_title) (n - 1)))
      (c.after (.submission j) o r k m') := by
  have hkey := (judgeKey_ne_testKey (fileName user_name porblem_title) (n - 1)).symm
  have hown : ∀ i, own (.poll i) (c.after (.submission j) o r k m').trace =
      own (.poll i) c.trace := fun i => own_cons_ne (by simp) _ _
  have hrecorded : recorded (c.after (.submission j) o r k m').trace = recorded c.trace := by
    have hop := thread_op (h.next hok hp he) (t := .submission j) (e := ⟨o, r⟩) (by simp)
    cases hins : inserted ⟨o, r⟩ with
    | none => simp [recorded, hins]
    | some row =>
      obtain ⟨ack, heq⟩ := eq_of_inserted hins
      cases heq
      exact hop.elim
  constructor
  · simpa only [hown] using hs.alone
  · intro i hi
    rw [hown] at hi
    obtain hv | ⟨j', value, hmem⟩ := hs.judged i hi
    · exact .inl hv
    · exact .inr ⟨j', value, marks_own_mono _ hmem⟩
  · intro i hi hdel
    rw [hown] at hi hdel
    rw [Config.mem_after]
    obtain hmk | ⟨j', mk, hj', hmk, hstep⟩ | ⟨j', i', hj', -⟩ := step_mark tests h hok hp he
    · rw [exec_redis_quiet hkey hmk he]
      exact hs.deleted i hi hdel
    · cases hj'
      rw [exec_redis_mark hkey hmk he]
      obtain ⟨value, rfl⟩ | hkeeps := hstep.after_testKey (n - 1)
      · -- The job has set the last key already.
        obtain hv | ⟨j', value', hmem⟩ := hs.judged i hi
        · exact absurd hok.2 hv
        · obtain ⟨e, he, het, -⟩ := mem_of_wrote hmem
          have hj : j' = j := (only_first h (fun _ _ hk => hk.1) e he j' het).trans hok.1.symm
          subst hj
          exact absurd hmem (hstep.not_wrote value')
      · rw [hkeeps]
        exact hs.deleted i hi hdel
    · cases hj'
  · simpa only [hown, hrecorded] using hs.rows

/-- A poll that has recorded a row has found all tests decided. -/
theorem foundAll_of_inserted {h : List (Event effects)} (hn : 0 < n)
    (hp : Polled user_name porblem_title n h) {e : Event effects} (he : e ∈ h)
    (hrow : (inserted e).isSome) : foundAll (fileName user_name porblem_title) n h := by
  obtain ⟨row, hrow⟩ := Option.isSome_iff_exists.mp hrow
  obtain ⟨ack, rfl⟩ := eq_of_inserted hrow
  obtain ⟨-, -, rows, w, vs, i, hlen, decided, -, rfl⟩ := hp.of_insert he
  refine foundAll_reads _ hn hlen decided fun e he key => ?_
  simp only [List.mem_append, List.mem_cons, List.not_mem_nil, or_false] at he
  obtain he | rfl | rfl | rfl := he
  · obtain ⟨j, -, rfl⟩ := mem_dels he
    simp
  all_goals simp

section PollStep

variable {p : Nat} {x : Int} {o : effects.Op} {k : effects.Res o → Prog effects Unit}
  {r : effects.Res o} {m' : Memory} (tests : m.HasTests porblem_title n)
  (h : Reach (recordsAlone (fileName user_name porblem_title) n
      (m.redis (testKey (fileName user_name porblem_title) (n - 1))))
    (start user_name porblem_title body m) c)
  (hs : Single (fileName user_name porblem_title) n
    (m.redis (testKey (fileName user_name porblem_title) (n - 1))) c)
  (hok : recordsAlone (fileName user_name porblem_title) n
    (m.redis (testKey (fileName user_name porblem_title) (n - 1))) c (.poll p))
  (hp : c.prog (.poll p) = .op o k) (he : machine.exec (.poll p) o x c.mem = some (r, m'))

include tests h hok hp he

/-- A poll does not set the last key. -/
theorem poll_keeps_absent
    (hnone : c.mem.redis (testKey (fileName user_name porblem_title) (n - 1)) = none) :
    m'.redis (testKey (fileName user_name porblem_title) (n - 1)) = none := by
  have hkey := (judgeKey_ne_testKey (fileName user_name porblem_title) (n - 1)).symm
  obtain hmk | ⟨j, mk, hj, -⟩ | ⟨j, i, -, hmk⟩ := step_mark tests h hok hp he
  · rw [exec_redis_quiet hkey hmk he, hnone]
  · cases hj
  · simp [exec_redis_mark hkey hmk he, Mark.after, hnone]

include hs

/-- The read that finds all tests decided is the first one of its kind. -/
theorem Single.poll_found {i : Nat} (hi : foundAll (fileName user_name porblem_title) n
      (own (.poll i) (c.after (.poll p) o r k m').trace)) :
    foundAll (fileName user_name porblem_title) n (own (.poll i) c.trace) ∨
      (i = p ∧ (∀ j, ¬foundAll (fileName user_name porblem_title) n (own (.poll j) c.trace)) ∧
        c.mem.redis (testKey (fileName user_name porblem_title) (n - 1)) ≠ none ∧
        ¬(own (.poll i) (c.after (.poll p) o r k m').trace).any
          (·.op = .del (testKey (fileName user_name porblem_title) (n - 1)))) := by
  have hpolled := poll_history tests (h.next hok hp he) p
  have hself : own (.poll p) (c.after (.poll p) o r k m').trace =
      ⟨o, r⟩ :: own (.poll p) c.trace := own_cons_same _ _ _
  rw [hself] at hpolled
  by_cases hip : i = p
  · subst hip
    rw [hself, foundAll, Bool.and_eq_true, List.any_cons, Bool.or_eq_true] at hi
    obtain ⟨hdec, hop | hany⟩ := hi
    · right
      simp only [decide_eq_true_eq] at hop
      subst hop
      have hv := exec_get he
      obtain ⟨rows, w, vs, hlen, hreads⟩ := hpolled.of_get
      simp only [foundDecided, List.all_cons, Bool.and_eq_true, Bool.or_eq_true,
        decide_eq_true_eq, testKey_ne_sumKey, false_or, bne_iff_ne] at hdec
      have halone := hok (by simp [hp]) (hv ▸ hdec.1) hdec.2
      have hset : c.mem.redis (testKey (fileName user_name porblem_title) (n - 1)) ≠ none := by
        intro hnone
        rw [← hv, hnone] at hdec
        exact hdec.1 rfl
      refine ⟨rfl, fun j hj => hset (hs.deleted j hj ?_), hset, ?_⟩
      · obtain ⟨e, hmem, -⟩ := List.any_eq_true.mp (Bool.and_eq_true_iff.mp hj).2
        exact halone _ (mem_own.mp hmem) hj
      · rw [hself, hreads, List.any_eq_true]
        rintro ⟨e, hmem, hop⟩
        simp only [decide_eq_true_eq] at hop
        rcases List.mem_cons.mp hmem with rfl | hmem
        · cases hop
        · obtain h' | ⟨key, h'⟩ := op_of_mem_reads hmem <;> cases h'.symm.trans hop
    · left
      simp only [foundDecided, List.all_cons, Bool.and_eq_true] at hdec
      rw [foundAll, Bool.and_eq_true]
      exact ⟨hdec.2, hany⟩
  · rw [Config.trace_after, own_cons_ne (by simpa using Ne.symm hip)] at hi
    exact .inl hi

/-- A poll that records a row finds no row recorded. -/
theorem Single.poll_rows (hn : 0 < n) : recorded (c.after (.poll p) o r k m').trace = [] ∨
    (recorded (c.after (.poll p) o r k m').trace).length = 1 ∧
      ∃ i, ∃ e ∈ own (.poll i) (c.after (.poll p) o r k m').trace, (inserted e).isSome := by
  cases hins : inserted ⟨o, r⟩ with
  | none =>
    have hsame : Verdict.recorded (c.after (.poll p) o r k m').trace =
        Verdict.recorded c.trace := by
      simp [Verdict.recorded, hins]
    rw [hsame]
    refine hs.rows.imp id ?_
    rintro ⟨hlen, i, e, hmem, hrow⟩
    refine ⟨hlen, i, e, ?_, hrow⟩
    rw [mem_own] at hmem ⊢
    exact List.mem_cons_of_mem _ hmem
  | some row =>
    have hpolled := poll_history tests (h.next hok hp he) p
    rw [Config.trace_after, own_cons_same] at hpolled
    obtain ⟨ack, heq⟩ := eq_of_inserted hins
    cases heq
    obtain ⟨rows, w, vs, hlen, decided, hown⟩ := hpolled.of_insert_cons
    have hfound : foundAll (fileName user_name porblem_title) n (own (.poll p) c.trace) := by
      rw [hown]
      exact foundAll_reads [_, _] hn hlen decided (by simp)
    have hempty : Verdict.recorded c.trace = [] := by
      refine hs.rows.resolve_right ?_
      rintro ⟨-, i, e, hmem, hrow⟩
      have hi := foundAll_of_inserted hn (poll_history tests h i) hmem hrow
      obtain rfl := hs.alone i p hi hfound
      rw [hown] at hmem
      obtain ⟨row', hrow⟩ := Option.isSome_iff_exists.mp hrow
      obtain ⟨ack', rfl⟩ := eq_of_inserted hrow
      simp only [List.mem_cons, Event.mk.injEq, reduceCtorEq, false_and, false_or] at hmem
      obtain hop | ⟨key, hop⟩ := op_of_mem_reads hmem <;> cases hop
    refine .inr ⟨?_, p, _, mem_own.mpr (List.mem_cons_self ..), by simp [hins]⟩
    simp [Verdict.recorded, hins] at hempty ⊢
    simpa using hempty

/-- A step of a poll. -/
theorem Single.poll_step (hn : 0 < n) : Single (fileName user_name porblem_title) n
    (m.redis (testKey (fileName user_name porblem_title) (n - 1)))
    (c.after (.poll p) o r k m') := by
  have hfirst := fun i => hs.poll_found tests h hok hp he (i := i)
  have hgone := poll_keeps_absent tests h hok hp he
  constructor
  · intro i j hi hj
    obtain hi₀ | ⟨rfl, hnone, -⟩ := hfirst i hi
    · obtain hj₀ | ⟨-, hnone, -⟩ := hfirst j hj
      · exact hs.alone i j hi₀ hj₀
      · exact absurd hi₀ (hnone i)
    · obtain hj₀ | ⟨rfl, -⟩ := hfirst j hj
      · exact absurd hj₀ (hnone j)
      · rfl
  · intro i hi
    have hset : m.redis (testKey (fileName user_name porblem_title) (n - 1)) ≠ none ∨
        ∃ j value, .wrote (testKey (fileName user_name porblem_title) (n - 1)) value ∈
          marks (fileName user_name porblem_title) (own (.submission j) c.trace) := by
      obtain hi₀ | ⟨-, -, hne, -⟩ := hfirst i hi
      · exact hs.judged i hi₀
      · exact wrote_of_redis tests h hne
    refine hset.imp id ?_
    rintro ⟨j, value, hmem⟩
    exact ⟨j, value, marks_own_mono _ hmem⟩
  · intro i hi hdel
    obtain hi₀ | ⟨-, -, -, hnodel⟩ := hfirst i hi
    · by_cases hip : i = p
      · subst hip
        rw [Config.trace_after, own_cons_same, List.any_cons, Bool.or_eq_true] at hdel
        obtain hop | hdel := hdel
        · simp only [decide_eq_true_eq] at hop
          subst hop
          cases he
          simp [Memory.setRedis]
        · exact hgone (hs.deleted i hi₀ hdel)
      · rw [Config.trace_after, own_cons_ne (by simpa using Ne.symm hip)] at hdel
        exact hgone (hs.deleted i hi₀ hdel)
    · exact absurd hdel hnodel
  · exact hs.poll_rows tests h hok hp he hn

end PollStep

theorem single (hn : 0 < n) (tests : m.HasTests porblem_title n)
    (h : Reach (recordsAlone (fileName user_name porblem_title) n
        (m.redis (testKey (fileName user_name porblem_title) (n - 1))))
      (start user_name porblem_title body m) c) :
    Single (fileName user_name porblem_title) n
      (m.redis (testKey (fileName user_name porblem_title) (n - 1))) c := by
  refine h.induct ?_ ?_
  · have hnone : ∀ i, ¬foundAll (fileName user_name porblem_title) n
        (own (.poll i) (start user_name porblem_title body m).trace) := by
      simp [start, foundAll]
    exact ⟨fun i _ hi => absurd hi (hnone i), fun i hi => absurd hi (hnone i),
      fun i hi => absurd hi (hnone i), .inl rfl⟩
  · intro c t x o k r m' hr ih hok hp he
    cases t with
    | submission j => exact ih.submission_step tests hr hok hp he
    | poll p => exact ih.poll_step tests hr hok hp he hn

/-- At most one row is recorded for a judged submission. -/
theorem one_record (hn : 0 < n) (tests : m.HasTests porblem_title n)
    (h : Reach (recordsAlone (fileName user_name porblem_title) n
        (m.redis (testKey (fileName user_name porblem_title) (n - 1))))
      (start user_name porblem_title body m) c) :
    c.mem.submissions.length ≤ m.submissions.length + 1 := by
  have hrows := (single hn tests h).rows
  rw [reach_submissions h, List.length_append]
  obtain hempty | ⟨hlen, -⟩ := hrows
  · simp [hempty]
  · omega

/-- Two polls of one judged test, the second after the first has deleted the key. -/
theorem one_record_two_polls :
    ∃ c, Reach (recordsAlone (fileName "u" "p") 1
          ((Memory.ofProblem "p" [("1.in", "1.out")]).redis (testKey (fileName "u" "p") (1 - 1))))
        (start "u" "p" (fun _ => []) (Memory.ofProblem "p" [("1.in", "1.out")])) c ∧
      c.mem.submissions = [⟨"u", "p", "Pass"⟩] ∧
      c.mem.submissions.length ≤
        (Memory.ofProblem "p" [("1.in", "1.out")]).submissions.length + 1 := by
  obtain ⟨c, hc, hrow⟩ := Config.exists_reach (recordsAlone (fileName "u" "p") 1
      ((Memory.ofProblem "p" [("1.in", "1.out")]).redis (testKey (fileName "u" "p") (1 - 1))))
    (start "u" "p" (fun _ => []) (Memory.ofProblem "p" [("1.in", "1.out")]))
    (turns (.submission 0) 21 0 ++ turns (.submission 0) 1 1 ++ turns (.submission 0) 5 0 ++
      turns (.poll 0) 7 0 ++ turns (.poll 1) 5 0)
    (fun c => c.mem.submissions) [⟨"u", "p", "Pass"⟩] (by decide +kernel)
  exact ⟨c, hc, hrow, one_record Nat.one_pos (Memory.hasTests_ofProblem _ _) hc⟩

/-- Two polls of one judged test both read its key before one of them deletes it. -/
theorem two_records :
    ∃ c, Reach oneSubmission
        (start "u" "p" (fun _ => []) (Memory.ofProblem "p" [("1.in", "1.out")])) c ∧
      c.mem.submissions = [⟨"u", "p", "Pass"⟩, ⟨"u", "p", "Pass"⟩] :=
  Config.exists_reach oneSubmission
    (start "u" "p" (fun _ => []) (Memory.ofProblem "p" [("1.in", "1.out")]))
    (turns (.submission 0) 21 0 ++ turns (.submission 0) 1 1 ++ turns (.submission 0) 5 0 ++
      turns (.poll 0) 3 0 ++ turns (.poll 1) 3 0 ++ turns (.poll 0) 4 0 ++ turns (.poll 1) 4 0)
    (fun c => c.mem.submissions) _ (by decide +kernel)

end OJJudge.Verdict
