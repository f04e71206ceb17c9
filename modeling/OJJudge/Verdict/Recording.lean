import OJJudge.Verdict.Steps

/-! The reads behind a recorded row: a poll that records a row has read the counter once and then
every per-test key in order, each of them decided, and `read_sum` and `read_test` give back the
configuration at each of these reads. -/

namespace OJJudge.Verdict

open Concurrency

/-- Every per-test key read in a history was decided. -/
def foundDecided (f : String) (h : List (Event effects)) : Bool :=
  h.all fun
    | ⟨.get key, v⟩ => key = sumKey f || reported v != "0"
    | _ => true

/-! ### The history of a recording poll -/

section History

variable {user_name porblem_title : String} {rows : List (List String)} {w : Option String}
  {vs : List (Option String)} {e : Event effects}

theorem mem_testReads (h : e ∈ testReads f vs) :
    ∃ i v, e = ⟨.get (testKey f i), v⟩ := by
  induction vs with
  | nil => simp [testReads] at h
  | cons v vs ih =>
    simp only [testReads, List.mem_cons] at h
    rcases h with rfl | h
    · exact ⟨_, _, rfl⟩
    · exact ih h

/-- The reads after the first `i` tests are reads of later tests. -/
theorem testReads_append (vs₁ vs₂ : List (Option String)) :
    ∃ later, testReads f (vs₁ ++ vs₂) = later ++ testReads f vs₂ ∧
      ∀ e ∈ later, ∃ j v, vs₂.length ≤ j ∧ e = ⟨.get (testKey f j), v⟩ := by
  induction vs₁ with
  | nil => exact ⟨[], rfl, by simp⟩
  | cons v vs₁ ih =>
    obtain ⟨later, hlater, hall⟩ := ih
    refine ⟨⟨.get (testKey f (vs₁ ++ vs₂).length), v⟩ :: later, by simp [testReads, hlater], ?_⟩
    intro e he
    rcases List.mem_cons.mp he with rfl | he
    · exact ⟨_, v, by simp, rfl⟩
    · exact hall e he

/-- The reads of a poll are `SELECT` and `GET`. -/
theorem op_of_mem_reads (h : e ∈ reads user_name porblem_title rows w vs) :
    e.op = .query (.selectTestNum porblem_title) ∨ ∃ key, e.op = .get key := by
  simp only [reads, List.mem_append, List.mem_cons, List.not_mem_nil, or_false] at h
  obtain h | rfl | rfl := h
  · obtain ⟨i, v, rfl⟩ := mem_testReads h
    exact .inr ⟨_, rfl⟩
  · exact .inr ⟨_, rfl⟩
  · exact .inl rfl

theorem mem_dels {i : Nat} (h : e ∈ dels f i) : ∃ j < i, e = ⟨.del (testKey f j), ()⟩ := by
  induction i with
  | zero => simp [dels] at h
  | succ i ih =>
    simp only [dels, List.mem_cons] at h
    rcases h with rfl | h
    · exact ⟨i, by omega, rfl⟩
    · obtain ⟨j, hj, he⟩ := ih h
      exact ⟨j, by omega, he⟩

theorem foundDecided_reads {rows : List (List String)} {w : Option String}
    {vs : List (Option String)} (h : ∀ v ∈ vs, reported v ≠ "0") :
    foundDecided (fileName user_name porblem_title)
      (reads user_name porblem_title rows w vs) = true := by
  have htests : foundDecided (fileName user_name porblem_title)
      (testReads (fileName user_name porblem_title) vs) = true := by
    induction vs with
    | nil => rfl
    | cons v vs ih =>
      simp only [testReads, foundDecided, List.all_cons, Bool.and_eq_true] at ih ⊢
      exact ⟨by simp [h v (by simp)], ih fun v hv => h v (by simp [hv])⟩
  simp only [foundDecided] at htests
  simp [foundDecided, reads, htests]

/-- A poll reads each per-test key after the ones before it. -/
theorem Polled.of_get {h : List (Event effects)} {i : Nat} {v : Option String}
    (hp : Polled user_name porblem_title n
      (⟨.get (testKey (fileName user_name porblem_title) i), v⟩ :: h)) :
    ∃ rows w vs, vs.length = i ∧ h = reads user_name porblem_title rows w vs := by
  generalize hl : _ :: h = l at hp
  cases hp with
  | start => cases hl
  | asked rows => cases hl
  | reading rows w vs hlen =>
    cases vs with
    | nil => simp [reads, testReads] at hl
    | cons v' vs =>
      simp only [reads, testReads, List.cons_append, List.cons.injEq, Event.mk.injEq] at hl
      obtain ⟨⟨hkey, -⟩, rfl⟩ := hl
      simp only [Op.get.injEq, testKey_inj, true_and] at hkey
      exact ⟨rows, w, vs, hkey.symm, rfl⟩
  | answered rows w vs hlen => cases hl
  | closing rows w vs hlen => cases hl
  | recording rows w vs hlen decided ack i hi =>
    cases i with
    | zero => cases hl
    | succ i => cases hl

/-- A poll records its row right after its answer. -/
theorem Polled.of_insert_cons {h : List (Event effects)} {user_id problem_id res : String}
    {r : List (List String)}
    (hp : Polled user_name porblem_title n
      (⟨.query (.insertSubmission user_id problem_id res), r⟩ :: h)) :
    ∃ rows w vs, vs.length = n ∧ (∀ v ∈ vs, reported v ≠ "0") ∧
      h = ⟨.set_status_code "200", ()⟩ :: ⟨.append_output_body (answer n w vs), ()⟩ ::
        reads user_name porblem_title rows w vs := by
  generalize hl : _ :: h = l at hp
  cases hp with
  | start => cases hl
  | asked rows => cases hl
  | reading rows w vs hlen => cases vs <;> cases hl
  | answered rows w vs hlen => cases hl
  | closing rows w vs hlen => cases hl
  | recording rows w vs hlen decided ack i hi =>
    cases i with
    | zero =>
      cases hl
      exact ⟨rows, w, vs, hlen, decided, rfl⟩
    | succ i => cases hl

/-- A poll that has recorded a row has found every test decided. -/
theorem Polled.of_insert {h : List (Event effects)} (hp : Polled user_name porblem_title n h)
    {user_id problem_id res : String} {r : List (List String)}
    (hm : ⟨.query (.insertSubmission user_id problem_id res), r⟩ ∈ h) :
    user_id = user_name ∧ problem_id = porblem_title ∧ ∃ rows w vs i, vs.length = n ∧
      (∀ v ∈ vs, reported v ≠ "0") ∧ res = result n w ∧
      h = (dels (fileName user_name porblem_title) i ++
        [⟨.query (.insertSubmission user_id problem_id res), r⟩, ⟨.set_status_code "200", ()⟩,
          ⟨.append_output_body (answer n w vs), ()⟩]) ++
        reads user_name porblem_title rows w vs := by
  have hreads : ∀ {rows w vs}, ⟨.query (.insertSubmission user_id problem_id res), r⟩ ∉
      reads user_name porblem_title rows w vs := by
    intro rows w vs hm
    obtain hop | ⟨key, hop⟩ := op_of_mem_reads hm <;> cases hop
  cases hp with
  | start => cases hm
  | asked rows =>
    rw [List.mem_singleton] at hm
    cases hm
  | reading rows w vs hlen => exact absurd hm hreads
  | answered rows w vs hlen =>
    rcases List.mem_cons.mp hm with hm | hm
    · cases hm
    · exact absurd hm hreads
  | closing rows w vs hlen =>
    rcases List.mem_cons.mp hm with hm | hm
    · cases hm
    · rcases List.mem_cons.mp hm with hm | hm
      · cases hm
      · exact absurd hm hreads
  | recording rows w vs hlen decided ack i hi =>
    simp only [List.mem_append, List.mem_cons] at hm
    rcases hm with hm | hm | hm | hm | hm
    · obtain ⟨j, -, he⟩ := mem_dels hm
      cases he
    · cases hm
      exact ⟨rfl, rfl, rows, w, vs, i, hlen, decided, rfl, by simp⟩
    · cases hm
    · cases hm
    · exact absurd hm hreads

end History

/-- A poll that has answered has reported what it read of every test. -/
theorem Polled.of_answer {h : List (Event effects)} (hp : Polled user_name porblem_title n h)
    {body : StateBody} (hm : ⟨.append_output_body body, ()⟩ ∈ h) :
    ∃ rows w vs later, vs.length = n ∧ body = answer n w vs ∧
      h = later ++ reads user_name porblem_title rows w vs ∧
      ∀ e ∈ later, e.op ≠ .query (.selectTestNum porblem_title) := by
  have hreads : ∀ {rows w vs}, ⟨.append_output_body body, ()⟩ ∉
      reads user_name porblem_title rows w vs := by
    intro rows w vs hm
    obtain hop | ⟨key, hop⟩ := op_of_mem_reads hm <;> cases hop
  cases hp with
  | start => cases hm
  | asked rows =>
    rw [List.mem_singleton] at hm
    cases hm
  | reading rows w vs hlen => exact absurd hm hreads
  | answered rows w vs hlen =>
    rcases List.mem_cons.mp hm with hm | hm
    · cases hm
      exact ⟨rows, w, vs, [_], hlen, rfl, rfl, by simp⟩
    · exact absurd hm hreads
  | closing rows w vs hlen =>
    simp only [List.mem_cons, Event.mk.injEq, reduceCtorEq, false_and, false_or] at hm
    rcases hm with hm | hm
    · cases hm.1
      exact ⟨rows, w, vs, [_, _], hlen, rfl, rfl, by simp⟩
    · exact absurd hm hreads
  | recording rows w vs hlen decided ack i hi =>
    have hbody : body = answer n w vs := by
      simp only [List.mem_append, List.mem_cons, Event.mk.injEq, reduceCtorEq, false_and,
        false_or] at hm
      rcases hm with hm | hm | hm
      · obtain ⟨j, -, he⟩ := mem_dels hm
        cases he
      · cases hm.1
        rfl
      · exact absurd hm hreads
    refine ⟨rows, w, vs, dels (fileName user_name porblem_title) i ++ [_, _, _], hlen, hbody,
      by rw [List.append_assoc]; rfl, ?_⟩
    intro e he
    rcases List.mem_append.mp he with he | he
    · obtain ⟨j, -, rfl⟩ := mem_dels he
      simp
    · simp only [List.mem_cons, List.not_mem_nil, or_false] at he
      rcases he with rfl | rfl | rfl <;> simp

/-- A poll records `Pass` only when the counter it read was the number of tests. -/
theorem eq_of_result_pass (h : "Pass" = result n w) : w = some (toString n) := by
  have hw : toString n = w.getD "" := by
    by_contra hne
    rw [result, if_neg hne] at h
    exact absurd h (by decide)
  cases w with
  | none => exact absurd hw (by simp [Nat.repr_ne_empty])
  | some v => exact congrArg some hw.symm

/-! ### The reads of a poll in a run -/

section Run

variable {ok : Config machine → Thread → Prop} {user_name porblem_title : String}
  {body : Nat → Bytes} {m : Memory} {c : Config machine}

/-- The submissions in the trace are those that the condition lets run. -/
theorem only_first
    (h : Reach ok (start user_name porblem_title body m) c)
    (hok : ∀ c k, ok c (.submission k) → k = 0) :
    ∀ e ∈ c.trace, ∀ k, e.1 = .submission k → k = 0 := by
  rintro ⟨t, ⟨o, r⟩⟩ he k rfl
  obtain ⟨later, earlier, htr⟩ := List.append_of_mem he
  obtain ⟨c₀, -, -, -, -, -, -, h₀, -⟩ := h.past rfl htr
  exact hok c₀ k h₀

/-- A recorded row comes from a poll. -/
theorem insert_of_recorded (h : Reach ok (start user_name porblem_title body m) c)
    {row : Submission} (hrow : row ∈ recorded c.trace) :
    ∃ k r, (Thread.poll k,
      ⟨.query (.insertSubmission row.user_id row.problem_id row.result), r⟩) ∈ c.trace := by
  simp only [recorded, List.mem_reverse, List.mem_filterMap] at hrow
  obtain ⟨⟨t, e⟩, he, hrow⟩ := hrow
  obtain ⟨r, rfl⟩ := eq_of_inserted hrow
  cases t with
  | submission k => exact (thread_op h he).elim
  | poll k => exact ⟨k, r, he⟩

variable {k : Nat} {rows : List (List String)} {w v : Option String} {vs : List (Option String)}
  {later : List (Event effects)}

/-- The configuration in which a poll read the counter. -/
theorem read_sum (h : Reach ok (start user_name porblem_title body m) c)
    (he : own (.poll k) c.trace = later ++ reads user_name porblem_title rows w vs) :
    ∃ c₀ l, Reach ok (start user_name porblem_title body m) c₀ ∧
      c₀.mem.redis (sumKey (fileName user_name porblem_title)) = w ∧
      c.trace = l ++
        (.poll k, ⟨.get (sumKey (fileName user_name porblem_title)), w⟩) :: c₀.trace ∧
      own (.poll k) l = later ++ testReads (fileName user_name porblem_title) vs := by
  rw [reads, ← List.append_assoc] at he
  obtain ⟨c₀, next, x, m', l, hr, -, -, -, hx, htr, hl⟩ := h.past_own rfl he
  exact ⟨c₀, l, hr, exec_get hx, htr, hl⟩

/-- The configuration in which a poll read a per-test key. -/
theorem read_test (h : Reach ok (start user_name porblem_title body m) c)
    (he : own (.poll k) c.trace = later ++ reads user_name porblem_title rows w (v :: vs)) :
    ∃ c₀ l, Reach ok (start user_name porblem_title body m) c₀ ∧ ok c₀ (.poll k) ∧
      (c₀.prog (.poll k)).next? = some (.get (testKey (fileName user_name porblem_title) vs.length)) ∧
      own (.poll k) c₀.trace = reads user_name porblem_title rows w vs ∧
      c₀.mem.redis (testKey (fileName user_name porblem_title) vs.length) = v ∧
      c.trace = l ++ (.poll k,
        ⟨.get (testKey (fileName user_name porblem_title) vs.length), v⟩) :: c₀.trace ∧
      own (.poll k) l = later := by
  obtain ⟨c₀, next, x, m', l, hr, hown, hp, hok, hx, htr, hl⟩ := h.past_own rfl he
  exact ⟨c₀, l, hr, hok, by simp [hp], hown, exec_get hx, htr, hl⟩

end Run

end OJJudge.Verdict
