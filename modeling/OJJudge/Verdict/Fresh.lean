import OJJudge.Verdict.Recording

/-! Polls while a job is judging.  `runCpp` resets the counter only, so the per-test keys of an
earlier job answer for the new one until it sets them.  A poll that started meanwhile finds some
test undecided when it reads a key that was absent at the reset before any job sets it. -/

namespace OJJudge.Verdict

open Concurrency

/-- The marks of a job that has finished its last test or has given up with an error code. -/
def Finished (f : String) (n : Nat) (ms : List Mark) : Prop :=
  (ms = judged f (codes ms) ∧ (codes ms).length = n) ∨
    ms = [.wrote (sumKey f) "-2", .wrote (sumKey f) "0"] ∨
    ms = [.wrote (sumKey f) "-3", .wrote (sumKey f) "0"]

instance (f : String) (n : Nat) (ms : List Mark) : Decidable (Finished f n ms) := by
  unfold Finished
  infer_instance

/-- The trace before poll `p` started. -/
def begun (porblem_title : String) (p : Nat) (trace : List (Thread × Event effects)) :
    List (Thread × Event effects) :=
  beforeLast (.poll p) (Op.query (.selectTestNum porblem_title)) trace

/-- `key`, with value `v` at the start, was absent when thread `t` last reset the counter, and has
not been set since. -/
def unset (f key : String) (v : Option String) (t : Thread) : List (Thread × Event effects) → Bool
  | [] => false
  | (u, e) :: earlier =>
    if u = t ∧ e.op = .set (sumKey f) "0" then
      value key v (marks f (earlier.map Prod.snd)) = none
    else
      match e.op with
      | .set k _ => k ≠ key && unset f key v t earlier
      | _ => unset f key v t earlier

/-- The trace in which poll `p`, about to read the last key, reads or has read the key of test `i`. -/
def whenRead (f : String) (n p i : Nat) (trace : List (Thread × Event effects)) :
    List (Thread × Event effects) :=
  if i = n - 1 then trace else beforeLast (.poll p) (Op.get (testKey f i)) trace

/-- When a poll that started while a job was judging reads the last key, it has read or reads now
the key of some test that was absent at the job's reset and that no job had set since. -/
def readsUnset (f porblem_title : String) (n : Nat) (v : String → Option String)
    (c : Config machine) : Thread → Prop
  | .submission _ => True
  | .poll p => (c.prog (.poll p)).next? = some (.get (testKey f (n - 1))) →
    ∀ e ∈ begun porblem_title p c.trace, e.2.op = .set (sumKey f) "0" →
      ¬Finished f n (marks f (own e.1 (begun porblem_title p c.trace))) →
      ∃ i ∈ List.range n,
        unset f (testKey f i) (v (testKey f i)) e.1 (whenRead f n p i c.trace)

instance (f porblem_title : String) (n : Nat) (v : String → Option String) (c : Config machine) :
    ∀ t, Decidable (readsUnset f porblem_title n v c t)
  | .submission _ => inferInstanceAs (Decidable True)
  | .poll p => by unfold readsUnset; infer_instance

section Run

variable {ok : Config machine → Thread → Prop} {user_name porblem_title : String}
  {body : Nat → Bytes} {m : Memory} {c : Config machine} {n : Nat}

/-- A key that was absent at a reset and has not been set since is absent. -/
theorem absent_of_unset (tests : m.HasTests porblem_title n)
    (h : Reach ok (start user_name porblem_title body m) c) {i : Nat} {t : Thread}
    (hunset : unset (fileName user_name porblem_title)
      (testKey (fileName user_name porblem_title) i)
      (m.redis (testKey (fileName user_name porblem_title) i)) t c.trace) :
    c.mem.redis (testKey (fileName user_name porblem_title) i) = none := by
  have hkey := (judgeKey_ne_testKey (fileName user_name porblem_title) i).symm
  refine h.induct (I := fun c : Config machine => unset (fileName user_name porblem_title)
      (testKey (fileName user_name porblem_title) i)
      (m.redis (testKey (fileName user_name porblem_title) i)) t c.trace →
    c.mem.redis (testKey (fileName user_name porblem_title) i) = none) (by simp [start, unset]) ?_
    hunset
  intro c u x o k r m' hr ih hok hp he hunset
  rw [Config.trace_after, unset] at hunset
  split at hunset
  · next hreset =>
    obtain ⟨-, hop⟩ := hreset
    dsimp only at hop
    subst hop
    rw [decide_eq_true_eq, ← reach_redis hr hkey] at hunset
    cases he
    simpa [Memory.setRedis, Function.update_of_ne] using hunset
  · have hboth : unset (fileName user_name porblem_title)
        (testKey (fileName user_name porblem_title) i)
        (m.redis (testKey (fileName user_name porblem_title) i)) t c.trace = true ∧
        ∀ value, o ≠ .set (testKey (fileName user_name porblem_title) i) value := by
      split at hunset
      · next key value hop =>
        dsimp only at hop
        subst hop
        simp only [Bool.and_eq_true, decide_eq_true_eq] at hunset
        exact ⟨hunset.2, fun value h => hunset.1 (by cases h; rfl)⟩
      · next hop => exact ⟨hunset, hop _⟩
    have hnone := ih hboth.1
    rw [Config.mem_after]
    obtain hmk | ⟨j, mk, -, hmk, hstep⟩ | ⟨j, i', -, hmk⟩ := step_mark tests hr hok hp he
    · rw [exec_redis_quiet hkey hmk he, hnone]
    · rw [exec_redis_mark hkey hmk he]
      obtain ⟨value, rfl⟩ | hkeeps := hstep.after_testKey i
      · exact absurd (op_of_wrote hmk) (hboth.2 value)
      · rw [hkeeps, hnone]
    · simp [exec_redis_mark hkey hmk he, Mark.after, hnone]

/-- A position of a list counted from its end. -/
theorem exists_append_cons_of_lt {α : Type} {l : List α} {i : Nat} (h : i < l.length) :
    ∃ l₁ a l₂, l = l₁ ++ a :: l₂ ∧ l₂.length = i := by
  have hdrop : l.drop (l.length - 1 - i) ≠ [] := by
    rw [ne_eq, List.drop_eq_nil_iff]
    omega
  obtain ⟨a, l₂, hl⟩ := List.exists_cons_of_ne_nil hdrop
  refine ⟨l.take (l.length - 1 - i), a, l₂, by rw [← hl, List.take_append_drop], ?_⟩
  have hlen := congrArg List.length hl
  simp only [List.length_drop, List.length_cons] at hlen
  omega

/-- A poll that started while a job was judging finds some test undecided. -/
theorem undecided_read (hn : 0 < n) (tests : m.HasTests porblem_title n)
    (h : Reach (readsUnset (fileName user_name porblem_title) porblem_title n m.redis)
      (start user_name porblem_title body m) c) {p k : Nat}
    (hreset : .wrote (sumKey (fileName user_name porblem_title)) "0" ∈
      marks (fileName user_name porblem_title)
        (own (.submission k) (begun porblem_title p c.trace)))
    (hjudging : ¬Finished (fileName user_name porblem_title) n
      (marks (fileName user_name porblem_title)
        (own (.submission k) (begun porblem_title p c.trace))))
    {rows : List (List String)} {w : Option String} {vs : List (Option String)}
    {later : List (Event effects)} (hlen : vs.length = n)
    (hown : own (.poll p) c.trace = later ++ reads user_name porblem_title rows w vs)
    (hlater : ∀ e ∈ later, e.op ≠ .query (.selectTestNum porblem_title)) :
    ∃ v ∈ vs, reported v = "0" := by
  obtain ⟨v, vs, rfl⟩ := List.exists_cons_of_length_pos (show 0 < vs.length by omega)
  have hlast : vs.length = n - 1 := by simp at hlen; omega
  obtain ⟨c₀, l, h₀, hok, hnext, hown₀, hv, htr, hl⟩ := read_test h hown
  have hbegun : begun porblem_title p c.trace = begun porblem_title p c₀.trace := by
    rw [htr, List.append_cons, begun, beforeLast_append, begun]
    intro e he
    rw [own_append, hl, List.mem_append] at he
    rcases he with he | he
    · exact hlater e he
    · simp only [own_cons_same, own_nil, List.mem_singleton] at he
      subst he
      simp
  rw [hbegun] at hreset hjudging
  obtain ⟨e, he, het, hop⟩ := mem_of_wrote hreset
  obtain ⟨i, hi, hunset⟩ := hok (hlast ▸ hnext) e he hop (het ▸ hjudging)
  rw [List.mem_range] at hi
  unfold whenRead at hunset
  split at hunset
  · next hi =>
    have hnone := absent_of_unset tests h₀ (hi ▸ hunset)
    rw [← hlast, hv] at hnone
    exact ⟨v, by simp, hnone ▸ rfl⟩
  · next hi' =>
    -- The poll read the key of test `i` before the last one.
    obtain ⟨vs₁, v', vs₂, rfl, rfl⟩ := exists_append_cons_of_lt (show i < vs.length by omega)
    obtain ⟨later', hsplit, hall⟩ :=
      testReads_append (f := fileName user_name porblem_title) vs₁ (v' :: vs₂)
    rw [reads, hsplit, List.append_assoc] at hown₀
    obtain ⟨c₁, l₁, h₁, -, -, -, hv', htr₁, hl₁⟩ := read_test h₀ hown₀
    rw [htr₁, beforeLast_append, beforeLast_cons_same] at hunset
    · have hnone := absent_of_unset tests h₁ hunset
      rw [hv'] at hnone
      exact ⟨v', by simp, hnone ▸ rfl⟩
    · intro e he hop
      rw [hl₁] at he
      obtain ⟨j, v'', hj, rfl⟩ := hall e he
      simp only [Op.get.injEq, testKey_inj, true_and] at hop
      simp only [List.length_cons] at hj
      omega

end Run

end OJJudge.Verdict
