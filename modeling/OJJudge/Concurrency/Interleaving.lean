import Mathlib.Logic.Function.Basic
import Mathlib.Logic.Relation
import OJJudge.Concurrency.Prog

/-! Threads that run programs over one shared memory, one operation at a time and in any order.  A
configuration also records the run's trace, so that a property of a run is a property of the
configuration it reaches, and `Reach.past` gives back the configuration before any event of it. -/

namespace Concurrency

variable {S : Sig} {T : Type}

/-- The meaning of the operations of a signature in a shared memory.  `exec t o x m` is the response
to thread `t` and the memory after the operation, where `x` resolves what the memory leaves open,
or `none` when the operation has to wait. -/
structure Machine (S : Sig) (T : Type) where
  Mem : Type
  Choice : Type
  exec : T → (o : S.Op) → Choice → Mem → Option (S.Res o × Mem)

/-- What is left to run of each thread's program, the shared memory, and the events so far, newest
first. -/
structure Config (M : Machine S T) where
  prog : T → Prog S Unit
  mem : M.Mem
  trace : List (T × Event S)

variable [DecidableEq T]

/-- The events of thread `t` in a trace. -/
def own (t : T) (trace : List (T × Event S)) : List (Event S) :=
  trace.filterMap fun e => if e.1 = t then some e.2 else none

@[simp] theorem own_nil (t : T) : own t ([] : List (T × Event S)) = [] := rfl

@[simp] theorem own_cons_same (t : T) (e : Event S) (trace : List (T × Event S)) :
    own t ((t, e) :: trace) = e :: own t trace := by
  simp [own]

theorem own_cons_ne {t u : T} (h : u ≠ t) (e : Event S) (trace : List (T × Event S)) :
    own t ((u, e) :: trace) = own t trace := by
  simp [own, h]

@[simp] theorem mem_own {t : T} {e : Event S} {trace : List (T × Event S)} :
    e ∈ own t trace ↔ (t, e) ∈ trace := by
  simp only [own, List.mem_filterMap]
  constructor
  · rintro ⟨⟨u, e'⟩, hmem, he⟩
    split at he
    · next hu =>
      cases he
      cases hu
      exact hmem
    · cases he
  · exact fun h => ⟨(t, e), h, by simp⟩

theorem own_append (t : T) (later earlier : List (T × Event S)) :
    own t (later ++ earlier) = own t later ++ own t earlier := by
  simp [own]

/-- A place in a thread's own history is a place in the trace. -/
theorem own_split {t : T} {e : Event S} {later earlier : List (Event S)} :
    {trace : List (T × Event S)} → own t trace = later ++ e :: earlier →
    ∃ l₁ l₂, trace = l₁ ++ (t, e) :: l₂ ∧ own t l₁ = later ∧ own t l₂ = earlier
  | [], h => by simp at h
  | (u, e') :: trace, h => by
    by_cases hu : u = t
    · subst hu
      rw [own_cons_same] at h
      cases later with
      | nil =>
        cases h
        exact ⟨[], trace, rfl, rfl, rfl⟩
      | cons e'' later =>
        simp only [List.cons_append, List.cons.injEq] at h
        obtain ⟨l₁, l₂, rfl, hl₁, hl₂⟩ := own_split h.2
        exact ⟨(u, e') :: l₁, l₂, rfl, by rw [own_cons_same, hl₁, h.1], hl₂⟩
    · rw [own_cons_ne hu] at h
      obtain ⟨l₁, l₂, rfl, hl₁, hl₂⟩ := own_split h
      exact ⟨(u, e') :: l₁, l₂, rfl, by rw [own_cons_ne hu, hl₁], hl₂⟩

/-- The trace before the latest event in which thread `t` ran the operation `o`. -/
def beforeLast [DecidableEq S.Op] (t : T) (o : S.Op) : List (T × Event S) → List (T × Event S)
  | [] => []
  | e :: earlier => if e.1 = t ∧ e.2.op = o then earlier else beforeLast t o earlier

@[simp] theorem beforeLast_cons_same [DecidableEq S.Op] (t : T) (o : S.Op) (r : S.Res o)
    (earlier : List (T × Event S)) : beforeLast t o ((t, ⟨o, r⟩) :: earlier) = earlier := by
  simp [beforeLast]

theorem beforeLast_append [DecidableEq S.Op] {t : T} {o : S.Op}
    {later earlier : List (T × Event S)} (h : ∀ e ∈ own t later, e.op ≠ o) :
    beforeLast t o (later ++ earlier) = beforeLast t o earlier := by
  induction later with
  | nil => rfl
  | cons e later ih =>
    have he : ¬(e.1 = t ∧ e.2.op = o) := by
      rintro ⟨rfl, ho⟩
      exact h e.2 (by simp [own]) ho
    rw [List.cons_append, beforeLast, if_neg he]
    exact ih fun e' he' => h e' (by simp only [mem_own, List.mem_cons] at he' ⊢; exact .inr he')

variable {M : Machine S T}

namespace Config

/-- The configuration after thread `t` ran the operation `o`, with response `r` and memory `m`. -/
def after (c : Config M) (t : T) (o : S.Op) (r : S.Res o) (k : S.Res o → Prog S Unit)
    (m : M.Mem) : Config M where
  prog := Function.update c.prog t (k r)
  mem := m
  trace := (t, ⟨o, r⟩) :: c.trace

variable {c : Config M} {t u : T} {o : S.Op} {r : S.Res o} {k : S.Res o → Prog S Unit} {m : M.Mem}

@[simp] theorem prog_after_same : (c.after t o r k m).prog t = k r := by simp [after]

theorem prog_after_ne (h : u ≠ t) : (c.after t o r k m).prog u = c.prog u := by simp [after, h]

@[simp] theorem mem_after : (c.after t o r k m).mem = m := rfl

@[simp] theorem trace_after : (c.after t o r k m).trace = (t, ⟨o, r⟩) :: c.trace := rfl

/-- The next operation of thread `t`. -/
def step (c : Config M) (t : T) (x : M.Choice) : Option (Config M) :=
  match c.prog t with
  | .ret _ => none
  | .op o k =>
    match M.exec t o x c.mem with
    | none => none
    | some (r, m) => some (c.after t o r k m)

theorem step_eq_some {x : M.Choice} {c' : Config M} :
    c.step t x = some c' ↔ ∃ o k r m, c.prog t = .op o k ∧ M.exec t o x c.mem = some (r, m) ∧
      c' = c.after t o r k m := by
  unfold step
  constructor
  · intro h
    split at h
    · cases h
    · next o k hp =>
      split at h
      · cases h
      · next r m he => exact ⟨o, k, r, m, hp, he, by simpa using h.symm⟩
  · rintro ⟨o, k, r, m, hp, he, rfl⟩
    simp only [hp, he]

/-- A step of a thread that `ok` lets run. -/
def Step (ok : Config M → T → Prop) (c c' : Config M) : Prop :=
  ∃ t x, ok c t ∧ c.step t x = some c'

end Config

/-- Any order of steps. -/
def anyOrder : Config M → T → Prop := fun _ _ => True

instance : ∀ (c : Config M) (t : T), Decidable (anyOrder c t) :=
  fun _ _ => inferInstanceAs (Decidable True)

/-- The configurations that runs from `init` reach when each of their steps satisfies `ok` in the
configuration before it. -/
def Reach (ok : Config M → T → Prop) (init : Config M) : Config M → Prop :=
  Relation.ReflTransGen (Config.Step ok) init

namespace Reach

variable {ok ok' : Config M → T → Prop} {init c : Config M}

/-- Induction over a run, with the operation of each step named. -/
theorem induct {I : Config M → Prop} (h : Reach ok init c) (start : I init)
    (step : ∀ (c : Config M) (t : T) (x : M.Choice) (o : S.Op) (k : S.Res o → Prog S Unit)
      (r : S.Res o) (m : M.Mem), Reach ok init c → I c → ok c t → c.prog t = .op o k →
      M.exec t o x c.mem = some (r, m) → I (c.after t o r k m)) : I c := by
  induction h with
  | refl => exact start
  | tail hr hs ih =>
    obtain ⟨t, x, hok, hstep⟩ := hs
    obtain ⟨o, k, r, m, hp, he, rfl⟩ := Config.step_eq_some.mp hstep
    exact step _ t x o k r m hr ih hok hp he

theorem next {t : T} {x : M.Choice} {o : S.Op} {k : S.Res o → Prog S Unit} {r : S.Res o}
    {m : M.Mem} (h : Reach ok init c) (hok : ok c t) (hp : c.prog t = .op o k)
    (he : M.exec t o x c.mem = some (r, m)) : Reach ok init (c.after t o r k m) :=
  h.tail ⟨t, x, hok, Config.step_eq_some.mpr ⟨o, k, r, m, hp, he, rfl⟩⟩

/-- A run whose steps satisfy `ok` is a run whose steps satisfy `ok'`, when `ok` implies `ok'` in
the configurations it passes. -/
theorem weaken (h : Reach ok init c)
    (hok : ∀ c t, Reach ok init c → ok c t → ok' c t) : Reach ok' init c := by
  refine h.induct (I := Reach ok' init) .refl ?_
  intro c t x o k r m hr hr' hstep hp he
  exact hr'.next (hok c t hr hstep) hp he

/-- The configuration before an event of the trace, and the step that made the event. -/
theorem past {t : T} {o : S.Op} {r : S.Res o} {later earlier : List (T × Event S)}
    (h : Reach ok init c) (h0 : init.trace = [])
    (he : c.trace = later ++ (t, ⟨o, r⟩) :: earlier) :
    ∃ c₀ k x m, Reach ok init c₀ ∧ c₀.trace = earlier ∧ c₀.prog t = .op o k ∧ ok c₀ t ∧
      M.exec t o x c₀.mem = some (r, m) := by
  have before : ∀ later, c.trace = later ++ (t, ⟨o, r⟩) :: earlier →
      ∃ c₀ k x m, Reach ok init c₀ ∧ c₀.trace = earlier ∧ c₀.prog t = .op o k ∧ ok c₀ t ∧
        M.exec t o x c₀.mem = some (r, m) := by
    refine h.induct (I := fun c => ∀ later, c.trace = later ++ (t, ⟨o, r⟩) :: earlier → _) ?_ ?_
    · intro later he
      rw [h0] at he
      simp at he
    · intro c u x o' k r' m hr ih hok hp hx later he
      cases later with
      | nil =>
        simp only [Config.trace_after, List.nil_append, List.cons.injEq, Prod.mk.injEq] at he
        obtain ⟨⟨rfl, heq⟩, htr⟩ := he
        cases heq
        exact ⟨c, k, x, m, hr, htr, hp, hok, hx⟩
      | cons e later =>
        simp only [Config.trace_after, List.cons_append, List.cons.injEq] at he
        exact ih later he.2
  exact before later he

/-- The configuration before an event of a thread's own history. -/
theorem past_own {t : T} {o : S.Op} {r : S.Res o} {later earlier : List (Event S)}
    (h : Reach ok init c) (h0 : init.trace = [])
    (he : own t c.trace = later ++ ⟨o, r⟩ :: earlier) :
    ∃ c₀ k x m l, Reach ok init c₀ ∧ own t c₀.trace = earlier ∧ c₀.prog t = .op o k ∧ ok c₀ t ∧
      M.exec t o x c₀.mem = some (r, m) ∧ c.trace = l ++ (t, ⟨o, r⟩) :: c₀.trace ∧
      own t l = later := by
  obtain ⟨l₁, l₂, htr, hl₁, hl₂⟩ := own_split he
  obtain ⟨c₀, k, x, m, hr, hc₀, hp, hok, hx⟩ := h.past h0 htr
  exact ⟨c₀, k, x, m, l₁, hr, hc₀ ▸ hl₂, hp, hok, hx, hc₀ ▸ htr, hl₁⟩

/-- A thread's program satisfies a specification from a view of the configuration, in every
configuration reached, when its own steps move the view as the specification allows and the steps
of the other threads keep it. -/
theorem wp {σ : Type} {next : σ → (o : S.Op) → S.Res o → σ → Prop} {P : σ → S.Op → Prop}
    {R : Unit → σ → Prop} (view : Config M → σ) (t : T) (h : Reach ok init c)
    (start : (init.prog t).Wp next P R (view init))
    (own_step : ∀ (c : Config M) (x : M.Choice) (o : S.Op) (k : S.Res o → Prog S Unit)
      (r : S.Res o) (m : M.Mem), Reach ok init c → ok c t → c.prog t = .op o k →
      M.exec t o x c.mem = some (r, m) → next (view c) o r (view (c.after t o r k m)))
    (other_step : ∀ (c : Config M) (u : T) (x : M.Choice) (o : S.Op)
      (k : S.Res o → Prog S Unit) (r : S.Res o) (m : M.Mem), u ≠ t → Reach ok init c →
      ok c u → c.prog u = .op o k → M.exec u o x c.mem = some (r, m) →
      view (c.after u o r k m) = view c) :
    (c.prog t).Wp next P R (view c) := by
  refine h.induct (I := fun c => (c.prog t).Wp next P R (view c)) start ?_
  intro c u x o k r m hr ih hok hp he
  by_cases hu : u = t
  · subst hu
    rw [hp] at ih
    rw [Config.prog_after_same]
    exact ih.2 r _ (own_step c x o k r m hr hok hp he)
  · rw [other_step c u x o k r m hu hr hok hp he, Config.prog_after_ne (Ne.symm hu)]
    exact ih

/-- A specification over a program's own history holds of the thread's events in the trace. -/
theorem history_op {A : (o : S.Op) → S.Res o → Prop} {P : List (Event S) → S.Op → Prop}
    {R : Unit → List (Event S) → Prop} (t : T) (h : Reach ok init c) (h0 : init.trace = [])
    (start : (init.prog t).Wp (Records A) P R [])
    (allowed : ∀ (c : Config M) (x : M.Choice) (o : S.Op) (k : S.Res o → Prog S Unit)
      (r : S.Res o) (m : M.Mem), Reach ok init c → c.prog t = .op o k →
      M.exec t o x c.mem = some (r, m) → A o r) :
    (c.prog t).Wp (Records A) P R (own t c.trace) := by
  refine h.wp (fun c => own t c.trace) t (by simpa [h0] using start) ?_ ?_
  · intro c x o k r m hr _ hp he
    exact ⟨allowed c x o k r m hr hp he, by simp⟩
  · intro c u x o k r m hu _ _ _ _
    exact own_cons_ne hu _ _

/-- A property of a program's own history holds of the thread's events in the trace. -/
theorem history {A : (o : S.Op) → S.Res o → Prop} {Q : List (Event S) → Prop}
    {R : Unit → List (Event S) → Prop} (t : T) (h : Reach ok init c) (h0 : init.trace = [])
    (start : (init.prog t).Wp (Records A) (fun s _ => Q s) R [])
    (allowed : ∀ (c : Config M) (x : M.Choice) (o : S.Op) (k : S.Res o → Prog S Unit)
      (r : S.Res o) (m : M.Mem), Reach ok init c → c.prog t = .op o k →
      M.exec t o x c.mem = some (r, m) → A o r) :
    (c.prog t).Wp (Records A) (fun s _ => Q s) R (own t c.trace) :=
  h.history_op t h0 start allowed

/-- What a specification says of the operations of a program holds of every event of its thread,
with the events before it. -/
theorem own_events {A : (o : S.Op) → S.Res o → Prop} {P : List (Event S) → S.Op → Prop}
    {R : Unit → List (Event S) → Prop} (t : T) (h : Reach ok init c) (h0 : init.trace = [])
    (start : (init.prog t).Wp (Records A) P R [])
    (allowed : ∀ (c : Config M) (x : M.Choice) (o : S.Op) (k : S.Res o → Prog S Unit)
      (r : S.Res o) (m : M.Mem), Reach ok init c → c.prog t = .op o k →
      M.exec t o x c.mem = some (r, m) → A o r)
    {later earlier : List (Event S)} {e : Event S} (he : own t c.trace = later ++ e :: earlier) :
    P earlier e.op := by
  obtain ⟨c₀, k, -, -, -, hr, hown, hp, -, -, -, -⟩ := h.past_own h0 he
  have hwp := hr.history_op t h0 start allowed
  rw [hp, hown] at hwp
  exact hwp.1

/-- The operations of a thread are among those that its program can run. -/
theorem only {K : T → S.Op → Prop} (h : Reach ok init c)
    (start : ∀ t, (init.prog t).Only (K t)) (t : T) : (c.prog t).Only (K t) := by
  refine h.induct (I := fun c => ∀ t, (c.prog t).Only (K t)) start ?_ t
  intro c u x o k r m _ ih _ hp _ t
  by_cases hu : t = u
  · subst hu
    have hk := ih t
    rw [hp] at hk
    rw [Config.prog_after_same]
    exact hk.2 r
  · rw [Config.prog_after_ne hu]
    exact ih t

/-- The operations of a thread follow each other as they do in its program. -/
theorem follows {F : S.Op → Option S.Op → Prop} (h : Reach ok init c)
    (start : ∀ t, (init.prog t).Follows F) (t : T) : (c.prog t).Follows F := by
  refine h.induct (I := fun c => ∀ t, (c.prog t).Follows F) start ?_ t
  intro c u x o k r m _ ih _ hp _ t
  by_cases hu : t = u
  · subst hu
    have hk := ih t
    rw [hp] at hk
    rw [Config.prog_after_same]
    exact (hk r).2
  · rw [Config.prog_after_ne hu]
    exact ih t

/-- A thread that is never let run keeps its program. -/
theorem prog_eq {t : T} (h : Reach ok init c) (hok : ∀ c, ¬ok c t) : c.prog t = init.prog t := by
  refine h.induct (I := fun c => c.prog t = init.prog t) rfl ?_
  intro c u x o k r m _ ih hok' _ _
  have hu : t ≠ u := by
    rintro rfl
    exact hok c hok'
  rw [Config.prog_after_ne hu]
  exact ih

/-- A thread without events is about to begin. -/
theorem prog_of_own_nil {t : T} (h : Reach ok init c) (hnil : own t c.trace = []) :
    c.prog t = init.prog t := by
  refine h.induct (I := fun c => own t c.trace = [] → c.prog t = init.prog t) (fun _ => rfl) ?_ hnil
  intro c u x o k r m _ ih _ _ _ hnil
  by_cases hu : u = t
  · subst hu
    simp at hnil
  · rw [Config.prog_after_ne (Ne.symm hu)]
    rw [Config.trace_after, own_cons_ne hu] at hnil
    exact ih hnil

/-- Every event of the trace is an operation that its thread's program can run. -/
theorem trace_only {K : T → S.Op → Prop} (h : Reach ok init c) (h0 : init.trace = [])
    (start : ∀ t, (init.prog t).Only (K t)) : ∀ e ∈ c.trace, K e.1 e.2.op := by
  refine h.induct (I := fun c => ∀ e ∈ c.trace, K e.1 e.2.op) (by simp [h0]) ?_
  intro c t x o k r m hr ih _ hp _ e he
  simp only [Config.trace_after, List.mem_cons] at he
  rcases he with rfl | he
  · have hk := hr.only start t
    rw [hp] at hk
    exact hk.1
  · exact ih e he

/-- A run of one program to its end is a run of its thread in the machine. -/
theorem of_runs {σ : Type} {t : T}
    {exec : (o : S.Op) → σ → Option (S.Res o × σ)} (view : σ → M.Mem)
    (hexec : ∀ o s r s', exec o s = some (r, s') → ∃ x, M.exec t o x (view s) = some (r, view s'))
    (hok : ∀ c : Config M, (c.prog t).returned = false → ok c t) :
    {p : Prog S Unit} → {s s' : σ} → {c : Config M} → Reach ok init c → c.prog t = p →
      c.mem = view s → p.runs exec s = some ((), s') →
      ∃ c', Reach ok init c' ∧ c'.prog t = .ret () ∧ c'.mem = view s' ∧
        ∀ u, u ≠ t → c'.prog u = c.prog u
  | .ret _, s, s', c, hc, hp, hm, h => by
    cases h
    exact ⟨c, hc, hp, hm, fun _ _ => rfl⟩
  | .op o k, s, s', c, hc, hp, hm, h => by
    rw [Prog.runs_op] at h
    obtain ⟨⟨r, s₁⟩, he, hk⟩ := Option.bind_eq_some_iff.mp h
    obtain ⟨x, hx⟩ := hexec o s r s₁ he
    have hnext := hc.next (hok c (by simp [hp])) hp (hm ▸ hx)
    obtain ⟨c', hc', hp', hm', hother⟩ :=
      of_runs view hexec hok hnext Config.prog_after_same rfl hk
    exact ⟨c', hc', hp', hm', fun u hu => (hother u hu).trans (Config.prog_after_ne hu)⟩
end Reach

namespace Config

/-- Runs the listed threads in order, with the listed choices, as long as `ok` lets them run. -/
def run (ok : Config M → T → Prop) [∀ c t, Decidable (ok c t)] :
    Config M → List (T × M.Choice) → Option (Config M)
  | c, [] => some c
  | c, (t, x) :: rest => if ok c t then (c.step t x).bind fun c' => run ok c' rest else none

theorem reach_of_run {ok : Config M → T → Prop} [∀ c t, Decidable (ok c t)]
    {schedule : List (T × M.Choice)} {c c' : Config M} (h : c.run ok schedule = some c') :
    Reach ok c c' := by
  induction schedule generalizing c with
  | nil =>
    cases h
    exact .refl
  | cons move rest ih =>
    obtain ⟨t, x⟩ := move
    simp only [run] at h
    split at h
    · next hok =>
      obtain ⟨c₁, hs, hr⟩ := Option.bind_eq_some_iff.mp h
      exact (ih hr).head ⟨t, x, hok, hs⟩
    · cases h

/-- A schedule shows that a configuration with the observed value `v` is reached. -/
theorem exists_reach {β : Type} (ok : Config M → T → Prop) [∀ c t, Decidable (ok c t)]
    (c : Config M) (schedule : List (T × M.Choice)) (f : Config M → β) (v : β)
    (h : (c.run ok schedule).map f = some v) : ∃ c', Reach ok c c' ∧ f c' = v := by
  obtain ⟨c', hr, hv⟩ := Option.map_eq_some_iff.mp h
  exact ⟨c', reach_of_run hr, hv⟩

end Config

end Concurrency
