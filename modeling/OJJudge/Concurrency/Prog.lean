import Mathlib.Init

/-! Programs as trees of atomic operations, and the weakest precondition `Wp` that follows a state
through every run of one program.  The state is a parameter: a shared memory, when the program runs
alone, or the program's own history, when other programs run between its operations. -/

namespace Concurrency

/-- The atomic operations of a language, and the type of the response to each one. -/
structure Sig where
  Op : Type
  Res : Op → Type

/-- A program: it returns a value, or runs one operation and continues with its response. -/
inductive Prog (S : Sig) (α : Type) : Type
  | ret (a : α)
  | op (o : S.Op) (next : S.Res o → Prog S α)

variable {S : Sig} {α β σ : Type}

namespace Prog

def bind : Prog S α → (α → Prog S β) → Prog S β
  | ret a, f => f a
  | op o next, f => op o fun r => (next r).bind f

instance : Monad (Prog S) where
  pure := ret
  bind := bind

/-- The program that runs one operation and returns its response. -/
def call (o : S.Op) : Prog S (S.Res o) := op o ret

@[simp] theorem pure_eq (a : α) : (pure a : Prog S α) = ret a := rfl

@[simp] theorem bind_eq (p : Prog S α) (f : α → Prog S β) : p.bind f = p >>= f := rfl

@[simp] theorem ret_bind (a : α) (f : α → Prog S β) : (ret a >>= f) = f a := rfl

@[simp] theorem op_bind (o : S.Op) (next : S.Res o → Prog S α) (f : α → Prog S β) :
    (op o next >>= f) = op o fun r => next r >>= f := rfl

/-- The program has returned. -/
def returned : Prog S α → Bool
  | ret _ => true
  | op _ _ => false

@[simp] theorem returned_ret (a : α) : (ret a : Prog S α).returned = true := rfl

@[simp] theorem returned_op (o : S.Op) (next : S.Res o → Prog S α) :
    (op o next).returned = false := rfl

/-- The operation that the program runs next. -/
def next? : Prog S α → Option S.Op
  | ret _ => none
  | op o _ => some o

@[simp] theorem next?_ret (a : α) : (ret a : Prog S α).next? = none := rfl

@[simp] theorem next?_op (o : S.Op) (next : S.Res o → Prog S α) : (op o next).next? = some o := rfl

theorem next?_eq_some {p : Prog S α} {o : S.Op} : p.next? = some o ↔ ∃ k, p = op o k := by
  cases p with
  | ret a => simp
  | op o' k =>
    constructor
    · intro h
      cases h
      exact ⟨k, rfl⟩
    · rintro ⟨k', h⟩
      cases h
      rfl

/-- From state `s`, every operation that `p` runs satisfies `P` in the state before it, and every
return satisfies `R`.  `next s o r s'` allows the response `r` to `o` in `s`, leading to `s'`. -/
def Wp (next : σ → (o : S.Op) → S.Res o → σ → Prop) (P : σ → S.Op → Prop) (R : α → σ → Prop) :
    Prog S α → σ → Prop
  | ret a, s => R a s
  | op o k, s => P s o ∧ ∀ r s', next s o r s' → Wp next P R (k r) s'

variable {next : σ → (o : S.Op) → S.Res o → σ → Prop} {P P' : σ → S.Op → Prop}
  {R : α → σ → Prop} {s : σ}

@[simp] theorem wp_ret (a : α) : Wp next P R (ret a) s ↔ R a s := Iff.rfl

@[simp] theorem wp_op {o : S.Op} {k : S.Res o → Prog S α} :
    Wp next P R (op o k) s ↔ P s o ∧ ∀ r s', next s o r s' → Wp next P R (k r) s' := Iff.rfl

theorem Wp.mono {R' : α → σ → Prop} (hP : ∀ s o, P s o → P' s o) (hR : ∀ a s, R a s → R' a s) :
    {p : Prog S α} → {s : σ} → Wp next P R p s → Wp next P' R' p s
  | ret a, s, h => hR a s h
  | op _ _, _, h => ⟨hP _ _ h.1, fun r s' hn => (h.2 r s' hn).mono hP hR⟩

/-- A property of every point of the run holds now. -/
theorem Wp.now {Q : σ → Prop} :
    {p : Prog S α} → Wp next (fun s _ => Q s) (fun _ s => Q s) p s → Q s
  | ret _, h => h
  | op _ _, h => h.1

/-- The rule for sequencing: the second program starts where the first one returns. -/
theorem Wp.bind {R' : β → σ → Prop} {f : α → Prog S β} :
    {p : Prog S α} → {s : σ} → Wp next P R p s → (∀ a s, R a s → Wp next P R' (f a) s) →
      Wp next P R' (p >>= f) s
  | ret a, s, h, hf => hf a s h
  | op _ _, _, h, hf => ⟨h.1, fun r s' hn => (h.2 r s' hn).bind hf⟩

/-- Runs a program to its end where every operation has one outcome; `none` when an operation has to
wait. -/
def runs (exec : (o : S.Op) → σ → Option (S.Res o × σ)) : Prog S α → σ → Option (α × σ)
  | ret a, s => some (a, s)
  | op o k, s => (exec o s).bind fun e => (k e.1).runs exec e.2

section Runs

variable {exec : (o : S.Op) → σ → Option (S.Res o × σ)}

@[simp] theorem runs_ret (a : α) (s : σ) : (ret a : Prog S α).runs exec s = some (a, s) := rfl

theorem runs_op (o : S.Op) (k : S.Res o → Prog S α) (s : σ) :
    (op o k).runs exec s = (exec o s).bind fun e => (k e.1).runs exec e.2 := rfl

theorem runs_bind (f : α → Prog S β) : (p : Prog S α) → (s : σ) →
    (p >>= f).runs exec s = (p.runs exec s).bind fun e => (f e.1).runs exec e.2
  | ret _, _ => rfl
  | op o k, s => by
    rw [op_bind, runs_op, runs_op, Option.bind_assoc]
    exact Option.bind_congr fun e _ => runs_bind f (k e.1) e.2

end Runs

/-- Every operation of the program, under any responses, satisfies `P`. -/
def Only (P : S.Op → Prop) : Prog S α → Prop
  | ret _ => True
  | op o k => P o ∧ ∀ r, Only P (k r)

@[simp] theorem only_ret {P : S.Op → Prop} (a : α) : Only P (ret a : Prog S α) ↔ True := Iff.rfl

@[simp] theorem only_op {P : S.Op → Prop} {o : S.Op} {k : S.Res o → Prog S α} :
    Only P (op o k) ↔ P o ∧ ∀ r, Only P (k r) := Iff.rfl

theorem Only.mono {P P' : S.Op → Prop} (hP : ∀ o, P o → P' o) :
    {p : Prog S α} → Only P p → Only P' p
  | ret _, _ => trivial
  | op _ _, h => ⟨hP _ h.1, fun r => (h.2 r).mono hP⟩

theorem Only.bind {P : S.Op → Prop} {f : α → Prog S β} :
    {p : Prog S α} → Only P p → (∀ a, Only P (f a)) → Only P (p >>= f)
  | ret a, _, hf => hf a
  | op _ _, h, hf => ⟨h.1, fun r => (h.2 r).bind hf⟩

/-- Every operation of the program and the one after it, under any responses, satisfy `F`. -/
def Follows (F : S.Op → Option S.Op → Prop) : Prog S α → Prop
  | ret _ => True
  | op o k => ∀ r, F o (k r).next? ∧ Follows F (k r)

@[simp] theorem follows_ret {F : S.Op → Option S.Op → Prop} (a : α) :
    Follows F (ret a : Prog S α) ↔ True := Iff.rfl

@[simp] theorem follows_op {F : S.Op → Option S.Op → Prop} {o : S.Op} {k : S.Res o → Prog S α} :
    Follows F (op o k) ↔ ∀ r, F o (k r).next? ∧ Follows F (k r) := Iff.rfl

/-- A state property that the operations of a program never break holds all along its runs. -/
theorem Only.wp {K : S.Op → Prop} {I : σ → Prop} (hP : ∀ s o, K o → I s → P s o)
    (hI : ∀ s o r s', K o → I s → next s o r s' → I s') :
    {p : Prog S α} → Only K p → {s : σ} → I s → Wp next P (fun _ s => I s) p s
  | ret _, _, _, hs => hs
  | op _ _, h, s, hs =>
    ⟨hP s _ h.1 hs, fun r s' hn => (h.2 r).wp hP hI (hI s _ r s' h.1 hs hn)⟩

end Prog

/-- One operation of a program together with the response it got. -/
structure Event (S : Sig) where
  op : S.Op
  res : S.Res op

/-- The events of a run of one program, oldest first, up to where it returns or has to wait. -/
def Prog.events (exec : (o : S.Op) → σ → Option (S.Res o × σ)) : Prog S α → σ → List (Event S)
  | .ret _, _ => []
  | .op o k, s =>
    match exec o s with
    | none => []
    | some (r, s') => ⟨o, r⟩ :: (k r).events exec s'

theorem Prog.events_op {exec : (o : S.Op) → σ → Option (S.Res o × σ)} {o : S.Op}
    {k : S.Res o → Prog S α} {r : S.Res o} {s s' : σ} (h : exec o s = some (r, s')) :
    (Prog.op o k).events exec s = ⟨o, r⟩ :: (k r).events exec s' := by
  rw [events, h]

/-- The events of a sequence are those of both parts. -/
theorem Prog.events_bind {exec : (o : S.Op) → σ → Option (S.Res o × σ)} {f : α → Prog S β} {a : α} :
    {p : Prog S α} → {s s' : σ} → p.runs exec s = some (a, s') →
      (p >>= f).events exec s = p.events exec s ++ (f a).events exec s'
  | .ret _, _, _, h => by
    cases h
    rfl
  | .op o k, s, s', h => by
    rw [Prog.runs_op] at h
    obtain ⟨⟨r, s₁⟩, he, hk⟩ := Option.bind_eq_some_iff.mp h
    rw [Prog.op_bind, Prog.events_op he, Prog.events_op he, Prog.events_bind hk, List.cons_append]

theorem Prog.Only.events {K : S.Op → Prop} {exec : (o : S.Op) → σ → Option (S.Res o × σ)} :
    {p : Prog S α} → p.Only K → {s : σ} → ∀ e ∈ p.events exec s, K e.op
  | .ret _, _, _, _, he => nomatch he
  | .op o k, h, s, e, he => by
    rw [Prog.events] at he
    split at he
    · cases he
    · next r s' _ =>
      obtain rfl | he := List.mem_cons.mp he
      · exact h.1
      · exact (h.2 r).events e he

/-- The state that records a program's own events, newest first, when the response to each
operation satisfies `A`. -/
def Records (A : (o : S.Op) → S.Res o → Prop) (h : List (Event S)) (o : S.Op) (r : S.Res o)
    (h' : List (Event S)) : Prop :=
  A o r ∧ h' = ⟨o, r⟩ :: h

/-- A specification that follows from what has happened already. -/
theorem Prog.wp_of_past {A : (o : S.Op) → S.Res o → Prop} {P : List (Event S) → S.Op → Prop}
    {I : List (Event S) → Prop} (hI : ∀ e h, I h → I (e :: h)) (hP : ∀ h o, I h → P h o) :
    (p : Prog S α) → {h : List (Event S)} → I h → p.Wp (Records A) P (fun _ _ => True) h
  | .ret _, _, _ => trivial
  | .op _ k, h, hh => ⟨hP h _ hh, by
      rintro r _ ⟨-, rfl⟩
      exact wp_of_past hI hP (k r) (hI _ h hh)⟩

/-! ### Marks

A history can be read through the events that matter to a property, each of them with a mark. -/

section Marks

variable {Mark : Type} {mark : Event S → Option Mark} {A : (o : S.Op) → S.Res o → Prop}
  {I : List Mark → Prop} {ms : List Mark} {h : List (Event S)}

/-- An operation without a mark keeps the marks. -/
theorem Prog.wp_unmarked_op {o : S.Op} {k : S.Res o → Prog S α} {R : α → List (Event S) → Prop}
    (ho : ∀ r, mark ⟨o, r⟩ = none) (hms : I ms) (hh : h.filterMap mark = ms)
    (hk : ∀ r s, A o r → s.filterMap mark = ms →
      (k r).Wp (Records A) (fun h _ => I (h.filterMap mark)) R s) :
    (op o k).Wp (Records A) (fun h _ => I (h.filterMap mark)) R h := by
  subst hh
  refine ⟨hms, ?_⟩
  rintro r s ⟨hr, rfl⟩
  exact hk r _ hr (List.filterMap_cons_none (ho r))

/-- An operation with the mark `f r`, where `r` is its response, adds it to the marks. -/
theorem Prog.wp_marked_op {o : S.Op} {k : S.Res o → Prog S α} {R : α → List (Event S) → Prop}
    {f : S.Res o → Mark} (ho : ∀ r, mark ⟨o, r⟩ = some (f r)) (hms : I ms)
    (hh : h.filterMap mark = ms)
    (hk : ∀ r s, A o r → s.filterMap mark = f r :: ms →
      (k r).Wp (Records A) (fun h _ => I (h.filterMap mark)) R s) :
    (op o k).Wp (Records A) (fun h _ => I (h.filterMap mark)) R h := by
  subst hh
  refine ⟨hms, ?_⟩
  rintro r s ⟨hr, rfl⟩
  exact hk r _ hr (List.filterMap_cons_some (ho r))

/-- A program without marks keeps the marks. -/
theorem Prog.wp_unmarked {p : Prog S α} (hp : p.Only fun o => ∀ r, mark ⟨o, r⟩ = none)
    (hms : I ms) (hh : h.filterMap mark = ms) :
    p.Wp (Records A) (fun h _ => I (h.filterMap mark)) (fun _ h => h.filterMap mark = ms) h := by
  subst hh
  refine hp.wp (I := fun s : List (Event S) => s.filterMap mark = h.filterMap mark) ?_ ?_ rfl
  · intro s o _ hs
    rw [hs]
    exact hms
  · rintro s o r s' ho hs ⟨-, rfl⟩
    rw [List.filterMap_cons_none (ho r), hs]

end Marks

end Concurrency
