import OJJudge.Concurrency.Isolation

/-! Programs that share a lock.  When each of them takes the lock only while it is without it,
releases it only while it holds it and returns without it, then so it is in every interleaving, no
thread waits for ever, and any threads can be run to their ends from any configuration.  Some events
can be fatal: they end the whole system, and then no thread goes on. -/

namespace Concurrency

variable {S : Sig} {T : Type} {α β : Type}

/-! ### Systems that can end -/

/-- The system has met no fatal event. -/
def Lives (fatal : T → Event S → Prop) (trace : List (T × Event S)) : Prop :=
  ∀ e ∈ trace, ¬fatal e.1 e.2

/-- The system has just met its end, at an event of thread `t`. -/
def EndsWith (fatal : T → Event S → Prop) (t : T) (trace : List (T × Event S)) : Prop :=
  ∃ e earlier, trace = (t, e) :: earlier ∧ fatal t e

/-- The threads go on as long as the system lives. -/
def living {M : Machine S T} (fatal : T → Event S → Prop) : Config M → T → Prop :=
  fun c _ => Lives fatal c.trace

section Ends

variable {fatal : T → Event S → Prop} {trace : List (T × Event S)} {t : T} {e : Event S}

theorem Lives.cons (h : Lives fatal trace) (he : ¬fatal t e) : Lives fatal ((t, e) :: trace) :=
  List.forall_mem_cons.mpr ⟨he, h⟩

/-- A thread whose events are not fatal ends nothing. -/
theorem not_endsWith (h : ∀ e, (t, e) ∈ trace → ¬fatal t e) : ¬EndsWith fatal t trace := by
  rintro ⟨e, earlier, rfl, he⟩
  exact h e (List.mem_cons_self ..) he

end Ends

/-- A living system can be led to a configuration with `P` by steps of the threads in `A` alone, or
one of them ends it on the way. -/
def CanReach [DecidableEq T] {M : Machine S T} (fatal : T → Event S → Prop) (A : T → Prop)
    (c : Config M) (P : Config M → Prop) : Prop :=
  ∃ c', Reach (living fatal) c c' ∧ (∀ u, ¬A u → c'.prog u = c.prog u) ∧
    ((∃ t, A t ∧ EndsWith fatal t c'.trace) ∨ (Lives fatal c'.trace ∧ P c'))

namespace CanReach

variable [DecidableEq T] {M : Machine S T} {fatal : T → Event S → Prop} {A B : T → Prop}
  {c : Config M} {P Q : Config M → Prop}

theorem here (hlives : Lives fatal c.trace) (h : P c) : CanReach fatal A c P :=
  ⟨c, .refl, fun _ _ => rfl, .inr ⟨hlives, h⟩⟩

theorem mono (h : CanReach fatal A c P) (hA : ∀ t, A t → B t) (hP : ∀ c', P c' → Q c') :
    CanReach fatal B c Q := by
  obtain ⟨c', hc', hother, ⟨t, ht, hend⟩ | ⟨hlives, hP'⟩⟩ := h
  · exact ⟨c', hc', fun u hu => hother u (mt (hA u) hu), .inl ⟨t, hA t ht, hend⟩⟩
  · exact ⟨c', hc', fun u hu => hother u (mt (hA u) hu), .inr ⟨hlives, hP c' hP'⟩⟩

/-- The rule for sequencing. -/
theorem bind (h : CanReach fatal A c P)
    (hQ : ∀ c', Lives fatal c'.trace → P c' → CanReach fatal A c' Q) : CanReach fatal A c Q := by
  obtain ⟨c₁, hc₁, hother₁, hend | ⟨hlives, hP⟩⟩ := h
  · exact ⟨c₁, hc₁, hother₁, .inl hend⟩
  · obtain ⟨c', hc', hother, hdone⟩ := hQ c₁ hlives hP
    exact ⟨c', hc₁.trans hc', fun u hu => (hother u hu).trans (hother₁ u hu), hdone⟩

/-- The other threads have stood still. -/
theorem frame (h : CanReach fatal A c P) :
    CanReach fatal A c fun c' => P c' ∧ ∀ u, ¬A u → c'.prog u = c.prog u := by
  obtain ⟨c', hc', hother, hend | ⟨hlives, hP⟩⟩ := h
  · exact ⟨c', hc', hother, .inl hend⟩
  · exact ⟨c', hc', hother, .inr ⟨hlives, hP, hother⟩⟩

end CanReach

/-! ### Programs -/

namespace Prog

/-- The program uses the lock in turn.  `held` says whether it holds the lock now. -/
def Pairs (kind : S.Op → Kind) : Bool → Prog S α → Prop
  | held, ret _ => held = false
  | held, op o k =>
    match kind o with
    | .acquire => held = false ∧ ∀ r, Pairs kind true (k r)
    | .release => held = true ∧ ∀ r, Pairs kind false (k r)
    | .plain => ∀ r, Pairs kind held (k r)

variable {kind : S.Op → Kind} {o : S.Op} {k : S.Res o → Prog S α} {held : Bool}

theorem pairs_acquire (ho : kind o = .acquire) :
    Pairs kind held (op o k) ↔ held = false ∧ ∀ r, Pairs kind true (k r) := by
  rw [Pairs, ho]

theorem pairs_release (ho : kind o = .release) :
    Pairs kind held (op o k) ↔ held = true ∧ ∀ r, Pairs kind false (k r) := by
  rw [Pairs, ho]

theorem pairs_plain (ho : kind o = .plain) :
    Pairs kind held (op o k) ↔ ∀ r, Pairs kind held (k r) := by
  rw [Pairs, ho]

/-- The rule for sequencing: both parts begin and end without the lock. -/
theorem Pairs.bind {f : α → Prog S β} (hf : ∀ a, Pairs kind false (f a)) :
    {held : Bool} → {p : Prog S α} → Pairs kind held p → Pairs kind held (p >>= f)
  | _, ret a, h => by
    cases h
    exact hf a
  | held, op o k, h => by
    rw [op_bind]
    cases ho : kind o with
    | acquire =>
      rw [pairs_acquire ho] at h ⊢
      exact ⟨h.1, fun r => (h.2 r).bind hf⟩
    | release =>
      rw [pairs_release ho] at h ⊢
      exact ⟨h.1, fun r => (h.2 r).bind hf⟩
    | plain =>
      rw [pairs_plain ho] at h ⊢
      exact fun r => (h r).bind hf

/-- A program that leaves the lock alone. -/
theorem Only.pairs : {p : Prog S α} → p.Only (fun o => kind o = .plain) → Pairs kind false p
  | ret _, _ => rfl
  | op _ _, h => (pairs_plain h.1).mpr fun r => (h.2 r).pairs

end Prog

/-- A lock of a machine, on which only its acquisition has to wait. -/
structure Mutex (M : Machine S T) where
  holder : M.Mem → Option T
  kind : S.Op → Kind
  acquire {t : T} {o : S.Op} {x : M.Choice} {m m' : M.Mem} {r : S.Res o} (hk : kind o = .acquire)
    (h : M.exec t o x m = some (r, m')) : holder m = none ∧ holder m' = some t
  release {t : T} {o : S.Op} {x : M.Choice} {m m' : M.Mem} {r : S.Res o} (hk : kind o = .release)
    (h : M.exec t o x m = some (r, m')) : holder m' = none
  plain {t : T} {o : S.Op} {x : M.Choice} {m m' : M.Mem} {r : S.Res o} (hk : kind o = .plain)
    (h : M.exec t o x m = some (r, m')) : holder m' = holder m
  ready (t : T) (o : S.Op) (m : M.Mem) (h : kind o = .acquire → holder m = none) :
    ∃ x r m', M.exec t o x m = some (r, m')

namespace Mutex

variable [DecidableEq T] {M : Machine S T} (L : Mutex M)

/-- Every thread goes on as its part in the lock asks it to. -/
def Disciplined (c : Config M) : Prop :=
  ∀ t, (c.prog t).Pairs L.kind (decide (L.holder c.mem = some t))

variable {L} {c : Config M} {t : T} {o : S.Op} {k : S.Res o → Prog S Unit} {x : M.Choice}
  {r : S.Res o} {m : M.Mem}

/-- Only the holder releases the lock. -/
theorem Disciplined.holds (h : L.Disciplined c) (hp : c.prog t = .op o k)
    (ho : L.kind o = .release) : L.holder c.mem = some t := by
  have hpairs := h t
  rw [hp, Prog.pairs_release ho] at hpairs
  exact of_decide_eq_true hpairs.1

theorem Disciplined.not_holds (h : L.Disciplined c) (hp : (c.prog t).returned = true) :
    L.holder c.mem ≠ some t := by
  have hpairs := h t
  cases hprog : c.prog t with
  | ret a =>
    rw [hprog] at hpairs
    exact of_decide_eq_false hpairs
  | op o k =>
    rw [hprog] at hp
    cases hp

/-- The holder does not wait for the lock. -/
theorem Disciplined.free (h : L.Disciplined c) (hp : c.prog t = .op o k)
    (hheld : L.holder c.mem = none ∨ L.holder c.mem = some t) (ho : L.kind o = .acquire) :
    L.holder c.mem = none := by
  have hpairs := h t
  rw [hp, Prog.pairs_acquire ho] at hpairs
  exact hheld.resolve_right (of_decide_eq_false hpairs.1)

/-- The step lemma. -/
theorem Disciplined.next (h : L.Disciplined c) (hp : c.prog t = .op o k)
    (hexec : M.exec t o x c.mem = some (r, m)) : L.Disciplined (c.after t o r k m) := by
  intro u
  have hown := h t
  have hother := h u
  rw [hp] at hown
  rw [Config.mem_after]
  cases ho : L.kind o with
  | acquire =>
    obtain ⟨hfree, hholder⟩ := L.acquire ho hexec
    rw [Prog.pairs_acquire ho] at hown
    by_cases hu : u = t
    · subst hu
      rw [Config.prog_after_same, hholder, decide_eq_true rfl]
      exact hown.2 r
    · rw [hfree] at hother
      rw [Config.prog_after_ne hu, hholder, decide_eq_false (by simpa using Ne.symm hu)]
      simpa using hother
  | release =>
    have hholder := L.release ho hexec
    have hheld := h.holds hp ho
    rw [Prog.pairs_release ho] at hown
    by_cases hu : u = t
    · subst hu
      rw [Config.prog_after_same, hholder]
      exact hown.2 r
    · rw [hheld, decide_eq_false (by simpa using Ne.symm hu)] at hother
      rw [Config.prog_after_ne hu, hholder]
      exact hother
  | plain =>
    rw [L.plain ho hexec]
    rw [Prog.pairs_plain ho] at hown
    by_cases hu : u = t
    · subst hu
      rw [Config.prog_after_same]
      exact hown r
    · rw [Config.prog_after_ne hu]
      exact hother

section Runs

variable {ok : Config M → T → Prop} {init : Config M}

/-- The run lemma. -/
theorem disciplined (h : Reach ok init c) (hfree : L.holder init.mem = none)
    (hstart : ∀ t, (init.prog t).Pairs L.kind false) : L.Disciplined c := by
  refine h.induct (I := L.Disciplined) ?_ fun c t x o k r m _ ih _ hp he => ih.next hp he
  intro t
  rw [hfree]
  exact hstart t

/-- The holder of the lock has taken it. -/
theorem acquired (h : Reach ok init c) (hfree : L.holder init.mem = none)
    (hheld : L.holder c.mem = some t) : ∃ e, (t, e) ∈ c.trace ∧ L.kind e.op = .acquire := by
  refine h.induct (I := fun c => L.holder c.mem = some t →
    ∃ e, (t, e) ∈ c.trace ∧ L.kind e.op = .acquire) ?_ ?_ hheld
  · intro hheld
    rw [hfree] at hheld
    cases hheld
  · intro c u x o k r m _ ih _ _ hexec hheld
    rw [Config.mem_after] at hheld
    have hold : L.holder c.mem = some t → ∃ e, (t, e) ∈ (c.after u o r k m).trace ∧
        L.kind e.op = .acquire := by
      intro hbefore
      obtain ⟨e, he, hk⟩ := ih hbefore
      exact ⟨e, List.mem_cons_of_mem _ he, hk⟩
    cases ho : L.kind o with
    | acquire =>
      obtain rfl : u = t := Option.some_inj.mp ((L.acquire ho hexec).2.symm.trans hheld)
      exact ⟨⟨o, r⟩, List.mem_cons_self .., ho⟩
    | release =>
      rw [L.release ho hexec] at hheld
      cases hheld
    | plain => exact hold ((L.plain ho hexec).symm.trans hheld)

theorem own_ne_nil (h : Reach ok init c) (hfree : L.holder init.mem = none)
    (hheld : L.holder c.mem = some t) : own t c.trace ≠ [] := by
  obtain ⟨e, he, -⟩ := acquired h hfree hheld
  exact List.ne_nil_of_mem (mem_own.mpr he)

variable {fatal : T → Event S → Prop}

/-- A thread that does not have to wait now can run to its end while the others stand still. -/
theorem Disciplined.finish (h : L.Disciplined c) (hlives : Lives fatal c.trace)
    (hheld : L.holder c.mem = none ∨ L.holder c.mem = some t) :
    CanReach fatal (· = t) c fun c' =>
      L.Disciplined c' ∧ (c'.prog t).returned = true ∧ L.holder c'.mem = none := by
  generalize hp : c.prog t = p
  induction p generalizing c with
  | ret a =>
    have hreturned : (c.prog t).returned = true := by rw [hp, Prog.returned_ret]
    exact .here hlives ⟨h, hreturned, hheld.resolve_right (h.not_holds hreturned)⟩
  | op o k ih =>
    obtain ⟨x, r, m, hexec⟩ := L.ready t o c.mem (h.free hp hheld)
    have hstart : Reach (living fatal) c c := .refl
    have hstep := hstart.next hlives hp hexec
    have hothers : ∀ u, ¬u = t → (c.after t o r k m).prog u = c.prog u := fun _ hu =>
      Config.prog_after_ne hu
    by_cases hfatal : fatal t ⟨o, r⟩
    · exact ⟨_, hstep, hothers, .inl ⟨t, rfl, ⟨o, r⟩, c.trace, rfl, hfatal⟩⟩
    · have hheld' : L.holder (c.after t o r k m).mem = none ∨
          L.holder (c.after t o r k m).mem = some t := by
        cases ho : L.kind o with
        | acquire => exact .inr (L.acquire ho hexec).2
        | release => exact .inl (L.release ho hexec)
        | plain =>
          rw [Config.mem_after, L.plain ho hexec]
          exact hheld
      obtain ⟨c', hc', hother, hdone⟩ :=
        ih r (h.next hp hexec) (hlives.cons hfatal) hheld' Config.prog_after_same
      exact ⟨c', hstep.trans hc', fun u hu => (hother u hu).trans (hothers u hu), hdone⟩

/-- The holder of the lock can run until the lock is free. -/
theorem Disciplined.unlock (h : L.Disciplined c) (hlives : Lives fatal c.trace) :
    CanReach fatal (fun t => L.holder c.mem = some t) c fun c' =>
      L.Disciplined c' ∧ L.holder c'.mem = none := by
  cases hholder : L.holder c.mem with
  | none => exact .here hlives ⟨h, hholder⟩
  | some t =>
    refine (h.finish hlives (.inr hholder)).mono (fun u hu => ?_) fun c' hc' => ⟨hc'.1, hc'.2.2⟩
    rw [hu]

/-- While the lock is free, the given threads can all run to their ends, one after the other. -/
theorem Disciplined.drain_free (h : L.Disciplined c) (hlives : Lives fatal c.trace)
    (hfree : L.holder c.mem = none) (ts : List T) :
    CanReach fatal (· ∈ ts) c fun c' =>
      L.Disciplined c' ∧ L.holder c'.mem = none ∧ ∀ t ∈ ts, (c'.prog t).returned = true := by
  induction ts with
  | nil => exact .here hlives ⟨h, hfree, by simp⟩
  | cons t ts ih =>
    refine (ih.mono (fun _ => List.mem_cons_of_mem t) fun _ => id).bind
      fun c₁ hlives₁ ⟨hdisciplined₁, hfree₁, hreturned₁⟩ => ?_
    refine (hdisciplined₁.finish hlives₁ (t := t) (.inl hfree₁)).frame.mono ?_ ?_
    · rintro u rfl
      exact List.mem_cons_self ..
    · rintro c' ⟨⟨hdisciplined', hreturned', hfree'⟩, hother⟩
      refine ⟨hdisciplined', hfree', fun u hu => ?_⟩
      by_cases hut : u = t
      · rw [hut]
        exact hreturned'
      · rw [hother u hut]
        exact hreturned₁ u ((List.mem_cons.mp hu).resolve_left hut)

/-- From any configuration, the given threads can all run to their ends; the other threads stand
still, but for the one that holds the lock at first. -/
theorem Disciplined.drain (h : L.Disciplined c) (hlives : Lives fatal c.trace) (ts : List T) :
    CanReach fatal (fun t => t ∈ ts ∨ L.holder c.mem = some t) c fun c' =>
      L.holder c'.mem = none ∧ ∀ t ∈ ts, (c'.prog t).returned = true := by
  refine ((h.unlock hlives).mono (fun _ => .inr) fun _ => id).bind fun c₀ hlives₀ hc₀ => ?_
  exact (hc₀.1.drain_free hlives₀ hc₀.2 ts).mono (fun _ => .inl) fun _ hc' => hc'.2

end Runs

end Mutex

end Concurrency
