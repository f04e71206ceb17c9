import Mathlib
import OJJudge.Concurrency.Interleaving

/-! Threads that share a memory and do not disturb each other.  Each thread writes locations of its
own, and those that a lock protects while it holds the lock; it reads its own locations, shared ones
that no thread writes, and protected ones that it has written since it took the lock.  A thread then
runs as it does alone, whatever the other threads leave in the protected locations. -/

namespace Concurrency

variable {S : Sig} {T : Type} {M : Machine S T}

/-! ### One thread alone -/

/-- What the program `p` of thread `t` has come to, and the memory, when no other thread runs. -/
inductive Alone (M : Machine S T) (t : T) (p : Prog S Unit) (s : M.Mem) : Prog S Unit → M.Mem → Prop
  | start : Alone M t p s p s
  | step {o : S.Op} {k : S.Res o → Prog S Unit} {x : M.Choice} {r : S.Res o} {s₁ s₂ : M.Mem}
      (h : Alone M t p s (.op o k) s₁) (hexec : M.exec t o x s₁ = some (r, s₂)) :
      Alone M t p s (k r) s₂

section Alone

variable {t : T} {p p' : Prog S Unit} {s s' : M.Mem}

/-- With one outcome for each operation, the rest of the run is that of `Prog.runs`. -/
theorem Alone.runs {exec : (o : S.Op) → M.Mem → Option (S.Res o × M.Mem)} (h : Alone M t p s p' s')
    (hexec : ∀ o x s₁ r s₂, M.exec t o x s₁ = some (r, s₂) → exec o s₁ = some (r, s₂)) :
    p.runs exec s = p'.runs exec s' := by
  induction h with
  | start => rfl
  | step h he ih => rw [ih, Prog.runs_op, hexec _ _ _ _ _ he, Option.bind_some]

/-- A specification holds of what is left of the program. -/
theorem Alone.wp {next : M.Mem → (o : S.Op) → S.Res o → M.Mem → Prop} {P : M.Mem → S.Op → Prop}
    {R : Unit → M.Mem → Prop} (h : Alone M t p s p' s') (hp : p.Wp next P R s)
    (hexec : ∀ o x s₁ r s₂, M.exec t o x s₁ = some (r, s₂) → next s₁ o r s₂) :
    p'.Wp next P R s' := by
  induction h with
  | start => exact hp
  | step h he ih => exact ih.2 _ _ (hexec _ _ _ _ _ he)

end Alone

/-! ### Footprints -/

inductive Kind
  | acquire
  | release
  | plain
  deriving DecidableEq

/-- The locations of a memory with one lock, and the ones that each operation reads and writes: what
it reads decides its response and what it writes, and it changes nothing else. -/
structure Footprint (M : Machine S T) where
  Loc : Type
  Val : Loc → Type
  view : M.Mem → (l : Loc) → Val l
  holder : M.Mem → Option T
  kind : S.Op → Kind
  reads : S.Op → Set Loc
  writes : S.Op → Set Loc
  acquire {t : T} {o : S.Op} {x : M.Choice} {m m' : M.Mem} {r : S.Res o} (hk : kind o = .acquire)
    (h : M.exec t o x m = some (r, m')) :
    (holder m = none ∧ holder m' = some t ∧ ∀ l, view m' l = view m l) ∧
      ∀ s, holder s = none → ∃ s', M.exec t o x s = some (r, s')
  release {t : T} {o : S.Op} {x : M.Choice} {m m' : M.Mem} {r : S.Res o} (hk : kind o = .release)
    (h : M.exec t o x m = some (r, m')) :
    (holder m' = none ∧ ∀ l, view m' l = view m l) ∧ ∀ s, ∃ s', M.exec t o x s = some (r, s')
  plain {t : T} {o : S.Op} {x : M.Choice} {m m' : M.Mem} {r : S.Res o} (hk : kind o = .plain)
    (h : M.exec t o x m = some (r, m')) :
    (holder m' = holder m ∧ ∀ l, l ∉ writes o → view m' l = view m l) ∧
      ∀ s, (∀ l ∈ reads o, view s l = view m l) →
        ∃ s', M.exec t o x s = some (r, s') ∧ ∀ l ∈ writes o, view s' l = view m' l

namespace Footprint

variable {α β : Type} (F : Footprint M) (mine shared guarded : Set F.Loc)

/-- The program keeps to its locations.  While it holds the lock, `known` are the locations that it
has written since. -/
def Keeps : Option (Set F.Loc) → Prog S α → Prop
  | known, .ret _ => known = none
  | none, .op o k =>
    (F.kind o = .acquire ∧ ∀ r, Keeps (some ∅) (k r)) ∨
      (F.kind o = .plain ∧ F.reads o ⊆ mine ∪ shared ∧ F.writes o ⊆ mine ∧ ∀ r, Keeps none (k r))
  | some known, .op o k =>
    (F.kind o = .release ∧ ∀ r, Keeps none (k r)) ∨
      (F.kind o = .plain ∧ F.reads o ⊆ mine ∪ shared ∪ known ∧ F.writes o ⊆ mine ∪ guarded ∧
        ∀ r, Keeps (some (known ∪ F.writes o)) (k r))

variable {F mine shared guarded}

theorem Keeps.bind {f : α → Prog S β} (hf : ∀ a, F.Keeps mine shared guarded none (f a)) :
    {known : Option (Set F.Loc)} → {p : Prog S α} → F.Keeps mine shared guarded known p →
      F.Keeps mine shared guarded known (p >>= f)
  | _, .ret a, h => by
    cases h
    exact hf a
  | none, .op o k, h => by
    obtain ⟨hk, hnext⟩ | ⟨hk, hreads, hwrites, hnext⟩ := h
    · exact .inl ⟨hk, fun r => (hnext r).bind hf⟩
    · exact .inr ⟨hk, hreads, hwrites, fun r => (hnext r).bind hf⟩
  | some known, .op o k, h => by
    obtain ⟨hk, hnext⟩ | ⟨hk, hreads, hwrites, hnext⟩ := h
    · exact .inl ⟨hk, fun r => (hnext r).bind hf⟩
    · exact .inr ⟨hk, hreads, hwrites, fun r => (hnext r).bind hf⟩

/-! ### Threads next to each other -/

/-- The memory `s` is the one that thread `t` has come to alone, with the same program left, and it
agrees with the shared memory wherever the thread looks before it writes. -/
structure Mirrors (F : Footprint M) (mine shared guarded : Set F.Loc) (t : T) (init c : Config M)
    (known : Option (Set F.Loc)) (s : M.Mem) : Prop where
  alone : Alone M t (init.prog t) init.mem (c.prog t) s
  keeps : F.Keeps mine shared guarded known (c.prog t)
  agree : ∀ l ∈ mine ∪ shared ∪ known.getD ∅, F.view s l = F.view c.mem l
  known_subset : known.getD ∅ ⊆ mine ∪ guarded
  holds : F.holder c.mem = some t ↔ known.isSome = true
  free : known = none → F.holder s = none

variable {t u : T} {init c : Config M} {known : Option (Set F.Loc)} {s m : M.Mem} {o : S.Op}
  {k : S.Res o → Prog S Unit} {x : M.Choice} {r : S.Res o}

/-- What a step of thread `u` can change. -/
theorem Mirrors.changes (h : F.Mirrors mine shared guarded u init c known s)
    (hprog : c.prog u = .op o k) (hexec : M.exec u o x c.mem = some (r, m)) :
    (∀ l, l ∉ mine → (l ∈ guarded → F.holder c.mem ≠ some u) → F.view m l = F.view c.mem l) ∧
      ∀ t, t ≠ u → (F.holder m = some t ↔ F.holder c.mem = some t) := by
  have hkeeps := h.keeps
  rw [hprog] at hkeeps
  cases known with
  | none =>
    obtain ⟨hk, -⟩ | ⟨hk, -, hwrites, -⟩ := hkeeps
    · obtain ⟨⟨hfree, hholder, hview⟩, -⟩ := F.acquire hk hexec
      exact ⟨fun l _ _ => hview l, fun t ht => by simp [hfree, hholder, Ne.symm ht]⟩
    · obtain ⟨⟨hholder, hview⟩, -⟩ := F.plain hk hexec
      exact ⟨fun l hl _ => hview l fun hw => hl (hwrites hw), fun t _ => by rw [hholder]⟩
  | some known =>
    have hheld : F.holder c.mem = some u := h.holds.mpr rfl
    obtain ⟨hk, -⟩ | ⟨hk, -, hwrites, -⟩ := hkeeps
    · obtain ⟨⟨hholder, hview⟩, -⟩ := F.release hk hexec
      exact ⟨fun l _ _ => hview l, fun t ht => by simp [hheld, hholder, Ne.symm ht]⟩
    · obtain ⟨⟨hholder, hview⟩, -⟩ := F.plain hk hexec
      refine ⟨fun l hl hguard => hview l fun hw => ?_, fun t _ => by rw [hholder]⟩
      obtain hmine | hguarded := hwrites hw
      · exact hl hmine
      · exact hguard hguarded hheld

variable [DecidableEq T]

/-- A plain operation of the thread itself. -/
theorem Mirrors.plain_step (h : F.Mirrors mine shared guarded t init c known s)
    (hprog : c.prog t = .op o k) (hexec : M.exec t o x c.mem = some (r, m))
    (hk : F.kind o = .plain) (hreads : F.reads o ⊆ mine ∪ shared ∪ known.getD ∅)
    {known' : Option (Set F.Loc)} (hkeeps : F.Keeps mine shared guarded known' (k r))
    (hheld : known'.isSome = known.isSome) (hknown : known'.getD ∅ ⊆ known.getD ∅ ∪ F.writes o)
    (hsubset : known'.getD ∅ ⊆ mine ∪ guarded) :
    ∃ s, F.Mirrors mine shared guarded t init (c.after t o r k m) known' s := by
  have halone := h.alone
  rw [hprog] at halone
  obtain ⟨⟨hholder, hview⟩, hsolo⟩ := F.plain hk hexec
  obtain ⟨s', hs', hwritten⟩ := hsolo s fun l hl => h.agree l (hreads hl)
  obtain ⟨⟨hholder', hview'⟩, -⟩ := F.plain hk hs'
  refine ⟨s', ?_, ?_, ?_, hsubset, ?_, ?_⟩
  · rw [Config.prog_after_same]
    exact halone.step hs'
  · rw [Config.prog_after_same]
    exact hkeeps
  · intro l hl
    rw [Config.mem_after]
    by_cases hw : l ∈ F.writes o
    · exact hwritten l hw
    · rw [hview' l hw, hview l hw]
      refine h.agree l ?_
      obtain hl | hl := hl
      · exact .inl hl
      · exact .inr ((hknown hl).resolve_right hw)
  · rw [Config.mem_after, hholder, hheld]
    exact h.holds
  · rintro rfl
    rw [hholder']
    cases known with
    | none => exact h.free rfl
    | some known => cases hheld

/-- The step lemma for the thread itself. -/
theorem Mirrors.own_step (h : F.Mirrors mine shared guarded t init c known s)
    (hprog : c.prog t = .op o k) (hexec : M.exec t o x c.mem = some (r, m)) :
    ∃ known s, F.Mirrors mine shared guarded t init (c.after t o r k m) known s := by
  have halone := h.alone
  have hkeeps := h.keeps
  rw [hprog] at halone hkeeps
  cases known with
  | none =>
    obtain ⟨hk, hnext⟩ | ⟨hk, hreads, hwrites, hnext⟩ := hkeeps
    · obtain ⟨⟨hfree, hholder, hview⟩, hsolo⟩ := F.acquire hk hexec
      obtain ⟨s', hs'⟩ := hsolo s (h.free rfl)
      obtain ⟨⟨-, -, hview'⟩, -⟩ := F.acquire hk hs'
      refine ⟨some ∅, s', ?_, ?_, ?_, by simp, by simp [hholder], by simp⟩
      · rw [Config.prog_after_same]
        exact halone.step hs'
      · rw [Config.prog_after_same]
        exact hnext r
      · intro l hl
        rw [hview' l, Config.mem_after, hview l]
        exact h.agree l hl
    · exact ⟨none, h.plain_step hprog hexec hk (hreads.trans Set.subset_union_left) (hnext r) rfl
        (Set.empty_subset _) (Set.empty_subset _)⟩
  | some known =>
    obtain ⟨hk, hnext⟩ | ⟨hk, hreads, hwrites, hnext⟩ := hkeeps
    · obtain ⟨⟨hholder, hview⟩, hsolo⟩ := F.release hk hexec
      obtain ⟨s', hs'⟩ := hsolo s
      obtain ⟨⟨hholder', hview'⟩, -⟩ := F.release hk hs'
      refine ⟨none, s', ?_, ?_, ?_, by simp, by simp [hholder], fun _ => hholder'⟩
      · rw [Config.prog_after_same]
        exact halone.step hs'
      · rw [Config.prog_after_same]
        exact hnext r
      · intro l hl
        rw [hview' l, Config.mem_after, hview l]
        have hl' : l ∈ mine ∪ shared := by simpa using hl
        exact h.agree l (.inl hl')
    · exact ⟨some (known ∪ F.writes o), h.plain_step hprog hexec hk hreads (hnext r) rfl
        subset_rfl (Set.union_subset h.known_subset hwrites)⟩

/-- The threads of a run keep apart: what each of them writes on its own is used by no other one. -/
structure Isolates (F : Footprint M) (mine : T → Set F.Loc) (shared guarded : Set F.Loc)
    (init : Config M) : Prop where
  mine_mine : ∀ t u, t ≠ u → Disjoint (mine t) (mine u)
  mine_shared : ∀ t, Disjoint (mine t) shared
  mine_guarded : ∀ t, Disjoint (mine t) guarded
  shared_guarded : Disjoint shared guarded
  keeps : ∀ t, F.Keeps (mine t) shared guarded none (init.prog t)
  free : F.holder init.mem = none

variable {mine : T → Set F.Loc}

/-- The step lemma for the other threads. -/
theorem Mirrors.other_step (hi : F.Isolates mine shared guarded init) (hu : u ≠ t)
    {known' : Option (Set F.Loc)} {s' : M.Mem}
    (h : F.Mirrors (mine t) shared guarded t init c known s)
    (h' : F.Mirrors (mine u) shared guarded u init c known' s')
    (hprog : c.prog u = .op o k) (hexec : M.exec u o x c.mem = some (r, m)) :
    F.Mirrors (mine t) shared guarded t init (c.after u o r k m) known s := by
  obtain ⟨hview, hholder⟩ := h'.changes hprog hexec
  refine ⟨?_, ?_, ?_, h.known_subset, ?_, h.free⟩
  · rw [Config.prog_after_ne hu.symm]
    exact h.alone
  · rw [Config.prog_after_ne hu.symm]
    exact h.keeps
  · intro l hl
    rw [h.agree l hl, Config.mem_after]
    symm
    obtain (hl | hl) | hl := hl
    · exact hview l (Set.disjoint_left.mp (hi.mine_mine t u hu.symm) hl) fun hg =>
        absurd hg (Set.disjoint_left.mp (hi.mine_guarded t) hl)
    · exact hview l (Set.disjoint_right.mp (hi.mine_shared u) hl) fun hg =>
        absurd hg (Set.disjoint_left.mp hi.shared_guarded hl)
    · -- The thread holds the lock, so that thread `u` does not.
      have hheld : F.holder c.mem = some t := by
        apply h.holds.mpr
        cases known with
        | none => cases hl
        | some known => rfl
      refine hview l ?_ fun _ hother => hu (Option.some_inj.mp (hother.symm.trans hheld))
      obtain hmine | hguarded := h.known_subset hl
      · exact Set.disjoint_left.mp (hi.mine_mine t u hu.symm) hmine
      · exact Set.disjoint_right.mp (hi.mine_guarded u) hguarded
  · rw [Config.mem_after, hholder t hu.symm]
    exact h.holds

/-- Every thread of a run mirrors its run alone. -/
theorem Isolates.mirrors (hi : F.Isolates mine shared guarded init) (h : Reach anyOrder init c)
    (t : T) : ∃ known s, F.Mirrors (mine t) shared guarded t init c known s := by
  refine h.induct (I := fun c => ∀ t, ∃ known s, F.Mirrors (mine t) shared guarded t init c known s)
    ?_ ?_ t
  · intro t
    exact ⟨none, init.mem, .start, hi.keeps t, fun _ _ => rfl, by simp, by simp [hi.free],
      fun _ => hi.free⟩
  · intro c u x o k r m _ ih _ hprog hexec t
    obtain ⟨known', s', h'⟩ := ih u
    by_cases hu : u = t
    · subst hu
      exact h'.own_step hprog hexec
    · obtain ⟨known, s, h⟩ := ih t
      exact ⟨known, s, h.other_step hi hu h' hprog hexec⟩

/-- What a thread sees of its own locations and the shared ones is what it sees alone. -/
theorem Isolates.alone (hi : F.Isolates mine shared guarded init) (h : Reach anyOrder init c)
    (t : T) : ∃ s, Alone M t (init.prog t) init.mem (c.prog t) s ∧
      ∀ l ∈ mine t ∪ shared, F.view s l = F.view c.mem l := by
  obtain ⟨known, s, hmirrors⟩ := hi.mirrors h t
  exact ⟨s, hmirrors.alone, fun l hl => hmirrors.agree l (.inl hl)⟩

end Footprint

end Concurrency
