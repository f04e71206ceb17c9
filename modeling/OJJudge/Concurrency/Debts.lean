import OJJudge.Concurrency.Interleaving

/-! Programs that close what they open.  When each of them opens a place of the memory only while it
has nothing else to close, and returns with nothing to close, then in every interleaving each place
that is open is one that some thread has yet to close. -/

namespace Concurrency

variable {S : Sig} {T K : Type} {α β : Type}

/-- What an operation has to do with the places that are to be closed. -/
inductive Bracket (K : Type)
  | opens (key : K)
  | closes (key : K)
  | plain

namespace Prog

/-- The program closes what it opens; `owed` is what it has yet to close. -/
def Settles (bracket : S.Op → Bracket K) : Option K → Prog S α → Prop
  | owed, ret _ => owed = none
  | owed, op o k =>
    match bracket o with
    | .opens key => owed = none ∧ ∀ r, Settles bracket (some key) (k r)
    | .closes key => owed = some key ∧ ∀ r, Settles bracket none (k r)
    | .plain => ∀ r, Settles bracket owed (k r)

variable {bracket : S.Op → Bracket K} {o : S.Op} {k : S.Res o → Prog S α} {owed : Option K} {key : K}

theorem settles_opens (ho : bracket o = .opens key) :
    Settles bracket owed (op o k) ↔ owed = none ∧ ∀ r, Settles bracket (some key) (k r) := by
  rw [Settles, ho]

theorem settles_closes (ho : bracket o = .closes key) :
    Settles bracket owed (op o k) ↔ owed = some key ∧ ∀ r, Settles bracket none (k r) := by
  rw [Settles, ho]

theorem settles_plain (ho : bracket o = .plain) :
    Settles bracket owed (op o k) ↔ ∀ r, Settles bracket owed (k r) := by
  rw [Settles, ho]

/-- The rule for sequencing: both parts begin and end with nothing to close. -/
theorem Settles.bind {f : α → Prog S β} (hf : ∀ a, Settles bracket none (f a)) :
    {owed : Option K} → {p : Prog S α} → Settles bracket owed p → Settles bracket owed (p >>= f)
  | _, ret a, h => by
    cases h
    exact hf a
  | owed, op o k, h => by
    rw [op_bind]
    cases ho : bracket o with
    | opens key =>
      rw [settles_opens ho] at h ⊢
      exact ⟨h.1, fun r => (h.2 r).bind hf⟩
    | closes key =>
      rw [settles_closes ho] at h ⊢
      exact ⟨h.1, fun r => (h.2 r).bind hf⟩
    | plain =>
      rw [settles_plain ho] at h ⊢
      exact fun r => (h r).bind hf

/-- A program that opens and closes nothing. -/
theorem Only.settles : {p : Prog S α} → p.Only (fun o => bracket o = .plain) → Settles bracket none p
  | ret _, _ => rfl
  | op _ _, h => (settles_plain h.1).mpr fun r => (h.2 r).settles

end Prog

/-- What a thread with these events, newest first, has yet to close. -/
def owing (bracket : S.Op → Bracket K) : List (Event S) → Option K
  | [] => none
  | e :: earlier =>
    match bracket e.op with
    | .opens key => some key
    | .closes _ => none
    | .plain => owing bracket earlier

section Owing

variable {bracket : S.Op → Bracket K} {o : S.Op} {r : S.Res o} {events : List (Event S)} {key : K}

@[simp] theorem owing_nil : owing bracket [] = none := rfl

theorem owing_opens (ho : bracket o = .opens key) : owing bracket (⟨o, r⟩ :: events) = some key := by
  rw [owing, ho]

theorem owing_closes (ho : bracket o = .closes key) : owing bracket (⟨o, r⟩ :: events) = none := by
  rw [owing, ho]

theorem owing_plain (ho : bracket o = .plain) :
    owing bracket (⟨o, r⟩ :: events) = owing bracket events := by
  rw [owing, ho]

end Owing

/-- The places of a machine that its operations open and close. -/
structure Ledger (M : Machine S T) (K : Type) where
  isOpen : M.Mem → K → Prop
  bracket : S.Op → Bracket K
  opens {t : T} {o : S.Op} {x : M.Choice} {m m' : M.Mem} {r : S.Res o} {key place : K}
    (ho : bracket o = .opens key) (h : M.exec t o x m = some (r, m')) (hopen : isOpen m' place) :
    place = key ∨ isOpen m place
  closes {t : T} {o : S.Op} {x : M.Choice} {m m' : M.Mem} {r : S.Res o} {key place : K}
    (ho : bracket o = .closes key) (h : M.exec t o x m = some (r, m')) (hopen : isOpen m' place) :
    place ≠ key ∧ isOpen m place
  plain {t : T} {o : S.Op} {x : M.Choice} {m m' : M.Mem} {r : S.Res o} {place : K}
    (ho : bracket o = .plain) (h : M.exec t o x m = some (r, m')) (hopen : isOpen m' place) :
    isOpen m place

namespace Ledger

variable [DecidableEq T] {M : Machine S T} (L : Ledger M K)

/-- Every open place is one that some thread has yet to close, and every thread goes on to close what
it has opened. -/
structure Balanced (c : Config M) : Prop where
  threads : ∀ t, (c.prog t).Settles L.bracket (owing L.bracket (own t c.trace))
  places : ∀ place, L.isOpen c.mem place → ∃ t, owing L.bracket (own t c.trace) = some place

variable {L} {c : Config M} {t : T} {o : S.Op} {k : S.Res o → Prog S Unit} {x : M.Choice}
  {r : S.Res o} {m : M.Mem}

/-- The threads that stand still owe what they owed. -/
theorem Balanced.others (h : L.Balanced c) {owed : Option K}
    (hown : owing L.bracket (⟨o, r⟩ :: own t c.trace) = owed) (hnext : (k r).Settles L.bracket owed) (u : T) :
    ((c.after t o r k m).prog u).Settles L.bracket (owing L.bracket (own u (c.after t o r k m).trace)) := by
  by_cases hu : u = t
  · subst hu
    rw [Config.prog_after_same, Config.trace_after, own_cons_same, hown]
    exact hnext
  · rw [Config.prog_after_ne hu, Config.trace_after, own_cons_ne (Ne.symm hu)]
    exact h.threads u

/-- The step lemma. -/
theorem Balanced.next (h : L.Balanced c) (hp : c.prog t = .op o k)
    (hexec : M.exec t o x c.mem = some (r, m)) : L.Balanced (c.after t o r k m) := by
  have hsettles := h.threads t
  rw [hp] at hsettles
  have hkeeps {place : K} {u : T} (hu : u ≠ t) (howes : owing L.bracket (own u c.trace) = some place) :
      ∃ u, owing L.bracket (own u (c.after t o r k m).trace) = some place :=
    ⟨u, by rwa [Config.trace_after, own_cons_ne (Ne.symm hu)]⟩
  cases ho : L.bracket o with
  | opens key =>
    rw [Prog.settles_opens ho] at hsettles
    refine ⟨h.others (owing_opens ho) (hsettles.2 r), fun place hopen => ?_⟩
    obtain rfl | hbefore := L.opens ho hexec hopen
    · exact ⟨t, by rw [Config.trace_after, own_cons_same, owing_opens ho]⟩
    · obtain ⟨u, howes⟩ := h.places place hbefore
      refine hkeeps ?_ howes
      rintro rfl
      rw [hsettles.1] at howes
      cases howes
  | closes key =>
    rw [Prog.settles_closes ho] at hsettles
    refine ⟨h.others (owing_closes ho) (hsettles.2 r), fun place hopen => ?_⟩
    obtain ⟨hne, hbefore⟩ := L.closes ho hexec hopen
    obtain ⟨u, howes⟩ := h.places place hbefore
    refine hkeeps ?_ howes
    rintro rfl
    rw [hsettles.1] at howes
    exact hne (Option.some_inj.mp howes).symm
  | plain =>
    rw [Prog.settles_plain ho] at hsettles
    refine ⟨h.others (owing_plain ho) (hsettles r), fun place hopen => ?_⟩
    obtain ⟨u, howes⟩ := h.places place (L.plain ho hexec hopen)
    by_cases hu : u = t
    · subst hu
      exact ⟨u, by rwa [Config.trace_after, own_cons_same, owing_plain ho]⟩
    · exact hkeeps hu howes

variable {ok : Config M → T → Prop} {init : Config M}

/-- The run lemma. -/
theorem balanced (h : Reach ok init c) (htrace : init.trace = [])
    (hclosed : ∀ place, ¬L.isOpen init.mem place)
    (hstart : ∀ t, (init.prog t).Settles L.bracket none) : L.Balanced c := by
  refine h.induct (I := L.Balanced) ?_ fun c t x o k r m _ ih _ hp he => ih.next hp he
  refine ⟨fun t => ?_, fun place hopen => absurd hopen (hclosed place)⟩
  rw [htrace]
  exact hstart t

/-- A thread that has not begun, or has returned, has nothing to close. -/
theorem Balanced.settled (h : L.Balanced c)
    (hrest : own t c.trace = [] ∨ (c.prog t).returned = true) :
    owing L.bracket (own t c.trace) = none := by
  obtain hnone | hreturned := hrest
  · rw [hnone, owing_nil]
  · have hsettles := h.threads t
    cases hprog : c.prog t with
    | ret a =>
      rw [hprog] at hsettles
      exact hsettles
    | op o k =>
      rw [hprog] at hreturned
      cases hreturned

end Ledger

end Concurrency
