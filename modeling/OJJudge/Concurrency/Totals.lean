import Mathlib.Algebra.BigOperators.Group.Finset.Basic
import Mathlib.Algebra.BigOperators.Group.Finset.Piecewise
import Mathlib.Algebra.Order.BigOperators.Group.Finset
import OJJudge.Concurrency.Interleaving

/-! Sums over the threads of a run: over the local states of the threads created so far, with what a
step of one thread does to them, and over the events of each thread. -/

namespace Concurrency

variable {T P M : Type} [DecidableEq T] [AddCommMonoid M]

/-- The sum of `f` over the local states of the threads. -/
def total (f : P → M) (threads : Finset T) (state : T → P) : M := ∑ t ∈ threads, f (state t)

variable {f : P → M} {threads : Finset T} {state : T → P} {t : T} {p : P}

/-- A thread's step replaces its own share. -/
theorem total_update (ht : t ∈ threads) :
    total f threads (Function.update state t p) + f (state t) = total f threads state + f p := by
  have hrest : ∑ u ∈ threads.erase t, f (Function.update state t p u) =
      ∑ u ∈ threads.erase t, f (state u) :=
    Finset.sum_congr rfl fun u hu => by rw [Function.update_of_ne (Finset.ne_of_mem_erase hu)]
  unfold total
  rw [← Finset.sum_erase_add threads _ ht, ← Finset.sum_erase_add threads _ ht, hrest,
    Function.update_self, add_right_comm]

/-- A thread that had no share, or did not exist, adds its share. -/
theorem total_insert (h : f (state t) = 0) :
    total f (insert t threads) (Function.update state t p) = total f threads state + f p := by
  by_cases ht : t ∈ threads
  · rw [Finset.insert_eq_of_mem ht, ← total_update ht, h, add_zero]
  · unfold total
    rw [Finset.sum_insert ht, Function.update_self, add_comm]
    congr 1
    apply Finset.sum_congr rfl
    intro u hu
    rw [Function.update_of_ne (ne_of_mem_of_not_mem hu ht)]

/-- What comes into the share of a thread comes into the sum. -/
theorem total_step {M : Type} [AddCancelCommMonoid M] {f : P → M} {a b : M} (ht : t ∈ threads)
    (h : f (state t) + a = f p + b) :
    total f threads state + a = total f threads (Function.update state t p) + b := by
  apply add_right_cancel (b := f (state t))
  calc total f threads state + a + f (state t)
      = total f threads state + (f (state t) + a) := by rw [add_assoc, add_comm a]
    _ = total f threads state + f p + b := by rw [h, add_assoc]
    _ = total f threads (Function.update state t p) + b + f (state t) := by
      rw [← total_update ht, add_right_comm]

/-! ### Shares -/

section Shares

variable {M : Type} [AddCommMonoid M] [PartialOrder M] [CanonicallyOrderedAdd M] {f : P → M} {u : T}

omit [DecidableEq T] in
theorem le_total [IsOrderedAddMonoid M] (ht : t ∈ threads) :
    f (state t) ≤ total f threads state :=
  Finset.single_le_sum (f := fun t => f (state t)) (fun _ _ => zero_le) ht

theorem add_le_total (hne : t ≠ u) (ht : t ∈ threads) (hu : u ∈ threads) :
    f (state t) + f (state u) ≤ total f threads state := by
  calc f (state t) + f (state u) = ∑ v ∈ {t, u}, f (state v) := by rw [Finset.sum_pair hne]
    _ ≤ total f threads state := by
      refine Finset.sum_le_sum_of_subset ?_
      intro v hv
      rcases Finset.mem_insert.mp hv with rfl | hv
      · exact ht
      · rw [Finset.mem_singleton.mp hv]
        exact hu

end Shares

/-! ### Events -/

section Events

variable {S : Sig} {trace : List (T × Event S)} {threads : Finset T}

/-- The events of a kind are those of each thread. -/
theorem countP_eq_sum_own (P : Event S → Bool) (h : ∀ e ∈ trace, e.1 ∈ threads) :
    trace.countP (fun e => P e.2) = ∑ t ∈ threads, (own t trace).countP P := by
  induction trace with
  | nil => simp
  | cons e trace ih =>
    have hthreads := ih fun e' he' => h e' (List.mem_cons_of_mem _ he')
    have hcons : ∀ t, (own t (e :: trace)).countP P =
        (own t trace).countP P + if e.1 = t then (if P e.2 then 1 else 0) else 0 := by
      intro t
      by_cases ht : e.1 = t
      · subst ht
        rw [own_cons_same, List.countP_cons, if_pos rfl]
      · rw [own_cons_ne ht, if_neg ht, Nat.add_zero]
    rw [List.countP_cons, hthreads]
    simp only [hcons, Finset.sum_add_distrib, Finset.sum_ite_eq, h e (List.mem_cons_self ..),
      if_true]

/-- A bound that each thread keeps for its own events holds for all events. -/
theorem countP_le_of_own {P Q : Event S → Bool}
    (h : ∀ t, (own t trace).countP P ≤ (own t trace).countP Q) :
    trace.countP (fun e => P e.2) ≤ trace.countP fun e => Q e.2 := by
  have hthreads : ∀ e ∈ trace, e.1 ∈ (trace.map Prod.fst).toFinset := fun e he =>
    List.mem_toFinset.mpr (List.mem_map_of_mem he)
  rw [countP_eq_sum_own P hthreads, countP_eq_sum_own Q hthreads]
  exact Finset.sum_le_sum fun t _ => h t

end Events

end Concurrency
