import Mathlib.Algebra.BigOperators.Ring.Finset
import Mathlib.Algebra.Order.BigOperators.Group.Finset
import Mathlib.Data.List.Perm.Subperm

/-! Pages of a list whose elements have distinct keys.  Page `k` begins at the key `size * k` and ends
after `size` elements.  It holds all the elements with the keys that it stands for, and runs on into
the next page when these are fewer than `size`. -/

namespace Paging

variable {α : Type} (key : α → Nat) (size : Nat) (l : List α)

/-- The first `size` elements from the key `size * k` on. -/
def pageOf (k : Nat) : List α := (l.filter fun x => size * k ≤ key x).take size

/-- The elements whose keys the page number `k` stands for. -/
def windowOf (k : Nat) : List α := l.filter fun x => key x / size = k

variable {key size l}

/-- Distinct keys between two bounds are not more than the numbers there. -/
theorem length_filter_le (hnodup : (l.map key).Nodup) {a b : Nat} (p : α → Bool)
    (hp : ∀ x ∈ l, p x = true → a ≤ key x ∧ key x < b) : (l.filter p).length ≤ b - a := by
  have hkeys : ((l.filter p).map key).Nodup := hnodup.sublist (List.filter_sublist.map key)
  have hsub : (l.filter p).map key ⊆ List.range' a (b - a) := by
    intro k hk
    obtain ⟨x, hx, rfl⟩ := List.mem_map.mp hk
    have hbounds := hp x (List.mem_of_mem_filter hx) (List.of_mem_filter hx)
    rw [List.mem_range'_1]
    omega
  have hle := (hkeys.subperm hsub).length_le
  rwa [List.length_map, List.length_range'] at hle

/-- Each element is in one window. -/
theorem sum_windowOf {n : Nat} (h : ∀ x ∈ l, key x / size < n) :
    ∑ k ∈ Finset.range n, (windowOf key size l k).length = l.length := by
  induction l with
  | nil => simp [windowOf]
  | cons x l ih =>
    have hx := h x (List.mem_cons_self ..)
    have hl := ih fun y hy => h y (List.mem_cons_of_mem _ hy)
    have hcons : ∀ k, (windowOf key size (x :: l) k).length =
        (windowOf key size l k).length + if key x / size = k then 1 else 0 := by
      intro k
      unfold windowOf
      rw [List.filter_cons]
      by_cases hk : key x / size = k
      · simp [hk]
      · simp [hk]
    have hone : (∑ k ∈ Finset.range n, if key x / size = k then 1 else 0) = 1 := by simp [hx]
    simp only [hcons, Finset.sum_add_distrib, hl, hone, List.length_cons]

/-- An element of a window has one of the keys that the page stands for. -/
theorem windowOf_bounds (hsize : 0 < size) {k : Nat} {x : α}
    (hx : decide (key x / size = k) = true) : size * k ≤ key x ∧ key x < size * k + size := by
  have hdiv := of_decide_eq_true hx
  have hmod := Nat.mod_lt (key x) hsize
  have hsum := Nat.div_add_mod (key x) size
  rw [hdiv] at hsum
  omega

/-- A page holds as many elements as its window, if not more. -/
theorem length_windowOf_le (hsize : 0 < size) (hnodup : (l.map key).Nodup) (k : Nat) :
    (windowOf key size l k).length ≤ (pageOf key size l k).length := by
  have hwindow : (windowOf key size l k).length ≤ size := by
    have hle := length_filter_le hnodup (fun x => key x / size = k)
      fun x _ hx => windowOf_bounds hsize hx
    rwa [Nat.add_sub_cancel_left] at hle
  have hsub : (windowOf key size l k).length ≤ (l.filter fun x => size * k ≤ key x).length := by
    apply List.Sublist.length_le
    exact List.monotone_filter_right l fun x hx =>
      decide_eq_true (windowOf_bounds hsize hx).1
  rw [pageOf, List.length_take]
  omega

/-- With positive keys, the first page runs on into the next one. -/
theorem length_windowOf_zero_lt (hsize : 0 < size) (hnodup : (l.map key).Nodup)
    (hpos : ∀ x ∈ l, 0 < key x) {x : α} (hx : x ∈ l) (hkey : size ≤ key x) :
    (windowOf key size l 0).length < (pageOf key size l 0).length := by
  have hwindow : (windowOf key size l 0).length ≤ size - 1 := by
    refine length_filter_le hnodup (fun x => key x / size = 0) fun y hy hzero => ?_
    have hbounds := windowOf_bounds hsize hzero
    exact ⟨hpos y hy, by omega⟩
  have hless : (windowOf key size l 0).length < l.length := by
    refine List.length_filter_lt_length_iff_exists.mpr ⟨x, hx, ?_⟩
    have hdiv := (Nat.one_le_div_iff hsize).mpr hkey
    simp only [decide_eq_true_eq]
    omega
  have hall : (l.filter fun x => size * 0 ≤ key x) = l := by simp
  rw [pageOf, hall, List.length_take]
  omega

/-- All pages together hold each element once when the keys fit the first page. -/
theorem flatMap_pageOf (hsize : 0 < size) (hnodup : (l.map key).Nodup)
    (hpos : ∀ x ∈ l, 0 < key x) (hsmall : ∀ x ∈ l, key x < size) (n : Nat) :
    (List.range (n + 1)).flatMap (pageOf key size l) = l := by
  have hlength : l.length ≤ size := by
    have hle := length_filter_le hnodup (fun _ => true) fun x hx _ => ⟨hpos x hx, hsmall x hx⟩
    rw [List.filter_true] at hle
    omega
  have hfirst : pageOf key size l 0 = l := by
    simp [pageOf, List.take_of_length_le hlength]
  have hrest : ∀ k, pageOf key size l (k + 1) = [] := by
    intro k
    have hnone : (l.filter fun x => size * (k + 1) ≤ key x) = [] := by
      refine List.filter_eq_nil_iff.mpr fun x hx => ?_
      have hlt := hsmall x hx
      have hle : size ≤ size * (k + 1) := Nat.le_mul_of_pos_right size (by omega)
      rw [decide_eq_true_eq]
      omega
    rw [pageOf, hnone, List.take_nil]
  rw [List.range_succ_eq_map, List.flatMap_cons, List.flatMap_map, hfirst]
  simp [hrest]

/-- All pages together hold more elements when a key does not fit the first page. -/
theorem length_flatMap_pageOf (hsize : 0 < size) (hnodup : (l.map key).Nodup)
    (hpos : ∀ x ∈ l, 0 < key x) {x : α} (hx : x ∈ l) (hkey : size ≤ key x) {n : Nat}
    (hn : ∀ x ∈ l, key x / size < n + 1) :
    l.length < ((List.range (n + 1)).flatMap (pageOf key size l)).length := by
  rw [List.length_flatMap, ← sum_windowOf hn]
  show _ < ∑ k ∈ Finset.range (n + 1), (pageOf key size l k).length
  refine Finset.sum_lt_sum (fun k _ => length_windowOf_le hsize hnodup k) ⟨0, by simp, ?_⟩
  exact length_windowOf_zero_lt hsize hnodup hpos hx hkey

end Paging
