import Mathlib.Data.List.Infix

/-! The parts of a list between separators. -/

namespace Shell

open scoped List

/-- The maximal parts without separators, except for empty ones. -/
def segments {α : Type} (isSeparator : α → Bool) (l : List α) : List (List α) :=
  (l.splitOnP isSeparator).filter (!·.isEmpty)

section Segments

variable {α β : Type} {sep : α → Bool} {l w : List α}

theorem splitOnP_map (f : α → β) (sep : β → Bool) (l : List α) :
    (l.map f).splitOnP sep = (l.splitOnP (sep ∘ f)).map (List.map f) := by
  induction l with
  | nil => rfl
  | cons c l ih =>
    rw [List.map_cons, List.splitOnP_cons_eq_if_modifyHead, List.splitOnP_cons_eq_if_modifyHead, ih]
    simp only [Function.comp_apply]
    split
    · rfl
    · cases l.splitOnP (sep ∘ f) <;> rfl

theorem segments_map (f : α → β) (sep : β → Bool) (l : List α) :
    segments sep (l.map f) = (segments (sep ∘ f) l).map (List.map f) := by
  unfold segments
  rw [splitOnP_map, List.filter_map]
  refine congrArg _ (List.filter_congr fun w _ => ?_)
  simp

theorem flatten_splitOnP (sep : α → Bool) (l : List α) :
    (l.splitOnP sep).flatten = l.filter (!sep ·) := by
  induction l with
  | nil => rfl
  | cons c l ih =>
    rw [List.splitOnP_cons_eq_if_modifyHead]
    cases hc : sep c with
    | true => simp [ih, hc]
    | false =>
      obtain ⟨w, ws, hw⟩ := List.exists_cons_of_ne_nil (List.splitOnP_ne_nil sep l)
      rw [hw] at ih ⊢
      simpa [hc] using ih

theorem flatten_segments (sep : α → Bool) (l : List α) :
    (segments sep l).flatten = l.filter (!sep ·) := by
  rw [segments, List.flatten_filter_not_isEmpty, flatten_splitOnP]

/-- The first part stands in front, and the others within. -/
theorem splitOnP_infix {ws : List (List α)} (h : l.splitOnP sep = w :: ws) :
    w <+: l ∧ ∀ w' ∈ ws, w' <:+: l := by
  induction l generalizing w ws with
  | nil =>
    rw [List.splitOnP_nil] at h
    cases h
    exact ⟨List.prefix_rfl, by simp⟩
  | cons c l ih =>
    obtain ⟨r, rs, hr⟩ := List.exists_cons_of_ne_nil (List.splitOnP_ne_nil sep l)
    obtain ⟨hfirst, hothers⟩ := ih hr
    rw [List.splitOnP_cons_eq_if_modifyHead, hr] at h
    split at h
    · cases h
      refine ⟨List.nil_prefix, fun w' hw' => ?_⟩
      rcases List.mem_cons.mp hw' with rfl | hw'
      · exact hfirst.isInfix.trans (List.suffix_cons c l).isInfix
      · exact (hothers w' hw').trans (List.suffix_cons c l).isInfix
    · cases h
      exact ⟨(List.prefix_cons_inj c).mpr hfirst, fun w' hw' =>
        (hothers w' hw').trans (List.suffix_cons c l).isInfix⟩

theorem mem_segments (h : w ∈ segments sep l) :
    w ≠ [] ∧ (∀ c ∈ w, sep c = false) ∧ w <:+: l := by
  obtain ⟨hsplit, hne⟩ := List.mem_filter.mp h
  refine ⟨by simpa using hne, fun c hc => ?_, ?_⟩
  · have hmem : c ∈ (l.splitOnP sep).flatten := List.mem_flatten.mpr ⟨w, hsplit, hc⟩
    rw [flatten_splitOnP, List.mem_filter] at hmem
    simpa using hmem.2
  · obtain ⟨r, rs, hr⟩ := List.exists_cons_of_ne_nil (List.splitOnP_ne_nil sep l)
    obtain ⟨hfirst, hothers⟩ := splitOnP_infix hr
    rw [hr] at hsplit
    rcases List.mem_cons.mp hsplit with rfl | hw
    · exact hfirst.isInfix
    · exact hothers w hw

/-- A list without separators is one segment. -/
theorem segments_of_not_sep (hw : w ≠ []) (h : ∀ c ∈ w, sep c = false) : segments sep w = [w] := by
  rw [segments, List.splitOnP_eq_singleton h]
  simp [hw]

theorem segments_append (hw : w ≠ []) (h : ∀ c ∈ w, sep c = false) {c : α} (hc : sep c = true)
    (l : List α) : segments sep (w ++ c :: l) = w :: segments sep l := by
  rw [segments, List.splitOnP_append_cons_of_forall_mem h c hc]
  simp [hw, segments]

end Segments

end Shell
