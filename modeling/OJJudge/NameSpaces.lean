import OJJudge.CppRunner

/-! The names of two submissions.  All of them come from `user_name ++ "__" ++ porblem_title`, which
says neither where the user ends nor what kind of name follows, so the names of two submissions are
disjoint only when neither name can be read as the other one with a suffix. -/

namespace OJJudge

/-- The Redis keys of the submissions with a `file_name`. -/
def keysOf (file_name : String) : Set String :=
  {judgeKey file_name, sumKey file_name} ∪ Set.range (testKey file_name)

/-- The files of the submissions with a `file_name`. -/
def filesOf (file_name : String) : Set String :=
  {cppPath OJ_Judge.waiting_judge file_name, runPath OJ_Judge file_name} ∪
    Set.range (outputPath OJ_Judge.waiting_judge file_name)

@[simp] theorem judgeKey_inj {f g : String} : judgeKey f = judgeKey g ↔ f = g := by
  simp [judgeKey]

theorem judgeKey_eq_sumKey {f g : String} : judgeKey f = sumKey g ↔ f = g ++ "__sum" := by
  rw [judgeKey, sumKey, String.append_assoc]
  exact String.append_right_inj _

theorem judgeKey_eq_testKey {f g : String} {i : Nat} :
    judgeKey f = testKey g i ↔ f = g ++ "_" ++ toString i := by
  rw [judgeKey, testKey, String.append_assoc, String.append_assoc, String.append_assoc]
  exact String.append_right_inj _

@[simp] theorem cppPath_inj {path f g : String} : cppPath path f = cppPath path g ↔ f = g := by
  unfold cppPath
  rw [String.append_left_inj, String.append_right_inj]

@[simp] theorem runPath_inj {f g : String} : runPath OJ_Judge f = runPath OJ_Judge g ↔ f = g := by
  unfold runPath
  rw [String.append_left_inj, String.append_right_inj]

@[simp] theorem outputPath_inj {path f g : String} {i j : Nat} :
    outputPath path f i = outputPath path g j ↔ f = g ∧ i = j := by
  constructor
  · intro h
    have hlist : (f.toList ++ "_output".toList) ++ '_' :: Nat.toDigits 10 i =
        (g.toList ++ "_output".toList) ++ '_' :: Nat.toDigits 10 j := by
      apply @List.append_cancel_right _ _ ".txt".toList
      simpa [outputPath] using congrArg String.toList h
    obtain ⟨hf, hi⟩ := append_cons_inj Nat.underscore_not_in_toDigits
      Nat.underscore_not_in_toDigits hlist
    have hval := congrArg (Nat.ofDigitChars 10 · 0) hi
    simp only [Nat.ofDigitChars_ten_toDigits] at hval
    exact ⟨String.toList_inj.mp (List.append_cancel_right hf), hval⟩
  · rintro ⟨rfl, rfl⟩
    rfl

theorem disjoint_keysOf {f g : String} :
    Disjoint (keysOf f) (keysOf g) ↔ f ≠ g ∧ f ≠ g ++ "__sum" ∧ g ≠ f ++ "__sum" ∧
      (∀ i : Nat, f ≠ g ++ "_" ++ toString i) ∧ ∀ i : Nat, g ≠ f ++ "_" ++ toString i := by
  rw [Set.disjoint_left]
  constructor
  · intro h
    refine ⟨?_, ?_, ?_, ?_, ?_⟩
    · rintro rfl
      exact h (a := judgeKey f) (by simp [keysOf]) (by simp [keysOf])
    · intro heq
      exact h (a := judgeKey f) (by simp [keysOf]) (by simp [keysOf, judgeKey_eq_sumKey.mpr heq])
    · intro heq
      exact h (a := sumKey f) (by simp [keysOf]) (by simp [keysOf, judgeKey_eq_sumKey.mpr heq])
    · intro i heq
      exact h (a := judgeKey f) (by simp [keysOf]) (by simp [keysOf, judgeKey_eq_testKey.mpr heq])
    · intro i heq
      exact h (a := testKey f i) (by simp [keysOf]) (by simp [keysOf, judgeKey_eq_testKey.mpr heq])
  · rintro ⟨hne, hsum, hsum', htest, htest'⟩ key hf hg
    simp only [keysOf, Set.mem_union, Set.mem_insert_iff, Set.mem_singleton_iff,
      Set.mem_range] at hf hg
    obtain (rfl | rfl) | ⟨i, rfl⟩ := hf
    · obtain (h | h) | ⟨j, h⟩ := hg
      · exact hne (judgeKey_inj.mp h)
      · exact hsum (judgeKey_eq_sumKey.mp h)
      · exact htest j (judgeKey_eq_testKey.mp h.symm)
    · obtain (h | h) | ⟨j, h⟩ := hg
      · exact hsum' (judgeKey_eq_sumKey.mp h.symm)
      · exact hne (sumKey_inj.mp h)
      · exact absurd h (testKey_ne_sumKey g f j)
    · obtain (h | h) | ⟨j, h⟩ := hg
      · exact htest' i (judgeKey_eq_testKey.mp h.symm)
      · exact absurd h (testKey_ne_sumKey f g i)
      · exact hne (testKey_inj.mp h).1.symm

theorem disjoint_filesOf {f g : String} : Disjoint (filesOf f) (filesOf g) ↔ f ≠ g := by
  rw [Set.disjoint_left]
  constructor
  · rintro h rfl
    exact h (a := runPath OJ_Judge f) (by simp [filesOf]) (by simp [filesOf])
  · intro hne path hf hg
    simp only [filesOf, Set.mem_union, Set.mem_insert_iff, Set.mem_singleton_iff,
      Set.mem_range] at hf hg
    obtain (rfl | rfl) | ⟨i, rfl⟩ := hf
    · obtain (h | h) | ⟨j, h⟩ := hg
      · exact hne (cppPath_inj.mp h)
      · exact cppPath_ne_runPath f g h
      · exact outputPath_ne_cppPath g f j h
    · obtain (h | h) | ⟨j, h⟩ := hg
      · exact cppPath_ne_runPath g f h.symm
      · exact hne (runPath_inj.mp h)
      · exact outputPath_ne_runPath g f j h
    · obtain (h | h) | ⟨j, h⟩ := hg
      · exact outputPath_ne_cppPath f g i h
      · exact outputPath_ne_runPath f g i h
      · exact hne (outputPath_inj.mp h).1.symm

/-- Two submissions have separate name spaces exactly when neither `file_name` is the other one, or
the other one followed by `__sum`, or by `_` and a number. -/
theorem separate_names_iff (user title user' title' : String) :
    Disjoint (keysOf (fileName user title)) (keysOf (fileName user' title')) ∧
        Disjoint (filesOf (fileName user title)) (filesOf (fileName user' title')) ↔
      fileName user title ≠ fileName user' title' ∧
      fileName user title ≠ fileName user' title' ++ "__sum" ∧
      fileName user' title' ≠ fileName user title ++ "__sum" ∧
      (∀ i : Nat, fileName user title ≠ fileName user' title' ++ "_" ++ toString i) ∧
      ∀ i : Nat, fileName user' title' ≠ fileName user title ++ "_" ++ toString i := by
  rw [disjoint_keysOf, disjoint_filesOf]
  tauto

/-- User `a` with problem `b__c` and user `a__b` with problem `c` share every name. -/
theorem shared_names :
    ("a", "b__c") ≠ ("a__b", "c") ∧
      ¬(Disjoint (keysOf (fileName "a" "b__c")) (keysOf (fileName "a__b" "c")) ∧
        Disjoint (filesOf (fileName "a" "b__c")) (filesOf (fileName "a__b" "c"))) := by
  have hsame : fileName "a" "b__c" = fileName "a__b" "c" := by decide
  refine ⟨by decide, fun h => ?_⟩
  rw [hsame] at h
  exact (disjoint_filesOf.mp h.2) rfl

end OJJudge
