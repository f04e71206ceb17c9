import OJJudge.Sandbox.Machine

/-! `file_cmp` at the level of its reads.  Two open files are read block by block into two buffers on
the stack, and the comparison decides whether the whole files are equal. -/

namespace OJJudge.Stdio

/-- `sizeof(buf1)`. -/
def blockSize : Nat := 4096

/-- A buffer on the stack; it may hold any bytes at first. -/
structure Buffer where
  bytes : Bytes
  length_eq : bytes.length = blockSize

/-- A file open for reading. -/
structure FILE where
  contents : Bytes
  position : Nat

/-- The bytes that are still to be read. -/
def FILE.rest (f : FILE) : Bytes := f.contents.drop f.position

/-- `fopen(path, "rb")`, with the contents of the file at the path, if it can be opened. -/
def fopen (contents : Option Bytes) : Option FILE := contents.map fun contents => ⟨contents, 0⟩

/-- What `fread` leaves: the number of bytes read, the buffer and the file. -/
structure Fread where
  n : Nat
  buf : Buffer
  file : FILE

/-- `fread(buf, 1, sizeof(buf), f)`: a full block, or the bytes before the end of the file.  The
buffer keeps its bytes behind them. -/
def fread (buf : Buffer) (f : FILE) : Fread where
  n := (f.rest.take blockSize).length
  buf :=
    { bytes := f.rest.take blockSize ++ buf.bytes.drop (f.rest.take blockSize).length
      length_eq := by
        have hlen := buf.length_eq
        simp only [List.length_append, List.length_take, List.length_drop]
        omega }
  file := { f with position := f.position + (f.rest.take blockSize).length }

/-- `memcmp(buf1, buf2, n)`: the difference of the first two bytes that differ. -/
def memcmp : Bytes → Bytes → Nat → Int
  | x :: buf1, y :: buf2, n + 1 =>
    if x = y then memcmp buf1 buf2 n else (x.toNat : Int) - y.toNat
  | _, _, _ => 0

/-! ### Reads -/

section Reads

variable (buf : Buffer) (f : FILE)

theorem fread_n : (fread buf f).n = min blockSize f.rest.length := by
  simp [fread]

/-- The bytes that a read puts into the buffer. -/
theorem take_fread : (fread buf f).buf.bytes.take (fread buf f).n = f.rest.take blockSize :=
  List.take_left

theorem fread_n_le : (fread buf f).n ≤ (fread buf f).buf.bytes.length := by
  rw [(fread buf f).buf.length_eq, fread_n]
  omega

theorem rest_fread : (fread buf f).file.rest = f.rest.drop blockSize := by
  show f.contents.drop (f.position + _) = (f.contents.drop f.position).drop _
  rw [List.drop_drop, List.length_take]
  by_cases h : blockSize ≤ f.rest.length
  · rw [min_eq_left h]
  · -- Both reads end behind the last byte.
    have hlen : f.rest.length = f.contents.length - f.position := List.length_drop
    rw [List.drop_eq_nil_of_le (by omega), List.drop_eq_nil_of_le (by omega)]

/-- A read of some bytes brings the end of the file nearer. -/
theorem length_rest_fread (h : 0 < (fread buf f).n) :
    (fread buf f).file.rest.length < f.rest.length := by
  rw [fread_n] at h
  rw [rest_fread, List.length_drop]
  have hblock : 0 < blockSize := by decide
  omega

end Reads

theorem memcmp_eq_zero_iff {a b : Bytes} {n : Nat} (ha : n ≤ a.length) (hb : n ≤ b.length) :
    memcmp a b n = 0 ↔ a.take n = b.take n := by
  induction n generalizing a b with
  | zero =>
    rw [List.take_zero, List.take_zero]
    unfold memcmp
    simp
  | succ n ih =>
    obtain ⟨x, a, rfl⟩ := List.exists_cons_of_length_pos (show 0 < a.length by omega)
    obtain ⟨y, b, rfl⟩ := List.exists_cons_of_length_pos (show 0 < b.length by omega)
    simp only [List.length_cons] at ha hb
    rw [memcmp, List.take_succ_cons, List.take_succ_cons, List.cons.injEq]
    split
    · next hxy =>
      rw [ih (by omega) (by omega)]
      exact ⟨fun h => ⟨hxy, h⟩, fun h => h.2⟩
    · next hxy =>
      constructor
      · intro h
        refine absurd (UInt8.toNat_inj.mp ?_) hxy
        omega
      · intro h
        exact absurd h.1 hxy

/-! ### The comparison -/

/-- The loop of `file_cmp`; every turn but the last one reads a byte at least. -/
def compareBlocks (buf1 buf2 : Buffer) (f1 f2 : FILE) : Int :=
  let r1 := fread buf1 f1
  let r2 := fread buf2 f2
  if r1.n ≠ r2.n ∨ memcmp r1.buf.bytes r2.buf.bytes r1.n ≠ 0 then 0
  else if _ : r1.n > 0 ∧ r2.n > 0 then compareBlocks r1.buf r2.buf r1.file r2.file
  else 1
termination_by f1.rest.length
decreasing_by
  rename_i h
  exact length_rest_fread buf1 f1 h.1

/-- The two files are given by their contents, or `none` for one that cannot be opened. -/
def file_cmp (buf1 buf2 : Buffer) (file1 file2 : Option Bytes) : Int :=
  match fopen file1, fopen file2 with
  | some f1, some f2 => compareBlocks buf1 buf2 f1 f2
  | _, _ => -1

/-- The loop compares what is left of the two files. -/
theorem compareBlocks_eq (buf1 buf2 : Buffer) (f1 f2 : FILE) :
    compareBlocks buf1 buf2 f1 f2 = if f1.rest = f2.rest then 1 else 0 := by
  fun_induction compareBlocks buf1 buf2 f1 f2 with
  | case1 buf1 buf2 f1 f2 r1 r2 hdiffer =>
    refine (if_neg fun hrest => ?_).symm
    have hn : r1.n = r2.n := by rw [fread_n, fread_n, hrest]
    obtain hne | hne := hdiffer
    · exact hne hn
    · refine hne ((memcmp_eq_zero_iff (fread_n_le buf1 f1) (hn ▸ fread_n_le buf2 f2)).mpr ?_)
      rw [take_fread, hrest, ← take_fread buf2 f2, hn]
  | case2 buf1 buf2 f1 f2 r1 r2 hsame hmore ih =>
    rw [not_or, not_not, not_not] at hsame
    obtain ⟨hn, hcmp⟩ := hsame
    rw [memcmp_eq_zero_iff (fread_n_le buf1 f1) (hn ▸ fread_n_le buf2 f2), take_fread, hn,
      take_fread] at hcmp
    rw [ih, rest_fread, rest_fread]
    -- The first blocks are equal, so the files are equal when what follows is.
    have hiff : f1.rest.drop blockSize = f2.rest.drop blockSize ↔ f1.rest = f2.rest := by
      constructor
      · intro hdrop
        rw [← List.take_append_drop blockSize f1.rest, hcmp, hdrop, List.take_append_drop]
      · intro hrest
        rw [hrest]
    simp only [hiff]
  | case3 buf1 buf2 f1 f2 r1 r2 hsame hend =>
    rw [not_or, not_not] at hsame
    have hn : min blockSize f1.rest.length = min blockSize f2.rest.length := by
      rw [← fread_n buf1 f1, ← fread_n buf2 f2]
      exact hsame.1
    have hzero : ¬(0 < min blockSize f1.rest.length ∧ 0 < min blockSize f2.rest.length) := by
      rw [← fread_n buf1 f1, ← fread_n buf2 f2]
      exact hend
    have hblock : 0 < blockSize := by decide
    have h1 : f1.rest = [] := List.eq_nil_of_length_eq_zero (by omega)
    have h2 : f2.rest = [] := List.eq_nil_of_length_eq_zero (by omega)
    rw [h1, h2, if_pos rfl]

/-- The comparison that the machine of the jobs has. -/
theorem file_cmp_eq_compareFiles (buf1 buf2 : Buffer) (file1 file2 : Option Bytes) :
    file_cmp buf1 buf2 file1 file2 = Sandbox.compareFiles file1 file2 := by
  cases file1 with
  | none => rfl
  | some a =>
    cases file2 with
    | none => rfl
    | some b => exact compareBlocks_eq buf1 buf2 ⟨a, 0⟩ ⟨b, 0⟩

/-- The comparison of two files is equality, and `-1` stands for a file that cannot be opened. -/
theorem file_cmp_decides_equality (buf1 buf2 : Buffer) :
    (∀ A B : Bytes, file_cmp buf1 buf2 (some A) (some B) = if A = B then 1 else 0) ∧
      ∀ file1 file2 : Option Bytes,
        file_cmp buf1 buf2 file1 file2 = -1 ↔ file1 = none ∨ file2 = none := by
  refine ⟨fun A B => file_cmp_eq_compareFiles buf1 buf2 (some A) (some B), fun file1 file2 => ?_⟩
  rw [file_cmp_eq_compareFiles]
  cases file1 with
  | none => simp [Sandbox.compareFiles]
  | some a =>
    cases file2 with
    | none => simp [Sandbox.compareFiles]
    | some b =>
      simp only [Sandbox.compareFiles, reduceCtorEq, or_self, iff_false]
      split <;> decide

end OJJudge.Stdio
