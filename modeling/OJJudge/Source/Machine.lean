import OJJudge.Concurrency.Interleaving
import OJJudge.Handlers

/-! Submissions of one user and problem over shared files.  Every submission writes the same source
file and compiles it to the same executable, so the model follows which bytes a source file holds
and whose compile command has written an executable.  Redis, the database and the statuses of the
commands answer in any way. -/

namespace OJJudge.Source

open Concurrency

structure Memory where
  /-- The inode that a source path names. -/
  inode : String → Option Nat
  content : Nat → Bytes
  /-- The inode behind a file descriptor. -/
  fdInode : Nat → Nat
  opened : Nat
  inodes : Nat
  inode_lt : ∀ path i, inode path = some i → i < inodes
  /-- The submission whose compile command has written the executable at a path. -/
  maker : String → Option Nat
  /-- The holder of the sandbox mutex. -/
  lock : Option Nat

/-- The bytes of a source file. -/
def Memory.source (m : Memory) (path : String) : Option Bytes := (m.inode path).map m.content

/-- `open(path, O_RDWR | O_CREAT, 0775)`: a file that exists keeps its bytes. -/
def Memory.openFile (m : Memory) (path : String) : Memory :=
  match m.inode path with
  | some i =>
    { m with fdInode := Function.update m.fdInode m.opened i, opened := m.opened + 1 }
  | none =>
    { m with
      inode := Function.update m.inode path (some m.inodes)
      content := Function.update m.content m.inodes []
      fdInode := Function.update m.fdInode m.opened m.inodes
      opened := m.opened + 1
      inodes := m.inodes + 1
      inode_lt := by
        intro path' i h
        by_cases hpath : path' = path
        · subst hpath
          rw [Function.update_self] at h
          cases h
          omega
        · rw [Function.update_of_ne hpath] at h
          have hlt := m.inode_lt path' i h
          omega }

/-- `write` on a descriptor at offset zero: bytes behind the written ones stay. -/
def Memory.write (m : Memory) (fd : Nat) (body : Bytes) : Memory :=
  { m with
    content := Function.update m.content (m.fdInode fd)
      (body ++ (m.content (m.fdInode fd)).drop body.length) }

/-- The executable at `out` is now the one of submission `t`. -/
def Memory.make (m : Memory) (out : String) (t : Option Nat) : Memory :=
  { m with maker := Function.update m.maker out t }

/-- `rm path`. -/
def Memory.remove (m : Memory) (path : String) : Memory :=
  { m with
    inode := Function.update m.inode path none
    maker := Function.update m.maker path none
    inode_lt := by
      intro path' i h
      by_cases hpath : path' = path
      · subst hpath
        rw [Function.update_self] at h
        cases h
      · rw [Function.update_of_ne hpath] at h
        exact m.inode_lt path' i h }

/-- One effect.  The choice gives the responses that files do not decide; commands have their effect
when their status is zero.  The targets of `cp` are never source files. -/
def exec (t : Nat) (o : Op) (x : (o : Op) → o.Res) (m : Memory) : Option (o.Res × Memory) :=
  match o with
  | .openFile path => some (m.opened, m.openFile path)
  | .write fd body => some ((), m.write fd body)
  | .spawn (.gpp source out) =>
    match m.inode source with
    | none => some (1, m)
    | some _ =>
      if x (.spawn (.gpp source out)) = 0 then some (0, m.make out (some t))
      else some (x (.spawn (.gpp source out)), m)
  | .spawn (.cp source target) =>
    if x (.spawn (.cp source target)) = 0 then some (0, m.make target (m.maker source))
    else some (x (.spawn (.cp source target)), m)
  | .spawn (.rm path) => some (x (.spawn (.rm path)), m.remove path)
  | .lock =>
    match m.lock with
    | none => some ((), { m with lock := some t })
    | some _ => none
  | .unlock => some (0, { m with lock := none })
  | o => some (x o, m)

@[reducible] def machine : Machine effects Nat where
  Mem := Memory
  Choice := (o : Op) → o.Res
  exec := exec

/-- Every submission of the pair is about to begin. -/
def start (user_name porblem_title : String) (body : Nat → Bytes) (m : Memory) :
    Config machine where
  prog k := runCpp OJ_Judge user_name porblem_title (body k)
  mem := m
  trace := []

/-- No file exists. -/
def Memory.empty : Memory where
  inode _ := none
  content _ := []
  fdInode _ := 0
  opened := 0
  inodes := 0
  inode_lt _ _ h := by cases h
  maker _ := none
  lock := none

/-- Responses of a database with one test for every problem, and of commands that succeed. -/
def answers : (o : Op) → o.Res
  | .get _ => none
  | .incr _ => 1
  | .expire _ _ => true
  | .query _ => [["1.in", "1.out"]]
  | .openFile _ => 0
  | .spawn _ | .unlock => 0
  | .file_cmp _ _ => 1
  | .set _ _ | .del _ | .write _ _ | .close _ | .push _ | .lock | .set_status_code _
  | .append_output_body _ | .append_output_text _ | .append_output_rows _ | .send_string _
  | .add_header _ _ | .crypt _ _ | .out_of_range => ()
  | .crypt_buffer => ""
  | .localtime => ⟨0, 0, 0⟩

end OJJudge.Source
