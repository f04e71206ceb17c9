import OJJudge.Concurrency.Isolation
import OJJudge.CppRunner

/-! Jobs of the pool over the files that they share, the sandbox box among them.  Every command
succeeds and does to the paths that it names what its manual says.  The pool hands each job to one
worker, which runs it to its end, so that each job is a thread here. -/

namespace OJJudge.Sandbox

open Concurrency

/-- What the compiler makes of a source, and what an executable makes of its input. -/
structure Toolchain where
  compile : Bytes → Bytes
  stdout : Bytes → Bytes → Bytes
  stderr : Bytes → Bytes → Bytes

structure Memory (J : Type) where
  redis : String → Option String
  files : String → Option Bytes
  /-- The job that holds the sandbox mutex. -/
  lock : Option J

variable {J : Type}

/-- The path is one of the sandbox box. -/
def inBox (path : String) : Bool := (boxPath "").toList.isPrefixOf path.toList

/-- What the executable in the box writes to one of its streams. -/
def boxOutput (stream : Bytes → Bytes → Bytes) (files : String → Option Bytes) : Option Bytes :=
  (files (boxPath "runner")).bind fun runner => (files (boxPath "input.txt")).map (stream runner)

/-- The files after a command. -/
def Toolchain.spawn (tools : Toolchain) (files : String → Option Bytes) :
    Cmd → String → Option Bytes
  | .gpp source out => Function.update files out ((files source).map tools.compile)
  | .cp source target => Function.update files target (files source)
  | .rm path => Function.update files path none
  | .isolateInit | .isolateCleanup => fun path => if inBox path then none else files path
  | .isolateRun => Function.update (Function.update files (boxPath "output.txt")
      (boxOutput tools.stdout files)) (boxPath "error.txt") (boxOutput tools.stderr files)

/-- `file_cmp`: 1 for equal files, 0 for different ones, and -1 when one cannot be opened. -/
def compareFiles : Option Bytes → Option Bytes → Int
  | some a, some b => if a = b then 1 else 0
  | _, _ => -1

/-- One effect.  A job runs no other operations than these. -/
def exec (tools : Toolchain) (t : J) (o : Op) (m : Memory J) : Option (o.Res × Memory J) :=
  match o with
  | .set key value => some ((), { m with redis := Function.update m.redis key (some value) })
  | .incr key => some (incrReply (m.redis key),
      { m with redis := Function.update m.redis key (incrValue (m.redis key)) })
  | .expire key _ => some ((m.redis key).isSome, m)
  | .spawn cmd => some (0, { m with files := tools.spawn m.files cmd })
  | .lock =>
    match m.lock with
    | none => some ((), { m with lock := some t })
    | some _ => none
  | .unlock => some (0, { m with lock := none })
  | .file_cmp path1 path2 => some (compareFiles (m.files path1) (m.files path2), m)
  | _ => none

@[reducible] def machine (J : Type) (tools : Toolchain) : Machine effects J where
  Mem := Memory J
  Choice := Unit
  exec t o _ m := exec tools t o m

/-- Every job is about to begin. -/
def start (tools : Toolchain) (jobs : J → Runner_task) (m : Memory J) :
    Config (machine J tools) where
  prog t := cpp_runner OJ_Judge (jobs t)
  mem := m
  trace := []

/-! ### Footprints -/

inductive Loc
  | key (key : String)
  | file (path : String)

@[reducible] def Loc.Val : Loc → Type
  | key _ => Option String
  | file _ => Option Bytes

def Memory.view (m : Memory J) : (l : Loc) → l.Val
  | .key key => m.redis key
  | .file path => m.files path

/-- The locations in the box. -/
def box : Set Loc := {l | ∃ path, l = .file path ∧ inBox path = true}

def kind : Op → Kind
  | .lock => .acquire
  | .unlock => .release
  | _ => .plain

def cmdReads : Cmd → Set Loc
  | .gpp source _ => {.file source}
  | .cp source _ => {.file source}
  | .rm _ | .isolateInit | .isolateCleanup => ∅
  | .isolateRun => {.file (boxPath "runner"), .file (boxPath "input.txt")}

def cmdWrites : Cmd → Set Loc
  | .gpp _ out => {.file out}
  | .cp _ target => {.file target}
  | .rm path => {.file path}
  | .isolateInit | .isolateCleanup => box
  | .isolateRun => {.file (boxPath "output.txt"), .file (boxPath "error.txt")}

def reads : Op → Set Loc
  | .incr key | .expire key _ => {.key key}
  | .spawn cmd => cmdReads cmd
  | .file_cmp path1 path2 => {.file path1, .file path2}
  | _ => ∅

def writes : Op → Set Loc
  | .set key _ | .incr key => {.key key}
  | .spawn cmd => cmdWrites cmd
  | _ => ∅

section Spawn

variable (tools : Toolchain) {files files' : String → Option Bytes} {cmd : Cmd}

/-- A command changes only the files that it writes. -/
theorem spawn_of_not_mem {path : String} (h : .file path ∉ cmdWrites cmd) :
    tools.spawn files cmd path = files path := by
  cases cmd with
  | gpp source out | cp source out | rm out =>
    have hne : path ≠ out := by
      rintro rfl
      exact h rfl
    exact Function.update_of_ne hne _ _
  | isolateInit | isolateCleanup =>
    have hbox : ¬inBox path = true := fun hbox => h ⟨path, rfl, hbox⟩
    exact if_neg hbox
  | isolateRun =>
    simp only [cmdWrites, Set.mem_insert_iff, Set.mem_singleton_iff, Loc.file.injEq,
      not_or] at h
    simp only [Toolchain.spawn, Function.update_of_ne h.1, Function.update_of_ne h.2]

/-- What a command writes is decided by the files that it reads. -/
theorem spawn_of_reads (hreads : ∀ path, .file path ∈ cmdReads cmd → files' path = files path)
    {path : String} (h : .file path ∈ cmdWrites cmd) :
    tools.spawn files' cmd path = tools.spawn files cmd path := by
  cases cmd with
  | gpp source out =>
    obtain rfl : path = out := by simpa [cmdWrites] using h
    simp [Toolchain.spawn, hreads source rfl]
  | cp source target =>
    obtain rfl : path = target := by simpa [cmdWrites] using h
    simp [Toolchain.spawn, hreads source rfl]
  | rm target =>
    obtain rfl : path = target := by simpa [cmdWrites] using h
    simp [Toolchain.spawn]
  | isolateInit | isolateCleanup =>
    obtain ⟨_, heq, hbox⟩ := h
    cases heq
    simp [Toolchain.spawn, hbox]
  | isolateRun =>
    have hrunner := hreads (boxPath "runner") (.inl rfl)
    have hinput := hreads (boxPath "input.txt") (.inr rfl)
    have hstream : ∀ stream, boxOutput stream files' = boxOutput stream files := by
      intro stream
      rw [boxOutput, boxOutput, hrunner, hinput]
    simp only [Toolchain.spawn, hstream]
    simp only [cmdWrites, Set.mem_insert_iff, Set.mem_singleton_iff, Loc.file.injEq] at h
    obtain rfl | rfl := h
    · simp
    · simp

end Spawn

section Laws

variable {tools : Toolchain} {t : J} {o : Op} {m m' : Memory J} {r : o.Res}

theorem lock_laws (hk : kind o = .acquire) (h : exec tools t o m = some (r, m')) :
    (m.lock = none ∧ m'.lock = some t ∧ ∀ l, m'.view l = m.view l) ∧
      ∀ s : Memory J, s.lock = none → ∃ s', exec tools t o s = some (r, s') := by
  cases o with
  | lock =>
    cases hlock : m.lock with
    | none =>
      simp only [exec, hlock] at h
      cases h
      refine ⟨⟨rfl, rfl, fun l => by cases l <;> rfl⟩, fun s hs => ?_⟩
      simp only [exec, hs]
      exact ⟨_, rfl⟩
    | some u =>
      simp only [exec, hlock] at h
      cases h
  | _ => cases hk

theorem unlock_laws (hk : kind o = .release) (h : exec tools t o m = some (r, m')) :
    (m'.lock = none ∧ ∀ l, m'.view l = m.view l) ∧
      ∀ s : Memory J, ∃ s', exec tools t o s = some (r, s') := by
  cases o with
  | unlock =>
    cases h
    exact ⟨⟨rfl, fun l => by cases l <;> rfl⟩, fun s => ⟨_, rfl⟩⟩
  | _ => cases hk

/-- A write to a key keeps all else. -/
theorem view_update_redis {key : String} {value : Option String} {l : Loc}
    (hl : l ∉ ({.key key} : Set Loc)) :
    Memory.view { m with redis := Function.update m.redis key value } l = m.view l := by
  cases l with
  | key k =>
    have hne : k ≠ key := by
      rintro rfl
      exact hl rfl
    exact Function.update_of_ne hne _ _
  | file path => rfl

theorem plain_laws (hk : kind o = .plain) (h : exec tools t o m = some (r, m')) :
    (m'.lock = m.lock ∧ ∀ l, l ∉ writes o → m'.view l = m.view l) ∧
      ∀ s : Memory J, (∀ l ∈ reads o, s.view l = m.view l) →
        ∃ s', exec tools t o s = some (r, s') ∧ ∀ l ∈ writes o, s'.view l = m'.view l := by
  cases o with
  | set key value =>
    cases h
    refine ⟨⟨rfl, fun l hl => view_update_redis hl⟩, fun s _ => ⟨_, rfl, ?_⟩⟩
    rintro l rfl
    simp [Memory.view]
  | incr key =>
    cases h
    refine ⟨⟨rfl, fun l hl => view_update_redis hl⟩, fun s hs => ?_⟩
    have hkey : s.redis key = m.redis key := hs (.key key) rfl
    refine ⟨{ s with redis := Function.update s.redis key (incrValue (s.redis key)) },
      by simp only [exec, hkey], ?_⟩
    rintro l rfl
    simp [Memory.view, hkey]
  | expire key seconds =>
    cases h
    refine ⟨⟨rfl, fun _ _ => rfl⟩, fun s hs => ⟨s, ?_, fun l hl => nomatch hl⟩⟩
    have hkey : s.redis key = m.redis key := hs (.key key) rfl
    simp only [exec, hkey]
  | spawn cmd =>
    cases h
    refine ⟨⟨rfl, fun l hl => ?_⟩, fun s hs => ⟨_, rfl, fun l hl => ?_⟩⟩
    · cases l with
      | key k => rfl
      | file path => exact spawn_of_not_mem tools hl
    · have hfiles : ∀ path, .file path ∈ cmdReads cmd → s.files path = m.files path :=
        fun path hpath => hs (.file path) hpath
      cases l with
      | key k => cases cmd <;> simp [writes, cmdWrites, box] at hl
      | file path => exact spawn_of_reads tools hfiles hl
  | file_cmp path1 path2 =>
    cases h
    refine ⟨⟨rfl, fun _ _ => rfl⟩, fun s hs => ⟨s, ?_, fun l hl => nomatch hl⟩⟩
    have h1 : s.files path1 = m.files path1 := hs (.file path1) (.inl rfl)
    have h2 : s.files path2 = m.files path2 := hs (.file path2) (.inr rfl)
    simp only [exec, h1, h2]
  | lock | unlock => cases hk
  | _ => cases h

end Laws

/-- The footprints of the operations of a job. -/
@[reducible] def footprint (J : Type) (tools : Toolchain) : Footprint (machine J tools) where
  Loc := Loc
  Val := Loc.Val
  view m := m.view
  holder m := m.lock
  kind := kind
  reads := reads
  writes := writes
  acquire := lock_laws
  release := unlock_laws
  plain := plain_laws

end OJJudge.Sandbox
