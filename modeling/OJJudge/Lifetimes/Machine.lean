import OJJudge.Storage.Machine

/-! The storage with the time limits of its keys.  Time passes before every step, and a key is gone
once its deadline has passed.  `SET` drops the deadline of its key, `EXPIRE` gives one to a key that
is there, and `INCR` makes a missing key without one. -/

namespace OJJudge.Lifetimes

open Concurrency

structure Memory where
  store : Storage.Memory
  /-- The time in seconds. -/
  now : Nat
  /-- The deadline of each key that has one. -/
  deadline : String → Option Nat
  /-- The key has been made by an `INCR`. -/
  counted : String → Bool

namespace Memory

variable (m : Memory)

/-- The key's deadline has passed. -/
def gone (now : Nat) (key : String) : Bool :=
  match m.deadline key with
  | some d => d < now
  | none => false

/-- The memory after `seconds` in which nothing runs. -/
def wait (seconds : Nat) : Memory :=
  { m with
    now := m.now + seconds
    store := { m.store with
      redis := fun key => if m.gone (m.now + seconds) key then none else m.store.redis key } }

/-- What an operation that succeeds does to the deadlines. -/
def stamp : Op → Memory
  | .set key _ =>
    { m with
      deadline := Function.update m.deadline key none
      counted := Function.update m.counted key false }
  | .incr key =>
    if (m.store.redis key).isSome then m
    else
      { m with
        deadline := Function.update m.deadline key none
        counted := Function.update m.counted key true }
  | .expire key seconds =>
    if (m.store.redis key).isSome then
      { m with deadline := Function.update m.deadline key (some (m.now + seconds)) }
    else m
  | _ => m

end Memory

/-- What a step leaves open: the time that passes before it, and what it leaves open in the storage. -/
structure Choice where
  elapsed : Nat
  storage : Storage.Choice

/-- One effect: time passes, and the storage runs the operation. -/
def exec (lib : Library) (mayFail : Op → Bool) (t : Nat) (o : Op) (x : Choice) (m : Memory) :
    Option (o.Res × Memory) :=
  (Storage.exec lib mayFail t o x.storage (m.wait x.elapsed).store).map fun e =>
    let after :=
      if mayFail o ∧ x.storage.fault then m.wait x.elapsed else (m.wait x.elapsed).stamp o
    (e.1, { after with store := e.2 })

@[reducible] def machine (lib : Library) (mayFail : Op → Bool) : Machine effects Nat where
  Mem := Memory
  Choice := Choice
  exec := exec lib mayFail

/-- Every request is about to begin. -/
def start (lib : Library) (mayFail : Op → Bool) (requests : Nat → Storage.Request) (m : Memory) :
    Config (machine lib mayFail) where
  prog t := (requests t).prog lib
  mem := m
  trace := []

/-! ### Time -/

namespace Memory

variable (m : Memory) {seconds : Nat} {key : String}

@[simp] theorem now_wait : (m.wait seconds).now = m.now + seconds := rfl

@[simp] theorem deadline_wait : (m.wait seconds).deadline = m.deadline := rfl

@[simp] theorem counted_wait : (m.wait seconds).counted = m.counted := rfl

@[simp] theorem redis_wait : (m.wait seconds).store.redis key =
    if m.gone (m.now + seconds) key then none else m.store.redis key := rfl

@[simp] theorem now_stamp (o : Op) : (m.stamp o).now = m.now := by
  unfold stamp
  split
  · rfl
  · split <;> rfl
  · split <;> rfl
  · rfl

/-- A key that is still there has been there before, and its deadline has not passed. -/
theorem of_redis_wait (h : ((m.wait seconds).store.redis key).isSome = true) :
    (m.store.redis key).isSome = true ∧ ∀ d, m.deadline key = some d → m.now + seconds ≤ d := by
  rw [redis_wait] at h
  split at h
  · cases h
  · next hgone =>
    refine ⟨h, fun d hd => ?_⟩
    rw [gone, hd] at hgone
    simpa using hgone

end Memory

section Steps

variable {lib : Library} {mayFail : Op → Bool} {t : Nat} {o : Op} {x : Choice} {m m' : Memory}
  {r : o.Res}

/-- An operation fails, so that only time passes, or it succeeds after the time. -/
theorem exec_cases (h : exec lib mayFail t o x m = some (r, m')) :
    (mayFail o = true ∧ r = Storage.failure x.storage.answer o ∧ m' = m.wait x.elapsed) ∨
      (r = (m.wait x.elapsed).store.response x.storage.answer o ∧
        m' = { (m.wait x.elapsed).stamp o with
          store := (m.wait x.elapsed).store.after lib t x.storage.files o }) := by
  obtain ⟨⟨r', store⟩, hexec, heq⟩ := Option.map_eq_some_iff.mp h
  unfold Storage.exec at hexec
  split at hexec
  · cases hexec
  · split at hexec
    · next hfail =>
      cases hexec
      rw [if_pos hfail] at heq
      cases heq
      exact .inl ⟨hfail.1, rfl, rfl⟩
    · next hfail =>
      cases hexec
      rw [if_neg hfail] at heq
      cases heq
      exact .inr ⟨rfl, rfl⟩

/-- When no time passes and no deadline has passed before, the storage steps as it does without
deadlines. -/
theorem exec_now (helapsed : x.elapsed = 0)
    (hthere : ∀ key, m.gone m.now key = true → m.store.redis key = none) :
    (exec lib mayFail t o x m).map (fun e => (e.1, e.2.store)) =
      Storage.exec lib mayFail t o x.storage m.store := by
  have hredis : (m.wait x.elapsed).store.redis = m.store.redis := by
    funext key
    rw [helapsed, Memory.redis_wait, Nat.add_zero]
    split
    · next hgone => exact (hthere key hgone).symm
    · rfl
  have hstore : (m.wait x.elapsed).store = m.store := by
    show { m.store with redis := (m.wait x.elapsed).store.redis } = m.store
    rw [hredis]
  rw [exec, hstore, Option.map_map]
  cases Storage.exec lib mayFail t o x.storage m.store with
  | none => rfl
  | some e => rfl

end Steps

end OJJudge.Lifetimes
