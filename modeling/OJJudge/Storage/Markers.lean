import OJJudge.Concurrency.Totals
import OJJudge.Storage.Crossing

/-! Uploads of the files of one test, in any order of their storage operations.  An input file sets a
marker, and an answer file needs the marker and deletes it with the last of its tasks, so that other
answer files can find the marker in between. -/

namespace OJJudge.Storage

open Concurrency

/-- A request that uploads a file of a test. -/
inductive CaseUpload
  | add_test_in (user : String) (body : Bytes)
  | add_test_out (user : String) (body : Bytes)

def CaseUpload.upload (problem_id case_id : String) : CaseUpload → Upload
  | add_test_in user body => .testIn user problem_id case_id body
  | add_test_out user body => .testOut user problem_id case_id body

theorem eq_some_of_getD {α : Type} {value : Option α} {d v : α} (h : value.getD d = v)
    (hd : d ≠ v) : value = some v := by
  cases value with
  | none => exact absurd h hd
  | some w => exact congrArg some h

/-! ### The events of a test -/

section Events

variable (problem_id case_id : String)

/-- An input file is accepted. -/
def setsMarker : Event effects → Bool
  | ⟨.set key _, _⟩ => key = inCaseName problem_id case_id
  | _ => false

/-- The look-up of an answer file finds the marker. -/
def findsMarker : Event effects → Bool
  | ⟨.get key, value⟩ => key = inCaseName problem_id case_id ∧ value = some "1"
  | _ => false

def insertsRow : Event effects → Bool
  | ⟨.query (.insertTestCase p input output), _⟩ =>
    p = problem_id ∧ input = inCaseName problem_id case_id ∧
      output = outputCaseName problem_id case_id
  | _ => false

def deletesMarker : Event effects → Bool
  | ⟨.del key, _⟩ => key = inCaseName problem_id case_id
  | _ => false

/-- A thread with these events, newest first, has found the marker and not deleted it since. -/
def holdsMarker : List (Event effects) → Bool
  | [] => false
  | e :: earlier => findsMarker problem_id case_id e ||
    (!deletesMarker problem_id case_id e && holdsMarker earlier)

variable (trace : List (Nat × Event effects))

/-- The input files accepted so far. -/
def inputs : Nat := trace.countP fun e => setsMarker problem_id case_id e.2

/-- The answer files so far whose look-up found the marker. -/
def found : Nat := trace.countP fun e => findsMarker problem_id case_id e.2

/-- The rows inserted so far. -/
def rows : Nat := trace.countP fun e => insertsRow problem_id case_id e.2

/-- An answer file has found the marker and is still to delete it. -/
def held : Bool := trace.any fun e => holdsMarker problem_id case_id (own e.1 trace)

end Events

/-- A request inserts a row only after it has found the marker. -/
theorem wp_upload (problem_id case_id : String) (request : CaseUpload) :
    (request.upload problem_id case_id).prog.Wp (Records fun _ _ => True)
      (fun h _ => h.countP (insertsRow problem_id case_id) ≤
        h.countP (findsMarker problem_id case_id))
      (fun _ h => h.countP (insertsRow problem_id case_id) ≤
        h.countP (findsMarker problem_id case_id)) [] := by
  cases request with
  | add_test_in user body =>
    simp only [CaseUpload.upload, Upload.prog, add_test_in, checkRole, storeFile, effect_eq,
      Prog.op_bind, Prog.ret_bind]
    refine ⟨le_rfl, ?_⟩
    rintro sql_kv _ ⟨-, rfl⟩
    dsimp only
    split
    · split
      · simp [Records, insertsRow, findsMarker]
      · simp [Records, insertsRow, findsMarker]
    · simp [Records, insertsRow, findsMarker]
  | add_test_out user body =>
    simp only [CaseUpload.upload, Upload.prog, add_test_out, checkRole, storeFile, effect_eq,
      Prog.op_bind, Prog.ret_bind, my_sync_check_token, Prog.pure_eq]
    refine ⟨le_rfl, ?_⟩
    rintro sql_kv _ ⟨-, rfl⟩
    dsimp only
    split
    · split
      · simp [Records, insertsRow, findsMarker]
      · refine ⟨by simp [insertsRow, findsMarker], ?_⟩
        rintro value _ ⟨-, rfl⟩
        dsimp only
        split
        · next hvalue =>
          have hsome : value = some "1" := eq_some_of_getD hvalue (by decide)
          subst hsome
          simp [Records, insertsRow, findsMarker]
        · simp [Records, insertsRow, findsMarker]
    · simp [Records, insertsRow, findsMarker]

/-- No request of a test counts on the key of the marker. -/
theorem upload_only (problem_id case_id : String) (request : CaseUpload) :
    (request.upload problem_id case_id).prog.Only fun o : Op =>
      o ≠ .incr (inCaseName problem_id case_id) := by
  cases request with
  | add_test_in user body =>
    refine (add_test_in_only OJ_Judge user problem_id case_id body).mono ?_
    rintro o ho rfl
    cases ho
  | add_test_out user body =>
    refine (add_test_out_only OJ_Judge user problem_id case_id body).mono ?_
    intro o ho heq
    cases ho with
    | count => exact counterKey_ne_inCaseName _ _ _ (Op.incr.inj heq)
    | _ => cases heq

/-! ### What an event changes -/

section Held

variable {problem_id case_id : String} {t : Nat} {e : Event effects}
  {trace : List (Nat × Event effects)}

theorem held_of_finds (h : findsMarker problem_id case_id e = true) :
    held problem_id case_id ((t, e) :: trace) = true := by
  simp [held, holdsMarker, h]

/-- Only a deletion ends the hold of a request. -/
theorem held_cons (hdelete : deletesMarker problem_id case_id e = false)
    (h : held problem_id case_id trace = true) :
    held problem_id case_id ((t, e) :: trace) = true := by
  obtain ⟨e', hmem, hholds⟩ := List.any_eq_true.mp h
  refine List.any_eq_true.mpr ⟨e', List.mem_cons_of_mem _ hmem, ?_⟩
  by_cases ht : t = e'.1
  · subst ht
    rw [own_cons_same, holdsMarker, hdelete, hholds]
    simp
  · rwa [own_cons_ne ht]

end Held

section Effects

variable {lib : Library} {t : Nat} {o : Op} {x : Choice} {m m' : Memory} {r : o.Res}
  {problem_id case_id : String}

/-- A look-up that finds the marker reads it in the memory. -/
theorem marker_of_finds (h : exec lib lapses t o x m = some (r, m'))
    (hfinds : findsMarker problem_id case_id ⟨o, r⟩ = true) :
    o = .get (inCaseName problem_id case_id) ∧
      m.redis (inCaseName problem_id case_id) = some "1" := by
  cases o with
  | get key =>
    obtain ⟨rfl, hr⟩ : key = inCaseName problem_id case_id ∧ r = some "1" := by
      simpa [findsMarker] using hfinds
    obtain ⟨-, hnone, -⟩ | ⟨hread, -⟩ := exec_cases h
    · rw [hr] at hnone
      cases hnone
    · exact ⟨rfl, hread.symm.trans hr⟩
  | _ => cases hfinds

/-- The marker changes when it is set or deleted. -/
theorem marker_after (files : String → Option Bytes)
    (hincr : o ≠ .incr (inCaseName problem_id case_id))
    (hset : setsMarker problem_id case_id ⟨o, r⟩ = false)
    (hdelete : deletesMarker problem_id case_id ⟨o, r⟩ = false) :
    (m.after lib t files o).redis (inCaseName problem_id case_id) =
      m.redis (inCaseName problem_id case_id) := by
  cases o with
  | set key value =>
    have hkey : inCaseName problem_id case_id ≠ key := by
      rintro rfl
      simp [setsMarker] at hset
    exact Function.update_of_ne hkey _ _
  | del key =>
    have hkey : inCaseName problem_id case_id ≠ key := by
      rintro rfl
      simp [deletesMarker] at hdelete
    exact Function.update_of_ne hkey _ _
  | incr key =>
    have hkey : inCaseName problem_id case_id ≠ key := by
      rintro rfl
      exact hincr rfl
    exact Function.update_of_ne hkey _ _
  | query stmt => cases stmt <;> rfl
  | _ => rfl

/-- A deletion removes the marker. -/
theorem marker_of_deletes (files : String → Option Bytes)
    (hdelete : deletesMarker problem_id case_id ⟨o, r⟩ = true) :
    (m.after lib t files o).redis (inCaseName problem_id case_id) = none := by
  cases o with
  | del key =>
    obtain rfl : key = inCaseName problem_id case_id := by simpa [deletesMarker] using hdelete
    exact Function.update_self ..
  | _ => cases hdelete

end Effects

/-! ### Markers that pay for one answer each -/

section Runs

variable {lib : Library} {problem_id case_id : String} {c : Config (machine lib lapses)}
  {requests : Nat → CaseUpload} {m₀ : Memory}

/-- An answer file that finds the marker while another one that has found it is still to delete it
finds an input file that no answer file has used. -/
def PaysOnce (problem_id case_id : String) (c : Config (machine lib lapses)) (t : Nat) : Prop :=
  (c.prog t).next? = some (.get (inCaseName problem_id case_id)) →
    c.mem.redis (inCaseName problem_id case_id) = some "1" →
    held problem_id case_id c.trace = true →
    found problem_id case_id c.trace < inputs problem_id case_id c.trace

instance (c : Config (machine lib lapses)) (t : Nat) : Decidable (PaysOnce problem_id case_id c t) :=
  inferInstanceAs (Decidable (_ → _ → _ → _))

/-- The answer files that have found the marker are paid for, and a marker that no request holds is
there for one more. -/
structure Paid (problem_id case_id : String) (c : Config (machine lib lapses)) : Prop where
  found_le : found problem_id case_id c.trace ≤ inputs problem_id case_id c.trace
  free : c.mem.redis (inCaseName problem_id case_id) = some "1" →
    held problem_id case_id c.trace = false →
    found problem_id case_id c.trace < inputs problem_id case_id c.trace

/-- The step lemma. -/
theorem Paid.step {t : Nat} {x : Choice} {o : Op} {k : o.Res → Code Unit} {r : o.Res} {m : Memory}
    (h : Paid problem_id case_id c) (hok : PaysOnce problem_id case_id c t)
    (hincr : o ≠ .incr (inCaseName problem_id case_id)) (hprog : c.prog t = .op o k)
    (hexec : exec lib lapses t o x c.mem = some (r, m)) :
    Paid problem_id case_id (c.after t o r k m) := by
  have hafter : m = c.mem.after lib t x.files o := after_of_exec hexec
  have hinputs : inputs problem_id case_id (c.after t o r k m).trace =
      inputs problem_id case_id c.trace + if setsMarker problem_id case_id ⟨o, r⟩ then 1 else 0 :=
    List.countP_cons
  have hfound : found problem_id case_id (c.after t o r k m).trace =
      found problem_id case_id c.trace + if findsMarker problem_id case_id ⟨o, r⟩ then 1 else 0 :=
    List.countP_cons
  have hle := h.found_le
  by_cases hfinds : findsMarker problem_id case_id ⟨o, r⟩ = true
  · -- The look-up finds the marker: held by another request, or free.
    obtain ⟨rfl, hmarker⟩ := marker_of_finds hexec hfinds
    have hlt : found problem_id case_id c.trace < inputs problem_id case_id c.trace := by
      by_cases hheld : held problem_id case_id c.trace = true
      · exact hok (by rw [hprog]; rfl) hmarker hheld
      · exact h.free hmarker (Bool.not_eq_true _ ▸ hheld)
    rw [if_pos hfinds] at hfound
    refine ⟨by omega, fun _ hfree => ?_⟩
    rw [Config.trace_after, held_of_finds hfinds] at hfree
    cases hfree
  · rw [if_neg hfinds] at hfound
    refine ⟨by omega, fun hmarker hfree => ?_⟩
    rw [Config.mem_after, hafter] at hmarker
    by_cases hset : setsMarker problem_id case_id ⟨o, r⟩ = true
    · rw [if_pos hset] at hinputs
      omega
    · by_cases hdelete : deletesMarker problem_id case_id ⟨o, r⟩ = true
      · rw [marker_of_deletes x.files hdelete] at hmarker
        cases hmarker
      · rw [Bool.not_eq_true] at hset hdelete
        rw [marker_after x.files hincr hset hdelete] at hmarker
        have hheld : held problem_id case_id c.trace = false := by
          by_contra hheld
          rw [Config.trace_after, held_cons hdelete (by simpa using hheld)] at hfree
          cases hfree
        have hlt := h.free hmarker hheld
        omega

theorem Paid.run (hmarker : m₀.redis (inCaseName problem_id case_id) ≠ some "1")
    (h : Reach (PaysOnce problem_id case_id)
      (startUploads lib (fun t => (requests t).upload problem_id case_id) m₀) c) :
    Paid problem_id case_id c := by
  refine h.induct (I := Paid problem_id case_id) ⟨le_rfl, fun h => absurd h hmarker⟩ ?_
  intro c t x o k r m hr ih hok hprog hexec
  have honly := hr.only (K := fun _ (o : Op) => o ≠ .incr (inCaseName problem_id case_id))
    (fun t => upload_only problem_id case_id (requests t)) t
  rw [hprog] at honly
  exact ih.step hok honly.1 hprog hexec

/-- The rows that are inserted for a test are not more than the input files accepted for it. -/
theorem rows_le_inputs (hmarker : m₀.redis (inCaseName problem_id case_id) ≠ some "1")
    (h : Reach (PaysOnce problem_id case_id)
      (startUploads lib (fun t => (requests t).upload problem_id case_id) m₀) c) :
    rows problem_id case_id c.trace ≤ inputs problem_id case_id c.trace := by
  have hrows : rows problem_id case_id c.trace ≤ found problem_id case_id c.trace := by
    refine countP_le_of_own fun t => ?_
    exact (h.history t rfl (wp_upload problem_id case_id (requests t))
      fun _ _ _ _ _ _ _ _ _ => trivial).now
  exact hrows.trans (Paid.run hmarker h).found_le

end Runs

/-- One input file, and answer files. -/
def oneInput : Nat → CaseUpload
  | 0 => .add_test_in "T" []
  | _ => .add_test_out "T" []

theorem rows_le_inputs_p1 : ∃ c : Config (machine .sample lapses),
    inputs "p1" "1" c.trace = 1 ∧ rows "p1" "1" c.trace ≤ 1 := by
  obtain ⟨c, hc, hv⟩ := Config.exists_reach (fun c t => PaysOnce "p1" "1" c t)
    (startUploads .sample (fun t => (oneInput t).upload "p1" "1") (.account "T" "teacher"))
    (List.replicate 6 (0, .quiet) ++ List.replicate 9 (1, .quiet))
    (fun c => inputs "p1" "1" c.trace) 1 (by decide +kernel)
  have hle := rows_le_inputs (by simp [Memory.account, Memory.empty]) hc
  exact ⟨c, hv, hv ▸ hle⟩

/-- Two answer files find the marker of one input file before one of them deletes it. -/
theorem two_rows_for_one_input : ∃ c : Config (machine .sample lapses),
    Reach anyOrder (startUploads .sample (fun t => (oneInput t).upload "p1" "1")
      (.account "T" "teacher")) c ∧
    inputs "p1" "1" c.trace = 1 ∧ rows "p1" "1" c.trace = 2 := by
  obtain ⟨c, hc, hv⟩ := Config.exists_reach anyOrder
    (startUploads .sample (fun t => (oneInput t).upload "p1" "1") (.account "T" "teacher"))
    (List.replicate 6 (0, .quiet) ++ List.replicate 2 (1, .quiet) ++ List.replicate 9 (2, .quiet) ++
      List.replicate 7 (1, .quiet))
    (fun c => (inputs "p1" "1" c.trace, rows "p1" "1" c.trace)) (1, 2) (by decide +kernel)
  exact ⟨c, hc, congrArg Prod.fst hv, congrArg Prod.snd hv⟩

end OJJudge.Storage
