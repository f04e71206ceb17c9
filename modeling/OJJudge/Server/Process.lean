import OJJudge.Concurrency.Mutex
import OJJudge.Storage.Machine

/-! What ends the server process.  No handler catches an exception, so one that leaves a handler or a
callback takes every other request and the pool with it, and so does a read of a row that is not
there. -/

namespace OJJudge.Server

open Concurrency Storage

/-- Whether the handler throws while it reads the request: its parameters, its cookie or the fields of
its form cannot be cut. -/
def throws (lib : Library) (request : Request) : Bool :=
  match request.handler with
  | .userRegist => request.req.sessionKey?.isNone
  | .userLogin =>
    let form_kv := lib.form_kv request.req.body
    (url_decode request.req.ii (form_kv.get "username")).isNone ||
      (url_decode request.req.ii (form_kv.get "password")).isNone
  | _ => request.req.KVpairs.isNone || request.req.sessionKey?.isNone

/-- Nothing is left of a request that has not thrown. -/
def Ended (lib : Library) (request : Request) (p : Code Unit) : Prop :=
  throws lib request = false ∧ p.returned = true

/-- Whether the callback that gets the response ends the process. -/
def endsProcess : Event effects → Bool
  | ⟨.out_of_range, _⟩ => true
  -- `std::stoi` throws in `runState`.
  | ⟨.query (.selectTestNum _), row :: _⟩ => (stoi (row.getD 0 "")).isNone
  | _ => false

example : endsProcess ⟨.query (.selectTestNum "p"), [["many"]]⟩ = true ∧
    endsProcess ⟨.query (.selectTestNum "p"), [["2"]]⟩ = false := by decide

/-- The events with which the process ends.  A request that throws counts from its first event on, and
`crash` stands for all reasons that the model leaves out. -/
def Fatal (lib : Library) (requests : Nat → Request) (crash : Nat → Event effects → Prop) (t : Nat)
    (e : Event effects) : Prop :=
  throws lib (requests t) = true ∨ endsProcess e = true ∨ crash t e

/-- No reason is left out. -/
def noCrash : Nat → Event effects → Prop := fun _ _ => False

/-- No response to the operation ends the process. -/
def EndsNothing (o : Op) : Prop := ∀ r : o.Res, endsProcess ⟨o, r⟩ = false

section Requests

variable {lib : Library} {requests : Nat → Request} {t : Nat} {o : Op}

theorem runnerOp_endsNothing {conf : IsolateConf} {task : Runner_task} (ho : RunnerOp conf task o) :
    EndsNothing o := by
  cases ho <;> exact fun _ => rfl

theorem submissionOp_endsNothing {conf : IsolateConf} {user_name porblem_title : String}
    {body : Bytes} (ho : SubmissionOp conf user_name porblem_title body o) : EndsNothing o := by
  cases ho with
  | job task hpath hname ho => exact runnerOp_endsNothing ho
  | _ => exact fun _ => rfl

/-- A submission that does not throw ends nothing, and neither does its job. -/
theorem submission_endsNothing {request : Request} (h : request.handler = .runCpp) :
    (request.prog lib).Only EndsNothing := by
  obtain ⟨handler, req⟩ := request
  obtain rfl : handler = .runCpp := h
  unfold Request.prog Judge.runCpp
  refine withParams_only fun _ _ => session_only (fun _ _ => rfl) (fun _ => rfl) fun _ => ?_
  exact (runCpp_only ..).mono fun _ => submissionOp_endsNothing

theorem not_fatal (hthrows : throws lib (requests t) = false) {e : Event effects}
    (he : endsProcess e = false) : ¬Fatal lib requests noCrash t e := by
  rintro (h | h | h)
  · rw [hthrows] at h
    cases h
  · rw [he] at h
    cases h
  · exact h

end Requests

end OJJudge.Server
