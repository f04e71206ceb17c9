import OJJudge.Concurrency.Calls
import OJJudge.Storage.Uploads
import OJJudge.Uri.Query

/-! Pages next to the server.  A page posts to a handler and waits for the answer, and it writes a
status text.  The proxy in front of the server takes `/api/` off the path, the server finds the
handler by the path, and the handler then runs among those of all other clients. -/

namespace OJJudge.Pages

open Concurrency Storage

/-! ### Pages -/

/-- A POST request of a page: the path and the query of its URL, and its body. -/
structure Fetch where
  url : Bytes
  body : Bytes

inductive PageOp
  | fetch (fetch : Fetch)
  /-- `statusDiv.textContent = text`. -/
  | setText (text : String)

/-- The response to a fetch is the status of the answer; `none` when there is no answer. -/
@[reducible] def PageOp.Res : PageOp → Type
  | fetch _ => Option String
  | setText _ => Unit

@[reducible] def pageOps : Sig := ⟨PageOp, PageOp.Res⟩

abbrev Page (α : Type) := Prog pageOps α

def fetch (url body : Bytes) : Page (Option String) :=
  Prog.call (S := pageOps) (.fetch ⟨url, body⟩)

def setText (text : String) : Page Unit := Prog.call (S := pageOps) (.setText text)

/-! ### From a page to a handler -/

/-- `location /api/ { proxy_pass http://172.22.44.5:7778/; }`, for a path without escapes. -/
def proxied (url : Bytes) : Option Bytes :=
  if (bytes "/api/").isPrefixOf url then some ('/'.toUInt8 :: url.drop 5) else none

/-- The routes of `main` that staff post problems to. -/
def routes : List (String × Handler) :=
  [("/add/problem", .add_problem),
    ("/problem/upload_testcase_in", .add_test_in),
    ("/problem/upload_testcase_out", .add_test_out)]

/-- The handler for a URI. -/
def route (uri : Bytes) : Option Handler :=
  (routes.find? fun entry => bytes entry.1 = uri.takeWhile (· ≠ '?'.toUInt8)).map (·.2)

/-- What the repository leaves open on the way from a page to a handler. -/
structure Wire where
  /-- The headers that the browser sends. -/
  headers : List (String × Bytes)
  /-- What the scratch integer of `url_decode` holds at first. -/
  ii : UInt32
  /-- The status of an answer for which the handler sets none. -/
  unset : String

/-- The request that a fetch becomes. -/
def Wire.request (wire : Wire) (fetch : Fetch) : Option Request := do
  let uri ← proxied fetch.url
  let handler ← route uri
  return ⟨handler, ⟨uri, wire.headers, fetch.body, wire.ii⟩⟩

/-- The status of the answer after an operation; there is no answer after an exception. -/
def statusAfter (status : Option String) : Op → Option String
  | .set_status_code code => some code
  | .out_of_range => none
  | _ => status

/-- Runs a handler and gives the status of its answer, when it is `status` so far. -/
def answer : Option String → Code Unit → Code (Option String)
  | status, .ret _ => return status
  | status, .op o k => .op o fun r => answer (statusAfter status o) (k r)

/-- What a fetch runs on the server.  A handler that throws before its first operation leaves no
answer. -/
def Wire.serve (wire : Wire) (lib : Library) (fetch : Fetch) : Code (Option String) :=
  match wire.request fetch with
  | none => return none
  | some request =>
    if request.req.KVpairs.isNone || request.req.sessionKey?.isNone then return none
    else answer (some wire.unset) (request.prog lib)

/-! ### Pages and requests next to each other -/

inductive Action
  | server (o : Op)
  | setText (text : String)

@[reducible] def Action.Res : Action → Type
  | server o => o.Res
  | setText _ => Unit

@[reducible] def actions : Sig := ⟨Action, Action.Res⟩

/-- A program of the server. -/
def onServer {α : Type} (p : Code α) : Prog actions α :=
  p.calls fun o => Prog.call (S := actions) (.server o)

/-- What an operation of a page runs. -/
def Wire.act (wire : Wire) (lib : Library) : (o : PageOp) → Prog actions o.Res
  | .fetch fetch => onServer (wire.serve lib fetch)
  | .setText text => Prog.call (S := actions) (.setText text)

structure Memory where
  store : Storage.Memory
  /-- The status text of each page. -/
  text : Nat → String

/-- One step of a client: an operation on the server, or a text on its own page. -/
def exec (lib : Library) (mayFail : Op → Bool) (t : Nat) :
    (o : Action) → Choice → Memory → Option (o.Res × Memory)
  | .server o, x, m =>
    (Storage.exec lib mayFail t o x m.store).map fun e => (e.1, { m with store := e.2 })
  | .setText text, _, m => some ((), { m with text := Function.update m.text t text })

@[reducible] def machine (lib : Library) (mayFail : Op → Bool) : Machine actions Nat where
  Mem := Memory
  Choice := Choice
  exec := exec lib mayFail

/-- A client of the server: a page, or a request of its own. -/
inductive Client
  | page (wire : Wire) (page : Page Unit)
  | request (request : Request)

def Client.prog (lib : Library) : Client → Prog actions Unit
  | .page wire p => p.calls (wire.act lib)
  | .request r => onServer (r.prog lib)

/-- Every client is about to begin. -/
def start (lib : Library) (mayFail : Op → Bool) (clients : Nat → Client) (m : Memory) :
    Config (machine lib mayFail) where
  prog t := (clients t).prog lib
  mem := m
  trace := []

/-! ### Fetches arrive -/

theorem proxied_api (rest : Bytes) :
    proxied (bytes "/api" ++ '/'.toUInt8 :: rest) = some ('/'.toUInt8 :: rest) := by
  have hprefix : bytes "/api/" = bytes "/api" ++ ['/'.toUInt8] := by decide +kernel
  have hlength : (bytes "/api").length = 4 := by decide +kernel
  have hmatch : (bytes "/api/").isPrefixOf (bytes "/api" ++ '/'.toUInt8 :: rest) = true := by
    rw [List.isPrefixOf_iff_prefix, hprefix]
    exact ⟨rest, by simp⟩
  rw [proxied, if_pos hmatch, List.drop_append, hlength]
  simp [hlength]

/-- The handler of a path with parameters is that of the path. -/
theorem route_requestUri {path : Bytes} (hpath : '?'.toUInt8 ∉ path) (params : KVMap) :
    route (requestUri path params) =
      (routes.find? fun entry => bytes entry.1 = path).map (·.2) := by
  have hall : ∀ b ∈ path, b ≠ '?'.toUInt8 := by
    rintro b hb rfl
    exact hpath hb
  have htake : (requestUri path params).takeWhile (· ≠ '?'.toUInt8) = path := by
    rw [requestUri, List.takeWhile_append_of_pos (by simpa using hall)]
    simp
  rw [route, htake]

/-- A handler finds the parameters of a page when none of them holds a separator. -/
theorem KVpairs_requestUri {req : HttpReq} {path : Bytes} {params : KVMap}
    (huri : req.request_uri = requestUri path params)
    (hpath : ∀ b ∈ path, b ≠ '?'.toUInt8 ∧ b ≠ '%'.toUInt8 ∧ b ≠ '+'.toUInt8)
    (hnames : ∀ kv ∈ params, PlainName kv.1) (hne : params ≠ [])
    (hvalues : ∀ kv ∈ params, '&'.toUInt8 ∉ kv.2)
    (hshort : (requestUri path params).length < 2147483648) :
    ∃ KVpairs, req.KVpairs = some KVpairs ∧ ∀ name, KVpairs.lookup name = params.lookup name := by
  have hdecode := url_decode_requestUri req.ii (fun b hb => (hpath b hb).2)
    fun kv hkv => (hnames kv hkv).literal
  rw [if_pos (by omega)] at hdecode
  have hquestion : '?'.toUInt8 ∉ path := fun h => (hpath _ h).1 rfl
  have hlength := length_decodeFrom_le hdecode
  have hdecoded : (path ++ '?'.toUInt8 :: joinDecoded params).length < 2147483648 := by omega
  have hget := uriKV_get_eq hquestion hdecoded
  refine ⟨_, by rw [HttpReq.KVpairs, huri, hdecode, Option.bind_some, hget], fun name => ?_⟩
  rw [KVMap.lookup_foldl, List.nil_append, map_pairOf_splitOn_joinDecoded hne,
    flatMap_piecesOf (fun kv hkv => (hnames kv hkv).not_mem) hvalues]

/-- The session key that the headers of the browser give. -/
def Wire.sessionKey? (wire : Wire) : Option String :=
  HttpReq.sessionKey? ⟨[], wire.headers, [], wire.ii⟩

/-- A fetch of a path with parameters runs the handler of the path, which finds the session and the
parameters of the page. -/
theorem Wire.serve_eq {wire : Wire} (lib : Library) {rest : Bytes} {params : KVMap}
    {handler : Handler} (body : Bytes) {sessionKey : String}
    (hpath : ∀ b ∈ rest, b ≠ '?'.toUInt8 ∧ b ≠ '%'.toUInt8 ∧ b ≠ '+'.toUInt8)
    (hroute : (routes.find? fun entry => bytes entry.1 = '/'.toUInt8 :: rest).map (·.2) =
      some handler)
    (hnames : ∀ kv ∈ params, PlainName kv.1) (hne : params ≠ [])
    (hvalues : ∀ kv ∈ params, '&'.toUInt8 ∉ kv.2)
    (hshort : (requestUri ('/'.toUInt8 :: rest) params).length < 2147483648)
    (hkey : wire.sessionKey? = some sessionKey) :
    ∃ req KVpairs, req.sessionKey? = some sessionKey ∧ req.body = body ∧
      req.KVpairs = some KVpairs ∧ (∀ name, KVpairs.lookup name = params.lookup name) ∧
      wire.serve lib ⟨requestUri (bytes "/api" ++ '/'.toUInt8 :: rest) params, body⟩ =
        answer (some wire.unset) (Request.prog lib ⟨handler, req⟩) := by
  have hpath' : ∀ b ∈ '/'.toUInt8 :: rest, b ≠ '?'.toUInt8 ∧ b ≠ '%'.toUInt8 ∧ b ≠ '+'.toUInt8 := by
    rw [List.forall_mem_cons]
    exact ⟨by decide, hpath⟩
  have huri : proxied (requestUri (bytes "/api" ++ '/'.toUInt8 :: rest) params) =
      some (requestUri ('/'.toUInt8 :: rest) params) := by
    simp only [requestUri, List.append_assoc, List.cons_append]
    exact proxied_api _
  have hhandler : route (requestUri ('/'.toUInt8 :: rest) params) = some handler := by
    rw [route_requestUri fun h => (hpath' _ h).1 rfl]
    exact hroute
  let req : HttpReq := ⟨requestUri ('/'.toUInt8 :: rest) params, wire.headers, body, wire.ii⟩
  have hrequest_uri : req.request_uri = requestUri ('/'.toUInt8 :: rest) params := rfl
  obtain ⟨KVpairs, hKVpairs, hlookup⟩ :=
    KVpairs_requestUri hrequest_uri hpath' hnames hne hvalues hshort
  have hsession : req.sessionKey? = some sessionKey := hkey
  refine ⟨req, KVpairs, hsession, rfl, hKVpairs, hlookup, ?_⟩
  have hrequest : wire.request ⟨requestUri (bytes "/api" ++ '/'.toUInt8 :: rest) params, body⟩ =
      some ⟨handler, req⟩ := by
    simp [Wire.request, huri, hhandler, req]
  simp only [Wire.serve, hrequest, hKVpairs, hsession]
  rfl

-- From here on `Wire.serve_eq` says what a fetch runs, and nothing compares the paths once more.
attribute [irreducible] Wire.serve

end OJJudge.Pages
