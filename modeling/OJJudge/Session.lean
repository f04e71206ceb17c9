import OJJudge.Handlers
import OJJudge.Uri.Decode

/-! Requests, the session check that every handler begins with, and the request parameters. -/

namespace OJJudge

open Concurrency

/-- A text of one character for each byte. -/
def text (s : Bytes) : String := String.ofList (s.map fun b => Char.ofNat b.toNat)

theorem text_injective : Function.Injective text := by
  intro s s' h
  have hall : ∀ n : Fin 256, (Char.ofNat n).toNat = n := by decide +kernel
  have hchar : Function.Injective fun b : UInt8 => Char.ofNat b.toNat := by
    intro b b' heq
    have hnat := congrArg Char.toNat heq
    rw [hall ⟨b.toNat, b.toNat_lt⟩, hall ⟨b'.toNat, b'.toNat_lt⟩] at hnat
    exact UInt8.toNat_inj.mp hnat
  exact List.map_injective_iff.mpr hchar (String.ofList_inj.mp h)

/-- What the handlers call outside the repository. -/
structure Library where
  /-- `req->form_kv()`, a function of the posted body. -/
  form_kv : Bytes → KVMap
  /-- The MD5 digest. -/
  md5 : String → Bytes
  crypt : String → String → String

/-- A library for tests: it splits a form as `uriKV_get` does, and knows the digests of a few values. -/
def Library.sample : Library where
  form_kv body := (uriKV_get body).getD []
  md5 data :=
    if data = "alice945168" then
      [0xd9, 0x60, 0x5b, 0xd1, 0x95, 0x36, 0xa1, 0xcd, 0xa0, 0x3d, 0xd9, 0x32,
        0xdd, 0x18, 0x2f, 0x7f]
    else if data = "admin945168" then
      [0x5a, 0x92, 0xc8, 0xf1, 0x65, 0xff, 0x8c, 0x87, 0xb8, 0x9d, 0x50, 0x47,
        0x8f, 0xd0, 0x3f, 0x7e]
    else []
  crypt key salt :=
    if key = "secret" ∧ salt = "$5$73256" then
      "$5$73256$RSe39LE1w6eu3q4uIrArcDxgcmAjyg89mEclDVvVSS6"
    else if key = "y" ∧ salt = "$5$73256" then
      "$5$73256$Z/JuSNVXMyytL3/T6eWy8.9i.khtK1qLMTSBPcRjs78"
    else ""

structure HttpReq where
  request_uri : Bytes
  headers : List (String × Bytes)
  body : Bytes
  /-- What the scratch integer of `url_decode` holds at first. -/
  ii : UInt32

/-- A request for tests. -/
def HttpReq.sample (uri cookie form : String) : HttpReq where
  request_uri := bytes uri
  headers := [("Cookie", bytes cookie)]
  body := bytes form
  ii := 0

/-- The value that a `std::map` has under a name: the empty string when there is none. -/
def KVMap.get (m : KVMap) (name : String) : Bytes := (m.lookup (bytes name)).getD []

/-- The header values; `insert` keeps the first one of each name. -/
def headerValueGet (req : HttpReq) (name : String) : Bytes := (req.headers.lookup name).getD []

/-- `cookie.substr(0, end).substr(start + 1)`; `none` when it throws. -/
def extractToken (cookie : Bytes) : Option Bytes := do
  let head ← substr cookie 0 (find cookie ';'.toUInt8)
  substr head (succSize (find cookie '='.toUInt8)) npos

/-- The key of a session, with the prefix of the configuration. -/
def sessionKey (token : Bytes) : String := "OJ:" ++ text token

theorem sessionKey_injective : Function.Injective sessionKey := fun _ _ h =>
  text_injective ((String.append_right_inj _).mp h)

/-- The session key of a request; `none` when its extraction throws. -/
def HttpReq.sessionKey? (req : HttpReq) : Option String :=
  (extractToken (headerValueGet req "Cookie")).map sessionKey

/-- The session check.  An exception of the extraction leaves the handler. -/
def session (req : HttpReq) (next : String → Code Unit) : Code Unit :=
  match req.sessionKey? with
  | none => return ()
  | some key => do
    let user_name ← my_sync_check_token key
    if user_name = "" then
      effect (.set_status_code "403")
    else
      next user_name

/-- The parameters of a request. -/
def HttpReq.KVpairs (req : HttpReq) : Option KVMap :=
  (url_decode req.ii req.request_uri).bind uriKV_get

/-- A handler that reads its parameters first. -/
def withParams (req : HttpReq) (next : (String → String) → Code Unit) : Code Unit :=
  match req.KVpairs with
  | none => return ()
  | some KVpairs => next fun name => text (KVpairs.get name)

section Operations

variable {K : Op → Prop} {req : HttpReq}

theorem session_only {next : String → Code Unit} (hget : ∀ key, K (.get key))
    (hrefuse : K (.set_status_code "403")) (hnext : ∀ user_name, (next user_name).Only K) :
    (session req next).Only K := by
  unfold session
  split
  · trivial
  · next key _ =>
    refine ⟨hget key, fun v => ?_⟩
    simp only [Prog.bind_eq, Prog.ret_bind, Prog.pure_eq]
    split
    · exact ⟨hrefuse, fun _ => trivial⟩
    · exact hnext _

theorem withParams_only {next : (String → String) → Code Unit}
    (hnext : ∀ KVpairs, req.KVpairs = some KVpairs →
      (next fun name => text (KVpairs.get name)).Only K) : (withParams req next).Only K := by
  unfold withParams
  split
  · trivial
  · next KVpairs hKVpairs => exact hnext KVpairs hKVpairs

end Operations

end OJJudge
