import OJJudge.Session

/-! The handlers of `UserInfo`: the registration of an account, and the login that makes a session. -/

namespace OJJudge

open Concurrency

/-- A row of `user_table`. -/
structure Account where
  username : String
  password_hash : String
  role : String
  deriving DecidableEq

/-- The bytes of a string before the first zero byte. -/
def cString (s : Bytes) : Bytes := s.takeWhile (· ≠ 0)

/-- The salt of every password. -/
def passwordSalt : String := "$5$73256"

/-- `%02d` of a small number. -/
def twoDigits (n : Nat) : String := if n < 10 then "0" ++ toString n else toString n

/-- The digits of a byte under `std::hex`, `std::setw(2)` and `std::setfill('0')`. -/
def hexByte (b : UInt8) : List Char :=
  let digits := Nat.toDigits 16 b.toNat
  List.replicate (2 - digits.length) '0' ++ digits

/-- The time in the format `%02d_0_%02d_0_%02d`, which `snprintf` cuts to a buffer of 20 bytes. -/
def timeStamp (ptm : Tm) : String :=
  String.ofList ((twoDigits ptm.tm_hour ++ "_0_" ++ twoDigits ptm.tm_min ++ "_0_" ++
    twoDigits ptm.tm_sec).toList.take 19)

/-- The token of a login: the digest of the salted name, and the local time. -/
def generateToken (lib : Library) (username : String) (ptm : Tm) : String :=
  String.ofList ((lib.md5 (username ++ "945168")).flatMap hexByte) ++ timeStamp ptm

/-- The headers that both handlers set at first. -/
def allowOrigin : Code Unit := do
  effect (.add_header "Access-Control-Allow-Methods" "GET, POST, OPTIONS")
  effect (.add_header "Access-Control-Allow-Headers" "Content-Type")
  effect (.add_header "Access-Control-Allow-Origin" "*")

/-- The callback of the login query.  The rows have two cells. -/
def login_mysqlCallBack (lib : Library) (context_username : String) (form : List (List String)) :
    Code Unit :=
  match form with
  | [] | [] :: _ => do
    effect (.send_string "Failed")
    effect (.set_status_code "401")
  | [_] :: _ => effect .out_of_range
  | (role :: username :: _) :: _ => do
    let ptm ← effect .localtime
    let token := generateToken lib context_username ptm
    effect (.send_string role)
    effect (.add_header "Set-Cookie" ("token=" ++ token ++ "; Path=/; HttpOnly; SameSite=Lax"))
    -- The tasks of the series.
    effect (.set ("OJ:" ++ token) username)
    let _ ← effect (.expire ("OJ:" ++ token) 259200)

theorem login_mysqlCallBack_no_query (lib : Library) (username : String)
    (form : List (List String)) :
    (login_mysqlCallBack lib username form).Only fun o : Op => ∀ stmt, o ≠ .query stmt := by
  unfold login_mysqlCallBack
  split <;> simp

namespace UserInfo

/-- Whether a registration is allowed. -/
def mayCreate (Creater_user_id role : String) : Bool :=
  (Creater_user_id = "admin" || (Creater_user_id = "teacher" && role = "student")) &&
    (role = "student" || role = "admin" || role = "teacher")

theorem mem_roles_of_mayCreate {Creater_user_id role : String}
    (h : mayCreate Creater_user_id role = true) : role ∈ ["student", "admin", "teacher"] := by
  simp only [mayCreate, Bool.and_eq_true, Bool.or_eq_true, decide_eq_true_eq] at h
  simpa [or_assoc] using h.2

def userRegist (lib : Library) (req : HttpReq) : Code Unit := do
  allowOrigin
  let form_kv := lib.form_kv req.body
  let username := text (form_kv.get "username")
  let role := text (form_kv.get "role")
  effect (.crypt (text (cString (form_kv.get "password"))) passwordSalt)
  match req.sessionKey? with
  | none => return ()
  | some key => do
    let Creater_user_id ← my_sync_check_token key
    if mayCreate Creater_user_id role then do
      let encryptPassWord ← effect .crypt_buffer
      effect (.set_status_code "200")
      let _ ← effect (.query (.insertUser username encryptPassWord role))
    else
      effect (.set_status_code "403")

def userLogin (lib : Library) (req : HttpReq) : Code Unit := do
  allowOrigin
  let form_kv := lib.form_kv req.body
  -- The decoded password is only printed: the hash is of the field as it stands.
  match url_decode req.ii (form_kv.get "username"), url_decode req.ii (form_kv.get "password") with
  | some username, some _ => do
    effect (.crypt (text (cString (form_kv.get "password"))) passwordSalt)
    let password ← effect .crypt_buffer
    let form ← effect (.query (.selectLogin (text username) password))
    login_mysqlCallBack lib (text username) form
  | _, _ => return ()

/-- The operations of `userRegist`. -/
inductive RegistOp (lib : Library) (req : HttpReq) : Op → Prop
  | header (name value : String) : RegistOp lib req (.add_header name value)
  | crypt : RegistOp lib req
      (.crypt (text (cString ((lib.form_kv req.body).get "password"))) passwordSalt)
  | getSession (key : String) (hkey : req.sessionKey? = some key) : RegistOp lib req (.get key)
  | crypt_buffer : RegistOp lib req .crypt_buffer
  | status (code : String) : RegistOp lib req (.set_status_code code)
  | insertUser (password_hash : String)
      (hrole : text ((lib.form_kv req.body).get "role") ∈ ["student", "admin", "teacher"]) :
      RegistOp lib req
      (.query (.insertUser (text ((lib.form_kv req.body).get "username")) password_hash
        (text ((lib.form_kv req.body).get "role"))))

theorem userRegist_only (lib : Library) (req : HttpReq) :
    (userRegist lib req).Only (RegistOp lib req) := by
  refine ⟨.header _ _, fun _ => ⟨.header _ _, fun _ => ⟨.header _ _, fun _ => ⟨.crypt, fun _ =>
    ?_⟩⟩⟩⟩
  simp only [Prog.bind_eq, Prog.ret_bind, Prog.pure_eq]
  split
  · trivial
  · next key hkey =>
    refine ⟨.getSession key hkey, fun v => ?_⟩
    simp only [Prog.bind_eq, Prog.ret_bind, Prog.pure_eq]
    split
    · next hmay =>
      have hrole := mem_roles_of_mayCreate hmay
      exact ⟨.crypt_buffer, fun hash => ⟨.status _, fun _ => ⟨.insertUser hash hrole, fun _ =>
        trivial⟩⟩⟩
    · exact ⟨.status _, fun _ => trivial⟩

/-- The operations of `userLogin`. -/
inductive LoginOp (lib : Library) (req : HttpReq) : Op → Prop
  | header (name value : String) : LoginOp lib req (.add_header name value)
  | crypt : LoginOp lib req
      (.crypt (text (cString ((lib.form_kv req.body).get "password"))) passwordSalt)
  | crypt_buffer : LoginOp lib req .crypt_buffer
  | selectLogin (username : Bytes) (password : String)
      (husername : url_decode req.ii ((lib.form_kv req.body).get "username") = some username) :
      LoginOp lib req (.query (.selectLogin (text username) password))
  | send (s : String) : LoginOp lib req (.send_string s)
  | status (code : String) : LoginOp lib req (.set_status_code code)
  | out_of_range : LoginOp lib req .out_of_range
  | localtime : LoginOp lib req .localtime
  | setSession (token username : String) : LoginOp lib req (.set ("OJ:" ++ token) username)
  | expireSession (token : String) : LoginOp lib req (.expire ("OJ:" ++ token) 259200)

theorem userLogin_only (lib : Library) (req : HttpReq) :
    (userLogin lib req).Only (LoginOp lib req) := by
  refine ⟨.header _ _, fun _ => ⟨.header _ _, fun _ => ⟨.header _ _, fun _ => ?_⟩⟩⟩
  simp only [Prog.bind_eq, Prog.ret_bind, Prog.pure_eq]
  split
  · next username _ husername _ =>
    refine ⟨.crypt, fun _ => ⟨.crypt_buffer, fun password => ⟨.selectLogin username password husername,
      fun form => ?_⟩⟩⟩
    simp only [Prog.bind_eq, Prog.ret_bind]
    unfold login_mysqlCallBack
    split
    · exact ⟨.send _, fun _ => ⟨.status _, fun _ => trivial⟩⟩
    · exact ⟨.send _, fun _ => ⟨.status _, fun _ => trivial⟩⟩
    · exact ⟨.out_of_range, fun _ => trivial⟩
    · exact ⟨.localtime, fun ptm => ⟨.send _, fun _ => ⟨.header _ _, fun _ =>
        ⟨.setSession _ _, fun _ => ⟨.expireSession _, fun _ => trivial⟩⟩⟩⟩⟩
  · trivial

end UserInfo

end OJJudge
