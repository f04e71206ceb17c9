import OJJudge.Storage.Accounts

/-! The hash that a registration stores.  `crypt` leaves its result in one static buffer, and
`userRegist` keeps a pointer to that buffer over the look-up of its session. -/

namespace OJJudge.Storage

open Concurrency

/-- The key and the salt of an event that calls `crypt`. -/
def cryptOf (e : Nat × Event effects) : Option (String × String) :=
  match e.2.op with
  | .crypt key salt => some (key, salt)
  | _ => none

/-- The latest call of `crypt`, of any request. -/
def lastCrypt (trace : List (Nat × Event effects)) : Option (String × String) :=
  trace.findSome? cryptOf

/-- The hash of the posted password. -/
def ownHash (lib : Library) (req : HttpReq) : String :=
  lib.crypt (text (cString ((lib.form_kv req.body).get "password"))) passwordSalt

section Buffer

variable {lib : Library} {mayFail : Op → Bool} {ok : Config (machine lib mayFail) → Nat → Prop}
  {requests : Nat → Request} {m₀ : Memory} {c : Config (machine lib mayFail)}

theorem crypt_buffer_after {o : Op} (ho : ∀ key salt, o ≠ .crypt key salt) (m : Memory) (t : Nat)
    (files : String → Option Bytes) : (m.after lib t files o).crypt_buffer = m.crypt_buffer := by
  cases o with
  | crypt key salt => exact absurd rfl (ho key salt)
  | query stmt => cases stmt <;> rfl
  | _ => rfl

/-- The buffer holds the result of the latest call. -/
theorem crypt_buffer_eq (hmayFail : ∀ key salt, mayFail (.crypt key salt) = false)
    (h : Reach ok (start lib mayFail requests m₀) c) {key salt : String}
    (hlast : lastCrypt c.trace = some (key, salt)) : c.mem.crypt_buffer = lib.crypt key salt := by
  refine h.induct (I := fun c : Config (machine lib mayFail) => ∀ key salt,
    lastCrypt c.trace = some (key, salt) → c.mem.crypt_buffer = lib.crypt key salt) ?_ ?_ key salt hlast
  · intro key salt hlast
    cases hlast
  · intro c t x o k r m _ ih _ _ hx key salt hlast
    by_cases ho : ∃ key salt, o = .crypt key salt
    · obtain ⟨key', salt', rfl⟩ := ho
      cases hlast
      have hcrypt : exec lib mayFail t (.crypt key salt) x c.mem = some (r, m) := hx
      obtain ⟨hfail, -, -⟩ | ⟨-, hm⟩ := exec_cases hcrypt
      · rw [hmayFail] at hfail
        cases hfail
      · rw [Config.mem_after, hm]
        rfl
    · have hother : ∀ key salt, o ≠ .crypt key salt := fun key salt heq => ho ⟨key, salt, heq⟩
      have hnone : cryptOf (t, ⟨o, r⟩) = none := by
        unfold cryptOf
        split
        · next key salt heq => exact absurd heq (hother key salt)
        · rfl
      rw [Config.trace_after, lastCrypt, List.findSome?_cons, hnone] at hlast
      have hsame := ih key salt hlast
      obtain hm | hm := mem_of_exec hx
      · rw [Config.mem_after, hm]
        exact hsame
      · rw [Config.mem_after, hm, crypt_buffer_after hother]
        exact hsame

end Buffer

/-! ### Registrations -/

/-- A registration inserts a hash that it has read from the buffer. -/
def InsertsRead (h : List (Event effects)) (o : Op) : Prop :=
  ∀ username password_hash role, o = .query (.insertUser username password_hash role) →
    (⟨.crypt_buffer, password_hash⟩ : Event effects) ∈ h

theorem userRegist_insertsRead (lib : Library) (req : HttpReq) :
    (UserInfo.userRegist lib req).Wp (Records fun _ _ => True) InsertsRead (fun _ _ => True) [] := by
  have hother : ∀ {h : List (Event effects)} {o : Op},
      (∀ username password_hash role, o ≠ .query (.insertUser username password_hash role)) →
      InsertsRead h o := fun ho username password_hash role heq =>
    absurd heq (ho username password_hash role)
  refine ⟨hother (by simp), fun _ _ _ => ⟨hother (by simp), fun _ _ _ =>
    ⟨hother (by simp), fun _ _ _ => ⟨hother (by simp), fun _ h _ => ?_⟩⟩⟩⟩
  simp only [Prog.bind_eq, Prog.ret_bind, Prog.pure_eq]
  split
  · trivial
  · refine ⟨hother (by simp), fun v h₁ _ => ?_⟩
    simp only [Prog.bind_eq, Prog.ret_bind, Prog.pure_eq]
    split
    · refine ⟨hother (by simp), ?_⟩
      rintro password_hash _ ⟨-, rfl⟩
      refine ⟨hother (by simp), ?_⟩
      rintro _ _ ⟨-, rfl⟩
      refine ⟨?_, fun _ _ _ => trivial⟩
      intro username hash role heq
      cases heq
      exact .tail _ (.head _)
    · exact ⟨hother (by simp), fun _ _ _ => trivial⟩

/-- When a registration reads the buffer, the latest call of `crypt` was for a password with the hash
of its own. -/
def readsOwnHash (lib : Library) {mayFail : Op → Bool} (requests : Nat → Request)
    (c : Config (machine lib mayFail)) (t : Nat) : Prop :=
  (requests t).handler = .userRegist → (c.prog t).next? = some .crypt_buffer →
    (lastCrypt c.trace).map (fun call => lib.crypt call.1 call.2) =
      some (ownHash lib (requests t).req)

instance (lib : Library) {mayFail : Op → Bool} (requests : Nat → Request) :
    ∀ (c : Config (machine lib mayFail)) (t : Nat), Decidable (readsOwnHash lib requests c t) :=
  fun _ _ => by unfold readsOwnHash; infer_instance

/-- A registration reads its own hash. -/
theorem read_eq_ownHash {lib : Library} {requests : Nat → Request} {m₀ : Memory}
    {c : Config (machine lib anyFault)}
    (h : Reach (readsOwnHash lib requests) (start lib anyFault requests m₀) c) {t : Nat}
    (hregist : (requests t).handler = .userRegist) {password_hash : String}
    (he : (t, ⟨Op.crypt_buffer, password_hash⟩) ∈ c.trace) :
    password_hash = ownHash lib (requests t).req := by
  obtain ⟨later, earlier, htrace⟩ := List.append_of_mem he
  obtain ⟨c₀, k, x, m, hr, -, hp, hok, hx⟩ := h.past rfl htrace
  have hread : exec lib anyFault t .crypt_buffer x c₀.mem = some (password_hash, m) := hx
  obtain ⟨hfail, -, -⟩ | ⟨hbuffer, -⟩ := exec_cases hread
  · cases hfail
  have hown := hok hregist (by rw [hp]; rfl)
  obtain ⟨⟨key, salt⟩, hlast, hhash⟩ := Option.map_eq_some_iff.mp hown
  calc password_hash
    _ = c₀.mem.crypt_buffer := hbuffer
    _ = lib.crypt key salt := crypt_buffer_eq (fun _ _ => rfl) hr hlast
    _ = ownHash lib (requests t).req := hhash

/-- The stored hash belongs to the registered password, when no registration reads the hash of
another one. -/
theorem stored_hash_is_own (lib : Library) (requests : Nat → Request) (m : Memory)
    {c : Config (machine lib anyFault)}
    (h : Reach (readsOwnHash lib requests) (start lib anyFault requests m) c) {t : Nat}
    (hregist : (requests t).handler = .userRegist) {username password_hash role : String}
    {rows : List (List String)}
    (he : (t, ⟨Op.query (.insertUser username password_hash role), rows⟩) ∈ c.trace) :
    password_hash =
      lib.crypt (text (cString ((lib.form_kv (requests t).req.body).get "password"))) passwordSalt := by
  have hprog : ((start lib anyFault requests m).prog t).Wp (Records fun _ _ => True) InsertsRead
      (fun _ _ => True) [] := by
    show ((requests t).prog lib).Wp _ _ _ _
    rw [Request.prog, hregist]
    exact userRegist_insertsRead lib _
  obtain ⟨later, earlier, hown⟩ := List.append_of_mem (mem_own.mpr he)
  have hread := h.own_events t rfl hprog (fun _ _ _ _ _ _ _ _ _ => trivial) hown
    username password_hash role rfl
  refine read_eq_ownHash h hregist (mem_own.mp ?_)
  rw [hown]
  exact List.mem_append_right _ (List.mem_cons_of_mem _ hread)

theorem mem_of_statements {h : List (Event effects)} {stmt : Stmt}
    (hstmt : stmt ∈ (statements h).map Prod.fst) :
    ∃ rows, (⟨.query stmt, rows⟩ : Event effects) ∈ h := by
  obtain ⟨⟨stmt', rows⟩, hmem, rfl⟩ := List.mem_map.mp hstmt
  obtain ⟨⟨o, r⟩, he, heq⟩ := List.mem_filterMap.mp hmem
  split at heq
  · next heq' =>
    cases heq'
    cases heq
    exact ⟨_, he⟩
  · cases heq

/-- The user `admin` registers `bob` with the password `secret`, and someone tries to log in with the
password `y`. -/
def registerAndLogin (t : Nat) : Request :=
  if t = 0 then ⟨.userRegist, registration "bob"⟩
  else ⟨.userLogin, .sample "/login" "" "username=eve&password=y"⟩

theorem stored_hash_is_own_bob :
    ∃ c, Reach (readsOwnHash .sample registerAndLogin)
        (start .sample anyFault registerAndLogin .adminSession) c ∧
      ∃ password_hash rows,
        (0, ⟨Op.query (.insertUser "bob" password_hash "student"), rows⟩) ∈ c.trace ∧
        password_hash = Library.sample.crypt (text (cString
          ((Library.sample.form_kv (registerAndLogin 0).req.body).get "password"))) passwordSalt := by
  obtain ⟨c, hc, hv⟩ := Config.exists_reach (readsOwnHash .sample registerAndLogin)
    (start .sample anyFault registerAndLogin .adminSession)
    (List.replicate 4 (1, .quiet) ++ List.replicate 8 (0, .quiet))
    (fun c => (statements (own 0 c.trace)).map Prod.fst)
    [.insertUser "bob" "$5$73256$RSe39LE1w6eu3q4uIrArcDxgcmAjyg89mEclDVvVSS6" "student"]
    (by decide +kernel)
  obtain ⟨rows, hrows⟩ := mem_of_statements (hv ▸ List.mem_singleton_self _)
  exact ⟨c, hc, _, rows, mem_own.mp hrows,
    stored_hash_is_own .sample registerAndLogin .adminSession hc rfl (mem_own.mp hrows)⟩

/-- The login calls `crypt` between the call of the registration and its read of the buffer, so that
`bob` gets the password `y`. -/
theorem stored_hash_of_login :
    ∃ c, Reach anyOrder (start .sample anyFault registerAndLogin .adminSession) c ∧
      ∃ rows, (0, ⟨Op.query (.insertUser "bob"
        (Library.sample.crypt "y" passwordSalt) "student"), rows⟩) ∈ c.trace ∧
        Library.sample.crypt "y" passwordSalt ≠ Library.sample.crypt (text (cString
          ((Library.sample.form_kv (registerAndLogin 0).req.body).get "password"))) passwordSalt := by
  obtain ⟨c, hc, hv⟩ := Config.exists_reach anyOrder
    (start .sample anyFault registerAndLogin .adminSession)
    (List.replicate 5 (0, .quiet) ++ List.replicate 4 (1, .quiet) ++ List.replicate 3 (0, .quiet))
    (fun c => (statements (own 0 c.trace)).map Prod.fst)
    [.insertUser "bob" (Library.sample.crypt "y" passwordSalt) "student"] (by decide +kernel)
  obtain ⟨rows, hrows⟩ := mem_of_statements (hv ▸ List.mem_singleton_self _)
  exact ⟨c, hc, rows, mem_own.mp hrows, by decide +kernel⟩

end OJJudge.Storage
