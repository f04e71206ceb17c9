import OJJudge.Session
import OJJudge.Uri.Query

/-! The session token in the `Cookie` header.  The handlers take the text between the first equals
sign and the first semicolon, and look at no name. -/

namespace OJJudge

/-! ### The extraction -/

theorem take_find {s : Bytes} (h : s.length ≤ npos) (c : UInt8) :
    s.take (find s c) = s.takeWhile (· ≠ c) := by
  by_cases hmem : c ∈ s
  · obtain ⟨a, b, rfl, ha⟩ := List.eq_append_cons_of_mem hmem
    have hall : ∀ d ∈ a, d ≠ c := by
      rintro d hd rfl
      exact ha hd
    rw [find_append ha, List.takeWhile_append_of_pos (by simpa using hall)]
    simp
  · have hall : ∀ d ∈ s, d ≠ c := by
      rintro d hd rfl
      exact hmem hd
    rw [find_of_not_mem hmem, List.take_of_length_le h,
      List.takeWhile_eq_self_iff.mpr (by simpa using hall)]

theorem extractToken_eq {cookie : Bytes} (h : cookie.length ≤ npos) :
    extractToken cookie = substr (cookie.takeWhile (· ≠ ';'.toUInt8))
      (succSize (find cookie '='.toUInt8)) npos := by
  simp [extractToken, substr, take_find h]

/-- Without an equals sign, the token is the text before the first semicolon. -/
theorem extractToken_of_not_mem {cookie : Bytes} (h : cookie.length ≤ npos)
    (heq : '='.toUInt8 ∉ cookie) :
    extractToken cookie = some (cookie.takeWhile (· ≠ ';'.toUInt8)) := by
  have hzero : succSize npos = 0 := by decide
  have hle := (List.takeWhile_sublist (· ≠ ';'.toUInt8) (l := cookie)).length_le
  rw [extractToken_eq h, find_of_not_mem heq, hzero, substr_whole (by omega)]

/-- A semicolon before the first equals sign shortens the cookie below the position behind that sign,
and `substr` throws. -/
theorem extractToken_append {name rest : Bytes} (h : (name ++ '='.toUInt8 :: rest).length ≤ npos)
    (heq : '='.toUInt8 ∉ name) :
    extractToken (name ++ '='.toUInt8 :: rest) =
      if ';'.toUInt8 ∈ name then none else some (rest.takeWhile (· ≠ ';'.toUInt8)) := by
  have hlen := h
  simp only [List.length_append, List.length_cons] at hlen
  have hsucc : succSize name.length = name.length + 1 := by
    unfold succSize
    simp only [npos] at hlen
    omega
  rw [extractToken_eq h, find_append heq, hsucc]
  split
  · next hmem =>
    obtain ⟨a, b, rfl, ha⟩ := List.eq_append_cons_of_mem hmem
    have hall : ∀ c ∈ a, c ≠ ';'.toUInt8 := by
      rintro c hc rfl
      exact ha hc
    rw [List.append_assoc, List.cons_append, List.takeWhile_append_of_pos (by simpa using hall)]
    exact if_neg (by simp)
  · next hmem =>
    have hall : ∀ c ∈ name, c ≠ ';'.toUInt8 := by
      rintro c hc rfl
      exact hmem hc
    have hle := (List.takeWhile_sublist (· ≠ ';'.toUInt8) (l := rest)).length_le
    rw [List.takeWhile_append_of_pos (by simpa using hall), List.takeWhile_cons_of_pos (by decide),
      substr_suffix name (by omega)]

/-- The extraction stays within the cookie exactly when no semicolon stands before the first equals
sign.  A `std::string` has at most `npos` bytes. -/
theorem extraction_in_range_iff (req : HttpReq) (h : (headerValueGet req "Cookie").length ≤ npos) :
    req.sessionKey? ≠ none ↔
      ('='.toUInt8 ∈ headerValueGet req "Cookie" →
        ';'.toUInt8 ∉ (headerValueGet req "Cookie").takeWhile (· ≠ '='.toUInt8)) := by
  unfold HttpReq.sessionKey?
  generalize headerValueGet req "Cookie" = cookie at h
  by_cases hmem : '='.toUInt8 ∈ cookie
  · obtain ⟨name, rest, rfl, hname⟩ := List.eq_append_cons_of_mem hmem
    have hall : ∀ c ∈ name, c ≠ '='.toUInt8 := by
      rintro c hc rfl
      exact hname hc
    rw [extractToken_append h hname, List.takeWhile_append_of_pos (by simpa using hall)]
    split
    · next hsemi => simp [hsemi]
    · next hsemi => simp [hsemi]
  · rw [extractToken_of_not_mem h hmem]
    simp [hmem]

theorem extraction_in_range_token : (HttpReq.sample "/state" "token=abc; d=e" "").sessionKey? ≠ none :=
  (extraction_in_range_iff (.sample "/state" "token=abc; d=e" "") (by decide)).mpr (by decide)

/-- A cookie whose first part has no equals sign. -/
theorem extraction_throws : (HttpReq.sample "/state" "abc; token=d" "").sessionKey? = none := by
  decide

/-! ### Lists of cookies -/

/-- The pairs of a cookie list, joined by a semicolon and a blank. -/
def joinCookies (pairs : KVMap) : Bytes :=
  [';'.toUInt8, ' '.toUInt8].intercalate (pairs.map fun kv => kv.1 ++ '='.toUInt8 :: kv.2)

structure CookieList (pairs : KVMap) : Prop where
  distinct : (pairs.map Prod.fst).Nodup
  names : ∀ kv ∈ pairs, '='.toUInt8 ∉ kv.1 ∧ ';'.toUInt8 ∉ kv.1 ∧ ' '.toUInt8 ∉ kv.1
  values : ∀ kv ∈ pairs, ';'.toUInt8 ∉ kv.2

/-- The name is `Cookie` in any letter case. -/
def NamesCookie (name : String) : Prop := name.toList.map Char.toLower = "cookie".toList

instance (name : String) : Decidable (NamesCookie name) := inferInstanceAs (Decidable (_ = _))

/-- The request has one cookie header, spelled `name`, and it holds the list. -/
structure SendsCookies (req : HttpReq) (name : String) (pairs : KVMap) : Prop where
  namesCookie : NamesCookie name
  headers : ∃ before after, req.headers = before ++ (name, joinCookies pairs) :: after ∧
    ∀ header ∈ before ++ after, ¬NamesCookie header.1

/-- The value that stands first, when the header is spelled as the handlers look it up. -/
def firstValue (name : String) (pairs : KVMap) : Bytes :=
  if name = "Cookie" then (pairs.head?.map Prod.snd).getD [] else []

theorem extractToken_joinCookies {pairs : KVMap} (h : CookieList pairs)
    (hlen : (joinCookies pairs).length ≤ npos) :
    extractToken (joinCookies pairs) = some (firstValue "Cookie" pairs) := by
  cases pairs with
  | nil => rfl
  | cons kv rest =>
    obtain ⟨name, value⟩ := kv
    obtain ⟨heq, hsemi, -⟩ := h.names _ (List.mem_cons_self ..)
    have hvalue : ∀ c ∈ value, c ≠ ';'.toUInt8 := by
      rintro c hc rfl
      exact h.values _ (List.mem_cons_self ..) hc
    obtain ⟨tail, htail, hjoin⟩ : ∃ tail : Bytes, tail.takeWhile (· ≠ ';'.toUInt8) = [] ∧
        joinCookies ((name, value) :: rest) = name ++ '='.toUInt8 :: (value ++ tail) := by
      cases rest with
      | nil => exact ⟨[], rfl, by simp [joinCookies, List.intercalate]⟩
      | cons kv' rest =>
        exact ⟨';'.toUInt8 :: ' '.toUInt8 :: joinCookies (kv' :: rest), by simp,
          by simp [joinCookies, List.intercalate]⟩
    rw [hjoin] at hlen ⊢
    rw [extractToken_append hlen heq, if_neg hsemi,
      List.takeWhile_append_of_pos (by simpa using hvalue), htail, List.append_nil]
    rfl

theorem headerValueGet_eq {req : HttpReq} {name : String} {pairs : KVMap}
    (h : SendsCookies req name pairs) :
    headerValueGet req "Cookie" = if name = "Cookie" then joinCookies pairs else [] := by
  obtain ⟨before, after, hheaders, hother⟩ := h.headers
  have hnone : ∀ headers : List (String × Bytes), (∀ header ∈ headers, header ∈ before ++ after) →
      headers.lookup "Cookie" = none := by
    intro headers hsub
    refine List.lookup_eq_none_iff.mpr fun header hmem => ?_
    rw [bne_iff_ne]
    intro hcookie
    refine hother header (hsub header hmem) ?_
    rw [← hcookie]
    decide
  rw [headerValueGet, hheaders, List.lookup_append,
    hnone before fun _ hmem => List.mem_append_left _ hmem, Option.none_or]
  split
  · next hname =>
    subst hname
    rw [List.lookup_cons_self]
    rfl
  · next hname =>
    rw [List.lookup_cons, beq_false_of_ne (Ne.symm hname)]
    simp only [hnone after fun _ hmem => List.mem_append_right _ hmem]
    rfl

/-- The handlers look up the first value, whatever its name is. -/
theorem sessionKey_of_cookies {req : HttpReq} {name : String} {pairs : KVMap}
    (h : SendsCookies req name pairs) (hlist : CookieList pairs)
    (hlen : (joinCookies pairs).length ≤ npos) :
    req.sessionKey? = some (sessionKey (firstValue name pairs)) := by
  rw [HttpReq.sessionKey?, headerValueGet_eq h]
  split
  · next hname =>
    subst hname
    rw [extractToken_joinCookies hlist hlen]
    rfl
  · next hname =>
    rw [firstValue, if_neg hname]
    rfl

/-- The request is checked against the pair named `token`, and a list without one finds no
session. -/
def ChecksToken (redis : String → Option String) (req : HttpReq) (pairs : KVMap) : Prop :=
  match pairs.lookup (bytes "token") with
  | none => ∀ key, req.sessionKey? = some key → redis key = none
  | some value => req.sessionKey? = some (sessionKey value)

/-- The session is found where the token stands exactly when the header is spelled `Cookie` and the
first value is that of the token; and a list without a token finds no session exactly when its first
value is none. -/
theorem token_found_iff (redis : String → Option String) (req : HttpReq) (name : String)
    (pairs : KVMap) (h : SendsCookies req name pairs) (hlist : CookieList pairs)
    (hlen : (joinCookies pairs).length ≤ npos) :
    ChecksToken redis req pairs ↔
      match pairs.lookup (bytes "token") with
      | none => redis (sessionKey (firstValue name pairs)) = none
      | some value => firstValue name pairs = value := by
  unfold ChecksToken
  rw [sessionKey_of_cookies h hlist hlen]
  split
  · simp
  · rw [Option.some_inj, sessionKey_injective.eq_iff]

/-- A request with one cookie header. -/
def cookieRequest (name : String) (pairs : KVMap) : HttpReq where
  request_uri := bytes "/state"
  headers := [("Host", bytes "oj"), (name, joinCookies pairs)]
  body := []
  ii := 0

theorem sendsCookies_cookieRequest {name : String} (pairs : KVMap) (h : NamesCookie name) :
    SendsCookies (cookieRequest name pairs) name pairs :=
  ⟨h, [("Host", bytes "oj")], [], rfl, by decide⟩

theorem token_found_in_front :
    ChecksToken (fun _ => none) (cookieRequest "Cookie" [(bytes "token", bytes "t"), (bytes "a", bytes "b")])
      [(bytes "token", bytes "t"), (bytes "a", bytes "b")] :=
  (token_found_iff (fun _ => none) _ "Cookie" [(bytes "token", bytes "t"), (bytes "a", bytes "b")]
    (sendsCookies_cookieRequest _ (by decide)) ⟨by decide, by decide, by decide⟩ (by decide)).mpr
      (by decide : firstValue "Cookie" [(bytes "token", bytes "t"), (bytes "a", bytes "b")] = bytes "t")

/-- Behind another cookie, the token is not found. -/
theorem token_missed_behind :
    let pairs := [(bytes "a", bytes "b"), (bytes "token", bytes "t")]
    CookieList pairs ∧ SendsCookies (cookieRequest "Cookie" pairs) "Cookie" pairs ∧
      ∀ redis, ¬ChecksToken redis (cookieRequest "Cookie" pairs) pairs := by
  intro pairs
  refine ⟨⟨by decide, by decide, by decide⟩, sendsCookies_cookieRequest _ (by decide), fun redis h => ?_⟩
  have hkey : (cookieRequest "Cookie" pairs).sessionKey? = some "OJ:t" := h
  exact absurd hkey (by decide)

end OJJudge
