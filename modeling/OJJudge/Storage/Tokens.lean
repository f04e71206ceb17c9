import OJJudge.Storage.Sessions

/-! Tokens of different users differ.  A token is the digest of the salted user name, two hexadecimal
digits for each byte, and the time of the login in a format of fixed width. -/

namespace OJJudge

open Concurrency

/-! ### The parts of a token -/

/-- A concatenation of parts of one length determines the parts. -/
theorem flatMap_injective {α β : Type} {f : α → List β} {k : Nat} (hk : k ≠ 0)
    (hlength : ∀ a, (f a).length = k) (hf : Function.Injective f) :
    Function.Injective (List.flatMap f) := by
  intro l l' h
  induction l generalizing l' with
  | nil =>
    cases l' with
    | nil => rfl
    | cons a l' =>
      have hlen := congrArg List.length h
      rw [List.flatMap_nil, List.flatMap_cons, List.length_append, hlength, List.length_nil] at hlen
      omega
  | cons a l ih =>
    cases l' with
    | nil =>
      have hlen := congrArg List.length h
      rw [List.flatMap_nil, List.flatMap_cons, List.length_append, hlength, List.length_nil] at hlen
      omega
    | cons a' l' =>
      rw [List.flatMap_cons, List.flatMap_cons] at h
      obtain ⟨hfirst, hrest⟩ := List.append_inj h (by rw [hlength, hlength])
      rw [hf hfirst, ih hrest]

theorem length_hexByte (b : UInt8) : (hexByte b).length = 2 := by
  have hdigits : (Nat.toDigits 16 b.toNat).length ≤ 2 :=
    (Nat.length_toDigits_le_iff (by decide) (by decide)).mpr b.toNat_lt
  rw [hexByte, List.length_append, List.length_replicate]
  omega

/-- The two digits of a byte. -/
theorem hexByte_eq (b : UInt8) :
    hexByte b = [(b.toNat / 16).digitChar, (b.toNat % 16).digitChar] := by
  have hlt := b.toNat_lt
  unfold hexByte
  by_cases hb : b.toNat < 16
  · rw [Nat.toDigits_of_lt_base hb, Nat.div_eq_of_lt hb, Nat.mod_eq_of_lt hb]
    rfl
  · rw [Nat.toDigits_of_base_le (by decide) (Nat.le_of_not_lt hb),
      Nat.toDigits_of_lt_base (by omega)]
    rfl

theorem digitChar_injOn : Set.InjOn Nat.digitChar {n | n < 16} := by
  have hvalue : ∀ n < 16, "0123456789abcdef".toList.idxOf n.digitChar = n := by decide
  intro n hn m hm h
  rw [← hvalue n hn, ← hvalue m hm, h]

theorem hexByte_injective : Function.Injective hexByte := by
  intro b b' h
  rw [hexByte_eq, hexByte_eq, List.cons.injEq, List.cons.injEq] at h
  obtain ⟨hhigh, hlow, -⟩ := h
  have hlt := b.toNat_lt
  have hlt' := b'.toNat_lt
  have hdiv := digitChar_injOn (by simp; omega) (by simp; omega) hhigh
  have hmod := digitChar_injOn (by simp; omega) (by simp; omega) hlow
  refine UInt8.toNat_inj.mp ?_
  omega

/-- The fields are in the ranges that `localtime` gives them. -/
structure Tm.Valid (ptm : Tm) : Prop where
  tm_hour : ptm.tm_hour < 24
  tm_min : ptm.tm_min < 60
  tm_sec : ptm.tm_sec ≤ 60

theorem length_twoDigits {n : Nat} (hn : n < 100) : (twoDigits n).toList.length = 2 := by
  have hle {k : Nat} (hk : 0 < k) : (Nat.repr n).toList.length ≤ k ↔ n < 10 ^ k := by
    rw [Nat.toList_repr]
    exact Nat.length_toDigits_le_iff (by decide) hk
  unfold twoDigits
  split
  · next hsmall =>
    rw [String.toList_append, List.length_append]
    show 1 + (Nat.repr n).toList.length = 2
    rw [Nat.toList_repr, Nat.toDigits_of_lt_base hsmall]
    rfl
  · next hlarge =>
    have htwo := (hle (k := 2) (by decide)).mpr hn
    have hone := mt (hle (k := 1) (by decide)).mp hlarge
    show (Nat.repr n).toList.length = 2
    omega

theorem ofDigitChars_twoDigits (n : Nat) : Nat.ofDigitChars 10 (twoDigits n).toList 0 = n := by
  unfold twoDigits
  split
  · simp [Nat.ofDigitChars_cons]
  · simp

theorem twoDigits_inj {n m : Nat} (h : (twoDigits n).toList = (twoDigits m).toList) : n = m := by
  have hvalue := congrArg (Nat.ofDigitChars 10 · 0) h
  simpa only [ofDigitChars_twoDigits] using hvalue

theorem Tm.Valid.length {ptm : Tm} (h : ptm.Valid) :
    (twoDigits ptm.tm_hour).toList.length = 2 ∧ (twoDigits ptm.tm_min).toList.length = 2 ∧
      (twoDigits ptm.tm_sec).toList.length = 2 := by
  obtain ⟨hhour, hmin, hsec⟩ := h
  exact ⟨length_twoDigits (by omega), length_twoDigits (by omega), length_twoDigits (by omega)⟩

/-- A valid time fits the buffer. -/
theorem toList_timeStamp {ptm : Tm} (h : ptm.Valid) : (timeStamp ptm).toList =
    (twoDigits ptm.tm_hour).toList ++ ("_0_".toList ++ ((twoDigits ptm.tm_min).toList ++
      ("_0_".toList ++ (twoDigits ptm.tm_sec).toList))) := by
  obtain ⟨hhour, hmin, hsec⟩ := h.length
  rw [timeStamp, String.toList_ofList, List.take_of_length_le]
  · simp only [String.toList_append, List.append_assoc]
  · simp only [String.toList_append, List.length_append, hhour, hmin, hsec]
    decide

theorem length_timeStamp {ptm : Tm} (h : ptm.Valid) : (timeStamp ptm).toList.length = 12 := by
  obtain ⟨hhour, hmin, hsec⟩ := h.length
  rw [toList_timeStamp h]
  simp only [List.length_append, hhour, hmin, hsec]
  decide

theorem timeStamp_inj {p q : Tm} (hp : p.Valid) (hq : q.Valid)
    (h : (timeStamp p).toList = (timeStamp q).toList) : p = q := by
  obtain ⟨hpHour, hpMin, -⟩ := hp.length
  obtain ⟨hqHour, hqMin, -⟩ := hq.length
  rw [toList_timeStamp hp, toList_timeStamp hq] at h
  obtain ⟨hhour, h⟩ := List.append_inj h (hpHour.trans hqHour.symm)
  obtain ⟨hmin, h⟩ := List.append_inj (List.append_cancel_left h) (hpMin.trans hqMin.symm)
  have hsec := List.append_cancel_left h
  cases p
  cases q
  rw [Tm.mk.injEq]
  exact ⟨twoDigits_inj hhour, twoDigits_inj hmin, twoDigits_inj hsec⟩

/-- The strings that `generateToken` hashes for these user names. -/
def hashed (names : Set String) : Set String := (· ++ "945168") '' names

/-- Equal tokens were made for one user and one time of day. -/
theorem generateToken_inj {lib : Library} {names : Set String}
    (hinj : Set.InjOn lib.md5 (hashed names)) {u v : String} (hu : u ∈ names) (hv : v ∈ names)
    {p q : Tm} (hp : p.Valid) (hq : q.Valid)
    (h : generateToken lib u p = generateToken lib v q) : u = v ∧ p = q := by
  have hlist := congrArg String.toList h
  simp only [generateToken, String.toList_append, String.toList_ofList] at hlist
  obtain ⟨hdigits, htime⟩ := List.append_inj' hlist (by rw [length_timeStamp hp, length_timeStamp hq])
  have hdigest := flatMap_injective (by decide) length_hexByte hexByte_injective hdigits
  have hsalted := hinj (Set.mem_image_of_mem _ hu) (Set.mem_image_of_mem _ hv) hdigest
  exact ⟨(String.append_left_inj _).mp hsalted, timeStamp_inj hp hq htime⟩

namespace Storage

/-! ### Runs of logins -/

/-- The times that the logins have read. -/
def timesOf (trace : List (Nat × Event effects)) : List Tm :=
  trace.filterMap fun
    | (_, ⟨.localtime, ptm⟩) => some ptm
    | _ => none

section Runs

variable {lib : Library} {mayFail : Op → Bool} {ok : Config (machine lib mayFail) → Nat → Prop}
  {requests : Nat → Request} {m₀ : Memory} {c : Config (machine lib mayFail)}

/-- The session key that a login has set. -/
theorem token_of_set (h : Reach ok (start lib mayFail requests m₀) c) {t : Nat}
    (hlogin : (requests t).handler = .userLogin) {key v : String}
    (he : (t, ⟨Op.set key v, ()⟩) ∈ c.trace) :
    ∃ u, ∃ ptm ∈ timesOf c.trace, submitted lib (requests t).req = some u ∧
      key = "OJ:" ++ generateToken lib u ptm := by
  obtain ⟨later, earlier, hown⟩ := List.append_of_mem (mem_own.mpr he)
  obtain ⟨u, ptm, hu, htime, hkey⟩ :=
    (h.own_events t rfl (start_login hlogin) (fun _ _ _ _ _ _ _ _ _ => trivial) hown).1 key v rfl
  refine ⟨u, ptm, List.mem_filterMap.mpr ⟨(t, ⟨.localtime, ptm⟩), mem_own.mp ?_, rfl⟩, hu, hkey⟩
  rw [hown]
  exact List.mem_append_right _ (List.mem_cons_of_mem _ htime)

end Runs

/-- Tokens do not collide across users: equal tokens were made for one user name and one time of day,
so that in every run two logins that set one session key have submitted the same user name. -/
theorem tokens_do_not_collide (lib : Library) (names : Set String)
    (hinj : Set.InjOn lib.md5 (hashed names)) :
    (∀ u ∈ names, ∀ v ∈ names, ∀ p q : Tm, p.Valid → q.Valid →
      generateToken lib u p = generateToken lib v q → u = v ∧ p = q) ∧
    ∀ (requests : Nat → Request) (m : Memory) (c : Config (machine lib anyFault)),
      Reach anyOrder (start lib anyFault requests m) c →
      (∀ t u, (requests t).handler = .userLogin → submitted lib (requests t).req = some u →
        u ∈ names) →
      (∀ ptm ∈ timesOf c.trace, ptm.Valid) →
      ∀ t t' key v v', (requests t).handler = .userLogin → (requests t').handler = .userLogin →
        (t, ⟨Op.set key v, ()⟩) ∈ c.trace → (t', ⟨Op.set key v', ()⟩) ∈ c.trace →
        submitted lib (requests t).req = submitted lib (requests t').req := by
  constructor
  · intro u hu v hv p q hp hq h
    exact generateToken_inj hinj hu hv hp hq h
  · intro requests m c h hnames htimes t t' key v v' hlogin hlogin' he he'
    obtain ⟨u, p, hp, hu, hkey⟩ := token_of_set h hlogin he
    obtain ⟨u', q, hq, hu', hkey'⟩ := token_of_set h hlogin' he'
    have htoken := (String.append_right_inj _).mp (hkey.symm.trans hkey')
    have hsame := generateToken_inj hinj (hnames t u hlogin hu) (hnames t' u' hlogin' hu')
      (htimes p hp) (htimes q hq) htoken
    rw [hu, hu', hsame.1]

/-- Alice logs in twice, and `admin` is the user of the other requests. -/
def logins (t : Nat) : Request :=
  ⟨.userLogin, .sample "/login" ""
    (if t < 2 then "username=alice&password=secret" else "username=admin&password=secret")⟩

theorem tokens_do_not_collide_alice :
    ∃ c : Config (machine .sample anyFault),
      Reach anyOrder (start .sample anyFault logins (.account "alice" "teacher")) c ∧
      (0, ⟨Op.set "OJ:d9605bd19536a1cda03dd932dd182f7f00_0_00_0_00" "alice", ()⟩) ∈ c.trace ∧
      (1, ⟨Op.set "OJ:d9605bd19536a1cda03dd932dd182f7f00_0_00_0_00" "alice", ()⟩) ∈ c.trace ∧
      submitted .sample (logins 0).req = submitted .sample (logins 1).req := by
  obtain ⟨c, hc, hv⟩ := Config.exists_reach anyOrder
    (start .sample anyFault logins (.account "alice" "teacher"))
    (List.replicate 11 (0, .quiet) ++ List.replicate 11 (1, .quiet))
    (fun c => ((c.trace.map fun e => (e.1, e.2.op)).filter fun e => (Binds e.2).isSome,
      timesOf c.trace))
    ([(1, .set "OJ:d9605bd19536a1cda03dd932dd182f7f00_0_00_0_00" "alice"),
      (0, .set "OJ:d9605bd19536a1cda03dd932dd182f7f00_0_00_0_00" "alice")], [⟨0, 0, 0⟩, ⟨0, 0, 0⟩])
    (by decide +kernel)
  obtain ⟨hsets, htimes⟩ := Prod.mk.injEq .. ▸ hv
  have hset : ∀ t, (t, Op.set "OJ:d9605bd19536a1cda03dd932dd182f7f00_0_00_0_00" "alice") ∈
      (c.trace.map fun e => (e.1, e.2.op)).filter (fun e => (Binds e.2).isSome) →
      (t, ⟨Op.set "OJ:d9605bd19536a1cda03dd932dd182f7f00_0_00_0_00" "alice", ()⟩) ∈ c.trace := by
    intro t ht
    obtain ⟨⟨u, ⟨o, r⟩⟩, he, heq⟩ := List.mem_map.mp (List.mem_filter.mp ht).1
    cases heq
    exact he
  have hinj : Set.InjOn Library.sample.md5 (hashed {"alice", "admin"}) := by
    rintro _ ⟨u, rfl | rfl, rfl⟩ _ ⟨v, rfl | rfl, rfl⟩ h
    · rfl
    · exact absurd h (by decide)
    · exact absurd h (by decide)
    · rfl
  have hnames : ∀ t u, submitted .sample (logins t).req = some u → u ∈ ({"alice", "admin"} : Set String) := by
    intro t u hu
    by_cases ht : t < 2
    · simp only [logins, if_pos ht] at hu
      have halice : submitted .sample (.sample "/login" "" "username=alice&password=secret") =
          some "alice" := by decide +kernel
      rw [halice, Option.some_inj] at hu
      exact .inl hu.symm
    · simp only [logins, if_neg ht] at hu
      have hadmin : submitted .sample (.sample "/login" "" "username=admin&password=secret") =
          some "admin" := by decide +kernel
      rw [hadmin, Option.some_inj] at hu
      exact .inr hu.symm
  have hvalid : ∀ ptm ∈ timesOf c.trace, ptm.Valid := by
    intro ptm hptm
    rw [htimes] at hptm
    obtain rfl : ptm = ⟨0, 0, 0⟩ := by simpa using hptm
    exact ⟨by decide, by decide, by decide⟩
  have h0 := hset 0 (by rw [hsets]; decide)
  have h1 := hset 1 (by rw [hsets]; decide)
  exact ⟨c, hc, h0, h1, (tokens_do_not_collide .sample {"alice", "admin"} hinj).2 logins _ c hc
    (fun t u _ hu => hnames t u hu) hvalid 0 1 _ _ _ rfl rfl h0 h1⟩

end Storage

end OJJudge
