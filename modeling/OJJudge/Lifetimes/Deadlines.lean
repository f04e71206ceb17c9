import OJJudge.Lifetimes.Keys
import OJJudge.Server.Locking

/-! Every run leaves its keys with deadlines, but for the counts.  So sessions end: when nothing runs
for longer than the longest time limit, no session is left. -/

namespace OJJudge.Lifetimes

open Concurrency Storage

/-! ### Runs -/

/-- The key has a deadline within the longest time limit, or is a count that an `INCR` has made. -/
def Memory.Limited (m : Memory) (key : String) : Prop :=
  (∃ d, m.deadline key = some d ∧ m.now ≤ d ∧ d ≤ m.now + longest) ∨
    m.deadline key = none ∧ m.counted key = true ∧ IsCount key

theorem Memory.Limited.not_bare {m : Memory} {key : String} (h : m.Limited key) : ¬m.Bare key := by
  rintro ⟨-, hnone, hcounted⟩
  obtain ⟨d, hd, -⟩ | ⟨-, hcount, -⟩ := h
  · rw [hnone] at hd
    cases hd
  · rw [hcounted] at hcount
    cases hcount

/-- Every key that is there is limited. -/
def Memory.Timed (m : Memory) : Prop :=
  ∀ key, (m.store.redis key).isSome = true → m.Limited key

section Runs

variable {lib : Library} {mayFail : Op → Bool} {requests : Nat → Request} {m : Memory}
  {ok : Config (machine lib mayFail) → Nat → Prop} {c : Config (machine lib mayFail)}
  {t : Nat} {o : Op} {x : Choice} {m' : Memory} {r : o.Res} {key : String}

/-- The step lemma. -/
theorem limited_of_exec (h : exec lib mayFail t o x m = some (r, m')) (hexpires : Expires mayFail)
    (ho : Limits o) (hm : ∀ key, (m.store.redis key).isSome = true → m.Limited key ∨ m.Bare key)
    (hthere : (m'.store.redis key).isSome = true) : m'.Limited key ∨ m'.Bare key := by
  have hnow := now_of_exec h
  cases exec_key h hexpires hthere with
  | kept hbefore hdeadline hcounted _ hdue =>
    obtain (⟨d, hd, -, hle⟩ | ⟨hnone, hcount, hkey⟩) | ⟨-, hnone, hbare⟩ := hm key hbefore
    · have hd' : m'.deadline key = some d := hdeadline.trans hd
      exact .inl (.inl ⟨d, hd', hdue d hd', by omega⟩)
    · exact .inl (.inr ⟨hdeadline.trans hnone, hcounted.trans hcount, hkey⟩)
    · exact .inr ⟨hthere, hdeadline.trans hnone, hcounted.trans hbare⟩
  | set v _ hdeadline hcounted => exact .inr ⟨hthere, hdeadline, hcounted⟩
  | count ho' hdeadline hcounted =>
    subst ho'
    exact .inl (.inr ⟨hdeadline, hcounted, ho⟩)
  | expire seconds ho' hdeadline =>
    subst ho'
    exact .inl (.inl ⟨_, hdeadline, Nat.le_add_right .., Nat.add_le_add_left ho _⟩)

/-- The run lemma. -/
theorem limited_or_bare (hexpires : Expires mayFail) (hm : m.Timed)
    (h : Reach ok (Lifetimes.start lib mayFail requests m) c) (key : String)
    (hthere : (c.mem.store.redis key).isSome = true) : c.mem.Limited key ∨ c.mem.Bare key := by
  refine h.induct (I := fun c : Config (machine lib mayFail) => ∀ key, (c.mem.store.redis key).isSome = true →
    c.mem.Limited key ∨ c.mem.Bare key) (fun key hkey => .inl (hm key hkey)) ?_ key hthere
  intro c t x o k r m' hr ih _ hp hexec key hkey
  have hlimits := hr.only (fun t => request_limits lib (requests t)) t
  rw [hp] at hlimits
  exact limited_of_exec hexec hexpires hlimits.1 ih hkey

theorem run_balanced (hexpires : Expires mayFail) (hm : m.Timed)
    (h : Reach ok (Lifetimes.start lib mayFail requests m) c) : (ledger lib hexpires).Balanced c := by
  refine Ledger.balanced h rfl ?_ fun t => request_settles lib (requests t)
  exact fun key hbare => (hm key hbare.1).not_bare hbare

/-- Every thread has not begun, or has returned. -/
def AtRest (c : Config (machine lib mayFail)) : Prop :=
  ∀ t, own t c.trace = [] ∨ (c.prog t).returned = true

theorem timed_of_atRest (hexpires : Expires mayFail) (hm : m.Timed)
    (h : Reach ok (Lifetimes.start lib mayFail requests m) c) (hrest : AtRest c) : c.mem.Timed := by
  intro key hthere
  have hbalanced := run_balanced hexpires hm h
  obtain hlimited | hbare := limited_or_bare hexpires hm h key hthere
  · exact hlimited
  · obtain ⟨t, howes⟩ := hbalanced.places key hbare
    rw [hbalanced.settled (hrest t)] at howes
    cases howes

/-- What is left after the longest time limit. -/
theorem Memory.Timed.wait {seconds : Nat} (hm : m.Timed) (hlong : longest < seconds)
    (hthere : ((m.wait seconds).store.redis key).isSome = true) : IsCount key := by
  obtain ⟨hbefore, hdue⟩ := m.of_redis_wait hthere
  obtain ⟨d, hd, -, hle⟩ | ⟨-, -, hcount⟩ := hm key hbefore
  · have hlate := hdue d hd
    omega
  · exact hcount

/-- No key is left without a deadline but the counts, when no `EXPIRE` fails and it was so at the
beginning: in every run, in which time passes at will, a key that is there has a deadline within three
days, or some request has bound it and has yet to set its deadline, or it is the sum of a submission or
a counter that an `INCR` has made.  When all requests have ended, the second case is gone. -/
theorem keys_have_deadlines (hexpires : Expires mayFail) (hm : m.Timed)
    (h : Reach ok (start lib mayFail requests m) c) :
    (∀ key, (c.mem.store.redis key).isSome = true →
        c.mem.Limited key ∨ ∃ t, owing bracket (own t c.trace) = some key) ∧
      (AtRest c → c.mem.Timed) := by
  refine ⟨fun key hthere => ?_, timed_of_atRest hexpires hm h⟩
  obtain hlimited | hbare := limited_or_bare hexpires hm h key hthere
  · exact .inl hlimited
  · exact .inr ((run_balanced hexpires hm h).places key hbare)

end Runs

/-- A memory in which Alice has a session for another thousand seconds. -/
def Memory.oneSession : Memory where
  store := Server.Memory.oneProblem
  now := 0
  deadline key := if key = "OJ:t" then some 1000 else none
  counted _ := false

theorem timed_oneSession : Memory.oneSession.Timed := by
  intro key hthere
  have hkey : key = "OJ:t" := by
    by_contra hne
    simp [Memory.oneSession, Server.Memory.oneProblem, hne] at hthere
  subst hkey
  exact .inl ⟨1000, rfl, by decide, by decide⟩

/-- Alice's job begins when the deadline of her submission has passed. -/
def lateJob : List (Nat × Choice) :=
  List.replicate 13 (0, ⟨0, .quiet⟩) ++ (0, ⟨41, .quiet⟩) :: List.replicate 14 (0, ⟨0, .quiet⟩)

theorem atRest_of_one {lib : Library} {mayFail : Op → Bool} {c : Config (machine lib mayFail)}
    (hone : ∀ t ∈ c.trace.map (·.1), t = 0) (hreturned : (c.prog 0).returned = true) :
    AtRest c := by
  intro t
  by_cases ht : t = 0
  · exact .inr (ht ▸ hreturned)
  · refine .inl (List.eq_nil_iff_forall_not_mem.mpr fun e he => ht ?_)
    exact hone t (List.mem_map_of_mem (f := (·.1)) (mem_own.mp he))

theorem exists_lateJob : ∃ c : Config (machine .sample fun _ => false),
    Reach anyOrder (start .sample (fun _ => false) Server.submissions Memory.oneSession) c ∧
      AtRest c ∧ c.mem.store.redis "Judge:alice__p__sum" = some "1" ∧
      c.mem.deadline "Judge:alice__p__sum" = none := by
  obtain ⟨c, hc, hv⟩ := Config.exists_reach anyOrder
    (start .sample (fun _ => false) Server.submissions Memory.oneSession) lateJob
    (fun c => (c.trace.map (·.1), (c.prog 0).returned, c.mem.store.redis "Judge:alice__p__sum",
      c.mem.deadline "Judge:alice__p__sum"))
    (List.replicate 28 0, true, some "1", none) (by decide +kernel)
  simp only [Prod.mk.injEq] at hv
  obtain ⟨hthreads, hreturned, hsum, hdeadline⟩ := hv
  refine ⟨c, hc, atRest_of_one (fun t ht => ?_) hreturned, hsum, hdeadline⟩
  rw [hthreads] at ht
  exact (List.mem_replicate.mp ht).2

/-- The sum of the late job stays for ever. -/
theorem keys_have_deadlines_lateJob : ∃ c : Config (machine .sample fun _ => false),
    Reach anyOrder (start .sample (fun _ => false) Server.submissions Memory.oneSession) c ∧
      c.mem.store.redis "Judge:alice__p__sum" = some "1" ∧
      c.mem.deadline "Judge:alice__p__sum" = none ∧ c.mem.Timed := by
  obtain ⟨c, hc, hrest, hsum, hdeadline⟩ := exists_lateJob
  exact ⟨c, hc, hsum, hdeadline, (keys_have_deadlines (fun _ _ => rfl) timed_oneSession hc).2 hrest⟩

/-- Sessions end, when no `EXPIRE` fails and every key had its deadline at the beginning: when all
requests have ended and nothing runs for more than three days, a request to a handler of `Judge` with
any session cookie is refused, unless the token makes its session key the key of a counter. -/
theorem sessions_end {lib : Library} {mayFail : Op → Bool} {requests : Nat → Request} {m : Memory}
    {ok : Config (machine lib mayFail) → Nat → Prop} {c : Config (machine lib mayFail)}
    (hexpires : Expires mayFail) (hm : m.Timed) (h : Reach ok (start lib mayFail requests m) c)
    (hrest : AtRest c) {seconds : Nat} (hlong : longest < seconds) (request : Request)
    (hregist : request.handler ≠ .userRegist) (hlogin : request.handler ≠ .userLogin) {key : String}
    (hkey : request.req.sessionKey? = some key) (hcounter : ∀ problem_id, key ≠ counterKey problem_id) :
    (request.prog lib).events (alone lib) (c.mem.wait seconds).store =
      match request.req.KVpairs with
      | none => []
      | some _ => [⟨.get key, none⟩, ⟨.set_status_code "403", ()⟩] := by
  have hgone : (c.mem.wait seconds).store.redis key = none := by
    rw [← Option.not_isSome_iff_eq_none]
    intro hthere
    obtain ⟨f, hsum⟩ | ⟨problem_id, hcount⟩ :=
      (timed_of_atRest hexpires hm h hrest).wait hlong hthere
    · obtain ⟨token, -, hsession⟩ := Option.map_eq_some_iff.mp hkey
      have hprefix : IsSession key := hsession ▸ isSession_append (text token)
      rw [hsum, sumKey, String.append_assoc] at hprefix
      exact not_isSession_judge _ hprefix
    · exact hcounter problem_id hcount
  obtain ⟨next, hprog⟩ := Request.prog_eq_session lib hregist hlogin
  rw [hprog, withParams]
  cases request.req.KVpairs with
  | none => rfl
  | some KVpairs =>
    simp only [session, hkey, my_sync_check_token, effect_eq, Prog.op_bind, Prog.ret_bind,
      Prog.pure_eq]
    rw [events_alone (by simp), Memory.response_get, hgone]
    rfl

theorem sessions_end_lateJob : ∃ c : Config (machine .sample fun _ => false),
    Reach anyOrder (start .sample (fun _ => false) Server.submissions Memory.oneSession) c ∧
      ((Server.submissions 1).prog .sample).events (alone .sample) (c.mem.wait 259201).store =
        [⟨.get "OJ:t", none⟩, ⟨.set_status_code "403", ()⟩] := by
  obtain ⟨c, hc, hrest, -, -⟩ := exists_lateJob
  have hkey : (Server.submissions 1).req.sessionKey? = some "OJ:t" := by decide +kernel
  have hcounter : ∀ problem_id, "OJ:t" ≠ counterKey problem_id := by
    intro problem_id heq
    have hlength := congrArg String.length heq
    rw [counterKey, String.length_append] at hlength
    have hlong : "_total_case_num".length = 15 := by decide
    have hshort : "OJ:t".length = 4 := by decide
    omega
  have hevents := sessions_end (fun _ _ => rfl) timed_oneSession hc hrest
    (show longest < 259201 by decide) (Server.submissions 1) (by decide) (by decide) hkey hcounter
  refine ⟨c, hc, hevents.trans ?_⟩
  have hparams : (Server.submissions 1).req.KVpairs.isSome = true := by decide +kernel
  obtain ⟨KVpairs, hKVpairs⟩ := Option.isSome_iff_exists.mp hparams
  rw [hKVpairs]

end OJJudge.Lifetimes
