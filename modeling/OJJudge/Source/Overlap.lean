import OJJudge.Source.Histories

/-! Whether a job judges the program that it was queued for.  All submissions of a pair write one
source file and compile it to one executable, so a job judges its own program only when no other
submission writes the source between its write and its compile command, none removes the source
after it was opened, and none compiles or removes the executable before its last copy. -/

namespace OJJudge.Source

open Concurrency

/-- The descriptor and the bytes of a submission that has written its source and not compiled
it. -/
def pending : List Mark → Option (Nat × Bytes)
  | [.wrote fd body, .opened _] => some (fd, body)
  | [.queued _, .wrote fd body, .opened _] => some (fd, body)
  | _ => none

def Mark.isOpened : Mark → Bool
  | opened _ => true
  | _ => false

def Mark.isCompiled : Mark → Bool
  | compiled _ => true
  | _ => false

/-- The events since the latest one of submission `t` with a mark that satisfies `p`. -/
def since (t : Nat) (p : Mark → Bool) (trace : List (Nat × Event effects)) :
    List (Nat × Event effects) :=
  trace.takeWhile fun e => !(decide (e.1 = t) && (mark e.2).any p)

/-- The event replaces or removes the executable at `path`. -/
def unmakes (path : String) : Event effects → Bool
  | ⟨.spawn (.gpp _ out), status⟩ => out = path && status = 0
  | ⟨.spawn (.rm removed), _⟩ => removed = path
  | _ => false

/-- When submission `t` may run an operation. -/
def UndisturbedOp (c : Config machine) (t : Nat) : Op → Prop
  | .write fd body =>
    (c.mem.content (c.mem.fdInode fd)).length ≤ body.length ∧
    ∀ e ∈ c.trace, (c.prog e.1).returned = false →
      ∀ w ∈ pending (marks (own e.1 c.trace)), c.mem.fdInode w.1 = c.mem.fdInode fd → w.2 = body
  | .spawn (.gpp source _) =>
    ∀ e ∈ since t Mark.isOpened c.trace, e.2.op ≠ .spawn (.rm source)
  | .spawn (.cp source target) =>
    target = boxPath "runner" →
      ∀ e ∈ since t Mark.isCompiled c.trace, unmakes source e.2 = false
  | _ => True

/-- A submission writes its source only over a file that is no longer, and that no other submission
has written with other bytes and not compiled yet.  It compiles only a source that nobody has
removed since it opened it, and it copies only an executable that nobody has compiled or removed
since its own compile command. -/
def undisturbed (c : Config machine) (t : Nat) : Prop :=
  ∀ o ∈ (c.prog t).next?, UndisturbedOp c t o

instance (c : Config machine) (t : Nat) : ∀ o, Decidable (UndisturbedOp c t o)
  | .write _ _ => inferInstanceAs (Decidable (_ ∧ _))
  | .spawn (.gpp _ _) => inferInstanceAs (Decidable (∀ _ ∈ _, _))
  | .spawn (.cp _ _) => inferInstanceAs (Decidable (_ → _))
  | .spawn (.rm _) | .spawn .isolateInit | .spawn .isolateRun | .spawn .isolateCleanup
  | .get _ | .set _ _ | .incr _ | .expire _ _ | .del _ | .query _ | .openFile _ | .close _
  | .push _ | .lock | .unlock | .file_cmp _ _ | .set_status_code _ | .append_output_body _
  | .append_output_text _ | .append_output_rows _ | .send_string _ | .add_header _ _ | .crypt _ _
  | .crypt_buffer | .localtime | .out_of_range => inferInstanceAs (Decidable True)

instance (c : Config machine) (t : Nat) : Decidable (undisturbed c t) := by
  unfold undisturbed
  infer_instance

/-- What the operation reads is from submission `t`. -/
def OwnFilesOp (body : Nat → Bytes) (c : Config machine) (t : Nat) : Op → Prop
  | .spawn (.gpp source _) => c.mem.source source = some (body t)
  | .spawn (.cp source target) => target = boxPath "runner" → c.mem.maker source = some t
  | _ => True

/-- When submission `t` is about to compile, the source holds its own bytes, and when it is about to
copy an executable into the sandbox, it copies its own one. -/
def OwnFiles (body : Nat → Bytes) (c : Config machine) (t : Nat) : Prop :=
  ∀ o ∈ (c.prog t).next?, OwnFilesOp body c t o

instance (body : Nat → Bytes) (c : Config machine) (t : Nat) :
    ∀ o, Decidable (OwnFilesOp body c t o)
  | .spawn (.gpp _ _) => inferInstanceAs (Decidable (_ = _))
  | .spawn (.cp _ _) => inferInstanceAs (Decidable (_ → _))
  | .spawn (.rm _) | .spawn .isolateInit | .spawn .isolateRun | .spawn .isolateCleanup
  | .get _ | .set _ _ | .incr _ | .expire _ _ | .del _ | .query _ | .openFile _ | .write _ _
  | .close _ | .push _ | .lock | .unlock | .file_cmp _ _ | .set_status_code _
  | .append_output_body _ | .append_output_text _ | .append_output_rows _ | .send_string _
  | .add_header _ _ | .crypt _ _ | .crypt_buffer | .localtime | .out_of_range =>
    inferInstanceAs (Decidable True)

instance (body : Nat → Bytes) (c : Config machine) (t : Nat) : Decidable (OwnFiles body c t) := by
  unfold OwnFiles
  infer_instance

/-! ### What a step does -/

/-- The operations that a submission runs on files. -/
def FileOp (f : String) : Op → Prop
  | .openFile path => path = cppPath OJ_Judge.waiting_judge f
  | .spawn (.gpp source out) =>
    source = cppPath OJ_Judge.waiting_judge f ∧ out = runPath OJ_Judge f
  | .spawn (.cp source target) =>
    target ≠ runPath OJ_Judge f ∧ (target = boxPath "runner" → source = runPath OJ_Judge f)
  | .spawn (.rm path) => path = cppPath OJ_Judge.waiting_judge f ∨ path = runPath OJ_Judge f
  | _ => True

theorem runCpp_fileOp (user_name porblem_title : String) (body : Bytes) :
    (runCpp OJ_Judge user_name porblem_title body).Only
      (FileOp (fileName user_name porblem_title)) := by
  refine (runCpp_only OJ_Judge user_name porblem_title body).mono fun o ho => ?_
  cases ho with
  | openFile => exact uploadPath_eq user_name porblem_title
  | job task hpath hname ho =>
    cases ho with
    | compile => exact ⟨by rw [hpath, hname], by rw [hname]⟩
    | copyRunner => exact ⟨boxPath_ne_runPath _ _, fun _ => by rw [hname]⟩
    | copyInput input => exact ⟨boxPath_ne_runPath _ _, fun h => by simp at h⟩
    | copyOutput i =>
      rw [hpath]
      exact ⟨outputPath_ne_runPath _ _ i, fun h => absurd h.symm (boxPath_ne_outputPath _ _ i)⟩
    | removeSource => exact .inl (by rw [hpath, hname])
    | removeRun => exact .inr (by rw [hname])
    | _ => trivial
  | _ => trivial

/-- The files of the pair are the same. -/
structure SameFiles (f : String) (m m' : Memory) : Prop where
  inode : m'.inode = m.inode
  content : m'.content = m.content
  fdInode : m'.fdInode = m.fdInode
  opened : m'.opened = m.opened
  inodes : m'.inodes = m.inodes
  maker : m'.maker (runPath OJ_Judge f) = m.maker (runPath OJ_Judge f)

theorem SameFiles.refl (f : String) (m : Memory) : SameFiles f m m := ⟨rfl, rfl, rfl, rfl, rfl, rfl⟩

/-- What an event of submission `t` makes of the files. -/
inductive FileEffect (f : String) (t : Nat) (m : Memory) : Event effects → Memory → Prop
  | openFile : FileEffect f t m ⟨.openFile (cppPath OJ_Judge.waiting_judge f), m.opened⟩
      (m.openFile (cppPath OJ_Judge.waiting_judge f))
  | write (fd : Nat) (body : Bytes) : FileEffect f t m ⟨.write fd body, ()⟩ (m.write fd body)
  | compile (source : String) :
      FileEffect f t m ⟨.spawn (.gpp source (runPath OJ_Judge f)), (0 : Int32)⟩
        (m.make (runPath OJ_Judge f) (some t))
  | compileFailed (source : String) (status : Int32) (h : status ≠ 0) :
      FileEffect f t m ⟨.spawn (.gpp source (runPath OJ_Judge f)), status⟩ m
  | remove (path : String) (status : Int32)
      (h : path = cppPath OJ_Judge.waiting_judge f ∨ path = runPath OJ_Judge f) :
      FileEffect f t m ⟨.spawn (.rm path), status⟩ (m.remove path)
  | quiet (e : Event effects) (m' : Memory)
      (hmk : ∀ mk, mark e = some mk → mk = .copied ∨ ∃ n, mk = .queued n)
      (h : SameFiles f m m') : FileEffect f t m e m'

theorem FileEffect.of_exec {f : String} {t : Nat} {o : Op} {r : o.Res}
    {x : (o : Op) → o.Res} {m m' : Memory} (ho : FileOp f o) (he : exec t o x m = some (r, m')) :
    FileEffect f t m ⟨o, r⟩ m' := by
  cases o with
  | openFile path =>
    cases he
    obtain rfl : path = _ := ho
    exact .openFile
  | write fd body =>
    cases he
    exact .write fd body
  | spawn cmd =>
    cases cmd with
    | gpp source out =>
      obtain ⟨-, rfl⟩ := ho
      simp only [exec] at he
      split at he
      · cases he
        exact .compileFailed source 1 (by decide)
      · split at he
        · cases he
          exact .compile source
        · next h =>
          cases he
          exact .compileFailed source _ h
    | cp source target =>
      have hmk : ∀ mk, mark ⟨.spawn (.cp source target), r⟩ = some mk →
          mk = .copied ∨ ∃ n, mk = .queued n := by
        intro mk h
        rw [mark_cp] at h
        split at h
        · cases h
          exact .inl rfl
        · cases h
      simp only [exec] at he
      split at he
      · cases he
        exact .quiet _ _ hmk ⟨rfl, rfl, rfl, rfl, rfl, Function.update_of_ne (Ne.symm ho.1) _ _⟩
      · cases he
        exact .quiet _ _ hmk (.refl f m)
    | rm path =>
      cases he
      exact .remove path _ ho
    | _ =>
      cases he
      exact .quiet _ _ (fun mk h => by cases h) (.refl f m)
  | lock =>
    simp only [exec] at he
    split at he
    · cases he
      exact .quiet _ _ (fun mk h => by cases h) ⟨rfl, rfl, rfl, rfl, rfl, rfl⟩
    · cases he
  | unlock =>
    cases he
    exact .quiet _ _ (fun mk h => by cases h) ⟨rfl, rfl, rfl, rfl, rfl, rfl⟩
  | push task =>
    cases he
    exact .quiet _ _ (fun mk h => by cases h; exact .inr ⟨_, rfl⟩) (.refl f m)
  | _ =>
    cases he
    exact .quiet _ _ (fun mk h => by cases h) (.refl f m)

section Effect

variable {f : String} {t : Nat} {m m' : Memory} {e : Event effects}

theorem FileEffect.keeps_descriptors (h : FileEffect f t m e m') :
    m.opened ≤ m'.opened ∧ m.inodes ≤ m'.inodes ∧
      ∀ fd, fd < m.opened → m'.fdInode fd = m.fdInode fd := by
  cases h with
  | openFile =>
    unfold Memory.openFile
    split <;> exact ⟨by simp, by simp, fun fd h => Function.update_of_ne (by omega) _ _⟩
  | quiet _ _ _ h => exact ⟨h.opened.ge, h.inodes.ge, fun fd _ => by rw [h.fdInode]⟩
  | _ => exact ⟨le_rfl, le_rfl, fun _ _ => rfl⟩

theorem FileEffect.keeps_content (h : FileEffect f t m e m')
    (hw : ∀ fd body, e.op ≠ .write fd body) {i : Nat} (hi : i < m.inodes) :
    m'.content i = m.content i := by
  cases h with
  | openFile =>
    unfold Memory.openFile
    split
    · rfl
    · exact Function.update_of_ne (by omega) _ _
  | write fd body => exact absurd rfl (hw fd body)
  | quiet _ _ _ h => rw [h.content]
  | _ => rfl

theorem FileEffect.keeps_inode (h : FileEffect f t m e m')
    (hr : e.op ≠ .spawn (.rm (cppPath OJ_Judge.waiting_judge f))) {i : Nat}
    (hi : m.inode (cppPath OJ_Judge.waiting_judge f) = some i) :
    m'.inode (cppPath OJ_Judge.waiting_judge f) = some i := by
  cases h with
  | openFile =>
    simp only [Memory.openFile, hi]
  | remove path status h =>
    obtain rfl | rfl := h
    · exact absurd rfl hr
    · simpa [Memory.remove, cppPath_ne_runPath] using hi
  | quiet _ _ _ h => rw [h.inode, hi]
  | _ => exact hi

theorem FileEffect.keeps_maker (h : FileEffect f t m e m')
    (hu : unmakes (runPath OJ_Judge f) e = false) :
    m'.maker (runPath OJ_Judge f) = m.maker (runPath OJ_Judge f) := by
  cases h with
  | openFile =>
    unfold Memory.openFile
    split <;> rfl
  | compile source => simp [unmakes] at hu
  | remove path status h =>
    obtain rfl | rfl := h
    · simp [Memory.remove, (cppPath_ne_runPath f f).symm]
    · simp [unmakes] at hu
  | quiet _ _ _ h => exact h.maker
  | _ => rfl

/-- A file that has just been opened is the one at the path. -/
theorem FileEffect.opens {fd : Nat} (h : FileEffect f t m e m')
    (hmk : mark e = some (.opened fd)) :
    fd < m'.opened ∧ m'.fdInode fd < m'.inodes ∧
      m'.inode (cppPath OJ_Judge.waiting_judge f) = some (m'.fdInode fd) := by
  cases h with
  | openFile =>
    cases hmk
    unfold Memory.openFile
    split
    · next i hi => simpa [hi] using m.inode_lt _ i hi
    · simp
  | quiet _ _ h _ => obtain h | ⟨n, h⟩ := h _ hmk <;> cases h
  | _ => cases hmk

end Effect

theorem since_cons_of_ne {t : Nat} {p : Mark → Bool} {e : Nat × Event effects}
    {trace : List (Nat × Event effects)} (h : e.1 = t → (mark e.2).any p = false) :
    since t p (e :: trace) = e :: since t p trace := by
  rw [since, List.takeWhile_cons_of_pos]
  · rfl
  · by_cases ht : e.1 = t
    · simp [h ht]
    · simp [ht]

section Run

variable {user_name porblem_title : String} {body : Nat → Bytes} {m : Memory} {c : Config machine}
  {ok : Config machine → Nat → Prop} {t u : Nat} {o : effects.Op}
  {k : effects.Res o → Prog effects Unit} {r : effects.Res o} {x : machine.Choice} {m' : Memory}

theorem filed (h : Reach ok (start user_name porblem_title body m) c) (t : Nat) :
    (c.prog t).Wp (Records fun _ _ => True) (fun h _ => Filed (body t) (marks h))
      (fun _ h => Filed (body t) (marks h)) (own t c.trace) :=
  h.history t rfl (runCpp_filed user_name porblem_title) fun _ _ _ _ _ _ _ _ _ => trivial

/-- What the next operation of a submission adds to its marks. -/
theorem fileStep (h : Reach ok (start user_name porblem_title body m) c)
    (hp : c.prog t = .op o k) (r : effects.Res o) {mk : Mark} (hmk : mark ⟨o, r⟩ = some mk) :
    FileStep (body t) (marks (own t c.trace)) mk := by
  have hnow := filed h t
  rw [hp] at hnow
  have hnext := (hnow.2 r _ ⟨trivial, rfl⟩).now
  refine Filed.fileStep ?_
  rwa [marks, List.filterMap_cons_some hmk] at hnext

theorem fileOp (h : Reach ok (start user_name porblem_title body m) c) (hp : c.prog t = .op o k) :
    FileOp (fileName user_name porblem_title) o := by
  have hop := h.only (K := fun _ => FileOp (fileName user_name porblem_title))
    (fun t => runCpp_fileOp user_name porblem_title (body t)) t
  rw [hp] at hop
  exact hop.1

theorem FileEffect.of_step (h : Reach ok (start user_name porblem_title body m) c)
    (hp : c.prog t = .op o k) (he : machine.exec t o x c.mem = some (r, m')) :
    FileEffect (fileName user_name porblem_title) t c.mem ⟨o, r⟩ m' :=
  .of_exec (fileOp h hp) he

theorem marks_after_same :
    marks (own t (c.after t o r k m').trace) =
      (mark ⟨o, r⟩).toList ++ marks (own t c.trace) := by
  rw [Config.trace_after, own_cons_same, marks, List.filterMap_cons]
  cases mark ⟨o, r⟩ <;> rfl

theorem marks_after_ne (h : u ≠ t) :
    marks (own t (c.after u o r k m').trace) = marks (own t c.trace) := by
  rw [Config.trace_after, own_cons_ne h]

/-- A mark after a step is an earlier one, or the mark of the step. -/
theorem mem_marks_after {mk : Mark} (h : mk ∈ marks (own t (c.after u o r k m').trace)) :
    mk ∈ marks (own t c.trace) ∨ u = t ∧ mark ⟨o, r⟩ = some mk := by
  by_cases hu : u = t
  · subst hu
    rw [marks_after_same, List.mem_append, Option.mem_toList] at h
    exact h.symm.imp id fun h => ⟨rfl, h⟩
  · exact .inl (marks_after_ne hu ▸ h)

/-- What holds of the files in every run. -/
structure Linked (f : String) (c : Config machine) : Prop where
  descriptor : ∀ t fd, .opened fd ∈ marks (own t c.trace) →
    fd < c.mem.opened ∧ c.mem.fdInode fd < c.mem.inodes
  source : ∀ t fd, .opened fd ∈ marks (own t c.trace) →
    (∀ e ∈ since t Mark.isOpened c.trace,
      e.2.op ≠ .spawn (.rm (cppPath OJ_Judge.waiting_judge f))) →
    c.mem.inode (cppPath OJ_Judge.waiting_judge f) = some (c.mem.fdInode fd)
  run : ∀ t, .compiled 0 ∈ marks (own t c.trace) →
    (∀ e ∈ since t Mark.isCompiled c.trace, unmakes (runPath OJ_Judge f) e.2 = false) →
    c.mem.maker (runPath OJ_Judge f) = some t

theorem FileEffect.makes {f : String} {m m' : Memory} {e : Event effects}
    (h : FileEffect f t m e m') (hmk : mark e = some (.compiled 0)) :
    m'.maker (runPath OJ_Judge f) = some t := by
  cases h with
  | compile source => exact Function.update_self _ _ _
  | compileFailed source status h =>
    cases hmk
    exact absurd rfl h
  | quiet _ _ h _ => obtain h | ⟨n, h⟩ := h _ hmk <;> cases h
  | _ => cases hmk

theorem linked (h : Reach ok (start user_name porblem_title body m) c) :
    Linked (fileName user_name porblem_title) c := by
  refine h.induct ?_ ?_
  · exact ⟨by simp [start, marks], by simp [start, marks], by simp [start, marks]⟩
  · intro c u x o k r m' hr ih hok hp he
    have heff := FileEffect.of_step hr hp he
    obtain ⟨hopened, hinodes, hfd⟩ := heff.keeps_descriptors
    constructor
    · intro t fd hmem
      obtain hmem | ⟨rfl, hmk⟩ := mem_marks_after hmem
      · obtain ⟨hlt, hi⟩ := ih.descriptor t fd hmem
        rw [Config.mem_after, hfd fd hlt]
        omega
      · obtain ⟨hlt, hi, -⟩ := heff.opens hmk
        exact ⟨hlt, hi⟩
    · intro t fd hmem hsince
      obtain hmem | ⟨rfl, hmk⟩ := mem_marks_after hmem
      · rw [Config.trace_after, since_cons_of_ne] at hsince
        · obtain ⟨hlt, -⟩ := ih.descriptor t fd hmem
          have hinode := ih.source t fd hmem fun e he => hsince e (List.mem_cons_of_mem _ he)
          rw [Config.mem_after, hfd fd hlt]
          exact heff.keeps_inode (hsince _ (List.mem_cons_self ..)) hinode
        · -- A submission opens its source once.
          rintro rfl
          cases hmk : mark ⟨o, r⟩ with
          | none => rfl
          | some mk =>
            have hstep := fileStep hr hp r hmk
            generalize marks (own u c.trace) = ms at hmem hstep
            cases hstep with
            | «open» => simp at hmem
            | _ => rfl
      · exact (heff.opens hmk).2.2
    · intro t hmem hsince
      obtain hmem | ⟨rfl, hmk⟩ := mem_marks_after hmem
      · rw [Config.trace_after, since_cons_of_ne] at hsince
        · have hmaker := ih.run t hmem fun e he => hsince e (List.mem_cons_of_mem _ he)
          exact (heff.keeps_maker (hsince _ (List.mem_cons_self ..))).trans hmaker
        · -- A submission compiles once.
          rintro rfl
          cases hmk : mark ⟨o, r⟩ with
          | none => rfl
          | some mk =>
            have hstep := fileStep hr hp r hmk
            generalize marks (own u c.trace) = ms at hmem hstep
            cases hstep with
            | compile => simp at hmem
            | _ => rfl
      · exact heff.makes hmk

theorem Filed.of_pending {body : Bytes} {ms : List Mark} {w : Nat × Bytes} (h : Filed body ms)
    (hw : pending ms = some w) : .opened w.1 ∈ ms := by
  cases h with
  | fresh | opened => cases hw
  | wrote | queued =>
    cases hw
    simp
  | compiled fd n status c =>
    cases c with
    | zero => cases hw
    | succ c => cases hw
  | removed => cases hw

/-- A mark that leaves bytes pending has written them, or has queued a job. -/
theorem pending_cons {mk : Mark} {ms : List Mark} {w : Nat × Bytes}
    (h : pending (mk :: ms) = some w) : mk = .wrote w.1 w.2 ∨ pending ms = some w := by
  unfold pending at h
  split at h
  · next fd body fd' heq =>
    cases h
    cases heq
    exact .inl rfl
  · next heq =>
    cases heq
    exact .inr h
  · cases h

theorem FileEffect.writes {f : String} {m m' : Memory} {fd : Nat} {body : Bytes}
    {e : Event effects} (h : FileEffect f t m e m') (hmk : mark e = some (.wrote fd body)) :
    e.op = .write fd body ∧ m' = m.write fd body := by
  cases h with
  | write fd' body' =>
    cases hmk
    exact ⟨rfl, rfl⟩
  | quiet _ _ h _ => obtain h | ⟨n, h⟩ := h _ hmk <;> cases h
  | _ => cases hmk

/-- An undisturbed step keeps the pending bytes of every submission. -/
theorem undisturbed_keeps (h : Reach ok (start user_name porblem_title body m) c)
    (hok : undisturbed c u) (hp : c.prog u = .op o k)
    (he : machine.exec u o x c.mem = some (r, m')) (ht : (c.prog t).returned = false)
    {w : Nat × Bytes} (hw : pending (marks (own t c.trace)) = some w)
    (hcontent : c.mem.content (c.mem.fdInode w.1) = w.2) :
    m'.content (m'.fdInode w.1) = w.2 := by
  have heff := FileEffect.of_step h hp he
  have hopened := (filed h t).now.of_pending hw
  obtain ⟨hlt, hi⟩ := (linked h).descriptor t w.1 hopened
  rw [heff.keeps_descriptors.2.2 w.1 hlt]
  by_cases hwrite : ∃ fd b, o = .write fd b
  · obtain ⟨fd, b, rfl⟩ := hwrite
    cases he
    obtain ⟨hlen, hothers⟩ := hok _ (by rw [hp]; rfl)
    by_cases hsame : c.mem.fdInode w.1 = c.mem.fdInode fd
    · obtain ⟨e, hmem, -⟩ := List.mem_filterMap.mp hopened
      have hbody := hothers (t, e) (mem_own.mp hmem) ht w hw hsame
      simp [Memory.write, hsame, hbody, List.drop_eq_nil_of_le hlen]
    · simp [Memory.write, hsame, hcontent]
  · push Not at hwrite
    rw [heff.keeps_content hwrite hi, hcontent]

/-- In a run of undisturbed steps, the source of a submission holds its bytes until it compiles. -/
theorem written (h : Reach undisturbed (start user_name porblem_title body m) c) :
    ∀ t, (c.prog t).returned = false → ∀ w ∈ pending (marks (own t c.trace)),
      c.mem.content (c.mem.fdInode w.1) = w.2 := by
  refine h.induct (I := fun c : Config machine => ∀ t, (c.prog t).returned = false →
    ∀ w ∈ pending (marks (own t c.trace)), c.mem.content (c.mem.fdInode w.1) = w.2) ?_ ?_
  · intro t _ w hw
    cases hw
  · intro c u x o k r m' hr ih hok hp he t ht w hw
    have hold : (c.prog t).returned = false → pending (marks (own t c.trace)) = some w →
        m'.content (m'.fdInode w.1) = w.2 := fun ht hw =>
      undisturbed_keeps hr hok hp he ht hw (ih t ht w hw)
    by_cases hu : u = t
    · subst hu
      have hrunning : (c.prog u).returned = false := by rw [hp, Prog.returned_op]
      rw [marks_after_same] at hw
      cases hmk : mark ⟨o, r⟩ with
      | none =>
        rw [hmk] at hw
        exact hold hrunning hw
      | some mk =>
        rw [hmk] at hw
        obtain rfl | hw := pending_cons hw
        · obtain ⟨rfl, rfl⟩ := (FileEffect.of_step hr hp he).writes hmk
          obtain ⟨hlen, -⟩ := hok _ (by rw [hp]; rfl)
          simp [Memory.write, List.drop_eq_nil_of_le hlen]
        · exact hold hrunning hw
    · rw [marks_after_ne hu] at hw
      rw [Config.prog_after_ne (Ne.symm hu)] at ht
      exact hold ht hw

/-- In a run of undisturbed steps, a job compiles the bytes of its own submission and runs the
executable of its own compile command. -/
theorem judges_own_program (h : Reach undisturbed (start user_name porblem_title body m) c)
    (hok : undisturbed c t) : OwnFiles body c t := by
  intro o ho
  obtain ⟨k, hp⟩ := Prog.next?_eq_some.mp ho
  have hfile := fileOp h hp
  have hnext := hok o ho
  cases o with
  | spawn cmd =>
    cases cmd with
    | gpp source out =>
      obtain ⟨rfl, rfl⟩ := hfile
      have hstep := fileStep h hp (0 : Int32) rfl
      generalize hms : marks (own t c.trace) = ms at hstep
      cases hstep with
      | compile fd n =>
        have hinode := (linked h).source t fd (by simp [hms]) hnext
        have hbytes := written h t (by rw [hp, Prog.returned_op]) (fd, body t) (by rw [hms]; rfl)
        show (c.mem.inode _).map c.mem.content = some (body t)
        rw [hinode, Option.map_some, hbytes]
    | cp source target =>
      rintro rfl
      obtain rfl := hfile.2 rfl
      have hstep := fileStep h hp (0 : Int32) (by rw [mark_cp, if_pos rfl])
      generalize hms : marks (own t c.trace) = ms at hstep
      cases hstep with
      | copy fd n copies =>
        refine (linked h).run t ?_ (hnext rfl)
        simp [hms, compiledMarks]
    | _ => trivial
  | _ => trivial

end Run

/-- The second submission of the pair begins when the first one has returned, and compiles its own
bytes. -/
theorem judges_own_program_in_turn :
    ∃ c, Reach undisturbed (start "u" "p" (fun t => if t = 0 then [65, 66] else [67]) .empty) c ∧
      (c.prog 1).next? = some (.spawn (.gpp (cppPath OJ_Judge.waiting_judge "u__p")
        (runPath OJ_Judge "u__p"))) ∧
      OwnFiles (fun t => if t = 0 then [65, 66] else [67]) c 1 := by
  obtain ⟨c, hc, hv⟩ := Config.exists_reach undisturbed
    (start "u" "p" (fun t => if t = 0 then [65, 66] else [67]) .empty)
    (List.replicate 27 (0, answers) ++ List.replicate 12 (1, answers))
    (fun c => ((c.prog 1).next?, decide (undisturbed c 1)))
    (some (.spawn (.gpp (cppPath OJ_Judge.waiting_judge "u__p") (runPath OJ_Judge "u__p"))), true)
    (by decide +kernel)
  obtain ⟨hnext, hok⟩ := Prod.mk.injEq .. ▸ hv
  exact ⟨c, hc, hnext, judges_own_program hc (of_decide_eq_true hok)⟩

/-- The second submission of the pair writes the source before the first one compiles it. -/
theorem judges_other_program :
    ∃ c, Reach anyOrder (start "u" "p" (fun t => if t = 0 then [65] else [66]) .empty) c ∧
      ¬OwnFiles (fun t => if t = 0 then [65] else [66]) c 0 := by
  obtain ⟨c, hc, hv⟩ := Config.exists_reach anyOrder
    (start "u" "p" (fun t => if t = 0 then [65] else [66]) .empty)
    (List.replicate 12 (0, answers) ++ List.replicate 3 (1, answers))
    (fun c => decide (OwnFiles (fun t => if t = 0 then [65] else [66]) c 0)) false
    (by decide +kernel)
  exact ⟨c, hc, of_decide_eq_false hv⟩

end OJJudge.Source
