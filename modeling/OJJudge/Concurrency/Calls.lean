import OJJudge.Concurrency.Prog

/-! Programs whose operations are calls of programs in another signature.  A specification of each
call is a step of the caller, so what holds of the caller over such steps holds of the whole. -/

namespace Concurrency.Prog

variable {S S' : Sig} {α β σ : Type}

protected theorem bind_assoc {γ : Type} (f : α → Prog S β) (g : β → Prog S γ) : (p : Prog S α) →
    p >>= f >>= g = p >>= fun a => f a >>= g
  | ret _ => rfl
  | op o k => congrArg (op o) (funext fun r => Prog.bind_assoc f g (k r))

/-- The program with every operation replaced by a program of the other signature. -/
def calls (call : (o : S.Op) → Prog S' (S.Res o)) : Prog S α → Prog S' α
  | ret a => ret a
  | op o k => call o >>= fun r => (k r).calls call

section Calls

variable {call : (o : S.Op) → Prog S' (S.Res o)}

@[simp] theorem calls_ret (a : α) : (ret a : Prog S α).calls call = ret a := rfl

theorem calls_op (o : S.Op) (k : S.Res o → Prog S α) :
    (op o k).calls call = call o >>= fun r => (k r).calls call := rfl

theorem calls_bind (f : α → Prog S β) : (p : Prog S α) →
    (p >>= f).calls call = p.calls call >>= fun a => (f a).calls call
  | ret _ => rfl
  | op o k => by
    rw [op_bind, calls_op, calls_op, Prog.bind_assoc]
    exact congrArg (call o >>= ·) (funext fun r => calls_bind f (k r))

/-- A property of all operations holds of those of a program. -/
theorem Only.of_forall {P : S.Op → Prop} (h : ∀ o, P o) : (p : Prog S α) → p.Only P
  | ret _ => trivial
  | op o k => ⟨h o, fun r => Only.of_forall h (k r)⟩

theorem Only.and {P P' : S.Op → Prop} : {p : Prog S α} → p.Only P → p.Only P' →
    p.Only fun o => P o ∧ P' o
  | ret _, _, _ => trivial
  | op _ _, h, h' => ⟨⟨h.1, h'.1⟩, fun r => (h.2 r).and (h'.2 r)⟩

theorem Only.calls {K : S.Op → Prop} {K' : S'.Op → Prop} (hcall : ∀ o, K o → (call o).Only K') :
    {p : Prog S α} → p.Only K → (p.calls call).Only K'
  | ret _, _ => trivial
  | op o _, h => (hcall o h.1).bind fun r => (h.2 r).calls hcall

/-- The rule for calls: each of them, from a state that its caller lets it start in, makes a step of
the caller. -/
theorem Wp.calls {next : σ → (o : S.Op) → S.Res o → σ → Prop}
    {next' : σ → (o : S'.Op) → S'.Res o → σ → Prop} {P : σ → S.Op → Prop} {P' : σ → S'.Op → Prop}
    {R : α → σ → Prop}
    (hcall : ∀ s o, P s o → (call o).Wp next' P' (fun r s' => next s o r s') s) :
    {p : Prog S α} → {s : σ} → p.Wp next P R s → (p.calls call).Wp next' P' R s
  | ret _, _, h => h
  | op o _, s, h => (hcall s o h.1).bind fun r s' hr => (h.2 r s' hr).calls hcall

end Calls

end Concurrency.Prog
