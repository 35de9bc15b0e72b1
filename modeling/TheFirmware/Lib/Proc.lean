import Mathlib.Tactic

/-!
# Programs over a set of operations

A program (`Proc`) is a tree of calls: what it does next depends on the results of the operations it
has called. `run` carries it out over a state, with a handler that says what each operation does. An
operation may also stop the run, which keeps the state it has reached.

Facts about all programs at once need an argument about the operations only (`run_invariant`); facts
about all results of one program do not need the operations at all (`All`). In between, a program
can be followed with a part of the state that the operations change in a known way (`Ends`).

Operations that change nothing, such as reads, leave no state to follow: the program then has a
`value` and a `trace` of what it has called.
-/

namespace TheFirmware

/-- A program that calls operations and returns a value. -/
inductive Proc (Op : Type) (Res : Op → Type) (α : Type) : Type
  | ret (a : α)
  | call (op : Op) (next : Res op → Proc Op Res α)

namespace Proc

variable {Op : Type} {Res : Op → Type} {α β ε σ : Type}

/-- One program after the other. -/
def bind : Proc Op Res α → (α → Proc Op Res β) → Proc Op Res β
  | ret a, f => f a
  | call op next, f => call op fun r => (next r).bind f

instance : Monad (Proc Op Res) where
  pure := ret
  bind := bind

/-- The program that calls an operation. -/
def op (o : Op) : Proc Op Res (Res o) := call o ret

@[simp] theorem pure_eq (a : α) : (pure a : Proc Op Res α) = ret a := rfl

@[simp] theorem ret_bind (a : α) (f : α → Proc Op Res β) : (ret a >>= f) = f a := rfl

@[simp] theorem call_bind (o : Op) (next : Res o → Proc Op Res α) (f : α → Proc Op Res β) :
    (call o next >>= f) = call o fun r => next r >>= f := rfl

@[simp] theorem op_bind (o : Op) (f : Res o → Proc Op Res β) : (op o >>= f) = call o f := rfl

/-! ## Running a program -/

/-- The run of a program, where `handle` says what the operations do. -/
def run (handle : (o : Op) → EStateM ε σ (Res o)) : Proc Op Res α → EStateM ε σ α
  | ret a, s => .ok a s
  | call o next, s =>
      match handle o s with
      | .ok r s => (next r).run handle s
      | .error e s => .error e s

/-- The state that a run has reached, also when it was stopped. -/
def final : EStateM.Result ε σ α → σ
  | .ok _ s => s
  | .error _ s => s

section Run

variable {handle : (o : Op) → EStateM ε σ (Res o)} {s s' : σ}

@[simp] theorem run_ret (a : α) : (ret a : Proc Op Res α).run handle s = .ok a s := rfl

theorem run_call_ok {o : Op} {r : Res o} (next : Res o → Proc Op Res α)
    (called : handle o s = .ok r s') : (call o next).run handle s = (next r).run handle s' := by
  simp only [run, called]

theorem run_call_error {o : Op} {e : ε} (next : Res o → Proc Op Res α)
    (called : handle o s = .error e s') : (call o next).run handle s = .error e s' := by
  simp only [run, called]

/-- A call returns one of two results, and the run shows that it is not the first. -/
theorem run_call_ite {o : Op} {c : Prop} [Decidable c] {r r' : Res o} {s₁ s₂ : σ} {a : α}
    {next : Res o → Proc Op Res α} (called : handle o s = if c then .ok r s₁ else .ok r' s₂)
    (ran : (call o next).run handle s = .ok a s') (other : (next r).run handle s₁ ≠ .ok a s') :
    (next r').run handle s₂ = .ok a s' := by
  by_cases holds : c
  · rw [if_pos holds] at called
    exact absurd ((run_call_ok next called).symm.trans ran) other
  · rw [if_neg holds] at called
    exact (run_call_ok next called).symm.trans ran

theorem run_bind (p : Proc Op Res α) (f : α → Proc Op Res β) :
    (p >>= f).run handle s =
      match p.run handle s with
      | .ok a s => (f a).run handle s
      | .error e s => .error e s := by
  induction p generalizing s with
  | ret a => rfl
  | call o next ih =>
      rw [call_bind]
      simp only [run]
      cases handle o s with
      | ok r s => exact ih r
      | error e s => rfl

/-- A run is only stopped by an operation. -/
theorem exists_run_eq_ok (never : ∀ o s, ∃ r s', handle o s = .ok r s') (p : Proc Op Res α) (s : σ) :
    ∃ a s', p.run handle s = .ok a s' := by
  induction p generalizing s with
  | ret a => exact ⟨a, s, rfl⟩
  | call o next ih =>
      obtain ⟨r, s₁, called⟩ := never o s
      rw [run_call_ok next called]
      exact ih r s₁

/-- What every operation preserves, every program preserves. -/
theorem run_invariant {I : σ → Prop} (step : ∀ o s, I s → I (final (handle o s)))
    (p : Proc Op Res α) (holds : I s) : I (final (p.run handle s)) := by
  induction p generalizing s with
  | ret a => exact holds
  | call o next ih =>
      have after := step o s holds
      simp only [run]
      cases called : handle o s with
      | ok r s' =>
          rw [called] at after
          exact ih r after
      | error e s' =>
          rw [called] at after
          exact after

end Run

/-! ## The results of a program -/

/-- Every result the program can return satisfies `P`, whatever the operations do. -/
def All (P : α → Prop) : Proc Op Res α → Prop
  | ret a => P a
  | call _ next => ∀ r, (next r).All P

variable {P : α → Prop}

@[simp] theorem all_ret (a : α) : (ret a : Proc Op Res α).All P ↔ P a := Iff.rfl

@[simp] theorem all_call (o : Op) (next : Res o → Proc Op Res α) :
    (call o next).All P ↔ ∀ r, (next r).All P := Iff.rfl

@[simp] theorem all_true (p : Proc Op Res α) : p.All fun _ => True := by
  induction p with
  | ret a => trivial
  | call o next ih => exact ih

@[simp] theorem all_bind {Q : β → Prop} (p : Proc Op Res α) (f : α → Proc Op Res β) :
    (p >>= f).All Q ↔ p.All fun a => (f a).All Q := by
  induction p with
  | ret a => exact Iff.rfl
  | call o next ih => exact forall_congr' fun r => ih r

@[simp] theorem all_ite {c : Prop} [Decidable c] (p q : Proc Op Res α) :
    (if c then p else q).All P ↔ if c then p.All P else q.All P := by
  split
  · exact Iff.rfl
  · exact Iff.rfl

theorem All.run {handle : (o : Op) → EStateM ε σ (Res o)} {p : Proc Op Res α} {s s' : σ} {a : α}
    (all : p.All P) (ran : p.run handle s = .ok a s') : P a := by
  induction p generalizing s with
  | ret b =>
      cases ran
      exact all
  | call o next ih =>
      simp only [Proc.run] at ran
      cases called : handle o s with
      | ok r s₁ =>
          rw [called] at ran
          exact ih r (all r) ran
      | error e s₁ =>
          rw [called] at ran
          cases ran

/-! ## A part of the state -/

section Ends

variable {γ : Type} {next : Op → γ → γ} {Q : γ → Prop}

/-- On every path of the program, a part of the state that the operations change by `next` satisfies
`Q` in the end, whatever the operations return. -/
def Ends (next : Op → γ → γ) (Q : γ → Prop) : γ → Proc Op Res α → Prop
  | g, ret _ => Q g
  | g, call o k => ∀ r, (k r).Ends next Q (next o g)

/-- The part of the state after a run that was not stopped. -/
theorem Ends.run (part : σ → γ) {handle : (o : Op) → EStateM ε σ (Res o)} {p : Proc Op Res α}
    {s s' : σ} {a : α} (ends : p.Ends next Q (part s))
    (follows : ∀ o s r s', handle o s = .ok r s' → part s' = next o (part s))
    (ran : p.run handle s = .ok a s') : Q (part s') := by
  induction p generalizing s with
  | ret b =>
      cases ran
      exact ends
  | call o k ih =>
      simp only [Proc.run] at ran
      cases called : handle o s with
      | ok r s₁ =>
          rw [called] at ran
          have here := ends r
          rw [← follows o s r s₁ called] at here
          exact ih r here ran
      | error e s₁ =>
          rw [called] at ran
          cases ran

end Ends

/-! ## Operations that change nothing -/

section Answer

variable (answer : (o : Op) → Res o)

/-- The result of a program whose operations always return the same. -/
def value : Proc Op Res α → α
  | ret a => a
  | call o next => (next (answer o)).value

/-- The operations that such a program calls, in their order. -/
def trace : Proc Op Res α → List Op
  | ret _ => []
  | call o next => o :: (next (answer o)).trace

@[simp] theorem value_ret (a : α) : (ret a : Proc Op Res α).value answer = a := rfl

@[simp] theorem trace_ret (a : α) : (ret a : Proc Op Res α).trace answer = [] := rfl

@[simp] theorem value_call (o : Op) (next : Res o → Proc Op Res α) :
    (call o next).value answer = (next (answer o)).value answer := rfl

@[simp] theorem trace_call (o : Op) (next : Res o → Proc Op Res α) :
    (call o next).trace answer = o :: (next (answer o)).trace answer := rfl

@[simp] theorem value_bind (p : Proc Op Res α) (f : α → Proc Op Res β) :
    (p >>= f).value answer = (f (p.value answer)).value answer := by
  induction p with
  | ret a => rfl
  | call o next ih => exact ih (answer o)

@[simp] theorem trace_bind (p : Proc Op Res α) (f : α → Proc Op Res β) :
    (p >>= f).trace answer = p.trace answer ++ (f (p.value answer)).trace answer := by
  induction p with
  | ret a => rfl
  | call o next ih => exact congrArg (o :: ·) (ih (answer o))

end Answer

end Proc

end TheFirmware
