import Mathlib.Data.Option.Basic
import Mathlib.Logic.Function.Basic

/-!
# Locks made of a counting semaphore

Threads that take a lock, do something in a section, and give it back. `view t` is what thread `t`
has done in the section, and `none` outside of it; `count` is the semaphore. `Owner` says that the
semaphore is free and nobody is in the section, or that it is taken and exactly one thread is.

The edits of `view` are the steps of a program: a thread that takes the lock (`Owner.acquire`), moves
on in the section (`Owner.advance`), or gives the lock back (`Owner.release`).
-/

namespace TheFirmware

variable {τ V : Type}

/-- The semaphore of the lock, and the thread that holds it with what it has done. -/
inductive Owner (view : τ → Option V) : Nat → Option (τ × V) → Prop
  | free (idle : ∀ t, view t = none) : Owner view 1 none
  | held {t : τ} {v : V} (holds : view t = some v) (alone : ∀ u, u ≠ t → view u = none) :
      Owner view 0 (some (t, v))

namespace Owner

variable {view : τ → Option V} {count : Nat} {owner : Option (τ × V)} {t u : τ} {v w : V}

/-- A thread in the section is the owner. -/
theorem eq_of_holds (lock : Owner view count owner) (holds : view t = some v) :
    count = 0 ∧ owner = some (t, v) := by
  cases lock with
  | free idle =>
      rw [idle t] at holds
      cases holds
  | @held u w is alone =>
      by_cases same : t = u
      · subst same
        rw [is] at holds
        cases holds
        exact ⟨rfl, rfl⟩
      · rw [alone t same] at holds
        cases holds

/-- Mutual exclusion. -/
theorem eq_of_holds_both (lock : Owner view count owner) (first : view t = some v)
    (second : view u = some w) : t = u := by
  have same : some (t, v) = some (u, w) :=
    (lock.eq_of_holds first).2.symm.trans (lock.eq_of_holds second).2
  cases same
  rfl

theorem view_eq_none (lock : Owner view count (some (t, v))) (other : u ≠ t) : view u = none := by
  cases lock with
  | held _ alone => exact alone u other

theorem holds (lock : Owner view count (some (t, v))) : view t = some v := by
  cases lock with
  | held holds => exact holds

theorem idle (lock : Owner view count none) (t : τ) : view t = none := by
  cases lock with
  | free idle => exact idle t

/-- When the semaphore can be taken, nobody is in the section. -/
theorem of_pos (lock : Owner view count owner) (positive : 0 < count) :
    count = 1 ∧ owner = none := by
  cases lock with
  | free => exact ⟨rfl, rfl⟩
  | held => exact absurd positive (Nat.lt_irrefl 0)

variable [DecidableEq τ]

theorem acquire (lock : Owner view count owner) (positive : 0 < count) (t : τ) (v : V) :
    Owner (Function.update view t (some v)) (count - 1) (some (t, v)) := by
  obtain ⟨rfl, rfl⟩ := lock.of_pos positive
  refine .held (Function.update_self ..) fun u other => ?_
  rw [Function.update_of_ne other]
  exact lock.idle u

theorem advance (lock : Owner view count owner) (holds : view t = some v) (w : V) :
    Owner (Function.update view t (some w)) count (some (t, w)) := by
  obtain ⟨rfl, rfl⟩ := lock.eq_of_holds holds
  refine .held (Function.update_self ..) fun u other => ?_
  rw [Function.update_of_ne other]
  exact lock.view_eq_none other

theorem release (lock : Owner view count owner) (holds : view t = some v) :
    Owner (Function.update view t none) (count + 1) none := by
  obtain ⟨rfl, rfl⟩ := lock.eq_of_holds holds
  refine .free fun u => ?_
  by_cases same : u = t
  · rw [same, Function.update_self]
  · rw [Function.update_of_ne same]
    exact lock.view_eq_none same

/-- A step that is none of the section. -/
theorem stay (lock : Owner view count owner) {x : Option V} (same : x = view t) :
    Owner (Function.update view t x) count owner := by
  rwa [same, Function.update_eq_self]

end Owner

end TheFirmware
