import Mathlib.Tactic

/-!
# The C runtime a modelled function runs in

A modelled C function returns `Except Fault`. A fault ends the execution: a failed `assert`
enters `_assert_handler`, which never returns; an access through a `NULL` pointer or outside of an
object and a signed overflow are undefined behaviour; and `outOfFuel` marks a loop that is still
running when its fuel is spent, so that a function terminates exactly when some fuel avoids it.

Signed 32-bit arithmetic (`millitime_t` is `int32_t`) is carried out in `Int` and checked.
-/

namespace TheFirmware

/-- The ways a modelled function can fail to return. -/
inductive Fault : Type
  | assertion (msg : String)
  | nullDeref
  | outOfBounds
  | overflow
  | outOfFuel
  deriving DecidableEq, Repr

/-- `assert(expr, msg)` of `runtime.h`. -/
def assert (expr : Prop) [Decidable expr] (msg : String) : Except Fault Unit :=
  if expr then .ok () else .error (.assertion msg)

@[simp] theorem assert_pos {expr : Prop} [Decidable expr] {msg : String} (holds : expr) :
    assert expr msg = .ok () := if_pos holds

@[simp] theorem assert_eq_ok {expr : Prop} [Decidable expr] {msg : String} {u : Unit} :
    assert expr msg = .ok u ↔ expr := by
  unfold assert
  split <;> simp_all

/-- A dereference: the `NULL` pointer is `none`. -/
def deref {α : Type} : Option α → Except Fault α
  | some a => .ok a
  | none => .error .nullDeref

@[simp] theorem deref_some {α : Type} (a : α) : deref (some a) = .ok a := rfl

@[simp] theorem deref_eq_ok {α : Type} {p : Option α} {a : α} :
    deref p = .ok a ↔ p = some a := by
  cases p <;> simp [deref]

/-- A sequence returns exactly when both halves return. -/
theorem Except.bind_eq_ok {ε α β : Type} {x : Except ε α} {f : α → Except ε β} {r : β} :
    (x >>= f) = .ok r ↔ ∃ a, x = .ok a ∧ f a = .ok r := by
  cases x with
  | error e => simp [bind, Except.bind]
  | ok a => simp [bind, Except.bind]

@[simp] theorem Except.ok_bind {ε α β : Type} (a : α) (f : α → Except ε β) :
    ((Except.ok a : Except ε α) >>= f) = f a := rfl

/-- The execution does not end with this fault. -/
def Avoids {α : Type} (fault : Fault) (x : Except Fault α) : Prop := x ≠ .error fault

namespace Avoids

variable {α β : Type} {fault : Fault} {x y : Except Fault α}

theorem of_ok {a : α} (returned : x = .ok a) : Avoids fault x := by
  rw [returned]
  exact fun same => nomatch same

theorem of_error (other : Fault) (failed : x = .error other) (ne : other ≠ fault) :
    Avoids fault x := by
  rw [failed]
  exact fun same => ne (Except.error.inj same)

/-- A sequence avoids a fault when both halves do. -/
theorem bind {f : α → Except Fault β} (first : Avoids fault x)
    (rest : ∀ a, x = .ok a → Avoids fault (f a)) : Avoids fault (x >>= f) := by
  cases x with
  | error other => exact fun same => first (congrArg Except.error (Except.error.inj same))
  | ok a => exact rest a rfl

theorem assert {expr : Prop} [Decidable expr] {msg : String} (ne : .assertion msg ≠ fault) :
    Avoids fault (TheFirmware.assert expr msg) := by
  unfold TheFirmware.assert
  split
  · exact of_ok rfl
  · exact of_error _ rfl ne

theorem deref {p : Option α} (ne : .nullDeref ≠ fault) : Avoids fault (TheFirmware.deref p) := by
  cases p with
  | none => exact of_error _ rfl ne
  | some a => exact of_ok rfl

end Avoids

/-- `y` returns whatever `x` returns. A function given more fuel is above itself in this order. -/
def ReturnsLe {α : Type} (x y : Except Fault α) : Prop := ∀ r, x = .ok r → y = .ok r

namespace ReturnsLe

variable {α β : Type} {x y z w : Except Fault α}

theorem refl (x : Except Fault α) : ReturnsLe x x := fun _ returned => returned

theorem error (fault : Fault) (y : Except Fault α) : ReturnsLe (.error fault) y :=
  fun _ returned => by cases returned

theorem ite {c : Prop} [Decidable c] (yes : ReturnsLe x y) (no : ReturnsLe z w) :
    ReturnsLe (if c then x else z) (if c then y else w) := by
  by_cases holds : c
  · rw [if_pos holds, if_pos holds]
    exact yes
  · rw [if_neg holds, if_neg holds]
    exact no

theorem bind {f g : α → Except Fault β} (first : ReturnsLe x y)
    (rest : ∀ a, ReturnsLe (f a) (g a)) : ReturnsLe (x >>= f) (y >>= g) := by
  intro r returned
  obtain ⟨a, ran, returned⟩ := Except.bind_eq_ok.mp returned
  rw [first a ran, Except.ok_bind]
  exact rest a r returned

end ReturnsLe

/-- The function returns `r` whenever it is given enough fuel. -/
def Returns {α : Type} (f : Nat → Except Fault α) (r : α) : Prop :=
  ∃ bound, ∀ fuel, bound ≤ fuel → f fuel = .ok r

theorem Returns.ok {α : Type} (r : α) : Returns (fun _ => .ok r) r := ⟨0, fun _ _ => rfl⟩

theorem Returns.bind {α β : Type} {f : Nat → Except Fault α} {g : Nat → α → Except Fault β} {a : α}
    {r : β} (first : Returns f a) (rest : Returns (fun fuel => g fuel a) r) :
    Returns (fun fuel => f fuel >>= g fuel) r := by
  obtain ⟨bound, first⟩ := first
  obtain ⟨bound', rest⟩ := rest
  refine ⟨max bound bound', fun fuel enough => ?_⟩
  show f fuel >>= g fuel = .ok r
  rw [first fuel (le_of_max_le_left enough), Except.ok_bind]
  exact rest fuel (le_of_max_le_right enough)

theorem Returns.unique {α : Type} {f : Nat → Except Fault α} {r r' : α} (returns : Returns f r)
    (returns' : Returns f r') : r = r' := by
  obtain ⟨bound, ran⟩ := returns
  obtain ⟨bound', ran'⟩ := returns'
  have same := (ran _ (le_max_left bound bound')).symm.trans (ran' _ (le_max_right bound bound'))
  exact Except.ok.inj same

/-- A loop that returns after the iteration it is in. -/
theorem Returns.succ {α : Type} {f : Nat → Except Fault α} {r : α}
    (rest : Returns (fun fuel => f (fuel + 1)) r) : Returns f r := by
  obtain ⟨bound, rest⟩ := rest
  refine ⟨bound + 1, fun fuel enough => ?_⟩
  obtain ⟨fuel, rfl⟩ := Nat.exists_eq_add_of_le' (Nat.le_of_add_left_le enough)
  exact rest fuel (Nat.le_of_succ_le_succ enough)

/-- The values an `int32_t` can hold. -/
def Int32Range (x : Int) : Prop := -2147483648 ≤ x ∧ x ≤ 2147483647

instance (x : Int) : Decidable (Int32Range x) := inferInstanceAs (Decidable (_ ∧ _))

/-- The result of an `int32_t` operation, which must not overflow. -/
def int32 (x : Int) : Except Fault Int :=
  if Int32Range x then .ok x else .error .overflow

@[simp] theorem int32_eq_ok {x y : Int} : int32 x = .ok y ↔ Int32Range x ∧ x = y := by
  unfold int32
  split <;> simp_all

theorem int32_of_range {x : Int} (range : Int32Range x) : int32 x = .ok x := if_pos range

theorem Avoids.int32 {fault : Fault} {x : Int} (ne : .overflow ≠ fault) :
    Avoids fault (TheFirmware.int32 x) := by
  unfold TheFirmware.int32
  split
  · exact of_ok rfl
  · exact of_error _ rfl ne

/-- `status_t` of `runtime.h`. -/
abbrev Status : Type := UInt32

/-- `STATUS_OK` -/
def statusOk : Status := 0

/-- `STATUS_ERR(x)` -/
def statusErr (x : UInt32) : Status := (x <<< 1) ||| 1

end TheFirmware
