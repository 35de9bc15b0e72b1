import Mathlib.Data.List.Basic

/-!
# Receivers

A receiver takes the elements of a stream one by one. At each it may give out an item, or find that
the stream is none that it knows. Items with an encoding that takes the receiver from a state to the
same state again are received as they were sent (`run_flatMap`), and of a stream that is cut off the
first of them (`run_prefix`).
-/

namespace TheFirmware.Receiver

variable {σ α β : Type} {step : σ → α → Option (σ × Option β)} {s s' : σ} {xs ys : List α}
  {bs : List β}

/-- What is received of a stream, and the state behind it. -/
def run (step : σ → α → Option (σ × Option β)) : σ → List α → Option (σ × List β)
  | s, [] => some (s, [])
  | s, x :: xs =>
      match step s x with
      | none => none
      | some (s, b) => (run step s xs).map fun rest => (rest.1, b.toList ++ rest.2)

@[simp] theorem run_nil (s : σ) : run step s [] = some (s, []) := rfl

theorem run_cons {x : α} {b : Option β} (stepped : step s x = some (s', b)) :
    run step s (x :: xs) = (run step s' xs).map fun rest => (rest.1, b.toList ++ rest.2) := by
  rw [run, stepped]

/-- An element at which nothing is given out. -/
theorem run_cons_none {x : α} (stepped : step s x = some (s', none)) :
    run step s (x :: xs) = run step s' xs := by
  rw [run_cons stepped]
  cases run step s' xs <;> rfl

theorem run_append : run step s (xs ++ ys) =
    (run step s xs).bind fun first =>
      (run step first.1 ys).map fun rest => (rest.1, first.2 ++ rest.2) := by
  induction xs generalizing s with
  | nil => cases run step s ys <;> simp
  | cons x xs ih =>
      cases stepped : step s x with
      | none => simp [run, stepped]
      | some out =>
          obtain ⟨s₁, b⟩ := out
          rw [List.cons_append, run_cons stepped, run_cons stepped, ih]
          cases run step s₁ xs with
          | none => rfl
          | some first =>
              cases rest : run step first.1 ys with
              | none => simp [rest]
              | some last => simp [rest, List.append_assoc]

/-- One stream after the other. -/
theorem run_append_of {as : List β} {s₁ : σ} (first : run step s xs = some (s₁, as))
    (rest : run step s₁ ys = some (s', bs)) : run step s (xs ++ ys) = some (s', as ++ bs) := by
  rw [run_append, first]
  show (run step s₁ ys).map _ = _
  rw [rest]
  rfl

/-- Of a stream that is cut off the first items are received. -/
theorem run_prefix (cut : xs <+: ys) (whole : run step s ys = some (s', bs)) :
    ∃ s₁ as, run step s xs = some (s₁, as) ∧ as <+: bs := by
  obtain ⟨rest, rfl⟩ := cut
  rw [run_append] at whole
  cases first : run step s xs with
  | none =>
      rw [first] at whole
      cases whole
  | some received =>
      obtain ⟨s₁, as⟩ := received
      rw [first] at whole
      refine ⟨s₁, as, rfl, ?_⟩
      obtain ⟨last, -, same⟩ := Option.map_eq_some_iff.mp whole
      cases same
      exact List.prefix_append as last.2

/-- Items that leave the receiver where it was are received as they were sent. -/
theorem run_flatMap {encode : β → List α}
    (received : ∀ b ∈ bs, run step s (encode b) = some (s, [b])) :
    run step s (bs.flatMap encode) = some (s, bs) := by
  induction bs with
  | nil => rfl
  | cons b bs ih =>
      rw [List.flatMap_cons]
      exact run_append_of (received b (List.mem_cons_self ..))
        (ih fun b' mem => received b' (List.mem_cons_of_mem b mem))

end TheFirmware.Receiver
