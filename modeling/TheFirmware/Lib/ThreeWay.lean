import Mathlib.Tactic

/-!
# Three-way comparison

The result of a comparison is -1, 0 or 1. For two values of a linear order it is `threeWay`; for the
first `n` members of two sequences it goes by the first ones that differ. Such a result (`Decides`)
is found from the front: unequal first members settle it (`Decides.of_ne`), equal ones leave it to
the others (`Decides.of_eq`).
-/

namespace TheFirmware

variable {α : Type} [LT α] [DecidableLT α]

/-- How two values compare. -/
def threeWay (a b : α) : Int := if a < b then -1 else if b < a then 1 else 0

theorem threeWay_of_lt {a b : α} (lt : a < b) : threeWay a b = -1 := if_pos lt

section Order

variable [LE α] [Std.LawfulOrderLT α] {a b : α}

theorem threeWay_of_gt (gt : b < a) : threeWay a b = 1 := by
  rw [threeWay, if_neg (Std.not_gt_of_lt gt), if_pos gt]

@[simp] theorem threeWay_self (a : α) : threeWay a a = 0 := by
  have irrefl : ¬ a < a := fun lt => Std.not_gt_of_lt lt lt
  rw [threeWay, if_neg irrefl, if_neg irrefl]

variable [Std.IsLinearOrder α]

/-- The three results exclude each other. -/
theorem threeWay_iff (a b : α) : (threeWay a b = -1 ↔ a < b) ∧ (threeWay a b = 0 ↔ a = b) ∧
    (threeWay a b = 1 ↔ b < a) := by
  rcases Std.lt_trichotomy a b with lt | rfl | gt
  · have ne : a ≠ b := Std.ne_of_lt lt
    simp [threeWay_of_lt lt, lt, ne, Std.not_gt_of_lt lt]
  · simp [Std.lt_irrefl]
  · have ne : a ≠ b := (Std.ne_of_lt gt).symm
    simp [threeWay_of_gt gt, gt, ne, Std.not_gt_of_lt gt]

theorem threeWay_swap (a b : α) : threeWay b a = - threeWay a b := by
  rcases Std.lt_trichotomy a b with lt | rfl | gt
  · rw [threeWay_of_lt lt, threeWay_of_gt lt, Int.neg_neg]
  · simp
  · rw [threeWay_of_lt gt, threeWay_of_gt gt]

theorem threeWay_nonpos_iff : threeWay a b ≤ 0 ↔ a ≤ b := by
  rcases Std.lt_trichotomy a b with lt | rfl | gt
  · simp [threeWay_of_lt lt, Std.le_of_lt lt]
  · simp [Std.le_refl]
  · simp [threeWay_of_gt gt, Std.not_le.mpr gt]

end Order

/-! ## Sequences -/

/-- A result says how the first `n` members of two sequences compare. -/
structure Decides (f g : Nat → α) (n : Nat) (result : Option Int) : Prop where
  equal : result = some 0 ↔ ∀ i < n, f i = g i
  differ : ∀ i < n, (∀ j < i, f j = g j) → f i ≠ g i →
    result = some (if f i < g i then -1 else 1)

theorem Decides.zero (f g : Nat → α) : Decides f g 0 (some 0) where
  equal := ⟨fun _ _ low => absurd low (Nat.not_lt_zero _), fun _ => rfl⟩
  differ := fun _ low => absurd low (Nat.not_lt_zero _)

theorem Decides.of_ne {f g : Nat → α} (ne : f 0 ≠ g 0) (n : Nat) :
    Decides f g (n + 1) (some (if f 0 < g 0 then -1 else 1)) where
  equal := by
    constructor
    · intro zero
      split at zero
      · cases zero
      · cases zero
    · intro same
      exact absurd (same 0 (Nat.succ_pos n)) ne
  differ := by
    intro i _ before _
    rcases i with _ | i
    · rfl
    · exact absurd (before 0 (Nat.succ_pos i)) ne

/-- Equal first members leave the decision to the others. -/
theorem Decides.of_eq {f g : Nat → α} {n : Nat} {result : Option Int} (same : f 0 = g 0)
    (rest : Decides (fun i => f (i + 1)) (fun i => g (i + 1)) n result) :
    Decides f g (n + 1) result where
  equal := by
    rw [rest.equal]
    constructor
    · intro all i low
      rcases i with _ | i
      · exact same
      · exact all i (Nat.lt_of_succ_lt_succ low)
    · intro all i low
      exact all (i + 1) (Nat.succ_lt_succ low)
  differ := by
    intro i low before ne
    rcases i with _ | i
    · exact absurd same ne
    · have before' : ∀ j < i, f (j + 1) = g (j + 1) :=
        fun j lt => before (j + 1) (Nat.succ_lt_succ lt)
      exact rest.differ i (Nat.lt_of_succ_lt_succ low) before' ne

/-- If the first members decide or are all there is, the others do not matter. -/
theorem Decides.first {f g f' g' : Nat → α} {n : Nat} {result : Option Int}
    (decides : Decides f g n result) (only : n ≤ 1 ∨ f 0 ≠ g 0) (left : f' 0 = f 0)
    (right : g' 0 = g 0) : Decides f' g' n result := by
  rcases n with _ | n
  · have result_eq : result = some 0 :=
      decides.equal.mpr fun _ low => absurd low (Nat.not_lt_zero _)
    rw [result_eq]
    exact .zero f' g'
  · by_cases same : f 0 = g 0
    · have last : n = 0 := by
        rcases only with short | ne
        · omega
        · exact absurd same ne
      subst last
      have result_eq : result = some 0 := decides.equal.mpr fun i low => by
        rwa [Nat.lt_one_iff.mp low]
      rw [result_eq]
      exact .of_eq (by rw [left, right, same]) (.zero _ _)
    · have result_eq := decides.differ 0 (Nat.succ_pos n)
        (fun _ low => absurd low (Nat.not_lt_zero _)) same
      rw [result_eq, ← left, ← right]
      exact .of_ne (by rwa [left, right]) n

end TheFirmware
