import Mathlib.Tactic

/-!
# Sums with carry and flags

The sum of two words and a carry, with the flags of the sum: its sign (`n`), whether it is zero
(`z`), its carry (`c`) and whether it overflows (`v`). A difference is such a sum, of a word and the
complement of another one. Its flags decide how the two words compare (`passed_compare`), and its
carry continues the difference of longer words (`sub_append`).
-/

namespace AddWithCarry

/-- The flags of a sum. -/
@[ext] structure Flags : Type where
  n : Bool
  z : Bool
  c : Bool
  v : Bool
  deriving DecidableEq, Repr

variable {w : Nat}

/-- The sum of two words and a carry, and its flags. -/
def addWithCarry (x y : BitVec w) (carry : Bool) : BitVec w × Flags :=
  let unsignedSum : Nat := x.toNat + y.toNat + carry.toNat
  let signedSum : Int := x.toInt + y.toInt + carry.toNat
  let result := BitVec.ofNat w unsignedSum
  (result, {
    n := result.msb
    z := result == 0
    c := result.toNat != unsignedSum
    v := result.toInt != signedSum })

theorem addWithCarry_comm (x y : BitVec w) (carry : Bool) :
    addWithCarry x y carry = addWithCarry y x carry := by
  unfold addWithCarry
  rw [Nat.add_comm x.toNat, Int.add_comm x.toInt]

theorem fst_addWithCarry (x y : BitVec w) (carry : Bool) :
    (addWithCarry x y carry).1 = x + y + BitVec.ofNat w carry.toNat := by
  apply BitVec.eq_of_toNat_eq
  simp only [addWithCarry, BitVec.toNat_ofNat, BitVec.toNat_add, Nat.mod_add_mod, Nat.add_mod_mod]

/-- The carry of a sum. -/
theorem carry_addWithCarry (x y : BitVec w) (carry : Bool) :
    (addWithCarry x y carry).2.c = decide (2 ^ w ≤ x.toNat + y.toNat + carry.toNat) := by
  show ((BitVec.ofNat w (x.toNat + y.toNat + carry.toNat)).toNat !=
    x.toNat + y.toNat + carry.toNat) = _
  rw [BitVec.toNat_ofNat, Bool.eq_iff_iff, bne_iff_ne, decide_eq_true_iff, ne_eq,
    Nat.mod_eq_iff_lt (Nat.two_pow_pos w).ne', Nat.not_lt]

/-! ## Differences -/

section Compare

variable (a b : BitVec w)

theorem toNat_complement : (~~~ b).toNat + b.toNat + 1 = 2 ^ w := by
  have lt := b.isLt
  rw [BitVec.toNat_not]
  omega

/-- The result of a difference. -/
theorem fst_compare : (addWithCarry a (~~~ b) true).1 = a - b := by
  have complement := toNat_complement b
  have lt := b.isLt
  apply BitVec.eq_of_toNat_eq
  show (BitVec.ofNat w (a.toNat + (~~~ b).toNat + 1)).toNat = (a - b).toNat
  rw [BitVec.toNat_ofNat, BitVec.toNat_sub]
  congr 1
  omega

theorem n_compare : (addWithCarry a (~~~ b) true).2.n = (a - b).msb := by
  rw [← fst_compare]
  rfl

theorem z_compare : (addWithCarry a (~~~ b) true).2.z = decide (a = b) := by
  show ((addWithCarry a (~~~ b) true).1 == 0) = _
  rw [fst_compare, Bool.eq_iff_iff, beq_iff_eq, decide_eq_true_iff]
  constructor
  · intro zero
    rw [← BitVec.sub_add_cancel a b, zero]
    exact BitVec.zero_add b
  · rintro rfl
    exact BitVec.sub_self a

/-- There is a carry if nothing is borrowed. -/
theorem c_compare : (addWithCarry a (~~~ b) true).2.c = decide (b ≤ a) := by
  have complement := toNat_complement b
  rw [carry_addWithCarry, decide_eq_decide, BitVec.le_def, Bool.toNat_true]
  omega

theorem toInt_complement (pos : 0 < w) : (~~~ b).toInt = - b.toInt - 1 := by
  have complement := toNat_complement b
  have high : 2 ^ w = 2 * 2 ^ (w - 1) := by
    rw [← Nat.pow_add_one', Nat.sub_add_cancel pos]
  rw [BitVec.toInt_eq_toNat_cond, BitVec.toInt_eq_toNat_cond]
  split
  · split
    · omega
    · omega
  · split
    · omega
    · omega

theorem v_compare (pos : 0 < w) :
    (addWithCarry a (~~~ b) true).2.v = decide ((a - b).toInt ≠ a.toInt - b.toInt) := by
  show ((addWithCarry a (~~~ b) true).1.toInt != a.toInt + (~~~ b).toInt + 1) = _
  have sum : a.toInt + (~~~ b).toInt + 1 = a.toInt - b.toInt := by
    rw [toInt_complement b pos]
    omega
  rw [fst_compare, sum, Bool.eq_iff_iff, bne_iff_ne, decide_eq_true_iff]

/-- A difference wraps around at most once. -/
theorem toInt_sub_cases : (a - b).toInt = a.toInt - b.toInt ∨
    (a - b).toInt = a.toInt - b.toInt + (2 ^ w : Nat) ∨
      (a - b).toInt = a.toInt - b.toInt - (2 ^ w : Nat) := by
  have aLe := a.le_two_mul_toInt
  have aLt := a.two_mul_toInt_lt
  have bLe := b.le_two_mul_toInt
  have bLt := b.two_mul_toInt_lt
  have cast : ((2 ^ w : Nat) : Int) = 2 ^ w := by push_cast; rfl
  rw [← cast] at aLe aLt bLe bLt
  rw [BitVec.toInt_sub, Int.bmod_def]
  rcases Int.lt_or_le (a.toInt - b.toInt) 0 with neg | nonneg
  · have wrapped : (a.toInt - b.toInt) % (2 ^ w : Nat) = a.toInt - b.toInt + (2 ^ w : Nat) := by
      rw [← Int.add_emod_right, Int.emod_eq_of_lt (by omega) (by omega)]
    rw [wrapped]
    split
    · exact .inr (.inl rfl)
    · exact .inl (by omega)
  · rw [Int.emod_eq_of_lt nonneg (by omega)]
    split
    · exact .inl rfl
    · exact .inr (.inr rfl)

/-- The sign of a difference is that of the true difference, unless it overflows. -/
theorem n_eq_v_compare (pos : 0 < w) :
    (addWithCarry a (~~~ b) true).2.n = (addWithCarry a (~~~ b) true).2.v ↔
      b.toInt ≤ a.toInt := by
  have aLe := a.le_two_mul_toInt
  have aLt := a.two_mul_toInt_lt
  have bLe := b.le_two_mul_toInt
  have bLt := b.two_mul_toInt_lt
  have dLe := (a - b).le_two_mul_toInt
  have dLt := (a - b).two_mul_toInt_lt
  have cast : ((2 ^ w : Nat) : Int) = 2 ^ w := by push_cast; rfl
  have size := Nat.two_pow_pos w
  rw [← cast] at aLe aLt bLe bLt dLe dLt
  rw [n_compare, v_compare a b pos, BitVec.msb_eq_toInt, decide_eq_decide]
  rcases toInt_sub_cases a b with exact_ | above | below
  · omega
  · omega
  · omega

end Compare

/-! ## Conditions -/

/-- The conditions on two words. -/
inductive Cond : Type
  | eq | ne | cs | cc | mi | pl | vs | vc | hi | ls | ge | lt | gt | le
  deriving DecidableEq, Repr

/-- What a condition says of two words: `cs`, `cc`, `hi` and `ls` compare them without a sign, `ge`,
`lt`, `gt` and `le` with a sign, and `mi`, `pl`, `vs` and `vc` are about their difference. -/
def Cond.Holds (a b : BitVec w) : Cond → Prop
  | eq => a = b
  | ne => a ≠ b
  | cs => b ≤ a
  | cc => a < b
  | mi => (a - b).msb = true
  | pl => (a - b).msb = false
  | vs => (a - b).toInt ≠ a.toInt - b.toInt
  | vc => (a - b).toInt = a.toInt - b.toInt
  | hi => b < a
  | ls => a ≤ b
  | ge => b.toInt ≤ a.toInt
  | lt => a.toInt < b.toInt
  | gt => b.toInt < a.toInt
  | le => a.toInt ≤ b.toInt

/-- How a condition looks at the flags. -/
def Cond.passed (f : Flags) : Cond → Bool
  | eq => f.z
  | ne => !f.z
  | cs => f.c
  | cc => !f.c
  | mi => f.n
  | pl => !f.n
  | vs => f.v
  | vc => !f.v
  | hi => f.c && !f.z
  | ls => !f.c || f.z
  | ge => f.n == f.v
  | lt => f.n != f.v
  | gt => !f.z && f.n == f.v
  | le => f.z || f.n != f.v

theorem eq_iff_toInt (a b : BitVec w) : a = b ↔ a.toInt = b.toInt := BitVec.toInt_inj.symm

/-- The flags of a difference pass a condition exactly when the two words satisfy it. -/
theorem passed_compare (pos : 0 < w) (a b : BitVec w) (cond : Cond) :
    cond.passed (addWithCarry a (~~~ b) true).2 = true ↔ cond.Holds a b := by
  have z := z_compare a b
  have c := c_compare a b
  have v := v_compare a b pos
  have sign := n_eq_v_compare a b pos
  have same := eq_iff_toInt a b
  have sameNat := BitVec.toNat_inj (x := a) (y := b)
  cases cond with
  | eq =>
    show (addWithCarry a (~~~ b) true).2.z = true ↔ a = b
    rw [z, decide_eq_true_iff]
  | ne =>
    show (!(addWithCarry a (~~~ b) true).2.z) = true ↔ a ≠ b
    rw [z, Bool.not_eq_true', decide_eq_false_iff_not]
  | cs =>
    show (addWithCarry a (~~~ b) true).2.c = true ↔ b ≤ a
    rw [c, decide_eq_true_iff]
  | cc =>
    show (!(addWithCarry a (~~~ b) true).2.c) = true ↔ a < b
    rw [c, Bool.not_eq_true', decide_eq_false_iff_not, BitVec.not_le]
  | mi =>
    show (addWithCarry a (~~~ b) true).2.n = true ↔ (a - b).msb = true
    rw [n_compare]
  | pl =>
    show (!(addWithCarry a (~~~ b) true).2.n) = true ↔ (a - b).msb = false
    rw [n_compare, Bool.not_eq_true']
  | vs =>
    show (addWithCarry a (~~~ b) true).2.v = true ↔ (a - b).toInt ≠ a.toInt - b.toInt
    rw [v, decide_eq_true_iff]
  | vc =>
    show (!(addWithCarry a (~~~ b) true).2.v) = true ↔ (a - b).toInt = a.toInt - b.toInt
    rw [v, Bool.not_eq_true', decide_eq_false_iff_not, not_not]
  | hi =>
    show ((addWithCarry a (~~~ b) true).2.c && !(addWithCarry a (~~~ b) true).2.z) = true ↔ b < a
    rw [c, z, Bool.and_eq_true, Bool.not_eq_true', decide_eq_true_iff, decide_eq_false_iff_not,
      BitVec.le_def, BitVec.lt_def, ← sameNat]
    omega
  | ls =>
    show (!(addWithCarry a (~~~ b) true).2.c || (addWithCarry a (~~~ b) true).2.z) = true ↔ a ≤ b
    rw [c, z, Bool.or_eq_true, Bool.not_eq_true', decide_eq_true_iff, decide_eq_false_iff_not,
      BitVec.le_def, BitVec.le_def, ← sameNat]
    omega
  | ge =>
    show ((addWithCarry a (~~~ b) true).2.n == (addWithCarry a (~~~ b) true).2.v) = true ↔ _
    rw [beq_iff_eq]
    exact sign
  | lt =>
    show ((addWithCarry a (~~~ b) true).2.n != (addWithCarry a (~~~ b) true).2.v) = true ↔ _
    rw [bne_iff_ne, ne_eq, sign]
    exact Int.not_le
  | gt =>
    show (!(addWithCarry a (~~~ b) true).2.z &&
      (addWithCarry a (~~~ b) true).2.n == (addWithCarry a (~~~ b) true).2.v) = true ↔
        b.toInt < a.toInt
    rw [z, Bool.and_eq_true, Bool.not_eq_true', decide_eq_false_iff_not, beq_iff_eq, sign, same]
    omega
  | le =>
    show ((addWithCarry a (~~~ b) true).2.z ||
      (addWithCarry a (~~~ b) true).2.n != (addWithCarry a (~~~ b) true).2.v) = true ↔
        a.toInt ≤ b.toInt
    rw [z, Bool.or_eq_true, decide_eq_true_iff, bne_iff_ne, ne_eq, sign, same]
    omega

/-! ## Longer words -/

theorem toNat_append_eq {u : Nat} (high : BitVec u) (low : BitVec w) :
    (high ++ low).toNat = 2 ^ w * high.toNat + low.toNat := by
  rw [BitVec.toNat_append, ← Nat.shiftLeft_add_eq_or_of_lt low.isLt, Nat.shiftLeft_eq, Nat.mul_comm]

/-- The carry of the low words continues the sum of longer words. -/
theorem addWithCarry_append {u : Nat} (xh yh : BitVec u) (x y : BitVec w) (carry : Bool) :
    (addWithCarry xh yh (addWithCarry x y carry).2.c).1 ++ (addWithCarry x y carry).1 =
        (addWithCarry (xh ++ x) (yh ++ y) carry).1 ∧
      (addWithCarry xh yh (addWithCarry x y carry).2.c).2.c =
        (addWithCarry (xh ++ x) (yh ++ y) carry).2.c := by
  have size := Nat.two_pow_pos w
  have xLt := x.isLt
  have yLt := y.isLt
  have carryLe := carry.toNat_le
  have low : (addWithCarry x y carry).2.c.toNat = (x.toNat + y.toNat + carry.toNat) / 2 ^ w := by
    rw [carry_addWithCarry]
    by_cases overflows : 2 ^ w ≤ x.toNat + y.toNat + carry.toNat
    · rw [decide_eq_true overflows, Nat.div_eq_of_lt_le (Nat.one_mul (2 ^ w) ▸ overflows) (by omega)]
      rfl
    · rw [decide_eq_false overflows, Nat.div_eq_of_lt (by omega)]
      rfl
  have whole : (xh ++ x).toNat + (yh ++ y).toNat + carry.toNat =
      2 ^ w * (xh.toNat + yh.toNat) + (x.toNat + y.toNat + carry.toNat) := by
    rw [toNat_append_eq, toNat_append_eq]
    ring
  have quotient : (2 ^ w * (xh.toNat + yh.toNat) + (x.toNat + y.toNat + carry.toNat)) / 2 ^ w =
      xh.toNat + yh.toNat + (addWithCarry x y carry).2.c.toNat := by
    rw [Nat.mul_add_div size, low]
  have power : 2 ^ (u + w) = 2 ^ w * 2 ^ u := by rw [Nat.pow_add, Nat.mul_comm]
  constructor
  · apply BitVec.eq_of_toNat_eq
    rw [toNat_append_eq]
    show 2 ^ w * (BitVec.ofNat u _).toNat + (BitVec.ofNat w _).toNat = (BitVec.ofNat (u + w) _).toNat
    rw [BitVec.toNat_ofNat, BitVec.toNat_ofNat, BitVec.toNat_ofNat, whole, power, Nat.mod_mul,
      quotient, Nat.mul_add_mod, Nat.add_comm]
  · rw [carry_addWithCarry xh, carry_addWithCarry (xh ++ x), whole, decide_eq_decide, power,
      Nat.mul_comm (2 ^ w) (2 ^ u), ← Nat.le_div_iff_mul_le size, quotient]

/-- The difference of longer words: the carry of the low words says whether the high words have to
lend. -/
theorem sub_append {u : Nat} (ah bh : BitVec u) (a b : BitVec w) :
    (addWithCarry ah (~~~ bh) (addWithCarry a (~~~ b) true).2.c).1 ++
          (addWithCarry a (~~~ b) true).1 = (ah ++ a) - (bh ++ b) ∧
      (addWithCarry ah (~~~ bh) (addWithCarry a (~~~ b) true).2.c).2.c =
        decide (bh ++ b ≤ ah ++ a) := by
  have appended := addWithCarry_append ah (~~~ bh) a (~~~ b) true
  rw [← BitVec.not_append, fst_compare (ah ++ a), c_compare (ah ++ a)] at appended
  exact appended

end AddWithCarry
