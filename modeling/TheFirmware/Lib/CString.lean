import Mathlib.Data.List.TakeWhile
import TheFirmware.Lib.Cells

/-!
# Strings in C

A string is the bytes in front of the first byte that is zero. `memmove` and `strlen` work on an
array of bytes; `strtol` reads a hexadecimal number from the front of a list of bytes, with what may
stand in front of its digits: white space, a sign and `0x`. A number behind which another byte stands
is read as a whole (`strtol_number`).
-/

namespace TheFirmware.CString

open Cells

/-- The bytes of a text. -/
def ascii (text : String) : List UInt8 := text.toList.map fun c => c.toNat.toUInt8

/-- `memmove(array + dst, array + src, n)` -/
def memmove (array : Nat → UInt8) (dst src n : Nat) : Nat → UInt8 :=
  write array dst (read array src n)

/-- `strlen(array + p)`, where the array has `limit` bytes from `p` on. -/
def strlen (array : Nat → UInt8) (p limit : Nat) : Nat :=
  ((read array p limit).takeWhile (· ≠ 0)).length

/-- `isspace` -/
def isspace (c : UInt8) : Bool := c = 0x20 ∨ (0x09 ≤ c ∧ c ≤ 0x0D)

/-- The value of a hexadecimal digit. -/
def hexDigit (c : UInt8) : Option Nat :=
  if 0x30 ≤ c ∧ c ≤ 0x39 then some (c.toNat - 0x30)
  else if 0x61 ≤ c ∧ c ≤ 0x66 then some (c.toNat - 0x61 + 10)
  else if 0x41 ≤ c ∧ c ≤ 0x46 then some (c.toNat - 0x41 + 10)
  else none

/-- `isxdigit` -/
def isxdigit (c : UInt8) : Bool := (hexDigit c).isSome

/-- The number that hexadecimal digits stand for. -/
def hexValue (digits : List UInt8) : Nat :=
  digits.foldl (fun value c => 16 * value + (hexDigit c).getD 0) 0

/-- The nearest value of type `long`. -/
def toLong (value : Int) : Int := max (- 2 ^ 63) (min value (2 ^ 63 - 1))

/-- `0x` and a digit -/
def startsHex : List UInt8 → Bool
  | zero :: x :: c :: _ => zero = 0x30 ∧ (x = 0x78 ∨ x = 0x58) ∧ isxdigit c
  | _ => false

/-- `strtol(str, &end, 16)`: the number, and how many bytes are in front of `end`. -/
def strtol (str : List UInt8) : Int × Nat :=
  let spaces := (str.takeWhile isspace).length
  let signs := ((str.drop spaces).take 1).filter fun c => c = 0x2B ∨ c = 0x2D
  let start := spaces + signs.length
  let start' := if startsHex (str.drop start) then start + 2 else start
  let digits := (str.drop start').takeWhile isxdigit
  if digits = [] then (0, 0)
  else
    let value : Int := hexValue digits
    (toLong (if signs = [0x2D] then - value else value), start' + digits.length)

/-- The bytes at `p` up to the first NUL are those of the string. -/
structure StringAt (array : Nat → UInt8) (p : Nat) (str : List UInt8) : Prop where
  held : Holds array p (str ++ [0])
  nonzero : 0 ∉ str

/-! ## The length of a string -/

theorem strlen_le {array : Nat → UInt8} {p n : Nat} (zero : array (p + n) = 0) (limit : Nat) :
    strlen array p limit ≤ n := by
  by_contra longer
  have inside : n < ((read array p limit).takeWhile (· ≠ 0)).length := Nat.lt_of_not_le longer
  have nonzero := List.mem_takeWhile_imp (List.getElem_mem inside)
  have within : n < (read array p limit).length :=
    Nat.lt_of_lt_of_le inside (List.takeWhile_prefix _).length_le
  rw [(List.takeWhile_prefix _).getElem inside, (holds_read array p limit).getElem within |>.symm,
    zero] at nonzero
  simp at nonzero

theorem strlen_eq {array : Nat → UInt8} {p limit : Nat} {str : List UInt8}
    (held : Holds array p (str ++ [0])) (nonzero : 0 ∉ str) (short : str.length < limit) :
    strlen array p limit = str.length := by
  obtain ⟨k, rfl⟩ := Nat.exists_eq_add_of_lt short
  have nonzero : ∀ c ∈ str, decide (c ≠ 0) = true := fun c mem => by
    exact decide_eq_true fun zero => nonzero (zero ▸ mem)
  rw [holds_append_iff] at held
  unfold strlen
  have last : read array (p + str.length) 1 = [0] := held.2
  rw [Nat.add_assoc, read_add, held.1, Nat.add_comm k, read_add, last,
    List.takeWhile_append_of_pos nonzero]
  simp

/-- There is one string at a place. -/
theorem StringAt.unique {array : Nat → UInt8} {p : Nat} {s t : List UInt8}
    (there : StringAt array p s) (there' : StringAt array p t) : s = t := by
  have length := strlen_eq there.held there.nonzero
    (Nat.lt_succ_of_le (Nat.le_add_right _ t.length))
  have length' := strlen_eq there'.held there'.nonzero
    (Nat.lt_succ_of_le (Nat.le_add_left _ s.length))
  have same : s.length = t.length := length.symm.trans length'
  have first : read array p s.length = s := (holds_append_iff.mp there.held).1
  have second : read array p t.length = t := (holds_append_iff.mp there'.held).1
  rw [← first, ← second, same]

/-! ## Reading a number -/

/-- The digits stand for a number. -/
structure IsNumber (digits : List UInt8) (value : Nat) : Prop where
  nonempty : digits ≠ []
  digit : ∀ c ∈ digits, isxdigit c = true
  value : hexValue digits = value

section Number

variable {digits rest : List UInt8} {value : Nat} {c : UInt8}

variable {x : UInt8}

theorem ne_of_isxdigit (digit : isxdigit c = true) (other : isxdigit x = false) :
    c ≠ x := by
  intro eq
  rw [eq, other] at digit
  cases digit

theorem not_isspace_of_isxdigit (digit : isxdigit c = true) : isspace c = false := by
  have low : (0x30 : UInt8).toNat ≤ c.toNat := by
    by_contra small
    have first : ¬ (0x30 : UInt8) ≤ c := fun le => small (UInt8.le_iff_toNat_le.mp le)
    have second : ¬ (0x61 : UInt8) ≤ c := fun le => first (UInt8.le_trans (by decide) le)
    have third : ¬ (0x41 : UInt8) ≤ c := fun le => first (UInt8.le_trans (by decide) le)
    simp [isxdigit, hexDigit, first, second, third] at digit
  have space : c ≠ 0x20 := ne_of_isxdigit digit (by decide)
  have control : ¬ c ≤ 0x0D := by
    rw [UInt8.le_iff_toNat_le]
    have high : (0x0D : UInt8).toNat < (0x30 : UInt8).toNat := by decide
    omega
  simp [isspace, space, control]

/-- Digits do not start with `0x`, unless another byte behind them makes it so. -/
theorem not_startsHex (digit : ∀ d ∈ digits, isxdigit d = true) (nonempty : digits ≠ [])
    (other : c ≠ 0x78 ∧ c ≠ 0x58) : startsHex (digits ++ c :: rest) = false := by
  rcases digits with _ | ⟨first, _ | ⟨second, more⟩⟩
  · exact absurd rfl nonempty
  · rcases rest with _ | ⟨next, rest⟩
    · rfl
    · simp [startsHex, other.1, other.2]
  · have digit₂ := digit second (by simp)
    have small : second ≠ 0x78 := ne_of_isxdigit digit₂ (by decide)
    have capital : second ≠ 0x58 := ne_of_isxdigit digit₂ (by decide)
    rcases more with _ | ⟨third, more⟩
    · simp [startsHex, small, capital]
    · simp [startsHex, small, capital]

/-- Digits in front of another byte are read as a whole. -/
theorem strtol_digits (digit : ∀ d ∈ digits, isxdigit d = true) (nonempty : digits ≠ [])
    (last : isxdigit c = false) (other : c ≠ 0x78 ∧ c ≠ 0x58) :
    strtol (digits ++ c :: rest) = (toLong (hexValue digits), digits.length) := by
  obtain ⟨d, more, rfl⟩ := List.exists_cons_of_ne_nil nonempty
  have first := digit d (by simp)
  have plus : d ≠ 0x2B := ne_of_isxdigit first (by decide)
  have minus : d ≠ 0x2D := ne_of_isxdigit first (by decide)
  have hex : startsHex (d :: more ++ c :: rest) = false := not_startsHex digit nonempty other
  have taken : (d :: more ++ c :: rest).takeWhile isxdigit = d :: more := by
    rw [List.takeWhile_append_of_pos digit]
    simp [last]
  unfold strtol
  have spaces : (d :: more ++ c :: rest).takeWhile isspace = [] := by
    simp [not_isspace_of_isxdigit first]
  simp only [spaces, List.length_nil, List.drop_zero]
  have signs : ((d :: more ++ c :: rest).take 1).filter
      (fun c => decide (c = 0x2B ∨ c = 0x2D)) = [] := by
    simp [plus, minus]
  simp only [signs, List.length_nil, Nat.add_zero, List.drop_zero, hex, Bool.false_eq_true,
    if_false, taken]
  simp

/-- They are read as the number that they stand for, if it is a `long`. -/
theorem strtol_number (number : IsNumber digits value) (small : value < 2 ^ 63)
    (last : isxdigit c = false) (other : c ≠ 0x78 ∧ c ≠ 0x58) :
    strtol (digits ++ c :: rest) = ((value : Int), digits.length) := by
  have long : toLong (value : Int) = value := by
    unfold toLong
    omega
  rw [strtol_digits number.digit number.nonempty last other, number.value, long]

end Number

end TheFirmware.CString
