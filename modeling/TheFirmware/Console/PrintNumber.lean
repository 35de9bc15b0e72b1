import Mathlib.Data.Nat.Digits.Lemmas
import TheFirmware.Console.Printf

/-!
# The numbers that `print_number` prints

The text of a number is its numeral, behind padding up to a length (`padded`). `print_number` has a
buffer of 25 bytes for it: the loop for the digits stops when it is full, the loop for the padding
does not. So the text is printed if and only if it fits (`printNumber_prints_iff`), which a number
in base 2 from `2 ^ 25` on does not.
-/

namespace TheFirmware.Printf

open Strings

/-- A digit, as a capital letter from 10 on. -/
def upperDigit (i : Nat) : UInt8 := .ofNat (if i < 10 then 0x30 + i else 0x41 + (i - 10))

/-- The numeral of a number, without leading zeros unless it is 0. -/
def positional (base n : Nat) : Str :=
  if n = 0 then [upperDigit 0] else (Nat.digits base n).reverse.map upperDigit

/-- The numeral behind spaces or zeros. -/
def padded (number : UInt32) (base : UInt8) (minLength : UInt32) (useWhitespacePadding : Bool) :
    Str :=
  (positional base.toNat number.toNat).leftpad minLength.toNat
    (if useWhitespacePadding then 0x20 else 0x30)

/-- `print_number` stays in its buffer and writes the padded numeral, whatever the file is. -/
def Prints (number : UInt32) (base : UInt8) (minLength : UInt32) (useWhitespacePadding : Bool) :
    Prop :=
  ∀ (σ : Type) (f : File σ) (s : σ),
    printNumber f number base minLength useWhitespacePadding s =
      .ok (f.write (padded number base minLength useWhitespacePadding) s)

/-! ## Numerals -/

theorem numberDefinitions_eq : ∀ i < 16, numberDefinitions.getD i 0 = upperDigit i := by
  decide

/-- The last digit comes off the end. -/
theorem positional_eq {base : Nat} (large : 1 < base) (n : Nat) :
    positional base n =
      (if n / base = 0 then [] else positional base (n / base)) ++ [upperDigit (n % base)] := by
  unfold positional
  by_cases zero : n = 0
  · rw [zero, Nat.zero_div, Nat.zero_mod]
    rfl
  · rw [if_neg zero, Nat.digits_def' large (Nat.pos_of_ne_zero zero), List.reverse_cons,
      List.map_append, List.map_singleton]
    congr 1
    split
    · rename_i last
      rw [last, Nat.digits_zero]
      rfl
    · rfl

theorem length_positional_le {base : Nat} (large : 1 < base) {n k : Nat} :
    (positional base n).length ≤ k + 1 ↔ n < base ^ (k + 1) := by
  unfold positional
  by_cases zero : n = 0
  · rw [if_pos zero, zero]
    exact iff_of_true (Nat.le_add_left 1 k) (Nat.pow_pos (Nat.zero_lt_of_lt large))
  · rw [if_neg zero, List.length_map, List.length_reverse]
    exact Nat.digits_length_le_iff large n

/-! ## The loops -/

section Loops

variable {base : UInt8} {room : Nat} {number : UInt32} {buffer : Str}

theorem length_printDigits_le (base : UInt32) (room : Nat) (number : UInt32) (buffer : Str) :
    (printDigits base room number buffer).length ≤ room + buffer.length := by
  induction room generalizing number buffer with
  | zero => exact Nat.le_add_left _ _
  | succ room ih =>
    unfold printDigits
    dsimp only
    split
    · have rest := ih (number / base) (numberDefinitions.getD (number % base).toNat 0 :: buffer)
      rw [List.length_cons] at rest
      omega
    · rw [List.length_cons]
      omega

/-- The last digit of a number goes in front of the buffer. -/
theorem printDigits_succ (small : 2 ≤ base) (large : base ≤ 16) (room : Nat) (number : UInt32)
    (buffer : Str) :
    printDigits base.toUInt32 (room + 1) number buffer =
      if number.toNat / base.toNat = 0 then
        upperDigit (number.toNat % base.toNat) :: buffer
      else
        printDigits base.toUInt32 room (number / base.toUInt32)
          (upperDigit (number.toNat % base.toNat) :: buffer) := by
  have two : 2 ≤ base.toNat := UInt8.le_iff_toNat_le.mp small
  have sixteen : base.toNat ≤ 16 := UInt8.le_iff_toNat_le.mp large
  have below : number.toNat % base.toNat < 16 :=
    (Nat.mod_lt _ (Nat.zero_lt_of_lt two)).trans_le sixteen
  have digit : numberDefinitions.getD (number % base.toUInt32).toNat 0 =
      upperDigit (number.toNat % base.toNat) := by
    rw [UInt32.toNat_mod, UInt8.toNat_toUInt32, numberDefinitions_eq _ below]
  have more : number / base.toUInt32 > 0 ↔ ¬ number.toNat / base.toNat = 0 := by
    rw [gt_iff_lt, UInt32.lt_iff_toNat_lt, UInt32.toNat_div, UInt8.toNat_toUInt32]
    exact Nat.pos_iff_ne_zero
  rw [printDigits, digit]
  by_cases last : number.toNat / base.toNat = 0
  · rw [if_pos last, if_neg (fun positive => more.mp positive last)]
  · rw [if_neg last, if_pos (more.mpr last)]

/-- The digits of a number for which there is room. -/
theorem printDigits_eq (small : 2 ≤ base) (large : base ≤ 16)
    (fits : number.toNat < base.toNat ^ (room + 1)) :
    printDigits base.toUInt32 (room + 1) number buffer =
      positional base.toNat number.toNat ++ buffer := by
  have two : 1 < base.toNat := UInt8.le_iff_toNat_le.mp small
  have quotient : (number / base.toUInt32).toNat = number.toNat / base.toNat := by
    rw [UInt32.toNat_div, UInt8.toNat_toUInt32]
  induction room generalizing number buffer with
  | zero =>
    have last : number.toNat / base.toNat = 0 := by
      rw [Nat.zero_add, Nat.pow_one] at fits
      exact Nat.div_eq_of_lt fits
    rw [printDigits_succ small large, if_pos last, positional_eq two, if_pos last]
    rfl
  | succ room ih =>
    rw [printDigits_succ small large, positional_eq two number.toNat]
    by_cases last : number.toNat / base.toNat = 0
    · rw [if_pos last, if_pos last]
      rfl
    · have rest : (number / base.toUInt32).toNat < base.toNat ^ (room + 1) := by
        rw [quotient]
        exact Nat.div_lt_of_lt_mul (by rwa [← Nat.pow_succ'])
      have again : (number / base.toUInt32 / base.toUInt32).toNat =
          (number / base.toUInt32).toNat / base.toNat := by
        rw [UInt32.toNat_div, UInt8.toNat_toUInt32]
      rw [if_neg last, if_neg last, ih rest again, quotient, List.append_assoc]
      rfl

/-- The padding, if there is room for it. -/
theorem padNumber_eq (padding : UInt8) (missing room : Nat) (buffer : Str) :
    padNumber padding missing room buffer =
      if missing ≤ room then .ok (List.replicate missing padding ++ buffer)
      else .error .outOfBounds := by
  induction missing generalizing room buffer with
  | zero => exact (if_pos (Nat.zero_le room)).symm
  | succ missing ih =>
    cases room with
    | zero => exact (if_neg (Nat.not_succ_le_zero missing)).symm
    | succ room =>
      rw [padNumber, ih, List.replicate_succ', List.append_assoc]
      simp only [Nat.add_le_add_iff_right]
      rfl

end Loops

/-- A text that fits in the buffer. -/
theorem printNumber_eq {σ : Type} {f : File σ} {s : σ} {base : UInt8} (small : 2 ≤ base)
    (large : base ≤ 16) (number minLength : UInt32) (useWhitespacePadding : Bool) :
    printNumber f number base minLength useWhitespacePadding s =
      if minLength ≤ 25 then
        .ok (f.write ((printDigits base.toUInt32 25 number []).leftpad minLength.toNat
          (if useWhitespacePadding then 0x20 else 0x30)) s)
      else .error .outOfBounds := by
  have short := length_printDigits_le base.toUInt32 25 number []
  have supported : ¬ (base < 2 ∨ base > 16) :=
    not_or.mpr ⟨UInt8.not_lt.mpr small, UInt8.not_lt.mpr large⟩
  have bound : (25 : UInt32).toNat = 25 := rfl
  rw [List.length_nil, Nat.add_zero] at short
  rw [printNumber, if_neg supported]
  dsimp only
  rw [padNumber_eq]
  by_cases fits : minLength ≤ 25
  · have le := UInt32.le_iff_toNat_le.mp fits
    rw [if_pos fits, if_pos (by omega)]
    rfl
  · have gt := UInt32.lt_iff_toNat_lt.mp (UInt32.not_le.mp fits)
    rw [if_neg fits, if_neg (by omega)]
    rfl

/-- **Numbers**: for every number, every base from 2 to 16, every length and both paddings,
`print_number` writes only into its buffer and prints the numeral of the number behind the padding,
if and only if the length and the number of digits are at most 25. -/
theorem printNumber_prints_iff {base : UInt8} (small : 2 ≤ base) (large : base ≤ 16)
    (number minLength : UInt32) (useWhitespacePadding : Bool) :
    Prints number base minLength useWhitespacePadding ↔
      minLength ≤ 25 ∧ number.toNat < base.toNat ^ 25 := by
  have two : 1 < base.toNat := UInt8.le_iff_toNat_le.mp small
  constructor
  · intro prints
    have printed := prints Str recorder []
    rw [printNumber_eq small large] at printed
    by_cases fits : minLength ≤ 25
    · refine ⟨fits, (length_positional_le two).mp ?_⟩
      have le := UInt32.le_iff_toNat_le.mp fits
      have bound : (25 : UInt32).toNat = 25 := rfl
      have short := length_printDigits_le base.toUInt32 25 number []
      rw [if_pos fits] at printed
      have same := congrArg (fun result => result.2.length) (Except.ok.inj printed)
      simp only [recorder, padded, List.nil_append, List.length_leftpad] at same
      rw [List.length_nil, Nat.add_zero] at short
      omega
    · rw [if_neg fits] at printed
      cases printed
  · rintro ⟨fits, few⟩ σ f s
    rw [printNumber_eq small large, if_pos fits, printDigits_eq small large few, List.append_nil]
    rfl

/-- `%p` of an address. -/
theorem printNumber_prints_iff_pointer : Prints 0x20000100 16 8 false := by
  have few : (0x20000100 : UInt32).toNat < (16 : UInt8).toNat ^ 25 := by decide
  exact (printNumber_prints_iff (by decide) (by decide) 0x20000100 8 false).mpr
    ⟨by decide, few⟩

/-- A width of 26 pads in front of the buffer. -/
theorem not_printNumber_prints_wide : ¬ Prints 0 10 26 true := by
  intro prints
  have printed := prints Str recorder []
  have fault : printNumber recorder 0 10 26 true [] = .error .outOfBounds := rfl
  rw [fault] at printed
  cases printed

end TheFirmware.Printf
