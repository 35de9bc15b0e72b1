import TheFirmware.Runtime
import TheFirmware.Lib.CString

/-!
# Strings and numbers of `core/string.c`

A string is the list of the bytes in front of its NUL, so that a pointer into a string is what is
left of it, and the end of the list is where the NUL is read. `char` is unsigned.

`strtol` takes a digit as long as it is not larger than the base: the base itself is one digit too
many, and a number in base 10 may contain an `A`.
-/

namespace TheFirmware.Strings

open CString (ascii)

/-- A string, without its NUL. -/
abbrev Str : Type := List UInt8

/-- `isdigit` -/
def isdigit (c : UInt8) : Bool := 0x30 ≤ c ∧ c ≤ 0x39

/-- `isalpha` -/
def isalpha (c : UInt8) : Bool := (0x61 ≤ c ∧ c ≤ 0x7A) ∨ (0x41 ≤ c ∧ c ≤ 0x5A)

/-- `strncmp` -/
def strncmp : Str → Str → Nat → Int
  | _, _, 0 => 0
  | [], [], _ + 1 => 0
  | [], _ :: _, _ + 1 => -1
  | _ :: _, [], _ + 1 => 1
  | a :: s₁, b :: s₂, n + 1 => if a = b then strncmp s₁ s₂ n else if a < b then -1 else 1

/-- `SIZE_MAX` -/
def sizeMax : Nat := 2 ^ 32 - 1

/-- `strcmp` -/
def strcmp (s₁ s₂ : Str) : Int := strncmp s₁ s₂ sizeMax

/-- `strchr`: the string from the first `c` on, or `NULL`. -/
def strchr : Str → UInt8 → Option Str
  | [], _ => none
  | b :: s, c => if b = c then some (b :: s) else strchr s c

/-! ## Numbers -/

/-- The digit that a character is for `strtol`, whatever the base. -/
def digit (c : UInt8) : Option UInt8 :=
  if 0x30 ≤ c ∧ c ≤ 0x39 then some (c - 0x30)
  else if 0x41 ≤ c ∧ c ≤ 0x46 then some (c - 0x41 + 10)
  else if 0x61 ≤ c ∧ c ≤ 0x66 then some (c - 0x61 + 10)
  else none

/-- The loop of `strtol`: the number, and what is left of the string. -/
def strtolLoop (base : UInt8) : Str → UInt32 → UInt32 × Str
  | [], n => (n, [])
  | c :: s, n =>
    match digit c with
    | none => (n, c :: s)
    | some i => if i > base then (n, c :: s) else strtolLoop base s (n * base.toUInt32 + i.toUInt32)

/-- The base and the start of the digits, when `strtol` is asked for base 0. -/
def autodetect : Str → UInt8 × Str
  | 0x30 :: c :: s =>
    if c = 0x78 ∨ c = 0x58 then (16, s)
    else if c = 0x62 ∨ c = 0x42 then (2, s)
    else (10, 0x30 :: c :: s)
  | s => (10, s)

/-- `strtol`: the number, and where `endptr` is left. -/
def strtol (c : Str) (base : UInt8) : UInt32 × Str :=
  if base = 0 then strtolLoop (autodetect c).1 (autodetect c).2 0
  else strtolLoop base c 0

/-- The number that digits stand for, without a bound. -/
def digitsValue (base : Nat) (digits : Str) : Nat :=
  digits.foldl (fun n c => base * n + ((digit c).getD 0).toNat) 0

/-- Digits of a base, at least one of them. -/
structure Digits (base : UInt8) (text : Str) : Prop where
  nonempty : text ≠ []
  digit : ∀ c ∈ text, ∃ i, digit c = some i ∧ i < base

/-- The whole text is a number: decimal, or hexadecimal behind `0x`, or binary behind `0b`. -/
inductive IsNumber : Str → Nat → Prop
  | decimal {text : Str} (digits : Digits 10 text) : IsNumber text (digitsValue 10 text)
  | hexadecimal {c : UInt8} {text : Str} (start : c = 0x78 ∨ c = 0x58) (digits : Digits 16 text) :
      IsNumber (0x30 :: c :: text) (digitsValue 16 text)
  | binary {c : UInt8} {text : Str} (start : c = 0x62 ∨ c = 0x42) (digits : Digits 2 text) :
      IsNumber (0x30 :: c :: text) (digitsValue 2 text)

/-! ## Comparing -/

theorem strncmp_eq_zero_iff (s₁ s₂ : Str) (n : Nat) :
    strncmp s₁ s₂ n = 0 ↔ s₁.take n = s₂.take n := by
  induction s₁, s₂, n using strncmp.induct with
  | case1 s₁ s₂ => simp [strncmp]
  | case2 n => simp [strncmp]
  | case3 b s₂ n => simp [strncmp]
  | case4 a s₁ n => simp [strncmp]
  | case5 s₁ b s₂ n ih => simp [strncmp, ih]
  | case6 a s₁ b s₂ n ne less => simp [strncmp, ne, less]
  | case7 a s₁ b s₂ n ne less => simp [strncmp, ne, less]

/-- The strings are equal, if they can be told apart at all. -/
theorem strcmp_eq_zero_iff {s₁ s₂ : Str} (short : s₁.length < sizeMax) :
    strcmp s₁ s₂ = 0 ↔ s₁ = s₂ := by
  rw [strcmp, strncmp_eq_zero_iff, List.take_of_length_le (Nat.le_of_lt short)]
  constructor
  · intro same
    have all : s₂.length ≤ sizeMax := by
      have lengths := congrArg List.length same
      rw [List.length_take] at lengths
      omega
    rw [same, List.take_of_length_le all]
  · intro same
    rw [← same, List.take_of_length_le (Nat.le_of_lt short)]

theorem strchr_of_not_mem {s : Str} {c : UInt8} (absent : c ∉ s) : strchr s c = none := by
  induction s with
  | nil => rfl
  | cons b s ih =>
    rw [List.mem_cons, not_or] at absent
    rw [strchr, if_neg (Ne.symm absent.1), ih absent.2]

theorem strchr_append {s t : Str} {c : UInt8} (absent : c ∉ s) :
    strchr (s ++ c :: t) c = some (c :: t) := by
  induction s with
  | nil => simp [strchr]
  | cons b s ih =>
    rw [List.mem_cons, not_or] at absent
    rw [List.cons_append, strchr, if_neg (Ne.symm absent.1), ih absent.2]

end TheFirmware.Strings
