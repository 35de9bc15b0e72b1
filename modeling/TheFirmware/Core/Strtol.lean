import TheFirmware.Core.String

/-!
# The numbers that `strtol` reads

A number is a prefix that gives its base, if the base is not given, and as many digits of the base
as there are (`Parses`). `strtol` reads it unless the digits are followed by the digit whose value is
the base, which the loop takes for another one (`strtol_parses_iff`).
-/

namespace TheFirmware.Strings

/-- A digit whose value is smaller than the base. -/
def isDigitOf (base c : UInt8) : Bool :=
  match digit c with
  | some i => i < base
  | none => false

/-- The base of a text and where its digits start, if it is asked for in a base, or in any. -/
inductive Start : UInt8 → Str → UInt8 → Str → Prop
  | given {base : UInt8} {text : Str} : base ≠ 0 → Start base text base text
  | hexadecimal {c : UInt8} {text : Str} : c = 0x78 ∨ c = 0x58 → Start 0 (0x30 :: c :: text) 16 text
  | binary {c : UInt8} {text : Str} : c = 0x62 ∨ c = 0x42 → Start 0 (0x30 :: c :: text) 2 text
  | decimal {text : Str} :
      (∀ c rest, text = 0x30 :: c :: rest → c ≠ 0x78 ∧ c ≠ 0x58 ∧ c ≠ 0x62 ∧ c ≠ 0x42) →
      Start 0 text 10 text

/-- A number and what is left of the text: the digits behind the prefix are the longest run of digits
of the base, and their value is taken modulo `2 ^ 32`. -/
def Parses (base : UInt8) (text : Str) (result : UInt32 × Str) : Prop :=
  ∃ b digits, Start base text b digits ∧
    result.1 = .ofNat (digitsValue b.toNat (digits.takeWhile (isDigitOf b))) ∧
    result.2 = digits.dropWhile (isDigitOf b)

/-- The digits are not followed by one whose value is the base. -/
def EndsBelow (base : UInt8) (text : Str) : Prop :=
  ∀ b digits, Start base text b digits →
    ∀ c ∈ (digits.dropWhile (isDigitOf b)).head?, digit c ≠ some b

/-- `atoi` -/
def atoi (c : Str) : UInt32 := (strtol c 10).1

/-! ## The start of the digits -/

section Start

variable {base b b' : UInt8} {text digits digits' : Str}

/-- The start is where `strtol` starts its loop. -/
theorem Start.strtol (start : Start base text b digits) :
    strtol text base = strtolLoop b digits 0 := by
  unfold Strings.strtol
  cases start with
  | given notZero => rw [if_neg notZero]
  | @hexadecimal c s isHex =>
    have found : autodetect (0x30 :: c :: digits) = (16, digits) := if_pos isHex
    rw [if_pos rfl, found]
  | @binary c s isBinary =>
    have notHex : ¬ (c = 0x78 ∨ c = 0x58) := by
      rcases isBinary with rfl | rfl
      · decide
      · decide
    have found : autodetect (0x30 :: c :: digits) = (2, digits) :=
      (if_neg notHex).trans (if_pos isBinary)
    rw [if_pos rfl, found]
  | decimal plain =>
    have found : autodetect text = (10, text) := by
      unfold autodetect
      split
      · rename_i c rest
        rcases plain c rest rfl with ⟨x, X, b, B⟩
        rw [if_neg (not_or.mpr ⟨x, X⟩), if_neg (not_or.mpr ⟨b, B⟩)]
      · rfl
    rw [if_pos rfl, found]

theorem exists_start (base : UInt8) (text : Str) : ∃ b digits, Start base text b digits := by
  by_cases zero : base = 0
  · subst zero
    by_cases plain : ∀ c rest, text = 0x30 :: c :: rest →
        c ≠ 0x78 ∧ c ≠ 0x58 ∧ c ≠ 0x62 ∧ c ≠ 0x42
    · exact ⟨10, text, .decimal plain⟩
    · push Not at plain
      rcases plain with ⟨c, rest, rfl, prefixed⟩
      by_cases isHex : c = 0x78 ∨ c = 0x58
      · exact ⟨16, rest, .hexadecimal isHex⟩
      · rw [not_or] at isHex
        by_cases small : c = 0x62
        · exact ⟨2, rest, .binary (.inl small)⟩
        · exact ⟨2, rest, .binary (.inr (prefixed isHex.1 isHex.2 small))⟩
  · exact ⟨base, text, .given zero⟩

/-- There is one start. -/
theorem Start.unique (start : Start base text b digits) (start' : Start base text b' digits') :
    b = b' ∧ digits = digits' := by
  cases start with
  | given notZero =>
    cases start' with
    | given _ => exact ⟨rfl, rfl⟩
    | hexadecimal _ => exact absurd rfl notZero
    | binary _ => exact absurd rfl notZero
    | decimal _ => exact absurd rfl notZero
  | hexadecimal isHex =>
    cases start' with
    | given notZero => exact absurd rfl notZero
    | hexadecimal _ => exact ⟨rfl, rfl⟩
    | binary isBinary => rcases isHex with rfl | rfl <;> rcases isBinary with eq | eq <;> cases eq
    | decimal plain =>
      rcases plain _ _ rfl with ⟨x, X, _, _⟩
      exact absurd isHex (not_or.mpr ⟨x, X⟩)
  | binary isBinary =>
    cases start' with
    | given notZero => exact absurd rfl notZero
    | hexadecimal isHex => rcases isHex with rfl | rfl <;> rcases isBinary with eq | eq <;> cases eq
    | binary _ => exact ⟨rfl, rfl⟩
    | decimal plain =>
      rcases plain _ _ rfl with ⟨_, _, b, B⟩
      exact absurd isBinary (not_or.mpr ⟨b, B⟩)
  | decimal plain =>
    cases start' with
    | given notZero => exact absurd rfl notZero
    | hexadecimal isHex =>
      rcases plain _ _ rfl with ⟨x, X, _, _⟩
      exact absurd isHex (not_or.mpr ⟨x, X⟩)
    | binary isBinary =>
      rcases plain _ _ rfl with ⟨_, _, b, B⟩
      exact absurd isBinary (not_or.mpr ⟨b, B⟩)
    | decimal _ => exact ⟨rfl, rfl⟩

end Start

/-! ## The digits -/

section Digits

variable {base c i : UInt8} {s : Str}

theorem length_strtolLoop_le (base : UInt8) (s : Str) (n : UInt32) :
    (strtolLoop base s n).2.length ≤ s.length := by
  induction s generalizing n with
  | nil => exact le_rfl
  | cons c s ih =>
    unfold strtolLoop
    split
    · exact le_rfl
    · split
      · exact le_rfl
      · exact (ih _).trans (Nat.le_succ _)

/-- One digit more. -/
theorem ofNat_digit (base i : UInt8) (m : Nat) :
    UInt32.ofNat m * base.toUInt32 + i.toUInt32 = .ofNat (base.toNat * m + i.toNat) := by
  have widened : ∀ x : UInt8, x.toUInt32 = .ofNat x.toNat := fun x => by
    apply UInt32.toNat_inj.mp
    rw [UInt8.toNat_toUInt32, UInt32.toNat_ofNat_of_lt' (x.toNat_lt.trans (by decide))]
  rw [widened, widened, ← UInt32.ofNat_mul, ← UInt32.ofNat_add, Nat.mul_comm]

/-- The loop reads the digits of the base, unless the base itself is the next one. -/
theorem strtolLoop_iff (base : UInt8) (s : Str) (m : Nat) :
    strtolLoop base s (.ofNat m) =
        (.ofNat ((s.takeWhile (isDigitOf base)).foldl
          (fun n c => base.toNat * n + ((digit c).getD 0).toNat) m),
        s.dropWhile (isDigitOf base)) ↔
      ∀ c ∈ (s.dropWhile (isDigitOf base)).head?, digit c ≠ some base := by
  induction s generalizing m with
  | nil => exact iff_of_true rfl fun c mem => nomatch mem
  | cons c s ih =>
    cases value : digit c with
    | none =>
      have not : isDigitOf base c = false := by
        unfold isDigitOf
        rw [value]
      rw [List.takeWhile_cons_of_neg (Bool.eq_false_iff.mp not),
        List.dropWhile_cons_of_neg (Bool.eq_false_iff.mp not)]
      refine iff_of_true ?_ ?_
      · unfold strtolLoop
        rw [value]
        rfl
      · rintro d ⟨⟩
        rw [value]
        exact nofun
    | some i =>
      have test : isDigitOf base c = decide (i < base) := by
        unfold isDigitOf
        rw [value]
      by_cases below : i < base
      · have isDigit : isDigitOf base c = true := by
          rw [test]
          exact decide_eq_true below
        have inside : ¬ i > base := UInt8.not_lt.mpr (UInt8.le_of_lt below)
        rw [List.takeWhile_cons_of_pos isDigit, List.dropWhile_cons_of_pos isDigit, ← ih,
          List.foldl_cons, value, Option.getD_some, strtolLoop, value]
        dsimp only
        rw [if_neg inside, ofNat_digit]
      · have not : isDigitOf base c = false := by
          rw [test]
          exact decide_eq_false below
        rw [List.takeWhile_cons_of_neg (Bool.eq_false_iff.mp not),
          List.dropWhile_cons_of_neg (Bool.eq_false_iff.mp not), strtolLoop, value]
        dsimp only
        by_cases same : i = base
        · subst same
          refine iff_of_false ?_ fun ends => ends c rfl value
          intro eq
          have length := congrArg (fun result => result.2.length) eq
          have short := length_strtolLoop_le i s (.ofNat m * i.toUInt32 + i.toUInt32)
          dsimp only at length
          rw [if_neg below, List.length_cons] at length
          omega
        · have above : i > base := UInt8.lt_of_le_of_ne (UInt8.not_lt.mp below) (Ne.symm same)
          rw [if_pos above]
          refine iff_of_true rfl ?_
          rintro d ⟨⟩
          rw [value]
          exact fun eq => same (Option.some.inj eq)

end Digits

/-- **Numbers**: for every string and every base, `strtol` reads the prefix of the base if none is
given, the longest run of digits that are smaller than the base, and nothing else, and returns the
value of the run modulo `2 ^ 32`, if and only if the run is not followed by the digit whose value is
the base. -/
theorem strtol_parses_iff (base : UInt8) (text : Str) :
    Parses base text (strtol text base) ↔ EndsBelow base text := by
  obtain ⟨b, digits, start⟩ := exists_start base text
  have loop := strtolLoop_iff b digits 0
  have parses : Parses base text (strtol text base) ↔
      strtolLoop b digits (.ofNat 0) =
        (.ofNat (digitsValue b.toNat (digits.takeWhile (isDigitOf b))),
          digits.dropWhile (isDigitOf b)) := by
    rw [start.strtol]
    constructor
    · rintro ⟨b', digits', start', value, rest⟩
      rcases start.unique start' with ⟨rfl, rfl⟩
      exact Prod.ext value rest
    · intro same
      exact ⟨b, digits, start, congrArg Prod.fst same, congrArg Prod.snd same⟩
  rw [parses]
  refine loop.trans ?_
  constructor
  · intro ends b' digits' start'
    rcases start.unique start' with ⟨rfl, rfl⟩
    exact ends
  · intro ends
    exact ends b digits start

theorem atoi_eq {text : Str} (ends : EndsBelow 10 text) :
    atoi text = .ofNat (digitsValue 10 (text.takeWhile (isDigitOf 10))) := by
  have start : Start 10 text 10 text := .given (by decide)
  have loop := (strtolLoop_iff 10 text 0).mpr (ends 10 text start)
  unfold atoi
  rw [start.strtol]
  exact congrArg Prod.fst loop

/-- `A` is no digit of a decimal number. -/
theorem not_strtol_parses_letter : ¬ Parses 10 [0x31, 0x41] (strtol [0x31, 0x41] 10) := by
  rintro ⟨b, digits, start, _, rest⟩
  cases start with
  | given _ => exact absurd rest (by decide)

end TheFirmware.Strings
