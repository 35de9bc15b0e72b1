import TheFirmware.Console.FormatPointer
import TheFirmware.Console.PrintNumber

/-!
# Formats

A format is text with conversions: a `%`, options, and a character that says what is converted.
`Formats` is this grammar, with the arguments that the conversions take and the text they stand for.
A conversion in it has its character, and a number no more than 25 bytes of padding.

`vfprintf` gets through a format without a fault if and only if the grammar has it
(`Formats.rule`, `vfprintfLoop_formats`): where the NUL cuts a conversion off, it is passed over
like any other character.
-/

namespace TheFirmware.Printf

open CString (ascii)
open Strings

variable {σ : Type}

/-! ## Options -/

/-- The number in front of a conversion. -/
def minLengthOf (width : Str) : UInt32 := .ofNat (digitsValue 10 width)

/-- It has a zero in front of which it is still 0. -/
def zeroPadded (width : Str) : Bool :=
  (List.range width.length).any fun i => minLengthOf (width.take i) = 0 ∧ width[i]? = some 0x30

/-- What may stand between the `%` and the character of a conversion. -/
structure Options : Type where
  width : Str
  precision : Option Str
  long : Bool
  widthDigits : ∀ c ∈ width, isdigit c = true
  precisionDigits : ∀ digits ∈ precision, ∀ c ∈ digits, isdigit c = true

namespace Options

def precisionText (o : Options) : Str :=
  match o.precision with
  | none => []
  | some digits => 0x2E :: digits

def longText (o : Options) : Str := if o.long then [0x6C] else []

def text (o : Options) : Str := o.width ++ (o.precisionText ++ o.longText)

/-- The character of the conversion is not one more option. -/
structure Before (o : Options) (c : UInt8) : Prop where
  digit : o.long = false → isdigit c = false
  dot : o.long = false → o.precision = none → c ≠ 0x2E
  long : o.long = false → c ≠ 0x6C
  percent : o.text = [] → c ≠ 0x25

end Options

/-! ## The scanners -/

theorem isdigit_iff {c : UInt8} : isdigit c = true ↔ 0x30 ≤ c ∧ c ≤ 0x39 := by
  simp [isdigit]

theorem toNat_digit {c : UInt8} (range : 0x30 ≤ c ∧ c ≤ 0x39) :
    UInt32.ofNat (c - 0x30).toNat = c.toUInt32 - 0x30 := by
  have low : (0x30 : UInt8).toNat ≤ c.toNat := UInt8.le_iff_toNat_le.mp range.1
  have wide : (0x30 : UInt32) ≤ c.toUInt32 := by
    rw [UInt32.le_iff_toNat_le, UInt8.toNat_toUInt32]
    exact low
  have small : (c - 0x30).toNat < 2 ^ 32 := (c - 0x30).toNat_lt.trans (by decide)
  apply UInt32.toNat.inj
  rw [UInt32.toNat_ofNat_of_lt' small, UInt32.toNat_sub_of_le _ _ wide,
    UInt8.toNat_sub_of_le _ _ range.1, UInt8.toNat_toUInt32]
  rfl

theorem minLengthOf_append {c : UInt8} (isDigit : isdigit c = true) (width : Str) :
    minLengthOf (width ++ [c]) = minLengthOf width * 10 + (c.toUInt32 - 0x30) := by
  have range := isdigit_iff.mp isDigit
  have value : digit c = some (c - 0x30) := if_pos range
  have last : digitsValue 10 (width ++ [c]) = 10 * digitsValue 10 width + (c - 0x30).toNat := by
    simp [digitsValue, value]
  rw [minLengthOf, last, UInt32.ofNat_add, UInt32.ofNat_mul, toNat_digit range, UInt32.mul_comm]
  rfl

theorem zeroPadded_append (width : Str) (c : UInt8) :
    zeroPadded (width ++ [c]) =
      (zeroPadded width || decide (minLengthOf width = 0 ∧ c = 0x30)) := by
  have before : ∀ i ∈ List.range width.length,
      decide (minLengthOf ((width ++ [c]).take i) = 0 ∧ (width ++ [c])[i]? = some 0x30) =
        decide (minLengthOf (width.take i) = 0 ∧ width[i]? = some 0x30) := by
    intro i mem
    have low : i < width.length := List.mem_range.mp mem
    rw [List.getElem?_append_left low, List.take_append_of_le_length (Nat.le_of_lt low)]
  unfold zeroPadded
  rw [List.length_append, List.length_singleton, List.range_succ, List.any_append]
  congr 1
  · rw [Bool.eq_iff_iff, List.any_eq_true, List.any_eq_true]
    exact exists_congr fun i => and_congr_right fun mem => by rw [before i mem]
  · simp

/-- One digit of the width. -/
def lengthDigit (state : Bool × UInt32) (c : UInt8) : Bool × UInt32 :=
  if state.2 = 0 ∧ c = 0x30 then (false, state.2)
  else (state.1, state.2 * 10 + (c.toUInt32 - 0x30))

theorem foldl_lengthDigit {width : Str} (digits : ∀ c ∈ width, isdigit c = true) :
    width.foldl lengthDigit (true, 0) = (!zeroPadded width, minLengthOf width) := by
  induction width using List.reverseRecOn with
  | nil => rfl
  | append_singleton width c ih =>
    have before : ∀ c ∈ width, isdigit c = true := fun d mem => digits d (by simp [mem])
    have last : isdigit c = true := digits c (by simp)
    rw [List.foldl_append, ih before, List.foldl_cons, List.foldl_nil, lengthDigit,
      zeroPadded_append, minLengthOf_append last]
    by_cases zero : minLengthOf width = 0 ∧ c = 0x30
    · rcases zero with ⟨none, rfl⟩
      simp [none]
    · rw [if_neg zero, decide_eq_false zero, Bool.or_false]

theorem scanLength_append {width rest : Str} (digits : ∀ c ∈ width, isdigit c = true)
    (stop : ∀ c ∈ rest.head?, isdigit c = false) (useWhitespacePadding : Bool)
    (minLength : UInt32) :
    scanLength (width ++ rest) useWhitespacePadding minLength =
      ((width.foldl lengthDigit (useWhitespacePadding, minLength)).1,
        (width.foldl lengthDigit (useWhitespacePadding, minLength)).2, rest) := by
  induction width generalizing useWhitespacePadding minLength with
  | nil =>
    rcases rest with _ | ⟨c, rest⟩
    · rfl
    · have other : isdigit c = false := stop c rfl
      simp [scanLength, other]
  | cons c width ih =>
    have digit : isdigit c = true := digits c (List.mem_cons_self ..)
    have digits' : ∀ d ∈ width, isdigit d = true :=
      fun d mem => digits d (List.mem_cons_of_mem c mem)
    rw [List.cons_append, scanLength, if_pos digit, List.foldl_cons, lengthDigit]
    by_cases zero : minLength = 0 ∧ c = 0x30
    · rw [if_pos zero, if_pos zero]
      exact ih digits' false minLength
    · rw [if_neg zero, if_neg zero]
      exact ih digits' _ _

theorem dropWhile_of_stop {rest : Str} (stop : ∀ c ∈ rest.head?, isdigit c = false) :
    rest.dropWhile isdigit = rest := by
  rcases rest with _ | ⟨c, rest⟩
  · rfl
  · exact List.dropWhile_cons_of_neg (by simp [stop c rfl])

theorem head_dropWhile (rest : Str) :
    ∀ c ∈ (rest.dropWhile isdigit).head?, isdigit c = false := by
  intro c head
  have not := List.head?_dropWhile_not isdigit rest
  rw [Option.mem_def.mp head] at not
  exact not

section Before

variable {o : Options} {c : UInt8}

/-- Behind an `l` any character is one. -/
theorem Options.Before.of_long (long : o.long = true) (c : UInt8) : o.Before c where
  digit other := by cases other.symm.trans long
  dot other := by cases other.symm.trans long
  long other := by cases other.symm.trans long
  percent empty := by simp [Options.text, Options.longText, long] at empty

theorem Options.Before.head_long (before : o.Before c) (rest : Str) :
    ∀ d ∈ (o.longText ++ c :: rest).head?, isdigit d = false := by
  intro d head
  rcases long : o.long with _ | _
  · rw [Options.longText, long] at head
    cases head
    exact before.digit long
  · rw [Options.longText, long] at head
    cases head
    rfl

theorem Options.Before.head_precision (before : o.Before c) (rest : Str) :
    ∀ d ∈ (o.precisionText ++ (o.longText ++ c :: rest)).head?, isdigit d = false := by
  rcases precision : o.precision with _ | digits
  · rw [Options.precisionText, precision]
    exact before.head_long rest
  · rw [Options.precisionText, precision]
    intro d head
    cases head
    rfl

theorem scanLength_options (before : o.Before c) (rest : Str) :
    scanLength (o.text ++ c :: rest) true 0 = (!zeroPadded o.width, minLengthOf o.width,
      o.precisionText ++ (o.longText ++ c :: rest)) := by
  rw [Options.text, List.append_assoc, List.append_assoc,
    scanLength_append o.widthDigits (before.head_precision rest),
    foldl_lengthDigit o.widthDigits]

theorem skipPrecision_options (before : o.Before c) (rest : Str) :
    skipPrecision (o.precisionText ++ (o.longText ++ c :: rest)) = o.longText ++ c :: rest := by
  rcases precision : o.precision with _ | digits
  · rw [Options.precisionText, precision]
    rcases long : o.long with _ | _
    · have other := before.dot long precision
      simp [Options.longText, long, skipPrecision, other]
    · simp [Options.longText, long, skipPrecision]
  · have all := o.precisionDigits digits precision
    rw [Options.precisionText, precision]
    show (digits ++ (o.longText ++ c :: rest)).dropWhile isdigit = _
    rw [List.dropWhile_append_of_pos all]
    exact dropWhile_of_stop (before.head_long rest)

theorem skipLong_options (before : o.Before c) (rest : Str) :
    skipLong (o.longText ++ c :: rest) = c :: rest := by
  rcases long : o.long with _ | _
  · have other := before.long long
    simp [Options.longText, long, skipLong, other]
  · simp [Options.longText, long, skipLong]

/-- The options in front of a conversion are scanned. -/
theorem afterOptions_options (before : o.Before c) (rest : Str) :
    afterOptions (o.text ++ c :: rest) = c :: rest := by
  rw [afterOptions, scanLength_options before, skipPrecision_options before,
    skipLong_options before]

/-- The options are not taken for the other half of `%%`. -/
theorem Options.Before.head_text (before : o.Before c) (rest : Str) :
    (o.text ++ c :: rest).head? ≠ some 0x25 := by
  intro head
  rcases empty : o.text with _ | ⟨d, text⟩
  · rw [empty] at head
    exact before.percent empty (Option.some.inj head)
  · rw [empty] at head
    obtain rfl : d = 0x25 := Option.some.inj head
    rcases width : o.width with _ | ⟨d, width'⟩
    · rcases precision : o.precision with _ | digits
      · rcases long : o.long with _ | _
        · simp [Options.text, Options.precisionText, Options.longText, width, precision, long]
            at empty
        · simp [Options.text, Options.precisionText, Options.longText, width, precision, long]
            at empty
      · simp [Options.text, Options.precisionText, width, precision] at empty
    · have digit := o.widthDigits d (by simp [width])
      rw [Options.text, width] at empty
      rw [(List.cons.inj empty).1] at digit
      cases digit

/-- A round for options and the character of a conversion. -/
theorem vfprintfLoop_conversion (f : File σ) (before : o.Before c) (fuel : Nat) (format : Str)
    (args : List Arg) (len : UInt32) (s : σ) :
    vfprintfLoop f (fuel + 1) (0x25 :: (o.text ++ c :: format)) args len s =
      convert f (0x25 :: o.text) c (minLengthOf o.width) (!zeroPadded o.width) args len s
        (vfprintfLoop f fuel format) := by
  have spec : (0x25 :: (o.text ++ c :: format)).take
      ((o.text ++ c :: format).length + 1 - (c :: format).length) = 0x25 :: o.text := by
    have length : (o.text ++ c :: format).length + 1 - (c :: format).length =
        o.text.length + 1 := by
      rw [List.length_append]
      omega
    rw [length, List.take_succ_cons, List.take_left']
    rfl
  rw [vfprintfLoop_spec (before.head_text format) (afterOptions_options before format),
    scanLength_options before, spec]

end Before

theorem skipPrecision_cases (rest : Str) :
    (∃ digits, (∀ c ∈ digits, isdigit c = true) ∧ rest = 0x2E :: (digits ++ skipPrecision rest) ∧
      ∀ c ∈ (skipPrecision rest).head?, isdigit c = false) ∨
    (skipPrecision rest = rest ∧ rest.head? ≠ some 0x2E) := by
  rcases rest with _ | ⟨c, rest⟩
  · exact .inr ⟨rfl, nofun⟩
  · by_cases dot : c = 0x2E
    · subst dot
      refine .inl ⟨rest.takeWhile isdigit, fun c mem => List.mem_takeWhile_imp mem, ?_, ?_⟩
      · exact congrArg (0x2E :: ·) List.takeWhile_append_dropWhile.symm
      · exact head_dropWhile rest
    · refine .inr ⟨?_, fun head => dot (Option.some.inj head)⟩
      simp [skipPrecision, dot]

theorem skipLong_cases (rest : Str) :
    rest = 0x6C :: skipLong rest ∨ skipLong rest = rest ∧ rest.head? ≠ some 0x6C := by
  rcases rest with _ | ⟨c, rest⟩
  · exact .inr ⟨rfl, nofun⟩
  · by_cases long : c = 0x6C
    · subst long
      exact .inl rfl
    · refine .inr ⟨?_, fun head => long (Option.some.inj head)⟩
      simp [skipLong, long]

/-- What is scanned in front of a character are options. -/
theorem exists_options {rest rest' : Str} {c : UInt8} (other : rest.head? ≠ some 0x25)
    (scanned : afterOptions rest = c :: rest') :
    ∃ o : Options, rest = o.text ++ c :: rest' ∧ o.Before c := by
  have digits : ∀ d ∈ rest.takeWhile isdigit, isdigit d = true :=
    fun d mem => List.mem_takeWhile_imp mem
  have stop := head_dropWhile rest
  have split : rest.takeWhile isdigit ++ rest.dropWhile isdigit = rest :=
    List.takeWhile_append_dropWhile
  have after : afterOptions rest = skipLong (skipPrecision (rest.dropWhile isdigit)) := by
    have length := scanLength_append digits stop true 0
    rw [split] at length
    rw [afterOptions, length]
  rw [after] at scanned
  generalize rest.takeWhile isdigit = width at split digits
  generalize rest.dropWhile isdigit = tail at split stop scanned
  subst split
  have noDigits : ∀ d ∈ (none : Option Str), ∀ c ∈ d, isdigit c = true := by
    intro d mem
    cases mem
  rcases skipPrecision_cases tail with ⟨precision, precisionDigits, eq, stop'⟩ | ⟨same, dot⟩
  · have here : ∀ d ∈ some precision, ∀ c ∈ d, isdigit c = true := by
      intro d mem
      cases mem
      exact precisionDigits
    rcases skipLong_cases (skipPrecision tail) with eq' | ⟨same', long⟩
    · rw [scanned] at eq'
      refine ⟨⟨width, some precision, true, digits, here⟩, ?_, .of_long rfl c⟩
      rw [eq, eq']
      simp [Options.text, Options.precisionText, Options.longText]
    · rw [same'] at scanned
      rw [scanned] at eq long stop'
      refine ⟨⟨width, some precision, false, digits, here⟩, ?_, fun _ => stop' c rfl,
        fun _ none => ?_, fun _ same => long (congrArg some same), fun empty => ?_⟩
      · rw [eq]
        simp [Options.text, Options.precisionText, Options.longText]
      · cases none
      · simp [Options.text, Options.precisionText] at empty
  · rw [same] at scanned
    rcases skipLong_cases tail with eq' | ⟨same', long⟩
    · rw [scanned] at eq'
      refine ⟨⟨width, none, true, digits, noDigits⟩, ?_, .of_long rfl c⟩
      rw [eq']
      simp [Options.text, Options.precisionText, Options.longText]
    · rw [same'] at scanned
      rw [scanned] at dot long stop other
      refine ⟨⟨width, none, false, digits, noDigits⟩, ?_, fun _ => stop c rfl,
        fun _ _ same => dot (congrArg some same), fun _ same => long (congrArg some same),
        fun empty same => ?_⟩
      · rw [scanned]
        simp [Options.text, Options.precisionText, Options.longText]
      · simp [Options.text, Options.precisionText, Options.longText] at empty
        exact other (by simp [empty, same])

/-! ## The grammar -/

/-- The text of a number with a width. -/
def numberText (width : Str) (base : UInt8) (number : UInt32) : Str :=
  padded number base (minLengthOf width) (!zeroPadded width)

/-- A conversion: its character, the arguments before and after it, and the text. `spec` is what
stands in front of the character. -/
inductive Converts (width spec : Str) : UInt8 → List Arg → List Arg → Str → Prop
  | pointer {v : UInt32} {args : List Arg} :
    Converts width spec 0x70 (.word v :: args) args (ascii "*" ++ padded v 16 8 false)
  | hex {v : UInt32} {args : List Arg} (fits : minLengthOf width ≤ 25) :
    Converts width spec 0x58 (.word v :: args) args (numberText width 16 v)
  | prefixedHex {v : UInt32} {args : List Arg} (fits : minLengthOf width ≤ 25) :
    Converts width spec 0x78 (.word v :: args) args (ascii "0x" ++ numberText width 16 v)
  | signed {c : UInt8} {v : UInt32} {args : List Arg} (known : c = 0x64 ∨ c = 0x69)
    (fits : minLengthOf width ≤ 25) :
    Converts width spec c (.word v :: args) args
      (if 0x80000000 ≤ v then ascii "-" ++ numberText width 10 (- v) else numberText width 10 v)
  | unsigned {v : UInt32} {args : List Arg} (fits : minLengthOf width ≤ 25) :
    Converts width spec 0x75 (.word v :: args) args (numberText width 10 v)
  | boolean {v : UInt32} {args : List Arg} :
    Converts width spec 0x42 (.word v :: args) args
      (if v ≠ 0 then ascii "true" else ascii "false")
  | string {str : Option Str} {args : List Arg} :
    Converts width spec 0x73 (.string str :: args) args (str.getD (ascii "(null)"))
  | unknown {c : UInt8} {args : List Arg}
    (other : c ∉ [0x70, 0x58, 0x78, 0x64, 0x69, 0x75, 0x42, 0x73]) :
    Converts width spec c args args spec

/-- A format, its arguments, and the text that is printed. -/
inductive Formats : Str → List Arg → Str → Prop
  | done {args : List Arg} : Formats [] args []
  | char {c : UInt8} {format text : Str} {args : List Arg} (plain : c ≠ 0x25)
    (rest : Formats format args text) : Formats (c :: format) args (c :: text)
  | percent {format text : Str} {args : List Arg} (rest : Formats format args text) :
    Formats (0x25 :: 0x25 :: format) args (0x25 :: text)
  | conversion {o : Options} {c : UInt8} {format text text' : Str} {args args' : List Arg}
    (before : o.Before c) (converts : Converts o.width (0x25 :: o.text) c args args' text')
    (rest : Formats format args' text) :
    Formats (0x25 :: (o.text ++ c :: format)) args (text' ++ text)

/-! ## Numbers -/

/-- A number has few digits, and is printed with its padding if this fits. -/
theorem printNumber_padded (f : File σ) {base : UInt8} (known : base = 10 ∨ base = 16)
    (number minLength : UInt32) (useWhitespacePadding : Bool) (s : σ) :
    printNumber f number base minLength useWhitespacePadding s =
      if minLength ≤ 25 then .ok (f.write (padded number base minLength useWhitespacePadding) s)
      else .error .outOfBounds := by
  have small : 2 ≤ base := by rcases known with rfl | rfl <;> decide
  have large : base ≤ 16 := by rcases known with rfl | rfl <;> decide
  have few : number.toNat < base.toNat ^ 25 := by
    have bound := number.toNat_lt
    rcases known with rfl | rfl
    · exact bound.trans (by decide)
    · exact bound.trans (by decide)
  rw [printNumber_eq small large, printDigits_eq small large few, List.append_nil]
  rfl

/-! ## What is printed -/

theorem convert_unknown {f : File σ} {c : UInt8}
    (other : c ∉ [0x70, 0x58, 0x78, 0x64, 0x69, 0x75, 0x42, 0x73]) {spec : Str}
    {minLength : UInt32} {useWhitespacePadding : Bool} {args : List Arg} {len : UInt32} {s : σ}
    {next : List Arg → UInt32 → σ → Except Fault (UInt32 × σ)} :
    convert f spec c minLength useWhitespacePadding args len s next =
      put f spec len s (next args) := by
  unfold convert
  split
  all_goals first | rfl | exact absurd other (by decide)

section Rule

variable {f : File σ} {R : Str → (UInt32 → σ → Except Fault (UInt32 × σ)) → Prop}

/-- A number, if its padding fits. -/
theorem PrintRule.padded (rule : PrintRule f R) {text : Str}
    {next : UInt32 → σ → Except Fault (UInt32 × σ)} (holds : R text next) {base : UInt8}
    (known : base = 10 ∨ base = 16) (number : UInt32) {minLength : UInt32} (fits : minLength ≤ 25)
    (useWhitespacePadding : Bool) :
    R (Printf.padded number base minLength useWhitespacePadding ++ text) fun len s =>
      Printf.putNumber f number base minLength useWhitespacePadding len s next :=
  rule.putNumber holds fun s =>
    (printNumber_padded f known number minLength useWhitespacePadding s).trans (if_pos fits)

/-- A conversion prints its text. -/
theorem Converts.rule {width spec text text' : Str} {c : UInt8} {args args' : List Arg}
    {next : List Arg → UInt32 → σ → Except Fault (UInt32 × σ)}
    (converts : Converts width spec c args args' text') (rule : PrintRule f R)
    (holds : R text (next args')) :
    R (text' ++ text) fun len s =>
      convert f spec c (minLengthOf width) (!zeroPadded width) args len s next := by
  cases converts with
  | pointer =>
    rw [List.append_assoc]
    exact rule.put (rule.padded holds (.inr rfl) _ (by decide) false) _
  | hex fits => exact rule.padded holds (.inr rfl) _ fits _
  | prefixedHex fits =>
    rw [List.append_assoc]
    exact rule.put (rule.padded holds (.inr rfl) _ fits _) _
  | @signed c v _ known fits =>
    have sign : R ((if 0x80000000 ≤ v then ascii "-" ++ numberText width 10 (- v)
          else numberText width 10 v) ++ text) fun len s =>
        if 0x80000000 ≤ v then
          put f (ascii "-") len s fun len s => putNumber f (- v) 10 (minLengthOf width)
            (!zeroPadded width) len s (next args')
        else putNumber f v 10 (minLengthOf width) (!zeroPadded width) len s (next args') := by
      by_cases negative : 0x80000000 ≤ v
      · simp only [if_pos negative, List.append_assoc]
        exact rule.put (rule.padded holds (.inl rfl) _ fits _) _
      · simp only [if_neg negative]
        exact rule.padded holds (.inl rfl) _ fits _
    rcases known with rfl | rfl
    · exact sign
    · exact sign
  | unsigned fits => exact rule.padded holds (.inl rfl) _ fits _
  | boolean => exact rule.put holds _
  | string => exact rule.put holds _
  | unknown other =>
    simp only [convert_unknown other]
    exact rule.put holds _

/-- What the grammar has is printed. -/
theorem Formats.rule {format text : Str} {args : List Arg} (formats : Formats format args text)
    (rule : PrintRule f R) {fuel : Nat} (enough : format.length < fuel) :
    R text (vfprintfLoop f fuel format args) := by
  induction formats generalizing fuel with
  | done =>
    obtain ⟨fuel, rfl⟩ := Nat.exists_eq_add_of_lt enough
    exact rule.done
  | @char c format text args plain rest ih =>
    obtain ⟨fuel, rfl⟩ := Nat.exists_eq_add_of_lt enough
    rw [funext₂ (vfprintfLoop_char plain _ format args)]
    exact rule.put (ih (by simp; omega)) [c]
  | @percent format text args rest ih =>
    obtain ⟨fuel, rfl⟩ := Nat.exists_eq_add_of_lt enough
    exact rule.put (ih (by simp; omega)) [0x25]
  | @conversion o c format text text' args args' before converts rest ih =>
    obtain ⟨fuel, rfl⟩ := Nat.exists_eq_add_of_lt enough
    rw [funext₂ (vfprintfLoop_conversion f before _ format args)]
    exact converts.rule rule (ih (by simp; omega))

end Rule

/-! ## What is written -/

/-- The writes to a file: each text, and what was reported for it. -/
abbrev Writes : Type := List (Str × Int)

/-- A file that keeps a list of the writes. -/
def File.logged (f : File σ) : File (σ × Writes) where
  write text s :=
    ((f.write text s.1).1, (f.write text s.1).2, s.2 ++ [(text, (f.write text s.1).1)])

/-- The file has reported this for the writes. -/
def Reported (f : File σ) (writes : Writes) : Prop :=
  ∀ write ∈ writes, ∃ s, write.2 = (f.write write.1 s).1

/-- Every write has reported the full number of bytes. -/
def Full (writes : Writes) : Prop := ∀ write ∈ writes, write.2 = write.1.length

/-- All that was to be written. -/
def written (writes : Writes) : Str := (writes.map Prod.fst).flatten

/-- From any length and state on, the rest of a call writes a text and adds its length up, if every
write reports the full number of bytes. -/
def Delivers (f : File σ) (text : Str)
    (next : UInt32 → σ × Writes → Except Fault (UInt32 × (σ × Writes))) : Prop :=
  ∀ len s, ∃ len' s' writes, next len s = .ok (len', s', s.2 ++ writes) ∧ Reported f writes ∧
    (Full writes → len' = len + .ofNat text.length ∧ written writes = text)

theorem ofInt_natCast (n : Nat) : UInt32.ofInt n = .ofNat n := by
  apply UInt32.toNat.inj
  rw [UInt32.ofInt, UInt32.toNat_ofNat', UInt32.toNat_ofNat']
  omega

/-- A write whose result is added up. -/
theorem Delivers.write {f : File σ} {text : Str}
    {next : UInt32 → σ × Writes → Except Fault (UInt32 × (σ × Writes))}
    (delivers : Delivers f text next) (first : Str) (len : UInt32) (s : σ × Writes) :
    ∃ len' s' writes,
      next (len + .ofInt (f.logged.write first s).1) (f.logged.write first s).2 =
        .ok (len', s', s.2 ++ writes) ∧ Reported f writes ∧
      (Full writes →
        len' = len + .ofNat (first ++ text).length ∧ written writes = first ++ text) := by
  rcases delivers (len + .ofInt (f.logged.write first s).1) (f.logged.write first s).2 with
    ⟨len', s', writes, ran, reported, all⟩
  refine ⟨len', s', (first, (f.write first s.1).1) :: writes, ?_, ?_, fun full => ?_⟩
  · rw [ran]
    simp [File.logged]
  · intro write mem
    rcases List.mem_cons.mp mem with rfl | later
    · exact ⟨s.1, rfl⟩
    · exact reported write later
  · rcases all fun write mem => full write (List.mem_cons_of_mem _ mem) with ⟨length, texts⟩
    have reported : (f.write first s.1).1 = first.length := full _ (List.mem_cons_self ..)
    refine ⟨?_, ?_⟩
    · have added : UInt32.ofInt (f.logged.write first s).1 = .ofNat first.length := by
        show UInt32.ofInt (f.write first s.1).1 = _
        rw [reported, ofInt_natCast]
      rw [length, added, List.length_append, UInt32.ofNat_add, UInt32.add_assoc]
    · rw [written, List.map_cons, List.flatten_cons]
      exact congrArg (first ++ ·) texts

/-- A logged file delivers what it is given. -/
theorem deliversRule (f : File σ) : PrintRule f.logged (Delivers f) where
  done len s := by
    refine ⟨len, s.1, [], ?_, nofun, fun _ => ⟨(UInt32.add_zero len).symm, rfl⟩⟩
    rw [List.append_nil]
  put delivers first len s := by
    by_cases failed : (f.write first s.1).1 < 0
    · refine ⟨len, (f.write first s.1).2, [(first, (f.write first s.1).1)], if_pos failed,
        fun write mem => ?_, fun full => ?_⟩
      · rw [List.mem_singleton.mp mem]
        exact ⟨s.1, rfl⟩
      · have reported : (f.write first s.1).1 = first.length :=
          full _ (List.mem_singleton_self _)
        omega
    · rcases delivers.write first len s with ⟨len', s', writes, ran, all⟩
      exact ⟨len', s', writes, (if_neg failed).trans ran, all⟩
  putNumber delivers printed len s := by
    rcases delivers.write _ len s with ⟨len', s', writes, ran, all⟩
    exact ⟨len', s', writes, (putNumber_printed printed len s).trans ran, all⟩

/-! ## What a call must have found -/

section Returned

variable {f : File σ} {len : UInt32} {s : σ} {r : UInt32 × σ}

theorem put_eq_ok {text : Str} {next : UInt32 → σ → Except Fault (UInt32 × σ)}
    (steady : ∀ text s, 0 ≤ (f.write text s).1) (ran : put f text len s next = .ok r) :
    ∃ len' s', next len' s' = .ok r := by
  have taken : ¬ (f.write text s).1 < 0 := Int.not_lt.mpr (steady text s)
  exact ⟨_, _, (if_neg taken).symm.trans ran⟩

theorem putNumber_eq_ok {number : UInt32} {base : UInt8} (known : base = 10 ∨ base = 16)
    {minLength : UInt32} {useWhitespacePadding : Bool}
    {next : UInt32 → σ → Except Fault (UInt32 × σ)}
    (ran : putNumber f number base minLength useWhitespacePadding len s next = .ok r) :
    minLength ≤ 25 ∧ ∃ len' s', next len' s' = .ok r := by
  dsimp only [putNumber] at ran
  rw [printNumber_padded f known] at ran
  by_cases fits : minLength ≤ 25
  · rw [if_pos fits] at ran
    exact ⟨fits, _, _, ran⟩
  · rw [if_neg fits] at ran
    cases ran

theorem vaArgWord_eq_ok {args args' : List Arg} {v : UInt32}
    (taken : vaArgWord args = .ok (v, args')) : args = .word v :: args' := by
  rcases args with _ | ⟨_ | _, args⟩
  · cases taken
  · cases taken
    rfl
  · cases taken

theorem vaArgString_eq_ok {args args' : List Arg} {str : Option Str}
    (taken : vaArgString args = .ok (str, args')) : args = .string str :: args' := by
  rcases args with _ | ⟨_ | _, args⟩
  · cases taken
  · cases taken
  · cases taken
    rfl

/-- A conversion that returns is one of the grammar. -/
theorem convert_eq_ok {width spec : Str} {c : UInt8} {args : List Arg}
    {next : List Arg → UInt32 → σ → Except Fault (UInt32 × σ)}
    (steady : ∀ text s, 0 ≤ (f.write text s).1)
    (ran : convert f spec c (minLengthOf width) (!zeroPadded width) args len s next = .ok r) :
    ∃ args' text len' s', Converts width spec c args args' text ∧ next args' len' s' = .ok r := by
  by_cases other : c ∉ [0x70, 0x58, 0x78, 0x64, 0x69, 0x75, 0x42, 0x73]
  · rw [convert_unknown other] at ran
    rcases put_eq_ok steady ran with ⟨len', s', ran⟩
    exact ⟨args, spec, len', s', .unknown other, ran⟩
  · rw [not_not] at other
    simp only [List.mem_cons, List.not_mem_nil, or_false] at other
    have signed (known : c = 0x64 ∨ c = 0x69) (ran : (vaArgWord args >>= fun taken =>
        if 0x80000000 ≤ taken.1 then
          put f (ascii "-") len s fun len s =>
            putNumber f (- taken.1) 10 (minLengthOf width) (!zeroPadded width) len s (next taken.2)
        else putNumber f taken.1 10 (minLengthOf width) (!zeroPadded width) len s
          (next taken.2)) = .ok r) :
        ∃ args' text len' s', Converts width spec c args args' text ∧
          next args' len' s' = .ok r := by
      rcases Except.bind_eq_ok.mp ran with ⟨⟨v, args'⟩, taken, ran⟩
      rw [vaArgWord_eq_ok taken]
      dsimp only at ran
      split at ran
      · rcases put_eq_ok steady ran with ⟨len₁, s₁, ran⟩
        rcases putNumber_eq_ok (.inl rfl) ran with ⟨fits, len', s', ran⟩
        exact ⟨args', _, len', s', .signed known fits, ran⟩
      · rcases putNumber_eq_ok (.inl rfl) ran with ⟨fits, len', s', ran⟩
        exact ⟨args', _, len', s', .signed known fits, ran⟩
    rcases other with rfl | rfl | rfl | rfl | rfl | rfl | rfl | rfl
    · have star : put f (ascii "*") len s
          (fun len s => convertHex f 0x70 8 false args len s next) = .ok r := ran
      rcases put_eq_ok steady star with ⟨len₁, s₁, ran⟩
      rcases Except.bind_eq_ok.mp ran with ⟨⟨v, args'⟩, taken, ran⟩
      rcases putNumber_eq_ok (.inr rfl) ran with ⟨_, len', s', ran⟩
      rw [vaArgWord_eq_ok taken]
      exact ⟨args', _, len', s', .pointer, ran⟩
    · rcases Except.bind_eq_ok.mp ran with ⟨⟨v, args'⟩, taken, ran⟩
      rcases putNumber_eq_ok (.inr rfl) ran with ⟨fits, len', s', ran⟩
      rw [vaArgWord_eq_ok taken]
      exact ⟨args', _, len', s', .hex fits, ran⟩
    · rcases Except.bind_eq_ok.mp ran with ⟨⟨v, args'⟩, taken, ran⟩
      have before : put f (ascii "0x") len s (fun len s =>
          putNumber f v 16 (minLengthOf width) (!zeroPadded width) len s (next args')) =
            .ok r := ran
      rcases put_eq_ok steady before with ⟨len₁, s₁, ran⟩
      rcases putNumber_eq_ok (.inr rfl) ran with ⟨fits, len', s', ran⟩
      rw [vaArgWord_eq_ok taken]
      exact ⟨args', _, len', s', .prefixedHex fits, ran⟩
    · exact signed (.inl rfl) ran
    · exact signed (.inr rfl) ran
    · rcases Except.bind_eq_ok.mp ran with ⟨⟨v, args'⟩, taken, ran⟩
      rcases putNumber_eq_ok (.inl rfl) ran with ⟨fits, len', s', ran⟩
      rw [vaArgWord_eq_ok taken]
      exact ⟨args', _, len', s', .unsigned fits, ran⟩
    · rcases Except.bind_eq_ok.mp ran with ⟨⟨v, args'⟩, taken, ran⟩
      rcases put_eq_ok steady ran with ⟨len', s', ran⟩
      rw [vaArgWord_eq_ok taken]
      exact ⟨args', _, len', s', .boolean, ran⟩
    · rcases Except.bind_eq_ok.mp ran with ⟨⟨str, args'⟩, taken, ran⟩
      rcases put_eq_ok steady ran with ⟨len', s', ran⟩
      rw [vaArgString_eq_ok taken]
      exact ⟨args', _, len', s', .string, ran⟩

/-- A call that returns has found a format of the grammar. -/
theorem vfprintfLoop_formats (steady : ∀ text s, 0 ≤ (f.write text s).1) {fuel : Nat}
    {format : Str} {args : List Arg} (ran : vfprintfLoop f fuel format args len s = .ok r) :
    ∃ text, Formats format args text := by
  induction fuel generalizing format args len s with
  | zero => cases ran
  | succ fuel ih =>
    cases round format with
    | done => exact ⟨[], .done⟩
    | percent rest =>
      rw [vfprintfLoop] at ran
      rcases put_eq_ok steady ran with ⟨len', s', ran⟩
      rcases ih ran with ⟨text, formats⟩
      exact ⟨_, .percent formats⟩
    | cut other cut =>
      rw [vfprintfLoop_cut other cut] at ran
      rcases put_eq_ok steady ran with ⟨_, _, overrun⟩
      cases overrun
    | spec other scanned =>
      rcases exists_options other scanned with ⟨o, rfl, before⟩
      rw [vfprintfLoop_conversion f before] at ran
      rcases convert_eq_ok steady ran with ⟨args', text', len', s', converts, ran⟩
      rcases ih ran with ⟨text, formats⟩
      exact ⟨_, .conversion before converts formats⟩
    | char plain rest =>
      rw [vfprintfLoop_char plain] at ran
      rcases put_eq_ok steady ran with ⟨len', s', ran⟩
      rcases ih ran with ⟨text, formats⟩
      exact ⟨_, .char plain formats⟩

end Returned

/-! ## The scan of a format -/

/-- What a call is for: whatever the file does, it reads nothing behind the NUL, it returns, and if
every write has reported the full number of bytes, the result is how many were written. -/
def Scans (format : Str) (args : List Arg) : Prop :=
  ∀ (σ : Type) (f : File σ) (s : σ), ∃ len s' writes,
    Returns (fun fuel => vfprintfAt f.logged format fuel args (s, [])) (len, s', writes) ∧
      (Full writes → len.toNat = (written writes).length)

theorem Formats.returns {format text : Str} {args : List Arg} (formats : Formats format args text)
    (terminated : 0 ∉ format) (f : File σ) (s : σ) :
    ∃ len s' writes,
      Returns (fun fuel => vfprintfAt f.logged format fuel args (s, [])) (len, s', writes) ∧
        Reported f writes ∧ (Full writes → len = .ofNat text.length ∧ written writes = text) := by
  rcases formats.rule (deliversRule f) (Nat.lt_succ_self _) 0 (s, []) with
    ⟨len, s', writes, ran, reported, all⟩
  refine ⟨len, s', writes, ⟨format.length + 1, fun fuel enough => ?_⟩, reported, fun full => ?_⟩
  · show vfprintfAt f.logged format fuel args (s, []) = _
    rw [vfprintfAt_eq terminated enough]
    exact ran
  · rcases all full with ⟨length, texts⟩
    exact ⟨length.trans (UInt32.zero_add _), texts⟩

/-- The grammar has one text for a format. -/
theorem Formats.unique {format text text' : Str} {args : List Arg}
    (formats : Formats format args text) (formats' : Formats format args text') : text = text' := by
  rcases formats.rule (deliversRule recorder) (Nat.lt_succ_self _) 0 ([], []) with
    ⟨len, s, writes, ran, reported, all⟩
  rcases formats'.rule (deliversRule recorder) (Nat.lt_succ_self _) 0 ([], []) with
    ⟨len', s', writes', ran', _, all'⟩
  have full : Full writes := fun write mem => (reported write mem).elim fun _ eq => eq
  cases ran.symm.trans ran'
  rw [← (all full).2, (all' full).2]

/-- **Formats**: for every format with its NUL at the end only, and for all arguments, a call stays
in the format and counts what it writes, if and only if the grammar has the format with these
arguments and the text has less than `2 ^ 32` bytes. -/
theorem vfprintf_scans_iff {format : Str} (terminated : 0 ∉ format) (args : List Arg) :
    Scans format args ↔ ∃ text, Formats format args text ∧ text.length < 2 ^ 32 := by
  constructor
  · intro scans
    rcases scans Str recorder [] with ⟨len, s', writes, returns, counted⟩
    have formats : ∃ text, Formats format args text := by
      rcases returns with ⟨bound, ran⟩
      obtain ⟨fuel, more, enough⟩ : ∃ fuel, bound ≤ fuel ∧ format.length < fuel :=
        ⟨bound + format.length + 1, by omega, by omega⟩
      have here : vfprintfAt recorder.logged format fuel args ([], []) = _ := ran fuel more
      rw [vfprintfAt_eq terminated enough] at here
      exact vfprintfLoop_formats (fun _ _ => Int.natCast_nonneg _) here
    rcases formats with ⟨text, formats⟩
    rcases formats.returns terminated recorder [] with ⟨len', s'', writes', returns', reported, all⟩
    have full : Full writes' := fun write mem => (reported write mem).elim fun _ eq => eq
    have same := Returns.unique returns returns'
    cases same
    rcases all full with ⟨length, texts⟩
    refine ⟨text, formats, ?_⟩
    have count := counted full
    rw [texts] at count
    rw [← count]
    exact len.toNat_lt
  · rintro ⟨text, formats, short⟩ σ f s
    rcases formats.returns terminated f s with ⟨len, s', writes, returns, _, all⟩
    refine ⟨len, s', writes, returns, fun full => ?_⟩
    rcases all full with ⟨length, texts⟩
    rw [length, texts]
    exact UInt32.toNat_ofNat_of_lt' short

/-- "n=%3u" -/
theorem vfprintf_scans_width : Scans (ascii "n=%3u") [.word 7] := by
  have digits : ∀ c ∈ ([0x33] : Str), isdigit c = true := fun c mem => by
    rw [List.mem_singleton.mp mem]
    rfl
  have fits : minLengthOf [0x33] ≤ 25 := by decide
  have width : Formats (ascii "%3u") [.word 7] (numberText [0x33] 10 7 ++ []) :=
    .conversion (o := ⟨[0x33], none, false, digits, nofun⟩) (c := 0x75)
      ⟨fun _ => rfl, fun _ _ => by decide, fun _ => by decide, nofun⟩ (.unsigned fits) .done
  exact (vfprintf_scans_iff (by decide) _).mpr
    ⟨_, .char (by decide) (.char (by decide) width), by decide⟩

/-- "%": the NUL is taken for a conversion that nobody knows, and the byte behind it is read. -/
theorem not_vfprintf_scans_percent : ¬ Scans (ascii "%") [] := by
  intro scans
  rcases scans Str recorder [] with ⟨len, s', writes, ⟨bound, ran⟩, _⟩
  have overrun : vfprintfAt recorder.logged (ascii "%") (bound + 2) [] ([], []) =
      .error .outOfBounds := rfl
  exact nomatch overrun.symm.trans (ran (bound + 2) (Nat.le_add_right _ _))

end TheFirmware.Printf
