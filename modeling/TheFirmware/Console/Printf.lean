import TheFirmware.Core.String

/-!
# `lib/printf/printf.c`

`vfprintf` writes to any file, and a write may fail: then it returns at once, except behind a
number, the result of which is only added up. Formats are scanned by `vfprintfLoop`, one conversion
in each round. The digits of a number are put in front of each other in a buffer of 25 bytes, and
padding that does not fit in it is a fault; so is a format that ends within a conversion, since the
NUL is then passed over.
-/

namespace TheFirmware.Printf

open CString (ascii)
open Strings

variable {σ : Type}

/-- A file in state `σ`: what `write` returns. -/
structure File (σ : Type) : Type where
  write : Str → σ → Int × σ

/-- An argument behind the format. -/
inductive Arg : Type
  | word (value : UInt32)
  | string (str : Option Str)
  deriving DecidableEq, Repr

/-- `va_arg(args, uint32_t)` and `va_arg(args, int32_t)` -/
def vaArgWord : List Arg → Except Fault (UInt32 × List Arg)
  | .word value :: args => .ok (value, args)
  | _ => .error .outOfBounds

/-- `va_arg(args, char*)` -/
def vaArgString : List Arg → Except Fault (Option Str × List Arg)
  | .string str :: args => .ok (str, args)
  | _ => .error .outOfBounds

/-! ## Numbers -/

/-- `numberDefinitions` -/
def numberDefinitions : List UInt8 := ascii "0123456789ABCDEF"

/-- The first loop of `print_number`, when there are `room` bytes in front of `buffer`. -/
def printDigits (base : UInt32) : Nat → UInt32 → List UInt8 → List UInt8
  | 0, _, buffer => buffer
  | room + 1, number, buffer =>
    let buffer := numberDefinitions.getD (number % base).toNat 0 :: buffer
    if number / base > 0 then printDigits base room (number / base) buffer else buffer

/-- The second loop of `print_number`, when `missing` bytes of padding are to be written. -/
def padNumber (padding : UInt8) : Nat → Nat → List UInt8 → Except Fault (List UInt8)
  | 0, _, buffer => .ok buffer
  | _ + 1, 0, _ => .error .outOfBounds
  | missing + 1, room + 1, buffer => padNumber padding missing room (padding :: buffer)

/-- `print_number` -/
def printNumber (f : File σ) (number : UInt32) (base : UInt8) (minLength : UInt32)
    (useWhitespacePadding : Bool) (s : σ) : Except Fault (Int × σ) :=
  if base < 2 ∨ base > 16 then .ok (0, s)
  else do
    let buffer := printDigits base.toUInt32 25 number []
    let padding := if useWhitespacePadding then 0x20 else 0x30
    let buffer ← padNumber padding (minLength.toNat - buffer.length) (25 - buffer.length) buffer
    return f.write buffer s

/-! ## Formats -/

/-- A write that must not fail: `len` is returned if it does. -/
def put (f : File σ) (text : Str) (len : UInt32) (s : σ)
    (next : UInt32 → σ → Except Fault (UInt32 × σ)) : Except Fault (UInt32 × σ) :=
  let (res, s) := f.write text s
  if res < 0 then .ok (len, s) else next (len + .ofInt res) s

/-- A number, the write of which may fail. -/
def putNumber (f : File σ) (number : UInt32) (base : UInt8) (minLength : UInt32)
    (useWhitespacePadding : Bool) (len : UInt32) (s : σ)
    (next : UInt32 → σ → Except Fault (UInt32 × σ)) : Except Fault (UInt32 × σ) := do
  let (res, s) ← printNumber f number base minLength useWhitespacePadding s
  next (len + .ofInt res) s

/-- The length in front of a conversion: whether to pad with white space, `minLength`, and what is
left of the format. -/
def scanLength : Str → Bool → UInt32 → Bool × UInt32 × Str
  | [], useWhitespacePadding, minLength => (useWhitespacePadding, minLength, [])
  | c :: format, useWhitespacePadding, minLength =>
    if isdigit c then
      if minLength = 0 ∧ c = 0x30 then scanLength format false minLength
      else scanLength format useWhitespacePadding (minLength * 10 + (c.toUInt32 - 0x30))
    else (useWhitespacePadding, minLength, c :: format)

/-- The precision, which is not used. -/
def skipPrecision : Str → Str
  | 0x2E :: format => format.dropWhile isdigit
  | format => format

/-- The `l` of a conversion -/
def skipLong : Str → Str
  | 0x6C :: format => format
  | format => format

/-- The cases `p`, `X` and `x` of the switch, where `p` falls through to the others. -/
def convertHex (f : File σ) (c : UInt8) (minLength : UInt32) (useWhitespacePadding : Bool)
    (args : List Arg) (len : UInt32) (s : σ)
    (next : List Arg → UInt32 → σ → Except Fault (UInt32 × σ)) : Except Fault (UInt32 × σ) := do
  let (val, args) ← vaArgWord args
  let number := fun len s => putNumber f val 16 minLength useWhitespacePadding len s (next args)
  if c = 0x78 then put f (ascii "0x") len s number else number len s

/-- The switch of `vfprintf`. `spec` is the format from its `%` up to the character `c`. -/
def convert (f : File σ) (spec : Str) (c : UInt8) (minLength : UInt32)
    (useWhitespacePadding : Bool) (args : List Arg) (len : UInt32) (s : σ)
    (next : List Arg → UInt32 → σ → Except Fault (UInt32 × σ)) : Except Fault (UInt32 × σ) :=
  match c with
  | 0x70 => put f (ascii "*") len s fun len s => convertHex f c 8 false args len s next
  | 0x58 | 0x78 => convertHex f c minLength useWhitespacePadding args len s next
  | 0x64 | 0x69 => do
    let (val, args) ← vaArgWord args
    let number := fun (val : UInt32) len s =>
      putNumber f val 10 minLength useWhitespacePadding len s (next args)
    -- `val` is an `int32_t`, and the smallest one is its own negation
    if 0x80000000 ≤ val then put f (ascii "-") len s (number (- val)) else number val len s
  | 0x75 => do
    let (val, args) ← vaArgWord args
    putNumber f val 10 minLength useWhitespacePadding len s (next args)
  | 0x42 => do
    let (val, args) ← vaArgWord args
    put f (if val ≠ 0 then ascii "true" else ascii "false") len s (next args)
  | 0x73 => do
    let (str, args) ← vaArgString args
    put f (str.getD (ascii "(null)")) len s (next args)
  | _ => put f spec len s (next args)

/-- The loop of `vfprintf`. -/
def vfprintfLoop (f : File σ) :
    Nat → Str → List Arg → UInt32 → σ → Except Fault (UInt32 × σ)
  | 0, _, _, _, _ => .error .outOfFuel
  | _ + 1, [], _, len, s => .ok (len, s)
  | fuel + 1, 0x25 :: 0x25 :: format, args, len, s =>
    put f [0x25] len s (vfprintfLoop f fuel format args)
  | fuel + 1, 0x25 :: format, args, len, s =>
    let (useWhitespacePadding, minLength, rest) := scanLength format true 0
    let rest := skipLong (skipPrecision rest)
    let spec := (0x25 :: format).take (format.length + 1 - rest.length)
    match rest with
    -- the NUL is the conversion, and the next character is read behind it
    | [] => put f spec len s fun _ _ => .error .outOfBounds
    | c :: format =>
      convert f spec c minLength useWhitespacePadding args len s (vfprintfLoop f fuel format)
  | fuel + 1, c :: format, args, len, s => put f [c] len s (vfprintfLoop f fuel format args)

/-- `vfprintf` -/
def vfprintf (f : File σ) (format : Str) (args : List Arg) (s : σ) : Except Fault (UInt32 × σ) :=
  vfprintfLoop f (format.length + 1) format args 0 s

/-- `printf`, the result of which nobody looks at. -/
def printf (f : File σ) (format : String) (args : List Arg) (s : σ) : Except Fault σ := do
  let (_, s) ← vfprintf f (ascii format) args s
  return s

/-! ## What is printed -/

/-- The format has only the conversions `%d`, `%i`, `%x` and `%s`, without a length, and the
arguments are those it asks for. -/
def suits : Str → List Arg → Bool
  | [], _ => true
  | 0x25 :: c :: format, .word _ :: args => (c = 0x64 ∨ c = 0x69 ∨ c = 0x78) ∧ suits format args
  | 0x25 :: c :: format, .string _ :: args => c = 0x73 ∧ suits format args
  | c :: format, args => c ≠ 0x25 ∧ suits format args

/-- A file that takes everything, in the order it is written. -/
def recorder : File Str where
  write text out := (text.length, out ++ text)

/-- The digits of a number. -/
def numeral (base : UInt32) (number : UInt32) : Str := printDigits base 25 number []

/-- The text for a word: `%x` is in base 16, `%d` and `%i` are signed. -/
def renderWord (c : UInt8) (value : UInt32) : Str :=
  if c = 0x78 then ascii "0x" ++ numeral 16 value
  else if 0x80000000 ≤ value then ascii "-" ++ numeral 10 (- value)
  else numeral 10 value

/-- The text that a format which suits its arguments stands for. -/
def render : Str → List Arg → Str
  | [], _ => []
  | 0x25 :: c :: format, .word value :: args => renderWord c value ++ render format args
  | 0x25 :: _ :: format, .string str :: args => str.getD (ascii "(null)") ++ render format args
  | c :: format, args => c :: render format args

/-! ## Rules for calls -/

/-- A property of what is left of a call and of the text it prints: it holds at the end of the
format, and in front of a write or a number if it holds behind it. -/
structure PrintRule (f : File σ) (R : Str → (UInt32 → σ → Except Fault (UInt32 × σ)) → Prop) :
    Prop where
  done : R [] fun len s => .ok (len, s)
  put {text : Str} {next : UInt32 → σ → Except Fault (UInt32 × σ)} (holds : R text next)
    (first : Str) : R (first ++ text) fun len s => put f first len s next
  putNumber {text digits : Str} {next : UInt32 → σ → Except Fault (UInt32 × σ)}
    {number minLength : UInt32} {base : UInt8} {useWhitespacePadding : Bool} (holds : R text next)
    (printed : ∀ s, printNumber f number base minLength useWhitespacePadding s =
      .ok (f.write digits s)) :
    R (digits ++ text) fun len s =>
      putNumber f number base minLength useWhitespacePadding len s next

theorem putNumber_printed {f : File σ} {digits : Str} {number minLength : UInt32} {base : UInt8}
    {useWhitespacePadding : Bool} {next : UInt32 → σ → Except Fault (UInt32 × σ)}
    (printed : ∀ s, printNumber f number base minLength useWhitespacePadding s =
      .ok (f.write digits s)) (len : UInt32) (s : σ) :
    putNumber f number base minLength useWhitespacePadding len s next =
      next (len + .ofInt (f.write digits s).1) (f.write digits s).2 := by
  unfold putNumber
  rw [printed, Except.ok_bind]

theorem printNumber_numeral (f : File σ) {base : UInt8} (known : base = 10 ∨ base = 16)
    (number : UInt32) (useWhitespacePadding : Bool) (s : σ) :
    printNumber f number base 0 useWhitespacePadding s =
      .ok (f.write (numeral base.toUInt32 number) s) := by
  have supported : ¬ (base < 2 ∨ base > 16) := by
    rcases known with rfl | rfl
    · decide
    · decide
  have none : (0 : UInt32).toNat - (printDigits base.toUInt32 25 number []).length = 0 := by
    simp
  unfold printNumber
  rw [if_neg supported]
  simp only [none, padNumber, Except.ok_bind]
  rfl

/-- A conversion without a length. -/
theorem vfprintfLoop_convert {f : File σ} {c : UInt8}
    (known : c = 0x64 ∨ c = 0x69 ∨ c = 0x78 ∨ c = 0x73) (fuel : Nat) (format : Str)
    (args : List Arg) (len : UInt32) (s : σ) :
    vfprintfLoop f (fuel + 1) (0x25 :: c :: format) args len s =
      convert f [0x25] c 0 true args len s (vfprintfLoop f fuel format) := by
  have plain : isdigit c = false ∧ c ≠ 0x25 ∧ c ≠ 0x2E ∧ c ≠ 0x6C := by
    rcases known with rfl | rfl | rfl | rfl <;> decide
  obtain ⟨digit, percent, dot, long⟩ := plain
  simp [vfprintfLoop, scanLength, skipPrecision, skipLong, digit, percent, dot, long]

/-- A character that is no conversion. -/
theorem vfprintfLoop_char {f : File σ} {c : UInt8} (other : c ≠ 0x25) (fuel : Nat) (format : Str)
    (args : List Arg) (len : UInt32) (s : σ) :
    vfprintfLoop f (fuel + 1) (c :: format) args len s =
      put f [c] len s (vfprintfLoop f fuel format args) := by
  simp [vfprintfLoop, other]

section Rule

variable {f : File σ} {R : Str → (UInt32 → σ → Except Fault (UInt32 × σ)) → Prop}

/-- A conversion of a number, without a length. -/
theorem PrintRule.convert_word (rule : PrintRule f R) {c : UInt8}
    (known : c = 0x64 ∨ c = 0x69 ∨ c = 0x78) {spec text : Str} {value : UInt32} {args : List Arg}
    {next : List Arg → UInt32 → σ → Except Fault (UInt32 × σ)} (holds : R text (next args)) :
    R (renderWord c value ++ text) fun len s =>
      convert f spec c 0 true (.word value :: args) len s next := by
  have decimal (number : UInt32) := printNumber_numeral f (.inl rfl) number true
  have signed : R ((if 0x80000000 ≤ value then ascii "-" ++ numeral 10 (- value)
        else numeral 10 value) ++ text) fun len s =>
      if 0x80000000 ≤ value then
        Printf.put f (ascii "-") len s
          fun len s => Printf.putNumber f (- value) 10 0 true len s (next args)
      else Printf.putNumber f value 10 0 true len s (next args) := by
    by_cases negative : 0x80000000 ≤ value
    · simp only [if_pos negative, List.append_assoc]
      exact rule.put (rule.putNumber holds (decimal (- value))) (ascii "-")
    · simp only [if_neg negative]
      exact rule.putNumber holds (decimal value)
  rcases known with rfl | rfl | rfl
  · exact signed
  · exact signed
  · have hex := printNumber_numeral f (.inr rfl) value true
    have prefixed := rule.put (rule.putNumber holds hex) (ascii "0x")
    rw [← List.append_assoc] at prefixed
    exact prefixed

/-- What the rule proves of a call whose arguments are those that the format asks for. -/
theorem PrintRule.vfprintfLoop (rule : PrintRule f R) {format : Str} {args : List Arg}
    (suited : suits format args = true) {fuel : Nat} (enough : format.length < fuel) :
    R (render format args) (vfprintfLoop f fuel format args) := by
  induction format, args using suits.induct generalizing fuel with
  | case1 args =>
    obtain ⟨fuel, rfl⟩ := Nat.exists_eq_add_of_lt enough
    exact rule.done
  | case2 c format value args ih =>
    obtain ⟨fuel, rfl⟩ := Nat.exists_eq_add_of_lt enough
    simp only [suits, decide_eq_true_eq] at suited
    rw [funext₂ (vfprintfLoop_convert (by tauto) _ format _), render]
    exact rule.convert_word suited.1 (ih suited.2 (by simp; omega))
  | case3 c format str args ih =>
    obtain ⟨fuel, rfl⟩ := Nat.exists_eq_add_of_lt enough
    simp only [suits, decide_eq_true_eq] at suited
    obtain ⟨rfl, suited⟩ := suited
    rw [funext₂ (vfprintfLoop_convert (by tauto) _ format _), render]
    exact rule.put (ih suited (by simp; omega)) (str.getD (ascii "(null)"))
  | case4 c format args notWord notString ih =>
    obtain ⟨fuel, rfl⟩ := Nat.exists_eq_add_of_lt enough
    rw [suits.eq_4 args c format notWord notString, decide_eq_true_eq] at suited
    rw [funext₂ (vfprintfLoop_char suited.1 _ format args),
      render.eq_4 args c format notWord (by tauto)]
    exact rule.put (ih suited.2 (by simp; omega)) [c]

end Rule

/-! ### Calls that return -/

/-- Whatever the file does, the rest of a call returns. -/
theorem returnsRule (f : File σ) : PrintRule f fun _ next => ∀ len s, ∃ r, next len s = .ok r where
  done _ _ := ⟨_, rfl⟩
  put returns first len s := by
    unfold put
    dsimp only
    split
    · exact ⟨_, rfl⟩
    · exact returns _ _
  putNumber returns printed len s := by
    rcases returns _ _ with ⟨r, ran⟩
    exact ⟨r, (putNumber_printed printed len s).trans ran⟩

theorem printf_returns {f : File σ} {s : σ} {format : String} {args : List Arg}
    (suited : suits (ascii format) args = true) : ∃ s', printf f format args s = .ok s' := by
  have ran : ∃ r, vfprintf f (ascii format) args s = .ok r :=
    (returnsRule f).vfprintfLoop suited (Nat.lt_succ_self _) 0 s
  obtain ⟨⟨len, s'⟩, ran⟩ := ran
  exact ⟨s', by rw [printf, ran]; rfl⟩

/-! ### The text -/

theorem put_recorder {text : Str} {next : UInt32 → Str → Except Fault (UInt32 × Str)}
    (len : UInt32) (out : Str) :
    put recorder text len out next = next (len + .ofInt text.length) (out ++ text) := by
  unfold put recorder
  exact if_neg (by simp)

/-- The recorder keeps the text. -/
theorem recorderRule : PrintRule recorder fun text next =>
    ∀ len out, ∃ len', next len out = .ok (len', out ++ text) where
  done len out := ⟨len, by rw [List.append_nil]⟩
  put holds first len out := by
    rcases holds (len + .ofInt first.length) (out ++ first) with ⟨len', ran⟩
    rw [List.append_assoc] at ran
    exact ⟨len', (put_recorder len out).trans ran⟩
  putNumber holds printed len out := by
    rcases holds _ _ with ⟨len', ran⟩
    refine ⟨len', (putNumber_printed printed len out).trans (ran.trans ?_)⟩
    rw [← List.append_assoc]
    rfl

/-- What a call prints, if its arguments are those that the format asks for. -/
theorem printf_recorder {out : Str} {format : String} {args : List Arg}
    (suited : suits (ascii format) args = true) :
    printf recorder format args out = .ok (out ++ render (ascii format) args) := by
  have ran : ∃ len', vfprintf recorder (ascii format) args out =
      .ok (len', out ++ render (ascii format) args) :=
    recorderRule.vfprintfLoop suited (Nat.lt_succ_self _) 0 out
  obtain ⟨len', ran⟩ := ran
  rw [printf, ran]
  rfl

end TheFirmware.Printf
