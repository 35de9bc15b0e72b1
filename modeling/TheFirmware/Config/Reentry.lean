import TheFirmware.Config.Resolve

/-!
# Values that are printed and set again

The text that `config_cmd_print_tree` prints for a value is given back to `config_cmd_set_get`.
`print_number` and `strtol` agree on digits (`strtolLoop_printDigits`), and on `0x`. They do not
agree on a sign: a value that is printed with `%d` is printed as an `int32_t`, and `strtol` knows no
minus, so what has been printed as negative comes back as 0 (`reentry_iff`).
-/

namespace TheFirmware.ConfigCmd

open CString (ascii)
open LittleEndian Strings Printf

variable {σ : Type}

/-! ## Digits -/

theorem digit_numberDefinitions :
    ∀ i < 16, digit (numberDefinitions.getD i 0) = some i.toUInt8 := by
  decide

/-- The quotient and the remainder make up the number again. -/
theorem div_mul_add_mod (number base : UInt32) : number / base * base + number % base = number := by
  apply UInt32.toNat_inj.mp
  have whole := Nat.div_add_mod number.toNat base.toNat
  have bound := number.toNat_lt
  have low : number.toNat / base.toNat * base.toNat ≤ number.toNat := Nat.div_mul_le_self _ _
  rw [Nat.mul_comm] at whole
  rw [UInt32.toNat_add, UInt32.toNat_mul, UInt32.toNat_div, UInt32.toNat_mod,
    Nat.mod_eq_of_lt (Nat.lt_of_le_of_lt low bound), whole, Nat.mod_eq_of_lt bound]

/-- A digit that has been printed is read again. -/
theorem strtolLoop_digit {base : UInt8} (small : 2 ≤ base) (large : base ≤ 16) (number n : UInt32)
    (s : Str) :
    strtolLoop base (numberDefinitions.getD (number % base.toUInt32).toNat 0 :: s) n =
      strtolLoop base s (n * base.toUInt32 + number % base.toUInt32) := by
  have positive : 0 < base.toNat := Nat.lt_of_lt_of_le (by decide) (UInt8.le_iff_toNat_le.mp small)
  have below : (number % base.toUInt32).toNat < base.toNat := by
    rw [UInt32.toNat_mod, UInt8.toNat_toUInt32]
    exact Nat.mod_lt _ positive
  have sixteen : base.toNat ≤ 16 := UInt8.le_iff_toNat_le.mp large
  have value : (number % base.toUInt32).toNat.toUInt8.toNat = (number % base.toUInt32).toNat := by
    show _ % 256 = _
    omega
  have fits : ¬ (number % base.toUInt32).toNat.toUInt8 > base := by
    rw [gt_iff_lt, UInt8.lt_iff_toNat_lt, value]
    omega
  have widened : (number % base.toUInt32).toNat.toUInt8.toUInt32 = number % base.toUInt32 := by
    apply UInt32.toNat_inj.mp
    rw [UInt8.toNat_toUInt32, value]
  rw [strtolLoop, digit_numberDefinitions _ (by omega)]
  simp only [if_neg fits, widened]

/-- What `print_number` has put in front of the buffer is read as the number. -/
theorem strtolLoop_printDigits {base : UInt8} (small : 2 ≤ base) (large : base ≤ 16) {room : Nat}
    {number : UInt32} (fits : number.toNat < base.toNat ^ room) (buffer : Str) :
    strtolLoop base (printDigits base.toUInt32 room number buffer) 0 =
      strtolLoop base buffer number := by
  induction room generalizing number buffer with
  | zero =>
    have zero : number = 0 := by
      apply UInt32.toNat_inj.mp
      show number.toNat = 0
      rw [Nat.pow_zero] at fits
      omega
    rw [printDigits, zero]
  | succ room ih =>
    have rest : (number / base.toUInt32).toNat < base.toNat ^ room := by
      rw [UInt32.toNat_div, UInt8.toNat_toUInt32]
      exact Nat.div_lt_of_lt_mul (by rwa [← Nat.pow_succ'])
    have whole := div_mul_add_mod number base.toUInt32
    rw [printDigits]
    split
    · rw [ih rest, strtolLoop_digit small large, whole]
    · rename_i last
      have zero : number / base.toUInt32 = 0 := by
        apply UInt32.toNat_inj.mp
        exact Nat.eq_zero_of_not_pos fun positive => last (UInt32.lt_iff_toNat_lt.mpr positive)
      rw [strtolLoop_digit small large, ← zero, whole]

/-- A decimal number consists of decimal digits. -/
theorem isdigit_of_mem_printDigits {room : Nat} {number : UInt32} {buffer : Str}
    (digits : ∀ c ∈ buffer, isdigit c = true) {c : UInt8}
    (mem : c ∈ printDigits 10 room number buffer) : isdigit c = true := by
  induction room generalizing number buffer with
  | zero => exact digits c mem
  | succ room ih =>
    have decimal : ∀ i < 10, isdigit (numberDefinitions.getD i 0) = true := by decide
    have below : (number % 10).toNat < 10 := by
      rw [UInt32.toNat_mod]
      exact Nat.mod_lt _ (by decide)
    have more : ∀ c ∈ numberDefinitions.getD (number % 10).toNat 0 :: buffer, isdigit c = true :=
      List.forall_mem_cons.mpr ⟨decimal _ below, digits⟩
    rw [printDigits] at mem
    split at mem
    · exact ih more mem
    · exact more c mem

theorem autodetect_digits {text : Str} (digits : ∀ c ∈ text, isdigit c = true) :
    autodetect text = (10, text) := by
  rcases text with _ | ⟨first, _ | ⟨second, text⟩⟩
  · rfl
  · unfold autodetect
    split
    · rename_i same
      cases same
    · rfl
  · have digit₂ := digits second (by simp)
    have hex : ¬ (second = 0x78 ∨ second = 0x58) := by
      rintro (rfl | rfl)
      · exact absurd digit₂ (by decide)
      · exact absurd digit₂ (by decide)
    have binary : ¬ (second = 0x62 ∨ second = 0x42) := by
      rintro (rfl | rfl)
      · exact absurd digit₂ (by decide)
      · exact absurd digit₂ (by decide)
    unfold autodetect
    split
    · rename_i same
      cases same
      rw [if_neg hex, if_neg binary]
    · rfl

theorem strtol_numeral (number : UInt32) : strtol (numeral 10 number) 0 = (number, []) := by
  have digits : ∀ c ∈ numeral 10 number, isdigit c = true := fun c mem =>
    isdigit_of_mem_printDigits (List.forall_mem_nil _) mem
  have fits : number.toNat < (10 : UInt8).toNat ^ 25 :=
    Nat.lt_trans number.toNat_lt (by decide)
  rw [strtol, if_pos rfl, autodetect_digits digits]
  exact strtolLoop_printDigits (by decide) (by decide) fits []

theorem strtol_hex (number : UInt32) :
    strtol (ascii "0x" ++ numeral 16 number) 0 = (number, []) := by
  have fits : number.toNat < (16 : UInt8).toNat ^ 25 :=
    Nat.lt_trans number.toNat_lt (by decide)
  show strtolLoop 16 (printDigits (16 : UInt8).toUInt32 25 number []) 0 = (number, [])
  exact strtolLoop_printDigits (by decide) (by decide) fits []

theorem strtol_minus (text : Str) : (strtol (ascii "-" ++ text) 0).1 = 0 := rfl

/-! ## What is printed for a leaf -/

/-- The spaces in front of a line. -/
def identText (ident : UInt8) : Str := (List.replicate ident.toNat (ascii "  ")).flatten

/-- The name of a value, or its index. -/
def nameText (name : Option Str) (idx : UInt8) : Str :=
  name.getD (renderWord 0x69 idx.toUInt32) ++ ascii " = "

/-- The text for a value. -/
def valueText (flags value : UInt32) : Str :=
  renderWord (if flags &&& configValFlagConsoleHex ≠ 0 then 0x78 else 0x64) value

theorem printIdent_recorder (ident : UInt8) (out : Str) :
    printIdent recorder ident out = .ok (out ++ identText ident) := by
  unfold printIdent identText
  induction ident.toNat with
  | zero => simp [List.foldlM_nil, pure, Except.pure]
  | succ n ih =>
    have spaces : ∀ out, printf recorder "  " [] out = .ok (out ++ ascii "  ") := fun out =>
      printf_recorder rfl
    rw [List.range_succ, List.foldlM_append, ih, Except.ok_bind, List.foldlM_cons, spaces,
      List.replicate_succ', List.flatten_append, ← List.append_assoc]
    simp [pure, Except.pure]

theorem printName_recorder (name : Option Str) (idx : UInt8) (out : Str) :
    printName recorder name idx out = .ok (out ++ nameText name idx) := by
  cases name with
  | none => exact printf_recorder rfl
  | some name => exact printf_recorder rfl

theorem printValue_recorder (flags value : UInt32) (out : Str) :
    printf recorder (valueFormat flags) [.word value] out = .ok (out ++ valueText flags value) := by
  rw [printf_recorder (valueFormat_suits flags value)]
  unfold valueFormat valueText
  split
  · show Except.ok (out ++ (renderWord 0x78 value ++ [])) = _
    rw [List.append_nil]
  · show Except.ok (out ++ (renderWord 0x64 value ++ [])) = _
    rw [List.append_nil]

/-- A leaf is printed on one line. -/
theorem configCmdPrintTree_leaf (config : Bytes) (name : Option Str) (idx ident : UInt8)
    (offset conf flags : UInt32) (type : LeafType) (out : Str) :
    configCmdPrintTree recorder config (.leaf name idx offset type flags) ident conf out =
      .ok (out ++ identText ident ++ nameText name idx ++
        valueText flags (type.load config conf.toNat) ++ ascii "\r\n") := by
  rw [configCmdPrintTree, printIdent_recorder, Except.ok_bind, printName_recorder, Except.ok_bind,
    printValue_recorder, Except.ok_bind]
  exact printf_recorder rfl

/-! ## Setting it again -/

theorem LeafType.trunc_load (type : LeafType) (config : Bytes) (a : Nat) :
    type.trunc (type.load config a) = type.load config a := by
  cases type with
  | uint8 => simp [trunc, load]
  | uint16 => simp [trunc, load]
  | uint32 => rfl

/-- Only a word can be negative. -/
theorem LeafType.load_lt {type : LeafType} (narrow : type ≠ .uint32) (config : Bytes) (a : Nat) :
    type.load config a < 0x80000000 := by
  rw [UInt32.lt_iff_toNat_lt]
  cases type with
  | uint8 => exact Nat.lt_trans (config a).toNat_lt (by decide)
  | uint16 => exact Nat.lt_trans (load16 config a).toNat_lt (by decide)
  | uint32 => exact absurd rfl narrow

theorem strtol_valueText {flags value : UInt32}
    (readable : flags &&& configValFlagConsoleHex ≠ 0 ∨ value < 0x80000000) :
    (strtol (valueText flags value) 0).1 = value := by
  unfold valueText renderWord
  split
  · rw [if_pos rfl, strtol_hex]
  · rename_i decimal
    have positive : ¬ 0x80000000 ≤ value := by
      rw [UInt32.not_le]
      exact readable.resolve_left decimal
    rw [if_neg (by decide), if_neg positive, strtol_numeral]

theorem strtol_valueText_negative {flags value : UInt32}
    (decimal : ¬ flags &&& configValFlagConsoleHex ≠ 0) (negative : 0x80000000 ≤ value) :
    (strtol (valueText flags value) 0).1 = 0 := by
  unfold valueText renderWord
  rw [if_neg decimal, if_neg (by decide), if_pos negative, strtol_minus]

/-- The text that is printed for a value stores it again if and only if it is in base 16 or the
value is not a word of which the highest bit is set. -/
theorem reentry_iff (name : Option Str) (idx ident : UInt8) (offset conf flags : UInt32)
    (type : LeafType) (config : Bytes) : ∃ text,
    configCmdPrintTree recorder config (.leaf name idx offset type flags) ident conf [] =
        .ok (identText ident ++ nameText name idx ++ text ++ ascii "\r\n") ∧
      ∀ {σ : Type} (f : File σ) (full : Str) (config' : Bytes) (s : σ), ∃ config'' s',
        configCmdSetGet f full (some text) (.leaf name idx offset type flags) none conf
            (config', s) = .ok (config'', s') ∧
          (type.load config'' conf.toNat = type.load config conf.toNat ↔
            flags &&& configValFlagConsoleHex ≠ 0 ∨ type ≠ .uint32 ∨
              type.load config conf.toNat < 0x80000000) := by
  refine ⟨valueText flags (type.load config conf.toNat),
    configCmdPrintTree_leaf config name idx ident offset conf flags type [], ?_⟩
  intro σ f full config' s
  obtain ⟨s', printed⟩ := printing_returns (configCmdPrintTree_returns (f := f)
    (.leaf name idx offset type flags) 0 conf s)
  rw [configCmdSetGet]
  refine ⟨_, s', printed, ?_⟩
  show type.load (type.store config' conf.toNat _) conf.toNat = _ ↔ _
  rw [LeafType.load_store]
  constructor
  · intro restored
    by_contra unreadable
    obtain ⟨decimal, negative⟩ := not_or.mp unreadable
    obtain ⟨word, negative⟩ := not_or.mp negative
    rw [UInt32.not_lt] at negative
    rw [strtol_valueText_negative decimal negative] at restored
    cases not_not.mp word
    rw [← restored] at negative
    exact absurd negative (by decide)
  · intro readable
    have readable : flags &&& configValFlagConsoleHex ≠ 0 ∨
        type.load config conf.toNat < 0x80000000 := by
      rcases readable with hex | narrow | positive
      · exact .inl hex
      · exact .inr (LeafType.load_lt narrow config conf.toNat)
      · exact .inr positive
    rw [strtol_valueText readable, LeafType.trunc_load]

/-- The threshold of an output source, in the table of `can_node.c`. -/
def offValue : ConfigValDesc := .leaf (some (ascii "off_value")) 3 4 .uint32 0

/-- The threshold -1 is printed as `-1` and comes back as 0. -/
theorem negative_lost : ∃ config' s',
    configCmdPrintTree recorder (fun _ => 0xFF) offValue 0 4 [] = .ok (ascii "off_value = -1\r\n") ∧
      configCmdSetGet recorder (ascii "off_value") (some (ascii "-1")) offValue none 4
        (fun _ => 0xFF, []) = .ok (config', s') ∧
      load32 (fun _ => 0xFF) 4 = 0xFFFFFFFF ∧ load32 config' 4 = 0 := by
  obtain ⟨s', printed⟩ := printing_returns (configCmdPrintTree_returns (f := recorder)
    offValue 0 4 [])
  refine ⟨_, s', ?_, printed, by decide, by decide⟩
  exact configCmdPrintTree_leaf (fun _ => 0xFF) (some (ascii "off_value")) 3 0 4 4 0 .uint32 []

end TheFirmware.ConfigCmd
