import TheFirmware.Console.Printf

/-!
# `vfprintf` with the pointer into the format

The format is an array that ends with its NUL, and `format` is an index into it: every `*format` is
a read of the array (`charAt`), which is a fault behind the NUL. In front of it the pointer stands
for what is left of the format, and `vfprintfAt` is then `vfprintf` on lists (`vfprintfAt_eq`).
-/

namespace TheFirmware.Printf

open Strings

variable {σ : Type}

/-- `*format` -/
def charAt (format : Str) (p : Nat) : Except Fault UInt8 :=
  match (format ++ [0])[p]? with
  | some c => .ok c
  | none => .error .outOfBounds

/-- The loop for the length specifier. -/
def scanLengthAt (format : Str) : Nat → Nat → Bool → UInt32 → Except Fault (Bool × UInt32 × Nat)
  | 0, _, _, _ => .error .outOfFuel
  | fuel + 1, p, useWhitespacePadding, minLength => do
    let c ← charAt format p
    if isdigit c then
      if minLength = 0 ∧ c = 0x30 then scanLengthAt format fuel (p + 1) false minLength
      else
        scanLengthAt format fuel (p + 1) useWhitespacePadding
          (minLength * 10 + (c.toUInt32 - 0x30))
    else return (useWhitespacePadding, minLength, p)

/-- The loop for the digits of the precision, the value of which is not used. -/
def skipDigitsAt (format : Str) : Nat → Nat → Except Fault Nat
  | 0, _ => .error .outOfFuel
  | fuel + 1, p => do
    let c ← charAt format p
    if isdigit c then skipDigitsAt format fuel (p + 1) else return p

/-- The precision -/
def skipPrecisionAt (format : Str) (fuel p : Nat) : Except Fault Nat := do
  let c ← charAt format p
  if c = 0x2E then skipDigitsAt format fuel (p + 1) else return p

/-- The `l` of a conversion -/
def skipLongAt (format : Str) (p : Nat) : Except Fault Nat := do
  let c ← charAt format p
  if c = 0x6C then return p + 1 else return p

/-- The loop of `vfprintf`. -/
def vfprintfAtLoop (f : File σ) (format : Str) :
    Nat → Nat → List Arg → UInt32 → σ → Except Fault (UInt32 × σ)
  | 0, _, _, _, _ => .error .outOfFuel
  | fuel + 1, p, args, len, s => do
    let c ← charAt format p
    if c = 0 then return (len, s)
    else if c = 0x25 then
      let fmtStart := p
      let p := p + 1
      let c ← charAt format p
      if c = 0x25 then put f [c] len s (vfprintfAtLoop f format fuel (p + 1) args)
      else
        let (useWhitespacePadding, minLength, p) ← scanLengthAt format fuel p true 0
        let p ← skipPrecisionAt format fuel p
        let p ← skipLongAt format p
        let c ← charAt format p
        convert f ((format.drop fmtStart).take (p - fmtStart)) c minLength useWhitespacePadding args
          len s (vfprintfAtLoop f format fuel (p + 1))
    else put f [c] len s (vfprintfAtLoop f format fuel (p + 1) args)

/-- `vfprintf` -/
def vfprintfAt (f : File σ) (format : Str) (fuel : Nat) (args : List Arg) (s : σ) :
    Except Fault (UInt32 × σ) :=
  vfprintfAtLoop f format fuel 0 args 0 s

/-! ## What is left of the format -/

/-- The format behind the options of a conversion. -/
def afterOptions (rest : Str) : Str := skipLong (skipPrecision (scanLength rest true 0).2.2)

/-- At the pointer the rest of the format begins. -/
def Stands (format : Str) (p : Nat) (rest : Str) : Prop :=
  ∃ passed, format = passed ++ rest ∧ p = passed.length

section Stands

variable {format rest : Str} {p : Nat} {c : UInt8}

theorem Stands.charAt_cons (stands : Stands format p (c :: rest)) : charAt format p = .ok c := by
  rcases stands with ⟨passed, rfl, rfl⟩
  simp [charAt]

theorem Stands.charAt_nil (stands : Stands format p []) : charAt format p = .ok 0 := by
  rcases stands with ⟨passed, rfl, rfl⟩
  simp [charAt]

/-- Behind the NUL nothing can be read. -/
theorem Stands.charAt_succ (stands : Stands format p []) :
    charAt format (p + 1) = .error .outOfBounds := by
  rcases stands with ⟨passed, rfl, rfl⟩
  simp [charAt]

theorem Stands.next (stands : Stands format p (c :: rest)) : Stands format (p + 1) rest := by
  rcases stands with ⟨passed, rfl, rfl⟩
  exact ⟨passed ++ [c], by simp, by simp⟩

theorem Stands.drop (stands : Stands format p rest) : format.drop p = rest := by
  rcases stands with ⟨passed, rfl, rfl⟩
  exact List.drop_left

theorem Stands.length (stands : Stands format p rest) : p + rest.length = format.length := by
  rcases stands with ⟨passed, rfl, rfl⟩
  exact (List.length_append ..).symm

/-- The text between two pointers. -/
theorem Stands.between {rest' : Str} {p' : Nat} (first : Stands format p rest)
    (second : Stands format p' rest') :
    (format.drop p).take (p' - p) = rest.take (rest.length - rest'.length) := by
  have length₁ := first.length
  have length₂ := second.length
  have same : p' - p = rest.length - rest'.length := by omega
  rw [first.drop, same]

end Stands

/-! ## The loops -/

section Loops

variable {format rest : Str} {p fuel : Nat}

theorem scanLengthAt_eq (stands : Stands format p rest) (enough : rest.length < fuel)
    (useWhitespacePadding : Bool) (minLength : UInt32) :
    ∃ p', scanLengthAt format fuel p useWhitespacePadding minLength =
        .ok ((scanLength rest useWhitespacePadding minLength).1,
          (scanLength rest useWhitespacePadding minLength).2.1, p') ∧
      Stands format p' (scanLength rest useWhitespacePadding minLength).2.2 := by
  induction rest generalizing p fuel useWhitespacePadding minLength with
  | nil =>
    obtain ⟨fuel, rfl⟩ := Nat.exists_eq_add_of_lt enough
    refine ⟨p, ?_, stands⟩
    rw [scanLengthAt, stands.charAt_nil, Except.ok_bind]
    rfl
  | cons c rest ih =>
    obtain ⟨fuel, rfl⟩ := Nat.exists_eq_add_of_lt enough
    have enough' : rest.length < rest.length + 1 + fuel := by omega
    rw [List.length_cons, scanLengthAt, stands.charAt_cons, Except.ok_bind, scanLength]
    by_cases digit : isdigit c = true
    · rw [if_pos digit, if_pos digit]
      by_cases zero : minLength = 0 ∧ c = 0x30
      · rw [if_pos zero, if_pos zero]
        exact ih stands.next enough' false minLength
      · rw [if_neg zero, if_neg zero]
        exact ih stands.next enough' _ _
    · rw [if_neg digit, if_neg digit]
      exact ⟨p, rfl, stands⟩

theorem skipDigitsAt_eq (stands : Stands format p rest) (enough : rest.length < fuel) :
    ∃ p', skipDigitsAt format fuel p = .ok p' ∧ Stands format p' (rest.dropWhile isdigit) := by
  induction rest generalizing p fuel with
  | nil =>
    obtain ⟨fuel, rfl⟩ := Nat.exists_eq_add_of_lt enough
    refine ⟨p, ?_, stands⟩
    rw [skipDigitsAt, stands.charAt_nil, Except.ok_bind]
    rfl
  | cons c rest ih =>
    obtain ⟨fuel, rfl⟩ := Nat.exists_eq_add_of_lt enough
    have enough' : rest.length < rest.length + 1 + fuel := by omega
    rw [List.length_cons, skipDigitsAt, stands.charAt_cons, Except.ok_bind, List.dropWhile_cons]
    by_cases digit : isdigit c = true
    · rw [if_pos digit, if_pos digit]
      exact ih stands.next enough'
    · rw [if_neg digit, if_neg digit]
      exact ⟨p, rfl, stands⟩

theorem skipPrecisionAt_eq (stands : Stands format p rest) (enough : rest.length < fuel) :
    ∃ p', skipPrecisionAt format fuel p = .ok p' ∧ Stands format p' (skipPrecision rest) := by
  rcases rest with _ | ⟨c, rest⟩
  · refine ⟨p, ?_, stands⟩
    rw [skipPrecisionAt, stands.charAt_nil, Except.ok_bind]
    rfl
  · rw [skipPrecisionAt, stands.charAt_cons, Except.ok_bind]
    by_cases dot : c = 0x2E
    · subst dot
      exact skipDigitsAt_eq stands.next (Nat.lt_of_succ_lt enough)
    · have none : skipPrecision (c :: rest) = c :: rest := by simp [skipPrecision, dot]
      rw [if_neg dot, none]
      exact ⟨p, rfl, stands⟩

theorem skipLongAt_eq (stands : Stands format p rest) :
    ∃ p', skipLongAt format p = .ok p' ∧ Stands format p' (skipLong rest) := by
  rcases rest with _ | ⟨c, rest⟩
  · refine ⟨p, ?_, stands⟩
    rw [skipLongAt, stands.charAt_nil, Except.ok_bind]
    rfl
  · rw [skipLongAt, stands.charAt_cons, Except.ok_bind]
    by_cases long : c = 0x6C
    · subst long
      exact ⟨p + 1, rfl, stands.next⟩
    · have none : skipLong (c :: rest) = c :: rest := by simp [skipLong, long]
      rw [if_neg long, none]
      exact ⟨p, rfl, stands⟩

theorem scanLength_suffix (rest : Str) (useWhitespacePadding : Bool) (minLength : UInt32) :
    (scanLength rest useWhitespacePadding minLength).2.2 <:+ rest := by
  induction rest, useWhitespacePadding, minLength using scanLength.induct with
  | case1 useWhitespacePadding minLength => exact List.suffix_refl []
  | case2 c rest useWhitespacePadding minLength digit zero ih =>
    rw [scanLength, if_pos digit, if_pos zero]
    exact ih.trans (List.suffix_cons c rest)
  | case3 c rest useWhitespacePadding minLength digit nonzero ih =>
    rw [scanLength, if_pos digit, if_neg nonzero]
    exact ih.trans (List.suffix_cons c rest)
  | case4 c rest useWhitespacePadding minLength other =>
    rw [scanLength, if_neg other]

theorem skipPrecision_suffix (rest : Str) : skipPrecision rest <:+ rest := by
  unfold skipPrecision
  split
  · exact (List.dropWhile_suffix _).trans (List.suffix_cons ..)
  · exact List.suffix_refl _

theorem skipLong_suffix (rest : Str) : skipLong rest <:+ rest := by
  unfold skipLong
  split
  · exact List.suffix_cons ..
  · exact List.suffix_refl _

theorem afterOptions_suffix (rest : Str) : afterOptions rest <:+ rest :=
  (skipLong_suffix _).trans ((skipPrecision_suffix _).trans (scanLength_suffix rest true 0))

/-- A conversion specification, up to its last character: the pointer moves over what the scanners
of lists leave out. -/
theorem scanAt_eq (stands : Stands format p rest) (enough : rest.length < fuel) :
    ∃ p₁ p₂ p₃, scanLengthAt format fuel p true 0 =
        .ok ((scanLength rest true 0).1, (scanLength rest true 0).2.1, p₁) ∧
      skipPrecisionAt format fuel p₁ = .ok p₂ ∧ skipLongAt format p₂ = .ok p₃ ∧
      Stands format p₃ (afterOptions rest) := by
  rcases scanLengthAt_eq stands enough true 0 with ⟨p₁, length, stands₁⟩
  have short := Nat.lt_of_le_of_lt (scanLength_suffix rest true 0).length_le enough
  rcases skipPrecisionAt_eq stands₁ short with ⟨p₂, precision, stands₂⟩
  rcases skipLongAt_eq stands₂ with ⟨p₃, long, stands₃⟩
  exact ⟨p₁, p₂, p₃, length, precision, long, stands₃⟩

end Loops

/-- What a round of the loop finds in front of it. -/
inductive Round : Str → Prop
  | done : Round []
  | percent (rest : Str) : Round (0x25 :: 0x25 :: rest)
  | cut {rest : Str} (other : rest.head? ≠ some 0x25) (cut : afterOptions rest = []) :
    Round (0x25 :: rest)
  | spec {rest rest' : Str} {c : UInt8} (other : rest.head? ≠ some 0x25)
    (scanned : afterOptions rest = c :: rest') : Round (0x25 :: rest)
  | char {c : UInt8} (plain : c ≠ 0x25) (rest : Str) : Round (c :: rest)

theorem round (format : Str) : Round format := by
  rcases format with _ | ⟨c, rest⟩
  · exact .done
  · by_cases percent : c = 0x25
    · subst percent
      by_cases again : rest.head? = some 0x25
      · rcases List.head?_eq_some_iff.mp again with ⟨rest, rfl⟩
        exact .percent rest
      · rcases scanned : afterOptions rest with _ | ⟨c, rest'⟩
        · exact .cut again scanned
        · exact .spec again scanned
    · exact .char percent rest

/-! ## The refinement -/

section Refinement

variable {f : File σ} {format rest : Str} {p fuel : Nat} {len : UInt32} {s : σ}

/-- What happens behind the NUL. -/
theorem vfprintfAtLoop_overrun (stands : Stands format p []) (fuel : Nat) (args : List Arg) :
    vfprintfAtLoop f format (fuel + 1) (p + 1) args len s = .error .outOfBounds := by
  rw [vfprintfAtLoop, stands.charAt_succ]
  rfl

/-- A conversion is cut off by the NUL, which is then passed over. -/
theorem convert_nul {spec : Str} {minLength : UInt32} {useWhitespacePadding : Bool}
    {args : List Arg} {next : List Arg → UInt32 → σ → Except Fault (UInt32 × σ)} :
    convert f spec 0 minLength useWhitespacePadding args len s next =
      put f spec len s (next args) := rfl

/-- The NUL comes before the last character of a conversion specification. -/
theorem vfprintfLoop_cut (other : rest.head? ≠ some 0x25) (cut : afterOptions rest = [])
    (fuel : Nat) (args : List Arg) :
    vfprintfLoop f (fuel + 1) (0x25 :: rest) args len s =
      put f ((0x25 :: rest).take (rest.length + 1)) len s fun _ _ => .error .outOfBounds := by
  rw [afterOptions] at cut
  rw [vfprintfLoop.eq_4 _ _ _ _ _ _ fun rest' eq => other (by rw [eq, List.head?_cons])]
  dsimp only
  rw [cut]
  rfl

theorem vfprintfLoop_spec {c : UInt8} {rest' : Str} (other : rest.head? ≠ some 0x25)
    (scanned : afterOptions rest = c :: rest') (fuel : Nat) (args : List Arg) :
    vfprintfLoop f (fuel + 1) (0x25 :: rest) args len s =
      convert f ((0x25 :: rest).take (rest.length + 1 - (c :: rest').length)) c
        (scanLength rest true 0).2.1 (scanLength rest true 0).1 args len s
        (vfprintfLoop f fuel rest') := by
  rw [afterOptions] at scanned
  rw [vfprintfLoop.eq_4 _ _ _ _ _ _ fun rest' eq => other (by rw [eq, List.head?_cons])]
  dsimp only
  rw [scanned]

/-- A round for a conversion specification: its last character is looked at where the scanners of
lists have left the format. -/
theorem vfprintfAtLoop_spec (f : File σ) (stands : Stands format p (0x25 :: rest))
    (other : rest.head? ≠ some 0x25) (enough : rest.length < fuel) (args : List Arg) (len : UInt32)
    (s : σ) :
    ∃ p', Stands format p' (afterOptions rest) ∧
      vfprintfAtLoop f format (fuel + 1) p args len s = charAt format p' >>= fun c =>
        convert f ((0x25 :: rest).take (rest.length + 1 - (afterOptions rest).length)) c
          (scanLength rest true 0).2.1 (scanLength rest true 0).1 args len s
          (vfprintfAtLoop f format fuel (p' + 1)) := by
  rcases scanAt_eq stands.next enough with ⟨p₁, p₂, p', length, precision, long, stands'⟩
  have head : ∃ c, charAt format (p + 1) = .ok c ∧ c ≠ 0x25 := by
    rcases rest with _ | ⟨c, rest⟩
    · exact ⟨0, stands.next.charAt_nil, by decide⟩
    · exact ⟨c, stands.next.charAt_cons, fun eq => other (congrArg some eq)⟩
  rcases head with ⟨c, read, different⟩
  refine ⟨p', stands', ?_⟩
  rw [vfprintfAtLoop, stands.charAt_cons, Except.ok_bind, if_neg (by decide), if_pos rfl]
  dsimp only
  rw [read, Except.ok_bind, if_neg different, length, Except.ok_bind]
  dsimp only
  rw [precision, Except.ok_bind, long, Except.ok_bind, stands.between stands']
  rfl

theorem vfprintfAtLoop_eq (stands : Stands format p rest) (terminated : 0 ∉ rest)
    (enough : rest.length < fuel) (args : List Arg) (len : UInt32) (s : σ) :
    vfprintfAtLoop f format fuel p args len s = vfprintfLoop f fuel rest args len s := by
  induction fuel generalizing p rest args len s with
  | zero => exact absurd enough (Nat.not_lt_zero _)
  | succ fuel ih =>
    cases round rest with
    | done =>
      rw [vfprintfAtLoop, stands.charAt_nil, Except.ok_bind]
      rfl
    | percent rest =>
      simp only [List.mem_cons, not_or] at terminated
      rw [vfprintfAtLoop, stands.charAt_cons, Except.ok_bind, if_neg (by decide), if_pos rfl]
      dsimp only
      rw [stands.next.charAt_cons, Except.ok_bind, if_pos rfl, vfprintfLoop]
      congr 1
      funext len s
      have enough' := Nat.lt_of_succ_lt (Nat.lt_of_succ_lt_succ enough)
      exact ih stands.next.next terminated.2.2 enough' args len s
    | @cut rest other cut =>
      have enough' : rest.length < fuel := Nat.lt_of_succ_lt_succ enough
      -- the fuel is left for the round behind the NUL
      obtain ⟨fuel, rfl⟩ := Nat.exists_eq_add_of_lt enough'
      rcases vfprintfAtLoop_spec f stands other enough' args len s with ⟨p', stands', ran⟩
      rw [cut] at stands' ran
      rw [ran, stands'.charAt_nil, Except.ok_bind, convert_nul, vfprintfLoop_cut other cut]
      congr 1
      funext len s
      exact vfprintfAtLoop_overrun stands' _ args
    | @spec rest rest' c other scanned =>
      have enough' : rest.length < fuel := Nat.lt_of_succ_lt_succ enough
      have suffix := afterOptions_suffix rest
      rcases vfprintfAtLoop_spec f stands other enough' args len s with ⟨p', stands', ran⟩
      rw [scanned] at stands' ran suffix
      rw [ran, stands'.charAt_cons, Except.ok_bind, vfprintfLoop_spec other scanned]
      congr 1
      funext args len s
      have short : rest'.length < fuel :=
        Nat.lt_of_le_of_lt (Nat.le_of_succ_le suffix.length_le) enough'
      have terminated' : 0 ∉ rest' := fun nul =>
        terminated (List.mem_cons_of_mem _ (suffix.subset (List.mem_cons_of_mem c nul)))
      exact ih stands'.next terminated' short args len s
    | @char c plain rest =>
      rw [List.mem_cons, not_or] at terminated
      rw [vfprintfAtLoop, stands.charAt_cons, Except.ok_bind, if_neg (Ne.symm terminated.1),
        if_neg plain, vfprintfLoop_char plain]
      congr 1
      funext len s
      exact ih stands.next terminated.2 (Nat.lt_of_succ_lt_succ enough) args len s

/-- More fuel than characters makes no difference. -/
theorem vfprintfLoop_fuel (f : File σ) {fuel' : Nat} (enough : rest.length < fuel)
    (enough' : rest.length < fuel') (args : List Arg) (len : UInt32) (s : σ) :
    vfprintfLoop f fuel rest args len s = vfprintfLoop f fuel' rest args len s := by
  induction fuel generalizing fuel' rest args len s with
  | zero => exact absurd enough (Nat.not_lt_zero _)
  | succ fuel ih =>
    obtain ⟨fuel', rfl⟩ := Nat.exists_eq_add_of_lt enough'
    generalize rest.length + fuel' = fuel' at enough'
    cases round rest with
    | done => rfl
    | percent rest =>
      rw [vfprintfLoop, vfprintfLoop]
      congr 1
      funext len s
      have short := Nat.lt_of_succ_lt (Nat.lt_of_succ_lt_succ enough)
      have short' := Nat.lt_of_succ_lt (Nat.lt_of_succ_lt_succ enough')
      exact ih short short' args len s
    | cut other cut => rw [vfprintfLoop_cut other cut, vfprintfLoop_cut other cut]
    | @spec rest rest' c other scanned =>
      have suffix := afterOptions_suffix rest
      rw [scanned] at suffix
      have le : rest'.length ≤ rest.length := Nat.le_of_succ_le suffix.length_le
      rw [vfprintfLoop_spec other scanned, vfprintfLoop_spec other scanned]
      congr 1
      funext args len s
      have short := Nat.lt_of_le_of_lt le (Nat.lt_of_succ_lt_succ enough)
      have short' := Nat.lt_of_le_of_lt le (Nat.lt_of_succ_lt_succ enough')
      exact ih short short' args len s
    | char plain rest =>
      rw [vfprintfLoop_char plain, vfprintfLoop_char plain]
      congr 1
      funext len s
      exact ih (Nat.lt_of_succ_lt_succ enough) (Nat.lt_of_succ_lt_succ enough') args len s

/-- On a format with its only NUL at the end, the pointer makes no difference. -/
theorem vfprintfAt_eq (terminated : 0 ∉ format) (enough : format.length < fuel) (args : List Arg)
    (s : σ) : vfprintfAt f format fuel args s = vfprintf f format args s := by
  have start : Stands format 0 format := ⟨[], rfl, rfl⟩
  rw [vfprintfAt, vfprintfAtLoop_eq start terminated enough, vfprintf]
  exact vfprintfLoop_fuel f enough (Nat.lt_succ_self _) args 0 s

end Refinement

end TheFirmware.Printf
