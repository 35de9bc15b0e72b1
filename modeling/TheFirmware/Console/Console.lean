import TheFirmware.Core.String

/-!
# Commands of `lib/console/console.c`

`console_main` calls `console_parse_command` twice: first to count the arguments, then to fill an
array of that size, and the second call puts a NUL behind every argument. A pointer is the number of
a byte in memory. The two passes agree: the second one fills the whole array and nothing else, with
the words of the line (`consoleParseCommand_words`).
-/

namespace TheFirmware.Console

open CString (StringAt)
open Cells Strings

/-- The memory, the number of arguments and what has been assigned to elements of `_argv`. -/
structure Parse : Type where
  memory : Nat → UInt8
  argc : Nat
  argv : List (Nat × Nat)

/-- `for (; pred(*buf); ++buf)` -/
def skipWhile (pred : UInt8 → Bool) (memory : Nat → UInt8) : Nat → Nat → Except Fault Nat
  | 0, _ => .error .outOfFuel
  | fuel + 1, buf => if pred (memory buf) then skipWhile pred memory fuel (buf + 1) else .ok buf

/-- `*buf == ' '` -/
def isSpace (c : UInt8) : Bool := c = 0x20

/-- `*buf != '\0' && *buf != ' '` -/
def isWord (c : UInt8) : Bool := c ≠ 0 ∧ c ≠ 0x20

/-- `if (_argv) _argv[argc] = arg;` and `argc++` -/
def Parse.assign (s : Parse) (fill : Bool) (arg : Nat) : Parse :=
  { s with argv := if fill then s.argv ++ [(s.argc, arg)] else s.argv, argc := s.argc + 1 }

/-- `if (_argv) *buf = '\0'` -/
def Parse.terminate (s : Parse) (fill : Bool) (buf : Nat) : Parse :=
  { s with memory := if fill then Function.update s.memory buf 0 else s.memory }

/-- The loop of `console_parse_command`. `fill` is whether there is an array `_argv`. -/
def parseLoop (fill : Bool) : Nat → Nat → Parse → Except Fault Parse
  | 0, _, _ => .error .outOfFuel
  | fuel + 1, buf, s =>
    if s.memory buf = 0 then .ok s
    else do
      let buf ← skipWhile isSpace s.memory fuel buf
      if s.memory buf = 0 then return s
      else
        let arg := buf
        let buf ← skipWhile isWord s.memory fuel buf
        let s := s.assign fill arg
        if s.memory buf = 0 then return s
        else parseLoop fill fuel (buf + 1) (s.terminate fill buf)

/-- `console_parse_command`, which always returns true. -/
def consoleParseCommand (fill : Bool) (fuel buf : Nat) (memory : Nat → UInt8) :
    Except Fault Parse :=
  parseLoop fill fuel buf ⟨memory, 0, []⟩

/-! ## Words -/

/-- The maximal runs of characters that are no space. -/
def words (line : Str) : List Str := (line.splitOn 0x20).filter (· ≠ [])

theorem words_append_space {word : Str} (noSpace : 0x20 ∉ word) (line : Str) :
    words (word ++ 0x20 :: line) = [word].filter (· ≠ []) ++ words line := by
  rw [words, List.splitOn_append_cons_self_of_not_mem noSpace, ← List.singleton_append,
    List.filter_append]
  rfl

theorem words_spaces {spaces : Str} (all : ∀ c ∈ spaces, c = 0x20) (line : Str) :
    words (spaces ++ line) = words line := by
  induction spaces with
  | nil => rfl
  | cons c spaces ih =>
    obtain ⟨rfl, rest⟩ := List.forall_mem_cons.mp all
    have first := words_append_space (List.not_mem_nil : (0x20 : UInt8) ∉ []) (spaces ++ line)
    exact first.trans (ih rest)

theorem words_word {word : Str} (noSpace : 0x20 ∉ word) (nonempty : word ≠ []) :
    words word = [word] := by
  rw [words, List.splitOn_eq_singleton noSpace]
  simp [nonempty]

theorem words_word_space {word : Str} (noSpace : 0x20 ∉ word) (nonempty : word ≠ []) (line : Str) :
    words (word ++ 0x20 :: line) = word :: words line := by
  rw [words_append_space noSpace]
  simp [nonempty]

/-- A line starts with spaces, and there is a word behind them or nothing. -/
theorem line_cases (line : Str) : ∃ spaces word tail,
    line = spaces ++ (word ++ tail) ∧ (∀ c ∈ spaces, c = 0x20) ∧ 0x20 ∉ word ∧
      (word = [] → tail = []) ∧ (tail = [] ∨ ∃ rest, tail = 0x20 :: rest) := by
  induction line with
  | nil => exact ⟨[], [], [], rfl, List.forall_mem_nil _, List.not_mem_nil, fun _ => rfl, .inl rfl⟩
  | cons c line ih =>
    obtain ⟨spaces, word, tail, rfl, all, noSpace, nothing, space⟩ := ih
    rcases Classical.em (c = 0x20) with rfl | other
    · exact ⟨0x20 :: spaces, word, tail, rfl, List.forall_mem_cons.mpr ⟨rfl, all⟩, noSpace, nothing,
        space⟩
    rcases spaces with _ | ⟨first, spaces⟩
    · refine ⟨[], c :: word, tail, rfl, List.forall_mem_nil _, ?_,
        fun none => absurd none (List.cons_ne_nil _ _), space⟩
      rw [List.mem_cons, not_or]
      exact ⟨Ne.symm other, noSpace⟩
    · obtain ⟨rfl, -⟩ := List.forall_mem_cons.mp all
      refine ⟨[], [c], 0x20 :: (spaces ++ (word ++ tail)), rfl, List.forall_mem_nil _, ?_,
        fun none => absurd none (List.cons_ne_nil _ _), .inr ⟨_, rfl⟩⟩
      exact fun mem => other (List.mem_singleton.mp mem).symm

/-- The induction over the words of a line. -/
theorem line_induction {P : Str → Prop}
    (blank : ∀ spaces, (∀ c ∈ spaces, c = 0x20) → P spaces)
    (last : ∀ spaces word, (∀ c ∈ spaces, c = 0x20) → 0x20 ∉ word → word ≠ [] → P (spaces ++ word))
    (more : ∀ spaces word rest, (∀ c ∈ spaces, c = 0x20) → 0x20 ∉ word → word ≠ [] → P rest →
      P (spaces ++ (word ++ 0x20 :: rest))) (line : Str) : P line := by
  -- what is behind a word and a space is shorter
  induction size : line.length using Nat.strong_induction_on generalizing line with
  | h size_ ih =>
    obtain ⟨spaces, word, tail, rfl, all, noSpace, nothing, space⟩ := line_cases line
    rcases Classical.em (word = []) with rfl | nonempty
    · rw [nothing rfl, List.append_nil, List.append_nil]
      exact blank spaces all
    rcases space with rfl | ⟨rest, rfl⟩
    · rw [List.append_nil]
      exact last spaces word all noSpace nonempty
    · have shorter : rest.length < size_ := by
        rw [← size]
        simp only [List.length_append, List.length_cons]
        omega
      exact more spaces word rest all noSpace nonempty (ih _ shorter rest rfl)

theorem words_blank {spaces : Str} (all : ∀ c ∈ spaces, c = 0x20) : words spaces = [] := by
  have none := words_spaces all []
  rwa [List.append_nil] at none

/-! ## One pass -/

section Pass

variable {memory : Nat → UInt8} {p : Nat}

/-- The characters that are skipped, up to one that is not. -/
theorem skipWhile_returns {pred : UInt8 → Bool} {skipped : Str} {c : UInt8}
    (held : Holds memory p (skipped ++ [c])) (all : ∀ x ∈ skipped, pred x = true)
    (stop : pred c = false) :
    Returns (fun fuel => skipWhile pred memory fuel p) (p + skipped.length) := by
  induction skipped generalizing p with
  | nil =>
    have here : memory p = c := holds_singleton_iff.mp held
    apply Returns.succ
    simp only [skipWhile, here, stop]
    exact Returns.ok _
  | cons x skipped ih =>
    obtain ⟨here, held⟩ := holds_cons_iff.mp held
    obtain ⟨first, rest⟩ := List.forall_mem_cons.mp all
    have next := ih held rest
    rw [Nat.add_right_comm, Nat.add_assoc] at next
    apply Returns.succ
    simp only [skipWhile, here, first, if_true]
    exact next

variable {fill : Bool} {s : Parse} {spaces word : Str}

/-- Nothing but spaces is left of the line. -/
theorem parseLoop_spaces (held : Holds s.memory p (spaces ++ [0])) (all : ∀ c ∈ spaces, c = 0x20) :
    Returns (fun fuel => parseLoop fill fuel p s) s := by
  apply Returns.succ
  rcases Classical.em (s.memory p = 0) with nul | other
  · simp only [parseLoop, if_pos nul]
    exact Returns.ok s
  · have skip : Returns (fun fuel => skipWhile isSpace s.memory fuel p) (p + spaces.length) :=
      skipWhile_returns held (fun c mem => by simp [isSpace, all c mem]) (by decide)
    have nul : s.memory (p + spaces.length) = 0 :=
      holds_singleton_iff.mp (holds_append_iff.mp held).2
    simp only [parseLoop, if_neg other]
    apply skip.bind
    simp only [if_pos nul]
    exact Returns.ok s

/-- An iteration that finds a word. -/
theorem parseLoop_word {c : UInt8} {r : Parse}
    (held : Holds s.memory p (spaces ++ (word ++ [c]))) (all : ∀ c ∈ spaces, c = 0x20)
    (isWords : ∀ c ∈ word, isWord c = true) (nonempty : word ≠ []) (stop : isWord c = false)
    (rest : Returns (fun fuel =>
      if c = 0 then .ok (s.assign fill (p + spaces.length))
      else parseLoop fill fuel (p + spaces.length + word.length + 1)
        ((s.assign fill (p + spaces.length)).terminate fill (p + spaces.length + word.length))) r) :
    Returns (fun fuel => parseLoop fill fuel p s) r := by
  obtain ⟨first, word', rfl⟩ := List.exists_cons_of_ne_nil nonempty
  have wordFirst : isWord first = true := isWords first List.mem_cons_self
  obtain ⟨heldSpaces, heldWord⟩ := holds_append_iff.mp held
  have start : s.memory (p + spaces.length) = first := (holds_cons_iff.mp heldWord).1
  have behind : s.memory (p + spaces.length + (first :: word').length) = c :=
    holds_singleton_iff.mp (holds_append_iff.mp heldWord).2
  have nonzero : first ≠ 0 := by
    intro zero
    rw [zero] at wordFirst
    exact absurd wordFirst (by decide)
  have notEnd : s.memory p ≠ 0 := by
    rcases spaces with _ | ⟨space, spaces⟩
    · exact fun zero => nonzero (start.symm.trans zero)
    · have blank : s.memory p = space := (holds_cons_iff.mp heldSpaces).1
      rw [blank, all space List.mem_cons_self]
      decide
  have skipSpaces :
      Returns (fun fuel => skipWhile isSpace s.memory fuel p) (p + spaces.length) := by
    have upTo : Holds s.memory p (spaces ++ [first]) :=
      holds_append_iff.mpr ⟨heldSpaces, holds_singleton_iff.mpr start⟩
    have noSpace : first ≠ 0x20 := by
      intro space
      rw [space] at wordFirst
      exact absurd wordFirst (by decide)
    exact skipWhile_returns upTo (fun c mem => by simp [isSpace, all c mem])
      (by simp [isSpace, noSpace])
  have skipWord := skipWhile_returns heldWord isWords stop
  apply Returns.succ
  simp only [parseLoop, if_neg notEnd]
  apply skipSpaces.bind
  simp only [start, if_neg nonzero]
  apply skipWord.bind
  have same : (s.assign fill (p + spaces.length)).memory
      (p + spaces.length + (first :: word').length) = c := behind
  simp only [same]
  exact rest

end Pass

/-! ## Both passes -/

theorem isWord_of_mem {line : Str} (nonzero : 0 ∉ line) (noSpace : 0x20 ∉ line) :
    ∀ c ∈ line, isWord c = true := fun _ mem =>
  decide_eq_true ⟨fun zero => nonzero (zero ▸ mem), fun space => noSpace (space ▸ mem)⟩

/-- A line that consists of a word, a space and the rest. -/
theorem stringAt_more {memory : Nat → UInt8} {p : Nat} {spaces word rest : Str}
    (there : StringAt memory p (spaces ++ (word ++ 0x20 :: rest))) :
    Holds memory p (spaces ++ (word ++ [0x20])) ∧ 0 ∉ word ∧
      StringAt memory (p + spaces.length + word.length + 1) rest := by
  have split : spaces ++ (word ++ 0x20 :: rest) ++ [0] =
      (spaces ++ (word ++ [0x20])) ++ (rest ++ [0]) := by
    simp
  have held := there.held
  rw [split] at held
  obtain ⟨held, heldRest⟩ := holds_append_iff.mp held
  have place : p + (spaces ++ (word ++ [0x20])).length = p + spaces.length + word.length + 1 := by
    simp only [List.length_append, List.length_singleton]
    omega
  rw [place] at heldRest
  refine ⟨held, fun mem => there.nonzero ?_, heldRest, fun mem => there.nonzero ?_⟩
  · exact List.mem_append_right _ (List.mem_append_left _ mem)
  · exact List.mem_append_right _ (List.mem_append_right _ (List.mem_cons_of_mem _ mem))

/-- A line that ends with a word. -/
theorem stringAt_last {memory : Nat → UInt8} {p : Nat} {spaces word : Str}
    (there : StringAt memory p (spaces ++ word)) :
    Holds memory p (spaces ++ (word ++ [0])) ∧ StringAt memory (p + spaces.length) word := by
  have held := there.held
  rw [List.append_assoc] at held
  exact ⟨held, (holds_append_iff.mp held).2, fun mem => there.nonzero (List.mem_append_right _ mem)⟩

/-- Counting leaves the line as it is. -/
theorem parseLoop_count {p : Nat} {s : Parse} {line : Str} (there : StringAt s.memory p line) :
    Returns (fun fuel => parseLoop false fuel p s)
      { s with argc := s.argc + (words line).length } := by
  induction line using line_induction generalizing p s with
  | blank spaces all =>
    rw [words_blank all]
    exact parseLoop_spaces there.held all
  | last spaces word all noSpace nonempty =>
    obtain ⟨held, thereWord⟩ := stringAt_last there
    rw [words_spaces all, words_word noSpace nonempty]
    exact parseLoop_word held all (isWord_of_mem thereWord.nonzero noSpace) nonempty (by decide)
      (Returns.ok _)
  | more spaces word rest all noSpace nonempty ih =>
    obtain ⟨held, nonzero, thereRest⟩ := stringAt_more there
    rw [words_spaces all, words_word_space noSpace nonempty]
    refine parseLoop_word held all (isWord_of_mem nonzero noSpace) nonempty (by decide) ?_
    let s' := (s.assign false (p + spaces.length)).terminate false (p + spaces.length + word.length)
    have counted : Returns (fun fuel => parseLoop false fuel _ s') _ := ih thereRest
    have total : s'.argc + (words rest).length = s.argc + (word :: words rest).length := by
      show s.argc + 1 + (words rest).length = _
      rw [List.length_cons]
      omega
    rw [total] at counted
    exact counted

/-- Filling assigns a pointer to every word, and puts a NUL behind it. -/
theorem parseLoop_fill {p : Nat} {s : Parse} {line : Str} (there : StringAt s.memory p line) :
    ∃ args memory', Returns (fun fuel => parseLoop true fuel p s)
        ⟨memory', s.argc + args.length, s.argv ++ (List.range' s.argc args.length).zip args⟩ ∧
      List.Forall₂ (StringAt memory') args (words line) ∧
      ∀ x, x < p ∨ p + line.length ≤ x → memory' x = s.memory x := by
  induction line using line_induction generalizing p s with
  | blank spaces all =>
    rw [words_blank all]
    refine ⟨[], s.memory, ?_, .nil, fun _ _ => rfl⟩
    simp only [List.zip_nil_right, List.append_nil]
    exact parseLoop_spaces there.held all
  | last spaces word all noSpace nonempty =>
    obtain ⟨held, thereWord⟩ := stringAt_last there
    rw [words_spaces all, words_word noSpace nonempty]
    refine ⟨[p + spaces.length], s.memory, ?_, .cons thereWord .nil, fun _ _ => rfl⟩
    exact parseLoop_word held all (isWord_of_mem thereWord.nonzero noSpace) nonempty (by decide)
      (Returns.ok _)
  | more spaces word rest all noSpace nonempty ih =>
    obtain ⟨held, nonzero, thereRest⟩ := stringAt_more there
    rw [words_spaces all, words_word_space noSpace nonempty]
    let stop := p + spaces.length + word.length
    let s' := (s.assign true (p + spaces.length)).terminate true stop
    have kept : ∀ x, x ≠ stop → s'.memory x = s.memory x := fun x other =>
      Function.update_of_ne other _ _
    have thereRest' : StringAt s'.memory (stop + 1) rest :=
      ⟨thereRest.held.congr fun i _ => kept _ (by omega), thereRest.nonzero⟩
    obtain ⟨args, memory', ran, strings, frame⟩ := ih thereRest'
    have thereWord : StringAt memory' (p + spaces.length) word := by
      refine ⟨holds_append_iff.mpr ⟨?_, holds_singleton_iff.mpr ?_⟩, nonzero⟩
      · have heldWord := (holds_append_iff.mp (holds_append_iff.mp held).2).1
        refine heldWord.congr fun i inside => ?_
        rw [frame _ (.inl (by omega)), kept _ (by omega)]
      · rw [frame _ (.inl (Nat.lt_succ_self stop))]
        exact Function.update_self ..
    refine ⟨(p + spaces.length) :: args, memory', ?_, .cons thereWord strings, fun x outside => ?_⟩
    · have total : s'.argc + args.length = s.argc + ((p + spaces.length) :: args).length := by
        show s.argc + 1 + args.length = _
        rw [List.length_cons]
        omega
      have filled : s'.argv ++ (List.range' s'.argc args.length).zip args =
          s.argv ++ (List.range' s.argc ((p + spaces.length) :: args).length).zip
            ((p + spaces.length) :: args) := by
        show s.argv ++ [(s.argc, p + spaces.length)] ++
          (List.range' (s.argc + 1) args.length).zip args = _
        rw [List.length_cons, List.range'_succ, List.zip_cons_cons, List.append_assoc]
        rfl
      rw [total, filled] at ran
      exact parseLoop_word held all (isWord_of_mem nonzero noSpace) nonempty (by decide) ran
    · simp only [List.length_append, List.length_cons] at outside
      rw [frame x (by omega), kept x (by omega)]

/-- The first pass leaves the line as it is and returns the number of its words; the second one
returns the same number, assigns to every element of an array of that size and to no other, and the
strings there are the words. -/
theorem consoleParseCommand_words {memory : Nat → UInt8} {buf : Nat} {line : Str}
    (there : StringAt memory buf line) : ∃ argc argv memory',
    Returns (fun fuel => consoleParseCommand false fuel buf memory) ⟨memory, argc, []⟩ ∧
      Returns (fun fuel => consoleParseCommand true fuel buf memory)
        ⟨memory', argc, (List.range argc).zip argv⟩ ∧
      argv.length = argc ∧ List.Forall₂ (StringAt memory') argv (words line) ∧
      ∀ x, x < buf ∨ buf + line.length ≤ x → memory' x = memory x := by
  have counted : Returns (fun fuel => consoleParseCommand false fuel buf memory)
      ⟨memory, 0 + (words line).length, []⟩ := parseLoop_count (s := ⟨memory, 0, []⟩) there
  have filled : ∃ args memory', Returns (fun fuel => consoleParseCommand true fuel buf memory)
        ⟨memory', 0 + args.length, (List.range' 0 args.length).zip args⟩ ∧
      List.Forall₂ (StringAt memory') args (words line) ∧
      ∀ x, x < buf ∨ buf + line.length ≤ x → memory' x = memory x :=
    parseLoop_fill (s := ⟨memory, 0, []⟩) there
  obtain ⟨args, memory', filled, strings, frame⟩ := filled
  rw [Nat.zero_add, ← strings.length_eq] at counted
  rw [Nat.zero_add, ← List.range_eq_range'] at filled
  exact ⟨args.length, args, memory', counted, filled, rfl, strings, frame⟩

/-- The memory with the line ` set a` at 100. -/
def setLine : Nat → UInt8 := write (fun _ => 0xFF) 100 [0x20, 0x73, 0x65, 0x74, 0x20, 0x20, 0x61, 0]

theorem consoleParseCommand_words_set : ∃ argv memory',
    Returns (fun fuel => consoleParseCommand true fuel 100 setLine)
        ⟨memory', 2, (List.range 2).zip argv⟩ ∧
      List.Forall₂ (StringAt memory') argv [[0x73, 0x65, 0x74], [0x61]] := by
  have there : StringAt setLine 100 [0x20, 0x73, 0x65, 0x74, 0x20, 0x20, 0x61] :=
    ⟨holds_write _ 100 _, by decide⟩
  obtain ⟨argc, argv, memory', -, filled, length, strings, -⟩ := consoleParseCommand_words there
  have two : argc = 2 := by
    rw [← length]
    exact strings.length_eq
  rw [two] at filled
  exact ⟨argv, memory', filled, strings⟩

end TheFirmware.Console
