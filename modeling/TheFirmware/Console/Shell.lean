import TheFirmware.Console.Console
import TheFirmware.Console.PrintNumber
import TheFirmware.Core.LineEditing

/-!
# The console

The loop of `console_main` with the functions it calls: `readline` into a buffer of 60 bytes, both
passes of `console_parse_command` over the buffer, the search for the command with `strcmp`, the
call through the pointers of `argv`, and the messages. `shell` is what that is for, without buffers
and pointers: the line that was typed is split into words, and the command with the name of the
first word is called with the words.

The loop shows and does what the shell does, whatever the commands are and whatever was in the
buffer, line after line, and writes nothing outside the buffer (`console_shell`).
-/

namespace TheFirmware.Console

open CString (ascii StringAt)
open Cells Strings Readline

variable {σ : Type}

/-! ## The loop -/

/-- What has been written to the file of the console, and the state that the commands change. -/
structure Screen (σ : Type) : Type where
  output : Str
  state : σ

/-- `struct console_cmd` -/
structure ConsoleCmd (σ : Type) : Type where
  name : Str
  func : List Str → Screen σ → Int32 × Screen σ

/-- The console: the memory from `buf` on, and the bytes that are still to be read from its file. -/
structure Terminal (σ : Type) : Type where
  memory : Nat → UInt8
  input : Str
  screen : Screen σ

/-- `write` to the file of the console -/
def Screen.show (s : Screen σ) (text : Str) : Screen σ := { s with output := s.output ++ text }

/-- `fprintf` to the file of the console -/
def Screen.fprintf (s : Screen σ) (format : String) (args : List Printf.Arg) :
    Except Fault (Screen σ) := do
  let output ← Printf.printf Printf.recorder format args s.output
  return { s with output }

/-- The string at a pointer, as a command reads it. -/
def loadStr (memory : Nat → UInt8) : Nat → Nat → Except Fault Str
  | 0, _ => .error .outOfFuel
  | fuel + 1, p =>
    if memory p = 0 then .ok []
    else do
      let rest ← loadStr memory fuel (p + 1)
      return memory p :: rest

/-- The elements of an array of `argc` pointers, each of which must have been assigned to. -/
def loadArgv (argv : List (Nat × Nat)) (argc : Nat) : Except Fault (List Nat) :=
  (List.range argc).mapM fun i =>
    match argv.lookup i with
    | some p => .ok p
    | none => .error .outOfBounds

section Loop

variable (cmds : List (ConsoleCmd σ))

/-- The call of a command. -/
def callCommand (args : List Str) (s : Screen σ) : Except Fault (Screen σ) :=
  match cmds.find? fun cmd => strcmp cmd.name (args.headD []) = 0 with
  | none => s.fprintf "command not found\r\n" []
  | some cmd =>
    let (ret, s) := cmd.func args s
    if ret ≠ 0 then s.fprintf "command exited with %d\r\n" [.word ret.toUInt32] else .ok s

/-- The body of the loop of `console_main`. -/
def consoleMainBody (fuel : Nat) (s : Terminal σ) : Except Fault (Terminal σ) := do
  let s := { s with screen := s.screen.show (ascii "> ") }
  let (res, line, input) := readline 60 s.memory s.input
  let s : Terminal σ := { memory := line.buffer, input, screen := s.screen.show line.echo }
  if res < 0 then
    let screen ← s.screen.fprintf "error reading\r\n" []
    return { s with screen }
  else
    let counted ← consoleParseCommand false fuel 0 s.memory
    let s := { s with memory := counted.memory }
    if counted.argc = 0 then return s
    else
      let parsed ← consoleParseCommand true fuel 0 s.memory
      let s := { s with memory := parsed.memory }
      let argv ← loadArgv parsed.argv parsed.argc
      let args ← argv.mapM (loadStr s.memory fuel)
      let screen ← callCommand cmds args s.screen
      return { s with screen }

/-- A number of iterations of the loop of `console_main`. -/
def consoleMain (fuel : Nat) : Nat → Terminal σ → Except Fault (Terminal σ)
  | 0, s => .ok s
  | n + 1, s => do
    let s ← consoleMainBody cmds fuel s
    consoleMain fuel n s

/-! ## The shell -/

/-- What the terminal is sent for a key. -/
def keyEcho (line : Str) : Key → Str
  | .char c _ => [c]
  | .backspace _ _ => if line = [] then [] else ascii "\x1b[1D\x1b[K"
  | .control .. => []

/-- What the terminal is sent for keys. -/
def shown : Str → List Key → Str
  | _, [] => []
  | line, k :: keys => keyEcho line k ++ shown (k.edit line) keys

/-- A number in base 10. -/
def decimal (n : Int) : Str :=
  (if n < 0 then ascii "-" else []) ++ Printf.positional 10 n.natAbs

/-- The command with the name of the first word is called with the words. -/
def runWords (words : List Str) (s : Screen σ) : Screen σ :=
  match words with
  | [] => s
  | name :: args =>
    match cmds.find? (·.name = name) with
    | none => s.show (ascii "command not found\r\n")
    | some cmd =>
      let (ret, s) := cmd.func (name :: args) s
      if ret = 0 then s
      else s.show (ascii "command exited with " ++ decimal ret.toInt ++ ascii "\r\n")

/-- A line is typed and carried out. -/
def shell (keys : List Key) (s : Screen σ) : Screen σ :=
  runWords cmds (words (edited keys)) (s.show (ascii "> " ++ shown [] keys ++ ascii "\r\n"))

end Loop

/-! ## Reading a line -/

section Read

variable {len : UInt32} {line params rest : Str} {l : Line} {k : Key} {keys : List Key}

theorem readlineLoop_params (none : ∀ c ∈ params, isalpha c = false) (i : Nat) (l : Line)
    (rest : Str) : readlineLoop len .sequence i l (params ++ rest) =
      readlineLoop len .sequence i l rest := by
  induction params with
  | nil => rfl
  | cons c params ih =>
    obtain ⟨other, none⟩ := List.forall_mem_cons.mp none
    rw [List.cons_append, readlineLoop, other, if_neg Bool.false_ne_true, ih none]

/-- A line has been typed into a buffer, which was `start`, and shown. -/
structure Typed (start : Nat → UInt8) (len : UInt32) (line text : Str) (l : Line) : Prop where
  held : Holds l.buffer 0 line
  echo : l.echo = text
  outside : ∀ x, (len - 1).toNat ≤ x → l.buffer x = start x

variable {start : Nat → UInt8} {text : Str}

/-- A key is typed. -/
theorem Typed.key (typed : Typed start len line text l) (short : line.length < (len - 1).toNat)
    (heard : k.swallows = false) (rest : Str) :
    ∃ l', readlineLoop len .text line.length l (k.bytes ++ rest) =
        readlineLoop len .text (k.edit line).length l' rest ∧
      Typed start len (k.edit line) (text ++ keyEcho line k) l' := by
  cases k with
  | char c printable =>
    obtain ⟨carriage, feed, abort, back, escape, -⟩ := Key.char_plain printable
    refine ⟨(l.write [c]).store line.length c, ?_, ?_, ?_, ?_⟩
    · show readlineLoop len .text line.length l (c :: rest) = _
      rw [readlineLoop, if_pos short, if_neg (not_or.mpr ⟨carriage, feed⟩), if_neg back,
        if_neg abort, if_neg escape]
      show _ = readlineLoop len .text (line ++ [c]).length _ rest
      rw [List.length_append]
      rfl
    · show Holds (Function.update l.buffer line.length c) 0 (line ++ [c])
      rw [holds_append_iff, holds_singleton_iff, Nat.zero_add]
      refine ⟨typed.held.congr fun i inside => ?_, Function.update_self ..⟩
      exact Function.update_of_ne (by omega) _ _
    · show l.echo ++ [c] = _
      rw [typed.echo]
      rfl
    · intro x outside
      exact (Function.update_of_ne (by omega) _ _).trans (typed.outside x outside)
  | backspace c known =>
    have notNewline : ¬ (c = 0x0D ∨ c = 0x0A) := by
      rcases known with rfl | rfl
      · decide
      · decide
    have first : readlineLoop len .text line.length l (c :: rest) =
        if line.length > 0 then
          readlineLoop len .text (line.length - 1) (l.write (ascii "\x1b[1D\x1b[K")) rest
        else readlineLoop len .text line.length l rest := by
      rw [readlineLoop, if_pos short, if_neg notNewline, if_pos known.symm]
    have shorter : Holds l.buffer 0 line.dropLast := by
      rw [Holds, List.length_dropLast, typed.held.read_take (Nat.sub_le ..), List.dropLast_eq_take]
    show ∃ l', readlineLoop len .text line.length l (c :: rest) =
        readlineLoop len .text line.dropLast.length l' rest ∧ _
    rw [first, List.length_dropLast]
    by_cases none : line = []
    · rw [none]
      refine ⟨l, rfl, ?_, ?_, typed.outside⟩
      · exact rfl
      · rw [typed.echo]
        exact (List.append_nil text).symm
    · rw [if_pos (List.length_pos_of_ne_nil none)]
      refine ⟨_, rfl, shorter, ?_, typed.outside⟩
      show l.echo ++ _ = text ++ keyEcho line (.backspace c known)
      rw [typed.echo, keyEcho, if_neg none]
  | control params final between ends =>
    have letter : isalpha final = true := by simpa [Key.swallows] using heard
    refine ⟨l, ?_, typed.held, ?_, typed.outside⟩
    · have bytes : Key.bytes (.control params final between ends) ++ rest =
          0x1B :: 0x5B :: (params ++ final :: rest) := by
        simp [Key.bytes]
      rw [bytes, readlineLoop, if_pos short, if_neg (by decide), if_neg (by decide),
        if_neg (by decide), if_pos rfl, readlineLoop, if_pos rfl,
        readlineLoop_params (Key.not_isalpha_params between), readlineLoop, if_pos letter]
      rfl
    · rw [typed.echo]
      exact (List.append_nil text).symm

/-- The keys of a line are typed. -/
theorem Typed.all (typed : Typed start len line text l) (short : Short len line keys)
    (heard : ∀ k ∈ keys, k.swallows = false) (rest : Str) :
    ∃ l', readlineLoop len .text line.length l (bytes keys ++ rest) =
        readlineLoop len .text (keys.foldl Key.edit line).length l' rest ∧
      Typed start len (keys.foldl Key.edit line) (text ++ shown line keys) l' := by
  induction keys generalizing line text l with
  | nil =>
    refine ⟨l, rfl, typed.held, ?_, typed.outside⟩
    rw [typed.echo]
    exact (List.append_nil text).symm
  | cons k keys ih =>
    obtain ⟨first, heard⟩ := List.forall_mem_cons.mp heard
    obtain ⟨l₁, ran, typed₁⟩ := typed.key (short [] List.nil_prefix) first (bytes keys ++ rest)
    obtain ⟨l₂, ran₂, typed₂⟩ := ih typed₁ short.tail heard
    refine ⟨l₂, ?_, typed₂.held, ?_, typed₂.outside⟩
    · rw [bytes_cons, ran, ran₂]
      rfl
    · rw [typed₂.echo, List.append_assoc]
      rfl

/-- A line is read, with its NUL behind it, and nothing is written outside the buffer. -/
theorem readline_typed (few : (edited keys).length + 3 ≤ len.toNat) (short : Short len [] keys)
    (heard : ∀ k ∈ keys, k.swallows = false) {c : UInt8} (newline : c = 0x0D ∨ c = 0x0A)
    (start : Nat → UInt8) (rest : Str) :
    ∃ l, readline len start (bytes keys ++ c :: rest) =
        (toInt ((edited keys).length + 1), l, rest) ∧
      Holds l.buffer 0 (edited keys ++ [0]) ∧ l.echo = shown [] keys ++ ascii "\r\n" ∧
      ∀ x, len.toNat ≤ x → l.buffer x = start x := by
  have typed : Typed start len [] [] ⟨start, [], []⟩ := ⟨rfl, rfl, fun _ _ => rfl⟩
  obtain ⟨l, ran, typed⟩ := typed.all short heard (c :: rest)
  have room : (edited keys).length < (len - 1).toNat := short keys List.prefix_rfl
  have whole : readlineLoop len .text (edited keys).length l (c :: rest) =
      (toInt ((edited keys).length + 1),
        ((l.store (edited keys).length 0).write (ascii "\r\n")).store ((edited keys).length + 2) 0,
        rest) := by
    rw [readlineLoop, if_pos room, if_pos newline]
    rfl
  refine ⟨_, ran.trans whole, ?_, ?_, ?_⟩
  · show Holds (Function.update (Function.update l.buffer (edited keys).length 0)
      ((edited keys).length + 2) 0) 0 _
    rw [holds_append_iff, holds_singleton_iff, Nat.zero_add]
    refine ⟨typed.held.congr fun i inside => ?_, ?_⟩
    · have small : i < (edited keys).length := inside
      rw [Function.update_of_ne (by omega), Function.update_of_ne (by omega)]
    · rw [Function.update_of_ne (by omega), Function.update_self]
  · show l.echo ++ _ = _
    rw [typed.echo]
    rfl
  · intro x outside
    have limit : (len - 1).toNat + 1 = len.toNat :=
      toNat_sub_one
        (UInt32.le_iff_toNat_le.mpr (Nat.le_trans (by decide) (Nat.le_of_add_left_le few)))
    show Function.update (Function.update l.buffer (edited keys).length 0) _ 0 x = start x
    rw [Function.update_of_ne (by omega), Function.update_of_ne (by omega),
      typed.outside x (by omega)]

end Read

/-! ## Calling a command -/

section Call

variable {memory : Nat → UInt8} {p : Nat} {str : Str} {argv : List Nat} {strs : List Str}

theorem loadStr_returns (there : StringAt memory p str) :
    Returns (fun fuel => loadStr memory fuel p) str := by
  induction str generalizing p with
  | nil =>
    have nul : memory p = 0 := holds_singleton_iff.mp there.held
    apply Returns.succ
    simp only [loadStr, if_pos nul]
    exact Returns.ok []
  | cons c str ih =>
    obtain ⟨here, held⟩ := holds_cons_iff.mp there.held
    obtain ⟨first, nonzero⟩ := not_or.mp (fun either => there.nonzero (List.mem_cons.mpr either))
    have other : memory p ≠ 0 := by
      rw [here]
      exact Ne.symm first
    apply Returns.succ
    simp only [loadStr, if_neg other]
    apply (ih ⟨held, nonzero⟩).bind
    rw [here]
    exact Returns.ok _

theorem loadStrs_returns (there : List.Forall₂ (StringAt memory) argv strs) :
    Returns (fun fuel => argv.mapM (loadStr memory fuel)) strs := by
  induction there with
  | nil => exact Returns.ok []
  | cons first _ ih =>
    simp only [List.mapM_cons]
    exact (loadStr_returns first).bind (ih.bind (Returns.ok _))

theorem lookup_zip_range' (k : Nat) {i : Nat} (inside : i < argv.length) :
    ((List.range' k argv.length).zip argv).lookup (k + i) = some (argv.getD i 0) := by
  induction argv generalizing k i with
  | nil => cases inside
  | cons p argv ih =>
    rw [List.length_cons, List.range'_succ, List.zip_cons_cons, List.lookup_cons]
    cases i with
    | zero => simp
    | succ i =>
      have other : (k + (i + 1) == k) = false := by simp
      rw [other]
      have rest := ih (k + 1) (Nat.lt_of_succ_lt_succ inside)
      rw [Nat.add_assoc, Nat.add_comm 1 i] at rest
      exact rest

theorem mapM_ok {α β : Type} {f : α → Except Fault β} {g : α → β} {xs : List α}
    (returns : ∀ x ∈ xs, f x = .ok (g x)) : xs.mapM f = .ok (xs.map g) := by
  induction xs with
  | nil => rfl
  | cons x xs ih =>
    obtain ⟨first, rest⟩ := List.forall_mem_cons.mp returns
    rw [List.mapM_cons, first, Except.ok_bind, ih rest]
    rfl

/-- All elements of the array have been assigned to. -/
theorem loadArgv_zip (argv : List Nat) :
    loadArgv ((List.range argv.length).zip argv) argv.length = .ok argv := by
  have each : ∀ i ∈ List.range argv.length,
      (match ((List.range argv.length).zip argv).lookup i with
        | some p => (.ok p : Except Fault Nat)
        | none => .error .outOfBounds) = .ok (argv.getD i 0) := by
    intro i mem
    have there := lookup_zip_range' 0 (List.mem_range.mp mem)
    rw [Nat.zero_add, ← List.range_eq_range'] at there
    rw [there]
  have all : (List.range argv.length).map (fun i => argv.getD i 0) = argv := by
    refine List.ext_getElem (by simp) fun i _ inside => ?_
    simp [List.getElem?_eq_getElem inside]
  rw [loadArgv, mapM_ok each, all]

/-! ### The messages -/

theorem renderWord_decimal (n : Int32) :
    Printf.renderWord 0x64 n.toUInt32 = decimal n.toInt := by
  have numeral : ∀ v : UInt32, Printf.numeral 10 v = Printf.positional 10 v.toNat := by
    intro v
    have bound := v.toNat_lt
    have fits : v.toNat < (10 : UInt8).toNat ^ (24 + 1) := Nat.lt_trans bound (by decide)
    have digits : Printf.printDigits (10 : UInt8).toUInt32 (24 + 1) v [] =
        Printf.positional 10 v.toNat ++ [] :=
      Printf.printDigits_eq (by decide) (by decide) fits
    rw [List.append_nil] at digits
    exact digits
  have value : n.toInt = if n.toUInt32.toNat < 2 ^ 31 then (n.toUInt32.toNat : Int)
      else n.toUInt32.toNat - 2 ^ 32 := by
    have same : n.toBitVec.toNat = n.toUInt32.toNat := rfl
    show n.toBitVec.toInt = _
    rw [BitVec.toInt_eq_toNat_cond, same]
    split_ifs <;> omega
  have bound := n.toUInt32.toNat_lt
  have border : (0x80000000 : UInt32) ≤ n.toUInt32 ↔ ¬ n.toUInt32.toNat < 2 ^ 31 := by
    rw [UInt32.le_iff_toNat_le]
    exact Nat.not_lt.symm
  unfold Printf.renderWord decimal
  rw [if_neg (by decide), value]
  by_cases small : n.toUInt32.toNat < 2 ^ 31
  · rw [if_neg (fun high => border.mp high small), if_pos small, if_neg (by omega), numeral,
      Int.natAbs_natCast]
    rfl
  · have negated : (- n.toUInt32).toNat = 2 ^ 32 - n.toUInt32.toNat := by
      have size : UInt32.size = 2 ^ 32 := rfl
      rw [UInt32.toNat_neg, size]
      omega
    rw [if_pos (border.mpr small), if_neg small, if_pos (by omega), numeral, negated]
    congr 2
    omega

theorem fprintf_plain (s : Screen σ) {format : String}
    (suited : Printf.suits (ascii format) [] = true)
    (plain : Printf.render (ascii format) [] = ascii format) :
    s.fprintf format [] = .ok (s.show (ascii format)) := by
  rw [Screen.fprintf, Printf.printf_recorder suited, plain]
  rfl

theorem fprintf_exited (s : Screen σ) (ret : Int32) :
    s.fprintf "command exited with %d\r\n" [.word ret.toUInt32] =
      .ok (s.show (ascii "command exited with " ++ decimal ret.toInt ++ ascii "\r\n")) := by
  have text : Printf.render (ascii "command exited with %d\r\n") [.word ret.toUInt32] =
      ascii "command exited with " ++ (Printf.renderWord 0x64 ret.toUInt32 ++ ascii "\r\n") := by
    rfl
  have suited : Printf.suits (ascii "command exited with %d\r\n") [.word ret.toUInt32] = true := by
    rfl
  rw [Screen.fprintf, Printf.printf_recorder suited, text, renderWord_decimal, List.append_assoc]
  rfl

theorem strcmp_eq_zero_iff_right {s₁ s₂ : Str} (short : s₂.length < sizeMax) :
    strcmp s₁ s₂ = 0 ↔ s₁ = s₂ := by
  have turned : strcmp s₁ s₂ = 0 ↔ strcmp s₂ s₁ = 0 := by
    rw [strcmp, strcmp, strncmp_eq_zero_iff, strncmp_eq_zero_iff]
    exact eq_comm
  rw [turned, strcmp_eq_zero_iff short]
  exact eq_comm

/-- The command is the one with the name of the first word. -/
theorem callCommand_words (cmds : List (ConsoleCmd σ)) {name : Str} (args : List Str) (s : Screen σ)
    (short : name.length < sizeMax) :
    callCommand cmds (name :: args) s = .ok (runWords cmds (name :: args) s) := by
  have found : (cmds.find? fun cmd => strcmp cmd.name ((name :: args).headD []) = 0) =
      cmds.find? (·.name = name) := by
    congr 1
    funext cmd
    exact decide_eq_decide.mpr (strcmp_eq_zero_iff_right short)
  unfold callCommand runWords
  dsimp only
  rw [found]
  cases cmds.find? (·.name = name) with
  | none => exact fprintf_plain s rfl rfl
  | some cmd =>
    show (if (cmd.func (name :: args) s).1 ≠ 0 then _ else _) =
      Except.ok (if (cmd.func (name :: args) s).1 = 0 then _ else _)
    by_cases zero : (cmd.func (name :: args) s).1 = 0
    · rw [if_neg (not_not.mpr zero), if_pos zero]
    · rw [if_pos zero, if_neg zero]
      exact fprintf_exited _ _

end Call

/-! ## One line -/

/-- A line that is typed: its keys and the newline. Every control sequence ends with a letter, and
the line never fills the buffer and has room for its NUL and the byte behind it at the end. -/
structure Entry : Type where
  keys : List Key
  newline : UInt8
  isNewline : newline = 0x0D ∨ newline = 0x0A
  letters : ∀ k ∈ keys, k.swallows = false
  short : Short 60 [] keys
  fits : (edited keys).length + 3 ≤ 60

/-- What the terminal sends for a line. -/
def Entry.bytes (entry : Entry) : Str := Readline.bytes entry.keys ++ [entry.newline]

section Lines

variable (cmds : List (ConsoleCmd σ))

theorem length_le_of_mem_words {line word : Str} (mem : word ∈ words line) :
    word.length ≤ line.length := by
  induction line using line_induction with
  | blank spaces all =>
    rw [words_blank all] at mem
    cases mem
  | last spaces first all noSpace nonempty =>
    rw [words_spaces all, words_word noSpace nonempty] at mem
    rw [List.mem_singleton.mp mem, List.length_append]
    exact Nat.le_add_left _ _
  | more spaces first rest all noSpace nonempty ih =>
    rw [words_spaces all, words_word_space noSpace nonempty] at mem
    simp only [List.length_append, List.length_cons]
    rcases List.mem_cons.mp mem with rfl | mem
    · omega
    · have shorter := ih mem
      omega

/-- An iteration of the loop carries out the line that is typed. -/
theorem consoleMainBody_entry (entry : Entry) (memory : Nat → UInt8) (rest : Str) (s : Screen σ) :
    ∃ memory', Returns (fun fuel => consoleMainBody cmds fuel ⟨memory, entry.bytes ++ rest, s⟩)
        ⟨memory', rest, shell cmds entry.keys s⟩ ∧ ∀ x, 60 ≤ x → memory' x = memory x := by
  have enough : (edited entry.keys).length + 3 ≤ (60 : UInt32).toNat := entry.fits
  obtain ⟨l, ran, held, echoed, outside⟩ :=
    readline_typed enough entry.short entry.letters entry.isNewline memory rest
  have input : entry.bytes ++ rest = bytes entry.keys ++ entry.newline :: rest := by
    rw [Entry.bytes, List.append_assoc]
    rfl
  have there : StringAt l.buffer 0 (edited entry.keys) :=
    ⟨held, edited_nonzero List.not_mem_nil entry.keys⟩
  obtain ⟨argc, argv, memory', counted, filled, length, strings, frame⟩ :=
    consoleParseCommand_words there
  have fits := entry.fits
  have kept : ∀ x, 60 ≤ x → memory' x = memory x := by
    intro x beyond
    rw [frame x (.inr (by omega)), outside x beyond]
  have positive : ¬ toInt ((edited entry.keys).length + 1) < 0 := by
    unfold toInt Int.bmod
    dsimp only
    split_ifs <;> omega
  have screen : (s.show (ascii "> ")).show l.echo =
      s.show (ascii "> " ++ shown [] entry.keys ++ ascii "\r\n") := by
    rw [echoed]
    simp only [Screen.show, List.append_assoc]
  unfold consoleMainBody shell
  simp only [input, ran, positive, if_false, screen]
  generalize s.show (ascii "> " ++ shown [] entry.keys ++ ascii "\r\n") = s'
  by_cases none : argc = 0
  · have noWords : words (edited entry.keys) = [] := by
      rw [← List.length_eq_zero_iff, ← strings.length_eq, length, none]
    refine ⟨l.buffer, counted.bind ?_, outside⟩
    simp only [none, if_true, noWords, runWords]
    exact Returns.ok _
  · refine ⟨memory', counted.bind ?_, kept⟩
    simp only [none, if_false]
    apply filled.bind
    have assigned : loadArgv ((List.range argc).zip argv) argc = .ok argv := by
      rw [← length]
      exact loadArgv_zip argv
    simp only [assigned, Except.ok_bind]
    apply (loadStrs_returns strings).bind
    obtain ⟨name, args, eq⟩ : ∃ name args, words (edited entry.keys) = name :: args := by
      refine List.exists_cons_of_ne_nil fun noWords => none ?_
      rw [← length, strings.length_eq, noWords]
      rfl
    have short : name.length < sizeMax := by
      have le := length_le_of_mem_words (eq ▸ List.mem_cons_self : name ∈ words (edited entry.keys))
      have limit : sizeMax = 2 ^ 32 - 1 := rfl
      omega
    rw [eq]
    simp only [callCommand_words cmds args _ short, Except.ok_bind]
    exact Returns.ok _

/-- **The console is the shell**: whatever lines are typed (`Entry`), with whatever commands and
whatever there was in the buffer, as many iterations of the loop of `console_main` show and do what
the shell does for one line after the other: they read the lines and no more, call the commands with
the words that were typed, and write nothing outside the buffer. -/
theorem console_shell (entries : List Entry) (memory : Nat → UInt8)
    (rest : Str) (s : Screen σ) :
    ∃ memory', Returns (fun fuel => consoleMain cmds fuel entries.length
          ⟨memory, entries.flatMap Entry.bytes ++ rest, s⟩)
        ⟨memory', rest, entries.foldl (fun s entry => shell cmds entry.keys s) s⟩ ∧
      ∀ x, 60 ≤ x → memory' x = memory x := by
  induction entries generalizing memory s with
  | nil => exact ⟨memory, Returns.ok _, fun _ _ => rfl⟩
  | cons entry entries ih =>
    obtain ⟨memory₁, first, outside₁⟩ :=
      consoleMainBody_entry cmds entry memory (entries.flatMap Entry.bytes ++ rest) s
    obtain ⟨memory₂, others, outside₂⟩ := ih memory₁ (shell cmds entry.keys s)
    have input : (entry :: entries).flatMap Entry.bytes ++ rest =
        entry.bytes ++ (entries.flatMap Entry.bytes ++ rest) := by
      rw [List.flatMap_cons, List.append_assoc]
    refine ⟨memory₂, ?_, fun x beyond => (outside₂ x beyond).trans (outside₁ x beyond)⟩
    rw [input]
    exact first.bind others

/-- `hi`, with a command that returns 2, and a key that is taken back. -/
example : (shell [⟨ascii "hi", fun _ s => (2, s)⟩]
    [.char 0x68 (by decide), .char 0x6F (by decide), .backspace 0x7F (by decide),
      .char 0x69 (by decide)] ⟨[], ()⟩).output =
    ascii "> ho\x1b[1D\x1b[Ki\r\ncommand exited with 2\r\n" := by decide +kernel

end Lines

end TheFirmware.Console
