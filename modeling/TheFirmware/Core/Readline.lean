import TheFirmware.Core.String

/-!
# `readline` of `core/string.c`

The input is what `read` returns, one byte after the other, and its end is a read that fails; the
buffer is the memory from `buffer` on, of which the caller owns `len` bytes. `Editor` says what the
bytes mean, without a buffer, and `readlineLoop` keeps its line in the buffer (`Editing`).

At the end the NUL is put behind the byte that the index has been moved to already, so that a line
of `len - 2` characters is terminated in the right place but a further byte is written behind the
buffer, and a line of `len - 1` characters is not terminated at all. Ctrl-C returns an empty line
without a NUL. `readline_safe_iff` says when none of this happens.
-/

namespace TheFirmware.Readline

open CString (ascii)
open Cells Strings

/-- Where the loop is when it reads the next byte: at its head, behind an escape character, or in a
control sequence. -/
inductive Mode : Type
  | text
  | escape
  | sequence
  deriving DecidableEq, Repr

/-- The memory from `buffer` on, the places in it that have been written to, and what has been
written to the file. -/
structure Line : Type where
  buffer : Nat → UInt8
  stores : List Nat
  echo : Str

namespace Line

/-- `buffer[i] = c` -/
def store (l : Line) (i : Nat) (c : UInt8) : Line :=
  { l with buffer := Function.update l.buffer i c, stores := i :: l.stores }

/-- `write(file, text, strlen(text))` -/
def write (l : Line) (text : Str) : Line := { l with echo := l.echo ++ text }

end Line

/-- A `size_t` that is returned as an `int`. -/
def toInt (i : Nat) : Int := (i : Int).bmod (2 ^ 32)

/-- What is behind the loop: the result, the buffer and the input that has not been read. -/
def readlineEnd (i : Nat) (l : Line) (input : Str) : Int × Line × Str :=
  (toInt i, l.store (i + 1) 0, input)

/-- The loop of `readline`. -/
def readlineLoop (len : UInt32) : Mode → Nat → Line → Str → Int × Line × Str
  | .text, i, l, [] => if i < (len - 1).toNat then (-1, l, []) else readlineEnd i l []
  | .escape, _, l, [] => (-1, l, [])
  | .sequence, _, l, [] => (-1, l, [])
  | .text, i, l, c :: input =>
    if i < (len - 1).toNat then
      if c = 0x0D ∨ c = 0x0A then
        readlineEnd (i + 1) ((l.store i 0).write (ascii "\r\n")) input
      else if c = 0x7F ∨ c = 0x08 then
        if i > 0 then readlineLoop len .text (i - 1) (l.write (ascii "\x1b[1D\x1b[K")) input
        else readlineLoop len .text i l input
      else if c = 0x03 then (0, l.write (ascii "\r\n"), input)
      else if c = 0x1B then readlineLoop len .escape i l input
      else readlineLoop len .text (i + 1) ((l.write [c]).store i c) input
    else readlineEnd i l (c :: input)
  | .escape, i, l, c :: input =>
    -- a `[` is no letter, so that the loop behind it reads at least one byte
    if c = 0x5B then readlineLoop len .sequence i l input else readlineLoop len .text i l input
  | .sequence, i, l, c :: input =>
    if isalpha c then readlineLoop len .text i l input else readlineLoop len .sequence i l input

/-- `readline` -/
def readline (len : UInt32) (buffer : Nat → UInt8) (input : Str) : Int × Line × Str :=
  readlineLoop len .text 0 ⟨buffer, [], []⟩ input

/-! ## The line that is edited -/

/-- The line so far, and the byte that is in the first place of the buffer. -/
structure Editor : Type where
  mode : Mode
  line : Str
  first : UInt8

namespace Editor

/-- A byte that does not end the line. -/
def type (e : Editor) (c : UInt8) : Editor :=
  match e.mode with
  | .text =>
    if c = 0x7F ∨ c = 0x08 then { e with line := e.line.dropLast }
    else if c = 0x1B then { e with mode := .escape }
    else { e with line := e.line ++ [c], first := if e.line = [] then c else e.first }
  | .escape => { e with mode := if c = 0x5B then .sequence else .text }
  | .sequence => { e with mode := if isalpha c then .text else .sequence }

/-- The line fills the buffer, but for one byte. -/
def Full (len : UInt32) (e : Editor) : Prop := e.mode = .text ∧ (len - 1).toNat ≤ e.line.length

instance (len : UInt32) (e : Editor) : Decidable (e.Full len) := inferInstanceAs (Decidable (_ ∧ _))

end Editor

/-- How a line ends: a read fails, or a newline or Ctrl-C comes, or the line gets too long. -/
inductive Ending : Type
  | failed
  | newline (line : Str)
  | aborted (first : UInt8)
  | full (line : Str)
  deriving DecidableEq, Repr

/-- How the line ends for this input. -/
def ending (len : UInt32) (e : Editor) : Str → Ending
  | [] => if e.Full len then .full e.line else .failed
  | c :: input =>
    if e.Full len then .full e.line
    else if e.mode = .text ∧ (c = 0x0D ∨ c = 0x0A) then .newline e.line
    else if e.mode = .text ∧ c = 0x03 then .aborted e.first
    else ending len (e.type c) input

/-- The line that has been edited: that is the empty one after Ctrl-C. -/
def Ending.line : Ending → Str
  | .failed => []
  | .newline line => line
  | .aborted _ => []
  | .full line => line

/-! ## The buffer holds the line -/

/-- The loop is at index `i` and keeps the line of the editor in the buffer. -/
structure Editing (len : UInt32) (e : Editor) (i : Nat) (l : Line) : Prop where
  index : i = e.line.length
  short : e.line.length ≤ (len - 1).toNat
  open_ : e.mode ≠ .text → e.line.length < (len - 1).toNat
  held : Holds l.buffer 0 e.line
  first : l.buffer 0 = e.first
  inside : ∀ k ∈ l.stores, k < (len - 1).toNat

/-- What the loop leaves behind, for every way the line can end. -/
def Ending.Left (len : UInt32) (result : Int) (l : Line) : Ending → Prop
  | .failed => result = -1 ∧ ∀ k ∈ l.stores, k < (len - 1).toNat
  | .newline line =>
    result = toInt (line.length + 1) ∧ Holds l.buffer 0 (line ++ [0]) ∧
      line.length < (len - 1).toNat ∧ line.length + 2 ∈ l.stores ∧
      ∀ k ∈ l.stores, k < (len - 1).toNat ∨ k = line.length + 2
  | .aborted first =>
    result = 0 ∧ l.buffer 0 = first ∧ ∀ k ∈ l.stores, k < (len - 1).toNat
  | .full line =>
    result = toInt line.length ∧ Holds l.buffer 0 line ∧ line.length = (len - 1).toNat ∧
      (len - 1).toNat + 1 ∈ l.stores

section Steps

variable {len : UInt32} {e : Editor} {i : Nat} {l : Line} {c : UInt8}

theorem Editing.echo (editing : Editing len e i l) (text : Str) : Editing len e i (l.write text) :=
  ⟨editing.index, editing.short, editing.open_, editing.held, editing.first, editing.inside⟩

/-- The byte in front of the index is given up. -/
theorem Editing.back (editing : Editing len e i l) :
    Editing len { e with line := e.line.dropLast } (i - 1) l where
  index := by rw [editing.index, List.length_dropLast]
  short := by
    rw [List.length_dropLast]
    exact Nat.le_trans (Nat.sub_le ..) editing.short
  open_ := fun other => by
    rw [List.length_dropLast]
    exact Nat.lt_of_le_of_lt (Nat.sub_le ..) (editing.open_ other)
  held := by
    have shorter : e.line.length - 1 ≤ e.line.length := Nat.sub_le ..
    rw [Holds, List.length_dropLast, editing.held.read_take shorter, List.dropLast_eq_take]
  first := editing.first
  inside := editing.inside

/-- A byte is put behind the line. -/
theorem Editing.push (editing : Editing len e i l) (text : e.mode = .text)
    (room : i < (len - 1).toNat) :
    Editing len
      { e with line := e.line ++ [c], first := if e.line = [] then c else e.first } (i + 1)
      (l.store i c) where
  index := by rw [List.length_append, editing.index]; rfl
  short := by
    rw [List.length_append, ← editing.index]
    exact room
  open_ := fun other => absurd text other
  held := by
    rw [holds_append_iff, holds_singleton_iff, Nat.zero_add, ← editing.index]
    refine ⟨editing.held.congr fun k inside => ?_, Function.update_self ..⟩
    exact Function.update_of_ne (by rw [Nat.zero_add, editing.index]; omega) _ _
  first := by
    rcases line : e.line with _ | ⟨b, line⟩
    · have start : i = 0 := by rw [editing.index, line]; rfl
      rw [if_pos rfl, start]
      exact Function.update_self 0 c l.buffer
    · have later : 0 ≠ i := by rw [editing.index, line]; exact (Nat.succ_ne_zero _).symm
      rw [if_neg (List.cons_ne_nil _ _), ← editing.first]
      exact Function.update_of_ne later _ _
  inside := List.forall_mem_cons.mpr ⟨room, editing.inside⟩

/-- The NUL behind the loop. -/
theorem left_newline (editing : Editing len e i l) (room : i < (len - 1).toNat) (input : Str) :
    (Ending.newline e.line).Left len
      (readlineEnd (i + 1) ((l.store i 0).write (ascii "\r\n")) input).1
      (readlineEnd (i + 1) ((l.store i 0).write (ascii "\r\n")) input).2.1 := by
  have index := editing.index
  subst index
  unfold readlineEnd
  dsimp only [Ending.Left]
  refine ⟨rfl, ?_, room, List.mem_cons_self, ?_⟩
  · have kept : ∀ k, k < e.line.length + 1 →
        Function.update (Function.update l.buffer e.line.length 0) (e.line.length + 1 + 1) 0
          (0 + k) = Function.update l.buffer e.line.length 0 (0 + k) := fun k small =>
      Function.update_of_ne (by omega) _ _
    have held : Holds (Function.update l.buffer e.line.length 0) 0 (e.line ++ [0]) := by
      rw [holds_append_iff, holds_singleton_iff, Nat.zero_add]
      refine ⟨editing.held.congr fun k inside => ?_, Function.update_self ..⟩
      exact Function.update_of_ne (by omega) _ _
    exact held.congr fun k inside => kept k (by simpa using inside)
  · intro k mem
    rcases List.mem_cons.mp mem with rfl | mem
    · exact .inr rfl
    · rcases List.mem_cons.mp mem with rfl | mem
      · exact .inl room
      · exact .inl (editing.inside k mem)

theorem left_full (editing : Editing len e i l) (full : ¬ i < (len - 1).toNat) (input : Str) :
    (Ending.full e.line).Left len (readlineEnd i l input).1 (readlineEnd i l input).2.1 := by
  have index := editing.index
  subst index
  have length : e.line.length = (len - 1).toNat :=
    Nat.le_antisymm editing.short (Nat.le_of_not_lt full)
  unfold readlineEnd
  dsimp only [Ending.Left]
  refine ⟨rfl, ?_, length, ?_⟩
  · exact editing.held.congr fun k inside => Function.update_of_ne (by omega) _ _
  · rw [← length]
    exact List.mem_cons_self

theorem Editing.room (editing : Editing len e i l) (text : e.mode = .text)
    (notFull : ¬ e.Full len) : i < (len - 1).toNat := by
  rw [editing.index]
  exact Nat.not_le.mp fun full => notFull ⟨text, full⟩

theorem Editing.beyond (editing : Editing len e i l) (full : e.Full len) :
    ¬ i < (len - 1).toNat := by
  rw [editing.index]
  exact Nat.not_lt.mpr full.2

/-- The mode changes within a line that is not full. -/
theorem Editing.change {mode : Mode} (editing : Editing len e i l) (room : i < (len - 1).toNat) :
    Editing len { e with mode } i l :=
  ⟨editing.index, editing.short, fun _ => editing.index ▸ room, editing.held, editing.first,
    editing.inside⟩

end Steps

section Ending

variable {len : UInt32} {e : Editor} {c : UInt8}

theorem ending_full (full : e.Full len) (input : Str) : ending len e input = .full e.line := by
  cases input with
  | nil => rw [ending, if_pos full]
  | cons c input => rw [ending, if_pos full]

theorem ending_newline (notFull : ¬ e.Full len) (text : e.mode = .text)
    (newline : c = 0x0D ∨ c = 0x0A) (input : Str) :
    ending len e (c :: input) = .newline e.line := by
  rw [ending, if_neg notFull, if_pos ⟨text, newline⟩]

theorem ending_aborted (notFull : ¬ e.Full len) (text : e.mode = .text) (abort : c = 0x03)
    (input : Str) : ending len e (c :: input) = .aborted e.first := by
  subst abort
  have other : ¬ (e.mode = .text ∧ ((0x03 : UInt8) = 0x0D ∨ (0x03 : UInt8) = 0x0A)) :=
    fun both => absurd both.2 (by decide)
  rw [ending, if_neg notFull, if_neg other, if_pos ⟨text, rfl⟩]

theorem ending_type (notFull : ¬ e.Full len)
    (goesOn : e.mode = .text → c ≠ 0x0D ∧ c ≠ 0x0A ∧ c ≠ 0x03) (input : Str) :
    ending len e (c :: input) = ending len (e.type c) input := by
  have noNewline : ¬ (e.mode = .text ∧ (c = 0x0D ∨ c = 0x0A)) := fun both => by
    obtain ⟨carriage, feed, -⟩ := goesOn both.1
    exact both.2.elim carriage feed
  have noAbort : ¬ (e.mode = .text ∧ c = 0x03) := fun both => (goesOn both.1).2.2 both.2
  rw [ending, if_neg notFull, if_neg noNewline, if_neg noAbort]

/-- A byte within an escape or a control sequence. -/
theorem ending_within (within : e.mode ≠ .text) (input : Str) :
    ending len e (c :: input) = ending len (e.type c) input :=
  ending_type (fun full => within full.1) (fun text => absurd text within) input

end Ending

/-- The loop leaves behind what the way the line ends asks for. -/
theorem readlineLoop_left {len : UInt32} {e : Editor} {i : Nat} {l : Line}
    (editing : Editing len e i l) (input : Str) :
    (ending len e input).Left len (readlineLoop len e.mode i l input).1
      (readlineLoop len e.mode i l input).2.1 := by
  induction input generalizing e i l with
  | nil =>
    obtain ⟨mode, line, first⟩ := e
    cases mode with
    | text =>
      rw [ending, readlineLoop]
      rcases Classical.em (Editor.Full len ⟨.text, line, first⟩) with full | notFull
      · rw [if_pos full, if_neg (editing.beyond full)]
        exact left_full editing (editing.beyond full) []
      · rw [if_neg notFull, if_pos (editing.room rfl notFull)]
        exact ⟨rfl, editing.inside⟩
    | escape => exact ⟨rfl, editing.inside⟩
    | sequence => exact ⟨rfl, editing.inside⟩
  | cons c input ih =>
    obtain ⟨mode, line, first⟩ := e
    cases mode with
    | text =>
      rcases Classical.em (Editor.Full len ⟨.text, line, first⟩) with full | notFull
      · rw [ending_full full, readlineLoop, if_neg (editing.beyond full)]
        exact left_full editing (editing.beyond full) _
      have room := editing.room rfl notFull
      rw [readlineLoop, if_pos room]
      rcases Classical.em (c = 0x0D ∨ c = 0x0A) with newline | noNewline
      · rw [ending_newline notFull rfl newline, if_pos newline]
        exact left_newline editing room input
      rw [if_neg noNewline]
      rcases Classical.em (c = 0x03) with abort | noAbort
      · have other : ¬ (c = 0x7F ∨ c = 0x08) := by
          rw [abort]
          decide
        rw [ending_aborted notFull rfl abort, if_neg other, if_pos abort]
        exact ⟨rfl, editing.first, editing.inside⟩
      rw [ending_type notFull fun _ =>
        ⟨fun eq => noNewline (.inl eq), fun eq => noNewline (.inr eq), noAbort⟩]
      rcases Classical.em (c = 0x7F ∨ c = 0x08) with back | other
      · have typed : Editor.type ⟨.text, line, first⟩ c = ⟨.text, line.dropLast, first⟩ :=
          if_pos back
        rw [if_pos back, typed]
        split
        · exact ih (editing.back.echo _)
        · rename_i start
          have same : i - 1 = i := by omega
          have shorter := editing.back
          rw [same] at shorter
          exact ih shorter
      rw [if_neg other, if_neg noAbort]
      rcases Classical.em (c = 0x1B) with escape | plain
      · have typed : Editor.type ⟨.text, line, first⟩ c = ⟨.escape, line, first⟩ :=
          (if_neg other).trans (if_pos escape)
        rw [if_pos escape, typed]
        exact ih (editing.change room)
      · have typed : Editor.type ⟨.text, line, first⟩ c =
            ⟨.text, line ++ [c], if line = [] then c else first⟩ :=
          (if_neg other).trans (if_neg plain)
        rw [if_neg plain, typed]
        exact ih ((editing.echo _).push rfl room)
    | escape =>
      have room : i < (len - 1).toNat := editing.index ▸ editing.open_ (fun same => nomatch same)
      rw [ending_within (by simp), readlineLoop, Editor.type]
      dsimp only
      split
      · exact ih (editing.change room)
      · exact ih (editing.change room)
    | sequence =>
      have room : i < (len - 1).toNat := editing.index ▸ editing.open_ (fun same => nomatch same)
      rw [ending_within (by simp), readlineLoop, Editor.type]
      dsimp only
      split
      · exact ih (editing.change room)
      · exact ih (editing.change room)

/-! ## Staying in the buffer -/

/-- The editor when `readline` is called. -/
def Editor.start (buffer : Nat → UInt8) : Editor := ⟨.text, [], buffer 0⟩

theorem readline_left (len : UInt32) (buffer : Nat → UInt8) (input : Str) :
    (ending len (.start buffer) input).Left len (readline len buffer input).1
      (readline len buffer input).2.1 :=
  readlineLoop_left (e := .start buffer)
    ⟨rfl, Nat.zero_le _, fun other => absurd rfl other, rfl, rfl, List.forall_mem_nil _⟩ input

/-- The line and its NUL fit in the buffer: a newline comes when it has at most `len - 3`
characters; or Ctrl-C when the first byte of the buffer is a NUL; or a read fails before the line
fills the buffer. -/
def Ending.Fits (len : UInt32) : Ending → Prop
  | .failed => True
  | .newline line => line.length + 3 ≤ len.toNat
  | .aborted first => first = 0
  | .full _ => False

theorem toNat_sub_one {len : UInt32} (two : 2 ≤ len) : (len - 1).toNat + 1 = len.toNat := by
  have two : 2 ≤ len.toNat := UInt32.le_iff_toNat_le.mp two
  have bound := len.toNat_lt
  have one : (1 : UInt32).toNat = 1 := rfl
  rw [UInt32.toNat_sub, one]
  omega

/-- `readline` writes only to its buffer, and leaves the line there with a NUL behind it, if and
only if the line fits. -/
theorem readline_safe_iff {len : UInt32} (two : 2 ≤ len) (buffer : Nat → UInt8) (input : Str) :
    ((∀ k ∈ (readline len buffer input).2.1.stores, k < len.toNat) ∧
      (0 ≤ (readline len buffer input).1 → ∃ p < len.toNat,
        (readline len buffer input).2.1.buffer p = 0 ∧
          read (readline len buffer input).2.1.buffer 0 p =
            (ending len (.start buffer) input).line)) ↔
      (ending len (.start buffer) input).Fits len := by
  have left := readline_left len buffer input
  have limit := toNat_sub_one two
  generalize readline len buffer input = result at left ⊢
  cases ends : ending len (.start buffer) input with
  | failed =>
    rw [ends] at left
    obtain ⟨minus, inside⟩ := left
    refine iff_of_true ⟨fun k mem => Nat.lt_trans (inside k mem) (by omega), fun returned => ?_⟩
      trivial
    rw [minus] at returned
    exact absurd returned (by decide)
  | newline line =>
    rw [ends] at left
    obtain ⟨-, held, short, last, inside⟩ := left
    obtain ⟨held, nul⟩ := holds_append_iff.mp held
    rw [holds_singleton_iff, Nat.zero_add] at nul
    constructor
    · intro safe
      have fits := safe.1 _ last
      show line.length + 3 ≤ len.toNat
      omega
    · intro fits
      have fits : line.length + 3 ≤ len.toNat := fits
      refine ⟨fun k mem => ?_, fun _ => ⟨line.length, by omega, nul, held⟩⟩
      rcases inside k mem with small | last
      · omega
      · omega
  | aborted first =>
    rw [ends] at left
    obtain ⟨zero, start, inside⟩ := left
    constructor
    · intro safe
      obtain ⟨p, -, nul, empty⟩ := safe.2 (by rw [zero])
      have none : p = 0 := by
        have lengths := congrArg List.length empty
        rwa [length_read] at lengths
      rw [none, start] at nul
      exact nul
    · intro nul
      refine ⟨fun k mem => Nat.lt_trans (inside k mem) (by omega), fun _ => ⟨0, by omega, ?_, rfl⟩⟩
      exact start.trans nul
  | full line =>
    rw [ends] at left
    obtain ⟨-, -, -, last⟩ := left
    refine iff_of_false (fun safe => ?_) id
    have fits := safe.1 _ last
    omega

/-- Two characters and a newline fit in five bytes. -/
theorem readline_safe_iff_two : ∃ p < 5,
    (readline 5 (fun _ => 0xFF) [0x68, 0x69, 0x0D]).2.1.buffer p = 0 ∧
      read (readline 5 (fun _ => 0xFF) [0x68, 0x69, 0x0D]).2.1.buffer 0 p = [0x68, 0x69] :=
  have fits : (Ending.newline [0x68, 0x69]).Fits 5 := Nat.le_refl 5
  ((readline_safe_iff (by decide) (fun _ => 0xFF) [0x68, 0x69, 0x0D]).mpr fits).2 (by decide)

/-- The console's buffer of 60 bytes, when 59 characters are typed and a byte is written behind it;
and when a line is given up and stays there without a NUL. -/
theorem readline_unsafe :
    60 ∈ (readline 60 (fun _ => 0xFF) (List.replicate 59 0x78)).2.1.stores ∧
      (readline 60 (fun _ => 0xFF) [0x78, 0x03]).1 = 0 ∧
      ∀ p < 60, (readline 60 (fun _ => 0xFF) [0x78, 0x03]).2.1.buffer p ≠ 0 := by
  decide

end TheFirmware.Readline
