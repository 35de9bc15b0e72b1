import TheFirmware.Core.Readline

/-!
# Keys that are typed into `readline`

A terminal sends a character, a backspace or a control sequence for every key. `readline` takes a
letter for the end of a control sequence, but it ends with any byte from `@` to `~`: behind
`ESC [ 3 ~` it goes on reading up to the next letter, and the keys in between are lost (`heard`).
The line that is left in the buffer is the one that was typed if and only if the other keys give the
same line (`readline_edits_iff`); that is so if every control sequence ends with a letter
(`readline_edits_of_letters`).
-/

namespace TheFirmware.Readline

open CString (StringAt)
open Cells Strings

/-- A key: a printable character, a backspace, or a control sequence with the bytes between `ESC [`
and its last byte. -/
inductive Key : Type
  | char (c : UInt8) (printable : 0x20 ≤ c ∧ c ≤ 0x7E)
  | backspace (c : UInt8) (known : c = 0x08 ∨ c = 0x7F)
  | control (params : Str) (final : UInt8) (between : ∀ c ∈ params, 0x20 ≤ c ∧ c ≤ 0x3F)
      (ends : 0x40 ≤ final ∧ final ≤ 0x7E)

namespace Key

/-- What the terminal sends. -/
def bytes : Key → Str
  | char c _ => [c]
  | backspace c _ => [c]
  | control params final _ _ => 0x1B :: 0x5B :: (params ++ [final])

/-- What the key does to the line. -/
def edit (line : Str) : Key → Str
  | char c _ => line ++ [c]
  | backspace _ _ => line.dropLast
  | control .. => line

/-- The last byte that the terminal sends for the key. -/
def last : Key → UInt8
  | char c _ => c
  | backspace c _ => c
  | control _ final _ _ => final

/-- A control sequence that `readline` does not see the end of. -/
def swallows : Key → Bool
  | control _ final _ _ => !isalpha final
  | _ => false

end Key

/-- The line that has been typed. -/
def edited (keys : List Key) : Str := keys.foldl Key.edit []

/-- The keys that `readline` acts upon, when it is in a control sequence or not: behind one that
does not end with a letter it leaves out all keys up to one that does. It has not come to the end of
the control sequence at the end of the keys if the result is `none`. -/
def heard : Bool → List Key → Option (List Key)
  | false, [] => some []
  | true, [] => none
  | false, k :: keys =>
    if k.swallows then heard true keys else (heard false keys).map (k :: ·)
  | true, k :: keys => heard (!isalpha k.last) keys

/-! ## A key in the editor -/

section Press

variable {len : UInt32} {line : Str} {first : UInt8}

theorem not_isalpha_of_le {c : UInt8} (low : c ≤ 0x40) : isalpha c = false := by
  have low : c.toNat ≤ 0x40 := UInt8.le_iff_toNat_le.mp low
  have small : ¬ (0x61 : UInt8) ≤ c := by
    rw [UInt8.le_iff_toNat_le]
    have value : (0x61 : UInt8).toNat = 0x61 := rfl
    omega
  have capital : ¬ (0x41 : UInt8) ≤ c := by
    rw [UInt8.le_iff_toNat_le]
    have value : (0x41 : UInt8).toNat = 0x41 := rfl
    omega
  simp [isalpha, small, capital]

/-- Bytes in a control sequence, none of which is a letter. -/
theorem ending_params {params : Str} (none : ∀ c ∈ params, isalpha c = false) (input : Str) :
    ending len ⟨.sequence, line, first⟩ (params ++ input) =
      ending len ⟨.sequence, line, first⟩ input := by
  induction params with
  | nil => rfl
  | cons c params ih =>
    obtain ⟨other, none⟩ := List.forall_mem_cons.mp none
    have typed : Editor.type ⟨.sequence, line, first⟩ c = ⟨.sequence, line, first⟩ := by
      simp [Editor.type, other]
    rw [List.cons_append, ending_within (by simp), typed, ih none]

/-- The last byte of a control sequence, as `readline` sees it. -/
theorem ending_final (c : UInt8) (input : Str) :
    ending len ⟨.sequence, line, first⟩ (c :: input) =
      ending len ⟨if isalpha c then .text else .sequence, line, first⟩ input :=
  ending_within (by simp) input

theorem Key.not_isalpha_params {params : Str} (between : ∀ c ∈ params, 0x20 ≤ c ∧ c ≤ 0x3F) :
    ∀ c ∈ params, isalpha c = false := fun c mem =>
  not_isalpha_of_le (UInt8.le_trans (between c mem).2 (by decide))

/-- A key that comes within a control sequence. -/
theorem ending_swallowed (k : Key) (input : Str) :
    ending len ⟨.sequence, line, first⟩ (k.bytes ++ input) =
      ending len ⟨if isalpha k.last then .text else .sequence, line, first⟩ input := by
  cases k with
  | char c printable => exact ending_final c input
  | backspace c known => exact ending_final c input
  | control params final between ends =>
    have escape : ∀ c ∈ [0x1B, 0x5B], isalpha c = false :=
      List.forall_mem_cons.mpr ⟨rfl, List.forall_mem_singleton.mpr rfl⟩
    have none := List.forall_mem_append.mpr ⟨escape, Key.not_isalpha_params between⟩
    have bytes : Key.bytes (.control params final between ends) ++ input =
        ([0x1B, 0x5B] ++ params) ++ final :: input := by
      simp [Key.bytes]
    rw [bytes, ending_params none, ending_final]
    rfl

theorem Key.char_plain {c : UInt8} (printable : 0x20 ≤ c ∧ c ≤ 0x7E) :
    c ≠ 0x0D ∧ c ≠ 0x0A ∧ c ≠ 0x03 ∧ ¬ (c = 0x7F ∨ c = 0x08) ∧ c ≠ 0x1B ∧ c ≠ 0 := by
  have low : 0x20 ≤ c.toNat := UInt8.le_iff_toNat_le.mp printable.1
  have high : c.toNat ≤ 0x7E := UInt8.le_iff_toNat_le.mp printable.2
  have other : ∀ d : UInt8, d.toNat < 0x20 ∨ 0x7E < d.toNat → c ≠ d := fun d out same => by
    rw [same] at low high
    omega
  exact ⟨other _ (by decide), other _ (by decide), other _ (by decide),
    fun back => back.elim (other _ (by decide)) (other _ (by decide)), other _ (by decide),
    other _ (by decide)⟩

/-- The editor after a key at the end of a line. -/
def Key.press (line : Str) (first : UInt8) : Key → Editor
  | .char c _ => ⟨.text, line ++ [c], if line = [] then c else first⟩
  | .backspace _ _ => ⟨.text, line.dropLast, first⟩
  | .control _ final _ _ => ⟨if isalpha final then .text else .sequence, line, first⟩

/-- A key at the end of a line that is not full. -/
theorem ending_pressed (notFull : ¬ Editor.Full len ⟨.text, line, first⟩) (k : Key) (input : Str) :
    ending len ⟨.text, line, first⟩ (k.bytes ++ input) = ending len (k.press line first) input := by
  cases k with
  | char c printable =>
    obtain ⟨carriage, feed, abort, back, escape, -⟩ := Key.char_plain printable
    have typed : Editor.type ⟨.text, line, first⟩ c =
        ⟨.text, line ++ [c], if line = [] then c else first⟩ :=
      (if_neg back).trans (if_neg escape)
    show ending len _ (c :: input) = _
    rw [ending_type notFull (fun _ => ⟨carriage, feed, abort⟩), typed]
    rfl
  | backspace c known =>
    have goesOn : c ≠ 0x0D ∧ c ≠ 0x0A ∧ c ≠ 0x03 := by
      rcases known with rfl | rfl
      · decide
      · decide
    have typed : Editor.type ⟨.text, line, first⟩ c = ⟨.text, line.dropLast, first⟩ :=
      if_pos known.symm
    show ending len _ (c :: input) = _
    rw [ending_type notFull (fun _ => goesOn), typed]
    rfl
  | control params final between ends =>
    have bytes : Key.bytes (.control params final between ends) ++ input =
        0x1B :: 0x5B :: (params ++ final :: input) := by
      simp [Key.bytes]
    have escape : Editor.type ⟨.text, line, first⟩ 0x1B = ⟨.escape, line, first⟩ := rfl
    have bracket : Editor.type ⟨.escape, line, first⟩ 0x5B = ⟨.sequence, line, first⟩ := rfl
    rw [bytes, ending_type notFull (fun _ => by decide), escape, ending_within (by simp), bracket,
      ending_params (Key.not_isalpha_params between), ending_final]
    rfl

theorem Key.press_of_swallows {k : Key} (swallows : k.swallows = true) :
    k.press line first = ⟨.sequence, line, first⟩ := by
  cases k with
  | char c printable => cases swallows
  | backspace c known => cases swallows
  | control params final between ends =>
    have other : isalpha final = false := by simpa [Key.swallows] using swallows
    simp [Key.press, other]

variable (line first) in
theorem Key.press_of_not_swallows {k : Key} (heard : k.swallows = false) :
    ∃ first', k.press line first = ⟨.text, k.edit line, first'⟩ := by
  cases k with
  | char c printable => exact ⟨_, rfl⟩
  | backspace c known => exact ⟨_, rfl⟩
  | control params final between ends =>
    have letter : isalpha final = true := by simpa [Key.swallows] using heard
    exact ⟨first, by simp [Key.press, Key.edit, letter]⟩

/-- What the terminal sends for the keys. -/
def bytes (keys : List Key) : Str := keys.flatMap Key.bytes

theorem bytes_cons (k : Key) (keys : List Key) (input : Str) :
    bytes (k :: keys) ++ input = k.bytes ++ (bytes keys ++ input) := by
  simp [bytes]

/-- The keys that `readline` does not act upon can be left out. -/
theorem ending_heard {swallowing : Bool} {keys kept : List Key}
    (hears : heard swallowing keys = some kept) (input : Str) :
    ending len ⟨if swallowing then .sequence else .text, line, first⟩ (bytes keys ++ input) =
      ending len ⟨.text, line, first⟩ (bytes kept ++ input) := by
  induction swallowing, keys using heard.induct generalizing kept line first with
  | case1 =>
    cases hears
    rfl
  | case2 => cases hears
  | case3 k keys swallows ih =>
    rw [heard, if_pos swallows] at hears
    rcases Classical.em (Editor.Full len ⟨.text, line, first⟩) with full | notFull
    · rw [if_neg (by simp), ending_full full, ending_full full]
    · rw [if_neg (by simp), bytes_cons, ending_pressed notFull, Key.press_of_swallows swallows]
      exact ih hears
  | case4 k keys heardKey ih =>
    rw [heard, if_neg heardKey] at hears
    obtain ⟨rest, others, rfl⟩ := Option.map_eq_some_iff.mp hears
    rcases Classical.em (Editor.Full len ⟨.text, line, first⟩) with full | notFull
    · rw [if_neg (by simp), ending_full full, ending_full full]
    · obtain ⟨first', pressed⟩ :=
        Key.press_of_not_swallows line first (Bool.eq_false_iff.mpr heardKey)
      rw [if_neg (by simp), bytes_cons, bytes_cons, ending_pressed notFull, ending_pressed notFull,
        pressed]
      exact ih others
  | case5 k keys ih =>
    rw [bytes_cons, if_pos rfl, ending_swallowed, ← ih hears]
    cases isalpha k.last <;> rfl

end Press

section Lines

variable {len : UInt32} {line : Str} {first : UInt8} {keys kept : List Key}

theorem Key.edit_nonzero (nonzero : 0 ∉ line) (k : Key) : 0 ∉ k.edit line := by
  cases k with
  | char c printable =>
    obtain ⟨-, -, -, -, -, other⟩ := Key.char_plain printable
    show 0 ∉ line ++ [c]
    rw [List.mem_append, not_or]
    exact ⟨nonzero, fun mem => other (List.mem_singleton.mp mem).symm⟩
  | backspace c known => exact fun mem => nonzero (List.mem_of_mem_dropLast mem)
  | control params final between ends => exact nonzero

theorem edited_nonzero (nonzero : 0 ∉ line) (keys : List Key) : 0 ∉ keys.foldl Key.edit line := by
  induction keys generalizing line with
  | nil => exact nonzero
  | cons k keys ih => exact ih (k.edit_nonzero nonzero)

theorem swallows_of_heard {swallowing : Bool} (hears : heard swallowing keys = some kept) :
    ∀ k ∈ kept, k.swallows = false := by
  induction swallowing, keys using heard.induct generalizing kept with
  | case1 =>
    cases hears
    exact List.forall_mem_nil _
  | case2 => cases hears
  | case3 k keys swallows ih =>
    rw [heard, if_pos swallows] at hears
    exact ih hears
  | case4 k keys heardKey ih =>
    rw [heard, if_neg heardKey] at hears
    obtain ⟨rest, others, rfl⟩ := Option.map_eq_some_iff.mp hears
    exact List.forall_mem_cons.mpr ⟨Bool.eq_false_iff.mpr heardKey, ih others⟩
  | case5 k keys ih => exact ih hears

/-- The line stays short of the end of the buffer with every key. -/
def Short (len : UInt32) (line : Str) (keys : List Key) : Prop :=
  ∀ before, before <+: keys → (before.foldl Key.edit line).length < (len - 1).toNat

theorem Short.not_full (short : Short len line keys) : ¬ Editor.Full len ⟨.text, line, first⟩ :=
  fun full => Nat.not_lt.mpr full.2 (short [] List.nil_prefix)

theorem Short.tail {k : Key} (short : Short len line (k :: keys)) : Short len (k.edit line) keys :=
  fun before start => short (k :: before) (List.cons_prefix_cons.mpr ⟨rfl, start⟩)

/-- Keys all of which are heard, and a newline. -/
theorem ending_of_short (all : ∀ k ∈ keys, k.swallows = false) (short : Short len line keys)
    {c : UInt8} (newline : c = 0x0D ∨ c = 0x0A) (input : Str) :
    ending len ⟨.text, line, first⟩ (bytes keys ++ c :: input) =
      .newline (keys.foldl Key.edit line) := by
  induction keys generalizing line first with
  | nil => exact ending_newline short.not_full rfl newline input
  | cons k keys ih =>
    obtain ⟨heard, all⟩ := List.forall_mem_cons.mp all
    obtain ⟨first', pressed⟩ := Key.press_of_not_swallows line first heard
    rw [bytes_cons, ending_pressed short.not_full, pressed]
    exact ih all short.tail

/-- Keys all of which are heard, and that fill the buffer. -/
theorem ending_of_not_short (all : ∀ k ∈ keys, k.swallows = false) (long : ¬ Short len line keys)
    (nonzero : 0 ∉ line) (input : Str) :
    ∃ full, ending len ⟨.text, line, first⟩ (bytes keys ++ input) = .full full ∧ 0 ∉ full := by
  rcases Classical.em (Editor.Full len ⟨.text, line, first⟩) with full | notFull
  · exact ⟨line, ending_full full _, nonzero⟩
  induction keys generalizing line first with
  | nil =>
    refine absurd (fun before start => ?_) long
    rw [List.prefix_nil.mp start]
    exact Nat.not_le.mp fun full => notFull ⟨rfl, full⟩
  | cons k keys ih =>
    obtain ⟨heard, all⟩ := List.forall_mem_cons.mp all
    obtain ⟨first', pressed⟩ := Key.press_of_not_swallows line first heard
    have long : ¬ Short len (k.edit line) keys := fun short => long fun before start => by
      rcases before with _ | ⟨b, before⟩
      · exact Nat.not_le.mp fun full => notFull ⟨rfl, full⟩
      · obtain ⟨rfl, rest⟩ := List.cons_prefix_cons.mp start
        exact short before rest
    rw [bytes_cons, ending_pressed notFull, pressed]
    rcases Classical.em (Editor.Full len ⟨.text, k.edit line, first'⟩) with full | notFull'
    · exact ⟨_, ending_full full _, k.edit_nonzero nonzero⟩
    · exact ih all long (k.edit_nonzero nonzero) notFull'

/-- The newline is lost, and nothing comes behind it. -/
theorem ending_of_unheard {swallowing : Bool} (lost : heard swallowing keys = none)
    (nonzero : 0 ∉ line) {c : UInt8} (newline : c = 0x0D ∨ c = 0x0A) :
    let e : Editor := ⟨if swallowing then .sequence else .text, line, first⟩
    ending len e (bytes keys ++ [c]) = .failed ∨
      ∃ full, ending len e (bytes keys ++ [c]) = .full full ∧ 0 ∉ full := by
  dsimp only
  induction swallowing, keys using heard.induct generalizing line first with
  | case1 => cases lost
  | case2 =>
    have other : isalpha c = false := by
      rcases newline with rfl | rfl
      · rfl
      · rfl
    left
    show ending len ⟨.sequence, line, first⟩ [c] = .failed
    rw [ending_final, other]
    rfl
  | case3 k keys swallows ih =>
    rw [heard, if_pos swallows] at lost
    rw [if_neg (by simp), bytes_cons]
    rcases Classical.em (Editor.Full len ⟨.text, line, first⟩) with full | notFull
    · exact .inr ⟨line, ending_full full _, nonzero⟩
    · rw [ending_pressed notFull, Key.press_of_swallows swallows]
      exact ih lost nonzero
  | case4 k keys heardKey ih =>
    rw [heard, if_neg heardKey, Option.map_eq_none_iff] at lost
    rw [if_neg (by simp), bytes_cons]
    rcases Classical.em (Editor.Full len ⟨.text, line, first⟩) with full | notFull
    · exact .inr ⟨line, ending_full full _, nonzero⟩
    · obtain ⟨first', pressed⟩ :=
        Key.press_of_not_swallows line first (Bool.eq_false_iff.mpr heardKey)
      rw [ending_pressed notFull, pressed]
      exact ih lost (k.edit_nonzero nonzero)
  | case5 k keys ih =>
    have rest := @ih line first lost nonzero
    rw [bytes_cons, if_pos rfl, ending_swallowed]
    cases alpha : isalpha k.last with
    | true => simpa [alpha] using rest
    | false => simpa [alpha] using rest

/-! ## The line in the buffer -/

theorem toInt_ne {i : Nat} (small : i < 2 ^ 32 - 1) : toInt i ≠ -1 := by
  unfold toInt Int.bmod
  dsimp only
  split
  · omega
  · omega

/-- `readline` returns with the line in the buffer. -/
def Reads (len : UInt32) (buffer : Nat → UInt8) (input line : Str) : Prop :=
  (readline len buffer input).1 ≠ -1 ∧ Holds (readline len buffer input).2.1.buffer 0 (line ++ [0])

variable {buffer : Nat → UInt8} {input : Str}

theorem reads_of_newline (limit : (len - 1).toNat + 1 = len.toNat)
    (ends : ending len (.start buffer) input = .newline line) : Reads len buffer input line := by
  have left := readline_left len buffer input
  rw [ends] at left
  obtain ⟨result, held, short, -⟩ := left
  have bound := len.toNat_lt
  refine ⟨?_, held⟩
  rw [result]
  exact toInt_ne (by omega)

theorem not_reads_of_failed (ends : ending len (.start buffer) input = .failed) :
    ¬ Reads len buffer input line := by
  have left := readline_left len buffer input
  rw [ends] at left
  exact fun reads => reads.1 left.1

theorem not_reads_of_full {full : Str} (ends : ending len (.start buffer) input = .full full)
    (nonzero : 0 ∉ full) (short : line.length < (len - 1).toNat) :
    ¬ Reads len buffer input line := by
  have left := readline_left len buffer input
  rw [ends] at left
  obtain ⟨-, held, length, -⟩ := left
  intro reads
  have inside : line.length < full.length := by rwa [length]
  have byte := held.getElem inside
  rw [holds_singleton_iff.mp (holds_append_iff.mp reads.2).2] at byte
  exact nonzero (byte ▸ List.getElem_mem inside)

/-- The line is in the buffer as it has been typed if every control sequence ends with a letter. -/
theorem readline_edits_of_letters (limit : (len - 1).toNat + 1 = len.toNat)
    (letters : ∀ k ∈ keys, k.swallows = false) (short : Short len [] keys) {c : UInt8}
    (newline : c = 0x0D ∨ c = 0x0A) (rest : Str) :
    Reads len buffer (bytes keys ++ c :: rest) (edited keys) :=
  reads_of_newline limit (ending_of_short letters short newline rest)

end Lines

/-- The line is in the buffer as it has been typed, whatever comes behind it, if and only if the
keys that are heard end before the newline, never fill the buffer and give the same line. -/
theorem readline_edits_iff {len : UInt32} {keys : List Key}
    (short : ∀ before, before <+: keys → (edited before).length + 3 ≤ len.toNat) {c : UInt8}
    (newline : c = 0x0D ∨ c = 0x0A) (buffer : Nat → UInt8) :
    (∀ rest, Reads len buffer (bytes keys ++ c :: rest) (edited keys)) ↔
      ∃ kept, heard false keys = some kept ∧ edited kept = edited keys ∧
        ∀ before, before <+: kept → (edited before).length + 1 < len.toNat := by
  have limit : (len - 1).toNat + 1 = len.toNat := by
    have some_ := short [] List.nil_prefix
    apply toNat_sub_one
    rw [UInt32.le_iff_toNat_le]
    exact Nat.le_trans (by decide) (Nat.le_trans (Nat.le_add_left 3 _) some_)
  have below : (edited keys).length < (len - 1).toNat := by
    have whole := short keys List.prefix_rfl
    omega
  have shortIff : ∀ kept, Short len [] kept ↔
      ∀ before, before <+: kept → (edited before).length + 1 < len.toNat := fun kept =>
    forall₂_congr fun before start => by
      show (edited before).length < _ ↔ _
      omega
  constructor
  · intro reads
    have reads := reads []
    cases hears : heard false keys with
    | none =>
      have lost : ending len (.start buffer) (bytes keys ++ [c]) = .failed ∨
          ∃ full, ending len (.start buffer) (bytes keys ++ [c]) = .full full ∧ 0 ∉ full :=
        ending_of_unheard hears List.not_mem_nil newline
      rcases lost with failed | ⟨full, ends, nonzero⟩
      · exact absurd reads (not_reads_of_failed failed)
      · exact absurd reads (not_reads_of_full ends nonzero below)
    | some kept =>
      have same : ending len (.start buffer) (bytes keys ++ [c]) =
          ending len (.start buffer) (bytes kept ++ [c]) := ending_heard hears [c]
      rcases Classical.em (Short len [] kept) with fits | long
      · have ends : ending len (.start buffer) (bytes kept ++ [c]) = .newline (edited kept) :=
          ending_of_short (swallows_of_heard hears) fits newline []
        have reads' := reads_of_newline limit (same.trans ends)
        have equal : edited kept = edited keys :=
          StringAt.unique ⟨reads'.2, edited_nonzero List.not_mem_nil kept⟩
            ⟨reads.2, edited_nonzero List.not_mem_nil keys⟩
        exact ⟨kept, rfl, equal, (shortIff kept).mp fits⟩
      · have ends : ∃ full,
            ending len (.start buffer) (bytes kept ++ [c]) = .full full ∧ 0 ∉ full :=
          ending_of_not_short (swallows_of_heard hears) long List.not_mem_nil [c]
        obtain ⟨full, ends, nonzero⟩ := ends
        exact absurd reads (not_reads_of_full (same.trans ends) nonzero below)
  · rintro ⟨kept, hears, equal, fits⟩ rest
    have same : ending len (.start buffer) (bytes keys ++ c :: rest) =
        ending len (.start buffer) (bytes kept ++ c :: rest) := ending_heard hears (c :: rest)
    have ends : ending len (.start buffer) (bytes kept ++ c :: rest) = .newline (edited kept) :=
      ending_of_short (swallows_of_heard hears) ((shortIff kept).mpr fits) newline rest
    rw [← equal]
    exact reads_of_newline limit (same.trans ends)

theorem length_edit_le (line : Str) (keys : List Key) :
    (keys.foldl Key.edit line).length ≤ line.length + keys.length := by
  induction keys generalizing line with
  | nil => exact Nat.le_refl _
  | cons k keys ih =>
    have grown : (k.edit line).length ≤ line.length + 1 := by
      cases k with
      | char c printable =>
        show (line ++ [c]).length ≤ _
        rw [List.length_append]
        exact Nat.le_refl _
      | backspace c known =>
        show line.dropLast.length ≤ _
        rw [List.length_dropLast]
        omega
      | control params final between ends => exact Nat.le_succ _
    have rest := ih (k.edit line)
    show (keys.foldl Key.edit (k.edit line)).length ≤ _
    rw [List.length_cons]
    omega

/-- A few keys cannot fill a buffer. -/
theorem short_of_length {len : UInt32} {keys : List Key} (few : keys.length + 3 ≤ len.toNat)
    (before : List Key) (start : before <+: keys) : (edited before).length + 3 ≤ len.toNat := by
  have grown : (edited before).length ≤ 0 + before.length := length_edit_le [] before
  have shorter := start.length_le
  omega

/-- `a`, cursor left, `b`, backspace -/
def arrowKeys : List Key :=
  [.char 0x61 (by decide), .control [] 0x44 (List.forall_mem_nil _) (by decide),
    .char 0x62 (by decide), .backspace 0x7F (by decide)]

theorem readline_edits_iff_arrow : Reads 60 (fun _ => 0xFF) (bytes arrowKeys ++ [0x0D]) [0x61] :=
  (readline_edits_iff (short_of_length (by decide)) (.inl rfl) (fun _ => 0xFF)).mpr
    ⟨arrowKeys, rfl, rfl, fun before start =>
      Nat.lt_of_succ_lt (short_of_length (by decide) before start)⟩ []

/-- Delete, `a`, `b` -/
def deleteKeys : List Key :=
  [.control [0x33] 0x7E (List.forall_mem_singleton.mpr (by decide)) (by decide),
    .char 0x61 (by decide), .char 0x62 (by decide)]

/-- The `a` is taken for the end of the control sequence of the delete key. -/
theorem delete_swallows :
    (∀ before, before <+: deleteKeys → (edited before).length + 3 ≤ (60 : UInt32).toNat) ∧
      edited deleteKeys = [0x61, 0x62] ∧
      Holds (readline 60 (fun _ => 0xFF) (bytes deleteKeys ++ [0x0D])).2.1.buffer 0 [0x62, 0] ∧
      ¬ Reads 60 (fun _ => 0xFF) (bytes deleteKeys ++ [0x0D]) (edited deleteKeys) := by
  refine ⟨short_of_length (by decide), rfl, rfl, fun reads => ?_⟩
  have held : read (readline 60 (fun _ => 0xFF) (bytes deleteKeys ++ [0x0D])).2.1.buffer 0 3 =
      [0x61, 0x62, 0] := reads.2
  exact absurd held (by decide)

end TheFirmware.Readline
