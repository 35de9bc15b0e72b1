import TheFirmware.Lib.Cells

/-!
# The memory functions of `core/string.c`

A pointer is the index of a byte of the memory. `memcpy` and `memmove` copy byte after byte, and
what a loop leaves behind is a write of what was read before it (`copyForward_eq`,
`copyBackward_eq`). The loop of `memmove` that goes backward starts one byte too high, and after the
one that goes forward the pointer that is returned is behind the destination (`memmove_moves_iff`).
-/

namespace TheFirmware.Strings

open Cells

/-- The memory. -/
abbrev Memory : Type := Nat → UInt8

/-- `for (; n > 0; --n, ++dst, ++src) *dst = *src;`, with the `dst` that it ends with. -/
def copyForward (mem : Memory) (dst src : Nat) : Nat → Memory × Nat
  | 0 => (mem, dst)
  | n + 1 => copyForward (Function.update mem dst (mem src)) (dst + 1) (src + 1) n

/-- `for (; n > 0; --n, --src, --dst) *dst = *src;`, with the `dst` that it ends with. -/
def copyBackward (mem : Memory) (dst src : Nat) : Nat → Memory × Nat
  | 0 => (mem, dst)
  | n + 1 => copyBackward (Function.update mem dst (mem src)) (dst - 1) (src - 1) n

/-- `memcpy`, with the pointer that it returns. -/
def memcpy (mem : Memory) (dst src n : Nat) : Memory × Nat := ((copyForward mem dst src n).1, dst)

/-- `memmove`, with the pointer that it returns. -/
def memmove (mem : Memory) (dst src n : Nat) : Memory × Nat :=
  if dst < src then copyForward mem dst src n
  else if dst > src then copyBackward mem (dst + n) (src + n) n
  else (mem, dst)

/-- The bytes at `src` have been copied to `dst`, whatever the ranges have in common, nothing else
has changed, and the destination has been returned. -/
structure Moved (mem : Memory) (dst src n : Nat) (result : Memory × Nat) : Prop where
  moved : ∀ i < n, result.1 (dst + i) = mem (src + i)
  kept : ∀ a, a < dst ∨ dst + n ≤ a → result.1 a = mem a
  returned : result.2 = dst

/-! ## The loops -/

section Loops

variable {mem : Memory} {dst src n : Nat}

/-- Upward, a byte is read before it is overwritten. -/
theorem copyForward_eq (upward : dst ≤ src) :
    copyForward mem dst src n = (write mem dst (read mem src n), dst + n) := by
  induction n generalizing mem dst src with
  | zero => rfl
  | succ n ih =>
    have later : read (Function.update mem dst (mem src)) (src + 1) n = read mem (src + 1) n :=
      read_update (.inl (by omega))
    rw [copyForward, ih (by omega), later, read_succ, write, Nat.add_assoc, Nat.add_comm 1]

/-- Downward too. The bytes that are copied are those from the second one on. -/
theorem copyBackward_eq (downward : src ≤ dst) :
    copyBackward mem (dst + n) (src + n) n =
      (write mem (dst + 1) (read mem (src + 1) n), dst) := by
  induction n generalizing mem with
  | zero => rfl
  | succ n ih =>
    have later : read (Function.update mem (dst + (n + 1)) (mem (src + (n + 1)))) (src + 1) n =
        read mem (src + 1) n := read_update (.inr (by omega))
    have last : dst + (n + 1) = dst + 1 + (read mem (src + 1) n).length := by
      rw [length_read]
      omega
    have source : src + (n + 1) = src + 1 + n := by omega
    have single : read mem (src + 1 + n) 1 = [mem (src + 1 + n)] := rfl
    show copyBackward (Function.update mem (dst + (n + 1)) (mem (src + (n + 1)))) (dst + n)
      (src + n) n = _
    rw [ih, later, write_update last.ge, read_add, write_append, single, last, source]
    rfl

end Loops

/-! ## Copying -/

section Moved

variable {mem : Memory} {dst src n : Nat}

theorem moved_write (mem : Memory) (dst src n : Nat) :
    Moved mem dst src n (write mem dst (read mem src n), dst) where
  moved _ inside := write_read inside
  kept a outside := write_outside (by
    rw [length_read]
    exact outside)
  returned := rfl

/-- `memcpy` copies, if no byte of the source is overwritten before it is read. -/
theorem memcpy_moves (upward : dst ≤ src) : Moved mem dst src n (memcpy mem dst src n) := by
  unfold memcpy
  rw [copyForward_eq upward]
  exact moved_write mem dst src n

/-- **`memmove`**: for every memory, all addresses and every number of bytes, `memmove` copies the
bytes, changes no other byte and returns the destination, if and only if there is nothing to copy,
or the destination is behind the source and the byte at it and the one behind the range already are
the ones that belong there and that are copied there. -/
theorem memmove_moves_iff (mem : Memory) (dst src n : Nat) :
    Moved mem dst src n (memmove mem dst src n) ↔
      n = 0 ∨ dst = src ∨
        (src < dst ∧ mem dst = mem src ∧ mem (dst + n) = mem (src + n)) := by
  unfold memmove
  rcases Nat.lt_trichotomy dst src with upward | same | downward
  · rw [if_pos upward, copyForward_eq upward.le]
    constructor
    · intro moves
      have returned : dst + n = dst := moves.returned
      exact .inl (by omega)
    · rintro (rfl | same | ⟨downward, _⟩)
      · exact moved_write mem dst src 0
      · omega
      · omega
  · subst same
    rw [if_neg (Nat.lt_irrefl _), if_neg (Nat.lt_irrefl _)]
    exact iff_of_true ⟨fun _ _ => rfl, fun _ _ => rfl, rfl⟩ (.inr (.inl rfl))
  · rw [if_neg (by omega), if_pos downward, copyBackward_eq downward.le]
    -- the bytes behind the first one arrive, and so does one too many
    have arrives : ∀ i, 0 < i → i ≤ n →
        write mem (dst + 1) (read mem (src + 1) n) (dst + i) = mem (src + i) := by
      intro i pos le
      rcases Nat.exists_eq_add_of_le' pos with ⟨j, rfl⟩
      have moved : write mem (dst + 1) (read mem (src + 1) n) (dst + 1 + j) = mem (src + 1 + j) :=
        write_read (by omega)
      rwa [Nat.add_assoc, Nat.add_assoc, Nat.add_comm 1] at moved
    have stays : ∀ a, a < dst + 1 ∨ dst + 1 + n ≤ a →
        write mem (dst + 1) (read mem (src + 1) n) a = mem a := by
      intro a outside
      apply write_outside
      rw [length_read]
      exact outside
    constructor
    · intro moves
      by_cases none : n = 0
      · exact .inl none
      · have first := moves.moved 0 (Nat.pos_of_ne_zero none)
        have behind := moves.kept (dst + n) (.inr le_rfl)
        have overwritten := arrives n (Nat.pos_of_ne_zero none) le_rfl
        exact .inr (.inr ⟨downward, (stays dst (.inl (Nat.lt_succ_self dst))).symm.trans first,
          behind.symm.trans overwritten⟩)
    · rintro (rfl | same | ⟨_, first, behind⟩)
      · exact moved_write mem dst src 0
      · omega
      · refine ⟨fun i inside => ?_, fun a outside => ?_, rfl⟩
        · by_cases zero : i = 0
          · rw [zero]
            exact (stays dst (.inl (Nat.lt_succ_self dst))).trans first
          · exact arrives i (Nat.pos_of_ne_zero zero) inside.le
        · by_cases last : a = dst + n ∧ 0 < n
          · rw [last.1, behind]
            exact arrives n last.2 le_rfl
          · exact stays a (by omega)

end Moved

/-- A byte is moved up by one, and arrives two bytes up. -/
theorem not_memmove_moves_up :
    ¬ Moved (fun a => if a = 0 then 1 else 0) 1 0 1
      (memmove (fun a => if a = 0 then 1 else 0) 1 0 1) := by
  intro moves
  exact absurd (moves.moved 0 Nat.one_pos) (by decide)

end TheFirmware.Strings
