import TheFirmware.Core.String
import TheFirmware.Lib.ThreeWay
import TheFirmware.Lib.Proc

/-!
# Comparing bytes and strings

`memcmp`, `strncmp` and `strcmp` of `core/string.c` with the pointers that they move. They only
read: each is a program of reads, and a read names the pointer that it goes through.

`memcmp` lets its pointers go down. It compares the `n` bytes that end at them, from the last one on
(`memcmp_value`), so that it only does what it is for if the first two bytes decide or are all there
is. `strncmp` is what it is on lists of characters (`strncmp_value`), and this is the order of the
strings.
-/

namespace TheFirmware.Compare

open Strings (Str)

/-- The pointers of a comparison. -/
inductive Pointer
  | s1
  | s2
  deriving DecidableEq

/-- A byte is read: through which pointer, and where this stands. -/
structure Read where
  pointer : Pointer
  address : Int
  deriving DecidableEq

/-- A program that reads bytes. -/
abbrev Reading (α : Type) : Type := Proc Read (fun _ => UInt8) α

/-- `*s1` and `*s2` -/
def load (pointer : Pointer) (address : Int) : Reading UInt8 := Proc.op ⟨pointer, address⟩

/-- What a memory answers to a read. -/
def answer (mem : Int → UInt8) (read : Read) : UInt8 := mem read.address

/-- The loop of `memcmp`: the count and the pointers at its end. -/
def memcmpLoop (s1 s2 : Int) : Nat → Reading (Nat × Int × Int)
  | 0 => return (0, s1, s2)
  | n + 1 => do
    let a ← load .s1 s1
    let b ← load .s2 s2
    if a = b then memcmpLoop (s1 - 1) (s2 - 1) n else return (n + 1, s1, s2)

/-- `memcmp`, which has no result where the `unreachable()` is reached. -/
def memcmp (s1 s2 : Int) (n : Nat) : Reading (Option Int) := do
  let (n, s1, s2) ← memcmpLoop s1 s2 n
  if n = 0 then return some 0
  else
    let a ← load .s1 s1
    let b ← load .s2 s2
    if a < b then return some (-1)
    else
      let a ← load .s1 s1
      let b ← load .s2 s2
      if a > b then return some 1 else return none

/-- The loop of `strncmp`: the count and the pointers at its end. -/
def strncmpLoop (s1 s2 : Int) : Nat → Reading (Nat × Int × Int)
  | 0 => return (0, s1, s2)
  | n + 1 => do
    let a ← load .s1 s1
    if a = 0 then return (n + 1, s1, s2)
    else
      let b ← load .s2 s2
      if b = 0 then return (n + 1, s1, s2)
      else
        let a ← load .s1 s1
        let b ← load .s2 s2
        if a = b then strncmpLoop (s1 + 1) (s2 + 1) n else return (n + 1, s1, s2)

/-- `strncmp` -/
def strncmp (s1 s2 : Int) (n : Nat) : Reading Int := do
  let (n, s1, s2) ← strncmpLoop s1 s2 n
  if n = 0 then return 0
  else
    let a ← load .s1 s1
    let b ← load .s2 s2
    if a < b then return -1
    else
      let a ← load .s1 s1
      let b ← load .s2 s2
      if a > b then return 1 else return 0

/-- `strcmp` -/
def strcmp (s1 s2 : Int) : Reading Int := strncmp s1 s2 Strings.sizeMax

/-- One of two values, for each pointer. -/
def Pointer.pick {α : Type} (pointer : Pointer) (a b : α) : α :=
  match pointer with
  | .s1 => a
  | .s2 => b

/-! ## The bytes that `memcmp` compares -/

section Memcmp

variable {mem : Int → UInt8} {s1 s2 : Int}

theorem value_memcmp_of_eq (same : mem s1 = mem s2) (n : Nat) :
    (memcmp s1 s2 (n + 1)).value (answer mem) =
      (memcmp (s1 - 1) (s2 - 1) n).value (answer mem) := by
  simp [memcmp, memcmpLoop, load, answer, same]

theorem trace_memcmp_of_eq (same : mem s1 = mem s2) (n : Nat) :
    (memcmp s1 s2 (n + 1)).trace (answer mem) =
      ⟨.s1, s1⟩ :: ⟨.s2, s2⟩ :: (memcmp (s1 - 1) (s2 - 1) n).trace (answer mem) := by
  simp [memcmp, memcmpLoop, load, answer, same]

/-- Where the first bytes differ, they are read twice or three times, and nothing else is. -/
theorem memcmp_of_ne (ne : mem s1 ≠ mem s2) (n : Nat) :
    (memcmp s1 s2 (n + 1)).value (answer mem) = some (if mem s1 < mem s2 then -1 else 1) ∧
      ∀ read ∈ (memcmp s1 s2 (n + 1)).trace (answer mem),
        read.address = read.pointer.pick s1 s2 := by
  by_cases less : mem s1 < mem s2
  · simp [memcmp, memcmpLoop, load, answer, Pointer.pick, ne, less]
  · have greater : mem s2 < mem s1 := Std.lt_of_le_of_ne (Std.not_lt.mp less) (Ne.symm ne)
    simp [memcmp, memcmpLoop, load, answer, Pointer.pick, ne, less, greater]

theorem mem_trace_memcmp (mem : Int → UInt8) (s1 s2 : Int) (n : Nat) :
    ⟨.s1, s1⟩ ∈ (memcmp s1 s2 (n + 1)).trace (answer mem) := by
  simp [memcmp, memcmpLoop, load]

/-- `memcmp` compares the bytes that end at its pointers, from the last one on. -/
theorem memcmp_decides (mem : Int → UInt8) (s1 s2 : Int) (n : Nat) :
    Decides (fun i => mem (s1 - i)) (fun i => mem (s2 - i)) n
      ((memcmp s1 s2 n).value (answer mem)) := by
  induction n generalizing s1 s2 with
  | zero => exact .zero _ _
  | succ n ih =>
    have next : ∀ s : Int, (fun i : Nat => mem (s - 1 - i)) = fun i => mem (s - (i + 1 : Nat)) := by
      intro s
      funext i
      congr 1
      omega
    by_cases same : mem s1 = mem s2
    · have rest := ih (s1 - 1) (s2 - 1)
      rw [next, next] at rest
      rw [value_memcmp_of_eq same]
      exact .of_eq (by simpa using same) rest
    · have first := Decides.of_ne (f := fun i : Nat => mem (s1 - i))
        (g := fun i : Nat => mem (s2 - i)) (by simpa using same) n
      rw [(memcmp_of_ne same n).1]
      simpa using first

/-- It reads no byte behind the first one that differs. -/
theorem memcmp_reads {n : Nat} {read : Read}
    (isRead : read ∈ (memcmp s1 s2 n).trace (answer mem)) :
    ∃ i < n, read.address = read.pointer.pick s1 s2 - (i : Nat) ∧
      ∀ j < i, mem (s1 - (j : Nat)) = mem (s2 - (j : Nat)) := by
  induction n generalizing s1 s2 with
  | zero => simp [memcmp, memcmpLoop] at isRead
  | succ n ih =>
    have here (place : read.address = read.pointer.pick s1 s2) :
        ∃ i < n + 1, read.address = read.pointer.pick s1 s2 - (i : Nat) ∧
          ∀ j < i, mem (s1 - (j : Nat)) = mem (s2 - (j : Nat)) :=
      ⟨0, Nat.succ_pos n, by simpa using place, fun j low => absurd low (Nat.not_lt_zero j)⟩
    by_cases same : mem s1 = mem s2
    · rw [trace_memcmp_of_eq same, List.mem_cons, List.mem_cons] at isRead
      rcases isRead with rfl | rfl | later
      · exact here rfl
      · exact here rfl
      · rcases ih later with ⟨i, low, place, before⟩
        refine ⟨i + 1, Nat.succ_lt_succ low, ?_, fun j lt => ?_⟩
        · rw [place]
          cases read.pointer with
          | s1 => simp only [Pointer.pick]; omega
          | s2 => simp only [Pointer.pick]; omega
        · rcases j with _ | j
          · simpa using same
          · have earlier := before j (Nat.lt_of_succ_lt_succ lt)
            rw [Int.sub_sub, Int.sub_sub] at earlier
            rw [Nat.cast_succ, Int.add_comm]
            exact earlier
    · exact here ((memcmp_of_ne same n).2 read isRead)

end Memcmp

/-- What `memcmp` is for: it reads the `n` bytes from each pointer on, and its result says how they
compare. -/
structure Compares (mem : Int → UInt8) (s1 s2 : Int) (n : Nat) : Prop where
  reads : ∀ read ∈ (memcmp s1 s2 n).trace (answer mem),
    ∃ i < n, read.address = read.pointer.pick s1 s2 + (i : Nat)
  decides : Decides (fun i => mem (s1 + i)) (fun i => mem (s2 + i)) n
    ((memcmp s1 s2 n).value (answer mem))

theorem memcmp_compares_iff (mem : Int → UInt8) (s1 s2 : Int) (n : Nat) :
    Compares mem s1 s2 n ↔ n ≤ 1 ∨ mem s1 ≠ mem s2 := by
  constructor
  · intro compares
    by_contra neither
    rw [not_or, not_not] at neither
    rcases neither with ⟨long, same⟩
    obtain ⟨k, rfl⟩ : ∃ k, n = k + 2 := ⟨n - 2, by omega⟩
    have before : ⟨.s1, s1 - 1⟩ ∈ (memcmp s1 s2 (k + 2)).trace (answer mem) := by
      rw [trace_memcmp_of_eq same]
      exact .tail _ (.tail _ (mem_trace_memcmp mem (s1 - 1) (s2 - 1) k))
    rcases compares.reads _ before with ⟨i, _, place⟩
    simp only [Pointer.pick] at place
    omega
  · intro only
    refine ⟨fun read isRead => ?_, ?_⟩
    · rcases memcmp_reads isRead with ⟨i, low, place, before⟩
      have first : i = 0 := by
        rcases only with short | ne
        · omega
        · by_contra later
          exact ne (by simpa using before 0 (Nat.pos_of_ne_zero later))
      subst first
      exact ⟨0, low, by simpa using place⟩
    · exact (memcmp_decides mem s1 s2 n).first (by simpa using only) (by simp) (by simp)

/-- The bytes 1, 2 and 1, 3 are equal to it, where a 1 is in front of both. -/
theorem not_memcmp_compares :
    ¬ ∀ (mem : Int → UInt8) (s1 s2 : Int) (n : Nat), Compares mem s1 s2 n := by
  intro all
  have less := (all (fun a => if a = 1 then 2 else if a = 11 then 3 else 1) 0 10 2).decides.differ 1
    (by decide) (by decide) (by decide)
  exact absurd less (by decide)

/-! ## The order of the strings -/

/-- A string lies in the 32-bit memory, with its NUL. -/
structure StringAt (mem : Int → UInt8) (p : Nat) (s : Str) : Prop
    extends CString.StringAt (fun a => mem a) p s where
  inside : p + s.length < 2 ^ 32

section Strncmp

variable {mem : Int → UInt8} {p q : Nat} {s t : Str}

theorem StringAt.nil (there : StringAt mem p []) : mem p = 0 :=
  Cells.holds_singleton_iff.mp there.held

theorem StringAt.cons {c : UInt8} (there : StringAt mem p (c :: s)) :
    mem p = c ∧ c ≠ 0 ∧ StringAt mem (p + 1) s := by
  have held := there.held
  have inside := there.inside
  have nonzero := there.nonzero
  rw [List.cons_append, Cells.holds_cons_iff] at held
  rw [List.length_cons] at inside
  rw [List.mem_cons, not_or] at nonzero
  exact ⟨held.1, Ne.symm nonzero.1, ⟨held.2, nonzero.2⟩, by omega⟩

/-- Equal characters in front of both terminators are passed. -/
theorem strncmp_of_eq {s1 s2 : Int} (nonzero : mem s1 ≠ 0) (same : mem s1 = mem s2) (n : Nat) :
    (strncmp s1 s2 (n + 1)).value (answer mem) =
        (strncmp (s1 + 1) (s2 + 1) n).value (answer mem) ∧
      (strncmp s1 s2 (n + 1)).trace (answer mem) =
        ⟨.s1, s1⟩ :: ⟨.s2, s2⟩ :: ⟨.s1, s1⟩ :: ⟨.s2, s2⟩ ::
          (strncmp (s1 + 1) (s2 + 1) n).trace (answer mem) := by
  rw [same] at nonzero
  simp [strncmp, strncmpLoop, load, answer, same, nonzero]

/-- The loop stops at a terminator or a difference. -/
theorem strncmpLoop_of_stop {s1 s2 : Int} (stop : mem s1 = 0 ∨ mem s2 = 0 ∨ mem s1 ≠ mem s2)
    (n : Nat) :
    (strncmpLoop s1 s2 (n + 1)).value (answer mem) = (n + 1, s1, s2) ∧
      ∀ read ∈ (strncmpLoop s1 s2 (n + 1)).trace (answer mem),
        read.address = read.pointer.pick s1 s2 := by
  by_cases end₁ : mem s1 = 0
  · simp [strncmpLoop, load, answer, Pointer.pick, end₁]
  · by_cases end₂ : mem s2 = 0
    · simp [strncmpLoop, load, answer, Pointer.pick, end₁, end₂]
    · have differ : mem s1 ≠ mem s2 := by
        rcases stop with zero | zero | ne
        · exact absurd zero end₁
        · exact absurd zero end₂
        · exact ne
      simp [strncmpLoop, load, answer, Pointer.pick, end₁, end₂, differ]

/-- The characters it stops at are read again. -/
theorem strncmp_of_stop {s1 s2 : Int} (stop : mem s1 = 0 ∨ mem s2 = 0 ∨ mem s1 ≠ mem s2)
    (n : Nat) :
    (strncmp s1 s2 (n + 1)).value (answer mem) = threeWay (mem s1) (mem s2) ∧
      ∀ read ∈ (strncmp s1 s2 (n + 1)).trace (answer mem),
        read.address = read.pointer.pick s1 s2 := by
  rcases strncmpLoop_of_stop stop n with ⟨value, reads⟩
  by_cases less : mem s1 < mem s2
  · simpa [strncmp, value, load, answer, threeWay, less, Pointer.pick, or_imp,
      forall_and] using reads
  · by_cases greater : mem s2 < mem s1
    · simpa [strncmp, value, load, answer, threeWay, less, greater, Pointer.pick, or_imp,
        forall_and] using reads
    · simpa [strncmp, value, load, answer, threeWay, less, greater, Pointer.pick, or_imp,
        forall_and] using reads

theorem StringAt.stop_of_nil (first : StringAt mem p s) (second : StringAt mem q t)
    (ended : s = [] ∨ t = []) : mem p = 0 ∨ mem q = 0 ∨ mem p ≠ mem q := by
  rcases ended with rfl | rfl
  · exact .inl first.nil
  · exact .inr (.inl second.nil)

/-- On the strings in the memory it is the function on their characters. -/
theorem value_strncmp (first : StringAt mem p s) (second : StringAt mem q t) (n : Nat) :
    (strncmp p q n).value (answer mem) = Strings.strncmp s t n := by
  induction s, t, n using Strings.strncmp.induct generalizing p q with
  | case1 s t => simp [strncmp, strncmpLoop, Strings.strncmp]
  | case2 n =>
    rw [(strncmp_of_stop (first.stop_of_nil second (.inl rfl)) n).1, first.nil, second.nil]
    rfl
  | case3 b t n =>
    rcases second.cons with ⟨head, nonzero, _⟩
    rw [(strncmp_of_stop (first.stop_of_nil second (.inl rfl)) n).1, first.nil, head]
    exact threeWay_of_lt (UInt8.pos_iff_ne_zero.mpr nonzero)
  | case4 a s n =>
    rcases first.cons with ⟨head, nonzero, _⟩
    rw [(strncmp_of_stop (first.stop_of_nil second (.inr rfl)) n).1, second.nil, head]
    exact threeWay_of_gt (UInt8.pos_iff_ne_zero.mpr nonzero)
  | case5 s b t n ih =>
    rcases first.cons with ⟨head₁, nonzero, rest₁⟩
    rcases second.cons with ⟨head₂, _, rest₂⟩
    rw [(strncmp_of_eq (head₁ ▸ nonzero) (head₁.trans head₂.symm) n).1, Strings.strncmp, if_pos rfl]
    exact ih rest₁ rest₂
  | case6 a s b t n ne less =>
    rcases first.cons with ⟨head₁, _, _⟩
    rcases second.cons with ⟨head₂, _, _⟩
    have differ : mem p ≠ mem q := by rwa [head₁, head₂]
    rw [(strncmp_of_stop (.inr (.inr differ)) n).1, head₁, head₂, Strings.strncmp, if_neg ne,
      if_pos less, threeWay_of_lt less]
  | case7 a s b t n ne less =>
    rcases first.cons with ⟨head₁, _, _⟩
    rcases second.cons with ⟨head₂, _, _⟩
    have differ : mem p ≠ mem q := by rwa [head₁, head₂]
    have greater : b < a := Std.lt_of_le_of_ne (Std.not_lt.mp less) (Ne.symm ne)
    rw [(strncmp_of_stop (.inr (.inr differ)) n).1, head₁, head₂, Strings.strncmp, if_neg ne,
      if_neg less, threeWay_of_gt greater]

/-- Two strings stop the loop at once, or they start with the same character. -/
theorem StringAt.stop_or_cons (first : StringAt mem p s) (second : StringAt mem q t) :
    (mem p = 0 ∨ mem q = 0 ∨ mem p ≠ mem q) ∨ ∃ c s' t', s = c :: s' ∧ t = c :: t' := by
  rcases s with _ | ⟨a, s⟩
  · exact .inl (first.stop_of_nil second (.inl rfl))
  · rcases t with _ | ⟨b, t⟩
    · exact .inl (first.stop_of_nil second (.inr rfl))
    · by_cases same : a = b
      · subst same
        exact .inr ⟨a, s, t, rfl, rfl⟩
      · have differ : mem p ≠ mem q := by rwa [first.cons.1, second.cons.1]
        exact .inl (.inr (.inr differ))

/-- Nothing is read behind either terminator. -/
theorem strncmp_reads (first : StringAt mem p s) (second : StringAt mem q t) {n : Nat} {read : Read}
    (isRead : read ∈ (strncmp p q n).trace (answer mem)) :
    ∃ i ≤ (read.pointer.pick s t).length,
      read.address = read.pointer.pick (p : Int) q + (i : Nat) := by
  induction n generalizing p q s t with
  | zero => simp [strncmp, strncmpLoop] at isRead
  | succ n ih =>
    have here (place : read.address = read.pointer.pick (p : Int) q) :
        ∃ i ≤ (read.pointer.pick s t).length,
          read.address = read.pointer.pick (p : Int) q + (i : Nat) :=
      ⟨0, Nat.zero_le _, by simpa using place⟩
    rcases first.stop_or_cons second with stop | ⟨c, s, t, rfl, rfl⟩
    · exact here ((strncmp_of_stop stop n).2 read isRead)
    · rcases first.cons with ⟨head₁, nonzero, rest₁⟩
      rcases second.cons with ⟨head₂, _, rest₂⟩
      rw [(strncmp_of_eq (head₁ ▸ nonzero) (head₁.trans head₂.symm) n).2] at isRead
      simp only [List.mem_cons] at isRead
      rcases isRead with rfl | rfl | rfl | rfl | later
      · exact here rfl
      · exact here rfl
      · exact here rfl
      · exact here rfl
      · rcases ih rest₁ rest₂ later with ⟨i, low, place⟩
        refine ⟨i + 1, ?_, ?_⟩
        · cases pointer : read.pointer with
          | s1 => rw [pointer] at low; exact Nat.succ_le_succ low
          | s2 => rw [pointer] at low; exact Nat.succ_le_succ low
        · rw [place]
          cases read.pointer with
          | s1 => simp only [Pointer.pick]; omega
          | s2 => simp only [Pointer.pick]; omega

end Strncmp

/-- `strncmp` compares what is left of the strings if they are cut behind `n` characters. -/
theorem strncmp_eq_threeWay (s t : Str) (n : Nat) :
    Strings.strncmp s t n = threeWay (s.take n) (t.take n) := by
  induction s, t, n using Strings.strncmp.induct with
  | case1 s t => simp [Strings.strncmp]
  | case2 n => simp [Strings.strncmp]
  | case3 b t n => simp [Strings.strncmp, threeWay]
  | case4 a s n => simp [Strings.strncmp, threeWay]
  | case5 s b t n ih => simp [Strings.strncmp, threeWay, ih]
  | case6 a s b t n ne less => simp [Strings.strncmp, threeWay, ne, less, List.cons_lt_cons_iff]
  | case7 a s b t n ne less =>
    have greater : b < a := Std.lt_of_le_of_ne (Std.not_lt.mp less) (Ne.symm ne)
    simp [Strings.strncmp, threeWay, ne, less, greater, List.cons_lt_cons_iff]

/-- A comparison of the strings in a memory is an order: it is the lexicographic order of what it
takes from them, and it reads them only. -/
structure IsOrder (mem : Int → UInt8) (compare : Int → Int → Reading Int) (cut : Str → Str) :
    Prop where
  less {p q : Nat} {s t : Str} (first : StringAt mem p s) (second : StringAt mem q t) :
    (compare p q).value (answer mem) = -1 ↔ cut s < cut t
  equal {p q : Nat} {s t : Str} (first : StringAt mem p s) (second : StringAt mem q t) :
    (compare p q).value (answer mem) = 0 ↔ cut s = cut t
  greater {p q : Nat} {s t : Str} (first : StringAt mem p s) (second : StringAt mem q t) :
    (compare p q).value (answer mem) = 1 ↔ cut t < cut s
  reads {p q : Nat} {s t : Str} (first : StringAt mem p s) (second : StringAt mem q t) :
    ∀ read ∈ (compare p q).trace (answer mem),
      ∃ i ≤ (read.pointer.pick s t).length, read.address = read.pointer.pick (p : Int) q + (i : Nat)
  antisymm {p q : Nat} {s t : Str} (first : StringAt mem p s) (second : StringAt mem q t) :
    (compare q p).value (answer mem) = - (compare p q).value (answer mem)
  trans {p q r : Nat} {s t u : Str} (first : StringAt mem p s) (second : StringAt mem q t)
    (third : StringAt mem r u) : (compare p q).value (answer mem) ≤ 0 →
      (compare q r).value (answer mem) ≤ 0 → (compare p r).value (answer mem) ≤ 0

theorem IsOrder.of_threeWay {mem : Int → UInt8} {compare : Int → Int → Reading Int}
    {cut : Str → Str}
    (value : ∀ {p q : Nat} {s t : Str}, StringAt mem p s → StringAt mem q t →
      (compare p q).value (answer mem) = threeWay (cut s) (cut t))
    (reads : ∀ {p q : Nat} {s t : Str}, StringAt mem p s → StringAt mem q t →
      ∀ read ∈ (compare p q).trace (answer mem), ∃ i ≤ (read.pointer.pick s t).length,
        read.address = read.pointer.pick (p : Int) q + (i : Nat)) :
    IsOrder mem compare cut where
  less first second := by rw [value first second, (threeWay_iff _ _).1]
  equal first second := by rw [value first second, (threeWay_iff _ _).2.1]
  greater first second := by rw [value first second, (threeWay_iff _ _).2.2]
  reads := reads
  antisymm first second := by rw [value second first, value first second, threeWay_swap]
  trans first second third := by
    rw [value first second, value second third, value first third, threeWay_nonpos_iff,
      threeWay_nonpos_iff, threeWay_nonpos_iff]
    exact List.le_trans

/-- No string in the memory is longer than `strcmp` looks. -/
theorem StringAt.take_sizeMax {mem : Int → UInt8} {p : Nat} {s : Str} (there : StringAt mem p s) :
    s.take Strings.sizeMax = s := by
  have inside := there.inside
  refine List.take_of_length_le ?_
  unfold Strings.sizeMax
  omega

theorem string_comparison_isOrder (mem : Int → UInt8) :
    (∀ n, IsOrder mem (fun p q => strncmp p q n) (List.take n)) ∧ IsOrder mem strcmp id := by
  constructor
  · intro n
    refine .of_threeWay (fun first second => ?_) (fun first second _ => strncmp_reads first second)
    rw [value_strncmp first second, strncmp_eq_threeWay]
  · refine .of_threeWay (fun first second => ?_) (fun first second _ => strncmp_reads first second)
    rw [strcmp, value_strncmp first second, strncmp_eq_threeWay, first.take_sizeMax,
      second.take_sizeMax]
    rfl

/-- "a" is smaller than "ab". -/
theorem strcmp_a_ab :
    (strcmp 4 8).value (answer fun a => if a = 4 ∨ a = 8 then 0x61 else if a = 9 then 0x62 else 0) =
      -1 := by
  have first : StringAt (fun a => if a = 4 ∨ a = 8 then 0x61 else if a = 9 then 0x62 else 0) 4
      [0x61] := ⟨⟨rfl, by decide⟩, by decide⟩
  have second : StringAt (fun a => if a = 4 ∨ a = 8 then 0x61 else if a = 9 then 0x62 else 0) 8
      [0x61, 0x62] := ⟨⟨rfl, by decide⟩, by decide⟩
  exact ((string_comparison_isOrder _).2.less first second).mpr (by decide)

end TheFirmware.Compare
