import TheFirmware.Simulator.Gdb
import TheFirmware.Simulator.Memory

/-!
# Binary downloads

The packet `X` of gdb carries bytes for the memory, in which those that have a meaning in a packet
are escaped (`escape`). `gdb_handle_packet` removes the escapes in place, up to the first zero byte
(`gdbDecode`), and writes each byte by a halfword, into which a `char` goes with its sign.

First the string without escapes is followed (`holds_gdbDecode`), then the memory (`Downloads`), and
last the packet as a whole.
-/

namespace TheFirmware.Simulator

open LittleEndian CString Cells

/-! ## Escapes -/

/-- The bytes that are escaped: `$`, `#` and the escape itself. -/
def Special (c : UInt8) : Prop := c = 0x24 ∨ c = 0x23 ∨ c = 0x7D

instance (c : UInt8) : Decidable (Special c) := inferInstanceAs (Decidable (_ ∨ _ ∨ _))

/-- The bytes as gdb puts them into a packet. -/
def escape : List UInt8 → List UInt8
  | [] => []
  | c :: data => if Special c then 0x7D :: (c ^^^ 0x20) :: escape data else c :: escape data

section Escape

variable {c : UInt8} {data : List UInt8}

theorem escape_special (special : Special c) :
    escape (c :: data) = 0x7D :: (c ^^^ 0x20) :: escape data := if_pos special

theorem escape_plain (plain : ¬ Special c) : escape (c :: data) = c :: escape data := if_neg plain

theorem escape_append (data rest : List UInt8) : escape (data ++ rest) = escape data ++ escape rest := by
  induction data with
  | nil => rfl
  | cons c data ih =>
      by_cases special : Special c
      · rw [List.cons_append, escape_special special, escape_special special, ih]
        rfl
      · rw [List.cons_append, escape_plain special, escape_plain special, ih]
        rfl

theorem length_escape (data : List UInt8) :
    (escape data).length = data.length + data.countP (Special ·) := by
  induction data with
  | nil => rfl
  | cons c data ih =>
      by_cases special : Special c
      · rw [escape_special special]
        simp only [List.length_cons, List.countP_cons, special, decide_true, if_true, ih]
        omega
      · rw [escape_plain special]
        simp only [List.length_cons, List.countP_cons, special, decide_false, Bool.false_eq_true,
          if_false, ih]
        omega

/-- The second byte of an escape. -/
theorem special_xor (special : Special c) :
    c ^^^ 0x20 ≠ 0 ∧ c ^^^ 0x20 ≠ 0x23 ∧ c ^^^ 0x20 ≠ 0x7D := by
  rcases special with rfl | rfl | rfl
  · decide
  · decide
  · decide

/-- A `#` is always escaped. -/
theorem hash_not_mem_escape (data : List UInt8) : 0x23 ∉ escape data := by
  induction data with
  | nil => exact List.not_mem_nil
  | cons c data ih =>
      by_cases special : Special c
      · rw [escape_special special]
        simp [ih, (special_xor special).2.1.symm]
      · rw [escape_plain special]
        have ne : 0x23 ≠ c := fun eq => special (.inr (.inl eq.symm))
        simp [ih, ne]

/-- Escapes neither add nor remove a zero byte. -/
theorem zero_not_mem_escape (nonzero : 0 ∉ data) : 0 ∉ escape data := by
  induction data with
  | nil => exact List.not_mem_nil
  | cons c data ih =>
      have tail := ih fun mem => nonzero (List.mem_cons_of_mem c mem)
      by_cases special : Special c
      · rw [escape_special special]
        simp [tail, (special_xor special).1.symm]
      · rw [escape_plain special]
        have ne : 0 ≠ c := fun eq => nonzero (eq ▸ List.mem_cons_self)
        simp [tail, ne]

/-- The last byte is never the first one of an escape. -/
theorem getLast_escape_ne {last : UInt8} (eq : (escape data).getLast? = some last) :
    last ≠ 0x7D := by
  induction data with
  | nil => cases eq
  | cons c data ih =>
      by_cases special : Special c
      · rw [escape_special special, List.getLast?_cons_cons] at eq
        cases tail : escape data with
        | nil =>
            rw [tail, List.getLast?_singleton] at eq
            cases eq
            exact (special_xor special).2.2
        | cons d more =>
            rw [tail, List.getLast?_cons_cons, ← tail] at eq
            exact ih eq
      · rw [escape_plain special] at eq
        cases tail : escape data with
        | nil =>
            rw [tail, List.getLast?_singleton] at eq
            cases eq
            exact fun eq => special (.inr (.inr eq))
        | cons d more =>
            rw [tail, List.getLast?_cons_cons, ← tail] at eq
            exact ih eq

end Escape

/-! ## The string without escapes -/

section Decode

variable {buffer : Bytes} {p left : Nat} {c l : UInt8} {data : List UInt8}

theorem gdbDecode_pass (nonzero : buffer p ≠ 0) (plain : buffer p ≠ 0x7D) :
    gdbDecode buffer p (left + 1) = gdbDecode buffer (p + 1) left := by
  rw [gdbDecode, if_neg nonzero, if_neg plain]

/-- Bytes without an escape stay as they are. -/
theorem gdbDecode_plain {str : List UInt8} (held : Holds buffer p str)
    (plain : ∀ c ∈ str, c ≠ 0 ∧ c ≠ 0x7D) (left : Nat) :
    gdbDecode buffer p (str.length + left) = gdbDecode buffer (p + str.length) left := by
  induction str generalizing p with
  | nil => rw [List.length_nil, Nat.zero_add, Nat.add_zero]
  | cons c str ih =>
      rw [holds_cons_iff] at held
      have first := plain c List.mem_cons_self
      rw [← held.1] at first
      rw [List.length_cons, Nat.add_right_comm, gdbDecode_pass first.1 first.2,
        ih held.2 fun c mem => plain c (List.mem_cons_of_mem _ mem), Nat.add_right_comm, Nat.add_assoc]

/-- An escape is replaced by the byte it stands for, and the last byte of the string is there once
more. -/
theorem gdbDecode_escape {rest : List UInt8} (held : Holds buffer p (0x7D :: c :: rest))
    (last : (0x7D :: c :: rest).getLast? = some l) :
    ∃ buffer', gdbDecode buffer p (rest.length + 2) = gdbDecode buffer' (p + 1) (rest.length + 1) ∧
      Holds buffer' p ((c ^^^ 0x20) :: rest ++ [l]) := by
  have first := (holds_cons_iff.mp held).1
  have tail := (holds_cons_iff.mp held).2
  refine ⟨Function.update (memmove buffer p (p + 1) (rest.length + 1)) p
    (memmove buffer p (p + 1) (rest.length + 1) p ^^^ 0x20), ?_, ?_⟩
  · rw [gdbDecode, first]
    rfl
  · have moved : memmove buffer p (p + 1) (rest.length + 1) = write buffer p (c :: rest) := by
      rw [memmove, tail.read_eq List.length_cons.symm]
    have there : Holds (write buffer p (c :: rest)) p (c :: rest) := holds_write _ _ _
    have kept : write buffer p (c :: rest) (p + (rest.length + 1)) = l := by
      rw [write_outside (.inr (by rw [List.length_cons]))]
      have whole := held.getElem (i := rest.length + 1) (by simp)
      rw [whole]
      rw [List.getLast?_eq_getElem?] at last
      simpa using last
    rw [moved, (holds_cons_iff.mp there).1, List.cons_append, holds_cons_iff, Function.update_self]
    refine ⟨rfl, ?_⟩
    have rest_held : Holds (write buffer p (c :: rest)) (p + 1) (rest ++ [l]) := by
      rw [holds_append_iff, holds_singleton_iff]
      refine ⟨(holds_cons_iff.mp there).2, ?_⟩
      rw [← kept]
      congr 1
      omega
    exact rest_held.congr fun i _ => Function.update_of_ne (by omega) _ _

/-- **A string without its escapes**: the bytes that were escaped come first, then as many copies of
the last byte as escapes were removed. -/
theorem holds_gdbDecode {m : Nat} (nonzero : 0 ∉ data) (l_nonzero : l ≠ 0) (l_plain : l ≠ 0x7D)
    (held : Holds buffer p (escape data ++ List.replicate m l))
    (last : ∀ c ∈ (escape data ++ List.replicate m l).getLast?, c = l) :
    Holds (gdbDecode buffer p ((escape data).length + m)) p
      (data ++ List.replicate (data.countP (Special ·) + m) l) := by
  induction data generalizing buffer p m with
  | nil =>
      have copies : ∀ c ∈ List.replicate m l, c ≠ 0 ∧ c ≠ 0x7D := by
        intro c mem
        rw [List.eq_of_mem_replicate mem]
        exact ⟨l_nonzero, l_plain⟩
      have same := gdbDecode_plain held copies 0
      rw [Nat.add_zero, escape, List.nil_append, List.length_replicate] at same
      rw [escape, List.length_nil, Nat.zero_add, same]
      simpa [gdbDecode, escape] using held
  | cons c data ih =>
      have tail : 0 ∉ data := fun mem => nonzero (List.mem_cons_of_mem c mem)
      by_cases special : Special c
      · rw [escape_special special] at held last ⊢
        have held : Holds buffer p (0x7D :: (c ^^^ 0x20) :: (escape data ++ List.replicate m l)) := held
        have ends : (0x7D :: (c ^^^ 0x20) :: (escape data ++ List.replicate m l)).getLast? = some l := by
          have some := List.getLast?_eq_some_getLast
            (List.cons_ne_nil 0x7D ((c ^^^ 0x20) :: (escape data ++ List.replicate m l)))
          rw [some, last _ some]
        obtain ⟨buffer', step, held'⟩ := gdbDecode_escape held ends
        have copies : escape data ++ List.replicate m l ++ [l] =
            escape data ++ List.replicate (m + 1) l := by
          rw [List.append_assoc, List.replicate_succ']
        rw [List.cons_append, copies, holds_cons_iff, UInt8.xor_assoc, UInt8.xor_self,
          UInt8.xor_zero] at held'
        have rest := ih tail held'.2 fun d mem => by
          rw [← copies, List.getLast?_concat] at mem
          exact (Option.some.inj mem).symm
        have lengths : (0x7D :: (c ^^^ 0x20) :: escape data).length + m =
            (escape data ++ List.replicate m l).length + 2 := by
          simp only [List.length_cons, List.length_append, List.length_replicate]
          omega
        have lengths' : (escape data ++ List.replicate m l).length + 1 =
            (escape data).length + (m + 1) := by
          simp only [List.length_append, List.length_replicate]
          omega
        rw [lengths, step, lengths', List.cons_append, holds_cons_iff,
          gdbDecode_outside _ _ _ (.inl (Nat.lt_succ_self p))]
        refine ⟨held'.1, ?_⟩
        simpa only [List.countP_cons, special, decide_true, if_true, Nat.add_assoc,
          Nat.add_comm 1 m] using rest
      · rw [escape_plain special] at held last ⊢
        have first := (holds_cons_iff.mp held).1
        have c_nonzero : buffer p ≠ 0 := fun eq =>
          nonzero (by rw [← eq, first]; exact List.mem_cons_self)
        have c_plain : buffer p ≠ 0x7D := fun eq => special (.inr (.inr (first.symm.trans eq)))
        have rest := ih tail (holds_cons_iff.mp held).2 fun d mem =>
          last d (List.mem_getLast?_cons mem)
        rw [List.length_cons, Nat.add_right_comm, gdbDecode_pass c_nonzero c_plain,
          List.cons_append, holds_cons_iff, gdbDecode_outside _ _ _ (.inl (Nat.lt_succ_self p))]
        refine ⟨first, ?_⟩
        simpa only [List.countP_cons, special, decide_false, Bool.false_eq_true, if_false,
          Nat.add_zero] using rest

end Decode

/-! ## Bytes that survive -/

/-- No byte is escaped. -/
def Plain (data : List UInt8) : Prop := ∀ c ∈ data, ¬ Special c

/-- The bytes whose escapes need not be removed, since nobody reads far enough to see them: behind a
`}`, which is the first byte of its own escape, there are only bytes `]`, the second one. -/
def Disguised (data : List UInt8) : Prop :=
  ∃ front k, data = front ++ 0x7D :: List.replicate k 0x5D ∧ Plain front

/-- The bytes that a download writes as they are: there is no zero byte, or no escape, or there is a
zero byte in front of a disguised escape. -/
def Survives (data : List UInt8) : Prop :=
  0 ∉ data ∨ Plain data ∨
    ∃ front k, data = front ++ 0x7D :: List.replicate k 0x5D ∧ Plain front ∧ 0 ∈ front

section Survives

variable {c : UInt8} {data : List UInt8}

theorem plain_cons : Plain (c :: data) ↔ ¬ Special c ∧ Plain data := List.forall_mem_cons

theorem escape_of_plain (plain : Plain data) : escape data = data := by
  induction data with
  | nil => rfl
  | cons c data ih =>
      rw [plain_cons] at plain
      rw [escape_plain plain.1, ih plain.2]

/-- What is read after the first byte of an escape. -/
theorem take_bracket_escape (data : List UInt8) :
    (0x5D :: escape data).take data.length = data ↔ data = List.replicate data.length 0x5D := by
  induction data with
  | nil => exact Iff.rfl
  | cons c data ih =>
      rw [List.length_cons, List.take_succ_cons, List.replicate_succ, List.cons.injEq,
        List.cons.injEq, eq_comm]
      refine and_congr_right fun eq => ?_
      rw [eq, escape_plain (by decide)]
      exact ih

theorem take_escape_plain (plain : ¬ Special c) :
    (escape (c :: data)).take (c :: data).length = c :: data ↔
      (escape data).take data.length = data := by
  rw [escape_plain plain, List.length_cons, List.take_succ_cons, List.cons.injEq,
    and_iff_right rfl]

theorem take_escape_special (special : Special c) :
    (escape (c :: data)).take (c :: data).length = c :: data ↔
      c = 0x7D ∧ data = List.replicate data.length 0x5D := by
  rw [escape_special special, List.length_cons, List.take_succ_cons, List.cons.injEq, eq_comm]
  refine and_congr_right fun eq => ?_
  rw [eq]
  exact take_bracket_escape data

/-- The bytes that are read correctly although their escapes are still there. -/
theorem take_escape_iff (data : List UInt8) :
    (escape data).take data.length = data ↔ Plain data ∨ Disguised data := by
  induction data with
  | nil => exact ⟨fun _ => .inl nofun, fun _ => rfl⟩
  | cons c data ih =>
      by_cases special : Special c
      · rw [take_escape_special special]
        constructor
        · intro ⟨eq, brackets⟩
          refine .inr ⟨[], data.length, ?_, nofun⟩
          rw [List.nil_append, eq, ← brackets]
        · intro shape
          rcases shape with plain | ⟨front, k, eq, plain⟩
          · exact absurd special (plain c List.mem_cons_self)
          · rcases front with _ | ⟨d, front⟩
            · rw [List.nil_append, List.cons.injEq] at eq
              refine ⟨eq.1, ?_⟩
              rw [eq.2, List.length_replicate]
            · rw [List.cons_append, List.cons.injEq] at eq
              rw [eq.1] at special
              exact absurd special (plain d List.mem_cons_self)
      · rw [take_escape_plain special, ih, plain_cons, and_iff_right special]
        refine or_congr_right ⟨?_, ?_⟩
        · intro ⟨front, k, eq, plain⟩
          refine ⟨c :: front, k, ?_, plain_cons.mpr ⟨special, plain⟩⟩
          rw [eq, List.cons_append]
        · intro ⟨front, k, eq, plain⟩
          rcases front with _ | ⟨d, front⟩
          · rw [List.nil_append, List.cons.injEq] at eq
            rw [eq.1] at special
            exact absurd (.inr (.inr rfl)) special
          · rw [List.cons_append, List.cons.injEq] at eq
            exact ⟨front, k, eq.2, (plain_cons.mp plain).2⟩

theorem plain_append {front back : List UInt8} :
    Plain (front ++ back) ↔ Plain front ∧ Plain back := List.forall_mem_append

/-- Where the first zero byte is, everything in front of it must be without escapes. -/
theorem survives_zero {front back : List UInt8} (nonzero : 0 ∉ front) :
    Survives (front ++ 0 :: back) ↔ Plain front ∧ (Plain back ∨ Disguised back) := by
  have zero : ¬ Special 0 := by decide
  have whole : Plain (front ++ 0 :: back) ↔ Plain front ∧ Plain back := by
    rw [plain_append, plain_cons, and_iff_right zero]
  unfold Survives
  rw [whole]
  constructor
  · intro survives
    rcases survives with none | plain | ⟨longer, k, eq, plain, mem⟩
    · exact absurd (List.mem_append_right front List.mem_cons_self) none
    · exact ⟨plain.1, .inl plain.2⟩
    · rcases List.append_eq_append_iff.mp eq with ⟨more, rfl, tail⟩ | ⟨more, rfl, _⟩
      · rcases more with _ | ⟨d, more⟩
        · cases tail
        · rw [List.cons_append, List.cons.injEq] at tail
          rw [plain_append, plain_cons] at plain
          exact ⟨plain.1, .inr ⟨more, k, tail.2, plain.2.2⟩⟩
      · exact absurd (List.mem_append_left more mem) nonzero
  · intro ⟨plain, rest⟩
    rcases rest with back_plain | ⟨more, k, rfl, more_plain⟩
    · exact .inr (.inl ⟨plain, back_plain⟩)
    · refine .inr (.inr ⟨front ++ 0 :: more, k, by simp, ?_, by simp⟩)
      rw [plain_append, plain_cons]
      exact ⟨plain, zero, more_plain⟩

/-- The bytes that are read when the string ends at a zero byte of the data. -/
theorem take_decoded_zero {front back rest : List UInt8} {l : UInt8} (nonzero : 0 ∉ front)
    (l_nonzero : l ≠ 0) :
    (front ++ List.replicate (front.countP (Special ·)) l ++ 0 :: (escape back ++ rest)).take
        (front ++ 0 :: back).length = front ++ 0 :: back ↔
      Survives (front ++ 0 :: back) := by
  rw [survives_zero nonzero, List.append_assoc, List.length_append, List.take_length_add_append,
    List.append_cancel_left_eq]
  cases count : front.countP (Special ·) with
  | zero =>
      have plain : Plain front := fun c mem => by
        simpa using List.countP_eq_zero.mp count c mem
      have enough : back.length ≤ (escape back).length := by
        rw [length_escape]
        exact Nat.le_add_right _ _
      rw [and_iff_right plain, ← take_escape_iff, List.replicate_zero, List.nil_append,
        List.length_cons, List.take_succ_cons, List.cons.injEq, and_iff_right rfl,
        List.take_append_of_le_length enough]
  | succ n =>
      have special : ¬ Plain front := fun plain => by
        have none : front.countP (Special ·) = 0 :=
          List.countP_eq_zero.mpr fun c mem => by simpa using plain c mem
        rw [count] at none
        cases none
      rw [List.replicate_succ, List.cons_append, List.length_cons, List.take_succ_cons,
        List.cons.injEq]
      exact ⟨fun eq => absurd eq.1 l_nonzero, fun both => absurd both.1 special⟩

end Survives

/-! ## One byte of the memory -/

section Byte

/-- What holds of every byte may be checked one by one. -/
theorem forall_byte {P : UInt8 → Prop} (all : ∀ n : Fin 256, P (.ofNat n)) (c : UInt8) : P c := by
  have here := all ⟨c.toNat, c.toNat_lt⟩
  rwa [UInt8.ofNat_toNat] at here

theorem signExtend_shift (c : UInt8) : signExtend c <<< 8 = c.toUInt16 <<< 8 := by
  revert c
  exact forall_byte (by decide +kernel)

theorem signExtend_low (c : UInt8) (low : ¬ 0x80 ≤ c) : signExtend c = c.toUInt16 <<< 0 := by
  revert c
  exact forall_byte (by decide +kernel)

theorem signExtend_high (c : UInt8) (high : 0x80 ≤ c) :
    signExtend c = 0xFF00 ||| c.toUInt16 ∧ byte16 (signExtend c) 0 = c ∧
      byte16 (signExtend c) 1 = 0xFF := by
  revert c
  exact forall_byte (by decide +kernel)

/-- The bits of the other byte are all set. -/
theorem or_signExtend_high {c : UInt8} (high : 0x80 ≤ c) (val : UInt16) :
    (val &&& 0xFF00) ||| signExtend c = signExtend c := by
  rw [(signExtend_high c high).1, ← UInt16.or_assoc]
  congr 1
  apply UInt16.toBitVec_inj.mp
  ext i inside
  simp only [UInt16.toBitVec_or, UInt16.toBitVec_and, BitVec.getElem_or, BitVec.getElem_and]
  cases val.toBitVec[i] <;> simp

variable {mcu mcu' : Mcu} {a : UInt32} {c : UInt8} {dev : Device} {offset : UInt32}

theorem gdbMcuWriteByte_eq (same : a &&& 1 ≠ 0 ∨ ¬ 0x80 ≤ c) :
    gdbMcuWriteByte mcu a c = mcuUtilWrite8 mcu a c := by
  unfold gdbMcuWriteByte mcuUtilWrite8
  cases mcuFetch16 mcu (a &&& ~~~ 1) with
  | none => rfl
  | some val =>
      dsimp only
      rw [signExtend_shift]
      rcases same with odd | low
      · rw [if_pos odd, if_pos odd]
      · rw [signExtend_low c low]

theorem and_not_one_of_even (even : a &&& 1 = 0) : a &&& ~~~ 1 = a := by
  have bit := toNat_and_one a
  rw [even] at bit
  have zero : (0 : UInt32).toNat = 0 := rfl
  rw [← UInt32.toNat_inj, toNat_and_not_one]
  omega

theorem gdbMcuWriteByte_high (even : a &&& 1 = 0) (high : 0x80 ≤ c) {val : UInt16}
    (fetched : mcuFetch16 mcu (a &&& ~~~ 1) = some val) :
    gdbMcuWriteByte mcu a c = mcuWrite16 mcu (a &&& ~~~ 1) (signExtend c) := by
  unfold gdbMcuWriteByte
  rw [fetched]
  dsimp only
  rw [if_neg (not_not.mpr even), or_signExtend_high high]

/-- What `gdb_mcu_write_byte` writes: the byte, and with a negative one at an even address 0xFF behind
it. -/
def gdbWritten (a : UInt32) (c : UInt8) (b : UInt32) : Option UInt8 :=
  if b = a then some c
  else if a &&& 1 = 0 ∧ 0x80 ≤ c ∧ b = a + 1 then some 0xFF
  else none

/-- The bytes of the memory have changed as `written` says, and nothing else that a write depends
on. -/
structure BytesChange (mcu mcu' : Mcu) (written : UInt32 → Option UInt8) : Prop where
  fetch8 : ∀ b, mcuUtilFetch8 mcu' b = (mcuUtilFetch8 mcu b).map fun old => (written b).getD old
  memDevAt : mcu'.memDevAt = mcu.memDevAt
  unlocked : mcu'.unlocked = mcu.unlocked

theorem bytesChange_of_readsChange {near : UInt32} {v : UInt16} {written : UInt32 → Option UInt8}
    (near_at : mcu.memDevAt near = some (dev, offset)) (writable : mcu.Writable dev)
    (wrote : mcuWrite16 mcu near v = .ok true mcu') (reads : ReadsChange mcu mcu' written) :
    BytesChange mcu mcu' written := by
  obtain ⟨m, array⟩ := writable.array
  rw [mcuWrite16_writable near_at writable array] at wrote
  cases wrote
  refine ⟨reads.fetch8, Device.memDevAt_setBytes _ _ _, ?_⟩
  cases dev <;> rfl

/-- The effect of `gdb_mcu_write_byte` on RAM or unlocked flash. -/
theorem gdbMcuWriteByte_writes (at_ : mcu.memDevAt a = some (dev, offset))
    (writable : mcu.Writable dev) (c : UInt8) :
    ∃ mcu', gdbMcuWriteByte mcu a c = .ok true mcu' ∧ BytesChange mcu mcu' (gdbWritten a c) := by
  obtain ⟨m, array⟩ := writable.array
  have even := toNat_and_not_one a
  obtain ⟨near, near_at, _⟩ :=
    memDevAt_near at_ (show (a &&& ~~~ 1).toNat / 4 = a.toNat / 4 by omega)
  have fetched := mcuFetch16_bytes near_at array
  by_cases same : a &&& 1 ≠ 0 ∨ ¬ 0x80 ≤ c
  · obtain ⟨mcu', wrote, reads⟩ := readsChange_write8 at_ writable c
    have written : written8 a c = gdbWritten a c := by
      funext b
      unfold written8 gdbWritten
      rw [if_neg (show ¬ (a &&& 1 = 0 ∧ 0x80 ≤ c ∧ b = a + 1) by tauto)]
    rw [written] at reads
    refine ⟨mcu', (gdbMcuWriteByte_eq same).trans wrote, ?_⟩
    unfold mcuUtilWrite8 at wrote
    rw [fetched] at wrote
    exact bytesChange_of_readsChange near_at writable wrote reads
  · have even : a &&& 1 = 0 := by tauto
    have high : 0x80 ≤ c := by tauto
    obtain ⟨mcu', wrote, reads⟩ := readsChange_write16 near_at writable (signExtend c)
    refine ⟨mcu', (gdbMcuWriteByte_high even high fetched).trans wrote, ?_⟩
    have written : written16 (a &&& ~~~ 1) (signExtend c) = gdbWritten a c := by
      funext b
      unfold written16 gdbWritten
      rw [and_not_one_of_even even, and_not_one_of_even even, (signExtend_high c high).2.1,
        (signExtend_high c high).2.2]
      simp only [even, high, true_and]
    rw [written] at reads
    exact bytesChange_of_readsChange near_at writable wrote reads

end Byte

/-! ## All bytes of the memory -/

/-- What the loop of the packet `X` writes. -/
def gdbWrittenAll (a : UInt32) : List UInt8 → UInt32 → Option UInt8
  | [], _ => none
  | c :: bytes, b => (gdbWrittenAll (a + 1) bytes b).or (gdbWritten a c b)

/-- The byte behind those of the loop, when the last one is negative and at an even address. -/
def spilled (a : UInt32) (bytes : List UInt8) (b : UInt32) : Option UInt8 :=
  match bytes.getLast? with
  | none => none
  | some c =>
      if (a + .ofNat (bytes.length - 1)) &&& 1 = 0 ∧ 0x80 ≤ c ∧ b = a + .ofNat bytes.length then
        some 0xFF
      else none

/-- All addresses from `a` on are in RAM or in flash. -/
def Mcu.InMemory (mcu : Mcu) (a : UInt32) (n : Nat) : Prop :=
  ∀ i < n, ∃ dev offset, mcu.memDevAt (a + .ofNat i) = some (dev, offset) ∧
    (dev = .ram ∨ dev = .flash)

section Bytes

variable {mcu mcu₁ mcu₂ : Mcu} {a b : UInt32} {n : Nat} {bytes : List UInt8}

theorem add_ofNat_succ (a : UInt32) (i : Nat) : a + .ofNat (i + 1) = a + 1 + .ofNat i := by
  rw [UInt32.ofNat_add]
  grind

theorem Mcu.InMemory.tail (inside : mcu.InMemory a (n + 1)) : mcu.InMemory (a + 1) n := by
  intro i small
  rw [← add_ofNat_succ]
  exact inside (i + 1) (Nat.succ_lt_succ small)

theorem BytesChange.trans {first second : UInt32 → Option UInt8} (left : BytesChange mcu mcu₁ first)
    (right : BytesChange mcu₁ mcu₂ second) :
    BytesChange mcu mcu₂ fun b => (second b).or (first b) := by
  refine ⟨fun b => ?_, right.memDevAt.trans left.memDevAt, right.unlocked.trans left.unlocked⟩
  rw [right.fetch8, left.fetch8, Option.map_map]
  congr 1
  funext old
  cases second b with
  | none => rfl
  | some v => rfl

/-- The loop of the packet `X` over RAM or unlocked flash. -/
theorem gdbWriteBytes_writes (buffer : LittleEndian.Bytes) (p : Nat) (unlocked : mcu.unlocked = true)
    (inside : mcu.InMemory a n) :
    ∃ mcu', gdbWriteBytes buffer mcu a p n = .ok true mcu' ∧
      BytesChange mcu mcu' (gdbWrittenAll a (read buffer p n)) := by
  induction n generalizing mcu a p with
  | zero =>
      refine ⟨mcu, rfl, fun b => ?_, rfl, rfl⟩
      cases mcuUtilFetch8 mcu b with
      | none => rfl
      | some old => rfl
  | succ n ih =>
      obtain ⟨dev, offset, at_, memory⟩ := inside 0 (Nat.succ_pos n)
      have zero : a + .ofNat 0 = a := by grind
      rw [zero] at at_
      have writable : mcu.Writable dev := memory.imp id fun flash => ⟨flash, unlocked⟩
      obtain ⟨mcu₁, wrote, first⟩ := gdbMcuWriteByte_writes at_ writable (buffer p)
      have inside₁ : mcu₁.InMemory (a + 1) n := by
        unfold Mcu.InMemory
        rw [first.memDevAt]
        exact inside.tail
      obtain ⟨mcu₂, loop, rest⟩ := ih (p + 1) (first.unlocked.trans unlocked) inside₁
      refine ⟨mcu₂, ?_, ?_⟩
      · unfold gdbWriteBytes
        rw [wrote]
        exact loop
      · rw [read_succ]
        exact first.trans rest

/-- An address that is not one of the next bytes. -/
theorem ne_tail (outside : ∀ i < n + 1, b ≠ a + .ofNat i) : ∀ i < n, b ≠ a + 1 + .ofNat i := by
  intro i small
  rw [← add_ofNat_succ]
  exact outside (i + 1) (Nat.succ_lt_succ small)

theorem gdbWrittenAll_outside (outside : ∀ i < bytes.length, b ≠ a + .ofNat i) :
    gdbWrittenAll a bytes b = spilled a bytes b := by
  induction bytes generalizing a with
  | nil => rfl
  | cons c bytes ih =>
      have zero : a + .ofNat 0 = a := by grind
      have first : b ≠ a := by
        have ne := outside 0 (by simp)
        rwa [zero] at ne
      rw [gdbWrittenAll, ih (ne_tail outside)]
      rcases bytes with _ | ⟨d, bytes⟩
      · have one : a + .ofNat 1 = a + 1 := rfl
        simp [spilled, gdbWritten, first]
      · have second : b ≠ a + 1 := outside 1 (by simp)
        have length : (a + 1 + .ofNat ((d :: bytes).length - 1) : UInt32) =
            a + .ofNat ((c :: d :: bytes).length - 1) := by
          rw [← add_ofNat_succ]
          rfl
        have behind : (a + 1 + .ofNat (d :: bytes).length : UInt32) =
            a + .ofNat (c :: d :: bytes).length := by
          rw [← add_ofNat_succ]
          rfl
        simp only [spilled, List.getLast?_cons_cons, gdbWritten, first, second, and_false, if_false,
          length, behind, Option.or_none]

/-- No device reaches the last address. -/
theorem Mcu.InMemory.bound (inside : mcu.InMemory a n) : a.toNat + n < 2 ^ 32 := by
  by_contra wraps
  have start := a.toNat_lt
  obtain ⟨dev, offset, at_, _⟩ := inside (2 ^ 32 - 1 - a.toNat) (by omega)
  obtain ⟨mem, _, _, _, _, lt⟩ := memDevAt_offset at_
  have lt := UInt32.lt_iff_toNat_lt.mp lt
  have last := (mem.offset + mem.length).toNat_lt
  rw [UInt32.toNat_add, UInt32.toNat_ofNat'] at lt
  omega

theorem gdbWrittenAll_inside {i : Nat} (bound : a.toNat + bytes.length < 2 ^ 32)
    (small : i < bytes.length) : gdbWrittenAll a bytes (a + .ofNat i) = some bytes[i] := by
  induction bytes generalizing a i with
  | nil => cases small
  | cons c bytes ih =>
      rw [List.length_cons] at bound small
      have place : (a + 1).toNat = a.toNat + 1 := by
        have one : (1 : UInt32).toNat = 1 := rfl
        rw [UInt32.toNat_add, one]
        omega
      cases i with
      | zero =>
          have zero : a + .ofNat 0 = a := by grind
          have before : ∀ k ≤ bytes.length, a ≠ a + 1 + .ofNat k := by
            intro k le eq
            have eq := congrArg UInt32.toNat eq
            rw [UInt32.toNat_add, place, UInt32.toNat_ofNat'] at eq
            omega
          have none : spilled (a + 1) bytes a = none := by
            unfold spilled
            cases bytes.getLast? with
            | none => rfl
            | some d => exact if_neg fun both => before _ le_rfl both.2.2
          rw [gdbWrittenAll, zero, gdbWrittenAll_outside fun k lt => before k (Nat.le_of_lt lt), none]
          exact if_pos rfl
      | succ i =>
          rw [gdbWrittenAll, add_ofNat_succ, ih (by omega) (by omega)]
          rfl

/-- The memory holds the bytes from `a` on, and everywhere else what it held before. -/
def Downloads (mcu mcu' : Mcu) (a : UInt32) (data : List UInt8) : Prop :=
  (∀ i (small : i < data.length), mcuUtilFetch8 mcu' (a + .ofNat i) = some data[i]) ∧
    ∀ b, (∀ i < data.length, b ≠ a + .ofNat i) → mcuUtilFetch8 mcu' b = mcuUtilFetch8 mcu b

/-- The last byte is negative and at an even address, and the byte behind it is not 0xFF already. -/
def Mcu.Spills (mcu : Mcu) (a : UInt32) (data : List UInt8) : Prop :=
  ∃ c ∈ data.getLast?, 0x80 ≤ c ∧ (a + .ofNat (data.length - 1)) &&& 1 = 0 ∧
    mcuUtilFetch8 mcu (a + .ofNat data.length) ≠ some 0xFF

theorem mcuUtilFetch8_inMemory {dev : Device} {offset : UInt32}
    (at_ : mcu.memDevAt a = some (dev, offset)) (memory : dev = .ram ∨ dev = .flash) :
    ∃ old, mcuUtilFetch8 mcu a = some old := by
  have array : ∃ m, dev.bytes mcu = some m := by
    rcases memory with rfl | rfl
    · exact ⟨_, rfl⟩
    · exact ⟨_, rfl⟩
  obtain ⟨m, array⟩ := array
  exact ⟨_, mcuUtilFetch8_bytes at_ array⟩

/-- The address behind those of the data. -/
theorem behind_ne (bound : a.toNat + n < 2 ^ 32) : ∀ i < n, a + .ofNat n ≠ a + .ofNat i := by
  intro i small eq
  have eq := congrArg UInt32.toNat eq
  rw [UInt32.toNat_add, UInt32.toNat_add, UInt32.toNat_ofNat', UInt32.toNat_ofNat'] at eq
  omega

/-- The byte behind an even address of the memory can be read, too. -/
theorem mcuUtilFetch8_behind (inside : mcu.InMemory a (n + 1)) (even : (a + .ofNat n) &&& 1 = 0) :
    ∃ old, mcuUtilFetch8 mcu (a + .ofNat (n + 1)) = some old := by
  obtain ⟨dev, offset, at_, memory⟩ := inside n (Nat.lt_succ_self n)
  obtain ⟨near, near_at, _⟩ := memDevAt_half (i := 1) at_ Nat.one_lt_two
  have place : ((a + .ofNat n) &&& ~~~ 1) + .ofNat 1 = a + .ofNat (n + 1) := by
    rw [and_not_one_of_even even, UInt32.ofNat_add]
    grind
  rw [place] at near_at
  exact mcuUtilFetch8_inMemory near_at memory

theorem fetch8_of_spilled {c : UInt8} (inside : mcu.InMemory a bytes.length)
    (last : bytes.getLast? = some c) (high : 0x80 ≤ c)
    (even : (a + .ofNat (bytes.length - 1)) &&& 1 = 0)
    (change : BytesChange mcu mcu₁ (gdbWrittenAll a bytes)) :
    mcuUtilFetch8 mcu₁ (a + .ofNat bytes.length) = some 0xFF := by
  obtain ⟨n, length⟩ : ∃ n, bytes.length = n + 1 :=
    Nat.exists_eq_succ_of_ne_zero fun empty => by
      rw [List.eq_nil_of_length_eq_zero empty] at last
      cases last
  have bound := inside.bound
  have spills : spilled a bytes (a + .ofNat bytes.length) = some 0xFF := by
    unfold spilled
    rw [last]
    exact if_pos ⟨even, high, rfl⟩
  rw [change.fetch8, gdbWrittenAll_outside (behind_ne bound), spills]
  rw [length] at inside even ⊢
  obtain ⟨old, fetched⟩ := mcuUtilFetch8_behind inside even
  rw [fetched]
  rfl

/-- **The memory after a download**: it is the data if and only if just these bytes have been written
and the last one has not changed the byte behind it. -/
theorem downloads_iff {data : List UInt8} (inside : mcu.InMemory a data.length)
    (length : bytes.length = data.length)
    (change : BytesChange mcu mcu₁ (gdbWrittenAll a bytes)) :
    Downloads mcu mcu₁ a data ↔ bytes = data ∧ ¬ mcu.Spills a data := by
  rw [← length] at inside
  have here : ∀ i (small : i < bytes.length),
      mcuUtilFetch8 mcu₁ (a + .ofNat i) = some bytes[i] := by
    intro i small
    obtain ⟨dev, offset, at_, memory⟩ := inside i small
    obtain ⟨old, fetched⟩ := mcuUtilFetch8_inMemory at_ memory
    rw [change.fetch8, fetched, gdbWrittenAll_inside inside.bound small]
    rfl
  constructor
  · intro ⟨written, kept⟩
    have eq : bytes = data := List.ext_getElem length fun i left right => by
      have both := (here i left).symm.trans (written i right)
      exact Option.some.inj both
    subst eq
    refine ⟨rfl, fun ⟨c, last, high, even, changed⟩ => changed ?_⟩
    rw [← kept _ (behind_ne inside.bound)]
    exact fetch8_of_spilled inside last high even change
  · intro ⟨eq, stays⟩
    subst eq
    refine ⟨here, fun b outside => ?_⟩
    rw [change.fetch8, gdbWrittenAll_outside outside]
    cases spills : spilled a bytes b with
    | none =>
        cases mcuUtilFetch8 mcu b with
        | none => rfl
        | some old => rfl
    | some v =>
        unfold spilled at spills
        split at spills
        · cases spills
        · rename_i c last
          split at spills
          · rename_i cond
            obtain ⟨even, high, rfl⟩ := cond
            cases spills
            have already : mcuUtilFetch8 mcu (a + .ofNat bytes.length) = some 0xFF := by
              by_contra changed
              exact stays ⟨c, last, high, even, changed⟩
            rw [already]
            rfl
          · cases spills

end Bytes

/-! ## The packet -/

/-- What is in front of the data: the address and the length as texts. -/
def downloadHeader (addr length : List UInt8) : List UInt8 :=
  0x58 :: (addr ++ 0x2C :: (length ++ [0x3A]))

/-- A well-formed packet `X`: the address and the length are hexadecimal numbers, the data is escaped,
and the checksum has two digits. -/
def IsDownload (addr : UInt32) (data packet : List UInt8) : Prop :=
  ∃ addrText lengthText checksum : List UInt8,
    IsNumber addrText addr.toNat ∧ IsNumber lengthText data.length ∧ checksum.length = 2 ∧
    IsNumber checksum (downloadHeader addrText lengthText ++ escape data).sum.toNat ∧
    packet = 0x24 :: (downloadHeader addrText lengthText ++ escape data) ++ 0x23 :: checksum

section Packet

variable {gdb : Gdb} {p q limit : Nat} {body header data : List UInt8} {buffer : LittleEndian.Bytes}

/-- The number that `strtol` returns for one, as 32 bits of it. -/
def strtolWord (value : Nat) : UInt32 := .ofInt (toLong value)

theorem strtolWord_eq {value : Nat} (small : value < 2 ^ 32) : strtolWord value = .ofNat value := by
  have long : toLong (value : Int) = value := by
    unfold toLong
    omega
  unfold strtolWord
  rw [long]
  apply UInt32.toNat_inj.mp
  simp only [UInt32.ofInt, UInt32.toNat_ofNat']
  omega

theorem Gdb.strtol_word {digits : List UInt8} {value : Nat} {c : UInt8}
    (held : Holds gdb.revBuffer p (digits ++ [c])) (inside : p + digits.length < gdb.revBufferLength)
    (number : IsNumber digits value) (last : isxdigit c = false) (other : c ≠ 0x78 ∧ c ≠ 0x58) :
    gdb.strtol p = (strtolWord value, p + digits.length) := by
  obtain ⟨k, limit⟩ := Nat.exists_eq_add_of_lt inside
  have text : read gdb.revBuffer p (gdb.revBufferLength - p) =
      digits ++ c :: read gdb.revBuffer (p + digits.length + 1) k := by
    rw [show gdb.revBufferLength - p = (digits ++ [c]).length + k by simp; omega, read_add, held,
      List.length_append, List.length_singleton, List.append_assoc, Nat.add_assoc]
    rfl
  unfold Gdb.strtol
  rw [text, CString.strtol_digits number.digit number.nonempty last other, number.value]
  rfl

theorem Gdb.strtol_number {digits : List UInt8} {value : Nat} {c : UInt8}
    (held : Holds gdb.revBuffer p (digits ++ [c])) (inside : p + digits.length < gdb.revBufferLength)
    (number : IsNumber digits value) (small : value < 2 ^ 32) (last : isxdigit c = false)
    (other : c ≠ 0x78 ∧ c ≠ 0x58) : gdb.strtol p = (.ofNat value, p + digits.length) := by
  rw [Gdb.strtol_word held inside number last other, strtolWord_eq small]

/-- A packet with a correct checksum is acknowledged, decoded and dispatched. -/
theorem gdbHandlePacket_accepts (pastTable : UInt32 → Bool) {checksum : List UInt8}
    (held : Holds gdb.revBuffer p (0x24 :: body ++ 0x23 :: checksum)) (plain : 0x23 ∉ body)
    (two : checksum.length = 2) (number : IsNumber checksum body.sum.toNat) :
    ∃ gdb', gdbHandlePacket pastTable gdb p (0x24 :: body ++ 0x23 :: checksum).length =
        gdbDispatch pastTable (gdbUnescape gdb' (p + 1)) (p + 1) ∧
      gdb'.mcu = gdb.mcu ∧ gdb'.revBufferLength = gdb.revBufferLength ∧
      Holds gdb'.revBuffer (p + 1) (body ++ [0]) ∧
      ∃ revBuffer, gdb' = (gdbSendAck { gdb with revBuffer }).2 := by
  obtain ⟨first, second, rfl⟩ := List.length_eq_two.mp two
  rw [List.cons_append, holds_cons_iff] at held
  have inside : ∀ c ∈ body, decide (c ≠ 0x23) = true := by
    intro c mem
    refine decide_eq_true fun eq => plain ?_
    rw [← eq]
    exact mem
  have found : gdb.packetBody (p + 1) (body ++ 0x23 :: [first, second]).length = body := by
    unfold Gdb.packetBody
    rw [held.2, List.takeWhile_append_of_pos inside]
    simp
  rw [holds_append_iff, holds_cons_iff, holds_cons_iff, holds_singleton_iff] at held
  have small := body.sum.toNat_lt
  have checked : CString.strtol ([first, second] ++ 0 :: []) = ((body.sum.toNat : Int), 2) :=
    CString.strtol_number number (by omega) rfl (by decide)
  rw [List.cons_append, List.singleton_append] at checked
  have sum : UInt8.ofInt (body.sum.toNat : Int) = body.sum := by
    apply UInt8.toNat_inj.mp
    simp only [UInt8.ofInt, UInt8.toNat_ofNat']
    omega
  unfold gdbHandlePacket
  have length : (0x24 :: body ++ 0x23 :: [first, second]).length - 1 =
      (body ++ 0x23 :: [first, second]).length := rfl
  dsimp only
  rw [length, found, if_neg (by simp)]
  have kept₁ : (gdb.endMessage (p + 1 + body.length)).revBuffer (p + 1 + body.length + 1) = first :=
    (Function.update_of_ne (by omega) _ _).trans held.2.2.2.1
  have kept₂ : (gdb.endMessage (p + 1 + body.length)).revBuffer (p + 1 + body.length + 2) = second :=
    (Function.update_of_ne (by omega) _ _).trans held.2.2.2.2
  rw [kept₁, kept₂, checked, sum, if_neg (not_not.mpr rfl)]
  have sends : (gdb.endMessage (p + 1 + body.length)).Sends
      (gdbSendAck (gdb.endMessage (p + 1 + body.length))).2 := sends_gdbWrite _ _
  refine ⟨_, rfl, sends.mcu.trans (gdb.endMessage_mcu _),
    sends.revBufferLength.trans (gdb.endMessage_revBufferLength _), ?_, _, rfl⟩
  rw [sends.revBuffer, holds_append_iff, holds_singleton_iff]
  exact ⟨held.2.1.congr fun i _ => Function.update_of_ne (by omega) _ _, Function.update_self _ _ _⟩

/-- The string up to the first zero byte, without its escapes. -/
theorem decoded_string {front : List UInt8} (plain : ∀ c ∈ header, c ≠ 0 ∧ c ≠ 0x7D)
    (nonzero : 0 ∉ front) (held : Holds buffer q (header ++ escape front ++ [0]))
    (short : (header ++ escape front).length < limit) :
    ∃ l : UInt8, l ≠ 0 ∧ Holds (gdbDecode buffer q (strlen buffer q limit)) q
        (header ++ (front ++ List.replicate (front.countP (Special ·)) l)) ∧
      ∀ x, q + (header ++ escape front).length ≤ x →
        gdbDecode buffer q (strlen buffer q limit) x = buffer x := by
  have header_nonzero : 0 ∉ header := fun mem => (plain 0 mem).1 rfl
  have string_nonzero : 0 ∉ header ++ escape front := fun mem =>
    (List.mem_append.mp mem).elim header_nonzero (zero_not_mem_escape nonzero)
  rw [strlen_eq held string_nonzero short]
  have last : ∃ l : UInt8, l ≠ 0 ∧ l ≠ 0x7D ∧ ∀ c ∈ (escape front).getLast?, c = l := by
    cases eq : (escape front).getLast? with
    | none => exact ⟨1, by decide, by decide, nofun⟩
    | some l =>
        refine ⟨l, ?_, getLast_escape_ne eq, fun c same => (Option.some.inj same).symm⟩
        intro zero
        rw [zero] at eq
        exact zero_not_mem_escape nonzero (List.mem_of_getLast? eq)
  obtain ⟨l, l_nonzero, l_plain, l_last⟩ := last
  refine ⟨l, l_nonzero, ?_, fun x after => gdbDecode_outside _ _ _ (.inr after)⟩
  rw [holds_append_iff, holds_append_iff] at held
  have decoded := holds_gdbDecode (m := 0) nonzero l_nonzero l_plain
    (by rw [List.replicate_zero, List.append_nil]; exact held.1.2)
    (by rw [List.replicate_zero, List.append_nil]; exact l_last)
  rw [List.length_append, gdbDecode_plain held.1.1 plain, holds_append_iff]
  refine ⟨held.1.1.congr fun i small => gdbDecode_outside _ _ _ (.inl (by omega)), ?_⟩
  exact decoded

/-- What the packet `X` writes is the data if and only if the data survives. -/
theorem decoded_data (plain : ∀ c ∈ header, c ≠ 0 ∧ c ≠ 0x7D)
    (held : Holds buffer q (header ++ escape data ++ [0]))
    (short : (header ++ escape data).length < limit) :
    Holds (gdbDecode buffer q (strlen buffer q limit)) q header ∧
      (read (gdbDecode buffer q (strlen buffer q limit)) (q + header.length) data.length = data ↔
        Survives data) := by
  by_cases zero : 0 ∈ data
  · obtain ⟨front, back, rfl, nonzero⟩ := List.eq_append_cons_of_mem zero
    rw [escape_append, escape_plain (show ¬ Special 0 by decide)] at held short
    have split : header ++ (escape front ++ 0 :: escape back) ++ [0] =
        header ++ escape front ++ [0] ++ (escape back ++ [0]) := by simp
    rw [split, holds_append_iff] at held
    have shorter : (header ++ escape front).length < limit := by
      simp only [List.length_append] at short ⊢
      omega
    obtain ⟨l, l_nonzero, decoded, after⟩ := decoded_string plain nonzero held.1 shorter
    rw [holds_append_iff] at decoded
    refine ⟨decoded.1, ?_⟩
    have ends : Holds buffer (q + (header ++ escape front).length) (0 :: (escape back ++ [0])) := by
      rw [← List.singleton_append, holds_append_iff]
      refine ⟨(holds_append_iff.mp held.1).2, ?_⟩
      have place := held.2
      rwa [List.length_append, ← Nat.add_assoc] at place
    have kept := ends.congr fun i _ => after _ (Nat.le_add_right _ i)
    have place : q + (header ++ escape front).length =
        q + header.length + (front ++ List.replicate (front.countP (Special ·)) l).length := by
      simp only [List.length_append, length_escape, List.length_replicate]
      omega
    rw [place] at kept
    have whole := holds_append_iff.mpr ⟨decoded.2, kept⟩
    have enough : (front ++ 0 :: back).length ≤
        (front ++ List.replicate (front.countP (Special ·)) l ++ 0 :: (escape back ++ [0])).length := by
      simp only [List.length_append, List.length_cons, length_escape]
      omega
    rw [whole.read_take enough]
    exact take_decoded_zero nonzero l_nonzero
  · obtain ⟨l, _, decoded, _⟩ := decoded_string plain zero held short
    rw [holds_append_iff, holds_append_iff] at decoded
    exact ⟨decoded.1, fun _ => .inl zero, fun _ => decoded.2.1⟩

theorem header_cases {addrText lengthText : List UInt8} {c : UInt8}
    (addr : ∀ c ∈ addrText, isxdigit c = true) (length : ∀ c ∈ lengthText, isxdigit c = true)
    (mem : c ∈ downloadHeader addrText lengthText) : c ≠ 0 ∧ c ≠ 0x7D ∧ c ≠ 0x23 := by
  have digit : isxdigit c = true → c ≠ 0 ∧ c ≠ 0x7D ∧ c ≠ 0x23 := fun digit =>
    ⟨ne_of_isxdigit digit rfl, ne_of_isxdigit digit rfl, ne_of_isxdigit digit rfl⟩
  simp only [downloadHeader, List.mem_cons, List.mem_append, List.not_mem_nil, or_false] at mem
  rcases mem with rfl | mem | rfl | mem | rfl
  · decide
  · exact digit (addr c mem)
  · decide
  · exact digit (length c mem)
  · decide

theorem gdbDispatch_download (pastTable : UInt32 → Bool) (command : gdb.revBuffer p = 0x58) :
    gdbDispatch pastTable gdb p = gdbDownload gdb (p + 1) := by
  unfold gdbDispatch
  dsimp only
  rw [command]
  iterate 10 rw [if_neg (by decide)]
  exact if_pos rfl

/-- The numbers of the packet `X` say what is written. -/
theorem gdbDownload_wrote {addrText lengthText : List UInt8} {addr length : UInt32} {mcu : Mcu}
    {success : Bool} (held : Holds gdb.revBuffer p (downloadHeader addrText lengthText))
    (inside : p + (downloadHeader addrText lengthText).length ≤ gdb.revBufferLength)
    (addrNumber : IsNumber addrText addr.toNat) (lengthNumber : IsNumber lengthText length.toNat)
    (wrote : gdbWriteBytes gdb.revBuffer (mcuUnlock gdb.mcu) addr
      (p + (downloadHeader addrText lengthText).length) length.toNat = .ok success mcu) :
    ∃ gdb', gdbDownload gdb (p + 1) = .ok true gdb' ∧ gdb'.mcu = mcuLock mcu := by
  have total : (downloadHeader addrText lengthText).length =
      addrText.length + lengthText.length + 3 := by
    simp only [downloadHeader, List.length_cons, List.length_append, List.length_nil]
    omega
  unfold downloadHeader at held
  rw [holds_cons_iff, holds_append_iff, holds_cons_iff, holds_append_iff, holds_singleton_iff] at held
  have first : gdb.strtol (p + 1) = (addr, p + 1 + addrText.length) := by
    rw [Gdb.strtol_number (c := 0x2C) (holds_append_iff.mpr ⟨held.2.1, holds_singleton_iff.mpr
      held.2.2.1⟩) (by omega) addrNumber addr.toNat_lt rfl (by decide), UInt32.ofNat_toNat]
  have second : gdb.strtol (p + 1 + addrText.length + 1) =
      (length, p + 1 + addrText.length + 1 + lengthText.length) := by
    rw [Gdb.strtol_number (c := 0x3A) (holds_append_iff.mpr ⟨held.2.2.2.1, holds_singleton_iff.mpr
      held.2.2.2.2⟩) (by omega) lengthNumber length.toNat_lt rfl (by decide), UInt32.ofNat_toNat]
  have place : p + 1 + addrText.length + 1 + lengthText.length + 1 =
      p + (downloadHeader addrText lengthText).length := by omega
  unfold gdbDownload
  rw [first]
  dsimp only
  rw [second]
  dsimp only
  rw [place, wrote]
  exact ⟨_, rfl, (sends_gdbSendPacket _ _).mcu⟩

/-- **The packet `X`** writes as many bytes as there are, which are the data if and only if the data
survives. -/
theorem gdbHandlePacket_download (pastTable : UInt32 → Bool) {addr : UInt32} {packet : List UInt8}
    (download : IsDownload addr data packet) (held : Holds gdb.revBuffer p packet)
    (inside : p + packet.length ≤ gdb.revBufferLength)
    (memory : gdb.mcu.InMemory addr data.length) :
    ∃ bytes mcu gdb', gdbHandlePacket pastTable gdb p packet.length = .ok true gdb' ∧
      gdb'.mcu = mcuLock mcu ∧ bytes.length = data.length ∧ (bytes = data ↔ Survives data) ∧
      BytesChange (mcuUnlock gdb.mcu) mcu (gdbWrittenAll addr bytes) := by
  obtain ⟨addrText, lengthText, checksum, addrNumber, lengthNumber, two, number, rfl⟩ := download
  generalize header_eq : downloadHeader addrText lengthText = header at *
  have header_plain : ∀ c ∈ header, c ≠ 0 ∧ c ≠ 0x7D ∧ c ≠ 0x23 := fun c mem =>
    header_cases addrNumber.digit lengthNumber.digit (header_eq ▸ mem)
  have no_hash : 0x23 ∉ header ++ escape data := fun mem =>
    (List.mem_append.mp mem).elim (fun mem => (header_plain _ mem).2.2 rfl) (hash_not_mem_escape data)
  obtain ⟨gdb₁, accepted, mcu₁, length₁, held₁, _⟩ :=
    gdbHandlePacket_accepts pastTable held no_hash two number
  simp only [List.length_append, List.length_cons] at inside
  have short : (header ++ escape data).length < gdb₁.revBufferLength - (p + 1) := by
    rw [length₁, List.length_append]
    omega
  obtain ⟨header_held, survives⟩ := decoded_data
    (fun c mem => ⟨(header_plain c mem).1, (header_plain c mem).2.1⟩) held₁ short
  have small := memory.bound
  have toNat : (UInt32.ofNat data.length).toNat = data.length := by
    rw [UInt32.toNat_ofNat']
    omega
  have memory₁ : (mcuUnlock gdb₁.mcu).InMemory addr (UInt32.ofNat data.length).toNat := by
    rw [mcu₁, toNat]
    exact memory
  obtain ⟨mcu, wrote, change⟩ := gdbWriteBytes_writes (gdbUnescape gdb₁ (p + 1)).revBuffer
    (p + 1 + header.length) rfl memory₁
  have command : (gdbUnescape gdb₁ (p + 1)).revBuffer (p + 1) = 0x58 := by
    rw [← header_eq] at header_held
    exact (holds_cons_iff.mp header_held).1
  rw [← toNat] at lengthNumber
  rw [← header_eq] at header_held wrote
  obtain ⟨gdb', downloaded, locked⟩ := gdbDownload_wrote header_held (by
    rw [header_eq]
    show _ ≤ gdb₁.revBufferLength
    omega) addrNumber lengthNumber wrote
  refine ⟨_, mcu, gdb', ?_, locked, ?_, survives, ?_⟩
  · rw [accepted, gdbDispatch_download pastTable command, downloaded]
  · exact length_read _ _ _
  · rw [mcu₁, toNat] at change
    exact change

end Packet

/-! ## Faithful downloads -/

/-- After a packet has been handled, the memory from `addr` on holds exactly the data and every other
byte of the memory is what it was. -/
def FaithfulDownload (pastTable : UInt32 → Bool) (gdb : Gdb) (p : Nat) (addr : UInt32)
    (data packet : List UInt8) : Prop :=
  ∃ b gdb', gdbHandlePacket pastTable gdb p packet.length = .ok b gdb' ∧
    Downloads gdb.mcu gdb'.mcu addr data

theorem faithfulDownload_of_bytes {pastTable : UInt32 → Bool} {gdb gdb' : Gdb} {p : Nat}
    {addr : UInt32} {data packet bytes : List UInt8} {mcu : Mcu}
    (handled : gdbHandlePacket pastTable gdb p packet.length = .ok true gdb')
    (locked : gdb'.mcu = mcuLock mcu) (length : bytes.length = data.length)
    (memory : gdb.mcu.InMemory addr data.length)
    (change : BytesChange (mcuUnlock gdb.mcu) mcu (gdbWrittenAll addr bytes)) :
    FaithfulDownload pastTable gdb p addr data packet ↔
      bytes = data ∧ ¬ gdb.mcu.Spills addr data := by
  have reads : Downloads gdb.mcu gdb'.mcu addr data ↔
      Downloads (mcuUnlock gdb.mcu) mcu addr data := by
    rw [locked]
    exact Iff.rfl
  have iff : Downloads (mcuUnlock gdb.mcu) mcu addr data ↔
      bytes = data ∧ ¬ gdb.mcu.Spills addr data := downloads_iff memory length change
  constructor
  · intro ⟨b, gdb₁, handled₁, faithful⟩
    rw [handled] at handled₁
    cases handled₁
    exact iff.mp (reads.mp faithful)
  · intro both
    exact ⟨true, gdb', handled, reads.mpr (iff.mpr both)⟩

/-- **Binary downloads**: a well-formed packet `X` for RAM or flash, anywhere in the receive buffer and
in any state, is downloaded faithfully if and only if its data survives the removal of the escapes and
its last byte does not spill into the byte behind it. -/
theorem download_iff (pastTable : UInt32 → Bool) {gdb : Gdb} {p : Nat} {addr : UInt32}
    {data packet : List UInt8} (download : IsDownload addr data packet)
    (held : Holds gdb.revBuffer p packet) (inside : p + packet.length ≤ gdb.revBufferLength)
    (memory : gdb.mcu.InMemory addr data.length) :
    FaithfulDownload pastTable gdb p addr data packet ↔
      Survives data ∧ ¬ gdb.mcu.Spills addr data := by
  obtain ⟨bytes, mcu, gdb', handled, locked, length, survives, change⟩ :=
    gdbHandlePacket_download pastTable download held inside memory
  rw [faithfulDownload_of_bytes handled locked length memory change, survives]

/-- A server that has received a packet, with the created MCU. -/
def receivedGdb (packet : List UInt8) : Gdb where
  mcu := createdMcu
  connected := true
  revBuffer := fun i => packet.getD i 0
  revBufferFilled := packet.length
  revBufferLength := 4 * 1024
  packetChecksum := 0
  sent := []
  accepts := fun _ => true

theorem holds_receivedGdb (packet : List UInt8) :
    Holds (receivedGdb packet).revBuffer 0 packet := by
  refine List.ext_getElem (length_read _ _ _) fun i left right => ?_
  simp [receivedGdb, Cells.read, right]

/-- The packet for one byte at the start of the RAM. -/
def bytePacket (c : UInt8) (checksum : String) : List UInt8 :=
  0x24 :: (ascii "X10000000,1:" ++ [c]) ++ 0x23 :: ascii checksum

theorem isDownload_bytePacket {c : UInt8} {checksum : String} (plain : ¬ Special c)
    (two : (ascii checksum).length = 2)
    (number : IsNumber (ascii checksum) (ascii "X10000000,1:" ++ [c]).sum.toNat) :
    IsDownload 0x10000000 [c] (bytePacket c checksum) := by
  have text : downloadHeader (ascii "10000000") (ascii "1") ++ escape [c] =
      ascii "X10000000,1:" ++ [c] := by
    rw [escape_plain plain]
    rfl
  refine ⟨ascii "10000000", ascii "1", ascii checksum, ?_, ?_, two, ?_, ?_⟩
  · exact ⟨by decide, List.all_eq_true.mp rfl, by decide⟩
  · exact ⟨by decide, List.all_eq_true.mp rfl, rfl⟩
  · rw [text]
    exact number
  · rw [text]
    rfl

theorem createdMcu_inMemory : createdMcu.InMemory 0x10000000 1 := by
  intro i small
  obtain rfl : i = 0 := by omega
  exact ⟨.ram, 0, rfl, .inl rfl⟩

/-- A letter, a byte that is escaped, and two negative ones, of which the last one is at an odd
address. -/
def fourBytes : List UInt8 := [0x41, 0x23, 0x80, 0xFF]

/-- The packet for them at the start of the RAM. -/
def fourPacket : List UInt8 :=
  0x24 :: (downloadHeader (ascii "10000000") (ascii "4") ++ escape fourBytes) ++ 0x23 :: ascii "b3"

/-- They are downloaded faithfully. -/
theorem download_four :
    IsDownload 0x10000000 fourBytes fourPacket ∧
      FaithfulDownload (fun _ => false) (receivedGdb fourPacket) 0 0x10000000 fourBytes
        fourPacket := by
  have download : IsDownload 0x10000000 fourBytes fourPacket :=
    ⟨ascii "10000000", ascii "4", ascii "b3", ⟨by decide, List.all_eq_true.mp rfl, by decide⟩,
      ⟨by decide, List.all_eq_true.mp rfl, rfl⟩, rfl,
      ⟨by decide, List.all_eq_true.mp rfl, by decide⟩, rfl⟩
  have memory : createdMcu.InMemory 0x10000000 fourBytes.length := by
    intro i small
    have small : i < 4 := small
    interval_cases i
    · exact ⟨.ram, 0, rfl, .inl rfl⟩
    · exact ⟨.ram, 1, rfl, .inl rfl⟩
    · exact ⟨.ram, 2, rfl, .inl rfl⟩
    · exact ⟨.ram, 3, rfl, .inl rfl⟩
  refine ⟨download, (download_iff _ download (holds_receivedGdb _) (by decide) memory).mpr
    ⟨.inl (by decide), ?_⟩⟩
  rintro ⟨c, last, high, even, other⟩
  exact absurd even (by decide)

/-- The byte 0x80 at 0x10000000 makes the byte at 0x10000001 0xFF. -/
theorem download_spills :
    ¬ FaithfulDownload (fun _ => false) (receivedGdb (bytePacket 0x80 "f0")) 0 0x10000000 [0x80]
      (bytePacket 0x80 "f0") := by
  have download : IsDownload 0x10000000 [0x80] (bytePacket 0x80 "f0") :=
    isDownload_bytePacket (by decide) rfl ⟨by decide, List.all_eq_true.mp rfl, by decide⟩
  obtain ⟨bytes, mcu, gdb', handled, locked, length, _, change⟩ := gdbHandlePacket_download
    (fun _ => false) download (holds_receivedGdb _) (by decide) createdMcu_inMemory
  rw [faithfulDownload_of_bytes handled locked length createdMcu_inMemory change]
  intro ⟨_, stays⟩
  exact stays ⟨0x80, rfl, by decide, by decide, by decide⟩

end TheFirmware.Simulator
