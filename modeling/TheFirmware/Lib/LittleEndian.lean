import Mathlib.Tactic

/-!
# Halfwords and words of a little-endian memory

The memory maps every address to a byte. A halfword is two bytes and a word is four, the low byte
first. The laws say which bytes an access reads and changes, and how a word is put together from its
halfwords and a halfword from its bytes.
-/

namespace TheFirmware.LittleEndian

/-- One byte for every address. -/
abbrev Bytes : Type := Nat → UInt8

/-- The halfword at an address. -/
def load16 (m : Bytes) (a : Nat) : UInt16 := .ofNat ((m a).toNat + 256 * (m (a + 1)).toNat)

/-- The word at an address. -/
def load32 (m : Bytes) (a : Nat) : UInt32 :=
  .ofNat ((m a).toNat + 256 * (m (a + 1)).toNat + 65536 * (m (a + 2)).toNat +
    16777216 * (m (a + 3)).toNat)

/-- The memory when a halfword has been stored. -/
def store16 (m : Bytes) (a : Nat) (v : UInt16) : Bytes := fun x =>
  if x = a then v.toUInt8 else if x = a + 1 then (v >>> 8).toUInt8 else m x

/-- The memory when a word has been stored. -/
def store32 (m : Bytes) (a : Nat) (v : UInt32) : Bytes := fun x =>
  if a ≤ x ∧ x < a + 4 then .ofNat (v.toNat / 256 ^ (x - a)) else m x

variable {m m' : Bytes} {a b x : Nat}

theorem toNat_load16 (m : Bytes) (a : Nat) :
    (load16 m a).toNat = (m a).toNat + 256 * (m (a + 1)).toNat := by
  have low := (m a).toNat_lt
  have high := (m (a + 1)).toNat_lt
  unfold load16
  rw [UInt16.toNat_ofNat_of_lt' (by unfold UInt16.size; omega)]

theorem toNat_load32 (m : Bytes) (a : Nat) :
    (load32 m a).toNat = (m a).toNat + 256 * (m (a + 1)).toNat + 65536 * (m (a + 2)).toNat +
      16777216 * (m (a + 3)).toNat := by
  have b0 := (m a).toNat_lt
  have b1 := (m (a + 1)).toNat_lt
  have b2 := (m (a + 2)).toNat_lt
  have b3 := (m (a + 3)).toNat_lt
  unfold load32
  rw [UInt32.toNat_ofNat_of_lt' (by unfold UInt32.size; omega)]

theorem toNat_shiftLeft_half (v : UInt16) : (v.toUInt32 <<< 16).toNat = 2 ^ 16 * v.toNat := by
  have bound := v.toNat_lt
  have shift : (16 : UInt32).toNat % 32 = 16 := rfl
  rw [UInt32.toNat_shiftLeft, shift, Nat.shiftLeft_eq, UInt16.toNat_toUInt32, Nat.mul_comm]
  exact Nat.mod_eq_of_lt (by omega)

/-- Two halfwords are put together. -/
theorem toNat_halves (low high : UInt16) :
    (low.toUInt32 ||| (high.toUInt32 <<< 16)).toNat = low.toNat + 65536 * high.toNat := by
  rw [UInt32.toNat_or, toNat_shiftLeft_half, UInt16.toNat_toUInt32, Nat.or_comm,
    ← Nat.two_pow_add_eq_or_of_lt low.toNat_lt]
  omega

/-- A word is its two halfwords. -/
theorem load32_eq (m : Bytes) (a : Nat) :
    load32 m a = (load16 m a).toUInt32 ||| ((load16 m (a + 2)).toUInt32 <<< 16) := by
  apply UInt32.toNat_inj.mp
  rw [toNat_halves, toNat_load32, toNat_load16, toNat_load16]
  have last : m (a + 2 + 1) = m (a + 3) := rfl
  rw [last]
  omega

theorem load16_congr (same : ∀ i < 2, m' (b + i) = m (a + i)) : load16 m' b = load16 m a := by
  have b0 : m' b = m a := same 0 (by decide)
  unfold load16
  rw [b0, same 1 (by decide)]

theorem load32_congr (same : ∀ i < 4, m' (b + i) = m (a + i)) : load32 m' b = load32 m a := by
  have b0 : m' b = m a := same 0 (by decide)
  unfold load32
  rw [b0, same 1 (by decide), same 2 (by decide), same 3 (by decide)]

/-- The low byte of a halfword. -/
theorem toUInt8_load16 (m : Bytes) (a : Nat) : (load16 m a).toUInt8 = m a := by
  apply UInt8.toNat_inj.mp
  have low := (m a).toNat_lt
  rw [UInt16.toNat_toUInt8, toNat_load16]
  omega

/-- The high byte of a halfword. -/
theorem toUInt8_load16_shift (m : Bytes) (a : Nat) : (load16 m a >>> 8).toUInt8 = m (a + 1) := by
  apply UInt8.toNat_inj.mp
  have low := (m a).toNat_lt
  have high := (m (a + 1)).toNat_lt
  have shift : (8 : UInt16).toNat % 16 = 8 := rfl
  rw [UInt16.toNat_toUInt8, UInt16.toNat_shiftRight, shift, Nat.shiftRight_eq_div_pow, toNat_load16]
  omega

@[simp] theorem store16_low (m : Bytes) (a : Nat) (v : UInt16) : store16 m a v a = v.toUInt8 :=
  if_pos rfl

@[simp] theorem store16_high (m : Bytes) (a : Nat) (v : UInt16) :
    store16 m a v (a + 1) = (v >>> 8).toUInt8 := by
  unfold store16
  rw [if_neg (Nat.succ_ne_self a), if_pos rfl]

theorem store16_outside {v : UInt16} (low : x ≠ a) (high : x ≠ a + 1) : store16 m a v x = m x := by
  unfold store16
  rw [if_neg low, if_neg high]

/-- A halfword is read as it was stored. -/
theorem load16_store16 (m : Bytes) (a : Nat) (v : UInt16) : load16 (store16 m a v) a = v := by
  apply UInt16.toNat_inj.mp
  have bound := v.toNat_lt
  have shift : (8 : UInt16).toNat % 16 = 8 := rfl
  rw [toNat_load16, store16_low, store16_high, UInt16.toNat_toUInt8, UInt16.toNat_toUInt8,
    UInt16.toNat_shiftRight, shift, Nat.shiftRight_eq_div_pow]
  omega

theorem store32_outside {v : UInt32} (miss : x < a ∨ a + 4 ≤ x) : store32 m a v x = m x := by
  unfold store32
  rw [if_neg (by omega)]

/-- A word is read as it was stored. -/
theorem load32_store32 (m : Bytes) (a : Nat) (v : UInt32) : load32 (store32 m a v) a = v := by
  have byte : ∀ i, i < 4 → (store32 m a v (a + i)).toNat = v.toNat / 256 ^ i % 256 := by
    intro i small
    unfold store32
    rw [if_pos (by omega), Nat.add_sub_cancel_left, UInt8.toNat_ofNat']
  have b0 : (store32 m a v a).toNat = v.toNat / 256 ^ 0 % 256 := byte 0 (by decide)
  apply UInt32.toNat_inj.mp
  have bound := v.toNat_lt
  rw [toNat_load32, b0, byte 1 (by decide), byte 2 (by decide), byte 3 (by decide)]
  omega

/-! ## The bytes of a value -/

/-- A byte of a halfword. -/
def byte16 (v : UInt16) (i : Nat) : UInt8 := (v >>> .ofNat (8 * i)).toUInt8

/-- A byte of a word. -/
def byte32 (v : UInt32) (i : Nat) : UInt8 := (v >>> .ofNat (8 * i)).toUInt8

theorem toNat_byte16 {i : Nat} (v : UInt16) (small : i < 2) :
    (byte16 v i).toNat = v.toNat / 256 ^ i % 256 := by
  have count : (UInt16.ofNat (8 * i)).toNat % 16 = 8 * i := by
    rw [UInt16.toNat_ofNat']
    omega
  have power : 2 ^ (8 * i) = 256 ^ i := pow_mul 2 8 i
  unfold byte16
  rw [UInt16.toNat_toUInt8, UInt16.toNat_shiftRight, count, Nat.shiftRight_eq_div_pow, power]

theorem toNat_byte32 {i : Nat} (v : UInt32) (small : i < 4) :
    (byte32 v i).toNat = v.toNat / 256 ^ i % 256 := by
  have count : (UInt32.ofNat (8 * i)).toNat % 32 = 8 * i := by
    rw [UInt32.toNat_ofNat']
    omega
  have power : 2 ^ (8 * i) = 256 ^ i := pow_mul 2 8 i
  unfold byte32
  rw [UInt32.toNat_toUInt8, UInt32.toNat_shiftRight, count, Nat.shiftRight_eq_div_pow, power]

theorem toUInt8_and_mask (v : UInt16) : (v &&& 0xFF).toUInt8 = v.toUInt8 := by
  apply UInt8.toNat_inj.mp
  have mask : (0xFF : UInt16).toNat = 2 ^ 8 - 1 := rfl
  rw [UInt16.toNat_toUInt8, UInt16.toNat_toUInt8, UInt16.toNat_and, mask,
    Nat.and_two_pow_sub_one_eq_mod]
  exact Nat.mod_mod _ _

/-- A halfword is its bytes. -/
theorem load16_byte16 (v : UInt16) : load16 (byte16 v) 0 = v := by
  have bound := v.toNat_lt
  apply UInt16.toNat_inj.mp
  rw [toNat_load16, toNat_byte16 v (by decide), toNat_byte16 v (by decide)]
  omega

/-- A word is its bytes. -/
theorem load32_byte32 (v : UInt32) : load32 (byte32 v) 0 = v := by
  have bound := v.toNat_lt
  apply UInt32.toNat_inj.mp
  rw [toNat_load32, toNat_byte32 v (by decide), toNat_byte32 v (by decide),
    toNat_byte32 v (by decide), toNat_byte32 v (by decide)]
  omega

/-- The bytes of a halfword are those in memory. -/
theorem byte16_load16 {i : Nat} (m : Bytes) (a : Nat) (small : i < 2) :
    byte16 (load16 m a) i = m (a + i) := by
  have b0 := (m a).toNat_lt
  have b1 := (m (a + 1)).toNat_lt
  apply UInt8.toNat_inj.mp
  rw [toNat_byte16 _ small, toNat_load16]
  obtain rfl | rfl : i = 0 ∨ i = 1 := by omega
  · show _ = (m a).toNat
    omega
  · omega

/-- The bytes of a word are those in memory. -/
theorem byte32_load32 {i : Nat} (m : Bytes) (a : Nat) (small : i < 4) :
    byte32 (load32 m a) i = m (a + i) := by
  have b0 := (m a).toNat_lt
  have b1 := (m (a + 1)).toNat_lt
  have b2 := (m (a + 2)).toNat_lt
  have b3 := (m (a + 3)).toNat_lt
  apply UInt8.toNat_inj.mp
  rw [toNat_byte32 _ small, toNat_load32]
  obtain rfl | rfl | rfl | rfl : i = 0 ∨ i = 1 ∨ i = 2 ∨ i = 3 := by omega
  · show _ = (m a).toNat
    omega
  · omega
  · omega
  · omega

/-- Nothing changes when what is there is stored again. -/
theorem store16_load16 (m : Bytes) (a : Nat) : store16 m a (load16 m a) = m := by
  funext x
  rcases Classical.em (x = a ∨ x = a + 1) with (rfl | rfl) | outside
  · rw [store16_low, toUInt8_load16]
  · rw [store16_high, toUInt8_load16_shift]
  · rw [not_or] at outside
    exact store16_outside outside.1 outside.2

/-- Nothing changes when what is there is stored again. -/
theorem store32_load32 (m : Bytes) (a : Nat) : store32 m a (load32 m a) = m := by
  funext x
  rcases Classical.em (a ≤ x ∧ x < a + 4) with ⟨low, high⟩ | outside
  · obtain ⟨i, rfl⟩ := Nat.exists_eq_add_of_le low
    have small : i < 4 := by omega
    have byte := byte32_load32 m a small
    rw [← UInt8.toNat_inj, toNat_byte32 _ small] at byte
    rw [store32, if_pos ⟨low, high⟩, ← UInt8.toNat_inj, ← byte, Nat.add_sub_cancel_left,
      UInt8.toNat_ofNat']
  · exact store32_outside (by omega)

/-- A halfword of which the low byte is replaced. -/
theorem toNat_replace_low (v : UInt16) (b : UInt8) :
    ((v &&& (0xFF00 : UInt16)) ||| (b.toUInt16 <<< 0)).toNat = 256 * (v.toNat / 256) + b.toNat := by
  have bound := v.toNat_lt
  have mask : (0xFF00 : UInt16).toNat = 0xFF00 := rfl
  have shift : (0 : UInt16).toNat % 16 = 0 := rfl
  have upper : (v.toNat &&& 0xFF00) / 2 ^ 8 = v.toNat / 2 ^ 8 := by
    rw [Nat.and_div_two_pow]
    exact Nat.and_two_pow_sub_one_of_lt_two_pow (n := 8) (by omega)
  have lower : (v.toNat &&& 0xFF00) % 2 ^ 8 = 0 := by
    rw [Nat.and_mod_two_pow]
    exact Nat.and_zero _
  have kept : v.toNat &&& 0xFF00 = 2 ^ 8 * (v.toNat / 256) := by omega
  have byteBound : b.toNat < 2 ^ 16 := b.toNat_lt.trans (by decide)
  rw [UInt16.toNat_or, UInt16.toNat_and, UInt16.toNat_shiftLeft, UInt8.toNat_toUInt16, mask, shift,
    Nat.shiftLeft_zero, Nat.mod_eq_of_lt byteBound, kept, ← Nat.two_pow_add_eq_or_of_lt b.toNat_lt]

/-- A halfword of which the high byte is replaced. -/
theorem toNat_replace_high (v : UInt16) (b : UInt8) :
    ((v &&& (0x00FF : UInt16)) ||| (b.toUInt16 <<< 8)).toNat = v.toNat % 256 + 256 * b.toNat := by
  have mask : (0x00FF : UInt16).toNat = 2 ^ 8 - 1 := rfl
  have shift : (8 : UInt16).toNat % 16 = 8 := rfl
  have bound := b.toNat_lt
  have small : v.toNat % 2 ^ 8 < 2 ^ 8 := Nat.mod_lt _ (Nat.two_pow_pos 8)
  have fits : b.toNat * 2 ^ 8 % 2 ^ 16 = b.toNat * 2 ^ 8 := Nat.mod_eq_of_lt (by omega)
  rw [UInt16.toNat_or, UInt16.toNat_and, UInt16.toNat_shiftLeft, UInt8.toNat_toUInt16, mask, shift,
    Nat.and_two_pow_sub_one_eq_mod, Nat.shiftLeft_eq, fits, Nat.or_comm, Nat.mul_comm,
    ← Nat.two_pow_add_eq_or_of_lt small]
  omega

/-- A halfword is stored back with another low byte. -/
theorem store16_replace_low (m : Bytes) (a : Nat) (b : UInt8) :
    store16 m a ((load16 m a &&& (0xFF00 : UInt16)) ||| (b.toUInt16 <<< 0)) =
      Function.update m a b := by
  have whole := toNat_replace_low (load16 m a) b
  have byteBound := b.toNat_lt
  have low := (m a).toNat_lt
  have high := (m (a + 1)).toNat_lt
  have shift : (8 : UInt16).toNat % 16 = 8 := rfl
  rw [toNat_load16] at whole
  funext x
  unfold store16
  by_cases first : x = a
  · rw [if_pos first, first, Function.update_self]
    apply UInt8.toNat_inj.mp
    rw [UInt16.toNat_toUInt8, whole]
    omega
  · rw [if_neg first, Function.update_of_ne first]
    by_cases second : x = a + 1
    · rw [if_pos second, second]
      apply UInt8.toNat_inj.mp
      rw [UInt16.toNat_toUInt8, UInt16.toNat_shiftRight, shift, Nat.shiftRight_eq_div_pow, whole]
      omega
    · rw [if_neg second]

/-- A halfword is stored back with another high byte. -/
theorem store16_replace_high (m : Bytes) (a : Nat) (b : UInt8) :
    store16 m a ((load16 m a &&& (0x00FF : UInt16)) ||| (b.toUInt16 <<< 8)) =
      Function.update m (a + 1) b := by
  have whole := toNat_replace_high (load16 m a) b
  have byteBound := b.toNat_lt
  have low := (m a).toNat_lt
  have high := (m (a + 1)).toNat_lt
  have shift : (8 : UInt16).toNat % 16 = 8 := rfl
  rw [toNat_load16] at whole
  funext x
  unfold store16
  by_cases first : x = a
  · rw [if_pos first, first, Function.update_of_ne (Nat.succ_ne_self a).symm]
    apply UInt8.toNat_inj.mp
    rw [UInt16.toNat_toUInt8, whole]
    omega
  · rw [if_neg first]
    by_cases second : x = a + 1
    · rw [if_pos second, second, Function.update_self]
      apply UInt8.toNat_inj.mp
      rw [UInt16.toNat_toUInt8, UInt16.toNat_shiftRight, shift, Nat.shiftRight_eq_div_pow, whole]
      omega
    · rw [if_neg second, Function.update_of_ne second]

/-- The bytes of two halfwords that are put together. -/
theorem byte32_halves {i : Nat} (low high : UInt16) (small : i < 4) :
    byte32 (low.toUInt32 ||| (high.toUInt32 <<< 16)) i =
      byte16 (if i < 2 then low else high) (i % 2) := by
  have lowBound := low.toNat_lt
  apply UInt8.toNat_inj.mp
  rw [toNat_byte32 _ small, toNat_byte16 _ (Nat.mod_lt _ Nat.two_pos), toNat_halves]
  obtain rfl | rfl | rfl | rfl : i = 0 ∨ i = 1 ∨ i = 2 ∨ i = 3 := by omega
  · rw [if_pos (by decide), Nat.zero_mod]
    omega
  · rw [if_pos (by decide), Nat.mod_eq_of_lt Nat.one_lt_two]
    omega
  · rw [if_neg (by decide), Nat.mod_self]
    omega
  · rw [if_neg (by decide), show 3 % 2 = 1 from rfl]
    omega

/-! ## The halves of a word -/

section Halves

variable (w : UInt32) (v : UInt16)

theorem toNat_and_lower : (w &&& (0xFFFF : UInt32)).toNat = w.toNat % 2 ^ 16 := by
  rw [UInt32.toNat_and]
  exact Nat.and_two_pow_sub_one_eq_mod _ 16

theorem toNat_and_upper : (w &&& (~~~ 0xFFFF : UInt32)).toNat = 2 ^ 16 * (w.toNat / 2 ^ 16) := by
  have bound := w.toNat_lt
  have mask : (~~~ 0xFFFF : UInt32).toNat = 4294901760 := rfl
  rw [UInt32.toNat_and, mask]
  have upper : (w.toNat &&& 4294901760) / 2 ^ 16 = w.toNat / 2 ^ 16 := by
    rw [Nat.and_div_two_pow, Nat.and_two_pow_sub_one_of_lt_two_pow (n := 16) (by omega)]
  have lower : (w.toNat &&& 4294901760) % 2 ^ 16 = 0 := by
    rw [Nat.and_mod_two_pow]
    exact Nat.and_zero _
  omega

theorem toNat_shiftRight_half : (w >>> 16).toNat = w.toNat / 2 ^ 16 := by
  rw [UInt32.toNat_shiftRight]
  exact Nat.shiftRight_eq_div_pow _ 16

theorem toNat_upper : (((w >>> 16) &&& 0xFFFF).toUInt16).toNat = w.toNat / 2 ^ 16 := by
  have bound := w.toNat_lt
  rw [UInt32.toNat_toUInt16, toNat_and_lower, toNat_shiftRight_half]
  omega

theorem toNat_lower : (((w >>> 0) &&& 0xFFFF).toUInt16).toNat = w.toNat % 2 ^ 16 := by
  have all : w >>> 0 = w := UInt32.shiftRight_zero
  rw [UInt32.toNat_toUInt16, toNat_and_lower, all]
  exact Nat.mod_mod _ _

/-- A word of which the upper half is replaced. -/
theorem toNat_replace_upper :
    ((w &&& (0xFFFF : UInt32)) ||| ((v.toUInt32 <<< 16) &&& (~~~ 0xFFFF : UInt32))).toNat =
      w.toNat % 2 ^ 16 + 2 ^ 16 * v.toNat := by
  rw [UInt32.toNat_or, toNat_and_lower, toNat_and_upper, toNat_shiftLeft_half,
    Nat.mul_div_cancel_left _ (Nat.two_pow_pos 16), Nat.or_comm,
    ← Nat.two_pow_add_eq_or_of_lt (Nat.mod_lt _ (Nat.two_pow_pos 16)), Nat.add_comm]

/-- A word of which the lower half is replaced. -/
theorem toNat_replace_lower :
    ((w &&& (~~~ 0xFFFF : UInt32)) ||| ((v.toUInt32 <<< 0) &&& (0xFFFF : UInt32))).toNat =
      2 ^ 16 * (w.toNat / 2 ^ 16) + v.toNat := by
  have bound := v.toNat_lt
  have all : v.toUInt32 <<< 0 = v.toUInt32 := UInt32.shiftLeft_zero
  rw [UInt32.toNat_or, toNat_and_upper, all, toNat_and_lower, UInt16.toNat_toUInt32,
    Nat.mod_eq_of_lt bound, ← Nat.two_pow_add_eq_or_of_lt bound]

end Halves

/-! ## Aligned addresses -/

theorem toNat_and_one (a : UInt32) : (a &&& 1).toNat = a.toNat % 2 := by
  rw [UInt32.toNat_and]
  exact Nat.and_two_pow_sub_one_eq_mod a.toNat 1

theorem toNat_and_three (a : UInt32) : (a &&& 3).toNat = a.toNat % 4 := by
  rw [UInt32.toNat_and]
  exact Nat.and_two_pow_sub_one_eq_mod a.toNat 2

/-- The even address at or before an address. -/
theorem toNat_and_not_one (a : UInt32) : (a &&& ~~~ 1).toNat = 2 * (a.toNat / 2) := by
  have bound := a.toNat_lt
  have mask : (~~~ 1 : UInt32).toNat = 4294967294 := rfl
  rw [UInt32.toNat_and, mask]
  have half : (a.toNat &&& 4294967294) / 2 = a.toNat / 2 := by
    rw [Nat.and_div_two, Nat.and_two_pow_sub_one_of_lt_two_pow (n := 31) (by omega)]
  have even : (a.toNat &&& 4294967294) % 2 = 0 := by
    have low := @Nat.and_mod_two_pow a.toNat 4294967294 1
    simpa using low
  omega

theorem and_not_one_and_one (a : UInt32) : (a &&& ~~~ 1) &&& 1 = 0 := by
  have even := toNat_and_not_one a
  have bit := toNat_and_one (a &&& ~~~ 1)
  apply UInt32.toNat_inj.mp
  rw [bit, even]
  exact Nat.mul_mod_right 2 _

/-- The aligned address at or before an address. -/
theorem toNat_and_not_three (a : UInt32) : (a &&& ~~~ 3).toNat = 4 * (a.toNat / 4) := by
  have bound := a.toNat_lt
  have mask : (~~~ 3 : UInt32).toNat = 4294967292 := rfl
  rw [UInt32.toNat_and, mask]
  have quarter : (a.toNat &&& 4294967292) / 2 ^ 2 = a.toNat / 2 ^ 2 := by
    rw [Nat.and_div_two_pow, Nat.and_two_pow_sub_one_of_lt_two_pow (n := 30) (by omega)]
  have aligned : (a.toNat &&& 4294967292) % 2 ^ 2 = 0 := by
    rw [Nat.and_mod_two_pow]
    exact Nat.and_zero _
  omega

theorem toNat_shiftRight_one (a : UInt32) : (a >>> 1).toNat = a.toNat / 2 := by
  rw [UInt32.toNat_shiftRight]
  exact Nat.shiftRight_eq_div_pow _ 1

theorem toNat_shiftRight_two (a : UInt32) : (a >>> 2).toNat = a.toNat / 4 := by
  rw [UInt32.toNat_shiftRight]
  exact Nat.shiftRight_eq_div_pow _ 2

end TheFirmware.LittleEndian
