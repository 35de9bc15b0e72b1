import Mathlib.Tactic

/-!
# Byte-addressed memory with little-endian words

`Mem` maps every address to one byte. `load32` and `store32` are the word accesses of a
little-endian 32-bit machine at any byte address, aligned or not. The two laws a client needs are
reading a word straight back (`load32_store32`) and a store that misses the word being read
(`load32_store32_of_disjoint`).

`Agree m m' a n` is the frame fact between two memories: they hold the same bytes on
`[a, a + n)`. `storeWords` and `loadWords` are the accesses to consecutive words.
-/

namespace TheFirmware

/-- A 32-bit machine word. -/
abbrev Word : Type := BitVec 32

/-- One byte for every address. -/
abbrev Mem : Type := Nat → BitVec 8

namespace Mem

/-- The little-endian word at address `a`. -/
def load32 (m : Mem) (a : Nat) : Word :=
  BitVec.ofNat 32 ((m a).toNat + 256 * (m (a + 1)).toNat +
    65536 * (m (a + 2)).toNat + 16777216 * (m (a + 3)).toNat)

/-- Write the word `v` at address `a`, least significant byte first. -/
def store32 (m : Mem) (a : Nat) (v : Word) : Mem := fun x =>
  if a ≤ x ∧ x < a + 4 then BitVec.ofNat 8 (v.toNat / 256 ^ (x - a)) else m x

/-- Write one byte. -/
def store8 (m : Mem) (a : Nat) (v : BitVec 8) : Mem := fun x => if x = a then v else m x

/-- The two memories hold the same bytes on `[a, a + n)`. -/
def Agree (m m' : Mem) (a n : Nat) : Prop := ∀ x, a ≤ x → x < a + n → m' x = m x

theorem Agree.refl (m : Mem) (a n : Nat) : Agree m m a n := fun _ _ _ => rfl

theorem Agree.trans {m₁ m₂ m₃ : Mem} {a n : Nat}
    (left : Agree m₁ m₂ a n) (right : Agree m₂ m₃ a n) : Agree m₁ m₃ a n :=
  fun x low high => (right x low high).trans (left x low high)

/-- Agreement on a range gives agreement on every part of it. -/
theorem Agree.mono {m m' : Mem} {a n b k : Nat} (agree : Agree m m' a n)
    (low : a ≤ b) (high : b + k ≤ a + n) : Agree m m' b k :=
  fun x hx hx' => agree x (by omega) (by omega)

theorem Agree.load32 {m m' : Mem} {a : Nat} (agree : Agree m m' a 4) :
    m'.load32 a = m.load32 a := by
  unfold Mem.load32
  rw [agree a (by omega) (by omega), agree (a + 1) (by omega) (by omega),
    agree (a + 2) (by omega) (by omega), agree (a + 3) (by omega) (by omega)]

theorem store32_outside {m : Mem} {a x : Nat} {v : Word} (miss : x < a ∨ a + 4 ≤ x) :
    m.store32 a v x = m x := by
  have outside : ¬ (a ≤ x ∧ x < a + 4) := by omega
  simp only [store32, outside, if_false]

theorem agree_store32 {m : Mem} {a b n : Nat} {v : Word} (miss : b + n ≤ a ∨ a + 4 ≤ b) :
    Agree m (m.store32 a v) b n :=
  fun _ _ _ => store32_outside (by omega)

theorem agree_store8 {m : Mem} {a b n : Nat} {v : BitVec 8} (miss : a < b ∨ b + n ≤ a) :
    Agree m (m.store8 a v) b n := by
  intro x low high
  have outside : x ≠ a := by omega
  simp only [store8, outside, if_false]

/-- Reading a word straight back at the address it was written to. -/
@[simp] theorem load32_store32 (m : Mem) (a : Nat) (v : Word) :
    (m.store32 a v).load32 a = v := by
  have byte : ∀ i, i < 4 →
      (m.store32 a v (a + i)).toNat = v.toNat / 256 ^ i % 256 := by
    intro i hi
    have inside : a ≤ a + i ∧ a + i < a + 4 := by omega
    simp [store32, inside, BitVec.toNat_ofNat]
  have b0 := byte 0 (by omega)
  have b1 := byte 1 (by omega)
  have b2 := byte 2 (by omega)
  have b3 := byte 3 (by omega)
  simp only [Nat.add_zero] at b0
  apply BitVec.eq_of_toNat_eq
  rw [load32, BitVec.toNat_ofNat, b0, b1, b2, b3]
  have bound := v.isLt
  omega

/-- A store whose four bytes miss the word leaves it unchanged. -/
theorem load32_store32_of_disjoint {m : Mem} {a b : Nat} {v : Word}
    (miss : b + 4 ≤ a ∨ a + 4 ≤ b) : (m.store32 a v).load32 b = m.load32 b :=
  (agree_store32 miss).load32

/-! ## Consecutive words -/

/-- Write the words `ws` at address `a` and behind. -/
def storeWords (m : Mem) (a : Nat) : List Word → Mem
  | [] => m
  | w :: ws => storeWords (m.store32 a w) (a + 4) ws

/-- The `n` words at address `a` and behind. -/
def loadWords (m : Mem) (a : Nat) : Nat → List Word
  | 0 => []
  | n + 1 => m.load32 a :: loadWords m (a + 4) n

theorem agree_storeWords {m : Mem} {a b n : Nat} {ws : List Word}
    (miss : b + n ≤ a ∨ a + 4 * ws.length ≤ b) : Agree m (m.storeWords a ws) b n := by
  induction ws generalizing m a with
  | nil => exact .refl m b n
  | cons w ws ih =>
      rw [List.length_cons] at miss
      exact (agree_store32 (by omega)).trans (ih (by omega))

theorem Agree.loadWords {m m' : Mem} {a n : Nat} (agree : Agree m m' a (4 * n)) :
    m'.loadWords a n = m.loadWords a n := by
  induction n generalizing a with
  | zero => rfl
  | succ n ih =>
      rw [Mem.loadWords, Mem.loadWords, (agree.mono (by omega) (by omega)).load32,
        ih (agree.mono (by omega) (by omega))]

/-- Reading consecutive words straight back. -/
theorem loadWords_storeWords (m : Mem) (a : Nat) (ws : List Word) :
    (m.storeWords a ws).loadWords a ws.length = ws := by
  induction ws generalizing m a with
  | nil => rfl
  | cons w ws ih =>
      have kept : Agree (m.store32 a w) ((m.store32 a w).storeWords (a + 4) ws) a 4 :=
        agree_storeWords (by omega)
      rw [List.length_cons, loadWords, storeWords, ih, kept.load32, load32_store32]

theorem loadWords_add (m : Mem) (a n k : Nat) :
    m.loadWords a (n + k) = m.loadWords a n ++ m.loadWords (a + 4 * n) k := by
  induction n generalizing a with
  | zero => simp [loadWords]
  | succ n ih =>
      rw [Nat.add_right_comm, loadWords, loadWords, ih, List.cons_append]
      congr 3
      omega

end Mem

end TheFirmware
