import TheFirmware.Runtime

/-!
# Words of a memory

Pointers are the addresses of words, and any word may be taken for a pointer. An access to what is
no word of the RAM, which a wild pointer may lead to, does not return.
-/

namespace TheFirmware

/-- The addresses of the words of the RAM. -/
structure Ram : Type where
  isWord : UInt32 → Bool
  aligned : ∀ a, isWord a = true → a % 4 = 0
  notNull : isWord 0 = false

/-- What is in each word. -/
abbrev Words : Type := UInt32 → UInt32

namespace Ram

def load (ram : Ram) (words : Words) (a : UInt32) : Except Fault UInt32 :=
  if ram.isWord a then .ok (words a) else .error .outOfBounds

def store (ram : Ram) (words : Words) (a value : UInt32) : Except Fault Words :=
  if ram.isWord a then .ok (Function.update words a value) else .error .outOfBounds

variable {ram : Ram} {words words' : Words} {a b value : UInt32}

theorem load_ok (word : ram.isWord a = true) (words : Words) : ram.load words a = .ok (words a) :=
  if_pos word

theorem store_ok (word : ram.isWord a = true) (words : Words) (value : UInt32) :
    ram.store words a value = .ok (Function.update words a value) := if_pos word

theorem load_eq_ok_iff : ram.load words a = .ok value ↔ ram.isWord a = true ∧ words a = value := by
  unfold load
  split
  · rename_i word
    simp [word]
  · rename_i noWord
    simp [noWord]

theorem store_eq_ok_iff : ram.store words a value = .ok words' ↔
    ram.isWord a = true ∧ Function.update words a value = words' := by
  unfold store
  split
  · rename_i word
    simp [word]
  · rename_i noWord
    simp [noWord]

theorem ne_zero_of_isWord (word : ram.isWord a = true) : a ≠ 0 := fun null => by
  rw [null, ram.notNull] at word
  cases word

end Ram

end TheFirmware
