import Mathlib.Tactic

/-!
# Consecutive cells

`write` puts a list into consecutive cells of an array without end, and `read` takes as many cells
as one asks for. Reading back what was written gives the list again (`read_write`); a write in two
parts is the write of the whole list (`write_append`), and a read in two parts gives the whole list
(`read_add`). `Holds` says that a list is in the cells from one on.
-/

namespace TheFirmware.Cells

variable {α : Type}

/-- The cells after the list has been put in from cell `a` on. -/
def write (cells : Nat → α) (a : Nat) : List α → Nat → α
  | [] => cells
  | x :: xs => write (Function.update cells a x) (a + 1) xs

/-- The `n` cells from cell `a` on. -/
def read (cells : Nat → α) (a n : Nat) : List α := (List.range n).map fun i => cells (a + i)

@[simp] theorem length_read (cells : Nat → α) (a n : Nat) : (read cells a n).length = n := by
  simp [read]

theorem write_append (cells : Nat → α) (a : Nat) (xs ys : List α) :
    write cells a (xs ++ ys) = write (write cells a xs) (a + xs.length) ys := by
  induction xs generalizing cells a with
  | nil => rfl
  | cons x xs ih =>
      rw [List.cons_append, write, write, ih, List.length_cons, Nat.add_right_comm, Nat.add_assoc]

theorem write_write {cells : Nat → α} {a n : Nat} {xs : List α} (length : xs.length = n)
    (ys : List α) : write (write cells a xs) (a + n) ys = write cells a (xs ++ ys) := by
  rw [write_append, length]

theorem write_outside {cells : Nat → α} {a b : Nat} {xs : List α}
    (miss : b < a ∨ a + xs.length ≤ b) : write cells a xs b = cells b := by
  induction xs generalizing cells a with
  | nil => rfl
  | cons x xs ih =>
      rw [List.length_cons] at miss
      rw [write, ih (by omega), Function.update_of_ne (by omega)]

/-- A cell behind a list may be changed before the list is written. -/
theorem write_update {cells : Nat → α} {a b : Nat} {x : α} {xs : List α}
    (behind : a + xs.length ≤ b) :
    write (Function.update cells b x) a xs = Function.update (write cells a xs) b x := by
  induction xs generalizing cells a with
  | nil => rfl
  | cons y xs ih =>
      rw [List.length_cons] at behind
      have other : b ≠ a := by omega
      rw [write, write, Function.update_comm other, ih (by omega)]

theorem read_congr {cells cells' : Nat → α} {a n : Nat}
    (same : ∀ i, i < n → cells' (a + i) = cells (a + i)) : read cells' a n = read cells a n :=
  List.map_congr_left fun i mem => same i (List.mem_range.mp mem)

/-- A cell that is not read may be changed. -/
theorem read_update {cells : Nat → α} {a n b : Nat} {x : α} (miss : b < a ∨ a + n ≤ b) :
    read (Function.update cells b x) a n = read cells a n :=
  read_congr fun _ _ => Function.update_of_ne (by omega) x cells

theorem read_add (cells : Nat → α) (a n k : Nat) :
    read cells a (n + k) = read cells a n ++ read cells (a + n) k := by
  unfold read
  rw [List.range_add, List.map_append, List.map_map]
  congr 1
  refine List.map_congr_left fun i _ => ?_
  rw [Function.comp_apply, Nat.add_assoc]

theorem read_succ (cells : Nat → α) (a n : Nat) :
    read cells a (n + 1) = cells a :: read cells (a + 1) n := by
  rw [Nat.add_comm, read_add]
  rfl

theorem read_write (cells : Nat → α) (a : Nat) (xs : List α) :
    read (write cells a xs) a xs.length = xs := by
  induction xs generalizing cells a with
  | nil => rfl
  | cons x xs ih =>
      have first : write (Function.update cells a x) (a + 1) xs a = x := by
        rw [write_outside (.inl (Nat.lt_succ_self a)), Function.update_self]
      rw [List.length_cons, Nat.add_comm, read_add, write, ih]
      exact congrArg (· :: xs) first

/-- A write to the first of the cells that are read. -/
theorem read_write_le {cells : Nat → α} {a n : Nat} {xs : List α} (short : xs.length ≤ n) :
    read (write cells a xs) a n = xs ++ (read cells a n).drop xs.length := by
  obtain ⟨k, rfl⟩ := Nat.exists_eq_add_of_le short
  have rest : read (write cells a xs) (a + xs.length) k = read cells (a + xs.length) k :=
    read_congr fun i _ => write_outside (.inr (Nat.le_add_right ..))
  rw [read_add, read_add, read_write, rest, List.drop_left' (length_read ..)]

/-! ## A list that is in the cells -/

/-- The list is in the cells from cell `a` on. -/
def Holds (cells : Nat → α) (a : Nat) (xs : List α) : Prop := read cells a xs.length = xs

section Holds

variable {cells cells' : Nat → α} {a n : Nat} {xs ys : List α}

theorem holds_append_iff :
    Holds cells a (xs ++ ys) ↔ Holds cells a xs ∧ Holds cells (a + xs.length) ys := by
  unfold Holds
  rw [List.length_append, read_add]
  exact ⟨fun eq => List.append_inj eq (length_read ..), fun ⟨left, right⟩ => by rw [left, right]⟩

theorem holds_singleton_iff {x : α} : Holds cells a [x] ↔ cells a = x :=
  ⟨fun held => (List.cons.inj held).1, fun eq => congrArg (· :: []) eq⟩

theorem holds_cons_iff {x : α} :
    Holds cells a (x :: xs) ↔ cells a = x ∧ Holds cells (a + 1) xs := by
  rw [← List.singleton_append, holds_append_iff, holds_singleton_iff]
  exact Iff.rfl

theorem holds_read (cells : Nat → α) (a n : Nat) : Holds cells a (read cells a n) := by
  unfold Holds
  rw [length_read]

theorem Holds.getElem {i : Nat} (held : Holds cells a xs) (inside : i < xs.length) :
    cells (a + i) = xs[i] := by
  have here : (read cells a xs.length)[i]? = some (cells (a + i)) := by
    simp [read, inside]
  rw [held, List.getElem?_eq_getElem inside] at here
  exact (Option.some.inj here).symm

theorem Holds.congr (held : Holds cells a xs)
    (same : ∀ i, i < xs.length → cells' (a + i) = cells (a + i)) : Holds cells' a xs :=
  (read_congr same).trans held

theorem Holds.read_eq (held : Holds cells a xs) (length : n = xs.length) : read cells a n = xs := by
  rw [length]
  exact held

theorem Holds.read_take (held : Holds cells a xs) (short : n ≤ xs.length) :
    read cells a n = xs.take n := by
  rw [← held, read, read, ← List.map_take, List.take_range, Nat.min_eq_left short]

theorem holds_write (cells : Nat → α) (a : Nat) (xs : List α) : Holds (write cells a xs) a xs :=
  read_write cells a xs

/-- A cell that a copy of other cells has been written to. -/
theorem write_read {cells : Nat → α} {a b n i : Nat} (inside : i < n) :
    write cells a (read cells b n) (a + i) = cells (b + i) := by
  have short : i < (read cells b n).length := by
    rw [length_read]
    exact inside
  rw [(holds_write cells a (read cells b n)).getElem short, (holds_read cells b n).getElem short]

/-- A write to other cells. -/
theorem Holds.write {b : Nat} (held : Holds cells a xs)
    (miss : a + xs.length ≤ b ∨ b + ys.length ≤ a) : Holds (write cells b ys) a xs :=
  held.congr fun _ _ => write_outside (by omega)

end Holds

end TheFirmware.Cells
