import Mathlib.Tactic

/-!
# Lists of address blocks

A `Block` is the range `[addr, addr + size)`. A `Layout lo hi grain` is a list of blocks inside
`[lo, hi)`, none smaller than `grain` bytes and no two sharing a byte. The operations an allocator
performs on such a list keep it one: dropping and permuting blocks, joining a block with the one
that starts where it stops, cutting a block in two and shrinking one.
-/

namespace TheFirmware

/-- The address range `[addr, addr + size)`. -/
structure Block : Type where
  addr : Nat
  size : Nat
  deriving DecidableEq, Repr

namespace Block

/-- The first address behind the block. -/
def stop (b : Block) : Nat := b.addr + b.size

/-- The two blocks share no byte. -/
def Apart (b c : Block) : Prop := b.stop ≤ c.addr ∨ c.stop ≤ b.addr

/-- The block lies inside `[lo, hi)`. -/
def Within (b : Block) (lo hi : Nat) : Prop := lo ≤ b.addr ∧ b.stop ≤ hi

/-- Every byte of `b` is a byte of `c`. -/
def Covers (c b : Block) : Prop := c.addr ≤ b.addr ∧ b.stop ≤ c.stop

/-- The range of `b` and of the block `c` behind it. -/
def join (b c : Block) : Block := ⟨b.addr, b.size + c.size⟩

instance (b c : Block) : Decidable (Apart b c) := inferInstanceAs (Decidable (_ ∨ _))

@[simp] theorem join_addr (b c : Block) : (b.join c).addr = b.addr := rfl

@[simp] theorem join_size (b c : Block) : (b.join c).size = b.size + c.size := rfl

theorem Covers.refl (b : Block) : Covers b b := ⟨Nat.le_refl _, Nat.le_refl _⟩

theorem covers_join_left (b c : Block) : (b.join c).Covers b := by
  simp only [Covers, join, stop]
  omega

theorem covers_join_right {b c : Block} (adjacent : b.stop = c.addr) : (b.join c).Covers c := by
  simp only [Covers, join, stop] at *
  omega

theorem Covers.trans {a b c : Block} (outer : Covers a b) (inner : Covers b c) : Covers a c :=
  ⟨outer.1.trans inner.1, inner.2.trans outer.2⟩

theorem Apart.symm {b c : Block} (apart : Apart b c) : Apart c b := Or.symm apart

/-- A nonempty block apart from two adjacent blocks is apart from their join. -/
theorem Apart.join {b c d : Block} (adjacent : b.stop = c.addr) (pos : 0 < d.size)
    (left : Apart b d) (right : Apart c d) : Apart (b.join c) d := by
  simp only [Apart, Block.join, stop] at *
  omega

theorem Apart.of_covers {b c d : Block} (cover : Covers c b) (apart : Apart c d) : Apart b d := by
  simp only [Apart, Covers, stop] at *
  omega

end Block

/-- The number of bytes the blocks hold together. -/
def total (L : List Block) : Nat := (L.map Block.size).sum

@[simp] theorem total_nil : total [] = 0 := rfl

@[simp] theorem total_cons (b : Block) (L : List Block) : total (b :: L) = b.size + total L := by
  simp [total]

theorem total_perm {L R : List Block} (perm : L.Perm R) : total L = total R :=
  (perm.map Block.size).sum_eq

/-- Blocks of at least `grain` bytes inside `[lo, hi)`, no two sharing a byte. -/
structure Layout (lo hi grain : Nat) (L : List Block) : Prop where
  apart : L.Pairwise Block.Apart
  within : ∀ b ∈ L, b.Within lo hi
  grain_le : ∀ b ∈ L, grain ≤ b.size

namespace Layout

variable {lo hi grain : Nat} {L R : List Block} {b c : Block}

theorem nil : Layout lo hi grain [] :=
  ⟨List.Pairwise.nil, by simp, by simp⟩

theorem sublist (layout : Layout lo hi grain R) (sub : L.Sublist R) : Layout lo hi grain L :=
  ⟨layout.apart.sublist sub, fun b mem => layout.within b (sub.subset mem),
    fun b mem => layout.grain_le b (sub.subset mem)⟩

theorem perm (layout : Layout lo hi grain L) (perm : L.Perm R) : Layout lo hi grain R :=
  ⟨perm.pairwise layout.apart Block.Apart.symm,
    fun b mem => layout.within b (perm.mem_iff.mpr mem),
    fun b mem => layout.grain_le b (perm.mem_iff.mpr mem)⟩

theorem tail (layout : Layout lo hi grain (b :: L)) : Layout lo hi grain L :=
  layout.sublist (List.sublist_cons_self b L)

theorem cons (layout : Layout lo hi grain L) (within : b.Within lo hi) (size : grain ≤ b.size)
    (apart : ∀ c ∈ L, b.Apart c) : Layout lo hi grain (b :: L) :=
  ⟨List.pairwise_cons.mpr ⟨apart, layout.apart⟩,
    List.forall_mem_cons.mpr ⟨within, layout.within⟩,
    List.forall_mem_cons.mpr ⟨size, layout.grain_le⟩⟩

theorem apart_of_mem (layout : Layout lo hi grain (b :: L)) (mem : c ∈ L) : b.Apart c :=
  (List.pairwise_cons.mp layout.apart).1 c mem

theorem within_head (layout : Layout lo hi grain (b :: L)) : b.Within lo hi :=
  layout.within b (by simp)

theorem grain_le_head (layout : Layout lo hi grain (b :: L)) : grain ≤ b.size :=
  layout.grain_le b (by simp)

/-- A block and the one behind it become their join. -/
theorem join (layout : Layout lo hi grain (b :: c :: L)) (pos : 0 < grain)
    (adjacent : b.stop = c.addr) : Layout lo hi grain (b.join c :: L) := by
  have withinB := layout.within_head
  have withinC := layout.tail.within_head
  refine layout.tail.tail.cons ?_ ?_ ?_
  · simp only [Block.Within, Block.join, Block.stop] at *
    omega
  · exact layout.grain_le_head.trans (Nat.le_add_right _ _)
  · intro d mem
    have size := layout.grain_le d (by simp [mem])
    exact Block.Apart.join adjacent (by omega)
      (layout.apart_of_mem (by simp [mem])) (layout.tail.apart_of_mem mem)

/-- A block is replaced by a part of it. -/
theorem shrink (layout : Layout lo hi grain (b :: L)) (cover : b.Covers c)
    (size : grain ≤ c.size) : Layout lo hi grain (c :: L) := by
  have within := layout.within_head
  refine layout.tail.cons ?_ size ?_
  · simp only [Block.Within, Block.Covers, Block.stop] at *
    omega
  · intro d mem
    exact (layout.apart_of_mem mem).of_covers cover

/-- A block is cut in two behind its first `s` bytes. -/
theorem cut {s : Nat} (layout : Layout lo hi grain (b :: L)) (front : grain ≤ s)
    (back : s + grain ≤ b.size) :
    Layout lo hi grain (⟨b.addr, s⟩ :: ⟨b.addr + s, b.size - s⟩ :: L) := by
  have rear : Layout lo hi grain (⟨b.addr + s, b.size - s⟩ :: L) :=
    layout.shrink (by simp only [Block.Covers, Block.stop]; omega) (by simp only; omega)
  have whole : b.Within lo hi := layout.within_head
  refine rear.cons ?_ front ?_
  · simp only [Block.Within, Block.stop] at *
    omega
  · intro d mem
    rcases List.mem_cons.mp mem with rfl | old
    · exact Or.inl (Nat.le_refl _)
    · exact (layout.apart_of_mem old).of_covers
        (by simp only [Block.Covers, Block.stop]; omega)

end Layout

end TheFirmware
