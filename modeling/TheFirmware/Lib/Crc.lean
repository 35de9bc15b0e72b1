import Mathlib.Tactic

/-!
# Cyclic redundancy checks

A register of `w` bits takes one bit after the other, the highest bit first, and is reduced by a
generator polynomial without its highest coefficient. A step is linear, and injective if the
polynomial has a constant term; so bits that differ only in a window of the width of the register
leave different registers (`run_ne_of_burst`).
-/

namespace Crc

variable {w : Nat} {g c : BitVec w} {bits bits' : List Bool}

/-- The register after a bit that is zero. -/
def step (g c : BitVec w) : BitVec w := if c.msb then (c <<< 1) ^^^ g else c <<< 1

/-- A bit in the highest place. -/
def top (w : Nat) (b : Bool) : BitVec w := if b then BitVec.twoPow w (w - 1) else 0

/-- The register after a bit. -/
def feed (g c : BitVec w) (b : Bool) : BitVec w := step g (c ^^^ top w b)

/-- The register after some bits. -/
def run (g c : BitVec w) (bits : List Bool) : BitVec w := bits.foldl (feed g) c

/-- The bits as a word, the first one in the highest place. -/
def pack : List Bool → BitVec w
  | [] => 0
  | b :: bits => top w b ^^^ (pack bits >>> 1)

theorem step_xor (g x y : BitVec w) : step g (x ^^^ y) = step g x ^^^ step g y := by
  unfold step
  rw [BitVec.msb_xor, BitVec.shiftLeft_xor_distrib]
  cases x.msb with
  | false =>
    cases y.msb with
    | false => rfl
    | true => simp [BitVec.xor_assoc]
  | true =>
    cases y.msb with
    | false =>
      simp only [Bool.xor_false, if_true, Bool.false_eq_true, if_false]
      rw [BitVec.xor_assoc, BitVec.xor_assoc, BitVec.xor_comm (y <<< 1)]
    | true =>
      have cancel : g ^^^ (y <<< 1 ^^^ g) = y <<< 1 := by
        rw [BitVec.xor_comm, BitVec.xor_assoc, BitVec.xor_self, BitVec.xor_zero]
      simp [BitVec.xor_assoc, cancel]

theorem step_eq_zero (odd : g.getLsbD 0 = true) (zero : step g c = 0) : c = 0 := by
  unfold step at zero
  cases high : c.msb with
  | true =>
    rw [high, if_pos rfl] at zero
    have low := congrArg (BitVec.getLsbD · 0) zero
    simp [odd] at low
  | false =>
    rw [high, if_neg Bool.false_ne_true] at zero
    apply BitVec.eq_of_getLsbD_eq
    intro i small
    show c.getLsbD i = BitVec.getLsbD (0#w) i
    rw [BitVec.getLsbD_zero]
    rcases Nat.lt_or_ge (i + 1) w with inside | last
    · have next := congrArg (BitVec.getLsbD · (i + 1)) zero
      rw [BitVec.getLsbD_shiftLeft] at next
      simpa [inside, BitVec.getLsbD_eq_getElem small] using next
    · have same : i = w - 1 := by omega
      rw [same, ← BitVec.msb_eq_getLsbD_last, high]

theorem step_injective (odd : g.getLsbD 0 = true) : Function.Injective (step g) := by
  intro x y same
  have zero : step g (x ^^^ y) = 0 := by rw [step_xor, same, BitVec.xor_self]; rfl
  have cancel := step_eq_zero odd zero
  exact BitVec.xor_eq_zero_iff.mp cancel

theorem feed_injective (odd : g.getLsbD 0 = true) (b : Bool) :
    Function.Injective fun c => feed g c b := fun _ _ same =>
  BitVec.xor_left_inj (top w b) |>.mp (step_injective odd same)

theorem run_append (g c : BitVec w) (bits bits' : List Bool) :
    run g c (bits ++ bits') = run g (run g c bits) bits' :=
  List.foldl_append

theorem run_injective (odd : g.getLsbD 0 = true) (bits : List Bool) :
    Function.Injective fun c => run g c bits := by
  induction bits with
  | nil => exact Function.injective_id
  | cons b bits ih => exact fun _ _ same => feed_injective odd b (ih same)

/-! ## A window -/

theorem getMsbD_top {i : Nat} (inside : i < w) (b : Bool) :
    (top w b).getMsbD i = (decide (i = 0) && b) := by
  cases b with
  | false => simp [top]
  | true =>
    rw [top, if_pos rfl, BitVec.getMsbD_twoPow, Bool.and_true]
    rcases Nat.eq_zero_or_pos i with rfl | later
    · simp
      omega
    · have other : i ≠ 0 := by omega
      simp [other]
      omega

/-- The bits of the word are those of the list. -/
theorem getMsbD_pack {i : Nat} (inside : i < w) (bits : List Bool) :
    (pack bits : BitVec w).getMsbD i = bits[i]?.getD false := by
  induction bits generalizing i with
  | nil => simp [pack]
  | cons b bits ih =>
    rw [pack, BitVec.getMsbD_xor, getMsbD_top inside, BitVec.getMsbD_ushiftRight]
    cases i with
    | zero => simp
    | succ i => simp [ih (Nat.lt_of_succ_lt inside), inside]

theorem pack_injective (fits : bits.length ≤ w) (length : bits.length = bits'.length)
    (same : (pack bits : BitVec w) = pack bits') : bits = bits' := by
  refine List.ext_getElem length fun i left right => ?_
  have bit := congrArg (BitVec.getMsbD · i) same
  simp only [getMsbD_pack (Nat.lt_of_lt_of_le left fits)] at bit
  rwa [List.getElem?_eq_getElem left, List.getElem?_eq_getElem right] at bit

/-- Fewer bits than fit leave the lowest place free, so that a step only moves them. -/
theorem step_pack (g : BitVec w) (room : bits.length < w) :
    step g (pack bits >>> 1) = pack bits := by
  have positive : 0 < w := Nat.zero_lt_of_lt room
  have high : (pack bits >>> 1 : BitVec w).msb = false := by
    rw [BitVec.msb_eq_getMsbD_zero, BitVec.getMsbD_ushiftRight]
    simp
  rw [step, high, if_neg Bool.false_ne_true]
  apply BitVec.eq_of_getMsbD_eq
  intro i inside
  rw [BitVec.getMsbD_shiftLeft, BitVec.getMsbD_ushiftRight]
  rcases Nat.lt_or_ge (i + 1) w with next | last
  · simp [next]
  · have none : bits[i]? = none := List.getElem?_eq_none (by omega)
    rw [getMsbD_pack inside, none]
    simp
    omega

/-- Bits that fit into the register can be put into it before the steps. -/
theorem run_eq (g c : BitVec w) (fits : bits.length ≤ w) :
    run g c bits = (step g)^[bits.length] (c ^^^ pack bits) := by
  induction bits generalizing c with
  | nil => simp [run, pack]
  | cons b bits ih =>
    have room : bits.length < w := fits
    have first : run g c (b :: bits) = run g (feed g c b) bits := rfl
    rw [first, ih _ (Nat.le_of_lt room), List.length_cons, Function.iterate_succ_apply, pack,
      ← BitVec.xor_assoc, step_xor, step_pack g room]
    rfl

/-- A window makes a difference when its bits do. -/
theorem run_window_injective (odd : g.getLsbD 0 = true) (fits : bits.length ≤ w)
    (length : bits.length = bits'.length) (same : run g c bits = run g c bits') :
    bits = bits' := by
  rw [run_eq g c fits, run_eq g c (length ▸ fits), ← length] at same
  have packed := (step_injective odd).iterate bits.length same
  exact pack_injective fits length ((BitVec.xor_right_inj c).mp packed)

/-- Bits that differ only in a window of the width of the register are told apart. -/
theorem run_ne_of_burst (odd : g.getLsbD 0 = true) {start : Nat}
    (length : bits.length = bits'.length)
    (outside : ∀ i, i < start ∨ start + w ≤ i → bits[i]? = bits'[i]?) (differ : bits ≠ bits') :
    run g c bits ≠ run g c bits' := by
  have split : ∀ bits : List Bool,
      bits = bits.take start ++ ((bits.drop start).take w ++ bits.drop (start + w)) := by
    intro bits
    rw [← List.drop_drop, List.take_append_drop, List.take_append_drop]
  have before : bits.take start = bits'.take start := by
    refine List.ext_getElem? fun i => ?_
    simp only [List.getElem?_take]
    split
    · exact outside i (.inl ‹_›)
    · rfl
  have behind : bits.drop (start + w) = bits'.drop (start + w) := by
    refine List.ext_getElem? fun i => ?_
    simp only [List.getElem?_drop]
    exact outside _ (.inr (Nat.le_add_right ..))
  intro same
  rw [split bits, split bits', run_append, run_append, run_append, run_append, before, behind]
    at same
  have window := run_window_injective odd (List.length_take_le ..) (by simp [length])
    (run_injective odd _ same)
  refine differ ?_
  rw [split bits, split bits', before, behind, window]

end Crc
