import TheFirmware.Config.Config
import TheFirmware.Lib.Crc

/-!
# Errors that `crc8_maxim` detects

`crc8_maxim` is a register of eight bits with the generator `kCRCPolynomial`, which takes the bits
of the data one after the other (`toBitVec_crc8Maxim`). Its constant term makes it tell apart data
that differs only in eight consecutive bits, wherever they are (`crc8Maxim_detects`).
-/

namespace TheFirmware.Config

/-- The bits of a byte, the most significant one first. -/
def byteBits (byte : UInt8) : List Bool := (List.range 8).map fun i => byte.toBitVec.getMsbD i

/-- The bits of the data. -/
def bits (data : List UInt8) : List Bool := data.flatMap byteBits

theorem getElem_byteBits (byte : UInt8) {i : Nat} (inside : i < 8) :
    (byteBits byte)[i]? = some (byte.toBitVec.getMsbD i) := by
  simp [byteBits, inside]

theorem length_byteBits (byte : UInt8) : (byteBits byte).length = 8 := by
  simp [byteBits]

theorem length_bits (data : List UInt8) : (bits data).length = 8 * data.length := by
  induction data with
  | nil => rfl
  | cons byte data ih =>
    have rest : bits (byte :: data) = byteBits byte ++ bits data := rfl
    rw [rest, List.length_append, length_byteBits, ih, List.length_cons]
    omega

theorem pack_byteBits (byte : UInt8) : Crc.pack (byteBits byte) = byte.toBitVec := by
  apply BitVec.eq_of_getMsbD_eq
  intro i inside
  rw [Crc.getMsbD_pack inside, getElem_byteBits byte inside]
  rfl

theorem byteBits_injective : Function.Injective byteBits := by
  intro byte byte' same
  have packed := congrArg (Crc.pack : List Bool → BitVec 8) same
  rw [pack_byteBits, pack_byteBits] at packed
  exact UInt8.toBitVec_inj.mp packed

theorem bits_injective {data data' : List UInt8} (same : bits data = bits data') :
    data = data' := by
  induction data generalizing data' with
  | nil =>
    have length := congrArg List.length same
    rw [length_bits, length_bits] at length
    exact (List.length_eq_zero_iff.mp (by simpa using length.symm)).symm
  | cons byte data ih =>
    cases data' with
    | nil =>
      have length := congrArg List.length same
      simp [length_bits] at length
    | cons byte' data' =>
      have parts : byteBits byte ++ bits data = byteBits byte' ++ bits data' := same
      obtain ⟨first, rest⟩ := List.append_inj parts (by rw [length_byteBits, length_byteBits])
      rw [byteBits_injective first, ih rest]

/-! ## The register -/

theorem toBitVec_crcStep (crc : UInt8) :
    (crcStep crc).toBitVec = Crc.step crcPolynomial.toBitVec crc.toBitVec := by
  have high : crc &&& 0x80 ≠ 0 ↔ crc.toBitVec.msb = true := by
    have mask : (crc &&& 0x80).toBitVec = if crc.toBitVec.getLsbD 7 then 0x80#8 else 0#8 :=
      BitVec.and_twoPow crc.toBitVec 7
    rw [Ne, ← UInt8.toBitVec_inj, mask, BitVec.msb_eq_getLsbD_last]
    cases crc.toBitVec.getLsbD 7 with
    | true => decide
    | false => decide
  unfold crcStep Crc.step
  by_cases set : crc &&& 0x80 ≠ 0
  · rw [if_pos set, if_pos (high.mp set)]
    rfl
  · rw [if_neg set, if_neg (high.not.mp set)]
    rfl

theorem toBitVec_crcByte (crc byte : UInt8) :
    (crcByte crc byte).toBitVec =
      Crc.run crcPolynomial.toBitVec crc.toBitVec (byteBits byte) := by
  have steps : ∀ n (crc : UInt8), (crcStep^[n] crc).toBitVec =
      (Crc.step crcPolynomial.toBitVec)^[n] crc.toBitVec := by
    intro n
    induction n with
    | zero => exact fun _ => rfl
    | succ n ih =>
      intro crc
      rw [Function.iterate_succ_apply, Function.iterate_succ_apply, ih, toBitVec_crcStep]
  rw [Crc.run_eq _ _ (Nat.le_of_eq (length_byteBits byte)), length_byteBits, pack_byteBits,
    crcByte, steps]
  rfl

/-- `crc8_maxim` is a register that takes the bits of the data. -/
theorem toBitVec_crc8Maxim (data : List UInt8) :
    (crc8Maxim data).toBitVec = Crc.run crcPolynomial.toBitVec 0 (bits data) := by
  have loop : ∀ crc : UInt8, (data.foldl crcByte crc).toBitVec =
      Crc.run crcPolynomial.toBitVec crc.toBitVec (bits data) := by
    induction data with
    | nil => exact fun _ => rfl
    | cons byte data ih =>
      intro crc
      have rest : bits (byte :: data) = byteBits byte ++ bits data := rfl
      rw [List.foldl_cons, ih, toBitVec_crcByte, rest, Crc.run_append]
  exact loop 0

/-- **Error detection**: data of the same length that differs only in a window of eight consecutive
bits has different values of `crc8_maxim`. -/
theorem crc8Maxim_detects (data data' : List UInt8) (length : data.length = data'.length)
    (start : Nat)
    (outside : ∀ i, i < start ∨ start + 8 ≤ i → (bits data)[i]? = (bits data')[i]?)
    (differ : data ≠ data') : crc8Maxim data ≠ crc8Maxim data' := by
  intro same
  have registers := congrArg UInt8.toBitVec same
  rw [toBitVec_crc8Maxim, toBitVec_crc8Maxim] at registers
  refine Crc.run_ne_of_burst (w := 8) (by decide) ?_ outside (fun eq => differ (bits_injective eq))
    registers
  rw [length_bits, length_bits, length]

/-- A burst over the end of a byte -/
theorem crc8Maxim_detects_straddling :
    crc8Maxim [0x00, 0x00, 0x55] ≠ crc8Maxim [0x0F, 0xF0, 0x55] := by
  have inside : ∀ i < 24, i < 4 ∨ 4 + 8 ≤ i →
      (bits [0x00, 0x00, 0x55])[i]? = (bits [0x0F, 0xF0, 0x55])[i]? := by decide
  refine crc8Maxim_detects [0x00, 0x00, 0x55] [0x0F, 0xF0, 0x55] rfl 4 (fun i out => ?_)
    (by decide)
  rcases Nat.lt_or_ge i 24 with small | large
  · exact inside i small out
  · have none : ∀ a b c : UInt8, (bits [a, b, c])[i]? = none := fun a b c =>
      List.getElem?_eq_none (by rw [length_bits]; exact large)
    rw [none, none]

end TheFirmware.Config
