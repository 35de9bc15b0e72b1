import TheFirmware.Runtime
import Mathlib.Order.Bounds.Basic

/-!
# The timer `arch/arm-m/systick.c`

A time is programmed as a number of clocks, `clock/1000` for a millisecond, after it has been
clamped to what `1000 * kMaxLoadValue` leaves of its product in 32 bits. No other product in the file
wraps (`systickSet_load`, `systickGet_systickSet`).
-/

namespace TheFirmware.SysTick

/-- `struct systick_regs` -/
structure Regs : Type where
  ctrl : UInt32
  load : UInt32
  val : UInt32

/-- What `clock_get_main` and `clock_systick_reference` return. -/
structure Clocks : Type where
  main : UInt32
  reference : UInt32

def kCtrlClockSource : UInt32 := (1 : UInt32) <<< 2

def kCtrlTickInt : UInt32 := (1 : UInt32) <<< 1

def kCtrlEnable : UInt32 := (1 : UInt32) <<< 0

def kMaxLoadValue : UInt32 := 0xFFFFFF

/-- A `uint32_t` as a `millitime_t`, which is an `int32_t`. -/
def millitime (value : UInt32) : Int := value.toBitVec.toInt

/-- `systick_clock` -/
def systickClock (clocks : Clocks) (regs : Regs) : UInt32 :=
  if regs.ctrl &&& kCtrlClockSource ≠ 0 then clocks.main else clocks.reference

/-- `systick_get` -/
def systickGet (clocks : Clocks) (regs : Regs) : Int :=
  millitime (regs.load * 1000 / systickClock clocks regs)

/-- `systick_enable` -/
def systickEnable (regs : Regs) : Regs :=
  { regs with ctrl := regs.ctrl ||| (kCtrlEnable ||| kCtrlTickInt) }

/-- `systick_set` -/
def systickSet (clocks : Clocks) (regs : Regs) (time : Int) : Regs :=
  let clock := systickClock clocks regs
  let maxPossibleValue := millitime (1000 * kMaxLoadValue / clock)
  let time := if maxPossibleValue < time then maxPossibleValue else time
  systickEnable { regs with load := clock / 1000 * UInt32.ofInt time, val := 0 }

/-! ## What is programmed -/

section Set

variable {clocks : Clocks} {regs : Regs} {time : Int}

theorem millitime_of_lt {value : UInt32} (small : value.toNat < 2147483648) :
    millitime value = value.toNat := by
  have half : 2 * value.toBitVec.toNat < 2 ^ 32 := by
    rw [UInt32.toNat_toBitVec]
    omega
  rw [millitime, BitVec.toInt_eq_toNat_of_lt half, UInt32.toNat_toBitVec]

theorem enable_clockSource (ctrl : UInt32) :
    (ctrl ||| (kCtrlEnable ||| kCtrlTickInt)) &&& kCtrlClockSource = ctrl &&& kCtrlClockSource := by
  apply UInt32.toNat.inj
  rw [UInt32.toNat_and, UInt32.toNat_or, UInt32.toNat_and, Nat.and_or_distrib_right,
    show (kCtrlEnable ||| kCtrlTickInt).toNat &&& kCtrlClockSource.toNat = 0 from rfl, Nat.or_zero]

theorem systickClock_systickSet (clocks : Clocks) (regs : Regs) (time : Int) :
    systickClock clocks (systickSet clocks regs time) = systickClock clocks regs := by
  unfold systickClock systickSet systickEnable
  rw [enable_clockSource]

/-- The time that is programmed, in milliseconds. -/
def programmed (clock : UInt32) (time : Int) : Nat := min time.toNat (3892313112 / clock.toNat)

/-- The clocks that are programmed. -/
def clocksFor (clock : UInt32) (time : Int) : Nat := clock.toNat / 1000 * programmed clock time

theorem limit_le {clock : UInt32} (big : 1000 ≤ clock.toNat) : 3892313112 / clock.toNat ≤ 3892313 :=
  Nat.div_le_div_left big (by decide)

/-- The clamped time. -/
theorem clamp_eq {clock : UInt32} (big : 1000 ≤ clock.toNat) (positive : 1 ≤ time) :
    (if millitime (1000 * kMaxLoadValue / clock) < time
      then millitime (1000 * kMaxLoadValue / clock) else time) = programmed clock time := by
  have product : (1000 * kMaxLoadValue).toNat = 3892313112 := rfl
  have limit : (1000 * kMaxLoadValue / clock).toNat = 3892313112 / clock.toNat := by
    rw [UInt32.toNat_div, product]
  have small := limit_le big
  rw [millitime_of_lt (by omega), limit, programmed]
  split
  · omega
  · omega

/-- What is programmed fits in the register, and so does its product with `1000` in a word. -/
theorem clocksFor_le (clock : UInt32) (time : Int) : clocksFor clock time ≤ 3892313 := by
  have clamped : programmed clock time ≤ 3892313112 / clock.toNat := Nat.min_le_right ..
  have rounded : clock.toNat / 1000 * 1000 ≤ clock.toNat := Nat.div_mul_le_self ..
  have product : clocksFor clock time * 1000 ≤ 3892313112 :=
    calc clock.toNat / 1000 * programmed clock time * 1000
        = clock.toNat / 1000 * 1000 * programmed clock time := Nat.mul_right_comm ..
      _ ≤ clock.toNat * (3892313112 / clock.toNat) := Nat.mul_le_mul rounded clamped
      _ ≤ 3892313112 := Nat.mul_div_le ..
  omega

theorem toNat_ofInt {n : Nat} (small : n < 4294967296) : (UInt32.ofInt n).toNat = n := by
  rw [UInt32.ofInt, UInt32.toNat_ofNat']
  omega

theorem systickSet_load (big : 1000 ≤ (systickClock clocks regs).toNat) (positive : 1 ≤ time) :
    (systickSet clocks regs time).load.toNat = clocksFor (systickClock clocks regs) time := by
  have small := clocksFor_le (systickClock clocks regs) time
  have clamped : programmed (systickClock clocks regs) time ≤ 3892313 :=
    (Nat.min_le_right ..).trans (limit_le big)
  simp only [systickSet, systickEnable, clamp_eq big positive]
  rw [UInt32.toNat_mul, UInt32.toNat_div, toNat_ofInt (by omega), show (1000 : UInt32).toNat = 1000
    from rfl]
  exact Nat.mod_eq_of_lt (Nat.lt_of_le_of_lt small (by decide))

/-- The time that `systick_get` returns when the time has been set. -/
def elapsed (clock : UInt32) (time : Int) : Nat := clocksFor clock time * 1000 / clock.toNat

theorem systickGet_systickSet (big : 1000 ≤ (systickClock clocks regs).toNat)
    (positive : 1 ≤ time) :
    systickGet clocks (systickSet clocks regs time) = elapsed (systickClock clocks regs) time := by
  have small := clocksFor_le (systickClock clocks regs) time
  have quotient : ((systickSet clocks regs time).load * 1000 / systickClock clocks regs).toNat =
      elapsed (systickClock clocks regs) time := by
    rw [UInt32.toNat_div, UInt32.toNat_mul, systickSet_load big positive,
      show (1000 : UInt32).toNat = 1000 from rfl, Nat.mod_eq_of_lt (by omega), elapsed]
  have range : elapsed (systickClock clocks regs) time ≤ 3892313000 / 1000 :=
    Nat.div_le_div (by omega) big (by decide)
  rw [systickGet, systickClock_systickSet, millitime_of_lt (by omega), quotient]

/-! ## Rounding -/

/-- A product with the clocks of a millisecond is never too long. -/
theorem clocks_mul_le (clock : UInt32) (n : Nat) :
    clock.toNat / 1000 * n * 1000 ≤ clock.toNat * n := by
  rw [Nat.mul_right_comm]
  exact Nat.mul_le_mul_right n (Nat.div_mul_le_self ..)

theorem elapsed_le_programmed (clock : UInt32) (time : Int) :
    elapsed clock time ≤ programmed clock time :=
  Nat.div_le_of_le_mul (clocks_mul_le clock _)

/-- If a millisecond is a whole number of clocks, nothing is rounded. -/
theorem elapsed_of_dvd {clock : UInt32} (big : 1000 ≤ clock.toNat) (whole : 1000 ∣ clock.toNat)
    (time : Int) : elapsed clock time = programmed clock time := by
  rw [elapsed, clocksFor, Nat.mul_right_comm, Nat.div_mul_cancel whole]
  exact Nat.mul_div_cancel_left _ (by omega)

/-- If it is not, less is reported than was programmed. -/
theorem elapsed_lt_of_not_dvd {clock : UInt32} (big : 1000 ≤ clock.toNat)
    (rounds : ¬ 1000 ∣ clock.toNat) (time : Int) (some : 0 < programmed clock time) :
    elapsed clock time < programmed clock time := by
  have less : clock.toNat / 1000 * 1000 < clock.toNat := by
    have remainder : clock.toNat % 1000 ≠ 0 := fun zero => rounds (Nat.dvd_of_mod_eq_zero zero)
    omega
  rw [elapsed, clocksFor, Nat.mul_right_comm, Nat.div_lt_iff_lt_mul (by omega), Nat.mul_comm]
  exact Nat.mul_lt_mul_of_pos_left less some

end Set

/-! ## Clamping -/

/-- The time is programmed whenever its clocks fit in the 24 bits of the register, and otherwise the
longest one whose clocks fit; `systick_get` returns what was programmed. -/
def ClampsWhenItMust (clocks : Clocks) (regs : Regs) (time : Int) : Prop :=
  let millisecond := (systickClock clocks regs).toNat / 1000
  let regs' := systickSet clocks regs time
  (millisecond * time.toNat ≤ 0xFFFFFF →
    regs'.load.toNat = millisecond * time.toNat ∧ systickGet clocks regs' = time) ∧
  (0xFFFFFF < millisecond * time.toNat →
    ∀ longest : Nat, IsGreatest {n | millisecond * n ≤ 0xFFFFFF} longest →
      regs'.load.toNat = millisecond * longest ∧ systickGet clocks regs' = longest)

section Clamp

variable {clocks : Clocks} {regs : Regs} {time : Int}

theorem isGreatest_div {millisecond : Nat} (positive : 0 < millisecond) :
    IsGreatest {n | millisecond * n ≤ 0xFFFFFF} (0xFFFFFF / millisecond) := by
  constructor
  · exact Nat.mul_div_le ..
  · intro n fits
    exact (Nat.le_div_iff_mul_le positive).mpr (by rwa [Nat.mul_comm])

/-- The clamp is below what fits. -/
theorem limit_lt {clock : UInt32} (big : 1000 ≤ clock.toNat) (small : clock.toNat ≤ 48000000)
    (whole : 1000 ∣ clock.toNat) :
    3892313112 / clock.toNat < 0xFFFFFF / (clock.toNat / 1000) := by
  obtain ⟨k, clocks⟩ := whole
  have millisecond : clock.toNat / 1000 = k := by omega
  have limit : 3892313112 / clock.toNat = 3892313 / k := by
    rw [clocks, ← Nat.div_div_eq_div_mul]
  have positive : 0 < k := by omega
  have down : 3892313 / k * k ≤ 3892313 := Nat.div_mul_le_self ..
  rw [millisecond, limit, Nat.lt_iff_add_one_le, Nat.le_div_iff_mul_le positive, Nat.add_mul]
  omega

end Clamp

/-- **Clamping of `systick_set`**: for a clock that is a whole number of clocks in a millisecond, up
to 48 MHz, a time is clamped only if it must, and then to the longest time that fits, if and only if
it is at most what the wrapped product `1000 * kMaxLoadValue` leaves for the clock. -/
theorem clampsWhenItMust_iff (clocks : Clocks) (regs : Regs) (time : Int)
    (big : 1000 ≤ (systickClock clocks regs).toNat)
    (small : (systickClock clocks regs).toNat ≤ 48000000)
    (whole : 1000 ∣ (systickClock clocks regs).toNat) (positive : 1 ≤ time) :
    ClampsWhenItMust clocks regs time ↔
      time ≤ (3892313112 / (systickClock clocks regs).toNat : Nat) := by
  have load : (systickSet clocks regs time).load.toNat =
      (systickClock clocks regs).toNat / 1000 * programmed (systickClock clocks regs) time :=
    systickSet_load big positive
  have get := systickGet_systickSet big positive
  rw [elapsed_of_dvd big whole] at get
  have millisecond : 0 < (systickClock clocks regs).toNat / 1000 := Nat.div_pos big (by decide)
  have fits : (systickClock clocks regs).toNat / 1000 * programmed (systickClock clocks regs) time ≤
      3892313 := clocksFor_le _ time
  have below := limit_lt big small whole
  unfold ClampsWhenItMust
  simp only [load, get]
  constructor
  · intro clamps
    obtain ⟨unclamped, clamped⟩ := clamps
    by_contra above
    have programs : programmed (systickClock clocks regs) time =
        3892313112 / (systickClock clocks regs).toNat := Nat.min_eq_right (by omega)
    rcases Nat.lt_or_ge 0xFFFFFF ((systickClock clocks regs).toNat / 1000 * time.toNat) with
      long | short
    · have longest := (clamped long _ (isGreatest_div millisecond)).2
      omega
    · have whole := (unclamped short).2
      omega
  · intro within
    have programs : programmed (systickClock clocks regs) time = time.toNat :=
      Nat.min_eq_left (by omega)
    rw [programs] at fits ⊢
    refine ⟨fun _ => ⟨rfl, Int.toNat_of_nonneg (by omega)⟩, fun long => ?_⟩
    exact absurd fits (Nat.not_le.mpr (Nat.lt_trans (by decide) long))

/-- A timer that runs on the main clock. -/
def onMainClock : Regs := { ctrl := kCtrlClockSource, load := 0, val := 0 }

/-- At 48 MHz, 50 ms are programmed as they are. -/
theorem clampsWhenItMust_iff_48MHz :
    ClampsWhenItMust ⟨48000000, 24000000⟩ onMainClock 50 := by
  have within : (50 : Int) ≤
      (3892313112 / (systickClock ⟨48000000, 24000000⟩ onMainClock).toNat : Nat) := by decide
  exact (clampsWhenItMust_iff ⟨48000000, 24000000⟩ onMainClock 50 (by decide) (by decide)
    (by decide) (by decide)).mpr within

/-- At 48 MHz, 100 ms fit but are clamped to 81 ms. -/
theorem not_clampsWhenItMust_48MHz :
    ¬ ClampsWhenItMust ⟨48000000, 24000000⟩ onMainClock 100 := by
  intro clamps
  have whole := (clamps.1 (by decide)).2
  exact absurd whole (by decide)

end TheFirmware.SysTick
