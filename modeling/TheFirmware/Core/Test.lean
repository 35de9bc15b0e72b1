import TheFirmware.Simulator.Elf
import TheFirmware.Simulator.Registers

/-!
# The unit tests of `core/test.c`

The firmware runs its tests in the simulator. At each boot `test_do` is called at three points; it
asks the simulated device which test is due (`platform/sim/test.c`), calls that one if it belongs
here, and reports how it has ended. The device counts, resets the MCU for the next test, and ends the
simulator after the last one (`tools/simulator/peripherals/unittest.c`).

The two sides have no other memory of the session than the registers of the device. Nevertheless each
test is called exactly once, in the order of the table, and the exit status says whether one has
failed (`session_exit`).
-/

namespace TheFirmware.UnitTest

open Simulator LittleEndian

/-- `test_type` -/
inductive TestType : Type
  | afterArchEarlyInit
  | afterArchLateInit
  | inMainTask
  deriving DecidableEq, Repr

/-- How the function of a test ends: it returns, or calls `test_fail` or `arch_test_skip`. -/
inductive Verdict : Type
  | returns
  | fails (reason : UInt32)
  | skips (reason : UInt32)
  deriving DecidableEq, Repr

/-- What code may change that has nothing to do with the device: registers, RAM, the output. -/
structure Untouched (mcu mcu' : Mcu) : Prop where
  flash : mcu'.flash = mcu.flash
  unittest : mcu'.unittest = mcu.unittest

/-- `struct test`. Its function ends, and leaves another state of the MCU behind. The code that has
called it is not part of this state: it goes on as before. -/
structure Test : Type where
  desc : UInt32
  type : TestType
  func : Mcu → Verdict × Mcu
  untouched : ∀ mcu, Untouched mcu (func mcu).2

/-- A part of the initialisation. -/
structure Init : Type where
  run : Mcu → Mcu
  untouched : ∀ mcu, Untouched mcu (run mcu)

/-- The MCU, and the tests that have been called with how they have ended. -/
structure Machine : Type where
  mcu : Mcu
  log : List (Nat × Verdict)

/-- The ways in which the firmware stops. -/
inductive Leave : Type
  /-- at the reset vector -/
  | reset
  /-- with the simulator -/
  | exit (status : Int)
  /-- in `thread_block` at the end of `bootstrap` -/
  | blocked
  /-- behind `unreachable()`, behind the table, or at an access that fails -/
  | wild
  deriving DecidableEq, Repr

/-- The firmware between two resets. -/
abbrev Firmware (α : Type) : Type := EStateM Leave Machine α

/-! ## `platform/sim/test.c` -/

/-- The PC is where the reset vector says. -/
def AtReset (mcu : Mcu) : Prop := mcu.regs regPc = (load32 mcu.flash 4 + 2) &&& ~~~ 1

instance (mcu : Mcu) : Decidable (AtReset mcu) := inferInstanceAs (Decidable (_ = _))

/-- `UNITTEST(offset) = value` -/
def unittestStore (offset value : UInt32) : Firmware Unit := fun s =>
  match mcuWrite32 s.mcu (0xEE000000 + offset) value with
  | .ok true mcu => .ok () { s with mcu := mcu }
  | .ok false mcu => .error .wild { s with mcu := mcu }
  | .error (.exit status) mcu => .error (.exit status) { s with mcu := mcu }
  | .error _ mcu => .error .wild { s with mcu := mcu }

/-- `unreachable()`: the store before it has reset the MCU. -/
def unreachable {α : Type} : Firmware α := fun s =>
  .error (if AtReset s.mcu then .reset else .wild) s

/-- `arch_test_set_test_count` -/
def archTestSetTestCount {α : Type} (count : UInt32) : Firmware α := do
  unittestStore 0x4 count
  unreachable

/-- `arch_test_get_test_current` -/
def archTestGetTestCurrent : Firmware Int32 := fun s =>
  match mcuFetch32 s.mcu (0xEE000000 + 0x0) with
  | some value => .ok value.toInt32 s
  | none => .error .wild s

/-- `STATUS_RUNNING` -/
def statusRunning : UInt32 := 0xDB6DB6DB

/-- `arch_test_set_desc` -/
def archTestSetDesc (desc : UInt32) : Firmware Unit := do
  unittestStore 0x8 desc
  unittestStore 0x12 statusRunning

/-- The bodies of `arch_test_skip`, `arch_test_pass` and `arch_test_fail`. -/
def report {α : Type} (status reason : UInt32) : Firmware α := do
  unittestStore 0x16 reason
  unittestStore 0x12 status
  unreachable

/-- `arch_test_skip` -/
def archTestSkip {α : Type} (reason : UInt32) : Firmware α := report statusSkipped reason

/-- `arch_test_pass` -/
def archTestPass {α : Type} (reason : UInt32) : Firmware α := report statusPassed reason

/-- `arch_test_fail` -/
def archTestFail {α : Type} (reason : UInt32) : Firmware α := report statusFailed reason

/-! ## `core/test.c` -/

/-- `test_fail` -/
def testFail {α : Type} (reason : UInt32) : Firmware α := archTestFail reason

/-- `test->func()` for the test with a number -/
def Test.call (test : Test) (number : Nat) : Firmware Unit := do
  let verdict ← fun s =>
    let (verdict, mcu) := test.func s.mcu
    .ok verdict { mcu := mcu, log := s.log ++ [(number, verdict)] }
  match verdict with
  | .returns => return
  | .fails reason => testFail reason
  | .skips reason => archTestSkip reason

/-- `sizeof(struct test)` -/
def sizeofTest : Nat := 12

/-- `test_do` -/
def testDo (tests : List Test) (type : TestType) : Firmware Unit := do
  let testsLength := (sizeofTest * tests.length).toUInt32
  let count := testsLength / sizeofTest.toUInt32
  let testNumber ← archTestGetTestCurrent
  if testNumber < 0 then archTestSetTestCount count
  match tests[testNumber.toInt.toNat]? with
  | none => throw .wild
  | some test =>
      if test.type = type then
        archTestSetDesc test.desc
        test.call testNumber.toInt.toNat
        archTestPass 0
      else return

/-- The code between the calls of `test_do`. -/
def Init.exec (init : Init) : Firmware Unit := fun s => .ok () { s with mcu := init.run s.mcu }

/-- `bootstrap`, with the code before the three calls of `test_do`. -/
def bootstrap (tests : List Test) (archEarlyInit archInit schedulerInit : Init) : Firmware Unit := do
  archEarlyInit.exec
  testDo tests .afterArchEarlyInit
  archInit.exec
  testDo tests .afterArchLateInit
  schedulerInit.exec
  testDo tests .inMainTask
  throw .blocked

/-- The boots of a session until the simulator ends, with the exit status. -/
def session (tests : List Test) (archEarlyInit archInit schedulerInit : Init) :
    Nat → Machine → Option (Int × Machine)
  | 0, _ => none
  | boots + 1, s =>
      match bootstrap tests archEarlyInit archInit schedulerInit s with
      | .error .reset s' => session tests archEarlyInit archInit schedulerInit boots s'
      | .error (.exit status) s' => some (status, s')
      | _ => none

/-- The state at the start of a boot of a session. -/
def atBoot (tests : List Test) (archEarlyInit archInit schedulerInit : Init) :
    Nat → Machine → Option Machine
  | 0, s => some s
  | boot + 1, s =>
      match bootstrap tests archEarlyInit archInit schedulerInit s with
      | .error .reset s' => atBoot tests archEarlyInit archInit schedulerInit boot s'
      | _ => none

/-- A boot of a session calls the test with a number, and no other. -/
def CallsOnly (tests : List Test) (archEarlyInit archInit schedulerInit : Init) (s : Machine)
    (boot number : Nat) : Prop :=
  ∃ before after leave verdict,
    atBoot tests archEarlyInit archInit schedulerInit boot s = some before ∧
    bootstrap tests archEarlyInit archInit schedulerInit before = .error leave after ∧
    after.log = before.log ++ [(number, verdict)]

/-! ## The accesses -/

/-- The reset vector has the Thumb bit, so that `mcu_reset` succeeds. -/
def HasVector (mcu : Mcu) : Prop := load32 mcu.flash 4 &&& 1 ≠ 0

section Accesses

variable {mcu mcu' : Mcu} {s : Machine} {value : UInt32}

theorem fetch_vector (mcu : Mcu) :
    mcuFetch32 mcu 0x0 = some (load32 mcu.flash 0) ∧
      mcuFetch32 mcu 0x4 = some (load32 mcu.flash 4) := by
  have at_ : ∀ addr : UInt32, addr < 8 → mcu.memDevAt addr = some (.flash, addr) := by
    intro addr low
    have bound : addr.toNat < 8 := UInt32.lt_iff_toNat_lt.mp low
    have below : ∀ offset : UInt32, 8 ≤ offset.toNat → ¬ offset ≤ addr := by
      intro offset le above
      have := UInt32.le_iff_toNat_le.mp above
      omega
    have first := below 0xEE000000 (by decide)
    have second := below 0xE0000000 (by decide)
    have third := below 0x10000000 (by decide)
    have last : addr < 32768 := UInt32.lt_iff_toNat_lt.mpr (bound.trans (by decide))
    simp [Mcu.memDevAt, Mcu.memDevs, first, second, third, last, -UInt32.not_le]
  unfold mcuFetch32
  rw [at_ 0x0 (by decide), at_ 0x4 (by decide)]
  exact ⟨rfl, rfl⟩

/-- The reset starts at the vector. -/
theorem atReset_reset (vector : HasVector mcu) : AtReset (mcuReset mcu).2 := by
  have flash : (mcuWriteReg mcu regSp (load32 mcu.flash 0)).flash = mcu.flash := by
    obtain ⟨r, v, -, written⟩ := exists_setReg mcu regSp (load32 mcu.flash 0)
    rw [written]
    rfl
  have pc : ∀ (mcu : Mcu) (value : UInt32),
      (mcuWriteReg mcu regPc value).regs regPc = value &&& ~~~ 1 := fun _ _ => rfl
  unfold AtReset
  rw [(sameMemory_reset mcu).flash]
  unfold mcuReset
  rw [(fetch_vector mcu).1]
  dsimp only
  rw [(fetch_vector _).2, flash]
  dsimp only
  rw [if_neg vector]
  exact pc (mcuWriteReg mcu regSp (load32 mcu.flash 0)) (load32 mcu.flash 4 + 2)

/-- The firmware runs on from the reset vector. -/
theorem unreachable_reset {α : Type} (vector : HasVector mcu) (log : List (Nat × Verdict)) :
    (unreachable : Firmware α) { mcu := (mcuReset mcu).2, log := log } =
      .error .reset { mcu := (mcuReset mcu).2, log := log } := by
  unfold unreachable
  rw [if_pos (atReset_reset vector)]

end Accesses

/-! ## A test -/

/-- The registers of the device: `i` tests have finished, of which `f` have failed and `k` have been
skipped. -/
structure Counts (tests : List Test) (i f k : Nat) (mcu : Mcu) : Prop where
  current : mcu.unittest.currentTest.toInt = i
  total : mcu.unittest.totalTests.toInt = tests.length
  failed : mcu.unittest.testsFailed.toInt = f
  skipped : mcu.unittest.testsSkipped.toInt = k
  vector : HasVector mcu

/-- How a test leaves the firmware when `i` tests have finished. -/
def leaves (tests : List Test) (i f : Nat) : Leave :=
  if i < tests.length then .reset else .exit (if 0 < f then -1 else 0)

/-- The test has called `test_fail`. -/
def Verdict.isFailure : Verdict → Bool
  | .fails _ => true
  | _ => false

/-- The test has called `arch_test_skip`. -/
def Verdict.isSkip : Verdict → Bool
  | .skips _ => true
  | _ => false

/-- The test with the number has ended in this way, in some state of the MCU. -/
def Ended (tests : List Test) (entry : Nat × Verdict) : Prop :=
  ∃ test mcu, tests[entry.1]? = some test ∧ (test.func mcu).1 = entry.2

/-- `i` tests have been called in the order of the table, and the device has counted them. -/
structure Progress (tests : List Test) (i : Nat) (s : Machine) : Prop where
  ended : ∀ entry ∈ s.log, Ended tests entry
  order : s.log.map (·.1) = List.range i
  counts : Counts tests i (s.log.countP (·.2.isFailure)) (s.log.countP (·.2.isSkip)) s.mcu

section Specs

variable {tests : List Test} {i f k : Nat} {mcu mcu' : Mcu} {s : Machine} {status reason : UInt32}

theorem Counts.untouched (counts : Counts tests i f k mcu) (same : Untouched mcu mcu') :
    Counts tests i f k mcu' := by
  obtain ⟨flash, unittest⟩ := same
  refine ⟨?_, ?_, ?_, ?_, ?_⟩
  · rw [unittest, counts.current]
  · rw [unittest, counts.total]
  · rw [unittest, counts.failed]
  · rw [unittest, counts.skipped]
  · unfold HasVector
    rw [flash]
    exact counts.vector

theorem toInt_add_one {a : Int32} {i : Nat} (value : a.toInt = i) (bound : i + 1 < 2 ^ 31) :
    (a + 1).toInt = (i + 1 : Nat) := by
  rw [Int32.toInt_add, value, show (1 : Int32).toInt = 1 from rfl, Int.bmod_eq_of_le]
  · push_cast
    rfl
  · omega
  · push_cast
    omega

/-- The device when a report is stored. -/
def reported (mcu : Mcu) (status reason : UInt32) : Mcu :=
  { mcu with unittest := { mcu.unittest with
    statusDesc := unittestFetchStr mcu reason, status := status } }

/-- The counters of the device when a test has finished. -/
def counted (dev : Unittest) (status : UInt32) : Unittest :=
  { dev with
    currentTest := dev.currentTest + 1
    testsSkipped := if status = statusSkipped then dev.testsSkipped + 1 else dev.testsSkipped
    testsFailed := if status = statusFailed then dev.testsFailed + 1 else dev.testsFailed }

theorem Counts.counted (counts : Counts tests i f k mcu) (few : tests.length < 2 ^ 31)
    (due : i < tests.length) (failed : f ≤ i) (skipped : k ≤ i) (status : UInt32)
    (unittest : mcu'.unittest = { counted mcu.unittest status with desc := mcu'.unittest.desc })
    (flash : mcu'.flash = mcu.flash) :
    Counts tests (i + 1) (if status = statusFailed then f + 1 else f)
      (if status = statusSkipped then k + 1 else k) mcu' := by
  constructor
  · rw [unittest]
    exact toInt_add_one counts.current (by omega)
  · rw [unittest]
    exact counts.total
  · rw [unittest]
    show (if _ then _ else _ : Int32).toInt = _
    split_ifs
    · exact toInt_add_one counts.failed (by omega)
    · exact counts.failed
  · rw [unittest]
    show (if _ then _ else _ : Int32).toInt = _
    split_ifs
    · exact toInt_add_one counts.skipped (by omega)
    · exact counts.skipped
  · unfold HasVector
    rw [flash]
    exact counts.vector

theorem unittestFinished_eq (mcu : Mcu) (status : UInt32) :
    unittestFinished mcu status =
      if (counted mcu.unittest status).currentTest < (counted mcu.unittest status).totalTests then
        .ok true (mcuReset { mcu with
          unittest := { counted mcu.unittest status with desc := none } }).2
      else .error (.exit (if (counted mcu.unittest status).testsFailed > 0 then -1 else 0))
        { mcu with unittest := counted mcu.unittest status } := rfl

theorem write_status
    (final : status = statusSkipped ∨ status = statusPassed ∨ status = statusFailed) :
    mcuWrite32 { mcu with unittest := { mcu.unittest with
        statusDesc := unittestFetchStr mcu reason } } (0xEE000000 + 0x12) status =
      unittestFinished (reported mcu status reason) status := by
  show (if _ ∨ _ then unittestFinished (reported mcu status reason) status else _) = _
  exact if_pos final

theorem bind_ok {α β : Type} {x : Firmware α} {next : α → Firmware β} {a : α} {s s' : Machine}
    (ran : x s = .ok a s') : (x >>= next) s = next a s' := by
  show EStateM.bind x next s = _
  unfold EStateM.bind
  rw [ran]

theorem bind_error {α β : Type} {x : Firmware α} {next : α → Firmware β} {leave : Leave}
    {s s' : Machine} (ran : x s = .error leave s') : (x >>= next) s = .error leave s' := by
  show EStateM.bind x next s = _
  unfold EStateM.bind
  rw [ran]

/-- A report counts the test, and goes on with the next one or ends the simulator. -/
theorem report_counts {α : Type}
    (final : status = statusSkipped ∨ status = statusPassed ∨ status = statusFailed)
    (counts : Counts tests i f k s.mcu) (due : i < tests.length) (few : tests.length < 2 ^ 31)
    (failed : f ≤ i) (skipped : k ≤ i) :
    ∃ mcu', (report status reason : Firmware α) s =
        .error (leaves tests (i + 1) (if status = statusFailed then f + 1 else f))
          { s with mcu := mcu' } ∧
      Counts tests (i + 1) (if status = statusFailed then f + 1 else f)
        (if status = statusSkipped then k + 1 else k) mcu' := by
  let dev := counted (reported s.mcu status reason).unittest status
  have stored : unittestStore 0x12 status
      { s with mcu := { s.mcu with unittest := { s.mcu.unittest with
        statusDesc := unittestFetchStr s.mcu reason } } } =
      if dev.currentTest < dev.totalTests then
        .ok () { s with mcu := (mcuReset { reported s.mcu status reason with
          unittest := { dev with desc := none } }).2 }
      else .error (.exit (if dev.testsFailed > 0 then -1 else 0))
        { s with mcu := { reported s.mcu status reason with unittest := dev } } := by
    unfold unittestStore
    rw [write_status final, unittestFinished_eq]
    by_cases more : dev.currentTest < dev.totalTests
    · rw [if_pos more, if_pos more]
    · rw [if_neg more, if_neg more]
  have described : unittestStore 0x16 reason s = .ok ()
      { s with mcu := { s.mcu with unittest := { s.mcu.unittest with
        statusDesc := unittestFetchStr s.mcu reason } } } := rfl
  have before : Counts tests i f k (reported s.mcu status reason) :=
    ⟨counts.current, counts.total, counts.failed, counts.skipped, counts.vector⟩
  have counts' : ∀ mcu' : Mcu, mcu'.unittest = { dev with desc := mcu'.unittest.desc } →
      mcu'.flash = s.mcu.flash →
      Counts tests (i + 1) (if status = statusFailed then f + 1 else f)
        (if status = statusSkipped then k + 1 else k) mcu' :=
    fun _ => before.counted few due failed skipped status
  have more : dev.currentTest < dev.totalTests ↔ i + 1 < tests.length := by
    rw [Int32.lt_iff_toInt_lt, show dev.currentTest.toInt = _ from
      toInt_add_one counts.current (by omega), show dev.totalTests.toInt = _ from counts.total]
    omega
  have bad : dev.testsFailed > 0 ↔ 0 < if status = statusFailed then f + 1 else f := by
    have value := (counts' { reported s.mcu status reason with unittest := dev } rfl rfl).failed
    show 0 < dev.testsFailed ↔ _
    rw [Int32.lt_iff_toInt_lt, show dev.testsFailed.toInt = _ from value,
      show (0 : Int32).toInt = 0 from rfl]
    omega
  by_cases rest : i + 1 < tests.length
  · rw [if_pos (more.mpr rest)] at stored
    refine ⟨(mcuReset { reported s.mcu status reason with
      unittest := { dev with desc := none } }).2, ?_, counts' _ ?_ ?_⟩
    · unfold report leaves
      rw [if_pos rest, bind_ok described, bind_ok stored]
      refine unreachable_reset ?_ s.log
      exact counts.vector
    · rw [(sameMemory_reset _).unittest]
    · exact (sameMemory_reset _).flash
  · rw [if_neg (mt more.mp rest)] at stored
    refine ⟨{ reported s.mcu status reason with unittest := dev }, ?_, counts' _ rfl rfl⟩
    unfold report leaves
    rw [if_neg rest, bind_ok described, bind_error stored]
    simp only [bad]

/-- A boot calls the test that is due, and its end is counted. -/
def CallsDue (tests : List Test) (i f k : Nat) (s : Machine)
    (result : EStateM.Result Leave Machine Unit) : Prop :=
  ∃ verdict : Verdict, ∃ mcu', Ended tests (i, verdict) ∧ result =
      .error (leaves tests (i + 1) (if verdict.isFailure then f + 1 else f))
        { mcu := mcu', log := s.log ++ [(i, verdict)] } ∧
    Counts tests (i + 1) (if verdict.isFailure then f + 1 else f)
      (if verdict.isSkip then k + 1 else k) mcu'

theorem archTestSetDesc_eq (desc : UInt32) (s : Machine) : ∃ text, archTestSetDesc desc s =
    .ok () { s with mcu := { s.mcu with unittest := { s.mcu.unittest with
      desc := text, status := statusRunning } } } :=
  ⟨unittestFetchStr s.mcu desc, rfl⟩

/-- The number of the test that is due. -/
theorem archTestGetTestCurrent_eq (s : Machine) :
    archTestGetTestCurrent s = .ok s.mcu.unittest.currentTest s := rfl

/-- `test_do` calls the test that is due if it belongs here, and else does nothing. -/
theorem testDo_due {test : Test} {type : TestType} (counts : Counts tests i f k s.mcu)
    (few : tests.length < 2 ^ 31) (failed : f ≤ i) (skipped : k ≤ i) (due : tests[i]? = some test) :
    if test.type = type then CallsDue tests i f k s (testDo tests type s)
    else testDo tests type s = .ok () s := by
  have inside : i < tests.length := (List.getElem?_eq_some_iff.mp due).1
  have known : ¬ s.mcu.unittest.currentTest < 0 := by
    rw [Int32.lt_iff_toInt_lt, counts.current, show (0 : Int32).toInt = 0 from rfl]
    omega
  have number : s.mcu.unittest.currentTest.toInt.toNat = i := by
    rw [counts.current]
    exact Int.toNat_natCast i
  have found : testDo tests type s = (if test.type = type then do
      archTestSetDesc test.desc
      test.call i
      archTestPass 0 else pure () : Firmware Unit) s := by
    unfold testDo
    dsimp only
    rw [bind_ok (archTestGetTestCurrent_eq s), if_neg known, number, due]
  rw [found]
  split_ifs with here
  · obtain ⟨text, described⟩ := archTestSetDesc_eq test.desc s
    rw [bind_ok described]
    -- the device counts as before while the test runs
    let started : Mcu := { s.mcu with unittest := { s.mcu.unittest with
      desc := text, status := statusRunning } }
    have before : Counts tests i f k started :=
      ⟨counts.current, counts.total, counts.failed, counts.skipped, counts.vector⟩
    have after : Counts tests i f k (test.func started).2 :=
      before.untouched (test.untouched started)
    have called : test.call i { s with mcu := started } =
        (match (test.func started).1 with
          | .returns => pure ()
          | .fails reason => testFail reason
          | .skips reason => archTestSkip reason : Firmware Unit)
          ⟨(test.func started).2, s.log ++ [(i, (test.func started).1)]⟩ := rfl
    have reports : ∀ status reason (s' : Machine), s'.mcu = (test.func started).2 →
        (status = statusSkipped ∨ status = statusPassed ∨ status = statusFailed) → _ :=
      fun status reason (s' : Machine) same final =>
        @report_counts tests i f k s' status reason Unit final (same ▸ after) inside few failed skipped
    have ended : ∀ {verdict}, (test.func started).1 = verdict → Ended tests (i, verdict) :=
      fun same => ⟨test, started, due, same⟩
    cases verdict : (test.func started).1 with
    | returns =>
        rw [verdict] at called
        obtain ⟨mcu', passed, counts'⟩ := reports statusPassed 0 ⟨_, s.log ++ [(i, .returns)]⟩ rfl
          (.inr (.inl rfl))
        exact ⟨.returns, mcu', ended verdict, (bind_ok called).trans passed, counts'⟩
    | fails reason =>
        rw [verdict] at called
        obtain ⟨mcu', failed, counts'⟩ := reports statusFailed reason
          ⟨_, s.log ++ [(i, .fails reason)]⟩ rfl (.inr (.inr rfl))
        exact ⟨.fails reason, mcu', ended verdict, bind_error (called.trans failed), counts'⟩
    | skips reason =>
        rw [verdict] at called
        obtain ⟨mcu', skipped, counts'⟩ := reports statusSkipped reason
          ⟨_, s.log ++ [(i, .skips reason)]⟩ rfl (.inl rfl)
        exact ⟨.skips reason, mcu', ended verdict, bind_error (called.trans skipped), counts'⟩
  · rfl

/-! ## Boots -/

variable {archEarlyInit archInit schedulerInit : Init}

/-- A boot calls the test that is due, wherever it belongs. -/
theorem bootstrap_due (counts : Counts tests i f k s.mcu) (few : tests.length < 2 ^ 31)
    (failed : f ≤ i) (skipped : k ≤ i) (due : i < tests.length) :
    CallsDue tests i f k s (bootstrap tests archEarlyInit archInit schedulerInit s) := by
  have test : tests[i]? = some tests[i] := List.getElem?_eq_getElem due
  -- the states after the three parts of the initialisation
  let early : Machine := { s with mcu := archEarlyInit.run s.mcu }
  let late : Machine := { s with mcu := archInit.run early.mcu }
  let last : Machine := { s with mcu := schedulerInit.run late.mcu }
  have atEarly : Counts tests i f k early.mcu := counts.untouched (archEarlyInit.untouched _)
  have atLate : Counts tests i f k late.mcu := atEarly.untouched (archInit.untouched _)
  have atLast : Counts tests i f k last.mcu := atLate.untouched (schedulerInit.untouched _)
  have ends : ∀ {x : Firmware Unit} {next : Unit → Firmware Unit} {s' : Machine},
      CallsDue tests i f k s (x s') → CallsDue tests i f k s ((x >>= next) s') := by
    rintro x next s' ⟨verdict, mcu', ended, ran, counts'⟩
    exact ⟨verdict, mcu', ended, bind_error ran, counts'⟩
  have first := @testDo_due tests i f k early _ .afterArchEarlyInit atEarly few failed skipped test
  have second := @testDo_due tests i f k late _ .afterArchLateInit atLate few failed skipped test
  have third := @testDo_due tests i f k last _ .inMainTask atLast few failed skipped test
  unfold bootstrap
  rw [bind_ok (show archEarlyInit.exec s = .ok () early from rfl)]
  cases type : tests[i].type with
  | afterArchEarlyInit =>
      rw [if_pos type] at first
      exact ends first
  | afterArchLateInit =>
      rw [type, if_neg (by decide)] at first
      rw [if_pos type] at second
      rw [bind_ok first, bind_ok (show archInit.exec early = .ok () late from rfl)]
      exact ends second
  | inMainTask =>
      rw [type, if_neg (by decide)] at first second
      rw [if_pos type] at third
      rw [bind_ok first, bind_ok (show archInit.exec early = .ok () late from rfl), bind_ok second,
        bind_ok (show schedulerInit.exec late = .ok () last from rfl)]
      exact ends third

/-- The first boot tells the device how many tests there are. -/
theorem bootstrap_first (fresh : s.mcu.unittest.currentTest < 0) (vector : HasVector s.mcu)
    (few : sizeofTest * tests.length < 2 ^ 32) :
    ∃ mcu', bootstrap tests archEarlyInit archInit schedulerInit s =
      .error .reset { s with mcu := mcu' } ∧ Counts tests 0 0 0 mcu' := by
  let early : Machine := { s with mcu := archEarlyInit.run s.mcu }
  obtain ⟨flash, unittest⟩ := archEarlyInit.untouched s.mcu
  have vector : HasVector early.mcu := by
    unfold HasVector
    rw [flash]
    exact vector
  have fresh : early.mcu.unittest.currentTest < 0 := by
    rw [unittest]
    exact fresh
  let count : UInt32 := (sizeofTest * tests.length).toUInt32 / sizeofTest.toUInt32
  let cleared : Unittest := { early.mcu.unittest with
    totalTests := count.toInt32, currentTest := 0, testsFailed := 0, testsSkipped := 0 }
  let reset : Mcu := (mcuReset { early.mcu with unittest := cleared }).2
  have same := sameMemory_reset { early.mcu with unittest := cleared }
  have stored : unittestStore 0x4 count early = .ok () { s with mcu := reset } := rfl
  have ran : testDo tests .afterArchEarlyInit early = .error .reset { s with mcu := reset } := by
    unfold testDo
    dsimp only
    rw [bind_ok (archTestGetTestCurrent_eq early), if_pos fresh]
    refine bind_error ?_
    unfold archTestSetTestCount
    rw [bind_ok stored]
    refine unreachable_reset ?_ s.log
    exact vector
  refine ⟨reset, ?_, ?_⟩
  · unfold bootstrap
    rw [bind_ok (show archEarlyInit.exec s = .ok () early from rfl)]
    exact bind_error ran
  · have total : count.toInt32.toInt = tests.length := by
      unfold sizeofTest at few
      have value : count.toNat = tests.length := by
        show (UInt32.ofNat (12 * tests.length) / 12).toNat = _
        rw [UInt32.toNat_div, UInt32.toNat_ofNat_of_lt' few]
        show 12 * tests.length / 12 = _
        omega
      show count.toBitVec.toInt = _
      rw [BitVec.toInt_eq_toNat_of_lt, UInt32.toNat_toBitVec, value]
      rw [UInt32.toNat_toBitVec, value]
      omega
    refine ⟨?_, ?_, ?_, ?_, ?_⟩
    · rw [same.unittest]
      rfl
    · rw [same.unittest]
      exact total
    · rw [same.unittest]
      rfl
    · rw [same.unittest]
      rfl
    · unfold HasVector
      rw [same.flash]
      exact vector

/-- Each boot is a step forward. -/
theorem Progress.boot (progress : Progress tests i s) (few : tests.length < 2 ^ 31)
    (due : i < tests.length) : ∃ s', bootstrap tests archEarlyInit archInit schedulerInit s =
      .error (leaves tests (i + 1) (s'.log.countP (·.2.isFailure))) s' ∧
    (∃ verdict, s'.log = s.log ++ [(i, verdict)]) ∧ Progress tests (i + 1) s' := by
  have length : s.log.length = i := by
    rw [← List.length_map (·.1), progress.order, List.length_range]
  obtain ⟨verdict, mcu', ended, ran, counts⟩ := bootstrap_due progress.counts few
    (length ▸ List.countP_le_length) (length ▸ List.countP_le_length) due
  have failures : (s.log ++ [(i, verdict)]).countP (·.2.isFailure) =
      if verdict.isFailure then s.log.countP (·.2.isFailure) + 1
      else s.log.countP (·.2.isFailure) := by
    rw [List.countP_append, List.countP_singleton]
    split_ifs
    · rfl
    · rfl
  have skips : (s.log ++ [(i, verdict)]).countP (·.2.isSkip) =
      if verdict.isSkip then s.log.countP (·.2.isSkip) + 1 else s.log.countP (·.2.isSkip) := by
    rw [List.countP_append, List.countP_singleton]
    split_ifs
    · rfl
    · rfl
  refine ⟨{ mcu := mcu', log := s.log ++ [(i, verdict)] }, ran.trans ?_, ⟨verdict, rfl⟩, ?_, ?_, ?_⟩
  · rw [failures]
  · intro entry mem
    rcases List.mem_append.mp mem with before | now
    · exact progress.ended entry before
    · rw [List.mem_singleton.mp now]
      exact ended
  · rw [List.map_append, progress.order, List.range_succ]
    rfl
  · rw [failures, skips]
    exact counts

omit i in
/-- The boots that come after a reset are those of the session, one later. -/
theorem CallsOnly.later {s s' : Machine} {boot number : Nat}
    (ran : bootstrap tests archEarlyInit archInit schedulerInit s = .error .reset s')
    (calls : CallsOnly tests archEarlyInit archInit schedulerInit s' boot number) :
    CallsOnly tests archEarlyInit archInit schedulerInit s (boot + 1) number := by
  rcases calls with ⟨before, after, leave, verdict, starts, ends, log⟩
  refine ⟨before, after, leave, verdict, ?_, ends, log⟩
  rw [atBoot, ran]
  exact starts

/-- What is left of a session when `i` tests have finished. -/
theorem session_rest (few : tests.length < 2 ^ 31) (left i : Nat) (s : Machine)
    (rest : i + (left + 1) = tests.length) (progress : Progress tests i s) :
    ∃ s', session tests archEarlyInit archInit schedulerInit (left + 1) s =
        some (if s'.log.any (·.2.isFailure) then -1 else 0, s') ∧
      Progress tests tests.length s' ∧
      ∀ j ≤ left, CallsOnly tests archEarlyInit archInit schedulerInit s j (i + j) := by
  rcases @Progress.boot _ _ _ archEarlyInit archInit schedulerInit progress few (by omega) with
    ⟨s', ran, ⟨verdict, log⟩, progress'⟩
  have first : CallsOnly tests archEarlyInit archInit schedulerInit s 0 (i + 0) :=
    ⟨s, s', _, verdict, rfl, ran, log⟩
  induction left generalizing i s s' verdict with
  | zero =>
      have all : i + 1 = tests.length := rest
      rw [all] at ran progress'
      refine ⟨s', ?_, progress', fun j le => ?_⟩
      · unfold session
        rw [ran]
        unfold leaves
        rw [if_neg (Nat.lt_irrefl _)]
        simp only [List.countP_pos_iff, List.any_eq_true]
      · rw [Nat.le_zero.mp le]
        exact first
  | succ left ih =>
      rcases @Progress.boot _ _ _ archEarlyInit archInit schedulerInit progress' few (by omega) with
        ⟨s'', ran', ⟨verdict', log'⟩, progress''⟩
      rcases ih (i + 1) s' (by omega) progress' s'' ran' progress'' verdict' log'
        ⟨s', s'', _, verdict', rfl, ran', log'⟩ with ⟨last, ended, done, calls⟩
      rw [leaves, if_pos (by omega)] at ran
      refine ⟨last, ?_, done, fun j le => ?_⟩
      · rw [session, ran]
        exact ended
      · cases j with
        | zero => exact first
        | succ j =>
            have later := (calls j (by omega)).later ran
            rwa [show i + 1 + j = i + (j + 1) by omega] at later

/-- **Every test is called once**: in a session of the simulator with a table of tests, the firmware
calls every test exactly once, in the order of the table, each in a boot of its own, behind the first
boot, which tells the device how many there are; then the simulator exits, with status -1 exactly if
a test has failed, and with the numbers of tests failed and skipped. -/
theorem session_exit (tests : List Test) (archEarlyInit archInit schedulerInit : Init) (s : Machine)
    (some : tests ≠ []) (few : sizeofTest * tests.length < 2 ^ 32) (vector : HasVector s.mcu)
    (fresh : s.mcu.unittest.currentTest < 0) (start : s.log = []) :
    ∃ s', session tests archEarlyInit archInit schedulerInit (tests.length + 1) s =
        .some (if s'.log.any (·.2.isFailure) then -1 else 0, s') ∧
      s'.log.map (·.1) = List.range tests.length ∧ (∀ entry ∈ s'.log, Ended tests entry) ∧
      (∀ i < tests.length,
        CallsOnly tests archEarlyInit archInit schedulerInit s (i + 1) i) ∧
      s'.mcu.unittest.testsFailed.toInt = s'.log.countP (·.2.isFailure) ∧
      s'.mcu.unittest.testsSkipped.toInt = s'.log.countP (·.2.isSkip) := by
  obtain ⟨mcu', ran, counts⟩ := @bootstrap_first tests s archEarlyInit archInit schedulerInit fresh
    vector few
  have length : tests.length ≠ 0 := fun none => some (List.length_eq_zero_iff.mp none)
  have begun : Progress tests 0 { s with mcu := mcu' } := by
    constructor
    · rw [start]
      exact List.forall_mem_nil _
    · rw [start]
      rfl
    · rw [start]
      exact counts
  unfold sizeofTest at few
  rcases @session_rest tests archEarlyInit archInit schedulerInit (by omega)
    (tests.length - 1) 0 { s with mcu := mcu' } (by omega) begun with ⟨s', ended, done, calls⟩
  refine ⟨s', ?_, done.order, done.ended, fun i lt => ?_, done.counts.failed, done.counts.skipped⟩
  · rw [session, ran]
    rwa [Nat.sub_add_cancel (Nat.pos_of_ne_zero length)] at ended
  · have own := (calls i (by omega)).later ran
    rwa [Nat.zero_add] at own

end Specs

/-! ## Three tests -/

/-- Nothing that concerns the device. -/
def nothing : Init := ⟨id, fun _ => ⟨rfl, rfl⟩⟩

/-- A test that ends in a way, whatever the state. -/
def always (type : TestType) (verdict : Verdict) : Test :=
  ⟨0, type, fun mcu => (verdict, mcu), fun _ => ⟨rfl, rfl⟩⟩

/-- A test of each type: the second one fails, and the third one is skipped. -/
def threeTests : List Test :=
  [always .afterArchLateInit .returns, always .inMainTask (.fails 0),
    always .afterArchEarlyInit (.skips 0)]

/-- The MCU has been created, and a firmware has been loaded. -/
def loaded : Machine := ⟨{ createdMcu with flash := fun _ => 1 }, []⟩

theorem session_exit_three :
    (session threeTests nothing nothing nothing 4 loaded).map (·.1) = some (-1) ∧
    ∃ s', session threeTests nothing nothing nothing 4 loaded =
        some (if s'.log.any (·.2.isFailure) then -1 else 0, s') ∧
      s'.log.map (·.1) = [0, 1, 2] ∧ (∀ entry ∈ s'.log, Ended threeTests entry) ∧
      (∀ i < 3, CallsOnly threeTests nothing nothing nothing loaded (i + 1) i) ∧
      s'.mcu.unittest.testsFailed.toInt = s'.log.countP (·.2.isFailure) ∧
      s'.mcu.unittest.testsSkipped.toInt = s'.log.countP (·.2.isSkip) :=
  ⟨by decide +kernel, session_exit threeTests nothing nothing nothing loaded (by decide) (by decide)
    (by unfold HasVector; decide) (by decide) rfl⟩

end TheFirmware.UnitTest
