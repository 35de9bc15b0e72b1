import TheFirmware.Simulator.FailsClean
import TheFirmware.Simulator.Memory

/-!
# Instructions that access several words

LDMIA, POP, PUSH and STMIA access several words, and the registers that they have changed before an
access fails stay changed: those that were loaded, and the stack pointer that PUSH has moved. A word
that is stored may also reset the MCU, which sets the stack pointer. For each of the four there is an
exact condition under which it has kept the registers when it fails (`FailsKept`).
-/

namespace TheFirmware.Simulator

open Instr16

/-! ## Registers -/

/-- The registers, the stack pointer and the flags are the same, but for the PC. -/
def Mcu.Kept (mcu mcu' : Mcu) : Prop :=
  (∀ reg < regPc, mcuReadReg mcu' reg = mcuReadReg mcu reg) ∧
    mcuReadReg mcu' regApsr = mcuReadReg mcu regApsr

/-- All registers, the stack pointer, the PC and the flags are the same. -/
def Mcu.SameRegisters (mcu mcu' : Mcu) : Prop :=
  (∀ reg ≤ regPc, mcuReadReg mcu' reg = mcuReadReg mcu reg) ∧
    mcuReadReg mcu' regApsr = mcuReadReg mcu regApsr

section Registers

variable {mcu mcu' : Mcu}

theorem mcuReadReg_congr (same : mcu'.regs = mcu.regs) (reg : Reg) :
    mcuReadReg mcu' reg = mcuReadReg mcu reg := by
  unfold mcuReadReg Mcu.stackPointer
  rw [same]

theorem Mcu.Kept.of_regs (same : mcu'.regs = mcu.regs) : mcu.Kept mcu' :=
  ⟨fun reg _ => mcuReadReg_congr same reg, mcuReadReg_congr same regApsr⟩

theorem Mcu.SameRegisters.of_regs (same : mcu'.regs = mcu.regs) : mcu.SameRegisters mcu' :=
  ⟨fun reg _ => mcuReadReg_congr same reg, mcuReadReg_congr same regApsr⟩

theorem Mcu.SameRegisters.halt (same : mcu.SameRegisters mcu') (reason : Int) :
    mcu.SameRegisters (mcuHalt mcu' reason) := by
  have halted := mcuReadReg_congr (regs_mcuHalt mcu' reason)
  exact ⟨fun reg le => (halted reg).trans (same.1 reg le), (halted regApsr).trans same.2⟩

/-- A write to the PC is seen in the PC only. -/
theorem mcuReadReg_writePc {reg : Reg} (mcu : Mcu) (val : UInt32) (ne : reg ≠ regPc) :
    mcuReadReg (mcuWriteReg mcu regPc val) reg = mcuReadReg mcu reg := by
  have written : mcuWriteReg mcu regPc val = mcu.setReg regPc val := rfl
  have other : ∀ r, r ≠ regPc → (mcu.setReg regPc val).regs r = mcu.regs r :=
    fun r ne => mcu.regs_setReg_of_ne val ne
  have sp : (mcu.setReg regPc val).stackPointer = mcu.stackPointer := by
    unfold Mcu.stackPointer
    rw [other regSp (by decide)]
  have spNe : mcu.stackPointer ≠ regPc := by
    rcases stackPointer_cases mcu with main | process
    · rw [main]
      decide
    · rw [process]
      decide
  rw [written]
  unfold mcuReadReg
  rw [sp, other _ spNe, other regXpsr (by decide), other reg ne]

/-- The PC holds what was written to it, without bit 0. -/
theorem mcuReadReg_writePc_self (mcu : Mcu) (val : UInt32) :
    mcuReadReg (mcuWriteReg mcu regPc val) regPc = val &&& ~~~ 1 := by
  show Function.update mcu.regs regPc (if regPc = regPc then val &&& ~~~ 1 else val) regPc = _
  rw [Function.update_self, if_pos rfl]

/-- The PC is restored. -/
theorem mcuReadReg_restored (mcu mcu' : Mcu) :
    mcuReadReg (mcuWriteReg mcu' regPc (mcuReadReg mcu regPc)) regPc = mcuReadReg mcu regPc := by
  have read : mcuReadReg mcu regPc = mcu.regs regPc := rfl
  rw [mcuReadReg_writePc_self, read]
  have even := LittleEndian.toNat_and_not_one (mcu.regs regPc)
  have bit := LittleEndian.toNat_and_one (mcu.regs regPc)
  rw [mcu.pcEven] at bit
  have zero : (0 : UInt32).toNat = 0 := rfl
  exact UInt32.toNat_inj.mp (by omega)

/-- With the PC restored, a failed instruction has left the registers exactly when it has kept
those that it found. -/
theorem sameRegisters_iff (mcu mcu₂ : Mcu) (pc : UInt32) :
    mcu.SameRegisters (mcuWriteReg mcu₂ regPc (mcuReadReg mcu regPc)) ↔
      (mcuWriteReg mcu regPc pc).Kept mcu₂ := by
  have apsr : regApsr ≠ regPc := by decide
  unfold Mcu.SameRegisters Mcu.Kept
  rw [mcuReadReg_writePc _ _ apsr, mcuReadReg_writePc _ _ apsr]
  refine and_congr_left fun _ => ⟨fun same reg lt => ?_, fun kept reg le => ?_⟩
  · have read := same reg lt.le
    rwa [mcuReadReg_writePc _ _ lt.ne] at read ⊢
  · rcases Nat.lt_or_eq_of_le le with lt | eq
    · have read := kept reg lt
      rwa [mcuReadReg_writePc _ _ lt.ne] at read ⊢
    · rw [eq]
      exact mcuReadReg_restored mcu mcu₂

end Registers

/-! ## Loading registers -/

/-- Loading registers from `sp` fails: a word cannot be fetched, or `last` holds behind them. -/
def LoadFaults (mcu : Mcu) (last : UInt32 → Prop) : List Reg → UInt32 → Prop
  | [], sp => last sp
  | _ :: regs, sp =>
      match mcuFetch32 mcu sp with
      | none => True
      | some _ => LoadFaults mcu last regs (sp + 4)

/-- The registers that are loaded from `sp` before a fetch fails hold the loaded values already. -/
def LoadsSame (mcu : Mcu) : List Reg → UInt32 → Prop
  | [], _ => True
  | reg :: regs, sp =>
      match mcuFetch32 mcu sp with
      | none => True
      | some val => val = mcuReadReg mcu reg ∧ LoadsSame mcu regs (sp + 4)

/-- What is left behind when registers were loaded from `sp`, or some of them before a fetch failed:
`out` is the address behind them, if all were loaded. -/
structure Loaded (mcu mcu' : Mcu) (regs : List Reg) (sp : UInt32) (out : Option UInt32) : Prop where
  other : ∀ reg, reg ∉ regs → mcu'.regs reg = mcu.regs reg
  same : (∀ reg ∈ regs, mcu'.regs reg = mcu.regs reg) ↔ LoadsSame mcu regs sp
  faults : out = none → ∀ last, LoadFaults mcu last regs sp
  behind : ∀ sp', out = some sp' → ∀ last, LoadFaults mcu last regs sp ↔ last sp'
  fetches : ∀ sp', out = some sp' → mcuFetch32 mcu' = mcuFetch32 mcu

section Loads

variable {mcu mcu' : Mcu} {regs : List Reg} {sp : UInt32} {out : Option UInt32}

theorem loadFaults_congr {last : UInt32 → Prop} (fetches : mcuFetch32 mcu' = mcuFetch32 mcu)
    (regs : List Reg) (sp : UInt32) :
    LoadFaults mcu' last regs sp ↔ LoadFaults mcu last regs sp := by
  induction regs generalizing sp with
  | nil => exact Iff.rfl
  | cons reg regs ih =>
      unfold LoadFaults
      rw [fetches]
      split
      · exact Iff.rfl
      · exact ih _

theorem loadsSame_congr (fetches : mcuFetch32 mcu' = mcuFetch32 mcu)
    (read : ∀ reg ∈ regs, mcuReadReg mcu' reg = mcuReadReg mcu reg) (sp : UInt32) :
    LoadsSame mcu' regs sp ↔ LoadsSame mcu regs sp := by
  induction regs generalizing sp with
  | nil => exact Iff.rfl
  | cons reg regs ih =>
      have rest := ih fun r mem => read r (List.mem_cons_of_mem _ mem)
      unfold LoadsSame
      rw [fetches, read reg List.mem_cons_self]
      split
      · exact Iff.rfl
      · exact and_congr_right fun _ => rest _

theorem mcuReadReg_low {reg : Reg} (mcu : Mcu) (low : reg < 8) :
    mcuReadReg mcu reg = mcu.regs reg :=
  mcuReadReg_of_plain mcu (low.trans (by decide))

/-- The registers after loading are kept exactly when the loaded values are not new. -/
theorem Loaded.kept_iff (loaded : Loaded mcu mcu' regs sp out) (low : ∀ reg ∈ regs, reg < 8) :
    mcu.Kept mcu' ↔ LoadsSame mcu regs sp := by
  rw [← loaded.same]
  have high : ∀ reg, 8 ≤ reg → mcu'.regs reg = mcu.regs reg :=
    fun reg le => loaded.other reg fun mem => absurd (low reg mem) (not_lt.mpr le)
  constructor
  · intro kept reg mem
    have lt := low reg mem
    have read := kept.1 reg (lt.trans (by decide))
    rwa [mcuReadReg_low _ lt, mcuReadReg_low _ lt] at read
  · intro same
    have all : mcu'.regs = mcu.regs := by
      funext reg
      by_cases mem : reg ∈ regs
      · exact same reg mem
      · exact loaded.other reg mem
    exact .of_regs all

theorem loaded_nil (mcu : Mcu) (sp : UInt32) : Loaded mcu mcu [] sp (some sp) where
  other _ _ := rfl
  same := ⟨fun _ => trivial, fun _ reg mem => absurd mem List.not_mem_nil⟩
  faults absent := nomatch absent
  behind sp' eq last := by
    cases eq
    exact Iff.rfl
  fetches _ _ := rfl

theorem loaded_none {reg : Reg} (fetched : mcuFetch32 mcu sp = none) (kept : mcu'.regs = mcu.regs) :
    Loaded mcu mcu' (reg :: regs) sp none where
  other r _ := congrFun kept r
  same := by
    unfold LoadsSame
    rw [fetched]
    exact ⟨fun _ => trivial, fun _ r _ => congrFun kept r⟩
  faults _ last := by
    unfold LoadFaults
    rw [fetched]
    trivial
  behind sp' absent := nomatch absent
  fetches sp' absent := nomatch absent

/-- A register was loaded before the others. -/
theorem loaded_cons {reg : Reg} {val : UInt32} (fetched : mcuFetch32 mcu sp = some val)
    (low : reg < 8) (notMem : reg ∉ regs) (lows : ∀ r ∈ regs, r < 8)
    (loaded : Loaded (mcuWriteReg mcu reg val) mcu' regs (sp + 4) out) :
    Loaded mcu mcu' (reg :: regs) sp out := by
  have written : mcuWriteReg mcu reg val = mcu.setReg reg val :=
    mcuWriteReg_of_plain mcu val (low.trans (by decide))
  rw [written] at loaded
  have notPc : reg ≠ regPc := (low.trans (show 8 < regPc by decide)).ne
  have fetches : mcuFetch32 (mcu.setReg reg val) = mcuFetch32 mcu := rfl
  have kept : ∀ r, r ≠ reg → (mcu.setReg reg val).regs r = mcu.regs r :=
    fun r ne => mcu.regs_setReg_of_ne val ne
  have first : mcu'.regs reg = val := by
    rw [loaded.other reg notMem]
    exact mcu.regs_setReg_self val notPc
  have neReg : ∀ r ∈ regs, r ≠ reg := fun r mem eq => notMem (eq ▸ mem)
  have rest : LoadsSame (mcu.setReg reg val) regs (sp + 4) ↔ LoadsSame mcu regs (sp + 4) := by
    refine loadsSame_congr fetches (fun r mem => ?_) _
    rw [mcuReadReg_low _ (lows r mem), mcuReadReg_low _ (lows r mem)]
    exact kept r (neReg r mem)
  refine ⟨fun r away => ?_, ?_, fun absent last => ?_, fun sp' eq last => ?_, fun sp' eq => ?_⟩
  · obtain ⟨ne, away⟩ := not_or.mp (List.mem_cons.not.mp away)
    rw [loaded.other r away]
    exact kept r ne
  · unfold LoadsSame
    rw [fetched, mcuReadReg_low _ low]
    dsimp only
    rw [List.forall_mem_cons, first, ← rest, ← loaded.same]
    refine and_congr_right fun _ => forall₂_congr fun r mem => ?_
    rw [kept r (neReg r mem)]
  · unfold LoadFaults
    rw [fetched]
    exact (loadFaults_congr fetches regs _).mp (loaded.faults absent last)
  · unfold LoadFaults
    rw [fetched]
    exact (loadFaults_congr fetches regs _).symm.trans (loaded.behind sp' eq last)
  · exact loaded.fetches sp' eq

/-- The loop of LDMIA and POP. -/
theorem run_loadRegs {fetchError : UInt32 → Instr Unit}
    (calm : ∀ addr mcu, ∃ mcu', (fetchError addr).run Op.handle mcu = .ok () mcu' ∧
      mcu'.regs = mcu.regs)
    (nodup : regs.Nodup) (low : ∀ reg ∈ regs, reg < 8) (mcu : Mcu) (sp : UInt32) :
    ∃ out mcu', (loadRegs fetchError regs sp).run Op.handle mcu = .ok out mcu' ∧
      Loaded mcu mcu' regs sp out := by
  induction regs generalizing mcu sp with
  | nil => exact ⟨some sp, mcu, rfl, loaded_nil mcu sp⟩
  | cons reg regs ih =>
      obtain ⟨notMem, nodup⟩ := List.nodup_cons.mp nodup
      have lowReg := low reg List.mem_cons_self
      cases fetched : mcuFetch32 mcu sp with
      | none =>
          obtain ⟨mcu', halted, kept⟩ := calm sp mcu
          refine ⟨none, mcu', ?_, loaded_none fetched kept⟩
          have ran : (loadRegs fetchError (reg :: regs) sp).run Op.handle mcu =
              (fetchError sp >>= fun _ => pure none).run Op.handle mcu :=
            Proc.run_call_ok _ (show Op.handle (.fetch32 sp) mcu = .ok none mcu by
              rw [← fetched]
              rfl)
          rw [ran, Proc.run_bind, halted]
          rfl
      | some val =>
          obtain ⟨out, mcu', ran, loaded⟩ := ih nodup
            (fun r mem => low r (List.mem_cons_of_mem _ mem)) (mcuWriteReg mcu reg val) (sp + 4)
          refine ⟨out, mcu', ?_, ?_⟩
          · rw [← ran]
            exact Proc.run_call_ok _ (show Op.handle (.fetch32 sp) mcu = .ok (some val) mcu by
              rw [← fetched]
              rfl)
          · exact loaded_cons fetched lowReg notMem
              (fun r mem => low r (List.mem_cons_of_mem _ mem)) loaded

theorem nodup_regList (instr : UInt16) : (regList instr).Nodup := List.nodup_range.filter _

theorem lt_of_mem_regList {instr : UInt16} {reg : Reg} (mem : reg ∈ regList instr) : reg < 8 :=
  List.mem_range.mp (List.mem_filter.mp mem).1

/-- When a program fails, it has kept the registers. -/
def FailsKept (p : Instr Bool) (mcu : Mcu) : Prop :=
  ∀ mcu', p.run Op.handle mcu = .ok false mcu' → mcu.Kept mcu'

theorem failsKept_of_false {p : Instr Bool} (ran : p.run Op.handle mcu = .ok false mcu') :
    FailsKept p mcu ↔ mcu.Kept mcu' := by
  refine ⟨fun kept => kept mcu' ran, fun kept mcu'' again => ?_⟩
  rw [ran] at again
  cases again
  exact kept

theorem failsKept_of_true {p : Instr Bool} (ran : p.run Op.handle mcu = .ok true mcu') :
    FailsKept p mcu := by
  intro mcu'' again
  rw [ran] at again
  cases again

theorem failsKept_of_error {p : Instr Bool} {stop : Stop}
    (ran : p.run Op.handle mcu = .error stop mcu') : FailsKept p mcu := by
  intro mcu'' again
  rw [ran] at again
  cases again

/-- LDMIA keeps the registers when it fails exactly when those loaded before are not new. -/
theorem failsKept_ldmia (instr : UInt16) (mcu : Mcu) :
    FailsKept (ldmia instr) mcu ↔
      (LoadFaults mcu (fun _ => False) (regList instr) (mcuReadReg mcu (reg instr 8 0x7)) →
        LoadsSame mcu (regList instr) (mcuReadReg mcu (reg instr 8 0x7))) := by
  have calm : ∀ addr mcu, ∃ mcu', (mcuFetchError addr).run Op.handle mcu = .ok () mcu' ∧
      mcu'.regs = mcu.regs := fun addr mcu => ⟨_, rfl, regs_mcuHalt mcu _⟩
  obtain ⟨out, mcu', ran, loaded⟩ := run_loadRegs calm (nodup_regList instr)
    (fun _ => lt_of_mem_regList) mcu (mcuReadReg mcu (reg instr 8 0x7))
  have whole : (ldmia instr).run Op.handle mcu =
      (loadRegs mcuFetchError (regList instr) (mcuReadReg mcu (reg instr 8 0x7)) >>= fun out =>
        match out with
        | none => pure false
        | some sp => writeReg (reg instr 8 0x7) sp >>= fun _ => pure true).run Op.handle mcu := rfl
  rw [Proc.run_bind, ran] at whole
  cases out with
  | none =>
      rw [failsKept_of_false whole, loaded.kept_iff fun _ => lt_of_mem_regList]
      exact (imp_iff_right (loaded.faults rfl _)).symm
  | some sp =>
      have never := loaded.behind sp rfl fun _ => False
      exact iff_of_true (failsKept_of_true whole) fun faults => (never.mp faults).elim

/-- The return address that POP takes from the stack cannot be fetched, or is one of ARM code. -/
def ReturnFaults (mcu : Mcu) (instr : UInt16) (sp : UInt32) : Prop :=
  instr &&& 0x100 ≠ 0 ∧ ∀ val, mcuFetch32 mcu sp = some val → val &&& 1 = 0

/-- POP keeps the registers when it fails exactly when those loaded before are not new. -/
theorem failsKept_pop (instr : UInt16) (mcu : Mcu) :
    FailsKept (pop instr) mcu ↔
      (LoadFaults mcu (ReturnFaults mcu instr) (regList instr) (mcuReadReg mcu regSp) →
        LoadsSame mcu (regList instr) (mcuReadReg mcu regSp)) := by
  have calm : ∀ (addr : UInt32) mcu, ∃ mcu', (pure () : Instr Unit).run Op.handle mcu = .ok () mcu' ∧
      mcu'.regs = mcu.regs := fun addr mcu => ⟨mcu, rfl, rfl⟩
  obtain ⟨out, mcu', ran, loaded⟩ := run_loadRegs calm (nodup_regList instr)
    (fun _ => lt_of_mem_regList) mcu (mcuReadReg mcu regSp)
  have whole : (pop instr).run Op.handle mcu =
      (loadRegs (fun _ => pure ()) (regList instr) (mcuReadReg mcu regSp) >>= fun out =>
        match out with
        | none => pure false
        | some sp =>
            if instr &&& 0x100 ≠ 0 then
              fetch32 sp >>= fun fetched =>
                match fetched with
                | none => pure false
                | some val =>
                    if val &&& 1 = 0 then pure false
                    else writeReg regPc (val + 2) >>= fun _ => writeReg regSp (sp + 4) >>= fun _ =>
                      pure true
            else writeReg regSp sp >>= fun _ => pure true).run Op.handle mcu := rfl
  rw [Proc.run_bind, ran] at whole
  cases out with
  | none =>
      rw [failsKept_of_false whole, loaded.kept_iff fun _ => lt_of_mem_regList]
      exact (imp_iff_right (loaded.faults rfl _)).symm
  | some sp =>
      rw [loaded.behind sp rfl]
      dsimp only at whole
      by_cases withPc : instr &&& 0x100 ≠ 0
      · rw [if_pos withPc] at whole
        have fetches := congrFun (loaded.fetches sp rfl) sp
        rw [run_fetch32, fetches] at whole
        cases fetched : mcuFetch32 mcu sp with
        | none =>
            rw [fetched] at whole
            have faults : ReturnFaults mcu instr sp := by
              refine ⟨withPc, fun val again => ?_⟩
              rw [fetched] at again
              cases again
            rw [failsKept_of_false whole, loaded.kept_iff fun _ => lt_of_mem_regList]
            exact (imp_iff_right faults).symm
        | some val =>
            rw [fetched] at whole
            dsimp only at whole
            by_cases arm : val &&& 1 = 0
            · rw [if_pos arm] at whole
              have faults : ReturnFaults mcu instr sp := by
                refine ⟨withPc, fun val' again => ?_⟩
                rw [fetched] at again
                cases again
                exact arm
              rw [failsKept_of_false whole, loaded.kept_iff fun _ => lt_of_mem_regList]
              exact (imp_iff_right faults).symm
            · rw [if_neg arm] at whole
              exact iff_of_true (failsKept_of_true whole) fun faults =>
                absurd (faults.2 val fetched) arm
      · rw [if_neg withPc] at whole
        exact iff_of_true (failsKept_of_true whole) fun faults => absurd faults.1 withPc

end Loads

/-! ## Storing registers -/

/-- A word at an address can be written. -/
def Mcu.accepts (mcu : Mcu) (addr : UInt32) : Bool :=
  match mcu.memDevAt addr with
  | some (.unittest, offset) => offset == 0x4 || offset == 0x8 || offset == 0x12 || offset == 0x16
  | some (.uart, _) => true
  | some (.ram, _) => true
  | some (.flash, _) => mcu.unlocked
  | none => false

/-- A status that finishes a unit test. -/
def Finishing (val : UInt32) : Prop :=
  val = statusSkipped ∨ val = statusPassed ∨ val = statusFailed

/-- There is a unit test after the current one. -/
def Mcu.TestLeft (mcu : Mcu) : Prop := mcu.unittest.currentTest + 1 < mcu.unittest.totalTests

/-- The word is the number of tests, or the status that finishes a test before the last one: the
device for unit tests resets the MCU. -/
def Mcu.Resets (mcu : Mcu) (addr val : UInt32) : Prop :=
  addr = 0xEE000004 ∨ (addr = 0xEE000012 ∧ Finishing val ∧ mcu.TestLeft)

/-- The word is the status that finishes the last test: the simulator ends. -/
def Mcu.Exits (mcu : Mcu) (addr val : UInt32) : Prop :=
  addr = 0xEE000012 ∧ Finishing val ∧ ¬ mcu.TestLeft

/-- Storing registers from `sp` on fails. -/
def StoreFaults (mcu : Mcu) : List Reg → UInt32 → Prop
  | [], _ => False
  | _ :: regs, sp => mcu.accepts sp = false ∨ StoreFaults mcu regs (sp + 4)

section Stores

variable {mcu mcu' : Mcu} {regs : List Reg} {sp addr val offset : UInt32}

/-- What a write of a word does: it fails, ends the simulator, resets the MCU, or leaves the
registers. -/
inductive Mcu.Writes (mcu : Mcu) (addr val : UInt32) : Result Bool → Prop
  | fails : mcu.accepts addr = false → mcu.Writes addr val (.ok false mcu)
  | exits {stop : Stop} {mcu' : Mcu} : mcu.accepts addr = true → mcu.Exits addr val →
      mcu.Writes addr val (.error stop mcu')
  | resets (dev : Unittest) : mcu.accepts addr = true → mcu.Resets addr val →
      mcu.Writes addr val (.ok true (mcuReset { mcu with unittest := dev }).2)
  | keeps {mcu' : Mcu} : mcu.accepts addr = true → ¬ mcu.Exits addr val → ¬ mcu.Resets addr val →
      mcu'.regs = mcu.regs → mcu'.accepts = mcu.accepts → mcu.Writes addr val (.ok true mcu')

/-- Only the device for unit tests ends the simulator or resets the MCU. -/
theorem calm_of_ne {dev : Device} (at_ : mcu.memDevAt addr = some (dev, offset))
    (ne : dev ≠ .unittest) (val : UInt32) : ¬ mcu.Exits addr val ∧ ¬ mcu.Resets addr val := by
  have total : mcu.memDevAt 0xEE000004 = some (.unittest, 0x4) := rfl
  have status : mcu.memDevAt 0xEE000012 = some (.unittest, 0x12) := rfl
  have first : addr ≠ 0xEE000004 := by
    intro eq
    rw [eq, total] at at_
    cases at_
    exact ne rfl
  have second : addr ≠ 0xEE000012 := by
    intro eq
    rw [eq, status] at at_
    cases at_
    exact ne rfl
  exact ⟨fun exits => second exits.1, fun resets => resets.elim first fun finished => second finished.1⟩

/-- The writes to the device for unit tests. -/
theorem writes_unittest (at_ : mcu.memDevAt addr = some (.unittest, offset)) (val : UInt32) :
    mcu.Writes addr val (unittestDevWrite32 mcu offset val) := by
  have accepts : mcu.accepts addr =
      (offset == 0x4 || offset == 0x8 || offset == 0x12 || offset == 0x16) := by
    unfold Mcu.accepts
    rw [at_]
  have total := offset_eq_iff at_ 0x4
  have status := offset_eq_iff at_ 0x12
  -- another offset is not one of the two that matter
  have calm : offset ≠ 0x4 → offset ≠ 0x12 → ¬ mcu.Exits addr val ∧ ¬ mcu.Resets addr val := by
    intro notTotal notStatus
    exact ⟨fun exits => notStatus (status.mpr exits.1),
      fun resets => resets.elim (fun eq => notTotal (total.mpr eq))
        fun finished => notStatus (status.mpr finished.1)⟩
  unfold unittestDevWrite32
  dsimp only
  split
  · rename_i eq
    refine .fails ?_
    rw [accepts, eq]
    rfl
  · split
    · rename_i eq
      refine .resets _ ?_ (.inl (total.mp eq))
      rw [accepts, eq]
      rfl
    · rename_i notTotal
      split
      · rename_i eq
        obtain ⟨stays, keeps⟩ := calm notTotal (by rw [eq]; decide)
        refine .keeps ?_ stays keeps rfl rfl
        rw [accepts, eq]
        rfl
      · split
        · rename_i eq
          have accepted : mcu.accepts addr = true := by
            rw [accepts, eq]
            rfl
          have notFirst : addr ≠ 0xEE000004 := fun first => notTotal (total.mpr first)
          split
          · rename_i finishing
            unfold unittestFinished
            dsimp only
            split
            · rename_i left
              exact .resets _ accepted (.inr ⟨status.mp eq, finishing, left⟩)
            · rename_i last
              exact .exits accepted ⟨status.mp eq, finishing, last⟩
          · rename_i other
            exact .keeps accepted (fun exits => other exits.2.1)
              (fun resets => resets.elim notFirst fun finished => other finished.2.1) rfl rfl
        · rename_i notStatus
          split
          · rename_i eq
            obtain ⟨stays, keeps⟩ := calm notTotal notStatus
            refine .keeps ?_ stays keeps rfl rfl
            rw [accepts, eq]
            rfl
          · rename_i notDesc notStatusDesc
            refine .fails ?_
            rw [accepts]
            simp [notTotal, notStatus, notDesc, notStatusDesc]

theorem mcuWrite32_writes (mcu : Mcu) (addr val : UInt32) :
    mcu.Writes addr val (mcuWrite32 mcu addr val) := by
  unfold mcuWrite32
  split
  · rename_i dev offset at_
    cases dev with
    | unittest => exact writes_unittest at_ val
    | uart =>
        obtain ⟨stays, keeps⟩ := calm_of_ne at_ (by decide) val
        refine .keeps ?_ stays keeps ?_ ?_
        · unfold Mcu.accepts
          rw [at_]
        · unfold uartDevWrite32
          split
          · rfl
          · rfl
        · unfold uartDevWrite32
          split
          · rfl
          · rfl
    | ram =>
        obtain ⟨stays, keeps⟩ := calm_of_ne at_ (by decide) val
        refine .keeps ?_ stays keeps rfl rfl
        unfold Mcu.accepts
        rw [at_]
    | flash =>
        have accepts : mcu.accepts addr = mcu.unlocked := by
          unfold Mcu.accepts
          rw [at_]
        unfold Device.write32
        dsimp only
        split
        · rename_i unlocked
          obtain ⟨stays, keeps⟩ := calm_of_ne at_ (by decide) val
          exact .keeps (accepts.trans unlocked) stays keeps rfl rfl
        · rename_i locked
          exact .fails (accepts.trans (Bool.eq_false_iff.mpr locked))
  · rename_i nowhere
    refine .fails ?_
    unfold Mcu.accepts
    rw [nowhere]

/-! ### The reset -/

theorem accepts_writeReg (mcu : Mcu) (reg : Reg) (val : UInt32) :
    (mcuWriteReg mcu reg val).accepts = mcu.accepts := by
  obtain ⟨r, v, _, written⟩ := exists_setReg mcu reg val
  rw [written]
  rfl

theorem fetch32_writeReg (mcu : Mcu) (reg : Reg) (val : UInt32) :
    mcuFetch32 (mcuWriteReg mcu reg val) = mcuFetch32 mcu := by
  obtain ⟨r, v, _, written⟩ := exists_setReg mcu reg val
  rw [written]
  rfl

theorem mcuReadReg_of_ne {reg : Reg} (mcu : Mcu) (lt : reg < regPc) (ne : reg ≠ regSp) :
    mcuReadReg mcu reg = mcu.regs reg := by
  have away : ∀ other, regPc ≤ other → reg ≠ other := fun other le => (lt.trans_le le).ne
  unfold mcuReadReg
  rw [if_neg ne, if_neg (away regApsr (by decide)), if_neg (away regIpsr (by decide)),
    if_neg (away regEpsr (by decide))]

/-- The registers are kept exactly when the stack pointer is, if no other one has changed. -/
theorem kept_iff_sp (same : ∀ reg < regPc, mcu'.regs reg = mcu.regs reg)
    (apsr : mcuReadReg mcu' regApsr = mcuReadReg mcu regApsr) :
    mcu.Kept mcu' ↔ mcu'.regs mcu.stackPointer = mcuReadReg mcu regSp := by
  have sp : mcu'.stackPointer = mcu.stackPointer := by
    unfold Mcu.stackPointer
    rw [same regSp (by decide)]
  constructor
  · intro kept
    have read := kept.1 regSp (by decide)
    rwa [mcuReadReg_regSp mcu', sp] at read
  · intro eq
    refine ⟨fun reg lt => ?_, apsr⟩
    by_cases isSp : reg = regSp
    · rw [isSp, mcuReadReg_regSp mcu', sp]
      exact eq
    · rw [mcuReadReg_of_ne _ lt isSp, mcuReadReg_of_ne _ lt isSp]
      exact same reg lt

theorem stackPointer_ge (mcu : Mcu) : regPc < mcu.stackPointer ∧ regXpsr ≠ mcu.stackPointer := by
  rcases stackPointer_cases mcu with main | process
  · rw [main]
    decide
  · rw [process]
    decide

/-- EPSR has no bit of APSR. -/
theorem apsr_setEpsr (mcu : Mcu) (val : UInt32) :
    mcuReadReg (mcuWriteReg mcu regEpsr val) regApsr = mcuReadReg mcu regApsr := by
  have written : mcuWriteReg mcu regEpsr val = mcu.setXpsr 0x1000000 val := rfl
  have read : ∀ m : Mcu, mcuReadReg m regApsr = m.regs regXpsr &&& 0xF0000000 := fun m => rfl
  have stored : (mcu.setXpsr 0x1000000 val).regs regXpsr =
      (mcu.regs regXpsr &&& ~~~ 0x1000000) ||| (val &&& 0x1000000) :=
    mcu.regs_setReg_self _ (by decide)
  have keeps : (~~~ 0x1000000 : UInt32).toNat &&& (0xF0000000 : UInt32).toNat =
      (0xF0000000 : UInt32).toNat := by decide
  have misses : (0x1000000 : UInt32).toNat &&& (0xF0000000 : UInt32).toNat = 0 := by decide
  rw [written, read, read, stored]
  apply UInt32.toNat_inj.mp
  simp only [UInt32.toNat_and, UInt32.toNat_or]
  rw [Nat.and_or_distrib_right, Nat.and_assoc, Nat.and_assoc, keeps, misses, Nat.and_zero,
    Nat.or_zero]

/-- The stack pointer was set to `first`; of the other registers only the PC and EPSR may have
changed. -/
structure SpSet (mcu : Mcu) (first : UInt32) (mcu' : Mcu) : Prop where
  regs : ∀ reg < regPc, mcu'.regs reg = mcu.regs reg
  sp : mcu'.regs mcu.stackPointer = first
  apsr : mcuReadReg mcu' regApsr = mcuReadReg mcu regApsr
  accepts : mcu'.accepts = mcu.accepts

theorem spSet_writeSp (mcu : Mcu) (first : UInt32) :
    SpSet mcu first (mcuWriteReg mcu regSp first) := by
  obtain ⟨spGt, spNe⟩ := stackPointer_ge mcu
  rw [mcuWriteReg_regSp]
  refine ⟨fun reg lt => mcu.regs_setReg_of_ne first (lt.trans spGt).ne,
    mcu.regs_setReg_self first spGt.ne', ?_, rfl⟩
  show (mcu.setReg mcu.stackPointer first).regs regXpsr &&& 0xF0000000 = _
  rw [mcu.regs_setReg_of_ne first spNe]
  rfl

theorem SpSet.writePc {first : UInt32} (set : SpSet mcu first mcu') (val : UInt32) :
    SpSet mcu first (mcuWriteReg mcu' regPc val) := by
  obtain ⟨spGt, _⟩ := stackPointer_ge mcu
  have kept : ∀ reg, reg ≠ regPc → (mcuWriteReg mcu' regPc val).regs reg = mcu'.regs reg :=
    fun reg ne => mcu'.regs_setReg_of_ne val ne
  refine ⟨fun reg lt => ?_, ?_, ?_, ?_⟩
  · rw [kept reg lt.ne]
    exact set.regs reg lt
  · rw [kept _ spGt.ne']
    exact set.sp
  · rw [mcuReadReg_writePc _ _ (by decide)]
    exact set.apsr
  · rw [accepts_writeReg]
    exact set.accepts

theorem SpSet.thread {first : UInt32} (set : SpSet mcu first mcu') :
    SpSet mcu first { mcu' with processorMode := .thread } :=
  ⟨set.regs, set.sp, set.apsr, set.accepts⟩

theorem SpSet.writeEpsr {first : UInt32} (set : SpSet mcu first mcu') (val : UInt32) :
    SpSet mcu first (mcuWriteReg mcu' regEpsr val) := by
  obtain ⟨_, spNe⟩ := stackPointer_ge mcu
  have kept : ∀ reg, reg ≠ regXpsr → (mcuWriteReg mcu' regEpsr val).regs reg = mcu'.regs reg :=
    fun reg ne => mcu'.regs_setReg_of_ne _ ne
  refine ⟨fun reg lt => ?_, ?_, ?_, ?_⟩
  · rw [kept reg (lt.trans (show regPc < regXpsr by decide)).ne]
    exact set.regs reg lt
  · rw [kept _ spNe.symm]
    exact set.sp
  · rw [apsr_setEpsr]
    exact set.apsr
  · rw [accepts_writeReg]
    exact set.accepts

/-- The reset sets the stack pointer to the first word of the flash. -/
theorem spSet_reset {first : UInt32} (fetched : mcuFetch32 mcu 0x0 = some first) :
    SpSet mcu first (mcuReset mcu).2 := by
  have set := spSet_writeSp mcu first
  unfold mcuReset
  rw [fetched]
  dsimp only
  split
  · exact set
  · split
    · exact set
    · exact (set.writePc _).thread.writeEpsr _

/-- The registers are kept exactly when the stack pointer was set to what it was. -/
theorem SpSet.kept_iff {first : UInt32} (set : SpSet mcu first mcu') :
    mcu.Kept mcu' ↔ first = mcuReadReg mcu regSp := by
  rw [kept_iff_sp set.regs set.apsr, set.sp]

/-! ### The loop -/

/-- The address is not one at which a word may end the simulator or reset the MCU. -/
def Away (addr : UInt32) : Prop := addr ≠ 0xEE000004 ∧ addr ≠ 0xEE000012

/-- The words before these addresses cannot be written, so the loop only starts there. -/
theorem away_of_accepts (accepted : mcu.accepts addr = true) : Away (addr + 4) := by
  have current : mcu.accepts 0xEE000000 = false := rfl
  have before : mcu.accepts 0xEE00000E = false := rfl
  constructor
  · intro eq
    have addr_eq : addr = 0xEE000000 := by grind
    rw [addr_eq, current] at accepted
    cases accepted
  · intro eq
    have addr_eq : addr = 0xEE00000E := by grind
    rw [addr_eq, before] at accepted
    cases accepted

theorem storeFaults_cons (mcu : Mcu) (reg : Reg) (regs : List Reg) (sp : UInt32) :
    StoreFaults mcu (reg :: regs) sp ↔ mcu.accepts sp = false ∨ StoreFaults mcu regs (sp + 4) :=
  Iff.rfl

theorem storeFaults_congr (accepts : mcu'.accepts = mcu.accepts) (regs : List Reg) (sp : UInt32) :
    StoreFaults mcu' regs sp ↔ StoreFaults mcu regs sp := by
  induction regs generalizing sp with
  | nil => exact Iff.rfl
  | cons reg regs ih =>
      unfold StoreFaults
      rw [accepts]
      exact or_congr_right (ih _)

variable {writeError : Reg → UInt32 → Instr Unit}

theorem run_storeRegs_cons (reg : Reg) (regs : List Reg) (sp : UInt32) (mcu : Mcu) :
    (storeRegs writeError (reg :: regs) sp).run Op.handle mcu =
      match mcuWrite32 mcu sp (mcuReadReg mcu reg) with
      | .ok true mcu' => (storeRegs writeError regs (sp + 4)).run Op.handle mcu'
      | .ok false mcu' => (writeError reg sp >>= fun _ => pure none).run Op.handle mcu'
      | .error stop mcu' => .error stop mcu' := by
  have first : (storeRegs writeError (reg :: regs) sp).run Op.handle mcu =
      (write32 sp (mcuReadReg mcu reg) >>= fun written =>
        if written then storeRegs writeError regs (sp + 4)
        else writeError reg sp >>= fun _ => pure none).run Op.handle mcu := rfl
  rw [first, Proc.run_bind]
  cases written : mcuWrite32 mcu sp (mcuReadReg mcu reg) with
  | ok succeeded mcu' =>
      have called : (write32 sp (mcuReadReg mcu reg)).run Op.handle mcu = .ok succeeded mcu' :=
        Proc.run_call_ok _ (show Op.handle (.write32 _ _) mcu = _ from written)
      rw [called]
      cases succeeded with
      | true => rfl
      | false => rfl
  | error stop mcu' =>
      have called : (write32 sp (mcuReadReg mcu reg)).run Op.handle mcu = .error stop mcu' :=
        Proc.run_call_error _ (show Op.handle (.write32 _ _) mcu = _ from written)
      rw [called]

/-- What happens when a write fails leaves the registers. -/
def Calm (writeError : Reg → UInt32 → Instr Unit) : Prop :=
  ∀ reg addr mcu, ∃ mcu', (writeError reg addr).run Op.handle mcu = .ok () mcu' ∧
    mcu'.regs = mcu.regs

theorem Calm.run_none (calm : Calm writeError) (reg : Reg) (sp : UInt32) (mcu : Mcu) :
    ∃ mcu', (writeError reg sp >>= fun _ => (pure none : Instr (Option UInt32))).run Op.handle mcu =
      .ok none mcu' ∧ mcu'.regs = mcu.regs := by
  obtain ⟨mcu', ran, regs⟩ := calm reg sp mcu
  refine ⟨mcu', ?_, regs⟩
  rw [Proc.run_bind, ran]
  rfl

/-- Away from the two addresses, the loop leaves the registers. -/
theorem run_storeRegs_away (calm : Calm writeError) (regs : List Reg) (mcu : Mcu) (sp : UInt32)
    (away : Away sp) :
    ∃ out mcu', (storeRegs writeError regs sp).run Op.handle mcu = .ok out mcu' ∧
      mcu'.regs = mcu.regs ∧ (out = none ↔ StoreFaults mcu regs sp) := by
  induction regs generalizing mcu sp with
  | nil => exact ⟨some sp, mcu, rfl, rfl, iff_of_false (Option.some_ne_none sp) id⟩
  | cons reg regs ih =>
      rw [run_storeRegs_cons]
      have writes := mcuWrite32_writes mcu sp (mcuReadReg mcu reg)
      cases written : mcuWrite32 mcu sp (mcuReadReg mcu reg) with
      | error stop mcu₁ =>
          rw [written] at writes
          cases writes with
          | exits _ exits => exact absurd exits.1 away.2
      | ok succeeded mcu₁ =>
          rw [written] at writes
          cases writes with
          | fails refused =>
              obtain ⟨mcu', ran, same⟩ := calm.run_none reg sp mcu
              exact ⟨none, mcu', ran, same, iff_of_true rfl (.inl refused)⟩
          | resets dev _ resets =>
              exact absurd resets (not_or.mpr ⟨away.1, fun finished => away.2 finished.1⟩)
          | keeps accepted _ _ same accepts =>
              obtain ⟨out, mcu', ran, same', faults⟩ := ih mcu₁ (sp + 4) (away_of_accepts accepted)
              refine ⟨out, mcu', ran, same'.trans same, faults.trans ?_⟩
              rw [storeFaults_congr accepts, storeFaults_cons, accepted]
              exact (or_iff_right (by decide)).symm

/-- What the loop does when there is a register to store: only its first write may end the simulator
or reset the MCU. -/
inductive Stores (mcu : Mcu) (reg : Reg) (regs : List Reg) (sp : UInt32) :
    Result (Option UInt32) → Prop
  | refused {mcu' : Mcu} : mcu.accepts sp = false → mcu'.regs = mcu.regs →
      Stores mcu reg regs sp (.ok none mcu')
  | exits {stop : Stop} {mcu' : Mcu} : mcu.Exits sp (mcuReadReg mcu reg) →
      Stores mcu reg regs sp (.error stop mcu')
  | resets {out : Option UInt32} {first : UInt32} {mcu₁ mcu' : Mcu} :
      mcu.accepts sp = true → mcu.Resets sp (mcuReadReg mcu reg) →
      mcuFetch32 mcu 0x0 = some first → SpSet mcu first mcu₁ → mcu'.regs = mcu₁.regs →
      (out = none ↔ StoreFaults mcu regs (sp + 4)) → Stores mcu reg regs sp (.ok out mcu')
  | keeps {out : Option UInt32} {mcu' : Mcu} :
      mcu.accepts sp = true → ¬ mcu.Exits sp (mcuReadReg mcu reg) →
      ¬ mcu.Resets sp (mcuReadReg mcu reg) → mcu'.regs = mcu.regs →
      (out = none ↔ StoreFaults mcu regs (sp + 4)) → Stores mcu reg regs sp (.ok out mcu')

theorem fetch32_flash (mcu : Mcu) : ∃ first, mcuFetch32 mcu 0x0 = some first := ⟨_, rfl⟩

theorem run_storeRegs (calm : Calm writeError) (mcu : Mcu) (reg : Reg) (regs : List Reg)
    (sp : UInt32) :
    Stores mcu reg regs sp ((storeRegs writeError (reg :: regs) sp).run Op.handle mcu) := by
  rw [run_storeRegs_cons]
  have writes := mcuWrite32_writes mcu sp (mcuReadReg mcu reg)
  cases written : mcuWrite32 mcu sp (mcuReadReg mcu reg) with
  | error stop mcu₁ =>
      rw [written] at writes
      cases writes with
      | exits _ exits => exact .exits exits
  | ok succeeded mcu₁ =>
      rw [written] at writes
      cases writes with
      | fails refused =>
          obtain ⟨mcu', ran, same⟩ := calm.run_none reg sp mcu
          show Stores mcu reg regs sp ((writeError reg sp >>= fun _ => pure none).run Op.handle mcu)
          rw [ran]
          exact .refused refused same
      | resets dev accepted resets =>
          obtain ⟨first, fetched⟩ := fetch32_flash mcu
          have set : SpSet { mcu with unittest := dev } first _ := spSet_reset fetched
          have set : SpSet mcu first (mcuReset { mcu with unittest := dev }).2 :=
            ⟨set.regs, set.sp, set.apsr, set.accepts⟩
          obtain ⟨out, mcu', ran, same, faults⟩ := run_storeRegs_away calm regs _ _
            (away_of_accepts accepted)
          show Stores mcu reg regs sp ((storeRegs writeError regs (sp + 4)).run Op.handle _)
          rw [ran]
          refine .resets accepted resets fetched set same (faults.trans ?_)
          exact storeFaults_congr set.accepts regs _
      | keeps accepted stays keeps same accepts =>
          obtain ⟨out, mcu', ran, same', faults⟩ := run_storeRegs_away calm regs _ _
            (away_of_accepts accepted)
          show Stores mcu reg regs sp ((storeRegs writeError regs (sp + 4)).run Op.handle _)
          rw [ran]
          exact .keeps accepted stays keeps (same'.trans same)
            (faults.trans (storeFaults_congr accepts regs _))

theorem kept_congr {mcu₁ : Mcu} (same : mcu'.regs = mcu₁.regs) : mcu.Kept mcu' ↔ mcu.Kept mcu₁ := by
  unfold Mcu.Kept
  simp only [mcuReadReg_congr same]

/-- All registers have been stored. -/
theorem Stores.done {reg : Reg} {sp' : UInt32}
    (stores : Stores mcu reg regs sp (.ok (some sp') mcu')) :
    mcu.accepts sp = true ∧ ¬ StoreFaults mcu regs (sp + 4) := by
  cases stores with
  | resets accepted _ _ _ _ faults => exact ⟨accepted, fun faulted => nomatch faults.mpr faulted⟩
  | keeps accepted _ _ _ faults => exact ⟨accepted, fun faulted => nomatch faults.mpr faulted⟩

/-! ### The instructions -/

theorem accepts_of_resets (resets : mcu.Resets addr val) : mcu.accepts addr = true := by
  rcases resets with rfl | ⟨rfl, _, _⟩
  · rfl
  · rfl

theorem accepts_of_exits (exits : mcu.Exits addr val) : mcu.accepts addr = true := by
  obtain ⟨rfl, _, _⟩ := exits
  rfl

theorem not_resets_of_exits (exits : mcu.Exits addr val) : ¬ mcu.Resets addr val := by
  obtain ⟨rfl, _, last⟩ := exits
  rintro (eq | ⟨_, _, left⟩)
  · exact absurd eq (by decide)
  · exact last left

/-- If STMIA resets the MCU before it fails, the stack pointer is the one that the reset sets. -/
def StoresHarmless (mcu : Mcu) : List Reg → UInt32 → Prop
  | [], _ => True
  | reg :: regs, sp => mcu.Resets sp (mcuReadReg mcu reg) → StoreFaults mcu regs (sp + 4) →
      mcuFetch32 mcu 0x0 = some (mcuReadReg mcu regSp)

theorem storesHarmless_cons (mcu : Mcu) (reg : Reg) (regs : List Reg) (sp : UInt32) :
    StoresHarmless mcu (reg :: regs) sp ↔
      (mcu.Resets sp (mcuReadReg mcu reg) → StoreFaults mcu regs (sp + 4) →
        mcuFetch32 mcu 0x0 = some (mcuReadReg mcu regSp)) := Iff.rfl

/-- STMIA keeps the registers when it fails exactly when it has not reset the MCU before, or the
reset has not changed the stack pointer. -/
theorem failsKept_stmia (instr : UInt16) (mcu : Mcu) :
    FailsKept (stmia instr) mcu ↔
      StoresHarmless mcu (regList instr) (mcuReadReg mcu (reg instr 8 0x7)) := by
  have calm : Calm fun _ => mcuWriteError := fun reg addr mcu => ⟨_, rfl, regs_mcuHalt mcu _⟩
  have whole : (stmia instr).run Op.handle mcu =
      (storeRegs (fun _ => mcuWriteError) (regList instr) (mcuReadReg mcu (reg instr 8 0x7)) >>=
        fun out =>
          match out with
          | none => pure false
          | some sp => writeReg (reg instr 8 0x7) sp >>= fun _ => pure true).run Op.handle mcu := rfl
  rw [Proc.run_bind] at whole
  cases list : regList instr with
  | nil =>
      rw [list] at whole
      exact iff_of_true (failsKept_of_true whole) trivial
  | cons first rest =>
      have stores := run_storeRegs calm mcu first rest (mcuReadReg mcu (reg instr 8 0x7))
      rw [list] at whole
      rw [storesHarmless_cons]
      cases ran : (storeRegs (fun _ => mcuWriteError) (first :: rest)
          (mcuReadReg mcu (reg instr 8 0x7))).run Op.handle mcu with
      | error stop mcu' =>
          rw [ran] at stores whole
          cases stores with
          | exits exits =>
              exact iff_of_true (failsKept_of_error whole) fun resets =>
                absurd resets (not_resets_of_exits exits)
      | ok out mcu' =>
          rw [ran] at stores whole
          cases out with
          | none =>
              rw [failsKept_of_false whole]
              cases stores with
              | refused refused same =>
                  refine iff_of_true (.of_regs same) fun resets => ?_
                  rw [accepts_of_resets resets] at refused
                  cases refused
              | resets _ resets fetched set same faults =>
                  rw [kept_congr same, set.kept_iff, imp_iff_right resets,
                    imp_iff_right (faults.mp rfl), fetched, Option.some_inj]
              | keeps _ _ keeps same _ =>
                  exact iff_of_true (.of_regs same) fun resets => absurd resets keeps
          | some sp =>
              exact iff_of_true (failsKept_of_true whole) fun _ faulted =>
                absurd faulted stores.done.2

/-- PUSH does not fail, or ends the simulator, or resets the MCU before it fails and the stack
pointer is the one that the reset sets. -/
def PushHarmless (mcu : Mcu) : List Reg → UInt32 → Prop
  | [], _ => True
  | reg :: regs, sp => StoreFaults mcu (reg :: regs) sp →
      mcu.Exits sp (mcuReadReg mcu reg) ∨
        (mcu.Resets sp (mcuReadReg mcu reg) ∧ mcuFetch32 mcu 0x0 = some (mcuReadReg mcu regSp))

theorem pushHarmless_cons (mcu : Mcu) (reg : Reg) (regs : List Reg) (sp : UInt32) :
    PushHarmless mcu (reg :: regs) sp ↔
      (StoreFaults mcu (reg :: regs) sp → mcu.Exits sp (mcuReadReg mcu reg) ∨
        (mcu.Resets sp (mcuReadReg mcu reg) ∧
          mcuFetch32 mcu 0x0 = some (mcuReadReg mcu regSp))) := Iff.rfl

theorem SpSet.trans {first second : UInt32} {mcu'' : Mcu} (set : SpSet mcu first mcu')
    (again : SpSet mcu' second mcu'') : SpSet mcu second mcu'' := by
  have sp : mcu'.stackPointer = mcu.stackPointer := by
    unfold Mcu.stackPointer
    rw [set.regs regSp (by decide)]
  refine ⟨fun reg lt => (again.regs reg lt).trans (set.regs reg lt), ?_, again.apsr.trans set.apsr,
    again.accepts.trans set.accepts⟩
  rw [← sp]
  exact again.sp

/-- The stack pointer after PUSH has moved it. -/
def pushSp (mcu : Mcu) (instr : UInt16) : UInt32 :=
  mcuReadReg mcu regSp - (UInt32.ofNat (pushList instr).length <<< 2)

theorem length_regList (instr : UInt16) : (regList instr).length ≤ 8 := by
  have le := List.length_filter_le
    (fun reg => decide (instr &&& ((1 : UInt16) <<< UInt16.ofNat reg) ≠ 0)) (List.range 8)
  rwa [List.length_range] at le

theorem length_pushList (instr : UInt16) : (pushList instr).length ≤ 9 := by
  have low := length_regList instr
  unfold pushList
  rw [List.length_append]
  split
  · exact Nat.add_le_add low (Nat.le_refl 1)
  · exact low.trans (by decide)

/-- PUSH moves the stack pointer if it stores a register. -/
theorem pushSp_ne {instr : UInt16} {reg : Reg} {regs : List Reg} (mcu : Mcu)
    (list : pushList instr = reg :: regs) : pushSp mcu instr ≠ mcuReadReg mcu regSp := by
  have le := length_pushList instr
  have pos : 0 < (pushList instr).length := by
    rw [list]
    exact Nat.succ_pos _
  intro eq
  unfold pushSp at eq
  have zero : UInt32.ofNat (pushList instr).length <<< 2 = 0 := by grind
  have size := congrArg UInt32.toNat zero
  have two : (2 : UInt32).toNat % 32 = 2 := rfl
  have none : (0 : UInt32).toNat = 0 := rfl
  rw [UInt32.toNat_shiftLeft, UInt32.toNat_ofNat', two, Nat.shiftLeft_eq, none] at size
  omega

/-- The registers that PUSH stores. -/
theorem of_mem_pushList {instr : UInt16} {reg : Reg} (mem : reg ∈ pushList instr) :
    reg < regPc ∧ reg ≠ regSp := by
  unfold pushList at mem
  rcases List.mem_append.mp mem with low | link
  · have lt := lt_of_mem_regList low
    exact ⟨lt.trans (by decide), (lt.trans (show 8 < regSp by decide)).ne⟩
  · split at link
    · rw [List.mem_singleton] at link
      rw [link]
      decide
    · cases link

/-- The link register is left out of the error of a write. -/
theorem calm_push : Calm fun reg sp => if reg = regLr then pure () else mcuWriteError sp := by
  intro reg addr mcu
  dsimp only
  split
  · exact ⟨mcu, rfl, rfl⟩
  · exact ⟨_, rfl, regs_mcuHalt mcu _⟩

theorem exits_congr (tests : mcu'.unittest = mcu.unittest) :
    mcu'.Exits addr val ↔ mcu.Exits addr val := by
  unfold Mcu.Exits Mcu.TestLeft
  rw [tests]

theorem resets_congr (tests : mcu'.unittest = mcu.unittest) :
    mcu'.Resets addr val ↔ mcu.Resets addr val := by
  unfold Mcu.Resets Mcu.TestLeft
  rw [tests]

/-- The other registers are read as before. -/
theorem SpSet.read {sp : UInt32} {reg : Reg} (set : SpSet mcu sp mcu') (lt : reg < regPc)
    (ne : reg ≠ regSp) : mcuReadReg mcu' reg = mcuReadReg mcu reg := by
  rw [mcuReadReg_of_ne _ lt ne, mcuReadReg_of_ne _ lt ne]
  exact set.regs reg lt

/-- PUSH keeps the registers when it fails only if a reset has set the stack pointer back. -/
theorem failsKept_push (instr : UInt16) (mcu : Mcu) :
    FailsKept (push instr) mcu ↔ PushHarmless mcu (pushList instr) (pushSp mcu instr) := by
  have whole : (push instr).run Op.handle mcu =
      (storeRegs (fun reg sp => if reg = regLr then pure () else mcuWriteError sp) (pushList instr)
          (pushSp mcu instr) >>= fun out =>
        match out with
        | none => pure false
        | some _ => pure true).run Op.handle (mcuWriteReg mcu regSp (pushSp mcu instr)) := rfl
  have moved := spSet_writeSp mcu (pushSp mcu instr)
  have fetches := fetch32_writeReg mcu regSp (pushSp mcu instr)
  have tests : (mcuWriteReg mcu regSp (pushSp mcu instr)).unittest = mcu.unittest := by
    rw [mcuWriteReg_regSp]
    rfl
  rw [Proc.run_bind] at whole
  generalize mcuWriteReg mcu regSp (pushSp mcu instr) = mcu₀ at *
  cases list : pushList instr with
  | nil =>
      rw [list] at whole
      exact iff_of_true (failsKept_of_true whole) trivial
  | cons first rest =>
      have never := pushSp_ne mcu list
      obtain ⟨lt, ne⟩ := of_mem_pushList (list ▸ List.mem_cons_self : first ∈ pushList instr)
      have stores := run_storeRegs calm_push mcu₀ first rest (pushSp mcu instr)
      rw [list] at whole
      rw [pushHarmless_cons, storeFaults_cons]
      have exitsIff : mcu₀.Exits (pushSp mcu instr) (mcuReadReg mcu₀ first) ↔
          mcu.Exits (pushSp mcu instr) (mcuReadReg mcu first) := by
        rw [moved.read lt ne]
        exact exits_congr tests
      have resetsIff : mcu₀.Resets (pushSp mcu instr) (mcuReadReg mcu₀ first) ↔
          mcu.Resets (pushSp mcu instr) (mcuReadReg mcu first) := by
        rw [moved.read lt ne]
        exact resets_congr tests
      have faultsIff := storeFaults_congr moved.accepts rest (pushSp mcu instr + 4)
      have acceptsEq := congrFun moved.accepts (pushSp mcu instr)
      -- without a reset, the stack pointer stays moved
      have changed : ∀ mcu' : Mcu, mcu'.regs = mcu₀.regs → ¬ mcu.Kept mcu' := by
        intro mcu' same kept
        exact never (moved.kept_iff.mp ((kept_congr same).mp kept))
      cases ran : (storeRegs (fun reg sp => if reg = regLr then pure () else mcuWriteError sp)
          (first :: rest) (pushSp mcu instr)).run Op.handle mcu₀ with
      | error stop mcu' =>
          rw [ran] at stores whole
          cases stores with
          | exits exits =>
              exact iff_of_true (failsKept_of_error whole) fun _ => .inl (exitsIff.mp exits)
      | ok out mcu' =>
          rw [ran] at stores whole
          cases out with
          | none =>
              rw [failsKept_of_false whole]
              cases stores with
              | refused refused same =>
                  refine iff_of_false (changed mcu' same) fun harmless => ?_
                  rw [acceptsEq] at refused
                  rcases harmless (.inl refused) with exits | ⟨resets, _⟩
                  · rw [accepts_of_exits exits] at refused
                    cases refused
                  · rw [accepts_of_resets resets] at refused
                    cases refused
              | resets _ resets fetched set same faults =>
                  have resets := resetsIff.mp resets
                  have notExits : ¬ mcu.Exits (pushSp mcu instr) (mcuReadReg mcu first) :=
                    fun exits => not_resets_of_exits exits resets
                  rw [fetches] at fetched
                  rw [kept_congr same, (moved.trans set).kept_iff,
                    imp_iff_right (.inr (faultsIff.mp (faults.mp rfl))), or_iff_right notExits,
                    and_iff_right resets, fetched, Option.some_inj]
              | keeps _ stays keeps same faults =>
                  refine iff_of_false (changed mcu' same) fun harmless => ?_
                  rcases harmless (.inr (faultsIff.mp (faults.mp rfl))) with exits | ⟨resets, _⟩
                  · exact stays (exitsIff.mpr exits)
                  · exact keeps (resetsIff.mpr resets)
          | some sp =>
              refine iff_of_true (failsKept_of_true whole) fun faulted => ?_
              obtain ⟨accepted, notFaulted⟩ := stores.done
              rcases faulted with refused | faulted
              · rw [← acceptsEq, accepted] at refused
                cases refused
              · exact absurd (faultsIff.mpr faulted) notFaulted

end Stores

end TheFirmware.Simulator
