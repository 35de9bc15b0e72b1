import TheFirmware.Core.Scheduler

/-!
# `arch_handle_pendsv` of `arch/arm-m/arch.c`

The handler of `PendSV` as the instructions the source has, in two halves with the call of
`schedule` between them. The first half saves r4 to r11 below the frame the processor has pushed on
the process stack, and the second half restores them from the stack `schedule` returns.

On exception entry the processor pushes r0 to r3, r12, lr, pc and xPSR at PSP, and on exception
return it pops them. A call of a C function keeps r4 to r11 and leaves anything in the other
registers. The handler itself runs on the main stack.
-/

namespace TheFirmware

/-- The registers: r0 to r12, lr (14) and pc (15) in `reg`, the two stack pointers, and xPSR. -/
structure Cpu : Type where
  reg : Nat → Word
  psp : Word
  msp : Word
  xpsr : Word

/-- The processor and the kernel, whose memory holds the stacks. -/
structure Machine (τ : Type) : Type where
  cpu : Cpu
  kernel : Kernel τ

/-- The instructions of the handler. -/
inductive Instr : Type
  /-- `PUSH {lr}` -/
  | pushLr
  /-- `POP {pc}` -/
  | popPc
  /-- `MRS rd, PSP` -/
  | mrsPsp (rd : Nat)
  /-- `MSR PSP, rn` -/
  | msrPsp (rn : Nat)
  /-- `SUBS rd, #imm` -/
  | subs (rd : Nat) (imm : Word)
  /-- `ADDS rd, #imm` -/
  | adds (rd : Nat) (imm : Word)
  /-- `MOV rd, rm` -/
  | mov (rd rm : Nat)
  /-- `STMIA rn!, {regs}` -/
  | stmia (rn : Nat) (regs : List Nat)
  /-- `LDMIA rn!, {regs}` -/
  | ldmia (rn : Nat) (regs : List Nat)
  /-- `CPSIE i` -/
  | cpsie

/-- Set a register. -/
def Cpu.set (c : Cpu) (rd : Nat) (v : Word) : Cpu := { c with reg := Function.update c.reg rd v }

/-- Set registers to consecutive words. -/
def Cpu.setAll (c : Cpu) : List Nat → List Word → Cpu
  | rd :: regs, v :: vs => (c.set rd v).setAll regs vs
  | _, _ => c

/-- r4 to r11. -/
def Cpu.callee (c : Cpu) : List Word :=
  [c.reg 4, c.reg 5, c.reg 6, c.reg 7, c.reg 8, c.reg 9, c.reg 10, c.reg 11]

/-- What the processor pushes on exception entry. -/
def Cpu.frame (c : Cpu) : List Word :=
  [c.reg 0, c.reg 1, c.reg 2, c.reg 3, c.reg 12, c.reg 14, c.reg 15, c.xpsr]

/-- `EXC_RETURN` for a return to a thread on the process stack. -/
def excReturn : Word := 0xFFFFFFFD

variable {τ : Type}

/-- What an instruction does. -/
def Instr.exec (m : Machine τ) : Instr → Machine τ
  | .pushLr =>
      { cpu := { m.cpu with msp := m.cpu.msp - 4 }
        kernel := m.kernel.setMem (m.kernel.mem.store32 (m.cpu.msp - 4).toNat (m.cpu.reg 14)) }
  | .popPc =>
      { m with cpu := { m.cpu.set 15 (m.kernel.mem.load32 m.cpu.msp.toNat) with
        msp := m.cpu.msp + 4 } }
  | .mrsPsp rd => { m with cpu := m.cpu.set rd m.cpu.psp }
  | .msrPsp rn => { m with cpu := { m.cpu with psp := m.cpu.reg rn } }
  | .subs rd imm => { m with cpu := m.cpu.set rd (m.cpu.reg rd - imm) }
  | .adds rd imm => { m with cpu := m.cpu.set rd (m.cpu.reg rd + imm) }
  | .mov rd rm => { m with cpu := m.cpu.set rd (m.cpu.reg rm) }
  | .stmia rn regs =>
      { cpu := m.cpu.set rn (m.cpu.reg rn + BitVec.ofNat 32 (4 * regs.length))
        kernel := m.kernel.setMem
          (m.kernel.mem.storeWords (m.cpu.reg rn).toNat (regs.map m.cpu.reg)) }
  | .ldmia rn regs =>
      { m with cpu := (m.cpu.setAll regs (m.kernel.mem.loadWords (m.cpu.reg rn).toNat
          regs.length)).set rn (m.cpu.reg rn + BitVec.ofNat 32 (4 * regs.length)) }
  | .cpsie => { m with kernel := schedulerUnlock m.kernel }

/-- The instructions up to the call of `schedule`. -/
def pendsvSave : List Instr :=
  [.pushLr,
    .mrsPsp 3,
    .subs 3 32,
    .mov 0 3,
    .stmia 3 [4, 5, 6, 7],
    .mov 4 8, .mov 5 9, .mov 6 10, .mov 7 11,
    .stmia 3 [4, 5, 6, 7]]

/-- The instructions behind the call of `schedule`. -/
def pendsvRestore : List Instr :=
  [.adds 0 16,
    .ldmia 0 [4, 5, 6, 7],
    .mov 8 4, .mov 9 5, .mov 10 6, .mov 11 7,
    .subs 0 32,
    .ldmia 0 [4, 5, 6, 7],
    .adds 0 16,
    .msrPsp 0,
    .cpsie,
    .popPc]

/-- The registers behind a call that returns `r`. -/
def Cpu.afterCall (c : Cpu) (r : Word) (scratch : Nat → Word) : Cpu :=
  { c with reg := fun i => if i = 0 then r else if 4 ≤ i ∧ i ≤ 11 then c.reg i else scratch i }

/-- `arch_handle_pendsv()`, where `pick` is the critical section of `schedule` and `scratch` what it
leaves in the registers it need not keep. -/
def archHandlePendsv [DecidableEq τ] (pick : Kernel τ → Kernel τ) (scratch : Nat → Word)
    (m : Machine τ) : Except Fault (Machine τ) := do
  let m := pendsvSave.foldl Instr.exec m
  let (stack, kernel) ← scheduleWith pick (m.cpu.reg 0) m.kernel
  return pendsvRestore.foldl Instr.exec ⟨m.cpu.afterCall stack scratch, kernel⟩

/-- Exception entry. -/
def exceptionEntry (m : Machine τ) : Machine τ :=
  { cpu := { m.cpu.set 14 excReturn with psp := m.cpu.psp - 32 }
    kernel := m.kernel.setMem (m.kernel.mem.storeWords (m.cpu.psp - 32).toNat m.cpu.frame) }

/-- Exception return. -/
def exceptionReturn (m : Machine τ) : Machine τ :=
  let frame := m.kernel.mem.loadWords m.cpu.psp.toNat 8
  { m with cpu := { m.cpu.setAll [0, 1, 2, 3, 12, 14, 15] frame with
      psp := m.cpu.psp + 32, xpsr := frame.getD 7 0 } }

/-! ## The two halves -/

section Specs

variable {m : Machine τ}

/-- The memory when the first half is done. -/
def pendsvSavedMem (m : Machine τ) : Mem :=
  ((m.kernel.mem.store32 (m.cpu.msp - 4).toNat (m.cpu.reg 14)).storeWords
    (m.cpu.psp - 32).toNat [m.cpu.reg 4, m.cpu.reg 5, m.cpu.reg 6, m.cpu.reg 7]).storeWords
    (m.cpu.psp - 32 + 16).toNat [m.cpu.reg 8, m.cpu.reg 9, m.cpu.reg 10, m.cpu.reg 11]

/-- The first half saves r4 to r11 below PSP, and passes the address to `schedule`. -/
theorem pendsvSave_spec (m : Machine τ) :
    (pendsvSave.foldl Instr.exec m).cpu.reg 0 = m.cpu.psp - 32 ∧
      (pendsvSave.foldl Instr.exec m).kernel = m.kernel.setMem (pendsvSavedMem m) := by
  constructor
  · rfl
  · rfl

/-- The second half restores r4 to r11 from the stack in r0, and sets PSP above them. -/
theorem pendsvRestore_spec (m : Machine τ) :
    (pendsvRestore.foldl Instr.exec m).cpu.callee =
        m.kernel.mem.loadWords (m.cpu.reg 0).toNat 4 ++
          m.kernel.mem.loadWords (m.cpu.reg 0 + 16).toNat 4 ∧
      (pendsvRestore.foldl Instr.exec m).cpu.psp = m.cpu.reg 0 + 32 ∧
      (pendsvRestore.foldl Instr.exec m).kernel = schedulerUnlock m.kernel := by
  -- r0 goes up to r8 to r11, behind them, and back
  have back : m.cpu.reg 0 + 16 + 16 - 32 = m.cpu.reg 0 := by bv_omega
  have above : m.cpu.reg 0 + 16 + 16 = m.cpu.reg 0 + 32 := by bv_omega
  have callee : (pendsvRestore.foldl Instr.exec m).cpu.callee =
      m.kernel.mem.loadWords (m.cpu.reg 0 + 16 + 16 - 32).toNat 4 ++
        m.kernel.mem.loadWords (m.cpu.reg 0 + 16).toNat 4 := rfl
  have psp : (pendsvRestore.foldl Instr.exec m).cpu.psp =
      m.cpu.reg 0 + 16 + 16 - 32 + 16 + 16 := rfl
  rw [back] at callee psp
  rw [above] at psp
  exact ⟨callee, psp, rfl⟩

/-- The first half writes the word below MSP and the 32 bytes below PSP. -/
theorem pendsvSavedMem_agree {a n : Nat} (main : 4 ≤ m.cpu.msp.toNat)
    (process : 32 ≤ m.cpu.psp.toNat)
    (missMain : a + n ≤ m.cpu.msp.toNat - 4 ∨ m.cpu.msp.toNat ≤ a)
    (missProcess : a + n ≤ m.cpu.psp.toNat - 32 ∨ m.cpu.psp.toNat ≤ a) :
    Mem.Agree m.kernel.mem (pendsvSavedMem m) a n := by
  have pushed : (m.cpu.msp - 4).toNat = m.cpu.msp.toNat - 4 := by bv_omega
  have first : (m.cpu.psp - 32).toNat = m.cpu.psp.toNat - 32 := by bv_omega
  have second : (m.cpu.psp - 32 + 16).toNat = m.cpu.psp.toNat - 16 := by bv_omega
  unfold pendsvSavedMem
  rw [pushed, first, second]
  refine (Mem.agree_store32 (by omega)).trans ((Mem.agree_storeWords ?_).trans
    (Mem.agree_storeWords ?_))
  · simp only [List.length_cons, List.length_nil]
    omega
  · simp only [List.length_cons, List.length_nil]
    omega

/-- The first half leaves r4 to r11 in the 32 bytes below PSP. -/
theorem pendsvSavedMem_callee (process : 32 ≤ m.cpu.psp.toNat) :
    (pendsvSavedMem m).loadWords (m.cpu.psp - 32).toNat 8 = m.cpu.callee := by
  have first : (m.cpu.psp - 32).toNat = m.cpu.psp.toNat - 32 := by bv_omega
  have second : (m.cpu.psp - 32 + 16).toNat = m.cpu.psp.toNat - 32 + 4 * 4 := by bv_omega
  rw [Mem.loadWords_add _ _ 4 4]
  have high : (pendsvSavedMem m).loadWords ((m.cpu.psp - 32).toNat + 4 * 4) 4 =
      [m.cpu.reg 8, m.cpu.reg 9, m.cpu.reg 10, m.cpu.reg 11] := by
    rw [first, ← second]
    exact Mem.loadWords_storeWords _ _ [m.cpu.reg 8, m.cpu.reg 9, m.cpu.reg 10, m.cpu.reg 11]
  have low : (pendsvSavedMem m).loadWords (m.cpu.psp - 32).toNat 4 =
      [m.cpu.reg 4, m.cpu.reg 5, m.cpu.reg 6, m.cpu.reg 7] := by
    unfold pendsvSavedMem
    rw [Mem.Agree.loadWords (Mem.agree_storeWords (by rw [first, second]; omega))]
    exact Mem.loadWords_storeWords _ _ [m.cpu.reg 4, m.cpu.reg 5, m.cpu.reg 6, m.cpu.reg 7]
  rw [low, high]
  rfl

variable [DecidableEq τ]

/-- The kernel `schedule` hands to its critical section, when `t` is the current thread. -/
def pendsvSaved (m : Machine τ) (t : τ) : Kernel τ :=
  schedulerLock ((schedulerEnterIsr (m.kernel.setMem (pendsvSavedMem m))).modify t
    fun r => { r with stack := m.cpu.psp - 32 })

/-- What the handler has done when it returns: the registers of the current thread are saved, and
those of the selected thread are loaded from the stack it was saved to. -/
theorem archHandlePendsv_inv {pick : Kernel τ → Kernel τ} {scratch : Nat → Word} {m' : Machine τ}
    (run : archHandlePendsv pick scratch m = .ok m') :
    ∃ t u, m.kernel.currentThread = some t ∧ m'.kernel.currentThread = some u ∧
      m'.kernel.mem = (pick (pendsvSaved m t)).mem ∧
      m'.kernel.thread = (pick (pendsvSaved m t)).thread ∧
      m'.cpu.callee = m'.kernel.mem.loadWords (m'.kernel.thread u).stack.toNat 4 ++
        m'.kernel.mem.loadWords ((m'.kernel.thread u).stack + 16).toNat 4 ∧
      m'.cpu.psp = (m'.kernel.thread u).stack + 32 := by
  simp only [archHandlePendsv] at run
  rw [Except.bind_eq_ok] at run
  obtain ⟨⟨r, k⟩, scheduled, run⟩ := run
  cases run
  obtain ⟨stack, saved⟩ := pendsvSave_spec m
  rw [saved, stack] at scheduled
  obtain ⟨t, u, current, next, rfl, same⟩ := scheduleWith_inv scheduled
  obtain ⟨callee, psp, kernel⟩ := pendsvRestore_spec
    ⟨(pendsvSave.foldl Instr.exec m).cpu.afterCall (k.thread u).stack scratch, k⟩
  rw [kernel]
  refine ⟨t, u, current, next, ?_, ?_, callee, psp⟩
  · rw [same]
    rfl
  · rw [same]
    rfl

end Specs

end TheFirmware
