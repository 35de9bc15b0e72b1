import TheFirmware.Arch.PendSv
import TheFirmware.Core.SchedulerRun

/-!
# Context switches

Runs of several threads that are switched by `PendSV`. Each thread has its own part of the memory
for its stack (`Stacks`). Between two switches the current thread, and whatever it calls, may do
anything that leaves alone the saved registers of the threads that are not running;
`thread_set_function` prepares a thread that has not run yet; and on a switch `schedule` may select
any thread.

`Context` is what a thread has in its registers when it is switched out. A thread that is resumed
has it again (`reachable_transparent`).
-/

namespace TheFirmware.ContextSwitch

variable {τ : Type}

/-- Where the stacks of the threads are: no two of them overlap. -/
structure Stacks (τ : Type) : Type where
  low : τ → Nat
  high : τ → Nat
  bounds : ∀ t, low t ≤ high t ∧ high t ≤ 2 ^ 32
  disjoint : ∀ t u, t ≠ u → high t ≤ low u ∨ high u ≤ low t

/-- The registers of a thread when `arch_handle_pendsv` is entered: r4 to r11, PSP, and what the
processor has pushed at PSP. -/
structure Context : Type where
  callee : List Word
  psp : Word
  frame : List Word
  deriving DecidableEq, Repr

/-- The machine. The other two fields only record what happens: the registers of the threads that
have been switched out, and the function and the argument of those that are prepared. -/
structure State (τ : Type) : Type where
  machine : Machine τ
  suspended : τ → Option Context
  prepared : τ → Option (Word × Word)

/-- One step: code of the current thread, `thread_set_function(thread, func, 1, arg)`, or a switch,
where `pick` is the critical section of `schedule`. -/
inductive Event (τ : Type) : Type
  | code (machine : Machine τ)
  | setFunction (thread : τ) (func arg : Word)
  | pendSv (pick : Kernel τ → Kernel τ) (scratch : Nat → Word)

/-- The stack pointer of a thread that is not running. -/
def State.stack (s : State τ) (t : τ) : Nat := (s.machine.kernel.thread t).stack.toNat

/-- The thread will be resumed from a frame on its stack. -/
def Resumable (s : State τ) (t : τ) : Prop := s.suspended t ≠ none ∨ s.prepared t ≠ none

/-- The stack pointer and the frame of a thread are the same in `m`. -/
def Undisturbed (s : State τ) (m : Machine τ) (t : τ) : Prop :=
  (m.kernel.thread t).stack = (s.machine.kernel.thread t).stack ∧
    Mem.Agree s.machine.kernel.mem m.kernel.mem (s.stack t) 64

/-- The critical section of `schedule` selects any thread. It changes neither the stacks nor the
saved stack pointers. -/
structure Picks (st : Stacks τ) (pick : Kernel τ → Kernel τ) : Prop where
  stack : ∀ k t, ((pick k).thread t).stack = (k.thread t).stack
  mem : ∀ k t, Mem.Agree k.mem (pick k).mem (st.low t) (st.high t - st.low t)

/-- The steps that can be taken. Stacks do not overflow: there is room for the frame of the
processor and for that of the handler. The main stack is apart from the stacks of the threads. -/
def Legal (st : Stacks τ) (s : State τ) : Event τ → Prop
  | .code m => m.kernel.currentThread = s.machine.kernel.currentThread ∧
      ∀ t, Resumable s t → Undisturbed s m t
  | .setFunction t _ _ => s.machine.kernel.currentThread ≠ some t ∧ ¬ Resumable s t ∧
      st.low t + 60 ≤ s.stack t ∧ s.stack t + 4 ≤ st.high t
  | .pendSv pick _ => Picks st pick ∧ 4 ≤ s.machine.cpu.msp.toNat ∧
      (∀ t, s.machine.cpu.msp.toNat ≤ st.low t ∨ st.high t ≤ s.machine.cpu.msp.toNat - 4) ∧
      ∀ t, s.machine.kernel.currentThread = some t →
        st.low t + 64 ≤ s.machine.cpu.psp.toNat ∧ s.machine.cpu.psp.toNat ≤ st.high t

/-- The registers of the current thread when the handler is entered. -/
def State.context (s : State τ) : Context :=
  ⟨(exceptionEntry s.machine).cpu.callee, (exceptionEntry s.machine).cpu.psp, s.machine.cpu.frame⟩

variable [DecidableEq τ]

/-- The state after a step. -/
def exec (s : State τ) : Event τ → Except Fault (State τ)
  | .code machine => .ok { s with machine }
  | .setFunction thread func arg => .ok { s with
      machine.kernel := threadSetFunctionV thread func [arg] s.machine.kernel
      prepared := Function.update s.prepared thread (some (func, arg)) }
  | .pendSv pick scratch => do
      let current ← deref s.machine.kernel.currentThread
      let machine ← archHandlePendsv pick scratch (exceptionEntry s.machine)
      let next ← deref machine.kernel.currentThread
      let suspended := Function.update s.suspended current (some s.context)
      return {
        machine := exceptionReturn machine
        suspended := Function.update suspended next none
        prepared := Function.update s.prepared next none }

/-- The states of the runs from a state in which no thread was switched out or prepared. -/
inductive Reachable (st : Stacks τ) : State τ → Prop
  | init {s : State τ} (suspended : ∀ t, s.suspended t = none)
      (prepared : ∀ t, s.prepared t = none) : Reachable st s
  | step {s s' : State τ} {event : Event τ} (before : Reachable st s) (legal : Legal st s event)
      (run : exec s event = .ok s') : Reachable st s'

/-! ## The invariant -/

/-- The frame of a thread is on its stack. -/
def Inside (st : Stacks τ) (t : τ) (stack : Nat) : Prop :=
  st.low t ≤ stack ∧ stack + 64 ≤ st.high t

/-- The registers of a thread that has been switched out are in the 64 bytes at its stack
pointer. -/
structure Saved (mem : Mem) (stack : Word) (context : Context) : Prop where
  psp : context.psp = stack + 32
  callee : mem.loadWords stack.toNat 8 = context.callee
  frame : mem.loadWords (stack.toNat + 32) 8 = context.frame

/-- The registers a prepared thread starts with are in the 64 bytes at its stack pointer. -/
structure Prepared (mem : Mem) (stack func arg : Word) : Prop where
  arg : mem.load32 (stack.toNat + 32) = arg
  func : mem.load32 (stack.toNat + 56) = func
  xpsr : mem.load32 (stack.toNat + 60) = 0x01000000

/-- The registers of a thread at its last switch-out; for the current thread, this is the switch
under way. -/
def State.last (s : State τ) (t : τ) : Option Context :=
  if s.machine.kernel.currentThread = some t then some s.context else s.suspended t

/-- When the handler returns, r4 to r11 and PSP are as the context says, and so are the registers
the processor pops. -/
structure Resumes (m : Machine τ) (context : Context) : Prop where
  callee : m.cpu.callee = context.callee
  psp : m.cpu.psp = context.psp
  frame : (exceptionReturn m).cpu.frame = context.frame

/-- When the handler returns, the frame at PSP starts the function with the argument. -/
structure Starts (m : Machine τ) (func arg : Word) : Prop where
  arg : m.kernel.mem.load32 m.cpu.psp.toNat = arg
  func : m.kernel.mem.load32 (m.cpu.psp.toNat + 24) = func
  xpsr : m.kernel.mem.load32 (m.cpu.psp.toNat + 28) = 0x01000000

/-- Every thread that will be resumed has its frame. -/
structure Sound (st : Stacks τ) (s : State τ) : Prop where
  inside : ∀ t, Resumable s t → Inside st t (s.stack t)
  saved : ∀ t context, s.suspended t = some context →
    Saved s.machine.kernel.mem (s.machine.kernel.thread t).stack context
  prepared : ∀ t func arg, s.prepared t = some (func, arg) →
    Prepared s.machine.kernel.mem (s.machine.kernel.thread t).stack func arg
  current : ∀ t, s.machine.kernel.currentThread = some t → ¬ Resumable s t

section Specs

variable {st : Stacks τ} {s s' : State τ} {t u : τ} {mem mem' : Mem} {stack : Word}
  {context : Context} {func arg : Word}

omit [DecidableEq τ] in
theorem Saved.congr (saved : Saved mem stack context) (agree : mem.Agree mem' stack.toNat 64) :
    Saved mem' stack context where
  psp := saved.psp
  callee := by
    rw [(agree.mono (by omega) (by omega)).loadWords]
    exact saved.callee
  frame := by
    rw [(agree.mono (by omega) (by omega)).loadWords]
    exact saved.frame

omit [DecidableEq τ] in
theorem Prepared.congr (prepared : Prepared mem stack func arg)
    (agree : mem.Agree mem' stack.toNat 64) : Prepared mem' stack func arg where
  arg := by
    rw [(agree.mono (by omega) (by omega)).load32]
    exact prepared.arg
  func := by
    rw [(agree.mono (by omega) (by omega)).load32]
    exact prepared.func
  xpsr := by
    rw [(agree.mono (by omega) (by omega)).load32]
    exact prepared.xpsr

omit [DecidableEq τ] in
theorem resumable_of_suspended (found : s.suspended t = some context) : Resumable s t := by
  left
  rw [found]
  simp

omit [DecidableEq τ] in
theorem resumable_of_prepared (found : s.prepared t = some (func, arg)) : Resumable s t := by
  right
  rw [found]
  simp

/-! What the invariant says of a thread holds in every machine in which it is undisturbed. -/

omit [DecidableEq τ] in
theorem Undisturbed.inside {m : Machine τ} (kept : Undisturbed s m t) (sound : Sound st s)
    (resumable : Resumable s t) : Inside st t (m.kernel.thread t).stack.toNat := by
  rw [kept.1]
  exact sound.inside t resumable

omit [DecidableEq τ] in
theorem Undisturbed.saved {m : Machine τ} (kept : Undisturbed s m t) (sound : Sound st s)
    (found : s.suspended t = some context) :
    Saved m.kernel.mem (m.kernel.thread t).stack context := by
  rw [kept.1]
  exact (sound.saved t context found).congr kept.2

omit [DecidableEq τ] in
theorem Undisturbed.prepared {m : Machine τ} (kept : Undisturbed s m t) (sound : Sound st s)
    (found : s.prepared t = some (func, arg)) :
    Prepared m.kernel.mem (m.kernel.thread t).stack func arg := by
  rw [kept.1]
  exact (sound.prepared t func arg found).congr kept.2

omit [DecidableEq τ] in
/-- Code of the current thread leaves the frames of the others alone. -/
theorem Sound.code {machine : Machine τ} (sound : Sound st s)
    (legal : Legal st s (.code machine)) : Sound st { s with machine } := by
  obtain ⟨current, keeps⟩ := legal
  constructor
  · intro t resumable
    exact (keeps t resumable).inside sound resumable
  · intro t context found
    exact (keeps t (resumable_of_suspended found)).saved sound found
  · intro t func arg found
    exact (keeps t (resumable_of_prepared found)).prepared sound found
  · intro t isCurrent
    exact sound.current t (current.symm.trans isCurrent)

/-- `thread_set_function` writes the frame of a new thread. -/
theorem prepared_setFunction {k : Kernel τ} (low : 60 ≤ (k.thread t).stack.toNat)
    (func arg : Word) :
    Prepared (threadSetFunctionV t func [arg] k).mem
        ((threadSetFunctionV t func [arg] k).thread t).stack func arg ∧
      ((threadSetFunctionV t func [arg] k).thread t).stack.toNat =
        (k.thread t).stack.toNat - 60 := by
  obtain ⟨mem, thread, -⟩ := threadSetFunctionV_eq t k func arg
  generalize (k.thread t).stack = T at low mem thread
  have second : (T - 4).toNat = T.toNat - 4 := by bv_omega
  have third : (T - 4 - 4).toNat = T.toNat - 8 := by bv_omega
  have fourth : (T - 4 - 4 - 20).toNat = T.toNat - 28 := by bv_omega
  have bottom : (T - 4 - 4 - 20 - 32).toNat = T.toNat - 60 := by bv_omega
  rw [second, third, fourth] at mem
  rw [mem, thread, Function.update_self]
  refine ⟨⟨?_, ?_, ?_⟩, bottom⟩
  · have address : T.toNat - 60 + 32 = T.toNat - 28 := by omega
    show Mem.load32 _ ((T - 4 - 4 - 20 - 32).toNat + 32) = arg
    rw [bottom, address, Mem.load32_store32]
  · have address : T.toNat - 60 + 56 = T.toNat - 4 := by omega
    show Mem.load32 _ ((T - 4 - 4 - 20 - 32).toNat + 56) = func
    rw [bottom, address, Mem.load32_store32_of_disjoint (by omega),
      Mem.load32_store32_of_disjoint (by omega), Mem.load32_store32]
  · have address : T.toNat - 60 + 60 = T.toNat := by omega
    show Mem.load32 _ ((T - 4 - 4 - 20 - 32).toNat + 60) = 0x01000000
    rw [bottom, address, Mem.load32_store32_of_disjoint (by omega),
      Mem.load32_store32_of_disjoint (by omega), Mem.load32_store32_of_disjoint (by omega),
      Mem.load32_store32]

/-- `thread_set_function` writes no more than the frame. -/
theorem agree_setFunction {k : Kernel τ} (func arg : Word) {a n : Nat}
    (low : 60 ≤ (k.thread t).stack.toNat)
    (miss : a + n ≤ (k.thread t).stack.toNat - 60 ∨ (k.thread t).stack.toNat + 4 ≤ a) :
    Mem.Agree k.mem (threadSetFunctionV t func [arg] k).mem a n := by
  obtain ⟨mem, -, -⟩ := threadSetFunctionV_eq t k func arg
  generalize (k.thread t).stack = T at low miss mem
  have second : (T - 4).toNat = T.toNat - 4 := by bv_omega
  have third : (T - 4 - 4).toNat = T.toNat - 8 := by bv_omega
  have fourth : (T - 4 - 4 - 20).toNat = T.toNat - 28 := by bv_omega
  rw [mem, second, third, fourth]
  refine .trans ?_ (Mem.agree_store32 (by omega))
  refine .trans ?_ (Mem.agree_store32 (by omega))
  refine .trans ?_ (Mem.agree_store32 (by omega))
  exact Mem.agree_store32 (by omega)

theorem Sound.setFunction (sound : Sound st s) (legal : Legal st s (.setFunction t func arg))
    (run : exec s (.setFunction t func arg) = .ok s') : Sound st s' := by
  obtain ⟨notCurrent, fresh, low, high⟩ := legal
  have low' : 60 ≤ (s.machine.kernel.thread t).stack.toNat := by
    rw [State.stack] at low
    omega
  obtain ⟨written, stack⟩ := prepared_setFunction low' func arg
  obtain ⟨-, thread, current⟩ := threadSetFunctionV_eq t s.machine.kernel func arg
  rw [State.stack] at low high
  cases run
  have others : ∀ u, Resumable s u → Undisturbed s { s.machine with
      kernel := threadSetFunctionV t func [arg] s.machine.kernel } u := by
    intro u resumable
    have ne : u ≠ t := by
      rintro rfl
      exact fresh resumable
    have inside := sound.inside u resumable
    have apart := st.disjoint u t ne
    constructor
    · show ((threadSetFunctionV t func [arg] s.machine.kernel).thread u).stack = _
      rw [thread, Function.update_of_ne ne]
    · apply agree_setFunction func arg low'
      unfold Inside at inside
      omega
  have resumable : ∀ u, u ≠ t → Resumable { s with
      machine.kernel := threadSetFunctionV t func [arg] s.machine.kernel
      prepared := Function.update s.prepared t (some (func, arg)) } u → Resumable s u := by
    intro u ne resumable
    unfold Resumable at resumable
    simp only [Function.update_of_ne ne] at resumable
    exact resumable
  constructor
  · intro u again
    by_cases same : u = t
    · subst same
      show Inside st u ((threadSetFunctionV u func [arg] s.machine.kernel).thread u).stack.toNat
      rw [stack]
      exact ⟨by omega, by omega⟩
    · have before := resumable u same again
      exact (others u before).inside sound before
  · intro u context found
    exact (others u (resumable_of_suspended found)).saved sound found
  · intro u func' arg' found
    by_cases same : u = t
    · subst same
      simp only [Function.update_self, Option.some.injEq, Prod.mk.injEq] at found
      obtain ⟨rfl, rfl⟩ := found
      exact written
    · simp only [Function.update_of_ne same] at found
      exact (others u (resumable_of_prepared found)).prepared sound found
  · intro u isCurrent again
    have isCurrent : s.machine.kernel.currentThread = some u := current.symm.trans isCurrent
    have ne : u ≠ t := by
      rintro rfl
      exact notCurrent isCurrent
    exact sound.current u isCurrent (resumable u ne again)

/-! ## Switching -/

omit [DecidableEq τ] in
theorem exceptionReturn_frame (m : Machine τ) :
    (exceptionReturn m).cpu.frame = m.kernel.mem.loadWords m.cpu.psp.toNat 8 := rfl

omit [DecidableEq τ] in
/-- Exception entry and the first half of the handler leave the registers of the current thread on
its stack, and write nothing else but the word below MSP. -/
theorem saved_context (main : 4 ≤ s.machine.cpu.msp.toNat)
    (room : 64 ≤ s.machine.cpu.psp.toNat)
    (apart : s.machine.cpu.msp.toNat ≤ s.machine.cpu.psp.toNat - 64 ∨
      s.machine.cpu.psp.toNat ≤ s.machine.cpu.msp.toNat - 4) :
    Saved (pendsvSavedMem (exceptionEntry s.machine)) (s.machine.cpu.psp - 32 - 32) s.context := by
  have entered : (exceptionEntry s.machine).cpu.psp = s.machine.cpu.psp - 32 := rfl
  have first : (s.machine.cpu.psp - 32).toNat = s.machine.cpu.psp.toNat - 32 := by bv_omega
  have second : (s.machine.cpu.psp - 32 - 32).toNat = s.machine.cpu.psp.toNat - 64 := by bv_omega
  refine ⟨?_, ?_, ?_⟩
  · show s.machine.cpu.psp - 32 = s.machine.cpu.psp - 32 - 32 + 32
    bv_omega
  · rw [← entered]
    exact pendsvSavedMem_callee (by rw [entered, first]; omega)
  · have address : s.machine.cpu.psp.toNat - 64 + 32 = s.machine.cpu.psp.toNat - 32 := by omega
    have msp : (exceptionEntry s.machine).cpu.msp = s.machine.cpu.msp := rfl
    have kept : Mem.Agree (exceptionEntry s.machine).kernel.mem
        (pendsvSavedMem (exceptionEntry s.machine)) (s.machine.cpu.psp.toNat - 32) (4 * 8) := by
      apply pendsvSavedMem_agree
      · rw [msp]
        exact main
      · rw [entered, first]
        omega
      · rw [msp]
        omega
      · rw [entered, first]
        omega
    rw [second, address, kept.loadWords, ← first]
    exact Mem.loadWords_storeWords _ _ s.machine.cpu.frame

omit [DecidableEq τ] in
/-- The stacks of the other threads are as before. -/
theorem agree_other (main : 4 ≤ s.machine.cpu.msp.toNat) (room : 64 ≤ s.machine.cpu.psp.toNat)
    {a n : Nat}
    (missMain : a + n ≤ s.machine.cpu.msp.toNat - 4 ∨ s.machine.cpu.msp.toNat ≤ a)
    (missProcess : a + n ≤ s.machine.cpu.psp.toNat - 64 ∨ s.machine.cpu.psp.toNat ≤ a) :
    Mem.Agree s.machine.kernel.mem (pendsvSavedMem (exceptionEntry s.machine)) a n := by
  have entered : (exceptionEntry s.machine).cpu.psp = s.machine.cpu.psp - 32 := rfl
  have msp : (exceptionEntry s.machine).cpu.msp = s.machine.cpu.msp := rfl
  have first : (s.machine.cpu.psp - 32).toNat = s.machine.cpu.psp.toNat - 32 := by bv_omega
  have pushed : Mem.Agree s.machine.kernel.mem (exceptionEntry s.machine).kernel.mem a n := by
    apply Mem.agree_storeWords
    rw [first]
    simp only [Cpu.frame, List.length_cons, List.length_nil]
    omega
  apply pushed.trans
  · apply pendsvSavedMem_agree
    · rw [msp]
      exact main
    · rw [entered, first]
      omega
    · rw [msp]
      exact missMain
    · rw [entered, first]
      omega

/-- What the handler has done when it returns to thread `u`. -/
theorem switch_inv {pick : Kernel τ → Kernel τ} {scratch : Nat → Word} {m : Machine τ}
    (legal : Legal st s (.pendSv pick scratch))
    (run : archHandlePendsv pick scratch (exceptionEntry s.machine) = .ok m) :
    ∃ t u, s.machine.kernel.currentThread = some t ∧ m.kernel.currentThread = some u ∧
      (m.kernel.thread t).stack = s.machine.cpu.psp - 32 - 32 ∧
      (∀ v, v ≠ t → (m.kernel.thread v).stack = (s.machine.kernel.thread v).stack) ∧
      Inside st t (s.machine.cpu.psp - 32 - 32).toNat ∧
      Saved m.kernel.mem (s.machine.cpu.psp - 32 - 32) s.context ∧
      (∀ v, v ≠ t → Mem.Agree s.machine.kernel.mem m.kernel.mem (st.low v)
        (st.high v - st.low v)) ∧
      m.cpu.callee = m.kernel.mem.loadWords (m.kernel.thread u).stack.toNat 4 ++
        m.kernel.mem.loadWords ((m.kernel.thread u).stack + 16).toNat 4 ∧
      m.cpu.psp = (m.kernel.thread u).stack + 32 := by
  obtain ⟨picks, main, isr, room⟩ := legal
  obtain ⟨t, u, current, next, mem, thread, callee, psp⟩ := archHandlePendsv_inv run
  obtain ⟨low, high⟩ := room t current
  have bottom : (s.machine.cpu.psp - 32 - 32).toNat = s.machine.cpu.psp.toNat - 64 := by bv_omega
  have apart := isr t
  have picked : ∀ v, Mem.Agree (pendsvSavedMem (exceptionEntry s.machine)) m.kernel.mem
      (st.low v) (st.high v - st.low v) := by
    intro v
    rw [mem]
    exact picks.mem (pendsvSaved (exceptionEntry s.machine) t) v
  have stack : ∀ v, (m.kernel.thread v).stack = (Function.update s.machine.kernel.thread t
      { s.machine.kernel.thread t with stack := s.machine.cpu.psp - 32 - 32 } v).stack := by
    intro v
    rw [thread]
    exact picks.stack (pendsvSaved (exceptionEntry s.machine) t) v
  refine ⟨t, u, current, next, ?_, ?_, ⟨by omega, by omega⟩, ?_, ?_, callee, psp⟩
  · rw [stack t, Function.update_self]
  · intro v ne
    rw [stack v, Function.update_of_ne ne]
  · refine (saved_context main (by omega) (by omega)).congr ?_
    rw [bottom]
    exact (picked t).mono (by omega) (by omega)
  · intro v ne
    have disjoint := st.disjoint t v ne.symm
    have bounds := st.bounds v
    have apartV := isr v
    exact (agree_other main (by omega) (by omega) (by omega)).trans (picked v)

/-- A switch leaves the frames of the threads that are not running alone. -/
theorem Sound.undisturbed {pick : Kernel τ → Kernel τ} {scratch : Nat → Word} {m : Machine τ}
    (sound : Sound st s) (legal : Legal st s (.pendSv pick scratch))
    (run : archHandlePendsv pick scratch (exceptionEntry s.machine) = .ok m)
    (resumable : Resumable s u) : Undisturbed s m u := by
  obtain ⟨t, -, current, -, -, stack, -, -, others, -, -⟩ := switch_inv legal run
  have ne : u ≠ t := by
    rintro rfl
    exact sound.current u current resumable
  obtain ⟨low, high⟩ := sound.inside u resumable
  exact ⟨stack u ne, (others u ne).mono low (by omega)⟩

/-- A switch keeps the invariant. -/
theorem Sound.pendSv {pick : Kernel τ → Kernel τ} {scratch : Nat → Word} (sound : Sound st s)
    (legal : Legal st s (.pendSv pick scratch))
    (run : exec s (.pendSv pick scratch) = .ok s') : Sound st s' := by
  rw [exec, Except.bind_eq_ok] at run
  obtain ⟨t', current', run⟩ := run
  rw [deref_eq_ok] at current'
  rw [Except.bind_eq_ok] at run
  obtain ⟨m, handled, run⟩ := run
  rw [Except.bind_eq_ok] at run
  obtain ⟨u', next', run⟩ := run
  rw [deref_eq_ok] at next'
  have kept : ∀ v, Resumable s v → Undisturbed s m v :=
    fun v resumable => sound.undisturbed legal handled resumable
  obtain ⟨t, u, current, next, here, -, inside, saved, -, -, -⟩ := switch_inv legal handled
  obtain rfl : t = t' := Option.some.inj (current.symm.trans current')
  obtain rfl : u = u' := Option.some.inj (next.symm.trans next')
  cases run
  have isSuspended : ∀ {v context}, Function.update (Function.update s.suspended t (some s.context))
      u none v = some context → (v = t ∧ context = s.context) ∨ s.suspended v = some context := by
    intro v context found
    by_cases isNext : v = u
    · rw [isNext, Function.update_self] at found
      cases found
    · rw [Function.update_of_ne isNext] at found
      by_cases isCurrent : v = t
      · rw [isCurrent, Function.update_self] at found
        exact .inl ⟨isCurrent, (Option.some.inj found).symm⟩
      · rw [Function.update_of_ne isCurrent] at found
        exact .inr found
  have isPrepared : ∀ {v pair}, Function.update s.prepared u none v = some pair →
      s.prepared v = some pair := by
    intro v pair found
    by_cases isNext : v = u
    · rw [isNext, Function.update_self] at found
      cases found
    · rwa [Function.update_of_ne isNext] at found
  refine ⟨?_, ?_, ?_, ?_⟩
  · intro v resumable
    show Inside st v (m.kernel.thread v).stack.toNat
    rcases resumable with suspended | prepared
    · obtain ⟨context, found⟩ := Option.ne_none_iff_exists'.mp suspended
      rcases isSuspended found with ⟨rfl, -⟩ | before
      · rw [here]
        exact inside
      · have resumable := resumable_of_suspended before
        exact (kept v resumable).inside sound resumable
    · obtain ⟨pair, found⟩ := Option.ne_none_iff_exists'.mp prepared
      have resumable := resumable_of_prepared (isPrepared found)
      exact (kept v resumable).inside sound resumable
  · intro v context found
    rcases isSuspended found with ⟨rfl, rfl⟩ | before
    · show Saved m.kernel.mem (m.kernel.thread v).stack s.context
      rw [here]
      exact saved
    · exact (kept v (resumable_of_suspended before)).saved sound before
  · intro v func arg found
    have before := isPrepared found
    exact (kept v (resumable_of_prepared before)).prepared sound before
  · intro v isCurrent
    obtain rfl : u = v := Option.some.inj (next.symm.trans isCurrent)
    rintro (suspended | prepared)
    · exact suspended (Function.update_self ..)
    · exact prepared (Function.update_self ..)

/-- The invariant holds in every reachable state. -/
theorem Reachable.sound (reach : Reachable st s) : Sound st s := by
  induction reach with
  | @init s suspended prepared =>
      have nobody : ∀ t, ¬ Resumable s t := by
        rintro t (found | found)
        · exact found (suspended t)
        · exact found (prepared t)
      refine ⟨fun t resumable => absurd resumable (nobody t), ?_, ?_, fun t _ => nobody t⟩
      · intro t context found
        rw [suspended t] at found
        cases found
      · intro t func arg found
        rw [prepared t] at found
        cases found
  | @step s s' event _ legal run ih =>
      cases event with
      | code machine =>
          cases run
          exact ih.code legal
      | setFunction t func arg => exact ih.setFunction legal run
      | pendSv pick scratch => exact ih.pendSv legal run

omit [DecidableEq τ] in
/-- A thread is resumed with the registers in its frame. -/
theorem Saved.resumes {m : Machine τ} {q : Word} (saved : Saved m.kernel.mem q context)
    (room : q.toNat + 64 ≤ 2 ^ 32)
    (callee : m.cpu.callee =
      m.kernel.mem.loadWords q.toNat 4 ++ m.kernel.mem.loadWords (q + 16).toNat 4)
    (psp : m.cpu.psp = q + 32) : Resumes m context := by
  have high : (q + 16).toNat = q.toNat + 4 * 4 := by bv_omega
  have top : (q + 32).toNat = q.toNat + 32 := by bv_omega
  refine ⟨?_, ?_, ?_⟩
  · rw [callee, high, ← Mem.loadWords_add]
    exact saved.callee
  · rw [psp, saved.psp]
  · rw [exceptionReturn_frame, psp, top]
    exact saved.frame

omit [DecidableEq τ] in
/-- A prepared thread starts with the registers in its frame. -/
theorem Prepared.starts {m : Machine τ} {q : Word} (prepared : Prepared m.kernel.mem q func arg)
    (room : q.toNat + 64 ≤ 2 ^ 32) (psp : m.cpu.psp = q + 32) : Starts m func arg := by
  have top : m.cpu.psp.toNat = q.toNat + 32 := by
    rw [psp]
    bv_omega
  constructor
  · rw [top]
    exact prepared.arg
  · rw [top]
    exact prepared.func
  · rw [top]
    exact prepared.xpsr

/-- **Context switches are transparent**: whatever thread `schedule` selects in a reachable state,
the handler returns with r4 to r11 and PSP as they were when that thread was last switched out, and
a thread that was prepared and runs for the first time starts its function with its argument. -/
theorem reachable_transparent (s : State τ) (reach : Reachable st s) (pick : Kernel τ → Kernel τ)
    (scratch : Nat → Word) (legal : Legal st s (.pendSv pick scratch)) (m : Machine τ)
    (run : archHandlePendsv pick scratch (exceptionEntry s.machine) = .ok m) :
    ∃ u, m.kernel.currentThread = some u ∧
      (∀ context, s.last u = some context → Resumes m context) ∧
      ∀ func arg, s.prepared u = some (func, arg) → Starts m func arg := by
  have sound := reach.sound
  have kept : ∀ v, Resumable s v → Undisturbed s m v :=
    fun v resumable => sound.undisturbed legal run resumable
  obtain ⟨t, u, current, next, here, -, inside, saved, -, callee, psp⟩ := switch_inv legal run
  have bound := (st.bounds u).2
  refine ⟨u, next, ?_, ?_⟩
  · intro context last
    unfold State.last at last
    split at last
    · next again =>
        obtain rfl : t = u := Option.some.inj (current.symm.trans again)
        cases last
        rw [← here] at saved inside
        obtain ⟨-, high⟩ := inside
        exact saved.resumes (by omega) callee psp
    · have resumable := resumable_of_suspended last
      obtain ⟨-, high⟩ := (kept u resumable).inside sound resumable
      exact ((kept u resumable).saved sound last).resumes (by omega) callee psp
  · intro func arg found
    have resumable := resumable_of_prepared found
    obtain ⟨-, high⟩ := (kept u resumable).inside sound resumable
    exact ((kept u resumable).prepared sound found).starts (by omega) psp

omit [DecidableEq τ] in
/-- The critical section of the source selects a thread like any other. -/
theorem picks_schedulePick (st : Stacks τ) : Picks st (schedulePick : Kernel τ → Kernel τ) := by
  constructor
  · intro k t
    unfold schedulePick
    split
    · rfl
    · rfl
  · intro k t
    unfold schedulePick
    split
    · exact .refl _ _ _
    · exact .refl _ _ _

end Specs

/-! ## A concrete run -/

/-- Two threads at addresses 1 and 2. -/
def twoStacks : Stacks Nat where
  low t := if t = 1 then 0x1000 else if t = 2 then 0x2000 else 0
  high t := if t = 1 then 0x1100 else if t = 2 then 0x2100 else 0
  bounds t := by
    split
    · decide
    · split
      · decide
      · decide
  disjoint t u ne := by
    split_ifs <;> omega

/-- Thread 1 is running, and thread 2 has an empty stack. -/
def twoThreads : State Nat where
  machine :=
    { cpu := ⟨fun i => BitVec.ofNat 32 i, 0x1100, 0x800, 0x01000000⟩
      kernel := { Scheduler.blankKernel with
        currentThread := some 1
        thread := fun t => { Thread.zero with stack := if t = 2 then 0x20FC else 0 } } }
  suspended := fun _ => none
  prepared := fun _ => none

/-- Select a given thread. -/
def select (t : Nat) (k : Kernel Nat) : Kernel Nat := { k with currentThread := some t }

theorem picks_select (st : Stacks Nat) (t : Nat) : Picks st (select t) :=
  ⟨fun _ _ => rfl, fun _ _ => .refl _ _ _⟩

/-- Thread 2 has been prepared. -/
def twoPrepared : State Nat :=
  (exec twoThreads (.setFunction 2 0x100 7)).toOption.getD twoThreads

/-- Thread 2 has been selected. -/
def twoSwitched : State Nat :=
  (exec twoPrepared (.pendSv (select 2) fun _ => 0)).toOption.getD twoThreads

theorem exec_twoPrepared : exec twoThreads (.setFunction 2 0x100 7) = .ok twoPrepared := rfl

theorem exec_twoSwitched :
    exec twoPrepared (.pendSv (select 2) fun _ => 0) = .ok twoSwitched := by
  have returns : (exec twoPrepared (.pendSv (select 2) fun _ => 0)).isOk = true := by
    decide +kernel
  rw [twoSwitched]
  cases run : exec twoPrepared (.pendSv (select 2) fun _ => 0) with
  | error fault =>
      rw [run] at returns
      cases returns
  | ok s => rfl

/-- A switch can be made when the current thread has room on its stack and MSP is at 0x800. -/
theorem legal_select {s : State Nat} {t : Nat} (next : Nat) (main : s.machine.cpu.msp = 0x800)
    (current : s.machine.kernel.currentThread = some t)
    (low : twoStacks.low t + 64 ≤ s.machine.cpu.psp.toNat)
    (high : s.machine.cpu.psp.toNat ≤ twoStacks.high t) :
    Legal twoStacks s (.pendSv (select next) fun _ => 0) := by
  have msp : s.machine.cpu.msp.toNat = 0x800 := by
    rw [main]
    rfl
  refine ⟨picks_select twoStacks next, by omega, ?_, ?_⟩
  · intro u
    rw [msp]
    simp only [twoStacks]
    split_ifs <;> omega
  · intro u isCurrent
    obtain rfl : t = u := Option.some.inj (current.symm.trans isCurrent)
    exact ⟨low, high⟩

theorem twoPrepared_legal : Legal twoStacks twoPrepared (.pendSv (select 2) fun _ => 0) :=
  legal_select (t := 1) 2 (by decide +kernel) (by decide +kernel) (by decide +kernel)
    (by decide +kernel)

theorem twoSwitched_legal : Legal twoStacks twoSwitched (.pendSv (select 1) fun _ => 0) :=
  legal_select (t := 2) 1 (by decide +kernel) (by decide +kernel) (by decide +kernel)
    (by decide +kernel)

theorem twoPrepared_reachable : Reachable twoStacks twoPrepared := by
  refine .step (.init (fun _ => rfl) (fun _ => rfl)) ?_ exec_twoPrepared
  refine ⟨by decide +kernel, ?_, by decide +kernel, by decide +kernel⟩
  rintro (suspended | prepared)
  · exact suspended rfl
  · exact prepared rfl

theorem twoSwitched_reachable : Reachable twoStacks twoSwitched :=
  .step twoPrepared_reachable twoPrepared_legal exec_twoSwitched

/-- Thread 2 starts its function, and then thread 1 is resumed with the registers it had. -/
theorem reachable_transparent_two :
    (∃ m, archHandlePendsv (select 2) (fun _ => 0) (exceptionEntry twoPrepared.machine) = .ok m ∧
      Starts m 0x100 7) ∧
    ∃ m, archHandlePendsv (select 1) (fun _ => 0) (exceptionEntry twoSwitched.machine) = .ok m ∧
      Resumes m twoPrepared.context := by
  have started : ((archHandlePendsv (select 2) (fun _ => 0)
      (exceptionEntry twoPrepared.machine)).toOption.bind fun m => m.kernel.currentThread) =
      some 2 := by decide +kernel
  have resumed : ((archHandlePendsv (select 1) (fun _ => 0)
      (exceptionEntry twoSwitched.machine)).toOption.bind fun m => m.kernel.currentThread) =
      some 1 := by decide +kernel
  constructor
  · cases run : archHandlePendsv (select 2) (fun _ => 0) (exceptionEntry twoPrepared.machine) with
    | error fault =>
        rw [run] at started
        cases started
    | ok m =>
        rw [run] at started
        obtain ⟨u, current, -, starts⟩ := reachable_transparent twoPrepared twoPrepared_reachable
          (select 2) (fun _ => 0) twoPrepared_legal m run
        obtain rfl : 2 = u := Option.some.inj (started.symm.trans current)
        exact ⟨m, rfl, starts 0x100 7 rfl⟩
  · cases run : archHandlePendsv (select 1) (fun _ => 0) (exceptionEntry twoSwitched.machine) with
    | error fault =>
        rw [run] at resumed
        cases resumed
    | ok m =>
        rw [run] at resumed
        obtain ⟨u, current, resumes, -⟩ := reachable_transparent twoSwitched twoSwitched_reachable
          (select 1) (fun _ => 0) twoSwitched_legal m run
        obtain rfl : 1 = u := Option.some.inj (resumed.symm.trans current)
        exact ⟨m, rfl, resumes twoPrepared.context (by decide +kernel)⟩

end TheFirmware.ContextSwitch
