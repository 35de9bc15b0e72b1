import TheFirmware.Runtime
import TheFirmware.Lib.StableSort

/-!
# `top/init.c`

The linker collects the init hooks in a table, in any order. `fw_init_run(level)` calls those that
have not been called and whose level is at most `level`, by repeated scans of the table: a scan
looks for the hook that comes next after the one called last. Levels are compared only, so that
`fw_init_level_t` is `Nat` here.

`Next` says what a scan is to find, in terms of the order of the levels and, for the same level, of
the table. A scan finds the first such hook (`fwInitScan_eq`), and so a run calls the hooks in the
order of a stable sort (`fwInitRun_eq`).
-/

namespace TheFirmware.Init

open StableSort

variable {η : Type}

/-- `struct fw_init_hook`. -/
structure FwInitHook (η : Type) : Type where
  level : Nat
  hook : η

/-- A pointer into the table, with the hook it points to. -/
structure HookPtr (η : Type) : Type extends FwInitHook η where
  addr : Nat

/-- The pointers from `addr` on that the loop over the table goes through. -/
def pointersFrom (addr : Nat) : List (FwInitHook η) → List (HookPtr η)
  | [] => []
  | hook :: table => ⟨hook, addr⟩ :: pointersFrom (addr + 1) table

/-- The pointers from `fw_init_begin` to `fw_init_end`. -/
def pointers (table : List (FwInitHook η)) : List (HookPtr η) := pointersFrom 0 table

/-- `ptr == last`, where `last` may be `NULL`. -/
def isLast (last : Option (HookPtr η)) (ptr : HookPtr η) : Bool :=
  match last with
  | some last => ptr.addr = last.addr
  | none => false

/-- The inner loop of `fw_init_run(level)`: the pointers still to come, `found` and `seen_last`. -/
def fwInitScan (level lastLevel lastCalledLevel : Nat) (last : Option (HookPtr η)) :
    List (HookPtr η) → Option (HookPtr η) → Bool → Option (HookPtr η)
  | [], found, _ => found
  | ptr :: rest, found, seenLast =>
      let seenLast := if isLast last ptr then true else seenLast
      if ptr.level > level then
        fwInitScan level lastLevel lastCalledLevel last rest found seenLast
      else if ptr.level < lastCalledLevel then
        fwInitScan level lastLevel lastCalledLevel last rest found seenLast
      else if found.any fun found => found.level ≤ ptr.level then
        fwInitScan level lastLevel lastCalledLevel last rest found seenLast
      else if ptr.level > lastLevel ∧ ptr.level > lastCalledLevel then
        fwInitScan level lastLevel lastCalledLevel last rest (some ptr) seenLast
      else if ptr.level = lastCalledLevel ∧ ¬ isLast last ptr ∧ seenLast then
        some ptr
      else
        fwInitScan level lastLevel lastCalledLevel last rest found seenLast

/-- The outer loop of `fw_init_run(level)`; the value is the hooks called. -/
def fwInitLoop (table : List (FwInitHook η)) (level lastLevel : Nat) :
    Nat → Nat → Option (HookPtr η) → Except Fault (List (HookPtr η))
  | 0, _, _ => .error .outOfFuel
  | fuel + 1, lastCalledLevel, last =>
      match fwInitScan level lastLevel lastCalledLevel last (pointers table) none false with
      | none => .ok []
      | some found => do
          let called ← fwInitLoop table level lastLevel fuel found.level (some found)
          return found :: called

/-- `fw_init_run(level)`: the hooks called, and `last_level`. -/
def fwInitRun (fuel : Nat) (table : List (FwInitHook η)) (level lastLevel : Nat) :
    Except Fault (List (HookPtr η) × Nat) := do
  let called ← fwInitLoop table level lastLevel fuel lastLevel none
  return (called, level)

/-- Calls of `fw_init_run` with the levels, one after the other: the hooks each of them calls. -/
def fwInitRuns (fuel : Nat) (table : List (FwInitHook η)) :
    List Nat → Nat → Except Fault (List (List (HookPtr η)))
  | [], _ => .ok []
  | level :: levels, lastLevel => do
      let (called, lastLevel) ← fwInitRun fuel table level lastLevel
      let rest ← fwInitRuns fuel table levels lastLevel
      return called :: rest

/-- In order of the levels, and for the same level in order of the table. -/
def Ahead (p q : HookPtr η) : Prop := Before (·.level) (·.addr) p q

theorem ahead_iff {p q : HookPtr η} :
    Ahead p q ↔ p.level < q.level ∨ p.level = q.level ∧ p.addr < q.addr := Iff.rfl

/-- The hook is one that can be called next, when `last` was called last. -/
def Next (level lastLevel : Nat) (last : Option (HookPtr η)) (p : HookPtr η) : Prop :=
  lastLevel < p.level ∧ p.level ≤ level ∧ ∀ l, last = some l → Ahead l p

/-! ## A scan -/

section Scan

variable {level lastLevel lastCalledLevel : Nat} {last found : Option (HookPtr η)}
  {A B : List (HookPtr η)} {p q : HookPtr η} {seenLast : Bool}

/-- `last_called_level` and `last`: nothing has been called yet, or `last` has. -/
def Called (table : List (HookPtr η)) (lastLevel lastCalledLevel : Nat) :
    Option (HookPtr η) → Prop
  | none => lastCalledLevel = lastLevel
  | some l => l ∈ table ∧ lastLevel < l.level ∧ lastCalledLevel = l.level

/-- The first of the hooks that can be called next. -/
def IsFirst (level lastLevel : Nat) (last : Option (HookPtr η)) (table : List (HookPtr η)) :
    Option (HookPtr η) → Prop
  | none => ∀ q ∈ table, ¬ Next level lastLevel last q
  | some f => f ∈ table ∧ Next level lastLevel last f ∧
    ∀ q ∈ table, Next level lastLevel last q → q = f ∨ Ahead f q

/-- When the pointers `A` have been passed: whether `last` is among them, none of them can be
called next at the level of `last`, and `found` is the first of those that can be called next. -/
structure Passed (level lastLevel lastCalledLevel : Nat) (last : Option (HookPtr η))
    (A : List (HookPtr η)) (found : Option (HookPtr η)) (seenLast : Bool) : Prop where
  seen : seenLast = true ↔ ∃ l, last = some l ∧ l ∈ A
  above : ∀ q ∈ A, Next level lastLevel last q → lastCalledLevel < q.level
  first : IsFirst level lastLevel last A found

theorem IsFirst.skip (first : IsFirst level lastLevel last A found)
    (notNext : ¬ Next level lastLevel last p) :
    IsFirst level lastLevel last (A ++ [p]) found := by
  have absent : ∀ q ∈ A ++ [p], Next level lastLevel last q → q ∈ A := by
    intro q mem next
    rcases List.mem_append.mp mem with mem | mem
    · exact mem
    · rw [List.mem_singleton.mp mem] at next
      exact absurd next notNext
  cases found with
  | none => exact fun q mem next => first q (absent q mem next) next
  | some f =>
      obtain ⟨mem, next, least⟩ := first
      exact ⟨List.mem_append_left _ mem, next, fun q memQ nextQ =>
        least q (absent q memQ nextQ) nextQ⟩

/-- A hook behind `f` of no lower level comes after `f`. -/
theorem IsFirst.keep (first : IsFirst level lastLevel last A (some q))
    (le : q.level ≤ p.level) (behind : q.addr < p.addr) :
    IsFirst level lastLevel last (A ++ [p]) (some q) := by
  obtain ⟨mem, next, least⟩ := first
  refine ⟨List.mem_append_left _ mem, next, ?_⟩
  intro r memR nextR
  rcases List.mem_append.mp memR with memR | memR
  · exact least r memR nextR
  · right
    rw [List.mem_singleton.mp memR]
    rw [ahead_iff]
    omega

/-- A hook of lower level than `found` comes before everything passed so far. -/
theorem IsFirst.replace (first : IsFirst level lastLevel last A found)
    (next : Next level lastLevel last p)
    (lower : ∀ f, found = some f → p.level < f.level) :
    IsFirst level lastLevel last (A ++ [p]) (some p) := by
  refine ⟨by simp, next, ?_⟩
  intro q mem nextQ
  rcases List.mem_append.mp mem with mem | mem
  · right
    cases found with
    | none => exact absurd nextQ (first q mem)
    | some f =>
        have lt := lower f rfl
        rcases first.2.2 q mem nextQ with rfl | ahead
        · exact .inl lt
        · rw [ahead_iff] at ahead ⊢
          omega
  · exact .inl (List.mem_singleton.mp mem)

/-- The last hook has been seen once it is among the pointers passed. -/
theorem seen_step (increasing : (A ++ p :: B).Pairwise fun p q => p.addr < q.addr)
    (called : Called (A ++ p :: B) lastLevel lastCalledLevel last)
    (seen : seenLast = true ↔ ∃ l, last = some l ∧ l ∈ A) :
    (if isLast last p then true else seenLast) = true ↔ ∃ l, last = some l ∧ l ∈ A ++ [p] := by
  cases last with
  | none => simp_all [isLast]
  | some l =>
      have same : p.addr = l.addr ↔ l = p := by
        constructor
        · intro same
          rw [List.pairwise_append, List.pairwise_cons] at increasing
          obtain ⟨-, ⟨later, -⟩, across⟩ := increasing
          rcases List.mem_append.mp called.1 with mem | mem
          · have lt := across l mem p List.mem_cons_self
            omega
          · rcases List.mem_cons.mp mem with rfl | mem
            · rfl
            · have lt := later l mem
              omega
        · rintro rfl
          rfl
      by_cases here : l = p
      · simp [isLast, here]
      · have other : ¬ p.addr = l.addr := fun equal => here (same.mp equal)
        simp [isLast, other, here, seen]

/-- What can be called next is of no lower level than what was called last. -/
theorem Called.floor (called : Called (A ++ B) lastLevel lastCalledLevel last)
    (next : Next level lastLevel last q) : lastCalledLevel ≤ q.level := by
  cases last with
  | none =>
      have above := next.1
      rw [show lastCalledLevel = lastLevel from called]
      omega
  | some l =>
      have ahead := ahead_iff.mp (next.2.2 l rfl)
      rw [called.2.2]
      omega

/-- A hook of the level called last can only be called next when `last` has been passed. -/
theorem Called.le (called : Called A lastLevel lastCalledLevel last) :
    lastLevel ≤ lastCalledLevel := by
  cases last with
  | none => exact Nat.le_of_eq called.symm
  | some l => exact called.2.2 ▸ Nat.le_of_lt called.2.1

/-- A hook of a higher level than the last one can be called next. -/
theorem Called.next_of_lt (called : Called A lastLevel lastCalledLevel last)
    (higher : lastCalledLevel < p.level) (high : p.level ≤ level) :
    Next level lastLevel last p := by
  refine ⟨Nat.lt_of_le_of_lt called.le higher, high, ?_⟩
  rintro l rfl
  have same := called.2.2
  exact ahead_iff.mpr (.inl (by omega))

theorem Called.passed_of_next (increasing : (A ++ p :: B).Pairwise fun p q => p.addr < q.addr)
    (called : Called (A ++ p :: B) lastLevel lastCalledLevel last)
    (next : Next level lastLevel last p) (same : p.level = lastCalledLevel) :
    ∃ l, last = some l ∧ l ∈ A := by
  cases last with
  | none =>
      have above := next.1
      rw [show lastCalledLevel = lastLevel from called] at same
      omega
  | some l =>
      obtain ⟨mem, -, lastSame⟩ := called
      have ahead := ahead_iff.mp (next.2.2 l rfl)
      refine ⟨l, rfl, ?_⟩
      rcases List.mem_append.mp mem with mem | mem
      · exact mem
      · rcases List.mem_cons.mp mem with rfl | mem
        · omega
        · have lt := (List.pairwise_cons.mp (List.pairwise_append.mp increasing).2.1).1 l mem
          omega

theorem Passed.above_append
    (passed : Passed level lastLevel lastCalledLevel last A found seenLast)
    (here : Next level lastLevel last p → lastCalledLevel < p.level) :
    ∀ q ∈ A ++ [p], Next level lastLevel last q → lastCalledLevel < q.level := by
  intro q mem next
  rcases List.mem_append.mp mem with mem | mem
  · exact passed.above q mem next
  · rw [List.mem_singleton.mp mem] at next ⊢
    exact here next

/-- The first hook of the level called last behind `last` is called next. -/
theorem Passed.follower {l : HookPtr η}
    (increasing : (A ++ p :: B).Pairwise fun p q => p.addr < q.addr)
    (called : Called (A ++ p :: B) lastLevel lastCalledLevel (some l))
    (passed : Passed level lastLevel lastCalledLevel (some l) A found seenLast) (mem : l ∈ A)
    (same : p.level = lastCalledLevel) (low : p.level ≤ level) :
    IsFirst level lastLevel (some l) (A ++ p :: B) (some p) := by
  obtain ⟨-, ⟨later, -⟩, behind⟩ := by
    rw [List.pairwise_append, List.pairwise_cons] at increasing
    exact increasing
  have floor : ∀ q, Next level lastLevel (some l) q → lastCalledLevel ≤ q.level :=
    fun q next => called.floor next
  obtain ⟨-, lastAbove, lastSame⟩ := called
  have next : Next level lastLevel (some l) p := by
    refine ⟨by omega, low, ?_⟩
    rintro l' ⟨rfl⟩
    exact ahead_iff.mpr (.inr ⟨by omega, behind l mem p List.mem_cons_self⟩)
  refine ⟨by simp, next, ?_⟩
  intro q memQ nextQ
  have le := floor q nextQ
  rw [ahead_iff]
  rcases List.mem_append.mp memQ with memQ | memQ
  · have lt := passed.above q memQ nextQ
    omega
  · rcases List.mem_cons.mp memQ with rfl | memQ
    · exact .inl rfl
    · have lt := later q memQ
      omega

/-- A scan finds the first of the hooks that can be called next. -/
theorem fwInitScan_isFirst (increasing : (A ++ B).Pairwise fun p q => p.addr < q.addr)
    (called : Called (A ++ B) lastLevel lastCalledLevel last)
    (passed : Passed level lastLevel lastCalledLevel last A found seenLast) :
    IsFirst level lastLevel last (A ++ B)
      (fwInitScan level lastLevel lastCalledLevel last B found seenLast) := by
  induction B generalizing A found seenLast with
  | nil =>
      rw [List.append_nil, fwInitScan]
      exact passed.first
  | cons p B ih =>
      have seen := seen_step increasing called passed.seen
      have behind : ∀ q ∈ A, q.addr < p.addr :=
        fun q mem => (List.pairwise_append.mp increasing).2.2 q mem p List.mem_cons_self
      have step : ∀ {found' seenLast'},
          Passed level lastLevel lastCalledLevel last (A ++ [p]) found' seenLast' →
          IsFirst level lastLevel last (A ++ p :: B)
            (fwInitScan level lastLevel lastCalledLevel last B found' seenLast') := by
        intro found' seenLast' passed'
        rw [List.append_cons] at increasing called ⊢
        exact ih increasing called passed'
      have skip : ¬ Next level lastLevel last p → IsFirst level lastLevel last (A ++ p :: B)
          (fwInitScan level lastLevel lastCalledLevel last B found
            (if isLast last p then true else seenLast)) := by
        intro notNext
        exact step ⟨seen, passed.above_append fun next => absurd next notNext,
          passed.first.skip notNext⟩
      rw [fwInitScan]
      generalize (if isLast last p then true else seenLast) = seenNow at seen skip ⊢
      split
      · next high =>
          exact skip fun next => absurd next.2.1 (Nat.not_le_of_lt high)
      split
      · next low =>
          exact skip fun next => absurd (called.floor next) (Nat.not_le_of_lt low)
      next notLow =>
      split
      · next better =>
          cases found with
          | none => cases better
          | some f =>
              have le : f.level ≤ p.level := by simpa using better
              obtain ⟨mem, next, -⟩ := passed.first
              refine step ⟨seen, passed.above_append fun _ => ?_,
                passed.first.keep le (behind f mem)⟩
              exact Nat.lt_of_lt_of_le (passed.above f mem next) le
      next notBetter =>
      split
      · next higher =>
          have next : Next level lastLevel last p := called.next_of_lt higher.2 (by omega)
          refine step ⟨seen, passed.above_append fun _ => higher.2,
            passed.first.replace next ?_⟩
          rintro f rfl
          simpa using notBetter
      next notHigher =>
      have same : p.level = lastCalledLevel := by
        have atLeast := called.le
        omega
      split
      · next follows =>
          obtain ⟨-, notLast, seenIt⟩ := follows
          obtain ⟨l, rfl, mem⟩ := seen.mp seenIt
          have memA : l ∈ A := by
            rcases List.mem_append.mp mem with mem | mem
            · exact mem
            · rw [List.mem_singleton.mp mem] at notLast
              simp [isLast] at notLast
          exact passed.follower increasing called memA same (by omega)
      · next notFollows =>
          apply skip
          intro next
          obtain ⟨l, rfl, memA⟩ := called.passed_of_next increasing next same
          have lt := behind l memA
          refine notFollows ⟨same, ?_, seen.mpr ⟨l, rfl, List.mem_append_left _ memA⟩⟩
          simp only [isLast, decide_eq_true_eq]
          omega

end Scan

/-! ## A run -/

section Run

variable {table : List (FwInitHook η)} {level lastLevel lastCalledLevel a b c fuel : Nat}
  {last : Option (HookPtr η)} {p : HookPtr η} {S : List (HookPtr η)} {levels : List Nat}

theorem pointersFrom_bound (addr : Nat) (table : List (FwInitHook η)) :
    ∀ p ∈ pointersFrom addr table, addr ≤ p.addr := by
  induction table generalizing addr with
  | nil => simp [pointersFrom]
  | cons hook table ih =>
      intro p mem
      rcases List.mem_cons.mp mem with rfl | mem
      · exact Nat.le_refl _
      · exact Nat.le_of_succ_le (ih (addr + 1) p mem)

theorem pointersFrom_increasing (addr : Nat) (table : List (FwInitHook η)) :
    (pointersFrom addr table).Pairwise fun p q => p.addr < q.addr := by
  induction table generalizing addr with
  | nil => exact .nil
  | cons hook table ih =>
      refine .cons ?_ (ih (addr + 1))
      intro q mem
      exact pointersFrom_bound (addr + 1) table q mem

theorem pointersFrom_length (addr : Nat) (table : List (FwInitHook η)) :
    (pointersFrom addr table).length = table.length := by
  induction table generalizing addr with
  | nil => rfl
  | cons hook table ih => simp [pointersFrom, ih]

theorem mem_pointersFrom {addr : Nat} (mem : p ∈ pointersFrom addr table) :
    p.toFwInitHook ∈ table := by
  induction table generalizing addr with
  | nil => cases mem
  | cons hook table ih =>
      rcases List.mem_cons.mp mem with rfl | mem
      · exact List.mem_cons_self
      · exact List.mem_cons_of_mem hook (ih mem)

/-- A scan from the beginning of the table. -/
theorem fwInitScan_eq (level : Nat)
    (called : Called (pointers table) lastLevel lastCalledLevel last) :
    IsFirst level lastLevel last (pointers table)
      (fwInitScan level lastLevel lastCalledLevel last (pointers table) none false) :=
  fwInitScan_isFirst (A := []) (pointersFrom_increasing 0 table) called
    ⟨by simp, by simp, by simp [IsFirst]⟩

/-- The loop calls what can be called next, in order. -/
theorem fwInitLoop_eq (called : Called (pointers table) lastLevel lastCalledLevel last)
    (ordered : S.Pairwise Ahead)
    (exactly : ∀ p, p ∈ S ↔ p ∈ pointers table ∧ Next level lastLevel last p)
    (enough : S.length < fuel) :
    fwInitLoop table level lastLevel fuel lastCalledLevel last = .ok S := by
  induction S generalizing fuel lastCalledLevel last with
  | nil =>
      obtain ⟨fuel, rfl⟩ := Nat.exists_eq_succ_of_ne_zero (Nat.ne_of_gt enough)
      have first := fwInitScan_eq level called
      rw [fwInitLoop]
      cases found : fwInitScan level lastLevel lastCalledLevel last (pointers table) none false with
      | none => rfl
      | some f =>
          rw [found] at first
          exact absurd ((exactly f).mpr ⟨first.1, first.2.1⟩) (by simp)
  | cons p S ih =>
      obtain ⟨fuel, rfl⟩ : ∃ n, fuel = n + 1 := ⟨fuel - 1, by simp at enough; omega⟩
      obtain ⟨least, ordered⟩ := List.pairwise_cons.mp ordered
      obtain ⟨mem, next⟩ := (exactly p).mp List.mem_cons_self
      have first := fwInitScan_eq level called
      have found : fwInitScan level lastLevel lastCalledLevel last (pointers table) none false =
          some p := by
        cases found : fwInitScan level lastLevel lastCalledLevel last (pointers table) none
          false with
        | none =>
            rw [found] at first
            exact absurd next (first p mem)
        | some f =>
            rw [found] at first
            obtain ⟨memF, nextF, leastF⟩ := first
            rcases leastF p mem next with rfl | ahead
            · rfl
            · rcases List.mem_cons.mp ((exactly f).mpr ⟨memF, nextF⟩) with rfl | later
              · rfl
              · exact absurd ahead (least f later).asymm
      have rest : fwInitLoop table level lastLevel fuel p.level (some p) = .ok S := by
        refine ih ⟨mem, next.1, rfl⟩ ordered ?_ (by simpa using enough)
        intro q
        constructor
        · intro later
          obtain ⟨memQ, nextQ⟩ := (exactly q).mp (List.mem_cons_of_mem p later)
          refine ⟨memQ, nextQ.1, nextQ.2.1, ?_⟩
          rintro l ⟨rfl⟩
          exact least q later
        · rintro ⟨memQ, above, below, behind⟩
          have ahead := behind p rfl
          have nextQ : Next level lastLevel last q := by
            refine ⟨above, below, ?_⟩
            intro l isLast
            have before := ahead_iff.mp (next.2.2 l isLast)
            rw [ahead_iff] at ahead ⊢
            omega
          rcases List.mem_cons.mp ((exactly q).mpr ⟨memQ, nextQ⟩) with rfl | later
          · exact absurd ahead ahead.asymm
          · exact later
      rw [fwInitLoop, found]
      simp only [rest]
      rfl

/-- The hooks with levels above `a` up to `b`, sorted by level. -/
def due (table : List (FwInitHook η)) (a b : Nat) : List (HookPtr η) :=
  sort (·.level) ((pointers table).filter fun p => a < p.level ∧ p.level ≤ b)

theorem mem_due : p ∈ due table a b ↔ p ∈ pointers table ∧ a < p.level ∧ p.level ≤ b := by
  simp [due]

theorem due_ordered (table : List (FwInitHook η)) (a b : Nat) : (due table a b).Pairwise Ahead :=
  sort_before ((pointersFrom_increasing 0 table).filter _)

/-- A run calls the hooks above the level of the run before up to its own. -/
theorem fwInitRun_eq (enough : table.length < fuel) :
    fwInitRun fuel table level lastLevel = .ok (due table lastLevel level, level) := by
  have loop : fwInitLoop table level lastLevel fuel lastLevel none =
      .ok (due table lastLevel level) := by
    refine fwInitLoop_eq rfl (due_ordered table lastLevel level) ?_ ?_
    · intro p
      simp [mem_due, Next]
    · have few : (due table lastLevel level).length ≤ (pointers table).length := by
        rw [due, sort, List.length_mergeSort]
        exact List.length_filter_le _ _
      rw [pointers, pointersFrom_length] at few
      omega
  rw [fwInitRun, loop]
  rfl

/-- Two runs call together what one would. -/
theorem due_append (first : a ≤ b) (second : b ≤ c) :
    due table a b ++ due table b c = due table a c := by
  apply eq_of_before (fun p : HookPtr η => p.level) (·.addr)
  · rw [List.pairwise_append]
    refine ⟨due_ordered table a b, due_ordered table b c, ?_⟩
    intro p memP q memQ
    rw [mem_due] at memP memQ
    exact ahead_iff.mpr (.inl (by omega))
  · exact due_ordered table a c
  · intro p
    rw [List.mem_append, mem_due, mem_due, mem_due]
    constructor
    · rintro (⟨mem, bounds⟩ | ⟨mem, bounds⟩)
      · exact ⟨mem, by omega⟩
      · exact ⟨mem, by omega⟩
    · rintro ⟨mem, bounds⟩
      rcases Nat.lt_or_ge b p.level with above | below
      · exact .inr ⟨mem, above, bounds.2⟩
      · exact .inl ⟨mem, bounds.1, below⟩

/-! ## All runs -/

/-- The hooks each of the runs calls. -/
def dues (table : List (FwInitHook η)) : List Nat → Nat → List (List (HookPtr η))
  | [], _ => []
  | level :: levels, lastLevel => due table lastLevel level :: dues table levels level

theorem fwInitRuns_eq (enough : table.length < fuel) :
    fwInitRuns fuel table levels lastLevel = .ok (dues table levels lastLevel) := by
  induction levels generalizing lastLevel with
  | nil => rfl
  | cons level levels ih =>
      rw [fwInitRuns, fwInitRun_eq enough, Except.ok_bind]
      simp only [ih]
      rfl

theorem length_dues : (dues table levels lastLevel).length = levels.length := by
  induction levels generalizing lastLevel with
  | nil => rfl
  | cons level levels ih => simp [dues, ih]

theorem flatten_dues (ordered : (lastLevel :: levels).Pairwise (· ≤ ·)) :
    (dues table levels lastLevel).flatten =
      due table lastLevel ((lastLevel :: levels).getLast (by simp)) := by
  induction levels generalizing lastLevel with
  | nil =>
      have none : due table lastLevel lastLevel = [] := by
        apply List.eq_nil_iff_forall_not_mem.mpr
        intro p mem
        rw [mem_due] at mem
        omega
      rw [List.getLast_singleton, none]
      rfl
  | cons level levels ih =>
      obtain ⟨below, rest⟩ := List.pairwise_cons.mp ordered
      have last : level ≤ (level :: levels).getLast (by simp) := by
        rcases List.mem_cons.mp (List.getLast_mem (List.cons_ne_nil level levels)) with same | mem
        · exact Nat.le_of_eq same.symm
        · exact (List.pairwise_cons.mp rest).1 _ mem
      rw [dues, List.flatten_cons, ih rest, due_append (below level List.mem_cons_self) last,
        List.getLast_cons_cons]

/-- A hook is called in the first run that reaches its level. -/
theorem mem_dues (ordered : (lastLevel :: levels).Pairwise (· ≤ ·)) {k : Nat}
    (bound : k < levels.length) :
    p ∈ (dues table levels lastLevel).getD k [] ↔ p ∈ pointers table ∧ lastLevel < p.level ∧
      p.level ≤ levels.getD k 0 ∧ ∀ j < k, levels.getD j 0 < p.level := by
  induction levels generalizing lastLevel k with
  | nil => cases bound
  | cons level levels ih =>
      obtain ⟨below, rest⟩ := List.pairwise_cons.mp ordered
      cases k with
      | zero => simp [dues, mem_due]
      | succ k =>
          rw [dues, List.getD_cons_succ, List.getD_cons_succ,
            ih rest (Nat.lt_of_succ_lt_succ bound)]
          have le := below level List.mem_cons_self
          constructor
          · rintro ⟨mem, above, reached, before⟩
            refine ⟨mem, by omega, reached, ?_⟩
            intro j lt
            cases j with
            | zero => exact above
            | succ j => exact before j (Nat.lt_of_succ_lt_succ lt)
          · rintro ⟨mem, above, reached, before⟩
            refine ⟨mem, before 0 (Nat.succ_pos k), reached, ?_⟩
            intro j lt
            exact before (j + 1) (Nat.succ_lt_succ lt)

/-- **Init hooks run once and in order**: for levels that do not decrease, the runs terminate, and
the hooks they call are the stable sort by level of those up to the last level, none of them twice,
and each in the first run that reaches its level. -/
theorem fwInitRuns_stableSort (table : List (FwInitHook η))
    (positive : ∀ hook ∈ table, 1 ≤ hook.level) (levels : List Nat)
    (ordered : levels.Pairwise (· ≤ ·)) (fuel : Nat) (enough : table.length < fuel) :
    ∃ calls, fwInitRuns fuel table levels 0 = .ok calls ∧ calls.length = levels.length ∧
      calls.flatten =
        sort (·.level) ((pointers table).filter fun p => p.level ≤ levels.getLastD 0) ∧
      (calls.flatten.map (·.addr)).Nodup ∧
      ∀ k < levels.length, ∀ p, p ∈ calls.getD k [] ↔ p ∈ pointers table ∧
        p.level ≤ levels.getD k 0 ∧ ∀ j < k, levels.getD j 0 < p.level := by
  have fromZero : (0 :: levels).Pairwise (· ≤ ·) :=
    .cons (fun level _ => Nat.zero_le level) ordered
  have above : ∀ p ∈ pointers table, 0 < p.level := fun p mem => positive _ (mem_pointersFrom mem)
  have flat : (dues table levels 0).flatten = due table 0 _ := flatten_dues fromZero
  refine ⟨dues table levels 0, fwInitRuns_eq enough, length_dues, ?_, ?_, ?_⟩
  · rw [flat, due, List.getLast_eq_getLastD]
    congr 1
    apply List.filter_congr
    intro p mem
    simp [above p mem]
  · rw [flat, due, sort, ((List.mergeSort_perm _ _).map _).nodup_iff, List.Nodup,
      List.pairwise_map]
    exact ((pointersFrom_increasing 0 table).filter _).imp Nat.ne_of_lt
  · intro k bound p
    rw [mem_dues fromZero bound]
    constructor
    · rintro ⟨mem, -, rest⟩
      exact ⟨mem, rest⟩
    · rintro ⟨mem, rest⟩
      exact ⟨mem, above p mem, rest⟩

end Run

/-- Levels of a table in no order, with ties and gaps. -/
def someTable : List (FwInitHook Char) :=
  [⟨5, 'a'⟩, ⟨1, 'b'⟩, ⟨5, 'c'⟩, ⟨3, 'd'⟩, ⟨1, 'e'⟩, ⟨9, 'f'⟩]

theorem fwInitRuns_stableSort_some :
    ∃ calls, fwInitRuns 7 someTable [1, 4, 4, 8] 0 = .ok calls ∧
      calls.flatten = sort (·.level) ((pointers someTable).filter fun p => p.level ≤ 8) ∧
      calls.map (·.map (·.hook)) = [['b', 'e'], ['d'], [], ['a', 'c']] := by
  obtain ⟨calls, run, -, flat, -⟩ := fwInitRuns_stableSort someTable (by decide) [1, 4, 4, 8]
    (by decide) 7 (by decide)
  have trace : ((fwInitRuns 7 someTable [1, 4, 4, 8] 0).map fun calls =>
      calls.map (·.map (·.hook))) = .ok [['b', 'e'], ['d'], [], ['a', 'c']] := by
    decide +kernel
  rw [run] at trace
  exact ⟨calls, run, flat, Except.ok.inj trace⟩

end TheFirmware.Init
