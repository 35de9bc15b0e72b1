import TheFirmware.Core.Timer
import Mathlib.Data.List.Sort

/-!
# The queue of a managed timer

The list of a managed timer stores differences. `decode` turns it into absolute deadlines, the sums
of the times that remain up to each timeout. On deadlines `timer_managed_insert` is the insertion
into a sorted list, and `timer_managed_cancel` takes out the first match: every other deadline
stays, although both change the time that remains of a neighbour.

The theorems about the functions come in two parts: what a call that returns has done (`_inv`),
and when a call returns (`_returns`), which is a matter of the `int32_t` range only.
-/

namespace TheFirmware.TimerQueue

variable {α η κ : Type}

/-- A timeout of the reference queue. -/
structure Deadline (η κ : Type) : Type where
  deadline : Int
  resetTime : Int
  handler : η
  context : κ
  deriving DecidableEq, Repr

/-- The timeout `a`, to which `base` has passed when the timeout in front of it expires. -/
def deadlineAt (t : Timer α η κ) (base : Int) (a : α) : Deadline η κ :=
  ⟨base + (t.timeout a).remaining, (t.timeout a).resetTime, (t.timeout a).handler,
    (t.timeout a).context⟩

/-- The absolute deadlines of the timeouts `L`. -/
def decode (t : Timer α η κ) : Int → List α → List (Deadline η κ)
  | _, [] => []
  | base, a :: L => deadlineAt t base a :: decode t (base + (t.timeout a).remaining) L

/-- The time until the last of the timeouts `L` expires. -/
def span (t : Timer α η κ) : List α → Int
  | [] => 0
  | a :: L => (t.timeout a).remaining + span t L

/-- The order in which the reference queue is kept. -/
def Sooner (d d' : Deadline η κ) : Prop := d.deadline ≤ d'.deadline

instance : DecidableRel (Sooner : Deadline η κ → Deadline η κ → Prop) :=
  fun _ _ => inferInstanceAs (Decidable (_ ≤ _))

/-- The hardware after `timer_managed_recalculate`, given the time that remains of the first
timeout. -/
def rearm (h : Hardware) : Option Int → Hardware
  | some time => { h with setAt := h.now, time, enabled := true }
  | none => { h with enabled := false }

/-- Only the time that remains may have changed. -/
def SameTimeout (x y : Timeout η κ) : Prop :=
  y.resetTime = x.resetTime ∧ y.handler = x.handler ∧ y.context = x.context

section Decode

variable {t t' : Timer α η κ} {base : Int} {a b x : α} {A B L : List α}

theorem decode_congr (same : ∀ a ∈ L, t'.timeout a = t.timeout a) :
    decode t' base L = decode t base L := by
  induction L generalizing base with
  | nil => rfl
  | cons a L ih =>
      have first := same a List.mem_cons_self
      simp only [decode, deadlineAt, first]
      rw [ih fun b mem => same b (List.mem_cons_of_mem a mem)]

theorem decode_append :
    decode t base (A ++ B) = decode t base A ++ decode t (base + span t A) B := by
  induction A generalizing base with
  | nil => simp [decode, span]
  | cons a A ih =>
      simp only [List.cons_append, decode, span]
      rw [ih, Int.add_assoc]

theorem span_append : span t (A ++ B) = span t A + span t B := by
  induction A with
  | nil => simp [span]
  | cons a A ih =>
      simp only [List.cons_append, span, ih]
      omega

theorem span_congr (same : ∀ a ∈ L, t'.timeout a = t.timeout a) : span t' L = span t L := by
  induction L with
  | nil => rfl
  | cons a L ih =>
      simp only [span, same a List.mem_cons_self]
      rw [ih fun b mem => same b (List.mem_cons_of_mem a mem)]

theorem SameTimeout.refl (x : Timeout η κ) : SameTimeout x x := ⟨rfl, rfl, rfl⟩

theorem SameTimeout.trans {x y z : Timeout η κ} (first : SameTimeout x y)
    (second : SameTimeout y z) : SameTimeout x z :=
  ⟨second.1.trans first.1, second.2.1.trans first.2.1, second.2.2.trans first.2.2⟩

/-- Moving the time a timeout starts to count, and what remains of it, by the same amount. -/
theorem deadlineAt_eq (same : SameTimeout (t.timeout a) (t'.timeout a)) {base' : Int}
    (sum : base' + (t'.timeout a).remaining = base + (t.timeout a).remaining) :
    deadlineAt t' base' a = deadlineAt t base a := by
  simp only [deadlineAt, sum, same.1, same.2.1, same.2.2]

theorem timerManagedRecalculate_inv (rep : Represents t.managedTimeouts L)
    (run : timerManagedRecalculate t = .ok t') :
    t' = { t with hardware := rearm t.hardware (L.head?.map fun a => (t.timeout a).remaining) } ∧
      ∀ a, L.head? = some a → 0 < (t.timeout a).remaining := by
  rw [timerManagedRecalculate, listFirst_eq rep] at run
  cases L with
  | nil =>
      cases run
      exact ⟨rfl, by simp⟩
  | cons a L =>
      simp only [List.head?_cons, timerSet] at run
      rw [Except.bind_eq_ok] at run
      obtain ⟨⟨⟩, checked, run⟩ := run
      have positive := assert_eq_ok.mp checked
      cases run
      refine ⟨rfl, ?_⟩
      intro b head
      cases head
      exact positive

theorem timerManagedRecalculate_returns (rep : Represents t.managedTimeouts L)
    (positive : ∀ a, L.head? = some a → 0 < (t.timeout a).remaining) :
    ∃ t', timerManagedRecalculate t = .ok t' := by
  rw [timerManagedRecalculate, listFirst_eq rep]
  cases L with
  | nil => exact ⟨_, rfl⟩
  | cons a L =>
      simp only [List.head?_cons, timerSet]
      rw [assert_pos (positive a rfl)]
      exact ⟨_, rfl⟩

end Decode

variable [DecidableEq α]

theorem sameTimeout_setRemaining (t : Timer α η κ) (x a : α) (remaining : Int) :
    SameTimeout (t.timeout a) ((t.setRemaining x remaining).timeout a) := by
  by_cases same : a = x
  · subst same
    rw [setRemaining_timeout_self]
    exact ⟨rfl, rfl, rfl⟩
  · rw [setRemaining_timeout_of_ne same]
    exact .refl _

/-! ## Inserting -/

/-- `x` has come between `A` and `B`, in order of the deadlines. Times and deadlines count from the
beginning of `A`. -/
structure Between (t t' : Timer α η κ) (x : α) (A B : List α) : Prop where
  decode : ∀ base, decode t' base (A ++ x :: B) =
    (decode t base (A ++ B)).orderedInsert Sooner (deadlineAt t base x)
  same : ∀ a, SameTimeout (t.timeout a) (t'.timeout a)
  others : ∀ a, a ≠ x → B.head? ≠ some a → t'.timeout a = t.timeout a
  remaining : (t'.timeout x).remaining = (t.timeout x).remaining - span t A
  passed : ∀ a, A.head? = some a → (t.timeout a).remaining < (t.timeout x).remaining
  next : ∀ b, B.head? = some b →
    (t'.timeout b).remaining = (t.timeout b).remaining - (t'.timeout x).remaining
  managed : t'.managed = t.managed

/-- `x` has been inserted between `A` and `B`. -/
structure Inserted (t t' : Timer α η κ) (x : α) (A B : List α) : Prop extends
    Between t t' x A B where
  queue : Represents t'.managedTimeouts (A ++ x :: B)
  hardware : t'.hardware =
    if A = [] then rearm t.hardware (some (t'.timeout x).remaining) else t.hardware

/-- `x` has been inserted between `A` and `B` by the loop, which had passed `P` before. -/
structure InsertedAfter (t t' : Timer α η κ) (x : α) (P A B : List α) : Prop extends
    Between t t' x A B where
  queue : Represents t'.managedTimeouts (P ++ (A ++ x :: B))
  hardware : t'.hardware =
    if P ++ A = [] then rearm t.hardware (some (t'.timeout x).remaining) else t.hardware

section Insert

variable {t t' : Timer α η κ} {base : Int} {a e x : α} {A B P L : List α} {fuel : Nat}

/-- The deadlines when `x` is put in front of `e`, from which the time that remains of `x` is
taken off. -/
theorem decode_insert_before {t₁ : Timer α η κ}
    (here : (t.timeout x).remaining ≤ (t.timeout e).remaining) (ne : e ≠ x) (notMem : e ∉ B)
    (timeouts : t₁.timeout = t.timeout) :
    decode (t₁.setRemaining e ((t₁.timeout e).remaining - (t₁.timeout x).remaining)) base
        (x :: e :: B) =
      (decode t base (e :: B)).orderedInsert Sooner (deadlineAt t base x) := by
  have sooner : Sooner (deadlineAt t base x) (deadlineAt t base e) := by
    simp only [Sooner, deadlineAt]
    omega
  have same : ∀ a, SameTimeout (t.timeout a) ((t₁.setRemaining e
      ((t₁.timeout e).remaining - (t₁.timeout x).remaining)).timeout a) := by
    intro a
    rw [← timeouts]
    exact sameTimeout_setRemaining t₁ e a _
  simp only [decode]
  rw [List.orderedInsert_cons, if_pos sooner]
  congr 1
  · exact deadlineAt_eq (same x) (by simp [ne.symm, timeouts])
  · congr 1
    · exact deadlineAt_eq (same e) (by simp [ne.symm, timeouts])
    · rw [decode_congr (t := t)]
      · simp [ne.symm, timeouts]
      · intro b mem
        rw [setRemaining_timeout_of_ne, timeouts]
        exact fun same => notMem (same ▸ mem)

/-- `x` is put in front of `e`. When `e` is the first entry, `x` comes last in the list until it is
rotated, and then the timer is set for it. -/
theorem timerManagedInsertAt_inv {t₁ : Timer α η κ}
    (rep : Represents t.managedTimeouts (A ++ e :: B)) (fresh : x ∉ A ++ e :: B)
    (run : timerManagedInsertAt x e t = .ok t₁) :
    Represents t₁.managedTimeouts (A ++ x :: e :: B) ∧ t₁.timeout = t.timeout ∧
      t₁.managed = t.managed ∧ t₁.hardware =
        if A = [] then rearm t.hardware (some (t.timeout x).remaining) else t.hardware := by
  rw [timerManagedInsertAt] at run
  cases A with
  | nil =>
      have first : some e = listFirst t.managedTimeouts := (listFirst_eq rep).symm
      obtain ⟨managedTimeouts, ran, rep', -⟩ := listInsertBefore_first rep fresh
      rw [ran, Except.ok_bind, if_pos first] at run
      have rotated : Represents (listRrotate managedTimeouts) (x :: e :: B) :=
        listRrotate_represents rep'
      obtain ⟨rfl, -⟩ := timerManagedRecalculate_inv (L := x :: e :: B) rotated run
      exact ⟨rotated, rfl, rfl, rfl⟩
  | cons a A =>
      obtain ⟨managedTimeouts, ran, rep', -⟩ := listInsertBefore_represents rep fresh
      rw [ran, Except.ok_bind, if_neg rep.notFirst] at run
      cases run
      exact ⟨rep', rfl, rfl, rfl⟩

theorem timerManagedInsertAt_returns (rep : Represents t.managedTimeouts (A ++ e :: B))
    (fresh : x ∉ A ++ e :: B) (positive : 0 < (t.timeout x).remaining) :
    ∃ t₁, timerManagedInsertAt x e t = .ok t₁ := by
  rw [timerManagedInsertAt]
  cases A with
  | nil =>
      have first : some e = listFirst t.managedTimeouts := (listFirst_eq rep).symm
      obtain ⟨managedTimeouts, ran, rep', -⟩ := listInsertBefore_first rep fresh
      rw [ran, Except.ok_bind, if_pos first]
      have rotated : Represents (listRrotate managedTimeouts) (x :: e :: B) :=
        listRrotate_represents rep'
      apply timerManagedRecalculate_returns (L := x :: e :: B) rotated
      intro a head
      cases head
      exact positive
  | cons a A =>
      obtain ⟨managedTimeouts, ran, -, -⟩ := listInsertBefore_represents rep fresh
      rw [ran, Except.ok_bind, if_neg rep.notFirst]
      exact ⟨_, rfl⟩

omit [DecidableEq α] in
/-- The only timeout of a list, and the one behind all others. -/
theorem between_last (same : t'.timeout = t.timeout) (managed : t'.managed = t.managed) :
    Between t t' x [] [] := by
  constructor
  case decode =>
    intro base
    exact decode_congr fun a _ => congrFun same a
  case same =>
    intro a
    rw [same]
    exact .refl _
  case others => exact fun a _ _ => congrFun same a
  case remaining => simp [span, same]
  case passed => simp
  case next => simp
  case managed => exact managed

/-- `x` is put in front of `e`, which expires no sooner. -/
theorem between_before {t₁ : Timer α η κ}
    (here : (t.timeout x).remaining ≤ (t.timeout e).remaining) (ne : e ≠ x) (notMem : e ∉ B)
    (timeouts : t₁.timeout = t.timeout) (managed : t₁.managed = t.managed) :
    Between t (t₁.setRemaining e ((t₁.timeout e).remaining - (t₁.timeout x).remaining)) x []
      (e :: B) := by
  constructor
  case decode =>
    intro base
    exact decode_insert_before here ne notMem timeouts
  case same =>
    intro a
    rw [← timeouts]
    exact sameTimeout_setRemaining t₁ e a _
  case others =>
    intro b _ notNext
    rw [setRemaining_timeout_of_ne, timeouts]
    rintro rfl
    exact notNext rfl
  case remaining =>
    rw [setRemaining_timeout_of_ne ne.symm, timeouts]
    simp [span]
  case passed => simp
  case next =>
    intro b head
    cases head
    rw [setRemaining_timeout_self, setRemaining_timeout_of_ne ne.symm, timeouts]
  case managed => exact managed

/-- Passing `e` takes the time that remains of `e` off that of `x`, so that the deadline of `x`
stays. -/
theorem decode_past (later : (t.timeout e).remaining < (t.timeout x).remaining)
    (kept : t'.timeout e = t.timeout e) (fresh : x ∉ A ++ B)
    (decoded : ∀ base, decode t' base (A ++ x :: B) =
      (decode (t.setRemaining x ((t.timeout x).remaining - (t.timeout e).remaining)) base
        (A ++ B)).orderedInsert Sooner
        (deadlineAt (t.setRemaining x ((t.timeout x).remaining - (t.timeout e).remaining)) base
          x)) :
    decode t' base (e :: A ++ x :: B) =
      (decode t base (e :: A ++ B)).orderedInsert Sooner (deadlineAt t base x) := by
  have notSooner : ¬ Sooner (deadlineAt t base x) (deadlineAt t base e) := by
    simp only [Sooner, deadlineAt]
    omega
  simp only [List.cons_append, decode]
  rw [List.orderedInsert_cons, if_neg notSooner, decoded, kept]
  congr 1
  · exact deadlineAt_eq (kept ▸ .refl _) (by rw [kept])
  · congr 1
    · refine deadlineAt_eq (sameTimeout_setRemaining t x x _) ?_
      rw [setRemaining_timeout_self]
      simp only
      omega
    · apply decode_congr
      intro b mem
      exact setRemaining_timeout_of_ne fun same => fresh (same ▸ mem)

/-- When `e` has been passed, `x` comes further down. -/
theorem Between.past (later : (t.timeout e).remaining < (t.timeout x).remaining)
    (ne : e ≠ x) (fresh : x ∉ A ++ B) (notMem : e ∉ A ++ B)
    (between : Between
      (t.setRemaining x ((t.timeout x).remaining - (t.timeout e).remaining)) t' x A B) :
    Between t t' x (e :: A) B := by
  have notX : ∀ {b}, b ∈ A ++ B → b ≠ x := fun mem eq => fresh (eq ▸ mem)
  constructor
  case decode =>
    intro base
    refine decode_past later ?_ fresh between.decode
    rw [between.others e ne, setRemaining_timeout_of_ne ne]
    exact fun head => notMem (List.mem_append_right A (List.mem_of_head? head))
  case same => exact fun a => (sameTimeout_setRemaining t x a _).trans (between.same a)
  case others =>
    intro a ne notNext
    rw [between.others a ne notNext, setRemaining_timeout_of_ne ne]
  case remaining =>
    rw [between.remaining, setRemaining_timeout_self, span_congr (t := t)]
    · simp only [span]
      omega
    · intro b mem
      exact setRemaining_timeout_of_ne (notX (List.mem_append_left B mem))
  case passed =>
    intro b head
    cases head
    exact later
  case next =>
    intro b head
    rw [between.next b head, setRemaining_timeout_of_ne]
    exact notX (List.mem_append_right A (List.mem_of_head? head))
  case managed => exact between.managed

/-- The loop of `timer_managed_insert`: the entries `P` have been passed, and `L` is still to
come. -/
theorem insertLoop_inv (rep : Represents t.managedTimeouts (P ++ L)) (nonempty : P ++ L ≠ [])
    (unlinked : t.managedTimeouts.Unlinked x)
    (run : timerManagedInsertLoop x fuel L.head? t = .ok t') :
    ∃ A B, L = A ++ B ∧ InsertedAfter t t' x P A B := by
  induction L generalizing P t fuel with
  | nil =>
      cases fuel with
      | zero => cases run
      | succ fuel =>
          obtain ⟨managedTimeouts, appended, rep', -⟩ := listAppend_represents rep unlinked
          simp only [List.head?_nil, timerManagedInsertLoop] at run
          rw [appended, Except.ok_bind] at run
          cases run
          rw [List.append_nil] at rep'
          exact ⟨[], [], rfl, between_last rfl rfl, rep', (if_neg nonempty).symm⟩
  | cons e L ih =>
      cases fuel with
      | zero => cases run
      | succ fuel =>
          have fresh := rep.notMem_of_unlinked unlinked
          obtain ⟨ne, freshL⟩ : e ≠ x ∧ x ∉ L := by
            rw [List.mem_append, List.mem_cons, not_or, not_or] at fresh
            exact ⟨Ne.symm fresh.2.1, fresh.2.2⟩
          have notMem : e ∉ L := by
            have nodup := rep.ring.nodup
            rw [List.nodup_append, List.nodup_cons] at nodup
            exact nodup.2.1.1
          simp only [List.head?_cons, timerManagedInsertLoop] at run
          by_cases here : (t.timeout x).remaining ≤ (t.timeout e).remaining
          · rw [if_pos here, Except.bind_eq_ok] at run
            obtain ⟨t₁, inserted, run⟩ := run
            obtain ⟨rep', timeouts, managed, hardware⟩ :=
              timerManagedInsertAt_inv rep fresh inserted
            rw [Except.bind_eq_ok] at run
            obtain ⟨remaining, checked, run⟩ := run
            rw [int32_eq_ok] at checked
            obtain ⟨-, rfl⟩ := checked
            cases run
            refine ⟨[], e :: L, rfl, between_before here ne notMem timeouts managed, rep', ?_⟩
            rw [List.append_nil, setRemaining_timeout_of_ne ne.symm, timeouts]
            exact hardware
          · rw [if_neg here, Except.bind_eq_ok] at run
            obtain ⟨remaining, checked, run⟩ := run
            rw [int32_eq_ok] at checked
            obtain ⟨-, rfl⟩ := checked
            rw [setRemaining_managedTimeouts, listNext_eq rep] at run
            have rep' : Represents (t.setRemaining x ((t.timeout x).remaining -
                (t.timeout e).remaining)).managedTimeouts (P ++ [e] ++ L) := by
              rw [List.append_assoc]
              exact rep
            obtain ⟨A, B, rfl, inserted⟩ := ih rep' (by simp) unlinked run
            refine ⟨e :: A, B, rfl,
              inserted.toBetween.past (Int.not_le.mp here) ne freshL notMem, ?_, ?_⟩
            · have queue := inserted.queue
              rwa [List.append_assoc] at queue
            · rw [inserted.hardware, if_neg (by simp), if_neg (by simp)]
              rfl

/-- The loop of `timer_managed_insert` returns when no difference can overflow. -/
theorem insertLoop_returns (rep : Represents t.managedTimeouts (A ++ B))
    (unlinked : t.managedTimeouts.Unlinked x) (enough : B.length < fuel)
    (range : 0 < (t.timeout x).remaining ∧ (t.timeout x).remaining ≤ 2147483647)
    (ranges : ∀ b ∈ B, 0 ≤ (t.timeout b).remaining ∧ (t.timeout b).remaining ≤ 2147483647) :
    ∃ t', timerManagedInsertLoop x fuel B.head? t = .ok t' := by
  induction B generalizing A t fuel with
  | nil =>
      cases fuel with
      | zero => cases enough
      | succ fuel =>
          obtain ⟨managedTimeouts, appended, -, -⟩ := listAppend_represents rep unlinked
          simp only [List.head?_nil, timerManagedInsertLoop]
          rw [appended]
          exact ⟨_, rfl⟩
  | cons e B ih =>
      cases fuel with
      | zero => cases enough
      | succ fuel =>
          have fresh := rep.notMem_of_unlinked unlinked
          have rangeE := ranges e List.mem_cons_self
          simp only [List.head?_cons, timerManagedInsertLoop]
          by_cases here : (t.timeout x).remaining ≤ (t.timeout e).remaining
          · obtain ⟨t₁, inserted⟩ := timerManagedInsertAt_returns rep fresh range.1
            obtain ⟨-, timeouts, -, -⟩ := timerManagedInsertAt_inv rep fresh inserted
            have fits : Int32Range ((t₁.timeout e).remaining - (t₁.timeout x).remaining) := by
              rw [timeouts]
              constructor
              · omega
              · omega
            rw [if_pos here, inserted, Except.ok_bind, int32_of_range fits]
            exact ⟨_, rfl⟩
          · have fits : Int32Range ((t.timeout x).remaining - (t.timeout e).remaining) := by
              constructor
              · omega
              · omega
            rw [if_neg here, int32_of_range fits, Except.ok_bind, setRemaining_managedTimeouts,
              listNext_eq rep]
            have rep' : Represents (t.setRemaining x ((t.timeout x).remaining -
                (t.timeout e).remaining)).managedTimeouts (A ++ [e] ++ B) := by
              rw [List.append_assoc]
              exact rep
            refine ih rep' unlinked (Nat.lt_of_succ_lt_succ enough) ?_ ?_
            · rw [setRemaining_timeout_self]
              simp only
              omega
            · intro b mem
              have ne : b ≠ x := by
                rintro rfl
                exact fresh (by simp [mem])
              rw [setRemaining_timeout_of_ne ne]
              exact ranges b (List.mem_cons_of_mem e mem)

/-- What `timer_managed_insert` has done when it returns. -/
theorem timerManagedInsert_inv (rep : Represents t.managedTimeouts L)
    (unlinked : t.managedTimeouts.Unlinked x) (run : timerManagedInsert fuel x t = .ok t') :
    ∃ A B, L = A ++ B ∧ Inserted t t' x A B := by
  rw [timerManagedInsert] at run
  by_cases empty : L = []
  · subst empty
    obtain ⟨managedTimeouts, appended, rep', -⟩ := listAppend_represents rep unlinked
    rw [if_pos ((listIsEmpty_iff rep).mpr rfl), appended, Except.ok_bind] at run
    obtain ⟨rfl, -⟩ := timerManagedRecalculate_inv (L := [x]) rep' run
    exact ⟨[], [], rfl, between_last rfl rfl, rep', rfl⟩
  · rw [if_neg fun full => empty ((listIsEmpty_iff rep).mp full)] at run
    simp only [timerManagedUpdateFirst] at run
    rw [listFirst_eq rep] at run
    obtain ⟨A, B, rfl, inserted⟩ := insertLoop_inv (P := []) rep empty unlinked run
    exact ⟨A, B, rfl, inserted.toBetween, inserted.queue, inserted.hardware⟩

theorem timerManagedInsert_returns (rep : Represents t.managedTimeouts L)
    (unlinked : t.managedTimeouts.Unlinked x) (enough : L.length < fuel)
    (range : 0 < (t.timeout x).remaining ∧ (t.timeout x).remaining ≤ 2147483647)
    (ranges : ∀ b ∈ L, 0 ≤ (t.timeout b).remaining ∧ (t.timeout b).remaining ≤ 2147483647) :
    ∃ t', timerManagedInsert fuel x t = .ok t' := by
  rw [timerManagedInsert]
  by_cases empty : L = []
  · subst empty
    obtain ⟨managedTimeouts, appended, rep', -⟩ := listAppend_represents rep unlinked
    rw [if_pos ((listIsEmpty_iff rep).mpr rfl), appended, Except.ok_bind]
    apply timerManagedRecalculate_returns (L := [x]) rep'
    intro a head
    cases head
    exact range.1
  · rw [if_neg fun full => empty ((listIsEmpty_iff rep).mp full)]
    simp only [timerManagedUpdateFirst]
    rw [listFirst_eq rep]
    exact insertLoop_returns (A := []) rep unlinked enough range ranges

/-- `timer_managed_schedule` inserts the timeout it has made. -/
theorem timerManagedSchedule_eq (fuel : Nat) {timeout : Int} (again : Bool) (handler : η)
    (context : κ) (rep : Represents t.managedTimeouts L) (managed : L ≠ [] → t.managed = true)
    (fresh : x ∉ L) (positive : 0 < timeout) :
    ∃ t₁ : Timer α η κ,
      timerManagedSchedule fuel x timeout again (some handler) context t =
        timerManagedInsert fuel x t₁ ∧
      Represents t₁.managedTimeouts L ∧ t₁.managedTimeouts.Unlinked x ∧
      t₁.timeout = Function.update t.timeout x
        ⟨timeout, if again then timeout else 0, handler, context⟩ ∧
      t₁.managed = true ∧ t₁.hardware = t.hardware := by
  have cleared : ∀ {list : ListT α}, Represents list L → Represents (listEntryInit list x) L := by
    intro list rep
    refine rep.congr (fun a mem => listEntryInit_keeps list x a ?_) rfl
    rw [List.mem_singleton]
    exact fun same => fresh (same ▸ mem)
  simp only [timerManagedSchedule]
  rw [assert_pos positive, Except.ok_bind, assert_pos (by rfl), Except.ok_bind, deref_some,
    Except.ok_bind]
  cases isManaged : t.managed with
  | true =>
      rw [if_neg (by simp), pure_bind]
      exact ⟨_, rfl, cleared rep, listEntryInit_unlinked _ x, rfl, isManaged, rfl⟩
  | false =>
      have empty : L = [] := by
        by_contra nonempty
        rw [managed nonempty] at isManaged
        cases isManaged
      rw [if_pos rfl, timerSetManagedhandler, assert_pos (by rfl), Except.ok_bind, pure_bind]
      refine ⟨_, rfl, cleared ?_, listEntryInit_unlinked _ x, rfl, rfl, rfl⟩
      rw [empty]
      exact listInit_represents _

/-- What `timer_managed_schedule` has done when it returns. -/
theorem timerManagedSchedule_inv {timeout : Int} {again : Bool} {handler : η} {context : κ}
    (rep : Represents t.managedTimeouts L) (managed : L ≠ [] → t.managed = true) (fresh : x ∉ L)
    (run : timerManagedSchedule fuel x timeout again (some handler) context t = .ok t') :
    0 < timeout ∧ ∃ (t₁ : Timer α η κ) (A B : List α), L = A ++ B ∧ Inserted t₁ t' x A B ∧
      t₁.timeout = Function.update t.timeout x
        ⟨timeout, if again then timeout else 0, handler, context⟩ ∧
      t'.managed = true ∧ t₁.hardware = t.hardware := by
  have positive : 0 < timeout := by
    simp only [timerManagedSchedule] at run
    rw [Except.bind_eq_ok] at run
    obtain ⟨⟨⟩, checked, -⟩ := run
    exact assert_eq_ok.mp checked
  obtain ⟨t₁, prepared, rep, unlinked, timeouts, managed, hardware⟩ :=
    timerManagedSchedule_eq fuel again handler context rep managed fresh positive
  rw [prepared] at run
  obtain ⟨A, B, split, inserted⟩ := timerManagedInsert_inv rep unlinked run
  exact ⟨positive, t₁, A, B, split, inserted, timeouts, inserted.managed.trans managed, hardware⟩

/-- What the loop body of `timer_managedhandler` has done to the list: the first timeout is gone,
or inserted again when it repeats. -/
theorem timerManagedhandlerExpire_inv (rep : Represents t.managedTimeouts (e :: L))
    (run : timerManagedhandlerExpire fuel e t = .ok t') :
    ((t.timeout e).resetTime ≤ 0 ∧ Represents t'.managedTimeouts L ∧ t'.timeout = t.timeout ∧
        t'.managed = t.managed ∧ t'.hardware = t.hardware) ∨
      ∃ (t₁ : Timer α η κ) (A B : List α), 0 < (t.timeout e).resetTime ∧ L = A ++ B ∧
        Inserted t₁ t' e A B ∧ t₁.managed = t.managed ∧ t₁.hardware = t.hardware ∧
        t₁.timeout = Function.update t.timeout e
          { t.timeout e with remaining := (t.timeout e).resetTime } := by
  have deleted : Represents (listDelete t.managedTimeouts e) L := listDelete_append (A := []) rep
  simp only [timerManagedhandlerExpire] at run
  split at run
  · next repeats =>
      right
      obtain ⟨A, B, split, inserted⟩ := timerManagedInsert_inv (t := Timer.setRemaining
        { t with managedTimeouts := listDelete t.managedTimeouts e } e (t.timeout e).resetTime)
        deleted (listDelete_unlinked rep List.mem_cons_self) run
      exact ⟨_, A, B, repeats, split, inserted, rfl, rfl, rfl⟩
  · next once =>
      left
      cases run
      exact ⟨Int.not_lt.mp once, deleted, rfl, rfl, rfl⟩

omit [DecidableEq α] in
/-- The first timeout stays as it is when another one is inserted behind it. -/
theorem Inserted.timeout_head (inserted : Inserted t t' x A B) (head : A.head? = some a) :
    t'.timeout a = t.timeout a := by
  have nodup := inserted.queue.ring.nodup
  have mem := List.mem_of_head? head
  rw [List.nodup_append] at nodup
  obtain ⟨-, -, apart⟩ := nodup
  apply inserted.others
  · exact apart a mem x List.mem_cons_self
  · intro next
    exact apart a mem a (List.mem_cons_of_mem x (List.mem_of_head? next)) rfl

end Insert

/-! ## Cancelling -/

/-- The timeout `e` has been taken out from between `A` and `B`. -/
structure Cancelled (t t' : Timer α η κ) (e : α) (A B : List α) : Prop where
  queue : Represents t'.managedTimeouts (A ++ B)
  decode : ∀ base, decode t' base (A ++ B) =
    decode t base A ++ decode t (base + span t A + (t.timeout e).remaining) B
  same : ∀ a, SameTimeout (t.timeout a) (t'.timeout a)
  others : ∀ a, B.head? ≠ some a → t'.timeout a = t.timeout a
  next : ∀ b, B.head? = some b →
    (t'.timeout b).remaining = (t.timeout b).remaining + (t.timeout e).remaining
  managed : t'.managed = t.managed
  hardware : t'.hardware =
    if A = [] then rearm t.hardware (B.head?.map fun b => (t'.timeout b).remaining) else t.hardware

section Cancel

variable {t t' : Timer α η κ} {base : Int} {a b e x : α} {A B L : List α} {fuel : Nat}

/-- The timer when the first of the timeouts `B` has got the time that remains of `e`. -/
def compensate (t : Timer α η κ) (e : α) : List α → Timer α η κ
  | [] => t
  | b :: _ => t.setRemaining b ((t.timeout b).remaining + (t.timeout e).remaining)

/-- The timeout behind `e` gets the time that remains of `e`. -/
theorem timerManagedCancelNext_inv (rep : Represents t.managedTimeouts (A ++ e :: B))
    (run : timerManagedCancelNext e t = .ok t') :
    t' = compensate t e B := by
  rw [timerManagedCancelNext, listNext_eq rep] at run
  cases B with
  | nil =>
      cases run
      rfl
  | cons b B =>
      simp only [List.head?_cons] at run
      rw [Except.bind_eq_ok] at run
      obtain ⟨remaining, checked, run⟩ := run
      rw [int32_eq_ok] at checked
      obtain ⟨-, rfl⟩ := checked
      cases run
      rfl

/-- The deadlines behind `e` stay when the next timeout gets the time that remains of `e`. -/
theorem decode_compensate (nodup : B.Nodup) :
    decode (compensate t e B) base B = decode t (base + (t.timeout e).remaining) B := by
  cases B with
  | nil => rfl
  | cons b B =>
      have sum : base + ((t.setRemaining b ((t.timeout b).remaining +
          (t.timeout e).remaining)).timeout b).remaining =
          base + (t.timeout e).remaining + (t.timeout b).remaining := by
        rw [setRemaining_timeout_self]
        simp only
        omega
      simp only [decode, compensate]
      rw [deadlineAt_eq (sameTimeout_setRemaining t b b _) sum, sum]
      congr 1
      apply decode_congr
      intro c mem
      rw [setRemaining_timeout_of_ne]
      exact fun same => (List.nodup_cons.mp nodup).1 (same ▸ mem)

theorem compensate_frame (t : Timer α η κ) (e : α) (B : List α) :
    (compensate t e B).managedTimeouts = t.managedTimeouts ∧
      (compensate t e B).managed = t.managed ∧
      (compensate t e B).hardware = t.hardware := by
  cases B with
  | nil => exact ⟨rfl, rfl, rfl⟩
  | cons b B => exact ⟨rfl, rfl, rfl⟩

theorem sameTimeout_compensate (t : Timer α η κ) (e : α) (B : List α) (a : α) :
    SameTimeout (t.timeout a) ((compensate t e B).timeout a) := by
  cases B with
  | nil => exact .refl _
  | cons b B => exact sameTimeout_setRemaining t b a _

theorem compensate_timeout_of_ne (ne : B.head? ≠ some a) :
    (compensate t e B).timeout a = t.timeout a := by
  cases B with
  | nil => rfl
  | cons b B =>
      apply setRemaining_timeout_of_ne
      rintro rfl
      exact ne rfl

theorem compensate_remaining (head : B.head? = some b) :
    ((compensate t e B).timeout b).remaining =
      (t.timeout b).remaining + (t.timeout e).remaining := by
  cases B with
  | nil => cases head
  | cons c B =>
      cases head
      rw [compensate, setRemaining_timeout_self]

/-- What cancelling an entry has done. -/
theorem timerManagedCancelEntry_inv (rep : Represents t.managedTimeouts (A ++ e :: B))
    (run : timerManagedCancelEntry e t = .ok t') : Cancelled t t' e A B := by
  have nodup := rep.ring.nodup
  rw [List.nodup_append, List.nodup_cons] at nodup
  obtain ⟨-, ⟨-, nodupB⟩, apart⟩ := nodup
  have deleted := listDelete_append rep
  simp only [timerManagedCancelEntry, timerManagedUpdateFirst, ite_self, decide_eq_true_eq] at run
  rw [Except.bind_eq_ok] at run
  obtain ⟨t₁, next, run⟩ := run
  obtain rfl := timerManagedCancelNext_inv rep next
  obtain ⟨list, managed, hardware⟩ := compensate_frame t e B
  have same := sameTimeout_compensate t e B
  have others : ∀ a, B.head? ≠ some a → (compensate t e B).timeout a = t.timeout a :=
    fun a => compensate_timeout_of_ne
  have next' : ∀ b, B.head? = some b → ((compensate t e B).timeout b).remaining =
      (t.timeout b).remaining + (t.timeout e).remaining :=
    fun b => compensate_remaining
  have decoded : ∀ base, decode (compensate t e B) base (A ++ B) =
      decode t base A ++ decode t (base + span t A + (t.timeout e).remaining) B := by
    intro base
    have keptA : ∀ a ∈ A, (compensate t e B).timeout a = t.timeout a := by
      intro a mem
      apply others
      intro head
      exact apart a mem a (List.mem_cons_of_mem e (List.mem_of_head? head)) rfl
    rw [decode_append, decode_congr keptA, span_congr keptA,
      decode_compensate nodupB]
  rw [list] at run
  split at run
  · next isFirst =>
      rw [rep.first_iff] at isFirst
      subst isFirst
      obtain ⟨rfl, -⟩ := timerManagedRecalculate_inv (L := B) deleted run
      refine ⟨deleted, fun base => ?_, same, others, next', managed, ?_⟩
      · rw [← decoded base]
        exact decode_congr fun _ _ => rfl
      · rw [if_pos rfl, ← hardware]
  · next notFirst =>
      rw [rep.first_iff] at notFirst
      cases run
      refine ⟨deleted, fun base => ?_, same, others, next', managed, ?_⟩
      · rw [← decoded base]
        exact decode_congr fun _ _ => rfl
      · rw [if_neg notFirst]
        exact hardware

/-- Cancelling an entry returns when the sum does not overflow, and the entry that becomes the first
one has time left. -/
theorem timerManagedCancelEntry_returns (rep : Represents t.managedTimeouts (A ++ e :: B))
    (fits : ∀ b, B.head? = some b →
      Int32Range ((t.timeout b).remaining + (t.timeout e).remaining))
    (positive : A = [] → ∀ b, B.head? = some b →
      0 < (t.timeout b).remaining + (t.timeout e).remaining) :
    ∃ t', timerManagedCancelEntry e t = .ok t' := by
  obtain ⟨t₁, next⟩ : ∃ t₁, timerManagedCancelNext e t = .ok t₁ := by
    rw [timerManagedCancelNext, listNext_eq rep]
    cases B with
    | nil => exact ⟨_, rfl⟩
    | cons b B =>
        simp only [List.head?_cons]
        rw [int32_of_range (fits b rfl)]
        exact ⟨_, rfl⟩
  obtain rfl := timerManagedCancelNext_inv rep next
  simp only [timerManagedCancelEntry, timerManagedUpdateFirst, ite_self, decide_eq_true_eq]
  rw [next, Except.ok_bind]
  split
  · next isFirst =>
      rw [rep.first_iff] at isFirst
      cases B with
      | nil => exact timerManagedRecalculate_returns (listDelete_append rep) (by simp [isFirst])
      | cons b B =>
          subst isFirst
          apply timerManagedRecalculate_returns (listDelete_append rep)
          intro a head
          cases head
          simpa [compensate] using positive rfl b rfl
  · exact ⟨_, rfl⟩

variable [DecidableEq η] [DecidableEq κ]

/-- The timeout is the one a call of `timer_managed_cancel` looks for. -/
def Matches (handler : η) (context : κ) (d : Deadline η κ) : Bool :=
  decide (d.handler = handler ∧ d.context = context)

/-- What `timer_managed_cancel` has done when it returns: it has taken out the first match, or
nothing when there is none. -/
theorem cancelLoop_inv {handler : η} {context : κ}
    (rep : Represents t.managedTimeouts (A ++ B))
    (run : timerManagedCancelLoop handler context fuel B.head? t = .ok t') :
    (t' = t ∧ ∀ b ∈ B, ¬ ((t.timeout b).handler = handler ∧ (t.timeout b).context = context)) ∨
      ∃ B₁ e B₂, B = B₁ ++ e :: B₂ ∧ Cancelled t t' e (A ++ B₁) B₂ ∧
        ((t.timeout e).handler = handler ∧ (t.timeout e).context = context) ∧
        ∀ b ∈ B₁, ¬ ((t.timeout b).handler = handler ∧ (t.timeout b).context = context) := by
  induction B generalizing A fuel with
  | nil =>
      cases fuel with
      | zero => cases run
      | succ fuel =>
          cases run
          exact .inl ⟨rfl, by simp⟩
  | cons e B ih =>
      cases fuel with
      | zero => cases run
      | succ fuel =>
          simp only [List.head?_cons, timerManagedCancelLoop] at run
          split at run
          · next found =>
              right
              refine ⟨[], e, B, rfl, ?_, found, by simp⟩
              rw [List.append_nil]
              exact timerManagedCancelEntry_inv rep run
          · next other =>
              rw [listNext_eq rep] at run
              have rep' : Represents t.managedTimeouts (A ++ [e] ++ B) := by
                rw [List.append_assoc]
                exact rep
              rcases ih rep' run with ⟨rfl, none⟩ | ⟨B₁, e', B₂, rfl, cancelled, found, none⟩
              · left
                refine ⟨rfl, ?_⟩
                intro b mem
                rcases List.mem_cons.mp mem with rfl | mem
                · exact other
                · exact none b mem
              · right
                refine ⟨e :: B₁, e', B₂, rfl, ?_, found, ?_⟩
                · rwa [List.append_assoc] at cancelled
                · intro b mem
                  rcases List.mem_cons.mp mem with rfl | mem
                  · exact other
                  · exact none b mem

/-- `timer_managed_cancel` returns when cancelling any entry of the list would. -/
theorem cancelLoop_returns {handler : η} {context : κ}
    (rep : Represents t.managedTimeouts (A ++ B)) (enough : B.length < fuel)
    (entries : ∀ B₁ e B₂, B = B₁ ++ e :: B₂ → ∃ t', timerManagedCancelEntry e t = .ok t') :
    ∃ t', timerManagedCancelLoop handler context fuel B.head? t = .ok t' := by
  induction B generalizing A fuel with
  | nil =>
      cases fuel with
      | zero => cases enough
      | succ fuel => exact ⟨t, rfl⟩
  | cons e B ih =>
      cases fuel with
      | zero => cases enough
      | succ fuel =>
          simp only [List.head?_cons, timerManagedCancelLoop]
          split
          · exact entries [] e B rfl
          · rw [listNext_eq rep]
            have rep' : Represents t.managedTimeouts (A ++ [e] ++ B) := by
              rw [List.append_assoc]
              exact rep
            apply ih rep' (Nat.lt_of_succ_lt_succ enough)
            rintro B₁ e' B₂ rfl
            exact entries (e :: B₁) e' B₂ rfl

/-- What `timer_managed_cancel` has done when it returns. -/
theorem timerManagedCancel_inv {handler : η} {context : κ} (rep : Represents t.managedTimeouts L)
    (run : timerManagedCancel fuel (some handler) context t = .ok t') :
    (t' = t ∧ ∀ b ∈ L, ¬ ((t.timeout b).handler = handler ∧ (t.timeout b).context = context)) ∨
      ∃ A e B, L = A ++ e :: B ∧ Cancelled t t' e A B ∧
        ((t.timeout e).handler = handler ∧ (t.timeout e).context = context) ∧
        ∀ b ∈ A, ¬ ((t.timeout b).handler = handler ∧ (t.timeout b).context = context) := by
  simp only [timerManagedCancel] at run
  rw [assert_pos (by rfl), Except.ok_bind, deref_some, Except.ok_bind, listFirst_eq rep] at run
  exact cancelLoop_inv (A := []) rep run

omit [DecidableEq α] [DecidableEq η] [DecidableEq κ] in
/-- The first timeout stays as it is when another one is cancelled. -/
theorem Cancelled.timeout_head (cancelled : Cancelled t t' e A B) (head : A.head? = some a) :
    t'.timeout a = t.timeout a := by
  have nodup := cancelled.queue.ring.nodup
  rw [List.nodup_append] at nodup
  apply cancelled.others
  intro next
  exact nodup.2.2 a (List.mem_of_head? head) a (List.mem_of_head? next) rfl

end Cancel

end TheFirmware.TimerQueue
