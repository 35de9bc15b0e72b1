import TheFirmware.Core.List

/-!
# Runs of calls on a list

A run initialises a list and entries of its pool, and then makes any calls of `list_append`,
`list_delete`, `list_insert_before`, `list_lrotate` and `list_rrotate` on entries that are unlinked
or in the list. Each call does to the list what `Call.apply` does to the sequence it represents, so
that after any run the links form a ring of exactly that sequence (`run_represents`), which
`list_foreach` visits.
-/

namespace TheFirmware

variable {α : Type}

/-- `list_last(list)`. -/
def listLast (list : ListT α) : Option α :=
  match list.head with
  | some first => list.prev first
  | none => none

/-- The loop of `list_foreach(pos, list)` from `pos` on; the value is what it visits. -/
def listForeachFrom [DecidableEq α] (list : ListT α) : Nat → Option α → Except Fault (List α)
  | _, none => .ok []
  | 0, some _ => .error .outOfFuel
  | fuel + 1, some pos => do
      let visited ← listForeachFrom list fuel (listNext list pos)
      return pos :: visited

/-- `list_foreach(pos, list)`. -/
def listForeach [DecidableEq α] (fuel : Nat) (list : ListT α) : Except Fault (List α) :=
  listForeachFrom list fuel list.head

namespace ListRun

/-- A call on a list. -/
inductive Call (α : Type) : Type
  | append (entry : α)
  | delete (entry : α)
  | insertBefore (entry new : α)
  | lrotate
  | rrotate

variable [DecidableEq α]

/-- What the call does to the list. -/
def Call.exec (list : ListT α) : Call α → Except Fault (ListT α)
  | .append entry => listAppend list entry
  | .delete entry => .ok (listDelete list entry)
  | .insertBefore entry new => listInsertBefore list entry new
  | .lrotate => .ok (listLrotate list)
  | .rrotate => .ok (listRrotate list)

/-- Put `new` in front of `entry`. -/
def placeBefore (entry new : α) : List α → List α
  | [] => []
  | a :: L => if a = entry then new :: a :: L else a :: placeBefore entry new L

/-- What the call does to a sequence. -/
def Call.apply (L : List α) : Call α → List α
  | .append entry => L.erase entry ++ [entry]
  | .delete entry => L.erase entry
  | .insertBefore entry new =>
      if L.head? = some entry then L ++ [new] else placeBefore entry new L
  | .lrotate => L.rotate 1
  | .rrotate => L.rotate (L.length - 1)

/-- The entry the call may put into the list or take out of it. -/
def Call.moves : Call α → Option α
  | .append entry => some entry
  | .delete entry => some entry
  | .insertBefore _ new => some new
  | .lrotate => none
  | .rrotate => none

/-- The entry is in the list. -/
def Holds (list : ListT α) (entry : α) : Prop := ∃ L, Represents list L ∧ entry ∈ L

/-- The calls that can be made. -/
def Call.Legal (list : ListT α) : Call α → Prop
  | .append entry => list.Unlinked entry ∨ Holds list entry
  | .delete entry => list.Unlinked entry ∨ Holds list entry
  | .insertBefore entry new => Holds list entry ∧ list.Unlinked new
  | .lrotate => True
  | .rrotate => True

/-- `list_init(list)`, and `list_entry_init` on the entries. -/
def start (list : ListT α) (entries : List α) : ListT α :=
  entries.foldl listEntryInit (listInit list)

/-- The calls, one after the other. -/
def execAll : List (Call α) → ListT α → Except Fault (ListT α)
  | [], list => .ok list
  | call :: calls, list => do
      let list ← call.exec list
      execAll calls list

/-- Every call is legal when it is made. -/
def LegalAll : List (Call α) → ListT α → Prop
  | [], _ => True
  | call :: calls, list =>
      call.Legal list ∧ ∀ list', call.exec list = .ok list' → LegalAll calls list'

/-! ## One call -/

section Specs

variable {list list' : ListT α} {L A B : List α} {a e x : α} {call : Call α}

omit [DecidableEq α] in
theorem holds_iff (rep : Represents list L) : Holds list e ↔ e ∈ L := by
  constructor
  · rintro ⟨L', rep', mem⟩
    rwa [rep.unique rep']
  · intro mem
    exact ⟨L, rep, mem⟩

theorem placeBefore_append (notMem : x ∉ A) :
    placeBefore x e (A ++ x :: B) = A ++ e :: x :: B := by
  induction A with
  | nil => simp [placeBefore]
  | cons a A ih =>
      rw [List.mem_cons, not_or] at notMem
      simp [placeBefore, Ne.symm notMem.1, ih notMem.2]

/-- What a call does: the list represents the changed sequence, the entry it has taken out is
unlinked, and entries that were not in the list and are not moved keep their links. -/
structure Done (list list' : ListT α) (L : List α) (call : Call α) : Prop where
  represents : Represents list' (call.apply L)
  removed : ∀ a, call.moves = some a → a ∉ call.apply L → list'.Unlinked a
  others : ∀ a, call.moves ≠ some a → (a ∈ call.apply L ↔ a ∈ L) ∧
    (a ∉ L → Links.SameAt list.toLinks list'.toLinks a)

theorem delete_done (rep : Represents list L) (legal : (Call.delete e).Legal list) :
    Done list (listDelete list e) L (.delete e) := by
  have others : ∀ a, (Call.delete e).moves ≠ some a → (a ∈ L.erase e ↔ a ∈ L) := by
    intro a ne
    exact List.mem_erase_of_ne fun same => ne (same ▸ rfl)
  rcases legal with unlinked | held
  · have notMem := rep.notMem_of_unlinked unlinked
    have same : L.erase e = L := List.erase_of_not_mem notMem
    rw [listDelete_of_unlinked unlinked]
    refine ⟨?_, ?_, fun a ne => ⟨others a ne, fun _ => ⟨rfl, rfl⟩⟩⟩
    · show Represents list (L.erase e)
      rwa [same]
    · intro a moved _
      cases moved
      exact unlinked
  · have mem := (holds_iff rep).mp held
    refine ⟨listDelete_represents rep mem, ?_, ?_⟩
    · intro a moved _
      cases moved
      exact listDelete_unlinked rep mem
    · exact fun a ne => ⟨others a ne, fun notMem => listDelete_keeps rep mem a notMem⟩

/-- `list_append` deletes the entry first. -/
theorem append_done (rep : Represents list L) (legal : (Call.append e).Legal list) :
    ∃ list', listAppend list e = .ok list' ∧ Done list list' L (.append e) := by
  have deleted := delete_done rep legal
  have notMem : e ∉ L.erase e := rep.ring.nodup.not_mem_erase
  have unlinked : (listDelete list e).Unlinked e := deleted.removed e rfl notMem
  have again : listAppend list e = listAppend (listDelete list e) e := by
    rw [listAppend, listAppend, listDelete_of_unlinked unlinked]
  obtain ⟨list', run, rep', keeps⟩ := listAppend_represents deleted.represents unlinked
  refine ⟨list', again.trans run, rep', ?_, ?_⟩
  · intro a moved off
    cases moved
    simp [Call.apply] at off
  · intro a ne
    have neE : a ≠ e := fun same => ne (same ▸ rfl)
    obtain ⟨mem, same⟩ := deleted.others a ne
    constructor
    · rw [← mem]
      simp [Call.apply, neE]
    · intro off
      refine (same off).trans (keeps a ?_)
      rw [List.mem_cons, not_or]
      exact ⟨neE, fun inside => off (mem.mp inside)⟩

theorem insertBefore_done (rep : Represents list L) (legal : (Call.insertBefore x e).Legal list) :
    ∃ list', listInsertBefore list x e = .ok list' ∧ Done list list' L (.insertBefore x e) := by
  obtain ⟨held, unlinked⟩ := legal
  have fresh := rep.notMem_of_unlinked unlinked
  -- where the new entry comes, it is in the sequence, and the others are those of before
  have done : ∀ {L'}, (∃ list', listInsertBefore list x e = .ok list' ∧ Represents list' L' ∧
      ListT.Keeps (e :: L) list list') → (Call.insertBefore x e).apply L = L' →
      (∀ a, a ∈ L' ↔ a = e ∨ a ∈ L) →
      ∃ list', listInsertBefore list x e = .ok list' ∧ Done list list' L (.insertBefore x e) := by
    rintro L' ⟨list', run, rep', keeps⟩ rfl members
    refine ⟨list', run, rep', ?_, ?_⟩
    · intro a moved off
      cases moved
      exact absurd ((members e).mpr (.inl rfl)) off
    · intro a ne
      have neE : a ≠ e := fun same => ne (same ▸ rfl)
      refine ⟨by rw [members]; simp [neE], fun off => keeps a ?_⟩
      simp [neE, off]
  obtain ⟨A, B, rfl⟩ := List.append_of_mem ((holds_iff rep).mp held)
  cases A with
  | nil =>
      refine done (listInsertBefore_first rep fresh) (by simp [Call.apply]) ?_
      intro a
      simp only [List.mem_append, List.mem_singleton, List.nil_append]
      tauto
  | cons c A =>
      have nodup := rep.ring.nodup
      have notMem : x ∉ c :: A := by
        intro mem
        exact (List.nodup_append.mp nodup).2.2 x mem x List.mem_cons_self rfl
      have notFirst : c ≠ x := fun same => notMem (same ▸ List.mem_cons_self)
      refine done (listInsertBefore_represents rep fresh) ?_ ?_
      · rw [Call.apply, if_neg (by simpa using notFirst), placeBefore_append notMem]
      · intro a
        simp only [List.mem_append, List.mem_cons]
        tauto

theorem lrotate_done (rep : Represents list L) : Done list (listLrotate list) L .lrotate := by
  refine ⟨?_, nofun, fun a _ => ⟨List.mem_rotate, fun _ => ?_⟩⟩
  · cases L with
    | nil =>
        have head : list.head = none := rep.head
        rw [listLrotate, head]
        exact rep
    | cons b L =>
        show Represents _ ((b :: L).rotate 1)
        rw [List.rotate_cons_succ, List.rotate_zero]
        exact listLrotate_represents rep
  · rw [listLrotate_links]
    exact ⟨rfl, rfl⟩

omit [DecidableEq α] in
theorem listRrotate_links (list : ListT α) : (listRrotate list).toLinks = list.toLinks := by
  rw [listRrotate]
  split
  · rfl
  · rfl

theorem rrotate_done (rep : Represents list L) : Done list (listRrotate list) L .rrotate := by
  refine ⟨?_, nofun, fun a _ => ⟨List.mem_rotate, fun _ => ?_⟩⟩
  · rcases List.eq_nil_or_concat' L with rfl | ⟨T, b, rfl⟩
    · have head : list.head = none := rep.head
      rw [listRrotate, head]
      exact rep
    · show Represents _ ((T ++ [b]).rotate ((T ++ [b]).length - 1))
      have turned : (T ++ [b]).rotate ((T ++ [b]).length - 1) = b :: T := by
        rw [List.length_append, List.length_singleton, Nat.add_sub_cancel,
          List.rotate_append_length_eq]
        rfl
      rw [turned]
      exact listRrotate_represents rep
  · rw [listRrotate_links]
    exact ⟨rfl, rfl⟩

/-- Every legal call returns. -/
theorem exec_done (rep : Represents list L) (legal : call.Legal list) :
    ∃ list', call.exec list = .ok list' ∧ Done list list' L call := by
  cases call with
  | append entry => exact append_done rep legal
  | delete entry => exact ⟨_, rfl, delete_done rep legal⟩
  | insertBefore entry new => exact insertBefore_done rep legal
  | lrotate => exact ⟨_, rfl, lrotate_done rep⟩
  | rrotate => exact ⟨_, rfl, rrotate_done rep⟩

/-! ## All calls -/

/-- The list represents `L`, and those of the entries `E` that are not in it are unlinked. -/
structure Tidy (list : ListT α) (L E : List α) : Prop where
  represents : Represents list L
  unlinked : ∀ a ∈ E, a ∉ L → list.Unlinked a

theorem start_tidy (list : ListT α) (entries : List α) : Tidy (start list entries) [] entries := by
  have inits : ∀ (entries E : List α) (list : ListT α), Tidy list [] E →
      Tidy (entries.foldl listEntryInit list) [] (E ++ entries) := by
    intro entries
    induction entries with
    | nil =>
        intro E list tidy
        rwa [List.append_nil]
    | cons e entries ih =>
        intro E list tidy
        rw [List.append_cons]
        apply ih
        refine ⟨tidy.represents.congr (by simp) rfl, ?_⟩
        intro a mem _
        by_cases same : a = e
        · rw [same]
          exact listEntryInit_unlinked list e
        · have before : a ∈ E := by simpa [same] using mem
          exact (tidy.unlinked a before (by simp)).transport
            (listEntryInit_keeps list e a (by simpa using same))
  exact inits entries [] (listInit list) ⟨listInit_represents list, by simp⟩

/-- A call keeps the entries it does not move tidy, and adds the one it moves. -/
theorem Tidy.done {E : List α} (tidy : Tidy list L E) (done : Done list list' L call) :
    Tidy list' (call.apply L) (E ++ call.moves.toList) := by
  refine ⟨done.represents, ?_⟩
  intro a mem off
  by_cases moved : call.moves = some a
  · exact done.removed a moved off
  · obtain ⟨members, same⟩ := done.others a moved
    have before : a ∈ E := by
      rcases List.mem_append.mp mem with mem | mem
      · exact mem
      · exact absurd (Option.mem_toList.mp mem) moved
    rw [members] at off
    exact (tidy.unlinked a before off).transport (same off)

theorem execAll_tidy {E : List α} {calls : List (Call α)} (tidy : Tidy list L E)
    (legal : LegalAll calls list) :
    ∃ list', execAll calls list = .ok list' ∧
      Tidy list' (calls.foldl Call.apply L) (E ++ calls.filterMap Call.moves) := by
  induction calls generalizing list L E with
  | nil =>
      refine ⟨list, rfl, ?_⟩
      rwa [List.filterMap_nil, List.append_nil]
  | cons call calls ih =>
      obtain ⟨first, rest⟩ := legal
      obtain ⟨list₁, run, done⟩ := exec_done tidy.represents first
      obtain ⟨list', runs, after⟩ := ih (tidy.done done) (rest list₁ run)
      refine ⟨list', ?_, ?_⟩
      · rw [execAll, run, Except.ok_bind, runs]
      · have split : E ++ call.moves.toList ++ calls.filterMap Call.moves =
            E ++ (call :: calls).filterMap Call.moves := by
          rw [List.append_assoc, List.filterMap_cons]
          cases call.moves with
          | none => rfl
          | some a => rfl
        rwa [split] at after

/-! ## Reading the list -/

omit [DecidableEq α] in
theorem listLast_eq (rep : Represents list L) : listLast list = L.getLast? := by
  cases L with
  | nil =>
      have head : list.head = none := rep.head
      rw [listLast, head]
      rfl
  | cons a L =>
      have head : list.head = some a := rep.head
      rw [listLast, head]
      exact rep.ring.prev_head

/-- `list_foreach` visits what is left of the list. -/
theorem listForeachFrom_eq (rep : Represents list (A ++ B)) {fuel : Nat}
    (enough : B.length ≤ fuel) : listForeachFrom list fuel B.head? = .ok B := by
  induction B generalizing A fuel with
  | nil =>
      rw [List.head?_nil]
      cases fuel with
      | zero => rfl
      | succ fuel => rfl
  | cons b B ih =>
      obtain ⟨fuel, rfl⟩ : ∃ m, fuel = m + 1 :=
        Nat.exists_eq_succ_of_ne_zero (Nat.ne_of_gt (Nat.lt_of_lt_of_le (Nat.succ_pos _) enough))
      have rest : Represents list (A ++ [b] ++ B) := by
        rw [List.append_assoc]
        exact rep
      rw [List.head?_cons, listForeachFrom, listNext_eq rep,
        ih rest (Nat.le_of_succ_le_succ enough)]
      rfl

/-- **List refinement**: after any calls the list is a ring of the sequence the calls make of the
empty one; `list_foreach` visits exactly that sequence, `list_first` and `list_last` are its ends,
and the initialised or moved entries that are not in it have no links. -/
theorem run_represents (list : ListT α) (entries : List α) (calls : List (Call α))
    (legal : LegalAll calls (start list entries)) :
    ∃ list', execAll calls (start list entries) = .ok list' ∧
      Represents list' (calls.foldl Call.apply []) ∧
      (∀ fuel, (calls.foldl Call.apply []).length ≤ fuel →
        listForeach fuel list' = .ok (calls.foldl Call.apply [])) ∧
      listFirst list' = (calls.foldl Call.apply []).head? ∧
      listLast list' = (calls.foldl Call.apply []).getLast? ∧
      ∀ e, e ∈ entries ∨ (∃ call ∈ calls, call.moves = some e) →
        e ∉ calls.foldl Call.apply [] → list'.Unlinked e := by
  obtain ⟨list', run, tidy⟩ := execAll_tidy (start_tidy list entries) legal
  have rep := tidy.represents
  refine ⟨list', run, rep, ?_, listFirst_eq rep, listLast_eq rep, ?_⟩
  · intro fuel enough
    rw [listForeach, rep.head]
    exact listForeachFrom_eq (A := []) rep enough
  · intro e known off
    apply tidy.unlinked e _ off
    rw [List.mem_append, List.mem_filterMap]
    exact known

/-! ## Calls on initialised entries -/

/-- The call is on entries of `E`, and inserts an entry that is not in the sequence. -/
def Call.LegalIn (E L : List α) : Call α → Prop
  | .append entry => entry ∈ E
  | .delete entry => entry ∈ E
  | .insertBefore entry new => entry ∈ L ∧ new ∈ E ∧ new ∉ L
  | .lrotate => True
  | .rrotate => True

/-- All calls are on entries of `E`. -/
def LegalAllIn (E : List α) : List (Call α) → List α → Prop
  | [], _ => True
  | call :: calls, L => call.LegalIn E L ∧ LegalAllIn E calls (call.apply L)

theorem Tidy.legal {E : List α} (tidy : Tidy list L E) (legal : call.LegalIn E L) :
    call.Legal list := by
  have known : ∀ a ∈ E, list.Unlinked a ∨ Holds list a := by
    intro a mem
    by_cases inside : a ∈ L
    · exact .inr ((holds_iff tidy.represents).mpr inside)
    · exact .inl (tidy.unlinked a mem inside)
  cases call with
  | append entry => exact known entry legal
  | delete entry => exact known entry legal
  | insertBefore entry new =>
      exact ⟨(holds_iff tidy.represents).mpr legal.1, tidy.unlinked new legal.2.1 legal.2.2⟩
  | lrotate => trivial
  | rrotate => trivial

/-- Calls on initialised entries are legal. -/
theorem Tidy.legalAll {E : List α} {calls : List (Call α)} (tidy : Tidy list L E)
    (legal : LegalAllIn E calls L) : LegalAll calls list := by
  induction calls generalizing list L with
  | nil => trivial
  | cons call calls ih =>
      obtain ⟨first, rest⟩ := legal
      refine ⟨tidy.legal first, ?_⟩
      intro list' run
      obtain ⟨list₁, ran, done⟩ := exec_done tidy.represents (tidy.legal first)
      obtain rfl : list₁ = list' := Except.ok.inj (ran.symm.trans run)
      have after := tidy.done done
      exact ih ⟨after.represents, fun a mem off =>
        after.unlinked a (List.mem_append_left _ mem) off⟩ rest

end Specs

/-- Appending, appending again, inserting in front of the first entry and of another one, rotating
and deleting. -/
def someCalls : List (Call Nat) :=
  [.append 0, .append 1, .append 0, .insertBefore 1 2, .insertBefore 0 3, .lrotate, .delete 1]

theorem run_represents_some :
    ∃ list', execAll someCalls (start ⟨⟨fun _ => none, fun _ => none⟩, none⟩ [0, 1, 2, 3]) =
        .ok list' ∧ Represents list' [3, 0, 2] ∧ list'.Unlinked 1 := by
  have legal : LegalAllIn [0, 1, 2, 3] someCalls [] := by
    simp [LegalAllIn, Call.LegalIn, Call.apply, someCalls]
  obtain ⟨list', run, rep, -, -, -, unlinked⟩ := run_represents
    ⟨⟨fun _ => none, fun _ => none⟩, none⟩ [0, 1, 2, 3] someCalls ((start_tidy _ _).legalAll legal)
  exact ⟨list', run, rep, unlinked 1 (by simp) (by decide)⟩

end ListRun

end TheFirmware
