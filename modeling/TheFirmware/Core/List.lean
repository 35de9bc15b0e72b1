import TheFirmware.Runtime
import TheFirmware.Lib.Ring

/-!
# `core/list.c`

Intrusive circular lists. A `list_t` is the address of its first entry and an entry is a pair of
pointers; `ListT` holds both, the head of one list and the links of the entries of a pool, so that
a function here changes what the source changes through its pointers.

`Represents l L` says that the list holds the entries `L` in this order. Each function of the file
has one theorem that says what it does to `L` and which entries it leaves alone.
-/

namespace TheFirmware

variable {α : Type}

/-- A `list_t`, with the links of the entries it may hold. -/
structure ListT (α : Type) : Type extends Links α where
  head : Option α

/-- `list_is_empty(list)`. -/
def listIsEmpty (list : ListT α) : Bool := list.head.isNone

/-- `list_lrotate(list)`. -/
def listLrotate (list : ListT α) : ListT α :=
  match list.head with
  | some first => { list with head := list.next first }
  | none => list

/-- `list_rrotate(list)`. -/
def listRrotate (list : ListT α) : ListT α :=
  match list.head with
  | some first => { list with head := list.prev first }
  | none => list

/-- `list_first(list)`. -/
def listFirst (list : ListT α) : Option α := list.head

/-- `list_init(list)`. -/
def listInit (list : ListT α) : ListT α := { list with head := none }

section Entries

variable [DecidableEq α]

/-- `list_next(list, entry)`. -/
def listNext (list : ListT α) (entry : α) : Option α :=
  if list.next entry = list.head then none else list.next entry

/-- `list_insert_before(entry, new)`. -/
def listInsertBefore (list : ListT α) (entry new : α) : Except Fault (ListT α) := do
  let links := list.setPrev new (list.prev entry)
  let prev ← deref (links.prev entry)
  let links := links.setNext prev (some new)
  let links := links.setPrev entry (some new)
  return ⟨links.setNext new (some entry), list.head⟩

/-- `list_delete(list, entry)`. The two pointers of `entry` do not change before they are cleared:
when `entry` is its own neighbour the first store writes back what it has read. -/
def listDelete (list : ListT α) (entry : α) : ListT α :=
  match list.next entry, list.prev entry with
  | some next, some prev =>
      let links := list.setNext prev (some next)
      let links := links.setPrev next (some prev)
      let head :=
        if list.head = some entry then listNext ⟨links, list.head⟩ entry else list.head
      ⟨(links.setPrev entry none).setNext entry none, head⟩
  | _, _ => list

/-- `list_append(list, entry)`. -/
def listAppend (list : ListT α) (entry : α) : Except Fault (ListT α) :=
  let list := listDelete list entry
  match list.head with
  | some first => listInsertBefore list first entry
  | none => .ok ⟨(list.setPrev entry (some entry)).setNext entry (some entry), some entry⟩

/-- `list_entry_init(entry)`. -/
def listEntryInit (list : ListT α) (entry : α) : ListT α :=
  ⟨(list.setNext entry none).setPrev entry none, list.head⟩

end Entries

/-! ## What a list holds -/

section Specs

/-- The list holds the entries `L`. -/
structure Represents (list : ListT α) (L : List α) : Prop where
  ring : Ring list.toLinks L
  head : list.head = L.head?

/-- Only entries in `S` have changed their links. -/
def ListT.Keeps (S : List α) (list list' : ListT α) : Prop :=
  ∀ c, c ∉ S → Links.SameAt list.toLinks list'.toLinks c

variable {list list' : ListT α} {L A B T : List α} {a e x y z : α}

theorem ListT.Keeps.trans {S : List α} {list'' : ListT α} (first : ListT.Keeps S list list')
    (second : ListT.Keeps S list' list'') : ListT.Keeps S list list'' :=
  fun c notMem => (first c notMem).trans (second c notMem)

/-- The entries of a list are no unlinked ones. -/
theorem Represents.notMem_of_unlinked (rep : Represents list L)
    (unlinked : list.Unlinked e) : e ∉ L := by
  intro mem
  obtain ⟨y, _, next, -⟩ := rep.ring.linked_of_mem mem
  rw [unlinked.1] at next
  cases next

/-- What a list holds is determined by its head and the links. -/
theorem Represents.unique (rep : Represents list A) (rep' : Represents list B) : A = B := by
  have heads := rep.head.symm.trans rep'.head
  cases A with
  | nil =>
      cases B with
      | nil => rfl
      | cons b B => cases heads
  | cons a A =>
      cases B with
      | nil => cases heads
      | cons b B =>
          cases heads
          rw [rep.ring.unique rep'.ring]

theorem Represents.congr (rep : Represents list L)
    (same : ∀ a ∈ L, Links.SameAt list.toLinks list'.toLinks a) (head : list'.head = list.head) :
    Represents list' L :=
  ⟨rep.ring.congr same, head.trans rep.head⟩

theorem listIsEmpty_iff (rep : Represents list L) : listIsEmpty list = true ↔ L = [] := by
  rw [listIsEmpty, rep.head, Option.isNone_iff_eq_none, List.head?_eq_none_iff]

theorem listFirst_eq (rep : Represents list L) : listFirst list = L.head? := rep.head

/-- An entry behind the first one is not the first one. -/
theorem Represents.notFirst (rep : Represents list (a :: A ++ e :: B)) :
    ¬ some e = listFirst list := by
  rw [listFirst_eq rep]
  have nodup := rep.ring.nodup
  intro first
  cases first
  simp at nodup

/-- An entry is the first one when nothing stands before it. -/
theorem Represents.first_iff (rep : Represents list (A ++ e :: B)) :
    some e = listFirst list ↔ A = [] := by
  cases A with
  | nil => simpa using (listFirst_eq rep).symm
  | cons a A => simpa using rep.notFirst

theorem listInit_represents (list : ListT α) : Represents (listInit list) [] := ⟨Ring.nil, rfl⟩

/-- The neighbours of an entry of a ring are in the ring. -/
theorem Represents.neighbours_mem (rep : Represents list L) (mem : e ∈ L)
    (next : list.next e = some y) (prev : list.prev e = some z) : y ∈ L ∧ z ∈ L := by
  obtain ⟨A, B, rfl⟩ := List.append_of_mem mem
  have turned : Ring list.toLinks (e :: (B ++ A)) := rep.ring.rotate
  have first := turned.next_head
  have last := turned.prev_head
  rw [next] at first
  rw [prev] at last
  have memY := List.mem_of_head? first.symm
  have memZ := List.mem_of_getLast? last.symm
  simp only [List.mem_append, List.mem_cons] at memY memZ ⊢
  tauto

/-! ## Rotating -/

/-- `list_lrotate` makes the first entry the last one. -/
theorem listLrotate_represents (rep : Represents list (a :: T)) :
    Represents (listLrotate list) (T ++ [a]) := by
  have head : list.head = some a := rep.head
  rw [listLrotate, head]
  exact ⟨rep.ring.rotate_one, rep.ring.next_head⟩

theorem listLrotate_links (list : ListT α) : (listLrotate list).toLinks = list.toLinks := by
  rw [listLrotate]
  split
  · rfl
  · rfl

/-- `list_rrotate` makes the last entry the first one. -/
theorem listRrotate_represents (rep : Represents list (T ++ [a])) :
    Represents (listRrotate list) (a :: T) := by
  have turned : Ring list.toLinks (a :: T) := rep.ring.rotate
  refine ⟨?_, ?_⟩
  · rw [listRrotate]
    split
    · exact turned
    · exact turned
  · cases T with
    | nil =>
        have head : list.head = some a := rep.head
        rw [listRrotate, head]
        exact turned.prev_head
    | cons x T =>
        have head : list.head = some x := rep.head
        rw [listRrotate, head]
        have last : list.prev x = (x :: T ++ [a]).getLast? := rep.ring.prev_head
        rwa [List.getLast?_concat] at last

/-! ## Entries -/

variable [DecidableEq α]

theorem listEntryInit_unlinked (list : ListT α) (e : α) : (listEntryInit list e).Unlinked e := by
  simp [Links.Unlinked, listEntryInit]

theorem listEntryInit_keeps (list : ListT α) (e : α) :
    ListT.Keeps [e] list (listEntryInit list e) := by
  intro c notMem
  exact Links.clear_sameAt (by simpa using notMem)

/-- `list_next` ends at the last entry. -/
theorem listNext_eq (rep : Represents list (A ++ a :: B)) : listNext list a = B.head? := by
  have nodup := rep.ring.nodup
  have next := rep.ring.next_eq
  have head := rep.head
  rw [listNext]
  cases B with
  | nil =>
      rw [List.nil_append] at next
      rw [next, head, if_pos rfl, List.head?_nil]
  | cons b B =>
      rw [List.cons_append, List.cons_append, List.head?_cons] at next
      rw [next, if_neg, List.head?_cons]
      rw [head]
      -- `b` is not the first entry, since that one stands in front of it
      cases A with
      | nil =>
          have ne : b ≠ a := by
            rintro rfl
            simp at nodup
          simpa using ne
      | cons c A =>
          have ne : b ≠ c := by
            rintro rfl
            simp at nodup
          simpa using ne

/-! ## Deleting -/

/-- What `list_delete` does to an entry that has both pointers. -/
theorem listDelete_of_linked (next : list.next e = some y) (prev : list.prev e = some z) :
    listDelete list e =
      ⟨(list.bypass z y).clear e,
        if list.head = some e then (if y = e then none else some y) else list.head⟩ := by
  have kept : ((list.setNext z (some y)).setPrev y (some z)).next e = some y := by
    by_cases same : e = z
    · subst same
      simp
    · simp [same, next]
  rw [listDelete, next, prev]
  simp only [listNext]
  rw [kept]
  by_cases first : list.head = some e
  · simp [first, Links.bypass, Links.clear]
  · simp [first, Links.bypass, Links.clear]

/-- `list_delete` on an unlinked entry does nothing. -/
theorem listDelete_of_unlinked (unlinked : list.Unlinked e) : listDelete list e = list := by
  rw [listDelete, unlinked.1]

theorem listDelete_append (rep : Represents list (A ++ e :: B)) :
    Represents (listDelete list e) (A ++ B) := by
  have turned : Ring list.toLinks (e :: (B ++ A)) := rep.ring.rotate
  have next := turned.next_head
  have head := rep.head
  obtain ⟨fresh, -⟩ := List.nodup_cons.mp turned.nodup
  obtain ⟨_, z, -, prev⟩ := turned.linked_of_mem List.mem_cons_self
  cases rest : B ++ A with
  | nil =>
      obtain ⟨rfl, rfl⟩ := List.append_eq_nil_iff.mp rest
      rw [List.append_nil, List.nil_append, List.head?_cons] at next
      rw [listDelete_of_linked next prev, head]
      exact ⟨Ring.nil, by simp⟩
  | cons x T =>
      rw [rest] at turned next fresh
      rw [List.cons_append, List.head?_cons] at next
      have ne : x ≠ e := fun same => fresh (same ▸ List.mem_cons_self)
      have ring := turned.bypass prev
      rw [← rest] at ring
      rw [listDelete_of_linked next prev]
      refine ⟨ring.rotate, ?_⟩
      rw [head, if_neg ne]
      cases A with
      | nil =>
          rw [List.append_nil] at rest
          simp [rest]
      | cons a A =>
          have neHead : a ≠ e := by
            rintro rfl
            have nodup := rep.ring.nodup
            simp at nodup
          simp [neHead]

/-- `list_delete` on an entry of the list takes it out. -/
theorem listDelete_represents (rep : Represents list L) (mem : e ∈ L) :
    Represents (listDelete list e) (L.erase e) := by
  obtain ⟨A, B, rfl⟩ := List.append_of_mem mem
  have notMem : e ∉ A := by
    intro memA
    exact (List.nodup_append.mp rep.ring.nodup).2.2 e memA e List.mem_cons_self rfl
  rw [List.erase_append_right _ notMem, List.erase_cons_head]
  exact listDelete_append rep

theorem listDelete_unlinked (rep : Represents list L) (mem : e ∈ L) :
    (listDelete list e).Unlinked e := by
  obtain ⟨y, z, next, prev⟩ := rep.ring.linked_of_mem mem
  rw [listDelete_of_linked next prev]
  exact Links.clear_unlinked _ e

theorem listDelete_keeps (rep : Represents list L) (mem : e ∈ L) :
    ListT.Keeps L list (listDelete list e) := by
  intro c notMem
  obtain ⟨y, z, next, prev⟩ := rep.ring.linked_of_mem mem
  obtain ⟨memY, memZ⟩ := rep.neighbours_mem mem next prev
  rw [listDelete_of_linked next prev]
  refine Links.SameAt.trans (Links.bypass_sameAt ?_ ?_) (Links.clear_sameAt ?_)
  · exact fun same => notMem (same ▸ memZ)
  · exact fun same => notMem (same ▸ memY)
  · exact fun same => notMem (same ▸ mem)

/-! ## Inserting -/

/-- What `list_insert_before` does when the entry it inserts at has a predecessor. -/
theorem listInsertBefore_eq (prev : list.prev x = some z) (ne : x ≠ e) :
    listInsertBefore list x e = .ok ⟨list.splice z e x, list.head⟩ := by
  rw [listInsertBefore, Links.setPrev_prev_of_ne ne, prev]
  rfl

/-- `list_insert_before` puts the new entry in front of an entry of the ring; the head of the list
stays. -/
theorem listInsertBefore_ring (rep : Represents list (A ++ x :: B)) (fresh : e ∉ A ++ x :: B) :
    ∃ list', listInsertBefore list x e = .ok list' ∧ Ring list'.toLinks (A ++ e :: x :: B) ∧
      list'.head = list.head ∧ ListT.Keeps (e :: (A ++ x :: B)) list list' := by
  have turned : Ring list.toLinks (x :: (B ++ A)) := rep.ring.rotate
  have memX : x ∈ A ++ x :: B := by simp
  have ne : x ≠ e := fun same => fresh (same ▸ memX)
  obtain ⟨_, z, next, prev⟩ := rep.ring.linked_of_mem memX
  obtain ⟨-, memZ⟩ := rep.neighbours_mem memX next prev
  refine ⟨_, listInsertBefore_eq prev ne, ?_, rfl, ?_⟩
  · have ring := turned.splice prev (e := e) (by simp at fresh ⊢; tauto)
    exact Ring.rotate (A := e :: x :: B) ring
  · intro c notMem
    rw [List.mem_cons, not_or] at notMem
    refine Links.splice_sameAt ?_ notMem.1 ?_
    · exact fun same => notMem.2 (same ▸ memZ)
    · exact fun same => notMem.2 (same ▸ memX)

/-- In front of an entry that is not the first. -/
theorem listInsertBefore_represents (rep : Represents list (a :: A ++ x :: B))
    (fresh : e ∉ a :: A ++ x :: B) :
    ∃ list', listInsertBefore list x e = .ok list' ∧ Represents list' (a :: A ++ e :: x :: B) ∧
      ListT.Keeps (e :: (a :: A ++ x :: B)) list list' := by
  obtain ⟨list', run, ring, head, keeps⟩ := listInsertBefore_ring rep fresh
  exact ⟨list', run, ⟨ring, head.trans rep.head⟩, keeps⟩

/-- In front of the first entry: the new one comes last, as the head of the list stays. -/
theorem listInsertBefore_first (rep : Represents list (x :: T)) (fresh : e ∉ x :: T) :
    ∃ list', listInsertBefore list x e = .ok list' ∧ Represents list' (x :: T ++ [e]) ∧
      ListT.Keeps (e :: x :: T) list list' := by
  obtain ⟨list', run, ring, head, keeps⟩ := listInsertBefore_ring (A := []) rep fresh
  exact ⟨list', run, ⟨ring.rotate_one, head.trans rep.head⟩, keeps⟩

/-- `list_append` on an unlinked entry makes it the last one. -/
theorem listAppend_represents (rep : Represents list L) (unlinked : list.Unlinked e) :
    ∃ list', listAppend list e = .ok list' ∧ Represents list' (L ++ [e]) ∧
      ListT.Keeps (e :: L) list list' := by
  have fresh := rep.notMem_of_unlinked unlinked
  rw [listAppend, listDelete_of_unlinked unlinked]
  cases L with
  | nil =>
      have head : list.head = none := rep.head
      rw [head]
      refine ⟨_, rfl, ⟨Ring.single _ e, rfl⟩, ?_⟩
      intro c notMem
      exact Links.close_sameAt (by simpa using notMem)
  | cons x T =>
      have head : list.head = some x := rep.head
      rw [head]
      exact listInsertBefore_first rep fresh

end Specs

end TheFirmware
