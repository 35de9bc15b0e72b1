import TheFirmware.Core.List
import TheFirmware.Lib.Words

/-!
# `core/list.c` in memory

The functions of `core/list.c` on the words of a memory, where the pointers of an entry may be any
words at all. What `list_append` does to an entry whose pointers are no links is said word by word
(`listDelete_eq_ok_iff`, `listInsertBefore_eq_ok_iff`). `Visits` is what `list_foreach` goes
through.
-/

namespace TheFirmware.ListMemory

/-- `&entry->prev`; `next` is the first word of an entry. -/
def prevAt (entry : UInt32) : UInt32 := entry + 4

variable (ram : Ram) (words : Words) (list : UInt32)

/-- `list_next` -/
def listNext (entry : UInt32) : Except Fault UInt32 := do
  let next ← ram.load words entry
  let head ← ram.load words list
  return if next = head then 0 else next

/-- `list_insert_before` -/
def listInsertBefore (entry new : UInt32) : Except Fault Words := do
  let prev ← ram.load words (prevAt entry)
  let words ← ram.store words (prevAt new) prev
  let prev ← ram.load words (prevAt entry)
  let words ← ram.store words prev new
  let words ← ram.store words (prevAt entry) new
  ram.store words new entry

/-- The end of `list_delete`, from the comparison with the head on. -/
def listDeleteHead (entry : UInt32) : Except Fault Words := do
  let head ← ram.load words list
  if head = entry then
    let next ← listNext ram words list entry
    ram.store words list next
  else
    return words

/-- `list_delete`. The pointers of the entry are read again after the first store, which may have
changed them. -/
def listDelete (entry : UInt32) : Except Fault Words := do
  let next ← ram.load words entry
  let prev ← ram.load words (prevAt entry)
  if next = 0 ∨ prev = 0 then
    return words
  else
    let words ← ram.store words prev next
    let next ← ram.load words entry
    let prev ← ram.load words (prevAt entry)
    let words ← ram.store words (prevAt next) prev
    let words ← listDeleteHead ram words list entry
    let words ← ram.store words (prevAt entry) 0
    ram.store words entry 0

/-- The end of `list_append`, after the call of `list_delete`. -/
def listAppendEnd (entry : UInt32) : Except Fault Words := do
  let head ← ram.load words list
  if head ≠ 0 then
    listInsertBefore ram words head entry
  else
    let words ← ram.store words (prevAt entry) entry
    let words ← ram.store words entry entry
    ram.store words list entry

/-- `list_append` -/
def listAppend (entry : UInt32) : Except Fault Words := do
  let words ← listDelete ram words list entry
  listAppendEnd ram words list entry

/-! ## The words that change -/

/-- The two stores of `list_delete`. -/
def unlink (words : Words) (entry : UInt32) : Words :=
  let words' := Function.update words (words (prevAt entry)) (words entry)
  Function.update words' (prevAt (words entry)) (words' (prevAt entry))

/-- The new head, if the entry is the head. -/
def rehead (words : Words) (list entry : UInt32) : Words :=
  if words list = entry then
    Function.update words list (if words entry = words list then 0 else words entry)
  else words

/-- The pointers of the entry are `NULL`. -/
def clear (words : Words) (entry : UInt32) : Words :=
  Function.update (Function.update words (prevAt entry) 0) entry 0

/-- The stores of `list_insert_before`. -/
def link (words : Words) (entry new : UInt32) : Words :=
  let prev := words (prevAt entry)
  Function.update (Function.update (Function.update (Function.update words (prevAt new) prev)
    prev new) (prevAt entry) new) new entry

/-- The stores of `list_append` to an empty list. -/
def close (words : Words) (list entry : UInt32) : Words :=
  Function.update (Function.update (Function.update words (prevAt entry) entry) entry entry)
    list entry

section Specs

variable {ram : Ram} {words words' : Words} {list entry new : UInt32}

theorem prevAt_inj {a b : UInt32} : prevAt a = prevAt b ↔ a = b := UInt32.add_left_inj 4

theorem prevAt_ne (a : UInt32) : prevAt a ≠ a := by
  intro same
  have zero : (4 : UInt32) = 0 := UInt32.add_eq_left.mp same
  exact absurd zero (by decide)

theorem unlink_apply (words : Words) (entry a : UInt32) : unlink words entry a =
    if a = prevAt (words entry) then
      if words (prevAt entry) = prevAt entry then words entry else words (prevAt entry)
    else if a = words (prevAt entry) then words entry else words a := by
  simp only [unlink, Function.update_apply, eq_comm (a := prevAt entry)]

theorem clear_apply (words : Words) (entry a : UInt32) : clear words entry a =
    if a = entry then 0 else if a = prevAt entry then 0 else words a := by
  simp only [clear, Function.update_apply]

theorem link_apply (words : Words) (entry new a : UInt32) : link words entry new a =
    if a = new then entry
    else if a = prevAt entry then new
    else if a = words (prevAt entry) then new
    else if a = prevAt new then words (prevAt entry) else words a := by
  simp only [link, Function.update_apply]

theorem close_apply (words : Words) (list entry a : UInt32) : close words list entry a =
    if a = list then entry
    else if a = entry then entry else if a = prevAt entry then entry else words a := by
  simp only [close, Function.update_apply]

theorem rehead_of_ne (other : words list ≠ entry) : rehead words list entry = words := if_neg other

theorem listNext_eq_ok_iff {next : UInt32} : listNext ram words list entry = .ok next ↔
    ram.isWord entry = true ∧ ram.isWord list = true ∧
      (if words entry = words list then 0 else words entry) = next := by
  simp only [listNext, Except.bind_eq_ok, Ram.load_eq_ok_iff, pure, Except.pure, Except.ok.injEq]
  constructor
  · intro returned
    obtain ⟨_, ⟨wordEntry, rfl⟩, _, ⟨wordList, rfl⟩, same⟩ := returned
    exact ⟨wordEntry, wordList, same⟩
  · intro steps
    obtain ⟨wordEntry, wordList, same⟩ := steps
    exact ⟨_, ⟨wordEntry, rfl⟩, _, ⟨wordList, rfl⟩, same⟩

theorem listInsertBefore_eq_ok_iff (wordNew : ram.isWord new = true)
    (wordPrev : ram.isWord (prevAt new) = true) :
    listInsertBefore ram words entry new = .ok words' ↔
      ram.isWord (prevAt entry) = true ∧ ram.isWord (words (prevAt entry)) = true ∧
        link words entry new = words' := by
  have again : Function.update words (prevAt new) (words (prevAt entry)) (prevAt entry) =
      words (prevAt entry) := by
    rcases Classical.em (prevAt entry = prevAt new) with same | other
    · rw [same, Function.update_self]
    · rw [Function.update_of_ne other]
  unfold listInsertBefore
  simp only [Except.bind_eq_ok, Ram.load_eq_ok_iff, Ram.store_eq_ok_iff]
  constructor
  · intro returned
    obtain ⟨_, ⟨word, rfl⟩, _, ⟨-, rfl⟩, _, ⟨-, rfl⟩, _, ⟨wordOther, rfl⟩, _, ⟨-, rfl⟩, -, rfl⟩ :=
      returned
    rw [again] at wordOther
    rw [again]
    exact ⟨word, wordOther, rfl⟩
  · intro steps
    obtain ⟨word, wordOther, rfl⟩ := steps
    refine ⟨_, ⟨word, rfl⟩, _, ⟨wordPrev, rfl⟩, _, ⟨word, rfl⟩, _, ⟨?_, rfl⟩, _, ⟨word, rfl⟩,
      wordNew, ?_⟩
    · rwa [again]
    · rw [again]
      rfl

theorem listDeleteHead_eq (wordEntry : ram.isWord entry = true) (wordList : ram.isWord list = true)
    (words : Words) :
    listDeleteHead ram words list entry = .ok (rehead words list entry) := by
  have next : listNext ram words list entry =
      .ok (if words entry = words list then 0 else words entry) :=
    listNext_eq_ok_iff.mpr ⟨wordEntry, wordList, rfl⟩
  rw [listDeleteHead, Ram.load_ok wordList, Except.ok_bind, rehead]
  split
  · rw [next, Except.ok_bind, Ram.store_ok wordList]
  · rfl

/-- `list_delete` does nothing if a pointer is `NULL`. -/
theorem listDelete_of_null (wordEntry : ram.isWord entry = true)
    (wordPrev : ram.isWord (prevAt entry) = true)
    (null : words entry = 0 ∨ words (prevAt entry) = 0) :
    listDelete ram words list entry = .ok words := by
  rw [listDelete, Ram.load_ok wordEntry, Except.ok_bind, Ram.load_ok wordPrev, Except.ok_bind,
    if_pos null]
  rfl

/-- What `list_delete` does if no pointer is `NULL`. -/
theorem listDelete_eq_ok_iff (wordEntry : ram.isWord entry = true)
    (wordPrev : ram.isWord (prevAt entry) = true) (wordList : ram.isWord list = true)
    (linked : ¬ (words entry = 0 ∨ words (prevAt entry) = 0)) :
    listDelete ram words list entry = .ok words' ↔
      ram.isWord (words (prevAt entry)) = true ∧ ram.isWord (prevAt (words entry)) = true ∧
        clear (rehead (unlink words entry) list entry) entry = words' := by
  have again : Function.update words (words (prevAt entry)) (words entry) entry = words entry := by
    rcases Classical.em (entry = words (prevAt entry)) with same | other
    · rw [← same, Function.update_self]
    · rw [Function.update_of_ne other]
  rw [listDelete, Ram.load_ok wordEntry, Except.ok_bind, Ram.load_ok wordPrev, Except.ok_bind,
    if_neg linked]
  simp only [Except.bind_eq_ok, Ram.load_eq_ok_iff, Ram.store_eq_ok_iff,
    listDeleteHead_eq wordEntry wordList, Except.ok.injEq]
  constructor
  · intro returned
    obtain ⟨_, ⟨word, rfl⟩, _, ⟨-, rfl⟩, _, ⟨-, rfl⟩, _, ⟨wordNext, rfl⟩, _, rfl, _, ⟨-, rfl⟩, -,
      rfl⟩ := returned
    rw [again] at wordNext
    rw [again]
    exact ⟨word, wordNext, rfl⟩
  · intro steps
    obtain ⟨word, wordNext, rfl⟩ := steps
    refine ⟨_, ⟨word, rfl⟩, _, ⟨wordEntry, rfl⟩, _, ⟨wordPrev, rfl⟩, _, ⟨?_, rfl⟩, _, rfl, _,
      ⟨wordPrev, rfl⟩, wordEntry, ?_⟩
    · rwa [again]
    · rw [again]
      rfl

theorem listAppendEnd_of_head (wordList : ram.isWord list = true) (head : words list ≠ 0) :
    listAppendEnd ram words list entry = listInsertBefore ram words (words list) entry := by
  rw [listAppendEnd, Ram.load_ok wordList, Except.ok_bind, if_pos head]

theorem listAppendEnd_of_empty (wordEntry : ram.isWord entry = true)
    (wordPrev : ram.isWord (prevAt entry) = true) (wordList : ram.isWord list = true)
    (empty : words list = 0) :
    listAppendEnd ram words list entry = .ok (close words list entry) := by
  rw [listAppendEnd, Ram.load_ok wordList, Except.ok_bind, if_neg (not_not.mpr empty),
    Ram.store_ok wordPrev, Except.ok_bind, Ram.store_ok wordEntry, Except.ok_bind,
    Ram.store_ok wordList]
  rfl

end Specs

/-! ## What `list_foreach` goes through -/

section Path

variable {ram : Ram} {words : Words} {list entry : UInt32}

/-- The entries from one on, up to the end of the list. -/
def Path (ram : Ram) (words : Words) (list : UInt32) : UInt32 → List UInt32 → Prop
  | entry, [] => entry = 0
  | entry, a :: rest =>
    entry = a ∧ a ≠ 0 ∧ ∃ next, listNext ram words list a = .ok next ∧ Path ram words list next rest

/-- The entries from the head on. -/
def Visits (ram : Ram) (words : Words) (list : UInt32) (entries : List UInt32) : Prop :=
  Path ram words list (words list) entries

/-- An entry is followed by the next one of a path. -/
theorem Path.chain {entries : List UInt32} (path : Path ram words list entry entries) :
    entries.IsChain fun a b => words a = b := by
  induction entries generalizing entry with
  | nil => exact .nil
  | cons a rest ih =>
    obtain ⟨-, -, next, step, rest'⟩ := path
    cases rest with
    | nil => exact .singleton a
    | cons b rest =>
      refine List.isChain_cons_cons.mpr ⟨?_, ih rest'⟩
      obtain ⟨same, notNull, -⟩ := rest'
      obtain ⟨-, -, value⟩ := listNext_eq_ok_iff.mp step
      split at value
      · exact absurd (same.symm.trans value.symm) notNull
      · exact value.trans same

/-- The last entry of a path is followed by the head or by `NULL`. -/
theorem Path.ends {a : UInt32} (path : Path ram words list entry [a]) :
    words a = words list ∨ words a = 0 := by
  obtain ⟨-, -, next, step, null⟩ := path
  obtain ⟨-, -, value⟩ := listNext_eq_ok_iff.mp step
  split at value
  · rename_i same
    exact .inl same
  · exact .inr (value.trans null)

/-- A ring from the entry behind the head on. -/
theorem path_of_chain {entries : List UInt32} (wordList : ram.isWord list = true)
    (eachWord : ∀ a ∈ entries, ram.isWord a = true) (noHead : words list ∉ entries.tail)
    (chain : (entries ++ [words list]).IsChain fun a b => words a = b)
    (start : entry = entries.headD 0) : Path ram words list entry entries := by
  induction entries generalizing entry with
  | nil => exact start
  | cons a rest ih =>
    obtain ⟨word, eachRest⟩ := List.forall_mem_cons.mp eachWord
    refine ⟨start, Ram.ne_zero_of_isWord word, _, listNext_eq_ok_iff.mpr ⟨word, wordList, rfl⟩, ?_⟩
    cases rest with
    | nil =>
      have same : words a = words list := (List.isChain_cons_cons.mp chain).1
      rw [if_pos same]
      rfl
    | cons b rest =>
      obtain ⟨same, chain⟩ := List.isChain_cons_cons.mp chain
      have other : b ≠ words list := fun head => noHead (head ▸ List.mem_cons_self)
      rw [same, if_neg other]
      exact ih eachRest (fun mem => noHead (List.mem_cons_of_mem _ mem)) chain rfl

end Path

/-! ## The list in memory -/

/-- A word that is taken for a pointer. -/
def pointer (word : UInt32) : Option UInt32 := if word = 0 then none else some word

theorem pointer_eq_some {word a : UInt32} (same : pointer word = some a) : word = a := by
  unfold pointer at same
  split at same
  · cases same
  · exact Option.some.inj same

/-- The list that the words make. -/
def listAt (words : Words) (list : UInt32) : ListT UInt32 where
  next a := pointer (words a)
  prev a := pointer (words (prevAt a))
  head := pointer (words list)

/-- What `list_append` needs of the list. -/
structure Queue (words : Words) (list : UInt32) (L : List UInt32) : Prop where
  head : words list = L.headD 0
  chain : L.IsChain fun a b => words a = b
  last : ∀ a ∈ L.head?, L.getLast? = some (words (prevAt a))

theorem queue_of_represents {words : Words} {list : UInt32} {L : List UInt32}
    (rep : Represents (listAt words list) L) : Queue words list L := by
  have head : pointer (words list) = L.head? := rep.head
  cases L with
  | nil =>
    refine ⟨?_, .nil, fun a mem => by cases mem⟩
    by_contra notNull
    rw [pointer, if_neg (show words list ≠ 0 from notNull)] at head
    cases head
  | cons a L =>
    refine ⟨pointer_eq_some head, ?_, fun b mem => ?_⟩
    · have chain := rep.ring.chain.left_of_append
      exact chain.imp fun b c linked => pointer_eq_some linked.1
    · obtain rfl : a = b := Option.some.inj mem
      have prev : pointer (words (prevAt a)) = (a :: L).getLast? := rep.ring.prev_head
      cases last : (a :: L).getLast? with
      | none => simp at last
      | some z => rw [pointer_eq_some (prev.trans last)]

/-- The last entry is linked to the first one. -/
theorem last_of_represents {words : Words} {list f z : UInt32} {L T : List UInt32}
    (rep : Represents (listAt words list) L) (ends : L = T ++ [z]) (starts : L.head? = some f) :
    words z = f := by
  subst ends
  have next : pointer (words z) = ([] ++ T ++ [z]).head? := rep.ring.next_eq
  exact pointer_eq_some (next.trans starts)

theorem isChain_congr {words words' : Words} {L : List UInt32}
    (same : ∀ a ∈ L.dropLast, words' a = words a) (chain : L.IsChain fun a b => words a = b) :
    L.IsChain fun a b => words' a = b := by
  induction L with
  | nil => exact .nil
  | cons a L ih =>
    cases L with
    | nil => exact .singleton a
    | cons b L =>
      obtain ⟨next, chain⟩ := List.isChain_cons_cons.mp chain
      refine List.isChain_cons_cons.mpr ⟨?_, ih (fun c mem => same c ?_) chain⟩
      · rw [same a (by simp), next]
      · simp [mem]

/-- An entry that is not the last one is followed by another one. -/
theorem exists_next {words : Words} {L : List UInt32} {a : UInt32}
    (chain : L.IsChain fun a b => words a = b) (mem : a ∈ L.dropLast) : words a ∈ L.tail := by
  induction L with
  | nil => cases mem
  | cons b L ih =>
    cases L with
    | nil => cases mem
    | cons c L =>
      obtain ⟨next, chain⟩ := List.isChain_cons_cons.mp chain
      rcases List.mem_cons.mp mem with rfl | mem
      · exact next ▸ List.mem_cons_self
      · exact List.mem_cons_of_mem _ (ih chain mem)

/-- The words of the entries that are not the last one are determined by the entries. -/
theorem eq_of_chains {words words' : Words} {L : List UInt32} {a : UInt32}
    (chain : L.IsChain fun a b => words a = b) (chain' : L.IsChain fun a b => words' a = b)
    (mem : a ∈ L.dropLast) : words a = words' a := by
  induction L with
  | nil => cases mem
  | cons b L ih =>
    cases L with
    | nil => cases mem
    | cons c L =>
      obtain ⟨next, chain⟩ := List.isChain_cons_cons.mp chain
      obtain ⟨next', chain'⟩ := List.isChain_cons_cons.mp chain'
      rcases List.mem_cons.mp mem with rfl | mem
      · exact next.trans next'.symm
      · exact ih chain chain' mem

end TheFirmware.ListMemory
