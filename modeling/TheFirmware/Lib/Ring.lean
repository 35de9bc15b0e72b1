import Mathlib.Data.List.Chain
import Mathlib.Data.List.Rotate
import Mathlib.Data.List.Nodup

/-!
# Circular doubly linked lists

`Links` are the two pointers of every entry of a pool, and `Ring l L` says that the entries `L` are
linked in this order, the last one back to the first. A ring has no distinguished entry: it may be
read from any of its entries (`Ring.isRotated`), so an edit at some entry is an edit at the front.

The two edits are `Links.splice`, which puts an entry between two neighbours, and `Links.bypass`,
which takes it out again.
-/

namespace TheFirmware

variable {α : Type}

/-- The successor and the predecessor of every entry. -/
structure Links (α : Type) : Type where
  next : α → Option α
  prev : α → Option α

namespace Links

/-- The two entries are neighbours. -/
def Linked (l : Links α) (a b : α) : Prop := l.next a = some b ∧ l.prev b = some a

/-- The entry is in no ring. -/
def Unlinked (l : Links α) (a : α) : Prop := l.next a = none ∧ l.prev a = none

/-- The pointers of an entry are the same. -/
def SameAt (l l' : Links α) (a : α) : Prop := l'.next a = l.next a ∧ l'.prev a = l.prev a

theorem SameAt.trans {l l' l'' : Links α} {a : α} (first : SameAt l l' a)
    (second : SameAt l' l'' a) : SameAt l l'' a :=
  ⟨second.1.trans first.1, second.2.trans first.2⟩

theorem Unlinked.transport {l l' : Links α} {a : α} (unlinked : l.Unlinked a)
    (same : SameAt l l' a) : l'.Unlinked a :=
  ⟨same.1.trans unlinked.1, same.2.trans unlinked.2⟩

/-- A chain reads the successors of all entries but the last, and the predecessors of all but the
first. -/
theorem isChain_congr {l l' : Links α} {L : List α}
    (next : ∀ a ∈ L.dropLast, l'.next a = l.next a) (prev : ∀ a ∈ L.tail, l'.prev a = l.prev a)
    (chain : L.IsChain l.Linked) : L.IsChain l'.Linked := by
  induction L with
  | nil => exact .nil
  | cons a L ih =>
      cases L with
      | nil => exact .singleton a
      | cons b L =>
          rw [List.isChain_cons_cons] at chain ⊢
          obtain ⟨⟨nextA, prevB⟩, rest⟩ := chain
          refine ⟨⟨?_, ?_⟩, ih ?_ ?_ rest⟩
          · rw [next a (by simp), nextA]
          · rw [prev b (by simp), prevB]
          · intro c mem
            exact next c (by simp [mem])
          · intro c mem
            exact prev c (List.mem_cons_of_mem b mem)

variable [DecidableEq α]

/-- Change the successor of an entry. -/
def setNext (l : Links α) (a : α) (b : Option α) : Links α :=
  { l with next := Function.update l.next a b }

/-- Change the predecessor of an entry. -/
def setPrev (l : Links α) (a : α) (b : Option α) : Links α :=
  { l with prev := Function.update l.prev a b }

@[simp] theorem setNext_prev (l : Links α) (a : α) (b : Option α) :
    (l.setNext a b).prev = l.prev := rfl

@[simp] theorem setPrev_next (l : Links α) (a : α) (b : Option α) :
    (l.setPrev a b).next = l.next := rfl

@[simp] theorem setNext_next_self (l : Links α) (a : α) (b : Option α) :
    (l.setNext a b).next a = b := by
  simp [setNext]

@[simp] theorem setPrev_prev_self (l : Links α) (a : α) (b : Option α) :
    (l.setPrev a b).prev a = b := by
  simp [setPrev]

@[simp] theorem setNext_next_of_ne {l : Links α} {a c : α} {b : Option α} (ne : c ≠ a) :
    (l.setNext a b).next c = l.next c := by
  simp [setNext, ne]

@[simp] theorem setPrev_prev_of_ne {l : Links α} {a c : α} {b : Option α} (ne : c ≠ a) :
    (l.setPrev a b).prev c = l.prev c := by
  simp [setPrev, ne]

/-- Put `e` between the neighbours `z` and `x`. -/
def splice (l : Links α) (z e x : α) : Links α :=
  (((l.setPrev e (some z)).setNext z (some e)).setPrev x (some e)).setNext e (some x)

/-- Make `z` and `x` neighbours. -/
def bypass (l : Links α) (z x : α) : Links α := (l.setNext z (some x)).setPrev x (some z)

/-- Take the pointers of an entry away. -/
def clear (l : Links α) (e : α) : Links α := (l.setPrev e none).setNext e none

/-- Link an entry to itself. -/
def close (l : Links α) (e : α) : Links α := (l.setPrev e (some e)).setNext e (some e)

theorem splice_sameAt {l : Links α} {z e x c : α} (neZ : c ≠ z) (neE : c ≠ e) (neX : c ≠ x) :
    SameAt l (l.splice z e x) c := by
  simp [SameAt, splice, neZ, neE, neX]

theorem bypass_sameAt {l : Links α} {z x c : α} (neZ : c ≠ z) (neX : c ≠ x) :
    SameAt l (l.bypass z x) c := by
  simp [SameAt, bypass, neZ, neX]

theorem clear_sameAt {l : Links α} {e c : α} (ne : c ≠ e) : SameAt l (l.clear e) c := by
  simp [SameAt, clear, ne]

theorem close_sameAt {l : Links α} {e c : α} (ne : c ≠ e) : SameAt l (l.close e) c := by
  simp [SameAt, close, ne]

theorem clear_unlinked (l : Links α) (e : α) : (l.clear e).Unlinked e := by
  simp [Unlinked, clear]

end Links

/-- The entries `L` are linked in this order, the last one to the first. -/
structure Ring (l : Links α) (L : List α) : Prop where
  nodup : L.Nodup
  chain : (L ++ L.head?.toList).IsChain l.Linked

namespace Ring

variable {l l' : Links α} {L A B T : List α} {a e x z : α}

theorem nil : Ring l [] := ⟨List.nodup_nil, .nil⟩

/-- A ring depends on the pointers of its entries only. -/
theorem congr (ring : Ring l L) (same : ∀ a ∈ L, l.SameAt l' a) : Ring l' L := by
  refine ⟨ring.nodup, Links.isChain_congr ?_ ?_ ring.chain⟩
  · intro a mem
    apply (same a _).1
    cases L with
    | nil => cases mem
    | cons b L => rwa [List.head?_cons, Option.toList_some, List.dropLast_concat] at mem
  · intro a mem
    apply (same a _).2
    cases L with
    | nil => cases mem
    | cons b L =>
        have later : a ∈ L ∨ a = b := by simpa using mem
        rcases later with later | rfl
        · exact List.mem_cons_of_mem b later
        · exact List.mem_cons_self

/-- Split the entries before the last one. -/
theorem exists_last (ring : Ring l (x :: T)) :
    ∃ S z, x :: T = S ++ [z] ∧ z ∉ S ∧ (S ++ [z]).IsChain l.Linked ∧ l.Linked z x := by
  obtain ⟨S, z, split⟩ : ∃ S z, x :: T = S ++ [z] :=
    ⟨_, _, (List.dropLast_append_getLast (List.cons_ne_nil x T)).symm⟩
  have chain := ring.chain
  rw [List.head?_cons, Option.toList_some, split] at chain
  have nodup := ring.nodup
  rw [split, List.nodup_append] at nodup
  refine ⟨S, z, split, ?_, chain.left_of_append, ?_⟩
  · intro mem
    exact nodup.2.2 z mem z (List.mem_singleton_self z) rfl
  · rw [List.append_assoc] at chain
    exact (List.isChain_append_cons_cons.mp chain).2.1

theorem rotate_one (ring : Ring l (a :: T)) : Ring l (T ++ [a]) := by
  have nodup : (T ++ [a]).Nodup := List.nodup_append_comm.mp ring.nodup
  refine ⟨nodup, ?_⟩
  cases T with
  | nil => exact ring.chain
  | cons b T =>
      have chain := ring.chain
      rw [List.head?_cons, Option.toList_some, List.cons_append, List.cons_append,
        List.isChain_cons_cons] at chain
      rw [List.cons_append, List.head?_cons, Option.toList_some, ← List.cons_append,
        List.append_assoc, List.singleton_append, List.isChain_append_cons_cons]
      exact ⟨chain.2, chain.1, .singleton b⟩

/-- A ring may be read from any of its entries. -/
theorem isRotated (ring : Ring l L) (rotated : L ~r B) : Ring l B := by
  obtain ⟨n, rfl⟩ := rotated
  induction n generalizing L with
  | zero => rwa [List.rotate_zero]
  | succ n ih =>
      cases L with
      | nil => rwa [List.rotate_nil]
      | cons a L =>
          rw [List.rotate_cons_succ]
          exact ih ring.rotate_one

theorem rotate (ring : Ring l (A ++ B)) : Ring l (B ++ A) := ring.isRotated List.isRotated_append

/-- The successor of the first entry. -/
theorem next_head (ring : Ring l (a :: T)) : l.next a = (T ++ [a]).head? := by
  have chain := ring.chain
  cases T with
  | nil => exact (List.isChain_cons_cons.mp chain).1.1
  | cons b T => exact (List.isChain_cons_cons.mp chain).1.1

/-- The predecessor of the first entry. -/
theorem prev_head (ring : Ring l (a :: T)) : l.prev a = (a :: T).getLast? := by
  obtain ⟨S, z, split, -, -, linked⟩ := ring.exists_last
  rw [split, List.getLast?_concat]
  exact linked.2

/-- The successor of an entry. -/
theorem next_eq (ring : Ring l (A ++ a :: B)) : l.next a = (B ++ A ++ [a]).head? :=
  ring.rotate.next_head

/-- The entries of a ring have both pointers. -/
theorem linked_of_mem (ring : Ring l L) (mem : a ∈ L) :
    ∃ y z, l.next a = some y ∧ l.prev a = some z := by
  obtain ⟨A, B, rfl⟩ := List.append_of_mem mem
  have turned : Ring l (a :: (B ++ A)) := ring.rotate
  obtain ⟨S, z, -, -, -, linked⟩ := turned.exists_last
  have next := turned.next_head
  cases head : (B ++ A ++ [a]).head? with
  | none => simp at head
  | some y => exact ⟨y, z, next.trans head, linked.2⟩

/-- The entries of a ring are determined by its first one. -/
theorem unique (ring : Ring l (x :: T)) (ring' : Ring l (x :: B)) : T = B := by
  have walk : ∀ (T B : List α) (a : α), x ∉ T → x ∉ B → (a :: T ++ [x]).IsChain l.Linked →
      (a :: B ++ [x]).IsChain l.Linked → T = B := by
    intro T
    induction T with
    | nil =>
        intro B a _ notMemB chain chainB
        cases B with
        | nil => rfl
        | cons b B =>
            have next := (List.isChain_cons_cons.mp chain).1.1
            rw [(List.isChain_cons_cons.mp chainB).1.1] at next
            cases next
            simp at notMemB
    | cons c T ih =>
        intro B a notMem notMemB chain chainB
        obtain ⟨⟨next, -⟩, rest⟩ := List.isChain_cons_cons.mp chain
        cases B with
        | nil =>
            rw [(List.isChain_cons_cons.mp chainB).1.1] at next
            cases next
            simp at notMem
        | cons b B =>
            obtain ⟨⟨nextB, -⟩, restB⟩ := List.isChain_cons_cons.mp chainB
            rw [nextB] at next
            cases next
            rw [List.mem_cons, not_or] at notMem notMemB
            rw [ih B c notMem.2 notMemB.2 rest restB]
  exact walk T B x (List.nodup_cons.mp ring.nodup).1 (List.nodup_cons.mp ring'.nodup).1
    ring.chain ring'.chain

variable [DecidableEq α]

/-- An entry linked to itself is a ring. -/
theorem single (l : Links α) (e : α) : Ring (l.close e) [e] := by
  refine ⟨List.nodup_singleton e, ?_⟩
  simp [Links.Linked, Links.close]

/-- Putting an entry in front of the first one. -/
theorem splice (ring : Ring l (x :: T)) (last : l.prev x = some z) (fresh : e ∉ x :: T) :
    Ring (l.splice z e x) (e :: x :: T) := by
  obtain ⟨S, z', split, notMem, chain, linked⟩ := ring.exists_last
  obtain rfl : z = z' := Option.some.inj (last.symm.trans linked.2)
  have neX : x ≠ e := fun same => fresh (same ▸ List.mem_cons_self)
  have neZ : z ≠ e := fun same => fresh (by rw [split, ← same]; simp)
  refine ⟨List.nodup_cons.mpr ⟨fresh, ring.nodup⟩, ?_⟩
  rw [List.head?_cons, Option.toList_some, List.cons_append, List.cons_append,
    List.isChain_cons_cons]
  refine ⟨by simp [Links.Linked, Links.splice], ?_⟩
  rw [← List.cons_append, split, List.append_assoc, List.singleton_append,
    List.isChain_append_cons_cons]
  refine ⟨Links.isChain_congr ?_ ?_ chain, ?_, .singleton e⟩
  · intro a mem
    rw [List.dropLast_concat] at mem
    have neA : a ≠ e := fun same => fresh (by rw [split, ← same]; simp [mem])
    have neLast : a ≠ z := fun same => notMem (same ▸ mem)
    simp [Links.splice, neA, neLast]
  · intro a mem
    rw [← split, List.tail_cons] at mem
    have neA : a ≠ e := fun same => fresh (same ▸ List.mem_cons_of_mem x mem)
    have neFirst : a ≠ x := fun same => (List.nodup_cons.mp ring.nodup).1 (same ▸ mem)
    simp [Links.splice, neA, neFirst]
  · simp [Links.Linked, Links.splice, neZ, neX.symm]

/-- Taking the first entry out. -/
theorem bypass (ring : Ring l (e :: x :: T)) (last : l.prev e = some z) :
    Ring ((l.bypass z x).clear e) (x :: T) := by
  obtain ⟨fresh, nodup⟩ := List.nodup_cons.mp ring.nodup
  obtain ⟨S, z', split, -, chain, linked⟩ := ring.exists_last
  obtain rfl : z = z' := Option.some.inj (last.symm.trans linked.2)
  obtain ⟨S, rfl⟩ : ∃ R, S = e :: R := by
    cases S with
    | nil => simp at split
    | cons b R => exact ⟨R, by rw [(List.cons.inj split).1]⟩
  have inner : x :: T = S ++ [z] := (List.cons.inj split).2
  have notMem : z ∉ S := by
    rw [inner, List.nodup_append] at nodup
    exact fun mem => nodup.2.2 z mem z (List.mem_singleton_self z) rfl
  have cleared : Ring (l.bypass z x) (x :: T) := by
    refine ⟨nodup, ?_⟩
    rw [List.head?_cons, Option.toList_some, inner, List.append_assoc, List.singleton_append,
      List.isChain_append_cons_cons]
    refine ⟨Links.isChain_congr ?_ ?_ chain.tail, by simp [Links.Linked, Links.bypass],
      .singleton x⟩
    · intro a mem
      have memS : a ∈ S := by simpa using mem
      have neLast : a ≠ z := fun same => notMem (same ▸ memS)
      simp [Links.bypass, neLast]
    · intro a mem
      have memT : a ∈ T := by
        rwa [← inner] at mem
      have neFirst : a ≠ x := fun same => (List.nodup_cons.mp nodup).1 (same ▸ memT)
      simp [Links.bypass, neFirst]
  refine cleared.congr fun a mem => Links.clear_sameAt ?_
  exact fun same => fresh (same ▸ mem)

end Ring

end TheFirmware
