import Mathlib.Data.List.Sort

/-!
# Stable sorting by a key

A list whose elements have increasing positions is sorted by a key, and elements with the same key
stay in the order of their positions. The result is the only list of these elements in the order
`Before`, which compares the keys first and then the positions; so a list is known to be the stable
sort as soon as it is in this order (`eq_of_before`).
-/

namespace TheFirmware.StableSort

variable {α : Type} {key pos : α → Nat} {A B L : List α} {a b : α}

/-- Sort by a key. The sort of the library is stable. -/
def sort (key : α → Nat) (L : List α) : List α := L.mergeSort fun a b => key a ≤ key b

/-- `a` has a smaller key than `b`, or the same key and a smaller position. -/
def Before (key pos : α → Nat) (a b : α) : Prop := key a < key b ∨ key a = key b ∧ pos a < pos b

instance (a b : α) : Decidable (Before key pos a b) := inferInstanceAs (Decidable (_ ∨ _))

theorem Before.asymm (before : Before key pos a b) : ¬ Before key pos b a := by
  unfold Before at before ⊢
  omega

@[simp] theorem mem_sort : a ∈ sort key L ↔ a ∈ L := List.mem_mergeSort

/-- Two elements of a list without duplicates come in one order only. -/
theorem not_both_orders (nodup : L.Nodup) (first : [a, b].Sublist L) : ¬ [b, a].Sublist L := by
  induction L with
  | nil => cases first
  | cons c L ih =>
      obtain ⟨fresh, nodup⟩ := List.nodup_cons.mp nodup
      intro second
      cases first with
      | cons _ first =>
          cases second with
          | cons _ second => exact ih nodup first second
          | cons_cons _ second => exact fresh (first.subset (by simp))
      | cons_cons _ first =>
          cases second with
          | cons _ second => exact fresh (second.subset (by simp))
          | cons_cons _ second => exact fresh (first.subset (by simp))

theorem keyLe_trans (a b c : α) (first : decide (key a ≤ key b) = true)
    (second : decide (key b ≤ key c) = true) : decide (key a ≤ key c) = true := by
  simp only [decide_eq_true_eq] at first second ⊢
  exact Nat.le_trans first second

theorem keyLe_total (a b : α) : (decide (key a ≤ key b) || decide (key b ≤ key a)) = true := by
  simp only [Bool.or_eq_true, decide_eq_true_eq]
  exact Nat.le_total _ _

/-- Sorting a list with increasing positions gives the order `Before`. -/
theorem sort_before (increasing : L.Pairwise fun a b => pos a < pos b) :
    (sort key L).Pairwise (Before key pos) := by
  have nodup : (sort key L).Nodup := by
    rw [sort, (List.mergeSort_perm L _).nodup_iff]
    refine increasing.imp ?_
    rintro a b lt rfl
    exact Nat.lt_irrefl _ lt
  have sorted : (sort key L).Pairwise fun a b => decide (key a ≤ key b) = true :=
    List.pairwise_mergeSort keyLe_trans keyLe_total L
  rw [List.pairwise_iff_forall_sublist] at sorted ⊢
  intro a b first
  have le : key a ≤ key b := by simpa using sorted first
  rcases Nat.lt_or_eq_of_le le with lt | same
  · exact .inl lt
  · refine .inr ⟨same, ?_⟩
    have ne : a ≠ b := by
      rintro rfl
      exact not_both_orders nodup first first
    -- were `b` in front of `a` in the list, sorting would keep it there
    by_contra notLt
    have swapped : [b, a].Sublist L := by
      have memA : a ∈ L := mem_sort.mp (first.subset (by simp))
      have memB : b ∈ L := mem_sort.mp (first.subset (by simp))
      obtain ⟨S, T, rfl⟩ := List.append_of_mem memB
      rw [List.pairwise_append, List.pairwise_cons] at increasing
      obtain ⟨-, ⟨later, -⟩, across⟩ := increasing
      rcases List.mem_append.mp memA with memS | memT
      · exact absurd (across a memS b List.mem_cons_self) notLt
      · rcases List.mem_cons.mp memT with same | memT
        · exact absurd same ne
        · exact (List.cons_sublist_cons.mpr (List.singleton_sublist.mpr memT)).trans
            (List.sublist_append_right S _)
    apply not_both_orders nodup first
    exact List.pair_sublist_mergeSort keyLe_trans keyLe_total (by simpa using same.symm.le) swapped

/-- A list in the order `Before` is determined by its elements. -/
theorem eq_of_before (key pos : α → Nat) (first : A.Pairwise (Before key pos))
    (second : B.Pairwise (Before key pos)) (same : ∀ a, a ∈ A ↔ a ∈ B) : A = B := by
  have nodup : ∀ {L : List α}, L.Pairwise (Before key pos) → L.Nodup := by
    intro L before
    refine before.imp ?_
    rintro a b before rfl
    exact before.asymm before
  have perm : A.Perm B := (List.perm_ext_iff_of_nodup (nodup first) (nodup second)).mpr same
  exact perm.eq_of_pairwise (fun a b _ _ before after => absurd after before.asymm) first second

end TheFirmware.StableSort
