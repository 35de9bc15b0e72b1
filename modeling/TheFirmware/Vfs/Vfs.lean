import TheFirmware.Core.String

/-!
# The file system of `lib/vfs/vfs.c`

A vnode is a pointer, and `vnodes` is what is in memory there: a directory of staticfs with its
entries up to the one without a name, or a callable. `vfs_lookup` hands each directory all that is
left of the path, and relies on `staticfs_lookup` to take a `/` for the end of the name. It finds
what is found by following the names one by one (`vfsLookup_follows`).
-/

namespace TheFirmware.Vfs

open CString (ascii)
open Strings

variable {ν φ : Type}

/-- `struct staticfs_vnode_entry` -/
structure Entry (ν : Type) : Type where
  name : Str
  vnode : ν

/-- `struct staticfs_vnode` and `struct staticfs_callable_vnode`, by the kind of the vnode. -/
inductive Vnode (ν φ : Type) : Type
  | dir (entries : List (Entry ν))
  | callable (func : φ)

/-- `len` in `staticfs_lookup`: how long the name is, up to a `/`. -/
def nameLen (name : Str) : Nat :=
  match strchr name 0x2F with
  | some deli => name.length - deli.length
  | none => name.length

/-- The loop of `staticfs_lookup` -/
def staticfsLookup (name : Str) : List (Entry ν) → Option ν
  | [] => none
  | entry :: entries =>
    if entry.name.length ≠ nameLen name then staticfsLookup name entries
    else if strncmp entry.name name (nameLen name) = 0 then some entry.vnode
    else staticfsLookup name entries

/-- `vnode_lookup` -/
def vnodeLookup (vnodes : ν → Vnode ν φ) (vnode : ν) (name : Str) : Option ν :=
  match vnodes vnode with
  | .dir entries => staticfsLookup name entries
  | .callable _ => none

/-- The loop of `vfs_lookup` -/
def vfsLookupLoop (vnodes : ν → Vnode ν φ) : Nat → Option ν → Str → Except Fault (Option ν)
  | 0, _, _ => .error .outOfFuel
  | _ + 1, none, _ => .ok none
  | fuel + 1, some node, path =>
    let node := vnodeLookup vnodes node path
    match strchr path 0x2F with
    | none => .ok node
    | some deli => vfsLookupLoop vnodes fuel node deli.tail

/-- `vfs_lookup`, where `root` is what `vfs_set_root` has been called with. -/
def vfsLookup (vnodes : ν → Vnode ν φ) (root : Option ν) (fuel : Nat) (path : Str) :
    Except Fault (Option ν) :=
  vfsLookupLoop vnodes fuel root path

/-! ## Following names -/

/-- The first entry of a directory with the name. -/
def Vnode.find (name : Str) : Vnode ν φ → Option ν
  | dir entries => (entries.find? (·.name = name)).map Entry.vnode
  | callable _ => none

/-- The vnode that is reached by the names one after the other. -/
def follow (vnodes : ν → Vnode ν φ) (vnode : ν) : List Str → Option ν
  | [] => some vnode
  | name :: names => ((vnodes vnode).find name).bind fun child => follow vnodes child names

/-- The names with a `/` between them. -/
def path (names : List Str) : Str := [0x2F].intercalate names

section Lookup

variable {name rest : Str} {names : List Str} {vnodes : ν → Vnode ν φ}

theorem nameLen_of_not_mem (noSlash : 0x2F ∉ name) : nameLen name = name.length := by
  rw [nameLen, strchr_of_not_mem noSlash]

theorem nameLen_append (noSlash : 0x2F ∉ name) (rest : Str) :
    nameLen (name ++ 0x2F :: rest) = name.length := by
  rw [nameLen, strchr_append noSlash]
  simp

/-- A name up to the end of the path or the next `/` is looked up as it is. -/
theorem staticfsLookup_eq (len : nameLen rest = name.length) (starts : name <+: rest)
    (entries : List (Entry ν)) :
    staticfsLookup rest entries = (entries.find? (·.name = name)).map Entry.vnode := by
  have front : rest.take name.length = name := List.prefix_iff_eq_take.mp starts |>.symm
  induction entries with
  | nil => rfl
  | cons entry entries ih =>
    have compare : strncmp entry.name rest name.length = 0 ↔ entry.name.take name.length = name := by
      rw [strncmp_eq_zero_iff, front]
    rw [staticfsLookup, len, ih]
    rcases Classical.em (entry.name.length = name.length) with length | length
    · rw [List.take_of_length_le (Nat.le_of_eq length)] at compare
      rw [if_neg (not_not.mpr length)]
      rcases Classical.em (entry.name = name) with same | other
      · rw [if_pos (compare.mpr same), List.find?_cons_of_pos (by simpa using same)]
        rfl
      · rw [if_neg (compare.not.mpr other), List.find?_cons_of_neg (by simpa using other)]
    · have other : entry.name ≠ name := fun same => length (congrArg List.length same)
      rw [if_pos length, List.find?_cons_of_neg (by simpa using other)]

theorem vnodeLookup_eq (len : nameLen rest = name.length) (starts : name <+: rest) (vnode : ν) :
    vnodeLookup vnodes vnode rest = (vnodes vnode).find name := by
  unfold vnodeLookup Vnode.find
  cases vnodes vnode with
  | dir entries => exact staticfsLookup_eq len starts entries
  | callable func => rfl

theorem path_cons_cons (name next : Str) (names : List Str) :
    path (name :: next :: names) = name ++ 0x2F :: path (next :: names) := by
  simp [path, List.intercalate, List.intersperse]

/-- The loop follows the names, from any vnode on. -/
theorem vfsLookupLoop_follows (vnodes : ν → Vnode ν φ) (nonempty : names ≠ [])
    (noSlash : ∀ name ∈ names, 0x2F ∉ name) (vnode : ν) :
    Returns (fun fuel => vfsLookupLoop vnodes fuel (some vnode) (path names))
      (follow vnodes vnode names) := by
  induction names generalizing vnode with
  | nil => exact absurd rfl nonempty
  | cons name names ih =>
    obtain ⟨noSlashName, noSlash⟩ := List.forall_mem_cons.mp noSlash
    apply Returns.succ
    cases names with
    | nil =>
      have whole : path [name] = name := by simp [path, List.intercalate]
      have found : vnodeLookup vnodes vnode name = (vnodes vnode).find name :=
        vnodeLookup_eq (nameLen_of_not_mem noSlashName) List.prefix_rfl vnode
      have last : follow vnodes vnode [name] = (vnodes vnode).find name := by
        simp [follow]
      simp only [whole, vfsLookupLoop, strchr_of_not_mem noSlashName, found, last]
      exact Returns.ok _
    | cons next names =>
      have found : vnodeLookup vnodes vnode (name ++ 0x2F :: path (next :: names)) =
          (vnodes vnode).find name :=
        vnodeLookup_eq (nameLen_append noSlashName _) (List.prefix_append ..) vnode
      rw [follow]
      simp only [path_cons_cons name, vfsLookupLoop, strchr_append noSlashName, found,
        List.tail_cons]
      cases (vnodes vnode).find name with
      | none =>
        apply Returns.succ
        exact Returns.ok _
      | some child => exact ih (List.cons_ne_nil _ _) noSlash child

end Lookup

/-- **Path walk**: `vfs_lookup` of names with a `/` between them returns the vnode that is reached
from the root by the names one after the other, each time by the first entry with exactly this
name, and `NULL` if there is none. -/
theorem vfsLookup_follows (vnodes : ν → Vnode ν φ) (root : ν) (names : List Str)
    (nonempty : names ≠ []) (noSlash : ∀ name ∈ names, 0x2F ∉ name) :
    Returns (fun fuel => vfsLookup vnodes (some root) fuel (path names))
      (follow vnodes root names) :=
  vfsLookupLoop_follows vnodes nonempty noSlash root

/-- A root with the entries `l` and `lib`, where `lib` is a directory with a callable `a`. -/
def someVnodes : Nat → Vnode Nat String
  | 0 => .dir [⟨ascii "l", 2⟩, ⟨ascii "lib", 1⟩, ⟨ascii "lib", 3⟩]
  | 1 => .dir [⟨ascii "a", 3⟩]
  | _ => .callable "f"

theorem vfsLookup_follows_lib :
    Returns (fun fuel => vfsLookup someVnodes (some 0) fuel (path [ascii "lib", ascii "a"]))
      (some 3) :=
  vfsLookup_follows someVnodes 0 [ascii "lib", ascii "a"] (List.cons_ne_nil _ _)
    (List.forall_mem_cons.mpr ⟨by decide, List.forall_mem_singleton.mpr (by decide)⟩)

end TheFirmware.Vfs
