import TheFirmware.Console.Format
import TheFirmware.Vfs.Vfs

/-!
# The listing of `vfs_dump`

`vfs_dump` writes a line for each vnode below the root: `vnode_readdir` calls it back for each entry
of a directory, and the callback reads the directories in the directory again. So the lines come in
preorder, and the indentation of a line is the length of its path (`vfsDump_returns`).

What is listed is what `vfs_lookup` finds, each path once (`vfsDump_lookup`).
-/

namespace TheFirmware.Vfs

open CString (ascii)
open Strings Printf

variable {ν φ σ C : Type}

/-! ## The code -/

/-- The entries that `staticfs_readdir` goes through. -/
def Vnode.entries : Vnode ν φ → List (Entry ν)
  | dir entries => entries
  | callable _ => []

/-- `vnode->kind`, `VNODE_KIND_DIR` or `VNODE_KIND_CALLABLE` -/
def Vnode.kind : Vnode ν φ → UInt32
  | dir _ => 1
  | callable _ => 2

/-- The loop of `staticfs_readdir` -/
def staticfsReaddir (vnode : ν) (callback : ν → Str → ν → C → Except Fault C) :
    List (Entry ν) → C → Except Fault C
  | [], context => .ok context
  | entry :: entries, context => do
      let context ← callback vnode entry.name entry.vnode context
      staticfsReaddir vnode callback entries context

/-- `vnode_readdir` -/
def vnodeReaddir (vnodes : ν → Vnode ν φ) (vnode : ν) (callback : ν → Str → ν → C → Except Fault C)
    (context : C) : Except Fault C :=
  match vnodes vnode with
  | .dir entries => staticfsReaddir vnode callback entries context
  | .callable _ => .ok context

/-- `struct vfs_dump_context`, with the state of the file. -/
structure DumpContext (σ : Type) : Type where
  ident : Nat
  output : σ

/-- The loop of `vfs_dump_callback`, which writes the indentation. -/
def writeIdent (f : File σ) : Nat → σ → σ
  | 0, output => output
  | i + 1, output => writeIdent f i (f.write (ascii "  ") output).2

/-- `vfs_dump_callback`, where `address` is the value of a pointer. -/
def vfsDumpCallback (f : File σ) (vnodes : ν → Vnode ν φ) (address : ν → UInt32) :
    Nat → ν → Str → ν → DumpContext σ → Except Fault (DumpContext σ)
  | 0, _, _, _, _ => .error .outOfFuel
  | fuel + 1, _, name, child, context => do
      let output := writeIdent f context.ident context.output
      let (_, output) ← vfprintf f (ascii "%s \t\t; (vnode = %p, kind=%x)\r\n")
        [.string (some name), .word (address child), .word (vnodes child).kind] output
      match vnodes child with
      | .dir _ => do
          let context ← vnodeReaddir vnodes child (vfsDumpCallback f vnodes address fuel)
            ⟨context.ident + 1, output⟩
          return { context with ident := context.ident - 1 }
      | .callable _ => return { context with output }

/-- `vfs_dump` -/
def vfsDump (f : File σ) (vnodes : ν → Vnode ν φ) (address : ν → UInt32) (root : Option ν)
    (fuel : Nat) (output : σ) : Except Fault σ := do
  let (_, output) ← vfprintf f (ascii "/ \t\t; (vnode = %p)\r\n")
    [.word ((root.map address).getD 0)] output
  let vfsRoot ← deref root
  let context ← vnodeReaddir vnodes vfsRoot (vfsDumpCallback f vnodes address fuel) ⟨1, output⟩
  return context.output

/-! ## The listing -/

/-- The paths below a vnode with what they lead to, in preorder, at most `depth` entries deep. -/
def listing (vnodes : ν → Vnode ν φ) : Nat → ν → List (List Str × ν)
  | 0, _ => []
  | depth + 1, vnode => (vnodes vnode).entries.flatMap fun entry =>
      ([entry.name], entry.vnode) ::
        (listing vnodes depth entry.vnode).map fun found => (entry.name :: found.1, found.2)

/-- There is nothing below the vnode that is more than `depth` entries deep. -/
def Within (vnodes : ν → Vnode ν φ) : Nat → ν → Prop
  | 0, vnode => (vnodes vnode).entries = []
  | depth + 1, vnode => ∀ entry ∈ (vnodes vnode).entries, Within vnodes depth entry.vnode

/-- `%p` -/
def pointerText (p : UInt32) : Str := ascii "*" ++ padded p 16 8 false

/-- The line of a vnode. -/
def line (vnodes : ν → Vnode ν φ) (address : ν → UInt32) (ident : Nat) (name : Str) (vnode : ν) :
    Str :=
  (List.replicate ident (ascii "  ")).flatten ++ name ++ ascii " \t\t; (vnode = " ++
    pointerText (address vnode) ++ ascii ", kind=" ++ ascii "0x" ++
    numberText [] 16 (vnodes vnode).kind ++ ascii ")\r\n"

/-- The line of the root. -/
def rootLine (address : ν → UInt32) (root : ν) : Str :=
  ascii "/ \t\t; (vnode = " ++ pointerText (address root) ++ ascii ")\r\n"

/-- The line of a path in a directory that is itself indented by `ident - 1`. -/
def pathLine (vnodes : ν → Vnode ν φ) (address : ν → UInt32) (ident : Nat)
    (found : List Str × ν) : Str :=
  line vnodes address (ident + found.1.length - 1) (found.1.getLastD []) found.2

/-! ## What is written -/

section Writes

variable {vnodes : ν → Vnode ν φ} {address : ν → UInt32} {vnode : ν} {out text : Str}

theorem writeIdent_recorder (i : Nat) (out : Str) :
    writeIdent recorder i out = out ++ (List.replicate i (ascii "  ")).flatten := by
  induction i generalizing out with
  | zero => rw [writeIdent, List.replicate_zero, List.flatten_nil, List.append_nil]
  | succ i ih =>
    have wrote : (recorder.write (ascii "  ") out).2 = out ++ ascii "  " := rfl
    rw [writeIdent, wrote, ih, List.replicate_succ, List.flatten_cons, List.append_assoc]

theorem vfprintf_recorder {format text : Str} {args : List Arg} (formats : Formats format args text)
    (out : Str) : ∃ len, vfprintf recorder format args out = .ok (len, out ++ text) :=
  formats.rule recorderRule (Nat.lt_succ_self _) 0 out

/-- Characters that stand for themselves. -/
theorem formats_text {front format text : Str} {args : List Arg}
    (plain : front.all (· ≠ 0x25) = true) (rest : Formats format args text) :
    Formats (front ++ format) args (front ++ text) := by
  induction front with
  | nil => exact rest
  | cons c front ih =>
    rw [List.all_cons, Bool.and_eq_true, decide_eq_true_eq] at plain
    exact .char plain.1 (ih plain.2)

/-- No options -/
def noOptions : Options where
  width := []
  precision := none
  long := false
  widthDigits := List.forall_mem_nil _
  precisionDigits _ mem := nomatch mem

/-- A conversion without options. -/
theorem formats_conversion {c : UInt8} {format text text' : Str} {args args' : List Arg}
    (known : c = 0x73 ∨ c = 0x70 ∨ c = 0x78) (converts : Converts [] [0x25] c args args' text')
    (rest : Formats format args' text) : Formats (0x25 :: c :: format) args (text' ++ text) := by
  have before : noOptions.Before c := by
    rcases known with rfl | rfl | rfl
    · exact ⟨fun _ => rfl, fun _ _ => by decide, fun _ => by decide, fun _ => by decide⟩
    · exact ⟨fun _ => rfl, fun _ _ => by decide, fun _ => by decide, fun _ => by decide⟩
    · exact ⟨fun _ => rfl, fun _ _ => by decide, fun _ => by decide, fun _ => by decide⟩
  exact .conversion before converts rest

/-- The line of a vnode is printed. -/
theorem formats_line (name : Str) (p kind : UInt32) :
    Formats (ascii "%s \t\t; (vnode = %p, kind=%x)\r\n")
      [.string (some name), .word p, .word kind]
      (name ++ (ascii " \t\t; (vnode = " ++ (pointerText p ++ (ascii ", kind=" ++
        ((ascii "0x" ++ numberText [] 16 kind) ++ (ascii ")\r\n" ++ [])))))) := by
  have format : ascii "%s \t\t; (vnode = %p, kind=%x)\r\n" =
      0x25 :: 0x73 :: (ascii " \t\t; (vnode = " ++ 0x25 :: 0x70 :: (ascii ", kind=" ++
        0x25 :: 0x78 :: (ascii ")\r\n" ++ []))) := by
    decide
  rw [format]
  refine formats_conversion (.inl rfl) .string (formats_text (by decide) ?_)
  refine formats_conversion (.inr (.inl rfl)) .pointer (formats_text (by decide) ?_)
  exact formats_conversion (.inr (.inr rfl)) (.prefixedHex (by decide))
    (formats_text (by decide) .done)

theorem formats_rootLine (p : UInt32) :
    Formats (ascii "/ \t\t; (vnode = %p)\r\n") [.word p]
      (ascii "/ \t\t; (vnode = " ++ (pointerText p ++ (ascii ")\r\n" ++ []))) := by
  have format : ascii "/ \t\t; (vnode = %p)\r\n" =
      ascii "/ \t\t; (vnode = " ++ 0x25 :: 0x70 :: (ascii ")\r\n" ++ []) := by
    decide
  rw [format]
  refine formats_text (by decide) ?_
  exact formats_conversion (.inr (.inl rfl)) .pointer (formats_text (by decide) .done)

/-- A path below an entry is indented once more. -/
theorem pathLine_cons {names : List Str} (nonempty : names ≠ []) (ident : Nat) (name : Str)
    (vnode : ν) :
    pathLine vnodes address ident (name :: names, vnode) =
      pathLine vnodes address (ident + 1) (names, vnode) := by
  have last : (name :: names).getLastD [] = names.getLastD [] := by
    rcases List.exists_cons_of_ne_nil nonempty with ⟨next, names, rfl⟩
    rw [List.getLastD_cons, List.getLastD_cons, List.getLastD_cons]
  have length : ident + (name :: names).length - 1 = ident + 1 + names.length - 1 := by
    rw [List.length_cons]
    omega
  unfold pathLine
  rw [last, length]

theorem nonempty_of_mem_listing {depth : Nat} {found : List Str × ν}
    (mem : found ∈ listing vnodes depth vnode) : found.1 ≠ [] := by
  cases depth with
  | zero => cases mem
  | succ depth =>
    rcases List.mem_flatMap.mp mem with ⟨entry, -, mem⟩
    rcases List.mem_cons.mp mem with rfl | mem
    · exact List.cons_ne_nil _ _
    · rcases List.mem_map.mp mem with ⟨below, -, rfl⟩
      exact List.cons_ne_nil _ _

theorem listing_callable {func : φ} (callable : vnodes vnode = .callable func) (depth : Nat) :
    listing vnodes depth vnode = [] := by
  cases depth with
  | zero => rfl
  | succ depth =>
    unfold listing
    rw [callable]
    rfl

/-- The lines of a directory: each entry, and what is below it. -/
theorem lines_succ (depth ident : Nat) (vnode : ν) :
    (listing vnodes (depth + 1) vnode).flatMap (pathLine vnodes address ident) =
      (vnodes vnode).entries.flatMap fun entry => line vnodes address ident entry.name entry.vnode ++
        (listing vnodes depth entry.vnode).flatMap (pathLine vnodes address (ident + 1)) := by
  rw [listing, List.flatMap_assoc]
  refine List.flatMap_congr fun entry _ => ?_
  rw [List.flatMap_cons, List.flatMap_map]
  congr 1
  exact List.flatMap_congr fun found mem =>
    pathLine_cons (nonempty_of_mem_listing mem) ident entry.name found.2

/-- The callback writes the line of the vnode, and those below it. -/
theorem vfsDumpCallback_recorder (parent : ν) (name : Str) {fuel depth ident : Nat} {child : ν}
    (below : ∀ out, vnodeReaddir vnodes child (vfsDumpCallback recorder vnodes address fuel)
      ⟨ident + 1, out⟩ = .ok ⟨ident + 1, out ++
        (listing vnodes depth child).flatMap (pathLine vnodes address (ident + 1))⟩) (out : Str) :
    vfsDumpCallback recorder vnodes address (fuel + 1) parent name child ⟨ident, out⟩ =
      .ok ⟨ident, out ++ (line vnodes address ident name child ++
        (listing vnodes depth child).flatMap (pathLine vnodes address (ident + 1)))⟩ := by
  rcases vfprintf_recorder (formats_line name (address child) (vnodes child).kind)
    (out ++ (List.replicate ident (ascii "  ")).flatten) with ⟨len, printed⟩
  have written : out ++ (List.replicate ident (ascii "  ")).flatten ++
      (name ++ (ascii " \t\t; (vnode = " ++ (pointerText (address child) ++ (ascii ", kind=" ++
        ((ascii "0x" ++ numberText [] 16 (vnodes child).kind) ++ (ascii ")\r\n" ++ [])))))) =
      out ++ line vnodes address ident name child := by
    simp only [line, List.append_assoc, List.append_nil]
  rw [written] at printed
  rw [vfsDumpCallback, writeIdent_recorder]
  simp only [printed, Except.ok_bind]
  cases kind : vnodes child with
  | dir entries =>
    rw [below, Except.ok_bind, List.append_assoc]
    rfl
  | callable func =>
    rw [listing_callable kind, List.flatMap_nil, List.append_nil]
    rfl

/-- All that is below a vnode is written, with fuel for each level. -/
theorem vnodeReaddir_recorder {depth : Nat} (within : Within vnodes depth vnode) {fuel : Nat}
    (enough : depth ≤ fuel) (ident : Nat) (out : Str) :
    vnodeReaddir vnodes vnode (vfsDumpCallback recorder vnodes address fuel) ⟨ident, out⟩ =
      .ok ⟨ident, out ++ (listing vnodes depth vnode).flatMap
        (pathLine vnodes address ident)⟩ := by
  induction depth generalizing vnode fuel ident out with
  | zero =>
    have none : (vnodes vnode).entries = [] := within
    rw [listing, List.flatMap_nil, List.append_nil]
    unfold vnodeReaddir
    cases kind : vnodes vnode with
    | callable func => rfl
    | dir entries =>
      rw [kind] at none
      have none : entries = [] := none
      rw [none]
      rfl
  | succ depth ih =>
    rcases Nat.exists_eq_add_of_lt enough with ⟨more, rfl⟩
    rw [lines_succ]
    have loop : ∀ entries : List (Entry ν), (∀ entry ∈ entries, Within vnodes depth entry.vnode) →
        ∀ out, staticfsReaddir vnode (vfsDumpCallback recorder vnodes address (depth + more + 1))
          entries ⟨ident, out⟩ = .ok ⟨ident, out ++ entries.flatMap fun entry =>
            line vnodes address ident entry.name entry.vnode ++
              (listing vnodes depth entry.vnode).flatMap (pathLine vnodes address (ident + 1))⟩ := by
      intro entries
      induction entries with
      | nil =>
        intro _ out
        rw [staticfsReaddir, List.flatMap_nil, List.append_nil]
      | cons entry entries ihEntries =>
        intro within out
        rcases List.forall_mem_cons.mp within with ⟨first, rest⟩
        have written := vfsDumpCallback_recorder vnode entry.name
          (fun out => ih first (Nat.le_add_right depth more) (ident + 1) out) out
        rw [staticfsReaddir, written, Except.ok_bind, ihEntries rest, List.flatMap_cons,
          List.append_assoc, List.append_assoc]
    unfold vnodeReaddir
    cases kind : vnodes vnode with
    | callable func => rw [Vnode.entries, List.flatMap_nil, List.append_nil]
    | dir entries =>
      have within : ∀ entry ∈ (vnodes vnode).entries, Within vnodes depth entry.vnode := within
      rw [kind] at within
      exact loop entries within out

/-- `vfs_dump` writes the line of the root and those of the paths below it. -/
theorem vfsDump_returns {depth : Nat} {root : ν} (within : Within vnodes depth root) (out : Str) :
    Returns (fun fuel => vfsDump recorder vnodes address (some root) fuel out)
      (out ++ rootLine address root ++
        (listing vnodes depth root).flatMap (pathLine vnodes address 1)) := by
  refine ⟨depth, fun fuel enough => ?_⟩
  rcases vfprintf_recorder (formats_rootLine (address root)) out with ⟨len, printed⟩
  have written : out ++ (ascii "/ \t\t; (vnode = " ++ (pointerText (address root) ++
      (ascii ")\r\n" ++ []))) = out ++ rootLine address root := by
    simp only [rootLine, List.append_assoc, List.append_nil]
  rw [written] at printed
  unfold vfsDump
  simp only [Option.map_some, Option.getD_some, printed, Except.ok_bind, deref_some,
    vnodeReaddir_recorder within enough]
  rfl

end Writes

/-! ## What is listed -/

/-- In no directory two entries have one name, and no name has a `/`. -/
structure Named (vnodes : ν → Vnode ν φ) : Prop where
  distinct : ∀ vnode, ((vnodes vnode).entries.map Entry.name).Nodup
  noSlash : ∀ vnode, ∀ entry ∈ (vnodes vnode).entries, 0x2F ∉ entry.name

section Listed

variable {vnodes : ν → Vnode ν φ} {vnode child root : ν} {names : List Str} {name : Str}
  {depth : Nat}

theorem Within.mono {depth' : Nat} (within : Within vnodes depth vnode) (le : depth ≤ depth') :
    Within vnodes depth' vnode := by
  induction depth generalizing depth' vnode with
  | zero =>
    have none : (vnodes vnode).entries = [] := within
    cases depth' with
    | zero => exact within
    | succ depth' =>
      show ∀ entry ∈ (vnodes vnode).entries, _
      rw [none]
      exact List.forall_mem_nil _
  | succ depth ih =>
    rcases Nat.exists_eq_add_of_lt le with ⟨more, rfl⟩
    exact fun entry mem => ih (within entry mem) (Nat.le_add_right depth more)

theorem Named.find_iff (named : Named vnodes) :
    (vnodes vnode).find name = some child ↔
      ∃ entry ∈ (vnodes vnode).entries, entry.name = name ∧ entry.vnode = child := by
  have find : (vnodes vnode).find name =
      ((vnodes vnode).entries.find? (·.name = name)).map Entry.vnode := by
    unfold Vnode.find Vnode.entries
    cases vnodes vnode with
    | dir entries => rfl
    | callable func => rfl
  rw [find, Option.map_eq_some_iff]
  constructor
  · rintro ⟨entry, found, rfl⟩
    have same := List.find?_some found
    exact ⟨entry, List.mem_of_find?_eq_some found, by simpa using same, rfl⟩
  · rintro ⟨entry, mem, rfl, rfl⟩
    refine ⟨entry, ?_, rfl⟩
    cases found : (vnodes vnode).entries.find? (·.name = entry.name) with
    | none =>
      have none := List.find?_eq_none.mp found entry mem
      simp at none
    | some entry' =>
      have same : entry'.name = entry.name := by simpa using List.find?_some found
      rw [List.inj_on_of_nodup_map (named.distinct vnode) (List.mem_of_find?_eq_some found) mem
        same]

/-- What is listed is what the names lead to. -/
theorem Named.mem_listing (named : Named vnodes) (within : Within vnodes depth vnode) :
    (names, child) ∈ listing vnodes depth vnode ↔
      names ≠ [] ∧ follow vnodes vnode names = some child := by
  induction depth generalizing vnode names with
  | zero =>
    have none : (vnodes vnode).entries = [] := within
    constructor
    · intro mem
      cases mem
    rintro ⟨nonempty, found⟩
    rcases List.exists_cons_of_ne_nil nonempty with ⟨name, names, rfl⟩
    rw [follow, Option.bind_eq_some_iff] at found
    rcases found with ⟨between, entry, -⟩
    rcases named.find_iff.mp entry with ⟨entry, mem, -⟩
    rw [none] at mem
    cases mem
  | succ depth ih =>
    have within : ∀ entry ∈ (vnodes vnode).entries, Within vnodes depth entry.vnode := within
    rw [listing, List.mem_flatMap]
    constructor
    · rintro ⟨entry, here, mem⟩
      rcases List.mem_cons.mp mem with same | mem
      · cases same
        refine ⟨List.cons_ne_nil _ _, ?_⟩
        rw [follow, named.find_iff.mpr ⟨entry, here, rfl, rfl⟩]
        rfl
      · rcases List.mem_map.mp mem with ⟨⟨below, last⟩, listed, same⟩
        cases same
        refine ⟨List.cons_ne_nil _ _, ?_⟩
        rw [follow, named.find_iff.mpr ⟨entry, here, rfl, rfl⟩]
        exact ((ih (within entry here)).mp listed).2
    · rintro ⟨nonempty, found⟩
      rcases List.exists_cons_of_ne_nil nonempty with ⟨name, names, rfl⟩
      rw [follow, Option.bind_eq_some_iff] at found
      rcases found with ⟨between, first, rest⟩
      rcases named.find_iff.mp first with ⟨entry, here, rfl, rfl⟩
      refine ⟨entry, here, ?_⟩
      by_cases last : names = []
      · subst last
        cases rest
        exact List.mem_cons_self
      · refine List.mem_cons_of_mem _ (List.mem_map.mpr ⟨(names, child), ?_, rfl⟩)
        exact (ih (within entry here)).mpr ⟨last, rest⟩

/-- No path is listed twice. -/
theorem Named.nodup_listing (named : Named vnodes) (depth : Nat) (vnode : ν) :
    ((listing vnodes depth vnode).map Prod.fst).Nodup := by
  induction depth generalizing vnode with
  | zero => exact List.nodup_nil
  | succ depth ih =>
    have paths : (listing vnodes (depth + 1) vnode).map Prod.fst =
        (vnodes vnode).entries.flatMap fun entry =>
          ([] :: (listing vnodes depth entry.vnode).map Prod.fst).map (entry.name :: ·) := by
      rw [listing, List.map_flatMap]
      refine List.flatMap_congr fun entry _ => ?_
      rw [List.map_cons, List.map_cons, List.map_map, List.map_map]
      rfl
    rw [paths, List.nodup_flatMap]
    refine ⟨fun entry _ => ?_, ?_⟩
    · refine List.Nodup.map (List.cons_injective) (List.nodup_cons.mpr ⟨fun mem => ?_, ih _⟩)
      rcases List.mem_map.mp mem with ⟨found, mem, empty⟩
      exact nonempty_of_mem_listing mem empty
    · refine (List.pairwise_map.mp (named.distinct vnode)).imp ?_
      intro first second other path mem mem'
      rcases List.mem_map.mp mem with ⟨below, -, rfl⟩
      rcases List.mem_map.mp mem' with ⟨below', -, same⟩
      exact other (List.cons.inj same).1.symm

theorem Named.noSlash_follow (named : Named vnodes)
    (found : follow vnodes vnode names = some child) : ∀ name ∈ names, 0x2F ∉ name := by
  induction names generalizing vnode with
  | nil => exact List.forall_mem_nil _
  | cons name names ih =>
    rw [follow, Option.bind_eq_some_iff] at found
    rcases found with ⟨between, first, rest⟩
    rcases named.find_iff.mp first with ⟨entry, here, rfl, -⟩
    exact List.forall_mem_cons.mpr ⟨named.noSlash vnode entry here, ih rest⟩

/-- **Listing and lookup**: on a tree of directories in which entries have different names, without a
`/`, `vfs_dump` returns and writes the line of the root and those of the paths below it in preorder,
each indented by its length. These are the paths that `vfs_lookup` finds, with what it finds there,
each path once. -/
theorem vfsDump_lookup (named : Named vnodes) (within : Within vnodes depth root)
    (address : ν → UInt32) (out : Str) :
    Returns (fun fuel => vfsDump recorder vnodes address (some root) fuel out)
        (out ++ rootLine address root ++
          (listing vnodes depth root).flatMap (pathLine vnodes address 1)) ∧
      ((listing vnodes depth root).map Prod.fst).Nodup ∧
      ∀ names child, (names, child) ∈ listing vnodes depth root ↔
        names ≠ [] ∧ (∀ name ∈ names, 0x2F ∉ name) ∧
          Returns (fun fuel => vfsLookup vnodes (some root) fuel (path names)) (some child) := by
  refine ⟨vfsDump_returns within out, named.nodup_listing depth root, fun names child => ?_⟩
  rw [named.mem_listing within]
  refine and_congr_right fun nonempty => ⟨fun found => ?_, ?_⟩
  · have noSlash := named.noSlash_follow found
    have returns := vfsLookupLoop_follows vnodes nonempty noSlash root
    rw [found] at returns
    exact ⟨noSlash, returns⟩
  · rintro ⟨noSlash, returns⟩
    exact (vfsLookupLoop_follows vnodes nonempty noSlash root).unique returns

end Listed

/-- A root with a function `a` and a directory `bin`, with a function `ls` in it. -/
def binVnodes : Nat → Vnode Nat String
  | 0 => .dir [⟨ascii "a", 2⟩, ⟨ascii "bin", 1⟩]
  | 1 => .dir [⟨ascii "ls", 3⟩]
  | _ => .callable "f"

theorem vfsDump_lookup_bin :
    Returns (fun fuel => vfsDump recorder binVnodes (fun v => .ofNat v) (some 0) fuel [])
        (rootLine (fun v => .ofNat v) 0 ++
          [([ascii "a"], 2), ([ascii "bin"], 1), ([ascii "bin", ascii "ls"], 3)].flatMap
            (pathLine binVnodes (fun v => .ofNat v) 1)) ∧
      Returns (fun fuel => vfsLookup binVnodes (some 0) fuel (path [ascii "bin", ascii "ls"]))
        (some 3) := by
  have named : Named binVnodes := by
    constructor
    · intro vnode
      match vnode with
      | 0 => decide
      | 1 => decide
      | _ + 2 => exact List.nodup_nil
    · intro vnode
      match vnode with
      | 0 => decide
      | 1 => decide
      | _ + 2 => exact List.forall_mem_nil _
  have within : Within binVnodes 2 0 := by
    intro entry mem
    rcases List.mem_pair.mp mem with rfl | rfl
    · exact List.forall_mem_nil _
    · exact List.forall_mem_singleton.mpr rfl
  rcases vfsDump_lookup named within (fun v => .ofNat v) [] with ⟨returns, -, listed⟩
  have list : listing binVnodes 2 0 =
      [([ascii "a"], 2), ([ascii "bin"], 1), ([ascii "bin", ascii "ls"], 3)] := rfl
  rw [list] at returns listed
  exact ⟨returns, ((listed [ascii "bin", ascii "ls"] 3).mp (by decide)).2.2⟩

end TheFirmware.Vfs
