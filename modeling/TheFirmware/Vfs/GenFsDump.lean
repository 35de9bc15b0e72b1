import TheFirmware.Vfs.Dump
import TheFirmware.Vfs.Matches

/-!
# The listing of the generated file system

The file that `gen_fs` writes is a tree of directories with different names in each of them, so
`vfs_dump` lists it: the definitions with their last functions, and the directories above them, and
nothing else (`genFs_dump`).
-/

namespace TheFirmware.GenFs

open Strings Vfs Printf

/-! ## The tables are a tree -/

section Tree

variable {obj root child : FSObject} {path : List Str} {name : Str}
  {entries : List (Str × FSObject)} {file : File}

theorem Sound.objectAt (sound : Sound obj) (found : obj.objectAt path = some child) :
    Sound child := by
  induction path generalizing obj with
  | nil =>
    cases obj <;> cases found <;> exact sound
  | cons name path ih =>
    cases obj with
    | executable funcName => cases found
    | dir dir entries =>
      rcases Option.bind_eq_some_iff.mp found with ⟨below, entry, found⟩
      exact ih (sound.entry (mem_of_getEntry entry)) found

/-- An entry of a directory is one name further. -/
theorem Sound.objectAt_entry (sound : Sound root)
    (found : root.objectAt path = some (.dir name entries)) {entry : Str × FSObject}
    (mem : entry ∈ entries) : root.objectAt (path ++ [entry.1]) = some entry.2 := by
  rw [objectAt_append, found]
  cases sound.objectAt found with
  | dir keys each =>
    show (getEntry entries entry.1).bind _ = _
    rw [(getEntry_eq_some_iff keys).mpr mem]
    cases entry.2 <;> rfl

/-- A table is the one of a directory. -/
theorem Sound.exists_of_mem_emit (sound : Sound obj) {table : Table} (mem : table ∈ obj.emit) :
    ∃ path name entries, obj.objectAt path = some (.dir name entries) ∧
      table = tableOf name entries := by
  induction obj using FSObject.descend with
  | executable funcName => cases mem
  | dir name entries ih =>
    rw [FSObject.emit, emitEntries_eq, List.mem_append, List.mem_flatMap] at mem
    rcases mem with ⟨entry, here, mem⟩ | mem
    · rcases ih entry here (sound.entry here) mem with ⟨path, name', entries', found, rfl⟩
      refine ⟨entry.1 :: path, name', entries', ?_, rfl⟩
      have first : (FSObject.dir name entries).objectAt ([] ++ [entry.1]) = some entry.2 :=
        sound.objectAt_entry rfl here
      have whole := objectAt_append (.dir name entries) [entry.1] path
      rw [List.nil_append] at first
      rw [first] at whole
      exact whole.trans found
    · rw [List.mem_singleton] at mem
      exact ⟨[], name, entries, rfl, mem⟩

/-- The table of a directory is found by its name. -/
theorem vnodes_table (tables : file.tables = root.emit)
    (names : (file.tables.map Table.name).Nodup)
    (found : root.objectAt path = some (.dir name entries)) :
    file.vnodes (.table name) = .dir (tableOf name entries).entries := by
  have mem : tableOf name entries ∈ file.tables := tables ▸ tableOf_mem_emit found
  have here := find_table names mem
  show Vnode.dir (((file.tables.find? (·.name = (tableOf name entries).name)).map
    Table.entries).getD []) = _
  rw [here]
  rfl

/-- What is below a directory or a function comes to an end. -/
theorem exists_within (sound : Sound root) (tables : file.tables = root.emit)
    (names : (file.tables.map Table.name).Nodup) (found : root.objectAt path = some obj) :
    ∃ depth, Within file.vnodes depth obj.pointer := by
  induction obj using FSObject.descend generalizing path with
  | executable funcName => exact ⟨0, rfl⟩
  | dir name entries ih =>
    have each : ∀ entry ∈ entries, ∃ depth, Within file.vnodes depth entry.2.pointer :=
      fun entry mem => ih entry mem (sound.objectAt_entry found mem)
    have all : ∃ depth, ∀ entry ∈ entries, Within file.vnodes depth entry.2.pointer := by
      clear ih found
      induction entries with
      | nil => exact ⟨0, List.forall_mem_nil _⟩
      | cons entry entries ihEntries =>
        rcases List.forall_mem_cons.mp each with ⟨⟨depth, first⟩, rest⟩
        rcases ihEntries rest with ⟨depth', rest⟩
        refine ⟨max depth depth', List.forall_mem_cons.mpr ⟨first.mono (le_max_left ..), ?_⟩⟩
        exact fun entry mem => (rest entry mem).mono (le_max_right ..)
    rcases all with ⟨depth, all⟩
    refine ⟨depth + 1, fun entry mem => ?_⟩
    rw [FSObject.pointer, vnodes_table tables names found] at mem
    rcases List.mem_map.mp mem with ⟨entry, here, rfl⟩
    exact all entry here

end Tree

/-! ## The names in the tables -/

section Names

variable {defs : List Definition} {root : FSObject} {path : List Str} {name component : Str}
  {entries : List (Str × FSObject)}

theorem noSlash_of_isWord (word : isWord component = true) : 0x2F ∉ component := by
  have chars := (Bool.and_eq_true_iff.mp word).2
  intro mem
  exact absurd (List.all_eq_true.mp chars _ mem) (by decide)

/-- The names in a directory are components of definitions. -/
theorem Represents.isWord (represents : Represents defs root)
    (found : root.objectAt path = some (.dir name entries)) {entry : Str × FSObject}
    (mem : entry ∈ entries) : isWord entry.1 = true := by
  have below : root.view (path ++ [entry.1]) = some entry.2.pointer :=
    congrArg (Option.map FSObject.pointer) (represents.sound.objectAt_entry found mem)
  have last : entry.1 ∈ path ++ [entry.1] :=
    List.mem_append_right _ (List.mem_singleton_self _)
  cases object : entry.2 with
  | executable func =>
    rw [object] at below
    rcases mem_of_lastFunc ((represents.callable _ _).mp below) with ⟨d, -, same⟩
    exact d.words entry.1 (same ▸ last)
  | dir name' entries' =>
    rw [object] at below
    exact ((represents.table _ _).mp below).1.words entry.1 last

theorem Represents.named (represents : Represents defs root) : Named root.file.vnodes := by
  have cases' : ∀ vnode, (root.file.vnodes vnode).entries = [] ∨
      ∃ path name entries, root.objectAt path = some (.dir name entries) ∧
        (root.file.vnodes vnode).entries = (tableOf name entries).entries := by
    intro vnode
    cases vnode with
    | callable func => exact .inl rfl
    | table name =>
      cases found : root.file.tables.find? (·.name = name) with
      | none =>
        left
        show ((Option.map Table.entries (root.file.tables.find? _)).getD []) = []
        rw [found]
        rfl
      | some table =>
        right
        rcases represents.sound.exists_of_mem_emit (List.mem_of_find?_eq_some found) with
          ⟨path, name', entries, at_, rfl⟩
        refine ⟨path, name', entries, at_, ?_⟩
        show ((Option.map Table.entries (root.file.tables.find? _)).getD []) = _
        rw [found]
        rfl
  constructor
  · intro vnode
    rcases cases' vnode with none | ⟨path, name, entries, found, same⟩
    · rw [none]
      exact List.nodup_nil
    · cases represents.sound.objectAt found with
      | dir keys each =>
        rw [same, tableOf, List.map_map]
        exact keys
  · intro vnode entry mem
    rcases cases' vnode with none | ⟨path, name, entries, found, same⟩
    · rw [none] at mem
      cases mem
    · rw [same] at mem
      rcases List.mem_map.mp mem with ⟨entry, here, rfl⟩
      exact noSlash_of_isWord (represents.isWord found here)

end Names

/-- **From the definitions to the listing**: for all definitions of which none is above another, and
the directories of which have identifiers of their own, `vfs_dump` returns and lists the definitions
with their last functions, and the directories above them, each path once, and nothing else. -/
theorem genFs_dump (order : DictOrder) (defs : List Definition) (free : PrefixFree defs)
    (joins : JoinsApart defs) (address : Pointer → UInt32) (out : Str) :
    ∃ (file : File) (list : List (List Str × Pointer)), genFs order defs = some file ∧
      Returns (fun fuel => vfsDump recorder file.vnodes address (some (.table (dirName []))) fuel
        out) (out ++ rootLine address (.table (dirName [])) ++
          list.flatMap (pathLine file.vnodes address 1)) ∧
      (list.map Prod.fst).Nodup ∧
      (∀ path f, (path, .callable f) ∈ list ↔ lastFunc defs path = some f) ∧
      ∀ path name, (path, .table name) ∈ list ↔
        path ≠ [] ∧ IsDir defs path ∧ name = dirName path := by
  rcases defineAll_represents order free with ⟨root, ran, represents⟩
  have names : (root.file.tables.map Table.name).Nodup := by
    rw [represents.table_names]
    refine (dirs_nodup represents.sound []).map_on fun path mem path' mem' same => ?_
    exact joins.apart path path' ((represents.mem_dirs path).mp mem)
      ((represents.mem_dirs path').mp mem') same
  have start : root.pointer = .table (dirName []) := by
    have found := (represents.table [] (dirName [])).mpr ⟨.inl rfl, rfl⟩
    rwa [view_nil, Option.some.injEq] at found
  have here : root.objectAt [] = some root := by cases root <;> rfl
  rcases exists_within represents.sound rfl names here with ⟨depth, within⟩
  rw [start] at within
  have named := represents.named
  have walk := represents.follow_eq joins.apart
  refine ⟨root.file, listing root.file.vnodes depth (.table (dirName [])), ?_,
    vfsDump_returns within out, named.nodup_listing depth _, fun path f => ?_,
    fun path name => ?_⟩
  · rw [genFs, ran]
    rfl
  · rw [named.mem_listing within, walk, represents.callable]
    refine and_iff_right_of_imp fun last => ?_
    rcases mem_of_lastFunc last with ⟨d, -, rfl⟩
    exact d.nonempty
  · rw [named.mem_listing within, walk, represents.table]

/-- `/bin/ls : func ls_cmd` -/
theorem genFs_dump_ls :
    ∃ (file : File) (list : List (List Str × Pointer)),
      genFs insertionOrder [lsDefinition] = some file ∧
      Returns (fun fuel => vfsDump recorder file.vnodes (fun _ => 0x100)
        (some (.table (dirName []))) fuel [])
        (rootLine (fun _ => 0x100) (Pointer.table (dirName [])) ++
          list.flatMap (pathLine file.vnodes (fun _ => 0x100) 1)) ∧
      ([CString.ascii "bin", CString.ascii "ls"], .callable (CString.ascii "ls_cmd")) ∈ list := by
  rcases genFs_dump insertionOrder [lsDefinition] (prefixFree_singleton lsDefinition)
    joinsApart_ls (fun _ => 0x100) [] with ⟨file, list, ran, returns, -, functions, -⟩
  exact ⟨file, list, ran, returns, (functions _ _).mpr rfl⟩

end TheFirmware.GenFs
