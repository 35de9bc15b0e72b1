import TheFirmware.Vfs.Tree

/-!
# The file that `gen_fs` writes

Each directory of the tree has one table (`dirs_nodup`, `emit_names`), and the functions of the tree
are the ones that are declared (`mem_emitDeclarations`). A pointer to a table is its identifier in C
(`File.vnodes`). If the identifiers are different, the walk in the tables is the walk in the tree
(`follow_tables`).
-/

namespace TheFirmware.GenFs

open CString (ascii)
open Strings Vfs

/-! ## The directories of a tree -/

mutual

/-- The paths of the directories, in the order of their tables. -/
def FSObject.dirs : FSObject → List Str → List (List Str)
  | .executable _, _ => []
  | .dir _ entries, here => entriesDirs entries here ++ [here]

def entriesDirs : List (Str × FSObject) → List Str → List (List Str)
  | [], _ => []
  | entry :: entries, here => entryDirs entry here ++ entriesDirs entries here

def entryDirs : Str × FSObject → List Str → List (List Str)
  | (name, obj), here => obj.dirs (here ++ [name])

end

section Tree

variable {obj : FSObject} {here path : List Str} {name f : Str} {entries : List (Str × FSObject)}

theorem emitEntries_eq (entries : List (Str × FSObject)) :
    emitEntries entries = entries.flatMap fun entry => entry.2.emit := by
  induction entries with
  | nil => rfl
  | cons entry entries ih => rw [emitEntries, ih, List.flatMap_cons, emitEntry]

theorem entriesDirs_eq (entries : List (Str × FSObject)) (here : List Str) :
    entriesDirs entries here = entries.flatMap fun entry => entry.2.dirs (here ++ [entry.1]) := by
  induction entries with
  | nil => rfl
  | cons entry entries ih => rw [entriesDirs, ih, List.flatMap_cons, entryDirs]

/-- The walk goes from a directory to what its entry holds. -/
theorem Sound.view_entry (sound : Sound (.dir name entries)) {entry : Str × FSObject}
    (mem : entry ∈ entries) (path : List Str) :
    (FSObject.dir name entries).view (entry.1 :: path) = entry.2.view path := by
  cases sound with
  | dir keys each => rw [view_dir_cons, (getEntry_eq_some_iff keys).mpr mem, Option.bind_some]

theorem Sound.entry (sound : Sound (.dir name entries)) {entry : Str × FSObject}
    (mem : entry ∈ entries) : Sound entry.2 := by
  cases sound with
  | dir keys each => exact each entry mem

theorem prefix_of_mem_dirs (mem : path ∈ obj.dirs here) : here <+: path := by
  induction obj using FSObject.descend generalizing here with
  | executable funcName => cases mem
  | dir name entries ih =>
    rw [FSObject.dirs, entriesDirs_eq, List.mem_append, List.mem_flatMap] at mem
    rcases mem with ⟨entry, entryMem, mem⟩ | mem
    · exact (List.prefix_append here [entry.1]).trans (ih entry entryMem mem)
    · rw [List.mem_singleton.mp mem]

/-- Each directory has one table. -/
theorem dirs_nodup (sound : Sound obj) (here : List Str) : (obj.dirs here).Nodup := by
  induction obj using FSObject.descend generalizing here with
  | executable funcName => exact List.nodup_nil
  | dir name entries ih =>
    have keys : entries.Pairwise fun entry entry' => entry.1 ≠ entry'.1 := by
      cases sound with
      | dir keys each => exact List.pairwise_map.mp keys
    rw [FSObject.dirs, entriesDirs_eq, List.nodup_append]
    refine ⟨List.nodup_flatMap.mpr ⟨fun entry mem => ih entry mem (sound.entry mem) _, ?_⟩,
      List.nodup_singleton here, ?_⟩
    · refine keys.imp fun {entry entry'} differs path mem mem' => differs ?_
      have front := prefix_of_mem_dirs mem
      have front' := prefix_of_mem_dirs mem'
      have same := List.prefix_of_prefix_length_le front front' (by simp)
      simpa using same.eq_of_length (by simp)
    · intro path mem path' mem' same
      obtain ⟨entry, -, mem⟩ := List.mem_flatMap.mp mem
      have longer := (prefix_of_mem_dirs mem).length_le
      rw [same, List.mem_singleton.mp mem', List.length_append, List.length_singleton] at longer
      exact Nat.not_succ_le_self _ longer

theorem mem_dirs (sound : Sound obj) :
    here ++ path ∈ obj.dirs here ↔ ∃ name, obj.view path = some (.table name) := by
  induction path generalizing obj here with
  | nil =>
    cases obj with
    | executable funcName => simp [FSObject.dirs, FSObject.pointer]
    | dir name entries => simp [FSObject.dirs, FSObject.pointer]
  | cons name' path ih =>
    cases obj with
    | executable funcName => simp [FSObject.dirs, view_executable_cons]
    | dir name entries =>
      have split : here ++ name' :: path = here ++ [name'] ++ path := by simp
      rw [FSObject.dirs, entriesDirs_eq, List.mem_append, List.mem_flatMap]
      constructor
      · intro mem
        rcases mem with ⟨entry, entryMem, mem⟩ | mem
        · have front := (List.prefix_append_right_inj here).mp (prefix_of_mem_dirs mem)
          have same : entry.1 = name' := (List.cons_prefix_cons.mp front).1
          rw [split, ← same, ih (sound.entry entryMem)] at mem
          rwa [← same, sound.view_entry entryMem]
        · simp at mem
      · intro found
        obtain ⟨table, found⟩ := found
        rw [view_dir_cons] at found
        obtain ⟨child, entry, found⟩ := Option.bind_eq_some_iff.mp found
        have mem := mem_of_getEntry entry
        rw [split]
        exact .inl ⟨_, mem, (ih (sound.entry mem)).mpr ⟨table, found⟩⟩

/-- The tables have the names of the directories. -/
theorem emit_names (sound : Sound obj)
    (named : ∀ path name, obj.view path = some (.table name) → name = dirName (here ++ path)) :
    obj.emit.map Table.name = (obj.dirs here).map dirName := by
  induction obj using FSObject.descend generalizing here with
  | executable funcName => rfl
  | dir name entries ih =>
    have own : name = dirName here := by simpa using named [] name (view_nil _)
    have each : ∀ entry ∈ entries, entry.2.emit.map Table.name =
        (entry.2.dirs (here ++ [entry.1])).map dirName := fun entry mem =>
      ih entry mem (sound.entry mem) fun path name found => by
        rw [List.append_assoc]
        exact named _ name ((sound.view_entry mem path).trans found)
    rw [FSObject.emit, FSObject.dirs, emitEntries_eq, entriesDirs_eq, List.map_append,
      List.map_append, List.map_flatMap, List.map_flatMap, List.flatMap_congr each, own]
    rfl

/-- A directory has its table. -/
theorem tableOf_mem_emit (found : obj.objectAt path = some (.dir name entries)) :
    tableOf name entries ∈ obj.emit := by
  induction path generalizing obj with
  | nil =>
    cases obj with
    | executable funcName => cases found
    | dir name entries =>
      cases found
      exact List.mem_append_right _ (List.mem_singleton_self _)
  | cons name' path ih =>
    cases obj with
    | executable funcName => cases found
    | dir name entries =>
      obtain ⟨child, entry, found⟩ := Option.bind_eq_some_iff.mp found
      rw [FSObject.emit, emitEntries_eq, List.mem_append, List.mem_flatMap]
      exact .inl ⟨_, mem_of_getEntry entry, ih found⟩

/-- The functions of the tree are declared. -/
theorem mem_emitDeclarations (sound : Sound obj) (declarations : List Str) :
    f ∈ obj.emitDeclarations declarations ↔
      f ∈ declarations ∨ ∃ path, obj.view path = some (.callable f) := by
  induction obj using FSObject.descend generalizing declarations with
  | executable funcName =>
    have inTree : (∃ path, (FSObject.executable funcName).view path = some (.callable f)) ↔
        f = funcName := by
      constructor
      · intro found
        obtain ⟨path, found⟩ := found
        cases path with
        | nil => exact (Pointer.callable.inj (Option.some.inj found)).symm
        | cons name path => cases found
      · exact fun same => ⟨[], by rw [same]; rfl⟩
    rw [FSObject.emitDeclarations, emitFuncDelc, inTree]
    split
    · rename_i mem
      exact ⟨.inl, fun either => either.elim id fun same => same ▸ mem⟩
    · rw [List.mem_append, List.mem_singleton]
  | dir name entries ih =>
    have inTree : (∃ path, (FSObject.dir name entries).view path = some (.callable f)) ↔
        ∃ entry ∈ entries, ∃ path, entry.2.view path = some (.callable f) := by
      constructor
      · intro found
        obtain ⟨path, found⟩ := found
        cases path with
        | nil => cases found
        | cons name' path =>
          rw [view_dir_cons] at found
          obtain ⟨child, entry, found⟩ := Option.bind_eq_some_iff.mp found
          exact ⟨_, mem_of_getEntry entry, path, found⟩
      · intro found
        obtain ⟨entry, mem, path, found⟩ := found
        exact ⟨entry.1 :: path, (sound.view_entry mem path).trans found⟩
    rw [FSObject.emitDeclarations, inTree]
    have each := fun entry mem => ih entry mem (sound.entry mem)
    clear ih sound inTree
    induction entries generalizing declarations with
    | nil => simp [emitEntriesDeclarations]
    | cons entry entries ihEntries =>
      obtain ⟨first, rest⟩ := List.forall_mem_cons.mp each
      refine (ihEntries (emitEntryDeclarations entry declarations) rest).trans ?_
      rw [emitEntryDeclarations, first, or_assoc, List.exists_mem_cons_iff]

end Tree

/-! ## The walk in the tables -/

/-- What is at a pointer of the file, which `STATICFS_DIR_ENTRY` takes by the identifier. -/
def File.vnodes (file : File) : Pointer → Vnode Pointer Str
  | .table name => .dir (((file.tables.find? (·.name = name)).map Table.entries).getD [])
  | .callable func => .callable func

theorem find_table {tables : List Table} (names : (tables.map Table.name).Nodup) {table : Table}
    (mem : table ∈ tables) : tables.find? (·.name = table.name) = some table := by
  cases found : tables.find? (·.name = table.name) with
  | none =>
    have none := List.find?_eq_none.mp found table mem
    simp at none
  | some table' =>
    have same : table'.name = table.name := by simpa using List.find?_some found
    rw [List.inj_on_of_nodup_map names (List.mem_of_find?_eq_some found) mem same]

theorem find_tableOf (name name' : Str) (entries : List (Str × FSObject)) :
    Vnode.find name (.dir (tableOf name' entries).entries : Vnode Pointer Str) =
      (getEntry entries name).map FSObject.pointer := by
  rw [Vnode.find, tableOf, List.find?_map, getEntry, Option.map_map, Option.map_map]
  rfl

/-- If the identifiers of the tables are different, the walk in the tables is the walk in the
tree. -/
theorem follow_tables {root obj : FSObject} {file : File} (tables : file.tables = root.emit)
    (names : (file.tables.map Table.name).Nodup) {path : List Str}
    (found : root.objectAt path = some obj) (rest : List Str) :
    follow file.vnodes obj.pointer rest = obj.view rest := by
  induction rest generalizing path obj with
  | nil => rw [follow, view_nil]
  | cons name rest ih =>
    cases obj with
    | executable funcName => rfl
    | dir dir entries =>
      have mem : tableOf dir entries ∈ file.tables := tables ▸ tableOf_mem_emit found
      have vnode : file.vnodes (FSObject.dir dir entries).pointer =
          .dir (tableOf dir entries).entries := by
        rw [FSObject.pointer, File.vnodes, show dir = (tableOf dir entries).name from rfl,
          find_table names mem]
        rfl
      rw [follow, vnode, find_tableOf, view_dir_cons]
      cases entry : getEntry entries name with
      | none => rfl
      | some child =>
        have below : root.objectAt (path ++ [name]) = some child := by
          rw [objectAt_append, found]
          simp [FSObject.objectAt, entry]
        exact ih below

end TheFirmware.GenFs
