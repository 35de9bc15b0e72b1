import TheFirmware.Vfs.Generated

/-!
# The identifiers in the file that `gen_fs` writes

`STATICFS_DIR` declares two identifiers for a directory, which are made of the components of its
path joined with `_`. A component may have a `-`, which no identifier has, or a `_`, which may
make the paths of two directories one identifier. The file matches its definitions if and only if
this does not happen (`genFs_matches_iff`).
-/

namespace TheFirmware.GenFs

open CString (ascii)
open Strings Vfs

/-! ## Identifiers -/

/-- `_name##_staticnode` -/
def staticnode (name : Str) : Str := name ++ ascii "_staticnode"

/-- What `STATICFS_DIR` declares. -/
def Table.identifiers (table : Table) : List Str := [staticnode table.name, table.name]

/-- The keywords of `gnu99` -/
def keywords : List Str :=
  ["auto", "break", "case", "char", "const", "continue", "default", "do", "double", "else", "enum",
    "extern", "float", "for", "goto", "if", "inline", "int", "long", "register", "restrict",
    "return", "short", "signed", "sizeof", "static", "struct", "switch", "typedef", "union",
    "unsigned", "void", "volatile", "while", "_Bool", "_Complex", "_Imaginary", "asm",
    "typeof"].map ascii

/-- A letter, a digit or a `_` -/
def isIdentifierChar (c : UInt8) : Bool := isalpha c || isdigit c || c = 0x5F

/-- An identifier of C -/
def IsIdentifier (name : Str) : Prop :=
  (name.head?.any fun c => isalpha c || c = 0x5F) = true ∧ name.all isIdentifierChar = true ∧
    name ∉ keywords

/-- The file is what the definitions say: each directory has a table, to which its path leads and
which has identifiers of its own, and each path leads to its last function. -/
structure File.Matches (file : File) (defs : List Definition) : Prop where
  valid : ∀ table ∈ file.tables, ∀ name ∈ table.identifiers, IsIdentifier name
  distinct : (file.tables.flatMap Table.identifiers).Nodup
  own : ∀ table ∈ file.tables, ∀ name ∈ table.identifiers,
    name ∉ file.externs ∧ name ≠ ascii "staticfs_root"
  directories : ∃ dirs : List (List Str), dirs.Nodup ∧ (∀ path, path ∈ dirs ↔ IsDir defs path) ∧
    List.Forall₂ (fun path table =>
      follow file.vnodes (.table (dirName [])) path = some (.table table.name)) dirs file.tables
  functions : ∀ path f, lastFunc defs path = some f →
    follow file.vnodes (.table (dirName [])) path = some (.callable f)

/-- Joining with `_` makes identifiers of the paths of the directories, and keeps them apart. -/
structure JoinsApart (defs : List Definition) : Prop where
  noDash : ∀ path, IsDir defs path → ∀ component ∈ path, 0x2D ∉ component
  noKeyword : ∀ path, IsDir defs path → dirName path ∉ keywords
  apart : ∀ path path', IsDir defs path → IsDir defs path' → dirName path = dirName path' →
    path = path'
  noStaticnode : ∀ path path', IsDir defs path → IsDir defs path' →
    dirName path ≠ staticnode (dirName path')
  noFunc : ∀ path, IsDir defs path → ∀ path' f, lastFunc defs path' = some f →
    f ≠ dirName path ∧ f ≠ staticnode (dirName path)
  noRoot : ∀ path, IsDir defs path → dirName path ≠ ascii "staticfs_root"

section Identifiers

variable {defs : List Definition} {path : List Str} {name name' component : Str}

theorem staticnode_inj : staticnode name = staticnode name' ↔ name = name' :=
  List.append_left_inj _

theorem staticnode_ne (name : Str) : staticnode name ≠ name := fun same =>
  absurd (congrArg List.length same) (by simp [staticnode, ascii])

theorem staticnode_not_keyword (name : Str) : staticnode name ∉ keywords := by
  have short : ∀ keyword ∈ keywords, keyword.length < 11 := by
    have all : keywords.all (·.length < 11) = true := rfl
    simpa using all
  intro mem
  have long := short _ mem
  rw [staticnode, List.length_append, show (ascii "_staticnode").length = 11 from rfl] at long
  exact absurd (Nat.le_add_left 11 name.length) (Nat.not_le.mpr long)

theorem staticnode_ne_root (name : Str) : staticnode name ≠ ascii "staticfs_root" := by
  intro same
  have suffix := List.isSuffixOf_iff_suffix.mpr ⟨name, same⟩
  exact Bool.false_ne_true suffix

theorem isIdentifier_staticnode (identifier : IsIdentifier name) : IsIdentifier (staticnode name) := by
  obtain ⟨first, chars, -⟩ := identifier
  refine ⟨?_, ?_, staticnode_not_keyword name⟩
  · cases name with
    | nil => cases first
    | cons c name => exact first
  · rw [staticnode, List.all_append, chars]
    rfl

/-! ## Joining -/

theorem dirName_cons (component : Str) (path : List Str) :
    dirName (component :: path) = component ++ path.flatMap fun next => 0x5F :: next := by
  rw [dirName, if_neg (List.cons_ne_nil _ _)]
  induction path generalizing component with
  | nil => simp [List.intercalate]
  | cons next path ih =>
    have one : [0x5F].intercalate (component :: next :: path) =
        component ++ 0x5F :: [0x5F].intercalate (next :: path) := by
      simp [List.intercalate, List.intersperse]
    rw [one, ih next, List.flatMap_cons, List.cons_append]

theorem all_of_isWord (word : isWord component = true) :
    component.all isIdentifierChar = true ↔ 0x2D ∉ component := by
  have chars := (Bool.and_eq_true_iff.mp word).2
  constructor
  · intro all mem
    exact absurd (List.all_eq_true.mp all _ mem) (by decide)
  · intro noDash
    refine List.all_eq_true.mpr fun c mem => ?_
    have char := List.all_eq_true.mp chars c mem
    have other : c ≠ 0x2D := fun same => noDash (same ▸ mem)
    simpa [isIdentifierChar, other] using char

theorem all_dirName (words : ∀ component ∈ path, isWord component = true) :
    (dirName path).all isIdentifierChar = true ↔ ∀ component ∈ path, 0x2D ∉ component := by
  cases path with
  | nil => exact ⟨fun _ => List.forall_mem_nil _, fun _ => rfl⟩
  | cons component path =>
    obtain ⟨word, words⟩ := List.forall_mem_cons.mp words
    rw [dirName_cons, List.all_append, Bool.and_eq_true_iff, all_of_isWord word,
      List.forall_mem_cons, List.all_flatMap, List.all_eq_true]
    refine and_congr_right fun _ => forall₂_congr fun next mem => ?_
    rw [List.all_cons, Bool.and_eq_true_iff, all_of_isWord (words next mem)]
    exact ⟨And.right, fun noDash => ⟨rfl, noDash⟩⟩

theorem IsDir.words (dir : IsDir defs path) : ∀ component ∈ path, isWord component = true := by
  rcases dir with rfl | ⟨d, -, above, -⟩
  · exact List.forall_mem_nil _
  · exact fun component mem => d.words component (above.subset mem)

/-- The name of a directory begins with a letter. -/
theorem IsDir.letter (dir : IsDir defs path) : (dirName path).head?.any isalpha = true := by
  cases path with
  | nil => rfl
  | cons component path =>
    have word := (Bool.and_eq_true_iff.mp (dir.words component List.mem_cons_self)).1
    rw [dirName_cons]
    cases component with
    | nil => cases word
    | cons c component => exact word

theorem isIdentifier_dirName_iff (dir : IsDir defs path) :
    IsIdentifier (dirName path) ↔
      (∀ component ∈ path, 0x2D ∉ component) ∧ dirName path ∉ keywords := by
  have first : ((dirName path).head?.any fun c => isalpha c || c = 0x5F) = true := by
    have letter := dir.letter
    cases name : dirName path with
    | nil => simp [name] at letter
    | cons c rest =>
      rw [name] at letter
      exact Bool.or_eq_true_iff.mpr (.inl letter)
  rw [IsIdentifier, all_dirName dir.words]
  exact and_iff_right first

end Identifiers

/-! ## The file -/

section File

variable {defs : List Definition} {root : FSObject} {file : File} {dirs : List (List Str)}

/-- The directories that the tables are for. -/
theorem Represents.mem_dirs (represents : Represents defs root) (path : List Str) :
    path ∈ root.dirs [] ↔ IsDir defs path := by
  have found : [] ++ path ∈ root.dirs [] ↔ ∃ name, root.view path = some (.table name) :=
    GenFs.mem_dirs represents.sound
  rw [List.nil_append] at found
  simp only [found, represents.table, exists_and_left, exists_eq, and_true]

theorem nodup_identifiers (names : file.tables.map Table.name = dirs.map dirName)
    (nodup : dirs.Nodup) :
    (file.tables.flatMap Table.identifiers).Nodup ↔
      (∀ path ∈ dirs, ∀ path' ∈ dirs, dirName path = dirName path' → path = path') ∧
        ∀ path ∈ dirs, ∀ path' ∈ dirs, dirName path ≠ staticnode (dirName path') := by
  have byName : file.tables.flatMap Table.identifiers =
      dirs.flatMap fun path => [staticnode (dirName path), dirName path] := by
    have map := List.flatMap_map Table.name (fun name => [staticnode name, name]) (l := file.tables)
    rw [names, List.flatMap_map] at map
    exact map.symm
  rw [byName, List.nodup_flatMap]
  constructor
  · intro nodup
    obtain ⟨-, pairs⟩ := nodup
    have symmetric : Std.Symm (Function.onFun List.Disjoint fun path =>
        [staticnode (dirName path), dirName path]) := ⟨fun _ _ apart => apart.symm⟩
    have disjoint : ∀ path ∈ dirs, ∀ path' ∈ dirs, path ≠ path' →
        List.Disjoint [staticnode (dirName path), dirName path]
          [staticnode (dirName path'), dirName path'] := fun path mem path' mem' differs =>
      pairs.forall mem mem' differs
    constructor
    · intro path mem path' mem' same
      by_contra differs
      have shared : dirName path ∈ [staticnode (dirName path'), dirName path'] := by simp [same]
      exact disjoint path mem path' mem' differs (by simp) shared
    · intro path mem path' mem' same
      rcases Classical.em (path = path') with rfl | differs
      · exact staticnode_ne _ same.symm
      · have shared : dirName path ∈ [staticnode (dirName path'), dirName path'] := by simp [same]
        exact disjoint path mem path' mem' differs (by simp) shared
  · intro both
    obtain ⟨apart, noStaticnode⟩ := both
    refine ⟨fun path _ => by simp [staticnode_ne], ?_⟩
    refine nodup.pairwise_of_forall_ne fun path mem path' mem' differs => ?_
    have differ : dirName path' ≠ dirName path := fun same =>
      differs (apart path mem path' mem' same.symm)
    have one := (noStaticnode path mem path' mem').symm
    have other := noStaticnode path' mem' path mem
    simp [Function.onFun, staticnode_inj, differ, one, other]

namespace Represents

variable (represents : Represents defs root)
include represents

theorem table_names : root.file.tables.map Table.name = (root.dirs []).map dirName :=
  emit_names represents.sound fun path name found => ((represents.table path name).mp found).2

theorem forall_tables (P : Str → Prop) :
    (∀ table ∈ root.file.tables, P table.name) ↔ ∀ path, IsDir defs path → P (dirName path) := by
  rw [← List.forall_mem_map, represents.table_names, List.forall_mem_map]
  simp only [represents.mem_dirs]

theorem mem_externs (f : Str) : f ∈ root.file.externs ↔ ∃ path, lastFunc defs path = some f := by
  rw [FSObject.file, mem_emitDeclarations represents.sound]
  simp [represents.callable]

theorem distinct_iff : (root.file.tables.flatMap Table.identifiers).Nodup ↔
    (∀ path, IsDir defs path → ∀ path', IsDir defs path' → dirName path = dirName path' →
      path = path') ∧
    ∀ path, IsDir defs path → ∀ path', IsDir defs path' →
      dirName path ≠ staticnode (dirName path') := by
  have identifiers := nodup_identifiers represents.table_names (dirs_nodup represents.sound [])
  simpa only [represents.mem_dirs] using identifiers

/-- If the names of the directories are different, the walk in the tables is the one in the
tree. -/
theorem follow_eq (apart : ∀ path path', IsDir defs path → IsDir defs path' →
      dirName path = dirName path' → path = path') (path : List Str) :
    follow root.file.vnodes (.table (dirName [])) path = root.view path := by
  have names : (root.file.tables.map Table.name).Nodup := by
    rw [represents.table_names]
    refine (dirs_nodup represents.sound []).map_on fun path mem path' mem' => apart path path' ?_ ?_
    · exact (represents.mem_dirs path).mp mem
    · exact (represents.mem_dirs path').mp mem'
  have start : root.pointer = .table (dirName []) := by
    have found := (represents.table [] (dirName [])).mpr ⟨.inl rfl, rfl⟩
    rwa [view_nil, Option.some.injEq] at found
  have here : root.objectAt [] = some root := by cases root <;> rfl
  rw [← start]
  exact follow_tables rfl names here path

theorem joinsApart (correct : root.file.Matches defs) : JoinsApart defs := by
  have valid : ∀ path, IsDir defs path → IsIdentifier (dirName path) :=
    (represents.forall_tables IsIdentifier).mp fun table mem =>
      correct.valid table mem _ (List.mem_cons_of_mem _ List.mem_cons_self)
  have own : ∀ path, IsDir defs path → ∀ identifier ∈ [staticnode (dirName path), dirName path],
      identifier ∉ root.file.externs ∧ identifier ≠ ascii "staticfs_root" :=
    (represents.forall_tables fun name => ∀ identifier ∈ [staticnode name, name],
      identifier ∉ root.file.externs ∧ identifier ≠ ascii "staticfs_root").mp correct.own
  obtain ⟨apart, noStaticnode⟩ := represents.distinct_iff.mp correct.distinct
  constructor
  case noDash => exact fun path dir => ((isIdentifier_dirName_iff dir).mp (valid path dir)).1
  case noKeyword => exact fun path dir => ((isIdentifier_dirName_iff dir).mp (valid path dir)).2
  case apart => exact fun path path' dir dir' => apart path dir path' dir'
  case noStaticnode => exact fun path path' dir dir' => noStaticnode path dir path' dir'
  case noFunc =>
    intro path dir path' f last
    obtain ⟨node, name⟩ := List.forall_mem_cons.mp (own path dir)
    have function := (represents.mem_externs f).mpr ⟨path', last⟩
    exact ⟨fun same => (List.forall_mem_singleton.mp name).1 (same ▸ function),
      fun same => node.1 (same ▸ function)⟩
  case noRoot =>
    intro path dir
    exact (own path dir _ (List.mem_cons_of_mem _ List.mem_cons_self)).2

theorem matches_of_joinsApart (joins : JoinsApart defs) : root.file.Matches defs := by
  have walk := represents.follow_eq joins.apart
  constructor
  case valid =>
    refine (represents.forall_tables fun name => ∀ identifier ∈ [staticnode name, name],
      IsIdentifier identifier).mpr fun path dir => ?_
    have identifier := (isIdentifier_dirName_iff dir).mpr
      ⟨joins.noDash path dir, joins.noKeyword path dir⟩
    exact List.forall_mem_cons.mpr
      ⟨isIdentifier_staticnode identifier, List.forall_mem_singleton.mpr identifier⟩
  case distinct =>
    exact represents.distinct_iff.mpr ⟨fun path dir path' dir' => joins.apart path path' dir dir',
      fun path dir path' dir' => joins.noStaticnode path path' dir dir'⟩
  case own =>
    refine (represents.forall_tables fun name => ∀ identifier ∈ [staticnode name, name],
      identifier ∉ root.file.externs ∧ identifier ≠ ascii "staticfs_root").mpr fun path dir => ?_
    have noFunc : ∀ identifier ∈ root.file.externs,
        identifier ≠ dirName path ∧ identifier ≠ staticnode (dirName path) := by
      intro identifier mem
      obtain ⟨path', last⟩ := (represents.mem_externs identifier).mp mem
      exact joins.noFunc path dir path' identifier last
    refine List.forall_mem_cons.mpr ⟨⟨fun mem => (noFunc _ mem).2 rfl, staticnode_ne_root _⟩,
      List.forall_mem_singleton.mpr ⟨fun mem => (noFunc _ mem).1 rfl, joins.noRoot path dir⟩⟩
  case directories =>
    refine ⟨root.dirs [], dirs_nodup represents.sound [], represents.mem_dirs, ?_⟩
    have reached : ∀ path ∈ root.dirs [], follow root.file.vnodes (.table (dirName [])) path =
        some (.table (dirName path)) := by
      intro path mem
      rw [walk path, represents.table]
      exact ⟨(represents.mem_dirs path).mp mem, rfl⟩
    have same : (root.dirs []).map (follow root.file.vnodes (.table (dirName []))) =
        root.file.tables.map fun table : Table => some (Pointer.table table.name) := by
      have byName := congrArg (List.map fun name => some (Pointer.table name)) represents.table_names
      rw [List.map_map, List.map_map] at byName
      exact (List.map_congr_left reached).trans byName.symm
    rwa [← List.forall₂_eq_eq_eq, List.forall₂_map_left_iff, List.forall₂_map_right_iff] at same
  case functions =>
    intro path f last
    rw [walk path, represents.callable]
    exact last

end Represents

end File

/-- **The generated file system**: for all definitions of which none is above another, and in
whatever order the dicts are iterated, `gen_fs` writes a file, and it is what the definitions say
if and only if joining with `_` makes identifiers of the paths of the directories, and keeps them
apart. -/
theorem genFs_matches_iff (order : DictOrder) (defs : List Definition) (free : PrefixFree defs) :
    ∃ file, genFs order defs = some file ∧ (file.Matches defs ↔ JoinsApart defs) := by
  obtain ⟨root, ran, represents⟩ := defineAll_represents order free
  refine ⟨root.file, ?_, represents.joinsApart, represents.matches_of_joinsApart⟩
  rw [genFs, ran]
  rfl

/-- A dict that is iterated in the order of insertion, the last first. -/
def insertionOrder : DictOrder where
  arrange := id
  perm _ := List.Perm.refl _

/-- `/bin/ls : func ls_cmd` -/
def lsDefinition : Definition where
  path := [ascii "bin", ascii "ls"]
  func := ascii "ls_cmd"
  nonempty := List.cons_ne_nil _ _
  words := List.forall_mem_cons.mpr ⟨rfl, List.forall_mem_singleton.mpr rfl⟩

/-- `/bus-0/ls : func ls_cmd` -/
def dashDefinition : Definition where
  path := [ascii "bus-0", ascii "ls"]
  func := ascii "ls_cmd"
  nonempty := List.cons_ne_nil _ _
  words := List.forall_mem_cons.mpr ⟨rfl, List.forall_mem_singleton.mpr rfl⟩

theorem prefixFree_singleton (d : Definition) : PrefixFree [d] := by
  intro d' mem d'' mem' above
  rw [List.mem_singleton.mp mem, List.mem_singleton.mp mem']

/-- The directories of `/bin/ls : func ls_cmd`. -/
theorem isDir_ls {path : List Str} (dir : IsDir [lsDefinition] path) :
    path = [] ∨ path = [ascii "bin"] := by
  rcases dir with rfl | ⟨d, mem, above, differs⟩
  · exact .inl rfl
  · rw [List.mem_singleton.mp mem] at above differs
    have inits := (List.mem_inits _ _).mpr above
    have all : lsDefinition.path.inits = [[], [ascii "bin"], lsDefinition.path] := rfl
    rw [all] at inits
    simpa [differs] using inits

theorem joinsApart_ls : JoinsApart [lsDefinition] where
  noDash path dir := by
    rcases isDir_ls dir with rfl | rfl
    · exact List.forall_mem_nil _
    · exact List.forall_mem_singleton.mpr (by decide)
  noKeyword path dir := by
    rcases isDir_ls dir with rfl | rfl
    · decide
    · decide
  apart path path' dir dir' same := by
    rcases isDir_ls dir with rfl | rfl
    · rcases isDir_ls dir' with rfl | rfl
      · rfl
      · exact absurd same (by decide)
    · rcases isDir_ls dir' with rfl | rfl
      · exact absurd same (by decide)
      · rfl
  noStaticnode path path' dir dir' := by
    rcases isDir_ls dir with rfl | rfl
    · rcases isDir_ls dir' with rfl | rfl
      · decide
      · decide
    · rcases isDir_ls dir' with rfl | rfl
      · decide
      · decide
  noFunc path dir path' f last := by
    have func : f = ascii "ls_cmd" := by
      rcases mem_of_lastFunc last with ⟨d, mem, rfl⟩
      rw [List.mem_singleton.mp mem] at last
      exact (Option.some.inj last).symm
    rw [func]
    rcases isDir_ls dir with rfl | rfl
    · decide
    · decide
  noRoot path dir := by
    rcases isDir_ls dir with rfl | rfl
    · decide
    · decide

theorem genFs_matches_iff_ls :
    ∃ file, genFs insertionOrder [lsDefinition] = some file ∧
      file.Matches [lsDefinition] := by
  rcases genFs_matches_iff insertionOrder [lsDefinition] (prefixFree_singleton lsDefinition)
    with ⟨file, ran, correct⟩
  exact ⟨file, ran, correct.mpr joinsApart_ls⟩

/-- The table for `/bus-0` is called `bus-0`. -/
theorem genFs_not_matches_dash :
    PrefixFree [dashDefinition] ∧ ∀ order, ∃ file, genFs order [dashDefinition] = some file ∧
      ¬ file.Matches [dashDefinition] := by
  refine ⟨prefixFree_singleton dashDefinition, fun order => ?_⟩
  obtain ⟨root, ran, represents⟩ := defineAll_represents order (prefixFree_singleton dashDefinition)
  refine ⟨root.file, by rw [genFs, ran]; rfl, fun correct => ?_⟩
  have dir : IsDir [dashDefinition] [ascii "bus-0"] :=
    .inr ⟨dashDefinition, List.mem_cons_self, ⟨[ascii "ls"], rfl⟩, by simp [dashDefinition]⟩
  have noDash := (represents.joinsApart correct).noDash _ dir _ List.mem_cons_self
  exact noDash (List.contains_iff_mem.mp rfl)

end TheFirmware.GenFs
