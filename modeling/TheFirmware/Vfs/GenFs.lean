import TheFirmware.Vfs.Vfs

/-!
# The generator of file systems `tools/gen-fs.py`

`gen_fs` puts the definitions `/bin/ls: func ls_cmd` into a tree of directories and writes a table
for each directory. An entry of a table names another table by its identifier in C, which is made
of the path of the directory with `_` for `/`.

A dict is the list of its entries in the order in which it will be iterated, about which nothing is
known (`DictOrder`).
-/

namespace TheFirmware.GenFs

open CString (ascii)
open Strings Vfs

/-! ## Definitions -/

/-- `Word(alphas, alphanums + "-_")` -/
def isWord (word : Str) : Bool :=
  word.head?.any isalpha && word.all fun c => isalpha c || isdigit c || c = 0x2D || c = 0x5F

/-- A parsed definition: the components of its path, and its function. -/
structure Definition : Type where
  path : List Str
  func : Str
  nonempty : path ≠ []
  words : ∀ component ∈ path, isWord component = true

/-! ## The tree -/

/-- `FSDir` and `FSExecutable` -/
inductive FSObject : Type
  | executable (funcName : Str)
  | dir (name : Str) (entries : List (Str × FSObject))

/-- How the entries of a dict are arranged. -/
structure DictOrder : Type where
  arrange : List (Str × FSObject) → List (Str × FSObject)
  perm : ∀ entries, (arrange entries).Perm entries

/-- `get_entry` -/
def getEntry (entries : List (Str × FSObject)) (name : Str) : Option FSObject :=
  (entries.find? (·.1 = name)).map Prod.snd

/-- `add_entry` -/
def addEntry (order : DictOrder) (entries : List (Str × FSObject)) (name : Str) (obj : FSObject) :
    List (Str × FSObject) :=
  order.arrange ((name, obj) :: entries.filter (·.1 ≠ name))

/-- `'_'.join(components)`, which is the name of a directory; the one of the root is `root`. -/
def dirName (components : List Str) : Str :=
  if components = [] then ascii "root" else [0x5F].intercalate components

/-- What `gen_fs` does for a definition, from the directory with the path `before` on. The result
is `none` when an `FSExecutable` is asked for an entry, which is an `AttributeError`. -/
def define (order : DictOrder) (func : Str) :
    List Str → FSObject → List Str → Option FSObject
  | _, .executable _, _ => none
  | _, .dir dir entries, [] => some (.dir dir entries)
  | _, .dir dir entries, [last] =>
    some (.dir dir (addEntry order entries last (.executable func)))
  | before, .dir dir entries, name :: next :: rest =>
    let here := before ++ [name]
    let child := (getEntry entries name).getD (.dir (dirName here) [])
    (define order func here child (next :: rest)).map fun child =>
      .dir dir (addEntry order entries name child)

/-- `FSRoot` -/
def fsRoot : FSObject := .dir (dirName []) []

/-- The tree of all definitions. -/
def defineAll (order : DictOrder) (defs : List Definition) : Option FSObject :=
  defs.foldlM (fun root d => define order d.func [] root d.path) fsRoot

/-! ## The tables -/

/-- What an entry of a table points to: the table that has an identifier, or a function. -/
inductive Pointer : Type
  | table (name : Str)
  | callable (func : Str)
  deriving DecidableEq, Repr

/-- `STATICFS_DIR` -/
structure Table : Type where
  name : Str
  entries : List (Entry Pointer)

/-- `entry_func` and `entry_extra_arguments`, which are `STATICFS_DIR_ENTRY` with the name of a
directory or `STATICFS_DIR_ENTRY_CALLABLE` with a function. -/
def FSObject.pointer : FSObject → Pointer
  | .executable funcName => .callable funcName
  | .dir name _ => .table name

/-- The table of a directory. -/
def tableOf (name : Str) (entries : List (Str × FSObject)) : Table :=
  { name, entries := entries.map fun entry => { name := entry.1, vnode := entry.2.pointer } }

mutual

/-- `emit` -/
def FSObject.emit : FSObject → List Table
  | .executable _ => []
  | .dir name entries => emitEntries entries ++ [tableOf name entries]

def emitEntries : List (Str × FSObject) → List Table
  | [] => []
  | entry :: entries => emitEntry entry ++ emitEntries entries

def emitEntry : Str × FSObject → List Table
  | (_, obj) => obj.emit

end

/-- `emit_func_delc` -/
def emitFuncDelc (declarations : List Str) (name : Str) : List Str :=
  if name ∈ declarations then declarations else declarations ++ [name]

mutual

/-- `emit_declarations` -/
def FSObject.emitDeclarations : FSObject → List Str → List Str
  | .executable funcName, declarations => emitFuncDelc declarations funcName
  | .dir _ entries, declarations => emitEntriesDeclarations entries declarations

def emitEntriesDeclarations : List (Str × FSObject) → List Str → List Str
  | [], declarations => declarations
  | entry :: entries, declarations =>
    emitEntriesDeclarations entries (emitEntryDeclarations entry declarations)

def emitEntryDeclarations : Str × FSObject → List Str → List Str
  | (_, obj), declarations => obj.emitDeclarations declarations

end

/-- The generated file: the functions that are declared, and the tables. -/
structure File : Type where
  externs : List Str
  tables : List Table

/-- `FSRoot.emit` -/
def FSObject.file (root : FSObject) : File :=
  { externs := root.emitDeclarations [], tables := root.emit }

/-- `gen_fs` -/
def genFs (order : DictOrder) (defs : List Definition) : Option File :=
  (defineAll order defs).map FSObject.file

end TheFirmware.GenFs
