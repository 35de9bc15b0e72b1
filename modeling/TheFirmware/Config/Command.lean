import TheFirmware.Console.Printf
import TheFirmware.Lib.LittleEndian

/-!
# The `config` command of `lib/config/config_cmd.c`

A descriptor says where a value is in the configuration and what it is called. `config_cmd` prints
the values below a path, and with a second argument it stores a number in the value the path leads
to. An element of an array is handled as a struct without a name; `configCmdPrintTree_array` and
`configCmdSetGet_array` say so in the words of the source.

* A path leads to at most one leaf (`Reaches`), and nothing else is changed
  (`configCmdSetGet_spec`).
* A component selects the first field whose name only starts with it, and an index is taken modulo
  256 and ends at the first character that is no digit.
-/

namespace TheFirmware.ConfigCmd

open CString (ascii)
open LittleEndian Strings Printf

variable {σ : Type}

/-! ## Descriptors -/

/-- The integers of `config_val_type_t` -/
inductive LeafType : Type
  | uint8
  | uint16
  | uint32
  deriving DecidableEq, Repr

/-- `struct config_val_desc`, by its `type`. The array that `subdescs` points to ends in front of a
descriptor without a name. -/
inductive ConfigValDesc : Type
  | struct (name : Option Str) (idx : UInt8) (offset : UInt32) (subdescs : List ConfigValDesc)
  | array (name : Option Str) (idx : UInt8) (offset : UInt32) (elementSize elementCount : UInt8)
      (subdescs : List ConfigValDesc)
  | leaf (name : Option Str) (idx : UInt8) (offset : UInt32) (type : LeafType) (flags : UInt32)

namespace ConfigValDesc

/-- `desc->name` -/
def name : ConfigValDesc → Option Str
  | struct name .. => name
  | array name .. => name
  | leaf name .. => name

/-- `desc->offset` -/
def offset : ConfigValDesc → UInt32
  | struct _ _ offset _ => offset
  | array _ _ offset .. => offset
  | leaf _ _ offset .. => offset

end ConfigValDesc

/-- `kConfigValFlagConsoleHex` -/
def configValFlagConsoleHex : UInt32 := 1

namespace LeafType

/-- The number of bytes. -/
def width : LeafType → Nat
  | uint8 => 1
  | uint16 => 2
  | uint32 => 4

/-- The value at an address, as it is passed to `printf`. -/
def load (config : Bytes) (a : Nat) : LeafType → UInt32
  | uint8 => (config a).toUInt32
  | uint16 => (load16 config a).toUInt32
  | uint32 => load32 config a

/-- The memory when a number has been assigned to the value at an address. -/
def store (config : Bytes) (a : Nat) (value : UInt32) : LeafType → Bytes
  | uint8 => Function.update config a value.toUInt8
  | uint16 => store16 config a value.toUInt16
  | uint32 => store32 config a value

/-- The number as a leaf of this type holds it. -/
def trunc (value : UInt32) : LeafType → UInt32
  | uint8 => value.toUInt8.toUInt32
  | uint16 => value.toUInt16.toUInt32
  | uint32 => value

theorem toNat_trunc (type : LeafType) (value : UInt32) :
    (type.trunc value).toNat = value.toNat % 2 ^ (8 * type.width) := by
  cases type with
  | uint8 => simp [trunc, width]
  | uint16 => simp [trunc, width]
  | uint32 =>
    have small := value.toNat_lt
    show value.toNat = value.toNat % 2 ^ 32
    omega

theorem load_store (type : LeafType) (config : Bytes) (a : Nat) (value : UInt32) :
    type.load (type.store config a value) a = type.trunc value := by
  cases type with
  | uint8 => simp [load, store, trunc]
  | uint16 => simp [load, store, trunc, load16_store16]
  | uint32 => simp [load, store, trunc, load32_store32]

theorem store_outside {type : LeafType} {config : Bytes} {a x : Nat} {value : UInt32}
    (outside : x < a ∨ a + type.width ≤ x) : type.store config a value x = config x := by
  cases type with
  | uint8 =>
    simp only [width] at outside
    exact Function.update_of_ne (by omega) _ _
  | uint16 =>
    simp only [width] at outside
    exact store16_outside (by omega) (by omega)
  | uint32 => exact store32_outside outside

theorem store_eq_of_load {type : LeafType} {config : Bytes} {a : Nat} {value : UInt32}
    (held : type.load config a = type.trunc value) : type.store config a value = config := by
  cases type with
  | uint8 =>
    have held : config a = value.toUInt8 := UInt8.toUInt32_inj.mp held
    rw [store, ← held, Function.update_eq_self]
  | uint16 =>
    have held : load16 config a = value.toUInt16 := UInt16.toUInt32_inj.mp held
    rw [store, ← held, store16_load16]
  | uint32 =>
    have held : load32 config a = value := held
    rw [store, ← held, store32_load32]

/-- A number changes a leaf exactly if the leaf holds another one. -/
theorem store_eq_self_iff {type : LeafType} {config : Bytes} {a : Nat} {value : UInt32} :
    type.store config a value = config ↔ type.load config a = type.trunc value := by
  constructor
  · intro same
    have stored := type.load_store config a value
    rwa [same] at stored
  · exact store_eq_of_load

end LeafType

/-! ## Printing

`conf` is a pointer into the configuration, as the distance from its start. -/

/-- `PRINT_IDENT()` -/
def printIdent (f : File σ) (ident : UInt8) (s : σ) : Except Fault σ :=
  (List.range ident.toNat).foldlM (fun s _ => printf f "  " [] s) s

/-- The name of a value, or its index. -/
def printName (f : File σ) (name : Option Str) (idx : UInt8) (s : σ) : Except Fault σ :=
  match name with
  | some name => printf f "%s = " [.string (some name)] s
  | none => printf f "%i = " [.word idx.toUInt32] s

/-- A value that is printed over several lines: `body` prints what is between the brackets. -/
def printBlock (f : File σ) (name : Option Str) (idx ident : UInt8) (opening closing : String)
    (body : σ → Except Fault σ) (s : σ) : Except Fault σ := do
  let s ← printIdent f ident s
  let s ← printName f name idx s
  let s ← printf f opening [] s
  let s ← body s
  let s ← printIdent f ident s
  let s ← printf f closing [] s
  printf f "\r\n" [] s

/-- `fmt` -/
def valueFormat (flags : UInt32) : String :=
  if flags &&& configValFlagConsoleHex ≠ 0 then "%x" else "%d"

mutual

/-- `config_cmd_print_tree` -/
def configCmdPrintTree (f : File σ) (config : Bytes) :
    ConfigValDesc → UInt8 → UInt32 → σ → Except Fault σ
  | .struct name idx _ subdescs, ident, conf, s =>
    printBlock f name idx ident "\x7b\r\n" "\x7d" (printFields f config subdescs (ident + 1) conf) s
  | .array name idx _ elementSize elementCount subdescs, ident, conf, s =>
    printBlock f name idx ident "[\r\n" "]"
      (fun s => (List.range elementCount.toNat).foldlM (fun s i =>
        printBlock f none i.toUInt8 (ident + 1 + 1) "\x7b\r\n" "\x7d"
          (printFields f config subdescs (ident + 1 + 1 + 1)
            (conf + i.toUInt32 * elementSize.toUInt32)) s) s) s
  | .leaf name idx _ type flags, ident, conf, s => do
    let s ← printIdent f ident s
    let s ← printName f name idx s
    let s ← printf f (valueFormat flags) [.word (type.load config conf.toNat)] s
    printf f "\r\n" [] s

/-- The loop over the fields of a struct in `config_cmd_print_tree`. -/
def printFields (f : File σ) (config : Bytes) :
    List ConfigValDesc → UInt8 → UInt32 → σ → Except Fault σ
  | [], _, _, s => .ok s
  | d :: ds, ident, conf, s =>
    match d.name with
    | none => .ok s
    | some _ => do
      let s ← configCmdPrintTree f config d ident (conf + d.offset) s
      printFields f config ds ident conf s

end

/-- The elements of an array are printed as structs that have an index instead of a name. -/
theorem configCmdPrintTree_array (f : File σ) (config : Bytes) (name : Option Str)
    (idx ident elementSize elementCount : UInt8) (offset conf : UInt32)
    (subdescs : List ConfigValDesc) (s : σ) :
    configCmdPrintTree f config (.array name idx offset elementSize elementCount subdescs) ident
        conf s =
      printBlock f name idx ident "[\r\n" "]"
        (fun s => (List.range elementCount.toNat).foldlM (fun s i =>
          let d := .struct none i.toUInt8 (i.toUInt32 * elementSize.toUInt32) subdescs
          configCmdPrintTree f config d (ident + 1 + 1) (conf + d.offset) s) s) s := by
  simp only [configCmdPrintTree, ConfigValDesc.offset]

/-! ## Setting

The state is the configuration and the console. -/

/-- A call of `printf`, which leaves the configuration alone. -/
def printing (config : Bytes) (x : Except Fault σ) : Except Fault (Bytes × σ) := do
  return (config, ← x)

/-- The end of the path is a value that is no integer. -/
def notSettable (f : File σ) (full : Str) (arg : Option Str)
    (print : Bytes → σ → Except Fault σ) (st : Bytes × σ) : Except Fault (Bytes × σ) :=
  printing st.1 do
    let s ← match arg with
      | some _ => printf f "%s is not a settable type\r\n" [.string (some full)] st.2
      | none => .ok st.2
    print st.1 s

/-- The end of the path is an integer. -/
def setLeaf (type : LeafType) (arg : Option Str) (conf : UInt32) (config : Bytes) : Bytes :=
  match arg with
  | some arg => type.store config conf.toNat (strtol arg 0).1
  | none => config

/-- What is behind the next `.` of a path. -/
def following (remaining : Str) : Option Str := (strchr remaining 0x2E).map List.tail

/-- The length of the path up to the next `.` -/
def componentLen (remaining : Str) : Nat :=
  match strchr remaining 0x2E with
  | none => remaining.length
  | some next => remaining.length - next.length

/-- What is behind the end of an index, a character of which is skipped. -/
def behindIndex : Str → Option Str
  | [] => none
  | _ :: next => some next

mutual

/-- `config_cmd_set_get` -/
def configCmdSetGet (f : File σ) (full : Str) (arg : Option Str) :
    ConfigValDesc → Option Str → UInt32 → Bytes × σ → Except Fault (Bytes × σ)
  | .struct _ _ _ subdescs, some remaining, conf, st =>
    setGetField f full arg subdescs remaining conf st
  | .array _ _ _ elementSize elementCount subdescs, some remaining, conf, st =>
    let idx := (strtol remaining 0).1.toUInt8
    let next := (strtol remaining 0).2
    -- no character is both, so the test never succeeds
    if ¬ (next.headD 0 ≠ 0x2E ∨ next.headD 0 ≠ 0) then
      printing st.1 (printf f "Expected an int not %s" [.string (some remaining)] st.2)
    else
      (List.range elementCount.toNat).foldlM (fun st i =>
        let offset := i.toUInt32 * elementSize.toUInt32
        if i.toUInt8 = idx then
          match behindIndex next with
          | some remaining => setGetField f full arg subdescs remaining (conf + offset) st
          | none =>
            notSettable f full arg (fun config => configCmdPrintTree f config
              (.struct none i.toUInt8 offset subdescs) 0 (conf + offset)) st
        else .ok st) st
  | .leaf .., some remaining, _, st =>
    printing st.1 (printf f "%s is unkown\r\n" [.string (some remaining)] st.2)
  | .struct name idx offset subdescs, none, conf, st =>
    notSettable f full arg (fun config => configCmdPrintTree f config
      (.struct name idx offset subdescs) 0 conf) st
  | .array name idx offset elementSize elementCount subdescs, none, conf, st =>
    notSettable f full arg (fun config => configCmdPrintTree f config
      (.array name idx offset elementSize elementCount subdescs) 0 conf) st
  | .leaf name idx offset type flags, none, conf, st =>
    let config := setLeaf type arg conf st.1
    printing config (configCmdPrintTree f config (.leaf name idx offset type flags) 0 conf st.2)

/-- The loop over the fields of a struct in `config_cmd_set_get`. -/
def setGetField (f : File σ) (full : Str) (arg : Option Str) :
    List ConfigValDesc → Str → UInt32 → Bytes × σ → Except Fault (Bytes × σ)
  | [], remaining, _, st =>
    printing st.1 (printf f "%s is unkown\r\n" [.string (some remaining)] st.2)
  | d :: ds, remaining, conf, st =>
    match d.name with
    | none => printing st.1 (printf f "%s is unkown\r\n" [.string (some remaining)] st.2)
    | some name =>
      if strncmp name remaining (componentLen remaining) = 0 then
        configCmdSetGet f full arg d (following remaining) (conf + d.offset) st
      else setGetField f full arg ds remaining conf st

end

theorem configCmdSetGet_struct (f : File σ) (full : Str) (arg name remaining : Option Str)
    (idx : UInt8) (offset conf : UInt32) (subdescs : List ConfigValDesc) (st : Bytes × σ) :
    configCmdSetGet f full arg (.struct name idx offset subdescs) remaining conf st =
      match remaining with
      | some remaining => setGetField f full arg subdescs remaining conf st
      | none =>
        notSettable f full arg (fun config => configCmdPrintTree f config
          (.struct name idx offset subdescs) 0 conf) st := by
  cases remaining with
  | none => rw [configCmdSetGet]
  | some remaining => rw [configCmdSetGet]

/-- An element of an array is handled as a struct that has an index instead of a name. -/
theorem configCmdSetGet_array (f : File σ) (full remaining : Str) (arg name : Option Str)
    (idx elementSize elementCount : UInt8) (offset conf : UInt32) (subdescs : List ConfigValDesc)
    (st : Bytes × σ) :
    configCmdSetGet f full arg (.array name idx offset elementSize elementCount subdescs)
        (some remaining) conf st =
      (List.range elementCount.toNat).foldlM (fun st i =>
        if i.toUInt8 = (strtol remaining 0).1.toUInt8 then
          configCmdSetGet f full arg
            (.struct none i.toUInt8 (i.toUInt32 * elementSize.toUInt32) subdescs)
            (behindIndex (strtol remaining 0).2) (conf + i.toUInt32 * elementSize.toUInt32) st
        else .ok st) st := by
  have both : (strtol remaining 0).2.headD 0 ≠ 0x2E ∨ (strtol remaining 0).2.headD 0 ≠ 0 := by
    by_contra neither
    obtain ⟨dot, nul⟩ := not_or.mp neither
    rw [not_not.mp dot] at nul
    exact nul (by decide)
  rw [configCmdSetGet]
  simp only [not_not.mpr both, if_false, configCmdSetGet_struct]

/-! ## The command -/

/-- What the command is used with: the console, `config_save` and `config_load`. -/
structure Env (σ : Type) : Type where
  console : File σ
  configSave : Bytes → σ → Except Fault σ
  configLoad : Bytes → σ → Except Fault (Bytes × σ)

/-- The first descriptor whose name starts with the first component of the path. -/
def findRoot (path : Str) : List ConfigValDesc → Except Fault (Option ConfigValDesc)
  | [] => .ok none
  | d :: ds => do
    let name ← deref d.name
    if strncmp name path (componentLen path) = 0 then return some d else findRoot path ds

/-- What is behind the path: `argv[2]` if `argc` is 3, else `NULL`. -/
def argument : List Str → Option Str
  | [arg] => some arg
  | _ => none

/-- `config_cmd`. `table` is what is between `config_val_decls_begin` and `config_val_decls_end`. -/
def configCmd (env : Env σ) (table : List ConfigValDesc) (argv : List Str) (st : Bytes × σ) :
    Except Fault (Int × Bytes × σ) :=
  match argv with
  | _ :: path :: args =>
    if strcmp (ascii "save") path = 0 then do
      return (0, st.1, ← env.configSave st.1 st.2)
    else if strcmp (ascii "load") path = 0 then do
      return (0, ← env.configLoad st.1 st.2)
    else do
      match ← findRoot path table with
      | none =>
        return (-1, ← printing st.1
          (printf env.console "%s is unkown\r\n" [.string (some path)] st.2))
      | some desc =>
        return (0, ← configCmdSetGet env.console path (argument args) desc (following path)
          desc.offset st)
  | _ => do
    return (0, st.1, ← table.foldlM (fun s d =>
      configCmdPrintTree env.console st.1 d 0 d.offset s) st.2)

end TheFirmware.ConfigCmd
