import TheFirmware.Config.Command

/-!
# Where a path of the `config` command leads

`Reaches` is the leaf that `config_cmd_set_get` finds for a path: a component of the path selects
the first field whose name starts with it, and an index ends at the first character that is no digit
and is taken modulo 256. `Exact` is how a path is meant: every component is the whole name of a
field or a whole number that is smaller than the number of elements.

* At most the leaf that is reached is changed (`configCmdSetGet_oneLeaf`).
* A path that is not exact leaves the configuration alone only if it reaches no leaf or stores what
  is there already (`configCmd_exact_iff`).
-/

namespace TheFirmware.ConfigCmd

open CString (ascii)
open LittleEndian Strings Printf

variable {σ : Type}

/-! ## Paths -/

/-- The path up to the next `.` -/
def component (remaining : Str) : Str := remaining.takeWhile (· ≠ 0x2E)

/-- The fields of a struct: those in front of the first one without a name. -/
def fields (subdescs : List ConfigValDesc) : List ConfigValDesc :=
  subdescs.takeWhile (·.name.isSome)

/-- The first field whose name starts with the text. -/
def lookup (text : Str) (subdescs : List ConfigValDesc) : Option ConfigValDesc :=
  (fields subdescs).find? fun d => d.name.any text.isPrefixOf

/-- Following the path from a descriptor at `conf` leads to a leaf of this type at `a`. -/
inductive Reaches : ConfigValDesc → Option Str → UInt32 → LeafType → UInt32 → Prop
  | leaf {name : Option Str} {idx : UInt8} {offset conf flags : UInt32} {type : LeafType} :
      Reaches (.leaf name idx offset type flags) none conf type conf
  | field {name : Option Str} {idx : UInt8} {offset conf a : UInt32} {subdescs : List ConfigValDesc}
      {remaining : Str} {d : ConfigValDesc} {type : LeafType}
      (found : lookup (component remaining) subdescs = some d)
      (rest : Reaches d (following remaining) (conf + d.offset) type a) :
      Reaches (.struct name idx offset subdescs) (some remaining) conf type a
  | element {name : Option Str} {idx elementSize elementCount index : UInt8}
      {offset conf a : UInt32} {subdescs : List ConfigValDesc} {remaining : Str} {type : LeafType}
      (read : (strtol remaining 0).1.toUInt8 = index) (small : index < elementCount)
      (rest : Reaches (.struct none index (index.toUInt32 * elementSize.toUInt32) subdescs)
        (behindIndex (strtol remaining 0).2) (conf + index.toUInt32 * elementSize.toUInt32)
        type a) :
      Reaches (.array name idx offset elementSize elementCount subdescs) (some remaining) conf
        type a

/-- A leaf of this type is at `a`, when the descriptor is for what is at `conf`. -/
inductive LeafAt : ConfigValDesc → UInt32 → LeafType → UInt32 → Prop
  | leaf {name : Option Str} {idx : UInt8} {offset conf flags : UInt32} {type : LeafType} :
      LeafAt (.leaf name idx offset type flags) conf type conf
  | field {name : Option Str} {idx : UInt8} {offset conf a : UInt32} {subdescs : List ConfigValDesc}
      {d : ConfigValDesc} {type : LeafType} (mem : d ∈ fields subdescs)
      (rest : LeafAt d (conf + d.offset) type a) :
      LeafAt (.struct name idx offset subdescs) conf type a
  | element {name : Option Str} {idx elementSize elementCount index : UInt8}
      {offset conf a : UInt32} {subdescs : List ConfigValDesc} {type : LeafType}
      (small : index < elementCount)
      (rest : LeafAt (.struct none index (index.toUInt32 * elementSize.toUInt32) subdescs)
        (conf + index.toUInt32 * elementSize.toUInt32) type a) :
      LeafAt (.array name idx offset elementSize elementCount subdescs) conf type a

/-- All leaves are within the first `size` bytes. -/
def Inside (desc : ConfigValDesc) (conf : UInt32) (size : Nat) : Prop :=
  ∀ type a, LeafAt desc conf type a → a.toNat + type.width ≤ size

theorem lookup_mem {text : Str} {subdescs : List ConfigValDesc} {d : ConfigValDesc}
    (found : lookup text subdescs = some d) : d ∈ fields subdescs :=
  List.mem_of_find?_eq_some found

theorem Reaches.leafAt {desc : ConfigValDesc} {remaining : Option Str} {conf a : UInt32}
    {type : LeafType} (reached : Reaches desc remaining conf type a) : LeafAt desc conf type a := by
  induction reached with
  | leaf => exact .leaf
  | field found rest ih => exact .field (lookup_mem found) ih
  | element read small rest ih => exact .element small ih

/-- A path leads to one leaf only. -/
theorem Reaches.unique {desc : ConfigValDesc} {remaining : Option Str} {conf a a' : UInt32}
    {type type' : LeafType} (reached : Reaches desc remaining conf type a)
    (reached' : Reaches desc remaining conf type' a') : type' = type ∧ a' = a := by
  induction reached with
  | leaf =>
    cases reached'
    exact ⟨rfl, rfl⟩
  | field found rest ih =>
    cases reached' with
    | field found' rest' =>
      rw [found] at found'
      cases found'
      exact ih rest'
  | element read small rest ih =>
    cases reached' with
    | element read' small' rest' =>
      rw [read] at read'
      cases read'
      exact ih rest'

/-- The induction over a tree of descriptors. -/
theorem ConfigValDesc.descend {P : ConfigValDesc → Prop}
    (struct : ∀ name idx offset subdescs, (∀ d ∈ subdescs, P d) →
      P (.struct name idx offset subdescs))
    (array : ∀ name idx offset elementSize elementCount subdescs, (∀ d ∈ subdescs, P d) →
      P (.array name idx offset elementSize elementCount subdescs))
    (leaf : ∀ name idx offset type flags, P (.leaf name idx offset type flags))
    (desc : ConfigValDesc) : P desc :=
  @ConfigValDesc.rec P (fun ds => ∀ d ∈ ds, P d)
    (fun name idx offset subdescs all => struct name idx offset subdescs all)
    (fun name idx offset elementSize elementCount subdescs all =>
      array name idx offset elementSize elementCount subdescs all)
    leaf
    (fun _ mem => nomatch mem)
    (fun _ _ first rest => List.forall_mem_cons.mpr ⟨first, rest⟩)
    desc

/-! ## Printing returns -/

section Print

variable {f : File σ} {config : Bytes}

/-- A loop returns if its body does. -/
theorem foldlM_returns {α : Type} {body : σ → α → Except Fault σ}
    (returns : ∀ s i, ∃ s', body s i = .ok s') (is : List α) (s : σ) :
    ∃ s', is.foldlM body s = .ok s' := by
  induction is generalizing s with
  | nil => exact ⟨s, rfl⟩
  | cons i is ih =>
    obtain ⟨s', ran⟩ := returns s i
    rw [List.foldlM_cons, ran]
    exact ih s'

theorem printIdent_returns (ident : UInt8) (s : σ) : ∃ s', printIdent f ident s = .ok s' :=
  foldlM_returns (fun _ _ => printf_returns rfl) _ s

theorem printName_returns (name : Option Str) (idx : UInt8) (s : σ) :
    ∃ s', printName f name idx s = .ok s' := by
  cases name with
  | none => exact printf_returns rfl
  | some name => exact printf_returns rfl

theorem printBlock_returns {name : Option Str} {idx ident : UInt8} {opening closing : String}
    {body : σ → Except Fault σ} (plain : suits (ascii opening) [] = true)
    (plain' : suits (ascii closing) [] = true) (returns : ∀ s, ∃ s', body s = .ok s') (s : σ) :
    ∃ s', printBlock f name idx ident opening closing body s = .ok s' := by
  obtain ⟨s₁, ran₁⟩ := printIdent_returns (f := f) ident s
  obtain ⟨s₂, ran₂⟩ := printName_returns (f := f) name idx s₁
  obtain ⟨s₃, ran₃⟩ := printf_returns (f := f) (s := s₂) plain
  obtain ⟨s₄, ran₄⟩ := returns s₃
  obtain ⟨s₅, ran₅⟩ := printIdent_returns (f := f) ident s₄
  obtain ⟨s₆, ran₆⟩ := printf_returns (f := f) (s := s₅) plain'
  unfold printBlock
  rw [ran₁, Except.ok_bind, ran₂, Except.ok_bind, ran₃, Except.ok_bind, ran₄, Except.ok_bind, ran₅,
    Except.ok_bind, ran₆, Except.ok_bind]
  exact printf_returns rfl

theorem printFields_returns {subdescs : List ConfigValDesc}
    (each : ∀ d ∈ subdescs, ∀ ident conf s, ∃ s',
      configCmdPrintTree f config d ident conf s = .ok s')
    (ident : UInt8) (conf : UInt32) (s : σ) :
    ∃ s', printFields f config subdescs ident conf s = .ok s' := by
  induction subdescs generalizing s with
  | nil => exact ⟨s, by rw [printFields]⟩
  | cons d ds ih =>
    obtain ⟨first, rest⟩ := List.forall_mem_cons.mp each
    rw [printFields]
    cases d.name with
    | none => exact ⟨s, rfl⟩
    | some name =>
      obtain ⟨s', ran⟩ := first ident (conf + d.offset) s
      simp only [ran, Except.ok_bind]
      exact ih rest s'

theorem valueFormat_suits (flags value : UInt32) :
    suits (ascii (valueFormat flags)) [.word value] = true := by
  unfold valueFormat
  split
  · rfl
  · rfl

/-- The values below a descriptor are printed, whatever the console does. -/
theorem configCmdPrintTree_returns (desc : ConfigValDesc) (ident : UInt8) (conf : UInt32) (s : σ) :
    ∃ s', configCmdPrintTree f config desc ident conf s = .ok s' := by
  induction desc using ConfigValDesc.descend generalizing ident conf s with
  | struct name idx offset subdescs each =>
    rw [configCmdPrintTree]
    exact printBlock_returns rfl rfl (printFields_returns each _ _) s
  | array name idx offset elementSize elementCount subdescs each =>
    rw [configCmdPrintTree]
    refine printBlock_returns rfl rfl (fun s => foldlM_returns (fun s i => ?_) _ s) s
    exact printBlock_returns rfl rfl (printFields_returns each _ _) s
  | leaf name idx offset type flags =>
    obtain ⟨s₁, ran₁⟩ := printIdent_returns (f := f) ident s
    obtain ⟨s₂, ran₂⟩ := printName_returns (f := f) name idx s₁
    obtain ⟨s₃, ran₃⟩ := printf_returns (f := f) (s := s₂)
      (valueFormat_suits flags (type.load config conf.toNat))
    rw [configCmdPrintTree, ran₁, Except.ok_bind, ran₂, Except.ok_bind, ran₃, Except.ok_bind]
    exact printf_returns rfl

end Print

/-! ## Following a path -/

theorem componentLen_eq (remaining : Str) :
    componentLen remaining = (component remaining).length := by
  rcases Classical.em ((0x2E : UInt8) ∈ remaining) with dot | noDot
  · obtain ⟨first, rest, rfl, absent⟩ := List.eq_append_cons_of_mem dot
    have kept : ∀ c ∈ first, decide (c ≠ 0x2E) = true := fun c mem =>
      decide_eq_true fun same => absent (same ▸ mem)
    rw [componentLen, strchr_append absent, component, List.takeWhile_append_of_pos kept]
    simp
  · have kept : ∀ c ∈ remaining, decide (c ≠ 0x2E) = true := fun c mem =>
      decide_eq_true fun same => noDot (same ▸ mem)
    rw [componentLen, strchr_of_not_mem noDot, component, List.takeWhile_eq_self_iff.mpr kept]

/-- The name starts with the component of the path. -/
theorem strncmp_component (name remaining : Str) :
    strncmp name remaining (componentLen remaining) = 0 ↔ component remaining <+: name := by
  have taken : remaining.take (component remaining).length = component remaining :=
    List.prefix_iff_eq_take.mp (List.takeWhile_prefix _) |>.symm
  rw [strncmp_eq_zero_iff, componentLen_eq, taken, List.prefix_iff_eq_take]
  exact eq_comm

theorem lookup_cons (text : Str) (d : ConfigValDesc) (ds : List ConfigValDesc) :
    lookup text (d :: ds) =
      match d.name with
      | none => none
      | some name => if text <+: name then some d else lookup text ds := by
  unfold lookup fields
  cases named : d.name with
  | none => simp [named]
  | some name =>
    rw [List.takeWhile_cons_of_pos (by simp [named]), List.find?_cons, named]
    simp only [Option.any_some]
    split
    · rename_i found
      rw [if_pos (List.isPrefixOf_iff_prefix.mp found)]
    · rename_i missed
      have other : ¬ text <+: name := fun found => by
        rw [List.isPrefixOf_iff_prefix.mpr found] at missed
        cases missed
      rw [if_neg other]

/-- The loop over the fields goes on with the one that `lookup` finds. -/
theorem setGetField_eq (f : File σ) (full : Str) (arg : Option Str) (subdescs : List ConfigValDesc)
    (remaining : Str) (conf : UInt32) (st : Bytes × σ) :
    setGetField f full arg subdescs remaining conf st =
      match lookup (component remaining) subdescs with
      | none => printing st.1 (printf f "%s is unkown\r\n" [.string (some remaining)] st.2)
      | some d => configCmdSetGet f full arg d (following remaining) (conf + d.offset) st := by
  induction subdescs with
  | nil => rw [setGetField]; rfl
  | cons d ds ih =>
    rw [setGetField, lookup_cons]
    cases d.name with
    | none => rfl
    | some name =>
      simp only [strncmp_component]
      split
      · rfl
      · exact ih

/-- A loop in which only the step for `index` does something. -/
theorem foldlM_index {α : Type} (step : Nat → α → Except Fault α) (index : UInt8) {n : Nat}
    (bound : n ≤ 256) (st : α) :
    (List.range n).foldlM (fun st i => if i.toUInt8 = index then step i st else .ok st) st =
      if index.toNat < n then step index.toNat st else .ok st := by
  induction n with
  | zero => rfl
  | succ n ih =>
    rw [List.range_succ, List.foldlM_append, ih (by omega)]
    have same : n.toUInt8 = index ↔ n = index.toNat := by
      rw [← UInt8.toNat_inj]
      show n % 256 = _ ↔ _
      rw [Nat.mod_eq_of_lt (by omega)]
    rcases Nat.lt_trichotomy index.toNat n with before | at_ | behind
    · rw [if_pos before, if_pos (by omega)]
      have other : n.toUInt8 ≠ index := fun eq => by have := same.mp eq; omega
      simp only [List.foldlM_cons, List.foldlM_nil, if_neg other]
      cases step index.toNat st <;> rfl
    · rw [if_neg (by omega), if_pos (by omega), Except.ok_bind]
      simp only [List.foldlM_cons, List.foldlM_nil, if_pos (same.mpr at_.symm), at_]
      cases step n st <;> rfl
    · rw [if_neg (by omega), if_neg (by omega), Except.ok_bind]
      have other : n.toUInt8 ≠ index := fun eq => by have := same.mp eq; omega
      simp only [List.foldlM_cons, List.foldlM_nil, if_neg other]
      rfl

/-- What the path leads to has been set, and nothing else. -/
def Outcome (desc : ConfigValDesc) (remaining : Option Str) (conf : UInt32) (arg : Option Str)
    (config config' : Bytes) : Prop :=
  (∃ type a, Reaches desc remaining conf type a ∧ config' = setLeaf type arg a config) ∨
    ((∀ type a, ¬ Reaches desc remaining conf type a) ∧ config' = config)

/-- Setting returns with such an outcome. -/
def Sets (desc : ConfigValDesc) : Prop :=
  ∀ {σ : Type} (f : File σ) (full : Str) (arg remaining : Option Str) (conf : UInt32)
    (config : Bytes) (s : σ), ∃ config' s',
    configCmdSetGet f full arg desc remaining conf (config, s) = .ok (config', s') ∧
      Outcome desc remaining conf arg config config'

theorem printing_returns {config : Bytes} {x : Except Fault σ} (returns : ∃ s', x = .ok s') :
    ∃ s', printing config x = .ok (config, s') := by
  obtain ⟨s', ran⟩ := returns
  exact ⟨s', by rw [printing, ran]; rfl⟩

theorem notSettable_returns (f : File σ) (full : Str) (arg : Option Str) (desc : ConfigValDesc)
    (conf : UInt32) (config : Bytes) (s : σ) :
    ∃ s', notSettable f full arg (fun config => configCmdPrintTree f config desc 0 conf)
      (config, s) = .ok (config, s') := by
  apply printing_returns
  cases arg with
  | none => exact configCmdPrintTree_returns desc 0 conf s
  | some arg =>
    have told : ∃ s', printf f "%s is not a settable type\r\n" [.string (some full)] s = .ok s' :=
      printf_returns rfl
    obtain ⟨s₁, told⟩ := told
    simp only [told, Except.ok_bind]
    exact configCmdPrintTree_returns desc 0 conf s₁

theorem unkown_returns (f : File σ) (config : Bytes) (remaining : Str) (s : σ) :
    ∃ s', printing config (printf f "%s is unkown\r\n" [.string (some remaining)] s) =
      .ok (config, s') :=
  printing_returns (printf_returns rfl)

theorem sets_struct {name : Option Str} {idx : UInt8} {offset : UInt32}
    {subdescs : List ConfigValDesc} (each : ∀ d ∈ subdescs, Sets d) :
    Sets (.struct name idx offset subdescs) := by
  intro σ f full arg remaining conf config s
  rw [configCmdSetGet_struct]
  cases remaining with
  | none =>
    obtain ⟨s', ran⟩ := notSettable_returns f full arg
      (.struct name idx offset subdescs) conf config s
    exact ⟨config, s', ran, .inr ⟨fun _ _ reached => (by cases reached), rfl⟩⟩
  | some remaining =>
    simp only [setGetField_eq]
    cases found : lookup (component remaining) subdescs with
    | none =>
      obtain ⟨s', ran⟩ := unkown_returns f config remaining s
      refine ⟨config, s', ran, .inr ⟨fun type a reached => ?_, rfl⟩⟩
      cases reached with
      | field found' => rw [found] at found'; cases found'
    | some d =>
      have mem : d ∈ subdescs := (List.takeWhile_prefix _).subset (lookup_mem found)
      obtain ⟨config', s', ran, outcome⟩ :=
        each d mem f full arg (following remaining) (conf + d.offset) config s
      refine ⟨config', s', ran, ?_⟩
      rcases outcome with ⟨type, a, reached, set⟩ | ⟨unreached, same⟩
      · exact .inl ⟨type, a, .field found reached, set⟩
      · refine .inr ⟨fun type a reached => ?_, same⟩
        cases reached with
        | field found' rest =>
          rw [found] at found'
          cases found'
          exact unreached type a rest

theorem sets_array {name : Option Str} {idx elementSize elementCount : UInt8} {offset : UInt32}
    {subdescs : List ConfigValDesc} (each : ∀ d ∈ subdescs, Sets d) :
    Sets (.array name idx offset elementSize elementCount subdescs) := by
  intro σ f full arg remaining conf config s
  cases remaining with
  | none =>
    rw [configCmdSetGet]
    obtain ⟨s', ran⟩ := notSettable_returns f full arg
      (.array name idx offset elementSize elementCount subdescs) conf config s
    exact ⟨config, s', ran, .inr ⟨fun _ _ reached => (by cases reached), rfl⟩⟩
  | some remaining =>
    have bound : elementCount.toNat ≤ 256 := Nat.le_of_lt elementCount.toNat_lt
    rw [configCmdSetGet_array, foldlM_index _ _ bound]
    generalize read : (strtol remaining 0).1.toUInt8 = index
    have word : index.toNat.toUInt32 = index.toUInt32 := by
      rw [← UInt32.toNat_inj, UInt8.toNat_toUInt32]
      have small := index.toNat_lt
      show index.toNat % 4294967296 = _
      omega
    simp only [UInt8.ofNat_toNat, word, ← UInt8.lt_iff_toNat_lt]
    split
    · rename_i small
      have element : Sets (.struct none index (index.toUInt32 * elementSize.toUInt32) subdescs) :=
        sets_struct each
      obtain ⟨config', s', ran, outcome⟩ := element f full arg (behindIndex (strtol remaining 0).2)
        (conf + index.toUInt32 * elementSize.toUInt32) config s
      refine ⟨config', s', ran, ?_⟩
      rcases outcome with ⟨type, a, reached, set⟩ | ⟨unreached, same⟩
      · exact .inl ⟨type, a, .element read small reached, set⟩
      · refine .inr ⟨fun type a reached => ?_, same⟩
        cases reached with
        | element read' small' rest =>
          rw [read] at read'
          cases read'
          exact unreached type a rest
    · rename_i large
      refine ⟨config, s, rfl, .inr ⟨fun type a reached => ?_, rfl⟩⟩
      cases reached with
      | element read' small' rest =>
        rw [read] at read'
        cases read'
        exact large small'

/-- `config_cmd_set_get` returns, and it has set the leaf that the path leads to, if there is one.
-/
theorem configCmdSetGet_spec (desc : ConfigValDesc) : Sets desc := by
  induction desc using ConfigValDesc.descend with
  | struct name idx offset subdescs each => exact sets_struct each
  | array name idx offset elementSize elementCount subdescs each => exact sets_array each
  | leaf name idx offset type flags =>
    intro σ f full arg remaining conf config s
    cases remaining with
    | none =>
      rw [configCmdSetGet]
      obtain ⟨s', ran⟩ := printing_returns (configCmdPrintTree_returns (f := f)
        (.leaf name idx offset type flags) 0 conf s)
      exact ⟨_, s', ran, .inl ⟨type, conf, .leaf, rfl⟩⟩
    | some remaining =>
      rw [configCmdSetGet]
      obtain ⟨s', ran⟩ := unkown_returns f config remaining s
      exact ⟨config, s', ran, .inr ⟨fun _ _ reached => (by cases reached), rfl⟩⟩

/-! ## One leaf -/

/-- At most the bytes of the one leaf that the path leads to are changed, to the number that the
argument stands for. -/
theorem configCmdSetGet_oneLeaf (f : File σ) {size : Nat} {desc : ConfigValDesc} {conf : UInt32}
    (inside : Inside desc conf size) (full : Str) (remaining arg : Option Str) (config : Bytes)
    (s : σ) : ∃ config' s',
    configCmdSetGet f full arg desc remaining conf (config, s) = .ok (config', s') ∧
      (arg = none → config' = config) ∧
      ((∀ type a, ¬ Reaches desc remaining conf type a) ∧ config' = config ∨
        ∃ type a, Reaches desc remaining conf type a ∧
          (∀ type' a', Reaches desc remaining conf type' a' → type' = type ∧ a' = a) ∧
          a.toNat + type.width ≤ size ∧
          (∀ text, arg = some text → (type.load config' a.toNat).toNat =
            (strtol text 0).1.toNat % 2 ^ (8 * type.width)) ∧
          ∀ x, x < a.toNat ∨ a.toNat + type.width ≤ x → config' x = config x) := by
  obtain ⟨config', s', ran, outcome⟩ :=
    configCmdSetGet_spec desc f full arg remaining conf config s
  refine ⟨config', s', ran, ?_⟩
  rcases outcome with ⟨type, a, reached, rfl⟩ | ⟨unreached, rfl⟩
  · refine ⟨fun absent => by rw [absent]; rfl, .inr ⟨type, a, reached, ?_, ?_, ?_, ?_⟩⟩
    · exact fun _ _ reached' => reached.unique reached'
    · exact inside type a reached.leafAt
    · intro text given
      rw [given]
      show (type.load (type.store config a.toNat _) a.toNat).toNat = _
      rw [LeafType.load_store, LeafType.toNat_trunc]
    · intro x outside
      cases arg with
      | none => rfl
      | some text => exact LeafType.store_outside outside
  · exact ⟨fun _ => rfl, .inl ⟨unreached, rfl⟩⟩

/-- The outputs in the table of `can_node.c`, of which there are two here, without their sources. -/
def canOutput : ConfigValDesc :=
  .array (some (ascii "output")) 4 12 8 2
    [.leaf (some (ascii "mode")) 1 0 .uint8 configValFlagConsoleHex]

theorem inside_canOutput : Inside canOutput 16 32 := by
  intro type a held
  cases held with
  | element small rest =>
    rename_i index
    cases rest with
    | field mem rest =>
      cases List.mem_singleton.mp mem
      cases rest
      have bound : index.toNat < 2 := UInt8.lt_iff_toNat_lt.mp small
      obtain rfl | rfl : index = 0 ∨ index = 1 := by
        rw [← UInt8.toNat_inj, ← UInt8.toNat_inj]
        show index.toNat = 0 ∨ index.toNat = 1
        omega
      · decide
      · decide

theorem configCmdSetGet_oneLeaf_mode : ∃ config' s',
    configCmdSetGet recorder (ascii "can.output.1.mode") (some (ascii "0x105")) canOutput
        (some (ascii "1.mode")) 16 (fun _ => 0, []) = .ok (config', s') ∧
      config' 24 = 5 ∧ ∀ x, x < 24 ∨ 25 ≤ x → config' x = 0 := by
  have reached : Reaches canOutput (some (ascii "1.mode")) 16 .uint8 24 :=
    .element rfl (by decide) (.field rfl .leaf)
  obtain ⟨config', s', ran, -, ⟨unreached, -⟩ | ⟨type, a, -, only, -, held, frame⟩⟩ :=
    configCmdSetGet_oneLeaf recorder inside_canOutput (ascii "can.output.1.mode")
      (some (ascii "1.mode")) (some (ascii "0x105")) (fun _ => 0) []
  · exact absurd reached (unreached _ _)
  · obtain ⟨rfl, rfl⟩ := only _ _ reached
    have held := held _ rfl
    have value : (strtol (ascii "0x105") 0).1.toNat % 2 ^ (8 * LeafType.uint8.width) = 5 := by
      decide
    rw [value] at held
    exact ⟨config', s', ran, UInt8.toNat_inj.mp held, frame⟩

/-! ## Exact paths -/

/-- Every component is the whole name of a field of its level, or a whole number that is smaller
than the number of elements. -/
inductive Exact : ConfigValDesc → List Str → Prop
  | here (desc : ConfigValDesc) : Exact desc []
  | field {name : Option Str} {idx : UInt8} {offset : UInt32} {subdescs : List ConfigValDesc}
      {d : ConfigValDesc} {text : Str} {path : List Str} (mem : d ∈ fields subdescs)
      (named : d.name = some text) (rest : Exact d path) :
      Exact (.struct name idx offset subdescs) (text :: path)
  | element {name : Option Str} {idx elementSize elementCount index : UInt8} {offset : UInt32}
      {subdescs : List ConfigValDesc} {text : Str} {path : List Str}
      (number : IsNumber text index.toNat) (small : index < elementCount)
      (rest : Exact (.struct none index (index.toUInt32 * elementSize.toUInt32) subdescs) path) :
      Exact (.array name idx offset elementSize elementCount subdescs) (text :: path)

/-- The path is exact, from the table on. -/
def ExactPath (table : List ConfigValDesc) (path : Str) : Prop :=
  ∃ text rest, path.splitOn 0x2E = text :: rest ∧
    ∃ d ∈ table, d.name = some text ∧ Exact d rest

/-- The path leads to a leaf, from the table on. -/
def Leads (table : List ConfigValDesc) (path : Str) (type : LeafType) (a : UInt32) : Prop :=
  ∃ d, lookup (component path) table = some d ∧ Reaches d (following path) d.offset type a

theorem findRoot_of_lookup {table : List ConfigValDesc} {path : Str} {d : ConfigValDesc}
    (found : lookup (component path) table = some d) : findRoot path table = .ok (some d) := by
  induction table with
  | nil => cases found
  | cons e table ih =>
    rw [lookup_cons] at found
    rw [findRoot]
    cases named : e.name with
    | none => rw [named] at found; cases found
    | some name =>
      simp only [named, ← strncmp_component] at found
      simp only [deref_some, Except.ok_bind]
      split
      · rename_i first
        rw [if_pos first] at found
        rw [found]
        rfl
      · rename_i other
        rw [if_neg other] at found
        exact ih found

/-- No descriptor is found, whether or not there is one without a name. -/
theorem findRoot_of_not_lookup {table : List ConfigValDesc} {path : Str}
    {root : Option ConfigValDesc} (missing : lookup (component path) table = none)
    (ran : findRoot path table = .ok root) : root = none := by
  induction table with
  | nil => exact (Except.ok.inj ran).symm
  | cons e table ih =>
    rw [lookup_cons] at missing
    rw [findRoot] at ran
    cases named : e.name with
    | none => rw [named] at ran; cases ran
    | some name =>
      simp only [named, ← strncmp_component] at missing
      simp only [named, deref_some, Except.ok_bind] at ran
      split at missing
      · cases missing
      · rename_i other
        rw [if_neg other] at ran
        exact ih missing ran

section Command

variable {env : Env σ} {table : List ConfigValDesc} {cmd path : Str} {args : List Str}
  {config : Bytes} {s : σ}

theorem configCmd_path (notSave : path ≠ ascii "save") (notLoad : path ≠ ascii "load") :
    configCmd env table (cmd :: path :: args) (config, s) = do
      match ← findRoot path table with
      | none =>
        return (-1, ← printing config
          (printf env.console "%s is unkown\r\n" [.string (some path)] s))
      | some desc =>
        return (0, ← configCmdSetGet env.console path (argument args) desc (following path)
          desc.offset (config, s)) := by
  have save : ¬ strcmp (ascii "save") path = 0 := fun same =>
    notSave ((strcmp_eq_zero_iff (by decide)).mp same).symm
  have load : ¬ strcmp (ascii "load") path = 0 := fun same =>
    notLoad ((strcmp_eq_zero_iff (by decide)).mp same).symm
  rw [configCmd, if_neg save]
  exact if_neg load

variable (env cmd args config s) in
/-- The command sets the leaf that the path leads to. -/
theorem configCmd_leads (notSave : path ≠ ascii "save") (notLoad : path ≠ ascii "load")
    {type : LeafType} {a : UInt32} (leads : Leads table path type a) :
    ∃ s', configCmd env table (cmd :: path :: args) (config, s) =
      .ok (0, setLeaf type (argument args) a config, s') := by
  obtain ⟨d, found, reached⟩ := leads
  obtain ⟨config', s', ran, outcome⟩ := configCmdSetGet_spec d env.console path (argument args)
    (following path) d.offset config s
  rw [configCmd_path notSave notLoad, findRoot_of_lookup found, Except.ok_bind]
  simp only [ran, Except.ok_bind]
  rcases outcome with ⟨type', a', reached', rfl⟩ | ⟨unreached, rfl⟩
  · obtain ⟨rfl, rfl⟩ := reached'.unique reached
    exact ⟨s', rfl⟩
  · exact absurd reached (unreached type a)

/-- A path that leads nowhere changes nothing. -/
theorem configCmd_leads_nowhere (notSave : path ≠ ascii "save") (notLoad : path ≠ ascii "load")
    (nowhere : ∀ type a, ¬ Leads table path type a) {r : Int} {config' : Bytes} {s' : σ}
    (ran : configCmd env table (cmd :: path :: args) (config, s) = .ok (r, config', s')) :
    config' = config := by
  rw [configCmd_path notSave notLoad] at ran
  obtain ⟨root, searched, ran⟩ := Except.bind_eq_ok.mp ran
  cases found : lookup (component path) table with
  | none =>
    rw [findRoot_of_not_lookup found searched] at ran
    obtain ⟨s'', printed⟩ := unkown_returns env.console config path s
    simp only [printed, Except.ok_bind] at ran
    cases ran
    rfl
  | some d =>
    rw [findRoot_of_lookup found] at searched
    cases searched
    obtain ⟨config'', s'', set, outcome⟩ := configCmdSetGet_spec d env.console path (argument args)
      (following path) d.offset config s
    simp only [set, Except.ok_bind] at ran
    cases ran
    rcases outcome with ⟨type, a, reached, -⟩ | ⟨-, same⟩
    · exact absurd ⟨d, found, reached⟩ (nowhere type a)
    · exact same

end Command

/-- The configuration changes only for an exact path if and only if the path is exact, or no number
is given, or the path leads to no leaf, or the leaf it leads to holds the number already. -/
theorem configCmd_exact_iff (env : Env σ) (table : List ConfigValDesc) (cmd path : Str)
    (args : List Str) (config : Bytes) (s : σ) (notSave : path ≠ ascii "save")
    (notLoad : path ≠ ascii "load") :
    (∀ r config' s',
        configCmd env table (cmd :: path :: args) (config, s) = .ok (r, config', s') →
          config' ≠ config → ExactPath table path) ↔
      ExactPath table path ∨ ∀ text type a, args = [text] → Leads table path type a →
        type.load config a.toNat = type.trunc (strtol text 0).1 := by
  constructor
  · intro only
    rcases Classical.em (ExactPath table path) with exact_ | loose
    · exact .inl exact_
    · refine .inr fun text type a given leads => ?_
      obtain ⟨s', ran⟩ := configCmd_leads env cmd args config s notSave notLoad leads
      have same : setLeaf type (argument args) a config = config := by
        by_contra changed
        exact loose (only _ _ _ ran changed)
      rw [given] at same
      exact LeafType.store_eq_self_iff.mp same
  · intro condition r config' s' ran changed
    rcases condition with exact_ | held
    · exact exact_
    · exfalso
      apply changed
      rcases Classical.em (∃ type a, Leads table path type a) with ⟨type, a, leads⟩ | nowhere
      · obtain ⟨s'', ran'⟩ := configCmd_leads env cmd args config s notSave notLoad leads
        rw [ran] at ran'
        cases ran'
        rcases args with _ | ⟨text, _ | ⟨more, rest⟩⟩
        · rfl
        · exact LeafType.store_eq_of_load (held text type a rfl leads)
        · rfl
      · exact configCmd_leads_nowhere notSave notLoad
          (fun type a leads => nowhere ⟨type, a, leads⟩) ran

/-- The first descriptors of `config.c` and `can_node.c` -/
def canTable : List ConfigValDesc :=
  [.leaf (some (ascii "sn")) 0 0 .uint32 0,
    .struct (some (ascii "can")) 10 4
      [.leaf (some (ascii "node_id")) 1 0 .uint16 configValFlagConsoleHex,
        .leaf (some (ascii "speed")) 2 4 .uint32 0, canOutput]]

/-- A console that takes everything, while nothing is saved or loaded. -/
def recording : Env Str := ⟨recorder, fun _ s => .ok s, fun config s => .ok (config, s)⟩

theorem not_exactPath_nod : ¬ ExactPath canTable (ascii "can.nod") := by
  rintro ⟨text, rest, split, d, mem, named, path⟩
  obtain ⟨rfl, rfl⟩ := List.cons.inj (show [ascii "can", ascii "nod"] = text :: rest from split)
  rcases List.mem_pair.mp mem with rfl | rfl
  · exact absurd named (by decide)
  · cases path with
    | field mem named =>
      have known : ∀ d ∈ fields [.leaf (some (ascii "node_id")) 1 0 .uint16 configValFlagConsoleHex,
          .leaf (some (ascii "speed")) 2 4 .uint32 0, canOutput],
          d.name ≠ some (ascii "nod") := by
        decide
      exact known _ mem named

/-- `can.nod` leads to the identifier of the node, which is not called so. -/
theorem leads_nod : Leads canTable (ascii "can.nod") .uint16 4 :=
  ⟨_, rfl, .field rfl .leaf⟩

theorem configCmd_exact_iff_nod : ¬ ∀ r config' s',
    configCmd recording canTable [ascii "config", ascii "can.nod", ascii "5"] (fun _ => 0, []) =
      .ok (r, config', s') → config' ≠ (fun _ => 0) → ExactPath canTable (ascii "can.nod") := by
  intro only
  rcases (configCmd_exact_iff recording canTable (ascii "config") (ascii "can.nod") [ascii "5"]
    (fun _ => 0) [] (by decide) (by decide)).mp only with path | held
  · exact not_exactPath_nod path
  · exact absurd (held _ _ _ rfl leads_nod) (by decide)

theorem abbreviation_sets : ∃ config' s',
    configCmd recording canTable [ascii "config", ascii "can.nod", ascii "5"] (fun _ => 0, []) =
      .ok (0, config', s') ∧ config' ≠ (fun _ => 0) ∧ ¬ ExactPath canTable (ascii "can.nod") := by
  obtain ⟨s', ran⟩ := configCmd_leads recording (ascii "config") [ascii "5"] (fun _ => 0) []
    (by decide) (by decide) leads_nod
  refine ⟨_, s', ran, ?_, not_exactPath_nod⟩
  intro same
  exact absurd (congrFun same 4) (by decide)

end TheFirmware.ConfigCmd
