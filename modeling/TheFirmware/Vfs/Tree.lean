import TheFirmware.Vfs.GenFs

/-!
# The tree that `gen_fs` builds

What is at a path of the tree is a directory or a function (`FSObject.view`). A definition puts its
function at its path, makes the directories above it that are missing, and leaves all other paths
alone (`view_define`). So the tree of all definitions holds the last function of each path and the
directories above it (`Represents`), whatever order the dicts have.
-/

namespace TheFirmware.GenFs

open Strings Vfs

/-- The induction over a tree. -/
theorem FSObject.descend {P : FSObject → Prop} (executable : ∀ funcName, P (.executable funcName))
    (dir : ∀ name entries, (∀ entry ∈ entries, P entry.2) → P (.dir name entries))
    (obj : FSObject) : P obj :=
  @FSObject.rec P (fun entries => ∀ entry ∈ entries, P entry.2) (fun entry => P entry.2)
    executable dir (List.forall_mem_nil _)
    (fun _ _ first rest => List.forall_mem_cons.mpr ⟨first, rest⟩) (fun _ _ obj => obj) obj

/-- In a dict there is one entry for a name. -/
inductive Sound : FSObject → Prop
  | executable (funcName : Str) : Sound (.executable funcName)
  | dir {name : Str} {entries : List (Str × FSObject)} (keys : (entries.map Prod.fst).Nodup)
      (each : ∀ entry ∈ entries, Sound entry.2) : Sound (.dir name entries)

/-- The object at a path. -/
def FSObject.objectAt : FSObject → List Str → Option FSObject
  | obj, [] => some obj
  | .executable _, _ :: _ => none
  | .dir _ entries, name :: names =>
    (getEntry entries name).bind fun child => child.objectAt names

/-- What an entry for the object at a path points to. -/
def FSObject.view (obj : FSObject) (path : List Str) : Option Pointer :=
  (obj.objectAt path).map FSObject.pointer

theorem objectAt_append (obj : FSObject) (path names : List Str) :
    obj.objectAt (path ++ names) = (obj.objectAt path).bind (·.objectAt names) := by
  induction path generalizing obj with
  | nil => cases obj <;> rfl
  | cons name path ih =>
    cases obj with
    | executable funcName => rfl
    | dir dir entries =>
      rw [List.cons_append, FSObject.objectAt, FSObject.objectAt, Option.bind_assoc]
      exact congrArg _ (funext ih)

@[simp] theorem view_nil (obj : FSObject) : obj.view [] = some obj.pointer := by
  cases obj <;> rfl

theorem view_executable_cons (funcName name : Str) (names : List Str) :
    (FSObject.executable funcName).view (name :: names) = none := rfl

@[simp] theorem view_dir_cons (dir name : Str) (names : List Str)
    (entries : List (Str × FSObject)) :
    (FSObject.dir dir entries).view (name :: names) =
      (getEntry entries name).bind fun child => child.view names := by
  unfold FSObject.view
  rw [FSObject.objectAt]
  cases getEntry entries name <;> rfl

/-! ## Entries -/

section Entries

variable {order : DictOrder} {entries : List (Str × FSObject)} {name name' : Str}
  {obj obj' : FSObject}

theorem getEntry_eq_some_iff (keys : (entries.map Prod.fst).Nodup) :
    getEntry entries name = some obj ↔ (name, obj) ∈ entries := by
  induction entries with
  | nil => simp [getEntry]
  | cons entry entries ih =>
    obtain ⟨first, rest⟩ := List.nodup_cons.mp keys
    rcases Classical.em (entry.1 = name) with here | other
    · have absent : (name, obj) ∉ entries := fun mem =>
        first (here ▸ List.mem_map_of_mem (f := Prod.fst) mem)
      rw [getEntry, List.find?_cons_of_pos (by simpa using here), List.mem_cons]
      simp only [Option.map_some, Option.some.injEq, absent, or_false]
      exact ⟨fun same => by rw [← here, ← same], fun same => by rw [← same]⟩
    · have differs : (name, obj) ≠ entry := fun same => other (congrArg Prod.fst same).symm
      rw [getEntry, List.find?_cons_of_neg (by simpa using other), List.mem_cons]
      simp only [differs, false_or]
      exact ih rest

theorem mem_of_getEntry (found : getEntry entries name = some obj) : (name, obj) ∈ entries := by
  obtain ⟨entry, first, rfl⟩ := Option.map_eq_some_iff.mp found
  have same : entry.1 = name := by simpa using List.find?_some first
  rw [← same]
  exact List.mem_of_find?_eq_some first

theorem mem_addEntry :
    (name', obj') ∈ addEntry order entries name obj ↔
      (name' = name ∧ obj' = obj) ∨ (name' ≠ name ∧ (name', obj') ∈ entries) := by
  rw [addEntry, (order.perm _).mem_iff, List.mem_cons, List.mem_filter]
  simp only [Prod.mk.injEq, ne_eq, decide_not, Bool.not_eq_true', decide_eq_false_iff_not]
  rw [and_comm (a := (name', obj') ∈ entries)]

theorem keys_addEntry (keys : (entries.map Prod.fst).Nodup) :
    ((addEntry order entries name obj).map Prod.fst).Nodup := by
  rw [addEntry, ((order.perm _).map Prod.fst).nodup_iff, List.map_cons, List.nodup_cons]
  constructor
  · intro mem
    obtain ⟨entry, mem, same⟩ := List.mem_map.mp mem
    exact of_decide_eq_true (List.mem_filter.mp mem).2 same
  · exact (List.filter_sublist.map Prod.fst).nodup keys

theorem getEntry_addEntry_self (keys : (entries.map Prod.fst).Nodup) :
    getEntry (addEntry order entries name obj) name = some obj := by
  rw [getEntry_eq_some_iff (keys_addEntry keys), mem_addEntry]
  exact .inl ⟨rfl, rfl⟩

theorem getEntry_addEntry_of_ne (keys : (entries.map Prod.fst).Nodup) (other : name' ≠ name) :
    getEntry (addEntry order entries name obj) name' = getEntry entries name' := by
  ext obj'
  rw [getEntry_eq_some_iff (keys_addEntry keys), mem_addEntry, getEntry_eq_some_iff keys]
  simp [other]

end Entries

/-! ## A definition -/

section Define

variable {order : DictOrder} {func : Str} {before components : List Str} {obj obj' : FSObject}

theorem Sound.child {dir name : Str} {entries : List (Str × FSObject)} {child : FSObject}
    (sound : Sound (.dir dir entries)) (found : getEntry entries name = some child) :
    Sound child := by
  cases sound with
  | dir keys each => exact each _ ((getEntry_eq_some_iff keys).mp found)

theorem sound_empty (name : Str) : Sound (.dir name []) := .dir List.nodup_nil (List.forall_mem_nil _)

theorem Sound.addEntry {dir name : Str} {entries : List (Str × FSObject)}
    (sound : Sound (.dir dir entries)) (object : Sound obj) :
    Sound (.dir dir (addEntry order entries name obj)) := by
  cases sound with
  | dir keys each =>
    refine .dir (keys_addEntry keys) fun entry mem => ?_
    obtain ⟨name', obj'⟩ := entry
    rcases mem_addEntry.mp mem with ⟨-, rfl⟩ | ⟨-, mem⟩
    · exact object
    · exact each _ mem

/-- The directory that a definition goes on with. -/
theorem Sound.childOrNew {dir name new : Str} {entries : List (Str × FSObject)}
    (sound : Sound (.dir dir entries)) :
    Sound ((getEntry entries name).getD (.dir new [])) := by
  cases found : getEntry entries name with
  | none => exact sound_empty new
  | some child => exact sound.child found

theorem Sound.define (sound : Sound obj) (ran : define order func before obj components = some obj') :
    Sound obj' := by
  induction components generalizing before obj obj' with
  | nil =>
    cases obj with
    | executable f => cases ran
    | dir dir entries =>
      cases ran
      exact sound
  | cons name components ih =>
    cases obj with
    | executable f => cases ran
    | dir dir entries =>
      cases components with
      | nil =>
        cases ran
        exact sound.addEntry (.executable func)
      | cons next rest =>
        obtain ⟨child', inner, rfl⟩ := Option.map_eq_some_iff.mp ran
        exact sound.addEntry (ih sound.childOrNew inner)

/-- What a definition does to the tree. -/
theorem view_define (sound : Sound obj)
    (ran : define order func before obj components = some obj') (nonempty : components ≠ [])
    (path : List Str) :
    obj'.view path =
      if path = components then some (.callable func)
      else if path <+: components then
        some ((obj.view path).getD (.table (dirName (before ++ path))))
      else if components <+: path then none
      else obj.view path := by
  induction components generalizing before obj obj' path with
  | nil => exact absurd rfl nonempty
  | cons name components ih =>
    cases obj with
    | executable f => cases ran
    | dir dir entries =>
      have keys : (entries.map Prod.fst).Nodup := by
        cases sound
        assumption
      cases components with
      | nil =>
        cases ran
        cases path with
        | nil => simp [FSObject.pointer]
        | cons name' path =>
          rcases Classical.em (name' = name) with rfl | other
          · rw [view_dir_cons, getEntry_addEntry_self keys]
            cases path with
            | nil => simp [FSObject.pointer]
            | cons name'' path => simp [view_executable_cons]
          · rw [view_dir_cons, getEntry_addEntry_of_ne keys other, view_dir_cons]
            simp [other, Ne.symm other]
      | cons next rest =>
        obtain ⟨child', inner, rfl⟩ := Option.map_eq_some_iff.mp ran
        cases path with
        | nil => simp [FSObject.pointer]
        | cons name' path =>
          rcases Classical.em (name' = name) with rfl | other
          · rw [view_dir_cons, getEntry_addEntry_self keys, Option.bind_some,
              ih sound.childOrNew inner (List.cons_ne_nil _ _) path, view_dir_cons]
            simp only [List.cons.injEq, true_and, List.cons_prefix_cons, List.append_assoc,
              List.singleton_append]
            cases found : getEntry entries name' with
            | some child => rfl
            | none =>
              -- a directory that has just been made has no entries
              cases path with
              | nil => simp [FSObject.pointer]
              | cons name'' path => simp [getEntry]
          · rw [view_dir_cons, getEntry_addEntry_of_ne keys other, view_dir_cons]
            simp [other, Ne.symm other]

/-- A definition goes through if no function is in its way. -/
theorem define_returns (free : ∀ path, path <+: components → path ≠ components →
      ∀ f, obj.view path ≠ some (.callable f)) (nonempty : components ≠ []) :
    ∃ obj', define order func before obj components = some obj' := by
  induction components generalizing before obj with
  | nil => exact absurd rfl nonempty
  | cons name components ih =>
    cases obj with
    | executable f => exact absurd (view_nil _) (free [] List.nil_prefix (Ne.symm nonempty) f)
    | dir dir entries =>
      cases components with
      | nil => exact ⟨_, rfl⟩
      | cons next rest =>
        have inner : ∀ path, path <+: next :: rest → path ≠ next :: rest → ∀ f,
            ((getEntry entries name).getD (.dir (dirName (before ++ [name])) [])).view path ≠
              some (.callable f) := by
          intro path front differs f
          cases found : getEntry entries name with
          | some child =>
            have above := free (name :: path) (List.cons_prefix_cons.mpr ⟨rfl, front⟩)
              (fun same => differs (List.cons.inj same).2) f
            rwa [view_dir_cons, found] at above
          | none =>
            cases path with
            | nil => simp [FSObject.pointer]
            | cons name' path => simp [getEntry]
        obtain ⟨child', ran⟩ := ih inner (List.cons_ne_nil _ _)
        exact ⟨_, Option.map_eq_some_iff.mpr ⟨child', ran, rfl⟩⟩

end Define

/-! ## All definitions -/

/-- The function of the last definition of a path. -/
def lastFunc (defs : List Definition) (path : List Str) : Option Str :=
  (defs.reverse.find? (·.path = path)).map Definition.func

/-- The path is above a definition, or is the root. -/
def IsDir (defs : List Definition) (path : List Str) : Prop :=
  path = [] ∨ ∃ d ∈ defs, path <+: d.path ∧ path ≠ d.path

/-- No path is above another. -/
def PrefixFree (defs : List Definition) : Prop :=
  ∀ d ∈ defs, ∀ d' ∈ defs, d.path <+: d'.path → d.path = d'.path

/-- The tree holds the last function of each path, and the directories above them. -/
structure Represents (defs : List Definition) (root : FSObject) : Prop where
  sound : Sound root
  callable : ∀ path f, root.view path = some (.callable f) ↔ lastFunc defs path = some f
  table : ∀ path name, root.view path = some (.table name) ↔ IsDir defs path ∧ name = dirName path

section All

variable {defs : List Definition} {d : Definition} {path : List Str} {f : Str}

theorem lastFunc_append : lastFunc (defs ++ [d]) path =
    if d.path = path then some d.func else lastFunc defs path := by
  rw [lastFunc, List.reverse_append, List.reverse_singleton, List.singleton_append]
  split
  · rw [List.find?_cons_of_pos (by simpa)]
    rfl
  · rw [List.find?_cons_of_neg (by simpa)]
    rfl

theorem mem_of_lastFunc (last : lastFunc defs path = some f) : ∃ d ∈ defs, d.path = path := by
  obtain ⟨d, found, -⟩ := Option.map_eq_some_iff.mp last
  have same := List.find?_some found
  exact ⟨d, List.mem_reverse.mp (List.mem_of_find?_eq_some found), by simpa using same⟩

theorem isDir_append : IsDir (defs ++ [d]) path ↔
    IsDir defs path ∨ (path <+: d.path ∧ path ≠ d.path) := by
  unfold IsDir
  simp only [List.mem_append, List.mem_singleton, or_assoc]
  refine or_congr_right ⟨?_, ?_⟩
  · intro both
    rcases both with ⟨d', mem | rfl, above⟩
    · exact .inl ⟨d', mem, above⟩
    · exact .inr above
  · intro either
    rcases either with ⟨d', mem, above⟩ | above
    · exact ⟨d', .inl mem, above⟩
    · exact ⟨d, .inr rfl, above⟩

/-- A path that is defined is above no other. -/
theorem PrefixFree.not_above (free : PrefixFree defs) {d : Definition} (mem : d ∈ defs)
    {path : List Str} (front : d.path <+: path) : ¬ IsDir defs path := by
  intro dir
  rcases dir with rfl | ⟨d', mem', above, differs⟩
  · exact d.nonempty (List.prefix_nil.mp front)
  · have same := free d mem d' mem' (front.trans above)
    rw [← same] at above differs
    exact differs (above.eq_of_length_le front.length_le)

theorem represents_empty : Represents [] fsRoot where
  sound := sound_empty _
  callable path f := by
    cases path with
    | nil => simp [fsRoot, FSObject.pointer, lastFunc]
    | cons name path => simp [fsRoot, getEntry, lastFunc]
  table path name := by
    cases path with
    | nil => simp [fsRoot, FSObject.pointer, IsDir, eq_comm]
    | cons name' path => simp [fsRoot, getEntry, IsDir]

/-- One more definition. -/
theorem Represents.define (order : DictOrder) {root : FSObject}
    (represents : Represents defs root) (free : PrefixFree (defs ++ [d])) :
    ∃ root', define order d.func [] root d.path = some root' ∧
      Represents (defs ++ [d]) root' := by
  have new : d ∈ defs ++ [d] := List.mem_append_right _ (List.mem_singleton_self d)
  -- no function is above the path
  have noFunc : ∀ path, path <+: d.path → path ≠ d.path → lastFunc defs path = none := by
    intro path front differs
    cases last : lastFunc defs path with
    | none => rfl
    | some f =>
      obtain ⟨d', mem, rfl⟩ := mem_of_lastFunc last
      exact absurd (free d' (List.mem_append_left _ mem) d new front) differs
  obtain ⟨root', ran⟩ : ∃ root', GenFs.define order d.func [] root d.path = some root' :=
    define_returns (fun path front differs f callable => by
      rw [represents.callable, noFunc path front differs] at callable
      cases callable) d.nonempty
  have view := view_define represents.sound ran d.nonempty
  refine ⟨root', ran, represents.sound.define ran, fun path f => ?_, fun path name => ?_⟩
  · rw [view path, lastFunc_append]
    rcases Classical.em (path = d.path) with rfl | other
    · simp
    · rw [if_neg other, if_neg (Ne.symm other)]
      rcases Classical.em (path <+: d.path) with above | notAbove
      · rw [if_pos above, noFunc path above other]
        cases here : root.view path with
        | none => simp
        | some pointer =>
          have table : pointer ≠ .callable f := fun same => by
            rw [same, represents.callable, noFunc path above other] at here
            cases here
          simp [table]
      · rw [if_neg notAbove]
        rcases Classical.em (d.path <+: path) with below | notBelow
        · rw [if_pos below]
          cases last : lastFunc defs path with
          | none => simp
          | some f' =>
            obtain ⟨d', mem, rfl⟩ := mem_of_lastFunc last
            exact absurd (free d new d' (List.mem_append_left _ mem) below).symm other
        · rw [if_neg notBelow, represents.callable]
  · rw [view path, isDir_append]
    rcases Classical.em (d.path <+: path) with below | notBelow
    · -- neither the path nor one below it is a directory
      have notDir : ¬ IsDir defs path := fun dir =>
        free.not_above new below (isDir_append.mpr (.inl dir))
      rcases Classical.em (path = d.path) with rfl | other
      · simp [notDir]
      · have notAbove : ¬ path <+: d.path := fun above =>
          other (above.eq_of_length_le below.length_le)
        simp [other, notAbove, below, notDir]
    · have other : path ≠ d.path := fun same => notBelow (same ▸ List.prefix_rfl)
      rw [if_neg other]
      rcases Classical.em (path <+: d.path) with above | notAbove
      · have dir : IsDir defs path ∨ path <+: d.path ∧ path ≠ d.path := .inr ⟨above, other⟩
        rw [if_pos above]
        simp only [dir, true_and, List.nil_append, Option.some.injEq]
        cases here : root.view path with
        | none => simp [eq_comm]
        | some pointer =>
          cases pointer with
          | callable f =>
            rw [represents.callable, noFunc path above other] at here
            cases here
          | table name' =>
            have named := ((represents.table path name').mp here).2
            simp [named, eq_comm]
      · rw [if_neg notAbove, if_neg notBelow, represents.table]
        simp [notAbove]

/-- **The tree of all definitions**, whatever order the dicts have. -/
theorem defineAll_represents (order : DictOrder) (free : PrefixFree defs) :
    ∃ root, defineAll order defs = some root ∧ Represents defs root := by
  induction defs using List.reverseRec with
  | nil => exact ⟨fsRoot, rfl, represents_empty⟩
  | append_singleton defs d ih =>
    have before : PrefixFree defs := fun d mem d' mem' =>
      free d (List.mem_append_left _ mem) d' (List.mem_append_left _ mem')
    obtain ⟨root, ran, represents⟩ := ih before
    obtain ⟨root', last, represents'⟩ := represents.define order free
    refine ⟨root', ?_, represents'⟩
    rw [defineAll, List.foldlM_append, ← defineAll, ran]
    simp [last]

end All

end TheFirmware.GenFs
