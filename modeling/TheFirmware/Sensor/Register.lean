import TheFirmware.Sensor.Sensor

/-!
# Registering a sensor whose list entry is garbage

The words that the heap has left in the list entry of a sensor decide what `sensors_register` does.
If one of them is `NULL`, the sensor comes to the end of the list. Otherwise `list_delete` stores
through both of them first, and the list is right afterwards exactly if these two stores change no
word that matters (`registersFromAdc_iff_harmless`).
-/

namespace TheFirmware.Sensor

open ListMemory

/-- The words of a `struct adc_sensor` -/
def object (sensor : UInt32) : List UInt32 :=
  [sensor, prevAt sensor, sensor + 8, sensor + 12, sensor + 16, sensor + 20, sensor + 24]

/-- The words of the list entries of sensors. -/
def links (L : List UInt32) : List UInt32 := L.flatMap fun a => [a, prevAt a]

/-- What `sensors_register` may change. -/
def region (sensors : UInt32) (L : List UInt32) (sensor : UInt32) : List UInt32 :=
  sensors :: (object sensor ++ links L)

/-- The head of the list, the new sensor and the list entries of the registered ones are different
words of the RAM. -/
structure Layout (ram : Ram) (sensors : UInt32) (L : List UInt32) (sensor : UInt32) : Prop where
  nodup : (region sensors L sensor).Nodup
  isWord : ∀ a ∈ region sensors L sensor, ram.isWord a = true

/-- The words that may have any value when `list_delete` is done: `list_append` writes those of the
new sensor, and the link from the last entry, and no one goes through the links back, but for the
one from the first entry. -/
def spare (L : List UInt32) (sensor : UInt32) : List UInt32 :=
  object sensor ++ L.getLast?.toList ++ L.tail.map prevAt

/-- A store of the value there does no harm. -/
def Harmless (words : Words) (L : List UInt32) (sensor a value : UInt32) : Prop :=
  a ∈ spare L sensor ∨ words a = value

/-- What the words `next` and `prev` of the new sensor may be: one is `NULL`, or the stores
`prev->next = next` and `next->prev = prev` do no harm, or the head and the new sensor are each
stored into the other while the list is empty. -/
def HarmlessEntry (ram : Ram) (words : Words) (sensors : UInt32) (L : List UInt32) (sensor : UInt32) :
    Prop :=
  let next := words sensor
  let prev := words (prevAt sensor)
  next = 0 ∨ prev = 0 ∨
  (ram.isWord prev = true ∧ ram.isWord (prevAt next) = true ∧
    (prev = prevAt next ∨ Harmless words L sensor prev next) ∧
    Harmless words L sensor (prevAt next) (if prev = prevAt sensor then next else prev)) ∨
  (L = [] ∧ prev = sensors ∧ next = sensor)

theorem mem_links {a : UInt32} {L : List UInt32} (mem : a ∈ L) : a ∈ links L :=
  List.mem_flatMap.mpr ⟨a, mem, List.mem_cons_self⟩

theorem prevAt_mem_links {a : UInt32} {L : List UInt32} (mem : a ∈ L) : prevAt a ∈ links L :=
  List.mem_flatMap.mpr ⟨a, mem, List.mem_cons_of_mem _ List.mem_cons_self⟩

theorem sensor_mem (sensor : UInt32) : sensor ∈ object sensor := List.mem_cons_self

theorem prevAt_mem (sensor : UInt32) : prevAt sensor ∈ object sensor :=
  List.mem_cons_of_mem _ List.mem_cons_self

namespace Layout

variable {ram : Ram} {sensors sensor a b : UInt32} {L : List UInt32}
  (layout : Layout ram sensors L sensor)
include layout

theorem word_sensors : ram.isWord sensors = true := layout.isWord _ List.mem_cons_self

theorem word_object (mem : a ∈ object sensor) : ram.isWord a = true :=
  layout.isWord _ (List.mem_cons_of_mem _ (List.mem_append_left _ mem))

theorem word_sensor : ram.isWord sensor = true := layout.word_object (sensor_mem sensor)

theorem word_prevAt : ram.isWord (prevAt sensor) = true :=
  layout.word_object (prevAt_mem sensor)

theorem word_links (mem : a ∈ links L) : ram.isWord a = true :=
  layout.isWord _ (List.mem_cons_of_mem _ (List.mem_append_right _ mem))

theorem sensors_ne_object (mem : a ∈ object sensor) : a ≠ sensors := by
  intro same
  exact (List.nodup_cons.mp layout.nodup).1 (same ▸ List.mem_append_left _ mem)

theorem sensors_ne_links (mem : a ∈ links L) : a ≠ sensors := by
  intro same
  exact (List.nodup_cons.mp layout.nodup).1 (same ▸ List.mem_append_right _ mem)

theorem object_ne_links (mem : a ∈ object sensor) (mem' : b ∈ links L) : a ≠ b :=
  (List.nodup_append.mp (List.nodup_cons.mp layout.nodup).2).2.2 a mem b mem'

theorem ne_prevAt (mem : a ∈ L) (mem' : b ∈ L) : a ≠ prevAt b := by
  have nodup := (List.nodup_append.mp (List.nodup_cons.mp layout.nodup).2).2.1
  obtain ⟨-, pairs⟩ := List.nodup_flatMap.mp nodup
  have symmetric : Std.Symm (Function.onFun List.Disjoint fun a : UInt32 => [a, prevAt a]) :=
    ⟨fun _ _ apart => apart.symm⟩
  intro same
  rcases Classical.em (a = b) with rfl | other
  · exact prevAt_ne a same.symm
  · exact pairs.forall mem mem' other List.mem_cons_self (same ▸ by simp)

end Layout

/-! ## The end of `list_append` -/

section Append

variable {ram : Ram} {words words' : Words} {sensors sensor head : UInt32} {L : List UInt32}

/-- What the words are after `list_insert_before` at the head `f` of a list with the last entry
`z`. -/
structure Linked (words words' : Words) (sensors : UInt32) (L : List UInt32) (sensor f z : UInt32) :
    Prop where
  head : words' sensors = words sensors
  new : words' sensor = f
  last : words' z = sensor
  other : ∀ a ∈ L, a ≠ z → words' a = words a
  frame : ∀ a, a ∉ region sensors L sensor → words' a = words a

theorem link_values {f z : UInt32} (layout : Layout ram sensors L sensor) (memF : f ∈ L)
    (memZ : z ∈ L) (last : words (prevAt f) = z) :
    Linked words (link words f sensor) sensors L sensor f z := by
  have neSensor : ∀ a ∈ links L, a ≠ sensor ∧ a ≠ prevAt sensor := fun a mem =>
    ⟨(layout.object_ne_links (sensor_mem sensor) mem).symm,
      (layout.object_ne_links (prevAt_mem sensor) mem).symm⟩
  constructor
  case head =>
    have one := (layout.sensors_ne_object (sensor_mem sensor)).symm
    have two := (layout.sensors_ne_object (prevAt_mem sensor)).symm
    have three := (layout.sensors_ne_links (prevAt_mem_links memF)).symm
    have four := (layout.sensors_ne_links (mem_links memZ)).symm
    simp [link_apply, last, one, two, three, four]
  case new => simp [link_apply]
  case last =>
    obtain ⟨one, -⟩ := neSensor z (mem_links memZ)
    simp [link_apply, last, one]
  case other =>
    intro a mem notLast
    obtain ⟨one, two⟩ := neSensor a (mem_links mem)
    have three := layout.ne_prevAt mem memF
    simp [link_apply, last, one, two, three, notLast]
  case frame =>
    intro a outside
    simp only [region, object, List.mem_cons, List.mem_append, not_or] at outside
    obtain ⟨-, ⟨one, two, -⟩, noLinks⟩ := outside
    have three : a ≠ prevAt f := fun same => noLinks (same ▸ prevAt_mem_links memF)
    have four : a ≠ z := fun same => noLinks (same ▸ mem_links memZ)
    simp [link_apply, last, one, two, three, four]

/-- `list_append` to a list that is right, up to the link from its last entry. -/
theorem append_visits (layout : Layout ram sensors L sensor) (nodup : L.Nodup)
    (queue : Queue words sensors L) :
    ∃ words', listAppendEnd ram words sensors sensor = .ok words' ∧
      Visits ram words' sensors (L ++ [sensor]) ∧
      ∀ a, a ∉ region sensors L sensor → words' a = words a := by
  have wordSensor := layout.word_sensor
  have wordList := layout.word_sensors
  have apart := layout.sensors_ne_object (sensor_mem sensor)
  cases L with
  | nil =>
    refine ⟨_, listAppendEnd_of_empty wordSensor layout.word_prevAt wordList queue.head, ?_, ?_⟩
    · refine path_of_chain wordList (List.forall_mem_singleton.mpr wordSensor)
        List.not_mem_nil ?_ ?_
      · simp [close_apply, apart]
      · simp [close_apply]
    · intro a outside
      simp only [region, object, List.mem_cons, List.mem_append, not_or] at outside
      simp [close_apply, outside]
  | cons f T =>
    obtain ⟨S, z, split⟩ : ∃ S z, f :: T = S ++ [z] :=
      ⟨_, _, (List.dropLast_append_getLast (List.cons_ne_nil f T)).symm⟩
    have memF : f ∈ f :: T := List.mem_cons_self
    have memZ : z ∈ f :: T := split ▸ List.mem_append_right S (List.mem_singleton_self z)
    have last : words (prevAt f) = z := by
      have last := queue.last f rfl
      rw [split, List.getLast?_concat] at last
      exact (Option.some.inj last).symm
    have first : words sensors = f := queue.head
    have notNull : words sensors ≠ 0 := first ▸ Ram.ne_zero_of_isWord
      (layout.word_links (mem_links memF))
    have ran : listAppendEnd ram words sensors sensor = .ok (link words f sensor) := by
      rw [listAppendEnd_of_head wordList notNull, first,
        listInsertBefore_eq_ok_iff wordSensor layout.word_prevAt, last]
      exact ⟨layout.word_links (prevAt_mem_links memF), layout.word_links (mem_links memZ), rfl⟩
    have values := link_values layout memF memZ last
    refine ⟨_, ran, ?_, ?_⟩
    · have head : link words f sensor sensors = f := by rw [values.head, first]
      have notMem : f ∉ T ++ [sensor] := by
        have fresh := (List.nodup_cons.mp nodup).1
        have other := layout.object_ne_links (sensor_mem sensor) (mem_links memF)
        simp [fresh, other.symm]
      refine path_of_chain wordList ?_ ?_ ?_ head
      · intro a mem
        rcases List.mem_append.mp mem with mem | mem
        · exact layout.word_links (mem_links mem)
        · exact List.mem_singleton.mp mem ▸ wordSensor
      · rwa [head, List.cons_append, List.tail_cons]
      · have before : (f :: T).IsChain fun a b => link words f sensor a = b := by
          refine isChain_congr (fun a mem => values.other a (List.mem_of_mem_dropLast mem) ?_)
            queue.chain
          rintro rfl
          rw [split, List.dropLast_concat] at mem
          rw [split] at nodup
          exact (List.nodup_append.mp nodup).2.2 a mem a (List.mem_singleton_self a) rfl
        rw [split] at before
        rw [head, split, List.append_assoc, List.append_assoc, List.singleton_append,
          List.singleton_append, List.isChain_append_cons_cons]
        exact ⟨before, values.last, List.isChain_pair.mpr values.new⟩
    · intro a outside
      exact values.frame a outside

/-- If the head is neither right nor `NULL` nor the new sensor, the list is not right afterwards. -/
theorem not_visits_of_head (layout : Layout ram sensors L sensor) (notNull : words sensors ≠ 0)
    (notSensor : words sensors ≠ sensor) (wrong : words sensors ≠ L.headD 0)
    (ran : listAppendEnd ram words sensors sensor = .ok words') :
    ¬ Visits ram words' sensors (L ++ [sensor]) := by
  intro visits
  rw [listAppendEnd_of_head layout.word_sensors notNull,
    listInsertBefore_eq_ok_iff layout.word_sensor layout.word_prevAt] at ran
  obtain ⟨-, -, rfl⟩ := ran
  have new : link words (words sensors) sensor sensor = words sensors := by simp [link_apply]
  have one := (layout.sensors_ne_object (sensor_mem sensor)).symm
  have two := (layout.sensors_ne_object (prevAt_mem sensor)).symm
  have head : link words (words sensors) sensor sensors = sensor ∨
      link words (words sensors) sensor sensors = words sensors := by
    rw [link_apply, if_neg one, if_neg two]
    split
    · exact .inl rfl
    · split
      · exact .inl rfl
      · exact .inr rfl
  cases L with
  | nil =>
    have same : link words (words sensors) sensor sensors = sensor := visits.1
    rcases Path.ends visits with ends | ends
    · exact notSensor (new.symm.trans (ends.trans same))
    · exact notNull (new.symm.trans ends)
  | cons f T =>
    have same : link words (words sensors) sensor sensors = f := visits.1
    rcases head with head | head
    · exact layout.object_ne_links (sensor_mem sensor) (mem_links List.mem_cons_self)
        (head.symm.trans same)
    · exact wrong (head.symm.trans same)

/-- If the list is right after `list_append`, it was right before up to the links from the last
entry and back from the first one, and one of these is as it has to be. -/
theorem of_append_visits {f z : UInt32} (layout : Layout ram sensors L sensor) (memF : f ∈ L)
    (ends : L = L.dropLast ++ [z]) (head : words sensors = f)
    (ran : listAppendEnd ram words sensors sensor = .ok words')
    (visits : Visits ram words' sensors (L ++ [sensor])) :
    (L.IsChain fun a b => words a = b) ∧ (words (prevAt f) = z ∨ words z = sensor) ∧
      (words (prevAt f) = z → ∀ a, a ∉ region sensors L sensor → words' a = words a) := by
  have notNull : words sensors ≠ 0 :=
    head ▸ Ram.ne_zero_of_isWord (layout.word_links (mem_links memF))
  have memZ : z ∈ L := by
    rw [ends]
    exact List.mem_append_right _ (List.mem_singleton_self z)
  rw [listAppendEnd_of_head layout.word_sensors notNull, head,
    listInsertBefore_eq_ok_iff layout.word_sensor layout.word_prevAt] at ran
  obtain ⟨-, -, rfl⟩ := ran
  have value : ∀ a ∈ L, link words f sensor a =
      if a = words (prevAt f) then sensor else words a := by
    intro a mem
    have one := (layout.object_ne_links (sensor_mem sensor) (mem_links mem)).symm
    have two := (layout.object_ne_links (prevAt_mem sensor) (mem_links mem)).symm
    have three := layout.ne_prevAt mem memF
    simp [link_apply, one, two, three]
  have chain := Path.chain visits
  have inner := chain.left_of_append
  have last : link words f sensor z = sensor := by
    rw [ends, List.append_assoc, List.singleton_append, List.isChain_append_cons_cons] at chain
    exact chain.2.1
  rw [value z memZ] at last
  refine ⟨isChain_congr (fun a mem => ?_) inner, ?_, fun back a outside => ?_⟩
  · -- the next entry is not the new sensor
    have next := exists_next inner mem
    rw [value a (List.mem_of_mem_dropLast mem)] at next ⊢
    split at next
    · exact absurd rfl (layout.object_ne_links (sensor_mem sensor)
        (mem_links (List.mem_of_mem_tail next)))
    · rename_i other
      rw [if_neg other]
  · split at last
    · rename_i same
      exact .inl same.symm
    · exact .inr last
  · exact (link_values layout memF memZ back).frame a outside

end Append

/-! ## The two stores of `list_delete` -/

section Unlink

variable {ram : Ram} {words words' : Words} {sensors sensor : UInt32} {L : List UInt32}

/-- The stores change no word that matters. -/
theorem unlink_spares_iff : (∀ a, a ∉ spare L sensor → unlink words sensor a = words a) ↔
    (words (prevAt sensor) = prevAt (words sensor) ∨
      Harmless words L sensor (words (prevAt sensor)) (words sensor)) ∧
    Harmless words L sensor (prevAt (words sensor))
      (if words (prevAt sensor) = prevAt sensor then words sensor else words (prevAt sensor)) := by
  constructor
  · intro same
    refine ⟨?_, ?_⟩
    · by_contra neither
      obtain ⟨differ, matters⟩ := not_or.mp neither
      obtain ⟨notSpare, changes⟩ := not_or.mp matters
      have value := same _ notSpare
      rw [unlink_apply, if_neg differ, if_pos rfl] at value
      exact changes value.symm
    · by_contra matters
      obtain ⟨notSpare, changes⟩ := not_or.mp matters
      have value := same _ notSpare
      rw [unlink_apply, if_pos rfl] at value
      exact changes value.symm
  · intro harmless a notSpare
    obtain ⟨first, second⟩ := harmless
    rw [unlink_apply]
    rcases Classical.em (a = prevAt (words sensor)) with rfl | notSecond
    · rw [if_pos rfl]
      exact (second.resolve_left notSpare).symm
    · rw [if_neg notSecond]
      rcases Classical.em (a = words (prevAt sensor)) with rfl | notFirst
      · rw [if_pos rfl]
        exact ((first.resolve_left notSecond).resolve_left notSpare).symm
      · rw [if_neg notFirst]

theorem mem_spare_iff {a : UInt32} : a ∈ spare L sensor ↔
    a ∈ object sensor ∨ L.getLast? = some a ∨ ∃ b ∈ L.tail, prevAt b = a := by
  rw [spare, List.mem_append, List.mem_append, Option.mem_toList, List.mem_map, or_assoc]

theorem spare_subset {a : UInt32} (mem : a ∈ spare L sensor) : a ∈ region sensors L sensor := by
  refine List.mem_cons_of_mem _ (List.mem_append.mpr ?_)
  rcases mem_spare_iff.mp mem with memObject | last | ⟨b, memTail, rfl⟩
  · exact .inl memObject
  · exact .inr (mem_links (List.mem_of_getLast? last))
  · exact .inr (prevAt_mem_links (List.mem_of_mem_tail memTail))

namespace Layout

variable (layout : Layout ram sensors L sensor)
include layout

theorem sensors_not_spare : sensors ∉ spare L sensor := by
  intro mem
  rcases mem_spare_iff.mp mem with memObject | last | ⟨b, memTail, same⟩
  · exact layout.sensors_ne_object memObject rfl
  · exact layout.sensors_ne_links (mem_links (List.mem_of_getLast? last)) rfl
  · exact layout.sensors_ne_links (prevAt_mem_links (List.mem_of_mem_tail memTail)) same

theorem entry_not_spare (nodup : L.Nodup) {a : UInt32} (mem : a ∈ L.dropLast) :
    a ∉ spare L sensor := by
  have memL := List.mem_of_mem_dropLast mem
  intro memSpare
  rcases mem_spare_iff.mp memSpare with memObject | last | ⟨b, memB, same⟩
  · exact layout.object_ne_links memObject (mem_links memL) rfl
  · obtain ⟨S, rfl⟩ := List.getLast?_eq_some_iff.mp last
    rw [List.dropLast_concat] at mem
    exact (List.nodup_append.mp nodup).2.2 a mem a (List.mem_singleton_self a) rfl
  · exact layout.ne_prevAt memL (List.mem_of_mem_tail memB) same.symm

theorem head_not_spare {f : UInt32} {T : List UInt32} (split : L = f :: T) (nodup : L.Nodup) :
    prevAt f ∉ spare L sensor := by
  subst split
  have memF : f ∈ f :: T := List.mem_cons_self
  intro memSpare
  rcases mem_spare_iff.mp memSpare with memObject | last | ⟨b, memB, same⟩
  · exact layout.object_ne_links memObject (prevAt_mem_links memF) rfl
  · exact layout.ne_prevAt (List.mem_of_getLast? last) memF rfl
  · rw [prevAt_inj] at same
    exact (List.nodup_cons.mp nodup).1 (same ▸ memB)

end Layout

/-- The list is still right if no word that matters has changed. -/
theorem Queue.congr (layout : Layout ram sensors L sensor) (nodup : L.Nodup)
    (queue : Queue words sensors L) (same : ∀ a, a ∉ spare L sensor → words' a = words a) :
    Queue words' sensors L where
  head := (same _ layout.sensors_not_spare).trans queue.head
  chain := isChain_congr (fun a mem => same a (layout.entry_not_spare nodup mem)) queue.chain
  last := by
    intro f head
    obtain ⟨T, split⟩ := List.head?_eq_some_iff.mp head
    rw [same _ (layout.head_not_spare split nodup)]
    exact queue.last f head

end Unlink

/-! ## `list_append` -/

section Register

variable {ram : Ram} {words words' : Words} {sensors sensor : UInt32} {L : List UInt32}

/-- The list holds the sensors in the end, and nothing else has changed. -/
def Registered (ram : Ram) (words : Words) (sensors : UInt32) (L : List UInt32) (sensor : UInt32)
    (words' : Words) : Prop :=
  Visits ram words' sensors (L ++ [sensor]) ∧
    ∀ a, a ∉ region sensors L sensor → words' a = words a

theorem head_ne_sensor (layout : Layout ram sensors L sensor) (queue : Queue words sensors L) :
    words sensors ≠ sensor := by
  rw [queue.head]
  cases L with
  | nil => exact (Ram.ne_zero_of_isWord layout.word_sensor).symm
  | cons f T => exact (layout.object_ne_links (sensor_mem sensor) (mem_links List.mem_cons_self)).symm

/-- `list_append` goes on with a list that is right. -/
theorem registered_of_deleted {deleted : Words} (layout : Layout ram sensors L sensor)
    (nodup : L.Nodup) (queue : Queue deleted sensors L)
    (frame : ∀ a, a ∉ region sensors L sensor → deleted a = words a)
    (ran : ListMemory.listDelete ram words sensors sensor = .ok deleted) :
    ∃ words', ListMemory.listAppend ram words sensors sensor = .ok words' ∧
      Registered ram words sensors L sensor words' := by
  obtain ⟨words', appended, visits, outside⟩ := append_visits layout nodup queue
  refine ⟨words', ?_, visits, fun a notMem => (outside a notMem).trans (frame a notMem)⟩
  rw [ListMemory.listAppend, ran, Except.ok_bind, appended]

/-- A new sensor whose links are the head and itself is taken for the head of the empty list. -/
theorem self_deleted (layout : Layout ram sensors [] sensor) (next : words sensor = sensor)
    (prev : words (prevAt sensor) = sensors) :
    Queue (clear (rehead (unlink words sensor) sensors sensor) sensor) sensors [] ∧
      ∀ a, a ∉ region sensors [] sensor →
        clear (rehead (unlink words sensor) sensors sensor) sensor a = words a := by
  have one := layout.sensors_ne_object (sensor_mem sensor)
  have two := layout.sensors_ne_object (prevAt_mem sensor)
  have head : unlink words sensor sensors = sensor := by
    simp [unlink_apply, next, prev, two.symm]
  have own : unlink words sensor sensor = sensor := by
    simp [unlink_apply, next, prev, one, (prevAt_ne sensor).symm]
  refine ⟨⟨?_, .nil, fun a mem => by cases mem⟩, fun a outside => ?_⟩
  · simp [clear_apply, rehead, head, own, one.symm, two.symm]
  · simp only [region, object, List.mem_cons, List.mem_append, not_or] at outside
    obtain ⟨notHead, ⟨notSensor, notPrev, -⟩, -⟩ := outside
    simp [clear_apply, rehead, head, own, unlink_apply, next, prev, notHead, notSensor, notPrev]

/-- `list_append`, if the list entry is harmless. -/
theorem listAppend_of_harmless (layout : Layout ram sensors L sensor)
    (rep : Represents (listAt words sensors) L)
    (harmless : HarmlessEntry ram words sensors L sensor) :
    ∃ words', ListMemory.listAppend ram words sensors sensor = .ok words' ∧
      Registered ram words sensors L sensor words' := by
  have queue := queue_of_represents rep
  have nodup := rep.ring.nodup
  have wordSensor := layout.word_sensor
  have wordPrev := layout.word_prevAt
  have wordList := layout.word_sensors
  rcases Classical.em (words sensor = 0 ∨ words (prevAt sensor) = 0) with null | linked
  · exact registered_of_deleted layout nodup queue (fun _ _ => rfl)
      (listDelete_of_null wordSensor wordPrev null)
  · rcases harmless with null | null | ⟨word, word', stores⟩ | ⟨rfl, prev, next⟩
    · exact absurd (.inl null) linked
    · exact absurd (.inr null) linked
    · have same := unlink_spares_iff.mpr stores
      have head : unlink words sensor sensors ≠ sensor := by
        rw [same _ layout.sensors_not_spare]
        exact head_ne_sensor layout queue
      have kept : ∀ a, a ∉ spare L sensor → clear (unlink words sensor) sensor a = words a := by
        intro a notSpare
        have notSensor : a ≠ sensor := fun same =>
          notSpare (mem_spare_iff.mpr (.inl (same ▸ sensor_mem sensor)))
        have notPrev : a ≠ prevAt sensor := fun same =>
          notSpare (mem_spare_iff.mpr (.inl (same ▸ prevAt_mem sensor)))
        rw [clear_apply, if_neg notSensor, if_neg notPrev, same a notSpare]
      refine registered_of_deleted layout nodup (Queue.congr layout nodup queue kept)
        (fun a outside => kept a fun mem => outside (spare_subset mem)) ?_
      rw [listDelete_eq_ok_iff wordSensor wordPrev wordList linked, rehead_of_ne head]
      exact ⟨word, word', rfl⟩
    · obtain ⟨queue', frame⟩ := self_deleted layout next prev
      refine registered_of_deleted layout nodup queue' frame ?_
      rw [listDelete_eq_ok_iff wordSensor wordPrev wordList linked, prev, next]
      exact ⟨wordList, wordPrev, rfl⟩

/-- The link from the last entry to the head cannot have been stored together with a wrong link
back from the head. -/
theorem back_of_unlink {f z : UInt32} (layout : Layout ram sensors L sensor) (memF : f ∈ L)
    (memZ : z ∈ L) (ring : words z = f) (back : words (prevAt f) = z)
    (either : unlink words sensor (prevAt f) = z ∨ unlink words sensor z = sensor) :
    unlink words sensor (prevAt f) = z := by
  refine either.elim id fun stored => ?_
  have neF := layout.object_ne_links (sensor_mem sensor) (mem_links memF)
  have neBack := layout.object_ne_links (sensor_mem sensor) (prevAt_mem_links memF)
  have neBackPrev := layout.object_ne_links (prevAt_mem sensor) (prevAt_mem_links memF)
  have apart := layout.ne_prevAt memZ memF
  rw [unlink_apply] at stored
  rw [unlink_apply]
  split at stored
  · -- the second store was to the last entry
    rename_i second
    have notSecond : prevAt f ≠ prevAt (words sensor) := fun same => apart (second.trans same.symm)
    rw [if_neg notSecond, if_neg, back]
    intro first
    rw [if_neg (fun same => neBackPrev (same.symm.trans first.symm)), ← first] at stored
    exact neBack stored.symm
  · split at stored
    · rename_i first
      have notSecond : prevAt f ≠ prevAt (words sensor) := fun same =>
        neF (stored.symm.trans (prevAt_inj.mp same).symm)
      have notFirst : prevAt f ≠ words (prevAt sensor) := fun same => apart (first.trans same.symm)
      rw [if_neg notSecond, if_neg notFirst, back]
    · exact absurd (ring.symm.trans stored) neF.symm

/-- If the list is right in the end and its head did not change, no word that matters did. -/
theorem unlink_spares (layout : Layout ram sensors L sensor)
    (rep : Represents (listAt words sensors) L)
    (head : unlink words sensor sensors = words sensors)
    (ran : listAppendEnd ram (clear (unlink words sensor) sensor) sensors sensor = .ok words')
    (registered : Registered ram words sensors L sensor words') (a : UInt32)
    (notSpare : a ∉ spare L sensor) : unlink words sensor a = words a := by
  obtain ⟨visits, frame⟩ := registered
  have queue := queue_of_represents rep
  have notSensor : a ≠ sensor := fun same =>
    notSpare (mem_spare_iff.mpr (.inl (same ▸ sensor_mem sensor)))
  have notPrev : a ≠ prevAt sensor := fun same =>
    notSpare (mem_spare_iff.mpr (.inl (same ▸ prevAt_mem sensor)))
  have cleared : ∀ b ∉ object sensor, clear (unlink words sensor) sensor b =
      unlink words sensor b := by
    intro b notMem
    have one : b ≠ sensor := fun same => notMem (same ▸ sensor_mem sensor)
    have two : b ≠ prevAt sensor := fun same => notMem (same ▸ prevAt_mem sensor)
    rw [clear_apply, if_neg one, if_neg two]
  have notObject : a ∉ object sensor := fun mem => notSpare (mem_spare_iff.mpr (.inl mem))
  cases L with
  | nil =>
    rcases Classical.em (a = sensors) with rfl | notHead
    · exact head
    · have outside : a ∉ region sensors [] sensor := by
        simp [region, links, notHead, notObject]
      have empty : clear (unlink words sensor) sensor sensors = 0 := by
        rw [cleared _ fun mem => layout.sensors_ne_object mem rfl, head, queue.head]
        rfl
      rw [listAppendEnd_of_empty layout.word_sensor layout.word_prevAt layout.word_sensors
        empty] at ran
      cases ran
      have same := frame a outside
      rwa [close_apply, if_neg notHead, if_neg notSensor, if_neg notPrev, cleared a notObject]
        at same
  | cons f T =>
    obtain ⟨z, ends⟩ : ∃ z, f :: T = (f :: T).dropLast ++ [z] :=
      ⟨_, (List.dropLast_append_getLast (List.cons_ne_nil f T)).symm⟩
    have memF : f ∈ f :: T := List.mem_cons_self
    have memZ : z ∈ f :: T := by
      rw [ends]
      exact List.mem_append_right _ (List.mem_singleton_self z)
    have lastZ : (f :: T).getLast? = some z := by rw [ends, List.getLast?_concat]
    have back : words (prevAt f) = z := Option.some.inj ((queue.last f rfl).symm.trans lastZ)
    have notObjectLinks : ∀ b ∈ links (f :: T), b ∉ object sensor := fun b mem memObject =>
      layout.object_ne_links memObject mem rfl
    have start : clear (unlink words sensor) sensor sensors = f := by
      rw [cleared _ fun mem => layout.sensors_ne_object mem rfl, head]
      exact queue.head
    obtain ⟨chain, either, outside⟩ := of_append_visits layout memF ends start ran visits
    rw [cleared _ (notObjectLinks _ (prevAt_mem_links memF))] at either outside
    rw [cleared _ (notObjectLinks _ (mem_links memZ))] at either
    have kept := back_of_unlink layout memF memZ (last_of_represents rep ends rfl) back either
    rcases Classical.em (a ∈ region sensors (f :: T) sensor) with inside | notMem
    · rcases List.mem_cons.mp inside with rfl | inside
      · exact head
      · have inLinks := (List.mem_append.mp inside).resolve_left notObject
        obtain ⟨b, memB, here⟩ := List.mem_flatMap.mp inLinks
        rcases List.mem_cons.mp here with rfl | here
        · have notLast : a ∈ (f :: T).dropLast := by
            rw [ends] at memB
            refine (List.mem_append.mp memB).resolve_right fun last => ?_
            exact notSpare (mem_spare_iff.mpr (.inr (.inl (List.mem_singleton.mp last ▸ lastZ))))
          rw [← cleared a notObject]
          exact eq_of_chains chain queue.chain notLast
        · obtain rfl := List.mem_singleton.mp here
          rcases List.mem_cons.mp memB with rfl | memT
          · exact kept.trans back.symm
          · have memSpare : prevAt b ∈ spare (f :: T) sensor :=
              mem_spare_iff.mpr (.inr (.inr ⟨b, memT, rfl⟩))
            exact absurd memSpare notSpare
    · rw [← cleared a notObject, ← outside kept a notMem]
      exact frame a notMem

/-- If the head changes and the list is right in the end, it is the empty one and its head and the
new sensor have been stored into each other. -/
theorem self_of_head (layout : Layout ram sensors L sensor) (queue : Queue words sensors L)
    (linked : ¬ (words sensor = 0 ∨ words (prevAt sensor) = 0))
    (head : unlink words sensor sensors ≠ words sensors)
    (ran : listAppendEnd ram (clear (rehead (unlink words sensor) sensors sensor) sensor) sensors
      sensor = .ok words')
    (visits : Visits ram words' sensors (L ++ [sensor])) :
    L = [] ∧ words (prevAt sensor) = sensors ∧ words sensor = sensor := by
  obtain ⟨nextNotNull, prevNotNull⟩ := not_or.mp linked
  have one := layout.sensors_ne_object (sensor_mem sensor)
  have two := layout.sensors_ne_object (prevAt_mem sensor)
  have kept : ∀ deleted : Words, clear deleted sensor sensors = deleted sensors := by
    intro deleted
    rw [clear_apply, if_neg one.symm, if_neg two.symm]
  rcases Classical.em (unlink words sensor sensors = sensor) with taken | other
  · rcases Classical.em (sensors = prevAt (words sensor)) with second | notSecond
    · exfalso
      have notSelf : words sensor ≠ sensor := fun same => two.symm (same ▸ second)
      have prev : words (prevAt sensor) = sensor := by
        rw [unlink_apply, if_pos second] at taken
        split at taken
        · exact absurd taken notSelf
        · exact taken
      have own : unlink words sensor sensor = words sensor := by
        rw [unlink_apply, if_neg fun same => one (same.trans second.symm), if_pos prev.symm]
      have newHead : clear (rehead (unlink words sensor) sensors sensor) sensor sensors =
          words sensor := by
        rw [kept, rehead, if_pos taken, Function.update_self, own, taken, if_neg notSelf]
      refine not_visits_of_head layout ?_ ?_ ?_ ran visits
      · rwa [newHead]
      · rwa [newHead]
      · rw [newHead]
        cases L with
        | nil => exact nextNotNull
        | cons f T =>
          intro same
          rw [same] at second
          exact layout.sensors_ne_links (prevAt_mem_links List.mem_cons_self) second.symm
    · have stored : sensors = words (prevAt sensor) ∧ words sensor = sensor := by
        rw [unlink_apply, if_neg notSecond] at taken
        split at taken
        · rename_i first
          exact ⟨first, taken⟩
        · exact absurd taken (head_ne_sensor layout queue)
      obtain ⟨prev, next⟩ := stored
      have own : unlink words sensor sensor = sensor := by
        rw [unlink_apply, next, if_neg (prevAt_ne sensor).symm, if_neg (prev ▸ one)]
      have empty : clear (rehead (unlink words sensor) sensors sensor) sensor sensors = 0 := by
        rw [kept, rehead, if_pos taken, Function.update_self, own, taken, if_pos rfl]
      rw [listAppendEnd_of_empty layout.word_sensor layout.word_prevAt layout.word_sensors
        empty] at ran
      cases ran
      refine ⟨?_, prev.symm, next⟩
      cases L with
      | nil => rfl
      | cons f T =>
        have first : close (clear (rehead (unlink words sensor) sensors sensor) sensor) sensors
            sensor sensors = f := visits.1
        rw [close_apply, if_pos rfl] at first
        exact absurd first (layout.object_ne_links (sensor_mem sensor)
          (mem_links List.mem_cons_self))
  · exfalso
    rw [rehead_of_ne other] at ran
    refine not_visits_of_head layout ?_ ?_ ?_ ran visits
    · rw [kept, unlink_apply]
      split
      · split
        · exact nextNotNull
        · exact prevNotNull
      · rename_i notSecond
        split
        · exact nextNotNull
        · rename_i notFirst
          refine absurd ?_ head
          rw [unlink_apply, if_neg notSecond, if_neg notFirst]
    · rwa [kept]
    · rw [kept, ← queue.head]
      exact head

/-- `list_append`, if the list is right in the end. -/
theorem harmless_of_registered (layout : Layout ram sensors L sensor)
    (rep : Represents (listAt words sensors) L)
    (ran : ListMemory.listAppend ram words sensors sensor = .ok words')
    (registered : Registered ram words sensors L sensor words') :
    HarmlessEntry ram words sensors L sensor := by
  rcases Classical.em (words sensor = 0 ∨ words (prevAt sensor) = 0) with null | linked
  · exact null.elim .inl fun null => .inr (.inl null)
  · obtain ⟨deleted, deletes, appended⟩ := Except.bind_eq_ok.mp ran
    rw [listDelete_eq_ok_iff layout.word_sensor layout.word_prevAt layout.word_sensors linked]
      at deletes
    obtain ⟨word, word', rfl⟩ := deletes
    have queue := queue_of_represents rep
    rcases Classical.em (unlink words sensor sensors = words sensors) with head | head
    · have other : unlink words sensor sensors ≠ sensor := by
        rw [head]
        exact head_ne_sensor layout queue
      rw [rehead_of_ne other] at appended
      have same := unlink_spares layout rep head appended registered
      exact .inr (.inr (.inl ⟨word, word', unlink_spares_iff.mp same⟩))
    · exact .inr (.inr (.inr (self_of_head layout queue linked head appended registered.1)))

end Register

/-! ## `sensor_from_adc` -/

section FromAdc

variable {ram : Ram} {words words' : Words} {sensors sensor : UInt32} {L : List UInt32}

/-- What `sensor_from_adc` stores. -/
def setFields (words : Words) (sensor : UInt32) (adc : AdcSensor) : Words :=
  Function.update (Function.update (Function.update (Function.update (Function.update words
    (sensor + 8) adc.ops) (sensor + 12) adc.adc) (sensor + 16) adc.mult) (sensor + 20) adc.div)
    (sensor + 24) adc.ref

theorem setFields_outside {a : UInt32} (outside : a ∉ object sensor) (adc : AdcSensor) :
    setFields words sensor adc a = words a := by
  simp only [object, List.mem_cons, not_or] at outside
  simp [setFields, outside]

theorem setFields_entry (layout : Layout ram sensors L sensor) (adc : AdcSensor) :
    setFields words sensor adc sensor = words sensor ∧
      setFields words sensor adc (prevAt sensor) = words (prevAt sensor) := by
  have nodup : (object sensor).Nodup := (List.nodup_append.mp (List.nodup_cons.mp layout.nodup).2).1
  obtain ⟨notMem, rest⟩ := List.nodup_cons.mp nodup
  have notMem' := (List.nodup_cons.mp rest).1
  simp only [List.mem_cons, not_or] at notMem notMem'
  constructor
  · simp only [setFields, Function.update_apply, notMem, if_false]
  · simp only [setFields, Function.update_apply, notMem', if_false]

theorem sensorFromAdc_eq (layout : Layout ram sensors L sensor) (adc : AdcSensor) :
    sensorFromAdc ram words sensor adc = .ok (setFields words sensor adc, sensor) := by
  have word : ∀ a ∈ object sensor, ram.isWord a = true := fun a mem => layout.word_object mem
  simp only [object, List.forall_mem_cons] at word
  obtain ⟨-, -, ops, adcWord, mult, div, ref, -⟩ := word
  rw [sensorFromAdc, if_neg (Ram.ne_zero_of_isWord layout.word_sensor), Ram.store_ok ops,
    Except.ok_bind, Ram.store_ok adcWord, Except.ok_bind, Ram.store_ok mult, Except.ok_bind,
    Ram.store_ok div, Except.ok_bind, Ram.store_ok ref, Except.ok_bind]
  rfl

theorem represents_setFields (layout : Layout ram sensors L sensor)
    (rep : Represents (listAt words sensors) L) (adc : AdcSensor) :
    Represents (listAt (setFields words sensor adc) sensors) L := by
  have notObject : ∀ a ∈ links L, a ∉ object sensor := fun a mem memObject =>
    layout.object_ne_links memObject mem rfl
  refine rep.congr (fun a mem => ⟨?_, ?_⟩) ?_
  · exact congrArg pointer (setFields_outside (notObject a (mem_links mem)) adc)
  · exact congrArg pointer (setFields_outside (notObject _ (prevAt_mem_links mem)) adc)
  · exact congrArg pointer
      (setFields_outside (fun mem => layout.sensors_ne_object mem rfl) adc)

theorem harmlessEntry_setFields (layout : Layout ram sensors L sensor) (adc : AdcSensor) :
    HarmlessEntry ram (setFields words sensor adc) sensors L sensor ↔
      HarmlessEntry ram words sensors L sensor := by
  have harmless : ∀ a value, Harmless (setFields words sensor adc) L sensor a value ↔
      Harmless words L sensor a value := by
    intro a value
    rcases Classical.em (a ∈ object sensor) with mem | outside
    · have memSpare : a ∈ spare L sensor := mem_spare_iff.mpr (.inl mem)
      simp [Harmless, memSpare]
    · rw [Harmless, setFields_outside outside, Harmless]
  obtain ⟨next, prev⟩ : setFields words sensor adc sensor = words sensor ∧
      setFields words sensor adc (prevAt sensor) = words (prevAt sensor) := setFields_entry layout adc
  simp only [HarmlessEntry, next, prev, harmless]

/-- What is claimed of `sensors_register(sensor_from_adc(...))`. -/
def RegistersFromAdc (ram : Ram) (words : Words) (sensors : UInt32) (L : List UInt32)
    (sensor : UInt32) (adc : AdcSensor) : Prop :=
  ∃ words', (do
      let (words, sensor) ← sensorFromAdc ram words sensor adc
      sensorsRegister ram words sensors sensor) = .ok words' ∧
    (∀ (σ : Type) (f : UInt32 → σ → Bool × σ) (context : σ),
      Returns (fun fuel => sensorsForEach ram words' sensors f fuel context)
        (visit f (L ++ [sensor]) context)) ∧
    ∀ a, a ∉ region sensors L sensor → words' a = words a

/-- With the fields of the sensor out of the way. -/
theorem registersFromAdc_iff (layout : Layout ram sensors L sensor) (adc : AdcSensor) :
    RegistersFromAdc ram words sensors L sensor adc ↔
      ∃ words', ListMemory.listAppend ram (setFields words sensor adc) sensors sensor =
        .ok words' ∧ Registered ram (setFields words sensor adc) sensors L sensor words' := by
  have frame : ∀ words' : Words, (∀ a, a ∉ region sensors L sensor → words' a = words a) ↔
      ∀ a, a ∉ region sensors L sensor → words' a = setFields words sensor adc a := by
    intro words'
    refine forall₂_congr fun a outside => ?_
    have notObject : a ∉ object sensor := fun mem =>
      outside (List.mem_cons_of_mem _ (List.mem_append_left _ mem))
    rw [setFields_outside notObject]
  simp only [RegistersFromAdc, sensorFromAdc_eq layout, Except.ok_bind, sensorsRegister,
    sensorsForEach_iff layout.word_sensors, frame, Registered]

theorem harmless_of_registersFromAdc (layout : Layout ram sensors L sensor)
    (rep : Represents (listAt words sensors) L) (adc : AdcSensor)
    (registers : RegistersFromAdc ram words sensors L sensor adc) :
    HarmlessEntry ram words sensors L sensor := by
  obtain ⟨words', ran, registered⟩ := (registersFromAdc_iff layout adc).mp registers
  exact (harmlessEntry_setFields layout adc).mp
    (harmless_of_registered layout (represents_setFields layout rep adc) ran registered)

end FromAdc

/-- **Registering a sensor from an ADC**: `sensors_for_each` goes through the sensors that were
registered and the new one, and nothing but the links, the head and the new sensor has changed, if
and only if the words that the heap has left in the list entry are harmless. -/
theorem registersFromAdc_iff_harmless (ram : Ram) (words : Words) (sensors sensor : UInt32)
    (L : List UInt32) (adc : AdcSensor) (layout : Layout ram sensors L sensor)
    (rep : Represents (listAt words sensors) L) :
    RegistersFromAdc ram words sensors L sensor adc ↔
      HarmlessEntry ram words sensors L sensor := by
  refine ⟨harmless_of_registersFromAdc layout rep adc, fun harmless => ?_⟩
  have harmless' := (harmlessEntry_setFields layout adc).mpr harmless
  obtain ⟨words', ran, registered⟩ :=
    listAppend_of_harmless layout (represents_setFields layout rep adc) harmless'
  exact (registersFromAdc_iff layout adc).mpr ⟨words', ran, registered⟩

/-- Every aligned word but the one at `NULL`. -/
def allRam : Ram where
  isWord a := a % 4 == 0 && a != 0
  aligned a word := by simpa using (Bool.and_eq_true_iff.mp word).1
  notNull := rfl

/-- One sensor at `0x20000010` is registered; the heap is zero. -/
def zeroHeap : Words := fun a =>
  if a = 0x20000000 ∨ a = 0x20000010 ∨ a = 0x20000014 then 0x20000010 else 0

/-- No sensor is registered; the heap has been used before. -/
def usedHeap : Words := fun a =>
  if a = 0x20000100 then 0x20000200 else if a = 0x20000104 then 0x20000300 else 0

theorem registersFromAdc_zeroHeap :
    RegistersFromAdc allRam zeroHeap 0x20000000 [0x20000010] 0x20000100 ⟨1, 2, 16, 1, 3300⟩ := by
  have words : (region 0x20000000 [0x20000010] 0x20000100).all allRam.isWord = true := rfl
  have linked : (listAt zeroHeap 0x20000000).Linked 0x20000010 0x20000010 := ⟨rfl, rfl⟩
  have ring : Ring (listAt zeroHeap 0x20000000).toLinks [0x20000010] :=
    ⟨List.nodup_singleton _, List.isChain_pair.mpr linked⟩
  have harmless : HarmlessEntry allRam zeroHeap 0x20000000 [0x20000010] 0x20000100 := by
    unfold HarmlessEntry Harmless
    decide
  exact (registersFromAdc_iff_harmless allRam zeroHeap 0x20000000 0x20000100 [0x20000010]
    ⟨1, 2, 16, 1, 3300⟩ ⟨by decide, List.all_eq_true.mp words⟩ ⟨ring, rfl⟩).mpr harmless

/-- The word at `0x20000300`, which the old links point to, changes. -/
theorem not_registersFromAdc_usedHeap :
    Layout allRam 0x20000000 [] 0x20000100 ∧ Represents (listAt usedHeap 0x20000000) [] ∧
      ¬ RegistersFromAdc allRam usedHeap 0x20000000 [] 0x20000100 ⟨1, 2, 16, 1, 3300⟩ := by
  have words : (region 0x20000000 [] 0x20000100).all allRam.isWord = true := rfl
  have layout : Layout allRam 0x20000000 [] 0x20000100 :=
    ⟨by decide, List.all_eq_true.mp words⟩
  have rep : Represents (listAt usedHeap 0x20000000) [] := ⟨Ring.nil, rfl⟩
  refine ⟨layout, rep, fun registers => ?_⟩
  have harmless := harmless_of_registersFromAdc layout rep _ registers
  have harms : ¬ HarmlessEntry allRam usedHeap 0x20000000 [] 0x20000100 := by
    unfold HarmlessEntry Harmless
    decide
  exact harms harmless

end TheFirmware.Sensor
