import TheFirmware.Core.ListMemory

/-!
# The registered sensors of `lib/sensor/sensor.c`

`sensor_from_adc` does not initialise the list entry of the sensor, so `sensors_register` takes what
the heap has left there for the links of a list to unlink the sensor from.
-/

namespace TheFirmware.Sensor

open ListMemory

/-- What `sensor_from_adc` puts into a `struct adc_sensor`, where `ops` is `&adc_sensor_ops`. -/
structure AdcSensor : Type where
  ops : UInt32
  adc : UInt32
  mult : UInt32
  div : UInt32
  ref : UInt32

/-- `sensor_from_adc`, where `sensor` is what `malloc` returns. -/
def sensorFromAdc (ram : Ram) (words : Words) (sensor : UInt32) (adc : AdcSensor) :
    Except Fault (Words × UInt32) :=
  if sensor = 0 then
    return (words, 0)
  else do
    let words ← ram.store words (sensor + 8) adc.ops
    let words ← ram.store words (sensor + 12) adc.adc
    let words ← ram.store words (sensor + 16) adc.mult
    let words ← ram.store words (sensor + 20) adc.div
    let words ← ram.store words (sensor + 24) adc.ref
    return (words, sensor)

/-- `sensors_register`, where `sensors` is `&sensors.list`; `list_entry` is the first member of a
sensor. -/
def sensorsRegister (ram : Ram) (words : Words) (sensors sensor : UInt32) : Except Fault Words :=
  ListMemory.listAppend ram words sensors sensor

/-- The loop of `sensors_for_each`. The callback gets the context, and returns it with its
result. -/
def forEachLoop {σ : Type} (ram : Ram) (words : Words) (sensors : UInt32)
    (f : UInt32 → σ → Bool × σ) : Nat → UInt32 → σ → Except Fault σ
  | fuel, entry, context =>
    if entry = 0 then .ok context
    else
      match fuel with
      | 0 => .error .outOfFuel
      | fuel + 1 =>
        match f entry context with
        | (false, context) => .ok context
        | (true, context) => do
          let next ← ListMemory.listNext ram words sensors entry
          forEachLoop ram words sensors f fuel next context

/-- `sensors_for_each` -/
def sensorsForEach {σ : Type} (ram : Ram) (words : Words) (sensors : UInt32)
    (f : UInt32 → σ → Bool × σ) (fuel : Nat) (context : σ) : Except Fault σ := do
  let head ← ram.load words sensors
  forEachLoop ram words sensors f fuel head context

/-! ## Visiting -/

/-- A callback called for one sensor after the other, up to the one for which it returns `false`. -/
def visit {σ : Type} (f : UInt32 → σ → Bool × σ) : List UInt32 → σ → σ
  | [], context => context
  | sensor :: rest, context =>
    match f sensor context with
    | (false, context) => context
    | (true, context) => visit f rest context

section Visit

variable {ram : Ram} {words : Words} {sensors entry : UInt32} {V : List UInt32}

theorem forEachLoop_path {σ : Type} (f : UInt32 → σ → Bool × σ)
    (path : Path ram words sensors entry V) (context : σ) :
    Returns (fun fuel => forEachLoop ram words sensors f fuel entry context)
      (visit f V context) := by
  induction V generalizing entry context with
  | nil =>
    obtain rfl : entry = 0 := path
    refine ⟨0, fun fuel _ => ?_⟩
    cases fuel <;> rfl
  | cons a rest ih =>
    obtain ⟨rfl, notNull, next, step, path⟩ := path
    apply Returns.succ
    simp only [forEachLoop, if_neg notNull, visit]
    cases f entry context with
    | mk more context =>
      cases more with
      | false => exact Returns.ok _
      | true =>
        simp only [step, Except.ok_bind]
        exact ih path context

/-- A callback that writes down what it is called for. -/
def record (sensor : UInt32) (seen : List UInt32) : Bool × List UInt32 := (true, seen ++ [sensor])

theorem visit_record (V seen : List UInt32) : visit record V seen = seen ++ V := by
  induction V generalizing seen with
  | nil => exact (List.append_nil seen).symm
  | cons a V ih =>
    show visit record V (seen ++ [a]) = seen ++ a :: V
    rw [ih, List.append_assoc, List.singleton_append]

theorem path_of_record {fuel : Nat} {seen seen' : List UInt32}
    (ran : forEachLoop ram words sensors record fuel entry seen = .ok seen') :
    ∃ V, seen' = seen ++ V ∧ Path ram words sensors entry V := by
  induction fuel generalizing entry seen with
  | zero =>
    unfold forEachLoop at ran
    split at ran
    · rename_i null
      cases ran
      exact ⟨[], (List.append_nil _).symm, null⟩
    · cases ran
  | succ fuel ih =>
    unfold forEachLoop at ran
    split at ran
    · rename_i null
      cases ran
      exact ⟨[], (List.append_nil _).symm, null⟩
    · rename_i notNull
      simp only [record] at ran
      obtain ⟨next, step, ran⟩ := Except.bind_eq_ok.mp ran
      obtain ⟨V, rfl, path⟩ := ih ran
      exact ⟨entry :: V, by simp, rfl, notNull, next, step, path⟩

/-- `sensors_for_each` calls every callback for the sensors that the list goes through. -/
theorem sensorsForEach_iff (word : ram.isWord sensors = true) :
    (∀ (σ : Type) (f : UInt32 → σ → Bool × σ) (context : σ),
      Returns (fun fuel => sensorsForEach ram words sensors f fuel context)
        (visit f V context)) ↔ Visits ram words sensors V := by
  simp only [sensorsForEach, Ram.load_ok word, Except.ok_bind]
  constructor
  · intro each
    obtain ⟨bound, ran⟩ := each (List UInt32) record []
    obtain ⟨V', same, path⟩ := path_of_record (ran bound (Nat.le_refl bound))
    rw [visit_record, List.nil_append, List.nil_append] at same
    exact same ▸ path
  · intro path σ f context
    exact forEachLoop_path f path context

end Visit

end TheFirmware.Sensor
