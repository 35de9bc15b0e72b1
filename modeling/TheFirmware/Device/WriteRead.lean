import TheFirmware.Device.Mcp24xx64

/-!
# Writing to the EEPROM and reading back

`mcp24xx64_write` cuts the buffer into chunks of a page, counted from the address it is given, while
the pages of the device begin at multiples of their size. Every chunk is written to the page in
which it begins: when that is not the beginning of the page, the end of a full chunk goes to the
front of the same page and not to the next one (`pageWrite_front`).

So a buffer is read back as it was written exactly when it begins at the beginning of a page or ends
in the page in which it begins (`writeRead_iff`); and `mcp24xx64_read`, which makes each transfer
only once, must find the device ready.
-/

namespace TheFirmware.Mcp24xx64

section Pages

variable {nacks : Nat → Nat} {cells : Nat → UInt8} {a b : Nat} {address : UInt16}
  {data front buffer : List UInt8} {remaining : Int}

/-- Where a page write goes on after `n` bytes. -/
def pageNext (a n : Nat) : Nat := a / pageSize * pageSize + (a + n) % pageSize

theorem pageNext_pageNext (a n : Nat) :
    pageNext (pageNext a 1) n = pageNext a (n + 1) := by
  unfold pageNext pageSize
  omega

/-- A page write in two parts. -/
theorem pageWrite_append (front data : List UInt8) :
    pageWrite cells a (front ++ data) =
      pageWrite (pageWrite cells a front) (if front = [] then a else pageNext a front.length)
        data := by
  induction front generalizing cells a with
  | nil => rfl
  | cons x front ih =>
      rw [List.cons_append, pageWrite, pageWrite, ih, if_neg (List.cons_ne_nil x front)]
      congr 1
      cases front with
      | nil => rfl
      | cons y front =>
          rw [if_neg (List.cons_ne_nil y front)]
          exact pageNext_pageNext a _

/-- A page write changes no other page. -/
theorem pageWrite_outside (other : b / pageSize ≠ a / pageSize) :
    pageWrite cells a data b = cells b := by
  induction data generalizing cells a with
  | nil => rfl
  | cons x data ih =>
      have samePage : (a / pageSize * pageSize + (a + 1) % pageSize) / pageSize = a / pageSize := by
        unfold pageSize
        omega
      have ne : b ≠ a := fun same => other (congrArg (· / pageSize) same)
      rw [pageWrite, ih (by rw [samePage]; exact other), Function.update_of_ne ne]

/-- The first byte behind the end of the page goes to its front. -/
theorem pageWrite_front {x : UInt8} (full : a % pageSize + front.length = pageSize)
    (size : (front ++ x :: data).length ≤ pageSize) :
    pageWrite cells a (front ++ x :: data) (a / pageSize * pageSize) = x := by
  have nonempty : front ≠ [] := by
    rintro rfl
    unfold pageSize at full
    rw [List.length_nil] at full
    omega
  have start : pageNext a front.length = a / pageSize * pageSize := by
    unfold pageNext pageSize at *
    omega
  have rest : (x :: data).length ≤ pageSize := by
    rw [List.length_append] at size
    omega
  rw [pageWrite_append, if_neg nonempty, start, pageWrite_eq]
  · rw [Cells.write, Cells.write_outside (.inl (Nat.lt_succ_self _)), Function.update_self]
  · unfold pageSize at rest ⊢
    omega

/-- The address of the next chunk, which is inside the range of `uint16_t` also behind the last
one. -/
theorem toNat_next (inside : address.toNat + buffer.length ≤ eepromSize) :
    (address + 32).toNat = address.toNat + 32 := by
  unfold eepromSize at inside
  rw [UInt16.toNat_add]
  exact Nat.mod_eq_of_lt (by show address.toNat + 32 < 65536; omega)

/-- The loop of `mcp24xx64_write` returns, and leaves the pages in front of the address alone. -/
theorem writeLoop_behind (nacks : Nat → Nat) (dev : Eeprom) (size : remaining.toNat = buffer.length)
    (inside : buffer = [] ∨ address.toNat + buffer.length ≤ eepromSize) :
    ∃ dev', Returns (fun fuel => writeLoop (eepromBus nacks) fuel remaining address buffer dev)
        (statusOk, dev') ∧
      ∀ b, b / pageSize < address.toNat / pageSize → dev'.cells b = dev.cells b := by
  induction length : buffer.length using Nat.strong_induction_on
    generalizing remaining address buffer dev with
  | _ _ ih =>
  subst length
  by_cases nonempty : buffer = []
  · subst nonempty
    rw [List.length_nil] at size
    exact ⟨dev, writeLoop_finished (by omega), fun _ _ => rfl⟩
  · have positive : 0 < buffer.length := List.length_pos_iff.mpr nonempty
    have inside := inside.resolve_left nonempty
    have shorter : (buffer.drop pageSize).length = buffer.length - 32 := List.length_drop
    have next := toNat_next inside
    obtain ⟨dev', returns, behind⟩ := ih _ (by omega)
      (dev.written nacks address.toNat (buffer.take pageSize)) (toNat_sub_page size)
      (inside_next inside) rfl
    refine ⟨dev', writeLoop_page size nonempty inside returns, fun b before => ?_⟩
    rw [behind b (by unfold pageSize at before ⊢; omega)]
    exact pageWrite_outside (Nat.ne_of_lt before)

end Pages

/-! ## The law -/

/-- A buffer that is written is read back, and no other cell changes, whatever the device and the
buffer for the read hold before. When `mcp24xx64_read` is called, the device will not acknowledge
`left` transfers any more. -/
def ReadsBack (nacks : Nat → Nat) (left : Nat) (address : UInt16) (buffer : List UInt8) : Prop :=
  ∀ (dev : Eeprom) (out : List UInt8), out.length = buffer.length →
    ∃ dev', Returns (fun fuel => mcp24xx64Write (eepromBus nacks) fuel address buffer dev)
        (statusOk, dev') ∧
      (∀ b, b < address.toNat ∨ address.toNat + buffer.length ≤ b →
        dev'.cells b = dev.cells b) ∧
      ∃ dev'', Returns (fun fuel => mcp24xx64Read (eepromBus nacks) fuel address out
        { dev' with busy := left }) (statusOk, buffer, dev'')

/-- The buffer begins at the beginning of a page, or ends in the page in which it begins. -/
def PagesMatch (address : UInt16) (buffer : List UInt8) : Prop :=
  address.toNat % pageSize = 0 ∨ address.toNat % pageSize + buffer.length ≤ pageSize

section Law

variable {nacks : Nat → Nat} {left : Nat} {address : UInt16} {buffer : List UInt8}

theorem readsBack_of_pagesMatch (inside : address.toNat + buffer.length ≤ eepromSize)
    (pages : PagesMatch address buffer) (ready : buffer = [] ∨ left = 0) :
    ReadsBack nacks left address buffer := by
  intro dev out length
  obtain ⟨dev', returns, cells, -⟩ := mcp24xx64Write_returns nacks dev address buffer pages inside
  refine ⟨dev', returns, fun b outside => ?_, { dev' with busy := left }, ?_⟩
  · rw [cells]
    exact Cells.write_outside outside
  · by_cases empty : buffer = []
    · subst empty
      have none : out = [] := List.length_eq_zero_iff.mp length
      subst none
      exact Returns.succ ⟨0, fun fuel _ => rfl⟩
    · have read : Returns (fun fuel => mcp24xx64Read (eepromBus nacks) fuel address out
          { dev' with busy := left }) _ :=
        mcp24xx64Read_ready (ready.resolve_left empty) (length ▸ inside)
      rw [length] at read
      have stored : Cells.read dev'.cells address.toNat buffer.length = buffer := by
        rw [cells, Cells.read_write]
      rwa [stored] at read

/-- A chunk that crosses the end of its page is written to the front of the page. -/
theorem not_readsBack_of_crossing (inside : address.toNat + buffer.length ≤ eepromSize)
    (crossing : ¬ PagesMatch address buffer) : ¬ ReadsBack nacks left address buffer := by
  intro law
  unfold PagesMatch pageSize at crossing
  -- the bytes up to the end of the page, the byte behind it, and the rest of the buffer
  obtain ⟨front, x, rest, rfl, full⟩ : ∃ front x rest, buffer = front ++ x :: rest ∧
      address.toNat % 32 + front.length = 32 := by
    have long : 32 - address.toNat % 32 < buffer.length := by omega
    refine ⟨buffer.take (32 - address.toNat % 32), buffer[32 - address.toNat % 32],
      buffer.drop (32 - address.toNat % 32 + 1), ?_, ?_⟩
    · rw [← List.drop_eq_getElem_cons long, List.take_append_drop]
    · rw [List.length_take]
      omega
  have chunk : (front ++ x :: rest).take pageSize =
      front ++ x :: rest.take (pageSize - front.length - 1) := by
    have more : pageSize - front.length = pageSize - front.length - 1 + 1 := by
      unfold pageSize
      omega
    rw [List.take_append, List.take_of_length_le (by unfold pageSize; omega), more,
      List.take_succ_cons, ← more]
  let dev : Eeprom := ⟨fun _ => x + 1, 0, []⟩
  obtain ⟨dev', write, behind⟩ := writeLoop_behind nacks
    (dev.written nacks address.toNat ((front ++ x :: rest).take pageSize))
    (toNat_sub_page (Int.toNat_natCast (front ++ x :: rest).length)) (inside_next inside)
  have front' : (dev.written nacks address.toNat ((front ++ x :: rest).take pageSize)).cells
      (address.toNat / pageSize * pageSize) = x := by
    rw [chunk]
    apply pageWrite_front full
    rw [← chunk, List.length_take]
    exact Nat.min_le_left _ _
  have kept : dev'.cells (address.toNat / pageSize * pageSize) = x := by
    rw [← front']
    apply behind
    rw [toNat_next inside]
    unfold pageSize
    omega
  obtain ⟨dev'', write', outside, -⟩ := law dev (front ++ x :: rest) rfl
  have written := writeLoop_page (Int.toNat_natCast _) (by simp) inside write
  have sameDevice := write'.unique written
  cases sameDevice
  have changed := outside (address.toNat / pageSize * pageSize) (.inl (by unfold pageSize; omega))
  rw [kept] at changed
  have ne : x ≠ x + 1 := by
    intro eq
    have value := congrArg UInt8.toNat eq
    rw [UInt8.toNat_add] at value
    have bound := x.toNat_lt
    simp at value
    omega
  exact ne changed

/-- **Writing to the EEPROM and reading back**: for every address and every buffer inside the
device, the buffer is read back and no other cell changes, whatever the device held before, exactly
when no chunk crosses the end of a page, and the device is ready again for the read (unless there
is nothing to read). -/
theorem writeRead_iff (nacks : Nat → Nat) (left : Nat) (address : UInt16) (buffer : List UInt8)
    (inside : address.toNat + buffer.length ≤ eepromSize) :
    ReadsBack nacks left address buffer ↔
      PagesMatch address buffer ∧ (buffer = [] ∨ left = 0) := by
  constructor
  · intro law
    refine ⟨by_contra fun crossing => not_readsBack_of_crossing inside crossing law, ?_⟩
    by_contra busy
    obtain ⟨nonempty, busy⟩ := not_or.mp busy
    obtain ⟨dev', -, -, dev'', read⟩ := law ⟨fun _ => 0, 0, []⟩ buffer rfl
    have failed : Returns (fun fuel => mcp24xx64Read (eepromBus nacks) fuel address buffer
        { dev' with busy := left }) _ := mcp24xx64Read_busy busy nonempty
    have same := read.unique failed
    cases same
  · intro condition
    exact readsBack_of_pagesMatch inside condition.1 condition.2

end Law

/-- A buffer of 40 bytes is read back from the beginning of the second page, and not from inside. -/
theorem writeRead_iff_page :
    ReadsBack (fun _ => 3) 0 32 (List.replicate 40 7) ∧
      ¬ ReadsBack (fun _ => 3) 0 40 (List.replicate 40 7) := by
  constructor
  · exact (writeRead_iff (fun _ => 3) 0 32 (List.replicate 40 7) (by decide)).mpr
      ⟨.inl rfl, .inr rfl⟩
  · intro law
    have pages := ((writeRead_iff (fun _ => 3) 0 40 (List.replicate 40 7) (by decide)).mp law).1
    exact absurd pages (by unfold PagesMatch; decide)

/-- Two bytes at the end of the first page: the second one goes to cell 0. -/
theorem write_crosses_page :
    ¬ ∀ (nacks : Nat → Nat) (address : UInt16) (buffer : List UInt8),
      address.toNat + buffer.length ≤ eepromSize → ReadsBack nacks 0 address buffer := by
  intro claim
  obtain ⟨dev', write, outside, -⟩ := claim (fun _ => 0) 31 [1, 2] (by decide)
    ⟨fun _ => 0, 0, []⟩ [0, 0] rfl
  have written : Returns (fun fuel => mcp24xx64Write (eepromBus fun _ => 0) fuel 31 [1, 2]
      ⟨fun _ => 0, 0, []⟩) (statusOk, _) :=
    writeLoop_page rfl (by simp) (by decide) (writeLoop_finished (by decide))
  have same := write.unique written
  cases same
  have changed := outside 0 (.inl (by decide))
  exact absurd changed (by decide)

end TheFirmware.Mcp24xx64
