import TheFirmware.Simulator.LoadStore

/-!
# Block transfers

LDMIA loads the registers of a list from consecutive words, and STMIA stores them. The word at an
address is the one that `mcu_fetch32` returns. LDMIA writes the address behind the block to its base
register also if the base has been loaded. `block_iff` says when this makes no difference, for the
loaded registers and for those that are stored and loaded again.
-/

namespace TheFirmware.Simulator

open Instr16 LittleEndian

/-- A number of words from an address on lie in the RAM. -/
def Mcu.BlockInRam (mcu : Mcu) (addr : UInt32) (n : Nat) : Prop :=
  ∀ i < n, ∃ offset, mcu.memDevAt (addr + .ofNat (4 * i)) = some (.ram, offset)

/-- The base register of LDMIA and STMIA. -/
def baseReg (instr : UInt16) : Reg := bits instr 8 3

/-- The address behind a block. -/
def behind (instr : UInt16) (start : UInt32) : UInt32 := start + .ofNat (4 * (regList instr).length)

/-- The instruction is an LDMIA with a list that is not empty. -/
def EncodesLdmia (instr : UInt16) : Prop := instr &&& 0xF800 = 0xC800 ∧ regList instr ≠ []

/-- The instruction is an STMIA with a list that is not empty. -/
def EncodesStmia (instr : UInt16) : Prop := instr &&& 0xF800 = 0xC000 ∧ regList instr ≠ []

/-- A step loads the registers of the list in ascending order from consecutive words, and the base
register holds the address behind them if it is not in the list. No other register, no flag and
nothing in the memory changes. -/
def LoadsBlock (pastTable : UInt32 → Bool) (mcu : Mcu) (instr : UInt16) : Prop :=
  let start := mcuReadReg mcu (baseReg instr)
  ∃ mcu', mcuStep pastTable mcu = .ok true mcu' ∧
    (∀ i (lt : i < (regList instr).length),
      mcuFetch32 mcu (start + .ofNat (4 * i)) = some (mcuReadReg mcu' (regList instr)[i])) ∧
    (baseReg instr ∉ regList instr → mcuReadReg mcu' (baseReg instr) = behind instr start) ∧
    mcu.Stepped mcu' (baseReg instr :: regList instr) mcu.flags

/-- The word of a base register in the list is the address behind the block. -/
def BaseKept (mcu : Mcu) (instr : UInt16) : Prop :=
  let start := mcuReadReg mcu (baseReg instr)
  baseReg instr ∈ regList instr →
    mcuFetch32 mcu (start + .ofNat (4 * (regList instr).idxOf (baseReg instr))) =
      some (behind instr start)

/-- After an STMIA, an LDMIA with the same list from the same block restores the registers of the
list, in every state with the RAM that the STMIA leaves. -/
def RestoresBlock (pastTable : UInt32 → Bool) (mcu : Mcu) (stm ldm : UInt16) : Prop :=
  ∃ mcu', mcuStep pastTable mcu = .ok true mcu' ∧
    ∀ mcu₁, mcu'.SameRam mcu₁ → mcuFetch16 mcu₁ (mcuReadReg mcu₁ regPc - 2) = some ldm →
      mcuReadReg mcu₁ (baseReg ldm) = mcuReadReg mcu (baseReg stm) →
      ∃ mcu₂, mcuStep pastTable mcu₁ = .ok true mcu₂ ∧
        ∀ reg ∈ regList stm, mcuReadReg mcu₂ reg = mcuReadReg mcu reg

/-- The base register of the LDMIA is not in the list, or it held the address behind the block. -/
def BaseRestored (mcu : Mcu) (stm ldm : UInt16) : Prop :=
  baseReg ldm ∈ regList stm →
    mcuReadReg mcu (baseReg ldm) = behind stm (mcuReadReg mcu (baseReg stm))

/-! ## Loading -/

/-- What is left behind when registers were loaded from `sp` on: nothing but these has changed. -/
structure LoadedWords (mcu mcu' : Mcu) (regs : List Reg) (sp : UInt32) : Prop where
  words : ∀ i (lt : i < regs.length),
    mcuFetch32 mcu (sp + .ofNat (4 * i)) = some (mcu'.regs regs[i])
  other : ∀ reg, reg ∉ regs → mcu'.regs reg = mcu.regs reg
  rest : mcu' = { mcu with regs := mcu'.regs, pcEven := mcu'.pcEven }

section Loading

variable {mcu mcu' : Mcu} {instr : UInt16} {sp : UInt32} {regs : List Reg}

theorem add_four (sp : UInt32) (i : Nat) :
    sp + .ofNat (4 * (i + 1)) = sp + 4 + .ofNat (4 * i) := by
  have four : (UInt32.ofNat (4 * (i + 1))) = 4 + .ofNat (4 * i) := by
    rw [Nat.mul_succ, Nat.add_comm, UInt32.ofNat_add]
    rfl
  rw [four, UInt32.add_assoc]

theorem add_zero_words (sp : UInt32) : sp + .ofNat (4 * 0) = sp := UInt32.add_zero sp

/-- The loop of LDMIA and POP, when all words can be fetched. -/
theorem run_loadRegs_words (fetchError : UInt32 → Instr Unit) (nodup : regs.Nodup)
    (low : ∀ reg ∈ regs, reg < 8) (mcu : Mcu) (sp : UInt32)
    (readable : ∀ i < regs.length, ∃ val, mcuFetch32 mcu (sp + .ofNat (4 * i)) = some val) :
    ∃ mcu', (loadRegs fetchError regs sp).run Op.handle mcu =
        .ok (some (sp + .ofNat (4 * regs.length))) mcu' ∧
      LoadedWords mcu mcu' regs sp := by
  induction regs generalizing mcu sp with
  | nil =>
    refine ⟨mcu, ?_, nofun, fun _ _ => rfl, rfl⟩
    show EStateM.Result.ok (some sp) mcu = _
    rw [List.length_nil, add_zero_words]
  | cons reg regs ih =>
    rcases List.nodup_cons.mp nodup with ⟨notMem, nodup⟩
    have lowReg := low reg List.mem_cons_self
    have notPc : reg ≠ regPc := (lowReg.trans (show 8 < regPc by decide)).ne
    rcases readable 0 (Nat.succ_pos _) with ⟨val, fetched⟩
    rw [add_zero_words] at fetched
    have written := mcuWriteReg_of_plain mcu val (lowReg.trans (show 8 < regSp by decide))
    have fetches : mcuFetch32 (mcuWriteReg mcu reg val) = mcuFetch32 mcu := by
      rw [written]
      rfl
    have later : ∀ i < regs.length, ∃ word,
        mcuFetch32 (mcuWriteReg mcu reg val) (sp + 4 + .ofNat (4 * i)) = some word := by
      intro i lt
      rw [fetches, ← add_four]
      exact readable (i + 1) (Nat.succ_lt_succ lt)
    rcases ih nodup (fun r mem => low r (List.mem_cons_of_mem _ mem)) (mcuWriteReg mcu reg val)
      (sp + 4) later with ⟨mcu', ran, loaded⟩
    have first : mcu'.regs reg = val := by
      rw [loaded.other reg notMem, written]
      exact mcu.regs_setReg_self val notPc
    refine ⟨mcu', ?_, ?_, ?_, ?_⟩
    · unfold loadRegs
      rw [run_fetch32, fetched]
      dsimp only
      rw [run_writeReg, ran, List.length_cons, add_four]
    · intro i lt
      cases i with
      | zero =>
        rw [add_zero_words, fetched]
        exact congrArg some first.symm
      | succ i =>
        have word := loaded.words i (Nat.lt_of_succ_lt_succ lt)
        rw [fetches, ← add_four] at word
        exact word
    · intro r away
      rcases not_or.mp (List.mem_cons.not.mp away) with ⟨ne, away⟩
      rw [loaded.other r away, written]
      exact mcu.regs_setReg_of_ne val ne
    · have rest := loaded.rest
      rw [written] at rest
      exact rest

/-- The words of a block in the RAM can be fetched. -/
theorem Mcu.BlockInRam.readable {n : Nat} (block : mcu.BlockInRam sp n) :
    ∀ i < n, ∃ val, mcuFetch32 mcu (sp + .ofNat (4 * i)) = some val := by
  intro i lt
  rcases block i lt with ⟨offset, at_⟩
  exact ⟨_, mcuFetch32_bytes at_ rfl⟩

/-- The step of an LDMIA. -/
theorem step_ldmia (pastTable : UInt32 → Bool) (encoded : instr &&& 0xF800 = 0xC800)
    (fetched : mcuFetch16 mcu (mcuReadReg mcu regPc - 2) = some instr)
    (block : mcu.BlockInRam (mcuReadReg mcu (baseReg instr)) (regList instr).length) :
    ∃ loaded, mcuStep pastTable mcu = .ok true
        (mcuWriteReg loaded (baseReg instr) (behind instr (mcuReadReg mcu (baseReg instr)))) ∧
      LoadedWords mcu.advanced loaded (regList instr) (mcuReadReg mcu (baseReg instr)) := by
  have reached : Reached 25 ⟨0xF800, 0xC800, ldmia⟩ := ⟨rfl, by decide⟩
  have base := reg_eq_bits instr 8 8 rfl
  have start := readLow_advanced mcu instr 8 8 rfl
  rcases run_loadRegs_words mcuFetchError (nodup_regList instr) (fun _ => lt_of_mem_regList)
    mcu.advanced (mcuReadReg mcu (baseReg instr)) block.readable with ⟨loaded, ran, words⟩
  refine ⟨loaded, reached.step pastTable fetched encoded ?_, words⟩
  show (readReg (reg instr 8 0x7) >>= fun sp =>
    loadRegs mcuFetchError (regList instr) sp >>= _).run Op.handle mcu.advanced = _
  rw [run_readReg, start, Proc.run_bind]
  unfold baseReg at ran
  rw [ran]
  dsimp only
  rw [run_writeReg, base]
  rfl

end Loading

/-! ## Storing -/

/-- What is left behind when registers were stored from `sp` on: nothing but these words has
changed. -/
structure StoredWords (mcu mcu' : Mcu) (regs : List Reg) (sp : UInt32) : Prop where
  words : ∀ i (lt : i < regs.length),
    mcuFetch32 mcu' (sp + .ofNat (4 * i)) = some (mcuReadReg mcu regs[i])
  other : ∀ a, (∀ i < regs.length, a.toNat / 4 ≠ (sp + .ofNat (4 * i)).toNat / 4) →
    mcuFetch32 mcu' a = mcuFetch32 mcu a
  rest : mcu' = { mcu with ram := mcu'.ram }

section Storing

variable {mcu mcu' : Mcu} {instr : UInt16} {a sp : UInt32} {offset : UInt32} {regs : List Reg}

/-- A word is fetched as it was written to the RAM, and the others are as before. -/
theorem fetch32_store32 (at_ : mcu.memDevAt a = some (.ram, offset)) (v b : UInt32) :
    mcuFetch32 { mcu with ram := store32 mcu.ram (4 * (offset.toNat / 4)) v } b =
      if b.toNat / 4 = a.toNat / 4 then some v else mcuFetch32 mcu b := by
  show mcuFetch32 (Device.ram.setBytes mcu _) b = _
  have same := Device.ram.memDevAt_setBytes mcu (store32 mcu.ram (4 * (offset.toNat / 4)) v)
  by_cases word : b.toNat / 4 = a.toNat / 4
  · rcases memDevAt_near at_ word with ⟨near, near_at, near_eq⟩
    have residue := toNat_offset_mod near_at
    have place : 4 * (near.toNat / 4) = 4 * (offset.toNat / 4) := by omega
    rw [if_pos word, mcuFetch32_bytes ((congrFun same b).trans near_at) (Device.bytes_setBytes rfl),
      place, load32_store32]
  · rw [if_neg word]
    cases found : mcu.memDevAt b with
    | none =>
      unfold mcuFetch32
      rw [same, found]
    | some place =>
      rcases place with ⟨other, near⟩
      by_cases isRam : other = .ram
      · subst isRam
        have distance := offset_distance at_ found
        have residue := toNat_offset_mod at_
        have residue' := toNat_offset_mod found
        rw [mcuFetch32_bytes ((congrFun same b).trans found) (Device.bytes_setBytes rfl),
          mcuFetch32_bytes found rfl]
        congr 1
        refine load32_congr fun i small => ?_
        exact store32_outside (by omega)
      · unfold mcuFetch32
        rw [same, found]
        exact Device.fetch32_setBytes_of_ne isRam

/-- The words of a block are apart. -/
theorem words_apart (sp : UInt32) {i : Nat} (small : i < 9) :
    sp.toNat / 4 ≠ (sp + 4 + .ofNat (4 * i)).toNat / 4 := by
  have bound := sp.toNat_lt
  rw [← add_four, UInt32.toNat_add, UInt32.toNat_ofNat']
  omega

/-- The loop of STMIA and PUSH, when all words lie in the RAM. -/
theorem run_storeRegs_words (writeError : Reg → UInt32 → Instr Unit) (few : regs.length ≤ 9)
    (mcu : Mcu) (sp : UInt32) (block : mcu.BlockInRam sp regs.length) :
    ∃ mcu', (storeRegs writeError regs sp).run Op.handle mcu =
        .ok (some (sp + .ofNat (4 * regs.length))) mcu' ∧
      StoredWords mcu mcu' regs sp := by
  induction regs generalizing mcu sp with
  | nil =>
    refine ⟨mcu, ?_, nofun, fun _ _ => rfl, rfl⟩
    show EStateM.Result.ok (some sp) mcu = _
    rw [List.length_nil, add_zero_words]
  | cons reg regs ih =>
    rw [List.length_cons] at few
    rcases block 0 (Nat.succ_pos _) with ⟨offset, at_⟩
    rw [add_zero_words] at at_
    have fetches := fetch32_store32 at_ (mcuReadReg mcu reg)
    have later : Mcu.BlockInRam { mcu with
        ram := store32 mcu.ram (4 * (offset.toNat / 4)) (mcuReadReg mcu reg) } (sp + 4)
          regs.length := by
      intro i lt
      rw [← add_four]
      exact block (i + 1) (Nat.succ_lt_succ lt)
    rcases ih (by omega) _ (sp + 4) later with ⟨mcu', ran, stored⟩
    refine ⟨mcu', ?_, ?_, ?_, stored.rest⟩
    · rw [run_storeRegs_cons, mcuWrite32_ram at_]
      dsimp only
      rw [ran, List.length_cons, add_four]
    · intro i lt
      cases i with
      | zero =>
        rw [add_zero_words, stored.other sp fun i lt => words_apart sp (by omega), fetches,
          if_pos rfl]
        rfl
      | succ i =>
        rw [add_four]
        exact stored.words i (Nat.lt_of_succ_lt_succ lt)
    · intro b away
      have first := away 0 (Nat.succ_pos _)
      rw [add_zero_words] at first
      rw [stored.other b ?_, fetches, if_neg first]
      intro i lt
      rw [← add_four]
      exact away (i + 1) (Nat.succ_lt_succ lt)

/-- The step of an STMIA. -/
theorem step_stmia (pastTable : UInt32 → Bool) (encoded : instr &&& 0xF800 = 0xC000)
    (fetched : mcuFetch16 mcu (mcuReadReg mcu regPc - 2) = some instr)
    (block : mcu.BlockInRam (mcuReadReg mcu (baseReg instr)) (regList instr).length) :
    ∃ stored, mcuStep pastTable mcu = .ok true
        (mcuWriteReg stored (baseReg instr) (behind instr (mcuReadReg mcu (baseReg instr)))) ∧
      StoredWords mcu.advanced stored (regList instr) (mcuReadReg mcu (baseReg instr)) := by
  have reached : Reached 54 ⟨0xF800, 0xC000, stmia⟩ := ⟨rfl, by decide⟩
  have base := reg_eq_bits instr 8 8 rfl
  have start := readLow_advanced mcu instr 8 8 rfl
  rcases run_storeRegs_words (fun _ => mcuWriteError) ((length_regList instr).trans (by decide))
    mcu.advanced (mcuReadReg mcu (baseReg instr)) block with ⟨stored, ran, words⟩
  refine ⟨stored, reached.step pastTable fetched encoded ?_, words⟩
  show (readReg (reg instr 8 0x7) >>= fun sp =>
    storeRegs (fun _ => mcuWriteError) (regList instr) sp >>= _).run Op.handle mcu.advanced = _
  rw [run_readReg, start, Proc.run_bind]
  unfold baseReg at ran
  rw [ran]
  dsimp only
  rw [run_writeReg, base]
  rfl

end Storing

/-! ## Block transfers -/

section Block

variable {mcu mcu' : Mcu} {instr stm ldm : UInt16} {a sp : UInt32} {offset : UInt32}

theorem baseReg_lt (instr : UInt16) : baseReg instr < 8 := bits_lt instr 8

/-- Another low register than the one that is written. -/
theorem mcuReadReg_writeReg_of_ne {reg other : Reg} (mcu : Mcu) (val : UInt32) (low : reg < 8)
    (low' : other < 8) (ne : other ≠ reg) :
    mcuReadReg (mcuWriteReg mcu reg val) other = mcu.regs other := by
  rw [mcuWriteReg_of_plain mcu val (low.trans (by decide)), mcuReadReg_low _ low']
  exact mcu.regs_setReg_of_ne val ne

/-- An LDMIA goes to the next instruction and changes nothing but its registers. -/
theorem stepped_ldmia {loaded : Mcu} {val : UInt32}
    (words : LoadedWords mcu.advanced loaded (regList instr) sp) :
    mcu.Stepped (mcuWriteReg loaded (baseReg instr) val) (baseReg instr :: regList instr)
      mcu.flags := by
  have written := mcuWriteReg_of_plain loaded val
    ((baseReg_lt instr).trans (show 8 < regSp by decide))
  have kept : ∀ reg, reg ∉ baseReg instr :: regList instr →
      (loaded.setReg (baseReg instr) val).regs reg = mcu.advanced.regs reg := by
    intro reg away
    rcases not_or.mp (List.mem_cons.not.mp away) with ⟨ne, away⟩
    rw [loaded.regs_setReg_of_ne val ne, words.other reg away]
  have high : ∀ reg, 8 ≤ reg → reg ∉ baseReg instr :: regList instr := by
    intro reg le mem
    rcases List.mem_cons.mp mem with rfl | mem
    · exact absurd (baseReg_lt instr) (not_lt.mpr le)
    · exact absurd (lt_of_mem_regList mem) (not_lt.mpr le)
  have xpsr : (loaded.setReg (baseReg instr) val).regs regXpsr = mcu.regs regXpsr :=
    (kept regXpsr (high _ (by decide))).trans (regs_advanced_of_ne mcu (by decide))
  rw [written]
  refine ⟨?_, ?_, ?_, ?_, ?_⟩
  · unfold Mcu.flags
    rw [xpsr]
  · exact (kept regPc (high _ (by decide))).trans (regs_advanced_pc mcu)
  · intro reg away notPc notXpsr
    exact (kept reg away).trans (regs_advanced_of_ne mcu notPc)
  · rw [xpsr]
  · have rest := words.rest
    have same : loaded.setReg (baseReg instr) val = { loaded with
      regs := (loaded.setReg (baseReg instr) val).regs
      pcEven := (loaded.setReg (baseReg instr) val).pcEven } := rfl
    rw [same, rest]
    rfl

/-- LDMIA loads its block exactly when the word of a base register in the list is the address
behind the block. -/
theorem loadsBlock_iff (pastTable : UInt32 → Bool) (encoded : EncodesLdmia instr)
    (fetched : mcuFetch16 mcu (mcuReadReg mcu regPc - 2) = some instr)
    (block : mcu.BlockInRam (mcuReadReg mcu (baseReg instr)) (regList instr).length) :
    LoadsBlock pastTable mcu instr ↔ BaseKept mcu instr := by
  have low := baseReg_lt instr
  have nodup := nodup_regList instr
  rcases step_ldmia pastTable encoded.1 fetched block with ⟨loaded, step, words⟩
  have fetches : mcuFetch32 mcu.advanced = mcuFetch32 mcu := fetch32_writeReg mcu regPc _
  have word := words.words
  rw [fetches] at word
  have base := mcuReadReg_writeReg_self loaded (behind instr (mcuReadReg mcu (baseReg instr))) low
  constructor
  · rintro ⟨mcu', step', loads, _, _⟩ mem
    rw [step] at step'
    cases step'
    have lt := List.idxOf_lt_length_of_mem mem
    have here := loads _ lt
    rw [List.getElem_idxOf lt, base] at here
    exact here
  · intro kept
    refine ⟨_, step, ?_, fun _ => base, stepped_ldmia words⟩
    intro i lt
    by_cases isBase : (regList instr)[i] = baseReg instr
    · have at_ : (regList instr).idxOf (baseReg instr) = i := by
        rw [← isBase]
        exact nodup.idxOf_getElem i lt
      have mem : baseReg instr ∈ regList instr := isBase ▸ List.getElem_mem lt
      have here := kept mem
      rw [at_] at here
      rw [isBase, base, here]
    · rw [mcuReadReg_writeReg_of_ne _ _ low (lt_of_mem_regList (List.getElem_mem lt)) isBase]
      exact word i lt

/-- The RAM is read in two states that have the same. -/
theorem Mcu.SameRam.fetch32 (same : mcu.SameRam mcu') (at_ : mcu.memDevAt a = some (.ram, offset)) :
    mcuFetch32 mcu' a = mcuFetch32 mcu a := by
  have at' : mcu'.memDevAt a = some (.ram, offset) := by
    rw [memDevAt_congr same.length]
    exact at_
  rw [mcuFetch32_bytes at_ rfl, mcuFetch32_bytes at' rfl, same.ram]

theorem Mcu.SameRam.blockInRam {n : Nat} (same : mcu.SameRam mcu') (block : mcu.BlockInRam a n) :
    mcu'.BlockInRam a n := by
  unfold Mcu.BlockInRam
  rw [memDevAt_congr same.length]
  exact block

theorem mcuReadReg_loadMcu {base : Reg} (mcu : Mcu) (addr : UInt32) (instr : UInt16)
    (low : base < 8) : mcuReadReg (loadMcu mcu base addr instr) base = addr := by
  have notPc : base ≠ regPc := (low.trans (by decide)).ne
  rw [mcuReadReg_low _ low]
  show (if base = regPc then 2 else if base = base then addr else 0) = addr
  rw [if_neg notPc, if_pos rfl]

/-- An LDMIA restores what an STMIA has stored exactly when its base register is not in the list or
held the address behind the block. -/
theorem restoresBlock_iff (pastTable : UInt32 → Bool) (encodedStm : EncodesStmia stm)
    (encodedLdm : EncodesLdmia ldm) (sameList : regList ldm = regList stm)
    (fetched : mcuFetch16 mcu (mcuReadReg mcu regPc - 2) = some stm)
    (block : mcu.BlockInRam (mcuReadReg mcu (baseReg stm)) (regList stm).length) :
    RestoresBlock pastTable mcu stm ldm ↔ BaseRestored mcu stm ldm := by
  have low := baseReg_lt ldm
  rcases step_stmia pastTable encodedStm.1 fetched block with ⟨stored, step, words⟩
  have storedBlock : stored.BlockInRam (mcuReadReg mcu (baseReg stm)) (regList stm).length := by
    rw [words.rest]
    exact block
  have written : mcuWriteReg stored (baseReg stm) (behind stm (mcuReadReg mcu (baseReg stm))) =
      stored.setReg (baseReg stm) (behind stm (mcuReadReg mcu (baseReg stm))) :=
    mcuWriteReg_of_plain stored _ ((baseReg_lt stm).trans (show 8 < regSp by decide))
  rw [written] at step
  have sameBehind : behind ldm (mcuReadReg mcu (baseReg stm)) =
      behind stm (mcuReadReg mcu (baseReg stm)) := by
    unfold behind
    rw [sameList]
  -- what the LDMIA leaves in a register of the list
  have reload : ∀ mcu₁, stored.SameRam mcu₁ →
      mcuFetch16 mcu₁ (mcuReadReg mcu₁ regPc - 2) = some ldm →
      mcuReadReg mcu₁ (baseReg ldm) = mcuReadReg mcu (baseReg stm) →
      ∃ mcu₂, mcuStep pastTable mcu₁ = .ok true mcu₂ ∧
        mcuReadReg mcu₂ (baseReg ldm) = behind stm (mcuReadReg mcu (baseReg stm)) ∧
        ∀ reg ∈ regList stm, reg ≠ baseReg ldm → mcuReadReg mcu₂ reg = mcuReadReg mcu reg := by
    intro mcu₁ same fetched₁ start
    have block₁ := same.blockInRam storedBlock
    rw [← start, ← sameList] at block₁
    rcases step_ldmia pastTable encodedLdm.1 fetched₁ block₁ with ⟨loaded, step₁, loads⟩
    rw [start, sameBehind] at step₁
    refine ⟨_, step₁, mcuReadReg_writeReg_self _ _ low, fun reg mem ne => ?_⟩
    have lowReg := lt_of_mem_regList mem
    rw [mcuReadReg_writeReg_of_ne _ _ low lowReg ne]
    rcases List.mem_iff_getElem.mp mem with ⟨i, lt, here⟩
    rcases storedBlock i lt with ⟨offset, at_⟩
    have load := loads.words i (by rw [sameList]; exact lt)
    have fetches : mcuFetch32 mcu₁.advanced = mcuFetch32 mcu₁ := fetch32_writeReg mcu₁ regPc _
    rw [fetches, start, same.fetch32 at_, words.words i lt] at load
    simp only [sameList, here] at load
    rw [← Option.some_inj.mp load]
    exact readReg_advanced mcu (lowReg.trans (show 8 < regPc by decide)).ne
  constructor
  · rintro ⟨mcu', step', restores⟩ mem
    rw [step] at step'
    cases step'
    have start := mcuReadReg_loadMcu stored (mcuReadReg mcu (baseReg stm)) ldm low
    have fetched₁ := fetched_loadMcu stored (baseReg ldm) (mcuReadReg mcu (baseReg stm)) ldm
    generalize isLater : loadMcu stored (baseReg ldm) (mcuReadReg mcu (baseReg stm)) ldm = mcu₁ at *
    have same : stored.SameRam mcu₁ := by
      rw [← isLater]
      exact ⟨rfl, rfl⟩
    rcases restores mcu₁ ⟨same.ram, same.length⟩ fetched₁ start with ⟨mcu₂, step₂, restored⟩
    rcases reload mcu₁ same fetched₁ start with ⟨mcu₂', step₂', base, _⟩
    rw [step₂] at step₂'
    cases step₂'
    rw [← base, restored _ mem]
  · intro kept
    refine ⟨_, step, fun mcu₁ same fetched₁ start => ?_⟩
    rcases reload mcu₁ ⟨same.ram, same.length⟩ fetched₁ start with ⟨mcu₂, step₂, base, others⟩
    refine ⟨mcu₂, step₂, fun reg mem => ?_⟩
    by_cases isBase : reg = baseReg ldm
    · rw [isBase, base]
      exact (kept (isBase ▸ mem)).symm
    · exact others reg mem isBase

end Block

/-- **Block transfers**: for every state, base register and list of low registers that is not empty,
with the block in the RAM, LDMIA loads the registers in ascending order and sets the base register to
its loaded word if it is in the list and else to the address behind the block, if and only if the
loaded word of a base register in the list is this address. And a list that STMIA has stored is
restored by an LDMIA from the same block if and only if the base register of the LDMIA is not in the
list or held this address. -/
theorem block_iff (pastTable : UInt32 → Bool) :
    (∀ (mcu : Mcu) (ldm : UInt16), EncodesLdmia ldm →
      mcuFetch16 mcu (mcuReadReg mcu regPc - 2) = some ldm →
      mcu.BlockInRam (mcuReadReg mcu (baseReg ldm)) (regList ldm).length →
      (LoadsBlock pastTable mcu ldm ↔ BaseKept mcu ldm)) ∧
    ∀ (mcu : Mcu) (stm ldm : UInt16), EncodesStmia stm → EncodesLdmia ldm →
      regList ldm = regList stm → baseReg stm ∉ regList stm →
      mcuFetch16 mcu (mcuReadReg mcu regPc - 2) = some stm →
      mcu.BlockInRam (mcuReadReg mcu (baseReg stm)) (regList stm).length →
      (RestoresBlock pastTable mcu stm ldm ↔ BaseRestored mcu stm ldm) := by
  constructor
  · intro mcu ldm encoded fetched block
    exact loadsBlock_iff pastTable encoded fetched block
  · intro mcu stm ldm encodedStm encodedLdm sameList _ fetched block
    exact restoresBlock_iff pastTable encodedStm encodedLdm sameList fetched block

/-- The start of the RAM in r0, which is also loaded by `ldmia r0!, {r0}`. -/
def blockMcu (instr : UInt16) : Mcu :=
  programMcu (fun reg => if reg = 0 then 0x10000000 else .ofNat (0x11 * reg)) instr 0

theorem blockInRam_blockMcu (instr : UInt16) {n : Nat} (few : n ≤ 3) :
    (blockMcu instr).BlockInRam 0x10000000 n := by
  intro i lt
  have same : (blockMcu instr).memDevAt = createdMcu.memDevAt := memDevAt_congr rfl
  rw [same]
  have small : i < 3 := lt.trans_le few
  interval_cases i
  · exact ⟨0, by decide⟩
  · exact ⟨4, by decide⟩
  · exact ⟨8, by decide⟩

theorem fetched_blockMcu (instr : UInt16) :
    mcuFetch16 (blockMcu instr) (mcuReadReg (blockMcu instr) regPc - 2) = some instr :=
  fetched_programMcu _ instr 0

/-- `ldmia r0!, {r1, r3, r7}` and `stmia r0!, {r1, r3, r7}`. -/
theorem block_iff_three :
    regList 0xC88A = [1, 3, 7] ∧ LoadsBlock (fun _ => false) (blockMcu 0xC88A) 0xC88A ∧
      RestoresBlock (fun _ => false) (blockMcu 0xC08A) 0xC08A 0xC88A := by
  have list : regList 0xC88A = [1, 3, 7] := by decide
  have both := block_iff fun _ => false
  have loads := both.1 (blockMcu 0xC88A) 0xC88A ⟨by decide, by decide⟩ (fetched_blockMcu 0xC88A)
    (blockInRam_blockMcu 0xC88A (by decide))
  have restores := both.2 (blockMcu 0xC08A) 0xC08A 0xC88A ⟨by decide, by decide⟩
    ⟨by decide, by decide⟩ (by decide) (by decide) (fetched_blockMcu 0xC08A)
    (blockInRam_blockMcu 0xC08A (by decide))
  -- the base register is in neither list
  refine ⟨list, loads.mpr fun mem => ?_, restores.mpr fun mem => ?_⟩
  · exact absurd mem (by decide)
  · exact absurd mem (by decide)

/-- `ldmia r0!, {r0}` loads 0, but leaves 0x10000004 in r0. -/
theorem not_loadsBlock_base : ¬ LoadsBlock (fun _ => false) (blockMcu 0xC801) 0xC801 := by
  have encoded : EncodesLdmia 0xC801 := ⟨by decide, by decide⟩
  rw [loadsBlock_iff (fun _ => false) encoded (fetched_blockMcu 0xC801)
    (blockInRam_blockMcu 0xC801 (by decide))]
  intro kept
  exact absurd (kept (by decide)) (by decide)

end TheFirmware.Simulator
