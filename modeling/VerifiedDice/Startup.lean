import VerifiedDice.Lib.ThumbCarry
import VerifiedDice.Memmap

/-!
# Startup

`Reset_Handler` of `startup_stm32h753xx.s`, with which every image begins, up to the call
of `SystemInit`: it copies the initial values of `.data` from flash and clears `.bss`. The
symbols are those of `STM32H753ZITx.ld`.
-/
namespace VerifiedDice.Startup

open ByteMemory ThumbCarry Assembly
open Thumb (Reg)

/-- `_estack`, `__RAM_END__ + 1`. -/
def estack : Word := dtcmStart + BitVec.ofNat 32 dtcmLength

/-- The sections of one image: whole words, `.data` and behind it `.bss` in DTCM, and the
initial values of `.data` in flash. -/
structure ImageSymbols where
  sidata : Word
  sdata : Word
  edata : Word
  sbss : Word
  ebss : Word
  dtcm_le : dtcmStart ≤ sdata
  data_le : sdata ≤ edata
  bss_behind : edata ≤ sbss
  bss_le : sbss ≤ ebss
  stack_behind : ebss ≤ estack
  dataWords : 4 ∣ (edata - sdata).toNat
  bssWords : 4 ∣ (ebss - sbss).toNat
  loadInFlash : ∀ i, i < (edata - sdata).toNat → InFlash (at_ sidata i)

variable (L : ImageSymbols)

def ImageSymbols.dataSize : Nat := (L.edata - L.sdata).toNat
def ImageSymbols.bssSize : Nat := (L.ebss - L.sbss).toNat

def ImageSymbols.InData (x : Addr) : Prop := Within L.sdata L.dataSize x
def ImageSymbols.InBss (x : Addr) : Prop := Within L.sbss L.bssSize x

instance (x : Addr) : Decidable (L.InData x) := inferInstanceAs (Decidable (Within _ _ x))

/-- `CopyDataInit` -/
def copyDataInit : List Instr :=
  [ .plain (.ldr .r3 L.sidata),
    .ldrReg .r3 .r3 .r1,
    .strReg .r3 .r0 .r1,
    .addsImm .r1 .r1 4 ]

/-- `LoopCopyDataInit` -/
def loopCopyDataInit : List Instr :=
  [ .plain (.ldr .r0 L.sdata),
    .plain (.ldr .r3 L.edata),
    .addsReg .r2 .r0 .r1,
    .cmp .r2 .r3 ]

/-- `FillZerobss` -/
def fillZerobss : List Instr :=
  [ .movs .r3 0,
    .plain (.str .r3 .r2 4) ]

/-- `LoopFillZerobss` -/
def loopFillZerobss : List Instr :=
  [ .plain (.ldr .r3 L.ebss),
    .cmp .r2 .r3 ]

def resetHandler : List Instr :=
  [ .plain (.ldr .sp estack),
    .movs .r1 0,
    .b 7 ] ++
  (copyDataInit L ++ (loopCopyDataInit L ++ [.bcc 3])) ++
  [ .plain (.ldr .r2 L.sbss),
    .b 16 ] ++
  (fillZerobss ++ (loopFillZerobss L ++ [.bcc 14]))

/-- The instructions before `bl SystemInit`. -/
def resetSteps : Nat :=
  3 + (9 * (L.dataSize / 4) + 5) + (2 + (5 * (L.bssSize / 4) + 3))

/-- What `SystemInit` finds. -/
structure Initialised (d d' : Data) : Prop where
  data : ∀ i, i < L.dataSize → d'.mem (at_ L.sdata i) = d.mem (at_ L.sidata i)
  bss : ∀ x, L.InBss x → d'.mem x = 0
  outside : ∀ x, ¬ L.InData x → ¬ L.InBss x → d'.mem x = d.mem x
  stack : d'.regs .sp = estack
  scratch : d'.regs .r0 = L.sdata ∧ d'.regs .r1 = L.edata - L.sdata ∧ d'.regs .r2 = L.ebss ∧
    d'.regs .r3 = L.ebss
  others : ∀ r ∉ [Reg.r0, .r1, .r2, .r3, .sp], d'.regs r = d.regs r
  flags : d'.zero = true ∧ d'.carry = true

/-! ## Layout -/

section Layout

variable {L} {x : Addr}

theorem inData_dtcm (h : L.InData x) : Within dtcmStart dtcmLength x := by
  have h0 := L.dtcm_le
  have h1 := L.data_le
  have h2 := L.bss_behind
  have h3 := L.bss_le
  have h4 := L.stack_behind
  have hstack : estack = 0x20020000#32 := rfl
  have hdtcm : dtcmStart = 0x20000000#32 := rfl
  have hlength : dtcmLength = 131072 := rfl
  simp only [ImageSymbols.InData, ImageSymbols.dataSize, Within, hstack, hdtcm, hlength] at *
  bv_omega

theorem inBss_dtcm (h : L.InBss x) : Within dtcmStart dtcmLength x := by
  have h0 := L.dtcm_le
  have h1 := L.data_le
  have h2 := L.bss_behind
  have h3 := L.bss_le
  have h4 := L.stack_behind
  have hstack : estack = 0x20020000#32 := rfl
  have hdtcm : dtcmStart = 0x20000000#32 := rfl
  have hlength : dtcmLength = 131072 := rfl
  simp only [ImageSymbols.InBss, ImageSymbols.bssSize, Within, hstack, hdtcm, hlength] at *
  bv_omega

theorem inData_not_inBss (h : L.InData x) : ¬ L.InBss x := by
  have h1 := L.data_le
  have h2 := L.bss_behind
  have h3 := L.bss_le
  simp only [ImageSymbols.InBss, ImageSymbols.bssSize, ImageSymbols.InData,
    ImageSymbols.dataSize, Within] at *
  bv_omega

theorem dtcm_notFlash (h : Within dtcmStart dtcmLength x) : ¬ InFlash x := by
  have h0 : dtcmStart = 0x20000000#32 := rfl
  have h1 : dtcmLength = 131072 := rfl
  have h2 : getFlashStart = 0x08000000#32 := rfl
  simp only [InFlash, Within, h0, h1, h2] at *
  bv_omega

/-- The copy does not write what it reads. -/
theorem load_apart {i : Nat} (hi : i < L.dataSize) : ¬ L.InData (at_ L.sidata i) :=
  fun h => dtcm_notFlash (inData_dtcm h) (L.loadInFlash i hi)

end Layout

/-! ## The copy loop -/

/-- `d'` is `d` after `k` rounds. -/
structure Copying (k : Nat) (d d' : Data) : Prop where
  mem : d'.mem = copied d.mem L.sdata L.sidata (4 * k)
  offset : d'.regs .r1 = BitVec.ofNat 32 (4 * k)
  others : ∀ r ∉ [Reg.r0, .r1, .r2, .r3], d'.regs r = d.regs r

theorem copyTest_effects (d : Data) :
    (effects machine (loopCopyDataInit L) d).mem = d.mem ∧
    (∀ r ∉ [Reg.r0, .r2, .r3], (effects machine (loopCopyDataInit L) d).regs r = d.regs r) ∧
    (effects machine (loopCopyDataInit L) d).regs .r0 = L.sdata ∧
    (effects machine (loopCopyDataInit L) d).carry = decide (L.edata ≤ L.sdata + d.regs .r1) := by
  refine ⟨rfl, ?_, rfl, rfl⟩
  intro r hr
  simp only [List.mem_cons, List.not_mem_nil, or_false, not_or] at hr
  obtain ⟨h0, h2, h3⟩ := hr
  simp [effects, loopCopyDataInit, machine, Instr.effect, Thumb.Instr.effect, h0, h2, h3]

section

variable {L}

theorem copyRound_mem (d : Data) : (turn machine (copyDataInit L) (loopCopyDataInit L) d).mem =
    storeWord d.mem (L.sdata + d.regs .r1) (loadWord d.mem (L.sidata + d.regs .r1)) := by
  simp [turn, effects, loopCopyDataInit, copyDataInit, machine, Instr.effect,
    Thumb.Instr.effect]

theorem copyRound_offset (d : Data) :
    (turn machine (copyDataInit L) (loopCopyDataInit L) d).regs .r1 = d.regs .r1 + 4 := by
  simp [turn, effects, loopCopyDataInit, copyDataInit, machine, Instr.effect,
    Thumb.Instr.effect]

theorem copyRound_others (d : Data) {r : Reg} (hr : r ∉ [Reg.r0, .r1, .r2, .r3]) :
    (turn machine (copyDataInit L) (loopCopyDataInit L) d).regs r = d.regs r := by
  simp only [List.mem_cons, List.not_mem_nil, or_false, not_or] at hr
  obtain ⟨h0, h1, h2, h3⟩ := hr
  simp [turn, effects, loopCopyDataInit, copyDataInit, machine, Instr.effect,
    Thumb.Instr.effect, h0, h1, h2, h3]

/-- One more word. -/
theorem Copying.next {k : Nat} {d d' : Data} (h : Copying L k d d')
    (hk : 4 * k + 4 ≤ L.dataSize) :
    Copying L (k + 1) d (turn machine (copyDataInit L) (loopCopyDataInit L) d') where
  mem := by
    rw [copyRound_mem, h.mem, h.offset]
    exact copied_next hk (Nat.le_of_lt (L.edata - L.sdata).isLt) fun i hi => load_apart hi
  offset := by
    rw [copyRound_offset, h.offset, Nat.mul_add, BitVec.ofNat_add]
    rfl
  others := fun r hr => (copyRound_others d' hr).trans (h.others r hr)

theorem copying_rounds {d : Data} (hr1 : d.regs .r1 = 0) {k : Nat} (hk : 4 * k ≤ L.dataSize) :
    Copying L k d ((turn machine (copyDataInit L) (loopCopyDataInit L))^[k] d) := by
  induction k with
  | zero => exact ⟨(copied_zero _ _ _).symm, hr1, fun _ _ => rfl⟩
  | succ k ih =>
    rw [Function.iterate_succ_apply']
    exact (ih (by omega)).next (by omega)

/-- The carry says whether the last word has been copied. -/
theorem copyTest_carry {k : Nat} {d d' : Data} (h : Copying L k d d')
    (hk : 4 * k ≤ L.dataSize) :
    (effects machine (loopCopyDataInit L) d').carry = decide (L.dataSize ≤ 4 * k) := by
  have hle := L.data_le
  rw [(copyTest_effects L d').2.2.2, h.offset, decide_eq_decide]
  simp only [ImageSymbols.dataSize] at *
  have hlt := (L.edata - L.sdata).isLt
  bv_omega

theorem copyLoop_placed : TestLoop machine (resetHandler L) 3 (copyDataInit L)
    (loopCopyDataInit L) (.bcc 3) fun d => !d.carry where
  bodyStraight := by
    simp [copyDataInit, Straight, machine, Instr.next, Thumb.Instr.next, plainNext]
  testStraight := by
    simp [loopCopyDataInit, Straight, machine, Instr.next, Thumb.Instr.next, plainNext]
  keeps _ := rfl
  next d pc := by
    cases hc : d.carry <;> simp [machine, Instr.next, hc]
  placed := ⟨(resetHandler L).drop 12, rfl⟩

/-- All words of `.data` are copied, in `9` instructions each. -/
theorem copyLoop_run {d : Data} (hr1 : d.regs .r1 = 0) :
    ∃ d', Assembly.run machine (resetHandler L) (9 * (L.dataSize / 4) + 5) ⟨d, .inside 7⟩ =
        ⟨d', .inside 12⟩ ∧
      d'.mem = copied d.mem L.sdata L.sidata L.dataSize ∧
      d'.regs .r0 = L.sdata ∧ d'.regs .r1 = L.edata - L.sdata ∧
      ∀ r ∉ [Reg.r0, .r1, .r2, .r3], d'.regs r = d.regs r := by
  have hwords : 4 * (L.dataSize / 4) = L.dataSize := Nat.mul_div_cancel' L.dataWords
  have hcarry : ∀ k, k ≤ L.dataSize / 4 → (effects machine (loopCopyDataInit L)
      ((turn machine (copyDataInit L) (loopCopyDataInit L))^[k] d)).carry =
        decide (L.dataSize ≤ 4 * k) :=
    fun k hk => copyTest_carry (copying_rounds hr1 (by omega)) (by omega)
  have hdone := copying_rounds hr1 (Nat.le_of_eq hwords)
  obtain ⟨hmem, hregs, hr0, _⟩ := copyTest_effects L
    ((turn machine (copyDataInit L) (loopCopyDataInit L))^[L.dataSize / 4] d)
  refine ⟨_, copyLoop_placed.ends ?_ ?_, ?_, hr0, ?_, ?_⟩
  · intro k hk
    simp only [hcarry k (Nat.le_of_lt hk), Bool.not_eq_true', decide_eq_false_iff_not]
    omega
  · simp only [hcarry _ (Nat.le_refl _), Bool.not_eq_false', decide_eq_true_eq]
    omega
  · rw [hmem, hdone.mem, hwords]
  · rw [hregs .r1 (by decide), hdone.offset, hwords, ImageSymbols.dataSize, BitVec.ofNat_toNat,
      BitVec.setWidth_eq]
  · intro r hr
    rw [hregs r fun h => hr (List.mem_cons.mpr ((List.mem_cons.mp h).imp_right
      (List.mem_cons_of_mem _)))]
    exact hdone.others r hr

end

/-! ## The zero loop -/

/-- `d'` is `d` after `k` rounds. -/
structure Zeroing (k : Nat) (d d' : Data) : Prop where
  mem : d'.mem = fill d.mem L.sbss (4 * k) 0
  pointer : d'.regs .r2 = at_ L.sbss (4 * k)
  others : ∀ r ∉ [Reg.r2, .r3], d'.regs r = d.regs r

section

variable {L}

theorem zeroTest_effects (d : Data) :
    (effects machine (loopFillZerobss L) d).mem = d.mem ∧
    (∀ r ≠ .r3, (effects machine (loopFillZerobss L) d).regs r = d.regs r) ∧
    (effects machine (loopFillZerobss L) d).regs .r3 = L.ebss ∧
    (effects machine (loopFillZerobss L) d).zero = decide (d.regs .r2 - L.ebss = 0) ∧
    (effects machine (loopFillZerobss L) d).carry = decide (L.ebss ≤ d.regs .r2) := by
  refine ⟨rfl, ?_, rfl, rfl, rfl⟩
  intro r hr
  simp [effects, loopFillZerobss, machine, Instr.effect, Thumb.Instr.effect, hr]

theorem zeroRound_mem (d : Data) : (turn machine fillZerobss (loopFillZerobss L) d).mem =
    storeWord d.mem (d.regs .r2) 0 := by
  simp [turn, effects, loopFillZerobss, fillZerobss, machine, Instr.effect, Thumb.Instr.effect]

theorem zeroRound_pointer (d : Data) :
    (turn machine fillZerobss (loopFillZerobss L) d).regs .r2 = d.regs .r2 + 4 := by
  simp [turn, effects, loopFillZerobss, fillZerobss, machine, Instr.effect, Thumb.Instr.effect]

theorem zeroRound_others (d : Data) {r : Reg} (hr : r ∉ [Reg.r2, .r3]) :
    (turn machine fillZerobss (loopFillZerobss L) d).regs r = d.regs r := by
  simp only [List.mem_cons, List.not_mem_nil, or_false, not_or] at hr
  obtain ⟨h2, h3⟩ := hr
  simp [turn, effects, loopFillZerobss, fillZerobss, machine, Instr.effect, Thumb.Instr.effect,
    h2, h3]

theorem storeWord_zero (m : Memory) (a : Addr) : storeWord m a 0 = fill m a 4 0 := by
  have hbytes : bytesOfWord 0 = List.replicate 4 0 := by decide
  rw [storeWord, hbytes, write_replicate]

theorem Zeroing.next {k : Nat} {d d' : Data} (h : Zeroing L k d d')
    (hk : 4 * k + 4 ≤ 2 ^ 32) :
    Zeroing L (k + 1) d (turn machine fillZerobss (loopFillZerobss L) d') where
  mem := by
    rw [zeroRound_mem, h.mem, h.pointer, storeWord_zero, fill_append hk, Nat.mul_add]
  pointer := by
    rw [zeroRound_pointer, h.pointer, Nat.mul_add]
    exact at_at L.sbss (4 * k) 4
  others := fun r hr => (zeroRound_others d' hr).trans (h.others r hr)

theorem zeroing_rounds {d : Data} (hr2 : d.regs .r2 = L.sbss) {k : Nat} (hk : 4 * k ≤ 2 ^ 32) :
    Zeroing L k d ((turn machine fillZerobss (loopFillZerobss L))^[k] d) := by
  induction k with
  | zero =>
    refine ⟨(fill_zero _ _ _).symm, ?_, fun _ _ => rfl⟩
    rw [Nat.mul_zero, at_zero]
    exact hr2
  | succ k ih =>
    rw [Function.iterate_succ_apply']
    exact (ih (by omega)).next (by omega)

/-- The carry says whether the pointer is at the end. -/
theorem zeroTest_carry {k : Nat} {d d' : Data} (h : Zeroing L k d d')
    (hk : 4 * k ≤ L.bssSize) :
    (effects machine (loopFillZerobss L) d').carry = decide (L.bssSize ≤ 4 * k) := by
  have hle := L.bss_le
  have hlt := (L.ebss - L.sbss).isLt
  rw [(zeroTest_effects d').2.2.2.2, h.pointer, decide_eq_decide, at_]
  simp only [ImageSymbols.bssSize] at *
  bv_omega

theorem zeroLoop_placed : TestLoop machine (resetHandler L) 14 fillZerobss
    (loopFillZerobss L) (.bcc 14) fun d => !d.carry where
  bodyStraight := by
    simp [fillZerobss, Straight, machine, Instr.next, Thumb.Instr.next, plainNext]
  testStraight := by
    simp [loopFillZerobss, Straight, machine, Instr.next, Thumb.Instr.next, plainNext]
  keeps _ := rfl
  next d pc := by
    cases hc : d.carry <;> simp [machine, Instr.next, hc]
  placed := ⟨[], rfl⟩

/-- All words of `.bss` are cleared, in `5` instructions each. -/
theorem zeroLoop_run {d : Data} (hr2 : d.regs .r2 = L.sbss) :
    ∃ d', Assembly.run machine (resetHandler L) (5 * (L.bssSize / 4) + 3) ⟨d, .inside 16⟩ =
        ⟨d', .inside 19⟩ ∧
      d'.mem = fill d.mem L.sbss L.bssSize 0 ∧ d'.regs .r2 = L.ebss ∧ d'.regs .r3 = L.ebss ∧
      (∀ r ∉ [Reg.r2, .r3], d'.regs r = d.regs r) ∧ d'.zero = true ∧ d'.carry = true := by
  have hwords : 4 * (L.bssSize / 4) = L.bssSize := Nat.mul_div_cancel' L.bssWords
  have hlt : L.bssSize < 2 ^ 32 := (L.ebss - L.sbss).isLt
  have hcarry : ∀ k, k ≤ L.bssSize / 4 → (effects machine (loopFillZerobss L)
      ((turn machine fillZerobss (loopFillZerobss L))^[k] d)).carry =
        decide (L.bssSize ≤ 4 * k) :=
    fun k hk => zeroTest_carry (zeroing_rounds hr2 (by omega)) (by omega)
  have hdone := zeroing_rounds (L := L) hr2 (k := L.bssSize / 4) (by omega)
  obtain ⟨hmem, hregs, hr3, hzero, _⟩ := zeroTest_effects (L := L)
    ((turn machine fillZerobss (loopFillZerobss L))^[L.bssSize / 4] d)
  have hend : at_ L.sbss (4 * (L.bssSize / 4)) = L.ebss := by
    rw [hwords]
    exact at_sub L.sbss L.ebss
  refine ⟨_, zeroLoop_placed.ends ?_ ?_, ?_, ?_, hr3, ?_, ?_, ?_⟩
  · intro k hk
    simp only [hcarry k (Nat.le_of_lt hk), Bool.not_eq_true', decide_eq_false_iff_not]
    omega
  · simp only [hcarry _ (Nat.le_refl _), Bool.not_eq_false', decide_eq_true_eq]
    omega
  · rw [hmem, hdone.mem, hwords]
  · rw [hregs .r2 (by decide), hdone.pointer, hend]
  · intro r hr
    rw [hregs r fun h => hr (by simp [h])]
    exact hdone.others r hr
  · rw [hzero, hdone.pointer, hend, BitVec.sub_self]
    rfl
  · rw [hcarry _ (Nat.le_refl _), hwords, decide_eq_true (Nat.le_refl _)]

end

/-! ## The whole routine -/

theorem start_run (d : Data) :
    ∃ d', Assembly.run machine (resetHandler L) 3 ⟨d, .inside 0⟩ = ⟨d', .inside 7⟩ ∧
      d'.mem = d.mem ∧ d'.regs .r1 = 0 ∧ d'.regs .sp = estack ∧
      ∀ r ∉ [Reg.r1, .sp], d'.regs r = d.regs r := by
  refine ⟨effects machine [.plain (.ldr .sp estack), .movs .r1 0] d, rfl, rfl, rfl, rfl, ?_⟩
  intro r hr
  simp only [List.mem_cons, List.not_mem_nil, or_false, not_or] at hr
  obtain ⟨h1, hsp⟩ := hr
  simp [effects, machine, Instr.effect, Thumb.Instr.effect, h1, hsp]

theorem between_run (d : Data) :
    ∃ d', Assembly.run machine (resetHandler L) 2 ⟨d, .inside 12⟩ = ⟨d', .inside 16⟩ ∧
      d'.mem = d.mem ∧ d'.regs .r2 = L.sbss ∧ ∀ r ≠ .r2, d'.regs r = d.regs r := by
  refine ⟨effects machine [.plain (.ldr .r2 L.sbss)] d, rfl, rfl, rfl, ?_⟩
  intro r hr
  simp [effects, machine, Instr.effect, Thumb.Instr.effect, hr]

/-- Both loops end; only `lr` and `r4` to `r12` are not set. -/
theorem resetHandler_run (d : Data) :
    ∃ d', Assembly.run machine (resetHandler L) (resetSteps L) ⟨d, .inside 0⟩ =
        ⟨d', .inside (resetHandler L).length⟩ ∧ Initialised L d d' := by
  obtain ⟨d1, hrun1, hmem1, hr1, hsp1, hothers1⟩ := start_run L d
  obtain ⟨d2, hrun2, hmem2, hr0, hoffset, hothers2⟩ := copyLoop_run (L := L) hr1
  obtain ⟨d3, hrun3, hmem3, hr2, hothers3⟩ := between_run L d2
  obtain ⟨d4, hrun4, hmem4, hend2, hend3, hothers4, hflags⟩ := zeroLoop_run (L := L) hr2
  have hsize : L.dataSize ≤ 2 ^ 32 := Nat.le_of_lt (L.edata - L.sdata).isLt
  have hmem : d4.mem = fill (copied d.mem L.sdata L.sidata L.dataSize) L.sbss L.bssSize 0 := by
    rw [hmem4, hmem3, hmem2, hmem1]
  refine ⟨d4, ?_, ?_, ?_, ?_, ?_, ⟨?_, ?_, hend2, hend3⟩, ?_, hflags⟩
  · rw [resetSteps, run_add, run_add 3, hrun1, hrun2, run_add, hrun3, hrun4]
    rfl
  · intro i hi
    have hin : L.InData (at_ L.sdata i) := (within_at _ (by omega)).mpr hi
    rw [hmem, fill_outside (inData_not_inBss hin), copied_at _ _ _ hi hsize]
  · intro x hx
    rw [hmem, fill_inside hx]
  · intro x hdata hbss
    rw [hmem, fill_outside hbss, copied_outside hdata]
  · rw [hothers4 .sp (by decide), hothers3 .sp (by decide), hothers2 .sp (by decide), hsp1]
  · rw [hothers4 .r0 (by decide), hothers3 .r0 (by decide), hr0]
  · rw [hothers4 .r1 (by decide), hothers3 .r1 (by decide), hoffset]
  · intro r hr
    simp only [List.mem_cons, List.not_mem_nil, or_false, not_or] at hr
    obtain ⟨h0, h1, h2, h3, hsp⟩ := hr
    rw [hothers4 r (by simp [h2, h3]), hothers3 r h2, hothers2 r (by simp [h0, h1, h2, h3]),
      hothers1 r (by simp [h1, hsp])]

/-- The state in which `SystemInit` is called. -/
def atSystemInit (d : Data) : Data :=
  (Assembly.run machine (resetHandler L) (resetSteps L) ⟨d, .inside 0⟩).data

theorem atSystemInit_initialised (d : Data) : Initialised L d (atSystemInit L d) := by
  obtain ⟨d', hrun, hinit⟩ := resetHandler_run L d
  rw [atSystemInit, hrun]
  exact hinit

/-- **C code starts from its initial values.** From any registers and any memory control
comes to the call of `SystemInit` with an empty stack. Every object in `.data` then has the
value that flash holds for it and every object in `.bss` is zero, while an object elsewhere,
a variable on the stack of the program before the reset for one, is as it was. -/
theorem objects_initialised (d : Data) (a : Addr) (size : Nat) :
    (Assembly.run machine (resetHandler L) (resetSteps L) ⟨d, .inside 0⟩).control =
      .inside (resetHandler L).length ∧
    (atSystemInit L d).regs .sp = estack ∧
    (∀ i, a = at_ L.sdata i → i + size ≤ L.dataSize →
      bytesAt (atSystemInit L d).mem a size = bytesAt d.mem (at_ L.sidata i) size) ∧
    ((∀ i, i < size → L.InBss (at_ a i)) →
      bytesAt (atSystemInit L d).mem a size = List.replicate size 0) ∧
    ((∀ i, i < size → ¬ L.InData (at_ a i) ∧ ¬ L.InBss (at_ a i)) →
      bytesAt (atSystemInit L d).mem a size = bytesAt d.mem a size) := by
  have hinit := atSystemInit_initialised L d
  refine ⟨?_, hinit.stack, ?_, ?_, ?_⟩
  · obtain ⟨d', hrun, _⟩ := resetHandler_run L d
    rw [hrun]
  · rintro i rfl hfit
    apply bytesAt_congr
    intro j hj
    rw [at_at, at_at, hinit.data (i + j) (by omega)]
  · intro hbss
    apply List.ext_getElem (by simp)
    intro i h1 h2
    rw [getElem_bytesAt, List.getElem_replicate]
    exact hinit.bss _ (hbss i (by simpa using h1))
  · intro hout
    apply bytesAt_congr
    intro i hi
    exact hinit.outside _ (hout i hi).1 (hout i hi).2

end VerifiedDice.Startup
