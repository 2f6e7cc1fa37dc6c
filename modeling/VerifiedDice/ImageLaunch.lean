import VerifiedDice.Lib.Thumb
import VerifiedDice.Memmap

/-!
# Launching the next image

`LaunchImageAsm` of `image_launch_asm.s`, which every image runs last: it clears the
memory that the image worked in and jumps to the trampoline. It runs from flash, out
of the regions it clears, with interrupts disabled by `LaunchImage`.
-/
namespace VerifiedDice.ImageLaunch

open ByteMemory Thumb Assembly

/-- A memory region of the linkerscript: "the length of the RAM section is always at
least a multiple of 4". -/
structure RamRegion where
  start : Word
  length : Word
  nonempty : length ≠ 0
  wholeWords : 4 ∣ length.toNat

def RamRegion.Has (R : RamRegion) (x : Addr) : Prop := Within R.start R.length.toNat x

/-- The symbols defined in the linkerscript. -/
structure RamSymbols where
  dtcm : RamRegion
  sram123 : RamRegion

/-- `memmap_ram.ld`. -/
def memmapRam : RamSymbols where
  dtcm := ⟨dtcmStart, BitVec.ofNat 32 dtcmLength, by decide, by decide⟩
  sram123 := ⟨0x30000000, BitVec.ofNat 32 (288 * 1024), by decide, by decide⟩

/-- `r0` is the argument for the trampoline, `r1` the trampoline. -/
def launchImageAsm (L : RamSymbols) : List Instr :=
  [ -- Clear the DTCM in 32-bit increments
    .ldr .r7 L.dtcm.start,
    .ldr .r8 L.dtcm.length,
    .mov .r6 0,
    -- 1:
    .str .r6 .r7 4,
    .subs .r8 4,
    .bne 3,
    -- Also, clear SRAM1, SRAM2 and SRAM3
    .ldr .r7 L.sram123.start,
    .ldr .r8 L.sram123.length,
    .mov .r6 0,
    -- 2:
    .str .r6 .r7 4,
    .subs .r8 4,
    .bne 9,
    -- Clear all registers
    .mov .r2 0,
    .mov .r3 0,
    .mov .r4 0,
    .mov .r5 0,
    .mov .r6 0,
    .mov .r7 0,
    .mov .r8 0,
    .mov .r9 0,
    .mov .r10 0,
    .mov .r11 0,
    .mov .r12 0,
    -- Jump to trampoline
    .movPc .r1 ]

/-- The instructions until control leaves. -/
def launchSteps (L : RamSymbols) : Nat :=
  (3 + 3 * (L.dtcm.length.toNat / 4)) + (3 + 3 * (L.sram123.length.toNat / 4)) + 11 + 1

def clearedRegs : List Reg :=
  [.r2, .r3, .r4, .r5, .r6, .r7, .r8, .r9, .r10, .r11, .r12]

/-- What of `d` is left in `d'`: the other memory, and the registers that are not cleared. -/
structure Erased (L : RamSymbols) (d d' : Data) : Prop where
  dtcm : ∀ x, L.dtcm.Has x → d'.mem x = 0
  sram123 : ∀ x, L.sram123.Has x → d'.mem x = 0
  outside : ∀ x, ¬ L.dtcm.Has x → ¬ L.sram123.Has x → d'.mem x = d.mem x
  cleared : ∀ r ∈ clearedRegs, d'.regs r = 0
  kept : ∀ r ∉ clearedRegs, d'.regs r = d.regs r

/-- What the trampoline finds after an entry with `d`. -/
structure Launched (L : RamSymbols) (d : Data) (s : State Data Word) : Prop where
  erased : Erased L d s.data
  argument : s.data.regs .r0 = d.regs .r0
  trampoline : s.control = .left (branchWritePC (d.regs .r1))

/-! ## One region -/

/-- The part of the code at `i` that clears one region. -/
def clearRegion (i : Nat) (R : RamRegion) : List Instr :=
  [.ldr .r7 R.start, .ldr .r8 R.length, .mov .r6 0] ++ (fillBody .r6 .r7 .r8 ++ [.bne (i + 3)])

structure RegionCleared (R : RamRegion) (d d' : Data) : Prop where
  mem : d'.mem = fill d.mem R.start R.length.toNat 0
  others : ∀ r, r ≠ .r6 → r ≠ .r7 → r ≠ .r8 → d'.regs r = d.regs r

theorem RamRegion.exists_words (R : RamRegion) : ∃ n, R.length.toNat = 4 * (n + 1) := by
  obtain ⟨k, hk⟩ := R.wholeWords
  have hpos : R.length.toNat ≠ 0 := fun h => R.nonempty (BitVec.eq_of_toNat_eq h)
  exact ⟨k - 1, by omega⟩

theorem clearRegion_run {code : List Instr} {i : Nat} {R : RamRegion}
    (h : Placed code i (clearRegion i R)) (d : Data) :
    ∃ d', run machine code (3 + 3 * (R.length.toNat / 4)) ⟨d, .inside i⟩ = ⟨d', .inside (i + 6)⟩ ∧
      RegionCleared R d d' := by
  obtain ⟨n, hn⟩ := R.exists_words
  have hstraight : ∀ x ∈ [Instr.ldr .r7 R.start, .ldr .r8 R.length, .mov .r6 0],
      Straight machine x := by
    simp [Straight, machine, Instr.next]
  have hloop : Loop code (i + 3) (fillBody .r6 .r7 .r8) :=
    loop_of_placed (fillBody_straight _ _ _) h.right
  obtain ⟨d', hrun, hfilled⟩ := fillLoop_ends (n := n) (b := 0)
    (d := effects machine [.ldr .r7 R.start, .ldr .r8 R.length, .mov .r6 0] d) hloop (by decide)
    (by decide) (by decide) (by simp [effects, machine, Instr.effect]; decide)
    (by simpa [effects, machine, Instr.effect] using hn)
  have hwords : R.length.toNat / 4 = n + 1 := by omega
  refine ⟨d', ?_, ?_, ?_⟩
  · rw [hwords, run_add]
    exact (congrArg _ (run_block hstraight h.left d)).trans hrun
  · rw [hfilled.mem, hn]
    simp [effects, machine, Instr.effect]
  · intro r h6 h7 h8
    rw [hfilled.others r h7 h8]
    simp [effects, machine, Instr.effect, h6, h7, h8]

/-! ## The whole routine -/

variable (L : RamSymbols)

theorem launchImageAsm_dtcm : Placed (launchImageAsm L) 0 (clearRegion 0 L.dtcm) :=
  ⟨(launchImageAsm L).drop 6, rfl⟩

theorem launchImageAsm_sram123 : Placed (launchImageAsm L) 6 (clearRegion 6 L.sram123) :=
  ⟨(launchImageAsm L).drop 12, rfl⟩

theorem launchImageAsm_registers :
    Placed (launchImageAsm L) 12 (clearedRegs.map fun r => .mov r 0) :=
  ⟨[.movPc .r1], rfl⟩

/-- Two regions filled one after the other, and the registers behind them. -/
theorem erased_of_regions {d d1 d2 : Data} (h1 : RegionCleared L.dtcm d d1)
    (h2 : RegionCleared L.sram123 d1 d2) :
    Erased L d { d2 with regs := fun r => if r ∈ clearedRegs then 0 else d2.regs r } where
  dtcm := by
    intro x hx
    by_cases hsram : L.sram123.Has x
    · rw [h2.mem, fill_inside hsram]
    · rw [h2.mem, fill_outside hsram, h1.mem, fill_inside hx]
  sram123 := by
    intro x hx
    rw [h2.mem, fill_inside hx]
  outside := by
    intro x hdtcm hsram
    rw [h2.mem, fill_outside hsram, h1.mem, fill_outside hdtcm]
  cleared := fun r hr => if_pos hr
  kept := by
    intro r hr
    have hne : ∀ q ∈ clearedRegs, r ≠ q := fun q hq he => hr (he ▸ hq)
    have h6 : r ≠ .r6 := hne _ (by decide)
    have h7 : r ≠ .r7 := hne _ (by decide)
    have h8 : r ≠ .r8 := hne _ (by decide)
    simp only [hr, if_false]
    rw [h2.others r h6 h7 h8, h1.others r h6 h7 h8]

/-- All that happens before the jump. -/
theorem launchImageAsm_erases (d : Data) :
    ∃ d', run machine (launchImageAsm L) (launchSteps L - 1) ⟨d, .inside 0⟩ = ⟨d', .inside 23⟩ ∧
      Erased L d d' := by
  obtain ⟨d1, hrun1, hdtcm⟩ := clearRegion_run (launchImageAsm_dtcm L) d
  obtain ⟨d2, hrun2, hsram⟩ := clearRegion_run (launchImageAsm_sram123 L) d1
  have hrun3 := run_block (movs_straight clearedRegs 0) (launchImageAsm_registers L) d2
  rw [effects_movs] at hrun3
  refine ⟨_, ?_, erased_of_regions L hdtcm hsram⟩
  rw [launchSteps, Nat.add_sub_cancel, run_add, run_add, hrun1, hrun2]
  exact hrun3

/-- **The previous image's working memory is erased.** From any registers and any
memory, both loops end, control stays in the routine until its last instruction and
then goes to the trampoline, which finds both regions and `r2` to `r12` zero, its
argument in `r0` and every other byte as it was. -/
theorem launchImageAsm_launches (d : Data) :
    (∀ n, n < launchSteps L →
      ∃ pc, (run machine (launchImageAsm L) n ⟨d, .inside 0⟩).control = .inside pc) ∧
    ∀ n, launchSteps L ≤ n → Launched L d (run machine (launchImageAsm L) n ⟨d, .inside 0⟩) := by
  obtain ⟨d', hrun, herased⟩ := launchImageAsm_erases L d
  constructor
  · intro n hn
    exact inside_before (by rw [hrun]) (Nat.le_sub_one_of_lt hn)
  · intro n hn
    obtain ⟨k, rfl⟩ := Nat.exists_eq_add_of_le hn
    have hjump : run machine (launchImageAsm L) (launchSteps L) ⟨d, .inside 0⟩ =
        ⟨d', .left (branchWritePC (d'.regs .r1))⟩ := by
      have hone : launchSteps L = launchSteps L - 1 + 1 := rfl
      rw [hone, run_add, hrun]
      rfl
    have hgone : (run machine (launchImageAsm L) (launchSteps L) ⟨d, .inside 0⟩).control =
        .left (branchWritePC (d.regs .r1)) := by
      rw [hjump, herased.kept .r1 (by decide)]
    rw [run_add, run_left hgone]
    exact ⟨hjump ▸ herased, hjump ▸ herased.kept .r0 (by decide), hgone⟩

/-! ## The device -/

/-- Registers and memory in use, about to launch an image at 0x08060800 through a
trampoline whose address has its Thumb bit set. -/
def busyData : Data where
  regs := fun r => if r = .r0 then 0x08060800 else if r = .r1 then 0x08020C01 else 0xFFFFFFFF
  zero := false
  mem := fun _ => 0xA5

theorem busyData_launched :
    Launched memmapRam busyData
      (run machine (launchImageAsm memmapRam) 319506 ⟨busyData, .inside 0⟩) ∧
    branchWritePC (busyData.regs .r1) = 0x08020C00 :=
  ⟨(launchImageAsm_launches memmapRam busyData).2 319506 (by decide), by decide⟩

/-- `platform_zeroize_stack` and `disable_uds` are empty: "each layer clears their
stack and zeroes the registers before jumping to the next layer". -/
def platformZeroizeStack (m : Memory) : Memory := m
def disableUds (m : Memory) : Memory := m

/-- An object on the stack or in `.bss`, such as the secret that `read_uds` copied, is
erased by the launch and not by the two functions that would be the place for it. -/
theorem dtcmObject_erased {size : Nat} (o : DtcmObject size) (d : Data) (n : Nat)
    (hn : launchSteps memmapRam ≤ n) :
    bytesAt (disableUds (platformZeroizeStack d.mem)) o.addr size = bytesAt d.mem o.addr size ∧
    bytesAt (run machine (launchImageAsm memmapRam) n ⟨d, .inside 0⟩).data.mem o.addr size =
      List.replicate size 0 := by
  refine ⟨rfl, ?_⟩
  have hdtcm := ((launchImageAsm_launches memmapRam d).2 n hn).erased.dtcm
  apply List.ext_getElem (by simp)
  intro i h1 h2
  rw [getElem_bytesAt, List.getElem_replicate]
  exact hdtcm _ (o.inside i (by simpa using h1))

end VerifiedDice.ImageLaunch
