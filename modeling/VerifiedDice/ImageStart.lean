import VerifiedDice.ImageLaunch
import VerifiedDice.Startup

/-!
# From one image to the next

What `LaunchImage` hands over: `LaunchImageAsm` erases and jumps to
`LaunchImageTrampoline`, which enters the image through its vector table, and
`Reset_Handler` of that image runs up to its call of `SystemInit`. Interrupts are disabled
all the while, and the three routines are in flash. The state is that of the core registers,
the flags and the memory; the floating-point registers, which none of the three touches, are
not part of it.
-/
namespace VerifiedDice.ImageStart

open ByteMemory ThumbCarry ImageLaunch Startup
open Thumb (Reg branchWritePC)

def launchImageTrampoline : List Instr :=
  [ .ldrAt .sp .r0 0,
    .ldrPc .r0 4 ]

/-- Where the vector table at `base` enters its image. -/
def resetAddress (m : Memory) (base : Addr) : Addr := branchWritePC (loadWord m (at_ base 4))

/-- The first two entries of a vector table, the second with its Thumb bit. -/
structure VectorTable (m : Memory) (base : Addr) : Prop where
  inFlash : ∀ i, i < 8 → InFlash (at_ base i)
  thumb : (loadWord m (at_ base 4)).getLsbD 0 = true

/-- `LaunchImageAsm` erases the byte. -/
def IsErased (x : Addr) : Prop := memmapRam.dtcm.Has x ∨ memmapRam.sram123.Has x

instance (x : Addr) : Decidable (IsErased x) :=
  inferInstanceAs (Decidable (Within _ _ x ∨ Within _ _ x))

/-- The end of `LaunchImageAsm` entered with `d`. -/
def launchEnd (d : Thumb.Data) : Assembly.State Thumb.Data Word :=
  Assembly.run Thumb.machine (launchImageAsm memmapRam) (launchSteps memmapRam) ⟨d, .inside 0⟩

/-- The end of the trampoline behind it. -/
def trampolineEnd (d : Thumb.Data) (carry : Bool) : Assembly.State Data Target :=
  Assembly.run machine launchImageTrampoline 2 ⟨⟨(launchEnd d).data, carry⟩, .inside 0⟩

variable (L : ImageSymbols)

/-- The call of `SystemInit` in the image of `L` behind both. -/
def nextSystemInit (d : Thumb.Data) (carry : Bool) : Data :=
  atSystemInit L (trampolineEnd d carry).data

/-! ## A fresh start -/

def startMemory (m : Memory) : Memory := fun x =>
  if L.InData x then m (at_ L.sidata (x - L.sdata).toNat)
  else if IsErased x then 0
  else m x

def startRegs (lr : Word) : Reg → Word
  | .r0 => L.sdata
  | .r1 => L.edata - L.sdata
  | .r2 => L.ebss
  | .r3 => L.ebss
  | .sp => estack
  | .lr => lr
  | _ => 0

/-- The image of `L` at its call of `SystemInit`, behind flash and shared memory as in `m`. -/
def startData (m : Memory) (lr : Word) : Data where
  regs := startRegs L lr
  zero := true
  mem := startMemory L m
  carry := true

section

variable {L} {m m' : Memory} {x : Addr}

theorem flash_not_erased (h : InFlash x) : ¬ IsErased x := by
  have h0 : memmapRam.dtcm.start = 0x20000000#32 := rfl
  have h1 : memmapRam.dtcm.length.toNat = 131072 := rfl
  have h2 : memmapRam.sram123.start = 0x30000000#32 := rfl
  have h3 : memmapRam.sram123.length.toNat = 294912 := rfl
  have h4 : getFlashStart = 0x08000000#32 := rfl
  simp only [IsErased, RamRegion.Has, InFlash, Within, h0, h1, h2, h3, h4] at *
  bv_omega

theorem erased_of_bss (h : L.InBss x) : IsErased x := Or.inl (inBss_dtcm h)

/-- Nothing erased is read. -/
theorem startMemory_congr (h : AgreeOn (fun x => ¬ IsErased x) m m') :
    startMemory L m' = startMemory L m := by
  funext x
  unfold startMemory
  split
  · rename_i hdata
    exact h _ (flash_not_erased (L.loadInFlash _ hdata))
  · split
    · rfl
    · rename_i hkept
      exact h x hkept

end

/-! ## The chain -/

/-- The last instruction behind both loops. -/
theorem launchImageAsm_jumps (d : Thumb.Data) :
    ∃ d', launchEnd d = ⟨d', .left (branchWritePC (d.regs .r1))⟩ ∧ Erased memmapRam d d' := by
  obtain ⟨d', hrun, herased⟩ := launchImageAsm_erases memmapRam d
  refine ⟨d', ?_, herased⟩
  have hone : launchSteps memmapRam = launchSteps memmapRam - 1 + 1 := rfl
  rw [launchEnd, hone, Assembly.run_add, hrun, ← herased.kept .r1 (by decide)]
  rfl

theorem mem_not_erased {d d' : Thumb.Data} (h : Erased memmapRam d d') {x : Addr}
    (hx : ¬ IsErased x) : d'.mem x = d.mem x :=
  h.outside x (fun hd => hx (Or.inl hd)) fun hs => hx (Or.inr hs)

/-- The memory that `Reset_Handler` makes of what `LaunchImageAsm` leaves. -/
theorem initialised_startMemory {d d1 : Thumb.Data} {d2 d3 : Data} (he : Erased memmapRam d d1)
    (hmem : d2.mem = d1.mem) (hi : Initialised L d2 d3) : d3.mem = startMemory L d.mem := by
  funext x
  unfold startMemory
  by_cases hdata : L.InData x
  · have hload := hi.data (x - L.sdata).toNat hdata
    rw [at_sub, hmem] at hload
    rw [if_pos hdata, hload]
    exact mem_not_erased he (flash_not_erased (L.loadInFlash _ hdata))
  · rw [if_neg hdata]
    by_cases hbss : L.InBss x
    · rw [if_pos (erased_of_bss hbss), hi.bss x hbss]
    · rw [hi.outside x hdata hbss, hmem]
      by_cases hx : IsErased x
      · rw [if_pos hx]
        exact hx.elim (he.dtcm x) (he.sram123 x)
      · rw [if_neg hx, mem_not_erased he hx]

/-- The registers that neither routine sets are `sp` and `lr`, and the trampoline sets `sp`. -/
theorem initialised_startRegs {d d1 : Thumb.Data} {d2 d3 : Data} (he : Erased memmapRam d d1)
    (hregs : ∀ r ≠ .sp, d2.regs r = d1.regs r) (hi : Initialised L d2 d3) :
    d3.regs = startRegs L (d.regs .lr) := by
  obtain ⟨h0, h1, h2, h3⟩ := hi.scratch
  have hcleared : ∀ r ∈ clearedRegs, r ∉ [Reg.r0, .r1, .r2, .r3, .sp] → d3.regs r = 0 := by
    intro r hr hother
    rw [hi.others r hother, hregs r fun h => hother (by simp [h]), he.cleared r hr]
  funext r
  cases r with
  | r0 => exact h0
  | r1 => exact h1
  | r2 => exact h2
  | r3 => exact h3
  | sp => exact hi.stack
  | lr => rw [hi.others .lr (by decide), hregs .lr (by decide), he.kept .lr (by decide)]; rfl
  | _ => exact hcleared _ (by decide) (by decide)

theorem trampoline_run (d : Data) :
    Assembly.run machine launchImageTrampoline 2 ⟨d, .inside 0⟩ =
      ⟨d.set .sp (loadWord d.mem (d.regs .r0 + 0)),
        .left (loadWritePC (loadWord d.mem (at_ (d.regs .r0) 4)))⟩ := rfl

/-- The trampoline enters the image that its argument points to. -/
theorem trampoline_enters {d d' : Thumb.Data} (he : Erased memmapRam d d')
    (hv : VectorTable d.mem (d.regs .r0)) :
    loadWritePC (loadWord d'.mem (at_ (d'.regs .r0) 4)) =
      .thumb (resetAddress d.mem (d.regs .r0)) := by
  have hvector : loadWord d'.mem (at_ (d.regs .r0) 4) = loadWord d.mem (at_ (d.regs .r0) 4) := by
    apply loadWord_congr
    intro i hi
    rw [at_at]
    exact mem_not_erased he (flash_not_erased (hv.inFlash _ (by omega)))
  rw [he.kept .r0 (by decide), hvector, loadWritePC, if_pos hv.thumb, resetAddress]

/-- Three routines, one behind the other, end in a state of which nothing is left open. -/
theorem nextSystemInit_eq (d : Thumb.Data) (carry : Bool) :
    nextSystemInit L d carry = startData L d.mem (d.regs .lr) := by
  obtain ⟨d1, hend, he⟩ := launchImageAsm_jumps d
  have htramp : (trampolineEnd d carry).data =
      Data.set ⟨d1, carry⟩ .sp (loadWord d1.mem (d1.regs .r0 + 0)) := by
    rw [trampolineEnd, hend, trampoline_run]
  have hi := atSystemInit_initialised L (trampolineEnd d carry).data
  have hregs : ∀ r ≠ .sp, (trampolineEnd d carry).data.regs r = d1.regs r := by
    intro r hr
    rw [htramp, Data.set_other _ _ _ hr]
  have hmem := initialised_startMemory L he (congrArg (fun d => d.mem) htramp) hi
  exact Data.ext (initialised_startRegs L he hregs hi) hi.flags.1 hmem hi.flags.2

/-- **Every image starts afresh.** Whatever the registers and the memory at the call of
`LaunchImageAsm`, each routine ends where the next begins, and the image whose vector table
is in flash comes to its call of `SystemInit` in one fixed state: the load image of `.data`
decides its DTCM, the RAM that the previous image worked in is zero, and of the core registers
only `lr` is from before. So two runs that differ in erased memory, in `r0` to `r12`, in `sp`
or in the flags are in the same state there. -/
theorem nextImage_starts_afresh (d : Thumb.Data) (carry : Bool)
    (hv : VectorTable d.mem (d.regs .r0)) :
    (launchEnd d).control = .left (branchWritePC (d.regs .r1)) ∧
    (trampolineEnd d carry).control = .left (.thumb (resetAddress d.mem (d.regs .r0))) ∧
    nextSystemInit L d carry = startData L d.mem (d.regs .lr) ∧
    ∀ (d' : Thumb.Data) (carry' : Bool), AgreeOn (fun x => ¬ IsErased x) d.mem d'.mem →
      d'.regs .lr = d.regs .lr →
      nextSystemInit L d' carry' = nextSystemInit L d carry := by
  obtain ⟨d1, hend, he⟩ := launchImageAsm_jumps d
  refine ⟨congrArg Assembly.State.control hend, ?_, nextSystemInit_eq L d carry, ?_⟩
  · rw [trampolineEnd, hend, trampoline_run, ← trampoline_enters he hv]
  · intro d' carry' hmem hlr
    rw [nextSystemInit_eq, nextSystemInit_eq, startData, startData, startMemory_congr hmem, hlr]

/-! ## A launch -/

theorem flash_of_room {a : Addr} {n : Nat} (h : (a - getFlashStart).toNat + n ≤ 2 * 1024 * 1024) :
    ∀ i, i < n → InFlash (at_ a i) := by
  intro i hi
  rw [← at_sub getFlashStart a, InFlash, at_at, within_at _ (by omega)]
  omega

/-- Two words of `.data` and three of `.bss`. -/
def sampleSymbols : ImageSymbols where
  sidata := 0x08062000
  sdata := 0x20000000
  edata := 0x20000008
  sbss := 0x20000008
  ebss := 0x20000014
  dtcm_le := by decide
  data_le := by decide
  bss_behind := by decide
  bss_le := by decide
  stack_behind := by decide
  dataWords := by decide
  bssWords := by decide
  loadInFlash := flash_of_room (by decide)

/-- L0 about to launch L1 at its usual place, with an entry at 0x08061041. -/
def sampleLaunch : Thumb.Data where
  regs := fun r => if r = .r0 then 0x08060400 else if r = .r1 then 0x08020C00 else 0xFFFFFFFF
  zero := false
  mem := write (fun _ => 0xA5) 0x08060400 (bytesOfWord 0x20020000 ++ bytesOfWord 0x08061041)

theorem sampleLaunch_vectors : VectorTable sampleLaunch.mem (sampleLaunch.regs .r0) :=
  ⟨flash_of_room (by decide), by decide⟩

theorem sampleLaunch_starts :
    (trampolineEnd sampleLaunch true).control = .left (.thumb 0x08061040) ∧
    nextSystemInit sampleSymbols sampleLaunch true =
      startData sampleSymbols sampleLaunch.mem 0xFFFFFFFF := by
  have h := nextImage_starts_afresh sampleSymbols sampleLaunch true sampleLaunch_vectors
  have haddress : resetAddress sampleLaunch.mem (sampleLaunch.regs .r0) = 0x08061040 := by decide
  exact ⟨h.2.1.trans (by rw [haddress]), h.2.2.1⟩

end VerifiedDice.ImageStart
