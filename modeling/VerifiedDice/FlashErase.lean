import VerifiedDice.FlashWrite
import VerifiedDice.Logger

/-!
# Erasing flash

`Flash_Erase` of the Arm driver. The HAL erases a sector of a physical bank; which bank is
seen at which address depends on `FLASH->OPTCR`, and the driver computes the bank from the
register it reads.
-/
namespace VerifiedDice

open ByteMemory

/-! ## The controller -/

def flashSectorSize : Nat := 0x00020000
def flashBank2Base : Addr := 0x08100000
def flashOptcrSwapBank : Word := 0x80000000

/-- `FLASH_SECTOR_SIZE` as the driver computes with it. -/
def flashGetSectorSize : Word := BitVec.ofNat 32 flashSectorSize

inductive FlashBank where
  | bank1 | bank2
  deriving DecidableEq

/-- The option control register and the option clear control register. -/
structure FlashRegisters where
  optcr : Word
  optccr : Word

/-- The banks are swapped in the address map. -/
def FlashRegisters.Swapped (regs : FlashRegisters) : Prop :=
  regs.optcr &&& flashOptcrSwapBank ≠ 0

instance (regs : FlashRegisters) : Decidable regs.Swapped :=
  inferInstanceAs (Decidable (_ ≠ _))

/-- Where a bank is seen. -/
def FlashRegisters.bankBase (regs : FlashRegisters) : FlashBank → Addr
  | .bank1 => if regs.Swapped then flashBank2Base else flashBank1Base
  | .bank2 => if regs.Swapped then flashBank1Base else flashBank2Base

def FlashRegisters.sectorStart (regs : FlashRegisters) (bank : FlashBank) (sector : Word) : Addr :=
  regs.bankBase bank + sector * flashGetSectorSize

/-- What becomes of the erase operations: a sector is erased, or the HAL reports an error and
leaves some contents in it; other contents are left if the power goes. -/
structure EraseOutcome where
  result : World → Option (Nat → Byte)
  torn : Nat → Byte

def eraseMem (m : Memory) (start : Addr) (content : Nat → Byte) : Memory := fun x =>
  if Within start flashSectorSize x then content (x - start).toNat else m x

def erased : Nat → Byte := fun _ => 0xFF

def World.afterErase (w : World) (start : Addr) (content : Nat → Byte) : World := { w.spend with
  mem := eraseMem w.mem start content
  written := fun x => w.written x || decide (Within start flashSectorSize x) }

variable (cfg : BuildConfig) (regs : FlashRegisters) (hal : EraseOutcome)

/-- `HAL_FLASHEx_Erase` of one sector. -/
def halFlashExErase (bank : FlashBank) (sector : Word) : Cut World Bool := fun w =>
  let start := regs.sectorStart bank sector
  if w.power = 0 then (none, w.afterErase start hal.torn) else
    match hal.result w with
    | none => (some true, w.afterErase start erased)
    | some content => (some false, w.afterErase start content)

/-! ## flash.c -/

def flashFile : String := "fw/common/arm/flash.c"

def flashIsAddressValid (address : Addr) : Bool :=
  if address < getFlashStart then false
  else if getFlashEnd < address then false
  else true

/-- The mask is one of `OPTCR`, the register that is read is `OPTCCR`. -/
def getActualBank (addr : Addr) : FlashBank :=
  if regs.optccr &&& flashOptcrSwapBank = 0 then
    if addr < flashBank2Base then .bank1 else .bank2
  else
    if addr < flashBank2Base then .bank2 else .bank1

def getSector (addr : Addr) : Word :=
  if addr < flashBank2Base then (addr - flashBank1Base) / flashGetSectorSize
  else (addr - flashBank2Base) / flashGetSectorSize

def flashEraseSector (addr : Addr) : Cut World Word :=
  if addr = 0 then pure (-1) else do
    let ok ← halFlashUnlock
    if ok then do
      let ok ← halFlashExErase regs hal (getActualBank regs addr) (getSector addr)
      if ok then do
        let ok ← halFlashLock
        if ok then pure 0 else pure (-4)
      else do
        let _ ← halFlashLock
        pure (-3)
    else pure (-2)

/-- A round advances the address and the count by a sector. -/
def flashEraseLoop (size : Word) : Nat → Word → Addr → Cut World Word
  | 0, _, _ => hang
  | fuel + 1, erasedbytes, addr =>
    if erasedbytes < size then do
      watchdogReload cfg
      let ret ← flashEraseSector regs hal addr
      if ret ≠ 0 then do
        hwLogFail cfg flashFile 171 (text "Flash_Erase_Sector(): " ++ signedDecimal ret)
        pure (-1)
      else flashEraseLoop size fuel (erasedbytes + flashGetSectorSize) (addr + flashGetSectorSize)
    else pure 0

def flashErase (address : Addr) (size : Word) : Cut World Word :=
  if address = 0 then pure (-1)
  else if address + size < address ∨ size + flashWord < size then pure (-1)
  else if size.toNat % flashSectorSize ≠ 0 then pure (-1)
  else if address.toNat % flashSectorSize ≠ 0 then pure (-1)
  else if ¬ flashIsAddressValid address then pure (-1)
  else if ¬ flashIsAddressValid (address + size - 1) then pure (-1)
  else do
    hwLogInfo cfg flashFile 162
      (text "Erasing: 0x" ++ hexWord address ++ text "-0x" ++ hexWord (address + size - 1))
    flashEraseLoop cfg regs hal size (size.toNat / flashSectorSize + 1) 0 address

/-! ## Sectors by number -/

/-- The sectors of both banks in the order of their addresses. -/
def sectorAddr (k : Nat) : Addr := at_ getFlashStart (flashSectorSize * k)

/-- The sector that is seen where sector `k` of the other bank would be without a swap. -/
def mirrored (k : Nat) : Nat := (k + 8) % 16

variable {cfg regs hal}

/-- The driver takes the banks to be swapped. -/
def FlashRegisters.SeenSwapped (regs : FlashRegisters) : Prop :=
  regs.optccr &&& flashOptcrSwapBank ≠ 0

instance (regs : FlashRegisters) : Decidable regs.SeenSwapped :=
  inferInstanceAs (Decidable (_ ≠ _))

theorem flashSectorSize_eq : flashSectorSize = 131072 := rfl

theorem sector_of_lt (k : Nat) (hk : k < 16) :
    (sectorAddr k < flashBank2Base ↔ k < 8) ∧
      getSector (sectorAddr k) = BitVec.ofNat 32 (k % 8) := by
  have hall : ∀ j : Fin 16, (sectorAddr j.val < flashBank2Base ↔ j.val < 8) ∧
      getSector (sectorAddr j.val) = BitVec.ofNat 32 (j.val % 8) := by decide +kernel
  exact hall ⟨k, hk⟩

theorem bank_sectors (k : Nat) (hk : k < 16) :
    (if k < 8 then flashBank1Base else flashBank2Base) +
        BitVec.ofNat 32 (k % 8) * flashGetSectorSize = sectorAddr k ∧
      (if k < 8 then flashBank2Base else flashBank1Base) +
        BitVec.ofNat 32 (k % 8) * flashGetSectorSize = sectorAddr (mirrored k) := by
  have hall : ∀ j : Fin 16, (if j.val < 8 then flashBank1Base else flashBank2Base) +
        BitVec.ofNat 32 (j.val % 8) * flashGetSectorSize = sectorAddr j.val ∧
      (if j.val < 8 then flashBank2Base else flashBank1Base) +
        BitVec.ofNat 32 (j.val % 8) * flashGetSectorSize = sectorAddr (mirrored j.val) := by
    decide +kernel
  exact hall ⟨k, hk⟩

/-- The sector that is erased for sector `k`: itself, or the one in the other bank. -/
def FlashRegisters.target (regs : FlashRegisters) (k : Nat) : Nat :=
  if (regs.SeenSwapped ↔ regs.Swapped) then k else mirrored k

theorem sectorStart_eq (regs : FlashRegisters) {k : Nat} (hk : k < 16) :
    regs.sectorStart (getActualBank regs (sectorAddr k)) (getSector (sectorAddr k)) =
      sectorAddr (regs.target k) := by
  obtain ⟨hlow, hsector⟩ := sector_of_lt k hk
  obtain ⟨hsame, hother⟩ := bank_sectors k hk
  have hseen : (regs.optccr &&& flashOptcrSwapBank = 0) ↔ ¬ regs.SeenSwapped := not_not.symm
  rw [FlashRegisters.sectorStart, hsector, getActualBank, FlashRegisters.target]
  simp only [hseen, hlow]
  by_cases h1 : regs.SeenSwapped <;> by_cases h2 : regs.Swapped <;> by_cases h3 : k < 8 <;>
    simp only [h1, h2, h3, not_true, not_false_iff, if_true, if_false, FlashRegisters.bankBase,
      iff_true, iff_false] at hsame hother ⊢ <;>
    first | exact hsame | exact hother

theorem sectorAddr_add (s k : Nat) :
    sectorAddr (s + k) = at_ (sectorAddr s) (flashSectorSize * k) := by
  rw [sectorAddr, sectorAddr, at_at, Nat.mul_add]

theorem sectorAddr_succ (k : Nat) : sectorAddr k + flashGetSectorSize = sectorAddr (k + 1) := by
  rw [sectorAddr_add, Nat.mul_one]
  rfl

theorem sectorAddr_ne_zero {k : Nat} (hk : k < 16) : sectorAddr k ≠ 0 := by
  have hall : ∀ j : Fin 16, sectorAddr j.val ≠ 0 := by decide +kernel
  exact hall ⟨k, hk⟩

theorem sector_inFlash {k : Nat} (hk : k < 16) {x : Addr}
    (h : Within (sectorAddr k) flashSectorSize x) : InFlash x := by
  have hfit : flashSectorSize * k + flashSectorSize ≤ 2 * 1024 * 1024 := by
    rw [flashSectorSize_eq]
    omega
  exact within_sub_range hfit (by omega) h

theorem flash_not_inLogs {x : Addr} (h : InFlash x) : ¬ InLogs x := by
  have h0 : getFlashStart = 0x08000000#32 := rfl
  have h1 : CircularLog.persistentLog.base = 0x38800000#32 := rfl
  have h2 : CircularLog.log + CircularLog.persistentLog.capacity = 4096 := rfl
  have h3 : CircularLog.ramLog.base = 0x30020000#32 := rfl
  have h4 : CircularLog.log + CircularLog.ramLog.capacity = 81923 := rfl
  simp only [InLogs, InFlash, CircularLog.LogArea.Mem, Within, h0, h1, h2, h3, h4] at *
  bv_omega

/-! ## One sector -/

section Sector

variable {w w' : World} {k : Nat}

theorem eraseMem_outside {m : Memory} {start x : Addr} {content : Nat → Byte}
    (h : ¬ Within start flashSectorSize x) : eraseMem m start content x = m x := if_neg h

theorem eraseMem_erased {m : Memory} {start x : Addr} (h : Within start flashSectorSize x) :
    eraseMem m start erased x = 0xFF := if_pos h

/-- However the operation ends, it is one sector that has changed. -/
theorem halFlashExErase_cases (regs : FlashRegisters) (hal : EraseOutcome) (bank : FlashBank)
    (sector : Word) (w : World) :
    ∃ r content, halFlashExErase regs hal bank sector w =
        (r, w.afterErase (regs.sectorStart bank sector) content) ∧
      (r = some true → content = erased) := by
  unfold halFlashExErase
  by_cases hpower : w.power = 0
  · exact ⟨none, hal.torn, if_pos hpower, nofun⟩
  · simp only [if_neg hpower]
    cases hal.result w with
    | none => exact ⟨some true, erased, rfl, fun _ => rfl⟩
    | some content => exact ⟨some false, content, rfl, nofun⟩

/-- The result and the sector that has been erased, or may have been changed. -/
theorem flashEraseSector_sat (regs : FlashRegisters) (hal : EraseOutcome) (hk : k < 16)
    (w : World) :
    Cut.Sat (flashEraseSector regs hal (sectorAddr k)) w fun r w' => ∀ v, r = some v →
      (v = 0 → w'.mem = eraseMem w.mem (sectorAddr (regs.target k)) erased) ∧
      ∀ x, ¬ Within (sectorAddr (regs.target k)) flashSectorSize x → w'.mem x = w.mem x := by
  unfold flashEraseSector
  rw [if_neg (sectorAddr_ne_zero hk)]
  refine (halFlashUnlock_sat w).bind_result ?_
  intro ok w1 h1
  have hmem1 : w1.mem = w.mem := h1.1
  apply Cut.Sat.ite
  · intro _
    obtain ⟨r, content, hrun, hdone⟩ := halFlashExErase_cases regs hal
      (getActualBank regs (sectorAddr k)) (getSector (sectorAddr k)) w1
    rw [sectorStart_eq regs hk] at hrun
    have houtside : ∀ w' : World,
        w'.mem = eraseMem w1.mem (sectorAddr (regs.target k)) content →
        ∀ x, ¬ Within (sectorAddr (regs.target k)) flashSectorSize x → w'.mem x = w.mem x := by
      intro w' hmem x hx
      rw [hmem, eraseMem_outside hx, hmem1]
    cases r with
    | none => exact Cut.Sat.of_eq (Cut.bind_none hrun) nofun
    | some ok =>
      apply Cut.Sat.bind_some hrun
      apply Cut.Sat.ite
      · intro hok
        refine (halFlashLock_sat _).bind_result ?_
        intro locked w2 h2
        have hmem2 : w2.mem = eraseMem w1.mem (sectorAddr (regs.target k)) content := h2.1
        have hresult : ∀ v : Word, (v = 0 →
            w2.mem = eraseMem w.mem (sectorAddr (regs.target k)) erased) ∧
            ∀ x, ¬ Within (sectorAddr (regs.target k)) flashSectorSize x →
              w2.mem x = w.mem x := by
          intro v
          refine ⟨?_, houtside w2 hmem2⟩
          intro _
          rw [hmem2, hdone (congrArg some hok), hmem1]
        exact Cut.Sat.ite (fun _ => Cut.Sat.pure fun v _ => hresult v)
          fun _ => Cut.Sat.pure fun v _ => hresult v
      · intro _
        refine (halFlashLock_sat _).bind_result ?_
        intro _ w2 h2
        apply Cut.Sat.pure
        intro v hv
        cases hv
        exact ⟨nofun, houtside w2 h2.1⟩
  · intro _
    apply Cut.Sat.pure
    intro v hv
    cases hv
    refine ⟨nofun, ?_⟩
    intro x _
    rw [hmem1]

theorem flashEraseSector_runs (regs : FlashRegisters) (hal : EraseOutcome) (addr : Addr) :
    Runs 3 (flashEraseSector regs hal addr) := by
  have herase : ∀ bank sector, Runs 1 (halFlashExErase regs hal bank sector) := by
    intro bank sector w hw
    have hpower : ¬ w.power = 0 := by omega
    unfold halFlashExErase
    simp only [if_neg hpower]
    cases hal.result w with
    | none =>
      refine ⟨true, _, rfl, ?_⟩
      show w.power ≤ w.power - 1 + 1
      omega
    | some content =>
      refine ⟨false, _, rfl, ?_⟩
      show w.power ≤ w.power - 1 + 1
      omega
  show Runs (1 + (1 + 1)) _
  apply Runs.ite ((Runs.pure _).mono (Nat.zero_le _))
  apply halFlashUnlock_runs.bind
  intro _
  apply Runs.ite
  · apply (herase _ _).bind
    intro _
    exact Runs.ite (halFlashLock_runs.bind fun _ => Runs.ite (Runs.pure _) (Runs.pure _))
      (halFlashLock_runs.bind fun _ => Runs.pure _)
  · exact (Runs.pure _).mono (Nat.zero_le _)

end Sector

/-! ## The loop -/

/-- The first `k` sectors from `address` on are erased, the rest of the flash is as before. -/
structure SectorsErased (address : Addr) (k : Nat) (w w' : World) : Prop where
  inside : ∀ x, Within address (flashSectorSize * k) x → w'.mem x = 0xFF
  outside : ∀ x, InFlash x → ¬ Within address (flashSectorSize * k) x → w'.mem x = w.mem x

/-- Sector `k` has failed: those before it are erased, those after it untouched. -/
structure FailedAt (address : Addr) (k : Nat) (w w' : World) : Prop where
  before : ∀ x, Within address (flashSectorSize * k) x → w'.mem x = 0xFF
  after : ∀ x, InFlash x → ¬ Within address (flashSectorSize * (k + 1)) x → w'.mem x = w.mem x

section Loop

variable {w0 w w' : World} {s k n : Nat} {size : Word}

theorem flash_of_sectors (hk : s + k ≤ 16) {x : Addr}
    (h : Within (sectorAddr s) (flashSectorSize * k) x) : InFlash x := by
  have hfit : flashSectorSize * s + flashSectorSize * k ≤ 2 * 1024 * 1024 := by
    rw [flashSectorSize_eq]
    omega
  exact within_sub_range hfit (by omega) h

theorem SectorsErased.congr (hk : s + k ≤ 16) (h : SectorsErased (sectorAddr s) k w0 w)
    (hflash : ∀ x, InFlash x → w'.mem x = w.mem x) : SectorsErased (sectorAddr s) k w0 w' := by
  constructor
  · intro x hx
    rw [hflash x (flash_of_sectors hk hx)]
    exact h.inside x hx
  · intro x hin hx
    rw [hflash x hin]
    exact h.outside x hin hx

theorem SectorsErased.next (hk : s + (k + 1) ≤ 16) (h : SectorsErased (sectorAddr s) k w0 w)
    (hmem : w'.mem = eraseMem w.mem (sectorAddr (s + k)) erased) :
    SectorsErased (sectorAddr s) (k + 1) w0 w' := by
  have hfit : flashSectorSize * k + flashSectorSize ≤ 2 ^ 32 := by
    rw [flashSectorSize_eq]
    omega
  have hsplit := fun x => within_append (a := sectorAddr s) (x := x) hfit
  rw [sectorAddr_add] at hmem
  constructor
  · intro x hx
    rw [Nat.mul_succ, hsplit] at hx
    by_cases hlast : Within (at_ (sectorAddr s) (flashSectorSize * k)) flashSectorSize x
    · rw [hmem, eraseMem_erased hlast]
    · rw [hmem, eraseMem_outside hlast]
      exact h.inside x (hx.resolve_right hlast)
  · intro x hin hx
    rw [Nat.mul_succ, hsplit, not_or] at hx
    rw [hmem, eraseMem_outside hx.2]
    exact h.outside x hin hx.1

theorem SectorsErased.failed (hk : s + (k + 1) ≤ 16) (h : SectorsErased (sectorAddr s) k w0 w)
    (hmem : ∀ x, InFlash x → ¬ Within (sectorAddr (s + k)) flashSectorSize x →
      w'.mem x = w.mem x) : FailedAt (sectorAddr s) k w0 w' := by
  have hfit : flashSectorSize * k + flashSectorSize ≤ 2 ^ 32 := by
    rw [flashSectorSize_eq]
    omega
  have hsplit := fun x => within_append (a := sectorAddr s) (x := x) hfit
  rw [sectorAddr_add] at hmem
  constructor
  · intro x hx
    obtain ⟨i, hi, rfl⟩ := exists_at_of_within hx
    rw [hmem _ (flash_of_sectors (by omega) hx) (not_within_at (Or.inl hi) (by omega) (by omega))]
    exact h.inside _ hx
  · intro x hin hx
    rw [Nat.mul_succ, hsplit, not_or] at hx
    rw [hmem x hin hx.2]
    exact h.outside x hin hx.1

/-- By induction on the fuel: with the banks as they are seen, each round erases its own sector. -/
theorem flashEraseLoop_results (cfg : BuildConfig) {regs : FlashRegisters} (hal : EraseOutcome)
    (hbanks : regs.SeenSwapped ↔ regs.Swapped) (hn : size.toNat = flashSectorSize * n)
    (hfit : s + n ≤ 16) (w0 : World) (fuel : Nat) : ∀ k w, k ≤ n →
    SectorsErased (sectorAddr s) k w0 w →
    Cut.Sat (flashEraseLoop cfg regs hal size fuel (BitVec.ofNat 32 (flashSectorSize * k))
        (sectorAddr (s + k))) w fun r w' => ∀ v, r = some v →
      (v = 0 ∧ SectorsErased (sectorAddr s) n w0 w') ∨
        (v = -1 ∧ ∃ j, j < n ∧ FailedAt (sectorAddr s) j w0 w') := by
  induction fuel with
  | zero =>
    intro k w _ _
    exact Cut.Sat.stop nofun
  | succ fuel ih =>
    intro k w hk herased
    have hcount : (BitVec.ofNat 32 (flashSectorSize * k) < size) ↔ k < n := by
      rw [BitVec.lt_def, BitVec.toNat_ofNat, hn, flashSectorSize_eq, Nat.mod_eq_of_lt (by omega)]
      omega
    unfold flashEraseLoop
    apply Cut.Sat.ite
    · intro hmore
      have hlt := hcount.mp hmore
      have htarget : regs.target (s + k) = s + k := if_pos hbanks
      refine (watchdogReload_sat cfg w).bind_result ?_
      intro _ w1 h1
      have hmem1 : w1.mem = w.mem := h1.1
      have herased1 : SectorsErased (sectorAddr s) k w0 w1 :=
        herased.congr (by omega) fun x _ => by rw [hmem1]
      refine (flashEraseSector_sat regs hal (by omega : s + k < 16) w1).bind_result ?_
      intro ret w2 h2
      obtain ⟨hdone, houtside⟩ := h2 ret rfl
      rw [htarget] at hdone houtside
      apply Cut.Sat.ite
      · intro hret
        have hfailed : FailedAt (sectorAddr s) k w0 w2 :=
          herased1.failed (by omega) fun x _ hx => houtside x hx
        apply logThen_sat
        · intro _ _
          exact nofun
        · intro w3 hlog v hv
          cases hv
          refine Or.inr ⟨rfl, k, hlt, ?_⟩
          constructor
          · intro x hx
            rw [hlog.mem x (flash_not_inLogs (flash_of_sectors (by omega) hx))]
            exact hfailed.before x hx
          · intro x hin hx
            rw [hlog.mem x (flash_not_inLogs hin)]
            exact hfailed.after x hin hx
      · intro hret
        have hnext : SectorsErased (sectorAddr s) (k + 1) w0 w2 :=
          herased1.next (by omega) (hdone (Decidable.not_not.mp hret))
        have hbytes : BitVec.ofNat 32 (flashSectorSize * k) + flashGetSectorSize =
            BitVec.ofNat 32 (flashSectorSize * (k + 1)) := by
          rw [flashGetSectorSize, ← BitVec.ofNat_add]
          rfl
        rw [hbytes, sectorAddr_succ]
        exact ih (k + 1) w2 hlt hnext
    · intro hmore
      have hend : k = n := by
        rw [hcount] at hmore
        omega
      subst hend
      apply Cut.Sat.pure
      intro v hv
      cases hv
      exact Or.inl ⟨rfl, herased⟩

theorem flashEraseLoop_runs (cfg : BuildConfig) (regs : FlashRegisters) (hal : EraseOutcome)
    (size : Word) (j : Nat) : ∀ k fuel addr, size.toNat = flashSectorSize * (k + j) → j < fuel →
    Runs (4 * j + 3) (flashEraseLoop cfg regs hal size fuel
      (BitVec.ofNat 32 (flashSectorSize * k)) addr) := by
  have hlt := size.isLt
  induction j with
  | zero =>
    intro k fuel addr hsize hfuel
    obtain ⟨fuel, rfl⟩ : ∃ n, fuel = n + 1 := ⟨fuel - 1, by omega⟩
    have hdone : ¬ BitVec.ofNat 32 (flashSectorSize * k) < size := by
      rw [Nat.add_zero] at hsize
      rw [BitVec.lt_def, BitVec.toNat_ofNat, Nat.mod_eq_of_lt (by omega), hsize]
      exact Nat.lt_irrefl _
    unfold flashEraseLoop
    rw [if_neg hdone]
    exact (Runs.pure _).mono (Nat.zero_le _)
  | succ j ih =>
    intro k fuel addr hsize hfuel
    obtain ⟨fuel, rfl⟩ : ∃ n, fuel = n + 1 := ⟨fuel - 1, by omega⟩
    have hsum : size.toNat = flashSectorSize * (k + 1 + j) := by
      rw [hsize]
      congr 1
      omega
    have hbytes : BitVec.ofNat 32 (flashSectorSize * k) + flashGetSectorSize =
        BitVec.ofNat 32 (flashSectorSize * (k + 1)) := by
      rw [flashGetSectorSize, ← BitVec.ofNat_add]
      rfl
    have hcount : 4 * (j + 1) + 3 = 1 + (3 + (4 * j + 3)) := by omega
    rw [hcount]
    unfold flashEraseLoop
    apply Runs.ite
    · apply (watchdogReload_runs cfg).bind
      intro _
      apply (flashEraseSector_runs regs hal addr).bind
      intro _
      apply Runs.ite
      · exact ((hwLogAt_runs cfg _ _ _ _).bind fun _ => Runs.pure _).mono (by omega)
      · rw [hbytes]
        exact ih (k + 1) fuel _ hsum (by omega)
    · exact (Runs.pure _).mono (Nat.zero_le _)

end Loop

/-! ## The checks on the arguments -/

/-- Null, misaligned or wrapping arguments, and ranges that are not all in flash. -/
def EraseRefused (address : Addr) (size : Word) : Prop :=
  address = 0 ∨ 2 ^ 32 ≤ address.toNat + size.toNat ∨ size.toNat % flashSectorSize ≠ 0 ∨
    address.toNat % flashSectorSize ≠ 0 ∨ address.toNat < getFlashStart.toNat ∨
    getFlashEnd.toNat < address.toNat + size.toNat - 1

/-- The rest of `Flash_Erase`. -/
def flashEraseRange (cfg : BuildConfig) (regs : FlashRegisters) (hal : EraseOutcome)
    (address : Addr) (size : Word) : Cut World Word := do
  hwLogInfo cfg flashFile 162
    (text "Erasing: 0x" ++ hexWord address ++ text "-0x" ++ hexWord (address + size - 1))
  flashEraseLoop cfg regs hal size (size.toNat / flashSectorSize + 1) 0 address

section Arguments

variable {cfg : BuildConfig} {regs : FlashRegisters} {hal : EraseOutcome} {address : Addr}
  {size : Word}

theorem flashIsAddressValid_iff (a : Addr) : flashIsAddressValid a = true ↔
    getFlashStart.toNat ≤ a.toNat ∧ a.toNat ≤ getFlashEnd.toNat := by
  have hlow : a < getFlashStart ↔ a.toNat < getFlashStart.toNat := BitVec.lt_def
  have hhigh : getFlashEnd < a ↔ getFlashEnd.toNat < a.toNat := BitVec.lt_def
  unfold flashIsAddressValid
  by_cases h1 : a < getFlashStart
  · rw [if_pos h1]
    rw [hlow] at h1
    simp only [Bool.false_eq_true, false_iff]
    omega
  rw [if_neg h1]
  rw [hlow] at h1
  by_cases h2 : getFlashEnd < a
  · rw [if_pos h2]
    rw [hhigh] at h2
    simp only [Bool.false_eq_true, false_iff]
    omega
  · rw [if_neg h2]
    rw [hhigh] at h2
    simp only [true_iff]
    omega

theorem flashErase_refused (hsize : 0 < size) (h : EraseRefused address size) :
    flashErase cfg regs hal address size = pure (-1) := by
  have hstart : getFlashStart.toNat = 134217728 := rfl
  have hend : getFlashEnd.toNat = 136314879 := rfl
  have hwrap := add_wraps_iff address size
  have hlast : ¬ 2 ^ 32 ≤ address.toNat + size.toNat →
      (address + size - 1).toNat = address.toNat + size.toNat - 1 := by bv_omega
  unfold flashErase
  by_cases h1 : address = 0
  · rw [if_pos h1]
  rw [if_neg h1]
  by_cases h2 : address + size < address ∨ size + flashWord < size
  · rw [if_pos h2]
  rw [if_neg h2]
  by_cases h3 : size.toNat % flashSectorSize ≠ 0
  · rw [if_pos h3]
  rw [if_neg h3]
  by_cases h4 : address.toNat % flashSectorSize ≠ 0
  · rw [if_pos h4]
  rw [if_neg h4]
  by_cases h5 : ¬ flashIsAddressValid address = true
  · rw [if_pos h5]
  rw [if_neg h5]
  -- the last check is the one that is left
  have h6 : ¬ flashIsAddressValid (address + size - 1) = true := by
    rw [not_or, hwrap] at h2
    rw [not_not, flashIsAddressValid_iff] at h5
    rw [flashIsAddressValid_iff, hlast h2.1]
    rcases h with h | h | h | h | h | h
    · exact absurd h h1
    · exact absurd h h2.1
    · exact absurd h h3
    · exact absurd h h4
    · omega
    · omega
  rw [if_pos h6]

theorem flashErase_accepted (hsize : 0 < size) (h : ¬ EraseRefused address size) :
    flashErase cfg regs hal address size = flashEraseRange cfg regs hal address size := by
  have hstart : getFlashStart.toNat = 134217728 := rfl
  have hend : getFlashEnd.toNat = 136314879 := rfl
  have hwrap := add_wraps_iff address size
  have hwrap2 := add_wraps_iff size flashWord
  have hword : flashWord.toNat = 32 := rfl
  have hpos : 0 < size.toNat := hsize
  simp only [EraseRefused, not_or] at h
  obtain ⟨h1, h2, h3, h4, h5, h6⟩ := h
  have hlast : (address + size - 1).toNat = address.toNat + size.toNat - 1 := by bv_omega
  have hfirst : flashIsAddressValid address = true := by
    rw [flashIsAddressValid_iff]
    omega
  have hsecond : flashIsAddressValid (address + size - 1) = true := by
    rw [flashIsAddressValid_iff, hlast]
    omega
  unfold flashErase
  rw [if_neg h1, if_neg (by rw [hwrap, hwrap2]; omega), if_neg h3, if_neg h4,
    if_neg (not_not.mpr hfirst), if_neg (not_not.mpr hsecond)]
  rfl

/-- Accepted arguments are whole sectors of the flash. -/
theorem sectors_of_accepted (hsize : 0 < size) (h : ¬ EraseRefused address size) :
    ∃ s n, address = sectorAddr s ∧ size.toNat = flashSectorSize * n ∧ 0 < n ∧ s + n ≤ 16 := by
  have hstart : getFlashStart.toNat = 134217728 := rfl
  have hend : getFlashEnd.toNat = 136314879 := rfl
  have hsector := flashSectorSize_eq
  have hpos : 0 < size.toNat := hsize
  simp only [EraseRefused, not_or] at h
  obtain ⟨h1, h2, h3, h4, h5, h6⟩ := h
  rw [hsector] at h3 h4 ⊢
  refine ⟨(address.toNat - 134217728) / 131072, size.toNat / 131072, ?_, by omega, by omega,
    by omega⟩
  apply BitVec.eq_of_toNat_eq
  rw [sectorAddr, toNat_at (by rw [hstart, hsector]; omega), hstart, hsector]
  omega

end Arguments

/-! ## What an erase must do -/

/-- What a call that returns `r` has done. -/
structure EraseEnd (address : Addr) (size : Word) (w : World) (r : Word) (w' : World) : Prop where
  refused : EraseRefused address size → r = -1 ∧ ∀ x, InFlash x → w'.mem x = w.mem x
  erased : r = 0 → (∀ x, Within address size.toNat x → w'.mem x = 0xFF) ∧
    ∀ x, InFlash x → ¬ Within address size.toNat x → w'.mem x = w.mem x
  failed : ¬ EraseRefused address size → r ≠ 0 → r = -1 ∧
    (∀ x, InFlash x → ¬ Within address size.toNat x → w'.mem x = w.mem x) ∧
    ∃ k, flashSectorSize * k < size.toNat ∧ FailedAt address k w w'

/-- Every call ends, and erases the requested range and nothing else, from any flash and whatever
the HAL answers. -/
def ErasesExactly (cfg : BuildConfig) (regs : FlashRegisters) (address : Addr) (size : Word) :
    Prop :=
  ∀ hal, Runs (4 * (size.toNat / flashSectorSize) + 6) (flashErase cfg regs hal address size) ∧
    ∀ w r w', flashErase cfg regs hal address size w = (some r, w') → EraseEnd address size w r w'

section Exact

variable {cfg : BuildConfig} {regs : FlashRegisters} {hal : EraseOutcome} {address : Addr}
  {size : Word} {w w' : World}

theorem flashErase_runs (cfg : BuildConfig) (regs : FlashRegisters) (hal : EraseOutcome)
    (address : Addr) (hsize : 0 < size) :
    Runs (4 * (size.toNat / flashSectorSize) + 6) (flashErase cfg regs hal address size) := by
  by_cases hrefused : EraseRefused address size
  · rw [flashErase_refused hsize hrefused]
    exact (Runs.pure _).mono (Nat.zero_le _)
  · obtain ⟨s, n, _, hn, _, _⟩ := sectors_of_accepted hsize hrefused
    have hcount : size.toNat / flashSectorSize = n := by
      rw [hn]
      exact Nat.mul_div_cancel_left n (by decide)
    rw [flashErase_accepted hsize hrefused, flashEraseRange, hcount]
    have hloop := flashEraseLoop_runs cfg regs hal size n 0 (n + 1) address
      (by rw [Nat.zero_add]; exact hn) (Nat.lt_succ_self n)
    have hrange : 4 * n + 6 = 3 + (4 * n + 3) := by omega
    rw [hrange]
    exact (hwLogAt_runs cfg _ _ _ _).bind fun _ => hloop

theorem eraseEnd_of_refused (h : EraseRefused address size) : EraseEnd address size w (-1) w :=
  ⟨fun _ => ⟨rfl, fun _ _ => rfl⟩, nofun, fun hnot => absurd h hnot⟩

/-- With the banks as they are seen. -/
theorem flashErase_ends (hbanks : regs.SeenSwapped ↔ regs.Swapped) (hsize : 0 < size) {r : Word}
    (hrun : flashErase cfg regs hal address size w = (some r, w')) :
    EraseEnd address size w r w' := by
  by_cases hrefused : EraseRefused address size
  · rw [flashErase_refused hsize hrefused] at hrun
    cases hrun
    exact eraseEnd_of_refused hrefused
  obtain ⟨s, n, haddr, hn, hpos, hfit⟩ := sectors_of_accepted hsize hrefused
  rw [flashErase_accepted hsize hrefused] at hrun
  subst haddr
  have hresult : Cut.Sat (flashEraseRange cfg regs hal (sectorAddr s) size) w fun r w' =>
      ∀ v, r = some v → (v = 0 ∧ SectorsErased (sectorAddr s) n w w') ∨
        (v = -1 ∧ ∃ j, j < n ∧ FailedAt (sectorAddr s) j w w') := by
    unfold flashEraseRange
    refine ((hwLogAt_logOnly cfg .info _ _ _).sat w).bind_result ?_
    intro _ w1 hlog
    have hlog' : World.LogOnly w w1 := hlog
    have hstart : SectorsErased (sectorAddr s) 0 w w1 := by
      constructor
      · intro x hx
        exact absurd hx (Nat.not_lt_zero _)
      · intro x hin _
        exact hlog'.mem x (flash_not_inLogs hin)
    exact flashEraseLoop_results cfg hal hbanks hn hfit w _ 0 w1 (Nat.zero_le n) hstart
  rcases hresult.elim hrun r rfl with ⟨hr, herased⟩ | ⟨hr, k, hk, hfailed⟩
  · subst hr
    refine ⟨fun h => absurd h hrefused, fun _ => ?_, fun _ h => absurd rfl h⟩
    rw [hn]
    exact ⟨herased.inside, herased.outside⟩
  · subst hr
    have hle : flashSectorSize * (k + 1) ≤ flashSectorSize * n := Nat.mul_le_mul_left _ hk
    refine ⟨fun h => absurd h hrefused, nofun, fun _ _ => ⟨rfl, ?_, k, ?_, hfailed⟩⟩
    · intro x hin hx
      rw [hn] at hx
      exact hfailed.after x hin fun h => hx (Nat.lt_of_lt_of_le h hle)
    · rw [hn]
      exact Nat.mul_lt_mul_of_pos_left hk (by decide)

end Exact

/-! ## The other bank -/

/-- The first operation erases its sector and reports an error. -/
def failsAtOnce : EraseOutcome where
  result := fun _ => some erased
  torn := erased

/-- A device with all bits cleared. -/
def clearedDevice : World := { blankDevice with mem := fun _ => 0 }

section OtherBank

variable {cfg : BuildConfig} {regs : FlashRegisters} {w : World} {s : Nat} {size : Word}

theorem halFlashUnlock_answer (w : World) : Cut.Sat halFlashUnlock w fun r w' =>
    w'.mem = w.mem ∧ ∀ ok, r = some ok → ok = w.hal 0 := by
  apply step_sat
  · exact ⟨rfl, nofun⟩
  · refine ⟨rfl, ?_⟩
    intro ok hok
    cases hok
    rfl

theorem flashEraseSector_fails (hs : s < 16) (hhal : ∀ n, w.hal n = true) :
    Cut.Sat (flashEraseSector regs failsAtOnce (sectorAddr s)) w fun r w' => ∀ v, r = some v →
      v = -3 ∧ w'.mem = eraseMem w.mem (sectorAddr (regs.target s)) erased := by
  unfold flashEraseSector
  rw [if_neg (sectorAddr_ne_zero hs)]
  refine (halFlashUnlock_answer w).bind_result ?_
  intro ok w1 h1
  obtain ⟨hmem1, hanswer⟩ := h1
  have hok : ok = true := (hanswer ok rfl).trans (hhal 0)
  rw [if_pos hok]
  have hfails : Cut.Sat (halFlashExErase regs failsAtOnce (getActualBank regs (sectorAddr s))
      (getSector (sectorAddr s))) w1 fun r w' => ∀ ok, r = some ok → ok = false ∧
        w'.mem = eraseMem w.mem (sectorAddr (regs.target s)) erased := by
    rw [← hmem1, ← sectorStart_eq regs hs]
    unfold Cut.Sat halFlashExErase
    by_cases hpower : w1.power = 0
    · simp only [if_pos hpower]
      exact nofun
    · simp only [if_neg hpower]
      intro ok hok
      cases hok
      exact ⟨rfl, rfl⟩
  refine hfails.bind_result ?_
  intro ok w2 h2
  obtain ⟨hfalse, hmem2⟩ := h2 ok rfl
  subst hfalse
  refine (halFlashLock_sat w2).bind_result ?_
  intro _ w3 h3
  apply Cut.Sat.pure
  intro v hv
  cases hv
  exact ⟨rfl, h3.1.trans hmem2⟩

/-- The sector that is changed before the call fails. -/
theorem flashEraseRange_fails (hs : s < 16) (hsize : 0 < size) (hhal : ∀ n, w.hal n = true) :
    Cut.Sat (flashEraseRange cfg regs failsAtOnce (sectorAddr s) size) w fun r w' =>
      ∀ v, r = some v → v = -1 ∧
        ∀ x, InFlash x → w'.mem x = eraseMem w.mem (sectorAddr (regs.target s)) erased x := by
  have heraseMem : ∀ {m m' : Memory} {start x : Addr}, m' x = m x →
      eraseMem m' start erased x = eraseMem m start erased x := by
    intro m m' start x h
    unfold eraseMem
    rw [h]
  unfold flashEraseRange flashEraseLoop
  refine ((hwLogAt_logOnly cfg .info _ _ _).sat w).bind_result ?_
  intro _ w1 hlog
  have hlog1 : World.LogOnly w w1 := hlog
  have hhal1 : w1.hal = w.hal := by rw [hlog1.rest]
  rw [if_pos hsize]
  have hreload : Cut.Keeps logOnly (watchdogReload cfg) := watchdogReload_logOnly
  refine ((hreload.sat w1).and (watchdogReload_sat cfg w1)).bind_result ?_
  intro _ w2 h2
  have hlog2 : World.LogOnly w1 w2 := h2.1
  have hmem2 : w2.mem = w1.mem := h2.2.1
  have hhal2 : w2.hal = w1.hal := by rw [hlog2.rest]
  refine (flashEraseSector_fails hs (fun n => by rw [hhal2, hhal1]; exact hhal n)).bind_result ?_
  intro ret w3 h3
  obtain ⟨hret, hmem3⟩ := h3 ret rfl
  subst hret
  rw [if_pos (by decide)]
  apply logThen_sat
  · intro _ _
    exact nofun
  · intro w4 hlog4 v hv
    cases hv
    refine ⟨rfl, ?_⟩
    intro x hin
    rw [hlog4.mem x (flash_not_inLogs hin), hmem3]
    exact heraseMem (by rw [hmem2, hlog1.mem x (flash_not_inLogs hin)])

theorem mirrored_lt (k : Nat) : mirrored k < 16 := Nat.mod_lt _ (by decide)

theorem sector_first (k : Nat) : Within (sectorAddr k) flashSectorSize (sectorAddr k) := by
  rw [Within, BitVec.sub_self]
  decide

/-- A sector and the one in the other bank have no byte in common. -/
theorem mirrored_apart (hs : s < 16) :
    ¬ Within (sectorAddr s) flashSectorSize (sectorAddr (mirrored s)) ∧
      ¬ Within (sectorAddr (mirrored s)) flashSectorSize (sectorAddr s) := by
  have hall : ∀ j : Fin 16,
      ¬ Within (sectorAddr j.val) flashSectorSize (sectorAddr (mirrored j.val)) ∧
        ¬ Within (sectorAddr (mirrored j.val)) flashSectorSize (sectorAddr j.val) := by
    decide +kernel
  exact hall ⟨s, hs⟩

/-- If the banks are not as they are seen, an accepted range is not erased exactly. -/
theorem not_erasesExactly (hbanks : ¬ (regs.SeenSwapped ↔ regs.Swapped)) {address : Addr}
    (hsize : 0 < size) (h : ¬ EraseRefused address size) :
    ¬ ErasesExactly cfg regs address size := by
  intro hexact
  obtain ⟨hruns, hends⟩ := hexact failsAtOnce
  obtain ⟨s, n, haddr, hn, hpos, hfit⟩ := sectors_of_accepted hsize h
  have hcount : size.toNat / flashSectorSize = n := by
    rw [hn]
    exact Nat.mul_div_cancel_left n (by decide)
  have htarget : regs.target s = mirrored s := if_neg hbanks
  have hs : s < 16 := by omega
  obtain ⟨r, w', hrun, _⟩ := hruns clearedDevice (by
    rw [hcount]
    show 4 * n + 6 ≤ 1000
    omega)
  have hend := hends clearedDevice r w' hrun
  rw [flashErase_accepted hsize h] at hrun
  subst haddr
  obtain ⟨hr, hmem⟩ := (flashEraseRange_fails hs hsize fun _ => rfl).elim hrun r rfl
  subst hr
  rw [htarget] at hmem
  obtain ⟨_, _, k, _, hfailed⟩ := hend.failed h (by decide)
  obtain ⟨hapart1, hapart2⟩ := mirrored_apart hs
  have hin := sector_inFlash hs (sector_first s)
  have hmirror := sector_inFlash (mirrored_lt s) (sector_first (mirrored s))
  cases k with
  | zero =>
    -- the sector in the other bank is behind the failing one, and has changed
    have hkept := hfailed.after _ hmirror (by rw [Nat.zero_add, Nat.mul_one]; exact hapart1)
    rw [hmem _ hmirror, eraseMem_erased (sector_first _)] at hkept
    exact absurd hkept (by decide : ¬ (0xFF : Byte) = 0)
  | succ k =>
    -- the first sector is not erased
    have hfirst : Within (sectorAddr s) (flashSectorSize * (k + 1)) (sectorAddr s) := by
      rw [Within, BitVec.sub_self]
      exact Nat.mul_pos (by decide) (Nat.succ_pos k)
    have hbyte := hfailed.before _ hfirst
    rw [hmem _ hin, eraseMem_outside hapart2] at hbyte
    exact absurd hbyte (by decide : ¬ (0 : Byte) = 0xFF)

/-- A range is erased exactly if it is refused, or if the register that the driver reads has the
bit for swapped banks as the one that swaps them. -/
theorem flashErase_exact_iff (cfg : BuildConfig) (regs : FlashRegisters) (address : Addr)
    (size : Word) (hsize : 0 < size) : ErasesExactly cfg regs address size ↔
      EraseRefused address size ∨ (regs.SeenSwapped ↔ regs.Swapped) := by
  constructor
  · intro hexact
    by_contra hnot
    rw [not_or] at hnot
    exact not_erasesExactly hnot.2 hsize hnot.1 hexact
  · intro h hal
    refine ⟨flashErase_runs cfg regs hal address hsize, ?_⟩
    intro w r w' hrun
    cases h with
    | inl hrefused =>
      rw [flashErase_refused hsize hrefused] at hrun
      cases hrun
      exact eraseEnd_of_refused hrefused
    | inr hbanks => exact flashErase_ends hbanks hsize hrun

/-- The slot of L1, without a swap. -/
theorem flashErase_exact_unswapped :
    ErasesExactly plainBuild { optcr := 0, optccr := 0 } 0x08060000 0x00080000 :=
  (flashErase_exact_iff plainBuild { optcr := 0, optccr := 0 } 0x08060000 0x00080000
    (by decide)).mpr (Or.inr (by decide))

/-- With swapped banks, and nothing to read in the clear register, the sector in the other bank is
erased. -/
theorem flashErase_swapped_not_exact :
    ¬ ErasesExactly plainBuild { optcr := flashOptcrSwapBank, optccr := 0 } 0x08060000
      0x00020000 := by
  apply not_erasesExactly
  · decide
  · decide
  · have h0 : getFlashStart.toNat = 134217728 := rfl
    have h1 : getFlashEnd.toNat = 136314879 := rfl
    rw [EraseRefused, h0, h1]
    decide

end OtherBank

end VerifiedDice
