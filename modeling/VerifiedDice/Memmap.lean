import VerifiedDice.Lib.Memory

/-!
# The memory map

Sizes of `memmap.h`, the linker symbols of `memmap_flash.ld` and `memmap_ram.ld`
and the RAM banks of `memmap_h7.h`, on the Arm port. `uintptr_t`, `size_t` and
`uint32_t` are all 32 bits there.
-/
namespace VerifiedDice

open ByteMemory

abbrev Word := BitVec 32
abbrev Addr := BitVec 32
abbrev Memory := Mem 32

/-! ## Sizes -/

def flashWordSize : Nat := 256 / 8
def fwUpdateFlagsSize : Nat := 32 * 3
def imageHeaderSize : Nat := 1024
def firmwareImageOffset : Nat := imageHeaderSize
def keyManifestSize : Nat := 1 * 1024
def diceTotalSize : Nat := 128 * 1024
def l0TotalSize : Nat := 255 * 1024
def l1TotalSize : Nat := 512 * 1024 - fwUpdateFlagsSize
def l1ImageSize : Nat := l1TotalSize - imageHeaderSize
def fwUpdateTotalSize : Nat := keyManifestSize + l0TotalSize + l1TotalSize
def fwSlotSize : Nat := fwUpdateTotalSize

theorem imageHeaderSize_eq : imageHeaderSize = 1024 := rfl
theorem firmwareImageOffset_eq : firmwareImageOffset = 1024 := rfl
theorem keyManifestSize_eq : keyManifestSize = 1024 := rfl
theorem l1ImageSize_eq : l1ImageSize = 523168 := rfl
theorem fwSlotSize_eq : fwSlotSize = 786336 := rfl

/-! ## RAM -/

def dtcmStart : Addr := 0x20000000
def dtcmLength : Nat := 128 * 1024
def sram4Start : Addr := 0x38000000
def sram4Length : Nat := 64 * 1024
def backupSramStart : Addr := 0x38800000
def backupSramLength : Nat := 4 * 1024
def sram23Start : Addr := 0x30020000
def sram23Length : Nat := 160 * 1024

def getSharedRamStart : Addr := sram4Start
def getSharedRamSize : Nat := sram4Length
def getPersistentRamStart : Addr := backupSramStart
def getPersistentRamSize : Nat := backupSramLength
def getLogRamStart : Addr := sram23Start
def getLogRamSize : Nat := sram23Length

/-! ## Flash -/

def flashBank1Base : Addr := 0x08000000
def flashEnd : Addr := 0x081FFFFF

def getFlashStart : Addr := flashBank1Base
def getFlashEnd : Addr := flashEnd

/-- Every address from `getFlashStart` to `getFlashEnd`. -/
def InFlash (x : Addr) : Prop := Within getFlashStart (2 * 1024 * 1024) x

instance (x : Addr) : Decidable (InFlash x) :=
  inferInstanceAs (Decidable (Within getFlashStart (2 * 1024 * 1024) x))

def getDICEImageStart : Addr := 0x08000000
def getDICEImageEnd : Addr := getDICEImageStart + BitVec.ofNat 32 diceTotalSize - 1
def getKeyManifestStart : Addr := getDICEImageEnd + 1
def getKeyManifestEnd : Addr := getKeyManifestStart + BitVec.ofNat 32 keyManifestSize - 1
def getL0ImageStart : Addr := getKeyManifestEnd + 1
def getL0ImageEnd : Addr := getL0ImageStart + BitVec.ofNat 32 l0TotalSize - 1
def getL1ImageStart : Addr := getL0ImageEnd + 1
def getFwActiveStart : Addr := getKeyManifestStart
def getFwSlotSize : Word := BitVec.ofNat 32 fwSlotSize

/-- The three areas of the slot follow one another from its start. -/
theorem active_layout : getL0ImageStart = at_ getFwActiveStart keyManifestSize ∧
    getL1ImageStart = at_ getL0ImageStart l0TotalSize := by decide

/-! ## Objects in DTCM -/

/-- A stack or `.bss` object of `size` bytes: the linker script puts both in DTCM. -/
structure DtcmObject (size : Nat) where
  addr : Addr
  inside : ∀ i, i < size → Within dtcmStart dtcmLength (at_ addr i)

theorem within_dtcm_of_room {size : Nat} {a : Addr}
    (h : (a - dtcmStart).toNat + size ≤ dtcmLength) :
    ∀ i, i < size → Within dtcmStart dtcmLength (at_ a i) := by
  intro i hi
  have hlength : dtcmLength < 2 ^ 32 := by decide
  rw [← at_sub dtcmStart a, at_at, within_at _ (by omega)]
  omega

/-- The object at an address that leaves room for it. -/
def DtcmObject.ofRange {size : Nat} (a : Addr) (h : (a - dtcmStart).toNat + size ≤ dtcmLength) :
    DtcmObject size where
  addr := a
  inside := within_dtcm_of_room h

theorem DtcmObject.within {size : Nat} (o : DtcmObject size) {x : Addr} (h : Within o.addr size x) :
    Within dtcmStart dtcmLength x := by
  obtain ⟨i, hi, rfl⟩ := exists_at_of_within h
  exact o.inside i hi

end VerifiedDice
