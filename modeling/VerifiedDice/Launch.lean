import VerifiedDice.SlotBuild

/-!
# Where L1 is looked for

Three places locate L1: `AuthenticateFirmware` by the signed offset, `RunL0` by the
linker symbol, `BootToL1` by the signed offset again. `BootToL1` compares the last
two, logs a difference and jumps all the same.
-/
namespace VerifiedDice.Launch

open ByteMemory ImageAuth FirmwareAuth SlotBuild

structure ByteRange where
  start : Addr
  size : Word
  deriving DecidableEq

variable (m : Memory)

/-- The firmware range that `RunL0` hands to the L0 engine to be hashed. -/
def measuredL1 : ByteRange where
  start := getL1ImageStart + BitVec.ofNat 32 firmwareImageOffset
  size := loadWord m (at_ getL1ImageStart ImageHeader.fwSize)

/-- The range that `VerifyImage` hashes for L1 when the slot at `base` is authenticated. -/
def authenticatedL1 (base : Addr) : ByteRange where
  start := at_ (l1Header m base) firmwareImageOffset
  size := loadWord m (at_ (l1Header m base) ImageHeader.fwSize)

/-- `base_addr_1` of `BootToL1`, where it jumps. -/
def baseAddr1 : Addr :=
  getL0ImageStart + loadWord m (at_ getL0ImageStart ImageHeader.nextImageOffset) +
    BitVec.ofNat 32 firmwareImageOffset

/-- `base_addr_2` of `BootToL1`, from the linker. -/
def baseAddr2 : Addr := getL1ImageStart + BitVec.ofNat 32 firmwareImageOffset

/-- What L0 measures is what was authenticated and starts where it jumps. -/
structure LaunchAgrees : Prop where
  measured : measuredL1 m = authenticatedL1 m getFwActiveStart
  launched : (measuredL1 m).start = baseAddr1 m

/-- `BootToL1` jumps to the authenticated image, whatever the offset. -/
theorem baseAddr1_eq : baseAddr1 m = (authenticatedL1 m getFwActiveStart).start := by
  show _ = at_ (l1Header m getFwActiveStart) firmwareImageOffset
  rw [l1_base_eq, at_, baseAddr1, active_layout.1]
  rfl

theorem l1Header_eq_iff :
    l1Header m getFwActiveStart = getL1ImageStart ↔ l1Offset m getFwActiveStart = l0TotalSize := by
  have hl1 : getL1ImageStart = at_ getFwActiveStart (keyManifestSize + l0TotalSize) := by
    rw [active_layout.2, active_layout.1, at_at]
  rw [l1_base_eq, l0Header, hl1, ← at_at getFwActiveStart keyManifestSize]
  constructor
  · intro h
    have hsub := congrArg (fun x => (x - at_ getFwActiveStart keyManifestSize).toNat) h
    rw [at_sub_toNat _ (by decide : l0TotalSize < 2 ^ 32)] at hsub
    rw [← hsub, l1Offset, BitVec.add_comm, BitVec.add_sub_cancel]
  · intro h
    rw [← h, l1Offset, at_word]

theorem launchAgrees_iff : LaunchAgrees m ↔ l1Offset m getFwActiveStart = l0TotalSize := by
  rw [← l1Header_eq_iff]
  constructor
  · intro h
    have hstart : getL1ImageStart + BitVec.ofNat 32 firmwareImageOffset =
        l1Header m getFwActiveStart + BitVec.ofNat 32 firmwareImageOffset :=
      congrArg ByteRange.start h.measured
    rw [BitVec.add_left_inj] at hstart
    exact hstart.symm
  · intro h
    have hmeasured : measuredL1 m = authenticatedL1 m getFwActiveStart := by
      rw [authenticatedL1, h]
      rfl
    exact ⟨hmeasured, by rw [hmeasured, baseAddr1_eq]⟩

/-- The mismatch that `BootToL1` logs is the only case in which they disagree. -/
theorem launchAgrees_iff_bases : LaunchAgrees m ↔ baseAddr1 m = baseAddr2 := by
  have hbase : baseAddr1 m = l1Header m getFwActiveStart + BitVec.ofNat 32 firmwareImageOffset :=
    baseAddr1_eq m
  rw [launchAgrees_iff, ← l1Header_eq_iff, hbase, baseAddr2, BitVec.add_left_inj]

/-- For accepted firmware, what is measured is what is launched exactly when the
signed offset is the linker's. -/
theorem accepted_launch_agrees_iff (C : Crypto) (key : List Byte) :
    ((authenticateFirmware C getFwActiveStart key).run m = .success → LaunchAgrees m) ↔
      (SlotOk C m getFwActiveStart key → l1Offset m getFwActiveStart = l0TotalSize) := by
  constructor
  · intro h hok
    exact (launchAgrees_iff m).mp (h hok.accepted)
  · intro h hacc
    exact (launchAgrees_iff m).mpr (h (slotOk_of_accepted C m hacc))

/-- `packedSlot` is accepted, and L0 measures the blank bytes at the linker's address. -/
theorem packed_slot_launch_differs :
    ¬ ((authenticateFirmware tagSigner.toCrypto getFwActiveStart
          (tagSigner.pub packedSlot.manifestKey)).run
        (write (fun _ => 0xFF) getFwActiveStart (packedSlot.bytes tagSigner)) = .success →
      LaunchAgrees (write (fun _ => 0xFF) getFwActiveStart (packedSlot.bytes tagSigner))) := by
  have hat := slotAt_write tagSigner packedSlot (fun _ => 0xFF) getFwActiveStart
  intro h
  have hoff := (launchAgrees_iff _).mp (h hat.slotOk.accepted)
  rw [hat.front.l1Offset] at hoff
  revert hoff
  decide

end VerifiedDice.Launch
