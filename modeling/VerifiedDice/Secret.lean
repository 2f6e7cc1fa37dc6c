import VerifiedDice.Flash
import VerifiedDice.Logger
import VerifiedDice.Rng

/-!
# The device secret

`secret.c` and the Arm port's `secret_storage.c`: two copies of the Unique Device
Secret in the flash of the DICE image, written once. A secret of 0xFF bytes is no
secret.
-/
namespace VerifiedDice

open ByteMemory

def udsLength : Nat := 32

/-- Where the linker puts `device_secret_1` and `device_secret_2`. -/
structure SecretCopies where
  addr1 : Addr
  addr2 : Addr
  aligned1 : addr1.toNat % flashWordSize = 0
  aligned2 : addr2.toNat % flashWordSize = 0
  inside1 : (addr1 - getDICEImageStart).toNat + udsLength ≤ diceTotalSize
  inside2 : (addr2 - getDICEImageStart).toNat + udsLength ≤ diceTotalSize
  distinct : addr1 ≠ addr2

def SecretCopies.copy1 (s : SecretCopies) (m : Memory) : List Byte := bytesAt m s.addr1 udsLength
def SecretCopies.copy2 (s : SecretCopies) (m : Memory) : List Byte := bytesAt m s.addr2 udsLength

/-- The locals of `DeviceSecretInitialize`. -/
structure SecretLocals where
  secret : DtcmObject udsLength
  reference : DtcmObject udsLength
  apart : ∀ i, i < udsLength → ¬ Within secret.addr udsLength (at_ reference.addr i)

/-- The last two flash words of the first half of the DICE image, say. -/
def adjacentCopies : SecretCopies where
  addr1 := 0x0800FFC0
  addr2 := 0x0800FFE0
  aligned1 := by decide
  aligned2 := by decide
  inside1 := by decide
  inside2 := by decide
  distinct := by decide

/-- Two stack slots. -/
def adjacentLocals : SecretLocals where
  secret := DtcmObject.ofRange 0x2001FF00 (by decide)
  reference := DtcmObject.ofRange 0x2001FF20 (by decide)
  apart := by decide

/-! ## secret_storage.c -/

section Storage

variable (cfg : BuildConfig) (s : SecretCopies)

def secretStorageFile : String := "fw/DICE_Image/arm/secret_storage.c"

/-- The check of the locations in `DeviceSecretGet`. -/
def SecretCopies.Outside : Prop :=
  s.addr1 < getDICEImageStart ∨ getDICEImageEnd - BitVec.ofNat 32 udsLength ≤ s.addr1 ∨
    s.addr2 < getDICEImageStart ∨ getDICEImageEnd - BitVec.ofNat 32 udsLength ≤ s.addr2

instance : Decidable s.Outside :=
  inferInstanceAs (Decidable (_ ∨ _ ∨ _ ∨ _))

def secretLocations : Text :=
  text "Device secret locations: 0x" ++ hexWord s.addr1 ++ text " 0x" ++ hexWord s.addr2

def deviceSecretGet (dest : Addr) : Cut World Word :=
  if s.Outside then do
    hwLogFail cfg secretStorageFile 57 (text "Device secret location outside of DICE image")
    pure (-1)
  else do
    hwLogDebug cfg secretStorageFile 61 (secretLocations s)
    let w ← Cut.state
    if s.copy1 w.mem ≠ s.copy2 w.mem then do
      hwLogFail cfg secretStorageFile 65
        (text "Device secret values mismatch. This HW is unusable.")
      pure (-1)
    else do
      store dest (s.copy1 w.mem)
      -- what the caller gets, for the record
      Cut.update fun w => { w with gets := w.gets ++ [bytesAt w.mem dest udsLength] }
      pure 0

def flashWriteFailed (line : Nat) (ret : Word) : Cut World Word := do
  hwLogFail cfg secretStorageFile line (text "Flash_Write(): " ++ signedDecimal ret)
  pure (-1)

def deviceSecretSet (src : Addr) : Cut World Word := do
  let ret ← flashWrite cfg s.addr1 src (BitVec.ofNat 32 udsLength)
  if ret ≠ 0 then flashWriteFailed cfg 77 ret
  else do
    let ret ← flashWrite cfg s.addr2 src (BitVec.ofNat 32 udsLength)
    if ret ≠ 0 then flashWriteFailed cfg 83 ret
    else pure 0

end Storage

/-! ## secret.c -/

section Initialize

variable (cfg : BuildConfig) (s : SecretCopies) (locals : SecretLocals)

def secretFile : String := "fw/DICE_Image/secret.c"

/-- Some byte is not 0xFF. -/
def isSecretValid (m : Memory) (secret : Addr) : Bool :=
  (bytesAt m secret udsLength).any fun b => b != 0xFF

def rngRand (buffer : Addr) (size : Word) : Cut World Word := hwRngRand buffer size

def rngRandFailed (ret : Word) : Cut World Word := do
  hwLogFail cfg secretFile 48 (text "HW_RNG_Rand() failed: " ++ signedDecimal ret)
  pure (-1)

/-- The loop that generates a secret; every round takes at least one step. -/
def generateLoop : Nat → Cut World Word
  | 0 => hang
  | fuel + 1 => do
    let ret ← rngRand locals.secret.addr (BitVec.ofNat 32 udsLength)
    if ret ≠ 0 then rngRandFailed cfg ret
    else do
      let w ← Cut.state
      if isSecretValid w.mem locals.secret.addr then pure 0 else generateLoop fuel

/-- `DeviceSecretInitialize` from the second `DeviceSecretGet` on. -/
def checkSavedSecret : Cut World Word := do
  store locals.reference.addr (List.replicate udsLength 0)
  let ret ← deviceSecretGet cfg s locals.reference.addr
  if ret ≠ 0 then do
    hwLogFail cfg secretFile 66 (text "DeviceSecretGet() failed: " ++ signedDecimal ret)
    pure (-1)
  else do
    let w ← Cut.state
    if bytesAt w.mem locals.secret.addr udsLength ≠ bytesAt w.mem locals.reference.addr udsLength
    then do
      hwLogFail cfg secretFile 71 (text "Failed to write device secret")
      pure (-1)
    else do
      hwLogInfo cfg secretFile 75 (text "Device secret saved")
      pure 0

/-- `DeviceSecretInitialize` once a secret is generated. -/
def saveGeneratedSecret : Cut World Word := do
  hwLogInfo cfg secretFile 53 (text "Device secret generated")
  let w ← Cut.state
  hwLogSecretHex cfg secretFile 54 (bytesAt w.mem locals.secret.addr udsLength)
  let ret ← deviceSecretSet cfg s locals.secret.addr
  if ret ≠ 0 then do
    hwLogFail cfg secretFile 59 (text "DeviceSecretSet() failed: " ++ signedDecimal ret)
    pure (-1)
  else checkSavedSecret cfg s locals

/-- `DeviceSecretInitialize` when the secret has not been set. -/
def generateSecret : Cut World Word := do
  hwLogInfo cfg secretFile 41 (text "Generating device secret...")
  let w ← Cut.state
  let ret ← generateLoop cfg locals (w.power + 1)
  if ret ≠ 0 then pure (-1)
  else do
    -- for the record
    Cut.update fun w =>
      { w with generated := w.generated ++ [bytesAt w.mem locals.secret.addr udsLength] }
    saveGeneratedSecret cfg s locals

def deviceSecretInitialize : Cut World Word := do
  store locals.secret.addr (List.replicate udsLength 0)
  let ret ← deviceSecretGet cfg s locals.secret.addr
  if ret ≠ 0 then do
    hwLogFail cfg secretFile 30 (text "DeviceSecretGet() failed: " ++ signedDecimal ret)
    pure (-1)
  else do
    let w ← Cut.state
    if isSecretValid w.mem locals.secret.addr then do
      hwLogInfo cfg secretFile 36 (text "Device secret already set")
      hwLogSecretHex cfg secretFile 37 (bytesAt w.mem locals.secret.addr udsLength)
      pure 0
    else generateSecret cfg s locals

/-- `read_uds` of `HWAbstraction.c`. -/
def readUds (udsOut : Addr) : Cut World Unit := do
  let ret ← deviceSecretGet cfg s udsOut
  if ret ≠ 0 then
    hwLogFail cfg "common/HWAbstraction.c" 56
      (text "DeviceSecretGet() failed: " ++ signedDecimal ret)
  else pure ()

end Initialize

/-! ## Where everything is -/

/-- RAM and everything else that is not flash. -/
def NotFlash (x : Addr) : Prop := ¬ InFlash x

theorem dtcm_notFlash {x : Addr} (h : Within dtcmStart dtcmLength x) : NotFlash x := by
  have h0 : dtcmStart = 0x20000000#32 := rfl
  have h1 : dtcmLength = 131072 := rfl
  have h2 : getFlashStart = 0x08000000#32 := rfl
  simp only [NotFlash, InFlash, Within, h0, h1, h2] at *
  bv_omega

theorem inLogs_notFlash {x : Addr} (h : InLogs x) : NotFlash x := by
  have h0 : CircularLog.persistentLog.base = 0x38800000#32 := rfl
  have h1 : CircularLog.log + CircularLog.persistentLog.capacity = 4096 := rfl
  have h2 : CircularLog.ramLog.base = 0x30020000#32 := rfl
  have h3 : CircularLog.log + CircularLog.ramLog.capacity = 81923 := rfl
  have h4 : getFlashStart = 0x08000000#32 := rfl
  simp only [NotFlash, InFlash, InLogs, CircularLog.LogArea.Mem, Within, h0, h1, h2, h3, h4] at *
  bv_omega

theorem dtcm_not_inLogs {x : Addr} (h : Within dtcmStart dtcmLength x) : ¬ InLogs x := by
  have h0 : CircularLog.persistentLog.base = 0x38800000#32 := rfl
  have h1 : CircularLog.log + CircularLog.persistentLog.capacity = 4096 := rfl
  have h2 : CircularLog.ramLog.base = 0x30020000#32 := rfl
  have h3 : CircularLog.log + CircularLog.ramLog.capacity = 81923 := rfl
  have h4 : dtcmStart = 0x20000000#32 := rfl
  have h5 : dtcmLength = 131072 := rfl
  simp only [InLogs, CircularLog.LogArea.Mem, Within, h0, h1, h2, h3, h4, h5] at *
  bv_omega

namespace SecretCopies

variable {s : SecretCopies} {x : Addr}

/-- Any byte of the two copies. -/
def Mem (s : SecretCopies) (x : Addr) : Prop :=
  Within s.addr1 udsLength x ∨ Within s.addr2 udsLength x

theorem inFlash_of_image {a : Addr} (ha : (a - getDICEImageStart).toNat + udsLength ≤ diceTotalSize)
    (h : Within a udsLength x) : InFlash x := by
  have h0 : getDICEImageStart = 0x08000000#32 := rfl
  have h1 : getFlashStart = 0x08000000#32 := rfl
  have h2 : udsLength = 32 := rfl
  have h3 : diceTotalSize = 131072 := rfl
  simp only [InFlash, Within, h0, h1, h2, h3] at *
  bv_omega

theorem mem_inFlash (h : s.Mem x) : InFlash x :=
  h.elim (inFlash_of_image s.inside1) (inFlash_of_image s.inside2)

/-- Two different flash words do not overlap. -/
theorem apart {a b : Addr} (ha : a.toNat % flashWordSize = 0) (hb : b.toNat % flashWordSize = 0)
    (hne : a ≠ b) (h : Within a udsLength x) : ¬ Within b udsLength x := by
  have h0 : flashWordSize = 32 := rfl
  have h1 : udsLength = 32 := rfl
  simp only [Within, h0, h1] at *
  bv_omega

theorem copy1_congr {m m' : Memory} (h : ∀ x, Within s.addr1 udsLength x → m' x = m x) :
    s.copy1 m' = s.copy1 m :=
  bytesAt_congr fun i hi => h _ ((within_at _ (Nat.lt_trans hi (by decide))).mpr hi)

theorem copy2_congr {m m' : Memory} (h : ∀ x, Within s.addr2 udsLength x → m' x = m x) :
    s.copy2 m' = s.copy2 m :=
  bytesAt_congr fun i hi => h _ ((within_at _ (Nat.lt_trans hi (by decide))).mpr hi)

end SecretCopies

theorem DtcmObject.bytes_congr {size : Nat} (o : DtcmObject size) {m m' : Memory}
    (h : ∀ x, Within dtcmStart dtcmLength x → m' x = m x) :
    bytesAt m' o.addr size = bytesAt m o.addr size :=
  bytesAt_congr fun i hi => h _ (o.inside i hi)

end VerifiedDice
