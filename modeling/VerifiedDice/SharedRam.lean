import VerifiedDice.ImageHeader

/-!
# The volatile shared RAM

`shared_mem_volatile.h` and the two packed structures passed through SRAM4:
DICE writes `l0_params_t` at the start of the first half, L0 writes `l1_params_t` at
the start of the second.
-/
namespace VerifiedDice

open ByteMemory

def hwMeasurementLen : Nat := 32
def derMaxPem : Nat := 0x800
def keyLen : Nat := 32

namespace L0Params

def versionDICE : Nat := 0
def hwMeasurement : Nat := versionDICE + 4
def cdi : Nat := hwMeasurement + hwMeasurementLen
/-- `sizeof(l0_params_t)`. -/
def size : Nat := cdi + digestLength

theorem size_eq : size = 68 := rfl

end L0Params

namespace L1Params

def versionDICE : Nat := 0
def versionL0 : Nat := versionDICE + 4
def hwMeasurement : Nat := versionL0 + 4
def aliasKeyPub : Nat := hwMeasurement + hwMeasurementLen
def aliasKeyPriv : Nat := aliasKeyPub + keyLen
def aliasKeyCert : Nat := aliasKeyPriv + keyLen
def aliasKeyCertLen : Nat := aliasKeyCert + derMaxPem
def deviceIDPub : Nat := aliasKeyCertLen + 4
def deviceIDCsr : Nat := deviceIDPub + keyLen
def deviceIDCsrLen : Nat := deviceIDCsr + derMaxPem
/-- `sizeof(l1_params_t)`. -/
def size : Nat := deviceIDCsrLen + 4

theorem size_eq : size = 4240 := rfl

end L1Params

def sharedHalf : Nat := getSharedRamSize / 2

def getSharedDiceL0 : Addr := getSharedRamStart
def getSharedL0L1 : Addr := getSharedRamStart + BitVec.ofNat 32 sharedHalf

/-- Any byte of the shared RAM. -/
def InShared (x : Addr) : Prop := Within getSharedRamStart getSharedRamSize x

def InDiceL0 (x : Addr) : Prop := Within getSharedDiceL0 sharedHalf x
def InL0L1 (x : Addr) : Prop := Within getSharedL0L1 sharedHalf x

instance (x : Addr) : Decidable (InL0L1 x) :=
  inferInstanceAs (Decidable (Within getSharedL0L1 sharedHalf x))

/-- The halves cover the shared RAM. -/
theorem inShared_iff (x : Addr) : InShared x ↔ InDiceL0 x ∨ InL0L1 x := by
  have h0 : getSharedRamStart = 0x38000000#32 := rfl
  have h1 : getSharedRamSize = 65536 := rfl
  have h2 : sharedHalf = 32768 := rfl
  simp only [InShared, InDiceL0, InL0L1, Within, getSharedDiceL0, getSharedL0L1, h0, h1, h2]
  bv_omega

end VerifiedDice
