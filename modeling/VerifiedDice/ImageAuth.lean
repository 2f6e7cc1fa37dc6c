import VerifiedDice.Lib.ReadTree
import VerifiedDice.ImageHeader

/-!
# Verification of one image and of the key manifest

`image_auth.c`. The functions only read, so they are read trees: the status and
the addresses touched come from one definition. A key pointer is the read that
dereferences it.
-/
namespace VerifiedDice.ImageAuth

open ByteMemory

/-- Operands of an unsigned subtraction that computes the size of a gap. -/
structure GapSub where
  minuend : Word
  subtrahend : Word
  deriving DecidableEq

abbrev FwRead := ReadTree Addr Byte GapSub
abbrev KeyPtr := FwRead (List Byte)

def readBytes (a : Addr) (n : Nat) : FwRead (List Byte) :=
  ReadTree.readAll ((List.range n).map (at_ a))

def readWord (a : Addr) : FwRead Word := do
  let bs ← readBytes a 4
  return wordOfBytes bs

/-- A public key in memory. -/
def keyAt (a : Addr) : KeyPtr := readBytes a fwEd25519PublicKeyLen

inductive VerifyStatus where
  | success
  | errorMagic
  | errorVersion
  | errorSize
  | errorHash
  | errorSignature
  deriving DecidableEq

variable (C : Crypto)

/-- Returns 0 if the hash of (buffer, size) matches the 32 bytes at `referenceHash`. -/
def verifyHash (referenceHash buffer : Addr) (size : Word) : FwRead Int := do
  let data ← readBytes buffer size.toNat
  let reference ← readBytes referenceHash digestLength
  return if C.sha256 data = reference then 0 else -1

def ed25519Verify (sig data : Addr) (dataSize : Nat) (key : KeyPtr) : FwRead Int := do
  let key ← key
  let data ← readBytes data dataSize
  let sig ← readBytes sig fwEd25519SignatureLen
  return if C.ed25519Verify key data sig then 0 else -1

/-- The signature is the last field and is not part of what is signed. -/
def verifyHeaderSignature (header : Addr) (publicKey : KeyPtr) : FwRead Int :=
  ed25519Verify C (at_ header ImageHeader.headerSignature) header
    (ImageHeader.size - fwEd25519SignatureLen) publicKey

def verifyImage (addr : Addr) (key : KeyPtr) : FwRead VerifyStatus := do
  let magic ← readWord (at_ addr ImageHeader.magic)
  if magic ≠ imageHeaderMagic then
    return .errorMagic
  let fwSize ← readWord (at_ addr ImageHeader.fwSize)
  if fwSize = 0 ∨ BitVec.ofNat 32 l1ImageSize < fwSize then
    return .errorSize
  let fwStart := at_ addr firmwareImageOffset
  let hash ← verifyHash C (at_ addr ImageHeader.fwHash) fwStart fwSize
  if hash ≠ 0 then
    return .errorHash
  let sig ← verifyHeaderSignature C addr key
  if sig ≠ 0 then
    return .errorSignature
  return .success

def verifyKeyManifest (addr : Addr) (key : KeyPtr) : FwRead VerifyStatus := do
  let version ← readWord (at_ addr KeyManifest.version)
  if version ≠ keyManifestVersion then
    return .errorVersion
  let size := KeyManifest.size - fwEd25519SignatureLen
  let sig ← ed25519Verify C (at_ addr KeyManifest.signature) addr size key
  if sig ≠ 0 then
    return .errorSignature
  return .success

/-! ## Reads -/

variable (m : Memory)

@[simp] theorem run_readBytes (a : Addr) (n : Nat) : (readBytes a n).run m = bytesAt m a n := by
  simp [readBytes, bytesAt]

@[simp] theorem reads_readBytes (a : Addr) (n : Nat) :
    (readBytes a n).reads m = (List.range n).map (at_ a) := by simp [readBytes]

@[simp] theorem notes_readBytes (a : Addr) (n : Nat) : (readBytes a n).notes m = [] := by
  simp [readBytes]

@[simp] theorem run_readWord (a : Addr) : (readWord a).run m = loadWord m a := by
  simp [readWord, loadWord]

@[simp] theorem reads_readWord (a : Addr) :
    (readWord a).reads m = (List.range 4).map (at_ a) := by simp [readWord]

@[simp] theorem notes_readWord (a : Addr) : (readWord a).notes m = [] := by simp [readWord]

@[simp] theorem run_keyAt (a : Addr) : (keyAt a).run m = bytesAt m a fwEd25519PublicKeyLen := by
  simp [keyAt]

/-! ## What success means -/

/-- What an image header at `addr` must satisfy under a key. -/
structure ImageOk (addr : Addr) (key : List Byte) : Prop where
  magic : loadWord m addr = imageHeaderMagic
  size_pos : 0 < (loadWord m (at_ addr ImageHeader.fwSize)).toNat
  size_le : (loadWord m (at_ addr ImageHeader.fwSize)).toNat ≤ l1ImageSize
  hash : C.sha256 (bytesAt m (at_ addr firmwareImageOffset)
      (loadWord m (at_ addr ImageHeader.fwSize)).toNat) =
    bytesAt m (at_ addr ImageHeader.fwHash) digestLength
  signature : C.ed25519Verify key (bytesAt m addr ImageHeader.headerSignature)
    (bytesAt m (at_ addr ImageHeader.headerSignature) fwEd25519SignatureLen) = true

/-- What a key manifest at `addr` must satisfy under a key. -/
structure ManifestOk (addr : Addr) (key : List Byte) : Prop where
  version : loadWord m addr = keyManifestVersion
  signature : C.ed25519Verify key (bytesAt m addr KeyManifest.signature)
    (bytesAt m (at_ addr KeyManifest.signature) fwEd25519SignatureLen) = true

theorem fwSize_accepted {s : Word} :
    ¬ (s = 0 ∨ BitVec.ofNat 32 l1ImageSize < s) ↔ 0 < s.toNat ∧ s.toNat ≤ l1ImageSize := by
  rw [l1ImageSize_eq]
  constructor <;> intro h <;> bv_omega

theorem run_verifyHash (referenceHash buffer : Addr) (size : Word) :
    (verifyHash C referenceHash buffer size).run m = 0 ↔
      C.sha256 (bytesAt m buffer size.toNat) = bytesAt m referenceHash digestLength := by
  simp [verifyHash]

theorem run_ed25519Verify (sig data : Addr) (dataSize : Nat) (key : KeyPtr) :
    (ed25519Verify C sig data dataSize key).run m = 0 ↔
      C.ed25519Verify (key.run m) (bytesAt m data dataSize)
        (bytesAt m sig fwEd25519SignatureLen) = true := by
  simp [ed25519Verify]

theorem run_verifyHeaderSignature (header : Addr) (key : KeyPtr) :
    (verifyHeaderSignature C header key).run m = 0 ↔
      C.ed25519Verify (key.run m) (bytesAt m header ImageHeader.headerSignature)
        (bytesAt m (at_ header ImageHeader.headerSignature) fwEd25519SignatureLen) = true :=
  run_ed25519Verify C m _ header (ImageHeader.size - fwEd25519SignatureLen) key

theorem run_verifyImage (addr : Addr) (key : KeyPtr) :
    (verifyImage C addr key).run m = .success ↔ ImageOk C m addr (key.run m) := by
  have hh := run_verifyHash C m (at_ addr ImageHeader.fwHash) (at_ addr firmwareImageOffset)
    (loadWord m (at_ addr ImageHeader.fwSize))
  have hs := run_verifyHeaderSignature C m addr key
  have hz := fwSize_accepted (s := loadWord m (at_ addr ImageHeader.fwSize))
  unfold verifyImage
  rw [ReadTree.run_guard _ _ _ _ _ (by decide), ReadTree.run_guard _ _ _ _ _ (by decide),
    ReadTree.run_guard _ _ _ _ _ (by decide), ReadTree.run_guard _ _ _ _ _ (by decide)]
  simp only [run_readWord, ReadTree.run_pure, and_true, not_not, ImageHeader.magic, at_zero, hz,
    hh, hs]
  constructor
  · rintro ⟨hmagic, ⟨hpos, hle⟩, hhash, hsig⟩
    exact ⟨hmagic, hpos, hle, hhash, hsig⟩
  · intro h
    exact ⟨h.magic, ⟨h.size_pos, h.size_le⟩, h.hash, h.signature⟩

theorem run_verifyKeyManifest (addr : Addr) (key : KeyPtr) :
    (verifyKeyManifest C addr key).run m = .success ↔ ManifestOk C m addr (key.run m) := by
  have hs := run_ed25519Verify C m (at_ addr KeyManifest.signature) addr
    (KeyManifest.size - fwEd25519SignatureLen) key
  unfold verifyKeyManifest
  rw [ReadTree.run_guard _ _ _ _ _ (by decide), ReadTree.run_guard _ _ _ _ _ (by decide)]
  simp only [run_readWord, ReadTree.run_pure, and_true, not_not, KeyManifest.version, at_zero, hs]
  constructor
  · rintro ⟨hversion, hsig⟩
    exact ⟨hversion, hsig⟩
  · intro h
    exact ⟨h.version, h.signature⟩

end VerifiedDice.ImageAuth
