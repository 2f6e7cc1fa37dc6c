import VerifiedDice.Memmap

/-!
# Key manifest and image header layouts

The two packed structures of `image_header.h`, as byte offsets, and the
cryptographic primitives the firmware gets from its HACL* submodule, as fixed
functions of bytes.
-/
namespace VerifiedDice

open ByteMemory

/-! ## Primitives -/

/-- SHA-256 and Ed25519 verification. Nothing is assumed of them but the digest length. -/
structure Crypto where
  sha256 : List Byte → List Byte
  ed25519Verify : (key data signature : List Byte) → Bool
  length_sha256 : ∀ data, (sha256 data).length = 32

def digestLength : Nat := 32
def fwEd25519PublicKeyLen : Nat := 32
def fwEd25519SignatureLen : Nat := 64

/-! ## `key_manifest_t` -/

def keyManifestVersion : Word := 0

namespace KeyManifest

def version : Nat := 0
def l0PubKey : Nat := version + 4
def l1PubKey : Nat := l0PubKey + fwEd25519PublicKeyLen
def signature : Nat := l1PubKey + fwEd25519PublicKeyLen
/-- `sizeof(key_manifest_t)`. -/
def size : Nat := signature + fwEd25519SignatureLen

theorem size_eq : size = 4 + 32 + 32 + 64 := rfl

end KeyManifest

/-! ## `image_header_t` -/

def imageHeaderMagic : Word := 0x57464343
def imageHeaderPadding : Nat := 912

namespace ImageHeader

def magic : Nat := 0
def fwVersion : Nat := magic + 4
def fwSize : Nat := fwVersion + 4
def fwHash : Nat := fwSize + 4
def nextImageOffset : Nat := fwHash + digestLength
def padding : Nat := nextImageOffset + 4
def headerSignature : Nat := padding + imageHeaderPadding
/-- `sizeof(image_header_t)`. -/
def size : Nat := headerSignature + fwEd25519SignatureLen

theorem size_eq : size = imageHeaderSize := rfl

end ImageHeader

end VerifiedDice
