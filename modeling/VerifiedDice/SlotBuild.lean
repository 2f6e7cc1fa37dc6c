import VerifiedDice.FirmwareAuth

/-!
# Building a firmware slot

The build side: `header_utils.c`, the tools `headertool`, `keymanifesttool` and
`signtool`, and the layout of a slot. A tool is its file contents; it stops on an
empty input file, as `load_file` does.
-/
namespace VerifiedDice.SlotBuild

open ByteMemory ImageAuth FirmwareAuth

/-- Ed25519 with its signing side. `verify_sign` is all that is known of it. -/
structure Signer extends Crypto where
  sign : (privKey data : List Byte) → List Byte
  pub : (privKey : List Byte) → List Byte
  length_sign : ∀ k data, (sign k data).length = fwEd25519SignatureLen
  length_pub : ∀ k, (pub k).length = fwEd25519PublicKeyLen
  verify_sign : ∀ k data, ed25519Verify (pub k) data (sign k data) = true

/-! ## `image_header_t` and `key_manifest_t` -/

structure ImageHeaderT where
  magic : Word
  fwVersion : Word
  fwSize : Word
  fwHash : List Byte
  nextImageOffset : Word
  padding : List Byte
  headerSignature : List Byte
  length_fwHash : fwHash.length = digestLength
  length_padding : padding.length = imageHeaderPadding
  length_headerSignature : headerSignature.length = fwEd25519SignatureLen

/-- The header without its last field. -/
def ImageHeaderT.signedBytes (h : ImageHeaderT) : List Byte :=
  bytesOfWord h.magic ++ bytesOfWord h.fwVersion ++ bytesOfWord h.fwSize ++ h.fwHash ++
    bytesOfWord h.nextImageOffset ++ h.padding

def ImageHeaderT.toBytes (h : ImageHeaderT) : List Byte := h.signedBytes ++ h.headerSignature

structure KeyManifestT where
  version : Word
  l0PubKey : List Byte
  l1PubKey : List Byte
  signature : List Byte
  length_l0PubKey : l0PubKey.length = fwEd25519PublicKeyLen
  length_l1PubKey : l1PubKey.length = fwEd25519PublicKeyLen
  length_signature : signature.length = fwEd25519SignatureLen

def KeyManifestT.signedBytes (k : KeyManifestT) : List Byte :=
  bytesOfWord k.version ++ k.l0PubKey ++ k.l1PubKey

def KeyManifestT.toBytes (k : KeyManifestT) : List Byte := k.signedBytes ++ k.signature

theorem ImageHeaderT.length_signedBytes (h : ImageHeaderT) :
    h.signedBytes.length = ImageHeader.headerSignature := by
  simp only [signedBytes, List.length_append, length_bytesOfWord, h.length_fwHash,
    h.length_padding]
  rfl

theorem ImageHeaderT.length_toBytes (h : ImageHeaderT) : h.toBytes.length = imageHeaderSize := by
  rw [toBytes, List.length_append, h.length_signedBytes, h.length_headerSignature]
  rfl

theorem KeyManifestT.length_signedBytes (k : KeyManifestT) :
    k.signedBytes.length = KeyManifest.signature := by
  simp only [signedBytes, List.length_append, length_bytesOfWord, k.length_l0PubKey,
    k.length_l1PubKey]
  rfl

theorem KeyManifestT.length_toBytes (k : KeyManifestT) : k.toBytes.length = KeyManifest.size := by
  rw [toBytes, List.length_append, k.length_signedBytes, k.length_signature]
  rfl

/-! ## Headers -/

variable (S : Signer)

/-- `ED25519_Sign`: the size is narrowed to 32 bits on the way to the primitive. -/
def ed25519Sign (data : List Byte) (dataSize : Nat) (key : List Byte) : List Byte :=
  S.sign key (data.take (dataSize % 2 ^ 32))

/-- Fills all fields but the signature, which stays zero. -/
def imageHeaderBuild (version : Word) (fwData : List Byte) (fwSize offset : Word) :
    ImageHeaderT where
  magic := imageHeaderMagic
  fwVersion := version
  fwSize := fwSize
  fwHash := S.sha256 (fwData.take fwSize.toNat)
  nextImageOffset := offset
  padding := List.replicate imageHeaderPadding 0
  headerSignature := List.replicate fwEd25519SignatureLen 0
  length_fwHash := S.length_sha256 _
  length_padding := List.length_replicate
  length_headerSignature := List.length_replicate

def imageHeaderSign (header : ImageHeaderT) (privKey : List Byte) : ImageHeaderT :=
  { header with
    headerSignature :=
      ed25519Sign S header.toBytes (ImageHeader.size - fwEd25519SignatureLen) privKey
    length_headerSignature := S.length_sign _ _ }

/-- The header of `l0` or `l1` as the tests and the tools both fill it. -/
def signedHeader (version : Word) (image : List Byte) (offset : Word) (privKey : List Byte) :
    ImageHeaderT :=
  imageHeaderSign S (imageHeaderBuild S version image (BitVec.ofNat 32 image.length) offset)
    privKey

def signedManifest (l0Key l1Key manifestKey : List Byte) : KeyManifestT where
  version := keyManifestVersion
  l0PubKey := S.pub l0Key
  l1PubKey := S.pub l1Key
  signature := ed25519Sign S (bytesOfWord keyManifestVersion ++ S.pub l0Key ++ S.pub l1Key)
    (KeyManifest.size - fwEd25519SignatureLen) manifestKey
  length_l0PubKey := S.length_pub _
  length_l1PubKey := S.length_pub _
  length_signature := S.length_sign _ _

/-! ## Tools -/

/-- `load_file` of the tools. -/
def loadFile (file : List Byte) : Option (List Byte) := if file.length = 0 then none else some file

/-- The file that `headertool` saves: the header without its signature. -/
def headertool (version : Word) (inputFile : List Byte) (nextImageOffset : Word) :
    Option (List Byte) := do
  let fwData ← loadFile inputFile
  let header := imageHeaderBuild S version fwData (BitVec.ofNat 32 fwData.length) nextImageOffset
  return header.toBytes.take (ImageHeader.size - fwEd25519SignatureLen)

/-- The manifest file without its signature, from the two private keys. -/
def generateKeyManifest (l0Key l1Key : List Byte) : List Byte :=
  bytesOfWord keyManifestVersion ++ S.pub l0Key ++ S.pub l1Key

/-- The signature file of an unsigned object. -/
def signtool (privKey inputFile : List Byte) : Option (List Byte) := do
  let data ← loadFile inputFile
  return ed25519Sign S data data.length privKey

/-- `cat unsigned_object.bin output_signature.bin`, after `signtool`. -/
def signObject (privKey unsignedObject : List Byte) : Option (List Byte) := do
  let signature ← signtool S privKey unsignedObject
  return unsignedObject ++ signature

theorem signObject_eq {privKey obj : List Byte} (h0 : obj.length ≠ 0)
    (h1 : obj.length < 2 ^ 32) : signObject S privKey obj = some (obj ++ S.sign privKey obj) := by
  have hsign : ed25519Sign S obj obj.length privKey = S.sign privKey obj := by
    rw [ed25519Sign, Nat.mod_eq_of_lt h1, List.take_length]
  have hload : loadFile obj = some obj := if_neg h0
  rw [signObject, signtool, hload, ← hsign]
  rfl

/-! ## What the build produces -/

theorem imageHeaderSign_toBytes (h : ImageHeaderT) (privKey : List Byte) :
    (imageHeaderSign S h privKey).toBytes = h.signedBytes ++ S.sign privKey h.signedBytes := by
  have hsize : (ImageHeader.size - fwEd25519SignatureLen) % 2 ^ 32 = h.signedBytes.length := by
    rw [h.length_signedBytes]
    rfl
  have htake : h.toBytes.take ((ImageHeader.size - fwEd25519SignatureLen) % 2 ^ 32) =
      h.signedBytes := by
    rw [hsize]
    exact List.take_left
  show h.signedBytes ++ ed25519Sign S h.toBytes _ privKey = _
  rw [ed25519Sign, htake]

theorem signedManifest_toBytes (l0Key l1Key manifestKey : List Byte) :
    (signedManifest S l0Key l1Key manifestKey).toBytes =
      generateKeyManifest S l0Key l1Key ++
        S.sign manifestKey (generateKeyManifest S l0Key l1Key) := by
  have hlen := (signedManifest S l0Key l1Key manifestKey).length_signedBytes
  have hsize : (KeyManifest.size - fwEd25519SignatureLen) % 2 ^ 32 =
      (generateKeyManifest S l0Key l1Key).length := hlen.symm
  show _ ++ ed25519Sign S (generateKeyManifest S l0Key l1Key) _ manifestKey = _
  rw [ed25519Sign, hsize, List.take_length]
  rfl

/-- Both ways of producing a signed header give the same bytes. -/
theorem headertool_signtool (version : Word) (image : List Byte) (offset : Word)
    (privKey : List Byte) (h : image.length ≠ 0) :
    (headertool S version image offset).bind (signObject S privKey) =
      some (signedHeader S version image offset privKey).toBytes := by
  have hbuild := (imageHeaderBuild S version image (BitVec.ofNat 32 image.length)
    offset).length_signedBytes
  have htake : (imageHeaderBuild S version image (BitVec.ofNat 32 image.length) offset).toBytes.take
      (ImageHeader.size - fwEd25519SignatureLen) =
      (imageHeaderBuild S version image (BitVec.ofNat 32 image.length) offset).signedBytes :=
    List.take_left' hbuild
  have htool : headertool S version image offset =
      some (imageHeaderBuild S version image
        (BitVec.ofNat 32 image.length) offset).signedBytes := by
    rw [← htake]
    simp [headertool, loadFile, h]
  rw [htool, Option.bind_some, signObject_eq S (by rw [hbuild]; decide) (by rw [hbuild]; decide),
    signedHeader, imageHeaderSign_toBytes]

theorem keymanifesttool_signtool (l0Key l1Key manifestKey : List Byte) :
    signObject S manifestKey (generateKeyManifest S l0Key l1Key) =
      some (signedManifest S l0Key l1Key manifestKey).toBytes := by
  have hlen : (generateKeyManifest S l0Key l1Key).length = KeyManifest.signature :=
    (signedManifest S l0Key l1Key manifestKey).length_signedBytes
  rw [signObject_eq S (by rw [hlen]; decide) (by rw [hlen]; decide), signedManifest_toBytes]

/-! ## Reading back what was built -/

/-- `h` is stored at `addr`. -/
def HeaderAt (m : Memory) (addr : Addr) (h : ImageHeaderT) : Prop :=
  bytesAt m addr imageHeaderSize = h.toBytes

def ManifestAt (m : Memory) (addr : Addr) (k : KeyManifestT) : Prop :=
  bytesAt m addr KeyManifest.size = k.toBytes

variable {S} {m : Memory} {addr : Addr}

theorem HeaderAt.magic {h : ImageHeaderT} (hm : HeaderAt m addr h) :
    loadWord m addr = h.magic := by
  have hb : bytesAt m addr imageHeaderSize = [] ++ bytesOfWord h.magic ++
      (bytesOfWord h.fwVersion ++ bytesOfWord h.fwSize ++ h.fwHash ++
        bytesOfWord h.nextImageOffset ++ h.padding ++ h.headerSignature) := by
    rw [hm, ImageHeaderT.toBytes, ImageHeaderT.signedBytes]
    simp only [List.append_assoc, List.nil_append]
  have h' := loadWord_segment hb List.length_nil
  rwa [at_zero] at h'

theorem HeaderAt.fwSize {h : ImageHeaderT} (hm : HeaderAt m addr h) :
    loadWord m (at_ addr ImageHeader.fwSize) = h.fwSize := by
  have hb : bytesAt m addr imageHeaderSize = (bytesOfWord h.magic ++ bytesOfWord h.fwVersion) ++
      bytesOfWord h.fwSize ++ (h.fwHash ++ bytesOfWord h.nextImageOffset ++ h.padding ++
        h.headerSignature) := by
    rw [hm, ImageHeaderT.toBytes, ImageHeaderT.signedBytes]
    simp only [List.append_assoc]
  exact loadWord_segment hb rfl

theorem HeaderAt.fwHash {h : ImageHeaderT} (hm : HeaderAt m addr h) :
    bytesAt m (at_ addr ImageHeader.fwHash) digestLength = h.fwHash := by
  have hb : bytesAt m addr imageHeaderSize = (bytesOfWord h.magic ++ bytesOfWord h.fwVersion ++
      bytesOfWord h.fwSize) ++ h.fwHash ++ (bytesOfWord h.nextImageOffset ++ h.padding ++
        h.headerSignature) := by
    rw [hm, ImageHeaderT.toBytes, ImageHeaderT.signedBytes]
    simp only [List.append_assoc]
  exact bytesAt_segment hb rfl h.length_fwHash

theorem HeaderAt.nextImageOffset {h : ImageHeaderT} (hm : HeaderAt m addr h) :
    loadWord m (at_ addr ImageHeader.nextImageOffset) = h.nextImageOffset := by
  have hb : bytesAt m addr imageHeaderSize = (bytesOfWord h.magic ++ bytesOfWord h.fwVersion ++
      bytesOfWord h.fwSize ++ h.fwHash) ++ bytesOfWord h.nextImageOffset ++ (h.padding ++
        h.headerSignature) := by
    rw [hm, ImageHeaderT.toBytes, ImageHeaderT.signedBytes]
    simp only [List.append_assoc]
  have hlen : (bytesOfWord h.magic ++ bytesOfWord h.fwVersion ++ bytesOfWord h.fwSize ++
      h.fwHash).length = ImageHeader.nextImageOffset := by
    simp only [List.length_append, length_bytesOfWord, h.length_fwHash]
    rfl
  exact loadWord_segment hb hlen

theorem HeaderAt.signedBytes {h : ImageHeaderT} (hm : HeaderAt m addr h) :
    bytesAt m addr ImageHeader.headerSignature = h.signedBytes := by
  have hb : bytesAt m addr imageHeaderSize = [] ++ h.signedBytes ++ h.headerSignature := hm
  have h' := bytesAt_segment hb List.length_nil h.length_signedBytes
  rwa [at_zero] at h'

theorem HeaderAt.headerSignature {h : ImageHeaderT} (hm : HeaderAt m addr h) :
    bytesAt m (at_ addr ImageHeader.headerSignature) fwEd25519SignatureLen =
      h.headerSignature := by
  have hb : bytesAt m addr imageHeaderSize = h.signedBytes ++ h.headerSignature ++ [] := by
    rw [hm, ImageHeaderT.toBytes, List.append_nil]
  exact bytesAt_segment hb h.length_signedBytes h.length_headerSignature

/-- A signed header followed by its image verifies under the signer's public key. -/
theorem imageOk_of_built {version offset : Word} {image privKey : List Byte}
    (hpos : 1 ≤ image.length) (hle : image.length ≤ l1ImageSize)
    (hh : HeaderAt m addr (signedHeader S version image offset privKey))
    (hi : bytesAt m (at_ addr imageHeaderSize) image.length = image) :
    ImageOk S.toCrypto m addr (S.pub privKey) := by
  have hword : (BitVec.ofNat 32 image.length).toNat = image.length := by
    rw [l1ImageSize_eq] at hle
    rw [BitVec.toNat_ofNat, Nat.mod_eq_of_lt (by omega)]
  have hsize : (loadWord m (at_ addr ImageHeader.fwSize)).toNat = image.length := by
    rw [hh.fwSize]
    exact hword
  refine ⟨hh.magic, by omega, by omega, ?_, ?_⟩
  · rw [hsize, hh.fwHash]
    show S.sha256 (bytesAt m (at_ addr imageHeaderSize) image.length) =
      S.sha256 (image.take (BitVec.ofNat 32 image.length).toNat)
    rw [hi, hword, List.take_length]
  · have hsigned := imageHeaderSign_toBytes S
      (imageHeaderBuild S version image (BitVec.ofNat 32 image.length) offset) privKey
    have hsig : (signedHeader S version image offset privKey).headerSignature =
        S.sign privKey (signedHeader S version image offset privKey).signedBytes :=
      List.append_cancel_left hsigned
    rw [hh.signedBytes, hh.headerSignature, hsig]
    exact S.verify_sign privKey _

theorem ManifestAt.pubKeys {k : KeyManifestT} (hm : ManifestAt m addr k) :
    bytesAt m (at_ addr KeyManifest.l0PubKey) fwEd25519PublicKeyLen = k.l0PubKey ∧
      bytesAt m (at_ addr KeyManifest.l1PubKey) fwEd25519PublicKeyLen = k.l1PubKey := by
  have h0 : bytesAt m addr KeyManifest.size = bytesOfWord k.version ++ k.l0PubKey ++
      (k.l1PubKey ++ k.signature) := by
    rw [hm, KeyManifestT.toBytes, KeyManifestT.signedBytes]
    simp only [List.append_assoc]
  have h1 : bytesAt m addr KeyManifest.size = (bytesOfWord k.version ++ k.l0PubKey) ++
      k.l1PubKey ++ k.signature := hm
  have hlen : (bytesOfWord k.version ++ k.l0PubKey).length = KeyManifest.l1PubKey := by
    rw [List.length_append, k.length_l0PubKey]
    rfl
  exact ⟨bytesAt_segment h0 rfl k.length_l0PubKey, bytesAt_segment h1 hlen k.length_l1PubKey⟩

theorem manifestOk_of_built {l0Key l1Key manifestKey : List Byte}
    (hm : ManifestAt m addr (signedManifest S l0Key l1Key manifestKey)) :
    ManifestOk S.toCrypto m addr (S.pub manifestKey) := by
  have hb : bytesAt m addr KeyManifest.size = generateKeyManifest S l0Key l1Key ++
      S.sign manifestKey (generateKeyManifest S l0Key l1Key) := by
    rw [hm, signedManifest_toBytes]
  have hlen : (generateKeyManifest S l0Key l1Key).length = KeyManifest.signature :=
    (signedManifest S l0Key l1Key manifestKey).length_signedBytes
  refine ⟨?_, ?_⟩
  · have hv : bytesAt m addr KeyManifest.size = [] ++ bytesOfWord keyManifestVersion ++
        (S.pub l0Key ++ S.pub l1Key ++ S.sign manifestKey (generateKeyManifest S l0Key l1Key)) := by
      rw [hb]
      simp only [generateKeyManifest, List.append_assoc, List.nil_append]
    have h' := loadWord_segment hv List.length_nil
    rwa [at_zero] at h'
  · have hb0 : bytesAt m addr KeyManifest.size = [] ++ generateKeyManifest S l0Key l1Key ++
        S.sign manifestKey (generateKeyManifest S l0Key l1Key) := hb
    have hb1 : bytesAt m addr KeyManifest.size = generateKeyManifest S l0Key l1Key ++
        S.sign manifestKey (generateKeyManifest S l0Key l1Key) ++ [] := by
      rw [hb, List.append_nil]
    have hdata := bytesAt_segment hb0 List.length_nil hlen
    have hsig := bytesAt_segment hb1 hlen (S.length_sign _ _)
    rw [at_zero] at hdata
    rw [hdata, hsig]
    exact S.verify_sign manifestKey _

/-! ## Slots -/

/-- The part of a slot up to the end of the L0 image. -/
structure FrontPlan where
  manifestKey : List Byte
  l0Key : List Byte
  l1Key : List Byte
  versionL0 : Word
  l0 : List Byte
  offset : Word
  gapManifest : List Byte
  l0_pos : 1 ≤ l0.length
  l0_le : l0.length ≤ l1ImageSize
  length_gapManifest : gapManifest.length = keyManifestSize - KeyManifest.size
  blank_gapManifest : ∀ b ∈ gapManifest, Blank b

/-- A whole slot: L1 at the offset that the L0 header gives, and what fills the gaps. -/
structure SlotPlan extends FrontPlan where
  versionL1 : Word
  l1 : List Byte
  /-- `next_image_offset` of the L1 header, which nothing reads. -/
  l1Next : Word
  gapL0 : List Byte
  gapL1 : List Byte
  l1_pos : 1 ≤ l1.length
  l1_le : l1.length ≤ l1ImageSize
  l0_end : imageHeaderSize + l0.length ≤ offset.toNat
  l1_end : keyManifestSize + offset.toNat + imageHeaderSize + l1.length ≤ fwSlotSize
  length_gapL0 : gapL0.length = offset.toNat - (imageHeaderSize + l0.length)
  length_gapL1 : gapL1.length =
    fwSlotSize - (keyManifestSize + offset.toNat + imageHeaderSize + l1.length)
  blank_gapL0 : ∀ b ∈ gapL0, Blank b
  blank_gapL1 : ∀ b ∈ gapL1, Blank b

variable (S) (f : FrontPlan) (p : SlotPlan)

def FrontPlan.manifest : KeyManifestT := signedManifest S f.l0Key f.l1Key f.manifestKey

def FrontPlan.l0Header : ImageHeaderT := signedHeader S f.versionL0 f.l0 f.offset f.l0Key

def SlotPlan.l1Header : ImageHeaderT := signedHeader S p.versionL1 p.l1 p.l1Next p.l1Key

def FrontPlan.layout (manifest l0Header : List Byte) : List Byte :=
  manifest ++ f.gapManifest ++ l0Header ++ f.l0

def SlotPlan.layout (manifest l0Header l1Header : List Byte) : List Byte :=
  p.toFrontPlan.layout manifest l0Header ++ p.gapL0 ++ (l1Header ++ p.l1) ++ p.gapL1

def FrontPlan.bytes : List Byte := f.layout (f.manifest S).toBytes (f.l0Header S).toBytes

/-- The slot with headers from `image_header_build` and `image_header_sign`. -/
def SlotPlan.bytes : List Byte :=
  p.layout (p.manifest S).toBytes (p.l0Header S).toBytes (p.l1Header S).toBytes

/-- The slot with manifest and headers from the tools. -/
def SlotPlan.toolBytes : Option (List Byte) := do
  let manifest ← signObject S p.manifestKey (generateKeyManifest S p.l0Key p.l1Key)
  let l0Header ← (headertool S p.versionL0 p.l0 p.offset).bind (signObject S p.l0Key)
  let l1Header ← (headertool S p.versionL1 p.l1 p.l1Next).bind (signObject S p.l1Key)
  return p.layout manifest l0Header l1Header

theorem FrontPlan.length_bytes :
    (f.bytes S).length = keyManifestSize + imageHeaderSize + f.l0.length := by
  have hm : KeyManifest.size = 132 := rfl
  simp only [bytes, layout, List.length_append, KeyManifestT.length_toBytes,
    ImageHeaderT.length_toBytes, f.length_gapManifest]
  rw [keyManifestSize_eq, imageHeaderSize_eq]
  omega

theorem SlotPlan.bytes_eq : p.bytes S =
    p.toFrontPlan.bytes S ++ p.gapL0 ++ ((p.l1Header S).toBytes ++ p.l1) ++ p.gapL1 := rfl

theorem SlotPlan.length_bytes : (p.bytes S).length = fwSlotSize := by
  have h0 := p.l0_end
  have h1 := p.l1_end
  rw [keyManifestSize_eq, imageHeaderSize_eq, fwSlotSize_eq] at h1
  rw [imageHeaderSize_eq] at h0
  simp only [bytes_eq, List.length_append, FrontPlan.length_bytes, ImageHeaderT.length_toBytes,
    p.length_gapL0, p.length_gapL1]
  rw [keyManifestSize_eq, imageHeaderSize_eq, fwSlotSize_eq]
  omega

theorem SlotPlan.toolBytes_eq : p.toolBytes S = some (p.bytes S) := by
  have h0 := headertool_signtool S p.versionL0 p.l0 p.offset p.l0Key (by have := p.l0_pos; omega)
  have h1 := headertool_signtool S p.versionL1 p.l1 p.l1Next p.l1Key (by have := p.l1_pos; omega)
  have hm := keymanifesttool_signtool S p.l0Key p.l1Key p.manifestKey
  rw [toolBytes, hm, h0, h1]
  rfl

/-! ## Build, then verify -/

/-- The front part stands at `base`. -/
def FrontAt (m : Memory) (base : Addr) : Prop :=
  bytesAt m base (keyManifestSize + imageHeaderSize + f.l0.length) = f.bytes S

variable {S f p} {base : Addr}

theorem FrontAt.manifestAt (h : FrontAt S f m base) : ManifestAt m base (f.manifest S) := by
  have hb : bytesAt m base (keyManifestSize + imageHeaderSize + f.l0.length) =
      [] ++ (f.manifest S).toBytes ++ (f.gapManifest ++ (f.l0Header S).toBytes ++ f.l0) := by
    rw [h, FrontPlan.bytes, FrontPlan.layout]
    simp only [List.append_assoc, List.nil_append]
  have h' := bytesAt_segment hb List.length_nil (f.manifest S).length_toBytes
  rwa [at_zero] at h'

theorem FrontAt.gap (h : FrontAt S f m base) :
    bytesAt m (at_ base KeyManifest.size) (keyManifestSize - KeyManifest.size) =
      f.gapManifest := by
  have hb : bytesAt m base (keyManifestSize + imageHeaderSize + f.l0.length) =
      (f.manifest S).toBytes ++ f.gapManifest ++ ((f.l0Header S).toBytes ++ f.l0) := by
    rw [h, FrontPlan.bytes, FrontPlan.layout]
    simp only [List.append_assoc]
  exact bytesAt_segment hb (f.manifest S).length_toBytes f.length_gapManifest

theorem FrontAt.headerAt (h : FrontAt S f m base) :
    HeaderAt m (l0Header base) (f.l0Header S) := by
  have hb : bytesAt m base (keyManifestSize + imageHeaderSize + f.l0.length) =
      ((f.manifest S).toBytes ++ f.gapManifest) ++ (f.l0Header S).toBytes ++ f.l0 := h
  have hlen : ((f.manifest S).toBytes ++ f.gapManifest).length = keyManifestSize := by
    rw [List.length_append, KeyManifestT.length_toBytes, f.length_gapManifest]
    rfl
  exact bytesAt_segment hb hlen (f.l0Header S).length_toBytes

theorem FrontAt.image (h : FrontAt S f m base) :
    bytesAt m (at_ (l0Header base) imageHeaderSize) f.l0.length = f.l0 := by
  have hb : bytesAt m base (keyManifestSize + imageHeaderSize + f.l0.length) =
      ((f.manifest S).toBytes ++ f.gapManifest ++ (f.l0Header S).toBytes) ++ f.l0 ++ [] := by
    rw [h, FrontPlan.bytes, FrontPlan.layout, List.append_nil]
  have hlen : ((f.manifest S).toBytes ++ f.gapManifest ++ (f.l0Header S).toBytes).length =
      keyManifestSize + imageHeaderSize := by
    rw [List.length_append, List.length_append, KeyManifestT.length_toBytes,
      f.length_gapManifest, ImageHeaderT.length_toBytes]
    rfl
  rw [l0Header, at_at]
  exact bytesAt_segment hb hlen rfl

theorem FrontAt.l0Size (h : FrontAt S f m base) :
    FirmwareAuth.l0Size m base = f.l0.length := by
  have hle := f.l0_le
  rw [l1ImageSize_eq] at hle
  rw [FirmwareAuth.l0Size, l0FwSize, h.headerAt.fwSize]
  show (BitVec.ofNat 32 f.l0.length).toNat = _
  rw [BitVec.toNat_ofNat, Nat.mod_eq_of_lt (by omega)]

theorem FrontAt.l1Offset (h : FrontAt S f m base) :
    FirmwareAuth.l1Offset m base = f.offset.toNat := by
  rw [FirmwareAuth.l1Offset, FirmwareAuth.nextImageOffset, h.headerAt.nextImageOffset]
  rfl

theorem blank_of_bytesAt {a : Addr} {n : Nat} {gap : List Byte} (h : bytesAt m a n = gap)
    (hgap : ∀ b ∈ gap, Blank b) (i : Nat) (hi : i < n) : Blank (m (at_ a i)) := by
  refine hgap _ ?_
  rw [← h, bytesAt]
  exact List.mem_map.mpr ⟨i, List.mem_range.mpr hi, rfl⟩

theorem FrontAt.blank (h : FrontAt S f m base) (i : Nat) (hlo : KeyManifest.size ≤ i)
    (hhi : i < keyManifestSize) : Blank (m (at_ base i)) := by
  have hb := blank_of_bytesAt h.gap f.blank_gapManifest (i - KeyManifest.size) (by omega)
  rwa [at_at, Nat.add_sub_cancel' hlo] at hb

/-- A built front passes every check that comes before L1 is looked at, for each
offset that the range check lets through. -/
theorem FrontAt.l1Reached (h : FrontAt S f m base)
    (hfirst : imageHeaderSize + f.l0.length ≤ f.offset.toNat)
    (hlast : f.offset.toNat ≤ fwSlotSize - imageHeaderSize) :
    L1Reached S.toCrypto m base (S.pub f.manifestKey) := by
  have hkeys := h.manifestAt.pubKeys
  refine ⟨manifestOk_of_built h.manifestAt, h.blank, ?_, ?_, ?_⟩
  · have hok := imageOk_of_built f.l0_pos f.l0_le h.headerAt h.image
    rw [l0PubKey, hkeys.1]
    exact hok
  · rwa [h.l0Size, h.l1Offset]
  · rwa [h.l1Offset]

/-- The whole slot stands at `base`. -/
def SlotAt (S : Signer) (p : SlotPlan) (m : Memory) (base : Addr) : Prop :=
  bytesAt m base fwSlotSize = p.bytes S

theorem SlotAt.front (h : SlotAt S p m base) : FrontAt S p.toFrontPlan m base := by
  have hb : bytesAt m base fwSlotSize = [] ++ p.toFrontPlan.bytes S ++
      (p.gapL0 ++ ((p.l1Header S).toBytes ++ p.l1) ++ p.gapL1) := by
    rw [h, p.bytes_eq]
    simp only [List.append_assoc, List.nil_append]
  have h' := bytesAt_segment hb List.length_nil (p.toFrontPlan.length_bytes S)
  rwa [at_zero] at h'

theorem SlotPlan.length_upto_l1 : (p.toFrontPlan.bytes S ++ p.gapL0).length =
    keyManifestSize + p.offset.toNat := by
  have h0 := p.l0_end
  rw [imageHeaderSize_eq] at h0
  rw [List.length_append, FrontPlan.length_bytes, p.length_gapL0, keyManifestSize_eq,
    imageHeaderSize_eq]
  omega

theorem SlotAt.l1HeaderAt (h : SlotAt S p m base) :
    HeaderAt m (at_ base (keyManifestSize + p.offset.toNat)) (p.l1Header S) := by
  have hb : bytesAt m base fwSlotSize = (p.toFrontPlan.bytes S ++ p.gapL0) ++
      (p.l1Header S).toBytes ++ (p.l1 ++ p.gapL1) := by
    rw [h, p.bytes_eq]
    simp only [List.append_assoc]
  exact bytesAt_segment hb p.length_upto_l1 (p.l1Header S).length_toBytes

theorem SlotAt.l1Image (h : SlotAt S p m base) :
    bytesAt m (at_ (at_ base (keyManifestSize + p.offset.toNat)) imageHeaderSize)
      p.l1.length = p.l1 := by
  have hb : bytesAt m base fwSlotSize = (p.toFrontPlan.bytes S ++ p.gapL0 ++
      (p.l1Header S).toBytes) ++ p.l1 ++ p.gapL1 := by
    rw [h, p.bytes_eq]
    simp only [List.append_assoc]
  have hlen : (p.toFrontPlan.bytes S ++ p.gapL0 ++ (p.l1Header S).toBytes).length =
      keyManifestSize + p.offset.toNat + imageHeaderSize := by
    rw [List.length_append, p.length_upto_l1, ImageHeaderT.length_toBytes]
  rw [at_at]
  exact bytesAt_segment hb hlen rfl

theorem SlotAt.gapL0 (h : SlotAt S p m base) :
    bytesAt m (at_ base (keyManifestSize + imageHeaderSize + p.l0.length)) p.gapL0.length =
      p.gapL0 := by
  have hb : bytesAt m base fwSlotSize = p.toFrontPlan.bytes S ++ p.gapL0 ++
      (((p.l1Header S).toBytes ++ p.l1) ++ p.gapL1) := by
    rw [h, p.bytes_eq]
    simp only [List.append_assoc]
  exact bytesAt_segment hb (p.toFrontPlan.length_bytes S) rfl

theorem SlotAt.gapL1 (h : SlotAt S p m base) :
    bytesAt m (at_ base (keyManifestSize + p.offset.toNat + imageHeaderSize + p.l1.length))
      p.gapL1.length = p.gapL1 := by
  have hb : bytesAt m base fwSlotSize = (p.toFrontPlan.bytes S ++ p.gapL0 ++
      ((p.l1Header S).toBytes ++ p.l1)) ++ p.gapL1 ++ [] := by
    rw [h, p.bytes_eq, List.append_nil]
  have hlen : (p.toFrontPlan.bytes S ++ p.gapL0 ++ ((p.l1Header S).toBytes ++ p.l1)).length =
      keyManifestSize + p.offset.toNat + imageHeaderSize + p.l1.length := by
    rw [List.length_append, p.length_upto_l1, List.length_append, ImageHeaderT.length_toBytes,
      Nat.add_assoc _ imageHeaderSize]
  exact bytesAt_segment hb hlen rfl

theorem SlotAt.l1Size (h : SlotAt S p m base) :
    FirmwareAuth.l1Size m base = p.l1.length := by
  have hle := p.l1_le
  rw [l1ImageSize_eq] at hle
  rw [FirmwareAuth.l1Size, l1Header, h.front.l1Offset, h.l1HeaderAt.fwSize]
  show (BitVec.ofNat 32 p.l1.length).toNat = _
  rw [BitVec.toNat_ofNat, Nat.mod_eq_of_lt (by omega)]

theorem SlotAt.slotOk (h : SlotAt S p m base) :
    SlotOk S.toCrypto m base (S.pub p.manifestKey) := by
  have hfront := h.front
  have h0 := p.l0_end
  have h1 := p.l1_end
  have hk := keyManifestSize_eq
  have hh := imageHeaderSize_eq
  have hreached := hfront.l1Reached h0 (by omega)
  refine ⟨hreached.manifest, hreached.l0, ?_, hreached.first, ?_, fun i hi hcov => ?_⟩
  · have hok := imageOk_of_built p.l1_pos p.l1_le h.l1HeaderAt h.l1Image
    rw [l1Header, hfront.l1Offset, l1PubKey, hfront.manifestAt.pubKeys.2]
    exact hok
  · rwa [hfront.l1Offset, h.l1Size]
  · rw [Covered, hfront.l0Size, hfront.l1Offset, h.l1Size] at hcov
    simp only [not_or, not_and, Nat.not_lt] at hcov
    obtain ⟨hc1, hc2, hc3⟩ := hcov
    have hlen0 := p.length_gapL0
    have hlen1 := p.length_gapL1
    by_cases hman : i < keyManifestSize
    · exact hfront.blank i hc1 hman
    · have hc2' := hc2 (by omega)
      by_cases hbelow : i < keyManifestSize + p.offset.toNat
      · have hb := blank_of_bytesAt h.gapL0 p.blank_gapL0
          (i - (keyManifestSize + imageHeaderSize + p.l0.length)) (by omega)
        rwa [at_at, Nat.add_sub_cancel' hc2'] at hb
      · have hc3' := hc3 (by omega)
        have hb := blank_of_bytesAt h.gapL1 p.blank_gapL1
          (i - (keyManifestSize + p.offset.toNat + imageHeaderSize + p.l1.length)) (by omega)
        rwa [at_at, Nat.add_sub_cancel' hc3'] at hb

theorem slotAt_write (S : Signer) (p : SlotPlan) (m : Memory) (base : Addr) :
    SlotAt S p (write m base (p.bytes S)) base := by
  have hlen := p.length_bytes S
  have h' := bytesAt_write_self m base (p.bytes S) (by rw [hlen]; decide)
  rwa [hlen] at h'

/-- A built slot is accepted wherever it is stored, and the tools build the same slot. -/
theorem built_slot_accepted (S : Signer) (p : SlotPlan) (m : Memory) (base : Addr) :
    (authenticateFirmware S.toCrypto base (S.pub p.manifestKey)).run
        (write m base (p.bytes S)) = .success ∧
      p.toolBytes S = some (p.bytes S) := by
  exact ⟨(slotAt_write S p m base).slotOk.accepted, p.toolBytes_eq S⟩

theorem frontAt_write (S : Signer) (f : FrontPlan) (m : Memory) (base : Addr) :
    FrontAt S f (write m base (f.bytes S)) base := by
  have hlen := f.length_bytes S
  have hle := f.l0_le
  rw [l1ImageSize_eq] at hle
  have h' := bytesAt_write_self m base (f.bytes S) (by
    rw [hlen, keyManifestSize_eq, imageHeaderSize_eq]
    omega)
  rwa [hlen] at h'

/-! ## A signer to run the build with

A sum for the digest and a tagged digest for the signature. -/

def sumDigest (data : List Byte) : List Byte :=
  bytesOfWord (data.foldl (fun sum b => sum + b.setWidth 32) 0) ++ List.replicate 28 0

def paddedKey (key : List Byte) : List Byte :=
  key.take fwEd25519PublicKeyLen ++ List.replicate (fwEd25519PublicKeyLen - key.length) 0

theorem length_paddedKey (key : List Byte) : (paddedKey key).length = fwEd25519PublicKeyLen := by
  simp only [paddedKey, List.length_append, List.length_take, List.length_replicate]
  omega

def tagSigner : Signer where
  sha256 := sumDigest
  length_sha256 := fun _ => rfl
  ed25519Verify := fun key data signature => signature = key ++ sumDigest data
  sign := fun privKey data => paddedKey privKey ++ sumDigest data
  pub := paddedKey
  length_sign := fun k data => by
    rw [List.length_append, length_paddedKey]
    rfl
  length_pub := length_paddedKey
  verify_sign := fun k data => by simp

/-- One byte of L0 and no L1, pointing at `offset`. -/
def minimalFront (manifestKey : List Byte) (offset : Word) : FrontPlan where
  manifestKey := manifestKey
  l0Key := [2]
  l1Key := [3]
  versionL0 := 1
  l0 := [0xAA]
  offset := offset
  gapManifest := List.replicate (keyManifestSize - KeyManifest.size) 0xFF
  l0_pos := by decide
  l0_le := by decide
  length_gapManifest := List.length_replicate
  blank_gapManifest := fun _ hb => Or.inr (List.eq_of_mem_replicate hb)

/-- L1 right behind a one-byte L0. -/
def packedSlot : SlotPlan where
  toFrontPlan := minimalFront [1] 1025
  versionL1 := 1
  l1 := [0xBB]
  l1Next := 0
  gapL0 := []
  gapL1 := List.replicate (fwSlotSize - (keyManifestSize + 1025 + imageHeaderSize + 1)) 0xFF
  l1_pos := by decide
  l1_le := by decide
  l0_end := by decide
  l1_end := by decide
  length_gapL0 := by decide
  length_gapL1 := List.length_replicate
  blank_gapL0 := by simp
  blank_gapL1 := fun _ hb => Or.inr (List.eq_of_mem_replicate hb)

end VerifiedDice.SlotBuild
