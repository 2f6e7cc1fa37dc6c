import VerifiedDice.SlotBuild
import VerifiedDice.SharedRam

/-!
# The descriptor for the DICE core

`st()` of `HWAbstraction.c`: the addresses and sizes by which the DICE core, a
submodule, authenticates L0 before it derives the CDI.
-/
namespace VerifiedDice.HWAbstraction

open ByteMemory ImageAuth FirmwareAuth SlotBuild

/-- `HWState_l0_image_t`. -/
structure L0Image where
  headerSize : Word
  imageHeader : Addr
  headerSig : Addr
  imageSize : Word
  imageBase : Addr
  imageHash : Addr
  pubkey : Addr

/-- `HWState_state`. -/
structure State where
  cdi : Addr
  l0 : L0Image

def st (m : Memory) : State :=
  let base := getFwActiveStart
  let l0PublicKey := at_ base KeyManifest.l0PubKey
  let l0Base := at_ base keyManifestSize
  let fwStart := at_ l0Base firmwareImageOffset
  let headerSize := BitVec.ofNat 32 (ImageHeader.size - fwEd25519SignatureLen)
  let img : L0Image :=
    { headerSize := headerSize
      imageHeader := l0Base
      headerSig := at_ l0Base ImageHeader.headerSignature
      imageSize := loadWord m (at_ l0Base ImageHeader.fwSize)
      imageBase := fwStart
      imageHash := at_ l0Base ImageHeader.fwHash
      pubkey := l0PublicKey }
  { cdi := at_ getSharedDiceL0 L0Params.cdi, l0 := img }

variable (C : Crypto) (m : Memory)

/-- When `dice_main` succeeds on a descriptor: the submodule's contract. -/
def L0Image.Authentic (img : L0Image) : Prop :=
  C.ed25519Verify (bytesAt m img.pubkey fwEd25519PublicKeyLen)
      (bytesAt m img.imageHeader img.headerSize.toNat)
      (bytesAt m img.headerSig fwEd25519SignatureLen) = true ∧
    C.sha256 (bytesAt m img.imageBase img.imageSize.toNat) = bytesAt m img.imageHash digestLength

/-- What the firmware verifier asks of manifest and L0, and that what is hashed is flash. -/
structure L0Trusted (key : List Byte) : Prop where
  manifest : (verifyKeyManifest C getFwActiveStart (pure key)).run m = .success
  image : (verifyImage C (l0Header getFwActiveStart)
    (keyAt (at_ getFwActiveStart KeyManifest.l0PubKey))).run m = .success
  hashed : ∀ i, i < (st m).l0.imageSize.toNat → InFlash (at_ (st m).l0.imageBase i)

/-- The fields of the slot that the verifier inspects and the descriptor does not carry. -/
structure FieldsChecked (key : List Byte) : Prop where
  version : loadWord m getFwActiveStart = keyManifestVersion
  manifestSignature : C.ed25519Verify key (bytesAt m getFwActiveStart KeyManifest.signature)
    (bytesAt m (at_ getFwActiveStart KeyManifest.signature) fwEd25519SignatureLen) = true
  magic : loadWord m (l0Header getFwActiveStart) = imageHeaderMagic
  size_pos : 0 < l0Size m getFwActiveStart
  size_le : l0Size m getFwActiveStart ≤ l1ImageSize

/-- The descriptor check is the rest of `VerifyImage`. -/
theorem imageOk_of_authentic {key : List Byte} (ha : (st m).l0.Authentic C m)
    (hf : FieldsChecked C m key) :
    ImageOk C m (l0Header getFwActiveStart) (l0PubKey m getFwActiveStart) :=
  ⟨hf.magic, hf.size_pos, hf.size_le, ha.2, ha.1⟩

theorem authentic_of_imageOk
    (h : ImageOk C m (l0Header getFwActiveStart) (l0PubKey m getFwActiveStart)) :
    (st m).l0.Authentic C m := ⟨h.signature, h.hash⟩

theorem hashed_in_flash (hle : l0Size m getFwActiveStart ≤ l1ImageSize) (i : Nat)
    (hi : i < (st m).l0.imageSize.toNat) : InFlash (at_ (st m).l0.imageBase i) := by
  have hsize : (st m).l0.imageSize.toNat = l0Size m getFwActiveStart := rfl
  have hbase : (st m).l0.imageBase = at_ getFlashStart 133120 := by
    show at_ (at_ getFwActiveStart keyManifestSize) firmwareImageOffset = _
    decide
  rw [l1ImageSize_eq] at hle
  rw [hbase, at_at, InFlash, within_at _ (by omega)]
  omega

theorem trusted_iff {key : List Byte} (ha : (st m).l0.Authentic C m) :
    L0Trusted C m key ↔ FieldsChecked C m key := by
  constructor
  · intro h
    have hm := (run_verifyKeyManifest C m getFwActiveStart (pure key)).mp h.manifest
    have hi := (run_verifyImage C m _ _).mp h.image
    exact ⟨hm.version, hm.signature, hi.magic, hi.size_pos, hi.size_le⟩
  · intro h
    refine ⟨(run_verifyKeyManifest C m getFwActiveStart (pure key)).mpr
      ⟨h.version, h.manifestSignature⟩, (run_verifyImage C m _ _).mpr ?_,
      hashed_in_flash m h.size_le⟩
    have hok := imageOk_of_authentic C m ha h
    rw [run_keyAt]
    exact hok

/-- A boot that the DICE core lets through is one the verifier accepts exactly when
the fields that only the verifier inspects are right. -/
theorem boot_trusted_iff (key : List Byte) :
    ((st m).l0.Authentic C m → L0Trusted C m key) ↔
      ((st m).l0.Authentic C m → FieldsChecked C m key) :=
  forall_congr' fun ha => trusted_iff C m ha

/-- The manifest key that the slot below is checked against. -/
def otherKey : List Byte := tagSigner.pub [9]

/-- A slot whose manifest carries someone else's signature passes the descriptor check. -/
theorem foreign_manifest_not_trusted :
    ¬ ((st (write (fun _ => 0xFF) getFwActiveStart
          ((minimalFront [1] 1025).bytes tagSigner))).l0.Authentic tagSigner.toCrypto
        (write (fun _ => 0xFF) getFwActiveStart ((minimalFront [1] 1025).bytes tagSigner)) →
      L0Trusted tagSigner.toCrypto
        (write (fun _ => 0xFF) getFwActiveStart ((minimalFront [1] 1025).bytes tagSigner))
        otherKey) := by
  have hat := frontAt_write tagSigner (minimalFront [1] 1025) (fun _ => 0xFF) getFwActiveStart
  generalize write (fun _ => 0xFF) getFwActiveStart ((minimalFront [1] 1025).bytes tagSigner) = m
    at hat ⊢
  have hreached := hat.l1Reached (by decide) (by decide)
  have ha := authentic_of_imageOk tagSigner.toCrypto m hreached.l0
  intro h
  have hforeign := ((trusted_iff tagSigner.toCrypto m ha).mp (h ha)).manifestSignature
  -- the signature names the signer, so it cannot verify under both keys
  have hown := hreached.manifest.signature
  have htag : otherKey = tagSigner.pub [1] := by
    have h1 := of_decide_eq_true hforeign
    have h2 := of_decide_eq_true hown
    exact List.append_cancel_right (h1.symm.trans h2)
  revert htag
  decide

end VerifiedDice.HWAbstraction
