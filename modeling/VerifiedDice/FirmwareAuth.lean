import VerifiedDice.ImageAuth

/-!
# Authentication of a firmware slot

`firmware_auth.c`. Addresses and sizes are 32-bit words and wrap as they do there,
in particular the size of the gap after L1. The log lines are left out: they read
and write nothing of the slot.
-/
namespace VerifiedDice.FirmwareAuth

open ByteMemory ImageAuth

inductive AuthFwStatus where
  | success
  | invalidManifest
  | invalidL0
  | invalidL1
  | invalidL1Offset
  | extraDataManifestL0
  | extraDataL0L1
  | extraDataAfterL1
  deriving DecidableEq

/-- The loop of `IsSpaceEmpty` with `n` bytes left. -/
def isSpaceEmptyFrom (p : Addr) : Nat → FwRead Bool
  | 0 => return true
  | n + 1 => do
    let b ← ReadTree.read p
    if b ≠ 0xFF ∧ b ≠ 0 then
      return false
    isSpaceEmptyFrom (at_ p 1) n

/-- Whether the memory range is full of 0 and 0xFF. -/
def isSpaceEmpty (start : Addr) (size : Word) : FwRead Bool := isSpaceEmptyFrom start size.toNat

/-- The unsigned subtraction behind a gap size, noted with its operands. -/
def gapSize (minuend subtrahend : Word) : FwRead Word := do
  ReadTree.tell ⟨minuend, subtrahend⟩
  return minuend - subtrahend

variable (C : Crypto)

/-- `AuthenticateFirmware` from `l1_base_addr` on. -/
def authenticateL1 (base l0BaseAddr : Addr) (l0FwSize nextImageOffset : Word)
    (l1PublicKey : KeyPtr) : FwRead AuthFwStatus := do
  let l1BaseAddr := l0BaseAddr + nextImageOffset
  let status ← verifyImage C l1BaseAddr l1PublicKey
  if status ≠ .success then
    return .invalidL1
  let l0EndAddr := l0BaseAddr + BitVec.ofNat 32 imageHeaderSize + l0FwSize
  let l0L1GapSize ← gapSize l1BaseAddr l0EndAddr
  let empty ← isSpaceEmpty l0EndAddr l0L1GapSize
  if empty = false then
    return .extraDataL0L1
  let l1FwSize ← readWord (at_ l1BaseAddr ImageHeader.fwSize)
  let l1EndAddr := l1BaseAddr + BitVec.ofNat 32 imageHeaderSize + l1FwSize
  let l1EndGapSize ← gapSize (base + getFwSlotSize) l1EndAddr
  let empty ← isSpaceEmpty l1EndAddr l1EndGapSize
  if empty = false then
    return .extraDataAfterL1
  return .success

def authenticateFirmware (base : Addr) (manifestPublicKey : List Byte) :
    FwRead AuthFwStatus := do
  let manifest := base
  let status ← verifyKeyManifest C manifest (pure manifestPublicKey)
  if status ≠ .success then
    return .invalidManifest
  let manifestEnd := at_ base KeyManifest.size
  let manifestL0Size ← gapSize (BitVec.ofNat 32 keyManifestSize) (BitVec.ofNat 32 KeyManifest.size)
  let empty ← isSpaceEmpty manifestEnd manifestL0Size
  if empty = false then
    return .extraDataManifestL0
  let l0PublicKey := keyAt (at_ manifest KeyManifest.l0PubKey)
  let l1PublicKey := keyAt (at_ manifest KeyManifest.l1PubKey)
  let l0Base := at_ base keyManifestSize
  let status ← verifyImage C l0Base l0PublicKey
  if status ≠ .success then
    return .invalidL0
  let l0FwSize ← readWord (at_ l0Base ImageHeader.fwSize)
  let firstValidL1Offset := BitVec.ofNat 32 imageHeaderSize + l0FwSize
  let lastValidL1Offset := getFwSlotSize - BitVec.ofNat 32 imageHeaderSize
  let nextImageOffset ← readWord (at_ l0Base ImageHeader.nextImageOffset)
  if nextImageOffset < firstValidL1Offset ∨ lastValidL1Offset < nextImageOffset then
    return .invalidL1Offset
  authenticateL1 C base l0Base l0FwSize nextImageOffset l1PublicKey

/-! ## Blank space -/

variable (m : Memory)

def Blank (b : Byte) : Prop := b = 0x00 ∨ b = 0xFF

instance (b : Byte) : Decidable (Blank b) := inferInstanceAs (Decidable (_ ∨ _))

theorem not_blank_iff (b : Byte) : (b ≠ 0xFF ∧ b ≠ 0) ↔ ¬ Blank b := by
  unfold Blank
  tauto

theorem run_isSpaceEmptyFrom_succ (p : Addr) (n : Nat) :
    (isSpaceEmptyFrom p (n + 1)).run m =
      if m p ≠ 0xFF ∧ m p ≠ 0 then false else (isSpaceEmptyFrom (at_ p 1) n).run m := by
  change ReadTree.run m (if m p ≠ 0xFF ∧ m p ≠ 0 then pure false
    else isSpaceEmptyFrom (at_ p 1) n) = _
  rw [ReadTree.run_ite, ReadTree.run_pure]

theorem run_isSpaceEmptyFrom (n : Nat) : ∀ p : Addr,
    (isSpaceEmptyFrom p n).run m = true ↔ ∀ i, i < n → Blank (m (at_ p i)) := by
  induction n with
  | zero => intro p; simp [isSpaceEmptyFrom]
  | succ n ih =>
    intro p
    have hstep : (∀ i, i < n + 1 → Blank (m (at_ p i))) ↔
        Blank (m p) ∧ ∀ i, i < n → Blank (m (at_ (at_ p 1) i)) := by
      constructor
      · intro h
        refine ⟨by simpa using h 0 (by omega), fun i hi => ?_⟩
        rw [at_at, Nat.add_comm]
        exact h (i + 1) (by omega)
      · rintro ⟨h0, h⟩ (_ | i) hi
        · simpa using h0
        · have h' := h i (by omega)
          rwa [at_at, Nat.add_comm] at h'
    rw [hstep, ← ih, run_isSpaceEmptyFrom_succ]
    by_cases hb : Blank (m p)
    · rw [if_neg (by rwa [not_blank_iff, not_not])]
      simp only [hb, true_and]
    · rw [if_pos ((not_blank_iff _).mpr hb)]
      simp only [hb, Bool.false_eq_true, false_and]

theorem run_isSpaceEmpty (start : Addr) (size : Word) :
    (isSpaceEmpty start size).run m = true ↔ ∀ i, i < size.toNat → Blank (m (at_ start i)) :=
  run_isSpaceEmptyFrom m size.toNat start

@[simp] theorem run_gapSize (x y : Word) : (gapSize x y).run m = x - y := by simp [gapSize]

/-! ## The accepted slots -/

def l0Header (base : Addr) : Addr := at_ base keyManifestSize

/-- `fw_size` and `next_image_offset` of the L0 header of the slot at `base`. -/
def l0FwSize (base : Addr) : Word := loadWord m (at_ (l0Header base) ImageHeader.fwSize)

def nextImageOffset (base : Addr) : Word :=
  loadWord m (at_ (l0Header base) ImageHeader.nextImageOffset)

def l0Size (base : Addr) : Nat := (l0FwSize m base).toNat

def l1Offset (base : Addr) : Nat := (nextImageOffset m base).toNat

def l1Header (base : Addr) : Addr := at_ base (keyManifestSize + l1Offset m base)

/-- `fw_size` of the L1 header of the slot at `base`. -/
def l1Size (base : Addr) : Nat :=
  (loadWord m (at_ (l1Header m base) ImageHeader.fwSize)).toNat

def l0PubKey (base : Addr) : List Byte :=
  bytesAt m (at_ base KeyManifest.l0PubKey) fwEd25519PublicKeyLen

def l1PubKey (base : Addr) : List Byte :=
  bytesAt m (at_ base KeyManifest.l1PubKey) fwEd25519PublicKeyLen

/-- The slot offsets that a signature or a signed hash accounts for. -/
def Covered (base : Addr) (i : Nat) : Prop :=
  i < KeyManifest.size ∨
  (keyManifestSize ≤ i ∧ i < keyManifestSize + imageHeaderSize + l0Size m base) ∨
  (keyManifestSize + l1Offset m base ≤ i ∧
    i < keyManifestSize + l1Offset m base + imageHeaderSize + l1Size m base)

/-- The slots that authentication is meant to accept. -/
structure SlotOk (base : Addr) (key : List Byte) : Prop where
  manifest : ManifestOk C m base key
  l0 : ImageOk C m (l0Header base) (l0PubKey m base)
  l1 : ImageOk C m (l1Header m base) (l1PubKey m base)
  l0_end : imageHeaderSize + l0Size m base ≤ l1Offset m base
  l1_end : keyManifestSize + l1Offset m base + imageHeaderSize + l1Size m base ≤ fwSlotSize
  blank : ∀ i, i < fwSlotSize → ¬ Covered m base i → Blank (m (at_ base i))

/-- The checks that come before anything of L1 is read. -/
structure L1Reached (base : Addr) (key : List Byte) : Prop where
  manifest : ManifestOk C m base key
  blank : ∀ i, KeyManifest.size ≤ i → i < keyManifestSize → Blank (m (at_ base i))
  l0 : ImageOk C m (l0Header base) (l0PubKey m base)
  first : imageHeaderSize + l0Size m base ≤ l1Offset m base
  last : l1Offset m base ≤ fwSlotSize - imageHeaderSize

/-! ## Exact acceptance -/

theorem run_authenticateL1 (base l0BaseAddr : Addr) (l0FwSize nextImageOffset : Word)
    (key : KeyPtr) {l1BaseAddr l0EndAddr l1EndAddr : Addr}
    (hbase : l1BaseAddr = l0BaseAddr + nextImageOffset)
    (hend : l0EndAddr = l0BaseAddr + BitVec.ofNat 32 imageHeaderSize + l0FwSize)
    (hend' : l1EndAddr = l1BaseAddr + BitVec.ofNat 32 imageHeaderSize +
      loadWord m (at_ l1BaseAddr ImageHeader.fwSize)) :
    (authenticateL1 C base l0BaseAddr l0FwSize nextImageOffset key).run m = .success ↔
      ImageOk C m l1BaseAddr (key.run m) ∧
      (∀ i, i < (l1BaseAddr - l0EndAddr).toNat → Blank (m (at_ l0EndAddr i))) ∧
      (∀ i, i < (base + getFwSlotSize - l1EndAddr).toNat → Blank (m (at_ l1EndAddr i))) := by
  subst hbase hend hend'
  unfold authenticateL1
  rw [ReadTree.run_guard _ _ _ _ _ (by decide), ReadTree.run_bind,
    ReadTree.run_guard _ _ _ _ _ (by decide), ReadTree.run_bind, ReadTree.run_bind,
    ReadTree.run_guard _ _ _ _ _ (by decide)]
  simp only [not_not, run_verifyImage, run_gapSize, run_readWord, ReadTree.run_pure, and_true,
    Bool.not_eq_false, run_isSpaceEmpty]

theorem offset_accepted {size offset : Word} (hsize : size.toNat ≤ l1ImageSize) :
    ¬ (offset < BitVec.ofNat 32 imageHeaderSize + size ∨
      getFwSlotSize - BitVec.ofNat 32 imageHeaderSize < offset) ↔
      imageHeaderSize + size.toNat ≤ offset.toNat ∧
        offset.toNat ≤ fwSlotSize - imageHeaderSize := by
  have hslot : getFwSlotSize = 786336#32 := rfl
  rw [l1ImageSize_eq] at hsize
  rw [hslot, fwSlotSize_eq, imageHeaderSize_eq]
  bv_omega

/-- The checks up to the range check on the offset, as the source makes them. -/
theorem l1Reached_iff (base : Addr) (key : List Byte) :
    L1Reached C m base key ↔
      ManifestOk C m base key ∧
      (∀ i, i < keyManifestSize - KeyManifest.size →
        Blank (m (at_ (at_ base KeyManifest.size) i))) ∧
      ImageOk C m (l0Header base) (l0PubKey m base) ∧
      ¬ (nextImageOffset m base < BitVec.ofNat 32 imageHeaderSize + l0FwSize m base ∨
        getFwSlotSize - BitVec.ofNat 32 imageHeaderSize < nextImageOffset m base) := by
  constructor
  · intro h
    refine ⟨h.manifest, fun i hi => ?_, h.l0, (offset_accepted h.l0.size_le).mpr ⟨h.first, h.last⟩⟩
    rw [at_at]
    exact h.blank _ (by omega) (by omega)
  · rintro ⟨hm, hblank, hl0, hoff⟩
    obtain ⟨hfirst, hlast⟩ := (offset_accepted hl0.size_le).mp hoff
    refine ⟨hm, fun i hi hi' => ?_, hl0, hfirst, hlast⟩
    have h := hblank (i - KeyManifest.size) (by omega)
    rwa [at_at, Nat.add_sub_cancel' hi] at h

theorem manifestGap_toNat :
    (BitVec.ofNat 32 keyManifestSize - BitVec.ofNat 32 KeyManifest.size).toNat =
      keyManifestSize - KeyManifest.size := by decide

theorem run_authenticateFirmware (base : Addr) (key : List Byte) :
    (authenticateFirmware C base key).run m = .success ↔
      L1Reached C m base key ∧
      (authenticateL1 C base (l0Header base) (l0FwSize m base) (nextImageOffset m base)
        (keyAt (at_ base KeyManifest.l1PubKey))).run m = .success := by
  unfold authenticateFirmware
  rw [ReadTree.run_guard _ _ _ _ _ (by decide), ReadTree.run_bind,
    ReadTree.run_guard _ _ _ _ _ (by decide), ReadTree.run_guard _ _ _ _ _ (by decide),
    ReadTree.run_bind, ReadTree.run_guard _ _ _ _ _ (by decide), l1Reached_iff]
  simp only [not_not, run_verifyKeyManifest, run_verifyImage, run_gapSize, run_readWord,
    ReadTree.run_pure, Bool.not_eq_false, run_isSpaceEmpty, manifestGap_toNat, run_keyAt, and_assoc]
  rfl

/-- The wrapped scan after an L1 image that leaves the slot meets the magic of L0. -/
theorem l0_magic_not_blank {base : Addr} {key : List Byte}
    (h : ImageOk C m (l0Header base) key) : ¬ Blank (m (l0Header base)) := by
  rw [first_byte_of_loadWord m, h.magic]
  decide

theorem l1_end_of_blank {base : Addr} {key : List Byte} {e : Nat} (he : e ≤ 2 ^ 32)
    (h0 : keyManifestSize < e) (hl0 : ImageOk C m (l0Header base) key)
    (h : ∀ i, i < (base + getFwSlotSize - at_ base e).toNat → Blank (m (at_ (at_ base e) i))) :
    e ≤ fwSlotSize := by
  by_contra hlt
  rw [fwSlotSize_eq] at hlt
  rw [keyManifestSize_eq] at h0
  have hslot : at_ base fwSlotSize = base + getFwSlotSize := rfl
  have hsize : (base + getFwSlotSize - at_ base e).toNat = 2 ^ 32 + fwSlotSize - e := by
    have hcycle : at_ base fwSlotSize = at_ base (2 ^ 32 + fwSlotSize) := by
      simp only [at_, BitVec.ofNat_add]
      rfl
    rw [← hslot, hcycle, at_sub_at _ (by omega) (by rw [fwSlotSize_eq]; omega)]
  have hwrap : at_ (at_ base e) (2 ^ 32 + keyManifestSize - e) = l0Header base := by
    have hsum : e + (2 ^ 32 + keyManifestSize - e) = 2 ^ 32 + keyManifestSize := by omega
    rw [at_at, hsum, l0Header]
    simp only [at_, BitVec.ofNat_add]
    rfl
  have hmagic := h (2 ^ 32 + keyManifestSize - e) (by
    rw [hsize, fwSlotSize_eq, keyManifestSize_eq]
    omega)
  rw [hwrap] at hmagic
  exact l0_magic_not_blank C m hl0 hmagic

/-- The addresses of the two images, by their offsets in the slot. -/
theorem l1_base_eq (base : Addr) :
    l1Header m base = l0Header base + nextImageOffset m base := by
  rw [l0Header, at_add_word]
  rfl

theorem l0_end_eq (base : Addr) :
    at_ base (keyManifestSize + imageHeaderSize + l0Size m base) =
      l0Header base + BitVec.ofNat 32 imageHeaderSize + l0FwSize m base := by
  rw [l0Header, ← at_, at_at, at_add_word]
  rfl

theorem l1_end_eq (base : Addr) :
    at_ base (keyManifestSize + l1Offset m base + imageHeaderSize + l1Size m base) =
      l1Header m base + BitVec.ofNat 32 imageHeaderSize +
        loadWord m (at_ (l1Header m base) ImageHeader.fwSize) := by
  rw [l1Header, ← at_, at_at, at_add_word]
  rfl

theorem slotOk_of_accepted {base : Addr} {key : List Byte}
    (h : (authenticateFirmware C base key).run m = .success) : SlotOk C m base key := by
  rw [run_authenticateFirmware, run_authenticateL1 C m base _ _ _ _ (l1_base_eq m base)
    (l0_end_eq m base) (l1_end_eq m base), run_keyAt] at h
  obtain ⟨hr, hl1, hgap, hend⟩ := h
  have hm : KeyManifest.size = 132 := rfl
  have hk := keyManifestSize_eq
  have hi := imageHeaderSize_eq
  have hs := fwSlotSize_eq
  have hs0 : l0Size m base ≤ l1ImageSize := hr.l0.size_le
  have hs1 : l1Size m base ≤ l1ImageSize := hl1.size_le
  have hfirst := hr.first
  have hlast := hr.last
  rw [l1ImageSize_eq] at hs0 hs1
  have hfit := l1_end_of_blank C m (by omega) (by omega) hr.l0 hend
  have hslot : at_ base fwSlotSize = base + getFwSlotSize := rfl
  rw [l1Header, at_sub_at _ (by omega) (by omega)] at hgap
  rw [← hslot, at_sub_at _ hfit (by omega)] at hend
  refine ⟨hr.manifest, hr.l0, hl1, hfirst, hfit, fun i hlt hcov => ?_⟩
  simp only [Covered, not_or, not_and, Nat.not_lt] at hcov
  obtain ⟨h1, h2, h3⟩ := hcov
  -- the byte is in one of the three scanned gaps
  by_cases hman : i < keyManifestSize
  · exact hr.blank i h1 hman
  · have h2' := h2 (by omega)
    by_cases hbelow : i < keyManifestSize + l1Offset m base
    · have h := hgap (i - (keyManifestSize + imageHeaderSize + l0Size m base)) (by omega)
      rwa [at_at, Nat.add_sub_cancel' (by omega)] at h
    · have h3' := h3 (by omega)
      have h := hend (i - (keyManifestSize + l1Offset m base + imageHeaderSize +
        l1Size m base)) (by omega)
      rwa [at_at, Nat.add_sub_cancel' (by omega)] at h

theorem SlotOk.accepted {base : Addr} {key : List Byte} (h : SlotOk C m base key) :
    (authenticateFirmware C base key).run m = .success := by
  rw [run_authenticateFirmware, run_authenticateL1 C m base _ _ _ _ (l1_base_eq m base)
    (l0_end_eq m base) (l1_end_eq m base), run_keyAt]
  have hm : KeyManifest.size = 132 := rfl
  have hk := keyManifestSize_eq
  have hi := imageHeaderSize_eq
  have hs := fwSlotSize_eq
  have hl0end := h.l0_end
  have hl1end := h.l1_end
  have hslot : at_ base fwSlotSize = base + getFwSlotSize := rfl
  refine ⟨⟨h.manifest, fun i hlo hhi => h.blank i (by omega) ?_, h.l0, hl0end, by omega⟩, h.l1,
    fun i hlt => ?_, fun i hlt => ?_⟩
  · simp only [Covered]
    omega
  · rw [l1Header, at_sub_at _ (by omega) (by omega)] at hlt
    rw [at_at]
    refine h.blank _ (by omega) ?_
    simp only [Covered]
    omega
  · rw [← hslot, at_sub_at _ hl1end (by omega)] at hlt
    rw [at_at]
    refine h.blank _ (by omega) ?_
    simp only [Covered]
    omega

/-- A slot is accepted exactly when it is `SlotOk`, at any base, also one where the
slot wraps around the address space. -/
theorem authenticateFirmware_success_iff (base : Addr) (key : List Byte) :
    (authenticateFirmware C base key).run m = .success ↔ SlotOk C m base key :=
  ⟨slotOk_of_accepted C m, SlotOk.accepted C m⟩

end VerifiedDice.FirmwareAuth
