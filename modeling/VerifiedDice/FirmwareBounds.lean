import VerifiedDice.SlotBuild

/-!
# What authentication reads

The reads of `AuthenticateFirmware` and the operands of its gap subtractions. The
limit on `next_image_offset` is taken from the slot size although the offset counts
from the L0 header, 1 KB into the slot, and nothing relates the L1 size to the
offset before L1 is hashed. `L1InSlot` is what is missing.
-/
namespace VerifiedDice.FirmwareBounds

open ByteMemory ImageAuth FirmwareAuth SlotBuild

variable (C : Crypto) (m : Memory)

/-! ## Reads of the parts -/

theorem forall_mem_range_map {n : Nat} {a : Addr} {P : Addr → Prop} :
    (∀ x ∈ (List.range n).map (at_ a), P x) ↔ ∀ i, i < n → P (at_ a i) := by
  rw [List.forall_mem_map]
  exact forall_congr' fun i => by rw [List.mem_range]

theorem forall_reads_readBytes {a : Addr} {n : Nat} {P : Addr → Prop} :
    (∀ x ∈ (readBytes a n).reads m, P x) ↔ ∀ i, i < n → P (at_ a i) := by
  rw [reads_readBytes, forall_mem_range_map]

theorem forall_reads_readWord {a : Addr} {P : Addr → Prop} :
    (∀ x ∈ (readWord a).reads m, P x) ↔ ∀ i, i < 4 → P (at_ a i) := by
  rw [reads_readWord, forall_mem_range_map]

theorem forall_reads_verifyHash {h b : Addr} {size : Word} {P : Addr → Prop} :
    (∀ x ∈ (verifyHash C h b size).reads m, P x) ↔
      (∀ i, i < size.toNat → P (at_ b i)) ∧ ∀ i, i < digestLength → P (at_ h i) := by
  rw [verifyHash, ReadTree.reads_bind, ReadTree.reads_bind, ReadTree.reads_pure, List.append_nil,
    List.forall_mem_append, forall_reads_readBytes, forall_reads_readBytes]

theorem forall_reads_ed25519Verify {sig data : Addr} {n : Nat} {key : KeyPtr} {P : Addr → Prop} :
    (∀ x ∈ (ed25519Verify C sig data n key).reads m, P x) ↔
      (∀ x ∈ key.reads m, P x) ∧ (∀ i, i < n → P (at_ data i)) ∧
        ∀ i, i < fwEd25519SignatureLen → P (at_ sig i) := by
  rw [ed25519Verify, ReadTree.reads_bind, ReadTree.reads_bind, ReadTree.reads_bind,
    ReadTree.reads_pure, List.append_nil, List.forall_mem_append, List.forall_mem_append,
    forall_reads_readBytes, forall_reads_readBytes]

/-- The reads of `VerifyImage`, in the order of its checks. -/
theorem forall_reads_verifyImage {a : Addr} {key : KeyPtr} {P : Addr → Prop} :
    (∀ x ∈ (verifyImage C a key).reads m, P x) ↔
      (∀ i, i < 4 → P (at_ a i)) ∧
      (loadWord m a = imageHeaderMagic →
        (∀ i, i < 4 → P (at_ a (ImageHeader.fwSize + i))) ∧
        (0 < (loadWord m (at_ a ImageHeader.fwSize)).toNat ∧
            (loadWord m (at_ a ImageHeader.fwSize)).toNat ≤ l1ImageSize →
          (∀ i, i < (loadWord m (at_ a ImageHeader.fwSize)).toNat →
            P (at_ a (firmwareImageOffset + i))) ∧
          (∀ i, i < digestLength → P (at_ a (ImageHeader.fwHash + i))) ∧
          ((verifyHash C (at_ a ImageHeader.fwHash) (at_ a firmwareImageOffset)
              (loadWord m (at_ a ImageHeader.fwSize))).run m = 0 →
            (∀ x ∈ key.reads m, P x) ∧
            (∀ i, i < ImageHeader.headerSignature → P (at_ a i)) ∧
            ∀ i, i < fwEd25519SignatureLen → P (at_ a (ImageHeader.headerSignature + i))))) := by
  have hdata : ImageHeader.size - fwEd25519SignatureLen = ImageHeader.headerSignature := rfl
  unfold verifyImage
  rw [ReadTree.forall_reads_guard, ReadTree.forall_reads_guard, ReadTree.forall_reads_guard,
    ReadTree.forall_reads_guard]
  simp only [forall_reads_readWord, run_readWord, forall_reads_verifyHash, verifyHeaderSignature,
    forall_reads_ed25519Verify, ReadTree.reads_pure, List.not_mem_nil, false_implies, implies_true,
    and_true, not_not, fwSize_accepted, ImageHeader.magic, at_zero, at_at, hdata, and_assoc]

theorem reads_isSpaceEmptyFrom (n : Nat) : ∀ p : Addr, ∀ x ∈ (isSpaceEmptyFrom p n).reads m,
    ∃ i, i < n ∧ x = at_ p i := by
  induction n with
  | zero => intro p x hx; cases hx
  | succ n ih =>
    intro p x hx
    simp only [isSpaceEmptyFrom, ReadTree.reads_bind, ReadTree.reads_read, List.mem_append,
      List.mem_singleton] at hx
    rcases hx with rfl | hx
    · exact ⟨0, by omega, (at_zero _).symm⟩
    · split at hx
      · cases hx
      · obtain ⟨i, hi, rfl⟩ := ih _ x hx
        exact ⟨i + 1, by omega, by rw [at_at, Nat.add_comm]⟩

theorem reads_isSpaceEmpty {p : Addr} {size : Word} {P : Addr → Prop}
    (h : ∀ i, i < size.toNat → P (at_ p i)) : ∀ x ∈ (isSpaceEmpty p size).reads m, P x := by
  intro x hx
  obtain ⟨i, hi, rfl⟩ := reads_isSpaceEmptyFrom m size.toNat p x hx
  exact h i hi

@[simp] theorem reads_gapSize (x y : Word) : (gapSize x y).reads m = [] := by simp [gapSize]
@[simp] theorem notes_gapSize (x y : Word) : (gapSize x y).notes m = [⟨x, y⟩] := by simp [gapSize]

/-! ## Only the gap sizes leave notes -/

theorem notes_isSpaceEmptyFrom (n : Nat) : ∀ p : Addr, (isSpaceEmptyFrom p n).notes m = [] := by
  induction n with
  | zero => intro p; rfl
  | succ n ih =>
    intro p
    simp only [isSpaceEmptyFrom, ReadTree.notes_bind, ReadTree.notes_read, List.nil_append]
    split
    · rfl
    · exact ih _

theorem notes_isSpaceEmpty (p : Addr) (size : Word) : (isSpaceEmpty p size).notes m = [] :=
  notes_isSpaceEmptyFrom m size.toNat p

theorem notes_ed25519Verify {sig data : Addr} {n : Nat} {key : KeyPtr} (hk : key.notes m = []) :
    (ed25519Verify C sig data n key).notes m = [] := by
  simp [ed25519Verify, hk]

theorem notes_verifyImage {a : Addr} {key : KeyPtr} (hk : key.notes m = []) :
    (verifyImage C a key).notes m = [] := by
  have hsig : (verifyHeaderSignature C a key).notes m = [] := notes_ed25519Verify C m hk
  rw [List.eq_nil_iff_forall_not_mem]
  unfold verifyImage
  rw [ReadTree.forall_notes_guard, ReadTree.forall_notes_guard, ReadTree.forall_notes_guard,
    ReadTree.forall_notes_guard]
  simp [hsig, verifyHash]

theorem notes_verifyKeyManifest {a : Addr} {key : KeyPtr} (hk : key.notes m = []) :
    (verifyKeyManifest C a key).notes m = [] := by
  have hsig : (ed25519Verify C (at_ a KeyManifest.signature) a
      (KeyManifest.size - fwEd25519SignatureLen) key).notes m = [] := notes_ed25519Verify C m hk
  rw [List.eq_nil_iff_forall_not_mem]
  unfold verifyKeyManifest
  rw [ReadTree.forall_notes_guard, ReadTree.forall_notes_guard]
  simp [hsig]

/-! ## The bounds -/

def InSlot (base x : Addr) : Prop := Within base fwSlotSize x

theorem inSlot_at (base : Addr) {i : Nat} (hi : i < 2 ^ 32) :
    InSlot base (at_ base i) ↔ i < fwSlotSize := within_at base hi

def GapSub.NoWrap (g : GapSub) : Prop := g.subtrahend.toNat ≤ g.minuend.toNat

/-- Every byte read is in the slot, no gap size wraps, and the verdict depends on
nothing but the slot. -/
structure Bounded (base : Addr) (key : List Byte) : Prop where
  reads : ∀ x ∈ (authenticateFirmware C base key).reads m, InSlot base x
  gaps : ∀ g ∈ (authenticateFirmware C base key).notes m, GapSub.NoWrap g
  verdict : ∀ m' : Memory, AgreeOn (InSlot base) m m' →
    (authenticateFirmware C base key).run m' = (authenticateFirmware C base key).run m

/-- As much of the L1 header as is looked at, and the L1 image if it is hashed, end
inside the slot. -/
def L1InSlot (base : Addr) : Prop :=
  keyManifestSize + l1Offset m base + 4 ≤ fwSlotSize ∧
  (loadWord m (l1Header m base) = imageHeaderMagic →
    keyManifestSize + l1Offset m base + 12 ≤ fwSlotSize ∧
    (0 < l1Size m base ∧ l1Size m base ≤ l1ImageSize →
      keyManifestSize + l1Offset m base + imageHeaderSize + l1Size m base ≤ fwSlotSize))

/-- A verified image is read up to its end at most. -/
theorem reads_verifyImage_of_fit {base : Addr} {k : Nat} {key : KeyPtr} {P : Addr → Prop}
    (hkey : ∀ x ∈ key.reads m, P x) (hheader : ∀ i, i < imageHeaderSize → P (at_ base (k + i)))
    (himage : (loadWord m (at_ (at_ base k) ImageHeader.fwSize)).toNat ≤ l1ImageSize →
      ∀ i, i < (loadWord m (at_ (at_ base k) ImageHeader.fwSize)).toNat →
        P (at_ base (k + firmwareImageOffset + i))) :
    ∀ x ∈ (verifyImage C (at_ base k) key).reads m, P x := by
  have hsize : ImageHeader.fwSize = 8 := rfl
  have hhash : ImageHeader.fwHash = 12 := rfl
  have hsig : ImageHeader.headerSignature = 960 := rfl
  have hlen : fwEd25519SignatureLen = 64 := rfl
  have hdig : digestLength = 32 := rfl
  have hih := imageHeaderSize_eq
  rw [forall_reads_verifyImage]
  simp only [at_at] at *
  refine ⟨fun i hi => hheader i (by omega), fun _ => ⟨fun i hi => hheader _ (by omega),
    fun hs => ⟨fun i hi => ?_, fun i hi => hheader _ (by omega), fun _ => ⟨hkey,
      fun i hi => hheader i (by omega), fun i hi => hheader _ (by omega)⟩⟩⟩⟩
  have h := himage hs.2 i hi
  rwa [Nat.add_assoc] at h

theorem reads_verifyKeyManifest {base : Addr} {key : List Byte} {P : Addr → Prop}
    (h : ∀ i, i < KeyManifest.size → P (at_ base i)) :
    ∀ x ∈ (verifyKeyManifest C base (pure key)).reads m, P x := by
  have hks : KeyManifest.size = 132 := rfl
  have hsig : KeyManifest.signature = 68 := rfl
  have hlen : fwEd25519SignatureLen = 64 := rfl
  unfold verifyKeyManifest
  rw [ReadTree.forall_reads_guard, ReadTree.forall_reads_guard, forall_reads_readWord,
    forall_reads_ed25519Verify]
  simp only [KeyManifest.version, at_zero, at_at, ReadTree.reads_pure, List.not_mem_nil,
    false_implies, implies_true, and_true, true_and]
  exact ⟨fun i hi => h i (by omega), fun _ => ⟨fun i hi => h i (by omega),
    fun i hi => h _ (by omega)⟩⟩

theorem reads_keyAt {base : Addr} {k : Nat} {P : Addr → Prop} (hk : k + 32 ≤ KeyManifest.size)
    (h : ∀ i, i < KeyManifest.size → P (at_ base i)) :
    ∀ x ∈ (keyAt (at_ base k)).reads m, P x := by
  have hlen : fwEd25519PublicKeyLen = 32 := rfl
  rw [keyAt, forall_reads_readBytes]
  intro i hi
  rw [at_at]
  exact h _ (by omega)

/-- The reads of authentication: those of the front part, and, when everything up
to the offset check holds, those of L1. -/
theorem forall_reads_authenticateFirmware {base : Addr} {key : List Byte} {P : Addr → Prop}
    (hfront : ∀ i, i < keyManifestSize + imageHeaderSize + l1ImageSize → P (at_ base i)) :
    (∀ x ∈ (authenticateFirmware C base key).reads m, P x) ↔
      (L1Reached C m base key →
        ∀ x ∈ (authenticateL1 C base (l0Header base) (l0FwSize m base) (nextImageOffset m base)
          (keyAt (at_ base KeyManifest.l1PubKey))).reads m, P x) := by
  have hkm := keyManifestSize_eq
  have hih := imageHeaderSize_eq
  have hl1 := l1ImageSize_eq
  have hks : KeyManifest.size = 132 := rfl
  have hmanifest : ∀ x ∈ (verifyKeyManifest C base (pure key)).reads m, P x :=
    reads_verifyKeyManifest C m fun i hi => hfront i (by omega)
  have hl0 : ∀ x ∈ (verifyImage C (l0Header base) (keyAt (at_ base KeyManifest.l0PubKey))).reads m,
      P x := by
    refine reads_verifyImage_of_fit C m (reads_keyAt m (by decide) fun i hi => hfront i (by omega))
      (fun i hi => hfront _ (by omega)) fun hs i hi => hfront _ ?_
    rw [firmwareImageOffset_eq]
    omega
  have hgap : ∀ x ∈ (isSpaceEmpty (at_ base KeyManifest.size)
      (BitVec.ofNat 32 keyManifestSize - BitVec.ofNat 32 KeyManifest.size)).reads m, P x := by
    refine reads_isSpaceEmpty m fun i hi => ?_
    rw [manifestGap_toNat] at hi
    rw [at_at]
    exact hfront _ (by omega)
  have hword : ∀ k, k ≤ 1020 → ∀ x ∈ (readWord (at_ (l0Header base) k)).reads m, P x := by
    intro k hk
    rw [forall_reads_readWord]
    intro i hi
    rw [l0Header, at_at, at_at]
    exact hfront _ (by omega)
  have hfwSize := hword ImageHeader.fwSize (by decide)
  have hoffset := hword ImageHeader.nextImageOffset (by decide)
  unfold authenticateFirmware
  rw [ReadTree.forall_reads_guard, ReadTree.forall_reads_bind, ReadTree.forall_reads_guard,
    ReadTree.forall_reads_guard, ReadTree.forall_reads_bind, ReadTree.forall_reads_guard,
    l1Reached_iff]
  simp only [not_not, run_verifyKeyManifest, run_verifyImage, run_gapSize, run_readWord,
    ReadTree.run_pure, Bool.not_eq_false, run_isSpaceEmpty, manifestGap_toNat, run_keyAt, and_imp]
  constructor
  · intro h hm hb hi hoff
    exact (((h.2 hm).2.2 hb).2 hi).2.2 hoff
  · intro h
    exact ⟨hmanifest, fun hm => ⟨by simp, hgap, fun hb =>
      ⟨hl0, fun hi => ⟨hfwSize, hoffset, h hm hb hi⟩⟩⟩⟩

theorem L1InSlot.image_end {base : Addr} {key : List Byte} (h : L1InSlot m base)
    (hok : ImageOk C m (l1Header m base) key) :
    keyManifestSize + l1Offset m base + imageHeaderSize + l1Size m base ≤ fwSlotSize :=
  (h.2 hok.magic).2 ⟨hok.size_pos, hok.size_le⟩

/-- The reads of L1's header and image stay in the slot exactly under `L1InSlot`. -/
theorem reads_verifyImage_l1 {base : Addr} {key : KeyPtr}
    (hlast : l1Offset m base ≤ fwSlotSize - imageHeaderSize)
    (hkey : ∀ x ∈ key.reads m, InSlot base x) :
    (∀ x ∈ (verifyImage C (l1Header m base) key).reads m, InSlot base x) ↔ L1InSlot m base := by
  have hkm := keyManifestSize_eq
  have hih := imageHeaderSize_eq
  have hl1 := l1ImageSize_eq
  have hslot := fwSlotSize_eq
  have hoff := firmwareImageOffset_eq
  have hfield : ImageHeader.fwSize = 8 := rfl
  have hhash : ImageHeader.fwHash = 12 := rfl
  have hsig : ImageHeader.headerSignature = 960 := rfl
  have hlen : fwEd25519SignatureLen = 64 := rfl
  have hdig : digestLength = 32 := rfl
  have hin : ∀ j, j < 2 ^ 31 → (InSlot base (at_ (l1Header m base) j) ↔
      keyManifestSize + l1Offset m base + j < fwSlotSize) := by
    intro j hj
    rw [l1Header, at_at, inSlot_at base (by omega)]
  rw [forall_reads_verifyImage, L1InSlot]
  constructor
  · rintro ⟨h0, h1⟩
    refine ⟨?_, fun hmagic => ⟨?_, fun hs => ?_⟩⟩
    · have h := (hin 3 (by omega)).mp (h0 3 (by omega))
      omega
    · have h := (hin (ImageHeader.fwSize + 3) (by omega)).mp ((h1 hmagic).1 3 (by omega))
      omega
    · obtain ⟨hpos, hle⟩ := hs
      have hlt : firmwareImageOffset + (l1Size m base - 1) < 2 ^ 31 := by omega
      have h := (hin _ hlt).mp (((h1 hmagic).2 ⟨hpos, hle⟩).1 (l1Size m base - 1)
        (by show _ < l1Size m base; omega))
      omega
  · rintro ⟨h0, h1⟩
    refine ⟨fun i hi => (hin i (by omega)).mpr (by omega), fun hmagic => ?_⟩
    obtain ⟨h2, h3⟩ := h1 hmagic
    refine ⟨fun i hi => (hin _ (by omega)).mpr (by omega), fun hs => ?_⟩
    have hend := h3 hs
    have hsize : l1Size m base =
      (loadWord m (at_ (l1Header m base) ImageHeader.fwSize)).toNat := rfl
    exact ⟨fun i hi => (hin _ (by omega)).mpr (by omega),
      fun i hi => (hin _ (by omega)).mpr (by omega), fun _ => ⟨hkey,
        fun i hi => (hin _ (by omega)).mpr (by omega),
        fun i hi => (hin _ (by omega)).mpr (by omega)⟩⟩

theorem reads_authenticateL1 {base : Addr} {key : List Byte} (hr : L1Reached C m base key) :
    (∀ x ∈ (authenticateL1 C base (l0Header base) (l0FwSize m base) (nextImageOffset m base)
      (keyAt (at_ base KeyManifest.l1PubKey))).reads m, InSlot base x) ↔ L1InSlot m base := by
  have hkm := keyManifestSize_eq
  have hih := imageHeaderSize_eq
  have hslot := fwSlotSize_eq
  have hks : KeyManifest.size = 132 := rfl
  have hkey : ∀ x ∈ (keyAt (at_ base KeyManifest.l1PubKey)).reads m, InSlot base x :=
    reads_keyAt m (by decide) fun i hi => (inSlot_at base (by omega)).mpr (by omega)
  have hfirst := hr.first
  have hlast := hr.last
  unfold authenticateL1
  rw [ReadTree.forall_reads_guard, ReadTree.forall_reads_bind, ReadTree.forall_reads_guard,
    ReadTree.forall_reads_bind, ReadTree.forall_reads_bind, ReadTree.forall_reads_guard,
    ← l1_base_eq, ← l0_end_eq, reads_verifyImage_l1 C m hlast hkey]
  simp only [not_not, run_verifyImage, run_gapSize, run_readWord, ← l1_end_eq, reads_gapSize,
    List.not_mem_nil, false_implies, implies_true, true_and]
  constructor
  · exact fun h => h.1
  · intro h
    refine ⟨h, fun hok => ⟨reads_isSpaceEmpty m fun i hi => ?_, fun _ => ⟨?_,
      reads_isSpaceEmpty m fun i hi => ?_, fun _ => by simp⟩⟩⟩
    · rw [l1Header, at_sub_at _ (by omega) (by omega)] at hi
      rw [at_at, inSlot_at _ (by omega)]
      omega
    · have hend := h.image_end C m hok
      have hfield : ImageHeader.fwSize = 8 := rfl
      rw [forall_reads_readWord]
      intro i hi
      rw [l1Header, at_at, at_at, inSlot_at _ (by omega)]
      omega
    · have hend := h.image_end C m hok
      have heq : at_ base fwSlotSize = base + getFwSlotSize := rfl
      rw [← heq, at_sub_at _ hend (by omega)] at hi
      rw [at_at, inSlot_at _ (by omega)]
      omega

/-! ## Gap sizes -/

theorem notes_authenticateL1 {base : Addr} {key : List Byte}
    (hfit : base.toNat + fwSlotSize < 2 ^ 32) (hr : L1Reached C m base key)
    (h : L1InSlot m base) :
    ∀ g ∈ (authenticateL1 C base (l0Header base) (l0FwSize m base) (nextImageOffset m base)
      (keyAt (at_ base KeyManifest.l1PubKey))).notes m, GapSub.NoWrap g := by
  have hkm := keyManifestSize_eq
  have hih := imageHeaderSize_eq
  have hslot := fwSlotSize_eq
  have hfirst := hr.first
  have hlast := hr.last
  have hkey : (keyAt (at_ base KeyManifest.l1PubKey)).notes m = [] := notes_readBytes m _ _
  have heq : base + getFwSlotSize = at_ base fwSlotSize := rfl
  have hgap0 : GapSub.NoWrap ⟨l1Header m base,
      at_ base (keyManifestSize + imageHeaderSize + l0Size m base)⟩ := by
    show BitVec.toNat _ ≤ BitVec.toNat _
    rw [l1Header, toNat_at (by omega), toNat_at (by omega)]
    omega
  have hgap1 : ImageOk C m (l1Header m base) (l1PubKey m base) → GapSub.NoWrap
      ⟨base + getFwSlotSize,
        at_ base (keyManifestSize + l1Offset m base + imageHeaderSize + l1Size m base)⟩ := by
    intro hok
    have hend := h.image_end C m hok
    show BitVec.toNat _ ≤ BitVec.toNat _
    rw [heq, toNat_at (by omega), toNat_at (by omega)]
    omega
  unfold authenticateL1
  rw [ReadTree.forall_notes_guard, ReadTree.forall_notes_bind, ReadTree.forall_notes_guard,
    ReadTree.forall_notes_bind, ReadTree.forall_notes_bind, ReadTree.forall_notes_guard,
    ← l1_base_eq, ← l0_end_eq, notes_verifyImage C m hkey, notes_isSpaceEmpty,
    notes_isSpaceEmpty]
  simp only [not_not, run_verifyImage, run_gapSize, run_readWord, ← l1_end_eq, notes_gapSize,
    notes_readWord, ReadTree.notes_pure, List.not_mem_nil, false_implies, List.forall_mem_singleton,
    implies_true, true_and, and_true, run_keyAt]
  exact fun hok => ⟨hgap0, fun _ => hgap1 hok⟩

theorem notes_authenticateFirmware {base : Addr} {key : List Byte}
    (hfit : base.toNat + fwSlotSize < 2 ^ 32) (h : L1Reached C m base key → L1InSlot m base) :
    ∀ g ∈ (authenticateFirmware C base key).notes m, GapSub.NoWrap g := by
  have hgap :
      GapSub.NoWrap ⟨BitVec.ofNat 32 keyManifestSize, BitVec.ofNat 32 KeyManifest.size⟩ := by
    show BitVec.toNat _ ≤ BitVec.toNat _
    decide
  have hkey : (keyAt (at_ base KeyManifest.l0PubKey)).notes m = [] := notes_readBytes m _ _
  unfold authenticateFirmware
  rw [ReadTree.forall_notes_guard, ReadTree.forall_notes_bind, ReadTree.forall_notes_guard,
    ReadTree.forall_notes_guard, ReadTree.forall_notes_bind, ReadTree.forall_notes_guard,
    notes_verifyKeyManifest C m rfl, notes_isSpaceEmpty, notes_verifyImage C m hkey]
  simp only [not_not, run_verifyKeyManifest, run_verifyImage, run_gapSize, run_readWord,
    ReadTree.run_pure, Bool.not_eq_false, run_isSpaceEmpty, manifestGap_toNat, run_keyAt,
    notes_gapSize, notes_readWord, List.not_mem_nil, false_implies, implies_true,
    List.forall_mem_singleton, true_and]
  intro hm
  refine ⟨hgap, fun hb hi hoff => ?_⟩
  have hr : L1Reached C m base key := (l1Reached_iff C m base key).mpr ⟨hm, hb, hi, hoff⟩
  exact notes_authenticateL1 C m hfit hr (h hr)

/-! ## When the bounds hold -/

theorem forall_reads_inSlot {base : Addr} {key : List Byte} :
    (∀ x ∈ (authenticateFirmware C base key).reads m, InSlot base x) ↔
      (L1Reached C m base key → L1InSlot m base) := by
  have hkm := keyManifestSize_eq
  have hih := imageHeaderSize_eq
  have hl1 := l1ImageSize_eq
  have hslot := fwSlotSize_eq
  rw [forall_reads_authenticateFirmware C m fun i hi => (inSlot_at base (by omega)).mpr (by omega)]
  exact ⟨fun h hr => (reads_authenticateL1 C m hr).mp (h hr),
    fun h hr => (reads_authenticateL1 C m hr).mpr (h hr)⟩

/-- Authentication stays in the slot exactly when it stops before L1, or what it
reads of L1 ends inside the slot. -/
theorem bounded_iff_l1InSlot (base : Addr) (key : List Byte)
    (hfit : base.toNat + fwSlotSize < 2 ^ 32) :
    Bounded C m base key ↔ (L1Reached C m base key → L1InSlot m base) := by
  constructor
  · intro h
    exact (forall_reads_inSlot C m).mp h.reads
  · intro h
    have hreads := (forall_reads_inSlot C m).mpr h
    exact ⟨hreads, notes_authenticateFirmware C m hfit h,
      fun m' hm' => ReadTree.run_congr _ fun x hx => hm' x (hreads x hx)⟩

/-- The L1 of a built slot ends inside it. -/
theorem l1InSlot_of_built {S : Signer} {p : SlotPlan} {base : Addr} (h : SlotAt S p m base) :
    L1InSlot m base := by
  have hend := p.l1_end
  have hh := imageHeaderSize_eq
  rw [L1InSlot, h.front.l1Offset, h.l1Size]
  exact ⟨by omega, fun _ => ⟨by omega, fun _ => hend⟩⟩

/-- The L1 of `packedSlot` is looked at, and nothing behind the slot is. -/
theorem packed_slot_bounded :
    L1Reached tagSigner.toCrypto
        (write (fun _ => 0) getFwActiveStart (packedSlot.bytes tagSigner)) getFwActiveStart
        (tagSigner.pub packedSlot.manifestKey) ∧
      Bounded tagSigner.toCrypto
        (write (fun _ => 0) getFwActiveStart (packedSlot.bytes tagSigner)) getFwActiveStart
        (tagSigner.pub packedSlot.manifestKey) := by
  have hat := slotAt_write tagSigner packedSlot (fun _ => 0) getFwActiveStart
  have hfit : getFwActiveStart.toNat + fwSlotSize < 2 ^ 32 := by decide
  constructor
  · exact hat.front.l1Reached (by decide) (by decide)
  · exact (bounded_iff_l1InSlot _ _ getFwActiveStart _ hfit).mpr fun _ => l1InSlot_of_built _ hat

/-- Signed by the build side, with `next_image_offset` at the limit of the range check. -/
def lateOffset : FrontPlan := minimalFront [1] (getFwSlotSize - BitVec.ofNat 32 imageHeaderSize)

/-- The L1 header that `lateOffset` points at starts where the slot ends. -/
theorem late_offset_not_bounded :
    ¬ Bounded tagSigner.toCrypto
      (write (fun _ => 0xFF) getFwActiveStart (lateOffset.bytes tagSigner)) getFwActiveStart
      (tagSigner.pub lateOffset.manifestKey) := by
  intro h
  have hat := frontAt_write tagSigner lateOffset (fun _ => 0xFF) getFwActiveStart
  have hreached := hat.l1Reached (by decide) (by decide)
  obtain ⟨hmagic, -⟩ := (forall_reads_inSlot _ _).mp h.reads hreached
  rw [hat.l1Offset] at hmagic
  revert hmagic
  decide

end VerifiedDice.FirmwareBounds
