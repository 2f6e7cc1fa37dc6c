import VerifiedDice.FlashErase
import VerifiedDice.FlashWrite
import VerifiedDice.HWAbstraction
import VerifiedDice.L1Session

/-!
# Corrupting the active image

`Test_CorruptActiveImage` overwrites the start of L0 in flash with zeros and resets the device.
What any end of it, also a power cut, leaves of L0, and when the next boot still accepts that.
-/
namespace VerifiedDice

open ByteMemory

/-! ## A flash that works -/

/-- The HAL reports no failures. -/
structure Works (w : World) : Prop where
  hal : ∀ n, w.hal n = true
  program : ∀ n, w.program n = none

section Works

variable {cfg : BuildConfig} {dest source : Addr} {size : Word} {w w' : World}

theorem Works.logged (h : Works w) (hlog : w.LogOnly w') : Works w' := by
  have hhal : w'.hal = w.hal := by rw [hlog.rest]
  have hprogram : w'.program = w.program := by rw [hlog.rest]
  constructor
  · rw [hhal]
    exact h.hal
  · rw [hprogram]
    exact h.program

theorem Works.programmed (h : Works w) (dst src : Addr) :
    Works (w.afterProgram dst src allBits) := ⟨h.hal, fun n => h.program (n + 1)⟩

/-- A word of zeros can always be programmed. -/
theorem programmed_zeros {m : Memory} {dst src : Addr}
    (hsrc : ∀ i, i < flashWordSize → m (at_ src i) = 0) {x : Addr}
    (hx : Within dst flashWordSize x) : programmed m dst src allBits x = 0 := by
  have hnone : (0 : Byte) ||| ~~~ (0xFF : Byte) = 0 := by decide
  rw [programmed, if_pos hx, hsrc _ hx, allBits, hnone]
  exact BitVec.and_zero

/-- The source is zero and apart from the destination, so every comparison succeeds. -/
theorem flashWriteLoop_zeros (cfg : BuildConfig) (hsize : size.toNat % flashWordSize = 0)
    (hapart : ∀ i, i < size.toNat → ¬ Within dest size.toNat (at_ source i)) (fuel : Nat) :
    ∀ k w, flashWordSize * k ≤ size.toNat → Works w →
      (∀ i, i < size.toNat → w.mem (at_ source i) = 0) →
      Cut.Sat (flashWriteLoop cfg size fuel (BitVec.ofNat 32 (flashWordSize * k))
          (at_ source (flashWordSize * k)) (at_ dest (flashWordSize * k))) w
        fun r _ => ∀ v, r = some v → v = 0 := by
  have hlt := size.isLt
  induction fuel with
  | zero =>
    intro k w _ _ _
    apply Cut.Sat.stop
    intro v hv
    cases hv
  | succ fuel ih =>
    intro k w hk hworks hzero
    let T : Word → World → Prop := fun v _ => v = 0
    unfold flashWriteLoop
    apply Cut.Sat.ite
    · intro hmore
      have hroom := room_of_lt hsize hk hmore
      have hnext : flashWordSize * (k + 1) = flashWordSize * k + flashWordSize :=
        Nat.mul_succ flashWordSize k
      have hreload : Cut.Keeps logOnly (watchdogReload cfg) := watchdogReload_logOnly
      apply Cut.Sat.bind_result (T := T) ((watchdogReload_sat cfg w).and (hreload.sat w))
      intro _ w1 h
      obtain ⟨⟨hmem, _⟩, hlogged⟩ := h
      have hworks1 : Works w1 := hworks.logged hlogged
      by_cases hpower : w1.power = 0
      · have hcut : halFlashProgram (at_ dest (flashWordSize * k))
            (at_ source (flashWordSize * k)) w1 = (none, _) := if_pos hpower
        apply Cut.Sat.of_eq (Cut.bind_none hcut)
        intro v hv
        cases hv
      · have hrun : halFlashProgram (at_ dest (flashWordSize * k))
            (at_ source (flashWordSize * k)) w1 = (some true, w1.afterProgram
              (at_ dest (flashWordSize * k)) (at_ source (flashWordSize * k)) allBits) := by
          unfold halFlashProgram
          rw [if_neg hpower, hworks1.program 0]
        have hsrc : ∀ i, i < flashWordSize →
            w1.mem (at_ (at_ source (flashWordSize * k)) i) = 0 := by
          intro i hi
          rw [hmem, at_at]
          exact hzero _ (by omega)
        -- the source is not touched
        have hkept : ∀ i, i < size.toNat → programmed w1.mem (at_ dest (flashWordSize * k))
            (at_ source (flashWordSize * k)) allBits (at_ source i) = 0 := by
          intro i hi
          rw [programmed_outside, hmem]
          · exact hzero i hi
          · intro hin
            exact hapart i hi (within_sub_range (by omega) (by omega) hin)
        apply Cut.Sat.bind_some hrun
        rw [if_pos rfl]
        apply Cut.Sat.state_bind
        apply Cut.Sat.ite
        · intro _
          rw [at_flashWord, at_flashWord, ofNat_flashWord]
          exact ih (k + 1) _ hroom (hworks1.programmed _ _) hkept
        · intro hdifferent
          apply absurd _ hdifferent
          apply bytesAt_congr
          intro i hi
          have hword : flashWordSize < 2 ^ 32 := by decide
          have hdst := programmed_zeros hsrc ((within_at (at_ dest (flashWordSize * k))
            (Nat.lt_trans hi hword)).mpr hi)
          have hsource := hkept (flashWordSize * k + i) (by omega)
          rw [← at_at] at hsource
          exact hdst.trans hsource.symm
    · intro _
      have hlock : Cut.Sat halFlashLock w fun r _ => ∀ ok, r = some ok → ok = true := by
        apply step_sat
        · intro ok hok
          cases hok
        · intro ok hok
          cases hok
          exact hworks.hal 0
      apply Cut.Sat.bind_result (T := T) hlock
      intro ok w1 hok
      obtain rfl := hok ok rfl
      apply Cut.Sat.pure
      intro v hv
      cases hv
      rfl

/-- On a HAL that works zeros are written. -/
theorem flashWrite_zeros (cfg : BuildConfig) (haccepted : ¬ WriteRefused dest source size)
    (hapart : ∀ i, i < size.toNat → ¬ Within dest size.toNat (at_ source i)) (hworks : Works w)
    (hzero : ∀ i, i < size.toNat → w.mem (at_ source i) = 0) :
    Cut.Sat (flashWrite cfg dest source size) w fun r w' =>
      ∀ v, r = some v → ∀ i, i < size.toNat → w'.mem (at_ dest i) = 0 := by
  classical
  have hsize : size.toNat % flashWordSize = 0 := by
    simp only [WriteRefused, not_or] at haccepted
    omega
  have hcode : Cut.Sat (flashWrite cfg dest source size) w fun r _ => ∀ v, r = some v → v = 0 := by
    let T : Word → World → Prop := fun v _ => v = 0
    have hunlock : Cut.Sat halFlashUnlock w fun r w1 => w1.mem = w.mem ∧
        (∀ ok, r = some ok → ok = true ∧ Works w1) := by
      apply step_sat
      · constructor
        · rfl
        · intro ok hok
          cases hok
      · constructor
        · rfl
        intro ok hok
        cases hok
        exact ⟨hworks.hal 0, fun n => hworks.hal (n + 1), hworks.program⟩
    rw [flashWrite_eq, if_neg haccepted]
    unfold flashWriteUnlocked
    apply Cut.Sat.bind_result (T := T) hunlock
    intro ok w1 h
    obtain ⟨hmem, hdone⟩ := h
    obtain ⟨hok, hworks1⟩ := hdone ok rfl
    have hzero1 : ∀ i, i < size.toNat → w1.mem (at_ source i) = 0 := by
      rw [hmem]
      exact hzero
    have hloop := flashWriteLoop_zeros cfg hsize hapart (size.toNat / flashWordSize + 1) 0 w1
      (Nat.zero_le _) hworks1 hzero1
    rw [if_pos hok]
    rwa [Nat.mul_zero, at_zero, at_zero] at hloop
  intro v hv i hi
  have hrun : flashWrite cfg dest source size w =
      (some v, (flashWrite cfg dest source size w).2) := Prod.ext hv rfl
  obtain rfl := hcode v hv
  have hcopied := ((flashWrite_ends cfg hapart hrun).written rfl).1
  exact (bytesAt_inj hcopied i hi).trans (hzero i hi)

end Works

namespace L1Image

open FirmwareAuth HWAbstraction ImageAuth

/-! ## The test -/

/-- What the DICE core hashes of the active L0. -/
def l0Bytes (m : Memory) : List Byte := bytesAt m (st m).l0.imageBase (st m).l0.imageSize.toNat

/-- Any end of the test on the flash `m`. -/
structure Corrupted (C : Crypto) (m m' : Memory) : Prop where
  rest : ∀ x, InFlash x → ¬ Within corruptAddress corruptLength x → m' x = m x
  cleared : ∀ x, InFlash x → m' x &&& m x = m' x
  boots : (st m).l0.Authentic C m →
    ((st m').l0.Authentic C m' ↔ C.sha256 (l0Bytes m') = C.sha256 (l0Bytes m))

/-- In flash bits are only cleared. -/
def flashClears : Cut.Frame World where
  rel w w' := ∀ x, InFlash x → w'.mem x &&& w.mem x = w'.mem x
  refl _ _ _ := BitVec.and_self
  trans h1 h2 x hx := by
    rw [← h2 x hx, BitVec.and_assoc, h1 x hx]

section Test

variable {cfg : BuildConfig} {buffer : CorruptBuffer}

theorem buffer_not_flash {x : Addr} (h : InFlash x) : ¬ Within buffer.addr corruptLength x := by
  have h0 : getFlashStart = 0x08000000#32 := rfl
  have h2 : dtcmStart = 0x20000000#32 := rfl
  have h3 : dtcmLength = 131072 := rfl
  intro hbuffer
  have hdtcm := buffer.within hbuffer
  simp only [InFlash, Within, h0, h2, h3] at *
  bv_omega

theorem testCorruptActiveImage_rest (w : World) {x : Addr} (hx : InFlash x)
    (hout : ¬ Within corruptAddress corruptLength x) :
    (testCorruptActiveImage cfg buffer w).2.mem x = w.mem x := by
  have hkeeps : Cut.Keeps (changes (MenuWrites buffer)) (testCorruptActiveImage cfg buffer) :=
    testCorruptActiveImage_changes
  apply (hkeeps w).mem x
  rintro (hlog | hbuffer | hflash)
  · exact flash_not_inLogs hx hlog
  · exact buffer_not_flash hx hbuffer
  · exact hout hflash

theorem flashClears_of_changes {α : Type} {x : Cut World α} {S : Addr → Prop}
    (hS : ∀ a, InFlash a → ¬ S a) (h : Cut.Keeps (changes S) x) : Cut.Keeps flashClears x := by
  apply h.mono
  intro w w' hchanges a ha
  have hmem : w'.mem a = w.mem a := hchanges.mem a (hS a ha)
  rw [hmem, BitVec.and_self]

theorem testCorruptActiveImage_clears :
    Cut.Keeps flashClears (testCorruptActiveImage cfg buffer) := by
  have hlines : ∀ (line : Nat) (ts : List Text),
      Cut.Keeps flashClears (logLines cfg line ts) := by
    intro line ts
    have hlogs : Cut.Keeps (changes InLogs) (logLines cfg line ts) :=
      (logLines_logOnly line ts).mono fun _ _ h => h.changes
    exact flashClears_of_changes (fun _ => flash_not_inLogs) hlogs
  have hfill : Cut.Keeps flashClears (storeFill buffer.addr corruptLength 0) :=
    flashClears_of_changes (fun a ha => buffer_not_flash ha) (storeFill_changes fun _ h => h)
  have hwrite : Cut.Keeps flashClears
      (flashWrite cfg corruptAddress buffer.addr (BitVec.ofNat 32 corruptLength)) :=
    (flashWrite_clears cfg _ _ _).mono fun _ _ h x _ => h x
  have hreport : ∀ ret : Word, Cut.Keeps flashClears (reportWrite cfg ret) :=
    fun _ => Cut.Keeps.ite (hlines _ _) (Cut.Keeps.pure _)
  exact hfill.bind fun _ => (hlines _ _).bind fun _ => hwrite.bind fun ret =>
    (hreport ret).bind fun _ => (hlines _ _).bind fun _ => Cut.Keeps.stop

/-- The manifest and the header are in front of what is overwritten. -/
theorem front_not_corrupted {k : Nat} (h : k < keyManifestSize + imageHeaderSize) :
    InFlash (at_ getFwActiveStart k) ∧
      ¬ Within corruptAddress corruptLength (at_ getFwActiveStart k) := by
  have h0 : getFlashStart = 0x08000000#32 := rfl
  have h2 : getFwActiveStart = 0x08020000#32 := rfl
  have h3 : corruptAddress = 0x08020800#32 := rfl
  have h4 : corruptLength = 128 := rfl
  rw [keyManifestSize_eq, imageHeaderSize_eq] at h
  simp only [InFlash, Within, at_, h0, h2, h3, h4]
  bv_omega

/-- Of the descriptor only the hashed bytes may differ. -/
theorem authentic_iff_of_front {C : Crypto} {m m' : Memory}
    (hfront : ∀ k, k < keyManifestSize + imageHeaderSize →
      m' (at_ getFwActiveStart k) = m (at_ getFwActiveStart k))
    (hok : (st m).l0.Authentic C m) :
    (st m').l0.Authentic C m' ↔ C.sha256 (l0Bytes m') = C.sha256 (l0Bytes m) := by
  have hbytes : ∀ {k n : Nat}, k + n ≤ keyManifestSize + imageHeaderSize →
      bytesAt m' (at_ getFwActiveStart k) n = bytesAt m (at_ getFwActiveStart k) n := by
    intro k n hk
    apply bytesAt_congr
    intro i hi
    rw [at_at]
    exact hfront _ (by omega)
  have hheader : ∀ {k n : Nat}, k + n ≤ imageHeaderSize →
      bytesAt m' (at_ (at_ getFwActiveStart keyManifestSize) k) n =
        bytesAt m (at_ (at_ getFwActiveStart keyManifestSize) k) n := by
    intro k n hk
    rw [at_at]
    exact hbytes (by omega)
  have hkey : bytesAt m' (st m').l0.pubkey fwEd25519PublicKeyLen =
      bytesAt m (st m).l0.pubkey fwEd25519PublicKeyLen :=
    hbytes (k := KeyManifest.l0PubKey) (by decide)
  have hsigned : bytesAt m' (st m').l0.imageHeader (st m').l0.headerSize.toNat =
      bytesAt m (st m).l0.imageHeader (st m).l0.headerSize.toNat :=
    hbytes (k := keyManifestSize) (n := ImageHeader.headerSignature) (by decide)
  have hsig : bytesAt m' (st m').l0.headerSig fwEd25519SignatureLen =
      bytesAt m (st m).l0.headerSig fwEd25519SignatureLen :=
    hheader (k := ImageHeader.headerSignature) (by decide)
  have hhash : bytesAt m' (st m').l0.imageHash digestLength =
      bytesAt m (st m).l0.imageHash digestLength :=
    hheader (k := ImageHeader.fwHash) (by decide)
  constructor
  · intro h
    exact h.2.trans (hhash.trans hok.2.symm)
  · intro h
    constructor
    · rw [hkey, hsigned, hsig]
      exact hok.1
    · rw [hhash]
      exact h.trans hok.2

/-- The size of L0 is in the header. -/
theorem st_of_front {m m' : Memory} (hfront : ∀ k, k < keyManifestSize + imageHeaderSize →
    m' (at_ getFwActiveStart k) = m (at_ getFwActiveStart k)) : (st m').l0 = (st m).l0 := by
  have hsize : loadWord m' (at_ (at_ getFwActiveStart keyManifestSize) ImageHeader.fwSize) =
      loadWord m (at_ (at_ getFwActiveStart keyManifestSize) ImageHeader.fwSize) := by
    apply congrArg wordOfBytes
    apply bytesAt_congr
    intro i hi
    have h1 : ImageHeader.fwSize = 8 := rfl
    rw [at_at, at_at]
    exact hfront _ (by rw [keyManifestSize_eq, imageHeaderSize_eq, h1]; omega)
  simp only [st, hsize]

theorem testCorruptActiveImage_corrupts (C : Crypto) (w : World) :
    Corrupted C w.mem (testCorruptActiveImage cfg buffer w).2.mem := by
  constructor
  · exact fun _ hx hout => testCorruptActiveImage_rest w hx hout
  · exact testCorruptActiveImage_clears w
  · apply authentic_iff_of_front
    intro k hk
    obtain ⟨hflash, hout⟩ := front_not_corrupted hk
    exact testCorruptActiveImage_rest w hflash hout

theorem l0Size_eq (m : Memory) :
    l0Size m getFwActiveStart = (st m).l0.imageSize.toNat := rfl

/-- The buffer is on the stack, so its address is not null and nothing wraps. -/
theorem corrupt_not_refused (haligned : buffer.addr.toNat % 4 = 0) :
    ¬ WriteRefused corruptAddress buffer.addr (BitVec.ofNat 32 corruptLength) := by
  have h0 : dtcmStart = 0x20000000#32 := rfl
  have h1 : dtcmLength = 131072 := rfl
  have h2 : corruptAddress = 0x08020800#32 := rfl
  have h3 : (BitVec.ofNat 32 corruptLength).toNat = 128 := rfl
  have h4 : flashWordSize = 32 := rfl
  have hfirst := buffer.inside 0 (by decide)
  have hlast := buffer.inside 127 (by decide)
  simp only [WriteRefused, Within, at_, h0, h1, h2, h3, h4] at *
  bv_omega

theorem corrupt_apart (i : Nat) (hi : i < (BitVec.ofNat 32 corruptLength).toNat) :
    ¬ Within corruptAddress (BitVec.ofNat 32 corruptLength).toNat (at_ buffer.addr i) := by
  have h0 : dtcmStart = 0x20000000#32 := rfl
  have h1 : dtcmLength = 131072 := rfl
  have h2 : corruptAddress = 0x08020800#32 := rfl
  have h3 : (BitVec.ofNat 32 corruptLength).toNat = 128 := rfl
  have hdtcm := buffer.inside i hi
  simp only [Within, h0, h1, h2, h3] at *
  bv_omega

theorem corrupt_inFlash {i : Nat} (hi : i < corruptLength) : InFlash (at_ corruptAddress i) := by
  have h0 : getFlashStart = 0x08000000#32 := rfl
  have h1 : corruptAddress = 0x08020800#32 := rfl
  have h2 : corruptLength = 128 := rfl
  rw [h2] at hi
  simp only [InFlash, Within, at_, h0, h1]
  bv_omega

/-- With 20 steps of power and a HAL that works, the start of L0 is zero. -/
theorem testCorruptActiveImage_zero {w : World} (hworks : Works w) (hpower : 20 ≤ w.power)
    (haligned : buffer.addr.toNat % 4 = 0) {i : Nat} (hi : i < corruptLength) :
    (testCorruptActiveImage cfg buffer w).2.mem (at_ corruptAddress i) = 0 := by
  obtain ⟨_, w1, hrun1, hleft1⟩ := storeFill_runs buffer.addr corruptLength 0 w (by omega)
  have hfill : w1.mem = fill w.mem buffer.addr corruptLength 0 :=
    (storeFill_fills buffer.addr corruptLength 0 w).elim hrun1 rfl
  have hworks1 : Works w1 := by
    have hkept : Cut.Sat (storeFill buffer.addr corruptLength 0) w fun _ w' => Works w' :=
      step_sat hworks ⟨hworks.hal, hworks.program⟩
    exact hkept.elim hrun1
  obtain ⟨_, w2, hrun2, hleft2⟩ := logLines_runs cfg 86
    [text "Test: Corrupt Active Image", text "--------------------------", []] w1
    (show 9 ≤ w1.power by omega)
  have hlog2 := ((logLines_logOnly _ _).sat w1).elim hrun2
  obtain ⟨ret, w3, hrun3, _⟩ := flashWrite_runs cfg corruptAddress buffer.addr
    (BitVec.ofNat 32 corruptLength) w2 (show 10 ≤ w2.power by
      have h9 : w1.power ≤ w2.power + 9 := hleft2
      omega)
  have hzero2 : ∀ i, i < (BitVec.ofNat 32 corruptLength).toNat →
      w2.mem (at_ buffer.addr i) = 0 := by
    intro i hi
    have hin : Within buffer.addr corruptLength (at_ buffer.addr i) :=
      (within_at _ (Nat.lt_trans hi (by decide))).mpr hi
    have hout : ¬ InLogs (at_ buffer.addr i) := fun hlog => dtcm_not_inLogs (buffer.within hin) hlog
    rw [hlog2.mem _ hout, hfill]
    exact fill_inside hin
  have hzero3 := (flashWrite_zeros cfg (corrupt_not_refused haligned) corrupt_apart
    (hworks1.logged hlog2) hzero2).elim hrun3 ret rfl i hi
  -- what follows the write is logging
  have hrest : Cut.Keeps logOnly (reportWrite cfg ret >>= fun _ =>
      logLines cfg 96 [text "Next reboot should trigger a boot of the recovery image.", []] >>=
        fun _ => (hang : Cut World Unit)) := by
    apply (Cut.Keeps.ite (logLines_logOnly _ _) (Cut.Keeps.pure _)).bind
    intro _
    exact (logLines_logOnly _ _).bind fun _ => Cut.Keeps.stop
  have hend : (testCorruptActiveImage cfg buffer w).2 = ((reportWrite cfg ret >>= fun _ =>
      logLines cfg 96 [text "Next reboot should trigger a boot of the recovery image.", []] >>=
        fun _ => (hang : Cut World Unit)) w3).2 := by
    unfold testCorruptActiveImage
    rw [Cut.bind_some hrun1, Cut.bind_some hrun2, Cut.bind_some hrun3]
  rw [hend, (hrest w3).mem _ (flash_not_inLogs (corrupt_inFlash hi))]
  exact hzero3

/-- **Booting after `Test_CorruptActiveImage`.** However the test ends, also by a power cut or an
error of the HAL: the rest of the flash is as before, in the corrupted part bits have only been
cleared, and where the DICE core accepted the active L0 it will accept it again exactly if its
bytes still have the same digest. With a HAL that works and the power to finish, these bytes are
the old ones with zeros at the start, if L0 is no larger than an image may be and the compiler has
aligned the buffer as `Flash_Write` asks. -/
theorem corrupted_image_boots (C : Crypto) (w : World) :
    Corrupted C w.mem (testCorruptActiveImage cfg buffer w).2.mem ∧
    (l0Size w.mem getFwActiveStart ≤ l1ImageSize → Works w → 20 ≤ w.power →
        buffer.addr.toNat % 4 = 0 →
      l0Bytes (testCorruptActiveImage cfg buffer w).2.mem =
        List.replicate (min corruptLength (l0Size w.mem getFwActiveStart)) 0 ++
          (l0Bytes w.mem).drop corruptLength) := by
  have hends : Corrupted C w.mem (testCorruptActiveImage cfg buffer w).2.mem :=
    testCorruptActiveImage_corrupts C w
  constructor
  · exact hends
  · intro hsize hworks hpower haligned
    have hst := st_of_front fun k hk =>
      hends.rest _ (front_not_corrupted hk).1 (front_not_corrupted hk).2
    have hbase : (st w.mem).l0.imageBase = corruptAddress := by
      show at_ (at_ getFwActiveStart keyManifestSize) firmwareImageOffset = _
      decide
    have hinside := hashed_in_flash w.mem hsize
    rw [hbase] at hinside
    apply List.ext_getElem
    · rw [List.length_append, List.length_replicate, List.length_drop, l0Bytes, hst, l0Bytes,
        length_bytesAt, length_bytesAt, l0Size_eq]
      omega
    · intro i hi _
      have hn : i < (st w.mem).l0.imageSize.toNat := by
        rwa [l0Bytes, hst, length_bytesAt] at hi
      have hafter : (l0Bytes (testCorruptActiveImage cfg buffer w).2.mem)[i] =
          (testCorruptActiveImage cfg buffer w).2.mem (at_ corruptAddress i) := by
        simp only [l0Bytes, hst, hbase, getElem_bytesAt]
      rw [hafter]
      by_cases hlow : i < corruptLength
      · rw [testCorruptActiveImage_zero hworks hpower haligned hlow, List.getElem_append_left
          (by rw [List.length_replicate, l0Size_eq]; omega), List.getElem_replicate]
      · have hout : ¬ Within corruptAddress corruptLength (at_ corruptAddress i) := by
          rw [within_at _ (by omega)]
          exact hlow
        have hmin : min corruptLength (l0Size w.mem getFwActiveStart) = corruptLength :=
          Nat.min_eq_left (by rw [l0Size_eq]; omega)
        have hoffset : corruptLength + (i - corruptLength) = i := by omega
        rw [hends.rest _ (hinside i hn) hout, List.getElem_append_right
          (by rw [List.length_replicate, hmin]; omega)]
        simp only [List.length_replicate, List.getElem_drop, l0Bytes, getElem_bytesAt, hbase, hmin,
          hoffset]

end Test

/-- A slot with one byte of L0 in an erased flash, and a HAL that works. -/
def bootedDevice : World :=
  { blankDevice with
    mem := write (fun _ => 0xFF) getFwActiveStart
      ((SlotBuild.minimalFront [1] 1025).bytes SlotBuild.tagSigner) }

/-- That byte is gone, and the DICE core no longer accepts the image. -/
theorem bootedDevice_corrupted :
    (st bootedDevice.mem).l0.Authentic SlotBuild.tagSigner.toCrypto bootedDevice.mem ∧
    ¬ (st (testCorruptActiveImage plainBuild sampleBuffer bootedDevice).2.mem).l0.Authentic
      SlotBuild.tagSigner.toCrypto
      (testCorruptActiveImage plainBuild sampleBuffer bootedDevice).2.mem := by
  have hat := SlotBuild.frontAt_write SlotBuild.tagSigner (SlotBuild.minimalFront [1] 1025)
    (fun _ => 0xFF) getFwActiveStart
  have hreached := hat.l1Reached (by decide) (by decide)
  have hauth := authentic_of_imageOk SlotBuild.tagSigner.toCrypto bootedDevice.mem hreached.l0
  have hbytes : l0Bytes bootedDevice.mem = [0xAA] := by decide +kernel
  have hsize : l0Size bootedDevice.mem getFwActiveStart = 1 := by decide +kernel
  have hle : l0Size bootedDevice.mem getFwActiveStart ≤ l1ImageSize := by
    rw [hsize]
    decide
  obtain ⟨hends, hzero⟩ := @corrupted_image_boots plainBuild sampleBuffer
    SlotBuild.tagSigner.toCrypto bootedDevice
  have hworks : Works bootedDevice := ⟨fun _ => rfl, fun _ => rfl⟩
  have hafter := hzero hle hworks (show 20 ≤ 1000 by decide) (by decide)
  constructor
  · exact hauth
  · rw [hends.boots hauth, hafter, hbytes, hsize]
    decide

end L1Image

end VerifiedDice
