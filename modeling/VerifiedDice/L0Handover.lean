import VerifiedDice.L0Boot

/-!
# What the shared RAM depends on

`RunL0` hashes as many bytes as the header of L1 says, wherever they are. As long as they
are flash, what it leaves in the shared RAM is a function of the parameters of L0 and of the
header and the image of L1 in flash. A larger size makes it a function of whatever else the
range reaches, stale bytes of the shared RAM among it.
-/
namespace VerifiedDice

open ByteMemory Launch

/-! ## The two conditions -/

/-- The parameters of L0, and the flash bytes of the header and the image of L1. -/
def FlashInputs (m : Memory) (x : Addr) : Prop := InL0Params x ∨ InFlash x ∧ InL1Image m x

/-- `RunL0` ends with the half of DICE zero and hands nothing on but what it computes from the
parameters of L0 and the flash bytes of L1: the shared RAM is the same on any other device that
agrees on these. -/
structure HandsOver (cfg : BuildConfig) (C : Crypto) (E : L0Engine) (w : World) : Prop where
  ends : 18 ≤ w.power → ∃ w', runL0 cfg C E w = (some (), w')
  cleaned : ∀ w', runL0 cfg C E w = (some (), w') → ∀ x, InDiceL0 x → w'.mem x = 0
  determined : ∀ w' t t', AgreeOn (FlashInputs w.mem) w.mem t.mem →
    runL0 cfg C E w = (some (), w') → runL0 cfg C E t = (some (), t') →
      AgreeOn InShared w'.mem t'.mem

/-- The bytes from the start of L1 to the end of the flash. -/
def l1ToFlashEnd : Nat := (getFlashEnd - getL1ImageStart).toNat + 1

theorem l1ToFlashEnd_eq : l1ToFlashEnd = 1703936 := by decide

/-- The image of L1, as large as its header says, ends in flash. -/
def L1InFlash (m : Memory) : Prop := imageHeaderSize + (measuredL1 m).size.toNat ≤ l1ToFlashEnd

instance (m : Memory) : Decidable (L1InFlash m) := inferInstanceAs (Decidable (_ ≤ _))

theorem L1InFlash.inFlash {m : Memory} (h : L1InFlash m) {x : Addr} (hx : InL1Image m x) :
    InFlash x := by
  have hstart : getL1ImageStart = at_ getFlashStart 393216 := by decide
  rw [L1InFlash, l1ToFlashEnd_eq] at h
  rw [InL1Image, hstart] at hx
  exact within_sub_range (by omega) (by omega) hx

theorem inL1Header_flashInputs {m : Memory} {x : Addr} (h : InL1Header x) : FlashInputs m x :=
  Or.inr ⟨inL1Header_inFlash h, Nat.lt_of_lt_of_le h (Nat.le_add_right _ _)⟩

/-! ## In flash -/

section Handover

variable {cfg : BuildConfig} {C : Crypto} {E : L0Engine}

theorem L1InFlash.handsOver {w : World} (h : L1InFlash w.mem) : HandsOver cfg C E w := by
  constructor
  · intro hpower
    obtain ⟨_, w', hrun, _⟩ := runL0_runs cfg C E w hpower
    exact ⟨w', hrun⟩
  · intro w' hw
    exact (runL0_cleans w).elim hw rfl
  · intro w' t t' hagree hw ht
    apply runL0_both (hagree.mono ?_) () w' () t' hw ht
    rintro x (hparams | himage)
    · exact Or.inl hparams
    · exact Or.inr ⟨h.inFlash himage, himage⟩

/-! ## Beyond it -/

/-- The address of a byte that is measured. -/
def measuredAddr (k : Nat) : Addr := at_ (at_ getL1ImageStart firmwareImageOffset) k

/-- The first byte behind the flash. -/
theorem behind_flash : ¬ InFlash (measuredAddr 1702912) := by decide

theorem measures_behind {m : Memory} (h : ¬ L1InFlash m) :
    1702912 < (measuredL1 m).size.toNat := by
  have hsize : imageHeaderSize = 1024 := rfl
  rw [L1InFlash, l1ToFlashEnd_eq] at h
  omega

/-- The header is in flash anyway. -/
theorem measuredInFlash_iff {m : Memory} : MeasuredInFlash m ↔ L1InFlash m := by
  constructor
  · intro h
    by_contra hlong
    exact behind_flash (h 1702912 (measures_behind hlong))
  · intro h i hi
    exact h.inFlash (measured_inL1Image m hi)

/-- A hash function that tells two images apart by their bytes at `k`. -/
def byteDigest (k : Nat) : Crypto where
  sha256 data := List.replicate 32 (data.getD k 0)
  ed25519Verify _ _ _ := true
  length_sha256 _ := List.length_replicate

theorem byteDigest_bytesAt (m : Memory) (a : Addr) {k n : Nat} (hk : k < n) :
    (byteDigest k).sha256 (bytesAt m a n) = List.replicate 32 (m (at_ a k)) := by
  have hlen : k < (bytesAt m a n).length := by rwa [length_bytesAt]
  show List.replicate 32 ((bytesAt m a n).getD k 0) = _
  rw [List.getD_eq_getElem _ _ hlen, getElem_bytesAt]

/-- With keys made of the digest, a byte that is measured shows in the first key. -/
theorem runL0_shows {k : Nat} {w w' : World} (hk : k < (measuredL1 w.mem).size.toNat)
    (hout : ¬ InL0L1 (measuredAddr k))
    (hrun : runL0 cfg (byteDigest k) sampleEngine w = (some (), w')) :
    w'.mem (at_ getSharedL0L1 L1Params.aliasKeyPub) = w.mem (measuredAddr k) := by
  obtain ⟨m, hm, hover⟩ := (runL0_computes w).elim hrun () rfl
  have hkey : bytesAt w'.mem (at_ getSharedL0L1 L1Params.aliasKeyPub) keyLen =
      partBytes keyLen (l0Outputs cfg sampleEngine (readL0Params w.mem).cdi
        ((byteDigest k).sha256 (bytesAt m (measuredL1 w.mem).start
          (measuredL1 w.mem).size.toNat))).aliasKeyPub :=
    congrArg L1ParamsView.aliasKeyPub hover.params
  rw [byteDigest_bytesAt m _ hk] at hkey
  have hfirst := congrArg (fun bytes => bytes.getD 0 0) hkey
  calc w'.mem (at_ getSharedL0L1 L1Params.aliasKeyPub)
      = (bytesAt w'.mem (at_ getSharedL0L1 L1Params.aliasKeyPub) keyLen).getD 0 0 := by
        rw [keyLen, bytesAt_cons, List.getD_cons_zero]
    _ = m (measuredAddr k) := hfirst
    _ = w.mem (measuredAddr k) := hm _ hout

/-- Two devices that differ in such a byte. -/
theorem measured_leaks {k : Nat} {w t w' t' : World} (hk : k < (measuredL1 w.mem).size.toNat)
    (hout : ¬ InL0L1 (measuredAddr k)) (hheader : AgreeOn InL1Header w.mem t.mem)
    (hdiff : t.mem (measuredAddr k) ≠ w.mem (measuredAddr k))
    (hw : runL0 cfg (byteDigest k) sampleEngine w = (some (), w'))
    (ht : runL0 cfg (byteDigest k) sampleEngine t = (some (), t')) :
    ¬ AgreeOn InShared w'.mem t'.mem := by
  intro hagree
  have hkt : k < (measuredL1 t.mem).size.toNat := by rwa [measuredL1_congr hheader]
  have hkey : InShared (at_ getSharedL0L1 L1Params.aliasKeyPub) :=
    (inShared_iff _).mpr (Or.inr (by decide))
  have hsame := hagree _ hkey
  rw [runL0_shows hkt hout ht, runL0_shows hk hout hw] at hsame
  exact hdiff hsame

/-- A byte that is measured and is neither a parameter nor a flash byte. -/
theorem not_handsOver {k : Nat} {w : World} (hpower : 18 ≤ w.power)
    (hk : k < (measuredL1 w.mem).size.toNat) (hout : ¬ InL0L1 (measuredAddr k))
    (hinput : ¬ FlashInputs w.mem (measuredAddr k)) :
    ¬ HandsOver cfg (byteDigest k) sampleEngine w := by
  intro h
  let t : World := { w with mem := write w.mem (measuredAddr k) [w.mem (measuredAddr k) + 1] }
  have hagree : AgreeOn (FlashInputs w.mem) w.mem t.mem := by
    intro x hx
    apply write_outside
    intro hin
    obtain ⟨i, hi, rfl⟩ := exists_at_of_within hin
    obtain rfl : i = 0 := Nat.lt_one_iff.mp hi
    rw [at_zero] at hx
    exact hinput hx
  have hdiff : t.mem (measuredAddr k) ≠ w.mem (measuredAddr k) := by
    have hnew : t.mem (measuredAddr k) = w.mem (measuredAddr k) + 1 := by
      show write w.mem (measuredAddr k) _ (measuredAddr k) = _
      simp [write]
    rw [hnew]
    bv_omega
  obtain ⟨w', hw⟩ := h.ends hpower
  obtain ⟨_, t', ht, _⟩ := runL0_runs cfg (byteDigest k) sampleEngine t hpower
  have hheader : AgreeOn InL1Header w.mem t.mem := hagree.mono fun _ => inL1Header_flashInputs
  exact measured_leaks hk hout hheader hdiff hw ht (h.determined w' t t' hagree hw ht)

/-- For every content of the memory, on every device that has it and with any hash function and
core: nothing checks the size in the header, so its image has to end in flash. -/
theorem handsOver_iff (cfg : BuildConfig) (m : Memory) :
    (∀ C E w, w.mem = m → HandsOver cfg C E w) ↔ L1InFlash m := by
  constructor
  · intro h
    by_contra hlong
    have hbehind : ¬ FlashInputs m (measuredAddr 1702912) := by
      rintro (hparams | ⟨hflash, _⟩)
      · exact absurd hparams (by decide)
      · exact behind_flash hflash
    have hpower : 18 ≤ blankDevice.power := by decide
    exact not_handsOver (w := { blankDevice with mem := m }) hpower (measures_behind hlong)
      (by decide) hbehind (h _ _ _ rfl)
  · rintro h C E w rfl
    exact h.handsOver

end Handover

/-! ## Erased flash -/

/-- Erased flash, and `b` behind the parameters of L0. -/
def staleDice (b : Byte) : World :=
  { blankDevice with mem := write (fun _ => 0xFF) (at_ getSharedDiceL0 L0Params.size) [b] }

/-- Where the byte is in the range that is measured. -/
def staleOffset : Nat := 0x2FF9FC44

theorem staleOffset_addr : measuredAddr staleOffset = at_ getSharedDiceL0 L0Params.size := by decide

theorem staleDice_agree (b c : Byte) {x : Addr} (hx : x ≠ at_ getSharedDiceL0 L0Params.size) :
    (staleDice c).mem x = (staleDice b).mem x := by
  have hout : ∀ d : Byte, (staleDice d).mem x = 0xFF := by
    intro d
    apply write_outside
    apply not_within_of_at_ne
    intro i hi
    obtain rfl : i = 0 := Nat.lt_one_iff.mp hi
    rwa [at_zero]
  rw [hout, hout]

/-- Two devices with erased flash, the same parameters of L0 and different stale bytes behind them:
L1 finds the stale byte in the key. -/
theorem erased_l1_leaks :
    AgreeOn InFlash (staleDice 1).mem (staleDice 2).mem ∧
    AgreeOn InL0Params (staleDice 1).mem (staleDice 2).mem ∧
    (∃ w' t',
      runL0 plainBuild (byteDigest staleOffset) sampleEngine (staleDice 1) = (some (), w') ∧
      runL0 plainBuild (byteDigest staleOffset) sampleEngine (staleDice 2) = (some (), t') ∧
      w'.mem (at_ getSharedL0L1 L1Params.aliasKeyPub) = 1 ∧
      t'.mem (at_ getSharedL0L1 L1Params.aliasKeyPub) = 2) ∧
    ¬ HandsOver plainBuild (byteDigest staleOffset) sampleEngine (staleDice 1) := by
  have hflash : ¬ InFlash (at_ getSharedDiceL0 L0Params.size) := by decide
  have hparams : ¬ InL0Params (at_ getSharedDiceL0 L0Params.size) := by decide
  have hout : ¬ InL0L1 (measuredAddr staleOffset) := by decide
  have hsize : ∀ b : Byte, staleOffset < (measuredL1 (staleDice b).mem).size.toNat := by
    intro b
    have hfirst : measuredL1 (staleDice 1).mem = ⟨0x08060400, 0xFFFFFFFF⟩ := by decide
    have hsame : measuredL1 (staleDice b).mem = measuredL1 (staleDice 1).mem := by
      apply measuredL1_congr
      intro x hx
      apply staleDice_agree
      rintro rfl
      exact hflash (inL1Header_inFlash hx)
    rw [hsame, hfirst]
    decide
  have hread : ∀ b : Byte, (staleDice b).mem (measuredAddr staleOffset) = b := by
    intro b
    rw [staleOffset_addr]
    simp [staleDice, write]
  have hpower : 18 ≤ blankDevice.power := by decide
  have hrun : ∀ b : Byte, ∃ w',
      runL0 plainBuild (byteDigest staleOffset) sampleEngine (staleDice b) = (some (), w') ∧
        w'.mem (at_ getSharedL0L1 L1Params.aliasKeyPub) = b := by
    intro b
    obtain ⟨_, w', hw, _⟩ :=
      runL0_runs plainBuild (byteDigest staleOffset) sampleEngine (staleDice b) hpower
    exact ⟨w', hw, (runL0_shows (hsize b) hout hw).trans (hread b)⟩
  refine ⟨?_, ?_, ?_, ?_⟩
  · intro x hx
    apply staleDice_agree
    rintro rfl
    exact hflash hx
  · intro x hx
    apply staleDice_agree
    rintro rfl
    exact hparams hx
  · obtain ⟨w', hw, hkeyw⟩ := hrun 1
    obtain ⟨t', ht, hkeyt⟩ := hrun 2
    exact ⟨w', t', hw, ht, hkeyw, hkeyt⟩
  · apply not_handsOver (w := staleDice 1) hpower (hsize 1) hout
    rw [staleOffset_addr]
    rintro (hin | ⟨hin, _⟩)
    · exact hparams hin
    · exact hflash hin

end VerifiedDice
