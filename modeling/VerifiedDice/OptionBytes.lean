import VerifiedDice.Protections

/-!
# Option bytes

`CheckProtections` compares whole registers. Here the registers are read field by field, as
`option_bytes.md` lists them: the check passes for the configuration described there and for no
other one.
-/
namespace VerifiedDice

open ByteMemory

/-! ## Fields -/

/-- The fields of `FLASH_OPTSR` that are not ignored. -/
structure OptsrFields where
  swapBankOp : Bool
  optChangeErr : Bool
  security : Bool
  iwdgFzSdby : Bool
  iwdgFzStop : Bool
  rdp : Byte
  iwdg1Sw : Bool

def optsrFields (x : Word) : OptsrFields where
  swapBankOp := x.getLsbD 31
  optChangeErr := x.getLsbD 30
  security := x.getLsbD 21
  iwdgFzSdby := x.getLsbD 18
  iwdgFzStop := x.getLsbD 17
  rdp := x.extractLsb' 8 8
  iwdg1Sw := x.getLsbD 4

/-- `FLASH_PRAR_x` and `FLASH_SCAR_x`: an area of a bank in units of 256 bytes. -/
structure AreaFields where
  enabled : Bool
  first : Nat
  last : Nat
  reserved : Nat

def areaFields (x : Word) : AreaFields where
  enabled := x.getLsbD 31
  first := x.toNat % 0x1000
  last := x.toNat / 0x10000 % 0x1000
  reserved := x.toNat / 0x10000000 % 8 + x.toNat / 0x1000 % 16

/-- `offset` from the start of the bank is in the area. -/
def AreaFields.Covers (a : AreaFields) (offset : Nat) : Prop :=
  a.enabled = true ∧ 256 * a.first ≤ offset ∧ offset < 256 * (a.last + 1)

/-- `BOOT_ADD0` and `BOOT_ADD1` are the high halves of addresses. -/
def bootAddress (half : BitVec 16) : Addr := half.setWidth 32 <<< 16

/-- What `option_bytes.md` asks for. -/
structure Documented (ob : OptionBytes) : Prop where
  rdp : (optsrFields ob.optsrCur).rdp = 0xBB ∨ (optsrFields ob.optsrCur).rdp = 0xCC
  /-- "Don't swap flash banks." -/
  swapBankOp : (optsrFields ob.optsrCur).swapBankOp = false
  optChangeErr : (optsrFields ob.optsrCur).optChangeErr = false
  /-- "Enable RSS services (Secure User Memory)." -/
  security : (optsrFields ob.optsrCur).security = true
  /-- The watchdog keeps counting in both low power modes. -/
  iwdgFzSdby : (optsrFields ob.optsrCur).iwdgFzSdby = true
  iwdgFzStop : (optsrFields ob.optsrCur).iwdgFzStop = true
  /-- "Enable IWDG by SW insted of at boot." -/
  iwdg1Sw : (optsrFields ob.optsrCur).iwdg1Sw = true
  /-- "Readout protection area in bank 1 disabled.", and in bank 2. -/
  prar : ∀ r ∈ [ob.prarCur1, ob.prarCur2], areaFields r =
    { enabled := false, first := 0xFF, last := 0, reserved := 0 }
  /-- "Cover DICE and key manifest." -/
  secure : ∀ offset : Nat, (areaFields ob.scarCur1).Covers offset ↔
    offset < (getL0ImageStart - getDICEImageStart).toNat
  secureReserved : (areaFields ob.scarCur1).reserved = 0
  /-- "Secure-only access area in bank 2 disabled." -/
  scar2 : areaFields ob.scarCur2 = { enabled := false, first := 0xFFF, last := 0, reserved := 0 }
  /-- The sectors that may be written are all of bank 1 and all but the first of bank 2. -/
  wpsn1 : ∀ sector < 8, ob.wpsnCur1.getLsbD sector = true
  wpsn2 : ∀ sector < 8, ob.wpsnCur2.getLsbD sector = true ↔ sector ≠ 0
  wpsnReserved : ob.wpsnCur1 >>> 8 = 0 ∧ ob.wpsnCur2 >>> 8 = 0
  /-- Both boot addresses are the start of flash. -/
  boot0 : bootAddress (ob.bootCur.extractLsb' 0 16) = getFlashStart
  boot1 : bootAddress (ob.bootCur.extractLsb' 16 16) = getFlashStart

/-- The level is in bits 8 to 15, all the other bits that count are fixed. -/
theorem optsr_iff (x : Word) (level : Byte) :
    x &&& ~~~ignoredMask = (level.setWidth 32 <<< 8) ||| 0x00260010 ↔
      (optsrFields x).rdp = level ∧ (optsrFields x).swapBankOp = false ∧
      (optsrFields x).optChangeErr = false ∧ (optsrFields x).security = true ∧
      (optsrFields x).iwdgFzSdby = true ∧ (optsrFields x).iwdgFzStop = true ∧
      (optsrFields x).iwdg1Sw = true := by
  simp only [BitVec.eq_of_getLsbD_eq_iff, ignoredMask, optsrFields]
  simp only [Nat.forall_lt_succ_right]
  simp
  tauto

theorem enabled_iff (x : Word) : (areaFields x).enabled = true ↔ 0x80000000 ≤ x.toNat := by
  have hx := x.isLt
  have hbit : x.getLsbD 31 = decide (x.toNat / 2 ^ 31 % 2 = 1) := by
    rw [BitVec.getLsbD, Nat.testBit_eq_decide_div_mod_eq]
  rw [areaFields, hbit, decide_eq_true_eq]
  omega

theorem disabled_iff (x : Word) : (areaFields x).enabled = false ↔ x.toNat < 0x80000000 := by
  rw [← Bool.not_eq_true, enabled_iff]
  omega

/-- The fields of an area register follow each other without a gap. -/
theorem area_layout (n : Nat) : n / 0x10000 = n / 0x1000 / 16 ∧
    n / 0x10000000 = n / 0x10000 / 0x1000 ∧ n / 0x80000000 = n / 0x10000000 / 8 := by
  refine ⟨?_, ?_, ?_⟩ <;> rw [Nat.div_div_eq_div_mul]

theorem area_iff (x : Word) (first : Nat) (hfirst : first < 0x1000) :
    x = BitVec.ofNat 32 first ↔
      areaFields x = { enabled := false, first := first, last := 0, reserved := 0 } := by
  have hx := x.isLt
  have hdisabled := disabled_iff x
  have hfields : areaFields x = { enabled := false, first := first, last := 0, reserved := 0 } ↔
      (areaFields x).enabled = false ∧ x.toNat % 0x1000 = first ∧
        x.toNat / 0x10000 % 0x1000 = 0 ∧
        x.toNat / 0x10000000 % 8 + x.toNat / 0x1000 % 16 = 0 := AreaFields.mk.injEq .. ▸ Iff.rfl
  obtain ⟨hend, hreserved, htop⟩ := area_layout x.toNat
  rw [hfields, hdisabled, ← BitVec.toNat_inj, BitVec.toNat_ofNat]
  omega

theorem boot_iff (x : Word) : x = expectedBootCur ↔
    bootAddress (x.extractLsb' 0 16) = getFlashStart ∧
      bootAddress (x.extractLsb' 16 16) = getFlashStart := by
  have hstart : getFlashStart = 0x08000000 := rfl
  simp only [BitVec.eq_of_getLsbD_eq_iff, expectedBootCur, bootAddress, hstart]
  simp only [Nat.forall_lt_succ_right]
  simp
  tauto

theorem wpsn1_iff (x : Word) : x = expectedWpsnCur1 ↔
    (∀ sector < 8, x.getLsbD sector = true) ∧ x >>> 8 = 0 := by
  simp only [BitVec.eq_of_getLsbD_eq_iff, expectedWpsnCur1]
  simp only [Nat.forall_lt_succ_right]
  simp
  tauto

theorem wpsn2_iff (x : Word) : x = expectedWpsnCur2 ↔
    (∀ sector < 8, x.getLsbD sector = true ↔ sector ≠ 0) ∧ x >>> 8 = 0 := by
  simp only [BitVec.eq_of_getLsbD_eq_iff, expectedWpsnCur2]
  simp only [Nat.forall_lt_succ_right]
  simp
  tauto

/-- The register covers DICE and the key manifest just if it has the expected value. -/
theorem scar1_iff (x : Word) : x = expectedScarCur1 ↔
    (∀ offset : Nat, (areaFields x).Covers offset ↔
      offset < (getL0ImageStart - getDICEImageStart).toNat) ∧ (areaFields x).reserved = 0 := by
  have hsize : (getL0ImageStart - getDICEImageStart).toNat = 0x20400 := rfl
  have hexpected : expectedScarCur1.toNat = 0x82030000 := rfl
  have hx := x.isLt
  have henabled := enabled_iff x
  have hfirst : (areaFields x).first = x.toNat % 0x1000 := rfl
  have hlast : (areaFields x).last = x.toNat / 0x10000 % 0x1000 := rfl
  have hreserved : (areaFields x).reserved =
      x.toNat / 0x10000000 % 8 + x.toNat / 0x1000 % 16 := rfl
  rw [hsize, ← BitVec.toNat_inj, hexpected, hreserved]
  simp only [AreaFields.Covers, henabled, hfirst, hlast]
  constructor
  · intro h
    rw [h]
    refine ⟨fun offset => ?_, by decide⟩
    omega
  · rintro ⟨hcovers, hzero⟩
    -- the first byte, the last one and the one behind it
    have h0 := (hcovers 0).mpr (by decide)
    have h1 := (hcovers 0x203FF).mpr (by decide)
    have h2 := mt (hcovers 0x20400).mp (by decide)
    obtain ⟨hend, hgap, htop⟩ := area_layout x.toNat
    omega

/-- The expected register values say what the document says. -/
theorem protected_iff_documented (ob : OptionBytes) : Protected ob ↔ Documented ob := by
  have hprar (x : Word) : x = 0x000000FF ↔
      areaFields x = { enabled := false, first := 0xFF, last := 0, reserved := 0 } :=
    area_iff x 0xFF (by decide)
  have hscar2 : ob.scarCur2 = expectedScarCur2 ↔
      areaFields ob.scarCur2 = { enabled := false, first := 0xFFF, last := 0, reserved := 0 } :=
    area_iff ob.scarCur2 0xFFF (by decide)
  have hrdp1 := optsr_iff ob.optsrCur 0xBB
  have hrdp2 := optsr_iff ob.optsrCur 0xCC
  have hlevel1 : expectedRdp1 = (BitVec.setWidth 32 (0xBB : Byte) <<< 8) ||| 0x00260010 := by decide
  have hlevel2 : expectedRdp2 = (BitVec.setWidth 32 (0xCC : Byte) <<< 8) ||| 0x00260010 := by decide
  constructor
  · intro h
    have hoptsr := h.optsr
    rw [hlevel1, hlevel2, hrdp1, hrdp2, ← or_and_right] at hoptsr
    obtain ⟨hrdp, hswap, hchange, hsecurity, hstandby, hstop, hsw⟩ := hoptsr
    obtain ⟨hcovers, hreserved⟩ := (scar1_iff ob.scarCur1).mp h.scar1
    obtain ⟨hboot0, hboot1⟩ := (boot_iff ob.bootCur).mp h.boot
    obtain ⟨hsectors1, hrest1⟩ := (wpsn1_iff ob.wpsnCur1).mp h.wpsn1
    obtain ⟨hsectors2, hrest2⟩ := (wpsn2_iff ob.wpsnCur2).mp h.wpsn2
    refine ⟨hrdp, hswap, hchange, hsecurity, hstandby, hstop, hsw, fun r hr => ?_, hcovers,
      hreserved, hscar2.mp h.scar2, hsectors1, hsectors2, ⟨hrest1, hrest2⟩, hboot0, hboot1⟩
    rcases List.mem_pair.mp hr with rfl | rfl
    · exact (hprar _).mp h.prar1
    · exact (hprar _).mp h.prar2
  · intro h
    have hrest : (optsrFields ob.optsrCur).swapBankOp = false ∧
        (optsrFields ob.optsrCur).optChangeErr = false ∧
        (optsrFields ob.optsrCur).security = true ∧ (optsrFields ob.optsrCur).iwdgFzSdby = true ∧
        (optsrFields ob.optsrCur).iwdgFzStop = true ∧ (optsrFields ob.optsrCur).iwdg1Sw = true :=
      ⟨h.swapBankOp, h.optChangeErr, h.security, h.iwdgFzSdby, h.iwdgFzStop, h.iwdg1Sw⟩
    have hoptsr := (or_and_right.mp ⟨h.rdp, hrest⟩)
    rw [← hrdp1, ← hrdp2, ← hlevel1, ← hlevel2] at hoptsr
    exact ⟨hoptsr, (hprar _).mpr (h.prar _ (by simp)), (hprar _).mpr (h.prar _ (by simp)),
      (scar1_iff _).mpr ⟨h.secure, h.secureReserved⟩, hscar2.mpr h.scar2,
      (wpsn1_iff _).mpr ⟨h.wpsn1, h.wpsnReserved.1⟩, (wpsn2_iff _).mpr ⟨h.wpsn2, h.wpsnReserved.2⟩,
      (boot_iff _).mpr ⟨h.boot0, h.boot1⟩⟩

/-! ## The check -/

section

variable {cfg : BuildConfig}

theorem checkOptsr_value (optsrCur : Word) (w : World) :
    Cut.Sat (checkOptsr cfg optsrCur) w fun r _ => ∀ v, r = some v → (v = 0 ↔
      optsrCur &&& ~~~ignoredMask = expectedRdp1 ∨
        optsrCur &&& ~~~ignoredMask = expectedRdp2) := by
  unfold checkOptsr
  refine Cut.Sat.ite (fun h1 => ?_) fun h1 => Cut.Sat.ite (fun h2 => ?_) fun h2 => ?_
  · exact logThen_sat (fun _ _ v hv => by cases hv) fun _ _ v hv => by
      cases hv
      exact iff_of_true rfl (Or.inl h1)
  · exact logThen_sat (fun _ _ v hv => by cases hv) fun _ _ v hv => by
      cases hv
      exact iff_of_true rfl (Or.inr h2)
  · exact logThen_sat (fun _ _ v hv => by cases hv) fun _ _ v hv => by
      cases hv
      exact iff_of_false (by decide) (not_or.mpr ⟨h1, h2⟩)

/-- The loop keeps the 0 of `ret` just as long as the registers match. -/
theorem checkRegs_value (rs : List RegCheck) : ∀ (ret : Word) (w : World),
    Cut.Sat (checkRegs cfg rs ret) w fun r _ => ∀ v, r = some v → (v = 0 ↔
      ret = 0 ∧ ∀ reg ∈ rs, reg.currentValue = reg.expectedValue) := by
  induction rs with
  | nil =>
    intro ret w
    refine Cut.Sat.pure fun v hv => ?_
    cases hv
    simp
  | cons reg rs ih =>
    intro ret w
    unfold checkRegs
    refine Cut.Sat.ite (fun hne => ?_) fun heq => ?_
    · refine ((hwLogAt_logOnly cfg .fail _ _ _).sat w).bind_result fun _ w1 _ => ?_
      refine (ih (-1) w1).mono fun r w2 h v hv => ?_
      rw [h v hv, List.forall_mem_cons]
      exact iff_of_false (fun hret => absurd hret.1 (by decide)) fun hall => hne hall.2.1
    · refine (ih ret w).mono fun r w2 h v hv => ?_
      rw [h v hv, List.forall_mem_cons, and_iff_right (not_not.mp heq)]

theorem checkProtections_value (hignore : cfg.ignoreProtectionChecks = false) (w : World) :
    Cut.Sat (checkProtections cfg) w fun r _ => ∀ v, r = some v →
      (v = 0 ↔ Documented w.optionBytes) := by
  unfold checkProtections
  refine Cut.Sat.state_bind ?_
  refine ((hwLogAt_logOnly cfg .trace _ _ _).sat w).bind_result fun _ w1 _ => ?_
  refine (checkOptsr_value _ w1).bind_result fun ret w2 hoptsr => ?_
  refine Cut.Sat.ite (fun hne => absurd calculatedScarCur1_eq.symm hne) fun _ => ?_
  refine ((setupSecureArea_logOnly _).sat w2).bind_result fun _ w3 _ => ?_
  refine (checkRegs_value _ ret w3).bind_result fun ret' w4 hregs => ?_
  rw [hignore]
  refine Cut.Sat.pure fun v hv => ?_
  cases hv
  rw [← protected_iff_documented, protected_iff, hregs ret' rfl, hoptsr ret rfl]

theorem checkRegs_runs (rs : List RegCheck) (ret : Word) :
    Runs (3 * rs.length) (checkRegs cfg rs ret) := by
  induction rs generalizing ret with
  | nil => exact Runs.pure _
  | cons reg rs ih =>
    have hlength : 3 * (reg :: rs).length = 3 + 3 * rs.length := by
      rw [List.length_cons]
      omega
    rw [hlength]
    unfold checkRegs
    exact Runs.ite ((hwLogAt_runs _ _ _ _ _).bind fun _ => ih _)
      ((ih ret).mono (Nat.le_add_left _ _))

theorem checkOptsr_runs (optsrCur : Word) : Runs 3 (checkOptsr cfg optsrCur) := by
  have hend (level : LogLevel) (line : Nat) (t : Text) (v : Word) : Runs 3
      (hwLogAt cfg level protectionsFile line t >>= fun _ => (pure v : Cut World Word)) :=
    (hwLogAt_runs _ _ _ _ _).bind fun _ => Runs.pure _
  exact Runs.ite (hend _ _ _ _) (Runs.ite (hend _ _ _ _) (hend _ _ _ _))

/-- Unless it resets the device, the check ends. -/
theorem checkProtections_ends {w : World} (hpower : 27 ≤ w.power)
    (hsetup : ¬ (cfg.setRssProtectionsAtRuntime ∧ w.optionBytes.scarCur1 ≠ expectedScarCur1)) :
    ∃ v w', checkProtections cfg w = (some v, w') := by
  have hnothing : setupSecureArea cfg w.optionBytes = pure () := if_neg hsetup
  have hscar : ¬ expectedScarCur1 ≠ calculatedScarCur1 := not_not.mpr calculatedScarCur1_eq.symm
  unfold checkProtections
  rw [Cut.state_bind]
  simp only [hnothing, if_neg hscar]
  have hoptsr : Runs 3 (checkOptsr cfg w.optionBytes.optsrCur) := checkOptsr_runs _
  have hregs (ret : Word) : Runs 21 (checkRegs cfg (regs w.optionBytes) ret) :=
    checkRegs_runs (regs w.optionBytes) ret
  have hruns := (hwLogAt_runs cfg .trace protectionsFile 36 (optionBytesText w.optionBytes)).bind
    fun _ => hoptsr.bind fun ret => (Runs.pure ()).bind fun _ => (hregs ret).bind fun ret' =>
      Runs.ite (c := cfg.ignoreProtectionChecks = true) (Runs.pure (0 : Word)) (Runs.pure ret')
  obtain ⟨v, w', hrun, _⟩ := hruns w hpower
  exact ⟨v, w', hrun⟩

/-- **The check accepts what the document says.** In a build that does not ignore the check, it
ends unless it has to set up the secure area, and when it ends it returns 0 for the documented
configuration and for no other one. -/
theorem checkProtections_documented (hignore : cfg.ignoreProtectionChecks = false) (w : World) :
    (27 ≤ w.power →
      ¬ (cfg.setRssProtectionsAtRuntime ∧ w.optionBytes.scarCur1 ≠ expectedScarCur1) →
      ∃ v w', checkProtections cfg w = (some v, w')) ∧
    ∀ v w', checkProtections cfg w = (some v, w') → (v = 0 ↔ Documented w.optionBytes) := by
  constructor
  · exact fun hpower hsetup => checkProtections_ends hpower hsetup
  · intro v w' hrun
    exact (checkProtections_value hignore w).elim hrun v rfl

end

theorem blankDevice_documented : ∃ w', checkProtections plainBuild blankDevice = (some 0, w') ∧
    Documented blankDevice.optionBytes := by
  obtain ⟨hends, hvalue⟩ := @checkProtections_documented plainBuild rfl blankDevice
  have hzero : (checkProtections plainBuild blankDevice).1 = some 0 := by decide +kernel
  obtain ⟨v, w', hrun⟩ := hends (by decide) (by decide)
  rw [hrun] at hzero
  obtain rfl := Option.some.inj hzero
  exact ⟨w', hrun, (hvalue 0 w' hrun).mp rfl⟩

end VerifiedDice
