import VerifiedDice.Logger

/-!
# The checks before a normal boot

`CheckProtections` compares the option byte registers with their expected values;
`ResetReason_Update` finds the reason for the last reset from the flags of `RCC`.
-/
namespace VerifiedDice

open ByteMemory

/-! ## protections.c -/

def protectionsFile : String := "fw/DICE_Image/arm/protections.c"

def expectedPrarCur1 : Word := 0x000000FF
def expectedPrarCur2 : Word := 0x000000FF
def expectedScarCur1 : Word := 0x82030000
def expectedScarCur2 : Word := 0x00000FFF
def expectedWpsnCur1 : Word := 0x000000FF
def expectedWpsnCur2 : Word := 0x000000FE
def expectedBootCur : Word := 0x08000800

def ignoredMask : Word := 0x3FD900EF
def expectedRdp1 : Word := 0x0026BB10
def expectedRdp2 : Word := 0x0026CC10

def rssBank1AreaStart : Addr := getDICEImageStart
def rssBank1AreaEnd : Addr := getL0ImageStart - 1
def rssBank1AreaStartOb : Word := (rssBank1AreaStart >>> 8) &&& 0xFFF
def rssBank1AreaEndOb : Word := (rssBank1AreaEnd >>> 8) &&& 0xFFF

def calculatedScarCur1 : Word := (1 <<< 31) ||| rssBank1AreaStartOb ||| (rssBank1AreaEndOb <<< 16)

/-- The linker's addresses agree with the constant. -/
theorem calculatedScarCur1_eq : calculatedScarCur1 = expectedScarCur1 := by decide

/-- A register with its expected value and its name. -/
structure RegCheck where
  currentValue : Word
  expectedValue : Word
  name : String

def regs (ob : OptionBytes) : List RegCheck := [
  { currentValue := ob.prarCur1, expectedValue := expectedPrarCur1, name := "PRAR_CUR1" },
  { currentValue := ob.prarCur2, expectedValue := expectedPrarCur2, name := "PRAR_CUR2" },
  { currentValue := ob.scarCur1, expectedValue := expectedScarCur1, name := "SCAR_CUR1" },
  { currentValue := ob.scarCur2, expectedValue := expectedScarCur2, name := "SCAR_CUR2" },
  { currentValue := ob.wpsnCur1, expectedValue := expectedWpsnCur1, name := "WPSN_CUR1" },
  { currentValue := ob.wpsnCur2, expectedValue := expectedWpsnCur2, name := "WPSN_CUR2" },
  { currentValue := ob.bootCur, expectedValue := expectedBootCur, name := "BOOT_CUR " }]

def optionBytesText (ob : OptionBytes) : Text :=
  text "Option bytes:\n\n" ++
    text "OPTSR_CUR : 0x" ++ hexWord ob.optsrCur ++
    text "\nPRAR_CUR1 : 0x" ++ hexWord ob.prarCur1 ++
    text "\nPRAR_CUR2 : 0x" ++ hexWord ob.prarCur2 ++
    text "\nSCAR_CUR1 : 0x" ++ hexWord ob.scarCur1 ++
    text "\nSCAR_CUR2 : 0x" ++ hexWord ob.scarCur2 ++
    text "\nWPSN_CUR1 : 0x" ++ hexWord ob.wpsnCur1 ++
    text "\nWPSN_CUR2 : 0x" ++ hexWord ob.wpsnCur2 ++
    text "\nBOOT_CUR  : 0x" ++ hexWord ob.bootCur ++
    text "\n\n"

variable (cfg : BuildConfig)

/-- The check of `OPTSR_CUR`; `ret` is still 0 before it. -/
def checkOptsr (optsrCur : Word) : Cut World Word :=
  let masked := optsrCur &&& ~~~ignoredMask
  if masked = expectedRdp1 then do
    hwLogInfo cfg protectionsFile 65 (text "RDP level 1 set")
    pure 0
  else if masked = expectedRdp2 then do
    hwLogInfo cfg protectionsFile 67 (text "RDP level 2 set")
    pure 0
  else do
    hwLogFail cfg protectionsFile 69
      (text "OPTSR_CUR: 0x" ++ hexWord optsrCur ++ text " (not valid)")
    pure (-1)

def checkRegs : List RegCheck → Word → Cut World Word
  | [], ret => pure ret
  | reg :: regs, ret =>
    if reg.currentValue ≠ reg.expectedValue then do
      hwLogFail cfg protectionsFile 142
        (text reg.name ++ text ": 0x" ++ hexWord reg.currentValue ++ text " (expected 0x" ++
          hexWord reg.expectedValue ++ text ")")
      checkRegs regs (-1)
    else checkRegs regs ret

/-- `RSS_TABLE->resetAndInitializeSecureAreas` resets the device. -/
def setupSecureArea (ob : OptionBytes) : Cut World Unit :=
  if cfg.setRssProtectionsAtRuntime ∧ ob.scarCur1 ≠ expectedScarCur1 then do
    hwLogInfo cfg protectionsFile 110
      (text "Setting up secure area: 0x" ++ hexWord rssBank1AreaStart ++ text " - 0x" ++
        hexWord rssBank1AreaEnd ++ text ". Resetting...")
    hang
  else pure ()

def checkProtections : Cut World Word := do
  let w ← Cut.state
  let ob := w.optionBytes
  hwLogTrace cfg protectionsFile 36 (optionBytesText ob)
  let ret ← checkOptsr cfg ob.optsrCur
  if expectedScarCur1 ≠ calculatedScarCur1 then do
    hwLogFail cfg protectionsFile 85
      (text "The value of EXPECTED_SCAR_CUR1 is outdated: 0x" ++ hexWord calculatedScarCur1)
    hang
  else do
    setupSecureArea cfg ob
    let ret ← checkRegs cfg (regs ob) ret
    if cfg.ignoreProtectionChecks then pure 0 else pure ret

/-! ## reset.c -/

def rsrFlag (rsr : Word) (bit : Nat) : Bool := rsr.getLsbD bit

def rccFlagIwdg1rst : Nat := 26
def rccFlagWwdg1rst : Nat := 28
def rccFlagLpwr1rst : Nat := 30
def rccFlagSftrst : Nat := 24
def rccFlagPinrst : Nat := 22

def resetReasonOf (rsr : Word) : ResetReason :=
  if rsrFlag rsr rccFlagIwdg1rst ∨ rsrFlag rsr rccFlagWwdg1rst then .watchdog
  else if rsrFlag rsr rccFlagLpwr1rst then .lowPower
  else if rsrFlag rsr rccFlagSftrst then .swReset
  else if rsrFlag rsr rccFlagPinrst then .hwReset
  else .unknown

/-- `ResetReason_Update`, which also clears the flags. -/
def resetReasonUpdate : Cut World Unit :=
  step fun w => ((), { w with lastResetReason := resetReasonOf w.rsr, rsr := 0 })

def resetReasonGetString : ResetReason → Text
  | .unknown => text "Unknown"
  | .watchdog => text "Watchdog"
  | .lowPower => text "Low Power"
  | .swReset => text "Software Reset"
  | .hwReset => text "Hardware Reset"

/-! ## What the checks say -/

/-- All that `CheckProtections` asks for. -/
structure Protected (ob : OptionBytes) : Prop where
  optsr : ob.optsrCur &&& ~~~ignoredMask = expectedRdp1 ∨
    ob.optsrCur &&& ~~~ignoredMask = expectedRdp2
  prar1 : ob.prarCur1 = expectedPrarCur1
  prar2 : ob.prarCur2 = expectedPrarCur2
  scar1 : ob.scarCur1 = expectedScarCur1
  scar2 : ob.scarCur2 = expectedScarCur2
  wpsn1 : ob.wpsnCur1 = expectedWpsnCur1
  wpsn2 : ob.wpsnCur2 = expectedWpsnCur2
  boot : ob.bootCur = expectedBootCur

theorem protected_iff (ob : OptionBytes) : Protected ob ↔
    (ob.optsrCur &&& ~~~ignoredMask = expectedRdp1 ∨
      ob.optsrCur &&& ~~~ignoredMask = expectedRdp2) ∧
      ∀ reg ∈ regs ob, reg.currentValue = reg.expectedValue := by
  simp only [regs, List.forall_mem_cons, List.not_mem_nil, false_implies, implies_true, and_true]
  constructor
  · rintro ⟨h0, h1, h2, h3, h4, h5, h6, h7⟩
    exact ⟨h0, h1, h2, h3, h4, h5, h6, h7⟩
  · rintro ⟨h0, h1, h2, h3, h4, h5, h6, h7⟩
    exact ⟨h0, h1, h2, h3, h4, h5, h6, h7⟩

variable {cfg}

theorem checkOptsr_sat (optsrCur : Word) (w : World) :
    Cut.Sat (checkOptsr cfg optsrCur) w fun r w' => w.LogOnly w' ∧ (r = some 0 →
      optsrCur &&& ~~~ignoredMask = expectedRdp1 ∨ optsrCur &&& ~~~ignoredMask = expectedRdp2) := by
  unfold checkOptsr
  refine Cut.Sat.ite (fun h1 => ?_) fun _ => Cut.Sat.ite (fun h2 => ?_) fun _ => ?_
  · exact logThen_sat (fun _ h => ⟨h, nofun⟩) fun _ h => ⟨h, fun _ => Or.inl h1⟩
  · exact logThen_sat (fun _ h => ⟨h, nofun⟩) fun _ h => ⟨h, fun _ => Or.inr h2⟩
  · exact failed_sat fun _ _ hr h => ⟨h, fun h0 => absurd h0 hr⟩

/-- An error is never taken back, and 0 at the end means that every register matched. -/
theorem checkRegs_sat (rs : List RegCheck) : ∀ (ret : Word) (w : World),
    Cut.Sat (checkRegs cfg rs ret) w fun r w' => w.LogOnly w' ∧ (r = some 0 →
      ret = 0 ∧ ∀ reg ∈ rs, reg.currentValue = reg.expectedValue) := by
  induction rs with
  | nil => exact fun ret w => Cut.Sat.pure ⟨logOnly.refl w, fun h0 => ⟨Option.some.inj h0, nofun⟩⟩
  | cons reg rs ih =>
    intro ret w
    unfold checkRegs
    refine Cut.Sat.ite (fun _ => ?_) fun heq => ?_
    · refine Cut.Sat.bind ((hwLogAt_logOnly cfg .fail _ _ _).sat w) (fun _ w1 h1 => ?_)
        fun w1 h1 => ⟨h1, nofun⟩
      refine (ih (-1) w1).mono fun r w2 h2 => ⟨h1.trans h2.1, fun h0 => ?_⟩
      exact absurd (h2.2 h0).1 (by decide)
    · refine (ih ret w).mono fun r w2 h2 => ⟨h2.1, fun h0 => ?_⟩
      obtain ⟨hret, hall⟩ := h2.2 h0
      refine ⟨hret, fun reg' hreg' => ?_⟩
      rcases List.mem_cons.mp hreg' with rfl | hin
      · exact not_not.mp heq
      · exact hall reg' hin

theorem setupSecureArea_logOnly (ob : OptionBytes) : Cut.Keeps logOnly (setupSecureArea cfg ob) :=
  Cut.Keeps.ite ((hwLogAt_logOnly cfg .info _ _ _).bind fun _ => Cut.Keeps.stop) (Cut.Keeps.pure _)

theorem checkRegs_logOnly (rs : List RegCheck) : ∀ ret : Word,
    Cut.Keeps logOnly (checkRegs cfg rs ret) := by
  induction rs with
  | nil => exact fun ret => Cut.Keeps.pure ret
  | cons reg rs ih =>
    exact fun ret => Cut.Keeps.ite ((hwLogAt_logOnly cfg _ _ _ _).bind fun _ => ih _) (ih ret)

theorem checkProtections_logOnly : Cut.Keeps logOnly (checkProtections cfg) := by
  unfold checkProtections
  refine Cut.Keeps.state_bind fun w => (hwLogAt_logOnly cfg _ _ _ _).bind fun _ => ?_
  refine Cut.Keeps.bind (fun u => (checkOptsr_sat _ u).1) fun ret => ?_
  refine Cut.Keeps.ite ((hwLogAt_logOnly cfg _ _ _ _).bind fun _ => Cut.Keeps.stop) ?_
  refine (setupSecureArea_logOnly _).bind fun _ => (checkRegs_logOnly _ ret).bind fun _ => ?_
  exact Cut.Keeps.ite (Cut.Keeps.pure _) (Cut.Keeps.pure _)

/-- Unless the checks are ignored, `CheckProtections` returns 0 only when all of them pass, and it
only logs. -/
theorem checkProtections_sat (hignore : cfg.ignoreProtectionChecks = false) (w : World) :
    Cut.Sat (checkProtections cfg) w fun r w' =>
      w.LogOnly w' ∧ (r = some 0 → Protected w.optionBytes) := by
  unfold checkProtections
  refine Cut.Sat.state_bind (Cut.Sat.bind ((hwLogAt_logOnly cfg .trace _ _ _).sat w)
    (fun _ w1 h1 => ?_) fun w1 h1 => ⟨h1, nofun⟩)
  refine Cut.Sat.bind (checkOptsr_sat _ w1) (fun ret w2 h2 => ?_)
    fun w2 h2 => ⟨h1.trans h2.1, nofun⟩
  have h12 := h1.trans h2.1
  refine Cut.Sat.ite (fun hne => absurd calculatedScarCur1_eq.symm hne) fun _ => ?_
  refine Cut.Sat.bind ((setupSecureArea_logOnly _).sat w2) (fun _ w3 h3 => ?_)
    fun w3 h3 => ⟨h12.trans h3, nofun⟩
  refine Cut.Sat.bind (checkRegs_sat _ ret w3) (fun ret' w4 h4 => ?_)
    fun w4 h4 => ⟨(h12.trans h3).trans h4.1, nofun⟩
  rw [hignore]
  refine Cut.Sat.pure ⟨(h12.trans h3).trans h4.1, fun h0 => (protected_iff _).mpr ?_⟩
  obtain ⟨hret, hregs⟩ := h4.2 h0
  exact ⟨h2.2 (congrArg some hret), hregs⟩

/-- One of the two watchdogs reset the device. -/
def WatchdogReset (rsr : Word) : Prop :=
  rsrFlag rsr rccFlagIwdg1rst = true ∨ rsrFlag rsr rccFlagWwdg1rst = true

theorem resetReasonOf_watchdog {rsr : Word} (h : WatchdogReset rsr) :
    resetReasonOf rsr = .watchdog := if_pos h

end VerifiedDice
