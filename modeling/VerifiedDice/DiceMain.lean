import VerifiedDice.Protections
import VerifiedDice.SecretHistory

/-!
# The DICE image

`DICE_main`, `main` of the DICE image and what they call on the Arm port. The verified
core `dice_main` is not part of this repository: here it reads the secret through
`read_uds`, writes memory, and returns a code.
-/
namespace VerifiedDice

open ByteMemory

/-! ## The core -/

/-- A computation on memory that writes at most the bytes of its footprint. -/
structure Compute where
  apply : Memory → Memory
  footprint : Addr → Bool
  frame : ∀ m x, footprint x = false → apply m x = m x

inductive DiceAction where
  | readUds (udsOut : DtcmObject udsLength)
  | compute (c : Compute)

/-- What `dice_main` does, in order, and what it returns. -/
structure DiceCore where
  actions : List DiceAction
  returnCode : Word

/-- The core does not write `x`. -/
def DiceCore.Spares (d : DiceCore) (x : Addr) : Prop :=
  ∀ c, DiceAction.compute c ∈ d.actions → c.footprint x = false

section Core

variable (cfg : BuildConfig) (s : SecretCopies)

def Compute.run (c : Compute) : Cut World Unit :=
  step fun w => ((), { w with
    mem := c.apply w.mem
    written := fun x => w.written x || c.footprint x })

def DiceAction.run : DiceAction → Cut World Unit
  | .readUds udsOut => VerifiedDice.readUds cfg s udsOut.addr
  | .compute c => c.run

def runActions : List DiceAction → Cut World Unit
  | [] => pure ()
  | action :: actions => do
    action.run cfg s
    runActions actions

/-- `dice_main`. -/
def diceMain (d : DiceCore) : Cut World Word := do
  runActions cfg s d.actions
  pure d.returnCode

/-! ## dice_engine.c -/

def diceEngineFile : String := "core/dice_engine/dice_engine.c"

def diceCore (d : DiceCore) : Cut World Word := do
  hwLogTrace cfg diceEngineFile 21 (text "DICE: Begin")
  let ret ← diceMain cfg s d
  hwLogDebug cfg diceEngineFile 24 (text "DICE: Return Code " ++ decimal ret)
  hwLogTrace cfg diceEngineFile 26 (text "DICE: End")
  pure ret

def diceHandleArgsAndDice (hwMeasurement : List Byte) (l0Params : Addr) (d : DiceCore) :
    Cut World Word := do
  store (at_ l0Params L0Params.hwMeasurement) hwMeasurement
  store (at_ l0Params L0Params.versionDICE) (bytesOfWord cfg.versionDiceFull)
  diceCore cfg s d

/-! ## DICE_main.c -/

def diceMainFile : String := "fw/DICE_Image/DICE_main.c"

/-- The array `hw_measurement` without its terminator. -/
def hwMeasurementText : Text := text "***HW Measurement******HW Measurement***"

def diceBanner : Text :=
  text "\n+------------+\n| DICE Image |\n+------------+\n\nCopyright (c) 2020 Microsoft\n" ++
    text "Copyright (c) 2017-2019 STMicroelectronics\n\nBuild time: " ++ cfg.timestampString ++
    text "\nCommit: " ++ cfg.gitCommitDescription ++ text "\n"

/-- `RunDICE`; the size of the field `HWMeasurement` is what is copied. -/
def runDICE (d : DiceCore) : Cut World Word := do
  cleanSharedDiceL0
  diceHandleArgsAndDice cfg s (hwMeasurementText.take hwMeasurementLen) getSharedDiceL0 d

variable (locals : SecretLocals)

/-- `DICE_main` after the reset reason is known. -/
def normalBoot (d : DiceCore) : Cut World Word := do
  let ret ← deviceSecretInitialize cfg s locals
  if ret ≠ 0 then do
    hwLogInfo cfg diceMainFile 74 (text "DeviceSecretInitialize() failed")
    pure (-1)
  else do
    watchdogReload cfg
    runDICE cfg s d

def diceMainImage (d : DiceCore) : Cut World Word := do
  hwLogInfoStr cfg (diceBanner cfg)
  let ret ← checkProtections cfg
  if ret ≠ 0 then do
    hwLogFail cfg diceMainFile 52 (text "CheckProtections() failed")
    pure (-1)
  else do
    resetReasonUpdate
    let w ← Cut.state
    let reason := w.lastResetReason
    hwLogInfo cfg diceMainFile 59 (text "Reset reason: " ++ resetReasonGetString reason)
    if reason = .watchdog then do
      hwLogFail cfg diceMainFile 66 (text "Watchdog reset. Entering recovery mode.")
      pure (-1)
    else normalBoot cfg s locals d

end Core

/-! ## The Arm port -/

section Main

variable (cfg : BuildConfig)

/-- Where the source loops forever unless the HAL succeeds. -/
def halOrHang : Cut World Unit := do
  let ok ← halStatus
  if ok then pure () else hang

def systemClockConfig : Cut World Unit := do
  halOrHang
  halOrHang
  halOrHang

def uartInit : Cut World Unit := do
  halOrHang
  halOrHang
  halOrHang
  halOrHang

def systemInit : Cut World Unit := do
  systemClockConfig
  uartInit

def backupSramEnable : Cut World Unit := do
  let ok ← halStatus
  if ok then pure ()
  else hwLogFail cfg "fw/common/arm/backup_sram.c" 31 (text "HAL_PWREx_EnableBkUpReg() failed")

def backupSramDisable : Cut World Unit := do
  let ok ← halStatus
  if ok then pure ()
  else hwLogFail cfg "fw/common/arm/backup_sram.c" 40 (text "HAL_PWREx_DisableBkUpReg() failed")

def hwWatchdogInit : Cut World Word :=
  if cfg.enableWatchdog then do
    let ok ← halStatus
    if ok then pure 0 else pure (-1)
  else pure 0

/-- Two calls of the HAL, the second only if the first succeeds. -/
def bothCalls : Cut World Word := do
  let ok ← halStatus
  if ok then do
    let ok ← halStatus
    if ok then pure 0 else pure (-1)
  else pure (-1)

def swWatchdogInit : Cut World Word := if cfg.enableWatchdog then bothCalls else pure 0

def swWatchdogEnd : Cut World Word := if cfg.enableWatchdog then bothCalls else pure 0

def hwRngInit : Cut World Word := do
  let ok ← halStatus
  if ok then do
    let ok ← halStatus
    if ok then pure 0 else pure (-2)
  else pure (-1)

def hwRngDeInit : Cut World Word := do
  let ok ← halStatus
  if ok then pure 0 else pure (-1)

def mainFile : String := "fw/DICE_Image/arm/main.c"

def packageTypeTqfp144 : Word := 2
def packageTypeTqfp176 : Word := 5

def packageName (package : Word) : Text :=
  if package = packageTypeTqfp144 then text "Nucleo board"
  else if package = packageTypeTqfp176 then text "Vendor board"
  else text "Unknown"

def checkEmergencyRSSExit : Cut World Unit := do
  let w ← Cut.state
  let package := w.packageType
  hwLogDebug cfg mainFile 45
    (text "Package type: " ++ decimal package ++ text " (" ++ packageName package ++ text ")")
  if package = packageTypeTqfp144 then do
    hwLogDebug cfg mainFile 49 (text "Checking RSS emergency exit")
    if w.button then hwLogFail cfg mainFile 54 (text "Emergency RSS exit...") else pure ()
  else pure ()

/-- Control is now in `BootToL0`, which does not return. -/
def bootToL0 : Cut World Unit := do
  let baseAddr := getL0ImageStart + BitVec.ofNat 32 firmwareImageOffset
  Cut.update fun w => { w with launched := some baseAddr }
  hwLogInfo cfg mainFile 23 (text "Jumping to L0 at address 0x" ++ hexWord baseAddr)
  backupSramDisable cfg
  hang

variable (s : SecretCopies) (locals : SecretLocals)

/-- A message if a call of `main` has failed. -/
def reportFailure (ret : Word) (line : Nat) (t : Text) : Cut World Unit :=
  if ret ≠ 0 then hwLogFail cfg mainFile line t else pure ()

/-- `main` before `DICE_main`; the time of the start. -/
def mainStart : Cut World (BitVec 64) := do
  systemInit
  let start ← getTimeNow
  backupSramEnable cfg
  checkEmergencyRSSExit cfg
  let ret ← hwWatchdogInit cfg
  reportFailure cfg ret 77 (text "HW_Watchdog_Init() failed")
  let ret ← swWatchdogInit cfg
  reportFailure cfg ret 81 (text "SW_Watchdog_Init() failed")
  let _ ← hwRngInit
  pure start

def launchIfSucceeded (ret : Word) : Cut World Unit :=
  if ret = 0 then do
    hwLogDebug cfg mainFile 98 (text "DICE succeeded. Booting L0...")
    bootToL0 cfg
  else pure ()

/-- `main` after `DICE_main`. -/
def mainEnd (start : BitVec 64) (ret : Word) : Cut World Unit := do
  let _ ← hwRngDeInit
  let _ ← swWatchdogEnd cfg
  let now ← getTimeNow
  let elapsed := now - start
  hwLogDebug cfg mainFile 95
    (text "DICE Boot time: " ++ padLeft 9 (decimal (elapsed.setWidth 32)) ++ text "ms")
  launchIfSucceeded cfg ret
  hang

def main (d : DiceCore) : Cut World Unit := do
  let start ← mainStart cfg
  let ret ← diceMainImage cfg s locals d
  mainEnd cfg start ret

end Main

/-! ## What each part leaves alone -/

/-- Besides logging, calls of the HAL that only have a status. -/
structure World.PlatformOnly (w w' : World) : Prop where
  mem : ∀ x, ¬ InLogs x → w'.mem x = w.mem x
  written : ∀ x, ¬ InLogs x → w'.written x = w.written x
  rest : w' = { w with
    mem := w'.mem, written := w'.written, out := w'.out, clock := w'.clock, power := w'.power,
    lastRefresh := w'.lastRefresh, hal := w'.hal }

def platformOnly : Cut.Frame World where
  rel := World.PlatformOnly
  refl _ := ⟨fun _ _ => rfl, fun _ _ => rfl, rfl⟩
  trans {w1 w2 w3} h1 h2 := by
    refine ⟨fun x hx => (h2.mem x hx).trans (h1.mem x hx),
      fun x hx => (h2.written x hx).trans (h1.written x hx), ?_⟩
    rw [h2.rest, h1.rest]

section Frames

variable {cfg : BuildConfig} {s : SecretCopies} {locals : SecretLocals} {α : Type}

theorem World.PlatformOnly.changes {w w' : World} (h : w.PlatformOnly w') : w.Changes InLogs w' :=
  ⟨h.mem, h.written, by rw [h.rest], by rw [h.rest], by rw [h.rest]⟩

theorem platformOnly_of_logOnly {x : Cut World α} (h : Cut.Keeps logOnly x) :
    Cut.Keeps platformOnly x :=
  h.mono fun _ _ hw => ⟨hw.mem, hw.written, by rw [hw.rest]⟩

theorem halStatus_platformOnly : Cut.Keeps platformOnly halStatus :=
  step_keeps fun _ => ⟨fun _ _ => rfl, fun _ _ => rfl, rfl⟩

theorem hwLogAt_platformOnly (level : LogLevel) (file : String) (line : Nat) (t : Text) :
    Cut.Keeps platformOnly (hwLogAt cfg level file line t) :=
  platformOnly_of_logOnly (hwLogAt_logOnly cfg level file line t)

/-- A status decides between two ways on. -/
theorem halStatus_then {x y : Cut World α} (hx : Cut.Keeps platformOnly x)
    (hy : Cut.Keeps platformOnly y) :
    Cut.Keeps platformOnly (halStatus >>= fun ok => if ok then x else y) :=
  halStatus_platformOnly.bind fun _ => Cut.Keeps.ite hx hy

theorem halOrHang_platformOnly : Cut.Keeps platformOnly halOrHang :=
  halStatus_then (Cut.Keeps.pure _) Cut.Keeps.stop

theorem systemInit_platformOnly : Cut.Keeps platformOnly systemInit := by
  have h := halOrHang_platformOnly
  exact Cut.Keeps.bind (h.bind fun _ => h.bind fun _ => h) fun _ =>
    h.bind fun _ => h.bind fun _ => h.bind fun _ => h

theorem bothCalls_platformOnly : Cut.Keeps platformOnly bothCalls :=
  halStatus_then (halStatus_then (Cut.Keeps.pure _) (Cut.Keeps.pure _)) (Cut.Keeps.pure _)

theorem backupSramEnable_platformOnly : Cut.Keeps platformOnly (backupSramEnable cfg) :=
  halStatus_then (Cut.Keeps.pure _) (hwLogAt_platformOnly _ _ _ _)

theorem backupSramDisable_platformOnly : Cut.Keeps platformOnly (backupSramDisable cfg) :=
  halStatus_then (Cut.Keeps.pure _) (hwLogAt_platformOnly _ _ _ _)

theorem checkEmergencyRSSExit_platformOnly : Cut.Keeps platformOnly (checkEmergencyRSSExit cfg) :=
  Cut.Keeps.state_bind fun _ => (hwLogAt_platformOnly _ _ _ _).bind fun _ =>
    Cut.Keeps.ite ((hwLogAt_platformOnly _ _ _ _).bind fun _ =>
      Cut.Keeps.ite (hwLogAt_platformOnly _ _ _ _) (Cut.Keeps.pure _)) (Cut.Keeps.pure _)

theorem reportFailure_platformOnly (ret : Word) (line : Nat) (t : Text) :
    Cut.Keeps platformOnly (reportFailure cfg ret line t) :=
  Cut.Keeps.ite (hwLogAt_platformOnly _ _ _ _) (Cut.Keeps.pure _)

theorem mainStart_platformOnly : Cut.Keeps platformOnly (mainStart cfg) := by
  unfold mainStart
  apply systemInit_platformOnly.bind
  intro _
  apply (platformOnly_of_logOnly getTimeNow_logOnly).bind
  intro start
  apply backupSramEnable_platformOnly.bind
  intro _
  apply checkEmergencyRSSExit_platformOnly.bind
  intro _
  refine Cut.Keeps.bind (Cut.Keeps.ite (halStatus_then (Cut.Keeps.pure _) (Cut.Keeps.pure _))
    (Cut.Keeps.pure _)) fun ret => ?_
  apply (reportFailure_platformOnly ret 77 _).bind
  intro _
  apply Cut.Keeps.bind (Cut.Keeps.ite bothCalls_platformOnly (Cut.Keeps.pure _))
  intro ret
  apply (reportFailure_platformOnly ret 81 _).bind
  intro _
  refine Cut.Keeps.bind (halStatus_then (halStatus_then (Cut.Keeps.pure _) (Cut.Keeps.pure _))
    (Cut.Keeps.pure _)) fun _ => Cut.Keeps.pure _

/-- `BootToL0` only logs, apart from the jump. -/
theorem bootToL0_mem (w : World) :
    Cut.Sat (bootToL0 cfg) w fun _ w' => ∀ x, ¬ InLogs x → w'.mem x = w.mem x := by
  have htail : Cut.Keeps platformOnly (hwLogInfo cfg mainFile 23
      (text "Jumping to L0 at address 0x" ++
        hexWord (getL0ImageStart + BitVec.ofNat 32 firmwareImageOffset)) >>= fun _ =>
      backupSramDisable cfg >>= fun _ => (hang : Cut World Unit)) :=
    (hwLogAt_platformOnly _ _ _ _).bind fun _ =>
      backupSramDisable_platformOnly.bind fun _ => Cut.Keeps.stop
  exact Cut.Sat.update_bind ((htail.sat _).mono fun _ _ h => h.mem)

/-- How `main` goes on after `DICE_main` has returned `ret`. -/
structure MainEnds (ret : Word) (w w' : World) : Prop where
  mem : ∀ x, ¬ InLogs x → w'.mem x = w.mem x
  failed : ret ≠ 0 → w.Changes InLogs w'

theorem World.PlatformOnly.mainEnds {ret : Word} {w w' : World} (h : w.PlatformOnly w') :
    MainEnds ret w w' := ⟨h.mem, fun _ => h.changes⟩

theorem mainEnd_ends (start : BitVec 64) (ret : Word) (w : World) :
    Cut.Sat (mainEnd cfg start ret) w fun _ w' => MainEnds ret w w' := by
  unfold mainEnd
  refine Cut.Sat.bind ((halStatus_then (Cut.Keeps.pure _) (Cut.Keeps.pure _)).sat w)
    (fun _ w1 h1 => ?_) fun w1 h1 => h1.mainEnds
  refine Cut.Sat.bind ((Cut.Keeps.ite bothCalls_platformOnly (Cut.Keeps.pure _)).sat w1)
    (fun _ w2 h2 => ?_) fun w2 h2 => (platformOnly.trans h1 h2).mainEnds
  have h12 := platformOnly.trans h1 h2
  refine Cut.Sat.bind ((platformOnly_of_logOnly getTimeNow_logOnly).sat w2)
    (fun now w3 h3 => ?_) fun w3 h3 => (platformOnly.trans h12 h3).mainEnds
  have h13 := platformOnly.trans h12 h3
  refine Cut.Sat.bind ((hwLogAt_platformOnly .debug _ _ _).sat w3)
    (fun _ w4 h4 => ?_) fun w4 h4 => (platformOnly.trans h13 h4).mainEnds
  have h14 := platformOnly.trans h13 h4
  refine Cut.Sat.bind (P := fun _ w' => MainEnds ret w w') ?_ (fun _ _ h => Cut.Sat.stop h)
    fun _ h => h
  unfold launchIfSucceeded
  refine Cut.Sat.ite (fun hret => ?_) fun _ => Cut.Sat.pure h14.mainEnds
  refine Cut.Sat.bind ((hwLogAt_platformOnly .debug _ _ _).sat w4)
    (fun _ w5 h5 => ?_) fun w5 h5 => (platformOnly.trans h14 h5).mainEnds
  have h15 := platformOnly.trans h14 h5
  exact (bootToL0_mem w5).mono fun _ w6 h6 =>
    ⟨fun x hx => (h6 x hx).trans (h15.mem x hx), fun hne => absurd hret hne⟩

end Frames

/-! ## DICE_main -/

section DiceMain

variable {cfg : BuildConfig} {s : SecretCopies} {locals : SecretLocals} {d : DiceCore}

theorem shared_notFlash {x : Addr} (h : InShared x) : NotFlash x := by
  have h0 : getSharedRamStart = 0x38000000#32 := rfl
  have h1 : getSharedRamSize = 65536 := rfl
  have h2 : getFlashStart = 0x08000000#32 := rfl
  simp only [NotFlash, InFlash, InShared, Within, h0, h1, h2] at *
  bv_omega

/-- Flash is not written, and no image is launched. -/
theorem quiet_of_changes {S : Addr → Prop} {w w' : World} (h : w.Changes S w')
    (hS : ∀ x, S x → NotFlash x) : w.Quiet InFlash w' := h.quiet fun x hx hin => hS x hin hx

theorem DiceAction.run_quiet (action : DiceAction)
    (hflash : ∀ c, action = .compute c → ∀ x, InFlash x → c.footprint x = false) :
    Cut.Keeps (quiet InFlash) (action.run cfg s) := by
  cases action with
  | readUds udsOut =>
    intro w
    obtain ⟨r', w1, hget, hlog, _⟩ := readUds_ends cfg s udsOut w
    have hquiet : w.Quiet InFlash w1 :=
      ⟨fun x hx => hget.scratch.mem x fun hin => scratch_notFlash hin hx,
        fun x hx => hget.scratch.written x fun hin => scratch_notFlash hin hx,
        hget.scratch.launched⟩
    exact hquiet.trans (quiet_of_changes hlog.changes fun _ => inLogs_notFlash)
  | compute c =>
    have hc := hflash c rfl
    refine step_keeps fun w => ⟨fun x hx => c.frame w.mem x (hc x hx), fun x hx => ?_, rfl⟩
    show (w.written x || c.footprint x) = w.written x
    rw [hc x hx, Bool.or_false]

theorem runActions_quiet (actions : List DiceAction)
    (hflash : ∀ c, DiceAction.compute c ∈ actions → ∀ x, InFlash x → c.footprint x = false) :
    Cut.Keeps (quiet InFlash) (runActions cfg s actions) := by
  induction actions with
  | nil => exact Cut.Keeps.pure _
  | cons action actions ih =>
    refine Cut.Keeps.bind (action.run_quiet fun c hc => hflash c (hc ▸ List.mem_cons_self))
      fun _ => ih fun c hc => hflash c (List.mem_cons_of_mem _ hc)

theorem runDICE_quiet (hflash : ∀ x, InFlash x → d.Spares x) :
    Cut.Keeps (quiet InFlash) (runDICE cfg s d) := by
  have hlog : ∀ {level : LogLevel} {file : String} {line : Nat} {t : Text},
      Cut.Keeps (quiet InFlash) (hwLogAt cfg level file line t) := fun {level file line t} =>
    (hwLogAt_logOnly cfg level file line t).mono fun _ _ h =>
      quiet_of_changes h.changes fun _ => inLogs_notFlash
  have hstore : ∀ {k : Nat} {bs : List Byte}, k + bs.length ≤ sharedHalf →
      Cut.Keeps (quiet InFlash) (store (at_ getSharedDiceL0 k) bs) := by
    intro k bs hfit
    have hhalf : sharedHalf = 32768 := rfl
    refine (store_changes (S := InDiceL0) fun x hx => ?_).mono fun _ _ h =>
      quiet_of_changes h fun x hx => shared_notFlash ((inShared_iff x).mpr (Or.inl hx))
    exact within_sub_range hfit (by omega) hx
  have hclean : Cut.Keeps (quiet InFlash) cleanSharedDiceL0 :=
    (storeFill_changes (S := InDiceL0) fun x hx => hx).mono fun _ _ h =>
      quiet_of_changes h fun x hx => shared_notFlash ((inShared_iff x).mpr (Or.inl hx))
  refine hclean.bind fun _ => (hstore (by decide)).bind fun _ => (hstore ?_).bind fun _ => ?_
  · rw [length_bytesOfWord]
    decide
  refine hlog.bind fun _ => Cut.Keeps.bind ?_ fun ret => hlog.bind fun _ => hlog.bind fun _ =>
    Cut.Keeps.pure ret
  exact (runActions_quiet d.actions fun c hc x hx => hflash x hx c hc).bind fun _ =>
    Cut.Keeps.pure _

/-- No image is launched. -/
def launchKept : Cut.Frame World where
  rel w w' := w'.launched = w.launched
  refl _ := rfl
  trans h1 h2 := h2.trans h1

theorem log_launchKept {α : Type} {x : Cut World α} (h : Cut.Keeps logOnly x) :
    Cut.Keeps launchKept x := h.mono fun _ _ hlog => hlog.changes.launched

theorem runActions_launchKept (actions : List DiceAction) :
    Cut.Keeps launchKept (runActions cfg s actions) := by
  induction actions with
  | nil => exact Cut.Keeps.pure _
  | cons action actions ih =>
    have hfirst : Cut.Keeps launchKept (action.run cfg s) := by
      cases action with
      | readUds udsOut =>
        intro w
        obtain ⟨r', w1, hget, hlog, _⟩ := readUds_ends cfg s udsOut w
        exact hlog.changes.launched.trans hget.scratch.launched
      | compute c => exact step_keeps fun _ => rfl
    exact hfirst.bind fun _ => ih

theorem runDICE_launchKept : Cut.Keeps launchKept (runDICE cfg s d) := by
  have hlog : ∀ {level : LogLevel} {file : String} {line : Nat} {t : Text},
      Cut.Keeps launchKept (hwLogAt cfg level file line t) :=
    log_launchKept (hwLogAt_logOnly cfg _ _ _ _)
  have hstore : ∀ (a : Addr) (bs : List Byte), Cut.Keeps launchKept (store a bs) :=
    fun _ _ => step_keeps fun _ => rfl
  have hclean : Cut.Keeps launchKept cleanSharedDiceL0 := step_keeps fun _ => rfl
  have hcore : Cut.Keeps launchKept (diceMain cfg s d) :=
    (runActions_launchKept d.actions).bind fun _ => Cut.Keeps.pure _
  unfold runDICE diceHandleArgsAndDice diceCore
  apply hclean.bind
  intro _
  apply (hstore _ _).bind
  intro _
  apply (hstore _ _).bind
  intro _
  apply hlog.bind
  intro _
  apply hcore.bind
  intro ret
  apply hlog.bind
  intro _
  exact hlog.bind fun _ => Cut.Keeps.pure ret

/-- Both copies hold the same secret. -/
def SecretSet (s : SecretCopies) (m : Memory) : Prop :=
  s.copy1 m = s.copy2 m ∧ s.copy1 m ≠ erasedSecret

theorem Saved.secretSet {u : List Byte} {w : World} (h : Saved s u w) : SecretSet s w.mem :=
  ⟨h.copy1.trans h.copy2.symm, fun hblank => h.valid (h.copy1.symm.trans hblank)⟩

theorem SecretSet.congr {m m' : Memory} (h : SecretSet s m) (hm : ∀ x, s.Mem x → m' x = m x) :
    SecretSet s m' := by
  have hcopy1 : s.copy1 m' = s.copy1 m := SecretCopies.copy1_congr fun x hx => hm x (Or.inl hx)
  have hcopy2 : s.copy2 m' = s.copy2 m := SecretCopies.copy2_congr fun x hx => hm x (Or.inr hx)
  rw [SecretSet, hcopy1, hcopy2]
  exact h

theorem InitEnds.launched {w w' : World} {r : Option Word} (h : InitEnds s w r w') :
    w'.launched = w.launched :=
  h.elim (fun hkept => hkept.quiet.launched) fun ⟨_, hnew⟩ => hnew.quiet.launched

theorem diceMainImage_launchKept : Cut.Keeps launchKept (diceMainImage cfg s locals d) := by
  have hlog : ∀ {level : LogLevel} {file : String} {line : Nat} {t : Text},
      Cut.Keeps launchKept (hwLogAt cfg level file line t) :=
    log_launchKept (hwLogAt_logOnly cfg _ _ _ _)
  have hfail : ∀ {level : LogLevel} {file : String} {line : Nat} {t : Text},
      Cut.Keeps launchKept
        (hwLogAt cfg level file line t >>= fun _ => (pure (-1) : Cut World Word)) :=
    hlog.bind fun _ => Cut.Keeps.pure _
  have hinit : Cut.Keeps launchKept (deviceSecretInitialize cfg s locals) := fun w =>
    InitEnds.launched (deviceSecretInitialize_ends cfg s locals w)
  have hboot : Cut.Keeps launchKept (normalBoot cfg s locals d) := by
    unfold normalBoot
    apply hinit.bind
    intro ret
    apply Cut.Keeps.ite hfail
    exact (log_launchKept watchdogReload_logOnly).bind fun _ => runDICE_launchKept
  have hreason : Cut.Keeps launchKept resetReasonUpdate := step_keeps fun _ => rfl
  unfold diceMainImage
  apply (log_launchKept (hwLogInfoStr_logOnly cfg _)).bind
  intro _
  apply (log_launchKept checkProtections_logOnly).bind
  intro ret
  apply Cut.Keeps.ite hfail
  apply hreason.bind
  intro _
  apply Cut.Keeps.state_bind
  intro w
  apply hlog.bind
  intro _
  exact Cut.Keeps.ite hfail hboot

/-- No image is launched before `main` goes on, and 0 is only returned with a secret in place. -/
def Returned (s : SecretCopies) (w : World) (r : Option Word) (w' : World) : Prop :=
  w'.launched = w.launched ∧ (r = some 0 → SecretSet s w'.mem)

theorem normalBoot_returned (hflash : ∀ x, InFlash x → d.Spares x) (w : World) :
    Cut.Sat (normalBoot cfg s locals d) w (Returned s w) := by
  unfold normalBoot
  refine Cut.Sat.bind (deviceSecretInitialize_ends cfg s locals w)
    (fun ret w1 h1 => Cut.Sat.ite (fun _ => ?_) fun hret => ?_) fun w1 h1 => ⟨h1.launched, nofun⟩
  · exact failed_sat fun r w2 hr h2 =>
      ⟨h2.changes.launched.trans h1.launched, fun h0 => absurd h0 hr⟩
  obtain rfl : ret = 0 := not_not.mp hret
  obtain ⟨u, hu⟩ := h1.saved
  refine Cut.Sat.bind (watchdogReload_logOnly.sat w1) (fun _ w2 h2 => ?_)
    fun w2 h2 => ⟨h2.changes.launched.trans h1.launched, nofun⟩
  refine ((runDICE_quiet hflash).sat w2).mono fun r w3 h3 =>
    ⟨h3.launched.trans (h2.changes.launched.trans h1.launched), fun _ => ?_⟩
  apply hu.secretSet.congr
  intro x hx
  have hx' := SecretCopies.mem_inFlash hx
  exact (h3.mem x hx').trans (h2.mem x fun hlog => inLogs_notFlash hlog hx')

/-- When the checks or the reset flags say no: nothing but the logs is written. -/
def Refused (w : World) (r : Option Word) (w' : World) : Prop := w.Changes InLogs w' ∧ r ≠ some 0

theorem refuse {file : String} {line : Nat} {t : Text} {level : LogLevel} {w w1 : World}
    (h : w.Changes InLogs w1) : Cut.Sat (hwLogAt cfg level file line t >>= fun _ =>
      (pure (-1) : Cut World Word)) w1 (Refused w) :=
  failed_sat fun _ _ hr h2 => ⟨h.trans h2.changes, hr⟩

theorem resetReasonUpdate_sat (w : World) : Cut.Sat resetReasonUpdate w fun r w' =>
    w.Changes InLogs w' ∧ (r = some () → w'.lastResetReason = resetReasonOf w.rsr) :=
  step_sat ⟨(changes _).refl w, nofun⟩
    ⟨⟨fun _ _ => rfl, fun _ _ => rfl, rfl, rfl, rfl⟩, fun _ => rfl⟩

/-- `DICE_main` refuses, or it found the protections set and no watchdog reset and went on to a
normal boot. -/
theorem diceMainImage_sat (s : SecretCopies) (locals : SecretLocals)
    (hignore : cfg.ignoreProtectionChecks = false)
    (hflash : ∀ x, InFlash x → d.Spares x) (w : World) :
    Cut.Sat (diceMainImage cfg s locals d) w fun r w' => Refused w r w' ∨
      (Protected w.optionBytes ∧ ¬ WatchdogReset w.rsr) ∧ Returned s w r w' := by
  unfold diceMainImage
  refine Cut.Sat.bind ((hwLogInfoStr_logOnly cfg _).sat w) (fun _ w1 h1 => ?_)
    fun w1 h1 => Or.inl ⟨h1.changes, nofun⟩
  refine Cut.Sat.bind (checkProtections_sat hignore w1) (fun ret w2 h2 => ?_)
    fun w2 h2 => Or.inl ⟨h1.changes.trans h2.1.changes, nofun⟩
  have h12 := h1.trans h2.1
  refine Cut.Sat.ite (fun _ => (refuse h12.changes).mono fun _ _ => Or.inl) fun hret => ?_
  have hprotected : Protected w.optionBytes := by
    have h := h2.2 (congrArg some (not_not.mp hret))
    rwa [h1.rest] at h
  refine Cut.Sat.bind (resetReasonUpdate_sat w2) (fun _ w3 h3 => ?_)
    fun w3 h3 => Or.inl ⟨h12.changes.trans h3.1, nofun⟩
  have hreason : w3.lastResetReason = resetReasonOf w.rsr := by
    rw [h3.2 rfl, h12.rest]
  have h13 := h12.changes.trans h3.1
  refine Cut.Sat.state_bind ?_
  refine Cut.Sat.bind ((hwLogAt_logOnly cfg .info _ _ _).sat w3) (fun _ w4 h4 => ?_)
    fun w4 h4 => Or.inl ⟨h13.trans h4.changes, nofun⟩
  have h14 := h13.trans h4.changes
  refine Cut.Sat.ite (fun _ => (refuse h14).mono fun _ _ => Or.inl) fun hnormal => ?_
  have hwatchdog : ¬ WatchdogReset w.rsr := fun hw =>
    hnormal (hreason.trans (resetReasonOf_watchdog hw))
  refine (normalBoot_returned hflash w4).mono fun r w5 h5 =>
    Or.inr ⟨⟨hprotected, hwatchdog⟩, ?_, h5.2⟩
  exact h5.1.trans h14.launched

end DiceMain

/-! ## Any sequence of boots -/

/-- What a boot from `w` to `w'`, the end or a cut, has done. -/
structure FailsClosed (s : SecretCopies) (w w' : World) : Prop where
  refused : ¬ Protected w.optionBytes ∨ WatchdogReset w.rsr → w'.launched = none ∧
    ∀ x, s.Mem x ∨ InShared x → w'.written x = false ∧ w'.mem x = w.mem x
  launched : w'.launched ≠ none → SecretSet s w'.mem

theorem main_failsClosed {cfg : BuildConfig} {s : SecretCopies} {locals : SecretLocals}
    {d : DiceCore} {w : World} (hignore : cfg.ignoreProtectionChecks = false)
    (hflash : ∀ x, InFlash x → d.Spares x)
    (hlaunched : w.launched = none) (hwritten : ∀ x, w.written x = false) :
    FailsClosed s w (main cfg s locals d w).2 := by
  have hapart : ∀ x, s.Mem x ∨ InShared x → ¬ InLogs x := fun x hx hlog =>
    hx.elim (fun hs => inLogs_notFlash hlog (SecretCopies.mem_inFlash hs))
      fun hs => shared_not_inLogs hs hlog
  -- a boot that only logs
  have hrefused : ∀ {w' : World}, w.Changes InLogs w' → FailsClosed s w w' := by
    intro w' h
    have hnone : w'.launched = none := h.launched.trans hlaunched
    refine ⟨fun _ => ⟨hnone, fun x hx => ⟨?_, h.mem x (hapart x hx)⟩⟩, fun hne => absurd hnone hne⟩
    rw [h.written x (hapart x hx)]
    exact hwritten x
  have hsat : Cut.Sat (main cfg s locals d) w fun _ w' => FailsClosed s w w' := by
    unfold main
    refine Cut.Sat.bind (mainStart_platformOnly.sat w) (fun start w1 h1 => ?_)
      fun w1 h1 => hrefused h1.changes
    have hregs : w1.optionBytes = w.optionBytes ∧ w1.rsr = w.rsr := by
      rw [h1.rest]
      exact ⟨rfl, rfl⟩
    have hboot := diceMainImage_sat s locals hignore hflash w1
    rw [hregs.1, hregs.2] at hboot
    -- a boot that went on to the secret was not to be refused
    have hallowed : ∀ {w' : World}, Protected w.optionBytes ∧ ¬ WatchdogReset w.rsr →
        (w'.launched ≠ none → SecretSet s w'.mem) → FailsClosed s w w' := fun hok hset =>
      ⟨fun hbad => (hbad.elim (fun h => h hok.1) fun h => hok.2 h).elim, hset⟩
    refine Cut.Sat.bind hboot (fun ret w2 h2 => (mainEnd_ends start ret w2).mono fun _ w3 h3 => ?_)
      fun w2 h2 => ?_
    · rcases h2 with ⟨hchanges, hret⟩ | ⟨hok, hsame, hset⟩
      · have hfailed := h3.failed fun h0 => hret (congrArg some h0)
        exact hrefused ((h1.changes.trans hchanges).trans hfailed)
      · apply hallowed hok
        intro hne
        by_cases hret : ret = 0
        · refine (hset (congrArg some hret)).congr fun x hx => h3.mem x (hapart x (Or.inl hx))
        · have hnone : w3.launched = none :=
            (h3.failed hret).launched.trans (hsame.trans (h1.changes.launched.trans hlaunched))
          exact absurd hnone hne
    · rcases h2 with ⟨hchanges, _⟩ | ⟨hok, hsame, _⟩
      · exact hrefused (h1.changes.trans hchanges)
      · exact hallowed hok fun hne =>
          absurd (hsame.trans (h1.changes.launched.trans hlaunched)) hne
  exact hsat

/-- A device and its boots so far, each from the state at the reset to its end or cut. -/
inductive DeviceHistory (cfg : BuildConfig) (s : SecretCopies) : World → List (World × World) → Prop
  | start (w : World) : DeviceHistory cfg s w []
  | boot {w w1 : World} {boots : List (World × World)} (locals : SecretLocals) (d : DiceCore) :
      DeviceHistory cfg s w boots → w.PowerCycle w1 → (∀ x, InFlash x → d.Spares x) →
      DeviceHistory cfg s (main cfg s locals d w1).2 ((w1, (main cfg s locals d w1).2) :: boots)

/-- Whatever the registers, the memory, the generator and the HAL are, in every boot: with wrong
option bytes or after a watchdog reset L0 is not reached and neither copy of the secret nor the RAM
shared with L0 is written; L0 is only reached with a secret in both copies. -/
theorem dice_fails_closed {cfg : BuildConfig} {s : SecretCopies}
    (hignore : cfg.ignoreProtectionChecks = false) {w : World} {boots : List (World × World)}
    (h : DeviceHistory cfg s w boots) : ∀ b ∈ boots, FailsClosed s b.1 b.2 := by
  induction h with
  | start w => exact fun b hb => absurd hb List.not_mem_nil
  | boot locals d _ hreset hflash ih =>
    exact List.forall_mem_cons.mpr
      ⟨main_failsClosed hignore hflash hreset.launched hreset.written, ih⟩

/-- A core that reads the secret and succeeds. -/
def readingCore : DiceCore where
  actions := [.readUds (DtcmObject.ofRange 0x2001FF40 (by decide))]
  returnCode := 0

/-- The end of the first boot of a blank device. -/
def firstBoot : World := (main plainBuild adjacentCopies adjacentLocals readingCore blankDevice).2

/-- The device after a reset by the watchdog. -/
def watchdogBoot : World :=
  { firstBoot with rsr := 1 <<< 26, power := 1000, written := fun _ => false, launched := none }

/-- A boot that reaches L0, then one that must not. -/
theorem blankDevice_fails_closed : firstBoot.launched = some 0x08020800 ∧
    FailsClosed adjacentCopies blankDevice firstBoot ∧ WatchdogReset watchdogBoot.rsr ∧
    FailsClosed adjacentCopies watchdogBoot
      (main plainBuild adjacentCopies adjacentLocals readingCore watchdogBoot).2 := by
  have hspares : ∀ x, InFlash x → readingCore.Spares x := by
    intro x _ c hc
    rcases List.mem_singleton.mp hc
  have hfirst : DeviceHistory plainBuild adjacentCopies firstBoot [(blankDevice, firstBoot)] :=
    (DeviceHistory.start blankDevice).boot adjacentLocals readingCore
      ⟨fun _ _ => rfl, rfl, rfl, fun _ => rfl, rfl⟩ hspares
  have hsecond : DeviceHistory plainBuild adjacentCopies
      (main plainBuild adjacentCopies adjacentLocals readingCore watchdogBoot).2
      [(watchdogBoot, (main plainBuild adjacentCopies adjacentLocals readingCore watchdogBoot).2),
        (blankDevice, firstBoot)] :=
    hfirst.boot adjacentLocals readingCore ⟨fun _ _ => rfl, rfl, rfl, fun _ => rfl, rfl⟩ hspares
  have hclosed := dice_fails_closed rfl hsecond
  exact ⟨by decide +kernel, hclosed _ (List.mem_cons_of_mem _ List.mem_cons_self),
    Or.inl (by decide), hclosed _ List.mem_cons_self⟩

end VerifiedDice
