import VerifiedDice.L0Boot

/-!
# The L1 image

`L1_main`, its tests and its menu on the Arm port, for a device with a console: the keys that
`UART_Receive` will return and all that is printed. A reset, by a watchdog or by the menu, ends
a run.
-/
namespace VerifiedDice

open ByteMemory

/-! ## The console -/

structure Board where
  world : World
  /-- What the next calls of `UART_Receive` return; without a key an error or a time-out. -/
  keys : Nat → Option Byte
  /-- All that was written to `stdout`. -/
  console : Text

/-- What has been given to `TargetPrintString` on the way from `w` to `w'`. -/
def printedBetween (w w' : World) : Text := (w'.out.drop w.out.length).flatten

/-- `TargetPrintString` writes to `stdout` as well. -/
def onBoard {α : Type} (x : Cut World α) : Cut Board α := fun b =>
  ((x b.world).1, { b with
    world := (x b.world).2
    console := b.console ++ printedBetween b.world (x b.world).2 })

theorem onBoard_world {α : Type} {x : Cut World α} {b b' : Board} {r : Option α}
    (h : onBoard x b = (r, b')) : x b.world = (r, b'.world) := by
  have hworld := congrArg (fun p => p.2.world) h
  exact Prod.ext (congrArg (fun p => p.1) h) hworld

/-- A step that changes nothing in the world. -/
def tick : Cut World Unit := step fun w => ((), w)

/-- `printf`. -/
def printf (t : Text) : Cut Board Unit := do
  onBoard tick
  Cut.update fun b => { b with console := b.console ++ t }

/-- `UART_Flush` and `UART_Receive` for one key. -/
def uartReceive : Cut Board (Option Byte) := do
  onBoard tick
  let b ← Cut.state
  Cut.update fun b => { b with keys := fun n => b.keys (n + 1) }
  pure (b.keys 0)

namespace L1Image

variable (cfg : BuildConfig)

/-! ## tests.c -/

def testsFile : String := "fw/L1_Image/tests.c"

def reportHidden (valueRead : Bool) (line : Nat) : Cut World Unit :=
  if valueRead then hwLogDebug cfg testsFile (line + 22) (text "    PROTECTION NOT SET!")
  else hwLogDebug cfg testsFile (line + 24) (text "    PROTECTION SET!")

/-- `Test_ReadDICEImage` and `Test_ReadKeyManifest`: two loops over 256 bytes. -/
def testReadHidden (name : Text) (address : Addr) (line : Nat) : Cut World Word := do
  hwLogDebug cfg testsFile line name
  hwLogTrace cfg testsFile (line + 8) (text "Reading 256 bytes at 0x" ++ hexWord address)
  let w ← Cut.state
  let valueRead := (List.range 8).any fun i => (List.range 32).any fun j =>
    w.mem (at_ address (32 * i + j)) != 0
  reportHidden cfg valueRead line
  pure 0

def testReadDICEImage : Cut World Word :=
  testReadHidden cfg (text "TEST: Read DICE Image") getDICEImageStart 15

def testReadKeyManifest : Cut World Word :=
  testReadHidden cfg (text "TEST: Read key manifest") getKeyManifestStart 47

/-- Some byte of the half of DICE is not zero. -/
def sharedNonZero (m : Memory) : Bool :=
  (List.range (getSharedL0L1 - getSharedDiceL0).toNat).any fun i =>
    m (at_ getSharedDiceL0 i) != 0

def testReadDICEL0SharedMemory : Cut World Word := do
  hwLogDebug cfg testsFile 79 (text "TEST: Read DICE->L0 shared memory")
  hwLogTrace cfg testsFile 88
    (text "Reading 0x8000 bytes at 0x" ++ hexWord getSharedDiceL0)
  let w ← Cut.state
  if sharedNonZero w.mem then do
    hwLogDebug cfg testsFile 99 (text "    FAIL!")
    pure (-1)
  else do
    hwLogDebug cfg testsFile 102 (text "    SUCCESS!")
    pure 0

/-! ## menu.c -/

def menuFile : String := "fw/L1_Image/arm/menu.c"

/-- Lines of the menu, one call after the other. -/
def logLines (line : Nat) : List Text → Cut World Unit
  | [] => pure ()
  | t :: ts => do
    hwLogDebug cfg menuFile line t
    logLines (line + 1) ts

def printMainMenu : Cut World Unit :=
  logLines cfg 23 [text "Main Menu", text "=========", text " 1: Test Protections",
    text " 2: Print Artifacts (AliasCRT, DeviceIDCSR)"]

def printTests : Cut World Unit :=
  logLines cfg 30 [[], text "Tests Menu", text "==========", text " 1: Software Watchdog",
    text " 2: Hardware Watchdog", text " 3: Corrupt active image", text " 0: Exit", []]

def timeoutHwWatchdogSeconds : Nat := 8

/-- Seconds of waiting, each followed by a reload. -/
def waitAndReload (reload : Cut World Unit) : Nat → Cut World Unit
  | 0 => pure ()
  | timeout + 1 => do
    tick
    reload
    waitAndReload reload timeout

/-- Both tests of a watchdog reload the other one and wait for the reset. -/
def testWatchdog (name rule : Text) (timeout line : Nat) (reload : Cut World Unit) :
    Cut World Unit := do
  logLines cfg line [name, rule, [], text "Waiting for " ++ text (toString timeout) ++
    text " seconds. The board should reboot."]
  waitAndReload reload timeout
  logLines cfg (line + 12) [text "    FAIL!", []]

def testWatchdogSW : Cut World Unit :=
  testWatchdog cfg (text "Test: Software Watchdog") (text "-----------------------")
    (timeoutHwWatchdogSeconds - 1) 44 tick

def testWatchdogHW : Cut World Unit :=
  testWatchdog cfg (text "Test: Hardware Watchdog") (text "-----------------------")
    (timeoutHwWatchdogSeconds + 1) 63 (swWatchdogReload cfg)

def corruptLength : Nat := 128

/-- Where `Test_CorruptActiveImage` writes. -/
def corruptAddress : Addr := getL0ImageStart + BitVec.ofNat 32 firmwareImageOffset

/-- The local `buffer` of `Test_CorruptActiveImage`. -/
abbrev CorruptBuffer := DtcmObject corruptLength

def reportWrite (ret : Word) : Cut World Unit :=
  if ret ≠ 0 then logLines cfg 92 [text "Failed to write to flash!", text "    FAIL!"] else pure ()

def testCorruptActiveImage (buffer : CorruptBuffer) : Cut World Unit := do
  storeFill buffer.addr corruptLength 0
  logLines cfg 86 [text "Test: Corrupt Active Image", text "--------------------------", []]
  let ret ← flashWrite cfg corruptAddress buffer.addr (BitVec.ofNat 32 corruptLength)
  reportWrite cfg ret
  logLines cfg 96 [text "Next reboot should trigger a boot of the recovery image.", []]
  -- `NVIC_SystemReset`
  hang

def keyExit : Byte := 0x30
def key1 : Byte := 0x31
def key2 : Byte := 0x32
def key3 : Byte := 0x33

variable (buffer : CorruptBuffer)

/-- The cases of `RunTests` that do not leave it. -/
def runTest (key : Byte) : Cut World Unit :=
  if key = key1 then testWatchdogSW cfg
  else if key = key2 then testWatchdogHW cfg
  else if key = key3 then testCorruptActiveImage cfg buffer
  else pure ()

/-- The loop of `RunTests`; every round takes a step. -/
def runTestsLoop : Nat → Cut Board Unit
  | 0 => Cut.stop
  | rounds + 1 => do
    onBoard (watchdogReload cfg)
    let key ← uartReceive
    match key with
    | none => runTestsLoop rounds
    | some key =>
      if key = keyExit then pure ()
      else do
        onBoard (runTest cfg buffer key)
        onBoard (printTests cfg)
        runTestsLoop rounds

def runTests : Cut Board Unit := do
  onBoard (printTests cfg)
  let b ← Cut.state
  runTestsLoop cfg buffer (b.world.power + 1)

/-- `n` bytes from `a` in hexadecimal digits. -/
def printHex (a : Addr) : Nat → Cut Board Unit
  | 0 => pure ()
  | n + 1 => do
    let b ← Cut.state
    printf (hexByte (b.world.mem a))
    printHex (at_ a 1) n

/-- A line of text, then a certificate as long as the word behind it says. -/
def printArtifact (line : Nat) (t : Text) (cert len : Nat) : Cut Board Unit := do
  onBoard (hwLogDebug cfg menuFile line t)
  let b ← Cut.state
  printHex (at_ getSharedL0L1 cert) (loadWord b.world.mem (at_ getSharedL0L1 len)).toNat

def printArtifacts : Cut Board Unit := do
  printArtifact cfg 139 (text "AliasKey CRT in DER format (hex)") L1Params.aliasKeyCert
    L1Params.aliasKeyCertLen
  printArtifact cfg 144 (text "\nDeviceID CSR in DER format (hex)") L1Params.deviceIDCsr
    L1Params.deviceIDCsrLen

/-- What a key does in the main menu. -/
def menuAction (key : Byte) : Cut Board Unit :=
  if key = key1 then runTests cfg buffer
  else if key = key2 then printArtifacts cfg
  else onBoard (hwLogDebug cfg menuFile 190 (text "Invalid Number !"))

def menuKey (key : Byte) : Cut Board Unit := do
  menuAction cfg buffer key
  onBoard (printMainMenu cfg)

/-- The body of the loop of `L1_Menu`. -/
def menuRound : Cut Board Unit := do
  onBoard (watchdogReload cfg)
  let key ← uartReceive
  match key with
  | none => pure ()
  | some key => menuKey cfg buffer key

def menuLoop : Nat → Cut Board Unit
  | 0 => Cut.stop
  | rounds + 1 => do
    menuRound cfg buffer
    menuLoop rounds

def logPackage (package : Word) : Cut World Unit :=
  hwLogDebug cfg menuFile 162
    (text "Package type: " ++ decimal package ++ text " (" ++ packageName package ++ text ")")

def l1Menu : Cut Board Unit := do
  let b ← Cut.state
  let package := b.world.packageType
  onBoard (logPackage cfg package)
  if package ≠ packageTypeTqfp144 then pure ()
  else do
    onBoard (printMainMenu cfg)
    let b ← Cut.state
    menuLoop cfg buffer (b.world.power + 1)

/-! ## l1_main.c and main.c -/

def l1MainFile : String := "fw/L1_Image/l1_main.c"

def mainFile : String := "fw/L1_Image/arm/main.c"

def l1Banner : Text :=
  text "\n+----------+\n| L1 Image |\n+----------+\n\nCopyright (c) 2020 Microsoft\n" ++
    text "Copyright (c) 2017-2019 STMicroelectronics\n\nBuild time: " ++ cfg.timestampString ++
    text "\nCommit: " ++ cfg.gitCommitDescription ++ text "\n"

/-- `L1_main` up to the menu; whether a test has failed. -/
def l1Tests : Cut World Word := do
  watchdogReload cfg
  hwLogInfoStr cfg (l1Banner cfg)
  hwLogAt cfg .secret l1MainFile 31 (text "HW Measurement")
  let w ← Cut.state
  hwLogSecretHex cfg l1MainFile 33
    (bytesAt w.mem (at_ getSharedL0L1 L1Params.hwMeasurement) hwMeasurementLen)
  let dice ← testReadDICEImage cfg
  let manifest ← testReadKeyManifest cfg
  let shared ← testReadDICEL0SharedMemory cfg
  let testFailed := dice ||| manifest ||| shared
  reportTests testFailed
  pure testFailed
where
  reportTests (testFailed : Word) : Cut World Unit :=
    if testFailed ≠ 0 then do
      hwLogFail cfg l1MainFile 44 (text "Some of the automated tests have failed!")
      hwLogFail cfg l1MainFile 45 []
    else pure ()

def l1Main : Cut Board Word := do
  let testFailed ← onBoard (l1Tests cfg)
  l1Menu cfg buffer
  pure (if testFailed ≠ 0 then -1 else 0)

def leave (start : BitVec 64) : Cut World Unit := do
  let _ ← hwRngDeInit
  let _ ← swWatchdogEnd cfg
  let now ← getTimeNow
  let elapsed := now - start
  hwLogDebug cfg mainFile 36
    (text "L1 Boot time: " ++ padLeft 9 (decimal (elapsed.setWidth 32)) ++ text "ms")

def main : Cut Board Unit := do
  let start ← onBoard (imageStart cfg mainFile 22)
  let _ ← l1Main cfg buffer
  onBoard (leave cfg start)
  Cut.stop

/-! ## What is left alone -/

section LogOnly

variable {cfg : BuildConfig}

theorem tick_logOnly : Cut.Keeps logOnly tick :=
  step_keeps fun _ => ⟨fun _ _ => rfl, fun _ _ => rfl, rfl⟩

theorem logLines_logOnly (line : Nat) (ts : List Text) :
    Cut.Keeps logOnly (logLines cfg line ts) := by
  induction ts generalizing line with
  | nil => exact Cut.Keeps.pure _
  | cons t ts ih => exact (hwLogAt_logOnly cfg .debug menuFile line t).bind fun _ => ih (line + 1)

theorem waitAndReload_logOnly {reload : Cut World Unit} (h : Cut.Keeps logOnly reload)
    (timeout : Nat) : Cut.Keeps logOnly (waitAndReload reload timeout) := by
  induction timeout with
  | zero => exact Cut.Keeps.pure _
  | succ timeout ih => exact tick_logOnly.bind fun _ => h.bind fun _ => ih

theorem testWatchdog_logOnly {reload : Cut World Unit} (h : Cut.Keeps logOnly reload)
    (name rule : Text) (timeout line : Nat) :
    Cut.Keeps logOnly (testWatchdog cfg name rule timeout line reload) :=
  (logLines_logOnly _ _).bind fun _ => (waitAndReload_logOnly h timeout).bind fun _ =>
    logLines_logOnly _ _

theorem testReadHidden_logOnly (name : Text) (address : Addr) (line : Nat) :
    Cut.Keeps logOnly (testReadHidden cfg name address line) := by
  have hlog : ∀ (level : LogLevel) (line : Nat) (t : Text),
      Cut.Keeps logOnly (hwLogAt cfg level testsFile line t) := fun _ _ _ =>
    hwLogAt_logOnly cfg _ _ _ _
  exact (hlog .debug _ _).bind fun _ => (hlog .trace _ _).bind fun _ => Cut.Keeps.state_bind
    fun _ => Cut.Keeps.bind (Cut.Keeps.ite (hlog _ _ _) (hlog _ _ _)) fun _ => Cut.Keeps.pure _

theorem testReadDICEL0SharedMemory_logOnly :
    Cut.Keeps logOnly (testReadDICEL0SharedMemory cfg) := by
  have hlog : ∀ (level : LogLevel) (line : Nat) (t : Text),
      Cut.Keeps logOnly (hwLogAt cfg level testsFile line t) := fun _ _ _ =>
    hwLogAt_logOnly cfg _ _ _ _
  have hend : ∀ (line : Nat) (t : Text) (v : Word), Cut.Keeps logOnly
      (hwLogAt cfg .debug testsFile line t >>= fun _ => (pure v : Cut World Word)) :=
    fun _ _ _ => (hlog _ _ _).bind fun _ => Cut.Keeps.pure _
  exact (hlog .debug _ _).bind fun _ => (hlog .trace _ _).bind fun _ => Cut.Keeps.state_bind
    fun _ => Cut.Keeps.ite (hend _ _ _) (hend _ _ _)

theorem reportTests_logOnly (testFailed : Word) :
    Cut.Keeps logOnly (l1Tests.reportTests cfg testFailed) :=
  Cut.Keeps.ite ((hwLogAt_logOnly _ _ _ _ _).bind fun _ => hwLogAt_logOnly _ _ _ _ _)
    (Cut.Keeps.pure _)

theorem l1Tests_logOnly : Cut.Keeps logOnly (l1Tests cfg) := by
  apply watchdogReload_logOnly.bind
  intro _
  apply (hwLogInfoStr_logOnly cfg _).bind
  intro _
  apply (hwLogAt_logOnly cfg .secret _ _ _).bind
  intro _
  apply Cut.Keeps.state_bind
  intro w
  apply (hwLogSecretHex_logOnly cfg _ _ _).bind
  intro _
  apply (testReadHidden_logOnly _ _ _).bind
  intro _
  apply (testReadHidden_logOnly _ _ _).bind
  intro _
  apply testReadDICEL0SharedMemory_logOnly.bind
  intro _
  exact (reportTests_logOnly _).bind fun _ => Cut.Keeps.pure _

end LogOnly

end L1Image

end VerifiedDice
