import VerifiedDice.HexDump
import VerifiedDice.L1Image

/-!
# Sessions with the menu of L1

What any sequence of keys may change, and that the certificates are printed as L0 left them,
however long the menu has been in use.
-/
namespace VerifiedDice.L1Image

open ByteMemory

/-! ## What the menu may write -/

/-- The logs, the buffer of `Test_CorruptActiveImage` and what that overwrites. -/
def MenuWrites (buffer : CorruptBuffer) (x : Addr) : Prop :=
  InLogs x ∨ Within buffer.addr corruptLength x ∨ Within corruptAddress corruptLength x

/-- Only that memory has changed, and the console has only grown. -/
structure MenuOnly (buffer : CorruptBuffer) (b b' : Board) : Prop where
  mem : ∀ x, ¬ MenuWrites buffer x → b'.world.mem x = b.world.mem x
  console : b.console <+: b'.console

def menuOnly (buffer : CorruptBuffer) : Cut.Frame Board where
  rel := MenuOnly buffer
  refl _ := ⟨fun _ _ => rfl, List.prefix_refl _⟩
  trans h1 h2 := ⟨fun x hx => (h2.mem x hx).trans (h1.mem x hx), h1.console.trans h2.console⟩

theorem MenuOnly.trans {buffer : CorruptBuffer} {b1 b2 b3 : Board} (h1 : MenuOnly buffer b1 b2)
    (h2 : MenuOnly buffer b2 b3) : MenuOnly buffer b1 b3 := (menuOnly buffer).trans h1 h2

section Frame

variable {cfg : BuildConfig} {buffer : CorruptBuffer} {α : Type}

theorem onBoard_menuOnly {x : Cut World α}
    (h : Cut.Keeps (changes (MenuWrites buffer)) x) : Cut.Keeps (menuOnly buffer) (onBoard x) :=
  fun b => ⟨(h b.world).mem, List.prefix_append _ _⟩

theorem log_menuWrites {x : Cut World α} (h : Cut.Keeps logOnly x) :
    Cut.Keeps (changes (MenuWrites buffer)) x :=
  h.mono fun _ _ hlog => hlog.changes.mono fun _ => Or.inl

theorem onBoard_log {x : Cut World α} (h : Cut.Keeps logOnly x) :
    Cut.Keeps (menuOnly buffer) (onBoard x) := onBoard_menuOnly (log_menuWrites h)

theorem testCorruptActiveImage_changes :
    Cut.Keeps (changes (MenuWrites buffer)) (testCorruptActiveImage cfg buffer) := by
  have hlines : ∀ (line : Nat) (ts : List Text),
      Cut.Keeps (changes (MenuWrites buffer)) (logLines cfg line ts) := fun line ts =>
    log_menuWrites (logLines_logOnly line ts)
  have hfill : Cut.Keeps (changes (MenuWrites buffer)) (storeFill buffer.addr corruptLength 0) :=
    storeFill_changes fun x hx => Or.inr (Or.inl hx)
  have hwrite : Cut.Keeps (changes (MenuWrites buffer))
      (flashWrite cfg corruptAddress buffer.addr (BitVec.ofNat 32 corruptLength)) :=
    flashWrite_changes cfg buffer.addr fun x hx => Or.inr (Or.inr hx)
  have hreport : ∀ ret : Word, Cut.Keeps (changes (MenuWrites buffer)) (reportWrite cfg ret) :=
    fun _ => Cut.Keeps.ite (hlines _ _) (Cut.Keeps.pure _)
  unfold testCorruptActiveImage
  apply hfill.bind
  intro _
  apply (hlines _ _).bind
  intro _
  apply hwrite.bind
  intro ret
  apply (hreport ret).bind
  intro _
  exact (hlines _ _).bind fun _ => Cut.Keeps.stop

theorem runTest_changes (key : Byte) :
    Cut.Keeps (changes (MenuWrites buffer)) (runTest cfg buffer key) := by
  have hreload : Cut.Keeps logOnly (swWatchdogReload cfg) := watchdogReload_logOnly
  unfold runTest
  apply Cut.Keeps.ite (log_menuWrites (testWatchdog_logOnly tick_logOnly _ _ _ _))
  apply Cut.Keeps.ite (log_menuWrites (testWatchdog_logOnly hreload _ _ _ _))
  exact Cut.Keeps.ite testCorruptActiveImage_changes (Cut.Keeps.pure _)

theorem uartReceive_menuOnly : Cut.Keeps (menuOnly buffer) uartReceive := by
  have hkey : Cut.Keeps (menuOnly buffer)
      (Cut.update fun b : Board => { b with keys := fun n => b.keys (n + 1) }) :=
    fun _ => ⟨fun _ _ => rfl, List.prefix_refl _⟩
  unfold uartReceive
  apply (onBoard_log tick_logOnly).bind
  intro _
  apply Cut.Keeps.state_bind
  intro _
  exact hkey.bind fun _ => Cut.Keeps.pure _

theorem printf_menuOnly (t : Text) : Cut.Keeps (menuOnly buffer) (printf t) :=
  (onBoard_log tick_logOnly).bind fun _ _ => ⟨fun _ _ => rfl, List.prefix_append _ _⟩

theorem runTestsLoop_menuOnly (rounds : Nat) :
    Cut.Keeps (menuOnly buffer) (runTestsLoop cfg buffer rounds) := by
  induction rounds with
  | zero => exact Cut.Keeps.stop
  | succ rounds ih =>
    apply (onBoard_log watchdogReload_logOnly).bind
    intro _
    apply uartReceive_menuOnly.bind
    intro key
    cases key with
    | none => exact ih
    | some key =>
      apply Cut.Keeps.ite (Cut.Keeps.pure _)
      apply (onBoard_menuOnly (runTest_changes key)).bind
      intro _
      exact (onBoard_log (logLines_logOnly _ _)).bind fun _ => ih

theorem printHex_menuOnly (a : Addr) (n : Nat) : Cut.Keeps (menuOnly buffer) (printHex a n) := by
  induction n generalizing a with
  | zero => exact Cut.Keeps.pure _
  | succ n ih =>
    apply Cut.Keeps.state_bind
    intro b
    exact (printf_menuOnly _).bind fun _ => ih _

theorem printArtifact_menuOnly (line : Nat) (t : Text) (cert len : Nat) :
    Cut.Keeps (menuOnly buffer) (printArtifact cfg line t cert len) := by
  unfold printArtifact
  apply (onBoard_log (hwLogAt_logOnly cfg .debug menuFile line t)).bind
  intro _
  apply Cut.Keeps.state_bind
  intro b
  exact printHex_menuOnly _ _

theorem menuRound_menuOnly : Cut.Keeps (menuOnly buffer) (menuRound cfg buffer) := by
  apply (onBoard_log watchdogReload_logOnly).bind
  intro _
  apply uartReceive_menuOnly.bind
  intro key
  cases key with
  | none => exact Cut.Keeps.pure _
  | some key =>
    have htests : Cut.Keeps (menuOnly buffer) (runTests cfg buffer) := by
      apply (onBoard_log (logLines_logOnly _ _)).bind
      intro _
      exact Cut.Keeps.state_bind fun _ => runTestsLoop_menuOnly _
    have hartifacts : Cut.Keeps (menuOnly buffer) (printArtifacts cfg) :=
      (printArtifact_menuOnly _ _ _ _).bind fun _ => printArtifact_menuOnly _ _ _ _
    have hinvalid : Cut.Keeps (menuOnly buffer)
        (onBoard (hwLogDebug cfg menuFile 190 (text "Invalid Number !"))) :=
      onBoard_log (hwLogAt_logOnly _ _ _ _ _)
    have haction : Cut.Keeps (menuOnly buffer) (menuAction cfg buffer key) :=
      Cut.Keeps.ite htests (Cut.Keeps.ite hartifacts hinvalid)
    exact haction.bind fun _ => onBoard_log (logLines_logOnly _ _)

end Frame

/-! ## Sessions -/

/-- Where the loop of `L1_Menu` starts a round, in a run of `main` from `b0`. -/
inductive AtMenu (cfg : BuildConfig) (buffer : CorruptBuffer) (b0 : Board) : Board → Prop
  | enter {start : BitVec 64} {v : Word} {b1 b2 b3 b4 : Board}
      (hstart : onBoard (imageStart cfg mainFile 22) b0 = (some start, b1))
      (htests : onBoard (l1Tests cfg) b1 = (some v, b2))
      (hpackage : onBoard (logPackage cfg b2.world.packageType) b2 = (some (), b3))
      (hnucleo : b2.world.packageType = packageTypeTqfp144)
      (hmenu : onBoard (printMainMenu cfg) b3 = (some (), b4)) : AtMenu cfg buffer b0 b4
  | round {b b' : Board} (h : AtMenu cfg buffer b0 b)
      (hround : menuRound cfg buffer b = (some (), b')) : AtMenu cfg buffer b0 b'

section Session

variable {cfg : BuildConfig} {buffer : CorruptBuffer}

/-- What the board started with is still there, but for what the menu may write. -/
theorem AtMenu.menuOnly {b0 b : Board} (h : AtMenu cfg buffer b0 b) : MenuOnly buffer b0 b := by
  have hafter : ∀ {α : Type} {x : Cut Board α} {b b' : Board} {r : Option α},
      Cut.Keeps (L1Image.menuOnly buffer) x → x b = (r, b') → MenuOnly buffer b b' :=
    fun hx hrun => (hx.sat _).elim hrun
  induction h with
  | enter hstart htests hpackage _ hmenu =>
    have hplatform : Cut.Keeps (changes (MenuWrites buffer)) (imageStart cfg mainFile 22) :=
      (imageStart_platformOnly mainFile 22).mono fun _ _ h => h.changes.mono fun _ => Or.inl
    have h1 := hafter (onBoard_menuOnly hplatform) hstart
    have h2 := hafter (onBoard_log l1Tests_logOnly) htests
    have h3 := hafter (onBoard_log (hwLogAt_logOnly _ _ _ _ _)) hpackage
    have h4 := hafter (onBoard_log (logLines_logOnly _ _)) hmenu
    exact (h1.trans h2).trans (h3.trans h4)
  | round _ hround ih =>
    exact ih.trans (hafter menuRound_menuOnly hround)

/-- However the loop ends, it ends in a round that began at a reached board. -/
theorem menuLoop_atMenu {b0 : Board} (rounds : Nat) {b : Board} (h : AtMenu cfg buffer b0 b) :
    ∃ b', AtMenu cfg buffer b0 b' ∧ ((menuLoop cfg buffer rounds b).2 = b' ∨
      (menuRound cfg buffer b').2 = (menuLoop cfg buffer rounds b).2) := by
  induction rounds generalizing b with
  | zero => exact ⟨b, h, Or.inl rfl⟩
  | succ rounds ih =>
    rcases hround : menuRound cfg buffer b with ⟨_ | ⟨⟩, b1⟩
    · refine ⟨b, h, Or.inr ?_⟩
      rw [menuLoop, Cut.bind_none hround, hround]
    · rw [menuLoop, Cut.bind_some hround]
      exact ih (h.round hround)

end Session

/-! ## Reaching the menu -/

section Reaching

variable {cfg : BuildConfig} {buffer : CorruptBuffer}

theorem logLines_runs (cfg : BuildConfig) (line : Nat) (ts : List Text) :
    Runs (3 * ts.length) (logLines cfg line ts) := by
  induction ts generalizing line with
  | nil => exact Runs.pure ()
  | cons t ts ih =>
    apply ((hwLogAt_runs cfg .debug menuFile line t).bind fun _ => ih (line + 1)).mono
    rw [List.length_cons]
    omega

theorem hwLogSecretHex_runs (file : String) (line : Nat) (data : List Byte) :
    Runs 4 (hwLogSecretHex cfg file line data) := by
  have hnothing : Runs 4 (pure () : Cut World Unit) := (Runs.pure ()).mono (Nat.zero_le 4)
  have hline : ∀ str : Text, Runs 4 (hwLog .secret (cfg.sourceRoot ++ text file) line str) := by
    intro str
    apply Runs.state_bind
    intro w
    apply Runs.ite hnothing
    apply getLogTime_runs.bind (k := 3)
    intro time
    apply (targetPrintString_runs _).bind (k := 2)
    intro _
    exact (targetPrintString_runs _).bind fun _ => targetPrintString_runs _
  exact Runs.ite (hline _) hnothing

theorem testReadHidden_runs (name : Text) (address : Addr) (line : Nat) :
    Runs 9 (testReadHidden cfg name address line) := by
  have hreport : ∀ valueRead : Bool, Runs 3 (reportHidden cfg valueRead line) := fun _ =>
    Runs.ite (hwLogAt_runs _ _ _ _ _) (hwLogAt_runs _ _ _ _ _)
  unfold testReadHidden
  apply (hwLogAt_runs cfg .debug testsFile _ _).bind (k := 6)
  intro _
  apply (hwLogAt_runs cfg .trace testsFile _ _).bind (k := 3)
  intro _
  apply Runs.state_bind
  intro w
  exact (hreport _).bind fun _ => Runs.pure _

theorem testReadDICEL0SharedMemory_runs : Runs 9 (testReadDICEL0SharedMemory cfg) := by
  have hend : ∀ (line : Nat) (t : Text) (v : Word), Runs 3
      (hwLogAt cfg .debug testsFile line t >>= fun _ => (pure v : Cut World Word)) :=
    fun _ _ _ => (hwLogAt_runs _ _ _ _ _).bind fun _ => Runs.pure _
  unfold testReadDICEL0SharedMemory
  apply (hwLogAt_runs cfg .debug testsFile _ _).bind (k := 6)
  intro _
  apply (hwLogAt_runs cfg .trace testsFile _ _).bind (k := 3)
  intro _
  apply Runs.state_bind
  intro w
  exact Runs.ite (hend _ _ _) (hend _ _ _)

/-- Forty-three steps are enough for the tests of `L1_main`. -/
theorem l1Tests_runs : Runs 43 (l1Tests cfg) := by
  have hbanner : Runs 2 (hwLogInfoStr cfg (l1Banner cfg)) :=
    Runs.ite (hwLogStr_runs _ _) ((Runs.pure ()).mono (Nat.zero_le _))
  have hreport : ∀ v : Word, Runs 6 (l1Tests.reportTests cfg v) := fun _ =>
    Runs.ite ((hwLogAt_runs _ _ _ _ _).bind fun _ => hwLogAt_runs _ _ _ _ _)
      ((Runs.pure ()).mono (Nat.zero_le _))
  unfold l1Tests
  apply (watchdogReload_runs cfg).bind (k := 42)
  intro _
  apply hbanner.bind (k := 40)
  intro _
  apply (hwLogAt_runs cfg .secret l1MainFile _ _).bind (k := 37)
  intro _
  apply Runs.state_bind
  intro w
  apply (hwLogSecretHex_runs l1MainFile _ _).bind (k := 33)
  intro _
  apply (testReadHidden_runs _ _ _).bind (k := 24)
  intro dice
  apply (testReadHidden_runs _ _ _).bind (k := 15)
  intro manifest
  apply testReadDICEL0SharedMemory_runs.bind (k := 6)
  intro shared
  exact (hreport _).bind fun _ => Runs.pure _

/-- A part of L1 on its board. -/
theorem onBoard_runs {α : Type} {x : Cut World α} {n : Nat} (h : Runs n x) {b : Board}
    (hpower : n ≤ b.world.power) :
    ∃ a b', onBoard x b = (some a, b') ∧ b.world.power ≤ b'.world.power + n := by
  obtain ⟨a, w', hrun, hleft⟩ := h b.world hpower
  refine ⟨a, { b with world := w', console := b.console ++ printedBetween b.world w' }, ?_, hleft⟩
  rw [onBoard, hrun]

/-- An L1 on a Nucleo board that starts gets to its menu. -/
theorem menu_reached {b0 : Board} {start : BitVec 64}
    (hstarts : (onBoard (imageStart cfg mainFile 22) b0).1 = some start)
    (hnucleo : b0.world.packageType = packageTypeTqfp144) {power : Nat}
    (hpower : power + 58 ≤ (onBoard (imageStart cfg mainFile 22) b0).2.world.power) :
    ∃ b, AtMenu cfg buffer b0 b ∧ power ≤ b.world.power := by
  obtain ⟨b1, hstart⟩ : ∃ b1, onBoard (imageStart cfg mainFile 22) b0 = (some start, b1) :=
    ⟨_, Prod.ext hstarts rfl⟩
  rw [hstart] at hpower
  have hpower1 : power + 58 ≤ b1.world.power := hpower
  have hsteps : Runs 43 (l1Tests cfg) := l1Tests_runs
  obtain ⟨v, b2, htests, hleft2⟩ := onBoard_runs hsteps (b := b1) (by omega)
  obtain ⟨_, b3, hpackage, hleft3⟩ := onBoard_runs
    (hwLogAt_runs cfg .debug menuFile 162 (text "Package type: " ++ decimal b2.world.packageType ++
      text " (" ++ packageName b2.world.packageType ++ text ")")) (b := b2) (by omega)
  have hmain : Runs 12 (printMainMenu cfg) := by
    unfold printMainMenu
    exact (logLines_runs cfg 23 _).mono (Nat.le_refl 12)
  obtain ⟨_, b4, hmenu, hleft4⟩ := onBoard_runs hmain (b := b3) (by omega)
  have hplatform :=
    (imageStart_platformOnly mainFile 22).sat b0.world |>.elim (onBoard_world hstart)
  have hlogs := l1Tests_logOnly.sat b1.world |>.elim (onBoard_world htests)
  have hsame : b2.world.packageType = b0.world.packageType := by
    rw [hlogs.rest, hplatform.rest]
  exact ⟨b4, AtMenu.enter hstart htests hpackage (hsame.trans hnucleo) hmenu, by omega⟩

end Reaching

/-! ## Printing -/

section Printing

theorem onBoard_run {α : Type} {x : Cut World α} {b : Board} {r : Option α} {w : World}
    (h : x b.world = (r, w)) : onBoard x b = (r, { b with
      world := w
      console := b.console ++ printedBetween b.world w }) := by
  rw [onBoard, h]

theorem onBoard_console {α : Type} {x : Cut World α} {b b' : Board} {r : Option α}
    (h : onBoard x b = (r, b')) : b'.console = b.console ++ printedBetween b.world b'.world := by
  cases h
  rfl

theorem printedBetween_self (w w' : World) (h : w'.out = w.out) : printedBetween w w' = [] := by
  rw [printedBetween, h, List.drop_length]
  rfl

/-- What the board is after `printf`. -/
def afterPrintf (b : Board) (t : Text) : Board :=
  { b with world := b.world.spend, console := b.console ++ t }

theorem printf_run {b : Board} (t : Text) (h : 0 < b.world.power) :
    printf t b = (some (), afterPrintf b t) := by
  have htick : onBoard tick b = (some (), { b with world := b.world.spend }) := by
    have hstep : tick b.world = (some (), b.world.spend) := step_run h
    have hsame : printedBetween b.world b.world.spend = [] := printedBetween_self _ _ rfl
    unfold onBoard
    rw [hstep]
    simp only [hsame, List.append_nil]
  rw [printf, Cut.bind_some htick]
  rfl

theorem printf_stopped {b : Board} (t : Text) (h : b.world.power = 0) :
    ∃ b', printf t b = (none, b') := by
  have hstep : tick b.world = (none, b.world) := if_pos h
  have hfirst : (onBoard tick b).1 = none := congrArg (fun p => p.1) hstep
  have htick : onBoard tick b = (none, (onBoard tick b).2) := Prod.ext hfirst rfl
  exact ⟨_, Cut.bind_none htick⟩

/-- The hexadecimal digits of some bytes. -/
def hexText (bs : List Byte) : Text := bs.flatMap hexByte

/-- The world after some steps that only take power. -/
def afterSteps (w : World) (n : Nat) : World := { w with power := w.power - n }

/-- With power for it all bytes are printed, without it not all. -/
theorem printHex_run (a : Addr) (n : Nat) (b : Board) : (n ≤ b.world.power →
      printHex a n b = (some (), { b with
        world := afterSteps b.world n
        console := b.console ++ hexText (bytesAt b.world.mem a n) })) ∧
    (b.world.power < n → ∃ b', printHex a n b = (none, b')) := by
  induction n generalizing a b with
  | zero =>
    constructor
    · intro _
      show (some (), b) = _
      simp [hexText, afterSteps, bytesAt]
    · exact fun h => absurd h (Nat.not_lt_zero _)
  | succ n ih =>
    have hunfold : printHex a (n + 1) b =
        (printf (hexByte (b.world.mem a)) >>= fun _ => printHex (at_ a 1) n) b := rfl
    by_cases hpower : b.world.power = 0
    · constructor
      · intro h
        omega
      · intro _
        obtain ⟨b', hstopped⟩ := printf_stopped (hexByte (b.world.mem a)) hpower
        exact ⟨b', hunfold.trans (Cut.bind_none hstopped)⟩
    · have hprint := printf_run (b := b) (hexByte (b.world.mem a)) (by omega)
      have hih := ih (at_ a 1) (afterPrintf b (hexByte (b.world.mem a)))
      have hleft : (afterPrintf b (hexByte (b.world.mem a))).world.power = b.world.power - 1 := rfl
      have hmem : (afterPrintf b (hexByte (b.world.mem a))).world.mem = b.world.mem := rfl
      rw [hunfold, Cut.bind_some hprint]
      rw [hleft, hmem] at hih
      constructor
      · intro h
        rw [hih.1 (by omega), bytesAt_cons]
        simp [afterPrintf, afterSteps, World.spend, hexText, Nat.sub_sub, Nat.add_comm]
      · intro h
        exact hih.2 (by omega)

/-- What a message of the menu prints when the clock says `now`. -/
def menuLine (cfg : BuildConfig) (line : Nat) (t : Text) (w : World) (now : BitVec 64) : Text :=
  (logLine cfg .debug menuFile line t w now).flatten

/-- A message is the same before another one, but for the clock. -/
theorem menuLine_next {cfg : BuildConfig} {w w' : World} (hlog : w.LogOnly w') {level : LogLevel}
    {file : String} {line : Nat} {t : Text} (hlogged : Logged cfg level file line t w w')
    (hlevel : level = .debug) (line' : Nat) (t' : Text) :
    menuLine cfg line' t' w' (w'.clock 0) = menuLine cfg line' t' w (w.clock 1) := by
  have hshown : Shown cfg .debug w' ↔ Shown cfg .debug w := by
    unfold Shown
    rw [hlog.rest]
  have htime : w'.zeroTime = w.zeroTime := by rw [hlog.rest]
  unfold menuLine logLine
  by_cases h : Shown cfg .debug w
  · have hclock := hlogged.clock (hlevel ▸ h)
    rw [if_pos h, if_pos (hshown.mpr h), htime, hclock]
  · rw [if_neg h, if_neg fun h' => h (hshown.mp h')]

theorem printedBetween_logged {cfg : BuildConfig} {level : LogLevel} {file : String} {line : Nat}
    {t : Text} {w w' : World} (h : Logged cfg level file line t w w') :
    printedBetween w w' = (logLine cfg level file line t w (w.clock 0)).flatten := by
  rw [printedBetween, h.out, List.drop_left]

/-- A certificate on the console, behind a line of the log. -/
structure ArtifactPrinted (cfg : BuildConfig) (line : Nat) (t : Text) (bs : List Byte)
    (b b' : Board) : Prop where
  console : b'.console =
    b.console ++ menuLine cfg line t b.world (b.world.clock 0) ++ hexText bs
  mem : AgreeOn InL0L1 b.world.mem b'.world.mem
  next : ∀ line t, menuLine cfg line t b'.world (b'.world.clock 0) =
    menuLine cfg line t b.world (b.world.clock 1)

theorem printArtifact_run (cfg : BuildConfig) (line : Nat) (t : Text) (cert : Nat)
    {len n : Nat} {b : Board} (hlen : (loadWord b.world.mem (at_ getSharedL0L1 len)).toNat = n)
    (hlenField : len + 4 ≤ L1Params.size) (hcertField : cert + n ≤ L1Params.size) :
    (n + 3 ≤ b.world.power → ∃ b', printArtifact cfg line t cert len b = (some (), b') ∧
      b.world.power ≤ b'.world.power + (n + 3)) ∧
    ∀ b', printArtifact cfg line t cert len b = (some (), b') →
      ArtifactPrinted cfg line t (bytesAt b.world.mem (at_ getSharedL0L1 cert) n) b b' := by
  -- the length and the bytes are as they were before the log line
  have hafter : ∀ w1 : World, b.world.LogOnly w1 →
      AgreeOn InL0L1 b.world.mem w1.mem ∧
      (loadWord w1.mem (at_ getSharedL0L1 len)).toNat = n ∧
      bytesAt w1.mem (at_ getSharedL0L1 cert) n =
        bytesAt b.world.mem (at_ getSharedL0L1 cert) n := by
    intro w1 h1
    have hl1 : AgreeOn InL0L1 b.world.mem w1.mem := fun x hx =>
      h1.mem x (shared_not_inLogs ((inShared_iff x).mpr (Or.inr hx)))
    have hword := hl1.loadWord fun i hi => l1Params_field hlenField hi
    have hbytes := hl1.bytesAt fun i hi => l1Params_field hcertField hi
    exact ⟨hl1, by rw [hword, hlen], hbytes⟩
  have hlog := (hwLogAt_logOnly cfg .debug menuFile line t).sat b.world
  have hunfold : printArtifact cfg line t cert len b =
      (onBoard (hwLogDebug cfg menuFile line t) >>= fun _ => Cut.state >>= fun b =>
        printHex (at_ getSharedL0L1 cert)
          (loadWord b.world.mem (at_ getSharedL0L1 len)).toNat) b := rfl
  constructor
  · intro hpower
    obtain ⟨_, w1, hrun, hleft⟩ := hwLogAt_runs cfg .debug menuFile line t b.world (by omega)
    obtain ⟨_, hn, _⟩ := hafter w1 (hlog.elim hrun)
    have hboard := onBoard_run hrun
    have hprint := (printHex_run (at_ getSharedL0L1 cert) n
      { b with world := w1, console := b.console ++ printedBetween b.world w1 }).1
      (show n ≤ w1.power by omega)
    rw [hunfold, hwLogDebug, Cut.bind_some hboard, Cut.state_bind, hn, hprint]
    constructor
    · constructor
      · rfl
      · show b.world.power ≤ w1.power - n + (n + 3)
        omega
  · intro b' hrun
    rw [hunfold] at hrun
    obtain ⟨_, b1, hboard, hprint⟩ := Cut.bind_eq_some hrun
    have hconsole := onBoard_console hboard
    obtain ⟨hl1, hn, hbytes⟩ := hafter b1.world (hlog.elim (onBoard_world hboard))
    rw [Cut.state_bind, hn] at hprint
    obtain ⟨hdone, hstopped⟩ := printHex_run (at_ getSharedL0L1 cert) n b1
    by_cases hpower : n ≤ b1.world.power
    · rw [hdone hpower] at hprint
      cases hprint
      have hkept : b.world.LogOnly b1.world := hlog.elim (onBoard_world hboard)
      have hlogged := (hwLogAt_prints cfg .debug menuFile line t b.world).elim
        (onBoard_world hboard) rfl
      rw [printedBetween_logged hlogged] at hconsole
      constructor
      · rw [← hbytes, hconsole]
        rfl
      · exact hl1
      · exact fun line' t' => menuLine_next hkept hlogged rfl line' t'
    · obtain ⟨b2, hcut⟩ := hstopped (by omega)
      rw [hcut] at hprint
      cases hprint

end Printing

/-! ## The certificates -/

section Certificates

variable {cfg cfgL0 : BuildConfig} {E : L0Engine} {p : L0ParamsView} {fwid : List Byte}
  {buffer : CorruptBuffer}

theorem shared_not_menuWrites {x : Addr} (h : InL0L1 x) : ¬ MenuWrites buffer x := by
  have h0 : getSharedL0L1 = 0x38008000#32 := rfl
  have h1 : sharedHalf = 32768 := rfl
  have h2 : dtcmStart = 0x20000000#32 := rfl
  have h3 : dtcmLength = 131072 := rfl
  have h4 : corruptAddress = 0x08020800#32 := rfl
  have h5 : corruptLength = 128 := rfl
  rintro (hlog | hbuffer | hflash)
  · exact shared_not_inLogs ((inShared_iff x).mpr (Or.inr h)) hlog
  · have hdtcm := buffer.within hbuffer
    simp only [InL0L1, Within, h0, h1, h2, h3] at *
    bv_omega
  · simp only [InL0L1, Within, h0, h1, h4, h5] at *
    bv_omega

theorem AtMenu.handedOver {b0 b : Board} (h : AtMenu cfg buffer b0 b)
    (hover : HandedOver cfgL0 E p fwid b0.world.mem) :
    HandedOver cfgL0 E p fwid b.world.mem :=
  hover.congr fun x hx => h.menuOnly.mem x (shared_not_menuWrites hx)

/-- The line before the certificate of the alias key, for a board as it is at the call. -/
def crtLine (cfg : BuildConfig) (w : World) : Text :=
  menuLine cfg 139 (text "AliasKey CRT in DER format (hex)") w (w.clock 0)

/-- The line before the request of DeviceID. -/
def csrLine (cfg : BuildConfig) (w : World) : Text :=
  menuLine cfg 144 (text "\nDeviceID CSR in DER format (hex)") w (w.clock 1)

/-- `PrintArtifacts` on what L0 left. -/
theorem printArtifacts_run (cfg : BuildConfig) {b : Board}
    (hover : HandedOver cfgL0 E p fwid b.world.mem) :
    ((crtLength cfgL0 E).toNat + (csrLength E).toNat + 6 ≤ b.world.power →
      ∃ b', printArtifacts cfg b = (some (), b')) ∧
    ∀ b', printArtifacts cfg b = (some (), b') → b'.console =
      b.console ++ crtLine cfg b.world ++ hexText (l1ParamsOf cfgL0 E p fwid).aliasKeyCert ++
        csrLine cfg b.world ++ hexText (l1ParamsOf cfgL0 E p fwid).deviceIDCsr := by
  have hcert : L1Params.aliasKeyCert + derMaxPem ≤ L1Params.size := by decide
  have hreq : L1Params.deviceIDCsr + derMaxPem ≤ L1Params.size := by decide
  have hcsrFits : (csrLength E).toNat ≤ derMaxPem := E.csrFits
  have hcrtFits : (crtLength cfgL0 E).toNat ≤ derMaxPem := E.crtFits cfgL0.l0Version
  -- both lengths and both certificates, at any board that has what L0 left
  have hlengths : ∀ {c : Board}, HandedOver cfgL0 E p fwid c.world.mem →
      (loadWord c.world.mem (at_ getSharedL0L1 L1Params.aliasKeyCertLen)).toNat =
        (crtLength cfgL0 E).toNat ∧
      (loadWord c.world.mem (at_ getSharedL0L1 L1Params.deviceIDCsrLen)).toNat =
        (csrLength E).toNat := by
    intro c h
    exact ⟨congrArg BitVec.toNat h.lengths.crt, congrArg BitVec.toNat h.lengths.csr⟩
  have hcrtBytes : ∀ {c : Board}, HandedOver cfgL0 E p fwid c.world.mem →
      bytesAt c.world.mem (at_ getSharedL0L1 L1Params.aliasKeyCert) (crtLength cfgL0 E).toNat =
        (l1ParamsOf cfgL0 E p fwid).aliasKeyCert := by
    intro c h
    rw [← h.params, ← (hlengths h).1]
    rfl
  have hcsrBytes : ∀ {c : Board}, HandedOver cfgL0 E p fwid c.world.mem →
      bytesAt c.world.mem (at_ getSharedL0L1 L1Params.deviceIDCsr) (csrLength E).toNat =
        (l1ParamsOf cfgL0 E p fwid).deviceIDCsr := by
    intro c h
    rw [← h.params, ← (hlengths h).2]
    rfl
  have hfirst := printArtifact_run cfg 139 (text "AliasKey CRT in DER format (hex)")
    L1Params.aliasKeyCert (hlengths hover).1 (by decide) (by omega)
  have hsecond : ∀ {c : Board}, HandedOver cfgL0 E p fwid c.world.mem → _ := fun h =>
    printArtifact_run cfg 144 (text "\nDeviceID CSR in DER format (hex)")
      L1Params.deviceIDCsr (hlengths h).2 (by decide) (by omega)
  constructor
  · intro hpower
    obtain ⟨b1, hrun1, hleft⟩ := hfirst.1 (by omega)
    have hover1 := hover.congr (hfirst.2 b1 hrun1).mem
    obtain ⟨b2, hrun2, _⟩ := (hsecond hover1).1 (by omega)
    exact ⟨b2, (Cut.bind_some hrun1).trans hrun2⟩
  · intro b' hrun
    obtain ⟨_, b1, hrun1, hrun2⟩ := Cut.bind_eq_some hrun
    have hprinted1 := hfirst.2 b1 hrun1
    have hover1 := hover.congr hprinted1.mem
    have hprinted2 := (hsecond hover1).2 b' hrun2
    have hline : menuLine cfg 144 (text "\nDeviceID CSR in DER format (hex)") b1.world
        (b1.world.clock 0) = csrLine cfg b.world := hprinted1.next _ _
    rw [hprinted2.console, hprinted1.console, hline, hcrtBytes hover, hcsrBytes hover1]
    rfl

/-- **The menu prints the certificates as L0 left them.** Let a session with L1 start with
`l1_params` as L0 makes them, and be in any round of the menu, after any keys and tests. Then
`PrintArtifacts` runs through, if the power lasts, and whenever it does the console has grown
by the two lines of the log, each with the hexadecimal digits of one certificate: decoded they
are the certificate of the alias key and the request of DeviceID that L0 made. -/
theorem session_prints_certificates {b0 b : Board} (hover : HandedOver cfgL0 E p fwid b0.world.mem)
    (hmenu : AtMenu cfg buffer b0 b) :
    ((crtLength cfgL0 E).toNat + (csrLength E).toNat + 6 ≤ b.world.power →
      ∃ b', printArtifacts cfg b = (some (), b')) ∧
    ∀ b', printArtifacts cfg b = (some (), b') → ∃ crt csr,
      b'.console = b.console ++ crtLine cfg b.world ++ crt ++ csrLine cfg b.world ++ csr ∧
      decodeHex crt = some (l1ParamsOf cfgL0 E p fwid).aliasKeyCert ∧
      decodeHex csr = some (l1ParamsOf cfgL0 E p fwid).deviceIDCsr := by
  obtain ⟨hruns, hprinted⟩ := printArtifacts_run cfg (hmenu.handedOver hover)
  constructor
  · exact hruns
  · intro b' hrun
    exact ⟨_, _, hprinted b' hrun, decodeHex_flatMap _, decodeHex_flatMap _⟩

end Certificates

/-- What `RunL0` leaves on a blank device with a Nucleo package, but for one byte of the half of
DICE. -/
def sampleStart : Board where
  world := { blankDevice with
    mem := fill (runL0 plainBuild SlotBuild.tagSigner.toCrypto sampleEngine blankDevice).2.mem
      getSharedDiceL0 1 1
    packageType := packageTypeTqfp144 }
  keys _ := some key2
  console := []

def sampleBuffer : CorruptBuffer := DtcmObject.ofRange 0x2001FF00 (by decide)

theorem sampleStart_handedOver : ∃ fwid, HandedOver plainBuild sampleEngine
    (readL0Params blankDevice.mem) fwid sampleStart.world.mem := by
  obtain ⟨_, w', hrun, _⟩ := runL0_runs plainBuild SlotBuild.tagSigner.toCrypto sampleEngine
    blankDevice (by decide)
  obtain ⟨fwid, hover, _⟩ := ((runL0_done blankDevice).elim hrun () rfl).handedOver
  have hmem : sampleStart.world.mem = fill w'.mem getSharedDiceL0 1 1 := by
    rw [sampleStart, hrun]
  refine ⟨fwid, hover.congr ?_⟩
  intro x hx
  rw [hmem]
  apply fill_outside
  intro hin
  exact halves_apart (Nat.lt_of_lt_of_le hin (by decide)) hx

theorem sampleStart_prints : ∃ fwid b b' crt csr,
    AtMenu plainBuild sampleBuffer sampleStart b ∧
    printArtifacts plainBuild b = (some (), b') ∧
    b'.console = b.console ++ crtLine plainBuild b.world ++ crt ++ csrLine plainBuild b.world ++
      csr ∧
    decodeHex crt = some (l1ParamsOf plainBuild sampleEngine (readL0Params blankDevice.mem)
      fwid).aliasKeyCert ∧
    decodeHex csr = some (l1ParamsOf plainBuild sampleEngine (readL0Params blankDevice.mem)
      fwid).deviceIDCsr := by
  obtain ⟨fwid, hover⟩ := sampleStart_handedOver
  have hstarts : (onBoard (imageStart plainBuild mainFile 22) sampleStart).1 = some 0 := by
    decide +kernel
  have hleft : 806 + 58 ≤
      (onBoard (imageStart plainBuild mainFile 22) sampleStart).2.world.power := by
    decide +kernel
  obtain ⟨b, hmenu, hpower⟩ := @menu_reached _ sampleBuffer _ _ hstarts rfl _ hleft
  obtain ⟨hruns, hprinted⟩ := session_prints_certificates hover hmenu
  have hlengths : (crtLength plainBuild sampleEngine).toNat = 500 ∧
      (csrLength sampleEngine).toNat = 300 := ⟨rfl, rfl⟩
  obtain ⟨b', hrun⟩ := hruns (by omega)
  obtain ⟨crt, csr, hconsole, hcrt, hcsr⟩ := hprinted b' hrun
  exact ⟨fwid, _, b', crt, csr, hmenu, hrun, hconsole, hcrt, hcsr⟩

end VerifiedDice.L1Image
