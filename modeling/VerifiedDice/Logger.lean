import VerifiedDice.World

/-!
# The logger

`logger.cpp` and `target_logger.cpp` of the Arm port: a line with a prefix is put
together in a buffer of fixed size and given to `TargetPrintString`, which also keeps
it in both logs. Messages below the run-time level are dropped, `HWLogHex` formats its
data before that.
-/
namespace VerifiedDice

open ByteMemory CircularLog

/-! ## Formatting -/

def blank : Byte := 0x20

def padLeft (n : Nat) (t : Text) : Text := List.replicate (n - t.length) blank ++ t

def padRight (n : Nat) (t : Text) : Text := t ++ List.replicate (n - t.length) blank

/-- `%u`. -/
def decimal (v : Word) : Text := text (toString v.toNat)

/-- `%d`. -/
def signedDecimal (v : Word) : Text := text (toString v.toInt)

def digit (alphabet : Text) (d : Nat) : Byte := alphabet.getD d 0

/-- `%08X`. -/
def hexWord (v : Word) : Text :=
  (List.range 8).map fun i => digit (text "0123456789ABCDEF") (v.toNat / 16 ^ (7 - i) % 16)

/-- `%02x`. -/
def hexByte (b : Byte) : Text :=
  [digit (text "0123456789abcdef") (b.toNat / 16), digit (text "0123456789abcdef") (b.toNat % 16)]

def maxLogLineLen : Nat := 384
def maxFieldLen : Nat := 20

def levelName : LogLevel → Text
  | .trace => text "trace"
  | .secret => text "secret"
  | .debug => text "debug"
  | .info => text "info"
  | .fail => text "fail"
  | .fatal => text "fatal"
  | .afterLast => []

/-- The end of a file name that does not fit its field. -/
def lastField (name : Text) : Text := name.drop (name.length - maxFieldLen)

/-- `"%6u [%6s] %18s:%-5d  "`. -/
def linePrefix (time : Word) (level : LogLevel) (fileName : Text) (lineNo : Nat) : Text :=
  padLeft 6 (decimal time) ++ text " [" ++ padLeft 6 (levelName level) ++ text "] " ++
    padLeft 18 fileName ++ text ":" ++ padRight 5 (text (toString lineNo)) ++ text "  "

/-! ## Printing -/

def targetPrintString (str : Text) : Cut World Unit :=
  step fun w => ((), { w with
    out := w.out ++ [str]
    mem := logToPersistentMemory (logToMemory w.mem str) str
    written := fun x => w.written x || decide (InLogs x) })

def getLogTime : Cut World Word := do
  let w ← Cut.state
  let now ← getTimeNow
  pure ((now - w.zeroTime).setWidth 32)

def hwLogStr (level : LogLevel) (str : Text) : Cut World Unit := do
  let w ← Cut.state
  if level.toNat < w.currentLevel.toNat then pure () else do
    targetPrintString str
    targetPrintString (text "\n")

/-- `HWLogFmt`; `t` is the text of the format and its arguments. -/
def hwLogFmt (level : LogLevel) (fileName : Text) (lineNo : Nat) (t : Text) : Cut World Unit := do
  let w ← Cut.state
  if level.toNat < w.currentLevel.toNat ∨ LogLevel.afterLast.toNat ≤ level.toNat then pure ()
  else do
    let time ← getLogTime
    let prefixText := linePrefix time level (lastField fileName) lineNo
    let buf := prefixText.take (maxLogLineLen - 1)
    let buf := if prefixText.length < maxLogLineLen - maxFieldLen then
      prefixText ++ t.take (maxLogLineLen - prefixText.length - 2) else buf
    hwLogStr level buf

def hwLog (level : LogLevel) (fileName : Text) (lineNo : Nat) (str : Text) : Cut World Unit := do
  let w ← Cut.state
  if level.toNat < w.currentLevel.toNat ∨ LogLevel.afterLast.toNat ≤ level.toNat then pure ()
  else do
    let time ← getLogTime
    targetPrintString
      ((linePrefix time level (lastField fileName) lineNo).take (maxLogLineLen - 1))
    targetPrintString str
    targetPrintString (text "\n")

/-! ## Hex dumps -/

/-- The local `buffer` of `HWLogStrHex` by offsets from its start; `ptr` is `buf + soFar`. -/
structure HexLine where
  buffer : Mem 32
  soFar : Word

/-- `snprintf(ptr, sizeof(buffer) - soFar, ...)` and the two additions of its result. -/
def HexLine.snprintf (l : HexLine) (t : Text) : HexLine where
  buffer :=
    let size := BitVec.ofNat 32 maxLogLineLen - l.soFar
    if size = 0 then l.buffer else write l.buffer l.soFar (t.take (size.toNat - 1) ++ [0])
  soFar := l.soFar + BitVec.ofNat 32 t.length

/-- The cap on the number of bytes. -/
def HexLine.maxBytes (l : HexLine) : Word := (BitVec.ofNat 32 maxLogLineLen - l.soFar) / 3 - 4

/-- One byte of the dump. As in the source, `i + 1 % splitAt` is `i + (1 % splitAt)`. -/
def HexLine.item (splitAt len : Word) (l : HexLine) (i : Nat) (b : Byte) : HexLine :=
  let i := BitVec.ofNat 32 i
  if 0 < splitAt ∧ i + 1 % splitAt = 0 ∧ i + 1 ≠ len then l.snprintf (hexByte b ++ text "\n")
  else l.snprintf (hexByte b)

/-- The line before the data: the text `str`, unless the pointer is null. -/
def HexLine.start (str : Option Text) : HexLine :=
  let l : HexLine := { buffer := fun _ => 0, soFar := 0 }
  match str with
  | none => l
  | some str => l.snprintf str

/-- `len` after the cap. -/
def HexLine.shown (l : HexLine) (len : Nat) : Nat := min len l.maxBytes.toNat

def hexLine (str : Option Text) (data : List Byte) (splitAt : Word) : HexLine :=
  let l := HexLine.start str
  let len := l.shown data.length
  (List.range len).foldl (fun l i => l.item splitAt (BitVec.ofNat 32 len) i (data.getD i 0)) l

/-- The characters of the buffer up to the terminator. -/
def HexLine.str (l : HexLine) : Text :=
  (bytesAt l.buffer 0 maxLogLineLen).takeWhile fun c => c != 0

def hwLogStrHex (level : LogLevel) (fileName : Text) (lineNo : Nat) (str : Option Text)
    (data : List Byte) (splitAt : Word) : Cut World Unit :=
  hwLog level fileName lineNo (hexLine str data splitAt).str

def hwLogHex (level : LogLevel) (fileName : Text) (lineNo : Nat) (data : List Byte) :
    Cut World Unit :=
  hwLogStrHex level fileName lineNo none data 0

/-! ## The macros

Those below `HW_MIN_LOG_LEVEL` are not compiled in. -/

variable (cfg : BuildConfig)

def compiled (level : LogLevel) (x : Cut World Unit) : Cut World Unit :=
  if cfg.minLogLevel ≤ level.toNat then x else pure ()

def hwLogAt (level : LogLevel) (file : String) (line : Nat) (t : Text) : Cut World Unit :=
  compiled cfg level (hwLogFmt level (cfg.sourceRoot ++ text file) line t)

def hwLogTrace := hwLogAt cfg .trace
def hwLogDebug := hwLogAt cfg .debug
def hwLogInfo := hwLogAt cfg .info
def hwLogFail := hwLogAt cfg .fail

def hwLogInfoStr (str : Text) : Cut World Unit := compiled cfg .info (hwLogStr .info str)

def hwLogSecretHex (file : String) (line : Nat) (data : List Byte) : Cut World Unit :=
  compiled cfg .secret (hwLogHex .secret (cfg.sourceRoot ++ text file) line data)

/-! ## What logging leaves alone -/

theorem targetPrintString_logOnly (str : Text) : Cut.Keeps logOnly (targetPrintString str) := by
  refine step_keeps fun w => ⟨fun x hx => ?_, fun x hx => ?_, rfl⟩
  · obtain ⟨hp, hr⟩ := not_or.mp hx
    show logTo persistentLog (logTo ramLog w.mem str) str x = w.mem x
    rw [logTo_outside persistentLog _ str hp, logTo_outside ramLog _ str hr]
  · simp [hx, World.spend]

theorem getLogTime_logOnly : Cut.Keeps logOnly getLogTime :=
  Cut.Keeps.state_bind fun _ => getTimeNow_logOnly.bind fun _ => Cut.Keeps.pure _

theorem hwLogStr_logOnly (level : LogLevel) (str : Text) : Cut.Keeps logOnly (hwLogStr level str) :=
  Cut.Keeps.state_bind fun _ => Cut.Keeps.ite (Cut.Keeps.pure _)
    ((targetPrintString_logOnly _).bind fun _ => targetPrintString_logOnly _)

theorem hwLogFmt_logOnly (level : LogLevel) (file : Text) (line : Nat) (t : Text) :
    Cut.Keeps logOnly (hwLogFmt level file line t) :=
  Cut.Keeps.state_bind fun _ => Cut.Keeps.ite (Cut.Keeps.pure _)
    (getLogTime_logOnly.bind fun _ => hwLogStr_logOnly _ _)

theorem hwLog_logOnly (level : LogLevel) (file : Text) (line : Nat) (str : Text) :
    Cut.Keeps logOnly (hwLog level file line str) :=
  Cut.Keeps.state_bind fun _ => Cut.Keeps.ite (Cut.Keeps.pure _)
    (getLogTime_logOnly.bind fun _ => (targetPrintString_logOnly _).bind fun _ =>
      (targetPrintString_logOnly _).bind fun _ => targetPrintString_logOnly _)

theorem compiled_logOnly {level : LogLevel} {x : Cut World Unit} (h : Cut.Keeps logOnly x) :
    Cut.Keeps logOnly (compiled cfg level x) := Cut.Keeps.ite h (Cut.Keeps.pure _)

theorem hwLogAt_logOnly (level : LogLevel) (file : String) (line : Nat) (t : Text) :
    Cut.Keeps logOnly (hwLogAt cfg level file line t) :=
  compiled_logOnly cfg (hwLogFmt_logOnly _ _ _ _)

theorem hwLogInfoStr_logOnly (str : Text) : Cut.Keeps logOnly (hwLogInfoStr cfg str) :=
  compiled_logOnly cfg (hwLogStr_logOnly _ _)

theorem hwLogSecretHex_logOnly (file : String) (line : Nat) (data : List Byte) :
    Cut.Keeps logOnly (hwLogSecretHex cfg file line data) :=
  compiled_logOnly cfg (hwLog_logOnly _ _ _ _)

section Sat

variable {cfg} {w : World} {level : LogLevel} {file : String} {line : Nat} {t : Text}

/-- A message, then a result. -/
theorem logThen_sat {α : Type} {v : α} {Q : Option α → World → Prop}
    (hcut : ∀ w', w.LogOnly w' → Q none w') (hdone : ∀ w', w.LogOnly w' → Q (some v) w') :
    Cut.Sat (hwLogAt cfg level file line t >>= fun _ => pure v) w Q :=
  Cut.Sat.bind ((hwLogAt_logOnly cfg level file line t).sat w)
    (fun _ w1 h1 => Cut.Sat.pure (hdone w1 h1)) hcut

/-- A failure: a message, then the error code. -/
theorem failed_sat {Q : Option Word → World → Prop}
    (h : ∀ r w', r ≠ some 0 → w.LogOnly w' → Q r w') :
    Cut.Sat (hwLogAt cfg level file line t >>= fun _ => pure (-1)) w Q :=
  logThen_sat (fun w' hw => h none w' nofun hw) fun w' hw => h _ w' (by decide) hw

end Sat

/-! ## Logging ends -/

theorem targetPrintString_runs (str : Text) : Runs 1 (targetPrintString str) :=
  Runs.step fun _ => rfl

theorem getLogTime_runs : Runs 1 getLogTime :=
  Runs.state_bind fun _ => (Runs.step fun _ => rfl).bind fun _ => Runs.pure _

theorem hwLogStr_runs (level : LogLevel) (str : Text) : Runs 2 (hwLogStr level str) :=
  Runs.state_bind fun _ => Runs.ite ((Runs.pure ()).mono (Nat.zero_le _))
    ((targetPrintString_runs _).bind fun _ => targetPrintString_runs _)

theorem hwLogAt_runs (level : LogLevel) (file : String) (line : Nat) (t : Text) :
    Runs 3 (hwLogAt cfg level file line t) :=
  Runs.ite (Runs.state_bind fun _ => Runs.ite ((Runs.pure ()).mono (Nat.zero_le _))
    (getLogTime_runs.bind fun _ => hwLogStr_runs _ _)) ((Runs.pure ()).mono (Nat.zero_le _))

/-! ## Logging stops only without power -/

theorem hwLogStr_stopsAt (level : LogLevel) (str : Text) :
    Cut.StopsAt World.Spent (hwLogStr level str) := by
  have hprint : ∀ str, Cut.StopsAt World.Spent (targetPrintString str) := fun _ => step_stopsAt _
  apply Cut.StopsAt.state_bind
  exact fun _ => Cut.StopsAt.ite (Cut.StopsAt.pure _) ((hprint _).bind fun _ => hprint _)

theorem hwLogInfoStr_stopsAt (str : Text) : Cut.StopsAt World.Spent (hwLogInfoStr cfg str) :=
  Cut.StopsAt.ite (hwLogStr_stopsAt _ _) (Cut.StopsAt.pure _)

theorem hwLogAt_stopsAt (level : LogLevel) (file : String) (line : Nat) (t : Text) :
    Cut.StopsAt World.Spent (hwLogAt cfg level file line t) := by
  have htime : Cut.StopsAt World.Spent getLogTime :=
    Cut.StopsAt.state_bind fun _ => (step_stopsAt _).bind fun _ => Cut.StopsAt.pure _
  refine Cut.StopsAt.ite (Cut.StopsAt.state_bind fun _ => ?_) (Cut.StopsAt.pure _)
  exact Cut.StopsAt.ite (Cut.StopsAt.pure _) (htime.bind fun _ => hwLogStr_stopsAt _ _)

/-! ## What is printed -/

/-- The macro is compiled in, and the message is not below the run-time level. -/
def Shown (level : LogLevel) (w : World) : Prop :=
  cfg.minLogLevel ≤ level.toNat ∧ w.currentLevel.toNat ≤ level.toNat ∧
    level.toNat < LogLevel.afterLast.toNat

instance (level : LogLevel) (w : World) : Decidable (Shown cfg level w) :=
  inferInstanceAs (Decidable (_ ∧ _ ∧ _))

/-- The buffer of `HWLogFmt`. -/
def logBuffer (time : Word) (level : LogLevel) (fileName : Text) (lineNo : Nat) (t : Text) :
    Text :=
  let prefixText := linePrefix time level (lastField fileName) lineNo
  let buf := prefixText.take (maxLogLineLen - 1)
  if prefixText.length < maxLogLineLen - maxFieldLen then
    prefixText ++ t.take (maxLogLineLen - prefixText.length - 2) else buf

/-- What a log macro prints when the clock says `now`. -/
def logLine (level : LogLevel) (file : String) (line : Nat) (t : Text) (w : World)
    (now : BitVec 64) : List Text :=
  if Shown cfg level w then
    [logBuffer ((now - w.zeroTime).setWidth 32) level (cfg.sourceRoot ++ text file) line t,
      text "\n"]
  else []

/-- A log macro that runs through prints its line, with the time of the one reading of the clock
that it makes for it. -/
structure Logged (level : LogLevel) (file : String) (line : Nat) (t : Text) (w w' : World) :
    Prop where
  out : w'.out = w.out ++ logLine cfg level file line t w (w.clock 0)
  clock : Shown cfg level w → w'.clock = fun n => w.clock (n + 1)

theorem hwLogStr_prints {level : LogLevel} {w : World}
    (hlevel : w.currentLevel.toNat ≤ level.toNat) (str : Text) :
    Cut.Sat (hwLogStr level str) w fun r w' =>
      r = some () → w'.out = w.out ++ [str, text "\n"] ∧ w'.clock = w.clock := by
  have hprint : ∀ (str : Text) (w : World), Cut.Sat (targetPrintString str) w fun r w' =>
      r = some () → w'.out = w.out ++ [str] ∧ w'.clock = w.clock := fun _ _ =>
    step_sat (by intro h; cases h) fun _ => ⟨rfl, rfl⟩
  unfold hwLogStr
  apply Cut.Sat.state_bind
  rw [if_neg (Nat.not_lt.mpr hlevel)]
  apply (hprint str w).bind
  · intro _ w1 h1
    apply (hprint (text "\n") w1).mono
    intro r w2 h2 hr
    obtain ⟨hout1, hclock1⟩ := h1 rfl
    obtain ⟨hout2, hclock2⟩ := h2 hr
    refine ⟨?_, hclock2.trans hclock1⟩
    rw [hout2, hout1, List.append_assoc]
    rfl
  · intro _ _ h
    cases h

/-- The clock is read once. -/
theorem getLogTime_reads (w : World) : Cut.Sat getLogTime w fun r w' => ∀ time, r = some time →
    time = (w.clock 0 - w.zeroTime).setWidth 32 ∧ w'.out = w.out ∧
      w'.currentLevel = w.currentLevel ∧ w'.clock = fun n => w.clock (n + 1) := by
  have hread : Cut.Sat getTimeNow w fun r w' => ∀ now, r = some now →
      now = w.clock 0 ∧ w'.out = w.out ∧ w'.currentLevel = w.currentLevel ∧
        w'.clock = fun n => w.clock (n + 1) := by
    apply step_sat
    · intro _ h
      cases h
    · rintro _ ⟨⟩
      exact ⟨rfl, rfl, rfl, rfl⟩
  unfold getLogTime
  apply Cut.Sat.state_bind
  apply hread.bind
  · intro now w1 h1
    obtain ⟨rfl, hrest⟩ := h1 now rfl
    apply Cut.Sat.pure
    rintro _ ⟨⟩
    exact ⟨rfl, hrest⟩
  · intro _ _ _ h
    cases h

theorem hwLogAt_prints (level : LogLevel) (file : String) (line : Nat) (t : Text) (w : World) :
    Cut.Sat (hwLogAt cfg level file line t) w fun r w' =>
      r = some () → Logged cfg level file line t w w' := by
  have hnothing : ¬ Shown cfg level w → Cut.Sat (pure () : Cut World Unit) w fun r w' =>
      r = some () → Logged cfg level file line t w w' := by
    intro hnot
    apply Cut.Sat.pure
    intro _
    constructor
    · rw [logLine, if_neg hnot, List.append_nil]
    · exact fun hshown => absurd hshown hnot
  unfold hwLogAt compiled
  apply Cut.Sat.ite
  · intro hmin
    unfold hwLogFmt
    apply Cut.Sat.state_bind
    apply Cut.Sat.ite
    · intro hlow
      apply hnothing
      rintro ⟨_, hlevel, hlast⟩
      omega
    · intro hlevel
      have hshown : Shown cfg level w := ⟨hmin, by omega, by omega⟩
      apply (getLogTime_reads w).bind
      · intro time w1 h1
        obtain ⟨rfl, hout, hcurrent, hclock⟩ := h1 time rfl
        have hlevel1 : w1.currentLevel.toNat ≤ level.toNat := by
          rw [hcurrent]
          exact hshown.2.1
        apply (hwLogStr_prints hlevel1 _).mono
        intro r w2 h2 hr
        obtain ⟨hout2, hclock2⟩ := h2 hr
        constructor
        · rw [hout2, hout, logLine, if_pos hshown]
          rfl
        · exact fun _ => hclock2.trans hclock
      · intro _ _ h
        cases h
  · intro hmin
    exact hnothing fun hshown => hmin hshown.1

/-! ## Two runs -/

/-- What was logged is the same, and so is all that decides what will be logged, apart from the
secret and the random words. -/
structure World.LogView (w t : World) : Prop where
  level : t.currentLevel = w.currentLevel
  zeroTime : t.zeroTime = w.zeroTime
  clock : t.clock = w.clock
  out : t.out = w.out
  logs : AgreeOn InLogs w.mem t.mem
  hal : t.hal = w.hal
  program : t.program = w.program
  optionBytes : t.optionBytes = w.optionBytes
  rsr : t.rsr = w.rsr
  lastResetReason : t.lastResetReason = w.lastResetReason

/-- Both end in states that show an observer the same. -/
abbrev SameLog {α : Type} (x : Cut World α) : Prop := Cut.Same World.LogView x

section SameLog

variable {α β : Type} {x : Cut World α} {f : α → Cut World β}

theorem getTimeNow_sameLog : SameLog getTimeNow := by
  intro w t h
  have hclock : t.clock = w.clock := h.clock
  refine step_both ⟨congrFun hclock 0, h.level, h.zeroTime, ?_, h.out, h.logs, h.hal, h.program,
    h.optionBytes, h.rsr, h.lastResetReason⟩
  show (fun n => t.clock (n + 1)) = fun n => w.clock (n + 1)
  rw [hclock]

theorem targetPrintString_sameLog (str : Text) : SameLog (targetPrintString str) := by
  intro w t h
  refine step_both ⟨rfl, h.level, h.zeroTime, h.clock, ?_, ?_, h.hal, h.program, h.optionBytes,
    h.rsr, h.lastResetReason⟩
  · exact congrArg (· ++ [str]) h.out
  · have hram : AgreeOn InLogs (logTo ramLog w.mem str) (logTo ramLog t.mem str) :=
      logTo_congr (fun _ => Or.inr) h.logs str
    exact logTo_congr (fun _ => Or.inl) hram str

theorem getLogTime_sameLog : SameLog getLogTime := by
  intro w t h
  refine Cut.Both.state_bind ((getTimeNow_sameLog w t h).bind fun a w' b t' hab => ?_)
  obtain ⟨rfl, h'⟩ := hab
  rw [h.zeroTime]
  exact Cut.Both.pure ⟨rfl, h'⟩

/-- A message is dropped in both runs or in none. -/
theorem sameLog_filtered {p : LogLevel → Prop} [DecidablePred p] (hx : SameLog x) (a : α) :
    SameLog (Cut.state >>= fun w => if p w.currentLevel then Pure.pure a else x) := by
  intro w t h
  refine Cut.Both.state_bind ?_
  rw [h.level]
  exact Cut.Same.ite (Cut.Same.pure a) hx w t h

theorem hwLogStr_sameLog (level : LogLevel) (str : Text) : SameLog (hwLogStr level str) :=
  sameLog_filtered (p := fun l => level.toNat < l.toNat)
    ((targetPrintString_sameLog _).bind fun _ => targetPrintString_sameLog _) ()

theorem hwLogFmt_sameLog (level : LogLevel) (file : Text) (line : Nat) (t : Text) :
    SameLog (hwLogFmt level file line t) :=
  sameLog_filtered
    (p := fun l => level.toNat < l.toNat ∨ LogLevel.afterLast.toNat ≤ level.toNat)
    (getLogTime_sameLog.bind fun _ => hwLogStr_sameLog _ _) ()

theorem hwLogAt_sameLog (level : LogLevel) (file : String) (line : Nat) (t : Text) :
    SameLog (hwLogAt cfg level file line t) :=
  Cut.Same.ite (hwLogFmt_sameLog _ _ _ _) (Cut.Same.pure _)

theorem hwLogInfoStr_sameLog (str : Text) : SameLog (hwLogInfoStr cfg str) :=
  Cut.Same.ite (hwLogStr_sameLog _ _) (Cut.Same.pure _)

end SameLog

/-- Below the run-time level nothing is printed, whatever was formatted. -/
theorem hwLog_filtered {level : LogLevel} {w : World} (h : level.toNat < w.currentLevel.toNat)
    (file : Text) (line : Nat) (str : Text) : hwLog level file line str w = (some (), w) := by
  show (if _ then _ else _ : Cut World Unit) w = _
  rw [if_pos (Or.inl h)]
  rfl

/-- The bytes of a secret are formatted and then dropped. -/
theorem hwLogSecretHex_filtered {w : World} (h : LogLevel.debug.toNat ≤ w.currentLevel.toNat)
    (file : String) (line : Nat) (data : List Byte) :
    hwLogSecretHex cfg file line data w = (some (), w) := by
  have hlevel : LogLevel.secret.toNat < w.currentLevel.toNat := Nat.lt_of_succ_le h
  unfold hwLogSecretHex compiled hwLogHex hwLogStrHex
  split
  · exact hwLog_filtered hlevel _ _ _
  · rfl

end VerifiedDice
