import VerifiedDice.Lib.Cut
import VerifiedDice.CircularLog
import VerifiedDice.SharedRam

/-!
# The device between two resets

What the firmware computes on: memory, the answers of the clock, the random number
generator and the HAL in the order in which they will be asked for, the registers it
reads, its static variables, and what an observer sees. Every access to the hardware
is a step, and before any step the power may be gone.
-/
namespace VerifiedDice

open ByteMemory CircularLog

/-- The characters of a C string. -/
abbrev Text := List Byte

def text (s : String) : Text := s.toList.map fun c => BitVec.ofNat 8 c.toNat

/-- `enum LogLevel`. -/
inductive LogLevel where
  | trace | secret | debug | info | fail | fatal | afterLast
  deriving DecidableEq, Repr

def LogLevel.toNat : LogLevel → Nat
  | trace => 0
  | secret => 1
  | debug => 2
  | info => 3
  | fail => 4
  | fatal => 5
  | afterLast => 6

inductive ResetReason where
  | unknown | watchdog | lowPower | swReset | hwReset
  deriving DecidableEq, Repr

/-- The option byte registers of `FLASH`. -/
structure OptionBytes where
  optsrCur : Word
  prarCur1 : Word
  prarCur2 : Word
  scarCur1 : Word
  scarCur2 : Word
  wpsnCur1 : Word
  wpsnCur2 : Word
  bootCur : Word

/-- What the build system defines for all files. -/
structure BuildConfig where
  minLogLevel : Nat
  enableWatchdog : Bool
  ignoreProtectionChecks : Bool
  setRssProtectionsAtRuntime : Bool
  /-- What `__FILE__` starts with, up to `src/`. -/
  sourceRoot : Text
  timestampString : Text
  gitCommitDescription : Text
  versionDiceFull : Word
  versionL0Full : Word
  l0Version : Word

/-- A call of the flash driver of the HAL. -/
inductive FlashCall where
  | unlock
  | program (dst src : Addr)
  | lock
  deriving DecidableEq

structure World where
  mem : Memory
  /-- Steps until the power is gone. -/
  power : Nat
  clock : Nat → BitVec 64
  /-- The next words of the generator; without a word the HAL reports an error. -/
  rng : Nat → Option Word
  /-- `none` if the next flash word is programmed, else the bits that are cleared before the
  HAL reports an error, by byte. -/
  program : Nat → Option (Nat → Byte)
  /-- The bits that are cleared when the power is gone while a flash word is programmed. -/
  torn : Nat → Byte
  /-- Whether the other calls of the HAL return `HAL_OK`. -/
  hal : Nat → Bool
  packageType : Word
  button : Bool
  optionBytes : OptionBytes
  rsr : Word
  currentLevel : LogLevel
  zeroTime : BitVec 64
  lastRefresh : BitVec 64
  lastResetReason : ResetReason
  /-- The strings given to `TargetPrintString`. -/
  out : List Text
  flashLocked : Bool
  flashCalls : List FlashCall
  /-- The addresses written to since the reset. -/
  written : Addr → Bool
  /-- The secrets that were ever generated. -/
  generated : List (List Byte)
  /-- The secrets that `DeviceSecretGet` ever returned. -/
  gets : List (List Byte)
  /-- The base address of the next image, once control has left this one. -/
  launched : Option Addr

/-- Any byte of either log. -/
def InLogs (x : Addr) : Prop := persistentLog.Mem x ∨ ramLog.Mem x

instance (A : LogArea) (x : Addr) : Decidable (A.Mem x) :=
  inferInstanceAs (Decidable (Within A.base (log + A.capacity) x))

instance (x : Addr) : Decidable (InLogs x) :=
  inferInstanceAs (Decidable (persistentLog.Mem x ∨ ramLog.Mem x))

theorem shared_not_inLogs {x : Addr} (h : InShared x) : ¬ InLogs x := by
  have h0 : getSharedRamStart = 0x38000000#32 := rfl
  have h1 : getSharedRamSize = 65536 := rfl
  have h2 : CircularLog.persistentLog.base = 0x38800000#32 := rfl
  have h3 : CircularLog.log + CircularLog.persistentLog.capacity = 4096 := rfl
  have h4 : CircularLog.ramLog.base = 0x30020000#32 := rfl
  have h5 : CircularLog.log + CircularLog.ramLog.capacity = 81923 := rfl
  simp only [InLogs, InShared, CircularLog.LogArea.Mem, Within, h0, h1, h2, h3, h4, h5] at *
  bv_omega

/-! ## Steps -/

def World.spend (w : World) : World := { w with power := w.power - 1 }

/-- The power is gone. -/
def World.Spent (w : World) : Prop := w.power = 0

/-- One access to the hardware. -/
def step {α : Type} (f : World → α × World) : Cut World α := fun w =>
  if w.power = 0 then (none, w) else (some (f w.spend).1, (f w.spend).2)

/-- `GetTimeNow`. -/
def getTimeNow : Cut World (BitVec 64) :=
  step fun w => (w.clock 0, { w with clock := fun n => w.clock (n + 1) })

/-- A call of the HAL that is known by its status only. -/
def halStatus : Cut World Bool :=
  step fun w => (w.hal 0, { w with hal := fun n => w.hal (n + 1) })

/-- `HAL_RNG_GenerateRandomNumber`. -/
def halRngGenerateRandomNumber : Cut World (Option Word) :=
  step fun w => (w.rng 0, { w with rng := fun n => w.rng (n + 1) })

/-- Store bytes in RAM. -/
def store (a : Addr) (bs : List Byte) : Cut World Unit :=
  step fun w => ((), { w with
    mem := write w.mem a bs
    written := fun x => w.written x || decide (Within a bs.length x) })

/-- `memset` or `platform_zeroize`. -/
def storeFill (a : Addr) (n : Nat) (b : Byte) : Cut World Unit :=
  step fun w => ((), { w with
    mem := fill w.mem a n b
    written := fun x => w.written x || decide (Within a n x) })

def cleanSharedDiceL0 : Cut World Unit := storeFill getSharedDiceL0 sharedHalf 0
def cleanSharedL0L1 : Cut World Unit := storeFill getSharedL0L1 sharedHalf 0

/-- An endless loop. -/
def hang {α : Type} : Cut World α := Cut.stop

section Step

variable {α β : Type} {f : World → α × World} {g : World → β × World} {w t : World}

theorem step_sat {Q : Option α → World → Prop} (hcut : Q none w)
    (hdone : Q (some (f w.spend).1) (f w.spend).2) : Cut.Sat (step f) w Q := by
  rw [Cut.Sat, step]
  split
  · exact hcut
  · exact hdone

theorem step_keeps {F : Cut.Frame World} (h : ∀ w, F.rel w (f w.spend).2) :
    Cut.Keeps F (step f) := by
  intro w
  have hsat : Cut.Sat (step f) w fun _ w' => F.rel w w' := step_sat (F.refl w) (h w)
  exact hsat

theorem step_some {a : α} {w' : World} (h : step f w = (some a, w')) :
    (a, w') = f w.spend := by
  rw [step] at h
  split at h
  · cases h
  · cases h
    rfl

theorem step_run (h : 0 < w.power) : step f w = (some (f w.spend).1, (f w.spend).2) := by
  have hpower : ¬ w.power = 0 := by omega
  rw [step, if_neg hpower]

theorem step_both {Q : α → World → β → World → Prop}
    (h : Q (f w.spend).1 (f w.spend).2 (g t.spend).1 (g t.spend).2) :
    Cut.Both (step f) w (step g) t Q := by
  intro a w' b t' hx hy
  have hf := step_some hx
  have hg := step_some hy
  rw [← hf, ← hg] at h
  exact h

theorem step_stopsAt (f : World → α × World) : Cut.StopsAt World.Spent (step f) := by
  intro w
  by_cases hpower : w.power = 0
  · exact Cut.Sat.of_eq (if_pos hpower) fun _ => hpower
  · exact Cut.Sat.of_eq (if_neg hpower) nofun

end Step

/-! ## What a step leaves alone -/

/-- Only bytes of `S` are written, no secret is generated or read and no image is launched. -/
structure World.Changes (S : Addr → Prop) (w w' : World) : Prop where
  mem : ∀ x, ¬ S x → w'.mem x = w.mem x
  written : ∀ x, ¬ S x → w'.written x = w.written x
  launched : w'.launched = w.launched
  generated : w'.generated = w.generated
  gets : w'.gets = w.gets

def changes (S : Addr → Prop) : Cut.Frame World where
  rel := World.Changes S
  refl _ := ⟨fun _ _ => rfl, fun _ _ => rfl, rfl, rfl, rfl⟩
  trans h1 h2 := ⟨fun x hx => (h2.mem x hx).trans (h1.mem x hx),
    fun x hx => (h2.written x hx).trans (h1.written x hx), h2.launched.trans h1.launched,
    h2.generated.trans h1.generated, h2.gets.trans h1.gets⟩

/-- Bytes of `T` are not written, and no image is launched. -/
structure World.Quiet (T : Addr → Prop) (w w' : World) : Prop where
  mem : ∀ x, T x → w'.mem x = w.mem x
  written : ∀ x, T x → w'.written x = w.written x
  launched : w'.launched = w.launched

def quiet (T : Addr → Prop) : Cut.Frame World where
  rel := World.Quiet T
  refl _ := ⟨fun _ _ => rfl, fun _ _ => rfl, rfl⟩
  trans h1 h2 := ⟨fun x hx => (h2.mem x hx).trans (h1.mem x hx),
    fun x hx => (h2.written x hx).trans (h1.written x hx), h2.launched.trans h1.launched⟩

/-- Logging and the watchdog change the logs, and read the clock. -/
structure World.LogOnly (w w' : World) : Prop where
  mem : ∀ x, ¬ InLogs x → w'.mem x = w.mem x
  written : ∀ x, ¬ InLogs x → w'.written x = w.written x
  rest : w' = { w with
    mem := w'.mem, written := w'.written, out := w'.out, clock := w'.clock, power := w'.power,
    lastRefresh := w'.lastRefresh }

def logOnly : Cut.Frame World where
  rel := World.LogOnly
  refl _ := ⟨fun _ _ => rfl, fun _ _ => rfl, rfl⟩
  trans {w1 w2 w3} h1 h2 := by
    refine ⟨fun x hx => (h2.mem x hx).trans (h1.mem x hx),
      fun x hx => (h2.written x hx).trans (h1.written x hx), ?_⟩
    rw [h2.rest, h1.rest]

section Frames

variable {S T : Addr → Prop} {w w' : World}

theorem World.Changes.trans {w1 w2 w3 : World} (h1 : w1.Changes S w2) (h2 : w2.Changes S w3) :
    w1.Changes S w3 := (VerifiedDice.changes S).trans h1 h2

theorem World.Quiet.trans {w1 w2 w3 : World} (h1 : w1.Quiet T w2) (h2 : w2.Quiet T w3) :
    w1.Quiet T w3 := (VerifiedDice.quiet T).trans h1 h2

theorem World.LogOnly.trans {w1 w2 w3 : World} (h1 : w1.LogOnly w2) (h2 : w2.LogOnly w3) :
    w1.LogOnly w3 := logOnly.trans h1 h2

theorem World.LogOnly.changes (h : w.LogOnly w') : w.Changes InLogs w' :=
  ⟨h.mem, h.written, by rw [h.rest], by rw [h.rest], by rw [h.rest]⟩

theorem World.Changes.mono (h : w.Changes S w') (hST : ∀ x, S x → T x) : w.Changes T w' :=
  ⟨fun x hx => h.mem x fun hS => hx (hST x hS), fun x hx => h.written x fun hS => hx (hST x hS),
    h.launched, h.generated, h.gets⟩

theorem World.Changes.quiet (h : w.Changes S w') (hT : ∀ x, T x → ¬ S x) : w.Quiet T w' :=
  ⟨fun x hx => h.mem x (hT x hx), fun x hx => h.written x (hT x hx), h.launched⟩

theorem World.LogOnly.quiet (h : w.LogOnly w') (hT : ∀ x, T x → ¬ InLogs x) : w.Quiet T w' :=
  h.changes.quiet hT

theorem getTimeNow_logOnly : Cut.Keeps logOnly getTimeNow :=
  step_keeps fun _ => ⟨fun _ _ => rfl, fun _ _ => rfl, rfl⟩

theorem store_changes {a : Addr} {bs : List Byte} (h : ∀ x, Within a bs.length x → S x) :
    Cut.Keeps (changes S) (store a bs) := by
  refine step_keeps fun w => ⟨fun x hx => ?_, fun x hx => ?_, rfl, rfl, rfl⟩
  · exact write_outside fun hin => hx (h x hin)
  · have hout : ¬ Within a bs.length x := fun hin => hx (h x hin)
    simp [hout, World.spend]

theorem storeFill_changes {a : Addr} {n : Nat} {b : Byte} (h : ∀ x, Within a n x → S x) :
    Cut.Keeps (changes S) (storeFill a n b) := by
  refine step_keeps fun w => ⟨fun x hx => ?_, fun x hx => ?_, rfl, rfl, rfl⟩
  · exact fill_outside fun hin => hx (h x hin)
  · have hout : ¬ Within a n x := fun hin => hx (h x hin)
    simp [hout, World.spend]

end Frames

/-! ## Steps that are enough -/

/-- With power for `n` steps the computation ends with a result after at most `n`. -/
def Runs {α : Type} (n : Nat) (x : Cut World α) : Prop :=
  ∀ w : World, n ≤ w.power → ∃ a w', x w = (some a, w') ∧ w.power ≤ w'.power + n

section Runs

variable {α β : Type} {n k : Nat} {x : Cut World α} {h : α → Cut World β}

theorem Runs.pure (a : α) : Runs 0 (pure a : Cut World α) := fun w _ => ⟨a, w, rfl, Nat.le_refl _⟩

theorem Runs.mono (hx : Runs n x) (hn : n ≤ k) : Runs k x := by
  intro w hw
  obtain ⟨a, w', hrun, hpower⟩ := hx w (by omega)
  exact ⟨a, w', hrun, by omega⟩

theorem Runs.bind (hx : Runs n x) (hh : ∀ a, Runs k (h a)) : Runs (n + k) (x >>= h) := by
  intro w hw
  obtain ⟨a, w1, hrun1, hpower1⟩ := hx w (by omega)
  obtain ⟨b, w2, hrun2, hpower2⟩ := hh a w1 (by omega)
  exact ⟨b, w2, (Cut.bind_some hrun1).trans hrun2, by omega⟩

theorem Runs.state_bind {g : World → Cut World β} (hg : ∀ w, Runs n (g w)) :
    Runs n (Cut.state >>= g) := fun w => hg w w

theorem Runs.ite {c : Prop} [Decidable c] {y : Cut World α} (hx : Runs n x) (hy : Runs n y) :
    Runs n (if c then x else y) := by
  by_cases hc : c
  · rw [if_pos hc]
    exact hx
  · rw [if_neg hc]
    exact hy

theorem Runs.step {f : World → α × World} (hf : ∀ w, (f w).2.power = w.power) :
    Runs 1 (step f) := by
  intro w hw
  refine ⟨_, _, step_run (by omega), ?_⟩
  rw [hf]
  show w.power ≤ w.power - 1 + 1
  omega

theorem Runs.isSome (hx : Runs n x) {w : World} (hpower : n ≤ w.power) : ((x w).1).isSome := by
  obtain ⟨a, w', hrun, _⟩ := hx w hpower
  rw [hrun]
  rfl

theorem store_runs (a : Addr) (bs : List Byte) : Runs 1 (store a bs) := Runs.step fun _ => rfl

theorem storeFill_runs (a : Addr) (n : Nat) (b : Byte) : Runs 1 (storeFill a n b) :=
  Runs.step fun _ => rfl

end Runs

/-! ## Resets -/

/-- `w'` is a start of the device after `w`: flash is as it was, everything else may be anything. -/
structure World.PowerCycle (w w' : World) : Prop where
  flash : ∀ x, InFlash x → w'.mem x = w.mem x
  generated : w'.generated = w.generated
  gets : w'.gets = w.gets
  written : ∀ x, w'.written x = false
  launched : w'.launched = none

/-! ## A device -/

/-- A build with all messages, for a device of which all option bytes are set as expected. -/
def plainBuild : BuildConfig where
  minLogLevel := 0
  enableWatchdog := true
  ignoreProtectionChecks := false
  setRssProtectionsAtRuntime := false
  sourceRoot := []
  timestampString := []
  gitCommitDescription := []
  versionDiceFull := 0
  versionL0Full := 0
  l0Version := 0

/-- Erased memory, a HAL without failures, the protections of RDP level 1, and a run-time level
that lets failures through. -/
def blankDevice : World where
  mem := fun _ => 0xFF
  power := 1000
  clock := fun _ => 0
  rng := fun _ => some 0x01020304
  program := fun _ => none
  torn := fun _ => 0
  hal := fun _ => true
  packageType := 5
  button := false
  optionBytes := {
    optsrCur := 0x0026BB10
    prarCur1 := 0xFF
    prarCur2 := 0xFF
    scarCur1 := 0x82030000
    scarCur2 := 0xFFF
    wpsnCur1 := 0xFF
    wpsnCur2 := 0xFE
    bootCur := 0x08000800 }
  rsr := 0
  currentLevel := .fail
  zeroTime := 0
  lastRefresh := 0
  lastResetReason := .unknown
  out := []
  flashLocked := true
  flashCalls := []
  written := fun _ => false
  generated := []
  gets := []
  launched := none

end VerifiedDice
