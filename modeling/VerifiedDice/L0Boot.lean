import VerifiedDice.DiceMain
import VerifiedDice.L0Measure

/-!
# The L0 image as a whole

`main` and `BootToL1` of the Arm port around `L0_main`, and what stands in `l1_params` when
L1 is launched, field by field.
-/
namespace VerifiedDice

open ByteMemory

/-! ## The Arm port -/

/-- How `main` of L0 and of L1 begins; the time of the start. -/
def imageStart (cfg : BuildConfig) (file : String) (line : Nat) : Cut World (BitVec 64) := do
  systemInit
  let start ← getTimeNow
  backupSramEnable cfg
  let ret ← swWatchdogInit cfg
  reportUnlessZero ret file line
  let _ ← hwRngInit
  pure start
where
  reportUnlessZero (ret : Word) (file : String) (line : Nat) : Cut World Unit :=
    if ret ≠ 0 then hwLogFail cfg file line (text "SW_Watchdog_Init() failed") else pure ()

theorem imageStart_platformOnly {cfg : BuildConfig} (file : String) (line : Nat) :
    Cut.Keeps platformOnly (imageStart cfg file line) := by
  unfold imageStart
  apply systemInit_platformOnly.bind
  intro _
  apply (platformOnly_of_logOnly getTimeNow_logOnly).bind
  intro start
  apply backupSramEnable_platformOnly.bind
  intro _
  apply Cut.Keeps.bind (Cut.Keeps.ite bothCalls_platformOnly (Cut.Keeps.pure _))
  intro ret
  apply Cut.Keeps.bind (Cut.Keeps.ite (hwLogAt_platformOnly _ _ _ _) (Cut.Keeps.pure _))
  intro _
  apply Cut.Keeps.bind (halStatus_then (halStatus_then (Cut.Keeps.pure _) (Cut.Keeps.pure _))
    (Cut.Keeps.pure _))
  intro _
  exact Cut.Keeps.pure _

namespace L0Image

variable (cfg : BuildConfig) (C : Crypto) (E : L0Engine)

def mainFile : String := "fw/L0_Image/arm/main.c"

/-- A difference of the two addresses is only logged. -/
def checkBaseAddresses (baseAddr1 baseAddr2 : Addr) : Cut World Unit :=
  if baseAddr1 ≠ baseAddr2 then
    hwLogFail cfg mainFile 29 (text "Base L1 address mismatch (0x" ++ hexWord baseAddr1 ++
      text ", 0x" ++ hexWord baseAddr2 ++ text ")")
  else pure ()

def bootToL1 : Cut World Unit := do
  let w ← Cut.state
  let baseAddr1 := Launch.baseAddr1 w.mem
  checkBaseAddresses cfg baseAddr1 Launch.baseAddr2
  hwLogInfo cfg mainFile 33 (text "Jumping to L1 at address 0x" ++ hexWord baseAddr1)
  backupSramDisable cfg
  -- `LaunchImage`
  Cut.update fun w => { w with launched := some baseAddr1 }
  hang

/-- `main` before `L0_main`. -/
def mainStart : Cut World (BitVec 64) := imageStart cfg mainFile 50

def launchIfSucceeded (ret : Word) : Cut World Unit :=
  if ret = 0 then do
    hwLogDebug cfg mainFile 67 (text "L0 succeeded. Booting L1...")
    bootToL1 cfg
  else pure ()

/-- `main` after `L0_main`, up to the launch. -/
def leave (start : BitVec 64) : Cut World Unit := do
  let _ ← hwRngDeInit
  let _ ← swWatchdogEnd cfg
  let now ← getTimeNow
  let elapsed := now - start
  hwLogInfo cfg mainFile 64
    (text "L0 Boot time: " ++ padLeft 9 (decimal (elapsed.setWidth 32)) ++ text "ms")

def main : Cut World Unit := do
  let start ← mainStart cfg
  let ret ← l0Main cfg C E
  leave cfg start
  launchIfSucceeded cfg ret
  hang

end L0Image

/-! ## The two structures -/

/-- What stands in `l0_params`. -/
structure L0ParamsView where
  versionDICE : Word
  hwMeasurement : List Byte
  cdi : List Byte

/-- What stands in `l1_params`, of the certificates as much as their lengths say. -/
structure L1ParamsView where
  versionDICE : Word
  versionL0 : Word
  hwMeasurement : List Byte
  aliasKeyPub : List Byte
  aliasKeyPriv : List Byte
  aliasKeyCert : List Byte
  deviceIDPub : List Byte
  deviceIDCsr : List Byte

def readL0Params (m : Memory) : L0ParamsView where
  versionDICE := loadWord m (at_ getSharedDiceL0 L0Params.versionDICE)
  hwMeasurement := bytesAt m (at_ getSharedDiceL0 L0Params.hwMeasurement) hwMeasurementLen
  cdi := bytesAt m (at_ getSharedDiceL0 L0Params.cdi) digestLength

def readL1Params (m : Memory) : L1ParamsView where
  versionDICE := loadWord m (at_ getSharedL0L1 L1Params.versionDICE)
  versionL0 := loadWord m (at_ getSharedL0L1 L1Params.versionL0)
  hwMeasurement := bytesAt m (at_ getSharedL0L1 L1Params.hwMeasurement) hwMeasurementLen
  aliasKeyPub := bytesAt m (at_ getSharedL0L1 L1Params.aliasKeyPub) keyLen
  aliasKeyPriv := bytesAt m (at_ getSharedL0L1 L1Params.aliasKeyPriv) keyLen
  aliasKeyCert := bytesAt m (at_ getSharedL0L1 L1Params.aliasKeyCert)
    (loadWord m (at_ getSharedL0L1 L1Params.aliasKeyCertLen)).toNat
  deviceIDPub := bytesAt m (at_ getSharedL0L1 L1Params.deviceIDPub) keyLen
  deviceIDCsr := bytesAt m (at_ getSharedL0L1 L1Params.deviceIDCsr)
    (loadWord m (at_ getSharedL0L1 L1Params.deviceIDCsrLen)).toNat

/-- A zeroed buffer behind the call that writes `part` to it. -/
def partBytes (n : Nat) (part : Nat → Option Byte) : List Byte :=
  (List.range n).map fun i => (part i).getD 0

section Expected

variable (cfg : BuildConfig) (E : L0Engine)

def csrLength : Word := E.lenOfDeviceIDCSR deviceIDCSRIngredients

def crtLength : Word :=
  E.lenOfAliasKeyCRT (aliasKeyCRTIngredients E.notBefore E.notAfter cfg.l0Version)

/-- The outputs of `l0` for a device identifier secret and a digest of L1. -/
def l0Outputs (cdi fwid : List Byte) : L0Outputs :=
  E.l0 cdi fwid l0LabelIdentity l0LabelAlias deviceIDCSRIngredients
    (aliasKeyCRTIngredients E.notBefore E.notAfter cfg.l0Version) (csrLength E) (crtLength cfg E)

/-- What L0 makes of `l0_params` and the digest of L1. -/
def l1ParamsOf (p : L0ParamsView) (fwid : List Byte) : L1ParamsView :=
  let outputs := l0Outputs cfg E p.cdi fwid
  { versionDICE := p.versionDICE
    versionL0 := cfg.versionL0Full
    hwMeasurement := p.hwMeasurement
    aliasKeyPub := partBytes keyLen outputs.aliasKeyPub
    aliasKeyPriv := partBytes keyLen outputs.aliasKeyPriv
    aliasKeyCert := partBytes (crtLength cfg E).toNat outputs.aliasKeyCRT
    deviceIDPub := partBytes keyLen outputs.deviceIDPub
    deviceIDCsr := partBytes (csrLength E).toNat outputs.deviceIDCSR }

end Expected

/-! ## Buffers written in part -/

/-- What `storePart` leaves. -/
def writePart (m : Memory) (a : Addr) (n : Nat) (part : Nat → Option Byte) : Memory := fun x =>
  if Within a n x then (part (x - a).toNat).getD (m x) else m x

theorem writePart_apart {m : Memory} {a : Addr} {k i n : Nat} {part : Nat → Option Byte}
    (h : i < k ∨ k + n ≤ i) (hi : i < 2 ^ 32) (hk : k + n ≤ 2 ^ 32) :
    writePart m (at_ a k) n part (at_ a i) = m (at_ a i) := if_neg (not_within_at h hi hk)

theorem bytesAt_writePart_self {m : Memory} {a : Addr} {k n : Nat} {part : Nat → Option Byte}
    (hk : k + n ≤ 2 ^ 32) (hzero : ∀ i, i < n → m (at_ a (k + i)) = 0) :
    bytesAt (writePart m (at_ a k) n part) (at_ a k) n = partBytes n part := by
  apply List.map_congr_left
  intro i hi
  have hin := List.mem_range.mp hi
  rw [writePart, if_pos ((within_at _ (by omega)).mpr hin), at_sub_toNat _ (by omega), at_at,
    hzero i hin]

theorem bytesAt_writePart_apart {m : Memory} {a : Addr} {j k l n : Nat} {part : Nat → Option Byte}
    (h : j + l ≤ k ∨ k + n ≤ j) (hj : j + l ≤ 2 ^ 32) (hk : k + n ≤ 2 ^ 32) :
    bytesAt (writePart m (at_ a k) n part) (at_ a j) l = bytesAt m (at_ a j) l := by
  apply bytesAt_congr
  intro i hi
  rw [at_at]
  exact writePart_apart (by omega) (by omega) hk

theorem storePart_stores (a : Addr) (n : Nat) (part : Nat → Option Byte) (w : World) :
    Cut.Sat (storePart a n part) w fun r w' =>
      ∀ u, r = some u → w'.mem = writePart w.mem a n part :=
  step_sat nofun fun _ _ => rfl

/-! ## The call of `l0` -/

/-- `l1_params` at the call of `l0`: the head is complete, the buffers are zero. -/
structure Ready (cfg : BuildConfig) (E : L0Engine) (p : L0ParamsView) (m : Memory) : Prop where
  versionDICE : loadWord m (at_ getSharedL0L1 L1Params.versionDICE) = p.versionDICE
  versionL0 : loadWord m (at_ getSharedL0L1 L1Params.versionL0) = cfg.versionL0Full
  hwMeasurement : bytesAt m (at_ getSharedL0L1 L1Params.hwMeasurement) hwMeasurementLen =
    p.hwMeasurement
  cdi : (readL0Params m).cdi = p.cdi
  lengths : LengthsStored cfg E m
  blank : ∀ i, L1Params.aliasKeyPub ≤ i ∧ i < L1Params.aliasKeyCertLen ∨
    L1Params.deviceIDPub ≤ i ∧ i < L1Params.deviceIDCsrLen → m (at_ getSharedL0L1 i) = 0

/-- The memory after `l0`, in the order in which it is given its buffers. -/
def l0Memory (m : Memory) (outputs : L0Outputs) (csrLen crtLen : Nat) : Memory :=
  let m := writePart m (at_ getSharedL0L1 L1Params.deviceIDPub) keyLen outputs.deviceIDPub
  let m := writePart m (at_ getSharedL0L1 L1Params.aliasKeyPub) keyLen outputs.aliasKeyPub
  let m := writePart m (at_ getSharedL0L1 L1Params.aliasKeyPriv) keyLen outputs.aliasKeyPriv
  let m := writePart m (at_ getSharedL0L1 L1Params.deviceIDCsr) csrLen outputs.deviceIDCSR
  writePart m (at_ getSharedL0L1 L1Params.aliasKeyCert) crtLen outputs.aliasKeyCRT

section Call

variable {cfg : BuildConfig} {E : L0Engine} {p : L0ParamsView} {m : Memory}

/-- Where the buffers and their lengths lie. -/
theorem L1Params.offsets : L1Params.aliasKeyPub = 40 ∧ L1Params.aliasKeyPriv = 72 ∧
    L1Params.aliasKeyCert = 104 ∧ L1Params.aliasKeyCertLen = 2152 ∧ L1Params.deviceIDPub = 2156 ∧
    L1Params.deviceIDCsr = 2188 ∧ L1Params.deviceIDCsrLen = 4236 ∧ L1Params.size = 4240 :=
  ⟨rfl, rfl, rfl, rfl, rfl, rfl, rfl, rfl⟩

/-- A field outside the five buffers. -/
theorem bytesAt_l0Memory_apart {outputs : L0Outputs} {csrLen crtLen j l : Nat}
    (hcsr : csrLen ≤ derMaxPem) (hcrt : crtLen ≤ derMaxPem)
    (h : j + l ≤ L1Params.aliasKeyPub ∨
      L1Params.aliasKeyCertLen ≤ j ∧ j + l ≤ L1Params.deviceIDPub ∨
      L1Params.deviceIDCsrLen ≤ j ∧ j + l ≤ L1Params.size) :
    bytesAt (l0Memory m outputs csrLen crtLen) (at_ getSharedL0L1 j) l =
      bytesAt m (at_ getSharedL0L1 j) l := by
  have hmax : derMaxPem = 2048 := rfl
  have hkey : keyLen = 32 := rfl
  obtain ⟨h1, h2, h3, h4, h5, h6, h7, h8⟩ := L1Params.offsets
  simp only [l0Memory]
  rw [bytesAt_writePart_apart (by omega) (by omega) (by omega),
    bytesAt_writePart_apart (by omega) (by omega) (by omega),
    bytesAt_writePart_apart (by omega) (by omega) (by omega),
    bytesAt_writePart_apart (by omega) (by omega) (by omega),
    bytesAt_writePart_apart (by omega) (by omega) (by omega)]

/-- `l0` fills the zeroed buffers, and the certificates stay within theirs. -/
theorem Ready.filled (h : Ready cfg E p m) (fwid : List Byte) :
    readL1Params (l0Memory m (l0Outputs cfg E p.cdi fwid) (csrLength E).toNat
      (crtLength cfg E).toNat) = l1ParamsOf cfg E p fwid := by
  have hcsr : (csrLength E).toNat ≤ derMaxPem := E.csrFits
  have hcrt : (crtLength cfg E).toNat ≤ derMaxPem := E.crtFits cfg.l0Version
  have hmax : derMaxPem = 2048 := rfl
  have hkey : keyLen = 32 := rfl
  obtain ⟨h1, h2, h3, h4, h5, h6, h7, h8⟩ := L1Params.offsets
  -- what `l0` does not touch
  have hword : ∀ {j : Nat}, j + 4 ≤ L1Params.aliasKeyPub ∨
      L1Params.aliasKeyCertLen ≤ j ∧ j + 4 ≤ L1Params.deviceIDPub ∨
      L1Params.deviceIDCsrLen ≤ j ∧ j + 4 ≤ L1Params.size →
      loadWord (l0Memory m (l0Outputs cfg E p.cdi fwid) (csrLength E).toNat
        (crtLength cfg E).toNat) (at_ getSharedL0L1 j) = loadWord m (at_ getSharedL0L1 j) :=
    fun hj => congrArg wordOfBytes (bytesAt_l0Memory_apart hcsr hcrt hj)
  have hcrtAt : loadWord m (at_ getSharedL0L1 L1Params.aliasKeyCertLen) = crtLength cfg E :=
    h.lengths.crt
  have hcsrAt : loadWord m (at_ getSharedL0L1 L1Params.deviceIDCsrLen) = csrLength E :=
    h.lengths.csr
  rw [← hword (by omega)] at hcrtAt hcsrAt
  rw [readL1Params, hcrtAt, hcsrAt, hword (by decide), hword (by decide), h.versionDICE,
    h.versionL0, bytesAt_l0Memory_apart hcsr hcrt (by decide), h.hwMeasurement]
  simp only [l0Memory, l1ParamsOf, L1ParamsView.mk.injEq, true_and]
  refine ⟨?_, ?_, ?_, ?_, ?_⟩
  · rw [bytesAt_writePart_apart (by omega) (by omega) (by omega),
      bytesAt_writePart_apart (by omega) (by omega) (by omega),
      bytesAt_writePart_apart (by omega) (by omega) (by omega)]
    apply bytesAt_writePart_self (by omega)
    intro i hi
    rw [writePart_apart (by omega) (by omega) (by omega)]
    exact h.blank _ (by omega)
  · rw [bytesAt_writePart_apart (by omega) (by omega) (by omega),
      bytesAt_writePart_apart (by omega) (by omega) (by omega)]
    apply bytesAt_writePart_self (by omega)
    intro i hi
    rw [writePart_apart (by omega) (by omega) (by omega),
      writePart_apart (by omega) (by omega) (by omega)]
    exact h.blank _ (by omega)
  · apply bytesAt_writePart_self (by omega)
    intro i hi
    rw [writePart_apart (by omega) (by omega) (by omega),
      writePart_apart (by omega) (by omega) (by omega),
      writePart_apart (by omega) (by omega) (by omega),
      writePart_apart (by omega) (by omega) (by omega)]
    exact h.blank _ (by omega)
  · rw [bytesAt_writePart_apart (by omega) (by omega) (by omega),
      bytesAt_writePart_apart (by omega) (by omega) (by omega),
      bytesAt_writePart_apart (by omega) (by omega) (by omega),
      bytesAt_writePart_apart (by omega) (by omega) (by omega)]
    apply bytesAt_writePart_self (by omega)
    intro i hi
    exact h.blank _ (by omega)
  · rw [bytesAt_writePart_apart (by omega) (by omega) (by omega)]
    apply bytesAt_writePart_self (by omega)
    intro i hi
    rw [writePart_apart (by omega) (by omega) (by omega),
      writePart_apart (by omega) (by omega) (by omega),
      writePart_apart (by omega) (by omega) (by omega)]
    exact h.blank _ (by omega)

/-- What L1 is to find. -/
structure HandedOver (cfg : BuildConfig) (E : L0Engine) (p : L0ParamsView) (fwid : List Byte)
    (m : Memory) : Prop where
  lengths : LengthsStored cfg E m
  params : readL1Params m = l1ParamsOf cfg E p fwid

theorem Ready.handedOver (h : Ready cfg E p m) (fwid : List Byte) :
    HandedOver cfg E p fwid (l0Memory m (l0Outputs cfg E p.cdi fwid) (csrLength E).toNat
      (crtLength cfg E).toNat) := by
  have hword : ∀ {j : Nat}, L1Params.aliasKeyCertLen ≤ j ∧ j + 4 ≤ L1Params.deviceIDPub ∨
      L1Params.deviceIDCsrLen ≤ j ∧ j + 4 ≤ L1Params.size →
      loadWord (l0Memory m (l0Outputs cfg E p.cdi fwid) (csrLength E).toNat
        (crtLength cfg E).toNat) (at_ getSharedL0L1 j) = loadWord m (at_ getSharedL0L1 j) :=
    fun hj => congrArg wordOfBytes
      (bytesAt_l0Memory_apart E.csrFits (E.crtFits cfg.l0Version) (Or.inr hj))
  constructor
  · constructor
    · exact (hword (by decide)).trans h.lengths.csr
    · exact (hword (by decide)).trans h.lengths.crt
  · exact h.filled fwid

/-- Nothing behind the second half is read: the certificates fit. -/
theorem HandedOver.congr {fwid : List Byte} {m' : Memory} (h : HandedOver cfg E p fwid m)
    (hm : AgreeOn InL0L1 m m') : HandedOver cfg E p fwid m' := by
  have hbytes : ∀ {k n : Nat}, k + n ≤ L1Params.size →
      bytesAt m' (at_ getSharedL0L1 k) n = bytesAt m (at_ getSharedL0L1 k) n :=
    fun hk => hm.bytesAt fun i hi => l1Params_field hk hi
  have hword : ∀ {k : Nat}, k + 4 ≤ L1Params.size →
      loadWord m' (at_ getSharedL0L1 k) = loadWord m (at_ getSharedL0L1 k) :=
    fun hk => congrArg wordOfBytes (hbytes hk)
  have hcsr : (csrLength E).toNat ≤ derMaxPem := E.csrFits
  have hcrt : (crtLength cfg E).toNat ≤ derMaxPem := E.crtFits cfg.l0Version
  have hmax : derMaxPem = 2048 := rfl
  have hcrtAt : loadWord m (at_ getSharedL0L1 L1Params.aliasKeyCertLen) = crtLength cfg E :=
    h.lengths.crt
  have hcsrAt : loadWord m (at_ getSharedL0L1 L1Params.deviceIDCsrLen) = csrLength E :=
    h.lengths.csr
  have hcert : L1Params.aliasKeyCert + derMaxPem ≤ L1Params.size := by decide
  have hreq : L1Params.deviceIDCsr + derMaxPem ≤ L1Params.size := by decide
  constructor
  · constructor
    · exact (hword (by decide)).trans h.lengths.csr
    · exact (hword (by decide)).trans h.lengths.crt
  · rw [← h.params, readL1Params, readL1Params, hword (by decide), hword (by decide),
      hword (by decide), hword (by decide), hcrtAt, hcsrAt, hbytes (by decide),
      hbytes (by decide), hbytes (by decide), hbytes (by omega), hbytes (by decide),
      hbytes (by omega)]

theorem Ready.congr {m' : Memory} (h : Ready cfg E p m) (hm : AgreeOn InShared m m') :
    Ready cfg E p m' := by
  have hl1 : AgreeOn InL0L1 m m' := hm.mono fun x hx => (inShared_iff x).mpr (Or.inr hx)
  have hbytes : ∀ {k n : Nat}, k + n ≤ L1Params.size →
      bytesAt m' (at_ getSharedL0L1 k) n = bytesAt m (at_ getSharedL0L1 k) n :=
    fun hk => hl1.bytesAt fun i hi => l1Params_field hk hi
  have hword : ∀ {k : Nat}, k + 4 ≤ L1Params.size →
      loadWord m' (at_ getSharedL0L1 k) = loadWord m (at_ getSharedL0L1 k) :=
    fun hk => congrArg wordOfBytes (hbytes hk)
  have hcdi : (readL0Params m').cdi = (readL0Params m).cdi := by
    apply hm.bytesAt
    intro i hi
    exact inHandover_inShared (Or.inr (l0Params_field (by decide) hi))
  constructor
  · exact (hword (by decide)).trans h.versionDICE
  · exact (hword (by decide)).trans h.versionL0
  · exact (hbytes (by decide)).trans h.hwMeasurement
  · exact hcdi.trans h.cdi
  · exact ⟨(hword (by decide)).trans h.lengths.csr, (hword (by decide)).trans h.lengths.crt⟩
  · intro i hi
    have hin : i < sharedHalf := by
      have hcrtLen : L1Params.aliasKeyCertLen ≤ sharedHalf := by decide
      have hcsrLen : L1Params.deviceIDCsrLen ≤ sharedHalf := by decide
      omega
    have hhalf : sharedHalf = 32768 := rfl
    rw [hl1 _ ((within_at _ (by omega)).mpr hin)]
    exact h.blank i hi

theorem logged_shared {w w' : World} (h : w.LogOnly w') : AgreeOn InShared w.mem w'.mem :=
  fun x hx => h.mem x (shared_not_inLogs hx)

theorem callL0_fills {w : World} (h : Ready cfg E p w.mem) (fwid : List Byte) :
    Cut.Sat (callL0 cfg E fwid getSharedDiceL0 getSharedL0L1) w fun r w' =>
      ∀ u, r = some u → HandedOver cfg E p fwid w'.mem := by
  have hcdi : bytesAt w.mem (at_ getSharedDiceL0 L0Params.cdi) digestLength = p.cdi := h.cdi
  have hdone := h.handedOver fwid
  let T : Unit → World → Prop := fun _ w' => HandedOver cfg E p fwid w'.mem
  unfold callL0
  apply Cut.Sat.state_bind
  simp only [h.lengths.csr, h.lengths.crt, hcdi]
  apply Cut.Sat.bind_result (T := T) (storePart_stores _ _ _ w)
  intro _ w1 h1
  apply Cut.Sat.bind_result (T := T) (storePart_stores _ _ _ w1)
  intro _ w2 h2
  apply Cut.Sat.bind_result (T := T) (storePart_stores _ _ _ w2)
  intro _ w3 h3
  apply Cut.Sat.bind_result (T := T) (storePart_stores _ _ _ w3)
  intro _ w4 h4
  apply (storePart_stores _ _ _ w4).mono
  intro r w5 h5 u hu
  show HandedOver cfg E p fwid w5.mem
  rw [h5 u hu, h4 () rfl, h3 () rfl, h2 () rfl, h1 () rfl]
  exact hdone

end Call

/-! ## L0HandleArgs -/

theorem halves_apart {x : Addr} (hdice : InDiceL0 x) (hl1 : InL0L1 x) : False := by
  have h0 : getSharedDiceL0 = 0x38000000#32 := rfl
  have h1 : getSharedL0L1 = 0x38008000#32 := rfl
  have h2 : sharedHalf = 32768 := rfl
  simp only [InDiceL0, InL0L1, Within, h0, h1, h2] at *
  bv_omega

/-- `l1_params` behind the first three stores. -/
structure Headed (cfg : BuildConfig) (p : L0ParamsView) (m : Memory) : Prop where
  versionDICE : loadWord m (at_ getSharedL0L1 L1Params.versionDICE) = p.versionDICE
  versionL0 : loadWord m (at_ getSharedL0L1 L1Params.versionL0) = cfg.versionL0Full
  hwMeasurement : bytesAt m (at_ getSharedL0L1 L1Params.hwMeasurement) hwMeasurementLen =
    p.hwMeasurement
  cdi : (readL0Params m).cdi = p.cdi
  blank : ∀ i, L1Params.aliasKeyPub ≤ i → i < L1Params.size → m (at_ getSharedL0L1 i) = 0

theorem l0Params_inDice {k n : Nat} (h : k + n ≤ L0Params.size) {i : Nat} (hi : i < n) :
    InDiceL0 (at_ (at_ getSharedDiceL0 k) i) := by
  have hsize : L0Params.size ≤ sharedHalf := by decide
  exact Nat.lt_of_lt_of_le (l0Params_field h hi) hsize

theorem readL0Params_congr {m m' : Memory} (h : AgreeOn InDiceL0 m m') :
    readL0Params m' = readL0Params m := by
  rw [readL0Params, readL0Params,
    h.loadWord fun i hi => l0Params_inDice (k := L0Params.versionDICE) (by decide) hi,
    h.bytesAt fun i hi => l0Params_inDice (k := L0Params.hwMeasurement) (by decide) hi,
    h.bytesAt fun i hi => l0Params_inDice (k := L0Params.cdi) (by decide) hi]

section HandleArgs

variable {cfg : BuildConfig} {C : Crypto} {E : L0Engine} {p : L0ParamsView}

/-- The two lengths make it ready for the call. -/
theorem Headed.ready {m : Memory} (h : Headed cfg p m) :
    Ready cfg E p (storeWord (storeWord m (at_ getSharedL0L1 L1Params.deviceIDCsrLen)
      (csrLength E)) (at_ getSharedL0L1 L1Params.aliasKeyCertLen) (crtLength cfg E)) := by
  obtain ⟨h1, _, _, h4, h5, _, h7, h8⟩ := L1Params.offsets
  have hlen : ∀ v : Word, (bytesOfWord v).length = 4 := length_bytesOfWord
  have hbyte : ∀ {i : Nat}, i < L1Params.size →
      (i < L1Params.aliasKeyCertLen ∨ L1Params.aliasKeyCertLen + 4 ≤ i) →
      i < L1Params.deviceIDCsrLen →
      storeWord (storeWord m (at_ getSharedL0L1 L1Params.deviceIDCsrLen) (csrLength E))
        (at_ getSharedL0L1 L1Params.aliasKeyCertLen) (crtLength cfg E) (at_ getSharedL0L1 i) =
      m (at_ getSharedL0L1 i) := by
    intro i hi hcrt hcsr
    rw [storeWord, storeWord, write_apart (by rw [hlen]; omega) (by omega) (by rw [hlen]; omega),
      write_apart (by rw [hlen]; omega) (by omega) (by rw [hlen]; omega)]
  have hbytes : ∀ {k n : Nat}, k + n ≤ L1Params.aliasKeyPub →
      bytesAt (storeWord (storeWord m (at_ getSharedL0L1 L1Params.deviceIDCsrLen) (csrLength E))
        (at_ getSharedL0L1 L1Params.aliasKeyCertLen) (crtLength cfg E)) (at_ getSharedL0L1 k) n =
      bytesAt m (at_ getSharedL0L1 k) n := by
    intro k n hk
    apply bytesAt_congr
    intro i hi
    rw [at_at]
    exact hbyte (by omega) (by omega) (by omega)
  constructor
  · exact (congrArg wordOfBytes (hbytes (by decide))).trans h.versionDICE
  · exact (congrArg wordOfBytes (hbytes (by decide))).trans h.versionL0
  · exact (hbytes (by decide)).trans h.hwMeasurement
  · rw [← h.cdi]
    apply bytesAt_congr
    intro i hi
    have hapart : ∀ {k : Nat}, k + 4 ≤ L1Params.size →
        ¬ Within (at_ getSharedL0L1 k) 4 (at_ (at_ getSharedDiceL0 L0Params.cdi) i) := by
      intro k hk hin
      apply halves_apart (l0Params_inDice (k := L0Params.cdi) (by decide) hi)
      exact within_sub_range (Nat.le_trans hk (by decide)) (by omega) hin
    rw [storeWord_outside (hapart (by decide)), storeWord_outside (hapart (by decide))]
  · constructor
    · rw [storeWord, loadWord_write_apart (by rw [hlen]; omega) (by omega) (by rw [hlen]; omega)]
      exact loadWord_storeWord _ _ _ (by decide)
    · exact loadWord_storeWord _ _ _ (by decide)
  · intro i hi
    rw [hbyte (by omega) (by omega) (by omega)]
    exact h.blank i (by omega) (by omega)

theorem l0Core_computes {l1Base : Addr} {l1Size : Word} (hbase : l1Base ≠ 0) {w : World}
    (h : Headed cfg p w.mem) :
    Cut.Sat (l0Core cfg C E l1Base l1Size getSharedDiceL0 getSharedL0L1) w fun r w' =>
      ∀ u, r = some u →
        HandedOver cfg E p (C.sha256 (bytesAt w.mem l1Base l1Size.toNat)) w'.mem := by
  let T : Unit → World → Prop := fun _ w' =>
    HandedOver cfg E p (C.sha256 (bytesAt w.mem l1Base l1Size.toNat)) w'.mem
  have hargs : ¬ (l1Base = 0 ∨ getSharedDiceL0 = 0 ∨ getSharedL0L1 = 0) := by
    rintro (hl1Base | hdice | hl1)
    · exact hbase hl1Base
    · exact absurd hdice (by decide)
    · exact absurd hl1 (by decide)
  unfold l0Core
  rw [if_neg hargs]
  apply Cut.Sat.state_bind
  apply Cut.Sat.bind_result (T := T) (store_stores _ _ w)
  intro _ w1 h1
  apply Cut.Sat.bind_result (T := T) (store_stores _ _ w1)
  intro _ w2 h2
  have hready : Ready cfg E p w2.mem := by
    rw [h2 rfl, h1 rfl]
    exact h.ready
  apply Cut.Sat.bind_result (T := T) ((hwLogAt_logOnly cfg .debug _ _ _).sat w2)
  intro _ w3 h3
  apply Cut.Sat.bind_result (T := T) (callL0_fills (hready.congr (logged_shared h3)) _)
  intro _ w4 h4
  apply ((hwLogAt_logOnly cfg .debug _ _ _).sat w4).mono
  intro _ w5 h5 _ _
  apply (h4 () rfl).congr
  intro x hx
  exact logged_shared h5 x ((inShared_iff x).mpr (Or.inr hx))

/-- The three stores before the core, on a half that is zero. -/
theorem headed_stores {m : Memory} (hzero : ∀ i, i < L1Params.size → m (at_ getSharedL0L1 i) = 0) :
    Headed cfg (readL0Params m) (write (write (write m
      (at_ getSharedL0L1 L1Params.versionDICE) (bytesOfWord (readL0Params m).versionDICE))
      (at_ getSharedL0L1 L1Params.versionL0) (bytesOfWord cfg.versionL0Full))
      (at_ getSharedL0L1 L1Params.hwMeasurement) (readL0Params m).hwMeasurement) := by
  have hlen : ∀ v : Word, (bytesOfWord v).length = 4 := length_bytesOfWord
  have hmeasure : (readL0Params m).hwMeasurement.length = hwMeasurementLen := length_bytesAt _ _ _
  have h1 : L1Params.versionDICE = 0 := rfl
  have h2 : L1Params.versionL0 = 4 := rfl
  have h3 : L1Params.hwMeasurement = 8 := rfl
  have h4 : hwMeasurementLen = 32 := rfl
  have h5 : L1Params.aliasKeyPub = 40 := rfl
  have h6 : L1Params.size = 4240 := rfl
  constructor
  · rw [loadWord_write_apart (by omega) (by omega) (by omega),
      loadWord_write_apart (by rw [hlen]; omega) (by omega) (by rw [hlen]; omega)]
    exact loadWord_storeWord _ _ _ (by decide)
  · rw [loadWord_write_apart (by omega) (by omega) (by omega)]
    exact loadWord_storeWord _ _ _ (by decide)
  · have hself := bytesAt_write_self (write (write m (at_ getSharedL0L1 L1Params.versionDICE)
      (bytesOfWord (readL0Params m).versionDICE)) (at_ getSharedL0L1 L1Params.versionL0)
      (bytesOfWord cfg.versionL0Full)) (at_ getSharedL0L1 L1Params.hwMeasurement)
      (readL0Params m).hwMeasurement (by omega)
    rwa [hmeasure] at hself
  · have hapart : ∀ {i k n : Nat}, i < digestLength → k + n ≤ L1Params.size →
        ¬ Within (at_ getSharedL0L1 k) n (at_ (at_ getSharedDiceL0 L0Params.cdi) i) := by
      intro i k n hi hk hin
      apply halves_apart (l0Params_inDice (k := L0Params.cdi) (by decide) hi)
      exact within_sub_range (Nat.le_trans hk (by decide)) (by omega) hin
    apply bytesAt_congr
    intro i hi
    rw [write_outside (hapart hi (by rw [hmeasure]; omega)),
      write_outside (hapart hi (by rw [hlen]; omega)),
      write_outside (hapart hi (by rw [hlen]; omega))]
  · intro i hlo hi
    rw [write_apart (by omega) (by omega) (by omega),
      write_apart (by rw [hlen]; omega) (by omega) (by rw [hlen]; omega),
      write_apart (by rw [hlen]; omega) (by omega) (by rw [hlen]; omega)]
    exact hzero i hi

/-- `L0HandleArgs` on a half that is zero. -/
theorem l0HandleArgs_computes {l1Base : Addr} {l1Size : Word} (hbase : l1Base ≠ 0) {w : World}
    (hzero : ∀ i, i < L1Params.size → w.mem (at_ getSharedL0L1 i) = 0) :
    Cut.Sat (l0HandleArgs cfg C E l1Base l1Size getSharedDiceL0 getSharedL0L1) w fun r w' =>
      ∀ u, r = some u → ∃ m, AgreeOn (fun x => ¬ InL0L1 x) w.mem m ∧ HandedOver cfg E
        (readL0Params w.mem) (C.sha256 (bytesAt m l1Base l1Size.toNat)) w'.mem := by
  have hlen : ∀ v : Word, (bytesOfWord v).length = 4 := length_bytesOfWord
  have hl1 : ∀ {k : Nat} {bs : List Byte} {m : Memory} {x : Addr}, k + bs.length ≤ L1Params.size →
      ¬ InL0L1 x → write m (at_ getSharedL0L1 k) bs x = m x := by
    intro k bs m x hk hx
    have hsize : L1Params.size ≤ sharedHalf := by decide
    have hhalf : sharedHalf = 32768 := rfl
    apply write_outside
    intro hin
    exact hx (within_sub_range (Nat.le_trans hk hsize) (by omega) hin)
  let T : Unit → World → Prop := fun _ w' => ∃ m, AgreeOn (fun x => ¬ InL0L1 x) w.mem m ∧
    HandedOver cfg E (readL0Params w.mem) (C.sha256 (bytesAt m l1Base l1Size.toNat)) w'.mem
  unfold l0HandleArgs
  apply Cut.Sat.state_bind
  apply Cut.Sat.bind_result (T := T) (store_stores _ _ w)
  intro _ w1 h1
  apply Cut.Sat.bind_result (T := T) (store_stores _ _ w1)
  intro _ w2 h2
  apply Cut.Sat.state_bind
  have hapart : ∀ x, ¬ InL0L1 x → w2.mem x = w.mem x := by
    intro x hx
    rw [h2 rfl, h1 rfl, hl1 (by rw [hlen]; decide) hx, hl1 (by rw [hlen]; decide) hx]
  have hmeasure : bytesAt w2.mem (at_ getSharedDiceL0 L0Params.hwMeasurement) hwMeasurementLen =
      (readL0Params w.mem).hwMeasurement := by
    apply bytesAt_congr
    intro i hi
    apply hapart
    have hdice := l0Params_inDice (k := L0Params.hwMeasurement) (by decide) hi
    exact fun hin => halves_apart hdice hin
  apply Cut.Sat.bind_result (T := T) (store_stores _ _ w2)
  intro _ w3 h3
  have hmem := h3 rfl
  rw [hmeasure, h2 rfl, h1 rfl] at hmem
  have hheaded : Headed cfg (readL0Params w.mem) w3.mem := by
    rw [hmem]
    exact headed_stores hzero
  apply (l0Core_computes hbase hheaded).mono
  intro r w4 h4 u hu
  refine ⟨w3.mem, ?_, h4 u hu⟩
  intro x hx
  have hfits : L1Params.hwMeasurement + (readL0Params w.mem).hwMeasurement.length ≤
      L1Params.size := by
    rw [readL0Params, length_bytesAt]
    decide
  rw [h3 rfl, hmeasure, hl1 hfits hx, hapart x hx]

end HandleArgs

/-! ## RunL0 -/

theorem flash_notInRam {x : Addr} (h : InFlash x) : ¬ InRam x := by
  rintro (hshared | hlog)
  · exact shared_notFlash hshared h
  · exact inLogs_notFlash hlog h

section RunL0

variable {cfg : BuildConfig} {C : Crypto} {E : L0Engine}

/-- What `RunL0` leaves for L1, with the digest of the range it measures: of the bytes in the half
that is cleaned first, only what `L0HandleArgs` writes there may belong to it. -/
theorem runL0_computes (w : World) : Cut.Sat (runL0 cfg C E) w fun r w' =>
    ∀ u, r = some u → ∃ m, AgreeOn (fun x => ¬ InL0L1 x) w.mem m ∧
      HandedOver cfg E (readL0Params w.mem) (C.sha256 (bytesAt m (Launch.measuredL1 w.mem).start
        (Launch.measuredL1 w.mem).size.toNat)) w'.mem := by
  let T : Unit → World → Prop := fun _ w' => ∃ m, AgreeOn (fun x => ¬ InL0L1 x) w.mem m ∧
    HandedOver cfg E (readL0Params w.mem) (C.sha256 (bytesAt m (Launch.measuredL1 w.mem).start
      (Launch.measuredL1 w.mem).size.toNat)) w'.mem
  have hmeasured : ∀ m : Memory, Launch.measuredL1 (fill m getSharedL0L1 sharedHalf 0) =
      Launch.measuredL1 m := fun m => measuredL1_congr fun x hx =>
    fill_outside fun hin => inL1Header_notShared hx ((inShared_iff x).mpr (Or.inr hin))
  unfold runL0
  apply Cut.Sat.bind_result (T := T) (storeFill_fills getSharedL0L1 sharedHalf 0 w)
  intro _ w1 h1
  have hw1 : w1.mem = fill w.mem getSharedL0L1 sharedHalf 0 := h1 rfl
  apply Cut.Sat.state_bind
  have hzero : ∀ i, i < L1Params.size → w1.mem (at_ getSharedL0L1 i) = 0 := by
    intro i hi
    have hsize : L1Params.size ≤ sharedHalf := by decide
    have hhalf : sharedHalf = 32768 := rfl
    rw [hw1]
    exact fill_inside ((within_at _ (by omega)).mpr (by omega))
  have hparams : readL0Params w1.mem = readL0Params w.mem := by
    apply readL0Params_congr
    intro x hx
    rw [hw1]
    exact fill_outside fun hin => halves_apart hx hin
  have hbase : (Launch.measuredL1 w1.mem).start ≠ 0 := by
    show getL1ImageStart + BitVec.ofNat 32 firmwareImageOffset ≠ 0
    decide
  apply Cut.Sat.bind_result (T := T) (l0HandleArgs_computes hbase hzero)
  intro _ w2 h2
  obtain ⟨m, hm, hover⟩ := h2 () rfl
  rw [hparams, hw1, hmeasured] at hover
  apply (storeFill_fills getSharedDiceL0 sharedHalf 0 w2).mono
  intro r w3 h3 u hu
  have hw3 : w3.mem = fill w2.mem getSharedDiceL0 sharedHalf 0 := h3 hu
  refine ⟨m, ?_, hover.congr ?_⟩
  · intro x hx
    rw [hm x hx, hw1]
    exact fill_outside hx
  · intro x hx
    rw [hw3]
    exact fill_outside fun hin => halves_apart hin hx

/-- The firmware of L1 as the header gives it is in flash. -/
def MeasuredInFlash (m : Memory) : Prop :=
  ∀ i, i < (Launch.measuredL1 m).size.toNat → InFlash (at_ (Launch.measuredL1 m).start i)

/-- What a completed `RunL0` leaves for L1. -/
structure L0Done (cfg : BuildConfig) (C : Crypto) (E : L0Engine) (m m' : Memory) : Prop where
  handedOver : ∃ fwid, HandedOver cfg E (readL0Params m) fwid m' ∧
    (MeasuredInFlash m → fwid = C.sha256 (bytesAt m (Launch.measuredL1 m).start
      (Launch.measuredL1 m).size.toNat))
  cleaned : ∀ x, InDiceL0 x → m' x = 0

theorem runL0_done (w : World) : Cut.Sat (runL0 cfg C E) w fun r w' =>
    ∀ u, r = some u → L0Done cfg C E w.mem w'.mem := by
  apply ((runL0_computes w).and (runL0_cleans w)).mono
  rintro r w' ⟨hcomputes, hclean⟩ u hu
  obtain ⟨m, hm, hover⟩ := hcomputes u hu
  constructor
  · refine ⟨_, hover, ?_⟩
    intro hflash
    congr 1
    apply bytesAt_congr
    intro i hi
    apply hm
    intro hin
    exact shared_notFlash ((inShared_iff _).mpr (Or.inr hin)) (hflash i hi)
  · exact hclean hu

/-- What was logged before does not matter. -/
theorem L0Done.before {m0 m m' : Memory} (h : L0Done cfg C E m m')
    (hm : AgreeOn (fun x => ¬ InLogs x) m0 m) : L0Done cfg C E m0 m' := by
  have hparams : readL0Params m = readL0Params m0 := readL0Params_congr fun x hx =>
    hm x (shared_not_inLogs ((inShared_iff x).mpr (Or.inl hx)))
  have hflash : ∀ x, InFlash x → m x = m0 x := fun x hx =>
    hm x fun hlog => inLogs_notFlash hlog hx
  have hmeasured : Launch.measuredL1 m = Launch.measuredL1 m0 := measuredL1_congr fun x hx =>
    hflash x (inL1Header_inFlash hx)
  obtain ⟨fwid, hover, hfwid⟩ := h.handedOver
  rw [hparams] at hover
  constructor
  · refine ⟨fwid, hover, ?_⟩
    intro hin
    rw [MeasuredInFlash, hmeasured] at hfwid
    rw [hfwid hin]
    congr 1
    exact bytesAt_congr fun i hi => hflash _ (hin i hi)
  · exact h.cleaned

/-- Nor what is logged afterwards. -/
theorem L0Done.logged {m m1 m2 : Memory} (h : L0Done cfg C E m m1)
    (hm : AgreeOn (fun x => ¬ InLogs x) m1 m2) : L0Done cfg C E m m2 := by
  have hshared : AgreeOn InShared m1 m2 := hm.mono fun x hx => shared_not_inLogs hx
  obtain ⟨fwid, hover, hfwid⟩ := h.handedOver
  constructor
  · refine ⟨fwid, hover.congr ?_, hfwid⟩
    exact hshared.mono fun x hx => (inShared_iff x).mpr (Or.inr hx)
  · intro x hx
    rw [hshared x ((inShared_iff x).mpr (Or.inl hx))]
    exact h.cleaned x hx

end RunL0

/-! ## Up to the launch -/

namespace L0Image

variable {cfg : BuildConfig} {C : Crypto} {E : L0Engine}

theorem leave_platformOnly (start : BitVec 64) : Cut.Keeps platformOnly (leave cfg start) := by
  unfold leave
  apply Cut.Keeps.bind (halStatus_then (Cut.Keeps.pure _) (Cut.Keeps.pure _))
  intro _
  apply Cut.Keeps.bind (Cut.Keeps.ite bothCalls_platformOnly (Cut.Keeps.pure _))
  intro _
  apply (platformOnly_of_logOnly getTimeNow_logOnly).bind
  intro now
  exact hwLogAt_platformOnly _ _ _ _

/-- How the image ends that was entered with `m`: before the launch, or at it. -/
structure Launched (cfg : BuildConfig) (C : Crypto) (E : L0Engine) (m : Memory) (w' : World) :
    Prop where
  target : w'.launched = some (Launch.baseAddr1 m)
  done : L0Done cfg C E m w'.mem
  kept : ∀ x, ¬ InRam x → w'.mem x = m x

/-- The address is read from flash. -/
theorem baseAddr1_congr {m m' : Memory} (h : AgreeOn InFlash m m') :
    Launch.baseAddr1 m' = Launch.baseAddr1 m := by
  have hload : loadWord m' (at_ getL0ImageStart ImageHeader.nextImageOffset) =
      loadWord m (at_ getL0ImageStart ImageHeader.nextImageOffset) := by
    apply h.loadWord
    have hroom : (at_ getL0ImageStart ImageHeader.nextImageOffset - getFlashStart).toNat + 4 ≤
        2 * 1024 * 1024 := by decide
    intro i hi
    rw [← at_sub getFlashStart (at_ getL0ImageStart _), InFlash, at_at, within_at _ (by omega)]
    omega
  rw [Launch.baseAddr1, Launch.baseAddr1, hload]

theorem l0Main_done (w : World) : Cut.Sat (l0Main cfg C E) w fun r w' => w.Changes InRam w' ∧
    ∀ v, r = some v → v = 0 ∧ L0Done cfg C E w.mem w'.mem := by
  have hram : ∀ {u u' : World}, u.LogOnly u' → u.Changes InRam u' :=
    fun h => h.changes.mono fun _ => Or.inr
  unfold l0Main
  apply (watchdogReload_logOnly.sat w).bind _ fun _ h1 => ⟨hram h1, nofun⟩
  intro _ w1 h1
  apply ((hwLogInfoStr_logOnly cfg _).sat w1).bind _ fun _ h2 => ⟨hram (h1.trans h2), nofun⟩
  intro _ w2 h2
  apply (watchdogReload_logOnly.sat w2).bind _
    fun _ h3 => ⟨hram ((h1.trans h2).trans h3), nofun⟩
  intro _ w3 h3
  have h13 := (h1.trans h2).trans h3
  apply ((runL0_changes w3).and (runL0_done w3)).bind _ fun _ h4 => ⟨(hram h13).trans h4.1, nofun⟩
  intro _ w4 h4
  apply Cut.Sat.pure
  constructor
  · exact (hram h13).trans h4.1
  · rintro v ⟨⟩
    exact ⟨rfl, (h4.2 () rfl).before h13.mem⟩

/-- The launch is the last that happens. -/
theorem bootToL1_launches {m : Memory} {w : World} (hnone : w.launched = none)
    (hdone : L0Done cfg C E m w.mem) (hkept : ∀ x, ¬ InRam x → w.mem x = m x) :
    Cut.Sat (bootToL1 cfg) w fun _ w' => w'.launched = none ∨ Launched cfg C E m w' := by
  have hflash : AgreeOn InFlash m w.mem := fun x hx => hkept x (flash_notInRam hx)
  unfold bootToL1
  apply Cut.Sat.state_bind
  rw [baseAddr1_congr hflash]
  apply Cut.Sat.bind (Cut.Keeps.sat (F := platformOnly)
    (Cut.Keeps.ite (hwLogAt_platformOnly _ _ _ _) (Cut.Keeps.pure _)) w)
  · intro _ w1 h1
    apply ((hwLogAt_platformOnly .info mainFile 33 _).sat w1).bind
    · intro _ w2 h2
      apply (backupSramDisable_platformOnly.sat w2).bind
      · intro _ w3 h3
        have h13 := platformOnly.trans (platformOnly.trans h1 h2) h3
        apply Cut.Sat.update_bind
        apply Cut.Sat.stop
        right
        constructor
        · rfl
        · exact hdone.logged h13.mem
        · intro x hx
          rw [← hkept x hx]
          exact h13.mem x fun hlog => hx (Or.inr hlog)
      · intro w3 h3
        have h13 := platformOnly.trans (platformOnly.trans h1 h2) h3
        exact Or.inl (h13.changes.launched.trans hnone)
    · intro w2 h2
      exact Or.inl ((platformOnly.trans h1 h2).changes.launched.trans hnone)
  · intro w1 h1
    exact Or.inl (h1.changes.launched.trans hnone)

/-- Whatever the hardware answers and wherever the power goes: L1 is launched behind a complete
`RunL0` or not at all. -/
theorem main_launches {w : World} (hnone : w.launched = none) :
    Cut.Sat (main cfg C E) w fun _ w' => w'.launched = none ∨ Launched cfg C E w.mem w' := by
  have hram : ∀ {u u' : World}, u.PlatformOnly u' → u.Changes InRam u' :=
    fun h => h.changes.mono fun _ => Or.inr
  unfold main
  apply ((imageStart_platformOnly mainFile 50).sat w).bind
  · intro start w1 h1
    apply (l0Main_done w1).bind
    · rintro ret w2 ⟨h2, hdone⟩
      obtain ⟨rfl, hleft⟩ := hdone ret rfl
      have h12 := (hram h1).trans h2
      apply ((leave_platformOnly start).sat w2).bind
      · intro _ w3 h3
        have h13 := h12.trans (hram h3)
        unfold launchIfSucceeded
        rw [if_pos rfl]
        apply Cut.Sat.bind (P := fun _ w' => w'.launched = none ∨ Launched cfg C E w.mem w')
        · apply ((hwLogAt_platformOnly .debug mainFile 67 _).sat w3).bind
          · intro _ w4 h4
            have h14 := h13.trans (hram h4)
            apply bootToL1_launches (h14.launched.trans hnone)
            · exact (hleft.before h1.mem).logged (platformOnly.trans h3 h4).mem
            · exact h14.mem
          · intro w4 h4
            exact Or.inl ((h13.trans (hram h4)).launched.trans hnone)
        · intro _ w4 h4
          exact Cut.Sat.stop h4
        · intro w4 h4
          exact h4
      · intro w3 h3
        exact Or.inl ((h12.trans (hram h3)).launched.trans hnone)
    · intro w2 h2
      exact Or.inl (((hram h1).trans h2.1).launched.trans hnone)
  · intro w1 h1
    exact Or.inl (h1.changes.launched.trans hnone)

end L0Image

end VerifiedDice
