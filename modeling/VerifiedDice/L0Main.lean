import VerifiedDice.Flash
import VerifiedDice.Launch
import VerifiedDice.Logger

/-!
# The L0 image

`L0_main`, `RunL0` and the L0 engine. The verified core `l0` is not part of this
repository: here it computes from its arguments what to write to each of its output
buffers, all of it or a part.
-/
namespace VerifiedDice

open ByteMemory

/-! ## The core -/

/-- `deviceIDCSR_ingredients_t`. -/
structure DeviceIDCSRIngredients where
  ku : Word
  version : Word
  sCommon : Text
  sOrg : Text
  sCountry : Text

/-- `aliasKeyCRT_ingredients_t`. -/
structure AliasKeyCRTIngredients where
  version : Word
  serialNumber : List Byte
  iCommon : Text
  iOrg : Text
  iCountry : Text
  notBefore : Text
  notAfter : Text
  sCommon : Text
  sOrg : Text
  sCountry : Text
  ku : Word
  l0Version : Word

/-- The bytes that `l0` writes to each output buffer, by index. -/
structure L0Outputs where
  deviceIDPub : Nat → Option Byte
  aliasKeyPub : Nat → Option Byte
  aliasKeyPriv : Nat → Option Byte
  deviceIDCSR : Nat → Option Byte
  aliasKeyCRT : Nat → Option Byte

def deviceSubjectCommonName : Text := text "Device Identity"
def aliasSubjectCommonName : Text := text "Alias Key"
def organization : Text := text "Microsoft"
def country : Text := text "IN"

def deviceIDCSRIngredients : DeviceIDCSRIngredients where
  ku := 0x04
  version := 2
  sCommon := deviceSubjectCommonName
  sOrg := organization
  sCountry := country

/-- The ingredients of the alias certificate, with the validity dates of the core. -/
def aliasKeyCRTIngredients (notBefore notAfter : Text) (l0Version : Word) :
    AliasKeyCRTIngredients where
  version := 2
  serialNumber := [0x27, 0x48, 0x4B, 0xD6, 0xF2, 0x10, 0xB4, 0xDA]
  iCommon := deviceSubjectCommonName
  iOrg := organization
  iCountry := country
  notBefore := notBefore
  notAfter := notAfter
  sCommon := aliasSubjectCommonName
  sOrg := organization
  sCountry := country
  ku := 0x04
  l0Version := l0Version

/-- `l0`, the lengths of its certificates and its dates; the certificates fit their buffers. -/
structure L0Engine where
  notBefore : Text
  notAfter : Text
  lenOfDeviceIDCSR : DeviceIDCSRIngredients → Word
  lenOfAliasKeyCRT : AliasKeyCRTIngredients → Word
  l0 : (cdi fwid deviceIDLbl aliasKeyLbl : List Byte) → DeviceIDCSRIngredients →
    AliasKeyCRTIngredients → (deviceIDCSRLen aliasKeyCRTLen : Word) → L0Outputs
  csrFits : (lenOfDeviceIDCSR deviceIDCSRIngredients).toNat ≤ derMaxPem
  crtFits : ∀ v, (lenOfAliasKeyCRT (aliasKeyCRTIngredients notBefore notAfter v)).toNat ≤ derMaxPem

def l0LabelIdentity : Text := text "Identity"
def l0LabelAlias : Text := text "Alias"

/-- A buffer of `n` bytes at `a`, written in part. -/
def storePart (a : Addr) (n : Nat) (part : Nat → Option Byte) : Cut World Unit :=
  step fun w => ((), { w with
    mem := fun x => if Within a n x then (part (x - a).toNat).getD (w.mem x) else w.mem x
    written := fun x => w.written x || decide (Within a n x) })

/-! ## l0_engine.c -/

section Engine

variable (cfg : BuildConfig) (C : Crypto) (E : L0Engine)

def l0EngineFile : String := "core/l0_engine/l0_engine.c"

/-- The call of `l0`, with the lengths read from `l1_params`. -/
def callL0 (fwid : List Byte) (l0Params l1Params : Addr) : Cut World Unit := do
  let w ← Cut.state
  let deviceIDCSRLen := loadWord w.mem (at_ l1Params L1Params.deviceIDCsrLen)
  let aliasKeyCRTLen := loadWord w.mem (at_ l1Params L1Params.aliasKeyCertLen)
  let outputs := E.l0 (bytesAt w.mem (at_ l0Params L0Params.cdi) digestLength) fwid l0LabelIdentity
    l0LabelAlias deviceIDCSRIngredients
    (aliasKeyCRTIngredients E.notBefore E.notAfter cfg.l0Version) deviceIDCSRLen aliasKeyCRTLen
  storePart (at_ l1Params L1Params.deviceIDPub) keyLen outputs.deviceIDPub
  storePart (at_ l1Params L1Params.aliasKeyPub) keyLen outputs.aliasKeyPub
  storePart (at_ l1Params L1Params.aliasKeyPriv) keyLen outputs.aliasKeyPriv
  storePart (at_ l1Params L1Params.deviceIDCsr) deviceIDCSRLen.toNat outputs.deviceIDCSR
  storePart (at_ l1Params L1Params.aliasKeyCert) aliasKeyCRTLen.toNat outputs.aliasKeyCRT

def l0Core (l1Base : Addr) (l1Size : Word) (l0Params l1Params : Addr) : Cut World Unit :=
  if l1Base = 0 ∨ l0Params = 0 ∨ l1Params = 0 then
    hwLogFail cfg l0EngineFile 38 (text "L0: Invalid arguments")
  else do
    let w ← Cut.state
    let fwid := C.sha256 (bytesAt w.mem l1Base l1Size.toNat)
    store (at_ l1Params L1Params.deviceIDCsrLen)
      (bytesOfWord (E.lenOfDeviceIDCSR deviceIDCSRIngredients))
    store (at_ l1Params L1Params.aliasKeyCertLen) (bytesOfWord
      (E.lenOfAliasKeyCRT (aliasKeyCRTIngredients E.notBefore E.notAfter cfg.l0Version)))
    hwLogDebug cfg l0EngineFile 194 (text "Enter L0")
    callL0 cfg E fwid l0Params l1Params
    hwLogDebug cfg l0EngineFile 201 (text "Exit L0")

def l0HandleArgs (l1Base : Addr) (l1Size : Word) (l0Params l1Params : Addr) : Cut World Unit := do
  let w ← Cut.state
  store (at_ l1Params L1Params.versionDICE)
    (bytesOfWord (loadWord w.mem (at_ l0Params L0Params.versionDICE)))
  store (at_ l1Params L1Params.versionL0) (bytesOfWord cfg.versionL0Full)
  let w ← Cut.state
  store (at_ l1Params L1Params.hwMeasurement)
    (bytesAt w.mem (at_ l0Params L0Params.hwMeasurement) hwMeasurementLen)
  l0Core cfg C E l1Base l1Size l0Params l1Params

/-! ## l0_main.c -/

def runL0 : Cut World Unit := do
  cleanSharedL0L1
  let w ← Cut.state
  let l1 := Launch.measuredL1 w.mem
  l0HandleArgs cfg C E l1.start l1.size getSharedDiceL0 getSharedL0L1
  cleanSharedDiceL0

def l0Banner : Text :=
  text "\n+----------+\n| L0 Image |\n+----------+\n\nCopyright (c) 2020 Microsoft\n" ++
    text "Copyright (c) 2017-2019 STMicroelectronics\n\nBuild time: " ++ cfg.timestampString ++
    text "\nCommit: " ++ cfg.gitCommitDescription ++ text "\n"

def l0Main : Cut World Word := do
  watchdogReload cfg
  hwLogInfoStr cfg (l0Banner cfg)
  watchdogReload cfg
  runL0 cfg C E
  pure 0

end Engine

/-! ## It ends -/

section Ends

variable (cfg : BuildConfig) (C : Crypto) (E : L0Engine)

theorem callL0_runs (fwid : List Byte) (l0Params l1Params : Addr) :
    Runs 5 (callL0 cfg E fwid l0Params l1Params) := by
  have hpart : ∀ (a : Addr) (n : Nat) (part : Nat → Option Byte), Runs 1 (storePart a n part) :=
    fun a n part => Runs.step fun _ => rfl
  exact Runs.state_bind fun _ => (hpart _ _ _).bind fun _ => (hpart _ _ _).bind fun _ =>
    (hpart _ _ _).bind fun _ => (hpart _ _ _).bind fun _ => hpart _ _ _

theorem l0Core_runs (l1Base : Addr) (l1Size : Word) (l0Params l1Params : Addr) :
    Runs 13 (l0Core cfg C E l1Base l1Size l0Params l1Params) := by
  refine Runs.ite ((hwLogAt_runs cfg .fail _ _ _).mono (by omega)) (Runs.state_bind fun _ => ?_)
  exact (store_runs _ _).bind fun _ => (store_runs _ _).bind fun _ =>
    (hwLogAt_runs cfg .debug _ _ _).bind fun _ => (callL0_runs cfg E _ _ _).bind fun _ =>
      hwLogAt_runs cfg .debug _ _ _

/-- Eighteen steps are enough for `RunL0`. -/
theorem runL0_runs : Runs 18 (runL0 cfg C E) := by
  have hclean : ∀ a : Addr, Runs 1 (storeFill a sharedHalf 0) := fun a => storeFill_runs a _ 0
  refine (hclean _).bind fun _ => Runs.state_bind fun w => Runs.bind (n := 16) ?_ fun _ => hclean _
  exact Runs.state_bind fun _ => (store_runs _ _).bind fun _ => (store_runs _ _).bind fun _ =>
    Runs.state_bind fun _ => (store_runs _ _).bind fun _ => l0Core_runs cfg C E _ _ _ _

end Ends

/-! ## What is written -/

section Writes

variable {cfg : BuildConfig} {C : Crypto} {E : L0Engine}

theorem l1Params_inShared {k n : Nat} (h : k + n ≤ L1Params.size) {x : Addr}
    (hx : Within (at_ getSharedL0L1 k) n x) : InShared x := by
  have hsize : L1Params.size = 4240 := rfl
  have hhalf : sharedHalf = 32768 := rfl
  exact (inShared_iff x).mpr (Or.inr (within_sub_range (by omega) (by omega) hx))

theorem storePart_changes {S : Addr → Prop} {a : Addr} {n : Nat} {part : Nat → Option Byte}
    (h : ∀ x, Within a n x → S x) : Cut.Keeps (changes S) (storePart a n part) := by
  refine step_keeps fun w => ⟨fun x hx => if_neg fun hin => hx (h x hin), fun x hx => ?_, rfl, rfl,
    rfl⟩
  have hout : ¬ Within a n x := fun hin => hx (h x hin)
  simp [hout, World.spend]

/-- A field of `l1_params`. -/
theorem storeL1_changes {k : Nat} {bs : List Byte} (h : k + bs.length ≤ L1Params.size) :
    Cut.Keeps (changes InShared) (store (at_ getSharedL0L1 k) bs) :=
  store_changes fun _ hx => l1Params_inShared h hx

/-- The lengths of the certificates stand in `l1_params`. -/
structure LengthsStored (cfg : BuildConfig) (E : L0Engine) (m : Memory) : Prop where
  csr : loadWord m (at_ getSharedL0L1 L1Params.deviceIDCsrLen) =
    E.lenOfDeviceIDCSR deviceIDCSRIngredients
  crt : loadWord m (at_ getSharedL0L1 L1Params.aliasKeyCertLen) =
    E.lenOfAliasKeyCRT (aliasKeyCRTIngredients E.notBefore E.notAfter cfg.l0Version)

theorem LengthsStored.logged {w w' : World} (h : LengthsStored cfg E w.mem) (hlog : w.LogOnly w') :
    LengthsStored cfg E w'.mem := by
  have hkept : ∀ {k : Nat}, k + 4 ≤ L1Params.size →
      loadWord w'.mem (at_ getSharedL0L1 k) = loadWord w.mem (at_ getSharedL0L1 k) := fun hk =>
    loadWord_congr fun i hi => hlog.mem _ (shared_not_inLogs (l1Params_inShared hk
      ((within_at _ (Nat.lt_trans hi (by decide))).mpr hi)))
  exact ⟨(hkept (by decide)).trans h.csr, (hkept (by decide)).trans h.crt⟩

/-- `l0` writes to its output buffers only: the certificates fit. -/
theorem callL0_changes {fwid : List Byte} {w : World} (h : LengthsStored cfg E w.mem) :
    Cut.Sat (callL0 cfg E fwid getSharedDiceL0 getSharedL0L1) w
      fun _ w' => w.Changes InShared w' := by
  have hcsr := E.csrFits
  have hcrt := E.crtFits cfg.l0Version
  rw [← h.csr] at hcsr
  rw [← h.crt] at hcrt
  have hmax : derMaxPem = 2048 := rfl
  have hpart : ∀ {k n : Nat} {part : Nat → Option Byte}, k + n ≤ L1Params.size →
      Cut.Keeps (changes InShared) (storePart (at_ getSharedL0L1 k) n part) := fun hfit =>
    storePart_changes fun _ hx => l1Params_inShared hfit hx
  have hsize : L1Params.size = 4240 := rfl
  have hcsrAt : L1Params.deviceIDCsr = 2188 := rfl
  have hcrtAt : L1Params.aliasKeyCert = 104 := rfl
  refine Cut.Sat.state_bind ?_
  exact Cut.Keeps.sat ((hpart (by decide)).bind fun _ => (hpart (by decide)).bind fun _ =>
    (hpart (by decide)).bind fun _ => (hpart (by omega)).bind fun _ => hpart (by omega)) w

theorem store_stores (a : Addr) (bs : List Byte) (w : World) :
    Cut.Sat (store a bs) w fun r w' => r = some () → w'.mem = write w.mem a bs :=
  step_sat nofun fun _ => rfl

/-- The shared RAM and the logs. -/
def InRam (x : Addr) : Prop := InShared x ∨ InLogs x

theorem l0Core_changes {l1Base : Addr} {l1Size : Word} (w : World) :
    Cut.Sat (l0Core cfg C E l1Base l1Size getSharedDiceL0 getSharedL0L1) w
      fun _ w' => w.Changes InRam w' := by
  have hram : ∀ {u u' : World}, u.Changes InShared u' → u.Changes InRam u' :=
    fun h => h.mono fun _ => Or.inl
  have hlog : ∀ {u u' : World}, u.LogOnly u' → u.Changes InRam u' :=
    fun h => h.changes.mono fun _ => Or.inr
  refine Cut.Sat.ite (fun _ => ((hwLogAt_logOnly cfg .fail _ _ _).sat w).mono fun _ _ => hlog)
    fun _ => Cut.Sat.state_bind ?_
  -- the two lengths
  have hstore : ∀ {k : Nat} {v : Word}, k + 4 ≤ L1Params.size → ∀ u : World,
      Cut.Sat (store (at_ getSharedL0L1 k) (bytesOfWord v)) u fun r u' => u.Changes InRam u' ∧
        (r = some () → u'.mem = storeWord u.mem (at_ getSharedL0L1 k) v) := fun hk u =>
    ((storeL1_changes (by rwa [length_bytesOfWord])).sat u).and (store_stores _ _ u) |>.mono
      fun _ _ h => ⟨hram h.1, h.2⟩
  refine Cut.Sat.bind (hstore (by decide) w) (fun _ w1 h1 => ?_) fun _ h1 => h1.1
  refine Cut.Sat.bind (hstore (by decide) w1) (fun _ w2 h2 => ?_) fun _ h2 => h1.1.trans h2.1
  have h12 := h1.1.trans h2.1
  have hlengths : LengthsStored cfg E w2.mem := by
    rw [h2.2 rfl, h1.2 rfl]
    refine ⟨?_, loadWord_storeWord _ _ _ (by decide)⟩
    have hbefore : L1Params.aliasKeyCertLen + 4 ≤ L1Params.deviceIDCsrLen := by decide
    rw [storeWord, loadWord_write_apart (Or.inr (by rwa [length_bytesOfWord])) (by decide)
      (by rw [length_bytesOfWord]; decide)]
    exact loadWord_storeWord _ _ _ (by decide)
  refine Cut.Sat.bind ((hwLogAt_logOnly cfg .debug _ _ _).sat w2) (fun _ w3 h3 => ?_)
    fun _ h3 => h12.trans (hlog h3)
  refine Cut.Sat.bind (callL0_changes (hlengths.logged h3)) (fun _ w4 h4 => ?_)
    fun _ h4 => (h12.trans (hlog h3)).trans (hram h4)
  exact ((hwLogAt_logOnly cfg .debug _ _ _).sat w4).mono fun _ _ h5 =>
    ((h12.trans (hlog h3)).trans (hram h4)).trans (hlog h5)

/-- `RunL0` changes nothing but the shared RAM and the logs. -/
theorem runL0_changes (w : World) : Cut.Sat (runL0 cfg C E) w fun _ w' => w.Changes InRam w' := by
  have hstore : ∀ {k : Nat} {bs : List Byte}, k + bs.length ≤ L1Params.size →
      Cut.Keeps (changes InRam) (store (at_ getSharedL0L1 k) bs) := fun h =>
    (storeL1_changes h).mono fun _ _ hw => hw.mono fun _ => Or.inl
  have hclean : ∀ {a : Addr}, (∀ x, Within a sharedHalf x → InShared x) →
      Cut.Keeps (changes InRam) (storeFill a sharedHalf 0) := fun h =>
    storeFill_changes fun x hx => Or.inl (h x hx)
  have hdice : Cut.Keeps (changes InRam) cleanSharedDiceL0 :=
    hclean fun x hx => (inShared_iff x).mpr (Or.inl hx)
  have hl1 : Cut.Keeps (changes InRam) cleanSharedL0L1 :=
    hclean fun x hx => (inShared_iff x).mpr (Or.inr hx)
  have hkeeps : Cut.Keeps (changes InRam) (runL0 cfg C E) := by
    refine hl1.bind fun _ => Cut.Keeps.state_bind fun w => Cut.Keeps.bind ?_ fun _ => hdice
    refine Cut.Keeps.state_bind fun _ => (hstore ?_).bind fun _ => (hstore ?_).bind fun _ =>
      Cut.Keeps.state_bind fun _ => (hstore ?_).bind fun _ => l0Core_changes
    · rw [length_bytesOfWord]
      decide
    · rw [length_bytesOfWord]
      decide
    · rw [length_bytesAt]
      decide
  exact hkeeps.sat w

end Writes

/-! ## Two runs -/

/-- The memories agree on `S`. -/
def MemAlike (S : Addr → Prop) (w t : World) : Prop := AgreeOn S w.mem t.mem

section MemAlike

variable {cfg : BuildConfig} {E : L0Engine} {S : Addr → Prop}

theorem store_memAlike (a : Addr) (bs : List Byte) : Cut.Same (MemAlike S) (store a bs) :=
  fun _ _ h => step_both ⟨rfl, h.write a bs⟩

theorem storePart_memAlike (a : Addr) (n : Nat) (part : Nat → Option Byte) :
    Cut.Same (MemAlike S) (storePart a n part) := by
  refine fun w t h => step_both ⟨rfl, fun x hx => ?_⟩
  show (if Within a n x then (part (x - a).toNat).getD (t.mem x) else t.mem x) =
    if Within a n x then (part (x - a).toNat).getD (w.mem x) else w.mem x
  rw [h x hx]

/-- The runs may log different things. -/
theorem hwLogAt_memAlike (hS : ∀ x, S x → ¬ InLogs x) (level : LogLevel) (file : String)
    (line : Nat) (msg : Text) : Cut.Same (MemAlike S) (hwLogAt cfg level file line msg) := by
  intro w t h
  have hlog := hwLogAt_logOnly cfg level file line msg
  refine (Cut.Both.ofSat (hlog.sat w) (hlog.sat t)).mono fun _ w' _ t' hab => ⟨rfl, fun x hx => ?_⟩
  rw [hab.1.mem x (hS x hx), hab.2.mem x (hS x hx)]
  exact h x hx

/-- The parameters that DICE has written for L0. -/
def InL0Params (x : Addr) : Prop := Within getSharedDiceL0 L0Params.size x

instance (x : Addr) : Decidable (InL0Params x) :=
  inferInstanceAs (Decidable (Within getSharedDiceL0 L0Params.size x))

/-- The half for L1 and the parameters of L0, all that the engine works on. -/
def InHandover (x : Addr) : Prop := InL0L1 x ∨ InL0Params x

theorem inHandover_inShared {x : Addr} (h : InHandover x) : InShared x := by
  have hsize : L0Params.size ≤ sharedHalf := by decide
  exact (inShared_iff x).mpr (h.symm.imp_left fun hx => Nat.lt_of_lt_of_le hx hsize)

theorem l0Params_field {k n : Nat} (h : k + n ≤ L0Params.size) {i : Nat} (hi : i < n) :
    InL0Params (at_ (at_ getSharedDiceL0 k) i) := by
  have hsize : L0Params.size = 68 := rfl
  rw [at_at]
  exact (within_at _ (by omega)).mpr (by omega)

theorem l1Params_field {k n : Nat} (h : k + n ≤ L1Params.size) {i : Nat} (hi : i < n) :
    InL0L1 (at_ (at_ getSharedL0L1 k) i) := by
  have hsize : L1Params.size = 4240 := rfl
  have hhalf : sharedHalf = 32768 := rfl
  rw [at_at]
  exact (within_at _ (by omega)).mpr (by omega)

theorem callL0_memAlike (fwid : List Byte) :
    Cut.Same (MemAlike InHandover) (callL0 cfg E fwid getSharedDiceL0 getSharedL0L1) := by
  have hlen : ∀ {k : Nat}, k + 4 ≤ L1Params.size → ∀ {m m' : Memory}, AgreeOn InHandover m m' →
      loadWord m' (at_ getSharedL0L1 k) = loadWord m (at_ getSharedL0L1 k) := fun hk _ _ h =>
    h.loadWord fun _ hi => Or.inl (l1Params_field hk hi)
  have hcdi : ∀ {m m' : Memory}, AgreeOn InHandover m m' →
      bytesAt m' (at_ getSharedDiceL0 L0Params.cdi) digestLength =
        bytesAt m (at_ getSharedDiceL0 L0Params.cdi) digestLength := fun h =>
    h.bytesAt fun _ hi => Or.inr (l0Params_field (by decide) hi)
  intro w t h
  refine Cut.Both.state_bind ?_
  rw [hlen (by decide) h, hlen (by decide) h, hcdi h]
  exact ((storePart_memAlike _ _ _).bind fun _ => (storePart_memAlike _ _ _).bind fun _ =>
    (storePart_memAlike _ _ _).bind fun _ => (storePart_memAlike _ _ _).bind fun _ =>
      storePart_memAlike _ _ _) w t h

end MemAlike

/-! ## What L1 finds -/

section Handover

variable {cfg : BuildConfig} {C : Crypto} {E : L0Engine}

/-- The header of L1 and the image behind it, as large as the header says. -/
def InL1Image (m : Memory) (x : Addr) : Prop :=
  Within getL1ImageStart (imageHeaderSize + (Launch.measuredL1 m).size.toNat) x

/-- What `RunL0` may depend on. -/
def L0Inputs (m : Memory) (x : Addr) : Prop := InL0Params x ∨ InL1Image m x

/-- The bytes that are hashed belong to the image. -/
theorem measured_inL1Image (m : Memory) {i : Nat} (hi : i < (Launch.measuredL1 m).size.toNat) :
    InL1Image m (at_ (Launch.measuredL1 m).start i) := by
  have hstart : (Launch.measuredL1 m).start = at_ getL1ImageStart 1024 := rfl
  have hsize : imageHeaderSize = 1024 := rfl
  have hlt := (Launch.measuredL1 m).size.isLt
  rw [InL1Image, hstart, hsize, at_at]
  by_cases hw : 1024 + i < 2 ^ 32
  · exact (within_at _ hw).mpr (by omega)
  · have hmod : (at_ getL1ImageStart (1024 + i) - getL1ImageStart).toNat < 2 ^ 32 := BitVec.isLt _
    show _ < _
    omega

def InL1Header (x : Addr) : Prop := Within getL1ImageStart imageHeaderSize x

theorem inL1Header_notShared {x : Addr} (h : InL1Header x) : ¬ InShared x := by
  have h0 : getL1ImageStart = 0x08060000#32 := rfl
  have h1 : imageHeaderSize = 1024 := rfl
  have h2 : getSharedRamStart = 0x38000000#32 := rfl
  have h3 : getSharedRamSize = 65536 := rfl
  simp only [InL1Header, InShared, Within, h0, h1, h2, h3] at *
  bv_omega

/-- The size that is measured stands in the header. -/
theorem measuredL1_congr {m m' : Memory} (h : AgreeOn InL1Header m m') :
    Launch.measuredL1 m' = Launch.measuredL1 m := by
  have hsize : imageHeaderSize = 1024 := rfl
  have hoffset : ImageHeader.fwSize = 8 := rfl
  have hload : loadWord m' (at_ getL1ImageStart ImageHeader.fwSize) =
      loadWord m (at_ getL1ImageStart ImageHeader.fwSize) := h.loadWord fun i hi => ?_
  · rw [Launch.measuredL1, hload]
    rfl
  · rw [at_at]
    exact (within_at _ (by omega)).mpr (by omega)

theorem l0Core_both {l1Base : Addr} {l1Size : Word} {w t : World} (h : MemAlike InHandover w t)
    (hl1 : bytesAt t.mem l1Base l1Size.toNat = bytesAt w.mem l1Base l1Size.toNat) :
    Cut.Both (l0Core cfg C E l1Base l1Size getSharedDiceL0 getSharedL0L1) w
      (l0Core cfg C E l1Base l1Size getSharedDiceL0 getSharedL0L1) t
      fun _ w' _ t' => MemAlike InHandover w' t' := by
  have hlog : ∀ {level : LogLevel} {file : String} {line : Nat} {msg : Text},
      Cut.Same (MemAlike InHandover) (hwLogAt cfg level file line msg) :=
    hwLogAt_memAlike (fun _ hx => shared_not_inLogs (inHandover_inShared hx)) _ _ _ _
  have hsame : ∀ {x : Cut World Unit}, Cut.Same (MemAlike InHandover) x →
      Cut.Both x w x t fun _ w' _ t' => MemAlike InHandover w' t' := fun hx =>
    (hx w t h).mono fun _ _ _ _ hab => hab.2
  refine Cut.Both.ite Iff.rfl (fun _ => hsame hlog) fun _ => Cut.Both.state_bind ?_
  rw [hl1]
  exact hsame ((store_memAlike _ _).bind fun _ => (store_memAlike _ _).bind fun _ =>
    hlog.bind fun _ => (callL0_memAlike _).bind fun _ => hlog)

theorem l0HandleArgs_both {m : Memory} {w t : World}
    (h : MemAlike (fun x => InHandover x ∨ InL1Image m x) w t) :
    Cut.Both (l0HandleArgs cfg C E (Launch.measuredL1 m).start (Launch.measuredL1 m).size
        getSharedDiceL0 getSharedL0L1) w
      (l0HandleArgs cfg C E (Launch.measuredL1 m).start (Launch.measuredL1 m).size
        getSharedDiceL0 getSharedL0L1) t
      fun _ w' _ t' => MemAlike InHandover w' t' := by
  have hparams : ∀ {k n : Nat}, k + n ≤ L0Params.size → ∀ {i : Nat}, i < n →
      InHandover (at_ (at_ getSharedDiceL0 k) i) := fun hk _ hi => Or.inr (l0Params_field hk hi)
  unfold l0HandleArgs
  refine Cut.Both.state_bind ?_
  rw [h.loadWord fun _ hi => Or.inl (hparams (by decide) hi)]
  refine ((store_memAlike _ _) w t h).bind fun _ w1 _ t1 h1 => ?_
  refine ((store_memAlike _ _) w1 t1 h1.2).bind fun _ w2 _ t2 h2 => Cut.Both.state_bind ?_
  rw [h2.2.bytesAt fun _ hi => Or.inl (hparams (by decide) hi)]
  refine ((store_memAlike _ _) w2 t2 h2.2).bind fun _ w3 _ t3 h3 => ?_
  exact l0Core_both (h3.2.mono fun _ => Or.inl)
    (h3.2.bytesAt fun _ hi => Or.inr (measured_inL1Image m hi))

theorem storeFill_fills (a : Addr) (n : Nat) (b : Byte) (w : World) :
    Cut.Sat (storeFill a n b) w fun r w' => r = some () → w'.mem = fill w.mem a n b :=
  step_sat nofun fun _ => rfl

theorem runL0_both {w t : World} (h : AgreeOn (L0Inputs w.mem) w.mem t.mem) :
    Cut.Both (runL0 cfg C E) w (runL0 cfg C E) t
      fun _ w' _ t' => AgreeOn InShared w'.mem t'.mem := by
  have hclean : ∀ (a : Addr) (u v : World), Cut.Both (storeFill a sharedHalf 0) u
      (storeFill a sharedHalf 0) v fun _ u' _ v' =>
        u'.mem = fill u.mem a sharedHalf 0 ∧ v'.mem = fill v.mem a sharedHalf 0 := fun a u v =>
    (Cut.Both.ofSat (storeFill_fills a _ 0 u) (storeFill_fills a _ 0 v)).mono
      fun _ _ _ _ h => ⟨h.1 rfl, h.2 rfl⟩
  -- the header is not in the half that is cleaned
  have hmeasured : ∀ m : Memory, Launch.measuredL1 (fill m getSharedL0L1 sharedHalf 0) =
      Launch.measuredL1 m := fun m => measuredL1_congr fun x hx =>
    fill_outside fun hin => inL1Header_notShared hx ((inShared_iff x).mpr (Or.inr hin))
  have hheader : ∀ x, InL1Header x → L0Inputs w.mem x := fun x hx =>
    Or.inr (Nat.lt_of_lt_of_le hx (Nat.le_add_right _ _))
  have halike : ∀ x, InHandover x ∨ InL1Image w.mem x → L0Inputs w.mem x ∨ InL0L1 x := by
    rintro x ((hhalf | hparams) | himage)
    · exact Or.inr hhalf
    · exact Or.inl (Or.inl hparams)
    · exact Or.inl (Or.inr himage)
  unfold runL0
  refine (hclean getSharedL0L1 w t).bind fun _ w1 _ t1 h1 => Cut.Both.state_bind ?_
  rw [h1.1, h1.2, hmeasured, hmeasured, measuredL1_congr (h.mono hheader)]
  have hfilled : AgreeOn (fun x => InHandover x ∨ InL1Image w.mem x) w1.mem t1.mem := by
    rw [h1.1, h1.2]
    exact (h.fill getSharedL0L1 sharedHalf 0).mono halike
  refine (l0HandleArgs_both hfilled).bind fun _ w2 _ t2 h2 => ?_
  refine (hclean getSharedDiceL0 w2 t2).mono fun _ w3 _ t3 h3 => ?_
  rw [h3.1, h3.2]
  apply (AgreeOn.fill h2 getSharedDiceL0 sharedHalf 0).mono
  intro x hx
  exact ((inShared_iff x).mp hx).symm.imp_left Or.inl

/-- The half of DICE is cleaned last. -/
theorem runL0_cleans (w : World) : Cut.Sat (runL0 cfg C E) w fun r w' =>
    r = some () → ∀ x, InDiceL0 x → w'.mem x = 0 := by
  have htrue : ∀ {α : Type} (x : Cut World α) (u : World), Cut.Sat x u fun _ _ => True :=
    fun _ _ => trivial
  unfold runL0
  refine Cut.Sat.bind (htrue _ w) (fun _ w1 _ => Cut.Sat.state_bind ?_) fun _ _ => nofun
  refine Cut.Sat.bind (htrue _ w1) (fun _ w2 _ => ?_) fun _ _ => nofun
  apply (storeFill_fills getSharedDiceL0 sharedHalf 0 w2).mono
  intro r w3 h3 hr x hx
  rw [h3 hr]
  exact fill_inside hx

theorem l0Main_cleans (w : World) : Cut.Sat (l0Main cfg C E) w fun r w' =>
    ∀ v, r = some v → v = 0 ∧ ∀ x, InDiceL0 x → w'.mem x = 0 := by
  have htrue : ∀ {α : Type} (x : Cut World α) (u : World), Cut.Sat x u fun _ _ => True :=
    fun _ _ => trivial
  unfold l0Main
  refine Cut.Sat.bind (htrue _ w) (fun _ w1 _ => ?_) fun _ _ => nofun
  refine Cut.Sat.bind (htrue _ w1) (fun _ w2 _ => ?_) fun _ _ => nofun
  refine Cut.Sat.bind (htrue _ w2) (fun _ w3 _ => ?_) fun _ _ => nofun
  refine Cut.Sat.bind (runL0_cleans w3) (fun _ w4 h4 => ?_) fun _ _ => nofun
  exact Cut.Sat.pure fun v hv => ⟨(Option.some.inj hv).symm, h4 rfl⟩

/-- Keys made of the two digests, certificates that are written in part. -/
def sampleEngine : L0Engine where
  notBefore := text "200101000000Z"
  notAfter := text "99991231235959Z"
  lenOfDeviceIDCSR _ := 300
  lenOfAliasKeyCRT _ := 500
  l0 cdi fwid _ _ _ _ _ _ := {
    deviceIDPub := fun i => cdi[i]?
    aliasKeyPub := fun i => fwid[i]?
    aliasKeyPriv := fun i => (cdi ++ fwid)[i + 16]?
    deviceIDCSR := fun i => if i = 0 then some 0x30 else none
    aliasKeyCRT := fun i => if i = 0 then some 0x30 else none }
  csrFits := by decide
  crtFits _ := by decide

end Handover

end VerifiedDice
