import VerifiedDice.Hidden
import VerifiedDice.L1Session

/-!
# Secrets and the console

The compound device identifier has no influence on what L0 prints, where it stops or what it
launches, only on the keys and certificates; the private alias key has none on L1 at all.
-/
namespace VerifiedDice

open ByteMemory

/-! ## L0 -/

def InCdi (x : Addr) : Prop := Within (at_ getSharedDiceL0 L0Params.cdi) digestLength x

/-- The device identifier secret and the buffers of `l1_params` that `l0` fills. -/
def Derived (x : Addr) : Prop :=
  InCdi x ∨
    Within (at_ getSharedL0L1 L1Params.aliasKeyPub)
      (L1Params.aliasKeyCertLen - L1Params.aliasKeyPub) x ∨
    Within (at_ getSharedL0L1 L1Params.deviceIDPub)
      (L1Params.deviceIDCsrLen - L1Params.deviceIDPub) x

theorem derived_inShared {x : Addr} (h : Derived x) : InShared x := by
  have h0 : getSharedRamStart = 0x38000000#32 := rfl
  have h1 : getSharedRamSize = 65536 := rfl
  have h2 : getSharedDiceL0 = 0x38000000#32 := rfl
  have h3 : getSharedL0L1 = 0x38008000#32 := rfl
  have h4 : L0Params.cdi = 36 := rfl
  have h5 : digestLength = 32 := rfl
  obtain ⟨h6, _, _, h7, h8, _, h9, _⟩ := L1Params.offsets
  simp only [Derived, InCdi, InShared, Within, at_, h0, h1, h2, h3, h4, h5, h6, h7, h8, h9] at *
  bv_omega

/-- The fields of `l1_params` that do not depend on the secret. -/
theorem l1Field_not_derived {k n : Nat} (h : k + n ≤ L1Params.aliasKeyPub ∨
    L1Params.aliasKeyCertLen ≤ k ∧ k + n ≤ L1Params.deviceIDPub ∨
    L1Params.deviceIDCsrLen ≤ k ∧ k + n ≤ L1Params.size) {i : Nat} (hi : i < n) :
    ¬ Derived (at_ (at_ getSharedL0L1 k) i) := by
  have h2 : getSharedDiceL0 = 0x38000000#32 := rfl
  have h3 : getSharedL0L1 = 0x38008000#32 := rfl
  have h4 : L0Params.cdi = 36 := rfl
  have h5 : digestLength = 32 := rfl
  obtain ⟨h6, _, _, h7, h8, _, h9, h10⟩ := L1Params.offsets
  rw [at_at]
  simp only [Derived, InCdi, Within, at_, h2, h3, h4, h5, h6, h7, h8, h9, h10] at *
  bv_omega

/-- The fields of `l0_params` in front of the secret. -/
theorem l0Field_not_derived {k n : Nat} (h : k + n ≤ L0Params.cdi) {i : Nat} (hi : i < n) :
    ¬ Derived (at_ (at_ getSharedDiceL0 k) i) := by
  have h2 : getSharedDiceL0 = 0x38000000#32 := rfl
  have h3 : getSharedL0L1 = 0x38008000#32 := rfl
  have h4 : L0Params.cdi = 36 := rfl
  have h5 : digestLength = 32 := rfl
  obtain ⟨h6, _, _, h7, h8, _, h9, _⟩ := L1Params.offsets
  rw [at_at]
  simp only [Derived, InCdi, Within, at_, h2, h3, h4, h5, h6, h7, h8, h9] at *
  bv_omega

/-- The outputs of `l0` are all derived. -/
theorem l1Output_derived {k n : Nat} (h : L1Params.aliasKeyPub ≤ k ∧ k + n ≤
      L1Params.aliasKeyCertLen ∨
    L1Params.deviceIDPub ≤ k ∧ k + n ≤ L1Params.deviceIDCsrLen) {x : Addr}
    (hx : Within (at_ getSharedL0L1 k) n x) : Derived x := by
  have h3 : getSharedL0L1 = 0x38008000#32 := rfl
  obtain ⟨h6, _, _, h7, h8, _, h9, _⟩ := L1Params.offsets
  simp only [Derived, Within, at_, h3, h6, h7, h8, h9] at *
  bv_omega

section L0

variable {cfg : BuildConfig} {C : Crypto} {E : L0Engine} {w t : World}

/-- A buffer of `S` may be filled with anything. -/
theorem storePart_alike {S : Addr → Prop} {a : Addr} {n : Nat} (hin : ∀ x, Within a n x → S x)
    (part part' : Nat → Option Byte) (h : w.SameBut S t) :
    Cut.Alike (storePart a n part) w (storePart a n part') t
      fun _ w' t' => w'.SameBut S t' := by
  apply step_alike h
  intro w m hm
  refine ⟨rfl, ?_, rfl⟩
  intro x hx
  have hout : ¬ Within a n x := fun hxin => hx (hin x hxin)
  show (if Within a n x then _ else m x) = if Within a n x then _ else w.mem x
  rw [if_neg hout, if_neg hout]
  exact hm x hx

/-- The digest of L1 may differ as well. -/
theorem callL0_alike {fwid fwid' : List Byte} (h : w.SameBut Derived t)
    (hlengths : LengthsStored cfg E w.mem) :
    Cut.Alike (callL0 cfg E fwid getSharedDiceL0 getSharedL0L1) w
      (callL0 cfg E fwid' getSharedDiceL0 getSharedL0L1) t
      fun _ w' t' => w'.SameBut Derived t' := by
  have hcsr : (E.lenOfDeviceIDCSR deviceIDCSRIngredients).toNat ≤ derMaxPem := E.csrFits
  have hcrt : (E.lenOfAliasKeyCRT (aliasKeyCRTIngredients E.notBefore E.notAfter
      cfg.l0Version)).toNat ≤ derMaxPem := E.crtFits cfg.l0Version
  have hmax : derMaxPem = 2048 := rfl
  have hkey : keyLen = 32 := rfl
  obtain ⟨h1, h2, h3, h4, h5, h6, h7, _⟩ := L1Params.offsets
  have hsecond : LengthsStored cfg E t.mem := by
    constructor
    · rw [h.mem.loadWord fun _ hi => l1Field_not_derived (by decide) hi]
      exact hlengths.csr
    · rw [h.mem.loadWord fun _ hi => l1Field_not_derived (by decide) hi]
      exact hlengths.crt
  have hpart : ∀ {k n : Nat} {w t : World} (part part' : Nat → Option Byte),
      (L1Params.aliasKeyPub ≤ k ∧ k + n ≤ L1Params.aliasKeyCertLen ∨
        L1Params.deviceIDPub ≤ k ∧ k + n ≤ L1Params.deviceIDCsrLen) → w.SameBut Derived t →
      Cut.Alike (storePart (at_ getSharedL0L1 k) n part) w
        (storePart (at_ getSharedL0L1 k) n part') t fun _ w' t' => w'.SameBut Derived t' :=
    fun part part' hk h => storePart_alike (fun _ hx => l1Output_derived hk hx) part part' h
  unfold callL0
  apply Cut.Alike.state_bind
  simp only [hlengths.csr, hlengths.crt, hsecond.csr, hsecond.crt]
  apply (hpart _ _ (by omega) h).bind _ fun _ _ h => h
  intro _ w1 t1 h1'
  apply (hpart _ _ (by omega) h1').bind _ fun _ _ h => h
  intro _ w2 t2 h2'
  apply (hpart _ _ (by omega) h2').bind _ fun _ _ h => h
  intro _ w3 t3 h3'
  apply (hpart _ _ (by omega) h3').bind _ fun _ _ h => h
  intro _ w4 t4 h4'
  exact hpart _ _ (by omega) h4'

theorem lengthsStored_stores (m : Memory) : LengthsStored cfg E (storeWord (storeWord m
    (at_ getSharedL0L1 L1Params.deviceIDCsrLen) (E.lenOfDeviceIDCSR deviceIDCSRIngredients))
    (at_ getSharedL0L1 L1Params.aliasKeyCertLen) (E.lenOfAliasKeyCRT
      (aliasKeyCRTIngredients E.notBefore E.notAfter cfg.l0Version))) := by
  have hbefore : L1Params.aliasKeyCertLen + 4 ≤ L1Params.deviceIDCsrLen := by decide
  constructor
  · rw [storeWord, loadWord_write_apart (Or.inr (by rwa [length_bytesOfWord])) (by decide)
      (by rw [length_bytesOfWord]; decide)]
    exact loadWord_storeWord _ _ _ (by decide)
  · exact loadWord_storeWord _ _ _ (by decide)

theorem l0Core_blind (l1Base : Addr) (l1Size : Word) :
    Blind Derived (l0Core cfg C E l1Base l1Size getSharedDiceL0 getSharedL0L1) := by
  have hlog : ∀ (level : LogLevel) (line : Nat) (t : Text),
      Blind Derived (hwLogAt cfg level l0EngineFile line t) :=
    fun level line t => hwLogAt_blind (fun _ => derived_inShared) level _ line t
  apply Cut.Lockstep.ite (hlog _ _ _)
  intro w t h
  apply Cut.Alike.state_bind
  -- the lengths are stored before `l0` is called
  apply ((store_blind _ _ w t h).sat (store_stores _ _ w)).bind _ fun _ _ h => h.1
  rintro _ w1 t1 ⟨h1, hmem1⟩
  apply ((store_blind _ _ w1 t1 h1).sat (store_stores _ _ w1)).bind _ fun _ _ h => h.1
  rintro _ w2 t2 ⟨h2, hmem2⟩
  have hlengths : LengthsStored cfg E w2.mem := by
    rw [hmem2 rfl, hmem1 rfl]
    exact lengthsStored_stores w.mem
  apply ((hlog .debug _ _ w2 t2 h2).sat ((hwLogAt_logOnly cfg .debug _ _ _).sat w2)).bind _
    fun _ _ h => h.1
  rintro _ w3 t3 ⟨h3, hlog3⟩
  apply (callL0_alike h3 (hlengths.logged hlog3)).bind _ fun _ _ h => h
  intro _ w4 t4 h4
  exact hlog .debug _ _ w4 t4 h4

theorem l0HandleArgs_blind (l1Base : Addr) (l1Size : Word) :
    Blind Derived (l0HandleArgs cfg C E l1Base l1Size getSharedDiceL0 getSharedL0L1) := by
  have hversion : ∀ w t : World, w.SameBut Derived t →
      loadWord t.mem (at_ getSharedDiceL0 L0Params.versionDICE) =
        loadWord w.mem (at_ getSharedDiceL0 L0Params.versionDICE) := fun w t h =>
    h.mem.loadWord fun i hi => l0Field_not_derived (k := L0Params.versionDICE) (n := 4)
      (by decide) hi
  have hmeasurement : ∀ w t : World, w.SameBut Derived t →
      bytesAt t.mem (at_ getSharedDiceL0 L0Params.hwMeasurement) hwMeasurementLen =
        bytesAt w.mem (at_ getSharedDiceL0 L0Params.hwMeasurement) hwMeasurementLen := fun w t h =>
    h.mem.bytesAt fun i hi => l0Field_not_derived (k := L0Params.hwMeasurement)
      (n := hwMeasurementLen) (by decide) hi
  have hcore : ∀ bs : List Byte, Blind Derived
      (store (at_ getSharedL0L1 L1Params.hwMeasurement) bs >>= fun _ =>
        l0Core cfg C E l1Base l1Size getSharedDiceL0 getSharedL0L1) := fun bs =>
    (store_blind _ bs).bind fun _ => l0Core_blind l1Base l1Size
  have hrest := blind_read _ hmeasurement hcore
  have hstores : ∀ v : Word, Blind Derived
      (store (at_ getSharedL0L1 L1Params.versionDICE) (bytesOfWord v) >>= fun _ =>
        store (at_ getSharedL0L1 L1Params.versionL0) (bytesOfWord cfg.versionL0Full) >>= fun _ =>
          Cut.state >>= fun w => store (at_ getSharedL0L1 L1Params.hwMeasurement)
            (bytesAt w.mem (at_ getSharedDiceL0 L0Params.hwMeasurement) hwMeasurementLen) >>=
              fun _ => l0Core cfg C E l1Base l1Size getSharedDiceL0 getSharedL0L1) := fun v =>
    (store_blind _ _).bind fun _ => (store_blind _ _).bind fun _ => hrest
  exact blind_read _ hversion hstores

theorem flash_not_derived {x : Addr} (h : InFlash x) : ¬ Derived x := fun hx =>
  shared_notFlash (derived_inShared hx) h

theorem nextImageOffset_inFlash {i : Nat} (hi : i < 4) :
    InFlash (at_ (at_ getL0ImageStart ImageHeader.nextImageOffset) i) := by
  have h0 : getFlashStart = 0x08000000#32 := rfl
  have h1 : getL0ImageStart = 0x08020400#32 := rfl
  have h2 : ImageHeader.nextImageOffset = 44 := rfl
  simp only [InFlash, Within, at_, h0, h1, h2]
  bv_omega

theorem l0Main_blind : Blind Derived (l0Main cfg C E) := by
  have hreload : Blind Derived (watchdogReload cfg) := swWatchdogReload_blind
  have hmeasured : ∀ w t : World, w.SameBut Derived t →
      Launch.measuredL1 t.mem = Launch.measuredL1 w.mem := fun w t h =>
    measuredL1_congr fun x hx => h.mem x (flash_not_derived (inL1Header_inFlash hx))
  have hrun : Blind Derived (runL0 cfg C E) := by
    have hclean : Blind Derived cleanSharedDiceL0 := storeFill_blind _ _ _
    have hargs : ∀ l1 : Launch.ByteRange, Blind Derived (l0HandleArgs cfg C E l1.start l1.size
        getSharedDiceL0 getSharedL0L1 >>= fun _ => cleanSharedDiceL0) := fun l1 =>
      (l0HandleArgs_blind l1.start l1.size).bind fun _ => hclean
    have hrest := blind_read _ hmeasured hargs
    exact (storeFill_blind _ _ _).bind fun _ => hrest
  exact hreload.bind fun _ => (hwLogInfoStr_blind (fun _ => derived_inShared) _).bind fun _ =>
    hreload.bind fun _ => hrun.bind fun _ => Cut.Lockstep.pure _

/-- The whole of L0, with its launch of L1. -/
theorem l0Image_blind : Blind Derived (L0Image.main cfg C E) := by
  have hlog : ∀ (level : LogLevel) (file : String) (line : Nat) (t : Text),
      Blind Derived (hwLogAt cfg level file line t) :=
    fun level file line t => hwLogAt_blind (fun _ => derived_inShared) level file line t
  have hbase : ∀ w t : World, w.SameBut Derived t →
      Launch.baseAddr1 t.mem = Launch.baseAddr1 w.mem := by
    intro w t h
    have hoffset : loadWord t.mem (at_ getL0ImageStart ImageHeader.nextImageOffset) =
        loadWord w.mem (at_ getL0ImageStart ImageHeader.nextImageOffset) :=
      h.mem.loadWord fun i hi => flash_not_derived (nextImageOffset_inFlash hi)
    rw [Launch.baseAddr1, hoffset]
    rfl
  have hcheck : ∀ a b : Addr, Blind Derived (L0Image.checkBaseAddresses cfg a b) :=
    fun _ _ => Cut.Lockstep.ite (hlog _ _ _ _) (Cut.Lockstep.pure _)
  have hjump : ∀ a : Addr, Blind Derived
      (Cut.update (fun w : World => { w with launched := some a }) >>= fun _ =>
        (hang : Cut World Unit)) := by
    intro a
    have hlaunch : Blind Derived (Cut.update fun w : World => { w with launched := some a }) := by
      apply Cut.Lockstep.update
      intro w t h
      apply h.elim
      intro m hm
      exact ⟨hm, rfl⟩
    exact hlaunch.bind fun _ => Cut.Lockstep.stop
  have hdisable : Blind Derived (backupSramDisable cfg) :=
    backupSramDisable_blind fun _ => derived_inShared
  have hto : ∀ a : Addr, Blind Derived (L0Image.checkBaseAddresses cfg a Launch.baseAddr2 >>=
      fun _ => hwLogInfo cfg L0Image.mainFile 33
        (text "Jumping to L1 at address 0x" ++ hexWord a) >>= fun _ =>
          backupSramDisable cfg >>= fun _ =>
            Cut.update (fun w : World => { w with launched := some a }) >>= fun _ =>
              (hang : Cut World Unit)) := fun a =>
    (hcheck a Launch.baseAddr2).bind fun _ => (hlog .info _ _ _).bind fun _ =>
      hdisable.bind fun _ => hjump a
  have hboot : Blind Derived (L0Image.bootToL1 cfg) := by
    have hread := blind_read (fun w => Launch.baseAddr1 w.mem) hbase hto
    exact hread
  have hleave : ∀ start : BitVec 64, Blind Derived (L0Image.leave cfg start) := fun _ =>
    hwRngDeInit_blind.bind fun _ => swWatchdogEnd_blind.bind fun _ => getTimeNow_blind.bind fun _ =>
      hlog _ _ _ _
  have hend : ∀ ret : Word, Blind Derived (L0Image.launchIfSucceeded cfg ret) := fun _ =>
    Cut.Lockstep.ite ((hlog _ _ _ _).bind fun _ => hboot) (Cut.Lockstep.pure _)
  exact (imageStart_blind (fun _ => derived_inShared) _ _).bind fun start => l0Main_blind.bind
    fun ret => (hleave start).bind fun _ => (hend ret).bind fun _ => Cut.Lockstep.stop

/-- **The secret of L0 stays in its keys.** Start L0 twice on one device, with any two device
identifier secrets, and cut the power at any one moment: both runs have printed the same, have
launched the same or nothing, and all memory but the secret and the buffers of `l0` is the same. -/
theorem cdi_only_in_outputs {m : Memory} (h : AgreeOn (fun x => ¬ InCdi x) w.mem m) :
    (L0Image.main cfg C E { w with mem := m }).2.out = (L0Image.main cfg C E w).2.out ∧
    (L0Image.main cfg C E { w with mem := m }).2.launched = (L0Image.main cfg C E w).2.launched ∧
    ∀ x, ¬ Derived x → (L0Image.main cfg C E { w with mem := m }).2.mem x =
      (L0Image.main cfg C E w).2.mem x := by
  have hsame : w.SameBut Derived { w with mem := m } :=
    ⟨fun x hx => h x fun hcdi => hx (Or.inl hcdi), rfl⟩
  have hblind : Blind Derived (L0Image.main cfg C E) := l0Image_blind
  have hend := (hblind w _ hsame).states
  refine ⟨?_, ?_, hend.mem⟩
  · rw [hend.rest]
  · rw [hend.rest]

end L0

/-- A blank device of which the secret is not blank. -/
def knownCdi : World :=
  { blankDevice with
    mem := fill blankDevice.mem (at_ getSharedDiceL0 L0Params.cdi) digestLength 0x55 }

/-- The private key differs, all that is printed does not. -/
theorem knownCdi_only_in_outputs :
    (L0Image.main plainBuild SlotBuild.tagSigner.toCrypto sampleEngine knownCdi).2.out =
      (L0Image.main plainBuild SlotBuild.tagSigner.toCrypto sampleEngine blankDevice).2.out ∧
    (L0Image.main plainBuild SlotBuild.tagSigner.toCrypto sampleEngine knownCdi).2.mem
        (at_ getSharedL0L1 L1Params.aliasKeyPriv) ≠
      (L0Image.main plainBuild SlotBuild.tagSigner.toCrypto sampleEngine blankDevice).2.mem
        (at_ getSharedL0L1 L1Params.aliasKeyPriv) := by
  constructor
  · exact (cdi_only_in_outputs fun x hx => fill_outside hx).1
  · decide +kernel

/-! ## L1 -/

/-- The board with another memory. -/
def Board.withMem (b : Board) (m : Memory) : Board :=
  { b with world := { b.world with mem := m } }

namespace L1Image

def InAliasKeyPriv (x : Addr) : Prop := Within (at_ getSharedL0L1 L1Params.aliasKeyPriv) keyLen x

theorem aliasKeyPriv_inL0L1 {x : Addr} (h : InAliasKeyPriv x) : InL0L1 x := by
  have h0 : getSharedL0L1 = 0x38008000#32 := rfl
  have h1 : sharedHalf = 32768 := rfl
  have h2 : L1Params.aliasKeyPriv = 72 := rfl
  have h3 : keyLen = 32 := rfl
  simp only [InAliasKeyPriv, InL0L1, Within, at_, h0, h1, h2, h3] at *
  bv_omega

theorem aliasKeyPriv_inShared (x : Addr) (h : InAliasKeyPriv x) : InShared x :=
  (inShared_iff x).mpr (Or.inr (aliasKeyPriv_inL0L1 h))

/-- The fields before and behind the key. -/
theorem field_not_aliasKeyPriv {k n : Nat} (h : k + n ≤ L1Params.aliasKeyPriv ∨
    L1Params.aliasKeyCert ≤ k ∧ k + n ≤ L1Params.size) {i : Nat} (hi : i < n) :
    ¬ InAliasKeyPriv (at_ (at_ getSharedL0L1 k) i) := by
  have h0 : getSharedL0L1 = 0x38008000#32 := rfl
  obtain ⟨_, h1, h2, _, _, _, _, h3⟩ := L1Params.offsets
  have h4 : keyLen = 32 := rfl
  rw [at_at]
  simp only [InAliasKeyPriv, Within, at_, h0, h1, h2, h3, h4] at *
  bv_omega

/-- The same board apart from the private key, with the same console. -/
structure SameBoard (b c : Board) : Prop where
  world : b.world.SameBut InAliasKeyPriv c.world
  keys : c.keys = b.keys
  console : c.console = b.console

abbrev BoardBlind {α : Type} (x : Cut Board α) : Prop := Cut.Lockstep SameBoard x

section Session

variable {cfg : BuildConfig} {buffer : CorruptBuffer} {α β : Type}

theorem onBoard_blind {x : Cut World α} (h : Blind InAliasKeyPriv x) : BoardBlind (onBoard x) := by
  intro b c hb
  have hend := h b.world c.world hb.world
  have hout : c.world.out = b.world.out := by rw [hb.world.rest]
  have hout' : (x c.world).2.out = (x b.world).2.out := by rw [hend.states.rest]
  constructor
  · exact hend.result
  · constructor
    · exact hend.states
    · exact hb.keys
    · show c.console ++ printedBetween c.world (x c.world).2 =
        b.console ++ printedBetween b.world (x b.world).2
      rw [hb.console, printedBetween, printedBetween, hout, hout']

theorem log_blind (level : LogLevel) (file : String) (line : Nat) (t : Text) :
    Blind InAliasKeyPriv (hwLogAt cfg level file line t) :=
  hwLogAt_blind aliasKeyPriv_inShared level file line t

theorem tick_blind : Blind InAliasKeyPriv tick :=
  step_blind_of_rest (fun _ _ => rfl) fun _ => rfl

theorem printf_blind (t : Text) : BoardBlind (printf t) := by
  have hprint : BoardBlind (Cut.update fun b : Board => { b with console := b.console ++ t }) := by
    apply Cut.Lockstep.update
    intro b c h
    exact ⟨h.world, h.keys, congrArg (· ++ t) h.console⟩
  exact (onBoard_blind tick_blind).bind fun _ => hprint

/-- What is read does not tell the two boards apart. -/
theorem board_read {γ : Type} (read : Board → γ)
    (hread : ∀ b c : Board, SameBoard b c → read c = read b) {k : γ → Cut Board β}
    (hk : ∀ v, BoardBlind (k v)) : BoardBlind (Cut.state >>= fun b => k (read b)) :=
  Cut.Lockstep.read read hread hk

theorem uartReceive_blind : BoardBlind uartReceive := by
  have hnext : BoardBlind
      (Cut.update fun b : Board => { b with keys := fun n => b.keys (n + 1) }) := by
    apply Cut.Lockstep.update
    intro b c h
    have hkeys : (fun n => c.keys (n + 1)) = fun n => b.keys (n + 1) := by rw [h.keys]
    exact ⟨h.world, hkeys, h.console⟩
  have hkey : ∀ b c : Board, SameBoard b c → c.keys 0 = b.keys 0 := fun b c h => by rw [h.keys]
  have htake := board_read (fun b => b.keys 0) hkey fun key =>
    hnext.bind fun _ => Cut.Lockstep.pure key
  exact (onBoard_blind tick_blind).bind fun _ => htake

theorem logLines_blind (line : Nat) (ts : List Text) :
    Blind InAliasKeyPriv (logLines cfg line ts) := by
  induction ts generalizing line with
  | nil => exact Cut.Lockstep.pure _
  | cons t ts ih => exact (log_blind .debug menuFile line t).bind fun _ => ih (line + 1)

theorem testWatchdog_blind {reload : Cut World Unit} (h : Blind InAliasKeyPriv reload)
    (name rule : Text) (timeout line : Nat) :
    Blind InAliasKeyPriv (testWatchdog cfg name rule timeout line reload) := by
  have hwait : ∀ seconds, Blind InAliasKeyPriv (waitAndReload reload seconds) := by
    intro seconds
    induction seconds with
    | zero => exact Cut.Lockstep.pure _
    | succ seconds ih => exact tick_blind.bind fun _ => h.bind fun _ => ih
  exact (logLines_blind _ _).bind fun _ => (hwait timeout).bind fun _ => logLines_blind _ _

theorem testCorruptActiveImage_blind :
    Blind InAliasKeyPriv (testCorruptActiveImage cfg buffer) := by
  have h0 : getSharedL0L1 = 0x38008000#32 := rfl
  have h1 : sharedHalf = 32768 := rfl
  have h2 : dtcmStart = 0x20000000#32 := rfl
  have h3 : dtcmLength = 131072 := rfl
  have h4 : corruptAddress = 0x08020800#32 := rfl
  have hcount : flashWordSize * ((BitVec.ofNat 32 corruptLength).toNat / flashWordSize + 1) =
      160 := by decide
  have hwrite : Blind InAliasKeyPriv
      (flashWrite cfg corruptAddress buffer.addr (BitVec.ofNat 32 corruptLength)) := by
    apply flashWrite_blind
    · -- one word behind the buffer is still far from the shared RAM
      rw [hcount]
      intro j hj hkey
      have hl1 := aliasKeyPriv_inL0L1 hkey
      have hfirst := buffer.inside 0 (by decide)
      simp only [InL0L1, Within, at_, h0, h1, h2, h3] at *
      bv_omega
    · rw [hcount]
      intro j hj hkey
      have hl1 := aliasKeyPriv_inL0L1 hkey
      simp only [InL0L1, Within, at_, h0, h1, h4] at *
      bv_omega
  have hreport : ∀ ret : Word, Blind InAliasKeyPriv (reportWrite cfg ret) :=
    fun _ => Cut.Lockstep.ite (logLines_blind _ _) (Cut.Lockstep.pure _)
  exact (storeFill_blind _ _ _).bind fun _ => (logLines_blind _ _).bind fun _ => hwrite.bind
    fun ret => (hreport ret).bind fun _ => (logLines_blind _ _).bind fun _ => Cut.Lockstep.stop

theorem runTest_blind (key : Byte) : Blind InAliasKeyPriv (runTest cfg buffer key) := by
  have hsw : Blind InAliasKeyPriv (testWatchdogSW cfg) := testWatchdog_blind tick_blind _ _ _ _
  have hhw : Blind InAliasKeyPriv (testWatchdogHW cfg) :=
    testWatchdog_blind swWatchdogReload_blind _ _ _ _
  exact Cut.Lockstep.ite hsw (Cut.Lockstep.ite hhw
    (Cut.Lockstep.ite testCorruptActiveImage_blind (Cut.Lockstep.pure _)))

theorem reload_blind : BoardBlind (onBoard (watchdogReload cfg)) :=
  onBoard_blind swWatchdogReload_blind

theorem runTestsLoop_blind (rounds : Nat) : BoardBlind (runTestsLoop cfg buffer rounds) := by
  induction rounds with
  | zero => exact Cut.Lockstep.stop
  | succ rounds ih =>
    apply reload_blind.bind
    intro _
    apply uartReceive_blind.bind
    intro key
    cases key with
    | none => exact ih
    | some key =>
      apply Cut.Lockstep.ite (Cut.Lockstep.pure _)
      apply (onBoard_blind (runTest_blind key)).bind
      intro _
      exact (onBoard_blind (logLines_blind _ _)).bind fun _ => ih

theorem samePower {b c : Board} (h : SameBoard b c) : c.world.power = b.world.power := by
  rw [h.world.rest]

theorem runTests_blind : BoardBlind (runTests cfg buffer) := by
  have hpower : ∀ b c : Board, SameBoard b c → c.world.power + 1 = b.world.power + 1 :=
    fun b c h => by rw [samePower h]
  have hloop := board_read (fun b => b.world.power + 1) hpower
    fun rounds => @runTestsLoop_blind cfg buffer rounds
  exact (onBoard_blind (logLines_blind _ _)).bind fun _ => hloop

theorem printHex_blind (a : Addr) (n : Nat) (h : ∀ i, i < n → ¬ InAliasKeyPriv (at_ a i)) :
    BoardBlind (printHex a n) := by
  induction n generalizing a with
  | zero => exact Cut.Lockstep.pure _
  | succ n ih =>
    have hfirst : ¬ InAliasKeyPriv a := by
      have hzero := h 0 (Nat.succ_pos n)
      rwa [at_zero] at hzero
    have hbyte : ∀ b c : Board, SameBoard b c → c.world.mem a = b.world.mem a :=
      fun b c hb => hb.world.mem a hfirst
    have hrest : ∀ v : Byte, BoardBlind (printf (hexByte v) >>= fun _ => printHex (at_ a 1) n) := by
      intro v
      apply (printf_blind (hexByte v)).bind
      intro _
      apply ih
      intro i hi
      rw [at_at, Nat.add_comm 1 i]
      exact h (i + 1) (Nat.succ_lt_succ hi)
    exact board_read (fun b => b.world.mem a) hbyte hrest

/-! ## With certificates that fit -/

/-- The lengths in `l1_params` stay within the fields of the certificates. -/
structure CertificatesFit (m : Memory) : Prop where
  crt : (loadWord m (at_ getSharedL0L1 L1Params.aliasKeyCertLen)).toNat ≤ derMaxPem
  csr : (loadWord m (at_ getSharedL0L1 L1Params.deviceIDCsrLen)).toNat ≤ derMaxPem

theorem CertificatesFit.menuOnly {b b' : Board} (h : CertificatesFit b.world.mem)
    (hmenu : MenuOnly buffer b b') : CertificatesFit b'.world.mem := by
  have hkept : AgreeOn InL0L1 b.world.mem b'.world.mem := fun x hx =>
    hmenu.mem x (shared_not_menuWrites hx)
  have hcrt : loadWord b'.world.mem (at_ getSharedL0L1 L1Params.aliasKeyCertLen) =
      loadWord b.world.mem (at_ getSharedL0L1 L1Params.aliasKeyCertLen) :=
    hkept.loadWord fun i hi => l1Params_field (by decide) hi
  have hcsr : loadWord b'.world.mem (at_ getSharedL0L1 L1Params.deviceIDCsrLen) =
      loadWord b.world.mem (at_ getSharedL0L1 L1Params.deviceIDCsrLen) :=
    hkept.loadWord fun i hi => l1Params_field (by decide) hi
  constructor
  · rw [hcrt]
    exact h.crt
  · rw [hcsr]
    exact h.csr

/-- Two such boards, of which the first has certificates that fit. -/
abbrev FittingBlind {α : Type} (x : Cut Board α) : Prop :=
  Cut.Lockstep (fun b c => SameBoard b c ∧ CertificatesFit b.world.mem) x

theorem fitting_of_menu (buffer : CorruptBuffer) {x : Cut Board α} (hx : BoardBlind x)
    (hmenu : Cut.Keeps (menuOnly buffer) x) : FittingBlind x :=
  hx.keeps hmenu fun hfit hkept => hfit.menuOnly hkept

theorem printArtifact_blind (buffer : CorruptBuffer) (line : Nat) (t : Text) {cert len : Nat}
    (hlen : L1Params.aliasKeyCert ≤ len ∧ len + 4 ≤ L1Params.size)
    (hcert : L1Params.aliasKeyCert ≤ cert ∧ cert + derMaxPem ≤ L1Params.size)
    (hfits : ∀ m : Memory, CertificatesFit m →
      (loadWord m (at_ getSharedL0L1 len)).toNat ≤ derMaxPem) :
    FittingBlind (printArtifact cfg line t cert len) := by
  have hlog : FittingBlind (onBoard (hwLogDebug cfg menuFile line t)) :=
    fitting_of_menu buffer (onBoard_blind (log_blind _ _ _ _))
      (onBoard_log (hwLogAt_logOnly _ _ _ _ _))
  apply hlog.bind
  intro _ b c h
  obtain ⟨hsame, hfit⟩ := h
  have hword : loadWord c.world.mem (at_ getSharedL0L1 len) =
      loadWord b.world.mem (at_ getSharedL0L1 len) :=
    hsame.world.mem.loadWord fun i hi => field_not_aliasKeyPriv (Or.inr hlen) hi
  have hbound := hfits b.world.mem hfit
  have hprint : FittingBlind (printHex (at_ getSharedL0L1 cert)
      (loadWord b.world.mem (at_ getSharedL0L1 len)).toNat) := by
    apply fitting_of_menu buffer _ (printHex_menuOnly _ _)
    apply printHex_blind
    intro i hi
    exact field_not_aliasKeyPriv (k := cert) (Or.inr hcert) (Nat.lt_of_lt_of_le hi hbound)
  apply Cut.Alike.state_bind
  rw [hword]
  exact hprint b c ⟨hsame, hfit⟩

theorem printArtifacts_blind (buffer : CorruptBuffer) : FittingBlind (printArtifacts cfg) :=
  (printArtifact_blind buffer _ _ (by decide) (by decide) fun _ h => h.crt).bind fun _ =>
    printArtifact_blind buffer _ _ (by decide) (by decide) fun _ h => h.csr

theorem fitting_log {x : Cut World α} (buffer : CorruptBuffer) (hx : Blind InAliasKeyPriv x)
    (hlog : Cut.Keeps logOnly x) : FittingBlind (onBoard x) :=
  fitting_of_menu buffer (onBoard_blind hx) (onBoard_log hlog)

theorem menuAction_blind (key : Byte) : FittingBlind (menuAction cfg buffer key) := by
  have htests : Cut.Keeps (menuOnly buffer) (runTests cfg buffer) :=
    (onBoard_log (logLines_logOnly _ _)).bind fun _ => Cut.Keeps.state_bind fun _ =>
      runTestsLoop_menuOnly _
  have hinvalid : FittingBlind
      (onBoard (hwLogDebug cfg menuFile 190 (text "Invalid Number !"))) :=
    fitting_log buffer (log_blind _ _ _ _) (hwLogAt_logOnly cfg _ _ _ _)
  exact Cut.Lockstep.ite (fitting_of_menu buffer runTests_blind htests)
    (Cut.Lockstep.ite (printArtifacts_blind buffer) hinvalid)

theorem menuRound_blind : FittingBlind (menuRound cfg buffer) := by
  have hreload : FittingBlind (onBoard (watchdogReload cfg)) :=
    fitting_log buffer swWatchdogReload_blind watchdogReload_logOnly
  apply hreload.bind
  intro _
  apply (fitting_of_menu buffer uartReceive_blind uartReceive_menuOnly).bind
  intro key
  cases key with
  | none => exact Cut.Lockstep.pure _
  | some key =>
    exact (menuAction_blind key).bind fun _ =>
      fitting_log buffer (logLines_blind _ _) (logLines_logOnly _ _)

theorem menuLoop_blind (rounds : Nat) : FittingBlind (menuLoop cfg buffer rounds) := by
  induction rounds with
  | zero => exact Cut.Lockstep.stop
  | succ rounds ih => exact menuRound_blind.bind fun _ => ih

/-! ## The image -/

theorem flash_not_aliasKeyPriv {x : Addr} (h : InFlash x) : ¬ InAliasKeyPriv x := fun hx =>
  shared_notFlash (aliasKeyPriv_inShared x hx) h

theorem any_range_congr {n : Nat} {p q : Nat → Bool} (h : ∀ i, i < n → p i = q i) :
    (List.range n).any p = (List.range n).any q := by
  rw [Bool.eq_iff_iff, List.any_eq_true, List.any_eq_true]
  constructor
  · rintro ⟨i, hi, hp⟩
    exact ⟨i, hi, (h i (List.mem_range.mp hi)) ▸ hp⟩
  · rintro ⟨i, hi, hq⟩
    exact ⟨i, hi, (h i (List.mem_range.mp hi)).symm ▸ hq⟩

theorem testReadHidden_blind (name : Text) (line : Nat) {address : Addr}
    (hflash : ∀ i, i < 256 → InFlash (at_ address i)) :
    Blind InAliasKeyPriv (testReadHidden cfg name address line) := by
  have hread : ∀ w t : World, w.SameBut InAliasKeyPriv t →
      ((List.range 8).any fun i => (List.range 32).any fun j =>
        t.mem (at_ address (32 * i + j)) != 0) =
      (List.range 8).any fun i => (List.range 32).any fun j =>
        w.mem (at_ address (32 * i + j)) != 0 := by
    intro w t h
    apply any_range_congr
    intro i hi
    apply any_range_congr
    intro j hj
    rw [h.mem _ (flash_not_aliasKeyPriv (hflash _ (by omega)))]
  have hreport : ∀ valueRead : Bool, Blind InAliasKeyPriv
      (reportHidden cfg valueRead line >>= fun _ => (pure 0 : Cut World Word)) := by
    intro valueRead
    have hlogs : Blind InAliasKeyPriv (reportHidden cfg valueRead line) :=
      Cut.Lockstep.ite (log_blind _ _ _ _) (log_blind _ _ _ _)
    exact hlogs.bind fun _ => Cut.Lockstep.pure _
  have hrest := blind_read _ hread hreport
  exact (log_blind _ _ _ _).bind fun _ => (log_blind _ _ _ _).bind fun _ => hrest

theorem testReadDICEL0SharedMemory_blind :
    Blind InAliasKeyPriv (testReadDICEL0SharedMemory cfg) := by
  have hread : ∀ w t : World, w.SameBut InAliasKeyPriv t →
      sharedNonZero t.mem = sharedNonZero w.mem := by
    intro w t h
    have hsize : (getSharedL0L1 - getSharedDiceL0).toNat = sharedHalf := by decide
    have hhalf : sharedHalf < 2 ^ 32 := by decide
    unfold sharedNonZero
    rw [hsize]
    apply any_range_congr
    intro i hi
    have hdice : InDiceL0 (at_ getSharedDiceL0 i) := (within_at _ (by omega)).mpr hi
    rw [h.mem _ fun hkey => halves_apart hdice (aliasKeyPriv_inL0L1 hkey)]
  have hreport : ∀ nonZero : Bool, Blind InAliasKeyPriv (if nonZero then
        hwLogDebug cfg testsFile 99 (text "    FAIL!") >>= fun _ => pure (-1)
      else hwLogDebug cfg testsFile 102 (text "    SUCCESS!") >>= fun _ =>
        (pure 0 : Cut World Word)) := fun _ =>
    Cut.Lockstep.ite ((log_blind _ _ _ _).bind fun _ => Cut.Lockstep.pure _)
      ((log_blind _ _ _ _).bind fun _ => Cut.Lockstep.pure _)
  have hrest := blind_read _ hread hreport
  exact (log_blind _ _ _ _).bind fun _ => (log_blind _ _ _ _).bind fun _ => hrest

theorem l1Tests_blind : Blind InAliasKeyPriv (l1Tests cfg) := by
  have h0 : getFlashStart = 0x08000000#32 := rfl
  have h1 : getDICEImageStart = 0x08000000#32 := rfl
  have h2 : getKeyManifestStart = 0x08020000#32 := rfl
  have hdice : Blind InAliasKeyPriv (testReadDICEImage cfg) := by
    apply testReadHidden_blind
    intro i hi
    simp only [InFlash, Within, at_, h0, h1]
    bv_omega
  have hmanifest : Blind InAliasKeyPriv (testReadKeyManifest cfg) := by
    apply testReadHidden_blind
    intro i hi
    simp only [InFlash, Within, at_, h0, h2]
    bv_omega
  have hreport : ∀ failed : Word, Blind InAliasKeyPriv (l1Tests.reportTests cfg failed) := fun _ =>
    Cut.Lockstep.ite ((log_blind _ _ _ _).bind fun _ => log_blind _ _ _ _) (Cut.Lockstep.pure _)
  have hmeasurement : ∀ w t : World, w.SameBut InAliasKeyPriv t →
      bytesAt t.mem (at_ getSharedL0L1 L1Params.hwMeasurement) hwMeasurementLen =
        bytesAt w.mem (at_ getSharedL0L1 L1Params.hwMeasurement) hwMeasurementLen := fun w t h =>
    h.mem.bytesAt fun i hi => field_not_aliasKeyPriv (k := L1Params.hwMeasurement)
      (n := hwMeasurementLen) (by decide) hi
  have htests : Blind InAliasKeyPriv (testReadDICEImage cfg >>= fun dice =>
      testReadKeyManifest cfg >>= fun manifest => testReadDICEL0SharedMemory cfg >>= fun shared =>
        l1Tests.reportTests cfg (dice ||| manifest ||| shared) >>= fun _ =>
          pure (dice ||| manifest ||| shared)) :=
    hdice.bind fun dice => hmanifest.bind fun manifest => testReadDICEL0SharedMemory_blind.bind
      fun shared => (hreport _).bind fun _ => Cut.Lockstep.pure _
  have hsecret : ∀ bs : List Byte, Blind InAliasKeyPriv (hwLogSecretHex cfg l1MainFile 33 bs) :=
    hwLogSecretHex_blind aliasKeyPriv_inShared l1MainFile 33
  have hhex := blind_read _ hmeasurement fun bs => (hsecret bs).bind fun _ => htests
  have hreload : Blind InAliasKeyPriv (watchdogReload cfg) := swWatchdogReload_blind
  exact hreload.bind fun _ => (hwLogInfoStr_blind aliasKeyPriv_inShared _).bind fun _ =>
    (log_blind _ _ _ _).bind fun _ => hhex

theorem l1Menu_blind : FittingBlind (l1Menu cfg buffer) := by
  have hpower : ∀ b c : Board, SameBoard b c ∧ CertificatesFit b.world.mem →
      c.world.power + 1 = b.world.power + 1 := fun b c h => by rw [samePower h.1]
  have hpackage : ∀ b c : Board, SameBoard b c ∧ CertificatesFit b.world.mem →
      c.world.packageType = b.world.packageType := fun b c h => by rw [h.1.world.rest]
  have hloop : FittingBlind (Cut.state >>= fun b => menuLoop cfg buffer (b.world.power + 1)) :=
    Cut.Lockstep.read (k := fun rounds => menuLoop cfg buffer rounds) _ hpower fun rounds =>
      menuLoop_blind rounds
  have hmenu : FittingBlind (onBoard (printMainMenu cfg) >>= fun _ =>
      Cut.state >>= fun b => menuLoop cfg buffer (b.world.power + 1)) :=
    (fitting_log buffer (logLines_blind _ _) (logLines_logOnly _ _)).bind fun _ => hloop
  have hstart : ∀ package : Word, FittingBlind (onBoard (logPackage cfg package) >>= fun _ =>
      if package ≠ packageTypeTqfp144 then pure ()
      else onBoard (printMainMenu cfg) >>= fun _ => Cut.state >>= fun b =>
        menuLoop cfg buffer (b.world.power + 1)) := fun package =>
    (fitting_log buffer (log_blind _ _ _ _) (hwLogAt_logOnly cfg _ _ _ _)).bind fun _ =>
      Cut.Lockstep.ite (Cut.Lockstep.pure _) hmenu
  exact Cut.Lockstep.read (fun b : Board => b.world.packageType) hpackage hstart

/-- All of L1, with its tests and its menu. -/
theorem l1Image_blind : FittingBlind (main cfg buffer) := by
  have hstart : FittingBlind (onBoard (imageStart cfg mainFile 22)) := by
    apply fitting_of_menu buffer
    · exact onBoard_blind (imageStart_blind aliasKeyPriv_inShared _ _)
    · exact onBoard_menuOnly ((imageStart_platformOnly mainFile 22).mono fun _ _ h =>
        h.changes.mono fun _ => Or.inl)
  have hmain : FittingBlind (l1Main cfg buffer) :=
    (fitting_log buffer l1Tests_blind l1Tests_logOnly).bind fun _ => l1Menu_blind.bind fun _ =>
      Cut.Lockstep.pure _
  have hleave : ∀ start : BitVec 64, FittingBlind (onBoard (leave cfg start)) := by
    intro start
    have hend : Cut.Keeps platformOnly (leave cfg start) :=
      (halStatus_then (Cut.Keeps.pure _) (Cut.Keeps.pure _)).bind fun _ =>
        Cut.Keeps.bind (Cut.Keeps.ite bothCalls_platformOnly (Cut.Keeps.pure _)) fun _ =>
          (platformOnly_of_logOnly getTimeNow_logOnly).bind fun _ => hwLogAt_platformOnly _ _ _ _
    apply fitting_of_menu buffer
    · exact onBoard_blind (hwRngDeInit_blind.bind fun _ => swWatchdogEnd_blind.bind fun _ =>
        getTimeNow_blind.bind fun _ => log_blind _ _ _ _)
    · exact onBoard_menuOnly (hend.mono fun _ _ h => h.changes.mono fun _ => Or.inl)
  exact hstart.bind fun start => hmain.bind fun _ => (hleave start).bind fun _ => Cut.Lockstep.stop

/-- What L0 hands over fits. -/
theorem certificatesFit_of_handedOver {cfgL0 : BuildConfig} {E : L0Engine} {p : L0ParamsView}
    {fwid : List Byte} {m : Memory} (h : HandedOver cfgL0 E p fwid m) : CertificatesFit m := by
  constructor
  · rw [h.lengths.crt]
    exact E.crtFits cfgL0.l0Version
  · rw [h.lengths.csr]
    exact E.csrFits

/-- **The private alias key has no influence on L1.** Start L1 on a board whose certificates fit
their fields, and on the same board with any other private alias key, press the same keys and cut
the power at any one moment: the console shows the same, and so does all memory but the key. -/
theorem alias_key_not_on_console {b : Board} {m : Memory} (hfit : CertificatesFit b.world.mem)
    (h : AgreeOn (fun x => ¬ InAliasKeyPriv x) b.world.mem m) :
    (main cfg buffer (b.withMem m)).2.console = (main cfg buffer b).2.console ∧
    ∀ x, ¬ InAliasKeyPriv x →
      (main cfg buffer (b.withMem m)).2.world.mem x = (main cfg buffer b).2.world.mem x := by
  have hblind : FittingBlind (main cfg buffer) := l1Image_blind
  have hsame : SameBoard b (b.withMem m) := ⟨⟨h, rfl⟩, rfl, rfl⟩
  obtain ⟨hend, _⟩ := (hblind b _ ⟨hsame, hfit⟩).states
  exact ⟨hend.console, hend.world.mem⟩

end Session

/-- The memory of the sample session with another private key. -/
def otherKeyMemory : Memory :=
  fill sampleStart.world.mem (at_ getSharedL0L1 L1Params.aliasKeyPriv) keyLen 0x55

theorem sampleStart_key_not_on_console :
    (main plainBuild sampleBuffer (sampleStart.withMem otherKeyMemory)).2.console =
      (main plainBuild sampleBuffer sampleStart).2.console := by
  obtain ⟨fwid, hover⟩ := sampleStart_handedOver
  have hfit := certificatesFit_of_handedOver hover
  have hkey : AgreeOn (fun x => ¬ InAliasKeyPriv x) sampleStart.world.mem otherKeyMemory :=
    fun x hx => fill_outside hx
  obtain ⟨hconsole, _⟩ :=
    @alias_key_not_on_console plainBuild sampleBuffer sampleStart otherKeyMemory hfit hkey
  exact hconsole

end L1Image

end VerifiedDice
