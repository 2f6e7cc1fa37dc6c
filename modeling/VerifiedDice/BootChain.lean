import VerifiedDice.ImageStart
import VerifiedDice.L0Handover
import VerifiedDice.L1Session

/-!
# From DICE to L1

What the three images hand to one another through the volatile shared RAM: `DICE_main` writes
`l0_params`, L0 makes `l1_params` of it and cleans the half of DICE, L1 checks that it is clean.
-/
namespace VerifiedDice.BootChain

open ByteMemory ImageStart
open Startup (ImageSymbols)

/-! ## DICE -/

/-- The two fields that `DICEHandleArgsAndDice` itself writes. -/
def InL0Head (x : Addr) : Prop := Within getSharedDiceL0 L0Params.cdi x

structure DiceHeaded (cfg : BuildConfig) (m : Memory) : Prop where
  versionDICE : (readL0Params m).versionDICE = cfg.versionDiceFull
  hwMeasurement : (readL0Params m).hwMeasurement = hwMeasurementText.take hwMeasurementLen

theorem inL0Head_inShared {x : Addr} (h : InL0Head x) : InShared x := by
  have hsize : L0Params.cdi ≤ sharedHalf := by decide
  exact (inShared_iff x).mpr (Or.inl (Nat.lt_of_lt_of_le h hsize))

theorem l0Head_field {k n : Nat} (h : k + n ≤ L0Params.cdi) {i : Nat} (hi : i < n) :
    InL0Head (at_ (at_ getSharedDiceL0 k) i) := by
  have hsize : L0Params.cdi = 36 := rfl
  rw [at_at]
  exact (within_at _ (by omega)).mpr (by omega)

theorem shared_not_scratch {x : Addr} (h : InShared x) : ¬ Scratch x := by
  have h0 : getSharedRamStart = 0x38000000#32 := rfl
  have h1 : getSharedRamSize = 65536 := rfl
  have h2 : dtcmStart = 0x20000000#32 := rfl
  have h3 : dtcmLength = 131072 := rfl
  rintro (hdtcm | hlog)
  · simp only [InShared, Within, h0, h1, h2, h3] at *
    bv_omega
  · exact shared_not_inLogs h hlog

section Dice

variable {cfg : BuildConfig} {s : SecretCopies} {locals : SecretLocals} {d : DiceCore}

theorem DiceHeaded.congr {m m' : Memory} (h : DiceHeaded cfg m) (hm : AgreeOn InL0Head m m') :
    DiceHeaded cfg m' := by
  have hversion : (readL0Params m').versionDICE = (readL0Params m).versionDICE :=
    hm.loadWord fun i hi => l0Head_field (k := L0Params.versionDICE) (by decide) hi
  have hmeasurement : (readL0Params m').hwMeasurement = (readL0Params m).hwMeasurement :=
    hm.bytesAt fun i hi => l0Head_field (k := L0Params.hwMeasurement) (by decide) hi
  exact ⟨hversion.trans h.versionDICE, hmeasurement.trans h.hwMeasurement⟩

/-- The two stores of `DICEHandleArgsAndDice`. -/
theorem diceHeaded_stores (m : Memory) :
    DiceHeaded cfg (write (write m (at_ getSharedDiceL0 L0Params.hwMeasurement)
      (hwMeasurementText.take hwMeasurementLen)) (at_ getSharedDiceL0 L0Params.versionDICE)
      (bytesOfWord cfg.versionDiceFull)) := by
  have hlen : (hwMeasurementText.take hwMeasurementLen).length = hwMeasurementLen := by decide
  have hword : (bytesOfWord cfg.versionDiceFull).length = 4 := length_bytesOfWord _
  have h1 : L0Params.versionDICE = 0 := rfl
  have h2 : L0Params.hwMeasurement = 4 := rfl
  have h3 : hwMeasurementLen = 32 := rfl
  constructor
  · exact loadWord_storeWord _ _ _ (by decide)
  · have hself := bytesAt_write_self m (at_ getSharedDiceL0 L0Params.hwMeasurement)
      (hwMeasurementText.take hwMeasurementLen) (by omega)
    rw [hlen] at hself
    have hcopy : (readL0Params (write (write m (at_ getSharedDiceL0 L0Params.hwMeasurement)
        (hwMeasurementText.take hwMeasurementLen)) (at_ getSharedDiceL0 L0Params.versionDICE)
        (bytesOfWord cfg.versionDiceFull))).hwMeasurement = bytesAt (write m
        (at_ getSharedDiceL0 L0Params.hwMeasurement) (hwMeasurementText.take hwMeasurementLen))
        (at_ getSharedDiceL0 L0Params.hwMeasurement) hwMeasurementLen := by
      apply bytesAt_congr
      intro i hi
      rw [at_at]
      exact write_apart (by omega) (by omega) (by omega)
    exact hcopy.trans hself

theorem diceAction_quiet (action : DiceAction)
    (hspares : ∀ c, action = .compute c → ∀ x, InL0Head x → c.footprint x = false) :
    Cut.Keeps (quiet InL0Head) (action.run cfg s) := by
  cases action with
  | readUds udsOut =>
    intro w
    obtain ⟨r', w1, hget, hlog, _⟩ := readUds_ends cfg s udsOut w
    have hscratch : ∀ x, InL0Head x → ¬ Scratch x := fun x hx =>
      shared_not_scratch (inL0Head_inShared hx)
    have hquiet : w.Quiet InL0Head w1 :=
      ⟨fun x hx => hget.scratch.mem x (hscratch x hx),
        fun x hx => hget.scratch.written x (hscratch x hx), hget.scratch.launched⟩
    exact hquiet.trans (hlog.quiet fun x hx => shared_not_inLogs (inL0Head_inShared hx))
  | compute c =>
    have hc := hspares c rfl
    apply step_keeps
    intro w
    constructor
    · exact fun y hy => c.frame w.mem y (hc y hy)
    · intro x hx
      show (w.written x || c.footprint x) = w.written x
      rw [hc x hx, Bool.or_false]
    · rfl

theorem runActions_keepHead (actions : List DiceAction)
    (hspares : ∀ c, DiceAction.compute c ∈ actions → ∀ x, InL0Head x → c.footprint x = false) :
    Cut.Keeps (quiet InL0Head) (runActions cfg s actions) := by
  induction actions with
  | nil => exact Cut.Keeps.pure _
  | cons action actions ih =>
    have hfirst : Cut.Keeps (quiet InL0Head) (action.run cfg s) :=
      diceAction_quiet action fun c hc => hspares c (hc ▸ List.mem_cons_self)
    exact hfirst.bind fun _ => ih fun c hc => hspares c (List.mem_cons_of_mem _ hc)

theorem log_keepsHead (level : LogLevel) (file : String) (line : Nat) (t : Text) :
    Cut.Keeps (quiet InL0Head) (hwLogAt cfg level file line t) :=
  (hwLogAt_logOnly cfg level file line t).mono fun _ _ h =>
    h.quiet fun _ hx => shared_not_inLogs (inL0Head_inShared hx)

theorem diceCore_keepsHead (hspares : ∀ x, InL0Head x → d.Spares x) :
    Cut.Keeps (quiet InL0Head) (diceCore cfg s d) := by
  have hactions : Cut.Keeps (quiet InL0Head) (runActions cfg s d.actions) :=
    runActions_keepHead d.actions fun c hc x hx => hspares x hx c hc
  unfold diceCore diceMain
  apply (log_keepsHead .trace _ _ _).bind
  intro _
  apply (hactions.bind fun _ => Cut.Keeps.pure _).bind
  intro ret
  apply (log_keepsHead .debug _ _ _).bind
  intro _
  apply (log_keepsHead .trace _ _ _).bind
  intro _
  exact Cut.Keeps.pure ret

/-- `RunDICE`, if it returns. -/
theorem runDICE_headed (hspares : ∀ x, InL0Head x → d.Spares x) (w : World) :
    Cut.Sat (runDICE cfg s d) w fun r w' => ∀ v, r = some v → DiceHeaded cfg w'.mem := by
  let T : Word → World → Prop := fun _ w' => DiceHeaded cfg w'.mem
  unfold runDICE diceHandleArgsAndDice
  apply Cut.Sat.bind_result (T := T) (storeFill_fills getSharedDiceL0 sharedHalf 0 w)
  intro _ w1 _
  apply Cut.Sat.bind_result (T := T) (store_stores _ _ w1)
  intro _ w2 h2
  apply Cut.Sat.bind_result (T := T) (store_stores _ _ w2)
  intro _ w3 h3
  have hheaded : DiceHeaded cfg w3.mem := by
    rw [h3 rfl, h2 rfl]
    exact diceHeaded_stores w1.mem
  apply ((diceCore_keepsHead hspares).sat w3).mono
  intro _ w4 h4 _ _
  exact hheaded.congr h4.mem

/-- A normal boot only returns 0 behind `RunDICE`. -/
theorem normalBoot_headed (hspares : ∀ x, InL0Head x → d.Spares x) (w : World) :
    Cut.Sat (normalBoot cfg s locals d) w fun r w' =>
      ∀ v, r = some v → v = 0 → DiceHeaded cfg w'.mem := by
  let T : Word → World → Prop := fun v w' => v = 0 → DiceHeaded cfg w'.mem
  have htrue : ∀ {α : Type} (x : Cut World α) (u : World), Cut.Sat x u fun _ _ => True :=
    fun _ _ => trivial
  unfold normalBoot
  apply Cut.Sat.bind_result (T := T) (htrue _ w)
  intro ret w1 _
  apply Cut.Sat.ite
  · intro _
    apply failed_sat
    rintro _ w' hr _ v rfl rfl
    exact absurd rfl hr
  · intro _
    apply Cut.Sat.bind_result (T := T) (htrue _ w1)
    intro _ w2 _
    exact (runDICE_headed hspares w2).mono fun _ _ h v hv _ => h v hv

section Launched

variable {T : World → Prop}
  (hboot : ∀ w, Cut.Sat (normalBoot cfg s locals d) w fun r w' => ∀ v, r = some v → v = 0 → T w')

include hboot

/-- `DICE_main` only returns 0 behind a normal boot. -/
theorem diceMainImage_of_normalBoot (w : World) :
    Cut.Sat (diceMainImage cfg s locals d) w fun r w' => ∀ v, r = some v → v = 0 → T w' := by
  let T' : Word → World → Prop := fun v w' => v = 0 → T w'
  have hrefuse : ∀ {file : String} {line : Nat} {t : Text} {level : LogLevel} (w : World),
      Cut.Sat (hwLogAt cfg level file line t >>= fun _ => (pure (-1) : Cut World Word)) w
        fun r w' => ∀ v, r = some v → T' v w' := by
    intro file line t level w
    apply failed_sat
    rintro _ w' hr _ v rfl rfl
    exact absurd rfl hr
  have htrue : ∀ {α : Type} (x : Cut World α) (u : World), Cut.Sat x u fun _ _ => True :=
    fun _ _ => trivial
  unfold diceMainImage
  apply Cut.Sat.bind_result (T := T') (htrue _ w)
  intro _ w1 _
  apply Cut.Sat.bind_result (T := T') (htrue _ w1)
  intro ret w2 _
  apply Cut.Sat.ite fun _ => hrefuse w2
  intro _
  apply Cut.Sat.bind_result (T := T') (htrue _ w2)
  intro _ w3 _
  apply Cut.Sat.state_bind
  apply Cut.Sat.bind_result (T := T') (htrue _ w3)
  intro _ w4 _
  exact Cut.Sat.ite (fun _ => hrefuse w4) fun _ => hboot w4

/-- What holds behind every normal boot that returns 0, whatever is logged afterwards, holds when
L0 is launched. -/
theorem launched_of_normalBoot
    (hcongr : ∀ {w w' : World}, T w → (∀ x, ¬ InLogs x → w'.mem x = w.mem x) → T w')
    {w : World} (hnone : w.launched = none)
    (hlaunched : (main cfg s locals d w).2.launched ≠ none) : T (main cfg s locals d w).2 := by
  have hsat : Cut.Sat (main cfg s locals d) w fun _ w' => w'.launched ≠ none → T w' := by
    unfold main
    apply (mainStart_platformOnly.sat w).bind
    · intro start w1 h1
      have hnone1 : w1.launched = none := h1.changes.launched.trans hnone
      have hkept : Cut.Sat (diceMainImage cfg s locals d) w1 fun _ w2 =>
          w2.launched = w1.launched := diceMainImage_launchKept.sat w1
      apply (hkept.and (diceMainImage_of_normalBoot hboot w1)).bind
      · rintro ret w2 ⟨h2, hdone⟩
        apply (mainEnd_ends start ret w2).mono
        intro _ w3 h3 hne
        have hret : ret = 0 := by
          by_contra hret
          exact hne ((h3.failed hret).launched.trans (h2.trans hnone1))
        exact hcongr (hdone ret rfl hret) h3.mem
      · rintro w2 ⟨h2, _⟩ hne
        exact absurd (h2.trans hnone1) hne
    · intro w1 h1 hne
      exact absurd (h1.changes.launched.trans hnone) hne
  exact hsat hlaunched

end Launched

/-- L0 is only launched with both fields in place. -/
theorem dice_hands_over (hspares : ∀ x, InL0Head x → d.Spares x) {w : World}
    (hnone : w.launched = none) (hlaunched : (main cfg s locals d w).2.launched ≠ none) :
    DiceHeaded cfg (main cfg s locals d w).2.mem := by
  apply launched_of_normalBoot (T := fun w => DiceHeaded cfg w.mem) (normalBoot_headed hspares)
  · intro w w' h hlogs
    exact h.congr fun x hx => hlogs x (shared_not_inLogs (inL0Head_inShared hx))
  · exact hnone
  · exact hlaunched

end Dice

/-! ## L1 -/

section L1

variable {cfg : BuildConfig} {buffer : L1Image.CorruptBuffer}

def SharedClean (m : Memory) : Prop := ∀ x, InDiceL0 x → m x = 0

theorem sharedNonZero_eq_false {m : Memory} : L1Image.sharedNonZero m = false ↔ SharedClean m := by
  have hsize : (getSharedL0L1 - getSharedDiceL0).toNat = sharedHalf := by decide
  have hhalf : sharedHalf = 32768 := rfl
  rw [L1Image.sharedNonZero, hsize, List.any_eq_false]
  constructor
  · intro h x hx
    obtain ⟨i, hi, rfl⟩ := exists_at_of_within hx
    simpa using h i (List.mem_range.mpr hi)
  · intro h i hi
    have hin : InDiceL0 (at_ getSharedDiceL0 i) :=
      (within_at _ (by have := List.mem_range.mp hi; omega)).mpr (List.mem_range.mp hi)
    simpa using h _ hin

theorem logged_clean {w w' : World} (h : w.LogOnly w') (hclean : SharedClean w.mem) :
    SharedClean w'.mem := by
  intro x hx
  rw [h.mem x (shared_not_inLogs ((inShared_iff x).mpr (Or.inl hx)))]
  exact hclean x hx

/-- Both protections tests are for the eye only. -/
theorem testReadHidden_zero (name : Text) (address : Addr) (line : Nat) (w : World) :
    Cut.Sat (L1Image.testReadHidden cfg name address line) w fun r w' =>
      w.LogOnly w' ∧ ∀ v, r = some v → v = 0 := by
  have hzero : Cut.Sat (L1Image.testReadHidden cfg name address line) w fun r _ =>
      ∀ v, r = some v → v = 0 := by
    let T : Word → World → Prop := fun v _ => v = 0
    have htrue : ∀ {α : Type} (x : Cut World α) (u : World), Cut.Sat x u fun _ _ => True :=
      fun _ _ => trivial
    unfold L1Image.testReadHidden
    apply Cut.Sat.bind_result (T := T) (htrue _ w)
    intro _ w1 _
    apply Cut.Sat.bind_result (T := T) (htrue _ w1)
    intro _ w2 _
    apply Cut.Sat.state_bind
    apply Cut.Sat.bind_result (T := T) (htrue _ w2)
    intro _ w3 _
    apply Cut.Sat.pure
    rintro v ⟨⟩
    rfl
  exact ((L1Image.testReadHidden_logOnly name address line).sat w).and hzero

/-- The test reports exactly whether the half of DICE is clean. -/
theorem testReadDICEL0SharedMemory_zero_iff (w : World) :
    Cut.Sat (L1Image.testReadDICEL0SharedMemory cfg) w fun r w' =>
      w.LogOnly w' ∧ ∀ v, r = some v → (v = 0 ↔ SharedClean w.mem) := by
  have hkept : ∀ {u u' : World}, u.LogOnly u' → (SharedClean u'.mem ↔ SharedClean u.mem) := by
    intro u u' h
    have hsame : ∀ x, InDiceL0 x → u'.mem x = u.mem x := fun x hx =>
      h.mem x (shared_not_inLogs ((inShared_iff x).mpr (Or.inl hx)))
    constructor
    · exact fun hc x hx => (hsame x hx).symm.trans (hc x hx)
    · exact logged_clean h
  have hlog : ∀ (level : LogLevel) (line : Nat) (t : Text) (u : World),
      Cut.Sat (hwLogAt cfg level L1Image.testsFile line t) u fun _ u' => u.LogOnly u' :=
    fun level line t u => (hwLogAt_logOnly cfg level _ line t).sat u
  unfold L1Image.testReadDICEL0SharedMemory
  apply (hlog _ _ _ w).bind
  · intro _ w1 h1
    apply (hlog _ _ _ w1).bind
    · intro _ w2 h2
      have h12 := h1.trans h2
      apply Cut.Sat.state_bind
      apply Cut.Sat.ite
      · intro hread
        apply (hlog _ _ _ w2).bind
        · intro _ w3 h3
          apply Cut.Sat.pure
          refine ⟨h12.trans h3, ?_⟩
          rintro v ⟨⟩
          rw [← hkept h12, ← sharedNonZero_eq_false, hread]
          decide
        · exact fun w3 h3 => ⟨h12.trans h3, nofun⟩
      · intro hread
        apply (hlog _ _ _ w2).bind
        · intro _ w3 h3
          apply Cut.Sat.pure
          refine ⟨h12.trans h3, ?_⟩
          rintro v ⟨⟩
          rw [← hkept h12, ← sharedNonZero_eq_false]
          simpa using hread
        · exact fun w3 h3 => ⟨h12.trans h3, nofun⟩
    · exact fun w2 h2 => ⟨h1.trans h2, nofun⟩
  · exact fun w1 h1 => ⟨h1, nofun⟩

/-- No test fails on a clean half. -/
theorem l1Tests_zero {w : World} (hclean : SharedClean w.mem) :
    Cut.Sat (L1Image.l1Tests cfg) w fun r _ => ∀ v, r = some v → v = 0 := by
  let T : Word → World → Prop := fun v _ => v = 0
  unfold L1Image.l1Tests
  apply Cut.Sat.bind_result (T := T) (watchdogReload_logOnly.sat w)
  intro _ w1 h1
  apply Cut.Sat.bind_result (T := T) ((hwLogInfoStr_logOnly cfg _).sat w1)
  intro _ w2 h2
  apply Cut.Sat.bind_result (T := T) ((hwLogAt_logOnly cfg .secret _ _ _).sat w2)
  intro _ w3 h3
  apply Cut.Sat.state_bind
  apply Cut.Sat.bind_result (T := T) ((hwLogSecretHex_logOnly cfg _ _ _).sat w3)
  intro _ w4 h4
  apply Cut.Sat.bind_result (T := T) (testReadHidden_zero _ _ _ w4)
  rintro dice w5 ⟨h5, hdice⟩
  apply Cut.Sat.bind_result (T := T) (testReadHidden_zero _ _ _ w5)
  rintro manifest w6 ⟨h6, hmanifest⟩
  have hlogs := ((h1.trans h2).trans (h3.trans h4)).trans (h5.trans h6)
  apply Cut.Sat.bind_result (T := T) (testReadDICEL0SharedMemory_zero_iff w6)
  rintro shared w7 ⟨h7, hshared⟩
  have hzero : dice ||| manifest ||| shared = 0 := by
    rw [hdice dice rfl, hmanifest manifest rfl,
      (hshared shared rfl).mpr (logged_clean hlogs hclean)]
    rfl
  apply Cut.Sat.bind_result (T := T) ((L1Image.reportTests_logOnly _).sat w7)
  intro _ w8 _
  apply Cut.Sat.pure
  rintro v ⟨⟩
  exact hzero

/-- `L1_main`, if it returns, whatever happens in the menu. -/
theorem l1Main_zero {b b' : Board} {r : Word} (hclean : SharedClean b.world.mem)
    (hrun : L1Image.l1Main cfg buffer b = (some r, b')) : r = 0 := by
  unfold L1Image.l1Main at hrun
  obtain ⟨testFailed, b1, htests, hrest⟩ := Cut.bind_eq_some hrun
  obtain rfl := (l1Tests_zero hclean).elim (onBoard_world htests) testFailed rfl
  obtain ⟨_, b2, _, hret⟩ := Cut.bind_eq_some hrest
  cases hret
  rfl

/-- The tests of `L1_main` run through, if the power lasts, and find nothing, and where the menu
does not go on for ever `L1_main` returns 0. -/
structure TestsPass (cfg : BuildConfig) (b : Board) : Prop where
  run : 43 ≤ b.world.power → ∃ b', onBoard (L1Image.l1Tests cfg) b = (some 0, b')
  passed : ∀ v b', onBoard (L1Image.l1Tests cfg) b = (some v, b') → v = 0
  returned : ∀ buffer r b', L1Image.l1Main cfg buffer b = (some r, b') → r = 0

theorem testsPass_of_clean {b : Board} (hclean : SharedClean b.world.mem) : TestsPass cfg b := by
  have hpassed : ∀ v b', onBoard (L1Image.l1Tests cfg) b = (some v, b') → v = 0 :=
    fun v b' hrun => (l1Tests_zero hclean).elim (onBoard_world hrun) v rfl
  constructor
  · intro hpower
    have hruns : Runs 43 (L1Image.l1Tests cfg) := L1Image.l1Tests_runs
    obtain ⟨v, b', hrun, _⟩ := L1Image.onBoard_runs hruns hpower
    obtain rfl := hpassed v b' hrun
    exact ⟨b', hrun⟩
  · exact hpassed
  · intro buffer r b' hrun
    exact l1Main_zero hclean hrun

end L1

/-! ## The chain -/

/-- DICE leaves through `exitSecureArea` of the root secure services, which is not part of the
repository: the volatile shared RAM is as it was when L0 starts. -/
structure ExitsSecureArea (w t : World) : Prop where
  shared : AgreeOn InShared w.mem t.mem
  launched : t.launched = none

/-- L0 leaves through `LaunchImage`, and the image of `L` starts. -/
structure LaunchesImage (L : ImageSymbols) (w t : World) : Prop where
  mem : t.mem = startMemory L w.mem
  launched : t.launched = none

/-- What starts an image keeps the volatile shared RAM. -/
theorem startMemory_shared (L : ImageSymbols) (m : Memory) :
    AgreeOn InShared m (startMemory L m) := by
  have h0 : getSharedRamStart = 0x38000000#32 := rfl
  have h1 : getSharedRamSize = 65536 := rfl
  have h2 : dtcmStart = 0x20000000#32 := rfl
  have h3 : dtcmLength = 131072 := rfl
  have h4 : ImageLaunch.memmapRam.dtcm.start = 0x20000000#32 := rfl
  have h5 : ImageLaunch.memmapRam.dtcm.length.toNat = 131072 := rfl
  have h6 : ImageLaunch.memmapRam.sram123.start = 0x30000000#32 := rfl
  have h7 : ImageLaunch.memmapRam.sram123.length.toNat = 294912 := rfl
  intro x hx
  have hkept : ¬ IsErased x := by
    simp only [IsErased, ImageLaunch.RamRegion.Has, InShared, Within, h0, h1, h4, h5, h6, h7] at *
    bv_omega
  have hdata : ¬ L.InData x := by
    intro hdata
    have hdtcm := Startup.inData_dtcm hdata
    simp only [InShared, Within, h0, h1, h2, h3] at *
    bv_omega
  rw [startMemory, if_neg hdata, if_neg hkept]

/-- What L1 finds behind DICE and L0. -/
theorem chain_handedOver {cfgDice cfgL0 : BuildConfig} {s : SecretCopies}
    {locals : SecretLocals} {d : DiceCore} {C : Crypto} {E : L0Engine} {L : ImageSymbols}
    (hspares : ∀ x, InL0Head x → d.Spares x) {w w0 w1 : World} (hnone : w.launched = none)
    (hdice : (VerifiedDice.main cfgDice s locals d w).2.launched ≠ none)
    (hexit : ExitsSecureArea (VerifiedDice.main cfgDice s locals d w).2 w0)
    (hl0 : (L0Image.main cfgL0 C E w0).2.launched ≠ none)
    (hlaunch : LaunchesImage L (L0Image.main cfgL0 C E w0).2 w1) :
    (∃ fwid, HandedOver cfgL0 E
        { versionDICE := cfgDice.versionDiceFull
          hwMeasurement := hwMeasurementText.take hwMeasurementLen
          cdi := (readL0Params w0.mem).cdi } fwid w1.mem ∧
        (MeasuredInFlash w0.mem → fwid = C.sha256 (bytesAt w0.mem (Launch.measuredL1 w0.mem).start
          (Launch.measuredL1 w0.mem).size.toNat))) ∧
      ∀ x, InDiceL0 x → w1.mem x = 0 := by
  have hheaded := dice_hands_over hspares hnone hdice
  have hparams := readL0Params_congr
    (hexit.shared.mono fun x hx => (inShared_iff x).mpr (Or.inl hx))
  have hends : Cut.Sat (L0Image.main cfgL0 C E) w0 fun _ w' =>
      w'.launched = none ∨ L0Image.Launched cfgL0 C E w0.mem w' :=
    L0Image.main_launches hexit.launched
  have hdone : L0Done cfgL0 C E w0.mem (L0Image.main cfgL0 C E w0).2.mem :=
    (hends.resolve_left hl0).done
  have hstart : AgreeOn InShared (L0Image.main cfgL0 C E w0).2.mem w1.mem := by
    rw [hlaunch.mem]
    exact startMemory_shared L _
  obtain ⟨fwid, hover, hfwid⟩ := hdone.handedOver
  have hview : readL0Params w0.mem = { versionDICE := cfgDice.versionDiceFull
                                       hwMeasurement := hwMeasurementText.take hwMeasurementLen
                                       cdi := (readL0Params w0.mem).cdi } := by
    rw [← hheaded.versionDICE, ← hheaded.hwMeasurement, ← hparams]
  have hover1 := hover.congr (hstart.mono fun x hx => (inShared_iff x).mpr (Or.inr hx))
  rw [hview] at hover1
  constructor
  · exact ⟨fwid, hover1, hfwid⟩
  · intro x hx
    exact (hstart x ((inShared_iff x).mpr (Or.inl hx))).trans (hdone.cleaned x hx)

/-- **What DICE and L0 hand over reaches L1.** Let DICE, started on any device, come to launch
L0, and let L0, started behind it, come to launch L1. Then `l1_params` in L1 is what L0 makes of
the version and the measurement of this DICE and of the secret that it derived, and of the digest
of the L1 in flash, if that is where it ends; and with all of the half of DICE zero, the tests of
`L1_main` find nothing. -/
theorem params_reach_l1 {cfgDice cfgL0 cfgL1 : BuildConfig} {s : SecretCopies}
    {locals : SecretLocals} {d : DiceCore} {C : Crypto} {E : L0Engine} {L : ImageSymbols}
    (hspares : ∀ x, InL0Head x → d.Spares x) {w w0 w1 : World} (hnone : w.launched = none)
    (hdice : (VerifiedDice.main cfgDice s locals d w).2.launched ≠ none)
    (hexit : ExitsSecureArea (VerifiedDice.main cfgDice s locals d w).2 w0)
    (hl0 : (L0Image.main cfgL0 C E w0).2.launched ≠ none)
    (hlaunch : LaunchesImage L (L0Image.main cfgL0 C E w0).2 w1) :
    (∃ fwid, readL1Params w1.mem = l1ParamsOf cfgL0 E
        { versionDICE := cfgDice.versionDiceFull
          hwMeasurement := hwMeasurementText.take hwMeasurementLen
          cdi := (readL0Params w0.mem).cdi } fwid ∧
        (MeasuredInFlash w0.mem → fwid = C.sha256 (bytesAt w0.mem (Launch.measuredL1 w0.mem).start
          (Launch.measuredL1 w0.mem).size.toNat))) ∧
      (∀ x, InDiceL0 x → w1.mem x = 0) ∧
      ∀ (keys : Nat → Option Byte) (start : BitVec 64) (b : Board),
        onBoard (imageStart cfgL1 L1Image.mainFile 22) ⟨w1, keys, []⟩ = (some start, b) →
          TestsPass cfgL1 b := by
  obtain ⟨⟨fwid, hover, hfwid⟩, hclean⟩ := chain_handedOver hspares hnone hdice hexit hl0 hlaunch
  refine ⟨⟨fwid, hover.params, hfwid⟩, hclean, ?_⟩
  intro keys start b hbegin
  have hlogs := (imageStart_platformOnly L1Image.mainFile 22).sat w1 |>.elim (onBoard_world hbegin)
  apply testsPass_of_clean
  intro x hx
  rw [hlogs.mem x (shared_not_inLogs ((inShared_iff x).mpr (Or.inl hx)))]
  exact hclean x hx

/-- A device whose header gives L1 a size of 16 bytes. -/
def headedDevice : World :=
  { blankDevice with
    mem := storeWord blankDevice.mem (at_ getL1ImageStart ImageHeader.fwSize) 16 }

theorem measuredInFlash_of_size {m : Memory} (h : (Launch.measuredL1 m).size = 16) :
    MeasuredInFlash m := by
  rw [measuredInFlash_iff, L1InFlash, h]
  decide

/-- The end of its first boot. -/
def headedBoot : World := (main plainBuild adjacentCopies adjacentLocals readingCore headedDevice).2

/-- L0 behind it. -/
def chainL0 : World :=
  { headedBoot with power := 1000, written := fun _ => false, launched := none }

/-- The end of L0 there. -/
def chainL0End : World :=
  (L0Image.main plainBuild SlotBuild.tagSigner.toCrypto sampleEngine chainL0).2

/-- L1 behind it. -/
def chainL1 : World :=
  { chainL0End with
    mem := startMemory sampleSymbols chainL0End.mem
    power := 1000
    launched := none }

/-- The core that only reads the secret writes to no buffer of its caller. -/
theorem readingCore_spares (x : Addr) : readingCore.Spares x := by
  intro c hc
  rcases List.mem_singleton.mp hc

theorem headedBoot_exits : ExitsSecureArea headedBoot chainL0 := ⟨fun _ _ => rfl, rfl⟩

theorem chainL0End_launches : LaunchesImage sampleSymbols chainL0End chainL1 := ⟨rfl, rfl⟩

theorem headedBoot_launches : headedBoot.launched = some 0x08020800 := by decide +kernel

theorem headedBoot_launched : headedBoot.launched ≠ none := by
  rw [headedBoot_launches]
  exact Option.some_ne_none _

theorem chainL0End_launched : chainL0End.launched ≠ none := by decide +kernel

/-- L1 on its board. -/
def chainBoard : Board := ⟨chainL1, fun _ => none, []⟩

theorem chainBoard_starts :
    (onBoard (imageStart plainBuild L1Image.mainFile 22) chainBoard).1 = some 0 ∧
    43 ≤ (onBoard (imageStart plainBuild L1Image.mainFile 22) chainBoard).2.world.power := by
  decide +kernel

theorem chainL0_measured : Launch.measuredL1 chainL0.mem = ⟨0x08060400, 16⟩ := by decide +kernel

theorem chain_params : headedBoot.launched = some 0x08020800 ∧ chainL0End.launched ≠ none ∧
    readL1Params chainL1.mem = l1ParamsOf plainBuild sampleEngine
      { versionDICE := plainBuild.versionDiceFull
        hwMeasurement := hwMeasurementText.take hwMeasurementLen
        cdi := (readL0Params chainL0.mem).cdi }
      (SlotBuild.tagSigner.sha256 (bytesAt chainL0.mem 0x08060400 16)) ∧
    (∀ x, InDiceL0 x → chainL1.mem x = 0) ∧
    ∃ b b', onBoard (imageStart plainBuild L1Image.mainFile 22) chainBoard = (some 0, b) ∧
      onBoard (L1Image.l1Tests plainBuild) b = (some 0, b') := by
  have hspares : ∀ x, readingCore.Spares x := readingCore_spares
  obtain ⟨⟨fwid, hparams, hfwid⟩, hclean, htests⟩ := @params_reach_l1 plainBuild plainBuild
    plainBuild adjacentCopies adjacentLocals readingCore SlotBuild.tagSigner.toCrypto sampleEngine
    sampleSymbols (fun x _ => hspares x) headedDevice chainL0 chainL1 rfl headedBoot_launched
    headedBoot_exits chainL0End_launched chainL0End_launches
  have hdigest := hfwid (measuredInFlash_of_size (congrArg Launch.ByteRange.size chainL0_measured))
  rw [chainL0_measured] at hdigest
  obtain ⟨hstarts, hpower⟩ := chainBoard_starts
  have hbegin : onBoard (imageStart plainBuild L1Image.mainFile 22) chainBoard =
      (some 0, (onBoard (imageStart plainBuild L1Image.mainFile 22) chainBoard).2) :=
    Prod.ext hstarts rfl
  obtain ⟨b', hrun⟩ := (htests (fun _ => none) 0 _ hbegin).run hpower
  rw [hdigest] at hparams
  exact ⟨headedBoot_launches, chainL0End_launched, hparams, hclean, _, b', hbegin, hrun⟩

end VerifiedDice.BootChain
