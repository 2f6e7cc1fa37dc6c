import VerifiedDice.BootChain

/-!
# One identity over all boots

The first boot that reaches L0 leaves a secret in both copies. No later boot of DICE, complete or
cut off, changes flash any more, so whenever L1 is reached again it finds the keys and certificates
of the first time.
-/
namespace VerifiedDice.BootChain

open ByteMemory ImageStart
open Startup (ImageSymbols)

/-- The flash of DICE, of the key manifest and of L0. -/
def InFront (x : Addr) : Prop := Within getFlashStart (getL1ImageStart - getFlashStart).toNat x

theorem front_inFlash {x : Addr} (h : InFront x) : InFlash x := by
  have hsize : (getL1ImageStart - getFlashStart).toNat ≤ 2 * 1024 * 1024 := by decide
  exact Nat.lt_of_lt_of_le h hsize

theorem secret_inFront {s : SecretCopies} {x : Addr} (h : s.Mem x) : InFront x := by
  have hsize : (getL1ImageStart - getFlashStart).toNat = 0x60000 := rfl
  have hstart : getFlashStart = getDICEImageStart := rfl
  have hlength : udsLength = 32 := rfl
  have htotal : diceTotalSize = 131072 := rfl
  have h1 := s.inside1
  have h2 := s.inside2
  rcases h with h | h <;>
  · simp only [InFront, Within, hstart, hlength, htotal] at *
    bv_omega

/-- The compound device identifier depends on the secret, on L0 and on the code of DICE only:
`dice_main` leaves the same one wherever it finds the same secret and the same flash. -/
def DerivesFromFront (cfg : BuildConfig) (s : SecretCopies) (d : DiceCore) : Prop :=
  ∀ (u : List Byte) (w t : World), Saved s u w → Saved s u t → AgreeOn InFront w.mem t.mem →
    Cut.Both (diceMain cfg s d) w (diceMain cfg s d) t fun _ w' _ t' =>
      (readL0Params t'.mem).cdi = (readL0Params w'.mem).cdi

section Boot

variable {cfg : BuildConfig} {s : SecretCopies} {locals : SecretLocals} {d : DiceCore}
  {u : List Byte}

theorem saved_congr {w t : World} (h : Saved s u w) (hm : AgreeOn InFront w.mem t.mem) :
    Saved s u t := h.congr fun x hx => hm x (secret_inFront hx)

/-! ## With a secret in place flash is not written -/

/-- A secret that is there stays, and so does all of flash. -/
def keepsSaved (s : SecretCopies) (u : List Byte) : Cut.Frame World where
  rel w w' := Saved s u w → AgreeOn InFlash w.mem w'.mem
  refl _ _ := fun _ _ => rfl
  trans h1 h2 hsaved := by
    have hsame := h1 hsaved
    have hstill := hsaved.congr fun x hx => hsame x (SecretCopies.mem_inFlash hx)
    exact fun x hx => (h2 hstill x hx).trans (hsame x hx)

theorem keepsSaved_of_logs {w w' : World} (h : ∀ x, ¬ InLogs x → w'.mem x = w.mem x) :
    (keepsSaved s u).rel w w' := fun _ x hx => h x fun hlog => inLogs_notFlash hlog hx

theorem log_keepsSaved (level : LogLevel) (file : String) (line : Nat) (t : Text) :
    Cut.Keeps (keepsSaved s u) (hwLogAt cfg level file line t) :=
  (hwLogAt_logOnly cfg level file line t).mono fun _ _ h => keepsSaved_of_logs h.mem

theorem normalBoot_keepsSaved (hflash : ∀ x, InFlash x → d.Spares x) :
    Cut.Keeps (keepsSaved s u) (normalBoot cfg s locals d) := by
  have hinit : Cut.Keeps (keepsSaved s u) (deviceSecretInitialize cfg s locals) := by
    intro w hsaved x hx
    rcases deviceSecretInitialize_ends cfg s locals w with hkept | ⟨v, hnew⟩
    · exact hkept.quiet.mem x fun hscratch => scratch_notFlash hscratch hx
    · exact absurd (hsaved.copy1.symm.trans hnew.blank.1) hsaved.valid
  have hreload : Cut.Keeps (keepsSaved s u) (watchdogReload cfg) :=
    watchdogReload_logOnly.mono fun _ _ h => keepsSaved_of_logs h.mem
  have hrun : Cut.Keeps (keepsSaved s u) (runDICE cfg s d) :=
    (runDICE_quiet hflash).mono fun _ _ h _ => h.mem
  have hfail : Cut.Keeps (keepsSaved s u) (hwLogInfo cfg diceMainFile 74
      (text "DeviceSecretInitialize() failed") >>= fun _ => (pure (-1) : Cut World Word)) :=
    (log_keepsSaved _ _ _ _).bind fun _ => Cut.Keeps.pure _
  unfold normalBoot
  apply hinit.bind
  intro ret
  apply Cut.Keeps.ite hfail
  exact hreload.bind fun _ => hrun

theorem main_keepsSaved (hflash : ∀ x, InFlash x → d.Spares x) :
    Cut.Keeps (keepsSaved s u) (main cfg s locals d) := by
  have hstart : Cut.Keeps (keepsSaved s u) (mainStart cfg) :=
    mainStart_platformOnly.mono fun _ _ h => keepsSaved_of_logs h.mem
  have hbanner : Cut.Keeps (keepsSaved s u) (hwLogInfoStr cfg (diceBanner cfg)) :=
    (hwLogInfoStr_logOnly cfg _).mono fun _ _ h => keepsSaved_of_logs h.mem
  have hcheck : Cut.Keeps (keepsSaved s u) (checkProtections cfg) :=
    checkProtections_logOnly.mono fun _ _ h => keepsSaved_of_logs h.mem
  have hreason : Cut.Keeps (keepsSaved s u) resetReasonUpdate := by
    intro w
    have h := (resetReasonUpdate_sat w).mono fun _ _ h => h.1
    exact keepsSaved_of_logs h.mem
  have hend : ∀ (start : BitVec 64) (ret : Word),
      Cut.Keeps (keepsSaved s u) (mainEnd cfg start ret) := by
    intro start ret w
    exact keepsSaved_of_logs ((mainEnd_ends start ret w).mono fun _ _ h => h.mem)
  have hfail : ∀ {file : String} {line : Nat} {t : Text}, Cut.Keeps (keepsSaved s u)
      (hwLogFail cfg file line t >>= fun _ => (pure (-1) : Cut World Word)) :=
    (log_keepsSaved _ _ _ _).bind fun _ => Cut.Keeps.pure _
  have himage : Cut.Keeps (keepsSaved s u) (diceMainImage cfg s locals d) := by
    unfold diceMainImage
    apply hbanner.bind
    intro _
    apply hcheck.bind
    intro ret
    apply Cut.Keeps.ite hfail
    apply hreason.bind
    intro _
    apply Cut.Keeps.state_bind
    intro w
    apply (log_keepsSaved _ _ _ _).bind
    intro _
    exact Cut.Keeps.ite hfail (normalBoot_keepsSaved hflash)
  unfold main
  apply hstart.bind
  intro start
  exact himage.bind fun ret => hend start ret

/-- Boots of DICE, each complete or cut off. Between two of them everything may change but the
flash of DICE, the key manifest and L0. -/
inductive Later (cfg : BuildConfig) (s : SecretCopies) : World → World → Prop
  | refl (w : World) : Later cfg s w w
  | boot {w w1 w2 : World} (locals : SecretLocals) (d : DiceCore) :
      Later cfg s w w1 → AgreeOn InFront w1.mem w2.mem → (∀ x, InFlash x → d.Spares x) →
      Later cfg s w (main cfg s locals d w2).2

theorem Later.kept {w w' : World} (h : Later cfg s w w') (hsaved : Saved s u w) :
    AgreeOn InFront w.mem w'.mem := by
  induction h with
  | refl => exact fun _ _ => rfl
  | @boot w1 w2 locals d _ hbetween hflash ih =>
    have hstart : AgreeOn InFront w.mem w2.mem := fun x hx => (hbetween x hx).trans (ih x hx)
    have hboot : AgreeOn InFlash w2.mem (main cfg s locals d w2).2.mem :=
      main_keepsSaved hflash w2 (saved_congr hsaved hstart)
    exact fun x hx => (hboot x (front_inFlash hx)).trans (hstart x hx)

/-! ## What the core found and left -/

/-- `dice_main` has run to its end on the flash that is there now, a secret was in place, and the
identifier that it left is the one that is there now. -/
structure CoreRan (cfg : BuildConfig) (s : SecretCopies) (d : DiceCore) (w : World) : Prop where
  saved : ∃ u, Saved s u w
  core : ∃ c v c', diceMain cfg s d c = (some v, c') ∧ AgreeOn InFlash w.mem c.mem ∧
    (readL0Params w.mem).cdi = (readL0Params c'.mem).cdi

theorem CoreRan.logged {w w' : World} (h : CoreRan cfg s d w)
    (hlogs : ∀ x, ¬ InLogs x → w'.mem x = w.mem x) : CoreRan cfg s d w' := by
  obtain ⟨u, hsaved⟩ := h.saved
  obtain ⟨c, v, c', hrun, hflash, hcdi⟩ := h.core
  have hsame : AgreeOn InFlash w.mem w'.mem := fun x hx =>
    hlogs x fun hlog => inLogs_notFlash hlog hx
  have hparams : readL0Params w'.mem = readL0Params w.mem := by
    apply readL0Params_congr
    exact fun x hx => hlogs x (shared_not_inLogs ((inShared_iff x).mpr (Or.inl hx)))
  constructor
  · exact ⟨u, hsaved.congr fun x hx => hsame x (SecretCopies.mem_inFlash hx)⟩
  · refine ⟨c, v, c', hrun, fun x hx => ?_, ?_⟩
    · rw [hflash x hx, hsame x hx]
    · rw [hparams, hcdi]

theorem runDICE_core (w : World) :
    Cut.Sat (runDICE cfg s d) w fun r w' => ∀ v, r = some v →
      ∃ c v c', diceMain cfg s d c = (some v, c') ∧ AgreeOn InFlash w.mem c.mem ∧
        (readL0Params w'.mem).cdi = (readL0Params c'.mem).cdi := by
  let T : Word → World → Prop := fun _ w' =>
    ∃ c v c', diceMain cfg s d c = (some v, c') ∧ AgreeOn InFlash w.mem c.mem ∧
      (readL0Params w'.mem).cdi = (readL0Params c'.mem).cdi
  have hhalf : ∀ {x : Addr}, InDiceL0 x → NotFlash x := fun {x} hx =>
    shared_notFlash ((inShared_iff x).mpr (Or.inl hx))
  have hlen : (hwMeasurementText.take hwMeasurementLen).length = hwMeasurementLen := by decide
  have hword : (bytesOfWord cfg.versionDiceFull).length = 4 := length_bytesOfWord _
  have hlog : ∀ {u u' : World}, u.LogOnly u' →
      (readL0Params u'.mem).cdi = (readL0Params u.mem).cdi := by
    intro u u' h
    rw [readL0Params_congr]
    exact fun x hx => h.mem x (shared_not_inLogs ((inShared_iff x).mpr (Or.inl hx)))
  unfold runDICE diceHandleArgsAndDice diceCore
  -- up to the core only the half of DICE is written
  apply Cut.Sat.bind_result (T := T) (storeFill_fills getSharedDiceL0 sharedHalf 0 w)
  intro _ w1 h1
  apply Cut.Sat.bind_result (T := T) (store_stores _ _ w1)
  intro _ w2 h2
  apply Cut.Sat.bind_result (T := T) (store_stores _ _ w2)
  intro _ w3 h3
  apply Cut.Sat.bind_result (T := T) ((hwLogAt_logOnly cfg .trace _ _ _).sat w3)
  intro _ c h4
  have hc : AgreeOn InFlash w.mem c.mem := by
    intro x hx
    have hlogs : ¬ InLogs x := fun hin => inLogs_notFlash hin hx
    have hclean : ¬ Within getSharedDiceL0 sharedHalf x := fun hin => hhalf hin hx
    have hmeasurement : ¬ Within (at_ getSharedDiceL0 L0Params.hwMeasurement)
        (hwMeasurementText.take hwMeasurementLen).length x := fun hin =>
      hhalf (within_sub_range (by decide) (by decide) hin) hx
    have hversion : ¬ Within (at_ getSharedDiceL0 L0Params.versionDICE)
        (bytesOfWord cfg.versionDiceFull).length x := fun hin =>
      hhalf (within_sub_range (by rw [hword]; decide) (by rw [hword]; decide) hin) hx
    rw [h4.mem x hlogs, h3 rfl, write_outside hversion, h2 rfl, write_outside hmeasurement,
      h1 rfl, fill_outside hclean]
  have hcore : Cut.Sat (diceMain cfg s d) c fun r c' => diceMain cfg s d c = (r, c') := rfl
  apply Cut.Sat.bind_result (T := T) hcore
  intro ret c' hrun
  apply Cut.Sat.bind_result (T := T) ((hwLogAt_logOnly cfg .debug _ _ _).sat c')
  intro _ w5 h5
  apply Cut.Sat.bind_result (T := T) ((hwLogAt_logOnly cfg .trace _ _ _).sat w5)
  intro _ w6 h6
  apply Cut.Sat.pure
  intro v hv
  exact ⟨c, ret, c', hrun, hc, (hlog h6).trans (hlog h5)⟩

theorem normalBoot_core (hflash : ∀ x, InFlash x → d.Spares x) (w : World) :
    Cut.Sat (normalBoot cfg s locals d) w fun r w' =>
      ∀ v, r = some v → v = 0 → CoreRan cfg s d w' := by
  let T : Word → World → Prop := fun v w' => v = 0 → CoreRan cfg s d w'
  unfold normalBoot
  apply Cut.Sat.bind_result (T := T) (deviceSecretInitialize_ends cfg s locals w)
  intro ret w1 h1
  apply Cut.Sat.ite
  · intro _
    apply failed_sat
    rintro _ w' hr _ v rfl rfl
    exact absurd rfl hr
  · intro hret
    obtain rfl : ret = 0 := not_not.mp hret
    obtain ⟨u, hsaved⟩ := h1.saved
    apply Cut.Sat.bind_result (T := T) (watchdogReload_logOnly.sat w1)
    intro _ w2 h2
    have hreload : AgreeOn InFlash w1.mem w2.mem := fun x hx =>
      h2.mem x fun hlog => inLogs_notFlash hlog hx
    apply ((runDICE_core w2).and ((runDICE_quiet hflash).sat w2)).mono
    rintro r w3 ⟨hcore, hquiet⟩ v hv _
    obtain ⟨c, ret, c', hrun, hc, hcdi⟩ := hcore v hv
    have hsame : AgreeOn InFlash w1.mem w3.mem := fun x hx =>
      (hquiet.mem x hx).trans (hreload x hx)
    constructor
    · exact ⟨u, hsaved.congr fun x hx => hsame x (SecretCopies.mem_inFlash hx)⟩
    · refine ⟨c, ret, c', hrun, fun x hx => ?_, hcdi⟩
      rw [hc x hx, hquiet.mem x hx]

theorem launched_core (hflash : ∀ x, InFlash x → d.Spares x) {w : World} (hnone : w.launched = none)
    (hlaunched : (main cfg s locals d w).2.launched ≠ none) :
    CoreRan cfg s d (main cfg s locals d w).2 :=
  launched_of_normalBoot (normalBoot_core hflash) (fun h hlogs => h.logged hlogs) hnone hlaunched

end Boot

/-! ## The identity -/

/-- The bytes that `L0_main` has measured. -/
def measuredBytes (m : Memory) : List Byte :=
  bytesAt m (Launch.measuredL1 m).start (Launch.measuredL1 m).size.toNat

/-- `w0` and `w1` are the starts of L0 and of L1 in a boot of the device `w`. -/
structure Boots (cfgDice cfgL0 : BuildConfig) (s : SecretCopies) (locals : SecretLocals)
    (d : DiceCore) (C : Crypto) (E : L0Engine) (L : ImageSymbols) (w w0 w1 : World) : Prop where
  unlaunched : w.launched = none
  dice : (VerifiedDice.main cfgDice s locals d w).2.launched ≠ none
  exits : ExitsSecureArea (VerifiedDice.main cfgDice s locals d w).2 w0
  l0 : (L0Image.main cfgL0 C E w0).2.launched ≠ none
  launch : LaunchesImage L (L0Image.main cfgL0 C E w0).2 w1

/-- The exit of DICE keeps the shared RAM. -/
theorem Boots.params {cfgDice cfgL0 : BuildConfig} {s : SecretCopies} {locals : SecretLocals}
    {d : DiceCore} {C : Crypto} {E : L0Engine} {L : ImageSymbols} {w w0 w1 : World}
    (h : Boots cfgDice cfgL0 s locals d C E L w w0 w1) :
    readL0Params w0.mem = readL0Params (VerifiedDice.main cfgDice s locals d w).2.mem :=
  readL0Params_congr (h.exits.shared.mono fun x hx => (inShared_iff x).mpr (Or.inl hx))

/-- **A device has one identity.** Let a boot reach L1. After any number of further boots of DICE,
complete or cut off at any step, with anything done to the device in between that leaves the flash
of DICE and L0 alone, let a boot reach L1 again. If L0 has measured the same L1 both times, in
flash, then `l1_params` is the same both times, with all keys and certificates. -/
theorem identity_survives {cfgDice cfgL0 : BuildConfig} {s : SecretCopies}
    {locals locals' : SecretLocals} {d : DiceCore} {C : Crypto} {E : L0Engine}
    {L L' : ImageSymbols}
    (hflash : ∀ x, InFlash x → d.Spares x) (hspares : ∀ x, InL0Head x → d.Spares x)
    (hcore : DerivesFromFront cfgDice s d) {w w0 w1 v t t0 t1 : World}
    (hfirst : Boots cfgDice cfgL0 s locals d C E L w w0 w1)
    (hlater : Later cfgDice s (VerifiedDice.main cfgDice s locals d w).2 v)
    (hbetween : AgreeOn InFront v.mem t.mem)
    (hagain : Boots cfgDice cfgL0 s locals' d C E L' t t0 t1)
    (hmeasured : measuredBytes t0.mem = measuredBytes w0.mem)
    (hw0 : MeasuredInFlash w0.mem) (ht0 : MeasuredInFlash t0.mem) :
    readL1Params t1.mem = readL1Params w1.mem := by
  obtain ⟨⟨fwid, hover, hfwid⟩, _⟩ := chain_handedOver hspares hfirst.unlaunched
    hfirst.dice hfirst.exits hfirst.l0 hfirst.launch
  obtain ⟨⟨fwid', hover', hfwid'⟩, _⟩ := chain_handedOver hspares hagain.unlaunched
    hagain.dice hagain.exits hagain.l0 hagain.launch
  have hdigest : fwid' = fwid := by
    have hbytes := congrArg C.sha256 hmeasured
    rw [hfwid hw0, hfwid' ht0]
    exact hbytes
  -- what the core found in the first boot is what it finds in the last one
  have hran := launched_core hflash hfirst.unlaunched hfirst.dice
  have hran' := launched_core hflash hagain.unlaunched hagain.dice
  obtain ⟨u, hsaved⟩ := hran.saved
  obtain ⟨c, r, c', hrun, hc, hcdi⟩ := hran.core
  obtain ⟨k, r', k', hrun', hk, hcdi'⟩ := hran'.core
  have hstart : AgreeOn InFront (VerifiedDice.main cfgDice s locals d w).2.mem t.mem :=
    fun x hx => (hbetween x hx).trans (hlater.kept hsaved x hx)
  have hlast : AgreeOn InFlash t.mem (VerifiedDice.main cfgDice s locals' d t).2.mem :=
    main_keepsSaved hflash t (saved_congr hsaved hstart)
  have hend : AgreeOn InFront (VerifiedDice.main cfgDice s locals d w).2.mem k.mem := by
    intro x hx
    have hin := front_inFlash hx
    rw [hk x hin, hlast x hin, hstart x hx]
  have hfront : AgreeOn InFront c.mem k.mem := fun x hx =>
    (hend x hx).trans (hc x (front_inFlash hx)).symm
  have hsavedC : Saved s u c := saved_congr hsaved fun x hx => hc x (front_inFlash hx)
  have hsame : (readL0Params k'.mem).cdi = (readL0Params c'.mem).cdi :=
    hcore u c k hsavedC (saved_congr hsaved hend) hfront r c' r' k' hrun hrun'
  have hidentifier : (readL0Params t0.mem).cdi = (readL0Params w0.mem).cdi := by
    rw [hfirst.params, hagain.params, hcdi, hcdi', hsame]
  rw [hover.params, hover'.params, hidentifier, hdigest]

/-! ## Two boots -/

/-- A derivation from the secret and the first bytes of L0. -/
def derived (uds l0 : List Byte) : List Byte := List.zipWith (· ^^^ ·) uds l0

theorem length_derived (m m' : Memory) (a a' : Addr) :
    (derived (bytesAt m a udsLength) (bytesAt m' a' digestLength)).length = digestLength := by
  rw [derived, List.length_zipWith, length_bytesAt, length_bytesAt]
  rfl

def deriveCdi (udsOut : Addr) : Compute where
  apply m := write m (at_ getSharedDiceL0 L0Params.cdi)
    (derived (bytesAt m udsOut udsLength) (bytesAt m getL0ImageStart digestLength))
  footprint x := decide (Within (at_ getSharedDiceL0 L0Params.cdi) digestLength x)
  frame m x hx := by
    apply write_outside
    rw [length_derived]
    exact of_decide_eq_false hx

def udsObject : DtcmObject udsLength := DtcmObject.ofRange 0x2001FE00 (by decide)

def derivingCore : DiceCore where
  actions := [.readUds udsObject, .compute (deriveCdi udsObject.addr)]
  returnCode := 0

theorem derivingCore_spares {x : Addr}
    (h : ¬ Within (at_ getSharedDiceL0 L0Params.cdi) digestLength x) : derivingCore.Spares x := by
  intro c hc
  have heq : c = deriveCdi udsObject.addr := by simpa [derivingCore] using hc
  rw [heq]
  exact decide_eq_false h

theorem l0_inFront {i : Nat} (hi : i < digestLength) : InFront (at_ getL0ImageStart i) := by
  have hall : ∀ i, i < digestLength → Within getFlashStart
      (getL1ImageStart - getFlashStart).toNat (at_ getL0ImageStart i) := by decide
  exact hall i hi

theorem derivingCore_leaves {cfg : BuildConfig} {s : SecretCopies} {u : List Byte} {w w' : World}
    {v : Word} (hsaved : Saved s u w) (hrun : diceMain cfg s derivingCore w = (some v, w')) :
    (readL0Params w'.mem).cdi = derived u (bytesAt w.mem getL0ImageStart digestLength) := by
  obtain ⟨_, w2, hactions, hpure⟩ := Cut.bind_eq_some hrun
  cases hpure
  obtain ⟨_, w1, hread, hrest⟩ := Cut.bind_eq_some hactions
  obtain ⟨_, w2, hcompute, hnil⟩ := Cut.bind_eq_some hrest
  cases hnil
  have hmem : w'.mem = (deriveCdi udsObject.addr).apply w1.mem := by
    have hstep : (deriveCdi udsObject.addr).run w1 = (some (), w') := hcompute
    rw [Compute.run] at hstep
    exact congrArg (fun r => r.2.mem) (step_some hstep)
  have huds : bytesAt w1.mem udsObject.addr udsLength = u :=
    hsaved.returns.readUds udsObject w1 hread
  have hquiet : w.Quiet InFlash w1 := by
    have hkeeps : Cut.Keeps (quiet InFlash) ((DiceAction.readUds udsObject).run cfg s) :=
      DiceAction.run_quiet _ fun c hc => by cases hc
    exact (hkeeps.sat w).elim hread
  have himage : bytesAt w1.mem getL0ImageStart digestLength =
      bytesAt w.mem getL0ImageStart digestLength := by
    apply AgreeOn.bytesAt hquiet.mem
    exact fun i hi => front_inFlash (l0_inFront hi)
  have hself := bytesAt_write_self w1.mem (at_ getSharedDiceL0 L0Params.cdi)
    (derived (bytesAt w1.mem udsObject.addr udsLength)
      (bytesAt w1.mem getL0ImageStart digestLength)) (by rw [length_derived]; decide)
  rw [length_derived, huds, himage] at hself
  have hcdi : (readL0Params w'.mem).cdi = bytesAt (write w1.mem
      (at_ getSharedDiceL0 L0Params.cdi) (derived (bytesAt w1.mem udsObject.addr udsLength)
        (bytesAt w1.mem getL0ImageStart digestLength)))
      (at_ getSharedDiceL0 L0Params.cdi) digestLength := by
    rw [readL0Params, hmem]
    rfl
  rw [hcdi, huds, himage, hself]

theorem derivingCore_derives (cfg : BuildConfig) (s : SecretCopies) :
    DerivesFromFront cfg s derivingCore := by
  intro u w t hw ht hfront a w' b t' hrun hrun'
  have himage : bytesAt t.mem getL0ImageStart digestLength =
      bytesAt w.mem getL0ImageStart digestLength := by
    apply hfront.bytesAt
    exact fun i hi => l0_inFront hi
  rw [derivingCore_leaves hw hrun, derivingCore_leaves ht hrun', himage]

def diceEnd (w : World) : World := (main plainBuild adjacentCopies adjacentLocals derivingCore w).2

/-- The start of the next image in RAM that is left as it is. -/
def nextStart (w : World) : World := { w with power := 1000, launched := none }

def l0End (w : World) : World :=
  (L0Image.main plainBuild SlotBuild.tagSigner.toCrypto sampleEngine w).2

def nextL1 (w : World) : World := nextStart { w with mem := startMemory sampleSymbols w.mem }

/-- The start of a boot that is cut off after 20 steps. -/
def cutStart : World := { nextStart (diceEnd headedDevice) with power := 20 }

def cutBoot : World := diceEnd cutStart

theorem boots_of_launched {w : World} (hnone : w.launched = none)
    (hdice : (diceEnd w).launched ≠ none) (hl0 : (l0End (nextStart (diceEnd w))).launched ≠ none) :
    Boots plainBuild plainBuild adjacentCopies adjacentLocals derivingCore
      SlotBuild.tagSigner.toCrypto sampleEngine sampleSymbols w (nextStart (diceEnd w))
      (nextL1 (l0End (nextStart (diceEnd w)))) :=
  ⟨hnone, hdice, ⟨fun _ _ => rfl, rfl⟩, hl0, ⟨rfl, rfl⟩⟩

theorem flash_not_cdi {x : Addr} (h : InFlash x) :
    ¬ Within (at_ getSharedDiceL0 L0Params.cdi) digestLength x := by
  have hfits : L0Params.cdi + digestLength ≤ sharedHalf := by decide
  intro hin
  exact shared_notFlash ((inShared_iff x).mpr (Or.inl (within_sub_range hfits (by decide) hin))) h

theorem head_not_cdi {x : Addr} (h : InL0Head x) :
    ¬ Within (at_ getSharedDiceL0 L0Params.cdi) digestLength x := by
  have hcdi : L0Params.cdi = 36 := rfl
  have hlength : digestLength = 32 := rfl
  simp only [InL0Head, Within, at_, hcdi, hlength] at *
  bv_omega

theorem headedDevice_boots : (diceEnd headedDevice).launched ≠ none ∧
    (l0End (nextStart (diceEnd headedDevice))).launched ≠ none ∧
    (Launch.measuredL1 (nextStart (diceEnd headedDevice)).mem).size = 16 := by
  decide +kernel

theorem cutBoot_boots : (diceEnd (nextStart cutBoot)).launched ≠ none ∧
    (l0End (nextStart (diceEnd (nextStart cutBoot)))).launched ≠ none ∧
    (Launch.measuredL1 (nextStart (diceEnd (nextStart cutBoot))).mem).size = 16 := by
  decide +kernel

theorem cutBoot_measured : measuredBytes (nextStart (diceEnd (nextStart cutBoot))).mem =
    measuredBytes (nextStart (diceEnd headedDevice)).mem := by
  decide +kernel

theorem cutBoot_later : Later plainBuild adjacentCopies
    (main plainBuild adjacentCopies adjacentLocals derivingCore headedDevice).2 cutBoot := by
  have hsame : AgreeOn InFront (diceEnd headedDevice).mem cutStart.mem := fun _ _ => rfl
  have hflash : ∀ x, InFlash x → derivingCore.Spares x := fun _ hx =>
    derivingCore_spares (flash_not_cdi hx)
  exact @Later.boot plainBuild adjacentCopies _ _ cutStart adjacentLocals derivingCore
    (Later.refl _) hsame hflash

theorem cutBoot_identity :
    readL1Params (nextL1 (l0End (nextStart (diceEnd (nextStart cutBoot))))).mem =
      readL1Params (nextL1 (l0End (nextStart (diceEnd headedDevice)))).mem := by
  obtain ⟨hdice, hl0, hsize⟩ := headedDevice_boots
  obtain ⟨hdice', hl0', hsize'⟩ := cutBoot_boots
  have hflash : ∀ x, InFlash x → derivingCore.Spares x := fun _ hx =>
    derivingCore_spares (flash_not_cdi hx)
  have hspares : ∀ x, InL0Head x → derivingCore.Spares x := fun _ hx =>
    derivingCore_spares (head_not_cdi hx)
  have hbetween : ∀ w : World, AgreeOn InFront w.mem (nextStart w).mem := fun _ _ _ => rfl
  have hnone : ∀ w : World, (nextStart w).launched = none := fun _ => rfl
  have hfirst := boots_of_launched (w := headedDevice) rfl hdice hl0
  have hagain := boots_of_launched (hnone cutBoot) hdice' hl0'
  exact identity_survives hflash hspares (derivingCore_derives _ _) hfirst cutBoot_later
    (hbetween cutBoot) hagain cutBoot_measured (measuredInFlash_of_size hsize)
    (measuredInFlash_of_size hsize')

end VerifiedDice.BootChain
