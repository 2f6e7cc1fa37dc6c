import VerifiedDice.SecretLogs

/-!
# The logs of a boot and the secret

Two runs of `DICE_main` are followed call by call, from states that differ in the secret,
or in the random words from which one is generated, to the same return code and the
same logs.
-/
namespace VerifiedDice

open ByteMemory

variable {cfg : BuildConfig} {s : SecretCopies} {locals : SecretLocals} {d : DiceCore}

/-! ## Before the secret -/

/-- The flash, the generator and the run-time level are as before. -/
def secretKept : Cut.Frame World where
  rel w w' := (∀ x, InFlash x → w'.mem x = w.mem x) ∧ sourcesKept.rel w w'
  refl w := ⟨fun _ _ => rfl, sourcesKept.refl w⟩
  trans h1 h2 := ⟨fun x hx => (h2.1 x hx).trans (h1.1 x hx), sourcesKept.trans h1.2 h2.2⟩

theorem secretKept_of_logOnly {α : Type} {x : Cut World α} (h : Cut.Keeps logOnly x) :
    Cut.Keeps secretKept x := h.mono fun _ _ hw =>
  ⟨fun _ hx => hw.mem _ fun hlog => inLogs_notFlash hlog hx, by
    rw [hw.rest]
    exact ⟨rfl, rfl⟩⟩

theorem SecretsAlike.kept {w t w' t' : World} (h : SecretsAlike s w t) (hw : secretKept.rel w w')
    (ht : secretKept.rel t t') : SecretsAlike s w' t' := by
  have hcopies : ∀ {u u' : World}, secretKept.rel u u' → ∀ x, s.Mem x → u'.mem x = u.mem x :=
    fun hu x hx => hu.1 x (SecretCopies.mem_inFlash hx)
  refine ⟨?_, h.copies.congr (hcopies hw) (hcopies ht), fun hblank => ?_⟩
  · rw [hw.2.2]
    exact h.level
  · rw [hw.2.1, ht.2.1]
    exact h.draws ((copies_of_same (hcopies hw)).1 ▸ hblank)

theorem checkOptsr_sameLog (optsrCur : Word) : SameLog (checkOptsr cfg optsrCur) := by
  have hlog : ∀ {level : LogLevel} {file : String} {line : Nat} {msg : Text} {v : Word},
      SameLog (hwLogAt cfg level file line msg >>= fun _ => pure v) :=
    (hwLogAt_sameLog cfg _ _ _ _).bind fun _ => Cut.Same.pure _
  exact Cut.Same.ite hlog (Cut.Same.ite hlog hlog)

theorem checkRegs_sameLog (rs : List RegCheck) : ∀ ret : Word, SameLog (checkRegs cfg rs ret) := by
  induction rs with
  | nil => exact fun ret => Cut.Same.pure ret
  | cons reg rs ih =>
    exact fun ret => Cut.Same.ite ((hwLogAt_sameLog cfg _ _ _ _).bind fun _ => ih _) (ih ret)

theorem checkProtections_sameLog (cfg : BuildConfig) : SameLog (checkProtections cfg) := by
  have hreset : ∀ {α : Type} {level : LogLevel} {file : String} {line : Nat} {msg : Text},
      SameLog (hwLogAt cfg level file line msg >>= fun _ => (hang : Cut World α)) :=
    (hwLogAt_sameLog cfg _ _ _ _).bind fun _ => Cut.Same.stop
  have hsecure : ∀ ob, SameLog (setupSecureArea cfg ob) := fun _ =>
    Cut.Same.ite hreset (Cut.Same.pure ())
  have hregs : ∀ ob ret, SameLog (checkRegs cfg (regs ob) ret >>= fun ret =>
      if cfg.ignoreProtectionChecks then pure 0 else pure ret) := fun ob ret =>
    (checkRegs_sameLog _ ret).bind fun _ => Cut.Same.ite (Cut.Same.pure _) (Cut.Same.pure _)
  intro w t h
  unfold checkProtections
  refine Cut.Both.state_bind ?_
  rw [h.optionBytes]
  have hafter : ∀ ret : Word, SameLog (setupSecureArea cfg w.optionBytes >>= fun _ =>
      checkRegs cfg (regs w.optionBytes) ret >>= fun ret =>
        if cfg.ignoreProtectionChecks then pure 0 else pure ret) := fun ret =>
    (hsecure _).bind fun _ => hregs _ ret
  refine ((hwLogAt_sameLog cfg _ _ _ _).bind fun _ => ?_) w t h
  exact (checkOptsr_sameLog _).bind fun ret => Cut.Same.ite hreset (hafter ret)

/-! ## Resets

Before the secret is looked at `SetupSecureArea` may reset the device. -/

theorem checkOptsr_stopsAt (optsrCur : Word) :
    Cut.StopsAt World.Spent (checkOptsr cfg optsrCur) := by
  have hlog : ∀ {level : LogLevel} {file : String} {line : Nat} {msg : Text} {v : Word},
      Cut.StopsAt World.Spent (hwLogAt cfg level file line msg >>= fun _ => pure v) :=
    (hwLogAt_stopsAt cfg _ _ _ _).bind fun _ => Cut.StopsAt.pure _
  exact Cut.StopsAt.ite hlog (Cut.StopsAt.ite hlog hlog)

theorem checkRegs_stopsAt (rs : List RegCheck) :
    ∀ ret : Word, Cut.StopsAt World.Spent (checkRegs cfg rs ret) := by
  induction rs with
  | nil => exact fun ret => Cut.StopsAt.pure ret
  | cons reg rs ih =>
    exact fun ret => Cut.StopsAt.ite ((hwLogAt_stopsAt cfg _ _ _ _).bind fun _ => ih _) (ih ret)

theorem hwLogAt_sameEnds (level : LogLevel) (file : String) (line : Nat) (msg : Text) :
    Cut.SameEnds World.Spent World.LogView (hwLogAt cfg level file line msg) :=
  Cut.SameEnds.of_same (hwLogAt_sameLog cfg level file line msg) (hwLogAt_stopsAt cfg _ _ _ _)

theorem checkProtections_sameEnds :
    Cut.SameEnds World.Spent World.LogView (checkProtections cfg) := by
  have hreset : ∀ {α : Type} {level : LogLevel} {file : String} {line : Nat} {msg : Text},
      Cut.SameEnds World.Spent World.LogView
        (hwLogAt cfg level file line msg >>= fun _ => (hang : Cut World α)) :=
    (hwLogAt_sameEnds _ _ _ _).bind fun _ => Cut.SameEnds.stop
  have hpure : ∀ {α : Type} (a : α),
      Cut.SameEnds World.Spent World.LogView (pure a : Cut World α) := fun a =>
    Cut.SameEnds.of_same (Cut.Same.pure a) (Cut.StopsAt.pure a)
  have hregs : ∀ (rs : List RegCheck) (ret : Word),
      Cut.SameEnds World.Spent World.LogView (checkRegs cfg rs ret) := fun rs ret =>
    Cut.SameEnds.of_same (checkRegs_sameLog rs ret) (checkRegs_stopsAt rs ret)
  have hchecks : ∀ ob : OptionBytes, Cut.SameEnds World.Spent World.LogView (do
      hwLogTrace cfg protectionsFile 36 (optionBytesText ob)
      let ret ← checkOptsr cfg ob.optsrCur
      if expectedScarCur1 ≠ calculatedScarCur1 then do
        hwLogFail cfg protectionsFile 85
          (text "The value of EXPECTED_SCAR_CUR1 is outdated: 0x" ++ hexWord calculatedScarCur1)
        hang
      else do
        setupSecureArea cfg ob
        let ret ← checkRegs cfg (regs ob) ret
        if cfg.ignoreProtectionChecks then pure 0 else pure ret) := by
    intro ob
    apply (hwLogAt_sameEnds _ _ _ _).bind
    intro _
    apply Cut.SameEnds.bind
      (Cut.SameEnds.of_same (checkOptsr_sameLog ob.optsrCur) (checkOptsr_stopsAt ob.optsrCur))
    intro ret
    apply Cut.SameEnds.ite hreset
    apply (Cut.SameEnds.ite hreset (hpure ())).bind
    intro _
    exact (hregs _ ret).bind fun _ => Cut.SameEnds.ite (hpure _) (hpure _)
  intro w t h r w' r' t' hw ht
  apply hchecks w.optionBytes w t h r w' r' t' hw
  rw [← h.optionBytes]
  exact ht

theorem resetReasonUpdate_sameLog : SameLog resetReasonUpdate := by
  intro w t h
  refine step_both ⟨rfl, h.level, h.zeroTime, h.clock, h.out, h.logs, h.hal, h.program,
    h.optionBytes, rfl, ?_⟩
  exact congrArg resetReasonOf h.rsr

/-! ## After the secret -/

/-- The states look the same, and the secret is in place in both or the copies are the same. -/
def BootView (s : SecretCopies) (w t : World) : Prop := w.LogView t ∧ CopiesAlike s w.mem t.mem

abbrev SameBoot {α : Type} (s : SecretCopies) (x : Cut World α) : Prop := Cut.Same (BootView s) x

section SameBoot

variable {α : Type} {x : Cut World α}

theorem copiesAlike_quiet {w t w' t' : World} (h : CopiesAlike s w.mem t.mem)
    (hw : w.Quiet InFlash w') (ht : t.Quiet InFlash t') : CopiesAlike s w'.mem t'.mem :=
  h.congr (fun x hx => hw.mem x (SecretCopies.mem_inFlash hx))
    fun x hx => ht.mem x (SecretCopies.mem_inFlash hx)

theorem SameBoot.of_sameLog (hx : SameLog x) (hquiet : Cut.Keeps (quiet InFlash) x) :
    SameBoot s x := hx.keeps hquiet copiesAlike_quiet

theorem hwLogAt_sameBoot (level : LogLevel) (file : String) (line : Nat) (msg : Text) :
    SameBoot s (hwLogAt cfg level file line msg) :=
  SameBoot.of_sameLog (hwLogAt_sameLog cfg level file line msg)
    ((hwLogAt_logOnly cfg level file line msg).mono fun _ _ h => h.quiet fun _ hx hlog =>
      inLogs_notFlash hlog hx)

/-- A step that changes memory only, and not the logs. -/
theorem memStep_sameLog (g : Memory → Memory) {v : World → Addr → Bool}
    (hg : ∀ (m : Memory) (x : Addr), InLogs x → g m x = m x) :
    SameLog (step fun w => ((), { w with mem := g w.mem, written := v w })) := by
  intro w t h
  have hlogs : AgreeOn InLogs (g w.mem) (g t.mem) := by
    intro x hx
    rw [hg t.mem x hx, hg w.mem x hx]
    exact h.logs x hx
  exact step_both ⟨rfl, h.level, h.zeroTime, h.clock, h.out, hlogs, h.hal, h.program,
    h.optionBytes, h.rsr, h.lastResetReason⟩

/-- Bytes stored outside the logs and the flash. -/
theorem store_sameBoot {a : Addr} {bs : List Byte}
    (hin : ∀ x, Within a bs.length x → InShared x) : SameBoot s (store a bs) := by
  have hlogs : ∀ (m : Memory) (x : Addr), InLogs x → write m a bs x = m x := fun m x hx =>
    write_outside fun hw => shared_not_inLogs (hin x hw) hx
  have hsame : SameLog (store a bs) := memStep_sameLog (fun m => write m a bs) hlogs
  have hquiet : Cut.Keeps (quiet InFlash) (store a bs) :=
    (store_changes hin).mono fun _ _ h => quiet_of_changes h fun _ => shared_notFlash
  exact SameBoot.of_sameLog hsame hquiet

theorem storeFill_sameBoot {a : Addr} {n : Nat} {b : Byte}
    (hin : ∀ x, Within a n x → InShared x) : SameBoot s (storeFill a n b) := by
  have hlogs : ∀ (m : Memory) (x : Addr), InLogs x → fill m a n b x = m x := fun m x hx =>
    fill_outside fun hw => shared_not_inLogs (hin x hw) hx
  have hsame : SameLog (storeFill a n b) := memStep_sameLog (fun m => fill m a n b) hlogs
  have hquiet : Cut.Keeps (quiet InFlash) (storeFill a n b) :=
    (storeFill_changes hin).mono fun _ _ h => quiet_of_changes h fun _ => shared_notFlash
  exact SameBoot.of_sameLog hsame hquiet

end SameBoot

/-- `dice_main` writes neither the logs nor the flash. -/
def DiceCore.Harmless (d : DiceCore) : Prop := ∀ x, InLogs x ∨ InFlash x → d.Spares x

theorem readUds_both (cfg : BuildConfig) (udsOut : DtcmObject udsLength) {w t : World}
    (h : w.LogView t) (hcopies : CopiesAlike s w.mem t.mem) :
    Cut.Both (readUds cfg s udsOut.addr) w (readUds cfg s udsOut.addr) t EndAlike := by
  refine (deviceSecretGet_both cfg udsOut h hcopies).bind fun ret w1 ret' t1 h1 => ?_
  obtain ⟨rfl, hview⟩ := h1
  exact Cut.Same.ite (hwLogAt_sameLog cfg .fail _ _ _) (Cut.Same.pure ()) w1 t1 hview

theorem DiceAction.run_sameBoot (action : DiceAction)
    (hspares : ∀ c, action = .compute c → ∀ x, InLogs x ∨ InFlash x → c.footprint x = false) :
    SameBoot s (action.run cfg s) := by
  have hquiet : Cut.Keeps (quiet InFlash) (action.run cfg s) :=
    action.run_quiet fun c hc x hx => hspares c hc x (Or.inr hx)
  cases action with
  | readUds udsOut =>
    intro w t h
    have hread := readUds_both cfg udsOut h.1 h.2
    refine (hread.sat (hquiet.sat w) (hquiet.sat t)).mono fun a w' b t' hab => ?_
    obtain ⟨⟨hret, hview⟩, hw, ht⟩ := hab
    exact ⟨hret, hview, copiesAlike_quiet h.2 hw ht⟩
  | compute c =>
    have hlogs : ∀ (m : Memory) (x : Addr), InLogs x → c.apply m x = m x := fun m x hx =>
      c.frame m x (hspares c rfl x (Or.inl hx))
    have hsame : SameLog c.run := memStep_sameLog c.apply hlogs
    exact SameBoot.of_sameLog hsame hquiet

theorem runActions_sameBoot (actions : List DiceAction) (hspares : ∀ c,
    DiceAction.compute c ∈ actions → ∀ x, InLogs x ∨ InFlash x → c.footprint x = false) :
    SameBoot s (runActions cfg s actions) := by
  induction actions with
  | nil => exact Cut.Same.pure ()
  | cons action actions ih =>
    refine Cut.Same.bind (action.run_sameBoot fun c hc => hspares c (hc ▸ List.mem_cons_self))
      fun _ => ih fun c hc => hspares c (List.mem_cons_of_mem _ hc)

theorem diceCore_sameBoot (hd : d.Harmless) : SameBoot s (diceCore cfg s d) := by
  have hmain : SameBoot s (diceMain cfg s d) :=
    (runActions_sameBoot d.actions fun c hc x hx => hd x hx c hc).bind fun _ => Cut.Same.pure _
  refine (hwLogAt_sameBoot .trace _ _ _).bind fun _ => hmain.bind fun ret => ?_
  refine (hwLogAt_sameBoot .debug _ _ _).bind fun _ => ?_
  exact (hwLogAt_sameBoot .trace _ _ _).bind fun _ => Cut.Same.pure ret

theorem runDICE_sameBoot (hd : d.Harmless) : SameBoot s (runDICE cfg s d) := by
  have hhalf : ∀ x, Within getSharedDiceL0 sharedHalf x → InShared x := fun x hx =>
    (inShared_iff x).mpr (Or.inl hx)
  have hclean : SameBoot s cleanSharedDiceL0 := storeFill_sameBoot hhalf
  have hstore : ∀ {k : Nat} {bs : List Byte}, k + bs.length ≤ sharedHalf →
      SameBoot s (store (at_ getSharedDiceL0 k) bs) := by
    intro k bs hfit
    have hsize : sharedHalf = 32768 := rfl
    exact store_sameBoot fun x hx => hhalf x (within_sub_range hfit (by omega) hx)
  have hversion : L0Params.versionDICE + (bytesOfWord cfg.versionDiceFull).length ≤ sharedHalf := by
    rw [length_bytesOfWord]
    decide
  refine hclean.bind fun _ => (hstore (by decide)).bind fun _ => ?_
  exact (hstore hversion).bind fun _ => diceCore_sameBoot hd

/-! ## DICE_main -/

theorem normalBoot_both (hd : d.Harmless) {w t : World} (h : w.LogView t)
    (hsecrets : SecretsAlike s w t) :
    Cut.Both (normalBoot cfg s locals d) w (normalBoot cfg s locals d) t EndAlike := by
  have hsecret : Cut.Both (deviceSecretInitialize cfg s locals) w
      (deviceSecretInitialize cfg s locals) t EndAlike := deviceSecretInitialize_both h hsecrets
  have hreload : SameBoot s (watchdogReload cfg) := SameBoot.of_sameLog watchdogReload_sameLog
    (watchdogReload_logOnly.mono fun _ _ hlog => hlog.quiet fun _ hx hin => inLogs_notFlash hin hx)
  have hrest : SameBoot s (watchdogReload cfg >>= fun _ => runDICE cfg s d) :=
    hreload.bind fun _ => runDICE_sameBoot hd
  unfold normalBoot
  refine (hsecret.sat (deviceSecretInitialize_ends cfg s locals w)
    (deviceSecretInitialize_ends cfg s locals t)).bind fun ret w1 ret' t1 h1 => ?_
  obtain ⟨⟨rfl, hview⟩, hendw, hendt⟩ := h1
  refine Cut.Both.ite Iff.rfl (fun _ => failed_both hview) fun hret => ?_
  obtain rfl : ret' = 0 := not_not.mp hret
  -- from here on both devices have a secret
  obtain ⟨u, hu⟩ := hendw.saved
  obtain ⟨v, hv⟩ := hendt.saved
  have hboot : BootView s w1 t1 := ⟨hview, Or.inl ⟨hu.secretSet, hv.secretSet⟩⟩
  refine (hrest w1 t1 hboot).mono fun _ _ _ _ hab => ?_
  obtain ⟨hret, hview', _⟩ := hab
  exact ⟨hret, hview'⟩

theorem diceMainImage_both (hd : d.Harmless) {w t : World} (h : w.LogView t)
    (hsecrets : SecretsAlike s w t) :
    Cut.Both (diceMainImage cfg s locals d) w (diceMainImage cfg s locals d) t EndAlike := by
  -- a part before the secret, which the secret does not matter for
  have hpart : ∀ {α : Type} {x : Cut World α}, SameLog x → Cut.Keeps secretKept x →
      Cut.Same (fun u v => u.LogView v ∧ SecretsAlike s u v) x := fun hx hkeeps =>
    hx.keeps hkeeps SecretsAlike.kept
  have hbanner := hpart (hwLogInfoStr_sameLog cfg (diceBanner cfg))
    (secretKept_of_logOnly (hwLogInfoStr_logOnly cfg _))
  have hchecks := hpart (checkProtections_sameLog cfg)
    (secretKept_of_logOnly checkProtections_logOnly)
  have hupdate := hpart resetReasonUpdate_sameLog (step_keeps fun _ => ⟨fun _ _ => rfl, rfl, rfl⟩)
  have hlog : ∀ (line : Nat) (msg : Text), Cut.Same (fun u v => u.LogView v ∧ SecretsAlike s u v)
      (hwLogInfo cfg diceMainFile line msg) := fun line msg =>
    hpart (hwLogAt_sameLog cfg .info _ line msg)
      (secretKept_of_logOnly (hwLogAt_logOnly cfg .info _ line msg))
  unfold diceMainImage
  refine (hbanner w t ⟨h, hsecrets⟩).bind fun _ w1 _ t1 h1 => ?_
  refine (hchecks w1 t1 h1.2).bind fun ret w2 ret' t2 h2 => ?_
  obtain ⟨rfl, hview2, halike2⟩ := h2
  refine Cut.Both.ite Iff.rfl (fun _ => failed_both hview2) fun _ => ?_
  refine (hupdate w2 t2 ⟨hview2, halike2⟩).bind fun _ w3 _ t3 h3 => Cut.Both.state_bind ?_
  obtain ⟨_, hview3, halike3⟩ := h3
  rw [hview3.lastResetReason]
  refine (hlog _ _ w3 t3 ⟨hview3, halike3⟩).bind fun _ w4 _ t4 h4 => ?_
  obtain ⟨_, hview4, halike4⟩ := h4
  refine Cut.Both.ite Iff.rfl (fun _ => failed_both hview4) fun _ => ?_
  exact normalBoot_both hd hview4 halike4

/-! ## How a boot ends -/

/-- `DICE_main` up to the end of its checks. -/
def checksOfBoot (cfg : BuildConfig) : Cut World Word := do
  hwLogInfoStr cfg (diceBanner cfg)
  checkProtections cfg

/-- A run of `DICE_main` that the power outlasts: it returns, or `SetupSecureArea` resets the
device in the middle of the checks. -/
inductive BootEnds (cfg : BuildConfig) (s : SecretCopies) (locals : SecretLocals) (d : DiceCore)
    (w : World) : Option Word → World → Prop
  | returns {a : Word} {w' : World} (hrun : diceMainImage cfg s locals d w = (some a, w')) :
      BootEnds cfg s locals d w (some a) w'
  | resets {w' : World} (hrun : checksOfBoot cfg w = (none, w')) (hpower : ¬ w'.Spent) :
      BootEnds cfg s locals d w none w'

theorem diceMainImage_checks (cfg : BuildConfig) (s : SecretCopies) (locals : SecretLocals)
    (d : DiceCore) : ∃ rest : Word → Cut World Word,
    diceMainImage cfg s locals d = checksOfBoot cfg >>= rest := by
  unfold diceMainImage checksOfBoot
  exact ⟨_, (Cut.bind_assoc _ _ _).symm⟩

theorem BootEnds.run {w w' : World} {r : Option Word} (h : BootEnds cfg s locals d w r w') :
    diceMainImage cfg s locals d w = (r, w') := by
  cases h with
  | returns hrun => exact hrun
  | resets hrun _ =>
    obtain ⟨rest, heq⟩ := diceMainImage_checks cfg s locals d
    rw [heq]
    exact Cut.bind_none hrun

theorem checksOfBoot_sameEnds (cfg : BuildConfig) :
    Cut.SameEnds World.Spent World.LogView (checksOfBoot cfg) :=
  Cut.SameEnds.bind
    (Cut.SameEnds.of_same (hwLogInfoStr_sameLog cfg _) (hwLogInfoStr_stopsAt cfg _))
    fun _ => checkProtections_sameEnds

theorem checks_of_returns {a : Word} {w w' : World}
    (h : diceMainImage cfg s locals d w = (some a, w')) :
    ∃ c w1, checksOfBoot cfg w = (some c, w1) := by
  obtain ⟨rest, heq⟩ := diceMainImage_checks cfg s locals d
  rw [heq] at h
  obtain ⟨c, w1, hchecks, _⟩ := Cut.bind_eq_some h
  exact ⟨c, w1, hchecks⟩

/-- The checks decide whether there is a reset, before the secret is looked at. -/
theorem BootEnds.alike (hd : d.Harmless) {w t w' t' : World} {r r' : Option Word}
    (h : w.LogView t) (hsecrets : SecretsAlike s w t) (hw : BootEnds cfg s locals d w r w')
    (ht : BootEnds cfg s locals d t r' t') : r' = r ∧ w'.LogView t' := by
  have hchecks := checksOfBoot_sameEnds cfg w t h
  cases hw with
  | returns hrunw =>
    obtain ⟨c, w1, hcw⟩ := checks_of_returns hrunw
    cases ht with
    | returns hrunt =>
      obtain ⟨rfl, hend⟩ := diceMainImage_both hd h hsecrets _ w' _ t' hrunw hrunt
      exact ⟨rfl, hend⟩
    | resets hct hpower =>
      obtain ⟨hnone, _⟩ := hchecks (some c) w1 none t' hcw hct nofun fun _ => hpower
      exact absurd hnone.symm (Option.some_ne_none c)
  | resets hcw hpower =>
    cases ht with
    | returns hrunt =>
      obtain ⟨c, t1, hct⟩ := checks_of_returns hrunt
      obtain ⟨hnone, _⟩ := hchecks none w' (some c) t1 hcw hct (fun _ => hpower) nofun
      exact absurd hnone (Option.some_ne_none c)
    | resets hct hpower' =>
      exact hchecks none w' none t' hcw hct (fun _ => hpower) fun _ => hpower'

/-! ## States that differ in the secret -/

/-- Apart from the record of secrets and from how long the power lasts, the states differ in the
copies and in the words of the generator only: each device has a secret in both copies or the
copies are the same, and the generator fails at the same calls. -/
structure World.DifferInSecret (s : SecretCopies) (w t : World) : Prop where
  rest : t = { w with
    mem := t.mem, rng := t.rng, generated := t.generated, gets := t.gets, power := t.power }
  mem : ∀ x, ¬ s.Mem x → t.mem x = w.mem x
  copies : CopiesAlike s w.mem t.mem
  outcomes : ∀ n, (t.rng n).isSome = (w.rng n).isSome

theorem World.DifferInSecret.logView {w t : World} (h : w.DifferInSecret s t) : w.LogView t := by
  have hlogs : AgreeOn InLogs w.mem t.mem := fun x hx =>
    h.mem x fun hmem => inLogs_notFlash hx (SecretCopies.mem_inFlash hmem)
  constructor <;> first | exact hlogs | rw [h.rest]

/-- Where the copies hold no secret, the loop that generates one ends the same way in both: with a
secret or with an error of the generator. -/
def World.DrawAlike (s : SecretCopies) (w t : World) : Prop :=
  s.copy1 w.mem = erasedSecret → ∀ b, Draws w.rng b ↔ Draws t.rng b

/-- A generator that fails in one device fails in the other. -/
theorem drawWords_isSome (n : Nat) : ∀ {rng rng' : Nat → Option Word},
    (∀ i, (rng' i).isSome = (rng i).isSome) →
    (drawWords n rng').isSome = (drawWords n rng).isSome := by
  induction n with
  | zero => exact fun _ => rfl
  | succ n ih =>
    intro rng rng' h
    have hfirst := h 0
    have hrest := ih fun i => h (i + 1)
    cases hw : rng 0 with
    | none =>
      rw [hw, Option.isSome_none, Option.isSome_eq_false_iff, Option.isNone_iff_eq_none] at hfirst
      rw [drawWords_none hw, drawWords_none hfirst]
    | some num =>
      rw [hw, Option.isSome_some, Option.isSome_iff_exists] at hfirst
      obtain ⟨num', ht⟩ := hfirst
      rw [drawWords_some hw, drawWords_some ht, Option.isSome_map, Option.isSome_map]
      exact hrest

/-- No retry: the first words of neither generator are all ones. -/
theorem drawAlike_of_first {w t : World} (h : w.DifferInSecret s t)
    (hw : drawWords 8 w.rng ≠ some erasedSecret) (ht : drawWords 8 t.rng ≠ some erasedSecret) :
    w.DrawAlike s t := by
  intro _ b
  have hends : ∀ {rng : Nat → Option Word}, drawWords 8 rng ≠ some erasedSecret →
      (Draws rng b ↔ (drawWords 8 rng).isSome = b) := by
    intro rng hfirst
    constructor
    · intro hdraws
      cases hdraws with
      | error hnone => rw [hnone, Option.isSome_none]
      | secret hsome => rw [hsome, Option.isSome_some]
      | again hblank => exact absurd hblank hfirst
    · intro hb
      cases hsome : drawWords 8 rng with
      | none =>
        rw [hsome] at hb
        exact hb ▸ Draws.error hsome
      | some bs =>
        rw [hsome] at hb
        exact hb ▸ Draws.secret hsome fun hblank => hfirst (hblank ▸ hsome)
  rw [hends hw, hends ht, drawWords_isSome 8 h.outcomes]

/-- A blank device whose generator has `num` for the first eight calls and fails after them. -/
def eightWords (num : Word) : World :=
  { blankDevice with rng := fun n => if n < 8 then some num else none }

theorem eightWords_differ (num num' : Word) :
    (eightWords num).DifferInSecret adjacentCopies (eightWords num') where
  rest := rfl
  mem _ _ := rfl
  copies := Or.inr fun _ _ => rfl
  outcomes n := by
    show (if n < 8 then some num' else none).isSome = (if n < 8 then some num else none).isSome
    by_cases hn : n < 8
    · rw [if_pos hn, if_pos hn, Option.isSome_some, Option.isSome_some]
    · rw [if_neg hn, if_neg hn]

theorem readingCore_harmless : readingCore.Harmless := by
  intro x _ c hc
  rcases List.mem_singleton.mp hc

/-- The secret never shows in the logs: boots that differ in the secret only end the same way,
print the same strings and leave the same bytes in both logs. -/
theorem dice_logs_hide_secret (hd : d.Harmless) {w t w' t' : World} {r r' : Option Word}
    (h : w.DifferInSecret s t) (hlevel : LogLevel.debug.toNat ≤ w.currentLevel.toNat)
    (hdraws : w.DrawAlike s t) (hw : BootEnds cfg s locals d w r w')
    (ht : BootEnds cfg s locals d t r' t') :
    r' = r ∧ t'.out = w'.out ∧ AgreeOn InLogs w'.mem t'.mem := by
  obtain ⟨hret, hview⟩ := hw.alike hd h.logView ⟨hlevel, h.copies, hdraws⟩ ht
  exact ⟨hret, hview.out, hview.logs⟩

/-- Two devices that generate different secrets. -/
theorem eightWords_hide_secret :
    (diceMainImage plainBuild adjacentCopies adjacentLocals readingCore (eightWords 1)).2.mem
        0x0800FFC0 = 1 ∧
      (diceMainImage plainBuild adjacentCopies adjacentLocals readingCore (eightWords 2)).2.mem
        0x0800FFC0 = 2 ∧
      AgreeOn InLogs
        (diceMainImage plainBuild adjacentCopies adjacentLocals readingCore (eightWords 1)).2.mem
        (diceMainImage plainBuild adjacentCopies adjacentLocals readingCore
          (eightWords 2)).2.mem := by
  have hone : (diceMainImage plainBuild adjacentCopies adjacentLocals readingCore
      (eightWords 1)).1 = some 0 := by decide +kernel
  have htwo : (diceMainImage plainBuild adjacentCopies adjacentLocals readingCore
      (eightWords 2)).1 = some 0 := by decide +kernel
  have hfirst := eightWords_differ 1 2
  obtain ⟨_, _, hlogs⟩ := dice_logs_hide_secret readingCore_harmless hfirst (by decide)
    (drawAlike_of_first hfirst (by decide) (by decide)) (.returns (Prod.ext hone rfl))
    (.returns (Prod.ext htwo rfl))
  exact ⟨by decide +kernel, by decide +kernel, hlogs⟩

/-- A retry can show: the first words of one device are a secret, those of the other are all ones,
and the generator fails before it has made any more. -/
theorem retry_shows : (eightWords 1).DifferInSecret adjacentCopies (eightWords 0xFFFFFFFF) ∧
    LogLevel.debug.toNat ≤ (eightWords 1).currentLevel.toNat ∧
    (diceMainImage plainBuild adjacentCopies adjacentLocals readingCore (eightWords 1)).1 = some 0 ∧
    (diceMainImage plainBuild adjacentCopies adjacentLocals readingCore
      (eightWords 0xFFFFFFFF)).1 = some (-1) ∧
    (diceMainImage plainBuild adjacentCopies adjacentLocals readingCore
        (eightWords 0xFFFFFFFF)).2.out ≠
      (diceMainImage plainBuild adjacentCopies adjacentLocals readingCore (eightWords 1)).2.out :=
  ⟨eightWords_differ 1 0xFFFFFFFF, by decide, by decide +kernel, by decide +kernel,
    by decide +kernel⟩

end VerifiedDice
