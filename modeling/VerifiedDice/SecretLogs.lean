import VerifiedDice.DiceMain

/-!
# The secret and the logs

Two boots of DICE that differ only in the secret, or in the random words from which one
is generated, are compared log by log. With the run-time level at its initial value or
above, the dump of the secret is dropped after it was formatted.
-/
namespace VerifiedDice

open ByteMemory

variable {cfg : BuildConfig} {s : SecretCopies} {locals : SecretLocals} {d : DiceCore}

/-! ## States that look the same -/

/-- Each device has a secret of its own, or the copies are the same on both. -/
def CopiesAlike (s : SecretCopies) (m m' : Memory) : Prop :=
  (SecretSet s m ∧ SecretSet s m') ∨ ∀ x, s.Mem x → m' x = m x

theorem CopiesAlike.congr {m1 m1' m2 m2' : Memory} (h : CopiesAlike s m1 m2)
    (h1 : ∀ x, s.Mem x → m1' x = m1 x) (h2 : ∀ x, s.Mem x → m2' x = m2 x) :
    CopiesAlike s m1' m2' := by
  rcases h with ⟨hset1, hset2⟩ | hsame
  · exact Or.inl ⟨hset1.congr h1, hset2.congr h2⟩
  · exact Or.inr fun x hx => (h2 x hx).trans ((hsame x hx).trans (h1 x hx).symm)

theorem copies_of_same {m m' : Memory} (h : ∀ x, s.Mem x → m' x = m x) :
    s.copy1 m' = s.copy1 m ∧ s.copy2 m' = s.copy2 m :=
  ⟨SecretCopies.copy1_congr fun x hx => h x (Or.inl hx),
    SecretCopies.copy2_congr fun x hx => h x (Or.inr hx)⟩

theorem CopiesAlike.equal_iff {m m' : Memory} (h : CopiesAlike s m m') :
    s.copy1 m' = s.copy2 m' ↔ s.copy1 m = s.copy2 m := by
  rcases h with ⟨hset, hset'⟩ | hsame
  · exact iff_of_true hset'.1 hset.1
  · rw [(copies_of_same hsame).1, (copies_of_same hsame).2]

theorem CopiesAlike.blank_iff {m m' : Memory} (h : CopiesAlike s m m') :
    s.copy1 m' = erasedSecret ↔ s.copy1 m = erasedSecret := by
  rcases h with ⟨hset, hset'⟩ | hsame
  · exact iff_of_false hset'.2 hset.2
  · rw [(copies_of_same hsame).1]

section Views

variable {w t w' t' : World} {S T : Addr → Prop}

/-- Buffers outside the logs are not part of the view. -/
theorem World.LogView.buffers (h : w.LogView t) (hw : w.BufferOnly S w') (ht : t.BufferOnly T t')
    (hS : ∀ x, InLogs x → ¬ S x) (hT : ∀ x, InLogs x → ¬ T x) : w'.LogView t' := by
  refine ⟨?_, ?_, ?_, ?_, fun x hx => ?_, ?_, ?_, ?_, ?_, ?_⟩
  · rw [hw.rest, ht.rest]; exact h.level
  · rw [hw.rest, ht.rest]; exact h.zeroTime
  · rw [hw.rest, ht.rest]; exact h.clock
  · rw [hw.rest, ht.rest]; exact h.out
  · exact (ht.mem x (hT x hx)).trans ((h.logs x hx).trans (hw.mem x (hS x hx)).symm)
  · rw [hw.rest, ht.rest]; exact h.hal
  · rw [hw.rest, ht.rest]; exact h.program
  · rw [hw.rest, ht.rest]; exact h.optionBytes
  · rw [hw.rest, ht.rest]; exact h.rsr
  · rw [hw.rest, ht.rest]; exact h.lastResetReason

/-- Nor is what is recorded of the secrets. -/
theorem World.LogView.recorded (h : w.LogView t) (secrets secrets' gets gets' : List (List Byte)) :
    { w with generated := secrets, gets := gets }.LogView
      { t with generated := secrets', gets := gets' } where
  level := h.level
  zeroTime := h.zeroTime
  clock := h.clock
  out := h.out
  logs := h.logs
  hal := h.hal
  program := h.program
  optionBytes := h.optionBytes
  rsr := h.rsr
  lastResetReason := h.lastResetReason

end Views

/-- Both runs return the same and end in states that look the same. -/
def EndAlike {α : Type} (a : α) (w : World) (b : α) (t : World) : Prop := b = a ∧ w.LogView t

theorem store_sat {a : Addr} {bs : List Byte} {S : Addr → Prop}
    (h : ∀ x, Within a bs.length x → S x) (w : World) :
    Cut.Sat (store a bs) w fun _ w' => w.BufferOnly S w' := by
  rcases store_cases a bs h w with ⟨w', hrun, hw⟩ | ⟨w', hrun, hw, _⟩
  · exact Cut.Sat.of_eq hrun hw
  · exact Cut.Sat.of_eq hrun hw

theorem inLogs_not_dtcm {x : Addr} (h : InLogs x) : ¬ Within dtcmStart dtcmLength x :=
  fun hd => dtcm_not_inLogs hd h

/-- A log call, with what it leaves alone in each run. -/
theorem hwLogAt_both {level : LogLevel} {file : String} {line : Nat} {msg : Text} {w t : World}
    (h : w.LogView t) :
    Cut.Both (hwLogAt cfg level file line msg) w (hwLogAt cfg level file line msg) t
      fun _ w' _ t' => w'.LogView t' ∧ w.LogOnly w' ∧ t.LogOnly t' :=
  ((hwLogAt_sameLog cfg level file line msg w t h).sat ((hwLogAt_logOnly cfg _ _ _ _).sat w)
    ((hwLogAt_logOnly cfg _ _ _ _).sat t)).mono fun _ _ _ _ hall => ⟨hall.1.2, hall.2.1, hall.2.2⟩

/-- A failure: the same message and the same code in both runs. -/
theorem failed_both {level : LogLevel} {file : String} {line : Nat} {msg : Text} {v : Word}
    {w t : World} (h : w.LogView t) :
    Cut.Both (hwLogAt cfg level file line msg >>= fun _ => pure v) w
      (hwLogAt cfg level file line msg >>= fun _ => pure v) t EndAlike :=
  Cut.Same.bind (hwLogAt_sameLog cfg level file line msg) (fun _ => Cut.Same.pure v) w t h

/-! ## DeviceSecretGet -/

theorem World.LogOnly.copies {w w' : World} (h : w.LogOnly w') :
    ∀ x, s.Mem x → w'.mem x = w.mem x :=
  fun x hx => h.mem x fun hlog => inLogs_notFlash hlog (SecretCopies.mem_inFlash hx)

/-- The copy that is returned is stored on the stack. -/
theorem storeLocal_both (o : DtcmObject udsLength) {bs bs' : List Byte}
    (hlen : bs.length = udsLength) (hlen' : bs'.length = udsLength) {w t : World}
    (h : w.LogView t) :
    Cut.Both (store o.addr bs) w (store o.addr bs') t fun _ w' _ t' => w'.LogView t' := by
  have hin : ∀ x, Within o.addr bs.length x → Within dtcmStart dtcmLength x := by
    rw [hlen]
    exact fun _ => o.within
  have hin' : ∀ x, Within o.addr bs'.length x → Within dtcmStart dtcmLength x := by
    rw [hlen']
    exact fun _ => o.within
  refine (Cut.Both.ofSat (store_sat hin w) (store_sat hin' t)).mono fun _ w' _ t' hstore => ?_
  obtain ⟨hw, ht⟩ := hstore
  exact h.buffers hw ht (fun _ => inLogs_not_dtcm) fun _ => inLogs_not_dtcm

theorem deviceSecretGet_both (cfg : BuildConfig) (dest : DtcmObject udsLength) {w t : World}
    (h : w.LogView t)
    (hcopies : CopiesAlike s w.mem t.mem) :
    Cut.Both (deviceSecretGet cfg s dest.addr) w (deviceSecretGet cfg s dest.addr) t EndAlike := by
  have hlen : ∀ m : Memory, (s.copy1 m).length = udsLength := fun m => length_bytesAt m _ _
  unfold deviceSecretGet
  refine Cut.Both.ite Iff.rfl (fun _ => failed_both h) fun _ => ?_
  refine (hwLogAt_both h).bind fun _ w1 _ t1 hlog => ?_
  obtain ⟨h1, hw, ht⟩ := hlog
  have hcopies1 : CopiesAlike s w1.mem t1.mem := hcopies.congr hw.copies ht.copies
  have hdiffer : s.copy1 t1.mem ≠ s.copy2 t1.mem ↔ s.copy1 w1.mem ≠ s.copy2 w1.mem :=
    not_congr hcopies1.equal_iff
  have hstore := storeLocal_both dest (hlen w1.mem) (hlen t1.mem) h1
  refine Cut.Both.state_bind (Cut.Both.ite hdiffer (fun _ => failed_both h1) fun _ => ?_)
  refine hstore.bind fun _ w2 _ t2 h2 => ?_
  exact Cut.Both.update_bind (Cut.Both.pure ⟨rfl, h2.recorded _ _ _ _⟩)

/-- The generator and the run-time level are as before. -/
def sourcesKept : Cut.Frame World where
  rel w w' := w'.rng = w.rng ∧ w'.currentLevel = w.currentLevel
  refl _ := ⟨rfl, rfl⟩
  trans h1 h2 := ⟨h2.1.trans h1.1, h2.2.trans h1.2⟩

theorem store_sources (a : Addr) (bs : List Byte) : Cut.Keeps sourcesKept (store a bs) :=
  step_keeps fun _ => ⟨rfl, rfl⟩

theorem hwLogAt_sources (level : LogLevel) (file : String) (line : Nat) (msg : Text) :
    Cut.Keeps sourcesKept (hwLogAt cfg level file line msg) :=
  (hwLogAt_logOnly cfg level file line msg).mono fun _ _ h => by
    rw [h.rest]
    exact ⟨rfl, rfl⟩

theorem deviceSecretGet_sources (dest : Addr) :
    Cut.Keeps sourcesKept (deviceSecretGet cfg s dest) := by
  have hfail : ∀ {file : String} {line : Nat} {msg : Text}, Cut.Keeps sourcesKept
      (hwLogFail cfg file line msg >>= fun _ => (pure (-1) : Cut World Word)) :=
    (hwLogAt_sources _ _ _ _).bind fun _ => Cut.Keeps.pure _
  have hrecord : Cut.Keeps sourcesKept (Cut.update fun w : World =>
      { w with gets := w.gets ++ [bytesAt w.mem dest udsLength] }) := fun _ => ⟨rfl, rfl⟩
  have hstore : ∀ bs, Cut.Keeps sourcesKept (store dest bs >>= fun _ => Cut.update (fun w : World =>
      { w with gets := w.gets ++ [bytesAt w.mem dest udsLength] }) >>= fun _ =>
        (pure 0 : Cut World Word)) := fun bs =>
    (store_sources dest bs).bind fun _ => hrecord.bind fun _ => Cut.Keeps.pure 0
  refine Cut.Keeps.ite hfail ((hwLogAt_sources _ _ _ _).bind fun _ => ?_)
  exact Cut.Keeps.state_bind fun w => Cut.Keeps.ite hfail (hstore (s.copy1 w.mem))

/-! ## The generation loop -/

/-- How the loop ends on the words of a generator: with a secret, or with an error. -/
inductive Draws : (Nat → Option Word) → Bool → Prop
  | error {rng : Nat → Option Word} : drawWords 8 rng = none → Draws rng false
  | secret {rng : Nat → Option Word} {bs : List Byte} :
      drawWords 8 rng = some bs → bs ≠ erasedSecret → Draws rng true
  | again {rng : Nat → Option Word} {b : Bool} : drawWords 8 rng = some erasedSecret →
      Draws (fun i => rng (i + 8)) b → Draws rng b

theorem Draws.unique {rng : Nat → Option Word} {b c : Bool} (hb : Draws rng b) (hc : Draws rng c) :
    b = c := by
  induction hb with
  | error hnone =>
    cases hc with
    | error => rfl
    | secret hsome => rw [hnone] at hsome; cases hsome
    | again hsome => rw [hnone] at hsome; cases hsome
  | secret hsome hvalid =>
    cases hc with
    | error hnone => rw [hnone] at hsome; cases hsome
    | secret => rfl
    | again hblank =>
      rw [hsome] at hblank
      exact absurd (Option.some.inj hblank) hvalid
  | again hblank _ ih =>
    cases hc with
    | error hnone => rw [hnone] at hblank; cases hblank
    | secret hsome hvalid =>
      rw [hsome] at hblank
      exact absurd (Option.some.inj hblank) hvalid
    | again _ hrest => exact ih hrest

/-- The loop ends as the words say, and logs only an error of the generator. -/
structure LoopDrew (cfg : BuildConfig) (w : World) (r : Option Word) (w' : World) : Prop where
  secret : r = some 0 → Draws w.rng true ∧ w.BufferOnly (Within dtcmStart dtcmLength) w'
  error : ∀ v, r = some v → v ≠ 0 → Draws w.rng false ∧
    ∃ w1, w.BufferOnly (Within dtcmStart dtcmLength) w1 ∧ rngRandFailed cfg (-1) w1 = (some v, w')

theorem LoopDrew.again {w w1 w2 : World} {r : Option Word}
    (hbuffer : w.BufferOnly (Within dtcmStart dtcmLength) w1)
    (hdraw : ∀ {b : Bool}, Draws w1.rng b → Draws w.rng b) (h : LoopDrew cfg w1 r w2) :
    LoopDrew cfg w r w2 := by
  refine ⟨fun h0 => ?_, fun v hv hne => ?_⟩
  · obtain ⟨hdraws, hrest⟩ := h.secret h0
    exact ⟨hdraw hdraws, hbuffer.trans hrest⟩
  · obtain ⟨hdraws, w3, hrest, hrun⟩ := h.error v hv hne
    exact ⟨hdraw hdraws, w3, hbuffer.trans hrest, hrun⟩

theorem generateLoop_drew (fuel : Nat) : ∀ w,
    Cut.Sat (generateLoop cfg locals fuel) w (LoopDrew cfg w) := by
  induction fuel with
  | zero => exact fun w => Cut.Sat.stop ⟨nofun, nofun⟩
  | succ fuel ih =>
    intro w
    unfold generateLoop
    rcases hrun : rngRand locals.secret.addr (BitVec.ofNat 32 udsLength) w with ⟨_ | ret, w1⟩
    · exact Cut.Sat.of_eq (Cut.bind_none hrun) ⟨nofun, nofun⟩
    have hfills := (hwRngRand_secret locals w).elim hrun
    have hbuffer : w.BufferOnly (Within dtcmStart dtcmLength) w1 :=
      hfills.only.mono fun _ hx => locals.secret.within hx
    refine Cut.Sat.bind_some hrun (Cut.Sat.ite (fun hret => ?_) fun hret => ?_)
    · obtain ⟨rfl, hnone⟩ := hfills.failed ret rfl hret
      rcases hlog : rngRandFailed cfg (-1) w1 with ⟨r, w2⟩
      have hcode : Cut.Sat (rngRandFailed cfg (-1)) w1 fun r _ => r ≠ some 0 :=
        failed_sat fun _ _ hr _ => hr
      refine Cut.Sat.of_eq hlog ⟨?_, fun v hv _ => ⟨Draws.error hnone, w1, hbuffer, ?_⟩⟩
      · exact fun h0 => absurd h0 (hcode.elim hlog)
      · rw [hlog, hv]
    · have hfilled := hfills.done (congrArg some (not_not.mp hret))
      have hbytes : drawWords 8 w.rng = some (bytesAt w1.mem locals.secret.addr udsLength) :=
        hfilled.bytes
      refine Cut.Sat.state_bind (Cut.Sat.ite (fun hvalid => ?_) fun hblank => ?_)
      · have hsecret := (isSecretValid_iff _ _).mp hvalid
        exact Cut.Sat.pure ⟨fun _ => ⟨Draws.secret hbytes hsecret, hbuffer⟩,
          fun v hv hne => absurd (Option.some.inj hv).symm hne⟩
      · rw [isSecretValid_iff, not_not] at hblank
        rw [hblank] at hbytes
        refine (ih w1).mono fun r w2 h2 => h2.again hbuffer fun hdraws => Draws.again hbytes ?_
        rwa [hfilled.rng] at hdraws

/-- Two loops that end the same way, with fuel of their own. -/
theorem generateLoop_both {n k : Nat} {w t : World} (h : w.LogView t)
    (hdraws : ∀ b, Draws w.rng b ↔ Draws t.rng b) :
    Cut.Both (generateLoop cfg locals n) w (generateLoop cfg locals k) t EndAlike := by
  intro a w' b t' hx hy
  have hw := (generateLoop_drew n w).elim hx
  have ht := (generateLoop_drew k t).elim hy
  have hbuffers : ∀ {w1 t1 : World}, w.BufferOnly (Within dtcmStart dtcmLength) w1 →
      t.BufferOnly (Within dtcmStart dtcmLength) t1 → w1.LogView t1 := fun hw1 ht1 =>
    h.buffers hw1 ht1 (fun _ => inLogs_not_dtcm) fun _ => inLogs_not_dtcm
  by_cases ha : a = 0
  · obtain ⟨hdraw, hw1⟩ := hw.secret (congrArg some ha)
    by_cases hb : b = 0
    · exact ⟨hb.trans ha.symm, hbuffers hw1 (ht.secret (congrArg some hb)).2⟩
    · have hother := (ht.error b rfl hb).1
      exact absurd (Draws.unique ((hdraws true).mp hdraw) hother) (by decide)
  · obtain ⟨hdraw, w1, hw1, hrun1⟩ := hw.error a rfl ha
    by_cases hb : b = 0
    · have hother := (ht.secret (congrArg some hb)).1
      exact absurd (Draws.unique ((hdraws false).mp hdraw) hother) (by decide)
    · obtain ⟨_, t1, ht1, hrun2⟩ := ht.error b rfl hb
      exact failed_both (hbuffers hw1 ht1) a w' b t' hrun1 hrun2

/-! ## Writing a blank copy -/

theorem watchdogReload_sameLog : SameLog (watchdogReload cfg) := by
  refine Cut.Same.ite (getTimeNow_sameLog.bind fun _ => ?_) (Cut.Same.pure _)
  exact fun _ _ h => Cut.Both.update ⟨rfl, h.level, h.zeroTime, h.clock, h.out, h.logs, h.hal,
    h.program, h.optionBytes, h.rsr, h.lastResetReason⟩

theorem halFlashUnlock_sameLog : SameLog halFlashUnlock := by
  intro w t h
  refine step_both ⟨congrFun h.hal 0, h.level, h.zeroTime, h.clock, h.out, h.logs, ?_, h.program,
    h.optionBytes, h.rsr, h.lastResetReason⟩
  show (fun n => t.hal (n + 1)) = fun n => w.hal (n + 1)
  rw [h.hal]

theorem halFlashLock_sameLog : SameLog halFlashLock := by
  intro w t h
  refine step_both ⟨congrFun h.hal 0, h.level, h.zeroTime, h.clock, h.out, h.logs, ?_, h.program,
    h.optionBytes, h.rsr, h.lastResetReason⟩
  show (fun n => t.hal (n + 1)) = fun n => w.hal (n + 1)
  rw [h.hal]

/-- A flash word outside the logs: the HAL reports the same in both runs. -/
theorem halFlashProgram_both {dst src : Addr} (hdst : ∀ x, InLogs x → ¬ Within dst flashWordSize x)
    {w t : World} (h : w.LogView t) :
    Cut.Both (halFlashProgram dst src) w (halFlashProgram dst src) t fun ok w' ok' t' =>
      EndAlike ok w' ok' t' ∧ (ok = true → w'.mem = programmed w.mem dst src allBits ∧
        t'.mem = programmed t.mem dst src allBits) := by
  have hview : ∀ mask, (w.afterProgram dst src mask).LogView (t.afterProgram dst src mask) := by
    intro mask
    refine ⟨h.level, h.zeroTime, h.clock, h.out, fun x hx => ?_, h.hal, ?_, h.optionBytes, h.rsr,
      h.lastResetReason⟩
    · show programmed t.mem dst src mask x = programmed w.mem dst src mask x
      rw [programmed_outside (hdst x hx), programmed_outside (hdst x hx)]
      exact h.logs x hx
    · show (fun n => t.program (n + 1)) = fun n => w.program (n + 1)
      rw [h.program]
  intro ok w' ok' t' hx hy
  have hprogram : t.program 0 = w.program 0 := congrFun h.program 0
  unfold halFlashProgram at hx hy
  rw [hprogram] at hy
  split at hx
  · cases hx
  split at hy
  · cases hy
  cases hp : w.program 0 with
  | none =>
    rw [hp] at hx hy
    cases hx
    cases hy
    exact ⟨⟨rfl, hview _⟩, fun _ => ⟨rfl, rfl⟩⟩
  | some mask =>
    rw [hp] at hx hy
    cases hx
    cases hy
    exact ⟨⟨rfl, hview _⟩, nofun⟩

/-- A blank flash word takes on any value. -/
theorem programmed_blank {m : Memory} {dst src : Addr}
    (hblank : bytesAt m dst flashWordSize = List.replicate flashWordSize 0xFF)
    (hapart : ∀ i, i < flashWordSize → ¬ Within dst flashWordSize (at_ src i)) :
    bytesAt (programmed m dst src allBits) dst flashWordSize =
      bytesAt (programmed m dst src allBits) src flashWordSize := by
  apply bytesAt_congr
  intro i hi
  have hw : i < 2 ^ 32 := Nat.lt_trans hi (by decide)
  have hold : m (at_ dst i) = 0xFF := by
    have hget := congrArg (fun l => l[i]?) hblank
    simpa [bytesAt, List.getElem?_range hi, hi] using hget
  have hbits : ∀ v : Byte, 0xFF &&& (v ||| ~~~0xFF) = v := by decide
  rw [programmed_outside (hapart i hi), programmed, if_pos ((within_at dst hw).mpr hi),
    at_sub_toNat dst hw, hold]
  exact hbits _

/-- The copy at `a` is blank. -/
def BlankAt (a : Addr) (m : Memory) : Prop := bytesAt m a udsLength = erasedSecret

theorem lock_both (v : Word) {w t : World} (h : w.LogView t) :
    Cut.Both (halFlashLock >>= fun _ => pure v) w (halFlashLock >>= fun _ => pure v) t EndAlike :=
  Cut.Same.bind halFlashLock_sameLog (fun _ => Cut.Same.pure v) w t h

/-- The only round of the loop, over a blank word. -/
theorem flashWriteLoop_both (cfg : BuildConfig) {a src : Addr}
    (hapart : ∀ i, i < flashWordSize → ¬ Within a flashWordSize (at_ src i))
    (hlogs : ∀ x, InLogs x → ¬ Within a flashWordSize x) {w t : World} (h : w.LogView t)
    (hw : BlankAt a w.mem) (ht : BlankAt a t.mem) :
    Cut.Both (flashWriteLoop cfg (BitVec.ofNat 32 udsLength) 2 0 src a) w
      (flashWriteLoop cfg (BitVec.ofNat 32 udsLength) 2 0 src a) t EndAlike := by
  have hreload := (watchdogReload_sameLog w t h).sat (watchdogReload_sat cfg w)
    (watchdogReload_sat cfg t)
  have hend : SameLog (halFlashLock >>= fun ok => if ok then pure 0 else pure (-5 : Word)) :=
    halFlashLock_sameLog.bind fun _ => Cut.Same.ite (Cut.Same.pure _) (Cut.Same.pure _)
  rw [flashWriteLoop, if_pos (by decide)]
  refine hreload.bind fun _ w1 _ t1 h1 => ?_
  obtain ⟨⟨_, hview1⟩, hw1, ht1⟩ := h1
  refine (halFlashProgram_both hlogs hview1).bind fun ok w2 ok' t2 h2 => ?_
  obtain ⟨⟨rfl, hview2⟩, hmem2⟩ := h2
  refine Cut.Both.ite Iff.rfl (fun hok => ?_) fun _ => lock_both _ hview2
  obtain ⟨hw2, ht2⟩ := hmem2 hok
  have heqw : bytesAt w2.mem a flashWordSize = bytesAt w2.mem src flashWordSize := by
    rw [hw2, hw1.mem]
    exact programmed_blank hw hapart
  have heqt : bytesAt t2.mem a flashWordSize = bytesAt t2.mem src flashWordSize := by
    rw [ht2, ht1.mem]
    exact programmed_blank ht hapart
  refine Cut.Both.state_bind (Cut.Both.ite (iff_of_true heqt heqw) (fun _ => ?_)
    fun hne => absurd heqw hne)
  rw [flashWriteLoop, if_neg (by decide)]
  exact hend w2 t2 hview2

theorem flashWrite_both (cfg : BuildConfig) {a : Addr}
    (hin : (a - getDICEImageStart).toNat + udsLength ≤ diceTotalSize) (src : DtcmObject udsLength)
    {w t : World} (h : w.LogView t) (hw : BlankAt a w.mem) (ht : BlankAt a t.mem) :
    Cut.Both (flashWrite cfg a src.addr (BitVec.ofNat 32 udsLength)) w
      (flashWrite cfg a src.addr (BitVec.ofNat 32 udsLength)) t EndAlike := by
  classical
  have hapart : ∀ i, i < flashWordSize → ¬ Within a flashWordSize (at_ src.addr i) :=
    fun i hi => secret_apart hin src hi
  have hlogs : ∀ x, InLogs x → ¬ Within a flashWordSize x := fun x hx hin' =>
    inLogs_notFlash hx (SecretCopies.inFlash_of_image hin hin')
  have hunlock := (halFlashUnlock_sameLog w t h).sat (halFlashUnlock_sat w) (halFlashUnlock_sat t)
  rw [flashWrite_eq]
  refine Cut.Both.ite Iff.rfl (fun _ => Cut.Both.pure ⟨rfl, h⟩) fun _ => ?_
  refine hunlock.bind fun ok w1 ok' t1 h1 => ?_
  obtain ⟨⟨rfl, hview1⟩, ⟨hw1, _⟩, ht1, _⟩ := h1
  have hblankw : BlankAt a w1.mem := by
    rw [hw1]
    exact hw
  have hblankt : BlankAt a t1.mem := by
    rw [ht1]
    exact ht
  have hloop := flashWriteLoop_both cfg hapart hlogs hview1 hblankw hblankt
  exact Cut.Both.ite Iff.rfl (fun _ => hloop) fun _ => Cut.Both.pure ⟨rfl, hview1⟩

theorem deviceSecretSet_both (cfg : BuildConfig) (src : DtcmObject udsLength) {w t : World}
    (h : w.LogView t)
    (hw1 : BlankAt s.addr1 w.mem) (hw2 : BlankAt s.addr2 w.mem) (ht1 : BlankAt s.addr1 t.mem)
    (ht2 : BlankAt s.addr2 t.mem) :
    Cut.Both (deviceSecretSet cfg s src.addr) w (deviceSecretSet cfg s src.addr) t EndAlike := by
  have hsecond : ∀ {m m' : Memory}, BlankAt s.addr2 m →
      (∀ x, ¬ Within s.addr1 udsLength x → m' x = m x) → BlankAt s.addr2 m' := by
    intro m m' hblank hm
    have hcopy : s.copy2 m' = s.copy2 m := SecretCopies.copy2_congr fun x hx => hm x fun hin =>
      SecretCopies.apart s.aligned1 s.aligned2 s.distinct hin hx
    exact hcopy.trans hblank
  have hfirst := (flashWrite_both cfg s.inside1 src h hw1 ht1).sat
    (flashWrite_copy cfg s.inside1 src w) (flashWrite_copy cfg s.inside1 src t)
  unfold deviceSecretSet
  refine hfirst.bind fun ret w1 ret' t1 h1 => ?_
  obtain ⟨⟨rfl, hview1⟩, hwc, htc⟩ := h1
  have hnext := flashWrite_both cfg s.inside2 src hview1 (hsecond hw2 hwc.1.mem)
    (hsecond ht2 htc.1.mem)
  refine Cut.Both.ite Iff.rfl (fun _ => failed_both hview1) fun _ => ?_
  refine hnext.bind fun ret w2 ret' t2 h2 => ?_
  obtain ⟨rfl, hview2⟩ := h2
  exact Cut.Both.ite Iff.rfl (fun _ => failed_both hview2) fun _ => Cut.Both.pure ⟨rfl, hview2⟩

/-! ## Saving a generated secret -/

/-- Only the bytes of a local have changed, and no word was drawn. -/
structure LocalOnly (o : DtcmObject udsLength) (w w' : World) : Prop where
  buffer : w.BufferOnly (Within o.addr udsLength) w'
  sources : sourcesKept.rel w w'

theorem LocalOnly.copies {o : DtcmObject udsLength} {w w' : World} (h : LocalOnly o w w') :
    ∀ x, s.Mem x → w'.mem x = w.mem x := fun _ hx => h.buffer.mem _ fun hin =>
  mem_not_scratch hx (Or.inl (o.within hin))

/-- A local set to zero, in both runs. -/
theorem storeZero_both (o : DtcmObject udsLength) {w t : World} (h : w.LogView t) :
    Cut.Both (store o.addr (List.replicate udsLength 0)) w
      (store o.addr (List.replicate udsLength 0)) t fun _ w' _ t' =>
        w'.LogView t' ∧ LocalOnly o w w' ∧ LocalOnly o t t' := by
  have hsat : ∀ w0 : World, Cut.Sat (store o.addr (List.replicate udsLength 0)) w0
      fun _ w' => LocalOnly o w0 w' := fun w0 =>
    ((store_sat (fun x hx => by rwa [List.length_replicate] at hx) w0).and
      ((store_sources _ _).sat w0)).mono fun _ _ hw => ⟨hw.1, hw.2⟩
  have hlogs : ∀ x, InLogs x → ¬ Within o.addr udsLength x :=
    fun x hx hin => dtcm_not_inLogs (o.within hin) hx
  exact (Cut.Both.ofSat (hsat w) (hsat t)).mono fun _ w' _ t' hstore =>
    ⟨h.buffers hstore.1.buffer hstore.2.buffer hlogs hlogs, hstore⟩

/-- Both copies hold the bytes of the local. -/
structure InPlace (s : SecretCopies) (locals : SecretLocals) (m : Memory) : Prop where
  copy1 : s.copy1 m = bytesAt m locals.secret.addr udsLength
  copy2 : s.copy2 m = bytesAt m locals.secret.addr udsLength
  valid : bytesAt m locals.secret.addr udsLength ≠ erasedSecret

theorem InPlace.secretSet {m : Memory} (h : InPlace s locals m) : SecretSet s m :=
  ⟨h.copy1.trans h.copy2.symm, fun hblank => h.valid (h.copy1.symm.trans hblank)⟩

/-- A byte of the local is in neither the reference nor the logs. -/
theorem secret_not_reference {x : Addr} (h : Within locals.secret.addr udsLength x) :
    ¬ Within locals.reference.addr udsLength x := by
  intro hin
  obtain ⟨i, hi, rfl⟩ := exists_at_of_within hin
  exact locals.apart i hi h

theorem secretBytes_congr (locals : SecretLocals) {m m' : Memory}
    (h : ∀ x, Within locals.secret.addr udsLength x → m' x = m x) :
    bytesAt m' locals.secret.addr udsLength = bytesAt m locals.secret.addr udsLength :=
  bytesAt_congr fun i hi => h _ ((within_at _ (Nat.lt_trans hi (by decide))).mpr hi)

theorem InPlace.congr {m m' : Memory} (h : InPlace s locals m) (hcopies : ∀ x, s.Mem x → m' x = m x)
    (hlocal : ∀ x, Within locals.secret.addr udsLength x → m' x = m x) : InPlace s locals m' := by
  obtain ⟨hcopy1, hcopy2⟩ := copies_of_same hcopies
  have hbytes := secretBytes_congr locals hlocal
  exact ⟨hcopy1.trans (h.copy1.trans hbytes.symm), hcopy2.trans (h.copy2.trans hbytes.symm),
    hbytes ▸ h.valid⟩

/-- What is read back is what was written. -/
theorem InPlace.readBack {w w1 w2 : World} (h : InPlace s locals w.mem)
    (h1 : LocalOnly locals.reference w w1) (h2 : GetEnds s locals.reference.addr w1 (some 0) w2) :
    bytesAt w2.mem locals.secret.addr udsLength =
      bytesAt w2.mem locals.reference.addr udsLength := by
  have hlocal : ∀ x, Within locals.secret.addr udsLength x → w1.mem x = w.mem x :=
    fun x hx => h1.buffer.mem x (secret_not_reference hx)
  have hplace := h.congr h1.copies hlocal
  calc bytesAt w2.mem locals.secret.addr udsLength
      = bytesAt w1.mem locals.secret.addr udsLength :=
        secretBytes_congr locals fun x hx =>
          h2.mem (dtcm_not_inLogs (locals.secret.within hx)) (secret_not_reference hx)
    _ = s.copy1 w1.mem := hplace.copy1.symm
    _ = bytesAt w2.mem locals.reference.addr udsLength := (h2.got rfl).2.2.1.symm

theorem checkSavedSecret_both {w t : World} (h : w.LogView t) (hw : InPlace s locals w.mem)
    (ht : InPlace s locals t.mem) :
    Cut.Both (checkSavedSecret cfg s locals) w (checkSavedSecret cfg s locals) t EndAlike := by
  unfold checkSavedSecret
  refine (storeZero_both locals.reference h).bind fun _ w1 _ t1 h1 => ?_
  obtain ⟨h1, hw1, ht1⟩ := h1
  have hset : CopiesAlike s w1.mem t1.mem :=
    Or.inl ⟨hw.secretSet.congr hw1.copies, ht.secretSet.congr ht1.copies⟩
  have hget := (deviceSecretGet_both cfg locals.reference h1 hset).sat
    (deviceSecretGet_ends locals.reference w1) (deviceSecretGet_ends locals.reference t1)
  refine hget.bind fun ret w2 ret' t2 h2 => ?_
  obtain ⟨⟨rfl, hview⟩, hgetw, hgett⟩ := h2
  refine Cut.Both.ite Iff.rfl (fun _ => failed_both hview) fun hret => ?_
  obtain rfl : ret' = 0 := not_not.mp hret
  -- in neither run does the comparison fail
  have hequalw := hw.readBack hw1 hgetw
  have hequalt := ht.readBack ht1 hgett
  refine Cut.Both.state_bind (Cut.Both.ite ?_ (fun hne => absurd hequalw hne)
    fun _ => failed_both hview)
  exact iff_of_false (fun hne => hne hequalt) fun hne => hne hequalw

/-- The state in which `DeviceSecretInitialize` saves what it has generated. -/
structure Generated (s : SecretCopies) (locals : SecretLocals) (w : World) : Prop where
  level : LogLevel.debug.toNat ≤ w.currentLevel.toNat
  blank1 : s.copy1 w.mem = erasedSecret
  blank2 : s.copy2 w.mem = erasedSecret
  valid : bytesAt w.mem locals.secret.addr udsLength ≠ erasedSecret

theorem Generated.logged {w w' : World} (h : Generated s locals w) (hw : w.LogOnly w') :
    Generated s locals w' := by
  obtain ⟨hcopy1, hcopy2⟩ := copies_of_same (hw.copies (s := s))
  have hbytes := secretBytes_congr locals fun x hx =>
    hw.mem x (dtcm_not_inLogs (locals.secret.within hx))
  refine ⟨?_, hcopy1.trans h.blank1, hcopy2.trans h.blank2, hbytes ▸ h.valid⟩
  rw [hw.rest]
  exact h.level

/-- `DeviceSecretSet` has succeeded. -/
theorem Generated.inPlace {w w' : World} (h : Generated s locals w)
    (hset : SetEnds s (bytesAt w.mem locals.secret.addr udsLength) w (some 0) w') :
    InPlace s locals w'.mem := by
  have hbytes := secretBytes_congr locals fun x hx => hset.changes.mem x fun hin =>
    hin.elim (fun hmem => mem_not_scratch hmem (Or.inl (locals.secret.within hx)))
      (dtcm_not_inLogs (locals.secret.within hx))
  obtain ⟨hcopy1, hcopy2⟩ := hset.done rfl
  exact ⟨hcopy1.trans hbytes.symm, hcopy2.trans hbytes.symm, hbytes ▸ h.valid⟩

theorem saveGeneratedSecret_both (cfg : BuildConfig) {w t : World} (h : w.LogView t)
    (hw : Generated s locals w) (ht : Generated s locals t) :
    Cut.Both (saveGeneratedSecret cfg s locals) w (saveGeneratedSecret cfg s locals) t
      EndAlike := by
  unfold saveGeneratedSecret
  refine (hwLogAt_both h).bind fun _ w1 _ t1 h1 => ?_
  obtain ⟨h1, hlogw, hlogt⟩ := h1
  have hw1 := hw.logged hlogw
  have ht1 := ht.logged hlogt
  -- the dump of the secret is dropped
  have hdumpw := hwLogSecretHex_filtered cfg hw1.level
  have hdumpt := hwLogSecretHex_filtered cfg ht1.level
  have hset := (deviceSecretSet_both cfg locals.secret h1 hw1.blank1 hw1.blank2 ht1.blank1
    ht1.blank2).sat (deviceSecretSet_ends locals.secret w1 rfl hw1.blank2)
    (deviceSecretSet_ends locals.secret t1 rfl ht1.blank2)
  refine Cut.Both.state_bind (Cut.Both.bind_some (hdumpw _ _ _) (hdumpt _ _ _) ?_)
  refine hset.bind fun ret w2 ret' t2 h2 => ?_
  obtain ⟨⟨rfl, hview⟩, hsetw, hsett⟩ := h2
  refine Cut.Both.ite Iff.rfl (fun _ => failed_both hview) fun hret => ?_
  obtain rfl : ret' = 0 := not_not.mp hret
  exact checkSavedSecret_both hview (hw1.inPlace hsetw) (ht1.inPlace hsett)

/-! ## DeviceSecretInitialize -/

/-- The state after the loop, with the record of the secret. -/
theorem LoopDrew.generated {u u1 u2 : World} (h : LoopDrew cfg u1 (some 0) u2)
    (hlog : u.LogOnly u1) (hvalid : isSecretValid u2.mem locals.secret.addr = true)
    (hlevel : LogLevel.debug.toNat ≤ u.currentLevel.toNat)
    (hblank : s.copy1 u.mem = erasedSecret ∧ s.copy2 u.mem = erasedSecret) :
    Generated s locals { u2 with
      generated := u2.generated ++ [bytesAt u2.mem locals.secret.addr udsLength] } := by
  obtain ⟨_, hbuffer⟩ := h.secret rfl
  obtain ⟨hcopy1, hcopy2⟩ := copies_congr (s := s) fun x hx =>
    (hbuffer.mem x fun hin => hx (Or.inl hin)).trans (hlog.mem x fun hin => hx (Or.inr hin))
  refine ⟨?_, hcopy1.trans hblank.1, hcopy2.trans hblank.2, (isSecretValid_iff _ _).mp hvalid⟩
  show LogLevel.debug.toNat ≤ u2.currentLevel.toNat
  rw [hbuffer.rest, hlog.rest]
  exact hlevel

theorem generateSecret_both {w t : World} (h : w.LogView t)
    (hlevel : LogLevel.debug.toNat ≤ w.currentLevel.toNat)
    (hw : s.copy1 w.mem = erasedSecret ∧ s.copy2 w.mem = erasedSecret)
    (ht : s.copy1 t.mem = erasedSecret ∧ s.copy2 t.mem = erasedSecret)
    (hdraws : ∀ b, Draws w.rng b ↔ Draws t.rng b) :
    Cut.Both (generateSecret cfg s locals) w (generateSecret cfg s locals) t EndAlike := by
  have hlevelt : LogLevel.debug.toNat ≤ t.currentLevel.toNat := by
    rw [h.level]
    exact hlevel
  have hends : ∀ u : World, Cut.Sat (generateLoop cfg locals (u.power + 1)) u fun r u' =>
      LoopDrew cfg u r u' ∧ u.Changes Scratch u' ∧
        (r = some 0 → isSecretValid u'.mem locals.secret.addr = true) := fun u =>
    (generateLoop_drew (u.power + 1) u).and (generateLoop_ends (u.power + 1) u)
  unfold generateSecret
  refine (hwLogAt_both h).bind fun _ w1 _ t1 h1 => Cut.Both.state_bind ?_
  obtain ⟨h1, hlogw, hlogt⟩ := h1
  have hdraws1 : ∀ b, Draws w1.rng b ↔ Draws t1.rng b := by
    rw [hlogw.rest, hlogt.rest]
    exact hdraws
  refine ((generateLoop_both h1 hdraws1).sat (hends w1) (hends t1)).bind fun ret w2 ret' t2 h2 => ?_
  obtain ⟨⟨rfl, hview⟩, ⟨hdreww, _, hvalidw⟩, hdrewt, _, hvalidt⟩ := h2
  refine Cut.Both.ite Iff.rfl (fun _ => Cut.Both.pure ⟨rfl, hview⟩) fun hret => ?_
  obtain rfl : ret' = 0 := not_not.mp hret
  have hgeneratedw := hdreww.generated hlogw (hvalidw rfl) hlevel hw
  have hgeneratedt := hdrewt.generated hlogt (hvalidt rfl) hlevelt ht
  have hsave := saveGeneratedSecret_both cfg (hview.recorded _ _ _ _) hgeneratedw
    hgeneratedt
  exact Cut.Both.update_bind hsave

/-- Both copies are blank when what was read from them is not a secret. -/
theorem GetEnds.foundBlank {dest : DtcmObject udsLength} {u u' : World}
    (h : GetEnds s dest.addr u (some 0) u') (hbad : ¬ isSecretValid u'.mem dest.addr = true) :
    s.copy1 u'.mem = erasedSecret ∧ s.copy2 u'.mem = erasedSecret := by
  rw [h.valid_iff, not_not] at hbad
  obtain ⟨hcopy1, hcopy2⟩ := copies_congr (s := s) h.scratch.mem
  exact ⟨hcopy1.trans hbad, hcopy2.trans ((h.got rfl).2.1.symm.trans hbad)⟩

/-- What decides the messages of a boot, apart from what is the same in both runs. -/
structure SecretsAlike (s : SecretCopies) (w t : World) : Prop where
  level : LogLevel.debug.toNat ≤ w.currentLevel.toNat
  copies : CopiesAlike s w.mem t.mem
  draws : s.copy1 w.mem = erasedSecret → ∀ b, Draws w.rng b ↔ Draws t.rng b

theorem deviceSecretInitialize_both {w t : World} (h : w.LogView t)
    (hsecrets : SecretsAlike s w t) :
    Cut.Both (deviceSecretInitialize cfg s locals) w (deviceSecretInitialize cfg s locals) t
      EndAlike := by
  have hsat : ∀ u : World, Cut.Sat (deviceSecretGet cfg s locals.secret.addr) u
      fun r u' => GetEnds s locals.secret.addr u r u' ∧ sourcesKept.rel u u' := fun u =>
    (deviceSecretGet_ends locals.secret u).and ((deviceSecretGet_sources _).sat u)
  have hkept : ∀ {u u' : World}, u.LogOnly u' → LogLevel.debug.toNat ≤ u.currentLevel.toNat →
      LogLevel.debug.toNat ≤ u'.currentLevel.toNat := by
    intro u u' hlog hu
    rw [hlog.rest]
    exact hu
  unfold deviceSecretInitialize
  refine (storeZero_both locals.secret h).bind fun _ w1 _ t1 h1 => ?_
  obtain ⟨h1, hw1, ht1⟩ := h1
  have halike := hsecrets.copies.congr (hw1.copies (s := s)) (ht1.copies (s := s))
  have hget := (deviceSecretGet_both cfg locals.secret h1 halike).sat (hsat w1) (hsat t1)
  refine hget.bind fun ret w2 ret' t2 h2 => ?_
  obtain ⟨⟨rfl, hview⟩, ⟨hgetw, hsourcesw⟩, hgett, hsourcest⟩ := h2
  refine Cut.Both.ite Iff.rfl (fun _ => failed_both hview) fun hret => ?_
  obtain rfl : ret' = 0 := not_not.mp hret
  have hlevel : LogLevel.debug.toNat ≤ w2.currentLevel.toNat := by
    rw [hsourcesw.2, hw1.sources.2]
    exact hsecrets.level
  have hlevelt : LogLevel.debug.toNat ≤ t2.currentLevel.toNat := by
    rw [hview.level]
    exact hlevel
  have hsame : isSecretValid t2.mem locals.secret.addr = true ↔
      isSecretValid w2.mem locals.secret.addr = true := by
    rw [hgetw.valid_iff, hgett.valid_iff]
    exact not_congr halike.blank_iff
  refine Cut.Both.state_bind (Cut.Both.ite hsame (fun _ => ?_) fun hblank => ?_)
  · -- the secret that there is, whose dump is dropped
    refine (hwLogAt_both hview).bind fun _ w3 _ t3 h3 => ?_
    obtain ⟨h3, hlogw, hlogt⟩ := h3
    have hdumpw := hwLogSecretHex_filtered cfg (hkept hlogw hlevel)
    have hdumpt := hwLogSecretHex_filtered cfg (hkept hlogt hlevelt)
    exact Cut.Both.bind_some (hdumpw _ _ _) (hdumpt _ _ _) (Cut.Both.pure ⟨rfl, h3⟩)
  · -- a secret that is generated
    have hw2 := hgetw.foundBlank hblank
    have ht2 := hgett.foundBlank fun hbad => hblank (hsame.mp hbad)
    have hblankw : s.copy1 w.mem = erasedSecret := by
      rw [hgetw.valid_iff, not_not] at hblank
      exact (copies_of_same hw1.copies).1.symm.trans hblank
    have hdraws : ∀ b, Draws w2.rng b ↔ Draws t2.rng b := by
      rw [hsourcesw.1, hw1.sources.1, hsourcest.1, ht1.sources.1]
      exact hsecrets.draws hblankw
    exact generateSecret_both hview hlevel hw2 ht2 hdraws

end VerifiedDice
