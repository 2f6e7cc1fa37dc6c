import VerifiedDice.FlashWrite
import VerifiedDice.L0Boot
import VerifiedDice.Lib.Lockstep

/-!
# Bytes without influence

Two devices that differ in some bytes of the shared RAM only. The log, the watchdog, the flash
driver and the start of an image behave the same on both, wherever the power is cut.
-/
namespace VerifiedDice

open ByteMemory CircularLog

/-- The same device apart from the bytes of `S`. -/
structure World.SameBut (S : Addr → Prop) (w t : World) : Prop where
  mem : AgreeOn (fun x => ¬ S x) w.mem t.mem
  rest : t = { w with mem := t.mem }

/-- The bytes of `S` have no influence on `x`. -/
abbrev Blind {α : Type} (S : Addr → Prop) (x : Cut World α) : Prop :=
  Cut.Lockstep (World.SameBut S) x

section Steps

variable {α β : Type} {S : Addr → Prop} {w t : World}

theorem World.SameBut.refl (w : World) : w.SameBut S w := ⟨fun _ _ => rfl, rfl⟩

/-- The second device, by its memory. -/
theorem sameBut_mem {m : Memory} (h : AgreeOn (fun x => ¬ S x) w.mem m) :
    w.SameBut S { w with mem := m } := ⟨h, rfl⟩

theorem World.SameBut.elim (h : w.SameBut S t) {P : World → Prop}
    (hP : ∀ m, AgreeOn (fun x => ¬ S x) w.mem m → P { w with mem := m }) : P t := by
  rw [h.rest]
  exact hP t.mem h.mem

theorem World.SameBut.zeroTime (h : w.SameBut S t) : t.zeroTime = w.zeroTime := by rw [h.rest]

theorem World.SameBut.currentLevel (h : w.SameBut S t) : t.currentLevel = w.currentLevel := by
  rw [h.rest]

/-- The two runs of a step may do different things to `S`. -/
theorem step_alike {f g : World → α × World} (h : w.SameBut S t)
    (hfg : ∀ w m, AgreeOn (fun x => ¬ S x) w.mem m →
      (g { w with mem := m }).1 = (f w).1 ∧ (f w).2.SameBut S (g { w with mem := m }).2) :
    Cut.Alike (step f) w (step g) t fun _ w' t' => w'.SameBut S t' := by
  apply h.elim
  intro m hm
  by_cases hpower : w.power = 0
  · exact Cut.Alike.of_eq (if_pos hpower) (if_pos hpower) (sameBut_mem hm)
  · obtain ⟨hresult, hstates⟩ := hfg w.spend m hm
    have hfirst : step f w = (some (f w.spend).1, (f w.spend).2) := if_neg hpower
    have hsecond : step g { w with mem := m } =
        (some (g { w.spend with mem := m }).1, (g { w.spend with mem := m }).2) := if_neg hpower
    rw [hresult] at hsecond
    exact Cut.Alike.of_eq hfirst hsecond hstates

theorem step_blind {f : World → α × World}
    (h : ∀ w m, AgreeOn (fun x => ¬ S x) w.mem m →
      (f { w with mem := m }).1 = (f w).1 ∧ (f w).2.SameBut S (f { w with mem := m }).2) :
    Blind S (step f) := fun _ _ hw => step_alike hw h

/-- A step that has nothing to do with the memory. -/
theorem step_blind_of_rest {f : World → α × World}
    (h : ∀ w m, f { w with mem := m } = ((f w).1, { (f w).2 with mem := m }))
    (hmem : ∀ w, (f w).2.mem = w.mem) : Blind S (step f) := by
  apply step_blind
  intro w m hm
  rw [h w m]
  constructor
  · rfl
  · apply sameBut_mem
    rw [hmem w]
    exact hm

/-- What is read does not tell the two devices apart. -/
theorem blind_read {γ : Type} (read : World → γ)
    (hread : ∀ w t : World, w.SameBut S t → read t = read w) {k : γ → Cut World β}
    (hk : ∀ c, Blind S (k c)) : Blind S (Cut.state >>= fun w => k (read w)) :=
  Cut.Lockstep.read read hread hk

theorem getTimeNow_blind : Blind S getTimeNow := step_blind_of_rest (fun _ _ => rfl) fun _ => rfl

theorem halStatus_blind : Blind S halStatus := step_blind_of_rest (fun _ _ => rfl) fun _ => rfl

theorem halFlashUnlock_blind : Blind S halFlashUnlock :=
  step_blind_of_rest (fun _ _ => rfl) fun _ => rfl

theorem halFlashLock_blind : Blind S halFlashLock :=
  step_blind_of_rest (fun _ _ => rfl) fun _ => rfl

theorem store_blind (a : Addr) (bs : List Byte) : Blind S (store a bs) := by
  apply step_blind
  intro w m hm
  exact ⟨rfl, hm.write a bs, rfl⟩

theorem storeFill_blind (a : Addr) (n : Nat) (b : Byte) : Blind S (storeFill a n b) := by
  apply step_blind
  intro w m hm
  refine ⟨rfl, ?_, rfl⟩
  exact (hm.fill a n b).mono fun _ => Or.inl

end Steps

/-! ## Logging and the watchdog -/

section Logging

variable {S : Addr → Prop} {cfg : BuildConfig}

theorem targetPrintString_blind (hS : ∀ x, S x → InShared x) (str : Text) :
    Blind S (targetPrintString str) := by
  have hlogs : ∀ x, InLogs x → ¬ S x := fun x hlog hx => shared_not_inLogs (hS x hx) hlog
  apply step_blind
  intro w m hm
  have hram : AgreeOn (fun x => ¬ S x) (logTo ramLog w.mem str) (logTo ramLog m str) :=
    logTo_congr (fun x hx => hlogs x (Or.inr hx)) hm str
  exact ⟨rfl, logTo_congr (fun x hx => hlogs x (Or.inl hx)) hram str, rfl⟩

theorem getLogTime_blind : Blind S getLogTime :=
  blind_read (k := fun zeroTime => getTimeNow >>= fun now =>
    pure ((now - zeroTime).setWidth 32)) (fun w => w.zeroTime) (fun _ _ h => h.zeroTime) fun _ =>
    getTimeNow_blind.bind fun _ => Cut.Lockstep.pure _

/-- A message is dropped on both devices or on none. -/
theorem blind_filtered {p : LogLevel → Prop} [DecidablePred p] {x : Cut World Unit}
    (hx : Blind S x) : Blind S (Cut.state >>= fun w => if p w.currentLevel then pure () else x) :=
  blind_read (k := fun l => if p l then pure () else x) (fun w => w.currentLevel)
    (fun _ _ h => h.currentLevel) fun _ => Cut.Lockstep.ite (Cut.Lockstep.pure _) hx

theorem hwLogStr_blind (hS : ∀ x, S x → InShared x) (level : LogLevel) (str : Text) :
    Blind S (hwLogStr level str) :=
  blind_filtered (p := fun l => level.toNat < l.toNat)
    ((targetPrintString_blind hS _).bind fun _ => targetPrintString_blind hS _)

theorem hwLogAt_blind (hS : ∀ x, S x → InShared x) (level : LogLevel) (file : String)
    (line : Nat) (t : Text) : Blind S (hwLogAt cfg level file line t) := by
  apply Cut.Lockstep.ite
  · exact blind_filtered
      (p := fun l => level.toNat < l.toNat ∨ LogLevel.afterLast.toNat ≤ level.toNat)
      (getLogTime_blind.bind fun _ => hwLogStr_blind hS _ _)
  · exact Cut.Lockstep.pure _

theorem hwLogInfoStr_blind (hS : ∀ x, S x → InShared x) (str : Text) :
    Blind S (hwLogInfoStr cfg str) :=
  Cut.Lockstep.ite (hwLogStr_blind hS _ _) (Cut.Lockstep.pure _)

theorem hwLogSecretHex_blind (hS : ∀ x, S x → InShared x) (file : String) (line : Nat)
    (data : List Byte) : Blind S (hwLogSecretHex cfg file line data) := by
  have hprint : ∀ str : Text, Blind S (targetPrintString str) := targetPrintString_blind hS
  apply Cut.Lockstep.ite
  · exact blind_filtered
      (p := fun l => LogLevel.secret.toNat < l.toNat ∨
        LogLevel.afterLast.toNat ≤ LogLevel.secret.toNat)
      (getLogTime_blind.bind fun _ => (hprint _).bind fun _ => (hprint _).bind fun _ => hprint _)
  · exact Cut.Lockstep.pure _

theorem swWatchdogReload_blind : Blind S (swWatchdogReload cfg) := by
  apply Cut.Lockstep.ite
  · apply getTimeNow_blind.bind
    intro _
    apply Cut.Lockstep.update
    intro w t h
    apply h.elim
    intro m hm
    exact ⟨hm, rfl⟩
  · exact Cut.Lockstep.pure _

/-! ## The start and the end of an image -/

theorem halThen_blind {α : Type} {x y : Cut World α} (hx : Blind S x) (hy : Blind S y) :
    Blind S (halStatus >>= fun ok => if ok then x else y) :=
  halStatus_blind.bind fun _ => Cut.Lockstep.ite hx hy

theorem halOrHang_blind : Blind S halOrHang :=
  halThen_blind (Cut.Lockstep.pure _) Cut.Lockstep.stop

theorem bothCalls_blind : Blind S bothCalls :=
  halThen_blind (halThen_blind (Cut.Lockstep.pure _) (Cut.Lockstep.pure _)) (Cut.Lockstep.pure _)

theorem swWatchdogEnd_blind : Blind S (swWatchdogEnd cfg) :=
  Cut.Lockstep.ite bothCalls_blind (Cut.Lockstep.pure _)

theorem hwRngDeInit_blind : Blind S hwRngDeInit :=
  halThen_blind (Cut.Lockstep.pure _) (Cut.Lockstep.pure _)

theorem backupSramDisable_blind (hS : ∀ x, S x → InShared x) : Blind S (backupSramDisable cfg) :=
  halThen_blind (Cut.Lockstep.pure _) (hwLogAt_blind hS _ _ _ _)

theorem systemInit_blind : Blind S systemInit := by
  have hclock : Blind S systemClockConfig :=
    halOrHang_blind.bind fun _ => halOrHang_blind.bind fun _ => halOrHang_blind
  have huart : Blind S uartInit :=
    halOrHang_blind.bind fun _ => halOrHang_blind.bind fun _ => halOrHang_blind.bind fun _ =>
      halOrHang_blind
  exact hclock.bind fun _ => huart

theorem imageStart_blind (hS : ∀ x, S x → InShared x) (file : String) (line : Nat) :
    Blind S (imageStart cfg file line) := by
  have hlog : ∀ (file : String) (line : Nat) (t : Text), Blind S (hwLogFail cfg file line t) :=
    fun file line t => hwLogAt_blind hS _ file line t
  have henable : Blind S (backupSramEnable cfg) :=
    halThen_blind (Cut.Lockstep.pure _) (hlog _ _ _)
  have hwatchdog : Blind S (swWatchdogInit cfg) :=
    Cut.Lockstep.ite bothCalls_blind (Cut.Lockstep.pure _)
  have hrng : Blind S hwRngInit :=
    halThen_blind (halThen_blind (Cut.Lockstep.pure _) (Cut.Lockstep.pure _)) (Cut.Lockstep.pure _)
  have hreport : ∀ ret : Word, Blind S (imageStart.reportUnlessZero cfg ret file line) :=
    fun _ => Cut.Lockstep.ite (hlog _ _ _) (Cut.Lockstep.pure _)
  exact systemInit_blind.bind fun _ => getTimeNow_blind.bind fun _ => henable.bind fun _ =>
    hwatchdog.bind fun _ => (hreport _).bind fun _ => hrng.bind fun _ => Cut.Lockstep.pure _

end Logging

/-! ## Flash -/

section Flash

variable {S : Addr → Prop}

theorem halFlashProgram_blind {dst src : Addr} (hsrc : ∀ i, i < flashWordSize → ¬ S (at_ src i)) :
    Blind S (halFlashProgram dst src) := by
  have hprogrammed : ∀ (w : World) (m : Memory) (mask : Nat → Byte),
      AgreeOn (fun x => ¬ S x) w.mem m →
        AgreeOn (fun x => ¬ S x) (programmed w.mem dst src mask) (programmed m dst src mask) := by
    intro w m mask hm x hx
    unfold programmed
    by_cases hin : Within dst flashWordSize x
    · rw [if_pos hin, if_pos hin, hm x hx, hm _ (hsrc _ hin)]
    · rw [if_neg hin, if_neg hin, hm x hx]
  intro w t h
  apply h.elim
  intro m hm
  have hend : ∀ mask : Nat → Byte, (w.afterProgram dst src mask).SameBut S
      (World.afterProgram { w with mem := m } dst src mask) := by
    intro mask
    exact ⟨hprogrammed w m mask hm, rfl⟩
  unfold halFlashProgram
  by_cases hpower : w.power = 0
  · exact Cut.Alike.of_eq (if_pos hpower) (if_pos hpower) (hend _)
  · cases hmask : w.program 0 with
    | none =>
      apply Cut.Alike.of_eq (r := some true) _ _ (hend allBits)
      · rw [if_neg hpower, hmask]
      · rw [if_neg hpower]
        simp only [hmask]
    | some mask =>
      apply Cut.Alike.of_eq (r := some false) _ _ (hend mask)
      · rw [if_neg hpower, hmask]
      · rw [if_neg hpower]
        simp only [hmask]

theorem flashWriteLoop_blind (cfg : BuildConfig) (size : Word) (fuel : Nat) : ∀ i src dst,
    (∀ j, j < flashWordSize * fuel → ¬ S (at_ src j)) →
    (∀ j, j < flashWordSize * fuel → ¬ S (at_ dst j)) →
    Blind S (flashWriteLoop cfg size fuel i src dst) := by
  have hlock : ∀ v : Word, Blind S (halFlashLock >>= fun _ => pure v) :=
    fun v => halFlashLock_blind.bind fun _ => Cut.Lockstep.pure v
  induction fuel with
  | zero => exact fun _ _ _ _ _ => Cut.Lockstep.stop
  | succ fuel ih =>
    intro i src dst hsrc hdst
    have hroom : flashWordSize * (fuel + 1) = flashWordSize * fuel + flashWordSize :=
      Nat.mul_succ _ _
    have hnext : ∀ {a : Addr}, (∀ j, j < flashWordSize * (fuel + 1) → ¬ S (at_ a j)) →
        ∀ j, j < flashWordSize * fuel → ¬ S (at_ (a + flashWord) j) := by
      intro a ha j hj
      have hat : a + flashWord = at_ a flashWordSize := rfl
      rw [hat, at_at]
      exact ha _ (by omega)
    have hword : ∀ {w t : World} {a : Addr}, w.SameBut S t →
        (∀ j, j < flashWordSize * (fuel + 1) → ¬ S (at_ a j)) →
        bytesAt t.mem a flashWordSize = bytesAt w.mem a flashWordSize :=
      fun h ha => h.mem.bytesAt fun j hj => ha j (by omega)
    have hread : ∀ w t : World, w.SameBut S t →
        (bytesAt t.mem dst flashWordSize, bytesAt t.mem src flashWordSize) =
          (bytesAt w.mem dst flashWordSize, bytesAt w.mem src flashWordSize) := by
      intro w t h
      rw [hword h hdst, hword h hsrc]
    have hcompare : Blind S (Cut.state >>= fun w => if bytesAt w.mem dst flashWordSize =
        bytesAt w.mem src flashWordSize then
          flashWriteLoop cfg size fuel (i + flashWord) (src + flashWord) (dst + flashWord)
        else halFlashLock >>= fun _ => pure (-4)) :=
      blind_read (k := fun p => if p.1 = p.2 then
          flashWriteLoop cfg size fuel (i + flashWord) (src + flashWord) (dst + flashWord)
        else halFlashLock >>= fun _ => pure (-4)) _ hread fun _ =>
          Cut.Lockstep.ite (ih _ _ _ (hnext hsrc) (hnext hdst)) (hlock _)
    have hreload : Blind S (watchdogReload cfg) := swWatchdogReload_blind
    unfold flashWriteLoop
    apply Cut.Lockstep.ite
    · apply hreload.bind
      intro _
      apply (halFlashProgram_blind fun j hj => hsrc j (by omega)).bind
      intro _
      exact Cut.Lockstep.ite hcompare (hlock _)
    · apply halFlashLock_blind.bind
      intro _
      exact Cut.Lockstep.ite (Cut.Lockstep.pure _) (Cut.Lockstep.pure _)

/-- The words that are read, and one behind them. -/
theorem flashWrite_blind (cfg : BuildConfig) {dest source : Addr} {size : Word}
    (hsource : ∀ j, j < flashWordSize * (size.toNat / flashWordSize + 1) → ¬ S (at_ source j))
    (hdest : ∀ j, j < flashWordSize * (size.toNat / flashWordSize + 1) → ¬ S (at_ dest j)) :
    Blind S (flashWrite cfg dest source size) := by
  unfold flashWrite
  iterate 5
    apply Cut.Lockstep.ite
    · exact Cut.Lockstep.pure _
  apply halFlashUnlock_blind.bind
  intro _
  exact Cut.Lockstep.ite (flashWriteLoop_blind cfg size _ _ _ _ hsource hdest) (Cut.Lockstep.pure _)

end Flash

end VerifiedDice
