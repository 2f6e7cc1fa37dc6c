import VerifiedDice.World

/-!
# Writing flash

`Flash_Write` of the Arm driver over the HAL. A flash word of 32 bytes is programmed by
clearing bits: all that the source has clear if the HAL succeeds, any of them if it
reports an error or if the power is gone during the call.
-/
namespace VerifiedDice

open ByteMemory

/-! ## Watchdog and HAL -/

section Hal

variable (cfg : BuildConfig)

def swWatchdogReload : Cut World Unit :=
  if cfg.enableWatchdog then do
    let now ← getTimeNow
    Cut.update fun w => { w with lastRefresh := now }
  else pure ()

/-- `Watchdog_Reload`. The hardware half only writes the key register of the watchdog. -/
def watchdogReload : Cut World Unit := swWatchdogReload cfg

def halFlashUnlock : Cut World Bool :=
  step fun w => (w.hal 0, { w with
    hal := fun n => w.hal (n + 1)
    flashLocked := if w.hal 0 then false else w.flashLocked
    flashCalls := w.flashCalls ++ [.unlock] })

def halFlashLock : Cut World Bool :=
  step fun w => (w.hal 0, { w with
    hal := fun n => w.hal (n + 1)
    flashLocked := if w.hal 0 then true else w.flashLocked
    flashCalls := w.flashCalls ++ [.lock] })

/-- The flash word at `dst` with the bits of `mask` cleared where the source has them clear. -/
def programmed (m : Memory) (dst src : Addr) (mask : Nat → Byte) : Memory := fun x =>
  if Within dst flashWordSize x then
    m x &&& (m (at_ src (x - dst).toNat) ||| ~~~ mask (x - dst).toNat)
  else m x

def allBits : Nat → Byte := fun _ => 0xFF

def World.afterProgram (w : World) (dst src : Addr) (mask : Nat → Byte) : World :=
  { w.spend with
    mem := programmed w.mem dst src mask
    written := fun x => w.written x || decide (Within dst flashWordSize x)
    program := fun n => w.program (n + 1)
    flashCalls := w.flashCalls ++ [.program dst src] }

/-- `HAL_FLASH_Program`. -/
def halFlashProgram (dst src : Addr) : Cut World Bool := fun w =>
  if w.power = 0 then (none, w.afterProgram dst src w.torn) else
    match w.program 0 with
    | none => (some true, w.afterProgram dst src allBits)
    | some mask => (some false, w.afterProgram dst src mask)

end Hal

/-! ## Flash_Write -/

variable (cfg : BuildConfig)

def flashWord : Word := BitVec.ofNat 32 flashWordSize

/-- The loop, then the final lock; a round advances all three cursors by a flash word. -/
def flashWriteLoop (size : Word) : Nat → Word → Addr → Addr → Cut World Word
  | 0, _, _, _ => hang
  | fuel + 1, i, src, dst =>
    if i < size then do
      watchdogReload cfg
      let ok ← halFlashProgram dst src
      if ok then do
        let w ← Cut.state
        if bytesAt w.mem dst flashWordSize = bytesAt w.mem src flashWordSize then
          flashWriteLoop size fuel (i + flashWord) (src + flashWord) (dst + flashWord)
        else do
          let _ ← halFlashLock
          pure (-4)
      else do
        let _ ← halFlashLock
        pure (-3)
    else do
      let ok ← halFlashLock
      if ok then pure 0 else pure (-5)

def flashWrite (dest source : Addr) (size : Word) : Cut World Word :=
  if source = 0 ∨ dest = 0 then pure (-1)
  else if source + size < source ∨ dest + size < dest ∨ size + flashWord < size then pure (-1)
  else if size.toNat % flashWordSize ≠ 0 then pure (-1)
  else if source.toNat % 4 ≠ 0 then pure (-1)
  else if dest.toNat % flashWordSize ≠ 0 then pure (-1)
  else do
    let ok ← halFlashUnlock
    if ok then flashWriteLoop cfg size (size.toNat / flashWordSize + 1) 0 source dest
    else pure (-2)

/-! ## What is left alone -/

variable {cfg} {S : Addr → Prop}

theorem watchdogReload_logOnly : Cut.Keeps logOnly (watchdogReload cfg) :=
  Cut.Keeps.ite (getTimeNow_logOnly.bind fun _ _ => ⟨fun _ _ => rfl, fun _ _ => rfl, rfl⟩)
    (Cut.Keeps.pure _)

theorem watchdogReload_changes : Cut.Keeps (changes S) (watchdogReload cfg) := by
  refine Cut.Keeps.ite (Cut.Keeps.bind ?_ fun _ _ => ?_) (Cut.Keeps.pure _)
  · exact step_keeps fun _ => ⟨fun _ _ => rfl, fun _ _ => rfl, rfl, rfl, rfl⟩
  · exact ⟨fun _ _ => rfl, fun _ _ => rfl, rfl, rfl, rfl⟩

theorem halFlashUnlock_changes : Cut.Keeps (changes S) halFlashUnlock :=
  step_keeps fun _ => ⟨fun _ _ => rfl, fun _ _ => rfl, rfl, rfl, rfl⟩

theorem halFlashLock_changes : Cut.Keeps (changes S) halFlashLock :=
  step_keeps fun _ => ⟨fun _ _ => rfl, fun _ _ => rfl, rfl, rfl, rfl⟩

theorem programmed_outside {m : Memory} {dst src x : Addr} {mask : Nat → Byte}
    (h : ¬ Within dst flashWordSize x) : programmed m dst src mask x = m x := if_neg h

theorem afterProgram_changes {w : World} {dst src : Addr} {mask : Nat → Byte}
    (h : ∀ x, Within dst flashWordSize x → S x) : w.Changes S (w.afterProgram dst src mask) := by
  refine ⟨fun x hx => programmed_outside fun hin => hx (h x hin), fun x hx => ?_, rfl, rfl, rfl⟩
  have hout : ¬ Within dst flashWordSize x := fun hin => hx (h x hin)
  simp [World.afterProgram, hout, World.spend]

/-- However the call ends, it is one flash word that has changed; the outcome is the next one. -/
theorem halFlashProgram_sat (dst src : Addr) (w : World) :
    Cut.Sat (halFlashProgram dst src) w fun r w' => ∃ mask, w' = w.afterProgram dst src mask ∧
      (r = some true → mask = allBits ∧ w.program 0 = none) ∧
      (r = some false → w.program 0 = some mask) := by
  by_cases hpower : w.power = 0
  · exact Cut.Sat.of_eq (if_pos hpower) ⟨w.torn, rfl, nofun, nofun⟩
  · cases hnext : w.program 0 with
    | none =>
      have hrun : halFlashProgram dst src w = (some true, w.afterProgram dst src allBits) := by
        rw [halFlashProgram, if_neg hpower, hnext]
      exact Cut.Sat.of_eq hrun ⟨allBits, rfl, fun _ => ⟨rfl, rfl⟩, nofun⟩
    | some mask =>
      have hrun : halFlashProgram dst src w = (some false, w.afterProgram dst src mask) := by
        rw [halFlashProgram, if_neg hpower, hnext]
      exact Cut.Sat.of_eq hrun ⟨mask, rfl, nofun, fun _ => rfl⟩

theorem halFlashProgram_changes {dst src : Addr} (h : ∀ x, Within dst flashWordSize x → S x) :
    Cut.Keeps (changes S) (halFlashProgram dst src) := by
  intro w
  obtain ⟨mask, hw, _⟩ := halFlashProgram_sat dst src w
  rw [hw]
  exact afterProgram_changes h

theorem flashWordSize_eq : flashWordSize = 32 := rfl

theorem at_flashWord (a : Addr) (k : Nat) :
    at_ a (flashWordSize * k) + flashWord = at_ a (flashWordSize * (k + 1)) := by
  rw [at_add_word]
  rfl

theorem ofNat_flashWord (k : Nat) :
    BitVec.ofNat 32 (flashWordSize * k) + flashWord =
      BitVec.ofNat 32 (flashWordSize * (k + 1)) := by
  rw [flashWord, ← BitVec.ofNat_add]
  rfl

/-- While the loop runs there is room for one more word. -/
theorem room_of_lt {size : Word} (hsize : size.toNat % flashWordSize = 0) {k : Nat}
    (hk : flashWordSize * k ≤ size.toNat) (h : BitVec.ofNat 32 (flashWordSize * k) < size) :
    flashWordSize * (k + 1) ≤ size.toNat := by
  have hlt := size.isLt
  rw [BitVec.lt_def, BitVec.toNat_ofNat, Nat.mod_eq_of_lt (by omega)] at h
  rw [flashWordSize_eq] at *
  omega

theorem flashWriteLoop_changes (cfg : BuildConfig) {size : Word} (source : Addr) {dest : Addr}
    (hsize : size.toNat % flashWordSize = 0) (hS : ∀ x, Within dest size.toNat x → S x)
    (fuel : Nat) :
    ∀ k, flashWordSize * k ≤ size.toNat → Cut.Keeps (changes S) (flashWriteLoop cfg size fuel
      (BitVec.ofNat 32 (flashWordSize * k)) (at_ source (flashWordSize * k))
      (at_ dest (flashWordSize * k))) := by
  have hlt := size.isLt
  induction fuel with
  | zero => exact fun _ _ => Cut.Keeps.stop
  | succ fuel ih =>
    intro k hk
    unfold flashWriteLoop
    by_cases hmore : BitVec.ofNat 32 (flashWordSize * k) < size
    · rw [if_pos hmore]
      have hroom := room_of_lt hsize hk hmore
      refine watchdogReload_changes.bind fun _ => Cut.Keeps.bind ?_ fun _ => Cut.Keeps.ite ?_ ?_
      · refine halFlashProgram_changes fun x hx => hS x (within_sub_range ?_ ?_ hx)
        · rw [Nat.mul_succ] at hroom
          exact hroom
        · rw [Nat.mul_succ] at hroom
          omega
      · refine Cut.Keeps.state_bind fun _ => Cut.Keeps.ite ?_ ?_
        · rw [at_flashWord, at_flashWord, ofNat_flashWord]
          exact ih (k + 1) hroom
        · exact halFlashLock_changes.bind fun _ => Cut.Keeps.pure _
      · exact halFlashLock_changes.bind fun _ => Cut.Keeps.pure _
    · rw [if_neg hmore]
      exact halFlashLock_changes.bind fun _ => Cut.Keeps.ite (Cut.Keeps.pure _) (Cut.Keeps.pure _)

/-- Nothing outside the destination is written, whatever the HAL does and wherever the power
is cut. -/
theorem flashWrite_changes (cfg : BuildConfig) {size : Word} (source : Addr) {dest : Addr}
    (hS : ∀ x, Within dest size.toNat x → S x) :
    Cut.Keeps (changes S) (flashWrite cfg dest source size) := by
  unfold flashWrite
  refine Cut.Keeps.ite (Cut.Keeps.pure _) (Cut.Keeps.ite (Cut.Keeps.pure _) ?_)
  by_cases hsize : size.toNat % flashWordSize ≠ 0
  · rw [if_pos hsize]
    exact Cut.Keeps.pure _
  rw [if_neg hsize]
  refine Cut.Keeps.ite (Cut.Keeps.pure _) (Cut.Keeps.ite (Cut.Keeps.pure _) ?_)
  refine halFlashUnlock_changes.bind fun _ => Cut.Keeps.ite ?_ (Cut.Keeps.pure _)
  have h := flashWriteLoop_changes cfg source (Decidable.not_not.mp hsize) hS
    (size.toNat / flashWordSize + 1) 0 (Nat.zero_le _)
  simpa using h

/-! ## Success -/

/-- The first `n` bytes are written and the source is as it was in `m`. -/
structure CopiedTo (m : Memory) (dest source : Addr) (size n : Nat) (m' : Memory) : Prop where
  done : bytesAt m' dest n = bytesAt m source n
  source : bytesAt m' source size = bytesAt m source size

theorem CopiedTo.congr {m m1 m2 : Memory} {dest source : Addr} {size n : Nat}
    (h : CopiedTo m dest source size n m1) (hm : m2 = m1) : CopiedTo m dest source size n m2 :=
  hm ▸ h

theorem bytesAt_sub {m m' : Memory} {a b : Addr} {n k len : Nat} (hfit : k + len ≤ n)
    (h : bytesAt m a n = bytesAt m' b n) : bytesAt m (at_ a k) len = bytesAt m' (at_ b k) len := by
  apply bytesAt_congr
  intro i hi
  rw [at_at, at_at]
  exact bytesAt_inj h (k + i) (by omega)

/-- One round: after the comparison one more word is in place. -/
theorem CopiedTo.next {m m1 : Memory} {dest source : Addr} {size k : Nat} {mask : Nat → Byte}
    (hw : size ≤ 2 ^ 32) (hapart : ∀ i, i < size → ¬ Within dest size (at_ source i))
    (hroom : flashWordSize * (k + 1) ≤ size)
    (h : CopiedTo m dest source size (flashWordSize * k) m1)
    (hcmp : bytesAt (programmed m1 (at_ dest (flashWordSize * k)) (at_ source (flashWordSize * k))
        mask) (at_ dest (flashWordSize * k)) flashWordSize =
      bytesAt (programmed m1 (at_ dest (flashWordSize * k)) (at_ source (flashWordSize * k))
        mask) (at_ source (flashWordSize * k)) flashWordSize) :
    CopiedTo m dest source size (flashWordSize * (k + 1))
      (programmed m1 (at_ dest (flashWordSize * k)) (at_ source (flashWordSize * k)) mask) := by
  rw [Nat.mul_succ] at hroom ⊢
  have hsource : bytesAt (programmed m1 (at_ dest (flashWordSize * k))
      (at_ source (flashWordSize * k)) mask) source size = bytesAt m source size := by
    rw [← h.source]
    refine bytesAt_congr fun i hi => programmed_outside fun hin => ?_
    exact hapart i hi (within_sub_range hroom (by omega) hin)
  refine ⟨?_, hsource⟩
  rw [bytesAt_append, bytesAt_append, hcmp, bytesAt_sub hroom hsource]
  congr 1
  rw [← h.done]
  refine bytesAt_congr fun i hi => programmed_outside ?_
  rw [flashWordSize_eq] at *
  exact not_within_at (Or.inl hi) (by omega) (by omega)

end VerifiedDice
