import VerifiedDice.FlashWrite

/-!
# The flash of the host

`Flash_Write` of the mock port. Bits can only be cleared there too, but byte by byte and
without reading back what was written.
-/
namespace VerifiedDice

open ByteMemory

/-! ## The mock -/

section Mock

variable {w : Nat}

/-- The loop over the bytes; both pointers advance by one. -/
def hostFlashWriteLoop : Nat → Mem w → BitVec w → BitVec w → Mem w
  | 0, m, _, _ => m
  | n + 1, m, d, s =>
    hostFlashWriteLoop n (write m d [~~~(~~~m d ||| ~~~m s)]) (d + 1) (s + 1)

/-- `Flash_Write` of the host, for pointers of any width. -/
def hostFlashWrite (m : Mem w) (dest source size : BitVec w) : Word × Mem w :=
  if source = 0 ∨ dest = 0 then (-1, m)
  else if size.toNat % flashWordSize ≠ 0 then (-1, m)
  else if source + size < source ∨ dest + size < dest ∨
    size + BitVec.ofNat w flashWordSize < size then (-1, m)
  else (0, hostFlashWriteLoop size.toNat m dest source)

/-- The bytes of the source are AND-ed into the destination. -/
def masked (m : Mem w) (d s : BitVec w) (n : Nat) : Mem w := fun x =>
  if Within d n x then m x &&& m (at_ s (x - d).toNat) else m x

theorem cleared_eq_and (a b : Byte) : ~~~(~~~a ||| ~~~b) = a &&& b := by
  rw [BitVec.not_or, BitVec.not_not, BitVec.not_not]

theorem masked_outside {m : Mem w} {d s x : BitVec w} {n : Nat} (h : ¬ Within d n x) :
    masked m d s n x = m x := if_neg h

theorem masked_at {m : Mem w} {d s : BitVec w} {n i : Nat} (hi : i < n) (hn : n ≤ 2 ^ w) :
    masked m d s n (at_ d i) = m (at_ d i) &&& m (at_ s i) := by
  have hin : Within d n (at_ d i) := (within_at d (by omega)).mpr hi
  rw [masked, if_pos hin, at_sub_toNat d (by omega)]

/-- By induction on the bytes that are left, for a source that is not written to. -/
theorem hostFlashWriteLoop_eq (n : Nat) : ∀ (m : Mem w) (d s : BitVec w), n < 2 ^ w →
    (∀ i, i < n → ¬ Within d n (at_ s i)) → hostFlashWriteLoop n m d s = masked m d s n := by
  induction n with
  | zero =>
    intro m d s _ _
    funext x
    rw [masked_outside (Nat.not_lt_zero _)]
    rfl
  | succ n ih =>
    intro m d s hn hapart
    have hnext : ∀ a : BitVec w, a + 1 = at_ a 1 := fun a => by
      rw [at_]
      rfl
    have hapart' : ∀ i, i < n → ¬ Within (at_ d 1) n (at_ (at_ s 1) i) := by
      intro i hi hin
      rw [at_at] at hin
      exact hapart (1 + i) (by omega) (within_sub_range (by omega) (by omega) hin)
    rw [hostFlashWriteLoop, cleared_eq_and, hnext, hnext, ih _ _ _ (by omega) hapart']
    funext x
    by_cases hin : Within d (n + 1) x
    · obtain ⟨i, hi, rfl⟩ := exists_at_of_within hin
      have hsource : ∀ j, j < n + 1 → write m d [m d &&& m s] (at_ s j) = m (at_ s j) := by
        intro j hj
        apply write_outside
        exact fun hin => hapart j hj (Nat.lt_of_lt_of_le hin (Nat.succ_pos n))
      rw [masked_at hi (Nat.le_of_lt hn)]
      cases i with
      | zero =>
        have hfirst : ¬ Within (at_ d 1) n (at_ d 0) :=
          not_within_at (Or.inl Nat.zero_lt_one) (by omega) (by omega)
        rw [masked_outside hfirst, write_at _ _ _ Nat.zero_lt_one (by omega), at_zero, at_zero]
        rfl
      | succ i =>
        have hat : at_ d (i + 1) = at_ (at_ d 1) i := by rw [at_at, Nat.add_comm]
        have hsat : at_ s (i + 1) = at_ (at_ s 1) i := by rw [at_at, Nat.add_comm]
        have hbehind : ¬ Within d 1 (at_ d (i + 1)) := by
          rw [within_at d (by omega)]
          omega
        rw [hat, masked_at (by omega) (by omega), ← hat, ← hsat, hsource _ hi,
          write_outside hbehind]
    · have hin1 : ¬ Within (at_ d 1) n x := fun h => hin (within_sub_range (by omega) (by omega) h)
      have hin2 : ¬ Within d 1 x := fun h => hin (Nat.lt_of_lt_of_le h (Nat.succ_pos n))
      rw [masked_outside hin, masked_outside hin1, write_outside hin2]

end Mock

/-! ## The driver over a HAL without failures -/

/-- Every call succeeds and programs by AND-ing. -/
structure Reliable (w : World) : Prop where
  hal : ∀ n, w.hal n = true
  program : ∀ n, w.program n = none

section Driver

variable {cfg : BuildConfig} {dest source : Addr} {w w' w0 : World}

theorem Reliable.congr (h : Reliable w) (hhal : w'.hal = w.hal)
    (hprogram : w'.program = w.program) : Reliable w' := by
  constructor
  · intro n
    rw [hhal]
    exact h.hal n
  · intro n
    rw [hprogram]
    exact h.program n

theorem watchdogReload_reliable (h : Reliable w) :
    Cut.Sat (watchdogReload cfg) w fun _ w' => Reliable w' := by
  have hlog : Cut.Keeps logOnly (watchdogReload cfg) := watchdogReload_logOnly
  apply (hlog.sat w).mono
  intro _ w' h'
  have hrest : World.LogOnly w w' := h'
  exact h.congr (by rw [hrest.rest]) (by rw [hrest.rest])

theorem halFlashUnlock_reliable (h : Reliable w) :
    Cut.Sat halFlashUnlock w fun r w' => Reliable w' ∧ ∀ ok, r = some ok → ok = true := by
  apply step_sat
  · exact ⟨h, nofun⟩
  · refine ⟨⟨fun n => h.hal (n + 1), h.program⟩, ?_⟩
    intro ok hok
    cases hok
    exact h.hal 0

theorem halFlashLock_reliable (h : Reliable w) :
    Cut.Sat halFlashLock w fun r _ => ∀ ok, r = some ok → ok = true := by
  apply step_sat
  · exact nofun
  · intro ok hok
    cases hok
    exact h.hal 0

theorem halFlashProgram_reliable (h : Reliable w) (dst src : Addr) :
    Cut.Sat (halFlashProgram dst src) w fun r w' => ∀ ok, r = some ok →
      ok = true ∧ w' = w.afterProgram dst src allBits := by
  unfold Cut.Sat halFlashProgram
  by_cases hpower : w.power = 0
  · simp only [if_pos hpower]
    exact nofun
  · simp only [if_neg hpower, h.program 0]
    intro ok hok
    cases hok
    exact ⟨rfl, trivial⟩

/-- No bit of the source has to be set in the destination. -/
def NoBitToSet (m : Memory) (dest source : Addr) (size : Nat) : Prop :=
  ∀ i, i < size → m (at_ source i) &&& m (at_ dest i) = m (at_ source i)

/-- A flash word that is programmed then compares equal. -/
theorem programmed_eq_source {m : Memory} {dst src : Addr}
    (hapart : ∀ i, i < flashWordSize → ¬ Within dst flashWordSize (at_ src i))
    (hbits : NoBitToSet m dst src flashWordSize) :
    bytesAt (programmed m dst src allBits) dst flashWordSize =
      bytesAt (programmed m dst src allBits) src flashWordSize := by
  apply bytesAt_congr
  intro i hi
  have hsmall : i < 2 ^ 32 := Nat.lt_trans hi (by decide)
  have hin : Within dst flashWordSize (at_ dst i) := (within_at dst hsmall).mpr hi
  have hones : ∀ b : Byte, b ||| ~~~ (0xFF : Byte) = b := by decide +kernel
  rw [programmed_outside (hapart i hi), programmed, if_pos hin, at_sub_toNat dst hsmall, allBits,
    hones, BitVec.and_comm]
  exact hbits i hi

theorem flashWriteLoop_reliable (cfg : BuildConfig) {size : Word}
    (hsize : size.toNat % flashWordSize = 0)
    (hapart : ∀ i, i < size.toNat → ¬ Within dest size.toNat (at_ source i))
    (hbits : NoBitToSet w0.mem dest source size.toNat) (fuel : Nat) :
    ∀ k w, flashWordSize * k ≤ size.toNat → WordsWritten dest source size.toNat k w0 w →
      Reliable w →
      Cut.Sat (flashWriteLoop cfg size fuel (BitVec.ofNat 32 (flashWordSize * k))
          (at_ source (flashWordSize * k)) (at_ dest (flashWordSize * k))) w
        fun r _ => ∀ v, r = some v → v = 0 := by
  have hlt := size.isLt
  induction fuel with
  | zero =>
    intro k w _ _ _
    exact Cut.Sat.stop nofun
  | succ fuel ih =>
    intro k w hk hwritten hreliable
    unfold flashWriteLoop
    apply Cut.Sat.ite
    · intro hmore
      have hroom := room_of_lt hsize hk hmore
      have hsplit : flashWordSize * (k + 1) = flashWordSize * k + flashWordSize :=
        Nat.mul_succ flashWordSize k
      refine ((watchdogReload_sat cfg w).and (watchdogReload_reliable hreliable)).bind_result ?_
      intro _ w1 h1
      obtain ⟨hsame1, hreliable1⟩ := h1
      have hwritten1 := hwritten.congr hsame1
      have hapart1 : ∀ i, i < flashWordSize → ¬ Within (at_ dest (flashWordSize * k))
          flashWordSize (at_ (at_ source (flashWordSize * k)) i) := by
        intro i hi hin
        rw [at_at] at hin
        exact hapart _ (by omega) (within_sub_range (by omega) (by omega) hin)
      have hbits1 : NoBitToSet w1.mem (at_ dest (flashWordSize * k))
          (at_ source (flashWordSize * k)) flashWordSize := by
        intro i hi
        have hbehind : ¬ Within dest (flashWordSize * k) (at_ dest (flashWordSize * k + i)) := by
          rw [within_at dest (by omega)]
          omega
        have hsource := bytesAt_inj hwritten1.copied.source (flashWordSize * k + i) (by omega)
        rw [at_at, at_at, hsource, hwritten1.later _ hbehind]
        exact hbits _ (by omega)
      refine (halFlashProgram_reliable hreliable1 _ _).bind_result ?_
      intro ok w2 h2
      obtain ⟨hok, hw2⟩ := h2 ok rfl
      subst hw2
      have hcmp := programmed_eq_source hapart1 hbits1
      rw [if_pos hok]
      apply Cut.Sat.state_bind
      apply Cut.Sat.ite
      · intro _
        rw [at_flashWord, at_flashWord, ofNat_flashWord]
        have hwritten2 := hwritten1.next (Nat.le_of_lt hlt) hapart hroom (hreliable1.program 0)
          rfl hcmp
        exact ih (k + 1) _ hroom hwritten2 ⟨hreliable1.hal, fun n => hreliable1.program (n + 1)⟩
      · intro hdifferent
        exact absurd hcmp hdifferent
    · intro _
      refine (halFlashLock_reliable hreliable).bind_result ?_
      intro ok w1 h1
      rw [if_pos (h1 ok rfl)]
      apply Cut.Sat.pure
      intro v hv
      exact (Option.some.inj hv).symm

theorem flashWriteUnlocked_reliable (cfg : BuildConfig) {size : Word}
    (hsize : size.toNat % flashWordSize = 0)
    (hapart : ∀ i, i < size.toNat → ¬ Within dest size.toNat (at_ source i))
    (hbits : NoBitToSet w.mem dest source size.toNat) (hreliable : Reliable w) :
    Cut.Sat (flashWriteUnlocked cfg dest source size) w fun r _ => ∀ v, r = some v → v = 0 := by
  unfold flashWriteUnlocked
  refine ((halFlashUnlock_sat w).and (halFlashUnlock_reliable hreliable)).bind_result ?_
  intro ok w1 h1
  obtain ⟨⟨hmem, hprogram, hcalls⟩, hreliable1, hok⟩ := h1
  have hstart : WordsWritten dest source size.toNat 0 w w1 := .start hmem hprogram (hcalls ok rfl)
  have hloop := flashWriteLoop_reliable cfg hsize hapart hbits (size.toNat / flashWordSize + 1) 0
    w1 (Nat.zero_le _) hstart hreliable1
  rw [Nat.mul_zero, at_zero, at_zero] at hloop
  rw [if_pos (hok ok rfl)]
  exact hloop

end Driver

/-! ## Both ports -/

/-- The driver ends, both report success or neither does, and after a success the memories are the
same. -/
def WritesAgree (cfg : BuildConfig) (dest source : Addr) (size : Word) (w : World) : Prop :=
  ∃ r w', flashWrite cfg dest source size w = (some r, w') ∧
    ((hostFlashWrite w.mem dest source size).1 = 0 ↔ r = 0) ∧
    (r = 0 → (hostFlashWrite w.mem dest source size).2 = w'.mem)

section Agree

variable {cfg : BuildConfig} {dest source : Addr} {size : Word} {w : World}

/-- With aligned pointers the mock refuses what the driver refuses. -/
theorem hostFlashWrite_eq (m : Memory) (hsource : source.toNat % 4 = 0)
    (hdest : dest.toNat % flashWordSize = 0) [Decidable (WriteRefused dest source size)] :
    hostFlashWrite m dest source size = if WriteRefused dest source size then (-1, m)
      else (0, hostFlashWriteLoop size.toNat m dest source) := by
  have h1 := add_wraps_iff source size
  have h2 := add_wraps_iff dest size
  have h3 := add_wraps_iff size (BitVec.ofNat 32 flashWordSize)
  have hword : (BitVec.ofNat 32 flashWordSize).toNat = flashWordSize := rfl
  rw [hword] at h3
  unfold hostFlashWrite
  simp only [h1, h2, h3]
  by_cases hnull : source = 0 ∨ dest = 0
  · have h : WriteRefused dest source size := writeRefused_iff.mpr (Or.inl hnull)
    rw [if_pos hnull, if_pos h]
  rw [if_neg hnull]
  by_cases hmod : size.toNat % flashWordSize ≠ 0
  · have h : WriteRefused dest source size :=
      writeRefused_iff.mpr (Or.inr (Or.inr (Or.inl hmod)))
    rw [if_pos hmod, if_pos h]
  rw [if_neg hmod]
  by_cases hwrap : 2 ^ 32 ≤ source.toNat + size.toNat ∨ 2 ^ 32 ≤ dest.toNat + size.toNat ∨
      2 ^ 32 ≤ size.toNat + flashWordSize
  · have h : WriteRefused dest source size := writeRefused_iff.mpr (Or.inr (Or.inl hwrap))
    rw [if_pos hwrap, if_pos h]
  · have h : ¬ WriteRefused dest source size := by
      intro hrefused
      rcases writeRefused_iff.mp hrefused with h | h | h | h | h
      · exact hnull h
      · exact hwrap h
      · exact hmod h
      · exact h hsource
      · exact h hdest
    rw [if_neg hwrap, if_neg h]

/-- What a success of the driver says about the bytes there were. -/
theorem noBitToSet_of_written {w' : World} (h : WriteEnd dest source size w 0 w') :
    NoBitToSet w.mem dest source size.toNat := by
  intro i hi
  have hbyte := bytesAt_inj (h.written rfl).1 i hi
  have hclears := h.clears (at_ dest i)
  rw [hbyte] at hclears
  exact hclears

theorem masked_of_written {w' : World} (h : WriteEnd dest source size w 0 w') :
    masked w.mem dest source size.toNat = w'.mem := by
  have hsize := size.isLt
  obtain ⟨hbytes, houtside, _⟩ := h.written rfl
  funext x
  by_cases hin : Within dest size.toNat x
  · obtain ⟨i, hi, rfl⟩ := exists_at_of_within hin
    have hbits := noBitToSet_of_written h i hi
    rw [masked_at hi (Nat.le_of_lt hsize), bytesAt_inj hbytes i hi, BitVec.and_comm]
    exact hbits
  · rw [masked_outside hin, houtside x hin]

/-- Over a HAL without failures, for aligned pointers and a source that is not written to: the
mock agrees with the driver if both refuse, or if no bit has to be set. -/
theorem hostFlashWrite_agrees_iff (cfg : BuildConfig) (dest source : Addr) (size : Word) (w : World)
    (hdest : dest.toNat % flashWordSize = 0) (hsource : source.toNat % 4 = 0)
    (hapart : ∀ i, i < size.toNat → ¬ Within dest size.toNat (at_ source i))
    (hreliable : Reliable w) (hpower : 2 * (size.toNat / flashWordSize) + 2 ≤ w.power) :
    WritesAgree cfg dest source size w ↔
      WriteRefused dest source size ∨ NoBitToSet w.mem dest source size.toNat := by
  classical
  have hlt := size.isLt
  obtain ⟨r, w', hrun, _⟩ := flashWrite_runs cfg dest source size w hpower
  have hend := flashWrite_ends cfg hapart hrun
  have hagree : WritesAgree cfg dest source size w ↔
      ((hostFlashWrite w.mem dest source size).1 = 0 ↔ r = 0) ∧
        (r = 0 → (hostFlashWrite w.mem dest source size).2 = w'.mem) := by
    constructor
    · intro h
      obtain ⟨r1, w1, hrun1, hcode, hmem⟩ := h
      rw [hrun] at hrun1
      cases hrun1
      exact ⟨hcode, hmem⟩
    · intro h
      exact ⟨r, w', hrun, h⟩
  rw [hagree, hostFlashWrite_eq w.mem hsource hdest]
  by_cases hrefused : WriteRefused dest source size
  · have hminus := hend.refused.mpr hrefused
    subst hminus
    rw [if_pos hrefused]
    constructor
    · intro _
      exact Or.inl hrefused
    · intro _
      exact ⟨Iff.rfl, fun h => absurd h (by decide)⟩
  · have hsize : size.toNat % flashWordSize = 0 := by
      simp only [WriteRefused, not_or] at hrefused
      omega
    rw [if_neg hrefused, hostFlashWriteLoop_eq size.toNat w.mem dest source hlt hapart]
    constructor
    · intro h
      have hzero : r = 0 := h.1.mp rfl
      subst hzero
      exact Or.inr (noBitToSet_of_written hend)
    · intro h
      have hbits := h.resolve_left hrefused
      rw [flashWrite_eq, if_neg hrefused] at hrun
      have hzero := (flashWriteUnlocked_reliable cfg hsize hapart hbits hreliable).elim hrun r rfl
      subst hzero
      exact ⟨⟨fun _ => rfl, fun _ => rfl⟩, fun _ => masked_of_written hend⟩

/-- Writing over an erased word. -/
theorem hostFlashWrite_agrees_blank :
    WritesAgree plainBuild 0x08020000 0x20000000 32 blankDevice := by
  have hbits : NoBitToSet blankDevice.mem 0x08020000 0x20000000 32 :=
    fun _ _ => BitVec.and_self
  exact (hostFlashWrite_agrees_iff plainBuild 0x08020000 0x20000000 32 blankDevice (by decide)
    (by decide) (by decide) ⟨fun _ => rfl, fun _ => rfl⟩ (by decide)).mpr (Or.inr hbits)

/-- A flash word that was written with zeros, and a source of ones. -/
def zeroedWord : World :=
  { blankDevice with mem := fun x => if Within 0x08020000 flashWordSize x then 0 else 0xFF }

/-- The mock reports success, the driver that the word does not compare equal. -/
theorem hostFlashWrite_misses_mismatch :
    (hostFlashWrite zeroedWord.mem 0x08020000 0x20000000 32).1 = 0 ∧
    (flashWrite plainBuild 0x08020000 0x20000000 32 zeroedWord).1 = some (-4) ∧
    ¬ WritesAgree plainBuild 0x08020000 0x20000000 32 zeroedWord := by
  have hhost : (hostFlashWrite zeroedWord.mem 0x08020000 0x20000000 32).1 = 0 := by decide +kernel
  have hdriver : (flashWrite plainBuild 0x08020000 0x20000000 32 zeroedWord).1 = some (-4) := by
    decide +kernel
  refine ⟨hhost, hdriver, ?_⟩
  intro h
  obtain ⟨r, w', hrun, hcode, _⟩ := h
  rw [hrun] at hdriver
  cases hdriver
  exact absurd (hcode.mp hhost) (by decide)

end Agree

end VerifiedDice
