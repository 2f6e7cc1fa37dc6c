import VerifiedDice.Flash

/-!
# What `Flash_Write` guarantees

Every end of a call of the Arm driver: what has been copied, what is as before, which bits
may have changed, and whether the flash was locked again.
-/
namespace VerifiedDice

open ByteMemory

/-! ## Steps of the driver -/

/-- No bit goes from 0 to 1. -/
def clearsOnly : Cut.Frame World where
  rel w w' := ∀ x, w'.mem x &&& w.mem x = w'.mem x
  refl w x := BitVec.and_self
  trans h1 h2 x := by
    rw [← h2 x, BitVec.and_assoc, h1 x]

/-- The record of the calls for the first `k` words. -/
def writeCalls (dest source : Addr) (k : Nat) : List FlashCall :=
  .unlock :: (List.range k).map fun j =>
    .program (at_ dest (flashWordSize * j)) (at_ source (flashWordSize * j))

theorem writeCalls_succ (dest source : Addr) (k : Nat) :
    writeCalls dest source (k + 1) = writeCalls dest source k ++
      [.program (at_ dest (flashWordSize * k)) (at_ source (flashWordSize * k))] := by
  rw [writeCalls, writeCalls, List.range_succ, List.map_append, List.cons_append]
  exact rfl

/-- Nothing was asked of the flash. -/
structure World.SameFlash (w w' : World) : Prop where
  mem : w'.mem = w.mem
  flashCalls : w'.flashCalls = w.flashCalls
  program : w'.program = w.program

section Steps

variable {cfg : BuildConfig} {w : World}

theorem changes_none_mem {w' : World} (h : w.Changes (fun _ => False) w') : w'.mem = w.mem :=
  funext fun x => h.mem x not_false

theorem watchdogReload_sat (cfg : BuildConfig) (w : World) :
    Cut.Sat (watchdogReload cfg) w fun _ w' => w.SameFlash w' := by
  have hquiet : Cut.Keeps (changes fun _ => False) (watchdogReload cfg) := watchdogReload_changes
  have hlog : Cut.Keeps logOnly (watchdogReload cfg) := watchdogReload_logOnly
  apply ((hquiet.sat w).and (hlog.sat w)).mono
  intro _ w' h
  obtain ⟨h1, h2⟩ := h
  have hrest : World.LogOnly w w' := h2
  constructor
  · exact changes_none_mem h1
  · rw [hrest.rest]
  · rw [hrest.rest]

theorem halFlashUnlock_sat (w : World) : Cut.Sat halFlashUnlock w fun r w' =>
    w'.mem = w.mem ∧ w'.program = w.program ∧
      ∀ ok, r = some ok → w'.flashCalls = w.flashCalls ++ [.unlock] := by
  apply step_sat
  · exact ⟨rfl, rfl, nofun⟩
  · exact ⟨rfl, rfl, fun _ _ => rfl⟩

theorem halFlashLock_sat (w : World) : Cut.Sat halFlashLock w fun r w' =>
    w'.mem = w.mem ∧ ∀ ok, r = some ok → w'.flashCalls = w.flashCalls ++ [.lock] ∧
      (ok = true → w'.flashLocked = true) := by
  apply step_sat
  · exact ⟨rfl, nofun⟩
  · refine ⟨rfl, ?_⟩
    intro ok hok
    cases hok
    refine ⟨rfl, ?_⟩
    intro hlocked
    exact if_pos hlocked

theorem programmed_clears (m : Memory) (dst src : Addr) (mask : Nat → Byte) (x : Addr) :
    programmed m dst src mask x &&& m x = programmed m dst src mask x := by
  unfold programmed
  split
  · rw [BitVec.and_comm, ← BitVec.and_assoc, BitVec.and_self]
  · exact BitVec.and_self

theorem halFlashProgram_clears (dst src : Addr) :
    Cut.Keeps clearsOnly (halFlashProgram dst src) := by
  intro w
  obtain ⟨mask, hw, _⟩ := halFlashProgram_sat dst src w
  rw [hw]
  exact programmed_clears w.mem dst src mask

theorem clears_of_mem {α : Type} {x : Cut World α}
    (h : Cut.Keeps (changes fun _ => False) x) : Cut.Keeps clearsOnly x := by
  apply h.mono
  intro w w' hchanges y
  have hmem : w'.mem = w.mem := changes_none_mem hchanges
  rw [hmem, BitVec.and_self]

theorem flashWriteLoop_clears (cfg : BuildConfig) (size : Word) (fuel : Nat) :
    ∀ i src dst, Cut.Keeps clearsOnly (flashWriteLoop cfg size fuel i src dst) := by
  have hlock : Cut.Keeps clearsOnly halFlashLock := clears_of_mem halFlashLock_changes
  induction fuel with
  | zero => exact fun _ _ _ => Cut.Keeps.stop
  | succ fuel ih =>
    intro i src dst
    unfold flashWriteLoop
    apply Cut.Keeps.ite
    · apply (clears_of_mem watchdogReload_changes).bind
      intro _
      apply (halFlashProgram_clears dst src).bind
      intro _
      apply Cut.Keeps.ite
      · apply Cut.Keeps.state_bind
        intro _
        exact Cut.Keeps.ite (ih _ _ _) (hlock.bind fun _ => Cut.Keeps.pure _)
      · exact hlock.bind fun _ => Cut.Keeps.pure _
    · exact hlock.bind fun _ => Cut.Keeps.ite (Cut.Keeps.pure _) (Cut.Keeps.pure _)

/-- However a call ends, also by a power cut, bits have only been cleared. -/
theorem flashWrite_clears (cfg : BuildConfig) (dest source : Addr) (size : Word) :
    Cut.Keeps clearsOnly (flashWrite cfg dest source size) := by
  unfold flashWrite
  iterate 5
    apply Cut.Keeps.ite
    · exact Cut.Keeps.pure _
  apply (clears_of_mem halFlashUnlock_changes).bind
  intro _
  exact Cut.Keeps.ite (flashWriteLoop_clears cfg size _ _ _ _) (Cut.Keeps.pure _)

end Steps

/-! ## Termination -/

section Ends

variable {cfg : BuildConfig}

theorem watchdogReload_runs (cfg : BuildConfig) : Runs 1 (watchdogReload cfg) := by
  apply Runs.ite
  · intro w hw
    refine ⟨_, _, Cut.bind_some (step_run hw), ?_⟩
    show w.power ≤ w.power - 1 + 1
    omega
  · exact (Runs.pure ()).mono (Nat.zero_le 1)

theorem halFlashUnlock_runs : Runs 1 halFlashUnlock := Runs.step fun _ => rfl

theorem halFlashLock_runs : Runs 1 halFlashLock := Runs.step fun _ => rfl

theorem halFlashProgram_runs (dst src : Addr) : Runs 1 (halFlashProgram dst src) := by
  intro w hw
  have hpower : ¬ w.power = 0 := by omega
  unfold halFlashProgram
  rw [if_neg hpower]
  cases w.program 0 with
  | none =>
    refine ⟨true, _, rfl, ?_⟩
    show w.power ≤ w.power - 1 + 1
    omega
  | some mask =>
    refine ⟨false, _, rfl, ?_⟩
    show w.power ≤ w.power - 1 + 1
    omega

/-- With `j` words to go. -/
theorem flashWriteLoop_runs (cfg : BuildConfig) (size : Word) (j : Nat) : ∀ k fuel src dst,
    flashWordSize * (k + j) = size.toNat → j < fuel →
    Runs (2 * j + 1)
      (flashWriteLoop cfg size fuel (BitVec.ofNat 32 (flashWordSize * k)) src dst) := by
  have hlt := size.isLt
  induction j with
  | zero =>
    intro k fuel src dst hk hfuel
    obtain ⟨fuel, rfl⟩ := Nat.exists_eq_add_of_lt hfuel
    have hdone : ¬ BitVec.ofNat 32 (flashWordSize * k) < size := by
      rw [Nat.add_zero] at hk
      rw [BitVec.lt_def, BitVec.toNat_ofNat, Nat.mod_eq_of_lt (by omega), hk]
      exact Nat.lt_irrefl _
    rw [Nat.zero_add, flashWriteLoop, if_neg hdone]
    exact halFlashLock_runs.bind fun _ => Runs.ite (Runs.pure _) (Runs.pure _)
  | succ j ih =>
    intro k fuel src dst hk hfuel
    obtain ⟨fuel, rfl⟩ : ∃ n, fuel = n + 1 := ⟨fuel - 1, by omega⟩
    have hlock : ∀ v : Word, Runs (2 * j + 1) (halFlashLock >>= fun _ => pure v) := by
      intro v
      exact (halFlashLock_runs.bind fun _ => Runs.pure v).mono (by omega)
    have hcount : 2 * (j + 1) + 1 = 1 + (1 + (2 * j + 1)) := by omega
    rw [hcount]
    unfold flashWriteLoop
    apply Runs.ite
    · apply (watchdogReload_runs cfg).bind
      intro _
      apply (halFlashProgram_runs dst src).bind
      intro ok
      apply Runs.ite
      · apply Runs.state_bind
        intro _
        rw [ofNat_flashWord]
        exact Runs.ite (ih (k + 1) fuel _ _ (by rw [← hk, Nat.add_assoc, Nat.add_comm 1 j])
          (by omega)) (hlock _)
      · exact hlock _
    · exact (halFlashLock_runs.bind fun _ => Runs.ite (Runs.pure _) (Runs.pure _)).mono (by omega)

/-- A call ends: it takes two steps for each flash word, and two more. -/
theorem flashWrite_runs (cfg : BuildConfig) (dest source : Addr) (size : Word) :
    Runs (2 * (size.toNat / flashWordSize) + 2) (flashWrite cfg dest source size) := by
  have hreject : Runs (2 * (size.toNat / flashWordSize) + 2) (pure (-1) : Cut World Word) :=
    (Runs.pure _).mono (Nat.zero_le _)
  unfold flashWrite
  apply Runs.ite hreject
  apply Runs.ite hreject
  by_cases hsize : size.toNat % flashWordSize ≠ 0
  · rw [if_pos hsize]
    exact hreject
  rw [if_neg hsize]
  apply Runs.ite hreject
  apply Runs.ite hreject
  have hloop := flashWriteLoop_runs cfg size (size.toNat / flashWordSize) 0
    (size.toNat / flashWordSize + 1) source dest
    (by rw [Nat.zero_add,
      Nat.mul_div_cancel' (Nat.dvd_of_mod_eq_zero (Decidable.not_not.mp hsize))])
    (Nat.lt_succ_self _)
  rw [Nat.add_comm (2 * _) 2]
  apply (halFlashUnlock_runs.bind fun _ => Runs.ite hloop ((Runs.pure _).mono (Nat.zero_le _))).mono
  omega

end Ends

/-! ## Every result -/

/-- The state when `k` words are written and compared. -/
structure WordsWritten (dest source : Addr) (size k : Nat) (w0 w : World) : Prop where
  copied : CopiedTo w0.mem dest source size (flashWordSize * k) w.mem
  later : ∀ x, ¬ Within dest (flashWordSize * k) x → w.mem x = w0.mem x
  calls : w.flashCalls = w0.flashCalls ++ writeCalls dest source k
  succeeded : ∀ j, j < k → w0.program j = none
  outcomes : ∀ n, w.program n = w0.program (k + n)

/-- The words before one are equal to the source, those after it are as before. -/
def StoppedAt (dest source : Addr) (size k : Nat) (m m' : Memory) : Prop :=
  flashWordSize * k ≤ size ∧
    bytesAt m' dest (flashWordSize * k) = bytesAt m source (flashWordSize * k) ∧
    ∀ x, ¬ Within dest (flashWordSize * (k + 1)) x → m' x = m x

/-- Which call or comparison a code reports, and at which word. -/
inductive FailsAt (dest source : Addr) (size : Nat) (w w' : World) : Word → Nat → Prop where
  | unlock (hmem : w'.mem = w.mem) (hcalls : w'.flashCalls = w.flashCalls ++ [.unlock]) :
      FailsAt dest source size w w' (-2) 0
  | program {k : Nat} (hword : flashWordSize * (k + 1) ≤ size)
      (hcalls : w'.flashCalls = w.flashCalls ++ writeCalls dest source (k + 1) ++ [.lock])
      (hbefore : ∀ j, j < k → w.program j = none) (hfailed : w.program k ≠ none) :
      FailsAt dest source size w w' (-3) k
  | compare {k : Nat} (hword : flashWordSize * (k + 1) ≤ size)
      (hcalls : w'.flashCalls = w.flashCalls ++ writeCalls dest source (k + 1) ++ [.lock])
      (hprogrammed : ∀ j, j ≤ k → w.program j = none)
      (hdifferent : bytesAt w'.mem (at_ dest (flashWordSize * k)) flashWordSize ≠
        bytesAt w'.mem (at_ source (flashWordSize * k)) flashWordSize) :
      FailsAt dest source size w w' (-4) k
  | lock {k : Nat} (hall : flashWordSize * k = size)
      (hcalls : w'.flashCalls = w.flashCalls ++ writeCalls dest source k ++ [.lock])
      (hcopied : CopiedTo w.mem dest source size size w'.mem) :
      FailsAt dest source size w w' (-5) k

/-- The results of the loop and of the final lock. -/
inductive LoopResult (dest source : Addr) (size : Nat) (w0 w' : World) : Word → Prop where
  | written (hcopied : CopiedTo w0.mem dest source size size w'.mem)
      (hlocked : w'.flashLocked = true) : LoopResult dest source size w0 w' 0
  | stopped {r : Word} {k : Nat} (hstopped : StoppedAt dest source size k w0.mem w'.mem)
      (hfails : FailsAt dest source size w0 w' r k) : LoopResult dest source size w0 w' r

section Results

variable {cfg : BuildConfig} {dest source : Addr} {size k : Nat} {w0 w w' : World}

theorem WordsWritten.congr (h : WordsWritten dest source size k w0 w) (hw : w.SameFlash w') :
    WordsWritten dest source size k w0 w' where
  copied := h.copied.congr hw.mem
  later x hx := by
    rw [hw.mem]
    exact h.later x hx
  calls := hw.flashCalls.trans h.calls
  succeeded := h.succeeded
  outcomes n := by
    rw [hw.program]
    exact h.outcomes n

/-- The word in the middle is the only one that may have changed. -/
theorem WordsWritten.stopped (hroom : flashWordSize * k ≤ size)
    (h : WordsWritten dest source size k w0 w) {mask : Nat → Byte} {src : Addr} (hw : size ≤ 2 ^ 32)
    (hnext : flashWordSize * (k + 1) ≤ size) {m' : Memory}
    (hm : m' = programmed w.mem (at_ dest (flashWordSize * k)) src mask) :
    StoppedAt dest source size k w0.mem m' := by
  have hsplit : flashWordSize * (k + 1) = flashWordSize * k + flashWordSize :=
    Nat.mul_succ flashWordSize k
  refine ⟨hroom, ?_, ?_⟩
  · rw [← h.copied.done, hm]
    apply bytesAt_congr
    intro i hi
    apply programmed_outside
    exact not_within_at (Or.inl hi) (by omega) (by omega)
  · intro x hx
    have hold : ¬ Within dest (flashWordSize * k) x :=
      fun hin => hx (Nat.lt_of_lt_of_le hin (by omega))
    have hword : ¬ Within (at_ dest (flashWordSize * k)) flashWordSize x :=
      fun hin => hx (within_sub_range (by omega) (by omega) hin)
    rw [hm, programmed_outside hword]
    exact h.later x hold

/-- The call for the next word is on record. -/
theorem WordsWritten.calls_program (h : WordsWritten dest source size k w0 w)
    {mask : Nat → Byte} {w1 : World}
    (hw1 : w1 = w.afterProgram (at_ dest (flashWordSize * k)) (at_ source (flashWordSize * k))
      mask) :
    w1.flashCalls = w0.flashCalls ++ writeCalls dest source (k + 1) := by
  rw [hw1, writeCalls_succ, ← List.append_assoc, ← h.calls]
  exact rfl

theorem WordsWritten.start (hmem : w'.mem = w.mem) (hprogram : w'.program = w.program)
    (hcalls : w'.flashCalls = w.flashCalls ++ [.unlock]) :
    WordsWritten dest source size 0 w w' where
  copied := by
    rw [hmem]
    exact ⟨rfl, rfl⟩
  later x _ := by rw [hmem]
  calls := hcalls
  succeeded _ h := absurd h (Nat.not_lt_zero _)
  outcomes n := by rw [hprogram, Nat.zero_add]

/-- A word that compares equal is one more. -/
theorem WordsWritten.next (h : WordsWritten dest source size k w0 w) (hw : size ≤ 2 ^ 32)
    (hapart : ∀ i, i < size → ¬ Within dest size (at_ source i))
    (hroom : flashWordSize * (k + 1) ≤ size) (hok : w.program 0 = none) {w1 : World}
    (hw1 : w1 = w.afterProgram (at_ dest (flashWordSize * k)) (at_ source (flashWordSize * k))
      allBits)
    (hcmp : bytesAt w1.mem (at_ dest (flashWordSize * k)) flashWordSize =
      bytesAt w1.mem (at_ source (flashWordSize * k)) flashWordSize) :
    WordsWritten dest source size (k + 1) w0 w1 := by
  have hcalls := h.calls_program hw1
  subst hw1
  have hk : flashWordSize * k ≤ size := by
    rw [Nat.mul_succ] at hroom
    exact Nat.le_of_add_right_le hroom
  refine ⟨h.copied.next hw hapart hroom hcmp, (h.stopped hk hw hroom rfl).2.2, hcalls, ?_, ?_⟩
  · intro j hj
    rcases Nat.lt_succ_iff_lt_or_eq.mp hj with hlt | rfl
    · exact h.succeeded j hlt
    · exact (h.outcomes 0).symm.trans hok
  · intro n
    rw [Nat.add_assoc, Nat.add_comm 1 n]
    exact h.outcomes (n + 1)

/-- The lock that follows a failure. -/
theorem failed_lock_sat {v : Word} {calls : List FlashCall}
    (hcalls : w.flashCalls = w0.flashCalls ++ calls)
    (hresult : ∀ w', w'.mem = w.mem → w'.flashCalls = w0.flashCalls ++ calls ++ [.lock] →
      LoopResult dest source size w0 w' v) :
    Cut.Sat (halFlashLock >>= fun _ => pure v) w fun r w' =>
      ∀ v, r = some v → LoopResult dest source size w0 w' v := by
  refine (halFlashLock_sat w).bind_result ?_
  intro ok w' h
  obtain ⟨hmem, hdone⟩ := h
  obtain ⟨hlock, _⟩ := hdone ok rfl
  apply Cut.Sat.pure
  intro v' hv
  cases hv
  exact hresult w' hmem (by rw [hlock, hcalls])

/-- By induction on the fuel: a loop that has written `k` words ends with one of its results. -/
theorem flashWriteLoop_results (cfg : BuildConfig) {size : Word} {w0 : World}
    (hsize : size.toNat % flashWordSize = 0)
    (hapart : ∀ i, i < size.toNat → ¬ Within dest size.toNat (at_ source i)) (fuel : Nat) :
    ∀ k w, flashWordSize * k ≤ size.toNat → WordsWritten dest source size.toNat k w0 w →
      Cut.Sat (flashWriteLoop cfg size fuel (BitVec.ofNat 32 (flashWordSize * k))
          (at_ source (flashWordSize * k)) (at_ dest (flashWordSize * k))) w
        fun r w' => ∀ v, r = some v → LoopResult dest source size.toNat w0 w' v := by
  have hlt := size.isLt
  induction fuel with
  | zero =>
    intro k w _ _
    exact Cut.Sat.stop nofun
  | succ fuel ih =>
    intro k w hk hwritten
    unfold flashWriteLoop
    apply Cut.Sat.ite
    · intro hmore
      have hroom := room_of_lt hsize hk hmore
      refine (watchdogReload_sat cfg w).bind_result ?_
      intro _ w1 h1
      have hwritten1 := hwritten.congr h1
      refine (halFlashProgram_sat (at_ dest (flashWordSize * k))
        (at_ source (flashWordSize * k)) w1).bind_result ?_
      intro ok w2 h2
      obtain ⟨mask, hw2, hprogrammed, hfailed⟩ := h2
      have hcalls := hwritten1.calls_program hw2
      have hmem2 : w2.mem = programmed w1.mem (at_ dest (flashWordSize * k))
          (at_ source (flashWordSize * k)) mask := congrArg World.mem hw2
      have hstopped : ∀ w' : World, w'.mem = w2.mem →
          StoppedAt dest source size.toNat k w0.mem w'.mem := fun _ hmem =>
        hwritten1.stopped hk (Nat.le_of_lt hlt) hroom (hmem.trans hmem2)
      cases ok with
      | false =>
        have hnext : w0.program k = some mask := (hwritten1.outcomes 0).symm.trans (hfailed rfl)
        rw [if_neg Bool.false_ne_true]
        apply failed_lock_sat hcalls
        intro w' hmem hlock
        refine .stopped (hstopped w' hmem) (.program hroom hlock hwritten1.succeeded ?_)
        rw [hnext]
        exact Option.some_ne_none mask
      | true =>
        obtain ⟨rfl, hnext⟩ := hprogrammed rfl
        rw [if_pos rfl]
        apply Cut.Sat.state_bind
        apply Cut.Sat.ite
        · intro hcmp
          rw [at_flashWord, at_flashWord, ofNat_flashWord]
          exact ih (k + 1) _ hroom
            (hwritten1.next (Nat.le_of_lt hlt) hapart hroom hnext hw2 hcmp)
        · intro hdifferent
          apply failed_lock_sat hcalls
          intro w' hmem hlock
          refine .stopped (hstopped w' hmem) (.compare hroom hlock ?_ ?_)
          · intro j hj
            rcases Nat.lt_or_eq_of_le hj with hlt | rfl
            · exact hwritten1.succeeded j hlt
            · exact (hwritten1.outcomes 0).symm.trans hnext
          · rw [hmem]
            exact hdifferent
    · intro hmore
      have hend : flashWordSize * k = size.toNat := by
        rw [BitVec.lt_def, BitVec.toNat_ofNat, Nat.mod_eq_of_lt (by omega)] at hmore
        omega
      refine (halFlashLock_sat w).bind_result ?_
      intro ok w' h
      obtain ⟨hmem, hdone⟩ := h
      obtain ⟨hlock, hlocked⟩ := hdone ok rfl
      have hcopied := hwritten.copied.congr hmem
      have hcalls : w'.flashCalls = w0.flashCalls ++ writeCalls dest source k ++ [.lock] := by
        rw [hlock, hwritten.calls]
      have hstopped : StoppedAt dest source size.toNat k w0.mem w'.mem := by
        refine ⟨hk, hcopied.done, ?_⟩
        intro x hx
        rw [hmem]
        apply hwritten.later x
        rw [Nat.mul_succ] at hx
        exact fun hin => hx (Nat.lt_of_lt_of_le hin (Nat.le_add_right _ _))
      rw [hend] at hcopied
      cases ok with
      | true =>
        apply Cut.Sat.pure
        intro v hv
        cases hv
        exact .written hcopied (hlocked rfl)
      | false =>
        apply Cut.Sat.pure
        intro v hv
        cases hv
        exact .stopped hstopped (.lock hend hcalls hcopied)

end Results

/-! ## The checks on the arguments -/

/-- Null, misaligned or wrapping arguments, and sizes that are no whole number of flash words. -/
def WriteRefused (dest source : Addr) (size : Word) : Prop :=
  source = 0 ∨ dest = 0 ∨ 2 ^ 32 ≤ source.toNat + size.toNat ∨ 2 ^ 32 ≤ dest.toNat + size.toNat ∨
    2 ^ 32 ≤ size.toNat + flashWordSize ∨ size.toNat % flashWordSize ≠ 0 ∨ source.toNat % 4 ≠ 0 ∨
    dest.toNat % flashWordSize ≠ 0

/-- The rest of `Flash_Write`. -/
def flashWriteUnlocked (cfg : BuildConfig) (dest source : Addr) (size : Word) : Cut World Word := do
  let ok ← halFlashUnlock
  if ok then flashWriteLoop cfg size (size.toNat / flashWordSize + 1) 0 source dest
  else pure (-2)

section Arguments

variable {dest source : Addr} {size : Word}

theorem add_wraps_iff (a b : Word) : a + b < a ↔ 2 ^ 32 ≤ a.toNat + b.toNat := by bv_omega

/-- The three groups of tests, by what they ask of the arguments. -/
theorem writeRefused_iff : WriteRefused dest source size ↔
    (source = 0 ∨ dest = 0) ∨
    (2 ^ 32 ≤ source.toNat + size.toNat ∨ 2 ^ 32 ≤ dest.toNat + size.toNat ∨
      2 ^ 32 ≤ size.toNat + flashWordSize) ∨
    (size.toNat % flashWordSize ≠ 0 ∨ source.toNat % 4 ≠ 0 ∨ dest.toNat % flashWordSize ≠ 0) := by
  simp only [WriteRefused, or_assoc]

theorem flashWrite_eq (cfg : BuildConfig) (dest source : Addr) (size : Word)
    [Decidable (WriteRefused dest source size)] : flashWrite cfg dest source size =
      if WriteRefused dest source size then pure (-1)
      else flashWriteUnlocked cfg dest source size := by
  have hsource := add_wraps_iff source size
  have hdest := add_wraps_iff dest size
  have hsize := add_wraps_iff size flashWord
  have hword : flashWord.toNat = flashWordSize := rfl
  rw [hword] at hsize
  unfold flashWrite
  simp only [hsource, hdest, hsize]
  by_cases hnull : source = 0 ∨ dest = 0
  · have h : WriteRefused dest source size := writeRefused_iff.mpr (Or.inl hnull)
    rw [if_pos hnull, if_pos h]
  rw [if_neg hnull]
  by_cases hwrap : 2 ^ 32 ≤ source.toNat + size.toNat ∨ 2 ^ 32 ≤ dest.toNat + size.toNat ∨
      2 ^ 32 ≤ size.toNat + flashWordSize
  · have h : WriteRefused dest source size := writeRefused_iff.mpr (Or.inr (Or.inl hwrap))
    rw [if_pos hwrap, if_pos h]
  rw [if_neg hwrap]
  by_cases halign : size.toNat % flashWordSize ≠ 0 ∨ source.toNat % 4 ≠ 0 ∨
      dest.toNat % flashWordSize ≠ 0
  · have h : WriteRefused dest source size := writeRefused_iff.mpr (Or.inr (Or.inr halign))
    rw [if_pos h]
    rcases halign with hmod | hmod | hmod
    · rw [if_pos hmod]
    · rw [if_pos hmod, ite_self]
    · rw [if_pos hmod, ite_self, ite_self]
  · have h : ¬ WriteRefused dest source size := by
      intro hrefused
      rcases writeRefused_iff.mp hrefused with h | h | h
      · exact hnull h
      · exact hwrap h
      · exact halign h
    simp only [not_or] at halign
    obtain ⟨h1, h2, h3⟩ := halign
    rw [if_neg h, if_neg h1, if_neg h2, if_neg h3]
    rfl

end Arguments

/-- What a call that returns `r` has done. -/
structure WriteEnd (dest source : Addr) (size : Word) (w : World) (r : Word) (w' : World) :
    Prop where
  refused : r = -1 ↔ WriteRefused dest source size
  unchanged : r = -1 → w' = w
  written : r = 0 → bytesAt w'.mem dest size.toNat = bytesAt w.mem source size.toNat ∧
    (∀ x, ¬ Within dest size.toNat x → w'.mem x = w.mem x) ∧ w'.flashLocked = true
  stopped : r ≠ 0 → r ≠ -1 → (∀ x, ¬ Within dest size.toNat x → w'.mem x = w.mem x) ∧
    ∃ k, StoppedAt dest source size.toNat k w.mem w'.mem ∧ FailsAt dest source size.toNat w w' r k
  clears : ∀ x, w'.mem x &&& w.mem x = w'.mem x
  locked : r = -3 ∨ r = -4 → ∃ calls, w'.flashCalls = w.flashCalls ++ calls ++ [.lock]

section Write

variable {dest source : Addr} {size : Word} {w w' : World} {r : Word}

theorem FailsAt.code {k : Nat} (h : FailsAt dest source size.toNat w w' r k) :
    r ≠ 0 ∧ r ≠ -1 := by
  cases h with
  | unlock => decide
  | program => decide
  | compare => decide
  | lock => decide

theorem FailsAt.locked {k : Nat} (h : FailsAt dest source size.toNat w w' r k)
    (hcode : r = -3 ∨ r = -4) : ∃ calls, w'.flashCalls = w.flashCalls ++ calls ++ [.lock] := by
  cases h with
  | unlock => exact absurd hcode (by decide)
  | program _ hcalls => exact ⟨_, hcalls⟩
  | compare _ hcalls => exact ⟨_, hcalls⟩
  | lock => exact absurd hcode (by decide)

theorem LoopResult.writeEnd (h : LoopResult dest source size.toNat w w' r)
    (haccepted : ¬ WriteRefused dest source size)
    (houtside : ∀ x, ¬ Within dest size.toNat x → w'.mem x = w.mem x)
    (hclears : ∀ x, w'.mem x &&& w.mem x = w'.mem x) : WriteEnd dest source size w r w' := by
  cases h with
  | written hcopied hlocked =>
    exact ⟨⟨nofun, fun h => absurd h haccepted⟩, nofun,
      fun _ => ⟨hcopied.done, houtside, hlocked⟩, fun h => absurd rfl h, hclears, nofun⟩
  | stopped hstopped hfails =>
    obtain ⟨hzero, hminus⟩ := hfails.code
    exact ⟨⟨fun h => absurd h hminus, fun h => absurd h haccepted⟩, fun h => absurd h hminus,
      fun h => absurd h hzero, fun _ _ => ⟨houtside, _, hstopped, hfails⟩, hclears, hfails.locked⟩

theorem flashWriteUnlocked_results (cfg : BuildConfig)
    (hsize : size.toNat % flashWordSize = 0)
    (hapart : ∀ i, i < size.toNat → ¬ Within dest size.toNat (at_ source i)) (w : World) :
    Cut.Sat (flashWriteUnlocked cfg dest source size) w fun r w' => ∀ v, r = some v →
      LoopResult dest source size.toNat w w' v := by
  unfold flashWriteUnlocked
  refine (halFlashUnlock_sat w).bind_result ?_
  intro ok w1 h
  obtain ⟨hmem, hprogram, hdone⟩ := h
  have hcalls := hdone ok rfl
  apply Cut.Sat.ite
  · intro _
    have hstart : WordsWritten dest source size.toNat 0 w w1 := .start hmem hprogram hcalls
    have hloop := flashWriteLoop_results cfg hsize hapart (size.toNat / flashWordSize + 1) 0 w1
      (Nat.zero_le _) hstart
    rwa [Nat.mul_zero, at_zero, at_zero] at hloop
  · intro _
    have hstopped : StoppedAt dest source size.toNat 0 w.mem w1.mem := by
      refine ⟨Nat.zero_le _, rfl, ?_⟩
      intro x _
      rw [hmem]
    apply Cut.Sat.pure
    intro v hv
    cases hv
    exact .stopped hstopped (.unlock hmem hcalls)

theorem flashWrite_ends (cfg : BuildConfig)
    (hapart : ∀ i, i < size.toNat → ¬ Within dest size.toNat (at_ source i))
    (hrun : flashWrite cfg dest source size w = (some r, w')) :
    WriteEnd dest source size w r w' := by
  classical
  have hkeeps : Cut.Keeps (changes (Within dest size.toNat)) (flashWrite cfg dest source size) :=
    flashWrite_changes cfg source fun _ h => h
  have houtside := (hkeeps.sat w).elim hrun
  have hclears := ((flashWrite_clears cfg dest source size).sat w).elim hrun
  rw [flashWrite_eq] at hrun
  by_cases hrefused : WriteRefused dest source size
  · rw [if_pos hrefused] at hrun
    cases hrun
    exact ⟨⟨fun _ => hrefused, fun _ => rfl⟩, fun _ => rfl, nofun, fun _ h => absurd rfl h,
      fun x => BitVec.and_self, nofun⟩
  · rw [if_neg hrefused] at hrun
    have hsize : size.toNat % flashWordSize = 0 := by
      simp only [WriteRefused, not_or] at hrefused
      omega
    have hresult := (flashWriteUnlocked_results cfg hsize hapart w).elim hrun r rfl
    exact hresult.writeEnd hrefused houtside.mem hclears

/-- A call that returns 0 has written the whole source. -/
theorem flashWrite_done (cfg : BuildConfig)
    (hapart : ∀ i, i < size.toNat → ¬ Within dest size.toNat (at_ source i)) (w : World) :
    Cut.Sat (flashWrite cfg dest source size) w fun r w' => r = some 0 →
      bytesAt w'.mem dest size.toNat = bytesAt w.mem source size.toNat := by
  rcases hrun : flashWrite cfg dest source size w with ⟨r, w'⟩
  apply Cut.Sat.of_eq hrun
  intro hzero
  subst hzero
  exact ((flashWrite_ends cfg hapart hrun).written rfl).1

/-- Every call comes to an end, and every end is as the driver promises: from any flash, whatever
the HAL answers, for a source that the write does not change. -/
theorem flashWrite_verified (cfg : BuildConfig) (dest source : Addr) (size : Word)
    (hapart : ∀ i, i < size.toNat → ¬ Within dest size.toNat (at_ source i)) :
    Runs (2 * (size.toNat / flashWordSize) + 2) (flashWrite cfg dest source size) ∧
    ∀ w r w', flashWrite cfg dest source size w = (some r, w') →
      WriteEnd dest source size w r w' := by
  refine ⟨flashWrite_runs cfg dest source size, ?_⟩
  intro w r w' hrun
  exact flashWrite_ends cfg hapart hrun

/-- One erased word, from a HAL without failures: the call returns 0. -/
theorem flashWrite_verified_word :
    (flashWrite plainBuild 0x08020000 0x20000000 32 blankDevice).1 = some 0 ∧
    Runs (2 * (32 / flashWordSize) + 2) (flashWrite plainBuild 0x08020000 0x20000000 32) ∧
    ∀ w r w', flashWrite plainBuild 0x08020000 0x20000000 32 w = (some r, w') →
      WriteEnd 0x08020000 0x20000000 32 w r w' := by
  constructor
  · decide +kernel
  · exact flashWrite_verified plainBuild 0x08020000 0x20000000 32 (by decide)

end Write

end VerifiedDice
