import VerifiedDice.FlashWrite
import VerifiedDice.L0Main
import VerifiedDice.Secret

/-!
# What L0 measures

The length that `RunL0` hands to the L0 engine is the word of the L1 header, as it stands in flash.
When the range that is hashed stays inside the area of L1.
-/
namespace VerifiedDice

open ByteMemory Launch

/-! ## Up to the hash -/

/-- What `L0HandleArgs` does before it calls `L0Core`. -/
def l0Forward (cfg : BuildConfig) (l0Params l1Params : Addr) : Cut World Unit := do
  let w ← Cut.state
  store (at_ l1Params L1Params.versionDICE)
    (bytesOfWord (loadWord w.mem (at_ l0Params L0Params.versionDICE)))
  store (at_ l1Params L1Params.versionL0) (bytesOfWord cfg.versionL0Full)
  let w ← Cut.state
  store (at_ l1Params L1Params.hwMeasurement)
    (bytesAt w.mem (at_ l0Params L0Params.hwMeasurement) hwMeasurementLen)

/-- What `L0_main` does before `L0Core`, and the range that `L0Core` is called with. -/
def l0Before (cfg : BuildConfig) : Cut World ByteRange := do
  watchdogReload cfg
  hwLogInfoStr cfg (l0Banner cfg)
  watchdogReload cfg
  cleanSharedL0L1
  let w ← Cut.state
  l0Forward cfg getSharedDiceL0 getSharedL0L1
  pure (measuredL1 w.mem)

section Before

variable {cfg : BuildConfig} {C : Crypto} {E : L0Engine} {w : World}

theorem l0HandleArgs_eq (l1Base : Addr) (l1Size : Word) (l0Params l1Params : Addr) :
    l0HandleArgs cfg C E l1Base l1Size l0Params l1Params =
      l0Forward cfg l0Params l1Params >>= fun _ =>
        l0Core cfg C E l1Base l1Size l0Params l1Params := by
  unfold l0HandleArgs l0Forward
  simp only [Cut.bind_assoc]

/-- `L0Core` hashes the range it is called with, and the rest of `L0_main` cannot fail. -/
theorem l0Main_eq : l0Main cfg C E = l0Before cfg >>= fun l1 =>
    l0Core cfg C E l1.start l1.size getSharedDiceL0 getSharedL0L1 >>= fun _ =>
      cleanSharedDiceL0 >>= fun _ => pure 0 := by
  unfold l0Main runL0 l0Before
  simp only [Cut.bind_assoc, Cut.pure_bind, l0HandleArgs_eq]

theorem l0Core_hash (cfg : BuildConfig) (E : L0Engine) {C' : Crypto} {l1Base : Addr}
    {l1Size : Word} (l0Params l1Params : Addr)
    (h : C'.sha256 (bytesAt w.mem l1Base l1Size.toNat) =
      C.sha256 (bytesAt w.mem l1Base l1Size.toNat)) :
    l0Core cfg C' E l1Base l1Size l0Params l1Params w =
      l0Core cfg C E l1Base l1Size l0Params l1Params w := by
  unfold l0Core
  by_cases hnull : l1Base = 0 ∨ l0Params = 0 ∨ l1Params = 0
  · rw [if_pos hnull, if_pos hnull]
  · rw [if_neg hnull, if_neg hnull, Cut.state_bind, Cut.state_bind, h]

/-- Nothing but the bytes of that range is hashed: `L0_main` ends the same with any other function
that has the same digest for them. -/
theorem l0Main_hash {C' : Crypto} (h : ∀ l1 w1, l0Before cfg w = (some l1, w1) →
    C'.sha256 (bytesAt w1.mem l1.start l1.size.toNat) =
      C.sha256 (bytesAt w1.mem l1.start l1.size.toNat)) :
    l0Main cfg C' E w = l0Main cfg C E w := by
  rw [l0Main_eq, l0Main_eq]
  rcases hbefore : l0Before cfg w with ⟨_ | l1, w1⟩
  · rw [Cut.bind_none hbefore, Cut.bind_none hbefore]
  · have hcore := l0Core_hash cfg E getSharedDiceL0 getSharedL0L1 (h l1 w1 hbefore)
    rw [Cut.bind_some hbefore, Cut.bind_some hbefore]
    rcases hrun : l0Core cfg C E l1.start l1.size getSharedDiceL0 getSharedL0L1 w1 with ⟨_ | _, w2⟩
    · rw [Cut.bind_none hrun, Cut.bind_none (hcore.trans hrun)]
    · rw [Cut.bind_some hrun, Cut.bind_some (hcore.trans hrun)]

theorem inL1Header_inFlash {x : Addr} (h : InL1Header x) : InFlash x := by
  have hstart : getL1ImageStart = at_ getFlashStart 393216 := by decide
  have hsize : imageHeaderSize = 1024 := rfl
  rw [InL1Header, hstart, hsize] at h
  exact within_sub_range (by decide) (by decide) h

theorem inL1Header_notRam {x : Addr} (h : InL1Header x) : ¬ InRam x := by
  intro hram
  rcases hram with hshared | hlogs
  · exact inL1Header_notShared h hshared
  · exact inLogs_notFlash hlogs (inL1Header_inFlash h)

/-- The header is as it was: only the shared RAM and the logs have changed. -/
theorem measuredL1_changes {w' : World} (h : w.Changes InRam w') :
    measuredL1 w'.mem = measuredL1 w.mem :=
  measuredL1_congr fun x hx => h.mem x (inL1Header_notRam hx)

theorem l0Before_range (w : World) : Cut.Sat (l0Before cfg) w fun r _ =>
    ∀ l1, r = some l1 → l1 = measuredL1 w.mem := by
  have hlogs : ∀ {u u' : World}, u.LogOnly u' → u.Changes InRam u' :=
    fun h => h.changes.mono fun _ => Or.inr
  have hclean : Cut.Keeps (changes InRam) cleanSharedL0L1 :=
    storeFill_changes fun x hx => Or.inl ((inShared_iff x).mpr (Or.inr hx))
  unfold l0Before
  refine (watchdogReload_logOnly.sat w).bind_result ?_
  intro _ w1 h1
  refine ((hwLogInfoStr_logOnly cfg (l0Banner cfg)).sat w1).bind_result ?_
  intro _ w2 h2
  refine (watchdogReload_logOnly.sat w2).bind_result ?_
  intro _ w3 h3
  refine (hclean.sat w3).bind_result ?_
  intro _ w4 h4
  have hall : w.Changes InRam w4 :=
    ((hlogs h1).trans (hlogs h2)).trans ((hlogs h3).trans h4)
  apply Cut.Sat.state_bind
  have hforward : Cut.Sat (l0Forward cfg getSharedDiceL0 getSharedL0L1) w4
      fun _ _ => True := trivial
  refine hforward.bind_result ?_
  intro _ w5 _
  apply Cut.Sat.pure
  intro l1 hl1
  cases hl1
  exact measuredL1_changes hall

theorem l0Before_runs (cfg : BuildConfig) : Runs 8 (l0Before cfg) := by
  have hlog : Runs 2 (hwLogInfoStr cfg (l0Banner cfg)) :=
    Runs.ite (hwLogStr_runs _ _) ((Runs.pure ()).mono (Nat.zero_le 2))
  have hclean : Runs 1 cleanSharedL0L1 := storeFill_runs _ _ _
  have hforward : Runs 3 (l0Forward cfg getSharedDiceL0 getSharedL0L1) := by
    apply Runs.state_bind
    intro _
    apply (store_runs _ _).bind (k := 2)
    intro _
    apply (store_runs _ _).bind (k := 1)
    intro _
    exact Runs.state_bind fun _ => store_runs _ _
  apply (watchdogReload_runs cfg).bind (k := 7)
  intro _
  apply hlog.bind (k := 5)
  intro _
  apply (watchdogReload_runs cfg).bind (k := 4)
  intro _
  apply hclean.bind (k := 3)
  intro _
  apply Runs.state_bind
  intro _
  exact hforward.bind fun _ => Runs.pure _

theorem l0Main_runs (cfg : BuildConfig) (C : Crypto) (E : L0Engine) : Runs 22 (l0Main cfg C E) := by
  have hclean : Runs 1 cleanSharedDiceL0 := storeFill_runs _ _ _
  rw [l0Main_eq]
  apply (l0Before_runs cfg).bind (k := 14)
  intro _
  apply (l0Core_runs cfg C E _ _ _ _).bind (k := 1)
  intro _
  exact hclean.bind fun _ => Runs.pure _

end Before

/-! ## The range -/

/-- Every byte of the range belongs to the area of L1. -/
def InL1Area (r : ByteRange) : Prop :=
  ∀ i, i < r.size.toNat → Within getL1ImageStart l1TotalSize (at_ r.start i)

/-- The size in the header leaves the range in the area. -/
def L1SizeFits (m : Memory) : Prop :=
  firmwareImageOffset + (loadWord m (at_ getL1ImageStart ImageHeader.fwSize)).toNat ≤ l1TotalSize

instance (m : Memory) : Decidable (L1SizeFits m) := inferInstanceAs (Decidable (_ ≤ _))

theorem inL1Area_iff (m : Memory) : InL1Area (measuredL1 m) ↔ L1SizeFits m := by
  have htotal : l1TotalSize = 524192 := rfl
  have hoffset : firmwareImageOffset = 1024 := rfl
  have hstart : (measuredL1 m).start = at_ getL1ImageStart 1024 := rfl
  have hsize : (measuredL1 m).size = loadWord m (at_ getL1ImageStart ImageHeader.fwSize) := rfl
  rw [InL1Area, L1SizeFits, hstart, hsize, htotal, hoffset]
  constructor
  · intro h
    by_contra hlong
    -- the first byte behind the area
    have hin := h 523168 (by omega)
    rw [at_at, within_at _ (by decide)] at hin
    exact absurd hin (by decide)
  · intro h i hi
    rw [at_at]
    exact (within_at _ (by omega)).mpr (by omega)

/-- L0 hashes the area of L1 at most, and it fails if the header does not describe a range there. -/
structure MeasuresL1Only (cfg : BuildConfig) (C : Crypto) (E : L0Engine) (w : World) : Prop where
  inside : ∀ l1 w', l0Before cfg w = (some l1, w') → InL1Area l1
  rejects : ¬ InL1Area (measuredL1 w.mem) → ∀ r w', l0Main cfg C E w = (some r, w') → r ≠ 0

/-- For every content of the memory, on every device that has it: nothing checks the size of the
header, so it has to fit. -/
theorem measuresL1Only_iff (cfg : BuildConfig) (C : Crypto) (E : L0Engine) (m : Memory) :
    (∀ w : World, w.mem = m → MeasuresL1Only cfg C E w) ↔ L1SizeFits m := by
  rw [← inL1Area_iff]
  constructor
  · intro h
    have hpower : 8 ≤ blankDevice.power := by decide
    obtain ⟨l1, w', hrun, _⟩ := l0Before_runs cfg { blankDevice with mem := m } hpower
    have hrange := (l0Before_range _).elim hrun l1 rfl
    have hin := (h _ rfl).inside l1 w' hrun
    rw [hrange] at hin
    exact hin
  · rintro hin w rfl
    refine ⟨?_, fun hout => absurd hin hout⟩
    intro l1 w' hrun
    rw [(l0Before_range w).elim hrun l1 rfl]
    exact hin

/-- L1 with a header that was corrupted: its size is that of the whole bank. -/
def oversizedL1 : World :=
  { blankDevice with
    mem := write (fun _ => 0xFF) (at_ getL1ImageStart ImageHeader.fwSize) [0x00, 0x00, 0x08, 0x00] }

/-- L0 hashes 1120 bytes more than the area of L1 has and returns 0. -/
theorem oversized_l1_measured :
    (∃ w', l0Before plainBuild oversizedL1 = (some ⟨0x08060400, 0x00080000⟩, w')) ∧
    (∃ w', l0Main plainBuild SlotBuild.tagSigner.toCrypto sampleEngine oversizedL1 =
      (some 0, w')) ∧
    ¬ MeasuresL1Only plainBuild SlotBuild.tagSigner.toCrypto sampleEngine oversizedL1 := by
  have hrange : measuredL1 oversizedL1.mem = ⟨0x08060400, 0x00080000⟩ := by decide +kernel
  obtain ⟨l1, w1, hbefore, _⟩ := l0Before_runs plainBuild oversizedL1 (by decide)
  obtain ⟨r, w2, hmain, _⟩ :=
    l0Main_runs plainBuild SlotBuild.tagSigner.toCrypto sampleEngine oversizedL1 (by decide)
  have hl1 := (l0Before_range oversizedL1).elim hbefore l1 rfl
  have hr := ((l0Main_cleans oversizedL1).elim hmain r rfl).1
  rw [hl1, hrange] at hbefore
  rw [hr] at hmain
  refine ⟨⟨w1, hbefore⟩, ⟨w2, hmain⟩, ?_⟩
  intro h
  have hin := h.inside _ w1 hbefore
  rw [← hrange, inL1Area_iff] at hin
  exact absurd hin (by decide +kernel)

end VerifiedDice
