import Mathlib.Logic.Relation
import VerifiedDice.FlashWrite
import VerifiedDice.Secret

/-!
# The device secret over any sequence of boots

What one call of `DeviceSecretGet`, `DeviceSecretSet` and `DeviceSecretInitialize` does to
the two copies, wherever it is cut, and from it what holds after any number of boots.
-/
namespace VerifiedDice

open ByteMemory

variable {cfg : BuildConfig} {s : SecretCopies} {locals : SecretLocals}

/-- The value of a secret that has not been set. -/
def erasedSecret : List Byte := List.replicate udsLength 0xFF

theorem isSecretValid_iff (m : Memory) (a : Addr) :
    isSecretValid m a = true ↔ bytesAt m a udsLength ≠ erasedSecret := by
  rw [isSecretValid, List.any_eq_true, ne_eq, erasedSecret, List.eq_replicate_iff]
  simp

/-! ## DeviceSecretGet -/

/-- How a call of `DeviceSecretGet` ends. -/
structure GetEnds (s : SecretCopies) (dest : Addr) (w : World) (r : Option Word) (w' : World) :
    Prop where
  quiet : w.Quiet (fun x => ¬ InLogs x ∧ ¬ Within dest udsLength x) w'
  generated : w'.generated = w.generated
  got : r = some 0 → ¬ s.Outside ∧ s.copy1 w.mem = s.copy2 w.mem ∧
    bytesAt w'.mem dest udsLength = s.copy1 w.mem ∧ w'.gets = w.gets ++ [s.copy1 w.mem]
  notGot : r ≠ some 0 → w'.gets = w.gets
  fails : ∀ v, r = some v → v ≠ 0 → s.Outside ∨ s.copy1 w.mem ≠ s.copy2 w.mem

theorem GetEnds.mem {dest : Addr} {w w' : World} {r : Option Word} (h : GetEnds s dest w r w')
    {x : Addr} (hlog : ¬ InLogs x) (hdest : ¬ Within dest udsLength x) : w'.mem x = w.mem x :=
  h.quiet.mem x ⟨hlog, hdest⟩

theorem deviceSecretGet_ends (dest : DtcmObject udsLength) (w : World) :
    Cut.Sat (deviceSecretGet cfg s dest.addr) w (GetEnds s dest.addr w) := by
  have hquiet : ∀ {w' : World}, w.LogOnly w' →
      w.Quiet (fun x => ¬ InLogs x ∧ ¬ Within dest.addr udsLength x) w' :=
    fun h => h.quiet fun _ hx => hx.1
  have hcopies : ∀ {w' : World}, w.LogOnly w' →
      s.copy1 w'.mem = s.copy1 w.mem ∧ s.copy2 w'.mem = s.copy2 w.mem := fun h =>
    ⟨SecretCopies.copy1_congr fun x hx => h.mem x fun hlog =>
        inLogs_notFlash hlog (SecretCopies.mem_inFlash (Or.inl hx)),
      SecretCopies.copy2_congr fun x hx => h.mem x fun hlog =>
        inLogs_notFlash hlog (SecretCopies.mem_inFlash (Or.inr hx))⟩
  have hfail : ∀ {w' : World} {r : Option Word}, (s.Outside ∨ s.copy1 w.mem ≠ s.copy2 w.mem) →
      r ≠ some 0 → w.LogOnly w' → GetEnds s dest.addr w r w' := fun hwhy hr h =>
    ⟨hquiet h, by rw [h.rest], fun h0 => absurd h0 hr, fun _ => by rw [h.rest], fun _ _ _ => hwhy⟩
  unfold deviceSecretGet
  refine Cut.Sat.ite (fun hout => failed_sat fun r w' hr h => hfail (Or.inl hout) hr h)
    fun hin => ?_
  refine Cut.Sat.bind ((hwLogAt_logOnly cfg .debug _ _ _).sat w) (fun _ w1 h1 => ?_)
    fun w1 h1 => ⟨hquiet h1, by rw [h1.rest], nofun, fun _ => by rw [h1.rest], nofun⟩
  obtain ⟨hcopy1, hcopy2⟩ := hcopies h1
  refine Cut.Sat.state_bind (Cut.Sat.ite (fun hne => failed_sat fun r w' hr h => ?_) fun heq => ?_)
  · rw [hcopy1, hcopy2] at hne
    exact hfail (Or.inr hne) hr (h1.trans h)
  rw [hcopy1, hcopy2, not_not] at heq
  have hstore : ∀ x, Within dest.addr (s.copy1 w1.mem).length x → Within dest.addr udsLength x := by
    intro x hx
    rwa [SecretCopies.copy1, length_bytesAt] at hx
  rcases store_cases (S := Within dest.addr udsLength) dest.addr (s.copy1 w1.mem)
    hstore w1 with ⟨w2, hrun, h2⟩ | ⟨w2, hrun, h2, hmem2, _, _⟩
  · refine Cut.Sat.of_eq (Cut.bind_none hrun) ⟨?_, ?_, nofun, fun _ => ?_, nofun⟩
    · exact (hquiet h1).trans (h2.changes.quiet fun x hx => hx.2)
    · rw [h2.rest, h1.rest]
    · rw [h2.rest, h1.rest]
  · have hread : bytesAt w2.mem dest.addr udsLength = s.copy1 w.mem := by
      have hlen : (s.copy1 w1.mem).length = udsLength := length_bytesAt ..
      have hself := bytesAt_write_self w1.mem dest.addr (s.copy1 w1.mem) (by rw [hlen]; decide)
      rw [hlen] at hself
      rw [hmem2, hself, hcopy1]
    have hquiet2 := (hquiet h1).trans (h2.changes.quiet fun x hx => hx.2)
    refine Cut.Sat.bind_some hrun ⟨⟨hquiet2.mem, hquiet2.written, hquiet2.launched⟩, ?_,
      fun _ => ⟨hin, heq, hread, ?_⟩, fun h => absurd rfl h, fun v hv hne => ?_⟩
    · show w2.generated = w.generated
      rw [h2.rest, h1.rest]
    · show w2.gets ++ [bytesAt w2.mem dest.addr udsLength] = _
      rw [hread, h2.rest, h1.rest]
    · exact absurd (Option.some.inj hv).symm hne

/-- What was read is a valid secret unless the copies are blank. -/
theorem GetEnds.valid_iff {dest : Addr} {w w' : World} (h : GetEnds s dest w (some 0) w') :
    isSecretValid w'.mem dest = true ↔ s.copy1 w.mem ≠ erasedSecret := by
  rw [isSecretValid_iff, (h.got rfl).2.2.1]

/-! ## Addresses -/

/-- DTCM and the logs: all that is written besides the two copies. -/
def Scratch (x : Addr) : Prop := Within dtcmStart dtcmLength x ∨ InLogs x

theorem scratch_notFlash {x : Addr} (h : Scratch x) : NotFlash x :=
  h.elim dtcm_notFlash inLogs_notFlash

theorem mem_not_scratch {x : Addr} (h : s.Mem x) : ¬ Scratch x :=
  fun hscratch => scratch_notFlash hscratch (SecretCopies.mem_inFlash h)

theorem GetEnds.scratch {dest : DtcmObject udsLength} {w w' : World} {r : Option Word}
    (h : GetEnds s dest.addr w r w') : w.Quiet (fun x => ¬ Scratch x) w' := by
  have hout : ∀ x, ¬ Scratch x → ¬ InLogs x ∧ ¬ Within dest.addr udsLength x :=
    fun x hx => ⟨fun hlog => hx (Or.inr hlog), fun hin => hx (Or.inl (dest.within hin))⟩
  exact ⟨fun x hx => h.quiet.mem x (hout x hx), fun x hx => h.quiet.written x (hout x hx),
    h.quiet.launched⟩

theorem copies_congr {m m' : Memory} (h : ∀ x, ¬ Scratch x → m' x = m x) :
    s.copy1 m' = s.copy1 m ∧ s.copy2 m' = s.copy2 m :=
  ⟨SecretCopies.copy1_congr fun x hx => h x (mem_not_scratch (Or.inl hx)),
    SecretCopies.copy2_congr fun x hx => h x (mem_not_scratch (Or.inr hx))⟩

theorem secret_apart {a : Addr} (h : (a - getDICEImageStart).toNat + udsLength ≤ diceTotalSize)
    (o : DtcmObject udsLength) {i : Nat} (hi : i < udsLength) :
    ¬ Within a udsLength (at_ o.addr i) := fun hin =>
  dtcm_notFlash (o.inside i hi) (SecretCopies.inFlash_of_image h hin)

/-! ## The generation loop -/

theorem hwRngRand_secret (locals : SecretLocals) (w : World) :
    Cut.Sat (hwRngRand locals.secret.addr (BitVec.ofNat 32 udsLength)) w
      (Fills locals.secret.addr 8 w) := hwRngRand_fills 7 (by decide) locals.secret.addr w

theorem Fills.changes {w w' : World} {r : Option Word} (h : Fills locals.secret.addr 8 w r w') :
    w.Changes Scratch w' :=
  h.only.changes.mono fun _ hx => Or.inl (locals.secret.within hx)

theorem logOnly_scratch {w w' : World} (h : w.LogOnly w') : w.Changes Scratch w' :=
  h.changes.mono fun _ => Or.inr

/-- The loop works in RAM and ends with a valid secret or an error. -/
theorem generateLoop_ends (fuel : Nat) : ∀ w, Cut.Sat (generateLoop cfg locals fuel) w
    fun r w' => w.Changes Scratch w' ∧
      (r = some 0 → isSecretValid w'.mem locals.secret.addr = true) := by
  induction fuel with
  | zero => exact fun w => Cut.Sat.stop ⟨(changes _).refl w, nofun⟩
  | succ fuel ih =>
    intro w
    unfold generateLoop
    refine Cut.Sat.bind (hwRngRand_secret locals w)
      (fun ret w1 h1 => Cut.Sat.ite (fun _ => ?_) fun _ => ?_)
      fun w1 h1 => ⟨h1.changes, nofun⟩
    · exact failed_sat fun r w2 hr h2 =>
        ⟨h1.changes.trans (logOnly_scratch h2), fun h0 => absurd h0 hr⟩
    · refine Cut.Sat.state_bind (Cut.Sat.ite (fun hvalid => ?_) fun _ => ?_)
      · exact Cut.Sat.pure ⟨h1.changes, fun _ => hvalid⟩
      · exact (ih w1).mono fun r w' h => ⟨h1.changes.trans h.1, h.2⟩

/-- The fuel is enough: a round that goes on has used up power, so the fuel `w.power + 1` is
not what ends the loop. -/
theorem generateLoop_fuel (n : Nat) : ∀ w : World, w.power < n →
    generateLoop cfg locals (n + 1) w = generateLoop cfg locals n w := by
  induction n with
  | zero => exact fun w h => absurd h (Nat.not_lt_zero _)
  | succ n ih =>
    intro w hpower
    have hround := hwRngRand_secret locals w
    unfold generateLoop
    rcases hrun : rngRand locals.secret.addr (BitVec.ofNat 32 udsLength) w with ⟨_ | ret, w1⟩
    · rw [Cut.bind_none hrun, Cut.bind_none hrun]
    · rw [Cut.bind_some hrun, Cut.bind_some hrun]
      by_cases hret : ret ≠ 0
      · rw [if_pos hret, if_pos hret]
      · rw [if_neg hret, if_neg hret]
        have hfilled := (hround.elim hrun).done (congrArg some (not_not.mp hret))
        have hless := hfilled.power
        show (if _ then _ else _ : Cut World Word) w1 = (if _ then _ else _ : Cut World Word) w1
        by_cases hvalid : isSecretValid w1.mem locals.secret.addr = true
        · rw [if_pos hvalid, if_pos hvalid]
        · rw [if_neg hvalid, if_neg hvalid]
          exact ih w1 (by omega)

/-! ## DeviceSecretSet -/

/-- How the two copies of a blank device are written: the second only after the first. -/
structure SetEnds (s : SecretCopies) (v : List Byte) (w : World) (r : Option Word) (w' : World) :
    Prop where
  changes : w.Changes (fun x => s.Mem x ∨ InLogs x) w'
  order : s.copy2 w'.mem = erasedSecret ∨ s.copy1 w'.mem = v
  done : r = some 0 → s.copy1 w'.mem = v ∧ s.copy2 w'.mem = v

theorem flashWriteFailed_sat {Q : Option Word → World → Prop} {line : Nat} {ret : Word} {w : World}
    (h : ∀ r w', r ≠ some 0 → w.LogOnly w' → Q r w') :
    Cut.Sat (flashWriteFailed cfg line ret) w Q := failed_sat h

/-- One copy: at most it is written, and in full if the call succeeds. -/
theorem flashWrite_copy (cfg : BuildConfig) {a : Addr}
    (h : (a - getDICEImageStart).toNat + udsLength ≤ diceTotalSize) (src : DtcmObject udsLength)
    (w : World) : Cut.Sat (flashWrite cfg a src.addr (BitVec.ofNat 32 udsLength)) w fun r w' =>
      w.Changes (Within a udsLength) w' ∧
        (r = some 0 → bytesAt w'.mem a udsLength = bytesAt w.mem src.addr udsLength) :=
  ((flashWrite_changes cfg src.addr fun _ hx => hx).sat w).and
    (flashWrite_done cfg (fun _ hi => secret_apart h src hi) w)

theorem deviceSecretSet_ends (src : DtcmObject udsLength) {v : List Byte} (w : World)
    (hv : bytesAt w.mem src.addr udsLength = v) (hblank : s.copy2 w.mem = erasedSecret) :
    Cut.Sat (deviceSecretSet cfg s src.addr) w (SetEnds s v w) := by
  have hlogs : ∀ {w1 w2 : World}, w1.LogOnly w2 → w1.Changes (fun x => s.Mem x ∨ InLogs x) w2 :=
    fun h => h.changes.mono fun _ => Or.inr
  have hkeep : ∀ {w1 w2 : World}, w1.LogOnly w2 →
      s.copy1 w2.mem = s.copy1 w1.mem ∧ s.copy2 w2.mem = s.copy2 w1.mem :=
    fun h => copies_congr fun x hx => h.mem x fun hlog => hx (Or.inr hlog)
  unfold deviceSecretSet
  -- the first copy: whatever happens to it, the second is still blank
  have hfirst := flashWrite_copy cfg s.inside1 src w
  have hsecond : ∀ {w1 : World}, w.Changes (Within s.addr1 udsLength) w1 →
      s.copy2 w1.mem = erasedSecret := by
    intro w1 h1
    rw [← hblank]
    refine SecretCopies.copy2_congr fun x hx => h1.mem x fun hin => ?_
    exact SecretCopies.apart s.aligned1 s.aligned2 s.distinct hin hx
  refine Cut.Sat.bind hfirst (fun ret w1 h1 => Cut.Sat.ite (fun hret => ?_) fun hret => ?_)
    fun w1 h1 => ⟨h1.1.mono fun _ hx => Or.inl (Or.inl hx), Or.inl (hsecond h1.1), nofun⟩
  · refine flashWriteFailed_sat fun r w2 hr h2 => ⟨?_, Or.inl ?_, fun h0 => absurd h0 hr⟩
    · exact (h1.1.mono fun _ hx => Or.inl (Or.inl hx)).trans (hlogs h2)
    · rw [(hkeep h2).2]
      exact hsecond h1.1
  have hcopy1 : s.copy1 w1.mem = v := (h1.2 (congrArg some (not_not.mp hret))).trans hv
  have hsrc : bytesAt w1.mem src.addr udsLength = v := by
    rw [← hv]
    exact bytesAt_congr fun i hi => h1.1.mem _ (secret_apart s.inside1 src hi)
  -- the second copy: the first keeps its value
  have hnext := flashWrite_copy cfg s.inside2 src w1
  have hfirst' : ∀ {w2 : World}, w1.Changes (Within s.addr2 udsLength) w2 → s.copy1 w2.mem = v := by
    intro w2 h2
    rw [← hcopy1]
    refine SecretCopies.copy1_congr fun x hx => h2.mem x fun hin => ?_
    exact SecretCopies.apart s.aligned1 s.aligned2 s.distinct hx hin
  have hboth : ∀ {w2 : World}, w1.Changes (Within s.addr2 udsLength) w2 →
      w.Changes (fun x => s.Mem x ∨ InLogs x) w2 := fun h2 =>
    (changes _).trans (h1.1.mono fun _ hx => Or.inl (Or.inl hx))
      (h2.mono fun _ hx => Or.inl (Or.inr hx))
  refine Cut.Sat.bind hnext (fun ret2 w2 h2 => Cut.Sat.ite (fun hret2 => ?_) fun hret2 => ?_)
    fun w2 h2 => ⟨hboth h2.1, Or.inr (hfirst' h2.1), nofun⟩
  · refine flashWriteFailed_sat fun r w3 hr h3 => ⟨?_, Or.inr ?_, fun h0 => absurd h0 hr⟩
    · exact (hboth h2.1).trans (hlogs h3)
    · rw [(hkeep h3).1]
      exact hfirst' h2.1
  · have hcopy2 : s.copy2 w2.mem = v := (h2.2 (congrArg some (not_not.mp hret2))).trans hsrc
    exact Cut.Sat.pure ⟨hboth h2.1, Or.inr (hfirst' h2.1), fun _ => ⟨hfirst' h2.1, hcopy2⟩⟩

/-! ## Saving a generated secret -/

theorem World.Changes.scratch {w w' : World} (h : w.Changes Scratch w') :
    w.Quiet (fun x => ¬ Scratch x) w' := h.quiet fun _ hx => hx

/-- How the check at the end of `DeviceSecretInitialize` ends: the copies are only read. -/
structure CheckEnds (s : SecretCopies) (w : World) (r : Option Word) (w' : World) : Prop where
  quiet : w.Quiet (fun x => ¬ Scratch x) w'
  generated : w'.generated = w.generated
  gets : w'.gets = w.gets ∨ s.copy1 w.mem = s.copy2 w.mem ∧ w'.gets = w.gets ++ [s.copy1 w.mem]
  done : r = some 0 → ¬ s.Outside

/-- A local set to zero. -/
theorem storeZero_scratch (o : DtcmObject udsLength) (w : World) :
    Cut.Sat (store o.addr (List.replicate udsLength 0)) w fun _ w' => w.Changes Scratch w' := by
  refine (store_changes fun x hx => Or.inl (o.within ?_)).sat w
  rwa [List.length_replicate] at hx

theorem checkSavedSecret_ends (w : World) :
    Cut.Sat (checkSavedSecret cfg s locals) w (CheckEnds s w) := by
  have hram : ∀ {w' : World} {r : Option Word}, r ≠ some 0 → w.Changes Scratch w' →
      CheckEnds s w r w' := fun hr h =>
    ⟨h.scratch, h.generated, Or.inl h.gets, fun h0 => absurd h0 hr⟩
  unfold checkSavedSecret
  refine Cut.Sat.bind (storeZero_scratch locals.reference w) (fun _ w1 h1 => ?_)
    fun w1 h1 => hram nofun h1
  have hcopies := copies_congr (s := s) h1.scratch.mem
  -- the state after the read, with the record of it
  have hread : ∀ {r : Option Word} {w2 : World}, GetEnds s locals.reference.addr w1 r w2 →
      ∀ {r' : Option Word}, (r' = some 0 → r = some 0) → CheckEnds s w r' w2 := by
    intro r w2 h2 r' hr
    refine ⟨h1.scratch.trans h2.scratch, h2.generated.trans h1.generated, ?_,
      fun h0 => (h2.got (hr h0)).1⟩
    by_cases hgot : r = some 0
    · obtain ⟨_, heq, _, hgets⟩ := h2.got hgot
      rw [hcopies.1, hcopies.2] at heq
      rw [hcopies.1, h1.gets] at hgets
      exact Or.inr ⟨heq, hgets⟩
    · exact Or.inl ((h2.notGot hgot).trans h1.gets)
  have hlog : ∀ {w2 w3 : World} {r r' : Option Word}, (r' = some 0 → r = some 0) →
      CheckEnds s w r w2 → w2.LogOnly w3 → CheckEnds s w r' w3 := fun hr h h3 =>
    ⟨h.quiet.trans (logOnly_scratch h3).scratch, by rw [h3.rest, ← h.generated],
      by rw [h3.rest]; exact h.gets, fun h0 => h.done (hr h0)⟩
  refine Cut.Sat.bind (deviceSecretGet_ends locals.reference w1)
    (fun ret w2 h2 => Cut.Sat.ite (fun _ => ?_) fun hret => ?_) fun w2 h2 => hread h2 nofun
  · exact failed_sat fun r w3 hr h3 =>
      hlog (r := none) (fun h0 => absurd h0 hr) (hread h2 nofun) h3
  · have hgot : some ret = some 0 := congrArg some (not_not.mp hret)
    refine Cut.Sat.state_bind (Cut.Sat.ite (fun _ => ?_) fun _ => ?_)
    · exact failed_sat fun r w3 hr h3 =>
        hlog (r := none) (fun h0 => absurd h0 hr) (hread h2 nofun) h3
    · exact logThen_sat (fun w3 h3 => hlog (fun _ => hgot) (hread h2 fun _ => hgot) h3)
        fun w3 h3 => hlog (fun _ => hgot) (hread h2 fun _ => hgot) h3

/-- How the part of `DeviceSecretInitialize` after the generation ends. -/
structure SaveEnds (s : SecretCopies) (v : List Byte) (w : World) (r : Option Word) (w' : World) :
    Prop where
  quiet : w.Quiet (fun x => ¬ (s.Mem x ∨ Scratch x)) w'
  generated : w'.generated = w.generated
  gets : w'.gets = w.gets ∨
    s.copy1 w'.mem = s.copy2 w'.mem ∧ w'.gets = w.gets ++ [s.copy1 w'.mem]
  order : s.copy2 w'.mem = erasedSecret ∨ s.copy1 w'.mem = v
  done : r = some 0 → ¬ s.Outside ∧ s.copy1 w'.mem = v ∧ s.copy2 w'.mem = v

/-- Before `DeviceSecretSet` only the logs change. -/
theorem SaveEnds.ofLogs {v : List Byte} {w w' : World} {r : Option Word}
    (hblank : s.copy2 w.mem = erasedSecret) (h : w.LogOnly w') (hr : r ≠ some 0) :
    SaveEnds s v w r w' := by
  have hchanges := logOnly_scratch h
  have hcopies := copies_congr (s := s) hchanges.scratch.mem
  exact ⟨hchanges.quiet fun x hx hscratch => hx (Or.inr hscratch), hchanges.generated,
    Or.inl hchanges.gets, Or.inl (hcopies.2.trans hblank), fun h0 => absurd h0 hr⟩

theorem SaveEnds.ofSet {v : List Byte} {w w1 w2 : World} {r r' : Option Word} (h : w.LogOnly w1)
    (h2 : SetEnds s v w1 r w2) (hr : r' ≠ some 0) : SaveEnds s v w r' w2 := by
  have hlogs := logOnly_scratch h
  refine ⟨?_, h2.changes.generated.trans hlogs.generated, Or.inl (h2.changes.gets.trans hlogs.gets),
    h2.order, fun h0 => absurd h0 hr⟩
  refine (hlogs.quiet fun x hx hscratch => hx (Or.inr hscratch)).trans ?_
  exact h2.changes.quiet fun x hx hin => hx (hin.imp_right Or.inr)

/-- What follows the two writes does not touch the copies. -/
theorem SaveEnds.after {v : List Byte} {w w1 w2 : World} {r r' : Option Word}
    (h1 : SaveEnds s v w none w1) (h1gets : w1.gets = w.gets) (h2 : CheckEnds s w1 r w2)
    (hr : r' = some 0 → r = some 0 ∧ s.copy1 w1.mem = v ∧ s.copy2 w1.mem = v) :
    SaveEnds s v w r' w2 := by
  have hcopies := copies_congr (s := s) h2.quiet.mem
  refine ⟨h1.quiet.trans ?_, h2.generated.trans h1.generated, ?_, ?_, fun h0 => ?_⟩
  · exact ⟨fun x hx => h2.quiet.mem x fun h => hx (Or.inr h),
      fun x hx => h2.quiet.written x fun h => hx (Or.inr h), h2.quiet.launched⟩
  · rw [hcopies.1, hcopies.2, ← h1gets]
    exact h2.gets
  · rw [hcopies.1, hcopies.2]
    exact h1.order
  · obtain ⟨hdone, hcopy1, hcopy2⟩ := hr h0
    rw [hcopies.1, hcopies.2]
    exact ⟨h2.done hdone, hcopy1, hcopy2⟩

theorem saveGeneratedSecret_ends {v : List Byte} (w : World)
    (hv : bytesAt w.mem locals.secret.addr udsLength = v) (hblank : s.copy2 w.mem = erasedSecret) :
    Cut.Sat (saveGeneratedSecret cfg s locals) w (SaveEnds s v w) := by
  unfold saveGeneratedSecret
  refine Cut.Sat.bind ((hwLogAt_logOnly cfg .info _ _ _).sat w) (fun _ w1 h1 => ?_)
    fun w1 h1 => SaveEnds.ofLogs hblank h1 nofun
  refine Cut.Sat.state_bind (Cut.Sat.bind ((hwLogSecretHex_logOnly cfg _ _ _).sat w1)
    (fun _ w2 h2 => ?_) fun w2 h2 => SaveEnds.ofLogs hblank (h1.trans h2) nofun)
  have hlogs : w.LogOnly w2 := h1.trans h2
  have hcopies := copies_congr (s := s) (logOnly_scratch hlogs).scratch.mem
  have hv2 : bytesAt w2.mem locals.secret.addr udsLength = v := by
    rw [← hv]
    exact locals.secret.bytes_congr fun x hx => hlogs.mem x (dtcm_not_inLogs hx)
  refine Cut.Sat.bind (deviceSecretSet_ends locals.secret w2 hv2 (hcopies.2.trans hblank))
    (fun ret w3 h3 => ?_) fun w3 h3 => SaveEnds.ofSet hlogs h3 nofun
  have hset : SaveEnds s v w none w3 := SaveEnds.ofSet hlogs h3 nofun
  have hgets : w3.gets = w.gets := h3.changes.gets.trans (logOnly_scratch hlogs).gets
  refine Cut.Sat.ite (fun _ => ?_) fun hret => ?_
  · refine failed_sat fun r w4 hr h4 => hset.after (r := none) hgets ?_
      fun h0 => absurd h0 hr
    have hchanges := logOnly_scratch h4
    exact ⟨hchanges.scratch, hchanges.generated, Or.inl hchanges.gets, nofun⟩
  · obtain ⟨hcopy1, hcopy2⟩ := h3.done (congrArg some (not_not.mp hret))
    exact (checkSavedSecret_ends w3).mono fun r w4 h4 =>
      hset.after hgets h4 fun h0 => ⟨h0, hcopy1, hcopy2⟩

/-! ## DeviceSecretInitialize -/

/-- The copies are only read. -/
structure KeptSecret (s : SecretCopies) (w : World) (r : Option Word) (w' : World) : Prop where
  quiet : w.Quiet (fun x => ¬ Scratch x) w'
  generated : w'.generated = w.generated
  gets : w'.gets = w.gets ∨ s.copy1 w.mem = s.copy2 w.mem ∧ w'.gets = w.gets ++ [s.copy1 w.mem]
  done : r = some 0 → ¬ s.Outside ∧ s.copy1 w.mem = s.copy2 w.mem ∧ s.copy1 w.mem ≠ erasedSecret

/-- The copies were blank and `v` was generated for them. -/
structure NewSecret (s : SecretCopies) (v : List Byte) (w : World) (r : Option Word) (w' : World) :
    Prop where
  blank : s.copy1 w.mem = erasedSecret ∧ s.copy2 w.mem = erasedSecret
  valid : v ≠ erasedSecret
  quiet : w.Quiet (fun x => ¬ (s.Mem x ∨ Scratch x)) w'
  generated : w'.generated = w.generated ++ [v]
  gets : w'.gets = w.gets ++ [erasedSecret] ∨
    s.copy1 w'.mem = s.copy2 w'.mem ∧ w'.gets = w.gets ++ [erasedSecret, s.copy1 w'.mem]
  order : s.copy2 w'.mem = erasedSecret ∨ s.copy1 w'.mem = v
  done : r = some 0 → ¬ s.Outside ∧ s.copy1 w'.mem = v ∧ s.copy2 w'.mem = v

/-- How a call of `DeviceSecretInitialize` ends, wherever it is cut. -/
def InitEnds (s : SecretCopies) (w : World) (r : Option Word) (w' : World) : Prop :=
  KeptSecret s w r w' ∨ ∃ v, NewSecret s v w r w'

/-- The state after the first `DeviceSecretGet`, when it has found the copies blank. -/
structure FoundBlank (s : SecretCopies) (w w1 : World) : Prop where
  blank : s.copy1 w.mem = erasedSecret ∧ s.copy2 w.mem = erasedSecret
  quiet : w.Quiet (fun x => ¬ Scratch x) w1
  generated : w1.generated = w.generated
  gets : w1.gets = w.gets ++ [erasedSecret]

theorem FoundBlank.kept {w w1 w2 : World} {r : Option Word} (h : FoundBlank s w w1)
    (h2 : w1.Changes Scratch w2) (hr : r ≠ some 0) : KeptSecret s w r w2 := by
  obtain ⟨hblank1, hblank2⟩ := h.blank
  refine ⟨h.quiet.trans h2.scratch, h2.generated.trans h.generated, Or.inr ⟨?_, ?_⟩,
    fun h0 => absurd h0 hr⟩
  · rw [hblank1, hblank2]
  · rw [h2.gets, h.gets, hblank1]

theorem FoundBlank.new {v : List Byte} {w w1 w2 w3 : World} {r : Option Word}
    (h : FoundBlank s w w1) (h2 : w1.Changes Scratch w2) (hv : v ≠ erasedSecret)
    (h3 : SaveEnds s v { w2 with generated := w2.generated ++ [v] } r w3) :
    NewSecret s v w r w3 := by
  have hquiet : w.Quiet (fun x => ¬ (s.Mem x ∨ Scratch x)) w2 := by
    have h12 := h.quiet.trans h2.scratch
    exact ⟨fun x hx => h12.mem x fun hin => hx (Or.inr hin),
      fun x hx => h12.written x fun hin => hx (Or.inr hin), h12.launched⟩
  have hgets : w2.gets = w.gets ++ [erasedSecret] := h2.gets.trans h.gets
  refine ⟨h.blank, hv, ?_, ?_, ?_, h3.order, h3.done⟩
  · exact hquiet.trans ⟨h3.quiet.mem, h3.quiet.written, h3.quiet.launched⟩
  · rw [h3.generated]
    show w2.generated ++ [v] = w.generated ++ [v]
    rw [h2.generated, h.generated]
  · rcases h3.gets with h3gets | ⟨heq, h3gets⟩
    · exact Or.inl (h3gets.trans hgets)
    · refine Or.inr ⟨heq, ?_⟩
      rw [h3gets]
      show w2.gets ++ [s.copy1 w3.mem] = _
      rw [hgets, List.append_assoc]
      rfl

theorem generateSecret_ends {w w1 : World} (h : FoundBlank s w w1) :
    Cut.Sat (generateSecret cfg s locals) w1 (InitEnds s w) := by
  unfold generateSecret
  refine Cut.Sat.bind ((hwLogAt_logOnly cfg .info _ _ _).sat w1) (fun _ w2 h2 => ?_)
    fun w2 h2 => Or.inl (h.kept (logOnly_scratch h2) nofun)
  refine Cut.Sat.state_bind (Cut.Sat.bind (generateLoop_ends (w2.power + 1) w2)
    (fun ret w3 h3 => ?_) fun w3 h3 => Or.inl (h.kept ((logOnly_scratch h2).trans h3.1) nofun))
  have hchanges := (logOnly_scratch h2).trans h3.1
  refine Cut.Sat.ite (fun hret => Cut.Sat.pure (Or.inl (h.kept hchanges ?_))) fun hret => ?_
  · decide
  have hvalid := (isSecretValid_iff _ _).mp (h3.2 (congrArg some (not_not.mp hret)))
  have hblank2 : s.copy2 w3.mem = erasedSecret := by
    have hcopies := copies_congr (s := s) (h.quiet.trans hchanges.scratch).mem
    exact hcopies.2.trans h.blank.2
  refine Cut.Sat.update_bind ?_
  generalize hv : bytesAt w3.mem locals.secret.addr udsLength = v at hvalid
  have hsave : Cut.Sat (saveGeneratedSecret cfg s locals)
      { w3 with generated := w3.generated ++ [v] } (SaveEnds s v _) :=
    saveGeneratedSecret_ends _ hv hblank2
  exact hsave.mono fun r w4 h4 => Or.inr ⟨v, h.new hchanges hvalid h4⟩

theorem deviceSecretInitialize_ends (cfg : BuildConfig) (s : SecretCopies) (locals : SecretLocals)
    (w : World) :
    Cut.Sat (deviceSecretInitialize cfg s locals) w (InitEnds s w) := by
  unfold deviceSecretInitialize
  refine Cut.Sat.bind (storeZero_scratch locals.secret w) (fun _ w1 h1 => ?_)
    fun w1 h1 => Or.inl ⟨h1.scratch, h1.generated, Or.inl h1.gets, nofun⟩
  have hcopies := copies_congr (s := s) h1.scratch.mem
  have hunread : ∀ {r : Option Word} {w2 w3 : World}, GetEnds s locals.secret.addr w1 r w2 →
      r ≠ some 0 → w2.Changes Scratch w3 → ∀ {r' : Option Word}, r' ≠ some 0 →
        KeptSecret s w r' w3 := fun h2 hr h3 _ hr' =>
    ⟨(h1.scratch.trans h2.scratch).trans h3.scratch,
      h3.generated.trans (h2.generated.trans h1.generated),
      Or.inl (h3.gets.trans ((h2.notGot hr).trans h1.gets)), fun h0 => absurd h0 hr'⟩
  refine Cut.Sat.bind (deviceSecretGet_ends locals.secret w1)
    (fun ret w2 h2 => Cut.Sat.ite (fun hret => ?_) fun hret => ?_)
    fun w2 h2 => Or.inl (hunread h2 nofun ((changes _).refl w2) nofun)
  · exact failed_sat fun r w3 hr h3 => Or.inl
      (hunread h2 (fun h0 => hret (Option.some.inj h0)) (logOnly_scratch h3) hr)
  obtain rfl : ret = 0 := not_not.mp hret
  obtain ⟨hin, heq, _, hgets⟩ := h2.got rfl
  have hread := h2.valid_iff
  rw [hcopies.1, hcopies.2] at heq
  rw [hcopies.1] at hread
  rw [hcopies.1, h1.gets] at hgets
  have hquiet := h1.scratch.trans h2.scratch
  have hgen := h2.generated.trans h1.generated
  refine Cut.Sat.state_bind (Cut.Sat.ite (fun hvalid => ?_) fun hblank => ?_)
  · have hset : s.copy1 w.mem ≠ erasedSecret := hread.mp hvalid
    have hkept : ∀ {w3 : World} {r : Option Word}, w2.LogOnly w3 → KeptSecret s w r w3 :=
      fun h3 => ⟨hquiet.trans (logOnly_scratch h3).scratch,
        (logOnly_scratch h3).generated.trans hgen,
        Or.inr ⟨heq, (logOnly_scratch h3).gets.trans hgets⟩, fun _ => ⟨hin, heq, hset⟩⟩
    refine Cut.Sat.bind ((hwLogAt_logOnly cfg .info _ _ _).sat w2) (fun _ w3 h3 => ?_)
      fun w3 h3 => Or.inl (hkept h3)
    refine Cut.Sat.bind ((hwLogSecretHex_logOnly cfg _ _ _).sat w3) (fun _ w4 h4 => ?_)
      fun w4 h4 => Or.inl (hkept (h3.trans h4))
    exact Cut.Sat.pure (Or.inl (hkept (h3.trans h4)))
  · have hcopy1 : s.copy1 w.mem = erasedSecret := not_not.mp fun hne => hblank (hread.mpr hne)
    rw [hcopy1] at hgets
    exact generateSecret_ends ⟨⟨hcopy1, heq ▸ hcopy1⟩, hquiet, hgen, hgets⟩

/-! ## Any sequence of boots -/

/-- Both copies as the linker leaves them, on a device without a history. -/
structure Fresh (s : SecretCopies) (w : World) : Prop where
  copy1 : s.copy1 w.mem = erasedSecret
  copy2 : s.copy2 w.mem = erasedSecret
  generated : w.generated = []
  gets : w.gets = []

/-- The calls of a boot, each of which may be cut, and the reset that starts the next one. A
reset may find anything in RAM, and may follow any call. -/
inductive SecretStep (cfg : BuildConfig) (s : SecretCopies) : World → World → Prop
  | reset {w w' : World} : w.PowerCycle w' → SecretStep cfg s w w'
  | initSecret (locals : SecretLocals) (w : World) :
      SecretStep cfg s w (deviceSecretInitialize cfg s locals w).2
  | get (dest : DtcmObject udsLength) (w : World) :
      SecretStep cfg s w (deviceSecretGet cfg s dest.addr w).2
  | readUds (udsOut : DtcmObject udsLength) (w : World) :
      SecretStep cfg s w (readUds cfg s udsOut.addr w).2

abbrev SecretRun (cfg : BuildConfig) (s : SecretCopies) : World → World → Prop :=
  Relation.ReflTransGen (SecretStep cfg s)

/-- Equal copies hold nothing or a generated secret, and what was read is nothing or what both
copies still hold. -/
structure Untorn (s : SecretCopies) (w : World) : Prop where
  copies : s.copy1 w.mem = s.copy2 w.mem →
    s.copy1 w.mem = erasedSecret ∨ s.copy1 w.mem ∈ w.generated
  gets : ∀ v ∈ w.gets, v = erasedSecret ∨
    v ∈ w.generated ∧ s.copy1 w.mem = v ∧ s.copy2 w.mem = v

theorem Fresh.untorn {w : World} (h : Fresh s w) : Untorn s w :=
  ⟨fun _ => Or.inl h.copy1, fun v hv => by rw [h.gets] at hv; cases hv⟩

/-- Reading the copies, or only one of them, keeps the invariant. -/
theorem Untorn.read {w w' : World} (h : Untorn s w) (hmem : ∀ x, s.Mem x → w'.mem x = w.mem x)
    (hgen : w'.generated = w.generated) (hgets : w'.gets = w.gets ∨
      s.copy1 w.mem = s.copy2 w.mem ∧ w'.gets = w.gets ++ [s.copy1 w.mem]) : Untorn s w' := by
  have hcopy1 : s.copy1 w'.mem = s.copy1 w.mem :=
    SecretCopies.copy1_congr fun x hx => hmem x (Or.inl hx)
  have hcopy2 : s.copy2 w'.mem = s.copy2 w.mem :=
    SecretCopies.copy2_congr fun x hx => hmem x (Or.inr hx)
  refine ⟨?_, fun v hv => ?_⟩
  · rw [hcopy1, hcopy2, hgen]
    exact h.copies
  · rw [hcopy1, hcopy2, hgen]
    rcases hgets with hsame | ⟨heq, hmore⟩
    · rw [hsame] at hv
      exact h.gets v hv
    · rw [hmore, List.mem_append, List.mem_singleton] at hv
      rcases hv with hold | rfl
      · exact h.gets v hold
      · exact (h.copies heq).imp_right fun hmem => ⟨hmem, rfl, heq.symm⟩

/-- On a blank device nothing but the blank value was ever read. -/
theorem Untorn.gets_blank {w : World} (h : Untorn s w) (hblank : s.copy1 w.mem = erasedSecret) :
    ∀ v ∈ w.gets, v = erasedSecret := fun v hv =>
  (h.gets v hv).elim id fun hset => hset.2.1.symm.trans hblank

theorem Untorn.new {v : List Byte} {w w' : World} {r : Option Word} (h : Untorn s w)
    (hnew : NewSecret s v w r w') : Untorn s w' := by
  have hcopies : s.copy1 w'.mem = s.copy2 w'.mem →
      s.copy1 w'.mem = erasedSecret ∨ s.copy1 w'.mem ∈ w'.generated := by
    intro heq
    rcases hnew.order with hblank2 | hcopy1
    · exact Or.inl (heq.trans hblank2)
    · refine Or.inr ?_
      rw [hcopy1, hnew.generated]
      exact List.mem_append_right _ (List.mem_singleton_self v)
  refine ⟨hcopies, fun u hu => ?_⟩
  have hold := h.gets_blank hnew.blank.1
  rcases hnew.gets with hgets | ⟨heq, hgets⟩
  · rw [hgets, List.mem_append, List.mem_singleton] at hu
    exact Or.inl (hu.elim (hold u) id)
  · rw [hgets, List.mem_append, List.mem_cons, List.mem_singleton] at hu
    rcases hu with hu | hu | rfl
    · exact Or.inl (hold u hu)
    · exact Or.inl hu
    · exact (hcopies heq).imp_right fun hmem => ⟨hmem, rfl, heq.symm⟩

/-- What a call of `DeviceSecretGet` adds to the record. -/
theorem GetEnds.gets {dest : Addr} {w w' : World} {r : Option Word} (h : GetEnds s dest w r w') :
    w'.gets = w.gets ∨ s.copy1 w.mem = s.copy2 w.mem ∧ w'.gets = w.gets ++ [s.copy1 w.mem] := by
  by_cases hr : r = some 0
  · obtain ⟨_, heq, _, hgets⟩ := h.got hr
    exact Or.inr ⟨heq, hgets⟩
  · exact Or.inl (h.notGot hr)

/-- `read_uds` is `DeviceSecretGet` and maybe a message. -/
theorem readUds_ends (cfg : BuildConfig) (s : SecretCopies) (udsOut : DtcmObject udsLength)
    (w : World) :
    Cut.Sat (readUds cfg s udsOut.addr) w fun r w' =>
      ∃ r' w1, GetEnds s udsOut.addr w r' w1 ∧ w1.LogOnly w' ∧ (r = some () → r'.isSome) := by
  unfold readUds
  refine Cut.Sat.bind (deviceSecretGet_ends udsOut w) (fun ret w1 h1 => Cut.Sat.ite (fun _ => ?_)
    fun _ => ?_) fun w1 h1 => ⟨none, w1, h1, logOnly.refl w1, nofun⟩
  · exact ((hwLogAt_logOnly cfg .fail _ _ _).sat w1).mono fun r w2 h2 =>
      ⟨some ret, w1, h1, h2, fun _ => rfl⟩
  · exact Cut.Sat.pure ⟨some ret, w1, h1, logOnly.refl w1, fun _ => rfl⟩

theorem SecretStep.untorn {w w' : World} (h : SecretStep cfg s w w') (hw : Untorn s w) :
    Untorn s w' := by
  cases h with
  | reset h =>
    exact hw.read (fun x hx => h.flash x (SecretCopies.mem_inFlash hx)) h.generated (Or.inl h.gets)
  | initSecret locals w =>
    rcases deviceSecretInitialize_ends cfg s locals w with hkept | ⟨v, hnew⟩
    · exact hw.read (fun x hx => hkept.quiet.mem x (mem_not_scratch hx)) hkept.generated hkept.gets
    · exact hw.new hnew
  | get dest w =>
    have hget : GetEnds s dest.addr w _ (deviceSecretGet cfg s dest.addr w).2 :=
      deviceSecretGet_ends dest w
    exact hw.read (fun x hx => hget.scratch.mem x (mem_not_scratch hx)) hget.generated hget.gets
  | readUds udsOut w =>
    obtain ⟨r', w1, hget, hlog, _⟩ := readUds_ends cfg s udsOut w
    have hw1 : Untorn s w1 :=
      hw.read (fun x hx => hget.scratch.mem x (mem_not_scratch hx)) hget.generated hget.gets
    have hlogs := logOnly_scratch hlog
    exact hw1.read (fun x hx => hlogs.scratch.mem x (mem_not_scratch hx)) hlogs.generated
      (Or.inl hlogs.gets)

theorem SecretRun.untorn {w w' : World} (h : SecretRun cfg s w w') (hw : Untorn s w) :
    Untorn s w' := by
  induction h with
  | refl => exact hw
  | tail _ hstep ih => exact hstep.untorn ih

/-! ## Once it is saved -/

/-- Both copies hold the secret `u`, where `DeviceSecretGet` accepts them. -/
structure Saved (s : SecretCopies) (u : List Byte) (w : World) : Prop where
  inside : ¬ s.Outside
  valid : u ≠ erasedSecret
  copy1 : s.copy1 w.mem = u
  copy2 : s.copy2 w.mem = u

theorem Saved.congr {u : List Byte} {w w' : World} (h : Saved s u w)
    (hmem : ∀ x, s.Mem x → w'.mem x = w.mem x) : Saved s u w' :=
  ⟨h.inside, h.valid, (SecretCopies.copy1_congr fun x hx => hmem x (Or.inl hx)).trans h.copy1,
    (SecretCopies.copy2_congr fun x hx => hmem x (Or.inr hx)).trans h.copy2⟩

theorem InitEnds.saved {w w' : World} (h : InitEnds s w (some 0) w') :
    ∃ u, Saved s u w' := by
  rcases h with hkept | ⟨v, hnew⟩
  · obtain ⟨hin, heq, hset⟩ := hkept.done rfl
    have hw : Saved s (s.copy1 w.mem) w := ⟨hin, hset, rfl, heq.symm⟩
    exact ⟨_, hw.congr fun x hx => hkept.quiet.mem x (mem_not_scratch hx)⟩
  · obtain ⟨hin, hcopy1, hcopy2⟩ := hnew.done rfl
    exact ⟨v, hin, hnew.valid, hcopy1, hcopy2⟩

theorem Saved.initSecret {u : List Byte} {w w' : World} {r : Option Word} (hw : Saved s u w)
    (h : InitEnds s w r w') : Saved s u w' := by
  rcases h with hkept | ⟨v, hnew⟩
  · exact hw.congr fun x hx => hkept.quiet.mem x (mem_not_scratch hx)
  · exact absurd (hw.copy1.symm.trans hnew.blank.1) hw.valid

theorem SecretStep.saved {u : List Byte} {w w' : World} (h : SecretStep cfg s w w')
    (hw : Saved s u w) : Saved s u w' := by
  cases h with
  | reset h => exact hw.congr fun x hx => h.flash x (SecretCopies.mem_inFlash hx)
  | initSecret locals w => exact hw.initSecret (deviceSecretInitialize_ends cfg s _ w)
  | get dest w =>
    have hget : GetEnds s dest.addr w _ (deviceSecretGet cfg s dest.addr w).2 :=
      deviceSecretGet_ends dest w
    exact hw.congr fun x hx => hget.scratch.mem x (mem_not_scratch hx)
  | readUds udsOut w =>
    obtain ⟨r', w1, hget, hlog, _⟩ := readUds_ends cfg s udsOut w
    have hw1 : Saved s u w1 := hw.congr fun x hx => hget.scratch.mem x (mem_not_scratch hx)
    exact hw1.congr fun x hx => (logOnly_scratch hlog).scratch.mem x (mem_not_scratch hx)

theorem SecretRun.saved {u : List Byte} {w w' : World} (h : SecretRun cfg s w w')
    (hw : Saved s u w) : Saved s u w' := by
  induction h with
  | refl => exact hw
  | tail _ hstep ih => exact hstep.saved ih

/-- `DeviceSecretGet` and `read_uds` return, if the power lasts, and this is what their caller
gets. -/
structure Returns (cfg : BuildConfig) (s : SecretCopies) (u : List Byte) (w : World) : Prop where
  get : ∀ (dest : DtcmObject udsLength) r w', deviceSecretGet cfg s dest.addr w = (some r, w') →
    r = 0 ∧ bytesAt w'.mem dest.addr udsLength = u
  get_returns : ∀ dest : DtcmObject udsLength, 6 ≤ w.power →
    ((deviceSecretGet cfg s dest.addr w).1).isSome
  readUds : ∀ (udsOut : DtcmObject udsLength) w', readUds cfg s udsOut.addr w = (some (), w') →
    bytesAt w'.mem udsOut.addr udsLength = u
  readUds_returns : ∀ udsOut : DtcmObject udsLength, 9 ≤ w.power →
    ((VerifiedDice.readUds cfg s udsOut.addr w).1).isSome

theorem deviceSecretGet_runs (cfg : BuildConfig) (s : SecretCopies) (dest : Addr) :
    Runs 6 (deviceSecretGet cfg s dest) := by
  unfold deviceSecretGet
  have hfail : ∀ {file : String} {line : Nat} {t : Text},
      Runs 3 (hwLogFail cfg file line t >>= fun _ => (pure (-1) : Cut World Word)) :=
    (hwLogAt_runs cfg _ _ _ _).bind fun _ => Runs.pure _
  refine Runs.ite (hfail.mono (by omega)) (Runs.bind (n := 3) (k := 3) ?_ fun _ => ?_)
  · exact hwLogAt_runs cfg _ _ _ _
  refine Runs.state_bind fun w => Runs.ite hfail ?_
  have hupdate : ∀ {g : World → World}, (∀ w, (g w).power = w.power) →
      Runs 0 (Cut.update g >>= fun _ => (pure 0 : Cut World Word)) := fun hg w _ =>
    ⟨0, _, rfl, by rw [hg]; exact Nat.le_refl _⟩
  exact Runs.mono (n := 1 + 0) ((store_runs _ _).bind fun _ => hupdate fun _ => rfl) (by omega)

theorem readUds_runs (cfg : BuildConfig) (s : SecretCopies) (udsOut : Addr) :
    Runs 9 (readUds cfg s udsOut) := by
  unfold readUds
  refine (deviceSecretGet_runs cfg s udsOut).bind (k := 3) fun _ => Runs.ite ?_ ?_
  · exact hwLogAt_runs cfg _ _ _ _
  · exact (Runs.pure _).mono (by omega)

theorem Saved.returns {u : List Byte} {w : World} (hw : Saved s u w) : Returns cfg s u w := by
  have hvalue : ∀ {dest : DtcmObject udsLength} {r : Word} {w' : World},
      GetEnds s dest.addr w (some r) w' → r = 0 ∧ bytesAt w'.mem dest.addr udsLength = u := by
    intro dest r w' h
    have hr : r = 0 := by
      by_contra hne
      rcases h.fails r rfl hne with hout | hdiff
      · exact hw.inside hout
      · exact hdiff (hw.copy1.trans hw.copy2.symm)
    subst hr
    exact ⟨rfl, (h.got rfl).2.2.1.trans hw.copy1⟩
  constructor
  · intro dest r w' h
    exact hvalue ((deviceSecretGet_ends dest w).elim h)
  · intro dest hpower
    exact (deviceSecretGet_runs cfg s dest.addr).isSome hpower
  · intro udsOut w' h
    obtain ⟨r', w1, hget, hlog, hdone⟩ := (readUds_ends cfg s udsOut w).elim h
    obtain ⟨r, rfl⟩ := Option.isSome_iff_exists.mp (hdone rfl)
    rw [← (hvalue hget).2]
    exact udsOut.bytes_congr fun x hx => hlog.mem x (dtcm_not_inLogs hx)
  · intro udsOut hpower
    exact (readUds_runs cfg s udsOut.addr).isSome hpower

/-- On a device that starts blank, after any boots, each cut anywhere: what was read is nothing or
a generated secret in both copies; `DeviceSecretInitialize` only returns 0 with a secret in both
copies, and from then on that is what is read and neither copy changes. -/
theorem device_secret_never_torn {w0 w : World} (hfresh : Fresh s w0)
    (hrun : SecretRun cfg s w0 w) :
    (∀ v ∈ w.gets, v = erasedSecret ∨ v ∈ w.generated ∧ s.copy1 w.mem = v ∧ s.copy2 w.mem = v) ∧
      ∀ locals w1, deviceSecretInitialize cfg s locals w = (some 0, w1) →
        ∃ u, u ≠ erasedSecret ∧ s.copy1 w1.mem = u ∧ s.copy2 w1.mem = u ∧
          ∀ w2, SecretRun cfg s w1 w2 →
            s.copy1 w2.mem = u ∧ s.copy2 w2.mem = u ∧ Returns cfg s u w2 := by
  refine ⟨(hrun.untorn hfresh.untorn).gets, fun locals w1 hinit => ?_⟩
  obtain ⟨u, hu⟩ := ((deviceSecretInitialize_ends cfg s _ w).elim hinit).saved
  refine ⟨u, hu.valid, hu.copy1, hu.copy2, fun w2 hlater => ?_⟩
  have hsaved := hlater.saved hu
  exact ⟨hsaved.copy1, hsaved.copy2, hsaved.returns⟩

theorem fresh_blankDevice : Fresh adjacentCopies blankDevice :=
  ⟨by decide, by decide, rfl, rfl⟩

/-- A boot of a blank device saves a secret, which is read from then on. -/
theorem blankDevice_secret_never_torn : ∃ w1 u,
    deviceSecretInitialize plainBuild adjacentCopies adjacentLocals blankDevice = (some 0, w1) ∧
      u ≠ erasedSecret ∧ adjacentCopies.copy1 w1.mem = u ∧ adjacentCopies.copy2 w1.mem = u ∧
      ∀ w2, SecretRun plainBuild adjacentCopies w1 w2 → Returns plainBuild adjacentCopies u w2 := by
  have hinit : (deviceSecretInitialize plainBuild adjacentCopies adjacentLocals blankDevice).1 =
      some 0 := by decide +kernel
  obtain ⟨u, hu, hcopy1, hcopy2, hlater⟩ :=
    (device_secret_never_torn fresh_blankDevice Relation.ReflTransGen.refl).2 adjacentLocals _
      (Prod.ext hinit rfl)
  exact ⟨_, u, Prod.ext hinit rfl, hu, hcopy1, hcopy2, fun w2 h => (hlater w2 h).2.2⟩

end VerifiedDice
