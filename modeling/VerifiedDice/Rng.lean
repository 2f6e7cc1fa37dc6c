import VerifiedDice.World

/-!
# Random bytes

`HW_RNG_Rand` fills a buffer from the 32-bit words of the hardware generator.
-/
namespace VerifiedDice

open ByteMemory

/-- The words before the last one; `none` if the HAL reports an error. -/
def hwRngLoop : Nat → Addr → Word → Cut World (Option (Addr × Word))
  | 0, _, _ => hang
  | fuel + 1, buffer, size =>
    if 4 < size then do
      let num ← halRngGenerateRandomNumber
      match num with
      | none => pure none
      | some num => do
        store buffer (bytesOfWord num)
        hwRngLoop fuel (buffer + 4) (size - 4)
    else pure (some (buffer, size))

/-- `if (size-- > 0) *buffer++ = b`: the size is decremented also at zero. -/
def putByte (at' : Addr × Word) (b : Byte) : Cut World (Addr × Word) :=
  if 0 < at'.2 then do
    store at'.1 [b]
    pure (at'.1 + 1, at'.2 - 1)
  else pure (at'.1, at'.2 - 1)

def hwRngRand (buffer : Addr) (size : Word) : Cut World Word := do
  let rest ← hwRngLoop (size.toNat / 4 + 1) buffer size
  match rest with
  | none => pure (-1)
  | some (buffer, size) =>
    if 0 < size then do
      let num ← halRngGenerateRandomNumber
      match num with
      | none => pure (-1)
      | some num => do
        let _ ← (bytesOfWord num).foldlM putByte (buffer, size)
        pure 0
    else pure 0

/-! ## What it draws -/

/-- The bytes of the next `n` words, if the generator has them. -/
def drawWords : Nat → (Nat → Option Word) → Option (List Byte)
  | 0, _ => some []
  | n + 1, rng =>
    match rng 0 with
    | none => none
    | some num => (drawWords n fun i => rng (i + 1)).map (bytesOfWord num ++ ·)

theorem drawWords_none {n : Nat} {rng : Nat → Option Word} (h : rng 0 = none) :
    drawWords (n + 1) rng = none := by
  rw [drawWords, h]

theorem drawWords_some {n : Nat} {num : Word} {rng : Nat → Option Word} (h : rng 0 = some num) :
    drawWords (n + 1) rng = (drawWords n fun i => rng (i + 1)).map (bytesOfWord num ++ ·) := by
  rw [drawWords, h]

theorem drawWords_add (n k : Nat) : ∀ rng : Nat → Option Word, drawWords (n + k) rng =
    (drawWords n rng).bind fun bs => (drawWords k fun i => rng (i + n)).map (bs ++ ·) := by
  induction n with
  | zero =>
    intro rng
    simp [drawWords]
  | succ n ih =>
    intro rng
    rw [Nat.succ_add]
    cases h : rng 0 with
    | none => rw [drawWords_none h, drawWords_none h, Option.bind_none]
    | some num =>
      rw [drawWords_some h, drawWords_some h, ih]
      cases drawWords n fun i => rng (i + 1) with
      | none => rfl
      | some bs =>
        simp only [Option.bind_some, Option.map_some, Option.map_map, Function.comp_def,
          List.append_assoc, Nat.add_assoc]

/-! ## What it leaves alone -/

/-- Bytes of `S` are written and words are drawn, nothing else changes. -/
structure World.BufferOnly (S : Addr → Prop) (w w' : World) : Prop where
  mem : ∀ x, ¬ S x → w'.mem x = w.mem x
  written : ∀ x, ¬ S x → w'.written x = w.written x
  rest : w' = { w with
    mem := w'.mem, written := w'.written, power := w'.power, rng := w'.rng }

theorem World.BufferOnly.changes {S : Addr → Prop} {w w' : World} (h : w.BufferOnly S w') :
    w.Changes S w' :=
  ⟨h.mem, h.written, by rw [h.rest], by rw [h.rest], by rw [h.rest]⟩

theorem World.BufferOnly.trans {S : Addr → Prop} {w1 w2 w3 : World} (h1 : w1.BufferOnly S w2)
    (h2 : w2.BufferOnly S w3) : w1.BufferOnly S w3 := by
  refine ⟨fun x hx => (h2.mem x hx).trans (h1.mem x hx),
    fun x hx => (h2.written x hx).trans (h1.written x hx), ?_⟩
  rw [h2.rest, h1.rest]

variable {S : Addr → Prop} {w : World}

/-- A call of the generator: the next word is gone. -/
theorem halRng_cases (w : World) :
    (∃ w', halRngGenerateRandomNumber w = (none, w') ∧ w.BufferOnly S w') ∨
      ∃ w', halRngGenerateRandomNumber w = (some (w.rng 0), w') ∧ w.BufferOnly S w' ∧
        w'.mem = w.mem ∧ (w'.rng = fun i => w.rng (i + 1)) ∧ w'.power + 1 = w.power := by
  unfold halRngGenerateRandomNumber step
  split
  · exact Or.inl ⟨w, rfl, fun _ _ => rfl, fun _ _ => rfl, rfl⟩
  · rename_i hpower
    refine Or.inr ⟨_, rfl, ⟨fun _ _ => rfl, fun _ _ => rfl, rfl⟩, rfl, rfl, ?_⟩
    show w.power - 1 + 1 = w.power
    omega

/-- A store: memory changes, nothing else. -/
theorem store_cases (a : Addr) (bs : List Byte) (h : ∀ x, Within a bs.length x → S x) (w : World) :
    (∃ w', store a bs w = (none, w') ∧ w.BufferOnly S w') ∨
      ∃ w', store a bs w = (some (), w') ∧ w.BufferOnly S w' ∧ w'.mem = write w.mem a bs ∧
        w'.rng = w.rng ∧ w'.power ≤ w.power := by
  unfold store step
  split
  · exact Or.inl ⟨w, rfl, fun _ _ => rfl, fun _ _ => rfl, rfl⟩
  · refine Or.inr ⟨_, rfl, ⟨fun x hx => write_outside fun hin => hx (h x hin), fun x hx => ?_, rfl⟩,
      rfl, rfl, Nat.sub_le _ _⟩
    have hout : ¬ Within a bs.length x := fun hin => hx (h x hin)
    simp [hout, World.spend]

theorem World.BufferOnly.mono {T : Addr → Prop} {w' : World} (h : w.BufferOnly S w')
    (hST : ∀ x, S x → T x) : w.BufferOnly T w' :=
  ⟨fun x hx => h.mem x fun hS => hx (hST x hS), fun x hx => h.written x fun hS => hx (hST x hS),
    h.rest⟩

/-- The state after `n` words at `buffer`, the first `n` of the generator. -/
structure Filled (buffer : Addr) (n : Nat) (w w' : World) : Prop where
  only : w.BufferOnly (Within buffer (4 * n)) w'
  power : w'.power + n ≤ w.power
  rng : w'.rng = fun i => w.rng (i + n)
  bytes : drawWords n w.rng = some (bytesAt w'.mem buffer (4 * n))

theorem Filled.empty (buffer : Addr) (w : World) : Filled buffer 0 w w :=
  ⟨⟨fun _ _ => rfl, fun _ _ => rfl, rfl⟩, Nat.le_refl _, rfl, rfl⟩

/-- Further words go behind those that are there. -/
theorem Filled.append {buffer : Addr} {n k : Nat} {w1 w2 w3 : World} (hw : 4 * (n + k) ≤ 2 ^ 32)
    (h1 : Filled buffer n w1 w2) (h2 : Filled (at_ buffer (4 * n)) k w2 w3) :
    Filled buffer (n + k) w1 w3 := by
  have hpower1 := h1.power
  have hpower2 := h2.power
  refine ⟨?_, by omega, ?_, ?_⟩
  · refine (h1.only.mono fun x hx => ?_).trans (h2.only.mono fun x hx => ?_)
    · exact Nat.lt_of_lt_of_le hx (by omega)
    · exact within_sub_range (by omega) (by omega) hx
  · rw [h2.rng, h1.rng]
    funext i
    exact congrArg w1.rng (by omega)
  · have hbytes2 := h2.bytes
    rw [h1.rng] at hbytes2
    have hkept : bytesAt w3.mem buffer (4 * n) = bytesAt w2.mem buffer (4 * n) :=
      bytesAt_congr fun i hi => h2.only.mem _ (not_within_at (Or.inl hi) (by omega) (by omega))
    rw [drawWords_add, h1.bytes, Option.bind_some, hbytes2, Option.map_some, Nat.mul_add,
      bytesAt_append, hkept]

/-- One word drawn and stored. -/
theorem Filled.word {buffer : Addr} {num : Word} {w1 w2 w3 : World} (hrng : w1.rng 0 = some num)
    (h1 : w1.BufferOnly (Within buffer 4) w2) (hmem : w2.mem = w1.mem)
    (hrng1 : w2.rng = fun i => w1.rng (i + 1)) (hpower1 : w2.power + 1 = w1.power)
    (h2 : w2.BufferOnly (Within buffer 4) w3)
    (hwrite : w3.mem = write w2.mem buffer (bytesOfWord num))
    (hrng2 : w3.rng = w2.rng) (hpower2 : w3.power ≤ w2.power) : Filled buffer 1 w1 w3 := by
  refine ⟨h1.trans h2, by omega, hrng2.trans hrng1, ?_⟩
  have hself := bytesAt_write_self w1.mem buffer (bytesOfWord num)
    (by rw [length_bytesOfWord]; decide)
  rw [length_bytesOfWord] at hself
  rw [drawWords_some hrng, hwrite, hmem, Nat.mul_one, hself]
  rfl

theorem drawWords_add_none {buffer : Addr} {n k : Nat} {w w' : World} (h : Filled buffer n w w')
    (hnone : drawWords k w'.rng = none) : drawWords (n + k) w.rng = none := by
  rw [h.rng] at hnone
  rw [drawWords_add, h.bytes, Option.bind_some, hnone, Option.map_none]

/-- The loop ends before the last word. -/
structure LoopEnd (buffer : Addr) (n : Nat) (w : World) (r : Option (Option (Addr × Word)))
    (w' : World) : Prop where
  only : w.BufferOnly (Within buffer (4 * n)) w'
  failed : r = some none → drawWords n w.rng = none
  done : ∀ b size, r = some (some (b, size)) →
    b = at_ buffer (4 * n) ∧ size = 4 ∧ Filled buffer n w w'

theorem LoopEnd.after {buffer : Addr} {n : Nat} {w1 w2 w3 : World}
    {r : Option (Option (Addr × Word))} (hw : 4 * (1 + n) ≤ 2 ^ 32) (h1 : Filled buffer 1 w1 w2)
    (h2 : LoopEnd (at_ buffer (4 * 1)) n w2 r w3) : LoopEnd buffer (1 + n) w1 r w3 := by
  refine ⟨?_, fun hr => drawWords_add_none h1 (h2.failed hr), fun b size hr => ?_⟩
  · refine (h1.only.mono fun x hx => ?_).trans (h2.only.mono fun x hx => ?_)
    · exact Nat.lt_of_lt_of_le hx (by omega)
    · exact within_sub_range (by omega) (by omega) hx
  · obtain ⟨hb, hsize, hfilled⟩ := h2.done b size hr
    refine ⟨?_, hsize, h1.append hw hfilled⟩
    rw [hb, at_at, Nat.mul_add]

theorem hwRngLoop_end (n : Nat) : ∀ (fuel : Nat) (buffer : Addr) (w : World), n < fuel →
    4 * (n + 1) < 2 ^ 32 →
    Cut.Sat (hwRngLoop fuel buffer (BitVec.ofNat 32 (4 * (n + 1)))) w (LoopEnd buffer n w) := by
  induction n with
  | zero =>
    intro fuel buffer w hfuel _
    obtain ⟨fuel, rfl⟩ : ∃ k, fuel = k + 1 := ⟨fuel - 1, by omega⟩
    refine Cut.Sat.pure ⟨⟨fun _ _ => rfl, fun _ _ => rfl, rfl⟩, nofun, fun b size hr => ?_⟩
    cases hr
    exact ⟨(at_zero buffer).symm, rfl, Filled.empty buffer w⟩
  | succ n ih =>
    intro fuel buffer w hfuel hw
    obtain ⟨fuel, rfl⟩ : ∃ k, fuel = k + 1 := ⟨fuel - 1, by omega⟩
    have hmore : (4 : Word) < BitVec.ofNat 32 (4 * (n + 1 + 1)) := by
      rw [BitVec.lt_def, BitVec.toNat_ofNat, Nat.mod_eq_of_lt hw]
      show 4 < 4 * (n + 1 + 1)
      omega
    have hnext : BitVec.ofNat 32 (4 * (n + 1 + 1)) - 4 = BitVec.ofNat 32 (4 * (n + 1)) := by
      bv_omega
    have hstep : buffer + 4 = at_ buffer (4 * 1) := rfl
    have hin : ∀ x, Within buffer 4 x → Within buffer (4 * (n + 1)) x :=
      fun x hx => Nat.lt_of_lt_of_le hx (by omega)
    have hcut : ∀ {w' : World}, w.BufferOnly (Within buffer 4) w' →
        LoopEnd buffer (n + 1) w none w' := fun h => ⟨h.mono hin, nofun, nofun⟩
    unfold hwRngLoop
    rw [if_pos hmore]
    rcases halRng_cases (S := Within buffer 4) w with
      ⟨w1, hrun, h1⟩ | ⟨w1, hrun, h1, hmem1, hrng1, hp1⟩
    · exact Cut.Sat.of_eq (Cut.bind_none hrun) (hcut h1)
    refine Cut.Sat.bind_some hrun ?_
    cases hnum : w.rng 0 with
    | none => exact Cut.Sat.pure ⟨h1.mono hin, fun _ => drawWords_none hnum, nofun⟩
    | some num =>
      rcases store_cases (S := Within buffer 4) buffer (bytesOfWord num)
        (fun _ hx => hx) w1 with ⟨w2, hrun2, h2⟩ | ⟨w2, hrun2, h2, hmem2, hrng2, hp2⟩
      · exact Cut.Sat.of_eq (Cut.bind_none hrun2) (hcut (h1.trans h2))
      refine Cut.Sat.bind_some hrun2 ?_
      have hword := Filled.word hnum h1 hmem1 hrng1 hp1 h2 hmem2 hrng2 hp2
      rw [hnext, hstep]
      refine (ih fuel (at_ buffer (4 * 1)) w2 (by omega) (by omega)).mono fun r w' hend => ?_
      rw [Nat.add_comm n 1]
      exact hend.after (by omega) hword

/-- As long as the size does not run out, the bytes go one behind another. -/
theorem putBytes (bs : List Byte) : ∀ (buffer : Addr) (size : Word) (w : World),
    size.toNat = bs.length →
    Cut.Sat (bs.foldlM putByte (buffer, size)) w fun r w' =>
      w.BufferOnly (Within buffer bs.length) w' ∧ (r.isSome → w'.mem = write w.mem buffer bs ∧
        w'.rng = w.rng ∧ w'.power ≤ w.power) := by
  induction bs with
  | nil =>
    intro buffer size w _
    refine Cut.Sat.pure ⟨⟨fun _ _ => rfl, fun _ _ => rfl, rfl⟩, fun _ => ⟨?_, rfl, Nat.le_refl _⟩⟩
    rw [write_nil]
  | cons b bs ih =>
    intro buffer size w hsize
    have hlt := size.isLt
    rw [List.length_cons] at hsize
    have hpos : 0 < size := by
      rw [BitVec.lt_def]
      show 0 < size.toNat
      omega
    have hin : ∀ x, Within buffer 1 x → Within buffer (bs.length + 1) x :=
      fun x hx => Nat.lt_of_lt_of_le hx (by omega)
    rw [List.foldlM_cons, putByte, if_pos hpos]
    rcases store_cases (S := Within buffer 1) buffer [b] (fun _ hx => hx) w with
      ⟨w1, hrun, h1⟩ | ⟨w1, hrun, h1, hmem1, hrng1, hp1⟩
    · exact Cut.Sat.of_eq (Cut.bind_none (Cut.bind_none hrun)) ⟨h1.mono hin, nofun⟩
    refine Cut.Sat.bind_some (Cut.bind_some hrun) ?_
    refine (ih (buffer + 1) (size - 1) w1 (by bv_omega)).mono fun r w' hend => ?_
    obtain ⟨honly, hdone⟩ := hend
    have hstep : buffer + 1 = at_ buffer 1 := rfl
    refine ⟨(h1.mono hin).trans (honly.mono fun x hx => ?_), fun hr => ?_⟩
    · rw [hstep] at hx
      exact within_sub_range (by omega) (by omega) hx
    · obtain ⟨hmem, hrng, hp⟩ := hdone hr
      refine ⟨?_, hrng.trans hrng1, by omega⟩
      have happ :
          write (write w.mem buffer [b]) (at_ buffer 1) bs = write w.mem buffer ([b] ++ bs) :=
        write_append (by rw [List.length_singleton]; omega)
      rw [hmem, hmem1, hstep, happ]
      rfl

/-- What a call leaves: the buffer filled from the generator, or an error because the generator
did not have the words, or a cut in between. -/
structure Fills (buffer : Addr) (n : Nat) (w : World) (r : Option Word) (w' : World) : Prop where
  only : w.BufferOnly (Within buffer (4 * n)) w'
  failed : ∀ v, r = some v → v ≠ 0 → v = -1 ∧ drawWords n w.rng = none
  done : r = some 0 → Filled buffer n w w'

theorem hwRngRand_fills (n : Nat) (hw : 4 * (n + 1) < 2 ^ 32) (buffer : Addr) (w : World) :
    Cut.Sat (hwRngRand buffer (BitVec.ofNat 32 (4 * (n + 1)))) w (Fills buffer (n + 1) w) := by
  have hfuel : n < (BitVec.ofNat 32 (4 * (n + 1))).toNat / 4 + 1 := by
    rw [BitVec.toNat_ofNat, Nat.mod_eq_of_lt hw]
    omega
  have hin : ∀ x, Within buffer (4 * n) x → Within buffer (4 * (n + 1)) x :=
    fun x hx => Nat.lt_of_lt_of_le hx (by omega)
  have hlast : ∀ x, Within (at_ buffer (4 * n)) 4 x → Within buffer (4 * (n + 1)) x :=
    fun x hx => within_sub_range (by omega) (by omega) hx
  unfold hwRngRand
  refine Cut.Sat.bind (hwRngLoop_end n _ buffer w hfuel hw) (fun rest w1 hend => ?_)
    fun w1 hend => ⟨hend.only.mono hin, nofun, nofun⟩
  have honly := hend.only.mono hin
  rcases rest with _ | ⟨b, size⟩
  · refine Cut.Sat.pure ⟨honly, fun v hv _ => ⟨(Option.some.inj hv).symm, ?_⟩, fun h =>
      absurd (Option.some.inj h) (by decide)⟩
    rw [drawWords_add, hend.failed rfl, Option.bind_none]
  obtain ⟨rfl, rfl, hfilled⟩ := hend.done b size rfl
  show Cut.Sat (if (0 : Word) < 4 then _ else _) _ _
  rw [if_pos (by decide)]
  rcases halRng_cases (S := Within (at_ buffer (4 * n)) 4) w1 with
    ⟨w2, hrun, h2⟩ | ⟨w2, hrun, h2, hmem2, hrng2, hp2⟩
  · exact Cut.Sat.of_eq (Cut.bind_none hrun) ⟨honly.trans (h2.mono hlast), nofun, nofun⟩
  refine Cut.Sat.bind_some hrun ?_
  cases hnum : w1.rng 0 with
  | none =>
    refine Cut.Sat.pure ⟨honly.trans (h2.mono hlast), fun v hv _ => ⟨(Option.some.inj hv).symm, ?_⟩,
      fun h => absurd (Option.some.inj h) (by decide)⟩
    exact drawWords_add_none hfilled (drawWords_none hnum)
  | some num =>
    refine Cut.Sat.bind (putBytes (bytesOfWord num) (at_ buffer (4 * n)) 4 w2 rfl)
      (fun _ w3 hput => Cut.Sat.pure ?_)
      fun w3 hput => ⟨(honly.trans (h2.mono hlast)).trans (hput.1.mono hlast), nofun, nofun⟩
    obtain ⟨hmem3, hrng3, hp3⟩ := hput.2 rfl
    have hword := Filled.word hnum h2 hmem2 hrng2 hp2 hput.1 hmem3 hrng3 hp3
    refine ⟨(honly.trans (h2.mono hlast)).trans (hput.1.mono hlast), fun v hv hne => ?_,
      fun _ => hfilled.append (by omega) hword⟩
    exact absurd (Option.some.inj hv).symm hne

end VerifiedDice
