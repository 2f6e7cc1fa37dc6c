import VerifiedDice.Lib.Separated
import VerifiedDice.Logger

/-!
# The line of a hex dump

`HWLogStrHex` puts its line together in a buffer of `MAX_LOG_LINE_LEN` bytes: the prefix first,
then two digits for each byte. When that stays inside the buffer, and where the line is split.
-/
namespace VerifiedDice

open ByteMemory

/-! ## The calls of `snprintf` -/

/-- The line after the prefix and `k` bytes. -/
def HexLine.after (str : Option Text) (data : List Byte) (splitAt : Word) (k : Nat) : HexLine :=
  let l := HexLine.start str
  let len := l.shown data.length
  (List.range k).foldl (fun l i => l.item splitAt (BitVec.ofNat 32 len) i (data.getD i 0)) l

/-- The bytes that `snprintf` stores for the text `t`, with the terminator. -/
def HexLine.stored (l : HexLine) (t : Text) : Text :=
  let size := BitVec.ofNat 32 maxLogLineLen - l.soFar
  if size = 0 then [] else t.take (size.toNat - 1) ++ [0]

/-- The condition of the line break, as the compiler reads it. -/
def splits (splitAt len : Word) (i : Nat) : Prop :=
  0 < splitAt ∧ BitVec.ofNat 32 i + 1 % splitAt = 0 ∧ BitVec.ofNat 32 i + 1 ≠ len

instance (splitAt len : Word) : DecidablePred (splits splitAt len) := fun _ =>
  inferInstanceAs (Decidable (_ ∧ _))

def newline : Byte := 0x0A

/-- What is printed for the bytes of the data. -/
def digits (data : List Byte) (i : Nat) : Text := hexByte (data.getD i 0)

abbrev itemText (data : List Byte) (splitAt len : Word) : Nat → Text :=
  Separated.piece newline (digits data) (splits splitAt len)

/-- What is printed for the first `k` bytes. -/
def dumpText (data : List Byte) (splitAt len : Word) (k : Nat) : Text :=
  Separated.joined newline (digits data) (splits splitAt len) k

/-- What one call of `snprintf` must not do: wrap the space that is left, store a byte behind the
buffer, move the offset beyond its end. -/
structure HexLine.CallSafe (l : HexLine) (t : Text) : Prop where
  space : l.soFar.toNat ≤ maxLogLineLen
  inside : l.soFar.toNat + (l.stored t).length ≤ maxLogLineLen
  offset : l.soFar.toNat + t.length ≤ maxLogLineLen

/-- All of `HWLogStrHex` is safe: every call, the cap on the bytes, and the string that is handed
to `HWLog`. -/
structure DumpSafe (str : Option Text) (data : List Byte) (splitAt : Word) : Prop where
  prefixCall : ∀ s, str = some s → (HexLine.start none).CallSafe s
  capSpace : (HexLine.start str).soFar.toNat ≤ maxLogLineLen
  cap : 4 ≤ ((BitVec.ofNat 32 maxLogLineLen - (HexLine.start str).soFar) / 3).toNat
  items : ∀ i, i < (HexLine.start str).shown data.length →
    (HexLine.after str data splitAt i).CallSafe
      (itemText data splitAt (BitVec.ofNat 32 ((HexLine.start str).shown data.length)) i)
  terminated : ∃ i, i < maxLogLineLen ∧ (hexLine str data splitAt).buffer (BitVec.ofNat 32 i) = 0

/-! ## A line that holds a text -/

/-- The buffer starts with the text and a terminator, and the offset is behind the text. -/
structure HexLine.Holds (l : HexLine) (t : Text) : Prop where
  room : t.length < maxLogLineLen
  offset : l.soFar = BitVec.ofNat 32 t.length
  bytes : bytesAt l.buffer 0 (t.length + 1) = t ++ [0]

section Holds

variable {l : HexLine} {s t : Text}

theorem HexLine.Holds.soFar_toNat (h : l.Holds t) : l.soFar.toNat = t.length := by
  have hroom := h.room
  rw [h.offset, BitVec.toNat_ofNat, Nat.mod_eq_of_lt]
  exact Nat.lt_trans hroom (by decide)

theorem HexLine.Holds.space (h : l.Holds t) :
    (BitVec.ofNat 32 maxLogLineLen - l.soFar).toNat = maxLogLineLen - t.length := by
  have hroom := h.room
  have hsoFar := h.soFar_toNat
  have hmax : (BitVec.ofNat 32 maxLogLineLen).toNat = maxLogLineLen := rfl
  rw [BitVec.toNat_sub_of_le, hmax, hsoFar]
  rw [BitVec.le_def, hmax, hsoFar]
  exact Nat.le_of_lt hroom

/-- A text that fits is stored as it is. -/
theorem HexLine.Holds.stored (h : l.Holds t) (hfit : t.length + s.length < maxLogLineLen) :
    l.stored s = s ++ [0] := by
  have hspace := h.space
  have hsize : ¬ BitVec.ofNat 32 maxLogLineLen - l.soFar = 0 := by
    intro hzero
    rw [hzero] at hspace
    have hnone : (0 : Word).toNat = 0 := rfl
    omega
  unfold HexLine.stored
  rw [if_neg hsize, hspace, List.take_of_length_le (by omega)]

theorem HexLine.snprintf_buffer (l : HexLine) (t : Text) :
    (l.snprintf t).buffer = write l.buffer l.soFar (l.stored t) := by
  unfold HexLine.snprintf HexLine.stored
  dsimp only
  split
  · rw [write_nil]
  · rfl

theorem HexLine.Holds.snprintf (h : l.Holds t) (hfit : t.length + s.length < maxLogLineLen) :
    (l.snprintf s).Holds (t ++ s) := by
  have hmax : maxLogLineLen < 2 ^ 32 := by decide
  refine ⟨?_, ?_, ?_⟩
  · rw [List.length_append]
    exact hfit
  · show l.soFar + BitVec.ofNat 32 s.length = _
    rw [h.offset, List.length_append, BitVec.ofNat_add]
  · have hoffset : l.soFar = at_ 0 t.length := h.offset.trans (BitVec.zero_add _).symm
    have hbefore : bytesAt (write l.buffer (at_ 0 t.length) (s ++ [0])) 0 t.length = t := by
      rw [bytesAt_write_outside]
      · rw [← take_bytesAt l.buffer 0 (Nat.le_succ t.length), h.bytes, List.take_left]
      · intro i hi
        apply not_within_at (Or.inl hi)
        · omega
        · rw [List.length_append, List.length_singleton]
          omega
    have hafter := bytesAt_write_self l.buffer (at_ 0 t.length) (s ++ [0])
      (by rw [List.length_append, List.length_singleton]; omega)
    rw [List.length_append, List.length_singleton] at hafter
    rw [HexLine.snprintf_buffer, h.stored hfit, hoffset, List.length_append, Nat.add_assoc,
      bytesAt_append, hbefore, hafter, List.append_assoc]

theorem HexLine.Holds.callSafe (h : l.Holds t) (hfit : t.length + s.length < maxLogLineLen) :
    l.CallSafe s := by
  have hsoFar := h.soFar_toNat
  refine ⟨?_, ?_, ?_⟩
  · omega
  · rw [h.stored hfit, List.length_append, List.length_singleton]
    omega
  · omega

theorem HexLine.Holds.terminated (h : l.Holds t) : l.buffer (BitVec.ofNat 32 t.length) = 0 := by
  have hbytes : bytesAt l.buffer 0 (t.length + 1) = t ++ [0] ++ [] := by
    rw [h.bytes, List.append_nil]
  have hlast : bytesAt l.buffer (at_ 0 t.length) 1 = [0] := bytesAt_segment hbytes rfl rfl
  have hat : at_ (at_ (0 : Addr) t.length) 0 = BitVec.ofNat 32 t.length := by
    rw [at_zero]
    exact BitVec.zero_add _
  rw [← hat]
  exact (List.cons.inj hlast).1

/-- The terminator ends the string if the text has none of its own. -/
theorem HexLine.Holds.str (h : l.Holds t) (hzero : 0 ∉ t) : l.str = t := by
  have hroom := h.room
  obtain ⟨n, hn⟩ := Nat.exists_eq_add_of_le (Nat.succ_le_of_lt hroom)
  have hall : ∀ c ∈ t, (c != 0) = true := by
    intro c hc
    apply bne_iff_ne.mpr
    rintro rfl
    exact hzero hc
  rw [HexLine.str, hn, bytesAt_append, h.bytes, List.append_assoc,
    List.takeWhile_append_of_pos hall]
  exact List.append_nil t

end Holds

/-! ## The whole line -/

section Line

variable {str : Option Text} {data : List Byte} {splitAt : Word}

/-- The prefix, empty for a null pointer. -/
def shownText (str : Option Text) : Text := str.getD []

/-- The number of bytes shown after a prefix of a given length. -/
def bytesShown (prefixLength len : Nat) : Nat := min len ((maxLogLineLen - prefixLength) / 3 - 4)

theorem item_eq (l : HexLine) (len : Word) (i : Nat) :
    l.item splitAt len i (data.getD i 0) = l.snprintf (itemText data splitAt len i) := by
  have hnewline : text "\n" = [newline] := by decide
  unfold HexLine.item itemText Separated.piece digits
  rw [hnewline]
  by_cases h : splits splitAt len i
  · rw [if_pos h]
    exact if_pos h
  · rw [if_neg h, List.append_nil]
    exact if_neg h

theorem length_itemText (data : List Byte) (splitAt len : Word) (i : Nat) :
    (itemText data splitAt len i).length ≤ 3 :=
  Separated.length_piece (Nat.le_refl 2)

theorem start_none_holds : (HexLine.start none).Holds [] :=
  ⟨by decide, rfl, rfl⟩

theorem start_holds (hfit : (shownText str).length < maxLogLineLen) :
    (HexLine.start str).Holds (shownText str) := by
  cases str with
  | none => exact start_none_holds
  | some s => exact start_none_holds.snprintf (by rw [List.length_nil, Nat.zero_add]; exact hfit)

theorem after_succ (k : Nat) : HexLine.after str data splitAt (k + 1) =
    (HexLine.after str data splitAt k).snprintf (itemText data splitAt
      (BitVec.ofNat 32 ((HexLine.start str).shown data.length)) k) := by
  rw [← item_eq]
  unfold HexLine.after
  dsimp only
  rw [List.range_succ, List.foldl_append]
  rfl

theorem length_dumpText (data : List Byte) (splitAt len : Word) (k : Nat) :
    (dumpText data splitAt len k).length ≤ 3 * k :=
  Separated.length_joined (fun _ => Nat.le_refl 2) k

/-- By induction on the bytes, as long as three characters for each fit. -/
theorem after_holds (data : List Byte) (splitAt : Word) (k : Nat)
    (hfit : (shownText str).length + 3 * k < maxLogLineLen) :
    (HexLine.after str data splitAt k).Holds (shownText str ++ dumpText data splitAt
      (BitVec.ofNat 32 ((HexLine.start str).shown data.length)) k) := by
  induction k with
  | zero =>
    rw [dumpText, Separated.joined_zero, List.append_nil]
    exact start_holds hfit
  | succ k ih =>
    have hdump := length_dumpText data splitAt
      (BitVec.ofNat 32 ((HexLine.start str).shown data.length)) k
    have hitem := length_itemText data splitAt
      (BitVec.ofNat 32 ((HexLine.start str).shown data.length)) k
    rw [after_succ, dumpText, Separated.joined_succ, ← List.append_assoc]
    apply (ih (by omega)).snprintf
    rw [List.length_append]
    omega

theorem start_space (str : Option Text) (hfit : (shownText str).length < maxLogLineLen) :
    ((BitVec.ofNat 32 maxLogLineLen - (HexLine.start str).soFar) / 3).toNat =
      (maxLogLineLen - (shownText str).length) / 3 := by
  rw [BitVec.toNat_udiv, (start_holds hfit).space]
  rfl

/-- With room for four items the cap does not wrap. -/
theorem shown_eq (hfit : (shownText str).length + 12 ≤ maxLogLineLen) (len : Nat) :
    (HexLine.start str).shown len = bytesShown (shownText str).length len := by
  have hcap := start_space str (by omega)
  have hfour : (4 : Word).toNat = 4 := rfl
  rw [HexLine.shown, HexLine.maxBytes, bytesShown, BitVec.toNat_sub_of_le, hcap, hfour]
  rw [BitVec.le_def, hcap, hfour]
  omega

theorem bytesShown_fit (hfit : (shownText str).length + 12 ≤ maxLogLineLen) (len : Nat) :
    (shownText str).length + 3 * bytesShown (shownText str).length len < maxLogLineLen := by
  unfold bytesShown
  omega

theorem hexLine_eq : hexLine str data splitAt =
    HexLine.after str data splitAt ((HexLine.start str).shown data.length) := rfl

/-- With room for four items the line is the prefix and the dump. -/
theorem hexLine_holds (data : List Byte) (splitAt : Word)
    (hfit : (shownText str).length + 12 ≤ maxLogLineLen) :
    (hexLine str data splitAt).Holds (shownText str ++ dumpText data splitAt
      (BitVec.ofNat 32 (bytesShown (shownText str).length data.length))
      (bytesShown (shownText str).length data.length)) := by
  have hshown := shown_eq hfit data.length
  have hholds := after_holds data splitAt _ (bytesShown_fit hfit data.length)
  rw [hexLine_eq, hshown]
  rw [hshown] at hholds
  exact hholds

theorem dumpSafe_of_fits (hfit : (shownText str).length + 12 ≤ maxLogLineLen) :
    DumpSafe str data splitAt := by
  have hshown := shown_eq hfit data.length
  have hroom := bytesShown_fit hfit data.length
  have hstart : (shownText str).length < maxLogLineLen := by omega
  refine ⟨?_, ?_, ?_, ?_, ?_⟩
  · rintro s rfl
    apply start_none_holds.callSafe
    rw [List.length_nil, Nat.zero_add]
    exact hstart
  · rw [(start_holds hstart).soFar_toNat]
    exact Nat.le_of_lt hstart
  · rw [start_space str hstart]
    omega
  · intro i hi
    rw [hshown] at hi
    have hdump := length_dumpText data splitAt
      (BitVec.ofNat 32 ((HexLine.start str).shown data.length)) i
    have hitem := length_itemText data splitAt
      (BitVec.ofNat 32 ((HexLine.start str).shown data.length)) i
    apply (after_holds data splitAt i (by omega)).callSafe
    rw [List.length_append]
    omega
  · have hholds := hexLine_holds data splitAt hfit
    exact ⟨_, hholds.room, hholds.terminated⟩

/-- A prefix is never truncated, and the cap leaves out its last subtraction. -/
theorem DumpSafe.fits (h : DumpSafe str data splitAt) :
    (shownText str).length + 12 ≤ maxLogLineLen := by
  have hcap := h.cap
  have hroom : (shownText str).length ≤ maxLogLineLen := by
    cases str with
    | none => exact Nat.zero_le _
    | some s =>
      have hoffset := (h.prefixCall s rfl).offset
      exact Nat.le_of_add_left_le hoffset
  by_cases hfull : (shownText str).length = maxLogLineLen
  · have hsoFar : (HexLine.start str).soFar = BitVec.ofNat 32 (shownText str).length := by
      cases str with
      | none => rfl
      | some s => exact BitVec.zero_add _
    rw [hsoFar, hfull] at hcap
    exact absurd hcap (by decide)
  · rw [start_space str (by omega)] at hcap
    omega

end Line

/-- The line stays inside its buffer, for all data and every split, exactly for the prefixes that
leave room for four items of three characters. -/
theorem dumpSafe_iff (str : Option Text) (data : List Byte) (splitAt : Word) :
    DumpSafe str data splitAt ↔ ∀ s, str = some s → s.length ≤ 372 := by
  constructor
  · rintro h s rfl
    exact Nat.le_of_add_le_add_right h.fits
  · intro h
    apply dumpSafe_of_fits
    cases str with
    | none => decide
    | some s => exact Nat.add_le_add_right (h s rfl) 12

/-- A prefix of 373 characters and eight bytes: the cap has wrapped, and the last item is stored
behind the buffer. -/
theorem long_prefix_overruns :
    ¬ DumpSafe (some (List.replicate 373 0x61)) (List.replicate 8 0) 16 ∧
    (hexLine (some (List.replicate 373 0x61)) (List.replicate 8 0) 16).buffer
      (BitVec.ofNat 32 maxLogLineLen + 3) = 0x30 := by
  constructor
  · intro h
    have hlong : (shownText (some (List.replicate 373 (0x61 : Byte)))).length = 373 :=
      List.length_replicate
    have hfits := h.fits
    rw [hlong] at hfits
    exact absurd hfits (by decide)
  · decide +kernel

/-! ## Where the line is split -/

/-- A line break follows every `splitAt` bytes, but not the last byte. -/
def splitsEvery (splitAt n : Nat) (i : Nat) : Prop :=
  0 < splitAt ∧ splitAt ∣ i + 1 ∧ i + 1 ≠ n

instance (splitAt n : Nat) : DecidablePred (splitsEvery splitAt n) := fun _ =>
  inferInstanceAs (Decidable (_ ∧ _))

/-- The intended line: the prefix, then `n` bytes. -/
def splitDump (str : Option Text) (data : List Byte) (splitAt : Word) (n : Nat) : Text :=
  shownText str ++ Separated.joined newline (digits data) (splitsEvery splitAt.toNat n) n

/-- The value of a digit. -/
def hexDigit (c : Byte) : Option Nat :=
  if 0x30 ≤ c ∧ c ≤ 0x39 then some (c.toNat - 0x30)
  else if 0x61 ≤ c ∧ c ≤ 0x66 then some (c.toNat - 0x61 + 10)
  else none

/-- The bytes that pairs of digits stand for. -/
def decodeHex : Text → Option (List Byte)
  | [] => some []
  | [_] => none
  | high :: low :: rest => do
    let high ← hexDigit high
    let low ← hexDigit low
    let rest ← decodeHex rest
    pure (BitVec.ofNat 8 (16 * high + low) :: rest)

/-- The line has the intended format, and its digits are those of the data. -/
structure DumpFormat (str : Option Text) (data : List Byte) (splitAt : Word) (n : Nat) : Prop where
  text : (hexLine str data splitAt).str = splitDump str data splitAt n
  decoded : decodeHex (((hexLine str data splitAt).str.drop (shownText str).length).filter
    fun c => c ≠ newline) = some (data.take n)

section Format

variable {str : Option Text} {data : List Byte} {splitAt : Word} {n : Nat}

theorem digits_ne_newline (i : Nat) : newline ∉ digits data i := by
  have hall : ∀ b : Byte, newline ∉ hexByte b := by decide +kernel
  exact hall _

theorem digits_ne_nil (i : Nat) : digits data i ≠ [] := List.cons_ne_nil _ _

theorem digits_ne_zero (i : Nat) : 0 ∉ digits data i := by
  have hall : ∀ b : Byte, 0 ∉ hexByte b := by decide +kernel
  exact hall _

theorem decodeHex_hexByte (b : Byte) (t : Text) :
    decodeHex (hexByte b ++ t) = (decodeHex t).map (b :: ·) := by
  have hall : ∀ b : Byte, hexDigit ((hexByte b).getD 0 0) = some (b.toNat / 16) ∧
      hexDigit ((hexByte b).getD 1 0) = some (b.toNat % 16) := by decide +kernel
  obtain ⟨hhigh, hlow⟩ := hall b
  have hbyte : BitVec.ofNat 8 (16 * (b.toNat / 16) + b.toNat % 16) = b := by
    rw [Nat.div_add_mod, BitVec.ofNat_toNat, BitVec.setWidth_eq]
  have hpair : hexByte b ++ t = (hexByte b).getD 0 0 :: (hexByte b).getD 1 0 :: t := rfl
  rw [hpair, decodeHex, hhigh, hlow]
  cases decodeHex t with
  | none => rfl
  | some rest =>
    show some (BitVec.ofNat 8 _ :: rest) = _
    rw [hbyte]
    rfl

/-- By induction on the data. -/
theorem decodeHex_flatMap (data : List Byte) : decodeHex (data.flatMap hexByte) = some data := by
  induction data with
  | nil => rfl
  | cons b data ih =>
    rw [List.flatMap_cons, decodeHex_hexByte, ih]
    rfl

theorem flatMap_digits (hn : n ≤ data.length) :
    (List.range n).flatMap (digits data) = (data.take n).flatMap hexByte := by
  have hbytes : data.take n = (List.range n).map fun i => data.getD i 0 := by
    apply List.ext_getElem
    · simp [hn]
    · intro i h1 h2
      have hi : i < data.length := by
        rw [List.length_take] at h1
        omega
      rw [List.getElem_take, List.getElem_map, List.getElem_range, List.getD_eq_getElem _ _ hi]
  rw [hbytes, List.flatMap_map]
  rfl

/-- `1 % splitAt` binds tighter than the addition: the condition holds for the first byte of a dump
that is split after every byte, and never again. -/
theorem splits_iff (splitAt : Word) {i : Nat} (hi : i < n) (hn : n < 2 ^ 32) :
    splits splitAt (BitVec.ofNat 32 n) i ↔ splitAt = 1 ∧ i = 0 ∧ n ≠ 1 := by
  have hlt : i < 2 ^ 32 := Nat.lt_trans hi hn
  by_cases hone : splitAt = 1
  · subst hone
    have hpos : (0 : Word) < 1 := by decide
    have hindex : BitVec.ofNat 32 i + 1 % 1 = 0 ↔ i = 0 := by
      have hmod : BitVec.ofNat 32 i + 1 % 1 = BitVec.ofNat 32 i := BitVec.add_zero _
      rw [hmod, ← BitVec.toNat_inj, BitVec.toNat_ofNat, Nat.mod_eq_of_lt hlt]
      rfl
    unfold splits
    rw [hindex]
    constructor
    · rintro ⟨_, rfl, hlast⟩
      refine ⟨rfl, rfl, ?_⟩
      rintro rfl
      exact hlast rfl
    · rintro ⟨_, rfl, hlast⟩
      refine ⟨hpos, rfl, ?_⟩
      intro hlen
      have hnat := congrArg BitVec.toNat hlen
      rw [BitVec.toNat_ofNat, Nat.mod_eq_of_lt hn] at hnat
      exact hlast hnat.symm
  · constructor
    · rintro ⟨hpos, hindex, _⟩
      have hsplit : 1 < splitAt.toNat := by
        have hne : splitAt.toNat ≠ 1 := fun h => hone (BitVec.eq_of_toNat_eq h)
        have hpos : 0 < splitAt.toNat := hpos
        omega
      have hnat := congrArg BitVec.toNat hindex
      have hmod : (1 % splitAt).toNat = 1 := by
        rw [BitVec.toNat_umod]
        exact Nat.mod_eq_of_lt hsplit
      rw [BitVec.toNat_add, hmod, BitVec.toNat_ofNat, Nat.mod_eq_of_lt hlt,
        Nat.mod_eq_of_lt (by omega)] at hnat
      exact absurd hnat (Nat.succ_ne_zero i)
    · rintro ⟨h, _⟩
      exact absurd h hone

/-- Both conditions pick the same bytes. -/
theorem splits_agree_iff (hn : n < 2 ^ 32) :
    (∀ i, i < n → (splits splitAt (BitVec.ofNat 32 n) i ↔ splitsEvery splitAt.toNat n i)) ↔
      splitAt = 0 ∨ n ≤ splitAt.toNat ∨ splitAt = 1 ∧ n ≤ 2 := by
  have hone : splitAt = 1 ↔ splitAt.toNat = 1 := by
    rw [← BitVec.toNat_inj]
    rfl
  have hzero : splitAt = 0 ↔ splitAt.toNat = 0 := by
    rw [← BitVec.toNat_inj]
    rfl
  rw [hone, hzero]
  constructor
  · intro h
    by_contra hnot
    simp only [not_or, not_and] at hnot
    obtain ⟨hpos, hmore, hfew⟩ := hnot
    by_cases h1 : splitAt.toNat = 1
    · have hthree := hfew h1
      have hsecond := (splits_iff splitAt (by omega : 1 < n) hn).mp
        ((h 1 (by omega)).mpr ⟨by omega, by rw [h1]; exact Nat.one_dvd 2, by omega⟩)
      exact absurd hsecond.2.1 Nat.one_ne_zero
    · have hlast : splitAt.toNat - 1 + 1 = splitAt.toNat := by omega
      have hfirst := (splits_iff splitAt (by omega : splitAt.toNat - 1 < n) hn).mp
        ((h (splitAt.toNat - 1) (by omega)).mpr ⟨by omega, ⟨1, by omega⟩, by omega⟩)
      exact h1 (hone.mp hfirst.1)
  · intro h i hi
    rw [splits_iff splitAt hi hn, hone]
    constructor
    · rintro ⟨h1, rfl, hlast⟩
      exact ⟨by omega, ⟨1, by omega⟩, fun h => hlast h.symm⟩
    · rintro ⟨hpos, hdvd, hlast⟩
      have hle := Nat.le_of_dvd (Nat.succ_pos i) hdvd
      omega

end Format

/-- A prefix that leaves room for an item. -/
def LeavesRoom (str : Option Text) : Prop :=
  ∀ s, str = some s → s.length + 15 ≤ maxLogLineLen ∧ 0 ∉ s

section Line

variable {str : Option Text} {data : List Byte} {splitAt : Word} {n : Nat}

theorem LeavesRoom.fits (h : LeavesRoom str) : (shownText str).length + 12 ≤ maxLogLineLen := by
  cases str with
  | none => decide
  | some s =>
    have hroom := (h s rfl).1
    show s.length + 12 ≤ maxLogLineLen
    omega

theorem LeavesRoom.noZero (h : LeavesRoom str) : 0 ∉ shownText str := by
  cases str with
  | none => exact List.not_mem_nil
  | some s => exact (h s rfl).2

theorem hexLine_str (data : List Byte) (splitAt : Word) (h : LeavesRoom str) :
    (hexLine str data splitAt).str = shownText str ++ dumpText data splitAt
      (BitVec.ofNat 32 (bytesShown (shownText str).length data.length))
      (bytesShown (shownText str).length data.length) := by
  apply (hexLine_holds data splitAt h.fits).str
  intro hmem
  rcases List.mem_append.mp hmem with hprefix | hdump
  · exact h.noZero hprefix
  · rcases Separated.mem_joined hdump with hsep | ⟨i, hi⟩
    · exact absurd hsep (by decide)
    · exact digits_ne_zero i hi

/-- Whatever the line breaks are, the digits are those of the data. -/
theorem hexLine_decodes (h : LeavesRoom str) :
    decodeHex (((hexLine str data splitAt).str.drop (shownText str).length).filter
      fun c => c ≠ newline) =
      some (data.take (bytesShown (shownText str).length data.length)) := by
  have hn : bytesShown (shownText str).length data.length ≤ data.length := Nat.min_le_left _ _
  rw [hexLine_str data splitAt h, List.drop_left, dumpText,
    Separated.filter_joined digits_ne_newline, flatMap_digits hn, decodeHex_flatMap]

end Line

/-- For a prefix that leaves room, all data and every split: the line is the intended one if it is
not to be split, if a single line holds all bytes shown, or if it is split after every byte and
shows no more than two. -/
theorem hexLine_format_iff (str : Option Text) (data : List Byte) (splitAt : Word)
    (hstr : LeavesRoom str) :
    DumpFormat str data splitAt (bytesShown (shownText str).length data.length) ↔
      splitAt = 0 ∨ bytesShown (shownText str).length data.length ≤ splitAt.toNat ∨
        splitAt = 1 ∧ bytesShown (shownText str).length data.length ≤ 2 := by
  have hline := hexLine_str data splitAt hstr
  have hsmall : bytesShown (shownText str).length data.length < 2 ^ 32 := by
    have hmax : maxLogLineLen < 2 ^ 32 := by decide
    unfold bytesShown
    omega
  rw [← splits_agree_iff hsmall]
  constructor
  · intro h
    have htext := h.text
    rw [hline, splitDump, dumpText] at htext
    exact Separated.joined_inj digits_ne_newline digits_ne_nil (List.append_cancel_left htext)
  · intro h
    refine ⟨?_, hexLine_decodes hstr⟩
    rw [hline, splitDump, dumpText, Separated.joined_congr _ _ _ _ h]

/-- Two bytes behind a prefix fit on one line. -/
theorem hexLine_format_short :
    DumpFormat (some (text "key: ")) [0x01, 0x02] 16 (bytesShown 5 2) := by
  have hstr : LeavesRoom (some (text "key: ")) := by
    rintro s h
    cases h
    decide
  exact (hexLine_format_iff (some (text "key: ")) [0x01, 0x02] 16 hstr).mpr (Or.inr (by decide))

/-- Three bytes that are to be split after the second are on one line. -/
theorem hexLine_not_split : (hexLine none [1, 2, 3] 2).str = text "010203" ∧
    splitDump none [1, 2, 3] 2 3 = text "0102\n03" ∧
    ¬ DumpFormat none [1, 2, 3] 2 (bytesShown 0 3) := by
  have hline : (hexLine none [1, 2, 3] 2).str = text "010203" := by decide +kernel
  have hsplit : splitDump none [1, 2, 3] 2 3 = text "0102\n03" := by decide +kernel
  refine ⟨hline, hsplit, ?_⟩
  intro h
  have htext := h.text
  rw [hline] at htext
  have hne : text "010203" ≠ splitDump none [1, 2, 3] 2 (bytesShown 0 3) := by decide +kernel
  exact hne htext

end VerifiedDice
