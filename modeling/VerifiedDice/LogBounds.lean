import VerifiedDice.CircularLog

/-!
# What the logs touch

The bytes that a reader of a log copies, the bytes it writes, and the indices that a writer
uses, for any contents of the area: a header read after power up or after a power cut need not
be one that the writer leaves behind.
-/
namespace VerifiedDice.CircularLog

open ByteMemory

/-! ## Footprints -/

/-- The bytes of one `memcpy` or of one assignment. -/
structure Access where
  start : Addr
  size : Nat

def Access.Inside (a : Addr) (n : Nat) (r : Access) : Prop :=
  ∀ i, i < r.size → Within a n (at_ r.start i)

variable {A : LogArea} {m : Memory}

/-- What `GetMemoryLog` and `GetPersistentMemoryLog` copy from. -/
def getLogReads (A : LogArea) (m : Memory) : List Access :=
  let ((str1, size1), (str2, size2)) := getLogParts A m
  [⟨str1, size1.toNat⟩, ⟨str2, size2.toNat⟩]

/-- Where they copy to, and the terminator. -/
def getLogWrites (copy : LogCopy A) (m : Memory) : List Access :=
  let ((_, size1), (_, size2)) := getLogParts A m
  [⟨copy.addr, size1.toNat⟩, ⟨at_ copy.addr size1.toNat, size2.toNat⟩,
    ⟨at_ copy.addr (size1 + size2).toNat, 1⟩]

/-- The text that a reader gets, without the terminator. -/
def getLogText (copy : LogCopy A) (m : Memory) : List Byte :=
  let (m, str, size) := getLog copy m
  bytesAt m str (size.toNat - 1)

/-- The memory after the check at the start of `LogToMemory`. -/
def checked (A : LogArea) (m : Memory) : Memory :=
  if A.maxLogSize ≤ A.writePtr m ∨ A.maxLogSize < A.size m then
    storeWord (storeWord m (at_ A.base logWritePtr) 0) (at_ A.base logSize) 0 else m

theorem logTo_eq (m : Memory) (str : List Byte) : logTo A m str = logChars A (checked A m) str :=
  rfl

theorem checked_valid (A : LogArea) (m : Memory) : Valid A (checked A m) := valid_or_reset A m

/-- The indices into `log` of the characters of a string. -/
def logIndices (A : LogArea) (m : Memory) : List Byte → List Nat
  | [] => []
  | c :: str =>
    if c = 0 then [] else (A.writePtr m).toNat :: logIndices A (logChar A m c) str

/-- The indices that `LogToMemory` uses. -/
def logToIndices (A : LogArea) (m : Memory) (str : List Byte) : List Nat :=
  logIndices A (checked A m) str

theorem getLog_outside (copy : LogCopy A) {x : Addr}
    (h : ∀ r ∈ getLogWrites copy m, ¬ Within r.start r.size x) : (getLog copy m).1 x = m x := by
  unfold getLogWrites at h
  unfold getLog
  generalize getLogParts A m = parts at *
  obtain ⟨⟨str1, size1⟩, ⟨str2, size2⟩⟩ := parts
  simp only [List.mem_cons, List.not_mem_nil, or_false, forall_eq_or_imp, forall_eq] at h
  obtain ⟨hfirst, hsecond, hlast⟩ := h
  simp only [write_of_pos]
  rw [write_outside hlast, write_outside, write_outside]
  · rw [length_bytesAt]
    exact hfirst
  · rw [length_bytesAt]
    exact hsecond

/-- A reader depends on the header and on what it copies. -/
theorem getLog_congr (copy : LogCopy A) {m' : Memory} {S : Addr → Prop} (h : AgreeOn S m m')
    (hptr : A.writePtr m' = A.writePtr m) (hsize : A.size m' = A.size m)
    (hreads : ∀ r ∈ getLogReads A m, ∀ i, i < r.size → S (at_ r.start i)) :
    AgreeOn S (getLog copy m).1 (getLog copy m').1 := by
  have hparts : getLogParts A m' = getLogParts A m := by
    rw [getLogParts, getLogParts, hptr, hsize]
  unfold getLogReads at hreads
  unfold getLog
  rw [hparts]
  generalize getLogParts A m = parts at *
  obtain ⟨⟨str1, size1⟩, ⟨str2, size2⟩⟩ := parts
  simp only [List.mem_cons, List.not_mem_nil, or_false, forall_eq_or_imp, forall_eq] at hreads
  obtain ⟨hfirst, hsecond⟩ := hreads
  simp only [write_of_pos]
  have h1 : AgreeOn S (write m copy.addr (bytesAt m str1 size1.toNat))
      (write m' copy.addr (bytesAt m' str1 size1.toNat)) := by
    rw [h.bytesAt hfirst]
    exact h.write _ _
  rw [h1.bytesAt hsecond]
  exact (h1.write _ _).write _ _

/-! ## Where a reader stays -/

/-- The headers with which both parts lie in the log. -/
def Readable (A : LogArea) (m : Memory) : Prop :=
  (A.size m).toNat < A.capacity ∨ (A.writePtr m).toNat ≤ A.capacity

theorem Valid.readable (h : Valid A m) : Readable A m := Or.inr (Nat.le_of_lt h.ptr)

/-- The two parts by numbers. -/
theorem getLogParts_cases (h : Readable A m) :
    (∃ size1 : Word, getLogParts A m = ((at_ A.base log, size1), (0, 0)) ∧
      size1.toNat = (A.size m).toNat ∧ (A.size m).toNat < A.capacity) ∨
    ∃ size1 size2 : Word, ∃ ptr, getLogParts A m =
        ((at_ A.base (log + ptr), size1), (at_ A.base log, size2)) ∧
      size1.toNat + ptr = A.capacity ∧ size2.toNat = ptr ∧ A.capacity ≤ (A.size m).toNat := by
  have hmax := toNat_maxLogSize A
  unfold getLogParts
  by_cases hsmall : A.size m < A.maxLogSize
  · have hlt := hsmall
    rw [BitVec.lt_def, hmax] at hlt
    rw [if_pos hsmall]
    exact Or.inl ⟨_, rfl, rfl, hlt⟩
  · have hge := hsmall
    rw [BitVec.lt_def, hmax] at hge
    have hptr : (A.writePtr m).toNat ≤ A.capacity := by
      cases h with
      | inl h => exact absurd h hge
      | inr h => exact h
    have hsub : (A.maxLogSize - A.writePtr m).toNat = A.capacity - (A.writePtr m).toNat := by
      rw [BitVec.toNat_sub_of_le (by rw [BitVec.le_def]; omega), hmax]
    rw [if_neg hsmall]
    refine Or.inr ⟨_, _, (A.writePtr m).toNat, rfl, ?_, rfl, by omega⟩
    omega

theorem getLogReads_inside_iff : (∀ r ∈ getLogReads A m, r.Inside (at_ A.base log) A.capacity) ↔
    Readable A m := by
  have hfits := A.fits
  constructor
  · intro h
    by_cases hsmall : A.size m < A.maxLogSize
    · rw [BitVec.lt_def, toNat_maxLogSize] at hsmall
      exact Or.inl hsmall
    · right
      by_contra hptr
      have hlt := (A.writePtr m).isLt
      have hmax := toNat_maxLogSize A
      have hpos : 0 < (A.maxLogSize - A.writePtr m).toNat := by bv_omega
      unfold getLogReads getLogParts at h
      rw [if_neg hsmall] at h
      have hin := h _ List.mem_cons_self 0 hpos
      have haddr : at_ A.base (log + (A.writePtr m).toNat) =
          at_ (at_ A.base log) (A.writePtr m).toNat := (at_at _ _ _).symm
      simp only [haddr, at_zero] at hin
      rw [within_at _ hlt] at hin
      omega
  · intro h
    have hin : ∀ ptr size, ptr + size ≤ A.capacity →
        Access.Inside (at_ A.base log) A.capacity ⟨at_ A.base (log + ptr), size⟩ := by
      intro ptr size hsum i hi
      show Within _ _ (at_ (at_ A.base (log + ptr)) i)
      have hi' : i < size := hi
      rw [at_at, Nat.add_assoc, ← at_at, within_at _ (by omega)]
      omega
    unfold getLogReads
    rcases getLogParts_cases h with ⟨size1, hparts, hsize, hlt⟩ |
      ⟨size1, size2, ptr, hparts, hsize1, hsize2, _⟩ <;> rw [hparts] <;>
      simp only [List.mem_cons, List.not_mem_nil, or_false, forall_eq_or_imp, forall_eq]
    · exact ⟨hin 0 size1.toNat (by omega), fun i hi => absurd hi (Nat.not_lt_zero i)⟩
    · exact ⟨hin ptr size1.toNat (by omega), hin 0 size2.toNat (by omega)⟩

/-- The terminator is the last byte written, behind as many characters as there are. -/
theorem getLogWrites_inside_iff (copy : LogCopy A) (h : Readable A m) {n : Nat} (hn : n ≤ 2 ^ 32) :
    (∀ r ∈ getLogWrites copy m, r.Inside copy.addr n) ↔
      min (A.size m).toNat A.capacity < n := by
  have hfits := A.fits
  have htotal : ∃ size1 size2 : Word, getLogWrites copy m = [⟨copy.addr, size1.toNat⟩,
      ⟨at_ copy.addr size1.toNat, size2.toNat⟩, ⟨at_ copy.addr (size1 + size2).toNat, 1⟩] ∧
      size1.toNat + size2.toNat = min (A.size m).toNat A.capacity := by
    unfold getLogWrites
    rcases getLogParts_cases h with ⟨size1, hparts, hsize, hlt⟩ |
      ⟨size1, size2, ptr, hparts, hsize1, hsize2, hge⟩ <;> rw [hparts]
    · refine ⟨size1, 0, rfl, ?_⟩
      show size1.toNat + 0 = _
      omega
    · exact ⟨size1, size2, rfl, by omega⟩
  obtain ⟨size1, size2, hwrites, hsum⟩ := htotal
  have hadd : (size1 + size2).toNat = size1.toNat + size2.toNat := by
    rw [BitVec.toNat_add, Nat.mod_eq_of_lt (by omega)]
  have hlast : ∀ i, i < n → Within copy.addr n (at_ copy.addr i) := by
    intro i hi
    rw [within_at _ (by omega)]
    exact hi
  rw [hwrites]
  simp only [List.mem_cons, List.not_mem_nil, or_false, forall_eq_or_imp, forall_eq]
  constructor
  · rintro ⟨-, -, hterminator⟩
    have hin := hterminator 0 Nat.zero_lt_one
    simp only [at_zero] at hin
    rw [within_at _ (size1 + size2).isLt] at hin
    omega
  · intro hlt
    refine ⟨?_, ?_, ?_⟩
    · intro i hi
      exact hlast i (by simp only at hi; omega)
    · intro i hi
      show Within _ _ (at_ (at_ copy.addr size1.toNat) i)
      rw [at_at]
      exact hlast _ (by simp only at hi; omega)
    · intro i hi
      show Within _ _ (at_ (at_ copy.addr (size1 + size2).toNat) i)
      rw [at_at]
      exact hlast _ (by simp only at hi; omega)

/-! ## From any header -/

theorem logChars_valid (str : List Byte) : ∀ {m}, Valid A m → Valid A (logChars A m str) := by
  induction str with
  | nil => exact fun h => h
  | cons c str ih =>
    intro m h
    rw [logChars]
    split
    · exact h
    · exact ih ((logChar_logged A m c h).valid A m h)

theorem CharLogged.alike {c : Byte} {m' : Memory} (h : CharLogged A m c m') :
    CircularBuffer.Alike A.capacity ((ring A m).push A.capacity c) (ring A m') :=
  ⟨h.ptr, h.size, h.cell⟩

/-- From any valid header the characters are pushed one after another. -/
theorem ring_logChars (str : List Byte) : ∀ {m b}, Valid A m → (∀ c ∈ str, c ≠ 0) →
    CircularBuffer.Alike A.capacity b (ring A m) →
    CircularBuffer.Alike A.capacity (b.pushes A.capacity str) (ring A (logChars A m str)) := by
  induction str with
  | nil => exact fun _ _ h => h
  | cons c str ih =>
    intro m b hv hnul h
    have hlogged := logChar_logged A m c hv
    have hc : ¬ c = 0 := hnul c List.mem_cons_self
    have hstep := (h.push c).trans hlogged.alike
    rw [logChars, if_neg hc]
    exact ih (hlogged.valid A m hv) (fun d hd => hnul d (List.mem_cons_of_mem c hd)) hstep

theorem getLogText_eq (copy : LogCopy A) (h : Valid A m) :
    getLogText copy m = (ring A m).contents A.capacity := by
  have hfits := A.fits
  have hsize := h.size
  have hlen : ((ring A m).contents A.capacity).length = (A.size m).toNat :=
    CircularBuffer.length_contents _ (Nat.le_of_lt h.ptr) h.size
  have hpred : (A.size m + 1).toNat - 1 = (A.size m).toNat := by
    rw [toNat_succ A hsize, Nat.add_sub_cancel]
  have hwhole := bytesAt_write_self m copy.addr ((ring A m).contents A.capacity ++ [0])
    (by rw [List.length_append, hlen, List.length_singleton]; omega)
  rw [List.length_append, hlen, List.length_singleton] at hwhole
  unfold getLogText
  rw [getLog_eq copy h]
  show bytesAt _ copy.addr ((A.size m + 1).toNat - 1) = _
  rw [hpred, ← take_bytesAt _ _ (Nat.le_succ (A.size m).toNat), hwhole, ← hlen]
  exact List.take_left' rfl

/-- What a reader gets after a string was logged on a valid header. -/
theorem getLogText_logChars (copy : LogCopy A) (h : Valid A m) {str : List Byte}
    (hnul : ∀ c ∈ str, c ≠ 0) : getLogText copy (logChars A m str) =
      ((ring A m).pushes A.capacity str).contents A.capacity := by
  have hptr := CircularBuffer.pushes_ptr_lt (b := ring A m) A.capacity_pos str h.ptr
  rw [getLogText_eq copy (logChars_valid str h)]
  exact (ring_logChars str h hnul (CircularBuffer.Alike.refl _ _)).contents (Nat.le_of_lt hptr)

/-- The log is read within its bounds, and what is logged next will be at its end. -/
structure Survives (copy : LogCopy A) (m : Memory) : Prop where
  reads : ∀ r ∈ getLogReads A m, r.Inside (at_ A.base log) A.capacity
  writes : ∀ r ∈ getLogWrites copy m, r.Inside copy.addr (A.capacity + 1)
  ends : ∀ s : CString, s.val ≠ [] →
    s.val.rtake A.capacity <:+ getLogText copy (logTo A m s.val)

/-- The headers with which it does: a full log with the position in it or right behind it, a log
one short of full, or a shorter one with the position at its end or where the writer rejects it. -/
def Sound (A : LogArea) (m : Memory) : Prop :=
  let ptr := (A.writePtr m).toNat
  let size := (A.size m).toNat
  (A.capacity ≤ size ∧ ptr ≤ A.capacity) ∨ size + 1 = A.capacity ∨
    (size < A.capacity ∧ (A.capacity ≤ ptr ∨ ptr = size))

instance (A : LogArea) (m : Memory) : Decidable (Sound A m) :=
  inferInstanceAs (Decidable ((_ ∧ _) ∨ _ = _ ∨ (_ ∧ (_ ∨ _ = _))))

theorem checked_of_invalid (h : A.capacity ≤ (A.writePtr m).toNat ∨
    A.capacity < (A.size m).toNat) : Holds A (checked A m) [] := by
  have hmax := toNat_maxLogSize A
  have hbad : A.maxLogSize ≤ A.writePtr m ∨ A.maxLogSize < A.size m := by
    rw [BitVec.le_def, BitVec.lt_def, hmax]
    exact h
  rw [checked, if_pos hbad]
  refine holds_empty ?_ ?_
  · rw [writePtr_storeSize, writePtr_storePtr]
  · rw [size_storeSize]

theorem checked_of_valid (h : Valid A m) : checked A m = m := if_neg (not_invalid h)

/-- The last character held after one was logged is an old one. -/
theorem not_ends_of_gap (copy : LogCopy A) (h : Valid A m)
    (hsize : (A.size m).toNat + 1 < A.capacity) (hptr : (A.writePtr m).toNat ≠ (A.size m).toNat) :
    ∃ s : CString, s.val ≠ [] ∧ ¬ s.val.rtake A.capacity <:+ getLogText copy (logTo A m s.val) := by
  have hother : ∃ c : Byte, c ≠ 0 ∧ c ≠ (ring A m).cell (ring A m).size := by
    by_cases hone : (ring A m).cell (ring A m).size = 1
    · exact ⟨2, by decide, by rw [hone]; decide⟩
    · exact ⟨1, by decide, Ne.symm hone⟩
  obtain ⟨c, hnul, hc⟩ := hother
  have hnuls : ∀ d ∈ [c], d ≠ 0 := by
    intro d hd
    rw [List.mem_singleton] at hd
    rw [hd]
    exact hnul
  refine ⟨⟨[c], hnuls⟩, List.cons_ne_nil c [], ?_⟩
  have hrtake : [c].rtake A.capacity = [c] := by
    rw [List.rtake, List.length_singleton, Nat.sub_eq_zero_of_le A.capacity_pos]
    rfl
  show ¬ [c].rtake A.capacity <:+ getLogText copy (logChars A (checked A m) [c])
  rw [checked_of_valid h, getLogText_logChars copy h hnuls, hrtake]
  exact CircularBuffer.push_not_suffix hsize hptr hc

theorem ends_of_sound (copy : LogCopy A) (h : Sound A m) (s : CString) (hs : s.val ≠ []) :
    s.val.rtake A.capacity <:+ getLogText copy (logTo A m s.val) := by
  have hpos := A.capacity_pos
  have hlen := List.length_pos_iff.mpr hs
  rw [logTo_eq]
  by_cases hbad : A.capacity ≤ (A.writePtr m).toNat ∨ A.capacity < (A.size m).toNat
  · have hempty := checked_of_invalid hbad
    rw [getLogText_logChars copy hempty.valid s.property]
    exact CircularBuffer.Window.pushes_suffix hpos hempty s.val
  · have hv : Valid A m := ⟨by omega, by omega⟩
    rw [checked_of_valid hv, getLogText_logChars copy hv s.property]
    by_cases hfull : A.capacity ≤ (ring A m).size + s.val.length
    · exact CircularBuffer.pushes_suffix_of_full hv.ptr hv.size hfull
    · have hsize : (ring A m).size = (A.size m).toNat := rfl
      have hptr : (A.writePtr m).toNat = (A.size m).toNat := by
        rw [Sound] at h
        omega
      exact CircularBuffer.Window.pushes_suffix hpos
        (CircularBuffer.window_of_ptr_eq_size hv.ptr hptr) s.val

theorem survives_iff (copy : LogCopy A) (m : Memory) : Survives copy m ↔ Sound A m := by
  have hfits := A.fits
  have hpos := A.capacity_pos
  constructor
  · intro h
    have hread := getLogReads_inside_iff.mp h.reads
    rw [Readable] at hread
    by_contra hnot
    rw [Sound] at hnot
    have hv : Valid A m := ⟨by omega, by omega⟩
    obtain ⟨s, hs, hlost⟩ := not_ends_of_gap copy hv (by omega) (by omega)
    exact hlost (h.ends s hs)
  · intro h
    have hread : Readable A m := by
      rw [Sound] at h
      rw [Readable]
      omega
    refine ⟨getLogReads_inside_iff.mpr hread, ?_, ends_of_sound copy h⟩
    rw [getLogWrites_inside_iff copy hread (by omega)]
    omega

/-- The persistent log survives exactly the RAM contents with a sound header. -/
theorem persistentLog_survives_iff (array : DtcmObject (persistentLogSize + 1)) (m : Memory) :
    Survives (logCopy array) m ↔ Sound persistentLog m := survives_iff (logCopy array) m

/-- Power-up contents with all bits set, and zeroed contents with the power cut after the position
was stored for the first character. -/
def powerUpRam : Memory := fun _ => 0xFF
def cutRam : Memory := stepPtr persistentLog (stepCell persistentLog (fun _ => 0) 0x78)

def copyAtStart : DtcmObject (persistentLogSize + 1) := DtcmObject.ofRange dtcmStart (by decide)

/-- Neither survives: with the first the reader leaves the log, with the second a character that is
logged next is not at the end. -/
theorem persistentLog_not_survives :
    ¬ Survives (logCopy copyAtStart) powerUpRam ∧ ¬ Survives (logCopy copyAtStart) cutRam := by
  constructor
  · rw [survives_iff]
    decide +kernel
  · rw [survives_iff]
    decide +kernel

/-! ## Any calls on the log in RAM -/

/-- The indices of the characters are inside the log. -/
theorem logIndices_lt (str : List Byte) : ∀ {m}, Valid A m →
    ∀ i ∈ logIndices A m str, i < A.capacity := by
  induction str with
  | nil => exact fun _ _ hi => absurd hi List.not_mem_nil
  | cons c str ih =>
    intro m h i hi
    rw [logIndices] at hi
    split at hi
    · exact absurd hi List.not_mem_nil
    · cases hi with
      | head => exact h.ptr
      | tail _ hi => exact ih ((logChar_logged A m c h).valid A m h) i hi

/-- No other character of the log is written. -/
theorem logChars_cell (str : List Byte) {i : Nat} (hi : i < A.capacity) : ∀ {m}, Valid A m →
    i ∉ logIndices A m str →
      logChars A m str (at_ A.base (log + i)) = m (at_ A.base (log + i)) := by
  induction str with
  | nil => exact fun _ _ => rfl
  | cons c str ih =>
    intro m h hnot
    rw [logIndices] at hnot
    rw [logChars]
    split
    · rfl
    · rename_i hc
      rw [if_neg hc, List.mem_cons, not_or] at hnot
      have hlogged := logChar_logged A m c h
      rw [ih (hlogged.valid A m h) hnot.2, hlogged.cell i hi, if_neg hnot.1]

theorem checked_cells (A : LogArea) (m : Memory) : SameCells A m (checked A m) := by
  rw [checked]
  split
  · exact (sameCells_storeHeader 0 (by decide)).trans (sameCells_storeHeader 0 (by decide))
  · exact SameCells.refl A m

theorem logTo_cell {str : List Byte} {i : Nat} (hi : i < A.capacity)
    (hnot : i ∉ logToIndices A m str) :
    logTo A m str (at_ A.base (log + i)) = m (at_ A.base (log + i)) := by
  rw [logTo_eq, logChars_cell str hi (checked_valid A m) hnot]
  exact (checked_cells A m).cell i hi

/-- One call keeps to its own field: the characters of `log` at the indices it uses, the header,
or `reconstructed_log`. -/
def CallInBounds (m : Memory) : LogCall → Prop
  | .log str => (∀ i ∈ logToIndices ramLog m str.val, i < ramLogSize) ∧
      (∀ i, i < ramLogSize → i ∉ logToIndices ramLog m str.val →
        logToMemory m str.val (at_ getLogRamStart (log + i)) = m (at_ getLogRamStart (log + i))) ∧
      ∀ x, Within reconstructedLog.addr ramLogSize x → logToMemory m str.val x = m x
  | .reset => ∀ x, ¬ Within getLogRamStart log x → resetMemoryLog m x = m x
  | .get => (∀ r ∈ getLogWrites reconstructedLog m, r.Inside reconstructedLog.addr ramLogSize) ∧
      AgreeOn ramLog.Mem m (getMemoryLog m).1

theorem log_inBounds (m : Memory) (str : CString) : CallInBounds m (.log str) := by
  refine ⟨logIndices_lt str.val (checked_valid ramLog m), fun i hi => logTo_cell hi, ?_⟩
  intro x hx
  obtain ⟨i, hi, rfl⟩ := exists_at_of_within hx
  exact logTo_outside ramLog m str.val (reconstructedLog.apart i (Nat.lt_succ_of_lt hi))

theorem reset_inBounds (m : Memory) : CallInBounds m .reset := by
  intro x hx
  have hin : ∀ k, k ≤ logSize → ¬ Within (at_ getLogRamStart k) 4 x := by
    intro k hk h
    have hbounds : log = 8 ∧ logSize = 4 := ⟨rfl, rfl⟩
    exact hx (within_sub_range (by omega) (by omega) h)
  show storeWord (storeWord m (at_ getLogRamStart logSize) 0) (at_ getLogRamStart logWritePtr) 0 x =
    m x
  rw [storeWord_outside (hin _ (by decide)), storeWord_outside (hin _ (by decide))]

/-- A reader gets its terminator into the field unless the log is full. -/
theorem get_inBounds_iff {s : List Byte} (h : Holds ramLog m s) :
    CallInBounds m .get ↔ s.length < ramLogSize := by
  have hsize : (ramLog.size m).toNat = min s.length ramLog.capacity := h.size
  have hcap : ramLog.capacity = ramLogSize := rfl
  have hwrites := getLogWrites_inside_iff reconstructedLog h.valid.readable
    (by decide : ramLogSize ≤ 2 ^ 32)
  constructor
  · intro hin
    have hlt := hwrites.mp hin.1
    omega
  · intro hlt
    exact ⟨hwrites.mpr (by omega), (h.isWindow reconstructedLog).kept⟩

theorem ramAfter_holds (m : Memory) (calls : List LogCall) :
    Holds ramLog (ramAfter m calls) (calls.foldl history []) := by
  have h : Holds ramLog (cleanLogRam m) [] := holds_zeroed (by decide)
  rw [ramAfter, ram_eq]
  exact h.calls reconstructedLog calls

/-- In a run from the zeroed area every call keeps to its own field if and only if the log is never
read when it is full. -/
theorem ram_run_inBounds_iff (m : Memory) (calls : List LogCall) :
    (∀ before call after, calls = before ++ call :: after →
      CallInBounds (ramAfter m before) call) ↔
    ∀ before after, calls = before ++ .get :: after →
      (before.foldl history []).length < ramLogSize := by
  constructor
  · intro h before after he
    exact (get_inBounds_iff (ramAfter_holds m before)).mp (h before .get after he)
  · intro h before call after he
    cases call with
    | log str => exact log_inBounds _ str
    | reset => exact reset_inBounds _
    | get => exact (get_inBounds_iff (ramAfter_holds m before)).mpr (h before after he)

/-- The text that fills the log exactly. -/
def fullText : CString where
  val := List.replicate ramLogSize 0x78
  property := by
    intro c hc
    rw [List.eq_of_mem_replicate hc]
    decide

/-- It is logged, then read: the terminator is written behind `reconstructed_log`. -/
theorem full_log_read_out_of_bounds :
    ¬ CallInBounds (ramAfter (fun _ => 0) [.log fullText]) .get := by
  rw [get_inBounds_iff (ramAfter_holds (fun _ => 0) [.log fullText])]
  show ¬ ([] ++ List.replicate ramLogSize (0x78 : Byte)).length < ramLogSize
  rw [List.nil_append, List.length_replicate]
  exact Nat.lt_irrefl _

end VerifiedDice.CircularLog
