import VerifiedDice.Lib.CircularBuffer
import VerifiedDice.Memmap

/-!
# The circular logs

`log_ram.c` and `shared_mem_persistent.c` are one algorithm over two areas: a write
position, a size and the characters, packed at the start of a RAM bank, and a copy
that a reader gets. A C string is the list of its characters; the terminator ends
the list, and a NUL inside it ends the string earlier.
-/
namespace VerifiedDice.CircularLog

open ByteMemory

/-- An area for a log of `capacity` characters. -/
structure LogArea where
  base : Addr
  capacity : Nat
  capacity_pos : 0 < capacity
  fits : 8 + capacity < 2 ^ 31

def logWritePtr : Nat := 0
def logSize : Nat := 4
/-- Offset of the characters in the packed structure. -/
def log : Nat := 8

variable (A : LogArea) (m : Memory)

/-- `sizeof(ram->log)`. -/
def LogArea.maxLogSize : Word := BitVec.ofNat 32 A.capacity

def LogArea.writePtr : Word := loadWord m (at_ A.base logWritePtr)

def LogArea.size : Word := loadWord m (at_ A.base logSize)

/-- The bytes that the log occupies, header included. -/
def LogArea.Mem (x : Addr) : Prop := Within A.base (log + A.capacity) x

/-- Where the log and its terminator are put together for a reader. -/
structure LogCopy where
  addr : Addr
  apart : ∀ i, i < A.capacity + 1 → ¬ A.Mem (at_ addr i)

/-! ## Writing -/

/-- The body of the write loop for one character. -/
def logChar (c : Byte) : Memory :=
  let m := write m (at_ A.base (log + (A.writePtr m).toNat)) [c]
  let m := storeWord m (at_ A.base logWritePtr) (A.writePtr m + 1)
  let m := if A.maxLogSize ≤ A.writePtr m then storeWord m (at_ A.base logWritePtr) 0 else m
  if A.size m < A.maxLogSize then storeWord m (at_ A.base logSize) (A.size m + 1) else m

def logChars (m : Memory) : List Byte → Memory
  | [] => m
  | c :: str => if c = 0 then m else logChars (logChar A m c) str

def resetLog : Memory :=
  storeWord (storeWord m (at_ A.base logSize) 0) (at_ A.base logWritePtr) 0

def logTo (str : List Byte) : Memory :=
  let m := if A.maxLogSize ≤ A.writePtr m ∨ A.maxLogSize < A.size m then
    storeWord (storeWord m (at_ A.base logWritePtr) 0) (at_ A.base logSize) 0 else m
  logChars A m str

/-! ## Reading -/

/-- The contents in two parts in the right order. -/
def getLogParts : (Addr × Word) × (Addr × Word) :=
  if A.size m < A.maxLogSize then
    ((at_ A.base log, A.size m), (0, 0))
  else
    ((at_ A.base (log + (A.writePtr m).toNat), A.maxLogSize - A.writePtr m),
      (at_ A.base log, A.writePtr m))

variable {A} in
/-- The memory with the log put together, where it is, and its size with the terminator. -/
def getLog (copy : LogCopy A) (m : Memory) : Memory × Addr × Word :=
  let ((str1, size1), (str2, size2)) := getLogParts A m
  let m := if 0 < size1 then write m copy.addr (bytesAt m str1 size1.toNat) else m
  let m := if 0 < size2 then write m (at_ copy.addr size1.toNat) (bytesAt m str2 size2.toNat) else m
  let m := write m (at_ copy.addr (size1 + size2).toNat) [0]
  (m, copy.addr, size1 + size2 + 1)

/-! ## The two logs -/

def persistentLogSize : Nat := getPersistentRamSize - 4 - 4
def ramLogSize : Nat := (getLogRamSize - 4 - 4) / 2 - 1

def persistentLog : LogArea where
  base := getPersistentRamStart
  capacity := persistentLogSize
  capacity_pos := by decide
  fits := by decide

def ramLog : LogArea where
  base := getLogRamStart
  capacity := ramLogSize
  capacity_pos := by decide
  fits := by decide

/-- The static array `log_copy`. -/
def logCopy (array : DtcmObject (persistentLogSize + 1)) : LogCopy persistentLog where
  addr := array.addr
  apart := fun i hi hx => by
    have hd := array.inside i hi
    have h0 : dtcmStart = 0x20000000#32 := rfl
    have h1 : persistentLog.base = 0x38800000#32 := rfl
    have h2 : dtcmLength = 131072 := rfl
    have h3 : log + persistentLog.capacity = 4096 := rfl
    simp only [LogArea.Mem, Within, h0, h1, h2, h3] at hd hx
    bv_omega

/-- The field `reconstructed_log`, which follows the log in its area. -/
def reconstructedLog : LogCopy ramLog where
  addr := at_ getLogRamStart (log + ramLogSize)
  apart := fun i hi => by
    have h0 : ramLog.base = getLogRamStart := rfl
    have h1 : ramLog.capacity = ramLogSize := rfl
    have h2 : ramLogSize = 81915 := rfl
    have h3 : log = 8 := rfl
    rw [LogArea.Mem, h0, h1, at_at, within_at _ (by omega)]
    omega

/-- The last byte that a reader gets is still in the bank. -/
theorem reconstructedLog_fits : log + ramLogSize + (ramLogSize + 1) ≤ getLogRamSize := by decide

variable (array : DtcmObject (persistentLogSize + 1))

def cleanSharedPersistent : Memory := fill m getPersistentRamStart getPersistentRamSize 0
def logToPersistentMemory (str : List Byte) : Memory := logTo persistentLog m str
def getPersistentMemoryLog : Memory × Addr × Word := getLog (logCopy array) m
def resetPersistentMemoryLog : Memory := resetLog persistentLog m

def cleanLogRam : Memory := fill m getLogRamStart getLogRamSize 0
def logToMemory (str : List Byte) : Memory := logTo ramLog m str
def getMemoryLog : Memory × Addr × Word := getLog reconstructedLog m
def resetMemoryLog : Memory := resetLog ramLog m

/-! ## One character -/

/-- Position and size as the write loop needs them. -/
structure Valid : Prop where
  ptr : (A.writePtr m).toNat < A.capacity
  size : (A.size m).toNat ≤ A.capacity

theorem toNat_maxLogSize : A.maxLogSize.toNat = A.capacity := by
  have h := A.fits
  rw [LogArea.maxLogSize, BitVec.toNat_ofNat, Nat.mod_eq_of_lt (by omega)]

section Stores

variable {A m} (v : Word) (c : Byte) {i : Nat}

@[simp] theorem writePtr_storePtr :
    A.writePtr (storeWord m (at_ A.base logWritePtr) v) = v :=
  loadWord_storeWord m _ v (by decide)

@[simp] theorem size_storeSize : A.size (storeWord m (at_ A.base logSize) v) = v :=
  loadWord_storeWord m _ v (by decide)

@[simp] theorem writePtr_storeSize :
    A.writePtr (storeWord m (at_ A.base logSize) v) = A.writePtr m :=
  loadWord_write_apart (Or.inl (Nat.le_refl 4)) (by decide) (by rw [length_bytesOfWord]; decide)

@[simp] theorem size_storePtr :
    A.size (storeWord m (at_ A.base logWritePtr) v) = A.size m :=
  loadWord_write_apart (Or.inr (by rw [length_bytesOfWord]; decide)) (by decide)
    (by rw [length_bytesOfWord]; decide)

theorem writePtr_writeCell (hi : i < A.capacity) :
    A.writePtr (write m (at_ A.base (log + i)) [c]) = A.writePtr m := by
  have hfits := A.fits
  have hlog : log = 8 ∧ logWritePtr = 0 := ⟨rfl, rfl⟩
  exact loadWord_write_apart (by omega) (by omega) (by rw [List.length_singleton]; omega)

theorem size_writeCell (hi : i < A.capacity) :
    A.size (write m (at_ A.base (log + i)) [c]) = A.size m := by
  have hfits := A.fits
  have hlog : log = 8 ∧ logSize = 4 := ⟨rfl, rfl⟩
  exact loadWord_write_apart (by omega) (by omega) (by rw [List.length_singleton]; omega)

theorem cell_writeCell {j : Nat} (hi : i < A.capacity) (hj : j < A.capacity) :
    write m (at_ A.base (log + j)) [c] (at_ A.base (log + i)) =
      if i = j then c else m (at_ A.base (log + i)) := by
  have hfits := A.fits
  have hlog : log = 8 := rfl
  by_cases hij : i = j
  · rw [if_pos hij, hij]
    have h := write_at m (at_ A.base (log + j)) [c] (by decide : 0 < 1) (by decide)
    rwa [at_zero] at h
  · rw [if_neg hij]
    exact write_apart (by rw [List.length_singleton]; omega) (by omega)
      (by rw [List.length_singleton]; omega)

theorem outside_writeCell (hi : i < A.capacity) {x : Addr} (hx : ¬ A.Mem x) :
    write m (at_ A.base (log + i)) [c] x = m x := by
  have hfits := A.fits
  have hlog : log = 8 := rfl
  exact write_outside fun h => hx (within_sub_range (by rw [List.length_singleton]; omega)
    (by rw [List.length_singleton]; omega) h)

/-- No character and nothing outside the log differs. -/
structure SameCells (A : LogArea) (m m' : Memory) : Prop where
  cell : ∀ i, i < A.capacity → m' (at_ A.base (log + i)) = m (at_ A.base (log + i))
  outside : ∀ x, ¬ A.Mem x → m' x = m x

theorem SameCells.refl (A : LogArea) (m : Memory) : SameCells A m m :=
  ⟨fun _ _ => rfl, fun _ _ => rfl⟩

theorem SameCells.trans {m1 m2 m3 : Memory} (h : SameCells A m1 m2) (h' : SameCells A m2 m3) :
    SameCells A m1 m3 :=
  ⟨fun i hi => (h'.cell i hi).trans (h.cell i hi),
    fun x hx => (h'.outside x hx).trans (h.outside x hx)⟩

theorem sameCells_storeHeader {k : Nat} (hk : k ≤ logSize) :
    SameCells A m (storeWord m (at_ A.base k) v) := by
  have hfits := A.fits
  have hlog : log = 8 ∧ logSize = 4 := ⟨rfl, rfl⟩
  have hlen := length_bytesOfWord v
  refine ⟨fun i hi => write_apart (by omega) (by omega) (by omega), fun x hx => ?_⟩
  exact storeWord_outside fun h => hx (within_sub_range (by omega) (by omega) h)

end Stores

/-- What one character changes. -/
structure CharLogged (c : Byte) (m' : Memory) : Prop where
  ptr : (A.writePtr m').toNat =
    if A.capacity ≤ (A.writePtr m).toNat + 1 then 0 else (A.writePtr m).toNat + 1
  size : (A.size m').toNat =
    if (A.size m).toNat < A.capacity then (A.size m).toNat + 1 else (A.size m).toNat
  cell : ∀ i, i < A.capacity → m' (at_ A.base (log + i)) =
    if i = (A.writePtr m).toNat then c else m (at_ A.base (log + i))
  outside : ∀ x, ¬ A.Mem x → m' x = m x

/-- The memories between the four assignments of the loop body. -/
def stepCell (c : Byte) : Memory := write m (at_ A.base (log + (A.writePtr m).toNat)) [c]

def stepPtr : Memory := storeWord m (at_ A.base logWritePtr) (A.writePtr m + 1)

def stepWrap : Memory :=
  if A.maxLogSize ≤ A.writePtr m then storeWord m (at_ A.base logWritePtr) 0 else m

def stepSize : Memory :=
  if A.size m < A.maxLogSize then storeWord m (at_ A.base logSize) (A.size m + 1) else m

theorem logChar_eq (c : Byte) :
    logChar A m c = stepSize A (stepWrap A (stepPtr A (stepCell A m c))) := rfl

theorem toNat_succ {v : Word} (h : v.toNat ≤ A.capacity) : (v + 1).toNat = v.toNat + 1 := by
  have hfits := A.fits
  bv_omega

theorem stepPtr_spec : A.writePtr (stepPtr A m) = A.writePtr m + 1 ∧
    A.size (stepPtr A m) = A.size m ∧ SameCells A m (stepPtr A m) :=
  ⟨writePtr_storePtr _, size_storePtr _, sameCells_storeHeader _ (by decide)⟩

theorem stepWrap_spec :
    A.writePtr (stepWrap A m) = (if A.maxLogSize ≤ A.writePtr m then 0 else A.writePtr m) ∧
      A.size (stepWrap A m) = A.size m ∧ SameCells A m (stepWrap A m) := by
  unfold stepWrap
  split
  · exact ⟨writePtr_storePtr _, size_storePtr _, sameCells_storeHeader _ (by decide)⟩
  · exact ⟨rfl, rfl, SameCells.refl A m⟩

theorem stepSize_spec : A.writePtr (stepSize A m) = A.writePtr m ∧
    A.size (stepSize A m) = (if A.size m < A.maxLogSize then A.size m + 1 else A.size m) ∧
      SameCells A m (stepSize A m) := by
  unfold stepSize
  split
  · exact ⟨writePtr_storeSize _, size_storeSize _, sameCells_storeHeader _ (by decide)⟩
  · exact ⟨rfl, rfl, SameCells.refl A m⟩

theorem logChar_logged (c : Byte) (h : Valid A m) : CharLogged A m c (logChar A m c) := by
  have hmax := toNat_maxLogSize A
  have hp := h.ptr
  have hcellPtr : A.writePtr (stepCell A m c) = A.writePtr m := writePtr_writeCell c hp
  have hcellSize : A.size (stepCell A m c) = A.size m := size_writeCell c hp
  obtain ⟨hptr2, hsize2, hmem2⟩ := stepPtr_spec A (stepCell A m c)
  obtain ⟨hptr3, hsize3, hmem3⟩ := stepWrap_spec A (stepPtr A (stepCell A m c))
  obtain ⟨hptr4, hsize4, hmem4⟩ := stepSize_spec A (stepWrap A (stepPtr A (stepCell A m c)))
  have hmem := (hmem2.trans hmem3).trans hmem4
  rw [← logChar_eq] at *
  refine ⟨?_, ?_, fun i hi => ?_, fun x hx => ?_⟩
  · rw [hptr4, hptr3, hptr2, hcellPtr, apply_ite BitVec.toNat, toNat_succ A (Nat.le_of_lt hp)]
    simp only [BitVec.le_def, hmax, toNat_succ A (Nat.le_of_lt hp)]
    rfl
  · rw [hsize4, hsize3, hsize2, hcellSize, apply_ite BitVec.toNat, toNat_succ A h.size]
    simp only [BitVec.lt_def, hmax]
  · rw [hmem.cell i hi]
    exact cell_writeCell c hi hp
  · rw [hmem.outside x hx]
    exact outside_writeCell c hp hx

theorem CharLogged.valid {c : Byte} {m' : Memory} (h : CharLogged A m c m') (hv : Valid A m) :
    Valid A m' := by
  have hpos := A.capacity_pos
  have hp := hv.ptr
  have hs := hv.size
  refine ⟨?_, ?_⟩
  · rw [h.ptr]
    split <;> omega
  · rw [h.size]
    split <;> omega

/-! ## A whole string -/

/-- The area as an abstract buffer. -/
def ring : CircularBuffer Byte where
  ptr := (A.writePtr m).toNat
  size := (A.size m).toNat
  cell := fun i => m (at_ A.base (log + i))

/-- The area holds the end of the history `s`. -/
def Holds (s : List Byte) : Prop := (ring A m).Window A.capacity s

variable {A m} {s : List Byte}

theorem Holds.valid (h : Holds A m s) : Valid A m := by
  refine ⟨CircularBuffer.Window.ptr_lt A.capacity_pos h, ?_⟩
  have hsize : (A.size m).toNat = min s.length A.capacity := h.size
  omega

/-- The memory of one character refines one push. -/
theorem CharLogged.holds {c : Byte} {m' : Memory} (hl : CharLogged A m c m') (h : Holds A m s) :
    Holds A m' (s ++ [c]) :=
  (CircularBuffer.Window.push A.capacity_pos h c).congr A.capacity_pos hl.ptr hl.size hl.cell

theorem Holds.logChars (str : List Byte) : ∀ {m s}, Holds A m s → (∀ c ∈ str, c ≠ 0) →
    Holds A (logChars A m str) (s ++ str) := by
  induction str with
  | nil =>
    intro m s h _
    rwa [List.append_nil]
  | cons c str ih =>
    intro m s h hnul
    have hc : ¬ c = 0 := hnul c List.mem_cons_self
    have hstep := (logChar_logged A m c h.valid).holds h
    have hrest := ih hstep fun d hd => hnul d (List.mem_cons_of_mem c hd)
    rw [List.append_assoc] at hrest
    rw [CircularLog.logChars, if_neg hc]
    exact hrest

theorem not_invalid (h : Valid A m) :
    ¬ (A.maxLogSize ≤ A.writePtr m ∨ A.maxLogSize < A.size m) := by
  have hmax := toNat_maxLogSize A
  have hp := h.ptr
  have hs := h.size
  rw [BitVec.le_def, BitVec.lt_def]
  omega

theorem Holds.logTo (h : Holds A m s) {str : List Byte} (hnul : ∀ c ∈ str, c ≠ 0) :
    Holds A (logTo A m str) (s ++ str) := by
  rw [CircularLog.logTo, if_neg (not_invalid h.valid)]
  exact h.logChars str hnul

theorem holds_empty (hptr : A.writePtr m = 0) (hsize : A.size m = 0) : Holds A m [] := by
  refine CircularBuffer.Window.empty ?_ ?_
  · show (A.writePtr m).toNat = 0
    rw [hptr]
    rfl
  · show (A.size m).toNat = 0
    rw [hsize]
    rfl

theorem holds_resetLog (A : LogArea) (m : Memory) : Holds A (resetLog A m) [] :=
  holds_empty (writePtr_storePtr _) (by rw [resetLog, size_storePtr, size_storeSize])

/-! ## Frames

From any contents of the area, garbage included. -/

theorem valid_or_reset (A : LogArea) (m : Memory) :
    Valid A (if A.maxLogSize ≤ A.writePtr m ∨ A.maxLogSize < A.size m then
      storeWord (storeWord m (at_ A.base logWritePtr) 0) (at_ A.base logSize) 0 else m) := by
  have hmax := toNat_maxLogSize A
  have hpos := A.capacity_pos
  split
  · refine ⟨?_, ?_⟩
    · rw [writePtr_storeSize, writePtr_storePtr]
      exact hpos
    · rw [size_storeSize]
      exact Nat.zero_le _
  · rename_i hvalid
    rw [BitVec.le_def, BitVec.lt_def, hmax, not_or] at hvalid
    exact ⟨by omega, by omega⟩

theorem logChars_outside (str : List Byte) {x : Addr} (hx : ¬ A.Mem x) :
    ∀ {m}, Valid A m → logChars A m str x = m x := by
  induction str with
  | nil => exact fun _ => rfl
  | cons c str ih =>
    intro m hv
    rw [logChars]
    split
    · rfl
    · have hl := logChar_logged A m c hv
      rw [ih (hl.valid A m hv)]
      exact hl.outside x hx

theorem logTo_outside (A : LogArea) (m : Memory) (str : List Byte) {x : Addr} (hx : ¬ A.Mem x) :
    logTo A m str x = m x := by
  rw [logTo, logChars_outside str hx (valid_or_reset A m)]
  split
  · rw [(sameCells_storeHeader 0 (by decide)).outside x hx,
      (sameCells_storeHeader 0 (by decide)).outside x hx]
  · rfl

section Congr

variable {S : Addr → Prop} (hS : ∀ x, A.Mem x → S x) {m m' : Memory}

include hS in
theorem header_congr (h : AgreeOn S m m') {k : Nat} (hk : k ≤ logSize) :
    loadWord m' (at_ A.base k) = loadWord m (at_ A.base k) := by
  have hfits := A.fits
  have hlog : log = 8 ∧ logSize = 4 := ⟨rfl, rfl⟩
  refine h.loadWord fun i hi => hS _ ?_
  rw [at_at, LogArea.Mem, within_at _ (by omega)]
  omega

include hS in
theorem logChar_congr (h : AgreeOn S m m') (c : Byte) :
    AgreeOn S (logChar A m c) (logChar A m' c) := by
  have hword : ∀ {m m' : Memory}, AgreeOn S m m' →
      A.writePtr m' = A.writePtr m ∧ A.size m' = A.size m :=
    fun h => ⟨header_congr hS h (by decide), header_congr hS h (by decide)⟩
  have h1 : AgreeOn S (stepCell A m c) (stepCell A m' c) := by
    rw [stepCell, stepCell, (hword h).1]
    exact h.write _ _
  have h2 : AgreeOn S (stepPtr A (stepCell A m c)) (stepPtr A (stepCell A m' c)) := by
    rw [stepPtr, stepPtr, (hword h1).1]
    exact h1.write _ _
  have h3 : AgreeOn S (stepWrap A (stepPtr A (stepCell A m c)))
      (stepWrap A (stepPtr A (stepCell A m' c))) := by
    rw [stepWrap, stepWrap, (hword h2).1]
    split
    · exact h2.write _ _
    · exact h2
  rw [logChar_eq, logChar_eq, stepSize, stepSize, (hword h3).2]
  split
  · exact h3.write _ _
  · exact h3

include hS in
theorem logTo_congr (h : AgreeOn S m m') (str : List Byte) :
    AgreeOn S (logTo A m str) (logTo A m' str) := by
  have hchars : ∀ str : List Byte, ∀ {m m' : Memory}, AgreeOn S m m' →
      AgreeOn S (logChars A m str) (logChars A m' str) := by
    intro str
    induction str with
    | nil => exact fun h => h
    | cons c str ih =>
      intro m m' h
      rw [logChars, logChars]
      split
      · exact h
      · exact ih (logChar_congr hS h c)
  have hptr : A.writePtr m' = A.writePtr m := header_congr hS h (by decide)
  have hsize : A.size m' = A.size m := header_congr hS h (by decide)
  rw [logTo, logTo, hptr, hsize]
  split
  · exact hchars str ((h.write _ _).write _ _)
  · exact hchars str h

end Congr

/-! ## Reading it back -/

theorem contents_ring (h : Valid A m) :
    (ring A m).contents A.capacity =
      bytesAt m (getLogParts A m).1.1 (getLogParts A m).1.2.toNat ++
        bytesAt m (getLogParts A m).2.1 (getLogParts A m).2.2.toNat := by
  have hmax := toNat_maxLogSize A
  have hp := h.ptr
  have hlt : (ring A m).size < A.capacity ↔ A.size m < A.maxLogSize := by
    rw [BitVec.lt_def, hmax]
    rfl
  unfold CircularBuffer.contents getLogParts
  by_cases hfull : A.size m < A.maxLogSize
  · rw [if_pos hfull, if_pos (hlt.mpr hfull)]
    simp [bytesAt, ring, at_at]
  · rw [if_neg hfull, if_neg fun h' => hfull (hlt.mp h')]
    have hsub : (A.maxLogSize - A.writePtr m).toNat = A.capacity - (A.writePtr m).toNat := by
      rw [BitVec.toNat_sub_of_le (by rw [BitVec.le_def]; omega), hmax]
    simp only [hsub, bytesAt, ring, at_at, Nat.add_assoc]

theorem getLogParts_size (h : Valid A m) :
    (getLogParts A m).1.2.toNat + (getLogParts A m).2.2.toNat = (A.size m).toNat := by
  have hlen := congrArg List.length (contents_ring h)
  rw [CircularBuffer.length_contents _ (Nat.le_of_lt h.ptr) h.size, List.length_append,
    length_bytesAt, length_bytesAt] at hlen
  exact hlen.symm

/-- Both parts lie in the log. -/
theorem getLogParts_mem (h : Valid A m) {i : Nat} (hi : i < (getLogParts A m).2.2.toNat) :
    A.Mem (at_ (getLogParts A m).2.1 i) := by
  have hfits := A.fits
  have hp := h.ptr
  have hlog : log = 8 := rfl
  unfold getLogParts at hi ⊢
  split at hi
  · exact absurd hi (Nat.not_lt_zero i)
  · rename_i hfull
    rw [if_neg hfull]
    show Within A.base (log + A.capacity) (at_ (at_ A.base log) i)
    have hi' : i < (A.writePtr m).toNat := hi
    rw [at_at, within_at _ (by omega)]
    omega

theorem write_of_pos (a b : Addr) (size : Word) :
    (if 0 < size then write m a (bytesAt m b size.toNat) else m) =
      write m a (bytesAt m b size.toNat) := by
  by_cases hpos : 0 < size
  · rw [if_pos hpos]
  · have hzero : size.toNat = 0 := by
      rw [BitVec.lt_def] at hpos
      have h0 : (0 : Word).toNat = 0 := rfl
      omega
    rw [if_neg hpos, hzero]
    exact (write_nil m a).symm

/-- The copy is the contents of the area, then a terminator. -/
theorem getLog_eq (copy : LogCopy A) (h : Valid A m) :
    getLog copy m = (write m copy.addr ((ring A m).contents A.capacity ++ [0]), copy.addr,
      A.size m + 1) := by
  have hfits := A.fits
  have hsum := getLogParts_size h
  have hsize := h.size
  have hcontents := contents_ring h
  have hmem : ∀ i, i < (getLogParts A m).2.2.toNat → A.Mem (at_ (getLogParts A m).2.1 i) :=
    fun i hi => getLogParts_mem h hi
  unfold getLog
  generalize getLogParts A m = parts at *
  obtain ⟨⟨str1, size1⟩, ⟨str2, size2⟩⟩ := parts
  simp only at hsum hmem hcontents
  have hadd : size1 + size2 = A.size m := by
    apply BitVec.eq_of_toNat_eq
    rw [BitVec.toNat_add, Nat.mod_eq_of_lt (by omega)]
    exact hsum
  have hlen1 : (bytesAt m str1 size1.toNat).length = size1.toNat := length_bytesAt ..
  have hlen2 : (bytesAt m str2 size2.toNat).length = size2.toNat := length_bytesAt ..
  have hlen : (bytesAt m str1 size1.toNat ++ bytesAt m str2 size2.toNat).length =
      (size1 + size2).toNat := by
    rw [List.length_append, hlen1, hlen2, hadd]
    exact hsum
  -- the second part is not overwritten by the copy of the first
  have hsecond : bytesAt (write m copy.addr (bytesAt m str1 size1.toNat)) str2 size2.toNat =
      bytesAt m str2 size2.toNat := by
    apply bytesAt_write_outside
    intro i hi hx
    obtain ⟨j, hj, he⟩ := exists_at_of_within hx
    refine copy.apart j ?_ (he ▸ hmem i hi)
    omega
  have hwrite2 : write (write m copy.addr (bytesAt m str1 size1.toNat))
      (at_ copy.addr size1.toNat) (bytesAt m str2 size2.toNat) =
      write m copy.addr (bytesAt m str1 size1.toNat ++ bytesAt m str2 size2.toNat) := by
    have happ : write (write m copy.addr (bytesAt m str1 size1.toNat))
        (at_ copy.addr (bytesAt m str1 size1.toNat).length) (bytesAt m str2 size2.toNat) =
        write m copy.addr (bytesAt m str1 size1.toNat ++ bytesAt m str2 size2.toNat) :=
      write_append (by rw [hlen1, hlen2]; omega)
    rwa [hlen1] at happ
  have hwrite3 : write (write m copy.addr (bytesAt m str1 size1.toNat ++
      bytesAt m str2 size2.toNat)) (at_ copy.addr (size1 + size2).toNat) [0] =
      write m copy.addr (bytesAt m str1 size1.toNat ++ bytesAt m str2 size2.toNat ++ [0]) := by
    rw [← hlen]
    exact write_append (by rw [hlen, hadd, List.length_singleton]; omega)
  simp only [write_of_pos]
  rw [hsecond, hwrite2, hwrite3, hcontents, hadd]

/-- What a reader of an area gets, the memory after it, an address and a size: the end of the
history `s` with a terminator, and the area as it was. -/
structure IsWindow (A : LogArea) (m : Memory) (read : Memory × Addr × Word) (s : List Byte) :
    Prop where
  text : bytesAt read.1 read.2.1 read.2.2.toNat = s.rtake A.capacity ++ [0]
  size : read.2.2.toNat = min s.length A.capacity + 1
  kept : AgreeOn A.Mem m read.1

theorem Holds.isWindow (copy : LogCopy A) (h : Holds A m s) :
    IsWindow A m (CircularLog.getLog copy m) s := by
  have hfits := A.fits
  have hsize : (A.size m).toNat = min s.length A.capacity := h.size
  have hcontents : (ring A m).contents A.capacity = s.rtake A.capacity :=
    CircularBuffer.Window.contents A.capacity_pos h
  have hsucc : (A.size m + 1).toNat = min s.length A.capacity + 1 := by
    rw [toNat_succ A (by omega), hsize]
  have hlen : (s.rtake A.capacity ++ [0]).length = min s.length A.capacity + 1 := by
    rw [List.length_append, List.rtake, List.length_drop, List.length_singleton]
    omega
  have heq := getLog_eq copy h.valid
  rw [hcontents] at heq
  refine ⟨?_, ?_, fun x hx => ?_⟩
  · rw [heq]
    show bytesAt _ _ (A.size m + 1).toNat = _
    rw [hsucc, ← hlen]
    exact bytesAt_write_self m _ _ (by rw [hlen]; omega)
  · rw [heq]
    exact hsucc
  · rw [heq]
    apply write_outside
    intro hw
    obtain ⟨i, hi, rfl⟩ := exists_at_of_within hw
    rw [hlen] at hi
    exact copy.apart i (by omega) hx

theorem Holds.getLog (copy : LogCopy A) (h : Holds A m s) : Holds A (getLog copy m).1 s := by
  have hkept := (h.isWindow copy).kept
  have hfits := A.fits
  have hbounds : log = 8 ∧ logSize = 4 ∧ logWritePtr = 0 := ⟨rfl, rfl, rfl⟩
  have hword : ∀ k, k ≤ logSize → loadWord (CircularLog.getLog copy m).1 (at_ A.base k) =
      loadWord m (at_ A.base k) := by
    intro k hk
    apply hkept.loadWord
    intro i hi
    rw [at_at, LogArea.Mem, within_at _ (by omega)]
    omega
  refine CircularBuffer.Window.congr A.capacity_pos h (congrArg BitVec.toNat (hword _ (by omega)))
    (congrArg BitVec.toNat (hword _ (by omega))) fun i hi => ?_
  refine hkept _ ?_
  rw [LogArea.Mem, within_at _ (by omega)]
  omega

/-! ## Any sequence of calls -/

/-- A string without NUL inside. -/
def CString : Type := { s : List Byte // ∀ c ∈ s, c ≠ 0 }

inductive LogCall where
  | log (str : CString)
  | reset
  | get

def LogCall.apply {A : LogArea} (copy : LogCopy A) (m : Memory) : LogCall → Memory
  | .log str => logTo A m str.val
  | .reset => resetLog A m
  | .get => (CircularLog.getLog copy m).1

/-- The calls of `shared_mem_persistent.c`. -/
def LogCall.persistent (array : DtcmObject (persistentLogSize + 1)) (m : Memory) :
    LogCall → Memory
  | .log str => logToPersistentMemory m str.val
  | .reset => resetPersistentMemoryLog m
  | .get => (getPersistentMemoryLog m array).1

/-- The calls of `log_ram.c`. -/
def LogCall.ram (m : Memory) : LogCall → Memory
  | .log str => logToMemory m str.val
  | .reset => resetMemoryLog m
  | .get => (getMemoryLog m).1

theorem persistent_eq (array : DtcmObject (persistentLogSize + 1)) :
    LogCall.persistent array = LogCall.apply (logCopy array) := by
  funext m call
  cases call <;> rfl

theorem ram_eq : LogCall.ram = LogCall.apply reconstructedLog := by
  funext m call
  cases call <;> rfl

/-- Everything logged since the last reset. -/
def history (s : List Byte) : LogCall → List Byte
  | .log str => s ++ str.val
  | .reset => []
  | .get => s

theorem Holds.call (copy : LogCopy A) (h : Holds A m s) (call : LogCall) :
    Holds A (call.apply copy m) (history s call) := by
  cases call with
  | log str => exact h.logTo str.property
  | reset => exact holds_resetLog A m
  | get => exact h.getLog copy

theorem Holds.calls (copy : LogCopy A) (calls : List LogCall) : ∀ {m s}, Holds A m s →
    Holds A (calls.foldl (LogCall.apply copy) m) (calls.foldl history s) := by
  induction calls with
  | nil => exact fun h => h
  | cons call calls ih => exact fun h => ih (h.call copy call)

theorem holds_zeroed {size : Nat} (hsize : log + A.capacity ≤ size) :
    Holds A (fill m A.base size 0) [] := by
  have hcap := A.capacity_pos
  have hbounds : log = 8 ∧ logSize = 4 ∧ logWritePtr = 0 := ⟨rfl, rfl, rfl⟩
  have hzero : ∀ k, k ≤ logSize → loadWord (fill m A.base size 0) (at_ A.base k) = 0 := by
    intro k hk
    have hbytes : bytesAt (fill m A.base size 0) (at_ A.base k) 4 = bytesOfWord 0 := by
      apply List.ext_getElem (by simp)
      intro i hi _
      rw [length_bytesAt] at hi
      rw [getElem_bytesAt, at_at, fill_inside ((within_at _ (by omega)).mpr (by omega))]
      have hi' : i = 0 ∨ i = 1 ∨ i = 2 ∨ i = 3 := by omega
      rcases hi' with rfl | rfl | rfl | rfl <;> rfl
    rw [loadWord, hbytes, wordOfBytes_bytesOfWord]
  exact holds_empty (hzero _ (by omega)) (hzero _ (by omega))

def persistentAfter (array : DtcmObject (persistentLogSize + 1)) (m : Memory)
    (calls : List LogCall) : Memory :=
  calls.foldl (LogCall.persistent array) (cleanSharedPersistent m)

def ramAfter (m : Memory) (calls : List LogCall) : Memory :=
  calls.foldl LogCall.ram (cleanLogRam m)

/-- After any calls on a cleaned area, either log reads back as the end of what was
logged since the last reset; how the text was cut into calls does not matter. -/
theorem logs_are_windows (array : DtcmObject (persistentLogSize + 1)) (m : Memory)
    (calls : List LogCall) :
    IsWindow persistentLog (persistentAfter array m calls)
        (getPersistentMemoryLog (persistentAfter array m calls) array) (calls.foldl history []) ∧
      IsWindow ramLog (ramAfter m calls) (getMemoryLog (ramAfter m calls))
        (calls.foldl history []) := by
  have hp : Holds persistentLog (cleanSharedPersistent m) [] :=
    holds_zeroed (by decide)
  have hr : Holds ramLog (cleanLogRam m) [] := holds_zeroed (by decide)
  rw [persistentAfter, ramAfter, persistent_eq, ram_eq]
  exact ⟨(hp.calls (logCopy array) calls).isWindow _, (hr.calls reconstructedLog calls).isWindow _⟩

end VerifiedDice.CircularLog
