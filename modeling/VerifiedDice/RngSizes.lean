import VerifiedDice.Rng
import Mathlib.Data.Nat.Find

/-!
# Random bytes of any size

`HW_RNG_Rand` for every size. The words before the last one are stored whole, the last
one byte by byte while `size--` is positive; a size that reaches zero before the last
byte wraps, and the test after it succeeds again.
-/
namespace VerifiedDice

open ByteMemory

/-! ## The bytes of the generator -/

/-- The words a call draws for `size` bytes. -/
def wordsFor (size : Word) : Nat := (size.toNat + 3) / 4

/-- Byte `i` of the generator, the least significant byte of a word first. -/
def randByte (rng : Nat → Option Word) (i : Nat) : Byte :=
  ((rng (i / 4)).getD 0).extractLsb' (8 * (i % 4)) 8

def randBytes (rng : Nat → Option Word) (n : Nat) : List Byte :=
  (List.range n).map (randByte rng)

@[simp] theorem length_randBytes (rng : Nat → Option Word) (n : Nat) :
    (randBytes rng n).length = n := by simp [randBytes]

theorem randBytes_add (rng : Nat → Option Word) (n k : Nat) :
    randBytes rng (n + k) =
      randBytes rng n ++ (List.range k).map fun i => randByte rng (n + i) := by
  simp only [randBytes, List.range_add, List.map_append, List.map_map]
  rfl

/-- The four bytes of word `k`. -/
theorem bytesOfWord_drawn {rng : Nat → Option Word} {k : Nat} {num : Word}
    (h : rng k = some num) : bytesOfWord num = [randByte rng (4 * k), randByte rng (4 * k + 1),
      randByte rng (4 * k + 2), randByte rng (4 * k + 3)] := by
  have hbyte : ∀ j, j < 4 → randByte rng (4 * k + j) = num.extractLsb' (8 * j) 8 := by
    intro j hj
    have hdiv : (4 * k + j) / 4 = k := by omega
    have hmod : (4 * k + j) % 4 = j := by omega
    rw [randByte, hdiv, hmod, h, Option.getD_some]
  have hzero := hbyte 0 (by decide)
  rw [Nat.add_zero] at hzero
  rw [hzero, hbyte 1 (by decide), hbyte 2 (by decide), hbyte 3 (by decide)]
  rfl

/-! ## States on the way -/

/-- After `n` bytes at `buffer`, `k` words and `s` steps. -/
def World.drawn (w : World) (buffer : Addr) (n k s : Nat) : World := { w with
  mem := write w.mem buffer (randBytes w.rng n)
  written := fun x => w.written x || decide (Within buffer n x)
  rng := fun i => w.rng (i + k)
  power := w.power - s }

section Drawn

variable {w : World} {buffer : Addr} {n k s : Nat}

theorem drawn_start (w : World) (buffer : Addr) : w.drawn buffer 0 0 0 = w := by
  have hmem : write w.mem buffer (randBytes w.rng 0) = w.mem := write_nil _ _
  have hwritten : (fun x => w.written x || decide (Within buffer 0 x)) = w.written := by
    funext x
    have hnot : ¬ Within buffer 0 x := Nat.not_lt_zero _
    rw [decide_eq_false hnot, Bool.or_false]
  rw [World.drawn, hmem, hwritten]
  rfl

theorem drawn_outside {x : Addr} (h : ¬ Within buffer n x) :
    (w.drawn buffer n k s).mem x = w.mem x ∧ (w.drawn buffer n k s).written x = w.written x := by
  constructor
  · apply write_outside
    rw [length_randBytes]
    exact h
  · show (w.written x || decide (Within buffer n x)) = w.written x
    rw [decide_eq_false h, Bool.or_false]

theorem drawn_at {i : Nat} (hi : i < n) (hw : n ≤ 2 ^ 32) :
    (w.drawn buffer n k s).mem (at_ buffer i) = randByte w.rng i := by
  have hlen : i < (randBytes w.rng n).length := by
    rw [length_randBytes]
    exact hi
  show write w.mem buffer (randBytes w.rng n) (at_ buffer i) = randByte w.rng i
  rw [write_at _ _ _ hlen (by omega)]
  simp [randBytes]

theorem drawn_word (buffer : Addr) (hs : s < w.power) :
    halRngGenerateRandomNumber (w.drawn buffer n k s) =
      (some (w.rng k), w.drawn buffer n (k + 1) (s + 1)) := by
  have hpower : 0 < (w.drawn buffer n k s).power := Nat.sub_pos_of_lt hs
  have hrng : (fun i => w.rng (i + 1 + k)) = fun i => w.rng (i + (k + 1)) := by
    funext i
    rw [Nat.add_assoc, Nat.add_comm 1 k]
  have hspent : w.power - s - 1 = w.power - (s + 1) := by omega
  rw [halRngGenerateRandomNumber, step_run hpower]
  simp only [World.drawn, World.spend, Nat.zero_add, hrng, hspent]

/-- The next `j` bytes go right behind those that are there. -/
theorem drawn_store (buffer : Addr) (j : Nat) (hs : s < w.power) (hw : n + j ≤ 2 ^ 32) :
    store (at_ buffer n) ((List.range j).map fun i => randByte w.rng (n + i))
      (w.drawn buffer n k s) = (some (), w.drawn buffer (n + j) k (s + 1)) := by
  have hpower : 0 < (w.drawn buffer n k s).power := Nat.sub_pos_of_lt hs
  have hmem : write (write w.mem buffer (randBytes w.rng n)) (at_ buffer (randBytes w.rng n).length)
      ((List.range j).map fun i => randByte w.rng (n + i)) = write w.mem buffer _ :=
    write_append (by simpa using hw)
  rw [length_randBytes, ← randBytes_add] at hmem
  have hwritten : (fun x => w.written x || decide (Within buffer n x) ||
      decide (Within (at_ buffer n) j x)) =
        fun x => w.written x || decide (Within buffer (n + j) x) := by
    funext x
    rw [Bool.or_assoc, ← Bool.decide_or]
    congr 1
    exact decide_eq_decide.mpr (within_append hw).symm
  have hspent : w.power - s - 1 = w.power - (s + 1) := by omega
  rw [store, step_run hpower]
  simp only [World.drawn, World.spend, List.length_map, List.length_range, hmem, hwritten, hspent]

theorem putByte_more {size : Word} (hsize : 0 < size) (hs : s < w.power) (hw : n + 1 ≤ 2 ^ 32) :
    putByte (at_ buffer n, size) (randByte w.rng n) (w.drawn buffer n k s) =
      (some (at_ buffer (n + 1), size - 1), w.drawn buffer (n + 1) k (s + 1)) := by
  have hstore := drawn_store buffer (k := k) 1 hs hw
  have hnext : at_ buffer n + 1 = at_ buffer (n + 1) := at_add_word buffer 1 n
  rw [putByte, if_pos hsize, ← hnext]
  exact Cut.bind_some hstore

end Drawn

/-- At zero nothing is stored, and the size wraps. -/
theorem putByte_wraps (a : Addr) (b : Byte) (w : World) :
    putByte (a, 0) b w = (some (a, -1), w) := rfl

/-- After a store. -/
def World.stored (w : World) (a : Addr) (bs : List Byte) : World := { w.spend with
  mem := write w.mem a bs
  written := fun x => w.written x || decide (Within a bs.length x) }

/-- A byte stored wherever the buffer has got to. -/
theorem putByte_marks (size : Word) (hsize : 0 < size) {a : Addr} (b : Byte) {w : World}
    (hpower : 0 < w.power) : ∃ w', putByte (a, size) b w = (some (a + 1, size - 1), w') ∧
      w'.written a = true ∧ w'.power + 1 = w.power ∧
      ∀ x, w.written x = true → w'.written x = true := by
  have hself : Within a 1 a := by
    rw [Within, BitVec.sub_self]
    exact Nat.zero_lt_one
  have hstore : store a [b] w = (some (), w.stored a [b]) := step_run hpower
  refine ⟨w.stored a [b], ?_, ?_, ?_, ?_⟩
  · rw [putByte, if_pos hsize]
    exact Cut.bind_some hstore
  · show (w.written a || decide (Within a 1 a)) = true
    rw [decide_eq_true hself, Bool.or_true]
  · exact Nat.sub_add_cancel hpower
  · intro x hx
    show (w.written x || decide (Within a 1 x)) = true
    rw [hx, Bool.true_or]

/-! ## The loop -/

section Loop

variable {w : World} {buffer : Addr}

theorem four_lt_ofNat {m : Nat} (hm : 4 < m) (hw : m < 2 ^ 32) :
    (4 : Word) < BitVec.ofNat 32 m := by
  rw [BitVec.lt_def, BitVec.toNat_ofNat, Nat.mod_eq_of_lt hw]
  exact hm

theorem ofNat_four (m : Nat) : BitVec.ofNat 32 (m + 4) - 4 = BitVec.ofNat 32 m := by
  rw [BitVec.ofNat_add]
  exact BitVec.add_sub_cancel _ _

/-- A round that gets its word. -/
theorem hwRngLoop_word {k fuel m : Nat} {num : Word} (hnum : w.rng k = some num) (hm : 0 < m)
    (hw : 4 * k + (m + 4) < 2 ^ 32) (hpower : 2 * (k + 1) ≤ w.power) :
    hwRngLoop (fuel + 1) (at_ buffer (4 * k)) (BitVec.ofNat 32 (m + 4))
        (w.drawn buffer (4 * k) k (2 * k)) =
      hwRngLoop fuel (at_ buffer (4 * (k + 1))) (BitVec.ofNat 32 m)
        (w.drawn buffer (4 * (k + 1)) (k + 1) (2 * (k + 1))) := by
  have hmore := four_lt_ofNat (by omega : 4 < m + 4) (by omega)
  have hword := drawn_word buffer (w := w) (n := 4 * k) (k := k) (s := 2 * k) (by omega)
  rw [hnum] at hword
  have hstore := drawn_store buffer (w := w) (n := 4 * k) (k := k + 1) (s := 2 * k + 1)
    4 (by omega) (by omega)
  have hbytes : ((List.range 4).map fun i => randByte w.rng (4 * k + i)) = bytesOfWord num :=
    (bytesOfWord_drawn hnum).symm
  rw [hbytes] at hstore
  have hnext : at_ buffer (4 * k) + 4 = at_ buffer (4 * (k + 1)) := at_add_word buffer 4 (4 * k)
  rw [hwRngLoop, if_pos hmore, Cut.bind_some hword]
  refine (Cut.bind_some hstore).trans ?_
  rw [hnext, ofNat_four]
  rfl

/-- A round that does not. -/
theorem hwRngLoop_failed {k fuel m : Nat} (hnum : w.rng k = none) (hm : 4 < m) (hw : m < 2 ^ 32)
    (hpower : 2 * k < w.power) :
    hwRngLoop (fuel + 1) (at_ buffer (4 * k)) (BitVec.ofNat 32 m)
        (w.drawn buffer (4 * k) k (2 * k)) =
      (some none, w.drawn buffer (4 * k) (k + 1) (2 * k + 1)) := by
  have hword := drawn_word buffer (w := w) (n := 4 * k) (k := k) hpower
  rw [hnum] at hword
  rw [hwRngLoop, if_pos (four_lt_ofNat hm hw), Cut.bind_some hword]
  rfl

/-- By induction on the rounds: as long as there are words, each goes to its place. -/
theorem hwRngLoop_rounds (buffer : Addr) (j : Nat) :
    ∀ m fuel, 0 < m → 4 * j + m < 2 ^ 32 → 2 * j ≤ w.power →
    (∀ i, i < j → (w.rng i).isSome) →
    hwRngLoop (fuel + j) buffer (BitVec.ofNat 32 (4 * j + m)) w =
      hwRngLoop fuel (at_ buffer (4 * j)) (BitVec.ofNat 32 m)
        (w.drawn buffer (4 * j) j (2 * j)) := by
  induction j with
  | zero =>
    intro m fuel _ _ _ _
    rw [Nat.mul_zero, Nat.zero_add, at_zero, drawn_start]
    rfl
  | succ j ih =>
    intro m fuel hm hw hpower hwords
    obtain ⟨num, hnum⟩ := Option.isSome_iff_exists.mp (hwords j (Nat.lt_succ_self j))
    have hsize : 4 * (j + 1) + m = 4 * j + (m + 4) := by omega
    have hfuel : fuel + (j + 1) = fuel + 1 + j := by omega
    rw [hsize, hfuel, ih (m + 4) (fuel + 1) (by omega) (by omega) (by omega)
      fun i hi => hwords i (Nat.lt_succ_of_lt hi)]
    exact hwRngLoop_word hnum hm (by omega) hpower

/-- The loop is over when four bytes or fewer are left. -/
theorem hwRngLoop_done {fuel m : Nat} (hm : m ≤ 4) (a : Addr) (w : World) :
    hwRngLoop (fuel + 1) a (BitVec.ofNat 32 m) w = (some (some (a, BitVec.ofNat 32 m)), w) := by
  have hdone : ¬ (4 : Word) < BitVec.ofNat 32 m := by
    rw [BitVec.lt_def, BitVec.toNat_ofNat, Nat.mod_eq_of_lt (by omega)]
    exact Nat.not_lt_of_le hm
  rw [hwRngLoop, if_neg hdone]
  rfl

end Loop

/-! ## A whole call -/

section Call

variable {w w' : World} {buffer : Addr} {size : Word}

/-- The words before the last one and what is left for it. -/
theorem wordsFor_split (h : 0 < size.toNat) : ∃ n rest, 0 < rest ∧ rest ≤ 4 ∧
    size.toNat = 4 * n + rest ∧ wordsFor size = n + 1 ∧ size = BitVec.ofNat 32 (4 * n + rest) := by
  refine ⟨(size.toNat - 1) / 4, (size.toNat - 1) % 4 + 1, by omega, by omega, by omega, ?_, ?_⟩
  · rw [wordsFor]
    omega
  · have hsize : 4 * ((size.toNat - 1) / 4) + ((size.toNat - 1) % 4 + 1) = size.toNat := by omega
    rw [hsize, BitVec.ofNat_toNat, BitVec.setWidth_eq]

/-- The part of `HW_RNG_Rand` behind the loop. -/
def hwRngTail (at' : Addr × Word) : Cut World Word :=
  if 0 < at'.2 then do
    let num ← halRngGenerateRandomNumber
    match num with
    | none => pure (-1)
    | some num => do
      let _ ← (bytesOfWord num).foldlM putByte at'
      pure 0
  else pure 0

theorem hwRngRand_loop (h : hwRngLoop (size.toNat / 4 + 1) buffer size w = (some none, w')) :
    hwRngRand buffer size w = (some (-1), w') := by
  rw [hwRngRand, Cut.bind_some h]
  rfl

theorem hwRngRand_tail {at' : Addr × Word}
    (h : hwRngLoop (size.toNat / 4 + 1) buffer size w = (some (some at'), w')) :
    hwRngRand buffer size w = hwRngTail at' w' := by
  rw [hwRngRand, Cut.bind_some h]
  rfl

/-- Word `k` is the first that is missing. -/
theorem hwRngRand_failed (buffer : Addr) {k : Nat} (hk : k < wordsFor size)
    (hwords : ∀ i, i < k → (w.rng i).isSome)
    (hnone : w.rng k = none) (hpower : 2 * wordsFor size + 3 ≤ w.power) :
    hwRngRand buffer size w = (some (-1), w.drawn buffer (4 * k) (k + 1) (2 * k + 1)) := by
  have hpos : 0 < size.toNat := by
    rw [wordsFor] at hk
    omega
  have hlt := size.isLt
  obtain ⟨n, rest, hrest, hle, hsize, hcount, hof⟩ := wordsFor_split hpos
  rw [hcount] at hk hpower
  have hfuel : size.toNat / 4 + 1 = (size.toNat / 4 - k) + 1 + k := by omega
  have hbytes : 4 * n + rest = 4 * k + (4 * (n - k) + rest) := by omega
  have hrounds := hwRngLoop_rounds (w := w) buffer k (4 * (n - k) + rest)
    (size.toNat / 4 - k + 1) (by omega) (by omega) (by omega) hwords
  rw [← hfuel, ← hbytes, ← hof] at hrounds
  by_cases hlast : k = n
  · subst hlast
    rw [Nat.sub_self, Nat.mul_zero, Nat.zero_add, hwRngLoop_done hle] at hrounds
    have hword := drawn_word buffer (w := w) (n := 4 * k) (k := k) (s := 2 * k)
      (by omega)
    rw [hnone] at hword
    have hmore : (0 : Word) < BitVec.ofNat 32 rest := by
      rw [BitVec.lt_def, BitVec.toNat_ofNat, Nat.mod_eq_of_lt (by omega)]
      exact hrest
    rw [hwRngRand_tail hrounds, hwRngTail, if_pos hmore, Cut.bind_some hword]
    rfl
  · rw [hwRngLoop_failed hnone (by omega) (by omega) (by omega)] at hrounds
    exact hwRngRand_loop hrounds

/-- With all words the call reaches its tail with the last one to come. -/
theorem hwRngRand_words {n rest : Nat} (hrest : 0 < rest) (hle : rest ≤ 4)
    (hsize : size.toNat = 4 * n + rest) (hwords : ∀ i, i < n → (w.rng i).isSome) {num : Word}
    (hnum : w.rng n = some num) (hpower : 2 * (n + 1) + 3 ≤ w.power) :
    hwRngRand buffer size w = (do
      let _ ← (bytesOfWord num).foldlM putByte (at_ buffer (4 * n), BitVec.ofNat 32 rest)
      pure 0 : Cut World Word) (w.drawn buffer (4 * n) (n + 1) (2 * n + 1)) := by
  have hlt := size.isLt
  have hof : size = BitVec.ofNat 32 (4 * n + rest) := by
    rw [← hsize, BitVec.ofNat_toNat, BitVec.setWidth_eq]
  have hfuel : size.toNat / 4 + 1 = (size.toNat / 4 - n) + 1 + n := by omega
  have hrounds := hwRngLoop_rounds (w := w) buffer n rest (size.toNat / 4 - n + 1)
    hrest (by omega) (by omega) hwords
  rw [← hfuel, ← hof, hwRngLoop_done hle] at hrounds
  have hword := drawn_word buffer (w := w) (n := 4 * n) (k := n) (s := 2 * n) (by omega)
  rw [hnum] at hword
  have hmore : (0 : Word) < BitVec.ofNat 32 rest := by
    rw [BitVec.lt_def, BitVec.toNat_ofNat, Nat.mod_eq_of_lt (by omega)]
    exact hrest
  rw [hwRngRand_tail hrounds, hwRngTail, if_pos hmore, Cut.bind_some hword]

/-- Three or four bytes: they are the ones stored. -/
theorem hwRngRand_whole (buffer : Addr) {n rest : Nat} (hrest : rest = 3 ∨ rest = 4)
    (hsize : size.toNat = 4 * n + rest) (hwords : ∀ i, i < n + 1 → (w.rng i).isSome)
    (hpower : 2 * (n + 1) + 3 ≤ w.power) :
    ∃ s, hwRngRand buffer size w = (some 0, w.drawn buffer size.toNat (n + 1) s) := by
  have hlt := size.isLt
  obtain ⟨num, hnum⟩ := Option.isSome_iff_exists.mp (hwords n (Nat.lt_succ_self n))
  have hput : ∀ j size, 0 < size → j < rest →
      putByte (at_ buffer (4 * n + j), size) (randByte w.rng (4 * n + j))
        (w.drawn buffer (4 * n + j) (n + 1) (2 * n + 1 + j)) =
      (some (at_ buffer (4 * n + (j + 1)), size - 1),
        w.drawn buffer (4 * n + (j + 1)) (n + 1) (2 * n + 1 + (j + 1))) :=
    fun j size hpos hj => putByte_more hpos (by omega) (by omega)
  rw [hwRngRand_words (by omega) (by omega) hsize
    (fun i hi => hwords i (Nat.lt_succ_of_lt hi)) hnum hpower, bytesOfWord_drawn hnum]
  simp only [List.foldlM_cons, List.foldlM_nil]
  cases hrest with
  | inl h =>
    subst h
    refine ⟨2 * n + 4, ?_⟩
    rw [hsize]
    refine Cut.bind_some (a := (at_ buffer (4 * n + 3), -1)) ?_
    apply (Cut.bind_some (hput 0 3 (by decide) (by decide))).trans
    apply (Cut.bind_some (hput 1 2 (by decide) (by decide))).trans
    apply (Cut.bind_some (hput 2 1 (by decide) (by decide))).trans
    exact Cut.bind_some (putByte_wraps _ _ _)
  | inr h =>
    subst h
    refine ⟨2 * n + 5, ?_⟩
    rw [hsize]
    refine Cut.bind_some (a := (at_ buffer (4 * n + 4), 0)) ?_
    apply (Cut.bind_some (hput 0 4 (by decide) (by decide))).trans
    apply (Cut.bind_some (hput 1 3 (by decide) (by decide))).trans
    apply (Cut.bind_some (hput 2 2 (by decide) (by decide))).trans
    exact Cut.bind_some (hput 3 1 (by decide) (by decide))

/-- One or two bytes: the size has wrapped by the fourth byte, or by the third, and the bytes
behind the buffer are written. -/
theorem hwRngRand_overrun (buffer : Addr) {n rest : Nat} (hrest : rest = 1 ∨ rest = 2)
    (hsize : size.toNat = 4 * n + rest) (hwords : ∀ i, i < n + 1 → (w.rng i).isSome)
    (hpower : 2 * (n + 1) + 3 ≤ w.power) :
    ∃ r w', hwRngRand buffer size w = (r, w') ∧ w'.written (at_ buffer size.toNat) = true := by
  have hlt := size.isLt
  obtain ⟨num, hnum⟩ := Option.isSome_iff_exists.mp (hwords n (Nat.lt_succ_self n))
  have hput : ∀ j size, 0 < size → j < rest →
      putByte (at_ buffer (4 * n + j), size) (randByte w.rng (4 * n + j))
        (w.drawn buffer (4 * n + j) (n + 1) (2 * n + 1 + j)) =
      (some (at_ buffer (4 * n + (j + 1)), size - 1),
        w.drawn buffer (4 * n + (j + 1)) (n + 1) (2 * n + 1 + (j + 1))) :=
    fun j size hpos hj => putByte_more hpos (by omega) (by omega)
  have hleft : ∀ j, j < 3 → 0 < (w.drawn buffer (4 * n + j) (n + 1) (2 * n + 1 + j)).power := by
    intro j hj
    show 0 < w.power - (2 * n + 1 + j)
    omega
  rw [hwRngRand_words (by omega) (by omega) hsize
    (fun i hi => hwords i (Nat.lt_succ_of_lt hi)) hnum hpower, bytesOfWord_drawn hnum]
  simp only [List.foldlM_cons, List.foldlM_nil]
  cases hrest with
  | inl h =>
    subst h
    rw [hsize]
    obtain ⟨w3, hrun3, hmark, hpower3, _⟩ := putByte_marks (-1) (by decide)
      (a := at_ buffer (4 * n + 1)) (randByte w.rng (4 * n + 2)) (hleft 1 (by decide))
    have hspent : w3.power + 1 = w.power - (2 * n + 1 + 1) := hpower3
    obtain ⟨w4, hrun4, _, _, hkept⟩ := putByte_marks (-1 - 1) (by decide)
      (a := at_ buffer (4 * n + 1) + 1) (randByte w.rng (4 * n + 3)) (by omega : 0 < w3.power)
    refine ⟨_, w4, Cut.bind_some (a := (at_ buffer (4 * n + 1) + 1 + 1, -1 - 1 - 1)) ?_,
      hkept _ hmark⟩
    apply (Cut.bind_some (hput 0 1 (by decide) (by decide))).trans
    apply (Cut.bind_some (putByte_wraps _ _ _)).trans
    apply (Cut.bind_some hrun3).trans
    exact Cut.bind_some hrun4
  | inr h =>
    subst h
    rw [hsize]
    obtain ⟨w4, hrun4, hmark, _, _⟩ := putByte_marks (-1) (by decide)
      (a := at_ buffer (4 * n + 2)) (randByte w.rng (4 * n + 3)) (hleft 2 (by decide))
    refine ⟨_, w4, Cut.bind_some (a := (at_ buffer (4 * n + 2) + 1, -1 - 1)) ?_, hmark⟩
    apply (Cut.bind_some (hput 0 2 (by decide) (by decide))).trans
    apply (Cut.bind_some (hput 1 1 (by decide) (by decide))).trans
    apply (Cut.bind_some (putByte_wraps _ _ _)).trans
    exact Cut.bind_some hrun4

/-- The first word that is missing, if one is. -/
theorem exists_first_missing {n : Nat} (h : ∃ i, i < n ∧ w.rng i = none) :
    ∃ k, k < n ∧ (∀ i, i < k → (w.rng i).isSome) ∧ w.rng k = none := by
  classical
  obtain ⟨hlt, hnone⟩ := Nat.find_spec h
  refine ⟨Nat.find h, hlt, ?_, hnone⟩
  intro i hi
  have hnot := Nat.find_min h hi
  cases hrng : w.rng i with
  | none => exact absurd ⟨by omega, hrng⟩ hnot
  | some num => rfl

end Call

/-! ## Which sizes are filled exactly -/

/-- The buffer gets the bytes of the generator and nothing behind it is written; after a word that
is missing, nothing but the words before it. -/
structure FillsExactly (buffer : Addr) (size : Word) (w : World) (r : Option Word) (w' : World) :
    Prop where
  whole : (∀ i, i < wordsFor size → (w.rng i).isSome) → r = some 0 ∧
    (w'.rng = fun i => w.rng (i + wordsFor size)) ∧
    ∀ i, i < size.toNat → w'.mem (at_ buffer i) = randByte w.rng i
  failed : ∀ k, k < wordsFor size → (∀ i, i < k → (w.rng i).isSome) → w.rng k = none →
    r = some (-1) ∧
    ∀ x, ¬ Within buffer (4 * k) x → w'.mem x = w.mem x ∧ w'.written x = w.written x
  inside : ∀ x, ¬ Within buffer size.toNat x → w'.mem x = w.mem x ∧ w'.written x = w.written x

section Exact

variable {w : World} {buffer : Addr} {size : Word}

theorem fillsExactly_of_failed {k : Nat} (hk : k < wordsFor size)
    (hwords : ∀ i, i < k → (w.rng i).isSome) (hnone : w.rng k = none) :
    FillsExactly buffer size w (some (-1)) (w.drawn buffer (4 * k) (k + 1) (2 * k + 1)) := by
  have hsize : 4 * k ≤ size.toNat := by
    rw [wordsFor] at hk
    omega
  refine ⟨?_, ?_, ?_⟩
  · intro hall
    have hsome := hall k hk
    rw [hnone] at hsome
    cases hsome
  · intro j hj hprev hnone'
    have hjk : j = k := by
      rcases Nat.lt_trichotomy j k with h | h | h
      · have hsome := hwords j h
        rw [hnone'] at hsome
        cases hsome
      · exact h
      · have hsome := hprev k h
        rw [hnone] at hsome
        cases hsome
    subst hjk
    exact ⟨rfl, fun x hx => drawn_outside hx⟩
  · intro x hx
    exact drawn_outside fun hin => hx (Nat.lt_of_lt_of_le hin hsize)

theorem fillsExactly_of_whole {s : Nat} (hwords : ∀ i, i < wordsFor size → (w.rng i).isSome) :
    FillsExactly buffer size w (some 0) (w.drawn buffer size.toNat (wordsFor size) s) := by
  refine ⟨?_, ?_, ?_⟩
  · intro _
    refine ⟨rfl, rfl, ?_⟩
    intro i hi
    exact drawn_at hi (Nat.le_of_lt size.isLt)
  · intro k hk _ hnone
    have hsome := hwords k hk
    rw [hnone] at hsome
    cases hsome
  · intro x hx
    exact drawn_outside hx

end Exact

/-- A call with power for all its steps, by a record of the addresses that it writes: the buffer is
filled exactly if the last word has three or four bytes to give, or is not reached. -/
theorem hwRngRand_fillsExactly_iff (buffer : Addr) (size : Word) (w : World)
    (hpower : 2 * wordsFor size + 3 ≤ w.power) (hrecord : ∀ x, w.written x = false) :
    Cut.Sat (hwRngRand buffer size) w (FillsExactly buffer size w) ↔
      size.toNat % 4 = 0 ∨ size.toNat % 4 = 3 ∨ ∃ i, i < wordsFor size ∧ w.rng i = none := by
  by_cases hmissing : ∃ i, i < wordsFor size ∧ w.rng i = none
  · obtain ⟨k, hk, hwords, hnone⟩ := exists_first_missing hmissing
    have hrun := hwRngRand_failed buffer hk hwords hnone hpower
    exact ⟨fun _ => Or.inr (Or.inr hmissing),
      fun _ => Cut.Sat.of_eq hrun (fillsExactly_of_failed hk hwords hnone)⟩
  have hwords : ∀ i, i < wordsFor size → (w.rng i).isSome := by
    intro i hi
    cases hrng : w.rng i with
    | none => exact absurd ⟨i, hi, hrng⟩ hmissing
    | some num => rfl
  by_cases hzero : size.toNat = 0
  · have hsize : size = 0 := BitVec.eq_of_toNat_eq hzero
    subst hsize
    have hfills : FillsExactly buffer 0 w (some 0) (w.drawn buffer 0 0 0) :=
      fillsExactly_of_whole hwords
    rw [drawn_start] at hfills
    have hrun : hwRngRand buffer 0 w = (some 0, w) := rfl
    exact ⟨fun _ => Or.inl rfl, fun _ => Cut.Sat.of_eq hrun hfills⟩
  obtain ⟨n, rest, hrest, hle, hsize, hcount, _⟩ := wordsFor_split (Nat.pos_of_ne_zero hzero)
  rw [hcount] at hpower
  have hwords' := hwords
  rw [hcount] at hwords'
  by_cases hexact : rest = 3 ∨ rest = 4
  · obtain ⟨s, hrun⟩ := hwRngRand_whole buffer hexact hsize hwords' hpower
    rw [← hcount] at hrun
    refine ⟨fun _ => ?_, fun _ => Cut.Sat.of_eq hrun (fillsExactly_of_whole hwords)⟩
    omega
  · obtain ⟨r, w', hrun, hwritten⟩ := hwRngRand_overrun buffer
      (by omega : rest = 1 ∨ rest = 2) hsize hwords' hpower
    constructor
    · intro hsat
      have hout : ¬ Within buffer size.toNat (at_ buffer size.toNat) := by
        rw [within_at _ size.isLt]
        exact Nat.lt_irrefl _
      have hkept := ((hsat.elim hrun).inside _ hout).2
      rw [hwritten, hrecord] at hkept
      cases hkept
    · intro hcond
      rcases hcond with h | h | h
      · omega
      · omega
      · exact absurd h hmissing

theorem hwRngRand_fillsExactly_seven :
    Cut.Sat (hwRngRand 0x20000000 7) blankDevice (FillsExactly 0x20000000 7 blankDevice) :=
  (hwRngRand_fillsExactly_iff 0x20000000 7 blankDevice (by decide) fun _ => rfl).mpr (by decide)

/-- One byte is asked for, three are written. -/
theorem hwRngRand_overruns_one_byte :
    ¬ Cut.Sat (hwRngRand 0x20000000 1) blankDevice (FillsExactly 0x20000000 1 blankDevice) := by
  intro h
  have hout : ¬ Within 0x20000000 1 (0x20000001 : Addr) := by decide
  have hkept := (h.inside 0x20000001 hout).2
  have hwritten : (hwRngRand 0x20000000 1 blankDevice).2.written 0x20000001 = true := rfl
  rw [hwritten] at hkept
  cases hkept

end VerifiedDice
