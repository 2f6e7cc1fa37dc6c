import Mathlib.Tactic.Common
import Mathlib.Algebra.Group.Nat.Defs
import Mathlib.Data.List.GetD

/-!
# Flat byte memories with wrapping addresses

A memory is a total function from `w`-bit addresses to bytes. Ranges are given by
a base and a length and are measured by the wrapping distance from the base, so
every lemma below holds at any base, also where a range passes the last address.
Words are 32 bits wide and little endian.
-/
namespace ByteMemory

abbrev Byte := BitVec 8

/-- A memory of `2 ^ w` bytes. -/
abbrev Mem (w : Nat) := BitVec w → Byte

variable {w : Nat}

/-! ## Ranges -/

/-- `x` is one of the `n` addresses that start at `a`. -/
def Within (a : BitVec w) (n : Nat) (x : BitVec w) : Prop := (x - a).toNat < n

instance (a : BitVec w) (n : Nat) (x : BitVec w) : Decidable (Within a n x) :=
  inferInstanceAs (Decidable ((x - a).toNat < n))

/-- The address `i` bytes after `a`. -/
def at_ (a : BitVec w) (i : Nat) : BitVec w := a + BitVec.ofNat w i

@[simp] theorem at_zero (a : BitVec w) : at_ a 0 = a := by simp [at_]

theorem at_at (a : BitVec w) (i j : Nat) : at_ (at_ a i) j = at_ a (i + j) := by
  simp only [at_, BitVec.add_assoc, BitVec.ofNat_add]

theorem at_sub_toNat (a : BitVec w) {i : Nat} (hi : i < 2 ^ w) : (at_ a i - a).toNat = i := by
  rw [at_, BitVec.add_comm, BitVec.add_sub_cancel, BitVec.toNat_ofNat, Nat.mod_eq_of_lt hi]

theorem at_word (a v : BitVec w) : at_ a v.toNat = a + v := by
  rw [at_, BitVec.ofNat_toNat, BitVec.setWidth_eq]

theorem at_sub (a x : BitVec w) : at_ a (x - a).toNat = x := by
  rw [at_word, BitVec.add_comm, BitVec.sub_add_cancel]

theorem at_injective (a : BitVec w) {i j : Nat} (hi : i < 2 ^ w) (hj : j < 2 ^ w)
    (h : at_ a i = at_ a j) : i = j := by
  rw [← at_sub_toNat a hi, h, at_sub_toNat a hj]

theorem at_add_word (a v : BitVec w) (k : Nat) : at_ a k + v = at_ a (k + v.toNat) := by
  rw [← at_word, at_at]

theorem toNat_at {a : BitVec w} {i : Nat} (h : a.toNat + i < 2 ^ w) :
    (at_ a i).toNat = a.toNat + i := by
  have hi : i < 2 ^ w := by omega
  rw [at_, BitVec.toNat_add, BitVec.toNat_ofNat, Nat.mod_eq_of_lt hi, Nat.mod_eq_of_lt h]

theorem at_sub_at (a : BitVec w) {i j : Nat} (hij : i ≤ j) (hw : j - i < 2 ^ w) :
    (at_ a j - at_ a i).toNat = j - i := by
  obtain ⟨d, rfl⟩ := Nat.exists_eq_add_of_le hij
  have hd : d < 2 ^ w := by omega
  rw [← at_at, at_sub_toNat _ hd]
  omega

theorem within_at (a : BitVec w) {i n : Nat} (hw : i < 2 ^ w) :
    Within a n (at_ a i) ↔ i < n := by
  rw [Within, at_sub_toNat a hw]

theorem exists_at_of_within {a x : BitVec w} {n : Nat} (h : Within a n x) :
    ∃ i, i < n ∧ x = at_ a i :=
  ⟨(x - a).toNat, h, (at_sub a x).symm⟩

theorem not_within_of_at_ne {a x : BitVec w} {n : Nat} (h : ∀ i, i < n → x ≠ at_ a i) :
    ¬ Within a n x := fun hx => by
  obtain ⟨i, hi, he⟩ := exists_at_of_within hx
  exact h i hi he

/-- A range taken inside another, by the offset of its base. -/
theorem within_sub_range {a x : BitVec w} {k n len : Nat} (hfit : k + n ≤ len)
    (hw : k + n ≤ 2 ^ w) (h : Within (at_ a k) n x) : Within a len x := by
  obtain ⟨i, hi, rfl⟩ := exists_at_of_within h
  rw [at_at, within_at a (by omega)]
  omega

/-- A range and the one right behind it. -/
theorem within_append {a x : BitVec w} {n k : Nat} (hw : n + k ≤ 2 ^ w) :
    Within a (n + k) x ↔ Within a n x ∨ Within (at_ a n) k x := by
  constructor
  · intro h
    obtain ⟨i, hi, rfl⟩ := exists_at_of_within h
    rw [within_at a (by omega)]
    by_cases hfirst : i < n
    · exact Or.inl hfirst
    · obtain ⟨j, rfl⟩ := Nat.exists_eq_add_of_le (Nat.le_of_not_lt hfirst)
      rw [← at_at, within_at _ (by omega)]
      exact Or.inr (by omega)
  · intro h
    cases h with
    | inl h => exact Nat.lt_of_lt_of_le h (Nat.le_add_right n k)
    | inr h => exact within_sub_range (Nat.le_refl _) hw h

/-! ## Reading -/

/-- The `n` bytes that start at `a`. -/
def bytesAt (m : Mem w) (a : BitVec w) (n : Nat) : List Byte :=
  (List.range n).map fun i => m (at_ a i)

@[simp] theorem length_bytesAt (m : Mem w) (a : BitVec w) (n : Nat) :
    (bytesAt m a n).length = n := by simp [bytesAt]

@[simp] theorem getElem_bytesAt (m : Mem w) (a : BitVec w) (n i : Nat)
    (hi : i < (bytesAt m a n).length) : (bytesAt m a n)[i] = m (at_ a i) := by
  simp [bytesAt]

theorem bytesAt_congr {m m' : Mem w} {a a' : BitVec w} {n : Nat}
    (h : ∀ i, i < n → m (at_ a i) = m' (at_ a' i)) : bytesAt m a n = bytesAt m' a' n := by
  simp only [bytesAt]
  exact List.map_congr_left fun i hi => h i (List.mem_range.mp hi)

theorem bytesAt_inj {m m' : Mem w} {a a' : BitVec w} {n : Nat}
    (h : bytesAt m a n = bytesAt m' a' n) : ∀ i, i < n → m (at_ a i) = m' (at_ a' i) := by
  intro i hi
  have h' := congrArg (fun l => l[i]?) h
  simpa [bytesAt, List.getElem?_range hi] using h'

theorem bytesAt_append (m : Mem w) (a : BitVec w) (n k : Nat) :
    bytesAt m a (n + k) = bytesAt m a n ++ bytesAt m (at_ a n) k := by
  simp only [bytesAt, List.range_add, List.map_append, List.map_map, List.append_cancel_left_eq]
  exact List.map_congr_left fun i _ => by simp [Function.comp, at_at]

theorem bytesAt_cons (m : Mem w) (a : BitVec w) (n : Nat) :
    bytesAt m a (n + 1) = m a :: bytesAt m (at_ a 1) n := by
  rw [Nat.add_comm, bytesAt_append]
  simp [bytesAt]

theorem take_bytesAt (m : Mem w) (a : BitVec w) {n k : Nat} (h : k ≤ n) :
    (bytesAt m a n).take k = bytesAt m a k := by
  obtain ⟨d, rfl⟩ := Nat.exists_eq_add_of_le h
  rw [bytesAt_append, List.take_append_of_le_length (by simp), List.take_of_length_le (by simp)]

theorem drop_bytesAt (m : Mem w) (a : BitVec w) {n k : Nat} (h : k ≤ n) :
    (bytesAt m a n).drop k = bytesAt m (at_ a k) (n - k) := by
  obtain ⟨d, rfl⟩ := Nat.exists_eq_add_of_le h
  rw [bytesAt_append, Nat.add_sub_cancel_left]
  exact List.drop_left' (by simp)

/-- A segment of the bytes at `a` is at its own offset. -/
theorem bytesAt_segment {m : Mem w} {a : BitVec w} {n k len : Nat} {pre seg post : List Byte}
    (h : bytesAt m a n = pre ++ seg ++ post) (hk : pre.length = k) (hlen : seg.length = len) :
    bytesAt m (at_ a k) len = seg := by
  subst hk hlen
  have hn : n = pre.length + seg.length + post.length := by
    rw [← length_bytesAt m a n, h, List.length_append, List.length_append]
  have hdrop : bytesAt m (at_ a pre.length) (n - pre.length) = seg ++ post := by
    rw [← drop_bytesAt m a (by omega), h, List.append_assoc, List.drop_left]
  rw [← take_bytesAt m _ (by omega : seg.length ≤ n - pre.length), hdrop, List.take_left]

/-! ## Writing -/

/-- Store a list of bytes from `a` on. -/
def write (m : Mem w) (a : BitVec w) (bs : List Byte) : Mem w :=
  fun x => bs.getD (x - a).toNat (m x)

/-- Set the `n` bytes from `a` on to `b`. -/
def fill (m : Mem w) (a : BitVec w) (n : Nat) (b : Byte) : Mem w :=
  fun x => if Within a n x then b else m x

theorem write_outside {m : Mem w} {a x : BitVec w} {bs : List Byte}
    (h : ¬ Within a bs.length x) : write m a bs x = m x := by
  rw [write, List.getD_eq_default]
  exact Nat.le_of_not_lt h

theorem write_at (m : Mem w) (a : BitVec w) (bs : List Byte) {i : Nat} (hi : i < bs.length)
    (hw : i < 2 ^ w) : write m a bs (at_ a i) = bs[i] := by
  rw [write, at_sub_toNat a hw, List.getD_eq_getElem _ _ hi]

@[simp] theorem write_nil (m : Mem w) (a : BitVec w) : write m a [] = m := by
  funext x; simp [write]

theorem fill_inside {m : Mem w} {a x : BitVec w} {n : Nat} {b : Byte} (h : Within a n x) :
    fill m a n b x = b := if_pos h

theorem fill_outside {m : Mem w} {a x : BitVec w} {n : Nat} {b : Byte} (h : ¬ Within a n x) :
    fill m a n b x = m x := if_neg h

@[simp] theorem fill_zero (m : Mem w) (a : BitVec w) (b : Byte) : fill m a 0 b = m := by
  funext x
  exact fill_outside (Nat.not_lt_zero _)

/-- A fill is the write of as many copies of its byte. -/
theorem write_replicate (m : Mem w) (a : BitVec w) (n : Nat) (b : Byte) :
    write m a (List.replicate n b) = fill m a n b := by
  funext x
  by_cases hin : Within a n x
  · have hlt : (x - a).toNat < (List.replicate n b).length := by
      rw [List.length_replicate]
      exact hin
    rw [fill_inside hin, write, List.getD_eq_getElem _ _ hlt, List.getElem_replicate]
  · rw [fill_outside hin, write_outside]
    rw [List.length_replicate]
    exact hin

/-- Two fills with one byte, the second right behind the first. -/
theorem fill_append {m : Mem w} {a : BitVec w} {n k : Nat} {b : Byte} (hw : n + k ≤ 2 ^ w) :
    fill (fill m a n b) (at_ a n) k b = fill m a (n + k) b := by
  funext x
  by_cases hboth : Within a (n + k) x
  · rw [fill_inside hboth]
    by_cases hsecond : Within (at_ a n) k x
    · exact fill_inside hsecond
    · rw [fill_outside hsecond]
      exact fill_inside (((within_append hw).mp hboth).resolve_right hsecond)
  · have hfirst : ¬ Within a n x := fun h => hboth ((within_append hw).mpr (Or.inl h))
    have hsecond : ¬ Within (at_ a n) k x := fun h => hboth ((within_append hw).mpr (Or.inr h))
    rw [fill_outside hboth, fill_outside hsecond, fill_outside hfirst]

theorem bytesAt_write_self (m : Mem w) (a : BitVec w) (bs : List Byte)
    (hw : bs.length ≤ 2 ^ w) : bytesAt (write m a bs) a bs.length = bs := by
  apply List.ext_getElem (by simp)
  intro i h1 h2
  rw [getElem_bytesAt, write_at m a bs h2 (by omega)]

theorem bytesAt_write_outside {m : Mem w} {a c : BitVec w} {bs : List Byte} {n : Nat}
    (h : ∀ i, i < n → ¬ Within a bs.length (at_ c i)) :
    bytesAt (write m a bs) c n = bytesAt m c n :=
  bytesAt_congr fun i hi => write_outside (h i hi)

/-- Addresses of one range, by their offsets. -/
theorem not_within_at {a : BitVec w} {k i n : Nat} (h : i < k ∨ k + n ≤ i) (hi : i < 2 ^ w)
    (hk : k + n ≤ 2 ^ w) : ¬ Within (at_ a k) n (at_ a i) := by
  refine not_within_of_at_ne fun j hj he => ?_
  rw [at_at] at he
  have hij := at_injective a hi (by omega) he
  omega

theorem write_apart {m : Mem w} {a : BitVec w} {k i : Nat} {bs : List Byte}
    (h : i < k ∨ k + bs.length ≤ i) (hi : i < 2 ^ w) (hk : k + bs.length ≤ 2 ^ w) :
    write m (at_ a k) bs (at_ a i) = m (at_ a i) := write_outside (not_within_at h hi hk)

theorem write_append {m : Mem w} {a : BitVec w} {bs cs : List Byte}
    (hw : bs.length + cs.length ≤ 2 ^ w) :
    write (write m a bs) (at_ a bs.length) cs = write m a (bs ++ cs) := by
  funext x
  obtain ⟨i, rfl⟩ : ∃ i : Fin (2 ^ w), x = at_ a i.val :=
    ⟨⟨(x - a).toNat, (x - a).isLt⟩, (at_sub a x).symm⟩
  have hi := i.isLt
  by_cases hfirst : i.val < bs.length
  · rw [write_apart (Or.inl hfirst) hi (by omega), write_at _ _ _ hfirst hi,
      write_at _ _ _ (by rw [List.length_append]; omega) hi, List.getElem_append_left hfirst]
  · obtain ⟨j, hj⟩ := Nat.exists_eq_add_of_le (Nat.le_of_not_lt hfirst)
    by_cases hsecond : j < cs.length
    · rw [hj, ← at_at, write_at _ _ _ hsecond (by omega), at_at,
        write_at _ _ _ (by rw [List.length_append]; omega) (by omega),
        List.getElem_append_right (by omega)]
      simp
    · rw [write_apart (Or.inr (by omega)) hi hw, write_outside, write_outside]
      · rw [List.length_append, within_at _ hi]
        omega
      · rw [within_at _ hi]
        omega

/-- Storing what is there changes nothing. -/
theorem write_bytesAt (m : Mem w) (a : BitVec w) (n : Nat) : write m a (bytesAt m a n) = m := by
  funext x
  by_cases hin : Within a n x
  · obtain ⟨i, hi, rfl⟩ := exists_at_of_within hin
    have hlen : i < (bytesAt m a n).length := by
      rw [length_bytesAt]
      exact hi
    by_cases hw : i < 2 ^ w
    · rw [write_at _ _ _ hlen hw, getElem_bytesAt]
    · have hlt := (at_ a i - a).isLt
      have hk : (at_ a i - a).toNat < (bytesAt m a n).length := by
        rw [length_bytesAt]
        exact hin
      rw [write, List.getD_eq_getElem _ _ hk, getElem_bytesAt, at_sub]
  · exact write_outside (by rw [length_bytesAt]; exact hin)

/-! ## Words -/

/-- Little-endian bytes of a 32-bit word. -/
def bytesOfWord (v : BitVec 32) : List Byte :=
  [v.extractLsb' 0 8, v.extractLsb' 8 8, v.extractLsb' 16 8, v.extractLsb' 24 8]

/-- The word of four little-endian bytes. -/
def wordOfBytes : List Byte → BitVec 32
  | [b0, b1, b2, b3] => b3 ++ b2 ++ b1 ++ b0
  | _ => 0

@[simp] theorem length_bytesOfWord (v : BitVec 32) : (bytesOfWord v).length = 4 := rfl

@[simp] theorem wordOfBytes_bytesOfWord (v : BitVec 32) : wordOfBytes (bytesOfWord v) = v := by
  have hhigh := @BitVec.extractLsb'_append_extractLsb'_eq_extractLsb' 32 24 16 8 8 v rfl
  have hthree := @BitVec.extractLsb'_append_extractLsb'_eq_extractLsb' 32 16 8 8 16 v rfl
  have hall := @BitVec.extractLsb'_append_extractLsb'_eq_extractLsb' 32 8 0 8 24 v rfl
  rw [bytesOfWord, wordOfBytes, hhigh, hthree, hall]
  exact BitVec.extractLsb'_eq_self

theorem bytesOfWord_wordOfBytes {bs : List Byte} (h : bs.length = 4) :
    bytesOfWord (wordOfBytes bs) = bs := by
  match bs, h with
  | [b0, b1, b2, b3], _ =>
    have h0 : (b3 ++ b2 ++ b1 ++ b0).extractLsb' 0 8 = b0 := BitVec.extractLsb'_append_eq_right
    have h1 : (b3 ++ b2 ++ b1 ++ b0).extractLsb' 8 8 = b1 := by
      rw [BitVec.extractLsb'_append_eq_of_le (by decide)]
      exact BitVec.extractLsb'_append_eq_right
    have h2 : (b3 ++ b2 ++ b1 ++ b0).extractLsb' 16 8 = b2 := by
      rw [BitVec.extractLsb'_append_eq_of_le (by decide),
        BitVec.extractLsb'_append_eq_of_le (by decide)]
      exact BitVec.extractLsb'_append_eq_right
    have h3 : (b3 ++ b2 ++ b1 ++ b0).extractLsb' 24 8 = b3 := by
      rw [BitVec.extractLsb'_append_eq_of_le (by decide),
        BitVec.extractLsb'_append_eq_of_le (by decide)]
      exact BitVec.extractLsb'_append_eq_left
    simp only [bytesOfWord, wordOfBytes, List.cons.injEq, and_true]
    exact ⟨h0, h1, h2, h3⟩

/-- The 32-bit word at `a`. -/
def loadWord (m : Mem w) (a : BitVec w) : BitVec 32 := wordOfBytes (bytesAt m a 4)

/-- Store a 32-bit word at `a`. -/
def storeWord (m : Mem w) (a : BitVec w) (v : BitVec 32) : Mem w := write m a (bytesOfWord v)

theorem loadWord_congr {m m' : Mem w} {a a' : BitVec w}
    (h : ∀ i, i < 4 → m (at_ a i) = m' (at_ a' i)) : loadWord m a = loadWord m' a' :=
  congrArg wordOfBytes (bytesAt_congr h)

theorem bytesAt_of_loadWord (m : Mem w) (a : BitVec w) :
    bytesAt m a 4 = bytesOfWord (loadWord m a) :=
  (bytesOfWord_wordOfBytes (length_bytesAt m a 4)).symm

theorem loadWord_segment {m : Mem w} {a : BitVec w} {n k : Nat} {pre post : List Byte}
    {v : BitVec 32} (h : bytesAt m a n = pre ++ bytesOfWord v ++ post) (hk : pre.length = k) :
    loadWord m (at_ a k) = v := by
  rw [loadWord, bytesAt_segment h hk (length_bytesOfWord v), wordOfBytes_bytesOfWord]

theorem first_byte_of_loadWord (m : Mem w) (a : BitVec w) :
    m a = (loadWord m a).extractLsb' 0 8 := by
  have h : (bytesAt m a 4).getD 0 0 = (bytesOfWord (loadWord m a)).getD 0 0 := by
    rw [bytesAt_of_loadWord]
  simpa [bytesAt, bytesOfWord] using h

theorem loadWord_storeWord (m : Mem w) (a : BitVec w) (v : BitVec 32) (hw : 4 ≤ 2 ^ w) :
    loadWord (storeWord m a v) a = v := by
  have h := bytesAt_write_self m a (bytesOfWord v) hw
  rw [length_bytesOfWord] at h
  rw [loadWord, storeWord, h, wordOfBytes_bytesOfWord]

theorem loadWord_write_apart {m : Mem w} {a : BitVec w} {k j : Nat} {bs : List Byte}
    (h : j + 4 ≤ k ∨ k + bs.length ≤ j) (hj : j + 4 ≤ 2 ^ w) (hk : k + bs.length ≤ 2 ^ w) :
    loadWord (write m (at_ a k) bs) (at_ a j) = loadWord m (at_ a j) :=
  loadWord_congr fun i hi => by
    rw [at_at]
    exact write_apart (by omega) (by omega) hk

theorem storeWord_outside {m : Mem w} {a x : BitVec w} {v : BitVec 32} (h : ¬ Within a 4 x) :
    storeWord m a v x = m x := write_outside h

/-! ## Agreement -/

/-- `m'` holds the same bytes as `m` at every address of `S`. -/
def AgreeOn (S : BitVec w → Prop) (m m' : Mem w) : Prop := ∀ x, S x → m' x = m x

theorem AgreeOn.mono {S T : BitVec w → Prop} {m m' : Mem w} (h : AgreeOn S m m')
    (hT : ∀ x, T x → S x) : AgreeOn T m m' := fun x hx => h x (hT x hx)

theorem AgreeOn.bytesAt {S : BitVec w → Prop} {m m' : Mem w} (h : AgreeOn S m m')
    {a : BitVec w} {n : Nat} (hS : ∀ i, i < n → S (at_ a i)) :
    ByteMemory.bytesAt m' a n = ByteMemory.bytesAt m a n :=
  bytesAt_congr fun i hi => h _ (hS i hi)

theorem AgreeOn.loadWord {S : BitVec w → Prop} {m m' : Mem w} (h : AgreeOn S m m')
    {a : BitVec w} (hS : ∀ i, i < 4 → S (at_ a i)) :
    ByteMemory.loadWord m' a = ByteMemory.loadWord m a :=
  loadWord_congr fun i hi => h _ (hS i hi)

theorem AgreeOn.write {S : BitVec w → Prop} {m m' : Mem w} (h : AgreeOn S m m') (a : BitVec w)
    (bs : List Byte) : AgreeOn S (ByteMemory.write m a bs) (ByteMemory.write m' a bs) := by
  intro x hx
  rw [ByteMemory.write, ByteMemory.write, h x hx]

/-- After a fill the bytes filled agree as well. -/
theorem AgreeOn.fill {S : BitVec w → Prop} {m m' : Mem w} (h : AgreeOn S m m') (a : BitVec w)
    (n : Nat) (b : Byte) :
    AgreeOn (fun x => S x ∨ Within a n x) (ByteMemory.fill m a n b) (ByteMemory.fill m' a n b) := by
  intro x hx
  by_cases hin : Within a n x
  · rw [fill_inside hin, fill_inside hin]
  · rw [fill_outside hin, fill_outside hin]
    exact h x (hx.resolve_right hin)

end ByteMemory
