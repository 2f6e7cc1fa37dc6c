import Mathlib.Data.List.DropRight
import Mathlib.Data.List.GetD
import Mathlib.Tactic.Common

/-!
# Circular buffers as sliding windows

A buffer of capacity `n` is a write position, a count that stops at `n` and cells.
`Window n b s` says that `b` holds the last `n` elements of the history `s`. The
cell of the `k`-th element is always `k % n`, before and after the buffer is full.
-/

structure CircularBuffer (α : Type) where
  ptr : Nat
  size : Nat
  cell : Nat → α

namespace CircularBuffer

variable {α : Type} (n : Nat)

def push (b : CircularBuffer α) (c : α) : CircularBuffer α where
  ptr := if n ≤ b.ptr + 1 then 0 else b.ptr + 1
  size := if b.size < n then b.size + 1 else b.size
  cell := fun i => if i = b.ptr then c else b.cell i

/-- What is held, oldest first: one part, or two once the buffer has filled up. -/
def contents (b : CircularBuffer α) : List α :=
  if b.size < n then (List.range b.size).map b.cell
  else (List.range (n - b.ptr)).map (fun i => b.cell (b.ptr + i)) ++ (List.range b.ptr).map b.cell

structure Window (b : CircularBuffer α) (s : List α) : Prop where
  ptr : b.ptr = s.length % n
  size : b.size = min s.length n
  cell : ∀ k (hk : k < s.length), s.length ≤ k + n → b.cell (k % n) = s[k]

variable {n} {b : CircularBuffer α} {s : List α}

theorem Window.empty (hptr : b.ptr = 0) (hsize : b.size = 0) : Window n b [] :=
  ⟨by simpa using hptr, by simpa using hsize, fun k hk => absurd hk (Nat.not_lt_zero k)⟩

theorem Window.ptr_lt (hn : 0 < n) (h : Window n b s) : b.ptr < n := by
  rw [h.ptr]
  exact Nat.mod_lt _ hn

/-- A window only depends on the cells below the capacity. -/
theorem Window.congr {b' : CircularBuffer α} (hn : 0 < n) (h : Window n b s)
    (hptr : b'.ptr = b.ptr) (hsize : b'.size = b.size) (hcell : ∀ i, i < n → b'.cell i = b.cell i) :
    Window n b' s :=
  ⟨hptr.trans h.ptr, hsize.trans h.size, fun k hk hnear =>
    (hcell _ (Nat.mod_lt _ hn)).trans (h.cell k hk hnear)⟩

theorem succ_mod (hn : 0 < n) (t : Nat) :
    (t + 1) % n = if n ≤ t % n + 1 then 0 else t % n + 1 := by
  have hlt := Nat.mod_lt t hn
  have hdiv := Nat.div_add_mod t n
  by_cases hfull : n ≤ t % n + 1
  · have hsum : t + 1 = n * (t / n + 1) := by
      rw [Nat.mul_add]
      omega
    rw [if_pos hfull, hsum, Nat.mul_mod_right]
  · have hsum : t + 1 = t % n + 1 + n * (t / n) := by omega
    rw [if_neg hfull, hsum, Nat.add_mul_mod_self_left, Nat.mod_eq_of_lt (by omega)]

/-- Two of the last `n` positions never share a cell. -/
theorem mod_ne_of_near {k t : Nat} (hlt : k < t) (hnear : t < k + n) : k % n ≠ t % n := by
  intro h
  have hdvd : n ∣ t - k := Nat.dvd_of_mod_eq_zero (Nat.sub_mod_eq_zero_of_mod_eq h.symm)
  have hle := Nat.le_of_dvd (by omega) hdvd
  omega

theorem Window.push (hn : 0 < n) (h : Window n b s) (c : α) :
    Window n (b.push n c) (s ++ [c]) := by
  refine ⟨?_, ?_, fun k hk hnear => ?_⟩
  · show (if n ≤ b.ptr + 1 then 0 else b.ptr + 1) = _
    rw [List.length_append, List.length_singleton, succ_mod hn, h.ptr]
  · show (if b.size < n then b.size + 1 else b.size) = _
    rw [List.length_append, List.length_singleton, h.size]
    split <;> omega
  · show (if k % n = b.ptr then c else b.cell (k % n)) = _
    rw [List.length_append, List.length_singleton] at hk hnear
    rcases Nat.lt_succ_iff_lt_or_eq.mp hk with hold | rfl
    · have hcell : k % n ≠ b.ptr := by
        rw [h.ptr]
        exact mod_ne_of_near hold (by omega)
      rw [if_neg hcell, List.getElem_append_left hold]
      exact h.cell k hold (by omega)
    · rw [if_pos h.ptr.symm, List.getElem_concat_length rfl]

theorem length_contents (b : CircularBuffer α) (hp : b.ptr ≤ n) (hs : b.size ≤ n) :
    (b.contents n).length = b.size := by
  unfold contents
  split
  · simp
  · simp only [List.length_append, List.length_map, List.length_range]
    omega

/-- A window is read back as the last `n` elements of its history. -/
theorem Window.contents (hn : 0 < n) (h : Window n b s) : b.contents n = s.rtake n := by
  have hp := h.ptr_lt hn
  have hdiv := Nat.div_add_mod s.length n
  have hlen : (b.contents n).length = s.length - (s.length - n) := by
    rw [length_contents b (by omega) (by rw [h.size]; omega), h.size]
    omega
  apply List.ext_getElem
  · rw [hlen, List.rtake, List.length_drop]
  intro j hj _
  rw [hlen] at hj
  have hrtake : j < (s.rtake n).length := by
    rw [List.rtake, List.length_drop]
    exact hj
  -- the cell that holds the element `k` of the history
  have hcell : ∀ i, (s.length - n + j) % n = i → b.cell i = (s.rtake n)[j] := by
    intro i hi
    have h' := h.cell (s.length - n + j) (by omega) (by omega)
    rw [hi] at h'
    rw [h']
    simp [List.rtake]
  have hptr := h.ptr
  unfold CircularBuffer.contents
  by_cases hfull : b.size < n
  · have hsize := h.size
    simp only [if_pos hfull, List.getElem_map, List.getElem_range]
    exact hcell j (by rw [Nat.mod_eq_of_lt (by omega)]; omega)
  · have hsize := h.size
    have hquot : 0 < s.length / n := Nat.div_pos (by omega) hn
    obtain ⟨q, hq⟩ := Nat.exists_eq_add_of_lt hquot
    have hmul : n * (s.length / n) = n * q + n := by rw [hq, Nat.zero_add, Nat.mul_add, Nat.mul_one]
    simp only [if_neg hfull]
    by_cases hfirst : j < n - b.ptr
    · rw [List.getElem_append_left (by simpa using hfirst)]
      simp only [List.getElem_map, List.getElem_range]
      refine hcell _ ?_
      have hk : s.length - n + j = b.ptr + j + n * q := by omega
      rw [hk, Nat.add_mul_mod_self_left, Nat.mod_eq_of_lt (by omega)]
    · rw [List.getElem_append_right (by simpa using hfirst)]
      simp only [List.getElem_map, List.getElem_range, List.length_map, List.length_range]
      refine hcell _ ?_
      have hk : s.length - n + j = j - (n - b.ptr) + n * (q + 1) := by
        rw [Nat.mul_add]
        omega
      rw [hk, Nat.add_mul_mod_self_left, Nat.mod_eq_of_lt (by omega)]

/-! ## From any state

A buffer that did not start empty is still a window, of a history made up for it, if it
is full or if its position is its size. -/

/-- Several elements, one after another. -/
def pushes (n : Nat) (b : CircularBuffer α) (t : List α) : CircularBuffer α := t.foldl (push n) b

/-- The same up to the capacity. -/
structure Alike (n : Nat) (b b' : CircularBuffer α) : Prop where
  ptr : b'.ptr = b.ptr
  size : b'.size = b.size
  cell : ∀ i, i < n → b'.cell i = b.cell i

theorem Alike.refl (n : Nat) (b : CircularBuffer α) : Alike n b b := ⟨rfl, rfl, fun _ _ => rfl⟩

theorem Alike.trans {b1 b2 b3 : CircularBuffer α} (h : Alike n b1 b2) (h' : Alike n b2 b3) :
    Alike n b1 b3 :=
  ⟨h'.ptr.trans h.ptr, h'.size.trans h.size, fun i hi => (h'.cell i hi).trans (h.cell i hi)⟩

theorem push_ptr_lt (hn : 0 < n) (b : CircularBuffer α) (c : α) : (b.push n c).ptr < n := by
  show (if n ≤ b.ptr + 1 then 0 else b.ptr + 1) < n
  split <;> omega

theorem push_size_le (hs : b.size ≤ n) (c : α) : (b.push n c).size = min (b.size + 1) n := by
  show (if b.size < n then b.size + 1 else b.size) = min (b.size + 1) n
  split <;> omega

theorem Alike.push {b' : CircularBuffer α} (h : Alike n b b') (c : α) :
    Alike n (b.push n c) (b'.push n c) := by
  refine ⟨?_, ?_, ?_⟩
  · show (if n ≤ b'.ptr + 1 then 0 else b'.ptr + 1) = if n ≤ b.ptr + 1 then 0 else b.ptr + 1
    rw [h.ptr]
  · show (if b'.size < n then b'.size + 1 else b'.size) = if b.size < n then b.size + 1 else b.size
    rw [h.size]
  · intro i hi
    show (if i = b'.ptr then c else b'.cell i) = if i = b.ptr then c else b.cell i
    rw [h.ptr, h.cell i hi]

theorem Alike.contents {b' : CircularBuffer α} (hp : b.ptr ≤ n) (h : Alike n b b') :
    b'.contents n = b.contents n := by
  have hmap : ∀ k, k ≤ n → (List.range k).map b'.cell = (List.range k).map b.cell := by
    intro k hk
    apply List.map_congr_left
    intro i hi
    exact h.cell i (Nat.lt_of_lt_of_le (List.mem_range.mp hi) hk)
  unfold CircularBuffer.contents
  rw [h.size, h.ptr]
  split
  · rename_i hlt
    exact hmap _ (Nat.le_of_lt hlt)
  · rw [hmap _ hp]
    congr 1
    apply List.map_congr_left
    intro i hi
    have hi' := List.mem_range.mp hi
    exact h.cell _ (by omega)

theorem Window.pushes (hn : 0 < n) (t : List α) : ∀ {b s}, Window n b s →
    Window n (b.pushes n t) (s ++ t) := by
  induction t with
  | nil =>
    intro b s h
    rw [List.append_nil]
    exact h
  | cons c t ih =>
    intro b s h
    have hrest := ih (h.push hn c)
    rw [List.append_assoc] at hrest
    exact hrest

theorem pushes_size (t : List α) : ∀ {b : CircularBuffer α}, b.size ≤ n →
    (b.pushes n t).size = min (b.size + t.length) n := by
  induction t with
  | nil =>
    intro b hs
    exact (Nat.min_eq_left hs).symm
  | cons c t ih =>
    intro b hs
    have hpush := push_size_le hs c
    have hrest := ih (b := b.push n c) (by omega)
    show ((b.push n c).pushes n t).size = min (b.size + (t.length + 1)) n
    omega

theorem pushes_ptr_lt (hn : 0 < n) (t : List α) : ∀ {b : CircularBuffer α}, b.ptr < n →
    (b.pushes n t).ptr < n := by
  induction t with
  | nil => exact fun hp => hp
  | cons c t ih => exact fun _ => ih (push_ptr_lt hn _ c)

/-- Where the elements go does not depend on the count. -/
theorem pushes_withSize (t : List α) : ∀ (b : CircularBuffer α) (k : Nat),
    ({ b with size := k }.pushes n t).ptr = (b.pushes n t).ptr ∧
      ({ b with size := k }.pushes n t).cell = (b.pushes n t).cell := by
  induction t with
  | nil => exact fun _ _ => ⟨rfl, rfl⟩
  | cons c t ih => exact fun b k => ih (b.push n c) (if k < n then k + 1 else k)

theorem window_of_ptr_eq_size (hp : b.ptr < n) (h : b.ptr = b.size) :
    Window n b ((List.range b.size).map b.cell) := by
  have hlen : ((List.range b.size).map b.cell).length = b.size := by simp
  refine ⟨?_, ?_, ?_⟩
  · rw [hlen, Nat.mod_eq_of_lt (by omega), h]
  · rw [hlen, Nat.min_eq_left (by omega)]
  · intro k hk _
    rw [hlen] at hk
    rw [Nat.mod_eq_of_lt (by omega)]
    simp

theorem window_of_full (hp : b.ptr < n) (hs : b.size = n) :
    Window n b ((List.range (n + b.ptr)).map fun k => b.cell (k % n)) := by
  have hlen : ((List.range (n + b.ptr)).map fun k => b.cell (k % n)).length = n + b.ptr := by simp
  refine ⟨?_, ?_, ?_⟩
  · rw [hlen, Nat.add_mod_left, Nat.mod_eq_of_lt hp]
  · rw [hlen, hs, Nat.min_eq_right (by omega)]
  · intro k _ _
    simp

theorem rtake_suffix_append (s t : List α) (n : Nat) : t.rtake n <:+ (s ++ t).rtake n := by
  have hlast : t.rtake n <:+ s ++ t := (List.drop_suffix _ t).trans (List.suffix_append s t)
  apply List.suffix_of_suffix_length_le hlast (List.drop_suffix _ _)
  simp only [List.rtake, List.length_drop, List.length_append]
  omega

theorem Window.pushes_suffix (hn : 0 < n) (h : Window n b s) (t : List α) :
    t.rtake n <:+ (b.pushes n t).contents n := by
  rw [(h.pushes hn t).contents hn]
  exact rtake_suffix_append s t n

/-- Once the buffer is full its contents end with what was pushed, whatever was there before. -/
theorem pushes_suffix_of_full (hp : b.ptr < n) (hs : b.size ≤ n) {t : List α}
    (hfull : n ≤ b.size + t.length) : t.rtake n <:+ (b.pushes n t).contents n := by
  have hn : 0 < n := Nat.lt_of_le_of_lt (Nat.zero_le _) hp
  have hwindow : Window n { b with size := n } _ := window_of_full hp rfl
  have hsuffix := hwindow.pushes_suffix hn t
  obtain ⟨hptr, hcell⟩ := pushes_withSize (n := n) t b n
  have hsize : ({ b with size := n }.pushes n t).size = (b.pushes n t).size := by
    rw [pushes_size t hs, pushes_size t (Nat.le_refl n)]
    show min (n + t.length) n = min (b.size + t.length) n
    omega
  have halike : Alike n (b.pushes n t) ({ b with size := n }.pushes n t) :=
    ⟨hptr, hsize, fun i _ => congrFun hcell i⟩
  rw [halike.contents (Nat.le_of_lt (pushes_ptr_lt hn t hp))] at hsuffix
  exact hsuffix

/-- If the position is not the count, one element that is pushed need not be the last one held. -/
theorem push_not_suffix {c : α} (hs : b.size + 1 < n) (hp : b.ptr ≠ b.size)
    (hc : c ≠ b.cell b.size) : ¬ [c] <:+ (b.push n c).contents n := by
  have hsize : (b.push n c).size = b.size + 1 := if_pos (Nat.lt_of_succ_lt hs)
  have hlast : (b.push n c).cell b.size = b.cell b.size := if_neg (Ne.symm hp)
  intro hsuffix
  rw [CircularBuffer.contents, hsize, if_pos hs, List.range_succ, List.map_append,
    List.map_singleton, hlast] at hsuffix
  obtain ⟨pre, hpre⟩ := hsuffix
  have hsame := (List.append_inj' hpre rfl).2
  exact hc (List.head_eq_of_cons_eq hsame)

end CircularBuffer
