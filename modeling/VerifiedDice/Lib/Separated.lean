import Mathlib.Tactic.Common

/-!
# Blocks with separators between some of them

A text is put together from numbered blocks; a separator follows those that a predicate picks.
Removing the separators gives back the blocks, and two predicates that give the same text
pick the same blocks.
-/

namespace Separated

variable {α : Type} (sep : α) (block : Nat → List α)

section Joined

variable (p q : Nat → Prop) [DecidablePred p] [DecidablePred q]

/-- Block `i` and what follows it. -/
def piece (i : Nat) : List α := block i ++ if p i then [sep] else []

/-- The first `n` blocks. -/
def joined (n : Nat) : List α := (List.range n).flatMap (piece sep block p)

@[simp] theorem joined_zero : joined sep block p 0 = [] := rfl

theorem joined_succ (n : Nat) :
    joined sep block p (n + 1) = joined sep block p n ++ piece sep block p n := by
  rw [joined, joined, List.range_succ, List.flatMap_append, List.flatMap_singleton]

theorem piece_congr {i : Nat} (h : p i ↔ q i) : piece sep block p i = piece sep block q i := by
  rw [piece, piece]
  by_cases hp : p i
  · rw [if_pos hp, if_pos (h.mp hp)]
  · rw [if_neg hp, if_neg fun hq => hp (h.mpr hq)]

theorem joined_congr {n : Nat} (h : ∀ i, i < n → (p i ↔ q i)) :
    joined sep block p n = joined sep block q n := by
  induction n with
  | zero => rfl
  | succ n ih =>
    rw [joined_succ, joined_succ, ih fun i hi => h i (Nat.lt_succ_of_lt hi),
      piece_congr sep block p q (h n (Nat.lt_succ_self n))]

variable {sep block p q}

theorem length_piece {i k : Nat} (h : (block i).length ≤ k) :
    (piece sep block p i).length ≤ k + 1 := by
  rw [piece, List.length_append]
  split
  · exact Nat.succ_le_succ h
  · exact Nat.le_succ_of_le h

theorem length_joined {k : Nat} (h : ∀ i, (block i).length ≤ k) (n : Nat) :
    (joined sep block p n).length ≤ (k + 1) * n := by
  induction n with
  | zero => exact Nat.le_refl 0
  | succ n ih =>
    rw [joined_succ, List.length_append, Nat.mul_succ]
    exact Nat.add_le_add ih (length_piece (h n))

theorem mem_joined {n : Nat} {a : α} (h : a ∈ joined sep block p n) :
    a = sep ∨ ∃ i, a ∈ block i := by
  rw [joined, List.mem_flatMap] at h
  obtain ⟨i, _, hi⟩ := h
  rw [piece, List.mem_append] at hi
  cases hi with
  | inl hi => exact Or.inr ⟨i, hi⟩
  | inr hi =>
    split at hi
    · exact Or.inl (List.mem_singleton.mp hi)
    · cases hi

/-- A block with a separator ends differently from one without. -/
theorem piece_ne {i : Nat} {s t : List α} (hsep : ∀ i, sep ∉ block i) (hblock : ∀ i, block i ≠ [])
    (hp : p i) (hq : ¬ q i) : s ++ piece sep block p i ≠ t ++ piece sep block q i := by
  intro h
  rw [piece, piece, if_pos hp, if_neg hq, List.append_nil, ← List.append_assoc] at h
  obtain ⟨a, ha⟩ := Option.ne_none_iff_exists'.mp (mt List.getLast?_eq_none_iff.mp (hblock i))
  have hlast := congrArg List.getLast? h
  rw [List.getLast?_concat, List.getLast?_append, ha, Option.some_or] at hlast
  cases hlast
  exact hsep i (List.mem_of_getLast? ha)

/-- By induction on the blocks, from the last one on. -/
theorem joined_inj (hsep : ∀ i, sep ∉ block i) (hblock : ∀ i, block i ≠ []) {n : Nat}
    (h : joined sep block p n = joined sep block q n) : ∀ i, i < n → (p i ↔ q i) := by
  induction n with
  | zero => exact fun i hi => absurd hi (Nat.not_lt_zero i)
  | succ n ih =>
    rw [joined_succ, joined_succ] at h
    have hlast : p n ↔ q n := by
      constructor
      · intro hp
        by_contra hq
        exact piece_ne hsep hblock hp hq h
      · intro hq
        by_contra hp
        exact piece_ne hsep hblock hq hp h.symm
    rw [piece_congr sep block p q hlast] at h
    intro i hi
    rcases Nat.lt_succ_iff_lt_or_eq.mp hi with hi | rfl
    · exact ih (List.append_cancel_right h) i hi
    · exact hlast

theorem filter_joined [DecidableEq α] (hsep : ∀ i, sep ∉ block i) (n : Nat) :
    (joined sep block p n).filter (fun a => a ≠ sep) = (List.range n).flatMap block := by
  induction n with
  | zero => rfl
  | succ n ih =>
    have hkeep : (block n).filter (fun a => a ≠ sep) = block n := by
      apply List.filter_eq_self.mpr
      intro a ha
      apply decide_eq_true
      rintro rfl
      exact hsep n ha
    have hdrop : (if p n then [sep] else []).filter (fun a => a ≠ sep) = [] := by
      split <;> simp
    rw [joined_succ, List.filter_append, ih, piece, List.filter_append, hkeep, hdrop,
      List.append_nil, List.range_succ, List.flatMap_append, List.flatMap_singleton]

end Joined

end Separated
