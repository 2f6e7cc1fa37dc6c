import Mathlib.Tactic.Common

/-!
# Reading a moving value part by part, twice

A value that cannot be read at once is read part by part while it moves on. A part is
a function of the moment. Where no part comes back within a stretch of `W` moments to
what it was before it changed, two readings with equal results that follow each other
in less than `W` moments both show the value of the moment between them, in whatever
order the parts were read.
-/
namespace DoubleCollect

/-- Equal at both ends of a stretch shorter than `W` means the same all through it. -/
def Steady {α : Type} (W : Nat) (part : Nat → α) : Prop :=
  ∀ a m b, a ≤ m → m ≤ b → b - a < W → part a = part b → part m = part a

/-- Every part of `t` was read at some moment from `lo` to `hi`. -/
def Collected {ι α : Type} (part : ι → Nat → α) (lo hi : Nat) (t : ι → α) : Prop :=
  ∀ i, ∃ n, lo ≤ n ∧ n ≤ hi ∧ t i = part i n

variable {ι α : Type} {part : ι → Nat → α} {lo m hi W : Nat} {t : ι → α}

theorem Collected.mono (h : Collected part lo hi t) {lo' hi' : Nat} (hlo : lo' ≤ lo)
    (hhi : hi ≤ hi') : Collected part lo' hi' t := by
  intro i
  obtain ⟨n, h1, h2, h3⟩ := h i
  exact ⟨n, Nat.le_trans hlo h1, Nat.le_trans h2 hhi, h3⟩

/-- Two equal collects show what was there between them. -/
theorem Collected.at_between (hsteady : ∀ i, Steady W (part i)) (h : Collected part lo m t)
    (h' : Collected part m hi t) (hW : hi - lo < W) : ∀ i, t i = part i m := by
  intro i
  obtain ⟨a, ha, ham, hta⟩ := h i
  obtain ⟨b, hmb, hb, htb⟩ := h' i
  have hsame := hsteady i a m b ham hmb (by omega) (hta.symm.trans htb)
  rw [hta, hsame]

/-! ## The two halves of a counter -/

theorem eq_of_mod_eq {a b : Nat} (hab : a ≤ b) (hW : b - a < W) (h : a % W = b % W) : a = b := by
  have hzero := Nat.sub_mod_eq_zero_of_mod_eq h.symm
  rw [Nat.mod_eq_of_lt hW] at hzero
  omega

/-- A low half that shows the same again after fewer than `W` steps has not moved. -/
theorem steady_mod (W : Nat) : Steady W fun n => n % W := by
  intro a m b ham hmb hW heq
  have hend := eq_of_mod_eq (Nat.le_trans ham hmb) hW heq
  have hma : m = a := by omega
  rw [hma]

/-- In fewer than `W` steps there is at most one carry, so the high half is the same at
both ends only when there was none. -/
theorem steady_div_mod {W : Nat} (hpos : 1 < W) : Steady W fun n => n / W % W := by
  intro a m b ham hmb hW heq
  have hup1 := Nat.div_le_div_right ham (c := W)
  have hup2 := Nat.div_le_div_right hmb (c := W)
  have hcarry : b / W ≤ a / W + 1 := by
    have hb : b ≤ a + W := by omega
    have hdiv := Nat.div_le_div_right hb (c := W)
    rwa [Nat.add_div_right a (by omega)] at hdiv
  have hend := eq_of_mod_eq (Nat.le_trans hup1 hup2) (by omega) heq
  have hm : m / W = a / W := by omega
  simp only [hm]

end DoubleCollect
