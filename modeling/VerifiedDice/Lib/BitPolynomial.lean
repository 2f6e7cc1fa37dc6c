import Mathlib.Algebra.BigOperators.Intervals
import Mathlib.Algebra.BigOperators.Ring.Finset
import Mathlib.Data.Finset.Card
import Mathlib.Data.Fintype.Card
import Mathlib.Data.Nat.Bitwise
import Mathlib.Data.Nat.Prime.Basic
import Mathlib.Dynamics.PeriodicPts.Defs
import Mathlib.Algebra.Group.Hom.End

/-!
# Polynomials over two elements as numbers

The bits of a number are the coefficients of a polynomial over the field of two elements.
Products and powers of the variable are computed modulo a polynomial of known degree, and a
value of the variable that is a root of the modulus cannot tell a product from its remainder.
From that follows the period of an additive map: it is `N` at every nonzero point as soon as
the `N`th power of the variable is one and its proper powers are one less a unit.
-/
namespace BitPolynomial

/-- A polynomial with its degree: `bits` has nothing above bit `degree`, which is set. -/
structure Modulus where
  bits : Nat
  degree : Nat
  leading : bits >>> degree = 1
  positive : 0 < degree

/-! ## Arithmetic

The operations are named as functions of `Nat`, which the kernel computes at once. -/

/-- The remainder of a polynomial that is at most of the degree of the modulus. -/
def reduce (m : Modulus) (a : Nat) : Nat :=
  Nat.xor a (Nat.mul (Nat.shiftRight a m.degree) m.bits)

/-- `a` times the polynomial of the low `k` bits of `b`. -/
def mulMod (m : Modulus) (a : Nat) : Nat → Nat → Nat
  | 0, _ => 0
  | k + 1, b =>
    Nat.xor (reduce m (Nat.mul 2 (mulMod m a k (Nat.div b 2)))) (Nat.mul (Nat.mod b 2) a)

/-- The variable to the power of the low `k` bits of `e`. -/
def powMod (m : Modulus) : Nat → Nat → Nat
  | 0, _ => 1
  | k + 1, e =>
    let half := powMod m k (e / 2)
    let square := mulMod m half m.degree half
    if e % 2 = 1 then reduce m (2 * square) else square

/-! ## Values -/

section Eval

variable {R : Type*} [Ring R] (x : R)

/-- The value at `x` of the polynomial of the low `w` bits of `n`. -/
def eval (w n : Nat) : R := ∑ i ∈ Finset.range w, if n.testBit i then x ^ i else 0

theorem eval_succ (w n : Nat) :
    eval x (w + 1) n = x * eval x w (n / 2) + if n % 2 = 1 then 1 else 0 := by
  have hlow : n.testBit 0 = decide (n % 2 = 1) := Nat.testBit_zero n
  have hhigh : ∀ i, (if n.testBit (i + 1) then x ^ (i + 1) else 0) =
      x * if (n / 2).testBit i then x ^ i else 0 := by
    intro i
    rw [Nat.testBit_succ, mul_ite, mul_zero, pow_succ']
  simp only [eval, Finset.sum_range_succ', hhigh, Finset.mul_sum, hlow, decide_eq_true_eq,
    pow_zero]

@[simp] theorem eval_zero (w : Nat) : eval x w 0 = 0 := by simp [eval]

theorem eval_one {w : Nat} (hw : 0 < w) : eval x w 1 = 1 := by
  obtain ⟨w, rfl⟩ := Nat.exists_eq_succ_of_ne_zero (Nat.ne_of_gt hw)
  rw [eval_succ]
  simp

theorem eval_double (w n : Nat) : eval x (w + 1) (2 * n) = x * eval x w n := by
  rw [eval_succ, show 2 * n / 2 = n by omega, if_neg (by omega), add_zero]

theorem eval_of_lt {w n : Nat} (h : n < 2 ^ w) : eval x (w + 1) n = eval x w n := by
  have htop : n.testBit w = false := Nat.testBit_lt_two_pow h
  simp [eval, Finset.sum_range_succ, htop]

theorem eval_xor (htwo : ∀ y : R, y + y = 0) (w a b : Nat) :
    eval x w (a ^^^ b) = eval x w a + eval x w b := by
  rw [eval, eval, eval, ← Finset.sum_add_distrib]
  refine Finset.sum_congr rfl fun i _ => ?_
  rw [Nat.testBit_xor]
  cases a.testBit i <;> cases b.testBit i <;> simp [htwo]

end Eval

/-! ## Remainders -/

theorem testBit_top {k a : Nat} (hge : 2 ^ k ≤ a) (hlt : a < 2 ^ (k + 1)) :
    a.testBit k = true := by
  rw [Nat.pow_succ] at hlt
  rw [Nat.testBit, Nat.shiftRight_eq_div_pow, Nat.div_eq_of_lt_le (k := 1) (by omega) (by omega)]
  rfl

/-- Two leading terms of one degree cancel. -/
theorem xor_lt_of_top {k a b : Nat} (ha : 2 ^ k ≤ a) (ha' : a < 2 ^ (k + 1)) (hb : 2 ^ k ≤ b)
    (hb' : b < 2 ^ (k + 1)) : a ^^^ b < 2 ^ k := by
  refine Nat.lt_pow_two_of_testBit _ fun i hi => ?_
  rw [Nat.testBit_xor]
  rcases Nat.eq_or_lt_of_le hi with rfl | hi
  · rw [testBit_top ha ha', testBit_top hb hb']
    rfl
  · have hpow : 2 ^ (k + 1) ≤ 2 ^ i := Nat.pow_le_pow_right (by decide) hi
    rw [Nat.testBit_lt_two_pow (Nat.lt_of_lt_of_le ha' hpow),
      Nat.testBit_lt_two_pow (Nat.lt_of_lt_of_le hb' hpow)]
    rfl

variable (m : Modulus)

theorem Modulus.bits_lt : m.bits < 2 ^ (m.degree + 1) := by
  have h := m.leading
  rw [Nat.shiftRight_eq_div_pow] at h
  have hlt : m.bits < 2 * 2 ^ m.degree := by
    rw [← Nat.div_lt_iff_lt_mul (Nat.two_pow_pos _), h]
    decide
  rw [Nat.pow_succ]
  omega

theorem Modulus.le_bits : 2 ^ m.degree ≤ m.bits := by
  have h := m.leading
  rw [Nat.shiftRight_eq_div_pow] at h
  exact Nat.le_of_not_lt fun hlt => by simp [Nat.div_eq_of_lt hlt] at h

theorem reduce_of_lt {a : Nat} (h : a < 2 ^ m.degree) : reduce m a = a := by
  have hshift : a >>> m.degree = 0 := by
    rw [Nat.shiftRight_eq_div_pow]
    exact Nat.div_eq_of_lt h
  change a ^^^ (a >>> m.degree * m.bits) = a
  rw [hshift, Nat.zero_mul, Nat.xor_zero]

theorem reduce_of_ge {a : Nat} (hge : 2 ^ m.degree ≤ a) (hlt : a < 2 ^ (m.degree + 1)) :
    reduce m a = a ^^^ m.bits := by
  have hshift : a >>> m.degree = 1 := by
    rw [Nat.shiftRight_eq_div_pow]
    rw [Nat.pow_succ] at hlt
    exact Nat.div_eq_of_lt_le (by omega) (by omega)
  change a ^^^ (a >>> m.degree * m.bits) = a ^^^ m.bits
  rw [hshift, Nat.one_mul]

theorem reduce_lt {a : Nat} (h : a < 2 ^ (m.degree + 1)) : reduce m a < 2 ^ m.degree := by
  rcases Nat.lt_or_ge a (2 ^ m.degree) with hlt | hge
  · rw [reduce_of_lt m hlt]
    exact hlt
  · rw [reduce_of_ge m hge h]
    exact xor_lt_of_top hge h m.le_bits m.bits_lt

theorem double_lt {a : Nat} (h : a < 2 ^ m.degree) : 2 * a < 2 ^ (m.degree + 1) := by
  rw [Nat.pow_succ]
  omega

theorem mulMod_lt {a : Nat} (ha : a < 2 ^ m.degree) (k b : Nat) :
    mulMod m a k b < 2 ^ m.degree := by
  induction k generalizing b with
  | zero => exact Nat.two_pow_pos _
  | succ k ih =>
    have hlow : b % 2 * a < 2 ^ m.degree := by
      rcases Nat.mod_two_eq_zero_or_one b with h | h <;> rw [h] <;> omega
    exact Nat.xor_lt_two_pow (reduce_lt m (double_lt m (ih (b / 2)))) hlow

theorem powMod_lt (k e : Nat) : powMod m k e < 2 ^ m.degree := by
  induction k generalizing e with
  | zero => exact Nat.one_lt_two_pow (Nat.ne_of_gt m.positive)
  | succ k ih =>
    have hsquare := mulMod_lt m (ih (e / 2)) m.degree (powMod m k (e / 2))
    rw [powMod]
    split
    · exact reduce_lt m (double_lt m hsquare)
    · exact hsquare

/-! ## At a root of the modulus -/

section Root

variable {R : Type*} [Ring R] {x : R} (htwo : ∀ y : R, y + y = 0)
  (hroot : eval x (m.degree + 1) m.bits = 0)

include htwo hroot

theorem eval_reduce {a : Nat} (h : a < 2 ^ (m.degree + 1)) :
    eval x m.degree (reduce m a) = eval x (m.degree + 1) a := by
  rw [← eval_of_lt x (reduce_lt m h)]
  rcases Nat.lt_or_ge a (2 ^ m.degree) with hlt | hge
  · rw [reduce_of_lt m hlt]
  · rw [reduce_of_ge m hge h, eval_xor x htwo, hroot, add_zero]

theorem eval_mulMod {a : Nat} (ha : a < 2 ^ m.degree) (k b : Nat) :
    eval x m.degree (mulMod m a k b) = eval x k b * eval x m.degree a := by
  induction k generalizing b with
  | zero => simp [mulMod, eval]
  | succ k ih =>
    have hdouble := double_lt m (mulMod_lt m ha k (b / 2))
    calc eval x m.degree (mulMod m a (k + 1) b)
        = eval x m.degree (reduce m (2 * mulMod m a k (b / 2))) +
            eval x m.degree (b % 2 * a) := eval_xor x htwo _ _ _
      _ = x * (eval x k (b / 2) * eval x m.degree a) + eval x m.degree (b % 2 * a) := by
          rw [eval_reduce m htwo hroot hdouble, eval_double, ih]
      _ = eval x (k + 1) b * eval x m.degree a := by
          rw [eval_succ, add_mul, mul_assoc]
          rcases Nat.mod_two_eq_zero_or_one b with h | h <;> simp [h]

theorem eval_powMod {k e : Nat} (he : e < 2 ^ k) :
    eval x m.degree (powMod m k e) = x ^ e := by
  induction k generalizing e with
  | zero =>
    obtain rfl : e = 0 := by simpa using he
    rw [powMod, eval_one x m.positive, pow_zero]
  | succ k ih =>
    have hhalf := ih (e := e / 2) (by rw [Nat.pow_succ] at he; omega)
    have hlt := powMod_lt m k (e / 2)
    have hsquare : eval x m.degree (mulMod m (powMod m k (e / 2)) m.degree
        (powMod m k (e / 2))) = x ^ (2 * (e / 2)) := by
      rw [eval_mulMod m htwo hroot hlt, hhalf, ← pow_add, two_mul]
    rw [powMod]
    split
    · rename_i hodd
      rw [eval_reduce m htwo hroot (double_lt m (mulMod_lt m hlt _ _)), eval_double, hsquare,
        ← pow_succ']
      congr 1
      omega
    · rename_i heven
      rw [hsquare]
      congr 1
      omega

end Root

/-! ## Additive maps -/

/-- The map of the polynomial of the low `k` bits of `p`, applied to `v` by the rule of
Horner. -/
def horner {V : Type*} [Zero V] [Add V] (f : V → V) : Nat → Nat → V → V
  | 0, _, _ => 0
  | k + 1, p, v =>
    let rest := f (horner f k (p / 2) v)
    if p % 2 = 1 then rest + v else rest

section Map

variable {V : Type*} [AddCommGroup V]

/-- What takes exclusive or to sums and the powers of two to zero is zero. -/
theorem eq_zero_of_bits {w : Nat} (g : BitVec w → V) (hxor : ∀ x y, g (x ^^^ y) = g x + g y)
    (hbit : ∀ i < w, g (BitVec.ofNat w (2 ^ i)) = 0) (x : BitVec w) : g x = 0 := by
  have hzero : g 0#w = 0 := by
    have h := hxor 0#w 0#w
    rw [BitVec.xor_self] at h
    exact left_eq_add.mp h
  have hlow : ∀ k ≤ w, ∀ n < 2 ^ k, g (BitVec.ofNat w n) = 0 := by
    intro k
    induction k with
    | zero =>
      intro _ n hn
      obtain rfl : n = 0 := by simpa using hn
      exact hzero
    | succ k ih =>
      intro hk n hn
      rcases Nat.lt_or_ge n (2 ^ k) with hlt | hge
      · exact ih (by omega) n hlt
      · have hrest := xor_lt_of_top hge hn (Nat.le_refl _)
          (Nat.pow_lt_pow_right (by decide) (Nat.lt_succ_self k))
        have hn' : n = n ^^^ 2 ^ k ^^^ 2 ^ k := by rw [Nat.xor_assoc, Nat.xor_self, Nat.xor_zero]
        rw [hn', BitVec.ofNat_xor, hxor, ih (by omega) _ hrest, hbit k hk, add_zero]
  have hx := hlow w (Nat.le_refl w) x.toNat x.isLt
  rwa [BitVec.ofNat_toNat, BitVec.setWidth_eq] at hx

variable (f : AddMonoid.End V)

theorem horner_eq (k p : Nat) (v : V) : horner f k p v = eval f k p v := by
  induction k generalizing p with
  | zero => simp [horner, eval]
  | succ k ih =>
    rw [horner, eval_succ, ih]
    split
    · rfl
    · rw [add_zero]
      rfl

variable {f}

/-- The period of every nonzero point, from powers of the variable alone. -/
theorem minimalPeriod_eq (hV : ∀ v : V, v + v = 0)
    (hroot : ∀ v, horner f (m.degree + 1) m.bits v = 0) {N k : Nat} (hN : N < 2 ^ k)
    (hone : powMod m k N = 1)
    (hunit : ∀ p, p.Prime → p ∣ N →
      ∃ q, mulMod m (powMod m k (N / p) ^^^ 1) m.degree q = 1)
    {v : V} (hv : v ≠ 0) : Function.minimalPeriod f v = N := by
  have htwo : ∀ g : AddMonoid.End V, g + g = 0 := fun g => AddMonoidHom.ext fun w => hV (g w)
  have hzero : eval f (m.degree + 1) m.bits = 0 :=
    AddMonoidHom.ext fun w => (horner_eq f _ _ w).symm.trans (hroot w)
  have heval : ∀ e, e < 2 ^ k → ∀ w, eval f m.degree (powMod m k e) w = f^[e] w := by
    intro e he w
    rw [eval_powMod m htwo hzero he]
    rfl
  have hid : eval f m.degree 1 v = v := by
    rw [eval_one f m.positive]
    rfl
  have hperiod : Function.IsPeriodicPt f N v := by
    have h := heval N hN v
    rw [hone, hid] at h
    exact h.symm
  have hdvd := hperiod.minimalPeriod_dvd
  by_contra hne
  -- A proper divisor of `N` divides `N / p` for some prime `p`.
  obtain ⟨c, hc⟩ := hdvd
  have hc1 : c ≠ 1 := by
    intro h
    rw [h, Nat.mul_one] at hc
    exact hne hc.symm
  have hcp := Nat.minFac_dvd c
  have hprime := Nat.minFac_prime hc1
  set p := c.minFac
  have hpN : p ∣ N := hc ▸ hcp.trans (Nat.dvd_mul_left c _)
  obtain ⟨q, hq⟩ := hunit p hprime hpN
  have hfix : f^[N / p] v = v := by
    obtain ⟨d, hd⟩ := hcp
    have hNp : N / p = Function.minimalPeriod f v * d := by
      rw [hc, hd, Nat.mul_left_comm, Nat.mul_div_cancel_left _ hprime.pos]
    rw [hNp]
    exact (Function.isPeriodicPt_minimalPeriod f v).mul_const d
  -- The unit takes `v` to zero, and its inverse takes zero to `v`.
  have hlt : powMod m k (N / p) ^^^ 1 < 2 ^ m.degree :=
    Nat.xor_lt_two_pow (powMod_lt m k _) (Nat.one_lt_two_pow (Nat.ne_of_gt m.positive))
  have hkill : eval f m.degree (powMod m k (N / p) ^^^ 1) v = 0 := by
    rw [eval_xor f htwo]
    change eval f m.degree (powMod m k (N / p)) v + eval f m.degree 1 v = 0
    rw [heval _ (Nat.lt_of_le_of_lt (Nat.div_le_self N p) hN), hfix, hid, hV]
  have hprod := eval_mulMod m htwo hzero hlt m.degree q
  rw [hq] at hprod
  refine hv ?_
  calc v = eval f m.degree 1 v := hid.symm
    _ = eval f m.degree q (eval f m.degree (powMod m k (N / p) ^^^ 1) v) := by
        rw [hprod]
        rfl
    _ = 0 := by rw [hkill, map_zero]

end Map

/-! ## Orbits -/

section Orbit

open Finset Function

variable {α β : Type*} [Fintype α] [DecidableEq α] [DecidableEq β] {f : α → α} {z s : α}

/-- An orbit that leaves out one point only and is that long goes through all the others. -/
theorem image_orbit (hz : ∀ n, f^[n] s ≠ z) (hcard : minimalPeriod f s + 1 = Fintype.card α) :
    (range (minimalPeriod f s)).image (f^[·] s) = univ.erase z := by
  have hinj : Set.InjOn (f^[·] s) (range (minimalPeriod f s)) := by
    rw [coe_range]
    exact iterate_injOn_Iio_minimalPeriod
  refine eq_of_subset_of_card_le (fun t ht => ?_) ?_
  · obtain ⟨n, -, rfl⟩ := mem_image.mp ht
    exact mem_erase.mpr ⟨hz n, mem_univ _⟩
  · rw [card_image_of_injOn hinj, card_range, card_erase_of_mem (mem_univ z), card_univ]
    omega

theorem count_map_range (g : Nat → β) (n : Nat) (b : β) :
    ((List.range n).map g).count b = #{i ∈ range n | g i = b} := by
  induction n with
  | zero => rfl
  | succ n ih =>
    rw [List.range_succ, List.map_append, List.count_append, ih, range_add_one, filter_insert]
    split
    · rename_i hb
      rw [card_insert_of_notMem (by simp)]
      simp [hb]
    · rename_i hb
      simp [hb]

/-- How often a value is seen in one turn of such an orbit. -/
theorem count_orbit (hz : ∀ n, f^[n] s ≠ z) (hcard : minimalPeriod f s + 1 = Fintype.card α)
    (h : α → β) (b : β) :
    ((List.range (minimalPeriod f s)).map fun i => h (f^[i] s)).count b =
      #{t ∈ univ.erase z | h t = b} := by
  rw [count_map_range, ← image_orbit hz hcard, filter_image, card_image_of_injOn]
  refine Set.InjOn.mono (fun i hi => ?_) iterate_injOn_Iio_minimalPeriod
  exact mem_range.mp (mem_filter.mp hi).1

end Orbit

end BitPolynomial
