import VerifiedDice.Lib.BitPolynomial
import VerifiedDice.Lib.Memory
import Mathlib.Data.BitVec
import Mathlib.Data.Fintype.BigOperators
import Mathlib.NumberTheory.LucasPrimality
import Mathlib.Tactic.NormNum.Prime
import Mathlib.Tactic.ReduceModChar

/-!
# The software generator

`RNG_Rand` without `USE_HW_RNG`: the bytes come from `xoroshiro128plus`. From any seed that
`xoroshiro128plus_seed` takes, the generator goes through all `2 ^ 128 - 1` nonzero states
before it repeats one.
-/
namespace VerifiedDice

open BitPolynomial ByteMemory

def rotl (x : BitVec 64) (k : Nat) : BitVec 64 := (x <<< k) ||| (x >>> (64 - k))

/-- The variable `s`. -/
@[ext] structure Xoroshiro where
  s0 : BitVec 64
  s1 : BitVec 64
deriving DecidableEq, Repr

namespace Xoroshiro

def xoroshiro128plusRand (s : Xoroshiro) : BitVec 64 × Xoroshiro :=
  let s0 := s.s0
  let result := s0 + s.s1
  let s1 := s.s1 ^^^ s0
  (result, { s0 := rotl s0 24 ^^^ s1 ^^^ (s1 <<< 16), s1 := rotl s1 37 })

/-- `none` where the assertion fails. -/
def xoroshiro128plusSeed (a b : BitVec 64) : Option Xoroshiro :=
  if a ≠ 0 ∨ b ≠ 0 then some { s0 := a, s1 := b } else none

/-- What the generator starts from when it is not seeded. -/
def defaultSeed : Xoroshiro := { s0 := 0x123, s1 := 0x456 }

def next (s : Xoroshiro) : Xoroshiro := s.xoroshiro128plusRand.2

/-- The byte that `RNG_Rand` takes from a result. -/
def byte (s : Xoroshiro) : Byte := (s.xoroshiro128plusRand.1 >>> 48).setWidth 8

/-- `RNG_Rand`: the bytes that it stores, and the state that it leaves. -/
def rngRand : Nat → Xoroshiro → List Byte × Xoroshiro
  | 0, s => ([], s)
  | size + 1, s =>
    let rest := rngRand size s.next
    (s.byte :: rest.1, rest.2)

/-- The buffers of one call of `RNG_Rand` after another. -/
def rngRands : List Nat → Xoroshiro → List (List Byte)
  | [], _ => []
  | size :: sizes, s =>
    let buffer := rngRand size s
    buffer.1 :: rngRands sizes buffer.2

/-! ## States as vectors

The sum of two states is their exclusive or. -/

instance : Zero Xoroshiro := ⟨{ s0 := 0, s1 := 0 }⟩

instance : Add Xoroshiro := ⟨fun s t => { s0 := s.s0 ^^^ t.s0, s1 := s.s1 ^^^ t.s1 }⟩

instance : Neg Xoroshiro := ⟨fun s => s⟩

@[simp] theorem zero_s0 : (0 : Xoroshiro).s0 = 0 := rfl
@[simp] theorem zero_s1 : (0 : Xoroshiro).s1 = 0 := rfl
@[simp] theorem add_s0 (s t : Xoroshiro) : (s + t).s0 = s.s0 ^^^ t.s0 := rfl
@[simp] theorem add_s1 (s t : Xoroshiro) : (s + t).s1 = s.s1 ^^^ t.s1 := rfl

theorem add_self (s : Xoroshiro) : s + s = 0 := by ext1 <;> simp

instance : AddCommGroup Xoroshiro where
  add_assoc s t u := by ext1 <;> simp [BitVec.xor_assoc]
  zero_add s := by ext1 <;> simp
  add_zero s := by ext1 <;> simp
  add_comm s t := by ext1 <;> simp [BitVec.xor_comm]
  neg_add_cancel s := add_self s
  nsmul := nsmulRec
  zsmul := zsmulRec

theorem rotl_xor (x y : BitVec 64) (k : Nat) : rotl (x ^^^ y) k = rotl x k ^^^ rotl y k := by
  ext i hi
  simp only [rotl, BitVec.getElem_or, BitVec.getElem_xor, BitVec.getElem_shiftLeft,
    BitVec.getElem_ushiftRight, BitVec.getLsbD_xor]
  by_cases h : i < k
  · simp [h]
  · have hhigh : 64 ≤ 64 - k + i := by omega
    simp [h, BitVec.getLsbD_of_ge _ _ hhigh]

theorem next_s0 (s : Xoroshiro) :
    s.next.s0 = rotl s.s0 24 ^^^ (s.s1 ^^^ s.s0) ^^^ ((s.s1 ^^^ s.s0) <<< 16) := rfl

theorem next_s1 (s : Xoroshiro) : s.next.s1 = rotl (s.s1 ^^^ s.s0) 37 := rfl

theorem next_zero : next 0 = 0 := by decide

theorem xor_xor_xor_comm (a b c d : BitVec 64) : a ^^^ b ^^^ (c ^^^ d) = a ^^^ c ^^^ (b ^^^ d) := by
  rw [BitVec.xor_assoc, ← BitVec.xor_assoc b, BitVec.xor_comm b c, BitVec.xor_assoc c,
    ← BitVec.xor_assoc a]

theorem next_add (s t : Xoroshiro) : next (s + t) = next s + next t := by
  have hmix : (s + t).s1 ^^^ (s + t).s0 = s.s1 ^^^ s.s0 ^^^ (t.s1 ^^^ t.s0) :=
    xor_xor_xor_comm _ _ _ _
  ext1
  · rw [next_s0, hmix, add_s0, add_s0, rotl_xor, BitVec.shiftLeft_xor_distrib,
      xor_xor_xor_comm (rotl s.s0 24), xor_xor_xor_comm]
    rfl
  · rw [next_s1, hmix, rotl_xor]
    rfl

/-- The step of the generator as a linear map. -/
def step : AddMonoid.End Xoroshiro where
  toFun := next
  map_zero' := next_zero
  map_add' := next_add

/-! ## The period -/

/-- The characteristic polynomial of the step. -/
def modulus : Modulus where
  bits := 0x10008828e513b43d5095b8f76579aa001
  degree := 128
  leading := by decide
  positive := by decide

theorem modulus_root0 : ∀ i < 64, horner next (modulus.degree + 1) modulus.bits
    { s0 := BitVec.ofNat 64 (2 ^ i), s1 := 0 } = 0 := by
  decide +kernel

theorem modulus_root1 : ∀ i < 64, horner next (modulus.degree + 1) modulus.bits
    { s0 := 0, s1 := BitVec.ofNat 64 (2 ^ i) } = 0 := by
  decide +kernel

theorem word0_add (x y : BitVec 64) :
    ({ s0 := x, s1 := 0 } + { s0 := y, s1 := 0 } : Xoroshiro) = { s0 := x ^^^ y, s1 := 0 } := by
  ext1 <;> simp

theorem word1_add (x y : BitVec 64) :
    ({ s0 := 0, s1 := x } + { s0 := 0, s1 := y } : Xoroshiro) = { s0 := 0, s1 := x ^^^ y } := by
  ext1 <;> simp

theorem eq_zero_of_words (f : AddMonoid.End Xoroshiro)
    (h0 : ∀ i < 64, f { s0 := BitVec.ofNat 64 (2 ^ i), s1 := 0 } = 0)
    (h1 : ∀ i < 64, f { s0 := 0, s1 := BitVec.ofNat 64 (2 ^ i) } = 0) (s : Xoroshiro) :
    f s = 0 := by
  have hs0 := eq_zero_of_bits (fun x => f { s0 := x, s1 := 0 })
    (fun x y => by rw [← map_add, word0_add]) h0 s.s0
  have hs1 := eq_zero_of_bits (fun x => f { s0 := 0, s1 := x })
    (fun x y => by rw [← map_add, word1_add]) h1 s.s1
  have hsplit : s = { s0 := s.s0, s1 := 0 } + { s0 := 0, s1 := s.s1 } := by ext1 <;> simp
  rw [hsplit, map_add, hs0, hs1, add_zero]

theorem modulus_root (s : Xoroshiro) :
    horner step (modulus.degree + 1) modulus.bits s = 0 := by
  have heq : ∀ v, eval step (modulus.degree + 1) modulus.bits v =
      horner step (modulus.degree + 1) modulus.bits v := fun v => (horner_eq step _ _ v).symm
  rw [← heq]
  exact eq_zero_of_words _ (fun i hi => (heq _).trans (modulus_root0 i hi))
    (fun i hi => (heq _).trans (modulus_root1 i hi)) s

theorem prime_67280421310721 : Nat.Prime 67280421310721 := by
  refine lucas_primality _ (3 : ZMod 67280421310721) (by reduce_mod_char) fun q hq hdvd => ?_
  have hfactors : 67280421310721 - 1 = (List.replicate 8 2 ++ [5, 47, 373, 2998279]).prod := by
    decide
  have hprimes : ∀ q ∈ List.replicate 8 2 ++ [5, 47, 373, 2998279], Prime q := by
    intro q hq
    rcases List.mem_append.mp hq with h | h
    · rw [List.eq_of_mem_replicate h]
      exact Nat.prime_two.prime
    · simp only [List.mem_cons, List.not_mem_nil, or_false] at h
      rcases h with rfl | rfl | rfl | rfl <;> exact Nat.Prime.prime (by norm_num)
  rw [hfactors] at hdvd
  have hmem := mem_list_primes_of_dvd_prod hq.prime hprimes hdvd
  have hcases : q = 2 ∨ q = 5 ∨ q = 47 ∨ q = 373 ∨ q = 2998279 := by
    simpa using hmem
  rcases hcases with rfl | rfl | rfl | rfl | rfl
  all_goals
    norm_num
    reduce_mod_char
    decide +kernel

/-- The prime factors of `2 ^ 128 - 1`, each with the inverse of one less than the power of
the variable that it leaves. -/
def certificates : List (Nat × Nat) :=
  [(3, 0x28ad2cf3e09d85f0dc40f461d2c2c7d8), (5, 0xbe5308ec69514dc2ca8939e8bb7cc7f3),
    (17, 0xb033aadb8e620d5380760c3edaa7db8), (257, 0x30e5aaf1d16d836bb08347f6b98df9d6),
    (641, 0x6ec2b2abc5012855a81493c7e42b2476), (65537, 0x3c13da96bdf060b8b178dd43e7c56a9e),
    (274177, 0x37430ca27c542004fe3ea4c3ea9f5ebc), (6700417, 0xfbf5d1e791cb791fc6077daa37669ed5),
    (67280421310721, 0x55db575fb05489582681f5f2a0a72912)]

theorem certificates_prime : ∀ c ∈ certificates, c.1.Prime := by
  simp only [certificates, List.forall_mem_cons]
  refine ⟨?_, ?_, ?_, ?_, ?_, ?_, ?_, ?_, prime_67280421310721, by simp⟩ <;> norm_num

theorem certificates_prod : (certificates.map Prod.fst).prod = 2 ^ 128 - 1 := by decide

theorem powMod_period : powMod modulus 128 (2 ^ 128 - 1) = 1 := by decide +kernel

theorem certificates_unit : ∀ c ∈ certificates,
    mulMod modulus (powMod modulus 128 ((2 ^ 128 - 1) / c.1) ^^^ 1) modulus.degree c.2 = 1 := by
  decide +kernel

theorem prime_dvd_period {p : Nat} (hp : p.Prime) (hdvd : p ∣ 2 ^ 128 - 1) :
    ∃ c ∈ certificates, c.1 = p := by
  rw [← certificates_prod] at hdvd
  have hprimes : ∀ q ∈ certificates.map Prod.fst, Prime q := by
    intro q hq
    obtain ⟨c, hc, rfl⟩ := List.mem_map.mp hq
    exact (certificates_prime c hc).prime
  exact List.mem_map.mp (mem_list_primes_of_dvd_prod hp.prime hprimes hdvd)

theorem minimalPeriod_next {s : Xoroshiro} (hs : s ≠ 0) :
    Function.minimalPeriod next s = 2 ^ 128 - 1 := by
  refine BitPolynomial.minimalPeriod_eq (f := step) (k := 128) modulus add_self modulus_root
    (by decide) powMod_period ?_ hs
  intro p hp hdvd
  obtain ⟨c, hc, rfl⟩ := prime_dvd_period hp hdvd
  exact ⟨c.2, certificates_unit c hc⟩

/-! ## One turn -/

instance (n : Nat) : Finite (BitVec n) := Finite.of_equiv _ BitVec.equivFin.symm.toEquiv

noncomputable instance (n : Nat) : Fintype (BitVec n) := Fintype.ofFinite _

theorem card_bitVec (n : Nat) : Fintype.card (BitVec n) = 2 ^ n := by
  rw [Fintype.card_congr BitVec.equivFin.toEquiv, Fintype.card_fin]

def equivProd : Xoroshiro ≃ BitVec 64 × BitVec 64 where
  toFun s := (s.s0, s.s1)
  invFun p := { s0 := p.1, s1 := p.2 }

instance : Finite Xoroshiro := Finite.of_equiv _ equivProd.symm

noncomputable instance : Fintype Xoroshiro := Fintype.ofFinite _

theorem card_states : Fintype.card Xoroshiro = 2 ^ 128 := by
  rw [Fintype.card_congr equivProd, Fintype.card_prod, card_bitVec, ← Nat.pow_add]

theorem iterate_next_ne_zero {s : Xoroshiro} (hs : s ≠ 0) (n : Nat) : next^[n] s ≠ 0 := by
  intro h
  have hzero : ∀ k, next^[k] 0 = 0 := fun k => Function.iterate_fixed next_zero k
  have hback : next^[Function.minimalPeriod next s * n] s = s :=
    (Function.isPeriodicPt_minimalPeriod next s).mul_const n
  have hpos : 0 < Function.minimalPeriod next s := by
    rw [minimalPeriod_next hs]
    decide
  have hle : n ≤ Function.minimalPeriod next s * n := Nat.le_mul_of_pos_left n hpos
  rw [← Nat.sub_add_cancel hle, Function.iterate_add_apply, h, hzero] at hback
  exact hs hback.symm

theorem period_card {s : Xoroshiro} (hs : s ≠ 0) :
    Function.minimalPeriod next s + 1 = Fintype.card Xoroshiro := by
  rw [minimalPeriod_next hs, card_states]
  norm_num

theorem seed_ne_zero {a b : BitVec 64} {s : Xoroshiro}
    (h : xoroshiro128plusSeed a b = some s) : s ≠ 0 := by
  unfold xoroshiro128plusSeed at h
  split at h
  · rename_i hne
    obtain rfl := Option.some.inj h
    intro hs
    have h0 : a = 0 := congrArg Xoroshiro.s0 hs
    have h1 : b = 0 := congrArg Xoroshiro.s1 hs
    exact hne.elim (fun h => h h0) fun h => h h1
  · cases h

/-- From every seed that is accepted, the generator goes through all the nonzero states, and
only these, before it is back where it started. -/
theorem seeded_full_period {a b : BitVec 64} {s : Xoroshiro}
    (h : xoroshiro128plusSeed a b = some s) :
    Function.minimalPeriod next s = 2 ^ 128 - 1 ∧
      ∀ t, t ≠ 0 ↔ ∃ n < 2 ^ 128 - 1, next^[n] s = t := by
  have hs := seed_ne_zero h
  refine ⟨minimalPeriod_next hs, fun t => ?_⟩
  have himage := image_orbit (iterate_next_ne_zero hs) (period_card hs)
  constructor
  · intro ht
    have hmem : t ∈ Finset.univ.erase (0 : Xoroshiro) :=
      Finset.mem_erase.mpr ⟨ht, Finset.mem_univ t⟩
    rw [← himage] at hmem
    obtain ⟨n, hn, hnt⟩ := Finset.mem_image.mp hmem
    have hlt := Finset.mem_range.mp hn
    rw [minimalPeriod_next hs] at hlt
    exact ⟨n, hlt, hnt⟩
  · rintro ⟨n, -, rfl⟩
    exact iterate_next_ne_zero hs n

theorem defaultSeed_full_period :
    xoroshiro128plusSeed 0x123 0x456 = some defaultSeed ∧
      Function.minimalPeriod next defaultSeed = 2 ^ 128 - 1 ∧
        ∀ t, t ≠ 0 ↔ ∃ n < 2 ^ 128 - 1, next^[n] defaultSeed = t :=
  ⟨by decide, seeded_full_period (a := 0x123) (b := 0x456) (by decide)⟩

/-! ## The bytes of one turn -/

theorem rngRand_eq (size : Nat) (s : Xoroshiro) :
    rngRand size s = ((List.range size).map fun i => byte (next^[i] s), next^[size] s) := by
  induction size generalizing s with
  | zero => rfl
  | succ size ih =>
    rw [rngRand, ih, List.range_succ_eq_map, List.map_cons, List.map_map]
    rfl

/-- How the requests divide the bytes makes no difference to them. -/
theorem rngRands_flatten (sizes : List Nat) (s : Xoroshiro) :
    (rngRands sizes s).flatten = (rngRand sizes.sum s).1 := by
  induction sizes generalizing s with
  | nil => rfl
  | cons size sizes ih =>
    rw [rngRands, List.flatten_cons, ih, List.sum_cons]
    simp only [rngRand_eq, List.range_add, List.map_append, List.map_map, Function.comp_def,
      ← Function.iterate_add_apply, Nat.add_comm]

/-- The state with `b` added to the byte that it gives. -/
def addByte (b : Byte) : Xoroshiro ≃ Xoroshiro where
  toFun s := { s with s1 := s.s1 + b.setWidth 64 <<< 48 }
  invFun s := { s with s1 := s.s1 - b.setWidth 64 <<< 48 }
  left_inv s := by simp
  right_inv s := by simp

@[simp] theorem addByte_s0 (b : Byte) (s : Xoroshiro) : (addByte b s).s0 = s.s0 := by
  simp only [addByte, Equiv.coe_fn_mk]

@[simp] theorem addByte_s1 (b : Byte) (s : Xoroshiro) :
    (addByte b s).s1 = s.s1 + b.setWidth 64 <<< 48 := by
  simp only [addByte, Equiv.coe_fn_mk]

theorem byte_eq (s : Xoroshiro) : byte s = ((s.s0 + s.s1) >>> 48).setWidth 8 := rfl

theorem byte_addByte (b : Byte) (s : Xoroshiro) : byte (addByte b s) = byte s + b := by
  have hsum : ∀ x y : BitVec 64, ((x + (y + b.setWidth 64 <<< 48)) >>> 48).setWidth 8 =
      ((x + y) >>> 48).setWidth 8 + b := by
    intro x y
    apply BitVec.eq_of_toNat_eq
    have hb := b.isLt
    have hx := x.isLt
    have hy := y.isLt
    simp only [BitVec.toNat_setWidth, BitVec.toNat_ushiftRight, BitVec.toNat_add,
      BitVec.toNat_shiftLeft, Nat.shiftRight_eq_div_pow, Nat.shiftLeft_eq]
    omega
  rw [byte_eq, byte_eq, addByte_s0, addByte_s1, hsum]

/-- All bytes come from equally many states. -/
theorem card_byte_eq (b : Byte) :
    (Finset.univ.filter fun s : Xoroshiro => byte s = b).card =
      (Finset.univ.filter fun s : Xoroshiro => byte s = 0).card := by
  refine (Finset.card_equiv (addByte b) fun s => ?_).symm
  simp [byte_addByte]

theorem card_byte (b : Byte) :
    (Finset.univ.filter fun s : Xoroshiro => byte s = b).card = 2 ^ 120 := by
  have hfibers := Finset.card_eq_sum_card_fiberwise (f := byte) (s := Finset.univ)
    (t := Finset.univ) fun s _ => Finset.mem_coe.mpr (Finset.mem_univ (byte s))
  have hsum : ∑ b : Byte, (Finset.univ.filter fun s : Xoroshiro => byte s = b).card =
      2 ^ 8 * (Finset.univ.filter fun s : Xoroshiro => byte s = 0).card := by
    rw [Finset.sum_congr rfl fun b _ => card_byte_eq b, Finset.sum_const, Finset.card_univ,
      card_bitVec, smul_eq_mul]
  rw [Finset.card_univ, card_states, hsum] at hfibers
  rw [card_byte_eq]
  omega

/-- In one turn every byte comes up `2 ^ 120` times, and zero once less. -/
theorem rngRands_balanced {a b : BitVec 64} {s : Xoroshiro}
    (h : xoroshiro128plusSeed a b = some s) {sizes : List Nat} (hsum : sizes.sum = 2 ^ 128 - 1)
    (c : Byte) :
    (rngRands sizes s).flatten.count c = if c = 0 then 2 ^ 120 - 1 else 2 ^ 120 := by
  have hs := seed_ne_zero h
  have hcount := count_orbit (iterate_next_ne_zero hs) (period_card hs) byte c
  rw [rngRands_flatten, rngRand_eq, hsum, ← minimalPeriod_next hs, hcount, Finset.filter_erase]
  split
  · rename_i hc
    have hmem : (0 : Xoroshiro) ∈ Finset.univ.filter fun t => byte t = c :=
      Finset.mem_filter.mpr ⟨Finset.mem_univ _, hc.symm⟩
    rw [Finset.card_erase_of_mem hmem, card_byte]
  · rename_i hc
    have hmem : (0 : Xoroshiro) ∉ Finset.univ.filter fun t => byte t = c :=
      fun hmem => hc (Finset.mem_filter.mp hmem).2.symm
    rw [Finset.erase_eq_of_notMem hmem, card_byte]

/-- A turn in calls of the largest size that a 32-bit `size_t` can ask for. -/
theorem defaultSeed_balanced :
    (rngRands (List.replicate (2 ^ 96 + 2 ^ 64 + 2 ^ 32 + 1) (2 ^ 32 - 1))
      defaultSeed).flatten.count 7 = 2 ^ 120 := by
  have hsum : (List.replicate (2 ^ 96 + 2 ^ 64 + 2 ^ 32 + 1) (2 ^ 32 - 1)).sum = 2 ^ 128 - 1 := by
    rw [List.sum_replicate_nat]
    norm_num
  exact rngRands_balanced (a := 0x123) (b := 0x456) (by decide) hsum 7

end Xoroshiro

end VerifiedDice
