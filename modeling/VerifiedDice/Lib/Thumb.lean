import VerifiedDice.Lib.Assembly
import VerifiedDice.Lib.Memory

/-!
# A fragment of the Thumb instruction set

The instructions that load constants, store words through a moving pointer, count
down and branch: a machine whose code is a list, addressed by index. The code is kept apart
from the data memory, which no store can turn into code: a program of this fragment
is taken to run from memory that it does not write, its literal pools included.
-/
namespace Thumb

open ByteMemory Assembly

abbrev Word := BitVec 32

inductive Reg where
  | r0 | r1 | r2 | r3 | r4 | r5 | r6 | r7 | r8 | r9 | r10 | r11 | r12 | sp | lr
deriving DecidableEq, Repr

inductive Instr where
  /-- `ldr rd, =value` -/
  | ldr (rd : Reg) (value : Word)
  /-- `mov rd, #value` -/
  | mov (rd : Reg) (value : Word)
  /-- `str rt, [rn], #offset` -/
  | str (rt rn : Reg) (offset : Word)
  /-- `subs rd, #value` -/
  | subs (rd : Reg) (value : Word)
  /-- `bne target` -/
  | bne (target : Nat)
  /-- `mov pc, rm` -/
  | movPc (rm : Reg)

/-- Registers, the zero flag (no instruction here reads another flag) and memory. -/
structure Data where
  regs : Reg → Word
  zero : Bool
  mem : Mem 32

/-- `BranchWritePC`: bit 0 of the operand is dropped. -/
def branchWritePC (v : Word) : Word := v &&& ~~~ 1#32

def Data.set (d : Data) (r : Reg) (v : Word) : Data :=
  { d with regs := Function.update d.regs r v }

@[simp] theorem Data.set_self (d : Data) (r : Reg) (v : Word) : (d.set r v).regs r = v := by
  simp [Data.set]

@[simp] theorem Data.set_other (d : Data) {r q : Reg} (v : Word) (h : q ≠ r) :
    (d.set r v).regs q = d.regs q := by simp [Data.set, h]

@[simp] theorem Data.set_mem (d : Data) (r : Reg) (v : Word) : (d.set r v).mem = d.mem := rfl

/-! ## Steps -/

/-- What an instruction does to registers, flag and memory. -/
def Instr.effect : Instr → Data → Data
  | .ldr rd value, d => d.set rd value
  | .mov rd value, d => d.set rd value
  | .str rt rn offset, d =>
    { d with mem := storeWord d.mem (d.regs rn) (d.regs rt) }.set rn (d.regs rn + offset)
  | .subs rd value, d =>
    { d.set rd (d.regs rd - value) with zero := decide (d.regs rd - value = 0) }
  | .bne _, d => d
  | .movPc _, d => d

/-- Where an instruction at `pc` passes control; outside the code, to an address. -/
def Instr.next : Instr → Data → Nat → Control Word
  | .bne target, d, pc => if d.zero then .inside (pc + 1) else .inside target
  | .movPc rm, d, _ => .left (branchWritePC (d.regs rm))
  | _, _, pc => .inside (pc + 1)

def machine : Machine Instr Data Word := ⟨Instr.effect, Instr.next⟩

/-! ## Blocks -/

/-- Loading one constant into some registers. -/
theorem effects_movs (rs : List Reg) (v : Word) (d : Data) :
    effects machine (rs.map fun r => .mov r v) d =
      { d with regs := fun r => if r ∈ rs then v else d.regs r } := by
  induction rs generalizing d with
  | nil => simp [effects]
  | cons q rs ih =>
    have hrest : effects machine ((q :: rs).map fun r => .mov r v) d =
        effects machine (rs.map fun r => .mov r v) (d.set q v) := rfl
    rw [hrest, ih]
    simp only [Data.set, List.mem_cons, Data.mk.injEq, and_true]
    funext r
    by_cases hr : r = q
    · simp [hr]
    · simp [hr]

theorem movs_straight (rs : List Reg) (v : Word) :
    ∀ x ∈ rs.map fun r => Instr.mov r v, Straight machine x := by
  intro x hx
  obtain ⟨r, _, rfl⟩ := List.mem_map.mp hx
  exact fun _ _ => rfl

/-! ## Loops -/

/-- A block without branches, and behind it a branch back while the zero flag is clear: all of the
loop is its test. -/
abbrev Loop (code : List Instr) (i : Nat) (body : List Instr) : Prop :=
  TestLoop machine code i [] body (.bne i) fun d => !d.zero

theorem loop_of_placed {code : List Instr} {i : Nat} {body : List Instr}
    (hs : ∀ x ∈ body, Straight machine x) (h : Placed code i (body ++ [.bne i])) :
    Loop code i body where
  bodyStraight := fun _ hx => absurd hx List.not_mem_nil
  testStraight := hs
  keeps _ := rfl
  next d pc := by
    show (if d.zero then _ else _) = _
    cases d.zero <;> rfl
  placed := h

/-! ## Filling memory

`rt` holds the word to store, `rn` the pointer and `rd` the bytes still to fill.
-/

/-- Store a word, move the pointer on and count down. -/
def fillBody (rt rn rd : Reg) : List Instr := [.str rt rn 4, .subs rd 4]

theorem fillBody_straight (rt rn rd : Reg) : ∀ x ∈ fillBody rt rn rd, Straight machine x := by
  intro x hx
  simp only [fillBody, List.mem_cons, List.not_mem_nil, or_false] at hx
  rcases hx with rfl | rfl <;> exact fun _ _ => rfl

/-- `d'` is `d` after `k` rounds. -/
structure FilledWords (rt rn rd : Reg) (b : Byte) (k : Nat) (d d' : Data) : Prop where
  mem : d'.mem = fill d.mem (d.regs rn) (4 * k) b
  pointer : d'.regs rn = at_ (d.regs rn) (4 * k)
  counter : d'.regs rd = d.regs rd - BitVec.ofNat 32 (4 * k)
  others : ∀ r, r ≠ rn → r ≠ rd → d'.regs r = d.regs r

section

variable {rt rn rd : Reg}

theorem effects_fillBody_eq (d : Data) : effects machine (fillBody rt rn rd) d =
    (Instr.subs rd 4).effect ((Instr.str rt rn 4).effect d) := rfl

theorem effects_fillBody_zero (hnd : rn ≠ rd) (d : Data) :
    (effects machine (fillBody rt rn rd) d).zero = decide (d.regs rd = 4) := by
  have hsub : d.regs rd - 4#32 = 0#32 ↔ d.regs rd = 4#32 := by bv_omega
  simp [effects_fillBody_eq, Instr.effect, Ne.symm hnd, hsub]

theorem effects_fillBody (hnd : rn ≠ rd) (d : Data) {b : Byte}
    (hv : bytesOfWord (d.regs rt) = List.replicate 4 b) :
    FilledWords rt rn rd b 1 d (effects machine (fillBody rt rn rd) d) where
  mem := by
    have hstore : storeWord d.mem (d.regs rn) (d.regs rt) = fill d.mem (d.regs rn) 4 b := by
      rw [storeWord, hv, write_replicate]
    simp [effects_fillBody_eq, Instr.effect, hstore]
  pointer := by simp [effects_fillBody_eq, Instr.effect, hnd, at_]
  counter := by simp [effects_fillBody_eq, Instr.effect, Ne.symm hnd]
  others := by
    intro r hrn hrd
    simp [effects_fillBody_eq, Instr.effect, hrn, hrd]

theorem FilledWords.next {b : Byte} {k : Nat} {d d' d'' : Data}
    (h : FilledWords rt rn rd b k d d') (h' : FilledWords rt rn rd b 1 d' d'')
    (hk : 4 * (k + 1) ≤ 2 ^ 32) : FilledWords rt rn rd b (k + 1) d d'' where
  mem := by rw [h'.mem, h.mem, h.pointer, fill_append (by omega), ← Nat.mul_add]
  pointer := by rw [h'.pointer, h.pointer, at_at, ← Nat.mul_add]
  counter := by
    rw [h'.counter, h.counter, Nat.mul_add, BitVec.ofNat_add]
    bv_omega
  others := by
    intro r hrn hrd
    rw [h'.others r hrn hrd, h.others r hrn hrd]

theorem filledWords_rounds (hnt : rt ≠ rn) (hdt : rt ≠ rd) (hnd : rn ≠ rd) {d : Data} {b : Byte}
    (hv : bytesOfWord (d.regs rt) = List.replicate 4 b) {k : Nat} (hk : 4 * k ≤ 2 ^ 32) :
    FilledWords rt rn rd b k d ((effects machine (fillBody rt rn rd))^[k] d) := by
  induction k with
  | zero => exact ⟨by simp, by simp, by simp, fun _ _ _ => rfl⟩
  | succ k ih =>
    have hbefore := ih (by omega)
    rw [Function.iterate_succ_apply']
    apply hbefore.next _ hk
    apply effects_fillBody hnd
    rw [hbefore.others rt hnt hdt, hv]

/-- A counter of `4 * (n + 1)` bytes lets the loop run `n + 1` rounds, no more and no fewer. -/
theorem fillLoop_ends {code : List Instr} {i : Nat} (h : Loop code i (fillBody rt rn rd))
    (hnt : rt ≠ rn) (hdt : rt ≠ rd) (hnd : rn ≠ rd) {d : Data} {b : Byte}
    (hv : bytesOfWord (d.regs rt) = List.replicate 4 b) {n : Nat}
    (hn : (d.regs rd).toNat = 4 * (n + 1)) :
    ∃ d', run machine code (3 * (n + 1)) ⟨d, .inside i⟩ = ⟨d', .inside (i + 3)⟩ ∧
      FilledWords rt rn rd b (n + 1) d d' := by
  have hlt := (d.regs rd).isLt
  -- the flag after a round says whether that round took the last word
  have hflag : ∀ k, k ≤ n → (effects machine (fillBody rt rn rd)
      ((effects machine (fillBody rt rn rd))^[k] d)).zero = decide (k = n) := by
    intro k hk
    have hcounter := (filledWords_rounds hnt hdt hnd hv (k := k) (by omega)).counter
    have hleft : (d.regs rd - BitVec.ofNat 32 (4 * k)).toNat = 4 * (n + 1) - 4 * k := by
      rw [BitVec.toNat_sub_of_le (by rw [BitVec.le_def, BitVec.toNat_ofNat]; omega),
        BitVec.toNat_ofNat, Nat.mod_eq_of_lt (by omega), hn]
    rw [effects_fillBody_zero hnd, hcounter, decide_eq_decide, ← BitVec.toNat_inj, hleft]
    change 4 * (n + 1) - 4 * k = 4 ↔ k = n
    omega
  have hrounds := filledWords_rounds hnt hdt hnd hv (k := n + 1) (by omega)
  rw [Function.iterate_succ_apply'] at hrounds
  refine ⟨_, h.ends (n := n) ?_ ?_, hrounds⟩
  · intro k hk
    exact congrArg not ((hflag k (Nat.le_of_lt hk)).trans (decide_eq_false (by omega)))
  · exact congrArg not ((hflag n (Nat.le_refl n)).trans (decide_eq_true rfl))

end

end Thumb
