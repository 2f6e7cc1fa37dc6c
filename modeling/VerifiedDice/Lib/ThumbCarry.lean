import VerifiedDice.Lib.Assembly
import VerifiedDice.Lib.Thumb

/-!
# Thumb instructions that compare

The fragment of `Thumb` with transfers of words by a register offset, additions,
comparisons, the branch on a clear carry and the load of the program counter.
-/
namespace ThumbCarry

open ByteMemory Thumb

@[ext] structure Data extends Thumb.Data where
  carry : Bool

/-- Where control goes when it leaves the code. -/
inductive Target where
  | thumb (a : Word)
  /-- `INVSTATE`: bit 0 of a loaded address was clear. -/
  | fault
deriving DecidableEq, Repr

inductive Instr where
  | plain (i : Thumb.Instr)
  /-- `movs rd, #value` -/
  | movs (rd : Reg) (value : Word)
  /-- `ldr rt, [rn, #offset]` -/
  | ldrAt (rt rn : Reg) (offset : Word)
  /-- `ldr rt, [rn, rm]` -/
  | ldrReg (rt rn rm : Reg)
  /-- `str rt, [rn, rm]` -/
  | strReg (rt rn rm : Reg)
  /-- `adds rd, rn, #value` -/
  | addsImm (rd rn : Reg) (value : Word)
  /-- `adds rd, rn, rm` -/
  | addsReg (rd rn rm : Reg)
  /-- `cmp rn, rm` -/
  | cmp (rn rm : Reg)
  /-- `b target` -/
  | b (target : Nat)
  /-- `bcc target` -/
  | bcc (target : Nat)
  /-- `ldr pc, [rn, #offset]` -/
  | ldrPc (rn : Reg) (offset : Word)

def Data.set (d : Data) (r : Reg) (v : Word) : Data := { d with toData := d.toData.set r v }

def Data.flags (d : Data) (result : Word) (carry : Bool) : Data :=
  { d with zero := decide (result = 0), carry }

/-- The carry out of `v + v'`. -/
def carryOut (v v' : Word) : Bool := decide (2 ^ 32 ≤ v.toNat + v'.toNat)

/-- `LoadWritePC`: bit 0 selects the Thumb state, the only one there is. -/
def loadWritePC (v : Word) : Target :=
  if v.getLsbD 0 then .thumb (branchWritePC v) else .fault

/-- Of the plain instructions only `subs` sets the carry. -/
def plainCarry : Thumb.Instr → Data → Bool
  | .subs rd value, d => decide (value ≤ d.regs rd)
  | _, d => d.carry

def Instr.effect : Instr → Data → Data
  | .plain i, d => { toData := i.effect d.toData, carry := plainCarry i d }
  | .movs rd value, d => (d.set rd value).flags value d.carry
  | .ldrAt rt rn offset, d => d.set rt (loadWord d.mem (d.regs rn + offset))
  | .ldrReg rt rn rm, d => d.set rt (loadWord d.mem (d.regs rn + d.regs rm))
  | .strReg rt rn rm, d => { d with mem := storeWord d.mem (d.regs rn + d.regs rm) (d.regs rt) }
  | .addsImm rd rn value, d =>
    (d.set rd (d.regs rn + value)).flags (d.regs rn + value) (carryOut (d.regs rn) value)
  | .addsReg rd rn rm, d =>
    (d.set rd (d.regs rn + d.regs rm)).flags (d.regs rn + d.regs rm)
      (carryOut (d.regs rn) (d.regs rm))
  | .cmp rn rm, d => d.flags (d.regs rn - d.regs rm) (decide (d.regs rm ≤ d.regs rn))
  | .b _, d => d
  | .bcc _, d => d
  | .ldrPc _ _, d => d

def plainNext : Assembly.Control Word → Assembly.Control Target
  | .inside pc => .inside pc
  | .left target => .left (.thumb target)

def Instr.next : Instr → Data → Nat → Assembly.Control Target
  | .plain i, d, pc => plainNext (i.next d.toData pc)
  | .b target, _, _ => .inside target
  | .bcc target, d, pc => if d.carry then .inside (pc + 1) else .inside target
  | .ldrPc rn offset, d, _ => .left (loadWritePC (loadWord d.mem (d.regs rn + offset)))
  | _, _, pc => .inside (pc + 1)

def machine : Assembly.Machine Instr Data Target := ⟨Instr.effect, Instr.next⟩

/-! ## Registers -/

section

variable (d : Data) (r : Reg) (v : Word)

@[simp] theorem Data.set_self : (d.set r v).regs r = v := Thumb.Data.set_self _ _ _

@[simp] theorem Data.set_other {q : Reg} (h : q ≠ r) : (d.set r v).regs q = d.regs q :=
  Thumb.Data.set_other _ _ h

@[simp] theorem Data.set_mem : (d.set r v).mem = d.mem := rfl

@[simp] theorem Data.flags_regs (carry : Bool) : (d.flags v carry).regs = d.regs := rfl

@[simp] theorem Data.flags_mem (carry : Bool) : (d.flags v carry).mem = d.mem := rfl

@[simp] theorem Data.flags_carry (carry : Bool) : (d.flags v carry).carry = carry := rfl

end

/-! ## Copies

Word after word, from a range that the copy does not write.
-/

/-- `n` bytes from `src` are stored at `dst`. -/
def copied (m : Mem 32) (dst src : Word) (n : Nat) : Mem 32 := write m dst (bytesAt m src n)

theorem copied_zero (m : Mem 32) (dst src : Word) : copied m dst src 0 = m := write_nil m dst

/-- The next word, read from the memory that holds the words before. -/
theorem copied_next {m : Mem 32} {dst src : Word} {n k : Nat} (hk : k + 4 ≤ n) (hw : n ≤ 2 ^ 32)
    (hapart : ∀ i, i < n → ¬ Within dst n (at_ src i)) :
    storeWord (copied m dst src k) (at_ dst k) (loadWord (copied m dst src k) (at_ src k)) =
      copied m dst src (k + 4) := by
  have hlen : (bytesAt m src k).length = k := length_bytesAt m src k
  have hread : bytesAt (copied m dst src k) (at_ src k) 4 = bytesAt m (at_ src k) 4 := by
    apply bytesAt_write_outside
    intro i hi hin
    rw [hlen, at_at] at hin
    exact hapart (k + i) (by omega) (Nat.lt_of_lt_of_le hin (by omega))
  have hstore : write (write m dst (bytesAt m src k)) (at_ dst (bytesAt m src k).length)
      (bytesAt m (at_ src k) 4) = write m dst (bytesAt m src k ++ bytesAt m (at_ src k) 4) :=
    write_append (by rw [hlen, length_bytesAt]; omega)
  rw [hlen] at hstore
  rw [storeWord, ← bytesAt_of_loadWord, hread, copied, copied, bytesAt_append]
  exact hstore

theorem copied_at (m : Mem 32) (dst src : Word) {n i : Nat} (hi : i < n) (hw : n ≤ 2 ^ 32) :
    copied m dst src n (at_ dst i) = m (at_ src i) := by
  rw [copied, write_at _ _ _ (by rw [length_bytesAt]; exact hi) (by omega), getElem_bytesAt]

theorem copied_outside {m : Mem 32} {dst src x : Word} {n : Nat} (h : ¬ Within dst n x) :
    copied m dst src n x = m x := by
  apply write_outside
  rw [length_bytesAt]
  exact h

end ThumbCarry
