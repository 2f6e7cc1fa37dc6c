import VerifiedDice.Lib.LineEnds
import VerifiedDice.Startup

/-!
# The system calls of the C library

`_write` over `__io_putchar`, which puts a carriage return in front of every line feed, and
`_sbrk`. What the terminal shows is what was written, also when the line is cut, unless a
transmission fails, which neither of the two functions looks at. The memory that `_sbrk` gives
out is behind all that it gave out before and below the stack.
-/
namespace VerifiedDice.Syscalls

open ByteMemory LineEnds Startup
open scoped List

/-! ## `_write` -/

def carriageReturn : Byte := 0x0D
def lineFeed : Byte := 0x0A

/-- How a call of `HAL_UART_Transmit` ends. -/
inductive TransmitStatus where
  | ok
  /-- `HAL_BUSY`: another transfer is under way, or the handle is locked. -/
  | busy
  /-- `HAL_TIMEOUT`: the transmitter took only so many bytes in time. -/
  | timeout (sent : Nat)
  deriving DecidableEq, Repr

/-- The bytes that `HAL_UART_Transmit` sends. -/
def halUartTransmit (status : TransmitStatus) (data : List Byte) : List Byte :=
  match status with
  | .ok => data
  | .busy => []
  | .timeout sent => data.take sent

/-- The bytes that `__io_putchar` transmits, which does not look at the status. -/
def ioPutchar (status : TransmitStatus) (ch : Word) : List Byte :=
  if ch = lineFeed.setWidth 32 then halUartTransmit status [carriageReturn, lineFeed]
  else halUartTransmit status [ch.setWidth 8]

/-- The bytes that `_write` transmits, with the status of each transmission. -/
def writeChars (m : Memory) (ptr : Addr) (status : Nat → TransmitStatus) : Nat → List Byte
  | 0 => []
  | len + 1 => ioPutchar (status 0) ((m ptr).setWidth 32) ++
      writeChars m (ptr + 1) (fun i => status (i + 1)) len

/-- A call of `_write`, and what the HAL returns in it. -/
structure WriteCall where
  mem : Memory
  ptr : Addr
  len : Nat
  status : Nat → TransmitStatus

def WriteCall.text (c : WriteCall) : List Byte := bytesAt c.mem c.ptr c.len

/-- All that a list of calls is given. -/
def written (calls : List WriteCall) : List Byte := calls.flatMap WriteCall.text

/-- All that they transmit. -/
def wire (calls : List WriteCall) : List Byte :=
  calls.flatMap fun c => writeChars c.mem c.ptr c.status c.len

/-- Every transmission returned `HAL_OK`. -/
def AllSent (calls : List WriteCall) : Prop := ∀ c ∈ calls, ∀ i, i < c.len → c.status i = .ok

/-- A terminal that takes a carriage return and a line feed for the end of a line. -/
abbrev Terminal := Receiver Byte

/-- The terminal after the bytes `line`. -/
def terminal (line : List Byte) : Terminal := Receiver.fresh.receive carriageReturn lineFeed line

/-- What the terminal has, with a carriage return that it may hold back. -/
def screen (line : List Byte) : List Byte := (terminal line).shown carriageReturn

theorem ioPutchar_eq (status : TransmitStatus) (c : Byte) :
    ioPutchar status (c.setWidth 32) =
      halUartTransmit status (put carriageReturn lineFeed c) := by
  have hline : c.setWidth 32 = lineFeed.setWidth 32 ↔ c = lineFeed := by
    constructor
    · intro h
      have h8 := congrArg (BitVec.setWidth 8) h
      simpa using h8
    · rintro rfl
      rfl
  unfold ioPutchar put
  by_cases hc : c = lineFeed
  · rw [if_pos (hline.mpr hc), if_pos hc]
  · rw [if_neg fun h => hc (hline.mp h), if_neg hc]
    simp

theorem halUartTransmit_sublist (status : TransmitStatus) (data : List Byte) :
    halUartTransmit status data <+ data := by
  cases status with
  | ok => exact List.Sublist.refl data
  | busy => exact List.nil_sublist data
  | timeout sent => exact List.take_sublist sent data

theorem writeChars_sublist (m : Memory) (ptr : Addr) (status : Nat → TransmitStatus) (len : Nat) :
    writeChars m ptr status len <+ send carriageReturn lineFeed (bytesAt m ptr len) := by
  induction len generalizing ptr status with
  | zero => exact List.nil_sublist _
  | succ len ih =>
    have hfirst := halUartTransmit_sublist (status 0) (put carriageReturn lineFeed (m ptr))
    rw [writeChars, ioPutchar_eq, bytesAt_cons, send_cons]
    exact hfirst.append (ih _ _)

theorem writeChars_eq (m : Memory) (ptr : Addr) {status : Nat → TransmitStatus} (len : Nat)
    (hsent : ∀ i, i < len → status i = .ok) :
    writeChars m ptr status len = send carriageReturn lineFeed (bytesAt m ptr len) := by
  induction len generalizing ptr status with
  | zero => rfl
  | succ len ih =>
    have hrest : ∀ i, i < len → status (i + 1) = .ok := fun i hi => hsent (i + 1) (by omega)
    rw [writeChars, ih _ hrest, ioPutchar_eq, hsent 0 (by omega), bytesAt_cons, send_cons]
    rfl

theorem wire_sublist (calls : List WriteCall) :
    wire calls <+ send carriageReturn lineFeed (written calls) := by
  induction calls with
  | nil => exact List.nil_sublist _
  | cons c calls ih =>
    have hwritten : written (c :: calls) = c.text ++ written calls := rfl
    rw [hwritten, send_append]
    exact (writeChars_sublist c.mem c.ptr c.status c.len).append ih

theorem wire_eq {calls : List WriteCall} (hsent : AllSent calls) :
    wire calls = send carriageReturn lineFeed (written calls) := by
  induction calls with
  | nil => rfl
  | cons c calls ih =>
    have hstep : wire (c :: calls) = writeChars c.mem c.ptr c.status c.len ++ wire calls := rfl
    have hwritten : written (c :: calls) = c.text ++ written calls := rfl
    rw [hstep, ih fun c hc => hsent c (List.mem_cons_of_mem _ hc),
      writeChars_eq _ _ _ (hsent c List.mem_cons_self), hwritten, send_append]
    rfl

theorem screen_wire {calls : List WriteCall} (hsent : AllSent calls) :
    screen (wire calls) = written calls := by
  rw [screen, terminal, wire_eq hsent, Receiver.shown_send (by decide)]
  rfl

/-- Nothing is shown that was not written, and nothing out of its place: a transmission that
fails may lose a character, or leave the carriage return of a line end. -/
theorem screen_sublist (calls : List WriteCall) :
    (screen (wire calls)).filter (· ≠ carriageReturn) <+ written calls := by
  have hscreen : (screen (wire calls)).filter (· ≠ carriageReturn) =
      (wire calls).filter (· ≠ carriageReturn) := Receiver.filter_shown _ _
  have hwire : (wire calls).filter (· ≠ carriageReturn) <+
      (written calls).filter (· ≠ carriageReturn) := by
    have hsend := (wire_sublist calls).filter (· ≠ carriageReturn)
    rwa [filter_send] at hsend
  rw [hscreen]
  exact hwire.trans List.filter_sublist

/-- **The serial line loses nothing.** However the C library divides the text into calls of
`_write`: if the transmissions succeed, the terminal shows all of it, and a terminal that has seen
only a part of the bytes shows a part of the text. Whatever the HAL returns, what is shown is,
carriage returns aside, written text in its order. -/
theorem terminal_shows_written (calls : List WriteCall) :
    (screen (wire calls)).filter (· ≠ carriageReturn) <+ written calls ∧
    (AllSent calls → screen (wire calls) = written calls ∧
      ∀ line, line <+: wire calls → (terminal line).text <+: written calls) := by
  constructor
  · exact screen_sublist calls
  · intro hsent
    constructor
    · exact screen_wire hsent
    · intro line h
      rw [wire_eq hsent] at h
      exact text_prefix (by decide) h

/-! ## `_sbrk` -/

/-- `ENOMEM` -/
def enomem : Word := 12

structure Heap where
  heapEnd : Addr
  sbrkCount : Word
  sbrkTotal : Word
  errno : Word

def Heap.start : Heap where
  heapEnd := 0
  sbrkCount := 0
  sbrkTotal := 1
  errno := 0

/-- `endAddr` is the address of the symbol `end`, `sp` the stack pointer during the call. -/
def sbrk (endAddr sp : Addr) (incr : Word) (h : Heap) : Word × Heap :=
  let heapEnd := if h.heapEnd = 0 then endAddr else h.heapEnd
  if heapEnd + incr > sp then (-1, { h with heapEnd := heapEnd, errno := enomem })
  else (heapEnd, { h with
    heapEnd := heapEnd + incr
    sbrkCount := h.sbrkCount + 1
    sbrkTotal := h.sbrkTotal + incr })

/-- Where the next block starts. -/
def Heap.next (endAddr : Addr) (h : Heap) : Addr := if h.heapEnd = 0 then endAddr else h.heapEnd

/-- A call with `n` bytes given out: it gives back no more than these. -/
structure Request (n : Nat) (sp : Addr) (incr : Word) : Prop where
  stack : sp ≤ estack
  held : 0 ≤ (n : Int) + incr.toInt

/-- Runs of `_sbrk`, with the number of bytes that are given out. -/
inductive HeapRun (endAddr : Addr) : Heap → Nat → Prop
  | start : HeapRun endAddr Heap.start 0
  | refused {h h' : Heap} {n : Nat} {sp : Addr} {incr : Word} (hrun : HeapRun endAddr h n)
      (hreq : Request n sp incr) (hcall : sbrk endAddr sp incr h = (-1, h')) :
      HeapRun endAddr h' n
  | granted {h h' : Heap} {n : Nat} {sp : Addr} {incr r : Word} (hrun : HeapRun endAddr h n)
      (hreq : Request n sp incr) (hcall : sbrk endAddr sp incr h = (r, h')) (hr : r ≠ -1) :
      HeapRun endAddr h' ((n : Int) + incr.toInt).toNat

/-- `end` is in the data memory, where the linker puts it. -/
structure HeapBase (endAddr : Addr) : Prop where
  low : dtcmStart ≤ endAddr
  high : endAddr ≤ estack

/-- What is given out is one stretch from `end` on. -/
structure HeapOk (endAddr : Addr) (h : Heap) (n : Nat) : Prop where
  next : h.next endAddr = at_ endAddr n
  below : endAddr.toNat + n ≤ estack.toNat
  total : h.sbrkTotal = 1 + BitVec.ofNat 32 n

variable {endAddr sp : Addr} {incr : Word} {h : Heap} {n : Nat}

theorem sbrk_cases (endAddr sp : Addr) (incr : Word) (h : Heap) :
    (h.next endAddr + incr > sp ∧ sbrk endAddr sp incr h =
      (-1, { h with heapEnd := h.next endAddr, errno := enomem })) ∨
    (h.next endAddr + incr ≤ sp ∧ sbrk endAddr sp incr h =
      (h.next endAddr, { h with
        heapEnd := h.next endAddr + incr
        sbrkCount := h.sbrkCount + 1
        sbrkTotal := h.sbrkTotal + incr })) := by
  by_cases hlt : h.next endAddr + incr > sp
  · exact Or.inl ⟨hlt, if_pos hlt⟩
  · exact Or.inr ⟨BitVec.not_lt.mp hlt, if_neg hlt⟩

theorem start_ok (hbase : HeapBase endAddr) : HeapOk endAddr Heap.start 0 where
  next := (at_zero endAddr).symm
  below := hbase.high
  total := rfl

theorem dtcm_bounds : dtcmStart.toNat = 0x20000000 ∧ estack.toNat = 0x20020000 := ⟨rfl, rfl⟩

/-- Addresses up to the end of the data memory do not wrap. -/
theorem at_end_toNat {k : Nat} (hk : endAddr.toNat + k ≤ estack.toNat) :
    (at_ endAddr k).toNat = endAddr.toNat + k := by
  have hbounds := dtcm_bounds
  rw [at_, BitVec.toNat_add, BitVec.toNat_ofNat]
  omega

theorem HeapOk.next_ne (hok : HeapOk endAddr h n) : at_ endAddr n ≠ -1 := by
  intro hneg
  have hnat := at_end_toNat hok.below
  have hmax : (-1 : Addr).toNat = 2 ^ 32 - 1 := rfl
  have hbounds := dtcm_bounds
  have hbelow := hok.below
  rw [hneg] at hnat
  omega

/-- One step. -/
theorem HeapOk.step (hbase : HeapBase endAddr) (hok : HeapOk endAddr h n)
    (hreq : Request n sp incr) :
    ((sbrk endAddr sp incr h).1 = -1 ∧ HeapOk endAddr (sbrk endAddr sp incr h).2 n ∧
        (sp.toNat : Int) < endAddr.toNat + n + incr.toInt) ∨
    ((sbrk endAddr sp incr h).1 = at_ endAddr n ∧
        HeapOk endAddr (sbrk endAddr sp incr h).2 ((n : Int) + incr.toInt).toNat ∧
        (endAddr.toNat : Int) + n + incr.toInt ≤ sp.toNat) := by
  have hbounds := dtcm_bounds
  have hlow := BitVec.le_def.mp hbase.low
  have hsp := BitVec.le_def.mp hreq.stack
  have hheld := hreq.held
  have hbelow := hok.below
  -- no wrap: the next block starts in the data memory, and `incr` is a signed word
  have hnext : (h.next endAddr).toNat = endAddr.toNat + n := by
    rw [hok.next, at_end_toNat hbelow]
  have hafter : ((h.next endAddr + incr).toNat : Int) = endAddr.toNat + n + incr.toInt := by
    have hint := BitVec.toInt_eq_toNat_cond incr
    have hincr := incr.isLt
    rw [BitVec.toNat_add, hnext]
    split at hint
    · omega
    · omega
  rcases sbrk_cases endAddr sp incr h with ⟨hover, heq⟩ | ⟨hfits, heq⟩
  · left
    have hlt := BitVec.lt_def.mp hover
    have hne : h.next endAddr ≠ 0 := by
      intro hzero
      rw [hzero] at hnext
      have h0 : (0 : Addr).toNat = 0 := rfl
      omega
    rw [heq]
    refine ⟨rfl, ⟨?_, hbelow, hok.total⟩, by omega⟩
    rw [← hok.next]
    exact if_neg hne
  · right
    have hle := BitVec.le_def.mp hfits
    have hat : h.next endAddr + incr = at_ endAddr ((n : Int) + incr.toInt).toNat := by
      apply BitVec.eq_of_toNat_eq
      rw [at_, BitVec.toNat_add endAddr, BitVec.toNat_ofNat]
      omega
    have hne : h.next endAddr + incr ≠ 0 := by
      intro hzero
      rw [hzero] at hafter
      have h0 : (0 : Addr).toNat = 0 := rfl
      omega
    rw [heq]
    refine ⟨hok.next, ⟨?_, by omega, ?_⟩, by omega⟩
    · exact (if_neg hne).trans hat
    · have hsum : BitVec.ofNat 32 n + incr =
          BitVec.ofNat 32 ((n : Int) + incr.toInt).toNat := by
        rw [hok.next, at_, at_, BitVec.add_assoc] at hat
        exact (BitVec.add_right_inj endAddr).mp hat
      show h.sbrkTotal + incr = _
      rw [hok.total, BitVec.add_assoc, hsum]

theorem HeapRun.ok (hbase : HeapBase endAddr) (hrun : HeapRun endAddr h n) :
    HeapOk endAddr h n := by
  induction hrun with
  | start => exact start_ok hbase
  | refused hrun hreq hcall ih =>
    rcases ih.step hbase hreq with ⟨-, hok, -⟩ | ⟨hret, -, hfits⟩
    · rw [hcall] at hok
      exact hok
    · rw [hcall] at hret
      exact absurd hret.symm ih.next_ne
  | granted hrun hreq hcall hr ih =>
    rcases ih.step hbase hreq with ⟨hret, -, -⟩ | ⟨-, hok, -⟩
    · rw [hcall] at hret
      exact absurd hret hr
    · rw [hcall] at hok
      exact hok

/-- **`_sbrk` gives out fresh memory.** Whatever was asked for and wherever the stack was, a
block that is given out starts behind all the bytes that are given out, which lie in one stretch
from `end` on, and ends below the stack pointer; a request is refused only if its end would be
above the stack pointer, and then nothing is lost. -/
theorem sbrk_fresh (hbase : HeapBase endAddr) (hrun : HeapRun endAddr h n)
    (hreq : Request n sp incr) :
    ((sbrk endAddr sp incr h).1 = -1 →
      (sp.toNat : Int) < endAddr.toNat + n + incr.toInt ∧
        (sbrk endAddr sp incr h).2.sbrkTotal = h.sbrkTotal ∧
        (sbrk endAddr sp incr h).2.next endAddr = h.next endAddr) ∧
    ∀ r, (sbrk endAddr sp incr h).1 = r → r ≠ -1 →
      r = at_ endAddr n ∧ ∀ i : Nat, (i : Int) < incr.toInt →
        ¬ Within endAddr n (at_ r i) ∧ endAddr ≤ at_ r i ∧ at_ r i < sp := by
  have hok := hrun.ok hbase
  rcases hok.step hbase hreq with ⟨hret, hok', hover⟩ | ⟨hret, hok', hfits⟩
  · constructor
    · intro _
      exact ⟨hover, hok'.total.trans hok.total.symm, hok'.next.trans hok.next.symm⟩
    · intro r hr hne
      exact absurd (hr.symm.trans hret) hne
  · constructor
    · intro hfail
      exact absurd (hret.symm.trans hfail) hok.next_ne
    · intro r hr _
      have hr' : r = at_ endAddr n := hr.symm.trans hret
      refine ⟨hr', ?_⟩
      intro i hi
      have hsp := BitVec.le_def.mp hreq.stack
      have hnat : (at_ r i).toNat = endAddr.toNat + (n + i) := by
        rw [hr', at_at, at_end_toNat (by omega)]
      refine ⟨?_, BitVec.le_def.mpr (by omega), BitVec.lt_def.mpr (by omega)⟩
      intro hin
      rw [Within, BitVec.toNat_sub, hnat] at hin
      have hend := endAddr.isLt
      have hbounds := dtcm_bounds
      omega

def sampleEnd : Addr := 0x20000400
def sampleStack : Addr := 0x2001F000

/-- The heap after a block of 256 bytes. -/
def oneBlock : Heap := (sbrk sampleEnd sampleStack 256 Heap.start).2

theorem secondBlock_fresh : (sbrk sampleEnd sampleStack 64 oneBlock).1 = at_ sampleEnd 256 ∧
    ∀ i : Nat, (i : Int) < (64 : Word).toInt → ¬ Within sampleEnd 256 (at_ 0x20000500 i) ∧
      sampleEnd ≤ at_ 0x20000500 i ∧ at_ 0x20000500 i < sampleStack := by
  have hreq : ∀ n, Request n sampleStack 256 := fun n =>
    ⟨by decide, Int.add_nonneg (Int.natCast_nonneg n) (by decide)⟩
  have hreq' : Request 256 sampleStack 64 := ⟨by decide, by decide⟩
  have hrun : HeapRun sampleEnd oneBlock 256 :=
    HeapRun.granted .start (hreq 0) (r := sampleEnd) rfl (by decide)
  exact (sbrk_fresh ⟨by decide, by decide⟩ hrun hreq').2 0x20000500 (by decide) (by decide)

end VerifiedDice.Syscalls
