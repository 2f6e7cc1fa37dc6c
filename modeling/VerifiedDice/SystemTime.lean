import VerifiedDice.Lib.DoubleCollect
import Mathlib.Algebra.Group.Nat.Defs
import Mathlib.Data.List.Basic
import Mathlib.Data.List.Induction

/-!
# The time since boot

`System_Time` of `system_setup.c`, which `GetTimeNow` returns, interrupted by
`SysTick_Handler`. The counter has 64 bits and is read in two halves of 32 bits. There
is one caller, and the handler runs in one step: calls from an interrupt that may come
in the middle of the handler, as that of the software watchdog may, are not modelled.
-/
namespace VerifiedDice.SystemTime

open DoubleCollect

abbrev Time := BitVec 64

inductive Half where
  | low | high
  deriving DecidableEq, Repr

def Half.of : Half → Time → BitVec 32
  | .low, t => t.extractLsb' 0 32
  | .high, t => t.extractLsb' 32 32

def Half.other : Half → Half
  | .low => .high
  | .high => .low

/-- The value of this half and of the other one. -/
def Half.join : Half → BitVec 32 → BitVec 32 → Time
  | .low, v, v' => v' ++ v
  | .high, v, v' => v ++ v'

/-- Where the caller is in `System_Time`. -/
inductive Pc where
  | idle
  /-- At `t1 = time_since_boot`. -/
  | first
  | firstHalf (h : Half) (v : BitVec 32)
  /-- At `t2 = time_since_boot`. -/
  | second (t1 : Time)
  | secondHalf (t1 : Time) (h : Half) (v : BitVec 32)
  /-- At `if (t1 == t2)`. -/
  | compare (t1 t2 : Time)
  deriving DecidableEq, Repr

structure Clock where
  timeSinceBoot : Time
  pc : Pc
  deriving DecidableEq, Repr

inductive Event where
  /-- `SysTick_Handler` -/
  | tick
  | call
  /-- One half of `time_since_boot` is read. -/
  | read (h : Half)
  /-- Back to the start of the loop. -/
  | again
  | ret (t : Time)
  deriving DecidableEq, Repr

/-- Reading a half of the counter `n`. The two halves of one read may come in either
order, and each comes once. -/
def Pc.read : Pc → Half → Time → Option Pc
  | .first, h, n => some (.firstHalf h (h.of n))
  | .firstHalf h v, h', n => if h' = h.other then some (.second (h.join v (h'.of n))) else none
  | .second t1, h, n => some (.secondHalf t1 h (h.of n))
  | .secondHalf t1 h v, h', n =>
    if h' = h.other then some (.compare t1 (h.join v (h'.of n))) else none
  | _, _, _ => none

/-- `none` when the event cannot happen there. -/
def step (c : Clock) : Event → Option Clock
  | .tick => some { c with timeSinceBoot := c.timeSinceBoot + 1 }
  | .call => if c.pc = .idle then some { c with pc := .first } else none
  | .read h => (c.pc.read h c.timeSinceBoot).map fun pc => { c with pc }
  | .again =>
    match c.pc with
    | .compare t1 t2 => if t1 = t2 then none else some { c with pc := .first }
    | _ => none
  | .ret t => if c.pc = .compare t t then some { c with pc := .idle } else none

def run (c : Clock) (es : List Event) : Option Clock := es.foldlM step c

def boot : Clock := ⟨0, .idle⟩

/-- How often `SysTick_Handler` ran. -/
def ticks (es : List Event) : Nat := es.countP fun e => decide (e = .tick)

def Event.returned : Event → Option Time
  | .ret t => some t
  | _ => none

/-- What the calls returned, in order. -/
def returned (es : List Event) : List Time := es.filterMap Event.returned

/-- Within one iteration of the loop. -/
def Event.InLoop : Event → Prop
  | .tick => True
  | .read _ => True
  | _ => False

/-- `iter` happens in the iteration that starts after `before`. -/
structure Iteration (before iter : List Event) : Prop where
  starts : before.getLast? = some .call ∨ before.getLast? = some .again
  inside : ∀ e ∈ iter, e.InLoop

/-- Fewer than `2 ^ 32` ticks in every iteration that returns. -/
def Undisturbed (es : List Event) : Prop :=
  ∀ before iter t after, es = before ++ iter ++ .ret t :: after → Iteration before iter →
    ticks iter < 2 ^ 32

/-! ## Halves -/

theorem Half.of_join (h : Half) (v v' : BitVec 32) : h.of (h.join v v') = v := by
  cases h with
  | low => exact BitVec.extractLsb'_append_eq_right
  | high => exact BitVec.extractLsb'_append_eq_left

theorem Half.other_of_join (h : Half) (v v' : BitVec 32) : h.other.of (h.join v v') = v' := by
  cases h with
  | low => exact BitVec.extractLsb'_append_eq_left
  | high => exact BitVec.extractLsb'_append_eq_right

theorem Half.eq_or_other (h q : Half) : q = h ∨ q = h.other := by
  cases h <;> cases q <;> simp [Half.other]

theorem Half.join_of (h : Half) (t : Time) : h.join (h.of t) (h.other.of t) = t := by
  have hjoin := @BitVec.extractLsb'_append_extractLsb' 32 32 t
  cases h <;> exact hjoin

theorem Half.ext {t t' : Time} (h : ∀ q : Half, q.of t = q.of t') : t = t' := by
  rw [← Half.join_of .low t, ← Half.join_of .low t', h, h]

/-- What a half shows once the handler ran `n` times. -/
def part (h : Half) (n : Nat) : BitVec 32 := h.of (BitVec.ofNat 64 n)

theorem toNat_part_low (n : Nat) : (part .low n).toNat = n % 2 ^ 32 := by
  simp only [part, Half.of, BitVec.extractLsb'_toNat, BitVec.toNat_ofNat, Nat.shiftRight_zero]
  omega

theorem toNat_part_high (n : Nat) : (part .high n).toNat = n / 2 ^ 32 % 2 ^ 32 := by
  simp only [part, Half.of, BitVec.extractLsb'_toNat, BitVec.toNat_ofNat,
    Nat.shiftRight_eq_div_pow]
  omega

theorem steady_part (h : Half) : Steady (2 ^ 32) (part h) := by
  intro a m b ham hmb hW heq
  have hnat := congrArg BitVec.toNat heq
  apply BitVec.eq_of_toNat_eq
  cases h with
  | low =>
    rw [toNat_part_low, toNat_part_low] at hnat ⊢
    exact steady_mod _ a m b ham hmb hW hnat
  | high =>
    rw [toNat_part_high, toNat_part_high] at hnat ⊢
    exact steady_div_mod (by decide) a m b ham hmb hW hnat

/-! ## Events -/

@[simp] theorem ticks_append (es es' : List Event) : ticks (es ++ es') = ticks es + ticks es' :=
  List.countP_append

theorem ticks_concat (es : List Event) {e : Event} (he : e ≠ .tick) :
    ticks (es ++ [e]) = ticks es := by simp [ticks, he]

@[simp] theorem ticks_replicate (n : Nat) : ticks (List.replicate n .tick) = n := by
  simp [ticks, List.countP_replicate]

@[simp] theorem returned_append (es es' : List Event) :
    returned (es ++ es') = returned es ++ returned es' := List.filterMap_append

theorem run_append (c : Clock) (es es' : List Event) :
    run c (es ++ es') = (run c es).bind fun c' => run c' es' := List.foldlM_append

theorem run_concat {c c' : Clock} {es : List Event} {e : Event}
    (h : run c (es ++ [e]) = some c') : ∃ m, run c es = some m ∧ step m e = some c' := by
  rw [run_append] at h
  obtain ⟨m, hm, hstep⟩ := Option.bind_eq_some_iff.mp h
  exact ⟨m, hm, by simpa [run] using hstep⟩

/-- What comes before in a run is a run. -/
theorem run_before {c c' : Clock} {es es' : List Event} (h : run c (es ++ es') = some c') :
    ∃ m, run c es = some m := by
  rw [run_append] at h
  obtain ⟨m, hm, _⟩ := Option.bind_eq_some_iff.mp h
  exact ⟨m, hm⟩

theorem returned_iteration {before iter : List Event} (h : Iteration before iter) :
    returned iter = [] := by
  apply List.filterMap_eq_nil_iff.mpr
  intro e he
  have hin := h.inside e he
  cases e with
  | ret t => exact hin.elim
  | _ => rfl

/-- Ticks are counted one by one, so every count up to the last has its moment. -/
theorem exists_moment {before iter : List Event} {n : Nat} (hlo : ticks before ≤ n)
    (hhi : n ≤ ticks (before ++ iter)) : ∃ mid, mid <+: iter ∧ ticks (before ++ mid) = n := by
  induction iter using List.reverseRecOn with
  | nil =>
    refine ⟨[], List.prefix_refl [], ?_⟩
    simp only [List.append_nil] at hhi ⊢
    omega
  | append_singleton iter e ih =>
    by_cases hlast : ticks (before ++ (iter ++ [e])) = n
    · exact ⟨iter ++ [e], List.prefix_refl _, hlast⟩
    · have hone : ticks [e] ≤ 1 := List.countP_le_length
      simp only [ticks_append] at hhi hlast
      obtain ⟨mid, hmid, hn⟩ := ih (by simp only [ticks_append]; omega)
      exact ⟨mid, hmid.trans (List.prefix_append iter [e]), hn⟩

/-! ## One iteration -/

/-- Both halves of `t` were read while the handler had run between `lo` and `hi` times. -/
def Seen (lo hi : Nat) (t : Time) : Prop := Collected part lo hi fun h => h.of t

theorem seen_join {lo hi a b : Nat} (h : Half) (ha : lo ≤ a) (ha' : a ≤ hi) (hb : lo ≤ b)
    (hb' : b ≤ hi) : Seen lo hi (h.join (part h a) (part h.other b)) := by
  intro q
  rcases h.eq_or_other q with rfl | rfl
  · exact ⟨a, ha, ha', q.of_join _ _⟩
  · exact ⟨b, hb, hb', h.other_of_join _ _⟩

/-- What an iteration that started after `start` ticks has read by the tick `now`. -/
def Progress (start now : Nat) : Pc → Prop
  | .idle => True
  | .first => True
  | .firstHalf h v => ∃ a, start ≤ a ∧ a ≤ now ∧ v = part h a
  | .second t1 => Seen start now t1
  | .secondHalf t1 h v =>
    ∃ m, start ≤ m ∧ Seen start m t1 ∧ ∃ a, m ≤ a ∧ a ≤ now ∧ v = part h a
  | .compare t1 t2 => ∃ m, start ≤ m ∧ m ≤ now ∧ Seen start m t1 ∧ Seen m now t2

theorem Progress.mono {start now now' : Nat} {pc : Pc} (h : Progress start now pc)
    (hle : now ≤ now') : Progress start now' pc := by
  cases pc with
  | idle => trivial
  | first => trivial
  | firstHalf q v =>
    obtain ⟨a, h1, h2, h3⟩ := h
    exact ⟨a, h1, Nat.le_trans h2 hle, h3⟩
  | second t1 => exact Collected.mono h (Nat.le_refl _) hle
  | secondHalf t1 q v =>
    obtain ⟨m, h1, h2, a, h3, h4, h5⟩ := h
    exact ⟨m, h1, h2, a, h3, Nat.le_trans h4 hle, h5⟩
  | compare t1 t2 =>
    obtain ⟨m, h1, h2, h3, h4⟩ := h
    exact ⟨m, h1, Nat.le_trans h2 hle, h3, Collected.mono h4 (Nat.le_refl _) hle⟩

/-- One half read, in each of the four places where one can be. -/
theorem Progress.read {start now : Nat} {pc pc' : Pc} {q : Half} (h : Progress start now pc)
    (hle : start ≤ now) (hread : pc.read q (BitVec.ofNat 64 now) = some pc') :
    Progress start now pc' := by
  cases pc with
  | idle => cases hread
  | first =>
    cases hread
    exact ⟨now, hle, Nat.le_refl _, rfl⟩
  | firstHalf p v =>
    obtain ⟨a, h1, h2, rfl⟩ := h
    simp only [Pc.read] at hread
    split at hread
    · rename_i hq
      cases hread
      subst hq
      exact seen_join p h1 h2 hle (Nat.le_refl _)
    · cases hread
  | second t1 =>
    cases hread
    exact ⟨now, hle, h, now, Nat.le_refl _, Nat.le_refl _, rfl⟩
  | secondHalf t1 p v =>
    obtain ⟨m, h1, h2, a, h3, h4, rfl⟩ := h
    simp only [Pc.read] at hread
    split at hread
    · rename_i hq
      cases hread
      subst hq
      exact ⟨m, h1, Nat.le_trans h3 h4, h2, seen_join p h3 h4 (Nat.le_trans h3 h4) (Nat.le_refl _)⟩
    · cases hread
  | compare t1 t2 => cases hread

/-- Two equal reads are the counter between them. -/
theorem Progress.returns {start now : Nat} {t : Time} (h : Progress start now (.compare t t))
    (hW : now - start < 2 ^ 32) : ∃ m, start ≤ m ∧ m ≤ now ∧ t = BitVec.ofNat 64 m := by
  obtain ⟨m, hlo, hhi, h1, h2⟩ := h
  exact ⟨m, hlo, hhi, Half.ext (Collected.at_between steady_part h1 h2 hW)⟩

/-! ## Runs -/

/-- After `es`: the counter, and the iteration the caller is in. -/
structure Reached (es : List Event) (c : Clock) : Prop where
  counter : c.timeSinceBoot = BitVec.ofNat 64 (ticks es)
  iteration : c.pc ≠ .idle → ∃ before iter, es = before ++ iter ∧ Iteration before iter ∧
    Progress (ticks before) (ticks es) c.pc

theorem Iteration.begins {e : Event} (es : List Event) (he : e = .call ∨ e = .again) :
    Iteration (es ++ [e]) [] := by
  refine ⟨?_, fun x hx => absurd hx List.not_mem_nil⟩
  rcases he with rfl | rfl <;> simp

theorem Iteration.next {before iter : List Event} {e : Event} (h : Iteration before iter)
    (he : e.InLoop) : Iteration before (iter ++ [e]) := by
  refine ⟨h.starts, ?_⟩
  intro x hx
  rcases List.mem_append.mp hx with hx | hx
  · exact h.inside x hx
  · rw [List.mem_singleton.mp hx]
    exact he

theorem reached_boot : Reached [] boot := ⟨rfl, fun h => absurd rfl h⟩

/-- A call and a turn of the loop start an iteration. -/
theorem Reached.begins {es : List Event} {c : Clock} {e : Event} (h : Reached es c)
    (he : e = .call ∨ e = .again) : Reached (es ++ [e]) { c with pc := .first } where
  counter := by
    rw [ticks_concat es (by rcases he with rfl | rfl <;> simp)]
    exact h.counter
  iteration := fun _ => ⟨es ++ [e], [], (List.append_nil _).symm, .begins es he, trivial⟩

/-- A tick goes on with whatever the caller has read. -/
theorem Reached.tick {es : List Event} {c : Clock} (h : Reached es c) :
    Reached (es ++ [.tick]) { c with timeSinceBoot := c.timeSinceBoot + 1 } where
  counter := by
    rw [h.counter, ticks_append, BitVec.ofNat_add]
    rfl
  iteration := by
    intro hpc
    obtain ⟨before, iter, rfl, hiter, hprogress⟩ := h.iteration hpc
    exact ⟨before, iter ++ [.tick], List.append_assoc .., hiter.next (e := .tick) trivial,
      hprogress.mono (by simp)⟩

theorem Reached.read {es : List Event} {c : Clock} {q : Half} {pc : Pc} (h : Reached es c)
    (hread : c.pc.read q c.timeSinceBoot = some pc) :
    Reached (es ++ [.read q]) { c with pc } where
  counter := by
    rw [ticks_concat es (by simp)]
    exact h.counter
  iteration := by
    intro _
    have hpc : c.pc ≠ .idle := by
      intro hidle
      rw [hidle] at hread
      cases hread
    obtain ⟨before, iter, rfl, hiter, hprogress⟩ := h.iteration hpc
    rw [h.counter] at hread
    rw [ticks_concat _ (by simp)]
    exact ⟨before, iter ++ [.read q], List.append_assoc .., hiter.next (e := .read q) trivial,
      hprogress.read (by simp) hread⟩

theorem Reached.next {es : List Event} {c c' : Clock} {e : Event} (h : Reached es c)
    (hstep : step c e = some c') : Reached (es ++ [e]) c' := by
  cases e with
  | tick =>
    cases hstep
    exact h.tick
  | call =>
    simp only [step] at hstep
    split at hstep
    · cases hstep
      exact h.begins (Or.inl rfl)
    · cases hstep
  | read q =>
    simp only [step, Option.map_eq_some_iff] at hstep
    obtain ⟨pc, hread, rfl⟩ := hstep
    exact h.read hread
  | again =>
    simp only [step] at hstep
    split at hstep
    · split at hstep
      · cases hstep
      · cases hstep
        exact h.begins (Or.inr rfl)
    · cases hstep
  | ret t =>
    simp only [step] at hstep
    split at hstep
    · cases hstep
      refine ⟨?_, fun hpc => absurd rfl hpc⟩
      rw [ticks_concat es (by simp)]
      exact h.counter
    · cases hstep

theorem run_reached {es : List Event} {c : Clock} (h : run boot es = some c) : Reached es c := by
  induction es using List.reverseRecOn generalizing c with
  | nil =>
    cases h
    exact reached_boot
  | append_singleton es e ih =>
    obtain ⟨m, hm, hstep⟩ := run_concat h
    exact (ih hm).next hstep

/-- A return, with its last iteration and the count that it shows. -/
theorem returned_moment {es : List Event} {c : Clock} {t : Time}
    (h : run boot (es ++ [.ret t]) = some c) : ∃ before iter, es = before ++ iter ∧
      Iteration before iter ∧ (ticks iter < 2 ^ 32 →
        ∃ m, ticks before ≤ m ∧ m ≤ ticks es ∧ t = BitVec.ofNat 64 m) := by
  obtain ⟨c1, hrun, hret⟩ := run_concat h
  have hpc : c1.pc = .compare t t := by
    simp only [step] at hret
    split at hret
    · assumption
    · cases hret
  obtain ⟨before, iter, rfl, hiter, hprogress⟩ :=
    (run_reached hrun).iteration (by rw [hpc]; nofun)
  rw [hpc] at hprogress
  exact ⟨before, iter, rfl, hiter, fun hW => hprogress.returns (by simpa using hW)⟩

theorem Undisturbed.before {es es' : List Event} (h : Undisturbed (es ++ es')) :
    Undisturbed es := by
  intro before iter t after hes hiter
  exact h before iter t (after ++ es') (by simp [hes]) hiter

/-- `t` was the counter's value at a moment of the iteration. -/
def HadDuring (before iter : List Event) (t : Time) : Prop :=
  ∃ mid, mid <+: iter ∧ ∃ c, run boot (before ++ mid) = some c ∧ c.timeSinceBoot = t

/-- The returned times are the counts `moments` of ticks, modulo `2 ^ 64`. -/
structure ReturnedAt (es : List Event) (moments : List Nat) : Prop where
  values : returned es = moments.map (BitVec.ofNat 64)
  ordered : moments.Pairwise (· ≤ ·)
  past : ∀ m ∈ moments, m ≤ ticks es

theorem ReturnedAt.extend {es es' : List Event} {moments : List Nat} (h : ReturnedAt es moments)
    (hes' : returned es' = []) : ReturnedAt (es ++ es') moments where
  values := by rw [returned_append, hes', List.append_nil, h.values]
  ordered := h.ordered
  past := fun m hm => Nat.le_trans (h.past m hm) (by simp)

/-- A return adds a moment of its last iteration, which began after all earlier returns. -/
theorem ReturnedAt.ret {before iter : List Event} {moments : List Nat} {m : Nat}
    (h : ReturnedAt before moments) (hiter : Iteration before iter) (hlo : ticks before ≤ m)
    (hhi : m ≤ ticks (before ++ iter)) :
    ReturnedAt (before ++ iter ++ [.ret (BitVec.ofNat 64 m)]) (moments ++ [m]) where
  values := by
    rw [returned_append, returned_append, returned_iteration hiter, List.append_nil, h.values,
      List.map_append]
    rfl
  ordered := by
    apply List.pairwise_append.mpr
    refine ⟨h.ordered, List.pairwise_singleton _ _, ?_⟩
    intro n hn k hk
    rw [List.mem_singleton.mp hk]
    exact Nat.le_trans (h.past n hn) hlo
  past := by
    intro n hn
    rw [ticks_append]
    rcases List.mem_append.mp hn with hn | hn
    · have hpast := h.past n hn
      omega
    · rw [List.mem_singleton.mp hn]
      omega

theorem exists_returnedAt {es : List Event} {c : Clock} (hrun : run boot es = some c)
    (hfew : Undisturbed es) : ∃ moments, ReturnedAt es moments := by
  -- a return goes back to the run before its last iteration
  induction hn : es.length using Nat.strongRecOn generalizing es c with
  | ind n ih =>
    rcases List.eq_nil_or_concat' es with rfl | ⟨done, e, rfl⟩
    · exact ⟨[], rfl, .nil, nofun⟩
    · have hdone : ∃ m, run boot done = some m := run_before hrun
      obtain ⟨m, hm⟩ := hdone
      cases e with
      | ret t =>
        obtain ⟨before, iter, rfl, hiter, hmoment⟩ := returned_moment hrun
        have hW : ticks iter < 2 ^ 32 := hfew before iter t [] rfl hiter
        obtain ⟨k, hlo, hhi, rfl⟩ := hmoment hW
        obtain ⟨c0, hbefore⟩ := run_before hm
        obtain ⟨moments, hmoments⟩ := ih before.length (by rw [← hn]; simp) hbefore
          hfew.before.before rfl
        exact ⟨moments ++ [k], hmoments.ret hiter hlo hhi⟩
      | _ =>
        obtain ⟨moments, hmoments⟩ := ih done.length (by rw [← hn]; simp) hm hfew.before rfl
        exact ⟨moments, hmoments.extend rfl⟩

/-- Before the counter wraps, the times are in order. -/
theorem ReturnedAt.sorted {es : List Event} {moments : List Nat} (h : ReturnedAt es moments)
    (hwrap : ticks es < 2 ^ 64) : (returned es).Pairwise (· ≤ ·) := by
  rw [h.values, List.pairwise_map]
  apply h.ordered.imp_of_mem
  intro m n hm hn hmn
  have hlast := h.past n hn
  rw [BitVec.le_def, BitVec.toNat_ofNat, BitVec.toNat_ofNat, Nat.mod_eq_of_lt (by omega),
    Nat.mod_eq_of_lt (by omega)]
  exact hmn

/-- A value counted within an iteration is one that the counter had there. -/
theorem hadDuring_of_moment {before iter rest : List Event} {c : Clock} {m : Nat}
    (hrun : run boot (before ++ iter ++ rest) = some c) (hlo : ticks before ≤ m)
    (hhi : m ≤ ticks (before ++ iter)) : HadDuring before iter (BitVec.ofNat 64 m) := by
  obtain ⟨mid, ⟨tail, rfl⟩, hticks⟩ := exists_moment hlo hhi
  have hsplit : before ++ (mid ++ tail) ++ rest = before ++ mid ++ (tail ++ rest) := by simp
  rw [hsplit] at hrun
  obtain ⟨c1, hc1⟩ := run_before hrun
  refine ⟨mid, List.prefix_append mid tail, c1, hc1, ?_⟩
  rw [(run_reached hc1).counter, hticks]

/-- **`System_Time` returns no torn time.** Where it returns, the counter had the
returned value at a moment of the last iteration, if that had fewer than `2 ^ 32` ticks.
The times of successive calls are then counts of ticks that do not go back, taken modulo
`2 ^ 64`: they are in order as long as the counter has not wrapped. -/
theorem systemTime_not_torn {es : List Event} {c : Clock} (hrun : run boot es = some c) :
    (∀ done t rest, es = done ++ .ret t :: rest → ∃ before iter, done = before ++ iter ∧
      Iteration before iter ∧ (ticks iter < 2 ^ 32 → HadDuring before iter t)) ∧
    (Undisturbed es → (∃ moments, ReturnedAt es moments) ∧
      (ticks es < 2 ^ 64 → (returned es).Pairwise (· ≤ ·))) := by
  constructor
  · rintro done t rest rfl
    have hsplit : done ++ .ret t :: rest = done ++ [.ret t] ++ rest := by simp
    rw [hsplit] at hrun
    obtain ⟨c1, hret⟩ := run_before hrun
    obtain ⟨before, iter, rfl, hiter, hmoment⟩ := returned_moment hret
    refine ⟨before, iter, rfl, hiter, ?_⟩
    intro hW
    obtain ⟨m, hlo, hhi, rfl⟩ := hmoment hW
    exact hadDuring_of_moment hret hlo hhi
  · intro hfew
    obtain ⟨moments, hmoments⟩ := exists_returnedAt hrun hfew
    exact ⟨⟨moments, hmoments⟩, hmoments.sorted⟩

theorem undisturbed_of_ticks {es : List Event} (h : ticks es < 2 ^ 32) : Undisturbed es := by
  rintro before iter t after rfl _
  simp only [ticks_append] at h
  omega

/-- A first iteration that a tick spoils, a second that returns, and a later call. -/
def interruptedCalls : List Event :=
  [.call, .read .low, .tick, .read .high, .read .high, .read .low, .again,
    .read .high, .read .low, .tick, .read .low, .read .high, .again,
    .read .low, .read .high, .read .high, .read .low, .tick, .ret 2,
    .tick, .call, .read .low, .read .high, .read .high, .read .low, .ret 4]

theorem interruptedCalls_not_torn :
    (∃ before iter, Iteration before iter ∧ HadDuring before iter 4) ∧
    (∃ moments, ReturnedAt interruptedCalls moments) ∧
    (returned interruptedCalls).Pairwise (· ≤ ·) := by
  have hrun : run boot interruptedCalls = some ⟨4, .idle⟩ := by decide
  have hlast : interruptedCalls = interruptedCalls.dropLast ++ .ret 4 :: [] := by decide
  have hfew : Undisturbed interruptedCalls := undisturbed_of_ticks (by decide)
  obtain ⟨hreturns, hcalls⟩ := systemTime_not_torn hrun
  obtain ⟨before, iter, hdone, hiter, hhad⟩ := hreturns _ 4 [] hlast
  obtain ⟨hmoments, hsorted⟩ := hcalls hfew
  rw [hdone] at hlast
  exact ⟨⟨before, iter, hiter, hhad (hfew before iter 4 [] hlast hiter)⟩, hmoments,
    hsorted (by decide)⟩

/-- One read across a carry shows a value that the counter never has. -/
example : run ⟨0xFFFFFFFF, .idle⟩ [.call, .read .low, .tick, .read .high] =
    some ⟨0x100000000, .second 0x1FFFFFFFF⟩ := by decide

/-! ## When the counter wraps -/

/-- A call that nothing interrupts. -/
def quietCall (t : Time) : List Event :=
  [.call, .read .low, .read .high, .read .low, .read .high, .ret t]

theorem quietCall_run (t : Time) : run ⟨t, .idle⟩ (quietCall t) = some ⟨t, .idle⟩ := by
  have hjoin : Half.join .low (Half.low.of t) (Half.high.of t) = t := Half.join_of .low t
  simp [run, quietCall, step, Pc.read, Half.other, hjoin]

theorem ticks_run (c : Clock) (n : Nat) : run c (List.replicate n .tick) =
    some { c with timeSinceBoot := c.timeSinceBoot + BitVec.ofNat 64 n } := by
  induction n generalizing c with
  | zero => simp [run]
  | succ n ih =>
    have hstep : run c (List.replicate (n + 1) .tick) =
        run { c with timeSinceBoot := c.timeSinceBoot + 1 } (List.replicate n .tick) := rfl
    rw [hstep, ih, BitVec.ofNat_add, BitVec.add_assoc, BitVec.add_comm (BitVec.ofNat 64 n)]
    rfl

/-- A call after `n` ticks and one after one more. -/
def callsAfter (n : Nat) : List Event :=
  List.replicate n .tick ++
    (quietCall (BitVec.ofNat 64 n) ++ .tick :: quietCall (BitVec.ofNat 64 n + 1))

theorem callsAfter_run (n : Nat) :
    run boot (callsAfter n) = some ⟨BitVec.ofNat 64 n + 1, .idle⟩ := by
  have hticks : run boot (List.replicate n .tick) = some ⟨BitVec.ofNat 64 n, .idle⟩ := by
    rw [ticks_run]
    simp [boot]
  rw [callsAfter, run_append, hticks, Option.bind_some, run_append, quietCall_run,
    Option.bind_some]
  exact quietCall_run (BitVec.ofNat 64 n + 1)

theorem callsAfter_returned (n : Nat) :
    returned (callsAfter n) = [BitVec.ofNat 64 n, BitVec.ofNat 64 n + 1] := by
  have hticks : returned (List.replicate n Event.tick) = [] := by
    simp [returned, List.filterMap_replicate, Event.returned]
  rw [callsAfter, returned_append, hticks]
  rfl

/-- An iteration starts with a call, so all but the last tick come before it. -/
theorem callsAfter_undisturbed (n : Nat) : Undisturbed (callsAfter n) := by
  intro before iter t after hes hiter
  have hall : ticks (callsAfter n) = n + 1 := by
    simp only [callsAfter, ticks_append, ticks_replicate]
    rfl
  have hbefore : before <+: callsAfter n := ⟨iter ++ .ret t :: after, by rw [hes]; simp⟩
  have hreplicate : List.replicate n Event.tick <+: callsAfter n := List.prefix_append _ _
  have hticks : n ≤ ticks before := by
    rcases List.prefix_or_prefix_of_prefix hbefore hreplicate with hshort | hlong
    · have hlast : ∀ e, before.getLast? = some e → e = .tick := fun e he =>
        List.eq_of_mem_replicate (hshort.subset (List.mem_of_getLast? he))
      rcases hiter.starts with h | h
      · cases hlast _ h
      · cases hlast _ h
    · obtain ⟨rest, rfl⟩ := hlong
      simp
  rw [hes] at hall
  simp only [ticks_append] at hall
  omega

/-- After `2 ^ 64 - 1` ticks one call returns that and the next call 0. -/
theorem systemTime_goes_back : ¬ ∀ es c, run boot es = some c → Undisturbed es →
    (returned es).Pairwise (· ≤ ·) := by
  intro h
  have hsorted := h _ _ (callsAfter_run (2 ^ 64 - 1)) (callsAfter_undisturbed (2 ^ 64 - 1))
  rw [callsAfter_returned] at hsorted
  revert hsorted
  decide

end VerifiedDice.SystemTime
