import VerifiedDice.SystemTime

/-!
# The software watchdog

`watchdog.c` on one core. The program reloads the watchdog with the time that `System_Time`
returns, `SysTick_Handler` interrupts it to count, and the interrupt of `TIM3` comes before
both: it may find either 64-bit variable with one half stored. The callback itself runs in
one step, since nothing that writes the counter can interrupt it. Calls of `System_Time`
for other purposes are left out.
-/
namespace VerifiedDice.SwWatchdog

open SystemTime (Half Pc Time Clock)

/-- `timeouts.h` -/
def timeoutSwWatchdogSeconds : Nat := 3

/-- An assignment to a 64-bit variable, half by half. What the variable holds before is kept
to say what an interrupt in between may see. -/
structure Assignment where
  old : Time
  value : Time
  first : Option Half
  deriving DecidableEq, Repr

/-- What is left to do once the half `h` is stored; `none` if it has been stored before. -/
def Assignment.store (a : Assignment) (h : Half) : Option (Option Assignment) :=
  match a.first with
  | none => some (some { a with first := some h })
  | some h' => if h = h'.other then some none else none

/-- `v` with the half `h` replaced. -/
def put (h : Half) (value v : Time) : Time := h.join (h.of value) (h.other.of v)

/-- The program: in `System_Time` or outside of the reload, or at the assignment to
`last_refresh`. -/
inductive Main where
  | time (pc : Pc)
  | refresh (a : Assignment)
  deriving DecidableEq, Repr

structure State where
  timeSinceBoot : Time
  lastRefresh : Time
  /-- Where `SysTick_Handler` is in `time_since_boot++`. -/
  sysTick : Option Assignment
  main : Main
  /-- `System_Reset` was called, which does not return. -/
  reset : Bool
  deriving DecidableEq, Repr

inductive Event where
  /-- `SysTick_Handler` is entered. -/
  | tick
  | tickStore (h : Half)
  /-- `TIMx_IRQHandler` -/
  | timer
  /-- The program goes on in `System_Time`; the call is that of `SW_Watchdog_Reload`. -/
  | time (e : SystemTime.Event)
  | refreshStore (h : Half)
  deriving DecidableEq, Repr

def halTimPeriodElapsedCallback (s : State) : State :=
  let now := s.timeSinceBoot
  -- In case of a weird error, go back to a known state and skip the check once.
  if now < s.lastRefresh then { s with lastRefresh := s.timeSinceBoot }
  else
    let delta := now - s.lastRefresh
    if BitVec.ofNat 64 (timeoutSwWatchdogSeconds * 1000) < delta then { s with reset := true }
    else s

/-- The program after a step of `System_Time`. -/
def Main.next (lastRefresh : Time) (c : Clock) : SystemTime.Event → Main
  | .ret t => .refresh ⟨lastRefresh, t, none⟩
  | _ => .time c.pc

def Main.stored : Option Assignment → Main
  | none => .time .idle
  | some a => .refresh a

/-- A step of the program, which runs only outside of the handlers. -/
def mainStep (s : State) : Event → Option State
  | .time .tick => none
  | .time e =>
    match s.main with
    | .time pc => (SystemTime.step ⟨s.timeSinceBoot, pc⟩ e).map fun c =>
        { s with main := Main.next s.lastRefresh c e }
    | .refresh _ => none
  | .refreshStore h =>
    match s.main with
    | .time _ => none
    | .refresh a => (a.store h).map fun left =>
        { s with lastRefresh := put h a.value s.lastRefresh, main := Main.stored left }
  | _ => none

/-- `none` when the event cannot happen there. -/
def step (s : State) (e : Event) : Option State :=
  if s.reset then none
  else
    match e, s.sysTick with
    | .timer, _ => some (halTimPeriodElapsedCallback s)
    | .tick, none => some { s with sysTick := some ⟨s.timeSinceBoot, s.timeSinceBoot + 1, none⟩ }
    | .tick, some _ => none
    | .tickStore _, none => none
    | .tickStore h, some a => (a.store h).map fun left =>
        { s with timeSinceBoot := put h a.value s.timeSinceBoot, sysTick := left }
    | e, none => mainStep s e
    | _, some _ => none

def run (s : State) (es : List Event) : Option State := es.foldlM step s

def boot : State where
  timeSinceBoot := 0
  lastRefresh := 0
  sysTick := none
  main := .time .idle
  reset := false

/-! ## What an observer counts -/

structure Observed where
  /-- Entries of `SysTick_Handler`. -/
  ticks : Nat
  /-- `ticks` at the last call of `SW_Watchdog_Reload`. -/
  called : Nat
  /-- `ticks` when half of `last_refresh` was last stored. -/
  stored : Nat
  /-- The first half has been stored, the second has not. -/
  halfway : Bool
  /-- `called` of the last reload that has ended. -/
  reloaded : Nat
  deriving DecidableEq, Repr

def Observed.add (o : Observed) : Event → Observed
  | .tick => { o with ticks := o.ticks + 1 }
  | .time .call => { o with called := o.ticks }
  | .refreshStore _ =>
    { o with
      stored := o.ticks
      halfway := !o.halfway
      reloaded := if o.halfway then o.called else o.reloaded }
  | _ => o

/-- The boot counts as a reload. -/
def observe (es : List Event) : Observed := es.foldl Observed.add ⟨0, 0, 0, false, 0⟩

/-- The events of `System_Time`, its ticks included. -/
def Event.clock : Event → Option SystemTime.Event
  | .tick => some .tick
  | .time .tick => none
  | .time e => some e
  | _ => none

def clockEvents (es : List Event) : List SystemTime.Event := es.filterMap Event.clock

/-- One half is stored, and both differ from what they replace: the variable holds neither
the old value nor the new one. -/
def Assignment.Torn (a : Assignment) : Prop :=
  a.first ≠ none ∧ ∀ h : Half, h.of a.old ≠ h.of a.value

/-- An interrupt would find a torn variable. -/
def State.Torn (s : State) : Prop :=
  (∃ a, s.sysTick = some a ∧ a.Torn) ∨ ∃ a, s.main = .refresh a ∧ a.Torn

/-- The interrupt never comes when a variable is torn. -/
def Untorn (es : List Event) : Prop :=
  ∀ before after s, es = before ++ .timer :: after → run boot before = some s → ¬ s.Torn

/-- Either fewer than `2 ^ 32` ticks, that is 49 days, or else the counter does not wrap,
`System_Time` returns within 49 days and no interrupt falls on a carry. -/
def Orderly (es : List Event) : Prop :=
  (observe es).ticks < 2 ^ 32 ∨
    (observe es).ticks < 2 ^ 64 ∧ SystemTime.Undisturbed (clockEvents es) ∧ Untorn es

/-! ## Assignments -/

theorem other_other (h : Half) : h.other.other = h := by cases h <;> rfl

theorem of_put (h : Half) (value v : Time) : h.of (put h value v) = h.of value := h.of_join _ _

theorem other_of_put (h : Half) (value v : Time) : h.other.of (put h value v) = h.other.of v :=
  h.other_of_join _ _

/-- Both halves replaced. -/
theorem put_other_put (h : Half) (value v : Time) : put h.other value (put h value v) = value := by
  apply Half.ext
  intro q
  rcases h.eq_or_other q with rfl | rfl
  · have hother := other_of_put q.other value (put q value v)
    rw [other_other] at hother
    rw [hother, of_put]
  · rw [of_put]

/-- Whichever half is replaced, the high half is that of one of the two. -/
theorem high_le_put (h : Half) (value v : Time) :
    min value.toNat v.toNat / 2 ^ 32 * 2 ^ 32 ≤ (put h value v).toNat := by
  have hhigh : ∀ t low : BitVec 64, t.toNat / 2 ^ 32 * 2 ^ 32 ≤
      (Half.high.of t ++ Half.low.of low : Time).toNat := by
    intro t low
    have hlt := t.isLt
    have hpart : (Half.high.of t).toNat = t.toNat / 2 ^ 32 := by
      rw [Half.of, BitVec.extractLsb'_toNat, Nat.shiftRight_eq_div_pow, Nat.mod_eq_of_lt (by omega)]
    rw [BitVec.toNat_append, hpart, Nat.shiftLeft_eq]
    exact Nat.left_le_or
  cases h with
  | low => exact Nat.le_trans (by omega) (hhigh v value)
  | high => exact Nat.le_trans (by omega) (hhigh value v)

/-- One half replaced by a value that does not differ in both. -/
theorem put_eq_or {q : Half} {value v : Time} (hq : q.of v = q.of value) (h : Half) :
    put h value v = v ∨ put h value v = value := by
  rcases h.eq_or_other q with rfl | rfl
  · left
    apply Half.ext
    intro p
    rcases q.eq_or_other p with rfl | rfl
    · rw [of_put, hq]
    · rw [other_of_put]
  · right
    apply Half.ext
    intro p
    rcases h.eq_or_other p with rfl | rfl
    · rw [of_put]
    · rw [other_of_put, hq]

/-- What the variable holds in the middle of the assignment. -/
def Assignment.Holds (a : Assignment) (v : Time) : Prop :=
  match a.first with
  | none => v = a.old
  | some h => v = put h a.value a.old

/-- The old value or the new one, unless it is torn. -/
theorem Assignment.Holds.untorn {a : Assignment} {v : Time} (h : a.Holds v) (ht : ¬ a.Torn) :
    v = a.old ∨ a.first ≠ none ∧ v = a.value := by
  unfold Assignment.Holds at h
  cases hfirst : a.first with
  | none =>
    rw [hfirst] at h
    exact Or.inl h
  | some q =>
    rw [hfirst] at h
    have hsame : ∃ p : Half, p.of a.old = p.of a.value := by
      by_contra hall
      exact ht ⟨by simp [hfirst], fun p hp => hall ⟨p, hp⟩⟩
    obtain ⟨p, hp⟩ := hsame
    rw [h]
    exact (put_eq_or hp q).imp_right fun hv => ⟨by simp, hv⟩

/-- The first half leaves the second to do, the second completes the value. -/
theorem Assignment.Holds.store {a : Assignment} {v : Time} {h : Half} {left : Option Assignment}
    (hold : a.Holds v) (hs : a.store h = some left) :
    (a.first = none ∧ left = some { a with first := some h } ∧
      Assignment.Holds { a with first := some h } (put h a.value v)) ∨
    (a.first ≠ none ∧ left = none ∧ put h a.value v = a.value) := by
  unfold Assignment.Holds Assignment.store at *
  cases hfirst : a.first with
  | none =>
    rw [hfirst] at hold hs
    cases hs
    rw [hold]
    exact Or.inl ⟨rfl, rfl, rfl⟩
  | some q =>
    rw [hfirst] at hold hs
    simp only at hs
    split at hs
    · rename_i hq
      cases hs
      rw [hold, hq]
      exact Or.inr ⟨by simp, rfl, put_other_put q a.value a.old⟩
    · cases hs

/-! ## Events -/

theorem observe_concat (es : List Event) (e : Event) :
    observe (es ++ [e]) = (observe es).add e := by
  rw [observe, List.foldl_append]
  rfl

theorem clockEvents_concat (es : List Event) (e : Event) :
    clockEvents (es ++ [e]) = clockEvents es ++ e.clock.toList := by
  cases h : e.clock <;> simp [clockEvents, List.filterMap_append, h]

theorem run_concat {s s' : State} {es : List Event} {e : Event}
    (h : run s (es ++ [e]) = some s') : ∃ m, run s es = some m ∧ step m e = some s' := by
  rw [run, List.foldlM_append] at h
  obtain ⟨m, hm, hstep⟩ := Option.bind_eq_some_iff.mp h
  exact ⟨m, hm, by simpa using hstep⟩

theorem run_append (s : State) (es es' : List Event) :
    run s (es ++ es') = (run s es).bind fun m => run m es' := List.foldlM_append

theorem run_snoc {s m s' : State} {es : List Event} {e : Event} (hrun : run s es = some m)
    (hstep : step m e = some s') : run s (es ++ [e]) = some s' := by
  rw [run_append, hrun, Option.bind_some]
  simpa [run] using hstep

/-- `System_Time` counts the same ticks. -/
theorem ticks_clockEvents (es : List Event) :
    SystemTime.ticks (clockEvents es) = (observe es).ticks := by
  induction es using List.reverseRecOn with
  | nil => rfl
  | append_singleton es e ih =>
    rw [clockEvents_concat, SystemTime.ticks_append, ih, observe_concat]
    cases e with
    | time e => cases e <;> rfl
    | _ => rfl

theorem called_le_ticks (es : List Event) : (observe es).called ≤ (observe es).ticks := by
  induction es using List.reverseRecOn with
  | nil => exact Nat.le_refl 0
  | append_singleton es e ih =>
    rw [observe_concat]
    cases e with
    | tick => exact Nat.le_succ_of_le ih
    | time e =>
      cases e with
      | call => exact Nat.le_refl _
      | _ => exact ih
    | _ => exact ih

/-- Only a call sets `called`. -/
theorem called_add (o : Observed) {e : Event} (he : e ≠ .time .call) :
    (o.add e).called = o.called := by
  cases e with
  | time e =>
    cases e with
    | call => exact absurd rfl he
    | _ => rfl
  | _ => rfl

/-- The last call is before the last iteration. -/
theorem called_le_before {es : List Event} {before iter : List SystemTime.Event}
    (hes : clockEvents es = before ++ iter) (hin : ∀ e ∈ iter, e.InLoop) :
    (observe es).called ≤ SystemTime.ticks before := by
  induction es using List.reverseRecOn generalizing before iter with
  | nil => exact Nat.zero_le _
  | append_singleton es e ih =>
    rcases List.eq_nil_or_concat' iter with rfl | ⟨iter, x, rfl⟩
    · rw [List.append_nil] at hes
      rw [← hes, ticks_clockEvents]
      exact called_le_ticks _
    · have hx : x.InLoop := hin x (by simp)
      have hcall : e ≠ .time .call := by
        rintro rfl
        rw [clockEvents_concat, ← List.append_assoc] at hes
        have hlast := (List.append_inj' hes rfl).2
        cases hlast
        exact hx
      rw [observe_concat, called_add _ hcall]
      rw [clockEvents_concat] at hes
      cases hc : e.clock with
      | none =>
        rw [hc, Option.toList_none, List.append_nil] at hes
        exact ih hes hin
      | some y =>
        rw [hc, Option.toList_some, ← List.append_assoc] at hes
        exact ih (List.append_inj' hes rfl).1 fun e he => hin e (List.mem_append_left _ he)

/-! ## What an event can do -/

inductive Stepped (s : State) : Event → State → Prop
  | timer : Stepped s .timer (halTimPeriodElapsedCallback s)
  | tick (hs : s.sysTick = none) : Stepped s .tick
      { s with sysTick := some ⟨s.timeSinceBoot, s.timeSinceBoot + 1, none⟩ }
  | tickStore {a : Assignment} {q : Half} {left : Option Assignment} (hs : s.sysTick = some a)
      (hstore : a.store q = some left) : Stepped s (.tickStore q)
      { s with timeSinceBoot := put q a.value s.timeSinceBoot, sysTick := left }
  | time {pc : Pc} {e : SystemTime.Event} {c : Clock} (hs : s.sysTick = none)
      (hm : s.main = .time pc) (htick : e ≠ .tick)
      (hstep : SystemTime.step ⟨s.timeSinceBoot, pc⟩ e = some c) : Stepped s (.time e)
      { s with main := Main.next s.lastRefresh c e }
  | refreshStore {a : Assignment} {q : Half} {left : Option Assignment} (hs : s.sysTick = none)
      (hm : s.main = .refresh a) (hstore : a.store q = some left) : Stepped s (.refreshStore q)
      { s with lastRefresh := put q a.value s.lastRefresh, main := Main.stored left }

theorem mainStep_stepped {s s' : State} {e : Event} (hs : s.sysTick = none)
    (h : mainStep s e = some s') : Stepped s e s' := by
  unfold mainStep at h
  split at h
  · cases h
  · rename_i e htick
    split at h
    · rename_i pc hm
      obtain ⟨c, hstep, rfl⟩ := Option.map_eq_some_iff.mp h
      exact .time hs hm htick hstep
    · cases h
  · split at h
    · cases h
    · rename_i a hm
      obtain ⟨left, hstore, rfl⟩ := Option.map_eq_some_iff.mp h
      exact .refreshStore hs hm hstore
  · cases h

theorem step_running {s s' : State} {e : Event} (h : step s e = some s') : s.reset = false := by
  unfold step at h
  split at h
  · cases h
  · rename_i hreset
    exact Bool.eq_false_iff.mpr hreset

theorem step_stepped {s s' : State} {e : Event} (h : step s e = some s') : Stepped s e s' := by
  have hreset := Bool.eq_false_iff.mp (step_running h)
  unfold step at h
  rw [if_neg hreset] at h
  split at h
  · cases h
    exact .timer
  · rename_i hs
    cases h
    exact .tick hs
  · cases h
  · cases h
  · rename_i a hs
    obtain ⟨left, hstore, rfl⟩ := Option.map_eq_some_iff.mp h
    exact .tickStore hs hstore
  · rename_i hs
    exact mainStep_stepped hs h
  · cases h

/-! ## The invariant -/

/-- The handler is entered for the `n`-th time, and `d` ticks are counted in full. -/
def Ticking (n d : Nat) (s : State) : Prop :=
  match s.sysTick with
  | none => n = d ∧ s.timeSinceBoot = BitVec.ofNat 64 d
  | some a => n = d + 1 ∧ a.old = BitVec.ofNat 64 d ∧ a.value = BitVec.ofNat 64 (d + 1) ∧
      a.Holds s.timeSinceBoot

/-- `last_refresh` is the count `k`, or is about to be replaced by the count `m`. -/
def Refreshing (o : Observed) (d : Nat) (s : State) : Prop :=
  match s.main with
  | .time pc => o.halfway = false ∧ (pc ≠ .idle → o.stored ≤ o.called) ∧
      ∃ k, s.lastRefresh = BitVec.ofNat 64 k ∧ o.reloaded ≤ k ∧ k ≤ o.stored
  | .refresh a => o.halfway = a.first.isSome ∧
      ∃ k m, a.old = BitVec.ofNat 64 k ∧ a.value = BitVec.ofNat 64 m ∧ a.Holds s.lastRefresh ∧
        o.reloaded ≤ k ∧ k ≤ o.stored ∧ k ≤ o.called ∧ o.called ≤ m ∧ m ≤ d ∧
        (a.first ≠ none → m ≤ o.stored)

def Main.pc : Main → Pc
  | .time pc => pc
  | .refresh _ => .idle

structure Kept (es : List Event) (d : Nat) (s : State) : Prop where
  clock : ∃ c, SystemTime.run SystemTime.boot (clockEvents es) = some c ∧ c.pc = s.main.pc
  ticking : Ticking (observe es).ticks d s
  stored : (observe es).stored ≤ d
  refreshing : Refreshing (observe es) d s

theorem kept_boot : Kept [] 0 boot where
  clock := ⟨SystemTime.boot, rfl, rfl⟩
  ticking := ⟨rfl, rfl⟩
  stored := Nat.le_refl 0
  refreshing := ⟨rfl, fun _ => Nat.le_refl 0, 0, rfl, Nat.le_refl 0, Nat.le_refl 0⟩

theorem Ticking.bounds {n d : Nat} {s : State} (h : Ticking n d s) : d ≤ n ∧ n ≤ d + 1 := by
  unfold Ticking at h
  cases hs : s.sysTick <;> rw [hs] at h <;> omega

/-- What an interrupt that finds nothing torn reads. -/
structure Seen (o : Observed) (s : State) (j k : Nat) : Prop where
  now : s.timeSinceBoot = BitVec.ofNat 64 j
  last : s.lastRefresh = BitVec.ofNat 64 k
  recent : j ≤ o.ticks ∧ o.ticks ≤ j + 1
  past : k ≤ j
  reloaded : o.reloaded ≤ k
  stored : k ≤ o.stored

theorem Kept.seen {es : List Event} {d : Nat} {s : State} (h : Kept es d s) (ht : ¬ s.Torn) :
    ∃ j k, Seen (observe es) s j k := by
  obtain ⟨hdn, hnd⟩ := h.ticking.bounds
  have hnow : ∃ j, d ≤ j ∧ j ≤ (observe es).ticks ∧ s.timeSinceBoot = BitVec.ofNat 64 j := by
    have hticking := h.ticking
    unfold Ticking at hticking
    cases hs : s.sysTick with
    | none =>
      rw [hs] at hticking
      exact ⟨d, Nat.le_refl d, hdn, hticking.2⟩
    | some a =>
      rw [hs] at hticking
      obtain ⟨hn, hold, hvalue, hholds⟩ := hticking
      rcases hholds.untorn fun htorn => ht (Or.inl ⟨a, hs, htorn⟩) with hv | ⟨_, hv⟩
      · exact ⟨d, Nat.le_refl d, hdn, hv.trans hold⟩
      · exact ⟨d + 1, Nat.le_succ d, Nat.le_of_eq hn.symm, hv.trans hvalue⟩
  have hlast : ∃ k, k ≤ d ∧ (observe es).reloaded ≤ k ∧ k ≤ (observe es).stored ∧
      s.lastRefresh = BitVec.ofNat 64 k := by
    have hstored := h.stored
    have hrefreshing := h.refreshing
    unfold Refreshing at hrefreshing
    cases hm : s.main with
    | time pc =>
      rw [hm] at hrefreshing
      obtain ⟨_, _, k, hk, hlo, hhi⟩ := hrefreshing
      exact ⟨k, Nat.le_trans hhi hstored, hlo, hhi, hk⟩
    | refresh a =>
      rw [hm] at hrefreshing
      obtain ⟨_, k, m, hold, hvalue, hholds, hlo, hhi, hcalled, hcm, hmd, hfirst⟩ := hrefreshing
      rcases hholds.untorn fun htorn => ht (Or.inr ⟨a, hm, htorn⟩) with hv | ⟨hne, hv⟩
      · exact ⟨k, Nat.le_trans hhi hstored, hlo, hhi, hv.trans hold⟩
      · exact ⟨m, hmd, by omega, hfirst hne, hv.trans hvalue⟩
  obtain ⟨j, hdj, hjn, hj⟩ := hnow
  obtain ⟨k, hkd, hlo, hhi, hk⟩ := hlast
  exact ⟨j, k, hj, hk, ⟨hjn, by omega⟩, by omega, hlo, hhi⟩

/-- The check finds neither a torn time nor one that lies ahead. -/
theorem Seen.callback {o : Observed} {s : State} {j k : Nat} (h : Seen o s j k)
    (hwrap : o.ticks < 2 ^ 64) : halTimPeriodElapsedCallback s =
      if timeoutSwWatchdogSeconds * 1000 < j - k then { s with reset := true } else s := by
  have hj := h.recent.1
  have hk := h.past
  have htime : timeoutSwWatchdogSeconds * 1000 = 3000 := rfl
  have hnow : s.timeSinceBoot.toNat = j := by
    rw [h.now, BitVec.toNat_ofNat, Nat.mod_eq_of_lt (by omega)]
  have hlast : s.lastRefresh.toNat = k := by
    rw [h.last, BitVec.toNat_ofNat, Nat.mod_eq_of_lt (by omega)]
  have hnot : ¬ s.timeSinceBoot < s.lastRefresh := by
    rw [BitVec.lt_def, hnow, hlast]
    omega
  have hdelta : BitVec.ofNat 64 (timeoutSwWatchdogSeconds * 1000) <
      s.timeSinceBoot - s.lastRefresh ↔ timeoutSwWatchdogSeconds * 1000 < j - k := by
    rw [BitVec.lt_def, BitVec.toNat_sub_of_le (by rw [BitVec.le_def, hnow, hlast]; exact hk), hnow,
      hlast, htime]
    rfl
  simp only [halTimPeriodElapsedCallback, if_neg hnot, hdelta]

/-! ## Steps -/

section

variable {es : List Event} {d : Nat} {s s' : State}

/-- An event that neither the observer nor `System_Time` sees. -/
theorem Kept.unseen {es' : List Event} (h : Kept es d s)
    (hclock : clockEvents es' = clockEvents es) (hobserve : observe es' = observe es) :
    Kept es' d s := by
  constructor
  · rw [hclock]
    exact h.clock
  · rw [hobserve]
    exact h.ticking
  · rw [hobserve]
    exact h.stored
  · rw [hobserve]
    exact h.refreshing

theorem Kept.timer (h : Kept es d s) (ht : ¬ s.Torn) (hwrap : (observe es).ticks < 2 ^ 64) :
    Kept (es ++ [.timer]) d (halTimPeriodElapsedCallback s) := by
  obtain ⟨j, k, hseen⟩ := h.seen ht
  have hclock : clockEvents (es ++ [.timer]) = clockEvents es := by
    rw [clockEvents_concat]
    exact List.append_nil _
  have hkept := h.unseen hclock (observe_concat es .timer)
  rw [hseen.callback hwrap]
  split
  · exact ⟨hkept.clock, hkept.ticking, hkept.stored, hkept.refreshing⟩
  · exact hkept

theorem Ticking.tick {n : Nat} (h : Ticking n d s) (hs : s.sysTick = none) :
    Ticking (n + 1) d
      { s with sysTick := some ⟨s.timeSinceBoot, s.timeSinceBoot + 1, none⟩ } := by
  rw [Ticking, hs] at h
  obtain ⟨hn, htime⟩ := h
  refine ⟨congrArg (· + 1) hn, htime, ?_, rfl⟩
  show s.timeSinceBoot + 1 = BitVec.ofNat 64 (d + 1)
  rw [htime, BitVec.ofNat_add]
  rfl

/-- The first half leaves the tick open, the second completes it. -/
theorem Ticking.tickStore {n : Nat} (h : Ticking n d s) {a : Assignment} (hs : s.sysTick = some a)
    {q : Half} {left : Option Assignment} (hstore : a.store q = some left) :
    ∃ d', d ≤ d' ∧ Ticking n d'
      { s with timeSinceBoot := put q a.value s.timeSinceBoot, sysTick := left } := by
  rw [Ticking, hs] at h
  obtain ⟨hn, hold, hvalue, hholds⟩ := h
  rcases hholds.store hstore with ⟨_, rfl, hholds'⟩ | ⟨_, rfl, hput⟩
  · exact ⟨d, Nat.le_refl d, hn, hold, hvalue, hholds'⟩
  · exact ⟨d + 1, Nat.le_succ d, hn, hput.trans hvalue⟩

theorem Kept.tick (h : Kept es d s) (hs : s.sysTick = none) :
    Kept (es ++ [.tick]) d
      { s with sysTick := some ⟨s.timeSinceBoot, s.timeSinceBoot + 1, none⟩ } where
  clock := by
    obtain ⟨c, hrun, hpc⟩ := h.clock
    refine ⟨{ c with timeSinceBoot := c.timeSinceBoot + 1 }, ?_, hpc⟩
    rw [clockEvents_concat, SystemTime.run_append, hrun]
    rfl
  ticking := by
    rw [observe_concat]
    exact h.ticking.tick hs
  stored := by
    rw [observe_concat]
    exact h.stored
  refreshing := by
    rw [observe_concat]
    exact h.refreshing

theorem Refreshing.mono {o : Observed} (h : Refreshing o d s) {d' : Nat} (hd : d ≤ d') :
    Refreshing o d' s := by
  unfold Refreshing at *
  cases hm : s.main with
  | time pc =>
    rw [hm] at h
    exact h
  | refresh a =>
    rw [hm] at h
    obtain ⟨h1, k, m, h2, h3, h4, h5, h6, h7, h8, h9, h10⟩ := h
    exact ⟨h1, k, m, h2, h3, h4, h5, h6, h7, h8, Nat.le_trans h9 hd, h10⟩

theorem Kept.tickStore (h : Kept es d s) {a : Assignment} (hs : s.sysTick = some a) {q : Half}
    {left : Option Assignment} (hstore : a.store q = some left) :
    ∃ d', Kept (es ++ [.tickStore q]) d'
      { s with timeSinceBoot := put q a.value s.timeSinceBoot, sysTick := left } := by
  have hclock : clockEvents (es ++ [.tickStore q]) = clockEvents es := by
    rw [clockEvents_concat]
    exact List.append_nil _
  have hkept := h.unseen hclock (observe_concat es (.tickStore q))
  obtain ⟨d', hdd, hticking⟩ := hkept.ticking.tickStore hs hstore
  exact ⟨d', hkept.clock, hticking, Nat.le_trans hkept.stored hdd, hkept.refreshing.mono hdd⟩

/-- The program finds the counter as `System_Time` alone would. -/
theorem Kept.clock_eq (h : Kept es d s) (hs : s.sysTick = none) {pc : Pc}
    (hm : s.main = .time pc) :
    SystemTime.run SystemTime.boot (clockEvents es) = some ⟨s.timeSinceBoot, pc⟩ := by
  obtain ⟨⟨time, pc'⟩, hrun, hpc⟩ := h.clock
  have hcounter := (SystemTime.run_reached hrun).counter
  have hticking := h.ticking
  rw [Ticking, hs] at hticking
  obtain ⟨hn, htime⟩ := hticking
  rw [ticks_clockEvents, hn, ← htime] at hcounter
  rw [hm] at hpc
  rw [hrun]
  cases hcounter
  cases hpc
  rfl

theorem Kept.refreshStore (h : Kept es d s) (hs : s.sysTick = none) {a : Assignment}
    (hm : s.main = .refresh a) {q : Half} {left : Option Assignment}
    (hstore : a.store q = some left) :
    Kept (es ++ [.refreshStore q]) d
      { s with lastRefresh := put q a.value s.lastRefresh, main := Main.stored left } := by
  have hclock : clockEvents (es ++ [.refreshStore q]) = clockEvents es := by
    rw [clockEvents_concat]
    exact List.append_nil _
  have hobserve := observe_concat es (.refreshStore q)
  have hticking := h.ticking
  have hrefreshing := h.refreshing
  rw [Ticking, hs] at hticking
  rw [Refreshing, hm] at hrefreshing
  obtain ⟨hn, _⟩ := hticking
  obtain ⟨c, hrun, hpc⟩ := h.clock
  rw [hm] at hpc
  obtain ⟨hhalf, k, m, hold, hvalue, hholds, hlo, hhi, hcalled, hcm, hmd, hfirst⟩ := hrefreshing
  have hstored := h.stored
  have hfields : (observe (es ++ [.refreshStore q])).ticks = (observe es).ticks ∧
      (observe (es ++ [.refreshStore q])).stored = (observe es).ticks ∧
      (observe (es ++ [.refreshStore q])).called = (observe es).called ∧
      (observe (es ++ [.refreshStore q])).halfway = !(observe es).halfway ∧
      (observe (es ++ [.refreshStore q])).reloaded =
        if (observe es).halfway then (observe es).called else (observe es).reloaded := by
    rw [hobserve]
    exact ⟨rfl, rfl, rfl, rfl, rfl⟩
  obtain ⟨h1, h2, h3, h4, h5⟩ := hfields
  have htick : Ticking (observe (es ++ [.refreshStore q])).ticks d
      { s with lastRefresh := put q a.value s.lastRefresh, main := Main.stored left } := by
    rw [h1]
    exact h.ticking
  rcases hholds.store hstore with ⟨hnone, rfl, hholds'⟩ | ⟨hsome, rfl, hput⟩
  · refine ⟨⟨c, by rw [hclock]; exact hrun, hpc⟩, htick, by omega, ?_⟩
    rw [hnone] at hhalf
    rw [hhalf] at h4 h5
    refine ⟨h4, k, m, hold, hvalue, hholds', ?_, ?_, ?_, ?_, hmd, fun _ => ?_⟩
    · rw [h5]
      exact hlo
    · omega
    · omega
    · omega
    · omega
  · refine ⟨⟨c, by rw [hclock]; exact hrun, hpc⟩, htick, by omega, ?_⟩
    rw [Option.isSome_iff_ne_none.mpr hsome] at hhalf
    rw [hhalf] at h4 h5
    refine ⟨h4, fun hidle => absurd rfl hidle, m, hput.trans hvalue, ?_, ?_⟩
    · rw [h5]
      exact hcm
    · omega

/-- Of `System_Time` only the calls are observed. -/
theorem observe_time (es : List Event) (e : SystemTime.Event) :
    (observe (es ++ [.time e])).ticks = (observe es).ticks ∧
      (observe (es ++ [.time e])).stored = (observe es).stored ∧
      (observe (es ++ [.time e])).halfway = (observe es).halfway ∧
      (observe (es ++ [.time e])).reloaded = (observe es).reloaded := by
  rw [observe_concat]
  cases e <;> exact ⟨rfl, rfl, rfl, rfl⟩

/-- A step of `System_Time` that does not return. -/
theorem Kept.time (h : Kept es d s) (hs : s.sysTick = none) {pc : Pc} (hm : s.main = .time pc)
    {e : SystemTime.Event} (htick : e ≠ .tick) (hret : ∀ t, e ≠ .ret t) {c : Clock}
    (hstep : SystemTime.step ⟨s.timeSinceBoot, pc⟩ e = some c) :
    Kept (es ++ [.time e]) d { s with main := .time c.pc } := by
  have hclock : clockEvents (es ++ [.time e]) = clockEvents es ++ [e] := by
    rw [clockEvents_concat]
    cases e with
    | tick => exact absurd rfl htick
    | _ => rfl
  have hrun : SystemTime.run SystemTime.boot (clockEvents (es ++ [.time e])) = some c := by
    rw [hclock, SystemTime.run_append, h.clock_eq hs hm, Option.bind_some]
    simpa [SystemTime.run] using hstep
  obtain ⟨hticks, hstored, hhalfway, hreloaded⟩ := observe_time es e
  have hrefreshing := h.refreshing
  rw [Refreshing, hm] at hrefreshing
  obtain ⟨hhalf, hcalled, k, hk, hlo, hhi⟩ := hrefreshing
  have hbusy : (observe es).stored ≤ (observe (es ++ [.time e])).called := by
    cases e with
    | tick => exact absurd rfl htick
    | ret t => exact absurd rfl (hret t)
    | call =>
      rw [observe_concat]
      exact Nat.le_trans h.stored h.ticking.bounds.1
    | read q =>
      rw [observe_concat]
      apply hcalled
      rintro rfl
      cases hstep
    | again =>
      rw [observe_concat]
      apply hcalled
      rintro rfl
      cases hstep
  constructor
  · exact ⟨c, hrun, rfl⟩
  · rw [hticks]
    exact h.ticking
  · rw [hstored]
    exact h.stored
  · rw [Refreshing, hhalfway, hstored, hreloaded]
    exact ⟨hhalf, fun _ => hbusy, k, hk, hlo, hhi⟩

/-- `System_Time` returns a count from after the call. -/
theorem Kept.ret (h : Kept es d s) (hs : s.sysTick = none) {pc : Pc} (hm : s.main = .time pc)
    {t : Time} {c : Clock} (hstep : SystemTime.step ⟨s.timeSinceBoot, pc⟩ (.ret t) = some c)
    (hfew : SystemTime.Undisturbed (clockEvents (es ++ [.time (.ret t)]))) :
    Kept (es ++ [.time (.ret t)]) d { s with main := .refresh ⟨s.lastRefresh, t, none⟩ } := by
  have hclock : clockEvents (es ++ [.time (.ret t)]) = clockEvents es ++ [.ret t] :=
    clockEvents_concat es _
  have hrun : SystemTime.run SystemTime.boot (clockEvents es ++ [.ret t]) = some c := by
    rw [SystemTime.run_append, h.clock_eq hs hm, Option.bind_some]
    simpa [SystemTime.run] using hstep
  obtain ⟨before, iter, hes, hiter, hmoment⟩ := SystemTime.returned_moment hrun
  have hW : SystemTime.ticks iter < 2 ^ 32 := by
    apply hfew before iter t []
    · rw [hclock, hes]
    · exact hiter
  obtain ⟨m, hlo, hhi, ht⟩ := hmoment hW
  have hcalled := called_le_before hes hiter.inside
  rw [ticks_clockEvents] at hhi
  have hobserve := observe_concat es (.time (.ret t))
  have hticking := h.ticking
  have hrefreshing := h.refreshing
  rw [Ticking, hs] at hticking
  rw [Refreshing, hm] at hrefreshing
  obtain ⟨hhalf, hidle, k, hk, hk1, hk2⟩ := hrefreshing
  simp only [SystemTime.step] at hstep
  split at hstep
  · rename_i hpc
    have hstored : (observe es).stored ≤ (observe es).called := by
      apply hidle
      rw [hpc]
      intro hidle'
      cases hidle'
    cases hstep
    have hmd : m ≤ d := Nat.le_trans hhi (Nat.le_of_eq hticking.1)
    constructor
    · rw [hclock]
      exact ⟨_, hrun, rfl⟩
    · rw [hobserve]
      exact h.ticking
    · rw [hobserve]
      exact h.stored
    · rw [hobserve]
      exact ⟨hhalf, k, m, hk, ht, rfl, hk1, hk2, Nat.le_trans hk2 hstored,
        Nat.le_trans hcalled hlo, hmd, fun hfirst => absurd rfl hfirst⟩
  · cases hstep

/-- Every event. -/
theorem Kept.next (h : Kept es d s) {e : Event} (hstep : step s e = some s')
    (ht : e = .timer → ¬ s.Torn) (hwrap : (observe es).ticks < 2 ^ 64)
    (hfew : SystemTime.Undisturbed (clockEvents (es ++ [e]))) :
    ∃ d', Kept (es ++ [e]) d' s' := by
  cases step_stepped hstep with
  | timer => exact ⟨d, h.timer (ht rfl) hwrap⟩
  | tick hs => exact ⟨d, h.tick hs⟩
  | tickStore hs hstore => exact h.tickStore hs hstore
  | @time _ e _ hs hm htick hclock =>
    cases e with
    | ret t => exact ⟨d, h.ret hs hm hclock hfew⟩
    | _ => exact ⟨d, h.time hs hm htick (by simp) hclock⟩
  | refreshStore hs hm hstore => exact ⟨d, h.refreshStore hs hm hstore⟩

end

/-! ## Runs -/

theorem high_of_small {m n : Nat} (hm : m < 2 ^ 32) (hn : n < 2 ^ 32) :
    Half.high.of (BitVec.ofNat 64 m) = Half.high.of (BitVec.ofNat 64 n) := by
  have hpart : ∀ n, n < 2 ^ 32 → (SystemTime.part .high n).toNat = 0 := by
    intro n hn
    rw [SystemTime.toNat_part_high, Nat.div_eq_of_lt hn, Nat.zero_mod]
  exact BitVec.eq_of_toNat_eq ((hpart m hm).trans (hpart n hn).symm)

/-- Without a carry nothing is torn. -/
theorem Kept.untorn {es : List Event} {d : Nat} {s : State} (h : Kept es d s)
    (hfew : (observe es).ticks < 2 ^ 32) : ¬ s.Torn := by
  have hdn := h.ticking.bounds.1
  rintro (⟨a, hs, _, htorn⟩ | ⟨a, hm, _, htorn⟩)
  · have hticking := h.ticking
    rw [Ticking, hs] at hticking
    obtain ⟨hn, hold, hvalue, _⟩ := hticking
    apply htorn .high
    rw [hold, hvalue]
    exact high_of_small (by omega) (by omega)
  · have hrefreshing := h.refreshing
    have hstored := h.stored
    rw [Refreshing, hm] at hrefreshing
    obtain ⟨_, k, m, hold, hvalue, _, _, hk, _, _, hmd, _⟩ := hrefreshing
    apply htorn .high
    rw [hold, hvalue]
    exact high_of_small (by omega) (by omega)

theorem ticks_concat_le (es : List Event) (e : Event) :
    (observe es).ticks ≤ (observe (es ++ [e])).ticks := by
  rw [observe_concat]
  cases e with
  | tick => exact Nat.le_succ _
  | time e => cases e <;> exact Nat.le_refl _
  | _ => exact Nat.le_refl _

theorem Orderly.before {es : List Event} {e : Event} (h : Orderly (es ++ [e])) : Orderly es := by
  have hticks := ticks_concat_le es e
  rcases h with hfew | ⟨hwrap, hcalls, huntorn⟩
  · exact Or.inl (Nat.lt_of_le_of_lt hticks hfew)
  · rw [clockEvents_concat] at hcalls
    refine Or.inr ⟨Nat.lt_of_le_of_lt hticks hwrap, hcalls.before, ?_⟩
    rintro before after s rfl
    exact huntorn before (after ++ [e]) s (by simp)

theorem Orderly.wrap {es : List Event} (h : Orderly es) : (observe es).ticks < 2 ^ 64 :=
  h.elim (fun hfew => Nat.lt_trans hfew (by decide)) fun hmany => hmany.1

theorem Orderly.calls {es : List Event} (h : Orderly es) :
    SystemTime.Undisturbed (clockEvents es) := by
  rcases h with hfew | hmany
  · exact SystemTime.undisturbed_of_ticks (by rw [ticks_clockEvents]; exact hfew)
  · exact hmany.2.1

/-- The state that an interrupt finds is not torn. -/
theorem Orderly.untorn {es : List Event} {d : Nat} {s : State} (h : Orderly (es ++ [.timer]))
    (hrun : run boot es = some s) (hkept : Kept es d s) : ¬ s.Torn := by
  rcases h with hfew | ⟨_, _, huntorn⟩
  · exact hkept.untorn (Nat.lt_of_le_of_lt (ticks_concat_le es .timer) hfew)
  · exact huntorn es [] s rfl hrun

theorem kept_run {es : List Event} {s : State} (hrun : run boot es = some s) (ho : Orderly es) :
    ∃ d, Kept es d s := by
  induction es using List.reverseRecOn generalizing s with
  | nil =>
    cases hrun
    exact ⟨0, kept_boot⟩
  | append_singleton es e ih =>
    obtain ⟨m, hm, hstep⟩ := run_concat hrun
    obtain ⟨d, hkept⟩ := ih hm ho.before
    apply hkept.next hstep _ ho.before.wrap ho.calls
    rintro rfl
    exact ho.untorn hm hkept

/-- The outcome of a check, in counts of ticks. -/
theorem timer_outcome {es : List Event} {s s' : State} (hrun : run boot es = some s)
    (hstep : step s .timer = some s') (ho : Orderly (es ++ [.timer])) :
    ∃ j k, Seen (observe es) s j k ∧
      s' = if timeoutSwWatchdogSeconds * 1000 < j - k then { s with reset := true } else s := by
  obtain ⟨d, hkept⟩ := kept_run hrun ho.before
  obtain ⟨j, k, hseen⟩ := hkept.seen (ho.untorn hrun hkept)
  refine ⟨j, k, hseen, ?_⟩
  rw [← hseen.callback ho.before.wrap]
  cases step_stepped hstep
  rfl

/-- Only the check resets the device. -/
theorem step_reset {s s' : State} {e : Event} (h : step s e = some s') (he : e ≠ .timer) :
    s'.reset = s.reset := by
  cases step_stepped h with
  | timer => exact absurd rfl he
  | _ => rfl

/-- **No reset without cause.** In every interleaving of the program, the tick handler and
the watchdog interrupt: if at each interrupt at most 3 seconds have gone since the last
complete reload was called, the device is not reset. -/
theorem reloaded_in_time_not_reset {es : List Event} {s : State} (hrun : run boot es = some s)
    (ho : Orderly es)
    (hreload : ∀ before after, es = before ++ .timer :: after →
      (observe before).ticks ≤ (observe before).reloaded + timeoutSwWatchdogSeconds * 1000) :
    s.reset = false := by
  rcases List.eq_nil_or_concat' es with rfl | ⟨es, e, rfl⟩
  · cases hrun
    rfl
  · obtain ⟨m, hm, hstep⟩ := run_concat hrun
    have hrunning := step_running hstep
    by_cases he : e = .timer
    · subst he
      obtain ⟨j, k, hseen, rfl⟩ := timer_outcome hm hstep ho
      have htime := hreload es [] rfl
      have hj := hseen.recent.1
      have hk := hseen.reloaded
      rw [if_neg (by omega)]
      exact hrunning
    · rw [step_reset hstep he]
      exact hrunning

/-- Nothing is stored in `last_refresh`. -/
def Hangs (rest : List Event) : Prop := ∀ h, Event.refreshStore h ∉ rest

theorem Hangs.stored {es rest : List Event} (h : Hangs rest) :
    (observe (es ++ rest)).stored = (observe es).stored := by
  induction rest using List.reverseRecOn with
  | nil => rw [List.append_nil]
  | append_singleton rest e ih =>
    rw [← List.append_assoc, observe_concat, ← ih fun q hq => h q (List.mem_append_left _ hq)]
    cases e with
    | refreshStore q => exact absurd (List.mem_append_right _ List.mem_cons_self) (h q)
    | time e => cases e <;> rfl
    | _ => rfl

theorem stored_le_ticks (es : List Event) : (observe es).stored ≤ (observe es).ticks := by
  induction es using List.reverseRecOn with
  | nil => exact Nat.le_refl 0
  | append_singleton es e ih =>
    rw [observe_concat]
    cases e with
    | tick => exact Nat.le_succ_of_le ih
    | refreshStore q => exact Nat.le_refl _
    | time e => cases e <;> exact ih
    | _ => exact ih

/-- **A program that hangs is reset.** Once more than 3001 ticks have come without a store
to `last_refresh`, wherever the program and the tick handler were left, the next watchdog
interrupt resets the device, unless an earlier one has. -/
theorem hang_resets {es rest : List Event} {s : State}
    (hrun : run boot (es ++ rest ++ [.timer]) = some s) (ho : Orderly (es ++ rest ++ [.timer]))
    (hhang : Hangs rest)
    (hlong : (observe es).ticks + timeoutSwWatchdogSeconds * 1000 + 1 <
      (observe (es ++ rest)).ticks) : s.reset = true := by
  obtain ⟨m, hm, hstep⟩ := run_concat hrun
  obtain ⟨j, k, hseen, rfl⟩ := timer_outcome hm hstep ho
  have hj := hseen.recent.2
  have hk := hseen.stored
  have hstored := stored_le_ticks es
  rw [hhang.stored] at hk
  have htime : timeoutSwWatchdogSeconds * 1000 = 3000 := rfl
  rw [htime] at hlong ⊢
  rw [if_pos (by omega)]

/-! ## An interrupt on a carry -/

theorem callback_sysTick (s : State) : (halTimPeriodElapsedCallback s).sysTick = s.sysTick ∧
    (halTimPeriodElapsedCallback s).timeSinceBoot = s.timeSinceBoot := by
  simp only [halTimPeriodElapsedCallback]
  split
  · exact ⟨rfl, rfl⟩
  · split <;> exact ⟨rfl, rfl⟩

/-- An event completes the tick that is open, or leaves the count of the complete ones alone. -/
theorem Ticking.next {es : List Event} {d : Nat} {s s' : State} {e : Event}
    (h : Ticking (observe es).ticks d s) (hstep : step s e = some s') :
    ∃ d', d ≤ d' ∧ Ticking (observe (es ++ [e])).ticks d' s' := by
  rw [observe_concat]
  cases step_stepped hstep with
  | timer =>
    refine ⟨d, Nat.le_refl d, ?_⟩
    obtain ⟨hs, ht⟩ := callback_sysTick s
    rw [Ticking, hs, ht]
    exact h
  | tick hs => exact ⟨d, Nat.le_refl d, h.tick hs⟩
  | tickStore hs hstore => exact h.tickStore hs hstore
  | @time _ e =>
    refine ⟨d, Nat.le_refl d, ?_⟩
    cases e <;> exact h
  | refreshStore => exact ⟨d, Nat.le_refl d, h⟩

/-- Whatever else happens, the handler counts the ticks. -/
theorem run_ticking {es : List Event} {s : State} (hrun : run boot es = some s) :
    ∃ d, Ticking (observe es).ticks d s := by
  induction es using List.reverseRecOn generalizing s with
  | nil =>
    cases hrun
    exact ⟨0, rfl, rfl⟩
  | append_singleton es e ih =>
    obtain ⟨m, hm, hstep⟩ := run_concat hrun
    obtain ⟨d, hd⟩ := ih hm
    obtain ⟨d', _, hd'⟩ := hd.next hstep
    exact ⟨d', hd'⟩

/-- A carry of which only the low half has been stored: the time is `2 ^ 32` ticks back. -/
theorem put_low_carry {value old : Time} (hvalue : value = old + 1)
    (hcarry : Half.low.of value = 0) (hpos : value ≠ 0) :
    (put .low value old).toNat + 2 ^ 32 = value.toNat := by
  have hold : old.toNat + 1 = value.toNat := by
    have hne : value.toNat ≠ 0 := fun h => hpos (BitVec.eq_of_toNat_eq h)
    subst hvalue
    bv_omega
  have hlow : value.toNat % 2 ^ 32 = 0 := by
    have hnat := congrArg BitVec.toNat hcarry
    simpa [Half.of, BitVec.extractLsb'_toNat] using hnat
  have hput : (put .low value old).toNat = old.toNat / 2 ^ 32 % 2 ^ 32 * 2 ^ 32 := by
    rw [put, Half.join, hcarry, BitVec.toNat_append]
    simp [Half.other, Half.of, BitVec.extractLsb'_toNat, Nat.shiftRight_eq_div_pow,
      Nat.shiftLeft_eq]
  have hlt := old.isLt
  omega

/-- At or past a carry, also in the middle of a later one. -/
theorem Ticking.passed {n d c : Nat} {s : State} (h : Ticking n d s) (hwrap : n < 2 ^ 64)
    (hcarry : c % 2 ^ 32 = 0) (hc : c ≤ d) : c ≤ s.timeSinceBoot.toNat := by
  have hcount : ∀ k, k ≤ n → (BitVec.ofNat 64 k).toNat = k := fun k hk => by
    rw [BitVec.toNat_ofNat, Nat.mod_eq_of_lt (by omega)]
  rw [Ticking] at h
  cases hs : s.sysTick with
  | none =>
    rw [hs] at h
    rw [h.2, hcount d (by omega)]
    exact hc
  | some a =>
    rw [hs] at h
    obtain ⟨hn, hold, hvalue, hholds⟩ := h
    have holdNat : a.old.toNat = d := by rw [hold, hcount d (by omega)]
    have hvalueNat : a.value.toNat = d + 1 := by rw [hvalue, hcount _ (by omega)]
    rw [Assignment.Holds] at hholds
    cases hfirst : a.first with
    | none =>
      rw [hfirst] at hholds
      rw [hholds, holdNat]
      exact hc
    | some q =>
      rw [hfirst] at hholds
      have hput := high_le_put q a.value a.old
      rw [holdNat, hvalueNat] at hput
      rw [hholds]
      omega

/-- The low half of the carry to the count `c` is stored, which leaves `back`. -/
structure HalfCarry (a : Assignment) (back : Time) (c : Nat) : Prop where
  value : a.value = BitVec.ofNat 64 c
  first : a.first = some .low
  small : c < 2 ^ 64
  carry : c % 2 ^ 32 = 0
  back : back.toNat + 2 ^ 32 = c

theorem Ticking.halfCarry {n d : Nat} {s : State} {a : Assignment} (h : Ticking n d s)
    (hs : s.sysTick = some a) (hfirst : a.first = some .low) (hcarry : Half.low.of a.value = 0)
    (hwrap : n < 2 ^ 64) : HalfCarry a s.timeSinceBoot (d + 1) := by
  rw [Ticking, hs] at h
  obtain ⟨hn, hold, hvalue, hholds⟩ := h
  have hcount : a.value.toNat = d + 1 := by
    rw [hvalue, BitVec.toNat_ofNat, Nat.mod_eq_of_lt (by omega)]
  have hone : a.value = a.old + 1 := by
    rw [hold, hvalue, BitVec.ofNat_add]
    rfl
  have hpos : a.value ≠ 0 := by
    intro hzero
    rw [hzero] at hcount
    cases hcount
  have hmod : (d + 1) % 2 ^ 32 = 0 := by
    have hnat := congrArg BitVec.toNat hcarry
    rw [← hcount]
    simpa [Half.of, BitVec.extractLsb'_toNat] using hnat
  have hback := put_low_carry hone hcarry hpos
  rw [Assignment.Holds, hfirst] at hholds
  refine ⟨hvalue, hfirst, by omega, hmod, ?_⟩
  rw [hholds, hback, hcount]

/-- Behind the check that has found half of the carry `a`, with no store to `last_refresh` since:
the handler is still where it was, or the count `c` of the carry is complete. -/
structure Behind (a : Assignment) (back : Time) (c n : Nat) (rest : List Event) (s : State) :
    Prop where
  lastRefresh : s.lastRefresh = back
  ticking : ∃ d, Ticking n d s ∧
    (c ≤ d ∨ s.sysTick = some a ∧ s.timeSinceBoot = back ∧ .tickStore .high ∉ rest)

section Behind

variable {a : Assignment} {back : Time} {c : Nat} {es rest : List Event} {s s' : State}

/-- A check does not take the time for an error again. -/
theorem Behind.callback {n : Nat} (h : Behind a back c n rest s) (ha : HalfCarry a back c)
    (hwrap : n < 2 ^ 64) : (halTimPeriodElapsedCallback s).lastRefresh = back := by
  have hback := ha.back
  have hnot : ¬ s.timeSinceBoot < s.lastRefresh := by
    rw [h.lastRefresh, BitVec.lt_def]
    obtain ⟨d, hticking, hpassed | ⟨_, htime, _⟩⟩ := h.ticking
    · have htime := hticking.passed hwrap ha.carry hpassed
      omega
    · rw [htime]
      omega
  simp only [halTimPeriodElapsedCallback, if_neg hnot]
  split
  · exact h.lastRefresh
  · exact h.lastRefresh

/-- What every event but a store to `last_refresh` leaves. -/
theorem Behind.next {e : Event} (h : Behind a back c (observe es).ticks rest s)
    (ha : HalfCarry a back c) (hstep : step s e = some s') (hwrap : (observe es).ticks < 2 ^ 64)
    (hhang : ∀ q, e ≠ .refreshStore q) :
    Behind a back c (observe (es ++ [e])).ticks (rest ++ [e]) s' := by
  obtain ⟨d, hticking, hd⟩ := h.ticking
  obtain ⟨d', hdd, hticking'⟩ := hticking.next hstep
  cases step_stepped hstep with
  | timer =>
    refine ⟨h.callback ha hwrap, d', hticking', ?_⟩
    obtain ⟨hs, ht⟩ := callback_sysTick s
    rw [hs, ht]
    rcases hd with hpassed | ⟨hsys, htime, hrest⟩
    · exact Or.inl (Nat.le_trans hpassed hdd)
    · exact Or.inr ⟨hsys, htime, by simp [hrest]⟩
  | tick hs =>
    refine ⟨h.lastRefresh, d', hticking', ?_⟩
    rcases hd with hpassed | ⟨hsys, _, _⟩
    · exact Or.inl (Nat.le_trans hpassed hdd)
    · rw [hs] at hsys
      cases hsys
  | @tickStore b q left hs hstore =>
    refine ⟨h.lastRefresh, ?_⟩
    rcases hd with hpassed | ⟨hsys, _, _⟩
    · exact ⟨d', hticking', Or.inl (Nat.le_trans hpassed hdd)⟩
    · -- the second half completes the carry
      obtain rfl : b = a := Option.some.inj (hs.symm.trans hsys)
      have hsmall := ha.small
      rw [Ticking, hs] at hticking
      obtain ⟨hn, _, hnext, hholds⟩ := hticking
      rcases hholds.store hstore with ⟨hnone, _, _⟩ | ⟨_, rfl, hput⟩
      · rw [ha.first] at hnone
        cases hnone
      · refine ⟨c, ⟨?_, hput.trans ha.value⟩, Or.inl (Nat.le_refl c)⟩
        have hsame := congrArg BitVec.toNat (hnext.symm.trans ha.value)
        rw [BitVec.toNat_ofNat, BitVec.toNat_ofNat, Nat.mod_eq_of_lt (by omega),
          Nat.mod_eq_of_lt hsmall] at hsame
        rw [observe_concat]
        exact hn.trans hsame
  | time hs =>
    refine ⟨h.lastRefresh, d', hticking', ?_⟩
    rcases hd with hpassed | ⟨hsys, _, _⟩
    · exact Or.inl (Nat.le_trans hpassed hdd)
    · rw [hs] at hsys
      cases hsys
  | refreshStore => exact absurd rfl (hhang _)

/-- A run that stores nothing to `last_refresh`. -/
theorem Behind.run (h : Behind a back c (observe es).ticks [] s) (ha : HalfCarry a back c)
    (hrun : SwWatchdog.run boot es = some s) (hhang : Hangs rest)
    (hwrap : (observe (es ++ rest)).ticks < 2 ^ 64)
    (hlater : SwWatchdog.run boot (es ++ rest) = some s') :
    Behind a back c (observe (es ++ rest)).ticks rest s' := by
  induction rest using List.reverseRecOn generalizing s' with
  | nil =>
    rw [List.append_nil] at hlater ⊢
    cases hrun.symm.trans hlater
    exact h
  | append_singleton rest e ih =>
    rw [← List.append_assoc] at hwrap hlater ⊢
    obtain ⟨m, hm, hstep⟩ := run_concat hlater
    have hwrap' := Nat.lt_of_le_of_lt (ticks_concat_le _ e) hwrap
    have hbehind := ih (fun q hq => hhang q (List.mem_append_left _ hq)) hwrap' hm
    apply hbehind.next ha hstep hwrap'
    rintro q rfl
    exact hhang q (List.mem_append_right _ List.mem_cons_self)

/-- With the carry complete, a check finds `2 ^ 32` ticks at least. -/
theorem Behind.resets {n : Nat} (h : Behind a back c n rest s) (ha : HalfCarry a back c)
    (hwrap : n < 2 ^ 64) (hdone : .tickStore .high ∈ rest) (hstep : step s .timer = some s') :
    s'.reset = true := by
  have hback := ha.back
  obtain ⟨d, hticking, hpassed | ⟨_, _, hrest⟩⟩ := h.ticking
  · have hnow := hticking.passed hwrap ha.carry hpassed
    have hlimit : (BitVec.ofNat 64 (timeoutSwWatchdogSeconds * 1000)).toNat = 3000 := rfl
    have hnot : ¬ s.timeSinceBoot < s.lastRefresh := by
      rw [h.lastRefresh, BitVec.lt_def]
      omega
    have hlong : BitVec.ofNat 64 (timeoutSwWatchdogSeconds * 1000) <
        s.timeSinceBoot - s.lastRefresh := by
      rw [h.lastRefresh, BitVec.lt_def, hlimit,
        BitVec.toNat_sub_of_le (by rw [BitVec.le_def]; omega)]
      omega
    cases step_stepped hstep
    simp only [halTimPeriodElapsedCallback, if_neg hnot, if_pos hlong]
  · exact absurd hdone hrest

end Behind

/-- **A torn carry resets the device.** If the interrupt finds the low half of a carry stored
and the high half not, and `last_refresh` is less than `2 ^ 32` ticks behind, just reloaded for
instance, then the check takes the time for an error and goes back to it. Once the carry is
complete the next check resets the device, if no reload comes before it and no earlier check
has. -/
theorem torn_carry_resets {es : List Event} {s : State} {a : Assignment}
    (hrun : run boot es = some s) (hreset : s.reset = false) (hs : s.sysTick = some a)
    (hfirst : a.first = some .low) (hcarry : Half.low.of a.value = 0)
    (hwrap : (observe es).ticks < 2 ^ 64)
    (hlast : a.value.toNat < s.lastRefresh.toNat + 2 ^ 32) :
    s.timeSinceBoot.toNat + 2 ^ 32 = a.value.toNat ∧
    s.timeSinceBoot < s.lastRefresh ∧
    run boot (es ++ [.timer]) = some { s with lastRefresh := s.timeSinceBoot } ∧
    ∀ rest s', Hangs rest → .tickStore .high ∈ rest →
      (observe (es ++ [.timer] ++ rest)).ticks < 2 ^ 64 →
      run boot (es ++ [.timer] ++ rest ++ [.timer]) = some s' → s'.reset = true := by
  obtain ⟨d, hticking⟩ := run_ticking hrun
  have ha := hticking.halfCarry hs hfirst hcarry hwrap
  have hback := ha.back
  have hvalue : a.value.toNat = d + 1 := by
    rw [ha.value, BitVec.toNat_ofNat, Nat.mod_eq_of_lt ha.small]
  have hahead : s.timeSinceBoot < s.lastRefresh := by
    rw [BitVec.lt_def]
    omega
  -- the first check takes the torn time for the time of the last reload
  have hcheck : step s .timer = some { s with lastRefresh := s.timeSinceBoot } := by
    simp [step, hreset, halTimPeriodElapsedCallback, hahead]
  have hrun1 := run_snoc hrun hcheck
  refine ⟨by omega, hahead, hrun1, ?_⟩
  intro rest s' hhang hdone hfew hlater
  obtain ⟨m, hm, hstep⟩ := run_concat hlater
  obtain ⟨d', _, hticking'⟩ := hticking.next hcheck
  have hbehind : Behind a s.timeSinceBoot (d + 1) (observe (es ++ [.timer])).ticks []
      { s with lastRefresh := s.timeSinceBoot } :=
    ⟨rfl, d', hticking', Or.inr ⟨hs, rfl, List.not_mem_nil⟩⟩
  exact (hbehind.run ha hrun1 hhang hfew hm).resets ha hfew hdone hstep

/-! ## Sample runs -/

/-- Ticks that nothing interrupts. -/
def fullTicks : Nat → List Event
  | 0 => []
  | n + 1 => fullTicks n ++ [.tick, .tickStore .low, .tickStore .high]

/-- A reload that nothing interrupts. -/
def reload (t : Time) : List Event :=
  (SystemTime.quietCall t).map .time ++ [.refreshStore .low, .refreshStore .high]

theorem fullTick_run (t l : Time) :
    run ⟨t, l, none, .time .idle, false⟩ [.tick, .tickStore .low, .tickStore .high] =
      some ⟨t + 1, l, none, .time .idle, false⟩ := by
  have hput := put_other_put .low (t + 1) t
  simpa [run, step, Assignment.store, Half.other] using hput

theorem fullTicks_run (n : Nat) (l : Time) :
    run ⟨0, l, none, .time .idle, false⟩ (fullTicks n) =
      some ⟨BitVec.ofNat 64 n, l, none, .time .idle, false⟩ := by
  induction n with
  | zero => rfl
  | succ n ih =>
    have hsucc : BitVec.ofNat 64 n + 1 = BitVec.ofNat 64 (n + 1) := (BitVec.ofNat_add n 1).symm
    rw [fullTicks, run_append, ih, Option.bind_some, fullTick_run, hsucc]

theorem fullTicks_observe (es : List Event) (n : Nat) :
    (observe (es ++ fullTicks n)).ticks = (observe es).ticks + n := by
  induction n with
  | zero => rw [fullTicks, List.append_nil, Nat.add_zero]
  | succ n ih =>
    have hsplit : es ++ fullTicks (n + 1) =
        es ++ fullTicks n ++ [.tick] ++ [.tickStore .low] ++ [.tickStore .high] := by
      simp [fullTicks]
    rw [hsplit, observe_concat, observe_concat, observe_concat, ← Nat.add_assoc, ← ih]
    rfl

theorem fullTicks_hangs (n : Nat) : Hangs (fullTicks n) := by
  intro h
  induction n with
  | zero => exact List.not_mem_nil
  | succ n ih => simp [fullTicks, ih]

/-- The watchdog interrupt comes in the middle of both assignments. -/
def interruptedReload : List Event :=
  [.tick, .tickStore .low, .tickStore .high,
    .time .call, .time (.read .low), .time (.read .high), .time (.read .high), .time (.read .low),
    .time (.ret 1), .refreshStore .high, .tick, .timer, .tickStore .low, .timer, .tickStore .high,
    .refreshStore .low, .timer]

theorem interruptedReload_not_reset : ∃ s, run boot interruptedReload = some s ∧
    s.lastRefresh = 1 ∧ s.reset = false := by
  have hrun : run boot interruptedReload = some ⟨2, 1, none, .time .idle, false⟩ := by decide
  refine ⟨_, hrun, rfl, reloaded_in_time_not_reset hrun (Or.inl (by decide)) ?_⟩
  have hprefixes : ∀ i, i < 17 → (observe (interruptedReload.take i)).ticks ≤
      (observe (interruptedReload.take i)).reloaded + 3000 := by decide
  intro before after hsplit
  have hlength := congrArg List.length hsplit
  have htotal : interruptedReload.length = 17 := rfl
  have hbefore : before = interruptedReload.take before.length := by
    rw [hsplit, List.take_left]
  rw [hbefore]
  apply hprefixes
  rw [htotal, List.length_append, List.length_cons] at hlength
  omega

/-- No reload after the boot. -/
theorem idle_resets :
    ∃ s, run boot ([] ++ fullTicks 3002 ++ [.timer]) = some s ∧ s.reset = true := by
  have hstep : step ⟨BitVec.ofNat 64 3002, 0, none, .time .idle, false⟩ .timer =
      some ⟨3002, 0, none, .time .idle, true⟩ := by decide
  have hticks : (observe ([] ++ fullTicks 3002)).ticks = 3002 := fullTicks_observe [] 3002
  have hempty : (observe []).ticks = 0 := rfl
  have hrun : run boot ([] ++ fullTicks 3002 ++ [.timer]) =
      some ⟨3002, 0, none, .time .idle, true⟩ := by
    rw [List.nil_append]
    exact run_snoc (fullTicks_run 3002 0) hstep
  refine ⟨_, hrun, hang_resets hrun (Or.inl ?_) (fullTicks_hangs 3002) ?_⟩
  · rw [observe_concat]
    show (observe ([] ++ fullTicks 3002)).ticks < _
    rw [hticks]
    decide
  · rw [hticks, hempty]
    decide

/-- A reload at the time `0xFFFFFFFF` and half of the next tick. -/
def carryRun (n : Nat) : List Event :=
  fullTicks n ++ (reload 0xFFFFFFFF ++ [.tick, .tickStore .low])

theorem carryRun_observe (n : Nat) : (observe (carryRun n)).ticks = n + 1 := by
  have hticks := fullTicks_observe [] n
  rw [List.nil_append] at hticks
  have hempty : (observe []).ticks = 0 := rfl
  have hsplit : carryRun n = fullTicks n ++ [.time .call] ++ [.time (.read .low)] ++
      [.time (.read .high)] ++ [.time (.read .low)] ++ [.time (.read .high)] ++
      [.time (.ret 0xFFFFFFFF)] ++ [.refreshStore .low] ++ [.refreshStore .high] ++ [.tick] ++
      [.tickStore .low] := by
    simp [carryRun, reload, SystemTime.quietCall]
  rw [hsplit]
  simp only [observe_concat]
  show (observe (fullTicks n)).ticks + 1 = n + 1
  rw [hticks, hempty, Nat.zero_add]

theorem carryRun_run {n : Nat} (hn : BitVec.ofNat 64 n = 0xFFFFFFFF) : run boot (carryRun n) =
    some ⟨0, 0xFFFFFFFF, some ⟨0xFFFFFFFF, 0x100000000, some .low⟩, .time .idle, false⟩ := by
  have hticks : run boot (fullTicks n) = some ⟨BitVec.ofNat 64 n, 0, none, .time .idle, false⟩ :=
    fullTicks_run n 0
  rw [carryRun, run_append, hticks, hn, Option.bind_some]
  decide

/-- Only the end of the carry comes between the two checks. -/
theorem carryRun_resets : ∃ n s',
    run boot (carryRun n ++ [.timer]) =
      some ⟨0, 0, some ⟨0xFFFFFFFF, 0x100000000, some .low⟩, .time .idle, false⟩ ∧
    run boot (carryRun n ++ [.timer] ++ [.tickStore .high] ++ [.timer]) = some s' ∧
    s'.reset = true := by
  have hn : BitVec.ofNat 64 0xFFFFFFFF = (0xFFFFFFFF : Time) := by decide
  have hticks : (observe (carryRun 0xFFFFFFFF)).ticks = 2 ^ 32 := carryRun_observe 0xFFFFFFFF
  obtain ⟨_, _, hcheck, hresets⟩ := torn_carry_resets (carryRun_run hn) rfl rfl rfl (by decide)
    (by rw [hticks]; decide) (by decide)
  have hstep1 : step ⟨0, 0, some ⟨0xFFFFFFFF, 0x100000000, some .low⟩, .time .idle, false⟩
      (.tickStore .high) = some ⟨0x100000000, 0, none, .time .idle, false⟩ := by decide
  have hstep2 : step ⟨0x100000000, 0, none, .time .idle, false⟩ .timer =
      some ⟨0x100000000, 0, none, .time .idle, true⟩ := by decide
  have hrun := run_snoc (run_snoc hcheck hstep1) hstep2
  refine ⟨0xFFFFFFFF, _, hcheck, hrun, hresets _ _ ?_ List.mem_cons_self ?_ hrun⟩
  · intro h hin
    cases List.mem_singleton.mp hin
  · rw [observe_concat, observe_concat]
    show (observe (carryRun 0xFFFFFFFF)).ticks < 2 ^ 64
    rw [hticks]
    decide

end VerifiedDice.SwWatchdog
