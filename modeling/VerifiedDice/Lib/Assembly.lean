import Mathlib.Logic.Function.Iterate

/-!
# Code addressed by index

For instructions of any kind, known by what they do to the data and by where they pass
control: blocks without branches, and loops with the test at their end, which are entered
at the test.
-/
namespace Assembly

/-- At an instruction of the code, or gone to `target`. -/
inductive Control (T : Type) where
  | inside (pc : Nat)
  | left (target : T)

structure State (D T : Type) where
  data : D
  control : Control T

structure Machine (I D T : Type) where
  effect : I → D → D
  next : I → D → Nat → Control T

variable {I D T : Type} (M : Machine I D T) (code : List I)

/-- One instruction. Nothing happens behind the end of the code or once control has left. -/
def step (s : State D T) : State D T :=
  match s.control with
  | .left _ => s
  | .inside pc =>
    match code[pc]? with
    | none => s
    | some i => ⟨M.effect i s.data, M.next i s.data pc⟩

def run (n : Nat) (s : State D T) : State D T := (step M code)^[n] s

/-- The effects of a block, in order. -/
def effects (block : List I) (d : D) : D := block.foldl (fun d i => M.effect i d) d

/-- Control passes to the next instruction, whatever the data. -/
def Straight (i : I) : Prop := ∀ d pc, M.next i d pc = .inside (pc + 1)

/-- The instructions of `block` stand in the code from index `i` on. -/
def Placed (i : Nat) (block : List I) : Prop := block <+: code.drop i

variable {M code}

theorem run_add (n k : Nat) (s : State D T) :
    run M code (n + k) s = run M code k (run M code n s) := by
  rw [run, Nat.add_comm, Function.iterate_add_apply, run, run]

theorem run_one (s : State D T) : run M code 1 s = step M code s := rfl

theorem step_inside {d : D} {pc : Nat} {i : I} (h : code[pc]? = some i) :
    step M code ⟨d, .inside pc⟩ = ⟨M.effect i d, M.next i d pc⟩ := by simp [step, h]

theorem step_left {s : State D T} {target : T} (h : s.control = .left target) :
    step M code s = s := by simp [step, h]

theorem run_left {s : State D T} {target : T} (h : s.control = .left target) (n : Nat) :
    run M code n s = s := Function.iterate_fixed (step_left h) n

/-- A run that is still inside the code has been inside it all along. -/
theorem inside_before {s : State D T} {n k pc : Nat} (h : (run M code n s).control = .inside pc)
    (hk : k ≤ n) : ∃ pc', (run M code k s).control = .inside pc' := by
  obtain ⟨j, rfl⟩ := Nat.exists_eq_add_of_le hk
  cases hc : (run M code k s).control with
  | inside pc' => exact ⟨pc', rfl⟩
  | left target =>
    rw [run_add, run_left hc, hc] at h
    cases h

theorem effects_cons (i : I) (block : List I) (d : D) :
    effects M (i :: block) d = effects M block (M.effect i d) := rfl

/-! ## Blocks -/

theorem Placed.head {i : Nat} {x : I} {block : List I} (h : Placed code i (x :: block)) :
    code[i]? = some x := by
  obtain ⟨rest, hrest⟩ := h
  have hget : (code.drop i)[0]? = some x := by rw [← hrest]; rfl
  simpa using hget

theorem Placed.left {i : Nat} {first second : List I} (h : Placed code i (first ++ second)) :
    Placed code i first := (List.prefix_append first second).trans h

theorem Placed.right {i : Nat} {first second : List I} (h : Placed code i (first ++ second)) :
    Placed code (i + first.length) second := by
  obtain ⟨rest, hrest⟩ := h
  refine ⟨rest, ?_⟩
  rw [← List.drop_drop, ← hrest, List.append_assoc, List.drop_left]

/-- A block without branches is run by its effects. -/
theorem run_block {block : List I} (hs : ∀ x ∈ block, Straight M x) {i : Nat}
    (h : Placed code i block) (d : D) :
    run M code block.length ⟨d, .inside i⟩ =
      ⟨effects M block d, .inside (i + block.length)⟩ := by
  induction block generalizing i d with
  | nil => rfl
  | cons x block ih =>
    have hstep : step M code ⟨d, .inside i⟩ = ⟨M.effect x d, .inside (i + 1)⟩ := by
      rw [step_inside h.head, hs x List.mem_cons_self]
    have hright : Placed code (i + [x].length) block := Placed.right h
    have htail : Placed code (i + 1) block := hright
    rw [List.length_cons, Nat.add_comm, run_add, run_one, hstep,
      ih (fun y hy => hs y (List.mem_cons_of_mem x hy)) htail, effects_cons, Nat.add_assoc,
      Nat.add_comm 1]

/-! ## Loops -/

/-- `body`, then `test`, then a branch that goes back to the start while `again` holds. -/
structure TestLoop (M : Machine I D T) (code : List I) (i : Nat) (body test : List I) (branch : I)
    (again : D → Bool) : Prop where
  bodyStraight : ∀ x ∈ body, Straight M x
  testStraight : ∀ x ∈ test, Straight M x
  keeps : ∀ d, M.effect branch d = d
  next : ∀ d pc, M.next branch d pc = if again d then .inside i else .inside (pc + 1)
  placed : Placed code i (body ++ (test ++ [branch]))

/-- From one test to the next. -/
def turn (M : Machine I D T) (body test : List I) (d : D) : D :=
  effects M body (effects M test d)

section

variable {i : Nat} {body test : List I} {branch : I} {again : D → Bool}

theorem TestLoop.tests (h : TestLoop M code i body test branch again) (d : D) :
    run M code (test.length + 1) ⟨d, .inside (i + body.length)⟩ =
      ⟨effects M test d, if again (effects M test d) then .inside i
        else .inside (i + body.length + test.length + 1)⟩ := by
  have htest := h.placed.right
  rw [run_add, run_block h.testStraight htest.left, run_one, step_inside htest.right.head,
    h.keeps, h.next]

theorem TestLoop.rounds (h : TestLoop M code i body test branch again) {d : D} {n : Nat}
    (hmore : ∀ k, k < n → again (effects M test ((turn M body test)^[k] d)) = true) :
    run M code ((test.length + 1 + body.length) * n) ⟨d, .inside (i + body.length)⟩ =
      ⟨(turn M body test)^[n] d, .inside (i + body.length)⟩ := by
  induction n with
  | zero => rfl
  | succ n ih =>
    rw [Nat.mul_succ, run_add, ih fun k hk => hmore k (Nat.lt_succ_of_lt hk), run_add, h.tests,
      hmore n (Nat.lt_succ_self n), if_pos rfl, run_block h.bodyStraight h.placed.left,
      Function.iterate_succ_apply']
    rfl

/-- `n` rounds that go back and a test that does not. -/
theorem TestLoop.ends (h : TestLoop M code i body test branch again) {d : D} {n : Nat}
    (hmore : ∀ k, k < n → again (effects M test ((turn M body test)^[k] d)) = true)
    (hlast : again (effects M test ((turn M body test)^[n] d)) = false) :
    run M code ((test.length + 1 + body.length) * n + (test.length + 1))
        ⟨d, .inside (i + body.length)⟩ =
      ⟨effects M test ((turn M body test)^[n] d),
        .inside (i + body.length + test.length + 1)⟩ := by
  rw [run_add, h.rounds hmore, h.tests, hlast]
  rfl

end

end Assembly
