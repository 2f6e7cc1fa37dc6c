import Mathlib.Tactic.Common

/-!
# Programs that only read

A `ReadTree` asks for the values at addresses and branches on the answers; on the
way it may leave notes. One tree gives the result, the addresses read and the
notes left, so a bound on the reads is a statement about the very program whose
result is specified. `run_congr` is the point of the library: a run depends on
nothing but the addresses it reads.
-/

inductive ReadTree (A V E α : Type) where
  | done (result : α)
  | ask (address : A) (next : V → ReadTree A V E α)
  | note (event : E) (next : ReadTree A V E α)

namespace ReadTree

variable {A V E α β : Type}

def bind : ReadTree A V E α → (α → ReadTree A V E β) → ReadTree A V E β
  | done a, f => f a
  | ask x next, f => ask x fun v => (next v).bind f
  | note e next, f => note e (next.bind f)

instance : Monad (ReadTree A V E) where
  pure := done
  bind := bind

/-- The value at one address. -/
def read (x : A) : ReadTree A V E V := ask x done

/-- Leave a note. -/
def tell (e : E) : ReadTree A V E Unit := note e (done ())

/-- The values at a list of addresses, in its order. -/
def readAll : List A → ReadTree A V E (List V)
  | [] => done []
  | x :: xs => ask x fun v => (readAll xs).bind fun vs => done (v :: vs)

/-- The result over given contents. -/
def run (m : A → V) : ReadTree A V E α → α
  | done a => a
  | ask x next => run m (next (m x))
  | note _ next => run m next

/-- The addresses read, in order. -/
def reads (m : A → V) : ReadTree A V E α → List A
  | done _ => []
  | ask x next => x :: reads m (next (m x))
  | note _ next => reads m next

/-- The notes left, in order. -/
def notes (m : A → V) : ReadTree A V E α → List E
  | done _ => []
  | ask x next => notes m (next (m x))
  | note e next => e :: notes m next

variable (m : A → V)

@[simp] theorem run_pure (a : α) : (pure a : ReadTree A V E α).run m = a := rfl
@[simp] theorem reads_pure (a : α) : (pure a : ReadTree A V E α).reads m = [] := rfl
@[simp] theorem notes_pure (a : α) : (pure a : ReadTree A V E α).notes m = [] := rfl

@[simp] theorem run_read (x : A) : (read x : ReadTree A V E V).run m = m x := rfl
@[simp] theorem reads_read (x : A) : (read x : ReadTree A V E V).reads m = [x] := rfl
@[simp] theorem notes_read (x : A) : (read x : ReadTree A V E V).notes m = [] := rfl

@[simp] theorem run_tell (e : E) : (tell e : ReadTree A V E Unit).run m = () := rfl
@[simp] theorem reads_tell (e : E) : (tell e : ReadTree A V E Unit).reads m = [] := rfl
@[simp] theorem notes_tell (e : E) : (tell e : ReadTree A V E Unit).notes m = [e] := rfl

@[simp] theorem run_bind (t : ReadTree A V E α) (f : α → ReadTree A V E β) :
    (t >>= f).run m = (f (t.run m)).run m := by
  change (t.bind f).run m = _
  induction t with
  | done a => rfl
  | ask x next ih => exact ih (m x)
  | note e next ih => exact ih

@[simp] theorem reads_bind (t : ReadTree A V E α) (f : α → ReadTree A V E β) :
    (t >>= f).reads m = t.reads m ++ (f (t.run m)).reads m := by
  change (t.bind f).reads m = _
  induction t with
  | done a => rfl
  | ask x next ih => exact congrArg (x :: ·) (ih (m x))
  | note e next ih => exact ih

@[simp] theorem notes_bind (t : ReadTree A V E α) (f : α → ReadTree A V E β) :
    (t >>= f).notes m = t.notes m ++ (f (t.run m)).notes m := by
  change (t.bind f).notes m = _
  induction t with
  | done a => rfl
  | ask x next ih => exact ih (m x)
  | note e next ih => exact congrArg (e :: ·) ih

@[simp] theorem run_ite (c : Prop) [Decidable c] (t u : ReadTree A V E α) :
    (if c then t else u).run m = if c then t.run m else u.run m := apply_ite _ _ _ _

@[simp] theorem reads_ite (c : Prop) [Decidable c] (t u : ReadTree A V E α) :
    (if c then t else u).reads m = if c then t.reads m else u.reads m := apply_ite _ _ _ _

@[simp] theorem notes_ite (c : Prop) [Decidable c] (t u : ReadTree A V E α) :
    (if c then t else u).notes m = if c then t.notes m else u.notes m := apply_ite _ _ _ _

theorem forall_reads_bind (t : ReadTree A V E α) (f : α → ReadTree A V E β) (P : A → Prop) :
    (∀ x ∈ (t >>= f).reads m, P x) ↔
      (∀ x ∈ t.reads m, P x) ∧ ∀ x ∈ (f (t.run m)).reads m, P x := by
  rw [reads_bind, List.forall_mem_append]

theorem forall_notes_bind (t : ReadTree A V E α) (f : α → ReadTree A V E β) (P : E → Prop) :
    (∀ x ∈ (t >>= f).notes m, P x) ↔
      (∀ x ∈ t.notes m, P x) ∧ ∀ x ∈ (f (t.run m)).notes m, P x := by
  rw [notes_bind, List.forall_mem_append]

/-! ## Guards

A program that reads, leaves with `e` when a test on the answer fails, and goes on
otherwise. -/

section Guard

variable (t : ReadTree A V E α) (c : α → Prop) [DecidablePred c] (e : β)
  (next : α → ReadTree A V E β)

theorem run_guard {ok : β} (he : e ≠ ok) :
    (t >>= fun a => if c a then pure e else next a).run m = ok ↔
      ¬ c (t.run m) ∧ (next (t.run m)).run m = ok := by
  rw [run_bind, run_ite, run_pure]
  by_cases hc : c (t.run m)
  · simp [hc, he]
  · simp [hc]

theorem forall_reads_guard (P : A → Prop) :
    (∀ x ∈ (t >>= fun a => if c a then pure e else next a).reads m, P x) ↔
      (∀ x ∈ t.reads m, P x) ∧ (¬ c (t.run m) → ∀ x ∈ (next (t.run m)).reads m, P x) := by
  rw [reads_bind, reads_ite, reads_pure, List.forall_mem_append]
  by_cases hc : c (t.run m)
  · simp [hc]
  · simp [hc]

theorem forall_notes_guard (P : E → Prop) :
    (∀ x ∈ (t >>= fun a => if c a then pure e else next a).notes m, P x) ↔
      (∀ x ∈ t.notes m, P x) ∧ (¬ c (t.run m) → ∀ x ∈ (next (t.run m)).notes m, P x) := by
  rw [notes_bind, notes_ite, notes_pure, List.forall_mem_append]
  by_cases hc : c (t.run m)
  · simp [hc]
  · simp [hc]

end Guard

@[simp] theorem run_readAll (xs : List A) :
    (readAll xs : ReadTree A V E (List V)).run m = xs.map m := by
  induction xs with
  | nil => rfl
  | cons x xs ih =>
    change (readAll xs >>= fun vs => pure (m x :: vs)).run m = _
    rw [run_bind, ih]
    rfl

@[simp] theorem reads_readAll (xs : List A) :
    (readAll xs : ReadTree A V E (List V)).reads m = xs := by
  induction xs with
  | nil => rfl
  | cons x xs ih =>
    change x :: (readAll xs >>= fun vs => pure (m x :: vs)).reads m = _
    rw [reads_bind, ih, reads_pure, List.append_nil]

@[simp] theorem notes_readAll (xs : List A) :
    (readAll xs : ReadTree A V E (List V)).notes m = [] := by
  induction xs with
  | nil => rfl
  | cons x xs ih =>
    change (readAll xs >>= fun vs => pure (m x :: vs)).notes m = _
    rw [notes_bind, ih]
    rfl

/-- Contents that agree where the program reads give the same run. -/
theorem run_congr {m m' : A → V} (t : ReadTree A V E α) (h : ∀ x ∈ t.reads m, m' x = m x) :
    t.run m' = t.run m := by
  induction t with
  | done a => rfl
  | ask x next ih =>
    have hx : m' x = m x := h x List.mem_cons_self
    change (next (m' x)).run m' = (next (m x)).run m
    rw [hx]
    exact ih (m x) fun y hy => h y (List.mem_cons_of_mem x hy)
  | note e next ih => exact ih h

end ReadTree
