import Mathlib.Tactic.Common

/-!
# Computations that may be cut off

A `Cut` computation ends with a result or stops for good, by a power cut or in an
endless loop; the state outlives the stop. `Sat` is a postcondition over both ends,
`Keeps` a relation that holds between the states before and after whatever the end,
`Both` relates the completed runs of two computations, `Same` those of one, `SameEnds` also
its stops.
-/

def Cut (σ α : Type) : Type := σ → Option α × σ

namespace Cut

variable {σ α β : Type}

instance : Monad (Cut σ) where
  pure a := fun s => (some a, s)
  bind x f := fun s =>
    match x s with
    | (some a, s') => f a s'
    | (none, s') => (none, s')

/-- Stop for good. -/
def stop : Cut σ α := fun s => (none, s)

/-- The current state. -/
def state : Cut σ σ := fun s => (some s, s)

def update (f : σ → σ) : Cut σ Unit := fun s => (some (), f s)

theorem bind_some {x : Cut σ α} {f : α → Cut σ β} {s s' : σ} {a : α} (h : x s = (some a, s')) :
    (x >>= f) s = f a s' := by
  show (match x s with | (some a, s') => f a s' | (none, s') => (none, s')) = _
  rw [h]

theorem bind_none {x : Cut σ α} {f : α → Cut σ β} {s s' : σ} (h : x s = (none, s')) :
    (x >>= f) s = (none, s') := by
  show (match x s with | (some a, s') => f a s' | (none, s') => (none, s')) = _
  rw [h]

/-- A completed sequence: both parts are completed. -/
theorem bind_eq_some {x : Cut σ α} {f : α → Cut σ β} {s s' : σ} {b : β}
    (h : (x >>= f) s = (some b, s')) :
    ∃ a s1, x s = (some a, s1) ∧ f a s1 = (some b, s') := by
  rcases hx : x s with ⟨_ | a, s1⟩
  · rw [bind_none hx] at h
    cases h
  · rw [bind_some hx] at h
    exact ⟨a, s1, rfl, h⟩

theorem bind_assoc {γ : Type} (x : Cut σ α) (f : α → Cut σ β) (g : β → Cut σ γ) :
    x >>= f >>= g = x >>= fun a => f a >>= g := by
  funext s
  rcases hx : x s with ⟨_ | a, s'⟩
  · rw [bind_none (bind_none hx), bind_none hx]
  · rw [bind_some hx]
    cases hf : f a s' with
    | mk r s2 =>
      cases r with
      | none =>
        have hxf : (x >>= f) s = (none, s2) := (bind_some hx).trans hf
        rw [bind_none hxf, bind_none hf]
      | some b =>
        have hxf : (x >>= f) s = (some b, s2) := (bind_some hx).trans hf
        rw [bind_some hxf, bind_some hf]

theorem state_bind (g : σ → Cut σ β) (s : σ) : (state >>= g) s = g s s := rfl

theorem pure_bind (a : α) (f : α → Cut σ β) : (pure a : Cut σ α) >>= f = f a := rfl

/-! ## One run -/

/-- `Q` holds of the end of `x` from `s`, with a result or without one. -/
def Sat (x : Cut σ α) (s : σ) (Q : Option α → σ → Prop) : Prop := Q (x s).1 (x s).2

section Sat

variable {x : Cut σ α} {f : α → Cut σ β} {s : σ} {P Q : Option α → σ → Prop}
  {R : Option β → σ → Prop}

theorem Sat.of_eq {r : Option α} {s' : σ} (h : x s = (r, s')) (hQ : Q r s') : Sat x s Q := by
  rw [Sat, h]
  exact hQ

theorem Sat.elim (h : Sat x s Q) {r : Option α} {s' : σ} (he : x s = (r, s')) : Q r s' := by
  rw [Sat, he] at h
  exact h

theorem Sat.mono (h : Sat x s P) (hPQ : ∀ r s', P r s' → Q r s') : Sat x s Q := hPQ _ _ h

theorem Sat.and (hP : Sat x s P) (hQ : Sat x s Q) : Sat x s fun r s' => P r s' ∧ Q r s' := ⟨hP, hQ⟩

theorem Sat.pure {a : α} (h : Q (some a) s) : Sat (pure a : Cut σ α) s Q := h

theorem Sat.stop (h : Q none s) : Sat (stop : Cut σ α) s Q := h

theorem Sat.bind (hx : Sat x s P) (hf : ∀ a s', P (some a) s' → Sat (f a) s' R)
    (hcut : ∀ s', P none s' → R none s') : Sat (x >>= f) s R := by
  rcases he : x s with ⟨_ | a, s'⟩
  · exact Sat.of_eq (bind_none he) (hcut s' (hx.elim he))
  · have h := hf a s' (hx.elim he)
    rw [Sat, bind_some he]
    exact h

/-- About results only: a run that stops has none. -/
theorem Sat.bind_result {T : β → σ → Prop} (hx : Sat x s P)
    (hf : ∀ a s', P (some a) s' → Sat (f a) s' fun r s' => ∀ b, r = some b → T b s') :
    Sat (x >>= f) s fun r s' => ∀ b, r = some b → T b s' := by
  apply hx.bind hf
  intro _ _ _ hb
  cases hb

/-- The first part is known to be completed. -/
theorem Sat.bind_some {a : α} {s' : σ} (hx : x s = (some a, s')) (hf : Sat (f a) s' R) :
    Sat (x >>= f) s R := by
  rw [Sat, Cut.bind_some hx]
  exact hf

theorem Sat.state_bind {g : σ → Cut σ β} (h : Sat (g s) s R) : Sat (state >>= g) s R := h

theorem Sat.update_bind {g : σ → σ} {f : Unit → Cut σ β} (h : Sat (f ()) (g s) R) :
    Sat (Cut.update g >>= f) s R := h

theorem Sat.ite {c : Prop} [Decidable c] {y : Cut σ α} (hx : c → Sat x s Q) (hy : ¬ c → Sat y s Q) :
    Sat (if c then x else y) s Q := by
  by_cases hc : c
  · rw [if_pos hc]
    exact hx hc
  · rw [if_neg hc]
    exact hy hc

end Sat

/-! ## Frames -/

/-- A relation between the states before and after that composes. -/
structure Frame (σ : Type) where
  rel : σ → σ → Prop
  refl : ∀ s, rel s s
  trans : ∀ {s1 s2 s3}, rel s1 s2 → rel s2 s3 → rel s1 s3

/-- `F` relates the state before `x` to the state after it, however `x` ends. -/
def Keeps (F : Frame σ) (x : Cut σ α) : Prop := ∀ s, F.rel s (x s).2

section Keeps

variable {F : Frame σ} {x : Cut σ α} {f : α → Cut σ β}

theorem Keeps.sat (h : Keeps F x) (s : σ) : Sat x s fun _ s' => F.rel s s' := h s

theorem Keeps.mono {G : Frame σ} (h : Keeps F x) (hG : ∀ s s', F.rel s s' → G.rel s s') :
    Keeps G x := fun s => hG _ _ (h s)

theorem Keeps.pure (a : α) : Keeps F (pure a : Cut σ α) := F.refl

theorem Keeps.stop : Keeps F (stop : Cut σ α) := F.refl

theorem Keeps.bind (hx : Keeps F x) (hf : ∀ a, Keeps F (f a)) : Keeps F (x >>= f) := by
  intro s
  have h : Sat (x >>= f) s fun _ s' => F.rel s s' :=
    Sat.bind (hx.sat s) (fun a s1 h1 => ((hf a).sat s1).mono fun _ _ h2 => F.trans h1 h2)
      fun _ h1 => h1
  exact h

theorem Keeps.state_bind {g : σ → Cut σ β} (hg : ∀ s, Keeps F (g s)) : Keeps F (state >>= g) :=
  fun s => hg s s

theorem Keeps.ite {c : Prop} [Decidable c] {y : Cut σ α} (hx : Keeps F x) (hy : Keeps F y) :
    Keeps F (if c then x else y) := by
  by_cases hc : c
  · rw [if_pos hc]
    exact hx
  · rw [if_neg hc]
    exact hy

end Keeps

/-! ## Two runs -/

/-- Completed runs of `x` from `s` and of `y` from `t` end related by `Q`. -/
def Both (x : Cut σ α) (s : σ) (y : Cut σ β) (t : σ) (Q : α → σ → β → σ → Prop) : Prop :=
  ∀ a s' b t', x s = (some a, s') → y t = (some b, t') → Q a s' b t'

section Both

variable {γ δ : Type} {x : Cut σ α} {y : Cut σ β} {f : α → Cut σ γ} {g : β → Cut σ δ} {s t : σ}
  {P Q : α → σ → β → σ → Prop} {R : γ → σ → δ → σ → Prop}

theorem Both.bind (hxy : Both x s y t P)
    (hfg : ∀ a s' b t', P a s' b t' → Both (f a) s' (g b) t' R) :
    Both (x >>= f) s (y >>= g) t R := by
  intro c s' d t' hx hy
  obtain ⟨a, s1, hx1, hx2⟩ := bind_eq_some hx
  obtain ⟨b, t1, hy1, hy2⟩ := bind_eq_some hy
  exact hfg a s1 b t1 (hxy a s1 b t1 hx1 hy1) c s' d t' hx2 hy2

theorem Both.mono (h : Both x s y t P) (hPQ : ∀ a s' b t', P a s' b t' → Q a s' b t') :
    Both x s y t Q := fun a s' b t' hx hy => hPQ _ _ _ _ (h a s' b t' hx hy)

theorem Both.pure {a : α} {b : β} (h : Q a s b t) :
    Both (pure a : Cut σ α) s (pure b : Cut σ β) t Q := by
  intro a' s' b' t' hx hy
  cases hx
  cases hy
  exact h

theorem Both.state_bind {f : σ → Cut σ γ} {g : σ → Cut σ δ} (h : Both (f s) s (g t) t R) :
    Both (state >>= f) s (state >>= g) t R := h

theorem Both.update_bind {u v : σ → σ} {f : Unit → Cut σ γ} {g : Unit → Cut σ δ}
    (h : Both (f ()) (u s) (g ()) (v t) R) :
    Both (Cut.update u >>= f) s (Cut.update v >>= g) t R := h

/-- Both take the same branch. -/
theorem Both.ite {c e : Prop} [Decidable c] [Decidable e] {x' : Cut σ α} {y' : Cut σ β} (h : e ↔ c)
    (hx : c → Both x s y t Q) (hy : ¬ c → Both x' s y' t Q) :
    Both (if c then x else x') s (if e then y else y') t Q := by
  by_cases hc : c
  · rw [if_pos hc, if_pos (h.mpr hc)]
    exact hx hc
  · rw [if_neg hc, if_neg fun he => hc (h.mp he)]
    exact hy hc

/-- The first parts are known to be completed. -/
theorem Both.bind_some {a : α} {b : β} {s' t' : σ} (hx : x s = (some a, s'))
    (hy : y t = (some b, t')) (hfg : Both (f a) s' (g b) t' R) :
    Both (x >>= f) s (y >>= g) t R := by
  intro c s2 e t2 h1 h2
  rw [Cut.bind_some hx] at h1
  rw [Cut.bind_some hy] at h2
  exact hfg c s2 e t2 h1 h2

theorem Both.update {u v : σ → σ} {Q : Unit → σ → Unit → σ → Prop} (h : Q () (u s) () (v t)) :
    Both (update u) s (update v) t Q := by
  intro a s' b t' hx hy
  cases hx
  cases hy
  exact h

/-- What each of the two runs ends with. -/
theorem Both.ofSat {P : Option α → σ → Prop} {Q : Option β → σ → Prop} (hx : Sat x s P)
    (hy : Sat y t Q) : Both x s y t fun a s' b t' => P (some a) s' ∧ Q (some b) t' :=
  fun _ _ _ _ h1 h2 => ⟨hx.elim h1, hy.elim h2⟩

/-- One-run postconditions of the two sides may be added. -/
theorem Both.sat (h : Both x s y t P) {P1 : Option α → σ → Prop} {P2 : Option β → σ → Prop}
    (h1 : Sat x s P1) (h2 : Sat y t P2) :
    Both x s y t fun a s' b t' => P a s' b t' ∧ P1 (some a) s' ∧ P2 (some b) t' :=
  fun a s' b t' hx hy => ⟨h a s' b t' hx hy, h1.elim hx, h2.elim hy⟩

end Both

/-- From states related by `R` both runs of `x` return the same and end in related states. -/
def Same (R : σ → σ → Prop) (x : Cut σ α) : Prop :=
  ∀ s t, R s t → Both x s x t fun a s' b t' => b = a ∧ R s' t'

section Same

variable {R : σ → σ → Prop} {x : Cut σ α} {f : α → Cut σ β}

theorem Same.pure (a : α) : Same R (pure a : Cut σ α) := fun _ _ h => Both.pure ⟨rfl, h⟩

/-- A run that stops leaves nothing to compare. -/
theorem Same.stop : Same R (stop : Cut σ α) := fun _ _ _ _ _ _ _ h _ => nomatch h

theorem Same.bind (hx : Same R x) (hf : ∀ a, Same R (f a)) : Same R (x >>= f) := by
  intro s t h
  refine (hx s t h).bind fun a s' b t' hab => ?_
  obtain ⟨rfl, h'⟩ := hab
  exact hf b s' t' h'

theorem Same.ite {c : Prop} [Decidable c] {y : Cut σ α} (hx : Same R x) (hy : Same R y) :
    Same R (if c then x else y) := by
  by_cases hc : c
  · rw [if_pos hc]
    exact hx
  · rw [if_neg hc]
    exact hy

/-- The relation may take in what each of the two runs keeps. -/
theorem Same.keeps {F : Frame σ} {T : σ → σ → Prop} (hx : Same R x) (hF : Keeps F x)
    (hT : ∀ {s t s' t'}, T s t → F.rel s s' → F.rel t t' → T s' t') :
    Same (fun s t => R s t ∧ T s t) x := fun s t h =>
  ((hx s t h.1).sat (hF.sat s) (hF.sat t)).mono fun _ _ _ _ hab =>
    ⟨hab.1.1, hab.1.2, hT h.2 hab.2.1 hab.2.2⟩

end Same

/-! ## Ends of two runs

Some stops are ends that count, others, where `E` holds, only cut a run off. -/

/-- `x` stops only where `E` holds. -/
def StopsAt (E : σ → Prop) (x : Cut σ α) : Prop := ∀ s, Sat x s fun r s' => r = none → E s'

/-- Ends of `x` from related states that are not cut off by `E` have the same result, or are stops
both, in related states. -/
def SameEnds (E : σ → Prop) (R : σ → σ → Prop) (x : Cut σ α) : Prop :=
  ∀ s t, R s t → ∀ r s' r' t', x s = (r, s') → x t = (r', t') →
    (r = none → ¬ E s') → (r' = none → ¬ E t') → r' = r ∧ R s' t'

section Ends

variable {E : σ → Prop} {R : σ → σ → Prop} {x : Cut σ α} {f : α → Cut σ β}

theorem StopsAt.pure (a : α) : StopsAt E (pure a : Cut σ α) := fun _ h => nomatch h

theorem StopsAt.bind (hx : StopsAt E x) (hf : ∀ a, StopsAt E (f a)) : StopsAt E (x >>= f) := by
  intro s
  apply (hx s).bind
  · exact fun a s' _ => hf a s'
  · exact fun s' h _ => h rfl

theorem StopsAt.state_bind {g : σ → Cut σ β} (hg : ∀ s, StopsAt E (g s)) :
    StopsAt E (state >>= g) := fun s => hg s s

theorem StopsAt.ite {c : Prop} [Decidable c] {y : Cut σ α} (hx : StopsAt E x)
    (hy : StopsAt E y) : StopsAt E (if c then x else y) := by
  by_cases hc : c
  · rw [if_pos hc]
    exact hx
  · rw [if_neg hc]
    exact hy

/-- All ends of `x` that count have a result. -/
theorem SameEnds.of_same (hx : Same R x) (hE : StopsAt E x) : SameEnds E R x := by
  intro s t h r s' r' t' hs ht hr hr'
  cases r with
  | none => exact absurd ((hE s).elim hs rfl) (hr rfl)
  | some a =>
    cases r' with
    | none => exact absurd ((hE t).elim ht rfl) (hr' rfl)
    | some b =>
      obtain ⟨rfl, hR⟩ := hx s t h a s' b t' hs ht
      exact ⟨rfl, hR⟩

theorem SameEnds.stop : SameEnds E R (stop : Cut σ α) := by
  intro s t h r s' r' t' hs ht _ _
  cases hs
  cases ht
  exact ⟨rfl, h⟩

theorem SameEnds.bind (hx : SameEnds E R x) (hf : ∀ a, SameEnds E R (f a)) :
    SameEnds E R (x >>= f) := by
  intro s t h r s' r' t' hs ht hr hr'
  rcases hxs : x s with ⟨_ | a, s1⟩ <;> rcases hxt : x t with ⟨_ | b, t1⟩
  · rw [bind_none hxs] at hs
    rw [bind_none hxt] at ht
    cases hs
    cases ht
    exact ⟨rfl, (hx s t h none _ none _ hxs hxt (fun _ => hr rfl)
      fun _ => hr' rfl).2⟩
  · rw [bind_none hxs] at hs
    cases hs
    have hab := (hx s t h none _ (some b) t1 hxs hxt (fun _ => hr rfl) nofun).1
    exact absurd hab (Option.some_ne_none b)
  · rw [bind_none hxt] at ht
    cases ht
    have hab := (hx s t h (some a) s1 none _ hxs hxt nofun fun _ => hr' rfl).1
    exact absurd hab.symm (Option.some_ne_none a)
  · obtain ⟨hab, h1⟩ := hx s t h (some a) s1 (some b) t1 hxs hxt nofun nofun
    cases hab
    rw [bind_some hxs] at hs
    rw [bind_some hxt] at ht
    exact hf _ s1 t1 h1 r s' r' t' hs ht hr hr'

theorem SameEnds.ite {c : Prop} [Decidable c] {y : Cut σ α} (hx : SameEnds E R x)
    (hy : SameEnds E R y) : SameEnds E R (if c then x else y) := by
  by_cases hc : c
  · rw [if_pos hc]
    exact hx
  · rw [if_neg hc]
    exact hy

end Ends

end Cut
