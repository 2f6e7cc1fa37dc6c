import VerifiedDice.Lib.Cut

/-!
# Runs in lockstep

`Alike` is two runs that end the same way, by a cut or with the same result, in related
states. `Lockstep` is one computation that is alike from all related states: what the relation
ignores has no influence on what it does, on its results or on where it stops.
-/
namespace Cut

variable {σ α β : Type}

/-- `x` from `s` and `y` from `t` end the same way. -/
structure Alike (x : Cut σ α) (s : σ) (y : Cut σ α) (t : σ) (Q : Option α → σ → σ → Prop) :
    Prop where
  result : (y t).1 = (x s).1
  states : Q (x s).1 (x s).2 (y t).2

section Alike

variable {x y : Cut σ α} {f g : α → Cut σ β} {s t : σ} {P Q : Option α → σ → σ → Prop}
  {R : Option β → σ → σ → Prop}

theorem Alike.of_eq {r : Option α} {s' t' : σ} (hx : x s = (r, s')) (hy : y t = (r, t'))
    (hQ : Q r s' t') : Alike x s y t Q := by
  constructor
  · rw [hx, hy]
  · rw [hx, hy]
    exact hQ

theorem Alike.mono (h : Alike x s y t P) (hPQ : ∀ r s' t', P r s' t' → Q r s' t') :
    Alike x s y t Q := ⟨h.result, hPQ _ _ _ h.states⟩

/-- What is known of the first of the two runs. -/
theorem Alike.sat {P1 : Option α → σ → Prop} (h : Alike x s y t P) (h1 : Sat x s P1) :
    Alike x s y t fun r s' t' => P r s' t' ∧ P1 r s' := ⟨h.result, h.states, h1⟩

theorem Alike.bind (hxy : Alike x s y t P)
    (hfg : ∀ a s' t', P (some a) s' t' → Alike (f a) s' (g a) t' R)
    (hcut : ∀ s' t', P none s' t' → R none s' t') : Alike (x >>= f) s (y >>= g) t R := by
  have hresult := hxy.result
  have hstates := hxy.states
  rcases hx : x s with ⟨_ | a, s'⟩
  · rw [hx] at hresult hstates
    have hy : y t = (none, (y t).2) := Prod.ext hresult rfl
    exact Alike.of_eq (bind_none hx) (bind_none hy) (hcut _ _ hstates)
  · rw [hx] at hresult hstates
    have hy : y t = (some a, (y t).2) := Prod.ext hresult rfl
    have hrest := hfg a s' (y t).2 hstates
    constructor
    · rw [bind_some hx, bind_some hy]
      exact hrest.result
    · rw [bind_some hx, bind_some hy]
      exact hrest.states

theorem Alike.pure {a : α} (h : Q (some a) s t) :
    Alike (pure a : Cut σ α) s (pure a : Cut σ α) t Q := ⟨rfl, h⟩

theorem Alike.state_bind {f g : σ → Cut σ β} (h : Alike (f s) s (g t) t R) :
    Alike (state >>= f) s (state >>= g) t R := ⟨h.result, h.states⟩

end Alike

/-- From states related by `R` the runs of `x` end the same way, in states related by `R`. -/
def Lockstep (R : σ → σ → Prop) (x : Cut σ α) : Prop :=
  ∀ s t, R s t → Alike x s x t fun _ s' t' => R s' t'

section Lockstep

variable {R : σ → σ → Prop} {x : Cut σ α} {f : α → Cut σ β}

theorem Lockstep.pure (a : α) : Lockstep R (pure a : Cut σ α) := fun _ _ h => ⟨rfl, h⟩

theorem Lockstep.stop : Lockstep R (stop : Cut σ α) := fun _ _ h => ⟨rfl, h⟩

theorem Lockstep.bind (hx : Lockstep R x) (hf : ∀ a, Lockstep R (f a)) : Lockstep R (x >>= f) :=
  fun s t h => (hx s t h).bind (fun a s' t' h' => hf a s' t' h') fun _ _ h' => h'

/-- What is read does not tell related states apart. -/
theorem Lockstep.read {γ : Type} (read : σ → γ) (hread : ∀ s t, R s t → read t = read s)
    {k : γ → Cut σ β} (hk : ∀ c, Lockstep R (k c)) :
    Lockstep R (state >>= fun s => k (read s)) := by
  intro s t h
  apply Alike.state_bind
  rw [hread s t h]
  exact hk (read s) s t h

theorem Lockstep.ite {c : Prop} [Decidable c] {y : Cut σ α} (hx : Lockstep R x)
    (hy : Lockstep R y) : Lockstep R (if c then x else y) := by
  by_cases hc : c
  · rw [if_pos hc]
    exact hx
  · rw [if_neg hc]
    exact hy

theorem Lockstep.update {u : σ → σ} (hu : ∀ s t, R s t → R (u s) (u t)) :
    Lockstep R (Cut.update u) := fun s t h => ⟨rfl, hu s t h⟩

/-- The relation may take in what the first of the runs keeps. -/
theorem Lockstep.keeps {F : Frame σ} {T : σ → Prop} (hx : Lockstep R x) (hF : Keeps F x)
    (hT : ∀ {s s'}, T s → F.rel s s' → T s') : Lockstep (fun s t => R s t ∧ T s) x := by
  intro s t h
  obtain ⟨hR, hs⟩ := h
  apply ((hx s t hR).sat (hF.sat s)).mono
  intro _ s' t' h'
  obtain ⟨hR', hkept⟩ := h'
  exact ⟨hR', hT hs hkept⟩

end Lockstep

end Cut
