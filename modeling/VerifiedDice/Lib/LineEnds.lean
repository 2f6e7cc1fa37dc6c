import Mathlib.Data.List.Basic

/-!
# Line ends of two symbols

A sender that puts `cr` in front of every `lf`, and a receiver that takes the pair back to `lf`.
The receiver holds a `cr` back until it has seen the next symbol, so at any moment it has shown
only what was sent.
-/
namespace LineEnds

variable {α : Type} [DecidableEq α] {cr lf : α}

/-- One symbol on the line. -/
def put (cr lf c : α) : List α := if c = lf then [cr, lf] else [c]

def send (cr lf : α) (t : List α) : List α := t.flatMap (put cr lf)

@[simp] theorem send_nil : send cr lf [] = [] := rfl

@[simp] theorem send_cons (c : α) (t : List α) :
    send cr lf (c :: t) = put cr lf c ++ send cr lf t := rfl

theorem send_append (t t' : List α) : send cr lf (t ++ t') = send cr lf t ++ send cr lf t' :=
  List.flatMap_append

/-- Line ends add `cr` only. -/
theorem filter_send (t : List α) :
    (send cr lf t).filter (· ≠ cr) = t.filter (· ≠ cr) := by
  induction t with
  | nil => rfl
  | cons c t ih =>
    have hput : (put cr lf c).filter (· ≠ cr) = [c].filter (· ≠ cr) := by
      by_cases hlf : c = lf
      · rw [put, if_pos hlf, hlf]
        simp
      · rw [put, if_neg hlf]
    rw [send_cons, List.filter_append, hput, ih, ← List.filter_append]
    rfl

/-! ## The receiver -/

structure Receiver (α : Type) where
  text : List α
  /-- The last symbol was `cr`, and it is not in `text`. -/
  held : Bool

namespace Receiver

variable (cr lf)

def fresh : Receiver α where
  text := []
  held := false

/-- The text with what is held back. -/
def shown (r : Receiver α) : List α := if r.held then r.text ++ [cr] else r.text

def step (r : Receiver α) (c : α) : Receiver α :=
  if c = lf then { text := r.text ++ [lf], held := false }
  else if c = cr then { text := r.shown cr, held := true }
  else { text := r.shown cr ++ [c], held := false }

def receive (r : Receiver α) (symbols : List α) : Receiver α := symbols.foldl (step cr lf) r

variable {cr lf}

theorem receive_append (r : Receiver α) (s s' : List α) :
    r.receive cr lf (s ++ s') = (r.receive cr lf s).receive cr lf s' := List.foldl_append

theorem shown_put (hne : cr ≠ lf) (r : Receiver α) (c : α) :
    (r.receive cr lf (put cr lf c)).shown cr = r.shown cr ++ [c] := by
  by_cases hlf : c = lf
  · rw [put, if_pos hlf, hlf]
    simp [receive, step, shown, hne]
  · rw [put, if_neg hlf]
    by_cases hcr : c = cr
    · simp [receive, step, shown, hcr, hne]
    · simp [receive, step, shown, hlf, hcr]

/-- What was sent is what is shown. -/
theorem shown_send (hne : cr ≠ lf) (r : Receiver α) (t : List α) :
    (r.receive cr lf (send cr lf t)).shown cr = r.shown cr ++ t := by
  induction t generalizing r with
  | nil => simp [receive]
  | cons c t ih => rw [send_cons, receive_append, ih, shown_put hne, List.append_assoc]; rfl

/-- Only `cr` is ever dropped or held back. -/
theorem filter_shown (r : Receiver α) (s : List α) :
    ((r.receive cr lf s).shown cr).filter (· ≠ cr) =
      (r.shown cr).filter (· ≠ cr) ++ s.filter (· ≠ cr) := by
  have htext : ∀ q : Receiver α, (q.shown cr).filter (· ≠ cr) = q.text.filter (· ≠ cr) := by
    intro q
    unfold shown
    split
    · simp
    · rfl
  induction s generalizing r with
  | nil => simp [receive]
  | cons c s ih =>
    have hstep : ((r.step cr lf c).shown cr).filter (· ≠ cr) =
        (r.shown cr).filter (· ≠ cr) ++ [c].filter (· ≠ cr) := by
      rw [htext]
      by_cases hlf : c = lf
      · rw [step, if_pos hlf, List.filter_append, ← htext, hlf]
      · by_cases hcr : c = cr
        · rw [step, if_neg hlf, if_pos hcr, hcr]
          simp
        · rw [step, if_neg hlf, if_neg hcr, List.filter_append]
    have hrest : r.receive cr lf (c :: s) = (r.step cr lf c).receive cr lf s := rfl
    rw [hrest, ih, hstep, List.append_assoc, ← List.filter_append]
    rfl

omit [DecidableEq α] in
theorem text_shown (r : Receiver α) : r.text <+: r.shown cr := by
  unfold shown
  split
  · exact List.prefix_append _ _
  · exact List.prefix_refl _

end Receiver

/-- A line that is cut has a whole number of symbols of the text on it, and perhaps the first
half of a line end. -/
theorem prefix_send {t p : List α} (h : p <+: send cr lf t) :
    ∃ t', t' <+: t ∧ (p = send cr lf t' ∨ p = send cr lf t' ++ [cr]) := by
  induction t generalizing p with
  | nil =>
    obtain rfl := List.prefix_nil.mp h
    exact ⟨[], List.prefix_refl _, Or.inl rfl⟩
  | cons c t ih =>
    have hcut : p = [] ∨ p = [cr] ∨ ∃ q, p = put cr lf c ++ q ∧ q <+: send cr lf t := by
      rw [send_cons] at h
      by_cases hlf : c = lf
      · rw [put, if_pos hlf] at h ⊢
        rcases p with _ | ⟨x, _ | ⟨y, p⟩⟩
        · exact Or.inl rfl
        · obtain ⟨rfl, -⟩ := List.cons_prefix_cons.mp h
          exact Or.inr (Or.inl rfl)
        · obtain ⟨rfl, htail⟩ := List.cons_prefix_cons.mp h
          obtain ⟨rfl, hrest⟩ := List.cons_prefix_cons.mp htail
          exact Or.inr (Or.inr ⟨p, rfl, hrest⟩)
      · rw [put, if_neg hlf] at h ⊢
        rcases p with _ | ⟨x, p⟩
        · exact Or.inl rfl
        · obtain ⟨rfl, hrest⟩ := List.cons_prefix_cons.mp h
          exact Or.inr (Or.inr ⟨p, rfl, hrest⟩)
    rcases hcut with rfl | rfl | ⟨q, rfl, hq⟩
    · exact ⟨[], List.nil_prefix, Or.inl rfl⟩
    · exact ⟨[], List.nil_prefix, Or.inr rfl⟩
    · obtain ⟨t', ht', hcases⟩ := ih hq
      refine ⟨c :: t', List.cons_prefix_cons.mpr ⟨rfl, ht'⟩, ?_⟩
      rcases hcases with rfl | rfl
      · exact Or.inl rfl
      · exact Or.inr (by rw [send_cons, List.append_assoc])

/-- At any moment the receiver has shown only what was sent. -/
theorem text_prefix (hne : cr ≠ lf) {t p : List α} (h : p <+: send cr lf t) :
    (Receiver.fresh.receive cr lf p).text <+: t := by
  obtain ⟨t', ht', hcases⟩ := prefix_send h
  have hshown : (Receiver.fresh.receive cr lf (send cr lf t')).shown cr = t' :=
    Receiver.shown_send hne _ _
  rcases hcases with rfl | rfl
  · have htext : (Receiver.fresh.receive cr lf (send cr lf t')).text <+:
        (Receiver.fresh.receive cr lf (send cr lf t')).shown cr := Receiver.text_shown _
    rw [hshown] at htext
    exact htext.trans ht'
  · rw [Receiver.receive_append]
    have hstep : ∀ r : Receiver α, (r.receive cr lf [cr]).text = r.shown cr := by
      intro r
      simp [Receiver.receive, Receiver.step, hne]
    rw [hstep, hshown]
    exact ht'

end LineEnds
