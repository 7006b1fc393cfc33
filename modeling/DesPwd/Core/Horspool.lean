import Mathlib.Data.List.Infix

/-!
# Search of a pattern with shifts

A search that looks at the text through a window of the pattern's length and
moves the window by a shift that depends on the last character in it. A shift
is safe when it is not longer than the distance from the last place of that
character in the pattern, the end apart, to the end.

* `Passed.skip`: no occurrence is passed over by a safe shift.
* `IsFirst`: what a search has to return.
-/
namespace DesPwd.Horspool

open List

variable {α : Type} {p t : List α} {e i : Nat} {c : α}

/-- The pattern `p` stands at position `i` of the text `t`. -/
def OccursAt (p t : List α) (i : Nat) : Prop := p <+: t.drop i

theorem occursAt_iff : OccursAt p t i ↔ ∀ n h, t[i + n]? = some p[n] := by
  unfold OccursAt
  rw [prefix_iff_getElem?]
  simp

theorem OccursAt.getElem? (h : OccursAt p t i) {n : Nat} (hn : n < p.length) :
    t[i + n]? = p[n]? := by
  rw [occursAt_iff.mp h n hn, getElem?_eq_getElem hn]

theorem OccursAt.add_length_le (h : OccursAt p t i) (hp : p ≠ []) : i + p.length ≤ t.length := by
  have hlen := h.length_le
  have hpos := length_pos_iff.mpr hp
  simp only [length_drop] at hlen
  omega

/-- The smallest position of the pattern, or that it has none. -/
def IsFirst (p t : List α) : Option Nat → Prop
  | some i => OccursAt p t i ∧ ∀ j < i, ¬OccursAt p t j
  | none => ∀ i, ¬OccursAt p t i

/-- No occurrence ends before `e`. -/
def Passed (p t : List α) (e : Nat) : Prop := ∀ i, i + p.length < e → ¬OccursAt p t i

/-- Shifts that pass over no place of their character in the pattern. -/
structure Shift (p : List α) (shift : α → Nat) : Prop where
  le : ∀ c, shift c ≤ p.length
  safe : ∀ c d, 0 < d → d < shift c → p[p.length - 1 - d]? ≠ some c

theorem Passed.skip {shift : α → Nat} (hs : Shift p shift) (h : Passed p t (i + p.length))
    (hmis : ¬OccursAt p t i) (hc : t[i + p.length - 1]? = some c) :
    Passed p t (i + p.length + shift c) := by
  intro j hj hocc
  have hle := hs.le c
  rcases lt_trichotomy j i with hlt | rfl | hgt
  · exact h j (by omega) hocc
  · exact hmis hocc
  -- the last character of the window stands `j - i` before the end of the pattern
  have hget := hocc.getElem? (n := p.length - 1 - (j - i)) (by omega)
  have hidx : j + (p.length - 1 - (j - i)) = i + p.length - 1 := by omega
  rw [hidx, hc] at hget
  exact hs.safe c (j - i) (by omega) (by omega) hget.symm

end DesPwd.Horspool
