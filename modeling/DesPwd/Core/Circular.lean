import Mathlib.Logic.Function.Basic

/-!
# Windows of a circular array

An array of `n` cells used as a ring, with the index `s` of the oldest entry
and the index `e` of the next free cell. `Window n cell s e l` says that the
entries from `s` up to `e` are exactly `l`, at most one round.

* `Window.push`, `Window.pop`: an entry is added at `e`, taken from `s`.
* `Window.start_eq_stop_iff`: the two indexes are equal for the empty and for
  the full window, so they alone do not tell these apart.
-/
namespace DesPwd.Circular

open List

variable {α : Type} {n s e : Nat} {cell : Nat → α} {a : α} {l : List α}

/-- The index after `i`. -/
def next (n i : Nat) : Nat := if n ≤ i + 1 then 0 else i + 1

/-- The index `k` places after `s`, for `k` up to one round. -/
def slot (n s k : Nat) : Nat := if s + k < n then s + k else s + k - n

structure Window (n : Nat) (cell : Nat → α) (s e : Nat) (l : List α) : Prop where
  start : s < n
  fits : l.length ≤ n
  stop : e = slot n s l.length
  get : ∀ k a, l[k]? = some a → cell (slot n s k) = a

namespace Window

theorem empty (hs : s < n) : Window n cell s s [] :=
  ⟨hs, Nat.zero_le _, by simp [slot, hs], by simp⟩

theorem push (h : Window n cell s e l) (hl : l.length < n) :
    Window n (Function.update cell e a) s (next n e) (l ++ [a]) := by
  have hs := h.start
  refine ⟨hs, by rw [length_append]; exact hl, ?_, fun k b hk => ?_⟩
  · rw [h.stop, length_append, length_singleton]
    unfold next slot
    split <;> split <;> split <;> omega
  · rcases Nat.lt_trichotomy k l.length with hlt | rfl | hgt
    · rw [getElem?_append_left hlt] at hk
      have hne : slot n s k ≠ e := by
        rw [h.stop]
        unfold slot
        split <;> split <;> omega
      rw [Function.update_of_ne hne]
      exact h.get k b hk
    · rw [← h.stop]
      simpa using hk
    · rw [getElem?_eq_none (by simp; omega)] at hk
      cases hk

section

variable (h : Window n cell s e (a :: l))
include h

theorem head : cell s = a := by
  have := h.get 0 a rfl
  simpa [slot, h.start] using this

theorem pop : Window n cell (next n s) e l := by
  have hs := h.start
  have hf := h.fits
  rw [length_cons] at hf
  refine ⟨?_, by omega, ?_, fun k b hk => ?_⟩
  · unfold next; split <;> omega
  · rw [h.stop, length_cons]
    unfold next slot
    split <;> split <;> split <;> omega
  · have hlt := (List.getElem?_eq_some_iff.mp hk).1
    have := h.get (k + 1) b (by simpa using hk)
    rw [← this]
    congr 1
    unfold next slot
    split <;> split <;> split <;> omega

theorem set_head {b : α} : Window n (Function.update cell s b) s e (b :: l) := by
  have hs := h.start
  have hf := h.fits
  rw [length_cons] at hf
  refine ⟨hs, h.fits, h.stop, fun k c hk => ?_⟩
  cases k with
  | zero => simp [slot, hs] at hk ⊢; exact hk
  | succ k =>
    have hlt := (List.getElem?_eq_some_iff.mp hk).1
    rw [length_cons] at hlt
    have hne : slot n s (k + 1) ≠ s := by
      unfold slot
      split <;> omega
    rw [Function.update_of_ne hne]
    exact h.get (k + 1) c (by simpa using hk)

end

theorem start_eq_stop_iff (h : Window n cell s e l) : s = e ↔ l = [] ∨ l.length = n := by
  have hs := h.start
  rw [← length_eq_zero_iff, h.stop]
  unfold slot
  split <;> omega

theorem stop_lt (h : Window n cell s e l) : e < n := by
  have hs := h.start
  have hf := h.fits
  rw [h.stop]
  unfold slot
  split <;> omega

end Window

end DesPwd.Circular
