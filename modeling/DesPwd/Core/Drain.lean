import Mathlib.Data.List.Range

/-!
# Calls that hand out a list

A call returns the next element of a list that its state stands for, or nothing when
there is none left. Such a list is, for a row of pages, that of the positions at which a
page holds an element that fits, from a position on.

* `Drains.gives_iff`: repeated calls give exactly the elements of the list.
* `mem_ahead`: the positions of a row of pages.
-/
namespace DesPwd.Drain

open List

/-! ## Calls -/

section Calls

variable {S O A : Type} {call : S → Option O × S} {gives : A → O → S → Prop} {R : S → List A → Prop}

/-- The state after `n` calls. -/
def after (call : S → Option O × S) : Nat → S → S
  | 0, s => s
  | n + 1, s => after call n (call s).2

/-- `R s l`: the elements `l` are still to come. `gives a o s'` says that a call that
returned `o` and left the state `s'` gave element `a`. -/
structure Drains (call : S → Option O × S) (gives : A → O → S → Prop) (R : S → List A → Prop) :
    Prop where
  nil : ∀ {s}, R s [] → (call s).1 = none ∧ R (call s).2 []
  cons : ∀ {s a l}, R s (a :: l) → ∃ o, (call s).1 = some o ∧ gives a o (call s).2 ∧ R (call s).2 l

/-- Call `n` gives `a`. -/
def GivesAt (call : S → Option O × S) (gives : A → O → S → Prop) (s : S) (a : A) (n : Nat) : Prop :=
  ∃ o, (call (after call n s)).1 = some o ∧ gives a o (call (after call n s)).2

theorem Drains.none_of_nil (h : Drains call gives R) {s : S} (hs : R s []) :
    ∀ n, (call (after call n s)).1 = none
  | 0 => (h.nil hs).1
  | n + 1 => h.none_of_nil (h.nil hs).2 n

theorem Drains.nth (h : Drains call gives R) :
    ∀ {n} {s} {l} {a}, R s l → l[n]? = some a → GivesAt call gives s a n
  | _, _, [], _, _, hn => by cases hn
  | 0, _, _ :: _, _, hs, hn => by
    cases hn
    obtain ⟨o, ho, hg, -⟩ := h.cons hs
    exact ⟨o, ho, hg⟩
  | n + 1, s, b :: l, a, hs, hn => by
    obtain ⟨o, -, -, hl⟩ := h.cons hs
    exact h.nth (n := n) hl hn

theorem Drains.mem_of_gives (h : Drains call gives R)
    (hinj : ∀ {a a' o s}, gives a o s → gives a' o s → a = a') :
    ∀ {n} {s} {l} {a}, R s l → GivesAt call gives s a n → a ∈ l
  | n, _, [], _, hs, ⟨o, ho, _⟩ => by
    rw [h.none_of_nil hs n] at ho
    cases ho
  | 0, s, b :: l, a, hs, ⟨o, ho, hg⟩ => by
    obtain ⟨o', ho', hg', -⟩ := h.cons hs
    cases ho'.symm.trans ho
    rw [hinj hg hg']
    exact mem_cons_self
  | n + 1, s, b :: l, a, hs, hg => by
    obtain ⟨o, -, -, hl⟩ := h.cons hs
    exact mem_cons_of_mem b (h.mem_of_gives hinj hl hg)

/-- **Repeated calls** give exactly the elements of the list. -/
theorem Drains.gives_iff (h : Drains call gives R)
    (hinj : ∀ {a a' o s}, gives a o s → gives a' o s → a = a') {s : S} {l : List A} (hs : R s l)
    (a : A) : (∃ n, GivesAt call gives s a n) ↔ a ∈ l := by
  constructor
  · rintro ⟨n, hn⟩
    exact h.mem_of_gives hinj hs hn
  · intro ha
    obtain ⟨n, hn⟩ := mem_iff_getElem?.1 ha
    exact ⟨n, h.nth hs hn⟩

end Calls

/-! ## A row of pages -/

section Pages

variable {B : Type} {hit : B → Bool} {xs : List B} {page : Nat → List B} {x : B} {n i j k p : Nat}

/-- The positions of a page, from `p` on, whose element fits. -/
def hits (hit : B → Bool) (xs : List B) (p : Nat) : List Nat :=
  (List.range' p (xs.length - p)).filter fun j => (xs[j]?).any hit

theorem hits_end (hp : xs.length ≤ p) : hits hit xs p = [] := by
  rw [hits, Nat.sub_eq_zero_of_le hp]
  rfl

theorem hits_step (hx : xs[p]? = some x) :
    hits hit xs p = if hit x then p :: hits hit xs (p + 1) else hits hit xs (p + 1) := by
  have hp : p < xs.length := (List.getElem?_eq_some_iff.1 hx).1
  rw [hits, show xs.length - p = xs.length - (p + 1) + 1 by omega, range'_succ,
    filter_cons, hx]
  rfl

theorem mem_hits : j ∈ hits hit xs p ↔ p ≤ j ∧ ∃ x, xs[j]? = some x ∧ hit x = true := by
  rw [hits, mem_filter, mem_range'_1, Option.any_eq_true]
  constructor
  · rintro ⟨⟨hp, -⟩, hx⟩
    exact ⟨hp, hx⟩
  · rintro ⟨hp, x, hx, hh⟩
    have hj : j < xs.length := (List.getElem?_eq_some_iff.1 hx).1
    exact ⟨⟨hp, by omega⟩, x, hx, hh⟩

/-- The positions in `n` pages from page `i` on, in that page from `p` on. -/
def ahead (hit : B → Bool) (page : Nat → List B) : Nat → Nat → Nat → List (Nat × Nat)
  | 0, _, _ => []
  | n + 1, i, p => (hits hit (page i) p).map (i, ·) ++ ahead hit page n (i + 1) 0

theorem mem_ahead : ∀ {n i}, (k, j) ∈ ahead hit page n i 0 ↔
    i ≤ k ∧ k < i + n ∧ ∃ x, (page k)[j]? = some x ∧ hit x = true
  | 0, i => by
    constructor
    · intro h
      cases h
    · omega
  | n + 1, i => by
    rw [ahead, mem_append, mem_ahead, mem_map]
    constructor
    · rintro (⟨j', hj, he⟩ | ⟨hi, hk, hx⟩)
      · cases he
        exact ⟨le_refl _, by omega, (mem_hits.1 hj).2⟩
      · exact ⟨by omega, by omega, hx⟩
    · rintro ⟨hi, hk, hx⟩
      rcases lt_or_eq_of_le hi with hlt | rfl
      · exact .inr ⟨hlt, by omega, hx⟩
      · exact .inl ⟨j, mem_hits.2 ⟨Nat.zero_le j, hx⟩, rfl⟩

end Pages

end DesPwd.Drain
