import Mathlib.Data.List.Sort

/-!
# bsearch and qsort

The two functions of the C library, on lists: `bsearch` halves the range
between two indexes until the comparison with the key gives 0, `qsort` is a
stable sort by a comparison.

* `bsearch_cases`: on a list that is strictly sorted by a key, `bsearch` finds
  the element with the key, or there is none.
* `bsearch_found`: whatever the order, what is found compares equal.
-/
namespace DesPwd.BinSearch

open List

variable {α : Type}

/-- The loop of `bsearch`; `cmp x` is the comparison of the key with `x`. -/
def bsearchLoop (cmp : α → Int) (xs : List α) : Nat → Nat → Nat → Option Nat
  | 0, _, _ => none
  | fuel + 1, l, u =>
    if l < u then
      match xs[(l + u) / 2]? with
      | none => none
      | some x =>
        if cmp x < 0 then bsearchLoop cmp xs fuel l ((l + u) / 2)
        else if 0 < cmp x then bsearchLoop cmp xs fuel ((l + u) / 2 + 1) u
        else some ((l + u) / 2)
    else none

def bsearch (cmp : α → Int) (xs : List α) : Option Nat :=
  bsearchLoop cmp xs (xs.length + 1) 0 xs.length

def qsort (cmp : α → α → Int) (xs : List α) : List α := xs.insertionSort fun a b => cmp a b ≤ 0

section Searching

variable {cmp : α → Int} {xs : List α}

theorem bsearchLoop_sound {fuel i : Nat} :
    ∀ {l u}, bsearchLoop cmp xs fuel l u = some i → ∃ x, xs[i]? = some x ∧ cmp x = 0 := by
  induction fuel with
  | zero => intro l u h; cases h
  | succ fuel ih =>
    intro l u h
    rw [bsearchLoop] at h
    split at h
    · split at h
      · cases h
      rename_i x hx
      split at h
      · exact ih h
      · split at h
        · exact ih h
        · cases h
          exact ⟨x, hx, by omega⟩
    · cases h

/-- Whatever the order of the list, what is found compares equal. -/
theorem bsearch_found {i : Nat} (h : bsearch cmp xs = some i) :
    ∃ l1 x l2, xs = l1 ++ x :: l2 ∧ l1.length = i ∧ cmp x = 0 := by
  obtain ⟨x, hx, h0⟩ := bsearchLoop_sound h
  obtain ⟨hi, rfl⟩ := List.getElem?_eq_some_iff.mp hx
  refine ⟨xs.take i, xs[i], xs.drop (i + 1), ?_, ?_, h0⟩
  · rw [getElem_cons_drop, take_append_drop]
  · rw [length_take]
    omega

theorem bsearch_eq_none (h : ∀ x ∈ xs, cmp x ≠ 0) : bsearch cmp xs = none := by
  cases hb : bsearch cmp xs with
  | none => rfl
  | some i =>
    obtain ⟨l1, x, l2, rfl, -, h0⟩ := bsearch_found hb
    exact absurd h0 (h x (by simp))

/-- The range of the loop keeps the index `k` of the element that compares
equal. -/
theorem bsearchLoop_complete {k : Nat} (hk : k < xs.length) (h0 : cmp xs[k] = 0)
    (hleft : ∀ i h, i < k → 0 < cmp xs[i])
    (hright : ∀ i h, k < i → cmp xs[i] < 0) :
    ∀ {fuel l u}, l ≤ k → k < u → u ≤ xs.length → u - l < fuel →
      bsearchLoop cmp xs fuel l u = some k := by
  intro fuel
  induction fuel with
  | zero => omega
  | succ fuel ih =>
    intro l u hl hu hlen hfuel
    have hmid : (l + u) / 2 < xs.length := by omega
    rw [bsearchLoop, if_pos (by omega), getElem?_eq_getElem hmid]
    dsimp only
    rcases lt_trichotomy ((l + u) / 2) k with hlt | heq | hgt
    · have := hleft _ hmid hlt
      rw [if_neg (by omega), if_pos this]
      exact ih (by omega) hu hlen (by omega)
    · subst heq
      rw [if_neg (by omega), if_neg (by omega)]
    · rw [if_pos (hright _ hmid hgt)]
      exact ih hl (by omega) (by omega) (by omega)

/-- The search in a list that is strictly sorted by `key`. -/
theorem bsearch_cases {key : α → Int} {k : Int} (hs : (xs.map key).Pairwise (· < ·))
    (hneg : ∀ x ∈ xs, cmp x < 0 ↔ k < key x) (hpos : ∀ x ∈ xs, 0 < cmp x ↔ key x < k) :
    (∃ l1 x l2, xs = l1 ++ x :: l2 ∧ key x = k ∧ bsearch cmp xs = some l1.length) ∨
      ((∀ x ∈ xs, key x ≠ k) ∧ bsearch cmp xs = none) := by
  have hzero : ∀ x ∈ xs, cmp x = 0 ↔ key x = k := by
    intro x hx
    have h1 := hneg x hx
    have h2 := hpos x hx
    omega
  by_cases hex : ∃ x ∈ xs, key x = k
  · left
    obtain ⟨x, hx, hkey⟩ := hex
    obtain ⟨l1, l2, rfl⟩ := append_of_mem hx
    refine ⟨l1, x, l2, rfl, hkey, ?_⟩
    have hk : l1.length < (l1 ++ x :: l2).length := by simp
    have hget : (l1 ++ x :: l2)[l1.length] = x := by simp
    have hlt : ∀ i j hi (hj : j < (l1 ++ x :: l2).length), i < j →
        key (l1 ++ x :: l2)[i] < key (l1 ++ x :: l2)[j] := by
      rw [pairwise_map] at hs
      exact pairwise_iff_getElem.mp hs
    apply bsearchLoop_complete hk
    · rw [hget]
      exact (hzero x hx).mpr hkey
    · intro i hi hik
      have := hlt i _ hi hk hik
      rw [hget, hkey] at this
      exact (hpos _ (getElem_mem hi)).mpr this
    · intro i hi hik
      have := hlt _ i hk hi hik
      rw [hget, hkey] at this
      exact (hneg _ (getElem_mem hi)).mpr this
    · omega
    · exact hk
    · exact le_rfl
    · omega
  · right
    have hno : ∀ x ∈ xs, key x ≠ k := fun x hx he => hex ⟨x, hx, he⟩
    exact ⟨hno, bsearch_eq_none fun x hx h0 => hno x hx ((hzero x hx).mp h0)⟩

end Searching

section Sorting

variable {cmp : α → α → Int} {xs : List α}

theorem qsort_perm (cmp : α → α → Int) (xs : List α) : (qsort cmp xs).Perm xs :=
  perm_insertionSort _ _

/-- A comparison that is that of the keys sorts by the keys. -/
theorem qsort_sorted {key : α → Int}
    (h : ∀ a ∈ xs, ∀ b ∈ xs, cmp a b ≤ 0 ↔ key a ≤ key b) (hnd : (xs.map key).Nodup) :
    ((qsort cmp xs).map key).Pairwise (· < ·) := by
  have hmap : (qsort cmp xs).map key = (xs.map key).insertionSort (· ≤ ·) :=
    map_insertionSort _ _ key xs h
  have hle : ((qsort cmp xs).map key).Pairwise (· ≤ ·) := by
    rw [hmap]
    exact pairwise_insertionSort _ _
  have hnd' : ((qsort cmp xs).map key).Nodup := ((qsort_perm cmp xs).map key).nodup_iff.mpr hnd
  exact (hle.and hnd').imp fun hab => lt_of_le_of_ne hab.1 hab.2

end Sorting

end DesPwd.BinSearch
