import Mathlib.Algebra.BigOperators.Group.List.Basic
import Mathlib.Data.List.Dedup
import Mathlib.Data.List.Induction
import Mathlib.Data.List.Sort

/-!
# Totals per key, thinned out

A table of keys and values to which values are added: the value joins the entry
of its key or gets one. Before an entry is added to a table of `cap` entries, the
`n` smallest ones are dropped.

* `Sums`: every key once, with the sum of what was added under it.
* `sums_totals`: the table has the sums as long as there are at most `cap` keys.
* `add_full`: what the key behind them drops, and what it keeps.
-/
namespace DesPwd.Totals

open List

variable {κ V : Type} {cap n : Nat} {k : κ} {x : κ × V} {m xs : List (κ × V)}

/-! ## Keys -/

def keys (m : List (κ × V)) : List κ := m.map Prod.fst

theorem keys_concat : keys (m ++ [x]) = keys m ++ [x.1] := by simp [keys]

section Keys

variable [DecidableEq κ]

/-- The number of different keys. -/
def distinct (xs : List (κ × V)) : Nat := (keys xs).dedup.length

theorem distinct_concat :
    distinct (xs ++ [x]) = if x.1 ∈ keys xs then distinct xs else distinct xs + 1 := by
  unfold distinct
  rw [keys_concat, (perm_append_singleton x.1 (keys xs)).dedup.length_eq]
  split
  case isTrue h => rw [dedup_cons_of_mem h]
  case isFalse h => rw [dedup_cons_of_notMem h, length_cons]

end Keys

/-! ## Sums -/

section Sums

variable [DecidableEq κ] [AddCommMonoid V]

/-- The sum of the values of a key. -/
def sumOf (k : κ) (xs : List (κ × V)) : V := (xs.map fun x => if x.1 = k then x.2 else 0).sum

theorem sumOf_concat : sumOf k (xs ++ [x]) = sumOf k xs + if x.1 = k then x.2 else 0 := by
  simp [sumOf]

theorem sumOf_of_not_mem (h : k ∉ keys xs) : sumOf k xs = 0 := by
  refine sum_eq_zero fun v hv => ?_
  obtain ⟨x, hx, rfl⟩ := mem_map.mp hv
  refine if_neg fun hk => h ?_
  exact hk ▸ mem_map_of_mem hx

/-- The value of `x` joins the entry of its key. -/
def bump (x : κ × V) (m : List (κ × V)) : List (κ × V) :=
  m.map fun y => if y.1 = x.1 then (y.1, y.2 + x.2) else y

theorem keys_bump : keys (bump x m) = keys m := by
  unfold keys bump
  rw [map_map]
  refine map_congr_left fun y _ => ?_
  by_cases h : y.1 = x.1 <;> simp [h]

/-- `m` has every key of `xs` once, with its sum. -/
structure Sums (xs m : List (κ × V)) : Prop where
  nodup : (keys m).Nodup
  mem_iff : ∀ k, k ∈ keys m ↔ k ∈ keys xs
  sum : ∀ y ∈ m, y.2 = sumOf y.1 xs

theorem Sums.bump (h : Sums xs m) (hx : x.1 ∈ keys m) : Sums (xs ++ [x]) (bump x m) where
  nodup := by
    rw [keys_bump]
    exact h.nodup
  mem_iff k := by
    rw [keys_bump, keys_concat, mem_append, mem_singleton, h.mem_iff]
    constructor
    · exact .inl
    · rintro (hk | rfl)
      · exact hk
      · exact (h.mem_iff _).mp hx
  sum y hy := by
    obtain ⟨z, hz, rfl⟩ := mem_map.mp hy
    rw [sumOf_concat]
    by_cases hk : z.1 = x.1
    · rw [if_pos hk, if_pos hk.symm, h.sum z hz]
    · rw [if_neg hk, if_neg (Ne.symm hk), add_zero, h.sum z hz]

theorem Sums.concat (h : Sums xs m) (hx : x.1 ∉ keys m) : Sums (xs ++ [x]) (m ++ [x]) where
  nodup := by
    rw [keys_concat, ← concat_eq_append]
    exact h.nodup.concat hx
  mem_iff k := by
    rw [keys_concat, keys_concat, mem_append, mem_append, h.mem_iff]
  sum y hy := by
    rw [sumOf_concat]
    rcases mem_append.mp hy with hy | hy
    · have hne : x.1 ≠ y.1 := fun he => hx (he ▸ mem_map_of_mem hy)
      rw [if_neg hne, add_zero, h.sum y hy]
    · obtain rfl := mem_singleton.mp hy
      rw [if_pos rfl, sumOf_of_not_mem (fun hk => hx ((h.mem_iff _).mpr hk)), zero_add]

theorem Sums.length_eq (h : Sums xs m) : m.length = distinct xs := by
  have hperm : (keys m).Perm (keys xs).dedup := by
    refine (perm_ext_iff_of_nodup h.nodup (nodup_dedup _)).mpr fun k => ?_
    rw [mem_dedup, h.mem_iff]
  rw [distinct, ← hperm.length_eq, keys, length_map]

end Sums

/-! ## Dropping the smallest -/

section Thin

variable [LinearOrder V]

/-- Without the `n` smallest entries, in the order of the values. -/
def thin (n : Nat) (m : List (κ × V)) : List (κ × V) :=
  (m.insertionSort fun a b => a.2 ≤ b.2).drop n

theorem thin_spec (n : Nat) (m : List (κ × V)) :
    ∃ dropped, dropped.length = min n m.length ∧ (dropped ++ thin n m).Perm m ∧
      ∀ d ∈ dropped, ∀ y ∈ thin n m, d.2 ≤ y.2 := by
  have hsorted := pairwise_insertionSort (fun a b : κ × V => a.2 ≤ b.2) m
  have hperm := perm_insertionSort (fun a b : κ × V => a.2 ≤ b.2) m
  refine ⟨(m.insertionSort fun a b => a.2 ≤ b.2).take n, ?_, ?_, ?_⟩
  · rw [length_take, hperm.length_eq]
  · rw [thin, take_append_drop]
    exact hperm
  · rw [← take_append_drop n (m.insertionSort _)] at hsorted
    exact (pairwise_append.mp hsorted).2.2

end Thin

/-! ## Adding -/

section Add

variable [DecidableEq κ] [AddCommMonoid V] [LinearOrder V]

def add (cap n : Nat) (m : List (κ × V)) (x : κ × V) : List (κ × V) :=
  if x.1 ∈ keys m then bump x m
  else if cap ≤ m.length then thin n m ++ [x]
  else m ++ [x]

/-- The table after all of `xs`. -/
def totals (cap n : Nat) (xs : List (κ × V)) : List (κ × V) := xs.foldl (add cap n) []

theorem nodup_add (h : (keys m).Nodup) (x : κ × V) : (keys (add cap n m x)).Nodup := by
  have hsnoc : ∀ {l}, (keys l).Nodup → x.1 ∉ keys l → (keys (l ++ [x])).Nodup := by
    intro l hl hx
    rw [keys_concat, ← concat_eq_append]
    exact hl.concat hx
  rw [add]
  split
  · rw [keys_bump]
    exact h
  case isFalse hx =>
    split
    · have hsub := (drop_sublist n (m.insertionSort fun a b => a.2 ≤ b.2)).map Prod.fst
      have hperm := (perm_insertionSort (fun a b : κ × V => a.2 ≤ b.2) m).map Prod.fst
      refine hsnoc ((hperm.nodup_iff.mpr h).sublist hsub) fun hk => hx ?_
      exact hperm.mem_iff.mp (hsub.subset hk)
    · exact hsnoc h hx

/-- Nothing is dropped while the keys fit. -/
theorem sums_totals (h : distinct xs ≤ cap) : Sums xs (totals cap n xs) := by
  induction xs using List.reverseRecOn with
  | nil => exact ⟨nodup_nil, fun _ => Iff.rfl, fun _ hy => nomatch hy⟩
  | append_singleton xs x ih =>
    rw [distinct_concat] at h
    have hs : Sums xs (totals cap n xs) := by
      refine ih ?_
      split at h <;> omega
    rw [totals, foldl_concat, ← totals, add]
    split
    case isTrue hx => exact hs.bump hx
    case isFalse hx =>
      have hnew : x.1 ∉ keys xs := fun hk => hx ((hs.mem_iff _).mpr hk)
      have hroom : ¬ cap ≤ (totals cap n xs).length := by
        rw [if_neg hnew] at h
        rw [hs.length_eq]
        omega
      rw [if_neg hroom]
      exact hs.concat hx

/-- One key more than `cap`: the smallest entries go, the others stay as they
are. -/
theorem add_full (h : Sums xs m) (hfull : distinct xs = cap) (hx : x.1 ∉ keys xs) :
    ∃ dropped kept, add cap n m x = kept ++ [x] ∧ dropped.length = min n cap ∧
      (dropped ++ kept).Perm m ∧ ∀ d ∈ dropped, ∀ y ∈ kept, d.2 ≤ y.2 := by
  have hm : x.1 ∉ keys m := fun hk => hx ((h.mem_iff _).mp hk)
  have hlen : m.length = cap := h.length_eq.trans hfull
  obtain ⟨dropped, hdl, hperm, hle⟩ := thin_spec n m
  refine ⟨dropped, thin n m, ?_, hlen ▸ hdl, hperm, hle⟩
  rw [add, if_neg hm, if_pos hlen.ge]

end Add

end DesPwd.Totals
