import DesPwd.Core.Bytes

/-!
# Character arrays with a terminated string

A `CharBuf n` is an array of `n + 1` characters whose last one is zero. A field
that is only written by `strncpy` with its size less one keeps that zero, so
it always holds a string of at most `n` characters, `str`.

* `str_strncpy`: what was copied is the string of the array.
* `cStr_append`: the string that stands at the front of a memory.
-/
namespace DesPwd

open Bytes List

structure CharBuf (n : Nat) where
  bytes : Bytes
  length_eq : bytes.length = n + 1
  last : bytes[n]? = some 0
  deriving DecidableEq

namespace CharBuf

variable {n : Nat} {s rest : Bytes}

def str (b : CharBuf n) : Bytes := b.bytes.takeWhile (· ≠ 0)

/-- `strncpy(b, s, n)` -/
def strncpy (b : CharBuf n) (s : Bytes) : CharBuf n where
  bytes := (s ++ List.replicate n 0).take n ++ b.bytes.drop n
  length_eq := by
    have := b.length_eq
    simp
    omega
  last := by
    have hlen : ((s ++ List.replicate n 0).take n).length = n := by simp
    rw [getElem?_append_right (by omega), hlen, getElem?_drop, Nat.sub_self]
    exact b.last

/-- `b[0] = '\0'` -/
def clear (b : CharBuf n) : CharBuf n where
  bytes := b.bytes.set 0 0
  length_eq := by rw [length_set, b.length_eq]
  last := by
    rw [getElem?_set]
    split
    · rw [if_pos (by rw [b.length_eq]; omega)]
    · exact b.last

/-- An array of zeros. -/
def zero (n : Nat) : CharBuf n where
  bytes := List.replicate (n + 1) 0
  length_eq := length_replicate
  last := by rw [getElem?_replicate, if_pos (Nat.lt_succ_self n)]

theorem zero_not_mem_str (b : CharBuf n) : 0 ∉ b.str := by
  intro h
  have := all_takeWhile (p := (· ≠ (0 : UInt8))) (l := b.bytes)
  rw [all_eq_true] at this
  simpa using this 0 h

theorem takeWhile_ne_zero (hs : 0 ∉ s) : (s ++ 0 :: rest).takeWhile (· ≠ 0) = s := by
  have hall : ∀ x ∈ s, decide (x ≠ 0) = true := by
    intro x hx
    simp only [decide_eq_true_eq]
    rintro rfl
    exact hs hx
  rw [takeWhile_append_of_pos hall, takeWhile_cons_of_neg (by simp), append_nil]

theorem length_str (b : CharBuf n) : b.str.length ≤ n := by
  rcases Nat.lt_or_ge n b.str.length with hlt | hle
  · obtain ⟨t, ht⟩ : b.str <+: b.bytes := takeWhile_prefix _
    have hlast := b.last
    rw [← ht, getElem?_append_left hlt] at hlast
    exact absurd (mem_of_getElem? hlast) b.zero_not_mem_str
  · exact hle

theorem drop_eq (b : CharBuf n) : b.bytes.drop n = 0 :: b.bytes.drop (n + 1) := by
  obtain ⟨hn, hz⟩ := List.getElem?_eq_some_iff.1 b.last
  rw [drop_eq_getElem_cons hn, hz]

@[simp] theorem str_strncpy (b : CharBuf n) (hs : 0 ∉ s) (hlen : s.length ≤ n) :
    (b.strncpy s).str = s := by
  have hpad : ∃ t, List.replicate (n - s.length) 0 ++ b.bytes.drop n = 0 :: t := by
    rw [b.drop_eq]
    cases n - s.length with
    | zero => exact ⟨_, rfl⟩
    | succ k => exact ⟨_, rfl⟩
  obtain ⟨t, ht⟩ := hpad
  have hbytes : (b.strncpy s).bytes = s ++ 0 :: t := by
    simp only [strncpy, take_append, take_of_length_le hlen, take_replicate]
    rw [Nat.min_eq_left (Nat.sub_le ..), append_assoc, ht]
  rw [str, hbytes, takeWhile_ne_zero hs]

end CharBuf

namespace Bytes

theorem cStr_append {n : Nat} {rest : Bytes} :
    ∀ {s}, 0 ∉ s → s.length ≤ n → cStr n (s ++ 0 :: rest) = some s := by
  induction n with
  | zero =>
    intro s _ hlen
    rw [length_eq_zero_iff.1 (Nat.le_zero.1 hlen)]
    rfl
  | succ n ih =>
    intro s hs hlen
    cases s with
    | nil => rfl
    | cons x s =>
      rw [mem_cons, not_or] at hs
      obtain ⟨hx, hs⟩ := hs
      rw [cons_append, cStr, if_neg (Ne.symm hx), ih hs (Nat.le_of_succ_le_succ hlen)]
      rfl

/-- A string that is read from a memory has no zero and is not longer than asked. -/
theorem cStr_some {n : Nat} : ∀ {m s}, cStr n m = some s → 0 ∉ s ∧ s.length ≤ n := by
  induction n with
  | zero =>
    intro m s h
    cases h
    exact ⟨not_mem_nil, Nat.le_refl 0⟩
  | succ n ih =>
    intro m s h
    cases m with
    | nil => cases h
    | cons x m =>
      rw [cStr] at h
      split at h
      case isTrue =>
        cases h
        exact ⟨not_mem_nil, Nat.zero_le _⟩
      case isFalse hx =>
        obtain ⟨s', hs', rfl⟩ := Option.map_eq_some_iff.1 h
        obtain ⟨hz, hlen⟩ := ih hs'
        refine ⟨?_, Nat.succ_le_succ hlen⟩
        intro hmem
        rcases mem_cons.1 hmem with h0 | hmem
        · exact hx h0.symm
        · exact hz hmem

end Bytes

end DesPwd
