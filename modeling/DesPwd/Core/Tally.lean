import Mathlib.Algebra.BigOperators.Group.List.Basic
import Mathlib.Algebra.Order.Group.Int
import Mathlib.Algebra.Ring.Int.Defs

/-!
# Values kept under keys

Entries with a key and a signed 32-bit value: several entries may have one
key, and what counts is the sum of their values.

* `Added`: a value joins a list, in an entry of its key or in a new one.
* `Moves`: entries leave one list from the front and join another.
* `Added.sumOf`, `Moves.sumOf`: sums are kept when nothing overflows.
* `Moves.valuesOf`: a key with one entry keeps its value, whatever happens to
  the others.
* `Balance`: what was added is what was reported and what is stored, through
  additions and moves.
-/
namespace DesPwd.Tally

open List Tally

variable {E κ : Type} [DecidableEq κ] (key : E → κ) (value : E → Int32)

def valuesOf (k : κ) (xs : List E) : List Int32 := (xs.filter fun e => key e = k).map value

def sumOf (k : κ) (xs : List E) : Int := ((valuesOf key value k xs).map Int32.toInt).sum

/-- Value `v` joins `xs` under key `k`; a value that is not positive may be
dropped. -/
inductive Added (k : κ) (v : Int32) (xs : List E) : List E → Prop
  | merge (l1 : List E) (e e' : E) (l2 : List E) : xs = l1 ++ e :: l2 → key e = k → key e' = k →
      value e' = value e + v → Added k v xs (l1 ++ e' :: l2)
  | new (d : E) {ys : List E} : key d = k → value d = v → ys.Perm (d :: xs) → Added k v xs ys
  | drop : ¬ 0 < v → Added k v xs xs

/-- Entries of the second list join the first one. -/
inductive Moves : List E → List E → List E → List E → Prop
  | refl (b r : List E) : Moves b r b r
  | step {b b1 b' r r' : List E} {d : E} : Added key value (key d) (value d) b b1 →
      Moves b1 r b' r' → Moves b (d :: r) b' r'

/-- Every value is positive. -/
def Positive (xs : List E) : Prop := ∀ e ∈ xs, 0 < value e

section Lists

variable {key value} {k : κ} {v : Int32} {e d : E} {xs ys l1 l2 : List E}

@[simp] theorem valuesOf_nil : valuesOf key value k [] = [] := rfl

theorem valuesOf_cons : valuesOf key value k (e :: xs) =
      if key e = k then value e :: valuesOf key value k xs else valuesOf key value k xs := by
  unfold valuesOf
  by_cases h : key e = k <;> simp [h]

@[simp] theorem valuesOf_append :
    valuesOf key value k (xs ++ ys) = valuesOf key value k xs ++ valuesOf key value k ys := by
  simp [valuesOf]

theorem valuesOf_perm (h : xs.Perm ys) : (valuesOf key value k xs).Perm (valuesOf key value k ys) :=
  (h.filter _).map _

@[simp] theorem sumOf_nil : sumOf key value k [] = 0 := rfl

theorem sumOf_cons : sumOf key value k (e :: xs) =
      (if key e = k then (value e).toInt else 0) + sumOf key value k xs := by
  unfold sumOf
  rw [valuesOf_cons]
  split <;> simp

@[simp] theorem sumOf_append :
    sumOf key value k (xs ++ ys) = sumOf key value k xs + sumOf key value k ys := by
  simp [sumOf]

theorem sumOf_perm (h : xs.Perm ys) : sumOf key value k xs = sumOf key value k ys :=
  ((valuesOf_perm h).map _).sum_eq

theorem Positive.of_perm (h : Positive value xs) (hp : ys.Perm xs) : Positive value ys :=
  fun e he => h e (hp.mem_iff.mp he)

theorem positive_append : Positive value (xs ++ ys) ↔ Positive value xs ∧ Positive value ys := by
  constructor
  · intro h
    exact ⟨fun e he => h e (mem_append_left _ he), fun e he => h e (mem_append_right _ he)⟩
  · intro h e he
    exact (mem_append.mp he).elim (h.1 e) (h.2 e)

theorem positive_cons : Positive value (e :: xs) ↔ 0 < value e ∧ Positive value xs := by
  simp [Positive]

theorem toInt_pos (h : 0 < v) : 0 < v.toInt := Int32.lt_iff_toInt_lt.mp h

theorem sumOf_nonneg (key : E → κ) (k : κ) (h : Positive value xs) : 0 ≤ sumOf key value k xs := by
  induction xs with
  | nil => exact le_rfl
  | cons e xs ih =>
    obtain ⟨he, h⟩ := positive_cons.mp h
    have h₁ := toInt_pos he
    have h₂ := ih h
    rw [sumOf_cons]
    split <;> omega

theorem toInt_add_of_lt {w : Int32} (h0 : 0 < v) (h1 : 0 < w) (hb : v.toInt + w.toInt < 2 ^ 31) :
    (v + w).toInt = v.toInt + w.toInt := by
  have h0 := toInt_pos h0
  have h1 := toInt_pos h1
  rw [Int32.toInt_add, Int.bmod_eq_of_le] <;> omega

end Lists

section Steps

variable {key value} {k id : κ} {v : Int32} {xs ys b r b' r' : List E}

omit [DecidableEq κ] in
theorem Added.append (h : Added key value k v xs ys) (p q : List E) :
    Added key value k v (p ++ (xs ++ q)) (p ++ (ys ++ q)) := by
  cases h with
  | merge l1 e e' l2 hxs he he' hval =>
    subst hxs
    have hsplit : p ++ (l1 ++ e :: l2 ++ q) = (p ++ l1) ++ e :: (l2 ++ q) := by simp
    have hmerge := Added.merge (p ++ l1) e e' (l2 ++ q) hsplit he he' hval
    simpa using hmerge
  | new d hd hval hperm =>
    refine .new d hd hval ?_
    exact ((hperm.append_right q).append_left p).trans perm_middle
  | drop hn => exact .drop hn

section

variable (h : Added key value k v xs ys)
include h

/-- Sums, when the sum of the key has room for the value. -/
theorem Added.sumOf (hp : Positive value xs) (hv : 0 < v)
    (hb : sumOf key value k xs + v.toInt < 2 ^ 31) :
    Positive value ys ∧ ∀ id, sumOf key value id ys =
      sumOf key value id xs + if k = id then v.toInt else 0 := by
  cases h with
  | merge l1 e e' l2 hxs he he' hval =>
    subst hxs
    obtain ⟨hp1, hp'⟩ := positive_append.mp hp
    obtain ⟨hpe, hp2⟩ := positive_cons.mp hp'
    rw [sumOf_append, sumOf_cons, if_pos he] at hb
    have h₁ := sumOf_nonneg key k hp1
    have h₂ := sumOf_nonneg key k hp2
    have hsum : (value e').toInt = (value e).toInt + v.toInt := by
      rw [hval]
      exact toInt_add_of_lt hpe hv (by omega)
    refine ⟨positive_append.mpr ⟨hp1, positive_cons.mpr ⟨?_, hp2⟩⟩, fun id => ?_⟩
    · rw [Int32.lt_iff_toInt_lt, hsum]
      have h3 := toInt_pos hpe
      have h4 := toInt_pos hv
      exact show (0 : Int) < _ by omega
    · simp only [sumOf_append, sumOf_cons, he, he', hsum]
      split <;> omega
  | new d hd hval hperm =>
    refine ⟨(positive_cons.mpr ⟨hval ▸ hv, hp⟩).of_perm hperm, fun id => ?_⟩
    rw [sumOf_perm hperm, sumOf_cons, hd, hval, add_comm]
  | drop hn => exact absurd hv hn

theorem Added.valuesOf_ne (hne : id ≠ k) :
    (valuesOf key value id ys).Perm (valuesOf key value id xs) := by
  cases h with
  | merge l1 e e' l2 hxs he he' hval =>
    subst hxs
    have h1 : key e ≠ id := fun h => hne (h.symm.trans he)
    have h2 : key e' ≠ id := fun h => hne (h.symm.trans he')
    simp [valuesOf_cons, h1, h2]
  | new d hd hval hperm =>
    have h1 : key d ≠ id := fun h => hne (h.symm.trans hd)
    refine (valuesOf_perm hperm).trans ?_
    rw [valuesOf_cons, if_neg h1]
  | drop hn => exact List.Perm.refl _

theorem Added.valuesOf_self (hxs : valuesOf key value k xs = [])
    (hv : 0 < v) : valuesOf key value k ys = [v] := by
  cases h with
  | merge l1 e e' l2 hl he he' hval =>
    subst hl
    simp [valuesOf_cons, he] at hxs
  | new d hd hval hperm =>
    have : (valuesOf key value k ys).Perm (valuesOf key value k (d :: xs)) :=
      valuesOf_perm hperm
    rw [valuesOf_cons, if_pos hd, hxs, hval] at this
    exact perm_singleton.mp this
  | drop hn => exact absurd hv hn

end

variable (h : Moves key value b r b' r')
include h

omit [DecidableEq κ] in
theorem Moves.append (q : List E) :
    Moves key value b (r ++ q) b' (r' ++ q) := by
  induction h with
  | refl b r => exact .refl _ _
  | step ha _ ih => exact .step ha ih

omit [DecidableEq κ] in
theorem Moves.trans {b2 r2 : List E}
    (h' : Moves key value b' r' b2 r2) : Moves key value b r b2 r2 := by
  induction h with
  | refl b r => exact h'
  | step ha _ ih => exact .step ha (ih h')

/-- Sums, when no sum of both lists leaves 32 bits. -/
theorem Moves.sumOf : Positive value b → Positive value r →
    (∀ k, sumOf key value k b + sumOf key value k r < 2 ^ 31) →
      Positive value b' ∧ Positive value r' ∧ ∀ k, sumOf key value k b' + sumOf key value k r' =
          sumOf key value k b + sumOf key value k r := by
  induction h with
  | refl b r => exact fun hb hr _ => ⟨hb, hr, fun _ => rfl⟩
  | @step b b1 b' r r' d ha _ ih =>
    intro hb hr hlt
    obtain ⟨hd, hr⟩ := positive_cons.mp hr
    have hroom : Tally.sumOf key value (key d) b + (value d).toInt < 2 ^ 31 := by
      have := hlt (key d)
      have h₁ := sumOf_nonneg key (key d) hr
      rw [sumOf_cons, if_pos rfl] at this
      omega
    obtain ⟨hb1, hsum⟩ := ha.sumOf hb hd hroom
    have hsame : ∀ k, Tally.sumOf key value k b1 + Tally.sumOf key value k r =
        Tally.sumOf key value k b + Tally.sumOf key value k (d :: r) := by
      intro k
      rw [hsum, sumOf_cons, add_assoc]
    obtain ⟨hb', hr', htot⟩ := ih hb1 hr fun k => by rw [hsame]; exact hlt k
    exact ⟨hb', hr', fun k => (htot k).trans (hsame k)⟩

theorem Moves.valuesOf :
    (valuesOf key value k (b ++ r)).length ≤ 1 → (∀ v ∈ valuesOf key value k (b ++ r), 0 < v) →
      (valuesOf key value k (b' ++ r')).Perm (valuesOf key value k (b ++ r)) := by
  induction h with
  | refl b r => exact fun _ _ => List.Perm.refl _
  | @step b b1 b' r r' d ha _ ih =>
    intro hle hpos
    have hsame : (Tally.valuesOf key value k (b1 ++ r)).Perm
        (Tally.valuesOf key value k (b ++ d :: r)) := by
      rw [valuesOf_append, valuesOf_append, valuesOf_cons]
      split
      · rename_i hk
        subst hk
        rw [valuesOf_append, valuesOf_cons, if_pos rfl] at hle hpos
        have hnil : valuesOf key value (key d) b = [] := by
          rw [← length_eq_zero_iff]
          simp only [length_append, length_cons] at hle
          omega
        rw [ha.valuesOf_self hnil (hpos _ (by simp)), hnil]
        simp
      · rename_i hk
        exact (ha.valuesOf_ne (Ne.symm hk)).append_right _
    refine (ih ?_ ?_).trans hsame
    · rw [hsame.length_eq]
      exact hle
    · exact fun v hv => hpos v (hsame.mem_iff.mp hv)

end Steps

/-! ## Balance -/

/-- Of each key, what was reported and what is stored is what was added, and fits
in 31 bits. -/
structure Balance (stored reported : List E) (added : List (κ × Int32)) : Prop where
  stored_pos : Positive value stored
  reported_pos : Positive value reported
  sums : ∀ k, sumOf key value k reported + sumOf key value k stored = sumOf Prod.fst Prod.snd k added
  bounded : ∀ k, sumOf Prod.fst Prod.snd k added < 2 ^ 31

namespace Balance

variable {key value} {k : κ} {v : Int32} {s s' r b b' x : List E} {added : List (κ × Int32)}

theorem init : Balance key value [] [] [] where
  stored_pos := by intro e he; cases he
  reported_pos := by intro e he; cases he
  sums _ := rfl
  bounded _ := show (0 : Int) < 2 ^ 31 by decide

variable (h : Balance key value s r added)
include h

theorem stored_le (k : κ) : sumOf key value k s ≤ sumOf Prod.fst Prod.snd k added := by
  have h₁ := h.sums k
  have h₂ := sumOf_nonneg key k h.reported_pos
  omega

theorem add (ha : Added key value k v s s') (hv : 0 < v)
    (hfit : sumOf Prod.fst Prod.snd k added + v.toInt < 2 ^ 31) :
    Balance key value s' r (added ++ [(k, v)]) := by
  have hle := h.stored_le k
  obtain ⟨hpos, hsum⟩ := ha.sumOf h.stored_pos hv (by omega)
  have hadd : ∀ id, sumOf Prod.fst Prod.snd id (added ++ [(k, v)]) =
      sumOf Prod.fst Prod.snd id added + if k = id then v.toInt else 0 := by
    simp [sumOf_cons]
  refine ⟨hpos, h.reported_pos, fun id => ?_, fun id => ?_⟩
  · rw [hadd, ← h.sums id, hsum, add_assoc]
  rw [hadd]
  have := h.bounded id
  split
  · rename_i he
    exact he ▸ hfit
  · omega

/-- A part `b` of what is stored is taken first, the rest joins it by moves. -/
theorem move (hp : (b ++ x).Perm s)
    (hm : Moves key value b x b' s') : Balance key value s' (r ++ b') added := by
  obtain ⟨hb, hx⟩ := positive_append.mp (h.stored_pos.of_perm hp)
  have hsame : ∀ k, sumOf key value k b + sumOf key value k x = sumOf key value k s := by
    intro k
    rw [← sumOf_append, sumOf_perm hp]
  obtain ⟨hb', hs', hsum⟩ := hm.sumOf hb hx fun k => by
    rw [hsame]
    exact lt_of_le_of_lt (h.stored_le k) (h.bounded k)
  refine ⟨hs', positive_append.mpr ⟨h.reported_pos, hb'⟩, fun k => ?_, h.bounded⟩
  have h₁ := h.sums k
  have h₂ := hsame k
  have h3 := hsum k
  rw [sumOf_append]
  omega

end Balance

end DesPwd.Tally
