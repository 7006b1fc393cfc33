import Mathlib.Algebra.Ring.Nat
import Mathlib.Data.Finset.Card

/-!
# Bringing a table to a target, some changes at a time

A table is a list of entries with distinct keys. `changes S C` are the changes
that make `C` the target `S`: entries of `S` that are new or differ, in the order
of `S`, then the keys to delete. A message carries a front part of them
(`fit`), and the table takes them one after the other; it has room for `cap`
entries and stops at the first new entry for which there is none (`Applied`).

The new entries come before the deletions, so the table grows to all the keys of
`C` and `S` before it shrinks.

* `Applied.of_room`: if these keys fit, every change of the message is made and
  nothing else; `card_diff_lt`: fewer keys differ afterwards.
* `Applied.blocked`: if they do not fit, nothing is ever deleted, and they do not
  fit afterwards.
-/
namespace DesPwd.TableSync

open List

variable {κ α : Type} [DecidableEq κ] (keyOf : α → κ)

/-- The entry with a key. -/
def look (t : List α) (k : κ) : Option α := t.find? fun a => keyOf a = k

inductive Change (κ α : Type) where
  | add (a : α)
  | mod (a : α)
  | del (k : κ)

def Change.key : Change κ α → κ
  | .add a => keyOf a
  | .mod a => keyOf a
  | .del k => k

/-- What is to stand under the key. -/
def Change.goal : Change κ α → Option α
  | .add a => some a
  | .mod a => some a
  | .del _ => none

/-- What an entry of the target asks for. -/
def up [DecidableEq α] (C : List α) (a : α) : Option (Change κ α) :=
  match look keyOf C (keyOf a) with
  | none => some (.add a)
  | some b => if a = b then none else some (.mod a)

def ups [DecidableEq α] (S C : List α) : List (Change κ α) := S.filterMap (up keyOf C)

def dels (S C : List α) : List (Change κ α) :=
  (C.filter fun b => (look keyOf S (keyOf b)).isNone).map fun b => .del (keyOf b)

def changes [DecidableEq α] (S C : List α) : List (Change κ α) := ups keyOf S C ++ dels keyOf S C

/-- The front part that fits: the first item that does not ends it. -/
def fit {β : Type} (size : β → Nat) (max : Nat) : Nat → List β → List β
  | _, [] => []
  | used, x :: xs => if max < used + size x then [] else x :: fit size max (used + size x) xs

/-- What a change asks of the table it comes to. -/
def Fits (t : List α) : Change κ α → Prop
  | .add a => look keyOf t (keyOf a) = none
  | .mod a => look keyOf t (keyOf a) ≠ none
  | .del k => look keyOf t k ≠ none

/-- `t'` is `t` with `v` under the key `k`. -/
structure Sets (t : List α) (k : κ) (v : Option α) (t' : List α) : Prop where
  nodup : (t'.map keyOf).Nodup
  get : ∀ k', look keyOf t' k' = if k' = k then v else look keyOf t k'

/-- The changes of a message, one after the other, up to a new entry without
room. -/
inductive Applied (cap : Nat) : List α → List (Change κ α) → List α → Prop where
  | done (t : List α) : Applied cap t [] t
  | full {t : List α} {a : α} {cs : List (Change κ α)} (h : cap ≤ t.length) :
      Applied cap t (.add a :: cs) t
  | step {t t' t'' : List α} {c : Change κ α} {cs : List (Change κ α)}
      (room : c.goal ≠ none → look keyOf t (c.key keyOf) = none → t.length < cap)
      (sets : Sets keyOf t (c.key keyOf) c.goal t') (rest : Applied cap t' cs t'') :
      Applied cap t (c :: cs) t''

/-! ## Entries and keys -/

section Look

variable {keyOf} {t t' s : List α} {k : κ} {a b : α}

theorem key_of_look (h : look keyOf t k = some a) : keyOf a = k := by
  have := find?_some h
  exact of_decide_eq_true this

theorem mem_of_look (h : look keyOf t k = some a) : a ∈ t := mem_of_find?_eq_some h

theorem look_eq_none : look keyOf t k = none ↔ k ∉ t.map keyOf := by
  simp [look]

theorem look_of_mem (hnd : (t.map keyOf).Nodup) (h : a ∈ t) : look keyOf t (keyOf a) = some a := by
  cases hl : look keyOf t (keyOf a) with
  | none => exact absurd (mem_map_of_mem h) (look_eq_none.mp hl)
  | some b =>
    have hinj := inj_on_of_nodup_map hnd
    rw [hinj (mem_of_look hl) h (key_of_look hl)]

theorem look_eq_some (hnd : (t.map keyOf).Nodup) : look keyOf t k = some a ↔ a ∈ t ∧ keyOf a = k := by
  constructor
  · intro h
    exact ⟨mem_of_look h, key_of_look h⟩
  · rintro ⟨h, rfl⟩
    exact look_of_mem hnd h

theorem perm_of_look (ht : (t.map keyOf).Nodup) (hs : (s.map keyOf).Nodup)
    (h : ∀ k, look keyOf t k = look keyOf s k) : t.Perm s := by
  apply (perm_ext_iff_of_nodup (List.Nodup.of_map keyOf ht) (List.Nodup.of_map keyOf hs)).mpr
  intro a
  constructor
  · intro ha
    exact mem_of_look ((h (keyOf a)).symm.trans (look_of_mem ht ha))
  · intro ha
    exact mem_of_look ((h (keyOf a)).trans (look_of_mem hs ha))

theorem look_perm (ht : (t.map keyOf).Nodup) (h : t.Perm s) (k : κ) : look keyOf t k = look keyOf s k := by
  have hs : (s.map keyOf).Nodup := (h.map keyOf).nodup_iff.mp ht
  apply Option.ext
  intro a
  rw [look_eq_some ht, look_eq_some hs, h.mem_iff]

variable (keyOf) in
def keys (t : List α) : Finset κ := (t.map keyOf).toFinset

theorem mem_keys : k ∈ keys keyOf t ↔ look keyOf t k ≠ none := by
  rw [ne_eq, look_eq_none, keys, mem_toFinset, not_not]

theorem card_keys (h : (t.map keyOf).Nodup) : (keys keyOf t).card = t.length := by
  rw [keys, toFinset_card_of_nodup h, length_map]

theorem look_cons_of_ne (h : k ≠ keyOf a) (t : List α) : look keyOf (a :: t) k = look keyOf t k :=
  find?_cons_of_neg (by simpa using Ne.symm h)

theorem look_append (t s : List α) (k : κ) :
    look keyOf (t ++ s) k = (look keyOf t k).or (look keyOf s k) := find?_append

/-! ### Setting one entry -/

theorem Sets.add (ht : (t.map keyOf).Nodup) (hnew : look keyOf t (keyOf a) = none)
    (h : t'.Perm (a :: t)) : Sets keyOf t (keyOf a) (some a) t' := by
  have hcons : ((a :: t).map keyOf).Nodup := by
    rw [map_cons, nodup_cons]
    exact ⟨look_eq_none.mp hnew, ht⟩
  have hnd : (t'.map keyOf).Nodup := (h.map keyOf).nodup_iff.mpr hcons
  refine ⟨hnd, fun k' => ?_⟩
  rw [look_perm hnd h k']
  by_cases hk : k' = keyOf a
  · rw [if_pos hk, hk, look_of_mem hcons mem_cons_self]
  · rw [if_neg hk, look_cons_of_ne hk]

theorem Sets.mod {l1 l2 : List α} (ht : ((l1 ++ b :: l2).map keyOf).Nodup) (hk : keyOf b = keyOf a) :
    Sets keyOf (l1 ++ b :: l2) (keyOf a) (some a) (l1 ++ a :: l2) := by
  have hmap : (l1 ++ a :: l2).map keyOf = (l1 ++ b :: l2).map keyOf := by
    simp [hk]
  have hnd : ((l1 ++ a :: l2).map keyOf).Nodup := by
    rw [hmap]
    exact ht
  refine ⟨hnd, fun k' => ?_⟩
  by_cases hk' : k' = keyOf a
  · rw [if_pos hk', hk', look_of_mem hnd (by simp)]
  · rw [if_neg hk', look_append, look_append, look_cons_of_ne hk', look_cons_of_ne (hk ▸ hk')]

theorem Sets.del {l1 l2 : List α} (ht : ((l1 ++ b :: l2).map keyOf).Nodup) :
    Sets keyOf (l1 ++ b :: l2) (keyOf b) none (l1 ++ l2) := by
  rw [map_append, map_cons, nodup_middle, nodup_cons] at ht
  have hnd : ((l1 ++ l2).map keyOf).Nodup := by
    rw [map_append]
    exact ht.2
  refine ⟨hnd, fun k' => ?_⟩
  by_cases hk : k' = keyOf b
  · rw [if_pos hk, hk, look_eq_none, map_append]
    exact ht.1
  · rw [if_neg hk, look_append, look_append, look_cons_of_ne hk]

theorem Sets.fits {v : Option α} {c : Change κ α} (h : Sets keyOf t k v t') (hne : c.key keyOf ≠ k)
    (hf : Fits keyOf t c) : Fits keyOf t' c := by
  have hlook : look keyOf t' (c.key keyOf) = look keyOf t (c.key keyOf) := by
    rw [h.get, if_neg hne]
  cases c with
  | add a => exact hlook.trans hf
  | mod a => exact fun hn => hf (hlook.symm.trans hn)
  | del k => exact fun hn => hf (hlook.symm.trans hn)

theorem Sets.keys_some {v : α} (h : Sets keyOf t k (some v) t') : keys keyOf t' = insert k (keys keyOf t) := by
  ext k'
  rw [Finset.mem_insert, mem_keys, mem_keys, h.get]
  by_cases hk : k' = k <;> simp [hk]

theorem Sets.keys_subset {v : Option α} (h : Sets keyOf t k v t') :
    keys keyOf t' ⊆ insert k (keys keyOf t) := by
  intro k' hk'
  rw [mem_keys, h.get] at hk'
  rw [Finset.mem_insert, mem_keys]
  by_cases hk : k' = k
  · exact .inl hk
  · exact .inr (by rwa [if_neg hk] at hk')

end Look

/-! ## The changes of a target -/

section Changes

variable {keyOf} [DecidableEq α] {S C : List α} {c : Change κ α} {k : κ} {a : α}

theorem up_cases (h : up keyOf C a = some c) : c = .add a ∧ look keyOf C (keyOf a) = none ∨
      c = .mod a ∧ ∃ b, look keyOf C (keyOf a) = some b ∧ a ≠ b := by
  unfold up at h
  split at h
  · rename_i hl
    cases h
    exact .inl ⟨rfl, hl⟩
  · rename_i b hl
    split at h
    · cases h
    · rename_i hne
      cases h
      exact .inr ⟨rfl, b, hl, hne⟩

theorem key_of_up (h : up keyOf C a = some c) : c.key keyOf = keyOf a := by
  rcases up_cases h with ⟨rfl, -⟩ | ⟨rfl, -⟩ <;> rfl

theorem goal_of_up (h : up keyOf C a = some c) :
    c.goal = some a ∧ look keyOf C (keyOf a) ≠ some a := by
  rcases up_cases h with ⟨rfl, hl⟩ | ⟨rfl, b, hl, hne⟩
  · exact ⟨rfl, by simp [hl]⟩
  · exact ⟨rfl, by simp [hl, Ne.symm hne]⟩

theorem up_isSome (h : look keyOf C (keyOf a) ≠ some a) : ∃ c, up keyOf C a = some c := by
  unfold up
  split
  · exact ⟨_, rfl⟩
  rename_i b hl
  rw [if_neg]
  · exact ⟨_, rfl⟩
  · rintro rfl
    exact h hl

theorem mem_ups : c ∈ ups keyOf S C ↔ ∃ a ∈ S, up keyOf C a = some c := mem_filterMap

omit [DecidableEq α] in
theorem mem_dels : c ∈ dels keyOf S C ↔ ∃ b ∈ C, look keyOf S (keyOf b) = none ∧ c = .del (keyOf b) := by
  simp only [dels, mem_map, mem_filter, Option.isNone_iff_eq_none]
  constructor
  · rintro ⟨b, ⟨hb, hn⟩, rfl⟩
    exact ⟨b, hb, hn, rfl⟩
  · rintro ⟨b, hb, hn, rfl⟩
    exact ⟨b, ⟨hb, hn⟩, rfl⟩

/-- A change of the list sets a key that differs to its state in the target. -/
theorem mem_changes (hS : (S.map keyOf).Nodup) (hC : (C.map keyOf).Nodup) (h : c ∈ changes keyOf S C) :
    c.goal = look keyOf S (c.key keyOf) ∧ look keyOf C (c.key keyOf) ≠ look keyOf S (c.key keyOf) := by
  rw [changes, mem_append] at h
  rcases h with h | h
  · obtain ⟨a, ha, hup⟩ := mem_ups.mp h
    rw [key_of_up hup, look_of_mem hS ha]
    exact goal_of_up hup
  · obtain ⟨b, hb, hn, rfl⟩ := mem_dels.mp h
    show none = look keyOf S (keyOf b) ∧ look keyOf C (keyOf b) ≠ look keyOf S (keyOf b)
    rw [hn, look_of_mem hC hb]
    exact ⟨rfl, Option.some_ne_none b⟩

theorem fits_of_changes (hC : (C.map keyOf).Nodup) (h : c ∈ changes keyOf S C) : Fits keyOf C c := by
  rcases mem_append.mp h with hu | hd
  · obtain ⟨a, -, hup⟩ := mem_ups.mp hu
    rcases up_cases hup with ⟨rfl, hl⟩ | ⟨rfl, b, hl, -⟩
    · exact hl
    · exact Option.ne_none_iff_exists'.mpr ⟨b, hl⟩
  · obtain ⟨b, hb, -, rfl⟩ := mem_dels.mp hd
    exact Option.ne_none_iff_exists'.mpr ⟨b, look_of_mem hC hb⟩

theorem exists_change (hne : look keyOf C k ≠ look keyOf S k) : ∃ c ∈ changes keyOf S C, c.key keyOf = k := by
  cases hl : look keyOf S k with
  | some a =>
    obtain rfl := key_of_look hl
    rw [hl] at hne
    obtain ⟨c, hc⟩ := up_isSome hne
    exact ⟨c, mem_append_left _ (mem_ups.mpr ⟨a, mem_of_look hl, hc⟩), key_of_up hc⟩
  | none =>
    cases hb : look keyOf C k with
    | none => exact absurd (hb.trans hl.symm) hne
    | some b =>
      obtain rfl := key_of_look hb
      exact ⟨_, mem_append_right _ (mem_dels.mpr ⟨b, mem_of_look hb, hl, rfl⟩), rfl⟩

theorem ups_keys_sublist (S C : List α) :
    ((ups keyOf S C).map (Change.key keyOf)).Sublist (S.map keyOf) := by
  induction S with
  | nil => exact .refl _
  | cons a S ih =>
    rw [ups, filterMap_cons]
    cases h : up keyOf C a with
    | none => exact ih.cons (keyOf a)
    | some c =>
      rw [map_cons, key_of_up h]
      exact ih.cons_cons (keyOf a)

theorem nodup_changes (hS : (S.map keyOf).Nodup) (hC : (C.map keyOf).Nodup) :
    ((changes keyOf S C).map (Change.key keyOf)).Nodup := by
  have hdels : (dels keyOf S C).map (Change.key keyOf) =
      (C.filter fun b => (look keyOf S (keyOf b)).isNone).map keyOf := by
    rw [dels, map_map]
    rfl
  rw [changes, map_append, nodup_append]
  refine ⟨(ups_keys_sublist S C).nodup hS, ?_, ?_⟩
  · rw [hdels]
    exact (filter_sublist.map keyOf).nodup hC
  intro k hk k' hk' heq
  subst heq
  obtain ⟨c, hc, rfl⟩ := mem_map.mp hk'
  obtain ⟨b, -, hn, rfl⟩ := mem_dels.mp hc
  exact look_eq_none.mp hn ((ups_keys_sublist S C).subset hk)

theorem goal_ne_none_of_ups (h : c ∈ ups keyOf S C) : c.goal ≠ none ∧ c.key keyOf ∈ keys keyOf S := by
  obtain ⟨a, ha, hup⟩ := mem_ups.mp h
  rw [(goal_of_up hup).1, key_of_up hup, keys, mem_toFinset]
  exact ⟨Option.some_ne_none a, mem_map_of_mem ha⟩

omit [DecidableEq α] in
theorem goal_of_dels (h : c ∈ dels keyOf S C) : c.goal = none := by
  obtain ⟨b, -, -, rfl⟩ := mem_dels.mp h
  rfl

theorem mem_keys_or_ups (hk : k ∈ keys keyOf S) :
    k ∈ keys keyOf C ∨ ∃ c ∈ ups keyOf S C, c.key keyOf = k := by
  by_cases hc : k ∈ keys keyOf C
  · exact .inl hc
  right
  obtain ⟨a, ha, rfl⟩ := mem_map.mp (mem_toFinset.mp hk)
  have hn : look keyOf C (keyOf a) = none := by
    by_contra h
    exact hc (mem_keys.mpr h)
  obtain ⟨c, hup⟩ := up_isSome (by rw [hn]; exact (Option.some_ne_none a).symm)
  exact ⟨c, mem_ups.mpr ⟨a, ha, hup⟩, key_of_up hup⟩

end Changes

/-! ## A message -/

section Message

variable {keyOf} {cap : Nat} {S C C' t t' : List α} {cs : List (Change κ α)} {β : Type} {max : Nat}

theorem fit_prefix (size : β → Nat) (max : Nat) :
    ∀ xs used, fit size max used xs <+: xs := by
  intro xs
  induction xs with
  | nil => exact fun _ => nil_prefix
  | cons x xs ih =>
    intro used
    rw [fit]
    split
    · exact nil_prefix
    · exact (cons_prefix_cons).mpr ⟨rfl, ih _⟩

theorem length_fit {size : β → Nat} {m : Nat} (hm : 0 < m) :
    ∀ {xs} {used}, (∀ x ∈ xs, size x = m) →
      (fit size max used xs).length = min xs.length ((max - used) / m) := by
  intro xs
  induction xs with
  | nil => simp [fit]
  | cons x xs ih =>
    intro used h
    have hx := h x mem_cons_self
    rw [fit, hx]
    split
    · rw [Nat.div_eq_of_lt (by omega)]
      simp
    · rw [length_cons, ih fun y hy => h y (mem_cons_of_mem _ hy), length_cons,
        Nat.div_eq_sub_div hm (by omega : m ≤ max - used), Nat.sub_sub]
      omega

theorem length_fit_le {size : β → Nat} {m : Nat} :
    ∀ {xs} {used}, (∀ x ∈ xs, m ≤ size x) →
      m * (fit size max used xs).length ≤ max - used := by
  intro xs
  induction xs with
  | nil => simp [fit]
  | cons x xs ih =>
    intro used h
    have hx := h x mem_cons_self
    rw [fit]
    split
    · simp
    · have hxs : m * (fit size max (used + size x) xs).length ≤ max - (used + size x) :=
        ih fun y hy => h y (mem_cons_of_mem _ hy)
      rw [length_cons, mul_add]
      omega

theorem fit_ne_nil {size : β → Nat} {used : Nat} {xs : List β} (hne : xs ≠ [])
    (h : ∀ x ∈ xs, used + size x ≤ max) : fit size max used xs ≠ [] := by
  cases xs with
  | nil => exact absurd rfl hne
  | cons x xs =>
    rw [fit, if_neg (not_lt.mpr (h x mem_cons_self))]
    exact cons_ne_nil _ _

/-- A list in two parts: where the first part fits, the second is cut behind it,
else the first part is cut. -/
theorem fit_append (size : β → Nat) (max : Nat) (ys : List β) : ∀ xs used,
      (fit size max used xs = xs →
        fit size max used (xs ++ ys) = xs ++ fit size max (used + (xs.map size).sum) ys) ∧
      (fit size max used xs ≠ xs → fit size max used (xs ++ ys) = fit size max used xs) := by
  intro xs
  induction xs with
  | nil => simp [fit]
  | cons x xs ih =>
    intro used
    rw [cons_append, fit, fit]
    by_cases hlt : max < used + size x
    · simp [hlt]
    rw [if_neg hlt, if_neg hlt, map_cons, sum_cons, ← add_assoc]
    obtain ⟨heq, hne⟩ := ih (used + size x)
    constructor
    · intro h
      rw [heq (List.cons.inj h).2, cons_append]
    · intro h
      rw [hne fun h' => h (by rw [h'])]

variable (keyOf) in
/-- What a front part of the changes does where there is room for all keys. -/
structure Progress (S C C' : List α) (cs : List (Change κ α)) : Prop where
  nodup : (C'.map keyOf).Nodup
  room : keys keyOf C' ∪ keys keyOf S ⊆ keys keyOf C ∪ keys keyOf S
  set : ∀ c ∈ cs, look keyOf C' (c.key keyOf) = look keyOf S (c.key keyOf)
  frame : ∀ k, (∀ c ∈ cs, c.key keyOf ≠ k) → look keyOf C' k = look keyOf C k

theorem Applied.of_room (h : Applied keyOf cap t cs t') (hnd : (t.map keyOf).Nodup)
    (hcs : (cs.map (Change.key keyOf)).Nodup) (hfits : ∀ c ∈ cs, Fits keyOf t c)
    (hgoal : ∀ c ∈ cs, c.goal = look keyOf S (c.key keyOf))
    (hroom : (keys keyOf t ∪ keys keyOf S).card ≤ cap) : Progress keyOf S t t' cs := by
  induction h with
  | done t => exact ⟨hnd, Finset.Subset.refl _, fun c hc => by simp at hc, fun _ _ => rfl⟩
  | @full t a cs hfull =>
    -- the key of the new entry is one more than the table has
    have hmem : keyOf a ∈ keys keyOf S :=
      mem_keys.mpr ((hgoal (.add a) mem_cons_self).symm.trans_ne (Option.some_ne_none a))
    have hnew : keyOf a ∉ keys keyOf t := fun hk =>
      mem_keys.mp hk (hfits (.add a) mem_cons_self)
    have hle : (insert (keyOf a) (keys keyOf t)).card ≤ (keys keyOf t ∪ keys keyOf S).card := by
      apply Finset.card_le_card
      intro k hk
      rcases Finset.mem_insert.mp hk with rfl | hk
      · exact Finset.mem_union_right _ hmem
      · exact Finset.mem_union_left _ hk
    rw [Finset.card_insert_of_notMem hnew, card_keys hnd] at hle
    omega
  | @step t t1 t2 c cs hcap hsets hrest ih =>
    rw [map_cons, nodup_cons] at hcs
    have hother : ∀ c' ∈ cs, c'.key keyOf ≠ c.key keyOf := fun c' hc' he =>
      hcs.1 (he ▸ mem_map_of_mem hc')
    have hset : look keyOf t1 (c.key keyOf) = look keyOf S (c.key keyOf) := by
      rw [hsets.get, if_pos rfl, hgoal c mem_cons_self]
    have hsub : keys keyOf t1 ∪ keys keyOf S ⊆ keys keyOf t ∪ keys keyOf S := by
      apply Finset.union_subset _ Finset.subset_union_right
      intro k hk
      rcases Finset.mem_insert.mp (hsets.keys_subset hk) with rfl | hk'
      · exact Finset.mem_union_right _ (mem_keys.mpr (hset ▸ mem_keys.mp hk))
      · exact Finset.mem_union_left _ hk'
    have hp := ih hsets.nodup hcs.2
      (fun c' hc' => hsets.fits (hother c' hc') (hfits c' (mem_cons_of_mem _ hc')))
      (fun c' hc' => hgoal c' (mem_cons_of_mem _ hc'))
      (le_trans (Finset.card_le_card hsub) hroom)
    refine ⟨hp.nodup, hp.room.trans hsub, fun c' hc' => ?_, fun k hk => ?_⟩
    · rcases mem_cons.mp hc' with rfl | hc'
      · rw [hp.frame _ hother, hset]
      · exact hp.set c' hc'
    · rw [hp.frame k fun c' hc' => hk c' (mem_cons_of_mem _ hc'), hsets.get,
        if_neg (Ne.symm (hk c mem_cons_self))]

theorem Applied.mem (h : Applied keyOf cap t cs t') (hnd : (t.map keyOf).Nodup) {a : α}
    (ha : a ∈ t') : a ∈ t ∨ ∃ c ∈ cs, c.goal = some a := by
  induction h with
  | done t => exact .inl ha
  | full => exact .inl ha
  | @step t t1 t2 c cs _ hsets _ ih =>
    rcases ih hsets.nodup ha with h | ⟨c', hc', hg⟩
    · have hl := look_of_mem hsets.nodup h
      rw [hsets.get] at hl
      split at hl
      · exact .inr ⟨c, mem_cons_self, hl⟩
      · exact .inl (mem_of_look hl)
    · exact .inr ⟨c', mem_cons_of_mem _ hc', hg⟩

/-- Not enough room: `us` are the changes before the deletions `ds`. -/
theorem Applied.blocked_aux {us ds : List (Change κ α)} (hds : ∀ c ∈ ds, c.goal = none) :
    ∀ {t}, Applied keyOf cap t (us ++ ds) t' → (t.map keyOf).Nodup → t.length ≤ cap →
      (∀ c ∈ us, c.goal ≠ none ∧ c.key keyOf ∈ keys keyOf S) →
      (ds ≠ [] → ∀ k ∈ keys keyOf S, k ∈ keys keyOf t ∨ ∃ c ∈ us, c.key keyOf = k) →
      cap < (keys keyOf t ∪ keys keyOf S).card →
      (t'.map keyOf).Nodup ∧ t'.length ≤ cap ∧ keys keyOf t' ∪ keys keyOf S = keys keyOf t ∪ keys keyOf S := by
  induction us with
  | nil =>
    intro t h hnd hlen _ hall hcard
    cases ds with
    | nil =>
      cases h
      exact ⟨hnd, hlen, rfl⟩
    | cons c ds =>
      -- all keys of the target are in the table, which has room for them
      have hsub : keys keyOf S ⊆ keys keyOf t := fun k hk =>
        (hall (cons_ne_nil _ _) k hk).resolve_right (by simp)
      rw [Finset.union_eq_left.mpr hsub, card_keys hnd] at hcard
      omega
  | cons c us ih =>
    intro t h hnd hlen hus hall hcard
    cases h with
    | full => exact ⟨hnd, hlen, rfl⟩
    | @step t t1 _ _ _ hroom hsets hrest =>
      obtain ⟨hgoal, hmem⟩ := hus c mem_cons_self
      obtain ⟨v, hv⟩ := Option.ne_none_iff_exists'.mp hgoal
      have hkeys : keys keyOf t1 = insert (c.key keyOf) (keys keyOf t) := by
        rw [hv] at hsets
        exact hsets.keys_some
      have hun : keys keyOf t1 ∪ keys keyOf S = keys keyOf t ∪ keys keyOf S := by
        rw [hkeys, Finset.insert_union, Finset.insert_eq_of_mem (Finset.mem_union_right _ hmem)]
      have hlen1 : t1.length ≤ cap := by
        rw [← card_keys hsets.nodup, hkeys]
        by_cases hin : c.key keyOf ∈ keys keyOf t
        · rw [Finset.insert_eq_of_mem hin, card_keys hnd]
          exact hlen
        have hlook : look keyOf t (c.key keyOf) = none := by
          by_contra hl
          exact hin (mem_keys.mpr hl)
        rw [Finset.card_insert_of_notMem hin, card_keys hnd]
        exact hroom hgoal hlook
      obtain ⟨h1, h2, h3⟩ := ih hrest hsets.nodup hlen1
        (fun c' hc' => hus c' (mem_cons_of_mem _ hc'))
        (fun hne k hk => by
          rcases hall hne k hk with hk | ⟨c', hc', rfl⟩
          · exact .inl (by rw [hkeys]; exact Finset.mem_insert_of_mem hk)
          · rcases mem_cons.mp hc' with rfl | hc'
            · exact .inl (by rw [hkeys]; exact Finset.mem_insert_self _ _)
            · exact .inr ⟨c', hc', rfl⟩)
        (by rw [hun]; exact hcard)
      exact ⟨h1, h2, h3.trans hun⟩

variable [DecidableEq α]

/-- A front part of the changes: some that set, and deletions only behind all of
them. -/
theorem prefix_changes (h : cs <+: changes keyOf S C) :
    ∃ us ds, cs = us ++ ds ∧ us <+: ups keyOf S C ∧ ds <+: dels keyOf S C ∧
      (ds ≠ [] → us = ups keyOf S C) := by
  have hups : ups keyOf S C <+: changes keyOf S C := prefix_append _ _
  rcases le_total cs.length (ups keyOf S C).length with hle | hle
  · exact ⟨cs, [], (append_nil cs).symm, prefix_of_prefix_length_le h hups hle,
      nil_prefix, fun hne => absurd rfl hne⟩
  · obtain ⟨ds, rfl⟩ := prefix_of_prefix_length_le hups h hle
    exact ⟨_, ds, rfl, prefix_rfl, (prefix_append_right_inj _).mp h, fun _ => rfl⟩

/-- **Not enough room for all keys.** A message deletes nothing, and there is not
enough room afterwards. -/
theorem Applied.blocked (h : Applied keyOf cap C cs C') (hp : cs <+: changes keyOf S C)
    (hnd : (C.map keyOf).Nodup) (hlen : C.length ≤ cap)
    (hcard : cap < (keys keyOf C ∪ keys keyOf S).card) :
    (C'.map keyOf).Nodup ∧ C'.length ≤ cap ∧ keys keyOf C' ∪ keys keyOf S = keys keyOf C ∪ keys keyOf S := by
  obtain ⟨us, ds, rfl, hus, hds, hall⟩ := prefix_changes hp
  refine Applied.blocked_aux (fun c hc => goal_of_dels (hds.subset hc)) h hnd hlen
    (fun c hc => goal_ne_none_of_ups (hus.subset hc)) (fun hne k hk => ?_) hcard
  rw [hall hne]
  exact mem_keys_or_ups hk

/-! ## Progress -/

variable (keyOf) in
/-- The keys under which table and target differ. -/
def diff (S C : List α) : Finset κ :=
  (keys keyOf C ∪ keys keyOf S).filter fun k => look keyOf C k ≠ look keyOf S k

theorem mem_diff {k : κ} : k ∈ diff keyOf S C ↔ look keyOf C k ≠ look keyOf S k := by
  rw [diff, Finset.mem_filter, Finset.mem_union, mem_keys, mem_keys]
  constructor
  · exact And.right
  intro hne
  refine ⟨?_, hne⟩
  by_contra h
  rw [not_or, not_not, not_not] at h
  exact hne (h.1.trans h.2.symm)

theorem Applied.progress (h : Applied keyOf cap C cs C') (hp : cs <+: changes keyOf S C)
    (hS : (S.map keyOf).Nodup) (hC : (C.map keyOf).Nodup)
    (hroom : (keys keyOf C ∪ keys keyOf S).card ≤ cap) : Progress keyOf S C C' cs :=
  h.of_room hC ((hp.sublist.map _).nodup (nodup_changes hS hC))
    (fun _ hc => fits_of_changes hC (hp.subset hc))
    (fun _ hc => (mem_changes hS hC (hp.subset hc)).1) hroom

/-- Fewer keys differ after a message that carries a change. -/
theorem Progress.card_diff_lt (h : Progress keyOf S C C' cs) (hp : cs <+: changes keyOf S C)
    (hS : (S.map keyOf).Nodup) (hC : (C.map keyOf).Nodup) (hne : cs ≠ []) :
    (diff keyOf S C').card < (diff keyOf S C).card := by
  obtain ⟨c, hc⟩ := exists_mem_of_ne_nil cs hne
  apply Finset.card_lt_card
  rw [Finset.ssubset_iff_of_subset]
  · refine ⟨c.key keyOf, mem_diff.mpr (mem_changes hS hC (hp.subset hc)).2, fun hd => ?_⟩
    exact mem_diff.mp hd (h.set c hc)
  intro k hk
  rw [mem_diff] at hk ⊢
  by_cases hck : ∃ c ∈ cs, c.key keyOf = k
  · obtain ⟨c', hc', rfl⟩ := hck
    exact absurd (h.set c' hc') hk
  · rw [h.frame k fun c' hc' he => hck ⟨c', hc', he⟩] at hk
    exact hk

end Message

end DesPwd.TableSync
