import Mathlib.Data.List.Basic

/-!
# The contract of an ordered map

A map ordered by a comparison that its user gives, as a library such as the C++
one specifies it: what the operations do is promised only while the comparison
is a strict weak order on the keys they meet. `Map` is that contract and nothing
more; a program is right when it is right over every map that keeps it.

* `pushAll_perm`: values gathered under keys that the comparison orders: each of
  them is in exactly one entry.
* `lossy_pushAll`: the contract allows a map that loses every value as soon as
  the comparison does not order the keys.
-/
namespace DesPwd.OrderedMap

open List

variable {K V A : Type} {lt : K → K → Bool}

/-- Neither key is before the other. -/
def Equiv (lt : K → K → Bool) (x y : K) : Prop := lt x y = false ∧ lt y x = false

theorem Equiv.symm {x y : K} (h : Equiv lt x y) : Equiv lt y x := ⟨h.2, h.1⟩

/-- `lt` is a strict weak order on `ks`. -/
structure StrictWeak (lt : K → K → Bool) (ks : List K) : Prop where
  irrefl : ∀ x ∈ ks, lt x x = false
  trans : ∀ x ∈ ks, ∀ y ∈ ks, ∀ z ∈ ks, lt x y = true → lt y z = true → lt x z = true
  equiv_trans : ∀ x ∈ ks, ∀ y ∈ ks, ∀ z ∈ ks, Equiv lt x y → Equiv lt y z → Equiv lt x z

theorem StrictWeak.mono {ks ls : List K} (h : StrictWeak lt ks) (hsub : ∀ k ∈ ls, k ∈ ks) :
    StrictWeak lt ls where
  irrefl x hx := h.irrefl x (hsub x hx)
  trans x hx y hy z hz := h.trans x (hsub x hx) y (hsub y hy) z (hsub z hz)
  equiv_trans x hx y hy z hz := h.equiv_trans x (hsub x hx) y (hsub y hy) z (hsub z hz)

def keys (es : List (K × V)) : List K := es.map Prod.fst

/-- No two entries have equivalent keys. -/
def Distinct (lt : K → K → Bool) (es : List (K × V)) : Prop :=
  es.Pairwise fun a b => ¬ Equiv lt a.1 b.1

theorem Distinct.perm {es fs : List (K × V)} (h : Distinct lt es) (hp : es.Perm fs) :
    Distinct lt fs :=
  hp.pairwise h fun hab hba => hab hba.symm

/-- A map: its entries in the order of an iteration, `find`, and the assignment
`m[k] = v`. -/
structure Map (K V : Type) (lt : K → K → Bool) where
  T : Type
  empty : T
  entries : T → List (K × V)
  find : T → K → Option V
  set : T → K → V → T
  entries_empty : entries empty = []
  find_some : ∀ t k v, StrictWeak lt (k :: keys (entries t)) → find t k = some v →
    ∃ k', Equiv lt k k' ∧ (k', v) ∈ entries t
  find_none : ∀ t k, StrictWeak lt (k :: keys (entries t)) → find t k = none →
    ∀ e ∈ entries t, ¬ Equiv lt k e.1
  set_new : ∀ t k v, StrictWeak lt (k :: keys (entries t)) →
    (∀ e ∈ entries t, ¬ Equiv lt k e.1) → (entries (set t k v)).Perm ((k, v) :: entries t)
  set_old : ∀ t k v k' v' es, StrictWeak lt (k :: keys (entries t)) → Distinct lt (entries t) →
    Equiv lt k k' → (entries t).Perm ((k', v') :: es) → (entries (set t k v)).Perm ((k', v) :: es)

/-! ## Gathering values under keys -/

namespace Map

variable (M : Map K (List A) lt)

/-- One more value under a key. -/
def push (t : M.T) (p : K × A) : M.T :=
  match M.find t p.1 with
  | some l => M.set t p.1 (l ++ [p.2])
  | none => M.set t p.1 [p.2]

def pushAll (t : M.T) (ps : List (K × A)) : M.T := ps.foldl M.push t

/-- Everything that was gathered. -/
def values (t : M.T) : List A := (M.entries t).flatMap Prod.snd

variable {M} {t : M.T} {p : K × A}

section

variable (hs : StrictWeak lt (p.1 :: keys (M.entries t)))
include hs

variable (hd : Distinct lt (M.entries t))
include hd

/-- What one more value does to the entries. -/
theorem push_entries : ((∀ e ∈ M.entries t, ¬ Equiv lt p.1 e.1) ∧
      (M.entries (M.push t p)).Perm ((p.1, [p.2]) :: M.entries t)) ∨
    ∃ k l es, (M.entries t).Perm ((k, l) :: es) ∧
      (M.entries (M.push t p)).Perm ((k, l ++ [p.2]) :: es) := by
  unfold push
  cases hf : M.find t p.1 with
  | none =>
    have hnone := M.find_none t p.1 hs hf
    exact .inl ⟨hnone, M.set_new t p.1 [p.2] hs hnone⟩
  | some l =>
    obtain ⟨k, hk, hmem⟩ := M.find_some t p.1 l hs hf
    obtain ⟨s, s', he⟩ := append_of_mem hmem
    have hp : (M.entries t).Perm ((k, l) :: (s ++ s')) := he ▸ perm_middle
    exact .inr ⟨k, l, s ++ s', hp, M.set_old t p.1 (l ++ [p.2]) k l (s ++ s') hs hd hk hp⟩

theorem push_distinct : Distinct lt (M.entries (M.push t p)) := by
  obtain ⟨hnone, hp⟩ | ⟨k, l, es, ht, hp⟩ := push_entries hs hd
  · exact Distinct.perm (pairwise_cons.mpr ⟨hnone, hd⟩) hp.symm
  · obtain ⟨hk, hes⟩ := pairwise_cons.mp (hd.perm ht)
    have hd' : Distinct lt ((k, l ++ [p.2]) :: es) := pairwise_cons.mpr ⟨hk, hes⟩
    exact hd'.perm hp.symm

theorem push_keys :
    ∀ k ∈ keys (M.entries (M.push t p)), k ∈ p.1 :: keys (M.entries t) := by
  intro k hk
  obtain ⟨-, hp⟩ | ⟨k', l, es, ht, hp⟩ := push_entries hs hd
  · exact (hp.map Prod.fst).mem_iff.mp hk
  · have hk' : k ∈ k' :: es.map Prod.fst := (hp.map Prod.fst).mem_iff.mp hk
    exact mem_cons_of_mem _ ((ht.map Prod.fst).mem_iff.mpr hk')

theorem push_values : (M.values (M.push t p)).Perm (M.values t ++ [p.2]) := by
  obtain ⟨-, hp⟩ | ⟨k, l, es, ht, hp⟩ := push_entries hs hd
  · exact (hp.flatMap_right Prod.snd).trans perm_append_comm
  have hv : (M.values t).Perm (l ++ es.flatMap Prod.snd) := ht.flatMap_right Prod.snd
  calc (M.values (M.push t p)).Perm (l ++ [p.2] ++ es.flatMap Prod.snd) :=
        hp.flatMap_right Prod.snd
    _ = l ++ ([p.2] ++ es.flatMap Prod.snd) := append_assoc ..
    List.Perm _ (l ++ (es.flatMap Prod.snd ++ [p.2])) := perm_append_comm.append_left l
    _ = l ++ es.flatMap Prod.snd ++ [p.2] := (append_assoc ..).symm
    List.Perm _ (M.values t ++ [p.2]) := hv.symm.append_right [p.2]

end

/-- Under keys that the comparison orders every value is kept, once. -/
theorem pushAll_values {ps : List (K × A)} :
    ∀ {t}, StrictWeak lt (keys ps ++ keys (M.entries t)) → Distinct lt (M.entries t) →
      (M.values (M.pushAll t ps)).Perm (M.values t ++ ps.map Prod.snd) := by
  induction ps with
  | nil =>
    simp [pushAll]
  | cons p ps ih =>
    intro t hs hd
    have hs1 : StrictWeak lt (p.1 :: keys (M.entries t)) := by
      refine hs.mono fun k hk => ?_
      simp only [keys, map_cons, cons_append, mem_cons, mem_append] at hk ⊢
      exact hk.imp_right .inr
    have hs2 : StrictWeak lt (keys ps ++ keys (M.entries (M.push t p))) := by
      refine hs.mono fun k hk => ?_
      rcases mem_append.mp hk with hk | hk
      · exact mem_cons_of_mem _ (mem_append_left _ hk)
      · rcases mem_cons.mp (push_keys hs1 hd k hk) with rfl | hk
        · exact mem_cons_self
        · exact mem_cons_of_mem _ (mem_append_right _ hk)
    have h := (ih hs2 (push_distinct hs1 hd)).trans ((push_values hs1 hd).append_right _)
    rw [append_assoc] at h
    exact h

theorem pushAll_perm {ps : List (K × A)} (hs : StrictWeak lt (keys ps)) :
    (M.values (M.pushAll M.empty ps)).Perm (ps.map Prod.snd) := by
  have h := @pushAll_values K A lt M ps M.empty
  simp only [values, M.entries_empty, keys, map_nil, append_nil] at h
  exact h hs List.Pairwise.nil

end Map

/-! ## A map that keeps the contract and no more -/

section Lossy

open Classical

/-- The assignment in an association list. -/
noncomputable def assign (lt : K → K → Bool) (es : List (K × V)) (k : K) (v : V) : List (K × V) :=
  if ∃ e ∈ es, Equiv lt k e.1 then es.map fun e => if Equiv lt k e.1 then (e.1, v) else e
  else (k, v) :: es

variable {es : List (K × V)} {k : K} {v : V}

theorem assign_old {fs : List (K × V)} {k' : K} {v' : V}
    (hs : StrictWeak lt (k :: keys es)) (hd : Distinct lt es) (hk : Equiv lt k k')
    (hp : es.Perm ((k', v') :: fs)) : (assign lt es k v).Perm ((k', v) :: fs) := by
  have hmem : (k', v') ∈ es := hp.mem_iff.mpr mem_cons_self
  have hrest : ∀ e ∈ fs, ¬ Equiv lt k e.1 := by
    intro e he hke
    have hee : e ∈ es := hp.mem_iff.mpr (mem_cons_of_mem _ he)
    refine (pairwise_cons.mp (hd.perm hp)).1 e he ?_
    exact hs.equiv_trans k' (mem_cons_of_mem _ (mem_map_of_mem hmem)) k
      mem_cons_self e.1 (mem_cons_of_mem _ (mem_map_of_mem hee)) hk.symm hke
  rw [assign, if_pos ⟨_, hmem, hk⟩]
  refine (hp.map _).trans ?_
  rw [map_cons, if_pos hk, map_congr_left fun e he => if_neg (hrest e he), map_id']

/-- An association list that puts `d` everywhere when it meets keys that the
comparison does not order. -/
noncomputable def lossy (lt : K → K → Bool) (d : V) : Map K V lt where
  T := List (K × V)
  empty := []
  entries es := es
  find es k := (es.find? fun e => Equiv lt k e.1).map Prod.snd
  set es k v :=
    if StrictWeak lt (k :: keys es) then assign lt es k v
    else (k, d) :: es.map fun e => (e.1, d)
  entries_empty := rfl
  find_some es k v _ h := by
    obtain ⟨e, he, rfl⟩ := Option.map_eq_some_iff.mp h
    have hk := find?_some he
    exact ⟨e.1, of_decide_eq_true hk, mem_of_find?_eq_some he⟩
  find_none es k _ h e he hk := by
    have hnone := find?_eq_none.mp (Option.map_eq_none_iff.mp h) e he
    exact hnone (decide_eq_true hk)
  set_new es k v hs h := by rw [if_pos hs, assign, if_neg fun ⟨e, he, hk⟩ => h e he hk]
  set_old es k v k' v' fs hs hd hk hp := by
    rw [if_pos hs]
    exact assign_old hs hd hk hp

theorem keys_assign (heq : ∀ x y, Equiv lt x y → x = y) {x : K} :
    x ∈ keys (assign lt es k v) ↔ x ∈ k :: keys es := by
  unfold assign
  split
  case isTrue h =>
    obtain ⟨e, he, hk⟩ := h
    have hmap : keys (es.map fun e => if Equiv lt k e.1 then (e.1, v) else e) = keys es := by
      unfold keys
      rw [map_map]
      refine map_congr_left fun e _ => ?_
      simp only [Function.comp_apply]
      split <;> rfl
    have hmem : k ∈ keys es := heq k e.1 hk ▸ mem_map_of_mem he
    rw [hmap, mem_cons]
    exact ⟨.inr, fun h => h.elim (fun hx => hx ▸ hmem) id⟩
  case isFalse => rfl

/-- The keys are in order, or nothing is left under them. -/
def Kept (lt : K → K → Bool) (d : V) (es : List (K × V)) : Prop :=
  StrictWeak lt (keys es) ∨ ∀ e ∈ es, e.2 = d

variable (heq : ∀ x y, Equiv lt x y → x = y)
include heq

/-- The lossy map keeps every key, and the values only of keys in order. -/
theorem lossy_set (d : V) (es : List (K × V)) (k : K) (v : V) :
    (∀ x ∈ k :: keys es, x ∈ keys ((lossy lt d).set es k v)) ∧ Kept lt d ((lossy lt d).set es k v) := by
  by_cases hs : StrictWeak lt (k :: keys es)
  · have he : (lossy lt d).set es k v = assign lt es k v := if_pos hs
    rw [he]
    exact ⟨fun x => (keys_assign heq).mpr, .inl (hs.mono fun x => (keys_assign heq).mp)⟩
  · have he : (lossy lt d).set es k v = (k, d) :: es.map fun e => (e.1, d) := if_neg hs
    rw [he]
    refine ⟨fun x hx => ?_, .inr fun e hm => ?_⟩
    · simpa [keys] using hx
    · rcases mem_cons.mp hm with rfl | hm
      · rfl
      · obtain ⟨e', -, rfl⟩ := mem_map.mp hm
        rfl

theorem lossy_push (es : List (K × List A)) (p : K × A) :
    (∀ x ∈ p.1 :: keys es, x ∈ keys ((lossy lt []).push es p)) ∧ Kept lt [] ((lossy lt []).push es p) := by
  unfold Map.push
  split
  · exact lossy_set heq [] es p.1 _
  · exact lossy_set heq [] es p.1 _

theorem lossy_kept (ps : List (K × A)) : ∀ es, Kept lt [] es →
      (∀ x, x ∈ keys es ∨ x ∈ keys ps → x ∈ keys ((lossy lt []).pushAll es ps)) ∧
      Kept lt [] ((lossy lt []).pushAll es ps) := by
  induction ps with
  | nil =>
    intro es hes
    exact ⟨fun x hx => hx.resolve_right not_mem_nil, hes⟩
  | cons p ps ih =>
    intro es _
    obtain ⟨hkeys, hkept⟩ := lossy_push heq es p
    obtain ⟨hall, hend⟩ := ih _ hkept
    refine ⟨fun x hx => hall x ?_, hend⟩
    rcases hx with hx | hx
    · exact .inl (hkeys x (mem_cons_of_mem _ hx))
    · rcases mem_cons.mp hx with rfl | hx
      · exact .inl (hkeys _ mem_cons_self)
      · exact .inr hx

/-- Of keys that the comparison does not order the lossy map keeps no value. -/
theorem lossy_pushAll (ps : List (K × A)) (hns : ¬ StrictWeak lt (keys ps)) :
    (lossy lt []).values ((lossy lt []).pushAll (lossy lt []).empty ps) = ([] : List A) := by
  have hempty : Kept lt ([] : List A) ([] : List (K × List A)) :=
    .inr fun e he => (not_mem_nil he).elim
  obtain ⟨hkeys, hs | hvals⟩ := lossy_kept heq ps _ hempty
  · exact absurd (hs.mono fun k hk => hkeys k (.inr hk)) hns
  · exact flatMap_eq_nil_iff.mpr hvals

end Lossy

end DesPwd.OrderedMap
