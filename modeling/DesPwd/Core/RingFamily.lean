import DesPwd.Core.Ring

/-!
# Families of circular lists

Several rings in one memory, with no cell in common. `Family on nx pv head lists`
says that for every index `i` with `on i` the cells `lists i` are the ring of
`head i`; an index outside `on` is a list that is being taken apart.

* `Family.insert_last`, `Family.unlink`: linking and unlinking a cell in one
  ring leaves the others alone.
* `Family.restrict`, `Family.reset`: taking a ring out, and back in as an empty one.
* `IsRing.unique`: the links determine the ring of a head.
-/
namespace DesPwd.Rings

open List

variable {α ι : Type} {nx pv nx' pv' : α → α} {on on' : ι → Prop} {head : ι → α}
  {lists lists' : ι → List α} {i j : ι} {x : α}

/-- A segment up to a cell outside it is determined by its links. -/
theorem Seg.unique {b : α} : ∀ {a} {l l'}, Seg nx pv a l b → Seg nx pv a l' b →
    b ∉ l → b ∉ l' → l = l'
  | _, [], [], _, _, _, _ => rfl
  | _, [], x :: l', h, h', _, hb => absurd (h.1.symm.trans h'.1.1 ▸ mem_cons_self) hb
  | _, x :: l, [], h, h', hb, _ => absurd (h'.1.symm.trans h.1.1 ▸ mem_cons_self) hb
  | _, x :: l, y :: l', h, h', hb, hb' => by
    obtain rfl : x = y := h.1.1.symm.trans h'.1.1
    rw [h.2.unique h'.2 (fun hm => hb (mem_cons_of_mem _ hm)) fun hm => hb' (mem_cons_of_mem _ hm)]

theorem IsRing.unique {h : α} {l l' : List α} (hr : IsRing nx pv h l) (hr' : IsRing nx pv h l') :
    l = l' :=
  hr.seg.unique hr'.seg (nodup_cons.mp hr.nodup).1 (nodup_cons.mp hr'.nodup).1

structure Family (on : ι → Prop) (nx pv : α → α) (head : ι → α) (lists : ι → List α) : Prop where
  ring : ∀ i, on i → IsRing nx pv (head i) (lists i)
  disj : ∀ i j x, on i → on j → x ∈ head i :: lists i → x ∈ head j :: lists j → i = j

namespace Family

section

variable (hf : Family on nx pv head lists)
include hf

theorem restrict (h : ∀ i, on' i → on i) : Family on' nx pv head lists :=
  ⟨fun i hi => hf.ring i (h i hi), fun i j x hi hj => hf.disj i j x (h i hi) (h j hj)⟩

theorem congr (h : ∀ i, on i → ∀ y ∈ head i :: lists i, nx' y = nx y ∧ pv' y = pv y) :
    Family on nx' pv' head lists :=
  ⟨fun i hi => (hf.ring i hi).congr (fun y hy => (h i hi y hy).1) fun y hy => (h i hi y hy).2,
    hf.disj⟩

theorem insert_last (hj : on j) (hx : ∀ i, on i → x ∉ head i :: lists i)
    (h1 : nx' (pv (head j)) = x) (h2 : pv' x = pv (head j)) (h3 : nx' x = head j)
    (h4 : pv' (head j) = x) (hn : ∀ y, y ≠ pv (head j) → y ≠ x → nx' y = nx y)
    (hp : ∀ y, y ≠ head j → y ≠ x → pv' y = pv y)
    (hl : lists' j = lists j ++ [x]) (hl' : ∀ i, on i → i ≠ j → lists' i = lists i) :
    Family on nx' pv' head lists' := by
  have hrj := hf.ring j hj
  -- the cells written belong to ring `j`
  have hother : ∀ i, on i → i ≠ j → ∀ y ∈ head i :: lists i, y ≠ pv (head j) ∧ y ≠ head j ∧ y ≠ x := by
    intro i hi hij y hy
    refine ⟨?_, ?_, ?_⟩
    · rintro rfl
      exact hij (hf.disj i j _ hi hj hy (hrj.prev_mem mem_cons_self))
    · rintro rfl
      exact hij (hf.disj i j _ hi hj hy mem_cons_self)
    · rintro rfl
      exact hx i hi hy
  have hcell : ∀ i, on i → ∀ y ∈ head i :: lists' i, y ∈ head i :: lists i ∨ (i = j ∧ y = x) := by
    intro i hi y hy
    by_cases hij : i = j
    · subst hij
      rw [hl, ← cons_append, mem_append, mem_singleton] at hy
      exact hy.imp id fun h => ⟨rfl, h⟩
    · rw [hl' i hi hij] at hy
      exact .inl hy
  refine ⟨fun i hi => ?_, fun i k y hi hk hyi hyk => ?_⟩
  · by_cases hij : i = j
    · subst hij
      rw [hl]
      refine hrj.insert_last (hx i hi) h1 h2 h3 h4 (fun y hy hne => hn y hne ?_)
        fun y hy => hp y ?_ ?_
      · rintro rfl; exact hx i hi hy
      · rintro rfl; exact (nodup_cons.mp hrj.nodup).1 hy
      · rintro rfl; exact hx i hi (mem_cons_of_mem _ hy)
    · rw [hl' i hi hij]
      exact (hf.ring i hi).congr (fun y hy => hn y (hother i hi hij y hy).1 (hother i hi hij y hy).2.2)
        fun y hy => hp y (hother i hi hij y hy).2.1 (hother i hi hij y hy).2.2
  · rcases hcell i hi y hyi with hi' | ⟨hij, hyx⟩ <;> rcases hcell k hk y hyk with hk' | ⟨hkj, hyx'⟩
    · exact hf.disj i k y hi hk hi' hk'
    · exact absurd (hyx' ▸ hi') (hx i hi)
    · exact absurd (hyx ▸ hk') (hx k hk)
    · exact hij.trans hkj.symm

theorem unlink {l1 l2 : List α} (hj : on j)
    (hx : lists j = l1 ++ x :: l2) (h1 : nx' (pv x) = nx x) (h2 : pv' (nx x) = pv x)
    (hn : ∀ y, y ≠ pv x → nx' y = nx y) (hp : ∀ y, y ≠ nx x → pv' y = pv y)
    (hl : lists' j = l1 ++ l2) (hl' : ∀ i, i ≠ j → lists' i = lists i) :
    Family on nx' pv' head lists' := by
  have hrj := hf.ring j hj
  have hxj : x ∈ head j :: lists j := by rw [hx]; simp
  have hsub : ∀ i, ∀ y ∈ head i :: lists' i, y ∈ head i :: lists i := by
    intro i y hy
    by_cases hij : i = j
    · subst hij
      rw [hl] at hy
      rw [hx]
      simp only [mem_cons, mem_append] at hy ⊢
      tauto
    · rwa [hl' i hij] at hy
  refine ⟨fun i hi => ?_, fun i k y hi hk hyi hyk =>
    hf.disj i k y hi hk (hsub i y hyi) (hsub k y hyk)⟩
  by_cases hij : i = j
  · subst hij
    rw [hl]
    rw [hx] at hrj
    exact hrj.unlink h1 h2 (fun y _ hne => hn y hne) fun y _ hne => hp y hne
  · rw [hl' i hij]
    refine (hf.ring i hi).congr (fun y hy => hn y ?_) fun y hy => hp y ?_
    · rintro rfl
      exact hij (hf.disj i j _ hi hj hy (hrj.prev_mem hxj))
    · rintro rfl
      exact hij (hf.disj i j _ hi hj hy (hrj.next_mem hxj))

end

/-- A head whose cells were all taken elsewhere becomes an empty ring. -/
theorem reset (hf : Family (· ≠ i) nx pv head lists)
    (hi : ∀ k, k ≠ i → head i ∉ head k :: lists k) (h1 : nx' (head i) = head i)
    (h2 : pv' (head i) = head i) (hn : ∀ y, y ≠ head i → nx' y = nx y)
    (hp : ∀ y, y ≠ head i → pv' y = pv y) (hl : lists' i = [])
    (hl' : ∀ k, k ≠ i → lists' k = lists k) : Family (fun _ => True) nx' pv' head lists' := by
  refine ⟨fun k _ => ?_, fun k m y _ _ hk hm => ?_⟩
  · by_cases hki : k = i
    · subst hki
      rw [hl]
      exact IsRing.nil_iff.mpr ⟨h1, h2⟩
    · rw [hl' k hki]
      refine (hf.ring k hki).congr (fun y hy => hn y ?_) fun y hy => hp y ?_ <;>
      · rintro rfl
        exact hi k hki hy
  · by_cases hki : k = i
    · subst hki
      rw [hl, mem_singleton] at hk
      subst hk
      by_contra hmk
      rw [hl' m (Ne.symm hmk)] at hm
      exact hi m (Ne.symm hmk) hm
    · rw [hl' k hki] at hk
      by_cases hmi : m = i
      · subst hmi
        rw [hl, mem_singleton] at hm
        subst hm
        exact absurd hk (hi k hki)
      · rw [hl' m hmi] at hm
        exact hf.disj k m y hki hmi hk hm

end Family

end DesPwd.Rings
