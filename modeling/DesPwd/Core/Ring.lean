import DesPwd.Core.Links
import Mathlib.Data.List.Nodup

/-!
# Circular doubly linked lists

A list with a head cell: `nx` and `pv` are the successor and predecessor maps
of the cells, and `IsRing nx pv h l` says that `nx` leads from the head `h`
through exactly the cells `l` and back to `h`, with `pv` the way back. A
list that ends in a nil index instead has that index as its head cell, with
the start and end indexes as its successor and predecessor.

* `IsRing.congr`: a ring only depends on the links of its own cells.
* `IsRing.insert_after`, `IsRing.insert_first`, `IsRing.insert_last`: linking a cell.
* `IsRing.unlink`: taking a cell out by its own two links.
* `Seg.linked`, `Seg.reverse`: the cells in either direction as a chain.
-/
namespace DesPwd.Rings

open Links List

variable {α : Type} {nx pv nx' pv' : α → α}

/-- From `a`, `nx` leads through exactly `l` to `b`, and `pv` leads back. -/
def Seg (nx pv : α → α) : α → List α → α → Prop
  | a, [], b => nx a = b ∧ pv b = a
  | a, x :: l, b => (nx a = x ∧ pv x = a) ∧ Seg nx pv x l b

variable {b : α}

theorem seg_append {x : α} {l2 : List α} : ∀ {a} {l1},
      Seg nx pv a (l1 ++ x :: l2) b ↔ Seg nx pv a l1 x ∧ Seg nx pv x l2 b
  | _, [] => Iff.rfl
  | _, _ :: _ => by
    rw [cons_append, Seg, Seg, seg_append, ← and_assoc]

theorem Seg.reverse : ∀ {a} {l}, Seg nx pv a l b → Seg pv nx b l.reverse a
  | _, [], h => ⟨h.2, h.1⟩
  | _, x :: l, h => by
    rw [reverse_cons]
    exact seg_append.mpr ⟨h.2.reverse, h.1.2, h.1.1⟩

theorem Seg.linked : ∀ {a} {l}, Seg nx pv a l b → Linked nx b (nx a) l
  | _, [], h => h.1
  | _, _ :: _, h => ⟨h.1.1, h.2.linked⟩

theorem Seg.congr : ∀ {a} {l}, Seg nx pv a l b → (∀ y ∈ a :: l, nx' y = nx y) →
      (∀ y ∈ l ++ [b], pv' y = pv y) → Seg nx' pv' a l b
  | a, [], h, hn, hp => by
    refine ⟨?_, ?_⟩
    · rw [hn a mem_cons_self]; exact h.1
    · rw [hp b mem_cons_self]; exact h.2
  | a, x :: l, h, hn, hp => by
    refine ⟨⟨?_, ?_⟩, ?_⟩
    · rw [hn a mem_cons_self]; exact h.1.1
    · rw [hp x mem_cons_self]; exact h.1.2
    · exact h.2.congr (fun y hy => hn y (mem_cons_of_mem _ hy))
        fun y hy => hp y (mem_cons_of_mem _ hy)

/-- The cells determine the links. -/
theorem Seg.next_unique : ∀ {a} {l}, Seg nx pv a l b → Seg nx' pv' a l b → ∀ y ∈ a :: l, nx y = nx' y
  | _, [], h, h' => forall_mem_singleton.mpr (h.1.trans h'.1.symm)
  | _, _ :: _, h, h' => forall_mem_cons.mpr ⟨h.1.1.trans h'.1.1.symm, h.2.next_unique h'.2⟩

/-- A segment from `a` started at another cell `c` instead: only the first
link changes. -/
theorem Seg.restart {a c : α} {l : List α} (h : Seg nx pv a l b) (h1 : nx' c = nx a)
    (h2 : pv' (nx a) = c) (hnd : (l ++ [b]).Nodup) (hn : ∀ y ∈ l, nx' y = nx y)
    (hp : ∀ y ∈ l ++ [b], y ≠ nx a → pv' y = pv y) : Seg nx' pv' c l b := by
  cases l with
  | nil =>
    obtain ⟨h3, _⟩ := h
    rw [h3] at h1 h2
    exact ⟨h1, h2⟩
  | cons x l =>
    obtain ⟨⟨h3, _⟩, hs⟩ := h
    rw [h3] at h1 h2 hp
    refine ⟨⟨h1, h2⟩, hs.congr hn fun y hy => hp y (mem_cons_of_mem _ hy) ?_⟩
    rintro rfl
    exact (nodup_cons.mp hnd).1 hy

theorem Seg.next_eq {a : α} {l : List α} (h : Seg nx pv a l b) : nx a = l.head?.getD b := by
  cases l with
  | nil => exact h.1
  | cons x l => exact h.1.1

theorem Seg.next_mem {a : α} {l : List α} (h : Seg nx pv a l b) : nx a ∈ l ++ [b] := by
  cases l with
  | nil => rw [h.1]; exact mem_cons_self
  | cons x l => rw [h.1.1]; exact mem_cons_self

theorem Seg.prev_mem : ∀ {a} {l}, Seg nx pv a l b → pv b ∈ a :: l
  | _, [], h => by rw [h.2]; exact mem_cons_self
  | _, _ :: _, h => mem_cons_of_mem _ h.2.prev_mem

theorem Seg.next_prev : ∀ {a} {l}, Seg nx pv a l b → nx (pv b) = b
  | _, [], h => by rw [h.2]; exact h.1
  | _, _ :: _, h => h.2.next_prev

/-- Two segments joined over the cell `x` between them. -/
theorem Seg.join {x : α} {l2 : List α} (h₂ : Seg nx pv x l2 b) (h1 : nx' (pv x) = nx x)
    (h2 : pv' (nx x) = pv x) :
    ∀ {a} {l1}, Seg nx pv a l1 x → (a :: (l1 ++ l2)).Nodup →
      (l1 ++ (l2 ++ [b])).Nodup → (∀ y ∈ a :: (l1 ++ l2), y ≠ pv x → nx' y = nx y) →
      (∀ y ∈ l1 ++ (l2 ++ [b]), y ≠ nx x → pv' y = pv y) → Seg nx' pv' a (l1 ++ l2) b
  | a, [], h, hnd1, hnd, hn, hp => by
    obtain ⟨_, hpa⟩ := h
    rw [hpa] at h1 h2 hn
    refine h₂.restart h1 h2 hnd (fun y hy => hn y (mem_cons_of_mem _ hy) ?_) hp
    rintro rfl
    exact (nodup_cons.mp hnd1).1 hy
  | a, c :: l1, h, hnd1, hnd, hn, hp => by
    obtain ⟨⟨hnx, hpv⟩, hs⟩ := h
    have ha : a ≠ pv x := by
      rintro rfl
      exact (nodup_cons.mp hnd1).1 (mem_append_left l2 hs.prev_mem)
    have hc : c ≠ nx x := by
      rintro rfl
      exact (nodup_cons.mp hnd).1 (mem_append_right l1 h₂.next_mem)
    refine ⟨⟨?_, ?_⟩, ?_⟩
    · rw [hn a mem_cons_self ha]; exact hnx
    · rw [hp c mem_cons_self hc]; exact hpv
    · exact Seg.join h₂ h1 h2 hs (nodup_cons.mp hnd1).2 (nodup_cons.mp hnd).2
        (fun y hy => hn y (mem_cons_of_mem _ hy)) fun y hy => hp y (mem_cons_of_mem _ hy)

/-- The head cell `h` with the list `l` of the other cells, all distinct. -/
structure IsRing (nx pv : α → α) (h : α) (l : List α) : Prop where
  seg : Seg nx pv h l h
  nodup : (h :: l).Nodup

namespace IsRing

variable {h x p : α} {l l1 l2 : List α}

theorem nil_iff : IsRing nx pv h [] ↔ nx h = h ∧ pv h = h :=
  ⟨fun hr => hr.seg, fun hr => ⟨hr, nodup_singleton h⟩⟩

section

variable (hr : IsRing nx pv h l)
include hr

theorem congr (hn : ∀ y ∈ h :: l, nx' y = nx y)
    (hp : ∀ y ∈ h :: l, pv' y = pv y) : IsRing nx' pv' h l :=
  ⟨hr.seg.congr hn fun y hy => hp y (by
    rcases mem_append.mp hy with hy | hy
    · exact mem_cons_of_mem _ hy
    · rw [mem_singleton] at hy; rw [hy]; exact mem_cons_self), hr.nodup⟩

theorem reverse : IsRing pv nx h l.reverse :=
  ⟨hr.seg.reverse, ((reverse_perm l).cons h).nodup_iff.mpr hr.nodup⟩

/-- The cells of the ring are closed under both links. -/
theorem next_mem (hx : x ∈ h :: l) : nx x ∈ h :: l := by
  have hsub : ∀ y ∈ l ++ [h], y ∈ h :: l := fun y hy =>
    (perm_append_singleton h l).mem_iff.mp hy
  rcases mem_cons.mp hx with rfl | hx
  · exact hsub _ hr.seg.next_mem
  obtain ⟨l1, l2, rfl⟩ := append_of_mem hx
  have h1 := (seg_append.mp hr.seg).2.next_mem
  simp only [mem_append, mem_cons] at h1 ⊢
  tauto

theorem prev_mem (hx : x ∈ h :: l) : pv x ∈ h :: l := by
  rcases mem_cons.mp hx with rfl | hx
  · exact hr.seg.prev_mem
  · obtain ⟨l1, l2, rfl⟩ := append_of_mem hx
    have h1 := (seg_append.mp hr.seg).1.prev_mem
    simp only [mem_append, mem_cons] at h1 ⊢
    tauto

theorem next_prev (hx : x ∈ h :: l) : nx (pv x) = x := by
  rcases mem_cons.mp hx with rfl | hx
  · exact hr.seg.next_prev
  · obtain ⟨l1, l2, rfl⟩ := append_of_mem hx
    exact (seg_append.mp hr.seg).1.next_prev

end

variable (hr : IsRing nx pv h (l1 ++ x :: l2))
include hr

/-- No cell but the head can be its own neighbour. -/
theorem links_ne_self : nx x ≠ x ∧ pv x ≠ x := by
  have h1 := (seg_append.mp hr.seg).1.prev_mem
  have h2 := (seg_append.mp hr.seg).2.next_mem
  have hnd := hr.nodup
  refine ⟨fun he => ?_, fun he => ?_⟩
  · grind
  · grind

omit hr in
theorem prev_head_mem (hr : IsRing nx pv h l) (hl : l ≠ []) : pv h ∈ l := by
  rcases eq_nil_or_concat' l with rfl | ⟨l1, p, rfl⟩
  · exact absurd rfl hl
  · rw [(seg_append.mp hr.seg).2.2]
    exact mem_append_right _ mem_cons_self

theorem next_eq_head_iff : nx x = h ↔ l2 = [] := by
  have hs := (seg_append.mp hr.seg).2
  cases l2 with
  | nil => exact ⟨fun _ => rfl, fun _ => hs.1⟩
  | cons y l2 =>
    refine ⟨fun he => ?_, fun he => by cases he⟩
    have hy : y = h := hs.1.1.symm.trans he
    exact absurd (hy ▸ by simp) (nodup_cons.mp hr.nodup).1

theorem prev_eq_head_iff : pv x = h ↔ l1 = [] := by
  have hs := (seg_append.mp hr.seg).1
  rcases eq_nil_or_concat' l1 with rfl | ⟨l0, y, rfl⟩
  · exact ⟨fun _ => rfl, fun _ => hs.2⟩
  · refine ⟨fun he => ?_, fun he => by simp at he⟩
    have hy : y = h := (seg_append.mp hs).2.2.symm.trans he
    exact absurd (hy ▸ by simp) (nodup_cons.mp hr.nodup).1

omit hr in
/-- Linking `x` behind the cell `p`. -/
theorem insert_after (hr : IsRing nx pv h (l1 ++ p :: l2)) (hx : x ∉ h :: (l1 ++ p :: l2))
    (h1 : nx' p = x) (h2 : pv' x = p) (h3 : nx' x = nx p) (h4 : pv' (nx p) = x)
    (hn : ∀ y ∈ h :: (l1 ++ p :: l2), y ≠ p → nx' y = nx y)
    (hp : ∀ y ∈ h :: (l1 ++ p :: l2), y ≠ nx p → pv' y = pv y) :
    IsRing nx' pv' h (l1 ++ p :: x :: l2) := by
  obtain ⟨hs1, hs2⟩ := seg_append.mp hr.seg
  have hnd := hr.nodup
  have hq := hs2.next_mem
  refine ⟨seg_append.mpr ⟨hs1.congr (fun y hy => hn y ?_ ?_) fun y hy => hp y ?_ ?_, ⟨h1, h2⟩,
    hs2.restart h3 h4 ?_ (fun y hy => hn y ?_ ?_) fun y hy => hp y ?_⟩, ?_⟩
  all_goals grind

omit hr in
theorem insert_first (hr : IsRing nx pv h l) (hx : x ∉ h :: l)
    (h1 : nx' h = x) (h2 : pv' x = h) (h3 : nx' x = nx h) (h4 : pv' (nx h) = x)
    (hn : ∀ y ∈ l, nx' y = nx y) (hp : ∀ y ∈ h :: l, y ≠ nx h → pv' y = pv y) :
    IsRing nx' pv' h (x :: l) := by
  refine ⟨⟨⟨h1, h2⟩, hr.seg.restart h3 h4
    ((perm_append_singleton h l).nodup_iff.mpr hr.nodup) hn fun y hy => ?_⟩, ?_⟩
  · exact hp y ((perm_append_singleton h l).mem_iff.mp hy)
  · exact (List.Perm.swap h x l).nodup_iff.mp (nodup_cons.mpr ⟨hx, hr.nodup⟩)

omit hr in
theorem insert_last (hr : IsRing nx pv h l) (hx : x ∉ h :: l)
    (h1 : nx' (pv h) = x) (h2 : pv' x = pv h) (h3 : nx' x = h) (h4 : pv' h = x)
    (hn : ∀ y ∈ h :: l, y ≠ pv h → nx' y = nx y) (hp : ∀ y ∈ l, pv' y = pv y) :
    IsRing nx' pv' h (l ++ [x]) := by
  rcases eq_nil_or_concat' l with rfl | ⟨l1, p, rfl⟩
  · obtain ⟨hnh, hph⟩ := nil_iff.mp hr
    rw [hph] at h1 h2
    refine hr.insert_first hx h1 h2 (by rw [h3, hnh]) (by rw [hnh]; exact h4) (by simp) ?_
    intro y hy hne
    rw [mem_singleton, ← hnh] at hy
    exact absurd hy hne
  · obtain ⟨_, hnp, hph⟩ := seg_append.mp hr.seg
    rw [hph] at h1 h2 hn
    rw [append_assoc]
    refine hr.insert_after hx h1 h2 (by rw [h3, hnp]) (by rw [hnp]; exact h4) hn fun y hy hne => ?_
    rcases mem_cons.mp hy with rfl | hy
    · exact absurd hnp.symm hne
    · exact hp y hy

theorem unlink (h1 : nx' (pv x) = nx x)
    (h2 : pv' (nx x) = pv x) (hn : ∀ y ∈ h :: (l1 ++ l2), y ≠ pv x → nx' y = nx y)
    (hp : ∀ y ∈ h :: (l1 ++ l2), y ≠ nx x → pv' y = pv y) : IsRing nx' pv' h (l1 ++ l2) := by
  obtain ⟨hs1, hs2⟩ := seg_append.mp hr.seg
  have hsub : (h :: (l1 ++ l2)).Sublist (h :: (l1 ++ x :: l2)) :=
    ((sublist_cons_self x l2).append_left l1).cons_cons h
  have hnd : (h :: (l1 ++ l2)).Nodup := hr.nodup.sublist hsub
  have hback := perm_append_singleton h (l1 ++ l2)
  rw [append_assoc] at hback
  exact ⟨hs2.join h1 h2 hs1 hnd (hback.nodup_iff.mpr hnd) hn
    fun y hy => hp y (hback.mem_iff.mp hy), hnd⟩

end IsRing

end DesPwd.Rings
