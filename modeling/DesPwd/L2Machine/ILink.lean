import DesPwd.Core.RingFamily

/-!
# Index lists of the shared tables

The tables in shared memory link their nodes by index, both ways, with -1 as
the nil index and the first and last index in some other structure; the `ILINK`
macros of lib/mtagent_api_open/supper_log.h do the writes. A pointer that may
be `NULL` is an optional index.

`IsList h k l`: the head `h` and the links `k` hold the list `l`, the ring
through the nil index. `Counted h k count l`: the same for a list that has its
length beside it; when that is 0 nobody reads the head, which starts zeroed.

* `IsList.setFirst`, `IsList.insertFirst`, `Counted.cons`: a node becomes the
  first one.
* `IsList.deleteNode`: a node that is deleted by its own two links is taken out.
-/
namespace DesPwd.L2.ILink

open Rings List
open Function (update update_self update_apply update_of_ne)

/-- The fields `s` and `e` of the head. -/
structure Head where
  s : Int
  e : Int
  deriving DecidableEq

/-- The fields `p` and `n` of all nodes. -/
structure Links where
  p : Int → Int
  n : Int → Int

/-- `ILINK_SET_FIRST`; mirrors lib/mtagent_api_open/supper_log.h:1751-1755 -/
def setFirst (k : Links) (nidx : Int) : Head × Links :=
  (⟨nidx, nidx⟩, ⟨update k.p nidx (-1), update k.n nidx (-1)⟩)

/-- `ILINK_INSERT_FIRST`; mirrors supper_log.h:1764-1768 -/
def insertFirst (h : Head) (k : Links) (first nodeIdx : Int) : Head × Links :=
  (⟨nodeIdx, h.e⟩, ⟨update (update k.p nodeIdx (-1)) first nodeIdx, update k.n nodeIdx h.s⟩)

/-- `ILINK_DELETE_NODE`; mirrors supper_log.h:1783-1793 -/
def deleteNode (h : Head) (k : Links) (node : Int) (pPrev pNext : Option Int) : Head × Links :=
  let (h, k) := match pPrev with
    | none => ({ h with s := k.n node }, k)
    | some i => (h, { k with n := update k.n i (k.n node) })
  let (h, k) := match pNext with
    | none => ({ h with e := k.p node }, k)
    | some i => (h, { k with p := update k.p i (k.p node) })
  (h, ⟨update k.p node (-1), update k.n node (-1)⟩)

/-- The pointer for an index, `NULL` when the index is negative. -/
def ptr (i : Int) : Option Int := if 0 ≤ i then some i else none

/-! ## The ring through the nil index -/

def nx (h : Head) (k : Links) (i : Int) : Int := if i = -1 then h.s else k.n i

def pv (h : Head) (k : Links) (i : Int) : Int := if i = -1 then h.e else k.p i

structure IsList (h : Head) (k : Links) (l : List Int) : Prop where
  ring : IsRing (nx h k) (pv h k) (-1) l
  nonneg : ∀ i ∈ l, 0 ≤ i

section
variable {h : Head} {k : Links} {l l1 l2 : List Int} {i j : Int}

theorem nx_of_nonneg (hi : 0 ≤ i) : nx h k i = k.n i := if_neg (by omega)

theorem pv_of_nonneg (hi : 0 ≤ i) : pv h k i = k.p i := if_neg (by omega)

theorem isList_nil_iff : IsList h k [] ↔ h = ⟨-1, -1⟩ := by
  constructor
  · intro hl
    obtain ⟨h1, h2⟩ := IsRing.nil_iff.mp hl.ring
    cases h
    simp only [nx, pv, ↓reduceIte] at h1 h2
    rw [h1, h2]
  · rintro rfl
    exact ⟨IsRing.nil_iff.mpr ⟨rfl, rfl⟩, fun _ hi => by cases hi⟩

theorem IsList.unique (hl : IsList h k l1) (hl' : IsList h k l2) : l1 = l2 :=
  hl.ring.unique hl'.ring

theorem IsList.start_eq (hl : IsList h k (i :: l)) : h.s = i := hl.ring.seg.1.1

/-- The successor of a node is the next one of the list, or nil at its end. -/
theorem IsList.n_eq (hl : IsList h k (l1 ++ i :: l2)) : k.n i = l2.head?.getD (-1) := by
  rw [← nx_of_nonneg (hl.nonneg i (by simp))]
  exact (seg_append.mp hl.ring.seg).2.next_eq

theorem IsList.setFirst (hi : 0 ≤ i) : IsList (setFirst k i).1 (setFirst k i).2 [i] := by
  have hne : i ≠ -1 := by omega
  refine ⟨⟨⟨⟨if_pos rfl, ?_⟩, ?_, if_pos rfl⟩, ?_⟩, ?_⟩
  · rw [pv_of_nonneg hi]; exact update_self i (-1) k.p
  · rw [nx_of_nonneg hi]; exact update_self i (-1) k.n
  · simpa using hne.symm
  · intro j hj
    rw [mem_singleton.mp hj]
    exact hi

theorem IsList.insertFirst (hl : IsList h k (j :: l)) (hi : 0 ≤ i) (hn : i ∉ j :: l) :
    IsList (insertFirst h k h.s i).1 (insertFirst h k h.s i).2 (i :: j :: l) := by
  have hs := hl.start_eq
  have hnonneg := hl.nonneg
  have hj := hnonneg j mem_cons_self
  refine ⟨hl.ring.insert_first (by grind) (if_pos rfl) ?_ ?_ ?_ ?_ ?_, by grind⟩ <;>
    simp only [ILink.insertFirst, nx, pv, update_apply] <;> grind

/-- The links after a delete: the neighbours' links to the node pass it by. -/
theorem links_deleteNode (y : Int) (hy : y ≠ i) :
    nx (deleteNode h k i (ptr (k.p i)) (ptr (k.n i))).1
        (deleteNode h k i (ptr (k.p i)) (ptr (k.n i))).2 y =
      (if y = (if 0 ≤ k.p i then k.p i else -1) then k.n i else nx h k y) ∧
    pv (deleteNode h k i (ptr (k.p i)) (ptr (k.n i))).1
        (deleteNode h k i (ptr (k.p i)) (ptr (k.n i))).2 y =
      if y = (if 0 ≤ k.n i then k.n i else -1) then k.p i else pv h k y := by
  unfold deleteNode ptr nx pv
  by_cases hp : 0 ≤ k.p i <;> by_cases hq : 0 ≤ k.n i <;>
    simp only [hp, hq] <;> grind

/-- A delete by the node's own links takes it out, and leaves it unlinked. -/
theorem IsList.deleteNode (hl : IsList h k (l1 ++ i :: l2)) :
    IsList (deleteNode h k i (ptr (k.p i)) (ptr (k.n i))).1
      (deleteNode h k i (ptr (k.p i)) (ptr (k.n i))).2 (l1 ++ l2) := by
  have hmem : i ∈ l1 ++ i :: l2 := mem_append_right _ mem_cons_self
  have hi := hl.nonneg i hmem
  have hcell : ∀ y ∈ (-1) :: (l1 ++ i :: l2), (if 0 ≤ y then y else -1) = y := by
    intro y hy
    rcases mem_cons.mp hy with rfl | hy
    · rfl
    · exact if_pos (hl.nonneg y hy)
  have hp : (if 0 ≤ k.p i then k.p i else -1) = pv h k i := by
    rw [← pv_of_nonneg (h := h) hi]
    exact hcell _ (hl.ring.prev_mem (mem_cons_of_mem _ hmem))
  have hn : (if 0 ≤ k.n i then k.n i else -1) = nx h k i := by
    rw [← nx_of_nonneg (h := h) hi]
    exact hcell _ (hl.ring.next_mem (mem_cons_of_mem _ hmem))
  obtain ⟨hni, hpi⟩ := hl.ring.links_ne_self
  have hne : ∀ y ∈ (-1) :: (l1 ++ l2), y ≠ i := by
    have hnd := hl.ring.nodup
    grind
  refine ⟨hl.ring.unlink ?_ ?_ ?_ ?_, fun y hy => hl.nonneg y ?_⟩
  · rw [(links_deleteNode _ hpi).1, hp, if_pos rfl, nx_of_nonneg hi]
  · rw [(links_deleteNode _ hni).2, hn, if_pos rfl, pv_of_nonneg hi]
  · intro y hy hyp
    rw [(links_deleteNode y (hne y hy)).1, hp, if_neg hyp]
  · intro y hy hyn
    rw [(links_deleteNode y (hne y hy)).2, hn, if_neg hyn]
  · simp only [mem_append, mem_cons] at hy ⊢
    tauto

end

/-- The list `l` and its length. -/
structure Counted (h : Head) (k : Links) (count : Nat) (l : List Int) : Prop where
  count_eq : count = l.length
  isList : l ≠ [] → IsList h k l

namespace Counted

variable {h : Head} {k : Links} {count : Nat} {l l1 l2 : List Int} {i : Int}

variable (hc : Counted h k count l)
include hc

theorem nonneg (hi : i ∈ l) : 0 ≤ i :=
  (hc.isList (ne_nil_of_mem hi)).nonneg i hi

theorem nodup : l.Nodup := by
  by_cases hl : l = []
  · rw [hl]
    exact nodup_nil
  · exact (nodup_cons.mp (hc.isList hl).ring.nodup).2

/-- The two ways in which the tables add a node: by the count, it is the only
one or the first one. -/
theorem cons (hi : 0 ≤ i) (hn : i ∉ l) :
    Counted (if count = 0 then ILink.setFirst k i else ILink.insertFirst h k h.s i).1
      (if count = 0 then ILink.setFirst k i else ILink.insertFirst h k h.s i).2
      (count + 1) (i :: l) := by
  refine ⟨by rw [hc.count_eq, length_cons], fun _ => ?_⟩
  rcases l with _ | ⟨j, l⟩
  · have hcount : count = 0 := hc.count_eq
    rw [if_pos hcount]
    exact IsList.setFirst hi
  · have hcount : count ≠ 0 := by
      rw [hc.count_eq]
      exact Nat.succ_ne_zero _
    rw [if_neg hcount]
    exact (hc.isList (cons_ne_nil j l)).insertFirst hi hn

end Counted

@[simp] theorem deleteNode_p (h : Head) (k : Links) (i : Int) (a b : Option Int) :
    (deleteNode h k i a b).2.p i = -1 := update_self i (-1) _

@[simp] theorem deleteNode_n (h : Head) (k : Links) (i : Int) (a b : Option Int) :
    (deleteNode h k i a b).2.n i = -1 := update_self i (-1) _

end DesPwd.L2.ILink
