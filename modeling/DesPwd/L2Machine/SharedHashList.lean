import DesPwd.Core.Ring
import DesPwd.L2Machine.SharedHash
import Mathlib.Data.List.Perm.Subperm

/-!
# The list of the used nodes of the shared hash table

The used nodes are linked both ways, with `dwRealNodeCount` as the nil
index and the start and end indexes in the table head; `Table.nx` and
`Table.pv` make this a ring through the nil index.

`ListInv t l`: the used nodes are exactly the cells `l` of the ring.

* `ListInv.insertHashNode`: an insert appends its node.
* `ListInv.removeHashNode`: a remove takes its node out; no check fails, so
  the table is never reset.
-/
namespace DesPwd.L2.SharedHash

open Rings List Table
open Function (update update_eq_self_iff)

namespace Table

variable {K : Type} {t : Table K} {i j v : Nat}

/-! ## Links -/

/-- The successor of a node, with the head of the list at the nil index. -/
def nx (t : Table K) (i : Nat) : Nat :=
  if i = t.real then t.dwNodeStartIndex else (t.node i).dwNodeNextIndex

/-- The predecessor of a node, with the end of the list at the nil index. -/
def pv (t : Table K) (i : Nat) : Nat :=
  if i = t.real then t.dwNodeEndIndex else (t.node i).dwNodePreIndex

@[simp] theorem real_setNext : (t.setNext i v).real = t.real := (rfl)
@[simp] theorem real_setPre : (t.setPre i v).real = t.real := (rfl)
@[simp] theorem real_setUsed (b : Bool) : (t.setUsed i b).real = t.real := (rfl)
@[simp] theorem count_setNext : (t.setNext i v).dwNodeUseCount = t.dwNodeUseCount := rfl
@[simp] theorem count_setPre : (t.setPre i v).dwNodeUseCount = t.dwNodeUseCount := rfl
@[simp] theorem count_setStart : (t.setStart v).dwNodeUseCount = t.dwNodeUseCount := rfl
@[simp] theorem count_setEnd : (t.setEnd v).dwNodeUseCount = t.dwNodeUseCount := rfl
@[simp] theorem real_setStart : (t.setStart v).real = t.real := (rfl)
@[simp] theorem real_setEnd : (t.setEnd v).real = t.real := (rfl)
@[simp] theorem real_setUseCount : (t.setUseCount v).real = t.real := (rfl)

/-! Each write changes one link of one cell. -/

section

variable (h : i ≠ t.real)
include h

theorem nx_setNode (nd : Node K) : (t.setNode i nd).nx = update t.nx i nd.dwNodeNextIndex := by
  funext j
  show (if j = t.real then t.dwNodeStartIndex
    else (update t.node i nd j).dwNodeNextIndex) = _
  by_cases hj : j = i
  · subst hj; simp [h]
  · simp [hj, nx]

theorem pv_setNode (nd : Node K) : (t.setNode i nd).pv = update t.pv i nd.dwNodePreIndex := by
  funext j
  show (if j = t.real then t.dwNodeEndIndex
    else (update t.node i nd j).dwNodePreIndex) = _
  by_cases hj : j = i
  · subst hj; simp [h]
  · simp [hj, pv]

theorem nx_of_ne : t.nx i = (t.node i).dwNodeNextIndex := by simp [nx, h]

theorem pv_of_ne : t.pv i = (t.node i).dwNodePreIndex := by simp [pv, h]

@[simp] theorem nx_setNext : (t.setNext i v).nx = update t.nx i v :=
  nx_setNode h _

@[simp] theorem pv_setNext : (t.setNext i v).pv = t.pv := by
  rw [setNext, pv_setNode h, update_eq_self_iff, pv_of_ne h]

@[simp] theorem pv_setPre : (t.setPre i v).pv = update t.pv i v :=
  pv_setNode h _

@[simp] theorem nx_setPre : (t.setPre i v).nx = t.nx := by
  rw [setPre, nx_setNode h, update_eq_self_iff, nx_of_ne h]

@[simp] theorem nx_setUsed (b : Bool) : (t.setUsed i b).nx = t.nx := by
  rw [setUsed, nx_setNode h, update_eq_self_iff, nx_of_ne h]

@[simp] theorem pv_setUsed (b : Bool) : (t.setUsed i b).pv = t.pv := by
  rw [setUsed, pv_setNode h, update_eq_self_iff, pv_of_ne h]

end

@[simp] theorem nx_setStart : (t.setStart v).nx = update t.nx t.real v := by
  funext j
  show (if j = t.real then v else (t.node j).dwNodeNextIndex) = _
  by_cases hj : j = t.real <;> simp [nx, hj]

@[simp] theorem pv_setEnd : (t.setEnd v).pv = update t.pv t.real v := by
  funext j
  show (if j = t.real then v else (t.node j).dwNodePreIndex) = _
  by_cases hj : j = t.real <;> simp [pv, hj]

@[simp] theorem pv_setStart : (t.setStart v).pv = t.pv := rfl

@[simp] theorem nx_setEnd : (t.setEnd v).nx = t.nx := rfl

@[simp] theorem nx_setUseCount : (t.setUseCount v).nx = t.nx := rfl

@[simp] theorem pv_setUseCount : (t.setUseCount v).pv = t.pv := rfl

theorem node_setUseCount : (t.setUseCount v).node = t.node := rfl

end Table

/-- The rows and the size of the memory are the same. -/
structure Shape {K : Type} (t t' : Table K) : Prop where
  rows : t'.rows = t.rows
  mem : t'.shareMemNodes = t.shareMemNodes

theorem Shape.trans {K : Type} {t t' t'' : Table K} (h : Shape t t') (h' : Shape t' t'') :
    Shape t t'' :=
  ⟨h'.rows.trans h.rows, h'.mem.trans h.mem⟩

section

variable {K : Type} {t t' : Table K} (h : Shape t t')
include h

theorem Shape.real_eq : t'.real = t.real := by rw [Table.real, h.rows]; rfl

theorem Shape.slots_eq (n : Nat) : t'.slots n = t.slots n := by rw [Table.slots, h.rows]; rfl

end

/-- What no operation on the list changes: the shape of the table, its
writer, and the callers' data. -/
structure Same {K : Type} (t t' : Table K) : Prop extends Shape t t' where
  init : t'.bInitSuccess = t.bInitSuccess
  cmp : t'.fun_cmp = t.fun_cmp
  writer : t'.dwWriteProcessId = t.dwWriteProcessId
  data : ∀ i, (t'.node i).data = (t.node i).data

theorem Same.trans {K : Type} {t t' t'' : Table K} (h : Same t t') (h' : Same t' t'') :
    Same t t'' :=
  ⟨h.toShape.trans h'.toShape, h'.init.trans h.init, h'.cmp.trans h.cmp, h'.writer.trans h.writer,
    fun i => (h'.data i).trans (h.data i)⟩

theorem Same.leave {K : Type} {t t' : Table K} (h : Same t t') : Same t t'.leave :=
  ⟨⟨h.rows, h.mem⟩, h.init, h.cmp, h.writer, h.data⟩

/-- Writing links and head fields also leaves the used nodes and the cursors. -/
structure Relinked {K : Type} (t t' : Table K) : Prop extends Same t t' where
  used : ∀ i, (t'.node i).bIsUsed = (t.node i).bIsUsed
  cur : t'.dwCurIndex = t.dwCurIndex
  rev : t'.dwCurIndexRevers = t.dwCurIndexRevers

namespace Relinked

variable {K : Type} {t t' t'' : Table K} {i v : Nat}

theorem refl (t : Table K) : Relinked t t :=
  ⟨⟨⟨rfl, rfl⟩, rfl, rfl, rfl, fun _ => rfl⟩, fun _ => rfl, rfl, rfl⟩

variable (h : Relinked t t')
include h

theorem trans (h' : Relinked t' t'') : Relinked t t'' :=
  ⟨h.toSame.trans h'.toSame, fun i => (h'.used i).trans (h.used i), h'.cur.trans h.cur,
    h'.rev.trans h.rev⟩

theorem setNode {nd : Node K} (hd : nd.data = (t'.node i).data)
    (hu : nd.bIsUsed = (t'.node i).bIsUsed) : Relinked t (t'.setNode i nd) := by
  refine h.trans ⟨⟨⟨rfl, rfl⟩, rfl, rfl, rfl, fun j => ?_⟩, fun j => ?_, rfl, rfl⟩ <;>
    by_cases hj : j = i <;> simp [Table.setNode, hj, hd, hu]

theorem setNext : Relinked t (t'.setNext i v) := h.setNode rfl rfl

theorem setPre : Relinked t (t'.setPre i v) := h.setNode rfl rfl

theorem setStart : Relinked t (t'.setStart v) :=
  h.trans ⟨⟨⟨rfl, rfl⟩, rfl, rfl, rfl, fun _ => rfl⟩, fun _ => rfl, rfl, rfl⟩

theorem setEnd : Relinked t (t'.setEnd v) :=
  h.trans ⟨⟨⟨rfl, rfl⟩, rfl, rfl, rfl, fun _ => rfl⟩, fun _ => rfl, rfl, rfl⟩

theorem setUseCount : Relinked t (t'.setUseCount v) :=
  h.trans ⟨⟨⟨rfl, rfl⟩, rfl, rfl, rfl, fun _ => rfl⟩, fun _ => rfl, rfl, rfl⟩

end Relinked

/-- The used nodes are linked, in the order `l`. -/
structure ListInv {K : Type} (t : Table K) (l : List Nat) : Prop where
  init : t.bInitSuccess = true
  ring : IsRing t.nx t.pv t.real l
  lt : ∀ i ∈ l, i < t.real
  used : ∀ i, i < t.real → ((t.node i).bIsUsed = true ↔ i ∈ l)
  count : t.dwNodeUseCount = l.length

/-- The table between two calls. -/
structure AtRest {K : Type} (pid : Nat) (t : Table K) (l : List Nat) : Prop extends ListInv t l where
  flag : t.bHashUseFlag = false
  writer : t.dwWriteProcessId = 0 ∨ t.dwWriteProcessId = pid

namespace ListInv

variable {K : Type} {t : Table K} {l : List Nat} {i : Nat}

section

variable (h : ListInv t l)
include h

theorem length_le : l.length ≤ t.real := by
  have hnd := (nodup_cons.mp h.ring.nodup).2
  have hsub : l ⊆ List.range t.real := fun i hi => mem_range.mpr (h.lt i hi)
  simpa using (subperm_of_subset hnd hsub).length_le

theorem mem_iff : i ∈ l ↔ i < t.real ∧ (t.node i).bIsUsed = true :=
  ⟨fun hi => ⟨h.lt i hi, (h.used i (h.lt i hi)).mpr hi⟩, fun hi => (h.used i hi.1).mp hi.2⟩

theorem count_pos : 0 < t.dwNodeUseCount ↔ l ≠ [] := by
  rw [h.count, length_pos_iff]

theorem linkNode_links (hi : i ≠ t.real) :
    (t.linkNode i).nx = update (update t.nx (t.pv t.real) i) i t.real ∧
    (t.linkNode i).pv = update (update t.pv i (t.pv t.real)) t.real i := by
  have hend : t.pv t.real = t.dwNodeEndIndex := by simp [pv]
  unfold linkNode
  split
  · rename_i hc
    have he : t.dwNodeEndIndex ≠ t.real := by
      have hmem := h.ring.prev_head_mem (h.count_pos.mp hc)
      rw [hend] at hmem
      exact ne_of_lt (h.lt _ hmem)
    constructor <;> simp [hi, he, hend]
  · rename_i hc
    have hl : l = [] := by
      by_contra hne; exact hc (h.count_pos.mpr hne)
    subst hl
    rw [(IsRing.nil_iff.mp h.ring).2]
    constructor
    · simp [hi, Function.update_comm hi]
    · simp [hi]

theorem linkNode_ring (hi : i < t.real) (hil : i ∉ l) :
    IsRing (t.linkNode i).nx (t.linkNode i).pv t.real (l ++ [i]) := by
  have hne : i ≠ t.real := ne_of_lt hi
  have hx : i ∉ t.real :: l := by simp [hne, hil]
  have hr := (nodup_cons.mp h.ring.nodup).1
  have hp : t.pv t.real ≠ i := by
    rintro rfl; exact hx (h.ring.prev_mem mem_cons_self)
  obtain ⟨h1, h2⟩ := linkNode_links h hne
  rw [h1, h2]
  refine h.ring.insert_last hx ?_ ?_ ?_ ?_ (fun y hy hyp => ?_) fun y hy => ?_
  all_goals grind

theorem length_lt (hi : i < t.real) (hil : i ∉ l) : l.length < t.real := by
  have hnd := nodup_cons.mpr ⟨hil, (nodup_cons.mp h.ring.nodup).2⟩
  have hsub : i :: l ⊆ List.range t.real := fun j hj => by
    rcases mem_cons.mp hj with rfl | hj
    · exact mem_range.mpr hi
    · exact mem_range.mpr (h.lt j hj)
  have hle := (subperm_of_subset hnd hsub).length_le
  rwa [length_range] at hle

end

theorem real_lt (t : Table K) : t.real < 2 ^ 32 := t.rows.fits

theorem linkNode_relinked (t : Table K) (i : Nat) : Relinked t (t.linkNode i) := by
  unfold linkNode
  split
  · exact (Relinked.refl t).setUseCount.setNext.setPre.setNext.setEnd
  · exact (Relinked.refl t).setUseCount.setPre.setNext.setEnd.setStart

theorem linkNode_count (h : ListInv t l) (hlt : l.length < t.real) :
    (t.linkNode i).dwNodeUseCount = l.length + 1 := by
  have hfit := real_lt t
  unfold linkNode
  split
  · rw [h.count]
    exact inc32_eq (by omega)
  · rename_i hc
    rw [h.count_pos, not_not] at hc
    subst hc; rfl

variable {t' : Table K} {l1 l2 : List Nat}

/-- The flag, the time, the cursors and the data do not matter. -/
theorem of_eq (h : ListInv t l) (h1 : t'.rows = t.rows)
    (h2 : t'.bInitSuccess = t.bInitSuccess) (h3 : t'.nx = t.nx) (h4 : t'.pv = t.pv)
    (h5 : ∀ j, (t'.node j).bIsUsed = (t.node j).bIsUsed)
    (h6 : t'.dwNodeUseCount = t.dwNodeUseCount) : ListInv t' l := by
  have hreal : t'.real = t.real := by rw [real, h1]; rfl
  refine ⟨h2.trans h.init, by rw [h3, h4, hreal]; exact h.ring, ?_, ?_, h6.trans h.count⟩
  · rw [hreal]; exact h.lt
  · intro i hi
    rw [h5 i]
    exact h.used i (hreal ▸ hi)

theorem setData (h : ListInv t l) (hi : i < t.real) (k : K) : ListInv (t.setData i k) l := by
  have hne : i ≠ t.real := ne_of_lt hi
  refine h.of_eq rfl rfl ?_ ?_ (fun j => ?_) rfl
  · rw [Table.setData, Table.nx_setNode hne, update_eq_self_iff, Table.nx_of_ne hne]
  · rw [Table.setData, Table.pv_setNode hne, update_eq_self_iff, Table.pv_of_ne hne]
  · by_cases hj : j = i <;> simp [Table.setData, Table.setNode, hj]

theorem node_setUsed (b : Bool) (j : Nat) : (t.setUsed i b).node j =
    if j = i then { t.node i with bIsUsed := b } else t.node j := by
  by_cases hj : j = i <;> simp [setUsed, setNode, hj]

theorem setUsed_same (b : Bool) : Same t (t.setUsed i b) := by
  refine ⟨⟨rfl, rfl⟩, rfl, rfl, rfl, fun j => ?_⟩
  rw [node_setUsed]
  split
  · rename_i hj; rw [hj]
  · rfl

theorem leave (h : ListInv t l) : ListInv t.leave l :=
  h.of_eq rfl rfl rfl rfl (fun _ => rfl) rfl

/-- A node that was linked somewhere into the list, marked used. -/
theorem setUsed_of_perm {l' : List Nat} (h : ListInv t l) (hr : Relinked t t')
    (hi : i < t.real) (hring : IsRing t'.nx t'.pv t.real l') (hl' : l'.Perm (i :: l))
    (hcount : t'.dwNodeUseCount = l.length + 1) : ListInv (t'.setUsed i true) l' := by
  have hreal := hr.real_eq
  have hne : i ≠ t'.real := by rw [hreal]; exact ne_of_lt hi
  refine ⟨(setUsed_same true).init.trans (hr.init.trans h.init), ?_, fun j hj => ?_, fun j hj => ?_,
    ?_⟩
  · rw [nx_setUsed hne, pv_setUsed hne, real_setUsed, hreal]
    exact hring
  · rw [real_setUsed, hreal]
    rcases mem_cons.mp (hl'.mem_iff.mp hj) with rfl | hj
    · exact hi
    · exact h.lt j hj
  · rw [real_setUsed, hreal] at hj
    rw [node_setUsed, hl'.mem_iff]
    split
    · rename_i hji; simp [hji]
    · rename_i hji; rw [hr.used, h.used j hj]; simp [hji]
  · exact hcount.trans (by rw [hl'.length_eq]; rfl)

theorem linkUsed (h : ListInv t l) (hi : i < t.real) (hil : i ∉ l) :
    ListInv ((t.linkNode i).setUsed i true) (l ++ [i]) :=
  h.setUsed_of_perm (linkNode_relinked t i) hi (h.linkNode_ring hi hil)
    (perm_append_singleton i l) (h.linkNode_count (h.length_lt hi hil))

/-- The links that `unlinkNode` writes; no check of a neighbour fails. -/
theorem unlinkNode_ok (h : ListInv t (l1 ++ i :: l2)) :
    ∃ t', (t.setUseCount (dec32 t.dwNodeUseCount)).unlinkNode i = .ok t' ∧
      t'.nx = update t.nx (t.pv i) (t.nx i) ∧ t'.pv = update t.pv (t.nx i) (t.pv i) ∧
      t'.dwNodeUseCount = (l1 ++ l2).length ∧ Relinked t t' := by
  have hcount : dec32 t.dwNodeUseCount = (l1 ++ l2).length := by
    have hle := h.length_le
    rw [h.count]
    simp only [length_append, length_cons]
    rw [dec32, if_neg (by omega)]
    omega
  have hi : i ∈ t.real :: (l1 ++ i :: l2) := by simp
  have hne : i ≠ t.real := ne_of_lt (h.lt i (by simp))
  have hpm := h.ring.prev_mem hi
  have hnm := h.ring.next_mem hi
  have hcell : ∀ {j}, j ∈ t.real :: (l1 ++ i :: l2) → j ≠ t.real → (t.node j).bIsUsed = true := by
    intro j hj hjr
    exact (h.mem_iff.mp ((mem_cons.mp hj).resolve_left hjr)).2
  have hr := (Relinked.refl t).setUseCount (v := (l1 ++ l2).length)
  rw [hcount, unlinkNode, node_setUseCount, real_setUseCount, ← nx_of_ne hne, ← pv_of_ne hne]
  split
  · -- the last node of the list
    rename_i hc
    replace hc := append_eq_nil_iff.mp (length_eq_zero_iff.mp hc)
    rw [h.ring.next_eq_head_iff.mpr hc.2, h.ring.prev_eq_head_iff.mpr hc.1]
    exact ⟨_, rfl, by simp, by simp, rfl, hr.setStart.setEnd⟩
  rename_i hc
  have hone : ¬ (t.pv i = t.real ∧ t.nx i = t.real) := fun ⟨h1, h2⟩ => hc (by
    rw [h.ring.prev_eq_head_iff.mp h1, h.ring.next_eq_head_iff.mp h2]; rfl)
  split
  · rename_i hn
    have hp : t.pv i ≠ t.real := fun h => hone ⟨h, hn⟩
    rw [hcell hpm hp, hn]
    exact ⟨_, rfl, by simp [hp], by simp [hp], rfl, hr.setNext.setEnd⟩
  rename_i hn
  split
  · rename_i hp
    rw [hcell hnm hn, hp]
    exact ⟨_, rfl, by simp [hn], by simp [hn], rfl, hr.setPre.setStart⟩
  · rename_i hp
    rw [hcell hpm hp, hcell hnm hn]
    exact ⟨_, rfl, by simp [hn, hp], by simp [hn, hp], rfl, hr.setNext.setPre⟩

theorem clearNode_relinked : Relinked (t.setUsed i false) (t.clearNode i) :=
  (Relinked.refl _).setNext.setPre

theorem clearNode_same : Same t (t.clearNode i) :=
  (setUsed_same false).trans clearNode_relinked.toSame

theorem clearNode_used (j : Nat) :
    ((t.clearNode i).node j).bIsUsed = if j = i then false else (t.node j).bIsUsed := by
  rw [clearNode_relinked.used, node_setUsed]
  split <;> rfl

theorem clearNode_inv (h : ListInv t (l1 ++ i :: l2)) (h1 : t'.nx = update t.nx (t.pv i) (t.nx i))
    (h2 : t'.pv = update t.pv (t.nx i) (t.pv i))
    (h3 : t'.dwNodeUseCount = (l1 ++ l2).length) (hr : Relinked t t') :
    ListInv (t'.clearNode i) (l1 ++ l2) := by
  have hreal := hr.real_eq
  have hreal' : (t'.clearNode i).real = t.real := by rw [← hreal]; rfl
  have hi : i < t.real := h.lt i (by simp)
  have hne : i ≠ t'.real := by rw [hreal]; exact ne_of_lt hi
  have h4 : (t'.clearNode i).nx = update t'.nx i t'.real := by simp [clearNode, hne]
  have h5 : (t'.clearNode i).pv = update t'.pv i t'.real := by simp [clearNode, hne]
  have hout : ∀ y ∈ t.real :: (l1 ++ l2), y ≠ i := by
    have hperm : (t.real :: l1 ++ i :: l2).Perm (i :: (t.real :: l1 ++ l2)) := perm_middle
    have hnd := hperm.nodup_iff.mp h.ring.nodup
    rintro y hy rfl
    exact (nodup_cons.mp hnd).1 hy
  obtain ⟨hnx, hpv⟩ := h.ring.links_ne_self
  refine ⟨clearNode_same.init.trans (hr.init.trans h.init), ?_, fun j hj => ?_, fun j hj => ?_, ?_⟩
  · rw [h4, h5, hreal', h1, h2]
    refine h.ring.unlink ?_ ?_ (fun y hy hyp => ?_) fun y hy hyn => ?_
    · simp [hpv]
    · simp [hnx]
    · simp [hout y hy, hyp]
    · simp [hout y hy, hyn]
  · rw [hreal']
    exact h.lt j (by simp only [mem_append] at hj ⊢; tauto)
  · rw [hreal'] at hj
    rw [clearNode_used]
    split
    · rename_i hji
      subst hji
      have : j ∉ l1 ++ l2 := fun hm => hout j (mem_cons_of_mem _ hm) rfl
      simpa using this
    · rename_i hji; rw [hr.used, h.used j hj]; simp [hji]
  · rw [← h3]; rfl

variable [Inhabited K] {pid : Nat}

section

variable (h : ListInv t l)
include h

theorem enter_ok (hw : t.dwWriteProcessId = 0 ∨ t.dwWriteProcessId = pid)
    (hf : t.bHashUseFlag = false) (now : Nat) :
    ∃ t', t.enter pid now = (t', true) ∧ ListInv t' l ∧ Relinked t t' ∧ t'.nx = t.nx ∧ t'.pv = t.pv := by
  unfold enter
  split
  · rename_i h0
    rw [if_pos (hw.resolve_left h0).symm]
    exact ⟨t, rfl, h, Relinked.refl t, rfl, rfl⟩
  · rw [hf]
    exact ⟨_, rfl, h.of_eq rfl rfl rfl rfl (fun _ => rfl) rfl,
      ⟨⟨⟨rfl, rfl⟩, rfl, rfl, rfl, fun _ => rfl⟩, fun _ => rfl, rfl, rfl⟩, rfl, rfl⟩

/-- **Insert.** An unused node goes to the end of the list. -/
theorem insertHashNode (hw : t.dwWriteProcessId = 0 ∨ t.dwWriteProcessId = pid)
    (hf : t.bHashUseFlag = false) (hi : i < t.real) (hil : i ∉ l) (now : Nat) :
    ∃ t', t.insertHashNode i pid now = (t', 0) ∧ ListInv t' (l ++ [i]) ∧
      t'.bHashUseFlag = false ∧ Same t t' ∧ t'.dwCurIndex = t.dwCurIndex ∧
      t'.dwCurIndexRevers = t.dwCurIndexRevers := by
  obtain ⟨t1, he, h1, hr, -⟩ := h.enter_ok hw hf now
  have hi1 : i < t1.real := by rw [real, hr.rows]; exact hi
  have hlink := hr.trans (linkNode_relinked t1 i)
  refine ⟨((t1.linkNode i).setUsed i true).leave, ?_, (h1.linkUsed hi1 hil).leave, rfl,
    (hlink.toSame.trans (setUsed_same true)).leave, hlink.cur, hlink.rev⟩
  rw [Table.insertHashNode, if_neg (by simp [h.init]), he]

theorem cursorCheck_eq {cur next : Nat} (hc : cur ∈ l)
    (hn : next ∈ t.real :: l) : t.cursorCheck cur next = t := by
  unfold cursorCheck
  split
  · rename_i hne
    have hnl := (mem_cons.mp hn).resolve_left hne.1
    simp [(h.mem_iff.mp hc).2, (h.mem_iff.mp hnl).2]
  · rfl

theorem getNextNode_eq (hc : t.dwCurIndex ∈ l) :
    t.getNextNode = { t with dwCurIndex := t.nx t.dwCurIndex } := by
  have hne := ne_of_lt (h.lt _ hc)
  have hn : t.nx t.dwCurIndex ∈ t.real :: l := h.ring.next_mem (mem_cons_of_mem _ hc)
  have h1 : ListInv { t with dwCurIndex := t.nx t.dwCurIndex } l :=
    h.of_eq rfl rfl rfl rfl (fun _ => rfl) rfl
  rw [getNextNode, if_neg hne, ← nx_of_ne hne]
  exact h1.cursorCheck_eq hc hn

theorem getNextNodeRevers_eq (hc : t.dwCurIndexRevers ∈ l) :
    t.getNextNodeRevers = { t with dwCurIndexRevers := t.pv t.dwCurIndexRevers } := by
  have hne := ne_of_lt (h.lt _ hc)
  have hn : t.pv t.dwCurIndexRevers ∈ t.real :: l := h.ring.prev_mem (mem_cons_of_mem _ hc)
  have h1 : ListInv { t with dwCurIndexRevers := t.pv t.dwCurIndexRevers } l :=
    h.of_eq rfl rfl rfl rfl (fun _ => rfl) rfl
  rw [getNextNodeRevers, if_neg hne, ← pv_of_ne hne]
  exact h1.cursorCheck_eq hc hn

theorem moveCursors_eq (hi : i ∈ l) : t.moveCursors i = { t with
      dwCurIndex := if t.dwCurIndex = i then t.nx i else t.dwCurIndex
      dwCurIndexRevers := if t.dwCurIndexRevers = i then t.pv i else t.dwCurIndexRevers } := by
  have h1 : (if t.dwCurIndex = i then t.getNextNode else t) =
      { t with dwCurIndex := if t.dwCurIndex = i then t.nx i else t.dwCurIndex } := by
    split
    · rename_i hc
      rw [h.getNextNode_eq (hc ▸ hi), hc]
    · rfl
  have h2 : ListInv { t with dwCurIndex := if t.dwCurIndex = i then t.nx i else t.dwCurIndex } l :=
    h.of_eq rfl rfl rfl rfl (fun _ => rfl) rfl
  rw [moveCursors, h1]
  dsimp only
  split
  · rename_i hc
    rw [h2.getNextNodeRevers_eq (hc ▸ hi)]
    rw [hc]
    rfl
  · rfl

end

/-- Where the cursors stand after node `i` was taken out. -/
structure Passed (t t' : Table K) (i : Nat) : Prop where
  cur : t'.dwCurIndex = if t.dwCurIndex = i then t.nx i else t.dwCurIndex
  rev : t'.dwCurIndexRevers = if t.dwCurIndexRevers = i then t.pv i else t.dwCurIndexRevers

omit [Inhabited K] in
theorem Passed.clearNode (h : Passed t t' i) : Passed t (t'.clearNode i).leave i := by
  have hr := clearNode_relinked (t := t') (i := i)
  exact ⟨hr.cur.trans h.cur, hr.rev.trans h.rev⟩

/-- **Remove.** A used node is taken out of the list. -/
theorem removeHashNode (h : ListInv t l) (hw : t.dwWriteProcessId = 0 ∨ t.dwWriteProcessId = pid)
    (hf : t.bHashUseFlag = false) (hl : l = l1 ++ i :: l2) (now : Nat) :
    ∃ t', t.removeHashNode i pid now = (t', 0) ∧ ListInv t' (l1 ++ l2) ∧
      t'.bHashUseFlag = false ∧ Same t t' ∧ Passed t t' i := by
  obtain ⟨t1, he, h1, hr1, hnx1, hpv1⟩ := h.enter_ok hw hf now
  have hmove := h1.moveCursors_eq (i := i) (by simp [hl])
  subst hl
  -- the table with the cursors moved
  obtain ⟨t2, ht2⟩ : ∃ t2, t2 = t1.moveCursors i := ⟨_, rfl⟩
  rw [hmove] at ht2
  have hs2 : Same t1 t2 := by
    rw [ht2]
    exact ⟨⟨rfl, rfl⟩, rfl, rfl, rfl, fun _ => rfl⟩
  have hp2 : Passed t t2 i := by
    rw [ht2]
    constructor
    · rw [← hr1.cur, ← hnx1]
    · rw [← hr1.rev, ← hpv1]
  have h2 : ListInv t2 (l1 ++ i :: l2) := by
    rw [ht2]
    exact h1.of_eq rfl rfl rfl rfl (fun _ => rfl) rfl
  obtain ⟨t3, hok, hnx, hpv, hc, hr3⟩ := unlinkNode_ok h2
  refine ⟨(t3.clearNode i).leave, ?_, (clearNode_inv h2 hnx hpv hc hr3).leave, rfl,
    (((hr1.toSame.trans hs2).trans hr3.toSame).trans clearNode_same).leave,
    Passed.clearNode ⟨hr3.cur.trans hp2.cur, hr3.rev.trans hp2.rev⟩⟩
  rw [removeHashNode, if_neg (by simp [h.init]), he]
  dsimp only
  rw [hmove, ← ht2, hok]

end ListInv

end DesPwd.L2.SharedHash
