import DesPwd.L2Machine.SharedHashMap

/-!
# Sorted inserts, and the list over whole runs

`InsertHashNodeSort` walks back from the end of the list to the first node that
does not compare greater, and links the new node behind it; when there is none
the node becomes the first. The comparison is the caller's and may be any
function: the list is in order whatever it answers.

* `ListInv.insertHashNodeSort`: the node goes to its place, no check fails.
* `ListOp`, `listStep`: the calls of one process on a table, with the caller's
  writes to its data and any use of the two cursors between them.
* `hash_list_both_ways`: after every such run both lists hold exactly the used
  nodes, one the reverse of the other.
-/
namespace DesPwd.L2.SharedHash

open Rings Run Links List Table
open Function (update update_apply)

namespace Table

variable {K : Type} {t : Table K} {i : Nat}

/-- Where the walk back ends: behind it only nodes that compare greater. -/
theorem sortPlace_spec :
    ∀ {n} {a b} {last}, IsRing t.nx t.pv t.real (a ++ last :: b) →
      last ≠ t.real → (∀ x ∈ a, x ≠ t.real) → a.length < n →
      (∀ y ∈ b, 0 < t.fun_cmp (t.node y).data (t.node i).data) →
      ∃ x l1 l2, a ++ last :: b = l1 ++ x :: l2 ∧
        (∀ y ∈ l2, 0 < t.fun_cmp (t.node y).data (t.node i).data) ∧
        (t.sortPlace i n last = some (x, true) ∧ ¬ 0 < t.fun_cmp (t.node x).data (t.node i).data ∨
          t.sortPlace i n last = some (x, false) ∧ l1 = [] ∧
            0 < t.fun_cmp (t.node x).data (t.node i).data)
  | 0, _, _, _, _, _, _, hn, _ => absurd hn (Nat.not_lt_zero _)
  | n + 1, a, b, last, hr, hlast, ha, hn, hb => by
    by_cases hc : 0 < t.fun_cmp (t.node last).data (t.node i).data
    · have hpre : (t.node last).dwNodePreIndex = t.pv last := (pv_of_ne hlast).symm
      have hb' : ∀ y ∈ last :: b, 0 < t.fun_cmp (t.node y).data (t.node i).data := by
        intro y hy
        rcases mem_cons.mp hy with rfl | hy
        · exact hc
        · exact hb y hy
      rcases eq_nil_or_concat' a with rfl | ⟨a0, p, rfl⟩
      · refine ⟨last, [], b, rfl, hb, .inr ⟨?_, rfl, hc⟩⟩
        rw [sortPlace, if_neg (not_not.mpr hc), hpre, if_pos (hr.prev_eq_head_iff.mpr rfl)]
      have hp : t.pv last = p := (seg_append.mp (seg_append.mp hr.seg).1).2.2
      have hne : t.pv last ≠ t.real := by rw [hp]; exact ha p (by simp)
      rw [sortPlace, if_neg (not_not.mpr hc), hpre, if_neg hne, hp]
      rw [append_assoc] at hr ⊢
      refine sortPlace_spec hr (hp ▸ hne) (fun x hx => ha x (mem_append_left _ hx)) ?_ hb'
      simp only [length_append, length_singleton] at hn
      omega
    · exact ⟨last, a, b, rfl, hb, .inl ⟨by rw [sortPlace, if_pos hc], hc⟩⟩

end Table

namespace ListInv

variable {K : Type} {t : Table K} {l : List Nat} {i : Nat}

/-- `l'` is the list `l` with node `i` linked at its place: only greater nodes
behind it, and no greater one right before it. -/
def SortedInto (t : Table K) (i : Nat) (l l' : List Nat) : Prop :=
  ∃ l1 l2, l = l1 ++ l2 ∧ l' = l1 ++ i :: l2 ∧
    (∀ y ∈ l2, 0 < t.fun_cmp (t.node y).data (t.node i).data) ∧
    ∀ x ∈ l1.getLast?, ¬ 0 < t.fun_cmp (t.node x).data (t.node i).data

variable {last : Nat}

/-- Each of the three ways to link an unused node keeps the ring. -/
theorem linkFront_ring {l2 : List Nat} (hr : IsRing t.nx t.pv t.real (last :: l2))
    (hx : i ∉ t.real :: last :: l2) :
    IsRing (t.linkFront last i).nx (t.linkFront last i).pv t.real (i :: last :: l2) := by
  have hi : i ≠ t.real := fun he => hx (by simp [he])
  have hl : last ≠ t.real := fun he => (nodup_cons.mp hr.nodup).1 (by simp [he])
  have hs : t.nx t.real = last := hr.seg.1.1
  have hst : t.dwNodeStartIndex = last := by rw [← hs]; simp [nx]
  have h1 : (t.linkFront last i).nx = update (update t.nx i last) t.real i := by
    simp [linkFront, hi, hl, hst]
  have h2 : (t.linkFront last i).pv = update (update t.pv last i) i t.real := by
    simp [linkFront, hi, hl]
  have hnd := (nodup_cons.mp hr.nodup).1
  rw [h1, h2]
  refine hr.insert_first hx ?_ ?_ ?_ ?_ (fun y hy => ?_) fun y hy hyn => ?_
  all_goals grind

theorem linkBack_ring {l1 : List Nat}
    (hr : IsRing t.nx t.pv t.real (l1 ++ [last])) (hx : i ∉ t.real :: (l1 ++ [last])) :
    IsRing (t.linkBack last i).nx (t.linkBack last i).pv t.real (l1 ++ [last, i]) := by
  have hi : i ≠ t.real := fun he => hx (by simp [he])
  have hl : last ≠ t.real := fun he => (nodup_cons.mp hr.nodup).1 (by simp [he])
  have hs : t.pv t.real = last := (seg_append.mp hr.seg).2.2
  have hen : t.dwNodeEndIndex = last := by rw [← hs]; simp [pv]
  have h1 : (t.linkBack last i).nx = update (update t.nx last i) i t.real := by
    simp [linkBack, hi, hl]
  have h2 : (t.linkBack last i).pv = update (update t.pv i last) t.real i := by
    simp [linkBack, hi, hl, hen]
  have hnd := (nodup_cons.mp hr.nodup).1
  rw [h1, h2, show l1 ++ [last, i] = l1 ++ [last] ++ [i] by simp]
  refine hr.insert_last hx ?_ ?_ ?_ ?_ (fun y hy hyn => ?_) fun y hy => ?_
  all_goals grind

theorem linkBetween_ring {l1 l2 : List Nat}
    (hr : IsRing t.nx t.pv t.real (l1 ++ last :: l2)) (hx : i ∉ t.real :: (l1 ++ last :: l2))
    (hn : t.nx last ≠ t.real) :
    IsRing (t.linkBetween last i).nx (t.linkBetween last i).pv t.real (l1 ++ last :: i :: l2) := by
  have hi : i ≠ t.real := fun he => hx (by simp [he])
  have hl : last ≠ t.real := fun he => (nodup_cons.mp hr.nodup).1 (by simp [he])
  have hil : last ≠ i := by rintro rfl; exact hx (by simp)
  have hnm := hr.next_mem (x := last) (by simp)
  have hnx : (t.node last).dwNodeNextIndex = t.nx last := (nx_of_ne hl).symm
  have hnx' : ((((t.setNext i (t.nx last)).setPre i last)).node last).dwNodeNextIndex =
      t.nx last := by
    simp [setNext, setPre, setNode, hil, hnx]
  have h1 : (t.linkBetween last i).nx = update (update t.nx i (t.nx last)) last i := by
    simp [linkBetween, hnx, hnx', hi, hl, hn]
  have h2 : (t.linkBetween last i).pv = update (update t.pv i last) (t.nx last) i := by
    simp [linkBetween, hnx, hnx', hi, hl, hn]
  rw [h1, h2]
  refine hr.insert_after hx ?_ ?_ ?_ ?_ (fun y hy hyp => ?_) fun y hy hyn => ?_
  all_goals grind

/-- The links that `linkNodeSort` writes into a list that is not empty. -/
theorem linkNodeSort_some (h : ListInv t l) (hi : i < t.real) (hil : i ∉ l)
    (hc : 0 < t.dwNodeUseCount) :
    ∃ t' l', t.linkNodeSort i = some (.ok t') ∧ SortedInto t i l l' ∧
      IsRing t'.nx t'.pv t.real l' ∧ t'.dwNodeUseCount = inc32 t.dwNodeUseCount ∧
      Relinked t t' := by
  have hx : i ∉ t.real :: l := by simp [ne_of_lt hi, hil]
  have hnr : ∀ x ∈ l, x ≠ t.real := fun x hx => ne_of_lt (h.lt x hx)
  have hlen := h.length_le
  -- the last node of the list, where the walk starts
  obtain ⟨l0, e, rfl⟩ := (eq_nil_or_concat' l).resolve_left (h.count_pos.mp hc)
  have he : t.dwNodeEndIndex = e := by
    rw [← (seg_append.mp h.ring.seg).2.2]; simp [pv]
  obtain ⟨t1, ht1, hcount, hrel, hring, hreal, hend, hinto⟩ : ∃ t1,
      t1 = t.setUseCount (inc32 t.dwNodeUseCount) ∧ t1.dwNodeUseCount = inc32 t.dwNodeUseCount ∧
      Relinked t t1 ∧ IsRing t1.nx t1.pv t1.real (l0 ++ [e]) ∧ t1.real = t.real ∧
      t1.dwNodeEndIndex = e ∧ ∀ l', SortedInto t1 i (l0 ++ [e]) l' → SortedInto t i (l0 ++ [e]) l' :=
    ⟨_, rfl, rfl, (Relinked.refl t).setUseCount, h.ring, rfl, he, fun _ h => h⟩
  obtain ⟨x, l1, l2, hl, hgt, hpl⟩ := sortPlace_spec (n := t1.real + 1) hring
    (by rw [hreal]; exact hnr e (by simp))
    (fun x hx => by rw [hreal]; exact hnr x (mem_append_left _ hx))
    (by simp only [length_append] at hlen; omega)
    (by simp)
  have hx1 : i ∉ t1.real :: (l1 ++ x :: l2) := by rw [hreal, ← hl]; exact hx
  have hxr : x ≠ t1.real := by rw [hreal]; exact hnr x (hl ▸ by simp)
  rw [hl] at hring hinto
  rw [← hreal]
  rcases hpl with ⟨hsp, hle⟩ | ⟨hsp, rfl, hgt'⟩
  · have hplace : SortedInto t i (l0 ++ [e]) (l1 ++ x :: i :: l2) := by
      rw [hl]
      refine hinto _ ⟨l1 ++ [x], l2, by simp, by simp, hgt, ?_⟩
      simpa using hle
    by_cases hn : (t1.node x).dwNodeNextIndex = t1.real
    · -- the place is the end of the list
      have hl2 := hring.next_eq_head_iff.mp ((nx_of_ne hxr).trans hn)
      subst hl2
      obtain rfl : e = x := singleton_inj.mp (append_inj' hl rfl).2
      refine ⟨t1.linkBack e i, _, ?_, hplace, linkBack_ring hring hx1, ?_, ?_⟩
      · rw [linkNodeSort, if_pos hc, ← ht1]
        simp [hend, hsp, hn]
      · simp [linkBack, hcount]
      · exact hrel.setNext.setNext.setPre.setEnd
    · have hn' : t1.nx x ≠ t1.real := by rwa [nx_of_ne hxr]
      refine ⟨t1.linkBetween x i, _, ?_, hplace, linkBetween_ring hring hx1 hn', ?_, ?_⟩
      · rw [linkNodeSort, if_pos hc, ← ht1]
        simp [hsp, hn, hend]
      · simp [linkBetween, hcount]
      · exact hrel.setNext.setPre.setPre.setNext
  · have hst : t1.dwNodeStartIndex = x := by
      rw [← hring.seg.1.1]; simp [nx]
    refine ⟨t1.linkFront x i, _, ?_, ?_, linkFront_ring hring hx1, ?_, ?_⟩
    · rw [linkNodeSort, if_pos hc, ← ht1]
      simp [hsp, hst, hend]
    · rw [hl]
      exact hinto _ ⟨[], x :: l2, rfl, rfl, forall_mem_cons.mpr ⟨hgt', hgt⟩, by simp⟩
    · simp [linkFront, hcount]
    · exact hrel.setPre.setPre.setNext.setStart

/-- Linking an unused node at its place and marking it used. -/
theorem linkNodeSort_inv (h : ListInv t l) (hi : i < t.real) (hil : i ∉ l) :
    ∃ t' l', t.linkNodeSort i = some (.ok t') ∧ SortedInto t i l l' ∧
      ListInv (t'.setUsed i true) l' ∧ Relinked t t' := by
  by_cases hc : 0 < t.dwNodeUseCount
  · obtain ⟨t', l', hs, hp, hring, hcount, hrel⟩ := h.linkNodeSort_some hi hil hc
    have hlt := h.length_lt hi hil
    have hperm : l'.Perm (i :: l) := by
      obtain ⟨l1, l2, rfl, rfl, -⟩ := hp
      exact perm_middle
    have hfit := real_lt t
    refine ⟨t', l', hs, hp, h.setUsed_of_perm hrel hi hring hperm ?_, hrel⟩
    rw [hcount, h.count]
    exact inc32_eq (by omega)
  · have hl : l = [] := by
      by_contra hne
      exact hc (h.count_pos.mpr hne)
    subst hl
    have hlink : t.linkNodeSort i = some (.ok (t.linkNode i)) := by
      rw [linkNodeSort, if_neg hc, linkNode, if_neg hc]
    exact ⟨t.linkNode i, [i], hlink, ⟨[], [], rfl, rfl, by simp, by simp⟩, h.linkUsed hi hil,
      linkNode_relinked t i⟩

variable [Inhabited K] {pid : Nat}

/-- **Sorted insert.** An unused node goes to its place. -/
theorem insertHashNodeSort (h : ListInv t l)
    (hw : t.dwWriteProcessId = 0 ∨ t.dwWriteProcessId = pid) (hf : t.bHashUseFlag = false)
    (hi : i < t.real) (hil : i ∉ l) (now : Nat) :
    ∃ t' l', t.insertHashNodeSort i pid now = some (t', 0) ∧ ListInv t' l' ∧
      SortedInto t i l l' ∧ t'.bHashUseFlag = false ∧ Same t t' := by
  obtain ⟨t1, he, h1, hr, -⟩ := h.enter_ok hw hf now
  have hi1 : i < t1.real := by rw [real, hr.rows]; exact hi
  obtain ⟨t2, l', hlink, hp, h2, hr2⟩ := h1.linkNodeSort_inv hi1 hil
  refine ⟨(t2.setUsed i true).leave, l', ?_, h2.leave, ?_, rfl,
    ((hr.trans hr2).toSame.trans (setUsed_same true)).leave⟩
  · rw [Table.insertHashNodeSort, if_neg (by simp [h.init]), he]
    simp [hlink]
  · obtain ⟨l1, l2, e1, e2, h3, h4⟩ := hp
    simp only [hr.cmp, hr.data] at h3 h4
    exact ⟨l1, l2, e1, e2, h3, h4⟩

end ListInv

/-! ## Runs -/

/-- What one process does with a table: its calls, with the time at each, and
between them its writes to the nodes' data and moves of the cursors. -/
inductive ListOp (K : Type) where
  | insert (i now : Nat)
  | insertSort (i now : Nat)
  | remove (i now : Nat)
  | write (i : Nat) (k : K)
  | cursors (dwCurIndex dwCurIndexRevers : Nat)

section Runs

variable {K : Type} [Inhabited K] (pid : Nat)

def listStep (t : Table K) : ListOp K → Option (Table K)
  | .insert i now => some (t.insertHashNode i pid now).1
  | .insertSort i now => (t.insertHashNodeSort i pid now).map Prod.fst
  | .remove i now => some (t.removeHashNode i pid now).1
  | .write i k => some (t.setData i k)
  | .cursors c r => some { t with dwCurIndex := c, dwCurIndexRevers := r }

/-- Unused nodes of the table are inserted, used ones removed. -/
def ListLegal (t : Table K) : ListOp K → Prop
  | .insert i _ => i < t.real ∧ (t.node i).bIsUsed = false
  | .insertSort i _ => i < t.real ∧ (t.node i).bIsUsed = false
  | .remove i _ => i < t.real ∧ (t.node i).bIsUsed = true
  | .write i _ => i < t.real
  | .cursors _ _ => True

instance ListLegal.decidable (t : Table K) : ∀ op, Decidable (ListLegal t op)
  | .insert i _ => inferInstanceAs (Decidable (i < t.real ∧ (t.node i).bIsUsed = false))
  | .insertSort i _ => inferInstanceAs (Decidable (i < t.real ∧ (t.node i).bIsUsed = false))
  | .remove i _ => inferInstanceAs (Decidable (i < t.real ∧ (t.node i).bIsUsed = true))
  | .write i _ => inferInstanceAs (Decidable (i < t.real))
  | .cursors _ _ => .isTrue trivial

variable {pid} {t : Table K}

theorem listStep_atRest (t : Table K) (op : ListOp K) (h : ∃ l, AtRest pid t l)
    (hop : ListLegal t op) : ∃ t', listStep pid t op = some t' ∧ ∃ l, AtRest pid t' l := by
  obtain ⟨l, h⟩ := h
  have hout : ∀ {i}, i < t.real → (t.node i).bIsUsed = false → i ∉ l := fun hi hu hm => by
    rw [(h.used _ hi).mpr hm] at hu; cases hu
  cases op with
  | insert i now =>
    obtain ⟨t', he, h', hf, hs, -⟩ := h.toListInv.insertHashNode h.writer h.flag hop.1
      (hout hop.1 hop.2) now
    exact ⟨t', by rw [listStep, he], _, h', hf, hs.writer ▸ h.writer⟩
  | insertSort i now =>
    obtain ⟨t', l', he, h', -, hf, hs⟩ := h.toListInv.insertHashNodeSort h.writer h.flag hop.1
      (hout hop.1 hop.2) now
    exact ⟨t', by rw [listStep, he]; rfl, _, h', hf, hs.writer ▸ h.writer⟩
  | remove i now =>
    obtain ⟨l1, l2, hl⟩ := append_of_mem ((h.used i hop.1).mp hop.2)
    obtain ⟨t', he, h', hf, hs, -⟩ := h.toListInv.removeHashNode h.writer h.flag hl now
    exact ⟨t', by rw [listStep, he], _, h', hf, hs.writer ▸ h.writer⟩
  | write i k => exact ⟨_, rfl, l, h.toListInv.setData hop k, h.flag, h.writer⟩
  | cursors c r =>
    exact ⟨_, rfl, l, h.toListInv.of_eq rfl rfl rfl rfl (fun _ => rfl) rfl, h.flag, h.writer⟩

omit [Inhabited K] in
/-- The list read in both directions through the nodes' own links. -/
theorem ListInv.linked {l : List Nat} (h : ListInv t l) :
    Linked (fun i => (t.node i).dwNodeNextIndex) t.real t.dwNodeStartIndex l ∧
      Linked (fun i => (t.node i).dwNodePreIndex) t.real t.dwNodeEndIndex l.reverse := by
  have hne : ∀ i ∈ l, i ≠ t.real := fun i hi => ne_of_lt (h.lt i hi)
  have hnext := h.ring.seg.linked.congr fun i hi => (nx_of_ne (hne i hi)).symm
  have hpre := h.ring.seg.reverse.linked.congr fun i hi =>
    (pv_of_ne (hne i (mem_reverse.mp hi))).symm
  rw [nx, if_pos rfl] at hnext
  rw [pv, if_pos rfl] at hpre
  exact ⟨hnext, hpre⟩

/-- **The list both ways.** -/
theorem hash_list_both_ways (pid : Nat) (t0 : Table K) (h0 : Fresh pid t0) (ops : List (ListOp K))
    (hops : Meets (listStep pid) ListLegal ops t0) :
    ∃ t, run (listStep pid) ops t0 = some t ∧ t.bHashUseFlag = false ∧
      ∃ l, Linked (fun i => (t.node i).dwNodeNextIndex) t.real t.dwNodeStartIndex l ∧
        Linked (fun i => (t.node i).dwNodePreIndex) t.real t.dwNodeEndIndex l.reverse ∧
        l.Nodup ∧ (∀ i, i ∈ l ↔ i < t.real ∧ (t.node i).bIsUsed = true) ∧
        l.length = t.dwNodeUseCount := by
  obtain ⟨t, hr, l, h⟩ := run_inv listStep_atRest ⟨[], h0.listInv, h0.flag, h0.writer⟩ hops
  refine ⟨t, hr, h.flag, l, h.linked.1, h.linked.2, (nodup_cons.mp h.ring.nodup).2,
    fun i => h.mem_iff, h.count.symm⟩

end Runs

/-- Three nodes linked in order; the middle one, where a cursor stands, is
removed again. -/
def threeNodes : List (ListOp Nat) :=
  [.write 4 20, .insert 4 1, .write 9 10, .insertSort 9 2, .write 2 15, .insertSort 2 3,
    .cursors 2 20, .remove 2 4]

theorem hash_list_both_ways_three : ∃ t, run (listStep 7) threeNodes
        (initHashTableForWrite twentyNodes (fun a b : Nat => (a : Int) - b) true) = some t ∧
      t.bHashUseFlag = false ∧
      ∃ l, Linked (fun i => (t.node i).dwNodeNextIndex) t.real t.dwNodeStartIndex l ∧
        l.length = t.dwNodeUseCount := by
  have hlegal : Meets (listStep 7) ListLegal threeNodes
      (initHashTableForWrite twentyNodes (fun a b : Nat => (a : Int) - b) true) := by
    decide +kernel
  obtain ⟨t, hr, hf, l, hl, -, -, -, hc⟩ := hash_list_both_ways 7 _ (fresh_init _ _ true) _ hlegal
  exact ⟨t, hr, hf, l, hl, hc⟩

end DesPwd.L2.SharedHash
