import DesPwd.L2Machine.SharedHashMap
import Mathlib.Data.List.Find

/-!
# The shared hash table as a store

A caller that keeps values in the nodes searches a key, writes a found or an
empty node, and later takes the nodes out one after the other from the front
of the list (`drainTable`, the loop of the agent's readers). To such a caller
the table is the list of its used nodes with their data, `Cells`.

* `Holds`: a table and its cells.
* `Holds.searchEx_eq`, `Holds.setCell`, `Holds.insertCell`: the search and the
  two writes, said over the cells.
* `Holds.drainTable`: the reader's loop takes cells off the front.
* `createHashTable`: the table of `MtReport_CreateHashTable`, with its rows.

Source files without a directory are in `language/c_cpp/`.
-/
namespace DesPwd.L2.SharedHash

open Rings List Table

/-! ## Walking the list -/

namespace Table

variable {K A : Type} [Inhabited K]

def setCur (t : Table K) (v : Nat) : Table K := { t with dwCurIndex := v }

/-- The data of the used nodes. -/
def entries (t : Table K) : List K :=
  ((List.range t.real).filter fun i => (t.node i).bIsUsed).map fun i => (t.node i).data

/-- mirrors mt_shared_hash.c:820-838 -/
def getCurNode (t : Table K) : Table K × Option Nat :=
  if t.dwCurIndex = t.real then (t, none)
  else if t.bAccessCheck && !(t.node t.dwCurIndex).bIsUsed then
    ((t.setCur t.real).accessCheckFailed, none)
  else (t, some t.dwCurIndex)

/-- mirrors mt_shared_hash.c:840-858 -/
def getFirstNode (t : Table K) : Table K × Option Nat :=
  let t' := t.setCur t.dwNodeStartIndex
  if t.dwNodeStartIndex = t.real then (t', none)
  else if t.bAccessCheck && !(t.node t.dwNodeStartIndex).bIsUsed then (t'.accessCheckFailed, none)
  else (t', some t.dwNodeStartIndex)

/-- mirrors mt_shared_hash.c:941-958 -/
def getCurNodeRevers (t : Table K) : Table K × Option Nat :=
  if t.dwCurIndexRevers = t.real then (t, none)
  else if t.bAccessCheck && !(t.node t.dwCurIndexRevers).bIsUsed then (t.accessCheckFailed, none)
  else (t, some t.dwCurIndexRevers)

/-- mirrors mt_shared_hash.c:960-979 -/
def getFirstNodeRevers (t : Table K) : Table K × Option Nat :=
  getCurNodeRevers { t with dwCurIndexRevers := t.dwNodeEndIndex }

/-! The loop that the two readers of slog_mtreport_client/mtreport_client.cpp
share: `full` is the limit of what a batch takes, `take` adds the data of a
node to the batch. -/

variable (full : A → Bool) (take : A → K → A) (pid now : Nat)

/-- At most `j` rounds. -/
def drainLoop (bReverse : Bool) : Nat → Option Nat → Table K → A → Table K × A
  | 0, _, t, a => (t, a)
  | _ + 1, none, t, a => (t, a)
  | j + 1, some i, t, a =>
    if full a then (t, a)
    else
      let r := ((t.removeHashNode i pid now).1.setData i default)
      let r := if bReverse then r.getCurNodeRevers else r.getCurNode
      drainLoop bReverse j r.2 r.1 (take a (t.node i).data)

/-- mirrors slog_mtreport_client/mtreport_client.cpp:978-1033 and 1084-1143, for
one table; `jMax` is `MTATTR_HASH_NODE*STATIC_HASH_ROW_MAX` -/
def drainTable (jMax : Nat) (t : Table K) (a : A) : Table K × A :=
  let r := t.getFirstNode
  let bReverse := r.2.isNone && decide (0 < r.1.dwNodeUseCount)
  let r := if bReverse then r.1.getFirstNodeRevers else r
  let r := drainLoop full take pid now bReverse jMax r.2 r.1 a
  let t :=
    if bReverse && decide (r.1.dwNodeUseCount ≤ 1) then
      { r.1.resetHashTable with bAccessCheck := true }
    else if !bReverse && decide (r.1.dwNodeUseCount = 0) then { r.1 with bAccessCheck := false }
    else r.1
  (t, r.2)

end Table

/-! ## Taking every node out -/

namespace Table

variable {K : Type} [Inhabited K]

def getCur (bReverse : Bool) (t : Table K) : Table K × Option Nat :=
  if bReverse then t.getCurNodeRevers else t.getCurNode

def getFirst (bReverse : Bool) (t : Table K) : Table K × Option Nat :=
  if bReverse then t.getFirstNodeRevers else t.getFirstNode

/-- A loop that takes out every node, as the agent's readers do: the nodes, each with
the table behind its removal, and the table at the end. `process` is what the body
writes into a node. The loop has no bound; `fuel` bounds its rounds. -/
def takeAll (process : K → K) (pid : Nat) (now : Nat → Nat) (bReverse : Bool) :
    Nat → Table K × Option Nat → Option (List (Nat × Table K) × Table K)
  | _, (t, none) => some ([], t)
  | 0, (_, some _) => none
  | fuel + 1, (t, some i) =>
    let t := ((t.setData i (process (t.node i).data)).removeHashNode i pid (now fuel)).1
    (takeAll process pid now bReverse fuel (t.getCur bReverse)).map fun r => ((i, t) :: r.1, r.2)

/-- The nil index, or a used node. -/
def OnUsed (t : Table K) (i : Nat) : Prop := i = t.real ∨ i < t.real ∧ (t.node i).bIsUsed = true

/-- The cursors stand on used nodes, or nowhere. -/
def Cursors (t : Table K) : Prop := t.OnUsed t.dwCurIndex ∧ t.OnUsed t.dwCurIndexRevers

/-- The cursor of a loop. -/
def cursor (bReverse : Bool) (t : Table K) : Nat :=
  if bReverse then t.dwCurIndexRevers else t.dwCurIndex

end Table

/-- The list in the order of a loop. -/
def ordered (bReverse : Bool) (l : List Nat) : List Nat := if bReverse then l.reverse else l

namespace ListInv

variable {K : Type} {t t' : Table K} {l l1 l2 o : List Nat} {i v : Nat}

theorem onUsed_iff (h : ListInv t l) : t.OnUsed i ↔ i ∈ t.real :: l := by
  rw [mem_cons]
  exact or_congr_right h.mem_iff.symm

/-- No cursor stands on a node that was taken out. -/
theorem Passed.cursors (hp : Passed t t' i) (h : ListInv t (l1 ++ i :: l2))
    (h' : ListInv t' (l1 ++ l2)) (hreal : t'.real = t.real) (hc : t.Cursors) : t'.Cursors := by
  unfold Table.Cursors at hc ⊢
  rw [h.onUsed_iff, h.onUsed_iff] at hc
  rw [h'.onUsed_iff, h'.onUsed_iff, hreal, hp.cur, hp.rev]
  have hmem : ∀ {j}, j ∈ t.real :: (l1 ++ i :: l2) → j ≠ i → j ∈ t.real :: (l1 ++ l2) := by
    intro j hj hne
    simp only [mem_cons, mem_append, hne, false_or] at hj ⊢
    exact hj
  have hi : i ∈ t.real :: (l1 ++ i :: l2) := by simp
  obtain ⟨hn, hv⟩ := h.ring.links_ne_self
  constructor
  · split
    · exact hmem (h.ring.next_mem hi) hn
    · exact hmem hc.1 ‹_›
  · split
    · exact hmem (h.ring.prev_mem hi) hv
    · exact hmem hc.2 ‹_›

theorem head_cases (h : ListInv t l) (ho : o ⊆ l) (hv : v = o.head?.getD t.real) :
    v = t.real ∧ o.head? = none ∨ v ≠ t.real ∧ (t.node v).bIsUsed = true ∧ o.head? = some v := by
  cases o with
  | nil => exact .inl ⟨hv, rfl⟩
  | cons i o =>
    obtain rfl : v = i := hv
    have hi := ho mem_cons_self
    exact .inr ⟨ne_of_lt (h.lt v hi), (h.mem_iff.mp hi).2, rfl⟩

theorem getCur_eq [Inhabited K] (bReverse : Bool) (h : ListInv t l) (ho : o ⊆ l)
    (hc : t.cursor bReverse = o.head?.getD t.real) : t.getCur bReverse = (t, o.head?) := by
  cases bReverse <;> rcases h.head_cases ho hc with ⟨h1, h2⟩ | ⟨h1, h2, h3⟩ <;>
    simp_all [getCur, cursor, getCurNode, getCurNodeRevers]

theorem start_eq (h : ListInv t l) : t.dwNodeStartIndex = l.head?.getD t.real := by
  rw [← h.ring.seg.next_eq, nx, if_pos rfl]

theorem getFirstNode_eq [Inhabited K] (h : ListInv t l) :
    t.getFirstNode = (t.setCur t.dwNodeStartIndex, l.head?) := by
  unfold getFirstNode
  rcases h.head_cases (fun _ => id) h.start_eq with ⟨h1, h2⟩ | ⟨h1, h2, h3⟩
  · simp [if_pos h1, h2]
  · simp [if_neg h1, h2, h3, Bool.not_true, Bool.and_false, Bool.false_eq_true]

end ListInv

/-- The loop has the nodes `o` in front of it. -/
structure Takes {K : Type} (bReverse : Bool) (pid : Nat) (t : Table K) (o : List Nat) : Prop
    extends AtRest pid t (ordered bReverse o) where
  cursors : t.Cursors
  cur : t.cursor bReverse = o.head?.getD t.real

namespace Takes

variable {K : Type} [Inhabited K] {t : Table K} {l o : List Nat} {i pid : Nat} {bReverse : Bool}

theorem getFirst (h : AtRest pid t l) (hc : t.OnUsed (t.cursor !bReverse)) :
    ∃ t', t.getFirst bReverse = (t', (ordered bReverse l).head?) ∧
      Takes bReverse pid t' (ordered bReverse l) := by
  cases bReverse with
  | false =>
    have hnx : t.nx t.real = t.dwNodeStartIndex := if_pos rfl
    have h' : ListInv (t.setCur t.dwNodeStartIndex) l := h.of_eq rfl rfl rfl rfl (fun _ => rfl) rfl
    exact ⟨_, h.getFirstNode_eq, ⟨h', h.flag, h.writer⟩,
      ⟨h'.onUsed_iff.mpr (hnx ▸ h.ring.next_mem mem_cons_self), hc⟩, h.start_eq⟩
  | true =>
    have hpv : t.pv t.real = t.dwNodeEndIndex := if_pos rfl
    have hend : t.dwNodeEndIndex = l.reverse.head?.getD t.real := hpv ▸ h.ring.reverse.seg.next_eq
    have h' : ListInv { t with dwCurIndexRevers := t.dwNodeEndIndex } l :=
      h.of_eq rfl rfl rfl rfl (fun _ => rfl) rfl
    refine ⟨_, h'.getCur_eq true (o := l.reverse) (by simp) hend, ⟨?_, h.flag, h.writer⟩,
      ⟨hc, h'.onUsed_iff.mpr ?_⟩, hend⟩
    · simpa [ordered] using h'
    · exact hpv ▸ h.ring.prev_mem mem_cons_self

theorem step (h : Takes bReverse pid t (i :: o)) (d : K) (now : Nat) :
    Takes bReverse pid ((t.setData i d).removeHashNode i pid now).1 o := by
  have hi : i < t.real := h.lt i (by cases bReverse <;> simp [ordered])
  have h1 := h.toListInv.setData hi d
  obtain ⟨l1, l2, hl, ho, hlink⟩ : ∃ l1 l2, ordered bReverse (i :: o) = l1 ++ i :: l2 ∧
      l1 ++ l2 = ordered bReverse o ∧
      (if bReverse then (t.setData i d).pv i else (t.setData i d).nx i) = o.head?.getD t.real := by
    have hring := h1.ring
    cases bReverse with
    | false => exact ⟨[], o, rfl, rfl, hring.seg.2.next_eq⟩
    | true =>
      have hback := hring.reverse
      rw [ordered, if_pos rfl, reverse_reverse] at hback
      exact ⟨o.reverse, [], reverse_cons, append_nil _, hback.seg.2.next_eq⟩
  obtain ⟨t', hr, h', hf, hs, hp⟩ := h1.removeHashNode h.writer h.flag hl now
  have hreal : t'.real = t.real := hs.real_eq
  have hc : (t.setData i d).Cursors := by
    rw [Table.Cursors, h1.onUsed_iff, h1.onUsed_iff]
    exact ⟨h.onUsed_iff.mp h.cursors.1, h.onUsed_iff.mp h.cursors.2⟩
  rw [hr]
  refine ⟨⟨ho ▸ h', hf, hs.writer ▸ h.writer⟩, hp.cursors (hl ▸ h1) h' hreal hc, ?_⟩
  rw [hreal, ← hlink]
  cases bReverse with
  | false => exact hp.cur.trans (if_pos h.cur)
  | true => exact hp.rev.trans (if_pos h.cur)

theorem takeAll (process : K → K) (now : Nat → Nat) {fuel : Nat} (h : Takes bReverse pid t o)
    (hfuel : o.length ≤ fuel) :
    ∃ r, takeAll process pid now bReverse fuel (t, o.head?) = some r ∧
      r.1.map Prod.fst = o ∧ ListInv r.2 [] ∧ ∀ p ∈ r.1, p.2.Cursors := by
  induction o generalizing t fuel with
  | nil =>
    have hnil : ListInv t [] := by simpa [ordered] using h.toListInv
    exact ⟨([], t), by rw [head?_nil, takeAll], rfl, hnil, forall_mem_nil _⟩
  | cons i o ih =>
    obtain _ | fuel := fuel
    · cases hfuel
    have h' := h.step (process (t.node i).data) (now fuel)
    obtain ⟨r, hr, h1, h2, h3⟩ := ih h' (Nat.le_of_succ_le_succ hfuel)
    refine ⟨((i, _) :: r.1, r.2), ?_, by rw [map_cons, h1], h2,
      forall_mem_cons.mpr ⟨h'.cursors, h3⟩⟩
    have ho : o ⊆ ordered bReverse o := by cases bReverse <;> simp [ordered]
    rw [head?_cons, takeAll, h'.getCur_eq bReverse ho h'.cur, hr]
    rfl

end Takes

/-- **Draining.** When the cursor of the other direction stands on a used node, or nowhere, a
loop that takes out the nodes processes each used node once, in the order of the list or
back, and leaves the table empty; behind every removal this holds of both cursors. -/
theorem takeAll_list {K : Type} [Inhabited K] (process : K → K) (pid : Nat) (now : Nat → Nat)
    (bReverse : Bool) (t : Table K) (l : List Nat) (h : AtRest pid t l)
    (hc : t.OnUsed (t.cursor !bReverse)) (fuel : Nat) (hfuel : l.length ≤ fuel) :
    ∃ r, takeAll process pid now bReverse fuel (t.getFirst bReverse) = some r ∧
      r.1.map Prod.fst = ordered bReverse l ∧ ListInv r.2 [] ∧ ∀ p ∈ r.1, p.2.Cursors := by
  obtain ⟨t', hfirst, h'⟩ := Takes.getFirst h hc
  rw [hfirst]
  exact h'.takeAll process now (by cases bReverse <;> simpa [ordered] using hfuel)

/-- A table with the nodes 3 and 5 in use. -/
def twoUsed : Table Nat :=
  let t := initHashTableForWrite twentyNodes (fun _ _ => 0) true
  ((t.insertHashNode 3 7 0).1.insertHashNode 5 7 0).1

theorem twoUsed_inv : ListInv twoUsed [3, 5] := by
  have h0 := (fresh_init twentyNodes (fun _ _ : Nat => 0) true : Fresh 7 _).listInv
  obtain ⟨t1, he1, h1, hf1, hs1, -⟩ :=
    h0.insertHashNode (i := 3) (.inl rfl) rfl (by decide) not_mem_nil 0
  obtain ⟨t2, he2, h2, -, -⟩ := h1.insertHashNode (i := 5) (.inl hs1.writer) hf1
    (by rw [real, hs1.rows]; decide) (by decide) 0
  rwa [twoUsed, he1, he2]

theorem takeAll_list_back : ∃ r, takeAll id 7 (fun _ => 9) true 2 (twoUsed.getFirst true) = some r ∧
      r.1.map Prod.fst = [5, 3] ∧ ListInv r.2 [] ∧ ∀ p ∈ r.1, p.2.Cursors :=
  takeAll_list id 7 (fun _ => 9) true twoUsed [3, 5] ⟨twoUsed_inv, rfl, .inl rfl⟩
    (.inl rfl) 2 (le_refl 2)

/-- The reader has looked at the last node, the table was reset and node 3 is in use again. -/
def staleCursor : Table Nat := (twoUsed.getFirstNodeRevers.1.resetHashTable.insertHashNode 3 7 0).1

/-- `ResetHashTable` leaves the cursors: behind the removal one stands on node 5, which is
not in use. -/
theorem takeAll_stale_cursor : AtRest 7 staleCursor [3] ∧
    ((takeAll id 7 (fun _ => 9) false 1 (staleCursor.getFirst false)).map fun r => r.1.map fun p =>
      (p.1, p.2.dwCurIndexRevers, (p.2.node 5).bIsUsed, p.2.real)) = some [(3, 5, false, 20)] := by
  have h0 : Fresh 7 twoUsed.getFirstNodeRevers.1.resetHashTable :=
    ⟨rfl, rfl, .inl rfl, rfl, rfl, rfl, fun i hi => by decide +revert +kernel⟩
  obtain ⟨t1, he, h1, hf, hs, -⟩ :=
    h0.listInv.insertHashNode (i := 3) (.inl rfl) rfl (by decide) not_mem_nil 0
  refine ⟨?_, by decide +kernel⟩
  rw [staleCursor, he]
  exact ⟨h1, hf, .inl hs.writer⟩

/-! ## Cells -/

/-- The used nodes with their data, in the order of the list. -/
abbrev Cells (K : Type) := List (Nat × K)

namespace Cells

variable {K A : Type}

/-- The indexes of the nodes. -/
def idx (c : Cells K) : List Nat := c.map Prod.fst

/-- The data. -/
def vals (c : Cells K) : List K := c.map Prod.snd

/-- The data of node `i` is written. -/
def set (c : Cells K) (i : Nat) (d : K) : Cells K :=
  c.map fun p => if p.1 = i then (i, d) else p

/-- `HashTableSearchEx` over the slots of a key. -/
def search (c : Cells K) (slots : List Nat) (isKey : K → Bool) : Option Nat × Bool :=
  match slots.find? fun i => (c.lookup i).any isKey with
  | some i => (some i, true)
  | none => (slots.find? fun i => (c.lookup i).isNone, false)

/-- Cells from the front, until the batch is full. -/
def drain (full : A → Bool) (take : A → K → A) : Cells K → A → Cells K × A
  | [], a => ([], a)
  | p :: c, a => if full a then (p :: c, a) else drain full take c (take a p.2)

variable {c : Cells K} {slots : List Nat} {isKey : K → Bool} {i : Nat} {d : K}

theorem search_found (h : c.search slots isKey = (some i, true)) :
    ∃ d, c.lookup i = some d ∧ isKey d = true := by
  unfold search at h
  split at h
  · rename_i j hj
    cases h
    have hany : (c.lookup i).any isKey = true := by simpa using find?_some hj
    simpa [Option.any_eq_true] using hany
  · cases (Prod.mk.inj h).2

theorem search_not_found (h : (c.search slots isKey).2 = false) (hi : i ∈ slots)
    (hl : c.lookup i = some d) : isKey d = false := by
  unfold search at h
  split at h
  · cases h
  · rename_i hf
    simpa [hl] using find?_eq_none.mp hf i hi

theorem search_free (h : c.search slots isKey = (some i, false)) :
    i ∈ slots ∧ c.lookup i = none := by
  unfold search at h
  split at h
  · cases (Prod.mk.inj h).2
  · have hf := (Prod.mk.inj h).1
    have hnone : (c.lookup i).isNone = true := by simpa using find?_some hf
    exact ⟨mem_of_find?_eq_some hf, Option.isNone_iff_eq_none.mp hnone⟩

theorem lookup_eq_none_iff : c.lookup i = none ↔ i ∉ c.idx := by
  rw [List.lookup_eq_none_iff, idx, mem_map]
  constructor
  · rintro h ⟨p, hp, rfl⟩
    simpa using h p hp
  · intro h p hp
    have hne : i ≠ p.1 := fun he => h ⟨p, hp, he.symm⟩
    simpa using hne

theorem mem_of_lookup (h : c.lookup i = some d) : (i, d) ∈ c := by
  obtain ⟨c1, c2, rfl, -⟩ := lookup_eq_some_iff.mp h
  simp

theorem lookup_of_mem (h : (i, d) ∈ c) (hnd : c.idx.Nodup) : c.lookup i = some d := by
  induction c with
  | nil => cases h
  | cons p c ih =>
    obtain ⟨hout, hnd⟩ := nodup_cons.mp hnd
    rcases mem_cons.mp h with rfl | h
    · simp
    have hne : i ≠ p.1 := by
      intro he
      exact hout (he ▸ mem_map_of_mem h)
    rw [lookup_cons, beq_false_of_ne hne]
    exact ih h hnd

theorem vals_middle (c1 c2 : Cells K) : vals (c1 ++ (i, d) :: c2) = c1.vals ++ d :: vals c2 :=
  map_append ..

theorem lookup_split (h : c.lookup i = some d) (hnd : c.idx.Nodup) :
    ∃ c1 c2, c = c1 ++ (i, d) :: c2 ∧ (∀ p ∈ c1 ++ c2, p.1 ≠ i) ∧
      ∀ d', c.set i d' = c1 ++ (i, d') :: c2 := by
  obtain ⟨c1, c2, rfl, -⟩ := lookup_eq_some_iff.mp h
  have hperm : (idx (c1 ++ (i, d) :: c2)).Perm (i :: idx (c1 ++ c2)) := by
    simp only [idx, map_append]
    exact perm_middle
  have hout : ∀ p ∈ c1 ++ c2, p.1 ≠ i := by
    intro p hp he
    have := (nodup_cons.mp (hperm.nodup_iff.mp hnd)).1
    exact this (he ▸ mem_map_of_mem hp)
  refine ⟨c1, c2, rfl, hout, fun d' => ?_⟩
  have hmap : ∀ l : Cells K, (∀ p ∈ l, p.1 ≠ i) → l.set i d' = l := by
    intro l hl
    conv => rhs; rw [← map_id l]
    apply map_congr_left
    intro p hp
    rw [if_neg (hl p hp), id]
  have h1 := hmap c1 fun p hp => hout p (mem_append_left _ hp)
  have h2 := hmap c2 fun p hp => hout p (mem_append_right _ hp)
  unfold set at h1 h2 ⊢
  rw [map_append, map_cons, h1, h2, if_pos rfl]

end Cells

/-! ## A table and its cells -/

/-- The table, with its rows and its comparison, holds the cells; a node that is
not in use is zero. -/
structure Holds {K : Type} [Inhabited K] (rows : Rows) (cmp : K → K → Int) (pid : Nat) (t : Table K)
    (c : Cells K) : Prop extends ListInv t c.idx where
  rows_eq : t.rows = rows
  cmp_eq : t.fun_cmp = cmp
  data : ∀ p ∈ c, (t.node p.1).data = p.2
  zero : ∀ i, i < t.real → i ∉ c.idx → (t.node i).data = default
  flag : t.bHashUseFlag = false
  writer : t.dwWriteProcessId = 0 ∨ t.dwWriteProcessId = pid

namespace Holds

variable {K A : Type} [Inhabited K] {rows : Rows} {cmp : K → K → Int} {pid : Nat} {t : Table K}
  {c : Cells K} {i : Nat} {d : K}

variable (h : Holds rows cmp pid t c)
include h

theorem nodup : c.idx.Nodup := (nodup_cons.mp h.ring.nodup).2

theorem used_eq (hi : i < t.real) : (t.node i).bIsUsed = (c.lookup i).isSome := by
  rw [Bool.eq_iff_iff, h.used i hi, Option.isSome_iff_ne_none, ne_eq, Cells.lookup_eq_none_iff,
    not_not]

theorem data_lookup (hl : c.lookup i = some d) : (t.node i).data = d :=
  h.data _ (Cells.mem_of_lookup hl)

theorem isMatch_eq (k : K) (hi : i < t.real) :
    t.isMatch k i = (c.lookup i).any fun d => cmp k d == 0 := by
  rw [isMatch, h.used_eq hi, h.cmp_eq]
  cases hl : c.lookup i with
  | none => rfl
  | some d => simp [h.data_lookup hl]

theorem entries_perm : t.entries.Perm c.vals := by
  have hidx : ((List.range t.real).filter fun i => (t.node i).bIsUsed).Perm c.idx := by
    rw [perm_ext_iff_of_nodup (nodup_range.filter _) h.nodup]
    intro i
    rw [mem_filter, mem_range]
    exact h.mem_iff.symm
  have hdata : c.idx.map (fun i => (t.node i).data) = c.vals := by
    unfold Cells.idx Cells.vals
    rw [map_map]
    exact map_congr_left h.data
  rw [← hdata]
  exact hidx.map _

theorem length_le : c.length ≤ t.real := by
  simpa [Cells.idx] using h.toListInv.length_le

theorem searchEx_eq (k : K) (n : Nat) : t.hashTableSearchEx k n =
      c.search (Table.slotsFrom n 0 rows.dwNodeNums) fun d => cmp k d == 0 := by
  have hslots : t.slots n = slotsFrom n 0 rows.dwNodeNums := by rw [slots, h.rows_eq]
  have hfind : ∀ {p q}, (∀ i, i < t.real → p i = q i) →
      (t.slots n).find? p = (t.slots n).find? q := by
    intro p q hpq
    exact find?_congr fun i hi => hpq i (slots_lt hi)
  rw [Table.searchEx_eq n h.init, hfind fun i hi => h.isMatch_eq k hi,
    hfind fun i hi => show (!(t.node i).bIsUsed) = (c.lookup i).isNone by
      rw [h.used_eq hi]; cases c.lookup i <;> rfl, hslots]
  rfl

theorem search_free {k : K} {n : Nat} (hs : t.hashTableSearchEx k n = (some i, false)) :
    i < t.real ∧ i ∉ c.idx ∧ (t.node i).data = default := by
  rw [h.searchEx_eq, ← h.rows_eq] at hs
  obtain ⟨hmem, hl⟩ := Cells.search_free hs
  have hi : i < t.real := slots_lt hmem
  have hic := Cells.lookup_eq_none_iff.mp hl
  exact ⟨hi, hic, h.zero i hi hic⟩

omit h [Inhabited K] in
theorem data_setData (d : K) (j : Nat) :
    ((t.setData i d).node j).data = if j = i then d else (t.node j).data := by
  by_cases hj : j = i <;> simp [setData, setNode, hj]

theorem setCell (hl : c.lookup i = some d) (d' : K) :
    Holds rows cmp pid (t.setData i d') (c.set i d') := by
  obtain ⟨c1, c2, rfl, hother, hset⟩ := Cells.lookup_split hl h.nodup
  rw [hset]
  have hidx : Cells.idx (c1 ++ (i, d') :: c2) = Cells.idx (c1 ++ (i, d) :: c2) := by
    simp [Cells.idx]
  have hi : i < t.real := h.lt i (by simp [Cells.idx])
  refine ⟨?_, h.rows_eq, h.cmp_eq, fun p hp => ?_, fun j hj hjc => ?_, h.flag, h.writer⟩
  · rw [hidx]
    exact h.toListInv.setData hi d'
  · rw [data_setData]
    rcases mem_cons.mp (perm_middle.mem_iff.mp hp) with rfl | hp
    · exact if_pos rfl
    · rw [if_neg (hother p hp)]
      exact h.data p (perm_middle.mem_iff.mpr (mem_cons_of_mem _ hp))
  · rw [hidx] at hjc
    have hne : j ≠ i := by
      rintro rfl
      exact hjc (by simp [Cells.idx])
    rw [data_setData, if_neg hne]
    exact h.zero j hj hjc

theorem insertCell (hi : i < t.real) (hic : i ∉ c.idx) (d : K) (now : Nat) :
    Holds rows cmp pid ((t.setData i d).insertHashNode i pid now).1 (c ++ [(i, d)]) := by
  obtain ⟨t', hr, h', hf, hs, -⟩ := (h.toListInv.setData hi d).insertHashNode
    h.writer h.flag hi hic now
  have hidx : Cells.idx (c ++ [(i, d)]) = c.idx ++ [i] := by simp [Cells.idx]
  have hdata : ∀ j, (t'.node j).data = if j = i then d else (t.node j).data := by
    intro j
    rw [hs.data, data_setData]
  rw [hr]
  refine ⟨by rw [hidx]; exact h', hs.rows.trans h.rows_eq, hs.cmp.trans h.cmp_eq, fun p hp => ?_,
    fun j hj hjc => ?_, hf, hs.writer ▸ h.writer⟩
  · rw [hdata]
    rcases mem_append.mp hp with hp | hp
    · have hne : p.1 ≠ i := fun he => hic (he ▸ mem_map_of_mem hp)
      rw [if_neg hne, h.data p hp]
    · rw [mem_singleton.mp hp, if_pos rfl]
  · rw [hidx, mem_append, mem_singleton, not_or] at hjc
    rw [hdata, if_neg hjc.2]
    exact h.zero j (hs.real_eq ▸ hj) hjc.1

/-- The cursor and the access check do not matter. -/
theorem of_cursor (v : Nat) (b : Bool) :
    Holds rows cmp pid { t with dwCurIndex := v, bAccessCheck := b } c :=
  ⟨h.toListInv.of_eq rfl rfl rfl rfl (fun _ => rfl) rfl, h.rows_eq, h.cmp_eq, h.data, h.zero, h.flag,
    h.writer⟩

end Holds

/-! ## Taking the first node -/

namespace Holds

variable {K A : Type} [Inhabited K] {rows : Rows} {cmp : K → K → Int} {pid : Nat} {t : Table K}
  {c : Cells K} {i : Nat} {d : K}

/-- The index of the first cell, or the nil index. -/
def headIdx (t : Table K) (c : Cells K) : Nat := (c.head?.map Prod.fst).getD t.real

section

variable (h : Holds rows cmp pid t c)
include h

theorem start_eq : t.dwNodeStartIndex = headIdx t c := by
  rw [h.toListInv.start_eq, Cells.idx, head?_map]
  rfl

omit h in
/-- The first node is removed and cleared; the cursor, which stood on it,
stands on the next. -/
theorem removeFirst (h : Holds rows cmp pid t ((i, d) :: c)) (hc : t.dwCurIndex = i) (now : Nat) :
    Holds rows cmp pid ((t.removeHashNode i pid now).1.setData i default) c ∧
      ((t.removeHashNode i pid now).1.setData i default).dwCurIndex =
        headIdx ((t.removeHashNode i pid now).1.setData i default) c := by
  have hl : Cells.idx ((i, d) :: c) = [] ++ i :: c.idx := rfl
  obtain ⟨t', hr, h', hf, hs, hpass⟩ := h.toListInv.removeHashNode h.writer h.flag hl now
  have hcur := hpass.cur
  have hnd := h.nodup
  have hout : i ∉ c.idx := (nodup_cons.mp hnd).1
  have hreal := hs.real_eq
  have hi : i < t'.real := by
    rw [hreal]
    exact h.lt i (by simp [Cells.idx])
  rw [if_pos hc] at hcur
  rw [hr]
  refine ⟨⟨h'.setData hi default, hs.rows.trans h.rows_eq, hs.cmp.trans h.cmp_eq, fun p hp => ?_,
    fun j hj hjc => ?_, hf, hs.writer ▸ h.writer⟩, ?_⟩
  · have hne : p.1 ≠ i := by
      rintro rfl
      exact hout (mem_map_of_mem hp)
    rw [data_setData, if_neg hne, hs.data]
    exact h.data p (mem_cons_of_mem _ hp)
  · rw [data_setData, hs.data]
    split
    · rfl
    rename_i hne
    refine h.zero j (hreal ▸ hj) ?_
    rintro (_ | ⟨_, hm⟩)
    · exact hne rfl
    · exact hjc hm
  · rw [headIdx, ← head?_map, show real (t'.setData i default) = t.real from hreal]
    exact hcur.trans h.ring.seg.2.next_eq

theorem setCur (v : Nat) : Holds rows cmp pid (t.setCur v) c :=
  h.of_cursor v _

theorem getCurNode_eq (hc : t.dwCurIndex = headIdx t c) :
    t.getCurNode = (t, c.head?.map Prod.fst) := by
  rw [headIdx, ← head?_map] at hc
  rw [← head?_map]
  exact h.toListInv.getCur_eq false (fun _ => id) hc

theorem getFirstNode_eq :
    t.getFirstNode = (t.setCur t.dwNodeStartIndex, c.head?.map Prod.fst) := by
  rw [h.toListInv.getFirstNode_eq, Cells.idx, head?_map]

end

variable (full : A → Bool) (take : A → K → A)

/-- The induction over the rounds of the reader's loop. -/
theorem drainLoop (now : Nat) :
    ∀ {c} {t} {j} a, Holds rows cmp pid t c →
      t.dwCurIndex = headIdx t c → c.length ≤ j →
      ∃ t', Table.drainLoop full take pid now false j (c.head?.map Prod.fst) t a =
          (t', (c.drain full take a).2) ∧ Holds rows cmp pid t' (c.drain full take a).1 := by
  intro c
  induction c with
  | nil =>
    intro t j a h _ _
    cases j <;> exact ⟨t, rfl, h⟩
  | cons p c ih =>
    intro t j a h hc hj
    obtain ⟨i, d⟩ := p
    cases j with
    | zero => simp at hj
    | succ j =>
      have hd : (t.node i).data = d := h.data (i, d) mem_cons_self
      simp only [head?_cons, Option.map_some, Table.drainLoop, Cells.drain]
      split
      · exact ⟨t, rfl, h⟩
      · obtain ⟨h1, hc1⟩ := h.removeFirst hc now
        have hnode := h1.getCurNode_eq hc1
        simp only [hd, hnode]
        exact ih (take a d) h1 hc1 (by simpa using hj)

/-- The reader takes cells off the front of the table. -/
theorem drainTable (h : Holds rows cmp pid t c) (now : Nat) {jMax : Nat} (hj : c.length ≤ jMax)
    (a : A) :
    ∃ t', drainTable full take pid now jMax t a = (t', (c.drain full take a).2) ∧
      Holds rows cmp pid t' (c.drain full take a).1 := by
  have hcount : t.dwNodeUseCount = c.length := by
    rw [h.count]
    simp [Cells.idx]
  have hrev : ((c.head?.map Prod.fst).isNone &&
      decide (0 < (t.setCur t.dwNodeStartIndex).dwNodeUseCount)) = false := by
    rw [show (t.setCur t.dwNodeStartIndex).dwNodeUseCount = c.length from hcount]
    cases c <;> simp
  obtain ⟨t', hloop, h'⟩ := drainLoop full take now a (h.setCur _) h.start_eq hj
  unfold Table.drainTable
  rw [h.getFirstNode_eq]
  simp only [hrev, Bool.false_eq_true, if_false, hloop, Bool.false_and, Bool.not_false,
    Bool.true_and, decide_eq_true_eq]
  split
  · exact ⟨_, rfl, h'.of_cursor _ _⟩
  · exact ⟨_, rfl, h'⟩

end Holds

theorem holds_fresh {K : Type} [Inhabited K] {rows : Rows} {cmp : K → K → Int} {pid : Nat}
    {t : Table K} (h : Fresh pid t) (hrows : t.rows = rows) (hcmp : t.fun_cmp = cmp)
    (hzero : ∀ i, i < t.real → (t.node i).data = default) : Holds rows cmp pid t [] where
  toListInv := h.listInv
  rows_eq := hrows
  cmp_eq := hcmp
  data p hp := by cases hp
  zero i hi _ := hzero i hi
  flag := h.flag
  writer := h.writer

/-! ## CreateHashTable -/

/-- The loop of `IsPrime` from `i` on.
mirrors mt_shared_hash.c:117-125 -/
def isPrimeFrom (dwNum : Nat) : Nat → Nat → Bool
  | 0, _ => true
  | fuel + 1, i =>
    if i * i ≤ dwNum then if dwNum % i = 0 then false else isPrimeFrom dwNum fuel (i + 1) else true

def isPrime (dwNum : Nat) : Bool := isPrimeFrom dwNum dwNum 2

/-- The number of nodes of the next row: the next smaller prime, down to 1002.
mirrors mt_shared_hash.c:299-303 -/
def nextNodeNum : Nat → Nat
  | 0 => 0
  | dwTmp + 1 => if 1002 ≤ dwTmp && !isPrime dwTmp then nextNodeNum dwTmp else dwTmp

/-- `dwNodeNums` of `n` rows. -/
def nodeNums : Nat → Nat → List Nat
  | 0, _ => []
  | n + 1, dwTmp => nextNodeNum dwTmp :: nodeNums n (nextNodeNum dwTmp)

/-- `MtReport_CreateHashTable` on zeroed memory; `dwShareMemBytes` counts
`dwNodeCount` nodes.
mirrors mt_shared_hash.c:283-336 -/
def createHashTable {K : Type} [Inhabited K] (rows : Rows) (dwNodeCount : Nat) (cmp : K → K → Int) :
    Table K :=
  { initHashTableForWrite rows cmp false with shareMemNodes := dwNodeCount }

theorem holds_create {K : Type} [Inhabited K] (rows : Rows) (dwNodeCount : Nat) (cmp : K → K → Int)
    (pid : Nat) : Holds rows cmp pid (createHashTable rows dwNodeCount cmp) [] :=
  holds_fresh ⟨rfl, rfl, .inl rfl, rfl, rfl, rfl, fun _ _ => rfl⟩ rfl rfl fun _ _ => rfl

end DesPwd.L2.SharedHash
