import DesPwd.L2Machine.VmemStore
import Mathlib.Data.List.Perm.Basic

/-!
# The pool shared by several processes

The segments lie in shared memory. A process that does not get `bUseFlag` in
`MtReport_FreeVmem` walks its chain without the lock and only marks the
nodes; saves, the reclaims of `MtReport_CheckVmem` and
`_MtReport_ScanNode_Inner`, and other frees run in between. `Shared` has the
pool, the live handles, and one cursor for each free that is under way;
`Shared.step` interleaves the atomic steps in any order. `take` and `release`
stand for a process that holds a flag, so that every deferred free can occur.

`shared_partition`: in every run no step gets stuck, and in every state it
reaches each segment's nodes are split between the free list, the chains and
the marked nodes, with `wNodeUsed` counting the last two.
-/
namespace DesPwd.L5.VmemShared

open Links Run L2.Vmem List

/-! ## The system -/

/-- The pool, the handles not yet given to a free, and for each free without
the flag its class, segment and next node. -/
structure Shared where
  pool : Pool
  live : List (Int × List UInt8)
  pend : List (NodeLen × Nat × Nat)

inductive Label where
  /-- `MtReport_SaveToVmem`. -/
  | save (pdata : List UInt8) (now : Nat)
  /-- `MtReport_FreeVmem` of the live handle number `k` up to its loop when
  the flag is not obtained, else the whole call. -/
  | free (k : Nat) (now : Nat)
  /-- One node of the free without flag number `k`. -/
  | freeNode (k : Nat)
  /-- One node of `MtReport_CheckVmem`. -/
  | check (c : NodeLen) (j i : Nat)
  /-- `_MtReport_ScanNode_Inner`. -/
  | scan (c : NodeLen) (j i cnt now : Nat)
  /-- A process gets a flag, and keeps it. -/
  | take (c : NodeLen) (j now : Nat)
  /-- The flag is given back. -/
  | release (c : NodeLen) (j : Nat)

namespace Shared

/-- `MtReport_FreeVmem` of handle number `k`.
mirrors language/c_cpp/mt_vmem.c:317-343 -/
def free (st : Shared) (k now : Nat) : Option Shared :=
  match st.live[k]? with
  | none => some st
  | some p =>
    match NodeLen.ofLen (Pool.parseLen p.1) with
    | none => some st
    | some c =>
      match (st.pool.seg c (Pool.parseTIdx p.1)).tryLock now with
      | some _ => (st.pool.freeVmem p.1 now).map fun r => ⟨r.1, st.live.eraseIdx k, st.pend⟩
      | none => some ⟨st.pool, st.live.eraseIdx k,
          (c, Pool.parseTIdx p.1, Pool.parseNIdx p.1) :: st.pend⟩

/-- One round of the loop of `VMEM_FREE_NODE` without the flag.
mirrors mt_vmem.c:344-357 -/
def freeNode (st : Shared) (k : Nat) : Shared :=
  match st.pend[k]? with
  | none => st
  | some (c, j, nIdx) =>
    let s := st.pool.seg c j
    let pool := st.pool.setSeg c j (s.freeNode false nIdx)
    if s.next nIdx < s.wNodeCount then
      ⟨pool, st.live, (c, j, s.next nIdx) :: st.pend.eraseIdx k⟩
    else ⟨pool, st.live, st.pend.eraseIdx k⟩

/-- One round of the loop of `CHECK_VMEM_FREE_NODE`.
mirrors mt_vmem.c:401-416 -/
def check (st : Shared) (c : NodeLen) (j i : Nat) : Option Shared :=
  if j < shmCount ∧ 1 ≤ i ∧ i < (st.pool.seg c j).wNodeCount then
    match (st.pool.seg c j).checkNode i with
    | none => some st
    | some (s, reclaimed) =>
      if reclaimed = true ∧ s.wNodeUsed = 0 then none
      else some { st with pool := st.pool.setSeg c j s }
  else some st

/-- One step of the interleaving; a label that does not apply changes
nothing. -/
def step (st : Shared) : Label → Option Shared
  | .save pdata now =>
    let r := st.pool.saveToVmem pdata now
    some ⟨r.1, if 0 ≤ r.2 then (r.2, pdata) :: st.live else st.live, st.pend⟩
  | .free k now => st.free k now
  | .freeNode k => some (st.freeNode k)
  | .check c j i => st.check c j i
  | .scan c j i cnt now =>
    (st.pool.scanNodeInner c j i cnt now).map fun r => { st with pool := r.1 }
  | .take c j now =>
    match (st.pool.seg c j).tryLock now with
    | none => some st
    | some s => some { st with pool := st.pool.setSeg c j s }
  | .release c j => some { st with pool := st.pool.setSeg c j (st.pool.seg c j).unlock }

def initial : Shared := ⟨Pool.initVmem, [], []⟩

end Shared

/-! ## Every step keeps the pool in order -/

variable {g : Pool} {live : List (Int × List UInt8)} {pend : List (NodeLen × Nat × Nat)}
  {c : NodeLen} {j n : Nat} {s : Segment}

theorem roots_cons_pend :
    (roots live ((c, j, n) :: pend) c j).Perm ((n, none) :: roots live pend c j) := by
  simp only [roots, filterMap_cons]
  exact perm_middle

theorem roots_cons_pend_of_ne {c' : NodeLen} {j' : Nat} (hne : ¬ (c' = c ∧ j' = j)) :
    roots live ((c, j, n) :: pend) c' j' = roots live pend c' j' := by
  have hn : ¬ (c = c' ∧ j = j') := fun h => hne ⟨h.1.symm, h.2.symm⟩
  simp [roots, hn]

theorem perm_eraseIdx {α : Type} {l : List α} {k : Nat} {a : α} (h : l[k]? = some a) :
    l.Perm (a :: l.eraseIdx k) := by
  obtain ⟨hk, rfl⟩ := List.getElem?_eq_some_iff.mp h
  exact (getElem_cons_eraseIdx_perm hk).symm

/-- A live handle becomes a free under way: the same chain, without its
bytes. -/
theorem defer {p : Int × List UInt8} (h : PoolInv g (p :: live) pend)
    (hj : j < shmCount) (hin : InSeg c j p.1) :
    PoolInv g live ((c, j, Pool.parseNIdx p.1) :: pend) := by
  obtain ⟨fl, l, es, ms, hseg, hperm⟩ := h.live_entry hj hin
  rw [← g.setSeg_self c j]
  refine h.of_segs (h.setSeg (fun q hq => h.handle q (mem_cons_of_mem _ hq)) (fun q hq => ?_)
    (fun _ => ⟨fl, _, ms, hseg.forget, ?_⟩) fun c' j' hne => ?_)
  · rcases mem_cons.mp hq with rfl | hq'
    · exact hj
    · exact h.cursor q hq'
  · exact (hperm.cons _).trans roots_cons_pend.symm
  · rw [roots_cons_pend_of_ne hne]
    exact (roots_cons_live_of_ne hin hne p.2).symm

/-- One node of a free under way: the cursor moves on, or the free is done. -/
theorem freeNode_inv (h : PoolInv g live ((c, j, n) :: pend)) :
    PoolInv (g.setSeg c j ((g.seg c j).freeNode false n)) live
      (if (g.seg c j).next n < (g.seg c j).wNodeCount then (c, j, (g.seg c j).next n) :: pend
       else pend) := by
  have hj : j < shmCount := h.cursor _ mem_cons_self
  have hcur : ∀ p ∈ pend, p.2.1 < shmCount := fun p hp => h.cursor p (mem_cons_of_mem _ hp)
  obtain ⟨fl, _, ms, hseg, hr⟩ := h.seg c j hj
  obtain ⟨l, es, hp, hperm⟩ := hseg.first (hr.trans roots_cons_pend)
  replace hseg := hseg.perm_es hp
  have hlink := (hseg.entry _ mem_cons_self).linked.2
  have hmark := hseg.mark
  cases l with
  | nil =>
    -- the last node: nothing of the chain is left
    have hstop : (g.seg c j).next n = (g.seg c j).wNodeCount := hlink
    rw [hstop, if_neg (lt_irrefl _)]
    exact h.of_segs (h.setSeg h.handle hcur (fun _ => ⟨_, _, _, hmark, hperm⟩)
      fun c' j' hne => (roots_cons_pend_of_ne hne).symm)
  | cons k l =>
    have hk : (g.seg c j).next n = k := hlink.1
    have hb := hseg.bounds (i := k) (by simp)
    rw [hk] at hmark ⊢
    rw [if_pos hb.2]
    refine h.of_segs (h.setSeg h.handle (fun p hp => ?_)
      (fun _ => ⟨_, _, _, hmark, (hperm.cons _).trans roots_cons_pend.symm⟩) fun c' j' hne => ?_)
    · rcases mem_cons.mp hp with rfl | hp'
      · exact hj
      · exact hcur p hp'
    · rw [roots_cons_pend_of_ne hne, roots_cons_pend_of_ne hne]

namespace Shared

/-- The invariant of the system. -/
def Inv (st : Shared) : Prop := PoolInv st.pool st.live st.pend

variable {st : Shared}

theorem free_inv (h : st.Inv) (k now : Nat) : ∃ st', st.free k now = some st' ∧ st'.Inv := by
  unfold Shared.free
  split
  · exact ⟨st, rfl, h⟩
  rename_i p hp
  have h0 : PoolInv st.pool (p :: st.live.eraseIdx k) st.pend :=
    h.perm (perm_eraseIdx hp) (Perm.refl _)
  obtain ⟨c, j, hj, hin⟩ := h0.handle p mem_cons_self
  rw [hin.1, hin.2]
  dsimp only
  split
  · obtain ⟨g', hr, h'⟩ := h0.freeVmem now
    rw [hr]
    exact ⟨_, rfl, h'⟩
  · exact ⟨_, rfl, defer h0 hj hin⟩

theorem freeNode_step (h : st.Inv) (k : Nat) : (st.freeNode k).Inv := by
  unfold Shared.freeNode
  split
  · exact h
  rename_i c j n hp
  have h1 := freeNode_inv (h.perm (Perm.refl _) (perm_eraseIdx hp))
  dsimp only
  split
  · rename_i hlt; rw [if_pos hlt] at h1; exact h1
  · rename_i hlt; rw [if_neg hlt] at h1; exact h1

theorem check_inv (h : st.Inv) (c : NodeLen) (j i : Nat) :
    ∃ st', st.check c j i = some st' ∧ st'.Inv := by
  unfold Shared.check
  split
  · rename_i hb
    obtain ⟨fl, es, ms, hseg, hr⟩ := h.seg c j hb.1
    split
    · exact ⟨st, rfl, h⟩
    rename_i s b hc
    obtain ⟨fl', ms', h', _⟩ := hseg.checkNode (by omega) hb.2.2 hc
    have hused : s.wNodeUsed ≠ 0 := by rw [h'.used]; omega
    rw [if_neg fun hz => hused hz.2]
    exact ⟨_, rfl, h.setSeg_kept ⟨fl', es, ms', h', hr⟩⟩
  · exact ⟨st, rfl, h⟩

theorem flag_inv (h : st.Inv) {c : NodeLen} {j : Nat} {s : Segment}
    (hs : ∀ fl es ms, SegInv (st.pool.seg c j) fl es ms → SegInv s fl es ms) :
    Shared.Inv { st with pool := st.pool.setSeg c j s } := by
  refine h.of_segs (h.setSeg h.handle h.cursor (fun hj => ?_) fun _ _ _ => rfl)
  obtain ⟨fl, es, ms, hseg, hr⟩ := h.seg c j hj
  exact ⟨fl, es, ms, hs fl es ms hseg, hr⟩

/-- **Step.** No step gets stuck, and every step keeps the invariant. -/
theorem step_inv (st : Shared) (l : Label) (h : st.Inv) :
    ∃ st', st.step l = some st' ∧ st'.Inv := by
  cases l with
  | save pdata now =>
    refine ⟨_, rfl, ?_⟩
    rcases h.saveToVmem pdata now with ⟨hneg, h'⟩ | ⟨hpos, h'⟩
    · rw [if_neg (Int.not_le.mpr hneg)]; exact h'
    · rw [if_pos hpos]; exact h'
  | free k now => exact free_inv h k now
  | freeNode k => exact ⟨_, rfl, freeNode_step h k⟩
  | check c j i => exact check_inv h c j i
  | scan c j i cnt now =>
    obtain ⟨g', r, hr, h'⟩ := h.scanNodeInner c j i cnt now
    exact ⟨{ st with pool := g' }, by simp [step, hr], h'⟩
  | take c j now =>
    unfold step
    dsimp only
    split
    · exact ⟨st, rfl, h⟩
    · rename_i s hs
      exact ⟨_, rfl, flag_inv h fun _ _ _ hi => hi.tryLock hs⟩
  | release c j => exact ⟨_, rfl, flag_inv h fun _ _ _ hi => hi.unlock⟩

end Shared

/-! ## The partition of a segment -/

/-- The nodes that hold the mark. -/
def marked (s : Segment) : List Nat :=
  (range' 1 (s.wNodeCount - 1)).filter fun i => s.next i = s.wNodeCount + 1

/-- The nodes from `i` to the end of the list, if it ends. -/
def chainFrom (s : Segment) (i : Nat) : Option (List Nat) :=
  walk s.next s.wNodeCount s.wNodeCount i

/-- Where the chains of a segment start: the live handles, and the frees
under way. -/
def Shared.heads (st : Shared) (c : NodeLen) (j : Nat) : List Nat :=
  (st.live.filter fun p => InSeg c j p.1).map (fun p => Pool.parseNIdx p.1) ++
    (st.pend.filter fun p => p.1 = c ∧ p.2.1 = j).map (fun p => p.2.2)

/-- The indexes 1 to `wNodeCount - 1` are those of the free list, of the
chains and of the marked nodes, each exactly once, and the counter is right. -/
def Partition (s : Segment) (heads : List Nat) : Prop :=
  ∃ fl chains, chainFrom s s.wFreeNodeIndex = some fl ∧
    Forall₂ (fun h l => chainFrom s h = some l) heads chains ∧
    (fl ++ chains.flatten ++ marked s).Perm (range' 1 (s.wNodeCount - 1)) ∧
    s.wNodeUsed = 1 + chains.flatten.length + (marked s).length

theorem heads_eq (st : Shared) (c : NodeLen) (j : Nat) :
    st.heads c j = (roots st.live st.pend c j).map Prod.fst := by
  have hf : ∀ {α β : Type} P [DecidablePred P] (f : α → β) (l : List α),
      l.filterMap (fun p => if P p then some (f p) else none) = (l.filter fun p => P p).map f := by
    intro α β P _ f l
    induction l with
    | nil => rfl
    | cons a l ih => by_cases ha : P a <;> simp [ha, ih]
  simp only [roots, hf, map_append, map_map]
  rfl

/-- The marked nodes of the invariant are the nodes that hold the mark. -/
theorem marked_perm {fl ms : List Nat} {es : List Entry} (h : SegInv s fl es ms) :
    ms.Perm (marked s) := by
  have hnd : ms.Nodup :=
    (nodup_append.mp (nodup_append.mp h.nodup).2.1).2.1
  refine (perm_ext_iff_of_nodup hnd (Nodup.filter _ nodup_range')).mpr fun i => ?_
  rw [mem_filter, mem_range'_1, decide_eq_true_eq]
  constructor
  · intro hi
    have hb := h.bounds (mem_append_right _ (mem_append_right _ hi))
    exact ⟨by omega, h.marked i hi⟩
  · rintro ⟨hb, hn⟩
    exact (h.next_eq_mark_iff (by omega) (by omega)).mp hn

/-- A list of the segment is found by walking it. -/
theorem chainFrom_eq {fl ms l : List Nat} {es : List Entry} {i : Nat}
    (h : SegInv s fl es ms) (hl : Linked s.next s.wNodeCount i l)
    (hsub : l.Sublist (fl ++ (es.flatMap Entry.chain ++ ms))) : chainFrom s i = some l := by
  refine walk_eq_some hl (fun hm => ?_) ?_
  · have := (h.bounds (hsub.subset hm)).2; omega
  · have h1 := hsub.length_le
    have h2 := h.perm.length_eq
    rw [length_range'] at h2
    omega

theorem SegOk.partition {rs : List (Nat × Option (List UInt8))} (h : SegOk s rs) :
    Partition s (rs.map Prod.fst) := by
  obtain ⟨fl, es, ms, hseg, hr⟩ := h
  have hms := marked_perm hseg
  have hfree : chainFrom s s.wFreeNodeIndex = some fl :=
    chainFrom_eq hseg hseg.free (sublist_append_left _ _)
  have hwalk : ∀ e ∈ es, chainFrom s e.head = some e.chain := by
    intro e he
    have h1 : e.chain.Sublist (es.flatMap Entry.chain) :=
      sublist_flatten_of_mem (mem_map_of_mem he)
    exact chainFrom_eq hseg (hseg.entry e he).linked
      ((h1.trans (sublist_append_left _ _)).trans (sublist_append_right _ _))
  -- the chains in the order of the roots
  let chain : Nat × Option (List UInt8) → List Nat := fun r => (chainFrom s r.1).getD []
  have hroot : ∀ e ∈ es, chain e.root = e.chain := by
    intro e he
    simp [chain, Entry.root, hwalk e he]
  have hchains : (es.flatMap Entry.chain).Perm (rs.map chain).flatten := by
    have h1 := (hr.map chain).flatten
    rwa [map_map, map_congr_left (f := chain ∘ Entry.root) hroot] at h1
  refine ⟨fl, rs.map chain, hfree, ?_, ?_, ?_⟩
  · rw [forall₂_map_left_iff, forall₂_map_right_iff, forall₂_same]
    intro r hrm
    obtain ⟨e, he, rfl⟩ := mem_map.mp (hr.mem_iff.mpr hrm)
    rw [hroot e he]
    exact hwalk e he
  · rw [append_assoc]
    exact ((hchains.append hms).append_left fl).symm.trans hseg.perm
  · rw [hseg.used, hchains.length_eq, hms.length_eq]

/-- **Partition.** Any interleaving runs without a stuck step, and then every
segment is partitioned. -/
theorem shared_partition (ls : List Label) : ∃ st, run Shared.step ls Shared.initial = some st ∧
      ∀ c j, j < shmCount → Partition (st.pool.seg c j) (st.heads c j) := by
  obtain ⟨st, hr, hi⟩ := run_inv_total Shared.step_inv ls
    (show Shared.Inv Shared.initial from PoolInv.initVmem)
  refine ⟨st, hr, fun c j hj => ?_⟩
  rw [heads_eq]
  exact SegOk.partition (hi.seg c j hj)

/-- A value of two nodes, freed while another process holds the flag. -/
theorem shared_partition_deferred :
    ∃ st, run Shared.step [.save (replicate 40 1) 5, .take .n32 0 5, .free 0 6, .freeNode 0]
        Shared.initial = some st ∧
      ∀ c j, j < shmCount → Partition (st.pool.seg c j) (st.heads c j) :=
  shared_partition _

end DesPwd.L5.VmemShared
