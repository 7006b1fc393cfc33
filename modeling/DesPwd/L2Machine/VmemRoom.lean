import DesPwd.L2Machine.VmemStore

/-!
# When a save finds room

One process uses the pool: no flag is held between its calls, so no free is
deferred and no node is marked. Then the counter in a segment's head is exact,
`SCAN_FREE_NODE` finds nothing, and a segment takes a value exactly when its
free list has enough nodes.

* `Quiet`: a segment whose flag is free, with no marked node.
* `Untouched`: the list, the counter and the nodes are as before; a turn of a
  segment without room only moves `wScanFreeIndex` and the start time.
* `save_iff_room`: after any run a save returns a positive handle exactly if
  some segment has enough free nodes; one that fails leaves all untouched.
* `frees_give_back`: nothing leaks.
-/
namespace DesPwd.L2.Vmem

open Pool

open Segment

open List

open Links Run

/-! ## Segments -/

/-- No process holds the flag, and no free was deferred. -/
structure Quiet (s : Segment) : Prop where
  flag : s.bUseFlag = false
  unmarked : ∀ i, i ≠ 0 → i < s.wNodeCount → s.next i ≠ s.wNodeCount + 1

/-- The nodes with their data and links, the free list and the counters are
the same. -/
structure Untouched (s s' : Segment) : Prop where
  count : s'.wNodeCount = s.wNodeCount
  used : s'.wNodeUsed = s.wNodeUsed
  free : s'.wFreeNodeIndex = s.wFreeNodeIndex
  node : s'.node = s.node

namespace Untouched

variable {s s' s'' : Segment}

theorem refl (s : Segment) : Untouched s s := ⟨rfl, rfl, rfl, rfl⟩

theorem trans (h : Untouched s s') (h' : Untouched s' s'') : Untouched s s'' :=
  ⟨h'.count.trans h.count, h'.used.trans h.used, h'.free.trans h.free, h'.node.trans h.node⟩

theorem next (h : Untouched s s') : s'.next = s.next :=
  funext fun _ => next_congr h.count (by rw [h.node])

end Untouched

/-- The nodes of the free list, if it ends. -/
def Segment.freeList (s : Segment) : Option (List Nat) :=
  walk s.next s.wNodeCount s.wNodeCount s.wFreeNodeIndex

variable {s : Segment} {n j : Nat} {c : NodeLen} {g g' : Pool}

theorem Untouched.freeList {s' : Segment} (h : Untouched s s') : s'.freeList = s.freeList := by
  rw [Segment.freeList, h.next, h.count, h.free]
  rfl

namespace SegInv

variable {s : Segment} {fl ms : List Nat} {es : List Entry} {i : Nat}

theorem quiet (h : SegInv s fl es []) (hf : s.bUseFlag = false) : Quiet s :=
  ⟨hf, fun i h0 hi hn => by simpa using (h.next_eq_mark_iff h0 hi).mp hn⟩

theorem marks_nil (h : SegInv s fl es ms) (hq : Quiet s) : ms = [] := by
  rw [eq_nil_iff_forall_not_mem]
  intro i hi
  have hb := h.bounds (mem_append_right _ (mem_append_right _ hi))
  exact hq.unmarked i hb.1 hb.2 (h.marked i hi)

theorem freeList_eq (h : SegInv s fl es ms) : s.freeList = some fl := by
  refine walk_eq_some h.free (fun hm => ?_) ?_
  · exact lt_irrefl _ (h.bounds (mem_append_left _ hm)).2
  · have := h.length
    omega

/-! ### The scans find nothing -/

theorem next_ne_mark (h : SegInv s fl es []) (hi : i < s.wNodeCount) :
    s.next i ≠ s.wNodeCount + 1 := by
  by_cases h0 : i = 0
  · subst h0
    simp [Segment.next]
  · intro hn
    simpa using (h.next_eq_mark_iff h0 hi).mp hn

theorem scanLoop_eq (h : SegInv s fl es []) : ∀ cnt i, ∃ k, s.scanLoop cnt i = some (s, k)
  | 0, i => ⟨i, rfl⟩
  | cnt + 1, i => by
    unfold Segment.scanLoop
    split
    · rename_i hi
      rw [if_neg fun hn => h.next_ne_mark hi hn.1, Segment.scanNode,
        if_neg (h.next_ne_mark hi)]
      exact h.scanLoop_eq cnt (i + 1)
    · exact ⟨i, rfl⟩

theorem checkLoop_eq (h : SegInv s fl es []) : ∀ fuel i cnt, s.checkLoop fuel i cnt = some (s, cnt)
  | 0, _, _ => rfl
  | fuel + 1, i, cnt => by
    unfold Segment.checkLoop
    split
    · rename_i hi
      rw [Segment.checkNode, if_neg fun hn => h.next_ne_mark hi hn.2]
      exact h.checkLoop_eq fuel (i + 1) cnt
    · rfl

theorem scanFreeStep_untouched (h : SegInv s fl es []) :
    Untouched s s.scanFreeStep ∧ s.scanFreeStep.bUseFlag = s.bUseFlag := by
  have hpos := h.pos
  have hk : (if s.wNodeCount ≤ s.wScanFreeIndex then 1 else s.wScanFreeIndex) < s.wNodeCount := by
    split <;> omega
  unfold Segment.scanFreeStep
  dsimp only
  rw [if_neg (h.next_ne_mark hk)]
  exact ⟨⟨rfl, rfl, rfl, rfl⟩, rfl⟩

theorem of_untouched {s' : Segment} (h : SegInv s fl es ms) (hu : Untouched s s') :
    SegInv s' fl es ms := h.of_eq hu.count hu.used hu.free hu.node

theorem scanFreeRounds_untouched : ∀ iScan {s}, SegInv s fl es [] →
      Untouched s (s.scanFreeRounds iScan) ∧ (s.scanFreeRounds iScan).bUseFlag = s.bUseFlag
  | 0, s, _ => ⟨Untouched.refl s, rfl⟩
  | iScan + 1, s, h => by
    obtain ⟨h1, hf1⟩ := h.scanFreeStep_untouched
    obtain ⟨h2, hf2⟩ := scanFreeRounds_untouched iScan (h.of_untouched h1)
    exact ⟨h1.trans h2, hf2.trans hf1⟩

theorem scanFreeNode_untouched (h : SegInv s fl es []) : Untouched s s.scanFreeNode :=
  (h.scanFreeRounds_untouched 50).1

/-! ### A segment's turn -/

theorem tryLock_of_free (hf : s.bUseFlag = false) (now : Nat) :
    ∃ s', s.tryLock now = some s' ∧ Untouched s s' := by
  rw [Segment.tryLock, hf]
  exact ⟨_, rfl, rfl, rfl, rfl, rfl⟩

theorem save_none {c : NodeLen} {pdata : List UInt8} (h : SegInv s fl es [])
    (hf : s.bUseFlag = false) (now : Nat)
    (hroom : fl.length < needCount c.len pdata.length) :
    ∃ s', s.save c.len pdata now = (s', none) ∧ Untouched s s' ∧ Quiet s' := by
  obtain ⟨s1, hlock, h1⟩ := tryLock_of_free hf now
  have hi1 := h.of_untouched h1
  have h2 := hi1.scanFreeNode_untouched
  have hlen := hi1.length
  have hlt : s1.wNodeCount < s1.wNodeUsed + needCount c.len pdata.length := by omega
  rw [Segment.save, hlock]
  dsimp only
  rw [if_pos hlt]
  generalize s1.scanFreeNode = s2 at h2
  have hu : Untouched s s2.unlock := (h1.trans h2).trans ⟨rfl, rfl, rfl, rfl⟩
  rw [h2.count, h2.used, if_pos hlt]
  exact ⟨s2.unlock, rfl, hu, (h.of_untouched hu).quiet rfl⟩

theorem save_some {c : NodeLen} {pdata : List UInt8} (h : SegInv s fl es [])
    (hf : s.bUseFlag = false) (now : Nat) (hn : pdata.length ≠ 0)
    (hmax : pdata.length ≤ maxDataLen)
    (hroom : needCount c.len pdata.length ≤ fl.length) :
    ∃ s' a, s.save c.len pdata now = (s', some a) ∧ a < 65536 ∧ Quiet s' := by
  obtain ⟨s1, hlock, h1⟩ := tryLock_of_free hf now
  have hi1 := h.of_untouched h1
  have hi2 := hi1.of_untouched hi1.scanFreeNode_untouched
  have hlen := hi1.length
  rw [Segment.save, hlock]
  dsimp only
  rw [if_neg (by omega), Segment.saveInto]
  generalize s1.scanFreeNode = s2 at hi2
  obtain ⟨fl', l, hi3, -⟩ := hi2.saveChain hn hmax hroom rfl
  have hb := hi3.bounds (i := s2.wFreeNodeIndex) (by simp)
  have hsz := hi3.size
  exact ⟨_, s2.wFreeNodeIndex, rfl, by omega, hi3.unlock.quiet rfl⟩

end SegInv

/-! ## The classes and segments in turn -/

/-- A segment of class `c` has enough free nodes for `n` bytes. -/
def HasRoom (c : NodeLen) (n : Nat) (s : Segment) : Prop :=
  ∃ fl, s.freeList = some fl ∧ (n + c.len - 1) / c.len ≤ fl.length

theorem needCount_eq (c : NodeLen) (h : n ≤ maxDataLen) :
    needCount c.len n = (n + c.len - 1) / c.len := by
  unfold maxDataLen at h
  by_cases hz : n % c.len = 0 <;> cases c <;>
    simp only [needCount, NodeLen.len] at hz ⊢ <;>
    simp only [hz, if_true, if_false] <;> omega

theorem SegInv.hasRoom_iff {fl ms : List Nat} {es : List Entry}
    (h : SegInv s fl es ms) (hn : n ≤ maxDataLen) :
    HasRoom c n s ↔ needCount c.len n ≤ fl.length := by
  rw [HasRoom, h.freeList_eq, needCount_eq c hn]
  constructor
  · rintro ⟨_, ⟨⟩, hle⟩
    exact hle
  · exact fun hle => ⟨fl, rfl, hle⟩

/-- Every segment is in order, with its flag free and nothing marked. -/
def Ready (g : Pool) : Prop :=
  ∀ c j, j < shmCount → ∃ fl es, SegInv (g.seg c j) fl es [] ∧ (g.seg c j).bUseFlag = false

/-- What a call leaves that went over the segments without taking any. -/
structure Passed (g g' : Pool) : Prop where
  same : ∀ c j, Untouched (g.seg c j) (g'.seg c j)
  quiet : ∀ c j, j < shmCount → Quiet (g'.seg c j)

theorem Ready.quiet (h : Ready g) (hj : j < shmCount) : Quiet (g.seg c j) := by
  obtain ⟨fl, es, hs, hf⟩ := h c j hj
  exact hs.quiet hf

theorem Ready.passed_self (h : Ready g) : Passed g g :=
  ⟨fun _ _ => Untouched.refl _, fun _ _ => h.quiet⟩

theorem Passed.trans {g'' : Pool} (h : Passed g g') (h' : Passed g' g'') : Passed g g'' :=
  ⟨fun c j => (h.same c j).trans (h'.same c j), h'.quiet⟩

theorem Passed.ready (h : Passed g g') (hg : Ready g) : Ready g' := by
  intro c j hj
  obtain ⟨fl, es, hs, -⟩ := hg c j hj
  exact ⟨fl, es, hs.of_untouched (h.same c j), (h.quiet c j hj).flag⟩

theorem Passed.hasRoom_iff (h : Passed g g') (c : NodeLen) (j n : Nat) :
    HasRoom c n (g'.seg c j) ↔ HasRoom c n (g.seg c j) := by
  rw [HasRoom, (h.same c j).freeList, HasRoom]

theorem Ready.setSeg_passed (h : Ready g) (hs : Untouched (g.seg c j) s) (hq : Quiet s) :
    Passed g (g.setSeg c j s) := by
  refine ⟨fun c' j' => ?_, fun c' j' hj => ?_⟩ <;> rw [seg_setSeg] <;> split
  · rename_i he
    rw [he.1, he.2]
    exact hs
  · exact Untouched.refl _
  · exact hq
  · exact h.quiet hj

/-- The outcome of a save that looks at the segments `P`: none of them has room
and nothing is touched, or one has and a handle is returned. -/
def Tried (g : Pool) (n : Nat) (P : NodeLen → Nat → Prop) (r : Pool × Int) : Prop :=
  (r.2 < 0 ∧ Passed g r.1 ∧ ∀ c j, P c j → ¬ HasRoom c n (g.seg c j)) ∨
    (0 < r.2 ∧ (∀ c j, j < shmCount → Quiet (r.1.seg c j)) ∧ ∃ c j, P c j ∧ HasRoom c n (g.seg c j))

theorem Tried.after {P Q : NodeLen → Nat → Prop} {r : Pool × Int}
    (h : Tried g' n P r) (hg : Passed g g') (hPQ : ∀ c j, P c j → Q c j)
    (hQ : ∀ c j, Q c j → ¬ P c j → ¬ HasRoom c n (g.seg c j)) : Tried g n Q r := by
  rcases h with ⟨hr, hp, hno⟩ | ⟨hr, hq, c, j, hP, hroom⟩
  · refine .inl ⟨hr, hg.trans hp, fun c j hc => ?_⟩
    by_cases hP : P c j
    · rw [← hg.hasRoom_iff]
      exact hno c j hP
    · exact hQ c j hc hP
  · exact .inr ⟨hr, hq, c, j, hPQ c j hP, (hg.hasRoom_iff c j n).mp hroom⟩

section Save

variable {pdata : List UInt8} (now : Nat) (hn : pdata.length ≠ 0) (hmax : pdata.length ≤ maxDataLen)

include hn hmax

theorem saveClassFrom_tried (c : NodeLen) : ∀ {n i} {g}, Ready g → i + n = shmCount →
      Tried g pdata.length (fun c' j => c' = c ∧ i ≤ j ∧ j < shmCount)
        (saveClassFrom c pdata now n i g)
  | 0, i, g, hg, hi => .inl ⟨by simp [saveClassFrom], hg.passed_self, fun c' j hj => by omega⟩
  | n + 1, i, g, hg, hi => by
    obtain ⟨fl, es, hs, hf⟩ := hg c i (by omega)
    unfold saveClassFrom
    by_cases hroom : needCount c.len pdata.length ≤ fl.length
    · obtain ⟨s', a, hsave, ha, hq⟩ := hs.save_some hf now hn hmax hroom
      rw [hsave]
      refine .inr ⟨?_, fun c' j hj => ?_, c, i, ⟨rfl, le_refl i, by omega⟩,
        (hs.hasRoom_iff hmax).mpr hroom⟩
      · have hc : 0 < c.len := by cases c <;> decide
        dsimp only
        rw [makeIdx32_eq (by cases c <;> decide) ha]
        omega
      · rw [seg_setSeg]
        split
        · exact hq
        · exact hg.quiet hj
    · obtain ⟨s', hsave, hu, hq⟩ := hs.save_none hf now (not_le.mp hroom)
      rw [hsave]
      have hp := hg.setSeg_passed hu hq
      refine (saveClassFrom_tried c (hp.ready hg) (by omega)).after hp (fun c' j hP => ?_)
        fun c' j hQ hP => ?_
      · exact ⟨hP.1, by omega, hP.2.2⟩
      · obtain ⟨rfl, rfl⟩ : c' = c ∧ j = i := ⟨hQ.1, by
          by_contra hne
          exact hP ⟨hQ.1, by omega⟩⟩
        rwa [hs.hasRoom_iff hmax]

theorem saveTry_tried : ∀ {cs} {g} {ret}, Ready g → ret < 0 →
      Tried g pdata.length (fun c j => c ∈ cs ∧ j < shmCount) (saveTry pdata now cs g ret)
  | [], g, ret, hg, hr => .inl ⟨hr, hg.passed_self, fun c j hj => by cases hj.1⟩
  | c :: cs, g, _, hg, _ => by
    have h1 := saveClassFrom_tried now hn hmax c (n := shmCount) (i := 0) hg (by simp)
    unfold saveTry saveClass
    dsimp only
    rcases h1 with ⟨hneg, hp, hno⟩ | ⟨hpos, hq, c', j, hP, hroom⟩
    · rw [if_pos hneg]
      refine (saveTry_tried (hp.ready hg) hneg).after hp
        (fun c' j hj => ⟨mem_cons_of_mem _ hj.1, hj.2⟩) fun c' j hQ hP => ?_
      rcases mem_cons.mp hQ.1 with rfl | hm
      · exact hno c' j ⟨rfl, Nat.zero_le _, hQ.2⟩
      · exact absurd ⟨hm, hQ.2⟩ hP
    · rw [if_neg (by omega)]
      exact .inr ⟨hpos, hq, c', j, ⟨by rw [hP.1]; exact mem_cons_self, hP.2.2⟩, hroom⟩

theorem saveToVmem_tried {g : Pool} (hi : g.cIsInit = true) (hg : Ready g) :
    Tried g pdata.length (fun _ j => j < shmCount) (g.saveToVmem pdata now) := by
  have hmem : ∀ c, c ∈ saveOrder pdata.length := by
    intro c
    rw [saveOrder, mem_append, mem_filter, mem_filter]
    by_cases hc : c.len ≤ pdata.length
    · exact .inl ⟨by cases c <;> decide, by simpa using hc⟩
    · exact .inr ⟨by cases c <;> decide, by simpa using hc⟩
  rw [saveToVmem, if_neg (by simp [hi]), if_neg (by omega)]
  refine (saveTry_tried now hn hmax hg (by decide)).after hg.passed_self (fun _ _ h => h.2) ?_
  exact fun c j hj hP => absurd ⟨hmem c, hj⟩ hP

end Save

/-! ## Runs of one process -/

namespace PoolInv

variable {g : Pool} {live : List (Int × List UInt8)} {pend : List (NodeLen × Nat × Nat)}

theorem ready (h : PoolInv g live pend) (hq : ∀ c j, j < shmCount → Quiet (g.seg c j)) :
    Ready g := by
  intro c j hj
  obtain ⟨fl, es, ms, hs, -⟩ := h.seg c j hj
  obtain rfl := hs.marks_nil (hq c j hj)
  exact ⟨fl, es, hs, (hq c j hj).flag⟩

/-- A free gets the flag, so it marks nothing. -/
theorem freeVmem_quiet {p : Int × List UInt8} (h : PoolInv g (p :: live) pend) (hg : Ready g)
    {now : Nat} {g' : Pool} {r : Int} (hr : g.freeVmem p.1 now = some (g', r)) {c' : NodeLen}
    {j' : Nat} (hj' : j' < shmCount) : Quiet (g'.seg c' j') := by
  obtain ⟨c, j, hj, hin⟩ := h.handle p mem_cons_self
  obtain ⟨fl, l, es, ms, hseg, -⟩ := h.live_entry hj hin
  obtain rfl := hseg.marks_nil (hg.quiet hj)
  have hb := hseg.bounds (i := parseNIdx p.1) (by simp)
  obtain ⟨s1, hlock, -⟩ := SegInv.tryLock_of_free (hg.quiet hj).flag now
  have hseg1 := hseg.tryLock hlock
  obtain ⟨s', fl', ms', hfree, h', hms⟩ := hseg1.freeLoop true (chain_lt hseg1)
  obtain rfl := hms rfl
  have hfv : g.freeVmem p.1 now = some (g.setSeg c j s'.unlock, 0) := by
    have hj5 : ¬ shmCount ≤ j := by omega
    simp [Pool.freeVmem, h.isInit, hin.1, hin.2, hj5, hb.2, hlock, hfree]
  rw [hfv] at hr
  obtain ⟨rfl, rfl⟩ := Prod.mk.inj (Option.some.inj hr)
  rw [seg_setSeg]
  split
  · exact h'.unlock.quiet rfl
  · exact hg.quiet hj'

end PoolInv

theorem Ready.checkClassFrom (h : Ready g) (c : NodeLen) :
    ∀ n j cnt, j + n = shmCount → g.checkClassFrom c n j cnt = some (g, cnt)
  | 0, _, _, _ => rfl
  | n + 1, j, cnt, hj => by
    obtain ⟨fl, es, hs, -⟩ := h c j (by omega)
    rw [Pool.checkClassFrom, hs.checkLoop_eq]
    dsimp only
    rw [g.setSeg_self c j]
    exact h.checkClassFrom c n (j + 1) cnt (by omega)

theorem Ready.checkAll (h : Ready g) :
    ∀ cs cnt, g.checkAll cs cnt = some (g, cnt)
  | [], _ => rfl
  | c :: cs, cnt => by
    rw [Pool.checkAll, h.checkClassFrom c shmCount 0 cnt (zero_add _)]
    exact h.checkAll cs cnt

theorem Ready.scanNodeInner (h : Ready g) {i cnt now : Nat} {r : Int}
    (hr : g.scanNodeInner c j i cnt now = some (g', r)) : Passed g g' := by
  unfold Pool.scanNodeInner at hr
  by_cases hj : shmCount ≤ j
  · rw [if_pos hj] at hr
    cases hr
    exact h.passed_self
  · rw [if_neg hj] at hr
    obtain ⟨fl, es, hs, hf⟩ := h c j (by omega)
    obtain ⟨s1, hlock, hu⟩ := SegInv.tryLock_of_free hf now
    have hi := hs.of_untouched hu
    obtain ⟨k, hk⟩ := hi.scanLoop_eq cnt i
    rw [hlock] at hr
    simp only [hk] at hr
    obtain ⟨rfl, -⟩ := Prod.mk.inj (Option.some.inj hr)
    exact h.setSeg_passed (hu.trans ⟨rfl, rfl, rfl, rfl⟩) (hi.unlock.quiet rfl)

theorem Ready.scanNode (h : Ready g) {n : Int} {now : Nat} {r : Int}
    (hr : g.scanNode n now = some (g', r)) (hj : j < shmCount) :
    Quiet (g'.seg c j) := by
  have hseg : ∃ g1 r1, g.scanNodeInner g.iCurScanLen g.iCurScanArrIdx g.iNodeIdx
      (if n < 1000 then 1000 else n.toNat) now = some (g1, r1) ∧ g'.seg = g1.seg := by
    unfold Pool.scanNode at hr
    dsimp only at hr
    split at hr
    · cases hr
    rename_i g1 r1 h1
    refine ⟨g1, r1, h1, ?_⟩
    split at hr
    · split at hr <;> cases hr <;> rfl
    · split at hr <;> cases hr <;> rfl
  obtain ⟨g1, r1, h1, he⟩ := hseg
  rw [he]
  exact (h.scanNodeInner h1).quiet c j hj

namespace Store

/-- The pool of one process between its calls. -/
structure OneProcess (st : Store) : Prop where
  inv : PoolInv st.pool st.live []
  ready : Ready st.pool

theorem oneProcess_initial : OneProcess initial where
  inv := PoolInv.initVmem
  ready c j _ := ⟨_, [], PoolInv.createInit (by cases c <;> decide) (by cases c <;> decide), rfl⟩

theorem exec_oneProcess (st : Store) (op : Op) (h : OneProcess st) (hlegal : st.Legal op) :
    ∃ st', st.exec op = some st' ∧ OneProcess st' := by
  obtain ⟨st', he, h'⟩ := exec_inv st op h.inv hlegal
  refine ⟨st', he, h', h'.ready fun c j hj => ?_⟩
  cases op with
  | save pdata now =>
    cases he
    by_cases hlen : pdata.length = 0 ∨ maxDataLen < pdata.length
    · rw [saveToVmem, if_neg (by simp [h.inv.isInit]), if_pos hlen]
      exact h.ready.quiet hj
    · rw [not_or, not_lt] at hlen
      rcases saveToVmem_tried now hlen.1 hlen.2 h.inv.isInit h.ready with ⟨-, hp, -⟩ | ⟨-, hq, -⟩
      · exact hp.quiet c j hj
      · exact hq c j hj
  | free index now =>
    obtain ⟨⟨g', r⟩, hr, rfl⟩ := Option.map_eq_some_iff.mp he
    obtain ⟨d, hd⟩ := hlegal index now rfl
    have h0 := h.inv.perm (perm_cons_erase hd) (List.Perm.refl [])
    exact h0.freeVmem_quiet h.ready hr hj
  | scan n now =>
    obtain ⟨⟨g', r⟩, hr, rfl⟩ := Option.map_eq_some_iff.mp he
    exact h.ready.scanNode hr hj
  | check =>
    have hc : st.pool.checkVmem = some (st.pool, ((0 : Nat) : Int)) := by
      simp [checkVmem, h.inv.isInit, h.inv.isVmemInit, h.ready.checkAll]
    rw [exec, hc] at he
    cases he
    exact h.ready.quiet hj

/-- **Room.** In every state that one process reaches, each segment's free list
has as many nodes as its counter says, and a save of any length returns a
positive handle exactly if some segment has enough; else nothing changes but
the scan positions and the start times. -/
theorem save_iff_room (ops : List Op) (h : Meets exec Legal ops initial) :
    ∃ st, run exec ops initial = some st ∧
      (∀ c j, j < shmCount → ∃ fl, (st.pool.seg c j).freeList = some fl ∧
        fl.length = (st.pool.seg c j).wNodeCount - (st.pool.seg c j).wNodeUsed) ∧
      ∀ (pdata : List UInt8) (now : Nat), pdata.length ≠ 0 → pdata.length ≤ maxDataLen →
        (0 < (st.pool.saveToVmem pdata now).2 ↔
          ∃ c j, j < shmCount ∧ HasRoom c pdata.length (st.pool.seg c j)) ∧
        (¬ 0 < (st.pool.saveToVmem pdata now).2 → ∀ c j,
          Untouched (st.pool.seg c j) ((st.pool.saveToVmem pdata now).1.seg c j) ∧
          ((st.pool.saveToVmem pdata now).1.seg c j).freeList = (st.pool.seg c j).freeList) := by
  obtain ⟨st, hr, hi⟩ := run_inv exec_oneProcess oneProcess_initial h
  refine ⟨st, hr, fun c j hj => ?_, fun pdata now hn hmax => ?_⟩
  · obtain ⟨fl, es, hs, -⟩ := hi.ready c j hj
    have hlen := hs.length
    exact ⟨fl, hs.freeList_eq, by omega⟩
  rcases saveToVmem_tried now hn hmax hi.inv.isInit hi.ready with
    ⟨hneg, hp, hno⟩ | ⟨hpos, -, c, j, hj, hroom⟩
  · have hle : ¬ 0 < (st.pool.saveToVmem pdata now).2 := by omega
    refine ⟨⟨fun hpos => absurd hpos hle, fun ⟨c, j, hj, hroom⟩ => ?_⟩, fun _ c j => ?_⟩
    · exact absurd hroom (hno c j hj)
    · exact ⟨hp.same c j, (hp.same c j).freeList⟩
  · exact ⟨⟨fun _ => ⟨c, j, hj, hroom⟩, fun _ => hpos⟩, fun hle => absurd hpos hle⟩

/-- One value saved, then a save of three bytes. -/
theorem save_iff_room_second_value : ∃ st, run exec [.save [7, 8] 5] initial = some st ∧
      (0 < (st.pool.saveToVmem [1, 2, 3] 9).2 ↔
        ∃ c j, j < shmCount ∧ HasRoom c 3 (st.pool.seg c j)) := by
  obtain ⟨st, hr, -, h⟩ := save_iff_room [.save [7, 8] 5] ⟨by rintro _ _ ⟨⟩, fun _ _ => trivial⟩
  exact ⟨st, hr, (h [1, 2, 3] 9 (by decide) (by decide)).1⟩

/-- **No leak.** After any legal calls of one process no two live values have the same handle,
and once all are freed every node is back in the free list of its segment. -/
theorem frees_give_back (ops : List Op) (h : Meets exec Legal ops initial) :
    ∃ st, run exec ops initial = some st ∧ (st.live.map Prod.fst).Nodup ∧
      (st.live = [] → ∀ c j, j < shmCount → (st.pool.seg c j).wNodeUsed = 1 ∧
        ∃ fl, (st.pool.seg c j).freeList = some fl ∧
          fl.Perm (List.range' 1 ((st.pool.seg c j).wNodeCount - 1))) := by
  obtain ⟨st, hr, hi⟩ := run_inv exec_oneProcess oneProcess_initial h
  refine ⟨st, hr, ?_, fun hnil c j hj => ?_⟩
  · rw [Nodup, pairwise_map, pairwise_iff_forall_sublist]
    intro p q hsub heq
    obtain ⟨l, hl⟩ := hsub.exists_perm_append
    refine (hi.inv.perm hl (List.Perm.refl [])).fresh q.2 ?_
    rw [heq]
    exact mem_cons_self
  · obtain ⟨fl, es, ms, hs, hes⟩ := hi.inv.seg c j hj
    obtain rfl := hs.marks_nil (hi.ready.quiet hj)
    rw [hnil] at hes
    obtain rfl := map_eq_nil_iff.mp hes.eq_nil
    exact ⟨hs.used, fl, hs.freeList_eq, by simpa using hs.perm⟩

/-- A value is saved and freed. -/
theorem frees_give_back_one : ∃ st,
    run exec [.save [7, 8] 5, .free 1048577 6] initial = some st ∧ st.live = [] ∧
      (st.pool.seg .n16 0).wNodeUsed = 1 := by
  have hok : Meets exec Legal [.save [7, 8] 5, .free 1048577 6] initial := by
    refine ⟨by rintro _ _ ⟨⟩, fun st' h => ⟨?_, fun _ _ => trivial⟩⟩
    rintro _ _ ⟨⟩
    obtain rfl := Option.some.inj h
    exact ⟨[7, 8], by decide +kernel⟩
  obtain ⟨st, hr, -, h⟩ := frees_give_back _ hok
  have hl : (run exec [.save [7, 8] 5, .free 1048577 6] initial).map live = some [] := by
    decide +kernel
  rw [hr] at hl
  have hnil := Option.some.inj hl
  exact ⟨st, hr, hnil, (h hnil .n16 0 (by decide)).1⟩

end Store

end DesPwd.L2.Vmem
