import DesPwd.L5Concurrency.VmemShared

/-!
# Reads under any handle

`MtReport_GetFromVmem` takes no flag and trusts the handle it is given: a value
that was freed, the middle of a chain, a node of the free list, a marked node,
the head of a segment, or a number that was never a handle. `Use` is one node
the read looks at, with the bytes it copies from there; `Pool.uses` lists them.

* `SegInv.ends`: from every node of a segment in order the links leave the
  node array after at most `wNodeCount` nodes.
* `Segment.Bounded`: no node claims more bytes than it has; every step keeps it.
* `read_safe_iff`: in every state that an interleaving of saves, frees of live
  handles and scans reaches, a read under any handle returns, stays in the
  arrays and in the buffer, except under a handle with segment number
  `VMEM_SHM_COUNT`, which the check `tIdx > VMEM_SHM_COUNT` lets through.
* `read_segment_five`: such a handle.
-/
namespace DesPwd.L2.Vmem

open Links List Pool Segment

/-! ## What a read uses -/

/-- A node array, a node in it, and the number of bytes that are copied from
there; the `memcpy` may run on into the nodes behind it. -/
structure Use where
  c : NodeLen
  tIdx : Nat
  nIdx : Nat
  bytes : Nat
  deriving DecidableEq

/-- The nodes that the loop of `VMEM_GET_DATA` looks at, with the bytes copied.
mirrors language/c_cpp/mt_vmem.c:272-280 -/
def Segment.visits (s : Segment) : Nat → Nat → Int → Option (List (Nat × Nat))
  | 0, _, _ => none
  | fuel + 1, nIdx, iBufLen =>
    if iBufLen < s.dataLen nIdx then some [(nIdx, 0)]
    else if s.next nIdx < s.wNodeCount then
      (s.visits fuel (s.next nIdx) (iBufLen - s.dataLen nIdx)).map ((nIdx, s.dataLen nIdx) :: ·)
    else some [(nIdx, s.dataLen nIdx)]

/-- What `MtReport_GetFromVmem` uses, the head of the segment first. What a
segment outside the arrays holds is not known, so the list ends with it.
mirrors mt_vmem.c:253-304 -/
def Pool.uses (g : Pool) (index piBufLen : Int) : Option (List Use) :=
  if !g.cIsInit then some []
  else if shmCount < parseTIdx index then some []
  else
    match NodeLen.ofLen (parseLen index) with
    | none => some []
    | some c =>
      let head : Use := ⟨c, parseTIdx index, 0, 0⟩
      if parseTIdx index < shmCount then
        let s := g.seg c (parseTIdx index)
        if s.wNodeCount ≤ parseNIdx index then some [head]
        else (s.visits s.wNodeCount (parseNIdx index) piBufLen).map fun l =>
          head :: l.map fun p => ⟨c, parseTIdx index, p.1, p.2⟩
      else some [head]

/-- The use is of an existing segment, of a node below `wNodeCount`, and the
bytes lie in this node and those behind it. -/
def Use.Inside (g : Pool) (u : Use) : Prop :=
  u.tIdx < shmCount ∧ u.nIdx < (g.seg u.c u.tIdx).wNodeCount ∧
    u.bytes ≤ ((g.seg u.c u.tIdx).wNodeCount - u.nIdx) * u.c.len

/-- The read returns, uses only what is inside, and writes at most `*piBufLen`
bytes. -/
def SafeRead (g : Pool) (index piBufLen : Int) : Prop :=
  ∃ r us, g.getFromVmem index piBufLen = some r ∧ g.uses index piBufLen = some us ∧
    (∀ u ∈ us, u.Inside g) ∧ ((us.map Use.bytes).sum : Int) ≤ max piBufLen 0

/-! ## Every walk ends -/

namespace SegInv

variable {s : Segment} {fl ms : List Nat} {es : List Entry} {i : Nat}

/-- From `i` the links visit the nodes `i :: l` and then leave the array. -/
structure Ends (s : Segment) (i : Nat) (l : List Nat) : Prop where
  linked : ∃ e, s.wNodeCount ≤ e ∧ Linked s.next e i (i :: l)
  lt : ∀ j ∈ i :: l, j < s.wNodeCount
  length : l.length < s.wNodeCount

theorem ends_of_list (h : SegInv s fl es ms) {k : Nat} {l : List Nat}
    (hl : Linked s.next s.wNodeCount k l) (hsub : l ⊆ fl ++ (es.flatMap Entry.chain ++ ms))
    (hlen : l.length ≤ s.wNodeCount) (hi : i ∈ l) : ∃ l', Ends s i l' := by
  obtain ⟨l1, l2, rfl⟩ := append_of_mem hi
  refine ⟨l2, ⟨s.wNodeCount, le_refl _, hl.suffix⟩, fun j hj => ?_, ?_⟩
  · exact (h.bounds (hsub (mem_append_right _ hj))).2
  · simp only [length_append, length_cons] at hlen
    omega

/-- **Termination.** A walk from any node of the segment leaves the array. -/
theorem ends (h : SegInv s fl es ms) (hi : i < s.wNodeCount) : ∃ l, Ends s i l := by
  have hlen := h.length
  have hused := h.used
  by_cases h0 : i = 0
  · -- the head: its link is `wNodeCount` itself
    subst h0
    refine ⟨[], ⟨s.wNodeCount, le_refl _, rfl, by simp [Linked, Segment.next]⟩, ?_, hi⟩
    simpa using hi
  have hm : i ∈ fl ++ (es.flatMap Entry.chain ++ ms) :=
    h.perm.mem_iff.mpr (mem_range'_1.mpr (by omega))
  rcases mem_append.mp hm with hf | hm'
  · exact h.ends_of_list h.free (fun j hj => mem_append_left _ hj) (by omega) hf
  rcases mem_append.mp hm' with hc | hk
  · obtain ⟨e, he, hc⟩ := mem_flatMap.mp hc
    have hsub : e.chain.Sublist (es.flatMap Entry.chain) :=
      sublist_flatten_of_mem (mem_map_of_mem he)
    refine h.ends_of_list (h.entry e he).linked (fun j hj => ?_) ?_ hc
    · exact mem_append_right _ (mem_append_left _ (hsub.subset hj))
    · have := hsub.length_le
      omega
  · refine ⟨[], ⟨s.wNodeCount + 1, Nat.le_succ _, rfl, h.marked i hk⟩, ?_, Nat.zero_lt_of_lt hi⟩
    simpa using hi

end SegInv

/-- A read along a walk that ends: it returns, and copies no more than fits. -/
theorem Segment.getLoop_visits {s : Segment} {e : Nat} {n : Int} (he : s.wNodeCount ≤ e) :
    ∀ {l} {i fuel} iDataLen b out,
      Linked s.next e i (i :: l) → (∀ j ∈ i :: l, j < s.wNodeCount) → l.length < fuel →
      ∃ r v, s.getLoop n fuel i b iDataLen out = some r ∧ s.visits fuel i b = some v ∧
        (∀ p ∈ v, p.1 < s.wNodeCount ∧ p.2 ≤ s.dataLen p.1) ∧
        ((v.map Prod.snd).sum : Int) ≤ max b 0
  | _, _, 0, _, _, _, _, _, hf => absurd hf (Nat.not_lt_zero _)
  | l, i, fuel + 1, iDataLen, b, out, hl, hlt, hf => by
    have hi := hlt i mem_cons_self
    rw [getLoop, visits]
    by_cases hb : b < s.dataLen i
    · rw [if_pos hb, if_pos hb]
      exact ⟨_, _, rfl, rfl, by simpa using hi, Int.le_max_right b 0⟩
    rw [if_neg hb, if_neg hb]
    cases l with
    | nil =>
      have hstop : ¬ s.next i < s.wNodeCount := by
        rw [show s.next i = e from hl.2]
        omega
      rw [if_neg hstop, if_neg hstop]
      refine ⟨_, _, rfl, rfl, by simpa using hi, ?_⟩
      show (s.dataLen i : Int) ≤ max b 0
      omega
    | cons k l =>
      have hk : s.next i = k := hl.2.1
      rw [hk, if_pos (hlt k (by simp)), if_pos (hlt k (by simp))]
      have hl' : Linked s.next e k (k :: l) := ⟨rfl, hl.2.2⟩
      obtain ⟨r, v, hr, hv, hin, hsum⟩ := getLoop_visits he _ _ _ hl'
        (fun j hj => hlt j (mem_cons_of_mem _ hj)) (Nat.lt_of_succ_lt_succ hf)
      refine ⟨r, (i, s.dataLen i) :: v, hr, by rw [hv]; rfl, ?_, ?_⟩
      · intro p hp
        rcases mem_cons.mp hp with rfl | hp
        · exact ⟨hi, le_refl _⟩
        · exact hin p hp
      · simp only [map_cons, sum_cons]
        omega

/-! ## No node claims more bytes than it has -/

namespace Segment

def Bounded (len : Nat) (s : Segment) : Prop := ∀ i, (s.node i).bDataLen ≤ len

namespace Bounded

variable {len : Nat} {s s' : Segment} {i v : Nat}

section

variable (h : s.Bounded len)
include h

theorem of_node (hn : s'.node = s.node) : s'.Bounded len := by
  rw [Bounded, hn]
  exact h

theorem update {nd : VmemBufNode}
    (hn : s'.node = Function.update s.node i nd) (hnd : nd.bDataLen ≤ len) : s'.Bounded len := by
  intro j
  rw [hn]
  by_cases hj : j = i
  · rw [hj, Function.update_self]
    exact hnd
  · rw [Function.update_of_ne hj]
    exact h j

theorem setNext : (s.setNext i v).Bounded len := by
  unfold Segment.setNext
  split
  · exact h.of_node rfl
  · exact h.update rfl (h i)

theorem setDataLen (hv : v ≤ len) : (s.setDataLen i v).Bounded len := by
  unfold Segment.setDataLen
  split
  · exact h.of_node rfl
  · exact h.update rfl (le_trans (Nat.mod_le v 256) hv)

theorem memcpy (src : List UInt8) : (s.memcpy i src).Bounded len :=
  h.update rfl (h i)

theorem reclaim : (s.reclaim i).Bounded len := h.setNext.of_node rfl

theorem tryLock {now : Nat} (hl : s.tryLock now = some s') : s'.Bounded len := by
  unfold Segment.tryLock at hl
  split at hl
  · cases hl
    exact h.of_node rfl
  · cases hl

theorem scanNode : (s.scanNode i).Bounded len := by
  unfold Segment.scanNode
  split
  · exact h.reclaim
  · exact h

end

theorem scanFreeRounds : ∀ n {s : Segment}, s.Bounded len → (s.scanFreeRounds n).Bounded len
  | 0, _, h => h
  | n + 1, s, h => by
    have h1 : s.scanFreeStep.Bounded len :=
      h.scanNode.of_node rfl
    exact scanFreeRounds n h1

theorem scanFreeNode (h : s.Bounded len) : s.scanFreeNode.Bounded len := h.scanFreeRounds 50

variable {pdata : List UInt8}

theorem saveLoop :
    ∀ {need rd free} {s : Segment}, s.Bounded len → pdata.length ≤ rd + (need + 1) * len →
      (s.saveLoop len pdata (need + 1) rd free).Bounded len
  | 0, rd, free, s, h, hn => by
    exact (h.setNext.memcpy _).setDataLen (by omega)
  | need + 1, rd, free, s, h, hn => by
    unfold Segment.saveLoop
    have h1 := (h.memcpy (i := free) ((pdata.drop rd).take len)).setDataLen (i := free)
      (le_refl len)
    refine saveLoop (setNext (h1.of_node rfl)) ?_
    rw [Nat.add_mul] at hn
    omega

theorem saveInto {c : NodeLen} (h : s.Bounded c.len)
    (hn : pdata.length ≠ 0) (hmax : pdata.length ≤ maxDataLen) :
    (s.saveInto c.len pdata).1.Bounded c.len := by
  obtain ⟨k, hk, -, hle⟩ := SegInv.needCount_spec c hn hmax
  have h1 := h.scanFreeNode
  unfold Segment.saveInto
  generalize s.scanFreeNode = s1 at h1
  rw [hk]
  have h2 : (s1.getFreeNode.addUsed (k + 1)).Bounded c.len := h1.of_node rfl
  have h3 : ((s1.getFreeNode.addUsed (k + 1)).saveLoop c.len pdata (k + 1) 0
      s1.wFreeNodeIndex).Bounded c.len := h2.saveLoop (by omega)
  exact h3.of_node rfl

theorem save {c : NodeLen} {now : Nat} (h : s.Bounded c.len)
    (hn : pdata.length ≠ 0) (hmax : pdata.length ≤ maxDataLen) :
    (s.save c.len pdata now).1.Bounded c.len := by
  unfold Segment.save
  split
  · exact h
  rename_i s1 hlock
  have h1 := h.tryLock hlock
  have h2 := h1.scanFreeNode
  dsimp only
  generalize s1.scanFreeNode = s2 at h2
  split
  · split
    · exact h2.of_node rfl
    · dsimp only
      exact h2.saveInto hn hmax
  · dsimp only
    exact h1.saveInto hn hmax

theorem freeNode (h : s.Bounded len) (got : Bool) : (s.freeNode got i).Bounded len := by
  have h1 := h.setDataLen (i := i) (Nat.zero_le len)
  unfold Segment.freeNode
  split
  · exact h1.reclaim
  · exact h1.setNext

theorem freeLoop (got : Bool) :
    ∀ {fuel i} {s s' : Segment}, s.Bounded len → s.freeLoop got fuel i = some s' →
      s'.Bounded len
  | 0, _, _, _, _, hr => by cases hr
  | fuel + 1, i, s, s', h, hr => by
    have h1 := h.freeNode (i := i) got
    unfold Segment.freeLoop at hr
    dsimp only at hr
    split at hr
    · cases hr
    · split at hr
      · exact freeLoop got h1 hr
      · cases hr
        exact h1

theorem checkNode (h : s.Bounded len) {b : Bool} (hr : s.checkNode i = some (s', b)) :
    s'.Bounded len := by
  unfold Segment.checkNode at hr
  split at hr
  · split at hr
    · cases hr
    · cases hr
      exact h.reclaim.of_node rfl
  · cases hr
    exact h

theorem scanLoop :
    ∀ {cnt i k} {s s' : Segment}, s.Bounded len → s.scanLoop cnt i = some (s', k) →
      s'.Bounded len
  | 0, _, _, _, _, h, hr => by
    cases hr
    exact h
  | cnt + 1, i, k, s, s', h, hr => by
    unfold Segment.scanLoop at hr
    split at hr
    · split at hr
      · cases hr
      · exact scanLoop h.scanNode hr
    · cases hr
      exact h

end Bounded

end Segment

/-- In every segment of the pool. -/
def Pool.Bounded (g : Pool) : Prop := ∀ c j, (g.seg c j).Bounded c.len

namespace Pool.Bounded

variable {g : Pool}

theorem setSeg {c : NodeLen} {j : Nat} {s : Segment} (h : g.Bounded) (hs : s.Bounded c.len) :
    (g.setSeg c j s).Bounded := by
  intro c' j'
  rw [seg_setSeg]
  split
  · rename_i he
    rw [he.1]
    exact hs
  · exact h c' j'

variable {pdata : List UInt8} {now : Nat}

theorem saveClassFrom (c : NodeLen) (hn : pdata.length ≠ 0) (hmax : pdata.length ≤ maxDataLen) :
    ∀ {n i} {g}, g.Bounded → (saveClassFrom c pdata now n i g).1.Bounded
  | 0, _, _, h => h
  | n + 1, i, g, h => by
    have h1 : ((g.seg c i).save c.len pdata now).1.Bounded c.len := (h c i).save hn hmax
    unfold Pool.saveClassFrom
    split
    · rename_i s a hs
      rw [hs] at h1
      exact h.setSeg h1
    · rename_i s hs
      rw [hs] at h1
      exact saveClassFrom c hn hmax (h.setSeg h1)

theorem saveTry (hn : pdata.length ≠ 0) (hmax : pdata.length ≤ maxDataLen) :
    ∀ {cs} {g} {ret}, g.Bounded → (saveTry pdata now cs g ret).1.Bounded
  | [], _, _, h => h
  | c :: cs, g, _, h => by
    have h1 : (g.saveClass c pdata now).1.Bounded := saveClassFrom c hn hmax h
    unfold Pool.saveTry
    dsimp only
    split
    · exact saveTry hn hmax h1
    · exact h1

theorem saveToVmem (h : g.Bounded) : (g.saveToVmem pdata now).1.Bounded := by
  unfold Pool.saveToVmem
  split
  · exact h
  split
  · exact h
  · rename_i hlen
    rw [not_or, not_lt] at hlen
    exact saveTry hlen.1 hlen.2 h

theorem freeVmem (h : g.Bounded) {index r : Int} {g' : Pool}
    (hr : g.freeVmem index now = some (g', r)) : g'.Bounded := by
  unfold Pool.freeVmem at hr
  split at hr
  · cases hr
    exact h
  split at hr
  · cases hr
    exact h
  split at hr
  · cases hr
    exact h
  dsimp only at hr
  split at hr
  · cases hr
    exact h
  split at hr
  · rename_i s1 hlock
    obtain ⟨s', hf, he⟩ := Option.map_eq_some_iff.mp hr
    cases he
    exact h.setSeg ((((h _ _).tryLock hlock).freeLoop true hf).of_node rfl)
  · obtain ⟨s', hf, he⟩ := Option.map_eq_some_iff.mp hr
    cases he
    exact h.setSeg ((h _ _).freeLoop false hf)

theorem scanNodeInner (h : g.Bounded) {c : NodeLen} {j i cnt : Nat} {r : Int} {g' : Pool}
    (hr : g.scanNodeInner c j i cnt now = some (g', r)) : g'.Bounded := by
  unfold Pool.scanNodeInner at hr
  split at hr
  · cases hr
    exact h
  split at hr
  · cases hr
    exact h
  · rename_i s1 hlock
    obtain ⟨⟨s', k⟩, hs, he⟩ := Option.map_eq_some_iff.mp hr
    cases he
    exact h.setSeg ((((h c j).tryLock hlock).scanLoop hs).of_node rfl)

theorem initVmem : initVmem.Bounded := by
  intro c j i
  show (((zero c.len).createInit c.nodeCount).node i).bDataLen ≤ c.len
  unfold createInit zero
  dsimp only
  split <;> exact Nat.zero_le _

end Pool.Bounded

/-! ## Reads -/

theorem SafeRead.of_nothing {g : Pool} {index piBufLen : Int} {r : Segment.GetRes}
    (hr : g.getFromVmem index piBufLen = some r) (hu : g.uses index piBufLen = some []) :
    SafeRead g index piBufLen :=
  ⟨r, [], hr, hu, nofun, Int.le_max_right _ _⟩

namespace PoolInv

variable {g : Pool} {live : List (Int × List UInt8)} {pend : List (NodeLen × Nat × Nat)}

/-- The bytes copied from a node lie in it, those copied from the head lie in
the segment. -/
theorem dataLen_le {s : Segment} {fl ms : List Nat} {es : List Entry} {c : NodeLen} {i : Nat}
    (h : SegInv s fl es ms) (hb : s.Bounded c.len) (hi : i < s.wNodeCount) :
    s.dataLen i ≤ (s.wNodeCount - i) * c.len := by
  have hc : 0 < c.len := by cases c <;> decide
  by_cases h0 : i = 0
  · have hlen := h.length
    rw [h0, dataLen]
    calc s.wNodeUsed % 256 ≤ s.wNodeUsed := Nat.mod_le _ _
      _ ≤ s.wNodeCount := by omega
      _ ≤ s.wNodeCount * c.len := Nat.le_mul_of_pos_right _ hc
  · rw [dataLen_of_ne h0]
    exact le_trans (hb i) (Nat.le_mul_of_pos_left _ (by omega))

theorem safeRead_of_lt (h : PoolInv g live pend) (hb : g.Bounded) {index : Int} (piBufLen : Int)
    {c : NodeLen} (hc : NodeLen.ofLen (parseLen index) = some c)
    (ht : parseTIdx index < shmCount) : SafeRead g index piBufLen := by
  obtain ⟨fl, es, ms, hseg, -⟩ := h.seg c (parseTIdx index) ht
  have hpos := hseg.pos
  have hhead : Use.Inside g ⟨c, parseTIdx index, 0, 0⟩ := ⟨ht, Nat.zero_lt_of_lt hpos, Nat.zero_le _⟩
  have ht' : ¬ shmCount < parseTIdx index := by omega
  by_cases hn : (g.seg c (parseTIdx index)).wNodeCount ≤ parseNIdx index
  · refine ⟨⟨-2, [], piBufLen⟩, [⟨c, parseTIdx index, 0, 0⟩], ?_, ?_, ?_, Int.le_max_right _ _⟩
    · simp [Pool.getFromVmem, h.isInit, ht', hc, ht, hn]
    · simp [uses, h.isInit, ht', hc, hn]
    · simpa using hhead
  · obtain ⟨l, ⟨e, he, hl⟩, hlt, hll⟩ := hseg.ends (not_le.mp hn)
    obtain ⟨r, v, hr, hv, hin, hsum⟩ :=
      getLoop_visits (n := piBufLen) he 0 piBufLen [] hl hlt hll
    refine ⟨r, ⟨c, parseTIdx index, 0, 0⟩ ::
      v.map fun p => ⟨c, parseTIdx index, p.1, p.2⟩, ?_, ?_, fun u hu => ?_, ?_⟩
    · rw [← hr]
      simp [Pool.getFromVmem, h.isInit, ht', hc, ht, hn]
    · simp [uses, h.isInit, ht', hc, ht, hn, hv]
    · rcases mem_cons.mp hu with rfl | hu
      · exact hhead
      · obtain ⟨p, hp, rfl⟩ := mem_map.mp hu
        obtain ⟨hp1, hp2⟩ := hin p hp
        exact ⟨ht, hp1, le_trans hp2 (dataLen_le hseg (hb c _) hp1)⟩
    · rw [map_cons, sum_cons, map_map, zero_add]
      exact hsum

/-- A read is safe exactly when the handle does not name segment
`VMEM_SHM_COUNT` of a class. -/
theorem safeRead_iff (h : PoolInv g live pend) (hb : g.Bounded) (index piBufLen : Int) :
    SafeRead g index piBufLen ↔
      ¬ (parseTIdx index = shmCount ∧ (NodeLen.ofLen (parseLen index)).isSome) := by
  cases hc : NodeLen.ofLen (parseLen index) with
  | none =>
    refine iff_of_true ?_ (by simp)
    by_cases ht : shmCount < parseTIdx index
    · refine SafeRead.of_nothing (r := ⟨-1, [], piBufLen⟩) ?_ ?_
      · simp [Pool.getFromVmem, h.isInit, ht]
      · simp [uses, ht]
    · refine SafeRead.of_nothing (r := ⟨-3, [], piBufLen⟩) ?_ ?_
      · simp [Pool.getFromVmem, h.isInit, ht, hc]
      · simp [uses, hc]
  | some c =>
    rcases lt_trichotomy (parseTIdx index) shmCount with ht | ht | ht
    · exact iff_of_true (h.safeRead_of_lt hb piBufLen hc ht) fun hn => by omega
    · refine iff_of_false ?_ (not_not.mpr ⟨ht, rfl⟩)
      rintro ⟨r, us, hr, -⟩
      simp [Pool.getFromVmem, h.isInit, ht, hc] at hr
    · refine iff_of_true (SafeRead.of_nothing (r := ⟨-1, [], piBufLen⟩) ?_ ?_) fun hn => by omega
      · simp [Pool.getFromVmem, h.isInit, ht]
      · simp [uses, ht]

end PoolInv

end DesPwd.L2.Vmem

namespace DesPwd.L5.VmemShared

open Run L2.Vmem

/-! ## Every interleaving -/

theorem Shared.step_bounded {st st' : Shared} {l : Label} (h : st.pool.Bounded)
    (hs : st.step l = some st') : st'.pool.Bounded := by
  cases l with
  | save pdata now =>
    cases hs
    exact h.saveToVmem
  | free k now =>
    unfold Shared.step Shared.free at hs
    dsimp only at hs
    split at hs
    · cases hs
      exact h
    split at hs
    · cases hs
      exact h
    split at hs
    · obtain ⟨⟨g', r⟩, hr, he⟩ := Option.map_eq_some_iff.mp hs
      cases he
      exact h.freeVmem hr
    · cases hs
      exact h
  | freeNode k =>
    cases hs
    unfold Shared.freeNode
    split
    · exact h
    · have h1 := fun c j i => h.setSeg ((h c j).freeNode (i := i) false) (j := j)
      dsimp only
      split <;> exact h1 _ _ _
  | check c j i =>
    unfold Shared.step Shared.check at hs
    dsimp only at hs
    split at hs
    · split at hs
      · cases hs
        exact h
      rename_i s b hc
      split at hs
      · cases hs
      · cases hs
        exact h.setSeg ((h c j).checkNode hc)
    · cases hs
      exact h
  | scan c j i cnt now =>
    obtain ⟨⟨g', r⟩, hr, he⟩ := Option.map_eq_some_iff.mp hs
    cases he
    exact h.scanNodeInner hr
  | take c j now =>
    unfold Shared.step at hs
    dsimp only at hs
    split at hs
    · cases hs
      exact h
    · rename_i s hl
      cases hs
      exact h.setSeg ((h c j).tryLock hl)
  | release c j =>
    cases hs
    exact h.setSeg ((h c j).of_node rfl)

/-- **Reads.** Any interleaving runs without a stuck step, and then a read under
any handle with any buffer length is safe unless the handle names segment
`VMEM_SHM_COUNT`. -/
theorem read_safe_iff (ls : List Label) : ∃ st, run Shared.step ls Shared.initial = some st ∧
      ∀ index piBufLen : Int, SafeRead st.pool index piBufLen ↔
        ¬ (Pool.parseTIdx index = shmCount ∧ (NodeLen.ofLen (Pool.parseLen index)).isSome) := by
  have hstep : ∀ (st : Shared) (l : Label), st.Inv ∧ st.pool.Bounded →
      ∃ st', st.step l = some st' ∧ st'.Inv ∧ st'.pool.Bounded := by
    rintro st l ⟨hi, hb⟩
    obtain ⟨st', hs, hi'⟩ := Shared.step_inv st l hi
    exact ⟨st', hs, hi', Shared.step_bounded hb hs⟩
  obtain ⟨st, hr, hi, hb⟩ := run_inv_total hstep ls
    (s := Shared.initial) ⟨PoolInv.initVmem, Pool.Bounded.initVmem⟩
  exact ⟨st, hr, fun index piBufLen => hi.safeRead_iff hb index piBufLen⟩

/-- Right after `MtReport_InitVmem`, a read under the handle of segment 5,
class 16, node 1 passes the check and goes to a segment that does not exist. -/
theorem read_segment_five : Shared.initial.pool.uses 84934657 100 = some [⟨.n16, shmCount, 0, 0⟩] ∧
      ¬ SafeRead Shared.initial.pool 84934657 100 := by
  have hu : Shared.initial.pool.uses 84934657 100 = some [⟨.n16, shmCount, 0, 0⟩] := by decide
  refine ⟨hu, fun ⟨r, us, _, hus, hin, _⟩ => ?_⟩
  cases hus
  exact absurd (hin _ List.mem_cons_self).1 (lt_irrefl _)

end DesPwd.L5.VmemShared
