import DesPwd.L2Machine.VmemStore

/-!
# The variable-length pool of the server library (`sv_vmem.cpp`)

The servers have their own copy of the pool. Nodes, segments and handles are
those of the agent's (`Vmem`), the rest differs: ten segments per size, a
scan of ten nodes before a save and none when there is no room, the sizes
that hold the value in one node tried first, and no empty node accepted by a
read or a free. A read also stops when its buffer is full.

`wDelayFree` and the counters of `MtReport_Attr_Add` are not modelled: the
pool never reads them.

`Inv g live`: the pool `g` holds exactly the handles `live` with their bytes,
in nodes that are not empty. Saves and frees keep it, so every live handle
reads back its bytes (`sv_store_reads_back`).

The source files are in `lib/mtagent_api_open/`.
-/
namespace DesPwd.L2.SvVmem

open Links Run L2.Vmem List Segment Pool PoolInv

/-- `VMEM_SHM_COUNT`. -/
def shmCount : Nat := 10

/-- `VMEM_16_NODE_COUNT` to `VMEM_255_NODE_COUNT`.
mirrors sv_vmem.h:88-92 -/
def nodeCount : NodeLen → Nat
  | .n16 => 30000
  | .n32 => 30000
  | .n64 => 40000
  | .n128 => 40000
  | .n255 => 10000

/-! ## One segment -/

/-- `SCAN_FREE_NODE`.
mirrors sv_vmem.cpp:118-133 -/
def scanFreeNode (s : Segment) : Segment := s.scanFreeRounds 10

/-- The part of `__SAVE_DATA_TO_VMEM` after the room check.
mirrors sv_vmem.cpp:160-178 -/
def saveInto (len : Nat) (pdata : List UInt8) (s : Segment) : Segment × Nat :=
  let need := needCount len pdata.length
  let s1 := scanFreeNode s
  (((s1.getFreeNode.addUsed need).saveLoop len pdata need 0 s1.wFreeNodeIndex).unlock,
    s1.wFreeNodeIndex)

/-- One segment's turn in `__SAVE_DATA_TO_VMEM`: the first node, or `none`
for `continue`.
mirrors sv_vmem.cpp:150-181 -/
def save (len : Nat) (pdata : List UInt8) (now : Nat) (s : Segment) : Segment × Option Nat :=
  match s.tryLock now with
  | none => (s, none)
  | some s =>
    if s.wNodeCount < s.wNodeUsed + needCount len pdata.length then (s.unlock, none)
    else ((saveInto len pdata s).1, some (saveInto len pdata s).2)

/-- The loop of `VMEM_GET_DATA`; `out` holds the bytes copied to `pbuf`.
mirrors sv_vmem.cpp:296-308 -/
def getLoop (s : Segment) (piBufLen : Int) :
    Nat → Nat → Int → Nat → List UInt8 → Option Segment.GetRes
  | 0, _, _, _, _ => none
  | fuel + 1, nIdx, iBufLen, iDataLen, out =>
    if iBufLen < s.dataLen nIdx then some ⟨-4, out, piBufLen⟩
    else if s.dataLen nIdx = 0 then some ⟨-5, out, piBufLen⟩
    else
      let out := out ++ (s.node nIdx).sDataBuf.take (s.dataLen nIdx)
      let iDataLen := iDataLen + s.dataLen nIdx
      let iBufLen := iBufLen - s.dataLen nIdx
      if s.next nIdx < s.wNodeCount ∧ 0 < iBufLen then
        getLoop s piBufLen fuel (s.next nIdx) iBufLen iDataLen out
      else some ⟨0, out, iDataLen⟩

/-- The loop of `VMEM_FREE_NODE`: it ends at an empty node.
mirrors sv_vmem.cpp:460-480 -/
def freeLoop (got : Bool) : Nat → Nat → Segment → Option Segment
  | 0, _, _ => none
  | fuel + 1, nIdx, s =>
    let iNextSave := s.next nIdx
    if s.dataLen nIdx = 0 then some s
    else
      let s := s.freeNode got nIdx
      if iNextSave < s.wNodeCount then freeLoop got fuel iNextSave s else some s

/-! ## The pool -/

/-- `g_mtReportVmem`. -/
structure VmemBuf where
  cIsInit : Bool
  seg : NodeLen → Nat → Segment

namespace VmemBuf

def setSeg (g : VmemBuf) (c : NodeLen) (j : Nat) (s : Segment) : VmemBuf :=
  { g with seg := Function.update g.seg c (Function.update (g.seg c) j s) }

/-- The pool after `MtReport_InitVmem_ByFlag` on freshly created shared
memory.
mirrors sv_vmem.cpp:57-102 -/
def initVmem : VmemBuf where
  cIsInit := true
  seg := fun c _ => (zero c.len).createInit (nodeCount c)

/-- `_SaveToVmem16` to `_SaveToVmem255`: the segments from `i` on, `n` of
them.
mirrors sv_vmem.cpp:149-184 -/
def saveClassFrom (c : NodeLen) (pdata : List UInt8) (now : Nat) :
    Nat → Nat → VmemBuf → VmemBuf × Int
  | 0, _, g => (g, -1)
  | n + 1, i, g =>
    match save c.len pdata now (g.seg c i) with
    | (s, some first) => (g.setSeg c i s, makeIdx32 c.len i first)
    | (s, none) => saveClassFrom c pdata now n (i + 1) (g.setSeg c i s)

/-- The sizes in the order `MtReport_SaveToVmem` tries them: first those that
hold the data in one node, 32 twice, then from large to small those that it
fills.
mirrors sv_vmem.cpp:211-253 -/
def saveOrder (iDataLen : Nat) : List NodeLen :=
  [.n16, .n32, .n32, .n64, .n128, .n255].filter (fun c => iDataLen ≤ c.len) ++
    [.n255, .n128, .n64, .n32, .n16].filter (fun c => c.len ≤ iDataLen)

/-- Try the sizes in order until one returns a handle. -/
def saveTry (pdata : List UInt8) (now : Nat) : List NodeLen → VmemBuf → Int → VmemBuf × Int
  | [], g, ret => (g, ret)
  | c :: cs, g, _ =>
    match saveClassFrom c pdata now shmCount 0 g with
    | (g, ret) => if ret < 0 then saveTry pdata now cs g ret else (g, ret)

/-- `MtReport_SaveToVmem`.
mirrors sv_vmem.cpp:195-265 -/
def saveToVmem (g : VmemBuf) (pdata : List UInt8) (now : Nat) : VmemBuf × Int :=
  if !g.cIsInit then (g, -101)
  else if pdata.length = 0 ∨ maxDataLen < pdata.length then (g, -1)
  else saveTry pdata now (saveOrder pdata.length) g (-1)

/-- `MtReport_GetFromVmem`.
mirrors sv_vmem.cpp:273-334 -/
def getFromVmem (g : VmemBuf) (index : Int) (piBufLen : Int) : Option Segment.GetRes :=
  if !g.cIsInit ∨ index ≤ 0 then some ⟨-101, [], piBufLen⟩
  else if shmCount ≤ parseTIdx index then some ⟨-1, [], piBufLen⟩
  else
    match NodeLen.ofLen (parseLen index) with
    | none => some ⟨-3, [], piBufLen⟩
    | some c =>
      let s := g.seg c (parseTIdx index)
      if s.wNodeCount ≤ parseNIdx index then some ⟨-2, [], piBufLen⟩
      else getLoop s piBufLen s.wNodeCount (parseNIdx index) piBufLen 0 []

/-- `MtReport_FreeVmem`.
mirrors sv_vmem.cpp:431-506 -/
def freeVmem (g : VmemBuf) (index : Int) (now : Nat) : Option (VmemBuf × Int) :=
  if !g.cIsInit ∨ index ≤ 0 then some (g, -101)
  else if shmCount ≤ parseTIdx index then some (g, -1)
  else
    match NodeLen.ofLen (parseLen index) with
    | none => some (g, -3)
    | some c =>
      let s := g.seg c (parseTIdx index)
      if s.wNodeCount ≤ parseNIdx index then some (g, -2)
      else
        match s.tryLock now with
        | some s1 => (freeLoop true s1.wNodeCount (parseNIdx index) s1).map fun s' =>
            (g.setSeg c (parseTIdx index) s'.unlock, 0)
        | none => (freeLoop false s.wNodeCount (parseNIdx index) s).map fun s' =>
            (g.setSeg c (parseTIdx index) s', 0)

end VmemBuf

/-! ## The invariant of a segment -/

/-- A segment in order whose chains `es` have no empty node. -/
structure SvSeg (s : Segment) (fl : List Nat) (es : List Entry) (ms : List Nat) : Prop where
  inv : SegInv s fl es ms
  filled : s.Filled (es.flatMap Entry.chain)

namespace SvSeg

variable {s : Segment} {fl ms : List Nat} {es : List Entry} {i : Nat} {s' : Segment}

section

variable (h : SvSeg s fl es ms)
include h

/-- Only the lengths of the nodes in a chain matter besides the order. -/
theorem of_inv {fl' ms' : List Nat} (hi : SegInv s' fl' es ms')
    (hn : ∀ i ∈ es.flatMap Entry.chain, (s'.node i).bDataLen = (s.node i).bDataLen) :
    SvSeg s' fl' es ms' :=
  ⟨hi, h.filled.congr hn⟩

theorem unlock : SvSeg s.unlock fl es ms :=
  h.of_inv h.inv.unlock fun _ _ => rfl

theorem tryLock {now : Nat} (hl : s.tryLock now = some s') : SvSeg s' fl es ms := by
  refine h.of_inv (h.inv.tryLock hl) fun i _ => ?_
  unfold Segment.tryLock at hl
  split at hl
  · cases hl; rfl
  · cases hl

theorem perm_es {es' : List Entry} (hp : es.Perm es') : SvSeg s fl es' ms :=
  ⟨h.inv.perm_es hp, fun i hi => h.filled i ((hp.flatMap_right Entry.chain).mem_iff.mpr hi)⟩

end

/-! ### Scan -/

theorem reclaim_bDataLen (j : Nat) : ((s.reclaim i).node j).bDataLen = (s.node j).bDataLen := by
  unfold reclaim setNext
  split
  · rfl
  · by_cases hj : j = i
    · subst hj; simp
    · simp [Function.update_of_ne hj]

theorem scanFreeStep_bDataLen (s : Segment) (j : Nat) :
    (s.scanFreeStep.node j).bDataLen = (s.node j).bDataLen := by
  unfold scanFreeStep
  dsimp only
  generalize (if s.wNodeCount ≤ s.wScanFreeIndex then 1 else s.wScanFreeIndex) = k
  by_cases hk : s.next k = s.wNodeCount + 1
  · rw [if_pos hk]; exact reclaim_bDataLen j
  · rw [if_neg hk]

theorem scanFreeRounds_bDataLen (j : Nat) :
    ∀ iScan (s : Segment), ((s.scanFreeRounds iScan).node j).bDataLen = (s.node j).bDataLen
  | 0, _ => rfl
  | iScan + 1, s => by
    rw [scanFreeRounds, scanFreeRounds_bDataLen j iScan, scanFreeStep_bDataLen]

theorem scanFreeNode (h : SvSeg s fl es ms) :
    ∃ fl' ms', SvSeg (scanFreeNode s) fl' es ms' ∧ fl.length ≤ fl'.length := by
  obtain ⟨fl', ms', h', hl⟩ := h.inv.scanFreeRounds 10
  exact ⟨fl', ms', h.of_inv h' fun i _ => scanFreeRounds_bDataLen i 10 s, hl⟩

/-! ### Save -/

theorem saveInto {c : NodeLen} {pdata : List UInt8} (h : SvSeg s fl es ms)
    (hn : pdata.length ≠ 0) (hmax : pdata.length ≤ maxDataLen)
    (hroom : needCount c.len pdata.length ≤ fl.length) :
    ∃ fl' ms' l, SvSeg (saveInto c.len pdata s).1 fl'
      (⟨(saveInto c.len pdata s).2, (saveInto c.len pdata s).2 :: l, some pdata⟩ :: es) ms' := by
  obtain ⟨fl1, ms1, h1, hl1⟩ := h.scanFreeNode
  unfold SvVmem.saveInto
  generalize SvVmem.scanFreeNode s = s1 at h1
  obtain ⟨fl', l, h', hout, hfill⟩ := h1.inv.saveChain hn hmax (le_trans hroom hl1) rfl
  refine ⟨fl', ms1, l, SvSeg.unlock ⟨h', fun i hi => ?_⟩⟩
  -- a node of an old chain is none of the new one
  have hnd := h'.nodup
  rcases mem_append.mp hi with hi | hi
  · exact hfill i hi
  · have hi' : i ∉ s1.wFreeNodeIndex :: l := fun hm =>
      (nodup_append.mp (nodup_append.mp (nodup_append.mp hnd).2.1).1).2.2 i hm i hi rfl
    rw [hout i hi']
    exact h1.filled i hi

/-- **Save.** A segment's turn either passes or adds one entry with the
data. -/
theorem save {c : NodeLen} {pdata : List UInt8} {now : Nat} {r : Option Nat}
    (h : SvSeg s fl es ms) (hn : pdata.length ≠ 0) (hmax : pdata.length ≤ maxDataLen)
    (hs : save c.len pdata now s = (s', r)) :
    (r = none ∧ ∃ fl' ms', SvSeg s' fl' es ms') ∨
      ∃ a l fl' ms', r = some a ∧ SvSeg s' fl' (⟨a, a :: l, some pdata⟩ :: es) ms' := by
  unfold SvVmem.save at hs
  split at hs
  · cases hs; exact .inl ⟨rfl, fl, ms, h⟩
  rename_i s0 hlock
  have h0 := h.tryLock hlock
  split at hs
  · obtain ⟨rfl, rfl⟩ := Prod.mk.inj hs
    exact .inl ⟨rfl, fl, ms, h0.unlock⟩
  obtain ⟨rfl, rfl⟩ := Prod.mk.inj hs
  have hlen := h0.inv.length
  obtain ⟨fl', ms', l, h'⟩ := h0.saveInto hn hmax (c := c) (by omega)
  exact .inr ⟨_, l, fl', ms', rfl, h'⟩

/-! ### Get -/

/-- **Get.** A long enough buffer receives the bytes of the rest of the
chain: it is not full before the last node, as no node is empty. -/
theorem getLoop {n : Int} :
    ∀ {c} {i fuel} {iBufLen} {iDataLen} {out d},
      Linked s.next s.wNodeCount i (i :: c) → (∀ j ∈ i :: c, j ≠ 0 ∧ j < s.wNodeCount) →
      s.Holds (i :: c) d → s.Filled (i :: c) → c.length < fuel → (d.length : Int) ≤ iBufLen →
      getLoop s n fuel i iBufLen iDataLen out = some ⟨0, out ++ d, (iDataLen + d.length : Nat)⟩
  | c, i, 0, _, _, _, _, _, _, _, _, hf, _ => by omega
  | c, i, fuel + 1, iBufLen, iDataLen, out, d, hl, hb, hd, hfl, hf, hr => by
    have hi := (hb i mem_cons_self).1
    obtain ⟨d', hd', hdd, hlen⟩ := hd.uncons
    rw [SvVmem.getLoop, dataLen_of_ne hi, if_neg (by omega),
      if_neg (hfl i mem_cons_self)]
    cases c with
    | nil =>
      have hstop : s.next i = s.wNodeCount := hl.2
      have hnil : d' = [] := hd'.bytes.symm
      rw [hstop, if_neg (fun h => absurd h.1 (lt_irrefl _))]
      subst hnil
      rw [append_nil] at hdd
      rw [hdd, ← hlen, length_nil, add_zero]
    | cons k c =>
      have hk : s.next i = k := hl.2.1
      have hroom : d'.length ≠ 0 := by
        obtain ⟨_, -, -, hlen'⟩ := hd'.uncons
        have hne := hfl k (by simp)
        omega
      rw [hk, if_pos ⟨(hb k (by simp)).2, by omega⟩]
      rw [getLoop (c := c) (d := d') ⟨rfl, hl.2.2⟩ (fun j hj => hb j (mem_cons_of_mem _ hj)) hd'
        (fun j hj => hfl j (mem_cons_of_mem _ hj)) (by simpa using hf) (by omega),
        append_assoc, hdd, add_assoc, hlen]

/-! ### Free -/

theorem freeNode_bDataLen (got : Bool) {j : Nat} (hi : i ≠ 0) (hj : j ≠ i) :
    ((s.freeNode got i).node j).bDataLen = (s.node j).bDataLen := by
  cases got <;>
    simp [freeNode, reclaim, setNext_of_ne hi, setDataLen_of_ne hi, Function.update_of_ne hj]

/-- The rest of a chain whose first node was freed. -/
theorem freeNode {c : List Nat} {d : Option (List UInt8)} (got : Bool)
    (h : SvSeg s fl (⟨i, i :: c, d⟩ :: es) ms) :
    ∃ fl' ms', SvSeg (s.freeNode got i) fl' (Entry.rest (s.next i) c es) ms' := by
  have hb := h.inv.bounds (i := i) (by simp)
  obtain ⟨fl', ms', h', -⟩ := h.inv.freeNode_any got
  refine ⟨fl', ms', h', fun j hj => ?_⟩
  rw [Entry.flatMap_rest] at hj
  have hnd := h.inv.nodup
  have hnd := (nodup_append.mp (nodup_append.mp hnd).2.1).1
  have hji : j ≠ i := by
    rintro rfl
    exact (nodup_cons.mp hnd).1 hj
  rw [freeNode_bDataLen got hb.1 hji]
  exact h.filled j (by exact mem_cons_of_mem _ hj)

/-- **Free.** The loop returns, and all entries but the freed one stay. -/
theorem freeLoop (got : Bool) :
    ∀ {c} {i fuel} {s} {fl ms} {d},
      SvSeg s fl (⟨i, i :: c, d⟩ :: es) ms → c.length < fuel →
      ∃ s' fl' ms', freeLoop got fuel i s = some s' ∧ SvSeg s' fl' es ms'
  | c, i, 0, _, _, _, _, _, hf => by omega
  | c, i, fuel + 1, s, fl, ms, d, h, hf => by
    have hb := h.inv.bounds (i := i) (by simp)
    have hne : s.dataLen i ≠ 0 := by
      rw [dataLen_of_ne hb.1]
      exact h.filled i (by simp)
    obtain ⟨fl', ms', h'⟩ := h.freeNode got
    have hN := SegInv.freeNode_wNodeCount (s := s) got hb.1
    have hlink := (h.inv.entry _ mem_cons_self).linked.2
    rw [SvVmem.freeLoop, if_neg hne]
    dsimp only
    rw [hN]
    cases c with
    | nil =>
      have hstop : s.next i = s.wNodeCount := hlink
      rw [hstop, if_neg (lt_irrefl _)]
      exact ⟨_, _, _, rfl, h'⟩
    | cons k c =>
      have hk : s.next i = k := hlink.1
      have hkb := h.inv.bounds (i := k) (by simp)
      rw [hk] at h' ⊢
      rw [if_pos hkb.2]
      exact freeLoop got h' (by simpa using hf)

end SvSeg

/-! ## The invariant of the pool -/

structure Inv (g : VmemBuf) (live : List (Int × List UInt8)) : Prop
    extends SegsHold SvSeg shmCount g.seg live [] where
  isInit : g.cIsInit = true
  pos : ∀ p ∈ live, 0 < p.1

namespace Inv

variable {g : VmemBuf} {live live' : List (Int × List UInt8)}

theorem perm (h : Inv g live) (hl : live.Perm live') : Inv g live' :=
  ⟨h.toSegsHold.perm hl (.refl _), h.isInit, fun p hm => h.pos p (hl.mem_iff.mpr hm)⟩

/-! ### Save -/

/-- What a call that may save leaves: a negative code and the same chains, or
a handle that is now live. -/
def Saved (live : List (Int × List UInt8)) (pdata : List UInt8) (r : VmemBuf × Int) : Prop :=
  (r.2 < 0 ∧ Inv r.1 live) ∨ (0 < r.2 ∧ Inv r.1 ((r.2, pdata) :: live))

theorem saveClassFrom (c : NodeLen) {pdata : List UInt8} (now : Nat) (hn : pdata.length ≠ 0)
    (hmax : pdata.length ≤ maxDataLen) :
    ∀ {n i} {g}, Inv g live → i + n = shmCount →
      Saved live pdata (VmemBuf.saveClassFrom c pdata now n i g)
  | 0, _, _, h, _ => .inl ⟨by simp [VmemBuf.saveClassFrom], h⟩
  | n + 1, i, g, h, hi => by
    obtain ⟨fl, es, ms, hseg, hr⟩ := h.seg c i (by omega)
    unfold VmemBuf.saveClassFrom
    split
    · rename_i s a hs
      -- the segment took the value: the handle names its new chain
      rcases hseg.save hn hmax hs with ⟨hnone, _⟩ | ⟨a', l, fl', ms', ha, h'⟩
      · cases hnone
      cases ha
      have hb := h'.inv.bounds (i := a) (by simp)
      have hsz := h'.inv.size
      have hi10 : i < 256 := by unfold shmCount at hi; omega
      have hpos : 0 < makeIdx32 c.len i a := by
        have hlen : 0 < c.len ∧ c.len < 256 := by cases c <;> decide
        rw [makeIdx32_eq hlen.2 (by omega)]
        omega
      refine .inr ⟨Int.natCast_pos.mpr hpos,
        h.toSegsHold.save (by omega) hi10 (by omega) h' hr, h.isInit, fun p hp => ?_⟩
      rcases mem_cons.mp hp with rfl | hp'
      · exact Int.natCast_pos.mpr hpos
      · exact h.pos p hp'
    · rename_i s hs
      rcases hseg.save hn hmax hs with ⟨_, fl', ms', h'⟩ | ⟨a', l, fl', ms', ha, _⟩
      · have hkept := h.setSeg h.handle h.cursor (c := c) (j := i)
          (fun _ => ⟨fl', es, ms', h', hr⟩) fun _ _ _ => rfl
        exact saveClassFrom c now hn hmax ⟨hkept, h.isInit, h.pos⟩ (by omega)
      · cases ha

theorem saveTry {pdata : List UInt8} {now : Nat} (hn : pdata.length ≠ 0)
    (hmax : pdata.length ≤ maxDataLen) :
    ∀ {cs} {g} {ret}, Inv g live → ret < 0 →
      Saved live pdata (VmemBuf.saveTry pdata now cs g ret)
  | [], _, _, h, hr => .inl ⟨hr, h⟩
  | c :: cs, g, _, h, _ => by
    unfold VmemBuf.saveTry
    have h1 := saveClassFrom c now hn hmax (n := shmCount) (i := 0) h (by simp)
    dsimp only
    split
    · rename_i hneg
      rcases h1 with ⟨_, h1⟩ | ⟨h0, _⟩
      · exact saveTry hn hmax h1 hneg
      · omega
    · exact h1

/-- **Save.** -/
theorem saveToVmem (h : Inv g live) (pdata : List UInt8) (now : Nat) :
    Saved live pdata (g.saveToVmem pdata now) := by
  unfold VmemBuf.saveToVmem
  split
  · exact .inl ⟨by simp, h⟩
  split
  · exact .inl ⟨by simp, h⟩
  · rename_i hlen
    rw [not_or, not_lt] at hlen
    exact saveTry hlen.1 hlen.2 h (by decide)

/-! ### Get and free -/

variable {p : Int × List UInt8}

/-- **Get.** -/
theorem getFromVmem {n : Int} (h : Inv g live) (hp : p ∈ live) (hn : (p.2.length : Int) ≤ n) :
    g.getFromVmem p.1 n = some ⟨0, p.2, p.2.length⟩ := by
  have hpos := h.pos p hp
  obtain ⟨c, j, hj, hin⟩ := h.handle p hp
  obtain ⟨fl, l, es, ms, hseg, _⟩ := (h.perm (perm_cons_erase hp)).live_entry SvSeg.inv
    SvSeg.perm_es hj hin
  have hok := hseg.inv.entry _ mem_cons_self
  have hb : ∀ i ∈ parseNIdx p.1 :: l, i ≠ 0 ∧ i < (g.seg c j).wNodeCount := fun i hi =>
    hseg.inv.bounds (mem_append_right _ (mem_append_left _ (SegInv.mem_chain mem_cons_self hi)))
  have hget : getLoop (g.seg c j) n (g.seg c j).wNodeCount (parseNIdx p.1) n 0 [] =
      some ⟨0, [] ++ p.2, (0 + p.2.length : Nat)⟩ :=
    SvSeg.getLoop hok.linked hb (hok.data _ rfl) (fun i hi => hseg.filled i (SegInv.mem_chain mem_cons_self hi))
      (chain_lt hseg.inv) hn
  have hj' : ¬ shmCount ≤ j := by omega
  have hpos' : ¬ p.1 ≤ 0 := by omega
  simp [VmemBuf.getFromVmem, h.isInit, hpos', hin.1, hin.2, hj', (hb _ mem_cons_self).2, hget]

/-- **Free.** Freeing a live handle returns 0 and takes exactly its value
out of the store. -/
theorem freeVmem (h : Inv g (p :: live)) (now : Nat) :
    ∃ g', g.freeVmem p.1 now = some (g', 0) ∧ Inv g' live := by
  have hpos := h.pos p mem_cons_self
  obtain ⟨c, j, hj, hin⟩ := h.handle p mem_cons_self
  obtain ⟨fl, l, es, ms, hseg, hperm⟩ := h.live_entry SvSeg.inv SvSeg.perm_es hj hin
  have hb := hseg.inv.bounds (i := parseNIdx p.1) (by simp)
  have hj' : ¬ shmCount ≤ j := by omega
  have hpos' : ¬ p.1 ≤ 0 := by omega
  have hdrop : ∀ {s}, SegHolds SvSeg s (roots live [] c j) → Inv (g.setSeg c j s) live :=
    fun hs => ⟨h.drop_live hin hs, h.isInit, fun q hq => h.pos q (mem_cons_of_mem _ hq)⟩
  cases hlock : (g.seg c j).tryLock now with
  | some s1 =>
    have hseg1 := hseg.tryLock hlock
    obtain ⟨s', fl', ms', hr, h'⟩ := hseg1.freeLoop true (chain_lt hseg1.inv)
    refine ⟨g.setSeg c j s'.unlock, ?_, hdrop ⟨fl', es, ms', h'.unlock, hperm⟩⟩
    simp [VmemBuf.freeVmem, h.isInit, hpos', hin.1, hin.2, hj', hb.2, hlock, hr]
  | none =>
    obtain ⟨s', fl', ms', hr, h'⟩ := hseg.freeLoop false (chain_lt hseg.inv)
    refine ⟨g.setSeg c j s', ?_, hdrop ⟨fl', es, ms', h', hperm⟩⟩
    simp [VmemBuf.freeVmem, h.isInit, hpos', hin.1, hin.2, hj', hb.2, hlock, hr]

theorem initVmem : Inv VmemBuf.initVmem [] where
  isInit := rfl
  pos p hp := by cases hp
  handle p hp := by cases hp
  cursor p hp := by cases hp
  seg c j _ := ⟨_, [], [], ⟨createInit (by cases c <;> decide) (by cases c <;> decide),
    fun i hi => by cases hi⟩, List.Perm.refl _⟩

end Inv

/-! ## The store -/

/-- The pool, and the handles in use with the bytes saved under them. -/
structure Store where
  pool : VmemBuf
  live : List (Int × List UInt8)

/-- A call of the library; `now` is the time it reads. -/
inductive Op where
  | save (pdata : List UInt8) (now : Nat)
  | free (index : Int) (now : Nat)
  deriving DecidableEq

namespace Store

/-- A save; the handle it returns is live. -/
def save (st : Store) (pdata : List UInt8) (now : Nat) : Store × Int :=
  let r := st.pool.saveToVmem pdata now
  (⟨r.1, if 0 ≤ r.2 then (r.2, pdata) :: st.live else st.live⟩, r.2)

/-- One call. A free ends the life of its handle. -/
def exec (st : Store) : Op → Option Store
  | .save pdata now => some (st.save pdata now).1
  | .free index now =>
    (st.pool.freeVmem index now).map fun r => ⟨r.1, st.live.eraseP (fun p => p.1 == index)⟩

/-- Only live handles are freed. -/
def Legal (st : Store) (op : Op) : Prop :=
  ∀ index now, op = .free index now → ∃ d, (index, d) ∈ st.live

def initial : Store := ⟨VmemBuf.initVmem, []⟩

theorem mem_live_save (st : Store) (pdata : List UInt8) (now : Nat)
    (h : 0 ≤ (st.save pdata now).2) :
    ((st.save pdata now).2, pdata) ∈ (st.save pdata now).1.live := by
  unfold save at h ⊢
  dsimp only
  rw [if_pos h]
  exact mem_cons_self

theorem save_inv {st : Store} (h : Inv st.pool st.live) (pdata : List UInt8) (now : Nat) :
    Inv (st.save pdata now).1.pool (st.save pdata now).1.live := by
  unfold save
  dsimp only
  rcases h.saveToVmem pdata now with ⟨hneg, h'⟩ | ⟨hpos, h'⟩
  · rw [if_neg (Int.not_le.mpr hneg)]; exact h'
  · rw [if_pos (Int.le_of_lt hpos)]; exact h'

theorem exec_inv (st : Store) (op : Op) (h : Inv st.pool st.live) (hlegal : st.Legal op) :
    ∃ st', st.exec op = some st' ∧ Inv st'.pool st'.live := by
  cases op with
  | save pdata now => exact ⟨_, rfl, save_inv h pdata now⟩
  | free index now =>
    obtain ⟨d, hd⟩ := hlegal index now rfl
    obtain ⟨p, l1, l2, _, hp, hl, he⟩ :=
      exists_of_eraseP (p := fun p => p.1 == index) hd (by simp)
    obtain rfl : p.1 = index := by simpa using hp
    have h0 : Inv st.pool (p :: (l1 ++ l2)) := h.perm (by rw [hl]; exact perm_middle)
    obtain ⟨g', hr, h'⟩ := h0.freeVmem now
    exact ⟨⟨g', st.live.eraseP fun q => q.1 == p.1⟩, by simp [exec, hr], by rw [he]; exact h'⟩

theorem mem_live_exec {st st' : Store} {op : Op} {p : Int × List UInt8} (hp : p ∈ st.live)
    (h : st.exec op = some st') (hop : ∀ now, op ≠ .free p.1 now) : p ∈ st'.live := by
  cases op with
  | save pdata now =>
    obtain rfl := Option.some.inj h
    unfold save
    dsimp only
    split
    · exact mem_cons_of_mem _ hp
    · exact hp
  | free index now =>
    obtain ⟨r, _, rfl⟩ := Option.map_eq_some_iff.mp h
    refine (mem_eraseP_of_neg ?_).mpr hp
    intro heq
    exact hop now (by rw [beq_iff_eq.mp heq])

/-- **The store.** After any legal calls that do not free it, a handle reads
back the bytes saved under it. -/
theorem read_back {p : Int × List UInt8} {n : Int} (hn : (p.2.length : Int) ≤ n) :
    ∀ {ops} {st st'}, Inv st.pool st.live → p ∈ st.live →
      Meets exec Legal ops st → (∀ now, .free p.1 now ∉ ops) → run exec ops st = some st' →
      st'.pool.getFromVmem p.1 n = some ⟨0, p.2, p.2.length⟩
  | [], st, st', h, hp, _, _, hr => by
    obtain rfl := Option.some.inj hr
    exact h.getFromVmem hp hn
  | op :: ops, st, st', h, hp, hm, hop, hr => by
    obtain ⟨st1, h1, hi1⟩ := exec_inv st op h hm.1
    have hp1 := mem_live_exec hp h1 fun now heq => hop now (heq ▸ mem_cons_self)
    rw [run, h1] at hr
    exact read_back hn hi1 hp1 (hm.2 st1 h1) (fun now hmem => hop now (mem_cons_of_mem _ hmem)) hr

/-- **The server's store.** Every sequence of calls that frees only live handles runs to its
end, and then every live handle is positive and reads back the bytes saved under it. -/
theorem sv_store_reads_back (ops : List Op) (h : Meets exec Legal ops initial) :
    ∃ st, run exec ops initial = some st ∧ ∀ p ∈ st.live, 0 < p.1 ∧
      ∀ n : Int, (p.2.length : Int) ≤ n →
        st.pool.getFromVmem p.1 n = some ⟨0, p.2, p.2.length⟩ := by
  obtain ⟨st, hr, hi⟩ := run_inv exec_inv Inv.initVmem h
  exact ⟨st, hr, fun p hp => ⟨hi.pos p hp, fun n hn => hi.getFromVmem hp hn⟩⟩

/-- A value of two nodes. -/
def twoNodes : List UInt8 := replicate 300 7

theorem sv_store_reads_back_after_free : ∃ st,
    run exec [.save twoNodes 5, .save [9] 6, .free 1048577 7] initial = some st ∧
      st.live = [(16711681, twoNodes)] ∧
      st.pool.getFromVmem 16711681 300 = some ⟨0, twoNodes, twoNodes.length⟩ := by
  have hsaved : ((initial.exec (.save twoNodes 5)).bind (·.exec (.save [9] 6))).map Store.live =
      some [(1048577, [9]), (16711681, twoNodes)] := by
    decide +kernel
  have hfreed : (run exec [.save twoNodes 5, .save [9] 6, .free 1048577 7] initial).map Store.live =
      some [(16711681, twoNodes)] := by
    decide +kernel
  obtain ⟨st, hr, h⟩ := sv_store_reads_back [.save twoNodes 5, .save [9] 6, .free 1048577 7]
    ⟨by rintro _ _ ⟨⟩, fun st1 h1 => ⟨by rintro _ _ ⟨⟩, fun st2 h2 => ⟨by
      rintro _ _ ⟨⟩
      rw [h1, Option.bind_some, h2] at hsaved
      exact ⟨[9], by rw [Option.some.inj hsaved]; exact mem_cons_self⟩, fun _ _ => trivial⟩⟩⟩
  rw [hr] at hfreed
  have hlive : st.live = [(16711681, twoNodes)] := Option.some.inj hfreed
  exact ⟨st, hr, hlive, (h _ (hlive ▸ mem_singleton_self _)).2 300 (by decide +kernel)⟩

end Store

end DesPwd.L2.SvVmem
