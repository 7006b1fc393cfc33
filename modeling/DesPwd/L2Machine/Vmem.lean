import DesPwd.Core.Links

/-!
# The variable-length pool of the agent library (`mt_vmem.c`)

Data of 1 to `VMEM_MAX_DATA_LEN` bytes is cut into nodes of one of five
sizes (`NodeLen`). Each size has `VMEM_SHM_COUNT` segments, and each segment
is an array of nodes: node 0 is the segment's head (`VmemBufNodeFirst`), the
others are linked by `wNextNodeIndex`, either in the segment's free list or
in the chain of one saved value. `wNodeCount` ends a list; `wNodeCount + 1`
marks a node whose free was deferred because the segment was locked.

The head is laid over node 0, so `pNode[0].wNextNodeIndex` is `wNodeCount`
and `pNode[0].bDataLen` is the low byte of `wNodeUsed` (`Segment.next`,
`Segment.dataLen`). The data bytes of node 0 are not modelled: no list holds
node 0.

`none` as the result of a call means that it does not return: the
`COMM_LIB_BUG` assertion fails, a list does not end, or a segment outside
the arrays is used.

The source files are in `language/c_cpp/`.
-/
namespace DesPwd.L2.Vmem

/-- The node sizes: `VmemBufNode16` to `VmemBufNode255`. -/
inductive NodeLen where
  | n16 | n32 | n64 | n128 | n255
  deriving DecidableEq, Repr

/-- Bytes of `sDataBuf`. -/
def NodeLen.len : NodeLen → Nat
  | .n16 => 16
  | .n32 => 32
  | .n64 => 64
  | .n128 => 128
  | .n255 => 255

/-- The `switch(len)` of the handle functions. -/
def NodeLen.ofLen (n : Nat) : Option NodeLen :=
  if n = 16 then some .n16
  else if n = 32 then some .n32
  else if n = 64 then some .n64
  else if n = 128 then some .n128
  else if n = 255 then some .n255
  else none

/-- `VMEM_16_NODE_COUNT` to `VMEM_255_NODE_COUNT`.
mirrors mt_vmem.h:83-88 -/
def NodeLen.nodeCount : NodeLen → Nat
  | .n16 => 20000
  | .n32 => 20000
  | .n64 => 60000
  | .n128 => 20000
  | .n255 => 15000

/-- `VMEM_SHM_COUNT`. -/
def shmCount : Nat := 5

/-- `VMEM_MAX_DATA_LEN`. -/
def maxDataLen : Nat := 65000

/-- mirrors mt_vmem.h:104-137 -/
structure VmemBufNode where
  wNextNodeIndex : Nat
  bDataLen : Nat
  sDataBuf : List UInt8
  deriving DecidableEq, Repr

/-- A segment: the fields of `VmemBufNodeFirst` and the node array.
mirrors mt_vmem.h:93-102 -/
structure Segment where
  wNodeCount : Nat
  wNodeUsed : Nat
  wFreeNodeIndex : Nat
  bUseFlag : Bool
  wScanFreeIndex : Nat
  dwUseFlagStartTime : Nat
  node : Nat → VmemBufNode

namespace Segment

/-- `pNode[i].wNextNodeIndex`. -/
def next (s : Segment) (i : Nat) : Nat :=
  if i = 0 then s.wNodeCount else (s.node i).wNextNodeIndex

/-- `pNode[i].bDataLen`. -/
def dataLen (s : Segment) (i : Nat) : Nat :=
  if i = 0 then s.wNodeUsed % 256 else (s.node i).bDataLen

/-- `pNode[i].wNextNodeIndex = v`. -/
def setNext (s : Segment) (i v : Nat) : Segment :=
  if i = 0 then { s with wNodeCount := v }
  else { s with node := Function.update s.node i { s.node i with wNextNodeIndex := v } }

/-- `pNode[i].bDataLen = v`. -/
def setDataLen (s : Segment) (i v : Nat) : Segment :=
  if i = 0 then { s with wNodeUsed := s.wNodeUsed / 256 * 256 + v % 256 }
  else { s with node := Function.update s.node i { s.node i with bDataLen := v % 256 } }

/-- `memcpy(pNode[i].sDataBuf, src, n)`. -/
def memcpy (s : Segment) (i : Nat) (src : List UInt8) : Segment :=
  let nd := { s.node i with sDataBuf := src ++ (s.node i).sDataBuf.drop src.length }
  { s with node := Function.update s.node i nd }

/-! ## Locking -/

/-- mirrors mt_vmem.c:51-56 -/
def flagIsTimeout (s : Segment) (now : Nat) : Bool :=
  decide ((s.dwUseFlagStartTime + 2) % 2 ^ 32 < now)

/-- `VARMEM_CAS_GET(&bUseFlag) || _MtReport_Flag_IsTimeout`, and the start
time a successful caller writes. -/
def tryLock (s : Segment) (now : Nat) : Option Segment :=
  if !s.bUseFlag || s.flagIsTimeout now then
    some { s with bUseFlag := true, dwUseFlagStartTime := now % 2 ^ 32 }
  else none

/-- `VARMEM_CAS_FREE(bUseFlag)`. -/
def unlock (s : Segment) : Segment := { s with bUseFlag := false }

/-! ## Free list -/

/-- `n - 1` of a 16-bit counter. -/
def dec16 (n : Nat) : Nat := if n = 0 then 65535 else n - 1

/-- Put node `i` in front of the free list and count it as unused. -/
def reclaim (s : Segment) (i : Nat) : Segment :=
  { s.setNext i s.wFreeNodeIndex with
    wFreeNodeIndex := i, wNodeUsed := dec16 s.wNodeUsed }

/-- One round of `SCAN_FREE_NODE`.
mirrors mt_vmem.c:105-112 -/
def scanFreeStep (s : Segment) : Segment :=
  let k := if s.wNodeCount ≤ s.wScanFreeIndex then 1 else s.wScanFreeIndex
  let s1 := if s.next k = s.wNodeCount + 1 then s.reclaim k else s
  { s1 with wScanFreeIndex := (k + 1) % 65536 }

/-- `iScan` rounds of `SCAN_FREE_NODE`. -/
def scanFreeRounds : Nat → Segment → Segment
  | 0, s => s
  | iScan + 1, s => scanFreeRounds iScan s.scanFreeStep

/-- `SCAN_FREE_NODE`.
mirrors mt_vmem.c:103-114 -/
def scanFreeNode (s : Segment) : Segment := scanFreeRounds 50 s

/-- The new `wFreeNodeIndex` of `VMEM_GET_FREE_NODE`; the node taken is the
old one.
mirrors mt_vmem.c:116-119 -/
def getFreeNode (s : Segment) : Segment :=
  { s with wFreeNodeIndex := s.next s.wFreeNodeIndex }

/-! ## Save -/

/-- The copy loop of `__SAVE_DATA_TO_VMEM`: `need` is `wNeedCount`, `rd` is
`iReadBuf`, `free` is `wFreeIndex`.
mirrors mt_vmem.c:149-160 -/
def saveLoop (len : Nat) (pdata : List UInt8) : Nat → Nat → Nat → Segment → Segment
  | need + 2, rd, free, s =>
    let s1 := (s.memcpy free ((pdata.drop rd).take len)).setDataLen free len
    let s2 := s1.getFreeNode.setNext free s1.wFreeNodeIndex
    saveLoop len pdata (need + 1) (rd + len) s1.wFreeNodeIndex s2
  | _, rd, free, s =>
    ((s.setNext free s.wNodeCount).memcpy free (pdata.drop rd)).setDataLen free (pdata.length - rd)

/-- `wNeedCount`.
mirrors mt_vmem.c:124 -/
def needCount (len n : Nat) : Nat := (n / len + if n % len = 0 then 0 else 1) % 65536

/-- `wNodeUsed += wNeedCount`. -/
def addUsed (s : Segment) (need : Nat) : Segment :=
  { s with wNodeUsed := (s.wNodeUsed + need) % 65536 }

/-- The part of `__SAVE_DATA_TO_VMEM` after the room check: the first node
and the unlocked segment.
mirrors mt_vmem.c:145-161 -/
def saveInto (len : Nat) (pdata : List UInt8) (s : Segment) : Segment × Nat :=
  let need := needCount len pdata.length
  let s1 := s.scanFreeNode
  ((saveLoop len pdata need 0 s1.wFreeNodeIndex (s1.getFreeNode.addUsed need)).unlock, s1.wFreeNodeIndex)

/-- One segment's turn in `__SAVE_DATA_TO_VMEM`: the first node, or `none`
for `continue`.
mirrors mt_vmem.c:132-161 -/
def save (len : Nat) (pdata : List UInt8) (now : Nat) (s : Segment) : Segment × Option Nat :=
  match s.tryLock now with
  | none => (s, none)
  | some s =>
    let need := needCount len pdata.length
    if s.wNodeCount < s.wNodeUsed + need then
      let s := s.scanFreeNode
      if s.wNodeCount < s.wNodeUsed + need then (s.unlock, none)
      else ((saveInto len pdata s).1, some (saveInto len pdata s).2)
    else ((saveInto len pdata s).1, some (saveInto len pdata s).2)

/-! ## Get -/

/-- What `MtReport_GetFromVmem` leaves: the return code, the bytes it wrote
to `pbuf`, and `*piBufLen`. -/
structure GetRes where
  ret : Int
  pbuf : List UInt8
  piBufLen : Int
  deriving DecidableEq, Repr

/-- The loop of `VMEM_GET_DATA`; `out` holds the bytes copied to `pbuf`.
mirrors mt_vmem.c:272-280 -/
def getLoop (s : Segment) (piBufLen : Int) : Nat → Nat → Int → Nat → List UInt8 → Option GetRes
  | 0, _, _, _, _ => none
  | fuel + 1, nIdx, iBufLen, iDataLen, out =>
    if iBufLen < s.dataLen nIdx then some ⟨-4, out, piBufLen⟩
    else
      let out := out ++ (s.node nIdx).sDataBuf.take (s.dataLen nIdx)
      let iDataLen := iDataLen + s.dataLen nIdx
      if s.next nIdx < s.wNodeCount then
        getLoop s piBufLen fuel (s.next nIdx) (iBufLen - s.dataLen nIdx) iDataLen out
      else some ⟨0, out, iDataLen⟩

/-! ## Free -/

/-- One node of `VMEM_FREE_NODE`: into the free list when the flag was
obtained (`got`), marked `wNodeCount + 1` when not.
mirrors mt_vmem.c:345-355 -/
def freeNode (got : Bool) (s : Segment) (nIdx : Nat) : Segment :=
  let s := s.setDataLen nIdx 0
  if got then s.reclaim nIdx else s.setNext nIdx (s.wNodeCount + 1)

/-- The loop of `VMEM_FREE_NODE`.
mirrors mt_vmem.c:344-357 -/
def freeLoop (got : Bool) : Nat → Nat → Segment → Option Segment
  | 0, _, _ => none
  | fuel + 1, nIdx, s =>
    let iNextSave := s.next nIdx
    let s := freeNode got s nIdx
    if got && s.wNodeUsed == 0 then none
    else if iNextSave < s.wNodeCount then freeLoop got fuel iNextSave s
    else some s

/-! ## Deferred reclaim -/

/-- One node of `CHECK_VMEM_FREE_NODE`; the flag says whether the node was
reclaimed. `none`: the flag was not obtained (`break`).
mirrors mt_vmem.c:402-415 -/
def checkNode (s : Segment) (i : Nat) : Option (Segment × Bool) :=
  if s.dataLen i = 0 ∧ s.next i = s.wNodeCount + 1 then
    if s.bUseFlag then none else some ((s.reclaim i).unlock, true)
  else some (s, false)

/-- The node loop of `CHECK_VMEM_FREE_NODE`; `cnt` is `iCheckFreeCount`.
mirrors mt_vmem.c:401-416 -/
def checkLoop : Nat → Nat → Segment → Nat → Option (Segment × Nat)
  | 0, _, s, cnt => some (s, cnt)
  | fuel + 1, i, s, cnt =>
    if i < s.wNodeCount then
      match s.checkNode i with
      | none => some (s, cnt)
      | some (s, true) => if s.wNodeUsed = 0 then none else checkLoop fuel (i + 1) s (cnt + 1)
      | some (s, false) => checkLoop fuel (i + 1) s cnt
    else some (s, cnt)

/-- One node of `MA_SCAN_FREE_NODE`.
mirrors mt_vmem.c:455-461 -/
def scanNode (s : Segment) (i : Nat) : Segment :=
  if s.next i = s.wNodeCount + 1 then s.reclaim i else s

/-- The node loop of `MA_SCAN_FREE_NODE`: at most `iScanCount` nodes from
`iNodeIdx`, and the index it stops at.
mirrors mt_vmem.c:454-463 -/
def scanLoop : Nat → Nat → Segment → Option (Segment × Nat)
  | 0, i, s => some (s, i)
  | cnt + 1, i, s =>
    if i < s.wNodeCount then
      if s.next i = s.wNodeCount + 1 ∧ (s.scanNode i).wNodeUsed = 0 then none
      else scanLoop cnt (i + 1) (s.scanNode i)
    else some (s, i)

/-! ## Creation -/

/-- A segment of zero-filled shared memory. -/
def zero (len : Nat) : Segment where
  wNodeCount := 0
  wNodeUsed := 0
  wFreeNodeIndex := 0
  bUseFlag := false
  wScanFreeIndex := 0
  dwUseFlagStartTime := 0
  node := fun _ => ⟨0, 0, List.replicate len 0⟩

/-- `VMEM_CREATE_INIT_SHM`.
mirrors mt_vmem.c:68-76 -/
def createInit (s : Segment) (nCount : Nat) : Segment :=
  { s with
    wNodeCount := nCount, wNodeUsed := 1, wFreeNodeIndex := 1,
    node := fun i => if i < nCount then { s.node i with wNextNodeIndex := i + 1 } else s.node i }

end Segment

/-! ## The pool -/

/-- `g_mtReport` as far as the pool uses it, with the static variables of
`MtReport_ScanNode`. -/
structure Pool where
  cIsInit : Bool
  cIsVmemInit : Bool
  seg : NodeLen → Nat → Segment
  iCurScanLen : NodeLen
  iCurScanArrIdx : Nat
  iNodeIdx : Nat

namespace Pool

def setSeg (g : Pool) (c : NodeLen) (j : Nat) (s : Segment) : Pool :=
  { g with seg := Function.update g.seg c (Function.update (g.seg c) j s) }

/-- The library after `MtReport_InitVmem` on freshly created shared memory.
mirrors mt_vmem.c:58-94 -/
def initVmem : Pool where
  cIsInit := true
  cIsVmemInit := true
  seg := fun c _ => (Segment.zero c.len).createInit c.nodeCount
  iCurScanLen := .n16
  iCurScanArrIdx := 0
  iNodeIdx := 0

/-- `VMEM_MAKE_IDEX32`.
mirrors mt_vmem.c:96-101 -/
def makeIdx32 (len tIdx nIdx : Nat) : Nat := ((0 ||| tIdx) <<< 8 ||| len) <<< 16 ||| nIdx

/-- `_SaveToVmem16` to `_SaveToVmem255`: the segments from `i` on, `n` of
them.
mirrors mt_vmem.c:131-166 -/
def saveClassFrom (c : NodeLen) (pdata : List UInt8) (now : Nat) : Nat → Nat → Pool → Pool × Int
  | 0, _, g => (g, -101)
  | n + 1, i, g =>
    match (g.seg c i).save c.len pdata now with
    | (s, some first) => (g.setSeg c i s, makeIdx32 c.len i first)
    | (s, none) => saveClassFrom c pdata now n (i + 1) (g.setSeg c i s)

def saveClass (c : NodeLen) (pdata : List UInt8) (now : Nat) (g : Pool) : Pool × Int :=
  saveClassFrom c pdata now shmCount 0 g

/-- The classes in the order `MtReport_SaveToVmem` tries them: first those
not larger than the data, from large to small, then the others.
mirrors mt_vmem.c:195-237 -/
def saveOrder (iDataLen : Nat) : List NodeLen :=
  [.n255, .n128, .n64, .n32, .n16].filter (fun c => c.len ≤ iDataLen) ++
    [.n16, .n32, .n64, .n128, .n255].filter (fun c => iDataLen < c.len)

/-- Try the classes in order until one returns a handle. -/
def saveTry (pdata : List UInt8) (now : Nat) : List NodeLen → Pool → Int → Pool × Int
  | [], g, ret => (g, ret)
  | c :: cs, g, _ =>
    match g.saveClass c pdata now with
    | (g, ret) => if ret < 0 then saveTry pdata now cs g ret else (g, ret)

/-- `MtReport_SaveToVmem`.
mirrors mt_vmem.c:179-245 -/
def saveToVmem (g : Pool) (pdata : List UInt8) (now : Nat) : Pool × Int :=
  if !g.cIsInit then (g, -101)
  else if pdata.length = 0 ∨ maxDataLen < pdata.length then (g, -1)
  else saveTry pdata now (saveOrder pdata.length) g (-1)

/-! `VMEM_PARSE_IDEX32` on the 32-bit two's complement handle.
mirrors mt_vmem.c:247-251 -/

def parseNIdx (index : Int) : Nat := (index % 65536).toNat
def parseTIdx (index : Int) : Nat := (index / 2 ^ 24 % 256).toNat
def parseLen (index : Int) : Nat := (index / 2 ^ 16 % 256).toNat

/-- `MtReport_GetFromVmem`. A list of a segment has fewer than `wNodeCount`
nodes, so a longer walk does not end.
mirrors mt_vmem.c:253-304 -/
def getFromVmem (g : Pool) (index : Int) (piBufLen : Int) : Option Segment.GetRes :=
  if !g.cIsInit then some ⟨-101, [], piBufLen⟩
  else if shmCount < parseTIdx index then some ⟨-1, [], piBufLen⟩
  else
    match NodeLen.ofLen (parseLen index) with
    | none => some ⟨-3, [], piBufLen⟩
    | some c =>
      if parseTIdx index < shmCount then
        let s := g.seg c (parseTIdx index)
        if s.wNodeCount ≤ parseNIdx index then some ⟨-2, [], piBufLen⟩
        else s.getLoop piBufLen s.wNodeCount (parseNIdx index) piBufLen 0 []
      else none

/-- `MtReport_FreeVmem`.
mirrors mt_vmem.c:317-383 -/
def freeVmem (g : Pool) (index : Int) (now : Nat) : Option (Pool × Int) :=
  if !g.cIsInit then some (g, -101)
  else if shmCount ≤ parseTIdx index then some (g, -1)
  else
    match NodeLen.ofLen (parseLen index) with
    | none => some (g, -3)
    | some c =>
      let s := g.seg c (parseTIdx index)
      if s.wNodeCount ≤ parseNIdx index then some (g, -2)
      else
        match s.tryLock now with
        | some s1 => (s1.freeLoop true s1.wNodeCount (parseNIdx index)).map fun s' =>
            (g.setSeg c (parseTIdx index) s'.unlock, 0)
        | none => (s.freeLoop false s.wNodeCount (parseNIdx index)).map fun s' =>
            (g.setSeg c (parseTIdx index) s', 0)

/-- `CHECK_VMEM_FREE_NODE`: the segments from `j` on, `n` of them.
mirrors mt_vmem.c:397-418 -/
def checkClassFrom (c : NodeLen) : Nat → Nat → Pool → Nat → Option (Pool × Nat)
  | 0, _, g, cnt => some (g, cnt)
  | n + 1, j, g, cnt =>
    match (g.seg c j).checkLoop (g.seg c j).wNodeCount 1 cnt with
    | none => none
    | some (s, cnt) => checkClassFrom c n (j + 1) (g.setSeg c j s) cnt

def checkAll : List NodeLen → Pool → Nat → Option (Pool × Nat)
  | [], g, cnt => some (g, cnt)
  | c :: cs, g, cnt =>
    match g.checkClassFrom c shmCount 0 cnt with
    | none => none
    | some (g, cnt) => checkAll cs g cnt

/-- `MtReport_CheckVmem`.
mirrors mt_vmem.c:385-427 -/
def checkVmem (g : Pool) : Option (Pool × Int) :=
  if !g.cIsInit || !g.cIsVmemInit then some (g, -101)
  else (g.checkAll [.n16, .n32, .n64, .n128, .n255] 0).map fun (g, cnt) => (g, cnt)

/-- `_MtReport_ScanNode_Inner`.
mirrors mt_vmem.c:444-493 -/
def scanNodeInner (g : Pool) (iNodeLen : NodeLen) (iArrIdx iNodeIdx iScanCount now : Nat) :
    Option (Pool × Int) :=
  if shmCount ≤ iArrIdx then some (g, -2)
  else
    match (g.seg iNodeLen iArrIdx).tryLock now with
    | none => some (g, -1)
    | some s =>
      (s.scanLoop iScanCount iNodeIdx).map fun (s, i) =>
        (g.setSeg iNodeLen iArrIdx s.unlock, if s.wNodeCount ≤ i then -2 else i)

/-- mirrors mt_vmem.c:495-506 -/
def getNextNodeLen : NodeLen → NodeLen
  | .n16 => .n32
  | .n32 => .n64
  | .n64 => .n128
  | .n128 => .n255
  | .n255 => .n16

/-- `MtReport_ScanNode`: 0 when a round over all nodes is complete.
mirrors mt_vmem.c:508-539 -/
def scanNode (g : Pool) (iScanCount : Int) (now : Nat) : Option (Pool × Int) :=
  let n := if iScanCount < 1000 then 1000 else iScanCount.toNat
  match g.scanNodeInner g.iCurScanLen g.iCurScanArrIdx g.iNodeIdx n now with
  | none => none
  | some (g, ret) =>
    if ret = -2 then
      if shmCount ≤ g.iCurScanArrIdx + 1 then
        let g := { g with iNodeIdx := 0, iCurScanArrIdx := 0,
                          iCurScanLen := getNextNodeLen g.iCurScanLen }
        some (g, if g.iCurScanLen = .n16 then 0 else 1)
      else some ({ g with iNodeIdx := 0, iCurScanArrIdx := g.iCurScanArrIdx + 1 }, 1)
    else if 0 ≤ ret then some ({ g with iNodeIdx := ret.toNat }, 1)
    else some (g, 1)

end Pool

end DesPwd.L2.Vmem
