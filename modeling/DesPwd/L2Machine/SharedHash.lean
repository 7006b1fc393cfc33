import Mathlib.Algebra.Ring.Nat
import Mathlib.Logic.Function.Basic

/-!
# The shared hash table (`mt_shared_hash.c`)

`STATIC_HASH_ROW_MAX` rows of nodes lie one behind the other in shared
memory; row `i` has `dwNodeNums[i]` nodes, and a key has one slot in each
row, at its short key modulo that number. The used nodes are also linked in a
list with `dwRealNodeCount` as the nil index.

Nodes are addressed by their index over all rows. The caller's part of a node
is modelled as the key written into it; an unwritten node holds `default`.
`fun_war`, the caller's warning callback, changes nothing of the table and
is left out.

The source files are in `language/c_cpp/`.
-/
namespace DesPwd.L2.SharedHash

/-- `STATIC_HASH_ROW_MAX`. -/
def rowMax : Nat := 10

/-- The rows of a table: as many as `STATIC_HASH_ROW_MAX`, none empty, and
few enough nodes for 32-bit indexes. -/
structure Rows where
  dwNodeNums : List Nat
  length_eq : dwNodeNums.length = rowMax
  pos : ∀ n ∈ dwNodeNums, 0 < n
  fits : dwNodeNums.sum < 2 ^ 32

/-- `_HashNodeHead` and the caller's data.
mirrors mt_shared_hash.h:100-105 -/
@[ext] structure Node (K : Type) where
  bIsUsed : Bool
  dwNodePreIndex : Nat
  dwNodeNextIndex : Nat
  data : K

/-- `SharedHashTable` with the `_HashTableHead` and the nodes it points to.
`shareMemNodes` is the number of nodes `dwShareMemBytes` has room for.
mirrors mt_shared_hash.h:67-98 -/
structure Table (K : Type) where
  rows : Rows
  shareMemNodes : Nat
  bInitSuccess : Bool
  bAccessCheck : Bool
  dwCurIndex : Nat
  dwCurIndexRevers : Nat
  fun_cmp : K → K → Int
  dwNodeStartIndex : Nat
  dwNodeEndIndex : Nat
  dwNodeUseCount : Nat
  dwWriteProcessId : Nat
  dwLastUseTimeSec : Nat
  bHashUseFlag : Bool
  node : Nat → Node K

/-- `n + 1` of a 32-bit counter. -/
def inc32 (n : Nat) : Nat := if n = 2 ^ 32 - 1 then 0 else n + 1

/-- `n - 1` of a 32-bit counter. -/
def dec32 (n : Nat) : Nat := if n = 0 then 2 ^ 32 - 1 else n - 1

theorem inc32_eq {n : Nat} (h : n + 1 < 2 ^ 32) : inc32 n = n + 1 := if_neg (by omega)

namespace Table

variable {K : Type}

/-- `dwRealNodeCount`. -/
def real (t : Table K) : Nat := t.rows.dwNodeNums.sum

/-- The node part of `INDEX_TO_NODE_HEAD(i)->f = ..`. -/
def setNode (t : Table K) (i : Nat) (nd : Node K) : Table K :=
  { t with node := Function.update t.node i nd }

def setNext (t : Table K) (i v : Nat) : Table K :=
  t.setNode i { t.node i with dwNodeNextIndex := v }

def setPre (t : Table K) (i v : Nat) : Table K :=
  t.setNode i { t.node i with dwNodePreIndex := v }

def setUsed (t : Table K) (i : Nat) (b : Bool) : Table K :=
  t.setNode i { t.node i with bIsUsed := b }

def setStart (t : Table K) (v : Nat) : Table K := { t with dwNodeStartIndex := v }

def setEnd (t : Table K) (v : Nat) : Table K := { t with dwNodeEndIndex := v }

def setUseCount (t : Table K) (v : Nat) : Table K := { t with dwNodeUseCount := v }

/-- The caller writes its data into a node. -/
def setData (t : Table K) (i : Nat) (k : K) : Table K :=
  t.setNode i { t.node i with data := k }

/-- A table for which `InitHashTableForWrite` has created the shared memory.
mirrors mt_shared_hash.c:388-450 -/
def initHashTableForWrite [Inhabited K] (rows : Rows) (cmp : K → K → Int) (bAccessCheck : Bool) :
    Table K where
  rows := rows
  shareMemNodes := rows.dwNodeNums.sum
  bInitSuccess := true
  bAccessCheck := bAccessCheck
  dwCurIndex := rows.dwNodeNums.sum
  dwCurIndexRevers := rows.dwNodeNums.sum
  fun_cmp := cmp
  dwNodeStartIndex := rows.dwNodeNums.sum
  dwNodeEndIndex := rows.dwNodeNums.sum
  dwNodeUseCount := 0
  dwWriteProcessId := 0
  dwLastUseTimeSec := 0
  bHashUseFlag := false
  node := fun _ => ⟨false, 0, 0, default⟩

/-! ## Reset and locking -/

/-- `ResetHashTable` once it has the flag.
mirrors mt_shared_hash.c:272-279 -/
def resetHashTable [Inhabited K] (t : Table K) : Table K :=
  if !t.bInitSuccess then t
  else
    { t with
      node := fun i => if i < t.shareMemNodes then ⟨false, 0, 0, default⟩ else t.node i
      dwNodeStartIndex := t.real
      dwNodeEndIndex := t.real
      dwNodeUseCount := 0
      dwLastUseTimeSec := 0
      bHashUseFlag := false }

/-- `SHARED_HASH_ACCESS_CHECK_FAILED`. -/
def accessCheckFailed [Inhabited K] (t : Table K) : Table K :=
  resetHashTable { t with bHashUseFlag := false }

/-- The entry of the writing functions: the check of the writing process, or
the flag when there is none. `none`: the flag was not obtained in ten tries
(-33).
mirrors mt_shared_hash.c:683-703 -/
def enter [Inhabited K] (t : Table K) (pid now : Nat) : Table K × Bool :=
  if t.dwWriteProcessId ≠ 0 then
    (if pid = t.dwWriteProcessId then t else t.accessCheckFailed, true)
  else if !t.bHashUseFlag then
    ({ t with bHashUseFlag := true, dwLastUseTimeSec := now % 2 ^ 32 }, true)
  else if (t.dwLastUseTimeSec + 2) % 2 ^ 32 < now % 2 ^ 32 then
    ({ t with bHashUseFlag := false }, false)
  else (t, false)

/-- The end of the writing functions. -/
def leave (t : Table K) : Table K := { t with bHashUseFlag := false, dwLastUseTimeSec := 0 }

/-! ## Search -/

/-- The slots of a short key in the rows `nums`, the first of which starts at
node `off`. -/
def slotsFrom (dwShortKey : Nat) : Nat → List Nat → List Nat
  | _, [] => []
  | off, n :: nums => (off + dwShortKey % n) :: slotsFrom dwShortKey (off + n) nums

/-- The slot of a short key in each row. -/
def slots (t : Table K) (dwShortKey : Nat) : List Nat :=
  slotsFrom dwShortKey 0 t.rows.dwNodeNums

/-- `pNodeHead->bIsUsed && phash->fun_cmp(pKey, pNode) == 0`. -/
def isMatch (t : Table K) (k : K) (i : Nat) : Bool :=
  (t.node i).bIsUsed && t.fun_cmp k (t.node i).data == 0

/-- `HashTableSearch`; `off` is where `pRow` points.
mirrors mt_shared_hash.c:452-473 -/
def searchFrom (t : Table K) (k : K) (dwShortKey : Nat) : Nat → List Nat → Option Nat
  | _, [] => none
  | off, n :: nums =>
    if t.isMatch k (off + dwShortKey % n) then some (off + dwShortKey % n)
    else searchFrom t k dwShortKey (off + n) nums

def hashTableSearch (t : Table K) (k : K) (dwShortKey : Nat) : Option Nat :=
  if !t.bInitSuccess then none else searchFrom t k dwShortKey 0 t.rows.dwNodeNums

/-- `HashTableSearchEx`: the node, and `*pdwIsFind`.
mirrors mt_shared_hash.c:475-510 -/
def searchExFrom (t : Table K) (k : K) (dwShortKey : Nat) :
    Nat → List Nat → Option Nat → Option Nat × Bool
  | _, [], pEmptyNode => (pEmptyNode, false)
  | off, n :: nums, pEmptyNode =>
    let i := off + dwShortKey % n
    if t.isMatch k i then (some i, true)
    else
      searchExFrom t k dwShortKey (off + n) nums
        (if pEmptyNode = none ∧ (t.node i).bIsUsed = false then some i else pEmptyNode)

def hashTableSearchEx (t : Table K) (k : K) (dwShortKey : Nat) : Option Nat × Bool :=
  if !t.bInitSuccess then (none, false)
  else searchExFrom t k dwShortKey 0 t.rows.dwNodeNums none

/-! ## Insert and remove -/

/-- Put node `i` at the end of the list.
mirrors mt_shared_hash.c:706-722 -/
def linkNode (t : Table K) (i : Nat) : Table K :=
  if 0 < t.dwNodeUseCount then
    ((((t.setUseCount (inc32 t.dwNodeUseCount)).setNext t.dwNodeEndIndex i).setPre i
      t.dwNodeEndIndex).setNext i t.real).setEnd i
  else ((((t.setUseCount 1).setPre i t.real).setNext i t.real).setEnd i).setStart i

/-- `InsertHashNode`.
mirrors mt_shared_hash.c:673-727 -/
def insertHashNode [Inhabited K] (t : Table K) (i pid now : Nat) : Table K × Int :=
  if !t.bInitSuccess then (t, -1)
  else
    match t.enter pid now with
    | (t, false) => (t, -33)
    | (t, true) => (((t.linkNode i).setUsed i true).leave, 0)

/-- Walk back from node `last` to the first node that is not behind node `i`.
`false`: there is none, the walk has passed the first node. The loop has no
bound in the source; `n` bounds its rounds.
mirrors mt_shared_hash.c:549-561 -/
def sortPlace (t : Table K) (i : Nat) : Nat → Nat → Option (Nat × Bool)
  | 0, _ => none
  | n + 1, last =>
    if ¬ 0 < t.fun_cmp (t.node last).data (t.node i).data then some (last, true)
    else if (t.node last).dwNodePreIndex = t.real then some (last, false)
    else sortPlace t i n (t.node last).dwNodePreIndex

/-- Link node `i` before the first node `last`.
mirrors mt_shared_hash.c:573-576 -/
def linkFront (t : Table K) (last i : Nat) : Table K :=
  (((t.setPre last i).setPre i t.real).setNext i t.dwNodeStartIndex).setStart i

/-- Link node `i` behind the last node `last`.
mirrors mt_shared_hash.c:588-591 -/
def linkBack (t : Table K) (last i : Nat) : Table K :=
  (((t.setNext last i).setNext i t.real).setPre i t.dwNodeEndIndex).setEnd i

/-- Link node `i` between node `last` and its successor.
mirrors mt_shared_hash.c:595-598 -/
def linkBetween (t : Table K) (last i : Nat) : Table K :=
  let t := (t.setNext i (t.node last).dwNodeNextIndex).setPre i last
  (t.setPre (t.node last).dwNodeNextIndex i).setNext last i

/-- Put node `i` behind the last node that does not compare greater; the
return code when the head of the list does not agree with its nodes.
mirrors mt_shared_hash.c:545-609 -/
def linkNodeSort (t : Table K) (i : Nat) : Option (Except Int (Table K)) :=
  if 0 < t.dwNodeUseCount then do
    let t := t.setUseCount (inc32 t.dwNodeUseCount)
    match ← t.sortPlace i (t.real + 1) t.dwNodeEndIndex with
    | (last, false) =>
      if t.dwNodeStartIndex ≠ last then pure (.error (-3)) else pure (.ok (t.linkFront last i))
    | (last, true) =>
      if (t.node last).dwNodeNextIndex = t.real then
        if t.dwNodeEndIndex ≠ last then pure (.error (-4)) else pure (.ok (t.linkBack last i))
      else pure (.ok (t.linkBetween last i))
  else some (.ok (((((t.setUseCount 1).setPre i t.real).setNext i t.real).setEnd i).setStart i))

/-- `InsertHashNodeSort`; the failed check resets the table and then the
branch does it again.
mirrors mt_shared_hash.c:512-614 -/
def insertHashNodeSort [Inhabited K] (t : Table K) (i pid now : Nat) : Option (Table K × Int) :=
  if !t.bInitSuccess then some (t, -1)
  else
    match t.enter pid now with
    | (t, false) => some (t, -33)
    | (t, true) => do
      match ← t.linkNodeSort i with
      | .error ret => pure (t.accessCheckFailed.accessCheckFailed, ret)
      | .ok t => pure ((t.setUsed i true).leave, 0)

/-- The cursor step of `GetNextNode` and `GetNextNodeRevers` from `cur` to
`next`: the checks of the two nodes.
mirrors mt_shared_hash.c:920-939 -/
def cursorCheck [Inhabited K] (t : Table K) (cur next : Nat) : Table K :=
  if next ≠ t.real ∧ t.bAccessCheck then
    if !(t.node cur).bIsUsed then t.accessCheckFailed
    else if !(t.node next).bIsUsed then t.accessCheckFailed
    else t
  else t

/-- `GetNextNode`: the cursor moves on. -/
def getNextNode [Inhabited K] (t : Table K) : Table K :=
  if t.dwCurIndex = t.real then t
  else
    let next := (t.node t.dwCurIndex).dwNodeNextIndex
    { t with dwCurIndex := next }.cursorCheck t.dwCurIndex next

/-- `GetNextNodeRevers`.
mirrors mt_shared_hash.c:1036-1062 -/
def getNextNodeRevers [Inhabited K] (t : Table K) : Table K :=
  if t.dwCurIndexRevers = t.real then t
  else
    let next := (t.node t.dwCurIndexRevers).dwNodePreIndex
    { t with dwCurIndexRevers := next }.cursorCheck t.dwCurIndexRevers next

/-- Move a cursor that stands on node `i`.
mirrors mt_shared_hash.c:766-769 -/
def moveCursors [Inhabited K] (t : Table K) (i : Nat) : Table K :=
  let t := if t.dwCurIndex = i then t.getNextNode else t
  if t.dwCurIndexRevers = i then t.getNextNodeRevers else t

/-- Take node `i` out of the list; the return code when a neighbour is not in
use. `dwNodeUseCount` is already that without the node.
mirrors mt_shared_hash.c:772-812 -/
def unlinkNode (t : Table K) (i : Nat) : Except Int (Table K) :=
  let nd := t.node i
  if t.dwNodeUseCount = 0 then
    .ok ((t.setStart t.real).setEnd t.real)
  else if nd.dwNodeNextIndex = t.real then
    if !(t.node nd.dwNodePreIndex).bIsUsed then .error (-2)
    else .ok ((t.setNext nd.dwNodePreIndex t.real).setEnd nd.dwNodePreIndex)
  else if nd.dwNodePreIndex = t.real then
    if !(t.node nd.dwNodeNextIndex).bIsUsed then .error (-3)
    else .ok ((t.setPre nd.dwNodeNextIndex t.real).setStart nd.dwNodeNextIndex)
  else if !(t.node nd.dwNodePreIndex).bIsUsed || !(t.node nd.dwNodeNextIndex).bIsUsed then
    .error (-4)
  else
    .ok ((t.setNext nd.dwNodePreIndex nd.dwNodeNextIndex).setPre nd.dwNodeNextIndex
      nd.dwNodePreIndex)

/-- A node that is no longer in the list. -/
def clearNode (t : Table K) (i : Nat) : Table K :=
  ((t.setUsed i false).setNext i t.real).setPre i t.real

/-- `RemoveHashNode`.
mirrors mt_shared_hash.c:737-819 -/
def removeHashNode [Inhabited K] (t : Table K) (i pid now : Nat) : Table K × Int :=
  if !t.bInitSuccess then (t, -1)
  else
    match t.enter pid now with
    | (t, false) => (t, -33)
    | (t, true) =>
      let t := t.moveCursors i
      let t := t.setUseCount (dec32 t.dwNodeUseCount)
      match t.unlinkNode i with
      | .error ret => (t.accessCheckFailed, ret)
      | .ok t => ((t.clearNode i).leave, 0)

end Table

end DesPwd.L2.SharedHash
