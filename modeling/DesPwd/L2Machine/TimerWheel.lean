import Mathlib.Algebra.Ring.Nat
import Mathlib.Logic.Function.Basic

/-!
# The timer wheel of the agent: the code

slog_mtreport_client/sv_timer.cpp keeps the agent's timers in a wheel of five
levels, `tv1` with 256 lists and `tv2` to `tv5` with 64 each, and finds them by
key in a hash table of `STATIC_HASH_ROW_MAX` rows. The lists are the circular
lists of sv_list.h, linked through the timer nodes.

Masks are written as remainders and shifts as divisions; `unsigned` values are
naturals below 2^32. A function answers `none` where the code would follow a
`NULL` link or take a list head for a timer node.

Source files without a directory are in `slog_mtreport_client/`.
-/
namespace DesPwd.L2.TimerWheel

open Function (update)

/-- `TVR_SIZE`, sv_timer.h -/
def tvrSize : Nat := 256
/-- `TVN_SIZE` -/
def tvnSize : Nat := 64
/-- `MT_TIMER_CHECK_INTVALUS` -/
def checkInvlUs : Nat := 100000
/-- `TIMER_NODE_SESS_DATA_LEN` -/
def sessDataLen : Nat := 48
/-- `MAX_TIMER_NODE_PER_TRY` -/
def maxNodePerTry : Nat := 10
/-- The limit on `iLoopCount` in `CascadeTimers`. -/
def cascadeLimit : Nat := 10000
/-- `STATIC_HASH_ROW_MAX`, language/c_cpp/mt_shared_hash.h -/
def hashRows : Nat := 10
/-- `TIMER_HASH_NODE_COUNT`: a prime, so the length of every row. -/
def hashCols : Nat := 1117
/-- `TIME_MS_TO_US(5*60*1000)` of `TimerHashCmpFun`. -/
def staleUs : Nat := 300000000

/-- The difference of two `unsigned`. -/
def sub32 (a b : Nat) : Nat := if b ≤ a then a - b else a + (4294967296 - b)
/-- `x++` on an `unsigned`. -/
def inc32 (a : Nat) : Nat := if a = 4294967295 then 0 else a + 1
/-- `x--` on an `unsigned`. -/
def dec32 (a : Nat) : Nat := if a = 0 then 4294967295 else a - 1
/-- Conversion to `unsigned`. -/
def u32 (a : Nat) : Nat := a % 4294967296

/-- `TIME_MS_TO_US` of an `unsigned`. -/
def timeMsToUs (ms : Nat) : Nat := u32 (ms * 1000)

/-- Where a `ListHead` can stand: in `vec[i]` of level `lvl` (0 for `tv1`), or
in a timer node. -/
inductive Ptr where
  | null
  | head (lvl i : Nat)
  | node (n : Nat)
  deriving DecidableEq

/-- mirrors sv_timer.h:64-79; the links are in `Timer`. -/
structure TimerNode where
  uiKey : Nat
  pDataPtr : Option (List UInt8)
  uiExpire : Nat
  uiTimeOut : Nat
  qwExpireTime : Nat
  uiDataLen : Nat
  onExpire : Bool
  dwProcessId : Nat

/-- A node of zeros. -/
def TimerNode.zero : TimerNode := ⟨0, none, 0, 0, 0, 0, false, 0⟩

/-- `g_mtTimer` with the hash table, and what the timers use of `stConfig`.
Two lists are not in the code: `active` has the timers that were set and neither
taken by `GetTimer` nor fired since, `given` the nodes that `GetTimer` gave out. -/
structure Timer where
  pstNext : Ptr → Ptr
  pstPrev : Ptr → Ptr
  node : Nat → TimerNode
  tv1Index : Nat
  tvIndex : Nat → Nat
  qwBaseTime : Nat
  uiCheckTime : Nat
  uiCount : Nat
  uiMaxCount : Nat
  qwCurTime : Nat
  dwProcessId : Nat
  cIsAgentRun : Nat
  active : List Nat
  given : List Nat

/-- mirrors sv_timer.cpp:53-95 -/
def initTimer (now pid : Nat) : Timer where
  pstNext p := match p with
    | .head l i => .head l i
    | _ => .null
  pstPrev p := match p with
    | .head l i => .head l i
    | _ => .null
  node _ := .zero
  tv1Index := 0
  tvIndex _ := 0
  qwBaseTime := now
  uiCheckTime := 0
  uiCount := 0
  uiMaxCount := 0
  qwCurTime := now
  dwProcessId := pid
  cIsAgentRun := 1
  active := []
  given := []

namespace Timer

def setNode (s : Timer) (n : Nat) (nd : TimerNode) : Timer :=
  { s with node := update s.node n nd }

theorem setNode_self (s : Timer) (n : Nat) (nd : TimerNode) : (s.setNode n nd).node n = nd :=
  Function.update_self ..

theorem setNode_of_ne {m n : Nat} (s : Timer) (h : m ≠ n) (nd : TimerNode) :
    (s.setNode n nd).node m = s.node m :=
  Function.update_of_ne h ..

/-! ## Lists -/

/-- mirrors sv_list.h:46-48 -/
def initListHead (s : Timer) (p : Ptr) : Timer :=
  { s with
    pstNext := update s.pstNext p p
    pstPrev := update s.pstPrev p p }

/-- `LIST_ADD`: the four writes of `_LIST_ADD(node, prev, next)` with
`next = prev->pstNext`; mirrors sv_list.h:60-79 -/
def listAdd (s : Timer) (node prev : Ptr) : Timer :=
  let next := s.pstNext prev
  { s with
    pstPrev := update (update s.pstPrev next node) node prev
    pstNext := update (update s.pstNext node next) prev node }

/-- mirrors sv_list.h:105-121 -/
def listDel (s : Timer) (entry : Ptr) : Option Timer :=
  let prev := s.pstPrev entry
  let next := s.pstNext entry
  if prev = .null ∨ next = .null then none
  else some { s with
    pstPrev := update s.pstPrev next prev
    pstNext := update s.pstNext prev next }

/-! ## The hash table -/

/-- The nodes that a search for `key` looks at, one in each row. -/
def slots (key : Nat) : List Nat := (List.range hashRows).map fun i => i * hashCols + key % hashCols

/-- The node after `TimerHashCmpFun` has looked at it;
mirrors mtreport_client.cpp:362-368 -/
def prune (s : Timer) (nd : TimerNode) : TimerNode :=
  if nd.dwProcessId ≠ s.dwProcessId ∨ nd.qwExpireTime + staleUs < s.qwCurTime then
    { nd with uiKey := 0 }
  else nd

/-- mirrors mtreport_client.cpp:360-373 -/
def timerHashCmp (s : Timer) (key n : Nat) : Timer × Bool :=
  let nd := s.prune (s.node n)
  (s.setNode n nd, key = nd.uiKey)

/-- mirrors language/c_cpp/mt_shared_hash.c:1138-1155 -/
def hashTableSearch (key : Nat) : List Nat → Timer → Timer × Option Nat
  | [], s => (s, none)
  | n :: ns, s =>
    match s.timerHashCmp key n with
    | (s, true) => (s, some n)
    | (s, false) => hashTableSearch key ns s

/-- The answer is the node and `*pdwIsFind`;
mirrors mt_shared_hash.c:1157-1189 -/
def hashTableSearchEx (key : Nat) : List Nat → Option Nat → Timer → Timer × Option Nat × Bool
  | [], pEmptyNode, s => (s, pEmptyNode, false)
  | n :: ns, pEmptyNode, s =>
    match s.timerHashCmp key n with
    | (s, true) => (s, some n, true)
    | (s, false) =>
      match pEmptyNode with
      | some e => hashTableSearchEx key ns (some e) s
      | none =>
        match s.timerHashCmp 0 n with
        | (s, true) => hashTableSearchEx key ns (some n) s
        | (s, false) => hashTableSearchEx key ns none s

/-! ## Setting and taking timers -/

/-- The list that `InternalAddTimer` chooses;
mirrors sv_timer.cpp:99-120 -/
def vec (s : Timer) (expires : Nat) : Nat × Nat :=
  let idx := sub32 expires s.uiCheckTime
  if idx < 256 then (0, expires % 256)
  else if idx < 16384 then (1, expires / 256 % 64)
  else if idx < 1048576 then (2, expires / 16384 % 64)
  else if idx < 67108864 then (3, expires / 1048576 % 64)
  -- `(signed) idx < 0`
  else if 2147483648 ≤ idx then (0, s.tv1Index)
  else (4, expires / 67108864 % 64)

/-- mirrors sv_timer.cpp:97-123 -/
def internalAddTimer (s : Timer) (n : Nat) : Timer :=
  let v := s.vec (s.node n).uiExpire
  let s := s.setNode n { s.node n with dwProcessId := s.dwProcessId }
  s.listAdd (.node n) (s.pstPrev (.head v.1 v.2))

/-- What `AddTimer` and `UpdateTimer` do once the clock is read: the expire
time from `uiTimeOut`, the link and the counters;
mirrors sv_timer.cpp:139-151, 188-207 -/
def arm (s : Timer) (n : Nat) : Timer :=
  let nd := s.node n
  let uiTimeOut := if nd.uiTimeOut < 1000 then 1000 else nd.uiTimeOut
  let us := timeMsToUs uiTimeOut
  let s := s.setNode n { nd with
    uiTimeOut := uiTimeOut
    uiExpire := u32 ((s.qwCurTime - s.qwBaseTime + us) / checkInvlUs)
    qwExpireTime := us + s.qwCurTime }
  let s := s.internalAddTimer n
  { s with
    uiCount := inc32 s.uiCount
    uiMaxCount := if s.uiMaxCount < inc32 s.uiCount then inc32 s.uiCount else s.uiMaxCount
    active := n :: s.active }

/-- The arguments of `AddTimer`, with what `malloc` and `SetCurTime` answer. -/
structure AddCall where
  uiKey : Nat
  uiTimeOut : Nat
  onExpire : Bool
  iSessDataLen : Nat
  sData : List UInt8
  mallocOk : Bool
  now : Nat

/-- mirrors sv_timer.cpp:157-211 -/
def addTimer (s : Timer) (a : AddCall) : Timer × Int :=
  if sessDataLen < a.iSessDataLen then (s, -5)
  else
    match hashTableSearchEx a.uiKey (slots a.uiKey) none s with
    | (s, _, true) => (s, -4)
    | (s, none, false) => (s, -2)
    | (s, some n, false) =>
      if a.sData ≠ [] ∧ a.mallocOk = false then
        (s.setNode n { s.node n with pDataPtr := none }, -1011)
      else
        let s := { s with qwCurTime := a.now }
        let s := s.setNode n { s.node n with
          pDataPtr := if a.sData = [] then none else some a.sData
          onExpire := a.onExpire
          uiDataLen := a.sData.length
          uiTimeOut := a.uiTimeOut
          uiKey := a.uiKey }
        (s.arm n, 0)

/-- The data argument of `UpdateTimer`, with what `malloc` and `SetCurTime` answer. -/
structure Rearm where
  sData : List UInt8
  mallocOk : Bool
  now : Nat

/-- mirrors sv_timer.cpp:125-155 -/
def updateTimer (s : Timer) (n : Nat) (a : Rearm) : Timer × Int :=
  if a.sData ≠ [] ∧ a.mallocOk = false then
    (s.setNode n { s.node n with pDataPtr := none }, -1011)
  else
    let s := { s with qwCurTime := a.now }
    let s := s.setNode n { s.node n with
      pDataPtr := if a.sData = [] then none else some a.sData }
    (s.arm n, 0)

/-- `*pNode`, the data and the return code of `GetTimer`. -/
structure GetRes where
  pNode : Option Nat
  sData : List UInt8
  ret : Int

/-- mirrors sv_timer.cpp:214-243 -/
def getTimer (s : Timer) (uiKey : Nat) : Option (Timer × GetRes) :=
  match hashTableSearch uiKey (slots uiKey) s with
  | (s, none) => some (s, ⟨none, [], -2⟩)
  | (s, some n) =>
    (s.listDel (.node n)).map fun s =>
      let nd := s.node n
      let uiDataLen := if nd.pDataPtr.isSome then nd.uiDataLen else 0
      ({ s.setNode n { nd with pDataPtr := none } with
          uiCount := dec32 s.uiCount
          active := s.active.erase n
          given := n :: s.given },
        ⟨some n, nd.pDataPtr.getD [], if uiDataLen ≠ nd.uiDataLen then -4 else 0⟩)

/-- The data of a timer, `none` for the return code -2;
mirrors sv_timer.cpp:245-265 -/
def getTimerData (s : Timer) (uiKey : Nat) : Timer × Option (List UInt8) :=
  match hashTableSearch uiKey (slots uiKey) s with
  | (s, none) => (s, none)
  | (s, some n) =>
    (s.setNode n { s.node n with pDataPtr := none }, some ((s.node n).pDataPtr.getD []))

/-! ## Running the wheel -/

/-- The walk of `CascadeTimers`, `r` below the limit on `iLoopCount`; the
answer tells whether the walk came to its end;
mirrors sv_timer.cpp:277-288 -/
def cascadeLoop (pstHead : Ptr) : Nat → Ptr → Timer → Option (Timer × Bool)
  | r, pstCurr, s =>
    if pstCurr = pstHead then some (s, true)
    else match pstCurr, r with
      | .node n, 0 => some ({ s.internalAddTimer n with cIsAgentRun := 2 }, false)
      | .node n, r + 1 =>
        let pstNext := s.pstNext (.node n)
        cascadeLoop pstHead r pstNext (s.internalAddTimer n)
      | _, _ => none

/-- mirrors sv_timer.cpp:269-292 -/
def cascadeTimers (s : Timer) (lvl : Nat) : Option (Timer × Bool) :=
  let pstHead := .head lvl (s.tvIndex lvl)
  match cascadeLoop pstHead cascadeLimit (s.pstNext pstHead) s with
  | some (s, true) =>
    let s := s.initListHead pstHead
    some ({ s with tvIndex := update s.tvIndex lvl ((s.tvIndex lvl + 1) % 64) }, true)
  | r => r

/-- The `do … while` over the levels;
mirrors sv_timer.cpp:306-310 -/
def cascadeLevels : List Nat → Timer → Option (Timer × Bool)
  | [], s => some (s, true)
  | lvl :: lvls, s =>
    match s.cascadeTimers lvl with
    | some (s, true) => if s.tvIndex lvl = 1 then cascadeLevels lvls s else some (s, true)
    | r => r

/-- What one call of an `OnExpire` does to the timers: it sets others, writes
`uiTimeOut` of its own node, and may end in `UpdateTimer`, as the callbacks in
mtreport_protoc.cpp and mtreport_client.cpp do. -/
structure Callback where
  adds : List AddCall
  uiTimeOut : Nat
  rearm : Option Rearm

instance : Inhabited Callback := ⟨[], 0, none⟩

/-- The answer is the return code, 1 for a node that is in use again. -/
def callback (s : Timer) (n : Nat) (cb : Callback) : Timer × Int :=
  let s := cb.adds.foldl (fun s a => (s.addTimer a).1) s
  let s := s.setNode n { s.node n with uiTimeOut := cb.uiTimeOut }
  match cb.rearm with
  | none => (s, 0)
  | some a =>
    let (s, ret) := s.updateTimer n a
    (s, if ret = 0 then 1 else 0)

/-- `memset(pstCurNode, 0, sizeof(TimerNode))` -/
def clearNode (s : Timer) (n : Nat) : Timer :=
  { s.setNode n .zero with
    pstNext := update s.pstNext (.node n) .null
    pstPrev := update s.pstPrev (.node n) .null }

/-- mirrors sv_timer.cpp:340-347 -/
def fire (s : Timer) (n : Nat) (cb : Callback) : Timer :=
  let (s, iRet) := if (s.node n).onExpire then s.callback n cb else (s, 0)
  if iRet ≠ 1 then s.clearNode n else s

/-- How the loop over the list of a tick ends. -/
inductive TickEnd where
  | listEmpty (r : Nat) (cbs : List Callback)
  | broken

/-- The loop from `repeat:` on, with `r` nodes left of `MAX_TIMER_NODE_PER_TRY`
and what the callbacks will do;
mirrors sv_timer.cpp:312-353 -/
def runNodes : Nat → List Callback → Timer → Option (Timer × TickEnd)
  | 0, _, s => some (s, .broken)
  | r + 1, cbs, s =>
    if s.pstNext (.head 0 s.tv1Index) = .head 0 s.tv1Index then some (s, .listEmpty (r + 1) cbs)
    else match s.pstNext (.head 0 s.tv1Index) with
      | .node n =>
        match s.listDel (.node n) with
        | none => none
        | some s =>
          let s := { s with uiCount := dec32 s.uiCount }
          if s.qwCurTime < (s.node n).qwExpireTime ∧
              checkInvlUs < (s.node n).qwExpireTime - s.qwCurTime then
            some ({ s with cIsAgentRun := 2 }, .broken)
          else match s.getTimerData (s.node n).uiKey with
            | (s, none) => some ({ s with cIsAgentRun := 2 }, .broken)
            | (s, some _) =>
              let s := { s with active := s.active.erase n }
              runNodes r cbs.tail (s.fire n (cbs.headD default))
      | _ => none

/-- `uiCheckTime++` and `tv1.index` -/
def nextTick (s : Timer) : Timer :=
  { s with uiCheckTime := inc32 s.uiCheckTime, tv1Index := (s.tv1Index + 1) % 256 }

/-- The outer loop, `none` when it is not through after `fuel` ticks;
mirrors sv_timer.cpp:294-357 -/
def runTimerList (uiCurTime : Nat) : Nat → Nat → List Callback → Timer → Option Timer
  | fuel, r, cbs, s =>
    if s.uiCheckTime ≤ uiCurTime ∧ 0 < s.uiCount then
      match fuel with
      | 0 => none
      | fuel + 1 =>
        match if s.tv1Index = 0 then s.cascadeLevels [1, 2, 3, 4] else some (s, true) with
        | none => none
        | some (s, false) => some s
        | some (s, true) =>
          match s.runNodes r cbs with
          | none => none
          | some (s, .broken) => some s
          | some (s, .listEmpty r cbs) => runTimerList uiCurTime fuel r cbs s.nextTick
    else some s

/-- mirrors sv_timer.cpp:359-366 -/
def checkTimer (s : Timer) (cbs : List Callback) : Option Timer :=
  let uiCurTime := u32 ((s.qwCurTime - s.qwBaseTime) / checkInvlUs)
  if s.uiCheckTime ≤ uiCurTime then
    runTimerList uiCurTime (uiCurTime + 1 - s.uiCheckTime) maxNodePerTry cbs s
  else some s

/-! ## What fires

The nodes for which the loops come to `OnExpire`, in that order. -/

/-- The nodes that `runNodes` fires. -/
def firedNodes : Nat → List Callback → Timer → List Nat
  | 0, _, _ => []
  | r + 1, cbs, s =>
    match s.pstNext (.head 0 s.tv1Index) with
    | .node n =>
      match s.listDel (.node n) with
      | none => []
      | some s =>
        let s := { s with uiCount := dec32 s.uiCount }
        if s.qwCurTime < (s.node n).qwExpireTime ∧
            checkInvlUs < (s.node n).qwExpireTime - s.qwCurTime then []
        else match s.getTimerData (s.node n).uiKey with
          | (_, none) => []
          | (s, some _) =>
            let s := { s with active := s.active.erase n }
            n :: firedNodes r cbs.tail (s.fire n (cbs.headD default))
    | _ => []

/-- The nodes that `runTimerList` fires. -/
def firedTicks (uiCurTime : Nat) : Nat → Nat → List Callback → Timer → List Nat
  | 0, _, _, _ => []
  | fuel + 1, r, cbs, s =>
    if s.uiCheckTime ≤ uiCurTime ∧ 0 < s.uiCount then
      match if s.tv1Index = 0 then s.cascadeLevels [1, 2, 3, 4] else some (s, true) with
      | some (s, true) =>
        firedNodes r cbs s ++
          match s.runNodes r cbs with
          | some (s, .listEmpty r cbs) => firedTicks uiCurTime fuel r cbs s.nextTick
          | _ => []
      | _ => []
    else []

/-- The tick of a `CheckTimer` call. -/
def tick (s : Timer) : Nat := u32 ((s.qwCurTime - s.qwBaseTime) / checkInvlUs)

/-- The nodes that `checkTimer` fires. -/
def fired (s : Timer) (cbs : List Callback) : List Nat :=
  if s.uiCheckTime ≤ s.tick then
    firedTicks s.tick (s.tick + 1 - s.uiCheckTime) maxNodePerTry cbs s
  else []

/-! ## Runs -/

/-- The calls: `release` is the caller's `pNode->uiKey = 0` on a node it got
from `GetTimer`; `checkTimer` carries what the callbacks do and the clock when
the call returns. -/
inductive Label where
  | setCurTime (now : Nat)
  | addTimer (a : AddCall)
  | getTimer (uiKey : Nat)
  | release (n : Nat)
  | checkTimer (cbs : List Callback) (tEnd : Nat)

def step (s : Timer) : Label → Option Timer
  | .setCurTime now => some { s with qwCurTime := now }
  | .addTimer a => some (s.addTimer a).1
  | .getTimer uiKey => (s.getTimer uiKey).map Prod.fst
  | .release n => some (s.setNode n { s.node n with uiKey := 0 })
  | .checkTimer cbs _ => s.checkTimer cbs

end Timer

end DesPwd.L2.TimerWheel
