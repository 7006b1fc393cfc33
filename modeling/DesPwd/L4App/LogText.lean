import DesPwd.L1Encoding.LogCust
import DesPwd.L2Machine.LogRing
import DesPwd.L2Machine.VmemStore

/-!
# The text of a reported log record

`MtReport_Log` (language/c_cpp/mt_log.c) keeps the first 256 bytes of a long
message in the cell of the ring and saves what follows the first 252 in the vmem.
`ReadAppLogToBuf` (slog_mtreport_client/mtreport_client.cpp) puts the two parts
together in a static buffer, behind the header and the custom data of the record,
and copies the result to the packet of the application.

A call that finds no packet returns -1 after it has freed the vmem of the record,
and the record is read again by the next drain.

* `Inv.step_inv`: in every run the unread records own live handles of the vmem.
* `readAppLogToBuf_spec`: what a call puts into the buffer.
* `reported_text_iff`: the text is the message and a zero exactly if the message
  fits the cell, or it is still in the vmem and the buffer happens to hold a zero
  where the terminator belongs, which nothing writes.
* `in_progress_iff`: when a record that is still being written is not overtaken.

Source files without a directory are in `slog_mtreport_client/`.
-/
namespace DesPwd.L4.LogText

open Bytes Run Circular List Option Image UInt16
open L2.Vmem (Pool PoolInv NodeLen)
open L2.LogRing (MTLog MTLogShm LogCall BufRes recordsCount sLogContentLen mtReportLog
  saveFailedText)
open L1.LogCust (Cust saveLogCust length_saveLogCust)
open Function (update update_self update_of_ne)

/-! ## Writing -/

/-- `MTREPORT_LOG_MAX_LENGTH` -/
def logMaxLength : Nat := 1024

/-- The size that `vsnprintf` is given: `sLogBuf` has 64 bytes more than
`MTREPORT_LOG_MAX_LENGTH`, and 32 are kept for the note on a cut. -/
def fmtLimit : Nat := logMaxLength + 64 - 32

def truncateNote : Bytes := "[slog too long truncate ...]".toUTF8.toList

/-- The string in `sLogBuf`, which was all zero. The note stands behind the zero
that `vsnprintf` wrote.
mirrors language/c_cpp/mt_log.c:843-853 -/
def formatLog (text : Bytes) : Bytes :=
  let printed := text.take (fmtLimit - 1)
  let note := if fmtLimit ≤ 2 * text.length then truncateNote else []
  (printed ++ List.replicate (fmtLimit - printed.length) 0 ++ note).takeWhile (· ≠ 0)

/-- What a call of `MtReport_Log` is given and finds: the clock, the config, the
sequence counter, the custom fields and the text that its format prints. -/
structure Call where
  tvSec : UInt64
  tvUsec : UInt64
  now : Nat
  iLogType : UInt16
  iAppId : Int
  iModuleId : Int
  dwCfgId : UInt32
  dwLogSeq : UInt32
  stCust : Cust
  text : Bytes

/-- The rings of the shared memory, and the list for the records that found no
ring or no config. -/
inductive Ring where
  | shm (i : Fin 3)
  | spec
  deriving DecidableEq

/-- `MTLOG_SHM_RECORDS_COUNT` and `MTLOG_LOG_SPECIAL_COUNT` -/
def Ring.count : Ring → Nat
  | .shm _ => recordsCount
  | .spec => 2000

/-- `MtReport_Log_To_Spec` does not save the custom fields.
mirrors mt_log.c:906-909 -/
def saveCust (r : Ring) (g : Pool) (c : Call) : Pool × Int :=
  match r with
  | .shm _ =>
    if c.stCust.bCustFlag ≠ 0 then g.saveToVmem (saveLogCust c.stCust) c.now else (g, 0)
  | .spec => (g, 0)

/-- mirrors mt_log.c:917-927 -/
def saveText (g : Pool) (c : Call) : Pool × Int :=
  if (formatLog c.text).length < sLogContentLen then (g, -1)
  else g.saveToVmem ((formatLog c.text).drop (sLogContentLen - 4)) c.now

def Call.toLogCall (c : Call) (custVmemRet saveVmemRet : Int) : LogCall where
  tvSec := c.tvSec
  tvUsec := c.tvUsec
  iLogType := c.iLogType
  iAppId := c.iAppId
  iModuleId := c.iModuleId
  dwCfgId := c.dwCfgId
  dwLogSeq := c.dwLogSeq
  bCustFlag := c.stCust.bCustFlag ≠ 0
  custVmemRet := custVmemRet
  sLogBuf := formatLog c.text
  saveVmemRet := saveVmemRet

/-- A record of the special list keeps the application and the custom handle that
its cell had.
mirrors mt_log.c:396-438 -/
def newRecord (r : Ring) (old : MTLog) (c : LogCall) : MTLog :=
  match r with
  | .shm _ => c.record
  | .spec => { c.record with
      iCustVmemIndex := old.iCustVmemIndex, iAppId := old.iAppId, iModuleId := old.iModuleId }

/-- The cell is taken at `iWriteIndex`, in a ring as in the special list.
mirrors mt_log.c:879-888 and 378-394 -/
def putRecord (r : Ring) (m : MTLogShm) (plog : MTLog) : MTLogShm where
  iWriteIndex := next r.count m.iWriteIndex
  iLogStarIndex := if m.iLogStarIndex < 0 then m.iWriteIndex else m.iLogStarIndex
  sLogList := update m.sLogList m.iWriteIndex plog

/-! ## Reading -/

/-- `sizeof(LogInfo)` -/
def logInfoSize : Nat := 30

/-- `MYSIZEOF(sLogBuf)` of `ReadAppLogToBuf` -/
def sLogBufLen : Nat := logMaxLength + 256

theorem sLogBufLen_eq : sLogBufLen = 1280 := rfl

theorem logInfoSize_eq : logInfoSize = 30 := rfl

theorem fmtLimit_eq : fmtLimit = 1056 := rfl

/-- `MAX_APP_LOG_PKG_LENGTH` -/
def maxAppLogPkgLength : Nat := 1200

/-- `MAX_APP_TYPE_READ_PER_EACH` -/
def maxAppTypeRead : Nat := 10

structure TAppLogRead where
  iReadAppId : Int
  iAppInfoIdx : Nat
  sAppLogBuf : Bytes

/-- What `ReadAppLogToBuf` works on: the vmem, its static buffer and the packets
in `stConfig`. -/
structure Agent where
  pool : Pool
  sLogBuf : ByteFile
  bReadAppTypeCount : Nat
  stAppLogRead : Nat → TAppLogRead

structure SLogConfig where
  dwCfgId : UInt32
  iAppId : Int
  iModuleId : Int
  iLogType : UInt32

/-- The lists of the applications and of the log configs. -/
structure Config where
  stAppConfigList : List Int
  stLogConfig : List SLogConfig

/-- The fields of `LogInfo` before `wCustDataLen`, in network order.
mirrors mtreport_client.cpp:1328-1333 -/
def logInfo (plog : MTLog) : Bytes :=
  uint32.rev.put plog.dwLogSeq ++ uint32.rev.put (UInt32.ofInt plog.iAppId) ++
    uint32.rev.put (UInt32.ofInt plog.iModuleId) ++
    uint32.rev.put plog.dwLogConfigId ++ uint16.rev.put plog.wLogType ++
    uint64.rev.put plog.qwLogTime

/-- The custom data, with its length and the handle left in the record;
mirrors mtreport_client.cpp:1335-1350 -/
def takeCust (now : Nat) (a : Agent) (plog : MTLog) : Option (Agent × Nat × Int) :=
  if 0 < plog.iCustVmemIndex then do
    let res ← a.pool.getFromVmem plog.iCustVmemIndex (sLogBufLen - logInfoSize)
    let a := { a with sLogBuf := a.sLogBuf.write logInfoSize res.pbuf }
    if 0 ≤ res.ret then
      let freed ← a.pool.freeVmem plog.iCustVmemIndex now
      pure ({ a with pool := freed.1 }, res.piBufLen.toNat, 0)
    else pure (a, 0, plog.iCustVmemIndex)
  else pure (a, 0, plog.iCustVmemIndex)

/-- The text behind `iCust` bytes of custom data, with its length and the handle
left in the record;
mirrors mtreport_client.cpp:1352-1373 -/
def takeText (now : Nat) (iCust : Nat) (a : Agent) (plog : MTLog) : Option (Agent × Nat × Int) :=
  let pbuf := logInfoSize + iCust
  if plog.iVarmemIndex < 0 then
    pure ({ a with sLogBuf := a.sLogBuf.write pbuf (plog.sLogContent ++ [0]) },
      plog.sLogContent.length + 1, plog.iVarmemIndex)
  else do
    let iKept := sLogContentLen - 4
    let res ← a.pool.getFromVmem plog.iVarmemIndex (sLogBufLen - pbuf - iKept - 1)
    let freed ← a.pool.freeVmem plog.iVarmemIndex now
    -- no terminator is written behind the text, but it is counted
    pure ({ a with
        pool := freed.1
        sLogBuf := (a.sLogBuf.write pbuf (plog.sLogContent.take iKept)).write (pbuf + iKept)
          res.pbuf },
      if 0 ≤ res.ret then iKept + (res.piBufLen.toNat + 1) else iKept, 0)

/-- The packet that the record goes to, and the return code; `none` is a failed
`assert`.
mirrors mtreport_client.cpp:1380-1409 -/
def toPacket (cfg : Config) (a : Agent) (iAppId : Int) (log : Bytes) : Option (Agent × Int) :=
  let fits (i : Nat) : Bool := (a.stAppLogRead i).iReadAppId = iAppId ∧
    log.length + (a.stAppLogRead i).sAppLogBuf.length ≤ maxAppLogPkgLength
  match (List.range a.bReadAppTypeCount).find? fits with
  | some i =>
    let pkg := a.stAppLogRead i
    let pkg := { pkg with sAppLogBuf := pkg.sAppLogBuf ++ log }
    some ({ a with stAppLogRead := update a.stAppLogRead i pkg }, 0)
  | none =>
    if maxAppTypeRead ≤ a.bReadAppTypeCount then some (a, -1)
    else if maxAppLogPkgLength ≤ log.length then none
    else
      let pkg := a.stAppLogRead a.bReadAppTypeCount
      let put (idx : Nat) := update a.stAppLogRead a.bReadAppTypeCount ⟨iAppId, idx, log⟩
      match cfg.stAppConfigList.findIdx? (· = iAppId) with
      | some i => some ({ a with
          stAppLogRead := put i, bReadAppTypeCount := a.bReadAppTypeCount + 1 }, 0)
      | none => some ({ a with stAppLogRead := put pkg.iAppInfoIdx }, 0)

/-- mirrors mtreport_client.cpp:1319-1409 -/
def readAppLogToBuf (cfg : Config) (now : Nat) (a : Agent) (plog : MTLog) :
    Option (Agent × BufRes) := do
  if plog.iAppId = 0 ∨ plog.iModuleId = 0 then none
  let a := { a with sLogBuf := a.sLogBuf.write 0 (logInfo plog) }
  let (a, iCust, iCustVmemIndex) ← takeCust now a plog
  let a := { a with sLogBuf := uint16.rev.write a.sLogBuf 26 (ofNat iCust) }
  let (a, iLogContentLen, iVarmemIndex) ← takeText now iCust a plog
  let a := { a with
    sLogBuf := uint16.rev.write a.sLogBuf 28 (ofNat iLogContentLen) }
  let log ← a.sLogBuf.read 0 (logInfoSize + iCust + iLogContentLen)
  let (a, ret) ← toPacket cfg a plog.iAppId log
  pure (a, ⟨ret, iCustVmemIndex, iVarmemIndex⟩)

/-- The `wLogDataLen` bytes behind the custom data of the record in the buffer. -/
def logText (sLogBuf : ByteFile) : Option Bytes := do
  let wCustDataLen ← uint16.rev.read sLogBuf 26
  let wLogDataLen ← uint16.rev.read sLogBuf 28
  sLogBuf.read (logInfoSize + wCustDataLen.toNat) wLogDataLen.toNat

/-- What a drain does with a record of the special list. -/
inductive Allow where
  | wait
  | skip
  | read (plog : MTLog)

/-- mirrors mtreport_client.cpp:1432-1457 -/
def allow (cfg : Config) (qwCurTime : UInt64) (r : Ring) (plog : MTLog) : Allow :=
  match r with
  | .shm _ => .read plog
  | .spec =>
    if plog.iAppId = 0 then
      match cfg.stLogConfig.find? (·.dwCfgId = plog.dwLogConfigId) with
      | none => if plog.qwLogTime + 120000000 ≤ qwCurTime then .skip else .wait
      | some pcfg =>
        if pcfg.iLogType &&& plog.wLogType.toUInt32 = 0 then .skip
        else .read { plog with iAppId := pcfg.iAppId, iModuleId := pcfg.iModuleId }
    else .read plog

/-- Whether the drain passes a record that is still being written: the test of the
rings is the one of the special list the other way round. -/
def passes (r : Ring) (now : UInt32) (plog : MTLog) : Bool :=
  let t := (plog.qwLogTime / 1000000 + 5).toUInt32
  match r with
  | .shm _ => now ≤ t
  | .spec => t ≤ now

def incStar (r : Ring) (m : MTLogShm) : MTLogShm :=
  { m with iLogStarIndex := next r.count m.iLogStarIndex.toNat }

/-- Behind the loop over a ring. -/
def leave (m : MTLogShm) : MTLogShm :=
  if m.iLogStarIndex = m.iWriteIndex then { m with iLogStarIndex := -1 } else m

/-! ## Runs -/

/-- What a call of `MtReport_Log` logged: the message and the custom data that the
vmem took. -/
structure Logged where
  text : Bytes
  cust : Bytes
  cust_le : cust.length ≤ 65

/-- `logged` is the last call that wrote a cell. -/
structure Sys where
  rings : Ring → MTLogShm
  agent : Agent
  logged : Ring × Nat → Option Logged

def Sys.cell (s : Sys) (p : Ring × Nat) : MTLog := (s.rings p.1).sLogList p.2

def Sys.setRing (s : Sys) (r : Ring) (m : MTLogShm) : Sys :=
  { s with rings := update s.rings r m }

def logOf (c : Call) (custVmemRet : Int) : Logged where
  text := c.text
  cust := if 0 < custVmemRet then saveLogCust c.stCust else []
  cust_le := by
    split
    · exact length_saveLogCust _
    · exact Nat.zero_le _

/-- A call of `MtReport_Log` that puts its record into `r`. -/
def log (r : Ring) (c : Call) (s : Sys) : Sys :=
  let cust := saveCust r s.agent.pool c
  let text := saveText cust.1 c
  let m := s.rings r
  let plog := newRecord r (m.sLogList m.iWriteIndex) (c.toLogCall cust.2 text.2)
  { s.setRing r (putRecord r m plog) with
    agent := { s.agent with pool := text.1 }
    logged := update s.logged (r, m.iWriteIndex) (some (logOf c cust.2)) }

/-- One round of the loop of `ReadAppLog` over `r`, or what stands behind it;
mirrors mtreport_client.cpp:1417-1500 -/
def round (cfg : Config) (r : Ring) (now : UInt32) (qwCurTime : UInt64) (s : Sys) : Option Sys :=
  let m := s.rings r
  if 0 ≤ m.iLogStarIndex ∧ m.iLogStarIndex ≠ m.iWriteIndex then
    let plog := m.sLogList m.iLogStarIndex.toNat
    if plog.dwLogSeq = 0 then
      some (s.setRing r (leave (if passes r now plog then incStar r m else m)))
    else
      match allow cfg qwCurTime r plog with
      | .wait => some s
      | .skip => some (s.setRing r (incStar r m))
      | .read plog => do
        let (agent, b) ← readAppLogToBuf cfg now.toNat s.agent plog
        let m := { m with
          sLogList := update m.sLogList m.iLogStarIndex.toNat (plog.setHandles b) }
        pure (Sys.setRing { s with agent := agent } r (if b.ret < 0 then m else incStar r m))
  else some (s.setRing r (leave m))

inductive Label where
  | log (r : Ring) (c : Call)
  /-- `bReadAppTypeCount` is set to 0 before a drain. -/
  | start
  | round (r : Ring) (now : UInt32) (qwCurTime : UInt64)

def step (cfg : Config) (s : Sys) : Label → Option Sys
  | .log r c => some (log r c s)
  | .start => some { s with agent := { s.agent with bReadAppTypeCount := 0 } }
  | .round r now qwCurTime => round cfg r now qwCurTime s

/-! ## One call of `ReadAppLogToBuf` -/

/-- The note is never part of the string. -/
theorem formatLog_cut (text : Bytes) :
    formatLog text = (text.take (fmtLimit - 1)).takeWhile (· ≠ 0) := by
  simp only [formatLog]
  have hle : (text.take (fmtLimit - 1)).length < fmtLimit := by rw [fmtLimit_eq, length_take]; omega
  generalize text.take (fmtLimit - 1) = printed at hle
  obtain ⟨k, hk⟩ := Nat.exists_eq_add_of_lt hle
  rw [show fmtLimit - printed.length = k + 1 by omega, replicate_succ, append_assoc,
    takeWhile_append]
  split
  · rename_i hall
    rw [( takeWhile_prefix _).eq_of_length hall]
    simp
  · rfl

theorem formatLog_eq {text : Bytes} (h0 : 0 ∉ text) (h : text.length < fmtLimit) :
    formatLog text = text := by
  have hall : ∀ x ∈ text, decide (x ≠ 0) = true := fun x hx =>
    decide_eq_true fun hx0 => h0 (hx0 ▸ hx)
  rw [formatLog_cut, take_of_length_le (by omega)]
  simpa using @takeWhile_append_of_pos _ _ text [] hall

/-- The handles that stay live when `h` is freed. -/
def Without (live : List (Int × Bytes)) (h : Int) (live' : List (Int × Bytes)) : Prop :=
  ∀ q ∈ live, q.1 ≠ h → q ∈ live'

section Call

variable {a : Agent} {live : List (Int × Bytes)} {pend : List (NodeLen × Nat × Nat)} {plog : MTLog}
  {m : Logged} {g : Pool} {c : Nat}

theorem freeVmem_live {p : Int × Bytes} (h : PoolInv g live pend) (hp : p ∈ live) (now : Nat) :
    ∃ g' live', g.freeVmem p.1 now = some (g', 0) ∧ PoolInv g' live' pend ∧
      Without live p.1 live' := by
  obtain ⟨g', hf, hg'⟩ := (h.perm (perm_cons_erase hp) (List.Perm.refl pend)).freeVmem now
  exact ⟨g', live.erase p, hf, hg', fun q hq hne =>
    (mem_erase_of_ne fun he => hne (congrArg Prod.fst he)).2 hq⟩

/-- How many bytes of custom data are read. -/
def custLen (plog : MTLog) (m : Logged) : Nat := if 0 < plog.iCustVmemIndex then m.cust.length else 0

theorem custLen_le_length (plog : MTLog) (m : Logged) : custLen plog m ≤ m.cust.length := by
  unfold custLen
  split
  · exact le_refl _
  · exact Nat.zero_le _

theorem custLen_le (plog : MTLog) (m : Logged) : custLen plog m ≤ 65 :=
  le_trans (custLen_le_length plog m) m.cust_le

theorem takeCust_spec (hp : PoolInv a.pool live pend) (hs : a.sLogBuf.size = sLogBufLen)
    (hc : 0 < plog.iCustVmemIndex → (plog.iCustVmemIndex, m.cust) ∈ live) (now : Nat) :
    ∃ a' live', takeCust now a plog =
        some (a', custLen plog m, if 0 < plog.iCustVmemIndex then 0 else plog.iCustVmemIndex) ∧
      PoolInv a'.pool live' pend ∧ Without live plog.iCustVmemIndex live' ∧
      a.sLogBuf.Frame a'.sLogBuf logInfoSize (logInfoSize + custLen plog m) := by
  by_cases hpos : 0 < plog.iCustVmemIndex
  · have hlen : custLen plog m = m.cust.length := if_pos hpos
    have hmem := hc hpos
    have hle := m.cust_le
    have hroom : (m.cust.length : Int) ≤ (sLogBufLen : Int) - (logInfoSize : Int) := by
      rw [sLogBufLen_eq, logInfoSize_eq]
      omega
    have hget := hp.getFromVmem hmem hroom
    obtain ⟨g', live', hf, hg', hw⟩ := freeVmem_live hp hmem now
    refine ⟨{ a with pool := g', sLogBuf := a.sLogBuf.write logInfoSize m.cust }, live', ?_, hg',
      hw, ?_⟩
    · simp only [takeCust, hlen, if_pos hpos, hget, hf]
      rfl
    · rw [hlen]
      refine .write ?_ (le_refl _) (le_refl _)
      omega
  · refine ⟨a, live, ?_, hp, fun q hq _ => hq, .refl _ _ _⟩
    rw [takeCust, custLen, if_neg hpos, if_neg hpos, if_neg hpos]
    rfl

/-- A call of `takeText` that leaves the bytes `bs` behind the custom data. -/
def TakesText (now c : Nat) (a : Agent) (plog : MTLog) (live : List (Int × Bytes))
    (pend : List (NodeLen × Nat × Nat)) (bs : Bytes) : Prop :=
  ∃ a' live', takeText now c a plog =
      some (a', bs.length, if plog.iVarmemIndex < 0 then plog.iVarmemIndex else 0) ∧
    PoolInv a'.pool live' pend ∧ Without live plog.iVarmemIndex live' ∧
    a.sLogBuf.Frame a'.sLogBuf (logInfoSize + c) sLogBufLen ∧
    a'.sLogBuf.read (logInfoSize + c) bs.length = some bs

theorem takeText_short (hp : PoolInv a.pool live pend)
    (hs : a.sLogBuf.size = sLogBufLen) (hc : c ≤ 65) (hv : plog.iVarmemIndex < 0)
    (hlen : plog.sLogContent.length < sLogContentLen) (now : Nat) :
    TakesText now c a plog live pend (plog.sLogContent ++ [0]) := by
  have hfit : logInfoSize + c + (plog.sLogContent ++ [0]).length ≤ sLogBufLen := by
    rw [length_append, length_singleton, sLogBufLen_eq, logInfoSize_eq]
    have : sLogContentLen = 256 := rfl
    omega
  refine ⟨{ a with sLogBuf := a.sLogBuf.write (logInfoSize + c) (plog.sLogContent ++ [0]) }, live,
    ?_, hp, fun q hq _ => hq, .write (hs ▸ hfit) (le_refl _) hfit, ByteFile.read_write _ _ _⟩
  rw [takeText, if_pos hv, if_pos hv, length_append]
  rfl

/-- The terminator is the byte that the buffer held there. -/
theorem takeText_long (hp : PoolInv a.pool live pend)
    (hs : a.sLogBuf.size = sLogBufLen) (hc : c ≤ 65) (hv : 0 < plog.iVarmemIndex)
    (hlo : sLogContentLen ≤ m.text.length) (hhi : m.text.length < fmtLimit)
    (hl : (plog.iVarmemIndex, m.text.drop (sLogContentLen - 4)) ∈ live)
    (hct : plog.sLogContent = m.text.take sLogContentLen) (now : Nat) :
    TakesText now c a plog live pend
      (m.text ++ [a.sLogBuf.byte (logInfoSize + c + m.text.length)]) := by
  have hneg : ¬ plog.iVarmemIndex < 0 := Int.not_lt.2 (Int.le_of_lt hv)
  have hfit : logInfoSize + c + m.text.length < a.sLogBuf.size := by
    rw [hs, sLogBufLen_eq, logInfoSize_eq]
    have := fmtLimit_eq
    omega
  have hkept : plog.sLogContent.take (sLogContentLen - 4) = m.text.take (sLogContentLen - 4) := by
    rw [hct, take_take, min_eq_left (Nat.sub_le _ _)]
  have hlen : (m.text.take (sLogContentLen - 4)).length = sLogContentLen - 4 := by
    rw [length_take]
    omega
  have hroom : ((m.text.drop (sLogContentLen - 4)).length : Int) ≤
      (sLogBufLen : Int) - ((logInfoSize + c : Nat) : Int) - ((sLogContentLen - 4 : Nat) : Int) - 1 := by
    rw [length_drop]
    omega
  have hget := hp.getFromVmem hl hroom
  obtain ⟨g', live', hf, hg', hw⟩ := freeVmem_live hp hl now
  have hbuf : (a.sLogBuf.write (logInfoSize + c) (plog.sLogContent.take (sLogContentLen - 4))).write
      (logInfoSize + c + (sLogContentLen - 4)) (m.text.drop (sLogContentLen - 4)) =
        a.sLogBuf.write (logInfoSize + c) m.text := by
    have := a.sLogBuf.write_append (logInfoSize + c) (m.text.take (sLogContentLen - 4))
      (m.text.drop (sLogContentLen - 4))
    rwa [hlen, take_append_drop, ← hkept] at this
  have htotal : sLogContentLen - 4 + ((m.text.drop (sLogContentLen - 4)).length + 1) =
      m.text.length + 1 := by
    rw [length_drop]
    omega
  refine ⟨{ a with pool := g', sLogBuf := a.sLogBuf.write (logInfoSize + c) m.text }, live', ?_,
    hg', hw, .write (le_of_lt hfit) (le_refl _) (hs ▸ le_of_lt hfit), ?_⟩
  · simp only [takeText, if_neg hneg, hget, hf, hbuf, bind_eq_bind, bind_some, Int.toNat_natCast, htotal, length_append]
    rfl
  · rw [length_append]
    exact ByteFile.read_write_succ hfit

theorem getFromVmem_zero (h : PoolInv g live pend) (n : Int) :
    g.getFromVmem 0 n = some ⟨-3, [], n⟩ := by
  have hlen : NodeLen.ofLen (Pool.parseLen 0) = none := by decide
  have hidx : ¬ L2.Vmem.shmCount < Pool.parseTIdx 0 := by decide
  simp [Pool.getFromVmem, h.isInit, hidx, hlen]

theorem freeVmem_zero (h : PoolInv g live pend) (now : Nat) : g.freeVmem 0 now = some (g, -3) := by
  have hlen : NodeLen.ofLen (Pool.parseLen 0) = none := by decide
  have hidx : ¬ L2.Vmem.shmCount ≤ Pool.parseTIdx 0 := by decide
  simp [Pool.freeVmem, h.isInit, hidx, hlen]

/-- The handle of a record that was already taken is 0, which the vmem refuses. -/
theorem takeText_taken (hp : PoolInv a.pool live pend)
    (hs : a.sLogBuf.size = sLogBufLen) (hc : c ≤ 65) (hv : plog.iVarmemIndex = 0) (now : Nat) :
    ∃ bs, bs.length = sLogContentLen - 4 ∧ TakesText now c a plog live pend bs := by
  have hfit : logInfoSize + c + (sLogContentLen - 4) ≤ sLogBufLen := by
    rw [sLogBufLen_eq, logInfoSize_eq]
    have : sLogContentLen = 256 := rfl
    omega
  have hle : (plog.sLogContent.take (sLogContentLen - 4)).length ≤ sLogContentLen - 4 :=
    length_take_le _ _
  let f1 := a.sLogBuf.write (logInfoSize + c) (plog.sLogContent.take (sLogContentLen - 4))
  let f2 := f1.write (logInfoSize + c + (sLogContentLen - 4)) []
  have hf1 : a.sLogBuf.Frame f1 (logInfoSize + c) sLogBufLen :=
    .write (by omega) (le_refl _) (by omega)
  have hf2 : f1.Frame f2 (logInfoSize + c) sLogBufLen :=
    .write (by rw [hf1.size, hs]; exact hfit) (Nat.le_add_right _ _) hfit
  have hframe := hf1.trans hf2
  obtain ⟨bs, hread, hlen⟩ : ∃ bs, f2.read (logInfoSize + c) (sLogContentLen - 4) = some bs ∧
      bs.length = sLogContentLen - 4 :=
    ByteFile.exists_read (by rw [hframe.size, hs]; exact hfit)
  refine ⟨bs, hlen, { a with sLogBuf := f2 }, live, ?_, hp, fun q hq _ => hq, hframe,
    hlen.symm ▸ hread⟩
  have hneg : ¬ (0 : Int) < 0 := by decide
  have hret : ¬ (0 : Int) ≤ -3 := by decide
  simp only [takeText, hv, getFromVmem_zero hp, freeVmem_zero hp, hlen]
  rfl

/-- How a cell with these handles and this content holds the message of `m`. -/
inductive Stored (live : List (Int × Bytes)) (iCust iVarmem : Int) (content : Bytes)
    (m : Logged) : Prop where
  | short (hlen : m.text.length < sLogContentLen) (hv : iVarmem < 0) (hc : content = m.text)
  | long (hlen : sLogContentLen ≤ m.text.length) (hv : 0 < iVarmem)
      (hl : (iVarmem, m.text.drop (sLogContentLen - 4)) ∈ live)
      (hc : content = m.text.take sLogContentLen) (hcust : iCust ≤ 0 → m.cust = [])
  | taken (hlen : sLogContentLen ≤ m.text.length) (hv : iVarmem = 0)

/-- A cell that was not written yet, or that a call wrote last. -/
def CellOk (live : List (Int × Bytes)) (plog : MTLog) : Option Logged → Prop
  | none => plog.iCustVmemIndex ≤ 0 ∧ plog.iVarmemIndex = 0
  | some m => m.text.length < fmtLimit ∧
      (0 < plog.iCustVmemIndex → (plog.iCustVmemIndex, m.cust) ∈ live) ∧
      Stored live plog.iCustVmemIndex plog.iVarmemIndex plog.sLogContent m

/-- When the text of a record comes out whole. -/
def TextWhole (a : Agent) (plog : MTLog) (m : Logged) : Prop :=
  m.text.length < sLogContentLen ∨ (0 < plog.iVarmemIndex ∧
      a.sLogBuf.byte (logInfoSize + m.cust.length + m.text.length) = 0)

theorem takeText_some (hm : CellOk live plog (some m)) {live1 : List (Int × Bytes)}
    (hp : PoolInv a.pool live1 pend) (hs : a.sLogBuf.size = sLogBufLen)
    (hw : Without live plog.iCustVmemIndex live1)
    (hne : 0 < plog.iVarmemIndex → plog.iVarmemIndex ≠ plog.iCustVmemIndex) (now : Nat) :
    ∃ bs, bs.length ≤ fmtLimit ∧ TakesText now (custLen plog m) a plog live1 pend bs ∧
      (bs = m.text ++ [0] ↔ TextWhole a plog m) := by
  obtain ⟨hlim, -, hst⟩ := hm
  have hcl := custLen_le plog m
  have h256 : sLogContentLen = 256 := rfl
  cases hst with
  | short hlen hv hc =>
    refine ⟨_, ?_, takeText_short hp hs hcl hv (hc ▸ hlen) now, ?_⟩
    · rw [length_append, hc, length_singleton]
      omega
    · rw [hc]
      exact ⟨fun _ => .inl hlen, fun _ => rfl⟩
  | long hlen hv hl hc hcust =>
    refine ⟨_, ?_, takeText_long hp hs hcl hv hlen hlim (hw _ hl (hne hv)) hc now, ?_⟩
    · rw [length_append, length_singleton]
      omega
    have hcl' : custLen plog m = m.cust.length := by
      unfold custLen
      split
      · rfl
      · rename_i hpos
        rw [hcust (Int.not_lt.1 hpos)]
        rfl
    rw [hcl', append_cancel_left_eq, singleton_inj]
    exact ⟨fun h => .inr ⟨hv, h⟩, fun h => h.elim (fun h => absurd h (not_lt.2 hlen)) (·.2)⟩
  | taken hlen hv =>
    obtain ⟨bs, hbs, ht⟩ := takeText_taken hp hs hcl hv now
    refine ⟨bs, by omega, ht, ⟨fun h => ?_, fun h => ?_⟩⟩
    · have := congrArg List.length h
      rw [length_append] at this
      omega
    · rw [TextWhole] at h
      omega

theorem toPacket_some (cfg : Config) (a : Agent) (iAppId : Int) (log : Bytes)
    (h : log.length < maxAppLogPkgLength) :
    ∃ a' ret, toPacket cfg a iAppId log = some (a', ret) ∧ a'.pool = a.pool ∧
      a'.sLogBuf = a.sLogBuf := by
  unfold toPacket
  dsimp only
  split
  · exact ⟨_, _, rfl, rfl, rfl⟩
  split
  · exact ⟨_, _, rfl, rfl, rfl⟩
  rw [if_neg (not_le.2 h)]
  split
  · exact ⟨_, _, rfl, rfl, rfl⟩
  · exact ⟨_, _, rfl, rfl, rfl⟩

/-- What a call of `ReadAppLogToBuf` on a cell leaves: the handles are freed, and the
text is whole exactly if it could be. -/
structure Reads (a : Agent) (live : List (Int × Bytes)) (pend : List (NodeLen × Nat × Nat))
    (plog : MTLog) (m : Logged) (a' : Agent) (b : BufRes) : Prop where
  pool : ∃ live', PoolInv a'.pool live' pend ∧
    ∀ q ∈ live, q.1 ≠ plog.iCustVmemIndex → q.1 ≠ plog.iVarmemIndex → q ∈ live'
  size : a'.sLogBuf.size = sLogBufLen
  cust : b.iCustVmemIndex = if 0 < plog.iCustVmemIndex then 0 else plog.iCustVmemIndex
  text : b.iVarmemIndex = if plog.iVarmemIndex < 0 then plog.iVarmemIndex else 0
  whole : logText a'.sLogBuf = some (m.text ++ [0]) ↔ TextWhole a plog m

theorem length_logInfo (plog : MTLog) : (logInfo plog).length = 26 := by
  rfl

/-- The two lengths in the header and the text behind them. -/
theorem logText_eq {f g : ByteFile} {bs : Bytes} (hc : c ≤ 65)
    (hbs : bs.length ≤ fmtLimit) (hs : g.size = sLogBufLen)
    (hf : (uint16.rev.write f 26 (ofNat c)).Frame g (logInfoSize + c) sLogBufLen)
    (hread : g.read (logInfoSize + c) bs.length = some bs) :
    logText (uint16.rev.write g 28 (ofNat bs.length)) = some bs := by
  have hlim := fmtLimit_eq
  have hlast : g.Frame (uint16.rev.write g 28 (ofNat bs.length)) 28 logInfoSize :=
    uint16.rev.frame_write (by rw [hs]; decide) (le_refl _) (by decide) _
  have h26 : uint16.rev.read (uint16.rev.write g 28 (ofNat bs.length)) 26 =
      some (ofNat c) := by
    rw [uint16.rev.read_frame hlast (.inl (by decide)),
      uint16.rev.read_frame hf (.inl (le_trans (by decide) (Nat.le_add_right _ c))),
      read_write]
  have hlt : ∀ n, n ≤ fmtLimit → (ofNat n).toNat = n := fun n hn =>
    toNat_ofNat_of_lt' (by show _ < 65536; omega)
  have hcn := hlt c (by omega)
  have hbn := hlt bs.length hbs
  unfold logText
  simp only [h26, read_write, bind_eq_bind, bind_some, hcn, hbn]
  rw [hlast.read (.inr (Nat.le_add_right _ _)), hread]

theorem readAppLogToBuf_spec (hok : CellOk live plog (some m))
    (hp : PoolInv a.pool live pend) (hs : a.sLogBuf.size = sLogBufLen)
    (hne : 0 < plog.iVarmemIndex → plog.iVarmemIndex ≠ plog.iCustVmemIndex)
    (hid : plog.iAppId ≠ 0 ∧ plog.iModuleId ≠ 0) (cfg : Config) (now : Nat) :
    ∃ a' b, readAppLogToBuf cfg now a plog = some (a', b) ∧ Reads a live pend plog m a' b := by
  have hcl := custLen_le plog m
  let a1 : Agent := { a with sLogBuf := a.sLogBuf.write 0 (logInfo plog) }
  have hf1 : a.sLogBuf.Frame a1.sLogBuf 0 logInfoSize :=
    .write (by rw [hs, length_logInfo]; decide) (le_refl _) (by rw [length_logInfo]; decide)
  obtain ⟨a2, live2, he2, hp2, hw2, hf2⟩ := takeCust_spec (a := a1) hp (hf1.size.trans hs) hok.2.1 now
  let a3 : Agent := { a2 with
    sLogBuf := uint16.rev.write a2.sLogBuf 26 (ofNat (custLen plog m)) }
  have hs2 : a2.sLogBuf.size = sLogBufLen := (hf2.size.trans hf1.size).trans hs
  have hf3 : a2.sLogBuf.Frame a3.sLogBuf 26 logInfoSize :=
    uint16.rev.frame_write (by rw [hs2]; decide) (le_refl _) (by decide) _
  obtain ⟨bs, hbs, ⟨a4, live4, he4, hp4, hw4, hf4, hr4⟩, hiff⟩ :=
    takeText_some (a := a3) hok hp2 (hf3.size.trans hs2) hw2 hne now
  let a5 : Agent := { a4 with
    sLogBuf := uint16.rev.write a4.sLogBuf 28 (ofNat bs.length) }
  have hs4 : a4.sLogBuf.size = sLogBufLen := (hf4.size.trans hf3.size).trans hs2
  have hf5 : a4.sLogBuf.Frame a5.sLogBuf 28 logInfoSize :=
    uint16.rev.frame_write (by rw [hs4]; decide) (le_refl _) (by decide) _
  have hs5 : a5.sLogBuf.size = sLogBufLen := hf5.size.trans hs4
  have htotal : logInfoSize + custLen plog m + bs.length < maxAppLogPkgLength := by
    have := fmtLimit_eq
    rw [logInfoSize_eq, show maxAppLogPkgLength = 1200 from rfl]
    omega
  obtain ⟨log, hlog, hlen⟩ : ∃ log, a5.sLogBuf.read 0 (logInfoSize + custLen plog m + bs.length) =
      some log ∧ log.length = logInfoSize + custLen plog m + bs.length :=
    ByteFile.exists_read (by
      rw [hs5, zero_add]
      exact le_trans (le_of_lt htotal) (by decide))
  obtain ⟨a6, ret, he6, hp6, hb6⟩ := toPacket_some cfg a5 plog.iAppId log (hlen ▸ htotal)
  -- behind the custom data nothing has changed before the text is written
  have hold : ∀ k, logInfoSize + custLen plog m ≤ k → a3.sLogBuf.byte k = a.sLogBuf.byte k := by
    intro k hk
    have hk' : logInfoSize ≤ k := le_trans (Nat.le_add_right _ _) hk
    rw [hf3.byte k (.inr hk'), hf2.byte k (.inr hk), hf1.byte k (.inr hk')]
  refine ⟨a6, ⟨ret, if 0 < plog.iCustVmemIndex then 0 else plog.iCustVmemIndex,
    if plog.iVarmemIndex < 0 then plog.iVarmemIndex else 0⟩, ?_, ?_⟩
  · have hid' : ¬ (plog.iAppId = 0 ∨ plog.iModuleId = 0) := not_or.2 hid
    unfold readAppLogToBuf
    simp only [if_neg hid', he2, he4, hlog, he6, bind_eq_bind, bind_some,
      Option.pure_def, a1, a3, a5] at he2 he4 he6 ⊢
  · exact
      { pool := ⟨live4, hp6 ▸ hp4, fun q hq hc hv => hw4 q (hw2 q hq hc) hv⟩
        size := hb6 ▸ hs5
        cust := rfl
        text := rfl
        whole := by
          rw [hb6, logText_eq hcl hbs hs4 hf4 hr4, some_inj, hiff]
          unfold TextWhole
          have hle := custLen_le_length plog m
          rw [hold _ (by omega)] }

end Call

/-! ## The unread records -/

/-- Every cell of a ring was written by a call, or those in front of `iWriteIndex`
were, where the unread ones are. -/
structure UnreadOk (n : Nat) (m : MTLogShm) (lg : Nat → Option Logged) : Prop where
  write : m.iWriteIndex < n
  star : m.iLogStarIndex < n
  logged : (∀ k < n, lg k ≠ none) ∨
    (m.iLogStarIndex ≤ m.iWriteIndex ∧ ∀ k < m.iWriteIndex, lg k ≠ none)

def AllUnread (s : Sys) : Prop := ∀ r, UnreadOk r.count (s.rings r) fun k => s.logged (r, k)

variable {s s' : Sys} {live : List (Int × Bytes)} {pend : List (NodeLen × Nat × Nat)} {plog : MTLog}
  {lg : Option Logged} {r : Ring} {m : MTLogShm} {g : Pool} {cfg : Config} {t : UInt64}

section Unread

variable {n : Nat} {lg : Nat → Option Logged}

theorem UnreadOk.unread (h : UnreadOk n m lg)
    (hun : 0 ≤ m.iLogStarIndex ∧ m.iLogStarIndex ≠ m.iWriteIndex) :
    lg m.iLogStarIndex.toNat ≠ none := by
  have hs := h.star
  rcases h.logged with hall | ⟨hle, hall⟩
  · exact hall _ (by omega)
  · exact hall _ (by omega)

theorem UnreadOk.putRecord (h : UnreadOk r.count m lg) (plog : MTLog) (l : Logged) :
    UnreadOk r.count (putRecord r m plog) (update lg m.iWriteIndex (some l)) := by
  have hw := h.write
  have hs := h.star
  have hstar : (LogText.putRecord r m plog).iLogStarIndex =
      if m.iLogStarIndex < 0 then (m.iWriteIndex : Int) else m.iLogStarIndex := rfl
  have hnext : (LogText.putRecord r m plog).iWriteIndex = next r.count m.iWriteIndex := rfl
  have hlg : ∀ k, k = m.iWriteIndex ∨ lg k ≠ none → update lg m.iWriteIndex (some l) k ≠ none := by
    intro k hk
    by_cases hkw : k = m.iWriteIndex
    · rw [hkw, update_self]
      exact some_ne_none l
    · rw [update_of_ne hkw]
      exact hk.resolve_left hkw
  refine ⟨?_, ?_, ?_⟩
  · rw [hnext, Circular.next]
    split <;> omega
  · rw [hstar]
    split <;> omega
  rcases h.logged with hall | ⟨hle, hall⟩
  · exact .inl fun k hk => hlg k (.inr (hall k hk))
  have hnew : ∀ k, k < m.iWriteIndex + 1 → update lg m.iWriteIndex (some l) k ≠ none :=
    fun k hk => hlg k ((Nat.lt_succ_iff_lt_or_eq.1 hk).symm.imp_right (hall k))
  by_cases hend : r.count ≤ m.iWriteIndex + 1
  · exact .inl fun k hk => hnew k (by omega)
  · refine .inr ⟨?_, fun k hk => hnew k ?_⟩
    · rw [hstar, hnext, Circular.next, if_neg hend]
      split <;> omega
    · rwa [hnext, Circular.next, if_neg hend] at hk

theorem UnreadOk.incStar (h : UnreadOk r.count m lg)
    (hun : 0 ≤ m.iLogStarIndex ∧ m.iLogStarIndex ≠ m.iWriteIndex) :
    UnreadOk r.count (incStar r m) lg := by
  have hw := h.write
  have hstar : (LogText.incStar r m).iLogStarIndex = (next r.count m.iLogStarIndex.toNat : Nat) := rfl
  refine ⟨hw, ?_, h.logged.imp_right fun ⟨hle, hall⟩ => ⟨?_, hall⟩⟩
  · rw [hstar, Circular.next]
    split <;> omega
  · rw [hstar, Circular.next]
    show _ ≤ (m.iWriteIndex : Int)
    split <;> omega

theorem UnreadOk.leave (h : UnreadOk n m lg) : UnreadOk n (leave m) lg := by
  unfold LogText.leave
  split
  · refine ⟨h.write, ?_, h.logged.imp_right fun ⟨_, hall⟩ => ⟨?_, hall⟩⟩
    · show (-1 : Int) < n
      omega
    · show (-1 : Int) ≤ m.iWriteIndex
      omega
  · exact h

end Unread

theorem AllUnread.setRing (h : AllUnread s) (hrings : s'.rings = update s.rings r m)
    (hlogged : ∀ r', r' ≠ r → ∀ k, s'.logged (r', k) = s.logged (r', k))
    (hm : UnreadOk r.count m fun k => s'.logged (r, k)) : AllUnread s' := by
  intro r'
  rw [hrings]
  by_cases hr : r' = r
  · subst hr
    rw [update_self]
    exact hm
  · rw [update_of_ne hr, show (fun k => s'.logged (r', k)) = fun k => s.logged (r', k) from
      funext (hlogged r' hr)]
    exact h r'

theorem logged_update (lg : Ring × Nat → Option Logged) (r : Ring) (k : Nat) (l : Option Logged) :
    (fun k' => update lg (r, k) l (r, k')) = update (fun k' => lg (r, k')) k l := by
  funext k'
  by_cases hk : k' = k
  · subst hk
    rw [update_self, update_self]
  · rw [update_of_ne hk, update_of_ne fun he => hk (Prod.mk.inj he).2]

theorem AllUnread.log (h : AllUnread s) (r : Ring) (c : Call) : AllUnread (log r c s) := by
  refine h.setRing rfl (fun r' hr k => update_of_ne (fun he => hr (Prod.mk.inj he).1) _ _) ?_
  rw [show (fun k => (LogText.log r c s).logged (r, k)) = update (fun k => s.logged (r, k))
    (s.rings r).iWriteIndex (some (logOf c (saveCust r s.agent.pool c).2)) from
      logged_update s.logged r _ _]
  exact (h r).putRecord _ _

/-! ## The invariant of a run -/

inductive Handle where
  | cust
  | text
  deriving DecidableEq

def handle (plog : MTLog) : Handle → Int
  | .cust => plog.iCustVmemIndex
  | .text => plog.iVarmemIndex

structure Inv (s : Sys) (live : List (Int × Bytes)) (pend : List (NodeLen × Nat × Nat)) :
    Prop where
  pool : PoolInv s.agent.pool live pend
  size : s.agent.sLogBuf.size = sLogBufLen
  unread : AllUnread s
  cell : ∀ p, CellOk live (s.cell p) (s.logged p)
  own : ∀ p q f g, 0 < handle (s.cell p) f → handle (s.cell p) f = handle (s.cell q) g →
    p = q ∧ f = g
  spec : ∀ k, (s.cell (.spec, k)).iCustVmemIndex ≤ 0

theorem CellOk.held (h : CellOk live plog lg) (f : Handle) (hf : 0 < handle plog f) :
    ∃ d, (handle plog f, d) ∈ live := by
  cases lg with
  | none =>
    cases f with
    | cust => exact absurd hf (Int.not_lt.2 h.1)
    | text => exact absurd hf (by rw [handle, h.2]; decide)
  | some m =>
    cases f with
    | cust => exact ⟨_, h.2.1 hf⟩
    | text =>
      cases h.2.2 with
      | short _ hv _ => exact absurd hf (Int.not_lt.2 (Int.le_of_lt hv))
      | long _ _ hl _ _ => exact ⟨_, hl⟩
      | taken _ hv => exact absurd hf (by rw [handle, hv]; decide)

theorem CellOk.mono {live' : List (Int × Bytes)}
    (hk : ∀ f d, 0 < handle plog f → (handle plog f, d) ∈ live → (handle plog f, d) ∈ live')
    (h : CellOk live plog lg) : CellOk live' plog lg := by
  cases lg with
  | none => exact h
  | some m =>
    refine ⟨h.1, fun hpos => hk .cust _ hpos (h.2.1 hpos), ?_⟩
    cases h.2.2 with
    | short hlen hv hc => exact .short hlen hv hc
    | long hlen hv hl hc hcust => exact .long hlen hv (hk .text _ hv hl) hc hcust
    | taken hlen hv => exact .taken hlen hv

theorem Sys.cell_setRing_update {k : Nat} (h : m.sLogList = update (s.rings r).sLogList k plog) :
    (s.setRing r m).cell = update s.cell (r, k) plog := by
  funext p
  obtain ⟨r', k'⟩ := p
  show (update s.rings r m r').sLogList k' = update s.cell (r, k) plog (r', k')
  by_cases hr : r' = r
  · subst hr
    rw [update_self, h]
    by_cases hk : k' = k
    · subst hk
      rw [update_self, update_self]
    · rw [update_of_ne hk, update_of_ne fun he => hk (Prod.mk.inj he).2]
      rfl
  · rw [update_of_ne hr, update_of_ne fun he => hr (Prod.mk.inj he).1]
    rfl

theorem Sys.cell_setRing_same (h : m.sLogList = (s.rings r).sLogList) :
    (s.setRing r m).cell = s.cell := by
  rw [cell_setRing_update (h.trans (Function.update_eq_self 0 _).symm)]
  exact Function.update_eq_self (r, 0) s.cell

theorem Inv.setCell (h : Inv s live pend) (p : Ring × Nat) (plog : MTLog)
    (lg : Option Logged) {live' : List (Int × Bytes)}
    (hcell : s'.cell = update s.cell p plog)
    (hlogged : s'.logged = update s.logged p lg)
    (hpool : PoolInv s'.agent.pool live' pend) (hsize : s'.agent.sLogBuf.size = sLogBufLen)
    (hunread : AllUnread s')
    (hkeep : ∀ q, q ≠ p → ∀ f d, 0 < handle (s.cell q) f → (handle (s.cell q) f, d) ∈ live →
      (handle (s.cell q) f, d) ∈ live') (hok : CellOk live' plog lg)
    (hfresh : ∀ f, 0 < handle plog f → ∀ q, q ≠ p → ∀ g, handle (s.cell q) g ≠ handle plog f)
    (hne : 0 < plog.iVarmemIndex → plog.iVarmemIndex ≠ plog.iCustVmemIndex)
    (hspec : p.1 = .spec → plog.iCustVmemIndex ≤ 0) : Inv s' live' pend where
  pool := hpool
  size := hsize
  unread := hunread
  cell q := by
    rw [hcell, hlogged]
    by_cases hq : q = p
    · subst hq
      rw [update_self, update_self]
      exact hok
    · rw [update_of_ne hq, update_of_ne hq]
      exact (h.cell q).mono (hkeep q hq)
  own q q' f g hpos he := by
    rw [hcell] at hpos he
    by_cases hq : q = p
    · subst hq
      rw [update_self] at hpos he
      by_cases hq' : q' = q
      · subst hq'
        rw [update_self] at he
        refine ⟨rfl, ?_⟩
        cases f with
        | cust =>
          cases g with
          | cust => rfl
          | text => exact absurd he.symm (hne (lt_of_lt_of_eq hpos he))
        | text =>
          cases g with
          | cust => exact absurd he (hne hpos)
          | text => rfl
      · rw [update_of_ne hq'] at he
        exact absurd he.symm (hfresh f hpos q' hq' g)
    · rw [update_of_ne hq] at hpos he
      by_cases hq' : q' = p
      · subst hq'
        rw [update_self] at he
        exact absurd he (hfresh g (he ▸ hpos) q hq f)
      · rw [update_of_ne hq'] at he
        exact h.own q q' f g hpos he
  spec k := by
    rw [hcell]
    by_cases hk : (Ring.spec, k) = p
    · rw [← hk, update_self]
      exact hspec (hk ▸ rfl)
    · rw [update_of_ne hk]
      exact h.spec k

theorem Inv.same (h : Inv s live pend) (hunread : AllUnread s') (hcell : s'.cell = s.cell)
    (hlogged : s'.logged = s.logged) (hpool : s'.agent.pool = s.agent.pool)
    (hbuf : s'.agent.sLogBuf = s.agent.sLogBuf) : Inv s' live pend where
  pool := hpool ▸ h.pool
  size := hbuf ▸ h.size
  unread := hunread
  cell p := by rw [hcell, hlogged]; exact h.cell p
  own := by rw [hcell]; exact h.own
  spec := by rw [hcell]; exact h.spec

/-! ### Writing -/

/-- What a save leaves behind: `ret` is the handle of `d` if it is positive, and no
live one is equal to it. -/
structure Saves (live live' : List (Int × Bytes)) (ret : Int) (d : Bytes) : Prop where
  sub : live ⊆ live'
  mem : 0 < ret → (ret, d) ∈ live'
  fresh : 0 < ret → ∀ d', (ret, d') ∉ live

theorem Saves.none {ret : Int} (h : ret ≤ 0) (d : Bytes) : Saves live live ret d :=
  ⟨fun _ hq => hq, fun hpos => absurd hpos (Int.not_lt.2 h), fun hpos => absurd hpos (Int.not_lt.2 h)⟩

theorem saveToVmem_live (h : PoolInv g live pend) (d : Bytes) (now : Nat) :
    ∃ live', PoolInv (g.saveToVmem d now).1 live' pend ∧
      Saves live live' (g.saveToVmem d now).2 d := by
  rcases h.saveToVmem d now with ⟨hneg, hp⟩ | ⟨_, hp⟩
  · exact ⟨live, hp, .none (Int.le_of_lt hneg) d⟩
  · exact ⟨_, hp, fun _ hq => mem_cons_of_mem _ hq, fun _ => mem_cons_self, fun _ => hp.fresh⟩

theorem saveCust_spec (h : PoolInv g live pend) (r : Ring) (c : Call) :
    ∃ live', PoolInv (saveCust r g c).1 live' pend ∧
      Saves live live' (saveCust r g c).2 (saveLogCust c.stCust) := by
  unfold saveCust
  cases r with
  | shm i =>
    dsimp only
    split
    · exact saveToVmem_live h _ _
    · exact ⟨live, h, .none (Int.le_refl 0) _⟩
  | spec => exact ⟨live, h, .none (Int.le_refl 0) _⟩

theorem saveText_spec (h : PoolInv g live pend) (c : Call) :
    ∃ live', PoolInv (saveText g c).1 live' pend ∧
      Saves live live' (saveText g c).2 ((formatLog c.text).drop (sLogContentLen - 4)) := by
  unfold saveText
  split
  · exact ⟨live, h, .none (Int.neg_nonpos_of_nonneg (by decide)) _⟩
  · exact saveToVmem_live h _ _

/-- The messages of the runs: strings shorter than the limit of the format buffer,
and if they are long the vmem takes them. -/
def LogOk (s : Sys) : Label → Prop
  | .log r c => 0 ∉ c.text ∧ c.text.length < fmtLimit ∧
      (c.text.length < sLogContentLen ∨ 0 < (saveText (saveCust r s.agent.pool c).1 c).2)
  | _ => True

instance (s : Sys) : ∀ l, Decidable (LogOk s l)
  | .log _ _ => inferInstanceAs (Decidable (_ ∧ _ ∧ _))
  | .start => inferInstanceAs (Decidable True)
  | .round _ _ _ => inferInstanceAs (Decidable True)

theorem record_cust (c : LogCall) :
    c.record.iCustVmemIndex = if c.bCustFlag then c.custVmemRet else 0 := by
  unfold LogCall.record
  dsimp only
  split
  · rfl
  split
  · rfl
  · rfl

/-- In a ring the custom handle is what the save returned. -/
theorem newRecord_cust_shm (i : Fin 3) (old : MTLog) (c : Call) (g : Pool) (y : Int) :
    (newRecord (.shm i) old (c.toLogCall (saveCust (.shm i) g c).2 y)).iCustVmemIndex =
      (saveCust (.shm i) g c).2 := by
  show (LogCall.record _).iCustVmemIndex = _
  rw [record_cust]
  unfold saveCust Call.toLogCall
  by_cases hf : c.stCust.bCustFlag = 0
  · simp [hf]
  · simp [hf]

/-- **One call of `MtReport_Log`.** -/
theorem Inv.log (h : Inv s live pend) (r : Ring) (c : Call) (hok : LogOk s (.log r c)) :
    ∃ live', Inv (log r c s) live' pend := by
  obtain ⟨hnul, hlim, hsave⟩ := hok
  have hfmt := formatLog_eq hnul hlim
  obtain ⟨live1, hp1, hs1⟩ := saveCust_spec h.pool r c
  obtain ⟨live2, hp2, hs2⟩ := saveText_spec hp1 c
  rw [hfmt] at hs2
  generalize hx : (saveCust r s.agent.pool c).2 = x at hs1
  generalize hy : (saveText (saveCust r s.agent.pool c).1 c).2 = y at hs2 hsave
  let k := (s.rings r).iWriteIndex
  let plog := newRecord r (s.cell (r, k)) (c.toLogCall x y)
  have hcust : (0 < plog.iCustVmemIndex ∨ 0 < x → plog.iCustVmemIndex = x) ∧
      (r = .spec → plog.iCustVmemIndex ≤ 0) := by
    cases r with
    | shm i => exact ⟨fun _ => by simp only [plog, ← hx]; exact newRecord_cust_shm .., by simp⟩
    | spec =>
      have hle : plog.iCustVmemIndex ≤ 0 := h.spec k
      have hx0 : x = 0 := hx.symm
      exact ⟨by omega, fun _ => hle⟩
  have hdata : plog.iCustVmemIndex ≤ 0 → (logOf c x).cust = [] :=
    fun hle => if_neg fun hpos => by omega
  have hbuf : (c.toLogCall x y).sLogBuf = c.text := hfmt
  have htext : Stored live2 plog.iCustVmemIndex plog.iVarmemIndex plog.sLogContent (logOf c x) ∧
      (0 < plog.iVarmemIndex → plog.iVarmemIndex = y) := by
    obtain ⟨hv, hc⟩ : plog.iVarmemIndex = (c.toLogCall x y).record.iVarmemIndex ∧
        plog.sLogContent = (c.toLogCall x y).record.sLogContent := by
      cases r <;> exact ⟨rfl, rfl⟩
    unfold LogCall.record at hv hc
    rw [hbuf] at hv hc
    by_cases hlen : c.text.length < sLogContentLen
    · simp only [if_pos hlen] at hv hc
      exact ⟨.short hlen (by rw [hv]; decide) hc, fun hpos => absurd hpos (by rw [hv]; decide)⟩
    · have hpos := hsave.resolve_left hlen
      have hret : ¬ (c.toLogCall x y).saveVmemRet ≤ 0 := Int.not_le.2 hpos
      rw [if_neg hlen, if_neg hret] at hv hc
      exact ⟨.long (not_lt.1 hlen) (hv ▸ hpos) (hv ▸ hs2.mem hpos) hc hdata, fun _ => hv⟩
  refine ⟨live2, h.setCell (r, k) plog (some (logOf c x)) ?cell ?logged hp2
    h.size (h.unread.log r c) (fun _ _ _ _ _ hm => hs2.sub (hs1.sub hm)) ⟨hlim, ?cust, htext.1⟩ ?fresh ?ne ?inSpec⟩
  case cell =>
    simp only [plog, ← hx, ← hy]
    exact Sys.cell_setRing_update rfl
  case logged =>
    rw [← hx]
    rfl
  case cust =>
    intro hpos
    have hix := hcust.1 (.inl hpos)
    rw [hix] at hpos ⊢
    rw [show (logOf c x).cust = saveLogCust c.stCust from if_pos hpos]
    exact hs2.sub (hs1.mem hpos)
  case fresh =>
    intro f hf q _ g he
    obtain ⟨d, hd⟩ := (h.cell q).held g (he ▸ hf)
    rw [he] at hd
    cases f with
    | cust =>
      have hix : handle plog .cust = x := hcust.1 (.inl hf)
      rw [hix] at hf hd
      exact hs1.fresh hf d hd
    | text =>
      have hiy : handle plog .text = y := htext.2 hf
      rw [hiy] at hf hd
      exact hs2.fresh hf d (hs1.sub hd)
  case ne =>
    intro hpos he
    have hix := hcust.1 (.inl (he ▸ hpos))
    have hxy : y = x := ((htext.2 hpos).symm.trans he).trans hix
    rw [he, hix] at hpos
    rw [hxy] at hs2
    exact hs2.fresh hpos _ (hs1.mem hpos)
  case inSpec => exact hcust.2

/-! ### Reading -/

theorem Inv.ne (h : Inv s live pend) (p : Ring × Nat) (hpos : 0 < (s.cell p).iVarmemIndex) :
    (s.cell p).iVarmemIndex ≠ (s.cell p).iCustVmemIndex := by
  intro he
  exact absurd (h.own p p .text .cust hpos he).2 (by decide)

/-- What `allow` lets through differs from the cell in its application at most. -/
theorem allow_read {plog' : MTLog} (h : allow cfg t r plog = .read plog') :
    plog'.iCustVmemIndex = plog.iCustVmemIndex ∧ plog'.iVarmemIndex = plog.iVarmemIndex ∧
      plog'.sLogContent = plog.sLogContent := by
  unfold allow at h
  split at h
  · cases h
    exact ⟨rfl, rfl, rfl⟩
  split at h
  · split at h
    · split at h
      · cases h
      · cases h
    · split at h
      · cases h
      · cases h
        exact ⟨rfl, rfl, rfl⟩
  · cases h
    exact ⟨rfl, rfl, rfl⟩

/-- The cell after its handles were taken. -/
theorem CellOk.setHandles {a a' : Agent} {b : BufRes} {m : Logged}
    (hr : Reads a live pend plog m a' b) (hok : CellOk live plog (some m))
    (live' : List (Int × Bytes)) :
    CellOk live' (plog.setHandles b) (some m) ∧ ∀ f, handle (plog.setHandles b) f ≤ 0 := by
  have hcust : b.iCustVmemIndex ≤ 0 := by
    rw [hr.cust]
    split
    · exact Int.le_refl 0
    · exact Int.not_lt.1 ‹_›
  have htext : b.iVarmemIndex ≤ 0 := by
    rw [hr.text]
    split
    · exact Int.le_of_lt ‹_›
    · exact Int.le_refl 0
  refine ⟨⟨hok.1, fun hpos => absurd hpos (Int.not_lt.2 hcust), ?_⟩,
    fun f => by cases f with | cust => exact hcust | text => exact htext⟩
  show Stored live' b.iCustVmemIndex b.iVarmemIndex plog.sLogContent m
  rw [hr.text]
  cases hok.2.2 with
  | short hlen hv hc => exact .short hlen (by rw [if_pos hv]; exact hv) hc
  | long hlen hv _ _ _ => exact .taken hlen (if_neg (Int.not_lt.2 (Int.le_of_lt hv)))
  | taken hlen hv => exact .taken hlen (if_neg (by rw [hv]; decide))

@[simp] theorem leave_sLogList (m : MTLogShm) : (leave m).sLogList = m.sLogList := by
  unfold leave
  split
  · rfl
  · rfl

/-- The two `assert`s: the ids of a record that was read are not 0. -/
theorem ids_of_readAppLogToBuf {now : Nat} {a : Agent}
    {x : Agent × BufRes} (h : readAppLogToBuf cfg now a plog = some x) :
    plog.iAppId ≠ 0 ∧ plog.iModuleId ≠ 0 := by
  apply not_or.1
  intro hid
  unfold readAppLogToBuf at h
  rw [if_pos hid] at h
  cases h

/-- The unread record that a round reads is that of a logged message. -/
theorem Inv.reads (h : Inv s live pend)
    (hun : 0 ≤ (s.rings r).iLogStarIndex ∧ (s.rings r).iLogStarIndex ≠ (s.rings r).iWriteIndex)
    (hallow : allow cfg t r (s.cell (r, (s.rings r).iLogStarIndex.toNat)) = .read plog) :
    ∃ m, s.logged (r, (s.rings r).iLogStarIndex.toNat) = some m ∧ CellOk live plog (some m) ∧
      ∀ now, plog.iAppId ≠ 0 ∧ plog.iModuleId ≠ 0 → ∃ a' b,
        readAppLogToBuf cfg now s.agent plog = some (a', b) ∧
        Reads s.agent live pend plog m a' b := by
  let p : Ring × Nat := (r, (s.rings r).iLogStarIndex.toNat)
  obtain ⟨m, hl⟩ := ne_none_iff_exists'.1 ((h.unread r).unread hun)
  obtain ⟨hc, hv, ht⟩ := allow_read hallow
  have hcell : CellOk live (s.cell p) (some m) := hl ▸ h.cell p
  have hok : CellOk live plog (some m) := by
    unfold CellOk
    rw [hc, hv, ht]
    exact hcell
  refine ⟨m, hl, hok, fun now hid => readAppLogToBuf_spec hok h.pool h.size ?_ hid cfg now⟩
  rw [hc, hv]
  exact h.ne p

/-- **One round of a drain.** -/
theorem Inv.round (h : Inv s live pend) {now : UInt32} (he : round cfg r now t s = some s') :
    ∃ live', Inv s' live' pend := by
  have hu := h.unread r
  have hset : ∀ a m, UnreadOk r.count m (fun k => s.logged (r, k)) →
      AllUnread (Sys.setRing { s with agent := a } r m) := fun a m hm =>
    h.unread.setRing rfl (fun _ _ _ => rfl) hm
  have hsame : ∀ m, m.sLogList = (s.rings r).sLogList →
      UnreadOk r.count m (fun k => s.logged (r, k)) → Inv (s.setRing r m) live pend :=
    fun m hm hum => h.same (hset s.agent m hum) (Sys.cell_setRing_same hm) rfl rfl rfl
  unfold LogText.round at he
  dsimp only at he
  split at he
  case isFalse =>
    cases he
    exact ⟨live, hsame _ (leave_sLogList _) hu.leave⟩
  case isTrue hun =>
    split at he
    case isTrue =>
      cases he
      split
      · exact ⟨live, hsame _ (leave_sLogList _) (hu.incStar hun).leave⟩
      · exact ⟨live, hsame _ (leave_sLogList _) hu.leave⟩
    split at he
    case h_1 =>
      cases he
      exact ⟨live, h⟩
    case h_2 =>
      cases he
      exact ⟨live, hsame _ rfl (hu.incStar hun)⟩
    case h_3 plog hallow =>
      obtain ⟨⟨a', b⟩, hread, he⟩ := bind_eq_some_iff.1 he
      cases he
      let p : Ring × Nat := (r, (s.rings r).iLogStarIndex.toNat)
      have hcell := allow_read hallow
      obtain ⟨m, hl, hok, hreads⟩ := h.reads hun hallow
      obtain ⟨a1, b1, hread1, hr⟩ := hreads now.toNat (ids_of_readAppLogToBuf hread)
      cases hread.symm.trans hread1
      obtain ⟨live', hp', hkeep⟩ := hr.pool
      obtain ⟨hok', hle⟩ := hok.setHandles hr live'
      have hum : ∀ l, UnreadOk r.count { s.rings r with sLogList := l } fun k => s.logged (r, k) :=
        fun _ => ⟨hu.write, hu.star, hu.logged⟩
      refine ⟨live', h.setCell p (plog.setHandles b) (some m) ?cell
        (hl ▸ (Function.update_eq_self _ _).symm) hp' hr.size ?unread ?keep hok'
        (fun f hf => absurd hf (Int.not_lt.2 (hle f)))
        (fun hf => absurd hf (Int.not_lt.2 (hle .text))) fun _ => hle .cust⟩
      case cell =>
        split
        · exact Sys.cell_setRing_update (s := { s with agent := a' }) rfl
        · exact Sys.cell_setRing_update (s := { s with agent := a' }) rfl
      case unread =>
        refine hset a' _ ?_
        split
        · exact hum _
        · exact (hum _).incStar hun
      case keep =>
        intro q hq f d hpos hmem
        -- a handle of another cell is none of the two that were freed
        have hother : ∀ g, handle (s.cell q) f ≠ handle (s.cell p) g := fun g he =>
          hq (h.own q p f g hpos he).1
        refine hkeep _ hmem ?_ ?_
        · rw [hcell.1]
          exact hother .cust
        · rw [hcell.2.1]
          exact hother .text

theorem Inv.step_inv {l : Label} (h : Inv s live pend) (hok : LogOk s l)
    (he : step cfg s l = some s') : ∃ live', Inv s' live' pend := by
  cases l with
  | log r c =>
    cases he
    exact h.log r c hok
  | start =>
    cases he
    exact ⟨live, h.same h.unread rfl rfl rfl rfl⟩
  | round r now t => exact h.round he

/-! ## The text of every record -/

/-- A cell of a new shared memory. -/
def noLog : MTLog where
  iCustVmemIndex := 0
  dwLogConfigId := 0
  dwLogSeq := 0
  qwLogTime := 0
  iAppId := 0
  iModuleId := 0
  wLogType := 0
  iVarmemIndex := 0
  sLogContent := []

/-- New rings, and an agent that has read nothing yet. -/
def Sys.init (g : Pool) : Sys where
  rings _ := { iLogStarIndex := -1, iWriteIndex := 0, sLogList := fun _ => noLog }
  agent :=
    { pool := g
      sLogBuf := ⟨sLogBufLen, fun _ => 0⟩
      bReadAppTypeCount := 0
      stAppLogRead := fun _ => ⟨0, 0, []⟩ }
  logged _ := none

theorem AllUnread.init (g : Pool) : AllUnread (Sys.init g) := by
  intro r
  have hpos : 0 < r.count := by
    cases r with
    | shm i => exact L2.LogRing.recordsCount_pos
    | spec => decide
  have hneg : (-1 : Int) < 0 := by decide
  exact ⟨hpos, Int.lt_of_lt_of_le hneg (Int.natCast_nonneg _),
    .inr ⟨Int.le_of_lt hneg, fun _ hk => absurd hk (Nat.not_lt_zero _)⟩⟩

theorem Inv.init (h : PoolInv g live pend) : Inv (Sys.init g) live pend where
  pool := h
  size := rfl
  unread := .init g
  cell _ := ⟨Int.le_refl 0, rfl⟩
  own _ _ f _ hpos _ := by
    cases f with
    | cust => exact absurd hpos (Int.lt_irrefl 0)
    | text => exact absurd hpos (Int.lt_irrefl 0)
  spec _ := Int.le_refl 0

/-- **Every record of every drain.** The record that a round hands to
`ReadAppLogToBuf` is that of a logged message, and the call returns unless its
`assert` fails. The text it reports is the message and a zero exactly if the message
fits the cell, or if the message is still in the vmem and the byte of the static
buffer behind it is 0 before the call. -/
theorem reported_text_iff (cfg : Config) {g : Pool} (hg : PoolInv g live pend) (ls : List Label)
    (hm : Meets (step cfg) LogOk ls (Sys.init g)) (hr : run (step cfg) ls (Sys.init g) = some s)
    (r : Ring)
    (hun : 0 ≤ (s.rings r).iLogStarIndex ∧ (s.rings r).iLogStarIndex ≠ (s.rings r).iWriteIndex)
    (now : Nat) (t : UInt64) (plog : MTLog)
    (hallow : allow cfg t r (s.cell (r, (s.rings r).iLogStarIndex.toNat)) = .read plog) :
    ∃ m, s.logged (r, (s.rings r).iLogStarIndex.toNat) = some m ∧
      ((readAppLogToBuf cfg now s.agent plog).isSome ↔ plog.iAppId ≠ 0 ∧ plog.iModuleId ≠ 0) ∧
      ∀ a' b, readAppLogToBuf cfg now s.agent plog = some (a', b) →
        (logText a'.sLogBuf = some (m.text ++ [0]) ↔ m.text.length < sLogContentLen ∨
            (0 < plog.iVarmemIndex ∧
              s.agent.sLogBuf.byte (logInfoSize + m.cust.length + m.text.length) = 0)) := by
  obtain ⟨live', h⟩ : ∃ live', Inv s live' pend :=
    run_keeps (P := fun s => ∃ live', Inv s live' pend)
      (fun _ _ _ hi hok he => hi.elim fun _ hi => hi.step_inv hok he) ⟨live, .init hg⟩ hm hr
  obtain ⟨m, hl, -, hread⟩ := h.reads hun hallow
  refine ⟨m, hl, ⟨fun hsome => ?_, fun hid => ?_⟩, fun a' b he => ?_⟩
  · obtain ⟨x, hx⟩ := isSome_iff_exists.1 hsome
    exact ids_of_readAppLogToBuf hx
  · obtain ⟨a', b, he, -⟩ := hread now hid
    rw [he]
    rfl
  · obtain ⟨a1, b1, he1, hr1⟩ := hread now (ids_of_readAppLogToBuf he)
    cases he.symm.trans he1
    exact hr1.whole

/-- A call that logs `text` for application 7, without custom fields. -/
def plainCall (text : Bytes) : Call where
  tvSec := 1
  tvUsec := 0
  now := 1
  iLogType := 4
  iAppId := 7
  iModuleId := 1
  dwCfgId := 1
  dwLogSeq := 1
  stCust := ⟨0, 0, 0, 0, 0, .zero 15, .zero 31⟩
  text := text

def oneApp : Config := ⟨[7], []⟩

theorem reported_text_of_two_bytes :
    ∃ s, run (step oneApp) [.log (.shm 0) (plainCall [104, 105])] (Sys.init Pool.initVmem) = some s ∧
      ∃ m, s.logged (.shm 0, 0) = some m ∧
        ∀ a' b, readAppLogToBuf oneApp 1 s.agent (s.cell (.shm 0, 0)) = some (a', b) →
          logText a'.sLogBuf = some (m.text ++ [0]) := by
  refine ⟨_, rfl, ?_⟩
  obtain ⟨m, hl, -, htext⟩ := reported_text_iff oneApp PoolInv.initVmem
    [.log (.shm 0) (plainCall [104, 105])] (by decide +kernel) rfl (.shm 0)
    (by decide +kernel) 1 0 _ rfl
  refine ⟨m, hl, fun a' b he => (htext a' b he).2 (.inl ?_)⟩
  cases hl
  decide

/-- The message of the next unread record of a ring, and the text that
`ReadAppLogToBuf` reports for it. -/
def reported (cfg : Config) (now : Nat) (r : Ring) (s : Sys) : Option (Bytes × Bytes) := do
  let p := (r, (s.rings r).iLogStarIndex.toNat)
  let m ← s.logged p
  let (a, _) ← readAppLogToBuf cfg now s.agent (s.cell p)
  let text ← logText a.sLogBuf
  pure (m.text, text)

/-- **The terminator of the record before.** After a message of 300 bytes was read,
one of 260 bytes is reported with the 261st byte of the first as its last. -/
theorem reported_text_stale : Meets (step oneApp) LogOk
        [.log (.shm 0) (plainCall (List.replicate 300 120)), .start, .round (.shm 0) 1 1,
          .log (.shm 0) (plainCall (List.replicate 260 121))] (Sys.init Pool.initVmem) ∧
      (run (step oneApp)
        [.log (.shm 0) (plainCall (List.replicate 300 120)), .start, .round (.shm 0) 1 1,
          .log (.shm 0) (plainCall (List.replicate 260 121))] (Sys.init Pool.initVmem)).bind
        (reported oneApp 1 (.shm 0)) =
      some (List.replicate 260 121, List.replicate 260 121 ++ [120]) := by
  decide +kernel

/-! ## Records in progress -/

/-- The drain stands at a record that its writer has not finished. -/
def Sys.InProgress (s : Sys) (r : Ring) : Prop :=
  0 ≤ (s.rings r).iLogStarIndex ∧ (s.rings r).iLogStarIndex ≠ (s.rings r).iWriteIndex ∧
    (s.cell (r, (s.rings r).iLogStarIndex.toNat)).dwLogSeq = 0

/-- The second in which the record at which the drain stands is five seconds old. -/
def Sys.due (s : Sys) (r : Ring) : UInt64 :=
  (s.cell (r, (s.rings r).iLogStarIndex.toNat)).qwLogTime / 1000000 + 5

def Moves (r : Ring) (s s' : Sys) : Prop :=
  (s'.rings r).iLogStarIndex ≠ (s.rings r).iLogStarIndex

theorem round_inProgress {s : Sys} {r : Ring} (h : s.InProgress r) (cfg : Config) (now : UInt32)
    (qwCurTime : UInt64) :
    ∃ s', round cfg r now qwCurTime s = some s' ∧
      (Moves r s s' ↔ passes r now (s.cell (r, (s.rings r).iLogStarIndex.toNat)) = true) := by
  obtain ⟨h0, hne, hseq⟩ := h
  have hseq : ((s.rings r).sLogList (s.rings r).iLogStarIndex.toNat).dwLogSeq = 0 := hseq
  unfold round
  rw [if_pos ⟨h0, hne⟩, if_pos hseq]
  refine ⟨_, rfl, ?_⟩
  simp only [Moves, Sys.setRing, Sys.cell, update_self]
  cases passes r now ((s.rings r).sLogList (s.rings r).iLogStarIndex.toNat) with
  | false => simp [leave, hne]
  | true =>
    -- the next index, or -1 where that is the one to be written
    refine iff_of_true ?_ rfl
    have hcount : 1 < r.count := by unfold Ring.count; split <;> decide
    rw [if_pos rfl, leave]
    split
    · show (-1 : Int) ≠ _
      omega
    · simp only [incStar, Circular.next]
      split <;> omega

/-- **Records in progress.** The drain of a main ring leaves a record alone that is still
being written, unless it is five seconds old, exactly if that is so already, or the
comparison in 32 bits says that it is more. -/
theorem in_progress_iff (cfg : Config) (i : Fin 3) (now : UInt32) (qwCurTime : UInt64) (s : Sys)
    (h : s.InProgress (.shm i)) :
    (∃ s', round cfg (.shm i) now qwCurTime s = some s' ∧
      (Moves (.shm i) s s' → (s.due (.shm i)).toNat ≤ now.toNat)) ↔
    (s.due (.shm i)).toNat ≤ now.toNat ∨ (s.due (.shm i)).toUInt32 < now := by
  obtain ⟨s', hs', hmoves⟩ := round_inProgress h cfg now qwCurTime
  have hpass : Moves (.shm i) s s' ↔ now ≤ (s.due (.shm i)).toUInt32 := by
    rw [hmoves]
    exact decide_eq_true_iff
  constructor
  · rintro ⟨s1, hs1, hold⟩
    cases hs'.symm.trans hs1
    rcases UInt32.le_or_lt now (s.due (.shm i)).toUInt32 with hle | hlt
    · exact .inl (hold (hpass.mpr hle))
    · exact .inr hlt
  · intro hor
    refine ⟨s', hs', fun hm => hor.resolve_right ?_⟩
    exact UInt32.not_lt.mpr (hpass.mp hm)

/-- A writer has taken the first cell of a ring. -/
def midWrite : Sys :=
  (Sys.init Pool.initVmem).setRing (.shm 0) ⟨0, 1, fun _ => noLog⟩

theorem midWrite_inProgress : midWrite.InProgress (.shm 0) := ⟨by decide, by decide, by decide⟩

/-- Five seconds later the record is passed. -/
theorem in_progress_five_seconds : ∃ s', round oneApp (.shm 0) 5 0 midWrite = some s' ∧
      (Moves (.shm 0) midWrite s' → (midWrite.due (.shm 0)).toNat ≤ 5) :=
  (in_progress_iff oneApp 0 5 0 midWrite midWrite_inProgress).mpr (.inl (by decide))

/-- **A record in progress is overtaken** in the second in which it was begun. -/
theorem in_progress_overtaken : midWrite.InProgress (.shm 0) ∧ (midWrite.due (.shm 0)).toNat = 5 ∧
      (round oneApp (.shm 0) 0 0 midWrite).map (fun s => (s.rings (.shm 0)).iLogStarIndex) =
        some (-1) :=
  ⟨midWrite_inProgress, by decide, by decide +kernel⟩

/-! ## The note on a cut -/

/-- Whether `wLogTruncate` is incremented: the length that `vsnprintf` returned is
taken off the limit that it is compared with.
mirrors mt_log.c:849-850 -/
def truncates (text : Bytes) : Bool := (fmtLimit : Int) - text.length ≤ text.length

/-- The text of the record of a call: what the cell holds, or its first 252 bytes and
what the vmem was given under the handle `iSaved`. -/
def Call.stored (c : Call) (iSaved : Int) : Bytes :=
  let plog := (c.toLogCall 0 iSaved).record
  if plog.iVarmemIndex < 0 then plog.sLogContent
  else plog.sLogContent.take (sLogContentLen - 4) ++ (formatLog c.text).drop (sLogContentLen - 4)

theorem stored_eq (c : Call) (iSaved : Int) : c.stored iSaved =
      if (formatLog c.text).length < sLogContentLen ∨ 0 < iSaved then formatLog c.text
      else saveFailedText iSaved := by
  by_cases hlen : (formatLog c.text).length < sLogContentLen
  · simp [Call.stored, Call.toLogCall, LogCall.record, hlen]
  by_cases hs : 0 < iSaved
  · have hs' : ¬ iSaved < 0 := by omega
    simp [Call.stored, Call.toLogCall, LogCall.record, hlen, Int.not_le.mpr hs, hs', take_take]
  · simp [Call.stored, Call.toLogCall, LogCall.record, hlen, hs, Int.not_lt.mp hs]

/-- **Truncation is marked** exactly if the message has less than 528 bytes and its text
does not end like the note, or it did not fit and the text that was left does by chance. -/
theorem truncation_marked_iff (c : Call) (iSaved : Int) :
    ((truncates c.text = true ↔ fmtLimit ≤ c.text.length) ∧
      (truncateNote <:+ c.stored iSaved ↔ fmtLimit ≤ c.text.length)) ↔
    let cut := (c.text.take (fmtLimit - 1)).takeWhile (· ≠ 0)
    let text := if cut.length < sLogContentLen ∨ 0 < iSaved then cut else saveFailedText iSaved
    if truncateNote <:+ text then fmtLimit ≤ c.text.length else 2 * c.text.length < fmtLimit := by
  have hs := stored_eq c iSaved
  rw [formatLog_cut] at hs
  dsimp only
  rw [← hs, truncates, decide_eq_true_iff]
  split
  · rename_i hnote
    simp only [hnote, true_iff]
    omega
  · rename_i hnote
    simp only [hnote, false_iff]
    omega

/-- A message that fits is counted as cut, one that does not fit gets no note. -/
theorem truncation_unmarked :
    (truncates (replicate 600 65) = true ∧ (replicate 600 (65 : UInt8)).length < fmtLimit) ∧
      (truncates (replicate 1056 65) = true ∧
        ¬ truncateNote <:+ (plainCall (replicate 1056 65)).stored 1) := by
  decide +kernel

end DesPwd.L4.LogText
