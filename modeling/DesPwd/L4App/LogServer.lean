import DesPwd.L3Protocol.AgentReport

/-!
# slog_server: an agent's log report

`onRawData` is what slog_server's socket does with a datagram; the loop over
the log records of an opened report is `logLoop`, one record `logRecord`.
Tables in shared memory (machines, apps, log shm, frequency limits, plugin
rows) and the clock answer through `LogCtx`, arbitrarily at each datagram; what
the server writes is a list of `LogEffect`.

* `logLoop_enough`: the loop over the records makes at most as many rounds as
  the content has bytes, so the bound of `writeLogs` cuts nothing off.
* `step_authentic`: a step keeps `AllAuthentic` when the datagram has a
  `MT_SIGNATURE_TYPE_COMMON` signature.

Source files without a directory are in `slog_server/`.
-/
namespace DesPwd.L4.LogServer

open Bytes L1.BasicPacket L3.AgentReport Option

/-- `CMD_MONI_SEND_LOG` -/
def cmdMoniSendLog : Nat := 209
/-- `CMD_CGI_SEND_LOG` -/
def cmdCgiSendLog : Nat := 217
/-- `MAX_APP_LOG_PKG_LENGTH` -/
def maxAppLogPkgLength : Nat := 1400
/-- `SLOG_LEVEL_PLUGIN_TABLE`, a bit of `wLogType` -/
def slogLevelPluginTable : Nat := 128
/-- `sizeof(LogInfo)` -/
def logInfoLen : Nat := 30
/-- `sizeof(TPlugRealTimeLog::sValue)` -/
def tableValueLen : Nat := 256

/-- mirrors `LogInfo` of lib/mtagent_api_open/sv_struct.h:382-393 -/
structure LogInfo where
  dwLogSeq : Nat
  iAppId : Int
  iModuleId : Int
  dwLogConfigId : Nat
  wLogType : Nat
  qwLogTime : Nat
  wCustDataLen : Nat
  wLogDataLen : Nat
  deriving DecidableEq

/-- mirrors `LogInfoNtoH`, lib/mtagent_api_open/sv_struct.cpp:119-129 -/
def logInfoNtoH (b : Bytes) (i : Nat) : Option LogInfo := do
  let dwLogSeq ← rd32 b i
  let iAppId ← rd32 b (i + 4)
  let iModuleId ← rd32 b (i + 8)
  let dwLogConfigId ← rd32 b (i + 12)
  let wLogType ← rd16 b (i + 16)
  let qwLogTime ← rd64 b (i + 18)
  let wCustDataLen ← rd16 b (i + 26)
  let wLogDataLen ← rd16 b (i + 28)
  pure ⟨dwLogSeq, toS32 iAppId, toS32 iModuleId, dwLogConfigId, wLogType, qwLogTime,
    wCustDataLen, wLogDataLen⟩

structure AppInfo where
  iAppId : Int
  dwAppSrvMaster : Nat

structure LogShm where
  iAppId : Int
  deriving DecidableEq

/-- A row of the plugin tables; `dwWriteTime = 0` marks it as not in use. -/
structure PlugRealTimeLog where
  iPluginId : Int
  iHostId : Int
  iTableId : Int
  iStaticTime : Int
  dwWriteTime : Nat
  dwStatId : Option Nat
  sValue : Option Bytes
  deriving DecidableEq

inductive LogEffect where
  /-- `WriteAppLogToShm` wrote the record with its data -/
  | appLog (shm : LogShm) (info : LogInfo) (sLog : Bytes) (iHostId : Int)
  | tableRow (idx : Nat) (row : PlugRealTimeLog)
  deriving DecidableEq

/-- The answers to the server while it handles one datagram; those that may
differ from one record to the next have the number of the record. -/
structure LogCtx extends Ctx (maxAppLogPkgLength + 256) where
  getAppInfo : Int → Option AppInfo
  /-- `ip1` to `ip4` of `pLocalMachineInfo` -/
  localIps : List Nat
  isLogFreqOver : Nat → Nat → Bool
  mapAppLogShm : Int → Option LogShm
  getAppLogShm : Int → Option LogShm
  /-- `WriteAppLogToShm` returned no error -/
  writeOk : Nat → Bool
  /-- the free row that the search of `SavePluginTableRecords` finds -/
  freeRow : Nat → Option Nat
  tmNow : Nat
  gettimeofday : Nat → Nat

/-- mirrors lib/mtagent_api_open/supper_log.cpp:1199-1204 -/
def isIpMatchMachine (ips : List Nat) (dwIp : Nat) : Bool := ips.contains dwIp

/-- mirrors udp_sock.cpp:393-462 -/
def savePluginTableRecords (c : LogCtx) (k : Nat) (info : LogInfo) (sLog : Bytes)
    (iLogHostId : Int) : Option (List LogEffect) := do
  if info.wCustDataLen ≠ 0 then pure []
  else match c.freeRow k with
  | none => pure []
  | some idx =>
    let row : PlugRealTimeLog :=
      { iPluginId := info.iModuleId
        iHostId := iLogHostId
        iTableId := toS32 info.dwLogConfigId
        iStaticTime := toS32 (info.qwLogTime % 4294967296)
        dwWriteTime := c.tmNow
        dwStatId := none
        sValue := none }
    if row.iStaticTime < 10 ∨ 86400 < row.iStaticTime then
      pure [.tableRow idx { row with dwWriteTime := 0 }]
    else
      let row := { row with dwStatId := some info.dwLogSeq }
      if tableValueLen ≤ info.wLogDataLen then pure [.tableRow idx { row with dwWriteTime := 0 }]
      else
        let sValue ← cStr (tableValueLen - 1) sLog
        pure [.tableRow idx { row with sValue := some sValue }]

/-- The variables of the loop, and what was written so far. -/
structure LogLoop where
  iRead : Nat
  /-- records looked at -/
  count : Nat
  pLogShm : Option LogShm
  mapAppLogShm : Int → Option LogShm
  effects : List LogEffect

inductive Next where
  | go (st : LogLoop)
  | brk (st : LogLoop)
  | ret (st : LogLoop) (e : Err)

/-- The log shm for the records of `app`: looked up only when the last one is
of another app; mirrors udp_sock.cpp:561-576 -/
def findLogShm (c : LogCtx) (st : LogLoop) (app : AppInfo) : Option (LogShm × LogLoop) :=
  match st.pLogShm with
  | some shm =>
    if shm.iAppId = app.iAppId then some (shm, st)
    else
      -- an app that is not in the map keeps the last shm
      let shm := (st.mapAppLogShm app.iAppId).getD shm
      some (shm, { st with pLogShm := some shm })
  | none =>
    match st.mapAppLogShm app.iAppId with
    | some shm => some (shm, { st with pLogShm := some shm })
    | none => (c.getAppLogShm app.iAppId).map fun shm => (shm,
        { st with
          pLogShm := some shm
          mapAppLogShm := fun i => if i = app.iAppId then some shm else st.mapAppLogShm i })

/-- mirrors udp_sock.cpp:582-597 -/
def writeLog (c : LogCtx) (st : LogLoop) (shm : LogShm) (info : LogInfo) (sLog : Bytes)
    (iHostId : Int) : LogLoop :=
  let info := if info.qwLogTime / 1000000 + 120 < c.tmNow then
    { info with qwLogTime := c.gettimeofday st.count } else info
  if c.writeOk st.count then { st with effects := st.effects ++ [.appLog shm info sLog iHostId] }
  else st

/-- The body of the loop; mirrors udp_sock.cpp:517-597 -/
def logRecord (c : LogCtx) (r : Report) (st : LogLoop) : Option Next := do
  let info ← logInfoNtoH r.content st.iRead
  let sLog := r.content.drop (st.iRead + logInfoLen)
  let iNext := st.iRead + logInfoLen + info.wCustDataLen + info.wLogDataLen
  if r.wCmdContentLen < iNext then pure (.ret st .invalidPacket)
  else
    let st := { st with iRead := iNext, count := st.count + 1 }
    match c.getAppInfo info.iAppId with
    | none => pure (.go st)
    | some app =>
      if info.wLogType &&& slogLevelPluginTable ≠ 0 then
        if !isIpMatchMachine c.localIps app.dwAppSrvMaster then
          pure (.ret st .appLogDispatchInvalid)
        else
          let es ← savePluginTableRecords c st.count info sLog r.machine.id
          pure (.go { st with effects := st.effects ++ es })
      else if c.isLogFreqOver st.count info.dwLogConfigId then pure (.brk st)
      else if !isIpMatchMachine c.localIps app.dwAppSrvMaster then
        pure (.ret st .appLogDispatchInvalid)
      else match findLogShm c st app with
      | none => pure (.ret st .invalidAppid)
      | some (shm, st) =>
        let sLog := sLog.take (info.wCustDataLen + info.wLogDataLen)
        pure (.go (writeLog c st shm info sLog r.machine.id))

/-- mirrors udp_sock.cpp:605-608 -/
def logAck (r : Report) (st : LogLoop) : Option Err :=
  if st.iRead + logInfoLen < r.wCmdContentLen then some .logFreqOverLimit else none

/-- The loop over the records, `n` bounds its rounds;
mirrors udp_sock.cpp:515-608 -/
def logLoop (c : LogCtx) (r : Report) : Nat → LogLoop → Option (List LogEffect × Option Err)
  | 0, _ => none
  | n + 1, st => do
    if st.iRead + logInfoLen < r.wCmdContentLen then
      match ← logRecord c r st with
      | .go st => logLoop c r n st
      | .brk st => pure (st.effects, logAck r st)
      | .ret st e => pure (st.effects, some e)
    else pure (st.effects, logAck r st)

/-- mirrors udp_sock.cpp:510-608 -/
def writeLogs (c : LogCtx) (r : Report) : Option (List LogEffect × Option Err) :=
  logLoop c r (r.wCmdContentLen + 1) ⟨0, 0, none, c.mapAppLogShm, []⟩

theorem findLogShm_iRead {c : LogCtx} {st st' : LogLoop} {app : AppInfo} {shm : LogShm}
    (h : findLogShm c st app = some (shm, st')) : st'.iRead = st.iRead := by
  unfold findLogShm at h
  split at h
  · split at h <;> cases h <;> rfl
  split at h
  · cases h
    rfl
  · obtain ⟨_, -, he⟩ := map_eq_some_iff.mp h
    cases he
    rfl

theorem writeLog_iRead (c : LogCtx) (st : LogLoop) (shm : LogShm) (info : LogInfo) (sLog : Bytes)
    (iHostId : Int) : (writeLog c st shm info sLog iHostId).iRead = st.iRead := by
  by_cases hw : c.writeOk st.count = true
  · rw [writeLog, if_pos hw]
  · rw [writeLog, if_neg hw]

theorem logRecord_iRead {c : LogCtx} {r : Report} {st st' : LogLoop}
    (h : logRecord c r st = some (.go st')) : st.iRead + logInfoLen ≤ st'.iRead := by
  simp only [logRecord, bind_eq_bind, bind_eq_some_iff] at h
  obtain ⟨info, -, h⟩ := h
  have hle := Nat.le_trans (Nat.le_add_right (st.iRead + logInfoLen) info.wCustDataLen)
    (Nat.le_add_right _ info.wLogDataLen)
  split at h
  · cases h
  split at h
  · cases h
    exact hle
  split at h
  · split at h
    · cases h
    · obtain ⟨es, -, he⟩ := bind_eq_some_iff.mp h
      cases he
      exact hle
  · split at h
    · cases h
    split at h
    · cases h
    split at h
    · cases h
    · rename_i shm st1 hf
      cases h
      rw [writeLog_iRead, findLogShm_iRead hf]
      exact hle

theorem logLoop_enough (c : LogCtx) (r : Report) (k : Nat) :
    ∀ n st, r.wCmdContentLen ≤ st.iRead + n →
      logLoop c r (n + 1 + k) st = logLoop c r (n + 1) st
  | n, st, h => by
    rw [Nat.add_right_comm, logLoop, logLoop]
    by_cases hl : st.iRead + logInfoLen < r.wCmdContentLen
    · rw [if_pos hl, if_pos hl]
      rcases hr : logRecord c r st with _ | ⟨st' | st' | ⟨st', e⟩⟩
      · rfl
      · -- a record is at least `logInfoLen` bytes, so the bound falls with it
        have hadv := logRecord_iRead hr
        obtain ⟨m, rfl⟩ : ∃ m, n = m + 1 := ⟨n - 1, by omega⟩
        exact logLoop_enough c r k m st' (by simp only [logInfoLen] at hadv; omega)
      · rfl
      · rfl
    · rw [if_neg hl, if_neg hl]

/-- `CMD_CGI_SEND_LOG` is for another handler, which does not touch
`m_sDecryptBuf`; mirrors udp_sock.cpp:464-609 -/
def onRawDataClientLog (aes : InvCipher) (c : LogCtx) (s : Sock LogEffect) (p : Packet) :
    Option (Sock LogEffect) :=
  if p.dwCmd = cmdCgiSendLog then some s
  else if p.dwCmd ≠ cmdMoniSendLog then some (s.refuse c.szAgentAccessKey p .invalidPacket)
  else handleReport aes c.toCtx s p (writeLogs c)

/-- A datagram, and the answers while it is handled. -/
structure Datagram where
  ctx : LogCtx
  buf : Bytes

/-- mirrors udp_sock.cpp:611-632; what the protobuf commands do is
left out, they do not touch `m_sDecryptBuf` -/
def onRawData (aes : InvCipher) (s : Sock LogEffect) (d : Datagram) : Option (Sock LogEffect) := do
  match ← checkBasicPacket d.buf with
  | .ok p => onRawDataClientLog aes d.ctx s p
  | _ => pure s

/-- A log report in the datagram has a signature of the type the server checks. -/
def CommonSigned (_ : Sock LogEffect) (d : Datagram) : Prop :=
  ∀ p, checkBasicPacket d.buf = some (.ok p) → p.dwCmd = cmdMoniSendLog → p.bSigType = sigTypeCommon

theorem step_authentic {aes : InvCipher} {s s' : Sock LogEffect} {d : Datagram}
    (hs : s.AllAuthentic aes) (hd : CommonSigned s d) (h : onRawData aes s d = some s') :
    s'.AllAuthentic aes := by
  simp only [onRawData, bind_eq_bind, bind_eq_some_iff] at h
  obtain ⟨ch, hp, h⟩ := h
  rcases ch with _ | p | e
  · cases h
    exact hs
  · exact command_authentic hs (fun hm => hd p hp (Decidable.not_not.mp hm)) h
  · cases h
    exact hs

end DesPwd.L4.LogServer
