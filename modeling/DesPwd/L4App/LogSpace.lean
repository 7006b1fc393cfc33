import DesPwd.Core.Bytes
import DesPwd.Core.OrderedMap
import Mathlib.Algebra.BigOperators.Group.List.Basic
import Mathlib.Data.List.Nodup
import Mathlib.Data.List.TakeWhile

/-!
# slog_server: the disk space that the logs of all apps take

`ScanAppLogSpaceByIdx` walks the apps that `iNextIndex` links: the size of a local
app is added at once, a remote app goes into the request for its log server, and
`DealGetAppLogSizeRsp` adds what the servers answer. When the total passes
`iMaxLogSizeM` the oldest log file is marked for deletion.

Three things break the account. An app without a log server is left with
`continue`, before the index moves on, so the walk stands on it until its count is
used up. The response handler keeps the total in a `uint32_t`. And the requests
are in a `std::map` whose comparison orders two servers only when the one with the
larger address does not have the smaller port.

The map is any `OrderedMap.Map` over that comparison, so it keeps the contract of
`std::map` and promises nothing outside it.

* `scanLoop_eq`: the walk, up to the first app without a log server and then on it.
* `Scanned.scanOne`, `Scanned.run`: what the walk has counted and asked for.
* `deals_spec`: what the answers make of the totals.
* `log_space_iff`: the account is right exactly when at most the last app has no
  log server, the total fits 32 bits or there was nothing to ask, and the
  comparison orders the log servers.
* `log_space_stuck`: an app without a log server before a local one.

Source files without a directory are in `slog_server/`.
-/
namespace DesPwd.L4.LogSpace

open Bytes OrderedMap List

/-! ## Shared memory and messages -/

/-- mirrors lib/mtagent_api_open/supper_log.h:510-531 -/
structure TLogStatInfo where
  qwLogSizeInfo : Nat
  dwDebugLogsCount : Nat
  dwInfoLogsCount : Nat
  dwWarnLogsCount : Nat
  dwReqerrLogsCount : Nat
  dwErrorLogsCount : Nat
  dwFatalLogsCount : Nat
  dwOtherLogsCount : Nat

/-- `AppInfo` as far as the scan uses it.
mirrors supper_log.h:562-623 -/
structure AppInfo where
  iAppId : Int
  dwAppSrvMaster : Nat
  wLogSrvPort : Nat
  dwAppLogFlag : Nat
  dwDeleteLogFileTime : Nat
  bReadLogStatInfo : Bool
  stLogStatInfo : TLogStatInfo
  iNextIndex : Int

def maxSlogAppCount : Nat := 200

/-- mirrors supper_log.h:626-633 -/
structure SLogAppInfo where
  iAppCount : Int
  stInfo : Nat → AppInfo

/-- The log files of an app: their number and the start of the oldest,
`stFiles[0].qwLogTimeStart`, in microseconds. -/
structure SLogFile where
  wLogFileCount : Nat
  qwLogTimeStart : Nat

/-- mirrors lib/my_proto/user.proto:37-44 -/
structure UserRemoteAppLogInfo where
  next_check_log_space_time : Nat
  total_app_log_size : Nat
  tmp_remain_app_count : Int
  oldest_log_file_app_id : Int
  oldest_log_file_time : Nat

/-- mirrors lib/my_proto/top_proto.proto:36-48 -/
structure AppLogSizeInfo where
  appid : Int
  log_size : Nat
  oldest_log_file_time : Nat
  debug_logs_count : Nat
  info_logs_count : Nat
  warn_logs_count : Nat
  reqerr_logs_count : Nat
  error_logs_count : Nat
  fatal_logs_count : Nat
  other_logs_count : Nat

/-- mirrors top_proto.proto:49-54 -/
structure SlogGetAppLogSizeRsp where
  app_log_size_info : List AppLogSizeInfo
  req_app_count : Int

/-- mirrors slog_server.h:43-47 -/
structure TGetAppLogSizeKey where
  dwAppLogSrv : Nat
  wAppLogSrvPort : Nat
  deriving DecidableEq

/-- mirrors slog_server.h:49-57 -/
def reqAppLogSizeCmp (x y : TGetAppLogSizeKey) : Bool :=
  if x.dwAppLogSrv > y.dwAppLogSrv then true
  else if x.wAppLogSrvPort > y.wAppLogSrvPort then true
  else false

/-- A `std::map` from a log server to the `appid_list` of the request for it. -/
abbrev ReqMap := Map TGetAppLogSizeKey (List Int) reqAppLogSizeCmp

/-- What the scan asks the rest of the program: whether an address is one of the
local machine, and the log file region of an app (`GetAppLogFileShm`). -/
structure Env where
  isIpMatchMachine : Nat → Bool
  getAppLogFileShm : Int → Option SLogFile

/-! ## The scan -/

/-- The log file of a local app, kept in `mapAppLogFileShm` once it is found.
mirrors slog_server.cpp:147-156 -/
def appLogFile (e : Env) (m : Int → Option SLogFile) (iAppId : Int) :
    (Int → Option SLogFile) × Option SLogFile :=
  match m iAppId with
  | some f => (m, some f)
  | none =>
    match e.getAppLogFileShm iAppId with
    | none => (m, none)
    | some f => (Function.update m iAppId (some f), some f)

/-- The variables of `ScanAppLogSpaceByIdx` and what it changes of `stConfig`;
`visited` records the apps that the loop looks at. -/
structure Scan (M : ReqMap) where
  iTmpRemainAppCount : Int
  qwTmpAppLogSize : Nat
  stPb : UserRemoteAppLogInfo
  mapAppLogFileShm : Int → Option SLogFile
  stMapLogSizeReqInfo : M.T
  visited : List Nat

/-- `stPb` with the start of the oldest log file of an app.
mirrors slog_server.cpp:166-178 -/
def UserRemoteAppLogInfo.older (stPb : UserRemoteAppLogInfo) (iAppId : Int) (f : SLogFile) :
    UserRemoteAppLogInfo :=
  let time := f.qwLogTimeStart / 1000000 % 2 ^ 32
  if f.wLogFileCount > 0 ∧ (stPb.oldest_log_file_time = 0 ∨ stPb.oldest_log_file_time > time) then
    { stPb with oldest_log_file_time := time, oldest_log_file_app_id := iAppId }
  else stPb

namespace Scan

variable {M : ReqMap}

def visit (s : Scan M) (i : Nat) : Scan M := { s with visited := s.visited ++ [i] }

/-- A local app.
mirrors slog_server.cpp:145-180 -/
def addLocal (e : Env) (s : Scan M) (app : AppInfo) : Scan M :=
  match appLogFile e s.mapAppLogFileShm app.iAppId with
  | (m, none) =>
    { s with iTmpRemainAppCount := s.iTmpRemainAppCount - 1, mapAppLogFileShm := m }
  | (m, some f) =>
    { s with
      iTmpRemainAppCount := s.iTmpRemainAppCount - 1
      mapAppLogFileShm := m
      qwTmpAppLogSize := (s.qwTmpAppLogSize + app.stLogStatInfo.qwLogSizeInfo) % 2 ^ 64
      stPb := s.stPb.older app.iAppId f }

/-- A remote app: one more in the request for its log server.
mirrors slog_server.cpp:181-201 -/
def addRemote (s : Scan M) (app : AppInfo) : Scan M :=
  { s with stMapLogSizeReqInfo :=
      M.push s.stMapLogSizeReqInfo (⟨app.dwAppSrvMaster, app.wLogSrvPort⟩, app.iAppId) }

end Scan

def AppInfo.noServer (app : AppInfo) : Bool := app.dwAppSrvMaster == 0 || app.wLogSrvPort == 0

/-- The loop, with the number of its rounds that are left.
mirrors slog_server.cpp:127-203 -/
def scanLoop {M : ReqMap} (e : Env) (shm : SLogAppInfo) : Nat → Int → Scan M → Scan M
  | 0, _, s => s
  | n + 1, iAppInfoIdx, s =>
    if iAppInfoIdx < 0 ∨ iAppInfoIdx ≥ maxSlogAppCount then s
    else
      let app := shm.stInfo iAppInfoIdx.toNat
      let s := s.visit iAppInfoIdx.toNat
      -- `continue`: the index is not moved
      if app.noServer then scanLoop e shm n iAppInfoIdx s
      else if e.isIpMatchMachine app.dwAppSrvMaster then
        scanLoop e shm n app.iNextIndex (s.addLocal e app)
      else scanLoop e shm n app.iNextIndex (s.addRemote app)

/-- What stands after the loop.
mirrors slog_server.cpp:205-209 -/
def Scan.finish {M : ReqMap} (s : Scan M) : Scan M :=
  let remain := s.iTmpRemainAppCount + s.stPb.tmp_remain_app_count
  let size := (s.qwTmpAppLogSize + s.stPb.total_app_log_size) % 2 ^ 64
  { s with
    iTmpRemainAppCount := remain
    qwTmpAppLogSize := size
    stPb := { s.stPb with
      tmp_remain_app_count := if remain > 0 then remain else s.stPb.tmp_remain_app_count
      total_app_log_size := size } }

/-- mirrors slog_server.cpp:121-209 -/
def scanAppLogSpaceByIdx {M : ReqMap} (e : Env) (shm : SLogAppInfo)
    (files : Int → Option SLogFile) (reqs : M.T) (stPb : UserRemoteAppLogInfo)
    (iAppCount : Nat) (iAppInfoIdx : Int) : Scan M :=
  (scanLoop e shm iAppCount iAppInfoIdx ⟨iAppCount, 0, stPb, files, reqs, []⟩).finish

/-- The message as `ScanAppLogSpace` hands it to the scan.
mirrors slog_server.cpp:258-265 -/
def UserRemoteAppLogInfo.start (stPb : UserRemoteAppLogInfo) (dwCurrentTime : Nat) :
    UserRemoteAppLogInfo :=
  { stPb with
    next_check_log_space_time := dwCurrentTime
    tmp_remain_app_count := 0
    oldest_log_file_app_id := 0
    oldest_log_file_time := 0
    total_app_log_size := 0 }

/-! ## Apps by id, the deletion mark and the answers -/

namespace SLogAppInfo

/-- `GetAppInfo(iAppId, NULL)` from entry `j` on, with `i` used entries before it.
mirrors lib/mtagent_api_open/supper_log.cpp:1655-1669 -/
def getAppInfoFrom (shm : SLogAppInfo) (iAppId : Int) : Nat → Nat → Nat → Option Nat
  | 0, _, _ => none
  | n + 1, j, i =>
    if (shm.stInfo j).iAppId = iAppId then some j
    else if (shm.stInfo j).iAppId ≠ 0 then
      if (i + 1 : Int) ≥ shm.iAppCount then none else shm.getAppInfoFrom iAppId n (j + 1) (i + 1)
    else shm.getAppInfoFrom iAppId n (j + 1) i

/-- mirrors supper_log.cpp:1720-1726 -/
def getAppInfo (shm : SLogAppInfo) (iAppId : Int) : Option Nat :=
  shm.getAppInfoFrom iAppId maxSlogAppCount 0 0

def setApp (shm : SLogAppInfo) (j : Nat) (app : AppInfo) : SLogAppInfo :=
  { shm with stInfo := Function.update shm.stInfo j app }

/-- mirrors slog_server.cpp:222-240 -/
def checkRemoveAppLog (shm : SLogAppInfo) (iMaxLogSizeM : Int) (stPb : UserRemoteAppLogInfo) :
    SLogAppInfo :=
  if iMaxLogSizeM ≤ 0 then shm
  else if toS32 (stPb.total_app_log_size / 1048576 % 2 ^ 32) ≥ iMaxLogSizeM then
    match shm.getAppInfo stPb.oldest_log_file_app_id with
    | none => shm
    | some j =>
      let app := shm.stInfo j
      -- `APPLOG_FILE_FLAG_DELETE_OLD_FILE` and `APPLOG_FLAG_LOG_WRITED`
      shm.setApp j { app with
        dwAppLogFlag := app.dwAppLogFlag ||| 2048 ||| 32
        dwDeleteLogFileTime := stPb.oldest_log_file_time }
  else shm

end SLogAppInfo

def AppLogSizeInfo.stat (info : AppLogSizeInfo) : TLogStatInfo :=
  ⟨info.log_size, info.debug_logs_count, info.info_logs_count, info.warn_logs_count,
    info.reqerr_logs_count, info.error_logs_count, info.fatal_logs_count, info.other_logs_count⟩

/-- The variables of `DealGetAppLogSizeRsp`. `qwTmpAppLogSize` is a `uint32_t`. -/
structure Deal where
  shm : SLogAppInfo
  qwTmpAppLogSize : Nat
  dwOldestLogFileTime : Nat
  iOldestLogFileAppId : Int

/-- One entry of the answer.
mirrors udp_sock.cpp:122-154 -/
def Deal.info (d : Deal) (info : AppLogSizeInfo) : Deal :=
  if info.log_size ≤ 0 ∨ info.oldest_log_file_time ≤ 0 then d
  else
    match d.shm.getAppInfo info.appid with
    | none => d
    | some j =>
      let older := d.dwOldestLogFileTime = 0 ∨ d.dwOldestLogFileTime > info.oldest_log_file_time
      { shm := d.shm.setApp j
          { d.shm.stInfo j with stLogStatInfo := info.stat, bReadLogStatInfo := true }
        qwTmpAppLogSize := (d.qwTmpAppLogSize + info.log_size) % 2 ^ 32
        dwOldestLogFileTime :=
          if older then info.oldest_log_file_time else d.dwOldestLogFileTime
        iOldestLogFileAppId := if older then info.appid else d.iOldestLogFileAppId }

/-- The app table and the message in shared memory. -/
structure Shm where
  apps : SLogAppInfo
  pb : UserRemoteAppLogInfo

/-- mirrors udp_sock.cpp:105-166 -/
def dealGetAppLogSizeRsp (s : Shm) (rsp : SlogGetAppLogSizeRsp) : Shm :=
  let d := rsp.app_log_size_info.foldl Deal.info
    ⟨s.apps, s.pb.total_app_log_size % 2 ^ 32, s.pb.oldest_log_file_time,
      s.pb.oldest_log_file_app_id⟩
  { apps := d.shm
    pb := { s.pb with
      tmp_remain_app_count := s.pb.tmp_remain_app_count - rsp.req_app_count
      total_app_log_size := d.qwTmpAppLogSize
      oldest_log_file_app_id := d.iOldestLogFileAppId
      oldest_log_file_time := d.dwOldestLogFileTime } }

/-! ## What the account should be -/

def AppInfo.isLocal (e : Env) (app : AppInfo) : Bool :=
  !app.noServer && e.isIpMatchMachine app.dwAppSrvMaster

def AppInfo.isRemote (e : Env) (app : AppInfo) : Bool :=
  !app.noServer && !e.isIpMatchMachine app.dwAppSrvMaster

/-- Everything one run starts from: the apps, linked from `iAppInfoIndexStart`, the
log files that are open already, what the log servers would answer for each app,
the message of the run before, the clock and the configured limit. -/
structure Site where
  env : Env
  shm : SLogAppInfo
  iAppInfoIndexStart : Int
  files : Int → Option SLogFile
  answer : Int → AppLogSizeInfo
  stPb : UserRemoteAppLogInfo
  dwCurrentTime : Nat
  iMaxLogSizeM : Int

/-- From `i` on `iNextIndex` links the apps `l`. -/
def Follows (shm : SLogAppInfo) : Int → List Nat → Prop
  | _, [] => True
  | i, a :: l => i = a ∧ a < maxSlogAppCount ∧ Follows shm (shm.stInfo a).iNextIndex l

/-- The apps `l` are the list: linked, in use and each once, and the table counts
the entries in use. -/
structure Site.AppList (c : Site) (l : List Nat) : Prop where
  follows : Follows c.shm c.iAppInfoIndexStart l
  nodup : l.Nodup
  used : ∀ i ∈ l, (c.shm.stInfo i).iAppId ≠ 0
  count : c.shm.iAppCount =
    (range maxSlogAppCount).countP fun j => (c.shm.stInfo j).iAppId ≠ 0

namespace Site

variable (c : Site)

def noServer (i : Nat) : Bool := (c.shm.stInfo i).noServer

def isLocal (i : Nat) : Bool := (c.shm.stInfo i).isLocal c.env

def isRemote (i : Nat) : Bool := (c.shm.stInfo i).isRemote c.env

/-- The log size that a local app has in the table, if it has a log file. -/
def localSize (i : Nat) : Nat :=
  if (appLogFile c.env c.files (c.shm.stInfo i).iAppId).2.isSome then
    (c.shm.stInfo i).stLogStatInfo.qwLogSizeInfo
  else 0

/-- The log size that the log server of a remote app answers, if it has a log file. -/
def remoteSize (iAppId : Int) : Nat :=
  if (c.answer iAppId).log_size ≤ 0 ∨ (c.answer iAppId).oldest_log_file_time ≤ 0 then 0
  else (c.answer iAppId).log_size

/-- The log size of an app that has a log server and log data, else 0. -/
def logSize (i : Nat) : Nat :=
  if c.noServer i then 0
  else if c.isLocal i then c.localSize i
  else c.remoteSize (c.shm.stInfo i).iAppId

/-- The remote apps of a list with their log servers. -/
def remotes (l : List Nat) : List (TGetAppLogSizeKey × Int) :=
  (l.filter c.isRemote).map fun i =>
    (⟨(c.shm.stInfo i).dwAppSrvMaster, (c.shm.stInfo i).wLogSrvPort⟩, (c.shm.stInfo i).iAppId)

/-- The scan that `ScanAppLogSpace` makes for `n` apps.
mirrors slog_server.cpp:258-267 -/
def scan (M : ReqMap) (n : Nat) : Scan M :=
  scanAppLogSpaceByIdx c.env c.shm c.files M.empty (c.stPb.start c.dwCurrentTime) n
    c.iAppInfoIndexStart

/-- The shared memory when the requests are sent.
mirrors slog_server.cpp:267-269 -/
def scanned (M : ReqMap) (n : Nat) : Shm :=
  ⟨c.shm.checkRemoveAppLog c.iMaxLogSizeM (c.scan M n).stPb, (c.scan M n).stPb⟩

/-- The entry of an answer for an app. -/
def entry (iAppId : Int) : AppLogSizeInfo := { c.answer iAppId with appid := iAppId }

/-- The answer to a request, with an entry for each of its apps. -/
def Answers (req : TGetAppLogSizeKey × List Int) (rsp : SlogGetAppLogSizeRsp) : Prop :=
  rsp.req_app_count = req.2.length ∧ rsp.app_log_size_info.Perm (req.2.map c.entry)

/-- One answer to each request, in any order. -/
def Answered (M : ReqMap) (n : Nat) (rsps : List SlogGetAppLogSizeRsp) : Prop :=
  ∃ reqs, reqs.Perm (M.entries (c.scan M n).stMapLogSizeReqInfo) ∧ Forall₂ c.Answers reqs rsps

/-- The scan of the apps `l`, followed by the answers, accounts for all of them. -/
structure Accounted (M : ReqMap) (l : List Nat) (rsps : List SlogGetAppLogSizeRsp) : Prop where
  visited : (c.scan M l.length).visited.Perm l
  asked : (M.values (c.scan M l.length).stMapLogSizeReqInfo).Perm ((c.remotes l).map Prod.snd)
  total : (rsps.foldl dealGetAppLogSizeRsp (c.scanned M l.length)).pb.total_app_log_size =
    (l.map c.logSize).sum % 2 ^ 64
  remain : (rsps.foldl dealGetAppLogSizeRsp (c.scanned M l.length)).pb.tmp_remain_app_count =
    l.countP c.noServer

end Site

/-! ## The walk -/

section Walk

variable {M : ReqMap} {e : Env} {shm : SLogAppInfo} {n : Nat}

/-- A round on app `i`. -/
def scanOne (e : Env) (shm : SLogAppInfo) (s : Scan M) (i : Nat) : Scan M :=
  if (shm.stInfo i).noServer then s.visit i
  else if e.isIpMatchMachine (shm.stInfo i).dwAppSrvMaster then (s.visit i).addLocal e (shm.stInfo i)
  else (s.visit i).addRemote (shm.stInfo i)

theorem scanLoop_succ {i : Nat} (hi : i < maxSlogAppCount) (s : Scan M) :
    scanLoop e shm (n + 1) i s = scanLoop e shm n
      (if (shm.stInfo i).noServer then i else (shm.stInfo i).iNextIndex) (scanOne e shm s i) := by
  rw [scanLoop, if_neg (by omega)]
  simp only [Int.toNat_natCast, scanOne]
  cases (shm.stInfo i).noServer with
  | true => rfl
  | false =>
    simp only [Bool.false_eq_true, if_false]
    split <;> rfl

/-- The apps that the walk looks at: on the first without a log server it stays, once
for every app that is left. -/
def walked (shm : SLogAppInfo) : List Nat → List Nat
  | [] => []
  | a :: l => if (shm.stInfo a).noServer then replicate (l.length + 1) a else a :: walked shm l

theorem scanLoop_stuck {i : Nat} (hi : i < maxSlogAppCount) (hs : (shm.stInfo i).noServer = true) :
    ∀ n (s : Scan M),
      scanLoop e shm n i s = (replicate n i).foldl (scanOne e shm) s := by
  intro n
  induction n with
  | zero =>
    intro s
    rfl
  | succ n ih =>
    intro s
    rw [scanLoop_succ hi, if_pos hs, ih, replicate_succ, foldl_cons]

theorem scanLoop_eq : ∀ {l} {i} {s : Scan M}, Follows shm i l →
      scanLoop e shm l.length i s = (walked shm l).foldl (scanOne e shm) s
  | [], _, _, _ => rfl
  | a :: l, _, s, h => by
    obtain ⟨rfl, ha, hl⟩ := h
    unfold walked
    cases hs : (shm.stInfo a).noServer with
    | true => exact scanLoop_stuck ha hs _ s
    | false => rw [length_cons, scanLoop_succ ha, hs, if_neg (by simp), scanLoop_eq hl]; rfl

/-- The walk is through the list when only the last app has no log server. -/
theorem walked_eq : ∀ {l}, (∀ i ∈ l.dropLast, (shm.stInfo i).noServer = false) →
    walked shm l = l
  | [], _ => rfl
  | [a], _ => by simp [walked]
  | a :: b :: l, h => by
    rw [walked, h a mem_cons_self, walked_eq fun i hi => h i (mem_cons_of_mem _ hi)]
    rfl

/-- A walk that never comes back to an app passes all but the last. -/
theorem server_of_nodup : ∀ {l}, (walked shm l).Nodup →
    ∀ i ∈ l.dropLast, (shm.stInfo i).noServer = false
  | [], _ => by simp
  | [a], _ => by simp
  | a :: b :: l, h => by
    unfold walked at h
    split at h
    case isTrue => simp at h
    case isFalse ha =>
      intro i hi
      rcases mem_cons.mp hi with rfl | hi
      · exact Bool.eq_false_iff.mpr ha
      · exact server_of_nodup (nodup_cons.mp h).2 i hi

end Walk

/-! ## What the walk has counted -/

theorem appLogFile_snd (e : Env) (m : Int → Option SLogFile) (a b : Int) :
    (appLogFile e (appLogFile e m a).1 b).2 = (appLogFile e m b).2 := by
  unfold appLogFile
  cases ha : m a with
  | some f => rfl
  | none =>
    cases hg : e.getAppLogFileShm a with
    | none => rfl
    | some f =>
      dsimp only
      by_cases hb : b = a
      · subst hb
        rw [Function.update_self, ha, hg]
      · rw [Function.update_of_ne hb]
        cases m b with
        | some f' => rfl
        | none => cases e.getAppLogFileShm b <;> rfl

namespace UserRemoteAppLogInfo

/-- The two counts of the message. -/
def counts (pb : UserRemoteAppLogInfo) : Nat × Int := (pb.total_app_log_size, pb.tmp_remain_app_count)

end UserRemoteAppLogInfo

namespace Site

variable {c : Site} {M : ReqMap} {l : List Nat} {i N : Nat} {s : Scan M}

theorem kinds (c : Site) (i : Nat) :
    (c.noServer i = true ∧ c.isLocal i = false ∧ c.isRemote i = false) ∨
    (c.noServer i = false ∧ c.isLocal i = true ∧ c.isRemote i = false) ∨
    (c.noServer i = false ∧ c.isLocal i = false ∧ c.isRemote i = true) := by
  unfold noServer isLocal isRemote AppInfo.isLocal AppInfo.isRemote
  cases (c.shm.stInfo i).noServer <;>
    cases c.env.isIpMatchMachine (c.shm.stInfo i).dwAppSrvMaster <;> simp

/-- The log sizes of the local apps. -/
def localSum (c : Site) (l : List Nat) : Nat :=
  (l.map fun i => if c.isLocal i then c.localSize i else 0).sum

theorem localSum_concat (c : Site) (l : List Nat) (i : Nat) :
    c.localSum (l ++ [i]) = c.localSum l + if c.isLocal i then c.localSize i else 0 := by
  simp [localSum]

theorem remotes_concat (c : Site) (l : List Nat) (i : Nat) :
    c.remotes (l ++ [i]) = c.remotes l ++ if c.isRemote i then
      [(⟨(c.shm.stInfo i).dwAppSrvMaster, (c.shm.stInfo i).wLogSrvPort⟩, (c.shm.stInfo i).iAppId)]
      else [] := by
  unfold remotes
  cases hr : c.isRemote i <;> simp [hr]

/-- The loop has been through the apps `l`. -/
structure Scanned (c : Site) (N : Nat) (l : List Nat) (s : Scan M) : Prop where
  remain : s.iTmpRemainAppCount = N - l.countP c.isLocal
  size : s.qwTmpAppLogSize = c.localSum l % 2 ^ 64
  files : ∀ a, (appLogFile c.env s.mapAppLogFileShm a).2 = (appLogFile c.env c.files a).2
  reqs : s.stMapLogSizeReqInfo = M.pushAll M.empty (c.remotes l)
  visited : s.visited = l
  counts : s.stPb.counts = (0, 0)

theorem Scanned.addLocal (h : Scanned c N l s) (hi : c.isLocal i = true) (hr : c.isRemote i = false) :
    Scanned c N (l ++ [i]) ((s.visit i).addLocal c.env (c.shm.stInfo i)) := by
  have hf := h.files (c.shm.stInfo i).iAppId
  have hfs := appLogFile_snd c.env s.mapAppLogFileShm (c.shm.stInfo i).iAppId
  have hremain : s.iTmpRemainAppCount - 1 = (N : Int) - (l ++ [i]).countP c.isLocal := by
    rw [h.remain, countP_append, countP_singleton, if_pos hi]
    omega
  have hreqs : s.stMapLogSizeReqInfo = M.pushAll M.empty (c.remotes (l ++ [i])) := by
    rw [h.reqs, remotes_concat, hr]
    simp
  have hsize := localSum_concat c l i
  rw [if_pos hi, localSize, ← hf] at hsize
  have hvisited : s.visited ++ [i] = l ++ [i] := congrArg (· ++ [i]) h.visited
  unfold Scan.addLocal
  simp only [Scan.visit]
  cases hc : appLogFile c.env s.mapAppLogFileShm (c.shm.stInfo i).iAppId with
  | mk m o =>
    rw [hc] at hfs hsize
    have hfiles a := (hfs a).trans (h.files a)
    cases o with
    | none => exact ⟨hremain, by rw [hsize]; exact h.size, hfiles, hreqs, hvisited, h.counts⟩
    | some f =>
      refine ⟨hremain, by simp [hsize, h.size], hfiles, hreqs, hvisited, .trans ?_ h.counts⟩
      unfold UserRemoteAppLogInfo.older
      dsimp only
      split <;> rfl

theorem Scanned.scanOne (h : Scanned c N l s) (i : Nat) :
    Scanned c N (l ++ [i]) (scanOne c.env c.shm s i) := by
  unfold LogSpace.scanOne
  split
  case isTrue hs =>
    have hi : c.isLocal i = false := by simp [isLocal, AppInfo.isLocal, hs]
    have hr : c.isRemote i = false := by simp [isRemote, AppInfo.isRemote, hs]
    exact ⟨by simp [Scan.visit, h.remain, hi], by simp [Scan.visit, h.size, localSum_concat, hi],
      h.files, by simp [Scan.visit, h.reqs, remotes_concat, hr],
      congrArg (· ++ [i]) h.visited, h.counts⟩
  case isFalse hs =>
    split
    case isTrue hm =>
      exact h.addLocal (by simp [isLocal, AppInfo.isLocal, hs, hm])
        (by simp [isRemote, AppInfo.isRemote, hm])
    case isFalse hm =>
      have hi : c.isLocal i = false := by simp [isLocal, AppInfo.isLocal, hm]
      have hr : c.isRemote i = true := by simp [isRemote, AppInfo.isRemote, hs, hm]
      exact ⟨by simp [Scan.addRemote, Scan.visit, h.remain, hi],
        by simp [Scan.addRemote, Scan.visit, h.size, localSum_concat, hi], h.files,
        by simp [Scan.addRemote, Scan.visit, h.reqs, remotes_concat, hr, Map.pushAll],
        congrArg (· ++ [i]) h.visited, h.counts⟩

theorem Scanned.run : ∀ l' {l} {s : Scan M}, Scanned c N l s →
    Scanned c N (l ++ l') (l'.foldl (LogSpace.scanOne c.env c.shm) s)
  | [], l, s, h => by rwa [append_nil]
  | i :: l', l, s, h => by
    have h1 := Scanned.run l' (h.scanOne i)
    rw [append_assoc] at h1
    exact h1

theorem scan_spec (h : c.AppList l) (M : ReqMap) : (c.scan M l.length).visited = walked c.shm l ∧
    (c.scan M l.length).stMapLogSizeReqInfo = M.pushAll M.empty (c.remotes (walked c.shm l)) ∧
    (c.scan M l.length).stPb.total_app_log_size = c.localSum (walked c.shm l) % 2 ^ 64 ∧
    (c.scan M l.length).stPb.tmp_remain_app_count =
      max 0 ((l.length : Int) - (walked c.shm l).countP c.isLocal) := by
  have h0 : Scanned c l.length []
      ⟨l.length, 0, c.stPb.start c.dwCurrentTime, c.files, M.empty, []⟩ :=
    ⟨by simp, by simp [localSum], fun _ => rfl, rfl, rfl, rfl⟩
  have hs := Scanned.run (walked c.shm l) h0
  unfold scan scanAppLogSpaceByIdx
  rw [scanLoop_eq h.follows]
  obtain ⟨htotal, hremain⟩ := Prod.mk.inj hs.counts
  refine ⟨hs.visited, hs.reqs, ?_, ?_⟩
  · simp [Scan.finish, hs.size, htotal]
  · simp only [Scan.finish, hs.remain, nil_append]
    split <;> omega

end Site

/-! ## What the answers make of it -/

namespace SLogAppInfo

variable {shm shm' : SLogAppInfo} {a : Int}

/-- The same apps in the same entries. -/
def SameIds (shm shm' : SLogAppInfo) : Prop :=
  shm'.iAppCount = shm.iAppCount ∧ ∀ j, (shm'.stInfo j).iAppId = (shm.stInfo j).iAppId

theorem SameIds.getAppInfo (h : SameIds shm shm') (a : Int) :
    shm'.getAppInfo a = shm.getAppInfo a := by
  have hfrom : ∀ n j i, shm'.getAppInfoFrom a n j i = shm.getAppInfoFrom a n j i := by
    intro n
    induction n with
    | zero => intro j i; rfl
    | succ n ih =>
      intro j i
      simp [getAppInfoFrom, h.1, h.2 j, ih]
  exact hfrom _ _ _

theorem SameIds.setApp {j : Nat} {app : AppInfo} (h : app.iAppId = (shm.stInfo j).iAppId) :
    SameIds shm (shm.setApp j app) := by
  refine ⟨rfl, fun k => ?_⟩
  by_cases hk : k = j
  · subst hk
    simp [SLogAppInfo.setApp, h]
  · simp [SLogAppInfo.setApp, Function.update_of_ne hk]

theorem SameIds.trans {shm'' : SLogAppInfo} (h : SameIds shm shm') (h' : SameIds shm' shm'') :
    SameIds shm shm'' :=
  ⟨h'.1.trans h.1, fun j => (h'.2 j).trans (h.2 j)⟩

theorem checkRemoveAppLog_sameIds (n : Int) (pb : UserRemoteAppLogInfo) :
    SameIds shm (shm.checkRemoveAppLog n pb) := by
  have hrefl : SameIds shm shm := ⟨rfl, fun _ => rfl⟩
  unfold checkRemoveAppLog
  split
  · exact hrefl
  split
  · split
    · exact hrefl
    · exact SameIds.setApp rfl
  · exact hrefl

/-- An app is found by its id, when the table counts its entries right. -/
theorem getAppInfoFrom_isSome (ha : a ≠ 0) :
    ∀ (n j i : Nat), (∃ k, j ≤ k ∧ k < j + n ∧ (shm.stInfo k).iAppId = a) →
      (i : Int) + (range' j n).countP (fun k => (shm.stInfo k).iAppId ≠ 0) ≤ shm.iAppCount →
      (shm.getAppInfoFrom a n j i).isSome := by
  intro n
  induction n with
  | zero =>
    omega
  | succ n ih =>
    rintro j i ⟨k, hjk, hk, hka⟩ hcount
    rw [range'_succ, countP_cons] at hcount
    unfold getAppInfoFrom
    by_cases hj : (shm.stInfo j).iAppId = a
    · rw [if_pos hj]
      rfl
    rw [if_neg hj]
    -- the entry looked for is behind `j`, so it is not counted yet
    have hne : j ≠ k := fun h => hj (h ▸ hka)
    have hk' : ∃ k, j + 1 ≤ k ∧ k < j + 1 + n ∧ (shm.stInfo k).iAppId = a :=
      ⟨k, by omega, by omega, hka⟩
    have hpos : 0 < (range' (j + 1) n).countP (fun k => (shm.stInfo k).iAppId ≠ 0) := by
      refine countP_pos_iff.mpr ⟨k, mem_range'_1.mpr ⟨by omega, by omega⟩, ?_⟩
      simpa [hka] using ha
    by_cases h0 : (shm.stInfo j).iAppId = 0
    · rw [if_neg (by simp [h0])] at hcount
      rw [if_neg (not_not.mpr h0)]
      exact ih (j + 1) i hk' hcount
    · rw [if_pos (decide_eq_true h0)] at hcount
      rw [if_pos h0, if_neg (by omega)]
      exact ih (j + 1) (i + 1) hk' (by omega)

end SLogAppInfo

def AppLogSizeInfo.size (info : AppLogSizeInfo) : Nat :=
  if info.log_size ≤ 0 ∨ info.oldest_log_file_time ≤ 0 then 0 else info.log_size

theorem Deal.info_spec {d : Deal} {info : AppLogSizeInfo} (hd : d.qwTmpAppLogSize < 2 ^ 32)
    (hf : (d.shm.getAppInfo info.appid).isSome) :
    (d.info info).qwTmpAppLogSize = (d.qwTmpAppLogSize + info.size) % 2 ^ 32 ∧
      d.shm.SameIds (d.info info).shm := by
  unfold Deal.info AppLogSizeInfo.size
  split
  · exact ⟨(Nat.mod_eq_of_lt hd).symm, rfl, fun _ => rfl⟩
  · obtain ⟨j, hj⟩ := Option.isSome_iff_exists.mp hf
    rw [hj]
    exact ⟨rfl, SLogAppInfo.SameIds.setApp rfl⟩

theorem Deal.infos_spec {infos : List AppLogSizeInfo} : ∀ {d}, d.qwTmpAppLogSize < 2 ^ 32 →
      (∀ info ∈ infos, (d.shm.getAppInfo info.appid).isSome) →
      (infos.foldl Deal.info d).qwTmpAppLogSize =
          (d.qwTmpAppLogSize + (infos.map AppLogSizeInfo.size).sum) % 2 ^ 32 ∧
        d.shm.SameIds (infos.foldl Deal.info d).shm := by
  induction infos with
  | nil =>
    intro d hd _
    exact ⟨(Nat.mod_eq_of_lt hd).symm, rfl, fun _ => rfl⟩
  | cons info infos ih =>
    intro d hd hf
    obtain ⟨hsize, hids⟩ := Deal.info_spec hd (hf info mem_cons_self)
    have hlt : (d.info info).qwTmpAppLogSize < 2 ^ 32 := hsize ▸ Nat.mod_lt _ (by decide)
    have hf' : ∀ info' ∈ infos, ((d.info info).shm.getAppInfo info'.appid).isSome := by
      intro info' hm
      rw [hids.getAppInfo]
      exact hf info' (mem_cons_of_mem _ hm)
    obtain ⟨htotal, hall⟩ := ih hlt hf'
    refine ⟨?_, hids.trans hall⟩
    rw [foldl_cons, htotal, hsize, Nat.mod_add_mod, map_cons, sum_cons, add_assoc]

namespace Site

variable {c : Site}

theorem deal_spec {s : Shm} {req : TGetAppLogSizeKey × List Int} {rsp : SlogGetAppLogSizeRsp}
    (ha : c.Answers req rsp) (hf : ∀ a ∈ req.2, (s.apps.getAppInfo a).isSome) :
    (dealGetAppLogSizeRsp s rsp).pb.total_app_log_size =
        (s.pb.total_app_log_size + (req.2.map c.remoteSize).sum) % 2 ^ 32 ∧
      (dealGetAppLogSizeRsp s rsp).pb.tmp_remain_app_count =
        s.pb.tmp_remain_app_count - req.2.length ∧
      s.apps.SameIds (dealGetAppLogSizeRsp s rsp).apps := by
  obtain ⟨hcount, hperm⟩ := ha
  have hf' : ∀ info ∈ rsp.app_log_size_info, (s.apps.getAppInfo info.appid).isSome := by
    intro info hm
    obtain ⟨a, hreq, rfl⟩ := mem_map.mp (hperm.mem_iff.mp hm)
    exact hf a hreq
  have hsum : (rsp.app_log_size_info.map AppLogSizeInfo.size).sum = (req.2.map c.remoteSize).sum := by
    rw [(hperm.map AppLogSizeInfo.size).sum_eq, map_map]
    rfl
  obtain ⟨htotal, hids⟩ := Deal.infos_spec
    (d := ⟨s.apps, s.pb.total_app_log_size % 2 ^ 32, s.pb.oldest_log_file_time,
      s.pb.oldest_log_file_app_id⟩) (Nat.mod_lt _ (by decide)) hf'
  refine ⟨?_, congrArg (s.pb.tmp_remain_app_count - ·) hcount, hids⟩
  rw [hsum, Nat.mod_add_mod] at htotal
  exact htotal

/-- All answers: the total is right modulo 2^32, and shorter than that once there
was one. -/
theorem deals_spec {reqs : List (TGetAppLogSizeKey × List Int)} {rsps : List SlogGetAppLogSizeRsp}
    (ha : Forall₂ c.Answers reqs rsps) :
    ∀ {s}, (∀ a ∈ reqs.flatMap Prod.snd, (s.apps.getAppInfo a).isSome) →
      (rsps.foldl dealGetAppLogSizeRsp s).pb.total_app_log_size =
          (if reqs = [] then s.pb.total_app_log_size
          else (s.pb.total_app_log_size + ((reqs.flatMap Prod.snd).map c.remoteSize).sum) % 2 ^ 32) ∧
        (rsps.foldl dealGetAppLogSizeRsp s).pb.tmp_remain_app_count =
          s.pb.tmp_remain_app_count - (reqs.flatMap Prod.snd).length := by
  induction ha with
  | nil =>
    simp
  | @cons req rsp reqs rsps ha _ ih =>
    intro s hf
    have hmem : ∀ a ∈ req.2, a ∈ (req :: reqs).flatMap Prod.snd := fun a h => by
      exact mem_append_left _ h
    obtain ⟨htotal, hremain, hids⟩ := deal_spec ha fun a h => hf a (hmem a h)
    have hf' : ∀ a ∈ reqs.flatMap Prod.snd,
        ((dealGetAppLogSizeRsp s rsp).apps.getAppInfo a).isSome := by
      intro a h
      rw [hids.getAppInfo]
      refine hf a ?_
      exact mem_append_right _ h
    obtain ⟨htotal', hremain'⟩ := ih hf'
    rw [foldl_cons, htotal', hremain', htotal, if_neg (cons_ne_nil _ _)]
    simp only [flatMap_cons, map_append, sum_append, length_append]
    refine ⟨?_, by omega⟩
    split
    case isTrue h => simp [h]
    case isFalse => rw [Nat.mod_add_mod, add_assoc]

end Site

/-! ## The comparison of two log servers -/

theorem reqAppLogSizeCmp_iff {x y : TGetAppLogSizeKey} : reqAppLogSizeCmp x y = true ↔
      x.dwAppLogSrv > y.dwAppLogSrv ∨ x.wAppLogSrvPort > y.wAppLogSrvPort := by
  unfold reqAppLogSizeCmp
  split
  case isTrue h => simp [h]
  case isFalse h => simp [h]

theorem equiv_iff {x y : TGetAppLogSizeKey} : Equiv reqAppLogSizeCmp x y ↔ x = y := by
  constructor
  · rintro ⟨hxy, hyx⟩
    rw [← Bool.not_eq_true, reqAppLogSizeCmp_iff] at hxy hyx
    cases x
    cases y
    simp only [TGetAppLogSizeKey.mk.injEq]
    dsimp only at hxy hyx
    omega
  · rintro rfl
    have h : reqAppLogSizeCmp x x = false := by
      rw [← Bool.not_eq_true, reqAppLogSizeCmp_iff]
      omega
    exact ⟨h, h⟩

/-- The comparison is a strict weak order exactly where a larger address never has
the smaller port. -/
theorem strictWeak_iff {ks : List TGetAppLogSizeKey} :
    StrictWeak reqAppLogSizeCmp ks ↔ ∀ x ∈ ks, ∀ y ∈ ks, x.dwAppLogSrv > y.dwAppLogSrv →
      x.wAppLogSrvPort ≥ y.wAppLogSrvPort := by
  constructor
  · intro h x hx y hy hgt
    by_contra hlt
    have hxx := h.trans x hx y hy x hx (reqAppLogSizeCmp_iff.mpr (.inl hgt))
      (reqAppLogSizeCmp_iff.mpr (.inr (by omega)))
    rw [h.irrefl x hx] at hxx
    cases hxx
  · intro h
    refine ⟨fun x _ => (equiv_iff.mpr rfl).1, ?_, ?_⟩
    · intro x hx y hy z hz hxy hyz
      rw [reqAppLogSizeCmp_iff] at hxy hyz ⊢
      have hyx := h y hy x hx
      have hzy := h z hz y hy
      omega
    · intro x _ y _ z _ hxy hyz
      rw [equiv_iff] at hxy hyz ⊢
      exact hxy.trans hyz

/-! ## The account -/

namespace Site

variable {c : Site} {M : ReqMap} {l : List Nat}

/-- Every app has no log server, is local or is remote. -/
theorem length_eq (c : Site) (l : List Nat) :
    l.length = l.countP c.noServer + l.countP c.isLocal + (c.remotes l).length := by
  induction l with
  | nil => rfl
  | cons i l ih =>
    have hr : (c.remotes (i :: l)).length =
        (c.remotes l).length + if c.isRemote i then 1 else 0 := by
      unfold remotes
      cases h : c.isRemote i <;> simp [h]
    rw [countP_cons, countP_cons, hr, length_cons]
    obtain ⟨h1, h2, h3⟩ | ⟨h1, h2, h3⟩ | ⟨h1, h2, h3⟩ := c.kinds i <;>
      simp only [h1, h2, h3, if_true, Bool.false_eq_true, if_false] <;> omega

/-- The log sizes are those of the local apps and those that are asked for. -/
theorem sum_logSize (c : Site) (l : List Nat) :
    (l.map c.logSize).sum = c.localSum l + (((c.remotes l).map Prod.snd).map c.remoteSize).sum := by
  unfold localSum
  induction l with
  | nil => rfl
  | cons i l ih =>
    have hr : (((c.remotes (i :: l)).map Prod.snd).map c.remoteSize).sum =
        (((c.remotes l).map Prod.snd).map c.remoteSize).sum +
          if c.isRemote i then c.remoteSize (c.shm.stInfo i).iAppId else 0 := by
      unfold remotes
      cases h : c.isRemote i <;> simp [h, add_comm]
    rw [map_cons, sum_cons, map_cons, sum_cons, hr]
    obtain ⟨h1, h2, h3⟩ | ⟨h1, h2, h3⟩ | ⟨h1, h2, h3⟩ := c.kinds i <;>
      simp only [logSize, h1, h2, h3, if_true, Bool.false_eq_true, if_false] <;> omega

theorem AppList.getAppInfo (h : c.AppList l) {a : Int} (ha : a ∈ (c.remotes l).map Prod.snd) :
    (c.shm.getAppInfo a).isSome := by
  simp only [remotes, map_map, mem_map, mem_filter] at ha
  obtain ⟨i, ⟨hi, -⟩, rfl⟩ := ha
  have hlt : ∀ {j} {l}, Follows c.shm j l → ∀ i ∈ l, i < maxSlogAppCount := by
    intro j l
    induction l generalizing j with
    | nil => simp
    | cons b l ih =>
      rintro ⟨-, hb, hl⟩ i hi
      rcases mem_cons.mp hi with rfl | hi
      · exact hb
      · exact ih hl i hi
  refine SLogAppInfo.getAppInfoFrom_isSome (h.used i hi) _ 0 0
    ⟨i, Nat.zero_le i, by simpa using hlt h.follows i hi, rfl⟩ ?_
  rw [h.count, range_eq_range']
  simp

/-- What an app list has to keep to for its account to be right. -/
structure Countable (c : Site) (l : List Nat) : Prop where
  server : ∀ i ∈ l.dropLast, c.noServer i = false
  total : (∃ i ∈ l, c.isRemote i = true) → (l.map c.logSize).sum % 2 ^ 64 < 2 ^ 32
  order : ∀ i ∈ l, ∀ j ∈ l, c.isRemote i = true → c.isRemote j = true →
    (c.shm.stInfo i).dwAppSrvMaster > (c.shm.stInfo j).dwAppSrvMaster →
    (c.shm.stInfo i).wLogSrvPort ≥ (c.shm.stInfo j).wLogSrvPort

theorem strictWeak_remotes (c : Site) (l : List Nat) :
    StrictWeak reqAppLogSizeCmp (keys (c.remotes l)) ↔
      ∀ i ∈ l, ∀ j ∈ l, c.isRemote i = true → c.isRemote j = true →
        (c.shm.stInfo i).dwAppSrvMaster > (c.shm.stInfo j).dwAppSrvMaster →
        (c.shm.stInfo i).wLogSrvPort ≥ (c.shm.stInfo j).wLogSrvPort := by
  have hmem : ∀ x, x ∈ keys (c.remotes l) ↔ ∃ i, (i ∈ l ∧ c.isRemote i = true) ∧
      ⟨(c.shm.stInfo i).dwAppSrvMaster, (c.shm.stInfo i).wLogSrvPort⟩ = x := by
    intro x
    simp [OrderedMap.keys, remotes]
  rw [strictWeak_iff]
  constructor
  · intro h i hi j hj hri hrj
    exact h _ ((hmem _).mpr ⟨i, ⟨hi, hri⟩, rfl⟩) _ ((hmem _).mpr ⟨j, ⟨hj, hrj⟩, rfl⟩)
  · intro h x hx y hy
    obtain ⟨i, ⟨hi, hri⟩, rfl⟩ := (hmem x).mp hx
    obtain ⟨j, ⟨hj, hrj⟩, rfl⟩ := (hmem y).mp hy
    exact h i hi j hj hri hrj

/-- A list whose walk passes all apps but the last: what the scan leaves. -/
theorem scan_passes (h : c.AppList l) (hs : ∀ i ∈ l.dropLast, c.noServer i = false) (M : ReqMap) :
    (c.scan M l.length).visited = l ∧
    (c.scan M l.length).stMapLogSizeReqInfo = M.pushAll M.empty (c.remotes l) ∧
    (c.scan M l.length).stPb.total_app_log_size = c.localSum l % 2 ^ 64 ∧
    (c.scan M l.length).stPb.tmp_remain_app_count = l.countP c.noServer + (c.remotes l).length := by
  have hspec := scan_spec h M
  rw [walked_eq hs] at hspec
  obtain ⟨hvisited, hreqs, htotal, hremain⟩ := hspec
  refine ⟨hvisited, hreqs, htotal, ?_⟩
  rw [hremain, c.length_eq l]
  omega

/-- The totals after the answers, over a map whose comparison orders the servers. -/
theorem totals (h : c.AppList l) (hs : ∀ i ∈ l.dropLast, c.noServer i = false)
    (ho : StrictWeak reqAppLogSizeCmp (keys (c.remotes l))) {rsps : List SlogGetAppLogSizeRsp}
    (ha : c.Answered M l.length rsps) :
    (rsps.foldl dealGetAppLogSizeRsp (c.scanned M l.length)).pb.total_app_log_size =
        (if c.remotes l = [] then (l.map c.logSize).sum % 2 ^ 64
        else (l.map c.logSize).sum % 2 ^ 32) ∧
      (rsps.foldl dealGetAppLogSizeRsp (c.scanned M l.length)).pb.tmp_remain_app_count =
        l.countP c.noServer := by
  obtain ⟨-, hreqs, htotal, hremain⟩ := scan_passes h hs M
  obtain ⟨reqs, hperm, hans⟩ := ha
  have hvals : (reqs.flatMap Prod.snd).Perm ((c.remotes l).map Prod.snd) := by
    refine (hperm.flatMap_right Prod.snd).trans ?_
    rw [hreqs]
    exact Map.pushAll_perm ho
  have hknown : ∀ a ∈ reqs.flatMap Prod.snd, ((c.scanned M l.length).apps.getAppInfo a).isSome := by
    intro a hm
    have hsame : c.shm.SameIds (c.scanned M l.length).apps :=
      SLogAppInfo.checkRemoveAppLog_sameIds _ _
    rw [hsame.getAppInfo]
    exact h.getAppInfo (hvals.mem_iff.mp hm)
  have hlen : (reqs.flatMap Prod.snd).length = (c.remotes l).length := by
    rw [hvals.length_eq, length_map]
  have hnil : reqs = [] ↔ c.remotes l = [] := by
    constructor
    · rintro rfl
      exact length_eq_zero_iff.mp hlen.symm
    · intro hz
      rw [hreqs, hz] at hperm
      exact (hperm.trans (Perm.of_eq M.entries_empty)).eq_nil
  obtain ⟨ht, hr⟩ := deals_spec hans hknown
  have htotal' : (c.scanned M l.length).pb.total_app_log_size = c.localSum l % 2 ^ 64 := htotal
  have hremain' : (c.scanned M l.length).pb.tmp_remain_app_count =
      l.countP c.noServer + (c.remotes l).length := hremain
  rw [ht, hr, hlen, (hvals.map c.remoteSize).sum_eq, htotal', hremain', sum_logSize]
  simp only [hnil]
  split
  case isTrue hz => simp [hz]
  case isFalse => omega

theorem remotes_eq_nil (c : Site) (l : List Nat) :
    c.remotes l = [] ↔ ¬ ∃ i ∈ l, c.isRemote i = true := by
  simp [remotes]

/-- The answers can always be given. -/
theorem exists_answered (c : Site) (M : ReqMap) (n : Nat) : ∃ rsps, c.Answered M n rsps := by
  let reqs := M.entries (c.scan M n).stMapLogSizeReqInfo
  refine ⟨reqs.map fun req => ⟨req.2.map c.entry, req.2.length⟩, reqs, Perm.refl _, ?_⟩
  rw [forall₂_map_right_iff, forall₂_same]
  exact fun req _ => ⟨rfl, Perm.refl _⟩

end Site

/-- For every app list: the account is right over every map that keeps the contract
of `std::map` exactly when at most the last app has no log server, the total fits
the `uint32_t` of the response handler or nothing is remote, and of two log servers
the one with the larger address never has the smaller port. -/
theorem log_space_iff (c : Site) (l : List Nat) (h : c.AppList l) :
    (∀ M rsps, c.Answered M l.length rsps → c.Accounted M l rsps) ↔ c.Countable l := by
  constructor
  · intro hall
    -- the map that keeps no value once the comparison does not order the servers
    let M : ReqMap := lossy reqAppLogSizeCmp []
    obtain ⟨rsps, hans⟩ := c.exists_answered M l.length
    have hacc := hall M rsps hans
    have hserver : ∀ i ∈ l.dropLast, c.noServer i = false := by
      refine server_of_nodup ?_
      rw [← (Site.scan_spec h M).1]
      exact hacc.visited.nodup_iff.mpr h.nodup
    have hweak : StrictWeak reqAppLogSizeCmp (keys (c.remotes l)) := by
      by_contra hns
      have hnone := lossy_pushAll (fun _ _ => equiv_iff.mp) (c.remotes l) hns
      have hasked := hacc.asked
      rw [(Site.scan_passes h hserver M).2.1, hnone] at hasked
      have hnil : c.remotes l = [] := map_eq_nil_iff.mp hasked.nil_eq.symm
      rw [hnil] at hns
      refine hns ⟨?_, ?_, ?_⟩ <;> simp [OrderedMap.keys]
    refine ⟨hserver, fun hr => ?_, (c.strictWeak_remotes l).mp hweak⟩
    have htotal := (Site.totals h hserver hweak hans).1
    rw [hacc.total, if_neg fun hz => (c.remotes_eq_nil l).mp hz hr] at htotal
    rw [htotal]
    exact Nat.mod_lt _ (by decide)
  · intro hc M rsps hans
    have hweak := (c.strictWeak_remotes l).mpr hc.order
    obtain ⟨hvisited, hreqs, -, -⟩ := Site.scan_passes h hc.server M
    obtain ⟨htotal, hremain⟩ := Site.totals h hc.server hweak hans
    refine ⟨.of_eq hvisited, ?_, ?_, hremain⟩
    · rw [hreqs]
      exact Map.pushAll_perm hweak
    rw [htotal]
    split
    case isTrue => rfl
    case isFalse hz =>
      have hlt := hc.total (by rwa [c.remotes_eq_nil, not_not] at hz)
      omega

/-! ## Runs -/

def noStat : TLogStatInfo := ⟨0, 0, 0, 0, 0, 0, 0, 0⟩

/-- An app with its log server, its log size and the next app. -/
def appOf (iAppId : Int) (dwAppSrvMaster wLogSrvPort size : Nat) (iNextIndex : Int) : AppInfo :=
  ⟨iAppId, dwAppSrvMaster, wLogSrvPort, 0, 0, false, { noStat with qwLogSizeInfo := size }, iNextIndex⟩

/-- The machine with address 1, whose local apps have a log file. -/
def siteOf (apps : List AppInfo) : Site where
  env := ⟨fun ip => ip == 1, fun _ => some ⟨1, 1000000⟩⟩
  shm := ⟨apps.length, fun i => apps.getD i (appOf 0 0 0 0 0)⟩
  iAppInfoIndexStart := 0
  files := fun _ => none
  answer := fun a => ⟨a, 7, 1, 0, 0, 0, 0, 0, 0, 0⟩
  stPb := ⟨0, 0, 0, 0, 0⟩
  dwCurrentTime := 0
  iMaxLogSizeM := 0

/-- A local app, a remote one, and behind them one without a log server. -/
theorem log_space_iff_three :
    let c := siteOf [appOf 5 1 80 100 1, appOf 6 2 80 0 2, appOf 7 0 0 0 0]
    c.AppList [0, 1, 2] ∧ ∀ M rsps, c.Answered M 3 rsps → c.Accounted M [0, 1, 2] rsps := by
  intro c
  have h : c.AppList [0, 1, 2] :=
    ⟨⟨rfl, by decide, rfl, by decide, rfl, by decide, trivial⟩, by decide, by decide,
      by decide +kernel⟩
  refine ⟨h, (log_space_iff c [0, 1, 2] h).mpr ⟨by decide, ?_, by decide⟩⟩
  decide

/-- An app without a log server and then a local one: the walk looks at the first
twice and never at the second. -/
theorem log_space_stuck :
    let c := siteOf [appOf 5 0 0 0 1, appOf 6 1 80 100 0]
    c.AppList [0, 1] ∧ ∀ M rsps, (c.scan M 2).visited = [0, 0] ∧ ¬ c.Accounted M [0, 1] rsps := by
  intro c
  have h : c.AppList [0, 1] :=
    ⟨⟨rfl, by decide, rfl, by decide, trivial⟩, by decide, by decide, by decide +kernel⟩
  refine ⟨h, fun M rsps => ?_⟩
  have hv : (c.scan M 2).visited = [0, 0] := (Site.scan_spec h M).1
  refine ⟨hv, fun hacc => ?_⟩
  have hp : (c.scan M 2).visited.Perm [0, 1] := hacc.visited
  rw [hv] at hp
  exact absurd hp (by decide)

end DesPwd.L4.LogSpace
