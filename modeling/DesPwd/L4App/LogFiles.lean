import DesPwd.Core.ByteFile
import DesPwd.Core.Bytes

/-!
# The log files of an app

`CSLogServerWriteFile` keeps the list of an app's log files in shared memory:
`wLogFileCount` and the array `stFiles`, each entry with the name of the file and
a copy of its head. `AddNewSlogFile` starts the next file behind the last one,
`RemoveFileInfo` takes one out, with the file itself and with its part of the
app's statistics (lib/mtagent_api_open/supper_log.cpp).

* `addNewSlogFile_fopen_failed`: when the file cannot be created,
  `RemoveFileInfo` is called for an index that is not in the list; the count
  goes down all the same.
-/
namespace DesPwd.L4.LogFiles

open Bytes
open List hiding Vector
open Function (update update_self update_of_ne)

/-! ## Data -/

/-- `SLOG_LOG_FILES_COUNT_MAX` -/
def slogLogFilesCountMax : Nat := 400
/-- `SLOG_LOG_RECORDS_COUNT_MAX` -/
def slogLogRecordsCountMax : Nat := 200000
/-- `SLOG_CHECK_BYTES_ORDER_NUM` -/
def slogCheckBytesOrderNum : UInt16 := 1223
/-- `SLOG_FILE_VERSION_CUR` -/
def slogFileVersionCur : UInt8 := 2
/-- `SEC_USEC` -/
def secUsec : UInt64 := 1000000

/-- mirrors `TLogStatInfo` -/
structure LogStatInfo where
  qwLogSizeInfo : UInt64
  dwDebugLogsCount : UInt32
  dwInfoLogsCount : UInt32
  dwWarnLogsCount : UInt32
  dwReqerrLogsCount : UInt32
  dwErrorLogsCount : UInt32
  dwFatalLogsCount : UInt32
  dwOtherLogsCount : UInt32
  deriving DecidableEq

/-- mirrors `SLogFileHead` -/
structure LogFileHead where
  szCheckDigit : Vector UInt8 40
  wCheckByteOrder : UInt16
  qwLogTimeStart : UInt64
  qwLogTimeEnd : UInt64
  iLogRecordsWrite : Int32
  iLogRecordsMax : Int32
  bLogFileVersion : UInt8
  stLogStatInfo : LogStatInfo
  deriving DecidableEq

/-- mirrors `SLogFileLogIndex_ver2` -/
structure LogFileLogIndex where
  bLogCustLen : UInt8
  dwLogCustPos : UInt32
  dwLogConfigId : UInt32
  dwLogHost : UInt32
  iAppId : Int32
  iModuleId : Int32
  wLogType : UInt16
  dwLogSeq : UInt32
  qwLogTime : UInt64
  dwLogContentLen : UInt32
  dwLogContentPos : UInt32
  deriving DecidableEq

/-- mirrors `SLogFileInfo` -/
structure LogFileInfo where
  szAbsFileName : Bytes
  qwLogTimeStart : UInt64
  stFileHead : LogFileHead
  deriving DecidableEq

/-- The fields of `AppInfo` that the file list uses. -/
structure AppInfo where
  bReadLogStatInfo : Bool
  stLogStatInfo : LogStatInfo
  deriving DecidableEq

/-- The memory images in which heads and indexes are in a file. -/
structure Images where
  head : Image LogFileHead
  index : Image LogFileLogIndex

/-- mirrors `CSLogServerWriteFile` with the `SLogFile` in shared memory.
`m_fpLogFile` is the name of the open file and `disk` the files that exist. -/
structure WriteFile where
  m_szLogFilePath : Bytes
  wLogFileCount : UInt16
  stFiles : Nat → LogFileInfo
  m_pAppInfo : Option AppInfo
  m_fpLogFile : Option Bytes
  m_wCurFpLogFileIndex : UInt16
  disk : Bytes → Option ByteFile

/-! ## RemoveFileInfo -/

/-- The subtraction of `CHECK_LOG_STAT_INFO`. -/
def checkLogStatInfo {w : Type} [LT w] [DecidableLT w] [Sub w] [OfNat w 0] (a b : w) : w :=
  if a < b then 0 else a - b

def LogStatInfo.sub (a b : LogStatInfo) : LogStatInfo where
  qwLogSizeInfo := checkLogStatInfo a.qwLogSizeInfo b.qwLogSizeInfo
  dwDebugLogsCount := checkLogStatInfo a.dwDebugLogsCount b.dwDebugLogsCount
  dwInfoLogsCount := checkLogStatInfo a.dwInfoLogsCount b.dwInfoLogsCount
  dwWarnLogsCount := checkLogStatInfo a.dwWarnLogsCount b.dwWarnLogsCount
  dwReqerrLogsCount := checkLogStatInfo a.dwReqerrLogsCount b.dwReqerrLogsCount
  dwErrorLogsCount := checkLogStatInfo a.dwErrorLogsCount b.dwErrorLogsCount
  dwFatalLogsCount := checkLogStatInfo a.dwFatalLogsCount b.dwFatalLogsCount
  dwOtherLogsCount := checkLogStatInfo a.dwOtherLogsCount b.dwOtherLogsCount

/-- mirrors supper_log.cpp:4847-4890 -/
def AppInfo.removeStat (app : AppInfo) (head : LogFileHead) : AppInfo :=
  if app.bReadLogStatInfo then
    { app with stLogStatInfo := app.stLogStatInfo.sub head.stLogStatInfo }
  else app

/-- The loop that moves the `n` entries behind `i` one place down;
mirrors supper_log.cpp:4892-4894 -/
def moveDown {α : Type} : Nat → Nat → (Nat → α) → Nat → α
  | 0, _, f => f
  | n + 1, i, f => moveDown n (i + 1) (update f i (f (i + 1)))

/-- `rm -f` of a name, which `szSysCmdRemove` cuts at 249 bytes. -/
def rmFile (disk : Bytes → Option ByteFile) (name : Bytes) : Bytes → Option ByteFile :=
  update disk (name.take 249) none

/-- mirrors supper_log.cpp:4836-4900 -/
def removeFileInfo (st : WriteFile) (iFileIndex : Nat) : WriteFile :=
  let count := st.wLogFileCount - 1
  { st with
    disk := rmFile st.disk (st.stFiles iFileIndex).szAbsFileName
    m_pAppInfo := st.m_pAppInfo.map (·.removeStat (st.stFiles iFileIndex).stFileHead)
    stFiles := moveDown (st.wLogFileCount.toNat - (iFileIndex + 1)) iFileIndex st.stFiles
    wLogFileCount := count
    m_wCurFpLogFileIndex := if 0 < count then count - 1 else 400 }

/-! ## AddNewSlogFile -/

/-- What the calls of stdio in `AddNewSlogFile` do: whether the file is opened,
whether its head is written, and how many indexes are. -/
structure CreateIo where
  fopen : Bool
  fwriteHead : Bool
  fwriteIndex : Nat

inductive Created where
  | ok
  | noFile
  | writeFailed
  deriving DecidableEq

/-- `%u` and `%lu` -/
def decimal (n : Nat) : Bytes := (Nat.toDigits 10 n).map fun c => UInt8.ofNat c.toNat

/-- mirrors supper_log.cpp:4920-4921 -/
def fileName (path : Bytes) (qwLogStartTime : UInt64) : Bytes :=
  path ++ decimal (qwLogStartTime / secUsec).toUInt32.toNat ++ [95] ++
    decimal (qwLogStartTime % secUsec).toUInt32.toNat

/-- mirrors supper_log.cpp:4939-4947 -/
def newHead (qwLogStartTime : UInt64) : LogFileHead where
  szCheckDigit := Vector.ofFn fun i => (decimal qwLogStartTime.toNat).getD i 0
  wCheckByteOrder := slogCheckBytesOrderNum
  qwLogTimeStart := qwLogStartTime
  qwLogTimeEnd := qwLogStartTime
  iLogRecordsWrite := 0
  iLogRecordsMax := Int32.ofNat slogLogRecordsCountMax
  bLogFileVersion := slogFileVersionCur
  stLogStatInfo := ⟨0, 0, 0, 0, 0, 0, 0, 0⟩

/-- mirrors supper_log.cpp:4904-4916 -/
def dropOldest (st : WriteFile) : WriteFile :=
  if slogLogFilesCountMax ≤ st.wLogFileCount.toNat then
    removeFileInfo { st with disk := update st.disk (st.stFiles 0).szAbsFileName none } 0
  else st

/-- The entry behind the last one gets its name, and the file that was open is
closed; mirrors supper_log.cpp:4918-4924 -/
def nameNext (st : WriteFile) (qwLogStartTime : UInt64) : WriteFile :=
  let i := st.wLogFileCount.toNat
  { st with
    stFiles := update st.stFiles i
      { st.stFiles i with szAbsFileName := fileName st.m_szLogFilePath qwLogStartTime }
    m_fpLogFile := none }

/-- The file is open: its entry is counted and its head and indexes are written
in advance; mirrors supper_log.cpp:4935-4981 -/
def startFile (im : Images) (io : CreateIo) (st : WriteFile) (qwLogStartTime : UInt64) :
    Created × WriteFile :=
  let i := st.wLogFileCount.toNat
  let name := (st.stFiles i).szAbsFileName
  let head := newHead qwLogStartTime
  let withHead := if io.fwriteHead then im.head.write .empty 0 head else .empty
  let n := if io.fwriteHead then min io.fwriteIndex slogLogRecordsCountMax else 0
  let file := withHead.fill im.head.size (n * im.index.size)
  (if n = slogLogRecordsCountMax then .ok else .writeFailed, { st with
      m_fpLogFile := some name
      m_wCurFpLogFileIndex := st.wLogFileCount
      wLogFileCount := st.wLogFileCount + 1
      stFiles := update st.stFiles i
        { st.stFiles i with qwLogTimeStart := qwLogStartTime, stFileHead := head }
      disk := update st.disk name (some file) })

/-- mirrors supper_log.cpp:4902-4982 -/
def addNewSlogFile (im : Images) (io : CreateIo) (st : WriteFile) (qwLogStartTime : UInt64) :
    Created × WriteFile :=
  let st := nameNext (dropOldest st) qwLogStartTime
  if io.fopen then startFile im io st qwLogStartTime
  else (.noFile, removeFileInfo st st.wLogFileCount.toNat)

/-! ## What RemoveFileInfo does to the list -/

theorem moveDown_apply {α : Type} (n : Nat) : ∀ i (f : Nat → α) k,
      moveDown n i f k = if i ≤ k ∧ k < i + n then f (k + 1) else f k := by
  induction n with
  | zero =>
    intro i f k
    rw [if_neg (by omega)]
    rfl
  | succ n ih =>
    intro i f k
    rw [moveDown, ih]
    by_cases hk : k = i
    · subst hk
      rw [if_neg (by omega), if_pos (by omega), update_self]
    rw [update_of_ne hk]
    by_cases hk1 : k + 1 = i
    · rw [if_neg (by omega), if_neg (by omega)]
    · rw [update_of_ne hk1]
      by_cases hin : i + 1 ≤ k ∧ k < i + 1 + n
      · rw [if_pos hin, if_pos (by omega)]
      · rw [if_neg hin, if_neg (by omega)]

/-! ## A file that cannot be created -/

/-- What a failed creation should leave as it was: the list, the statistics of
the app and the files of the list. -/
structure Unchanged (st st' : WriteFile) : Prop where
  count : st'.wLogFileCount = st.wLogFileCount
  entries : ∀ k, k < st.wLogFileCount.toNat → st'.stFiles k = st.stFiles k
  stat : st'.m_pAppInfo.map AppInfo.stLogStatInfo = st.m_pAppInfo.map AppInfo.stLogStatInfo
  files : ∀ k, k < st.wLogFileCount.toNat →
    st'.disk (st.stFiles k).szAbsFileName = st.disk (st.stFiles k).szAbsFileName

/-- After a failed `fopen`: the entries are as before, since the index lies
behind them, but the count is one less, the statistics that the unused entry
held are subtracted and the file of the new name is deleted. -/
theorem addNewSlogFile_fopen_failed (im : Images) {io : CreateIo} {st : WriteFile} (t : UInt64)
    (hfail : io.fopen = false) (h : st.wLogFileCount.toNat < slogLogFilesCountMax) :
    (addNewSlogFile im io st t).1 = .noFile ∧
      (addNewSlogFile im io st t).2.wLogFileCount = st.wLogFileCount - 1 ∧
      (∀ k, k < st.wLogFileCount.toNat → (addNewSlogFile im io st t).2.stFiles k = st.stFiles k) ∧
      (addNewSlogFile im io st t).2.m_pAppInfo =
        st.m_pAppInfo.map (·.removeStat (st.stFiles st.wLogFileCount.toNat).stFileHead) ∧
      (addNewSlogFile im io st t).2.disk = rmFile st.disk (fileName st.m_szLogFilePath t) := by
  unfold addNewSlogFile
  simp only [hfail, dropOldest, if_neg (not_le.2 h), nameNext, removeFileInfo, update_self]
  refine ⟨rfl, rfl, ?_, rfl, rfl⟩
  intro k hk
  simp only [Bool.false_eq_true, if_false, moveDown_apply]
  rw [if_neg (by omega), update_of_ne (by omega)]

/-- When the file cannot be created the list is never as it was. -/
theorem failed_creation_changes_list (im : Images) (io : CreateIo) (st : WriteFile) (t : UInt64)
    (hfail : io.fopen = false) (h : st.wLogFileCount.toNat < slogLogFilesCountMax) :
    ¬ Unchanged st (addNewSlogFile im io st t).2 := by
  intro hu
  have hcount := (addNewSlogFile_fopen_failed im t hfail h).2.1
  rw [hu.count] at hcount
  have h1 := congrArg UInt16.toNat hcount
  simp only [UInt16.toNat_sub, UInt16.toNat_one] at h1
  omega

/-- Images without padding. -/
def packed : Images where
  head :=
    ((Image.bytes 40).prod <| .prod .uint16 <| .prod .uint64 <| .prod .uint64 <| .prod .int32 <|
      .prod .int32 <| .prod .uint8 <| .prod .uint64 <| .prod .uint32 <| .prod .uint32 <|
      .prod .uint32 <| .prod .uint32 <| .prod .uint32 <| .prod .uint32 .uint32).of
      (fun h => (h.szCheckDigit, h.wCheckByteOrder, h.qwLogTimeStart, h.qwLogTimeEnd,
        h.iLogRecordsWrite, h.iLogRecordsMax, h.bLogFileVersion, h.stLogStatInfo.qwLogSizeInfo,
        h.stLogStatInfo.dwDebugLogsCount, h.stLogStatInfo.dwInfoLogsCount,
        h.stLogStatInfo.dwWarnLogsCount, h.stLogStatInfo.dwReqerrLogsCount,
        h.stLogStatInfo.dwErrorLogsCount, h.stLogStatInfo.dwFatalLogsCount,
        h.stLogStatInfo.dwOtherLogsCount))
      (fun (a, b, c, d, e, f, g, s0, s1, s2, s3, s4, s5, s6, s7) =>
        ⟨a, b, c, d, e, f, g, ⟨s0, s1, s2, s3, s4, s5, s6, s7⟩⟩)
      fun _ => rfl
  index :=
    (Image.uint8.prod <| .prod .uint32 <| .prod .uint32 <| .prod .uint32 <| .prod .int32 <|
      .prod .int32 <| .prod .uint16 <| .prod .uint32 <| .prod .uint64 <|
      .prod .uint32 .uint32).of
      (fun x => (x.bLogCustLen, x.dwLogCustPos, x.dwLogConfigId, x.dwLogHost, x.iAppId,
        x.iModuleId, x.wLogType, x.dwLogSeq, x.qwLogTime, x.dwLogContentLen, x.dwLogContentPos))
      (fun (a, b, c, d, e, f, g, h, i, j, k) => ⟨a, b, c, d, e, f, g, h, i, j, k⟩)
      fun _ => rfl

/-- An app without log files, of which nothing was ever written. -/
def noFiles : WriteFile where
  m_szLogFilePath := [47]
  wLogFileCount := 0
  stFiles _ := ⟨[], 0, ⟨Vector.replicate 40 0, 0, 0, 0, 0, 0, 0, ⟨0, 0, 0, 0, 0, 0, 0, 0⟩⟩⟩
  m_pAppInfo := some ⟨true, ⟨0, 0, 0, 0, 0, 0, 0, 0⟩⟩
  m_fpLogFile := none
  m_wCurFpLogFileIndex := 400
  disk _ := none

theorem failed_creation_changes_no_files :
    ¬ Unchanged noFiles (addNewSlogFile packed ⟨false, false, 0⟩ noFiles 1600000000000000).2 :=
  failed_creation_changes_list packed ⟨false, false, 0⟩ noFiles 1600000000000000 rfl (by decide)

/-- With no file in the list the count becomes 65535: the list has all 400 entries
of the array and more. -/
theorem failed_creation_count_wraps :
    (addNewSlogFile packed ⟨false, false, 0⟩ noFiles 1600000000000000).1 = .noFile ∧
      noFiles.wLogFileCount = 0 ∧
      (addNewSlogFile packed ⟨false, false, 0⟩ noFiles 1600000000000000).2.wLogFileCount = 65535 := by
  decide +kernel

end DesPwd.L4.LogFiles
