import DesPwd.Core.Buffer
import DesPwd.Core.Circular
import DesPwd.L1Encoding.LogCust
import DesPwd.L2Machine.SvVmem
import DesPwd.L4App.LogFiles

/-!
# The text of a log record in the server's ring

`WriteAppLogToShm` puts the time and the content of a received record together
in `m_sLogBuf`. A text of less than 256 bytes goes into its slot; of a longer
one the slot gets the first 256 bytes and the vmem what follows the first 252,
so that four bytes are in both. `GetShmLog` joins the two parts in a static
buffer and compares the four bytes
(lib/mtagent_api_open/supper_log.cpp).

The offset of the local time is not part of the repository: `Localtime` is any
conversion with the size of its years.

* `logText_spec`: the text that is put together.
* `fillSlot_spec`: how it is split.
* `shm_log_round_trip`: any later read of the slot returns it.
-/
namespace DesPwd.L4.ShmLog

open Bytes Run List Option Buf
open L1.LogCust (Cust writeCust)
open L2.SvVmem (VmemBuf Store Op)
open L4.LogFiles (decimal)

/-! ## Numbers in a text -/

/-- `%0wu` -/
def padded (w n : Nat) : Bytes := List.replicate (w - (decimal n).length) 48 ++ decimal n

/-- `%d` -/
def signed (i : Int) : Bytes := if i < 0 then 45 :: decimal i.natAbs else decimal i.natAbs

variable {n : Nat} {body T : Bytes} {vmem : Store}

theorem digit_of_mem_decimal {x : UInt8} (h : x ∈ decimal n) : 48 ≤ x.toNat ∧ x.toNat ≤ 57 := by
  obtain ⟨c, hc, rfl⟩ := List.mem_map.mp h
  have hd := Nat.isDigit_of_mem_toDigits (by decide) (by decide) hc
  simp only [Char.isDigit, Bool.and_eq_true, decide_eq_true_eq] at hd
  have h1 : 48 ≤ c.toNat := UInt32.le_iff_toNat_le.mp hd.1
  have h2 : c.toNat ≤ 57 := UInt32.le_iff_toNat_le.mp hd.2
  rw [UInt8.toNat_ofNat']
  omega

theorem zero_not_mem_decimal (n : Nat) : 0 ∉ decimal n := fun h =>
  absurd (digit_of_mem_decimal h).1 (by decide)

theorem length_decimal_le {k : Nat} (hk : 0 < k) (h : n < 10 ^ k) : (decimal n).length ≤ k := by
  rw [decimal, length_map]
  exact (Nat.length_toDigits_le_iff (by decide) hk).mpr h

theorem length_padded_le {w : Nat} (hw : 0 < w) (h : n < 10 ^ w) : (padded w n).length ≤ w := by
  have := length_decimal_le hw h
  rw [padded, length_append, length_replicate]
  omega

/-! ## Time -/

/-- `struct tm` as far as the format reads it. -/
structure Tm where
  tm_year : Nat
  tm_mon : Fin 12
  tm_mday : Fin 32
  tm_hour : Fin 24
  tm_min : Fin 60
  tm_sec : Fin 61

/-- `localtime_r`. The seconds of a 64-bit number of microseconds end in the
year 586524. -/
structure Localtime where
  tm : Nat → Tm
  year_lt : ∀ t, t < 2 ^ 64 / 1000000 + 1 → (tm t).tm_year + 1900 < 1000000

/-- What `strftime` prints for `%Y-%m-%d %H:%M:%S`. -/
def dateText (t : Tm) : Bytes :=
  decimal (t.tm_year + 1900) ++ (45 :: padded 2 (t.tm_mon + 1) ++ (45 :: padded 2 t.tm_mday ++
    (32 :: padded 2 t.tm_hour ++ (58 :: padded 2 t.tm_min ++ (58 :: padded 2 t.tm_sec)))))

/-- What `snprintf` prints for `.%06u `. -/
def usecText (usec : Nat) : Bytes := 46 :: padded 6 usec ++ [32]

/-- The time in front of the content of a record. -/
def timeText (lt : Localtime) (qwLogTime : UInt64) : Bytes :=
  dateText (lt.tm (qwLogTime.toNat / 1000000)) ++ usecText (qwLogTime.toNat % 1000000)

/-! ## Writing -/

/-- `BWORLD_MEMLOG_BUF_LENGTH` -/
def memlogBufLength : Nat := 256

/-- `BWORLD_SLOG_MAX_LINE_LEN` -/
def slogMaxLineLen : Nat := 1024

/-- The size of `m_sLogBuf` and of the static buffer of `GetShmLog`. -/
def logBufLen : Nat := slogMaxLineLen + 64

/-- `TOO_LONG_LOG_TRUNCATE_STR` -/
def tooLongLogTruncateStr : Bytes := "  [slog too long truncate ...]".toUTF8.toList

/-- `SLOG_TYPE_ERROR` -/
def slogTypeError : UInt16 := 4

/-- A received record; `sLog` is the memory from its custom data on.
mirrors sv_struct.h:382-393 -/
structure LogInfo where
  iAppId : Int32
  iModuleId : Int32
  dwLogConfigId : UInt32
  wLogType : UInt16
  qwLogTime : UInt64
  wCustDataLen : UInt16
  wLogDataLen : UInt16
  sLog : Bytes
  inside : wCustDataLen.toNat + wLogDataLen.toNat ≤ sLog.length

/-- The `wLogDataLen` bytes at `sLog + wCustDataLen`. -/
def LogInfo.content (l : LogInfo) : Bytes := slice l.sLog l.wCustDataLen.toNat l.wLogDataLen.toNat

/-- A slot of the ring.
mirrors supper_log.h:1674-1695 -/
structure TSLog where
  cust : Cust
  dwLogConfigId : UInt32
  dwLogHost : UInt32
  dwLogSeq : UInt32
  qwLogTime : UInt64
  iAppId : Int32
  iModuleId : Int32
  wLogType : UInt16
  iContentIndex : Int
  dwStartWriteLogTime : UInt32
  sLogContent : Buf memlogBufLength

/-- The content behind the time, cut at `BWORLD_SLOG_MAX_LINE_LEN`.
mirrors supper_log.cpp:3790-3809 -/
def putContent (pLog : LogInfo) (buf : Buf logBufLen) (iWrite : Nat) :
    Option (Buf logBufLen × Nat) :=
  if slogMaxLineLen < pLog.wLogDataLen.toNat then
    if 64 ≤ iWrite + tooLongLogTruncateStr.length then do
      let buf ← buf.memcpy iWrite (pLog.content.take (slogMaxLineLen - iWrite))
      let buf ← buf.memcpy slogMaxLineLen tooLongLogTruncateStr
      pure (buf, slogMaxLineLen + tooLongLogTruncateStr.length)
    else do
      let buf ← buf.memcpy iWrite (pLog.content.take slogMaxLineLen)
      let buf ← buf.memcpy (iWrite + slogMaxLineLen) tooLongLogTruncateStr
      pure (buf, iWrite + slogMaxLineLen + tooLongLogTruncateStr.length)
  else do
    let buf ← buf.memcpy iWrite pLog.content
    pure (buf, iWrite + pLog.wLogDataLen.toNat)

/-- mirrors supper_log.cpp:3810-3813 -/
def terminate (buf : Buf logBufLen) (iWrite : Nat) : Option (Buf logBufLen × Nat) :=
  if buf.bytes[iWrite - 1]? ≠ some 0 then do
    let buf ← buf.memcpy iWrite [0]
    pure (buf, iWrite + 1)
  else some (buf, iWrite)

/-- `m_sLogBuf` and `iWrite`. What `strftime` prints always fits.
mirrors supper_log.cpp:3781-3813 -/
def logText (lt : Localtime) (pLog : LogInfo) : Option (Buf logBufLen × Nat) := do
  let date := dateText (lt.tm (pLog.qwLogTime.toNat / 1000000))
  let usec := usecText (pLog.qwLogTime.toNat % 1000000)
  let buf ← (zero logBufLen).snprintf 0 logBufLen date
  let buf ← buf.snprintf date.length (logBufLen - date.length) usec
  let (buf, iWrite) ← putContent pLog buf (date.length + usec.length)
  terminate buf iWrite

/-- The text of a record that the vmem did not take. -/
def saveFailedText (ret iAppId iModuleId : Int) (loglen : Nat) : Bytes :=
  "write shm log failed, MtReport_SaveToVmem ret:".toUTF8.toList ++ signed ret ++
    "(appid:".toUTF8.toList ++ signed iAppId ++ ", moduleid:".toUTF8.toList ++ signed iModuleId ++
    ", loglen:".toUTF8.toList ++ decimal loglen ++ ")".toUTF8.toList

/-- What the call finds besides the ring: the local time, `m_iVmemShmKey`, the
clock of the pool, `m_stNow`, the app of the ring, and the size that the process's
own ring gives. -/
structure Env where
  lt : Localtime
  iLogMaxCount : Nat
  iVmemShmKey : Int
  now : Nat
  tvSec : UInt32
  dwLogHost : UInt32
  iAppId : Int32

/-- A written slot and the vmem behind it; `save` is what `MtReport_SaveToVmem`
returned if it was called. -/
structure Filled where
  slot : TSLog
  vmem : Store
  save : Option Int

/-- The part of `WriteAppLogToShm` that stores the text of `iWrite` bytes.
mirrors supper_log.cpp:3871-3901 -/
def storeText (env : Env) (pLog : LogInfo) (slot : TSLog) (vmem : Store)
    (m_sLogBuf : Buf logBufLen) (iWrite : Nat) : Option Filled :=
  if iWrite < memlogBufLength then do
    let s ← m_sLogBuf.cStr
    let sLogContent ← slot.sLogContent.memcpy 0 (s ++ [0])
    pure ⟨{ slot with iContentIndex := -1, sLogContent }, vmem, none⟩
  else do
    let sLogContent ← slot.sLogContent.memcpy 0 (m_sLogBuf.bytes.take memlogBufLength)
    if env.iVmemShmKey ≤ 0 then do
      let sLogContent ← sLogContent.memcpy (memlogBufLength - 1) [0]
      pure ⟨{ slot with iContentIndex := -1, sLogContent }, vmem, none⟩
    else
      match vmem.save (slice m_sLogBuf.bytes (memlogBufLength - 4) (iWrite - memlogBufLength + 4))
          env.now with
      | (vmem, ret) =>
        if ret < 0 then do
          let s ← m_sLogBuf.cStr
          let text := saveFailedText ret env.iAppId.toInt pLog.iModuleId.toInt s.length
          let sLogContent ← sLogContent.snprintf 0 (memlogBufLength - 1) text
          pure ⟨{ slot with wLogType := slogTypeError, iContentIndex := -1, sLogContent }, vmem,
            some ret⟩
        else pure ⟨{ slot with iContentIndex := ret, sLogContent }, vmem, some ret⟩

/-- The custom fields of the slot: those of the old record when this one has
none.
mirrors supper_log.cpp:3818-3864 -/
def slotCust (pLog : LogInfo) (old : Cust) : Option Cust :=
  if 0 < pLog.wCustDataLen then writeCust old pLog.sLog else some old

/-- mirrors supper_log.cpp:3781-3901 -/
def fillSlot (env : Env) (pLog : LogInfo) (slot : TSLog) (vmem : Store) : Option Filled := do
  let (m_sLogBuf, iWrite) ← logText env.lt pLog
  let cust ← slotCust pLog slot.cust
  let slot := { slot with
    cust
    iModuleId := pLog.iModuleId, iAppId := pLog.iAppId, wLogType := pLog.wLogType,
    qwLogTime := pLog.qwLogTime, dwLogHost := env.dwLogHost, dwLogConfigId := pLog.dwLogConfigId }
  storeText env pLog slot vmem m_sLogBuf iWrite

/-- The ring of an app; -1 in `iLogStarIndex` is an empty one. -/
structure TSLogShm where
  iWriteIndex : Nat
  iLogStarIndex : Int
  dwLogSeq : UInt32
  sLogList : Nat → TSLog

/-- A call of `WriteAppLogToShm`: what it returns and leaves, with the index
that it took. -/
structure Written where
  ret : Int
  shm : TSLogShm
  vmem : Store
  iIndex : Nat
  save : Option Int

/-- `ModifyLogStartIndexCmpAndSwap(pShmLog, -1, iNew)` of the only process in
the section.
mirrors supper_log.cpp:3982-3998 -/
def modifyLogStartIndex (shm : TSLogShm) (iNew : Nat) : TSLogShm :=
  if shm.iLogStarIndex = -1 then { shm with iLogStarIndex := iNew } else shm

/-- The section in which the call takes an index: the sequence number of the
record and the ring.
mirrors supper_log.cpp:3754-3763 -/
def takeIndex (env : Env) (shm : TSLogShm) : UInt32 × TSLogShm :=
  let dwSeq := if shm.dwLogSeq = 0 then 1 else shm.dwLogSeq
  let slot := { shm.sLogList shm.iWriteIndex with dwStartWriteLogTime := env.tvSec, dwLogSeq := 0 }
  (dwSeq, { shm with
    iWriteIndex := Circular.next env.iLogMaxCount shm.iWriteIndex
    dwLogSeq := dwSeq + 1
    sLogList := Function.update shm.sLogList shm.iWriteIndex slot })

/-- `WriteAppLogToShm`. A full ring gives -3778, the line of the error.
mirrors supper_log.cpp:3739-3905 -/
def writeAppLogToShm (env : Env) (shm : TSLogShm) (pLog : LogInfo) (vmem : Store) :
    Option Written :=
  let iIndex := shm.iWriteIndex
  if (iIndex : Int) = shm.iLogStarIndex then some ⟨-3778, shm, vmem, iIndex, none⟩
  else do
    let (dwSeq, shm) := takeIndex env shm
    let f ← fillSlot env pLog (shm.sLogList iIndex) vmem
    let shm := { shm with
      sLogList := Function.update shm.sLogList iIndex { f.slot with dwLogSeq := dwSeq } }
    pure ⟨0, modifyLogStartIndex shm iIndex, f.vmem, iIndex, f.save⟩

/-! ## Reading -/

def checkNumText : Bytes := "bug: check num:".toUTF8.toList

/-- The fields that both error texts of `GetShmLog` end with. -/
def bugFields (pLog : TSLog) (iLogIndex : Int) (content : Bytes) : Bytes :=
  " logtime:".toUTF8.toList ++ decimal pLog.qwLogTime.toNat ++ " index:".toUTF8.toList ++
    signed iLogIndex ++ " appid:".toUTF8.toList ++ signed pLog.iAppId.toInt ++
    " module:".toUTF8.toList ++ signed pLog.iModuleId.toInt ++ " loglevel:".toUTF8.toList ++
    decimal pLog.wLogType.toNat ++ " [some log content :".toUTF8.toList ++ content ++
    "]".toUTF8.toList

/-- What `GetShmLog` leaves: its static buffer, the slot and the counters it
added to. -/
structure ShmText where
  sLogBuf : Buf logBufLen
  pLog : TSLog
  attrAdd : List (Nat × Nat)

/-- The comparison of the four bytes, and the text when they differ.
mirrors supper_log.cpp:264-274 -/
def checkNum (pLog : TSLog) (iLogIndex : Int) (buf : Buf logBufLen) : Option ShmText :=
  let dwCheck := slice pLog.sLogContent.bytes (memlogBufLength - 4) 4
  let dwRead := slice buf.bytes (memlogBufLength - 4) 4
  if dwCheck ≠ dwRead then do
    let sLogContent ← pLog.sLogContent.memcpy (memlogBufLength - 5) [0]
    let s ← sLogContent.cStr
    let buf ← buf.snprintf 0 logBufLen (checkNumText ++ decimal (leNat dwCheck) ++
      " != ".toUTF8.toList ++ decimal (leNat dwRead) ++ bugFields pLog iLogIndex s)
    pure ⟨buf, { pLog with sLogContent }, [(235, 1)]⟩
  else some ⟨buf, pLog, []⟩

/-- `GetShmLog`.
mirrors supper_log.cpp:239-278 -/
def getShmLog (vmem : VmemBuf) (pLog : TSLog) (iLogIndex : Int) (sLogBuf : Buf logBufLen) :
    Option ShmText :=
  if pLog.iContentIndex < 0 then do
    let s ← cStr (logBufLen - 1) pLog.sLogContent.bytes
    let buf ← sLogBuf.strncpy (logBufLen - 1) s
    pure ⟨buf, pLog, []⟩
  else do
    let buf ← sLogBuf.memcpy 0 (pLog.sLogContent.bytes.take (memlogBufLength - 4))
    let r ← vmem.getFromVmem pLog.iContentIndex (logBufLen - memlogBufLength + 4 : Nat)
    let buf ← buf.memcpy (memlogBufLength - 4) r.pbuf
    if r.ret < 0 then do
      let s ← pLog.sLogContent.cStr
      let buf ← buf.snprintf 0 logBufLen ("bug: MtReport_GetFromVmem ret:".toUTF8.toList ++
        signed r.ret ++ bugFields pLog iLogIndex s)
      pure ⟨buf, pLog, [(234, 1)]⟩
    else do
      let buf ← buf.memcpy (memlogBufLength - 4 + r.piBufLen.toNat) [0]
      checkNum pLog iLogIndex buf

/-! ## The text that is put together -/

theorem zero_not_mem_timeText (lt : Localtime) (qwLogTime : UInt64) :
    0 ∉ timeText lt qwLogTime := by
  simp [timeText, dateText, usecText, padded, zero_not_mem_decimal]

theorem length_dateText_le {t : Tm} (h : t.tm_year + 1900 < 1000000) :
    (dateText t).length ≤ 21 := by
  have hy := length_decimal_le (k := 6) (by decide) h
  have h2 : ∀ {n}, n < 100 → (padded 2 n).length ≤ 2 := fun hn =>
    length_padded_le (by decide) hn
  have h3 := h2 (n := t.tm_mon + 1) (by omega)
  have h4 := h2 (n := t.tm_mday) (by omega)
  have h5 := h2 (n := t.tm_hour) (by omega)
  have h6 := h2 (n := t.tm_min) (by omega)
  have h7 := h2 (n := t.tm_sec) (by omega)
  simp only [dateText, length_append, length_cons]
  omega

theorem length_usecText_le (usec : Nat) (h : usec < 1000000) : (usecText usec).length ≤ 8 := by
  have := length_padded_le (w := 6) (by decide) h
  simp only [usecText, length_append, length_cons, length_nil]
  omega

theorem length_timeText_le (lt : Localtime) (qwLogTime : UInt64) :
    (timeText lt qwLogTime).length ≤ 29 := by
  have hlt := qwLogTime.toNat_lt
  have h1 := length_dateText_le (lt.year_lt (qwLogTime.toNat / 1000000) (by omega))
  have h2 := length_usecText_le (qwLogTime.toNat % 1000000) (by omega)
  rw [timeText, length_append]
  omega

theorem LogInfo.length_content (l : LogInfo) : l.content.length = l.wLogDataLen.toNat := by
  have := l.inside
  rw [content, slice, length_take, length_drop]
  omega

theorem length_tooLongLogTruncateStr : tooLongLogTruncateStr.length = 30 := by decide +kernel

/-- The bytes behind the time. -/
def shownContent (l : LogInfo) : Bytes :=
  if slogMaxLineLen < l.wLogDataLen.toNat then
    l.content.take slogMaxLineLen ++ tooLongLogTruncateStr
  else l.content

theorem length_shownContent_le (l : LogInfo) : (shownContent l).length ≤ 1054 := by
  have hlen := l.length_content
  unfold shownContent slogMaxLineLen
  split
  · rw [length_append, length_take, length_tooLongLogTruncateStr]
    omega
  · omega

variable {buf : Buf logBufLen} {pLog : LogInfo}

/-- The time takes at most 29 bytes, so that the note on a cut always has room. -/
theorem putContent_after (pLog : LogInfo) {t : Bytes} (h : t <+: buf.bytes) (ht : t.length ≤ 29) :
    ∃ buf', putContent pLog buf t.length = some (buf', (t ++ shownContent pLog).length) ∧
      t ++ shownContent pLog <+: buf'.bytes := by
  have hlen := pLog.length_content
  have hnote := length_tooLongLogTruncateStr
  have hsize : logBufLen = 1088 := rfl
  unfold putContent shownContent
  by_cases hlong : slogMaxLineLen < pLog.wLogDataLen.toNat
  · have htake : (pLog.content.take slogMaxLineLen).length = slogMaxLineLen := by
      rw [length_take]; omega
    have hmax : slogMaxLineLen = 1024 := rfl
    rw [if_pos hlong, if_pos hlong, if_neg (by omega)]
    obtain ⟨b1, h1, hp1⟩ := memcpy_after (pLog.content.take slogMaxLineLen) h (by omega)
    obtain ⟨b2, h2, hp2⟩ := memcpy_after tooLongLogTruncateStr hp1 (by
      rw [length_append]; omega)
    rw [length_append, htake] at h2
    refine ⟨b2, ?_, by rw [← append_assoc]; exact hp2⟩
    simp [h1, h2, htake, add_assoc]
  · have hmax : slogMaxLineLen = 1024 := rfl
    rw [if_neg hlong, if_neg hlong]
    obtain ⟨b1, h1, hp1⟩ := memcpy_after pLog.content h (by omega)
    exact ⟨b1, by simp [h1, hlen], hp1⟩

/-- The text ends with exactly one zero, whether or not the content had one. -/
theorem terminate_after {t u : Bytes} (h : t <+: buf.bytes)
    (hu : 0 ∉ u) (hne : u ≠ []) (htu : t = u ∨ t = u ++ [0]) (hn : u.length < logBufLen) :
    ∃ buf', terminate buf t.length = some (buf', u.length + 1) ∧ u ++ [0] <+: buf'.bytes := by
  have hpos : 0 < u.length := length_pos_iff.mpr hne
  obtain ⟨rest, hrest⟩ := h
  have hlast : buf.bytes[t.length - 1]? = t[t.length - 1]? := by
    rw [← hrest, getElem?_append_left]
    rcases htu with rfl | rfl
    · omega
    · rw [length_append]; omega
  unfold terminate
  rw [hlast]
  rcases htu with rfl | rfl
  · have hmem : t[t.length - 1]? ≠ some 0 := fun h0 => hu (mem_of_getElem? h0)
    obtain ⟨b1, h1, hp1⟩ := memcpy_after [0] ⟨rest, hrest⟩ hn
    exact ⟨b1, by simp [hmem, h1], hp1⟩
  · refine ⟨buf, ?_, ⟨rest, hrest⟩⟩
    simp

/-- The text of a record: the time and the content, whose string is `body`. -/
def recordText (lt : Localtime) (l : LogInfo) (body : Bytes) : Bytes :=
  timeText lt l.qwLogTime ++
    if slogMaxLineLen < l.wLogDataLen.toNat then
      l.content.take slogMaxLineLen ++ tooLongLogTruncateStr
    else body

theorem length_recordText_le {l : LogInfo}
    (hbody : l.content = body ∨ l.content = body ++ [0]) (lt : Localtime) :
    (recordText lt l body).length ≤ 1083 := by
  have h1 := length_timeText_le lt l.qwLogTime
  have h2 := length_shownContent_le l
  have h3 : body.length ≤ l.content.length := by
    rcases hbody with h | h
    · exact le_of_eq (by rw [h])
    · rw [h, length_append]; omega
  rw [recordText, length_append]
  unfold shownContent at h2
  split <;> rename_i hlong <;> simp only [hlong, if_true, if_false] at h2 <;> omega

theorem zero_not_mem_recordText {l : LogInfo} (h0 : 0 ∉ body)
    (hbody : l.content = body ∨ l.content = body ++ [0]) (lt : Localtime) :
    0 ∉ recordText lt l body := by
  have htime := zero_not_mem_timeText lt l.qwLogTime
  unfold recordText
  split
  · -- the cut comes before the last byte of the content
    have hcut : 0 ∉ l.content.take slogMaxLineLen := by
      have hlen := l.length_content
      rcases hbody with h | h
      · rw [h]; exact fun hm => h0 (mem_of_mem_take hm)
      · rw [h, length_append, length_singleton] at hlen
        rw [h, take_append_of_le_length (by omega)]
        exact fun hm => h0 (mem_of_mem_take hm)
    simp [htime, hcut, show 0 ∉ tooLongLogTruncateStr by decide +kernel]
  · simp [htime, h0]

/-- **The text.** `m_sLogBuf` holds the text of the record and a zero, and
`iWrite` counts both. -/
theorem logText_spec (lt : Localtime) (h0 : 0 ∉ body)
    (hbody : pLog.content = body ∨ pLog.content = body ++ [0]) :
    ∃ buf, logText lt pLog = some (buf, (recordText lt pLog body).length + 1) ∧
      recordText lt pLog body ++ [0] <+: buf.bytes := by
  have htime := length_timeText_le lt pLog.qwLogTime
  have hlen := length_recordText_le hbody lt
  have hsize : logBufLen = 1088 := rfl
  rw [timeText, length_append] at htime
  obtain ⟨b1, h1, hp1⟩ := snprintf_after (b := zero logBufLen) logBufLen
    (dateText (lt.tm (pLog.qwLogTime.toNat / 1000000))) nil_prefix (by omega)
    (by rw [length_nil]; omega)
  obtain ⟨b2, h2, hp2⟩ := snprintf_after
    (logBufLen - (dateText (lt.tm (pLog.qwLogTime.toNat / 1000000))).length)
    (usecText (pLog.qwLogTime.toNat % 1000000)) hp1 (by omega)
    (by rw [nil_append]; omega)
  obtain ⟨b3, h3, hp3⟩ := putContent_after pLog hp2 (by
    rw [nil_append, length_append]; omega)
  rw [nil_append] at h2 h3 hp3
  have hshown : timeText lt pLog.qwLogTime ++ shownContent pLog = recordText lt pLog body ∨
      timeText lt pLog.qwLogTime ++ shownContent pLog = recordText lt pLog body ++ [0] := by
    unfold shownContent recordText
    split
    · exact .inl rfl
    · rcases hbody with h | h <;> rw [h]
      · exact .inl rfl
      · exact .inr (append_assoc _ _ _).symm
  obtain ⟨b4, h4, hp4⟩ := terminate_after hp3 (zero_not_mem_recordText h0 hbody lt)
    (by simp [recordText, timeText, usecText]) hshown (by omega)
  refine ⟨b4, ?_, hp4⟩
  rw [length_nil] at h1
  rw [length_append] at h3
  simp only [logText, bind_eq_bind, h1, bind_some, h2, h3, h4]

/-! ## Its place -/

/-- The text `T` is in the slot, or it is the string of the bytes `U` that are in the slot
and the vmem. -/
inductive Stored (T : Bytes) (slot : TSLog) (vmem : Store) : Prop where
  | short (index : slot.iContentIndex = -1) (text : T ++ [0] <+: slot.sLogContent.bytes)
  | long {U : Bytes} (index : 0 ≤ slot.iContentIndex) (split : memlogBufLength ≤ U.length)
      (fits : U.length < logBufLen) (text : T ++ [0] <+: U ++ [0])
      (front : U.take memlogBufLength = slot.sLogContent.bytes)
      (rest : (slot.iContentIndex, U.drop (memlogBufLength - 4)) ∈ vmem.live)

theorem storeText_spec (env : Env) (pLog : LogInfo) (slot : TSLog)
    (hvm : L2.SvVmem.Inv vmem.pool vmem.live) (hkey : 0 < env.iVmemShmKey)
    (hT : T ++ [0] <+: buf.bytes) (h0 : 0 ∉ T) (hmax : T.length ≤ 1083) :
    ∃ f, storeText env pLog slot vmem buf (T.length + 1) = some f ∧
      ((∀ ret, f.save = some ret → 0 ≤ ret) → Stored T f.slot f.vmem) ∧
      L2.SvVmem.Inv f.vmem.pool f.vmem.live := by
  have hstr := cStr_of_prefix hT h0
  have hlen : (T ++ [0]).length = T.length + 1 := by
    rw [length_append, length_singleton]
  have hmem : memlogBufLength = 256 := rfl
  unfold storeText
  by_cases hshort : T.length + 1 < memlogBufLength
  · obtain ⟨b1, h1, hp1⟩ := slot.sLogContent.memcpy_front (T ++ [0]) (by omega)
    rw [if_pos hshort, hstr, bind_eq_bind, bind_some, h1]
    exact ⟨_, rfl, fun _ => .short rfl hp1, hvm⟩
  · have hfront : buf.bytes.take memlogBufLength = (T ++ [0]).take memlogBufLength :=
      take_of_prefix hT (by omega)
    have hrest : slice buf.bytes (memlogBufLength - 4) (T.length + 1 - memlogBufLength + 4) =
        (T ++ [0]).drop (memlogBufLength - 4) := by
      rw [ slice_of_prefix hT (by omega), slice, take_of_length_le]
      rw [length_drop]; omega
    obtain ⟨b1, h1, hb1⟩ := slot.sLogContent.memcpy_take (T ++ [0]) (by omega)
    rw [if_neg hshort, hfront, hrest, h1]
    simp only [bind_eq_bind, bind_some, if_neg (Int.not_le.mpr hkey)]
    have hinv := Store.save_inv hvm ((T ++ [0]).drop (memlogBufLength - 4)) env.now
    by_cases hneg : (vmem.save ((T ++ [0]).drop (memlogBufLength - 4)) env.now).2 < 0
    · -- the vmem did not take the rest: the slot says so
      rw [if_pos hneg, hstr, bind_some, snprintf, memcpy, dif_pos]
      · exact ⟨_, rfl, fun hs => absurd (hs _ rfl) (Int.not_le.mpr hneg), hinv⟩
      · rw [length_append, length_take, length_singleton]
        omega
    · rw [if_neg hneg]
      have hpos := Int.not_lt.mp hneg
      have hbuf : logBufLen = 1088 := rfl
      exact ⟨_, rfl, fun _ => .long hpos (by omega) (by omega) (prefix_append _ _) hb1.symm
        (Store.mem_live_save _ _ _ hpos), hinv⟩

/-! ## Reading it -/

/-- The four bytes agree when slot and buffer hold the same bytes. -/
theorem checkNum_eq {pLog : TSLog} {U : Bytes} (i : Int)
    (hfront : U.take memlogBufLength = pLog.sLogContent.bytes)
    (hsplit : memlogBufLength ≤ U.length) (h : U <+: buf.bytes) :
    checkNum pLog i buf = some ⟨buf, pLog, []⟩ := by
  have hmem : memlogBufLength = 256 := rfl
  unfold checkNum
  rw [← hfront, slice_of_prefix h (by omega), if_neg]
  rw [not_not, slice, drop_take, take_take]
  congr 1

/-- The two parts of what was stored are joined, with a zero behind them. -/
theorem getShmLog_long {U : Bytes} (slot : TSLog) (pool : VmemBuf) (i : Int)
    (old : Buf logBufLen) (index : 0 ≤ slot.iContentIndex) (split : memlogBufLength ≤ U.length)
    (hU : U.length < logBufLen) (front : U.take memlogBufLength = slot.sLogContent.bytes)
    (hread : ∀ n, ((U.drop (memlogBufLength - 4)).length : Int) ≤ n →
      pool.getFromVmem slot.iContentIndex n =
        some ⟨0, U.drop (memlogBufLength - 4), (U.drop (memlogBufLength - 4)).length⟩) :
    ∃ r, getShmLog pool slot i old = some r ∧ U ++ [0] <+: r.sLogBuf.bytes ∧ r.attrAdd = [] := by
  unfold getShmLog
  rw [if_neg (Int.not_lt.mpr index)]
  have hfront : slot.sLogContent.bytes.take (memlogBufLength - 4) =
      U.take (memlogBufLength - 4) := by
    rw [← front, take_take]
    congr 1
  have hflen : (U.take (memlogBufLength - 4)).length = memlogBufLength - 4 := by
    rw [length_take]; omega
  have hrlen : (U.drop (memlogBufLength - 4)).length = U.length - (memlogBufLength - 4) :=
    length_drop
  obtain ⟨b1, h1, hp1⟩ := old.memcpy_front (U.take (memlogBufLength - 4)) (by omega)
  obtain ⟨b2, h2, hp2⟩ := memcpy_after (U.drop (memlogBufLength - 4)) hp1 (by omega)
  rw [hflen] at h2
  rw [take_append_drop] at hp2
  obtain ⟨b3, h3, hp3⟩ := memcpy_after [0] hp2 (by
    rw [length_singleton]; omega)
  have hg := hread (logBufLen - memlogBufLength + 4 : Nat) (by omega)
  have hoff : memlogBufLength - 4 + (U.drop (memlogBufLength - 4)).length = U.length := by omega
  refine ⟨⟨b3, slot, []⟩, ?_, hp3, rfl⟩
  rw [hfront, h1]
  simp only [bind_eq_bind, bind_some, hg, h2, Int.toNat_natCast, hoff, h3]
  exact checkNum_eq i front split ((prefix_append _ _).trans hp3)

/-- What is stored is read back as long as nobody frees its second part. -/
theorem Stored.getShmLog {slot : TSLog} (h : Stored T slot vmem) (h0 : 0 ∉ T)
    (hvm : L2.SvVmem.Inv vmem.pool vmem.live) (later : List Op) (vmem' : Store)
    (hlater : Meets Store.exec Store.Legal later vmem)
    (hrun : run Store.exec later vmem = some vmem')
    (hfree : ∀ now, .free slot.iContentIndex now ∉ later) (seq : UInt32) (i : Int)
    (old : Buf logBufLen) :
    ∃ r, getShmLog vmem'.pool { slot with dwLogSeq := seq } i old = some r ∧
      r.sLogBuf.cStr = some T ∧ r.attrAdd = [] := by
  have hsize : logBufLen = 1088 := rfl
  cases h with
  | short index text =>
    have hT : T.length + 1 ≤ 256 := by
      have := text.length_le
      rwa [slot.sLogContent.length_eq, length_append] at this
    unfold ShmLog.getShmLog
    rw [if_pos (by rw [index]; decide)]
    obtain ⟨rest, hrest⟩ := text
    have hs : cStr (logBufLen - 1) slot.sLogContent.bytes = some T := by
      rw [← hrest, append_assoc]
      exact cStr_append h0 (by omega)
    -- `strncpy` fills the buffer with zeros behind the text
    obtain ⟨k, hk⟩ : ∃ k, (T ++ List.replicate (logBufLen - 1) 0).take (logBufLen - 1) =
        T ++ [0] ++ List.replicate k 0 := by
      refine ⟨logBufLen - 1 - T.length - 1, ?_⟩
      rw [take_append, take_of_length_le (by omega), take_replicate,
        append_assoc, singleton_append, ← replicate_succ]
      congr 2
      omega
    obtain ⟨b1, h1, hp1⟩ := old.memcpy_front
      ((T ++ List.replicate (logBufLen - 1) 0).take (logBufLen - 1)) (by
        rw [length_take]; omega)
    refine ⟨⟨b1, { slot with dwLogSeq := seq }, []⟩, ?_,
      cStr_of_prefix (List.IsPrefix.trans ?_ hp1) h0, rfl⟩
    · rw [hs, bind_eq_bind, bind_some, strncpy, h1]
      rfl
    · rw [hk]
      exact prefix_append _ _
  | long index split fits text front rest =>
    obtain ⟨r, hr, hp, hattr⟩ := getShmLog_long { slot with dwLogSeq := seq } vmem'.pool i old index
      split fits front fun n hn => Store.read_back hn hvm rest hlater hfree hrun
    exact ⟨r, hr, cStr_of_prefix (text.trans hp) h0, hattr⟩

/-! ## The round trip -/

/-- A record's text starts with the year, not with the text of an error. -/
theorem not_checkNumText_prefix (lt : Localtime) (l : LogInfo) (body : Bytes) :
    ¬ checkNumText <+: recordText lt l body := by
  intro h
  have hne : decimal ((lt.tm (l.qwLogTime.toNat / 1000000)).tm_year + 1900) ≠ [] := by
    rw [decimal, ne_eq, map_eq_nil_iff]
    exact Nat.toDigits_ne_nil
  obtain ⟨x, xs, hx⟩ := exists_cons_of_ne_nil hne
  have hdigit := digit_of_mem_decimal (hx ▸ mem_cons_self : x ∈ decimal _)
  have hb : checkNumText.head? = some 98 := by decide +kernel
  obtain ⟨rest, hrest⟩ := h
  have hhead := congrArg List.head? hrest
  rw [head?_append, hb, some_or] at hhead
  simp only [recordText, timeText, dateText, hx, cons_append, head?_cons,
    Option.some.injEq] at hhead
  rw [← hhead] at hdigit
  exact absurd hdigit.2 (by decide)

theorem sLogList_modifyLogStartIndex (shm : TSLogShm) (iNew : Nat) :
    (modifyLogStartIndex shm iNew).sLogList = shm.sLogList := by
  unfold modifyLogStartIndex
  split <;> rfl

/-- **Filling a slot.** The call returns, and unless the vmem refused the rest
the text of the record is stored. -/
theorem fillSlot_spec (env : Env) (slot : TSLog)
    (h0 : 0 ∉ body) (hbody : pLog.content = body ∨ pLog.content = body ++ [0])
    (hkey : 0 < env.iVmemShmKey) (hcust : (slotCust pLog slot.cust).isSome)
    (hvm : L2.SvVmem.Inv vmem.pool vmem.live) :
    ∃ f, fillSlot env pLog slot vmem = some f ∧ ((∀ ret, f.save = some ret → 0 ≤ ret) →
        Stored (recordText env.lt pLog body) f.slot f.vmem) ∧
      L2.SvVmem.Inv f.vmem.pool f.vmem.live := by
  obtain ⟨buf, htext, hp⟩ := logText_spec env.lt h0 hbody
  obtain ⟨cust, hcust⟩ := isSome_iff_exists.mp hcust
  unfold fillSlot
  rw [htext, hcust]
  exact storeText_spec env pLog
    { slot with cust, iModuleId := pLog.iModuleId, iAppId := pLog.iAppId,
                wLogType := pLog.wLogType, qwLogTime := pLog.qwLogTime,
                dwLogHost := env.dwLogHost, dwLogConfigId := pLog.dwLogConfigId }
    hvm hkey hp (zero_not_mem_recordText h0 hbody env.lt) (length_recordText_le hbody env.lt)

/-- A ring that is not full takes the slot that was filled. -/
theorem writeAppLogToShm_of_fillSlot {env : Env} {shm : TSLogShm}
    {f : Filled} (hroom : (shm.iWriteIndex : Int) ≠ shm.iLogStarIndex)
    (hf : fillSlot env pLog ((takeIndex env shm).2.sLogList shm.iWriteIndex) vmem = some f) :
    ∃ w, writeAppLogToShm env shm pLog vmem = some w ∧ w.ret = 0 ∧ w.vmem = f.vmem ∧
      w.save = f.save ∧
      w.shm.sLogList w.iIndex = { f.slot with dwLogSeq := (takeIndex env shm).1 } := by
  rw [writeAppLogToShm, if_neg hroom]
  dsimp only
  rw [hf]
  refine ⟨_, rfl, rfl, rfl, rfl, ?_⟩
  rw [sLogList_modifyLogStartIndex]
  exact Function.update_self ..

/-- **Round trip.** From any vmem that legal calls lead to, a record with the string `body`,
with or without its zero, is written to a ring that is not full; if the vmem takes what it is
given, then as long as nobody frees the rest of the text `GetShmLog` returns the time and the
content, cut with a note when it is too long, and never the text of a failed check. -/
theorem shm_log_round_trip (env : Env) (shm : TSLogShm) (pLog : LogInfo) (body : Bytes)
    (ops : List Op) (vmem : Store)
    (hops : Meets Store.exec Store.Legal ops Store.initial)
    (hvm : run Store.exec ops Store.initial = some vmem)
    (h0 : 0 ∉ body) (hbody : pLog.content = body ∨ pLog.content = body ++ [0])
    (hkey : 0 < env.iVmemShmKey) (hroom : (shm.iWriteIndex : Int) ≠ shm.iLogStarIndex)
    (hcust : (slotCust pLog (shm.sLogList shm.iWriteIndex).cust).isSome) :
    ∃ w, writeAppLogToShm env shm pLog vmem = some w ∧ w.ret = 0 ∧
      ((∀ ret, w.save = some ret → 0 ≤ ret) →
        ∀ (later : List Op) (vmem' : Store), Meets Store.exec Store.Legal later w.vmem →
          run Store.exec later w.vmem = some vmem' →
          (∀ now, .free (w.shm.sLogList w.iIndex).iContentIndex now ∉ later) →
          ∀ (iLogIndex : Int) (sLogBuf : Buf logBufLen),
            ∃ r, getShmLog vmem'.pool (w.shm.sLogList w.iIndex) iLogIndex sLogBuf = some r ∧
              r.sLogBuf.cStr = some (timeText env.lt pLog.qwLogTime ++
                if slogMaxLineLen < pLog.content.length then
                  pLog.content.take slogMaxLineLen ++ tooLongLogTruncateStr
                else body) ∧
              r.attrAdd = [] ∧ ∀ s, r.sLogBuf.cStr = some s → ¬ checkNumText <+: s) := by
  obtain ⟨vm, hrun, hinv⟩ := run_inv Store.exec_inv L2.SvVmem.Inv.initVmem hops
  obtain rfl := Option.some.inj (hrun.symm.trans hvm)
  obtain ⟨f, hf, hstored, hfv⟩ := fillSlot_spec env
    ((takeIndex env shm).2.sLogList shm.iWriteIndex) h0 hbody hkey (by simpa [takeIndex] using hcust) hinv
  obtain ⟨w, hw, hret, hwv, hws, hslot⟩ := writeAppLogToShm_of_fillSlot hroom hf
  refine ⟨w, hw, hret, fun hsave later vmem' hlater hrun' hfree iLogIndex sLogBuf => ?_⟩
  rw [hws] at hsave
  rw [hwv] at hlater hrun'
  rw [hslot] at hfree ⊢
  obtain ⟨r, hget, hstr, hattr⟩ := (hstored hsave).getShmLog (zero_not_mem_recordText h0 hbody env.lt)
    hfv later vmem' hlater hrun' hfree (takeIndex env shm).1 iLogIndex sLogBuf
  refine ⟨r, hget, ?_, hattr, fun s hs => ?_⟩
  · rw [hstr, recordText, pLog.length_content]
  · obtain rfl := Option.some.inj (hstr.symm.trans hs)
    exact not_checkNumText_prefix env.lt pLog body

/-- A record of 300 letters, on a server that has just started. -/
def lettersLog : LogInfo where
  iAppId := 7
  iModuleId := 8
  dwLogConfigId := 1
  wLogType := 2
  qwLogTime := 1700000000000123
  wCustDataLen := 0
  wLogDataLen := 300
  sLog := List.replicate 300 65
  inside := by decide +kernel

def startEnv : Env where
  lt := ⟨fun _ => ⟨123, 10, 14, 22, 13, 20⟩, fun _ _ => by decide⟩
  iLogMaxCount := 10000
  iVmemShmKey := 2013046000
  now := 1700000000
  tvSec := 1700000000
  dwLogHost := 3
  iAppId := 7

def startShm : TSLogShm where
  iWriteIndex := 0
  iLogStarIndex := -1
  dwLogSeq := 0
  sLogList := fun _ => ⟨⟨0, 0, 0, 0, 0, .zero 15, .zero 31⟩, 0, 0, 0, 0, 0, 0, 0, 0, 0, .zero 256⟩

theorem shm_log_round_trip_letters :
    ∃ w r, writeAppLogToShm startEnv startShm lettersLog Store.initial = some w ∧
      getShmLog w.vmem.pool (w.shm.sLogList w.iIndex) 0 (.zero logBufLen) = some r ∧
      r.sLogBuf.cStr =
        some ("2023-11-14 22:13:20.000123 ".toUTF8.toList ++ List.replicate 300 65) := by
  obtain ⟨w, hw, -, hread⟩ := shm_log_round_trip startEnv startShm lettersLog
    (List.replicate 300 65) [] Store.initial trivial rfl (by decide +kernel)
    (.inl (by decide +kernel)) (by decide) (by decide) rfl
  have hsave : (writeAppLogToShm startEnv startShm lettersLog Store.initial).map (·.save) =
      some (some 8388609) := by decide +kernel
  rw [hw, map_some, Option.some.injEq] at hsave
  obtain ⟨r, hr, htext, -⟩ := hread (fun ret h => by
    rw [hsave] at h
    cases h
    decide) [] w.vmem trivial rfl (fun _ h => by cases h) 0 (.zero logBufLen)
  exact ⟨w, r, hw, hr, htext.trans (by decide +kernel)⟩

end DesPwd.L4.ShmLog
