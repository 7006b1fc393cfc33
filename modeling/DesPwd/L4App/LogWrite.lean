import DesPwd.L1Encoding.LogCust
import DesPwd.L4App.LogFiles

/-!
# Writing records to a log file

A version 2 log file has a head, the indexes of `SLOG_LOG_RECORDS_COUNT_MAX`
records, which `AddNewSlogFile` fills with zeros, and behind them what the records
hold: the sequence number, the text with its zero, cut at 1024 bytes, and the
custom data. `WriteLogVersion_2` appends one record
(lib/mtagent_api_open/supper_log.cpp).

* `Written`: the files that come from `AddNewSlogFile` and any number of calls of
  `WriteLogVersion_2`.
* `Written.holds`: in such a file every record written is still there, at its
  index and at the place its index names.
-/
namespace DesPwd.L4.LogWrite

open Bytes L4.LogFiles List ByteFile LogWrite
open L1.LogCust (Cust saveLogCustData length_saveLogCustData_le)

/-! ## A record -/

/-- `BWORLD_SLOG_MAX_LINE_LEN` -/
def maxLineLen : Nat := 1024

/-- The fields of `TSLog` that go into a file. -/
structure Log where
  cust : Cust
  dwLogConfigId : UInt32
  dwLogHost : UInt32
  iAppId : Int32
  iModuleId : Int32
  wLogType : UInt16
  dwLogSeq : UInt32
  qwLogTime : UInt64

/-- A record with the string of its text. -/
structure Record where
  log : Log
  text : Bytes
  noNul : 0 ∉ text

/-- `SLOG_LEVEL_DEBUG` to `SLOG_LEVEL_FATAL`; any other type is stored as
`SLOG_LEVEL_OTHER`.
mirrors lib/mtagent_api_open/supper_log.cpp:5340-5347 -/
def storedType (wLogType : UInt16) : UInt16 :=
  if wLogType ≠ 2 ∧ wLogType ≠ 4 ∧ wLogType ≠ 8 ∧ wLogType ≠ 16 ∧ wLogType ≠ 32 ∧ wLogType ≠ 64
  then 1
  else wLogType

namespace Record

variable (r : Record)

/-- The text that is stored: with its zero, cut at `BWORLD_SLOG_MAX_LINE_LEN`. -/
def line : Bytes := (r.text ++ [0]).take maxLineLen

def custData : Bytes := saveLogCustData Image.uint32 r.log.cust

/-- What stands behind the indexes for a record. -/
def content : Bytes := Image.uint32.put r.log.dwLogSeq ++ (r.line ++ r.custData)

/-- The index of a record whose content stands at `pos`;
mirrors supper_log.cpp:5326-5350 and 5144-5151, 5220-5257 -/
def index (pos : Nat) : LogFileLogIndex where
  bLogCustLen := UInt8.ofNat r.custData.length
  dwLogCustPos := if r.custData = [] then 0 else UInt32.ofNat (pos + 4 + r.line.length)
  dwLogConfigId := r.log.dwLogConfigId
  dwLogHost := r.log.dwLogHost
  iAppId := r.log.iAppId
  iModuleId := r.log.iModuleId
  wLogType := storedType r.log.wLogType
  dwLogSeq := r.log.dwLogSeq
  qwLogTime := r.log.qwLogTime
  dwLogContentLen := UInt32.ofNat r.line.length
  dwLogContentPos := UInt32.ofNat pos

end Record

/-! ## WriteLogVersion_2 -/

/-- The counts of `WriteLog`, in a file head and in the app;
mirrors supper_log.cpp:5155-5194 -/
def count (st : LogStatInfo) (wLogType : UInt16) (size : Nat) : LogStatInfo :=
  let st := { st with qwLogSizeInfo := st.qwLogSizeInfo + UInt64.ofNat size }
  if wLogType = 2 then { st with dwDebugLogsCount := st.dwDebugLogsCount + 1 }
  else if wLogType = 4 then { st with dwInfoLogsCount := st.dwInfoLogsCount + 1 }
  else if wLogType = 8 then { st with dwWarnLogsCount := st.dwWarnLogsCount + 1 }
  else if wLogType = 16 then { st with dwReqerrLogsCount := st.dwReqerrLogsCount + 1 }
  else if wLogType = 32 then { st with dwErrorLogsCount := st.dwErrorLogsCount + 1 }
  else if wLogType = 64 then { st with dwFatalLogsCount := st.dwFatalLogsCount + 1 }
  else { st with dwOtherLogsCount := st.dwOtherLogsCount + 1 }

/-- The open log file with its head in shared memory and the app it belongs to. -/
structure OpenFile where
  m_pAppInfo : Option AppInfo
  stFileHead : LogFileHead
  file : ByteFile

def countHead (h : LogFileHead) (r : Record) : LogFileHead :=
  { h with
    iLogRecordsWrite := h.iLogRecordsWrite + 1
    stLogStatInfo := count h.stLogStatInfo (storedType r.log.wLogType)
      (r.line.length + r.custData.length) }

def countApp (a : AppInfo) (r : Record) : AppInfo :=
  { a with
    stLogStatInfo := count a.stLogStatInfo (storedType r.log.wLogType)
      (r.line.length + r.custData.length) }

/-- Where index `j` stands; the sum has 32 bits. -/
def indexPos (im : Images) (j : Int) : Nat :=
  (UInt32.ofInt (im.head.size + j * im.index.size)).toNat

/-- The head, the content at the end and the index, each written to the file;
`none` is the failed `assert`. A call whose `fwrite` fails ends the process.
mirrors supper_log.cpp:5135-5281, 5326-5371 -/
def writeLogVersion_2 (im : Images) (o : OpenFile) (r : Record) : Option OpenFile :=
  let head := countHead o.stFileHead r
  let f := im.head.write o.file 0 head
  let g := f.write f.size r.content
  if head.iLogRecordsMax < head.iLogRecordsWrite then none
  else some
    { m_pAppInfo := o.m_pAppInfo.map (countApp · r)
      stFileHead := head
      file := im.index.write g (indexPos im (head.iLogRecordsWrite.toInt - 1)) (r.index f.size) }

/-- The file that `AddNewSlogFile` leaves when every write succeeds. -/
def newFile (im : Images) (t : UInt64) : ByteFile :=
  (im.head.write .empty 0 (newHead t)).fill im.head.size (slogLogRecordsCountMax * im.index.size)

/-- A head, its file and the records written to it. `WriteLogRecord` moves the times
in the head before it writes. -/
inductive Written (im : Images) : LogFileHead → ByteFile → List Record → Prop where
  | create (t : UInt64) : Written im (newHead t) (newFile im t) []
  | times {h : LogFileHead} {f : ByteFile} {rs : List Record} (t1 t2 : UInt64) :
      Written im h f rs → Written im { h with qwLogTimeStart := t1, qwLogTimeEnd := t2 } f rs
  | write {h : LogFileHead} {f : ByteFile} {rs : List Record} {app : Option AppInfo}
      {o : OpenFile} (r : Record) : Written im h f rs →
      writeLogVersion_2 im ⟨app, h, f⟩ r = some o → Written im o.stFileHead o.file (rs ++ [r])

theorem Written.foldlM {im : Images} {rs : List Record} :
    ∀ {rs0} {o o'}, Written im o.stFileHead o.file rs0 →
      rs.foldlM (writeLogVersion_2 im) o = some o' →
      Written im o'.stFileHead o'.file (rs0 ++ rs) := by
  induction rs with
  | nil =>
    intro rs0 o o' hw he
    cases he
    rw [append_nil]
    exact hw
  | cons r rs ih =>
    intro rs0 o o' hw he
    obtain ⟨o1, h1, he⟩ := Option.bind_eq_some_iff.mp he
    have h := ih (hw.write r h1) he
    rw [append_assoc] at h
    exact h

/-! ## What a file holds -/

/-- The largest content: the sequence number, a full line and all custom fields. -/
def maxContent : Nat := 4 + maxLineLen + 65

/-- A file of that many records has no position beyond 32 bits. -/
def Fits (im : Images) : Prop :=
  im.head.size + slogLogRecordsCountMax * (im.index.size + maxContent) < 2 ^ 32

/-- The first byte behind the indexes. -/
def dataPos (im : Images) : Nat := im.head.size + slogLogRecordsCountMax * im.index.size

/-- Record `r` stands in the file as number `j`. -/
def RecordAt (im : Images) (f : ByteFile) (j : Nat) (r : Record) : Prop :=
  ∃ pos, dataPos im ≤ pos ∧ im.index.read f (im.head.size + j * im.index.size) = some (r.index pos) ∧
    f.read pos r.content.length = some r.content

structure Holds (im : Images) (f : ByteFile) (rs : List Record) : Prop where
  length : rs.length ≤ slogLogRecordsCountMax
  ge : dataPos im ≤ f.size
  le : f.size ≤ dataPos im + rs.length * maxContent
  head : ∃ h, im.head.read f 0 = some h ∧ h.iLogRecordsWrite.toInt = rs.length ∧
    h.bLogFileVersion = slogFileVersionCur
  record : ∀ j r, rs[j]? = some r → RecordAt im f j r

section Positions

variable {im : Images} {j : Nat}

theorem slot_le {n : Nat} (hj : j < n) (k : Nat) : j * k + k ≤ n * k := by
  rw [← Nat.succ_mul]
  exact Nat.mul_le_mul_right k hj

theorem indexEnd_le (im : Images) (hj : j < slogLogRecordsCountMax) :
    im.head.size + j * im.index.size + im.index.size ≤ dataPos im := by
  have := slot_le hj im.index.size
  unfold dataPos
  omega

theorem Fits.pos_lt (hfit : Fits im) {n k : Nat} (hn : n ≤ slogLogRecordsCountMax)
    (hk : k ≤ dataPos im + n * maxContent) : k < 2 ^ 32 := by
  have := Nat.mul_le_mul_right maxContent hn
  unfold Fits at hfit
  rw [mul_add] at hfit
  unfold dataPos at hk
  omega

theorem indexPos_eq (hfit : Fits im) (hj : j < slogLogRecordsCountMax) :
    indexPos im j = im.head.size + j * im.index.size := by
  have hlt : im.head.size + j * im.index.size < 2 ^ 32 :=
    hfit.pos_lt (Nat.zero_le _) (by have := indexEnd_le im hj; omega)
  have hint : (im.head.size + j * im.index.size : Int) = (im.head.size + j * im.index.size : Nat) := by
    rfl
  rw [indexPos, UInt32.ofInt, UInt32.toNat_ofNat']
  omega

end Positions

section Append

variable {im : Images} {f : ByteFile} {h : LogFileHead} {ix : LogFileLogIndex} {bs : Bytes} {n : Nat}

/-- The three writes of `WriteLog` to a file: the head, the content behind the end,
and index `n`. -/
def append (im : Images) (f : ByteFile) (h : LogFileHead) (bs : Bytes) (n : Nat)
    (ix : LogFileLogIndex) : ByteFile :=
  im.index.write ((im.head.write f 0 h).write (im.head.write f 0 h).size bs)
    (im.head.size + n * im.index.size) ix

variable (hge : dataPos im ≤ f.size)
include hge

theorem size_writeHead : (im.head.write f 0 h).size = f.size := by
  refine size_write_of_le ?_
  rw [im.head.length_put]
  unfold dataPos at hge
  omega

theorem size_append (hn : n < slogLogRecordsCountMax) :
    (append im f h bs n ix).size = f.size + bs.length := by
  have hend := indexEnd_le im hn
  have hsize : ((im.head.write f 0 h).write (im.head.write f 0 h).size bs).size =
      f.size + bs.length := by
    show max _ _ = _
    rw [size_writeHead hge]
    omega
  rw [← hsize]
  refine size_write_of_le ?_
  rw [im.index.length_put]
  omega

/-- What stands behind the head and is not index `n` stays. -/
theorem read_append {q k : Nat} (hq : im.head.size ≤ q) (hk : q + k ≤ f.size)
    (hd : q + k ≤ im.head.size + n * im.index.size ∨
      im.head.size + n * im.index.size + im.index.size ≤ q) :
    (append im f h bs n ix).read q k = f.read q k := by
  have hs : (im.head.write f 0 h).size = f.size := size_writeHead hge
  have hindex := im.index.length_put ix
  have hhead := im.head.length_put h
  rw [append, Image.write, read_write_of_disjoint, read_write_of_disjoint, Image.write,
    read_write_of_disjoint]
  · exact .inr (by omega)
  · exact hk
  · exact .inl (by omega)
  · omega
  · rwa [hindex]
  · exact le_trans hk (le_trans (le_of_eq hs.symm) (le_max_left ..))

theorem read_append_content (hn : n < slogLogRecordsCountMax) :
    (append im f h bs n ix).read f.size bs.length = some bs := by
  have hend := indexEnd_le im hn
  have hs : (im.head.write f 0 h).size = f.size := size_writeHead hge
  have hread := (im.head.write f 0 h).read_write f.size bs
  rw [append, hs, Image.write, read_write_of_disjoint, hread]
  · exact .inr (by rw [im.index.length_put]; omega)
  · exact le_max_right ..

theorem readHead_append : im.head.read (append im f h bs n ix) 0 = some h := by
  have hs : (im.head.write f 0 h).size = f.size := size_writeHead hge
  have hhead : im.head.size ≤ f.size := le_trans (Nat.le_add_right _ _) hge
  rw [← im.head.read_write f 0 h, Image.read, Image.read, append, Image.write,
    read_write_of_disjoint, read_write_of_disjoint]
  · exact .inl (by omega)
  · omega
  · exact .inl (by omega)
  · exact le_trans (by omega) (le_max_left ..)

end Append

section Holds

variable {im : Images} {f : ByteFile} {h : LogFileHead} {rs : List Record}

theorem Record.length_content (r : Record) :
    r.content.length = 4 + (r.line.length + r.custData.length) := by
  simp only [Record.content, length_append]
  rfl

theorem Record.length_content_le (r : Record) : r.content.length ≤ maxContent := by
  have hline : r.line.length ≤ maxLineLen := length_take_le _ _
  have hcust : r.custData.length ≤ 65 := length_saveLogCustData_le _ _
  rw [r.length_content]
  unfold maxContent
  omega

variable {n : Nat}

theorem RecordAt.append {j : Nat} {r : Record} (hr : RecordAt im f j r) (hge : dataPos im ≤ f.size)
    (hjn : j < n) (hn : n < slogLogRecordsCountMax) (h : LogFileHead) (bs : Bytes)
    (ix : LogFileLogIndex) : RecordAt im (append im f h bs n ix) j r := by
  obtain ⟨pos, hpos, hindex, hread⟩ := hr
  have hslot := slot_le hjn im.index.size
  have hend := indexEnd_le im hn
  refine ⟨pos, hpos, ?_, ?_⟩
  · rw [← hindex, Image.read, Image.read, read_append hge (Nat.le_add_right _ _)]
    · omega
    · exact .inl (by omega)
  · have hsize := le_size_of_read hread
    rw [← hread, read_append hge]
    · exact le_trans (Nat.le_add_right _ _) hpos
    · exact hsize
    · exact .inr (by omega)

theorem Holds.append (hf : Holds im f rs) (hn : rs.length < slogLogRecordsCountMax) (h : LogFileHead)
    (hc : h.iLogRecordsWrite.toInt = rs.length + 1) (hv : h.bLogFileVersion = slogFileVersionCur)
    (r : Record) :
    Holds im (append im f h r.content rs.length (r.index f.size)) (rs ++ [r]) where
  length := by
    rw [length_append]
    exact hn
  ge := by
    rw [size_append hf.ge hn]
    exact le_trans hf.ge (Nat.le_add_right _ _)
  le := by
    have hle := hf.le
    have hr := r.length_content_le
    rw [size_append hf.ge hn, length_append, length_singleton, Nat.succ_mul]
    omega
  head := ⟨h, readHead_append hf.ge, by rw [hc, length_append]; rfl, hv⟩
  record j r' hj := by
    rcases lt_trichotomy j rs.length with hlt | rfl | hgt
    · rw [getElem?_append_left hlt] at hj
      exact (hf.record j r' hj).append hf.ge hlt hn h _ _
    · rw [getElem?_concat_length] at hj
      cases hj
      exact ⟨f.size, hf.ge, Image.read_write .., read_append_content hf.ge hn⟩
    · rw [getElem?_eq_none (by rw [length_append]; exact hgt)] at hj
      cases hj

theorem Holds.create (im : Images) (t : UInt64) : Holds im (newFile im t) [] := by
  have hsize : (im.head.write .empty 0 (newHead t)).size = im.head.size := by
    show max 0 _ = _
    rw [im.head.length_put]
    omega
  have hfile : (newFile im t).size = dataPos im := by
    show max _ _ = _
    rw [hsize]
    exact Nat.max_eq_right (Nat.le_add_right _ _)
  refine ⟨Nat.zero_le _, le_of_eq hfile.symm, ?_, ⟨newHead t, ?_, rfl, rfl⟩, fun _ _ h => by cases h⟩
  · rw [hfile]
    exact Nat.le_add_right _ _
  · rw [← im.head.read_write .empty 0 (newHead t), Image.read, newFile,
      read_fill_of_disjoint (.inl (le_of_eq (zero_add _)))]
    · rfl
    · omega

/-- The head in shared memory: it counts the records. -/
structure HeadOk (h : LogFileHead) (n : Nat) : Prop where
  count : h.iLogRecordsWrite.toInt = n
  max : h.iLogRecordsMax = Int32.ofNat slogLogRecordsCountMax
  version : h.bLogFileVersion = slogFileVersionCur

theorem toInt_max : (Int32.ofNat slogLogRecordsCountMax).toInt = slogLogRecordsCountMax := by
  decide +kernel

theorem HeadOk.countHead (hh : HeadOk h n) (hn : n ≤ slogLogRecordsCountMax) (r : Record) :
    HeadOk (countHead h r) (n + 1) where
  count := by
    show (h.iLogRecordsWrite + 1).toInt = _
    have hlim : slogLogRecordsCountMax = 200000 := rfl
    rw [Int32.toInt_add, hh.count, Int32.toInt_one, Int.bmod_eq_of_le (by omega) (by omega)]
    rfl
  max := hh.max
  version := hh.version

theorem HeadOk.full_iff (hh : HeadOk h n) :
    h.iLogRecordsMax < h.iLogRecordsWrite ↔ slogLogRecordsCountMax < n := by
  rw [Int32.lt_iff_toInt_lt, hh.max, hh.count, toInt_max]
  omega

/-- A call for a file that is not full. -/
theorem writeLogVersion_2_eq (hfit : Fits im) (hh : HeadOk h n) (hge : dataPos im ≤ f.size)
    (hn : n < slogLogRecordsCountMax) (app : Option AppInfo) (r : Record) :
    writeLogVersion_2 im ⟨app, h, f⟩ r = some
      { m_pAppInfo := app.map (countApp · r)
        stFileHead := countHead h r
        file := append im f (countHead h r) r.content n (r.index f.size) } := by
  have hh' := hh.countHead (le_of_lt hn) r
  have hpos : indexPos im ((countHead h r).iLogRecordsWrite.toInt - 1) =
      im.head.size + n * im.index.size := by
    rw [hh'.count, ← indexPos_eq hfit hn]
    congr 1
    omega
  have hmax : ¬ (countHead h r).iLogRecordsMax < (countHead h r).iLogRecordsWrite := by
    rw [hh'.full_iff]
    omega
  unfold writeLogVersion_2 append
  rw [if_neg hmax, hpos, size_writeHead hge]

theorem Written.holds (hfit : Fits im) (hw : Written im h f rs) :
    Holds im f rs ∧ HeadOk h rs.length := by
  induction hw with
  | create t => exact ⟨.create im t, rfl, rfl, rfl⟩
  | times t1 t2 _ ih => exact ⟨ih.1, ih.2.count, ih.2.max, ih.2.version⟩
  | @write h f rs app o r _ he ih =>
    obtain ⟨hf, hh⟩ := ih
    have hh' := hh.countHead hf.length r
    have hn : rs.length < slogLogRecordsCountMax := by
      rcases lt_or_ge rs.length slogLogRecordsCountMax with hn | hn
      · exact hn
      · have hnone : writeLogVersion_2 im ⟨app, h, f⟩ r = none :=
          if_pos (hh'.full_iff.2 (Nat.lt_succ_of_le hn))
        cases hnone.symm.trans he
    rw [writeLogVersion_2_eq hfit hh hf.ge hn] at he
    cases he
    refine ⟨hf.append hn (countHead h r) (hh'.count.trans (by omega)) hh'.version r, ?_⟩
    rw [length_append]
    exact hh'

end Holds

end DesPwd.L4.LogWrite
