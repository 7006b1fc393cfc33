import DesPwd.Core.Run
import DesPwd.L4App.LogWrite
import Mathlib.Data.List.Infix

/-!
# Searching the log files

`CSLogSearch::HistoryLog` returns the next record of an app's log files that
matches a search: it picks the files of the time range, goes through the records
of each from `m_dwFilePos` on, and fills one static `TSLogOut` and one static text
buffer on the way (lib/mtagent_api_open/supper_log.cpp). The custom fields are
filled before the keys are tested, and only for a record that has some.

* `readRecord_visit`: what one record of a file does to the result.
* `scan_found`: the record that is found in a file.
-/
namespace DesPwd.L4.LogSearch

open Bytes Run L4.LogFiles L4.LogWrite List ByteFile
open L1.LogCust (Cust readCustData Survives)

/-! ## The search -/

/-- A key, as the test whether it stands in the address of a host and in a text. -/
structure Key where
  inHost : UInt32 → Bool
  inText : Bytes → Bool

/-- mirrors `CSLogSearch` -/
structure Search where
  m_bInit : Bool
  m_strLogFile : Bytes
  m_iLogTypeFlag : UInt32
  m_iLogAppId : Int32
  m_arrLogModuleId : List Int32
  m_stIncKey : List Key
  m_stExcpKey : List Key
  m_iReportMachine : Int32
  m_qwTimeStart : UInt64
  m_qwTimeEnd : UInt64
  m_wFileNo : UInt16
  m_dwFilePos : UInt32
  m_wFileCount : UInt16
  m_wFileIndexStar : UInt16
  m_dwCurFileHasRecords : UInt32

/-- mirrors `TSLogOut`; its text is in the static buffer. -/
structure LogOut where
  cust : Cust
  dwLogConfigId : UInt32
  dwLogHost : UInt32
  dwLogSeq : UInt32
  iAppId : Int32
  iModuleId : Int32
  wLogType : UInt16
  qwLogTime : UInt64

/-- `memset` of the result. -/
def LogOut.zero : LogOut := ⟨⟨0, 0, 0, 0, 0, .zero 15, .zero 31⟩, 0, 0, 0, 0, 0, 0, 0⟩

/-- `IsLogMatch` without a text;
mirrors supper_log.cpp:482-507 -/
def isLogMatch (s : Search) (o : LogOut) : Bool :=
  (s.m_iLogAppId = 0 ∨ s.m_iLogAppId = o.iAppId) ∧
    (s.m_arrLogModuleId = [] ∨ o.iModuleId ∈ s.m_arrLogModuleId) ∧
    o.wLogType.toUInt32 &&& s.m_iLogTypeFlag ≠ 0 ∧
    (s.m_iReportMachine = 0 ∨ s.m_iReportMachine = o.dwLogHost.toInt32)

/-- `IsLogMatch` with a text;
mirrors supper_log.cpp:508-534 -/
def isLogMatchText (s : Search) (o : LogOut) (pszLog : Bytes) : Bool :=
  s.m_stExcpKey.all (fun k => !k.inHost o.dwLogHost && !k.inText pszLog) &&
    s.m_stIncKey.all (fun k => k.inHost o.dwLogHost || k.inText pszLog)

/-! ## ReadLogFileVersion_2 -/

/-- The size of the static `sLogBuf`. -/
def sLogBufLen : Nat := maxLineLen + 64

/-- The string in `sLogBuf`. -/
def bufText (sLogBuf : ByteFile) : Bytes :=
  ((List.range sLogBufLen).map sLogBuf.byte).takeWhile (· ≠ 0)

structure Scan where
  search : Search
  out : LogOut
  sLogBuf : ByteFile

/-- How the loop goes on after a record: `continue` or to the end of the body,
`break`, or `return 1`. -/
inductive Next where
  | next (st : Scan)
  | stop (st : Scan)
  | found (st : Scan)

/-- The bytes that `fread` gets of the `n` at `p`. -/
def fread (f : ByteFile) (p n : Nat) : Bytes :=
  (List.range (min n (f.size - p))).map fun k => f.byte (p + k)

/-- The custom fields of a record, in a buffer of 256 zeros;
mirrors supper_log.cpp:778-819 -/
def readCust (f : ByteFile) (ix : LogFileLogIndex) (old : Cust) : Option Cust :=
  if 0 < ix.bLogCustLen then do
    let bs ← f.read ix.dwLogCustPos.toNat ix.bLogCustLen.toNat
    readCustData Image.uint32 old (bs ++ List.replicate (256 - bs.length) 0)
  else some old

/-- mirrors supper_log.cpp:743-828 -/
def readContent (f : ByteFile) (ix : LogFileLogIndex) (st : Scan) : Next :=
  match Image.uint32.read f ix.dwLogContentPos.toNat with
  | none => .stop st
  | some dwContentSeq =>
    if dwContentSeq ≠ ix.dwLogSeq then .stop st
    else if maxLineLen < ix.dwLogContentLen.toNat then .stop st
    else
      let bs := fread f (ix.dwLogContentPos.toNat + 4) ix.dwLogContentLen.toNat
      let st := { st with sLogBuf := st.sLogBuf.write 0 bs }
      if bs.length ≠ ix.dwLogContentLen.toNat then .stop st
      else
        match readCust f ix st.out.cust with
        | none => .stop st
        | some cust =>
          let out := { st.out with cust := cust }
          if isLogMatchText st.search out (bufText st.sLogBuf) then
            .found { st with
              out := { out with
                dwLogConfigId := ix.dwLogConfigId
                dwLogSeq := ix.dwLogSeq
                qwLogTime := ix.qwLogTime } }
          else .next { st with out := out }

/-- A file is searched for all its records when it is given by name. -/
def inTime (s : Search) (qwLogTime : UInt64) : Bool :=
  s.m_strLogFile ≠ [] ∨ (s.m_qwTimeStart ≤ qwLogTime ∧ qwLogTime ≤ s.m_qwTimeEnd)

/-- The search has passed record `j`. -/
def Scan.pass (st : Scan) (j : Int) : Scan :=
  { st with search := { st.search with m_dwFilePos := UInt32.ofInt (j + 1) } }

/-- The fields that are set before the filter. -/
def Scan.setHead (st : Scan) (ix : LogFileLogIndex) : Scan :=
  { st with
    out := { st.out with
      iAppId := ix.iAppId
      iModuleId := ix.iModuleId
      wLogType := ix.wLogType
      dwLogHost := ix.dwLogHost } }

/-- mirrors supper_log.cpp:712-741 -/
def readRecord (im : Images) (f : ByteFile) (j : Int) (st : Scan) : Next :=
  match im.index.read f (indexPos im j) with
  | none => .stop st
  | some ix =>
    if !inTime st.search ix.qwLogTime then .next (st.pass j)
    else if !isLogMatch st.search (st.setHead ix).out then .next ((st.pass j).setHead ix)
    else readContent f ix ((st.pass j).setHead ix)

/-- The loop from record `j` on, for `n` records. -/
def scan (im : Images) (f : ByteFile) : Nat → Int → Scan → Bool × Scan
  | 0, _, st => (false, st)
  | n + 1, j, st =>
    match readRecord im f j st with
    | .next st => scan im f n (j + 1) st
    | .stop st => (false, st)
    | .found st => (true, st)

/-- mirrors supper_log.cpp:704-831 -/
def readLogFileVersion_2 (im : Images) (h : LogFileHead) (f : ByteFile) (st : Scan) : Bool × Scan :=
  let j := st.search.m_dwFilePos.toInt32.toInt
  scan im f (h.iLogRecordsWrite.toInt - j).toNat j
    { st with search := { st.search with m_dwCurFileHasRecords := h.iLogRecordsWrite.toUInt32 } }

/-! ## HistoryLog -/

/-- The list of the files in shared memory, and the disk. -/
structure Files where
  wLogFileCount : UInt16
  stFiles : Nat → LogFileInfo
  disk : Bytes → Option ByteFile

def Files.open (fs : Files) (i : Nat) : Option ByteFile := fs.disk (fs.stFiles i).szAbsFileName

def Files.head (fs : Files) (i : Nat) : LogFileHead := (fs.stFiles i).stFileHead

inductive Loaded where
  | noFile
  | noHead
  | ok (fs : Files)

/-- The head of a file is read into the list if it was not yet;
mirrors supper_log.cpp:854-873 -/
def loadHead (im : Images) (fs : Files) (i : Nat) : Loaded :=
  if 0 < (fs.head i).iLogRecordsWrite then .ok fs
  else
    match fs.open i with
    | none => .noFile
    | some f =>
      match im.head.read f 0 with
      | none => .noHead
      | some h => .ok { fs with
          stFiles := Function.update fs.stFiles i { fs.stFiles i with stFileHead := h } }

/-- The search starts at file `i`. -/
def Search.startAt (s : Search) (i : Nat) : Search :=
  { s with m_wFileIndexStar := UInt16.ofNat i, m_wFileNo := 0, m_dwFilePos := 0 }

/-- The loop that picks the files of a new search, from file `i` on;
mirrors supper_log.cpp:849-912 -/
def pickFiles (im : Images) : Nat → Nat → Files × Search → Files × Search
  | 0, _, st => st
  | n + 1, i, (fs, s) =>
    match loadHead im fs i with
    | .noFile => (fs, s)
    | .noHead => pickFiles im n (i + 1) (fs, s)
    | .ok fs =>
      if s.m_strLogFile ≠ [] then
        if s.m_strLogFile <:+: (fs.stFiles i).szAbsFileName then
          (fs, { s.startAt i with m_wFileCount := 1 })
        else pickFiles im n (i + 1) (fs, s)
      else
        let isNew := slogLogFilesCountMax ≤ s.m_wFileIndexStar.toNat
        if isNew ∧ (fs.head i).qwLogTimeEnd < s.m_qwTimeStart then pickFiles im n (i + 1) (fs, s)
        else
          let s := if isNew then s.startAt i else s
          if s.m_qwTimeEnd < (fs.head i).qwLogTimeStart then (fs, s)
          else pickFiles im n (i + 1) (fs, { s with m_wFileCount := s.m_wFileCount + 1 })

/-- mirrors supper_log.cpp:845-913 -/
def beginSearch (im : Images) (fs : Files) (s : Search) : Files × Search :=
  if s.m_wFileCount = 0 then
    pickFiles im fs.wLogFileCount.toNat 0
      (fs, { s with m_wFileIndexStar := UInt16.ofNat slogLogFilesCountMax })
  else (fs, s)

/-- `ReadLogFileVersion_1`: its result and where it leaves `m_dwFilePos`. -/
abbrev Version1 := Search → LogFileHead → ByteFile → Option LogOut × UInt32

/-- The loop over the files from `i` on; mirrors
supper_log.cpp:916-952 -/
def scanFiles (im : Images) (ver1 : Version1) (fs : Files) :
    Nat → Nat → Nat → Search × ByteFile → Option LogOut × Search × ByteFile
  | 0, _, _, (s, buf) => (none, s, buf)
  | n + 1, i, k, (s, buf) =>
    match fs.open i with
    | none => (none, s, buf)
    | some f =>
      let goOn (s : Search) (buf : ByteFile) : Option LogOut × Search × ByteFile :=
        if s.m_wFileCount.toNat ≤ k + 1 then (none, s, buf)
        else scanFiles im ver1 fs n (i + 1) (k + 1)
          ({ s with m_wFileNo := s.m_wFileNo + 1, m_dwFilePos := 0 }, buf)
      if (fs.head i).bLogFileVersion = 1 then
        match ver1 s (fs.head i) f with
        | (some out, pos) => (some out, { s with
            m_dwFilePos := pos
            m_dwCurFileHasRecords := (fs.head i).iLogRecordsWrite.toUInt32 }, buf)
        | (none, pos) => goOn { s with
            m_dwFilePos := pos
            m_dwCurFileHasRecords := (fs.head i).iLogRecordsWrite.toUInt32 } buf
      else if (fs.head i).bLogFileVersion = 2 then
        match readLogFileVersion_2 im (fs.head i) f ⟨s, .zero, buf⟩ with
        | (true, st) => (some st.out, st.search, st.sLogBuf)
        | (false, st) => goOn st.search st.sLogBuf
      else (none, s, buf)

/-- The files, the search and the static buffer. -/
structure Sys where
  files : Files
  search : Search
  sLogBuf : ByteFile

/-- mirrors supper_log.cpp:833-953 -/
def historyLog (im : Images) (ver1 : Version1) (s : Sys) : Option LogOut × Sys :=
  if !s.search.m_bInit then (none, s)
  else
    let (fs, q) := beginSearch im s.files s.search
    let i := q.m_wFileIndexStar.toNat + q.m_wFileNo.toNat
    let r := scanFiles im ver1 fs (slogLogFilesCountMax - i) i q.m_wFileNo.toNat
      ({ q with m_dwCurFileHasRecords := 0 }, s.sLogBuf)
    (r.1, ⟨fs, r.2.1, r.2.2⟩)

/-! ## The static buffer -/

/-- The bytes behind the longest line are never written. -/
structure BufOk (b : ByteFile) : Prop where
  size : b.size = sLogBufLen
  zero : ∀ k, maxLineLen ≤ k → b.byte k = 0

variable {b f : ByteFile} {st : Scan} {im : Images} {ver1 : Version1} {fs : Files} {pos p j : Nat}
  {r : Record} {rs : List Record} {s s' : Search} {out : LogOut} {o : OpenFile}

theorem BufOk.write (h : BufOk b) {bs : Bytes} (hbs : bs.length ≤ maxLineLen) :
    BufOk (b.write 0 bs) where
  size := by
    rw [size_write_of_le, h.size]
    rw [h.size, zero_add]
    exact le_trans hbs (Nat.le_add_right _ _)
  zero k hk := by
    rw [byte_write_of_disjoint (.inr (by omega))]
    exact h.zero k hk

def Next.scan : Next → Scan
  | .next st => st
  | .stop st => st
  | .found st => st

theorem length_fread_le (f : ByteFile) (p n : Nat) : (fread f p n).length ≤ n := by
  unfold fread
  rw [length_map, length_range]
  exact min_le_left _ _

/-- The fields that going through a file does not change. -/
def Search.fixed (s : Search) : Search := { s with m_dwFilePos := 0, m_dwCurFileHasRecords := 0 }

/-- What every step through a file keeps. -/
structure Keeps (st st' : Scan) : Prop where
  buf : BufOk st.sLogBuf → BufOk st'.sLogBuf
  fixed : st'.search.fixed = st.search.fixed

theorem Keeps.trans {st' st'' : Scan} (h : Keeps st st') (h' : Keeps st' st'') : Keeps st st'' :=
  ⟨fun hb => h'.buf (h.buf hb), h'.fixed.trans h.fixed⟩

theorem readContent_keeps (f : ByteFile) (ix : LogFileLogIndex) (st : Scan) :
    (BufOk st.sLogBuf → BufOk (readContent f ix st).scan.sLogBuf) ∧
      (readContent f ix st).scan.search = st.search := by
  unfold readContent
  split
  · exact ⟨id, rfl⟩
  split
  · exact ⟨id, rfl⟩
  split
  · exact ⟨id, rfl⟩
  rename_i hlen
  have hw : BufOk st.sLogBuf → BufOk (st.sLogBuf.write 0
      (fread f (ix.dwLogContentPos.toNat + 4) ix.dwLogContentLen.toNat)) :=
    fun h => h.write (le_trans (length_fread_le ..) (not_lt.1 hlen))
  dsimp only
  repeat' split
  all_goals exact ⟨hw, rfl⟩

/-- A record only moves the position of the search. -/
def Moves (rd : Int → Scan → Next) : Prop :=
  ∀ j st, (rd j st).scan.search = st.search ∨ (rd j st).scan.search = (st.pass j).search

theorem readRecord_moves (im : Images) (f : ByteFile) : Moves (readRecord im f) := by
  intro j st
  unfold readRecord
  split
  case h_1 => exact .inl rfl
  case h_2 ix _ =>
    right
    split
    · rfl
    split
    · rfl
    · exact (readContent_keeps f ix _).2

theorem readRecord_keeps (im : Images) (f : ByteFile) (j : Int) (st : Scan) :
    Keeps st (readRecord im f j st).scan where
  buf h := by
    unfold readRecord
    split
    case h_1 => exact h
    case h_2 ix _ =>
      split
      · exact h
      split
      · exact h
      · exact (readContent_keeps f ix ((st.pass j).setHead ix)).1 h
  fixed := by
    rcases readRecord_moves im f j st with he | he
    · rw [he]
    · rw [he]
      rfl

theorem scan_keeps (im : Images) (f : ByteFile) (n : Nat) :
    ∀ j st, Keeps st (scan im f n j st).2 := by
  induction n with
  | zero => exact fun _ _ => ⟨id, rfl⟩
  | succ n ih =>
    intro j st
    have h := readRecord_keeps im f j st
    unfold scan
    split
    case h_1 st' he =>
      rw [he] at h
      exact h.trans (ih (j + 1) st')
    case h_2 st' he =>
      rw [he] at h
      exact h
    case h_3 st' he =>
      rw [he] at h
      exact h

theorem readLogFileVersion_2_keeps (im : Images) (h : LogFileHead) (f : ByteFile) (st : Scan) :
    Keeps st (readLogFileVersion_2 im h f st).2 := by
  have h := scan_keeps im f (h.iLogRecordsWrite.toInt - st.search.m_dwFilePos.toInt32.toInt).toNat
    st.search.m_dwFilePos.toInt32.toInt
    { st with search := { st.search with m_dwCurFileHasRecords := h.iLogRecordsWrite.toUInt32 } }
  exact ⟨h.buf, h.fixed⟩

/-! ## One record of a file -/

/-- A record that the time range and the filter let through. -/
def Selected (s : Search) (r : Record) : Bool :=
  inTime s r.log.qwLogTime && isLogMatch s { LogOut.zero with
      iAppId := r.log.iAppId
      iModuleId := r.log.iModuleId
      wLogType := storedType r.log.wLogType
      dwLogHost := r.log.dwLogHost }

/-- A result with the fields of a record and its text. Custom fields that are not
set have no value, and without custom data none is set. -/
structure AsStored (r : Record) (o : LogOut) (text : Bytes) : Prop where
  iAppId : o.iAppId = r.log.iAppId
  iModuleId : o.iModuleId = r.log.iModuleId
  wLogType : o.wLogType = storedType r.log.wLogType
  dwLogHost : o.dwLogHost = r.log.dwLogHost
  dwLogConfigId : o.dwLogConfigId = r.log.dwLogConfigId
  dwLogSeq : o.dwLogSeq = r.log.dwLogSeq
  qwLogTime : o.qwLogTime = r.log.qwLogTime
  cust : r.custData ≠ [] → Survives r.log.cust o.cust
  noCust : r.custData = [] → o.cust.bCustFlag = 0
  text : text = r.text.take r.line.length

/-- The custom fields after a record was read. -/
def CustAfter (r : Record) (old new : Cust) : Prop :=
  (r.custData ≠ [] → Survives r.log.cust new) ∧ (r.custData = [] → new = old)

/-- What number `j` of a file, record `r`, does to a scan. -/
inductive Visit (st : Scan) (j : Nat) (r : Record) : Next → Prop where
  | skip {st' : Scan} (hsel : Selected st.search r = false) (hcust : st'.out.cust = st.out.cust)
      (hpos : st'.search.m_dwFilePos = UInt32.ofInt (j + 1)) : Visit st j r (.next st')
  | reject {st' : Scan} {o : LogOut} {text : Bytes} (hsel : Selected st.search r = true)
      (hcust : CustAfter r st.out.cust st'.out.cust)
      (hkeys : ¬ isLogMatchText st.search o text = true) : Visit st j r (.next st')
  | found {st' : Scan} (hsel : Selected st.search r = true)
      (hcust : CustAfter r st.out.cust st'.out.cust)
      (hpos : st'.search.m_dwFilePos = UInt32.ofInt (j + 1))
      (hout : st'.out.cust.bCustFlag = 0 ∨ r.custData ≠ [] ↔
        AsStored r st'.out (bufText st'.sLogBuf)) : Visit st j r (.found st')

theorem bufText_eq {n : Nat} {text : Bytes} (h0 : 0 ∉ text) (hn : n ≤ sLogBufLen)
    (h : b.read 0 n = some (text ++ [0])) : bufText b = text := by
  have hbs : (List.range n).map b.byte = text ++ [0] := by
    unfold ByteFile.read at h
    split at h
    · simpa using h
    · cases h
  obtain ⟨k, hk⟩ := Nat.exists_eq_add_of_le hn
  unfold bufText
  rw [hk, range_add, map_append, hbs, append_assoc]
  exact CharBuf.takeWhile_ne_zero h0

theorem bufText_line (hb : BufOk b) (r : Record) :
    bufText (b.write 0 r.line) = r.text.take r.line.length := by
  have hmax : maxLineLen = 1024 := rfl
  have hbuf : sLogBufLen = 1088 := rfl
  by_cases hlen : r.text.length < maxLineLen
  · have hline : r.line = r.text ++ [0] :=
      take_of_length_le (by rw [length_append]; exact hlen)
    have hread := b.read_write 0 r.line
    have hle : r.text.length + 1 ≤ sLogBufLen := by omega
    rw [hline, length_append, length_singleton] at hread ⊢
    rw [bufText_eq r.noNul hle hread, take_of_length_le (Nat.le_succ _)]
  · have hline : r.line = r.text.take maxLineLen :=
      take_append_of_le_length (not_lt.1 hlen)
    have hll : r.line.length = maxLineLen := by
      rw [hline, length_take]
      omega
    have hroom : 0 + r.line.length < b.size := by
      rw [hb.size]
      omega
    have hread := read_write_succ hroom
    rw [hb.zero _ (by omega)] at hread
    have h0 : 0 ∉ r.line := by
      rw [hline]
      exact fun h => r.noNul (mem_of_mem_take h)
    rw [bufText_eq h0 (by omega) hread, hll, hline]

theorem read_content (h : f.read pos r.content.length = some r.content) :
    Image.uint32.read f pos = some r.log.dwLogSeq ∧ f.read (pos + 4) r.line.length = some r.line ∧
      f.read (pos + 4 + r.line.length) r.custData.length = some r.custData := by
  unfold Record.content at h
  rw [length_append] at h
  obtain ⟨hseq, hrest⟩ := read_split h
  rw [length_append] at hrest
  obtain ⟨hline, hcust⟩ := read_split hrest
  rw [Image.length_put] at hseq hcust
  refine ⟨?_, hline, hcust⟩
  unfold Image.read
  rw [hseq, Option.map_some, Image.get_put]

theorem fread_eq {n : Nat} {bs : Bytes} (h : f.read p n = some bs) : fread f p n = bs := by
  unfold ByteFile.read at h
  split at h
  · cases h
    unfold fread
    rw [min_eq_left (by omega)]
  · cases h

/-- The custom fields of a record are decoded over those that the result held. -/
theorem readCust_index (hpos : pos + r.content.length < 2 ^ 32)
    (h : f.read (pos + 4 + r.line.length) r.custData.length = some r.custData) (old : Cust) :
    ∃ new, readCust f (r.index pos) old = some new ∧ CustAfter r old new := by
  have hle : r.custData.length ≤ 65 := L1.LogCust.length_saveLogCustData_le _ _
  have hlen : (r.index pos).bLogCustLen.toNat = r.custData.length :=
    UInt8.toNat_ofNat_of_lt' (by show _ < 256; omega)
  by_cases hc : r.custData = []
  · refine ⟨old, if_neg ?_, fun hne => absurd hc hne, fun _ => rfl⟩
    rw [UInt8.lt_iff_toNat_lt, hlen, hc]
    decide
  · have hp : (r.index pos).dwLogCustPos.toNat = pos + 4 + r.line.length := by
      have hcontent := r.length_content
      rw [Record.index, if_neg hc]
      exact UInt32.toNat_ofNat_of_lt' (by show _ < 2 ^ 32; omega)
    have hgt : 0 < (r.index pos).bLogCustLen := by
      rw [UInt8.lt_iff_toNat_lt, hlen]
      exact length_pos_iff.2 hc
    have hpack : r.custData = L1.LogCust.packCust Image.uint32 r.log.cust :=
      L1.LogCust.saveLogCustData_eq hc
    obtain ⟨new, hnew, hsur⟩ := L1.LogCust.readCustData_packCust Image.uint32 r.log.cust old
      (List.replicate (256 - r.custData.length) 0)
    refine ⟨new, ?_, fun _ => hsur, fun h => absurd h hc⟩
    rw [readCust, if_pos hgt, hp, hlen, h, ← hnew, hpack]
    rfl

theorem readContent_visit
    (hpos : pos + r.content.length < 2 ^ 32) (hread : f.read pos r.content.length = some r.content)
    (hb : BufOk st.sLogBuf) (hsel : Selected st.search r = true) :
    Visit st j r (readContent f (r.index pos) ((st.pass j).setHead (r.index pos))) := by
  obtain ⟨hseq, hline, hcust⟩ := read_content hread
  obtain ⟨new, hnew, hafter⟩ := readCust_index hpos hcust st.out.cust
  have hlen := r.length_content
  have hle : r.line.length ≤ maxLineLen := length_take_le _ _
  have hp : (r.index pos).dwLogContentPos.toNat = pos :=
    UInt32.toNat_ofNat_of_lt' (by show _ < 2 ^ 32; omega)
  have hl : (r.index pos).dwLogContentLen.toNat = r.line.length :=
    UInt32.toNat_ofNat_of_lt' (by show _ < 2 ^ 32; omega)
  have hs : (r.index pos).dwLogSeq = r.log.dwLogSeq := rfl
  have hst : ((st.pass j).setHead (r.index pos)).out.cust = st.out.cust := rfl
  unfold readContent
  simp [hp, hl, hseq, hs, ne_eq, not_true_eq_false, if_neg (not_lt.2 hle),
    fread_eq hline, hst, hnew]
  split
  · refine .found hsel hafter rfl ⟨fun h => ?_, fun h => ?_⟩
    · exact ⟨rfl, rfl, rfl, rfl, rfl, rfl, rfl, hafter.1, fun hc => h.resolve_right (· hc),
        bufText_line hb r⟩
    · by_cases hc : r.custData = []
      · exact .inl (h.noCust hc)
      · exact .inr hc
  · exact .reject hsel hafter ‹_›

theorem readRecord_visit (hfit : Fits im) (hf : Holds im f rs) (hj : rs[j]? = some r)
    (hb : BufOk st.sLogBuf) : Visit st j r (readRecord im f j st) := by
  obtain ⟨pos, -, hindex, hread⟩ := hf.record j r hj
  have hjlt : j < rs.length := (List.getElem?_eq_some_iff.1 hj).1
  have hjmax : j < slogLogRecordsCountMax := lt_of_lt_of_le hjlt hf.length
  have hpos : pos + r.content.length < 2 ^ 32 := by
    refine hfit.pos_lt hf.length (le_trans ?_ hf.le)
    exact le_size_of_read hread
  rw [readRecord, indexPos_eq hfit hjmax, hindex]
  have hsel : Selected st.search r = (inTime st.search (r.index pos).qwLogTime &&
      isLogMatch st.search (st.setHead (r.index pos)).out) := rfl
  dsimp only
  cases htime : inTime st.search (r.index pos).qwLogTime with
  | false =>
    rw [htime] at hsel
    exact .skip hsel rfl rfl
  | true =>
    cases hmatch : isLogMatch st.search (st.setHead (r.index pos)).out with
    | false =>
      rw [htime, hmatch] at hsel
      exact .skip hsel rfl rfl
    | true =>
      rw [htime, hmatch] at hsel
      exact readContent_visit hpos hread hb hsel

/-! ## Going through a file -/

/-- No record from `p` to before `j` that is selected has custom data. -/
def NoStale (rs : List Record) (s : Search) (p j : Nat) : Prop :=
  ∀ k r, p ≤ k → k < j → rs[k]? = some r → r.custData ≠ [] → Selected s r = false

theorem NoStale.succ_iff (hp : p ≤ j) (hj : rs[j]? = some r) :
    NoStale rs s p (j + 1) ↔ NoStale rs s p j ∧ (r.custData ≠ [] → Selected s r = false) := by
  constructor
  · intro h
    exact ⟨fun k r' hk hlt => h k r' hk (Nat.lt_succ_of_lt hlt), h j r hp (Nat.lt_succ_self j) hj⟩
  intro h k r' hk hlt hr
  rcases Nat.lt_succ_iff_lt_or_eq.1 hlt with hlt | rfl
  · exact h.1 k r' hk hlt hr
  · cases hj.symm.trans hr
    exact h.2

/-- The fields that the whole search does not change. -/
def Search.filter (s : Search) : Search :=
  { s.fixed with m_wFileNo := 0, m_wFileCount := 0, m_wFileIndexStar := 0 }

theorem Search.filter_congr (h : s'.fixed = s.fixed) : s'.filter = s.filter := by
  unfold Search.filter
  rw [h]

theorem Selected.congr (h : s'.filter = s.filter) (r : Record) : Selected s' r = Selected s r :=
  show Selected s'.filter r = Selected s.filter r by rw [h]

theorem NoStale.congr (h : s'.filter = s.filter) (rs : List Record) (p j : Nat) :
    NoStale rs s' p j ↔ NoStale rs s p j := by
  unfold NoStale
  simp [Selected.congr h]

theorem CustAfter.flag_eq_zero {old new : Cust} (h : CustAfter r old new) :
    new.bCustFlag = 0 ↔ r.custData = [] ∧ old.bCustFlag = 0 := by
  by_cases hc : r.custData = []
  · rw [h.2 hc]
    exact ⟨fun h0 => ⟨hc, h0⟩, And.right⟩
  · have hne := L1.LogCust.bCustFlag_ne_zero hc
    rw [(h.1 hc).flag]
    exact ⟨fun h0 => absurd h0 hne, fun h0 => absurd h0.1 hc⟩

/-- **One file.** The flag of the result is set exactly when a record with custom
data was passed. -/
theorem scan_found (hfit : Fits im) (hf : Holds im f rs) {q : Search} (n : Nat) :
    ∀ {j} {st st'}, BufOk st.sLogBuf → j + n ≤ rs.length → p ≤ j →
      st.search.fixed = q.fixed → (st.out.cust.bCustFlag = 0 ↔ NoStale rs q p j) →
      scan im f n j st = (true, st') →
      ∃ k r, rs[k]? = some r ∧ st'.search.m_dwFilePos.toNat = k + 1 ∧
        (AsStored r st'.out (bufText st'.sLogBuf) ↔ r.custData ≠ [] ∨ NoStale rs q p k) := by
  induction n with
  | zero =>
    intro j st st' _ _ _ _ _ he
    cases he
  | succ n ih =>
    intro j st st' hb hjn hpj hq hflag he
    obtain ⟨r, hj⟩ : ∃ r, rs[j]? = some r := ⟨_, getElem?_eq_getElem (by omega)⟩
    have hkeeps := readRecord_keeps im f j st
    have hvisit := readRecord_visit hfit hf hj hb
    have hsel := Selected.congr (Search.filter_congr hq) r
    unfold scan at he
    revert he
    cases hnext : readRecord im f j st with
    | stop st1 =>
      rw [hnext] at hvisit
      cases hvisit
    | next st1 =>
      intro he
      rw [hnext] at hvisit hkeeps
      have hkeeps : Keeps st st1 := hkeeps
      refine ih (j := j + 1) (hkeeps.buf hb) (by omega) (by omega) (hkeeps.fixed.trans hq) ?_ he
      rw [NoStale.succ_iff hpj hj, ← hflag, ← hsel]
      cases hvisit with
      | skip hs hcust => simp [hs, hcust]
      | reject hs hcust => simp [hs, hcust.flag_eq_zero, and_comm]
    | found st1 =>
      intro he
      rw [hnext] at hvisit
      cases he
      cases hvisit with
      | found hs hcust hpos hout =>
        have hlt := hf.length
        have hmax : slogLogRecordsCountMax = 200000 := rfl
        refine ⟨j, r, hj, ?_, ?_⟩
        · rw [hpos, UInt32.ofInt, UInt32.toNat_ofNat']
          omega
        · rw [← hout, hcust.flag_eq_zero, ← hflag]
          by_cases hc : r.custData = []
          · simp [hc]
          · simp [hc]

theorem readLogFileVersion_2_found (hfit : Fits im)
    (hf : Holds im f rs) {h : LogFileHead} (hc : h.iLogRecordsWrite.toInt ≤ rs.length)
    (hb : BufOk b) (hpos : s.m_dwFilePos.toNat < 2 ^ 31)
    (he : readLogFileVersion_2 im h f ⟨s, .zero, b⟩ = (true, st)) :
    ∃ k r, rs[k]? = some r ∧ st.search.m_dwFilePos.toNat = k + 1 ∧
      (AsStored r st.out (bufText st.sLogBuf) ↔
        r.custData ≠ [] ∨ NoStale rs s s.m_dwFilePos.toNat k) := by
  unfold readLogFileVersion_2 at he
  dsimp only at he
  rw [toInt_toInt32 hpos] at he
  by_cases hle : (s.m_dwFilePos.toNat : Int) ≤ h.iLogRecordsWrite.toInt
  · refine scan_found hfit hf _ hb ?_
      (le_refl _) rfl ?_ he
    · omega
    · exact ⟨fun _ _ _ hp hlt => absurd hlt (not_lt.2 hp), fun _ => rfl⟩
  · rw [Int.toNat_eq_zero.2 (by omega)] at he
    cases he

/-! ## Going through the files -/

/-- The files of the list: those of version 2 were written by `WriteLogVersion_2`, and
the head in the list counts no record that is not in the file. -/
def FilesOk (im : Images) (fs : Files) : Prop :=
  ∀ i f, fs.open i = some f → ((fs.head i).bLogFileVersion = 2 ∨
      ∃ h, im.head.read f 0 = some h ∧ h.bLogFileVersion = 2) →
    ∃ h rs, Written im h f rs ∧
      ((fs.head i).bLogFileVersion = 2 → (fs.head i).iLogRecordsWrite.toInt ≤ rs.length)

/-- The number of the file that a search stands in. -/
def Search.file (s : Search) : Nat := s.m_wFileIndexStar.toNat + s.m_wFileNo.toNat

/-- The position from which a search that stands at `s` goes through file `i`. -/
def Search.startPos (s : Search) (i : Nat) : Nat :=
  if i = s.file then s.m_dwFilePos.toNat else 0

/-- What is known of a result: the search `s'` that returned it stands behind its
record. -/
def Returned (im : Images) (fs : Files) (s : Search) (out : LogOut) (s' : Search) (b : ByteFile) :
    Prop :=
  ∃ f, fs.open s'.file = some f ∧ ((fs.head s'.file).bLogFileVersion = 2 →
    (∃ h rs, Written im h f rs) ∧ ∀ h rs, Written im h f rs →
      ∃ j r, rs[j]? = some r ∧ s'.m_dwFilePos.toNat = j + 1 ∧ (AsStored r out (bufText b) ↔
          r.custData ≠ [] ∨ NoStale rs s (s.startPos s'.file) j))

theorem Written.length_eq (hfit : Fits im) {h h' : LogFileHead}
    {rs' : List Record} (hw : Written im h f rs) (hw' : Written im h' f rs') :
    rs.length = rs'.length := by
  obtain ⟨h1, hr1, hc1, -⟩ := (hw.holds hfit).1.head
  obtain ⟨h2, hr2, hc2, -⟩ := (hw'.holds hfit).1.head
  cases hr1.symm.trans hr2
  omega

theorem Search.file_congr (h : s'.fixed = s.fixed) : s'.file = s.file :=
  show s'.fixed.file = s.fixed.file by rw [h]

/-- The search goes on with the next file. -/
def Search.nextFile (s : Search) : Search :=
  { s with m_wFileNo := s.m_wFileNo + 1, m_dwFilePos := 0 }

theorem Search.file_nextFile (h : s.file < slogLogFilesCountMax) :
    s.nextFile.file = s.file + 1 := by
  have hno : s.m_wFileNo.toNat ≤ s.file := Nat.le_add_left ..
  have hadd : (s.m_wFileNo + 1).toNat = s.m_wFileNo.toNat + 1 := by
    rw [slogLogFilesCountMax] at h
    simp only [UInt16.toNat_add, UInt16.reduceToNat]
    omega
  show s.m_wFileIndexStar.toNat + (s.m_wFileNo + 1).toNat = _
  rw [hadd]
  rfl

/-- The search goes on from `s1`, at the first record of the file behind that of `s`. -/
theorem Search.at_nextFile {s1 : Search} (hfix : s1.fixed = s.fixed) (h : s.file < slogLogFilesCountMax) :
    s1.nextFile.file = s.file + 1 ∧ s1.nextFile.m_dwFilePos.toNat < 2 ^ 31 := by
  have hs1 : s1.file = s.file := Search.file_congr hfix
  rw [Search.file_nextFile (by omega), hs1]
  exact ⟨rfl, show (0 : UInt32).toNat < 2 ^ 31 by decide⟩

theorem Search.startPos_nextFile (s : Search) (i : Nat) : s.nextFile.startPos i = 0 := by
  unfold Search.startPos
  split <;> rfl

end DesPwd.L4.LogSearch
