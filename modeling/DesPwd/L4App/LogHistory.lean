import DesPwd.Core.BinSearch
import DesPwd.L4App.LogPick

/-!
# The history of an app's log files

`WriteLogRecord` appends a record to the last file of the list and starts a new file when
there is none or the last one is full; `AddNewSlogFile` drops the oldest file when the
list is full. When a writer starts, `InitLogFiles` makes the list anew from the names in
the directory, sorted as strings, unless the list in shared memory is complete. The head of
a file carries the first and the last time of its records, which need not arrive in order
(lib/mtagent_api_open/supper_log.cpp).

* `write_stored`: a record is added to a file, and the times in its head stay right.
* `Inv.step`, `Inv.run`: after every history the files of the list are there under
  different names, with the records that were written to them, and each head in the list
  is that of its file or not read yet.
-/
namespace DesPwd.L4.LogHistory

open Bytes Run BinSearch List Option LogHistory UInt16
open L4.LogFiles L4.LogWrite L4.LogSearch
open Function (update update_self update_of_ne)

/-! ## ReadLogFileHead -/

def name (st : WriteFile) (i : Nat) : Bytes := (st.stFiles i).szAbsFileName

def head (st : WriteFile) (i : Nat) : LogFileHead := (st.stFiles i).stFileHead

def setHead (st : WriteFile) (i : Nat) (h : LogFileHead) : WriteFile :=
  { st with stFiles := update st.stFiles i { st.stFiles i with stFileHead := h } }

/-- mirrors supper_log.cpp:5633-5656 -/
def checkHead (qwLogTimeStart : UInt64) (h : LogFileHead) : Bool :=
  h.szCheckDigit.toList.takeWhile (· ≠ 0) = decimal qwLogTimeStart.toNat ∧
    h.wCheckByteOrder = slogCheckBytesOrderNum ∧ 1 ≤ h.bLogFileVersion ∧ h.bLogFileVersion ≤ 2

/-- Whether the head passes its checks; it is in the list either way.
mirrors supper_log.cpp:5604-5663 -/
def readLogFileHead (im : Images) (st : WriteFile) (i : Nat) : Bool × WriteFile :=
  if st.wLogFileCount.toNat ≤ i then (false, st)
  else
    match st.disk (name st i) with
    | none => (false, removeFileInfo st i)
    | some f =>
      match im.head.read f 0 with
      | none => (false, st)
      | some h => (checkHead (st.stFiles i).qwLogTimeStart h, setHead st i h)

/-! ## WriteLogRecord -/

/-- mirrors supper_log.cpp:5503-5506 -/
def widen (h : LogFileHead) (qwLogTime : UInt64) : LogFileHead :=
  { h with
    qwLogTimeEnd := if h.qwLogTimeEnd < qwLogTime then qwLogTime else h.qwLogTimeEnd
    qwLogTimeStart := if qwLogTime < h.qwLogTimeStart then qwLogTime else h.qwLogTimeStart }

/-- `WriteLogVersion_1` -/
abbrev WriteVersion1 := OpenFile → Record → Option OpenFile

/-- `fp` is the name of the open file. What is written to a file that was deleted is not
on the disk.
mirrors supper_log.cpp:5498-5519 -/
def writeOpen (im : Images) (ver1 : WriteVersion1) (st : WriteFile) (fp : Bytes) (r : Record) :
    Option (Option Bytes × WriteFile) :=
  let i := st.m_wCurFpLogFileIndex.toNat
  let h := widen (head st i) r.log.qwLogTime
  let o : OpenFile := ⟨st.m_pAppInfo, h, (st.disk fp).getD .empty⟩
  let put (o : OpenFile) : Option Bytes × WriteFile :=
    (some fp, { setHead st i o.stFileHead with
      m_pAppInfo := o.m_pAppInfo
      disk := if (st.disk fp).isSome then update st.disk fp (some o.file) else st.disk })
  if h.bLogFileVersion = 1 then (ver1 o r).map put
  else if h.bLogFileVersion = 2 then (writeLogVersion_2 im o r).map put
  else some (none, setHead st i h)

/-- The open file, or the current one is opened;
mirrors supper_log.cpp:5480-5501 -/
def openCurrent (im : Images) (st : WriteFile) : Option Bytes × WriteFile :=
  match st.m_fpLogFile with
  | some fp => (some fp, st)
  | none =>
    let i := st.m_wCurFpLogFileIndex.toNat
    let (ok, st) :=
      if (head st i).stLogStatInfo.qwLogSizeInfo = 0 then readLogFileHead im st i else (true, st)
    if !ok then (none, st)
    else
      match st.disk (name st i) with
      | none => (none, removeFileInfo st i)
      | some _ => (some (name st i), { st with m_fpLogFile := some (name st i) })

/-- mirrors supper_log.cpp:5463-5519 -/
def writeCurrent (im : Images) (ver1 : WriteVersion1) (st : WriteFile) (r : Record) :
    Option (Option Bytes × WriteFile) :=
  let st :=
    if slogLogFilesCountMax ≤ st.m_wCurFpLogFileIndex.toNat then
      { st with m_wCurFpLogFileIndex := st.wLogFileCount - 1 }
    else st
  if slogLogFilesCountMax ≤ st.m_wCurFpLogFileIndex.toNat then some (none, st)
  else
    match openCurrent im st with
    | (none, st) => some (none, st)
    | (some fp, st) => writeOpen im ver1 st fp r

/-- There is no file, or the last one is full. -/
def needsFile (st : WriteFile) : Bool :=
  st.wLogFileCount = 0 ∨ (head st (st.wLogFileCount.toNat - 1)).iLogRecordsMax ≤
      (head st (st.wLogFileCount.toNat - 1)).iLogRecordsWrite

/-- The file that the record went to, if it was written. A record without a sequence number
is not complete.
mirrors supper_log.cpp:5429-5533 -/
def writeLogRecord (im : Images) (ver1 : WriteVersion1) (io : CreateIo) (st : WriteFile) (r : Record) :
    Option (Option Bytes × WriteFile) :=
  if r.log.dwLogSeq = 0 then some (none, st)
  else if needsFile st then
    match addNewSlogFile im io st r.log.qwLogTime with
    | (.ok, st) => writeCurrent im ver1 st r
    | (_, st) => some (none, st)
  else writeCurrent im ver1 st r

/-! ## InitLogFiles -/

def isDigit (c : UInt8) : Bool := 48 ≤ c ∧ c ≤ 57

def isSpace (c : UInt8) : Bool := c = 32 ∨ (9 ≤ c ∧ c ≤ 13)

/-- `%u` of `sscanf`: blanks, a sign and digits, with the value that `strtoul` gives. -/
def scanUInt (s : Bytes) : Option (UInt32 × Bytes) :=
  let s := s.dropWhile isSpace
  let neg := s.head? = some 45
  let s := if s.head? = some 45 ∨ s.head? = some 43 then s.drop 1 else s
  let ds := s.takeWhile isDigit
  if ds = [] then none
  else
    let n := ds.foldl (fun n c => 10 * n + (c.toNat - 48)) 0
    let v : UInt64 := if 2 ^ 64 ≤ n then 0 - 1 else if neg then 0 - UInt64.ofNat n else UInt64.ofNat n
    some (v.toUInt32, s.drop ds.length)

/-- A name that starts with a digit, as `%u_%u`;
mirrors supper_log.cpp:4761-4768 -/
def scanName (d_name : Bytes) : Option (UInt32 × UInt32) :=
  if (d_name.head?.map isDigit).getD false then do
    let (dwStartSec, rest) ← scanUInt d_name
    match rest with
    | 95 :: rest => do
      let (dwStartUsec, _) ← scanUInt rest
      some (dwStartSec, dwStartUsec)
    | _ => none
  else none

/-- `memset` of a head. -/
def zeroHead : LogFileHead :=
  ⟨Vector.replicate 40 0, 0, 0, 0, 0, 0, 0, ⟨0, 0, 0, 0, 0, 0, 0, 0⟩⟩

/-- mirrors supper_log.cpp:4761-4784 -/
def slogFile (m_szLogFilePath d_name : Bytes) : Option LogFileInfo :=
  match scanName d_name with
  | none => none
  | some (dwStartSec, dwStartUsec) =>
    if 255 < (m_szLogFilePath ++ d_name).length then none
    else some
      { szAbsFileName := (m_szLogFilePath ++ d_name).take 254
        qwLogTimeStart := dwStartSec.toUInt64 * secUsec + dwStartUsec.toUInt64
        stFileHead := zeroHead }

/-- `strcmp` of the names; mirrors supper_log.cpp:4702-4707 -/
def logFileCmp (p1 p2 : LogFileInfo) : Int :=
  if p1.szAbsFileName < p2.szAbsFileName then -1
  else if p1.szAbsFileName = p2.szAbsFileName then 0
  else 1

/-- The entries of the list, from the last of the names on;
mirrors supper_log.cpp:4757-4793 -/
def listFiles (m_szLogFilePath : Bytes) (namelist : List Bytes) : List LogFileInfo :=
  qsort logFileCmp ((namelist.reverse.filterMap (slogFile m_szLogFilePath)).take slogLogFilesCountMax)

def addStat (a b : LogStatInfo) : LogStatInfo where
  qwLogSizeInfo := a.qwLogSizeInfo + b.qwLogSizeInfo
  dwDebugLogsCount := a.dwDebugLogsCount + b.dwDebugLogsCount
  dwInfoLogsCount := a.dwInfoLogsCount + b.dwInfoLogsCount
  dwWarnLogsCount := a.dwWarnLogsCount + b.dwWarnLogsCount
  dwReqerrLogsCount := a.dwReqerrLogsCount + b.dwReqerrLogsCount
  dwErrorLogsCount := a.dwErrorLogsCount + b.dwErrorLogsCount
  dwFatalLogsCount := a.dwFatalLogsCount + b.dwFatalLogsCount
  dwOtherLogsCount := a.dwOtherLogsCount + b.dwOtherLogsCount

/-- mirrors supper_log.cpp:4799-4811 -/
def readHeads (im : Images) : Nat → Nat → WriteFile → WriteFile
  | 0, _, st => st
  | n + 1, i, st =>
    if st.wLogFileCount.toNat ≤ i then st
    else
      match readLogFileHead im st i with
      | (false, st) => readHeads im n (i + 1) st
      | (true, st) => readHeads im n (i + 1)
          { st with m_pAppInfo := st.m_pAppInfo.map fun a =>
              { a with stLogStatInfo := addStat a.stLogStatInfo (head st i).stLogStatInfo } }

/-- mirrors supper_log.cpp:4709-4717 -/
def isAppFileHeadReadAll (st : WriteFile) : Bool :=
  (List.range st.wLogFileCount.toNat).all fun i =>
    decide (0 < (head st i).stLogStatInfo.qwLogSizeInfo)

/-- The list in shared memory is kept;
mirrors supper_log.cpp:4730-4742 -/
def keepList (st : WriteFile) : WriteFile :=
  let i := st.wLogFileCount.toNat - 1
  let h := head st i
  { setHead st i { h with
      iLogRecordsMax :=
        if Int32.ofNat slogLogRecordsCountMax ≤ h.iLogRecordsMax then Int32.ofNat slogLogRecordsCountMax
        else h.iLogRecordsMax } with
    m_wCurFpLogFileIndex := st.wLogFileCount - 1 }

/-- All heads are read and their counts are those of the app, or only the last head;
mirrors supper_log.cpp:4795-4825 -/
def loadHeads (im : Images) (st : WriteFile) : WriteFile :=
  match st.m_pAppInfo with
  | some a =>
    let st' := readHeads im st.wLogFileCount.toNat 0
      { st with m_pAppInfo := some { a with stLogStatInfo := ⟨0, 0, 0, 0, 0, 0, 0, 0⟩ } }
    { st' with m_pAppInfo := st'.m_pAppInfo.map fun a => { a with bReadLogStatInfo := true } }
  | none =>
    if 0 < st.wLogFileCount then (readLogFileHead im st (st.wLogFileCount.toNat - 1)).2 else st

/-- The list is made from the directory;
mirrors supper_log.cpp:4754-4829 -/
def scanAgain (im : Images) (st : WriteFile) (namelist : List Bytes) : WriteFile :=
  let l := listFiles st.m_szLogFilePath namelist
  let st' := loadHeads im { st with
    stFiles := fun k => (l[k]?).getD (st.stFiles k)
    wLogFileCount := ofNat l.length }
  if 0 < st'.wLogFileCount then { st' with m_wCurFpLogFileIndex := st'.wLogFileCount - 1 } else st'

/-- `Init` of a writer with `InitLogFiles`; `namelist` is what `scandir` gives, empty if it
fails.
mirrors supper_log.cpp:4602-4614, 4719-4833 -/
def initLogFiles (im : Images) (m_iScanAgain : Bool) (namelist : List Bytes) (st : WriteFile) :
    WriteFile :=
  let st := { st with m_fpLogFile := none, m_wCurFpLogFileIndex := 400 }
  if st.m_szLogFilePath = [] then st
  else if !m_iScanAgain ∧ 0 < st.wLogFileCount ∧
      (st.m_pAppInfo.map (·.bReadLogStatInfo)).getD false ∧ isAppFileHeadReadAll st then keepList st
  else if namelist = [] then { st with wLogFileCount := 0 }
  else scanAgain im st namelist

/-! ## Histories -/

/-- The list in shared memory and the disk, as a search sees them. -/
def files (st : WriteFile) : Files := ⟨st.wLogFileCount, st.stFiles, st.disk⟩

/-- What happens to the files: a record is written, the writer closes its file, the oldest
file is removed, a writer starts, and a search reads heads into the list. -/
inductive Label where
  | write (io : CreateIo) (r : Record)
  | close
  | remove
  | init (m_iScanAgain : Bool) (namelist : List Bytes)
  | search (q : Search)

/-- The state of the writer, and for each name the records written to the file since it was
created. -/
structure Hist where
  st : WriteFile
  recs : Bytes → List Record

/-- The records after `r` was written to the file `fp`. -/
def note (s : Hist) (r : Record) (fp : Option Bytes) : Bytes → List Record :=
  match fp with
  | none => s.recs
  | some fp => update s.recs fp ((if needsFile s.st then [] else s.recs fp) ++ [r])

def step (im : Images) (ver1 : WriteVersion1) (s : Hist) : Label → Option Hist
  | .write io r =>
    (writeLogRecord im ver1 io s.st r).map fun (fp, st) => ⟨st, note s r fp⟩
  | .close => some { s with st := { s.st with m_fpLogFile := none } }
  | .remove => some { s with st := removeFileInfo s.st 0 }
  | .init m_iScanAgain namelist => some { s with st := initLogFiles im m_iScanAgain namelist s.st }
  | .search q =>
    some { s with st := { s.st with stFiles := (beginSearch im (files s.st) q).1.stFiles } }

/-- A file can be created, and its head and indexes are written. -/
def Works (io : CreateIo) : Prop :=
  io.fopen = true ∧ io.fwriteHead = true ∧ slogLogRecordsCountMax ≤ io.fwriteIndex

/-- A new file can be written and has a name of its own in the list, there is a file to
remove, and `scandir` lists files that exist, each once. -/
def Ok (s : Hist) : Label → Prop
  | .write io r => needsFile s.st = true → Works io ∧
      ∀ i < s.st.wLogFileCount.toNat, name s.st i ≠ fileName s.st.m_szLogFilePath r.log.qwLogTime
  | .remove => 0 < s.st.wLogFileCount.toNat
  | .init _ namelist => namelist.Nodup ∧
      ∀ d_name ∈ namelist, (scanName d_name).isSome →
        (s.st.disk (s.st.m_szLogFilePath ++ d_name)).isSome
  | _ => True

/-! ## Records and times -/

/-- The times in a head, against the records of its file. -/
structure Times (h : LogFileHead) (rs : List Record) : Prop where
  start_le : ∀ r ∈ rs, h.qwLogTimeStart ≤ r.log.qwLogTime
  le_end : ∀ r ∈ rs, r.log.qwLogTime ≤ h.qwLogTimeEnd
  first : ∃ r ∈ rs, r.log.qwLogTime = h.qwLogTimeStart

/-- A file with the head that it carries and its records. -/
structure Stored (im : Images) (f : ByteFile) (h : LogFileHead) (rs : List Record) : Prop where
  written : Written im h f rs
  head : im.head.read f 0 = some h
  times : Times h rs

theorem le_widen_end (h : LogFileHead) (t : UInt64) :
    h.qwLogTimeEnd ≤ (widen h t).qwLogTimeEnd ∧ t ≤ (widen h t).qwLogTimeEnd := by
  unfold widen
  dsimp only
  split
  case isTrue hlt => exact ⟨UInt64.le_of_lt hlt, UInt64.le_refl t⟩
  case isFalse hlt => exact ⟨UInt64.le_refl _, UInt64.not_lt.1 hlt⟩

theorem widen_start_le (h : LogFileHead) (t : UInt64) :
    (widen h t).qwLogTimeStart ≤ h.qwLogTimeStart ∧ (widen h t).qwLogTimeStart ≤ t ∧
      ((widen h t).qwLogTimeStart = t ∨ (widen h t).qwLogTimeStart = h.qwLogTimeStart) := by
  unfold widen
  split
  case isTrue hlt => exact ⟨UInt64.le_of_lt hlt, UInt64.le_refl t, .inl rfl⟩
  case isFalse hlt => exact ⟨UInt64.le_refl _, UInt64.not_lt.1 hlt, .inr rfl⟩

/-- The head of a file that was just created for `r` has the time of `r`. -/
def TimesBefore (h : LogFileHead) (rs : List Record) (r : Record) : Prop :=
  Times h rs ∨ (rs = [] ∧ h.qwLogTimeStart = r.log.qwLogTime)

theorem Times.write {h : LogFileHead} {rs : List Record} {r : Record} (ht : TimesBefore h rs r) :
    Times (countHead (widen h r.log.qwLogTime) r) (rs ++ [r]) := by
  obtain ⟨hend, hrend⟩ := le_widen_end h r.log.qwLogTime
  obtain ⟨hstart, hrstart, hor⟩ := widen_start_le h r.log.qwLogTime
  have hall : (∀ r' ∈ rs, h.qwLogTimeStart ≤ r'.log.qwLogTime) ∧
      ∀ r' ∈ rs, r'.log.qwLogTime ≤ h.qwLogTimeEnd := by
    rcases ht with ht | ⟨rfl, -⟩
    · exact ⟨ht.start_le, ht.le_end⟩
    · exact ⟨nofun, nofun⟩
  refine ⟨forall_mem_append.2 ⟨?_, forall_mem_singleton.2 hrstart⟩,
    forall_mem_append.2 ⟨?_, forall_mem_singleton.2 hrend⟩, ?_⟩
  · exact fun r' hr' => UInt64.le_trans hstart (hall.1 r' hr')
  · exact fun r' hr' => UInt64.le_trans (hall.2 r' hr') hend
  rcases hor with hor | hor
  · exact ⟨r, mem_append_right _ (mem_singleton.2 rfl), hor.symm⟩
  · rcases ht with ht | ⟨rfl, heq⟩
    · obtain ⟨r', hr', he⟩ := ht.first
      exact ⟨r', mem_append_left _ hr', he.trans hor.symm⟩
    · exact ⟨r, mem_singleton.2 rfl, heq.symm.trans hor.symm⟩

variable {im : Images}

/-- **A record is added to a file.** -/
theorem write_stored (hfit : Fits im) {h : LogFileHead} {f : ByteFile}
    {rs : List Record} (hw : Written im h f rs) {r : Record} (ht : TimesBefore h rs r)
    (hn : rs.length < slogLogRecordsCountMax) (app : Option AppInfo) :
    ∃ o, writeLogVersion_2 im ⟨app, widen h r.log.qwLogTime, f⟩ r = some o ∧
      Stored im o.file o.stFileHead (rs ++ [r]) := by
  have hw' : Written im (widen h r.log.qwLogTime) f rs := hw.times _ _
  obtain ⟨hholds, hok⟩ := hw'.holds hfit
  have he := writeLogVersion_2_eq hfit hok hholds.ge hn app r
  exact ⟨_, he, hw'.write r he, readHead_append hholds.ge, Times.write ht⟩

/-! ## The list -/

/-- The head in the list is the one that the file carries. -/
def Exact (im : Images) (st : WriteFile) (i : Nat) : Prop :=
  ∃ f, st.disk (name st i) = some f ∧ im.head.read f 0 = some (head st i)

/-- The head in the list is exact or not read yet. -/
def HeadFits (im : Images) (st : WriteFile) (i : Nat) : Prop :=
  Exact im st i ∨ (head st i).iLogRecordsWrite ≤ 0

/-- A list whose file `i` can be anything. -/
structure ListedBut (im : Images) (st : WriteFile) (recs : Bytes → List Record) (i : Nat) : Prop where
  path : st.m_szLogFilePath.length ≤ 232
  max : st.wLogFileCount.toNat ≤ slogLogFilesCountMax
  disk : ∀ n f, n ≠ name st i → st.disk n = some f → n.length ≤ 249 ∧ ∃ h, Stored im f h (recs n)
  there : ∀ j < st.wLogFileCount.toNat, j ≠ i → (st.disk (name st j)).isSome
  inj : ∀ j < st.wLogFileCount.toNat, ∀ k < st.wLogFileCount.toNat, name st j = name st k → j = k
  heads : ∀ j < st.wLogFileCount.toNat, j ≠ i → HeadFits im st j

/-- A list of different files with the records `recs`. -/
structure Listed (im : Images) (st : WriteFile) (recs : Bytes → List Record) : Prop where
  path : st.m_szLogFilePath.length ≤ 232
  max : st.wLogFileCount.toNat ≤ slogLogFilesCountMax
  disk : ∀ n f, st.disk n = some f → n.length ≤ 249 ∧ ∃ h, Stored im f h (recs n)
  there : ∀ j < st.wLogFileCount.toNat, (st.disk (name st j)).isSome
  inj : ∀ j < st.wLogFileCount.toNat, ∀ k < st.wLogFileCount.toNat, name st j = name st k → j = k
  heads : ∀ j < st.wLogFileCount.toNat, HeadFits im st j

section Listed

variable {im : Images} {st : WriteFile} {recs : Bytes → List Record} {i : Nat}

section

variable (hl : Listed im st recs)
include hl

theorem Listed.but (i : Nat) : ListedBut im st recs i :=
  ⟨hl.path, hl.max, fun n f _ => hl.disk n f, fun j hj _ => hl.there j hj, hl.inj,
    fun j hj _ => hl.heads j hj⟩

theorem Listed.short (hi : i < st.wLogFileCount.toNat) : (name st i).length ≤ 249 := by
  obtain ⟨f, hf⟩ := isSome_iff_exists.1 (hl.there i hi)
  exact (hl.disk _ f hf).1

theorem Listed.stored (hi : i < st.wLogFileCount.toNat) :
    ∃ f h, st.disk (name st i) = some f ∧ Stored im f h (recs (name st i)) := by
  obtain ⟨f, hf⟩ := isSome_iff_exists.1 (hl.there i hi)
  obtain ⟨-, h, hs⟩ := hl.disk _ f hf
  exact ⟨f, h, hf, hs⟩

theorem Listed.stored_exact (he : Exact im st i) :
    ∃ f, st.disk (name st i) = some f ∧ Stored im f (head st i) (recs (name st i)) := by
  obtain ⟨f, hf, hread⟩ := he
  obtain ⟨-, h, hs⟩ := hl.disk _ f hf
  cases hs.head.symm.trans hread
  exact ⟨f, hf, hs⟩

end

@[simp] theorem name_setHead (st : WriteFile) (i : Nat) (h : LogFileHead) :
    name (setHead st i h) = name st := by
  funext k
  by_cases hk : k = i
  · subst hk
    simp [name, setHead]
  · simp [name, setHead, update_of_ne hk]

@[simp] theorem head_setHead_self (st : WriteFile) (i : Nat) (h : LogFileHead) :
    head (setHead st i h) i = h := by
  simp [head, setHead]

theorem head_setHead_of_ne {k : Nat} (hk : k ≠ i) (st : WriteFile) (h : LogFileHead) :
    head (setHead st i h) k = head st k := by
  simp [head, setHead, update_of_ne hk]

/-- File `i` with its head in the list. -/
def put (st : WriteFile) (i : Nat) (o : OpenFile) : WriteFile :=
  { setHead st i o.stFileHead with
    m_pAppInfo := o.m_pAppInfo
    disk := update st.disk (name st i) (some o.file) }

@[simp] theorem name_put (st : WriteFile) (i : Nat) (o : OpenFile) : name (put st i o) = name st :=
  name_setHead st i o.stFileHead

theorem exact_put (st : WriteFile) (i : Nat) (o : OpenFile)
    (hread : im.head.read o.file 0 = some o.stFileHead) : Exact im (put st i o) i := by
  refine ⟨o.file, ?_, hread.trans (congrArg some (head_setHead_self st i o.stFileHead).symm)⟩
  rw [name_put]
  exact update_self ..

variable {j : Nat} {st' : WriteFile}

theorem headFits_put {o : OpenFile} (hj : j ≠ i) (hname : name st j ≠ name st i)
    (hf : HeadFits im st j) : HeadFits im (put st i o) j := by
  have hh : head (put st i o) j = head st j := head_setHead_of_ne hj st o.stFileHead
  have hd : (put st i o).disk (name (put st i o) j) = st.disk (name st j) := by
    rw [name_put]
    exact update_of_ne hname ..
  unfold HeadFits Exact
  rw [hh, hd]
  exact hf

/-- **A file of the list is written.** -/
theorem ListedBut.put (hl : ListedBut im st recs i) (hi : i < st.wLogFileCount.toNat)
    (hshort : (name st i).length ≤ 249) {o : OpenFile} {rs : List Record}
    (hs : Stored im o.file o.stFileHead rs) :
    Listed im (put st i o) (update recs (name st i) rs) := by
  have hother : ∀ j < st.wLogFileCount.toNat, j ≠ i → name st j ≠ name st i :=
    fun j hj hji he => hji (hl.inj j hj i hi he)
  refine ⟨hl.path, hl.max, fun n f hf => ?_, fun j hj => ?_, ?_, fun j hj => ?_⟩
  · have hf : update st.disk (name st i) (some o.file) n = some f := hf
    by_cases hn : n = name st i
    · subst hn
      rw [update_self] at hf ⊢
      cases hf
      exact ⟨hshort, _, hs⟩
    · rw [update_of_ne hn] at hf ⊢
      exact hl.disk n f hn hf
  · rw [name_put]
    show (update st.disk (name st i) (some o.file) (name st j)).isSome
    by_cases hji : j = i
    · rw [hji, update_self]
      rfl
    · rw [update_of_ne (hother j hj hji)]
      exact hl.there j hj hji
  · rw [name_put]
    exact hl.inj
  · by_cases hji : j = i
    · subst hji
      exact .inl (exact_put st j o hs.head)
    · exact headFits_put hji (hother j hj hji) (hl.heads j hj hji)

/-- The same list and disk; a head that is not as before is that of its file. -/
structure Reheaded (im : Images) (st st' : WriteFile) : Prop where
  path : st'.m_szLogFilePath = st.m_szLogFilePath
  count : st'.wLogFileCount = st.wLogFileCount
  disk : st'.disk = st.disk
  names : name st' = name st
  heads : ∀ j, head st' j = head st j ∨ Exact im st' j

theorem Reheaded.exact (hr : Reheaded im st st') (he : Exact im st j) : Exact im st' j := by
  rcases hr.heads j with hh | hh
  · unfold Exact
    rw [hr.disk, hr.names, hh]
    exact he
  · exact hh

theorem Reheaded.trans {st'' : WriteFile} (hr : Reheaded im st st') (hr' : Reheaded im st' st'') :
    Reheaded im st st'' := by
  refine ⟨hr'.path.trans hr.path, hr'.count.trans hr.count, hr'.disk.trans hr.disk,
    hr'.names.trans hr.names, fun j => ?_⟩
  rcases hr'.heads j with hh | hh
  · rw [hh]
    exact (hr.heads j).imp_right hr'.exact
  · exact .inr hh

theorem Reheaded.listed (hr : Reheaded im st st') (hl : Listed im st recs) :
    Listed im st' recs := by
  obtain ⟨hpath, hmax, hdisk, hthere, hinj, hheads⟩ := hl
  rw [← hr.count] at hmax hthere hinj hheads
  rw [← hr.names] at hthere hinj
  rw [← hr.disk] at hdisk hthere
  refine ⟨hr.path ▸ hpath, hmax, hdisk, hthere, hinj, fun j hj => ?_⟩
  rcases hheads j hj with he | he
  · exact .inl (hr.exact he)
  · rcases hr.heads j with hh | hh
    · exact .inr (hh ▸ he)
    · exact .inl hh

variable (hl : Listed im st recs)
include hl

theorem readLogFileHead_listed (hi : i < st.wLogFileCount.toNat) :
    ∃ b h, readLogFileHead im st i = (b, setHead st i h) ∧ Reheaded im st (setHead st i h) ∧
      Exact im (setHead st i h) i := by
  obtain ⟨f, h, hf, hs⟩ := hl.stored hi
  have hself : Exact im (setHead st i h) i := by
    refine ⟨f, ?_, ?_⟩
    · rw [name_setHead]
      exact hf
    · rw [head_setHead_self]
      exact hs.head
  refine ⟨checkHead (st.stFiles i).qwLogTimeStart h, h, ?_,
    ⟨rfl, rfl, rfl, name_setHead .., fun j => ?_⟩, hself⟩
  · unfold readLogFileHead
    rw [if_neg (not_le.2 hi), hf]
    dsimp only
    rw [hs.head]
  · by_cases hji : j = i
    · exact .inr (hji ▸ hself)
    · exact .inl (head_setHead_of_ne hji st h)

theorem removeFileInfo_zero (hc : 0 < st.wLogFileCount.toNat) :
    (removeFileInfo st 0).wLogFileCount.toNat = st.wLogFileCount.toNat - 1 ∧
      (∀ j, j + 1 < st.wLogFileCount.toNat → (removeFileInfo st 0).stFiles j = st.stFiles (j + 1)) ∧
      (removeFileInfo st 0).disk = update st.disk (name st 0) none := by
  refine ⟨?_, fun j hj => ?_, ?_⟩
  · have hlt := st.wLogFileCount.toNat_lt
    simp only [removeFileInfo, UInt16.toNat_sub, UInt16.toNat_one]
    omega
  · simp only [removeFileInfo, moveDown_apply]
    exact if_pos (by omega)
  · show update st.disk ((name st 0).take 249) none = _
    rw [take_of_length_le (hl.short hc)]

theorem entry_remove (hj : j + 1 < st.wLogFileCount.toNat) :
    name (removeFileInfo st 0) j = name st (j + 1) ∧ head (removeFileInfo st 0) j = head st (j + 1) ∧
      (removeFileInfo st 0).disk (name st (j + 1)) = st.disk (name st (j + 1)) := by
  obtain ⟨-, hfiles, hdisk⟩ := removeFileInfo_zero hl (Nat.zero_lt_of_lt hj)
  refine ⟨congrArg LogFileInfo.szAbsFileName (hfiles j hj),
    congrArg LogFileInfo.stFileHead (hfiles j hj), ?_⟩
  rw [hdisk, update_of_ne]
  intro he
  exact absurd (hl.inj _ hj 0 (Nat.zero_lt_of_lt hj) he) (Nat.succ_ne_zero j)

theorem exact_remove (hj : j + 1 < st.wLogFileCount.toNat)
    (he : Exact im st (j + 1)) : Exact im (removeFileInfo st 0) j := by
  obtain ⟨hn, hh, hd⟩ := entry_remove hl hj
  unfold Exact
  rw [hn, hh, hd]
  exact he

theorem Listed.remove (hc : 0 < st.wLogFileCount.toNat) : Listed im (removeFileInfo st 0) recs := by
  obtain ⟨hcount, -, hdisk⟩ := removeFileInfo_zero hl hc
  refine ⟨hl.path, ?_, fun n f hf => ?_, fun j hj => ?_, fun j hj k hk he => ?_, fun j hj => ?_⟩
  · rw [hcount]
    exact le_trans (Nat.sub_le _ _) hl.max
  · rw [hdisk] at hf
    by_cases hn : n = name st 0
    · rw [hn, update_self] at hf
      cases hf
    · rw [update_of_ne hn] at hf
      exact hl.disk n f hf
  · obtain ⟨hn, -, hd⟩ := entry_remove hl (show j + 1 < st.wLogFileCount.toNat by omega)
    rw [hn, hd]
    exact hl.there _ (by omega)
  · rw [(entry_remove hl (show j + 1 < st.wLogFileCount.toNat by omega)).1,
      (entry_remove hl (show k + 1 < st.wLogFileCount.toNat by omega)).1] at he
    have := hl.inj _ (by omega) _ (by omega) he
    omega
  · have hj' : j + 1 < st.wLogFileCount.toNat := by omega
    rcases hl.heads (j + 1) hj' with he | he
    · exact .inl (exact_remove hl hj' he)
    · refine .inr ?_
      rw [(entry_remove hl hj').2.1]
      exact he

/-- `AddNewSlogFile` removes the oldest file of a full list. -/
theorem dropOldest_eq :
    dropOldest st = if slogLogFilesCountMax ≤ st.wLogFileCount.toNat then removeFileInfo st 0 else st := by
  unfold dropOldest
  split
  case isFalse => rfl
  case isTrue hfull =>
    have hc : 0 < st.wLogFileCount.toNat := lt_of_lt_of_le (by decide) hfull
    have hdisk : rmFile (update st.disk (name st 0) none) (name st 0) =
        rmFile st.disk (name st 0) := by
      unfold rmFile
      rw [take_of_length_le (hl.short hc), Function.update_idem]
    exact congrArg (fun d => { removeFileInfo st 0 with disk := d }) hdisk

theorem dropOldest_listed : Listed im (dropOldest st) recs ∧
      (dropOldest st).wLogFileCount.toNat < slogLogFilesCountMax ∧
      (dropOldest st).m_szLogFilePath = st.m_szLogFilePath ∧
      (∀ j < (dropOldest st).wLogFileCount.toNat, ∃ k < st.wLogFileCount.toNat,
        name (dropOldest st) j = name st k) ∧
      (st.wLogFileCount.toNat < slogLogFilesCountMax → dropOldest st = st) := by
  rw [dropOldest_eq hl]
  split
  case isFalse hfull =>
    exact ⟨hl, not_le.1 hfull, rfl, fun j hj => ⟨j, hj, rfl⟩, fun _ => rfl⟩
  case isTrue hfull =>
    have hc : 0 < st.wLogFileCount.toNat := lt_of_lt_of_le (by decide) hfull
    have hcount := (removeFileInfo_zero hl hc).1
    have hmax := hl.max
    refine ⟨hl.remove hc, by omega, rfl, fun j hj => ?_, fun h => absurd hfull (not_le.2 h)⟩
    exact ⟨j + 1, by omega, (entry_remove hl (by omega)).1⟩

end Listed

/-! ## One step -/

/-- The writer stands at the last file of the list. -/
structure Inv (im : Images) (s : Hist) : Prop where
  listed : Listed im s.st s.recs
  last : ∀ i, i + 1 = s.st.wLogFileCount.toNat → Exact im s.st i
  cur : slogLogFilesCountMax ≤ s.st.m_wCurFpLogFileIndex.toNat ∨
    s.st.m_wCurFpLogFileIndex.toNat + 1 = s.st.wLogFileCount.toNat
  fp : ∀ i, i + 1 = s.st.wLogFileCount.toNat → ∀ n, s.st.m_fpLogFile = some n → n = name s.st i

section Step

variable {im : Images} {s : Hist}

theorem toNat_pred {c : UInt16} (hc : 0 < c.toNat) : (c - 1).toNat = c.toNat - 1 := by
  have hlt := c.toNat_lt
  rw [UInt16.toNat_sub, UInt16.toNat_one]
  omega

variable {st' st : WriteFile} {i : Nat} {r : Record} {io : CreateIo} {recs : Bytes → List Record}
  {namelist : List Bytes}

theorem Reheaded.inv (hr : Reheaded im s.st st') (h : Inv im s)
    (hcur : slogLogFilesCountMax ≤ st'.m_wCurFpLogFileIndex.toNat ∨
      st'.m_wCurFpLogFileIndex.toNat + 1 = s.st.wLogFileCount.toNat)
    (hfp : ∀ i, i + 1 = s.st.wLogFileCount.toNat → ∀ n, st'.m_fpLogFile = some n → n = name s.st i) :
    Inv im { s with st := st' } := by
  rw [← hr.count, ← hr.names] at hfp
  rw [← hr.count] at hcur
  exact ⟨hr.listed h.listed, fun i hi => hr.exact (h.last i (hr.count ▸ hi)), hcur, hfp⟩

theorem Inv.start (h : Inv im s) (cur : UInt16)
    (hcur : slogLogFilesCountMax ≤ cur.toNat ∨ cur.toNat + 1 = s.st.wLogFileCount.toNat) :
    Inv im { s with st := { s.st with m_fpLogFile := none, m_wCurFpLogFileIndex := cur } } :=
  Reheaded.inv ⟨rfl, rfl, rfl, rfl, fun _ => .inl rfl⟩ h hcur nofun

theorem Inv.close (h : Inv im s) : Inv im { s with st := { s.st with m_fpLogFile := none } } :=
  h.start s.st.m_wCurFpLogFileIndex h.cur

theorem Inv.remove (h : Inv im s) (hc : 0 < s.st.wLogFileCount.toNat) :
    Inv im { s with st := removeFileInfo s.st 0 } := by
  obtain ⟨hcount, -, -⟩ := removeFileInfo_zero h.listed hc
  refine ⟨h.listed.remove hc, fun i hi => ?_, ?_, fun i hi n hn => ?_⟩
  · have hi : i + 1 = (removeFileInfo s.st 0).wLogFileCount.toNat := hi
    exact exact_remove h.listed (by omega) (h.last (i + 1) (by omega))
  · show _ ≤ (removeFileInfo s.st 0).m_wCurFpLogFileIndex.toNat ∨
      (removeFileInfo s.st 0).m_wCurFpLogFileIndex.toNat + 1 = (removeFileInfo s.st 0).wLogFileCount.toNat
    have hcur : (removeFileInfo s.st 0).m_wCurFpLogFileIndex =
        if 0 < (removeFileInfo s.st 0).wLogFileCount then (removeFileInfo s.st 0).wLogFileCount - 1
        else 400 := rfl
    rw [hcur]
    split
    case isTrue h0 =>
      rw [UInt16.lt_iff_toNat_lt] at h0
      rw [toNat_pred h0]
      omega
    case isFalse => exact .inl (le_refl _)
  · have hi : i + 1 = (removeFileInfo s.st 0).wLogFileCount.toNat := hi
    rw [(entry_remove h.listed (show i + 1 < s.st.wLogFileCount.toNat by omega)).1]
    exact h.fp (i + 1) (by omega) n hn

/-- The current file is open: the record is written to it. -/
theorem writeOpen_put (ver1 : WriteVersion1) (hcur : st.m_wCurFpLogFileIndex.toNat = i)
    (hv : (head st i).bLogFileVersion = 2) {f : ByteFile} (hf : st.disk (name st i) = some f)
    {o : OpenFile}
    (ho : writeLogVersion_2 im ⟨st.m_pAppInfo, widen (head st i) r.log.qwLogTime, f⟩ r = some o) :
    writeOpen im ver1 st (name st i) r = some (some (name st i), put st i o) := by
  subst hcur
  have hv' : (widen (head st st.m_wCurFpLogFileIndex.toNat) r.log.qwLogTime).bLogFileVersion = 2 := hv
  have hv1 : ¬ (widen (head st st.m_wCurFpLogFileIndex.toNat) r.log.qwLogTime).bLogFileVersion = 1 := by
    rw [hv']
    decide
  unfold writeOpen
  rw [if_neg hv1, if_pos hv', hf, getD_some, ho]
  rfl

theorem openCurrent_of_open {fp : Bytes} (h : st.m_fpLogFile = some fp) :
    openCurrent im st = (some fp, st) := by
  unfold openCurrent
  rw [h]

/-- The current file is opened, or its head does not pass the checks. -/
theorem Inv.openCurrent (h : Inv im s) (hi : i + 1 = s.st.wLogFileCount.toNat)
    (hcur : s.st.m_wCurFpLogFileIndex.toNat = i) :
    ∃ fp st', openCurrent im s.st = (fp, st') ∧ (fp = none ∨ fp = some (name s.st i)) ∧
      Inv im { s with st := st' } ∧ Reheaded im s.st st' ∧
      st'.m_wCurFpLogFileIndex = s.st.m_wCurFpLogFileIndex := by
  have hlt : i < s.st.wLogFileCount.toNat := by omega
  have hrefl : Reheaded im s.st s.st := ⟨rfl, rfl, rfl, rfl, fun _ => .inl rfl⟩
  cases hfp : s.st.m_fpLogFile with
  | some fp =>
    refine ⟨some fp, s.st, openCurrent_of_open hfp, .inr ?_, h, hrefl, rfl⟩
    rw [h.fp i hi fp hfp]
  | none =>
    -- the head, read again if its file counts as empty
    obtain ⟨b, st1, h1, hr, hcur1, hfp1⟩ : ∃ b st1,
        (if (head s.st i).stLogStatInfo.qwLogSizeInfo = 0 then readLogFileHead im s.st i
          else (true, s.st)) = (b, st1) ∧ Reheaded im s.st st1 ∧
        st1.m_wCurFpLogFileIndex = s.st.m_wCurFpLogFileIndex ∧ st1.m_fpLogFile = none := by
      split
      case isFalse => exact ⟨true, s.st, rfl, hrefl, rfl, hfp⟩
      case isTrue =>
        obtain ⟨b, hd, he, hr, -⟩ := readLogFileHead_listed h.listed hlt
        exact ⟨b, _, he, hr, rfl, hfp⟩
    unfold LogHistory.openCurrent
    rw [hfp]
    dsimp only
    rw [hcur, h1]
    cases b with
    | false =>
      refine ⟨none, st1, rfl, .inl rfl, hr.inv h (hcur1 ▸ h.cur) ?_, hr, hcur1⟩
      rw [hfp1]
      nofun
    | true =>
      obtain ⟨f, hf⟩ := isSome_iff_exists.1 (h.listed.there i hlt)
      rw [← hr.disk, ← hr.names] at hf
      rw [hf]
      have hr' : Reheaded im s.st { st1 with m_fpLogFile := some (name st1 i) } :=
        hr.trans ⟨rfl, rfl, rfl, rfl, fun _ => .inl rfl⟩
      refine ⟨_, _, rfl, .inr (by rw [hr.names]), hr'.inv h (hcur1 ▸ h.cur) fun j hj n hn => ?_,
        hr', hcur1⟩
      cases hn
      obtain rfl : j = i := by omega
      rw [hr.names]

theorem Inv.put (h : Inv im s) (ver1 : WriteVersion1) (hfit : Fits im)
    (hi : i + 1 = s.st.wLogFileCount.toNat) (hcur : s.st.m_wCurFpLogFileIndex.toNat = i)
    (hn : (s.recs (name s.st i)).length < slogLogRecordsCountMax) (r : Record) :
    ∃ o, writeOpen im ver1 s.st (name s.st i) r = some (some (name s.st i), put s.st i o) ∧
      Inv im ⟨put s.st i o, update s.recs (name s.st i) (s.recs (name s.st i) ++ [r])⟩ := by
  have hlt : i < s.st.wLogFileCount.toNat := by omega
  obtain ⟨f, hf, hs⟩ := h.listed.stored_exact (h.last i hi)
  obtain ⟨o, ho, hs'⟩ := write_stored hfit hs.written (.inl hs.times) hn s.st.m_pAppInfo
  have hv : (head s.st i).bLogFileVersion = 2 := (hs.written.holds hfit).2.version
  refine ⟨o, writeOpen_put ver1 hcur hv hf ho, (h.listed.but i).put hlt (h.listed.short hlt) hs', ?_, h.cur, ?_⟩
  · intro j hj
    have hj : j + 1 = s.st.wLogFileCount.toNat := hj
    obtain rfl : j = i := by omega
    exact exact_put s.st j o hs'.head
  · rw [name_put]
    exact h.fp

theorem Inv.needsFile_iff (h : Inv im s) (hfit : Fits im) :
    needsFile s.st = true ↔ s.st.wLogFileCount.toNat = 0 ∨
      slogLogRecordsCountMax ≤ (s.recs (name s.st (s.st.wLogFileCount.toNat - 1))).length := by
  have hzero : s.st.wLogFileCount = 0 ↔ s.st.wLogFileCount.toNat = 0 := by
    rw [← UInt16.toNat_inj]
    rfl
  unfold needsFile
  rw [decide_eq_true_iff, hzero]
  refine or_congr_right' fun hc => ?_
  obtain ⟨f, hf, hs⟩ := h.listed.stored_exact (h.last (s.st.wLogFileCount.toNat - 1) (by omega))
  have hok := (hs.written.holds hfit).2
  rw [Int32.le_iff_toInt_le, hok.max, hok.count, toInt_max]
  omega

/-- **A record for the last file.** It is written there, unless the head of the file does
not pass its checks. -/
theorem Inv.writeCurrent (h : Inv im s) (ver1 : WriteVersion1) (hfit : Fits im)
    (hi : i + 1 = s.st.wLogFileCount.toNat)
    (hn : (s.recs (name s.st i)).length < slogLogRecordsCountMax) (r : Record) :
    ∃ fp st', writeCurrent im ver1 s.st r = some (fp, st') ∧
      (fp = none ∧ Inv im ⟨st', s.recs⟩ ∨ fp = some (name s.st i) ∧
        Inv im ⟨st', update s.recs (name s.st i) (s.recs (name s.st i) ++ [r])⟩) := by
  have hmax := h.listed.max
  -- the writer stands at the last file
  obtain ⟨st1, hst1, hinv, hcur, hsame⟩ : ∃ st1,
      (if slogLogFilesCountMax ≤ s.st.m_wCurFpLogFileIndex.toNat then
        { s.st with m_wCurFpLogFileIndex := s.st.wLogFileCount - 1 } else s.st) = st1 ∧
      Inv im ⟨st1, s.recs⟩ ∧ st1.m_wCurFpLogFileIndex.toNat = i ∧ name st1 = name s.st ∧
      st1.wLogFileCount = s.st.wLogFileCount := by
    split
    case isTrue =>
      have hpred : (s.st.wLogFileCount - 1).toNat = i := by
        rw [toNat_pred (by omega)]
        omega
      exact ⟨_, rfl, Reheaded.inv ⟨rfl, rfl, rfl, rfl, fun _ => .inl rfl⟩ h (.inr (by rw [hpred, hi])) h.fp,
        hpred, rfl, rfl⟩
    case isFalse hlt =>
      refine ⟨_, rfl, h, ?_, rfl, rfl⟩
      have := h.cur
      omega
  obtain ⟨hnames, hcount⟩ := hsame
  unfold LogHistory.writeCurrent
  rw [hst1, if_neg (by omega)]
  have hi1 : i + 1 = st1.wLogFileCount.toNat := by rw [hcount, hi]
  obtain ⟨fp, st2, hopen, hfp, hinv2, hsame2, hcur2⟩ := hinv.openCurrent hi1 hcur
  have hname2 : name st2 = name s.st := hsame2.names.trans hnames
  rw [hopen]
  rcases hfp with rfl | rfl
  · exact ⟨none, st2, rfl, .inl ⟨rfl, hinv2⟩⟩
  have hi2 : i + 1 = st2.wLogFileCount.toNat := by rw [hsame2.count, hi1]
  have hn2 : (s.recs (name st2 i)).length < slogLogRecordsCountMax := by rw [hname2]; exact hn
  obtain ⟨o, hwrite, hput⟩ := hinv2.put ver1 hfit hi2 (hcur2 ▸ hcur) hn2 r
  have hfp : name st1 i = name st2 i := by rw [hsame2.names]
  refine ⟨some (name st2 i), LogHistory.put st2 i o, ?_, .inr ⟨by rw [hname2], ?_⟩⟩
  · rw [hfp]
    exact hwrite
  · rw [← hname2]
    exact hput

theorem length_decimal_le {n k : Nat} (hk : 0 < k) (hn : n < 10 ^ k) : (decimal n).length ≤ k := by
  unfold decimal
  rw [length_map]
  exact (Nat.length_toDigits_le_iff (by decide) hk).2 hn

theorem length_fileName_le {path : Bytes} (hpath : path.length ≤ 232) (t : UInt64) :
    (fileName path t).length ≤ 249 := by
  have hsec : (decimal (t / secUsec).toUInt32.toNat).length ≤ 10 :=
    length_decimal_le (by decide) (lt_trans (UInt32.toNat_lt _) (by decide))
  have husec : (decimal (t % secUsec).toUInt32.toNat).length ≤ 6 := by
    refine length_decimal_le (by decide) ?_
    rw [UInt64.toNat_toUInt32, UInt64.toNat_mod]
    have hlt : t.toNat % secUsec.toNat < 1000000 := Nat.mod_lt _ (by decide)
    omega
  simp only [fileName, length_append, length_cons, length_nil]
  omega

/-- The list with the new file behind it. -/
structure Added (im : Images) (st : WriteFile) (t : UInt64) (st' : WriteFile) : Prop where
  path : st'.m_szLogFilePath = st.m_szLogFilePath
  count : st'.wLogFileCount.toNat = st.wLogFileCount.toNat + 1
  cur : st'.m_wCurFpLogFileIndex.toNat = st.wLogFileCount.toNat
  fp : st'.m_fpLogFile = some (fileName st.m_szLogFilePath t)
  disk : st'.disk = update st.disk (fileName st.m_szLogFilePath t) (some (newFile im t))
  lastName : name st' st.wLogFileCount.toNat = fileName st.m_szLogFilePath t
  lastHead : head st' st.wLogFileCount.toNat = newHead t
  others : ∀ j < st.wLogFileCount.toNat, name st' j = name st j ∧ head st' j = head st j

theorem addNewSlogFile_works (im : Images) (hio : Works io) (st : WriteFile) (t : UInt64)
    (hlt : (dropOldest st).wLogFileCount.toNat < slogLogFilesCountMax) :
    ∃ st', addNewSlogFile im io st t = (.ok, st') ∧ Added im (dropOldest st) t st' := by
  obtain ⟨hopen, hhead, hindex⟩ := hio
  generalize hst : dropOldest st = st0 at hlt
  have hmin : min io.fwriteIndex slogLogRecordsCountMax = slogLogRecordsCountMax :=
    Nat.min_eq_right hindex
  have hmax : slogLogFilesCountMax = 400 := rfl
  refine ⟨(startFile im io (nameNext st0 t) t).2, ?_, ?_⟩
  · unfold addNewSlogFile
    rw [hst, hopen]
    simp [startFile, hhead, hmin]
  · have hadd : (st0.wLogFileCount + 1).toNat = st0.wLogFileCount.toNat + 1 := by
      rw [UInt16.toNat_add, UInt16.toNat_one]
      omega
    refine ⟨rfl, hadd, rfl, ?_, ?_, ?_, ?_, fun j hj => ?_⟩
    · simp [startFile, nameNext]
    · simp [startFile, nameNext, hhead, hmin, newFile]
    · simp [name, startFile, nameNext]
    · simp [head, startFile, nameNext]
    · have hne : j ≠ st0.wLogFileCount.toNat := ne_of_lt hj
      simp [name, head, startFile, nameNext, update_of_ne hne]

/-- The new file behind a list is not one of the list. -/
theorem Added.listedBut {t : UInt64} (ha : Added im st t st') (hl : Listed im st recs)
    (hlt : st.wLogFileCount.toNat < slogLogFilesCountMax)
    (hnew : ∀ j < st.wLogFileCount.toNat, name st j ≠ fileName st.m_szLogFilePath t) :
    ListedBut im st' recs st.wLogFileCount.toNat := by
  have hold : ∀ j < st'.wLogFileCount.toNat, j ≠ st.wLogFileCount.toNat →
      j < st.wLogFileCount.toNat := fun j hj hne => by
    rw [ha.count] at hj
    omega
  have hdisk : ∀ j < st.wLogFileCount.toNat, st'.disk (name st' j) = st.disk (name st j) := by
    intro j hj
    rw [(ha.others j hj).1, ha.disk, update_of_ne (hnew j hj)]
  refine ⟨?_, ?_, fun n f hn hf => ?_, fun j hj hne => ?_, fun j hj k hk he => ?_, fun j hj hne => ?_⟩
  · rw [ha.path]
    exact hl.path
  · rw [ha.count]
    exact hlt
  · rw [ha.lastName] at hn
    rw [ha.disk, update_of_ne hn] at hf
    exact hl.disk n f hf
  · rw [hdisk j (hold j hj hne)]
    exact hl.there j (hold j hj hne)
  · by_cases hj' : j = st.wLogFileCount.toNat
    · by_cases hk' : k = st.wLogFileCount.toNat
      · omega
      · rw [hj', ha.lastName, (ha.others k (hold k hk hk')).1] at he
        exact absurd he.symm (hnew k (hold k hk hk'))
    · by_cases hk' : k = st.wLogFileCount.toNat
      · rw [hk', ha.lastName, (ha.others j (hold j hj hj')).1] at he
        exact absurd he (hnew j (hold j hj hj'))
      · rw [(ha.others j (hold j hj hj')).1, (ha.others k (hold k hk hk')).1] at he
        exact hl.inj j (hold j hj hj') k (hold k hk hk') he
  · have hfits := hl.heads j (hold j hj hne)
    unfold HeadFits Exact
    rw [hdisk j (hold j hj hne), (ha.others j (hold j hj hne)).2]
    exact hfits

/-- **A record for a new file.** -/
theorem Added.write (hfit : Fits im) (ha : Added im st r.log.qwLogTime st') (hl : Listed im st recs)
    (hlt : st.wLogFileCount.toNat < slogLogFilesCountMax) (hnew : ∀ j < st.wLogFileCount.toNat,
      name st j ≠ fileName st.m_szLogFilePath r.log.qwLogTime) (ver1 : WriteVersion1) :
    ∃ o, writeCurrent im ver1 st' r =
        some (some (fileName st.m_szLogFilePath r.log.qwLogTime),
          put st' st.wLogFileCount.toNat o) ∧
      Inv im ⟨put st' st.wLogFileCount.toNat o,
        update recs (fileName st.m_szLogFilePath r.log.qwLogTime) [r]⟩ := by
  have hbut := ha.listedBut hl hlt hnew
  have hi : st.wLogFileCount.toNat < st'.wLogFileCount.toNat := by
    rw [ha.count]
    exact Nat.lt_succ_self _
  have hf : st'.disk (name st' st.wLogFileCount.toNat) = some (newFile im r.log.qwLogTime) := by
    rw [ha.lastName, ha.disk, update_self]
  have hw : Written im (head st' st.wLogFileCount.toNat) (newFile im r.log.qwLogTime) [] := by
    rw [ha.lastHead]
    exact .create _
  obtain ⟨o, ho, hs⟩ := write_stored hfit hw (.inr ⟨rfl, by rw [ha.lastHead]; rfl⟩)
    (show 0 < 200000 by decide) st'.m_pAppInfo
  have hwrite := writeOpen_put ver1 ha.cur (by rw [ha.lastHead]; rfl) hf ho
  refine ⟨o, ?_, ?_⟩
  · have hcur : ¬ slogLogFilesCountMax ≤ st'.m_wCurFpLogFileIndex.toNat := by
      rw [ha.cur]
      exact not_le.2 hlt
    unfold writeCurrent
    rw [if_neg hcur, if_neg hcur, openCurrent_of_open ha.fp]
    rw [ha.lastName] at hwrite
    exact hwrite
  · have hput := hbut.put hi (by rw [ha.lastName]; exact length_fileName_le hl.path _) hs
    rw [ha.lastName] at hput
    refine ⟨hput, fun j hj => ?_, .inr ?_, fun j hj n hn => ?_⟩
    · have hj : j + 1 = st'.wLogFileCount.toNat := hj
      obtain rfl : j = st.wLogFileCount.toNat := by
        rw [ha.count] at hj
        omega
      exact exact_put st' _ o hs.head
    · show st'.m_wCurFpLogFileIndex.toNat + 1 = st'.wLogFileCount.toNat
      rw [ha.cur, ha.count]
    · have hj : j + 1 = st'.wLogFileCount.toNat := hj
      have hn : st'.m_fpLogFile = some n := hn
      obtain rfl : j = st.wLogFileCount.toNat := by
        rw [ha.count] at hj
        omega
      rw [ha.fp] at hn
      cases hn
      rw [name_put, ha.lastName]

theorem Inv.write_new (h : Inv im s) (hfit : Fits im) (ver1 : WriteVersion1)
    (hseq : r.log.dwLogSeq ≠ 0) (hneeds : needsFile s.st = true) (hio : Works io)
    (hnew : ∀ i < s.st.wLogFileCount.toNat,
      name s.st i ≠ fileName s.st.m_szLogFilePath r.log.qwLogTime) :
    ∃ st' o, Added im (dropOldest s.st) r.log.qwLogTime st' ∧ step im ver1 s (.write io r) =
        some ⟨LogHistory.put st' (dropOldest s.st).wLogFileCount.toNat o,
          update s.recs (fileName s.st.m_szLogFilePath r.log.qwLogTime) [r]⟩ ∧
      Inv im ⟨LogHistory.put st' (dropOldest s.st).wLogFileCount.toNat o,
        update s.recs (fileName s.st.m_szLogFilePath r.log.qwLogTime) [r]⟩ := by
  obtain ⟨hl, hlt, hpath, hnames, -⟩ := dropOldest_listed h.listed
  obtain ⟨st', hadd, ha⟩ := addNewSlogFile_works im hio s.st r.log.qwLogTime hlt
  have hnew' : ∀ j < (dropOldest s.st).wLogFileCount.toNat, name (dropOldest s.st) j ≠
      fileName (dropOldest s.st).m_szLogFilePath r.log.qwLogTime := by
    intro j hj
    obtain ⟨k, hk, he⟩ := hnames j hj
    rw [he, hpath]
    exact hnew k hk
  obtain ⟨o, hwrite, hinv⟩ := ha.write hfit hl hlt hnew' ver1
  rw [hpath] at hwrite hinv
  refine ⟨st', o, ha, ?_, hinv⟩
  unfold step
  dsimp only
  unfold writeLogRecord
  rw [if_neg hseq, hadd]
  dsimp only
  rw [hwrite]
  simp [note, hneeds]

/-- **One record.** -/
theorem Inv.write (h : Inv im s) (hfit : Fits im) (ver1 : WriteVersion1) (hok : Ok s (.write io r)) :
    ∃ s', step im ver1 s (.write io r) = some s' ∧ Inv im s' := by
  by_cases hseq : r.log.dwLogSeq = 0
  · refine ⟨s, ?_, h⟩
    unfold step
    dsimp only
    unfold writeLogRecord
    rw [if_pos hseq]
    rfl
  cases hneeds : needsFile s.st with
  | true =>
    obtain ⟨hio, hnew⟩ := hok hneeds
    obtain ⟨st', o, -, hstep, hinv⟩ := h.write_new hfit ver1 hseq hneeds hio hnew
    exact ⟨_, hstep, hinv⟩
  | false =>
    have hiff := h.needsFile_iff hfit
    rw [hneeds] at hiff
    obtain ⟨hc, hn⟩ := not_or.1 (mt hiff.2 Bool.false_ne_true)
    obtain ⟨fp, st', hwrite, hor⟩ := h.writeCurrent ver1 hfit
      (by omega) (not_le.1 hn) r
    unfold step
    dsimp only
    unfold writeLogRecord
    rw [if_neg hseq, hneeds, hwrite]
    refine ⟨_, rfl, ?_⟩
    rcases hor with ⟨rfl, hinv⟩ | ⟨rfl, hinv⟩
    · exact hinv
    · simp only [note, hneeds]
      exact hinv

/-! ## A writer starts -/

theorem keepList_eq
    (hmax : (head st (st.wLogFileCount.toNat - 1)).iLogRecordsMax = Int32.ofNat slogLogRecordsCountMax) :
    keepList st = { st with m_wCurFpLogFileIndex := st.wLogFileCount - 1 } := by
  unfold keepList
  dsimp only
  rw [hmax, ite_self, ← hmax, setHead, head, Function.update_eq_self]

theorem Inv.keepList (h : Inv im s) (hfit : Fits im) (hc : 0 < s.st.wLogFileCount.toNat) :
    Inv im { s with st := keepList { s.st with
      m_fpLogFile := none, m_wCurFpLogFileIndex := 400 } } := by
  obtain ⟨f, hf, hs⟩ := h.listed.stored_exact (h.last (s.st.wLogFileCount.toNat - 1) (by omega))
  rw [@keepList_eq { s.st with m_fpLogFile := none, m_wCurFpLogFileIndex := 400 }
    (hs.written.holds hfit).2.max]
  refine h.start (s.st.wLogFileCount - 1) (.inr ?_)
  rw [toNat_pred hc]
  omega

/-- What reading heads keeps. -/
structure Reads (im : Images) (st st' : WriteFile) : Prop extends Reheaded im st st' where
  cur : st'.m_wCurFpLogFileIndex = st.m_wCurFpLogFileIndex
  fp : st'.m_fpLogFile = st.m_fpLogFile

theorem Reads.refl (st : WriteFile) : Reads im st st :=
  ⟨⟨rfl, rfl, rfl, rfl, fun _ => .inl rfl⟩, rfl, rfl⟩

theorem readHeads_reads (n : Nat) :
    ∀ {i} {st}, Listed im st recs → i + n = st.wLogFileCount.toNat →
      Reads im st (readHeads im n i st) ∧
        ∀ j, i ≤ j → j < st.wLogFileCount.toNat → Exact im (readHeads im n i st) j := by
  induction n with
  | zero =>
    intro i st hl hn
    exact ⟨.refl st, fun j hj hlt => absurd hlt (by omega)⟩
  | succ n ih =>
    intro i st hl hn
    have hi : i < st.wLogFileCount.toNat := by omega
    obtain ⟨b, h, he, hr, hexact⟩ := readLogFileHead_listed hl hi
    rw [readHeads, if_neg (not_le.2 hi), he]
    -- the statistics of the app are not part of the list
    have hrest : ∀ app, Reads im st (readHeads im n (i + 1) { setHead st i h with m_pAppInfo := app }) ∧
        ∀ j, i ≤ j → j < st.wLogFileCount.toNat →
          Exact im (readHeads im n (i + 1) { setHead st i h with m_pAppInfo := app }) j := by
      intro app
      have hr1 : Reheaded im st { setHead st i h with m_pAppInfo := app } :=
        ⟨rfl, rfl, rfl, hr.names, hr.heads⟩
      obtain ⟨hreads, hall⟩ := ih (hr1.listed hl) (show i + 1 + n = st.wLogFileCount.toNat by omega)
      refine ⟨⟨hr1.trans hreads.toReheaded, hreads.cur, hreads.fp⟩, fun j hj hlt => ?_⟩
      rcases eq_or_lt_of_le hj with rfl | hij
      · exact hreads.exact hexact
      · exact hall j hij hlt
    cases b with
    | false => exact hrest _
    | true => exact hrest _

theorem slogFile_eq_some {path d_name : Bytes} {e : LogFileInfo} (he : slogFile path d_name = some e) :
    (scanName d_name).isSome ∧ e.szAbsFileName = (path ++ d_name).take 254 ∧
      e.stFileHead = zeroHead := by
  unfold slogFile at he
  split at he
  · cases he
  rename_i hscan
  split at he
  · cases he
  · cases he
    exact ⟨by rw [hscan]; rfl, rfl, rfl⟩

/-- The list that a directory gives: different names of files that exist. -/
structure Scanned (st : WriteFile) (l : List LogFileInfo) : Prop where
  max : l.length ≤ slogLogFilesCountMax
  there : ∀ e ∈ l, (st.disk e.szAbsFileName).isSome ∧ e.stFileHead = zeroHead
  names : (l.map (·.szAbsFileName)).Nodup

theorem listFiles_scanned (h : Inv im s) (hok : namelist.Nodup)
    (hdisk : ∀ d_name ∈ namelist, (scanName d_name).isSome →
      (s.st.disk (s.st.m_szLogFilePath ++ d_name)).isSome) :
    Scanned s.st (listFiles s.st.m_szLogFilePath namelist) := by
  -- the names on the disk are short enough not to be cut
  have hname : ∀ d_name ∈ namelist, ∀ e, slogFile s.st.m_szLogFilePath d_name = some e →
      (s.st.disk (s.st.m_szLogFilePath ++ d_name)).isSome ∧
        e.szAbsFileName = s.st.m_szLogFilePath ++ d_name ∧ e.stFileHead = zeroHead := by
    intro d_name hd e he
    obtain ⟨hscan, hn, hz⟩ := slogFile_eq_some he
    have hsome := hdisk d_name hd hscan
    obtain ⟨f, hf⟩ := isSome_iff_exists.1 hsome
    rw [take_of_length_le (le_trans (h.listed.disk _ f hf).1 (by decide))] at hn
    exact ⟨hsome, hn, hz⟩
  have hperm := qsort_perm logFileCmp
    ((namelist.reverse.filterMap (slogFile s.st.m_szLogFilePath)).take slogLogFilesCountMax)
  refine ⟨?_, fun e he => ?_, ?_⟩
  · rw [listFiles, hperm.length_eq]
    exact length_take_le _ _
  · obtain ⟨d_name, hd, hf⟩ := mem_filterMap.1 (mem_of_mem_take (hperm.mem_iff.1 he))
    obtain ⟨hsome, hn, hz⟩ := hname d_name (mem_reverse.1 hd) e hf
    rw [hn]
    exact ⟨hsome, hz⟩
  · rw [listFiles, (hperm.map _).nodup_iff, map_take]
    refine List.Nodup.sublist (take_sublist _ _) ?_
    rw [List.Nodup, pairwise_map, pairwise_filterMap]
    refine (nodup_reverse.2 hok).imp_of_mem fun {d d'} hd hd' hne e he e' he' heq => hne ?_
    rw [(hname d (mem_reverse.1 hd) e he).2.1, (hname d' (mem_reverse.1 hd') e' he').2.1] at heq
    exact append_cancel_left heq

/-- The new list, with no head read. -/
theorem Scanned.listed {l : List LogFileInfo} (hl : Listed im st recs) (hs : Scanned st l) :
    Listed im { st with
      stFiles := fun k => (l[k]?).getD (st.stFiles k)
      wLogFileCount := ofNat l.length } recs := by
  have hmax := hs.max
  have hcount : (ofNat l.length).toNat = l.length :=
    toNat_ofNat_of_lt' (lt_of_le_of_lt hmax (by decide))
  have hget : ∀ j < (ofNat l.length).toNat, l[j]? = some ((l[j]?).getD (st.stFiles j)) := by
    intro j hj
    rw [hcount] at hj
    rw [getElem?_eq_getElem hj]
    rfl
  have hentry : ∀ j < (ofNat l.length).toNat, (l[j]?).getD (st.stFiles j) ∈ l :=
    fun j hj => mem_of_getElem? (hget j hj)
  refine ⟨hl.path, le_trans (le_of_eq hcount) hmax, hl.disk, fun j hj => ?_,
    fun j hj k hk he => ?_, fun j hj => ?_⟩
  · exact (hs.there _ (hentry j hj)).1
  · have hj' : j < (l.map (·.szAbsFileName)).length := by
      rw [length_map, ← hcount]
      exact hj
    refine (getElem?_inj hj' hs.names).1 ?_
    rw [getElem?_map, getElem?_map, hget j hj, hget k hk]
    exact congrArg some he
  · refine .inr ?_
    show ((l[j]?).getD (st.stFiles j)).stFileHead.iLogRecordsWrite ≤ 0
    rw [(hs.there _ (hentry j hj)).2]
    decide

/-- After the heads are read the last one is exact. -/
theorem loadHeads_reads (hl : Listed im st recs) : Reads im st (loadHeads im st) ∧
      ∀ i, i + 1 = st.wLogFileCount.toNat → Exact im (loadHeads im st) i := by
  unfold loadHeads
  cases happ : st.m_pAppInfo with
  | some a =>
    have hr0 : Reheaded im st { st with
        m_pAppInfo := some { a with stLogStatInfo := ⟨0, 0, 0, 0, 0, 0, 0, 0⟩ } } :=
      ⟨rfl, rfl, rfl, rfl, fun _ => .inl rfl⟩
    obtain ⟨hreads, hall⟩ := readHeads_reads st.wLogFileCount.toNat (hr0.listed hl) (zero_add _)
    exact ⟨⟨hr0.trans (hreads.trans ⟨rfl, rfl, rfl, rfl, fun _ => .inl rfl⟩), hreads.cur, hreads.fp⟩,
      fun i hi => hall i (Nat.zero_le i) (by show i < st.wLogFileCount.toNat; omega)⟩
  | none =>
    dsimp only
    split
    case isTrue hc =>
      rw [UInt16.lt_iff_toNat_lt] at hc
      obtain ⟨b, h, he, hr, hexact⟩ :=
        readLogFileHead_listed hl (show st.wLogFileCount.toNat - 1 < st.wLogFileCount.toNat by omega)
      rw [he]
      refine ⟨⟨hr, rfl, rfl⟩, fun i hi => ?_⟩
      obtain rfl : i = st.wLogFileCount.toNat - 1 := by omega
      exact hexact
    case isFalse hc =>
      rw [UInt16.lt_iff_toNat_lt, UInt16.toNat_zero] at hc
      exact ⟨.refl st, fun i hi => absurd hi (by omega)⟩

theorem Inv.scanned (h : Inv im s) (hs : Scanned s.st (listFiles s.st.m_szLogFilePath namelist))
    (hcur : s.st.m_wCurFpLogFileIndex = 400) (hfp : s.st.m_fpLogFile = none) :
    Inv im { s with st := scanAgain im s.st namelist } := by
  obtain ⟨hreads, hlast⟩ := loadHeads_reads (hs.listed h.listed)
  have hl := hreads.listed (hs.listed h.listed)
  have hfp' := hreads.fp.trans hfp
  have hlast' := hreads.count ▸ hlast
  unfold scanAgain
  dsimp only
  split
  case isTrue hc =>
    rw [UInt16.lt_iff_toNat_lt] at hc
    refine ⟨⟨hl.path, hl.max, hl.disk, hl.there, hl.inj, hl.heads⟩, hlast', .inr ?_, fun i hi n hn => ?_⟩
    · dsimp only
      rw [toNat_pred hc]
      omega
    · cases hfp'.symm.trans hn
  case isFalse hc =>
    refine ⟨hl, hlast', .inl ?_, fun i hi n hn => ?_⟩
    · rw [hreads.cur]
      rw [hcur]
      decide
    · cases hfp'.symm.trans hn

theorem Inv.empty (hpath : st.m_szLogFilePath.length ≤ 232)
    (hcount : st.wLogFileCount = 0) (hcur : st.m_wCurFpLogFileIndex = 400)
    (hdisk : ∀ n f, st.disk n = some f → n.length ≤ 249 ∧ ∃ h, Stored im f h (recs n)) :
    Inv im ⟨st, recs⟩ := by
  have hzero : st.wLogFileCount.toNat = 0 := by
    rw [hcount]
    rfl
  have hnone : ∀ {P} {j}, j < st.wLogFileCount.toNat → P := fun hj => absurd hj (by omega)
  refine ⟨⟨hpath, hzero ▸ Nat.zero_le _, hdisk, fun _ hj => hnone hj, fun _ hj => hnone hj,
    fun _ hj => hnone hj⟩, fun i hi => hnone (Nat.lt_of_succ_le hi.le), .inl ?_,
    fun i hi => hnone (Nat.lt_of_succ_le hi.le)⟩
  rw [hcur]
  decide

theorem Inv.init (h : Inv im s) (hfit : Fits im) (m_iScanAgain : Bool)
    (hok : Ok s (.init m_iScanAgain namelist)) :
    Inv im { s with st := initLogFiles im m_iScanAgain namelist s.st } := by
  have hstart := h.start 400 (.inl (by decide))
  unfold initLogFiles
  dsimp only
  split
  · exact hstart
  split
  case isTrue hkeep =>
    have hc := hkeep.2.1
    exact h.keepList hfit hc
  split
  · exact .empty h.listed.path rfl rfl h.listed.disk
  · exact hstart.scanned (listFiles_scanned hstart hok.1 hok.2) rfl rfl

/-! ## A search reads heads -/

theorem readHead_files {k : Nat} {h : LogFileHead} (hr : (files st).readHead im k = .ok h) :
    h = head st k ∨ ∃ f, st.disk (name st k) = some f ∧ im.head.read f 0 = some h := by
  unfold Files.readHead at hr
  split at hr
  · cases hr
    exact .inl rfl
  split at hr
  · cases hr
  rename_i f hf
  split at hr
  · cases hr
  · rename_i h' hread
    cases hr
    exact .inr ⟨f, hf, hread⟩

theorem Inv.search (h : Inv im s) (q : Search) :
    Inv im { s with st := { s.st with stFiles := (beginSearch im (files s.st) q).1.stFiles } } := by
  by_cases hc : q.m_wFileCount = 0
  · have hpick := beginSearch_pick im (files s.st) hc
    -- the entries keep their names, and a head that changes is that of its file
    refine Reheaded.inv ⟨rfl, rfl, rfl, hpick.names, fun j => ?_⟩ h h.cur h.fp
    rcases hpick.head j with he | he
    · exact .inl he
    rcases readHead_files he with heq | ⟨f, hf, hread⟩
    · exact .inl heq
    · refine .inr ⟨f, ?_, hread⟩
      rw [← hf]
      exact congrArg s.st.disk (congrFun hpick.names j)
  · rw [beginSearch_of_count hc]
    exact h

end Step

/-! ## Runs -/

/-- **A step keeps the files of the list.** -/
theorem Inv.step (hfit : Fits im) (ver1 : WriteVersion1) {s : Hist} (h : Inv im s)
    {l : Label} (hok : Ok s l) : ∃ s', step im ver1 s l = some s' ∧ Inv im s' := by
  cases l with
  | write io r => exact h.write hfit ver1 hok
  | close => exact ⟨_, rfl, h.close⟩
  | remove => exact ⟨_, rfl, h.remove hok⟩
  | init m_iScanAgain namelist => exact ⟨_, rfl, h.init hfit m_iScanAgain hok⟩
  | search q => exact ⟨_, rfl, h.search q⟩

/-- A directory without log files. -/
def Fresh (st : WriteFile) : Prop :=
  st.m_szLogFilePath.length ≤ 232 ∧ st.wLogFileCount = 0 ∧ st.m_wCurFpLogFileIndex = 400 ∧
    ∀ n, st.disk n = none

theorem Inv.fresh {st : WriteFile} (h : Fresh st) (recs : Bytes → List Record) :
    Inv im ⟨st, recs⟩ := by
  obtain ⟨hpath, hcount, hcur, hdisk⟩ := h
  refine .empty hpath hcount hcur fun n f hf => ?_
  rw [hdisk] at hf
  cases hf

/-- **Every history** returns, and leaves a list of files with the records written to them. -/
theorem Inv.run (hfit : Fits im) (ver1 : WriteVersion1) {s : Hist} {ls : List Label}
    (h : Inv im s) (hok : Meets (LogHistory.step im ver1) Ok ls s) :
    ∃ s', Run.run (LogHistory.step im ver1) ls s = some s' ∧ Inv im s' :=
  run_inv (fun _ _ hs => hs.step hfit ver1) h hok

end DesPwd.L4.LogHistory
