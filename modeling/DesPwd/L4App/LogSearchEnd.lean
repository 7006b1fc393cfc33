import DesPwd.L4App.LogPick

/-!
# The end of a history search

`DealGetHistoryLog` calls `HistoryLog` until a page is full and then asks
`IsSearchHistoryComplete` whether there is a next page (cgi_fcgi/mt_slog.cpp:1732-1847).
The test is on `m_dwFilePos + 1`, as if `m_dwFilePos` were the record read last, but it
is the next one to read: in the last file the search counts as complete with the last
record still to come.

* `scanFiles_settled`: after a call `m_dwCurFileHasRecords` is the number of records of
  the file in which the search stands, if that file can be read at all.
* `history_end_iff`: the call behind a set flag returns nothing exactly if the last
  record of the last file is not the one to be read next, or does not match.

Source files without a directory are in `lib/mtagent_api_open/`.
-/
namespace DesPwd.L4.LogSearchEnd

open Bytes L4.LogFiles L4.LogWrite L4.LogSearch Search
open L1.LogCust (Cust)

/-! ## Files of version 1 -/

/-- mirrors `SLogFileLogIndex` -/
structure LogFileLogIndexVer1 where
  dwCust_1 : UInt32
  dwCust_2 : UInt32
  iCust_3 : Int32
  iCust_4 : Int32
  szCust_5 : Vector UInt8 16
  szCust_6 : Vector UInt8 32
  dwLogConfigId : UInt32
  dwLogHost : UInt32
  iAppId : Int32
  iModuleId : Int32
  wLogType : UInt16
  dwLogSeq : UInt32
  qwLogTime : UInt64
  dwLogContentLen : UInt32
  dwLogContentPos : UInt32

/-- An empty string is not copied. -/
def copyCust {n m : Nat} (old : CharBuf n) (sz : Vector UInt8 m) : CharBuf n :=
  if sz.toList.head? ≠ some 0 then old.strncpy (sz.toList.takeWhile (· ≠ 0)) else old

/-- mirrors supper_log.cpp:683-694 -/
def LogFileLogIndexVer1.toOut (ix : LogFileLogIndexVer1) (out : LogOut) : LogOut :=
  { out with
    cust := { out.cust with
      dwCust_1 := ix.dwCust_1
      dwCust_2 := ix.dwCust_2
      iCust_3 := ix.iCust_3
      iCust_4 := ix.iCust_4
      szCust_5 := copyCust out.cust.szCust_5 ix.szCust_5
      szCust_6 := copyCust out.cust.szCust_6 ix.szCust_6 }
    dwLogConfigId := ix.dwLogConfigId
    dwLogSeq := ix.dwLogSeq
    qwLogTime := ix.qwLogTime }

/-- mirrors supper_log.cpp:651-699 -/
def readContentVer1 (f : ByteFile) (ix : LogFileLogIndexVer1) (st : Scan) : Next :=
  match Image.uint32.read f ix.dwLogContentPos.toNat with
  | none => .stop st
  | some dwContentSeq =>
    if dwContentSeq ≠ ix.dwLogSeq then .stop st
    else if maxLineLen < ix.dwLogContentLen.toNat then .stop st
    else
      let bs := fread f (ix.dwLogContentPos.toNat + 4) ix.dwLogContentLen.toNat
      let st := { st with sLogBuf := st.sLogBuf.write 0 bs }
      if bs.length ≠ ix.dwLogContentLen.toNat then .stop st
      else if isLogMatchText st.search st.out (bufText st.sLogBuf) then
        .found { st with out := ix.toOut st.out }
      else .next st

/-- The fields that are set before the filter. -/
def setHeadVer1 (st : Scan) (ix : LogFileLogIndexVer1) : Scan :=
  { st with
    out := { st.out with
      iAppId := ix.iAppId
      iModuleId := ix.iModuleId
      wLogType := ix.wLogType
      dwLogHost := ix.dwLogHost } }

/-- mirrors supper_log.cpp:617-649 -/
def readRecordVer1 (im : Images) (im1 : Image LogFileLogIndexVer1) (f : ByteFile) (j : Int)
    (st : Scan) : Next :=
  match im1.read f (UInt32.ofInt (im.head.size + j * im1.size)).toNat with
  | none => .stop st
  | some ix =>
    if !inTime st.search ix.qwLogTime then .next (st.pass j)
    else if !isLogMatch st.search (setHeadVer1 st ix).out then .next (setHeadVer1 (st.pass j) ix)
    else readContentVer1 f ix (setHeadVer1 (st.pass j) ix)

/-- The loop of both versions from record `j` on, for `n` records. -/
def scanWith (rd : Int → Scan → Next) : Nat → Int → Scan → Bool × Scan
  | 0, _, st => (false, st)
  | n + 1, j, st =>
    match rd j st with
    | .next st => scanWith rd n (j + 1) st
    | .stop st => (false, st)
    | .found st => (true, st)

/-- A file is gone through from `m_dwFilePos` on. -/
def startScan (h : LogFileHead) (s : Search) (buf : ByteFile) : Scan :=
  ⟨{ s with m_dwCurFileHasRecords := h.iLogRecordsWrite.toUInt32 }, .zero, buf⟩

/-- What the static buffer of `ReadLogFileVersion_1` holds when it is called. -/
abbrev Stale := Search → LogFileHead → ByteFile → ByteFile

/-- mirrors supper_log.cpp:612-702 -/
def readLogFileVersion_1 (im : Images) (im1 : Image LogFileLogIndexVer1) (stale : Stale) : Version1 :=
  fun s h f =>
    let j := s.m_dwFilePos.toInt32.toInt
    let r := scanWith (readRecordVer1 im im1 f) (h.iLogRecordsWrite.toInt - j).toNat j
      (startScan h s (stale s h f))
    (if r.1 then some r.2.out else none, r.2.search.m_dwFilePos)

/-! ## IsSearchHistoryComplete -/

/-- mirrors supper_log.cpp:592-598 -/
def isSearchHistoryComplete (s : Search) : Bool :=
  s.m_wFileCount = 0 ∨
    (s.m_wFileCount.toNat ≤ s.m_wFileNo.toNat + 1 ∧ s.m_dwCurFileHasRecords ≤ s.m_dwFilePos + 1)

/-! ## Going through a file -/

theorem readRecordVer1_moves (im : Images) (im1 : Image LogFileLogIndexVer1) (f : ByteFile) :
    Moves (readRecordVer1 im im1 f) := by
  intro j st
  unfold readRecordVer1
  split
  case h_1 => exact .inl rfl
  case h_2 ix _ =>
    right
    split
    · rfl
    split
    · rfl
    · unfold readContentVer1
      dsimp only
      repeat' split
      all_goals rfl

theorem scan_eq (im : Images) (f : ByteFile) (n : Nat) :
    ∀ j st, scan im f n j st = scanWith (readRecord im f) n j st := by
  induction n with
  | zero => exact fun _ _ => rfl
  | succ n ih =>
    intro j st
    rw [scan, scanWith]
    cases readRecord im f j st with
    | next st' => exact ih (j + 1) st'
    | stop st' => rfl
    | found st' => rfl

/-- The search at record `k`. -/
def goTo (s : Search) (k : Int) : Search := { s with m_dwFilePos := UInt32.ofInt k }

variable {rd : Int → Scan → Next}

/-- The position behind a loop is the one before it, or behind a record of the loop. -/
theorem scanWith_search (hrd : Moves rd) (n : Nat) :
    ∀ j st, (scanWith rd n j st).2.search = st.search ∨
      ∃ k, j ≤ k ∧ k < j + n ∧ (scanWith rd n j st).2.search = goTo st.search (k + 1) := by
  induction n with
  | zero => exact fun _ _ => .inl rfl
  | succ n ih =>
    intro j st
    have hone : (rd j st).scan.search = st.search ∨
        ∃ k, j ≤ k ∧ k < j + (n + 1 : Nat) ∧ (rd j st).scan.search = goTo st.search (k + 1) := by
      rcases hrd j st with h | h
      · exact .inl h
      · exact .inr ⟨j, Int.le_refl j, by omega, h⟩
    rw [scanWith]
    cases hnext : rd j st with
    | stop st' =>
      rw [hnext] at hone
      exact hone
    | found st' =>
      rw [hnext] at hone
      exact hone
    | next st' =>
      rw [hnext] at hone
      dsimp only [Next.scan] at hone
      rcases ih (j + 1) st' with h | ⟨k, hk, hlt, h⟩
      · rw [h]
        exact hone
      refine .inr ⟨k, by omega, by omega, ?_⟩
      rcases hone with h' | ⟨k', -, -, h'⟩
      · rw [h, h']
      · rw [h, h']
        rfl

/-- Going on from record `j`, one of the first `r` records matches, and those before it
can be read. -/
inductive Finds (rd : Int → Scan → Next) (r : Int) : Int → Scan → Prop where
  | here {j : Int} {st st' : Scan} (hj : j < r) (he : rd j st = .found st') : Finds rd r j st
  | later {j : Int} {st st' : Scan} (hj : j < r) (he : rd j st = .next st')
      (h : Finds rd r (j + 1) st') : Finds rd r j st

theorem Finds.lt {r j : Int} {st : Scan} (h : Finds rd r j st) : j < r := by
  cases h with
  | here hj => exact hj
  | later hj => exact hj

theorem scanWith_found_iff {r : Int} (n : Nat) : ∀ {j} {st}, n = (r - j).toNat →
      ((scanWith rd n j st).1 = true ↔ Finds rd r j st) := by
  induction n with
  | zero =>
    intro j st hn
    refine ⟨fun h => (by cases h), fun h => ?_⟩
    have := h.lt
    omega
  | succ n ih =>
    intro j st hn
    have hj : j < r := by omega
    rw [scanWith]
    cases hnext : rd j st with
    | stop st' =>
      refine ⟨fun h => (by cases h), fun h => ?_⟩
      cases h with
      | here _ he => cases hnext.symm.trans he
      | later _ he => cases hnext.symm.trans he
    | found st' => exact ⟨fun _ => .here hj hnext, fun _ => rfl⟩
    | next st' =>
      rw [ih (by omega)]
      refine ⟨.later hj hnext, fun h => ?_⟩
      cases h with
      | here _ he => cases hnext.symm.trans he
      | later _ he h =>
        cases hnext.symm.trans he
        exact h

section Files

variable {im : Images} {im1 : Image LogFileLogIndexVer1} {stale : Stale} {h : LogFileHead}
  {f : ByteFile} {s s' : Search} {b b' : ByteFile} {o : Option LogOut}

/-- From where the search stands in a file on, a record matches. -/
def Unread (im : Images) (im1 : Image LogFileLogIndexVer1) (stale : Stale) (h : LogFileHead)
    (f : ByteFile) (s : Search) (b : ByteFile) : Prop :=
  (h.bLogFileVersion = 1 ∧ Finds (readRecordVer1 im im1 f) h.iLogRecordsWrite.toInt
      s.m_dwFilePos.toInt32.toInt (startScan h s (stale s h f))) ∨
    (h.bLogFileVersion = 2 ∧ Finds (readRecord im f) h.iLogRecordsWrite.toInt
      s.m_dwFilePos.toInt32.toInt (startScan h s b))

theorem Unread.lt (hu : Unread im im1 stale h f s b) :
    s.m_dwFilePos.toInt32.toInt < h.iLogRecordsWrite.toInt := by
  rcases hu with hu | hu
  · exact hu.2.lt
  · exact hu.2.lt

/-- A position inside the `int` range, and where a loop over a file leaves it. -/
theorem scanWith_pos_lt {rd : Int → Scan → Next} (hrd : Moves rd) (hpos : s.m_dwFilePos.toNat < 2 ^ 31)
    (b : ByteFile) :
    ((scanWith rd (h.iLogRecordsWrite.toInt - s.m_dwFilePos.toInt32.toInt).toNat
      s.m_dwFilePos.toInt32.toInt (startScan h s b)).2.search.m_dwFilePos).toNat < 2 ^ 31 := by
  have hj := toInt_toInt32 hpos
  have hr : h.iLogRecordsWrite.toInt < 2 ^ 31 := h.iLogRecordsWrite.toInt_lt
  rcases scanWith_search hrd (h.iLogRecordsWrite.toInt - s.m_dwFilePos.toInt32.toInt).toNat
    s.m_dwFilePos.toInt32.toInt (startScan h s b) with he | ⟨k, hk, hlt, he⟩
  · rw [he]
    exact hpos
  · rw [he]
    show (UInt32.ofInt (k + 1)).toNat < 2 ^ 31
    rw [UInt32.ofInt, UInt32.toNat_ofNat']
    omega

/-- **One file.** -/
theorem readFile_spec (he : readFile im (readLogFileVersion_1 im im1 stale) h f s b = some (o, s', b')) :
    (h.bLogFileVersion = 1 ∨ h.bLogFileVersion = 2) ∧
      s'.m_dwCurFileHasRecords = h.iLogRecordsWrite.toUInt32 ∧
      (s.m_dwFilePos.toNat < 2 ^ 31 → s'.m_dwFilePos.toNat < 2 ^ 31) ∧
      (o.isSome ↔ Unread im im1 stale h f s b) := by
  unfold readFile at he
  split at he
  case isTrue hv =>
    cases he
    refine ⟨.inl hv, rfl, fun hpos => scanWith_pos_lt (readRecordVer1_moves im im1 f) hpos _, ?_⟩
    unfold Unread
    rw [← scanWith_found_iff _ rfl]
    simp [readLogFileVersion_1, hv]
  case isFalse hv1 =>
    split at he
    case isFalse => cases he
    case isTrue hv =>
      cases he
      have hscan : readLogFileVersion_2 im h f ⟨s, .zero, b⟩ = scanWith (readRecord im f)
          (h.iLogRecordsWrite.toInt - s.m_dwFilePos.toInt32.toInt).toNat s.m_dwFilePos.toInt32.toInt
          (startScan h s b) := scan_eq ..
      rw [hscan]
      refine ⟨.inr hv, ?_, fun hpos => scanWith_pos_lt (readRecord_moves im f) hpos b, ?_⟩
      · rcases scanWith_search (readRecord_moves im f) _ _ (startScan h s b) with he | ⟨k, -, -, he⟩
        · rw [he]
          rfl
        · rw [he]
          rfl
      · unfold Unread
        simp only [hv, Option.isSome_ite, show ¬ (2 : UInt8) = 1 by decide, false_and, false_or, true_and]
        exact scanWith_found_iff _ rfl

theorem readFile_eq_none {ver1 : Version1} (he : readFile im ver1 h f s b = none) :
    ¬ (h.bLogFileVersion = 1 ∨ h.bLogFileVersion = 2) := by
  unfold readFile at he
  intro hv
  rcases hv with hv | hv
  · rw [if_pos hv] at he
    cases he
  · rw [if_neg (by rw [hv]; decide), if_pos hv] at he
    cases he

end Files

/-! ## Going through the files -/

section Loop

variable {im : Images} {im1 : Image LogFileLogIndexVer1} {stale : Stale} {fs : Files}

/-- The number of records is that of the file in which the search stands, if this file can
be gone through. -/
def Settled (fs : Files) (s : Search) : Prop :=
  s.file < slogLogFilesCountMax → ∀ f, fs.open s.file = some f →
    ((fs.head s.file).bLogFileVersion = 1 ∨ (fs.head s.file).bLogFileVersion = 2) →
    s.m_dwCurFileHasRecords = (fs.head s.file).iLogRecordsWrite.toUInt32

/-- **The loop over the files.** -/
theorem scanFiles_settled (n : Nat) :
    ∀ {i k} {s} {b}, s.m_dwFilePos.toNat < 2 ^ 31 → s.file = i →
      n = slogLogFilesCountMax - i →
      ∀ s', (scanFiles im (readLogFileVersion_1 im im1 stale) fs n i k (s, b)).2.1 = s' →
      Settled fs s' ∧ s'.filter = s.filter ∧ s'.m_wFileCount = s.m_wFileCount ∧
        s'.m_wFileIndexStar = s.m_wFileIndexStar ∧ s'.m_dwFilePos.toNat < 2 ^ 31 := by
  induction n with
  | zero =>
    rintro i k s b hpos rfl hn s' rfl
    refine ⟨fun hlt => ?_, rfl, rfl, rfl, hpos⟩
    have hlt : s.file < slogLogFilesCountMax := hlt
    omega
  | succ n ih =>
    rintro i k s b hpos rfl hn s' rfl
    rw [scanFiles_succ]
    cases hopen : fs.open s.file with
    | none =>
      refine ⟨fun _ f hf => ?_, rfl, rfl, rfl, hpos⟩
      cases hopen.symm.trans hf
    | some f =>
      dsimp only
      cases hread : readFile im (readLogFileVersion_1 im im1 stale) (fs.head s.file) f s b with
      | none =>
        exact ⟨fun _ _ _ hv => absurd hv (readFile_eq_none hread), rfl, rfl, rfl, hpos⟩
      | some r =>
        obtain ⟨o, s1, b1⟩ := r
        have hfix := (readFile_keeps hread).1
        obtain ⟨-, hhas, hpos1, -⟩ := readFile_spec hread
        have hfile : s1.file = s.file := file_congr hfix
        have hcount : s1.m_wFileCount = s.m_wFileCount :=
          show s1.fixed.m_wFileCount = s.fixed.m_wFileCount by rw [hfix]
        have hstar : s1.m_wFileIndexStar = s.m_wFileIndexStar :=
          show s1.fixed.m_wFileIndexStar = s.fixed.m_wFileIndexStar by rw [hfix]
        have hstay : Settled fs s1 ∧ s1.filter = s.filter ∧ s1.m_wFileCount = s.m_wFileCount ∧
            s1.m_wFileIndexStar = s.m_wFileIndexStar ∧ s1.m_dwFilePos.toNat < 2 ^ 31 := by
          refine ⟨fun _ _ _ _ => ?_, filter_congr hfix, hcount, hstar, hpos1 hpos⟩
          rw [hfile]
          exact hhas
        cases o with
        | some out => exact hstay
        | none =>
          dsimp only
          split
          · exact hstay
          · obtain ⟨hnext, hzero⟩ := at_nextFile hfix (by omega)
            obtain ⟨hs, hf, hc, hi, hp⟩ := ih hzero hnext (by omega) _ rfl
            exact ⟨hs, hf.trans (filter_congr hfix : s1.filter = s.filter), hc.trans hcount, hi.trans hstar, hp⟩

theorem scanFiles_last {n i k : Nat} {s : Search} {b : ByteFile} (hk : s.m_wFileCount.toNat ≤ k + 1) :
    (scanFiles im (readLogFileVersion_1 im im1 stale) fs n i k (s, b)).1.isSome ↔
      0 < n ∧ ∃ f, fs.open i = some f ∧ Unread im im1 stale (fs.head i) f s b := by
  cases n with
  | zero => exact ⟨fun h => (by cases h), fun h => absurd h.1 (lt_irrefl 0)⟩
  | succ n =>
    rw [scanFiles_succ]
    cases fs.open i with
    | none => simp
    | some f =>
      dsimp only
      cases hread : readFile im (readLogFileVersion_1 im im1 stale) (fs.head i) f s b with
      | none =>
        simp only [Option.isSome_none, Bool.false_eq_true, Option.some.injEq, exists_eq_left',
          false_iff, not_and]
        intro _ hu
        exact readFile_eq_none hread (hu.imp And.left And.left)
      | some r =>
        obtain ⟨o, s1, b1⟩ := r
        have hfix := (readFile_keeps hread).1
        obtain ⟨-, -, -, hiff⟩ := readFile_spec hread
        have hcount : s1.m_wFileCount = s.m_wFileCount :=
          show s1.fixed.m_wFileCount = s.fixed.m_wFileCount by rw [hfix]
        cases o with
        | some out => simpa using hiff
        | none =>
          dsimp only
          rw [if_pos (by rw [hcount]; exact hk)]
          simpa using hiff

end Loop

/-! ## The call behind a set flag -/

/-- A record is left although the search counts as complete. -/
inductive Left (im : Images) (im1 : Image LogFileLogIndexVer1) (stale : Stale) (s : Sys) : Prop where
  /-- The search stands before the last record of its last file, and this record matches. -/
  | last {f : ByteFile} (init : s.search.m_bInit = true) (count : s.search.m_wFileCount ≠ 0)
      (isLast : s.search.m_wFileCount.toNat ≤ s.search.m_wFileNo.toNat + 1)
      (file : s.search.file < slogLogFilesCountMax) (opens : s.files.open s.search.file = some f)
      (pos : (s.files.head s.search.file).iLogRecordsWrite.toInt = s.search.m_dwFilePos.toNat + 1)
      (unread : Unread im im1 stale (s.files.head s.search.file) f s.search.enter s.sLogBuf)
  /-- No file was picked, but the first one that ends in the range or later has a matching
  record although by its head it starts behind the range: every call returns it again. -/
  | again {f : ByteFile} (init : s.search.m_bInit = true) (count : s.search.m_wFileCount = 0)
      (file : s.search.m_wFileIndexStar.toNat < slogLogFilesCountMax)
      (opens : s.files.open s.search.m_wFileIndexStar.toNat = some f)
      (unread : Unread im im1 stale (s.files.head s.search.m_wFileIndexStar.toNat) f
        (enter { s.search with m_wFileNo := 0, m_dwFilePos := 0 }) s.sLogBuf)

/-- The position of a search is one that a call left. -/
def PosOk (s : Search) : Prop :=
  s.m_wFileCount ≠ 0 → s.file < slogLogFilesCountMax → s.m_dwFilePos.toNat < 2 ^ 31

section Call

variable {im : Images} {im1 : Image LogFileLogIndexVer1} {stale stale' : Stale} {s : Sys}

/-- A call that goes through one file, the one in which the search stands. -/
theorem historyLog_last (hinit : s.search.m_bInit = true) {fs : Files} {q : Search}
    (hb : beginSearch im s.files s.search = (fs, q))
    (hlast : q.m_wFileCount.toNat ≤ q.m_wFileNo.toNat + 1) :
    (historyLog im (readLogFileVersion_1 im im1 stale) s).1.isSome ↔
      q.file < slogLogFilesCountMax ∧ ∃ f, fs.open q.file = some f ∧
        Unread im im1 stale (fs.head q.file) f q.enter s.sLogBuf := by
  rw [historyLog_eq _ hinit hb]
  rw [scanFiles_last (s := q.enter) hlast]
  exact and_congr_left' Nat.sub_pos_iff_lt

theorem Search.star_le_file (q : Search) : q.m_wFileIndexStar.toNat ≤ q.file := Nat.le_add_right ..

/-- The files of a call stand at a position that a call left. -/
theorem beginSearch_pos (hpos : PosOk s.search) {fs : Files} {q : Search}
    (hb : beginSearch im s.files s.search = (fs, q)) (hfile : q.file < slogLogFilesCountMax) :
    q.m_dwFilePos.toNat < 2 ^ 31 := by
  by_cases hc : s.search.m_wFileCount = 0
  · obtain ⟨e, hat⟩ := beginSearch_atStart im s.files hc
    rw [hb] at hat
    rw [hat.pos (lt_of_le_of_lt (Search.star_le_file q) hfile)]
    decide
  · rw [beginSearch_of_count hc] at hb
    cases hb
    exact hpos hc hfile

/-- **One call.** -/
theorem historyLog_settled (hpos : PosOk s.search) {fs : Files} {q : Search}
    (hinit : s.search.m_bInit = true) (hb : beginSearch im s.files s.search = (fs, q)) {s' : Sys}
    (hs : (historyLog im (readLogFileVersion_1 im im1 stale) s).2 = s') :
    s'.files = fs ∧ s'.search.filter = q.filter ∧ s'.search.m_wFileCount = q.m_wFileCount ∧
      s'.search.m_wFileIndexStar = q.m_wFileIndexStar ∧ Settled fs s'.search ∧
      (s'.search.file < slogLogFilesCountMax → s'.search.m_dwFilePos.toNat < 2 ^ 31) := by
  subst hs
  rw [historyLog_eq _ hinit hb]
  by_cases hfile : q.file < slogLogFilesCountMax
  · have hq := beginSearch_pos hpos hb hfile
    obtain ⟨hset, hfilter, hcount, hstar, hp⟩ := @scanFiles_settled im im1 stale fs _ _
      q.m_wFileNo.toNat q.enter s.sLogBuf hq rfl rfl _ rfl
    exact ⟨rfl, hfilter, hcount, hstar, hset, fun _ => hp⟩
  · rw [Nat.sub_eq_zero_of_le (not_lt.1 hfile)]
    exact ⟨rfl, rfl, rfl, rfl, fun h => absurd h hfile, fun h => absurd h hfile⟩

/-- The test on the position, for a file that has a record behind it. -/
theorem pos_test_iff {pos : UInt32} {r : Int32} (hpos : pos.toNat < 2 ^ 31)
    (hlt : pos.toInt32.toInt < r.toInt) : r.toUInt32 ≤ pos + 1 ↔ r.toInt = pos.toNat + 1 := by
  have hj := toInt_toInt32 hpos
  have hnat : (r.toUInt32.toNat : Int) = r.toInt := toNat_toUInt32 (by omega)
  have hadd : (pos + 1).toNat = pos.toNat + 1 := by
    rw [UInt32.toNat_add, UInt32.toNat_one]
    omega
  rw [UInt32.le_iff_toNat_le]
  omega

/-- After a call with files, the search standing in the last of them. -/
theorem end_iff_of_count {s' : Sys} (hc : s'.search.m_wFileCount ≠ 0)
    (hset : Settled s'.files s'.search)
    (hpos : s'.search.file < slogLogFilesCountMax → s'.search.m_dwFilePos.toNat < 2 ^ 31)
    (hinit : s'.search.m_bInit = true) :
    (isSearchHistoryComplete s'.search = true →
        (historyLog im (readLogFileVersion_1 im im1 stale) s').1 = none) ↔
      ¬ Left im im1 stale s' := by
  simp only [isSearchHistoryComplete, decide_eq_true_eq, or_iff_right hc]
  constructor
  · intro himp hleft
    cases hleft with
    | again _ count => exact hc count
    | @last f _ _ isLast file opens pos unread =>
      have hsome := (historyLog_last hinit (beginSearch_of_count hc) isLast).2 ⟨file, f, opens, unread⟩
      have hv := unread.imp And.left And.left
      rw [himp ⟨isLast, ?_⟩] at hsome
      · cases hsome
      · rw [hset file f opens hv]
        exact (pos_test_iff (hpos file) unread.lt).2 pos
  · rintro hleft ⟨isLast, htest⟩
    rw [← Option.not_isSome_iff_eq_none]
    intro hsome
    obtain ⟨file, f, opens, unread⟩ :=
      (historyLog_last hinit (beginSearch_of_count hc) isLast).1 hsome
    have hv := unread.imp And.left And.left
    rw [hset file f opens hv] at htest
    exact hleft (.last hinit hc isLast file opens ((pos_test_iff (hpos file) unread.lt).1 htest) unread)

theorem end_iff_of_no_count {fs : Files} {q : Search} (hc : q.m_wFileCount = 0) {s' : Sys}
    (hfiles : s'.files = (beginSearch im fs q).1) (hfilter : s'.search.filter = q.filter)
    (hstar : s'.search.m_wFileIndexStar = (beginSearch im fs q).2.m_wFileIndexStar)
    (hc' : s'.search.m_wFileCount = 0) (hcount : (beginSearch im fs q).2.m_wFileCount = 0)
    (hinit : s'.search.m_bInit = true) :
    (isSearchHistoryComplete s'.search = true →
        (historyLog im (readLogFileVersion_1 im im1 stale) s').1 = none) ↔
      ¬ Left im im1 stale s' := by
  obtain ⟨hstar2, hcount2⟩ := beginSearch_again im fs hc hfilter hc'
  have hpick2 := beginSearch_pick im s'.files hc'
  obtain ⟨e1, hat1⟩ := beginSearch_atStart im fs hc
  obtain ⟨e2, hat2⟩ := beginSearch_atStart im s'.files hc'
  rw [← hfiles, ← hstar] at hstar2
  rw [← hfiles, hcount] at hcount2
  have hhead1 := hat1.head
  rw [← hfiles, ← hstar] at hhead1
  obtain ⟨⟨fs2, q2⟩, hb2⟩ : ∃ p, beginSearch im s'.files s'.search = p := ⟨_, rfl⟩
  rw [hb2] at hpick2 hat2 hstar2 hcount2
  have hstart2 := hat2.head
  rw [hstar2] at hstart2
  have hlast : q2.m_wFileCount.toNat ≤ q2.m_wFileNo.toNat + 1 := by
    rw [hcount2]
    exact Nat.zero_le _
  -- the call starts over at the first record of the same file
  have hsame : s'.search.m_wFileIndexStar.toNat < slogLogFilesCountMax →
      q2 = { s'.search with m_wFileNo := 0, m_dwFilePos := 0 } ∧
        q2.file = s'.search.m_wFileIndexStar.toNat ∧
        fs2.head s'.search.m_wFileIndexStar.toNat = s'.files.head s'.search.m_wFileIndexStar.toNat := by
    intro hlt
    have hlt2 : q2.m_wFileIndexStar.toNat < slogLogFilesCountMax := by rwa [hstar2]
    have hno := hat2.no hlt2
    have hzero := hat2.pos hlt2
    have hhead := hstart2 hlt
    rw [hpick2.heads, hhead1 hlt] at hhead
    refine ⟨?_, ?_, (HeadRead.ok.inj hhead).symm⟩
    · exact eq_of_filter hpick2.filter hno hzero (hcount2.trans hc'.symm) hstar2 hpick2.has
    · show q2.m_wFileIndexStar.toNat + q2.m_wFileNo.toNat = _
      rw [hstar2, hno]
      rfl
  have hiff : (historyLog im (readLogFileVersion_1 im im1 stale) s').1.isSome ↔
      Left im im1 stale s' := by
    rw [historyLog_last hinit hb2 hlast]
    constructor
    · rintro ⟨hfile, f, hopen, hu⟩
      have hlt : s'.search.m_wFileIndexStar.toNat < slogLogFilesCountMax := by
        have := Search.star_le_file q2
        rw [hstar2] at this
        omega
      obtain ⟨rfl, hf, hh⟩ := hsame hlt
      rw [hf] at hu
      rw [hh] at hu
      rw [hpick2.opens] at hopen
      exact .again hinit hc' hlt hopen hu
    · intro hleft
      cases hleft with
      | last _ count => exact absurd hc' count
      | @again f _ _ hlt hopen hu =>
        obtain ⟨rfl, hf, hh⟩ := hsame hlt
        rw [hf, hh, hpick2.opens]
        exact ⟨hlt, f, hopen, hu⟩
  rw [← hiff, Option.not_isSome_iff_eq_none]
  exact ⟨fun h => h (by simp [isSearchHistoryComplete, hc']), fun h _ => h⟩

/-- A call leaves the position of a call. -/
theorem PosOk.history (hpos : PosOk s.search) (stale : Stale) :
    PosOk (historyLog im (readLogFileVersion_1 im im1 stale) s).2.search := by
  cases hinit : s.search.m_bInit with
  | false =>
    rw [historyLog_of_not_init _ hinit]
    exact hpos
  | true =>
    obtain ⟨-, -, -, -, -, h⟩ := @historyLog_settled im im1 stale s hpos _ _ hinit (Prod.eta _).symm _ rfl
    exact fun _ => h

theorem end_iff (hpos : PosOk s.search) {s' : Sys}
    (hs : (historyLog im (readLogFileVersion_1 im im1 stale) s).2 = s') :
    (isSearchHistoryComplete s'.search = true →
        (historyLog im (readLogFileVersion_1 im im1 stale') s').1 = none) ↔
      ¬ Left im im1 stale' s' := by
  cases hinit : s.search.m_bInit with
  | false =>
    rw [historyLog_of_not_init _ hinit] at hs
    subst hs
    rw [historyLog_of_not_init _ hinit]
    refine ⟨fun _ hleft => ?_, fun _ _ => rfl⟩
    cases hleft with
    | last init => cases hinit.symm.trans init
    | again init => cases hinit.symm.trans init
  | true =>
    obtain ⟨hfiles, hfilter, hcount, hstar, hset, hp⟩ :=
      historyLog_settled hpos hinit (Prod.eta (beginSearch im s.files s.search)).symm hs
    rw [beginSearch_filter] at hfilter
    have hinit' : s'.search.m_bInit = true := by
      show s'.search.filter.m_bInit = true
      rw [hfilter]
      exact hinit
    by_cases hc : s'.search.m_wFileCount = 0
    · rw [hc] at hcount
      have hc0 : s.search.m_wFileCount = 0 := by
        by_cases hne : s.search.m_wFileCount = 0
        · exact hne
        · rw [beginSearch_of_count hne] at hcount
          exact hcount.symm
      exact end_iff_of_no_count hc0 hfiles hfilter hstar hc hcount.symm hinit'
    · rw [← hfiles] at hset
      exact end_iff_of_count hc hset hp hinit'

end Call

/-! ## Searches over pages -/

/-- What happens between two calls: a search is set up, the next page of a search has a
`CSLogSearch` of its own that gets the position of the last one, and the files and their
list change. -/
inductive Label where
  | new (q : Search)
  | page (q : Search)
  | files (fs : Files)
  | history (stale : Stale)

/-- The position that `InitDefaultSearch` sets;
mirrors supper_log.cpp:142-146 -/
def initDefaultSearch (q : Search) : Search :=
  { q with m_wFileNo := 0, m_dwFilePos := 0, m_wFileCount := 0, m_wFileIndexStar := 0 }

/-- `SetFileNo`, `SetFilePos`, `SetFileCount` and `SetFileIndexStar` -/
def setPosition (q old : Search) : Search :=
  { q with
    m_wFileNo := old.m_wFileNo
    m_dwFilePos := old.m_dwFilePos
    m_wFileCount := old.m_wFileCount
    m_wFileIndexStar := old.m_wFileIndexStar }

def step (im : Images) (im1 : Image LogFileLogIndexVer1) (s : Sys) : Label → Sys
  | .new q => { s with search := initDefaultSearch q }
  | .page q => { s with search := setPosition q s.search }
  | .files fs => { s with files := fs }
  | .history stale => (historyLog im (readLogFileVersion_1 im im1 stale) s).2

theorem PosOk.step {im : Images} {im1 : Image LogFileLogIndexVer1} {s : Sys} (hpos : PosOk s.search)
    (l : Label) : PosOk (LogSearchEnd.step im im1 s l).search := by
  cases l with
  | new q => exact fun hc => absurd rfl hc
  | page q => exact hpos
  | files fs => exact hpos
  | history stale => exact hpos.history stale

theorem PosOk.run {im : Images} {im1 : Image LogFileLogIndexVer1} (ls : List Label) :
    ∀ {s}, PosOk s.search → PosOk (ls.foldl (LogSearchEnd.step im im1) s).search := by
  induction ls with
  | nil => exact fun h => h
  | cons l ls ih => exact fun h => ih (h.step l)

/-- **The end flag.** After any searches, pages, changes of the files and calls, and one
more call: that a set flag means that the next call returns nothing holds exactly if no
record is left in the sense of `Left`. Before the first call of a search the flag is set, so
there it holds exactly if that call returns nothing. -/
theorem history_end_iff (im : Images) (im1 : Image LogFileLogIndexVer1) (fs : Files) (q : Search)
    (ls : List Label) (stale stale' : Stale) :
    let s := ls.foldl (step im im1) (Sys.init fs (initDefaultSearch q))
    let s' := (historyLog im (readLogFileVersion_1 im im1 stale) s).2
    ((isSearchHistoryComplete s'.search = true →
        (historyLog im (readLogFileVersion_1 im im1 stale') s').1 = none) ↔
      ¬ Left im im1 stale' s') ∧
    ∀ q', isSearchHistoryComplete (step im im1 s (.new q')).search = true := by
  have hinit : PosOk (Sys.init fs (initDefaultSearch q)).search := fun hc => absurd rfl hc
  exact ⟨end_iff (PosOk.run ls hinit) rfl, fun _ => rfl⟩

/-- An image of version 1 without padding. -/
def packedVer1 : Image LogFileLogIndexVer1 :=
  (Image.uint32.prod <| .prod .uint32 <| .prod .int32 <| .prod .int32 <| .prod (.bytes 16) <|
    .prod (.bytes 32) <| .prod .uint32 <| .prod .uint32 <| .prod .int32 <| .prod .int32 <|
    .prod .uint16 <| .prod .uint32 <| .prod .uint64 <| .prod .uint32 .uint32).of
    (fun x => (x.dwCust_1, x.dwCust_2, x.iCust_3, x.iCust_4, x.szCust_5, x.szCust_6,
      x.dwLogConfigId, x.dwLogHost, x.iAppId, x.iModuleId, x.wLogType, x.dwLogSeq, x.qwLogTime,
      x.dwLogContentLen, x.dwLogContentPos))
    (fun (a, b, c, d, e, f, g, h, i, j, k, l, m, n, o) =>
      ⟨a, b, c, d, e, f, g, h, i, j, k, l, m, n, o⟩)
    fun _ => rfl

/-- A call on the two versions without padding. -/
def callPacked (s : Sys) : Option LogOut × Sys :=
  historyLog packed (readLogFileVersion_1 packed packedVer1 fun _ _ _ => .empty) s

/-- **The last record is left out.** A file with two records that both match: after the
first call the flag is set, and the next call returns the second record. -/
theorem history_end_early :
    ∃ o, writeAll [oneChar noCust 98 (by decide), oneChar noCust 98 (by decide)] = some o ∧
      (callPacked (Sys.init (oneFile o) (searchText [98]))).1.isSome ∧
      isSearchHistoryComplete (callPacked (Sys.init (oneFile o) (searchText [98]))).2.search = true ∧
      (callPacked (callPacked (Sys.init (oneFile o) (searchText [98]))).2).1.isSome :=
  ⟨_, rfl, by decide +kernel⟩

end DesPwd.L4.LogSearchEnd
