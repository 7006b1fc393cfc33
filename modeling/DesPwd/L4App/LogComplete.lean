import DesPwd.Core.Drain
import DesPwd.L4App.LogHistory

/-!
# Whether a search finds every record

A search by time returns the records of the files that it picks, one with each call of
`HistoryLog`: from the first file that ends in the range or later to the first one from
there on that starts behind it. The files stand in the list in the order in which they
were created, or in that of their names after `InitLogFiles`, and records may arrive late,
so a file behind the one at which the picking stops can have records of the range
(lib/mtagent_api_open/supper_log.cpp).

* `scanFiles_to`: one call returns the next record that is selected, as it is stored.
* `drains`: repeated calls return the selected records of the files picked.
* `history_complete_iff`: after every history a search without keys returns every record
  that it selects exactly if no file with such a record stands behind a file whose records
  all lie behind the range.
-/
namespace DesPwd.L4.LogComplete

open Bytes Run Drain List LogHistory Nat UInt16
open L4.LogFiles L4.LogWrite L4.LogSearch L4.LogHistory
open Function (update update_self update_of_ne)

/-- A search of all files, without keys. -/
structure Plain (q : Search) : Prop where
  init : q.m_bInit = true
  file : q.m_strLogFile = []
  inc : q.m_stIncKey = []
  excp : q.m_stExcpKey = []

variable {q : Search} {recs : Nat → List Record} {im : Images} {fs : Files} {b : ByteFile}

theorem Plain.congr {s : Search} (hp : Plain q) (h : s.filter = q.filter) : Plain s := by
  have hq : Plain q.filter := ⟨hp.init, hp.file, hp.inc, hp.excp⟩
  rw [← h] at hq
  exact ⟨hq.init, hq.file, hq.inc, hq.excp⟩

theorem Plain.inRange {r : Record} (hp : Plain q) (h : Selected q r = true) :
    q.m_qwTimeStart ≤ r.log.qwLogTime ∧ r.log.qwLogTime ≤ q.m_qwTimeEnd := by
  have htime : inTime q r.log.qwLogTime = true := (Bool.and_eq_true_iff.1 h).1
  exact (of_decide_eq_true htime).resolve_left fun hne => hne hp.file

/-! ## Going through one file -/

section File

variable {im : Images} {f : ByteFile} {rs : List Record} {j : Nat} {r : Record} {q : Search} {st st' : Scan}

theorem Plain.matches (hp : Plain q) (o : LogOut) (text : Bytes) : isLogMatchText q o text = true := by
  unfold isLogMatchText
  rw [hp.inc, hp.excp]
  rfl

/-- How going through a file ends, when the records at `l` are selected. -/
inductive ScanTo (q : Search) (rs : List Record) : List Nat → Bool × Scan → Prop where
  | miss {st' : Scan} (hend : rs.length ≤ st'.search.m_dwFilePos.toNat)
      (hlt : st'.search.m_dwFilePos.toNat < 2 ^ 31) : ScanTo q rs [] (false, st')
  | hit {st' : Scan} {k : Nat} {r : Record} (hr : rs[k]? = some r)
      (hpos : st'.search.m_dwFilePos.toNat = k + 1) (hlt : k + 1 < 2 ^ 31)
      (hout : AsStored r st'.out (bufText st'.sLogBuf)) :
      ScanTo q rs (k :: hits (Selected q) rs (k + 1)) (true, st')

theorem toNat_ofInt_succ (hj : j < slogLogRecordsCountMax) :
    (UInt32.ofInt (j + 1)).toNat = j + 1 := by
  have hmax : slogLogRecordsCountMax = 200000 := rfl
  rw [UInt32.ofInt, UInt32.toNat_ofNat']
  omega

/-- **One file**, from record `j` on. -/
theorem scan_to (hfit : Fits im) (hf : Holds im f rs) (hp : Plain q) (n : Nat) :
    ∀ {j} {st}, BufOk st.sLogBuf → j + n = rs.length → st.search.filter = q.filter →
      st.search.m_dwFilePos.toNat = j → st.out.cust.bCustFlag = 0 →
      ScanTo q rs (hits (Selected q) rs j) (scan im f n j st) := by
  have hmax : slogLogRecordsCountMax = 200000 := rfl
  have hlen := hf.length
  induction n with
  | zero =>
    intro j st _ hjn _ hpos _
    rw [hits_end (by omega)]
    exact .miss (by omega) (by omega)
  | succ n ih =>
    intro j st hb hjn hq hpos hflag
    obtain ⟨r, hj⟩ : ∃ r, rs[j]? = some r := ⟨_, getElem?_eq_getElem (by omega)⟩
    have hj1 := toNat_ofInt_succ (j := j) (by omega)
    have hkeeps := readRecord_keeps im f j st
    have hvisit := readRecord_visit hfit hf hj hb
    rw [scan, hits_step hj, ← Selected.congr hq]
    cases hnext : readRecord im f j st with
    | stop st1 =>
      rw [hnext] at hvisit
      cases hvisit
    | next st1 =>
      rw [hnext] at hvisit hkeeps
      cases hvisit with
      | skip hsel hcust hpos1 =>
        rw [hsel]
        refine ih (hkeeps.buf hb) (by omega)
          ((Search.filter_congr hkeeps.fixed).trans hq) (by rw [hpos1]; exact hj1) ?_
        rw [hcust]
        exact hflag
      | reject _ _ hkeys => exact absurd ((hp.congr hq).matches _ _) hkeys
    | found st1 =>
      rw [hnext] at hvisit
      cases hvisit with
      | found hsel hcust hpos1 hout =>
        rw [hsel]
        refine .hit hj (by rw [hpos1]; exact hj1) (by omega) (hout.1 ?_)
        by_cases hc : r.custData = []
        · refine .inl ?_
          rw [hcust.2 hc]
          exact hflag
        · exact .inr hc

theorem readLogFileVersion_2_to (hfit : Fits im) {h : LogFileHead} (hw : Written im h f rs)
    (hp : Plain q) {s : Search} {b : ByteFile} (hb : BufOk b) (hq : s.filter = q.filter)
    (hpos : s.m_dwFilePos.toNat < 2 ^ 31) :
    ScanTo q rs (hits (Selected q) rs s.m_dwFilePos.toNat)
      (readLogFileVersion_2 im h f ⟨s, .zero, b⟩) := by
  obtain ⟨hf, hok⟩ := hw.holds hfit
  unfold readLogFileVersion_2
  dsimp only
  rw [toInt_toInt32 hpos, hok.count]
  by_cases hle : s.m_dwFilePos.toNat ≤ rs.length
  · refine scan_to hfit hf hp _ hb ?_ hq rfl rfl
    omega
  · rw [show ((rs.length : Int) - s.m_dwFilePos.toNat).toNat = 0 by omega, hits_end (by omega)]
    exact .miss (by show rs.length ≤ s.m_dwFilePos.toNat; omega) hpos

end File

/-! ## Going through the files -/

/-- The search `s` stands in file `i`, at record `p`, with `n` files left; it has picked
`c` files, whose heads are in the list. Without files it still goes through one. -/
structure At (im : Images) (fs : Files) (recs : Nat → List Record) (q : Search) (c : UInt16)
    (n i p : Nat) (s : Search) : Prop where
  filter : s.filter = q.filter
  file : s.file = i
  count : s.m_wFileCount = c
  left : i + n = s.m_wFileIndexStar.toNat + max c.toNat 1
  some : 0 < n
  max : i + n ≤ slogLogFilesCountMax
  pos : s.m_dwFilePos.toNat = p
  small : p < 2 ^ 31
  files : ∀ k, i ≤ k → k < i + n → ∃ f, fs.open k = .some f ∧ Stored im f (fs.head k) (recs k)

/-- How a call ends, when the records at `l` are still to come. -/
inductive FilesTo (im : Images) (fs : Files) (recs : Nat → List Record) (q : Search) (c : UInt16) :
    List (Nat × Nat) → Option LogOut × Search × ByteFile → Prop where
  | miss {s' : Search} {b' : ByteFile} {n i p : Nat} (hat : At im fs recs q c n i p s')
      (hnil : ahead (Selected q) recs n i p = []) : FilesTo im fs recs q c [] (none, s', b')
  | hit {s' : Search} {b' : ByteFile} {n i j : Nat} {r : Record} {out : LogOut}
      (hr : (recs i)[j]? = some r) (hout : AsStored r out (bufText b'))
      (hat : At im fs recs q c n i (j + 1) s') :
      FilesTo im fs recs q c ((i, j) :: ahead (Selected q) recs n i (j + 1)) (some out, s', b')

section Files

variable {im : Images} {fs : Files} {recs : Nat → List Record} {q : Search} {c : UInt16}
  {n i p : Nat} {s s' : Search}

theorem At.move (h : At im fs recs q c n i p s) (hfix : s'.fixed = s.fixed)
    (hlt : s'.m_dwFilePos.toNat < 2 ^ 31) : At im fs recs q c n i s'.m_dwFilePos.toNat s' where
  filter := (Search.filter_congr hfix).trans h.filter
  file := (Search.file_congr hfix).trans h.file
  count := (show s'.fixed.m_wFileCount = s.fixed.m_wFileCount by rw [hfix]).trans h.count
  left := by
    rw [show s'.m_wFileIndexStar = s.m_wFileIndexStar from
      show s'.fixed.m_wFileIndexStar = s.fixed.m_wFileIndexStar by rw [hfix]]
    exact h.left
  some := h.some
  max := h.max
  pos := rfl
  small := hlt
  files := h.files

theorem At.next (h : At im fs recs q c (n + 1) i p s) (hn : 0 < n) :
    At im fs recs q c n (i + 1) 0 s.nextFile where
  filter := h.filter
  file := by
    have := h.max
    rw [Search.file_nextFile (by rw [h.file]; omega), h.file]
  count := h.count
  left := by
    rw [show i + 1 + n = i + (n + 1) by omega]
    exact h.left
  some := hn
  max := by
    have := h.max
    omega
  pos := rfl
  small := by decide
  files k hk hlt := h.files k (by omega) (by omega)

theorem readFile_to (hfit : Fits im) (hp : Plain q) (ver1 : Version1)
    (h : At im fs recs q c n i p s) {b : ByteFile} (hb : BufOk b) :
    ∃ f, fs.open i = some f ∧ ∃ found st, ScanTo q (recs i) (hits (Selected q) (recs i) p) (found, st) ∧
      st.search.fixed = s.fixed ∧ BufOk st.sLogBuf ∧
      readFile im ver1 (fs.head i) f s b =
        some (if found then some st.out else none, st.search, st.sLogBuf) := by
  have hlt : i < i + n := Nat.lt_add_of_pos_right h.some
  obtain ⟨f, hf, hs⟩ := h.files i (le_refl i) hlt
  have hv : (fs.head i).bLogFileVersion = 2 := (hs.written.holds hfit).2.version
  have hkeeps := readLogFileVersion_2_keeps im (fs.head i) f ⟨s, .zero, b⟩
  have hto := readLogFileVersion_2_to hfit hs.written hp hb h.filter (by rw [h.pos]; exact h.small)
  rw [h.pos] at hto
  have he : readFile im ver1 (fs.head i) f s b =
      let x := readLogFileVersion_2 im (fs.head i) f ⟨s, .zero, b⟩
      some (if x.1 then some x.2.out else none, x.2.search, x.2.sLogBuf) := by
    unfold readFile
    rw [if_neg (by rw [hv]; decide), if_pos hv]
  generalize readLogFileVersion_2 im (fs.head i) f ⟨s, .zero, b⟩ = x at hkeeps hto he
  obtain ⟨found, st⟩ := x
  exact ⟨f, hf, found, st, hto, hkeeps.fixed, hkeeps.buf hb, he⟩

/-- **One call.** -/
theorem scanFiles_to (hfit : Fits im) (hp : Plain q) (ver1 : Version1) (m : Nat) :
    ∀ {n i p} {s} {b}, At im fs recs q c n i p s → BufOk b →
      m = slogLogFilesCountMax - i →
      FilesTo im fs recs q c (ahead (Selected q) recs n i p)
        (scanFiles im ver1 fs m i s.m_wFileNo.toNat (s, b)) := by
  induction m with
  | zero =>
    intro n i p s b h _ hm
    have := h.max
    have := h.some
    omega
  | succ m ih =>
    intro n i p s b h hb hm
    obtain ⟨n, rfl⟩ : ∃ n', n = n' + 1 := exists_eq_add_one.2 h.some
    obtain ⟨f, hf, found, st, hto, hfix, hb', he⟩ := readFile_to hfit hp ver1 h hb
    rw [scanFiles_succ, hf]
    dsimp only
    rw [he, ahead]
    generalize hits (Selected q) (recs i) p = l at hto
    cases hto with
    | hit hr hpos hlt hout =>
      have hat := h.move hfix (by omega)
      rw [hpos] at hat
      exact .hit hr hout hat
    | miss hend hlt =>
      have hat := h.move hfix hlt
      have hcount := hat.count
      have hleft := hat.left
      have hfile : st.search.m_wFileIndexStar.toNat + st.search.m_wFileNo.toNat = i := hat.file
      have hno : s.m_wFileNo = st.search.m_wFileNo :=
        show s.fixed.m_wFileNo = st.search.fixed.m_wFileNo by rw [hfix]
      rw [if_neg Bool.false_ne_true, hno]
      dsimp only
      split
      case isTrue hlast =>
        -- the last file
        rw [hcount] at hlast
        obtain rfl : n = 0 := by omega
        refine .miss hat ?_
        rw [ahead, hits_end hend]
        rfl
      case isFalse hlast =>
        rw [hcount] at hlast
        have hn : 0 < n := by omega
        have hnext := hat.next hn
        have hno' : st.search.nextFile.m_wFileNo.toNat = st.search.m_wFileNo.toNat + 1 := by
          have hfile' : st.search.m_wFileIndexStar.toNat + st.search.nextFile.m_wFileNo.toNat = i + 1 :=
            hnext.file
          omega
        have := ih hnext hb' (by omega)
        rw [hno'] at this
        exact this

end Files

/-! ## Picking the files -/

/-- A list of files with the records `recs`; heads that count records are those of their
files. -/
structure Holding (im : Images) (fs : Files) (recs : Nat → List Record) : Prop where
  max : fs.wLogFileCount.toNat ≤ slogLogFilesCountMax
  file : ∀ i < fs.wLogFileCount.toNat, ∃ f h, fs.open i = some f ∧ Stored im f h (recs i) ∧
    (fs.head i = h ∨ (fs.head i).iLogRecordsWrite ≤ 0)

/-- The first `n` files are looked at: those before `star` end before the range, the others
have a record that is not behind it. -/
structure PickedTo (recs : Nat → List Record) (q : Search) (n : Nat) (star count : UInt16) : Prop where
  before : ∀ k < n, k < star.toNat → ∀ r ∈ recs k, r.log.qwLogTime < q.m_qwTimeStart
  inside : ∀ k < n, star.toNat ≤ k → ∃ r ∈ recs k, r.log.qwLogTime ≤ q.m_qwTimeEnd
  count : slogLogFilesCountMax ≤ star.toNat ∧ count = 0 ∨
    star.toNat < n ∧ star.toNat + count.toNat = n

/-- The files that are picked from `n`: the picking stops at a file behind the range. -/
structure PickedOf (recs : Nat → List Record) (q : Search) (n : Nat) (star count : UInt16) : Prop where
  before : ∀ k < n, k < star.toNat → ∀ r ∈ recs k, r.log.qwLogTime < q.m_qwTimeStart
  inside : ∀ k < n, star.toNat ≤ k → k < star.toNat + count.toNat →
    ∃ r ∈ recs k, r.log.qwLogTime ≤ q.m_qwTimeEnd
  stop : star.toNat + count.toNat < n → ∀ r ∈ recs (star.toNat + count.toNat),
    q.m_qwTimeEnd < r.log.qwLogTime
  le : slogLogFilesCountMax ≤ star.toNat ∧ count = 0 ∨ star.toNat < n ∧ star.toNat + count.toNat ≤ n

section Pick

variable {im : Images} {fs fs' : Files} {recs : Nat → List Record} {q : Search}

theorem Holding.readHead (hfs : Holding im fs recs) {i : Nat} (hi : i < fs.wLogFileCount.toNat) :
    ∃ f h, fs.open i = some f ∧ Stored im f h (recs i) ∧ fs.readHead im i = .ok h := by
  obtain ⟨f, h, hf, hs, hor⟩ := hfs.file i hi
  refine ⟨f, h, hf, hs, ?_⟩
  unfold Files.readHead
  split
  case isTrue hpos =>
    rcases hor with rfl | hle
    · rfl
    · rw [Int32.lt_iff_toInt_lt] at hpos
      rw [Int32.le_iff_toInt_le] at hle
      omega
  case isFalse =>
    rw [hf]
    dsimp only
    rw [hs.head]

theorem Holding.pick (hfs : Holding im fs recs) (hc : q.m_wFileCount = 0) :
    Holding im (beginSearch im fs q).1 recs := by
  have hpick := beginSearch_pick im fs hc
  refine ⟨?_, fun i hi => ?_⟩
  · rw [hpick.count]
    exact hfs.max
  rw [hpick.count] at hi
  obtain ⟨f, h, hf, hs, hor⟩ := hfs.file i hi
  obtain ⟨f', h', hf', hs', hr⟩ := hfs.readHead hi
  rw [hpick.opens]
  rcases hpick.head i with he | he
  · rw [he]
    exact ⟨f, h, hf, hs, hor⟩
  · exact ⟨f', h', hf', hs', .inl (HeadRead.ok.inj (he.symm.trans hr))⟩

variable {n : Nat} {star count : UInt16}

section

variable (h : PickedTo recs q n star count)
include h

theorem PickedTo.done (hn : n ≤ slogLogFilesCountMax) : PickedOf recs q n star count := by
  refine ⟨h.before, fun k hk hle _ => h.inside k hk hle, fun hlt => ?_,
    h.count.imp_right fun hc => ⟨hc.1, le_of_eq hc.2⟩⟩
  have := h.count
  omega

theorem PickedTo.skip (hn : n < slogLogFilesCountMax) (hnew : slogLogFilesCountMax ≤ star.toNat)
    (hends : ∀ r ∈ recs n, r.log.qwLogTime < q.m_qwTimeStart) : PickedTo recs q (n + 1) star count where
  before k hk hlt := by
    rcases Nat.lt_succ_iff_lt_or_eq.1 hk with hk | rfl
    · exact h.before k hk hlt
    · exact hends
  inside k hk hle := absurd hle (by omega)
  count := .inl ⟨hnew, (h.count.resolve_right fun hc => by omega).2⟩

/-- The range of files starts at file `n` or before it. -/
structure Started (recs : Nat → List Record) (q : Search) (n : Nat) (star count : UInt16) : Prop where
  before : ∀ k < n, k < star.toNat → ∀ r ∈ recs k, r.log.qwLogTime < q.m_qwTimeStart
  inside : ∀ k < n, star.toNat ≤ k → ∃ r ∈ recs k, r.log.qwLogTime ≤ q.m_qwTimeEnd
  count : star.toNat + count.toNat = n

theorem PickedTo.start (hn : n < slogLogFilesCountMax) :
    Started recs q n (if slogLogFilesCountMax ≤ star.toNat then ofNat n else star) count := by
  have hlim : slogLogFilesCountMax = 400 := rfl
  split
  case isTrue hnew =>
    have hn16 : (ofNat n).toNat = n := toNat_ofNat_of_lt' (by show n < 65536; omega)
    have h0 : count = 0 := (h.count.resolve_right fun hc => by omega).2
    refine ⟨fun k hk _ => h.before k hk (by omega), fun k hk hle => ?_, ?_⟩
    · omega
    · rw [hn16, h0]
      rfl
  case isFalse hnew =>
    exact ⟨h.before, h.inside, (h.count.resolve_left fun hc => hnew hc.1).2⟩

end

theorem Started.stop {m : Nat} (h : Started recs q n star count) (hn : n < m)
    (hbehind : ∀ r ∈ recs n, q.m_qwTimeEnd < r.log.qwLogTime) : PickedOf recs q m star count := by
  have hcount := h.count
  refine ⟨fun k _ hlt => h.before k (by omega) hlt, fun k _ hle hlt => h.inside k (by omega) hle,
    fun _ => ?_, .inr ⟨by omega, by omega⟩⟩
  rw [hcount]
  exact hbehind

theorem Started.add (h : Started recs q n star count)
    (hn : n < slogLogFilesCountMax) (hin : ∃ r ∈ recs n, r.log.qwLogTime ≤ q.m_qwTimeEnd) :
    PickedTo recs q (n + 1) star (count + 1) where
  before k hk hlt := h.before k (by have := h.count; omega) hlt
  inside k hk hle := by
    rcases Nat.lt_succ_iff_lt_or_eq.1 hk with hk | rfl
    · exact h.inside k hk hle
    · exact hin
  count := by
    have hcount := h.count
    have hlim : slogLogFilesCountMax = 400 := rfl
    have hadd : (count + 1).toNat = count.toNat + 1 := by
      rw [UInt16.toNat_add, UInt16.toNat_one, mod_eq_of_lt (by omega)]
    omega

theorem pickRange_of (hfs : Holding im fs recs) (hp : Plain q) (n : Nat) :
    ∀ {i} {star count}, i + n = fs.wLogFileCount.toNat → PickedTo recs q i star count →
      ∃ star' count', pickRange (fs.readHead im) fs.name q n i (star, count) = (star', count') ∧
        PickedOf recs q fs.wLogFileCount.toNat star' count' := by
  have hmax := hfs.max
  induction n with
  | zero =>
    intro i star count hi hto
    refine ⟨star, count, rfl, ?_⟩
    rw [← hi]
    exact hto.done (by omega)
  | succ n ih =>
    intro i star count hi hto
    obtain ⟨f, h, hf, hs, hr⟩ := hfs.readHead (show i < fs.wLogFileCount.toNat by omega)
    have hnofile : ¬ q.m_strLogFile ≠ [] := fun hne => hne hp.file
    rw [pickRange_ok hr, if_neg hnofile]
    split
    case isTrue hskip =>
      refine ih (by omega) (hto.skip (by omega) hskip.1 fun r hmem => ?_)
      exact UInt64.lt_of_le_of_lt (hs.times.le_end r hmem) hskip.2
    case isFalse =>
      have hstarted := hto.start (by omega)
      split
      case isTrue hlast =>
        refine ⟨_, count, rfl, hstarted.stop (by omega) fun r hmem => ?_⟩
        exact UInt64.lt_of_lt_of_le hlast (hs.times.start_le r hmem)
      case isFalse hlast =>
        refine ih (by omega) (hstarted.add (by omega) ?_)
        obtain ⟨r, hmem, he⟩ := hs.times.first
        exact ⟨r, hmem, by rw [he]; exact UInt64.not_lt.1 hlast⟩

theorem pickRange_picked (hfs : Holding im fs recs) (hp : Plain q)
    (hrange : pickRange (fs.readHead im) fs.name q fs.wLogFileCount.toNat 0
      (ofNat slogLogFilesCountMax, 0) = (star, count)) :
    PickedOf recs q fs.wLogFileCount.toNat star count := by
  have h0 : PickedTo recs q 0 (ofNat slogLogFilesCountMax) 0 :=
    ⟨fun k hk => absurd hk (not_lt_zero k), fun k hk => absurd hk (not_lt_zero k),
      .inl ⟨by decide, rfl⟩⟩
  obtain ⟨star', count', he, hpicked⟩ := pickRange_of hfs hp fs.wLogFileCount.toNat (zero_add _) h0
  cases hrange.symm.trans he
  exact hpicked

end Pick

/-! ## Repeated calls -/

/-- Where a search stands, and the records that it has yet to return: before its first
call, or in the files that it picked. -/
inductive Stands (im : Images) (recs : Nat → List Record) (q : Search) : Sys → List (Nat × Nat) → Prop where
  | fresh {s : Sys} {star count : UInt16} (hfs : Holding im s.files recs)
      (hq : s.search.filter = q.filter) (h0 : s.search.m_wFileCount = 0) (hb : BufOk s.sLogBuf)
      (hrange : pickRange (s.files.readHead im) s.files.name q s.files.wLogFileCount.toNat 0
        (ofNat slogLogFilesCountMax, 0) = (star, count)) :
      Stands im recs q s (ahead (Selected q) recs count.toNat star.toNat 0)
  | begun {s : Sys} {c : UInt16} {n i p : Nat} (h0 : c ≠ 0) (hb : BufOk s.sLogBuf)
      (hat : At im s.files recs q c n i p s.search) :
      Stands im recs q s (ahead (Selected q) recs n i p)

/-- A call gave the record at `a`: the search stands behind it, and the result has all that
is stored. -/
def Gives (recs : Nat → List Record) (a : Nat × Nat) (out : LogOut) (s : Sys) : Prop :=
  s.search.file = a.1 ∧ s.search.m_dwFilePos.toNat = a.2 + 1 ∧
    ∃ r, (recs a.1)[a.2]? = some r ∧ AsStored r out (bufText s.sLogBuf)

/-- What a call leaves of `l`. -/
def CallTo (recs : Nat → List Record) (R : Sys → List (Nat × Nat) → Prop) (x : Option LogOut × Sys) :
    List (Nat × Nat) → Prop
  | [] => x.1 = none ∧ R x.2 []
  | a :: l => ∃ out, x.1 = some out ∧ Gives recs a out x.2 ∧ R x.2 l

section Calls

variable {im : Images} {fs : Files} {recs : Nat → List Record} {q : Search} {c star count : UInt16}
  {n i p : Nat} {b : ByteFile}

/-- The loop over the files, from where the search stands. -/
def call (im : Images) (ver1 : Version1) (fs : Files) (s : Search) (b : ByteFile) : Option LogOut × Sys :=
  let x := scanFiles im ver1 fs (slogLogFilesCountMax - s.file) s.file s.m_wFileNo.toNat (s.enter, b)
  (x.1, ⟨fs, x.2.1, x.2.2⟩)

variable {s : Search}

theorem call_to (hfit : Fits im) (hp : Plain q) (ver1 : Version1) (hb : BufOk b)
    (hat : At im fs recs q c n i p s) :
    CallTo recs (fun s' l => s'.files = fs ∧ BufOk s'.sLogBuf ∧ ∃ n i p,
        At im fs recs q c n i p s'.search ∧ ahead (Selected q) recs n i p = l)
      (call im ver1 fs s b) (ahead (Selected q) recs n i p) := by
  have hat' : At im fs recs q c n i p s.enter :=
    ⟨hat.filter, hat.file, hat.count, hat.left, hat.some, hat.max, hat.pos, hat.small, hat.files⟩
  have hto : FilesTo im fs recs q c (ahead (Selected q) recs n i p)
      (scanFiles im ver1 fs (slogLogFilesCountMax - i) i s.m_wFileNo.toNat (s.enter, b)) :=
    scanFiles_to hfit hp ver1 _ hat' hb rfl
  have hbuf : BufOk
      (scanFiles im ver1 fs (slogLogFilesCountMax - i) i s.m_wFileNo.toNat (s.enter, b)).2.2 :=
    scanFiles_buf _ hb
  unfold call
  rw [hat.file]
  generalize scanFiles im ver1 fs (slogLogFilesCountMax - i) i s.m_wFileNo.toNat (s.enter, b) = x
    at hto hbuf
  generalize ahead (Selected q) recs n i p = l at hto
  cases hto with
  | miss hat'' hnil => exact ⟨rfl, rfl, hbuf, _, _, _, hat'', hnil⟩
  | hit hr hout hat'' =>
    exact ⟨_, rfl, ⟨hat''.file, hat''.pos, _, hr, hout⟩, rfl, hbuf, _, _, _, hat'', rfl⟩

theorem CallTo.imp {R R' : Sys → List (Nat × Nat) → Prop} {x : Option LogOut × Sys}
    {l : List (Nat × Nat)} (h : CallTo recs R x l) (hR : ∀ s l, R s l → R' s l) :
    CallTo recs R' x l := by
  cases l with
  | nil => exact ⟨h.1, hR _ _ h.2⟩
  | cons a l =>
    obtain ⟨out, ho, hg, hr⟩ := h
    exact ⟨out, ho, hg, hR _ _ hr⟩

theorem call_begun (hfit : Fits im) (hp : Plain q) (ver1 : Version1) (h0 : c ≠ 0)
    (hb : BufOk b) (hat : At im fs recs q c n i p s) :
    CallTo recs (Stands im recs q) (call im ver1 fs s b) (ahead (Selected q) recs n i p) := by
  refine (call_to hfit hp ver1 hb hat).imp ?_
  rintro ⟨fs', s', b'⟩ l ⟨rfl, hb', n', i', p', hat', rfl⟩
  exact .begun h0 hb' hat'

/-- The search that has picked some files stands at the first record of the first one. -/
theorem at_picked (hfs : Holding im fs recs) (hq : s.filter = q.filter)
    (hpicked : PickedOf recs q fs.wLogFileCount.toNat s.m_wFileIndexStar s.m_wFileCount) {e : Nat}
    (hstart : s.AtStart im fs e) (hlt : s.m_wFileIndexStar.toNat < slogLogFilesCountMax) :
    At im fs recs q s.m_wFileCount (max s.m_wFileCount.toNat 1) s.m_wFileIndexStar.toNat 0 s := by
  have hle := hpicked.le.resolve_left fun h => absurd h.1 (not_le.2 hlt)
  have hmax := hfs.max
  refine ⟨hq, ?_, rfl, rfl, by omega, by omega, ?_, by decide, fun k hk hkn => ?_⟩
  · show s.m_wFileIndexStar.toNat + s.m_wFileNo.toNat = _
    rw [hstart.no hlt]
    rfl
  · rw [hstart.pos hlt]
    rfl
  · obtain ⟨f, h, hf, hs, hr⟩ := hfs.readHead (show k < fs.wLogFileCount.toNat by omega)
    refine ⟨f, hf, ?_⟩
    have hcount := hstart.count hlt
    have hhead : fs.head k = h := by
      rcases eq_or_lt_of_le hk with rfl | hlt'
      · exact HeadRead.ok.inj ((hstart.head hlt).symm.trans hr)
      · exact hstart.loaded hlt k hk (by omega) h hr
    rw [hhead]
    exact hs

/-- No file is picked: the first one that does not end before the range lies behind it. -/
theorem PickedOf.ahead_nil (hp : Plain q) (h : PickedOf recs q n star count) (h0 : count.toNat = 0)
    (hlt : star.toNat < n) : ahead (Selected q) recs (max count.toNat 1) star.toNat 0 = [] := by
  refine eq_nil_iff_forall_not_mem.2 ?_
  rintro ⟨k, j⟩ ha
  obtain ⟨hk, hkn, r, hr, hsel⟩ := mem_ahead.1 ha
  obtain rfl : k = star.toNat + count.toNat := by omega
  have hbehind := h.stop (by omega) r (mem_of_getElem? hr)
  exact absurd (hp.inRange hsel).2 (UInt64.not_le.2 hbehind)

/-- A call that picks no file: the next one picks again. -/
theorem call_none (hfit : Fits im) (hp : Plain q) (ver1 : Version1) (hb : BufOk b)
    (hfs : Holding im fs recs) (hq : s.filter = q.filter) (h0 : s.m_wFileCount = 0)
    (hrange : pickRange (fs.readHead im) fs.name q fs.wLogFileCount.toNat 0
      (ofNat slogLogFilesCountMax, 0) = (s.m_wFileIndexStar, s.m_wFileCount)) {e : Nat}
    (hstart : s.AtStart im fs e) : CallTo recs (Stands im recs q) (call im ver1 fs s b) [] := by
  have hpicked := pickRange_picked hfs hp hrange
  have h0' : s.m_wFileCount.toNat = 0 := by
    rw [h0]
    rfl
  have hagain : ∀ {s'} {b'}, s'.filter = q.filter → s'.m_wFileCount = 0 →
      BufOk b' → Stands im recs q ⟨fs, s', b'⟩ [] := by
    intro s' b' hq' h1 hb'
    have hst : Stands im recs q ⟨fs, s', b'⟩ _ := .fresh hfs hq' h1 hb' hrange
    rw [h0'] at hst
    exact hst
  by_cases hlt : s.m_wFileIndexStar.toNat < slogLogFilesCountMax
  · have hle := hpicked.le.resolve_left fun h => absurd h.1 (not_le.2 hlt)
    have hto := call_to hfit hp ver1 hb (at_picked hfs hq hpicked hstart hlt)
    rw [hpicked.ahead_nil hp h0' hle.1] at hto
    obtain ⟨hnone, hfiles, hb', n', i', p', hat', -⟩ := hto
    refine ⟨hnone, ?_⟩
    exact hagain hat'.filter (hat'.count.trans h0) hb'
  · have hn : slogLogFilesCountMax - s.file = 0 := by
      have : s.m_wFileIndexStar.toNat ≤ s.file := Nat.le_add_right ..
      omega
    unfold call
    rw [hn]
    exact ⟨rfl, hagain hq h0 hb⟩

theorem call_fresh (hfit : Fits im) (hp : Plain q) (ver1 : Version1) {s : Sys}
    (hfs : Holding im s.files recs) (hq : s.search.filter = q.filter) (h0 : s.search.m_wFileCount = 0)
    (hb : BufOk s.sLogBuf)
    (hrange : pickRange (s.files.readHead im) s.files.name q s.files.wLogFileCount.toNat 0
      (ofNat slogLogFilesCountMax, 0) = (star, count)) :
    CallTo recs (Stands im recs q) (historyLog im ver1 s)
      (ahead (Selected q) recs count.toNat star.toNat 0) := by
  have hpick := beginSearch_pick im s.files h0
  have hr := hpick.range
  have hfu : s.search.unpicked.filter = q.filter := hq
  have h0u : s.search.unpicked.m_wFileCount = 0 := h0
  rw [pickRange_congr hfu, h0u] at hr
  obtain ⟨rfl, rfl⟩ := Prod.mk.inj (hr.trans hrange)
  obtain ⟨e, hstart⟩ := beginSearch_atStart im s.files h0
  have hfs' := hfs.pick h0
  have hq' := hpick.filter.trans hq
  -- reading heads into the list does not change what is picked
  have hrange' := hrange
  rw [← hpick.heads, ← hpick.names, ← hpick.count] at hrange'
  rw [historyLog_eq ver1 (hp.congr hq).init (Prod.eta _).symm]
  by_cases hc : (beginSearch im s.files s.search).2.m_wFileCount = 0
  · rw [hc]
    exact call_none hfit hp ver1 hb hfs' hq' hc hrange' hstart
  have hpicked := pickRange_picked hfs' hp hrange'
  have hpos : (beginSearch im s.files s.search).2.m_wFileCount.toNat ≠ 0 := by
    rw [ne_eq, ← UInt16.toNat_zero, UInt16.toNat_inj]
    exact hc
  have hlt : (beginSearch im s.files s.search).2.m_wFileIndexStar.toNat < slogLogFilesCountMax := by
    have := (hpicked.le.resolve_left fun h => hc h.2).1
    exact Nat.lt_of_lt_of_le this hfs'.max
  have hat := at_picked hfs' hq' hpicked hstart hlt
  rw [Nat.max_eq_left (Nat.pos_of_ne_zero hpos)] at hat
  exact call_begun hfit hp ver1 hc hb hat

/-- **Repeated calls.** -/
theorem drains (hfit : Fits im) (hp : Plain q) (ver1 : Version1) :
    Drains (historyLog im ver1) (Gives recs) (Stands im recs q) := by
  have hcall : ∀ {s} {l}, Stands im recs q s l →
      CallTo recs (Stands im recs q) (historyLog im ver1 s) l := by
    intro s l hs
    cases hs with
    | fresh hfs hq h0 hb hrange => exact call_fresh hfit hp ver1 hfs hq h0 hb hrange
    | begun h0 hb hat =>
      have hc : s.search.m_wFileCount ≠ 0 := by
        rw [hat.count]
        exact h0
      rw [historyLog_eq ver1 (hp.congr hat.filter).init (beginSearch_of_count hc)]
      exact call_begun hfit hp ver1 h0 hb hat
  exact ⟨fun hs => hcall hs, fun hs => hcall hs⟩

end Calls

/-! ## Equal records -/

/-- A history of equal records so far: `n` of them in one file, which is open. -/
structure Filling (im : Images) (r : Record) (n : Nat) (s : Hist) : Prop where
  inv : Inv im s
  count : s.st.wLogFileCount.toNat = 1
  cur : s.st.m_wCurFpLogFileIndex.toNat = 0
  fp : s.st.m_fpLogFile = some (name s.st 0)
  first : name s.st 0 = fileName s.st.m_szLogFilePath r.log.qwLogTime
  recs : s.recs (name s.st 0) = List.replicate n r

section Equal

variable {im : Images} {r : Record} {io : CreateIo} {s : Hist}

theorem Filling.start (hfit : Fits im) (write1 : WriteVersion1) {st : WriteFile} (hst : Fresh st)
    (hseq : r.log.dwLogSeq ≠ 0) (hio : Works io) :
    ∃ s, step im write1 ⟨st, fun _ => []⟩ (.write io r) = some s ∧ Filling im r 1 s ∧
      s.st.m_szLogFilePath = st.m_szLogFilePath := by
  have hinv : Inv im ⟨st, fun _ => []⟩ := Inv.fresh hst _
  have hcount : st.wLogFileCount.toNat = 0 := by
    rw [hst.2.1]
    rfl
  have hneeds : needsFile st = true := by
    exact decide_eq_true (.inl hst.2.1)
  have hdrop : dropOldest st = st :=
    (dropOldest_listed hinv.listed).2.2.2.2 (by show st.wLogFileCount.toNat < 400; omega)
  obtain ⟨st', o, ha, hstep, hinv'⟩ := hinv.write_new hfit write1 hseq hneeds hio fun i hi =>
    absurd hi (by show ¬ i < st.wLogFileCount.toNat; omega)
  rw [hdrop] at ha hstep hinv'
  rw [hcount] at hstep hinv'
  have hname : name (put st' 0 o) 0 = fileName st.m_szLogFilePath r.log.qwLogTime := by
    have := ha.lastName
    rw [hcount] at this
    exact (congrFun (name_setHead st' 0 o.stFileHead) 0).trans this
  refine ⟨_, hstep, ⟨hinv', ?_, ?_, ?_, ?_, ?_⟩, ha.path⟩
  · exact ha.count.trans (by rw [hcount])
  · exact ha.cur.trans hcount
  · exact ha.fp.trans (congrArg some hname.symm)
  · rw [hname]
    exact congrArg (fileName · r.log.qwLogTime) ha.path.symm
  · rw [hname]
    exact update_self ..

theorem Filling.hasRoom {n : Nat} (h : Filling im r n s) (hfit : Fits im)
    (hn : n < slogLogRecordsCountMax) : needsFile s.st = false := by
  rw [← Bool.not_eq_true, h.inv.needsFile_iff hfit, h.count, Nat.sub_self, h.recs, length_replicate]
  omega

theorem Filling.write {n : Nat} (h : Filling im r n s) (hfit : Fits im) (write1 : WriteVersion1)
    (hseq : r.log.dwLogSeq ≠ 0) (hn : n < slogLogRecordsCountMax) (io : CreateIo) :
    ∃ s', step im write1 s (.write io r) = some s' ∧ Filling im r (n + 1) s' ∧
      s'.st.m_szLogFilePath = s.st.m_szLogFilePath := by
  have hlen : (s.recs (name s.st 0)).length < slogLogRecordsCountMax := by
    rw [h.recs, length_replicate]
    exact hn
  obtain ⟨o, hwrite, hinv⟩ := h.inv.put write1 hfit (show 0 + 1 = _ from h.count.symm) h.cur hlen r
  have hneeds := h.hasRoom hfit hn
  have hcur : ¬ slogLogFilesCountMax ≤ s.st.m_wCurFpLogFileIndex.toNat := by
    rw [h.cur]
    decide
  have hname : name (put s.st 0 o) 0 = name s.st 0 :=
    congrFun (name_setHead s.st 0 o.stFileHead) 0
  refine ⟨_, ?_, ⟨hinv, h.count, h.cur, ?_, ?_, ?_⟩, rfl⟩
  · unfold LogHistory.step
    dsimp only
    unfold writeLogRecord
    rw [if_neg hseq, hneeds]
    unfold writeCurrent
    rw [if_neg hcur, if_neg hcur, openCurrent_of_open h.fp]
    dsimp only
    rw [hwrite]
    simp [note, hneeds]
  · exact h.fp
  · exact h.first
  · dsimp only
    rw [hname, update_self, h.recs, replicate_succ']

theorem Filling.run (hfit : Fits im) (write1 : WriteVersion1) (hseq : r.log.dwLogSeq ≠ 0)
    (io : CreateIo) (k : Nat) : ∀ {n} {s}, Filling im r n s →
      n + k ≤ slogLogRecordsCountMax →
      ∃ s', Run.run (step im write1) (List.replicate k (.write io r)) s = some s' ∧
        Filling im r (n + k) s' ∧ s'.st.m_szLogFilePath = s.st.m_szLogFilePath := by
  induction k with
  | zero => exact fun {n s} h _ => ⟨s, rfl, h, rfl⟩
  | succ k ih =>
    intro n s h hle
    obtain ⟨s1, hstep, h1, hpath⟩ := h.write hfit write1 hseq (by omega) io
    obtain ⟨s2, hrun, h2, hpath2⟩ := ih h1 (by omega)
    refine ⟨s2, ?_, ?_, hpath2.trans hpath⟩
    · rw [replicate_succ, Run.run, hstep]
      exact hrun
    · rw [show n + (k + 1) = n + 1 + k by omega]
      exact h2

theorem Filling.full (hfit : Fits im) (write1 : WriteVersion1) {st : WriteFile} (hst : Fresh st)
    (hseq : r.log.dwLogSeq ≠ 0) (hio : Works io) :
    ∃ s, Run.run (step im write1)
        (List.replicate slogLogRecordsCountMax (.write io r)) ⟨st, fun _ => []⟩ = some s ∧
      Filling im r slogLogRecordsCountMax s ∧ s.st.m_szLogFilePath = st.m_szLogFilePath := by
  obtain ⟨n, hn⟩ : ∃ n, slogLogRecordsCountMax = 1 + n := ⟨199999, rfl⟩
  obtain ⟨s1, hstep, h1, hpath1⟩ := Filling.start hfit write1 hst hseq hio
  obtain ⟨s2, hrun, h2, hpath2⟩ := Filling.run hfit write1 hseq io n h1 (le_of_eq hn.symm)
  rw [hn, add_comm, replicate_succ, Run.run, hstep, add_comm n 1]
  exact ⟨s2, hrun, h2, hpath2.trans hpath1⟩

theorem Filling.rotate (h : Filling im r slogLogRecordsCountMax s) (hfit : Fits im)
    (write1 : WriteVersion1) {r' : Record} (hseq : r'.log.dwLogSeq ≠ 0) (hio : Works io)
    (hne : fileName s.st.m_szLogFilePath r.log.qwLogTime ≠
      fileName s.st.m_szLogFilePath r'.log.qwLogTime) :
    ∃ s', step im write1 s (.write io r') = some s' ∧ Inv im s' ∧
      s'.st.wLogFileCount.toNat = 2 ∧
      s'.recs (name s'.st 0) = List.replicate slogLogRecordsCountMax r ∧
      s'.recs (name s'.st 1) = [r'] := by
  have hneeds : needsFile s.st = true := by
    rw [h.inv.needsFile_iff hfit, h.count, h.recs, length_replicate]
    exact .inr (le_refl _)
  have hdrop : dropOldest s.st = s.st :=
    (dropOldest_listed h.inv.listed).2.2.2.2 (by rw [h.count]; decide)
  obtain ⟨st', o, ha, hstep, hinv⟩ := h.inv.write_new hfit write1 hseq hneeds hio fun i hi => by
    obtain rfl : i = 0 := by
      have := h.count
      omega
    rw [h.first]
    exact hne
  rw [hdrop] at ha hstep hinv
  rw [h.count] at hstep hinv
  have hname : name (put st' 1 o) = name st' := name_setHead st' 1 o.stFileHead
  have hname0 : name st' 0 = name s.st 0 := (ha.others 0 (by rw [h.count]; decide)).1
  have hname1 : name st' 1 = fileName s.st.m_szLogFilePath r'.log.qwLogTime := by
    have := ha.lastName
    rwa [h.count] at this
  refine ⟨_, hstep, hinv, ?_, ?_, ?_⟩
  · exact ha.count.trans (by rw [h.count])
  · dsimp only
    rw [hname, hname0, Function.update_of_ne, h.recs]
    rw [h.first]
    exact hne
  · rw [hname, hname1]
    exact update_self ..

end Equal

/-! ## Every record -/

theorem stands_fresh (hfs : Holding im fs recs)
    (hp : Plain q) (h0 : q.m_wFileCount = 0) (hb : BufOk b) :
    ∃ star count, PickedOf recs q fs.wLogFileCount.toNat star count ∧
      Stands im recs q ⟨fs, q, b⟩ (ahead (Selected q) recs count.toNat star.toNat 0) := by
  obtain ⟨star, count, hrange⟩ : ∃ star count, pickRange (fs.readHead im) fs.name q
      fs.wLogFileCount.toNat 0 (ofNat slogLogFilesCountMax, 0) = (star, count) := ⟨_, _, rfl⟩
  exact ⟨star, count, pickRange_picked hfs hp hrange, .fresh hfs rfl h0 hb hrange⟩

theorem PickedOf.not_behind (hfs : Holding im fs recs) {star count : UInt16}
    (h : PickedOf recs q fs.wLogFileCount.toNat star count) {m : Nat} (hm : m < fs.wLogFileCount.toNat)
    (hlt : m < star.toNat + count.toNat) (hle : q.m_qwTimeStart ≤ q.m_qwTimeEnd) :
    ¬ ∀ r ∈ recs m, q.m_qwTimeEnd < r.log.qwLogTime := by
  intro hbehind
  rcases lt_or_ge m star.toNat with hms | hms
  · obtain ⟨f, hd, -, hs, -⟩ := hfs.file m hm
    obtain ⟨r, hr, -⟩ := hs.times.first
    have hlt' := UInt64.lt_of_lt_of_le (h.before m hm hms r hr) hle
    exact UInt64.lt_irrefl _ (UInt64.lt_trans hlt' (hbehind r hr))
  · obtain ⟨r, hr, hend⟩ := h.inside m hm hms hlt
    exact absurd hend (UInt64.not_le.2 (hbehind r hr))

/-- Every record of the first `n` files that `q` selects is returned by some call. -/
def Complete (im : Images) (ver1 : Version1) (recs : Nat → List Record) (n : Nat) (q : Search)
    (s : Sys) : Prop :=
  ∀ i < n, ∀ j r, (recs i)[j]? = some r → Selected q r = true →
    ∃ k, GivesAt (historyLog im ver1) (Gives recs) s (i, j) k

/-- No file with a record that `q` selects stands behind one whose records all lie behind
the time range. -/
def InOrder (recs : Nat → List Record) (n : Nat) (q : Search) : Prop :=
  ∀ i < n, ∀ m < i, (∀ r ∈ recs m, q.m_qwTimeEnd < r.log.qwLogTime) →
    ∀ r ∈ recs i, Selected q r = false

/-- **The search of a list.** -/
theorem complete_iff (hfit : Fits im) (ver1 : Version1) (hfs : Holding im fs recs) (hp : Plain q)
    (h0 : q.m_wFileCount = 0) (hb : BufOk b) :
    Complete im ver1 recs fs.wLogFileCount.toNat q ⟨fs, q, b⟩ ↔
      InOrder recs fs.wLogFileCount.toNat q := by
  obtain ⟨star, count, hpicked, hstands⟩ := stands_fresh hfs hp h0 hb
  have hgives := (drains hfit hp ver1).gives_iff
    (fun h h' => Prod.ext (h.1.symm.trans h'.1) (by have := h.2.1.symm.trans h'.2.1; omega)) hstands
  constructor
  · intro hall i hi m hm hbehind r hr
    rw [← Bool.not_eq_true]
    intro hsel
    obtain ⟨j, hj⟩ := mem_iff_getElem?.1 hr
    obtain ⟨hle, hlt, -⟩ := mem_ahead.1 ((hgives (i, j)).1 (hall i hi j r hj hsel))
    obtain ⟨hstart, hend⟩ := hp.inRange hsel
    exact hpicked.not_behind hfs (lt_trans hm hi) (by omega) (UInt64.le_trans hstart hend) hbehind
  · intro hord i hi j r hj hsel
    obtain ⟨hstart, hend⟩ := hp.inRange hsel
    have hr := mem_of_getElem? hj
    refine (hgives (i, j)).2 (mem_ahead.2 ⟨?_, ?_, r, hj, hsel⟩)
    · refine not_lt.1 fun hlt => ?_
      exact absurd hstart (UInt64.not_le.2 (hpicked.before i hi hlt r hr))
    refine not_le.1 fun hle => ?_
    -- the picking stopped at a file behind the range
    have hstop := hpicked.stop (by omega)
    rcases eq_or_lt_of_le hle with he | hlt
    · rw [he] at hstop
      exact absurd hend (UInt64.not_le.2 (hstop r hr))
    · cases hsel.symm.trans (hord i hi _ hlt hstop r hr)

/-- The first file lies behind the range: no call returns a record. -/
theorem none_of_first_behind (hfit : Fits im) (ver1 : Version1)
    (hfs : Holding im fs recs) (hp : Plain q)
    (h0 : q.m_wFileCount = 0) (hb : BufOk b) (hn : 0 < fs.wLogFileCount.toNat)
    (hbehind : ∀ r ∈ recs 0, q.m_qwTimeEnd < r.log.qwLogTime) (hle : q.m_qwTimeStart ≤ q.m_qwTimeEnd) :
    ∀ n, (historyLog im ver1 (after (historyLog im ver1) n ⟨fs, q, b⟩)).1 = none := by
  obtain ⟨star, count, hpicked, hstands⟩ := stands_fresh hfs hp h0 hb
  have hnil : ahead (Selected q) recs count.toNat star.toNat 0 = [] := by
    refine eq_nil_iff_forall_not_mem.2 ?_
    rintro ⟨k, j⟩ ha
    obtain ⟨hk, hkn, -⟩ := mem_ahead.1 ha
    exact hpicked.not_behind hfs hn (by omega) hle hbehind
  rw [hnil] at hstands
  exact (drains hfit hp ver1).none_of_nil hstands

theorem holding_files {s : Hist} (h : Inv im s) :
    Holding im (files s.st) fun i => s.recs (name s.st i) := by
  refine ⟨h.listed.max, fun i hi => ?_⟩
  rcases h.listed.heads i hi with he | he
  · obtain ⟨f, hf, hs⟩ := h.listed.stored_exact he
    exact ⟨f, _, hf, hs, .inl rfl⟩
  · obtain ⟨f, hd, hf, hs⟩ := h.listed.stored hi
    exact ⟨f, hd, hf, hs, .inr he⟩

/-- **A search by time after any history.** A fresh search without keys returns every
record of the list that it selects exactly if no file with such a record stands behind a
file whose records all lie behind the time range. -/
theorem history_complete_iff {im : Images} (hfit : Fits im) (write1 : WriteVersion1) (ver1 : Version1)
    {st : WriteFile} (hst : Fresh st) {ls : List LogHistory.Label}
    (hok : Meets (step im write1) Ok ls ⟨st, fun _ => []⟩) :
    ∃ s, run (step im write1) ls ⟨st, fun _ => []⟩ = some s ∧
      ∀ q b, Plain q → q.m_wFileCount = 0 → BufOk b →
        (Complete im ver1 (fun i => s.recs (name s.st i)) s.st.wLogFileCount.toNat q
            ⟨files s.st, q, b⟩ ↔
          InOrder (fun i => s.recs (name s.st i)) s.st.wLogFileCount.toNat q) := by
  obtain ⟨s, hr, hinv⟩ := (Inv.fresh hst fun _ => []).run hfit write1 hok
  exact ⟨s, hr, fun q b hp h0 hb => complete_iff hfit ver1 (holding_files hinv) hp h0 hb⟩

/-- A record of app 7 at the time `t`. -/
def timed (t : UInt64) : Record where
  log := ⟨noCust, 1, 1, 7, 1, 4, 1, t⟩
  text := [98]
  noNul := by decide

/-- A search of app 7 for all records from `t1` to `t2`. -/
def searchTime (t1 t2 : UInt64) : Search :=
  { searchText [] with m_stIncKey := [], m_qwTimeStart := t1, m_qwTimeEnd := t2 }

theorem plain_searchTime (t1 t2 : UInt64) : Plain (searchTime t1 t2) := ⟨rfl, rfl, rfl, rfl⟩

/-- A directory without log files. -/
def emptyDir : WriteFile where
  m_szLogFilePath := [47]
  wLogFileCount := 0
  stFiles _ := ⟨[], 0, zeroHead⟩
  m_pAppInfo := none
  m_fpLogFile := none
  m_wCurFpLogFileIndex := 400
  disk _ := none

theorem fresh_emptyDir : Fresh emptyDir := ⟨by decide, rfl, rfl, fun _ => rfl⟩

/-- Files can be created. -/
def allIo : CreateIo := ⟨true, true, slogLogRecordsCountMax⟩

theorem works_allIo : Works allIo := ⟨rfl, rfl, le_refl _⟩

def noWrite1 : WriteVersion1 := fun _ _ => none

theorem bufOk_init (fs : Files) (q : Search) : BufOk (Sys.init fs q).sLogBuf := ⟨rfl, fun _ _ => rfl⟩

theorem history_complete_one_record :
    ∃ s, run (step packed noWrite1) [.write allIo (timed 5)] ⟨emptyDir, fun _ => []⟩ = some s ∧
      ∃ k, GivesAt (historyLog packed noVersion1) (Gives fun i => s.recs (name s.st i))
        (Sys.init (files s.st) (searchTime 5 5)) (0, 0) k := by
  have hok : Meets (step packed noWrite1) Ok [.write allIo (timed 5)] ⟨emptyDir, fun _ => []⟩ :=
    ⟨fun _ => ⟨works_allIo, fun i hi => absurd hi (not_lt_zero i)⟩, fun _ _ => trivial⟩
  obtain ⟨s, hr, hall⟩ := history_complete_iff fits_packed noWrite1 noVersion1 fresh_emptyDir hok
  obtain ⟨s', hstep, hfill, -⟩ := Filling.start fits_packed noWrite1 fresh_emptyDir
    (show (timed 5).log.dwLogSeq ≠ 0 by decide) works_allIo
  have hs : s' = s := by
    rw [run, hstep] at hr
    exact Option.some.inj hr
  subst hs
  have hcomplete := (hall (searchTime 5 5) _ (plain_searchTime 5 5) rfl
    (bufOk_init (files s'.st) (searchTime 5 5))).2 fun i hi m hm => by
      have := hfill.count
      omega
  refine ⟨s', hr, hcomplete 0 (by rw [hfill.count]; decide) 0 (timed 5) ?_ ?_⟩
  · exact congrArg (·[0]?) hfill.recs
  · decide

/-- **The disk after any history.** The files of the list are there under different names, and
every file has the records written to it, with their number and times in its head. -/
theorem history_on_disk {im : Images} (hfit : Fits im) (write1 : WriteVersion1) {st : WriteFile}
    (hst : Fresh st) {ls : List LogHistory.Label}
    (hok : Meets (step im write1) Ok ls ⟨st, fun _ => []⟩) :
    ∃ s, run (step im write1) ls ⟨st, fun _ => []⟩ = some s ∧ Listed im s.st s.recs := by
  obtain ⟨s, hr, hinv⟩ := (Inv.fresh hst fun _ => []).run hfit write1 hok
  exact ⟨s, hr, hinv.listed⟩

/-- Two records, and the file removed. -/
theorem history_on_disk_two_records : ∃ s, run (step packed noWrite1)
    [.write allIo (timed 5), .write allIo (timed 5), .remove] ⟨emptyDir, fun _ => []⟩ = some s ∧
      Listed packed s.st s.recs := by
  have hseq : (timed 5).log.dwLogSeq ≠ 0 := by decide
  obtain ⟨s1, hs1, h1, -⟩ := Filling.start fits_packed noWrite1 fresh_emptyDir hseq works_allIo
  obtain ⟨s2, hs2, h2, -⟩ := h1.write fits_packed noWrite1 hseq (by decide) allIo
  refine history_on_disk fits_packed noWrite1 fresh_emptyDir ((Meets.cons_iff hs1).mpr
    ⟨fun _ => ⟨works_allIo, fun i hi => absurd hi (not_lt_zero i)⟩,
      (Meets.cons_iff hs2).mpr ⟨fun hneeds => ?_, ?_, fun _ _ => trivial⟩⟩)
  · rw [h1.hasRoom fits_packed (by decide)] at hneeds
    cases hneeds
  · show 0 < s2.st.wLogFileCount.toNat
    rw [h2.count]
    decide

/-- **A record that arrives late.** The first file is filled with records of one time, the
record before that time goes into the second one. A search for its time picks no file. -/
theorem history_late_record : ∃ s, run (step packed noWrite1)
        (List.replicate slogLogRecordsCountMax (.write allIo (timed 500)) ++ [.write allIo (timed 300)])
        ⟨emptyDir, fun _ => []⟩ = some s ∧
      s.st.wLogFileCount.toNat = 2 ∧ s.recs (name s.st 1) = [timed 300] ∧
      Selected (searchTime 200 400) (timed 300) = true ∧
      ∀ n, (historyLog packed noVersion1 (after (historyLog packed noVersion1) n
        (Sys.init (files s.st) (searchTime 200 400)))).1 = none := by
  have hfit := fits_packed
  obtain ⟨s1, hrun, hfull, hpath⟩ := Filling.full hfit noWrite1 fresh_emptyDir
    (show (timed 500).log.dwLogSeq ≠ 0 by decide) works_allIo
  obtain ⟨s, hstep, hinv, hcount, hrecs0, hrecs1⟩ := hfull.rotate hfit noWrite1
    (show (timed 300).log.dwLogSeq ≠ 0 by decide) works_allIo (by rw [hpath]; decide)
  refine ⟨s, ?_, hcount, hrecs1, by decide, ?_⟩
  · rw [run_append, hrun, Option.bind_some, run, hstep]
    rfl
  refine none_of_first_behind hfit noVersion1 (holding_files hinv) (plain_searchTime 200 400) rfl
    (bufOk_init (files s.st) (searchTime 200 400)) ?_ (fun r hr => ?_) (by decide)
  · show 0 < s.st.wLogFileCount.toNat
    omega
  · rw [hrecs0] at hr
    rw [eq_of_mem_replicate hr]
    decide

end DesPwd.L4.LogComplete
