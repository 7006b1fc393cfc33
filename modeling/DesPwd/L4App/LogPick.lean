import DesPwd.L4App.LogSearch

/-!
# The files that a search goes through

The first call of a search picks its files: `m_wFileIndexStar` is the first file that
ends in the time range or later, `m_wFileCount` how many files there are from it to the
first one that starts behind the range. Heads that are not in the list yet are read
from the files (lib/mtagent_api_open/supper_log.cpp).

* `pickFiles_spec`: the picking depends on the heads and names alone, and reading a
  head into the list changes neither.
* `beginSearch_again`: a search that picked no file picks the same again.
* `scanFiles_succ`: the loop over the files, one file at a time.
* `history_log_iff`: the record returned is the one stored exactly if it has custom
  data, or no record that was passed in the same file and call had some.
-/
namespace DesPwd.L4.LogSearch

open Bytes Run L4.LogFiles L4.LogWrite Search UInt16
open L1.LogCust (Cust)

/-! ## The heads -/

/-- The head of a file, as the picking finds it. -/
inductive HeadRead where
  | noFile
  | noHead
  | ok (h : LogFileHead)

def Files.readHead (im : Images) (fs : Files) (i : Nat) : HeadRead :=
  if 0 < (fs.head i).iLogRecordsWrite then .ok (fs.head i)
  else
    match fs.open i with
    | none => .noFile
    | some f =>
      match im.head.read f 0 with
      | none => .noHead
      | some h => .ok h

def Files.setHead (fs : Files) (i : Nat) (h : LogFileHead) : Files :=
  { fs with stFiles := Function.update fs.stFiles i { fs.stFiles i with stFileHead := h } }

def Files.name (fs : Files) (i : Nat) : Bytes := (fs.stFiles i).szAbsFileName

section SetHead

variable {im : Images} {fs fs' : Files} {i : Nat} {h : LogFileHead}

@[simp] theorem Files.name_setHead (fs : Files) (i : Nat) (h : LogFileHead) :
    (fs.setHead i h).name = fs.name := by
  funext k
  by_cases hk : k = i
  · subst hk
    simp [Files.name, Files.setHead]
  · simp [Files.name, Files.setHead, Function.update_of_ne hk]

@[simp] theorem Files.open_setHead (fs : Files) (i : Nat) (h : LogFileHead) :
    (fs.setHead i h).open = fs.open := by
  funext k
  exact congrArg fs.disk (congrFun (fs.name_setHead i h) k)

@[simp] theorem Files.head_setHead_self (fs : Files) (i : Nat) (h : LogFileHead) :
    (fs.setHead i h).head i = h := by
  simp [Files.head, Files.setHead]

theorem Files.head_setHead_of_ne {k : Nat} (hk : k ≠ i) : (fs.setHead i h).head k = fs.head k := by
  simp [Files.head, Files.setHead, Function.update_of_ne hk]

theorem loadHead_eq (im : Images) (fs : Files) (i : Nat) : loadHead im fs i =
      match fs.readHead im i with
      | .noFile => .noFile
      | .noHead => .noHead
      | .ok h => .ok (fs.setHead i h) := by
  unfold loadHead Files.readHead
  split
  case isTrue =>
    have hset : fs.setHead i (fs.head i) = fs := by
      unfold Files.setHead Files.head
      rw [Function.update_eq_self]
    dsimp only
    rw [hset]
  case isFalse =>
    cases fs.open i with
    | none => rfl
    | some f =>
      cases hr : im.head.read f 0 with
      | none => simp only [hr]
      | some h =>
        simp only [hr]
        rfl

/-- A head that is in the list now is what would be read. -/
theorem Files.readHead_setHead (hr : fs.readHead im i = .ok h) :
    (fs.setHead i h).readHead im = fs.readHead im := by
  funext k
  by_cases hk : k = i
  · subst hk
    rw [hr]
    unfold Files.readHead at hr ⊢
    rw [fs.head_setHead_self, fs.open_setHead]
    split
    · rfl
    rename_i h0
    split at hr
    · cases hr
      exact absurd ‹_› h0
    · exact hr
  · unfold Files.readHead
    rw [Files.head_setHead_of_ne hk, fs.open_setHead]

end SetHead

/-! ## The range of files -/

/-- `m_wFileIndexStar` and `m_wFileCount` after the loop that picks files, from file `i`
on. -/
def pickRange (heads : Nat → HeadRead) (names : Nat → Bytes) (s : Search) :
    Nat → Nat → UInt16 × UInt16 → UInt16 × UInt16
  | 0, _, p => p
  | n + 1, i, (star, count) =>
    match heads i with
    | .noFile => (star, count)
    | .noHead => pickRange heads names s n (i + 1) (star, count)
    | .ok h =>
      if s.m_strLogFile ≠ [] then
        if s.m_strLogFile <:+: names i then (ofNat i, 1)
        else pickRange heads names s n (i + 1) (star, count)
      else if slogLogFilesCountMax ≤ star.toNat ∧ h.qwLogTimeEnd < s.m_qwTimeStart then
        pickRange heads names s n (i + 1) (star, count)
      else
        let star := if slogLogFilesCountMax ≤ star.toNat then ofNat i else star
        if s.m_qwTimeEnd < h.qwLogTimeStart then (star, count)
        else pickRange heads names s n (i + 1) (star, count + 1)

variable {i : Nat} {s s' : Search} {im : Images} {fs : Files}

theorem pickRange_ok {heads : Nat → HeadRead} {h : LogFileHead} (hr : heads i = .ok h)
    (names : Nat → Bytes) (s : Search) (n : Nat) (star count : UInt16) :
    pickRange heads names s (n + 1) i (star, count) =
      if s.m_strLogFile ≠ [] then
        if s.m_strLogFile <:+: names i then (ofNat i, 1)
        else pickRange heads names s n (i + 1) (star, count)
      else if slogLogFilesCountMax ≤ star.toNat ∧ h.qwLogTimeEnd < s.m_qwTimeStart then
        pickRange heads names s n (i + 1) (star, count)
      else if s.m_qwTimeEnd < h.qwLogTimeStart then
        (if slogLogFilesCountMax ≤ star.toNat then ofNat i else star, count)
      else
        pickRange heads names s n (i + 1)
          (if slogLogFilesCountMax ≤ star.toNat then ofNat i else star, count + 1) := by
  rw [pickRange, hr]

theorem pickRange_congr (h : s'.filter = s.filter) (heads : Nat → HeadRead)
    (names : Nat → Bytes) (n i : Nat) (p : UInt16 × UInt16) :
    pickRange heads names s' n i p = pickRange heads names s n i p := by
  have hfile : s'.m_strLogFile = s.m_strLogFile :=
    show s'.filter.m_strLogFile = s.filter.m_strLogFile by rw [h]
  have hstart : s'.m_qwTimeStart = s.m_qwTimeStart :=
    show s'.filter.m_qwTimeStart = s.filter.m_qwTimeStart by rw [h]
  have hend : s'.m_qwTimeEnd = s.m_qwTimeEnd :=
    show s'.filter.m_qwTimeEnd = s.filter.m_qwTimeEnd by rw [h]
  induction n generalizing i p with
  | zero => rfl
  | succ n ih => simp [pickRange, hfile, hstart, hend, ih]

/-- The picking has come to file `i`: once there is a first file the search stands at its
first record, and the heads from there on are in the list. -/
structure Search.AtStart (im : Images) (fs : Files) (i : Nat) (s : Search) : Prop where
  none : slogLogFilesCountMax ≤ s.m_wFileIndexStar.toNat → i ≤ slogLogFilesCountMax →
    s.m_wFileCount = 0
  no : s.m_wFileIndexStar.toNat < slogLogFilesCountMax → s.m_wFileNo = 0
  pos : s.m_wFileIndexStar.toNat < slogLogFilesCountMax → s.m_dwFilePos = 0
  head : s.m_wFileIndexStar.toNat < slogLogFilesCountMax →
    fs.readHead im s.m_wFileIndexStar.toNat = .ok (fs.head s.m_wFileIndexStar.toNat)
  count : s.m_wFileIndexStar.toNat < slogLogFilesCountMax →
    s.m_wFileIndexStar.toNat + s.m_wFileCount.toNat ≤ i
  loaded : s.m_wFileIndexStar.toNat < slogLogFilesCountMax → ∀ k, s.m_wFileIndexStar.toNat ≤ k →
    k < i → ∀ h, fs.readHead im k = .ok h → fs.head k = h

section AtStart

variable {im : Images} {fs : Files} {s : Search} {i : Nat} {h : LogFileHead}

theorem Search.AtStart.setHead (hs : s.AtStart im fs i) (hr : fs.readHead im i = .ok h) :
    s.AtStart im (fs.setHead i h) i where
  none := hs.none
  no := hs.no
  pos := hs.pos
  head hlt := by
    rw [Files.readHead_setHead hr]
    by_cases hi : s.m_wFileIndexStar.toNat = i
    · rw [hi, fs.head_setHead_self, hr]
    · rw [Files.head_setHead_of_ne hi, hs.head hlt]
  count := hs.count
  loaded hlt k hk hki h' hh := by
    rw [Files.readHead_setHead hr] at hh
    rw [Files.head_setHead_of_ne (ne_of_lt hki)]
    exact hs.loaded hlt k hk hki h' hh

theorem Search.AtStart.next (hs : s.AtStart im fs i)
    (hi : ∀ h, fs.readHead im i = .ok h → fs.head i = h) : s.AtStart im fs (i + 1) where
  none h400 hle := hs.none h400 (Nat.le_of_succ_le hle)
  no := hs.no
  pos := hs.pos
  head := hs.head
  count hlt := Nat.le_succ_of_le (hs.count hlt)
  loaded hlt k hk hki := by
    rcases Nat.lt_succ_iff_lt_or_eq.1 hki with hki | rfl
    · exact hs.loaded hlt k hk hki
    · exact hi

theorem Search.AtStart.add (hs : s.AtStart im (fs.setHead i h) i) (hr : fs.readHead im i = .ok h)
    (hout : slogLogFilesCountMax ≤ s.m_wFileIndexStar.toNat → slogLogFilesCountMax ≤ i) :
    Search.AtStart im (fs.setHead i h) (i + 1) { s with m_wFileCount := s.m_wFileCount + 1 } where
  none h400 hle := absurd (le_trans hle (hout h400)) (Nat.not_succ_le_self i)
  no := hs.no
  pos := hs.pos
  head := hs.head
  count hlt := by
    have hcount := hs.count hlt
    have hadd : (s.m_wFileCount + 1).toNat ≤ s.m_wFileCount.toNat + 1 := by
      exact Nat.mod_le _ _
    show s.m_wFileIndexStar.toNat + (s.m_wFileCount + 1).toNat ≤ i + 1
    omega
  loaded := by
    refine (hs.next fun h' hh => ?_).loaded
    rw [Files.readHead_setHead hr, hr] at hh
    rw [fs.head_setHead_self]
    exact HeadRead.ok.inj hh

theorem Search.AtStart.startAt (hs : s.AtStart im (fs.setHead i h) i) (hr : fs.readHead im i = .ok h)
    (hi : i < 2 ^ 16) (hnew : slogLogFilesCountMax ≤ s.m_wFileIndexStar.toNat) :
    (s.startAt i).AtStart im (fs.setHead i h) i := by
  have hstar : (s.startAt i).m_wFileIndexStar.toNat = i := toNat_ofNat_of_lt' hi
  refine ⟨fun h400 hle => ?_, fun _ => rfl, fun _ => rfl, fun _ => ?_, fun hlt => ?_, fun _ k hk hki => ?_⟩
  · exact hs.none hnew hle
  · rw [hstar, Files.readHead_setHead hr, fs.head_setHead_self, hr]
  · rw [hstar] at hlt ⊢
    show i + s.m_wFileCount.toNat ≤ i
    rw [hs.none hnew (le_of_lt hlt)]
    exact le_refl _
  · omega

/-- The search `s1` has a first file, which is `i` if `s` has none. -/
structure Search.Starts (im : Images) (fs : Files) (i : Nat) (s s1 : Search) : Prop where
  star : s1.m_wFileIndexStar =
    if slogLogFilesCountMax ≤ s.m_wFileIndexStar.toNat then ofNat i else s.m_wFileIndexStar
  count : s1.m_wFileCount = s.m_wFileCount
  filter : s1.filter = s.filter
  atStart : s.AtStart im fs i → s1.AtStart im fs i
  out : slogLogFilesCountMax ≤ s1.m_wFileIndexStar.toNat → slogLogFilesCountMax ≤ i
  has : s1.m_dwCurFileHasRecords = s.m_dwCurFileHasRecords

theorem Search.starts (s : Search) (hr : fs.readHead im i = .ok h) (hi : i < 2 ^ 16) :
    Search.Starts im (fs.setHead i h) i s
      (if slogLogFilesCountMax ≤ s.m_wFileIndexStar.toNat then s.startAt i else s) := by
  split
  case isTrue hnew =>
    have hi16 : (s.startAt i).m_wFileIndexStar.toNat = i := toNat_ofNat_of_lt' hi
    refine ⟨(if_pos hnew).symm, rfl, rfl, fun hs => hs.startAt hr hi hnew, fun h400 => ?_, rfl⟩
    rwa [hi16] at h400
  case isFalse hnew =>
    exact ⟨(if_neg hnew).symm, rfl, rfl, id, fun h400 => absurd h400 hnew, rfl⟩

theorem Search.atStart_named (hr : fs.readHead im i = .ok h) (hi : i < 2 ^ 16) (s : Search) :
    Search.AtStart im (fs.setHead i h) (i + 1) { s.startAt i with m_wFileCount := 1 } := by
  have hstar : (s.startAt i).m_wFileIndexStar.toNat = i := toNat_ofNat_of_lt' hi
  have hhead : (fs.setHead i h).readHead im i = .ok ((fs.setHead i h).head i) := by
    rw [Files.readHead_setHead hr, fs.head_setHead_self, hr]
  refine ⟨fun h400 hle => ?_, fun _ => rfl, fun _ => rfl, fun _ => ?_, fun _ => ?_, fun _ k hk hki h' hh => ?_⟩
  · rw [hstar] at h400
    omega
  · rw [hstar]
    exact hhead
  · rw [hstar]
    exact le_refl _
  · rw [hstar] at hk
    obtain rfl : k = i := by omega
    exact HeadRead.ok.inj (hhead.symm.trans hh)

end AtStart

/-- What picking files from `i` on does. -/
structure PickSpec (im : Images) (n i : Nat) (fs : Files) (s : Search) (fs' : Files)
    (s' : Search) : Prop where
  range : (s'.m_wFileIndexStar, s'.m_wFileCount) =
    pickRange (fs.readHead im) fs.name s n i (s.m_wFileIndexStar, s.m_wFileCount)
  filter : s'.filter = s.filter
  atStart : s.AtStart im fs i → ∃ e, s'.AtStart im fs' e
  has : s'.m_dwCurFileHasRecords = s.m_dwCurFileHasRecords
  count : fs'.wLogFileCount = fs.wLogFileCount
  heads : fs'.readHead im = fs.readHead im
  names : fs'.name = fs.name
  disk : fs'.disk = fs.disk
  head : ∀ k, fs'.head k = fs.head k ∨ fs.readHead im k = .ok (fs'.head k)

theorem PickSpec.stop (im : Images) (i : Nat) (fs : Files) (s : Search) :
    PickSpec im 0 i fs s fs s :=
  ⟨rfl, rfl, fun h => ⟨i, h⟩, rfl, rfl, rfl, rfl, rfl, fun _ => .inl rfl⟩

/-- The head of file `i` is in the list, and the picking goes on from `k`. -/
theorem PickSpec.load {n m k : Nat} {fs' : Files} {s1 : Search}
    {h : LogFileHead} (hr : fs.readHead im i = .ok h) (hfilter : s1.filter = s.filter)
    (hat : s.AtStart im (fs.setHead i h) i → s1.AtStart im (fs.setHead i h) k)
    (hhas : s1.m_dwCurFileHasRecords = s.m_dwCurFileHasRecords)
    (hrange : pickRange (fs.readHead im) fs.name s n i (s.m_wFileIndexStar, s.m_wFileCount) =
      pickRange (fs.readHead im) fs.name s m k (s1.m_wFileIndexStar, s1.m_wFileCount))
    (hp : PickSpec im m k (fs.setHead i h) s1 fs' s') : PickSpec im n i fs s fs' s' where
  range := by
    rw [hp.range, Files.readHead_setHead hr, fs.name_setHead, hrange]
    exact pickRange_congr hfilter ..
  filter := hp.filter.trans hfilter
  atStart hs := hp.atStart (hat (hs.setHead hr))
  has := hp.has.trans hhas
  count := hp.count
  heads := hp.heads.trans (Files.readHead_setHead hr)
  names := hp.names.trans (fs.name_setHead i h)
  disk := hp.disk
  head j := by
    have hj := hp.head j
    rw [Files.readHead_setHead hr] at hj
    rcases hj with hj | hj
    · by_cases hji : j = i
      · subst hji
        rw [fs.head_setHead_self] at hj
        exact .inr (by rw [hj]; exact hr)
      · rw [Files.head_setHead_of_ne hji] at hj
        exact .inl hj
    · exact .inr hj

theorem PickSpec.opens {n : Nat} {fs' : Files} (h : PickSpec im n i fs s fs' s') :
    fs'.open = fs.open := by
  funext k
  show fs'.disk (fs'.name k) = fs.disk (fs.name k)
  rw [h.disk, h.names]

/-- **Picking the files.** -/
theorem pickFiles_spec (im : Images) (n : Nat) :
    ∀ i fs s, i + n ≤ 2 ^ 16 →
      PickSpec im n i fs s (pickFiles im n i (fs, s)).1 (pickFiles im n i (fs, s)).2 := by
  induction n with
  | zero => exact fun i fs s _ => .stop im i fs s
  | succ n ih =>
    intro i fs s hin16
    have hi : i < 2 ^ 16 := by omega
    have ih := fun fs s => ih (i + 1) fs s (by omega)
    rw [pickFiles, loadHead_eq]
    cases hr : fs.readHead im i with
    | noFile =>
      refine { PickSpec.stop im i fs s with range := ?_ }
      rw [pickRange, hr]
    | noHead =>
      refine { ih fs s with range := ?_, atStart := fun hs => (ih fs s).atStart (hs.next ?_) }
      · rw [pickRange, hr]
        exact (ih fs s).range
      · intro h hh
        cases hr.symm.trans hh
    | ok h =>
      have hhead : (fs.setHead i h).head i = h := fs.head_setHead_self i h
      have hnext : ∀ {s : Search}, s.AtStart im (fs.setHead i h) i →
          s.AtStart im (fs.setHead i h) (i + 1) := fun hs => hs.next fun h' hh => by
        rw [Files.readHead_setHead hr, hr] at hh
        rw [hhead]
        exact HeadRead.ok.inj hh
      have hname : ((fs.setHead i h).stFiles i).szAbsFileName = fs.name i :=
        congrFun (fs.name_setHead i h) i
      dsimp only
      rw [hhead, hname]
      by_cases hfile : s.m_strLogFile ≠ []
      · rw [if_pos hfile]
        by_cases hin : s.m_strLogFile <:+: fs.name i
        · rw [if_pos hin]
          have hstop := PickSpec.stop im (i + 1) (fs.setHead i h)
            { s.startAt i with m_wFileCount := 1 }
          refine .load hr ?_ ?_ ?_ ?_ hstop
          · rfl
          · exact fun _ => atStart_named hr hi s
          · rfl
          · rw [pickRange_ok hr, if_pos hfile, if_pos hin]
            rfl
        · rw [if_neg hin]
          refine .load hr rfl hnext rfl ?_ (ih _ s)
          rw [pickRange_ok hr, if_pos hfile, if_neg hin]
      · rw [if_neg hfile]
        by_cases hskip : slogLogFilesCountMax ≤ s.m_wFileIndexStar.toNat ∧
            h.qwLogTimeEnd < s.m_qwTimeStart
        · rw [if_pos hskip]
          refine .load hr rfl hnext rfl ?_ (ih _ s)
          rw [pickRange_ok hr, if_neg hfile, if_pos hskip]
        · rw [if_neg hskip]
          -- the file is the first one or behind it
          obtain ⟨hstar, hcount, hfilter, hat, hout, hhas⟩ := s.starts hr hi
          generalize (if slogLogFilesCountMax ≤ s.m_wFileIndexStar.toNat then s.startAt i else s) = s1
            at hstar hcount hfilter hat hout hhas
          have hend : s1.m_qwTimeEnd = s.m_qwTimeEnd :=
            show s1.filter.m_qwTimeEnd = s.filter.m_qwTimeEnd by rw [hfilter]
          by_cases hlast : s.m_qwTimeEnd < h.qwLogTimeStart
          · rw [if_pos (hend.symm ▸ hlast)]
            refine .load hr hfilter hat hhas ?_ (.stop im i (fs.setHead i h) s1)
            rw [pickRange_ok hr, if_neg hfile, if_neg hskip, if_pos hlast, ← hstar, ← hcount]
            rfl
          · rw [if_neg (hend.symm ▸ hlast)]
            refine .load hr ?_ ?_ ?_ ?_
              (ih (fs.setHead i h) { s1 with m_wFileCount := s1.m_wFileCount + 1 })
            · exact hfilter
            · exact fun hs => (hat hs).add hr hout
            · exact hhas
            · rw [pickRange_ok hr, if_neg hfile, if_neg hskip, if_neg hlast, ← hstar, ← hcount]

/-! ## Beginning a search -/

section Begin

variable {im : Images} {fs : Files} {s : Search}

theorem beginSearch_of_count (hc : s.m_wFileCount ≠ 0) : beginSearch im fs s = (fs, s) := if_neg hc

/-- A search without files, before it picks some. -/
def Search.unpicked (s : Search) : Search :=
  { s with m_wFileIndexStar := ofNat slogLogFilesCountMax }

theorem beginSearch_pick (im : Images) (fs : Files) (hc : s.m_wFileCount = 0) :
    PickSpec im fs.wLogFileCount.toNat 0 fs s.unpicked (beginSearch im fs s).1
      (beginSearch im fs s).2 := by
  unfold beginSearch
  rw [if_pos hc]
  refine pickFiles_spec im _ 0 fs s.unpicked ?_
  have := fs.wLogFileCount.toNat_lt
  omega

theorem Search.atStart_unpicked (hc : s.m_wFileCount = 0) : s.unpicked.AtStart im fs 0 := by
  have hout : ¬ s.unpicked.m_wFileIndexStar.toNat < slogLogFilesCountMax :=
    show ¬ (ofNat slogLogFilesCountMax).toNat < slogLogFilesCountMax by decide
  exact ⟨fun _ _ => hc, fun h => absurd h hout, fun h => absurd h hout, fun h => absurd h hout,
    fun h => absurd h hout, fun h => absurd h hout⟩

theorem beginSearch_atStart (im : Images) (fs : Files) (hc : s.m_wFileCount = 0) :
    ∃ e, (beginSearch im fs s).2.AtStart im (beginSearch im fs s).1 e :=
  (beginSearch_pick im fs hc).atStart (atStart_unpicked hc)

theorem beginSearch_filter (im : Images) (fs : Files) (s : Search) :
    (beginSearch im fs s).2.filter = s.filter := by
  by_cases hc : s.m_wFileCount = 0
  · exact (beginSearch_pick im fs hc).filter
  · rw [beginSearch_of_count hc]

/-- A search is its filter with the position. -/
theorem Search.eq_of_filter {s s' : Search} (h : s'.filter = s.filter)
    (hno : s'.m_wFileNo = s.m_wFileNo) (hpos : s'.m_dwFilePos = s.m_dwFilePos)
    (hcount : s'.m_wFileCount = s.m_wFileCount) (hstar : s'.m_wFileIndexStar = s.m_wFileIndexStar)
    (hhas : s'.m_dwCurFileHasRecords = s.m_dwCurFileHasRecords) : s' = s := by
  cases s'
  simp only [filter, fixed, mk.injEq] at h hno hpos hcount hstar hhas
  simp [h, hno, hpos, hcount, hstar, hhas]

/-- **No file was picked.** The next call picks the same again. -/
theorem beginSearch_again (im : Images) (fs : Files) (hc : s.m_wFileCount = 0) {s' : Search} (hf : s'.filter = s.filter)
    (hc' : s'.m_wFileCount = 0) :
    (beginSearch im (beginSearch im fs s).1 s').2.m_wFileIndexStar =
        (beginSearch im fs s).2.m_wFileIndexStar ∧
      (beginSearch im (beginSearch im fs s).1 s').2.m_wFileCount =
        (beginSearch im fs s).2.m_wFileCount := by
  have h1 := beginSearch_pick im fs hc
  have h2 := beginSearch_pick im (beginSearch im fs s).1 hc'
  have hr1 := h1.range
  have hr2 := h2.range
  have hfu : s'.unpicked.filter = s.unpicked.filter := hf
  rw [h1.heads, h1.names, h1.count, pickRange_congr hfu,
    show s'.unpicked.m_wFileIndexStar = s.unpicked.m_wFileIndexStar from rfl,
    show s'.unpicked.m_wFileCount = s.unpicked.m_wFileCount from hc'.trans hc.symm, ← hr1] at hr2
  exact Prod.mk.inj hr2

end Begin

/-! ## One file -/

/-- Going through one file: the result, where the search stands then and the text buffer;
`none` for a version that is not supported. -/
def readFile (im : Images) (ver1 : Version1) (h : LogFileHead) (f : ByteFile) (s : Search)
    (buf : ByteFile) : Option (Option LogOut × Search × ByteFile) :=
  if h.bLogFileVersion = 1 then
    some ((ver1 s h f).1, { s with
      m_dwFilePos := (ver1 s h f).2
      m_dwCurFileHasRecords := h.iLogRecordsWrite.toUInt32 }, buf)
  else if h.bLogFileVersion = 2 then
    let r := readLogFileVersion_2 im h f ⟨s, .zero, buf⟩
    some (if r.1 then some r.2.out else none, r.2.search, r.2.sLogBuf)
  else none

theorem scanFiles_succ (im : Images) (ver1 : Version1) (fs : Files) (n i k : Nat) (s : Search)
    (b : ByteFile) :
    scanFiles im ver1 fs (n + 1) i k (s, b) =
      match fs.open i with
      | none => (none, s, b)
      | some f =>
        match readFile im ver1 (fs.head i) f s b with
        | none => (none, s, b)
        | some (some out, s', b') => (some out, s', b')
        | some (none, s', b') =>
          if s'.m_wFileCount.toNat ≤ k + 1 then (none, s', b')
          else scanFiles im ver1 fs n (i + 1) (k + 1) (s'.nextFile, b') := by
  rw [scanFiles]
  cases fs.open i with
  | none => rfl
  | some f =>
    dsimp only
    unfold readFile
    split
    · generalize ver1 s (fs.head i) f = r
      obtain ⟨out, pos⟩ := r
      cases out <;> rfl
    · split
      · generalize readLogFileVersion_2 im (fs.head i) f ⟨s, .zero, b⟩ = r
        obtain ⟨found, st⟩ := r
        cases found <;> rfl
      · rfl

/-- The search as it enters the loop over the files. -/
def Search.enter (s : Search) : Search := { s with m_dwCurFileHasRecords := 0 }

theorem historyLog_eq (ver1 : Version1) {s : Sys} (hinit : s.search.m_bInit = true)
    {q : Search} (hb : beginSearch im s.files s.search = (fs, q)) :
    historyLog im ver1 s =
      let r := scanFiles im ver1 fs (slogLogFilesCountMax - q.file) q.file q.m_wFileNo.toNat
        (q.enter, s.sLogBuf)
      (r.1, ⟨fs, r.2.1, r.2.2⟩) := by
  unfold historyLog
  simp only [hinit, hb]
  rfl

theorem historyLog_of_not_init (ver1 : Version1) {s : Sys} (hinit : s.search.m_bInit = false) :
    historyLog im ver1 s = (none, s) := by
  simp [historyLog, hinit]

/-! ## Going through the files -/

section Files

variable {h : LogFileHead} {f b b' : ByteFile} {o : Option LogOut} {out : LogOut} {ver1 : Version1}

theorem readFile_keeps (he : readFile im ver1 h f s b = some (o, s', b')) :
    s'.fixed = s.fixed ∧ (BufOk b → BufOk b') := by
  unfold readFile at he
  split at he
  · cases he
    exact ⟨rfl, id⟩
  split at he
  · cases he
    have hkeeps := readLogFileVersion_2_keeps im h f ⟨s, .zero, b⟩
    exact ⟨hkeeps.fixed, hkeeps.buf⟩
  · cases he

theorem scanFiles_buf (n : Nat) : ∀ {i k} {s} {b}, BufOk b →
      BufOk (scanFiles im ver1 fs n i k (s, b)).2.2 := by
  induction n with
  | zero => exact fun h => h
  | succ n ih =>
    intro i k s b h
    rw [scanFiles_succ]
    cases fs.open i with
    | none => exact h
    | some f =>
      dsimp only
      cases hread : readFile im ver1 (fs.head i) f s b with
      | none => exact h
      | some r =>
        obtain ⟨o, s1, b1⟩ := r
        have h1 := (readFile_keeps hread).2 h
        cases o with
        | some out => exact h1
        | none =>
          dsimp only
          split
          · exact h1
          · exact ih h1

/-- A result from a later file, whose records are read from the first. -/
theorem Returned.of_next {s1 : Search} (hfix : s1.fixed = s.fixed) (hlt : s.file < s'.file)
    (h : Returned im fs s1.nextFile out s' b) : Returned im fs s out s' b := by
  obtain ⟨f, hopen, hret⟩ := h
  refine ⟨f, hopen, fun hv => ⟨(hret hv).1, fun h rs hw => ?_⟩⟩
  obtain ⟨j, r, hr, hp, hiff⟩ := (hret hv).2 h rs hw
  refine ⟨j, r, hr, hp, hiff.trans ?_⟩
  have hstart : s.startPos s'.file = 0 := if_neg (ne_of_gt hlt)
  rw [hstart, s1.startPos_nextFile]
  exact or_congr_right (NoStale.congr (filter_congr hfix) rs 0 j)

/-- A result from the file in which the search stands. -/
theorem Returned.of_found (hfit : Fits im) (hfs : FilesOk im fs) (hopen : fs.open s.file = some f)
    (hb : BufOk b) (hpos : s.m_dwFilePos.toNat < 2 ^ 31)
    (he : readFile im ver1 (fs.head s.file) f s b = some (some out, s', b')) :
    Returned im fs s out s' b' := by
  have hfile : s'.file = s.file := file_congr (readFile_keeps he).1
  refine ⟨f, by rw [hfile]; exact hopen, fun hv => ?_⟩
  rw [hfile] at hv ⊢
  obtain ⟨h, rs, hw, hc⟩ := hfs s.file f hopen (.inl hv)
  refine ⟨⟨h, rs, hw⟩, fun h' rs' hw' => ?_⟩
  have hcount : (fs.head s.file).iLogRecordsWrite.toInt ≤ rs'.length := by
    rw [← Written.length_eq hfit hw hw']
    exact hc hv
  have hstart : s.startPos s.file = s.m_dwFilePos.toNat := if_pos rfl
  rw [readFile, if_neg (by rw [hv]; decide), if_pos hv] at he
  cases hst : readLogFileVersion_2 im (fs.head s.file) f ⟨s, .zero, b⟩ with
  | mk found st =>
    rw [hst] at he
    cases found with
    | false => cases he
    | true =>
      cases he
      rw [hstart]
      exact readLogFileVersion_2_found hfit (hw'.holds hfit).1 hcount hb hpos hst

/-- **The files from `i` on.** -/
theorem scanFiles_returned (hfit : Fits im) (hfs : FilesOk im fs) (n : Nat) :
    ∀ {i k} {s s'} {b b'} {out}, BufOk b →
      s.m_dwFilePos.toNat < 2 ^ 31 → s.file = i → n = slogLogFilesCountMax - i →
      scanFiles im ver1 fs n i k (s, b) = (some out, s', b') →
      i ≤ s'.file ∧ Returned im fs s out s' b' := by
  induction n with
  | zero =>
    intro i k s s' b b' out _ _ _ _ he
    cases he
  | succ n ih =>
    rintro i k s s' b b' out hb hpos rfl hn he
    rw [scanFiles_succ] at he
    cases hopen : fs.open s.file with
    | none =>
      rw [hopen] at he
      cases he
    | some f =>
      cases hread : readFile im ver1 (fs.head s.file) f s b with
      | none =>
        simp only [hopen, hread] at he
        cases he
      | some r =>
        obtain ⟨o, s1, b1⟩ := r
        obtain ⟨hfix, hbuf⟩ := readFile_keeps hread
        simp only [hopen, hread] at he
        cases o with
        | some out1 =>
          cases he
          exact ⟨le_of_eq (file_congr hfix).symm, .of_found hfit hfs hopen hb hpos hread⟩
        | none =>
          dsimp only at he
          split at he
          · cases he
          · obtain ⟨hfile, hzero⟩ := at_nextFile hfix (by omega)
            obtain ⟨hle, hret⟩ := ih (hbuf hb) hzero hfile (by omega) he
            exact ⟨Nat.le_of_succ_le hle, hret.of_next hfix hle⟩

end Files

/-- A head that is read into the list is the one in the file. -/
theorem beginSearch_files (hfit : Fits im) (hfs : FilesOk im fs) (s : Search) :
    FilesOk im (beginSearch im fs s).1 := by
  by_cases hc : s.m_wFileCount = 0
  case neg =>
    rw [beginSearch_of_count hc]
    exact hfs
  have hpick := beginSearch_pick im fs hc
  generalize beginSearch im fs s = p at hpick
  intro k f hopen
  rw [hpick.opens] at hopen
  have hold := hfs k f hopen
  rcases hpick.head k with hk | hk
  · rw [hk]
    exact hold
  unfold Files.readHead at hk
  rw [hopen] at hk
  generalize p.1.head k = h at hk
  split at hk
  · cases hk
    exact hold
  intro hv
  cases hread : im.head.read f 0 with
  | none =>
    simp only [hread] at hk
    cases hk
  | some h1 =>
    simp only [hread] at hk hv
    cases hk
    have hv2 : h.bLogFileVersion = 2 := by simpa using hv
    obtain ⟨h0, rs, hw, -⟩ := hold (.inr ⟨h, hread, hv2⟩)
    obtain ⟨h2, hr2, hc2, -⟩ := (hw.holds hfit).1.head
    cases hread.symm.trans hr2
    exact ⟨h0, rs, hw, fun _ => Int.le_of_eq hc2⟩

theorem beginSearch_opens (im : Images) (fs : Files) (s : Search) :
    (beginSearch im fs s).1.open = fs.open := by
  by_cases hc : s.m_wFileCount = 0
  · exact (beginSearch_pick im fs hc).opens
  · rw [beginSearch_of_count hc]

variable {f : ByteFile} {ver1 : Version1} {out : LogOut} {rs : List Record} {o : OpenFile}

/-! ## Runs -/

/-- What happens between two results: the search is set up or moved, the files and
their list change, and `HistoryLog` is called. -/
inductive Label where
  | search (q : Search)
  | files (fs : Files)
  | history

def step (im : Images) (ver1 : Version1) (s : Sys) : Label → Option Sys
  | .search q => some { s with search := q }
  | .files fs => some { s with files := fs }
  | .history => some (historyLog im ver1 s).2

/-- Files of version 2 come from `WriteLogVersion_2`. -/
def FilesWritten (im : Images) (_ : Sys) : Label → Prop
  | .files fs => FilesOk im fs
  | _ => True

def Sys.init (fs : Files) (q : Search) : Sys := ⟨fs, q, ⟨sLogBufLen, fun _ => 0⟩⟩

structure Inv (im : Images) (s : Sys) : Prop where
  files : FilesOk im s.files
  buf : BufOk s.sLogBuf

theorem Inv.init (hfs : FilesOk im fs) (q : Search) :
    Inv im (Sys.init fs q) := ⟨hfs, rfl, fun _ _ => rfl⟩

theorem Inv.history (hfit : Fits im) (ver1 : Version1) {s : Sys} (h : Inv im s) :
    Inv im (historyLog im ver1 s).2 := by
  unfold historyLog
  split
  · exact h
  · exact ⟨beginSearch_files hfit h.files s.search, scanFiles_buf _ h.buf⟩

theorem Inv.step_inv (hfit : Fits im) (ver1 : Version1) (s : Sys) (l : Label)
    (s' : Sys) (h : Inv im s) (hl : FilesWritten im s l) (hs : step im ver1 s l = some s') :
    Inv im s' := by
  cases l with
  | search q =>
    cases hs
    exact ⟨h.files, h.buf⟩
  | files fs =>
    cases hs
    exact ⟨hl, h.buf⟩
  | history =>
    cases hs
    exact h.history hfit ver1

theorem historyLog_returned (hfit : Fits im) {s s' : Sys}
    (h : Inv im s) (hpos : (beginSearch im s.files s.search).2.m_dwFilePos.toNat < 2 ^ 31)
    (he : historyLog im ver1 s = (some out, s')) :
    s'.files = (beginSearch im s.files s.search).1 ∧
      Returned im s'.files (beginSearch im s.files s.search).2 out s'.search s'.sLogBuf := by
  cases hinit : s.search.m_bInit with
  | false =>
    rw [historyLog_of_not_init _ hinit] at he
    cases he
  | true =>
    have hfs := beginSearch_files hfit h.files s.search
    obtain ⟨⟨fs, q⟩, hb⟩ : ∃ p, beginSearch im s.files s.search = p := ⟨_, rfl⟩
    rw [historyLog_eq ver1 hinit hb, Prod.mk.injEq] at he
    obtain ⟨hout, rfl⟩ := he
    rw [hb] at hpos hfs ⊢
    exact ⟨rfl, (scanFiles_returned hfit hfs _ (s := q.enter) h.buf hpos rfl rfl
      (Prod.ext hout rfl)).2⟩

/-- **A result against its record.** After any run, a result from a file of version 2
stands for the record just before the position of the search. It has all that was
stored with that record exactly if the record has custom data itself, or no record
that this call selected before it in the same file had any. -/
theorem history_log_iff {im : Images} (hfit : Fits im) (ver1 : Version1) {fs : Files} {q : Search}
    (hfs : FilesOk im fs) (ls : List Label)
    (hm : Meets (step im ver1) (FilesWritten im) ls (Sys.init fs q)) {s s' : Sys}
    (hr : run (step im ver1) ls (Sys.init fs q) = some s) {out : LogOut}
    (he : historyLog im ver1 s = (some out, s'))
    (hpos : (beginSearch im s.files s.search).2.m_dwFilePos.toNat < 2 ^ 31)
    (hv : (s'.files.head s'.search.file).bLogFileVersion = 2) :
    ∃ f, s.files.open s'.search.file = some f ∧ (∃ h rs, Written im h f rs) ∧
      ∀ h rs, Written im h f rs → ∃ j r, s'.search.m_dwFilePos.toNat = j + 1 ∧ rs[j]? = some r ∧
          (AsStored r out (bufText s'.sLogBuf) ↔ r.custData ≠ [] ∨ NoStale rs s.search
              ((beginSearch im s.files s.search).2.startPos s'.search.file) j) := by
  have h : Inv im s := run_keeps (Inv.step_inv hfit ver1) (.init hfs q) hm hr
  obtain ⟨hfiles, f, hopen, hret⟩ := historyLog_returned hfit h hpos he
  rw [hfiles, beginSearch_opens] at hopen
  refine ⟨f, hopen, (hret hv).1, fun h' rs hw => ?_⟩
  obtain ⟨j, r, hj, hp, hiff⟩ := (hret hv).2 h' rs hw
  refine ⟨j, r, hp, hj, hiff.trans (or_congr_right (NoStale.congr ?_ rs _ j))⟩
  exact beginSearch_filter ..

/-- A record of app 7 with a text of one character. -/
def oneChar (cust : Cust) (c : UInt8) (h : 0 ≠ c) : Record where
  log := ⟨cust, 1, 1, 7, 1, 4, 1, 1600000000000000⟩
  text := [c]
  noNul := by simpa using h

/-- One new log file with the records `rs`. -/
def writeAll (rs : List Record) : Option OpenFile :=
  rs.foldlM (writeLogVersion_2 packed)
    ⟨none, newHead 1600000000000000, newFile packed 1600000000000000⟩

/-- A list of that file alone. -/
def oneFile (o : OpenFile) : Files where
  wLogFileCount := 1
  stFiles i := ⟨if i = 0 then [97] else [], 1600000000000000, o.stFileHead⟩
  disk name := if name = [97] then some o.file else none

/-- A search of app 7 for all types of records whose text is `text`. -/
def searchText (text : Bytes) : Search where
  m_bInit := true
  m_strLogFile := []
  m_iLogTypeFlag := 127
  m_iLogAppId := 7
  m_arrLogModuleId := []
  m_stIncKey := [⟨fun _ => false, fun t => t == text⟩]
  m_stExcpKey := []
  m_iReportMachine := 0
  m_qwTimeStart := 0
  m_qwTimeEnd := 2000000000000000
  m_wFileNo := 0
  m_dwFilePos := 0
  m_wFileCount := 0
  m_wFileIndexStar := 0
  m_dwCurFileHasRecords := 0

theorem fits_packed : Fits packed := by
  unfold Fits
  decide +kernel

theorem writeAll_written (h : writeAll rs = some o) : Written packed o.stFileHead o.file rs :=
  show Written packed o.stFileHead o.file ([] ++ rs) from .foldlM (.create 1600000000000000) h

theorem oneFile_open {i : Nat} (h : (oneFile o).open i = some f) : f = o.file := by
  unfold Files.open oneFile at h
  dsimp only at h
  split at h
  · exact (Option.some.inj h).symm
  · cases h

theorem oneFile_ok (h : writeAll rs = some o) : FilesOk packed (oneFile o) := by
  intro i f hopen _
  cases oneFile_open hopen
  have hw := writeAll_written h
  refine ⟨_, rs, hw, fun _ => ?_⟩
  exact Int.le_of_eq (hw.holds fits_packed).2.count

def noCust : Cust := ⟨0, 0, 0, 0, 0, .zero 15, .zero 31⟩

def noVersion1 : Version1 := fun s _ _ => (none, s.m_dwFilePos)

theorem history_log_two_records :
    ∃ o, writeAll [oneChar noCust 97 (by decide), oneChar noCust 98 (by decide)] = some o ∧
      (historyLog packed noVersion1 (Sys.init (oneFile o) (searchText [98]))).1.isSome ∧
      ∀ out s', historyLog packed noVersion1 (Sys.init (oneFile o) (searchText [98])) =
          (some out, s') →
        AsStored (oneChar noCust 98 (by decide)) out (bufText s'.sLogBuf) := by
  have hw : writeAll [oneChar noCust 97 (by decide), oneChar noCust 98 (by decide)] = some _ := rfl
  refine ⟨_, hw, by decide +kernel, fun out s' he => ?_⟩
  obtain rfl := congrArg Prod.snd he
  obtain ⟨f, hopen, -, hall⟩ := history_log_iff fits_packed noVersion1 (oneFile_ok hw) []
    trivial rfl he (by decide +kernel) (by decide +kernel)
  obtain rfl := oneFile_open hopen
  obtain ⟨j, r, hpos, hr, hiff⟩ := hall _ _ (writeAll_written hw)
  obtain rfl : 1 = j := by
    have htwo : j + 1 = 2 := hpos.symm.trans (by decide +kernel)
    omega
  cases hr
  refine hiff.2 (.inr fun k r _ hk hr hcust => ?_)
  obtain rfl : k = 0 := Nat.lt_one_iff.mp hk
  cases hr
  exact absurd rfl hcust

/-- **The custom fields of a record that the keys reject.** The first record has custom
data and the text `a`, the second has none and the text `b`; a search for `b`
returns the second with the flag of the first. -/
theorem history_log_stale_cust :
    ∃ o, writeAll [oneChar { noCust with bCustFlag := 1, dwCust_1 := 7 } 97 (by decide),
        oneChar noCust 98 (by decide)] = some o ∧
      (oneChar noCust 98 (by decide)).custData = [] ∧
      (historyLog packed noVersion1 (Sys.init (oneFile o) (searchText [98]))).2.search.m_dwFilePos
        = 2 ∧
      (historyLog packed noVersion1 (Sys.init (oneFile o) (searchText [98]))).1.map
        (fun out => (out.cust.bCustFlag, out.cust.dwCust_1)) = some (1, 7) :=
  ⟨_, rfl, by decide +kernel⟩

end DesPwd.L4.LogSearch
