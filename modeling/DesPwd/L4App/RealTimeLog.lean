import DesPwd.Core.BackWalk
import DesPwd.L4App.LogSearch
import DesPwd.L4App.ShmLog

/-!
# The realtime log

`CSLogSearch::RealTimeLog` goes back through the ring of an app from the newest record
and returns the next one that matches; the web interface calls it again with the index
of the last one until it gets nothing, or a record that is not older
(cgi_fcgi/mt_slog.cpp). `seq` is the number that the next record would have had when
the interface asked last, so that only newer ones are shown. `IS_SEQ_BIGER` compares
the two with the wrap of the counter in mind: a record more than 10000 numbers above
`seq` is taken for an old one. After 10000 new records nothing is shown.

What `GetShmLog` returns for a slot is a parameter of the ring here, and so are the
keys of a search.

* `realTimeLogs_eq`: what the interface gets.
* `real_time_log_iff`: when it is what it should be.
* `real_time_log_far`: a ring with a new record of which it gets nothing.

Source files without a directory are in `lib/mtagent_api_open/`.
-/
namespace DesPwd.L4.RealTimeLog

open Bytes BackWalk List Option
open L1.LogCust (Cust isSet)
open L4.LogSearch (Search LogOut isLogMatch isLogMatchText)
open L4.ShmLog (TSLog)

/-! ## The search -/

/-- `BWORLD_MAX_SHM_SLOG_COUNT` -/
def maxShmSlogCount : UInt32 := 10000

/-- The ring of an app, as the search sees it; `pszLog` is what `GetShmLog` returns for
a slot. -/
structure Ring where
  iLogMaxCount : Nat
  iWriteIndex : Nat
  sLogList : Nat → TSLog
  pszLog : Nat → Bytes
  write_lt : iWriteIndex < iLogMaxCount

theorem Ring.iLogMaxCount_pos (r : Ring) : 0 < r.iLogMaxCount :=
  lt_of_le_of_lt (Nat.zero_le _) r.write_lt

/-- The members of the search and the arguments that stay the same. -/
structure Call where
  search : Search
  m_qwRealTimeUsec : UInt64
  seq : UInt32
  qwTimeNow : UInt64

/-- mirrors supper_log.h:1367 -/
def isSeqBiger (seq1 seq2 : UInt32) : Bool := seq1 > seq2 || seq1 + maxShmSlogCount < seq2

/-- The result for a slot. `bCustFlag` is not set.
mirrors supper_log.cpp:987-1007 -/
def slotOut (s : TSLog) : LogOut where
  iAppId := s.iAppId
  iModuleId := s.iModuleId
  wLogType := s.wLogType
  dwLogSeq := s.dwLogSeq
  qwLogTime := s.qwLogTime
  dwLogConfigId := s.dwLogConfigId
  dwLogHost := s.dwLogHost
  cust :=
    { bCustFlag := 0
      dwCust_1 := if isSet s.cust.bCustFlag .c1 then s.cust.dwCust_1 else 0
      dwCust_2 := if isSet s.cust.bCustFlag .c2 then s.cust.dwCust_2 else 0
      iCust_3 := if isSet s.cust.bCustFlag .c3 then s.cust.iCust_3 else 0
      iCust_4 := if isSet s.cust.bCustFlag .c4 then s.cust.iCust_4 else 0
      szCust_5 :=
        if isSet s.cust.bCustFlag .c5 then (CharBuf.zero 15).strncpy s.cust.szCust_5.str
        else .zero 15
      szCust_6 :=
        if isSet s.cust.bCustFlag .c6 then (CharBuf.zero 31).strncpy s.cust.szCust_6.str
        else .zero 31 }

section Model

variable (r : Ring) (c : Call)

/-- The walk ends at the slot; mirrors supper_log.cpp:979-982 -/
def Call.breaks (s : TSLog) : Bool :=
  s.qwLogTime + c.m_qwRealTimeUsec < c.qwTimeNow || s.dwLogSeq == 0 ||
    (isSeqBiger c.seq s.dwLogSeq && c.seq != 0)

/-- Both calls of `IsLogMatch`; mirrors supper_log.cpp:537-590 and
984-986 -/
def Call.matchesSlot (j : Nat) : Bool :=
  isLogMatch c.search (slotOut (r.sLogList j)) &&
    isLogMatchText c.search (slotOut (r.sLogList j)) (r.pszLog j)

/-- The slot before. -/
def Ring.prev (j : Int) : Nat := if j ≤ 0 then r.iLogMaxCount - 1 else (j - 1).toNat

/-- mirrors supper_log.cpp:973-1012 -/
def realTimeLoop : Nat → Int → Option Nat
  | 0, _ => none
  | n + 1, j =>
    let j := r.prev j
    if c.breaks (r.sLogList j) then none
    else if c.matchesSlot r j then some j
    else realTimeLoop n j

end Model

/-- The index that is fed back and the result.
mirrors supper_log.cpp:955-1014 -/
def realTimeLog (m_pShmLog : Option Ring) (c : Call) (iLastLogIndex : Int) :
    Option (Nat × LogOut) := do
  let r ← m_pShmLog
  if !c.search.m_bInit then none
  else
    let j : Int := if iLastLogIndex < 0 then r.iWriteIndex else iLastLogIndex
    let j ← realTimeLoop r c r.iLogMaxCount j
    pure (j, slotOut (r.sLogList j))

/-- The calls of the interface, without its limit on the number of records.
mirrors cgi_fcgi/mt_slog.cpp:1896-2004 -/
def realTimeLogs (m_pShmLog : Option Ring) (c : Call) : Nat → Int → UInt32 → List (Nat × LogOut)
  | 0, _, _ => []
  | n + 1, iLastIndex, dwInnerSeq =>
    match realTimeLog m_pShmLog c iLastIndex with
    | none => []
    | some (j, out) =>
      if dwInnerSeq > out.dwLogSeq ∨ dwInnerSeq = 0 then
        (j, out) :: realTimeLogs m_pShmLog c n j out.dwLogSeq
      else []

/-! ## What should be shown -/

section Spec

variable (r : Ring) (c : Call)

/-- The index of the record of age `k`; 0 is the newest. -/
def Ring.back (k : Nat) : Nat :=
  if k < r.iWriteIndex then r.iWriteIndex - 1 - k else r.iWriteIndex + r.iLogMaxCount - 1 - k

def Ring.aged (k : Nat) : TSLog := r.sLogList (r.back k)

/-- No record is in progress and the numbers have not wrapped: they go down with the
age, and what has none is behind all records. -/
def Ring.Ordered : Prop :=
  ∀ k, k + 1 < r.iLogMaxCount → (r.aged (k + 1)).dwLogSeq ≠ 0 →
    (r.aged (k + 1)).dwLogSeq < (r.aged k).dwLogSeq

/-- The record of age `k` and all newer ones were written within `m_qwRealTimeUsec`,
its number is not below `seq`, and it matches. -/
def Shown (k : Nat) : Prop :=
  (∀ i ≤ k, c.qwTimeNow.toNat ≤ (r.aged i).qwLogTime.toNat + c.m_qwRealTimeUsec.toNat) ∧
    c.seq ≤ (r.aged k).dwLogSeq ∧ c.matchesSlot r (r.back k) = true

instance (k : Nat) : Decidable (Shown r c k) := by
  unfold Shown
  infer_instance

/-- The records to show, newest first. -/
def shown : List (Nat × LogOut) :=
  ((List.range r.iLogMaxCount).filter (Shown r c ·)).map fun k => (r.back k, slotOut (r.aged k))

end Spec

/-! ## The walk by age -/

section Walk

variable (r : Ring) (c : Call)

/-- The index from which the walk comes to age `p`. -/
def Ring.start (p : Nat) : Int := if p = 0 then r.iWriteIndex else r.back (p - 1)

theorem prev_write : r.prev r.iWriteIndex = r.back 0 := by
  unfold Ring.prev Ring.back
  split <;> split <;> omega

theorem prev_back {k : Nat} (hk : k + 1 < r.iLogMaxCount) : r.prev (r.back k) = r.back (k + 1) := by
  unfold Ring.prev Ring.back
  split <;> split <;> split <;> omega

/-- The oldest record stands where the next one will be written. -/
theorem back_last : r.back (r.iLogMaxCount - 1) = r.iWriteIndex := by
  have hw := r.write_lt
  unfold Ring.back
  split <;> omega

theorem prev_start {p : Nat} (hp : p ≤ r.iLogMaxCount) :
    r.prev (r.start p) = r.back (if p = r.iLogMaxCount then 0 else p) := by
  have hw := r.write_lt
  unfold Ring.start
  cases p with
  | zero =>
    rw [if_pos rfl, if_neg (show ¬ 0 = r.iLogMaxCount by omega), prev_write]
  | succ k =>
    rw [if_neg (Nat.succ_ne_zero k), Nat.add_sub_cancel]
    by_cases hend : k + 1 = r.iLogMaxCount
    · have hk : k = r.iLogMaxCount - 1 := by omega
      rw [if_pos hend, hk, back_last, prev_write]
    · rw [if_neg hend, prev_back r (by omega)]

/-- The predicates of the walk, by age. -/
def stopAt (k : Nat) : Bool := c.breaks (r.aged k)

def hitAt (k : Nat) : Bool := c.matchesSlot r (r.back k)

theorem realTimeLoop_eq (n : Nat) : ∀ {p}, p ≤ r.iLogMaxCount →
    realTimeLoop r c n (r.start p) =
      (nextHit r.iLogMaxCount (stopAt r c) (hitAt r c) n p).map r.back := by
  have hw := r.write_lt
  induction n with
  | zero => intro p _; rfl
  | succ n ih =>
    intro p hp
    have hage : (if p = r.iLogMaxCount then 0 else p) < r.iLogMaxCount := by
      split <;> omega
    rw [realTimeLoop, nextHit, prev_start r hp]
    generalize (if p = r.iLogMaxCount then 0 else p) = a at hage
    have hnext := ih (p := a + 1) hage
    rw [Ring.start, if_neg (Nat.succ_ne_zero a), Nat.add_sub_cancel] at hnext
    rw [hnext]
    unfold stopAt hitAt Ring.aged
    split
    · rfl
    · split <;> rfl

theorem realTimeLog_eq (hinit : c.search.m_bInit = true) {p : Nat} (hp : p ≤ r.iLogMaxCount)
    {iLast : Int} (hlast : p = 0 ∧ iLast = -1 ∨ ∃ q, p = q + 1 ∧ iLast = r.back q) :
    realTimeLog (some r) c iLast =
      (nextHit r.iLogMaxCount (stopAt r c) (hitAt r c) r.iLogMaxCount p).map fun a =>
        (r.back a, slotOut (r.aged a)) := by
  have hstart : (if iLast < 0 then (r.iWriteIndex : Int) else iLast) = r.start p := by
    rcases hlast with ⟨rfl, rfl⟩ | ⟨q, rfl, rfl⟩
    · rfl
    · rfl
  rw [realTimeLog, bind_eq_bind, bind_some, hinit]
  simp [hstart, realTimeLoop_eq r c _ hp]
  cases nextHit r.iLogMaxCount (stopAt r c) (hitAt r c) r.iLogMaxCount p <;> rfl

/-- The number of a record, by age. -/
def keyAt (k : Nat) : Nat := (r.aged k).dwLogSeq.toNat

variable {r c}

theorem seq_ne_zero_of_not_stop {k : Nat} (h : stopAt r c k = false) : (r.aged k).dwLogSeq ≠ 0 := by
  simp only [stopAt, Call.breaks, Bool.or_eq_false_iff, beq_eq_false_iff_ne] at h
  exact h.1.2

/-- The calls of the interface are pages of the ring. -/
theorem realTimeLogs_pages (hinit : c.search.m_bInit = true) (n : Nat) :
    ∀ {p}, p ≤ r.iLogMaxCount → ∀ (iLast : Int) dwInnerSeq prev,
      (p = 0 ∧ iLast = -1 ∧ dwInnerSeq = 0 ∧ prev = none ∨
        ∃ q, p = q + 1 ∧ iLast = r.back q ∧ dwInnerSeq = (r.aged q).dwLogSeq ∧
          stopAt r c q = false ∧ prev = some (keyAt r q)) →
      realTimeLogs (some r) c n iLast dwInnerSeq =
        (pages r.iLogMaxCount (stopAt r c) (hitAt r c) (keyAt r) n p prev).map fun a =>
          (r.back a, slotOut (r.aged a)) := by
  induction n with
  | zero => intro p _ _ _ _ _; rfl
  | succ n ih =>
    intro p hp iLast dwInnerSeq prev hprev
    have hlast : p = 0 ∧ iLast = -1 ∨ ∃ q, p = q + 1 ∧ iLast = r.back q := by
      rcases hprev with ⟨h0, hl, -⟩ | ⟨q, hq, hl, -⟩
      · exact .inl ⟨h0, hl⟩
      · exact .inr ⟨q, hq, hl⟩
    rw [realTimeLogs, pages, realTimeLog_eq r c hinit hp hlast]
    cases hnext : nextHit r.iLogMaxCount (stopAt r c) (hitAt r c) r.iLogMaxCount p with
    | none => rfl
    | some a =>
      have hstop := nextHit_not_stop hnext
      have hlt := nextHit_lt r.iLogMaxCount_pos hp hnext
      have hbelow : (dwInnerSeq > (r.aged a).dwLogSeq ∨ dwInnerSeq = 0) ↔
          prev.all (keyAt r a < ·) = true := by
        rcases hprev with ⟨-, -, rfl, rfl⟩ | ⟨q, -, -, rfl, hq, rfl⟩
        · simp
        · have hne := seq_ne_zero_of_not_stop hq
          simp only [hne, or_false]
          exact decide_eq_true_iff.symm
      have hrest := ih hlt (r.back a) (r.aged a).dwLogSeq (some (keyAt r a))
        (.inr ⟨a, rfl, rfl, rfl, hstop, rfl⟩)
      simp only [map_some]
      show (if dwInnerSeq > (r.aged a).dwLogSeq ∨ dwInnerSeq = 0 then
        (r.back a, slotOut (r.aged a)) :: realTimeLogs (some r) c n (r.back a) (r.aged a).dwLogSeq
        else []) = _
      by_cases hb : prev.all (keyAt r a < ·) = true
      · rw [if_pos (hbelow.mpr hb), if_pos hb, map_cons, hrest]
      · rw [if_neg (mt hbelow.mp hb), if_neg hb, map_nil]

theorem seq_lt (hord : r.Ordered) {i j : Nat} (hij : i < j) (hj : j < r.iLogMaxCount)
    (h0 : (r.aged j).dwLogSeq ≠ 0) : (r.aged j).dwLogSeq < (r.aged i).dwLogSeq := by
  induction j, hij using Nat.le_induction with
  | base => exact hord i hj h0
  | succ j hij ih =>
    have hstep := hord j hj h0
    have hpos : (r.aged j).dwLogSeq ≠ 0 := fun h => by
      rw [h] at hstep
      exact absurd hstep UInt32.not_lt_zero
    exact UInt32.lt_trans hstep (ih (by omega) hpos)

/-- **What the interface gets.** The records that match in front of the first at which
the walk ends, newest first. -/
theorem realTimeLogs_eq (hord : r.Ordered) (hinit : c.search.m_bInit = true) {rounds : Nat}
    (hrounds : r.iLogMaxCount < rounds) :
    realTimeLogs (some r) c rounds (-1) 0 = ((List.range r.iLogMaxCount).filter fun k =>
        decide (∀ i ≤ k, stopAt r c i = false) && hitAt r c k).map fun k =>
          (r.back k, slotOut (r.aged k)) := by
  have hkey : ∀ i j, i < j → j < r.iLogMaxCount → stopAt r c j = false → keyAt r j < keyAt r i :=
    fun i j hij hj hs => UInt32.lt_iff_toNat_lt.mp (seq_lt hord hij hj (seq_ne_zero_of_not_stop hs))
  rw [realTimeLogs_pages hinit rounds (Nat.zero_le _) _ _ _ (.inl ⟨rfl, rfl, rfl, rfl⟩),
    pages_eq r.iLogMaxCount_pos hkey rounds 0 (Nat.zero_le _) (by omega) none (.inl ⟨rfl, rfl⟩),
    hits_zero_eq]

end Walk

/-! ## The two compared -/

section Compare

variable {r : Ring} {c : Call}

/-- The walk ends at a record that is to be shown, or at a newer one: its number is
too far above `seq`, or its time too late for the sum. -/
def Misjudged (r : Ring) (c : Call) (i : Nat) : Prop :=
  c.seq + maxShmSlogCount < (r.aged i).dwLogSeq ∨
    (r.aged i).qwLogTime + c.m_qwRealTimeUsec < c.qwTimeNow

variable {i : Nat}

theorem stopAt_eq_false_iff (hs : c.seq ≠ 0) : stopAt r c i = false ↔
    (r.aged i).dwLogSeq ≠ 0 ∧ c.seq ≤ (r.aged i).dwLogSeq ∧ ¬ Misjudged r c i := by
  simp [stopAt, Call.breaks, isSeqBiger, Misjudged, Bool.or_eq_false_iff,
    decide_eq_false_iff_not, beq_eq_false_iff_ne, bne_eq_false_iff_eq, hs, not_or, UInt32.not_lt]
  constructor
  · rintro ⟨⟨htime, h0⟩, hle, hfar⟩
    exact ⟨h0, hle, hfar, htime⟩
  · rintro ⟨h0, hle, hfar, htime⟩
    exact ⟨⟨htime, h0⟩, hle, hfar⟩

theorem seq_le_of_shown (hord : r.Ordered) (hs : c.seq ≠ 0) {k : Nat} (hik : i ≤ k)
    (hk : k < r.iLogMaxCount) (h : Shown r c k) :
    (r.aged i).dwLogSeq ≠ 0 ∧ c.seq ≤ (r.aged i).dwLogSeq := by
  have hpos : (0 : UInt32) < c.seq := UInt32.pos_iff_ne_zero.mpr hs
  have hle : (r.aged k).dwLogSeq ≤ (r.aged i).dwLogSeq := by
    rcases lt_or_eq_of_le hik with hlt | rfl
    · have h0 : (r.aged k).dwLogSeq ≠ 0 :=
        UInt32.pos_iff_ne_zero.mp (UInt32.lt_of_lt_of_le hpos h.2.1)
      exact UInt32.le_of_lt (seq_lt hord hlt hk h0)
    · exact UInt32.le_refl _
  have hseq := UInt32.le_trans h.2.1 hle
  exact ⟨UInt32.pos_iff_ne_zero.mp (UInt32.lt_of_lt_of_le hpos hseq), hseq⟩

end Compare

/-- **The realtime log.** In a ring without a record in progress whose numbers have not
wrapped, the interface gets exactly the records to show, if and only if none of them,
and no record newer than one of them, has a number more than 10000 above `seq` (modulo
`2 ^ 32`), or a time for which the sum with `m_qwRealTimeUsec` is not a `uint64_t`. -/
theorem real_time_log_iff (r : Ring) (c : Call) (hord : r.Ordered) (hs : c.seq ≠ 0)
    (hinit : c.search.m_bInit = true) :
    (∀ rounds, r.iLogMaxCount < rounds → realTimeLogs (some r) c rounds (-1) 0 = shown r c) ↔
      ∀ k, k < r.iLogMaxCount → Shown r c k → ∀ i ≤ k, ¬ Misjudged r c i := by
  have hall : ∀ k, k < r.iLogMaxCount → Shown r c k →
      ((∀ i ≤ k, stopAt r c i = false) ↔ ∀ i ≤ k, ¬ Misjudged r c i) := by
    intro k hk hshown
    refine forall₂_congr fun i hi => ?_
    obtain ⟨h0, hle⟩ := seq_le_of_shown hord hs hi hk hshown
    rw [stopAt_eq_false_iff hs]
    simp [h0, hle]
  constructor
  · intro h k hk hshown
    have hlist := h (r.iLogMaxCount + 1) (by omega)
    rw [realTimeLogs_eq hord hinit (by omega), shown] at hlist
    have hmem : (r.back k, slotOut (r.aged k)) ∈ ((List.range r.iLogMaxCount).filter
        (Shown r c ·)).map fun k => (r.back k, slotOut (r.aged k)) :=
      List.mem_map_of_mem (mem_filter.mpr ⟨mem_range.mpr hk, decide_eq_true hshown⟩)
    rw [← hlist] at hmem
    obtain ⟨k', hk', heq⟩ := List.mem_map.mp hmem
    obtain ⟨hr, hp⟩ := mem_filter.mp hk'
    obtain rfl : k' = k := by
      have hback : r.back k' = r.back k := congrArg Prod.fst heq
      have := mem_range.mp hr
      unfold Ring.back at hback
      split at hback <;> split at hback <;> omega
    exact (hall k' hk hshown).mp (of_decide_eq_true (Bool.and_eq_true_iff.mp hp).1)
  · intro h rounds hrounds
    rw [realTimeLogs_eq hord hinit hrounds]
    congr 1
    refine filter_congr fun k hk => ?_
    have hk' := mem_range.mp hk
    rw [Bool.eq_iff_iff, Bool.and_eq_true_iff, decide_eq_true_eq, decide_eq_true_eq]
    constructor
    · rintro ⟨hstop, hhit⟩
      have hcases := fun i hi => (stopAt_eq_false_iff hs).mp (hstop i hi)
      refine ⟨fun i hi => ?_, (hcases k (le_refl k)).2.1, hhit⟩
      have htime := (not_or.mp (hcases i hi).2.2).2
      rw [UInt64.lt_iff_toNat_lt, UInt64.toNat_add] at htime
      omega
    · intro hshown
      exact ⟨(hall k hk' hshown).mpr (h k hk' hshown), hshown.2.2⟩

/-- A search without a filter that asks for what is new since number 1. -/
def newSince1 : Call where
  search := ⟨true, [], 255, 0, [], [], [], 0, 0, 0, 0, 0, 0, 0, 0⟩
  m_qwRealTimeUsec := 60000000
  seq := 1
  qwTimeNow := 0

/-- A ring as `GetAppLogShm` creates it, with the numbers from `first` to `first + 9999`. -/
def fullRing (first : Nat) : Ring where
  iLogMaxCount := 10000
  iWriteIndex := 0
  sLogList j := { ShmLog.startShm.sLogList j with wLogType := 1, dwLogSeq := .ofNat (first + j) }
  pszLog _ := []
  write_lt := by decide

theorem fullRing_seq {first k : Nat} (hfirst : first ≤ 3) :
    ((fullRing first).aged k).dwLogSeq.toNat = first + (9999 - k) := by
  show (UInt32.ofNat (first + (0 + 10000 - 1 - k))).toNat = _
  rw [UInt32.toNat_ofNat']
  omega

theorem fullRing_ordered {first : Nat} (hfirst : first ≤ 3) : (fullRing first).Ordered := by
  intro k hk _
  have hk' : k + 1 < 10000 := hk
  rw [UInt32.lt_iff_toNat_lt, fullRing_seq hfirst, fullRing_seq hfirst]
  omega

/-- The records 2 to 10001 are shown. -/
theorem real_time_log_near : realTimeLogs (some (fullRing 2)) newSince1 10001 (-1) 0 =
    shown (fullRing 2) newSince1 := by
  refine (real_time_log_iff (fullRing 2) newSince1 (fullRing_ordered (by decide)) (by decide)
    rfl).mpr (fun k _ _ i _ => not_or.mpr ⟨?_, UInt64.not_lt.mpr UInt64.zero_le⟩) 10001
    (by decide)
  rw [UInt32.lt_iff_toNat_lt, fullRing_seq (by decide)]
  show ¬ 10001 < _
  omega

/-- **Records too far above.** All of the records 3 to 10002 should be shown, and none is. -/
theorem real_time_log_far : (fullRing 3).Ordered ∧
    (∀ k < 10000, Shown (fullRing 3) newSince1 k) ∧
      ∀ rounds, realTimeLogs (some (fullRing 3)) newSince1 rounds (-1) 0 = [] := by
  have hcall : (realTimeLog (some (fullRing 3)) newSince1 (-1)).isNone = true := by
    decide +kernel
  refine ⟨fullRing_ordered (by decide), fun k _ => ⟨fun _ _ => Nat.zero_le _, ?_, ?_⟩,
    fun rounds => ?_⟩
  · rw [UInt32.le_iff_toNat_le, fullRing_seq (by decide)]
    exact le_trans (by decide) (Nat.le_add_right 3 _)
  · simp [Call.matchesSlot, isLogMatch, isLogMatchText, newSince1, slotOut, fullRing]
    decide
  · cases rounds with
    | zero => rfl
    | succ n => rw [realTimeLogs, isNone_iff_eq_none.mp hcall]

end DesPwd.L4.RealTimeLog
