import DesPwd.Core.Circular
import DesPwd.Core.Run

/-!
# The shared-memory log ring of the agent

`MtReport_Log` (language/c_cpp/mt_log.c) puts a record into a ring of
`MTLOG_SHM_RECORDS_COUNT` cells, `ReadAppLog` (slog_mtreport_client/mtreport_client.cpp)
takes the records out and hands each one to `ReadAppLogToBuf`. The ring has
only the index of the oldest unread record, `-1` for none, and the index of
the next free cell.

* `log_ring_no_loss`: in a run that never has more unread records than cells
  and never drains a ring filled to the last cell, the records read are the
  records written, in order, and a complete drain leaves none unread.
* `log_ring_full_drain_loses`: filled to the last cell the two indexes are
  equal, the drain takes the ring for empty and drops every record.
-/
namespace DesPwd.L2.LogRing

open Circular Run List

/-- `MTLOG_SHM_RECORDS_COUNT`, language/c_cpp/mt_log.h. -/
def recordsCount : Nat := 10000

theorem recordsCount_pos : 0 < recordsCount := by decide

/-- `MYSIZEOF(sLogContent)` of `MTLog`. -/
def sLogContentLen : Nat := 256

/-- `MTLOG_TYPE_ERROR`. -/
def mtlogTypeError : UInt16 := 32

/-- mirrors language/c_cpp/mt_log.h:91-103 -/
structure MTLog where
  iCustVmemIndex : Int
  dwLogConfigId : UInt32
  dwLogSeq : UInt32
  qwLogTime : UInt64
  iAppId : Int
  iModuleId : Int
  wLogType : UInt16
  iVarmemIndex : Int
  sLogContent : List UInt8

/-- A record up to its two vmem handles, which `ReadAppLogToBuf` clears in the
ring when it frees them. -/
def MTLog.key (r : MTLog) : MTLog := { r with iCustVmemIndex := 0, iVarmemIndex := 0 }

/-- mirrors mt_log.h:105-112 -/
structure MTLogShm where
  iLogStarIndex : Int
  iWriteIndex : Nat
  sLogList : Nat → MTLog

/-! ## Writing -/

/-- What one call of `MtReport_Log` reads from outside the ring: the clock, the
current log config, the shared sequence counter, the formatted text and the
handles the vmem returns. -/
structure LogCall where
  tvSec : UInt64
  tvUsec : UInt64
  iLogType : UInt16
  iAppId : Int
  iModuleId : Int
  dwCfgId : UInt32
  dwLogSeq : UInt32
  bCustFlag : Bool
  custVmemRet : Int
  sLogBuf : List UInt8
  saveVmemRet : Int

/-- The text put in the place of one that the vmem did not take. -/
def saveFailedText (ret : Int) : List UInt8 :=
  ("write shm log failed, SaveDataToVarmem ret:" ++ toString ret).toUTF8.toList

/-- The record that a call stores; mirrors language/c_cpp/mt_log.c:886-942 -/
def LogCall.record (c : LogCall) : MTLog :=
  let dwSeq := if c.dwLogSeq = 0 then 1 else c.dwLogSeq
  let r : MTLog :=
    { iCustVmemIndex := if c.bCustFlag then c.custVmemRet else 0
      dwLogConfigId := c.dwCfgId
      dwLogSeq := dwSeq
      qwLogTime := c.tvSec * 1000000 + c.tvUsec
      iAppId := c.iAppId
      iModuleId := c.iModuleId
      wLogType := c.iLogType
      iVarmemIndex := -1
      sLogContent := c.sLogBuf }
  if c.sLogBuf.length < sLogContentLen then r
  else if c.saveVmemRet ≤ 0 then
    { r with wLogType := mtlogTypeError, sLogContent := saveFailedText c.saveVmemRet }
  else
    { r with iVarmemIndex := c.saveVmemRet, sLogContent := c.sLogBuf.take sLogContentLen }

/-- mirrors mt_log.c:879-943 -/
def mtReportLog (m : MTLogShm) (c : LogCall) : MTLogShm :=
  let iIndex := m.iWriteIndex
  { iWriteIndex := next recordsCount iIndex
    iLogStarIndex := if m.iLogStarIndex < 0 then iIndex else m.iLogStarIndex
    sLogList := Function.update m.sLogList iIndex c.record }

/-! ## Draining -/

/-- What `ReadAppLogToBuf` gives back: its return code and the two handles it
leaves in the record. -/
structure BufRes where
  ret : Int
  iCustVmemIndex : Int
  iVarmemIndex : Int

def MTLog.setHandles (r : MTLog) (b : BufRes) : MTLog :=
  { r with iCustVmemIndex := b.iCustVmemIndex, iVarmemIndex := b.iVarmemIndex }

/-- How the read loop ends: at its test or by `break`, or by the `return` after
a failed `ReadAppLogToBuf`. -/
inductive LoopEnd where
  | done
  | returned
  deriving DecidableEq

section Drain

-- `σ` is the read side: the config, its send buffers and the vmem
variable {σ : Type} (toBuf : σ → MTLog → σ × BufRes)

def MTLogShm.incStar (m : MTLogShm) : MTLogShm :=
  { m with iLogStarIndex := next recordsCount m.iLogStarIndex.toNat }

/-- The record at `iLogStarIndex`. -/
def MTLogShm.setStar (m : MTLogShm) (r : MTLog) : MTLogShm :=
  { m with sLogList := Function.update m.sLogList m.iLogStarIndex.toNat r }

structure LoopState (σ : Type) where
  shm : MTLogShm
  reader : σ
  read : List MTLog

/-- The `while` of `ReadAppLog` over one ring, `none` when it is not through
after the given number of rounds;
mirrors slog_mtreport_client/mtreport_client.cpp:1473-1494 -/
def readLoop (now : UInt32) : Nat → LoopState σ → Option (LoopState σ × LoopEnd)
  | 0, _ => none
  | fuel + 1, st =>
    let m := st.shm
    if 0 ≤ m.iLogStarIndex ∧ m.iLogStarIndex ≠ m.iWriteIndex then
      let plog := m.sLogList m.iLogStarIndex.toNat
      if plog.dwLogSeq = 0 then
        if now ≤ (plog.qwLogTime / 1000000 + 5).toUInt32 then
          some ({ st with shm := m.incStar }, .done)
        else some (st, .done)
      else
        let (reader, b) := toBuf st.reader plog
        let m := m.setStar (plog.setHandles b)
        if b.ret < 0 then some ({ st with shm := m, reader := reader }, .returned)
        else readLoop now fuel { shm := m.incStar, reader := reader, read := st.read ++ [plog] }
    else some (st, .done)

/-- The part of `ReadAppLog` for one ring;
mirrors mtreport_client.cpp:1472-1498 -/
def readAppLog (now : UInt32) (st : LoopState σ) : Option (LoopState σ × LoopEnd) :=
  match readLoop toBuf now (recordsCount + 1) st with
  | some (st', .done) =>
    if st'.shm.iLogStarIndex = st'.shm.iWriteIndex then
      some ({ st' with shm := { st'.shm with iLogStarIndex := -1 } }, .done)
    else some (st', .done)
  | r => r

/-! ## Runs -/

inductive Label where
  | log (c : LogCall)
  | drain (now : UInt32)

/-- One ring with its reader, the records written and read so far, and whether
the last call was a drain that went through to its end. -/
structure Sys (σ : Type) extends LoopState σ where
  written : List MTLog
  drained : Bool

/-- The ring as `MtReport_Init` leaves it, mirrors mt_log.c:231 -/
def Sys.init (reader : σ) (cells : Nat → MTLog) : Sys σ :=
  { shm := { iLogStarIndex := -1, iWriteIndex := 0, sLogList := cells }
    reader := reader, read := [], written := [], drained := true }

def Sys.step (s : Sys σ) : Label → Option (Sys σ)
  | .log c => some { s with
      shm := mtReportLog s.shm c, written := s.written ++ [c.record], drained := false }
  | .drain now => (readAppLog toBuf now s.toLoopState).map fun r =>
      { s with toLoopState := r.1, drained := r.2 = .done }

/-- A record may be written only while a cell is free. -/
def BelowCapacity (s : Sys σ) : Label → Prop
  | .log _ => s.written.length - s.read.length < recordsCount
  | .drain _ => True

/-- A drain starts on a ring that is not filled to the last cell. -/
def NotFull (s : Sys σ) : Label → Prop
  | .log _ => True
  | .drain _ => ¬ (0 ≤ s.shm.iLogStarIndex ∧ s.shm.iLogStarIndex = s.shm.iWriteIndex)

/-- Every record is read at most once and in write order, and none is left
when a drain has gone through. -/
def NoLoss (s : Sys σ) : Prop :=
  s.read.map MTLog.key <+: s.written.map MTLog.key ∧
    (s.drained = true → s.read.map MTLog.key = s.written.map MTLog.key)

/-! ## The unread records -/

@[simp] theorem MTLog.key_setHandles (r : MTLog) (b : BufRes) : (r.setHandles b).key = r.key := rfl

theorem LogCall.record_seq (c : LogCall) : c.record.dwLogSeq ≠ 0 := by
  have : (if c.dwLogSeq = 0 then 1 else c.dwLogSeq) ≠ 0 := by
    split
    · decide
    · assumption
  unfold LogCall.record
  simp only []
  split
  · exact this
  · split <;> exact this

/-- The cells from `iLogStarIndex` to `iWriteIndex` hold `u`, each record
finished by its writer. -/
structure Holds (m : MTLogShm) (u : List MTLog) : Prop where
  seq : ∀ r ∈ u, r.dwLogSeq ≠ 0
  window : ∃ s : Nat, m.iLogStarIndex = s ∧ Window recordsCount m.sLogList s m.iWriteIndex u

/-- `u` is what the ring holds between two calls. -/
def RingInv (m : MTLogShm) (u : List MTLog) : Prop :=
  (u = [] ∧ m.iLogStarIndex = -1 ∧ m.iWriteIndex < recordsCount) ∨ (u ≠ [] ∧ Holds m u)

variable {m : MTLogShm} {u : List MTLog} {a : MTLog} {s : Sys σ}

theorem RingInv.mtReportLog (h : RingInv m u) (hu : u.length < recordsCount) (c : LogCall) :
    RingInv (mtReportLog m c) (u ++ [c.record]) := by
  refine .inr ⟨by simp, ?_⟩
  rcases h with ⟨rfl, hs, hw⟩ | ⟨-, hseq, s, hs, hwin⟩
  · refine ⟨by simp [c.record_seq], m.iWriteIndex, ?_, (Window.empty hw).push recordsCount_pos⟩
    simp [LogRing.mtReportLog, hs]
  refine ⟨fun r hr => ?_, s, ?_, hwin.push hu⟩
  · rcases mem_append.mp hr with hr | hr
    · exact hseq r hr
    · rw [mem_singleton.mp hr]
      exact c.record_seq
  · have : ¬ m.iLogStarIndex < 0 := by omega
    rw [LogRing.mtReportLog, if_neg this]
    exact hs

theorem Holds.head_window (h : Holds m (a :: u)) : m.sLogList m.iLogStarIndex.toNat = a := by
  obtain ⟨s, hs, hw⟩ := h.window
  rw [hs]
  exact hw.head

/-- The loop's test: a ring that holds fewer records than cells is read on
exactly while a record is left. -/
theorem Holds.test_iff (h : Holds m u) (hu : u.length < recordsCount) :
    (0 ≤ m.iLogStarIndex ∧ m.iLogStarIndex ≠ m.iWriteIndex) ↔ u ≠ [] := by
  obtain ⟨s, hs, hw⟩ := h.window
  have := hw.start_eq_stop_iff
  rw [hs, Ne, Int.natCast_inj, this]
  simp [Nat.ne_of_lt hu]

theorem Holds.taken {b : MTLog} (h : Holds m (a :: u)) : Holds (m.setStar b).incStar u := by
  obtain ⟨s, hs, hw⟩ := h.window
  refine ⟨fun r hr => h.seq r (mem_cons_of_mem _ hr), next recordsCount s, ?_, ?_⟩
  · simp [MTLogShm.incStar, MTLogShm.setStar, hs]
  · simp only [MTLogShm.setStar, hs]
    exact hw.set_head.pop

/-- A record that was not taken stays, with the handles it was left with. -/
theorem Holds.kept (h : Holds m (a :: u)) (b : BufRes) :
    Holds (m.setStar (a.setHandles b)) (a.setHandles b :: u) := by
  obtain ⟨s, hs, hw⟩ := h.window
  refine ⟨fun r hr => ?_, s, hs, ?_⟩
  · rcases mem_cons.mp hr with rfl | hr
    · exact h.seq a mem_cons_self
    · exact h.seq r (mem_cons_of_mem _ hr)
  · simp only [MTLogShm.setStar, hs]
    exact hw.set_head

/-- **The read loop.** It ends within as many rounds as there are records and
one, with the records it read taken from the front, none left unless
`ReadAppLogToBuf` failed. -/
theorem readLoop_spec (now : UInt32) : ∀ u fuel st,
    Holds st.shm u → u.length < recordsCount → u.length < fuel →
    ∃ st' e u', readLoop toBuf now fuel st = some (st', e) ∧ Holds st'.shm u' ∧
      st'.read.map MTLog.key ++ u'.map MTLog.key = st.read.map MTLog.key ++ u.map MTLog.key ∧
      (u' = [] ↔ e = .done) := by
  intro u
  induction u with
  | nil =>
    intro fuel st h hu hf
    obtain ⟨fuel, rfl⟩ : ∃ n, fuel = n + 1 := ⟨fuel - 1, by omega⟩
    have ht : ¬ (0 ≤ st.shm.iLogStarIndex ∧ st.shm.iLogStarIndex ≠ st.shm.iWriteIndex) := by
      rw [h.test_iff hu]
      simp
    exact ⟨st, .done, [], by simp [readLoop, if_neg ht], h, rfl, by simp⟩
  | cons a u ih =>
    intro fuel st h hu hf
    obtain ⟨fuel, rfl⟩ : ∃ n, fuel = n + 1 := ⟨fuel - 1, by omega⟩
    have ht := (h.test_iff hu).mpr (by simp)
    have hseq : a.dwLogSeq ≠ 0 := h.seq a mem_cons_self
    simp only [readLoop, if_pos ht, h.head_window, if_neg hseq]
    split
    · exact ⟨_, .returned, _, rfl, h.kept _, by simp, by simp⟩
    · obtain ⟨st', e, u', he, hh, hk, hd⟩ :=
        ih fuel ⟨_, (toBuf st.reader a).1, st.read ++ [a]⟩ h.taken (Nat.lt_of_succ_lt hu)
          (by simpa using hf)
      exact ⟨st', e, u', he, hh, by simpa using hk, hd⟩

theorem readAppLog_spec (now : UInt32) {st : LoopState σ}
    (h : RingInv st.shm u) (hu : u.length < recordsCount) :
    ∃ st' e u', readAppLog toBuf now st = some (st', e) ∧ RingInv st'.shm u' ∧
      st'.read.map MTLog.key ++ u'.map MTLog.key = st.read.map MTLog.key ++ u.map MTLog.key ∧
      (e = .done → u' = []) := by
  rcases h with ⟨rfl, hs, hw⟩ | ⟨hne, h⟩
  · have hl : readLoop toBuf now (recordsCount + 1) st = some (st, .done) := by
      rw [readLoop, if_neg (by omega)]
    have hne : ¬ st.shm.iLogStarIndex = st.shm.iWriteIndex := by omega
    refine ⟨st, .done, [], ?_, .inl ⟨rfl, hs, hw⟩, rfl, fun _ => rfl⟩
    rw [readAppLog, hl]
    exact if_neg hne
  · obtain ⟨st', e, u', hl, hh, hk, hd⟩ :=
      readLoop_spec toBuf now u (recordsCount + 1) st h hu (by omega)
    rw [readAppLog, hl]
    obtain ⟨s, hs, hw⟩ := hh.window
    cases e with
    | done =>
      obtain rfl := hd.mpr rfl
      have heq : st'.shm.iLogStarIndex = st'.shm.iWriteIndex := by
        rw [hs, Int.natCast_inj, hw.start_eq_stop_iff]
        exact .inl rfl
      exact ⟨_, .done, [], if_pos heq, .inl ⟨rfl, rfl, hw.stop_lt⟩, hk, fun _ => rfl⟩
    | returned =>
      exact ⟨st', .returned, u', rfl, .inr ⟨by simp [hd], hh⟩, hk, by simp⟩

/-! ## No record is lost -/

/-- The unread records `u` are those written after the last one read. -/
structure SysInv (s : Sys σ) (u : List MTLog) : Prop where
  ring : RingInv s.shm u
  split : s.read.map MTLog.key ++ u.map MTLog.key = s.written.map MTLog.key
  drained : s.drained = true → u = []

section

variable (h : SysInv s u)
include h

theorem SysInv.unread : s.written.length - s.read.length = u.length := by
  have := congrArg List.length h.split
  simp only [length_append, length_map] at this
  omega

theorem SysInv.noLoss : NoLoss s :=
  ⟨⟨u.map MTLog.key, h.split⟩, fun hd => by
    have := h.split
    rwa [h.drained hd, map_nil, append_nil] at this⟩

omit h in
theorem SysInv.init (reader : σ) (cells : Nat → MTLog) : SysInv (Sys.init reader cells) [] :=
  ⟨.inl ⟨rfl, rfl, recordsCount_pos⟩, rfl, fun _ => rfl⟩

theorem SysInv.log (hu : u.length < recordsCount) (c : LogCall) :
    ∃ s', Sys.step toBuf s (.log c) = some s' ∧ SysInv s' (u ++ [c.record]) ∧ s'.read = s.read :=
  ⟨_, rfl, ⟨h.ring.mtReportLog hu c, by simp [← h.split], by simp⟩, rfl⟩

theorem SysInv.drain (hu : u.length < recordsCount) (now : UInt32) :
    ∃ s' u', Sys.step toBuf s (.drain now) = some s' ∧ SysInv s' u' := by
  obtain ⟨st', e, u', he, hr, hk, hd⟩ := readAppLog_spec toBuf now h.ring hu
  refine ⟨_, u', by rw [Sys.step, he]; rfl, hr, hk.trans h.split, fun hdr => hd ?_⟩
  simpa using hdr

/-- The two indexes are equal on a ring in use exactly when every cell holds
an unread record. -/
theorem SysInv.full_iff :
    (0 ≤ s.shm.iLogStarIndex ∧ s.shm.iLogStarIndex = s.shm.iWriteIndex) ↔
      u.length = recordsCount := by
  rcases h.ring with ⟨rfl, hs, -⟩ | ⟨hne, hh⟩
  · have := recordsCount_pos
    rw [length_nil]
    omega
  · obtain ⟨t, ht, hw⟩ := hh.window
    rw [ht, Int.natCast_inj, hw.start_eq_stop_iff]
    simp [hne]

theorem SysInv.fits : u.length ≤ recordsCount := by
  rcases h.ring with ⟨rfl, -, -⟩ | ⟨-, hh⟩
  · exact Nat.zero_le _
  · obtain ⟨_, -, hw⟩ := hh.window
    exact hw.fits

end

theorem SysInv.step {l : Label} (h : ∃ u, SysInv s u) (hok : BelowCapacity s l ∧ NotFull s l) :
    ∃ s', Sys.step toBuf s l = some s' ∧ ∃ u, SysInv s' u := by
  obtain ⟨u, h⟩ := h
  cases l with
  | log c =>
    have hu : u.length < recordsCount := h.unread ▸ hok.1
    obtain ⟨s', he, hi, -⟩ := h.log toBuf hu c
    exact ⟨s', he, _, hi⟩
  | drain now =>
    have hu : u.length < recordsCount :=
      Nat.lt_of_le_of_ne h.fits fun he => hok.2 (h.full_iff.mpr he)
    obtain ⟨s', u', he, hi⟩ := h.drain toBuf hu now
    exact ⟨s', he, u', hi⟩

/-- **No record is lost below capacity.** Whatever the calls write and
whatever `ReadAppLogToBuf` answers, in a run that writes only while a cell is
free and drains only while one is, every record is read once and in order. -/
theorem log_ring_no_loss (reader : σ) (cells : Nat → MTLog) (ls : List Label)
    (hok : Meets (Sys.step toBuf) (fun s l => BelowCapacity s l ∧ NotFull s l) ls
      (Sys.init reader cells)) :
    ∃ s', run (Sys.step toBuf) ls (Sys.init reader cells) = some s' ∧ NoLoss s' := by
  obtain ⟨s', hr, u, hi⟩ := run_inv
    (fun _ _ => SysInv.step toBuf) ⟨[], SysInv.init reader cells⟩ hok
  exact ⟨s', hr, hi.noLoss⟩

end Drain

/-! ## The full ring -/

/-- A reader that takes every record. -/
def takeAll (_ : Unit) (_ : MTLog) : Unit × BufRes := ((), ⟨0, 0, 0⟩)

def emptyLog : MTLog := ⟨0, 0, 0, 0, 0, 0, 0, 0, []⟩

def oneCall : LogCall := ⟨1, 0, 16, 1, 1, 1, 1, false, 0, [], 0⟩

theorem log_ring_no_loss_three_records :
    let ls : List Label := [.log oneCall, .log { oneCall with iAppId := 2 }, .drain 1, .log oneCall,
      .drain 2]
    ∃ s', run (Sys.step takeAll) ls (Sys.init () fun _ => emptyLog) = some s' ∧ NoLoss s' := by
  refine log_ring_no_loss takeAll () (fun _ => emptyLog) _ ?_
  iterate 5
    refine ⟨by simp only [BelowCapacity, NotFull]; decide +kernel, fun s' hs => ?_⟩
    cases hs
  trivial

theorem run_log {s : Sys Unit} {u : List MTLog} (c : LogCall) :
    ∀ n, SysInv s u → u.length + n ≤ recordsCount →
      Meets (Sys.step takeAll) BelowCapacity (List.replicate n (.log c)) s ∧
      ∃ s' u', run (Sys.step takeAll) (List.replicate n (.log c)) s = some s' ∧ SysInv s' u' ∧
        u'.length = u.length + n ∧ s'.read = s.read := by
  intro n
  induction n generalizing s u with
  | zero => exact fun h _ => ⟨trivial, s, u, rfl, h, rfl, rfl⟩
  | succ n ih =>
    intro h hn
    obtain ⟨s1, he, h1, hr1⟩ := h.log takeAll (by omega) c
    obtain ⟨hm, s', u', hr, h', hl, hr'⟩ := ih h1 (by simp; omega)
    refine ⟨⟨?_, fun s2 hs2 => ?_⟩, s', u', ?_, h', ?_, hr'.trans hr1⟩
    · have := h.unread
      show _ < _
      omega
    · rw [he] at hs2
      cases hs2
      exact hm
    · rw [replicate_succ, run, he]
      exact hr
    · rw [hl, length_append, length_singleton]
      omega

/-- **The full ring is taken for empty.** `MTLOG_SHM_RECORDS_COUNT` records
written to the empty ring stay within its capacity, and the drain that follows
goes through, resets `iLogStarIndex` and has read none of them. -/
theorem log_ring_full_drain_loses : ∃ (ls : List Label) (s' : Sys Unit),
      Meets (Sys.step takeAll) BelowCapacity ls (Sys.init () fun _ => emptyLog) ∧
      run (Sys.step takeAll) ls (Sys.init () fun _ => emptyLog) = some s' ∧
      s'.drained = true ∧ s'.read = [] ∧ s'.written.length = recordsCount ∧
      s'.shm.iLogStarIndex = -1 ∧ ¬ NoLoss s' := by
  -- named, so that nothing unfolds the list of writes
  obtain ⟨n, hn⟩ : ∃ n, n = recordsCount := ⟨_, rfl⟩
  obtain ⟨hm, s, u, hr, h, hl, hread⟩ :=
    run_log oneCall n (SysInv.init () fun _ => emptyLog) (by simp [hn])
  rw [length_nil, hn] at hl
  obtain ⟨-, hfull⟩ := h.full_iff.mpr hl
  have hlen : s.written.length = recordsCount := by
    have := h.unread
    rw [hread] at this
    simpa [Sys.init, hl] using this
  -- the loop test fails at once, the reset after the loop applies
  let s' : Sys Unit := { s with shm := { s.shm with iLogStarIndex := -1 }, drained := true }
  have hd : Sys.step takeAll s (.drain 0) = some s' := by
    have hloop : readLoop takeAll 0 (recordsCount + 1) s.toLoopState =
        some (s.toLoopState, .done) := by
      rw [readLoop, if_neg fun ht => ht.2 hfull]
    rw [Sys.step, readAppLog, hloop]
    simp [hfull, s']
  have hm' : Meets (Sys.step takeAll) BelowCapacity
      (List.replicate n (.log oneCall) ++ [.drain 0]) (Sys.init () fun _ => emptyLog) :=
    hm.append fun _ _ => ⟨trivial, fun _ _ => trivial⟩
  refine ⟨_, s', hm', ?_, rfl, hread, hlen, rfl, fun hno => ?_⟩
  · rw [run_append, hr, Option.bind_some, run, hd]
    rfl
  · have := congrArg List.length (hno.2 rfl)
    rw [length_map, length_map, hlen, hread] at this
    exact absurd this (by decide)

end DesPwd.L2.LogRing
