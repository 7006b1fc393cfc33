import DesPwd.L4App.ShmLog

/-!
# A remote log record in the server's ring

`RemoteShmLog` writes a record that another server sent, under the split of
`WriteAppLogToShm`: the first 256 bytes of a long text into the slot, and what
follows the first 252 into the vmem. But it takes the second part from
`sLogContent` itself, which ends after 256 bytes: behind the four bytes that are in
both parts it saves the slots that follow in the ring, and behind the last slot
whatever stands behind the list.

The layout of a slot is that of the packed `TSLog`. The log line about a full ring or
a failed save is left out, and so is the copy to the standard output.

* `remoteStoreText_spec`: what is stored for a text.
* `remote_log_iff`: when the text is read back.
* `remote_log_foreign`: 300 letters of which 256 are read back.
-/
namespace DesPwd.L4.RemoteShmLog

open Bytes Run Option
open List hiding Vector
open L1.LogCust (Cust Field isSet)
open L2.SvVmem (Store Op)
open L4.ShmLog

/-! ## The record and the ring -/

/-- mirrors lib/my_proto/top_proto.proto:5-22, with the defaults of the optional
fields -/
structure SlogLogInfo where
  uint32AppId : UInt32
  uint32ModuleId : UInt32
  uint64LogTime : UInt64
  uint32LogType : UInt32
  bytesLog : Bytes
  uint32LogConfigId : UInt32
  uint32LogHost : UInt32
  uint32Cust1 : UInt32
  uint32Cust2 : UInt32
  int32Cust3 : Int32
  int32Cust4 : Int32
  bytesCust5 : Bytes
  bytesCust6 : Bytes
  custFlag : UInt32

/-- What the model of a ring leaves out of its memory. -/
structure RingMem where
  iLogMaxCount : Nat
  cReserved : Nat → Vector UInt8 12
  /-- the mapped memory behind the list -/
  behindList : Bytes

/-- `c_str`, up to its end -/
def cString (s : Bytes) : Bytes := s.takeWhile (· ≠ 0)

/-- A slot in memory; mirrors lib/mtagent_api_open/supper_log.h:1674-1695 -/
def slotBytes (s : TSLog) (cReserved : Vector UInt8 12) : Bytes :=
  s.cust.bCustFlag :: (le32 s.cust.dwCust_1 ++ le32 s.cust.dwCust_2 ++ le32 s.cust.iCust_3.toUInt32 ++
    le32 s.cust.iCust_4.toUInt32 ++ s.cust.szCust_5.bytes ++ s.cust.szCust_6.bytes ++
    le32 s.dwLogConfigId ++ le32 s.dwLogHost ++ le32 s.dwLogSeq ++ (put64 s.qwLogTime).reverse ++
    le32 s.iAppId.toUInt32 ++ le32 s.iModuleId.toUInt32 ++ le16 s.wLogType ++
    le32 (Int32.ofInt s.iContentIndex).toUInt32 ++ le32 s.dwStartWriteLogTime ++ cReserved.toList ++
    s.sLogContent.bytes)

/-- The memory behind the `sLogContent` of slot `i`. -/
def behind (m : RingMem) (shm : TSLogShm) (i : Nat) : Bytes :=
  ((List.range' (i + 1) (m.iLogMaxCount - (i + 1))).flatMap fun j =>
    slotBytes (shm.sLogList j) (m.cReserved j)) ++ m.behindList

/-- `n` bytes from the front of a memory; `none` is a read outside. -/
def readMem (mem : Bytes) (n : Nat) : Option Bytes :=
  if n ≤ mem.length then some (mem.take n) else none

/-! ## Writing -/

/-- mirrors lib/mtagent_api_open/supper_log.cpp:4048-4068 -/
def remoteCust (l : SlogLogInfo) (old : Cust) : Cust :=
  let flag := l.custFlag.toUInt8
  { bCustFlag := flag
    dwCust_1 := if isSet flag .c1 then l.uint32Cust1 else old.dwCust_1
    dwCust_2 := if isSet flag .c2 then l.uint32Cust2 else old.dwCust_2
    iCust_3 := if isSet flag .c3 then l.int32Cust3 else old.iCust_3
    iCust_4 := if isSet flag .c4 then l.int32Cust4 else old.iCust_4
    szCust_5 :=
      if isSet flag .c5 then old.szCust_5.strncpy (cString l.bytesCust5) else old.szCust_5.clear
    szCust_6 :=
      if isSet flag .c6 then old.szCust_6.strncpy (cString l.bytesCust6) else old.szCust_6.clear }

/-- The fields of the record, without its text.
mirrors supper_log.cpp:4046-4073 -/
def remoteFields (l : SlogLogInfo) (slot : TSLog) : TSLog :=
  { slot with
    cust := remoteCust l slot.cust
    iAppId := l.uint32AppId.toInt32
    iModuleId := l.uint32ModuleId.toInt32
    qwLogTime := l.uint64LogTime
    wLogType := l.uint32LogType.toUInt16
    dwLogConfigId := l.uint32LogConfigId
    dwLogHost := l.uint32LogHost }

/-- `mem` is the memory behind `sLogContent`.
mirrors supper_log.cpp:4075-4107 -/
def remoteStoreText (env : Env) (l : SlogLogInfo) (slot : TSLog) (vmem : Store) (mem : Bytes) :
    Option Filled :=
  let iWrite := l.bytesLog.length
  if iWrite < memlogBufLength then do
    let sLogContent ← slot.sLogContent.memcpy 0 (cString l.bytesLog ++ [0])
    pure ⟨{ slot with iContentIndex := -1, sLogContent }, vmem, none⟩
  else do
    let sLogContent ← slot.sLogContent.memcpy 0 (l.bytesLog.take memlogBufLength)
    if env.iVmemShmKey ≤ 0 then do
      let sLogContent ← sLogContent.memcpy (memlogBufLength - 1) [0]
      pure ⟨{ slot with iContentIndex := -1, sLogContent }, vmem, none⟩
    else do
      -- the pointer is into the slot, not into the text
      let pdata ← readMem (sLogContent.bytes.drop (memlogBufLength - 4) ++ mem)
        (iWrite - memlogBufLength + 4)
      match vmem.save pdata env.now with
      | (vmem, ret) =>
        if ret < 0 then do
          let sLogContent ← sLogContent.memcpy (memlogBufLength - 1) [0]
          pure ⟨{ slot with wLogType := slogTypeError, iContentIndex := -1, sLogContent }, vmem,
            some ret⟩
        else pure ⟨{ slot with iContentIndex := ret, sLogContent }, vmem, some ret⟩

/-- What `RemoteShmLog` leaves; `iIndex` is the slot it filled, `none` when the ring
is full. -/
structure RemoteWritten where
  shm : TSLogShm
  vmem : Store
  iIndex : Option Nat
  save : Option Int

/-- mirrors supper_log.cpp:4000-4110 -/
def remoteShmLog (env : Env) (shm : TSLogShm) (m : RingMem) (l : SlogLogInfo) (vmem : Store) :
    Option RemoteWritten :=
  let iIndex := shm.iWriteIndex
  if (iIndex : Int) = shm.iLogStarIndex then some ⟨shm, vmem, none, none⟩
  else do
    let (dwSeq, shm) := takeIndex env shm
    let f ← remoteStoreText env l (remoteFields l (shm.sLogList iIndex)) vmem (behind m shm iIndex)
    let shm := { shm with
      sLogList := Function.update shm.sLogList iIndex { f.slot with dwLogSeq := dwSeq } }
    pure ⟨modifyLogStartIndex shm iIndex, f.vmem, some iIndex, f.save⟩

/-! ## The property -/

/-- The call returns, and any later read of the slot that it filled gives the text of
the record, as long as nobody frees its second part. -/
def ReadsBack (env : Env) (shm : TSLogShm) (m : RingMem) (l : SlogLogInfo) (vmem : Store) : Prop :=
  ∃ w i, remoteShmLog env shm m l vmem = some w ∧ w.iIndex = some i ∧
    ∀ (later : List Op) (vmem' : Store), Meets Store.exec Store.Legal later w.vmem →
      run Store.exec later w.vmem = some vmem' →
      (∀ now, .free (w.shm.sLogList i).iContentIndex now ∉ later) →
      ∀ (iLogIndex : Int) (sLogBuf : Buf logBufLen),
        ∃ r, getShmLog vmem'.pool (w.shm.sLogList i) iLogIndex sLogBuf = some r ∧
          r.sLogBuf.cStr = some l.bytesLog

/-! ## The text in the slot -/

section Store

variable {env : Env} {l : SlogLogInfo} {slot : TSLog} {vmem : Store} {mem : Bytes}

theorem cString_cons_of_ne {x : UInt8} (hx : x ≠ 0) (s : Bytes) : cString (x :: s) = x :: cString s :=
  takeWhile_cons_of_pos (decide_eq_true hx)

theorem cString_of_not_mem {s : Bytes} (h0 : 0 ∉ s) : cString s = s := by
  induction s with
  | nil => rfl
  | cons x s ih =>
    rw [mem_cons, not_or] at h0
    rw [cString_cons_of_ne (Ne.symm h0.1), ih h0.2]

theorem cString_zero_le (s : Bytes) : cString s ++ [0] <+: s ++ [0] := by
  induction s with
  | nil => exact prefix_rfl
  | cons x s ih =>
    by_cases hx : x = 0
    · subst hx
      exact ⟨s ++ [0], rfl⟩
    · rw [cString_cons_of_ne hx]
      exact (prefix_cons_inj x).mpr ih

theorem zero_not_mem_cString (s : Bytes) : 0 ∉ cString s := by
  intro h
  have hall := all_takeWhile (p := (· ≠ (0 : UInt8))) (l := s)
  rw [List.all_eq_true] at hall
  exact absurd (hall 0 h) (by decide)

/-- The bytes that stand for a text: its first 256, and then the memory behind the
slot. -/
def storedLong (l : SlogLogInfo) (mem : Bytes) : Bytes :=
  l.bytesLog.take memlogBufLength ++ mem.take (l.bytesLog.length - memlogBufLength)

theorem length_storedLong (hmem : l.bytesLog.length - memlogBufLength ≤ mem.length) :
    (storedLong l mem).length = l.bytesLog.length := by
  rw [storedLong, length_append, length_take, length_take]
  omega

theorem remoteStoreText_spec (slot : TSLog) (hvm : L2.SvVmem.Inv vmem.pool vmem.live)
    (hkey : 0 < env.iVmemShmKey) (h0 : 0 ∉ l.bytesLog) (hmax : l.bytesLog.length ≤ slogMaxLineLen)
    (hmem : l.bytesLog.length - memlogBufLength ≤ mem.length) :
    ∃ f, remoteStoreText env l slot vmem mem = some f ∧ ((∀ ret, f.save = some ret → 0 ≤ ret) →
        Stored (cString (storedLong l mem)) f.slot f.vmem) ∧
      L2.SvVmem.Inv f.vmem.pool f.vmem.live := by
  have hmemlog : memlogBufLength = 256 := rfl
  by_cases hlen : l.bytesLog.length < memlogBufLength
  · obtain ⟨b1, h1, hp1⟩ := slot.sLogContent.memcpy_front (l.bytesLog ++ [0])
      (by rw [length_append, length_singleton]; omega)
    have hshort : storedLong l mem = l.bytesLog := by
      rw [storedLong, take_of_length_le (by omega), Nat.sub_eq_zero_of_le (by omega),
        take_zero, append_nil]
    rw [remoteStoreText, if_pos hlen, hshort, cString_of_not_mem h0, h1]
    exact ⟨_, rfl, fun _ => .short rfl hp1, hvm⟩
  obtain ⟨b1, h1, hb1⟩ := slot.sLogContent.memcpy_take l.bytesLog (by omega)
  have htake : (storedLong l mem).take memlogBufLength = b1.bytes := by
    rw [storedLong, ← hb1, take_append_of_le_length (by rw [b1.length_eq]),
      take_of_length_le (by rw [b1.length_eq])]
  -- what is read from the slot on is what stands for the text
  have hread : readMem (b1.bytes.drop (memlogBufLength - 4) ++ mem)
      (l.bytesLog.length - memlogBufLength + 4) =
        some ((storedLong l mem).drop (memlogBufLength - 4)) := by
    have hdrop : (b1.bytes.drop (memlogBufLength - 4)).length = 4 := by
      rw [length_drop, b1.length_eq, hmemlog]
    have hlong : (storedLong l mem).drop (memlogBufLength - 4) =
        b1.bytes.drop (memlogBufLength - 4) ++ mem.take (l.bytesLog.length - memlogBufLength) := by
      rw [storedLong, ← hb1, drop_append_of_le_length (by rw [b1.length_eq]; omega)]
    rw [readMem, if_pos (by rw [length_append]; omega), hlong, take_append,
      take_of_length_le (by omega), hdrop, Nat.add_sub_cancel]
  rw [remoteStoreText, if_neg hlen, h1]
  simp only [bind_eq_bind, bind_some, if_neg (Int.not_le.mpr hkey), hread]
  have hinv := Store.save_inv hvm ((storedLong l mem).drop (memlogBufLength - 4)) env.now
  by_cases hneg : (vmem.save ((storedLong l mem).drop (memlogBufLength - 4)) env.now).2 < 0
  · obtain ⟨b2, h2⟩ : ∃ b2, b1.memcpy (memlogBufLength - 1) [0] = some b2 :=
      ⟨_, dif_pos (by decide)⟩
    rw [if_pos hneg]
    exact ⟨_, rfl, fun hs => absurd (hs _ rfl) (Int.not_le.mpr hneg), hinv⟩
  · rw [if_neg hneg]
    have hpos := Int.not_lt.mp hneg
    have hsize := length_storedLong hmem
    have hbuf : logBufLen = slogMaxLineLen + 64 := rfl
    exact ⟨_, rfl, fun _ => .long hpos (by omega) (by omega) (cString_zero_le _) htake
      (Store.mem_live_save _ _ _ hpos), hinv⟩

theorem remoteStoreText_outside (slot : TSLog) (vmem : Store) (hkey : 0 < env.iVmemShmKey)
    (hmem : ¬ l.bytesLog.length - memlogBufLength ≤ mem.length) :
    remoteStoreText env l slot vmem mem = none := by
  obtain ⟨b1, h1, hb1⟩ := slot.sLogContent.memcpy_take l.bytesLog (by omega)
  have hread : readMem (b1.bytes.drop (memlogBufLength - 4) ++ mem)
      (l.bytesLog.length - memlogBufLength + 4) = none := by
    rw [readMem, if_neg]
    rw [length_append, length_drop, b1.length_eq]
    omega
  rw [remoteStoreText, if_neg (by omega), h1]
  simp [if_neg (Int.not_le.mpr hkey), hread]

/-- The bytes that stand for a text are the text exactly if it goes on in the memory
behind the slot. -/
theorem storedLong_eq_iff :
    storedLong l mem = l.bytesLog ↔ l.bytesLog.drop memlogBufLength <+: mem := by
  have hdrop : (l.bytesLog.drop memlogBufLength).length = l.bytesLog.length - memlogBufLength :=
    length_drop
  rw [prefix_iff_eq_take, hdrop, storedLong]
  constructor
  · intro h
    have hsplit := h.trans (take_append_drop memlogBufLength l.bytesLog).symm
    exact (append_cancel_left hsplit).symm
  · intro h
    rw [← h, take_append_drop]

end Store

/-! ## The ring -/

section Ring

variable {env : Env} {shm : TSLogShm} {m : RingMem} {l : SlogLogInfo} {vmem : Store}

/-- Taking the index changes no slot behind it. -/
theorem behind_takeIndex : behind m (takeIndex env shm).2 shm.iWriteIndex =
    behind m shm shm.iWriteIndex := by
  unfold behind
  congr 1
  refine flatMap_congr fun j hj => ?_
  have hne : j ≠ shm.iWriteIndex := by
    have := mem_range'.mp hj
    omega
  rw [takeIndex]
  dsimp only
  rw [Function.update_of_ne hne]

/-- What is stored for the record that the call writes. -/
def storedNow (env : Env) (shm : TSLogShm) (m : RingMem) (l : SlogLogInfo) (vmem : Store) :
    Option Filled :=
  remoteStoreText env l (remoteFields l ((takeIndex env shm).2.sLogList shm.iWriteIndex)) vmem
    (behind m shm shm.iWriteIndex)

/-- A ring that is not full takes the slot that was filled. -/
theorem remoteShmLog_of_stored {f : Filled} (hroom : (shm.iWriteIndex : Int) ≠ shm.iLogStarIndex)
    (hf : storedNow env shm m l vmem = some f) :
    ∃ w, remoteShmLog env shm m l vmem = some w ∧ w.iIndex = some shm.iWriteIndex ∧
      w.vmem = f.vmem ∧ w.save = f.save ∧
      w.shm.sLogList shm.iWriteIndex = { f.slot with dwLogSeq := (takeIndex env shm).1 } := by
  unfold storedNow at hf
  rw [remoteShmLog, if_neg hroom]
  dsimp only
  rw [behind_takeIndex, hf]
  refine ⟨_, rfl, rfl, rfl, rfl, ?_⟩
  rw [sLogList_modifyLogStartIndex]
  exact Function.update_self ..

theorem remoteShmLog_outside (hroom : (shm.iWriteIndex : Int) ≠ shm.iLogStarIndex)
    (hf : storedNow env shm m l vmem = none) : remoteShmLog env shm m l vmem = none := by
  unfold storedNow at hf
  rw [remoteShmLog, if_neg hroom]
  dsimp only
  rw [behind_takeIndex, hf]
  rfl

/-- A text is read back exactly if the bytes that stand for it are the text. -/
theorem readsBack_iff (hvm : L2.SvVmem.Inv vmem.pool vmem.live)
    (hroom : (shm.iWriteIndex : Int) ≠ shm.iLogStarIndex) (h0 : 0 ∉ l.bytesLog)
    (hkey : 0 < env.iVmemShmKey) (hmax : l.bytesLog.length ≤ slogMaxLineLen)
    (hmem : l.bytesLog.length - memlogBufLength ≤ (behind m shm shm.iWriteIndex).length)
    (hsave : ∀ w, remoteShmLog env shm m l vmem = some w → ∀ ret, w.save = some ret → 0 ≤ ret) :
    ReadsBack env shm m l vmem ↔ storedLong l (behind m shm shm.iWriteIndex) = l.bytesLog := by
  obtain ⟨f, hf, hstored, hinv⟩ := remoteStoreText_spec
    (remoteFields l ((takeIndex env shm).2.sLogList shm.iWriteIndex)) hvm hkey h0 hmax hmem
  obtain ⟨w, hw, hi, hwv, hws, hslot⟩ := remoteShmLog_of_stored hroom hf
  have hst := hstored fun ret h => hsave w hw ret (hws.trans h)
  have hget := hst.getShmLog (zero_not_mem_cString _) hinv
  constructor
  · rintro ⟨w', j, hw', hj, hread⟩
    obtain rfl := Option.some.inj (hw.symm.trans hw')
    obtain rfl := Option.some.inj (hi.symm.trans hj)
    -- a read right after the call
    obtain ⟨r, hr, hstr⟩ := hread [] w.vmem trivial rfl (fun _ h => by cases h) 0 (.zero logBufLen)
    rw [hslot, hwv] at hr
    obtain ⟨r', hr', hstr', -⟩ := hget [] f.vmem trivial rfl (fun _ h => by cases h)
      (takeIndex env shm).1 0 (.zero logBufLen)
    obtain rfl := Option.some.inj (hr.symm.trans hr')
    have htext := Option.some.inj (hstr'.symm.trans hstr)
    have hpre : l.bytesLog <+: storedLong l (behind m shm shm.iWriteIndex) := by
      rw [← htext]
      exact takeWhile_prefix _
    exact (hpre.eq_of_length (length_storedLong hmem).symm).symm
  · intro heq
    refine ⟨w, _, hw, hi, fun later vmem' hlater hrun hfree iLogIndex sLogBuf => ?_⟩
    rw [hwv] at hlater hrun
    rw [hslot] at hfree ⊢
    obtain ⟨r, hr, hstr, -⟩ := hget later vmem' hlater hrun hfree
      (takeIndex env shm).1 iLogIndex sLogBuf
    exact ⟨r, hr, by rw [hstr, heq, cString_of_not_mem h0]⟩

end Ring

/-- **Remote records.** In a ring that is not full, from any vmem that legal calls
lead to and if the vmem takes what it is given: a text without a zero of at most 1024
bytes is read back exactly if what it has behind its first 256 bytes stands in the
memory behind the slot. -/
theorem remote_log_iff (env : Env) (shm : TSLogShm) (m : RingMem) (l : SlogLogInfo)
    (ops : List Op) (vmem : Store)
    (hops : Meets Store.exec Store.Legal ops Store.initial)
    (hvm : run Store.exec ops Store.initial = some vmem)
    (h0 : 0 ∉ l.bytesLog) (hmax : l.bytesLog.length ≤ slogMaxLineLen)
    (hkey : 0 < env.iVmemShmKey) (hroom : (shm.iWriteIndex : Int) ≠ shm.iLogStarIndex)
    (hsave : ∀ w, remoteShmLog env shm m l vmem = some w → ∀ ret, w.save = some ret → 0 ≤ ret) :
    ReadsBack env shm m l vmem ↔
      l.bytesLog.drop memlogBufLength <+: behind m shm shm.iWriteIndex := by
  obtain ⟨vm, hrun, hinv⟩ := run_inv Store.exec_inv L2.SvVmem.Inv.initVmem hops
  obtain rfl := Option.some.inj (hrun.symm.trans hvm)
  by_cases hmem : l.bytesLog.length - memlogBufLength ≤ (behind m shm shm.iWriteIndex).length
  · rw [readsBack_iff hinv hroom h0 hkey hmax hmem hsave, storedLong_eq_iff]
  -- the read behind the slot leaves the mapped memory
  have hnone := remoteShmLog_outside hroom (remoteStoreText_outside
    (remoteFields l ((takeIndex env shm).2.sLogList shm.iWriteIndex)) vm hkey hmem)
  constructor
  · rintro ⟨w, j, hw, -⟩
    rw [hnone] at hw
    cases hw
  · intro hpre
    have := hpre.length_le
    rw [length_drop] at this
    omega

/-- A record with `n` letters. -/
def lettersRecord (n : Nat) : SlogLogInfo where
  uint32AppId := 7
  uint32ModuleId := 8
  uint64LogTime := 1700000000000123
  uint32LogType := 2
  bytesLog := List.replicate n 65
  uint32LogConfigId := 1
  uint32LogHost := 3
  uint32Cust1 := 0
  uint32Cust2 := 0
  int32Cust3 := 0
  int32Cust4 := 0
  bytesCust5 := []
  bytesCust6 := []
  custFlag := 0

def startMem : RingMem := ⟨4, fun _ => Vector.replicate 12 0, []⟩

/-- With 256 letters, on a server that has just started. -/
theorem remote_log_letters : ReadsBack startEnv startShm startMem (lettersRecord 256) Store.initial := by
  have hsave : (remoteShmLog startEnv startShm startMem (lettersRecord 256) Store.initial).map
      (·.save) = some (some 1048577) := by decide +kernel
  refine (remote_log_iff startEnv startShm startMem (lettersRecord 256) [] Store.initial trivial
    rfl (by decide +kernel) (by decide +kernel) (by decide) (by decide) fun w hw ret h => ?_).mpr ?_
  · rw [hw, map_some, h, Option.some.injEq, Option.some.injEq] at hsave
    rw [hsave]
    decide
  · exact ⟨_, rfl⟩

/-- **Foreign bytes.** Of 300 letters the slots behind give the rest: 256 letters are
read back. -/
theorem remote_log_foreign : (do
      let w ← remoteShmLog startEnv startShm startMem (lettersRecord 300) Store.initial
      let i ← w.iIndex
      let r ← getShmLog w.vmem.pool (w.shm.sLogList i) 0 (.zero logBufLen)
      pure (w.save, r.sLogBuf.cStr)) =
      some (some 4194305, some (List.replicate 256 65)) := by
  decide +kernel

end DesPwd.L4.RemoteShmLog
