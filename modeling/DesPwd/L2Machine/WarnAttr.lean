import DesPwd.Core.Run
import DesPwd.L1Encoding.AttrDay
import Mathlib.Data.UInt

/-!
# slog_monitor_server: the three slots of an attribute

For each attribute and machine the server keeps a `TWarnAttrReportInfo` in
shared memory: the value of the statistic slot of the last report (`dwCurVal`)
and of the two slots before it. `addReportToWarnAttrShm` adds a report to it;
`dealReportAttr` is the loop over the values of one packet.

A slot is a number of the day that `getDayOfMin` computes from the wall clock
and the static time of the attribute. The update compares slot numbers, but
before that it compares the seconds since the last report with two static
times, and the slot numbers of a day do not always grow.

* `Window`: the record holds the aggregates of its three slots.
* `three_slot_window`: it does after every run in which a report comes neither
  from an earlier slot nor, within two slots, after two static times.
* `three_slot_window_lost`: two reports that leave a record without the value
  of a slot.
* `slots_of_day_iff`: for which static times the slot numbers of a day grow.

Source files without a directory are in `slog_monitor_server/`.
-/
namespace DesPwd.L2.WarnAttr

open Run List
open L1.AttrDay (isValidStaticTime getStaticTimeMaxIdxOfDay mem_static_times)

/-! ## The slots of a day -/

/-- mirrors `TIME_INFO`, the time of the day in it -/
structure TimeInfo where
  hour : Nat
  min : Nat
  sec : Nat
  deriving DecidableEq

/-- The second of the local day; local time is `zone` seconds ahead of UTC. -/
def secOfDay (zone : Nat) (t : UInt32) : Nat := (t.toNat + zone) % 86400

/-- The number of the local day. -/
def dayOf (zone : Nat) (t : UInt32) : Nat := (t.toNat + zone) / 86400

/-- mirrors lib/mtagent_api_open/sv_str.cpp:193-205 -/
def uitotimeInfo (zone : Nat) (t : UInt32) : TimeInfo :=
  ⟨secOfDay zone t / 3600, secOfDay zone t / 60 % 60, secOfDay zone t % 60⟩

theorem minuteOfDay_eq (zone : Nat) (t : UInt32) :
    secOfDay zone t / 3600 * 60 + secOfDay zone t / 60 % 60 = secOfDay zone t / 60 := by
  omega

/-- The remainder is taken of the quotient, not of the minute.
mirrors lib/mtagent_api_open/supper_log.h:1896-1911 -/
def getDayOfMin (p : TimeInfo) (iStaticTime : Int) : Nat :=
  let st := if iStaticTime ≤ 0 then 1 else iStaticTime.toNat
  let i := (p.hour * 60 + p.min) / st
  let i := if i % st ≠ 0 ∨ p.sec > 0 then i + 1 else i
  -- numbered from 0
  let i := i - 1
  if i ≥ 1440 then 1439 else i

/-- The slot number that `DealReportAttr` computes for a time. -/
def slotOf (zone : Nat) (iStaticTime : Int) (t : UInt32) : Int :=
  getDayOfMin (uitotimeInfo zone t) iStaticTime

/-! ## The record -/

/-- mirrors supper_log.h:364-373 -/
inductive DataType where
  | sumReportM
  | sumReportMin
  | exReport
  | sumReportMax
  | sumReportTotal
  | strReportD
  | strReportDIp
  | dataUseLast
  deriving DecidableEq

def DataType.isStr : DataType → Bool
  | .strReportD | .strReportDIp => true
  | _ => false

/-- mirrors `TWarnAttrReportInfo` -/
structure WarnAttrReportInfo where
  iAttrId : Int
  iMachineId : Int
  dwPreLastVal : UInt32
  dwLastVal : UInt32
  dwCurVal : UInt32
  iMinIdx : Int
  dwLastReportIp : UInt32
  dwLastReportTime : UInt32
  bAttrDataType : DataType
  wStaticTime : UInt16
  deriving DecidableEq

/-- The hash of the records, by attribute and machine. -/
abbrev Shm := Int → Int → Option WarnAttrReportInfo

def Shm.set (shm : Shm) (p : WarnAttrReportInfo) (a m : Int) : Shm :=
  fun a' m' => if a' = a ∧ m' = m then some p else shm a' m'

theorem Shm.set_self (shm : Shm) (p : WarnAttrReportInfo) (a m : Int) :
    shm.set p a m a m = some p := by
  simp [Shm.set]

variable {a m k i st : Int} {h : List (Int × UInt32)} {ty : DataType} {v : UInt32}
  {p : WarnAttrReportInfo} {zone : Nat} {shm : Shm}

/-- `free` is the unused node the hash has for a new pair, as it was left.
mirrors `CSupperLog::GetWarnAttrInfo` -/
def Shm.getWarnAttrInfo (shm : Shm) (free : Option WarnAttrReportInfo) (a m : Int) :
    Option (WarnAttrReportInfo × Bool) :=
  match shm a m with
  | some p => some (p, true)
  | none => free.map fun p => (p, false)

/-- A value added to a slot that has one; mirrors
udp_sock.cpp:722-739 -/
def addToCur (iDataType : DataType) (dwCurVal dwVal : UInt32) : UInt32 :=
  match iDataType with
  | .sumReportMin => if dwVal < dwCurVal then dwVal else dwCurVal
  | .sumReportMax => if dwVal > dwCurVal then dwVal else dwCurVal
  | .dataUseLast => dwVal
  | _ => dwCurVal + dwVal

/-- The first value of a slot; a total goes on. -/
def startCur (iDataType : DataType) (dwCurVal dwVal : UInt32) : UInt32 :=
  if iDataType = .sumReportTotal then dwCurVal + dwVal else dwVal

/-- mirrors udp_sock.cpp:705 -/
def mayBeLost (now dwLastReportTime : UInt32) (iStaticTime : Int) : Bool :=
  now > dwLastReportTime + UInt32.ofInt (iStaticTime * 60 * 2)

namespace WarnAttrReportInfo

/-- Both slots before the new one are taken as slots without reports; mirrors
udp_sock.cpp:707-717 and 766-777 -/
def restart (p : WarnAttrReportInfo) (dwVal : UInt32) (iDataType : DataType) :
    WarnAttrReportInfo :=
  let old := if iDataType = .sumReportTotal then p.dwCurVal else 0
  { p with
    dwPreLastVal := old
    dwLastVal := old
    dwCurVal := startCur iDataType p.dwCurVal dwVal }

/-- mirrors udp_sock.cpp:704-779 -/
def addVal (p : WarnAttrReportInfo) (now dwVal : UInt32) (iMinIdx : Int) (iDataType : DataType)
    (iStaticTime : Int) : WarnAttrReportInfo :=
  if mayBeLost now p.dwLastReportTime iStaticTime then p.restart dwVal iDataType
  else if p.iMinIdx = iMinIdx then
    { p with dwCurVal := addToCur iDataType p.dwCurVal dwVal }
  else if p.iMinIdx + 1 = iMinIdx then
    { p with
      dwPreLastVal := p.dwLastVal
      dwLastVal := p.dwCurVal
      dwCurVal := startCur iDataType p.dwCurVal dwVal }
  else if p.iMinIdx + 2 = iMinIdx then
    { p with
      dwPreLastVal := p.dwCurVal
      dwLastVal := if iDataType = .sumReportTotal then p.dwCurVal else 0
      dwCurVal := startCur iDataType p.dwCurVal dwVal }
  else p.restart dwVal iDataType

/-- The fields of an unused node that a first report sets; mirrors
udp_sock.cpp:689-695 -/
def init (p : WarnAttrReportInfo) (a m : Int) (dwVal : UInt32) : WarnAttrReportInfo :=
  { p with iAttrId := a, iMachineId := m, dwPreLastVal := 0, dwLastVal := 0, dwCurVal := dwVal }

/-- What is set whether the record was found or not. -/
def stamp (p : WarnAttrReportInfo) (iMinIdx : Int) (dwLastReportTime : UInt32)
    (iDataType : DataType) (iStaticTime : Int) : WarnAttrReportInfo :=
  { p with
    bAttrDataType := iDataType
    wStaticTime := UInt16.ofInt iStaticTime
    iMinIdx := iMinIdx
    dwLastReportTime := dwLastReportTime }

end WarnAttrReportInfo

/-- mirrors udp_sock.cpp:674-799; `none` is `NULL` -/
def addReportToWarnAttrShm (shm : Shm) (free : Option WarnAttrReportInfo)
    (now dwLastReportAttrTime : UInt32) (a m : Int) (dwVal : UInt32) (iMinIdx : Int)
    (iDataType : DataType) (iStaticTime : Int) : Option WarnAttrReportInfo :=
  (shm.getWarnAttrInfo free a m).map fun (p, found) =>
    let p := if found then p.addVal now dwVal iMinIdx iDataType iStaticTime else p.init a m dwVal
    p.stamp iMinIdx dwLastReportAttrTime iDataType iStaticTime

/-! ## The values of a packet -/

/-- mirrors `AttrInfoBin`, what `DealReportAttr` reads of it -/
structure AttrInfoBin where
  iDataType : DataType
  iStaticTime : Int
  deriving DecidableEq

/-- One value of a packet and what the server's tables answer for it. -/
structure AttrVal where
  attrId : Int
  attrValue : UInt32
  /-- `GetAttrInfo` -/
  attrInfo : Option AttrInfoBin
  /-- the unused node of the hash of the records -/
  free : Option WarnAttrReportInfo
  /-- `AddStrAttrReportToShm` found a node -/
  strStored : Bool

/-- Who reports a value, and when. -/
structure Src where
  now : UInt32
  iMachineId : Int
  dwRemoteIp : UInt32

/-- mirrors udp_sock.cpp:1798-1829 -/
def dealMachineAttrReport (shm : Shm) (src : Src) (v : AttrVal) (info : AttrInfoBin) :
    Option WarnAttrReportInfo :=
  (shm.getWarnAttrInfo v.free v.attrId src.iMachineId).map fun (p, found) =>
    let p := { p with dwLastReportTime := src.now }
    if !found then
      { p with
        iAttrId := v.attrId
        iMachineId := src.iMachineId
        bAttrDataType := info.iDataType
        wStaticTime := UInt16.ofInt info.iStaticTime }
    else if p.bAttrDataType ≠ info.iDataType then { p with bAttrDataType := info.iDataType }
    else { p with wStaticTime := UInt16.ofInt info.iStaticTime }

/-- The record that one value leaves, if it reaches one; the string attributes'
own records are another hash. mirrors udp_sock.cpp:1846-1903 -/
def recordOfVal (zone : Nat) (shm : Shm) (src : Src) (v : AttrVal) : Option WarnAttrReportInfo :=
  if v.attrValue = 0 then none
  else match v.attrInfo with
  | none => none
  | some info =>
    if info.iDataType.isStr then
      if v.strStored then dealMachineAttrReport shm src v info else none
    else
      -- `dwLastReportAttrTime` of the machine was set to the clock just before
      (addReportToWarnAttrShm shm v.free src.now src.now v.attrId src.iMachineId v.attrValue
        (slotOf zone info.iStaticTime src.now) info.iDataType info.iStaticTime).map
        fun p => { p with dwLastReportIp := src.dwRemoteIp }

/-- One round of the loop. -/
def dealAttrVal (zone : Nat) (shm : Shm) (src : Src) (v : AttrVal) : Shm :=
  match recordOfVal zone shm src v with
  | none => shm
  | some p => shm.set p v.attrId src.iMachineId

/-- mirrors udp_sock.cpp:1831-1904 -/
def dealReportAttr (zone : Nat) (src : Src) (vals : List AttrVal) (shm : Shm) : Shm :=
  vals.foldl (fun shm v => dealAttrVal zone shm src v) shm

/-! ## What a record is for -/

/-- The reports of a slot, in their order. -/
def slotVals (h : List (Int × UInt32)) (k : Int) : List UInt32 :=
  (h.filter fun r => r.1 = k).map Prod.snd

/-- The aggregate of slot `k` over the reports `h`, each a slot and a value:
0 without a report in the slot; the running total counts the slots before. -/
def aggregate (ty : DataType) (h : List (Int × UInt32)) (k : Int) : UInt32 :=
  match slotVals h k with
  | [] => 0
  | v :: vs =>
    if ty = .sumReportTotal then ((h.filter fun r => r.1 ≤ k).map Prod.snd).sum
    else vs.foldl (addToCur ty) v

/-- The record of a pair that has had the reports `h`. -/
structure Window (ty : DataType) (h : List (Int × UInt32)) (p : WarnAttrReportInfo) : Prop where
  cur : p.dwCurVal = aggregate ty h p.iMinIdx
  last : p.dwLastVal = aggregate ty h (p.iMinIdx - 1)
  preLast : p.dwPreLastVal = aggregate ty h (p.iMinIdx - 2)

theorem slotVals_append (h : List (Int × UInt32)) (i k : Int) (v : UInt32) :
    slotVals (h ++ [(i, v)]) k = slotVals h k ++ if i = k then [v] else [] := by
  unfold slotVals
  by_cases hk : i = k <;> simp [hk]

section

variable (hm : ∀ r ∈ h, r.1 ≤ m)
include hm

theorem slotVals_of_lt (hk : m < k) : slotVals h k = [] := by
  simp only [slotVals, map_eq_nil_iff, filter_eq_nil_iff, decide_eq_true_eq]
  intro r hr
  have := hm r hr
  omega

omit hm in
/-- A report changes no earlier slot. -/
theorem aggregate_append_of_lt (hk : k < i) :
    aggregate ty (h ++ [(i, v)]) k = aggregate ty h k := by
  have hi : i ≠ k := by omega
  have hle : ¬i ≤ k := by omega
  simp [aggregate, slotVals_append, hi, hle]

theorem filter_le_eq_self : (h.filter fun r => decide (r.1 ≤ m)) = h := by
  simpa using hm

theorem aggregate_append_self (hne : slotVals h m ≠ []) :
    aggregate ty (h ++ [(m, v)]) m = addToCur ty (aggregate ty h m) v := by
  have hf := filter_le_eq_self hm
  unfold aggregate
  cases hs : slotVals h m with
  | nil => exact absurd hs hne
  | cons w ws =>
    by_cases ht : ty = .sumReportTotal
    · subst ht
      simp [slotVals_append, hs, addToCur]
    · simp [slotVals_append, hs, ht]

/-- The first report of a slot after all others. -/
theorem aggregate_append_new (hne : slotVals h m ≠ []) (hi : m < i) :
    aggregate ty (h ++ [(i, v)]) i = startCur ty (aggregate ty h m) v := by
  have hi' : ∀ r ∈ h, r.1 ≤ i := by
    intro r hr
    have := hm r hr
    omega
  unfold aggregate startCur
  cases hs : slotVals h m with
  | nil => exact absurd hs hne
  | cons w ws =>
    by_cases ht : ty = .sumReportTotal
    · simp [slotVals_append, slotVals_of_lt hm hi, ht, filter_le_eq_self hm,
        filter_le_eq_self hi']
    · simp [slotVals_append, slotVals_of_lt hm hi, ht]

/-! ## One report -/

/-- The report comes when the record is ready for it: not from an earlier slot,
and within two slots not after two static times. A total has no slot without
reports in between. -/
def Follows (ty : DataType) (st : Int) (p : WarnAttrReportInfo) (now : UInt32) (i : Int) : Prop :=
  if ty = .sumReportTotal then
    (i = p.iMinIdx ∨ i = p.iMinIdx + 1) ∧ mayBeLost now p.dwLastReportTime st = false
  else
    p.iMinIdx + 3 ≤ i ∨ p.iMinIdx ≤ i ∧ mayBeLost now p.dwLastReportTime st = false

instance (ty : DataType) (st : Int) (p : WarnAttrReportInfo) (now : UInt32) (i : Int) :
    Decidable (Follows ty st p now i) := by
  unfold Follows
  infer_instance

/-- The record is one of the reports `h`, its newest slot is that of the last. -/
structure RecordOf (ty : DataType) (h : List (Int × UInt32)) (p : WarnAttrReportInfo) : Prop
    extends Window ty h p where
  newest : ∀ r ∈ h, r.1 ≤ p.iMinIdx
  reported : slotVals h p.iMinIdx ≠ []

theorem newest_append (hi : m ≤ i) : ∀ r ∈ h ++ [(i, v)], r.1 ≤ i := by
  intro r hr
  rcases mem_append.mp hr with hr | hr
  · have := hm r hr
    omega
  · simp only [mem_singleton] at hr
    simp [hr]

end

/-- The values of the new window, said over the reports before. -/
theorem RecordOf.stamp {q : WarnAttrReportInfo} {now : UInt32} (hp : RecordOf ty h p)
    (hi : p.iMinIdx ≤ i) (hc : q.dwCurVal = aggregate ty (h ++ [(i, v)]) i)
    (hl : q.dwLastVal = aggregate ty h (i - 1)) (hpl : q.dwPreLastVal = aggregate ty h (i - 2)) :
    RecordOf ty (h ++ [(i, v)]) (q.stamp i now ty st) where
  cur := hc
  last := hl.trans (aggregate_append_of_lt (by omega)).symm
  preLast := hpl.trans (aggregate_append_of_lt (by omega)).symm
  newest := newest_append hp.newest hi
  reported := by simp [slotVals_append, WarnAttrReportInfo.stamp]

theorem RecordOf.setIp (hp : RecordOf ty h p) (ip : UInt32) :
    RecordOf ty h { p with dwLastReportIp := ip } :=
  ⟨⟨hp.cur, hp.last, hp.preLast⟩, hp.newest, hp.reported⟩

open WarnAttrReportInfo (restart) in
/-- A found record: the cases are those of the update. -/
theorem RecordOf.addVal {now : UInt32} (hp : RecordOf ty h p)
    (hf : Follows ty st p now i) (v : UInt32) :
    RecordOf ty (h ++ [(i, v)]) ((p.addVal now v i ty st).stamp i now ty st) := by
  have hle : p.iMinIdx ≤ i := by
    unfold Follows at hf
    split at hf <;> omega
  have hnew : p.iMinIdx < i → aggregate ty (h ++ [(i, v)]) i = startCur ty p.dwCurVal v := by
    intro hlt
    rw [hp.cur, aggregate_append_new hp.newest hp.reported hlt]
  have hzero : ∀ k, p.iMinIdx < k → aggregate ty h k = 0 := fun k hk => by
    simp [aggregate, slotVals_of_lt hp.newest hk]
  -- three slots on, and no total: the two slots before are without reports
  have hrestart : ty ≠ .sumReportTotal → p.iMinIdx + 3 ≤ i →
      RecordOf ty (h ++ [(i, v)]) ((p.restart v ty).stamp i now ty st) := by
    intro ht h3
    apply hp.stamp hle
    · simp [restart, hnew (by omega)]
    · simp [restart, ht, hzero (i - 1) (by omega)]
    · simp [restart, ht, hzero (i - 2) (by omega)]
  unfold WarnAttrReportInfo.addVal
  by_cases hlost : mayBeLost now p.dwLastReportTime st = true
  · rw [if_pos hlost]
    unfold Follows at hf
    split at hf
    · simp [hlost] at hf
    · apply hrestart ‹_›
      simpa [hlost] using hf
  · rw [if_neg hlost]
    by_cases h0 : p.iMinIdx = i
    · subst h0
      apply hp.stamp hle
      · simp [aggregate_append_self hp.newest hp.reported, hp.cur]
      · simp [hp.last]
      · simp [hp.preLast]
    · rw [if_neg h0]
      by_cases h1 : p.iMinIdx + 1 = i
      · subst h1
        have e : p.iMinIdx + 1 - 2 = p.iMinIdx - 1 := by omega
        apply hp.stamp hle
        · simp [hnew (by omega)]
        · simp [hp.cur]
        · simp [hp.last, e]
      · have ht : ty ≠ .sumReportTotal := by
          intro ht
          simp only [Follows, if_pos ht] at hf
          omega
        rw [if_neg h1]
        by_cases h2 : p.iMinIdx + 2 = i
        · subst h2
          apply hp.stamp hle
          · simp [hnew (by omega)]
          · simp [ht, hzero (p.iMinIdx + 2 - 1) (by omega)]
          · simp [hp.cur]
        · rw [if_neg h2]
          exact hrestart ht (by omega)

theorem RecordOf.init (ty : DataType) (p : WarnAttrReportInfo) (a m i st : Int) (now v : UInt32) :
    RecordOf ty [(i, v)] ((p.init a m v).stamp i now ty st) where
  cur := by simp [WarnAttrReportInfo.stamp, WarnAttrReportInfo.init, aggregate, slotVals]
  last := by
    have h : i ≠ i - 1 := by omega
    simp [WarnAttrReportInfo.stamp, WarnAttrReportInfo.init, aggregate, slotVals, h]
  preLast := by
    have h : i ≠ i - 2 := by omega
    simp [WarnAttrReportInfo.stamp, WarnAttrReportInfo.init, aggregate, slotVals, h]
  newest := by simp [WarnAttrReportInfo.stamp]
  reported := by simp [WarnAttrReportInfo.stamp, slotVals]

/-! ## Every run -/

/-- What one round of the loop stores for the pair: its slot and its value. -/
def stored (zone : Nat) (a m : Int) (shm : Shm) (src : Src) (v : AttrVal) : List (Int × UInt32) :=
  match v.attrInfo with
  | none => []
  | some info =>
    if v.attrValue ≠ 0 ∧ info.iDataType.isStr = false ∧ v.attrId = a ∧ src.iMachineId = m ∧
        (shm.getWarnAttrInfo v.free a m).isSome then
      [(slotOf zone info.iStaticTime src.now, v.attrValue)]
    else []

/-- The records, and the reports that were stored for the pair. -/
abbrev Sys := Shm × List (Int × UInt32)

/-- One round of `DealReportAttr`'s loop. -/
def step (zone : Nat) (a m : Int) (s : Sys) (l : Src × AttrVal) : Option Sys :=
  some (dealAttrVal zone s.1 l.1 l.2, s.2 ++ stored zone a m s.1 l.1 l.2)

/-- The rounds of the loop for a sequence of packets. -/
def rounds (ps : List (Src × List AttrVal)) : List (Src × AttrVal) :=
  ps.flatMap fun p => p.2.map fun v => (p.1, v)

/-- What the round stores for the pair follows the record. -/
def StepOk (zone : Nat) (a m : Int) (s : Sys) (l : Src × AttrVal) : Prop :=
  ∀ p info, s.1 a m = some p → l.2.attrInfo = some info → stored zone a m s.1 l.1 l.2 ≠ [] →
    Follows info.iDataType info.iStaticTime p l.1.now (slotOf zone info.iStaticTime l.1.now)

/-- No record before the first report, then the record of all of them. -/
def PairOk (ty : DataType) (h : List (Int × UInt32)) : Option WarnAttrReportInfo → Prop
  | none => h = []
  | some p => RecordOf ty h p

variable {src : Src} {v : AttrVal}

theorem dealAttrVal_of_ne (h : ¬(a = v.attrId ∧ m = src.iMachineId)) :
    dealAttrVal zone shm src v a m = shm a m := by
  unfold dealAttrVal
  cases recordOfVal zone shm src v with
  | none => rfl
  | some p => simp [Shm.set, h]

theorem stored_of_ne (h : ¬(a = v.attrId ∧ m = src.iMachineId)) :
    stored zone a m shm src v = [] := by
  unfold stored
  cases v.attrInfo with
  | none => rfl
  | some info =>
    apply if_neg
    intro hs
    exact h ⟨hs.2.2.1.symm, hs.2.2.2.1.symm⟩

theorem dealAttrVal_none (h : recordOfVal zone shm src v = none) :
    dealAttrVal zone shm src v = shm := by
  simp [dealAttrVal, h]

theorem dealAttrVal_some (h : recordOfVal zone shm src v = some p) :
    dealAttrVal zone shm src v v.attrId src.iMachineId = some p := by
  simp [dealAttrVal, h, Shm.set_self]

/-- What one value does to the record of the pair: nothing, or it is stored. -/
def StoresOrKeeps (zone : Nat) (a m : Int) (ty : DataType) (st : Int) (shm : Shm) (src : Src)
    (v : AttrVal) : Prop :=
  (stored zone a m shm src v = [] ∧ dealAttrVal zone shm src v a m = shm a m) ∨
    ((v.attrId = a ∧ src.iMachineId = m) ∧ v.attrInfo = some ⟨ty, st⟩ ∧
      stored zone a m shm src v = [(slotOf zone st src.now, v.attrValue)] ∧
      ((∃ p, shm a m = some p ∧ dealAttrVal zone shm src v a m = some
          { (p.addVal src.now v.attrValue (slotOf zone st src.now) ty st).stamp
              (slotOf zone st src.now) src.now ty st with dwLastReportIp := src.dwRemoteIp }) ∨
        (shm a m = none ∧ ∃ q, dealAttrVal zone shm src v a m = some
          { (WarnAttrReportInfo.init q a m v.attrValue).stamp
              (slotOf zone st src.now) src.now ty st with dwLastReportIp := src.dwRemoteIp })))

theorem dealAttrVal_self (hty : ty.isStr = false)
    (hv : v.attrValue ≠ 0) (hi : v.attrInfo = some ⟨ty, st⟩) :
    StoresOrKeeps zone v.attrId src.iMachineId ty st shm src v := by
  cases hm : shm v.attrId src.iMachineId with
  | some p =>
    have hg : shm.getWarnAttrInfo v.free v.attrId src.iMachineId = some (p, true) := by
      simp [Shm.getWarnAttrInfo, hm]
    refine .inr ⟨⟨rfl, rfl⟩, hi, by simp [stored, hi, hv, hty, hg], .inl ⟨p, hm, ?_⟩⟩
    exact dealAttrVal_some (by simp [recordOfVal, hv, hi, hty, addReportToWarnAttrShm, hg])
  | none =>
    cases hfree : v.free with
    | none =>
      have hg : shm.getWarnAttrInfo v.free v.attrId src.iMachineId = none := by
        simp [Shm.getWarnAttrInfo, hm, hfree]
      refine .inl ⟨by simp [stored, hi, hg], ?_⟩
      rw [dealAttrVal_none (by simp [recordOfVal, hi, hty, addReportToWarnAttrShm, hg])]
    | some q =>
      have hg : shm.getWarnAttrInfo v.free v.attrId src.iMachineId = some (q, false) := by
        simp [Shm.getWarnAttrInfo, hm, hfree]
      refine .inr ⟨⟨rfl, rfl⟩, hi, by simp [stored, hi, hv, hty, hg], .inr ⟨hm, q, ?_⟩⟩
      exact dealAttrVal_some (by simp [recordOfVal, hv, hi, hty, addReportToWarnAttrShm, hg])

theorem dealAttrVal_pair (zone : Nat) (m : Int) (shm : Shm) (src : Src) (hty : ty.isStr = false)
    (hfix : v.attrId = a → ∀ info, v.attrInfo = some info → info = ⟨ty, st⟩) :
    StoresOrKeeps zone a m ty st shm src v := by
  by_cases hpair : a = v.attrId ∧ m = src.iMachineId
  · obtain ⟨rfl, rfl⟩ := hpair
    by_cases hv : v.attrValue = 0
    · refine .inl ⟨?_, by rw [dealAttrVal_none (by simp [recordOfVal, hv])]⟩
      cases hi : v.attrInfo <;> simp [stored, hv, hi]
    · cases hi : v.attrInfo with
      | none =>
        exact .inl ⟨by simp [stored, hi], by rw [dealAttrVal_none (by simp [recordOfVal, hi])]⟩
      | some info => exact dealAttrVal_self hty hv (by rw [hi, hfix rfl info hi])
  · exact .inl ⟨stored_of_ne hpair, dealAttrVal_of_ne hpair⟩

theorem step_pairOk {s : Sys} {l : Src × AttrVal} (hty : ty.isStr = false)
    (hfix : l.2.attrId = a → ∀ info, l.2.attrInfo = some info → info = ⟨ty, st⟩)
    (hp : PairOk ty s.2 (s.1 a m)) (hok : StepOk zone a m s l) :
    ∃ s', step zone a m s l = some s' ∧ PairOk ty s'.2 (s'.1 a m) := by
  refine ⟨_, rfl, ?_⟩
  obtain ⟨src, v⟩ := l
  dsimp only at hp ⊢
  rcases dealAttrVal_pair zone m s.1 src hty hfix with
    ⟨hst, hkeep⟩ | ⟨-, hi, hst, ⟨p, hrec, hq⟩ | ⟨hnone, q, hq⟩⟩
  · rw [hst, hkeep, append_nil]
    exact hp
  · have hf := hok p ⟨ty, st⟩ hrec hi (by simp [hst])
    rw [hrec] at hp
    rw [hst, hq]
    exact (RecordOf.addVal hp hf v.attrValue).setIp src.dwRemoteIp
  · rw [hnone] at hp
    rw [hst, hq, show s.2 = [] from hp]
    exact (RecordOf.init ty q _ _ _ st src.now v.attrValue).setIp src.dwRemoteIp

/-- The rounds of the packets do what the packets' handlers do. -/
theorem run_rounds (zone : Nat) (a m : Int) : ∀ ps s s',
      run (step zone a m) (rounds ps) s = some s' →
      s'.1 = ps.foldl (fun shm p => dealReportAttr zone p.1 p.2 shm) s.1 := by
  intro ps
  induction ps with
  | nil =>
    intro s s' hr
    cases hr
    rfl
  | cons p ps ih =>
    intro s s' hr
    have hvals : ∀ vs s, ∃ h,
        run (step zone a m) (vs.map fun v => (p.1, v)) s =
          some (dealReportAttr zone p.1 vs s.1, h) := by
      intro vs
      induction vs with
      | nil => exact fun s => ⟨s.2, rfl⟩
      | cons v vs ihv => exact fun s => ihv _
    obtain ⟨h, hv⟩ := hvals p.2 s
    rw [rounds, flatMap_cons, run_append, hv] at hr
    exact ih _ _ hr

/-- After every run of packets in which each report that is stored for the pair
follows its record, the record holds the aggregates of its three slots. -/
theorem three_slot_window (zone : Nat) (a m : Int) (ty : DataType) (st : Int)
    (hty : ty.isStr = false) (shm : Shm) (h0 : shm a m = none)
    (ps : List (Src × List AttrVal))
    (hfix : ∀ p ∈ ps, ∀ v ∈ p.2, v.attrId = a → ∀ info, v.attrInfo = some info → info = ⟨ty, st⟩)
    (hok : Meets (step zone a m) (StepOk zone a m) (rounds ps) (shm, [])) :
    ∃ s', run (step zone a m) (rounds ps) (shm, []) = some s' ∧
      s'.1 = ps.foldl (fun shm p => dealReportAttr zone p.1 p.2 shm) shm ∧
      PairOk ty s'.2 (s'.1 a m) := by
  have hround : ∀ l ∈ rounds ps, l.2.attrId = a →
      ∀ info, l.2.attrInfo = some info → info = ⟨ty, st⟩ := by
    intro l hl
    simp only [rounds, mem_flatMap, mem_map] at hl
    obtain ⟨p, hp, v, hv, rfl⟩ := hl
    exact hfix p hp v hv
  obtain ⟨s', hr, hs⟩ := run_inv
    (fun s l hp hl => step_pairOk hty hl.1 hp hl.2) (by simp [h0, PairOk]) (hok.and_mem hround)
  exact ⟨s', hr, run_rounds zone a m ps _ _ hr, hs⟩

/-- A packet with one value of attribute 1, a sum over each minute, from machine 1. -/
def minuteReport (now v : UInt32) : Src × List AttrVal :=
  (⟨now, 1, 0⟩, [⟨1, v, some ⟨.sumReportM, 1⟩, some ⟨0, 0, 0, 0, 0, 0, 0, 0, .sumReportM, 0⟩, false⟩])

theorem three_slot_window_next_minute :
    ∃ s', run (step 0 1 1) (rounds [minuteReport 36001 5, minuteReport 36061 7])
        (fun _ _ => none, []) = some s' ∧
      s'.1 = [minuteReport 36001 5, minuteReport 36061 7].foldl
        (fun shm p => dealReportAttr 0 p.1 p.2 shm) (fun _ _ => none) ∧
      PairOk .sumReportM s'.2 (s'.1 1 1) := by
  apply three_slot_window 0 1 1 .sumReportM 1 rfl _ rfl
  · intro p hp v hv _ info hi
    simp only [mem_cons, not_mem_nil, or_false] at hp
    rcases hp with rfl | rfl
    all_goals
      simp only [minuteReport, mem_singleton] at hv
      subst hv
      exact (Option.some.inj hi).symm
  · refine ⟨fun p _ hp => (by cases hp), fun s hs => ?_⟩
    cases hs
    refine ⟨fun p info hp hi _ => ?_, fun _ _ => trivial⟩
    cases hp
    cases hi
    decide +kernel

/-- Two reports 121 s apart, at 10:00:01 and at 10:02:02: the second is two
slots after the first, whose value is not kept. -/
theorem three_slot_window_lost :
    ∃ s' p, run (step 0 1 1) (rounds [minuteReport 36001 5, minuteReport 36122 7])
        (fun _ _ => none, []) = some s' ∧
      s'.1 1 1 = some p ∧ s'.2 = [(600, 5), (602, 7)] ∧ p.iMinIdx = 602 ∧
      p.dwPreLastVal = 0 ∧ aggregate .sumReportM s'.2 (p.iMinIdx - 2) = 5 :=
  ⟨_, ⟨1, 1, 0, 0, 7, 602, 0, 36122, .sumReportM, 1⟩, rfl, by decide +kernel⟩

/-! ## The numbers of a day -/

/-- The second of the day. -/
def TimeInfo.secs (t : TimeInfo) : Nat := t.hour * 3600 + t.min * 60 + t.sec

/-- A time of the day. -/
def TimeInfo.Valid (t : TimeInfo) : Prop := t.hour < 24 ∧ t.min < 60 ∧ t.sec < 60

/-- The slots of a day: their numbers grow, they are those of the day, and a time
strictly inside a period has the number of the period. -/
structure SlotsOk (st : Nat) : Prop where
  mono : ∀ t1 t2 : TimeInfo, t1.Valid → t2.Valid → t1.secs ≤ t2.secs →
    getDayOfMin t1 st ≤ getDayOfMin t2 st
  range : ∀ t : TimeInfo, t.Valid → getDayOfMin t st < getStaticTimeMaxIdxOfDay st
  period : ∀ (k : Nat) (t1 t2 : TimeInfo), t1.Valid → t2.Valid →
    k * st * 60 < t1.secs ∧ t1.secs < (k + 1) * st * 60 →
    k * st * 60 < t2.secs ∧ t2.secs < (k + 1) * st * 60 → getDayOfMin t1 st = getDayOfMin t2 st

theorem getDayOfMin_secs {st : Nat} (hst : 0 < st) {t : TimeInfo} (ht : t.Valid) :
    getDayOfMin t st = t.secs / 60 / st -
      if t.secs / 60 / st % st ≠ 0 ∨ 0 < t.secs % 60 then 0 else 1 := by
  obtain ⟨hh, hm, hs⟩ := ht
  have hmin : t.secs / 60 = t.hour * 60 + t.min := by unfold TimeInfo.secs; omega
  have hsec : t.secs % 60 = t.sec := by unfold TimeInfo.secs; omega
  have hq := Nat.div_le_self (t.hour * 60 + t.min) st
  rw [hmin, hsec]
  simp only [getDayOfMin, Int.toNat_natCast, if_neg (show ¬ (st : Int) ≤ 0 by omega)]
  split <;> split <;> omega

/-- **The slots of a day.** They are in order exactly for the static times of a minute
and of an hour or more. -/
theorem slots_of_day_iff (st : Nat) (h : isValidStaticTime st = true) :
    SlotsOk st ↔ st = 1 ∨ 60 ≤ st := by
  have hmem := mem_static_times h
  constructor
  · intro hok
    -- a second and a minute into the period whose number is the static time
    have hmono := hok.mono ⟨st * st / 60, st * st % 60, 1⟩
      ⟨(st * st + 1) / 60, (st * st + 1) % 60, 0⟩
    unfold TimeInfo.Valid at hmono
    clear hok h
    revert st
    decide +kernel
  · intro hst
    have hmax : ∀ t : TimeInfo, t.Valid → t.secs / 60 ≤ 1439 := by
      rintro t ⟨hh, hm, hs⟩
      unfold TimeInfo.secs
      omega
    have hlast : ∀ st ∈ [1, 5, 10, 15, 30, 60, 120, 180], 1439 / st < getStaticTimeMaxIdxOfDay st := by
      decide
    have hrange : ∀ t : TimeInfo, t.Valid → getDayOfMin t st < getStaticTimeMaxIdxOfDay st := by
      intro t ht
      rw [getDayOfMin_secs (by omega) ht]
      have hle := Nat.div_le_div_right (c := st) (hmax t ht)
      exact lt_of_le_of_lt (Nat.sub_le ..) (lt_of_le_of_lt hle (hlast st hmem))
    simp only [mem_cons, not_mem_nil, or_false] at hmem
    refine ⟨fun t1 t2 h1 h2 hle => ?_, hrange, fun k t1 t2 h1 h2 hk1 hk2 => ?_⟩
    all_goals
      have := hmax t1 h1
      rw [getDayOfMin_secs (by omega) h1, getDayOfMin_secs (by omega) h2]
      obtain rfl | rfl | rfl | rfl : st = 1 ∨ st = 60 ∨ st = 120 ∨ st = 180 := by omega
      all_goals split <;> split <;> omega

theorem slots_of_day_hour : SlotsOk 60 :=
  (slots_of_day_iff 60 (by decide)).mpr (.inr (by decide))

/-- With static time 5, 0:25:01 is in slot 5, and so is 0:26:01, but 0:26:00 between them
is in slot 4. -/
theorem slots_of_day_back :
    getDayOfMin ⟨0, 25, 1⟩ 5 = 5 ∧ getDayOfMin ⟨0, 26, 0⟩ 5 = 4 ∧ getDayOfMin ⟨0, 26, 1⟩ 5 = 5 := by
  decide

end DesPwd.L2.WarnAttr
