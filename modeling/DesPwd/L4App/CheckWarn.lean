import DesPwd.L2Machine.WarnAttr

/-!
# slog_check_warn: the scan for warnings

Once a minute `checkAttrWarn` goes over the records of reported attributes and
collects the warnings of machines, of exception attributes and of views. A view
sums what its machines report: the sums live in three words of the view's warn
config in shared memory (`Reserved`) and are still there at the next scan, where
`adaptViewReportValue` moves or clears them before the first value is added.

The tables that slog_config fills are `Tables`; what the scan itself keeps
between two calls is `St`.

* `scan_words`: the words of a config after a scan, from the words before it
  and the records bound to its view.
* `view_sums_iff`: in a sequence of scans the words hold the sums of each scan
  exactly when every scan starts from words that are cleared.
* `view_sums_carried`: a scan that counts the scan of the minute before again.
* `view_missing_iff`: a view is warned about a missing report although one of its
  machines reports, unless a machine with the number of the view does as well.
* `wave_iff`: for which values the warning of a wave is right.

Source files without a directory are in `slog_check_warn/`.
-/
namespace DesPwd.L4.CheckWarn

open Bytes Run L2.WarnAttr List UInt32

/-! ## The values of a record -/

/-- The minute of the local day.
mirrors slog_check_warn.cpp:124-141 -/
def getDayOfMin (zone : Nat) (timeSec : UInt32) : Int :=
  let p := uitotimeInfo zone timeSec
  let i := p.hour * 60 + p.min
  if i ≥ 1440 then 1439 else i

/-- The values of the last two complete slots. -/
structure Vals where
  dwLastVal : UInt32
  dwPreLastVal : UInt32
  deriving DecidableEq

/-- `now >= t+1440*60` -/
def dayOld (now t : UInt32) : Bool := now ≥ t + 1440 * 60

/-- mirrors slog_check_warn.cpp:143-183 -/
def adaptReportValue (p : WarnAttrReportInfo) (now : UInt32) (iDayMinIdx : Int) : Vals :=
  if p.bAttrDataType = .sumReportTotal then
    ⟨if p.dwPreLastVal ≥ p.dwLastVal then p.dwPreLastVal else p.dwLastVal, p.dwPreLastVal⟩
  else if dayOld now p.dwLastReportTime then ⟨0, 0⟩
  else if iDayMinIdx ≠ p.iMinIdx then
    if (p.iMinIdx + 1) % 1440 = iDayMinIdx then ⟨p.dwCurVal, p.dwLastVal⟩
    else if (p.iMinIdx + 2) % 1440 = iDayMinIdx then ⟨0, p.dwCurVal⟩
    else ⟨0, 0⟩
  else ⟨p.dwLastVal, p.dwPreLastVal⟩

/-! ## Configs and warnings -/

/-- `ATTR_WARN_FLAG_MAX` -/
def attrWarnFlagMax : Nat := 1
/-- `ATTR_WARN_FLAG_MIN` -/
def attrWarnFlagMin : Nat := 2
/-- `ATTR_WARN_FLAG_WAVE` -/
def attrWarnFlagWave : Nat := 4
/-- `ATTR_WARN_FLAG_TYPE_MACHINE` -/
def attrWarnFlagTypeMachine : Nat := 8
/-- `ATTR_WARN_FLAG_TYPE_VIEW` -/
def attrWarnFlagTypeView : Nat := 16
/-- `ATTR_WARN_FLAG_MASK_WARN` -/
def attrWarnFlagMaskWarn : Nat := 32
/-- `ATTR_WARN_FLAG_EXCEPTION` -/
def attrWarnFlagException : Nat := 64

/-- mirrors `TWarnConfig`, the fields that slog_config sets -/
structure WarnConfig where
  iWarnId : Int
  iAttrId : Int
  iWarnMax : Int
  iWarnMin : Int
  iWarnWave : Int
  iWarnConfigFlag : Nat
  iWarnConfigId : Int
  deriving DecidableEq

/-- mirrors `TWarnConfig`, the words in which the scan keeps a view's sums -/
structure Reserved where
  /-- the sum of the slot before the last -/
  dwReserved1 : UInt32
  /-- the sum of the last slot -/
  dwReserved2 : UInt32
  /-- the time of the last scan that added to the sums -/
  dwReserved3 : UInt32
  deriving DecidableEq

/-- mirrors `TAttrWarnInfo` -/
structure AttrWarnInfo where
  iWarnFlag : Nat
  iWarnId : Int
  iAttrId : Int
  iWarnConfigValue : Int
  dwWarnValue : UInt32
  dwWarnTimeSec : UInt32
  deriving DecidableEq

def WarnConfig.has (c : WarnConfig) (flag : Nat) : Bool := c.iWarnConfigFlag &&& flag ≠ 0

/-- `(abs((int)(dwLastVal-dwPreLastVal))*100) / dwPreLastVal` -/
def wave (v : Vals) : UInt32 :=
  ofNat ((v.dwLastVal - v.dwPreLastVal).toInt32.toInt.natAbs * 100) / v.dwPreLastVal

/-- The three comparisons with a config, made for a view and for a machine alike. -/
def checkWarn (typeFlag : Nat) (mask : Bool) (iWarnId iAttrId : Int) (c : WarnConfig) (v : Vals)
    (now : UInt32) : List AttrWarnInfo :=
  let info (flag : Nat) (iWarnConfigValue : Int) (dwWarnValue : UInt32) : AttrWarnInfo :=
    ⟨flag ||| typeFlag ||| (if mask then attrWarnFlagMaskWarn else 0), iWarnId, iAttrId,
      iWarnConfigValue, dwWarnValue, now⟩
  (if c.has attrWarnFlagMin ∧ v.dwLastVal < ofInt c.iWarnMin then
    [info attrWarnFlagMin c.iWarnMin v.dwLastVal] else []) ++
  (if c.has attrWarnFlagMax ∧ v.dwLastVal > ofInt c.iWarnMax then
    [info attrWarnFlagMax c.iWarnMax v.dwLastVal] else []) ++
  (if c.has attrWarnFlagWave ∧ v.dwPreLastVal > 0 ∧ (wave v).toInt32.toInt > c.iWarnWave then
    [info attrWarnFlagWave c.iWarnWave (wave v)] else [])

/-- mirrors slog_check_warn.cpp:230-288 -/
def checkViewWarn (c : WarnConfig) (r : Reserved) (now : UInt32) : List AttrWarnInfo :=
  checkWarn attrWarnFlagTypeView (c.has attrWarnFlagMaskWarn) c.iWarnId c.iAttrId c
    ⟨r.dwReserved2, r.dwReserved1⟩ now

/-- mirrors slog_check_warn.cpp:290-293 -/
def isBasicAttr (_ : Int) : Bool := false

/-- The machine's own mask: `MACH_WARN_DENY_ALL`, `MACH_WARN_DENY_EXCEPT` and
`MACH_WARN_DENY_BASIC` are tested as bits. -/
def machineDenies (bWarnFlag : Nat) (c : WarnConfig) (iAttrId : Int) : Bool :=
  bWarnFlag &&& 2 ≠ 0 ∨ (bWarnFlag &&& 4 ≠ 0 ∧ c.has attrWarnFlagException) ∨
    (bWarnFlag &&& 3 ≠ 0 ∧ isBasicAttr iAttrId)

/-- mirrors slog_check_warn.cpp:295-368 -/
def checkMachineWarn (bWarnFlag : Nat) (c : WarnConfig) (p : WarnAttrReportInfo) (now : UInt32)
    (iDayMinIdx : Int) : List AttrWarnInfo :=
  checkWarn attrWarnFlagTypeMachine
    (c.has attrWarnFlagMaskWarn || machineDenies bWarnFlag c p.iAttrId) p.iMachineId p.iAttrId c
    (adaptReportValue p now iDayMinIdx) now

/-! ## The tables -/

/-- The views that a machine or an attribute is bound to; slog_config adds a
view only once (slog_config.cpp:3030-3035 and 3143-3149). -/
structure Views where
  aryView : List Int
  nodup : aryView.Nodup

/-- What a scan finds in shared memory. -/
structure Tables where
  /-- `bWarnFlag` of `GetMachineInfo` -/
  machine : Int → Option Nat
  /-- `GetMachineViewInfo` -/
  machineView : Int → Option Views
  /-- `GetAttrViewInfo` -/
  attrView : Int → Option Views
  /-- the hash of warn configs, in the order of its list -/
  configs : List WarnConfig
  /-- the hash of the records of reported attributes, in the order of its list -/
  nodes : List WarnAttrReportInfo

namespace Tables

/-- mirrors lib/mtagent_api_open/supper_log.cpp:2438-2459, without inserting -/
def getWarnConfigInfo (t : Tables) (iWarnId iAttrId : Int) : Option WarnConfig :=
  t.configs.find? fun c => c.iWarnId = iWarnId ∧ c.iAttrId = iAttrId

/-- The views bound both to the machine and to the attribute.
mirrors slog_check_warn.cpp:370-397 -/
def getReportViews (t : Tables) (p : WarnAttrReportInfo) : List Int :=
  match t.machineView p.iMachineId, t.attrView p.iAttrId with
  | some mv, some av => mv.aryView.filter fun v => v ∈ av.aryView
  | _, _ => []

/-- Configs with a minimum and no record at all.
mirrors slog_check_warn.cpp:476-538 -/
def checkWarnConfig (t : Tables) (now : UInt32) : List AttrWarnInfo :=
  t.configs.filterMap fun c =>
    if !c.has attrWarnFlagMin ∨
        t.nodes.any fun p => p.iAttrId = c.iAttrId ∧ p.iMachineId = c.iWarnId then none
    else
      let flag := attrWarnFlagMin |||
        (if c.has attrWarnFlagTypeMachine then attrWarnFlagTypeMachine else attrWarnFlagTypeView) |||
        (if c.has attrWarnFlagMaskWarn then attrWarnFlagMaskWarn else 0)
      if c.has attrWarnFlagTypeMachine then
        (t.machine c.iWarnId).map fun bWarnFlag =>
          ⟨flag ||| (if machineDenies bWarnFlag c c.iAttrId then attrWarnFlagMaskWarn else 0),
            c.iWarnId, c.iAttrId, c.iWarnMin, 0, now⟩
      else some ⟨flag, c.iWarnId, c.iAttrId, c.iWarnMin, 0, now⟩

end Tables

/-! ## The scan -/

/-- The sums' words of all configs, by warn id and attribute id. -/
abbrev Words := Int → Int → Reserved

def Words.set (ws : Words) (c : WarnConfig) (r : Reserved) : Words :=
  fun w a => if w = c.iWarnId ∧ a = c.iAttrId then r else ws w a

/-- mirrors slog_check_warn.cpp:185-217 -/
def adaptViewReportValue (zone : Nat) (r : Reserved) (now : UInt32) (iDayMinIdx : Int) : Reserved :=
  let iDayMinIdxView := getDayOfMin zone r.dwReserved3
  if dayOld now r.dwReserved3 then ⟨0, 0, now⟩
  else if iDayMinIdxView ≠ iDayMinIdx then
    if (iDayMinIdxView + 1) % 1440 = iDayMinIdx then ⟨r.dwReserved2, 0, now⟩
    else ⟨0, 0, now⟩
  else ⟨r.dwReserved1, r.dwReserved2, now⟩

def Reserved.add (r : Reserved) (v : Vals) : Reserved :=
  ⟨r.dwReserved1 + v.dwPreLastVal, r.dwReserved2 + v.dwLastVal, r.dwReserved3⟩

/-- mirrors slog_check_warn.cpp:219-228 -/
def addReportValForViewWarn (r : Reserved) (p : WarnAttrReportInfo) (now : UInt32)
    (iDayMinIdx : Int) : Reserved :=
  r.add (adaptReportValue p now iDayMinIdx)

/-- What a scan knows of the views. -/
structure ViewScan where
  words : Words
  /-- the configs by `iWarnConfigId` -/
  mapViewWarnCfgs : List (Int × WarnConfig)

/-- The first time a config is met; mirrors
slog_check_warn.cpp:633-639 -/
def ViewScan.meet (zone : Nat) (now : UInt32) (iDayMinIdx : Int) (s : ViewScan) (c : WarnConfig) :
    ViewScan :=
  if s.mapViewWarnCfgs.any fun x => x.1 = c.iWarnConfigId then s
  else
    let r := adaptViewReportValue zone (s.words c.iWarnId c.iAttrId) now iDayMinIdx
    ⟨s.words.set c r, (c.iWarnConfigId, c) :: s.mapViewWarnCfgs⟩

/-- A view of the record has a config; mirrors
slog_check_warn.cpp:630-642 -/
def ViewScan.addView (zone : Nat) (now : UInt32) (iDayMinIdx : Int) (s : ViewScan)
    (c : WarnConfig) (p : WarnAttrReportInfo) : ViewScan :=
  let s := s.meet zone now iDayMinIdx c
  let r := addReportValForViewWarn (s.words c.iWarnId c.iAttrId) p now iDayMinIdx
  ⟨s.words.set c r, s.mapViewWarnCfgs⟩

/-- The variables of a scan. -/
structure Scan extends ViewScan where
  listWarn : List AttrWarnInfo

/-- The warnings of one record for its machine; mirrors
slog_check_warn.cpp:576-620 -/
def nodeWarns (t : Tables) (now : UInt32) (iDayMinIdx : Int) (bWarnFlag : Nat)
    (p : WarnAttrReportInfo) : List AttrWarnInfo :=
  (match t.getWarnConfigInfo p.iMachineId p.iAttrId with
  | none => []
  | some c => checkMachineWarn bWarnFlag c p now iDayMinIdx) ++
  if p.bAttrDataType = .exReport then
    match t.getWarnConfigInfo 0 p.iAttrId with
    | none => []
    | some c =>
      let v := adaptReportValue p now iDayMinIdx
      if v.dwLastVal > 0 then
        let mask := c.has attrWarnFlagMaskWarn || machineDenies bWarnFlag c p.iAttrId
        [⟨attrWarnFlagTypeMachine ||| attrWarnFlagException |||
            (if mask then attrWarnFlagMaskWarn else 0),
          p.iMachineId, p.iAttrId, 0, v.dwLastVal, now⟩]
      else []
  else []

/-- mirrors slog_check_warn.cpp:622-644 -/
def addViews (zone : Nat) (t : Tables) (now : UInt32) (iDayMinIdx : Int) (s : ViewScan)
    (p : WarnAttrReportInfo) : ViewScan :=
  (t.getReportViews p).foldl (fun s v => match t.getWarnConfigInfo v p.iAttrId with
      | none => s
      | some c => s.addView zone now iDayMinIdx c p) s

/-- mirrors slog_check_warn.cpp:563-650; a record of an unknown
machine is passed over -/
def Scan.checkNode (zone : Nat) (t : Tables) (now : UInt32) (iDayMinIdx : Int) (s : Scan)
    (p : WarnAttrReportInfo) : Scan :=
  match t.machine p.iMachineId with
  | none => s
  | some bWarnFlag =>
    ⟨addViews zone t now iDayMinIdx s.toViewScan p,
      s.listWarn ++ nodeWarns t now iDayMinIdx bWarnFlag p⟩

/-- What is kept between two calls. -/
structure St where
  /-- `s_iLastCheckMinIdx` -/
  sLastCheckMinIdx : Int
  words : Words

/-- The warnings are the second result, `none` when there is no scan in this
minute any more; a map is gone over by its keys.
mirrors slog_check_warn.cpp:540-668 -/
def checkAttrWarn (zone : Nat) (s : St) (t : Tables) (now : UInt32) :
    St × Option (List AttrWarnInfo) :=
  let iDayMinIdx := getDayOfMin zone now
  if s.sLastCheckMinIdx = iDayMinIdx then (s, none)
  else
    let sc := t.nodes.foldl (Scan.checkNode zone t now iDayMinIdx) ⟨⟨s.words, []⟩, []⟩
    let views := (sc.mapViewWarnCfgs.mergeSort fun x y => x.1 ≤ y.1).flatMap fun x =>
      checkViewWarn x.2 (sc.words x.2.iWarnId x.2.iAttrId) now
    (⟨iDayMinIdx, sc.words⟩, some (sc.listWarn ++ views ++ t.checkWarnConfig now))

/-! ## The words after a scan -/

/-- A record is counted for the view `w`. -/
def Tables.Bound (t : Tables) (w a : Int) (p : WarnAttrReportInfo) : Bool :=
  (t.machine p.iMachineId).isSome ∧ p.iAttrId = a ∧ w ∈ t.getReportViews p

/-- The records that are counted for the view `w` and attribute `a`. -/
def Tables.bound (t : Tables) (w a : Int) : List WarnAttrReportInfo :=
  t.nodes.filter (t.Bound w a)

/-- The configs a record adds to, in their order. -/
def Tables.touched (t : Tables) (p : WarnAttrReportInfo) : List WarnConfig :=
  if (t.machine p.iMachineId).isSome then
    (t.getReportViews p).filterMap fun v => t.getWarnConfigInfo v p.iAttrId
  else []

/-- Each pair of a config and a record that is added to it, in the scan's order. -/
def Tables.touches (t : Tables) : List (WarnConfig × WarnAttrReportInfo) :=
  t.nodes.flatMap fun p => (t.touched p).map fun c => (c, p)

variable {t : Tables} {w : Int} {c : WarnConfig}

theorem getWarnConfigInfo_key {a : Int} (h : t.getWarnConfigInfo w a = some c) :
    c.iWarnId = w ∧ c.iAttrId = a := by
  have := find?_some h
  simpa using this

theorem addViews_eq (zone : Nat) (t : Tables) (now : UInt32) (i : Int) (p : WarnAttrReportInfo)
    (vs : List Int) (s : ViewScan) :
    vs.foldl (fun s v => match t.getWarnConfigInfo v p.iAttrId with
      | none => s
      | some c => s.addView zone now i c p) s =
    (vs.filterMap fun v => t.getWarnConfigInfo v p.iAttrId).foldl
      (fun s c => s.addView zone now i c p) s := by
  induction vs generalizing s with
  | nil => rfl
  | cons v vs ih => cases h : t.getWarnConfigInfo v p.iAttrId <;> simp [h, ih]

/-- The loop over the records is a loop over the touches. -/
theorem foldl_checkNode (zone : Nat) (t : Tables) (now : UInt32) (i : Int)
    (ns : List WarnAttrReportInfo) (s : Scan) :
    (ns.foldl (Scan.checkNode zone t now i) s).toViewScan =
      (ns.flatMap fun p => (t.touched p).map fun c => (c, p)).foldl
        (fun s x => s.addView zone now i x.1 x.2) s.toViewScan := by
  induction ns generalizing s with
  | nil => rfl
  | cons p ns ih =>
    rw [foldl_cons, ih, flatMap_cons, foldl_append, foldl_map]
    unfold Scan.checkNode Tables.touched
    cases h : t.machine p.iMachineId with
    | none => simp
    | some bWarnFlag => simp [addViews, addViews_eq]

@[simp] theorem Words.set_self (ws : Words) (c : WarnConfig) (r : Reserved) :
    ws.set c r c.iWarnId c.iAttrId = r := by
  simp [Words.set]

/-- The two sums of a list of records. -/
def sums (now : UInt32) (i : Int) (ps : List WarnAttrReportInfo) : Vals :=
  ⟨(ps.map fun p => (adaptReportValue p now i).dwLastVal).sum,
    (ps.map fun p => (adaptReportValue p now i).dwPreLastVal).sum⟩

theorem add_sums_cons (now : UInt32) (i : Int) (r : Reserved) (p : WarnAttrReportInfo)
    (ps : List WarnAttrReportInfo) :
    r.add (sums now i (p :: ps)) = (addReportValForViewWarn r p now i).add (sums now i ps) := by
  simp [Reserved.add, sums, addReportValForViewWarn, add_assoc]

/-- The records of `xs` that are added to `c`. -/
def of (c : WarnConfig) (xs : List (WarnConfig × WarnAttrReportInfo)) : List WarnAttrReportInfo :=
  (xs.filter fun x => x.1 = c).map Prod.snd

/-- A config with this id was met before. -/
def ViewScan.Met (s : ViewScan) (c : WarnConfig) : Bool :=
  s.mapViewWarnCfgs.any fun x => x.1 = c.iWarnConfigId

/-- The words to which the first value of the scan is added. -/
def startWords (zone : Nat) (now : UInt32) (i : Int) (met : Bool) (r : Reserved) : Reserved :=
  if met then r else adaptViewReportValue zone r now i

section Touch

variable (zone : Nat) (now : UInt32) (i : Int)

theorem words_addView_self (s : ViewScan) (c : WarnConfig) (p : WarnAttrReportInfo) :
    (s.addView zone now i c p).words c.iWarnId c.iAttrId = addReportValForViewWarn
        (startWords zone now i (s.Met c) (s.words c.iWarnId c.iAttrId)) p now i := by
  unfold ViewScan.addView ViewScan.meet startWords ViewScan.Met
  cases h : s.mapViewWarnCfgs.any fun x => x.1 = c.iWarnConfigId with
  | true => simp only [if_true, Words.set_self]
  | false => simp

variable {c : WarnConfig}

theorem words_addView_of_ne (s : ViewScan) (p : WarnAttrReportInfo) {w a : Int}
    (h : ¬(w = c.iWarnId ∧ a = c.iAttrId)) :
    (s.addView zone now i c p).words w a = s.words w a := by
  unfold ViewScan.addView ViewScan.meet
  split <;> simp [Words.set, h]

theorem met_addView (s : ViewScan) (c c' : WarnConfig) (p : WarnAttrReportInfo) :
    (s.addView zone now i c p).Met c' =
      (s.Met c' || decide (c.iWarnConfigId = c'.iWarnConfigId)) := by
  unfold ViewScan.addView ViewScan.meet ViewScan.Met
  by_cases h : (s.mapViewWarnCfgs.any fun x => x.1 = c.iWarnConfigId) = true
  · rw [if_pos h]
    by_cases he : c.iWarnConfigId = c'.iWarnConfigId
    · simp [← he, h]
    · simp [he]
  · rw [if_neg h, any_cons, Bool.or_comm]

/-- One touch, before those of `xs`. -/
theorem add_addView (s : ViewScan) {c' : WarnConfig} (p : WarnAttrReportInfo)
    (xs : List (WarnConfig × WarnAttrReportInfo))
    (hk : c.iWarnId = c'.iWarnId ∧ c.iAttrId = c'.iAttrId → c' = c) :
    ((s.addView zone now i c' p).words c.iWarnId c.iAttrId).add (sums now i (of c xs)) =
      (startWords zone now i (s.Met c || decide (c' ≠ c)) (s.words c.iWarnId c.iAttrId)).add
        (sums now i (of c ((c', p) :: xs))) := by
  by_cases he : c' = c
  · subst he
    have ho : of c' ((c', p) :: xs) = p :: of c' xs := by simp [of]
    rw [words_addView_self, ho, add_sums_cons]
    simp
  · have ho : of c ((c', p) :: xs) = of c xs := by simp [of, he]
    rw [words_addView_of_ne zone now i s p fun h => he (hk h), ho]
    simp [startWords, he]

/-- A config whose id was met: all its records are added to the words. -/
theorem foldl_addView_met (xs : List (WarnConfig × WarnAttrReportInfo)) (s : ViewScan)
    (hc : ∀ x ∈ xs, c.iWarnId = x.1.iWarnId ∧ c.iAttrId = x.1.iAttrId → x.1 = c)
    (hm : s.Met c = true) :
    (xs.foldl (fun s x => s.addView zone now i x.1 x.2) s).words c.iWarnId c.iAttrId =
      (s.words c.iWarnId c.iAttrId).add (sums now i (of c xs)) := by
  induction xs generalizing s with
  | nil => simp [of, Reserved.add, sums]
  | cons x xs ih =>
    obtain ⟨hx, hxs⟩ := forall_mem_cons.mp hc
    have hm' : (s.addView zone now i x.1 x.2).Met c = true := by simp [met_addView, hm]
    rw [foldl_cons, ih _ hxs hm', add_addView zone now i s x.2 xs hx, hm]
    rfl

/-- The first config with the id of `c` that is met, if it is `c`, clears or
moves the words of `c` before its records are added. -/
theorem foldl_addView (xs : List (WarnConfig × WarnAttrReportInfo)) (s : ViewScan)
    (hc : ∀ x ∈ xs, c.iWarnId = x.1.iWarnId ∧ c.iAttrId = x.1.iAttrId → x.1 = c)
    (hm : s.Met c = false) {x : WarnConfig × WarnAttrReportInfo}
    (hx : xs.find? (fun x => x.1.iWarnConfigId = c.iWarnConfigId) = some x) :
    (xs.foldl (fun s x => s.addView zone now i x.1 x.2) s).words c.iWarnId c.iAttrId =
      (startWords zone now i (x.1 ≠ c) (s.words c.iWarnId c.iAttrId)).add
        (sums now i (of c xs)) := by
  induction xs generalizing s with
  | nil => cases hx
  | cons y xs ih =>
    obtain ⟨hy, hys⟩ := forall_mem_cons.mp hc
    rw [foldl_cons]
    by_cases hid : y.1.iWarnConfigId = c.iWarnConfigId
    · have hxc : x = y := by simpa [hid] using hx.symm
      subst hxc
      rw [foldl_addView_met zone now i xs _ hys (by simp [met_addView, hid]),
        add_addView zone now i s x.2 xs hy, hm, Bool.false_or]
    · have hne : y.1 ≠ c := fun h => hid (by rw [h])
      have ho : of c (y :: xs) = of c xs := by simp [of, hne]
      rw [ih _ hys (by simp [met_addView, hm, hid]) (by simpa [hid] using hx),
        words_addView_of_ne zone now i s y.2 fun hk => hne (hy hk), ho]

end Touch

/-- Of distinct views one at most leads to the config `c`. -/
theorem filter_filterMap_eq {f : Int → Option WarnConfig}
    (hf : ∀ v, f v = some c ↔ v = w) {vs : List Int} (hn : vs.Nodup) :
    (vs.filterMap f).filter (fun x => x = c) = if w ∈ vs then [c] else [] := by
  induction vs with
  | nil => simp
  | cons v vs ih =>
    have hv := nodup_cons.mp hn
    by_cases he : v = w
    · subst he
      simp [(hf v).mpr rfl, ih hv.2, hv.1]
    have hne : f v ≠ some c := fun h => he ((hf v).mp h)
    have hne' : ¬w = v := fun h => he h.symm
    cases hfv : f v with
    | none => simp [hfv, ih hv.2, hne']
    | some c' =>
      have hcc : c' ≠ c := fun h => hne (by rw [hfv, h])
      simp [hfv, ih hv.2, hne', hcc]

theorem nodup_getReportViews (t : Tables) (p : WarnAttrReportInfo) : (t.getReportViews p).Nodup := by
  unfold Tables.getReportViews
  split
  · exact (Views.nodup _).filter _
  · exact nodup_nil

section

variable (hc : t.getWarnConfigInfo c.iWarnId c.iAttrId = some c)
include hc

/-- A bound record touches the config of its view once. -/
theorem filter_touched (p : WarnAttrReportInfo) : (t.touched p).filter (fun x => x = c) =
      if t.Bound c.iWarnId c.iAttrId p then [c] else [] := by
  unfold Tables.touched Tables.Bound
  by_cases hm : (t.machine p.iMachineId).isSome = true
  · by_cases ha : p.iAttrId = c.iAttrId
    · have hf : ∀ v, t.getWarnConfigInfo v c.iAttrId = some c ↔ v = c.iWarnId := by
        intro v
        constructor
        · intro h
          exact (getWarnConfigInfo_key h).1.symm
        · intro h
          rw [h, hc]
      simp [hm, ha, filter_filterMap_eq hf (nodup_getReportViews t p)]
    · have hno : ∀ x ∈ (t.getReportViews p).filterMap fun v => t.getWarnConfigInfo v p.iAttrId,
          x ≠ c := by
        intro x hx he
        obtain ⟨v, -, hv⟩ := mem_filterMap.mp hx
        exact ha ((getWarnConfigInfo_key hv).2.symm.trans (by rw [he]))
      simpa [hm, ha] using hno
  · simp [hm]

theorem of_touches : of c t.touches = t.bound c.iWarnId c.iAttrId := by
  unfold Tables.touches Tables.bound of
  induction t.nodes with
  | nil => rfl
  | cons p ns ih =>
    have hp : (((t.touched p).map fun c => (c, p)).filter fun x => x.1 = c) =
        ((t.touched p).filter fun x => x = c).map fun c => (c, p) := by
      rw [filter_map]
      rfl
    rw [flatMap_cons, filter_append, map_append, ih, hp, filter_touched hc, filter_cons]
    split <;> rfl

/-- The first config with its id that the scan meets is `c` itself; so it is
when the ids of the configs are distinct. -/
def Tables.first (t : Tables) (c : WarnConfig) : Bool :=
  (t.touches.find? fun x => x.1.iWarnConfigId = c.iWarnConfigId).map Prod.fst = some c

theorem touches_key :
    ∀ x ∈ t.touches, c.iWarnId = x.1.iWarnId ∧ c.iAttrId = x.1.iAttrId → x.1 = c := by
  intro x hx hk
  simp only [Tables.touches, mem_flatMap, mem_map, Tables.touched] at hx
  obtain ⟨p, -, c', hc', rfl⟩ := hx
  split at hc'
  · obtain ⟨v, -, hv⟩ := mem_filterMap.mp hc'
    have hk' := getWarnConfigInfo_key hv
    rw [hk.1, hk.2, hk'.1, hk'.2, hv] at hc
    exact Option.some.inj hc
  · cases hc'

end

/-- The words of the config `c` after a scan in which a record was added to it. -/
theorem scan_words (zone : Nat) (s : St) (t : Tables) (now : UInt32)
    (hs : s.sLastCheckMinIdx ≠ getDayOfMin zone now)
    (hc : t.getWarnConfigInfo c.iWarnId c.iAttrId = some c) (hb : t.bound c.iWarnId c.iAttrId ≠ []) :
    (checkAttrWarn zone s t now).1.words c.iWarnId c.iAttrId =
      (startWords zone now (getDayOfMin zone now) (!t.first c) (s.words c.iWarnId c.iAttrId)).add
        (sums now (getDayOfMin zone now) (t.bound c.iWarnId c.iAttrId)) := by
  -- a record that is added to `c` is among the touches, so one has the id of `c`
  have hex : ∃ x, t.touches.find? (fun x => x.1.iWarnConfigId = c.iWarnConfigId) = some x := by
    rw [← of_touches hc] at hb
    obtain ⟨p, hp⟩ := exists_mem_of_ne_nil _ hb
    obtain ⟨y, hy, -⟩ := mem_map.mp hp
    have hy' := mem_filter.mp hy
    rw [← Option.isSome_iff_exists, find?_isSome]
    refine ⟨y, hy'.1, ?_⟩
    rw [of_decide_eq_true hy'.2]
    simp
  obtain ⟨x, hx⟩ := hex
  have hfirst : (!t.first c) = decide (x.1 ≠ c) := by simp [Tables.first, hx]
  have hfold := foldl_addView zone now (getDayOfMin zone now) t.touches ⟨s.words, []⟩
    (touches_key hc) rfl hx
  unfold checkAttrWarn
  rw [if_neg hs, ← of_touches hc, hfirst]
  refine Eq.trans ?_ hfold
  exact congrArg (fun v => v.words c.iWarnId c.iAttrId)
    (foldl_checkNode zone t now (getDayOfMin zone now) t.nodes ⟨⟨s.words, []⟩, []⟩)

/-! ## Every sequence of scans -/

/-- One call; it always returns. -/
def step (zone : Nat) (s : St) (l : Tables × UInt32) : Option St :=
  some (checkAttrWarn zone s l.1 l.2).1

/-- After the call, if it scans, every config that a record was added to holds
the sums of this scan. -/
def SumsAfter (zone : Nat) (s : St) (l : Tables × UInt32) : Prop :=
  s.sLastCheckMinIdx ≠ getDayOfMin zone l.2 →
    ∀ c, l.1.getWarnConfigInfo c.iWarnId c.iAttrId = some c → l.1.bound c.iWarnId c.iAttrId ≠ [] →
      let r := (checkAttrWarn zone s l.1 l.2).1.words c.iWarnId c.iAttrId
      let v := sums l.2 (getDayOfMin zone l.2) (l.1.bound c.iWarnId c.iAttrId)
      r.dwReserved2 = v.dwLastVal ∧ r.dwReserved1 = v.dwPreLastVal

/-- The old sums do not reach into the scan at `now`: they are a day old, or
neither of this minute nor of the minute before, or what would be kept of them
is 0. -/
def Cleared (zone : Nat) (now : UInt32) (first : Bool) (r : Reserved) : Prop :=
  if first then
    dayOld now r.dwReserved3 ∨
    (getDayOfMin zone r.dwReserved3 ≠ getDayOfMin zone now ∧
      ((getDayOfMin zone r.dwReserved3 + 1) % 1440 = getDayOfMin zone now → r.dwReserved2 = 0)) ∨
    (getDayOfMin zone r.dwReserved3 = getDayOfMin zone now ∧ r.dwReserved1 = 0 ∧ r.dwReserved2 = 0)
  else r.dwReserved1 = 0 ∧ r.dwReserved2 = 0

/-- The old sums of every config that a record will be added to are cleared. -/
def ScanOk (zone : Nat) (s : St) (l : Tables × UInt32) : Prop :=
  s.sLastCheckMinIdx ≠ getDayOfMin zone l.2 →
    ∀ c, l.1.getWarnConfigInfo c.iWarnId c.iAttrId = some c → l.1.bound c.iWarnId c.iAttrId ≠ [] →
      Cleared zone l.2 (l.1.first c) (s.words c.iWarnId c.iAttrId)

theorem cleared_iff (zone : Nat) (now : UInt32) (first : Bool) (r : Reserved) :
    Cleared zone now first r ↔
      (startWords zone now (getDayOfMin zone now) (!first) r).dwReserved2 = 0 ∧
      (startWords zone now (getDayOfMin zone now) (!first) r).dwReserved1 = 0 := by
  unfold Cleared startWords adaptViewReportValue
  cases first with
  | false => simp [and_comm]
  | true =>
    by_cases hd : dayOld now r.dwReserved3
    · simp [hd]
    by_cases hi : getDayOfMin zone r.dwReserved3 = getDayOfMin zone now
    · simp [hd, hi, and_comm]
    · by_cases h1 : (getDayOfMin zone r.dwReserved3 + 1) % 1440 = getDayOfMin zone now
      · simp [hd, hi, h1]
      · simp [hi, h1]

theorem sumsAfter_iff (zone : Nat) (s : St) (l : Tables × UInt32) :
    SumsAfter zone s l ↔ ScanOk zone s l := by
  refine forall_congr' fun hs => forall_congr' fun c => forall_congr' fun hc =>
    forall_congr' fun hb => ?_
  rw [cleared_iff, scan_words zone s l.1 l.2 hs hc hb]
  simp [Reserved.add]

/-- In every sequence of calls, from every state: each scan leaves the sums of
its own records if and only if each scan finds the old sums cleared. -/
theorem view_sums_iff (zone : Nat) (s : St) (scans : List (Tables × UInt32)) :
    Meets (step zone) (SumsAfter zone) scans s ↔ Meets (step zone) (ScanOk zone) scans s := by
  exact meets_iff (fun s l _ => sumsAfter_iff zone s l)
    (fun _ _ _ _ _ _ => trivial) trivial

/-- One machine that reported 5 in the minute 600, bound to view 7 by its
attribute 3; view 7 has a warn config. -/
def oneMachineView : Tables where
  machine _ := some 1
  machineView _ := some ⟨[7], by simp⟩
  attrView _ := some ⟨[7], by simp⟩
  configs := [⟨7, 3, 100, 0, 0, 17, 1⟩]
  nodes := [⟨3, 2, 0, 0, 5, 600, 0, 36001, .sumReportM, 1⟩]

/-- Scans at 10:01:10 and 10:02:10: the second finds 5 in the slot before the
last, and adds it to the 5 that the first has left. -/
theorem view_sums_carried :
    let s := (checkAttrWarn 0 ⟨0, fun _ _ => ⟨0, 0, 0⟩⟩ oneMachineView 36070).1
    (s.words 7 3).dwReserved2 = 5 ∧
    sums 36130 (getDayOfMin 0 36130) (oneMachineView.bound 7 3) = ⟨0, 5⟩ ∧
    ((checkAttrWarn 0 s oneMachineView 36130).1.words 7 3).dwReserved1 = 10 := by
  decide +kernel

/-! ## Views without a report -/

/-- A machine of the view `v` has a record of the attribute `a`. -/
def Tables.Reports (t : Tables) (v a : Int) : Prop :=
  ∃ p ∈ t.nodes, p.iAttrId = a ∧ ∃ mv ∈ t.machineView p.iMachineId, v ∈ mv.aryView

/-- Only a view none of whose machines reports is warned about a missing report. -/
def Tables.MissingRight (t : Tables) (now : UInt32) : Prop :=
  ∀ x ∈ t.checkWarnConfig now, x.iWarnFlag &&& attrWarnFlagTypeView ≠ 0 →
    ¬ t.Reports x.iWarnId x.iAttrId

/-- The warnings of views: of every config of a view with a minimum for which no
machine with the number of the view has a record. -/
theorem mem_checkWarnConfig_view {now : UInt32} {x : AttrWarnInfo} :
    x ∈ t.checkWarnConfig now ∧ x.iWarnFlag &&& attrWarnFlagTypeView ≠ 0 ↔
      ∃ c ∈ t.configs, c.has attrWarnFlagMin = true ∧ c.has attrWarnFlagTypeMachine = false ∧
        (¬ ∃ p ∈ t.nodes, p.iAttrId = c.iAttrId ∧ p.iMachineId = c.iWarnId) ∧
        x = ⟨attrWarnFlagMin ||| attrWarnFlagTypeView |||
          (if c.has attrWarnFlagMaskWarn then attrWarnFlagMaskWarn else 0), c.iWarnId, c.iAttrId,
          c.iWarnMin, 0, now⟩ := by
  unfold Tables.checkWarnConfig
  rw [mem_filterMap]
  constructor
  · rintro ⟨⟨c, hc, hx⟩, hview⟩
    split at hx
    · cases hx
    rename_i hmin
    rw [not_or, Bool.not_eq_true', Bool.not_eq_false] at hmin
    cases hm : c.has attrWarnFlagTypeMachine with
    | true =>
      -- a machine's warning has no bit of a view
      simp only [hm, if_true] at hx
      obtain ⟨f, -, rfl⟩ := Option.map_eq_some_iff.mp hx
      refine absurd ?_ hview
      dsimp only
      split <;> split <;> rfl
    | false =>
      simp only [hm] at hx
      exact ⟨c, hc, hmin.1, hm, by simpa using hmin.2, (Option.some.inj hx).symm⟩
  · rintro ⟨c, hc, hmin, hm, hno, rfl⟩
    refine ⟨⟨c, hc, ?_⟩, ?_⟩
    · rw [if_neg (by simpa [hmin] using hno)]
      simp [hm]
    · dsimp only
      split <;> decide

/-- A view is warned only when none of its machines reports, exactly if for every
view with a minimum one of whose machines reports, the machine with the number of
the view reports as well. -/
theorem view_missing_iff (t : Tables) (now : UInt32) : t.MissingRight now ↔
      ∀ c ∈ t.configs, c.has attrWarnFlagMin = true → c.has attrWarnFlagTypeMachine = false →
        t.Reports c.iWarnId c.iAttrId →
        ∃ p ∈ t.nodes, p.iAttrId = c.iAttrId ∧ p.iMachineId = c.iWarnId := by
  constructor
  · intro h c hc hmin hm hr
    refine Classical.byContradiction fun hno => ?_
    obtain ⟨hx, hview⟩ := mem_checkWarnConfig_view.mpr ⟨c, hc, hmin, hm, hno, rfl⟩
    exact h _ hx hview hr
  · intro h x hx hview hr
    obtain ⟨c, hc, hmin, hm, hno, rfl⟩ := mem_checkWarnConfig_view.mp ⟨hx, hview⟩
    exact hno (h c hc hmin hm hr)

/-- The same machine and view, with a minimum of 1: the machine has reported 5,
and the view is warned that nothing was reported. -/
theorem view_missing_wrong :
    let t := { oneMachineView with configs := [⟨7, 3, 100, 1, 0, 18, 1⟩] }
    t.checkWarnConfig 36070 = [⟨18, 7, 3, 1, 0, 36070⟩] ∧ ¬ t.MissingRight 36070 := by
  intro t
  have hw : t.checkWarnConfig 36070 = [⟨18, 7, 3, 1, 0, 36070⟩] := by decide
  refine ⟨hw, fun h => h _ (hw ▸ mem_singleton_self _) (by decide) ?_⟩
  exact ⟨_, mem_singleton_self _, rfl, _, rfl, mem_singleton_self _⟩

/-! ## The wave -/

/-- The difference of the two values. -/
def Vals.dist (v : Vals) : Nat := ((v.dwLastVal.toNat : Int) - v.dwPreLastVal.toNat).natAbs

/-- The difference as a percentage of the value before, over the integers. -/
def Vals.percent (v : Vals) : Nat := v.dist * 100 / v.dwPreLastVal.toNat

def AttrWarnInfo.IsWave (w : AttrWarnInfo) : Prop := w.iWarnFlag &&& attrWarnFlagWave ≠ 0

/-- There is a wave warning exactly if `n` is above the limit, and it says `n`. -/
def WaveOf (c : WarnConfig) (n : Nat) (ws : List AttrWarnInfo) : Prop :=
  ((∃ w ∈ ws, w.IsWave) ↔ c.iWarnWave < n) ∧
    ∀ w ∈ ws, w.IsWave → n < 2 ^ 32 → w.dwWarnValue.toNat = n

theorem natAbs_sub (v : Vals) : (v.dwLastVal - v.dwPreLastVal).toInt32.toInt.natAbs =
    if v.dist < 2 ^ 31 then v.dist else 2 ^ 32 - v.dist := by
  have h1 := v.dwLastVal.toNat_lt
  have h2 := v.dwPreLastVal.toNat_lt
  rw [toInt_eq_toS32, toS32, UInt32.toNat_sub, Vals.dist]
  split <;> split <;> omega

section Wave

variable {typeFlag : Nat} (htype : typeFlag = 8 ∨ typeFlag = 16) {mask : Bool} {i a : Int}
  {c : WarnConfig} (hc : c.has attrWarnFlagWave = true) {v : Vals} (hpre : 0 < v.dwPreLastVal)
  {now : UInt32}
include htype hc hpre

/-- The wave warnings of a check, whether for a view or for a machine. -/
theorem mem_wave {w : AttrWarnInfo} :
    w ∈ checkWarn typeFlag mask i a c v now ∧ w.IsWave ↔ c.iWarnWave < (wave v).toInt32.toInt ∧
      w = ⟨4 ||| typeFlag ||| (if mask then 32 else 0), i, a, c.iWarnWave, wave v, now⟩ := by
  have hflag : ∀ f, ((f ||| typeFlag ||| if mask then 32 else 0) &&& 4) = f &&& 4 := by
    simp only [Nat.and_or_distrib_right]
    rcases htype with rfl | rfl <;> cases mask <;> simp
  unfold checkWarn
  simp only [mem_append, mem_ite_nil_right, mem_singleton]
  constructor
  · rintro ⟨(⟨-, rfl⟩ | ⟨-, rfl⟩) | ⟨⟨-, -, hw⟩, rfl⟩, hwave⟩
    · exact absurd (hflag 2) hwave
    · exact absurd (hflag 1) hwave
    · exact ⟨hw, rfl⟩
  · rintro ⟨hw, rfl⟩
    exact ⟨.inr ⟨⟨hc, hpre, hw⟩, rfl⟩, fun h => absurd ((hflag 4).symm.trans h) (by decide)⟩

theorem exists_wave : (∃ w ∈ checkWarn typeFlag mask i a c v now, w.IsWave) ↔
    c.iWarnWave < (wave v).toInt32.toInt := by
  simp [mem_wave htype hc hpre]

end Wave

/-- **The wave.** For a value before that is not 0, both checks warn of the percentage
exactly if it can be computed: a hundred times the difference is below 2^32, and the
percentage below 2^31. -/
theorem wave_iff (v : Vals) (hpre : 0 < v.dwPreLastVal) :
    (∀ (c : WarnConfig) (now : UInt32), c.has attrWarnFlagWave = true → 0 ≤ c.iWarnWave →
      (∀ t, WaveOf c v.percent (checkViewWarn c ⟨v.dwPreLastVal, v.dwLastVal, t⟩ now)) ∧
      ∀ bWarnFlag p i, adaptReportValue p now i = v →
        WaveOf c v.percent (checkMachineWarn bWarnFlag c p now i)) ↔
    v.dist * 100 < 2 ^ 32 ∧ v.percent < 2 ^ 31 := by
  have hz := v.dwPreLastVal.toNat_lt
  have hpos : 0 < v.dwPreLastVal.toNat := lt_iff_toNat_lt.mp hpre
  have hq : (wave v).toNat =
      (v.dwLastVal - v.dwPreLastVal).toInt32.toInt.natAbs * 100 % 2 ^ 32 / v.dwPreLastVal.toNat := by
    rw [wave, UInt32.toNat_div, UInt32.toNat_ofNat']
  rw [natAbs_sub] at hq
  constructor
  · intro h
    have hlim : ∀ W : Int, 0 ≤ W → (W < (wave v).toInt32.toInt ↔ W < v.percent) := by
      intro W hW
      have hc : WarnConfig.has ⟨0, 0, 0, 0, W, 4, 0⟩ attrWarnFlagWave = true :=
        decide_eq_true (show 4 &&& 4 ≠ 0 by decide)
      have hview := ((h _ 0 hc hW).1 0).1
      exact (exists_wave (.inr rfl) hc hpre).symm.trans hview
    by_cases h0 : v.percent = 0
    · have := Nat.lt_of_div_eq_zero hpos h0
      omega
    have h1 := hlim (max (wave v).toInt32.toInt 0) (by omega)
    have h2 := hlim v.percent (by omega)
    have hlt : (wave v).toInt32.toInt < 2 ^ 31 := Int32.toInt_lt _
    have hnat : ((wave v).toNat : Int) = (wave v).toInt32.toInt :=
      toNat_toUInt32 (a := (wave v).toInt32) (by omega)
    refine ⟨Nat.lt_of_not_le fun hbig => ?_, by omega⟩
    -- what is left of the product is at least one value before below it
    have hr : (if v.dist < 2 ^ 31 then v.dist else 2 ^ 32 - v.dist) * 100 % 2 ^ 32 +
        v.dwPreLastVal.toNat ≤ v.dist * 100 := by
      split <;> omega
    have hdiv := Nat.div_le_div_right (c := v.dwPreLastVal.toNat) hr
    rw [Nat.add_div_right _ hpos] at hdiv
    unfold Vals.percent at h1 h2
    omega
  · rintro ⟨hsmall, hint⟩ c now hc h0
    rw [if_pos (by omega), Nat.mod_eq_of_lt hsmall] at hq
    have hw : (wave v).toInt32.toInt = v.percent := by
      rw [toInt_toInt32 (by rw [hq]; exact hint), hq]; rfl
    have hof : ∀ {typeFlag mask i a}, typeFlag = 8 ∨ typeFlag = 16 →
        WaveOf c v.percent (checkWarn typeFlag mask i a c v now) := by
      intro typeFlag mask i a htype
      refine ⟨?_, fun w hw hwave _ => ?_⟩
      · rw [exists_wave htype hc hpre, hw]
      · rw [((mem_wave htype hc hpre).mp ⟨hw, hwave⟩).2]
        exact hq
    refine ⟨fun t => hof (.inr rfl), fun bWarnFlag p i hv => ?_⟩
    rw [checkMachineWarn, hv]
    exact hof (.inl rfl)

theorem wave_half : ∃ w ∈ checkViewWarn ⟨7, 3, 0, 0, 20, 4, 1⟩ ⟨50, 75, 0⟩ 600,
    w.IsWave ∧ w.dwWarnValue = 50 := by
  have h := (wave_iff ⟨75, 50⟩ (by decide)).mpr (by decide) ⟨7, 3, 0, 0, 20, 4, 1⟩ 600 rfl (by decide)
  obtain ⟨w, hw, hwave⟩ := (h.1 0).1.mpr (by decide)
  exact ⟨w, hw, hwave, UInt32.toNat_inj.mp ((h.1 0).2 w hw hwave (by decide))⟩

/-- A value that falls from 100000000 to 0 falls by 100 percent. The check finds 14. -/
theorem wave_overflow : (⟨0, 100000000⟩ : Vals).percent = 100 ∧
    checkViewWarn ⟨7, 3, 0, 0, 20, 4, 1⟩ ⟨100000000, 0, 0⟩ 600 = [] := by
  decide

end DesPwd.L4.CheckWarn
