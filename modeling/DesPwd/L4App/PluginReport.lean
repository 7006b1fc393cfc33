import DesPwd.Core.Quoted
import DesPwd.L1Encoding.PluginEntry
import DesPwd.L4App.ShmLog

/-!
# The SQL statements of a plugin report

`DealCmdReportPluginInfo` walks over the entries of a report. For each it builds
statements from the numbers of the entry and from what the database answered;
the first report of a plugin also puts `szVersion` between two quotes, as the
bytes up to the next zero byte and without escaping them
(slog_mtreport_server/udp_sock.cpp).

The content of the command is the memory from `m_pstCmdContent` on: a read or a
write outside it is `none`. The numbers of an entry are turned to the host's
order in place, so a version without a zero byte goes on with `iLibVerNum` as it
is in the host's memory. `Answers` is what the database says while an entry is
processed. A literal is read as MySQL reads it by default; comments and double
quotes are text outside the literals. The answer to the agent is not modelled.

* `expected`: the statements, from the numbers and the answers alone.
* `loop_expected`: a report whose versions stay inside their literals.
* `plugin_sql_iff`: which reports keep the structure of the statements.
* `version_sets_status`: a version that assigns another column.
-/
namespace DesPwd.L4.PluginReport

open Bytes Quoted L1.PluginEntry List Option
open L4.LogFiles (decimal)
open L4.ShmLog (signed digit_of_mem_decimal)

/-! ## Statements -/

/-- What the database answers while one entry is processed. -/
structure Answers where
  /-- `select plugin_name`: no row, or the name, which may be NULL. -/
  plugin : Option (Option Bytes)
  /-- `select xrk_id,cfg_file_time`: no row, or the two columns. -/
  machine : Option (Int × UInt32)
  /-- `getuval` after `select cfg_file_time`. -/
  cfg_file_time : UInt32

/-- The server while it processes a report; `db i` answers for entry `i`. -/
structure Env where
  m_iRemoteMachineId : Int
  now : UInt32
  db : Nat → Answers

/-- `"\'" << s << "\'"` -/
def quoted (s : Bytes) : Bytes := 39 :: (s ++ [39])

/-- `ss << name << t`, for a time that is set. -/
def setTime (name : String) (t : UInt32) : Bytes := if 0 < t then txt name ++ decimal t.toNat else []

section Statements

variable (machine : Int)

def selectCfg (x : Info) : Bytes :=
  txt "select cfg_file_time from mt_plugin_machine where machine_id=" ++ signed machine ++
    txt " and open_plugin_id=" ++ signed x.iPluginId ++ txt " and xrk_status=0 "

def updateInfo (x : Info) : Bytes :=
  txt "update mt_plugin_machine set last_hello_time=" ++ decimal x.dwLastHelloTime.toNat ++
    txt ", install_proc=0" ++ setTime ", last_attr_time=" x.dwLastReportAttrTime ++
    setTime ", last_log_time=" x.dwLastReportLogTime ++ txt " where machine_id=" ++
    signed machine ++ txt " and open_plugin_id=" ++ signed x.iPluginId

/-- The statements of an entry that is not the first of its plugin.
mirrors udp_sock.cpp:1506-1535 -/
def infoSqls (x : Info) : List Bytes := [selectCfg machine x, updateInfo machine x]

def selectName (f : First) : Bytes :=
  txt "select plugin_name from mt_plugin where open_plugin_id=" ++ signed f.iPluginId ++
    txt " and xrk_status=0"

def selectMachine (f : First) : Bytes :=
  txt "select xrk_id,cfg_file_time from mt_plugin_machine where machine_id=" ++ signed machine ++
    txt " and open_plugin_id=" ++ signed f.iPluginId ++ txt " and xrk_status=0 "

/-- The update up to the version. -/
def updateFront (f : First) : Bytes :=
  txt "update mt_plugin_machine set install_proc=0,last_hello_time=" ++
    decimal f.dwLastHelloTime.toNat ++ setTime ", last_attr_time=" f.dwLastReportAttrTime ++
    setTime ", last_log_time=" f.dwLastReportLogTime ++ txt ", lib_ver_num=" ++
    signed f.iLibVerNum ++ txt ", plugin_version="

/-- The update behind the version. -/
def updateBack (f : First) (id : Int) : Bytes :=
  txt ", start_time=" ++ decimal f.dwPluginStartTime.toNat ++ txt " where xrk_id=" ++ signed id

def updateFirst (f : First) (szVersion : Bytes) (id : Int) : Bytes :=
  updateFront f ++ quoted szVersion ++ updateBack f id

def updateStart (f : First) (id : Int) : Bytes :=
  txt "update mt_plugin_machine set start_attr_time=" ++ decimal f.dwLastReportAttrTime.toNat ++
    txt " where start_attr_time=0 and xrk_id=" ++ signed id

/-- The insert up to its first literal. -/
def insertFront (f : First) : Bytes :=
  txt "insert into mt_plugin_machine set last_attr_time=" ++ decimal f.dwLastReportAttrTime.toNat ++
    txt ", last_log_time=" ++ decimal f.dwLastReportLogTime.toNat ++ txt ", last_hello_time=" ++
    decimal f.dwLastHelloTime.toNat ++ txt ", lib_ver_num=" ++ signed f.iLibVerNum ++
    txt ", start_time=" ++ decimal f.dwPluginStartTime.toNat ++ txt ", machine_id=" ++
    signed machine ++ txt ", open_plugin_id=" ++ signed f.iPluginId ++ txt ", local_cfg_url="

def insertFirst (f : First) (szVersion : Bytes) : Bytes :=
  insertFront machine f ++ quoted (txt "server add") ++ txt ", plugin_version=" ++ quoted szVersion

/-- The statements of a first report once its plugin was found.
mirrors udp_sock.cpp:1577-1620 -/
def firstSqls (a : Answers) (f : First) (szVersion : Bytes) : List Bytes :=
  selectMachine machine f ::
    match a.machine with
    | some (id, _) =>
      updateFirst f szVersion id ::
        if 0 < f.dwLastReportAttrTime then [updateStart f id] else []
    | none => [insertFirst machine f szVersion]

end Statements

/-! ## The walk over the entries -/

/-- `MonitorPluginCheckResult` -/
structure Check where
  iPluginId : Int
  bCheckResult : Nat
  bNeedReportCfg : Nat
  deriving DecidableEq

/-- What one round of the loop does; `mem` is the memory from the entry on. -/
structure Round where
  sqls : List Bytes
  check : Check
  mem : Bytes

/-- mirrors udp_sock.cpp:1497-1536 -/
def infoRound (e : Env) (i : Nat) (b : Bytes) : Option Round := do
  let (x, b) ← readInfo e.now b
  let need := if x.dwConfigFileTime ≠ (e.db i).cfg_file_time then 1 else 0
  pure ⟨infoSqls e.m_iRemoteMachineId x, ⟨x.iPluginId, 0, need⟩, b⟩

/-- The name passes the check; `name` is the `plugin_name` of the row. -/
def nameOk (name : Option Bytes) (f : First) (b : Bytes) : Option Bool :=
  if f.bPluginNameLen < 1 then some false
  else match name with
    | none => some true
    | some s => strncmpEq f.bPluginNameLen s (b.drop 46)

def needCfg (a : Answers) (f : First) : Nat :=
  match a.machine with
  | some (_, t) => if f.dwConfigFileTime ≠ t then 1 else 0
  | none => 1

/-- mirrors udp_sock.cpp:1536-1624 -/
def firstRound (e : Env) (i : Nat) (b : Bytes) : Option Round := do
  let (f, b) ← readFirst e.now b
  let failed : Check := ⟨f.iPluginId, 1, 0⟩
  match (e.db i).plugin with
  | none => pure ⟨[selectName f], failed, b⟩
  | some name =>
    if ← nameOk name f b then
      let szVersion ← cStrAt b 5
      pure ⟨selectName f :: firstSqls e.m_iRemoteMachineId (e.db i) f szVersion,
        ⟨f.iPluginId, 0, needCfg (e.db i) f⟩, b⟩
    else
      -- `sPluginName[bPluginNameLen-1] = '\0'`
      if 45 + f.bPluginNameLen < b.length then
        pure ⟨[selectName f], failed, store b (45 + f.bPluginNameLen) [0]⟩
      else none

/-- The loop at its end: the entries it did not come to, and `wLen`. -/
structure Walk where
  left : Nat
  wLen : Nat
  sqls : List Bytes
  checks : List Check

def Walk.add (r : Round) (w : Walk) : Walk :=
  { w with sqls := r.sqls ++ w.sqls, checks := r.check :: w.checks }

/-- `wLen -= 1+iItemLen` on 16 bits -/
def lessLen (wLen : Nat) (iItemLen : UInt8) : Nat :=
  (wLen + 65536 - (1 + iItemLen.toNat)) % 65536

/-- The loop with `left = bPluginCount - i`, from entry `i` at the front of `b`.
mirrors udp_sock.cpp:1494-1629 -/
def loop (e : Env) : Nat → Nat → Nat → Bytes → Option Walk
  | 0, _, wLen, _ => some ⟨0, wLen, [], []⟩
  | left + 1, i, wLen, b =>
    if 0 < wLen then do
      let iItemLen ← b.head?
      let next (r : Round) : Option Walk :=
        (loop e left (i + 1) (lessLen wLen iItemLen) (r.mem.drop (1 + iItemLen.toNat))).map
          (Walk.add r)
      if iItemLen = 20 then (infoRound e i b).bind next
      else if 45 < iItemLen then (firstRound e i b).bind next
      else some ⟨left + 1, wLen, [], []⟩
    else some ⟨left + 1, wLen, [], []⟩

/-- What the handler returns, with the statements it executed and the results it
puts into its answer. -/
structure Outcome where
  iRet : Int
  sqls : List Bytes
  stPluginCheck : List Check
  deriving DecidableEq

/-- The handler up to its answer; `comm` is what `DealCommInfo` returns.
mirrors udp_sock.cpp:1468-1633 -/
def dealCmdReportPluginInfo (e : Env) (comm : Int) (m_wCmdContentLen : Nat) (content : Bytes) :
    Option Outcome :=
  if m_wCmdContentLen ≤ 1 then some ⟨14, [], []⟩
  else if comm ≠ 0 then some ⟨comm, [], []⟩
  else do
    let bPluginCount ← rd8 content 0
    let w ← loop e bPluginCount 0 (m_wCmdContentLen - 1) (content.drop 1)
    if 0 < w.left ∨ 0 < w.wLen then pure ⟨2, w.sqls, w.checks⟩ else pure ⟨0, w.sqls, w.checks⟩

/-! ## The statements from the numbers and the answers -/

/-- The numbers of an entry. -/
inductive Item where
  | info (x : Info)
  | first (f : First)

/-- The numbers of the entries of a report. -/
def numbers (now : UInt32) : Nat → Nat → Bytes → List Item
  | 0, _, _ => []
  | left + 1, wLen, b =>
    if 0 < wLen then
      match b.head? with
      | none => []
      | some iItemLen =>
        let rest := numbers now left (lessLen wLen iItemLen) (b.drop (1 + iItemLen.toNat))
        if iItemLen = 20 then
          match (readInfo now b).map Prod.fst with
          | some x => .info x :: rest
          | none => []
        else if 45 < iItemLen then
          match (readFirst now b).map Prod.fst with
          | some f => .first f :: rest
          | none => []
        else []
    else []

/-- The statements of one entry; a plugin that is found has the name it says. -/
def expectedOne (e : Env) (i : Nat) (szVersion : Bytes) : Item → List Bytes
  | .info x => infoSqls e.m_iRemoteMachineId x
  | .first f =>
    selectName f ::
      match (e.db i).plugin with
      | none => []
      | some _ => firstSqls e.m_iRemoteMachineId (e.db i) f szVersion

/-- The statements of a report from entry `i` on, each entry with its version. -/
def expected (e : Env) : Nat → List (Item × Bytes) → List Bytes
  | _, [] => []
  | i, (x, v) :: xs => expectedOne e i v x ++ expected e (i + 1) xs

/-- The statements are the same, up to what one literal of each holds. -/
def SameStatements : List Bytes → List Bytes → Prop := Forall₂ (OneLiteral 39 92)

/-- The name passes the check, and the version stays inside its literal. -/
def firstOk (e : Env) (i : Nat) (b : Bytes) : Bool :=
  match readFirst e.now b, (e.db i).plugin with
  | some (f, b'), some name =>
    nameOk name f b' == some true && (cStrAt b' 5).any (closed 39 92)
  | _, _ => true

/-- `firstOk` for every first report that the loop comes to. -/
def quiet (e : Env) : Nat → Nat → Nat → Bytes → Bool
  | 0, _, _, _ => true
  | left + 1, i, wLen, b =>
    if 0 < wLen then
      match b.head? with
      | none => true
      | some iItemLen =>
        let rest := quiet e left (i + 1) (lessLen wLen iItemLen) (b.drop (1 + iItemLen.toNat))
        if iItemLen = 20 then rest
        else if 45 < iItemLen then firstOk e i b && rest
        else true
    else true

/-! ## One statement -/

theorem quote_not_mem_decimal (n : Nat) : (39 : UInt8) ∉ decimal n := fun h =>
  absurd (digit_of_mem_decimal h).1 (by decide)

theorem quote_not_mem_signed (n : Int) : (39 : UInt8) ∉ signed n := by
  rw [signed]
  split
  · exact not_mem_cons_of_ne_of_not_mem (by decide) (quote_not_mem_decimal _)
  · exact quote_not_mem_decimal _

theorem quote_not_mem_setTime {name : String} (h : (39 : UInt8) ∉ txt name) (t : UInt32) :
    (39 : UInt8) ∉ setTime name t := by
  rw [setTime]
  split
  · exact fun hm => (mem_append.mp hm).elim h (quote_not_mem_decimal _)
  · exact not_mem_nil

variable {s : Bytes}

theorem quote_not_mem_fronts (machine : Int) (f : First) (id : Int) :
    (39 : UInt8) ∉ updateFront f ∧ (39 : UInt8) ∉ updateBack f id ∧
      (39 : UInt8) ∉ insertFront machine f := by
  refine ⟨?_, ?_, ?_⟩
  all_goals repeat' apply not_mem_append
  all_goals first
    | exact quote_not_mem_decimal _
    | exact quote_not_mem_signed _
    | exact quote_not_mem_setTime (by decide +kernel) _
    | decide +kernel

section Version

variable (machine : Int) (a : Answers) (f : First)

/-- The statement of a first report that holds the version. -/
def versionSql (szVersion : Bytes) : Bytes :=
  match a.machine with
  | some (id, _) => updateFirst f szVersion id
  | none => insertFirst machine f szVersion

/-- Its version stands in a slot between two quotes. -/
theorem versionSql_slot : ∃ pre ps rest, Opens (39 : UInt8) 92 pre ps ∧ 39 ∉ rest ∧
      ∀ v, versionSql machine a f v = slot 39 pre rest v := by
  unfold versionSql
  split
  case h_1 id t _ =>
    obtain ⟨hfront, hback, -⟩ := quote_not_mem_fronts machine f id
    refine ⟨_, _, _, Opens.of_plain hfront, hback, fun v => ?_⟩
    simp only [updateFirst, slot, quoted, append_assoc, cons_append, nil_append]
  case h_2 =>
    obtain ⟨-, -, hfront⟩ := quote_not_mem_fronts machine f 0
    refine ⟨slot 39 _ (txt ", plugin_version=") (txt "server add"), _, [],
      (Opens.of_plain hfront).slot (by decide) (by decide +kernel) (by decide +kernel)
        (by decide +kernel), not_mem_nil, fun v => ?_⟩
    simp only [insertFirst, slot, quoted, append_assoc, cons_append, nil_append]

/-- A version that stays inside its literal changes nothing else. -/
theorem versionSql_oneLiteral {v w : Bytes} (hw : closed 39 92 w = true) :
    (closed 39 92 v = true → OneLiteral 39 92 (versionSql machine a f v) (versionSql machine a f w)) ∧
      (OneLiteral 39 92 (versionSql machine a f v) (versionSql machine a f []) →
        closed 39 92 v = true) := by
  obtain ⟨pre, ps, rest, hpre, hrest, heq⟩ := versionSql_slot machine a f
  simp only [heq]
  exact ⟨fun hv => oneLiteral_slot (by decide) hpre hrest hv hw,
    (oneLiteral_slot_iff (by decide) hpre hrest v).mp⟩

/-- The statements of a first report around the one with the version. -/
theorem firstSqls_eq : ∃ tail, ∀ v,
    firstSqls machine a f v = selectMachine machine f :: versionSql machine a f v :: tail := by
  unfold firstSqls versionSql
  split <;> exact ⟨_, fun _ => rfl⟩

end Version

theorem SameStatements.refl (ss : List Bytes) : SameStatements ss ss :=
  forall₂_same.mpr fun _ _ => .inl rfl

theorem expectedOne_same (e : Env) (i : Nat) (x : Item) {v w : Bytes}
    (hv : closed 39 92 v = true) (hw : closed 39 92 w = true) :
    SameStatements (expectedOne e i v x) (expectedOne e i w x) := by
  cases x with
  | info x => exact SameStatements.refl _
  | first f =>
    refine .cons (.inl rfl) ?_
    split
    · exact .nil
    · obtain ⟨tail, htail⟩ := firstSqls_eq e.m_iRemoteMachineId (e.db i) f
      rw [htail, htail]
      exact .cons (.inl rfl) (.cons ((versionSql_oneLiteral _ _ f hw).1 hv) (SameStatements.refl tail))

/-- Reports with the same numbers and versions that stay inside their literals. -/
theorem expected_same (e : Env) {xs ys : List (Item × Bytes)} (i : Nat)
    (hxy : xs.map Prod.fst = ys.map Prod.fst) (hxs : ∀ x ∈ xs, closed 39 92 x.2 = true)
    (hys : ∀ y ∈ ys, closed 39 92 y.2 = true) :
    SameStatements (expected e i xs) (expected e i ys) := by
  induction xs generalizing i ys with
  | nil =>
    rw [map_eq_nil_iff.mp hxy.symm]
    exact .nil
  | cons x xs ih =>
    obtain ⟨x, v⟩ := x
    cases ys with
    | nil => cases hxy
    | cons y ys =>
      obtain ⟨y, w⟩ := y
      obtain ⟨rfl, htail⟩ := cons.inj hxy
      obtain ⟨hv, hxs⟩ := forall_mem_cons.mp hxs
      obtain ⟨hw, hys⟩ := forall_mem_cons.mp hys
      exact rel_append (expectedOne_same e i x hv hw) (ih (i + 1) htail hxs hys)

/-! ## One round -/

variable {e : Env} {left i wLen : Nat} {b : Bytes} {r : Round} {w : Walk}

theorem infoRound_cases (h : infoRound e i b = some r) :
    ∃ x, readInfo e.now b = some (x, r.mem) ∧ r.sqls = infoSqls e.m_iRemoteMachineId x := by
  simp only [infoRound, bind_eq_bind, bind_eq_some_iff, Prod.exists, Option.pure_def,
    Option.some.injEq] at h
  obtain ⟨x, b', hx, rfl⟩ := h
  exact ⟨x, hx, rfl⟩

/-- A first report ends in one of three ways: it keeps to its statements, its
name fails the check, or its version leaves the literal. -/
inductive FirstCase (e : Env) (i : Nat) (b : Bytes) (f : First) (r : Round) : Prop where
  | kept (v : Bytes) (hv : closed 39 92 v = true) (ok : firstOk e i b = true)
      (mem : readFirst e.now b = some (f, r.mem)) (sqls : r.sqls = expectedOne e i v (.first f))
  | name (name : Option Bytes) (hn : (e.db i).plugin = some name) (bad : firstOk e i b = false)
      (sqls : r.sqls = [selectName f])
  | version (v : Bytes) (name : Option Bytes) (hv : closed 39 92 v = false)
      (hn : (e.db i).plugin = some name) (bad : firstOk e i b = false)
      (sqls : r.sqls = expectedOne e i v (.first f))

theorem firstRound_cases (h : firstRound e i b = some r) : ∃ f b',
    readFirst e.now b = some (f, b') ∧ FirstCase e i b f r := by
  simp only [firstRound, bind_eq_bind, bind_eq_some_iff, Prod.exists] at h
  obtain ⟨f, b', hf, h⟩ := h
  refine ⟨f, b', hf, ?_⟩
  cases hn : (e.db i).plugin with
  | none =>
    rw [hn] at h
    obtain rfl := some.inj h
    exact .kept [] rfl (by simp [firstOk, hn]) hf (by simp [expectedOne, hn])
  | some name =>
    simp only [hn, bind_eq_some_iff] at h
    obtain ⟨ok, hok, h⟩ := h
    cases ok with
    | false =>
      have hbad : firstOk e i b = false := by simp [firstOk, hf, hn, hok]
      simp only [Bool.false_eq_true, if_false] at h
      split at h
      · obtain rfl := some.inj h
        exact .name name hn hbad rfl
      · cases h
    | true =>
      rw [if_pos rfl, bind_eq_some_iff] at h
      obtain ⟨v, hv, h⟩ := h
      obtain rfl := some.inj h
      have hfirst : firstOk e i b = closed 39 92 v := by simp [firstOk, hf, hn, hok, hv]
      have hsqls : selectName f :: firstSqls e.m_iRemoteMachineId (e.db i) f v =
          expectedOne e i v (.first f) := by simp [expectedOne, hn]
      cases hc : closed 39 92 v with
      | true => exact .kept v hc (hfirst.trans hc) hf hsqls
      | false => exact .version v name hc hn (hfirst.trans hc) hsqls

/-! ## The loop -/

/-- How the loop goes on: it ends, or it does one round. -/
inductive LoopCase (e : Env) (left i wLen : Nat) (b : Bytes) (w : Walk) : Prop where
  | done (sqls : w.sqls = []) (numbers : numbers e.now (left + 1) wLen b = [])
      (quiet : quiet e (left + 1) i wLen b = true)
  | info (x : Info) (wLen' : Nat) (b' : Bytes) (w' : Walk)
      (rest : loop e left (i + 1) wLen' b' = some w')
      (sqls : w.sqls = expectedOne e i [] (.info x) ++ w'.sqls)
      (numbers : numbers e.now (left + 1) wLen b = .info x :: numbers e.now left wLen' b')
      (quiet : quiet e (left + 1) i wLen b = quiet e left (i + 1) wLen' b')
  | first (f : First) (r : Round) (wLen' : Nat) (b' b0 : Bytes) (w' : Walk)
      (round : FirstCase e i b f r) (rest : loop e left (i + 1) wLen' b' = some w')
      (sqls : w.sqls = r.sqls ++ w'.sqls)
      (numbers : numbers e.now (left + 1) wLen b = .first f :: numbers e.now left wLen' b0)
      (quiet : quiet e (left + 1) i wLen b = (firstOk e i b && quiet e left (i + 1) wLen' b0))
      (same : firstOk e i b = true → b' = b0)

theorem loop_cases (h : loop e (left + 1) i wLen b = some w) : LoopCase e left i wLen b w := by
  rw [loop] at h
  by_cases hw : 0 < wLen
  case neg =>
    rw [if_neg hw] at h
    obtain rfl := some.inj h
    exact .done rfl (by rw [numbers, if_neg hw]) (by rw [quiet, if_neg hw])
  rw [if_pos hw] at h
  obtain ⟨len, hlen, h⟩ := bind_eq_some_iff.mp h
  by_cases h20 : len = 20
  case pos =>
    simp only [h20, if_true, bind_eq_some_iff, map_eq_some_iff] at h
    obtain ⟨r, hr, w', hrest, rfl⟩ := h
    obtain ⟨x, hx, hsqls⟩ := infoRound_cases hr
    have hmem : r.mem.drop (1 + (20 : UInt8).toNat) = b.drop (1 + (20 : UInt8).toNat) :=
      (agree_readInfo hx).drop_eq.symm
    rw [hmem] at hrest
    refine .info x _ _ w' hrest (congrArg (· ++ w'.sqls) hsqls) ?_ ?_
    · simp only [numbers, if_pos hw, hlen, h20, hx, map_some]
      rfl
    · simp only [quiet, if_pos hw, hlen, h20]
      rfl
  by_cases h45 : 45 < len
  case pos =>
    simp only [h20, h45, if_true, if_false, bind_eq_some_iff, map_eq_some_iff] at h
    obtain ⟨r, hr, w', hrest, rfl⟩ := h
    obtain ⟨f, b', hf, hround⟩ := firstRound_cases hr
    refine .first f r _ _ (b.drop (1 + len.toNat)) w' hround hrest rfl ?_ ?_ fun hok => ?_
    · simp only [numbers, if_pos hw, hlen, if_neg h20, if_pos h45, hf, map_some]
    · simp only [quiet, if_pos hw, hlen, if_neg h20, if_pos h45]
    -- the numbers stand in front of the next entry
    have hlt : 45 < len.toNat := UInt8.lt_iff_toNat_lt.mp h45
    cases hround with
    | kept v _ _ hmem =>
      exact ((agree_readFirst hmem).mono fun j hj => by omega).drop_eq.symm
    | name _ _ bad => rw [hok] at bad; cases bad
    | version _ _ _ _ bad => rw [hok] at bad; cases bad
  simp only [h20, h45, if_false] at h
  obtain rfl := some.inj h
  exact .done rfl (by simp [numbers, hw, hlen, h20, h45]) (by simp [quiet, hw, hlen, h20, h45])

/-- A report whose versions stay inside their literals: the statements are those
for its numbers and the answers. -/
theorem loop_expected (e : Env) (left i wLen : Nat) (b : Bytes) (w : Walk)
    (h : loop e left i wLen b = some w) (hq : quiet e left i wLen b = true) :
    ∃ xs, xs.map Prod.fst = numbers e.now left wLen b ∧ (∀ x ∈ xs, closed 39 92 x.2 = true) ∧
      w.sqls = expected e i xs := by
  induction left generalizing i wLen b w with
  | zero =>
    obtain rfl := some.inj h
    exact ⟨[], rfl, by simp, rfl⟩
  | succ left ih =>
    cases loop_cases h with
    | done hsqls hnum => exact ⟨[], hnum.symm, by simp, hsqls⟩
    | info x wLen' b' w' hrest hsqls hnum hquiet =>
      obtain ⟨xs, hxs, hcl, hw'⟩ := ih _ _ _ _ hrest (hquiet ▸ hq)
      refine ⟨(.info x, []) :: xs, by rw [map_cons, hxs, hnum], ?_, by rw [hsqls, hw']; rfl⟩
      exact forall_mem_cons.mpr ⟨rfl, hcl⟩
    | first f r wLen' b' b0 w' hround hrest hsqls hnum hquiet hsame =>
      obtain ⟨hok, hq'⟩ := Bool.and_eq_true_iff.mp (hquiet ▸ hq)
      cases hround with
      | kept v hv _ _ hr =>
        obtain ⟨xs, hxs, hcl, hw'⟩ := ih _ _ _ _ (hsame hok ▸ hrest) hq'
        refine ⟨(.first f, v) :: xs, by rw [map_cons, hxs, hnum], ?_, by rw [hsqls, hr, hw']; rfl⟩
        exact forall_mem_cons.mpr ⟨hv, hcl⟩
      | name _ _ bad => rw [hok] at bad; cases bad
      | version _ _ _ _ bad => rw [hok] at bad; cases bad

/-- The first statement of the loop is the first one of an entry. -/
theorem loop_head {ss : List Bytes} (h : loop e left i wLen b = some w) (hs : w.sqls = s :: ss) :
    (∃ x, s = selectCfg e.m_iRemoteMachineId x) ∨ ∃ f, s = selectName f := by
  cases left with
  | zero =>
    obtain rfl := some.inj h
    cases hs
  | succ left =>
    cases loop_cases h with
    | done hsqls => rw [hsqls] at hs; cases hs
    | info x _ _ w' _ hsqls =>
      rw [hsqls] at hs
      exact .inl ⟨x, (cons.inj hs).1.symm⟩
    | first f r _ _ _ w' hround _ hsqls =>
      rw [hsqls] at hs
      refine .inr ⟨f, ?_⟩
      cases hround with
      | kept v _ _ _ hr => rw [hr] at hs; exact (cons.inj hs).1.symm
      | name _ _ _ hr => rw [hr] at hs; exact (cons.inj hs).1.symm
      | version v _ _ _ _ hr => rw [hr] at hs; exact (cons.inj hs).1.symm

/-- No entry starts with the statement that follows when a plugin was found. -/
theorem not_oneLiteral_selectMachine {ss : List Bytes} (machine : Int) (f : First)
    (h : loop e left i wLen b = some w) (hs : w.sqls = s :: ss) :
    ¬ OneLiteral 39 92 s (selectMachine machine f) := by
  -- the three statements differ in their eighth byte
  intro hone
  obtain ⟨x, rfl⟩ | ⟨g, rfl⟩ := loop_head h hs <;>
    simp only [selectMachine, selectCfg, selectName, append_assoc] at hone <;>
    exact absurd (hone.take_eq 8 (by decide +kernel) (by decide +kernel) (by decide +kernel))
      (by decide +kernel)

/-- Statements that are those for the numbers and the answers come from versions
that stay inside their literals and from names that pass the check. -/
theorem quiet_of_same (e : Env) (left i wLen : Nat) (b : Bytes) (w : Walk)
    (h : loop e left i wLen b = some w)
    (hs : SameStatements w.sqls (expected e i ((numbers e.now left wLen b).map (·, [])))) :
    quiet e left i wLen b = true := by
  induction left generalizing i wLen b w with
  | zero => rfl
  | succ left ih =>
    cases loop_cases h with
    | done _ _ hquiet => exact hquiet
    | info x wLen' b' w' hrest hsqls hnum hquiet =>
      rw [hsqls, hnum] at hs
      rw [hquiet]
      exact ih _ _ _ _ hrest (forall₂_drop 2 hs)
    | first f r wLen' b' b0 w' hround hrest hsqls hnum hquiet hsame =>
      rw [hsqls, hnum, map_cons, expected] at hs
      rw [hquiet]
      cases hround with
      | kept v hv hok _ hr =>
        have hlen := (expectedOne_same e i (.first f) hv (w := []) rfl).length_eq
        rw [hr] at hs
        have htail := forall₂_drop (expectedOne e i v (.first f)).length hs
        rw [drop_left, hlen, drop_left] at htail
        rw [hok, Bool.true_and]
        exact ih _ _ _ _ (hsame hok ▸ hrest) htail
      | name name hn _ hr =>
        rw [hr, expectedOne, hn] at hs
        obtain ⟨s, ss, hone, -, hw'⟩ := forall₂_cons_right_iff.mp (forall₂_cons.mp hs).2
        exact absurd hone (not_oneLiteral_selectMachine _ f hrest hw')
      | version v name hv hn _ hr =>
        obtain ⟨tail, htail⟩ := firstSqls_eq e.m_iRemoteMachineId (e.db i) f
        rw [hr, expectedOne, expectedOne, hn] at hs
        simp only [htail] at hs
        have hone := (forall₂_cons.mp (forall₂_cons.mp (forall₂_cons.mp hs).2).2).1
        rw [(versionSql_oneLiteral _ _ f (w := []) rfl).2 hone] at hv
        cases hv

/-! ## The report -/

/-- The entries that the handler comes to: their number, `wLen` and the memory. -/
def entries (comm : Int) (m_wCmdContentLen : Nat) (content : Bytes) : Option (Nat × Nat × Bytes) :=
  if m_wCmdContentLen ≤ 1 ∨ comm ≠ 0 then none
  else (rd8 content 0).map fun bPluginCount => (bPluginCount, m_wCmdContentLen - 1, content.drop 1)

/-- The numbers of the report. -/
def reportNumbers (now : UInt32) (comm : Int) (m_wCmdContentLen : Nat) (content : Bytes) :
    List Item :=
  match entries comm m_wCmdContentLen content with
  | none => []
  | some (n, wLen, b) => numbers now n wLen b

/-- The statements from the numbers of the report and the answers. -/
def statements (e : Env) (xs : List Item) : List Bytes := expected e 0 (xs.map (·, []))

/-- Every first report of a plugin in `mt_plugin` has a name that passes the check
and a version that stays inside its literal. -/
def reportQuiet (e : Env) (comm : Int) (m_wCmdContentLen : Nat) (content : Bytes) : Bool :=
  match entries comm m_wCmdContentLen content with
  | none => true
  | some (n, wLen, b) => quiet e n 0 wLen b

/-- The memories are the same but for `szVersion` in the entries of a report. -/
def OnlyVersions : Nat → Nat → Bytes → Bytes → Prop
  | 0, _, b, b2 => b = b2
  | left + 1, wLen, b, b2 =>
    if 0 < wLen then
      match b.head? with
      | none => b = b2
      | some iItemLen =>
        if iItemLen = 20 ∨ 45 < iItemLen then
          Agree (fun j => j < 1 + iItemLen.toNat ∧ (45 < iItemLen → j < 5 ∨ 21 ≤ j)) b b2 ∧
            OnlyVersions left (lessLen wLen iItemLen) (b.drop (1 + iItemLen.toNat))
              (b2.drop (1 + iItemLen.toNat))
        else b = b2
    else b = b2

/-- The reports are the same but for `szVersion` in their entries. -/
def OnlyVersionsDiffer (m_wCmdContentLen : Nat) (content content2 : Bytes) : Prop :=
  content.head? = content2.head? ∧ ∀ bPluginCount, rd8 content 0 = some bPluginCount →
      OnlyVersions bPluginCount (m_wCmdContentLen - 1) (content.drop 1) (content2.drop 1)

theorem numbers_congr (now : UInt32) {b2 : Bytes} (h : OnlyVersions left wLen b b2) :
    numbers now left wLen b = numbers now left wLen b2 := by
  induction left generalizing wLen b b2 with
  | zero => rfl
  | succ left ih =>
    rw [OnlyVersions] at h
    split at h
    case isFalse => rw [h]
    case isTrue hw =>
      cases hlen : b.head? with
      | none =>
        rw [hlen] at h
        rw [show b = b2 from h]
      | some len =>
        simp only [hlen] at h
        split at h
        case isFalse => rw [h]
        case isTrue hl =>
          obtain ⟨hag, hrest⟩ := h
          have hlen2 : b2.head? = some len := by
            rw [head?_eq_getElem?, ← hag 0 ⟨by omega, fun _ => .inl (by decide)⟩,
              ← head?_eq_getElem?, hlen]
          simp only [numbers, if_pos hw, hlen, hlen2, ih hrest]
          by_cases h20 : len = 20
          · subst h20
            have hread : Agree (· < 21) b b2 :=
              hag.mono fun j hj => ⟨hj, fun h45 => absurd h45 (by decide)⟩
            rw [if_pos rfl, if_pos rfl, (readInfo_congr hread).map_fst]
          · have h45 : 45 < len := hl.resolve_left h20
            have hlt : 45 < len.toNat := UInt8.lt_iff_toNat_lt.mp h45
            have hread : Agree Numeric b b2 :=
              hag.mono fun j hj => by unfold Numeric at hj; omega
            rw [if_neg h20, if_neg h20, if_pos h45, if_pos h45, (readFirst_congr hread).map_fst]

variable {comm : Int} {len : Nat} {content : Bytes} {out : Outcome}

theorem deal_entries (h : dealCmdReportPluginInfo e comm len content = some out) :
    entries comm len content = none ∧ out.sqls = [] ∨
      ∃ n wLen b w, entries comm len content = some (n, wLen, b) ∧ loop e n 0 wLen b = some w ∧
        out.sqls = w.sqls := by
  unfold dealCmdReportPluginInfo at h
  by_cases hlen : len ≤ 1
  · rw [if_pos hlen] at h
    obtain rfl := some.inj h
    exact .inl ⟨if_pos (.inl hlen), rfl⟩
  rw [if_neg hlen] at h
  by_cases hcomm : comm ≠ 0
  · rw [if_pos hcomm] at h
    obtain rfl := some.inj h
    exact .inl ⟨if_pos (.inr hcomm), rfl⟩
  rw [if_neg hcomm] at h
  obtain ⟨n, hn, h⟩ := bind_eq_some_iff.mp h
  obtain ⟨w, hw, h⟩ := bind_eq_some_iff.mp h
  refine .inr ⟨n, len - 1, content.drop 1, w, ?_, hw, ?_⟩
  · rw [entries, if_neg (not_or.mpr ⟨hlen, hcomm⟩), hn]
    rfl
  · split at h
    · exact some.inj h ▸ rfl
    · exact some.inj h ▸ rfl

theorem deal_expected (h : dealCmdReportPluginInfo e comm len content = some out)
    (hq : reportQuiet e comm len content = true) :
    ∃ xs, xs.map Prod.fst = reportNumbers e.now comm len content ∧
      (∀ x ∈ xs, closed 39 92 x.2 = true) ∧ out.sqls = expected e 0 xs := by
  unfold reportQuiet at hq
  unfold reportNumbers
  obtain ⟨hnone, hsqls⟩ | ⟨n, wLen, b, w, hsome, hw, hsqls⟩ := deal_entries h
  · rw [hnone]
    exact ⟨[], rfl, by simp, hsqls⟩
  · rw [hsome] at hq ⊢
    rw [hsqls]
    exact loop_expected e n 0 wLen b w hw hq

theorem reportNumbers_congr (now : UInt32) (comm : Int) {content2 : Bytes}
    (h : OnlyVersionsDiffer len content content2) :
    reportNumbers now comm len content = reportNumbers now comm len content2 := by
  have hcount : rd8 content 0 = rd8 content2 0 :=
    rd8_congr (by rw [← head?_eq_getElem?, ← head?_eq_getElem?, h.1])
  by_cases hearly : len ≤ 1 ∨ comm ≠ 0
  · simp [reportNumbers, entries, if_pos hearly]
  · simp only [reportNumbers, entries, if_neg hearly, ← hcount]
    cases hn : rd8 content 0 with
    | none => rfl
    | some n => exact numbers_congr now (h.2 n hn)

/-- The statements of a report are those for its numbers and the answers of the database, up
to what the literal of the version holds, exactly when every first report of a known plugin
has a name that passes the check and a version that stays inside its literal; two such
reports that differ only in `szVersion` have statements that differ only in one literal each. -/
theorem plugin_sql_iff (e : Env) (comm : Int) (len : Nat) (content : Bytes) (out : Outcome)
    (h : dealCmdReportPluginInfo e comm len content = some out) :
    (SameStatements out.sqls (statements e (reportNumbers e.now comm len content)) ↔
      reportQuiet e comm len content = true) ∧
    ∀ content2 out2, dealCmdReportPluginInfo e comm len content2 = some out2 →
      OnlyVersionsDiffer len content content2 → reportQuiet e comm len content = true →
        reportQuiet e comm len content2 = true → SameStatements out.sqls out2.sqls := by
  refine ⟨⟨fun hs => ?_, fun hq => ?_⟩, fun content2 out2 h2 hd hq hq2 => ?_⟩
  · unfold reportQuiet
    unfold reportNumbers at hs
    obtain ⟨hnone, -⟩ | ⟨n, wLen, b, w, hsome, hw, hsqls⟩ := deal_entries h
    · rw [hnone]
    · rw [hsome] at hs ⊢
      exact quiet_of_same e n 0 wLen b w hw (hsqls ▸ hs)
  · obtain ⟨xs, hxs, hcl, hsqls⟩ := deal_expected h hq
    rw [hsqls, ← hxs]
    refine expected_same e 0 ?_ hcl ?_
    · rw [List.map_map]
      exact (map_id _).symm
    · intro y hy
      obtain ⟨x, -, rfl⟩ := mem_map.mp hy
      rfl
  · obtain ⟨xs, hxs, hcl, hsqls⟩ := deal_expected h hq
    obtain ⟨ys, hys, hcl2, hsqls2⟩ := deal_expected h2 hq2
    rw [hsqls, hsqls2]
    exact expected_same e 0 (hxs.trans ((reportNumbers_congr _ _ hd).trans hys.symm)) hcl hcl2

/-- A server with plugin 3 of the name `p`, installed on machine 1. -/
def onePlugin : Env := ⟨1, 1000, fun _ => ⟨some (some (txt "p")), some (7, 0), 0⟩⟩

/-- A first report of plugin 3 with the 16 bytes of its version. -/
def oneReport (szVersion : Bytes) : Bytes :=
  [1, 46, 0, 0, 0, 3] ++ szVersion ++ [0, 0, 0, 1] ++ replicate 12 0 ++ [0, 0, 0, 5] ++
    [0, 0, 0, 9] ++ [1, 112]

/-- The statements of `oneReport` with the text of the third one behind
`plugin_version=`. -/
def oneSqls (s : String) : List Bytes :=
  [txt "select plugin_name from mt_plugin where open_plugin_id=3 and xrk_status=0",
    txt "select xrk_id,cfg_file_time from mt_plugin_machine where machine_id=1 and open_plugin_id=3 and xrk_status=0 ",
    txt "update mt_plugin_machine set install_proc=0,last_hello_time=5, lib_ver_num=1, plugin_version=" ++
      txt s]

theorem plugin_sql_iff_one : SameStatements (oneSqls "'1.0', start_time=9 where xrk_id=7")
      (statements onePlugin (reportNumbers 1000 0 48 (oneReport (txt "1.0" ++ replicate 13 0)))) :=
  (plugin_sql_iff onePlugin 0 48 (oneReport (txt "1.0" ++ replicate 13 0))
    ⟨0, oneSqls "'1.0', start_time=9 where xrk_id=7", [⟨3, 0, 0⟩]⟩ (by decide +kernel)).1.mpr
    (by decide +kernel)

/-- Two reports that differ only in `szVersion`: the second one ends the literal
and assigns `xrk_status`. -/
theorem version_sets_status : OnlyVersionsDiffer 48 (oneReport (txt "1.0" ++ replicate 13 0))
      (oneReport (txt "a',xrk_status='" ++ [0])) ∧
    (dealCmdReportPluginInfo onePlugin 0 48 (oneReport (txt "1.0" ++ replicate 13 0))).map
      Outcome.sqls = some (oneSqls "'1.0', start_time=9 where xrk_id=7") ∧
    (dealCmdReportPluginInfo onePlugin 0 48 (oneReport (txt "a',xrk_status='" ++ [0]))).map
      Outcome.sqls = some (oneSqls "'a',xrk_status='', start_time=9 where xrk_id=7") ∧
    ¬ SameStatements (oneSqls "'1.0', start_time=9 where xrk_id=7")
      (oneSqls "'a',xrk_status='', start_time=9 where xrk_id=7") := by
  refine ⟨⟨by decide +kernel, fun n hn => ?_⟩, by decide +kernel, by decide +kernel, fun hs => ?_⟩
  · have hone : rd8 (oneReport (txt "1.0" ++ replicate 13 0)) 0 = some 1 := by decide +kernel
    have hbytes : ∀ j < 47, (j < 5 ∨ 21 ≤ j) →
        ((oneReport (txt "1.0" ++ replicate 13 0)).drop 1)[j]? =
          ((oneReport (txt "a',xrk_status='" ++ [0])).drop 1)[j]? := by decide +kernel
    obtain rfl := some.inj (hone.symm.trans hn)
    have hlen : ((oneReport (txt "1.0" ++ replicate 13 0)).drop 1).head? = some 46 := by
      decide +kernel
    rw [OnlyVersions, if_pos (by decide), hlen]
    refine (if_pos (.inr (by decide))).mpr ⟨fun j hj => hbytes j hj.1 (hj.2 (by decide)), ?_⟩
    rw [OnlyVersions]
    decide +kernel
  · have hone := (forall₂_cons.mp (forall₂_cons.mp (forall₂_cons.mp hs).2).2).1
    exact absurd hone.outside (by decide +kernel)

end DesPwd.L4.PluginReport
