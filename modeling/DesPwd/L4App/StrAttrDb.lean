import DesPwd.L2Machine.StrAttrTotals

/-!
# String attributes across a restart

slog_monitor_server saves the strings of each entry as one protobuf message in a
row of the table of the day, and reads the rows back when it starts with an empty
pool (slog_monitor_server/udp_sock.cpp). A row is found by its attribute and
machine; the first one found is updated. The reload passes over a string when
`GetMachineInfo` finds its machine, so it only reads the strings of machines that
are gone.

SQL and protobuf store what they are given. What `getuval` makes of the text of
`report_time` is `Env.getuval`: it takes the bytes of a date for decimal digits.

* `saveAll_spec`: saving returns when every chain can be read, and keeps `Fits`.
* `readStrAttrInfo_spec`: a reload on an empty pool returns, and has entries of
  unknown machines only.
* `str_attr_restart_iff`: strings survive a restart when there are none to survive.
* `str_attr_restart_lost`: one string of a known machine.
-/
namespace DesPwd.L4.StrAttrDb

open Bytes Run L2.StrAttr List Option Entry

/-! ## Data -/

/-- mirrors `comm::AttrInfo`; its `uint32_attr_id` is the row's -/
structure AttrInfo where
  uint32_attr_value : UInt32
  str : Bytes
  deriving DecidableEq

/-- mirrors `comm::ReportAttr` -/
structure ReportAttr where
  msg_attr_info : List AttrInfo
  report_host_id : Int
  deriving DecidableEq

/-- A row of the table of the day; those of numbers have no message. -/
structure Row where
  attr_id : Int
  machine_id : Int
  value : UInt32
  str_val : ReportAttr
  report_time : UInt32
  deriving DecidableEq

def Row.key (r : Row) : Int × Int := (r.attr_id, r.machine_id)

/-- What a restart finds besides the table. -/
structure Env where
  /-- `GetAttrInfo`: the data type of an attribute that exists -/
  attrs : Int → Option UInt8
  /-- `GetMachineInfo` -/
  machines : Int → Bool
  /-- the hash table has a node for a new entry -/
  room : Int × Int → Bool
  /-- `getuval("report_time")` -/
  getuval : UInt32 → UInt32
  now : Nat
  mday : Nat

/-! ## SaveStrAttrInfoToDb -/

/-- The message of a chain; `none` is a read outside the array.
mirrors udp_sock.cpp:1422-1429 -/
def readNodes (f : Int → Node) : Nat → Int → Option (List AttrInfo)
  | 0, _ => some []
  | n + 1, idx =>
    if InRange idx then
      (readNodes f n (nextOf f idx)).map (⟨(f idx).iStrVal.toUInt32, (f idx).szStrInfo⟩ :: ·)
    else none

def entryNodes (p : Pool) (e : Entry) : Option (List AttrInfo) :=
  readNodes p.stInfo e.bStrCount e.iReportIdx

/-- The first row of the entry is updated, or one is inserted;
mirrors udp_sock.cpp:1446-1501 -/
def putRow (e : Entry) (pb : ReportAttr) : List Row → List Row
  | [] => [⟨e.iAttrId, e.iMachineId, 0, pb, e.dwLastReportTime⟩]
  | r :: rs =>
    if r.attr_id = e.iAttrId ∧ r.machine_id = e.iMachineId then
      { r with str_val := pb, report_time := e.dwLastReportTime } :: rs
    else r :: putRow e pb rs

/-- mirrors udp_sock.cpp:1415-1506 -/
def saveStrAttrInfoToDb (p : Pool) (rows : List Row) (e : Entry) : Option (List Row) := do
  let infos ← entryNodes p e
  pure (putRow e ⟨infos, e.iMachineId⟩ rows)

def saveAll (p : Pool) (es : List Entry) (rows : List Row) : Option (List Row) :=
  es.foldlM (saveStrAttrInfoToDb p) rows

/-! ## ReadStrAttrInfoFromDbToShm -/

/-- The caller's part after `AddStrAttrReportToShm`;
mirrors udp_sock.cpp:1404-1405 -/
def restamp (t : UInt32) (iDataType : UInt8) (e : Entry) (p : Pool) : Option (Entry × Pool) :=
  some ({ e with dwLastReportTime := t, bAttrDataType := iDataType }, p)

/-- One string of a row; mirrors udp_sock.cpp:1393-1407 -/
def loadMsg (env : Env) (row : Row) (iDataType : UInt8) (s : Sys) (m : AttrInfo) : Option Sys :=
  if env.machines row.str_val.report_host_id then some s
  else do
    let key := (row.attr_id, row.str_val.report_host_id)
    let s ← step s (.add key ⟨m.str, m.uint32_attr_value, 0⟩ env.now env.mday (env.room key))
    (withEntry key (restamp (env.getuval row.report_time) iDataType) s.entries s.pool).map
      fun (es, p) => ⟨es, p⟩

/-- mirrors udp_sock.cpp:1373-1408 -/
def loadRow (env : Env) (s : Sys) (row : Row) : Option Sys :=
  match env.attrs row.attr_id with
  | none => some s
  | some iDataType => row.str_val.msg_attr_info.foldlM (loadMsg env row iDataType) s

/-- mirrors udp_sock.cpp:1350-1412 -/
def readStrAttrInfoFromDbToShm (env : Env) (rows : List Row) (s : Sys) : Option Sys :=
  (rows.filter (·.value = 0)).foldlM (loadRow env) s

/-! ## The property -/

/-- The strings of a key with their values; a key without entry has none. -/
def strMap (s : Sys) (K : Int × Int) : Option (List AttrInfo) :=
  match s.entries.find? (·.key = K) with
  | none => some []
  | some e => entryNodes s.pool e

/-- A table that `SaveStrAttrInfoToDb` and the rows of numbers lead to: only the
first row of a key has strings, at most 28. -/
structure Fits (rows : List Row) : Prop where
  first : rows.Pairwise fun a b => a.key = b.key → b.str_val.msg_attr_info = []
  host : ∀ r ∈ rows, r.str_val.msg_attr_info ≠ [] → r.str_val.report_host_id = r.machine_id
  few : ∀ r ∈ rows, r.str_val.msg_attr_info.length ≤ selectCount + maxStrCount

/-- The table of the day before the save. -/
structure Table where
  rows : List Row
  fits : Fits rows

/-- After a save of every entry and a reload on an empty pool, each entry whose
attribute and machine exist has its strings and values. -/
def Survives (env : Env) (s : Sys) (db : Table) : Prop :=
  ∃ rows s', saveAll s.pool s.entries db.rows = some rows ∧
    readStrAttrInfoFromDbToShm env rows Sys.init = some s' ∧
    ∀ e ∈ s.entries, (env.attrs e.iAttrId).isSome → env.machines e.iMachineId →
      ∃ m m', strMap s e.key = some m ∧ strMap s' e.key = some m' ∧ ∀ x, x ∈ m ↔ x ∈ m'

/-! ## Saving -/

variable {s s' : Sys} {e e' : Entry} {p p' : Pool} {rows : List Row} {env : Env}

theorem readNodes_length {f : Int → Node} :
    ∀ {n} {idx} {infos}, readNodes f n idx = some infos →
      infos.length = n
  | 0, _, _, h => by
    cases h
    rfl
  | n + 1, idx, _, h => by
    rw [readNodes] at h
    split at h
    · obtain ⟨l, hl, rfl⟩ := map_eq_some_iff.1 h
      rw [length_cons, readNodes_length hl]
    · cases h

theorem mem_putRow {pb : ReportAttr} : ∀ {rows} {r}, r ∈ putRow e pb rows →
      r ∈ rows ∨ (r.key = e.key ∧ r.str_val = pb)
  | [], r, h => by
    rw [putRow, mem_singleton] at h
    subst h
    exact .inr ⟨rfl, rfl⟩
  | a :: rows, r, h => by
    rw [putRow] at h
    split at h
    case isTrue hk =>
      rcases mem_cons.1 h with rfl | h
      · exact .inr ⟨Prod.ext hk.1 hk.2, rfl⟩
      · exact .inl (mem_cons_of_mem _ h)
    case isFalse =>
      rcases mem_cons.1 h with rfl | h
      · exact .inl mem_cons_self
      · exact (mem_putRow h).imp_left (mem_cons_of_mem _)

theorem putRow_first {pb : ReportAttr} : ∀ {rows},
      rows.Pairwise (fun a b => a.key = b.key → b.str_val.msg_attr_info = []) →
      (putRow e pb rows).Pairwise (fun a b => a.key = b.key → b.str_val.msg_attr_info = [])
  | [], _ => pairwise_singleton _ _
  | a :: rows, h => by
    obtain ⟨ha, h⟩ := pairwise_cons.1 h
    rw [putRow]
    split
    case isTrue hk => exact pairwise_cons.2 ⟨fun b hb hab => ha b hb hab, h⟩
    case isFalse hk =>
      refine pairwise_cons.2 ⟨fun b hb hab => ?_, putRow_first h⟩
      rcases mem_putRow hb with hb | ⟨hbk, -⟩
      · exact ha b hb hab
      · exact absurd (Prod.ext_iff.1 (hab.trans hbk)) hk

theorem Fits.putRow {infos : List AttrInfo} (h : Fits rows)
    (hlen : infos.length ≤ selectCount + maxStrCount) :
    Fits (putRow e ⟨infos, e.iMachineId⟩ rows) where
  first := putRow_first h.first
  host r hr hne := by
    rcases mem_putRow hr with hr | ⟨hk, hpb⟩
    · exact h.host r hr hne
    · rw [hpb]
      exact (congrArg Prod.snd hk).symm
  few r hr := by
    rcases mem_putRow hr with hr | ⟨-, hpb⟩
    · exact h.few r hr
    · rw [hpb]
      exact hlen

variable {es : List Entry} {now mday : Nat} {K : Int × Int} {row : Row}

/-- Saving returns when every chain can be read. -/
theorem saveAll_spec (hfew : ∀ e ∈ es, e.bStrCount ≤ selectCount + maxStrCount)
    (hread : ∀ e ∈ es, (entryNodes p e).isSome) (h : Fits rows) :
    ∃ rows', saveAll p es rows = some rows' ∧ Fits rows' := by
  induction es generalizing rows with
  | nil => exact ⟨rows, rfl, h⟩
  | cons e es ih =>
    obtain ⟨infos, hinfos⟩ := isSome_iff_exists.1 (hread e mem_cons_self)
    have hlen : infos.length ≤ selectCount + maxStrCount := by
      rw [readNodes_length hinfos]
      exact hfew e mem_cons_self
    obtain ⟨rows', hsave, hfits⟩ := ih (fun e he => hfew e (mem_cons_of_mem _ he))
      (fun e he => hread e (mem_cons_of_mem _ he)) (h.putRow hlen)
    refine ⟨rows', ?_, hfits⟩
    rw [saveAll, foldlM_cons, saveStrAttrInfoToDb, hinfos]
    exact hsave

/-- A save that returns has read every chain. -/
theorem entryNodes_of_saveAll {rows' : List Row} (h : saveAll p es rows = some rows') :
    ∀ e ∈ es, (entryNodes p e).isSome := by
  induction es generalizing rows with
  | nil => exact nofun
  | cons e es ih =>
    obtain ⟨rows1, hsave, h⟩ := bind_eq_some_iff.1 h
    obtain ⟨infos, hinfos, -⟩ := bind_eq_some_iff.1 hsave
    refine forall_mem_cons.2 ⟨?_, ih h⟩
    rw [hinfos]
    rfl

/-! ## Entries with distinct keys -/

theorem withEntry_some {key : Int × Int} {f : Entry → Pool → Option (Entry × Pool)}
    (h : (withEntry key f s.entries s.pool).map (fun r => Sys.mk r.1 r.2) = some s') :
    (s' = s ∧ ∀ e ∈ s.entries, e.key ≠ key) ∨
      ∃ l1 e l2 e', s.entries = l1 ++ e :: l2 ∧ e.key = key ∧ f e s.pool = some (e', s'.pool) ∧
        s'.entries = l1 ++ e' :: l2 := by
  rcases withEntry_cases key f s.pool s.entries with ⟨hall, hno⟩ | ⟨l1, e, l2, hes, -, hk, hw⟩
  · rw [hno] at h
    cases h
    exact .inl ⟨rfl, hall⟩
  · rw [hw, Option.map_map] at h
    obtain ⟨⟨e', p'⟩, hf, rfl⟩ := map_eq_some_iff.1 h
    exact .inr ⟨l1, e, l2, e', hes, hk, hf, rfl⟩

/-- With distinct keys, the one entry of a key is the one that was replaced. -/
theorem nodup_replace {l1 l2 : List Entry} (h : ((l1 ++ e :: l2).map key).Nodup)
    (hk : e'.key = e.key) :
    ((l1 ++ e' :: l2).map key).Nodup ∧ ∀ x ∈ l1 ++ e' :: l2, x.key = e.key → x = e' := by
  have hsame : (l1 ++ e' :: l2).map key = (l1 ++ e :: l2).map key := by simp [hk]
  rw [← hsame] at h
  refine ⟨h, fun x hx hxk => ?_⟩
  have hmem : e' ∈ l1 ++ e' :: l2 := mem_append_right _ mem_cons_self
  exact inj_on_of_nodup_map h hx hmem (hxk.trans hk.symm)

theorem nodup_concat (h : (es.map key).Nodup) (hne : ∀ x ∈ es, x.key ≠ e.key) :
    ((es ++ [e]).map key).Nodup := by
  rw [map_append, map_singleton, ← concat_eq_append]
  refine h.concat fun hmem => ?_
  obtain ⟨x, hx, hxk⟩ := List.mem_map.1 hmem
  exact hne x hx hxk

/-- Keys are distinct, and an entry has at most 28 strings. -/
structure Small (s : Sys) : Prop where
  keys : (s.entries.map key).Nodup
  few : ∀ e ∈ s.entries, e.bStrCount ≤ selectCount + maxStrCount

theorem Small.withEntry {key : Int × Int} {f : Entry → Pool → Option (Entry × Pool)} (h : Small s)
    (hs : (withEntry key f s.entries s.pool).map (fun r => Sys.mk r.1 r.2) = some s')
    (hf : ∀ {e p e' p'}, f e p = some (e', p') → e'.key = e.key ∧
      (e.bStrCount ≤ selectCount + maxStrCount → e'.bStrCount ≤ selectCount + maxStrCount)) :
    Small s' := by
  rcases withEntry_some hs with ⟨rfl, -⟩ | ⟨l1, e, l2, e', hes, -, hfe, hes'⟩
  · exact h
  obtain ⟨hkeys, hfew⟩ := h
  rw [hes] at hkeys hfew
  obtain ⟨hk, hle⟩ := hf hfe
  refine ⟨?_, fun x hx => ?_⟩
  · rw [hes']
    exact (nodup_replace hkeys hk).1
  rw [hes'] at hx
  rcases mem_append.1 hx with hx | hx
  · exact hfew x (mem_append_left _ hx)
  · rcases mem_cons.1 hx with rfl | hx
    · exact hle (hfew e (mem_append_right _ mem_cons_self))
    · exact hfew x (mem_append_right _ (mem_cons_of_mem _ hx))

theorem checkClear_few (h : checkClear now mday e p = some (e', p')) :
    e'.bStrCount ≤ e.bStrCount := by
  unfold checkClear at h
  split at h
  · split at h
    · cases h
      exact le_refl _
    · obtain ⟨f, -, hf⟩ := bind_eq_some_iff.1 h
      cases hf
      exact Nat.zero_le _
  · cases h
    exact le_refl _

theorem Small.step {l : Label} (h : Small s) (hs : step s l = some s') : Small s' := by
  cases l with
  | add key r now mday room =>
    rw [L2.StrAttr.step] at hs
    split at hs
    · exact h.withEntry hs fun hf => ⟨addStrAttrReport_key hf, fun hle => by
        obtain ⟨_, hcl, hcount⟩ := bind_eq_some_iff.1 hf
        exact (count_effect hcount).2 ((checkClear_few hcl).trans hle)⟩
    case isFalse hno =>
      split at hs
      · obtain ⟨⟨e, p⟩, hcount, rfl⟩ := map_eq_some_iff.1 hs
        obtain ⟨heff, hfew⟩ := count_effect hcount
        have hkey : e.key = key := heff.key
        refine ⟨nodup_concat h.keys fun x hx hxk => hno ?_, fun x hx => ?_⟩
        · exact List.any_eq_true.2 ⟨x, hx, by simpa using hxk.trans hkey⟩
        · rcases mem_append.1 hx with hx | hx
          · exact h.few x hx
          · rw [mem_singleton.1 hx]
            exact hfew (Nat.zero_le _)
      · cases hs
        exact h
  | checkClear key now mday =>
    exact h.withEntry hs fun hf => ⟨checkClear_key hf, (checkClear_few hf).trans⟩
  | stamp key t =>
    refine h.withEntry hs fun hf => ?_
    cases hf
    exact ⟨rfl, id⟩

/-! ## Reloading -/

/-- The chain is one node. -/
def Single (e : Entry) (p : Pool) : Prop :=
  InRange e.iReportIdx ∧ nextOf p.stInfo e.iReportIdx = -1

theorem count_total (r : Report) (mday : Nat) (p : Pool)
    (h : e.bStrCount < selectCount + maxStrCount) : ∃ e' p', count r mday e p = some (e', p') := by
  unfold L2.StrAttr.count
  split
  · exact ⟨_, _, rfl⟩
  · exact ⟨_, _, rfl⟩
  · rw [if_neg (not_le.2 h)]
    exact ⟨_, _, rfl⟩

theorem count_empty {r : Report} (hw : InRange p.iWriteIdx) (h0 : e.bStrCount = 0)
    (h : count r mday e p = some (e', p')) : e'.bStrCount = 0 ∨ Single e' p' := by
  have hsmall : ¬ selectCount + maxStrCount ≤ 0 := by decide
  simp only [L2.StrAttr.count, h0] at h
  obtain ⟨-, hfound⟩ := findFree_spec p.stInfo maxNodes hw
  have hneg : ¬ InRange (-1) := by decide
  have he : addNode r.str r.v mday e p (-1) = (e', p') := Option.some.inj h
  unfold addNode at he
  rcases hff : findFree p.stInfo maxNodes p.iWriteIdx with ⟨_ | idx, w⟩
  · simp only [hff] at he
    cases he
    exact .inl h0
  · rw [hff] at hfound
    simp only [hff] at he
    cases he
    refine .inr ⟨(hfound idx rfl).1, ?_⟩
    simp [nextOf]

/-- The check before a report returns when a stale chain is at most one node. -/
theorem checkClear_load (hcl : e.stale now mday = true → e.bStrCount = 0 ∨ Single e p) :
    ∃ e' p', checkClear now mday e p = some (e', p') ∧ p'.iWriteIdx = p.iWriteIdx ∧
      e'.bStrCount ≤ e.bStrCount ∧
      ((e.stale now mday = true ∧ e'.bStrCount = 0) ∨ (e.stale now mday = false ∧ e' = e)) := by
  unfold checkClear
  cases hs : e.stale now mday with
  | false => exact ⟨e, p, rfl, rfl, le_refl _, .inr ⟨rfl, rfl⟩⟩
  | true =>
    by_cases h0 : e.bStrCount = 0
    · exact ⟨e, p, if_pos h0, rfl, le_refl _, .inl ⟨rfl, h0⟩⟩
    obtain ⟨hin, hnext⟩ := (hcl hs).resolve_left h0
    have hend : ¬ InRange (-1) := by decide
    have hclear : clearFrom (maxNodes + 1) e.iReportIdx p.stInfo =
        some (Function.update p.stInfo e.iReportIdx (markFree (p.stInfo e.iReportIdx))) := by
      rw [clearFrom, if_pos hin, hnext, maxNodes, clearFrom, if_neg hend]
    rw [if_neg h0, hclear]
    exact ⟨_, _, rfl, rfl, Nat.zero_le _, .inl ⟨rfl, rfl⟩⟩

theorem day_of_not_stale (h : e.stale now mday = false) :
    now ≤ (e.dwLastReportTime + 86400).toNat ∧ e.bLastReportDayOfMonth = mday := by
  rw [stale, Bool.or_eq_false_iff, decide_eq_false_iff_not, bne_eq_false_iff_eq] at h
  exact ⟨not_lt.1 h.1, h.2⟩

/-- A report for an entry with fewer than 28 strings. -/
theorem addStrAttrReport_load (r : Report) (hw : InRange p.iWriteIdx)
    (hb : e.bStrCount < selectCount + maxStrCount)
    (hcl : e.stale now mday = true → e.bStrCount = 0 ∨ Single e p) :
    ∃ e' p', addStrAttrReport r now mday e p = some (e', p') ∧ InRange p'.iWriteIdx ∧
      e'.bStrCount ≤ e.bStrCount + 1 ∧
      ((e'.bStrCount = 0 ∨ Single e' p') ∨
        (e.stale now mday = false ∧ e'.bLastReportDayOfMonth = mday)) := by
  obtain ⟨e1, p1, hcheck, hw1, hle1, hcase⟩ := checkClear_load hcl
  have hw1 : InRange p1.iWriteIdx := hw1 ▸ hw
  have hsmall : bStrCount { e1 with bAttrDataType := r.bAttrDataType } <
      selectCount + maxStrCount := lt_of_le_of_lt hle1 hb
  obtain ⟨e2, p2, hcount⟩ := count_total r mday p1 hsmall
  obtain ⟨heff, -⟩ := count_effect hcount
  have hle2 : e2.bStrCount ≤ e1.bStrCount + 1 := heff.count_le
  refine ⟨e2, p2, ?_, heff.write hw1, by omega, ?_⟩
  · unfold addStrAttrReport
    rw [hcheck]
    exact hcount
  · rcases hcase with ⟨-, h0⟩ | ⟨hstale, rfl⟩
    · have h0' : bStrCount { e1 with bAttrDataType := r.bAttrDataType } = 0 := h0
      exact .inl (count_empty hw1 h0' hcount)
    · exact .inr ⟨hstale, heff.day (day_of_not_stale hstale).2⟩

/-- The entry of `K` after at most `k` strings: if the next report finds it stale,
there is at most one node to clear. -/
structure Loading (env : Env) (t : UInt32) (K : Int × Int) (k : Nat) (s : Sys) : Prop where
  write : InRange s.pool.iWriteIdx
  keys : (s.entries.map key).Nodup
  few : ∀ e ∈ s.entries, e.key = K → e.bStrCount ≤ k
  stale : ∀ e ∈ s.entries, e.key = K →
    stale { e with dwLastReportTime := t } env.now env.mday = true →
      e.bStrCount = 0 ∨ Single e s.pool

/-- Entries of other keys were there before. -/
def OnlyAdds (K : Int × Int) (s s' : Sys) : Prop :=
  ∀ e ∈ s'.entries, e.key = K ∨ ∃ e0 ∈ s.entries, e0.key = e.key

theorem OnlyAdds.refl (K : Int × Int) (s : Sys) : OnlyAdds K s s :=
  fun e he => .inr ⟨e, he, rfl⟩

theorem OnlyAdds.trans {s1 s2 s3 : Sys} (h : OnlyAdds K s1 s2) (h' : OnlyAdds K s2 s3) :
    OnlyAdds K s1 s3 := by
  intro e he
  rcases h' e he with hk | ⟨e₁, he1, hk1⟩
  · exact .inl hk
  · rw [← hk1]
    exact h e₁ he1

theorem OnlyAdds.replace {l1 l2 : List Entry} (hes : s.entries = l1 ++ e :: l2)
    (hes' : s'.entries = l1 ++ e' :: l2) (hk : e'.key = K) : OnlyAdds K s s' := by
  intro x hx
  rw [hes'] at hx
  rcases mem_append.1 hx with hx | hx
  · exact .inr ⟨x, hes ▸ mem_append_left _ hx, rfl⟩
  · rcases mem_cons.1 hx with rfl | hx
    · exact .inl hk
    · exact .inr ⟨x, hes ▸ mem_append_right _ (mem_cons_of_mem _ hx), rfl⟩

/-- `AddStrAttrReportToShm` in the reload. -/
theorem Loading.add {t : UInt32} {k : Nat} (h : Loading env t K k s)
    (ht : ∀ e ∈ s.entries, e.key = K → e.dwLastReportTime = t)
    (hk : k < selectCount + maxStrCount) (r : Report) (room : Bool) :
    ∃ s', step s (.add K r env.now env.mday room) = some s' ∧ Loading env t K (k + 1) s' ∧
      OnlyAdds K s s' := by
  rw [step]
  split
  case isTrue hany =>
    rcases withEntry_cases K (addStrAttrReport r env.now env.mday) s.pool s.entries with
      ⟨hall, -⟩ | ⟨l1, e, l2, hes, -, heK, hw⟩
    · obtain ⟨e, he, hek⟩ := List.any_eq_true.1 hany
      exact absurd (by simpa using hek) (hall e he)
    have he : e ∈ s.entries := hes ▸ mem_append_right _ mem_cons_self
    have hte := ht e he heK
    have hfew := h.few e he heK
    have hstale : e.stale env.now env.mday = true → e.bStrCount = 0 ∨ Single e s.pool := by
      have := h.stale e he heK
      rw [← hte] at this
      exact this
    obtain ⟨e', p', hrun, hw', hle, hcase⟩ :=
      addStrAttrReport_load r h.write (lt_of_le_of_lt hfew hk) hstale
    have hkey := addStrAttrReport_key hrun
    have hkeys : ((l1 ++ e :: l2).map Entry.key).Nodup := hes ▸ h.keys
    obtain ⟨hnd, honly⟩ := nodup_replace hkeys hkey
    refine ⟨⟨l1 ++ e' :: l2, p'⟩, by rw [hw, hrun]; rfl, ⟨hw', hnd, ?_, ?_⟩,
      .replace hes rfl (hkey.trans heK)⟩
    · intro x hx hxK
      rw [honly x hx (hxK.trans heK.symm)]
      omega
    · intro x hx hxK hst
      rw [honly x hx (hxK.trans heK.symm)] at hst ⊢
      refine hcase.resolve_right ?_
      rintro ⟨hfresh, hday⟩
      -- the entry was not stale with this time, and it still has this day
      have hnow := (day_of_not_stale hfresh).1
      rw [hte] at hnow
      have hfresh' : Entry.stale { e' with dwLastReportTime := t } env.now env.mday = false :=
        stale_eq_false hday hnow
      rw [hfresh'] at hst
      cases hst
  case isFalse hno =>
    have hall : ∀ x ∈ s.entries, x.key ≠ K := fun x hx hxK =>
      hno (List.any_eq_true.2 ⟨x, hx, by simpa using hxK⟩)
    split
    · have hempty : (Entry.fresh K r.bAttrDataType).bStrCount < selectCount + maxStrCount := by
        show 0 < _
        decide
      obtain ⟨e', p', hcount⟩ := count_total r env.mday s.pool hempty
      obtain ⟨heff, -⟩ := count_effect hcount
      have hle : e'.bStrCount ≤ 0 + 1 := heff.count_le
      have hkey : e'.key = K := heff.key
      have honly : ∀ x ∈ s.entries ++ [e'], x.key = K → x = e' := by
        intro x hx hxK
        rcases mem_append.1 hx with hx | hx
        · exact absurd hxK (hall x hx)
        · exact mem_singleton.1 hx
      refine ⟨⟨s.entries ++ [e'], p'⟩, by rw [hcount]; rfl,
        ⟨heff.write h.write, nodup_concat h.keys (hkey ▸ hall), ?_, ?_⟩, ?_⟩
      · intro x hx hxK
        rw [honly x hx hxK]
        omega
      · intro x hx hxK _
        rw [honly x hx hxK]
        exact count_empty h.write rfl hcount
      · intro x hx
        rcases mem_append.1 hx with hx | hx
        · exact .inr ⟨x, hx, rfl⟩
        · exact .inl (mem_singleton.1 hx ▸ hkey)
    · exact ⟨s, rfl, ⟨h.write, h.keys, fun x hx hxK => absurd hxK (hall x hx),
        fun x hx hxK => absurd hxK (hall x hx)⟩, .refl K s⟩

theorem Loading.restamp {t : UInt32} {k : Nat} (h : Loading env t K k s) (iDataType : UInt8) :
    ∃ s', (withEntry K (restamp t iDataType) s.entries s.pool).map (fun r => Sys.mk r.1 r.2) =
        some s' ∧ Loading env t K k s' ∧ OnlyAdds K s s' ∧
        ∀ e ∈ s'.entries, e.key = K → e.dwLastReportTime = t := by
  rcases withEntry_cases K (StrAttrDb.restamp t iDataType) s.pool s.entries with
    ⟨hall, hno⟩ | ⟨l1, e, l2, hes, -, heK, hw⟩
  · exact ⟨s, by rw [hno]; rfl, h, .refl K s, fun x hx hxK => absurd hxK (hall x hx)⟩
  have hkeys : ((l1 ++ e :: l2).map key).Nodup := hes ▸ h.keys
  obtain ⟨hnd, honly⟩ := nodup_replace hkeys
    (show key { e with dwLastReportTime := t, bAttrDataType := iDataType } = e.key from rfl)
  have he : e ∈ s.entries := hes ▸ mem_append_right _ mem_cons_self
  refine ⟨⟨l1 ++ { e with dwLastReportTime := t, bAttrDataType := iDataType } :: l2, s.pool⟩,
    by rw [hw]; rfl, ⟨h.write, hnd, ?_, ?_⟩, .replace hes rfl heK, ?_⟩
  · intro x hx hxK
    rw [honly x hx (hxK.trans heK.symm)]
    exact h.few e he heK
  · intro x hx hxK
    rw [honly x hx (hxK.trans heK.symm)]
    exact h.stale e he heK
  · intro x hx hxK
    rw [honly x hx (hxK.trans heK.symm)]

theorem Loading.msgs (iDataType : UInt8)
    (hno : env.machines row.str_val.report_host_id = false) (infos : List AttrInfo) :
    ∀ {k} {s},
      Loading env (env.getuval row.report_time) (row.attr_id, row.str_val.report_host_id) k s →
      (∀ e ∈ s.entries, e.key = (row.attr_id, row.str_val.report_host_id) →
        e.dwLastReportTime = env.getuval row.report_time) →
      k + infos.length ≤ selectCount + maxStrCount →
      ∃ s', infos.foldlM (loadMsg env row iDataType) s = some s' ∧
        InRange s'.pool.iWriteIdx ∧ (s'.entries.map key).Nodup ∧
        OnlyAdds (row.attr_id, row.str_val.report_host_id) s s' := by
  induction infos with
  | nil => exact fun {_ s} h _ _ => ⟨s, rfl, h.write, h.keys, .refl _ s⟩
  | cons m infos ih =>
    intro k s h ht hle
    rw [length_cons] at hle
    obtain ⟨s1, hadd, h1, hk1⟩ := h.add ht (by omega) ⟨m.str, m.uint32_attr_value, 0⟩
      (env.room (row.attr_id, row.str_val.report_host_id))
    obtain ⟨s2, hstamp, h2, hk2, ht2⟩ := h1.restamp iDataType
    obtain ⟨s3, hrest, hw3, hnd3, hk3⟩ := ih h2 ht2 (by omega)
    refine ⟨s3, ?_, hw3, hnd3, (hk1.trans hk2).trans hk3⟩
    have hmsg : loadMsg env row iDataType s m = some s2 := by
      rw [loadMsg, hno]
      dsimp only
      rw [hadd]
      exact hstamp
    rw [foldlM_cons, hmsg]
    exact hrest

theorem loadMsg_known (iDataType : UInt8)
    (hyes : env.machines row.str_val.report_host_id = true) (s : Sys) :
    ∀ infos : List AttrInfo, infos.foldlM (loadMsg env row iDataType) s = some s
  | [] => rfl
  | m :: infos => by
    have hmsg : loadMsg env row iDataType s m = some s := by rw [loadMsg, hyes, if_pos rfl]
    rw [foldlM_cons, hmsg]
    exact loadMsg_known iDataType hyes s infos

/-- What the reload has so far. -/
structure Loaded (env : Env) (s : Sys) : Prop where
  write : InRange s.pool.iWriteIdx
  keys : (s.entries.map key).Nodup
  unknown : ∀ e ∈ s.entries, env.machines e.iMachineId = false

theorem loadRow_spec (h : Loaded env s)
    (hhost : row.str_val.msg_attr_info ≠ [] → row.str_val.report_host_id = row.machine_id)
    (hfew : row.str_val.msg_attr_info.length ≤ selectCount + maxStrCount)
    (hnew : row.str_val.msg_attr_info ≠ [] → ∀ e ∈ s.entries, e.key ≠ row.key) :
    ∃ s', loadRow env s row = some s' ∧ Loaded env s' ∧ OnlyAdds row.key s s' := by
  unfold loadRow
  cases hattr : env.attrs row.attr_id with
  | none => exact ⟨s, rfl, h, .refl _ s⟩
  | some iDataType =>
    by_cases hmsgs : row.str_val.msg_attr_info = []
    · exact ⟨s, by rw [hmsgs]; rfl, h, .refl _ s⟩
    cases hm : env.machines row.str_val.report_host_id with
    | true => exact ⟨s, loadMsg_known iDataType hm s _, h, .refl _ s⟩
    | false =>
      have hkey : (row.attr_id, row.str_val.report_host_id) = row.key := by
        rw [hhost hmsgs]
        rfl
      have hno : ∀ e ∈ s.entries, e.key ≠ (row.attr_id, row.str_val.report_host_id) := by
        rw [hkey]
        exact hnew hmsgs
      have hload : Loading env (env.getuval row.report_time)
          (row.attr_id, row.str_val.report_host_id) 0 s :=
        ⟨h.write, h.keys, fun e he hk => absurd hk (hno e he), fun e he hk => absurd hk (hno e he)⟩
      obtain ⟨s', hrun, hw, hnd, hadds⟩ := hload.msgs iDataType hm row.str_val.msg_attr_info
        (fun e he hk => absurd hk (hno e he)) (by omega)
      refine ⟨s', hrun, ⟨hw, hnd, fun e he => ?_⟩, hkey ▸ hadds⟩
      rcases hadds e he with hk | ⟨e0, he0, hk0⟩
      · rw [show e.iMachineId = row.str_val.report_host_id from congrArg Prod.snd hk]
        exact hm
      · rw [← show e0.iMachineId = e.iMachineId from congrArg Prod.snd hk0]
        exact h.unknown e0 he0

/-- The rows one by one: the next row with strings has a key that is not there. -/
theorem loadRows_spec {rows : List Row} : ∀ {s}, Fits rows → Loaded env s →
      (∀ r ∈ rows, r.str_val.msg_attr_info ≠ [] → ∀ e ∈ s.entries, e.key ≠ r.key) →
      ∃ s', rows.foldlM (loadRow env) s = some s' ∧ Loaded env s' := by
  induction rows with
  | nil => exact fun {s} _ h _ => ⟨s, rfl, h⟩
  | cons row rows ih =>
    intro s hfits h hnew
    obtain ⟨hfirst, hrest⟩ := pairwise_cons.1 hfits.first
    obtain ⟨s1, hrow, h1, hadds⟩ := loadRow_spec h (hfits.host row mem_cons_self)
      (hfits.few row mem_cons_self) (hnew row mem_cons_self)
    have hfits1 : Fits rows := ⟨hrest, fun r hr => hfits.host r (mem_cons_of_mem _ hr),
      fun r hr => hfits.few r (mem_cons_of_mem _ hr)⟩
    obtain ⟨s2, hrun, h2⟩ := ih hfits1 h1 fun r hr hmsgs e he hk => by
      rcases hadds e he with hk1 | ⟨e0, he0, hk0⟩
      · exact hmsgs (hfirst r hr (hk1.symm.trans hk))
      · exact hnew r (mem_cons_of_mem _ hr) hmsgs e0 he0 (hk0.trans hk)
    refine ⟨s2, ?_, h2⟩
    rw [foldlM_cons, hrow]
    exact hrun

/-- A reload on an empty pool returns, with entries of unknown machines only. -/
theorem readStrAttrInfo_spec (env : Env) (h : Fits rows) :
    ∃ s', readStrAttrInfoFromDbToShm env rows Sys.init = some s' ∧ Loaded env s' := by
  have hmem : ∀ r ∈ rows.filter (·.value = 0), r ∈ rows := fun r hr => mem_of_mem_filter hr
  have hfits : Fits (rows.filter (·.value = 0)) :=
    ⟨h.first.filter _, fun r hr => h.host r (hmem r hr), fun r hr => h.few r (hmem r hr)⟩
  have hinit : Loaded env Sys.init := ⟨by decide, nodup_nil, nofun⟩
  exact loadRows_spec hfits hinit fun _ _ _ => nofun

/-! ## The restart -/

theorem strMap_of_mem (h : Small s) (he : e ∈ s.entries) : strMap s e.key = entryNodes s.pool e := by
  have hfind : s.entries.find? (·.key = e.key) = some e := by
    obtain ⟨e₁, he1⟩ := isSome_iff_exists.1
      (find?_isSome.2 ⟨e, he, by simp⟩ : (s.entries.find? (·.key = e.key)).isSome)
    have hk : e₁.key = e.key := by simpa using find?_some he1
    rw [he1, inj_on_of_nodup_map h.keys (mem_of_find?_eq_some he1) he hk]
  rw [strMap, hfind]

theorem Loaded.strMap_known (h : Loaded env s) (hK : env.machines K.2 = true) :
    strMap s K = some [] := by
  have hfind : s.entries.find? (·.key = K) = none := by
    refine find?_eq_none.2 fun e he hk => ?_
    have hk : e.key = K := by simpa using hk
    have := h.unknown e he
    rw [show e.iMachineId = K.2 from congrArg Prod.snd hk, hK] at this
    cases this
  rw [strMap, hfind]

/-- In every state that calls reach: the strings survive a restart exactly when
every chain can be read and no entry with strings has an attribute and a machine
that exist. -/
theorem str_attr_restart_iff (env : Env) (ls : List Label) (s : Sys) (db : Table)
    (hs : run step ls Sys.init = some s) :
    Survives env s db ↔ (∀ e ∈ s.entries, (entryNodes s.pool e).isSome) ∧
      ∀ e ∈ s.entries, (env.attrs e.iAttrId).isSome → env.machines e.iMachineId →
        e.bStrCount = 0 := by
  have hinit : Small Sys.init := ⟨nodup_nil, nofun⟩
  have hall : Meets step (fun _ _ => True) ls Sys.init := meets_of_forall fun _ _ _ => trivial
  have hsmall : Small s := run_keeps (fun _ _ _ h _ hstep => h.step hstep) hinit hall hs
  constructor
  · rintro ⟨rows, s', hsave, hload, hsame⟩
    have hread := entryNodes_of_saveAll hsave
    refine ⟨hread, fun e he hattr hmach => ?_⟩
    obtain ⟨rows1, hsave1, hfits⟩ := saveAll_spec hsmall.few hread db.fits
    rw [hsave] at hsave1
    cases hsave1
    obtain ⟨s1, hload1, hloaded⟩ := readStrAttrInfo_spec env hfits
    rw [hload] at hload1
    cases hload1
    obtain ⟨m, m', hm, hm', hiff⟩ := hsame e he hattr hmach
    rw [hloaded.strMap_known hmach] at hm'
    cases hm'
    rw [strMap_of_mem hsmall he] at hm
    have hnil : m = [] := eq_nil_iff_forall_not_mem.2 fun x hx => nomatch (hiff x).1 hx
    rw [← readNodes_length hm, hnil]
    rfl
  · rintro ⟨hread, hnone⟩
    obtain ⟨rows, hsave, hfits⟩ := saveAll_spec hsmall.few hread db.fits
    obtain ⟨s', hload, hloaded⟩ := readStrAttrInfo_spec env hfits
    refine ⟨rows, s', hsave, hload, fun e he hattr hmach => ⟨[], [], ?_, ?_, fun _ => Iff.rfl⟩⟩
    · rw [strMap_of_mem hsmall he, entryNodes, hnone e he hattr hmach]
      rfl
    · exact hloaded.strMap_known hmach

/-- A restart at second 1000 of the day of the reports. -/
def restart (machines : Int → Bool) : Env := ⟨fun _ => some 0, machines, fun _ => true, id, 1000, 1⟩

/-- With the machine gone there is nothing to keep. -/
theorem str_attr_restart_gone :
    Survives (restart fun _ => false) oneString ⟨[], .nil, nofun, nofun⟩ :=
  (str_attr_restart_iff _ [report [97] 5, .stamp (1, 1) 1000] oneString _ rfl).2
    ⟨by decide, fun _ _ _ h => nomatch h⟩

/-- One string of a known machine: it is saved, and the reload passes over it. -/
theorem str_attr_restart_lost :
    ((run step [report [97] 5, .stamp (1, 1) 1000] Sys.init).bind fun s => do
      let rows ← saveAll s.pool s.entries []
      let s' ← readStrAttrInfoFromDbToShm (restart fun _ => true) rows Sys.init
      pure (rows, strMap s (1, 1), strMap s' (1, 1))) =
    some ([⟨1, 1, 0, ⟨[⟨5, [97]⟩], 1⟩, 1000⟩], some [⟨5, [97]⟩], some []) := by
  decide +kernel

end DesPwd.L4.StrAttrDb
